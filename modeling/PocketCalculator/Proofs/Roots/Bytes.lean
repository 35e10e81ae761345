import PocketCalculator.Proofs.Roots.Nesting

/-!
# Operands in bytes

A text is kept in UTF-8, and a place in it is a number of bytes.  This file says how the operand of
a root is measured there.  Whatever is taken apart is taken apart with a check: `Misstep` says what
can go wrong, an offset behind the end, an offset inside a character, and a count below zero.

* `cutAt_eq_ok_iff`: a text is taken apart at the size of a front, and nowhere else.
* `takeWhile_bytes` and `scan_bytes`: what is read byte by byte is what is read
  character by character, since no byte of another character is one of ASCII.
* `operandSize?_eq`: the measured size is the size of the operand, and no check fails.
-/

namespace PocketCalculator.Notation

/-- What can go wrong where a text is taken apart by its bytes. -/
inductive Misstep
  /-- An offset behind the end. -/
  | outside
  /-- An offset between the bytes of one character. -/
  | insideCharacter
  /-- A difference below zero. -/
  | negative
deriving DecidableEq, Repr

/-- The bytes of a text. -/
def bytes (s : Text) : List UInt8 := s.flatMap String.utf8EncodeChar

/-- How many bytes a text has. -/
def byteSize (s : Text) : Nat := (bytes s).length

/-- Takes a text apart behind its first `n` bytes. -/
def cutAt : Nat → Text → Except Misstep (Text × Text)
  | 0, s => .ok ([], s)
  | _ + 1, [] => .error .outside
  | n + 1, c :: s =>
    if n + 1 < c.utf8Size then .error .insideCharacter
    else (cutAt (n + 1 - c.utf8Size) s).map fun (front, behind) => (c :: front, behind)

/-- Takes `m` from `n`. -/
def minus (n m : Nat) : Except Misstep Nat :=
  if m ≤ n then .ok (n - m) else .error .negative

/-- The byte of a character of ASCII. -/
def ascii (c : Char) : UInt8 := UInt8.ofNat c.toNat

/-- Whether a byte is a digit. -/
def isDigitByte (b : UInt8) : Bool := ascii '0' ≤ b && b ≤ ascii '9'

/-- The size of the numeral in front of some bytes. -/
def numeralSize? (bs : List UInt8) : Except Misstep (Option Nat) :=
  let whole := (bs.takeWhile isDigitByte).length
  if whole = 0 then .ok none
  else if bs[whole]? = some (ascii '.') then
    if whole + 1 ≤ bs.length then
      let places := ((bs.drop (whole + 1)).takeWhile isDigitByte).length
      .ok (some (if places = 0 then whole else whole + 1 + places))
    else .error .outside
  else .ok (some whole)

/-- The place behind the parenthesis that closes a group, `i` bytes having been read and `depth`
parentheses being open. -/
def scan : Nat → Nat → List UInt8 → Except Misstep (Option Nat)
  | _, _, [] => .ok none
  | i, depth, b :: bs =>
    if b = ascii '(' then scan (i + 1) (depth + 1) bs
    else if b = ascii ')' then
      match minus depth 1 with
      | .error misstep => .error misstep
      | .ok 0 => .ok (some (i + 1))
      | .ok depth => scan (i + 1) depth bs
    else scan (i + 1) depth bs

/-- The size of the group in front of a text. -/
def groupSize? (s : Text) : Except Misstep (Option Nat) :=
  if s.head? = some '(' then scan 0 0 (bytes s) else .ok none

/-- The size of the operand in front of a text. -/
def operandSize? (s : Text) : Except Misstep (Option Nat) := do
  match ← numeralSize? (bytes s) with
  | some n => return some n
  | none =>
    let lead := if (dropLead? rootName s).isSome then byteSize rootName else 0
    let (_, called) ← cutAt lead s
    return (← groupSize? called).map (lead + ·)

variable {c : Char} {a b s : Text}

/-! ## Offsets -/

@[simp] theorem bytes_nil : bytes [] = [] := rfl

@[simp] theorem bytes_cons (c : Char) (s : Text) :
    bytes (c :: s) = String.utf8EncodeChar c ++ bytes s := rfl

@[simp] theorem bytes_append (a b : Text) : bytes (a ++ b) = bytes a ++ bytes b :=
  List.flatMap_append

@[simp] theorem byteSize_nil : byteSize [] = 0 := rfl

@[simp] theorem byteSize_cons (c : Char) (s : Text) :
    byteSize (c :: s) = c.utf8Size + byteSize s := by
  simp [byteSize]

@[simp] theorem byteSize_append (a b : Text) : byteSize (a ++ b) = byteSize a + byteSize b := by
  simp [byteSize]

theorem cutAt_byteSize (a b : Text) : cutAt (byteSize a) (a ++ b) = .ok (a, b) := by
  induction a with
  | nil => simp [cutAt]
  | cons c a ih =>
    obtain ⟨n, hsize⟩ : ∃ n, byteSize (c :: a) = n + 1 := by
      have := c.utf8Size_pos
      exact ⟨byteSize (c :: a) - 1, by rw [byteSize_cons]; omega⟩
    have hfits : ¬n + 1 < c.utf8Size := by rw [← hsize, byteSize_cons]; omega
    have hleft : n + 1 - c.utf8Size = byteSize a := by rw [← hsize, byteSize_cons]; omega
    rw [hsize, List.cons_append, cutAt, if_neg hfits, hleft, ih]
    rfl

/-- A text is taken apart at the size of a front, and nowhere else. -/
theorem cutAt_eq_ok_iff {n : Nat} : cutAt n s = .ok (a, b) ↔ s = a ++ b ∧ n = byteSize a := by
  constructor
  · intro h
    induction s generalizing n a with
    | nil =>
      cases n with
      | zero =>
        cases h
        exact ⟨rfl, rfl⟩
      | succ n => cases h
    | cons c s ih =>
      cases n with
      | zero =>
        cases h
        exact ⟨rfl, rfl⟩
      | succ n =>
        rw [cutAt] at h
        split at h
        · cases h
        · rename_i hfits
          cases hbehind : cutAt (n + 1 - c.utf8Size) s with
          | error misstep =>
            rw [hbehind] at h
            cases h
          | ok parts =>
            rw [hbehind] at h
            cases h
            obtain ⟨rfl, hsize⟩ := ih hbehind
            exact ⟨rfl, by rw [byteSize_cons]; omega⟩
  · rintro ⟨rfl, rfl⟩
    exact cutAt_byteSize a b

example : cutAt 2 "√4".toList = .error .insideCharacter := rfl

theorem byteSize_eq_zero_iff : byteSize s = 0 ↔ s = [] := by
  cases s with
  | nil => simp
  | cons c s =>
    have := c.utf8Size_pos
    simp only [byteSize_cons, reduceCtorEq, iff_false]
    omega

/-! ## Bytes and characters -/

theorem toNat_ascii (hc : c.toNat ≤ 127) : (ascii c).toNat = c.toNat := by
  rw [ascii, UInt8.toNat_ofNat']
  omega

/-- A character of ASCII is one byte, and the bytes of any other one are not of ASCII. -/
theorem utf8EncodeChar_cases (c : Char) :
    (c.toNat ≤ 127 ∧ String.utf8EncodeChar c = [ascii c]) ∨
      (127 < c.toNat ∧ ∀ b ∈ String.utf8EncodeChar c, 127 < b.toNat) := by
  have hcode : c.val.toNat = c.toNat := rfl
  rw [String.utf8EncodeChar, hcode]
  split_ifs with hone htwo hthree
  · exact .inl ⟨hone, rfl⟩
  all_goals
    refine .inr ⟨by omega, ?_⟩
    simp only [List.forall_mem_cons, UInt8.toNat_ofNat', List.not_mem_nil, false_implies,
      implies_true, and_true]
    omega

theorem mem_utf8EncodeChar {d : Char} (hd : d.toNat ≤ 127) :
    ascii d ∈ String.utf8EncodeChar c ↔ c = d := by
  obtain ⟨hc, hsingle⟩ | ⟨hc, hbeyond⟩ := utf8EncodeChar_cases c
  · rw [hsingle, List.mem_singleton]
    constructor
    · intro hsame
      have hcodes := congrArg UInt8.toNat hsame
      rw [toNat_ascii hd, toNat_ascii hc] at hcodes
      exact Char.toNat_inj.mp hcodes.symm
    · rintro rfl
      rfl
  · constructor
    · intro hmem
      have := hbeyond _ hmem
      rw [toNat_ascii hd] at this
      omega
    · rintro rfl
      omega

theorem head?_bytes {d : Char} (hd : d.toNat ≤ 127) :
    (bytes s).head? = some (ascii d) ↔ s.head? = some d := by
  cases s with
  | nil => simp
  | cons c s =>
    obtain ⟨b, bs, hencoded⟩ := List.exists_cons_of_ne_nil (String.utf8EncodeChar_ne_nil (c := c))
    rw [bytes_cons, hencoded, List.cons_append, List.head?_cons, List.head?_cons,
      Option.some.injEq, Option.some.injEq]
    constructor
    · rintro rfl
      exact (mem_utf8EncodeChar hd).mp (hencoded ▸ List.mem_cons_self)
    · rintro rfl
      obtain ⟨-, hsingle⟩ | ⟨hbeyond, -⟩ := utf8EncodeChar_cases c
      · exact (List.cons.inj (hencoded.symm.trans hsingle)).1
      · omega

/-! ## Digits -/

theorem isDigit_iff : c.isDigit = true ↔ 48 ≤ c.toNat ∧ c.toNat ≤ 57 := by
  simp [Char.isDigit, UInt32.le_iff_toNat_le]

theorem isDigitByte_iff {b : UInt8} : isDigitByte b = true ↔ 48 ≤ b.toNat ∧ b.toNat ≤ 57 := by
  simp [isDigitByte, UInt8.le_iff_toNat_le, toNat_ascii]

theorem utf8EncodeChar_digit (hc : c.isDigit = true) :
    String.utf8EncodeChar c = [ascii c] ∧ isDigitByte (ascii c) = true := by
  rw [isDigit_iff] at hc
  rw [isDigitByte_iff]
  obtain ⟨hsmall, hsingle⟩ | ⟨hbeyond, -⟩ := utf8EncodeChar_cases c
  · exact ⟨hsingle, by rwa [toNat_ascii hsmall]⟩
  · omega

theorem isDigitByte_of_mem {b : UInt8} (hc : c.isDigit = false)
    (hb : b ∈ String.utf8EncodeChar c) : isDigitByte b = false := by
  rw [← Bool.not_eq_true, isDigit_iff] at hc
  rw [← Bool.not_eq_true, isDigitByte_iff]
  obtain ⟨hsmall, hsingle⟩ | ⟨-, hbeyond⟩ := utf8EncodeChar_cases c
  · rw [hsingle, List.mem_singleton] at hb
    rwa [hb, toNat_ascii hsmall]
  · have := hbeyond b hb
    omega

/-- The digits in front of the bytes are the bytes of the digits in front. -/
theorem takeWhile_bytes (s : Text) :
    (bytes s).takeWhile isDigitByte = bytes (s.takeWhile Char.isDigit) := by
  induction s with
  | nil => rfl
  | cons c s ih =>
    rw [bytes_cons]
    cases hdigit : c.isDigit with
    | true =>
      obtain ⟨hsingle, hdigitByte⟩ := utf8EncodeChar_digit hdigit
      simp [hdigit, hsingle, hdigitByte, ih]
    | false =>
      obtain ⟨b, bs, hencoded⟩ := List.exists_cons_of_ne_nil (String.utf8EncodeChar_ne_nil (c := c))
      have hother := isDigitByte_of_mem hdigit (hencoded ▸ List.mem_cons_self)
      simp [hdigit, hencoded, hother]

/-- The numeral in front of a text is measured. -/
theorem numeralSize?_eq (s : Text) :
    numeralSize? (bytes s) = .ok ((numeral? s).map fun split => byteSize split.1) := by
  have hsplit : bytes s = bytes (s.takeWhile Char.isDigit) ++ bytes (s.dropWhile Char.isDigit) := by
    rw [← bytes_append, List.takeWhile_append_dropWhile]
  have hwhole : ((bytes s).takeWhile isDigitByte).length = byteSize (s.takeWhile Char.isDigit) := by
    rw [takeWhile_bytes, byteSize]
  have hbehind : (bytes s)[byteSize (s.takeWhile Char.isDigit)]? =
      (bytes (s.dropWhile Char.isDigit)).head? := by
    rw [hsplit, byteSize, List.getElem?_append_right le_rfl, Nat.sub_self, List.head?_eq_getElem?]
  have hpoint : (bytes (s.dropWhile Char.isDigit)).head? = some (ascii '.') ↔
      (s.dropWhile Char.isDigit).head? = some '.' := head?_bytes (by decide)
  simp only [numeralSize?, hwhole, hbehind, hpoint, byteSize_eq_zero_iff, numeral?,
    List.isEmpty_iff]
  by_cases hnone : s.takeWhile Char.isDigit = []
  · rw [if_pos hnone, if_pos hnone]
    rfl
  · rw [if_neg hnone, if_neg hnone]
    by_cases hdotted : (s.dropWhile Char.isDigit).head? = some '.'
    · obtain ⟨r, hrest⟩ := List.head?_eq_some_iff.mp hdotted
      have hone : ('.' : Char).utf8Size = 1 := rfl
      have hplaces : (bytes s).drop (byteSize (s.takeWhile Char.isDigit) + 1) = bytes r := by
        rw [hsplit, byteSize, ← List.drop_drop, List.drop_left, hrest]
        rfl
      have hinside : byteSize (s.takeWhile Char.isDigit) + 1 ≤ (bytes s).length := by
        rw [hsplit, byteSize, List.length_append, hrest]
        simp [hone]
      rw [if_pos hdotted, if_pos hinside, hplaces, takeWhile_bytes, hrest, ← byteSize]
      simp only [byteSize_eq_zero_iff]
      split_ifs
      · rfl
      · simp [hone, Nat.add_assoc]
    · rw [if_neg hdotted]
      split
      · rename_i hrest
        exact absurd (by rw [hrest]; rfl) hdotted
      · rfl

/-! ## Groups -/

theorem scan_append {front : List UInt8} (h : ascii '(' ∉ front ∧ ascii ')' ∉ front)
    (i depth : Nat) (bs : List UInt8) :
    scan i depth (front ++ bs) = scan (i + front.length) depth bs := by
  induction front generalizing i with
  | nil => rfl
  | cons b front ih =>
    simp only [List.mem_cons, not_or] at h
    obtain ⟨⟨hopen, hopening⟩, hclose, hclosing⟩ := h
    rw [List.cons_append, scan, if_neg (Ne.symm hopen), if_neg (Ne.symm hclose),
      ih ⟨hopening, hclosing⟩, List.length_cons]
    congr 1
    omega

/-- The group goes on to the parenthesis that is searched, and no parenthesis before it closes
more than is open. -/
theorem scan_bytes (i depth : Nat) (s : Text) :
    scan i (depth + 1) (bytes s) =
      .ok ((closing? depth s).map fun split => i + byteSize split.1) := by
  induction s generalizing i depth with
  | nil => rfl
  | cons c s ih =>
    rw [closing?_cons, bytes_cons]
    by_cases hopening : c = '('
    · subst hopening
      have hbracket : String.utf8EncodeChar '(' = [ascii '('] := rfl
      have hone : ('(' : Char).utf8Size = 1 := rfl
      rw [hbracket, List.singleton_append, scan, if_pos rfl, ih]
      simp [hone, Nat.add_assoc, Function.comp_def]
    · by_cases hclosing : c = ')'
      · subst hclosing
        have hbracket : String.utf8EncodeChar ')' = [ascii ')'] := rfl
        have hone : (')' : Char).utf8Size = 1 := rfl
        have hminusOne : minus (depth + 1) 1 = .ok depth := by simp [minus]
        have hapart : ascii ')' ≠ ascii '(' := by decide
        rw [hbracket, List.singleton_append, scan, if_neg hapart, if_pos rfl, hminusOne]
        cases depth with
        | zero => simp [hone]
        | succ depth =>
          show scan (i + 1) (depth + 1) (bytes s) = _
          rw [ih]
          simp [hone, Nat.add_assoc, Function.comp_def]
      · have habsent : ascii '(' ∉ String.utf8EncodeChar c ∧ ascii ')' ∉ String.utf8EncodeChar c :=
          ⟨mt (mem_utf8EncodeChar (by decide)).mp hopening,
            mt (mem_utf8EncodeChar (by decide)).mp hclosing⟩
        rw [scan_append habsent, ih, String.length_utf8EncodeChar]
        simp [hopening, hclosing, Nat.add_assoc, Function.comp_def]

theorem groupSize?_eq (s : Text) :
    groupSize? s = .ok ((group? s).map fun split => byteSize split.1) := by
  cases s with
  | nil => rfl
  | cons c s =>
    by_cases hopening : c = '('
    · subst hopening
      have hinside : groupSize? ('(' :: s) = scan 1 1 (bytes s) := rfl
      have hone : ('(' : Char).utf8Size = 1 := rfl
      rw [hinside, scan_bytes, group?, Option.map_map]
      simp [hone, Function.comp_def]
    · have hnone : group? (c :: s) = none := by
        unfold group?
        split
        · rename_i heq
          exact absurd (List.cons.inj heq).1 hopening
        · rfl
      simp [groupSize?, hopening, hnone]

/-! ## Operands -/

/-- The operand of a root is measured, and nothing goes wrong. -/
theorem operandSize?_eq (s : Text) :
    operandSize? s = .ok ((operand? s).map fun split => byteSize split.1) := by
  rw [operandSize?, numeralSize?_eq, operand?]
  cases numeral? s with
  | some split => rfl
  | none =>
    cases hname : dropLead? rootName s with
    | none =>
      have hwhole : cutAt 0 s = .ok ([], s) := cutAt_byteSize [] s
      simp [hwhole, groupSize?_eq, bind, Except.bind, pure, Except.pure, Function.comp_def]
    | some called =>
      obtain rfl := dropLead?_eq_some_iff.mp hname
      simp [cutAt_byteSize, groupSize?_eq, bind, Except.bind, pure, Except.pure, Function.comp_def]

end PocketCalculator.Notation
