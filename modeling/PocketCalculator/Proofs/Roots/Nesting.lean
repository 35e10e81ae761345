import PocketCalculator.Proofs.Joints

/-!
# Nesting

Parentheses are matched by counting how many are open.  A text is `Nested` if it closes what it
opens, and nothing else.  The parenthesis that closes a group is the first one behind a nested
text, and there is one exactly if the count fails.

* `closing?_eq_some_iff` and `depth?_eq_none_iff`: the search for it, and whether it is there.
* `depth?_expandRoots`: an expansion of roots opens and closes what the text does, so a
  parenthesis is matched in the one exactly if it is matched in the other.
* `expandRoots_closing`: the expansion falls into two parts at a parenthesis that is matched.
-/

namespace PocketCalculator.Notation

/-- How many parentheses are open behind a text, if `depth` are open in front of it; none if the
text closes one more than that. -/
def depth? : Nat → Text → Option Nat
  | depth, [] => some depth
  | depth, c :: s =>
    if c = '(' then depth? (depth + 1) s
    else if c = ')' then
      match depth with
      | 0 => none
      | depth + 1 => depth? depth s
    else depth? depth s

/-- Whether a text closes what it opens, and nothing else. -/
def Nested (s : Text) : Prop := depth? 0 s = some 0

instance (s : Text) : Decidable (Nested s) := inferInstanceAs (Decidable (_ = _))

variable {depth : Nat} {a b s rest : Text}

/-! ## Counting -/

/-- How many parentheses are open behind a character. -/
def next (depth : Nat) (c : Char) : Nat :=
  if c = '(' then depth + 1 else if c = ')' then depth - 1 else depth

/-- The count fails at a parenthesis that closes nothing, and goes on at any other character. -/
theorem depth?_cons (depth : Nat) (c : Char) (s : Text) :
    depth? depth (c :: s) = if c = ')' ∧ depth = 0 then none else depth? (next depth c) s := by
  rw [depth?.eq_def, next]
  by_cases hopening : c = '('
  · simp [hopening]
  · by_cases hclosing : c = ')'
    · cases depth <;> simp [hclosing]
    · simp [hopening, hclosing]

theorem depth?_append (depth : Nat) (a b : Text) :
    depth? depth (a ++ b) = (depth? depth a).bind (depth? · b) := by
  induction a generalizing depth with
  | nil => rfl
  | cons c a ih =>
    rw [List.cons_append, depth?_cons, depth?_cons]
    split
    · rfl
    · exact ih _

/-- Parentheses that are open in addition stay open. -/
theorem depth?_add {left : Nat} (h : depth? depth s = some left) (more : Nat) :
    depth? (depth + more) s = some (left + more) := by
  induction s generalizing depth with
  | nil =>
    cases h
    rfl
  | cons c s ih =>
    rw [depth?_cons] at h ⊢
    split at h
    · cases h
    case isFalse hgoesOn =>
      have hshifted : next (depth + more) c = next depth c + more := by
        unfold next
        split_ifs with hopening hclosing
        · omega
        · have : depth ≠ 0 := fun hnone => hgoesOn ⟨hclosing, hnone⟩
          omega
        · rfl
      rw [if_neg (fun hnone => hgoesOn ⟨hnone.1, by omega⟩), hshifted]
      exact ih h

/-- Parentheses that are open in front of a nested text are open behind it. -/
theorem Nested.depth? (h : Nested s) (depth : Nat) : depth? depth s = some depth := by
  simpa using depth?_add h depth

/-- A nested text does not matter to what comes behind it. -/
theorem Nested.skip (h : Nested a) (depth : Nat) (b : Text) :
    Notation.depth? depth (a ++ b) = Notation.depth? depth b := by
  rw [depth?_append, h.depth?]
  rfl

theorem Nested.append (ha : Nested a) (hb : Nested b) : Nested (a ++ b) :=
  (ha.skip 0 b).trans hb

theorem nested_of_notMem (hopening : '(' ∉ s) (hclosing : ')' ∉ s) : Nested s := by
  induction s with
  | nil => rfl
  | cons c s ih =>
    simp only [List.mem_cons, not_or] at hopening hclosing
    rw [Nested, Notation.depth?, if_neg (Ne.symm hopening.1), if_neg (Ne.symm hclosing.1)]
    exact ih hopening.2 hclosing.2

theorem Nested.enclosed (h : Nested s) : Nested (enclosed s) := by
  show Notation.depth? 1 (s ++ [')']) = some 0
  rw [h.skip]
  rfl

/-! ## The parenthesis that closes a group -/

/-- The search for a closing parenthesis counts on behind a text. -/
theorem closing?_of_depth {left : Nat} (h : depth? depth a = some left) (rest : Text) :
    closing? depth (a ++ rest) =
      (closing? left rest).map fun split => (a ++ split.1, split.2) := by
  induction a generalizing depth with
  | nil =>
    cases h
    simp
  | cons c a ih =>
    rw [depth?_cons] at h
    rw [List.cons_append, closing?_cons]
    split at h
    · cases h
    case isFalse hgoesOn =>
      rw [if_neg hgoesOn]
      show (closing? (next depth c) (a ++ rest)).map _ = _
      rw [ih h, Option.map_map]
      rfl

theorem Nested.balanced (h : Nested s) : Balanced s :=
  fun depth rest => closing?_of_depth (h.depth? depth) rest

/-- The parenthesis behind a text that closes all that was open is the one that is searched. -/
theorem closing?_closed (h : depth? depth a = some 0) (rest : Text) :
    closing? depth (a ++ ')' :: rest) = some (a ++ [')'], rest) := by
  rw [closing?_of_depth h]
  rfl

/-- The count fails at the parenthesis that is searched, if there is one. -/
theorem depth?_eq_none_iff :
    depth? depth s = none ↔
      ∃ inner rest, s = inner ++ ')' :: rest ∧ depth? depth inner = some 0 := by
  constructor
  · intro h
    induction s generalizing depth with
    | nil => cases h
    | cons c s ih =>
      rw [depth?_cons] at h
      split at h
      case isTrue hclosed =>
        obtain ⟨rfl, rfl⟩ := hclosed
        exact ⟨[], s, rfl, rfl⟩
      case isFalse hgoesOn =>
        obtain ⟨inner, rest, rfl, hcloses⟩ := ih h
        exact ⟨c :: inner, rest, rfl, by rw [depth?_cons, if_neg hgoesOn, hcloses]⟩
  · rintro ⟨inner, rest, rfl, hcloses⟩
    rw [depth?_append, hcloses]
    rfl

/-- Where a group ends, if it does. -/
theorem closing?_eq_some_iff {group : Text} :
    closing? depth s = some (group, rest) ↔
      ∃ inner, s = inner ++ ')' :: rest ∧ group = inner ++ [')'] ∧ depth? depth inner = some 0 := by
  constructor
  · intro h
    cases hcount : depth? depth s with
    | none =>
      obtain ⟨inner, rest', rfl, hcloses⟩ := depth?_eq_none_iff.mp hcount
      rw [closing?_closed hcloses] at h
      cases h
      exact ⟨inner, rfl, rfl, hcloses⟩
    | some left =>
      have hsearch := closing?_of_depth hcount []
      rw [List.append_nil, h] at hsearch
      cases hsearch
  · rintro ⟨inner, rfl, rfl, hcloses⟩
    exact closing?_closed hcloses rest

/-- A text ends in one way only at the parenthesis that closes it. -/
theorem closed_unique {a' b' : Text} (hsplit : a ++ ')' :: b = a' ++ ')' :: b')
    (ha : depth? depth a = some 0) (ha' : depth? depth a' = some 0) : a = a' ∧ b = b' := by
  have hsame := closing?_closed ha b
  rw [hsplit, closing?_closed ha'] at hsame
  simp only [Option.some.injEq, Prod.mk.injEq] at hsame
  exact ⟨(List.append_cancel_right hsame.1).symm, hsame.2.symm⟩

/-! ## Operands -/

theorem group?_cases {group : Text} (h : group? s = some (group, rest)) :
    ∃ inner, Nested inner ∧ group = enclosed inner := by
  obtain ⟨_, closed, -, rfl, hfound⟩ := group?_eq_some_iff.mp h
  obtain ⟨inner, -, rfl, hcloses⟩ := closing?_eq_some_iff.mp hfound
  exact ⟨inner, hcloses, rfl⟩

/-- An operand is a numeral, a group or a call. -/
theorem operand?_forms {operand : Text} (h : operand? s = some (operand, rest)) :
    numeral? s = some (operand, rest) ∨
      ∃ inner, Nested inner ∧
        (operand = enclosed inner ∨ operand = rootName ++ enclosed inner) := by
  obtain hnumeral | hfound | ⟨_, group, -, rfl, hfound⟩ := operand?_kinds h
  · exact .inl hnumeral
  · obtain ⟨inner, hnested, rfl⟩ := group?_cases hfound
    exact .inr ⟨inner, hnested, .inl rfl⟩
  · obtain ⟨inner, hnested, rfl⟩ := group?_cases hfound
    exact .inr ⟨inner, hnested, .inr rfl⟩

theorem nested_rootName : Nested rootName := by decide

theorem nested_call (h : Nested s) : Nested (rootName ++ enclosed s) :=
  nested_rootName.append h.enclosed

theorem nested_operand {operand : Text} (h : operand? s = some (operand, rest)) :
    Nested operand := by
  obtain hnumeral | ⟨inner, hnested, rfl | rfl⟩ := operand?_forms h
  · have hother (c : Char) (hdigit : c.isDigit = false) (hpoint : c ≠ '.') : c ∉ operand := by
      intro hmem
      obtain hisDigit | hisPoint := numeral?_figures hnumeral c hmem
      · simp [hdigit] at hisDigit
      · exact hpoint hisPoint
    exact nested_of_notMem (hother _ rfl (by decide)) (hother _ rfl (by decide))
  · exact hnested.enclosed
  · exact nested_call hnested

theorem nested_of_all_isBlank (h : s.all isBlank = true) : Nested s := by
  rw [List.all_eq_true] at h
  exact nested_of_notMem (fun hc => Bool.false_ne_true (h _ hc)) fun hc =>
    Bool.false_ne_true (h _ hc)

/-! ## Expansions -/

/-- The blanks in front of a text. -/
theorem exists_trimStart (s : Text) :
    ∃ blanks, blanks.all isBlank = true ∧ s = blanks ++ trimStart s :=
  ⟨s.takeWhile isBlank, List.all_takeWhile, List.takeWhile_append_dropWhile.symm⟩

/-- A root becomes a call of its operand. -/
theorem root_eq_call (operand rest : Text) :
    rootName ++ '(' :: operand ++ ')' :: rest = rootName ++ enclosed operand ++ rest := by
  simp [enclosed]

/-- An expansion opens and closes what the text does. -/
theorem depth?_expandRoots {raw : Text} (h : expandRoots raw = some s) (depth : Nat) :
    depth? depth s = depth? depth raw := by
  induction raw generalizing s depth with
  | nil =>
    cases h
    rfl
  | cons c raw ih =>
    obtain ⟨behind, hbehind, ⟨-, rfl⟩ | ⟨operand, rest, rfl, hfound, rfl⟩⟩ :=
      expandRoots_cons_eq_some h
    · rw [depth?_cons, depth?_cons, ih hbehind]
    · obtain ⟨blanks, hblank, hsplit⟩ := exists_trimStart behind
      have hnested := nested_operand hfound
      calc depth? depth (rootName ++ '(' :: operand ++ ')' :: rest)
        _ = depth? depth (rootName ++ enclosed operand ++ rest) := by rw [root_eq_call]
        _ = depth? depth rest := (nested_call hnested).skip depth rest
        _ = depth? depth (operand ++ rest) := (hnested.skip depth rest).symm
        _ = depth? depth behind := by
          rw [hsplit, operand?_eq_some hfound, (nested_of_all_isBlank hblank).skip]
        _ = depth? depth (rootSign :: raw) := ih hbehind depth

/-- The group that is found in front of a parenthesis that closes no group before it. -/
theorem group?_within {group : Text} (hcloses : depth? depth a = some 0)
    (h : group? (a ++ ')' :: b) = some (group, rest)) :
    ∃ rest', rest = rest' ++ ')' :: b ∧ group? a = some (group, rest') := by
  cases a with
  | nil => cases h
  | cons c a =>
    by_cases hopening : c = '('
    · subst hopening
      change (closing? 0 (a ++ ')' :: b)).map _ = _ at h
      rw [depth?_cons, if_neg fun hclosing => absurd hclosing.1 (by decide)] at hcloses
      cases hcount : depth? 0 a with
      | some left =>
        -- The group is still open where the parenthesis stands.
        have hstillOpen : depth? (0 + (depth + 1)) a = some (left + (depth + 1)) :=
          depth?_add hcount _
        rw [Nat.zero_add] at hstillOpen
        cases hcloses.symm.trans hstillOpen
      | none =>
        obtain ⟨inner, rest', rfl, hinside⟩ := depth?_eq_none_iff.mp hcount
        rw [List.append_assoc, List.cons_append, closing?_closed hinside] at h
        cases h
        refine ⟨rest', rfl, ?_⟩
        rw [group?, closing?_closed hinside]
        rfl
    · unfold group? at h
      split at h
      · rename_i heq
        exact absurd (List.cons.inj heq).1 hopening
      · cases h

/-- The operand that is found in front of such a parenthesis. -/
theorem operand?_within {operand : Text} (hcloses : depth? depth a = some 0)
    (h : operand? (a ++ ')' :: b) = some (operand, rest)) :
    ∃ rest', rest = rest' ++ ')' :: b ∧ operand? a = some (operand, rest') := by
  unfold operand? at h ⊢
  rw [numeral?_stop stop_closing, dropLead?_append_cons stop_closing.name] at h
  cases hnumeral : numeral? a with
  | some split =>
    rw [hnumeral] at h
    cases h
    exact ⟨split.2, rfl, rfl⟩
  | none =>
    rw [hnumeral] at h
    cases hname : dropLead? rootName a with
    | none =>
      rw [hname] at h
      exact group?_within hcloses h
    | some behind =>
      rw [hname] at h
      obtain ⟨⟨group, rest⟩, hfound, heq⟩ := Option.map_eq_some_iff.mp h
      cases heq
      rw [dropLead?_eq_some_iff.mp hname, nested_rootName.skip] at hcloses
      obtain ⟨rest', rfl, hinside⟩ := group?_within hcloses hfound
      exact ⟨rest', rfl, by simp [hinside]⟩

/-- A text with a matched parenthesis falls into two parts there, and their roots are expanded
one by one. -/
theorem expandRoots_closing (hcloses : depth? depth a = some 0)
    (h : expandRoots (a ++ ')' :: b) = some s) :
    ∃ a' b', s = a' ++ ')' :: b' ∧ expandRoots a = some a' ∧ expandRoots b = some b' := by
  induction a generalizing depth s with
  | nil =>
    obtain ⟨behind, hbehind, ⟨-, rfl⟩ | ⟨-, -, hroot, -⟩⟩ := expandRoots_cons_eq_some h
    · exact ⟨[], behind, rfl, rfl, hbehind⟩
    · cases hroot
  | cons c a ih =>
    rw [depth?_cons] at hcloses
    split at hcloses
    · cases hcloses
    · obtain ⟨behind, hbehind, hkind⟩ := expandRoots_cons_eq_some h
      obtain ⟨a', b', rfl, ha, hb⟩ := ih hcloses hbehind
      obtain ⟨hplain, rfl⟩ | ⟨operand, rest, rfl, hfound, rfl⟩ := hkind
      · exact ⟨c :: a', b', rfl, by rw [expandRoots, ha]; exact if_neg hplain, hb⟩
      · have htrimmed : trimStart (a' ++ ')' :: b') = trimStart a' ++ ')' :: b' :=
          (takeWhile_append_cons (by rfl) a' b').2
        rw [htrimmed] at hfound
        have hcloses' : depth? (next depth rootSign) (trimStart a') = some 0 := by
          obtain ⟨blanks, hblank, hsplit⟩ := exists_trimStart a'
          rw [← (nested_of_all_isBlank hblank).skip, ← hsplit, depth?_expandRoots ha, hcloses]
        obtain ⟨rest', rfl, hinside⟩ := operand?_within hcloses' hfound
        refine ⟨rootName ++ '(' :: operand ++ ')' :: rest', b', by simp, ?_, hb⟩
        rw [expandRoots, ha]
        simp [hinside]

end PocketCalculator.Notation
