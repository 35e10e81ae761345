import PocketCalculator.Proofs.Joints
import PocketCalculator.Proofs.Legible
import PocketCalculator.Proofs.Typed.Rewriting

/-!
# Reading one part after the other

A text is read from left to right: each lexeme is as long as it can be, and the first fault
ends the reading (`Token.scan_eq_read`).  No lexeme reaches over a blank, and at most one of
two stars stands on either side of it, so the parts of a text before and behind a blank are read
one by one (`Token.read_across_blank`).  The same holds at the other marks, the star apart
(`Token.read_append_mark`).
-/

namespace PocketCalculator

namespace Lexeme

open Token (isFigure)

/-! ## Longest lexemes -/

/-- The characters that a word runs on over. -/
def inWord (c : Char) : Bool := startsWord c || isFigure c

/-- The lexeme at the front of a text that begins with `c`, as long as it can be, and the
text behind it. -/
def front (c : Char) (s : Text) : Lexeme × Text :=
  if startsWord c then (word (c :: s.takeWhile inWord), s.dropWhile inWord)
  else if isFigure c then (number (c :: s.takeWhile isFigure), s.dropWhile isFigure)
  else (mark c, s)

theorem length_front_le (c : Char) (s : Text) : (front c s).2.length ≤ s.length := by
  unfold front
  split
  · exact (List.dropWhile_sublist _).length_le
  · split
    · exact (List.dropWhile_sublist _).length_le
    · exact le_rfl

theorem front_star (s : Text) : front '*' s = (mark '*', s) := rfl

theorem startsWord_of_isFigure {c : Char} (h : isFigure c = true) : startsWord c = false := by
  obtain hdigit | hpoint := Bool.or_eq_true_iff.mp h
  · exact startsWord_of_isDigit hdigit
  · rw [beq_iff_eq.mp hpoint]
    rfl

/-- Behind a longest run of characters there is none of them. -/
theorem of_mem_head?_dropWhile {p : Char → Bool} {s : Text} {c : Char}
    (h : c ∈ (s.dropWhile p).head?) : p c = false := by
  have hnot := List.head?_dropWhile_not p s
  rw [Option.mem_def.mp h] at hnot
  exact hnot

/-- A word at the front of a text runs on as far as it can. -/
theorem split_cons_word {c : Char} (hword : startsWord c = true) (s : Text) :
    split isFigure (c :: s) =
      word (c :: s.takeWhile inWord) :: split isFigure (s.dropWhile inWord) := by
  have hproper : (word (c :: s.takeWhile inWord)).Proper isFigure := by
    refine ⟨⟨c, rfl, hword⟩, List.forall_mem_cons.mpr ⟨.inl hword, fun d hd => ?_⟩⟩
    have hrun : inWord d = true := List.mem_takeWhile_imp hd
    exact Bool.or_eq_true_iff.mp hrun
  have hapart : ∀ r ∈ (split isFigure (s.dropWhile inWord)).head?,
      (word (c :: s.takeWhile inWord)).Apart r := by
    intro r hr
    cases hrest : s.dropWhile inWord with
    | nil =>
      rw [hrest] at hr
      cases hr
    | cons d rest =>
      have hstop : inWord d = false := of_mem_head?_dropWhile (by rw [hrest]; rfl)
      obtain ⟨hletter, hfigure⟩ := Bool.or_eq_false_iff.mp hstop
      rw [hrest, split_mark_cons hletter hfigure] at hr
      exact Option.some.inj hr ▸ apart_before_mark _ d
  rw [← split_text_append hproper hapart, text, List.cons_append, List.takeWhile_append_dropWhile]

/-- A number at the front of a text runs on as far as it can. -/
theorem split_cons_number {c : Char} (hword : startsWord c = false) (hfigure : isFigure c = true)
    (s : Text) :
    split isFigure (c :: s) =
      number (c :: s.takeWhile isFigure) :: split isFigure (s.dropWhile isFigure) := by
  have hproper : (number (c :: s.takeWhile isFigure)).Proper isFigure := by
    refine ⟨by simp, List.forall_mem_cons.mpr ⟨⟨hword, hfigure⟩, fun d hd => ?_⟩⟩
    have hrun : isFigure d = true := List.mem_takeWhile_imp hd
    exact ⟨startsWord_of_isFigure hrun, hrun⟩
  have hapart : ∀ r ∈ (split isFigure (s.dropWhile isFigure)).head?,
      (number (c :: s.takeWhile isFigure)).Apart r := by
    intro r hr
    cases hrest : s.dropWhile isFigure with
    | nil =>
      rw [hrest] at hr
      cases hr
    | cons d rest =>
      have hstop : isFigure d = false := of_mem_head?_dropWhile (by rw [hrest]; rfl)
      rw [hrest] at hr
      cases hletter : startsWord d with
      | true =>
        rw [split_cons, push_of_startsWord hletter] at hr
        cases hr
        trivial
      | false =>
        rw [split_mark_cons hletter hstop] at hr
        cases hr
        trivial
  rw [← split_text_append hproper hapart, text, List.cons_append, List.takeWhile_append_dropWhile]

/-- Cutting takes the longest lexeme from the front of a text. -/
theorem split_cons_front (c : Char) (s : Text) :
    split isFigure (c :: s) = (front c s).1 :: split isFigure (front c s).2 := by
  unfold front
  split
  case isTrue hword => exact split_cons_word hword s
  case isFalse hword =>
    rw [Bool.not_eq_true] at hword
    split
    case isTrue hfigure => exact split_cons_number hword hfigure s
    case isFalse hfigure =>
      rw [Bool.not_eq_true] at hfigure
      exact split_mark_cons hword hfigure s

end Lexeme

namespace Token

open Lexeme

/-- Reads a text from left to right: two stars are a power, and otherwise the longest lexeme
in front is a token, a blank or the fault that is told. -/
def scan : Text → Except SyntaxFault (List Token)
  | [] => .ok []
  | '*' :: '*' :: s => (scan s).map (operator .pow :: ·)
  | c :: s =>
    match ofLexeme (front c s).1 with
    | .error fault => .error fault
    | .ok t => (scan (front c s).2).map (t.toList ++ ·)
termination_by s => s.length
decreasing_by
  · simp only [List.length_cons]
    omega
  · have := length_front_le c s
    simp only [List.length_cons]
    omega

/-- Only a star is a lexeme of one star. -/
theorem eq_star_of_front {c : Char} {s : Text} (h : (front c s).1 = mark '*') :
    c = '*' ∧ (front c s).2 = s := by
  unfold front at h ⊢
  split at h
  case isTrue => cases h
  case isFalse hword =>
    split at h
    case isTrue => cases h
    case isFalse hfigure =>
      rw [if_neg hword, if_neg hfigure]
      exact ⟨mark.inj h, rfl⟩

/-- Two stars in front of the lexemes are the first two characters. -/
theorem eq_stars_of_front {c : Char} {s : Text} {more : List Lexeme}
    (h : (front c s).1 = mark '*') (hmore : split isFigure (front c s).2 = mark '*' :: more) :
    ∃ rest, c = '*' ∧ s = '*' :: rest := by
  obtain ⟨rfl, hrest⟩ := eq_star_of_front h
  rw [hrest] at hmore
  cases s with
  | nil => cases hmore
  | cons d rest =>
    rw [split_cons_front] at hmore
    obtain ⟨rfl, -⟩ := eq_star_of_front (List.cons.inj hmore).1
    exact ⟨rest, rfl, rfl⟩

theorem scan_eq_read (s : Text) : scan s = read s := by
  unfold read
  fun_induction scan s with
  | case1 => rfl
  | case2 s ih => rw [split_cons_front, front_star, split_cons_front, front_star, ofLexemes, ih]
  | case3 c s hstars fault hfault =>
    rw [split_cons_front, ofLexemes]
    · rw [hfault]
    · intro more hfirst hmore
      obtain ⟨rest, rfl, rfl⟩ := eq_stars_of_front hfirst hmore
      exact hstars rest rfl rfl
  | case4 c s hstars t ht ih =>
    rw [split_cons_front, ofLexemes]
    · rw [ht, ih]
      cases t with
      | none => cases ofLexemes (split isFigure (front c s).2) <;> rfl
      | some t => rfl
    · intro more hfirst hmore
      obtain ⟨rest, rfl, rfl⟩ := eq_stars_of_front hfirst hmore
      exact hstars rest rfl rfl

/-! ## One lexeme -/

/-- A text of one lexeme is read as the token of the lexeme. -/
theorem read_lexeme {l : Lexeme} {t : Token} (hproper : l.Proper isFigure)
    (hl : ofLexeme l = .ok (some t)) : read l.text = .ok [t] := by
  have hcut : Cut isFigure [l] := ⟨hproper, by simp, trivial⟩
  have hsplit : split isFigure l.text = [l] := by simpa using split_render hcut
  rw [read, hsplit, ofLexemes]
  · rw [hl]
    rfl
  · intro more _ hmore
    cases hmore

/-- A numeral is read as its value. -/
theorem read_figures (n : Notation.Figures) : read n.text = .ok [number n.value] :=
  read_lexeme (Notation.cut_numeral .read n).1 (Notation.ofLexeme_figures n)

/-! ## Across a mark -/

variable {c : Char}

theorem ofLexemes_cons_blank (hc : isBlank c = true) (ls : List Lexeme) :
    ofLexemes (mark c :: ls) = ofLexemes ls := by
  rw [ofLexemes]
  · simp only [ofLexeme_blank hc]
  · rintro rest hl -
    rw [mark.inj hl] at hc
    cases hc

/-- Lexemes are read one part after the other, unless the second part begins with a star, which
is one token with a star before it. -/
theorem ofLexemes_append {a b : List Lexeme} (hb : mark '*' ∉ b.head?) :
    ofLexemes (a ++ b) = (ofLexemes a).bind fun ts => (ofLexemes b).map (ts ++ ·) := by
  have hapart {l : Lexeme} {rest : List Lexeme}
      (hstars : ∀ more, l = mark '*' → rest = mark '*' :: more → False) :
      ∀ more, l = mark '*' → rest ++ b = mark '*' :: more → False := by
    intro more hl hmore
    cases rest with
    | nil =>
      rw [List.nil_append] at hmore
      exact hb (by rw [hmore]; rfl)
    | cons r rest => exact hstars rest hl (by rw [(List.cons.inj hmore).1])
  fun_induction ofLexemes a with
  | case1 => cases hrest : ofLexemes b <;> simp [hrest, Except.bind, Except.map]
  | case2 rest ih =>
    simp only [List.cons_append, ofLexemes, ih]
    cases ofLexemes rest with
    | error fault => rfl
    | ok ts => cases ofLexemes b <;> rfl
  | case3 l rest hstars fault hl =>
    rw [List.cons_append, ofLexemes]
    · simp only [hl]
      rfl
    · exact hapart hstars
  | case4 l rest hstars hl ih =>
    rw [List.cons_append, ofLexemes]
    · simp only [hl, ih]
    · exact hapart hstars
  | case5 l rest hstars t hl ih =>
    rw [List.cons_append, ofLexemes]
    · simp only [hl, ih]
      cases ofLexemes rest with
      | error fault => rfl
      | ok ts => cases ofLexemes b <;> rfl
    · exact hapart hstars

/-- The tokens in front of a mark that is no star are read first, and then those behind it. -/
theorem read_append_mark (hstar : c ≠ '*') (hword : startsWord c = false)
    (hfigure : isFigure c = false) (a b : Text) :
    read (a ++ c :: b) = (read a).bind fun ts => (read (c :: b)).map (ts ++ ·) := by
  have hmark : mark '*' ∉ (mark c :: split isFigure b).head? := by simpa using hstar
  rw [read, split_append_mark hword hfigure, ofLexemes_append hmark, read, read,
    split_mark_cons hword hfigure]

/-- Where a word begins behind something that is no word, the tokens before it are read first,
and then the word and those behind it. -/
theorem read_append_word (hword : startsWord c = true) {a : Text}
    (ha : ∀ name, word name ∉ (split isFigure a).getLast?) (b : Text) :
    read (a ++ c :: b) = (read a).bind fun ts => (read (c :: b)).map (ts ++ ·) := by
  have hhead : ∀ y ∈ (split isFigure (c :: b)).head?, ∃ name, y = word name := by
    intro y hy
    rw [split_cons, push_of_startsWord hword] at hy
    exact ⟨_, (Option.some.inj hy).symm⟩
  have hstar : mark '*' ∉ (split isFigure (c :: b)).head? := by
    intro hmem
    obtain ⟨name, hname⟩ := hhead _ hmem
    cases hname
  rw [read, split_append, ofLexemes_append hstar, read, read]
  intro x hx y hy
  obtain ⟨name, rfl⟩ := hhead y hy
  cases x with
  | word name => exact absurd hx (ha name)
  | number | mark => trivial

/-- A mark that has a token is read by itself, if it is no star. -/
theorem read_cons_mark {t : Token} (hstar : c ≠ '*') (hword : startsWord c = false)
    (hfigure : isFigure c = false) (ht : ofMark c = .ok (some t)) (s : Text) :
    read (c :: s) = (read s).map (t :: ·) := by
  have hl : ofLexeme (mark c) = .ok (some t) := ht
  rw [read, split_mark_cons hword hfigure, ofLexemes]
  · rw [hl]
    rfl
  · rintro more hmark -
    exact hstar (mark.inj hmark)

theorem read_cons_blank (hc : isBlank c = true) (s : Text) : read (c :: s) = read s := by
  obtain ⟨hword, hfigure⟩ := not_isFigure_of_isBlank hc
  rw [read, split_mark_cons hword hfigure, ofLexemes_cons_blank hc, read]

/-- The tokens in front of a blank are read first, and then those behind it. -/
theorem read_append_blank (hc : isBlank c = true) (a b : Text) :
    read (a ++ c :: b) = (read a).bind fun ts => (read b).map (ts ++ ·) := by
  obtain ⟨hword, hfigure⟩ := not_isFigure_of_isBlank hc
  have hstar : c ≠ '*' := by
    rintro rfl
    cases hc
  rw [read_append_mark hstar hword hfigure, read_cons_blank hc]

theorem read_snoc_blank (hc : isBlank c = true) (s : Text) : read (s ++ [c]) = read s := by
  rw [read_append_blank hc]
  cases read s with
  | error fault => rfl
  | ok ts => exact congrArg Except.ok (List.append_nil ts)

/-- Across a blank the first fault from the left is told; where there is none, the tokens
behind the blank come after those before it. -/
theorem read_across_blank (hc : isBlank c = true) (a b : Text) :
    (∀ fault, read a = .error fault → read (a ++ c :: b) = .error fault) ∧
      ∀ ts, read a = .ok ts →
        (∀ fault, read b = .error fault → read (a ++ c :: b) = .error fault) ∧
          ∀ us, read b = .ok us → read (a ++ c :: b) = .ok (ts ++ us) := by
  refine ⟨fun fault hfault => ?_, fun ts hts => ⟨fun fault hfault => ?_, fun us hus => ?_⟩⟩
  · rw [read_append_blank hc, hfault]
    rfl
  · rw [read_append_blank hc, hts, hfault]
    rfl
  · rw [read_append_blank hc, hts, hus]
    rfl

/-- Two stars with a blank between them are two products, and of two faults the left one is
told. -/
theorem read_across_wide_blank :
    let two := Decimal.toFloat ⟨2, 0⟩
    let three := Decimal.toFloat ⟨3, 0⟩
    isBlank '\u2003' = true ∧
      read ("2*".toList ++ '\u2003' :: "*3".toList) =
        .ok ([.number two, .operator .mul] ++ [.operator .mul, .number three]) ∧
      read ("2.5.".toList ++ '\u2003' :: "sinus".toList) =
        .error (.unreadableNumber "2.5.".toList) := by
  intro two three
  have hblank : isBlank '\u2003' = true := by decide
  have hstars := read_across_blank hblank "2*".toList "*3".toList
  have hfaults := read_across_blank hblank "2.5.".toList "sinus".toList
  exact ⟨hblank, (hstars.2 _ rfl).2 _ rfl, hfaults.1 _ rfl⟩

end Token

end PocketCalculator
