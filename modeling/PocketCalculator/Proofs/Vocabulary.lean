import PocketCalculator.Engine
import PocketCalculator.Proofs.Idempotence
import PocketCalculator.Proofs.Legible

/-!
# The vocabulary of what is typed

Whatever has a result is written in the characters and the names of the calculator
notation (`Notation.vocabulary_of_compute`).

The closed vocabulary is enforced at the end, where the tokens of canonical text are
read.  The proof goes back from there: what reading accepts is familiar
(`familiar_of_legible`), and no step of the notation makes familiar lexemes out of
unfamiliar ones (`familiar_of_qualify`, `familiar_of_expandFactorials`,
`familiar_of_expandPowers`, `familiar_of_insertProducts`).  Where a step writes a name
against the word in front of it, the two become one word, which is no name of the
vocabulary; so there is no word in front.

Roots are expanded on the text itself, before it is cut into lexemes.  For them the
words of a text are followed from left to right by `identifiersFrom`
(`identifiers_of_expandRoots`).
-/

namespace PocketCalculator.Notation

open Lexeme

/-! ## Identifiers -/

/-- The words of a text from left to right, behind the front `word` of a word that is
being read.  A word begins with a letter or an underscore, goes on over letters,
underscores and digits, and is as long as it can be. -/
def identifiersFrom (word : Text) : Text → List Text
  | [] => if word = [] then [] else [word]
  | c :: s =>
    if startsWord c = true ∨ (word ≠ [] ∧ c.isDigit = true) then identifiersFrom (word ++ [c]) s
    else (if word = [] then [] else [word]) ++ identifiersFrom [] s

/-- The words of a text. -/
def identifiers (s : Text) : List Text := identifiersFrom [] s

/-- A character that belongs to no word ends the word in front of it. -/
theorem identifiersFrom_append_mark {c : Char} (hword : startsWord c = false)
    (hdigit : c.isDigit = false) (w a b : Text) :
    identifiersFrom w (a ++ c :: b) = identifiersFrom w a ++ identifiers b := by
  induction a generalizing w with
  | nil => simp [identifiersFrom, identifiers, hword, hdigit]
  | cons d a ih =>
    rw [List.cons_append, identifiersFrom, identifiersFrom, ih, ih]
    split <;> simp

/-- Characters that begin no word are not in one if no word is in front of them. -/
theorem identifiers_append_of_not_startsWord {a : Text} (ha : ∀ c ∈ a, startsWord c = false)
    (b : Text) : identifiers (a ++ b) = identifiers b := by
  induction a with
  | nil => rfl
  | cons c a ih =>
    have hc : startsWord c = false := ha c List.mem_cons_self
    rw [← ih fun d hd => ha d (List.mem_cons_of_mem c hd)]
    simp [identifiers, identifiersFrom, hc]

/-- Letters are added to the word in front of them. -/
theorem identifiersFrom_append_letters {a : Text} (ha : a.all startsWord = true)
    (w b : Text) : identifiersFrom w (a ++ b) = identifiersFrom (w ++ a) b := by
  induction a generalizing w with
  | nil => simp
  | cons c a ih =>
    rw [List.all_cons, Bool.and_eq_true] at ha
    have hrest := ih ha.2 (w ++ [c])
    simpa [identifiersFrom, ha.1] using hrest

/-- The name of a word. -/
def name? : Lexeme → Option Text
  | word name => some name
  | _ => none

theorem filterMap_name?_push {c : Char} (hc : startsWord c = false) (ls : List Lexeme) :
    (push Char.isDigit c ls).filterMap name? = ls.filterMap name? := by
  unfold push
  rw [if_neg (by simp [hc])]
  split
  · split <;> simp [name?, List.filterMap_cons]
  · simp [name?, List.filterMap_cons]

theorem ne_nil_of_proper {w : Text} (h : (word w).Proper Char.isDigit) : w ≠ [] := by
  rintro rfl
  simp [Proper] at h

/-- A character that goes on with the front of a word. -/
theorem proper_append {w : Text} {c : Char} (hw : w = [] ∨ (word w).Proper Char.isDigit)
    (hc : startsWord c = true ∨ (w ≠ [] ∧ c.isDigit = true)) :
    (word (w ++ [c])).Proper Char.isDigit := by
  rcases hw with rfl | ⟨⟨d, hhead, hd⟩, hchars⟩
  · have hc : startsWord c = true := by simpa using hc
    exact ⟨⟨c, rfl, hc⟩, by simpa using .inl hc⟩
  · refine ⟨⟨d, by simp [show w.head? = some d from hhead], hd⟩, ?_⟩
    intro e he
    rcases List.mem_append.mp he with he | he
    · exact hchars e he
    · rw [List.mem_singleton.mp he]
      exact hc.imp_right And.right

theorem names_split_append {w s : Text} (hw : w = [] ∨ (word w).Proper Char.isDigit) :
    identifiersFrom w s = (split Char.isDigit (w ++ s)).filterMap name? := by
  induction s generalizing w with
  | nil =>
    rcases hw with rfl | hw
    · rfl
    · have hsplit := split_text_append (s := []) hw (by simp)
      rw [text] at hsplit
      rw [hsplit]
      simp [identifiersFrom, ne_nil_of_proper hw, name?]
  | cons c s ih =>
    rw [identifiersFrom]
    split
    · rename_i hc
      rw [ih (.inr (proper_append hw hc)), List.append_assoc, List.singleton_append]
    · rename_i hc
      obtain ⟨hstart, hdigit⟩ := not_or.mp hc
      have hstart : startsWord c = false := by simpa using hstart
      rw [ih (.inl rfl), List.nil_append]
      rcases hw with rfl | hw
      · rw [if_pos rfl, List.nil_append, List.nil_append, split_cons, filterMap_name?_push hstart]
      · have hne : w ≠ [] := ne_nil_of_proper hw
        have hdigit : c.isDigit = false := by simpa [hne] using hdigit
        have hsplit := split_text_append (s := c :: s) hw
          (by simp [split_mark_cons hstart hdigit])
        rw [text, split_mark_cons hstart hdigit] at hsplit
        simp [hne, hsplit, name?, List.filterMap_cons]

/-- The words of a text are those that it is cut into. -/
theorem identifiers_eq_names (s : Text) :
    identifiers s = (split Char.isDigit s).filterMap name? :=
  names_split_append (.inl rfl)

/-! ## The vocabulary -/

/-- The names of the calculator notation, and those that canonical text adds. -/
def vocabulary : List Text :=
  ["sin", "cos", "tan", "log", "sqrt", "log10", "math", "factorial"].map String.toList

/-- The marks of the calculator notation. -/
def notationMarks : Text := ".()+-*/^!√".toList

/-- The lexemes that are written in the calculator notation. -/
def Familiar : Lexeme → Prop
  | word name => name ∈ vocabulary
  | number _ => True
  | mark c => c ∈ notationMarks ∨ isBlank c = true

/-- What can be read is familiar. -/
theorem familiar_of_legible {ls : List Lexeme} (hcut : Cut Token.isFigure ls)
    (h : ∀ l ∈ ls, l.Legible) : ∀ l ∈ ls.flatMap pieces, Familiar l := by
  intro l hl
  obtain ⟨m, hm, hl⟩ := List.mem_flatMap.mp hl
  cases m with
  | word name =>
    obtain ⟨f, rfl⟩ := h _ hm
    have hpieces : ∀ l ∈ (word f.text).pieces, Familiar l := by
      cases f <;> simp [pieces_function, Familiar] <;> decide
    exact hpieces l hl
  | number figures =>
    rcases pieces_number (hcut.proper hm) l hl with ⟨digits, rfl⟩ | rfl
    · trivial
    · exact Or.inl (by decide)
  | mark c =>
    have hmarks : arithmeticMarks.all (· ∈ notationMarks) = true := by decide
    rw [pieces_mark (hcut.proper hm), List.mem_singleton] at hl
    subst hl
    exact (h _ hm).imp_left fun hc => of_decide_eq_true (List.all_eq_true.mp hmarks c hc)

/-! ## The steps on lexemes -/

theorem familiar_of_qualify {ls : List Lexeme} (h : ∀ l ∈ qualify ls, Familiar l) :
    ∀ l ∈ ls, Familiar l := by
  fun_induction qualify ls with
  | case1 => exact h
  | case2 f rest ih =>
    simp only [List.forall_mem_cons] at h ⊢
    exact ⟨h.1, h.2.1, h.2.2.1, ih h.2.2.2⟩
  | case3 q f rest hq ih =>
    rw [List.forall_mem_cons] at h ⊢
    exact ⟨h.1, ih h.2⟩
  | case4 f rest ih =>
    have hnames : ∀ n ∈ functionNames, n ∈ vocabulary := by decide
    rw [List.forall_mem_append, List.forall_mem_cons] at h
    rw [List.forall_mem_cons, List.forall_mem_cons]
    refine ⟨?_, h.2.1, ih h.2.2⟩
    rcases canonicalName_cases f with hname | ⟨hf, -⟩
    · exact h.1 _ (by simp [hname])
    · exact hnames f hf
  | case5 l rest _ _ ih =>
    rw [List.forall_mem_cons] at h ⊢
    exact ⟨h.1, ih h.2⟩

/-- No name of the vocabulary is longer than `factorial`. -/
theorem length_le_of_mem_vocabulary {name : Text} (h : name ∈ vocabulary) :
    name.length ≤ Function.factorial.text.length := by
  revert name
  decide

/-- A word that runs into a call of the factorial would be too long a name. -/
theorem familiar_of_glue {before : Bool} {l : Lexeme} {rest : List Lexeme}
    (hcut : Cut Char.isDigit (l :: rest))
    (h : ∀ x ∈ glue l (expandFactorials before rest), Familiar x) :
    Familiar l ∧ ∀ x ∈ expandFactorials before rest, Familiar x := by
  generalize hexpanded : expandFactorials before rest = expanded at h ⊢
  unfold glue at h
  split at h
  · rename_i a b behind
    have hb : b = Function.factorial.text := by
      rcases hcut.after_word with rfl | ⟨c, rest, rfl⟩
      · cases hexpanded
      · rcases expandFactorials_cons before (mark c) rest with hmark | ⟨-, _, hcall⟩
        · rw [hmark] at hexpanded
          cases hexpanded
        · rw [hcall] at hexpanded
          exact (word.inj (List.cons.inj hexpanded).1).symm
    have hlength := length_le_of_mem_vocabulary (h _ List.mem_cons_self)
    have ha : a.length ≠ 0 := mt List.length_eq_zero_iff.mp (ne_nil_of_proper hcut.1)
    rw [List.length_append, hb] at hlength
    omega
  · exact List.forall_mem_cons.mp h

theorem familiar_of_factorialCall {numeral rest : List Lexeme}
    (h : ∀ l ∈ factorialCall numeral rest, Familiar l) : ∀ l ∈ rest, Familiar l := by
  intro l hl
  exact h l (by simp [factorialCall, hl])

theorem familiar_of_signedCall {before : Bool} {numeral rest : List Lexeme}
    (h : ∀ l ∈ signedCall before numeral rest, Familiar l) : ∀ l ∈ rest, Familiar l := by
  unfold signedCall at h
  split at h
  · exact familiar_of_factorialCall (List.forall_mem_cons.mp h).2
  · exact familiar_of_factorialCall h

theorem familiar_of_expandFactorials {before : Bool} {ls : List Lexeme}
    (hcut : Cut Char.isDigit ls) (h : ∀ l ∈ expandFactorials before ls, Familiar l) :
    ∀ l ∈ ls, Familiar l := by
  have hmark {c : Char} (hc : c ∈ notationMarks) : Familiar (mark c) := Or.inl hc
  fun_induction expandFactorials before ls with
  | case1 => exact h
  | case2 before a rest ih =>
    have hrest := ih hcut.tail.tail (familiar_of_factorialCall h)
    simp only [List.forall_mem_cons]
    exact ⟨trivial, hmark (by decide), hrest⟩
  | case3 before a b rest ih =>
    have hrest := ih hcut.tail.tail.tail.tail (familiar_of_factorialCall h)
    simp only [List.forall_mem_cons]
    exact ⟨trivial, hmark (by decide), trivial, hmark (by decide), hrest⟩
  | case4 before a rest ih =>
    have hrest := ih hcut.tail.tail.tail (familiar_of_signedCall h)
    simp only [List.forall_mem_cons]
    exact ⟨hmark (by decide), trivial, hmark (by decide), hrest⟩
  | case5 before a b rest ih =>
    have hrest := ih hcut.tail.tail.tail.tail.tail (familiar_of_signedCall h)
    simp only [List.forall_mem_cons]
    exact ⟨hmark (by decide), trivial, hmark (by decide), trivial, hmark (by decide), hrest⟩
  | case6 before l rest _ _ _ _ ih =>
    obtain ⟨hl, hrest⟩ := familiar_of_glue hcut h
    exact List.forall_mem_cons.mpr ⟨hl, ih hcut.tail hrest⟩

theorem familiar_of_expandPowers {ls : List Lexeme} (h : ∀ l ∈ expandPowers ls, Familiar l) :
    ∀ l ∈ ls, Familiar l := by
  intro l hl
  by_cases hpower : l = mark '^'
  · rw [hpower]
    exact Or.inl (by decide)
  · exact h l (List.mem_flatMap.mpr ⟨l, hl, by simp [hpower]⟩)

theorem familiar_of_insertProducts {ls : List Lexeme} (h : ∀ l ∈ insertProducts ls, Familiar l) :
    ∀ l ∈ ls, Familiar l := by
  induction ls with
  | nil => exact h
  | cons l rest ih =>
    rw [insertProducts] at h
    split at h
    · simp only [List.forall_mem_cons] at h ⊢
      exact ⟨h.1, ih h.2.2⟩
    · rw [List.forall_mem_cons] at h ⊢
      exact ⟨h.1, ih h.2⟩

theorem familiar_of_canonical {ls : List Lexeme} (hcut : Cut Char.isDigit ls)
    (h : ∀ l ∈ canonical ls, Familiar l) : ∀ l ∈ ls, Familiar l := by
  have hpowers := cut_expandPowers (cut_insertProducts hcut)
  exact familiar_of_insertProducts
    (familiar_of_expandPowers (familiar_of_expandFactorials hpowers (familiar_of_qualify h)))

/-! ## The expansion of roots -/

theorem identifiers_trimStart (s : Text) : identifiers (trimStart s) = identifiers s := by
  induction s with
  | nil => rfl
  | cons c s ih =>
    rw [trimStart, List.dropWhile_cons]
    split
    · rename_i hc
      have hblank : ∀ d ∈ [c], startsWord d = false := by
        simpa using (not_isFigure_of_isBlank hc).1
      exact ih.trans (identifiers_append_of_not_startsWord hblank s).symm
    · rfl

/-- Whether or not a parenthesis stands behind the operand of a root, the words are the
same. -/
theorem identifiers_operand {s operand rest : Text} (h : operand? s = some (operand, rest)) :
    identifiers (operand ++ ')' :: rest) = identifiers (operand ++ rest) := by
  have hclosing (a b : Text) : identifiers (a ++ ')' :: b) = identifiers a ++ identifiers b :=
    identifiersFrom_append_mark (by decide) (by decide) [] a b
  rcases operand?_cases h with hnumeral | ⟨inner, rfl⟩
  · have hskip : ∀ c ∈ operand, startsWord c = false := by
      intro c hc
      rcases hnumeral c hc with hdigit | rfl
      · exact startsWord_of_isDigit hdigit
      · rfl
    rw [identifiers_append_of_not_startsWord hskip, identifiers_append_of_not_startsWord hskip]
    exact hclosing [] rest
  · have hinner : identifiers (inner ++ [')']) = identifiers inner := by
      rw [hclosing]
      exact List.append_nil _
    rw [hclosing, hinner, List.append_assoc, List.singleton_append, hclosing]

/-- The words of a root that has become a call.  A word in front of the root has run into
the qualifier. -/
theorem identifiersFrom_root (w inner : Text) :
    identifiersFrom w (rootName ++ '(' :: inner) =
      (w ++ Function.qualifier) :: Function.sqrt.name :: identifiers inner := by
  have hname : rootName ++ '(' :: inner =
      Function.qualifier ++ '.' :: (Function.sqrt.name ++ '(' :: inner) := rfl
  rw [hname, identifiersFrom_append_mark (by decide) (by decide), identifiers,
    identifiersFrom_append_mark (by decide) (by decide)]
  have hqualifier := identifiersFrom_append_letters (a := Function.qualifier) (by decide) w []
  rw [List.append_nil] at hqualifier
  rw [hqualifier]
  simp [identifiersFrom, Function.qualifier]
  rfl

/-- No other name of the vocabulary ends like the qualifier. -/
theorem eq_nil_of_append_qualifier {w : Text} (h : w ++ Function.qualifier ∈ vocabulary) :
    w = [] := by
  have hnames : ∀ name ∈ vocabulary, Function.qualifier <:+ name →
      name = Function.qualifier := by decide
  have hname := hnames _ h (List.suffix_append w _)
  simpa using hname

/-- What was typed has no words but those of the text with its roots expanded. -/
theorem identifiers_of_expandRoots {raw s w : Text} (h : expandRoots raw = some s)
    (hs : ∀ name ∈ identifiersFrom w s, name ∈ vocabulary) :
    ∀ name ∈ identifiersFrom w raw, name ∈ vocabulary := by
  induction raw generalizing w s with
  | nil =>
    cases h
    exact hs
  | cons c raw ih =>
    obtain ⟨behind, hbehind, ⟨hc, rfl⟩ | ⟨operand, rest, rfl, hoperand, rfl⟩⟩ :=
      expandRoots_cons_eq_some h
    · rw [identifiersFrom] at hs ⊢
      by_cases hword : startsWord c = true ∨ (w ≠ [] ∧ c.isDigit = true)
      · rw [if_pos hword] at hs ⊢
        exact ih hbehind hs
      · rw [if_neg hword, List.forall_mem_append] at hs ⊢
        exact ⟨hs.1, ih hbehind hs.2⟩
    · rw [List.append_assoc, List.cons_append, identifiersFrom_root] at hs
      simp only [List.forall_mem_cons] at hs
      obtain ⟨hw, -, hinner⟩ := hs
      obtain rfl := eq_nil_of_append_qualifier hw
      rw [identifiers_operand hoperand, ← operand?_eq_some hoperand,
        identifiers_trimStart] at hinner
      exact ih hbehind hinner

/-! ## What has a result -/

/-- The characters of the calculator notation. -/
def InNotation (c : Char) : Prop :=
  isBlank c = true ∨ c.isAlpha = true ∨ c.isDigit = true ∨ c ∈ notationMarks

theorem inNotation_of_familiar {l : Lexeme} (hproper : l.Proper Char.isDigit) (h : Familiar l) :
    ∀ c ∈ l.text, InNotation c := by
  cases l with
  | word name =>
    have hnames : ∀ name ∈ vocabulary, name.all Char.isAlphanum = true := by decide
    intro c hc
    have hc : c.isAlpha = true ∨ c.isDigit = true := by
      simpa [Char.isAlphanum] using List.all_eq_true.mp (hnames name h) c hc
    exact .inr (hc.imp_right .inl)
  | number figures =>
    intro c hc
    exact .inr (.inr (.inl (hproper.2 c hc).2))
  | mark d =>
    intro c hc
    rw [List.mem_singleton.mp hc]
    exact h.elim (fun hd => .inr (.inr (.inr hd))) .inl

/-- Where the canonical text can be read, what was typed is in the notation. -/
theorem vocabulary_of_read {raw y : Text} {ts : List Token} (hnormal : normalize raw = .ok y)
    (hread : Token.read y = .ok ts) :
    (∀ c ∈ raw, InNotation c) ∧ ∀ name ∈ identifiers raw, name ∈ vocabulary := by
  obtain ⟨-, s, hs, rfl⟩ := normalize_eq_ok_iff.mp hnormal
  have hcut := cut_split Char.isDigit s
  have hcanonical : ∀ l ∈ canonical (split Char.isDigit s), Familiar l := by
    rw [← split_render (settled_canonical hcut).cut, split_isDigit]
    exact familiar_of_legible (cut_split _ _) (reads_of_ofLexemes hread).legible
  have hfamiliar := familiar_of_canonical hcut hcanonical
  constructor
  · intro c hc
    rcases mem_of_expandRoots hs hc with hc | rfl | hblank
    · rw [← render_split Char.isDigit s] at hc
      obtain ⟨l, hl, hc⟩ := List.mem_flatMap.mp hc
      exact inNotation_of_familiar (hcut.proper hl) (hfamiliar l hl) c hc
    · exact .inr (.inr (.inr (by decide)))
    · exact .inl hblank
  · apply identifiers_of_expandRoots hs
    intro name hname
    rw [← identifiers, identifiers_eq_names] at hname
    obtain ⟨l, hl, hname⟩ := List.mem_filterMap.mp hname
    cases l with
    | word w =>
      cases hname
      exact hfamiliar _ hl
    | number | mark => cases hname

/-- Whatever has a result is written in the characters and the names of the calculator
notation. -/
theorem vocabulary_of_compute {lib : Elementary} {raw : Text} {v : Float}
    (h : compute lib raw = .ok v) :
    (∀ c ∈ raw, InNotation c) ∧ ∀ name ∈ identifiers raw, name ∈ vocabulary := by
  obtain ⟨y, hnormal, hevaluated⟩ := normalize_of_compute h
  obtain ⟨ts, hread⟩ := read_of_evaluate hevaluated
  exact vocabulary_of_read hnormal hread

theorem vocabulary_of_compute_root_difference :
    let raw := "2√ 9 - 3!math.sqrt(1)".toList
    compute Elementary.machine raw = .ok 0 ∧ (∀ c ∈ raw, InNotation c) ∧
      identifiers raw = ["math".toList, "sqrt".toList] ∧
      ∀ name ∈ identifiers raw, name ∈ vocabulary := by
  intro raw
  have hvalue : (compute Elementary.machine raw).toOption = some 0 := by decide +kernel
  have h : compute Elementary.machine raw = .ok 0 := by
    cases hraw : compute Elementary.machine raw with
    | error err => simp [hraw, Except.toOption] at hvalue
    | ok v => simpa [hraw, Except.toOption] using hvalue
  obtain ⟨hchars, hnames⟩ := vocabulary_of_compute h
  exact ⟨h, hchars, by decide, hnames⟩

end PocketCalculator.Notation
