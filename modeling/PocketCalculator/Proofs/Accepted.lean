import Mathlib.Data.List.Chain
import PocketCalculator.Engine
import PocketCalculator.Proofs.Idempotence
import PocketCalculator.Proofs.Legible

/-!
# Accepted text is settled

A text whose tokens are an expression needs no rewriting: no step of `normalize` finds
anything to do in it, and so `normalize` gives it back
(`Notation.normalize_of_accepted`).

The reason is in two parts.

* In an expression no operand stands next to an operand (`Postfix.follows_of_pass`).
  In the text there is therefore no product without a sign
  (`Notation.multiplied_pieces`).
* The lexemes of the text are legible.  Among their pieces there are no power signs and
  no factorial signs (`Notation.mark_mem_pieces`), and every name of a mathematical
  function has its qualifier in front (`Notation.qualify_pieces`).
-/

namespace PocketCalculator

/-! ## Operands stand apart -/

namespace Token

/-- Whether an operand is complete behind a token. -/
def endsOperand : Token → Bool
  | number _ | closing => true
  | _ => false

/-- Whether an operand begins with a token. -/
def beginsOperand : Token → Bool
  | number _ | function _ | opening => true
  | _ => false

/-- Whether a token can stand behind another: no operand follows an operand. -/
def Follows (t u : Token) : Prop := t.endsOperand = true → u.beginsOperand = false

theorem isChain_cons_of_not {t : Token} {ts : List Token} (ht : t.endsOperand = false)
    (h : ts.IsChain Follows) : (t :: ts).IsChain Follows := by
  refine List.isChain_cons.mpr ⟨?_, h⟩
  intro u _ hends
  rw [ht] at hends
  cases hends

end Token

open Token (Follows)

/-- Operands stand apart in what is passed on; behind a complete operand none begins. -/
theorem Postfix.follows_of_pass {due : Due} {waiting : List Waiting} {outer : List Group}
    {ts : List Token} {items : List Item} (h : pass due waiting outer ts = .ok items) :
    (due = .rest → ∀ t ∈ ts.head?, t.beginsOperand = false) ∧ ts.IsChain Follows := by
  fun_induction pass due waiting outer ts generalizing items
  case case1 => exact ⟨by simp, List.isChain_nil⟩
  case case4 ih | case8 ih | case9 ih | case10 ih | case11 ih =>
    exact ⟨by simp, Token.isChain_cons_of_not rfl (ih h).2⟩
  case case7 waiting outer x ts ih =>
    obtain ⟨_, hbehind, -⟩ := exists_ok_of_map h
    obtain ⟨hhead, hchain⟩ := ih hbehind
    exact ⟨by simp, List.isChain_cons.mpr ⟨fun t ht _ => hhead rfl t ht, hchain⟩⟩
  case case14 waiting outer o ts ih =>
    obtain ⟨_, hbehind, -⟩ := exists_ok_of_map h
    exact ⟨by simp [Token.beginsOperand], Token.isChain_cons_of_not rfl (ih hbehind).2⟩
  case case16 waiting group outer ts ih =>
    obtain ⟨_, hbehind, -⟩ := exists_ok_of_map h
    obtain ⟨hhead, hchain⟩ := ih hbehind
    exact ⟨by simp [Token.beginsOperand],
      List.isChain_cons.mpr ⟨fun t ht _ => hhead rfl t ht, hchain⟩⟩
  all_goals cases h

namespace Notation

open Lexeme

/-! ## Products -/

/-- Lexemes that begin with no operand. -/
def StartsFree (ls : List Lexeme) : Prop := ls = [] ∨ ∃ c rest, ls = mark c :: rest ∧ c ≠ '('

theorem StartsFree.multiplies {ls : List Lexeme} (h : StartsFree ls) (l : Lexeme) :
    multiplies l ls = false := by
  rcases h with rfl | ⟨c, rest, rfl, hc⟩
  · unfold Notation.multiplies
    split <;> rfl
  · exact multiplies_mark hc l rest

/-- Where the tokens begin with no operand, the lexemes do not either. -/
theorem startsFree_of_reads {ls : List Lexeme} {ts : List Token} (h : Reads ls ts)
    (hts : ∀ t ∈ ts.head?, t.beginsOperand = false) : StartsFree ls := by
  cases h with
  | nil => exact .inl rfl
  | power => exact .inr ⟨'*', _, rfl, by decide⟩
  | @lexeme l t rest ts hl hrest =>
    cases l with
    | word name =>
      obtain ⟨f, -, rfl⟩ := token_of_word hl
      exact absurd (hts _ rfl) (by simp [Token.beginsOperand])
    | number figures =>
      obtain ⟨x, rfl⟩ := token_of_number hl
      exact absurd (hts _ rfl) (by simp [Token.beginsOperand])
    | mark c =>
      refine .inr ⟨c, rest, rfl, ?_⟩
      rintro rfl
      obtain rfl : some Token.opening = t := Except.ok.inj hl
      exact absurd (hts _ rfl) (by decide)

theorem startsFree_pieces {ls : List Lexeme} (hcut : Cut Token.isFigure ls) (h : StartsFree ls) :
    StartsFree (ls.flatMap pieces) := by
  rcases h with rfl | ⟨c, rest, rfl, hc⟩
  · exact .inl rfl
  · rw [List.flatMap_cons, pieces_mark hcut.1]
    exact .inr ⟨c, _, rfl, hc⟩

/-- The digits and the points of a number are multiplied by nothing, if the number
is not. -/
theorem multiplied_append {ps ls : List Lexeme} (hps : Cut Char.isDigit ps)
    (hnumber : ∀ x ∈ ps, (∃ digits, x = number digits) ∨ x = mark '.') (hls : StartsFree ls)
    (h : Multiplied ls) : Multiplied (ps ++ ls) := by
  induction ps with
  | nil => exact h
  | cons x ps ih =>
    refine ⟨?_, ih hps.tail fun y hy => hnumber y (List.mem_cons_of_mem x hy)⟩
    rcases hnumber x List.mem_cons_self with ⟨digits, rfl⟩ | rfl
    · cases ps with
      | nil => exact hls.multiplies _
      | cons y ps =>
        rcases hnumber y (by simp) with ⟨more, rfl⟩ | rfl
        · exact absurd (hps.2.1 _ rfl) (by simp)
        · exact multiplies_mark (by decide) _ _
    · rfl

/-- In a text whose operands stand apart no product is without its sign. -/
theorem multiplied_pieces {ls : List Lexeme} {ts : List Token} (h : Reads ls ts)
    (hcut : Cut Token.isFigure ls) (hchain : ts.IsChain Token.Follows) :
    Multiplied (ls.flatMap pieces) := by
  induction h with
  | nil => trivial
  | power hrest ih =>
    exact ⟨rfl, rfl, ih hcut.tail.tail (List.isChain_cons.mp hchain).2⟩
  | @lexeme l t rest ts hl hrest ih =>
    -- An operand that ends with `l` has nothing behind it that it would be multiplied by.
    have hfree {u : Token} (ht : t = some u) (hu : u.endsOperand = true) :
        StartsFree (rest.flatMap pieces) := by
      subst ht
      refine startsFree_pieces hcut.tail (startsFree_of_reads hrest ?_)
      intro v hv
      exact (List.isChain_cons.mp hchain).1 v hv hu
    have hmultiplied : Multiplied (rest.flatMap pieces) := by
      refine ih hcut.tail ?_
      cases t with
      | none => exact hchain
      | some u => exact (List.isChain_cons.mp hchain).2
    rw [List.flatMap_cons]
    cases l with
    | word name =>
      obtain ⟨f, rfl⟩ := legible_of_ofLexeme hl
      rw [pieces_function]
      split
      · exact ⟨rfl, hmultiplied⟩
      · exact ⟨rfl, rfl, rfl, hmultiplied⟩
    | number figures =>
      obtain ⟨x, rfl⟩ := token_of_number hl
      exact multiplied_append (cut_split _ _) (pieces_number hcut.1) (hfree rfl rfl) hmultiplied
    | mark c =>
      rw [pieces_mark hcut.1]
      refine ⟨?_, hmultiplied⟩
      by_cases hclosing : c = ')'
      · subst hclosing
        obtain rfl : some Token.closing = t := Except.ok.inj hl
        exact (hfree rfl rfl).multiplies _
      · exact multiplies_of_mark_ne hclosing (ne_of_legible (legible_of_ofLexeme hl) (by decide)) _

/-! ## Powers and factorials -/

/-- The marks among the pieces are those among the lexemes, and points. -/
theorem mark_mem_pieces {ls : List Lexeme} {c : Char} (hcut : Cut Token.isFigure ls)
    (hlegible : ∀ l ∈ ls, l.Legible) (h : mark c ∈ ls.flatMap pieces) : mark c ∈ ls ∨ c = '.' := by
  obtain ⟨l, hl, hc⟩ := List.mem_flatMap.mp h
  cases l with
  | word name =>
    obtain ⟨f, rfl⟩ := hlegible _ hl
    rw [pieces_function] at hc
    split at hc
    · simp at hc
    · exact .inr (by simpa using hc)
  | number figures =>
    rcases pieces_number (hcut.proper hl) _ hc with ⟨_, hnumber⟩ | hpoint
    · cases hnumber
    · exact .inr (mark.inj hpoint)
  | mark d =>
    rw [pieces_mark (hcut.proper hl), List.mem_singleton] at hc
    exact .inl (hc ▸ hl)

theorem expanded_of_notMem {ls : List Lexeme} (h : mark '!' ∉ ls) : Expanded ls := by
  induction ls with
  | nil => trivial
  | cons l rest ih =>
    simp only [List.mem_cons, not_or] at h
    refine ⟨startsFactorial_eq_false ?_ ?_, ih h.2⟩
    · rintro figures behind ⟨⟩
      simp at h
    · rintro whole fraction behind ⟨⟩
      simp at h

/-! ## Names -/

theorem qualify_append_of_noWord {ps : List Lexeme} (hps : ∀ name, word name ∉ ps)
    (ls : List Lexeme) : qualify (ps ++ ls) = ps ++ qualify ls := by
  induction ps with
  | nil => rfl
  | cons x ps ih =>
    simp only [List.mem_cons, not_or] at hps
    rw [List.cons_append, List.cons_append, ← ih fun name => (hps name).2]
    rcases qualify_cons x (ps ++ ls) with h | ⟨_, _, hx, -⟩ | ⟨f, -, _, -, _, hx, -⟩
    · exact h
    · exact absurd hx.symm (hps _).1
    · exact absurd hx.symm (hps f).1

/-- Every name of a mathematical function has its qualifier in front. -/
theorem qualify_pieces {ls : List Lexeme} (hcut : Cut Token.isFigure ls)
    (hlegible : ∀ l ∈ ls, l.Legible) : qualify (ls.flatMap pieces) = ls.flatMap pieces := by
  induction ls with
  | nil => rfl
  | cons l rest ih =>
    have hrest := ih hcut.tail fun m hm => hlegible m (List.mem_cons_of_mem l hm)
    rw [List.flatMap_cons]
    cases l with
    | word name =>
      obtain ⟨f, rfl⟩ := hlegible _ List.mem_cons_self
      rw [pieces_function]
      split
      · rcases qualify_cons (word Function.factorial.text) (rest.flatMap pieces) with
          h | ⟨_, _, hname, -⟩ | ⟨g, hg, _, -, _, hname, -⟩
        · exact h.trans (congrArg _ hrest)
        · exact absurd hname (by decide)
        · exact absurd hg (by rw [← word.inj hname]; decide)
      · exact congrArg (fun ls => word Function.qualifier :: mark '.' :: word f.name :: ls) hrest
    | number figures =>
      rw [qualify_append_of_noWord, hrest]
      intro name hname
      exact ne_word_of_mem_split hcut.1 hname name rfl
    | mark c =>
      rw [pieces_mark hcut.1, qualify_append_of_noWord (by simp), hrest]

/-! ## Blanks -/

/-- Blanks have no tokens. -/
theorem nil_of_reads_blank {ls : List Lexeme} {ts : List Token} (h : Reads ls ts)
    (hblank : ∀ l ∈ ls, ∃ c, l = mark c ∧ isBlank c = true) : ts = [] := by
  induction h with
  | nil => rfl
  | power hrest ih =>
    obtain ⟨c, hstar, hc⟩ := hblank _ List.mem_cons_self
    exact absurd hc (by rw [← mark.inj hstar]; decide)
  | lexeme hl hrest ih =>
    obtain ⟨c, rfl, hc⟩ := hblank _ List.mem_cons_self
    rw [Token.ofLexeme_blank hc] at hl
    cases hl
    exact ih fun l hl => hblank l (List.mem_cons_of_mem _ hl)

/-- A blank text is cut into its characters. -/
theorem split_of_blank {s : Text} (h : s.all isBlank = true) :
    split Token.isFigure s = s.map mark := by
  induction s with
  | nil => rfl
  | cons c s ih =>
    simp only [List.all_cons, Bool.and_eq_true] at h
    obtain ⟨hword, hfigure⟩ := not_isFigure_of_isBlank h.1
    rw [split_mark_cons hword hfigure, ih h.2, List.map_cons]

/-! ## Accepted text -/

/-- The text of an expression is settled. -/
theorem settled_of_accepted {s : Text} {ts : List Token} {items : List Item}
    (hread : Token.read s = .ok ts) (hpass : Postfix.ofTokens ts = .ok items) :
    Settled (split Char.isDigit s) := by
  have hreads : Reads (split Token.isFigure s) ts := reads_of_ofLexemes hread
  have hcut := cut_split Token.isFigure s
  have hchain : ts.IsChain Token.Follows := by
    unfold Postfix.ofTokens at hpass
    split at hpass
    · cases hpass
    · exact (Postfix.follows_of_pass hpass).2
  have hmark {c : Char} (hc : c ∉ arithmeticMarks ∧ isBlank c = false ∧ c ≠ '.') :
      mark c ∉ (split Token.isFigure s).flatMap pieces := by
    intro hmem
    rcases mark_mem_pieces hcut hreads.legible hmem with hmem | hpoint
    · rcases hreads.legible _ hmem with hlegible | hblank
      · exact hc.1 hlegible
      · simp [hc.2.1] at hblank
    · exact hc.2.2 hpoint
  refine ⟨cut_split _ s, ?_, ?_, ?_, ?_⟩ <;> rw [split_isDigit]
  · exact multiplied_pieces hreads hcut hchain
  · exact hmark (by decide)
  · exact expanded_of_notMem (hmark (by decide))
  · exact qualify_pieces hcut hreads.legible

theorem rootSign_notMem_of_read {s : Text} {ts : List Token} (hread : Token.read s = .ok ts) :
    rootSign ∉ s := by
  have hcut := cut_split Token.isFigure s
  intro hmem
  rw [← render_split Token.isFigure s] at hmem
  have hmark := hcut.mark_mem hmem (by decide) (by decide)
  exact ne_of_legible ((reads_of_ofLexemes hread).legible _ hmark) (by decide) rfl

theorem not_blank_of_accepted {s : Text} {ts : List Token} {items : List Item}
    (hread : Token.read s = .ok ts) (hpass : Postfix.ofTokens ts = .ok items) :
    s.all isBlank = false := by
  rw [← Bool.not_eq_true]
  intro hblank
  have hreads : Reads (split Token.isFigure s) ts := reads_of_ofLexemes hread
  have hmarks : ∀ l ∈ split Token.isFigure s, ∃ c, l = mark c ∧ isBlank c = true := by
    rw [split_of_blank hblank]
    intro l hl
    obtain ⟨c, hc, rfl⟩ := List.mem_map.mp hl
    exact ⟨c, rfl, List.all_eq_true.mp hblank c hc⟩
  rw [nil_of_reads_blank hreads hmarks] at hpass
  cases hpass

/-- The text of an expression stays as it stands. -/
theorem normalize_of_read {s : Text} {ts : List Token} {items : List Item}
    (hread : Token.read s = .ok ts) (hpass : Postfix.ofTokens ts = .ok items) :
    normalize s = .ok s :=
  normalize_of_settled (not_blank_of_accepted hread hpass) (rootSign_notMem_of_read hread)
    (settled_of_accepted hread hpass)

/-- A text whose tokens are an expression is canonical as it stands, and it is computed
as it is written. -/
theorem normalize_of_accepted {s : Text} {ts : List Token} {items : List Item}
    (hread : Token.read s = .ok ts) (hpass : Postfix.ofTokens ts = .ok items) :
    normalize s = .ok s ∧
      ∀ lib : Elementary, compute lib s = evaluate lib (Namespace.degrees lib) s := by
  have hfixed : normalize s = .ok s := normalize_of_read hread hpass
  refine ⟨hfixed, ?_⟩
  intro lib
  exact compute_eq_evaluate lib hfixed

/-- Points at either end of a numeral and blanks before a parenthesis are canonical. -/
theorem normalize_of_accepted_logarithm :
    let s := " 5. * math.log10( .5) ** -factorial (3)".toList
    let five := Decimal.toFloat ⟨5, 0⟩
    let half := Decimal.toFloat ⟨5, -1⟩
    let three := Decimal.toFloat ⟨3, 0⟩
    Token.read s = .ok
        [.number five, .operator .mul, .function .log10, .opening, .number half, .closing,
          .operator .pow, .operator .sub, .function .factorial, .opening, .number three,
          .closing] ∧
      Postfix.ofText s = .ok
        [.number five, .number half, .function .log10, .number three, .function .factorial, .neg,
          .operator .pow, .operator .mul] ∧
      normalize s = .ok s ∧
      ∀ lib : Elementary, compute lib s = evaluate lib (Namespace.degrees lib) s := by
  intro s five half three
  exact ⟨rfl, rfl, normalize_of_accepted rfl rfl⟩

end Notation

end PocketCalculator
