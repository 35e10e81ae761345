import PocketCalculator.Proofs.Reading
import PocketCalculator.Proofs.Rereading

/-!
# Reading printed tokens

Tokens that are printed in one line are read as the same tokens again, in whatever order they
stand.  The tokens that are left out are those that no text is read as: the sign `neg`, and
numbers that are negative or not finite.

A printed token is one lexeme, or two stars (`read_text`), and the blanks between the printed
tokens keep their lexemes apart (`read_render`).  If the tokens are an expression, then the line
is canonical text, and computing it is evaluating the expression.
-/

namespace PocketCalculator

open Lexeme Notation

/-- A number that is neither negative nor infinite is printed as a numeral that stands for it. -/
theorem Display.exists_numeral {x : Float} (hfinite : x.isFinite = true)
    (hsign : isNegative x = false) : ∃ n : Figures, n.text = positional x ∧ n.value = x := by
  have hrank : Magnitude.toFloat (Magnitude.ofFloat x) = x := Magnitude.toFloat_ofFloat hsign
  by_cases hzero : Magnitude.ofFloat x = 0
  · rw [hzero] at hrank
    subst hrank
    exact ⟨.ofDigits ['0'] (by decide), by decide +kernel, by decide +kernel⟩
  · obtain ⟨n, htext, hvalue⟩ :=
      Decimal.exists_positional (Decimal.shortest (Magnitude.ofFloat x))
    rw [Decimal.toFloat_aligned_shortest (Nat.pos_of_ne_zero hzero)
      (Magnitude.isFinite_iff.mp hfinite), hrank] at hvalue
    refine ⟨n, ?_, hvalue⟩
    rw [htext, positional, write_of_isFinite hfinite hzero, hsign]
    rfl

namespace Token

/-- The tokens that are read as they are printed. -/
def Printable : Token → Prop
  | number x => x.isFinite = true ∧ isNegative x = false
  | neg => False
  | function _ | operator _ | opening | closing => True

instance : DecidablePred Printable
  | number x => inferInstanceAs (Decidable (x.isFinite = true ∧ isNegative x = false))
  | neg => inferInstanceAs (Decidable False)
  | function _ | operator _ | opening | closing => inferInstanceAs (Decidable True)

theorem read_text {t : Token} (h : t.Printable) : read t.text = .ok [t] := by
  cases t with
  | number x =>
    obtain ⟨n, htext, hvalue⟩ := Display.exists_numeral h.1 h.2
    rw [text, ← htext, read_figures, hvalue]
  | function f => exact read_lexeme (proper_text f) (ofLexeme_function f)
  | operator o => cases o <;> rfl
  | neg => exact h.elim
  | opening | closing => rfl

theorem render_cons_cons (t u : Token) (ts : List Token) :
    render (t :: u :: ts) = t.text ++ ' ' :: render (u :: ts) := rfl

/-- Printed tokens are read as themselves, in whatever order they stand. -/
theorem read_render {ts : List Token} (h : ∀ t ∈ ts, t.Printable) : read (render ts) = .ok ts := by
  induction ts with
  | nil => rfl
  | cons t ts ih =>
    obtain ⟨ht, hts⟩ := List.forall_mem_cons.mp h
    cases ts with
    | nil => simpa [render] using read_text ht
    | cons u ts =>
      rw [render_cons_cons, read_append_blank (by decide), read_text ht, ih hts]
      rfl

/-- Printed tokens are read as themselves; and if they are an expression, then the line is
canonical text and is computed as the expression. -/
theorem printed_line_is_faithful {ts : List Token} (h : ∀ t ∈ ts, t.Printable) :
    read (render ts) = .ok ts ∧
      ∀ items, Postfix.ofTokens ts = .ok items →
        normalize (render ts) = .ok (render ts) ∧
          ∀ lib : Elementary, compute lib (render ts) =
            Postfix.eval lib (Namespace.degrees lib) items [] >>= judge := by
  have hread := read_render h
  refine ⟨hread, fun items hitems => ?_⟩
  have hnormal : normalize (render ts) = .ok (render ts) := normalize_of_read hread hitems
  refine ⟨hnormal, fun lib => ?_⟩
  rw [compute_eq_evaluate lib hnormal]
  exact evaluate_of_items lib (Namespace.degrees lib) (Postfix.ofText_eq_ok hread hitems)

/-- Two stars and the name of a function without its parenthesis are printed and read, and a root
of a printed number is computed. -/
theorem printed_line_of_root :
    let odd : List Token := [.operator .mul, .operator .mul, .number 0.5, .function .sin]
    let root : List Token :=
      [.operator .sub, .function .sqrt, .opening, .number 1e21, .closing, .operator .pow, .number 0]
    let items : List Item :=
      [.number 1e21, .function .sqrt, .neg, .number 0, .operator .pow]
    ((∀ t ∈ odd, t.Printable) ∧ read (render odd) = .ok odd) ∧
      (∀ t ∈ root, t.Printable) ∧ Postfix.ofTokens root = .ok items ∧
        normalize (render root) = .ok (render root) ∧
          ∀ lib : Elementary, compute lib (render root) =
            Postfix.eval lib (Namespace.degrees lib) items [] >>= judge := by
  intro odd root items
  have hodd : ∀ t ∈ odd, t.Printable := by decide +kernel
  have hroot : ∀ t ∈ root, t.Printable := by decide +kernel
  have hitems : Postfix.ofTokens root = .ok items := rfl
  exact ⟨⟨hodd, (printed_line_is_faithful hodd).1⟩, hroot, hitems,
    (printed_line_is_faithful hroot).2 items hitems⟩

end Token

end PocketCalculator
