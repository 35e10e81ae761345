import PocketCalculator.Proofs.Idempotence
import PocketCalculator.Proofs.Parsing
import PocketCalculator.Proofs.Typed.Derivation

/-!
# The meaning of typed text

The expansion of roots turns the text of a derivation into the text of its pieces
(`Typed.expandRoots_text`, `Typed.render_pieces`).  From there on the pieces are
rewritten, read and parsed, and what comes out is the meaning of the derivation in
postfix order.
-/

namespace PocketCalculator.Notation

open Lexeme

/-! ## Numerals and blanks -/

/-- Whether a text has no parentheses and no root signs. -/
structure Plain (s : Text) : Prop where
  opening : '(' ∉ s
  closing : ')' ∉ s
  root : rootSign ∉ s

theorem Plain.balanced {s : Text} (h : Plain s) : Balanced s :=
  balanced_of_notMem h.opening h.closing

theorem plain_gap (g : Gap) : Plain g.text := by
  have hnone (c : Char) (hc : c ∈ "+-*/^().!√".toList) : c ∉ g.text := by
    intro hmem
    obtain ⟨b, -, rfl⟩ := List.mem_map.mp hmem
    exact blank_ne b hc rfl
  exact ⟨hnone _ (by decide), hnone _ (by decide), hnone _ (by decide)⟩

theorem plain_figures (n : Figures) : Plain n.text := by
  have hnone (c : Char) (hdigit : c.isDigit = false) (hpoint : c ≠ '.') : c ∉ n.text := by
    have hrun (d : DigitRun) : c ∉ d.text := by
      intro hmem
      simp [d.isDigit c hmem] at hdigit
    obtain ⟨whole, _ | fraction⟩ := n
    · exact hrun whole
    · simp [Figures.text, hrun, hpoint]
  exact ⟨hnone _ rfl (by decide), hnone _ rfl (by decide), hnone _ rfl (by decide)⟩

theorem plain_called (f : Called) : Plain f.text := by
  cases f <;> exact ⟨by decide, by decide, by decide⟩

theorem plain_operator (o : Operator) : Plain o.text := by
  cases o <;> exact ⟨by decide, by decide, by decide⟩

theorem balanced_between {s : Text} (before after : Gap) (h : Balanced s) :
    Balanced (before.text ++ (s ++ after.text)) :=
  (plain_gap before).balanced.append (h.append (plain_gap after).balanced)

/-- Whether a numeral in front of a text ends there. -/
def Stops (s : Text) : Prop := ∀ c ∈ s.head?, c.isDigit = false ∧ c ≠ '.'

theorem stops_cons {c : Char} {s : Text} (hdigit : c.isDigit = false) (hpoint : c ≠ '.') :
    Stops (c :: s) := by
  intro d hd
  obtain rfl : c = d := Option.some.inj hd
  exact ⟨hdigit, hpoint⟩

theorem stops_gap (g : Gap) {s : Text} (h : Stops s) : Stops (g.text ++ s) := by
  cases g with
  | nil => exact h
  | cons c g =>
    exact stops_cons (not_startsWord_of_isBlank c.property).2 (blank_ne c (by decide))

theorem stops_operator (o : Operator) (s : Text) : Stops (o.text ++ s) := by
  cases o <;> exact stops_cons rfl (by decide)

/-- A root at the front becomes a name, at which a numeral ends as well. -/
theorem stops_of_expandRoots {c : Char} {raw s : Text} (h : expandRoots (c :: raw) = some s)
    (hdigit : c.isDigit = false) (hpoint : c ≠ '.') : Stops s := by
  obtain ⟨behind, -, ⟨-, rfl⟩ | ⟨operand, rest, -, -, rfl⟩⟩ := expandRoots_cons_eq_some h
  · exact stops_cons hdigit hpoint
  · exact stops_cons rfl (by decide)

theorem numeral?_text (n : Figures) {s : Text} (h : Stops s) :
    numeral? (n.text ++ s) = some (n.text, s) := by
  have hdigit : ∀ c ∈ s.head?, c.isDigit = false := fun c hc => (h c hc).1
  obtain ⟨whole, _ | fraction⟩ := n
  · have htake := whole.takeWhile_append s hdigit
    have hdrop := whole.dropWhile_append s hdigit
    simp only [numeral?, Figures.text, htake, hdrop, List.isEmpty_iff, whole.ne_nil, if_false]
    split
    · exact absurd rfl (h _ rfl).2
    · rfl
  · have htake := whole.takeWhile_append ('.' :: (fraction.text ++ s)) (by simp)
    have hdrop := whole.dropWhile_append ('.' :: (fraction.text ++ s)) (by simp)
    simp [numeral?, Figures.text, htake, hdrop, whole.ne_nil, fraction.takeWhile_append s hdigit,
      fraction.dropWhile_append s hdigit, fraction.ne_nil]

theorem trimStart_gap_append (g : Gap) (s : Text) : trimStart (g.text ++ s) = trimStart s :=
  List.dropWhile_append_of_pos fun _ => Gap.isBlank_of_mem

theorem trimStart_gap (g : Gap) {c : Char} {s : Text} (hhead : s.head? = some c)
    (hc : isBlank c = false) : trimStart (g.text ++ s) = s := by
  obtain ⟨s, rfl⟩ := List.head?_eq_some_iff.mp hhead
  rw [trimStart_gap_append, trimStart, List.dropWhile_cons_of_neg (by simp [hc])]

/-- How an opening is written when roots are calls. -/
def Opening.rooted : Opening → Text
  | group => ['(']
  | call f => f.text ++ ['(']
  | root => rootName ++ ['(']

namespace Typed

/-- The text of a derivation with its roots expanded. -/
def rooted : {l : Layer} → Typed l → Text
  | _, term t => t.rooted
  | _, sum e before s after t =>
    e.rooted ++ (before.text ++ (s.operator.text ++ (after.text ++ t.rooted)))
  | _, factor p => p.rooted
  | _, product t before s after p =>
    t.rooted ++ (before.text ++ (s.operator.text ++ (after.text ++ p.rooted)))
  | _, juxtaposed t p => t.rooted ++ p.rooted
  | _, base u => u.rooted
  | _, power u before after p => u.rooted ++ (before.text ++ ('^' :: after.text ++ p.rooted))
  | _, minus u => '-' :: u.rooted
  | _, operand a => a.rooted
  | _, numeral n => n.text
  | _, factorial n => n.text ++ ['!']
  | _, group before e after => enclosed (before.text ++ (e.rooted ++ after.text))
  | _, call f before e after => f.text ++ enclosed (before.text ++ (e.rooted ++ after.text))
  | _, root r => r.rooted
  | _, rootOfNumeral _ n => rootName ++ enclosed n.text
  | _, rootOfGroup _ before e after =>
    rootName ++ enclosed (enclosed (before.text ++ (e.rooted ++ after.text)))
  | _, rootOfRoot _ r => rootName ++ enclosed r.rooted

theorem rooted_of_factorial? {l : Layer} {e : Typed l} {n : Figures} (h : e.factorial? = some n) :
    e.rooted = n.text ++ ['!'] := by
  induction e with
  | operand a ih => exact ih h
  | factorial m =>
    obtain rfl : m = n := Option.some.inj h
    rfl
  | _ => cases h

theorem render_pieces {l : Layer} (e : Typed l) :
    render (rowLexemes .rooted e.pieces) = e.rooted := by
  have hgap (g : Gap) : render (rowLexemes .rooted g.pieces) = g.text := by
    induction g with
    | nil => rfl
    | cons c g ih => exact congrArg (c.val :: ·) ih
  have hsign (s : Grammar.Sign) : render (Stage.rooted.lexemes (.operator s.operator)) =
      s.operator.text := by cases s <;> rfl
  have hscaling (s : Grammar.Scaling) : render (Stage.rooted.lexemes (.operator s.operator)) =
      s.operator.text := by cases s <;> rfl
  have hnumeral (n : Figures) : render (Stage.rooted.lexemes (.numeral n)) = n.text :=
    render_numeral _ n
  have hfactorial (n : Figures) : render (Stage.rooted.lexemes (.factorial n)) =
      n.text ++ ['!'] := by
    rw [Stage.lexemes, if_neg (by decide), render_append, render_numeral]
    rfl
  have hnegated (n : Figures) : render (Stage.rooted.lexemes (.negated n)) =
      '-' :: (n.text ++ ['!']) := by
    rw [Stage.lexemes, if_neg (by decide), List.cons_append, render_cons, render_append,
      render_numeral]
    rfl
  have hopening (o : Opening) : render (Stage.rooted.lexemes (.opening o)) = o.rooted := by
    cases o <;> rfl
  have hclosing : render (Stage.rooted.lexemes .closing) = [')'] := rfl
  induction e with
  | term _ ih | factor _ ih | base _ ih | operand _ ih | root _ ih => exact ih
  | sum e _ s _ t ihe iht | product e _ s _ t ihe iht =>
    simp [pieces, rooted, hgap, hsign, hscaling, ihe, iht]
  | juxtaposed t p iht ihp =>
    have htouch : render (Stage.rooted.lexemes .touch) = [] := rfl
    simp [pieces, rooted, htouch, iht, ihp]
  | power u _ _ p ihu ihp =>
    have hpower : render (Stage.rooted.lexemes (.operator .pow)) = ['^'] := rfl
    simp [pieces, rooted, hgap, hpower, ihu, ihp]
  | minus u ih =>
    have hminus : render (Stage.rooted.lexemes .minus) = ['-'] := rfl
    cases hn : u.factorial? with
    | some n => simp [pieces, hn, rooted, rooted_of_factorial? hn, hnegated]
    | none => simp [pieces, hn, rooted, hminus, ih]
  | numeral n => simp [pieces, rooted, hnumeral]
  | factorial n => simp [pieces, rooted, hfactorial]
  | group _ e _ ih | call f _ e _ ih =>
    simp [pieces, rooted, hgap, hopening, Opening.rooted, hclosing, ih, enclosed]
  | rootOfNumeral _ n =>
    simp [pieces, rooted, hopening, Opening.rooted, hclosing, hnumeral, enclosed]
  | rootOfGroup _ _ e _ ih | rootOfRoot _ e ih =>
    simp [pieces, rooted, hgap, hopening, Opening.rooted, hclosing, ih, enclosed]

theorem balanced_rooted {l : Layer} (e : Typed l) : Balanced e.rooted := by
  have hroot : Balanced rootName := balanced_of_notMem (by decide) (by decide)
  induction e with
  | term _ ih | factor _ ih | base _ ih | operand _ ih | root _ ih => exact ih
  | sum e before s after t ihe iht | product e before s after t ihe iht =>
    exact ihe.append ((plain_gap before).balanced.append
      ((plain_operator _).balanced.append ((plain_gap after).balanced.append iht)))
  | juxtaposed t p iht ihp => exact iht.append ihp
  | power u before after p ihu ihp =>
    have hpower : Balanced ['^'] := balanced_of_notMem (by decide) (by decide)
    exact ihu.append ((plain_gap before).balanced.append
      ((hpower.append (plain_gap after).balanced).append ihp))
  | minus u ih => exact (balanced_of_notMem (by decide) (by decide) : Balanced ['-']).append ih
  | numeral n => exact (plain_figures n).balanced
  | factorial n =>
    exact (plain_figures n).balanced.append (balanced_of_notMem (by decide) (by decide))
  | group before e after ih => exact (balanced_between before after ih).enclosed
  | call f before e after ih =>
    exact (plain_called f).balanced.append (balanced_between before after ih).enclosed
  | rootOfNumeral _ n => exact hroot.append (plain_figures n).balanced.enclosed
  | rootOfGroup _ before e after ih =>
    exact hroot.append (balanced_between before after ih).enclosed.enclosed
  | rootOfRoot _ r ih => exact hroot.append ih.enclosed

/-! ## Roots -/

/-- What is in front of the text of a derivation does not change how it ends. -/
theorem getLast?_append_text {l : Layer} (e : Typed l) (s : Text) :
    (s ++ e.text).getLast? = e.text.getLast? := by
  obtain ⟨c, hc, -⟩ := e.getLast?_text
  simp [List.getLast?_append, hc]

/-- A root is a call whose argument can be found again. -/
theorem rooted_root (r : Typed .root) : ∃ s, Balanced s ∧ r.rooted = rootName ++ enclosed s := by
  cases r with
  | rootOfNumeral gap n => exact ⟨n.text, (plain_figures n).balanced, rfl⟩
  | rootOfGroup gap before e after =>
    have hgroup := balanced_rooted (group before e after)
    exact ⟨_, hgroup, rfl⟩
  | rootOfRoot gap r => exact ⟨r.rooted, r.balanced_rooted, rfl⟩

/-- What is opened after a product goes on where a numeral ends. -/
theorem stops_of_front {p : Typed .power} {o : Opening} (hfront : p.front = .opening o)
    {rest behind : Text} (h : expandRoots (p.text ++ rest) = some behind) : Stops behind := by
  obtain ⟨c, hc, hfirst⟩ := p.head?_text
  obtain ⟨d, hd, hmem⟩ := Piece.first?_opening o
  obtain rfl : c = d := by
    rw [hfront, hd] at hfirst
    exact (Option.some.inj hfirst).symm
  obtain ⟨s, hs⟩ := List.head?_eq_some_iff.mp hc
  rw [hs, List.cons_append] at h
  refine stops_of_expandRoots h (isDigit_of_mem_openings hmem) ?_
  rintro rfl
  exact absurd hmem (by decide)

theorem expandRoots_enclosed {e : Typed .sum} (before after : Gap) {rest behind : Text}
    (he : ∀ {rest behind : Text}, expandRoots rest = some behind → Stops behind →
      expandRoots (e.text ++ rest) = some (e.rooted ++ behind))
    (hrest : expandRoots rest = some behind) :
    expandRoots ('(' :: (before.text ++ (e.text ++ (after.text ++ ')' :: rest)))) =
      some (enclosed (before.text ++ (e.rooted ++ after.text)) ++ behind) := by
  have hclosing : expandRoots (after.text ++ ')' :: rest) = some (after.text ++ ')' :: behind) :=
    expandRoots_append (plain_gap after).root (expandRoots_append (a := [')']) (by decide) hrest)
  have hinner := he hclosing (stops_gap after (stops_cons rfl (by decide)))
  have hopening := expandRoots_append (a := ['(']) (by decide)
    (expandRoots_append (plain_gap before).root hinner)
  simpa only [enclosed, List.cons_append, List.nil_append, List.append_assoc] using hopening

/-- The text of a derivation is expanded in front of any other text, but a numeral at
its end must end there. -/
theorem expandRoots_text {l : Layer} (e : Typed l) (h : e.Admissible) {rest behind : Text}
    (hrest : expandRoots rest = some behind)
    (hstop : Stops behind ∨ ∀ c ∈ e.text.getLast?, c.isDigit = false) :
    expandRoots (e.text ++ rest) = some (e.rooted ++ behind) := by
  -- Roots are expanded from the right, so the rest is expanded before the derivation is.
  induction e generalizing rest behind with
  | term _ ih | factor _ ih | base _ ih | operand _ ih | root _ ih => exact ih h hrest hstop
  | sum e before s after t ihe iht | product e before s after t ihe iht =>
    rw [text, getLast?_append_text] at hstop
    have hmid := expandRoots_append (plain_gap before).root
      (expandRoots_append (plain_operator s.operator).root
        (expandRoots_append (plain_gap after).root (iht h.2 hrest hstop)))
    have hboth := ihe h.1 hmid (.inl (stops_gap before (stops_operator s.operator _)))
    simpa only [text, rooted, List.append_assoc] using hboth
  | juxtaposed t p iht ihp =>
    rw [text, getLast?_append_text] at hstop
    have hp := ihp h.2.1 hrest hstop
    rw [text, rooted, List.append_assoc, List.append_assoc]
    refine iht h.1 hp ?_
    rcases front_of_mayTouch h.2.2 with ⟨o, hfront⟩ | ⟨⟨-, hlast⟩, -⟩
    · exact .inl (stops_of_front hfront hp)
    · exact .inr hlast
  | power u before after p ihu ihp =>
    rw [text, getLast?_append_text] at hstop
    have hmid := expandRoots_append (plain_gap before).root
      (expandRoots_append (a := ['^']) (by decide)
        (expandRoots_append (plain_gap after).root (ihp h.2 hrest hstop)))
    have hboth := ihu h.1 hmid (.inl (stops_gap before (stops_cons rfl (by decide))))
    simpa only [text, rooted, List.append_assoc, List.cons_append, List.nil_append] using hboth
  | minus u ih =>
    rw [text, ← List.singleton_append, getLast?_append_text] at hstop
    exact expandRoots_append (a := ['-']) (by decide) (ih h hrest hstop)
  | numeral n => exact expandRoots_append (plain_figures n).root hrest
  | factorial n =>
    have hbang := expandRoots_append (a := ['!']) (by decide) hrest
    have hboth := expandRoots_append (plain_figures n).root hbang
    simpa only [text, rooted, List.append_assoc] using hboth
  | group before e after ih =>
    have hgroup := expandRoots_enclosed before after (fun hr hs => ih h hr (.inl hs)) hrest
    simpa only [text, rooted, List.append_assoc, List.cons_append, List.nil_append] using hgroup
  | call f before e after ih =>
    have hgroup := expandRoots_enclosed before after (fun hr hs => ih h hr (.inl hs)) hrest
    have hcall := expandRoots_append (plain_called f).root hgroup
    simpa only [text, rooted, List.append_assoc, List.cons_append, List.nil_append] using hcall
  | rootOfNumeral gap n =>
    obtain ⟨c, hhead, hdigit⟩ := n.head?_text
    obtain ⟨d, hlast, hlastDigit⟩ := n.getLast?_text
    have hstops : Stops behind := by
      refine hstop.resolve_right ?_
      intro hnone
      have hd := hnone d (by simp [text, hlast, List.getLast?_append, List.getLast?_cons])
      simp [hlastDigit] at hd
    have hbehind := expandRoots_append (plain_gap gap).root
      (expandRoots_append (plain_figures n).root hrest)
    have htrim : trimStart (gap.text ++ (n.text ++ behind)) = n.text ++ behind :=
      trimStart_gap gap (by simp [hhead]) (isBlank_eq_false (.inr hdigit))
    have hoperand : operand? (n.text ++ behind) = some (n.text, behind) := by
      rw [operand?, numeral?_text n hstops]
    have hroot := expandRoots_root hbehind htrim hoperand
    simpa only [text, rooted, List.append_assoc, List.cons_append] using hroot
  | rootOfGroup gap before e after ih =>
    have hgroup := expandRoots_enclosed before after (fun hr hs => ih h hr (.inl hs)) hrest
    have hbehind := expandRoots_append (plain_gap gap).root hgroup
    have hinner := balanced_between before after e.balanced_rooted
    have hroot := expandRoots_root hbehind (trimStart_gap gap (c := '(') rfl (by decide))
      (operand?_enclosed hinner behind)
    simpa only [text, rooted, List.append_assoc, List.cons_append, List.nil_append] using hroot
  | rootOfRoot gap r ih =>
    rw [text, getLast?_append_text] at hstop
    have hbehind := expandRoots_append (plain_gap gap).root (ih h hrest hstop)
    obtain ⟨s, hinner, hrooted⟩ := r.rooted_root
    rw [hrooted] at hbehind
    have hroot := expandRoots_root hbehind (trimStart_gap gap (c := 'm') rfl (by decide))
      (operand?_root hinner behind)
    simpa only [text, rooted, hrooted, List.append_assoc, List.cons_append] using hroot

end Typed

/-! ## Typed text means what it stands for -/

/-- A derivation begins with no blank. -/
theorem Typed.not_blank {l : Layer} (e : Typed l) : e.text.all isBlank = false := by
  obtain ⟨c, hc, hfirst⟩ := e.head?_text
  exact List.all_eq_false.mpr
    ⟨c, List.mem_of_mem_head? hc, by simp [Piece.isBlank_first? hfirst]⟩

/-- Canonical text of typed text is read as the tokens of its pieces. -/
theorem read_pieces {ps : List Piece} (h : Flows .nothing ps) :
    Token.read (render (rowLexemes .canonical ps)) = .ok (ps.flatMap Piece.tokens) := by
  have hcut : Cut Token.isFigure (rowLexemes .read ps) := cut_rowLexemes .read h
  rw [Token.read, render_rowLexemes, split_render hcut, ofLexemes_lexemes h]

/-- Typed text is normalized, read and parsed without fault, and gives its meaning in
postfix order. -/
theorem typed_text_means (e : Typed .sum) (h : e.Admissible) :
    ∃ y ts, normalize e.text = .ok y ∧ Token.read y = .ok ts ∧
      Postfix.ofTokens ts = .ok e.meaning.items := by
  have hflows : Flows .nothing e.pieces := by
    have hend : Flows e.ending [] := e.ending_eq
    simpa using e.flows h rfl hend
  have hroots : expandRoots e.text = some (render (rowLexemes .rooted e.pieces)) := by
    have hnothing : expandRoots [] = some [] := rfl
    have hstops : Stops [] := by simp [Stops]
    simpa [e.render_pieces] using e.expandRoots_text h hnothing (.inl hstops)
  have hcut : Cut Char.isDigit (rowLexemes .rooted e.pieces) := cut_rowLexemes .rooted hflows
  have hnormal : normalize e.text = .ok (render (rowLexemes .canonical e.pieces)) := by
    refine normalize_eq_ok_iff.mpr ⟨e.not_blank, _, hroots, ?_⟩
    rw [split_render hcut, canonical_lexemes hflows]
  have hparse : Postfix.ofTokens e.tree.tokens = .ok e.tree.items := by
    rw [Grammar.ofTokens_eq_derivation, Grammar.derivation_eq_ok_iff.mpr rfl]
    rfl
  refine ⟨_, _, hnormal, read_pieces hflows, ?_⟩
  rw [e.tokens_pieces, hparse, Grammar.Tree.items, e.expression_tree]

/-- A numeral without a point. -/
def Figures.ofDigits (s : Text) (h : s ≠ [] ∧ s.all Char.isDigit = true) : Figures :=
  ⟨⟨s, h.1, h.2⟩, none⟩

/-- The derivation of `2√ 9sin(30) - -3!`. -/
def rootTimesSine : Typed .sum :=
  let blank : Blank := ⟨' ', rfl⟩
  let two : Typed .operand := .numeral (.ofDigits ['2'] (by decide))
  let root : Typed .operand := .root (.rootOfNumeral [blank] (.ofDigits ['9'] (by decide)))
  let angle : Typed .operand := .numeral (.ofDigits ['3', '0'] (by decide))
  let sine : Typed .operand := .call .sin [] (.term (.factor (.base (.operand angle)))) []
  let product : Typed .product :=
    .juxtaposed (.juxtaposed (.factor (.base (.operand two))) (.base (.operand root)))
      (.base (.operand sine))
  let negated : Typed .signed := .minus (.operand (.factorial (.ofDigits ['3'] (by decide))))
  .sum (.term product) [blank] .minus [blank] (.factor (.base negated))

theorem rootTimesSine_means :
    rootTimesSine.text = "2√ 9sin(30) - -3!".toList ∧ rootTimesSine.Admissible ∧
      ∃ y ts, normalize "2√ 9sin(30) - -3!".toList = .ok y ∧ Token.read y = .ok ts ∧
        Postfix.ofTokens ts = .ok
          [.number (Decimal.toFloat ⟨2, 0⟩), .number (Decimal.toFloat ⟨9, 0⟩), .function .sqrt,
            .operator .mul, .number (Decimal.toFloat ⟨30, 0⟩), .function .sin, .operator .mul,
            .number (Decimal.toFloat ⟨3, 0⟩), .neg, .function .factorial, .operator .sub] := by
  have htext : rootTimesSine.text = "2√ 9sin(30) - -3!".toList := by decide
  have hadmissible : rootTimesSine.Admissible :=
    ⟨⟨⟨trivial, trivial, by decide⟩, trivial, by decide⟩, trivial⟩
  have hmeans := typed_text_means rootTimesSine hadmissible
  rw [htext] at hmeans
  exact ⟨htext, hadmissible, hmeans⟩

end PocketCalculator.Notation
