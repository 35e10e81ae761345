import PocketCalculator.Proofs.Typed.Rewriting

/-!
# The pieces of a derivation

`Typed.pieces` is the row of pieces of a derivation.  An admissible derivation flows
(`Typed.flows`): what the side condition on products says about the texts is what
`Flows` asks of the pieces.  The tokens of the pieces are those of the derivation
`Typed.tree` of canonical text (`Typed.tokens_pieces`), and that has the same meaning
(`Typed.expression_tree`).
-/

namespace PocketCalculator.Notation

open Lexeme

/-- The pieces of a gap. -/
def Gap.pieces (g : Gap) : List Piece := g.map .blank

namespace Typed

/-- The pieces of a derivation, in the order of the text. -/
def pieces : {l : Layer} → Typed l → List Piece
  | _, term t => t.pieces
  | _, sum e before s after t =>
    e.pieces ++ (before.pieces ++ .operator s.operator :: (after.pieces ++ t.pieces))
  | _, factor p => p.pieces
  | _, product t before s after p =>
    t.pieces ++ (before.pieces ++ .operator s.operator :: (after.pieces ++ p.pieces))
  | _, juxtaposed t p => t.pieces ++ .touch :: p.pieces
  | _, base u => u.pieces
  | _, power u before after p =>
    u.pieces ++ (before.pieces ++ .operator .pow :: (after.pieces ++ p.pieces))
  | _, minus u =>
    match u.factorial? with
    | some n => [.negated n]
    | none => .minus :: u.pieces
  | _, operand a => a.pieces
  | _, numeral n => [.numeral n]
  | _, factorial n => [.factorial n]
  | _, group before e after =>
    .opening .group :: (before.pieces ++ (e.pieces ++ (after.pieces ++ [.closing])))
  | _, call f before e after =>
    .opening (.call f) :: (before.pieces ++ (e.pieces ++ (after.pieces ++ [.closing])))
  | _, root r => r.pieces
  | _, rootOfNumeral _ n => [.opening .root, .numeral n, .closing]
  | _, rootOfGroup _ before e after =>
    .opening .root :: .opening .group ::
      (before.pieces ++ (e.pieces ++ (after.pieces ++ [.closing, .closing])))
  | _, rootOfRoot _ r => .opening .root :: (r.pieces ++ [.closing])

/-- The first piece of a derivation. -/
def front : {l : Layer} → Typed l → Piece
  | _, term t => t.front
  | _, sum e _ _ _ _ => e.front
  | _, factor p => p.front
  | _, product t _ _ _ _ => t.front
  | _, juxtaposed t _ => t.front
  | _, base u => u.front
  | _, power u _ _ _ => u.front
  | _, minus u =>
    match u.factorial? with
    | some n => .negated n
    | none => .minus
  | _, operand a => a.front
  | _, numeral n => .numeral n
  | _, factorial n => .factorial n
  | _, group _ _ _ => .opening .group
  | _, call f _ _ _ => .opening (.call f)
  | _, root r => r.front
  | _, rootOfNumeral _ _ => .opening .root
  | _, rootOfGroup _ _ _ _ => .opening .root
  | _, rootOfRoot _ _ => .opening .root

/-- What a derivation leaves in front of the next piece. -/
def ending : {l : Layer} → Typed l → Before
  | _, term t => t.ending
  | _, sum _ _ _ _ t => t.ending
  | _, factor p => p.ending
  | _, product _ _ _ _ p => p.ending
  | _, juxtaposed _ p => p.ending
  | _, base u => u.ending
  | _, power _ _ _ p => p.ending
  | _, minus u => u.ending
  | _, operand a => a.ending
  | _, numeral _ => .number
  | _, _ => .operand

/-- Every derivation ends in an operand. -/
theorem ending_eq {l : Layer} (e : Typed l) : e.ending = .number ∨ e.ending = .operand := by
  induction e with
  | term _ ih | factor _ ih | base _ ih | minus _ ih | operand _ ih => exact ih
  | sum _ _ _ _ _ _ ih | product _ _ _ _ _ _ ih | juxtaposed _ _ _ ih | power _ _ _ _ _ ih =>
    exact ih
  | numeral => exact .inl rfl
  | _ => exact .inr rfl

end Typed

/-! ## Texts begin and end like their pieces -/

namespace Figures

theorem head?_text (n : Figures) : ∃ c, n.text.head? = some c ∧ c.isDigit = true := by
  obtain ⟨c, rest, hwhole⟩ := List.exists_cons_of_ne_nil n.whole.ne_nil
  refine ⟨c, ?_, n.whole.isDigit c (by simp [hwhole])⟩
  unfold text
  split <;> simp [hwhole]

theorem getLast?_text (n : Figures) : ∃ c, n.text.getLast? = some c ∧ c.isDigit = true := by
  have hlast (d : DigitRun) : ∃ c, d.text.getLast? = some c ∧ c.isDigit = true :=
    ⟨_, List.getLast?_eq_some_getLast d.ne_nil, d.isDigit _ (List.getLast_mem d.ne_nil)⟩
  obtain ⟨whole, _ | fraction⟩ := n
  · exact hlast whole
  · obtain ⟨c, hc, hdigit⟩ := hlast fraction
    exact ⟨c, by simp [text, hc, List.getLast?_append, List.getLast?_cons], hdigit⟩

end Figures

/-- The character that a piece begins with, for pieces that begin an operand. -/
def Piece.first? : Piece → Option Char
  | minus | negated _ => some '-'
  | numeral n | factorial n => n.text.head?
  | opening .group => some '('
  | opening (.call f) => f.text.head?
  | opening .root => some rootSign
  | _ => none

namespace Typed

/-- The text of a derivation begins like its first piece. -/
theorem head?_text {l : Layer} (e : Typed l) :
    ∃ c, e.text.head? = some c ∧ e.front.first? = some c := by
  induction e with
  | term _ ih | factor _ ih | base _ ih | operand _ ih | root _ ih => exact ih
  | sum _ _ _ _ _ ih | product _ _ _ _ _ ih | juxtaposed _ _ ih | power _ _ _ _ ih =>
    obtain ⟨c, htext, hfront⟩ := ih
    exact ⟨c, by simp [text, htext], hfront⟩
  | minus u =>
    rw [front]
    split <;> exact ⟨'-', rfl, rfl⟩
  | numeral n =>
    obtain ⟨c, hc, -⟩ := n.head?_text
    exact ⟨c, hc, hc⟩
  | factorial n =>
    obtain ⟨c, hc, -⟩ := n.head?_text
    exact ⟨c, by simp [text, hc], hc⟩
  | call f => cases f <;> exact ⟨_, rfl, rfl⟩
  | _ => exact ⟨_, rfl, rfl⟩

/-- The text of a derivation that leaves a number behind ends in a digit. -/
theorem getLast?_text {l : Layer} (e : Typed l) :
    ∃ c, e.text.getLast? = some c ∧ (e.ending = .number → c.isDigit = true) := by
  induction e with
  | term _ ih | factor _ ih | base _ ih | operand _ ih => exact ih
  | root r ih =>
    obtain ⟨c, hc, -⟩ := ih
    exact ⟨c, hc, by simp [ending]⟩
  | sum _ _ _ _ _ _ ih | product _ _ _ _ _ _ ih | juxtaposed _ _ _ ih | power _ _ _ _ _ ih =>
    obtain ⟨c, htext, hc⟩ := ih
    exact ⟨c, by simp [text, htext, List.getLast?_append, List.getLast?_cons], hc⟩
  | minus u ih =>
    obtain ⟨c, htext, hc⟩ := ih
    exact ⟨c, by simp [text, htext, List.getLast?_cons], hc⟩
  | numeral n =>
    obtain ⟨c, hc, hdigit⟩ := n.getLast?_text
    exact ⟨c, hc, fun _ => hdigit⟩
  | factorial n => exact ⟨'!', by simp [text], by simp [ending]⟩
  | group | call | rootOfGroup => exact ⟨')', by simp [text, List.getLast?_cons], by simp [ending]⟩
  | rootOfNumeral gap n =>
    obtain ⟨c, hc, -⟩ := n.getLast?_text
    exact ⟨c, by simp [text, hc, List.getLast?_cons], by simp [ending]⟩
  | rootOfRoot gap r ih =>
    obtain ⟨c, hc, -⟩ := ih
    exact ⟨c, by simp [text, hc, List.getLast?_cons], by simp [ending]⟩

end Typed

/-! ## Admissible derivations flow -/

/-- The characters that a group, a root or a call begins with. -/
def openings : Text := "(√sctl".toList

theorem isDigit_of_mem_openings {c : Char} (h : c ∈ openings) : c.isDigit = false := by
  have hnone : openings.all (!Char.isDigit ·) = true := by decide
  simpa using List.all_eq_true.mp hnone c h

theorem Called.head?_text (f : Called) : ∃ c, f.text.head? = some c ∧ c ∈ openings := by
  cases f <;> exact ⟨_, rfl, by decide⟩

theorem Piece.first?_opening (o : Opening) :
    ∃ c, (Piece.opening o).first? = some c ∧ c ∈ openings := by
  cases o with
  | group | root => exact ⟨_, rfl, by decide⟩
  | call f => exact f.head?_text

/-- No operand begins with a blank. -/
theorem Piece.isBlank_first? {p : Piece} {c : Char} (h : p.first? = some c) :
    isBlank c = false := by
  have hnone : openings.all (!isBlank ·) = true := by decide
  cases p with
  | minus | negated =>
    obtain rfl : '-' = c := Option.some.inj h
    rfl
  | numeral n | factorial n =>
    obtain ⟨d, hd, hdigit⟩ := n.head?_text
    obtain rfl : d = c := Option.some.inj (hd.symm.trans h)
    exact isBlank_eq_false (.inr hdigit)
  | opening o =>
    obtain ⟨d, hd, hmem⟩ := Piece.first?_opening o
    obtain rfl : d = c := Option.some.inj (hd.symm.trans h)
    simpa using List.all_eq_true.mp hnone d hmem
  | blank | closing | operator | touch => cases h

/-- What begins like an opening parenthesis, a root or a call opens something. -/
theorem Piece.opening_of_first? {p : Piece} {c : Char} (h : p.first? = some c)
    (hc : c ∈ openings) : ∃ o, p = .opening o := by
  have hdigit := isDigit_of_mem_openings hc
  cases p with
  | opening o => exact ⟨o, rfl⟩
  | minus | negated =>
    obtain rfl : '-' = c := Option.some.inj h
    exact absurd hc (by decide)
  | numeral n | factorial n =>
    obtain ⟨d, hd, hdigit'⟩ := n.head?_text
    obtain rfl : d = c := Option.some.inj (hd.symm.trans h)
    simp [hdigit] at hdigit'
  | blank | closing | operator | touch => cases h

/-- What begins with a digit is a numeral or a factorial. -/
theorem Piece.figures_of_first? {p : Piece} {c : Char} (h : p.first? = some c)
    (hc : c.isDigit = true) : ∃ n, p = .numeral n ∨ p = .factorial n := by
  cases p with
  | numeral n => exact ⟨n, .inl rfl⟩
  | factorial n => exact ⟨n, .inr rfl⟩
  | minus | negated =>
    obtain rfl : '-' = c := Option.some.inj h
    cases hc
  | opening o =>
    obtain ⟨d, hd, hmem⟩ := Piece.first?_opening o
    obtain rfl : d = c := Option.some.inj (hd.symm.trans h)
    simp [isDigit_of_mem_openings hmem] at hc
  | blank | closing | operator | touch => cases h

namespace Typed

/-- Texts that may touch are a product where the pieces allow one. -/
theorem front_of_mayTouch {t : Typed .product} {p : Typed .power}
    (h : mayTouch t.text p.text = true) :
    (∃ o, p.front = .opening o) ∨
      (t.ending = .operand ∧ ∀ c ∈ t.text.getLast?, c.isDigit = false) ∧
        ∃ n, p.front = .numeral n ∨ p.front = .factorial n := by
  obtain ⟨c, hhead, hfront⟩ := p.head?_text
  obtain ⟨d, hlast, hnumber⟩ := t.getLast?_text
  rcases Bool.or_eq_true_iff.mp h with hleft | hright
  · refine .inl (Piece.opening_of_first? hfront ?_)
    rcases Bool.or_eq_true_iff.mp (Bool.and_eq_true_iff.mp hleft).2 with hmark | hname
    · have hc : c = '(' ∨ c = rootSign := by simpa [hhead] using hmark
      rcases hc with rfl | rfl <;> decide
    · obtain ⟨f, -, hprefix⟩ := List.any_eq_true.mp hname
      obtain ⟨s, hs⟩ := List.isPrefixOf_iff_prefix.mp hprefix
      obtain ⟨d, hd, hmem⟩ := f.head?_text
      obtain rfl : d = c := by simpa [← hs, hd] using hhead
      exact hmem
  · obtain ⟨hend, hdigit⟩ := Bool.and_eq_true_iff.mp hright
    have hd : d.isDigit = false := by
      have hmarks : d = ')' ∨ d = '!' := by simpa [hlast] using hend
      rcases hmarks with rfl | rfl <;> rfl
    have hending : t.ending = .operand := by
      refine t.ending_eq.resolve_left ?_
      intro hending
      simp [hnumber hending] at hd
    have hc : c.isDigit = true := by simpa [hhead] using hdigit
    exact .inr ⟨⟨hending, by simp [hlast, hd]⟩, Piece.figures_of_first? hfront hc⟩

end Typed

theorem Flows.gap {ps : List Piece} (g : Gap) (h : Flows .nothing ps) :
    Flows .nothing (g.pieces ++ ps) := by
  induction g with
  | nil => exact h
  | cons c g ih => exact ⟨.nothing, rfl, ih⟩

/-- Blanks behind an operand do no harm to what takes any operand in front. -/
theorem Flows.gap_operand {s : Before} {ps : List Piece} (g : Gap) (hs : s.hasOperand = true)
    (h : ∀ s' : Before, s'.hasOperand = true → Flows s' ps) : Flows s (g.pieces ++ ps) := by
  induction g generalizing s with
  | nil => exact h s hs
  | cons c g ih =>
    have hblank : s.step (.blank c) = some .blank := by cases s <;> first | rfl | cases hs
    exact ⟨.blank, hblank, ih rfl⟩

theorem Flows.operator {s : Before} {ps : List Piece} (before after : Gap) (o : Operator)
    (hs : s.hasOperand = true) (h : Flows .nothing ps) :
    Flows s (before.pieces ++ .operator o :: (after.pieces ++ ps)) := by
  refine Flows.gap_operand before hs ?_
  intro s' hs'
  have hstep : s'.step (.operator o) = some .nothing := by cases s' <;> first | rfl | cases hs'
  exact ⟨.nothing, hstep, Flows.gap after h⟩

theorem Flows.closing {s : Before} {ps : List Piece} (hs : s.hasOperand = true)
    (h : Flows .operand ps) : Flows s (.closing :: ps) := by
  have hstep : s.step .closing = some .operand := by cases s <;> first | rfl | cases hs
  exact ⟨.operand, hstep, h⟩

namespace Typed

theorem hasOperand_ending {l : Layer} (e : Typed l) : e.ending.hasOperand = true := by
  rcases e.ending_eq with h | h <;> rw [h] <;> rfl

/-- A minus may stand before any signed operand but a factorial. -/
theorem step_sign_front {u : Typed .signed} (h : u.factorial? = none) :
    Before.sign.step u.front = Before.nothing.step u.front := by
  cases u with
  | minus u =>
    rw [front]
    split <;> rfl
  | operand a =>
    cases a with
    | factorial n => cases h
    | root r => cases r <;> rfl
    | _ => rfl

theorem ending_of_factorial? {u : Typed .signed} {n : Figures} (h : u.factorial? = some n) :
    u.ending = .operand := by
  cases u with
  | minus u => cases h
  | operand a =>
    cases a with
    | factorial n => rfl
    | _ => cases h

/-- What is enclosed in parentheses flows if it flows by itself. -/
theorem flows_enclosed {e : Typed .sum} (before after : Gap) {ps : List Piece}
    (he : ∀ {ps : List Piece}, Flows e.ending ps → Flows .nothing (e.pieces ++ ps))
    (hps : Flows .operand ps) :
    Flows .nothing (before.pieces ++ (e.pieces ++ (after.pieces ++ .closing :: ps))) := by
  refine Flows.gap before (he ?_)
  refine Flows.gap_operand after e.hasOperand_ending ?_
  intro s' hs'
  exact Flows.closing hs' hps

/-- The pieces of an admissible derivation flow wherever its first piece may stand. -/
theorem flows {l : Layer} (e : Typed l) (h : e.Admissible) {s : Before}
    (hs : s.step e.front = Before.nothing.step e.front) {ps : List Piece}
    (hps : Flows e.ending ps) : Flows s (e.pieces ++ ps) := by
  -- What follows goes along, so that a derivation can be put in front of its right side.
  induction e generalizing s ps with
  | term _ ih | factor _ ih | base _ ih | operand _ ih => exact ih h hs hps
  | sum e before sign after t ihe iht | product e before sign after t ihe iht =>
    simp only [pieces, List.append_assoc, List.cons_append]
    exact ihe h.1 hs (Flows.operator before after _ e.hasOperand_ending (iht h.2 rfl hps))
  | power u before after p ihu ihp =>
    simp only [pieces, List.append_assoc, List.cons_append]
    exact ihu h.1 hs (Flows.operator before after _ u.hasOperand_ending (ihp h.2 rfl hps))
  | juxtaposed t p iht ihp =>
    simp only [pieces, List.append_assoc, List.cons_append]
    refine iht h.1 hs ?_
    rcases front_of_mayTouch h.2.2 with ⟨o, hfront⟩ | ⟨⟨hending, -⟩, n, hfront⟩
    · rcases t.ending_eq with hending | hending <;> rw [hending]
      · exact ⟨.numberTouched, rfl, ihp h.2.1 (by rw [hfront]; rfl) hps⟩
      · exact ⟨.operandTouched, rfl, ihp h.2.1 (by rw [hfront]; rfl) hps⟩
    · rw [hending]
      refine ⟨.operandTouched, rfl, ihp h.2.1 ?_ hps⟩
      rcases hfront with hfront | hfront <;> rw [hfront] <;> rfl
  | minus u ih =>
    rw [front] at hs
    rw [pieces]
    rw [ending] at hps
    split at hs
    · rename_i n hn
      rw [ending_of_factorial? hn] at hps
      exact ⟨.operand, hs, hps⟩
    · rename_i hn
      exact ⟨.sign, hs, ih h (step_sign_front hn) hps⟩
  | numeral n => exact ⟨.number, hs, hps⟩
  | factorial n => exact ⟨.operand, hs, hps⟩
  | group before e after ih | call f before e after ih =>
    simp only [pieces, List.append_assoc, List.cons_append, List.nil_append]
    exact ⟨.nothing, hs, flows_enclosed before after (ih h rfl) hps⟩
  | root r ih =>
    have hending : r.ending = .operand := by cases r <;> rfl
    exact ih h hs (hending ▸ hps)
  | rootOfNumeral gap n =>
    exact ⟨.nothing, hs, .number, rfl, .operand, rfl, hps⟩
  | rootOfGroup gap before e after ih =>
    simp only [pieces, List.append_assoc, List.cons_append, List.nil_append]
    exact ⟨.nothing, hs, .nothing, rfl,
      flows_enclosed before after (ih h rfl) (Flows.closing rfl hps)⟩
  | rootOfRoot gap r ih =>
    simp only [pieces, List.append_assoc, List.cons_append, List.nil_append]
    exact ⟨.nothing, hs, ih h rfl (Flows.closing r.hasOperand_ending hps)⟩

end Typed

/-! ## The derivation of the tokens -/

/-- The level of canonical text that a layer is on. -/
abbrev Layer.level : Layer → Grammar.Level
  | sum => .sum
  | product => .product
  | power => .power
  | signed => .signed
  | operand | root => .primary

/-- A signed primary as a sum of one term. -/
def alone (u : Grammar.Tree .signed) : Grammar.Tree .sum := .term (.factor (.base u))

namespace Typed

/-- The derivation of the tokens. -/
def tree : {l : Layer} → Typed l → Grammar.Tree l.level
  | _, term t => .term t.tree
  | _, sum e _ s _ t => .sum e.tree s t.tree
  | _, factor p => .factor p.tree
  | _, product t _ s _ p => .product t.tree s p.tree
  | _, juxtaposed t p => .product t.tree .times p.tree
  | _, base u => .base u.tree
  | _, power u _ _ p => .power u.tree p.tree
  | _, minus u =>
    match u.factorial? with
    | some n => .primary (.call .factorial (alone (.signed .minus (.primary (.number n.value)))))
    | none => .signed .minus u.tree
  | _, operand a => .primary a.tree
  | _, numeral n => .number n.value
  | _, factorial n => .call .factorial (alone (.primary (.number n.value)))
  | _, group _ e _ => .group e.tree
  | _, call f _ e _ => .call f.function e.tree
  | _, root r => r.tree
  | _, rootOfNumeral _ n => .call .sqrt (alone (.primary (.number n.value)))
  | _, rootOfGroup _ _ e _ => .call .sqrt (alone (.primary (.group e.tree)))
  | _, rootOfRoot _ r => .call .sqrt (alone (.primary r.tree))

/-- The derivation of the tokens means what the typed one stands for. -/
theorem expression_tree {l : Layer} (e : Typed l) : e.tree.expression = e.meaning := by
  induction e with
  | term _ ih | factor _ ih | base _ ih | operand _ ih | root _ ih | group _ _ _ ih => exact ih
  | sum e _ s _ t ihe iht | product e _ s _ t ihe iht =>
    rw [tree, meaning, Grammar.Tree.expression, ihe, iht]
  | juxtaposed t p iht ihp =>
    rw [tree, meaning, Grammar.Tree.expression, iht, ihp]
    rfl
  | power u _ _ p ihu ihp => rw [tree, meaning, Grammar.Tree.expression, ihu, ihp]
  | minus u ih =>
    cases hn : u.factorial? with
    | some n =>
      simp only [tree, meaning, hn]
      rfl
    | none =>
      simp only [tree, meaning, hn]
      exact congrArg Expression.neg ih
  | numeral | factorial | rootOfNumeral => rfl
  | call f _ e _ ih => exact congrArg (Expression.call f.function) ih
  | rootOfGroup _ _ e _ ih => exact congrArg (Expression.call .sqrt) ih
  | rootOfRoot _ r ih => exact congrArg (Expression.call .sqrt) ih

/-- The pieces have the tokens of that derivation. -/
theorem tokens_pieces {l : Layer} (e : Typed l) :
    e.pieces.flatMap Piece.tokens = e.tree.tokens := by
  have hgap (g : Gap) : g.pieces.flatMap Piece.tokens = [] := by
    induction g with
    | nil => rfl
    | cons c g ih => exact ih
  induction e with
  | term _ ih | factor _ ih | base _ ih | operand _ ih | root _ ih => exact ih
  | sum e _ s _ t ihe iht | product e _ s _ t ihe iht =>
    simp [pieces, tree, Grammar.Tree.tokens, hgap, ihe, iht, Piece.tokens]
  | juxtaposed t p iht ihp =>
    simp [pieces, tree, Grammar.Tree.tokens, iht, ihp, Piece.tokens, Grammar.Scaling.operator]
  | power u _ _ p ihu ihp =>
    simp [pieces, tree, Grammar.Tree.tokens, hgap, ihu, ihp, Piece.tokens]
  | minus u ih =>
    cases hn : u.factorial? with
    | some n =>
      simp only [pieces, tree, hn]
      rfl
    | none => simp [pieces, tree, hn, Grammar.Tree.tokens, ih, Piece.tokens, Grammar.Sign.operator]
  | numeral | factorial | rootOfNumeral => rfl
  | group _ e _ ih | call f _ e _ ih =>
    simp [pieces, tree, Grammar.Tree.tokens, hgap, ih, Piece.tokens]
  | rootOfGroup _ _ e _ ih | rootOfRoot _ e ih =>
    simp [pieces, tree, alone, Grammar.Tree.tokens, hgap, ih, Piece.tokens]

end Typed

end PocketCalculator.Notation
