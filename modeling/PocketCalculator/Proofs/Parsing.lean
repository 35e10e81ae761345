import PocketCalculator.Proofs.Grammar

/-!
# The pass to postfix order and the grammar

`Postfix.pass` keeps waiting operators and forgets what they wait for.
`Grammar.read` is the same pass with its operands kept: in place of the
waiting operators it has an `Open` group, which holds the derivations that
wait for their right operand, and it ends with a derivation.

There are three groups of lemmas.

* What a group stands for.  `Open.closeSum` completes a group, and its tokens
  and its items are those of the group followed by those of the primary
  (`Open.tokens_closeSum`, `Open.items_closeSum`).
* The pass and the reading go in step (`pass_eq_read`), so the pass accepts
  what the reading accepts and passes on the items of the derivation.
* The reading and the grammar agree: what is read is derived by the result
  (`tokens_of_read`), and the tokens of every derivation are read back to it
  (`read_tokens_append`).

Together they say that the pass accepts the lists of the grammar, and that what
it passes on is the derivation's postfix listing.
-/

namespace PocketCalculator.Grammar

open Postfix (Waiting Group Due)

/-! ## Open groups -/

/-- What has been read of a group, up to where its next primary is due: a sum
and a product that wait for their right operand, the bases that wait for
their exponent, the last one first, and the signs that wait for the primary,
the last one first. -/
structure Open where
  sum : Option (Tree .sum × Sign) := none
  product : Option (Tree .product × Scaling) := none
  powers : List (Tree .signed) := []
  signs : List Sign := []

/-- Puts waiting signs before a signed primary, the first one innermost. -/
def applySigns (signs : List Sign) (u : Tree .signed) : Tree .signed :=
  signs.foldl (fun u s => .signed s u) u

/-- Raises waiting bases to a power, the first one innermost. -/
def applyPowers (powers : List (Tree .signed)) (p : Tree .power) : Tree .power :=
  powers.foldl (fun p u => .power u p) p

namespace Open

/-- The signed primary that a primary completes. -/
def closeSigned (g : Open) (a : Tree .primary) : Tree .signed := applySigns g.signs (.primary a)

/-- The power that a primary completes. -/
def closePower (g : Open) (a : Tree .primary) : Tree .power :=
  applyPowers g.powers (.base (g.closeSigned a))

/-- The product that a primary completes. -/
def closeProduct (g : Open) (a : Tree .primary) : Tree .product :=
  match g.product with
  | none => .factor (g.closePower a)
  | some (t, s) => .product t s (g.closePower a)

/-- The sum that a primary completes. -/
def closeSum (g : Open) (a : Tree .primary) : Tree .sum :=
  match g.sum with
  | none => .term (g.closeProduct a)
  | some (e, s) => .sum e s (g.closeProduct a)

/-- The group behind an operator that follows the primary `a`. -/
def before (g : Open) (a : Tree .primary) : Operator → Open
  | .add => { sum := some (g.closeSum a, .plus) }
  | .sub => { sum := some (g.closeSum a, .minus) }
  | .mul => { sum := g.sum, product := some (g.closeProduct a, .times) }
  | .div => { sum := g.sum, product := some (g.closeProduct a, .per) }
  | .pow => { g with powers := g.closeSigned a :: g.powers, signs := [] }

/-- The group behind a sign. -/
def behindSign (g : Open) (s : Sign) : Open := { g with signs := s :: g.signs }

end Open

/-! ## Reading -/

/-- An open group together with the function called on the group inside it. -/
structure Outer where
  call : Option Function
  group : Open

/-- The primary that closing a group completes. -/
def enclose : Option Function → Tree .sum → Tree .primary
  | none, e => .group e
  | some f, e => .call f e

theorem tokens_enclose (call : Option Function) (e : Tree .sum) :
    (enclose call e).tokens =
      call.toList.map Token.function ++ .opening :: (e.tokens ++ [.closing]) := by
  cases call <;> rfl

theorem items_enclose (call : Option Function) (e : Tree .sum) :
    (enclose call e).items = e.items ++ call.toList.map Item.function := by
  cases call <;> simp [enclose, Tree.items, Tree.expression, Expression.items]

/-- What may come next; behind a complete operand the last primary is kept. -/
inductive State
  | operand
  | parenthesis (f : Function)
  | rest (a : Tree .primary)

/-- Reads the rest of the tokens.  `g` is the innermost open group and `outer`
are the groups around it, the innermost first. -/
def read : State → Open → List Outer → List Token → Except SyntaxFault (Tree .sum)
  | .rest a, g, [], [] => .ok (g.closeSum a)
  | .rest _, _, _ :: _, [] => .error .unclosedGroup
  | _, _, _, [] => .error .incomplete
  | .parenthesis f, g, outer, .opening :: ts => read .operand {} (⟨some f, g⟩ :: outer) ts
  | .parenthesis _, _, _, _ :: _ => .error .callWithoutGroup
  | _, _, _, .neg :: _ => .error .strayNegation
  | .operand, g, outer, .number x :: ts => read (.rest (.number x)) g outer ts
  | .operand, g, outer, .function f :: ts => read (.parenthesis f) g outer ts
  | .operand, g, outer, .opening :: ts => read .operand {} (⟨none, g⟩ :: outer) ts
  | .operand, g, outer, .operator .sub :: ts => read .operand (g.behindSign .minus) outer ts
  | .operand, g, outer, .operator .add :: ts => read .operand (g.behindSign .plus) outer ts
  | .operand, _, _, .operator _ :: _ => .error .missingOperand
  | .operand, _, _, .closing :: _ => .error .missingOperandInGroup
  | .rest a, g, outer, .operator o :: ts => read .operand (g.before a o) outer ts
  | .rest _, _, [], .closing :: _ => .error .unopenedGroup
  | .rest a, g, o :: outer, .closing :: ts =>
    read (.rest (enclose o.call (g.closeSum a))) o.group outer ts
  | .rest _, _, _, _ :: _ => .error .missingOperator

/-- The derivation of a list of tokens, or the fault that the parser finds. -/
def derivation : List Token → Except SyntaxFault (Tree .sum)
  | [] => .error .noTokens
  | ts => read .operand {} [] ts

/-! ## What a group stands for -/

/-- The waiting operators of signs. -/
def negations (signs : List Sign) : List Waiting :=
  (signs.filter (· = .minus)).map fun _ => .neg

theorem tokens_applySigns (signs : List Sign) (u : Tree .signed) :
    (applySigns signs u).tokens =
      signs.reverse.map (fun s => .operator s.operator) ++ u.tokens := by
  induction signs generalizing u with
  | nil => rfl
  | cons s signs ih =>
    rw [applySigns, List.foldl_cons, ← applySigns, ih]
    simp [Tree.tokens]

theorem items_applySigns (signs : List Sign) (u : Tree .signed) :
    (applySigns signs u).items = u.items ++ (negations signs).map Waiting.item := by
  induction signs generalizing u with
  | nil => simp [applySigns, negations]
  | cons s signs ih =>
    rw [applySigns, List.foldl_cons, ← applySigns, ih]
    cases s <;> simp [Tree.items, Tree.expression, Expression.items, negations, Waiting.item]

theorem tokens_applyPowers (powers : List (Tree .signed)) (p : Tree .power) :
    (applyPowers powers p).tokens =
      powers.reverse.flatMap (fun u => u.tokens ++ [.operator .pow]) ++ p.tokens := by
  induction powers generalizing p with
  | nil => rfl
  | cons u powers ih =>
    rw [applyPowers, List.foldl_cons, ← applyPowers, ih]
    simp [Tree.tokens]

theorem items_applyPowers (powers : List (Tree .signed)) (p : Tree .power) :
    (applyPowers powers p).items =
      powers.reverse.flatMap Tree.items ++ p.items ++
        powers.map (fun _ => .operator .pow) := by
  induction powers generalizing p with
  | nil => simp [applyPowers]
  | cons u powers ih =>
    rw [applyPowers, List.foldl_cons, ← applyPowers, ih]
    simp [Tree.items, Tree.expression, Expression.items]

namespace Open

/-- The tokens that have been read of a group. -/
def tokens (g : Open) : List Token :=
  g.sum.toList.flatMap (fun (e, s) => e.tokens ++ [.operator s.operator]) ++
    g.product.toList.flatMap (fun (t, s) => t.tokens ++ [.operator s.operator]) ++
    g.powers.reverse.flatMap (fun u => u.tokens ++ [.operator .pow]) ++
    g.signs.reverse.map (fun s => .operator s.operator)

/-- The items that have been passed on for a group. -/
def items (g : Open) : List Item :=
  g.sum.toList.flatMap (fun (e, _) => e.items) ++
    g.product.toList.flatMap (fun (t, _) => t.items) ++
    g.powers.reverse.flatMap Tree.items

/-- The operators of a group that wait, the last one first. -/
def waiting (g : Open) : List Waiting :=
  negations g.signs ++ g.powers.map (fun _ => .operator .pow) ++
    g.product.toList.map (fun (_, s) => .operator s.operator) ++
    g.sum.toList.map (fun (_, s) => .operator s.operator)

theorem tokens_closeSigned (g : Open) (a : Tree .primary) :
    (g.closeSigned a).tokens =
      g.signs.reverse.map (fun s => .operator s.operator) ++ a.tokens :=
  tokens_applySigns g.signs (.primary a)

theorem tokens_closePower (g : Open) (a : Tree .primary) :
    (g.closePower a).tokens =
      g.powers.reverse.flatMap (fun u => u.tokens ++ [.operator .pow]) ++
        (g.closeSigned a).tokens :=
  tokens_applyPowers g.powers (.base (g.closeSigned a))

theorem tokens_closeProduct (g : Open) (a : Tree .primary) :
    (g.closeProduct a).tokens =
      g.product.toList.flatMap (fun (t, s) => t.tokens ++ [.operator s.operator]) ++
        (g.closePower a).tokens := by
  unfold closeProduct
  cases g.product <;> simp [Tree.tokens]

theorem tokens_closeSum (g : Open) (a : Tree .primary) :
    (g.closeSum a).tokens = g.tokens ++ a.tokens := by
  have hsum : (g.closeSum a).tokens =
      g.sum.toList.flatMap (fun (e, s) => e.tokens ++ [.operator s.operator]) ++
        (g.closeProduct a).tokens := by
    unfold closeSum
    cases g.sum <;> simp [Tree.tokens]
  rw [hsum, tokens_closeProduct, tokens_closePower, tokens_closeSigned]
  simp [tokens]

theorem items_closeSigned (g : Open) (a : Tree .primary) :
    (g.closeSigned a).items = a.items ++ (negations g.signs).map Waiting.item :=
  items_applySigns g.signs (.primary a)

theorem items_closePower (g : Open) (a : Tree .primary) :
    (g.closePower a).items =
      g.powers.reverse.flatMap Tree.items ++ (g.closeSigned a).items ++
        g.powers.map (fun _ => .operator .pow) :=
  items_applyPowers g.powers (.base (g.closeSigned a))

theorem items_closeProduct (g : Open) (a : Tree .primary) :
    (g.closeProduct a).items =
      g.product.toList.flatMap (fun (t, _) => t.items) ++ (g.closePower a).items ++
        g.product.toList.map (fun (_, s) => .operator s.operator) := by
  unfold closeProduct
  cases g.product <;> simp [Tree.items, Tree.expression, Expression.items]

theorem items_closeSum (g : Open) (a : Tree .primary) :
    (g.closeSum a).items = g.items ++ a.items ++ g.waiting.map Waiting.item := by
  have hsum : (g.closeSum a).items =
      g.sum.toList.flatMap (fun (e, _) => e.items) ++ (g.closeProduct a).items ++
        g.sum.toList.map (fun (_, s) => .operator s.operator) := by
    unfold closeSum
    cases g.sum <;> simp [Tree.items, Tree.expression, Expression.items]
  rw [hsum, items_closeProduct, items_closePower, items_closeSigned]
  simp [items, waiting, Waiting.item, Function.comp_def]

/-! ## One operator -/

theorem tokens_before (g : Open) (a : Tree .primary) (o : Operator) :
    (g.before a o).tokens = g.tokens ++ a.tokens ++ [.operator o] := by
  rw [← tokens_closeSum]
  cases o with
  | add | sub => simp [before, tokens, Sign.operator]
  | mul | div =>
    cases hsum : g.sum <;> simp [before, tokens, closeSum, hsum, Tree.tokens, Scaling.operator]
  | pow =>
    rw [tokens_closeSum]
    simp [before, tokens, tokens_closeSigned]

theorem closedBy_negations (o : Operator) (signs : List Sign) :
    ∀ w ∈ negations signs, w.closedBy o = true := by
  intro w hw
  obtain ⟨_, _, rfl⟩ := List.mem_map.mp hw
  rfl

/-- An operator finds the waiting operators in two parts: those in front have
their operands complete and are passed on, and the others go on waiting behind
the new operator. -/
theorem waiting_before (g : Open) (a : Tree .primary) (o : Operator) :
    ∃ closed kept,
      g.waiting = closed ++ kept ∧
      (∀ w ∈ closed, w.closedBy o = true) ∧
      (∀ w ∈ kept.head?, w.closedBy o = false) ∧
      (g.before a o).waiting = .operator o :: kept ∧
      (g.before a o).items = g.items ++ a.items ++ closed.map Waiting.item := by
  have hneg := closedBy_negations o g.signs
  cases o with
  | add | sub =>
    refine ⟨g.waiting, [], by simp, ?_, by simp,
      by simp [before, waiting, negations, Sign.operator], ?_⟩
    · intro w hw
      simp only [waiting, List.mem_append, List.mem_map] at hw
      rcases hw with ((hw | ⟨_, _, rfl⟩) | ⟨⟨_, s⟩, _, rfl⟩) | ⟨⟨_, s⟩, _, rfl⟩
      · exact hneg w hw
      · rfl
      · cases s <;> rfl
      · cases s <;> rfl
    · rw [← items_closeSum]
      simp [before, items]
  | mul | div =>
    refine ⟨negations g.signs ++ g.powers.map (fun _ => .operator .pow) ++
      g.product.toList.map (fun (_, s) => .operator s.operator), _, rfl, ?_, ?_,
      by simp [before, waiting, negations, Scaling.operator], ?_⟩
    · intro w hw
      simp only [List.mem_append, List.mem_map] at hw
      rcases hw with (hw | ⟨_, _, rfl⟩) | ⟨⟨_, s⟩, _, rfl⟩
      · exact hneg w hw
      · rfl
      · cases s <;> rfl
    · rcases g.sum with _ | ⟨_, s⟩
      · simp
      · cases s <;> simp [Sign.operator, Waiting.closedBy, Postfix.precedence]
    · simp [before, items, items_closeProduct, items_closePower, items_closeSigned, Waiting.item,
        Function.comp_def]
  | pow =>
    refine ⟨negations g.signs, g.powers.map (fun _ => .operator .pow) ++
      g.product.toList.map (fun (_, s) => .operator s.operator) ++
      g.sum.toList.map (fun (_, s) => .operator s.operator), by simp [waiting], hneg, ?_,
      by simp [before, waiting, negations], ?_⟩
    · intro w hw
      have hmem := List.mem_of_mem_head? hw
      simp only [List.mem_append, List.mem_map] at hmem
      rcases hmem with (⟨_, _, rfl⟩ | ⟨⟨_, s⟩, _, rfl⟩) | ⟨⟨_, s⟩, _, rfl⟩ <;> rfl
    · simp [before, items, items_closeSigned]

theorem dropWhile_waiting (g : Open) (a : Tree .primary) (o : Operator) :
    (g.before a o).waiting = .operator o :: g.waiting.dropWhile (Waiting.closedBy o) := by
  obtain ⟨closed, kept, hwaiting, hclosed, hkept, hbehind, -⟩ := g.waiting_before a o
  rw [hbehind, hwaiting, List.dropWhile_append_of_pos hclosed]
  cases kept with
  | nil => rfl
  | cons w kept => simp [hkept w rfl]

theorem takeWhile_waiting (g : Open) (a : Tree .primary) (o : Operator) :
    (g.before a o).items =
      g.items ++ a.items ++ (g.waiting.takeWhile (Waiting.closedBy o)).map Waiting.item := by
  obtain ⟨closed, kept, hwaiting, hclosed, hkept, -, hitems⟩ := g.waiting_before a o
  rw [hitems, hwaiting, List.takeWhile_append_of_pos hclosed]
  cases kept with
  | nil => simp
  | cons w kept => simp [hkept w rfl]

end Open

/-! ## The pass and the reading go in step -/

/-- What the pass knows of a state. -/
def State.due : State → Due
  | operand => .operand
  | parenthesis f => .parenthesis f
  | rest _ => .rest

/-- The items of the last primary. -/
def State.items : State → List Item
  | rest a => a.items
  | _ => []

/-- What the pass knows of a group around. -/
def Outer.waiting (o : Outer) : Group := ⟨o.call, o.group.waiting⟩

/-- The items that the pass has passed on. -/
def passedOn (st : State) (g : Open) (outer : List Outer) : List Item :=
  outer.reverse.flatMap (·.group.items) ++ g.items ++ st.items

private theorem map_map {ε α β γ : Type} (x : Except ε α) (f : α → β) (g : β → γ) :
    (x.map f).map g = x.map fun v => g (f v) := by
  cases x <;> rfl

/-- The items that the pass has passed on, followed by those that it still
passes on, are the items of the derivation that is read. -/
theorem pass_eq_read (st : State) (g : Open) (outer : List Outer) (ts : List Token) :
    (Postfix.pass st.due g.waiting (outer.map Outer.waiting) ts).map (passedOn st g outer ++ ·) =
      (read st g outer ts).map Tree.items := by
  fun_induction read st g outer ts with
  | case1 a g =>
    simp [Postfix.pass, State.due, passedOn, Open.items_closeSum, State.items, Except.map]
  | case2 | case13 | case15 => rfl
  | case3 st g outer hdone hinside =>
    cases st with
    | operand | parenthesis f => rfl
    | rest a => cases outer <;> simp_all
  | case4 f g outer ts ih =>
    rw [← ih]
    simp [Postfix.pass, State.due, passedOn, State.items, Outer.waiting, Open.items, Open.waiting,
      negations]
  | case5 f g outer t ts ht => cases t <;> simp_all [Postfix.pass, State.due, Except.map]
  | case6 st g outer ts hst => cases st <;> simp_all [Postfix.pass, State.due, Except.map]
  | case7 g outer x ts ih =>
    rw [← ih, State.due, Postfix.pass, map_map]
    simp [State.due, passedOn, State.items, Tree.items, Tree.expression, Expression.items]
  | case8 g outer f ts ih =>
    rw [← ih]
    simp [Postfix.pass, State.due, passedOn, State.items]
  | case9 g outer ts ih =>
    rw [← ih]
    simp [Postfix.pass, State.due, passedOn, State.items, Outer.waiting, Open.items, Open.waiting,
      negations]
  | case10 g outer ts ih =>
    rw [← ih]
    simp [Postfix.pass, State.due, passedOn, State.items, Open.behindSign, Open.items,
      Open.waiting, negations]
  | case11 g outer ts ih =>
    rw [← ih]
    simp [Postfix.pass, State.due, passedOn, State.items, Open.behindSign, Open.items,
      Open.waiting, negations]
  | case12 g outer o ts hsub hadd =>
    cases o <;> simp_all [Postfix.pass, State.due, Except.map]
  | case14 a g outer o ts ih =>
    rw [← ih, g.dropWhile_waiting]
    simp only [State.due, Postfix.pass, map_map]
    simp [passedOn, State.items, g.takeWhile_waiting]
  | case16 a g o outer ts ih =>
    rw [← ih]
    simp only [List.map_cons, State.due, Outer.waiting, Postfix.pass, map_map]
    simp [passedOn, State.items, items_enclose, Open.items_closeSum]
  | case17 a g outer t ts hneg hop hunopened hclosing =>
    cases t with
    | closing => cases outer <;> simp_all
    | _ => simp_all [Postfix.pass, State.due, Except.map]

/-! ## What is read is derived -/

/-- The tokens behind the last complete group: those of the last primary, or a
function name. -/
def State.tokens : State → List Token
  | operand => []
  | parenthesis f => [.function f]
  | rest a => a.tokens

/-- The tokens of a group around, with the parenthesis that opens the next one. -/
def Outer.tokens (o : Outer) : List Token :=
  o.group.tokens ++ o.call.toList.map Token.function ++ [.opening]

/-- The tokens that lead to a state. -/
def consumed (st : State) (g : Open) (outer : List Outer) : List Token :=
  outer.reverse.flatMap Outer.tokens ++ g.tokens ++ st.tokens

/-- The tokens that lead to a state, followed by those that are read from it,
are the tokens of the derivation. -/
theorem tokens_of_read {st : State} {g : Open} {outer : List Outer} {ts : List Token}
    {t : Tree .sum} (hread : read st g outer ts = .ok t) :
    t.tokens = consumed st g outer ++ ts := by
  fun_induction read st g outer ts with
  | case1 a g =>
    cases hread
    simp [consumed, State.tokens, Open.tokens_closeSum]
  | case4 f g outer ts ih =>
    rw [ih hread]
    simp [consumed, State.tokens, Outer.tokens, Open.tokens]
  | case7 g outer x ts ih | case8 g outer f ts ih =>
    rw [ih hread]
    simp [consumed, State.tokens, Tree.tokens]
  | case9 g outer ts ih =>
    rw [ih hread]
    simp [consumed, State.tokens, Outer.tokens, Open.tokens]
  | case10 g outer ts ih | case11 g outer ts ih =>
    rw [ih hread]
    simp [consumed, State.tokens, Open.behindSign, Open.tokens, Sign.operator]
  | case14 a g outer o ts ih =>
    rw [ih hread]
    simp [consumed, State.tokens, Open.tokens_before]
  | case16 a g o outer ts ih =>
    rw [ih hread]
    simp [consumed, State.tokens, Outer.tokens, tokens_enclose, Open.tokens_closeSum]
  | _ => cases hread

/-! ## What is derived is read -/

/-- When a group is ready for a derivation of a level: whatever would take part
of the derivation for its own right operand is absent. -/
def Open.Ready (g : Open) : Level → Prop
  | .sum => g = {}
  | .product => g.product = none ∧ g.powers = [] ∧ g.signs = []
  | .power => g.signs = []
  | .signed | .primary => True

/-- A group holds a derivation `t` that was read from the group `g`, its last
primary being `a`: what `g` held at looser levels is still there, and closing
the group at the level of `t` gives `t`. -/
def Open.Holds (held : Open) (a : Tree .primary) (g : Open) : {l : Level} → Tree l → Prop
  | .sum, t => held.closeSum a = t
  | .product, t => held.sum = g.sum ∧ held.closeProduct a = t
  | .power, t =>
    held.sum = g.sum ∧ held.product = g.product ∧ held.closePower a = applyPowers g.powers t
  | .signed, t =>
    held.sum = g.sum ∧ held.product = g.product ∧ held.powers = g.powers ∧
      held.closeSigned a = applySigns g.signs t
  | .primary, t => held = g ∧ a = t

/-- Reading the tokens of a derivation leads to a group that holds it. -/
theorem read_tokens_append {l : Level} (t : Tree l) (g : Open) (hready : g.Ready l)
    (outer : List Outer) (ts : List Token) :
    ∃ held a, held.Holds a g t ∧
      read .operand g outer (t.tokens ++ ts) = read (.rest a) held outer ts := by
  induction t generalizing g outer ts with
  | term t ih =>
    cases hready
    obtain ⟨held, a, ⟨hsum, ht⟩, hread⟩ := ih {} ⟨rfl, rfl, rfl⟩ outer ts
    exact ⟨held, a, by simp [Open.Holds, Open.closeSum, hsum, ht], hread⟩
  | sum e s t ihe iht =>
    cases hready
    obtain ⟨held, a, he, hreade⟩ := ihe {} rfl outer (.operator s.operator :: (t.tokens ++ ts))
    have hbefore : held.before a s.operator = { sum := some (e, s) } := by
      cases s <;> simp [Sign.operator, Open.before, show held.closeSum a = e from he]
    obtain ⟨held', a', ⟨hsum, ht⟩, hreadt⟩ := iht { sum := some (e, s) } ⟨rfl, rfl, rfl⟩ outer ts
    refine ⟨held', a', by simp [Open.Holds, Open.closeSum, hsum, ht], ?_⟩
    rw [Tree.tokens, List.append_assoc, List.cons_append, hreade, read, hbefore, hreadt]
  | factor p ih =>
    obtain ⟨hproduct, hpowers, hsigns⟩ := hready
    obtain ⟨held, a, ⟨hsum, hproduct', hp⟩, hread⟩ := ih g hsigns outer ts
    refine ⟨held, a, ⟨hsum, ?_⟩, hread⟩
    simp [Open.closeProduct, hproduct', hproduct, hp, hpowers, applyPowers]
  | product t s p iht ihp =>
    obtain ⟨held, a, ⟨hsum, ht⟩, hreadt⟩ :=
      iht g hready outer (.operator s.operator :: (p.tokens ++ ts))
    have hbefore : held.before a s.operator = { sum := g.sum, product := some (t, s) } := by
      cases s <;> simp [Scaling.operator, Open.before, hsum, ht]
    obtain ⟨held', a', ⟨hsum', hproduct', hp⟩, hreadp⟩ :=
      ihp { sum := g.sum, product := some (t, s) } rfl outer ts
    refine ⟨held', a', ⟨hsum', by simp [Open.closeProduct, hproduct', hp, applyPowers]⟩, ?_⟩
    rw [Tree.tokens, List.append_assoc, List.cons_append, hreadt, read, hbefore, hreadp]
  | base u ih =>
    have hsigns : g.signs = [] := hready
    obtain ⟨held, a, ⟨hsum, hproduct, hpowers, hu⟩, hread⟩ := ih g trivial outer ts
    refine ⟨held, a, ⟨hsum, hproduct, ?_⟩, hread⟩
    simp [Open.closePower, hpowers, hu, hsigns, applySigns]
  | power u p ihu ihp =>
    have hsigns : g.signs = [] := hready
    obtain ⟨held, a, ⟨hsum, hproduct, hpowers, hu⟩, hreadu⟩ :=
      ihu g trivial outer (.operator .pow :: (p.tokens ++ ts))
    have hbefore : held.before a .pow = { g with powers := u :: g.powers } := by
      simp [Open.before, hsum, hproduct, hpowers, hu, hsigns, applySigns]
    obtain ⟨held', a', ⟨hsum', hproduct', hp⟩, hreadp⟩ :=
      ihp { g with powers := u :: g.powers } hsigns outer ts
    refine ⟨held', a', ⟨hsum', hproduct', hp⟩, ?_⟩
    rw [Tree.tokens, List.append_assoc, List.cons_append, hreadu, read, hbefore, hreadp]
  | signed s u ih =>
    obtain ⟨held, a, hu, hread⟩ := ih (g.behindSign s) trivial outer ts
    refine ⟨held, a, hu, ?_⟩
    rw [← hread]
    cases s <;> rfl
  | primary b ih =>
    obtain ⟨held, a, ⟨rfl, rfl⟩, hread⟩ := ih g trivial outer ts
    exact ⟨held, a, ⟨rfl, rfl, rfl, rfl⟩, hread⟩
  | number x => exact ⟨g, .number x, ⟨rfl, rfl⟩, rfl⟩
  | group e ih =>
    obtain ⟨held, a, he, hread⟩ := ih {} rfl (⟨none, g⟩ :: outer) (.closing :: ts)
    refine ⟨g, .group e, ⟨rfl, rfl⟩, ?_⟩
    rw [Tree.tokens, List.cons_append, List.append_assoc, List.singleton_append, read, hread, read,
      show held.closeSum a = e from he]
    rfl
  | call f e ih =>
    obtain ⟨held, a, he, hread⟩ := ih {} rfl (⟨some f, g⟩ :: outer) (.closing :: ts)
    refine ⟨g, .call f e, ⟨rfl, rfl⟩, ?_⟩
    rw [Tree.tokens, List.cons_append, List.cons_append, List.append_assoc, List.singleton_append,
      read, read, hread, read, show held.closeSum a = e from he]
    rfl

/-! ## The grammar of the parser -/

/-- The parser finds a derivation if and only if it derives the tokens. -/
theorem derivation_eq_ok_iff {ts : List Token} {t : Tree .sum} :
    derivation ts = .ok t ↔ t.tokens = ts := by
  constructor
  · intro hread
    cases ts with
    | nil => cases hread
    | cons u ts => simpa [consumed, Open.tokens, State.tokens] using tokens_of_read hread
  · rintro rfl
    obtain ⟨held, a, ht, hread⟩ := read_tokens_append t {} rfl [] []
    have hstart : derivation t.tokens = read .operand {} [] t.tokens := by
      unfold derivation
      split
      · exact absurd ‹t.tokens = []› t.tokens_ne_nil
      · rfl
    rw [hstart, ← List.append_nil t.tokens, hread, read, show held.closeSum a = t from ht]

/-- The postfix pass lists the derivation of its tokens. -/
theorem ofTokens_eq_derivation (ts : List Token) :
    Postfix.ofTokens ts = (derivation ts).map Tree.items := by
  cases ts with
  | nil => rfl
  | cons u ts =>
    have hpass := pass_eq_read .operand {} [] (u :: ts)
    have hnothing : passedOn .operand {} [] = [] := rfl
    simp only [hnothing, List.nil_append] at hpass
    exact (congrFun Except.map_id _).symm.trans hpass

/-- A text is derived in at most one way. -/
theorem Tree.eq_of_tokens_eq {t t' : Tree .sum} (h : t'.tokens = t.tokens) : t' = t := by
  have ht := derivation_eq_ok_iff.mpr h
  rw [derivation_eq_ok_iff.mpr (rfl : t.tokens = t.tokens)] at ht
  exact (Except.ok.inj ht).symm

/-- The postfix pass accepts the tokens that the grammar derives, and no
others.  The derivation is unique, the pass lists it in postfix order with its
numbers in the order of the tokens, and the token `neg` is in no accepted list. -/
theorem ofTokens_accepts_grammar (ts : List Token) :
    ((∃ items, Postfix.ofTokens ts = .ok items) ↔ ∃ t : Tree .sum, t.tokens = ts) ∧
      ∀ t : Tree .sum, t.tokens = ts →
        (∀ t' : Tree .sum, t'.tokens = ts → t' = t) ∧
          Postfix.ofTokens ts = .ok t.expression.items ∧
          t.expression.items.filterMap Item.number? = ts.filterMap Token.number? ∧
          .neg ∉ ts := by
  constructor
  · rw [ofTokens_eq_derivation]
    constructor
    · rintro ⟨items, hitems⟩
      cases hread : derivation ts with
      | error fault => simp [hread, Except.map] at hitems
      | ok t => exact ⟨t, derivation_eq_ok_iff.mp hread⟩
    · rintro ⟨t, ht⟩
      exact ⟨t.items, by rw [derivation_eq_ok_iff.mpr ht]; rfl⟩
  · rintro t rfl
    refine ⟨fun t' => Tree.eq_of_tokens_eq, ?_, t.items_numbers, t.neg_not_mem_tokens⟩
    rw [ofTokens_eq_derivation, derivation_eq_ok_iff.mpr rfl]
    rfl

/-- The derivation of `-2 ** 3 * +(4)`, where the minus binds tighter than the
power. -/
theorem ofTokens_signed_power :
    let tree : Tree .sum :=
      .term (.product (.factor (.power (.signed .minus (.primary (.number 2)))
        (.base (.primary (.number 3))))) .times
          (.base (.signed .plus (.primary (.group
            (.term (.factor (.base (.primary (.number 4))))))))))
    let ts : List Token :=
      [.operator .sub, .number 2, .operator .pow, .number 3, .operator .mul, .operator .add,
        .opening, .number 4, .closing]
    tree.tokens = ts ∧
      Postfix.ofTokens ts = .ok
        [.number 2, .neg, .number 3, .operator .pow, .number 4, .operator .mul] := by
  intro tree ts
  exact ⟨rfl, ((ofTokens_accepts_grammar ts).2 tree rfl).2.1⟩

end PocketCalculator.Grammar