import PocketCalculator.Proofs.Parsing

/-!
# Evaluation on a stack and evaluation of trees

`Expression.trace` evaluates a tree from the left and the inside out, and
lists the calls that it makes.  A call that fails ends the evaluation, so it
is the last one of the list (`Expression.trace_calls`).

The stack evaluates the items of a tree with the same calls and to the same
value or error (`Expression.recorded_eval`), whatever the functions do.
It always finds the operands that it needs, and one value is left
(`Expression.height?_items`).

Since every accepted text is listed from a tree, an error of `evaluate` on
such a text is the error of a call or the judgement of a value that is
infinite or no number.
-/

namespace PocketCalculator

/-! ## The height of the stack -/

/-- How many values an item takes from the stack. -/
def Item.arity : Item → Nat
  | number _ => 0
  | neg => 1
  | function _ => 1
  | operator _ => 2

/-- The height that the items give to a stack of height `h`, unless one of them
finds too few values. -/
def Postfix.height? : List Item → Nat → Option Nat
  | [], h => some h
  | i :: items, h => if i.arity ≤ h then Postfix.height? items (h - i.arity + 1) else none

namespace Expression

theorem height?_items_append (e : Expression) (rest : List Item) (h : Nat) :
    Postfix.height? (e.items ++ rest) h = Postfix.height? rest (h + 1) := by
  induction e generalizing rest h with
  | number x => simp [items, Postfix.height?, Item.arity]
  | neg e ih => simp [items, ih, Postfix.height?, Item.arity]
  | binary o left right ihl ihr => simp [items, ihl, ihr, Postfix.height?, Item.arity]
  | call f argument ih => simp [items, ih, Postfix.height?, Item.arity]

/-- The items of a tree find all their operands and leave one value. -/
theorem height?_items (e : Expression) : Postfix.height? e.items 0 = some 1 := by
  have happend := height?_items_append e [] 0
  simpa [Postfix.height?] using happend

/-! ## The calls of a tree -/

/-- The calls that a tree makes, in order, and its value.  Operands come before
what is done with them, and the left one before the right one; after a call
that fails there are no more. -/
def trace (lib : Elementary) (space : Namespace (Except Error)) :
    Expression → List Call × Except Error Float
  | number x => ([], .ok x)
  | neg e =>
    match e.trace lib space with
    | (calls, .error err) => (calls, .error err)
    | (calls, .ok a) => (calls, .ok (-a))
  | binary o left right =>
    match left.trace lib space with
    | (calls, .error err) => (calls, .error err)
    | (calls, .ok a) =>
      match right.trace lib space with
      | (more, .error err) => (calls ++ more, .error err)
      | (more, .ok b) => (calls ++ more, .ok (o.apply lib a b))
  | call f argument =>
    match argument.trace lib space with
    | (calls, .error err) => (calls, .error err)
    | (calls, .ok a) => (calls ++ [⟨f, a⟩], space f a)

/-- What the calls of an evaluation have to do with its result: all of them
succeed, or the last one fails with the error of the evaluation and those before
it succeed. -/
def Explains (space : Namespace (Except Error)) (calls : List Call) : Except Error Float → Prop
  | .ok _ => ∀ c ∈ calls, ∃ v, space c.function c.argument = .ok v
  | .error err =>
    ∃ earlier last, calls = earlier ++ [last] ∧
      space last.function last.argument = .error err ∧
      ∀ c ∈ earlier, ∃ v, space c.function c.argument = .ok v

section

variable (lib : Elementary) (space : Namespace (Except Error))

theorem trace_calls (e : Expression) :
    Explains space (e.trace lib space).1 (e.trace lib space).2 := by
  induction e with
  | number x => simp [trace, Explains]
  | neg e ih =>
    rcases he : e.trace lib space with ⟨calls, err | a⟩ <;> rw [he] at ih
    · simpa [trace, he] using ih
    · simpa [trace, he, Explains] using ih
  | binary o left right ihl ihr =>
    rcases hl : left.trace lib space with ⟨calls, err | a⟩ <;> rw [hl] at ihl
    · simpa [trace, hl] using ihl
    rcases hr : right.trace lib space with ⟨more, err | b⟩ <;> rw [hr] at ihr
    · obtain ⟨earlier, last, hmore, herr, hearlier⟩ := ihr
      simp only [trace, hl, hr]
      refine ⟨calls ++ earlier, last, by simp [show more = earlier ++ [last] from hmore], herr, ?_⟩
      intro c hc
      rcases List.mem_append.mp hc with hc | hc
      · exact ihl c hc
      · exact hearlier c hc
    · simp only [trace, hl, hr]
      intro c hc
      rcases List.mem_append.mp hc with hc | hc
      · exact ihl c hc
      · exact ihr c hc
  | call f argument ih =>
    rcases ha : argument.trace lib space with ⟨calls, err | a⟩ <;> rw [ha] at ih
    · simpa [trace, ha] using ih
    simp only [trace, ha]
    cases hcall : space f a with
    | error err => exact ⟨calls, ⟨f, a⟩, rfl, hcall, ih⟩
    | ok v =>
      intro c hc
      rcases List.mem_append.mp hc with hc | hc
      · exact ih c hc
      · rw [List.mem_singleton.mp hc]
        exact ⟨v, hcall⟩

/-- Without a record, a tree evaluates to the value of its trace. -/
theorem eval_eq_trace (e : Expression) : e.eval lib space = (e.trace lib space).2 := by
  induction e with
  | number x => rfl
  | neg e ih =>
    rcases he : e.trace lib space with ⟨calls, err | a⟩ <;> rw [he] at ih <;>
      simp only [eval, trace, ih, he] <;> rfl
  | binary o left right ihl ihr =>
    rcases hl : left.trace lib space with ⟨calls, err | a⟩ <;> rw [hl] at ihl
    · simp only [eval, trace, ihl, hl]
      rfl
    rcases hr : right.trace lib space with ⟨more, err | b⟩ <;> rw [hr] at ihr <;>
      simp only [eval, trace, ihl, ihr, hl, hr] <;> rfl
  | call f argument ih =>
    rcases ha : argument.trace lib space with ⟨calls, err | a⟩ <;> rw [ha] at ih <;>
      simp only [eval, trace, ih, ha] <;> rfl

end

/-! ## Recorded calls -/

section

variable {α β : Type} {x : ExceptT Error (StateM (List Call)) α}
  {next : α → ExceptT Error (StateM (List Call)) β} {earlier later : List Call}

private theorem run_bind (x : ExceptT Error (StateM (List Call)) α) (earlier : List Call) :
    (x >>= next).run.run earlier =
      (ExceptT.bindCont next (x.run.run earlier).1).run (x.run.run earlier).2 := rfl

private theorem run_bind_of_ok {a : α} (hx : x.run.run earlier = (.ok a, later)) :
    (x >>= next).run.run earlier = (next a).run.run later := by
  rw [run_bind, hx]
  rfl

private theorem run_bind_of_error {err : Error} (hx : x.run.run earlier = (.error err, later)) :
    (x >>= next).run.run earlier = (.error err, later) := by
  rw [run_bind, hx]
  rfl

end

section

variable (lib : Elementary) (space : Namespace (Except Error))

theorem recorded_run (f : Function) (x : Float) (earlier : List Call) :
    (space.recorded f x).run.run earlier = (space f x, ⟨f, x⟩ :: earlier) := by
  cases h : space f x <;> simp [Namespace.recorded, MonadExcept.ofExcept, h] <;> rfl

/-- A recorded namespace evaluates a tree to the value of its trace and keeps the
calls, the latest first. -/
theorem recorded_eval (e : Expression) (earlier : List Call) :
    (e.eval lib space.recorded).run.run earlier =
      ((e.trace lib space).2, (e.trace lib space).1.reverse ++ earlier) := by
  induction e generalizing earlier with
  | number x => rfl
  | neg e ih =>
    have he := ih earlier
    rcases htrace : e.trace lib space with ⟨calls, err | a⟩ <;> rw [htrace] at he
    · rw [eval, run_bind_of_error he, trace, htrace]
    · rw [eval, run_bind_of_ok he, trace, htrace]
      rfl
  | binary o left right ihl ihr =>
    have hleft := ihl earlier
    rcases hl : left.trace lib space with ⟨calls, err | a⟩ <;> rw [hl] at hleft
    · rw [eval, run_bind_of_error hleft, trace, hl]
    have hright := ihr (calls.reverse ++ earlier)
    rcases hr : right.trace lib space with ⟨more, err | b⟩ <;> rw [hr] at hright
    · rw [eval, run_bind_of_ok hleft, run_bind_of_error hright, trace, hl, hr]
      simp
    · rw [eval, run_bind_of_ok hleft, run_bind_of_ok hright, trace, hl, hr]
      simp
      rfl
  | call f argument ih =>
    have hargument := ih earlier
    rcases ha : argument.trace lib space with ⟨calls, err | a⟩ <;> rw [ha] at hargument
    · rw [eval, run_bind_of_error hargument, trace, ha]
    · rw [eval, run_bind_of_ok hargument, recorded_run, trace, ha]
      simp

end

end Expression

/-! ## Accepted texts -/

/-- Whether an error judges a value: an infinite one is a division by zero, and
one that is no number is an invalid expression. -/
def Error.Judges (err : Error) (v : Float) : Prop :=
  v.isInf = true ∧ err = .divisionByZero ∨ v.isNaN = true ∧ err = .invalidExpression

theorem judge_error {v : Float} {err : Error} (h : judge v = .error err) : err.Judges v := by
  unfold judge at h
  split at h
  · exact .inl ⟨‹_›, (Except.error.inj h).symm⟩
  · split at h
    · exact .inr ⟨‹_›, (Except.error.inj h).symm⟩
    · cases h

/-- The items of an accepted text list a tree. -/
theorem Postfix.exists_items_eq {s : Text} {items : List Item}
    (h : Postfix.ofText s = .ok items) : ∃ e : Expression, e.items = items := by
  cases hts : Token.read s with
  | error fault => simp [Postfix.ofText, hts, bind, Except.bind] at h
  | ok ts =>
    have hitems : Postfix.ofTokens ts = .ok items := by
      simpa [Postfix.ofText, hts, bind, Except.bind] using h
    rw [Grammar.ofTokens_eq_derivation] at hitems
    cases ht : Grammar.derivation ts with
    | error fault => simp [ht, Except.map] at hitems
    | ok t =>
      rw [ht] at hitems
      exact ⟨t.expression, Except.ok.inj hitems⟩

section

variable (lib : Elementary) (space : Namespace (Except Error))

/-- An accepted text is evaluated to the judgement of what its items give on the stack. -/
theorem evaluate_of_items {s : Text} {items : List Item} (h : Postfix.ofText s = .ok items) :
    evaluate lib space s = Postfix.eval lib space items [] >>= judge := by
  unfold evaluate
  rw [h]
  show (Postfix.eval lib space items [] >>= fun v => MonadExcept.ofExcept (judge v)) = _
  cases Postfix.eval lib space items [] with
  | error err => rfl
  | ok v =>
    show MonadExcept.ofExcept (judge v) = judge v
    cases judge v <;> rfl

/-- An accepted text is evaluated to the judgement of its tree's value. -/
theorem evaluate_eq_judge {s : Text} {e : Expression} (h : Postfix.ofText s = .ok e.items) :
    evaluate lib space s = (e.trace lib space).2 >>= judge := by
  rw [evaluate_of_items lib space h, Expression.eval_items, Expression.eval_eq_trace]

/-- An error of `evaluate` on an accepted text comes from a call, or it judges
the value. -/
theorem evaluate_error {s : Text} {e : Expression} {err : Error}
    (h : Postfix.ofText s = .ok e.items) (herr : evaluate lib space s = .error err) :
    (∃ c ∈ (e.trace lib space).1, space c.function c.argument = .error err) ∨
      ∃ v, (e.trace lib space).2 = .ok v ∧ err.Judges v := by
  have hcalls := e.trace_calls lib space
  rw [evaluate_eq_judge lib space h] at herr
  cases htrace : (e.trace lib space).2 with
  | error err' =>
    rw [htrace] at herr hcalls
    cases herr
    obtain ⟨earlier, last, hlast, hfail, -⟩ := hcalls
    exact .inl ⟨last, by simp [hlast], hfail⟩
  | ok v =>
    rw [htrace] at herr
    exact .inr ⟨v, rfl, judge_error herr⟩

end

/-- The errors that a call can have where angles are in degrees. -/
theorem degrees_error {lib : Elementary} {f : Function} {x : Float} {err : Error}
    (h : Namespace.degrees lib f x = .error err) :
    err = .tangentDomain ∨ err = .invalidOperand ∨ err = .undefinedFactorial := by
  cases f with
  | sqrt | log10 | sin | cos => cases h
  | tan =>
    simp only [Namespace.degrees] at h
    split at h
    · exact .inl (Except.error.inj h).symm
    · cases h
  | factorial =>
    simp only [Namespace.degrees, factorial] at h
    split at h
    · exact .inr (.inl (Except.error.inj h).symm)
    · split at h
      · exact .inr (.inr (Except.error.inj h).symm)
      · split at h <;> cases h

/-- The stack evaluator agrees with the evaluation of trees.

On the items of a tree it does what the tree does in any monad, and with
recorded calls it makes the calls of the tree and ends with its value or with
the error of the last call; it finds all its operands, and one value is left.
The items of an accepted text list a tree, so `evaluate` has an error of its
own only where the value of that tree is infinite or no number. -/
theorem evaluation_agrees_with_trees (lib : Elementary) (space : Namespace (Except Error)) :
    (∀ e : Expression,
      (∀ (m : Type → Type) [Monad m] [LawfulMonad m] [MonadExceptOf Error m]
          (effects : Namespace m), Postfix.eval lib effects e.items [] = e.eval lib effects) ∧
      (∀ earlier, (Postfix.eval lib space.recorded e.items []).run.run earlier =
        ((e.trace lib space).2, (e.trace lib space).1.reverse ++ earlier)) ∧
      Postfix.eval lib space e.items [] = (e.trace lib space).2 ∧
      Expression.Explains space (e.trace lib space).1 (e.trace lib space).2 ∧
      Postfix.height? e.items 0 = some 1) ∧
    ∀ (s : Text) (items : List Item), Postfix.ofText s = .ok items →
      ∃ e : Expression, e.items = items ∧
        evaluate lib space s = (e.trace lib space).2 >>= judge ∧
        (∀ err, evaluate lib space s = .error err →
          (∃ c ∈ (e.trace lib space).1, space c.function c.argument = .error err) ∨
            ∃ v, (e.trace lib space).2 = .ok v ∧ err.Judges v) ∧
        ∀ err, evaluate lib (Namespace.degrees lib) s = .error err →
          (err = .tangentDomain ∨ err = .invalidOperand ∨ err = .undefinedFactorial) ∨
            ∃ v, (e.trace lib (Namespace.degrees lib)).2 = .ok v ∧ err.Judges v := by
  constructor
  · intro e
    refine ⟨fun m _ _ _ effects => e.eval_items lib effects, ?_, ?_, e.trace_calls lib space,
      e.height?_items⟩
    · intro earlier
      rw [Expression.eval_items, Expression.recorded_eval]
    · rw [Expression.eval_items, Expression.eval_eq_trace]
  · intro s items h
    obtain ⟨e, rfl⟩ := Postfix.exists_items_eq h
    refine ⟨e, rfl, evaluate_eq_judge lib space h, fun err => evaluate_error lib space h, ?_⟩
    intro err herr
    rcases evaluate_error lib _ h herr with ⟨c, -, hc⟩ | hjudged
    · exact .inl (degrees_error hc)
    · exact .inr hjudged

/-- In `math.tan(5)/0` the call succeeds, and the text is accepted. -/
theorem evaluation_of_tangent_quotient :
    let s := "math.tan(5)/0".toList
    let items : List Item :=
      [.number (Decimal.toFloat ⟨5, 0⟩), .function .tan, .number (Decimal.toFloat ⟨0, 0⟩),
        .operator .div]
    Postfix.ofText s = .ok items ∧
      ∃ e : Expression, e.items = items ∧
        evaluate Elementary.machine Namespace.shifts s =
          (e.trace Elementary.machine Namespace.shifts).2 >>= judge := by
  intro s items
  have hs : Postfix.ofText s = .ok items := rfl
  obtain ⟨e, he, heval, -⟩ :=
    (evaluation_agrees_with_trees Elementary.machine Namespace.shifts).2 s items hs
  exact ⟨hs, e, he, heval⟩

end PocketCalculator
