import PocketCalculator.Evaluation

/-!
# Expressions

The tree of an expression.  `items` lists it in postfix order, `eval` evaluates
it operand by operand from the left, and `eval_items_append` says that the stack
does the same: evaluating the items of a tree and then further items is
evaluating the tree, and then the further items with its value on the stack.
Effects and errors of function calls come in the same order on both sides.
-/

namespace PocketCalculator

/-- An expression without parentheses: the tree says what belongs together. -/
inductive Expression
  | number (x : Float)
  | neg (e : Expression)
  | binary (o : Operator) (left right : Expression)
  | call (f : Function) (argument : Expression)
deriving DecidableEq, Repr

namespace Expression

/-- An expression in postfix order. -/
def items : Expression → List Item
  | number x => [.number x]
  | neg e => e.items ++ [.neg]
  | binary o left right => left.items ++ right.items ++ [.operator o]
  | call f argument => argument.items ++ [.function f]

variable {m : Type → Type} [Monad m]

/-- The value of an expression. -/
def eval (lib : Elementary) (space : Namespace m) : Expression → m Float
  | number x => pure x
  | neg e => return -(← e.eval lib space)
  | binary o left right => return o.apply lib (← left.eval lib space) (← right.eval lib space)
  | call f argument => do space f (← argument.eval lib space)

variable [LawfulMonad m] [MonadExceptOf Error m]

theorem eval_items_append (lib : Elementary) (space : Namespace m) (e : Expression)
    (rest : List Item) (stack : List Float) :
    Postfix.eval lib space (e.items ++ rest) stack =
      e.eval lib space >>= fun v => Postfix.eval lib space rest (v :: stack) := by
  induction e generalizing rest stack with
  | number x => simp [items, eval, Postfix.eval]
  | neg e ih => simp [items, eval, Postfix.eval, ih]
  | binary o left right ihl ihr => simp [items, eval, Postfix.eval, ihl, ihr]
  | call f argument ih => simp [items, eval, Postfix.eval, ih]

/-- The stack evaluates the items of an expression to its value. -/
theorem eval_items (lib : Elementary) (space : Namespace m) (e : Expression) :
    Postfix.eval lib space e.items [] = e.eval lib space := by
  have h := eval_items_append lib space e [] []
  simpa [Postfix.eval] using h

end Expression

end PocketCalculator
