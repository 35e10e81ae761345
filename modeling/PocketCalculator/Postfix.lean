import PocketCalculator.Error
import PocketCalculator.Token.Basic

/-!
# Postfix order

`Postfix.ofTokens` brings tokens into postfix order in one pass.  Numbers are
passed on at once; operators wait until what binds tighter has been passed on; a
parenthesis opens a group with waiting operators of its own, and closing it
passes those on, followed by the function that was called on the group.

A sign binds tighter than a power, a power tighter than a product and a product
tighter than a sum.  Powers group to the right, products and sums to the left.
-/

namespace PocketCalculator

/-- One item of a list in postfix order. -/
inductive Item
  | number (x : Float)
  | neg
  | operator (o : Operator)
  | function (f : Function)
deriving DecidableEq, Repr

/-- The token that writes an item. -/
def Item.token : Item → Token
  | number x => .number x
  | neg => .neg
  | operator o => .operator o
  | function f => .function f

namespace Postfix

/-- How tightly an operator binds. -/
def precedence : Operator → Nat
  | .add | .sub => 1
  | .mul | .div => 2
  | .pow => 3

/-- An operator whose right operand is still being read. -/
inductive Waiting
  | neg
  | operator (o : Operator)
deriving DecidableEq, Repr

/-- The item that a waiting operator becomes. -/
def Waiting.item : Waiting → Item
  | neg => .neg
  | operator o => .operator o

/-- Whether a waiting operator has its operand complete when `o` follows it. -/
def Waiting.closedBy (o : Operator) : Waiting → Bool
  | neg => true
  | operator p => if o = .pow then false else precedence o ≤ precedence p

/-- What is around an open group: the function called on it, if any, and the
operators that wait for its value. -/
structure Group where
  call : Option Function
  waiting : List Waiting
deriving DecidableEq, Repr

/-- What may come next: an operand, the parenthesis of a called function, or
what can follow a complete operand. -/
inductive Due
  | operand
  | parenthesis (f : Function)
  | rest
deriving DecidableEq, Repr

/-- Passes the rest of the tokens on in postfix order.  `waiting` are the
operators of the current group, the last one first, and `outer` the groups
around it, the innermost first. -/
def pass : Due → List Waiting → List Group → List Token → Except SyntaxFault (List Item)
  | .rest, waiting, [], [] => .ok (waiting.map Waiting.item)
  | .rest, _, _ :: _, [] => .error .unclosedGroup
  | _, _, _, [] => .error .incomplete
  | .parenthesis f, waiting, outer, .opening :: ts => pass .operand [] (⟨some f, waiting⟩ :: outer) ts
  | .parenthesis _, _, _, _ :: _ => .error .callWithoutGroup
  | _, _, _, .neg :: _ => .error .strayNegation
  | .operand, waiting, outer, .number x :: ts => (pass .rest waiting outer ts).map (.number x :: ·)
  | .operand, waiting, outer, .function f :: ts => pass (.parenthesis f) waiting outer ts
  | .operand, waiting, outer, .opening :: ts => pass .operand [] (⟨none, waiting⟩ :: outer) ts
  | .operand, waiting, outer, .operator .sub :: ts => pass .operand (.neg :: waiting) outer ts
  | .operand, waiting, outer, .operator .add :: ts => pass .operand waiting outer ts
  | .operand, _, _, .operator _ :: _ => .error .missingOperand
  | .operand, _, _, .closing :: _ => .error .missingOperandInGroup
  | .rest, waiting, outer, .operator o :: ts =>
    (pass .operand (.operator o :: waiting.dropWhile (Waiting.closedBy o)) outer ts).map
      ((waiting.takeWhile (Waiting.closedBy o)).map Waiting.item ++ ·)
  | .rest, _, [], .closing :: _ => .error .unopenedGroup
  | .rest, waiting, group :: outer, .closing :: ts =>
    (pass .rest group.waiting outer ts).map
      (waiting.map Waiting.item ++ group.call.toList.map Item.function ++ ·)
  | .rest, _, _, _ :: _ => .error .missingOperator

/-- Brings tokens into postfix order. -/
def ofTokens : List Token → Except SyntaxFault (List Item)
  | [] => .error .noTokens
  | ts => pass .operand [] [] ts

end Postfix

end PocketCalculator
