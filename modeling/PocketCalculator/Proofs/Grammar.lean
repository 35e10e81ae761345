import PocketCalculator.Expression

/-!
# The grammar of tokens

An expression is a sum of products of powers of signed primaries.  `Tree`
holds the derivations of this grammar, one type for each level and one
constructor for each rule.  `Tree.tokens` is the text of a derivation, and
`Tree.expression` is its meaning, in which parentheses and plus signs have
left no trace.

Two facts about single derivations are proved here: the tokens and the items
of the expression hold the same numbers in the same order
(`Tree.items_numbers`), and no derivation uses the token `neg`
(`Tree.neg_not_mem_tokens`).
-/

namespace PocketCalculator

/-- The number that an item pushes, if it is one. -/
def Item.number? : Item → Option Float
  | number x => some x
  | _ => none

/-- The number that a token stands for, if it is one. -/
def Token.number? : Token → Option Float
  | number x => some x
  | _ => none

namespace Grammar

/-- The levels of the grammar, the loosest first. -/
inductive Level
  | sum
  | product
  | power
  | signed
  | primary
deriving DecidableEq, Repr

/-- The signs, which also join the terms of a sum. -/
inductive Sign
  | plus
  | minus
deriving DecidableEq, Repr

/-- The operator that is written like a sign. -/
def Sign.operator : Sign → Operator
  | plus => .add
  | minus => .sub

/-- What joins the factors of a product. -/
inductive Scaling
  | times
  | per
deriving DecidableEq, Repr

/-- The operator of a scaling. -/
def Scaling.operator : Scaling → Operator
  | times => .mul
  | per => .div

/-- The derivations of a level.

* a sum is a product, or a sum, a sign and a product;
* a product is a power, or a product, a scaling and a power;
* a power is a signed primary, or a signed primary raised to a power;
* a signed primary is a primary, perhaps behind signs;
* a primary is a number, a sum in parentheses, or a function called on one. -/
inductive Tree : Level → Type
  | term (t : Tree .product) : Tree .sum
  | sum (e : Tree .sum) (s : Sign) (t : Tree .product) : Tree .sum
  | factor (p : Tree .power) : Tree .product
  | product (t : Tree .product) (s : Scaling) (p : Tree .power) : Tree .product
  | base (u : Tree .signed) : Tree .power
  | power (u : Tree .signed) (p : Tree .power) : Tree .power
  | signed (s : Sign) (u : Tree .signed) : Tree .signed
  | primary (a : Tree .primary) : Tree .signed
  | number (x : Float) : Tree .primary
  | group (e : Tree .sum) : Tree .primary
  | call (f : Function) (e : Tree .sum) : Tree .primary
deriving Repr

namespace Tree

/-- The tokens that a derivation derives. -/
def tokens : {l : Level} → Tree l → List Token
  | _, term t => t.tokens
  | _, sum e s t => e.tokens ++ .operator s.operator :: t.tokens
  | _, factor p => p.tokens
  | _, product t s p => t.tokens ++ .operator s.operator :: p.tokens
  | _, base u => u.tokens
  | _, power u p => u.tokens ++ .operator .pow :: p.tokens
  | _, signed s u => .operator s.operator :: u.tokens
  | _, primary a => a.tokens
  | _, number x => [.number x]
  | _, group e => .opening :: (e.tokens ++ [.closing])
  | _, call f e => .function f :: .opening :: (e.tokens ++ [.closing])

/-- What a derivation means: a minus sign negates, and a plus sign and
parentheses leave the value as it is. -/
def expression : {l : Level} → Tree l → Expression
  | _, term t => t.expression
  | _, sum e s t => .binary s.operator e.expression t.expression
  | _, factor p => p.expression
  | _, product t s p => .binary s.operator t.expression p.expression
  | _, base u => u.expression
  | _, power u p => .binary .pow u.expression p.expression
  | _, signed .plus u => u.expression
  | _, signed .minus u => .neg u.expression
  | _, primary a => a.expression
  | _, number x => .number x
  | _, group e => e.expression
  | _, call f e => .call f e.expression

/-- A derivation in postfix order. -/
def items {l : Level} (t : Tree l) : List Item := t.expression.items

theorem items_numbers {l : Level} (t : Tree l) :
    t.items.filterMap Item.number? = t.tokens.filterMap Token.number? := by
  unfold items
  induction t with
  | term _ ih | factor _ ih | base _ ih | primary _ ih => exact ih
  | sum e s t ihe iht | product e s t ihe iht =>
    simp [expression, Expression.items, tokens, List.filterMap_cons, Item.number?, Token.number?,
      ihe, iht]
  | power u p ihu ihp =>
    simp [expression, Expression.items, tokens, List.filterMap_cons, Item.number?, Token.number?,
      ihu, ihp]
  | signed s u ih =>
    cases s <;>
      simp [expression, Expression.items, tokens, List.filterMap_cons, Item.number?,
        Token.number?, ih]
  | number x => rfl
  | group e ih => simp [expression, tokens, List.filterMap_cons, Token.number?, ih]
  | call f e ih =>
    simp [expression, Expression.items, tokens, List.filterMap_cons, Item.number?,
      Token.number?, ih]

theorem neg_not_mem_tokens {l : Level} (t : Tree l) : .neg ∉ t.tokens := by
  induction t with
  | term _ ih | factor _ ih | base _ ih | primary _ ih => exact ih
  | sum e s t ihe iht | product e s t ihe iht => simp [tokens, ihe, iht]
  | power u p ihu ihp => simp [tokens, ihu, ihp]
  | signed s u ih => simp [tokens, ih]
  | number x => simp [tokens]
  | group e ih | call f e ih => simp [tokens, ih]

theorem tokens_ne_nil {l : Level} (t : Tree l) : t.tokens ≠ [] := by
  induction t with
  | term _ ih | factor _ ih | base _ ih | primary _ ih => exact ih
  | _ => simp [tokens]

end Tree

end Grammar

end PocketCalculator
