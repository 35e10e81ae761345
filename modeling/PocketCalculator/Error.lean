import PocketCalculator.Text.Basic

/-!
# Errors

Every error has one cause.  `SyntaxFault` says why a canonical text is no
arithmetic, `Error` adds the causes that lie before and after reading it, and
the `message` functions hold the wording.
-/

namespace PocketCalculator

/-- Why a text or a list of tokens is not an expression. -/
inductive SyntaxFault
  /-- A run of digits and points that is no numeral. -/
  | unreadableNumber (figures : Text)
  /-- A word that names no function. -/
  | unknownName (name : Text)
  /-- A character that begins no token. -/
  | unexpectedCharacter (c : Char)
  /-- There are no tokens at all. -/
  | noTokens
  /-- A function name without its parenthesis. -/
  | callWithoutGroup
  /-- An operand directly after an operand. -/
  | missingOperator
  /-- A binary operator where an operand is due. -/
  | missingOperand
  /-- A closing parenthesis where an operand is due. -/
  | missingOperandInGroup
  /-- A closing parenthesis that closes nothing. -/
  | unopenedGroup
  /-- The token of a sign, which text never yields. -/
  | strayNegation
  /-- The tokens end where an operand is due. -/
  | incomplete
  /-- The tokens end inside a group. -/
  | unclosedGroup
  /-- A postfix list that does not leave one value. -/
  | unbalancedPostfix
deriving DecidableEq, Repr

/-- Why there is no result. -/
inductive Error
  /-- Nothing but blanks was typed. -/
  | emptyInput
  /-- A root without an operand. -/
  | malformedRoot
  /-- The factorial of a number that is not finite. -/
  | invalidOperand
  /-- The factorial of a negative whole number. -/
  | undefinedFactorial
  /-- The tangent of an angle whose cosine is nearly zero. -/
  | tangentDomain
  /-- The canonical text is no arithmetic. -/
  | malformed (fault : SyntaxFault)
  /-- The result is infinite. -/
  | divisionByZero
  /-- The result is no number. -/
  | invalidExpression
deriving DecidableEq, Repr

/-- A text between guillemets. -/
def quoted (s : Text) : Text := "« ".toList ++ s ++ " »".toList

/-- What is said about a fault of syntax. -/
def SyntaxFault.message : SyntaxFault → Text
  | unreadableNumber figures => "nombre invalide ".toList ++ quoted figures
  | unknownName name => "identifiant inconnu ".toList ++ quoted name
  | unexpectedCharacter c => "caractère inattendu ".toList ++ quoted [c]
  | noTokens => "expression vide".toList
  | callWithoutGroup => "« ( » attendue après une fonction".toList
  | missingOperator => "opérateur manquant".toList
  | missingOperand => "opérande manquant".toList
  | missingOperandInGroup => "opérande manquant avant « ) »".toList
  | unopenedGroup => "« ) » sans « ( » correspondante".toList
  | strayNegation => "jeton interne inattendu".toList
  | incomplete => "expression incomplète".toList
  | unclosedGroup => "parenthèses non fermées".toList
  | unbalancedPostfix => "expression invalide".toList

/-- What is shown in place of a result. -/
def Error.message : Error → Text
  | emptyInput => "Aucune entrée n’a été saisie.".toList
  | malformedRoot => "Expression mal formée autour de √.".toList
  | invalidOperand => "Opérande invalide.".toList
  | undefinedFactorial => "La factorielle d’un entier négatif n’est pas définie.".toList
  | tangentDomain => "Tangente indéfinie : le cosinus est trop proche de zéro.".toList
  | malformed fault => "Erreur de syntaxe : ".toList ++ fault.message
  | divisionByZero => "Division par zéro impossible.".toList
  | invalidExpression => "Expression invalide.".toList

end PocketCalculator
