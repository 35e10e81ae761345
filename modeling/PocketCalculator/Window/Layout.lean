import PocketCalculator.Calculator

/-!
# What the window shows

The window draws, from top to bottom, a title with the theme box, the entry line
with its preview, the buttons, and the history under a header that folds it.
`Window.widgetAt?` finds what a label stands on: of several equal texts the last
one drawn.
-/

namespace PocketCalculator

/-- A window: the calculator and what belongs to the screen alone.  `cursor` is
kept while the entry line does not have the keyboard. -/
structure Window where
  calculator : Calculator := {}
  focused : Bool := false
  cursor : Nat := 0
  folded : Bool := false
deriving DecidableEq, Repr

/-- What can be clicked. -/
inductive Widget
  | caption
  | theme
  | entry
  | copy
  | button (action : Calculator.Action)
  | historyHeader
  | historyLine (line : Text)
deriving DecidableEq, Repr

namespace Window

/-- Shown in place of an empty entry. -/
def hint : Text := "Ex: 2√9 + sin(30), 5!, 2^10".toList

/-- The buttons that do something other than typing their label. -/
def actionButtons : List (Text × Calculator.Action) :=
  [("M+".toList, .memoryAdd), ("M−".toList, .memorySubtract), ("MR".toList, .memoryRecall),
    ("MC".toList, .memoryClear), ("C".toList, .clearEntry), ("DEL".toList, .deleteLast),
    ("=".toList, .equals), ("sin".toList, .insert "sin(".toList),
    ("cos".toList, .insert "cos(".toList), ("tan".toList, .insert "tan(".toList),
    ("log".toList, .insert "log(".toList), ("x!".toList, .insert "!".toList),
    ("xʸ".toList, .insert "^".toList)]

/-- The buttons that type their label. -/
def typingButtons : List (Text × Calculator.Action) :=
  "√789/456*123-0.+()".toList.map fun c => ([c], .insert [c])

/-- The buttons with their labels, no two of which are equal. -/
def buttons : List (Text × Widget) :=
  (actionButtons ++ typingButtons).map fun (label, action) => (label, .button action)

/-- The texts above and including the history header, with what they stand on, in
the order in which they are drawn.  An empty preview is not drawn. -/
def drawn (w : Window) : List (Text × Widget) :=
  let entry := w.calculator.entry
  let preview := w.calculator.preview
  [("Calculatrice degrés".toList, .caption), ("Sombre".toList, .theme),
    (if entry.isEmpty then hint else entry, .entry)] ++
    (if preview.isEmpty then [] else [(preview, .caption)]) ++
    ("Copier".toList, .copy) :: buttons ++ [("Historique".toList, .historyHeader)]

/-- What stands where a label is drawn. -/
def widgetAt? (w : Window) (label : Text) : Option Widget :=
  (w.drawn.reverse.find? (·.1 = label)).map (·.2)

/-- The line of the history at a place, if the history is unfolded. -/
def historyLineAt? (w : Window) (i : Nat) : Option Widget :=
  if w.folded then none else w.calculator.engine.lines[i]?.map .historyLine

/-- The texts under the history header. -/
def below (w : Window) : List Text :=
  if w.folded then []
  else if w.calculator.engine.history.isEmpty then ["(vide)".toList]
  else w.calculator.engine.lines

end Window

end PocketCalculator
