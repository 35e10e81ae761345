import PocketCalculator.Proofs.Runs.Preview

/-!
# Three ways to evaluate

A typed equals sign, its button and the key `Enter` all evaluate the entry line, but on
different ways.  The sign is set aside before the field sees it, and the button acts when the
field has been drawn.  `Enter` is a keystroke first: it throws a message away before it
evaluates what is left, and that is nothing.

* `calculator_sign`, `calculator_button` and `calculator_enterKey`: what each does to the
  calculator.
* `calculator_trigger` and `calculator_enterKey_of_shown`: without a message, and with one.
* `exclusive_follow`: a message is never shown as a result.
* `triggers_of_follow`: the three agree exactly where no message is lost.
-/

namespace PocketCalculator

namespace Calculator

variable {lib : Elementary} {c : Calculator}

theorem compute_nil (lib : Elementary) : compute lib [] = .error .emptyInput := rfl

/-- Where a message is thrown away, nothing is left to evaluate. -/
theorem equals_leaveMessage (hshown : c.showsMessage = true) :
    c.leaveMessage.equals lib =
      { c with
        entry := Error.emptyInput.message, preview := [], showsResult := false
        wantsFocus := true } := by
  have hleft : c.leaveMessage = { c with entry := [], showsMessage := false } := by
    simp [leaveMessage, hshown]
  rw [hleft, equals_of_error rfl (compute_nil lib)]
  show { c with
    entry := Error.emptyInput.message, preview := [], showsMessage := true, showsResult := false
    wantsFocus := true } = _
  rw [← hshown]

end Calculator

namespace Window

open Calculator

/-- The ways to ask for an evaluation. -/
inductive Trigger
  | sign
  | button
  | enterKey
deriving DecidableEq, Repr

/-- What a person does to ask for an evaluation. -/
def Trigger.gesture : Trigger → Gesture
  | sign => .keyboard [equalsEvent]
  | button => .click ['=']
  | enterKey => .keyboard [.key .enter]

variable {lib : Elementary} {w : Window}

/-! ## Each of the three -/

/-- The sign never reaches the field. -/
theorem calculator_sign :
    (w.gesture lib Trigger.sign.gesture).calculator =
      settled ((settled w.calculator).equals lib) := by
  have hreceived : (w.receive lib [equalsEvent] none).calculator = settled w.calculator := by
    obtain hsame | ⟨hsome, -⟩ := calculator_receive_cases lib [equalsEvent] none w
    · exact hsame
    · exact absurd rfl hsome
  have hevaluates : (w.receive lib [equalsEvent] none).Evaluates [equalsEvent] w :=
    .inl (List.mem_singleton_self _)
  rw [Trigger.gesture, calculator_keyboard, enter, if_pos hevaluates]
  show settled ((w.receive lib [equalsEvent] none).calculator.equals lib) = _
  rw [hreceived]

theorem calculator_button :
    (w.gesture lib Trigger.button.gesture).calculator =
      settled ((settled w.calculator).equals lib) := by
  have hequalsButton : (['='], Action.equals) ∈ actionButtons ++ typingButtons := by decide
  rw [Trigger.gesture, gesture_button hequalsButton, calculator_press]
  rfl

/-- `Enter` gives the keyboard away and changes no text. -/
theorem edit_enterKey (hfocused : w.focused = true) :
    w.edit [.key .enter] = (false, { w with focused := false, cursor := w.shownCursor }) := by
  obtain ⟨calculator, hasKeyboard, cursor, folded⟩ := w
  cases hasKeyboard with
  | true => rfl
  | false => cases hfocused

/-- `Enter` throws a message away, and evaluates then. -/
theorem calculator_enterKey (hfocused : w.focused = true) :
    (w.gesture lib Trigger.enterKey.gesture).calculator =
      settled ((settled w.calculator.leaveMessage).equals lib) := by
  let ready : Window := { w with calculator := w.calculator.leaveMessage }
  have hreceived : (w.receive lib [.key .enter] none).calculator =
      settled w.calculator.leaveMessage := by
    have hunchanged : (w.ready [.key .enter] none).edit (typed [.key .enter]) = (false, _) :=
      edit_enterKey (w := ready) hfocused
    rw [receive_of_unchanged hunchanged, grantFocus_eq]
    rfl
  have hevaluates : (w.receive lib [.key .enter] none).Evaluates [.key .enter] w :=
    .inr ⟨List.mem_singleton_self _, .inl hfocused⟩
  rw [Trigger.gesture, calculator_keyboard, enter, if_pos hevaluates]
  show settled ((w.receive lib [.key .enter] none).calculator.equals lib) = _
  rw [hreceived]

/-- Without a message and a wish for the keyboard the three do the same. -/
theorem calculator_trigger (hgranted : settled w.calculator = w.calculator)
    (hfocused : w.focused = true) (hnoMessage : w.calculator.showsMessage = false) (t : Trigger) :
    (w.gesture lib t.gesture).calculator = settled (w.calculator.equals lib) := by
  cases t with
  | sign => rw [calculator_sign, hgranted]
  | button => rw [calculator_button, hgranted]
  | enterKey =>
    rw [calculator_enterKey hfocused, leaveMessage_of_not_shown hnoMessage, hgranted]

/-- The sign and the button leave a message as it is. -/
theorem calculator_trigger_of_shown (hgranted : settled w.calculator = w.calculator)
    (hshown : w.calculator.showsMessage = true) {t : Trigger} (h : t ≠ .enterKey) :
    (w.gesture lib t.gesture).calculator = w.calculator := by
  cases t with
  | sign => rw [calculator_sign, hgranted, equals_of_shown hshown, hgranted]
  | button => rw [calculator_button, hgranted, equals_of_shown hshown, hgranted]
  | enterKey => exact absurd rfl h

/-- `Enter` replaces a message. -/
theorem calculator_enterKey_of_shown (hgranted : settled w.calculator = w.calculator)
    (hfocused : w.focused = true) (hshown : w.calculator.showsMessage = true)
    (hcurrent : Current lib w.calculator) (hnoResult : w.calculator.showsResult = false) :
    (w.gesture lib Trigger.enterKey.gesture).calculator =
      { w.calculator with entry := Error.emptyInput.message } := by
  have hleft : settled w.calculator.leaveMessage = (settled w.calculator).leaveMessage := by
    simp [settled, leaveMessage, hshown]
  rw [calculator_enterKey hfocused, hleft, hgranted, equals_leaveMessage hshown,
    ← hcurrent.hidden (.inl hshown), ← hnoResult]
  exact congrArg (fun c : Calculator => { c with entry := Error.emptyInput.message }) hgranted

/-! ## The states that a person sees -/

/-- A message is not shown as a result. -/
theorem exclusive_follow (lib : Elementary) (gestures : List Gesture)
    (hshown : ((opened lib).follow lib gestures).calculator.showsMessage = true) :
    ((opened lib).follow lib gestures).calculator.showsResult = false := by
  have hfaithful : ∃ log, ((opened lib).follow lib gestures).calculator.Faithful log := by
    refine follow_invariant (P := fun w => ∃ log, w.calculator.Faithful log) ?_ ?_ gestures
    · rintro w g events click hmade ⟨log, hfaithful⟩
      exact ⟨_, faithful_settle (faithful_frame hfaithful events click)⟩
    · exact ⟨[], faithful_settle Faithful.new⟩
  obtain ⟨log, hfaithful⟩ := hfaithful
  simpa [hshown] using hfaithful.exclusive

/-- Where the entry line has the keyboard and no message is shown, the sign, its button and
`Enter` do the same.  Where a message is shown, the sign and the button leave everything as it
is, but `Enter` puts another message in its place: that nothing was typed.  So the three agree
exactly where there is no message, or it is this one. -/
theorem triggers_of_follow (lib : Elementary) (gestures : List Gesture)
    (hfocused : ((opened lib).follow lib gestures).focused = true) :
    let w := (opened lib).follow lib gestures
    let after (t : Trigger) : Calculator := (w.gesture lib t.gesture).calculator
    (w.calculator.showsMessage = false →
      ∀ t, after t = { w.calculator.equals lib with wantsFocus := false }) ∧
    (w.calculator.showsMessage = true →
      after .sign = w.calculator ∧ after .button = w.calculator ∧
        after .enterKey = { w.calculator with entry := Error.emptyInput.message }) ∧
    ((∀ t t', after t = after t') ↔
      w.calculator.showsMessage = false ∨ w.calculator.entry = Error.emptyInput.message) := by
  intro w after
  have hgranted : settled w.calculator = w.calculator := settled_follow lib gestures
  have htogether (hnoMessage : w.calculator.showsMessage = false) (t : Trigger) :
      after t = settled (w.calculator.equals lib) :=
    calculator_trigger hgranted hfocused hnoMessage t
  have hkept (hshown : w.calculator.showsMessage = true) {t : Trigger} (h : t ≠ .enterKey) :
      after t = w.calculator :=
    calculator_trigger_of_shown hgranted hshown h
  have hreplaced (hshown : w.calculator.showsMessage = true) :
      after .enterKey = { w.calculator with entry := Error.emptyInput.message } :=
    calculator_enterKey_of_shown hgranted hfocused hshown (current_follow gestures)
      (exclusive_follow lib gestures hshown)
  refine ⟨htogether, fun hshown => ⟨hkept hshown nofun, hkept hshown nofun, hreplaced hshown⟩, ?_⟩
  cases hshown : w.calculator.showsMessage with
  | false => simp [htogether hshown]
  | true =>
    constructor
    · intro hagree
      have hsame : w.calculator = { w.calculator with entry := Error.emptyInput.message } :=
        calc w.calculator
          _ = after .sign := (hkept hshown (t := .sign) nofun).symm
          _ = after .enterKey := hagree .sign .enterKey
          _ = _ := hreplaced hshown
      exact .inr (congrArg Calculator.entry hsame)
    · intro h
      have hsame : w.calculator.entry = Error.emptyInput.message := h.resolve_left nofun
      have hall (t : Trigger) : after t = w.calculator := by
        cases t with
        | sign | button => exact hkept hshown nofun
        | enterKey => rw [hreplaced hshown, ← hsame]
      intro t t'
      rw [hall t, hall t']

/-- Where nothing was typed, each of the three says so. -/
theorem triggers_of_follow_nothing :
    let w := (opened Elementary.machine).follow Elementary.machine [.keyboard [equalsEvent]]
    w.focused = true ∧ w.calculator.showsMessage = true ∧
      ∀ t t' : Trigger, (w.gesture Elementary.machine t.gesture).calculator =
        (w.gesture Elementary.machine t'.gesture).calculator := by
  have hfocused : ((opened Elementary.machine).follow Elementary.machine
      [.keyboard [equalsEvent]]).focused = true := by decide +kernel
  have hsaid : ((opened Elementary.machine).follow Elementary.machine
      [.keyboard [equalsEvent]]).calculator.entry = Error.emptyInput.message := by decide +kernel
  refine ⟨hfocused, by decide +kernel, ?_⟩
  exact (triggers_of_follow Elementary.machine [.keyboard [equalsEvent]] hfocused).2.2.mpr
    (.inr hsaid)

/-- After a division by zero, `Enter` does not leave the message as it is. -/
theorem enterKey_loses_message :
    let w := (opened Elementary.machine).follow Elementary.machine
      [.keyboard [.text "1/0".toList], .keyboard [equalsEvent]]
    let after (t : Trigger) := (w.gesture Elementary.machine t.gesture).calculator
    w.focused = true ∧ w.calculator.showsMessage = true ∧
      w.calculator.entry = "Division par zéro impossible.".toList ∧
      after .sign = w.calculator ∧ after .button = w.calculator ∧
      (after .enterKey).entry = "Aucune entrée n’a été saisie.".toList := by
  intro w after
  refine ⟨?_, ?_, ?_, ?_, ?_, ?_⟩ <;> decide +kernel

end Window

end PocketCalculator
