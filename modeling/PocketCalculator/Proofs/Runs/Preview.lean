import PocketCalculator.Proofs.Runs.Gestures

/-!
# The preview

The preview is set by what edits the entry line and emptied by what evaluates it, but a
message and a result are thrown away without a look at the preview.  That it is never out
of date rests on one fact: while a message or a result is shown, the preview is empty
(`Calculator.Current`).

* `Calculator.Current.perform`: the actions of the buttons.
* `Window.current_receive`: the keyboard, in whichever direction it is.
* `Window.current_follow`: every state that a person sees.
* `Window.calculator_click_equals`: what is previewed is what the equals sign gives.
-/

namespace PocketCalculator

namespace Calculator

variable {lib : Elementary} {c : Calculator}

/-- The preview is that of the entry line, or it is empty. -/
structure Current (lib : Elementary) (c : Calculator) : Prop where
  /-- A preview is the result of what is in the entry line. -/
  value : c.preview = [] ∨
    ∃ v, compute lib c.entry = .ok v ∧ c.preview = "→ ".toList ++ Display.result v
  /-- A message and a result have no preview. -/
  hidden : c.showsMessage = true ∨ c.showsResult = true → c.preview = []

theorem Current.of_empty (h : c.preview = []) : Current lib c := ⟨.inl h, fun _ => h⟩

/-- The theme, the wish for the keyboard and the engine do not matter. -/
theorem Current.aside (h : Current lib c) (dark wantsFocus : Bool) (engine : Engine) :
    Current lib { c with dark, wantsFocus, engine } :=
  ⟨h.value, h.hidden⟩

/-- A preview that was just set is current, where neither a message nor a result is
shown. -/
theorem current_of_typing (htyping : c.mode = .typing)
    (hshown : c.preview = previewOf (compute lib c.entry)) : Current lib c := by
  obtain ⟨hnoMessage, hnoResult⟩ := mode_eq_typing_iff.mp htyping
  refine ⟨?_, by simp [hnoMessage, hnoResult]⟩
  cases hcomputed : compute lib c.entry with
  | error err => exact .inl (by rw [hshown, hcomputed, previewOf])
  | ok v => exact .inr ⟨v, rfl, by rw [hshown, hcomputed, previewOf]⟩

@[simp]
theorem preview_leaveMessage : c.leaveMessage.preview = c.preview := by
  unfold leaveMessage
  split <;> rfl

@[simp]
theorem preview_prepare (s : Text) : (c.prepare s).preview = c.preview := by
  simp only [prepare, leaveResult]
  split <;> exact preview_leaveMessage

/-- Nothing is thrown away where neither a message nor a result is shown. -/
theorem prepare_of_typing (htyping : c.mode = .typing) (s : Text) : c.prepare s = c := by
  obtain ⟨hnoMessage, hnoResult⟩ := mode_eq_typing_iff.mp htyping
  rw [prepare_of_kept hnoMessage (by simp [hnoResult]), leaveResult, ← hnoResult]

theorem mode_eq_typing_of_preview (h : Current lib c) (hshown : c.preview ≠ []) :
    c.mode = .typing := by
  refine mode_eq_typing_iff.mpr ⟨?_, ?_⟩ <;> rw [← Bool.not_eq_true] <;> intro hflag
  · exact hshown (h.hidden (.inl hflag))
  · exact hshown (h.hidden (.inr hflag))

/-- What is thrown away has no preview. -/
theorem Current.leaveMessage (h : Current lib c) : Current lib c.leaveMessage := by
  by_cases hshown : c.preview = []
  · exact .of_empty (preview_leaveMessage.trans hshown)
  · have htyping := mode_eq_typing_of_preview h hshown
    rwa [leaveMessage_of_not_shown (mode_eq_typing_iff.mp htyping).1]

theorem Current.prepare (h : Current lib c) (s : Text) : Current lib (c.prepare s) := by
  by_cases hshown : c.preview = []
  · exact .of_empty ((preview_prepare s).trans hshown)
  · rwa [prepare_of_typing (mode_eq_typing_of_preview h hshown)]

theorem Current.equals (h : Current lib c) : Current lib (c.equals lib) := by
  cases hshown : c.showsMessage with
  | true => simpa [Calculator.equals, hshown] using h
  | false =>
    refine .of_empty ?_
    cases hcomputed : compute lib c.entry with
    | error err => rw [equals_of_error hshown hcomputed]
    | ok v => rw [equals_of_ok hshown hcomputed]

/-- The buttons set the preview, empty it, or leave the entry line alone. -/
theorem Current.perform (h : Current lib c) {a : Action} (ha : a.isOnKeypad = true) :
    Current lib (c.perform lib a) := by
  cases a with
  | insert s | deleteLast | memoryRecall => exact current_of_typing (mode_perform trivial) rfl
  | clearEntry => exact .of_empty rfl
  | equals => exact h.equals
  | memoryAdd | memorySubtract | memoryClear => exact h.aside _ _ _
  | prepare s | refresh | leaveMessage | reuse line => cases ha

end Calculator

namespace Window

open Calculator

variable {lib : Elementary} {w : Window}

theorem current_ready (h : Current lib w.calculator) (events : List Event)
    (click : Option Widget) : Current lib (w.ready events click).calculator :=
  ready_induction h (fun _ _ => .of_empty rfl) (fun _ h => h.leaveMessage)
    (fun _ s h => h.prepare s) events click

/-- The field may change the entry line of a message or a result, but then it changes it
to what is being typed. -/
theorem current_receive (h : Current lib w.calculator) (events : List Event)
    (click : Option Widget) : Current lib (w.receive lib events click).calculator := by
  obtain hsame | ⟨hsome, text, hedited⟩ := calculator_receive_cases lib events click w
  · rw [hsame]
    exact (current_ready h events click).aside _ _ _
  · rw [hedited]
    exact current_of_typing (mode_eq_typing_iff.mpr ⟨showsMessage_ready hsome click, rfl⟩) rfl

theorem current_act (h : Current lib w.calculator) {click : Option Widget}
    (hoffered : ∀ action, click = some (.button action) → action.isOnKeypad = true) :
    Current lib (w.act lib click).1.calculator := by
  cases click with
  | none => exact h
  | some widget =>
    cases widget with
    | button action => exact h.perform (hoffered action rfl)
    | historyLine line => exact current_of_typing (mode_perform (a := .reuse line) trivial) rfl
    | theme => exact h.aside _ _ _
    | copy =>
      simp only [act]
      split
      · exact h
      · exact h.aside _ _ _
    | caption | entry | historyHeader => exact h

theorem current_step (h : Current lib w.calculator) (events : List Event) {click : Option Widget}
    (hoffered : ∀ action, click = some (.button action) → action.isOnKeypad = true) :
    Current lib (w.step lib events click).1.calculator := by
  have hreceived : Current lib (w.receive lib events click).calculator :=
    current_receive h events click
  have hentered : Current lib ((w.receive lib events click).enter lib events w).calculator := by
    unfold enter
    split
    · exact hreceived.equals
    · exact hreceived
  show Current lib (settle lib _).calculator
  rw [settle_eq]
  exact (current_act hentered hoffered).aside _ _ _

theorem current_opened : Current lib (opened lib).calculator := by
  unfold opened
  rw [settle_eq]
  exact .of_empty rfl

/-- No state that a person sees has a stale preview. -/
theorem current_follow (gestures : List Gesture) :
    Current lib ((opened lib).follow lib gestures).calculator := by
  refine follow_invariant (P := fun w => Current lib w.calculator) ?_ current_opened gestures
  intro w g events click hmade h
  refine current_step h events ?_
  rintro action rfl
  exact isOnKeypad_of_stepOf? hmade

/-! ## The equals sign -/

/-- A click on the equals sign gives what is computed. -/
theorem calculator_click_equals {v : Float} (hnoMessage : w.calculator.showsMessage = false)
    (hcomputed : compute lib w.calculator.entry = .ok v) :
    (w.gesture lib (.click ['='])).calculator =
      { w.calculator with
        entry := Display.result v, preview := [], showsResult := true, wantsFocus := false
        engine := (w.calculator.engine.evaluate lib w.calculator.entry).2 } := by
  have hequalsButton : (['='], Action.equals) ∈ actionButtons ++ typingButtons := by decide
  rw [gesture_button hequalsButton, calculator_press]
  show { Calculator.equals lib { w.calculator with wantsFocus := false } with
    wantsFocus := false } = _
  rw [equals_of_ok (c := { w.calculator with wantsFocus := false }) hnoMessage hcomputed]

/-- In no state that a person sees is the preview stale: it is empty, or it is the result of
what is in the entry line; it is empty beside a message and beside a result; and the
equals sign gives what it shows. -/
theorem preview_of_follow (lib : Elementary) (gestures : List Gesture) :
    let w := (opened lib).follow lib gestures
    (w.calculator.preview = [] ∨ ∃ v, compute lib w.calculator.entry = .ok v ∧
      w.calculator.preview = "→ ".toList ++ Display.result v) ∧
    (w.calculator.showsMessage = true ∨ w.calculator.showsResult = true →
      w.calculator.preview = []) ∧
    ∀ r, w.calculator.preview = "→ ".toList ++ r →
      let next := w.gesture lib (.click ['='])
      next.calculator.mode = .result ∧ next.calculator.entry = r ∧
        next.calculator.engine.lines = (w.calculator.entry ++ equalsSign ++ r) ::
          w.calculator.engine.lines.take (historyLimit - 1) := by
  intro w
  have hcurrent : Current lib w.calculator := current_follow gestures
  refine ⟨hcurrent.value, hcurrent.hidden, ?_⟩
  intro r hshown next
  have hsomeShown : w.calculator.preview ≠ [] := by simp [hshown]
  obtain ⟨hnoMessage, -⟩ := mode_eq_typing_iff.mp (mode_eq_typing_of_preview hcurrent hsomeShown)
  obtain ⟨v, hcomputed, hpreview⟩ := hcurrent.value.resolve_left hsomeShown
  have hr : r = Display.result v := List.append_cancel_left (hshown.symm.trans hpreview)
  have hafter := calculator_click_equals hnoMessage hcomputed
  rw [show next = w.gesture lib (.click ['=']) from rfl, hafter, hr]
  refine ⟨?_, rfl, Engine.lines_evaluate_of_ok hcomputed⟩
  simp [Calculator.mode, hnoMessage]

theorem preview_of_follow_product :
    let w := (opened Elementary.machine).follow Elementary.machine [.keyboard [.text "6*7".toList]]
    w.calculator.entry = "6*7".toList ∧ w.calculator.preview = "→ ".toList ++ "42".toList ∧
      let next := w.gesture Elementary.machine (.click ['='])
      next.calculator.mode = .result ∧ next.calculator.entry = "42".toList ∧
        next.calculator.engine.lines = (w.calculator.entry ++ equalsSign ++ "42".toList) ::
          w.calculator.engine.lines.take (historyLimit - 1) := by
  have htyped : ((opened Elementary.machine).follow Elementary.machine
      [.keyboard [.text "6*7".toList]]).calculator.entry = "6*7".toList := by decide +kernel
  have hshown : ((opened Elementary.machine).follow Elementary.machine
      [.keyboard [.text "6*7".toList]]).calculator.preview = "→ ".toList ++ "42".toList := by
    decide +kernel
  have hpressed := (preview_of_follow Elementary.machine
    [.keyboard [.text "6*7".toList]]).2.2 "42".toList hshown
  exact ⟨htyped, hshown, hpressed⟩

end Window

end PocketCalculator
