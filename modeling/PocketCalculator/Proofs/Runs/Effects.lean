import PocketCalculator.Proofs.Runs.Gestures

/-!
# What a gesture touches

The engine and the theme lie behind the entry line: what is typed passes through many hands
before one of them evaluates, and no other may touch the history or the register.

* `keeps_receive`: whatever happens before an evaluation keeps the engine and the theme.
* `gesture_cases`: a gesture makes no evaluation and leaves the history, or it makes one, of
  the entry line as it was edited.
* `memory_gesture` and `dark_gesture`: the register and the theme change only by their buttons.
* `effects_of_gesture` puts these together with what an evaluation leaves.
-/

namespace PocketCalculator

namespace Window

open Calculator

variable {lib : Elementary} {w : Window}

/-! ## The keyboard -/

theorem keeps_ready (events : List Event) (click : Option Widget) (w : Window) :
    w.calculator.Keeps (w.ready events click).calculator :=
  ready_induction (.refl _) (fun _ h => h.trans ⟨rfl, rfl⟩)
    (fun c h => h.trans (keeps_leaveMessage c)) (fun c s h => h.trans (keeps_prepare s c))
    events click

/-- Whatever is typed, before an evaluation nothing is touched but the entry line. -/
theorem keeps_receive (lib : Elementary) (events : List Event) (click : Option Widget)
    (w : Window) : w.calculator.Keeps (w.receive lib events click).calculator := by
  have hreadied : w.calculator.Keeps (w.ready events click).calculator :=
    keeps_ready events click w
  obtain hsame | ⟨-, text, hedited⟩ := calculator_receive_cases lib events click w
  · rw [hsame]
    exact hreadied.trans ⟨rfl, rfl⟩
  · rw [hedited]
    exact hreadied.trans ⟨rfl, rfl⟩

/-! ## The other parts of a step -/

theorem memory_enter {before : Window} (events : List Event) :
    (w.enter lib events before).calculator.engine.memory = w.calculator.engine.memory := by
  unfold enter
  split
  · exact memory_perform (a := .equals) rfl
  · rfl

theorem dark_enter {before : Window} (events : List Event) :
    (w.enter lib events before).calculator.dark = w.calculator.dark := by
  unfold enter
  split
  · exact dark_perform .equals
  · rfl

/-- What is clicked touches the engine only if it is a button. -/
theorem engine_act {click : Option Widget} (h : ∀ action, click ≠ some (.button action)) :
    (w.act lib click).1.calculator.engine = w.calculator.engine := by
  cases click with
  | none => rfl
  | some widget =>
    cases widget with
    | button action => exact absurd rfl (h action)
    | copy =>
      simp only [act]
      split <;> rfl
    | caption | entry | theme | historyHeader | historyLine => rfl

theorem memory_act {click : Option Widget}
    (h : ∀ action, click = some (.button action) → action.movesMemory = false) :
    (w.act lib click).1.calculator.engine.memory = w.calculator.engine.memory := by
  by_cases hbutton : ∃ action, click = some (.button action)
  · obtain ⟨action, rfl⟩ := hbutton
    exact memory_perform (h action rfl)
  · exact congrArg Engine.memory (engine_act fun action hsame => hbutton ⟨action, hsame⟩)

/-- What is clicked touches the theme only if it is the theme box. -/
theorem dark_act {click : Option Widget} (h : click ≠ some .theme) :
    (w.act lib click).1.calculator.dark = w.calculator.dark := by
  cases click with
  | none => rfl
  | some widget =>
    cases widget with
    | button action => exact dark_perform action
    | theme => exact absurd rfl h
    | copy =>
      simp only [act]
      split <;> rfl
    | caption | entry | historyHeader | historyLine => rfl

/-- One step leaves the register, unless one of its buttons is clicked. -/
theorem memory_step {events : List Event} {click : Option Widget}
    (h : ∀ action, click = some (.button action) → action.movesMemory = false) :
    (w.step lib events click).1.calculator.engine.memory = w.calculator.engine.memory := by
  let received := w.receive lib events click
  let entered := received.enter lib events w
  calc (w.step lib events click).1.calculator.engine.memory
    _ = (entered.act lib click).1.calculator.engine.memory := by rw [calculator_step]; rfl
    _ = entered.calculator.engine.memory := memory_act h
    _ = received.calculator.engine.memory := memory_enter events
    _ = w.calculator.engine.memory :=
      congrArg Engine.memory (keeps_receive lib events click w).engine

/-- One step leaves the theme, unless the theme box is clicked. -/
theorem dark_step {events : List Event} {click : Option Widget} (h : click ≠ some .theme) :
    (w.step lib events click).1.calculator.dark = w.calculator.dark := by
  let received := w.receive lib events click
  let entered := received.enter lib events w
  calc (w.step lib events click).1.calculator.dark
    _ = (entered.act lib click).1.calculator.dark := by rw [calculator_step]; rfl
    _ = entered.calculator.dark := dark_act h
    _ = received.calculator.dark := dark_enter events
    _ = w.calculator.dark := (keeps_receive lib events click w).dark

/-! ## The labels -/

/-- The theme box has one label, which it may share with what is typed. -/
theorem label_of_theme {label : Text} (h : w.widgetAt? label = some .theme) :
    label = "Sombre".toList := by
  have hdrawn : (label, .theme) ∈ w.drawn := mem_drawn_of_widgetAt? h
  simp only [drawn] at hdrawn
  split at hdrawn <;> simpa [buttons] using hdrawn

/-- The buttons of the register have three labels. -/
theorem label_of_movesMemory {label : Text} {action : Action}
    (h : w.widgetAt? label = some (.button action)) (hmoves : action.movesMemory = true) :
    label ∈ ["M+".toList, "M−".toList, "MC".toList] := by
  have hall : ∀ button ∈ actionButtons ++ typingButtons, button.2.movesMemory = true →
      button.1 ∈ ["M+".toList, "M−".toList, "MC".toList] := by
    decide
  exact hall _ (mem_of_widgetAt? h) hmoves

/-- The gestures that may change the register. -/
def memoryClicks : List Gesture :=
  [.click "M+".toList, .click "M−".toList, .click "MC".toList]

theorem memory_gesture (lib : Elementary) (w : Window) {g : Gesture} (h : g ∉ memoryClicks) :
    (w.gesture lib g).calculator.engine.memory = w.calculator.engine.memory := by
  refine gesture_induction (P := fun w' => w'.calculator.engine.memory = _) rfl ?_
  intro events click hmade
  apply memory_step
  rintro action rfl
  rw [← Bool.not_eq_true]
  intro hmoves
  obtain ⟨label, rfl, hfound⟩ | ⟨line, hsame⟩ := click_of_stepOf? hmade
  · have hlabels := label_of_movesMemory hfound hmoves
    apply h
    simpa [memoryClicks] using hlabels
  · cases hsame

theorem dark_gesture (lib : Elementary) (w : Window) {g : Gesture}
    (h : g ≠ .click "Sombre".toList) :
    (w.gesture lib g).calculator.dark = w.calculator.dark := by
  refine gesture_induction (P := fun w' => w'.calculator.dark = _) rfl ?_
  intro events click hmade
  apply dark_step
  rintro rfl
  obtain ⟨label, rfl, hfound⟩ | ⟨line, hsame⟩ := click_of_stepOf? hmade
  · exact h (congrArg Gesture.click (label_of_theme hfound))
  · cases hsame

/-! ## One evaluation, or none -/

/-- The evaluations that a gesture makes, the latest first. -/
def evaluationsBy (lib : Elementary) (w : Window) (g : Gesture) : List Evaluation :=
  match w.stepOf? g with
  | some (events, click) => w.evaluations lib events click
  | none => []

/-- The text in the entry line when the field is done with the events of a gesture. -/
def editedBy (w : Window) (g : Gesture) : Text :=
  match w.stepOf? g with
  | some (events, click) => ((w.ready events click).edit (typed events)).2.calculator.entry
  | none => w.calculator.entry

theorem evaluationsBy_of_stepOf? {g : Gesture} {events : List Event} {click : Option Widget}
    (hmade : w.stepOf? g = some (events, click)) :
    w.evaluationsBy lib g = w.evaluations lib events click := by
  rw [evaluationsBy, hmade]

theorem editedBy_of_stepOf? {g : Gesture} {events : List Event} {click : Option Widget}
    (lib : Elementary) (hmade : w.stepOf? g = some (events, click)) :
    w.editedBy g = (w.receive lib events click).calculator.entry := by
  rw [editedBy, hmade]
  exact (entry_receive lib events click w).1.symm

/-- A gesture makes no evaluation and leaves the history. -/
def Spares (lib : Elementary) (w : Window) (g : Gesture) : Prop :=
  w.evaluationsBy lib g = [] ∧
    (w.gesture lib g).calculator.engine.history = w.calculator.engine.history

/-- A gesture makes one evaluation, of the calculator with the edited entry line, and nothing
after it. -/
structure EvaluatesOnce (lib : Elementary) (w : Window) (g : Gesture) (c : Calculator) : Prop where
  keeps : w.calculator.Keeps c
  noMessage : c.showsMessage = false
  edited : c.entry = w.editedBy g
  evaluations : w.evaluationsBy lib g = [⟨c.entry, compute lib c.entry⟩]
  result : (w.gesture lib g).calculator = settled (c.equals lib)

/-- A gesture that ends with the equals sign, which leaves a shown message alone. -/
theorem cases_of_equals {g : Gesture} {c : Calculator} (hkeeps : w.calculator.Keeps c)
    (hedited : c.entry = w.editedBy g)
    (hevaluations : w.evaluationsBy lib g = (c.evaluation? lib).toList)
    (hresult : (w.gesture lib g).calculator = settled (c.equals lib)) :
    w.Spares lib g ∨ w.EvaluatesOnce lib g c := by
  cases hshown : c.showsMessage with
  | true =>
    left
    refine ⟨by simp [hevaluations, evaluation?, hshown], ?_⟩
    rw [hresult, equals_of_shown hshown]
    exact congrArg Engine.history hkeeps.engine
  | false =>
    right
    rw [evaluation?_of_not_shown hshown, Option.toList_some] at hevaluations
    exact ⟨hkeeps, hshown, hedited, hevaluations, hresult⟩

/-- The typed equals sign and `Enter` are one question, and it is asked once. -/
theorem gesture_cases_keyboard (lib : Elementary) (w : Window) (events : List Event) :
    w.Spares lib (.keyboard events) ∨
      w.EvaluatesOnce lib (.keyboard events) (w.receive lib events none).calculator := by
  have hkeeps : w.calculator.Keeps (w.receive lib events none).calculator :=
    keeps_receive lib events none w
  have hmade : w.evaluationsBy lib (.keyboard events) =
      (if (w.receive lib events none).Evaluates events w then
        (w.receive lib events none).calculator.evaluation? lib else none).toList := rfl
  by_cases hasked : (w.receive lib events none).Evaluates events w
  · apply cases_of_equals hkeeps (editedBy_of_stepOf? lib rfl).symm
    · rw [hmade, if_pos hasked]
    · rw [calculator_keyboard, enter, if_pos hasked]
  · left
    rw [if_neg hasked] at hmade
    refine ⟨hmade, ?_⟩
    rw [calculator_keyboard, enter, if_neg hasked]
    exact congrArg Engine.history hkeeps.engine

/-- A click evaluates only as its widget acts. -/
theorem evaluations_click (widget : Widget) :
    w.evaluations lib [] (some widget) =
      ((w.receive lib [] (some widget)).clickEvaluation? lib (some widget)).toList := by
  have hnotAsked : ¬(w.receive lib [] (some widget)).Evaluates [] w := by simp [Evaluates]
  rw [evaluations, if_neg hnotAsked, enter, if_neg hnotAsked, Option.toList_none, List.append_nil]

theorem gesture_cases_button (lib : Elementary) {g : Gesture} {action : Action}
    (hmade : w.stepOf? g = some ([], some (.button action))) :
    w.Spares lib g ∨ w.EvaluatesOnce lib g (settled w.calculator) := by
  have hresult : (w.gesture lib g).calculator =
      settled ((settled w.calculator).perform lib action) := by
    rw [gesture_of_stepOf? hmade, calculator_press]
  have hevaluations : w.evaluationsBy lib g =
      (action.evaluation? lib (settled w.calculator)).toList := by
    rw [evaluationsBy_of_stepOf? hmade, evaluations_click, clickEvaluation?,
      calculator_receive_click]
  by_cases hsign : action = .equals
  · subst hsign
    have hedited : (settled w.calculator).entry = w.editedBy g := by
      rw [editedBy_of_stepOf? lib hmade, calculator_receive_click]
    exact cases_of_equals ⟨rfl, rfl⟩ hedited hevaluations hresult
  · left
    have hnone : action.evaluation? lib (settled w.calculator) = none := by
      cases action with
      | equals => exact absurd rfl hsign
      | _ => rfl
    rw [hnone] at hevaluations
    refine ⟨hevaluations, ?_⟩
    rw [hresult]
    exact Calculator.history_perform hsign

theorem gesture_cases_click (lib : Elementary) {g : Gesture} {widget : Widget}
    (hmade : w.stepOf? g = some ([], some widget)) :
    w.Spares lib g ∨ w.EvaluatesOnce lib g (settled w.calculator) := by
  by_cases hbutton : ∃ action, widget = .button action
  · obtain ⟨action, rfl⟩ := hbutton
    exact gesture_cases_button lib hmade
  · left
    have hnoButton : ∀ action, some widget ≠ some (.button action) :=
      fun action h => hbutton ⟨action, Option.some.inj h⟩
    refine ⟨?_, ?_⟩
    · rw [evaluationsBy_of_stepOf? hmade, evaluations_click]
      cases widget with
      | button action => exact absurd rfl (hnoButton action)
      | _ => rfl
    · have hnotAsked : ¬(w.receive lib [] (some widget)).Evaluates [] w := by simp [Evaluates]
      rw [gesture_of_stepOf? hmade, calculator_step, enter, if_neg hnotAsked]
      apply congrArg Engine.history
      exact (engine_act hnoButton).trans (keeps_receive lib [] (some widget) w).engine

/-- A gesture makes no evaluation, or one at its end. -/
theorem gesture_cases (lib : Elementary) (w : Window) (g : Gesture) :
    w.Spares lib g ∨ ∃ c, w.EvaluatesOnce lib g c := by
  cases hmade : w.stepOf? g with
  | none => exact .inl (by simp [Spares, evaluationsBy, gesture, hmade])
  | some step =>
    obtain ⟨events, click⟩ := step
    obtain ⟨rfl, rfl⟩ | ⟨label, widget, rfl, -, rfl, rfl⟩ | ⟨place, line, rfl, rfl, rfl⟩ :=
      stepOf?_cases hmade
    · exact (gesture_cases_keyboard lib w events).imp_right fun h => ⟨_, h⟩
    · exact (gesture_cases_click lib hmade).imp_right fun h => ⟨_, h⟩
    · exact (gesture_cases_click lib hmade).imp_right fun h => ⟨_, h⟩

/-- An evaluation that fails shows its message, and leaves the engine. -/
theorem EvaluatesOnce.of_error {g : Gesture} {c : Calculator} {err : Error}
    (honce : w.EvaluatesOnce lib g c) (hcomputed : compute lib c.entry = .error err) :
    let after := (w.gesture lib g).calculator
    w.evaluationsBy lib g = [⟨w.editedBy g, .error err⟩] ∧ after.mode = .message ∧
      after.entry = err.message ∧ after.engine = w.calculator.engine := by
  have huntouched : (c.engine.evaluate lib c.entry).2 = c.engine := by
    simp [Engine.evaluate, hcomputed]
  intro after
  have hresult : after = _ := honce.result
  rw [equals_of_error honce.noMessage hcomputed, huntouched] at hresult
  rw [hresult, honce.evaluations, ← honce.edited, hcomputed]
  exact ⟨rfl, rfl, rfl, honce.keeps.engine⟩

/-- An evaluation that succeeds shows its result, and adds the line of the calculation. -/
theorem EvaluatesOnce.of_ok {g : Gesture} {c : Calculator} {v : Float}
    (honce : w.EvaluatesOnce lib g c) (hcomputed : compute lib c.entry = .ok v) :
    let after := (w.gesture lib g).calculator
    w.evaluationsBy lib g = [⟨w.editedBy g, .ok v⟩] ∧ after.mode = .result ∧
      after.engine.lines = ((w.editedBy g ++ equalsSign ++ after.entry) ::
        w.calculator.engine.lines).take historyLimit ∧
      after.engine.memory = w.calculator.engine.memory := by
  intro after
  have hresult : after = _ := honce.result
  rw [equals_of_ok honce.noMessage hcomputed] at hresult
  rw [hresult, honce.evaluations, ← honce.edited, hcomputed, ← honce.keeps.engine]
  refine ⟨rfl, by simp [settled, mode, honce.noMessage], ?_, Engine.memory_evaluate⟩
  exact Engine.lines_evaluate_of_ok hcomputed

/-- A gesture touches only what it should.  It makes no evaluation and leaves the history; or
one that fails, and leaves the engine; or one that succeeds, and puts one line in front of the
history: what was in the entry line when the keyboard was done with it, and the result, which is
in the entry line now.  The register changes only by its three buttons, and the theme by its
box. -/
theorem effects_of_gesture (lib : Elementary) (w : Window) (g : Gesture) :
    let before := w.calculator
    let after := (w.gesture lib g).calculator
    let text := w.editedBy g
    (w.evaluationsBy lib g = [] ∧ after.engine.lines = before.engine.lines ∨
      (∃ err, w.evaluationsBy lib g = [⟨text, .error err⟩] ∧ after.mode = .message ∧
        after.entry = err.message ∧ after.engine = before.engine) ∨
      ∃ v, w.evaluationsBy lib g = [⟨text, .ok v⟩] ∧ after.mode = .result ∧
        after.engine.lines =
          ((text ++ equalsSign ++ after.entry) :: before.engine.lines).take 10 ∧
        after.engine.memory = before.engine.memory) ∧
    (after.engine.memory = before.engine.memory ∨
      g ∈ [.click "M+".toList, .click "M−".toList, .click "MC".toList]) ∧
    (after.dark = before.dark ∨ g = .click "Sombre".toList) := by
  intro before after text
  refine ⟨?_, ?_, ?_⟩
  · obtain ⟨hnone, hkept⟩ | ⟨c, honce⟩ := gesture_cases lib w g
    · exact .inl ⟨hnone, congrArg (List.map Calculation.line) hkept⟩
    · right
      cases hcomputed : compute lib c.entry with
      | error err => exact .inl ⟨err, honce.of_error hcomputed⟩
      | ok v => exact .inr ⟨v, honce.of_ok hcomputed⟩
  · by_cases h : g ∈ memoryClicks
    · exact .inr h
    · exact .inl (memory_gesture lib w h)
  · by_cases h : g = .click "Sombre".toList
    · exact .inr h
    · exact .inl (dark_gesture lib w h)

/-- An equals sign and `Enter` in one frame make one evaluation. -/
example :
    let w := Window.gesture Elementary.machine (Window.opened Elementary.machine)
      (.keyboard [.text "6*7".toList, .text ['='], .key .enter])
    w.calculator.engine.lines = ["6*7 = 42".toList] := by
  decide +kernel

end Window

end PocketCalculator
