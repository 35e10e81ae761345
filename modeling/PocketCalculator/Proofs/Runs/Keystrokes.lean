import PocketCalculator.Proofs.Runs.Cursor
import PocketCalculator.Proofs.Runs.Triggers

/-!
# The keyboard beside the keypad

A button edits the entry line in one action.  A keystroke does so in three parts: the
calculator is prepared, the field edits the text, and then the preview follows.  Only the
second part asks where the keyboard is directed.

* `calculator_keystroke`: a key that changes the text at its end.
* `calculator_typed`, `calculator_backspace` and `calculator_escape`: the keys that have a
  button, and `keystrokes_of_follow`, which compares them with it.
* `calculator_unheard`: without the keyboard, the first part is all that happens.
* `unheard_of_follow`: so a message is thrown away, and nothing is put into the entry line.
-/

namespace PocketCalculator

namespace Field

/-- A field whose cursor is behind its text. -/
def atEnd (text : Text) : Field := { text, cursor := text.length }

theorem text_insert_atEnd (text s : Text) : ((atEnd text).insert s).text = text ++ s := by
  simp [insert, atEnd]

/-- The key `Backspace` removes the last character, and counts as a change even if there is
none. -/
theorem backspace_atEnd (text : Text) :
    ((atEnd text).press .backspace).changed = true ∧
      ((atEnd text).press .backspace).text = text.dropLast := by
  simp only [press]
  split
  case isTrue hnone =>
    have hempty : text = [] := List.length_eq_zero_iff.mp hnone
    rw [hempty]
    exact ⟨rfl, rfl⟩
  case isFalse hsome =>
    have hlast : text.length - 1 + 1 = text.length := Nat.succ_pred hsome
    refine ⟨rfl, ?_⟩
    show text.eraseIdx (text.length - 1) = text.dropLast
    rw [List.eraseIdx_eq_take_drop_succ, hlast, List.drop_length, List.append_nil,
      List.dropLast_eq_take]

end Field

namespace Window

open Calculator

variable {lib : Elementary} {w : Window} {events : List Event}

/-! ## What the calculator is prepared for -/

theorem focused_prepare : (w.prepare events).focused = w.focused := by
  unfold prepare
  split
  · rfl
  · split <;> rfl

/-! ## One keystroke at the end of the entry line -/

/-- The field handles an event at the end of the entry line. -/
theorem edit_atEnd (hfocused : w.focused = true) (htrails : w.Trails) (e : Event) :
    w.edit [e] =
      let field := (Field.atEnd w.calculator.entry).handle e
      (field.changed,
        { w with
          calculator := { w.calculator with entry := field.text }
          focused := field.focused
          cursor := field.cursor }) := by
  have hstart : min w.cursor w.calculator.entry.length = w.calculator.entry.length :=
    Nat.min_eq_right htrails
  rw [edit, if_pos hfocused, hstart]
  rfl

/-- A keystroke that changes the text at the end of the entry line. -/
theorem calculator_keystroke {e : Event} {field : Field}
    (hplain : e ∉ [equalsEvent, .key .escape, .key .enter]) (hfocused : w.focused = true)
    (htrails : w.Trails)
    (hhandled : (Field.atEnd (w.prepare [e]).calculator.entry).handle e = field)
    (hchanged : field.changed = true) :
    (w.gesture lib (.keyboard [e])).calculator =
      settled
        (Calculator.refresh lib
          { (w.prepare [e]).calculator with entry := field.text, showsResult := false }) := by
  simp only [List.mem_cons, List.not_mem_nil, or_false, not_or] at hplain
  obtain ⟨hnotSign, hnotEscape, hnotEnter⟩ := hplain
  have hnoSign : equalsEvent ∉ [e] := by simpa using Ne.symm hnotSign
  have hnoEscape : Event.key .escape ∉ [e] := by simpa using Ne.symm hnotEscape
  obtain ⟨hall, hreadied⟩ := ready_of_plain (w := w) hnoSign hnoEscape
  -- What is thrown away only makes the text shorter, so the cursor is still behind it.
  have hbehind : (w.ready [e] none).Trails := trails_ready htrails [e] none
  have hedited : (w.ready [e] none).edit (typed [e]) = (true,
      { w.prepare [e] with
        calculator := { (w.prepare [e]).calculator with entry := field.text }
        focused := field.focused
        cursor := field.cursor }) := by
    rw [hreadied] at hbehind ⊢
    rw [hall, edit_atEnd (focused_prepare.trans hfocused) hbehind, hhandled]
    exact Prod.ext hchanged rfl
  have hnotEvaluated : ¬(w.receive lib [e] none).Evaluates [e] w := by
    rintro (hsign | ⟨henter, -⟩)
    · exact hnoSign hsign
    · exact hnotEnter (List.mem_singleton.mp henter).symm
  rw [calculator_keyboard, enter, if_neg hnotEvaluated, receive_of_changed hedited, grantFocus_eq]
  rfl

/-- A text that is typed at the end of the entry line is inserted. -/
theorem calculator_typed {s : Text} (hinserts : Inserts s) (hfocused : w.focused = true)
    (htrails : w.Trails) :
    (w.gesture lib (.keyboard [.text s])).calculator = settled (w.calculator.insert lib s) := by
  have hplain : Event.text s ∉ [equalsEvent, .key .escape, .key .enter] := by
    simp [text_ne_equalsEvent hinserts]
  rw [calculator_keystroke hplain hfocused htrails (handle_text hinserts _) rfl,
    Field.text_insert_atEnd]
  rfl

/-- `Backspace` at the end of the entry line takes the last character away. -/
theorem calculator_backspace (hfocused : w.focused = true) (htrails : w.Trails) :
    (w.gesture lib (.keyboard [.key .backspace])).calculator =
      settled (w.calculator.deleteLast lib) := by
  obtain ⟨hchanged, htext⟩ := Field.backspace_atEnd w.calculator.leaveMessage.entry
  have hplain : Event.key .backspace ∉ [equalsEvent, .key .escape, .key .enter] := by decide
  rw [calculator_keystroke hplain hfocused htrails rfl hchanged]
  show settled (Calculator.refresh lib { w.calculator.leaveMessage with
    entry := ((Field.atEnd w.calculator.leaveMessage.entry).press .backspace).text
    showsResult := false }) = _
  rw [htext]
  rfl

/-- `Escape` clears the entry line, wherever the cursor is. -/
theorem calculator_escape :
    (w.gesture lib (.keyboard [.key .escape])).calculator = settled w.calculator.clearEntry := by
  have hunchanged : (w.ready [.key .escape] none).edit (typed [.key .escape]) =
      (false, { w with focused := false, calculator := w.calculator.clearEntry }) := rfl
  have hnotEvaluated : ¬(w.receive lib [.key .escape] none).Evaluates [.key .escape] w := by
    simp [Evaluates, equalsEvent]
  rw [calculator_keyboard, enter, if_neg hnotEvaluated, receive_of_unchanged hunchanged,
    grantFocus_eq]
  rfl

/-- A click on a button, where no wish for the keyboard is open. -/
theorem calculator_button_of_granted (hgranted : settled w.calculator = w.calculator) {label : Text}
    {action : Action} (h : (label, action) ∈ actionButtons ++ typingButtons) :
    (w.gesture lib (.click label)).calculator = settled (w.calculator.perform lib action) := by
  rw [gesture_button h, calculator_press, hgranted]

/-- Where the entry line has the keyboard and the cursor is at its end, a keystroke does what
the keypad does: a typed text is inserted, as by a button that types it, `Backspace` is the
button `DEL`, and `Escape` the button `C`. -/
theorem keystrokes_of_follow (lib : Elementary) (gestures : List Gesture)
    (hfocused : ((opened lib).follow lib gestures).focused = true)
    (hatEnd : ((opened lib).follow lib gestures).AtEnd) :
    let w := (opened lib).follow lib gestures
    let after (g : Gesture) : Calculator := (w.gesture lib g).calculator
    (∀ s, Inserts s →
      after (.keyboard [.text s]) = { w.calculator.insert lib s with wantsFocus := false } ∧
        ∀ label, (label, .insert s) ∈ actionButtons ++ typingButtons →
          after (.keyboard [.text s]) = after (.click label)) ∧
    (after (.keyboard [.key .backspace]) =
        { w.calculator.deleteLast lib with wantsFocus := false } ∧
      after (.keyboard [.key .backspace]) = after (.click "DEL".toList)) ∧
    (after (.keyboard [.key .escape]) = { w.calculator.clearEntry with wantsFocus := false } ∧
      after (.keyboard [.key .escape]) = after (.click ['C'])) := by
  intro w after
  have hgranted : settled w.calculator = w.calculator := settled_follow lib gestures
  have htrails : w.Trails := Nat.le_of_eq (hatEnd hfocused).symm
  have hclicked {label : Text} {action : Action}
      (h : (label, action) ∈ actionButtons ++ typingButtons) :
      after (.click label) = settled (w.calculator.perform lib action) :=
    calculator_button_of_granted hgranted h
  have hdelete : ("DEL".toList, Action.deleteLast) ∈ actionButtons ++ typingButtons := by decide
  have hclear : (['C'], Action.clearEntry) ∈ actionButtons ++ typingButtons := by decide
  refine ⟨?_, ?_, ?_⟩
  · intro s hinserts
    have htyped : after (.keyboard [.text s]) = settled (w.calculator.insert lib s) :=
      calculator_typed hinserts hfocused htrails
    exact ⟨htyped, fun label h => htyped.trans (hclicked h).symm⟩
  · have hpressed : after (.keyboard [.key .backspace]) = settled (w.calculator.deleteLast lib) :=
      calculator_backspace hfocused htrails
    exact ⟨hpressed, hpressed.trans (hclicked hdelete).symm⟩
  · have hpressed : after (.keyboard [.key .escape]) = settled w.calculator.clearEntry :=
      calculator_escape
    exact ⟨hpressed, hpressed.trans (hclicked hclear).symm⟩

/-- Behind the message of a division by zero the keys do what their buttons do: a digit takes
the place of the message, and `Backspace` and `Escape` leave nothing of it. -/
theorem keystrokes_of_follow_message :
    let w := (opened Elementary.machine).follow Elementary.machine
      [.keyboard [.text "1000000000000000000000000000/0".toList], .keyboard [equalsEvent]]
    let after (g : Gesture) : Calculator := (w.gesture Elementary.machine g).calculator
    w.calculator.showsMessage = true ∧
      after (.keyboard [.text ['7']]) = after (.click ['7']) ∧
      after (.keyboard [.key .backspace]) = after (.click "DEL".toList) ∧
      after (.keyboard [.key .escape]) = after (.click ['C']) ∧
      (after (.click ['7'])).entry = ['7'] ∧ (after (.click "DEL".toList)).entry = [] := by
  have hfocused : ((opened Elementary.machine).follow Elementary.machine
      [.keyboard [.text "1000000000000000000000000000/0".toList],
        .keyboard [equalsEvent]]).focused = true := by
    decide +kernel
  have hatEnd : ((opened Elementary.machine).follow Elementary.machine
      [.keyboard [.text "1000000000000000000000000000/0".toList],
        .keyboard [equalsEvent]]).AtEnd :=
    fun _ => by decide +kernel
  obtain ⟨htyped, ⟨-, hdelete⟩, -, hclear⟩ :=
    keystrokes_of_follow Elementary.machine _ hfocused hatEnd
  refine ⟨by decide +kernel, ?_, hdelete, hclear, by decide +kernel, by decide +kernel⟩
  exact (htyped ['7'] (by decide)).2 ['7'] (by decide)

/-! ## Keystrokes that are not for the entry line -/

/-- Preparing asks for nothing. -/
theorem wantsFocus_prepare :
    (w.prepare events).calculator.wantsFocus = w.calculator.wantsFocus := by
  have hleft (c : Calculator) : c.leaveMessage.wantsFocus = c.wantsFocus := by
    unfold leaveMessage
    split <;> rfl
  refine prepare_induction (P := fun c => c.wantsFocus = w.calculator.wantsFocus) rfl (hleft _) ?_
    events
  intro s
  simp only [Calculator.prepare, leaveResult]
  split <;> exact hleft _

/-- Without the keyboard the entry line hears of no keystroke, but the calculator is prepared
for it. -/
theorem calculator_unheard (hunfocused : w.focused = false)
    (hgranted : w.calculator.wantsFocus = false) (hnoSign : equalsEvent ∉ events)
    (hnoEscape : .key .escape ∉ events) :
    (w.gesture lib (.keyboard events)).calculator = settled (w.prepare events).calculator := by
  obtain ⟨hall, hreadied⟩ := ready_of_plain (w := w) hnoSign hnoEscape
  have haway : (w.prepare events).focused = false := focused_prepare.trans hunfocused
  have hunasked : (w.prepare events).calculator.wantsFocus = false :=
    wantsFocus_prepare.trans hgranted
  have hunchanged : (w.ready events none).edit (typed events) = (false, w.prepare events) := by
    rw [hreadied, hall, edit, if_neg (by simp [haway])]
  have hreceived : w.receive lib events none = (w.prepare events).grantFocus :=
    receive_of_unchanged hunchanged
  -- `Enter` evaluates only for a field that has the keyboard, or had it before the frame.
  have hnotEvaluated : ¬(w.receive lib events none).Evaluates events w := by
    rw [hreceived, grantFocus_eq]
    rintro (hsign | ⟨-, hbefore | hnow⟩)
    · exact hnoSign hsign
    · simp [hunfocused] at hbefore
    · simp [haway, hunasked] at hnow
  rw [calculator_keyboard, enter, if_neg hnotEvaluated, hreceived, grantFocus_eq]
  rfl

/-- Preparing empties the entry line of a message, and leaves it otherwise, unless a number
takes the place of a result. -/
theorem entry_prepare_of_kept (htyped : events ≠ [])
    (hkept : w.calculator.showsResult = true → ∀ s, events.findSome? textOf? = some s →
      startsNumber s = false) :
    (w.prepare events).calculator.entry =
      if w.calculator.showsMessage then [] else w.calculator.entry := by
  cases hshown : w.calculator.showsMessage with
  | true =>
    have hleft : w.calculator.leaveMessage.entry = [] := by simp [leaveMessage, hshown]
    obtain ⟨s, -, hprepared⟩ | hprepared := prepare_cases htyped w
    · rw [hprepared]
      simp only [Calculator.prepare, leaveResult]
      split
      · rfl
      · exact hleft
    · rw [hprepared]
      exact hleft
  | false =>
    obtain ⟨s, hfirst, hprepared⟩ | hprepared := prepare_cases htyped w
    · rw [hprepared, prepare_of_kept hshown fun hresult => hkept hresult s hfirst]
      rfl
    · rw [hprepared, leaveMessage_of_not_shown hshown]
      rfl

/-- Where the entry line does not have the keyboard, nothing that is typed or pasted is put into
it, and no key but `Escape` reaches it.  A message is thrown away all the same, which leaves the
entry line empty; otherwise its text stays, unless what is typed would start a number in the
place of a result. -/
theorem unheard_of_follow (lib : Elementary) (gestures : List Gesture)
    (hunfocused : ((opened lib).follow lib gestures).focused = false) :
    let w := (opened lib).follow lib gestures
    ∀ events, events ≠ [] → equalsEvent ∉ events → .key .escape ∉ events →
      (w.calculator.showsResult = true → ∀ s, events.findSome? textOf? = some s →
        startsNumber s = false) →
      let next := w.gesture lib (.keyboard events)
      next.calculator.entry = (if w.calculator.showsMessage then [] else w.calculator.entry) ∧
        next.calculator.showsMessage = false := by
  intro w events htyped hnoSign hnoEscape hkept next
  have hunheard : next.calculator = settled (w.prepare events).calculator :=
    calculator_unheard hunfocused (granted_follow lib gestures) hnoSign hnoEscape
  rw [hunheard]
  exact ⟨entry_prepare_of_kept htyped hkept, showsMessage_prepare htyped⟩

/-- An operator that is typed elsewhere does not continue the result. -/
theorem unheard_of_follow_operator :
    let w := (opened Elementary.machine).follow Elementary.machine
      [.keyboard [.text "40+2".toList], .keyboard [equalsEvent],
        .click "Calculatrice degrés".toList]
    w.calculator.mode = .result ∧
      (w.gesture Elementary.machine (.keyboard [.text "+5".toList])).calculator.entry =
        "42".toList := by
  have hunfocused : ((opened Elementary.machine).follow Elementary.machine
      [.keyboard [.text "40+2".toList], .keyboard [equalsEvent],
        .click "Calculatrice degrés".toList]).focused = false := by
    decide +kernel
  have hshown : ((opened Elementary.machine).follow Elementary.machine
      [.keyboard [.text "40+2".toList], .keyboard [equalsEvent],
        .click "Calculatrice degrés".toList]).calculator.entry = "42".toList ∧
      ((opened Elementary.machine).follow Elementary.machine
        [.keyboard [.text "40+2".toList], .keyboard [equalsEvent],
          .click "Calculatrice degrés".toList]).calculator.showsMessage = false := by
    decide +kernel
  have hoperator (s : Text) (hfirst : [Event.text "+5".toList].findSome? textOf? = some s) :
      startsNumber s = false := by
    cases hfirst
    decide
  have hunheard := (unheard_of_follow Elementary.machine _ hunfocused [.text "+5".toList]
    (by decide) (by decide) (by decide) (fun _ => hoperator)).1
  rw [hshown.2, if_neg Bool.false_ne_true, hshown.1] at hunheard
  exact ⟨by decide +kernel, hunheard⟩

/-- A message does not stay when a key is pressed elsewhere, whether it types a text or not. -/
theorem message_lost_unheard :
    let w := (opened Elementary.machine).follow Elementary.machine
      [.keyboard [.text "1/0".toList], .keyboard [equalsEvent],
        .click "Calculatrice degrés".toList]
    w.focused = false ∧ w.calculator.entry = "Division par zéro impossible.".toList ∧
      (w.gesture Elementary.machine (.keyboard [.text ['+']])).calculator.entry = [] ∧
      (w.gesture Elementary.machine (.keyboard [.key .plain])).calculator.entry = [] := by
  decide +kernel

end Window

end PocketCalculator
