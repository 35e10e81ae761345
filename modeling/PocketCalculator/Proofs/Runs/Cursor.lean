import PocketCalculator.Proofs.Runs.Gestures

/-!
# The cursor

The keyboard writes at the cursor, and takes the cursor along.  Buttons, lines of the
history and evaluations write the entry line as a whole and leave the cursor where it is;
only a text that ends before the cursor draws it back.  So a text that a button or an
evaluation makes longer runs out behind the cursor, and what is typed next lands inside it.

* `trails_receive`: without keys that move the cursor, the keyboard leaves nothing behind
  the cursor.
* `trails_gesture` and `not_atEnd_of_overruns`: a gesture keeps the cursor at the end
  exactly if no evaluation and no click of it writes past the cursor.
* `atEnd_follow_iff`: so it is in all states that a person sees.
* `entry_typed`: what is typed stands at the cursor.
* `cursor_of_follow` puts these together.
-/

namespace PocketCalculator

/-! ## The field -/

/-- Whether a key does nothing but move the cursor. -/
def Key.movesCursor : Key → Bool
  | .arrowLeft | .arrowRight | .arrowUp | .arrowDown | .home | .last => true
  | .enter | .escape | .backspace | .delete | .plain => false

/-- Whether an event is a key that moves the cursor. -/
def Event.movesCursor : Event → Bool
  | .key k => k.movesCursor
  | .text _ | .paste _ => false

/-- Whether a key that moves the cursor is among the events of a gesture. -/
def Window.Gesture.movesCursor : Window.Gesture → Bool
  | .keyboard events => events.any Event.movesCursor
  | .click _ | .history _ => false

namespace Field

theorem cursor_insert {f : Field} (h : f.cursor = f.text.length) (s : Text) :
    (f.insert s).cursor = (f.insert s).text.length := by
  simp [insert, h]

theorem cursor_press {f : Field} (h : f.cursor = f.text.length) {k : Key}
    (hk : k.movesCursor = false) : (f.press k).cursor = (f.press k).text.length := by
  cases k with
  | enter | escape | plain => exact h
  | backspace =>
    simp only [press]
    split
    · exact h
    case isFalse hsome =>
      show f.cursor - 1 = (f.text.eraseIdx (f.cursor - 1)).length
      rw [List.length_eraseIdx_of_lt (by omega), h]
  | delete =>
    show f.cursor = (f.text.eraseIdx f.cursor).length
    rw [List.eraseIdx_of_length_le (by omega), h]
  | arrowLeft | arrowRight | arrowUp | arrowDown | home | last => cases hk

/-- A cursor at the end stays there, unless a key moves it. -/
theorem cursor_handle {f : Field} (h : f.cursor = f.text.length) {e : Event}
    (he : e.movesCursor = false) : (f.handle e).cursor = (f.handle e).text.length := by
  cases e with
  | text s | paste s =>
    simp only [handle]
    split
    · exact h
    · exact cursor_insert h _
  | key k => exact cursor_press h he

theorem cursor_handleAll {f : Field} (h : f.cursor = f.text.length) {events : List Event}
    (hplain : ∀ e ∈ events, e.movesCursor = false) :
    (f.handleAll events).cursor = (f.handleAll events).text.length := by
  induction events generalizing f with
  | nil => exact h
  | cons e events ih =>
    rw [List.forall_mem_cons] at hplain
    rw [handleAll, List.foldl_cons]
    split
    · exact ih (cursor_handle h hplain.1) hplain.2
    · exact ih h hplain.2

end Field

namespace Calculator

variable {lib : Elementary} {c : Calculator}

/-- What is thrown away is thrown away as a whole. -/
theorem entry_leaveMessage : c.leaveMessage.entry = c.entry ∨ c.leaveMessage.entry = [] := by
  unfold leaveMessage
  split
  · exact .inr rfl
  · exact .inl rfl

theorem entry_prepare (s : Text) : (c.prepare s).entry = c.entry ∨ (c.prepare s).entry = [] := by
  simp only [prepare, leaveResult]
  split
  · exact .inr rfl
  · exact entry_leaveMessage

/-- Whether what was done asks for the keyboard, or leaves the entry line and the wish for
the keyboard as they were. -/
def Asks (c next : Calculator) : Prop :=
  next.wantsFocus = true ∨ next.entry = c.entry ∧ next.wantsFocus = c.wantsFocus

theorem Asks.trans {next last : Calculator} (h : c.Asks next) (h' : next.Asks last) :
    c.Asks last := by
  obtain hasked | ⟨hentry, hwish⟩ := h'
  · exact .inl hasked
  · obtain hasked | ⟨hentry', hwish'⟩ := h
    · exact .inl (hwish.trans hasked)
    · exact .inr ⟨hentry.trans hentry', hwish.trans hwish'⟩

theorem asks_equals : c.Asks (c.equals lib) := by
  unfold equals
  split
  · exact .inr ⟨rfl, rfl⟩
  · split <;> exact .inl rfl

/-- Whatever writes the entry line asks for the keyboard. -/
theorem asks_perform {a : Action} (ha : a.isOnKeypad = true) : c.Asks (c.perform lib a) := by
  cases a with
  | equals => exact asks_equals
  | insert | deleteLast | clearEntry | memoryAdd | memorySubtract | memoryRecall | memoryClear =>
    exact .inl rfl
  | prepare | refresh | leaveMessage | reuse => cases ha

end Calculator

namespace Window

open Calculator

variable {lib : Elementary} {w : Window}

/-! ## The keyboard -/

/-- No part of the entry line is behind the cursor. -/
def Trails (w : Window) : Prop := w.calculator.entry.length ≤ w.cursor

/-- Where the keyboard writes, the cursor is at the end of the entry line. -/
def AtEnd (w : Window) : Prop := w.focused = true → w.cursor = w.calculator.entry.length

theorem trails_ready (h : w.Trails) (events : List Event) (click : Option Widget) :
    (w.ready events click).Trails := by
  have hnothing (w : Window) (hempty : w.calculator.entry = []) : w.Trails := by
    simp [Trails, hempty]
  have hescaped : (w.escape events).Trails := by
    unfold escape
    split
    · exact hnothing _ rfl
    · exact h
  have hprepared : ((w.escape events).prepare (typed events)).Trails := by
    unfold Window.prepare
    split
    case h_1 s _ =>
      obtain hkept | hempty := entry_prepare (c := (w.escape events).calculator) s
      · show List.length _ ≤ _
        rw [hkept]
        exact hescaped
      · exact hnothing _ hempty
    case h_2 =>
      split
      · obtain hkept | hempty := entry_leaveMessage (c := (w.escape events).calculator)
        · show List.length _ ≤ _
          rw [hkept]
          exact hescaped
        · exact hnothing _ hempty
      · exact hescaped
  cases click with
  | none => exact hprepared
  | some widget => exact hprepared

/-- The keyboard writes at the end and stays there. -/
theorem trails_receive (h : w.Trails) {events : List Event} (click : Option Widget)
    (hplain : ∀ e ∈ events, e.movesCursor = false) : (w.receive lib events click).Trails := by
  have hready : (w.ready events click).Trails := trails_ready h events click
  have hplain : ∀ e ∈ typed events, e.movesCursor = false :=
    fun e he => hplain e (List.mem_filter.mp he).1
  obtain ⟨hentry, hcursor⟩ := entry_receive lib events click w
  unfold Trails
  rw [hentry, hcursor]
  unfold edit
  split
  · let start : Field := {
      text := (w.ready events click).calculator.entry
      cursor := min (w.ready events click).cursor (w.ready events click).calculator.entry.length }
    have hatEnd : start.cursor = start.text.length := Nat.min_eq_right hready
    exact Nat.le_of_eq (Field.cursor_handleAll hatEnd hplain).symm
  · exact hready

/-! ## What writes past the cursor -/

/-- Whether an evaluation or a click of a step writes a text into the entry line that ends
behind the cursor of the keyboard. -/
def WritesPast (lib : Elementary) (events : List Event) (click : Option Widget) (w : Window) :
    Prop :=
  let typed := w.receive lib events click
  let written := (w.frame lib events click).1
  written.calculator.entry ≠ typed.calculator.entry ∧
    typed.cursor < written.calculator.entry.length

/-- Whether a gesture writes past the cursor. -/
def Overruns (lib : Elementary) (w : Window) (g : Gesture) : Prop :=
  ∃ events click, w.stepOf? g = some (events, click) ∧ w.WritesPast lib events click

theorem cursor_enter {before : Window} (events : List Event) :
    (w.enter lib events before).cursor = w.cursor := by
  unfold enter
  split <;> rfl

theorem cursor_act (click : Option Widget) : (w.act lib click).1.cursor = w.cursor := by
  cases click with
  | none => rfl
  | some widget =>
    cases widget with
    | copy =>
      simp only [act]
      split <;> rfl
    | caption | entry | theme | button | historyHeader | historyLine => rfl

theorem cursor_frame (events : List Event) (click : Option Widget) :
    (w.frame lib events click).1.cursor = (w.receive lib events click).cursor :=
  (cursor_act click).trans (cursor_enter events)

theorem asks_enter (lib : Elementary) (events : List Event) (w before : Window) :
    w.calculator.Asks (w.enter lib events before).calculator := by
  unfold enter
  split
  · exact asks_equals
  · exact .inr ⟨rfl, rfl⟩

theorem asks_act {click : Option Widget}
    (hoffered : ∀ action, click = some (.button action) → action.isOnKeypad = true) :
    w.calculator.Asks (w.act lib click).1.calculator := by
  cases click with
  | none => exact .inr ⟨rfl, rfl⟩
  | some widget =>
    cases widget with
    | button action => exact asks_perform (hoffered action rfl)
    | historyLine => exact .inl rfl
    | copy =>
      simp only [act]
      split
      · exact .inr ⟨rfl, rfl⟩
      · exact .inl rfl
    | caption | entry | theme | historyHeader => exact .inr ⟨rfl, rfl⟩

/-- Where something is written past the cursor, the keyboard is asked for. -/
theorem wantsFocus_of_writesPast {events : List Event} {click : Option Widget}
    (hoffered : ∀ action, click = some (.button action) → action.isOnKeypad = true)
    (hpast : w.WritesPast lib events click) :
    (w.frame lib events click).1.calculator.wantsFocus = true := by
  obtain hasked | ⟨hentry, -⟩ := (asks_enter lib events (w.receive lib events click) w).trans
    (asks_act (w := (w.receive lib events click).enter lib events w) hoffered)
  · exact hasked
  · exact absurd hentry hpast.1

/-- What is not written past the cursor leaves nothing behind it. -/
theorem trails_frame (h : w.Trails) {events : List Event} {click : Option Widget}
    (hplain : ∀ e ∈ events, e.movesCursor = false) (hshort : ¬w.WritesPast lib events click) :
    (w.frame lib events click).1.Trails := by
  have htyped : (w.receive lib events click).Trails := trails_receive h click hplain
  unfold Trails
  rw [cursor_frame]
  by_cases hkept : (w.frame lib events click).1.calculator.entry =
      (w.receive lib events click).calculator.entry
  · rw [hkept]
    exact htyped
  · exact Nat.not_lt.mp fun hpast => hshort ⟨hkept, hpast⟩

/-! ## Gestures -/

/-- The frames that end a gesture put the cursor where it is shown. -/
theorem cursor_settle (lib : Elementary) (w : Window) :
    (w.settle lib).calculator.entry = w.calculator.entry ∧
      ((w.settle lib).focused = (w.focused || w.calculator.wantsFocus)) ∧
      (w.settle lib).cursor =
        if (w.settle lib).focused then min w.cursor w.calculator.entry.length else w.cursor := by
  rw [settle_eq]
  exact ⟨rfl, rfl, rfl⟩

theorem trails_settle (h : w.Trails) : (w.settle lib).Trails := by
  obtain ⟨hentry, -, hcursor⟩ := cursor_settle lib w
  unfold Trails
  rw [hentry, hcursor]
  split
  · exact Nat.le_min.mpr ⟨h, Nat.le_refl _⟩
  · exact h

/-- A wish for the keyboard brings the keyboard to where the cursor was left. -/
theorem not_atEnd_settle (hasked : w.calculator.wantsFocus = true)
    (hbehind : w.cursor < w.calculator.entry.length) : ¬(w.settle lib).AtEnd := by
  obtain ⟨hentry, hfocused, hcursor⟩ := cursor_settle lib w
  rw [hasked, Bool.or_true] at hfocused
  intro hatEnd
  have hatEnd : (w.settle lib).cursor = (w.settle lib).calculator.entry.length := hatEnd hfocused
  rw [hentry, hcursor, if_pos hfocused] at hatEnd
  omega

theorem plain_of_stepOf? {g : Gesture} {events : List Event} {click : Option Widget}
    (hmade : w.stepOf? g = some (events, click)) (hplain : g.movesCursor = false) :
    ∀ e ∈ events, e.movesCursor = false := by
  obtain ⟨rfl, -⟩ | ⟨-, -, -, -, rfl, -⟩ | ⟨-, -, -, rfl, -⟩ := stepOf?_cases hmade
  · simpa [Gesture.movesCursor] using hplain
  · simp
  · simp

/-- A gesture that writes nothing past the cursor leaves nothing behind it. -/
theorem trails_gesture (h : w.Trails) {g : Gesture} (hplain : g.movesCursor = false)
    (hshort : ¬w.Overruns lib g) : (w.gesture lib g).Trails := by
  refine gesture_induction h ?_
  intro events click hmade
  have hwritten : (w.frame lib events click).1.Trails :=
    trails_frame h (plain_of_stepOf? hmade hplain) fun hpast => hshort ⟨events, click, hmade, hpast⟩
  exact trails_settle hwritten

/-- A gesture that writes past the cursor leaves the keyboard inside the text. -/
theorem not_atEnd_of_overruns {g : Gesture} (hoverruns : w.Overruns lib g) :
    ¬(w.gesture lib g).AtEnd := by
  obtain ⟨events, click, hmade, hpast⟩ := hoverruns
  have hasked : (w.frame lib events click).1.calculator.wantsFocus = true := by
    refine wantsFocus_of_writesPast ?_ hpast
    rintro action rfl
    exact isOnKeypad_of_stepOf? hmade
  have hbehind : (w.frame lib events click).1.cursor <
      (w.frame lib events click).1.calculator.entry.length := by
    rw [cursor_frame]
    exact hpast.2
  rw [gesture_of_stepOf? hmade]
  exact not_atEnd_settle hasked hbehind

/-! ## What a person sees -/

/-- The cursor is within the text where the keyboard writes. -/
def Within (w : Window) : Prop := w.focused = true → w.cursor ≤ w.calculator.entry.length

theorem within_settle : (w.settle lib).Within := by
  obtain ⟨hentry, -, hcursor⟩ := cursor_settle lib w
  intro hfocused
  rw [hentry, hcursor, if_pos hfocused]
  exact Nat.min_le_right _ _

theorem within_follow (gestures : List Gesture) : ((opened lib).follow lib gestures).Within :=
  follow_invariant (fun _ _ _ _ _ _ => within_settle) within_settle gestures

theorem atEnd_of_trails (h : w.Trails) (hwithin : w.Within) : w.AtEnd :=
  fun hfocused => Nat.le_antisymm (hwithin hfocused) h

theorem trails_opened : (opened lib).Trails := trails_settle (Nat.le_refl 0)

theorem follow_append (w : Window) (front rest : List Gesture) :
    w.follow lib (front ++ rest) = (w.follow lib front).follow lib rest := List.foldl_append

/-- As long as nothing is written past the cursor, nothing is behind it. -/
theorem trails_follow (h : w.Trails) {gestures : List Gesture}
    (hplain : ∀ g ∈ gestures, g.movesCursor = false)
    (hshort : ∀ front g rest, gestures = front ++ g :: rest →
      ¬(w.follow lib front).Overruns lib g) : (w.follow lib gestures).Trails := by
  induction gestures generalizing w with
  | nil => exact h
  | cons g gestures ih =>
    rw [List.forall_mem_cons] at hplain
    refine ih (trails_gesture h hplain.1 (hshort [] g gestures rfl)) hplain.2 ?_
    intro front next rest hsplit
    exact hshort (g :: front) next rest (by rw [hsplit, List.cons_append])

/-- The cursor is at the end in every state that a person sees exactly if no evaluation and
no click writes past it. -/
theorem atEnd_follow_iff {gestures : List Gesture}
    (hplain : ∀ g ∈ gestures, g.movesCursor = false) :
    (∀ front rest, gestures = front ++ rest → ((opened lib).follow lib front).AtEnd) ↔
      ∀ front g rest, gestures = front ++ g :: rest →
        ¬((opened lib).follow lib front).Overruns lib g := by
  constructor
  · intro hatEnd front g rest hsplit hoverruns
    refine not_atEnd_of_overruns hoverruns ?_
    have hnext :=
      hatEnd (front ++ [g]) rest (by rw [hsplit, List.append_assoc, List.singleton_append])
    rwa [follow_append] at hnext
  · rintro hshort front rest rfl
    refine atEnd_of_trails (trails_follow trails_opened ?_ ?_) (within_follow front)
    · exact fun g hg => hplain g (List.mem_append_left _ hg)
    · rintro front' g rest' rfl
      exact hshort front' g (rest' ++ rest) (by rw [List.append_assoc, List.cons_append])

/-! ## Typing -/

/-- Whether a text is one that the field takes as it is: not an equals sign, and not one
that the field ignores. -/
def Inserts (s : Text) : Prop := s ∉ [[], ['='], ['\n'], ['\r']]

instance (s : Text) : Decidable (Inserts s) := inferInstanceAs (Decidable (s ∉ _))

theorem handle_text {s : Text} (h : Inserts s) (f : Field) : f.handle (.text s) = f.insert s := by
  have hnotIgnored : ¬(s = [] ∨ s = ['\n'] ∨ s = ['\r']) := by
    rintro (rfl | rfl | rfl) <;> exact h (by simp)
  rw [Field.handle, if_neg hnotIgnored]

/-- A text that the field takes as it is asks for no evaluation. -/
theorem text_ne_equalsEvent {s : Text} (h : Inserts s) : .text s ≠ equalsEvent := by
  intro hsame
  have hsign : s = ['='] := Event.text.inj hsame
  exact h (by simp [hsign])

/-- What is typed stands at the cursor. -/
theorem entry_typed (hfocused : w.focused = true) (hwithin : w.Within) {s : Text}
    (hinserts : Inserts s) (hnoMessage : w.calculator.showsMessage = false)
    (hkept : w.calculator.showsResult = true → startsNumber s = false) :
    (w.gesture lib (.keyboard [.text s])).calculator.entry =
      w.calculator.entry.take w.cursor ++ s ++ w.calculator.entry.drop w.cursor := by
  have hnoSign : equalsEvent ∉ [.text s] := by simpa using Ne.symm (text_ne_equalsEvent hinserts)
  have hprepared : w.prepare [.text s] = { w with calculator := w.calculator.leaveResult } :=
    congrArg (fun c => { w with calculator := c }) (prepare_of_kept hnoMessage hkept)
  obtain ⟨htypedAll, hreadied⟩ := ready_of_plain (w := w) hnoSign (by simp)
  let start : Field := {
    text := w.calculator.entry, cursor := min w.cursor w.calculator.entry.length }
  have hedited : (start.handleAll [.text s]).text =
      w.calculator.entry.take w.cursor ++ s ++ w.calculator.entry.drop w.cursor := by
    have hcursor : start.cursor = w.cursor := Nat.min_eq_left (hwithin hfocused)
    show (start.handle (.text s)).text = _
    rw [handle_text hinserts, Field.insert, hcursor]
  have hreceived : (w.receive lib [.text s] none).calculator.entry =
      w.calculator.entry.take w.cursor ++ s ++ w.calculator.entry.drop w.cursor := by
    rw [(entry_receive lib [.text s] none w).1, hreadied, htypedAll, hprepared, edit,
      if_pos hfocused]
    exact hedited
  have hnotEvaluated : ¬(w.receive lib [.text s] none).Evaluates [.text s] w := by
    simp [Evaluates, Ne.symm (text_ne_equalsEvent hinserts)]
  rw [calculator_keyboard, enter, if_neg hnotEvaluated]
  exact hreceived

/-- Without keys that move it, the cursor is at the end in every state that a person sees
exactly if no evaluation and no click writes past it.  What is typed stands at the cursor,
which is the end of the entry line only then. -/
theorem cursor_of_follow (lib : Elementary) (gestures : List Gesture)
    (hplain : ∀ g ∈ gestures, g.movesCursor = false) :
    let w := (opened lib).follow lib gestures
    ((∀ front rest, gestures = front ++ rest → ((opened lib).follow lib front).AtEnd) ↔
      ∀ front g rest, gestures = front ++ g :: rest →
        ¬((opened lib).follow lib front).Overruns lib g) ∧
    ∀ s, w.focused = true → Inserts s → w.calculator.showsMessage = false →
      (w.calculator.showsResult = true → startsNumber s = false) →
      let next := w.gesture lib (.keyboard [.text s])
      next.calculator.entry =
          w.calculator.entry.take w.cursor ++ s ++ w.calculator.entry.drop w.cursor ∧
        (w.AtEnd → next.calculator.entry = w.calculator.entry ++ s) := by
  intro w
  refine ⟨atEnd_follow_iff hplain, ?_⟩
  intro s hfocused hinserts hnoMessage hkept next
  have hwritten : next.calculator.entry =
      w.calculator.entry.take w.cursor ++ s ++ w.calculator.entry.drop w.cursor :=
    entry_typed hfocused (within_follow gestures) hinserts hnoMessage hkept
  refine ⟨hwritten, fun hatEnd => ?_⟩
  rw [hwritten, hatEnd hfocused, List.take_length, List.drop_length, List.append_nil]

/-- A result that is shorter than what was evaluated draws the cursor to its end. -/
theorem cursor_of_follow_sum :
    let w := (opened Elementary.machine).follow Elementary.machine
      [.keyboard [.text "40+2".toList], .keyboard [equalsEvent]]
    w.calculator.mode = .result ∧ w.calculator.entry = "42".toList ∧
      (w.gesture Elementary.machine (.keyboard [.text "+1".toList])).calculator.entry =
        w.calculator.entry ++ "+1".toList := by
  have hshown : ((opened Elementary.machine).follow Elementary.machine
      [.keyboard [.text "40+2".toList], .keyboard [equalsEvent]]).calculator.mode = .result ∧
      ((opened Elementary.machine).follow Elementary.machine
        [.keyboard [.text "40+2".toList], .keyboard [equalsEvent]]).calculator.entry =
        "42".toList := by
    decide +kernel
  have hatEnd : ((opened Elementary.machine).follow Elementary.machine
      [.keyboard [.text "40+2".toList], .keyboard [equalsEvent]]).AtEnd :=
    fun _ => by decide +kernel
  have htyped := (cursor_of_follow Elementary.machine
    [.keyboard [.text "40+2".toList], .keyboard [equalsEvent]] (by decide)).2 "+1".toList
    (by decide +kernel) (by decide) (by decide +kernel) (fun _ => by decide)
  exact ⟨hshown.1, hshown.2, htyped.2 hatEnd⟩

/-- A result that is longer than what was evaluated runs out behind the cursor, and an
operator that is typed next stands inside it. -/
theorem operator_inside_result :
    let w := (opened Elementary.machine).follow Elementary.machine
      [.keyboard [.text "1/8".toList], .keyboard [equalsEvent]]
    w.calculator.mode = .result ∧ w.calculator.entry = "0.125".toList ∧
      w.focused = true ∧ w.cursor = 3 ∧
      (w.gesture Elementary.machine (.keyboard [.text ['+']])).calculator.entry =
        "0.1+25".toList := by
  decide +kernel

end Window

end PocketCalculator
