import PocketCalculator.Proofs.Accepted
import PocketCalculator.Proofs.Continuations

/-!
# What the pass takes

Whether the pass to postfix order takes tokens depends on what is due and on how many groups are
open.  The operators that wait decide what is passed on, not whether something is
(`Postfix.pass_of_length`), so `Postfix.Takes` does not mention them.

A minus is taken in two places.  Where an operand is due it is a sign, and behind an operand it is
a subtraction; `Postfix.ReadsMinus` says which of the two waits behind it.
-/

namespace PocketCalculator.Postfix

/-! ## Taking tokens -/

/-- Whether tokens are accepted depends on what is due and on how many groups are open, not on
the operators that wait. -/
theorem pass_of_length {due : Due} {waiting waiting' : List Waiting} {outer outer' : List Group}
    {ts : List Token} {items : List Item} (h : pass due waiting outer ts = .ok items)
    (hlength : outer'.length = outer.length) :
    ∃ items', pass due waiting' outer' ts = .ok items' := by
  fun_induction pass due waiting outer ts generalizing waiting' outer' items
  case case1 waiting =>
    rw [List.eq_nil_of_length_eq_zero hlength]
    exact ⟨_, rfl⟩
  case case4 f waiting outer ts ih =>
    have hgroups : (⟨some f, waiting'⟩ :: outer').length = (⟨some f, waiting⟩ :: outer).length :=
      congrArg Nat.succ hlength
    exact ih h hgroups
  case case7 waiting outer x ts ih =>
    obtain ⟨_, hrest, -⟩ := exists_ok_of_map h
    obtain ⟨more, hmore⟩ : ∃ more, pass .rest waiting' outer' ts = .ok more := ih hrest hlength
    exact ⟨.number x :: more, by rw [pass, hmore]; rfl⟩
  case case8 ih | case10 ih | case11 ih => exact ih h hlength
  case case9 waiting outer ts ih =>
    have hgroups : (⟨none, waiting'⟩ :: outer').length = (⟨none, waiting⟩ :: outer).length :=
      congrArg Nat.succ hlength
    exact ih h hgroups
  case case14 waiting outer o ts ih =>
    obtain ⟨_, hrest, -⟩ := exists_ok_of_map h
    let waits := .operator o :: waiting'.dropWhile (Waiting.closedBy o)
    obtain ⟨more, hmore⟩ : ∃ more, pass .operand waits outer' ts = .ok more := ih hrest hlength
    exact ⟨(waiting'.takeWhile (Waiting.closedBy o)).map Waiting.item ++ more,
      by cases outer' <;> rw [pass, hmore] <;> rfl⟩
  case case16 waiting group outer ts ih =>
    obtain ⟨_, hrest, -⟩ := exists_ok_of_map h
    cases outer' with
    | nil => cases hlength
    | cons group' outer' =>
      obtain ⟨more, hmore⟩ : ∃ more, pass .rest group'.waiting outer' ts = .ok more :=
        ih hrest (Nat.succ.inj hlength)
      exact ⟨_, by rw [pass, hmore]; rfl⟩
  all_goals cases h

/-- Whether the pass takes tokens where `due` is due and the groups `outer` are open. -/
def Takes (due : Due) (outer : List Group) (ts : List Token) : Prop :=
  ∃ items, pass due [] outer ts = .ok items

theorem takes_iff (due : Due) (waiting : List Waiting) (outer : List Group) (ts : List Token) :
    (∃ items, pass due waiting outer ts = .ok items) ↔ Takes due outer ts :=
  ⟨fun ⟨_, h⟩ => pass_of_length h rfl, fun ⟨_, h⟩ => pass_of_length h rfl⟩

theorem takes_of_passed {due due' : Due} {waiting waiting' : List Waiting}
    {outer outer' : List Group} {ts us : List Token} {front : List Item}
    (h : pass due waiting outer ts = (pass due' waiting' outer' us).map (front ++ ·)) :
    Takes due outer ts ↔ Takes due' outer' us := by
  rw [← takes_iff due waiting, ← takes_iff due' waiting', h]
  constructor
  · rintro ⟨items, hitems⟩
    obtain ⟨rest, hrest, -⟩ := exists_ok_of_map hitems
    exact ⟨rest, hrest⟩
  · rintro ⟨rest, hrest⟩
    exact ⟨front ++ rest, by rw [hrest]; rfl⟩

/-- Tokens in front of tokens that are taken lead the pass to a place where those are taken. -/
theorem exists_passed {due : Due} {waiting : List Waiting} {outer : List Group}
    {ts us : List Token} {items : List Item} (h : pass due waiting outer (ts ++ us) = .ok items) :
    ∃ waiting' outer' front, ∀ more, pass due waiting outer (ts ++ more) =
      (pass (due.after ts) waiting' outer' more).map (front ++ ·) := by
  obtain ⟨fault, -, hrefused⟩ | hpassed := pass_append_due due waiting outer ts
  · rw [hrefused] at h
    cases h
  · exact hpassed

/-- A minus is taken where an operand is due or complete, and then an operand is due. -/
theorem takes_minus_iff {due : Due} {outer : List Group} {ts : List Token} :
    Takes due outer (.operator .sub :: ts) ↔
      (∀ f, due ≠ .parenthesis f) ∧ Takes .operand outer ts := by
  cases due with
  | operand =>
    have hpass : pass .operand [] outer (.operator .sub :: ts) =
        (pass .operand [.neg] outer ts).map ([] ++ ·) := map_nil_append _
    simp [takes_of_passed hpass]
  | parenthesis f => simp [Takes, pass]
  | rest =>
    have hpass : pass .rest [] outer (.operator .sub :: ts) =
        (pass .operand [.operator .sub] outer ts).map ([] ++ ·) := by cases outer <;> rfl
    simp [takes_of_passed hpass]

/-! ## How a minus is read -/

/-- Whether the pass reads a minus behind tokens as `w`: it goes on behind the minus with `w` as
the latest of the operators that wait. -/
def ReadsMinus (ts : List Token) (w : Waiting) : Prop :=
  ∃ waiting outer front, ∀ more, ofTokens (ts ++ .operator .sub :: more) =
    (pass .operand (w :: waiting) outer more).map (front ++ ·)

/-- Closing parentheses pass on the operators that wait, and no number. -/
theorem items_of_closings {waiting : List Waiting} {outer : List Group} {n : Nat}
    {items : List Item} (h : pass .rest waiting outer (List.replicate n .closing) = .ok items) :
    (∃ rest, items = waiting.map Waiting.item ++ rest) ∧ ∀ x, .number x ∉ items := by
  have hwaiting (w : Waiting) (x : Float) : w.item ≠ .number x := by cases w <;> nofun
  induction n generalizing waiting outer items with
  | zero =>
    cases outer with
    | nil =>
      cases h
      exact ⟨⟨[], by simp⟩, by simp [hwaiting]⟩
    | cons group outer => cases h
  | succ n ih =>
    cases outer with
    | nil => cases h
    | cons group outer =>
      rw [List.replicate_succ, pass] at h
      obtain ⟨behind, hbehind, rfl⟩ := exists_ok_of_map h
      obtain ⟨-, hnumber⟩ := ih hbehind
      exact ⟨⟨_, List.append_assoc _ _ _⟩, by simp [hwaiting, hnumber]⟩

/-- Two lists in which the same number is the last one end alike. -/
theorem eq_of_last_number {a a' r r' : List Item} {x : Float}
    (hr : .number x ∉ r) (hr' : .number x ∉ r')
    (h : a ++ .number x :: r = a' ++ .number x :: r') : r = r' := by
  obtain ⟨c, -, hc⟩ | ⟨c, -, hc⟩ := List.append_eq_append_iff.mp h
  · cases c with
    | nil => exact (List.cons.inj hc).2
    | cons i c =>
      rw [(List.cons.inj hc).2] at hr
      exact absurd (by simp) hr
  · cases c with
    | nil => exact (List.cons.inj hc).2.symm
    | cons i c =>
      rw [(List.cons.inj hc).2] at hr'
      exact absurd (by simp) hr'

theorem ReadsMinus.unique {ts : List Token} {w w' : Waiting} (h : ReadsMinus ts w)
    (h' : ReadsMinus ts w') : w = w' := by
  obtain ⟨waiting, outer, front, hpass⟩ := h
  obtain ⟨waiting', outer', front', hpass'⟩ := h'
  obtain ⟨items, hitems⟩ := pass_closings (w :: waiting) outer
  have hboth := (hpass (.number 0 :: List.replicate outer.length .closing)).symm.trans (hpass' _)
  rw [pass, hitems] at hboth
  obtain ⟨all', hall', hfront⟩ := exists_ok_of_map hboth.symm
  rw [pass] at hall'
  obtain ⟨items', hitems', rfl⟩ := exists_ok_of_map hall'
  obtain ⟨⟨rest, hrest⟩, hnumber⟩ := items_of_closings hitems
  obtain ⟨⟨rest', hrest'⟩, hnumber'⟩ := items_of_closings hitems'
  have htails : items' = items := eq_of_last_number (hnumber' 0) (hnumber 0) hfront
  rw [hrest, hrest'] at htails
  have hitem : w'.item = w.item := (List.cons.inj htails).1
  cases w <;> cases w' <;> cases hitem <;> rfl

/-- Behind tokens that are taken with a minus, a minus is a sign if an operand is due and an
operator if one is complete. -/
theorem readsMinus_after {ts us : List Token} (h : Takes .operand [] (ts ++ .operator .sub :: us)) :
    (Due.after .operand ts = .operand → ReadsMinus ts .neg) ∧
      (Due.after .operand ts = .rest → ReadsMinus ts (.operator .sub)) := by
  obtain ⟨items, hitems⟩ := h
  obtain ⟨waiting, outer, front, hpassed⟩ := exists_passed hitems
  have hstart (more : List Token) : ofTokens (ts ++ .operator .sub :: more) =
      pass .operand [] [] (ts ++ .operator .sub :: more) := by cases ts <;> rfl
  constructor
  · intro hdue
    refine ⟨waiting, outer, front, fun more => ?_⟩
    rw [hstart, hpassed, hdue, pass]
  · intro hdue
    refine ⟨waiting.dropWhile (Waiting.closedBy .sub), outer,
      front ++ (waiting.takeWhile (Waiting.closedBy .sub)).map Waiting.item, fun more => ?_⟩
    rw [hstart, hpassed, hdue]
    have hminus : pass .rest waiting outer (.operator .sub :: more) =
        (pass .operand (.operator .sub :: waiting.dropWhile (Waiting.closedBy .sub)) outer more).map
          ((waiting.takeWhile (Waiting.closedBy .sub)).map Waiting.item ++ ·) := by
      cases outer <;> rfl
    rw [hminus]
    generalize pass .operand (.operator .sub :: _) outer more = behind
    cases behind with
    | error fault => rfl
    | ok items => simp [Except.map]

end PocketCalculator.Postfix
