import Mathlib.Logic.ExistsUnique
import PocketCalculator.Postfix

/-!
# What a fault says of the tokens to come

A list of tokens may be the front of a longer one.  The fault of the pass to postfix order
tells whether more tokens help: a fault that the pass meets on the way is final, and a fault
that it meets at the end is not.

* `pass_cons_due` is one token, and `pass_append_due` a list of them: they are refused whatever
  follows, or the pass goes on behind them.
* `pass_closings`: behind an operand the open groups can be closed.
* `pass_closings_of_operand_due` and `pass_completion`: where an operand is due, closing
  parentheses do not help, but an operand does.
* `exists_unique_prospect` puts these together.
-/

namespace PocketCalculator

/-- Whether a fault is that the tokens end too early. -/
def SyntaxFault.isEarlyEnd : SyntaxFault → Bool
  | noTokens | incomplete | unclosedGroup => true
  | _ => false

theorem append_ne_of_start {start rest text : Text} (h : start.isPrefixOf text = false) :
    start ++ rest ≠ text := by
  rintro rfl
  rw [List.isPrefixOf_iff_prefix.mpr (List.prefix_append start rest)] at h
  cases h

/-- What is said when the tokens end too early is said of no other fault. -/
theorem SyntaxFault.eq_of_message (early : SyntaxFault) {fault : SyntaxFault}
    (h : early.isEarlyEnd = true) (hsame : fault.message = early.message) : fault = early := by
  cases early with
  | noTokens | incomplete | unclosedGroup =>
    cases fault with
    | unreadableNumber | unknownName | unexpectedCharacter =>
      exact absurd hsame (append_ne_of_start (by decide +kernel))
    | _ =>
      revert hsame
      decide +kernel
  | _ => cases h

/-- What is said when the tokens end too early. -/
def SyntaxFault.earlyMessages : List Text :=
  ["parenthèses non fermées".toList, "expression vide".toList, "expression incomplète".toList]

theorem SyntaxFault.message_mem_iff {fault : SyntaxFault} :
    fault.message ∈ earlyMessages ↔ fault.isEarlyEnd = true := by
  constructor
  · intro hmem
    simp only [earlyMessages, List.mem_cons, List.not_mem_nil, or_false] at hmem
    obtain hsame | hsame | hsame := hmem
    · rw [eq_of_message unclosedGroup rfl hsame, isEarlyEnd]
    · rw [eq_of_message noTokens rfl hsame, isEarlyEnd]
    · rw [eq_of_message incomplete rfl hsame, isEarlyEnd]
  · intro h
    cases fault with
    | noTokens | incomplete | unclosedGroup => decide +kernel
    | _ => cases h

namespace Postfix

variable {due : Due}

/-! ## The front of a list -/

/-- Whether the pass refuses a front of the tokens, whatever follows it. -/
def Refuses (due : Due) (waiting : List Waiting) (outer : List Group) (front : List Token) : Prop :=
  ∃ fault : SyntaxFault, fault.isEarlyEnd = false ∧
    ∀ ts, pass due waiting outer (front ++ ts) = .error fault

/-- Whether the pass goes on behind a front of the tokens. -/
def GoesOn (due : Due) (waiting : List Waiting) (outer : List Group) (front : List Token) : Prop :=
  ∃ due' waiting' outer' items, ∀ ts,
    pass due waiting outer (front ++ ts) = (pass due' waiting' outer' ts).map (items ++ ·)

theorem map_nil_append (answer : Except SyntaxFault (List Item)) :
    answer = answer.map ([] ++ ·) := by
  cases answer <;> rfl

/-- What is due behind a token that the pass has taken. -/
def Due.behind : Token → Due
  | .number _ | .closing => rest
  | .function f => parenthesis f
  | .opening | .operator _ | .neg => operand

/-- What is due behind a list of tokens that the pass has taken; `due` was due in front of it. -/
def Due.after : Due → List Token → Due
  | due, [] => due
  | _, t :: ts => after (behind t) ts

/-- One token is refused, or the pass goes on behind it; what is due then depends on the token
alone. -/
theorem pass_cons_due (due : Due) (waiting : List Waiting) (outer : List Group) (t : Token) :
    Refuses due waiting outer [t] ∨ ∃ waiting' outer' items, ∀ ts,
      pass due waiting outer (t :: ts) =
        (pass (.behind t) waiting' outer' ts).map (items ++ ·) := by
  cases due with
  | operand =>
    cases t with
    | number x => exact .inr ⟨_, _, [.number x], fun ts => rfl⟩
    | function f => exact .inr ⟨_, _, [], fun ts => map_nil_append _⟩
    | opening => exact .inr ⟨_, _, [], fun ts => map_nil_append _⟩
    | operator o =>
      cases o with
      | add | sub => exact .inr ⟨_, _, [], fun ts => map_nil_append _⟩
      | mul | div | pow => exact .inl ⟨_, rfl, fun ts => rfl⟩
    | neg | closing => exact .inl ⟨_, rfl, fun ts => rfl⟩
  | parenthesis f =>
    cases t with
    | opening => exact .inr ⟨_, _, [], fun ts => map_nil_append _⟩
    | number | function | operator | neg | closing => exact .inl ⟨_, rfl, fun ts => rfl⟩
  | rest =>
    cases t with
    | operator o =>
      exact .inr ⟨.operator o :: waiting.dropWhile (Waiting.closedBy o), outer,
        (waiting.takeWhile (Waiting.closedBy o)).map Waiting.item,
        fun ts => by cases outer <;> rfl⟩
    | closing =>
      cases outer with
      | nil => exact .inl ⟨_, rfl, fun ts => rfl⟩
      | cons group outer => exact .inr ⟨_, _, _, fun ts => rfl⟩
    | neg => exact .inl ⟨.strayNegation, rfl, fun ts => by cases outer <;> rfl⟩
    | number | function | opening =>
      exact .inl ⟨.missingOperator, rfl, fun ts => by cases outer <;> rfl⟩

/-- A list of tokens is refused whatever follows it, or the pass goes on behind it; what is due
then depends on the tokens alone. -/
theorem pass_append_due (due : Due) (waiting : List Waiting) (outer : List Group)
    (front : List Token) :
    Refuses due waiting outer front ∨ ∃ waiting' outer' items, ∀ ts,
      pass due waiting outer (front ++ ts) =
        (pass (due.after front) waiting' outer' ts).map (items ++ ·) := by
  induction front generalizing due waiting outer with
  | nil => exact .inr ⟨_, _, [], fun ts => map_nil_append _⟩
  | cons t front ih =>
    obtain ⟨fault, hlate, hrefused⟩ | ⟨waiting', outer', items, hpassed⟩ :=
      pass_cons_due due waiting outer t
    · exact .inl ⟨fault, hlate, fun ts => hrefused (front ++ ts)⟩
    · have hpassed (ts : List Token) : pass due waiting outer (t :: front ++ ts) =
          (pass (.behind t) waiting' outer' (front ++ ts)).map (items ++ ·) := hpassed (front ++ ts)
      obtain ⟨fault, hlate, hrefused⟩ | ⟨waiting'', outer'', more, hpassed'⟩ :=
        ih (.behind t) waiting' outer'
      · exact .inl ⟨fault, hlate, fun ts => by rw [hpassed, hrefused]; rfl⟩
      · refine .inr ⟨waiting'', outer'', items ++ more, fun ts => ?_⟩
        rw [hpassed, hpassed']
        show _ = (pass (Due.after (.behind t) front) waiting'' outer'' ts).map _
        cases pass (Due.after (.behind t) front) waiting'' outer'' ts with
        | error fault => rfl
        | ok last => simp [Except.map]

/-- A list of tokens is refused whatever follows it, or the pass goes on behind it. -/
theorem pass_append (due : Due) (waiting : List Waiting) (outer : List Group)
    (front : List Token) : Refuses due waiting outer front ∨ GoesOn due waiting outer front :=
  (pass_append_due due waiting outer front).imp_right fun ⟨waiting', outer', items, hpassed⟩ =>
    ⟨due.after front, waiting', outer', items, hpassed⟩

/-! ## The end of a list -/

/-- Behind an operand the open groups can be closed. -/
theorem pass_closings (waiting : List Waiting) (outer : List Group) :
    ∃ items, pass .rest waiting outer (List.replicate outer.length .closing) = .ok items := by
  induction outer generalizing waiting with
  | nil => exact ⟨_, rfl⟩
  | cons group outer ih =>
    obtain ⟨items, hclosed⟩ := ih group.waiting
    rw [List.length_cons, List.replicate_succ, pass, hclosed]
    exact ⟨_, rfl⟩

/-- Where an operand is due, closing parentheses are refused. -/
theorem pass_closings_of_operand_due (waiting : List Waiting) (outer : List Group)
    (h : due ≠ .rest) (n : Nat) :
    ∃ fault, pass due waiting outer (List.replicate n .closing) = .error fault := by
  cases due with
  | operand | parenthesis f => cases n <;> exact ⟨_, rfl⟩
  | rest => exact absurd rfl h

/-- What can be written where the pass stands to complete an operand. -/
def Due.completion : Due → List Token
  | operand => [.number 0]
  | parenthesis _ => [.opening, .number 0, .closing]
  | rest => []

/-- Where the pass stands, an operand can be completed. -/
theorem pass_completion (due : Due) (waiting : List Waiting) (outer : List Group) :
    ∃ items, ∀ ts, pass due waiting outer (due.completion ++ ts) =
      (pass .rest waiting outer ts).map (items ++ ·) := by
  cases due with
  | operand => exact ⟨[.number 0], fun ts => rfl⟩
  | parenthesis f =>
    refine ⟨[.number 0, .function f], fun ts => ?_⟩
    show ((pass .rest waiting outer ts).map _).map _ = _
    cases pass .rest waiting outer ts <;> rfl
  | rest => exact ⟨[], fun ts => map_nil_append _⟩

/-! ## Four prospects -/

/-- Whether the pass accepts a list of tokens. -/
def Accepts (ts : List Token) : Prop := ∃ items, ofTokens ts = .ok items

/-- Whether the pass refuses a list of tokens with a message. -/
def RefusesWith (message : Text) (ts : List Token) : Prop :=
  ∃ fault, ofTokens ts = .error fault ∧ fault.message = message

/-- What can become of a list of tokens. -/
inductive Prospect
  | accepted
  | unclosed
  | unfinished
  | refused
deriving DecidableEq, Repr

/-- Whether a list of tokens has a prospect: what the pass says of it, and what more tokens
can make of it. -/
def Prospect.Holds (ts : List Token) : Prospect → Prop
  | accepted => Accepts ts
  | unclosed =>
    RefusesWith "parenthèses non fermées".toList ts ∧
      ∃ n, Accepts (ts ++ List.replicate n .closing)
  | unfinished =>
    (RefusesWith "expression vide".toList ts ∨ RefusesWith "expression incomplète".toList ts) ∧
      (∀ n, ¬Accepts (ts ++ List.replicate n .closing)) ∧ ∃ us, Accepts (ts ++ us)
  | refused =>
    ∃ fault, ofTokens ts = .error fault ∧ fault.message ∉ SyntaxFault.earlyMessages ∧
      ∀ us, ofTokens (ts ++ us) = .error fault

/-- The prospect that the answer of the pass tells. -/
def Prospect.told : Except SyntaxFault (List Item) → Prospect
  | .ok _ => accepted
  | .error .unclosedGroup => unclosed
  | .error .noTokens | .error .incomplete => unfinished
  | .error _ => refused

theorem ofTokens_eq_of_refusesWith (early : SyntaxFault) (h : early.isEarlyEnd = true)
    {ts : List Token} (hrefused : RefusesWith early.message ts) : ofTokens ts = .error early := by
  obtain ⟨fault, hanswer, hsame⟩ := hrefused
  rw [hanswer, SyntaxFault.eq_of_message early h hsame]

/-- A list of tokens has no prospect but the one that it is told. -/
theorem Prospect.eq_told {ts : List Token} {p : Prospect} (h : p.Holds ts) :
    p = told (ofTokens ts) := by
  cases p with
  | accepted =>
    obtain ⟨items, hanswer⟩ := h
    rw [hanswer, told]
  | unclosed =>
    rw [ofTokens_eq_of_refusesWith .unclosedGroup rfl h.1, told]
  | unfinished =>
    obtain hempty | hincomplete := h.1
    · rw [ofTokens_eq_of_refusesWith .noTokens rfl hempty, told]
    · rw [ofTokens_eq_of_refusesWith .incomplete rfl hincomplete, told]
  | refused =>
    obtain ⟨fault, hanswer, hother, -⟩ := h
    rw [hanswer]
    rw [SyntaxFault.message_mem_iff] at hother
    cases fault with
    | noTokens | incomplete | unclosedGroup => exact absurd rfl hother
    | _ => rfl

/-- The prospects of a list behind which the pass goes on. -/
theorem exists_prospect_of_goesOn {t : Token} {ts : List Token}
    (h : GoesOn .operand [] [] (t :: ts)) : ∃ p : Prospect, p.Holds (t :: ts) := by
  obtain ⟨due, waiting, outer, items, hpassed⟩ := h
  have hanswer (us : List Token) : ofTokens (t :: ts ++ us) =
      (pass due waiting outer us).map (items ++ ·) := hpassed us
  have hhere : ofTokens (t :: ts) = (pass due waiting outer []).map (items ++ ·) := by
    simpa using hanswer []
  by_cases hdue : due = .rest
  · subst hdue
    obtain ⟨last, hclosed⟩ := pass_closings waiting outer
    cases outer with
    | nil => exact ⟨.accepted, _, hhere⟩
    | cons group outer =>
      refine ⟨.unclosed, ⟨.unclosedGroup, hhere, rfl⟩, (group :: outer).length, items ++ last, ?_⟩
      rw [hanswer, hclosed]
      rfl
  · refine ⟨.unfinished, .inr ⟨.incomplete, ?_, rfl⟩, ?_, ?_⟩
    · rw [hhere]
      cases due with
      | operand | parenthesis f => rfl
      | rest => exact absurd rfl hdue
    · rintro n ⟨last, haccepted⟩
      obtain ⟨fault, hrefused⟩ := pass_closings_of_operand_due waiting outer hdue n
      rw [hanswer, hrefused] at haccepted
      cases haccepted
    · obtain ⟨operand, hcompleted⟩ := pass_completion due waiting outer
      obtain ⟨last, hclosed⟩ := pass_closings waiting outer
      refine ⟨due.completion ++ List.replicate outer.length .closing,
        items ++ (operand ++ last), ?_⟩
      rw [hanswer, hcompleted, hclosed]
      rfl

theorem exists_prospect (ts : List Token) : ∃ p : Prospect, p.Holds ts := by
  cases ts with
  | nil =>
    refine ⟨.unfinished, .inl ⟨.noTokens, rfl, rfl⟩, ?_, [.number 0], _, rfl⟩
    rintro n ⟨items, haccepted⟩
    cases n <;> cases haccepted
  | cons t ts =>
    obtain ⟨fault, hlate, hrefused⟩ | hpassed := pass_append .operand [] [] (t :: ts)
    · have hhere : pass .operand [] [] (t :: ts) = .error fault := by simpa using hrefused []
      refine ⟨.refused, fault, hhere, ?_, hrefused⟩
      rw [SyntaxFault.message_mem_iff, hlate]
      decide
    · exact exists_prospect_of_goesOn hpassed

/-- A list of tokens has one of four prospects, and the fault of the pass tells which: it is
accepted; or parentheses are open, and closing some of them is enough; or something is due that
parentheses do not supply, but other tokens do; or no continuation is accepted, and each is
refused with the same fault. -/
theorem exists_unique_prospect (ts : List Token) : ∃! p : Prospect, p.Holds ts := by
  obtain ⟨p, hholds⟩ := exists_prospect ts
  exact ⟨p, hholds, fun q hq => (Prospect.eq_told hq).trans (Prospect.eq_told hholds).symm⟩

/-- `2*(3` lacks a parenthesis, `2*(` lacks an operand, and nothing mends `2)`. -/
example :
    let front : List Token := [.number 2, .operator .mul, .opening]
    Prospect.told (ofTokens (front ++ [.number 3])) = .unclosed ∧
      Prospect.told (ofTokens front) = .unfinished ∧
      Prospect.told (ofTokens [.number 2, .closing]) = .refused := by
  decide +kernel

end Postfix

end PocketCalculator
