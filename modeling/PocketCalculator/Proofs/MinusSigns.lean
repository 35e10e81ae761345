import PocketCalculator.Proofs.FactorialCalls
import PocketCalculator.Proofs.Reading
import PocketCalculator.Proofs.Taking

/-!
# The minus before a factorial

A minus directly before a factorial is read twice.  The notation looks back over the text and puts
the minus into the call, unless an operand stands before it.  Had it stayed outside, the pass
would have read it as a sign where an operand is due, and as a subtraction behind an operand.

The two readings agree in every accepted text.

* `operandAtEnd_of_reads`: the look back sees what the pass has read.  Only the name of a function
  can mislead it, and behind a name no minus is accepted.
* `Postfix.TakesText.expandFactorials`: putting signs into the calls leaves the text accepted, by
  induction over its minus signs.
-/

namespace PocketCalculator

open Lexeme Notation Postfix

/-! ## What is due behind a text -/

/-- What has no token is a blank. -/
theorem blank_of_ofLexeme {l : Lexeme} (h : Token.ofLexeme l = .ok none) :
    ∃ c, l = mark c ∧ isBlank c = true := by
  cases l with
  | word name =>
    obtain ⟨f, -, hnone⟩ := token_of_word h
    cases hnone
  | number figures =>
    obtain ⟨x, hnone⟩ := token_of_number h
    cases hnone
  | mark c =>
    obtain ⟨-, hsome⟩ | ⟨hblank, -⟩ := token_of_mark h
    · exact absurd rfl hsome
    · exact ⟨c, rfl, hblank⟩

theorem endsOperand_of_isFigure {c : Char} (h : Token.isFigure c = true) :
    endsOperand c = true := by
  obtain hdigit | hpoint := Bool.or_eq_true_iff.mp h
  · exact endsOperand_iff.mpr (.inl hdigit)
  · exact endsOperand_iff.mpr (.inr (by rw [beq_iff_eq.mp hpoint]; decide))

/-- A lexeme ends in an operand if its token does; the name of a function may end in a digit. -/
theorem operandAtEnd_text {l : Lexeme} {t : Token} (hproper : l.Proper Token.isFigure)
    (hl : Token.ofLexeme l = .ok (some t)) (ht : ∀ f, t ≠ .function f) (before : Bool) :
    operandAtEnd before l.text = decide (Due.behind t = .rest) := by
  cases l with
  | word name =>
    obtain ⟨f, -, hfunction⟩ := token_of_word hl
    exact absurd (Option.some.inj hfunction) (ht f)
  | number figures =>
    obtain ⟨hne, hfigures⟩ := hproper
    have hvisible : ∀ c ∈ figures, isBlank c = false := by
      intro c hc
      rw [← Bool.not_eq_true]
      intro hblank
      have hfigure := (hfigures c hc).2
      rw [(not_isFigure_of_isBlank hblank).2] at hfigure
      cases hfigure
    have hends : endsOperand (figures.getLast hne) = true :=
      endsOperand_of_isFigure (hfigures _ (List.getLast_mem hne)).2
    obtain ⟨x, hnumber⟩ := token_of_number hl
    cases hnumber
    rw [Lexeme.text, operandAtEnd_of_visible hne hvisible, List.getLast?_eq_getLast_of_ne_nil hne]
    exact hends
  | mark c =>
    have hl : Token.ofMark c = .ok (some t) := hl
    unfold Token.ofMark at hl
    split at hl
    case h_7 => split at hl <;> cases hl
    all_goals
      cases hl
      rfl

/-- Whether a text ends in an operand is whether the operand is complete behind its tokens, unless
they end in the name of a function.  `before` and `due` say what stands in front. -/
theorem operandAtEnd_of_reads {ls : List Lexeme} {ts : List Token} (h : Reads ls ts)
    (hproper : ∀ l ∈ ls, l.Proper Token.isFigure) {due : Due} {before : Bool}
    (hbefore : ts = [] → before = decide (due = .rest))
    (hname : ∀ f, due.after ts ≠ .parenthesis f) :
    operandAtEnd before (render ls) = decide (due.after ts = .rest) := by
  induction h generalizing due before with
  | nil => exact hbefore rfl
  | @power rest ts hrest ih =>
    have hproper := (List.forall_mem_cons.mp (List.forall_mem_cons.mp hproper).2).2
    have hbehind : operandAtEnd false (render rest) = decide (Due.operand.after ts = .rest) :=
      ih hproper (fun _ => rfl) hname
    exact hbehind
  | @lexeme l t rest ts hl hrest ih =>
    obtain ⟨hlexeme, hbehind⟩ := List.forall_mem_cons.mp hproper
    rw [render_cons, operandAtEnd_append]
    cases t with
    | none =>
      obtain ⟨c, rfl, hc⟩ := blank_of_ofLexeme hl
      have hskip : operandAtEnd before (mark c).text = before := if_pos hc
      rw [hskip]
      exact ih hbehind hbefore hname
    | some t =>
      have hlast (hts : ts = []) :
          operandAtEnd before l.text = decide (Due.behind t = .rest) := by
        refine operandAtEnd_text hlexeme hl (fun f hf => hname f ?_) before
        rw [hts, hf]
        rfl
      exact ih hbehind hlast hname

/-- Tokens end in the name of a function where the text ends in a word. -/
theorem after_of_word {ls : List Lexeme} {ts : List Token} (h : Reads ls ts) {name : Text}
    (hword : word name ∈ ls.getLast?) (due : Due) : ∃ f, due.after ts = .parenthesis f := by
  induction h generalizing due with
  | nil => cases hword
  | @power rest ts hrest ih =>
    cases rest with
    | nil => cases hword
    | cons r rest => exact ih (by simpa using hword) .operand
  | @lexeme l t rest ts hl hrest ih =>
    cases rest with
    | nil =>
      cases hrest
      cases hword
      obtain ⟨f, -, rfl⟩ := token_of_word hl
      exact ⟨f, rfl⟩
    | cons r rest =>
      have hrest : word name ∈ (r :: rest).getLast? := by simpa using hword
      cases t with
      | none => exact ih hrest due
      | some t => exact ih hrest (.behind t)

/-! ## Calls of the factorial -/

namespace Postfix

/-- The tokens of a call of the factorial. -/
def callTokens (n : Figures) : List Token :=
  [.function .factorial, .opening, .number n.value, .closing]

/-- The tokens of a call of the factorial on a numeral with a sign. -/
def signedCallTokens (n : Figures) : List Token :=
  [.function .factorial, .opening, .operator .sub, .number n.value, .closing]

theorem pass_call (n : Figures) (waiting : List Waiting) (outer : List Group) (ts : List Token) :
    pass .operand waiting outer (callTokens n ++ ts) =
      (pass .rest waiting outer ts).map ([.number n.value, .function .factorial] ++ ·) := by
  show (Except.map _ (Except.map _ (pass .rest waiting outer ts))) = _
  cases pass .rest waiting outer ts <;> rfl

theorem pass_signedCall (n : Figures) (waiting : List Waiting) (outer : List Group)
    (ts : List Token) :
    pass .operand waiting outer (signedCallTokens n ++ ts) =
      (pass .rest waiting outer ts).map ([.number n.value, .neg, .function .factorial] ++ ·) := by
  show (Except.map _ (Except.map _ (pass .rest waiting outer ts))) = _
  cases pass .rest waiting outer ts <;> rfl

theorem takes_call_iff {n : Figures} {outer : List Group} {ts : List Token} :
    Takes .operand outer (callTokens n ++ ts) ↔ Takes .rest outer ts :=
  takes_of_passed (pass_call n [] outer ts)

theorem takes_signedCall_iff {n : Figures} {outer : List Group} {ts : List Token} :
    Takes .operand outer (signedCallTokens n ++ ts) ↔ Takes .rest outer ts :=
  takes_of_passed (pass_signedCall n [] outer ts)

end Postfix

namespace Token

theorem read_cons_minus (s : Text) : read ('-' :: s) = (read s).map (operator .sub :: ·) :=
  read_cons_mark (by decide) rfl rfl rfl s

theorem read_append_minus (a b : Text) :
    read (a ++ '-' :: b) = (read a).bind fun ts => (read b).map (ts ++ operator .sub :: ·) := by
  rw [read_append_mark (by decide) rfl rfl, read_cons_minus]
  cases read a with
  | error fault => rfl
  | ok ts => cases read b <;> rfl

theorem read_call_append (numeral : Text) (s : Text) :
    read (call numeral ++ s) = (read numeral).bind fun ts =>
      (read s).map ([function .factorial, opening] ++ ts ++ closing :: ·) := by
  have hname : read Function.factorial.text = .ok [function .factorial] := rfl
  have htext : call numeral ++ s = Function.factorial.text ++ '(' :: (numeral ++ ')' :: s) := by
    simp [call]
  rw [htext, read_append_mark (by decide) rfl rfl, hname, read_cons_mark (by decide) rfl rfl rfl,
    read_append_mark (by decide) rfl rfl, read_cons_mark (by decide) rfl rfl rfl]
  cases read numeral with
  | error fault => rfl
  | ok ts => cases read s <;> simp [Except.bind, Except.map]

theorem read_call (n : Figures) (s : Text) :
    read (call n.text ++ s) = (read s).map (callTokens n ++ ·) := by
  rw [read_call_append, read_figures]
  rfl

theorem read_signedCall (n : Figures) (s : Text) :
    read (call ('-' :: n.text) ++ s) = (read s).map (signedCallTokens n ++ ·) := by
  rw [read_call_append, read_cons_minus, read_figures]
  rfl

end Token

/-! ## Accepted texts -/

namespace Postfix

/-- Whether the tokens of a text are taken where `due` is due and the groups `outer` are open. -/
def TakesText (due : Due) (outer : List Group) (s : Text) : Prop :=
  ∃ ts, Token.read s = .ok ts ∧ Takes due outer ts

/-- A text is accepted if its tokens are taken from the start. -/
theorem ofText_iff {s : Text} : (∃ items, ofText s = .ok items) ↔ TakesText .operand [] s := by
  constructor
  · rintro ⟨items, hitems⟩
    obtain ⟨ts, hts, hpass⟩ := exists_ok_of_bind hitems
    cases ts with
    | nil => cases hpass
    | cons t ts => exact ⟨_, hts, items, hpass⟩
  · rintro ⟨ts, hts, items, hpass⟩
    refine ⟨items, ?_⟩
    rw [ofText, hts]
    cases ts with
    | nil => cases hpass
    | cons t ts => exact hpass

/-- The text `a` is read as `ts`, and its tokens lead to a place where `outer'` are open. -/
structure Leads (due : Due) (outer : List Group) (a : Text) (ts : List Token)
    (outer' : List Group) : Prop where
  read : Token.read a = .ok ts
  takes : ∀ more, Takes due outer (ts ++ more) ↔ Takes (due.after ts) outer' more

section

variable {due : Due} {outer outer' : List Group} {a b s s' : Text} {ts front : List Token}
  {n : Figures} {numeral : Text}

theorem takesText_iff_of_read (hread : Token.read s' = (Token.read s).map (front ++ ·)) :
    TakesText due outer s' ↔ ∃ ts, Token.read s = .ok ts ∧ Takes due outer (front ++ ts) := by
  unfold TakesText
  rw [hread]
  constructor
  · rintro ⟨ts, hts, htakes⟩
    obtain ⟨us, hus, rfl⟩ := exists_ok_of_map hts
    exact ⟨us, hus, htakes⟩
  · rintro ⟨us, hus, htakes⟩
    exact ⟨front ++ us, by rw [hus]; rfl, htakes⟩

theorem takesText_minus_iff :
    TakesText due outer ('-' :: s) ↔ (∀ f, due ≠ .parenthesis f) ∧ TakesText .operand outer s := by
  have hread : Token.read ('-' :: s) = (Token.read s).map ([.operator .sub] ++ ·) :=
    Token.read_cons_minus s
  rw [takesText_iff_of_read hread]
  simp only [List.singleton_append, takes_minus_iff, TakesText]
  tauto

theorem takesText_call_iff :
    TakesText .operand outer (call n.text ++ s) ↔ TakesText .rest outer s := by
  rw [takesText_iff_of_read (Token.read_call n s)]
  simp only [takes_call_iff, TakesText]

theorem takesText_signedCall_iff :
    TakesText .operand outer (call ('-' :: n.text) ++ s) ↔ TakesText .rest outer s := by
  rw [takesText_iff_of_read (Token.read_signedCall n s)]
  simp only [takes_signedCall_iff, TakesText]

/-- Where a text is taken over a minus, the text before it leads to a place where an operand is
due or complete. -/
theorem TakesText.before_minus (h : TakesText due outer (a ++ '-' :: b)) :
    ∃ ts outer', Leads due outer a ts outer' ∧ (∀ f, due.after ts ≠ .parenthesis f) ∧
      TakesText .operand outer' b := by
  obtain ⟨all, hall, items, hitems⟩ := h
  rw [Token.read_append_minus] at hall
  obtain ⟨ts, hts, hmap⟩ := exists_ok_of_bind hall
  obtain ⟨us, hus, rfl⟩ := exists_ok_of_map hmap
  obtain ⟨waiting, outer', front, hpassed⟩ := exists_passed hitems
  have hleads : Leads due outer a ts outer' := ⟨hts, fun more => takes_of_passed (hpassed more)⟩
  obtain ⟨hdue, hbehind⟩ := takes_minus_iff.mp ((hleads.takes _).mp ⟨items, hitems⟩)
  exact ⟨ts, outer', hleads, hdue, us, hus, hbehind⟩

theorem Due.operand_or_rest (h : ∀ f, due ≠ .parenthesis f) : due = .operand ∨ due = .rest := by
  cases due with
  | operand => exact .inl rfl
  | parenthesis f => exact absurd rfl (h f)
  | rest => exact .inr rfl

/-- Texts are taken one behind the other if they are read so. -/
theorem Leads.append (h : Leads due outer a ts outer')
    (hread : Token.read (a ++ b) = (Token.read a).bind fun ts => (Token.read b).map (ts ++ ·))
    (hb : TakesText (due.after ts) outer' b) : TakesText due outer (a ++ b) := by
  obtain ⟨us, hus, htakes⟩ := hb
  refine ⟨ts ++ us, ?_, (h.takes us).mpr htakes⟩
  rw [hread, h.read, hus]
  rfl

theorem Leads.append_minus (h : Leads due outer a ts outer')
    (hname : ∀ f, due.after ts ≠ .parenthesis f) (hb : TakesText .operand outer' b) :
    TakesText due outer (a ++ '-' :: b) :=
  h.append (Token.read_append_mark (by decide) rfl rfl a b) (takesText_minus_iff.mpr ⟨hname, hb⟩)

theorem Leads.append_call (h : Leads due outer a ts outer') (hdue : due.after ts = .operand)
    (hb : TakesText .operand outer' (call numeral ++ b)) :
    TakesText due outer (a ++ (call numeral ++ b)) := by
  -- The name of the call does not run into a word, because behind a name no operand is due.
  have hword (name : Text) : word name ∉ (split Token.isFigure a).getLast? := by
    intro hmem
    obtain ⟨f, hf⟩ := after_of_word (reads_of_ofLexemes h.read) hmem due
    rw [hdue] at hf
    cases hf
  exact h.append (Token.read_append_word rfl hword _) (hdue ▸ hb)

/-- A minus outside a call is read as a sign where an operand is due, and as a subtraction behind
an operand; and nothing else is due there. -/
theorem TakesText.readsMinus (h : TakesText .operand [] (a ++ '-' :: (call n.text ++ b))) :
    ∃ ts us, Token.read a = .ok ts ∧
      Token.read (a ++ '-' :: (call n.text ++ b)) =
        .ok (ts ++ .operator .sub :: (callTokens n ++ us)) ∧
      (Due.after .operand ts = .operand ∧ ReadsMinus ts .neg ∨
        Due.after .operand ts = .rest ∧ ReadsMinus ts (.operator .sub)) := by
  obtain ⟨ts, outer, hleads, hname, hbehind⟩ := h.before_minus
  obtain ⟨us, hus, -⟩ := (takesText_iff_of_read (Token.read_call n b)).mp hbehind
  have hread : Token.read (a ++ '-' :: (call n.text ++ b)) =
      .ok (ts ++ .operator .sub :: (callTokens n ++ us)) := by
    rw [Token.read_append_minus, hleads.read, Token.read_call, hus]
    rfl
  obtain ⟨all, hall, htaken⟩ := h
  obtain rfl := Except.ok.inj (hall.symm.trans hread)
  obtain ⟨hsign, hoperator⟩ := readsMinus_after htaken
  refine ⟨ts, us, hleads.read, hread, ?_⟩
  obtain hdue | hdue := Due.operand_or_rest hname
  · exact .inl ⟨hdue, hsign hdue⟩
  · exact .inr ⟨hdue, hoperator hdue⟩

end

/-! ## The two readings -/

/-- What the text in front of a minus tells of the tokens: the look back of `expandFactorials`
finds an operand where the pass has read one. -/
theorem operandBehind_eq_after {ls : List Lexeme} (hcut : Cut Char.isDigit ls) {ts : List Token}
    (hread : Token.read (render (expandOutside ls)) = .ok ts) (due : Due)
    (hname : ∀ f, due.after ts ≠ .parenthesis f) :
    operandBehind (decide (due = .rest)) ls = decide (due.after ts = .rest) := by
  have hreads : Reads (split Token.isFigure (render (expandOutside ls))) ts :=
    reads_of_ofLexemes hread
  have hbefore : ts = [] → decide (due = .rest) = decide (due = .rest) := fun _ => rfl
  rw [← operandAtEnd_expandOutside hcut, ← render_split Token.isFigure (render (expandOutside ls))]
  exact operandAtEnd_of_reads hreads (fun l hl => (cut_split _ _).proper hl) hbefore hname

/-- If the text is accepted with every minus outside the calls, then it is accepted as it is. -/
theorem TakesText.expandFactorials {ls : List Lexeme} (hcut : Cut Char.isDigit ls) {due : Due}
    {outer : List Group} (h : TakesText due outer (render (expandOutside ls))) :
    TakesText due outer (render (Notation.expandFactorials (decide (due = .rest)) ls)) := by
  induction ls using minus_induction generalizing due outer with
  | free a ha => rwa [expandFactorials_eq_expandOutside hcut ha]
  | minus a b ha iha ihb =>
    obtain ⟨hcutA, hcutB⟩ := hcut.of_append
    rw [expandOutside_joint joint_minus, render_append] at h
    obtain ⟨ts, outer', hleads, hname, hb⟩ := TakesText.before_minus h
    have hb := ihb hcutB.tail hb
    rw [render_expandFactorials_append, expandFactorials_eq_expandOutside hcutA ha,
      operandBehind_eq_after hcutA hleads.read due hname]
    by_cases hstart : startsFactorial b = true
    · obtain ⟨n, rest, rfl⟩ := exists_factorial hcutB.tail hstart
      rw [expandFactorials_numeral, render_factorialCall, render_numeral] at hb
      rw [render_expandFactorials_minus]
      obtain hdue | hdue := Due.operand_or_rest hname
      · rw [hdue]
        refine hleads.append_call hdue (takesText_signedCall_iff.mpr ?_)
        exact takesText_call_iff.mp hb
      · rw [hdue]
        exact hleads.append_minus hname hb
    · rw [Bool.not_eq_true] at hstart
      rw [expandFactorials_of_not rfl (fun _ => hstart)]
      exact hleads.append_minus hname hb

end Postfix

/-! ## The normalized text -/

namespace Notation

/-- The text in which factorial signs are turned into calls. -/
def beforeFactorials? (raw : Text) : Option Text :=
  (expandRoots raw).map fun s => render (expandPowers (insertProducts (split Char.isDigit s)))

/-- The last steps of the normalization, `factorials` being the one that turns factorial signs
into calls. -/
def withFactorials (factorials : List Lexeme → List Lexeme) (t : Text) : Text :=
  render (qualify (factorials (split Char.isDigit t)))

/-- The normalization with `factorials` as the step that turns factorial signs into calls. -/
def normalizeWith (factorials : List Lexeme → List Lexeme) (raw : Text) : Except Error Text :=
  if raw.all isBlank then .error .emptyInput
  else
    match beforeFactorials? raw with
    | none => .error .malformedRoot
    | some t => .ok (withFactorials factorials t)

theorem normalizeWith_expandFactorials (raw : Text) :
    normalizeWith (expandFactorials false) raw = normalize raw := by
  unfold normalizeWith normalize beforeFactorials? withFactorials
  split
  · rfl
  · cases expandRoots raw with
    | none => rfl
    | some s =>
      have hcut := cut_expandPowers (cut_insertProducts (cut_split Char.isDigit s))
      simp only [Option.map_some, split_render hcut]
      rfl

theorem exists_of_normalizeWith {factorials : List Lexeme → List Lexeme} {raw y : Text}
    (h : normalizeWith factorials raw = .ok y) :
    ∃ t, beforeFactorials? raw = some t ∧ y = withFactorials factorials t := by
  unfold normalizeWith at h
  split at h
  · cases h
  · split at h
    · cases h
    · rename_i t ht
      exact ⟨t, ht, (Except.ok.inj h).symm⟩

theorem withFactorials_expandFactorials (before : Bool) (t : Text) :
    withFactorials (expandFactorials before) t =
      render (expandFactorials before (qualify (split Char.isDigit t))) := by
  rw [withFactorials, expandFactorials_qualify (cut_split _ t)]

theorem withFactorials_expandOutside (t : Text) :
    withFactorials expandOutside t = render (expandOutside (qualify (split Char.isDigit t))) := by
  rw [withFactorials, expandOutside_qualify (cut_split _ t)]

/-- The lexemes of a text with a factorial behind a minus. -/
theorem qualify_split_minus (p q : Text) (n : Figures) :
    qualify (split Char.isDigit (p ++ '-' :: (n.text ++ '!' :: q))) =
      qualify (split Char.isDigit p) ++
        mark '-' :: (Stage.rooted.numeral n ++ mark '!' :: qualify (split Char.isDigit q)) := by
  have hcut : Cut Char.isDigit (Stage.rooted.numeral n ++ mark '!' :: split Char.isDigit q) :=
    (cut_numeral .rooted n).append (cut_mark_cons.mpr ⟨⟨rfl, rfl⟩, cut_split _ q⟩) (by simp)
  have hsplit := split_render hcut
  rw [render_append, render_numeral, render_cons, render_split] at hsplit
  have hsplit : split Char.isDigit (n.text ++ '!' :: q) =
      Stage.rooted.numeral n ++ mark '!' :: split Char.isDigit q := hsplit
  rw [split_append_mark rfl rfl, hsplit, qualify_joint joint_minus,
    qualify_append_of_noWord (word_notMem_numeral n), qualify_mark]

theorem withFactorials_expandOutside_minus (p q : Text) (n : Figures) :
    withFactorials expandOutside (p ++ '-' :: (n.text ++ '!' :: q)) =
      withFactorials expandOutside p ++
        '-' :: (call n.text ++ withFactorials expandOutside q) := by
  rw [withFactorials_expandOutside, qualify_split_minus, expandOutside_joint joint_minus,
    expandOutside_numeral, render_append, render_cons, render_factorialCall, render_numeral,
    withFactorials_expandOutside, withFactorials_expandOutside]
  rfl

theorem withFactorials_expandFactorials_minus (p q : Text) (n : Figures) :
    withFactorials (expandFactorials false) (p ++ '-' :: (n.text ++ '!' :: q)) =
      withFactorials (expandFactorials false) p ++
        ((if operandBehind false (qualify (split Char.isDigit p)) then '-' :: call n.text
            else call ('-' :: n.text)) ++
          withFactorials (expandFactorials true) q) := by
  rw [withFactorials_expandFactorials, qualify_split_minus, render_expandFactorials_append,
    render_expandFactorials_minus, withFactorials_expandFactorials,
    withFactorials_expandFactorials]

theorem call_append_ne (numeral s s' : Text) : call numeral ++ s ≠ '-' :: s' := by
  intro h
  exact absurd (List.cons.inj h).1 (by decide)

variable {raw y y' : Text} {items' : List Item}

/-- The minus in front of a factorial is read alike in the text and by the pass.  Let `y'` be the
normal form in which every such minus stands outside the call.  If it is accepted, then the normal
form `y` is accepted; and a minus has gone into the call in `y` if and only if the pass reads it
in `y'` as a sign, and has stayed outside if and only if the pass reads it as a subtraction. -/
theorem minus_before_factorial_agrees (hy : normalize raw = .ok y)
    (hy' : normalizeWith expandOutside raw = .ok y')
    (haccepted : Postfix.ofText y' = .ok items') :
    (∃ items, Postfix.ofText y = .ok items) ∧
      ∀ (p q : Text) (n : Figures),
        beforeFactorials? raw = some (p ++ '-' :: (n.text ++ '!' :: q)) →
          ∃ ts us,
            y' = withFactorials expandOutside p ++
                '-' :: (call n.text ++ withFactorials expandOutside q) ∧
              Token.read (withFactorials expandOutside p) = .ok ts ∧
              Token.read y' = .ok (ts ++ .operator .sub :: (Postfix.callTokens n ++ us)) ∧
              (Postfix.ReadsMinus ts .neg ∨ Postfix.ReadsMinus ts (.operator .sub)) ∧
              (y = withFactorials (expandFactorials false) p ++
                  (call ('-' :: n.text) ++ withFactorials (expandFactorials true) q) ↔
                Postfix.ReadsMinus ts .neg) ∧
              (y = withFactorials (expandFactorials false) p ++
                  '-' :: (call n.text ++ withFactorials (expandFactorials true) q) ↔
                Postfix.ReadsMinus ts (.operator .sub)) := by
  rw [← normalizeWith_expandFactorials] at hy
  obtain ⟨t, ht, rfl⟩ := exists_of_normalizeWith hy
  obtain ⟨t', ht', rfl⟩ := exists_of_normalizeWith hy'
  obtain rfl : t' = t := Option.some.inj (ht'.symm.trans ht)
  have htakes : Postfix.TakesText .operand [] (withFactorials expandOutside t') :=
    Postfix.ofText_iff.mp ⟨items', haccepted⟩
  constructor
  · rw [Postfix.ofText_iff, withFactorials_expandFactorials]
    rw [withFactorials_expandOutside] at htakes
    exact htakes.expandFactorials (cut_qualify (cut_split _ t'))
  · intro p q n hpq
    obtain rfl : t' = p ++ '-' :: (n.text ++ '!' :: q) := Option.some.inj (ht'.symm.trans hpq)
    rw [withFactorials_expandOutside_minus] at htakes ⊢
    rw [withFactorials_expandFactorials_minus]
    obtain ⟨ts, us, hread, hreadAll, hreads⟩ := htakes.readsMinus
    have hbefore (hname : ∀ f, Postfix.Due.after .operand ts ≠ .parenthesis f) :
        operandBehind false (qualify (split Char.isDigit p)) =
          decide (Postfix.Due.after .operand ts = .rest) := by
      rw [withFactorials_expandOutside] at hread
      exact Postfix.operandBehind_eq_after (cut_qualify (cut_split _ p)) hread .operand hname
    refine ⟨ts, us, rfl, hread, hreadAll, hreads.imp And.right And.right, ?_⟩
    obtain ⟨hdue, hsign⟩ | ⟨hdue, hoperator⟩ := hreads
    · rw [hbefore (by simp [hdue]), hdue]
      refine ⟨iff_of_true rfl hsign, iff_of_false ?_ ?_⟩
      · intro h
        exact call_append_ne _ _ _ (List.append_cancel_left h)
      · intro h
        cases hsign.unique h
    · rw [hbefore (by simp [hdue]), hdue]
      refine ⟨iff_of_false ?_ ?_, iff_of_true rfl hoperator⟩
      · intro h
        exact call_append_ne _ _ _ (List.append_cancel_left h).symm
      · intro h
        cases hoperator.unique h

/-- In `2 -3!*(-4.5!)` the first minus is a subtraction and the second one is a sign. -/
theorem minus_before_factorial_subtraction_and_sign :
    let raw := "2 -3!*(-4.5!)".toList
    let y := "2 -factorial(3)*(factorial(-4.5))".toList
    let y' := "2 -factorial(3)*(-factorial(4.5))".toList
    normalize raw = .ok y ∧ normalizeWith expandOutside raw = .ok y' ∧
      (∃ items, Postfix.ofText y' = .ok items) ∧ (∃ items, Postfix.ofText y = .ok items) ∧
      (∃ ts, Token.read "2 ".toList = .ok ts ∧ Postfix.ReadsMinus ts (.operator .sub)) ∧
      ∃ ts, Token.read "2 -factorial(3)*(".toList = .ok ts ∧ Postfix.ReadsMinus ts .neg := by
  intro raw y y'
  have hy : normalize raw = .ok y := by decide +kernel
  have hy' : normalizeWith expandOutside raw = .ok y' := by decide +kernel
  have hitems : Postfix.ofText y' = .ok
      [.number (Decimal.toFloat ⟨2, 0⟩), .number (Decimal.toFloat ⟨3, 0⟩), .function .factorial,
        .number (Decimal.toFloat ⟨45, -1⟩), .function .factorial, .neg, .operator .mul,
        .operator .sub] := rfl
  obtain ⟨haccepted, hminus⟩ := minus_before_factorial_agrees hy hy' hitems
  let three : Figures := ⟨⟨['3'], by decide, by decide⟩, none⟩
  let decimal : Figures := ⟨⟨['4'], by decide, by decide⟩, some ⟨['5'], by decide, by decide⟩⟩
  obtain ⟨ts, -, -, hread, -, -, -, houtside⟩ :=
    hminus "2 ".toList "*(-4.5!)".toList three (by decide +kernel)
  obtain ⟨ts', -, -, hread', -, -, hinside, -⟩ :=
    hminus "2 -3!*(".toList ")".toList decimal (by decide +kernel)
  exact ⟨hy, hy', ⟨_, hitems⟩, haccepted, ⟨ts, hread, houtside.mp (by decide +kernel)⟩,
    ts', hread', hinside.mp (by decide +kernel)⟩

end Notation

end PocketCalculator
