import PocketCalculator.Proofs.Roots.Nesting
import PocketCalculator.Proofs.Typed.Meaning

/-!
# What the expansion of roots is

Roots are expanded from the right, so a root finds its operand in a text that has been rewritten.
That operand is the expansion of one that can be described in the text as it was typed.
`Operand` describes it there, and `Expands` says what becomes of it: a root with the blanks behind
it becomes the opening of a call, the call is closed behind the operand, and every other character
stays.  Neither knows of an order in which roots are expanded.

* `expandRoots_append_iff`, `expandRoots_front` and `expandRoots_enclosed_iff`: a text and its
  expansion, part by part.
* `exists_operand` and `expandRoots_operand`: an operand in the expansion is the expansion of an
  operand in the text, and conversely.
* `expandRoots_eq_some_iff`: what is computed is what is described.
* `expandRoots_eq_none_iff`: it fails exactly at a root that has no operand to its right.
-/

namespace PocketCalculator.Notation

variable {a p raw raw' s rest inner : Text}

/-! ## Operands and expansions -/

/-- Whether a numeral is the longest one at the front of a text. -/
def Figures.Longest (n : Figures) (rest : Text) : Prop :=
  ∀ m : Figures, m.text <+: n.text ++ rest → m.text.length ≤ n.text.length

/-- Whether a text is the operand of a root, with the rest behind it: a numeral, a group, a call,
or a root with its operand. -/
inductive Operand : Text → Text → Prop
  | numeral (n : Figures) {rest : Text} (hlongest : n.Longest rest) : Operand n.text rest
  | group {inner rest : Text} (hnested : Nested inner) : Operand (enclosed inner) rest
  | call {inner rest : Text} (hnested : Nested inner) : Operand (rootName ++ enclosed inner) rest
  | root (gap : Gap) {operand rest : Text} (behind : Operand operand rest) :
      Operand (rootSign :: (gap.text ++ operand)) rest

/-- Whether a text becomes another one when its roots are expanded. -/
inductive Expands : Text → Text → Prop
  | nil : Expands [] []
  | char {c : Char} {raw s : Text} (hplain : c ≠ rootSign) (behind : Expands raw s) :
      Expands (c :: raw) (c :: s)
  | root (gap : Gap) {operand rest operand' rest' : Text} (takes : Operand operand rest)
      (inside : Expands operand operand') (behind : Expands rest rest') :
      Expands (rootSign :: (gap.text ++ operand ++ rest)) (rootName ++ enclosed operand' ++ rest')

/-! ## Part by part -/

/-- A text that an expansion neither changes nor makes: it has no root sign, and not the letter
that a root becomes first. -/
structure Inert (p : Text) : Prop where
  root : rootSign ∉ p
  letter : 'm' ∉ p

theorem inert_gap (gap : Gap) : Inert gap.text := by
  refine ⟨(plain_gap gap).root, fun h => ?_⟩
  exact absurd (Gap.isBlank_of_mem h) (by decide)

theorem figures_text (n : Figures) : ∀ c ∈ n.text, c.isDigit = true ∨ c = '.' := by
  have hfound := numeral?_text n (s := []) nofun
  exact numeral?_figures hfound

theorem inert_figures (n : Figures) : Inert n.text := by
  refine ⟨(plain_figures n).root, fun h => ?_⟩
  obtain hdigit | hpoint := figures_text n _ h
  · cases hdigit
  · cases hpoint

theorem expandRoots_append_iff (h : rootSign ∉ a) :
    expandRoots (a ++ raw) = some s ↔ ∃ s', s = a ++ s' ∧ expandRoots raw = some s' := by
  constructor
  · intro hexpanded
    induction a generalizing s with
    | nil => exact ⟨s, rfl, hexpanded⟩
    | cons c a ih =>
      simp only [List.mem_cons, not_or] at h
      obtain ⟨behind, hbehind, ⟨-, rfl⟩ | ⟨-, -, hroot, -⟩⟩ := expandRoots_cons_eq_some hexpanded
      · obtain ⟨s', rfl, hs'⟩ := ih h.2 hbehind
        exact ⟨s', rfl, hs'⟩
      · exact absurd hroot.symm h.1
  · rintro ⟨s', rfl, hs'⟩
    exact expandRoots_append h hs'

/-- The front of an expansion is the front of the text, where it is not made of roots. -/
theorem expandRoots_front (h : Inert p) (hexpanded : expandRoots raw = some (p ++ s)) :
    ∃ raw', raw = p ++ raw' ∧ expandRoots raw' = some s := by
  induction p generalizing raw with
  | nil => exact ⟨raw, rfl, hexpanded⟩
  | cons c p ih =>
    have hletter : c ≠ 'm' := fun hc => h.letter (hc ▸ List.mem_cons_self)
    have htail : Inert p :=
      ⟨fun hc => h.root (List.mem_cons_of_mem c hc), fun hc => h.letter (List.mem_cons_of_mem c hc)⟩
    cases raw with
    | nil => cases hexpanded
    | cons d raw =>
      obtain ⟨behind, hbehind, ⟨-, hsame⟩ | ⟨_, _, -, -, hsame⟩⟩ :=
        expandRoots_cons_eq_some hexpanded
      · cases hsame
        obtain ⟨raw', rfl, hraw'⟩ := ih htail hbehind
        exact ⟨raw', rfl, hraw'⟩
      · exact absurd (List.cons.inj hsame).1 hletter

theorem prefix_expandRoots_iff (h : Inert p) (hexpanded : expandRoots raw = some s) :
    p <+: s ↔ p <+: raw := by
  constructor
  · rintro ⟨s', rfl⟩
    obtain ⟨raw', rfl, -⟩ := expandRoots_front h hexpanded
    exact ⟨raw', rfl⟩
  · rintro ⟨raw', rfl⟩
    obtain ⟨s', rfl, -⟩ := (expandRoots_append_iff h.root).mp hexpanded
    exact ⟨s', rfl⟩

/-- A group in a text becomes a group. -/
theorem expandRoots_enclosed_iff (hnested : Nested inner) :
    expandRoots (enclosed inner ++ rest) = some s ↔
      ∃ inner' rest', s = enclosed inner' ++ rest' ∧
        expandRoots inner = some inner' ∧ expandRoots rest = some rest' := by
  have hshape (inner rest : Text) : enclosed inner ++ rest = ['('] ++ (inner ++ ')' :: rest) := by
    simp [enclosed]
  rw [hshape, expandRoots_append_iff (by decide)]
  constructor
  · rintro ⟨s', rfl, hexpanded⟩
    obtain ⟨inner', rest', rfl, hinner, hrest⟩ := expandRoots_closing hnested hexpanded
    exact ⟨inner', rest', (hshape inner' rest').symm, hinner, hrest⟩
  · rintro ⟨inner', rest', rfl, hinner, hrest⟩
    exact ⟨inner' ++ ')' :: rest', hshape inner' rest', expandRoots_stop stop_closing hinner hrest⟩

theorem expandRoots_group_iff (hnested : Nested inner) :
    expandRoots (enclosed inner) = some s ↔
      ∃ inner', s = enclosed inner' ∧ expandRoots inner = some inner' := by
  have halone : expandRoots (enclosed inner ++ []) = some s ↔ _ := expandRoots_enclosed_iff hnested
  rw [List.append_nil] at halone
  rw [halone]
  constructor
  · rintro ⟨inner', rest', rfl, hinner, hnothing⟩
    cases hnothing
    exact ⟨inner', List.append_nil _, hinner⟩
  · rintro ⟨inner', rfl, hinner⟩
    exact ⟨inner', [], (List.append_nil _).symm, hinner, rfl⟩

theorem nested_of_expandRoots (hexpanded : expandRoots raw = some s) : Nested s ↔ Nested raw := by
  rw [Nested, Nested, depth?_expandRoots hexpanded]

/-- A group in an expansion was a group. -/
theorem exists_enclosed {inner' rest' : Text} (hnested : Nested inner')
    (hexpanded : expandRoots raw = some (enclosed inner' ++ rest')) :
    ∃ inner rest, raw = enclosed inner ++ rest ∧ Nested inner ∧
      expandRoots inner = some inner' ∧ expandRoots rest = some rest' := by
  have hshape : enclosed inner' ++ rest' = ['('] ++ (inner' ++ ')' :: rest') := by simp [enclosed]
  rw [hshape] at hexpanded
  obtain ⟨raw', rfl, hexpanded'⟩ := expandRoots_front ⟨by decide, by decide⟩ hexpanded
  have hfails : depth? 0 raw' = none := by
    rw [← depth?_expandRoots hexpanded', depth?_eq_none_iff]
    exact ⟨inner', rest', rfl, hnested⟩
  obtain ⟨inner, rest, rfl, hcloses⟩ := depth?_eq_none_iff.mp hfails
  obtain ⟨inner'', rest'', hsplit, hinner, hrest⟩ := expandRoots_closing hcloses hexpanded'
  obtain ⟨rfl, rfl⟩ :=
    closed_unique hsplit hnested ((nested_of_expandRoots hinner).mpr hcloses)
  exact ⟨inner, rest, by simp [enclosed], hcloses, hinner, hrest⟩

/-! ## Numerals -/

/-- What is split off as a numeral is one. -/
theorem exists_figures {numeral : Text} (hfound : numeral? s = some (numeral, rest)) :
    ∃ n : Figures, n.text = numeral := by
  obtain ⟨-, _, hwhole, hdigits, rfl | ⟨_, hfraction, hplaces, rfl⟩⟩ := numeral?_kinds hfound
  · exact ⟨⟨⟨_, hwhole, hdigits⟩, none⟩, rfl⟩
  · exact ⟨⟨⟨_, hwhole, hdigits⟩, some ⟨_, hfraction, hplaces⟩⟩, rfl⟩

/-- No numeral at the front of a text is longer than the one that is split off. -/
theorem exists_numeral (m : Figures) (s : Text) :
    ∃ numeral rest, numeral? (m.text ++ s) = some (numeral, rest) ∧
      m.text.length ≤ numeral.length := by
  obtain ⟨whole, _ | fraction⟩ := m
  · have htake :
        (whole.text ++ s).takeWhile Char.isDigit = whole.text ++ s.takeWhile Char.isDigit :=
      List.takeWhile_append_of_pos whole.isDigit
    have hdrop : (whole.text ++ s).dropWhile Char.isDigit = s.dropWhile Char.isDigit :=
      List.dropWhile_append_of_pos whole.isDigit
    have hsome : (whole.text ++ s.takeWhile Char.isDigit).isEmpty = false := by
      simp [whole.ne_nil]
    simp only [numeral?, Figures.text, htake, hdrop, hsome, Bool.false_eq_true, if_false]
    split
    · split <;> exact ⟨_, _, rfl, by simp⟩
    · exact ⟨_, _, rfl, by simp⟩
  · have htake := whole.takeWhile_append ('.' :: (fraction.text ++ s)) (by simp)
    have hdrop := whole.dropWhile_append ('.' :: (fraction.text ++ s)) (by simp)
    have hplaces : (fraction.text ++ s).takeWhile Char.isDigit =
        fraction.text ++ s.takeWhile Char.isDigit :=
      List.takeWhile_append_of_pos fraction.isDigit
    refine ⟨whole.text ++ '.' :: (fraction.text ++ s.takeWhile Char.isDigit),
      (fraction.text ++ s).dropWhile Char.isDigit, ?_, by simp [Figures.text]⟩
    simp [numeral?, Figures.text, htake, hdrop, whole.ne_nil, fraction.ne_nil, hplaces]

/-- A numeral is split off exactly if it is the longest one. -/
theorem numeral?_of_longest {n : Figures} (hlongest : n.Longest rest) :
    numeral? (n.text ++ rest) = some (n.text, rest) := by
  obtain ⟨numeral, rest', hfound, hatLeast⟩ := exists_numeral n rest
  obtain ⟨m, rfl⟩ := exists_figures hfound
  have hsplit := (numeral?_kinds hfound).1
  have hatMost := hlongest m ⟨rest', hsplit.symm⟩
  obtain ⟨hsame, rfl⟩ := List.append_inj hsplit (Nat.le_antisymm hatLeast hatMost)
  rw [hfound, hsame]

theorem longest_of_numeral? {numeral : Text} (hfound : numeral? s = some (numeral, rest)) :
    ∃ n : Figures, numeral = n.text ∧ n.Longest rest := by
  obtain ⟨n, rfl⟩ := exists_figures hfound
  refine ⟨n, rfl, ?_⟩
  rintro m ⟨behind, hsplit⟩
  obtain ⟨numeral, rest', hfound', hatLeast⟩ := exists_numeral m behind
  rw [hsplit, ← (numeral?_kinds hfound).1, hfound] at hfound'
  cases hfound'
  exact hatLeast

/-- A numeral ends in the expansion where it ends in the text. -/
theorem longest_expandRoots_iff (n : Figures) (hexpanded : expandRoots raw = some s) :
    n.Longest s ↔ n.Longest raw := by
  have hwhole : expandRoots (n.text ++ raw) = some (n.text ++ s) :=
    expandRoots_append (inert_figures n).root hexpanded
  exact forall_congr' fun m => imp_congr (prefix_expandRoots_iff (inert_figures m) hwhole) Iff.rfl

/-! ## Operands -/

theorem operand?_of_longest {n : Figures} (hlongest : n.Longest rest) :
    operand? (n.text ++ rest) = some (n.text, rest) := by
  rw [operand?, numeral?_of_longest hlongest]

/-- An operand is one without the rest behind it. -/
theorem operand?_alone {operand : Text} (hfound : operand? s = some (operand, rest)) :
    operand? operand = some (operand, []) := by
  obtain hnumeral | ⟨inner, hnested, rfl | rfl⟩ := operand?_forms hfound
  · obtain ⟨n, rfl, hlongest⟩ := longest_of_numeral? hnumeral
    have halone : n.Longest [] := by
      rintro m hfront
      exact hlongest m ((List.append_nil n.text ▸ hfront).trans (List.prefix_append _ _))
    simpa using operand?_of_longest halone
  · simpa using operand?_enclosed hnested.balanced []
  · simpa using operand?_root hnested.balanced []

/-- An operand does not start with a blank. -/
theorem trimStart_of_operand? {operand : Text} (hfound : operand? s = some (operand, rest)) :
    trimStart s = s := by
  have hfront : ∃ c behind, s = c :: behind ∧ isBlank c = false := by
    have hsplit := operand?_eq_some hfound
    obtain hnumeral | ⟨inner, -, rfl | rfl⟩ := operand?_forms hfound
    · obtain ⟨n, rfl, -⟩ := longest_of_numeral? hnumeral
      obtain ⟨c, hhead, hdigit⟩ := n.head?_text
      obtain ⟨behind, htext⟩ := List.head?_eq_some_iff.mp hhead
      rw [htext] at hsplit
      exact ⟨c, _, hsplit, Lexeme.isBlank_eq_false (.inr hdigit)⟩
    · exact ⟨'(', _, hsplit, rfl⟩
    · exact ⟨'m', _, hsplit, rfl⟩
  obtain ⟨c, behind, rfl, hplain⟩ := hfront
  exact List.dropWhile_cons_of_neg (by simp [hplain])

/-- The blanks in front of a text are a gap. -/
theorem exists_gap (s : Text) : ∃ gap : Gap, s = gap.text ++ trimStart s := by
  obtain ⟨blanks, hblank, hsplit⟩ := exists_trimStart s
  rw [List.all_eq_true] at hblank
  refine ⟨blanks.attachWith _ hblank, ?_⟩
  rwa [Gap.text, List.attachWith_map_subtype_val]

/-- A root with its operand is a call when it is expanded. -/
theorem expandRoots_gap (gap : Gap) {operand : Text} (hexpanded : expandRoots raw = some s)
    (hfound : operand? s = some (operand, rest)) :
    expandRoots (rootSign :: (gap.text ++ raw)) = some (rootName ++ enclosed operand ++ rest) := by
  have hsplit := operand?_eq_some hfound
  have htrimmed : trimStart (gap.text ++ s) = s :=
    (trimStart_gap_append gap s).trans (trimStart_of_operand? hfound)
  exact expandRoots_root (expandRoots_append (inert_gap gap).root hexpanded)
    (htrimmed.trans hsplit) (hsplit ▸ hfound)

/-- The operand that a root finds in the expansion is the expansion of an operand. -/
theorem exists_operand {operand' rest' : Text} (hexpanded : expandRoots raw = some s)
    (hfound : operand? (trimStart s) = some (operand', rest')) :
    ∃ (gap : Gap) (operand rest : Text), raw = gap.text ++ operand ++ rest ∧
      Operand operand rest ∧
      expandRoots operand = some operand' ∧ expandRoots rest = some rest' := by
  induction raw generalizing s operand' rest' with
  | nil =>
    cases hexpanded
    cases hfound
  | cons c raw ih =>
    obtain ⟨behind, hbehind, ⟨hplain, rfl⟩ | ⟨operand, rest, rfl, hfound', rfl⟩⟩ :=
      expandRoots_cons_eq_some hexpanded
    · cases hblank : isBlank c with
      | true =>
        have htrimmed : trimStart (c :: behind) = trimStart behind :=
          List.dropWhile_cons_of_pos hblank
        rw [htrimmed] at hfound
        obtain ⟨gap, operand, rest, rfl, htakes, hoperand, hrest⟩ := ih hbehind hfound
        exact ⟨⟨c, hblank⟩ :: gap, operand, rest, rfl, htakes, hoperand, hrest⟩
      | false =>
        have htrimmed : trimStart (c :: behind) = c :: behind :=
          List.dropWhile_cons_of_neg (by simp [hblank])
        rw [htrimmed] at hfound
        have hsplit := operand?_eq_some hfound
        refine ⟨[], ?_⟩
        obtain hnumeral | ⟨inner', hnested, rfl | rfl⟩ := operand?_forms hfound
        · obtain ⟨n, rfl, hlongest⟩ := longest_of_numeral? hnumeral
          rw [hsplit] at hexpanded
          obtain ⟨rest, hraw, hrest⟩ := expandRoots_front (inert_figures n) hexpanded
          exact ⟨n.text, rest, hraw, .numeral n ((longest_expandRoots_iff n hrest).mp hlongest),
            expandRoots_of_notMem (inert_figures n).root, hrest⟩
        · rw [hsplit] at hexpanded
          obtain ⟨inner, rest, hraw, hnested', hinner, hrest⟩ := exists_enclosed hnested hexpanded
          exact ⟨enclosed inner, rest, hraw, .group hnested',
            (expandRoots_group_iff hnested').mpr ⟨inner', rfl, hinner⟩, hrest⟩
        · -- The first letter was typed, since it is not a root; so the whole name was.
          have hletters : c :: behind = 'm' :: (rootName.tail ++ (enclosed inner' ++ rest')) :=
            hsplit.trans (List.append_assoc rootName _ _)
          obtain ⟨rfl, rfl⟩ := List.cons.inj hletters
          obtain ⟨called, rfl, hcalled⟩ := expandRoots_front ⟨by decide, by decide⟩ hbehind
          obtain ⟨inner, rest, rfl, hnested', hinner, hrest⟩ := exists_enclosed hnested hcalled
          exact ⟨rootName ++ enclosed inner, rest, rfl, .call hnested',
            expandRoots_append (by decide)
              ((expandRoots_group_iff hnested').mpr ⟨inner', rfl, hinner⟩),
            hrest⟩
    · have hnested := nested_operand hfound'
      have hcall : operand? (rootName ++ enclosed operand ++ rest) =
          some (rootName ++ enclosed operand, rest) := operand?_root hnested.balanced rest
      have htrimmed : trimStart (rootName ++ enclosed operand ++ rest) =
          rootName ++ enclosed operand ++ rest := rfl
      rw [root_eq_call, htrimmed, hcall] at hfound
      cases hfound
      obtain ⟨gap, operand₀, rest₀, rfl, htakes, hoperand, hrest⟩ := ih hbehind hfound'
      refine ⟨[], rootSign :: (gap.text ++ operand₀), rest₀, by simp [Gap.text], .root gap htakes,
        ?_, hrest⟩
      simpa using expandRoots_gap gap hoperand (operand?_alone hfound')

/-! ## What the expansion is -/

/-- The expansion of an operand is the operand that a root finds in the expansion. -/
theorem expandRoots_operand {operand operand' rest' : Text} (htakes : Operand operand rest)
    (hoperand : expandRoots operand = some operand') (hrest : expandRoots rest = some rest') :
    expandRoots (operand ++ rest) = some (operand' ++ rest') ∧
      operand? (operand' ++ rest') = some (operand', rest') := by
  induction htakes generalizing operand' rest' with
  | numeral n hlongest =>
    rw [expandRoots_of_notMem (inert_figures n).root] at hoperand
    cases hoperand
    exact ⟨expandRoots_append (inert_figures n).root hrest,
      operand?_of_longest ((longest_expandRoots_iff n hrest).mpr hlongest)⟩
  | group hnested =>
    obtain ⟨inner', rfl, hinner⟩ := (expandRoots_group_iff hnested).mp hoperand
    have hbalanced := ((nested_of_expandRoots hinner).mpr hnested).balanced
    exact ⟨(expandRoots_enclosed_iff hnested).mpr ⟨inner', rest', rfl, hinner, hrest⟩,
      operand?_enclosed hbalanced rest'⟩
  | call hnested =>
    obtain ⟨called, rfl, hcalled⟩ := (expandRoots_append_iff (by decide)).mp hoperand
    obtain ⟨inner', rfl, hinner⟩ := (expandRoots_group_iff hnested).mp hcalled
    have hbalanced := ((nested_of_expandRoots hinner).mpr hnested).balanced
    have hwhole := (expandRoots_enclosed_iff hnested).mpr ⟨inner', rest', rfl, hinner, hrest⟩
    simp only [List.append_assoc] at *
    exact ⟨expandRoots_append (by decide) hwhole, operand?_root hbalanced rest'⟩
  | root gap hbehind ih =>
    obtain ⟨gapped, hgapped, ⟨hplain, -⟩ | ⟨-, -, -, -, -⟩⟩ := expandRoots_cons_eq_some hoperand
    · exact absurd rfl hplain
    · obtain ⟨inside, rfl, hinside⟩ := (expandRoots_append_iff (inert_gap gap).root).mp hgapped
      obtain ⟨hwhole, hfound⟩ := ih hinside hrest
      rw [expandRoots_gap gap hinside (operand?_alone hfound), List.append_nil] at hoperand
      cases hoperand
      refine ⟨?_, operand?_root (nested_operand hfound).balanced rest'⟩
      rw [List.cons_append, List.append_assoc]
      exact expandRoots_gap gap hwhole hfound

theorem expandRoots_root_of_operand (gap : Gap) {operand operand' rest' : Text}
    (htakes : Operand operand rest) (hoperand : expandRoots operand = some operand')
    (hrest : expandRoots rest = some rest') :
    expandRoots (rootSign :: (gap.text ++ operand ++ rest)) =
      some (rootName ++ enclosed operand' ++ rest') := by
  obtain ⟨hwhole, hfound⟩ := expandRoots_operand htakes hoperand hrest
  rw [List.append_assoc]
  exact expandRoots_gap gap hwhole hfound

/-- What is computed from the right is what is described. -/
theorem expandRoots_eq_some_iff : expandRoots raw = some s ↔ Expands raw s := by
  constructor
  · intro hexpanded
    -- The operand of a root and the rest are shorter than the text.
    induction h : raw.length using Nat.strong_induction_on generalizing raw s with
    | h length ih =>
      cases raw with
      | nil =>
        cases hexpanded
        exact .nil
      | cons c raw =>
        obtain ⟨behind, hbehind, ⟨hplain, rfl⟩ | ⟨operand', rest', rfl, hfound, rfl⟩⟩ :=
          expandRoots_cons_eq_some hexpanded
        · exact .char hplain (ih raw.length (by simp [← h]) hbehind rfl)
        · obtain ⟨gap, operand, rest, rfl, htakes, hoperand, hrest⟩ := exists_operand hbehind hfound
          simp only [List.length_cons, List.length_append] at h
          rw [root_eq_call]
          exact .root gap htakes (ih operand.length (by omega) hoperand rfl)
            (ih rest.length (by omega) hrest rfl)
  · intro hdescribed
    induction hdescribed with
    | nil => rfl
    | char hplain _ ih =>
      rw [expandRoots, ih]
      exact if_neg hplain
    | root gap htakes _ _ hoperand hrest =>
      exact expandRoots_root_of_operand gap htakes hoperand hrest

/-! ## When there is none -/

/-- Whether an operand of a root stands at the front of a text, as far as can be seen there. -/
inductive StartsOperand : Text → Prop
  | digit {c : Char} {s : Text} (hdigit : c.isDigit = true) : StartsOperand (c :: s)
  | root {s : Text} : StartsOperand (rootSign :: s)
  | group {inner rest : Text} (hnested : Nested inner) : StartsOperand (enclosed inner ++ rest)
  | call {inner rest : Text} (hnested : Nested inner) :
      StartsOperand (rootName ++ enclosed inner ++ rest)

theorem Operand.startsOperand {operand : Text} (htakes : Operand operand rest) :
    StartsOperand (operand ++ rest) := by
  cases htakes with
  | numeral n =>
    obtain ⟨c, hhead, hdigit⟩ := n.head?_text
    obtain ⟨behind, htext⟩ := List.head?_eq_some_iff.mp hhead
    rw [htext]
    exact .digit hdigit
  | group hnested => exact .group hnested
  | call hnested => exact .call hnested
  | root => exact .root

theorem StartsOperand.trimStart_eq (h : StartsOperand s) : trimStart s = s := by
  cases h with
  | digit hdigit =>
    exact List.dropWhile_cons_of_neg (by simp [Lexeme.isBlank_eq_false (.inr hdigit)])
  | root | group | call => rfl

/-- An operand at the front is one in the expansion. -/
theorem StartsOperand.exists_operand? (h : StartsOperand raw)
    (hexpanded : expandRoots raw = some s) : ∃ operand rest, operand? s = some (operand, rest) := by
  cases h with
  | @digit c _ hdigit =>
    obtain ⟨behind, -, ⟨-, rfl⟩ | ⟨_, _, rfl, -, -⟩⟩ := expandRoots_cons_eq_some hexpanded
    · let figure : Figures := ⟨⟨[c], by simp, by simp [hdigit]⟩, none⟩
      obtain ⟨numeral, rest, hfound, -⟩ := exists_numeral figure behind
      refine ⟨numeral, rest, ?_⟩
      rw [operand?, show c :: behind = figure.text ++ behind from rfl, hfound]
    · cases hdigit
  | root =>
    obtain ⟨behind, -, ⟨hplain, -⟩ | ⟨operand, rest, -, hfound, rfl⟩⟩ :=
      expandRoots_cons_eq_some hexpanded
    · exact absurd rfl hplain
    · rw [root_eq_call]
      exact ⟨_, _, operand?_root (nested_operand hfound).balanced rest⟩
  | group hnested =>
    obtain ⟨inner', rest', rfl, hinner, -⟩ := (expandRoots_enclosed_iff hnested).mp hexpanded
    exact ⟨_, _, operand?_enclosed ((nested_of_expandRoots hinner).mpr hnested).balanced rest'⟩
  | call hnested =>
    rw [List.append_assoc] at hexpanded
    obtain ⟨called, rfl, hcalled⟩ := (expandRoots_append_iff (by decide)).mp hexpanded
    obtain ⟨inner', rest', rfl, hinner, -⟩ := (expandRoots_enclosed_iff hnested).mp hcalled
    rw [← List.append_assoc]
    exact ⟨_, _, operand?_root ((nested_of_expandRoots hinner).mpr hnested).balanced rest'⟩

/-- A root finds an operand exactly if one stands behind it, blanks aside. -/
theorem exists_operand?_iff (hexpanded : expandRoots raw = some s) :
    (∃ operand rest, operand? (trimStart s) = some (operand, rest)) ↔
      StartsOperand (trimStart raw) := by
  constructor
  · rintro ⟨operand', rest', hfound⟩
    obtain ⟨gap, operand, rest, rfl, htakes, -, -⟩ := exists_operand hexpanded hfound
    have hstarts := htakes.startsOperand
    rwa [List.append_assoc, trimStart_gap_append, hstarts.trimStart_eq]
  · intro hstarts
    obtain ⟨gap, hsplit⟩ := exists_gap raw
    rw [hsplit] at hexpanded
    obtain ⟨s', rfl, hexpanded'⟩ := (expandRoots_append_iff (inert_gap gap).root).mp hexpanded
    obtain ⟨operand, rest, hfound⟩ := hstarts.exists_operand? hexpanded'
    exact ⟨operand, rest, by rw [trimStart_gap_append, trimStart_of_operand? hfound, hfound]⟩

/-- The expansion fails exactly if some root has no operand to its right. -/
theorem expandRoots_eq_none_iff :
    expandRoots raw = none ↔
      ∃ front behind, raw = front ++ rootSign :: behind ∧ ¬StartsOperand (trimStart behind) := by
  induction raw with
  | nil => simp [expandRoots]
  | cons c raw ih =>
    have heither : (∃ front behind, c :: raw = front ++ rootSign :: behind ∧
          ¬StartsOperand (trimStart behind)) ↔
        (c = rootSign ∧ ¬StartsOperand (trimStart raw)) ∨ expandRoots raw = none := by
      rw [ih]
      constructor
      · rintro ⟨_ | ⟨_, front⟩, behind, hsplit, hbad⟩
        · cases hsplit
          exact .inl ⟨rfl, hbad⟩
        · cases hsplit
          exact .inr ⟨front, behind, rfl, hbad⟩
      · rintro (⟨rfl, hbad⟩ | ⟨front, behind, rfl, hbad⟩)
        · exact ⟨[], raw, rfl, hbad⟩
        · exact ⟨c :: front, behind, rfl, hbad⟩
    rw [heither, expandRoots]
    cases hexpanded : expandRoots raw with
    | none => simp
    | some s =>
      by_cases hroot : c = rootSign
      · rw [← exists_operand?_iff hexpanded]
        cases hfound : operand? (trimStart s) with
        | none => simp [hroot, hfound]
        | some split => simpa [hroot, hfound] using ⟨split.1, split.2, rfl⟩
      · simp [hroot]

end PocketCalculator.Notation
