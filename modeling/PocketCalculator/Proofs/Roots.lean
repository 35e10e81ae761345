import PocketCalculator.Notation.Root

/-!
# The expansion of roots

The operand of a root is a numeral, a group or a call (`operand?_kinds`), and in each
case a front of the text (`operand?_eq_some`), so expanding roots loses no character
but the blanks behind a root sign (`mem_of_expandRoots`).
What `expandRoots` gives has no root sign (`rootSign_notMem_of_expandRoots`), and a
text without one is left alone (`expandRoots_of_notMem`).
-/

namespace PocketCalculator.Notation

/-! ## Operands are fronts -/

/-- A numeral is a run of digits in front of the rest, or two of them with a point between. -/
theorem numeral?_kinds {s numeral rest : Text} (h : numeral? s = some (numeral, rest)) :
    s = numeral ++ rest ∧ ∃ whole, whole ≠ [] ∧ whole.all Char.isDigit = true ∧
      (numeral = whole ∨ ∃ fraction, fraction ≠ [] ∧ fraction.all Char.isDigit = true ∧
        numeral = whole ++ '.' :: fraction) := by
  have hfront : s = s.takeWhile Char.isDigit ++ s.dropWhile Char.isDigit :=
    List.takeWhile_append_dropWhile.symm
  unfold numeral? at h
  simp only at h
  split at h
  · cases h
  · rename_i hwhole
    have hwhole : s.takeWhile Char.isDigit ≠ [] := by simpa using hwhole
    split at h
    · rename_i r hrest
      split at h
      · cases h
        exact ⟨hfront, _, hwhole, List.all_takeWhile, .inl rfl⟩
      · rename_i hfraction
        have hfraction : r.takeWhile Char.isDigit ≠ [] := by simpa using hfraction
        cases h
        refine ⟨?_, _, hwhole, List.all_takeWhile,
          .inr ⟨_, hfraction, List.all_takeWhile, rfl⟩⟩
        rw [List.append_assoc, List.cons_append, List.takeWhile_append_dropWhile, ← hrest]
        exact hfront
    · cases h
      exact ⟨hfront, _, hwhole, List.all_takeWhile, .inl rfl⟩

/-- A group ends at the parenthesis that closes it, and goes on at any other character. -/
theorem closing?_cons (depth : Nat) (d : Char) (s : Text) :
    closing? depth (d :: s) =
      if d = ')' ∧ depth = 0 then some ([d], s)
      else
        (closing? (if d = '(' then depth + 1 else if d = ')' then depth - 1 else depth) s).map
          fun split => (d :: split.1, split.2) := by
  rw [closing?.eq_def]
  by_cases hopening : d = '('
  · simp [hopening]
  · by_cases hclosing : d = ')'
    · cases depth <;> simp [hclosing]
    · simp [hopening, hclosing]

/-- What is closed is a front of the text, and the parenthesis that closes it is its last
character. -/
theorem closing?_eq_some {depth : Nat} {s group rest : Text}
    (h : closing? depth s = some (group, rest)) :
    s = group ++ rest ∧ ∃ inner, group = inner ++ [')'] := by
  induction s generalizing depth group with
  | nil => cases h
  | cons c s ih =>
    rw [closing?_cons] at h
    split at h
    case isTrue hclosing =>
      cases h
      exact ⟨rfl, [], congrArg (fun c => [c]) hclosing.1⟩
    case isFalse =>
      obtain ⟨⟨group, rest⟩, hgroup, heq⟩ := Option.map_eq_some_iff.mp h
      cases heq
      obtain ⟨rfl, inner, rfl⟩ := ih hgroup
      exact ⟨rfl, c :: inner, rfl⟩

theorem group?_eq_some_iff {s group rest : Text} :
    group? s = some (group, rest) ↔
      ∃ r inner, s = '(' :: r ∧ group = '(' :: inner ∧ closing? 0 r = some (inner, rest) := by
  constructor
  · intro h
    unfold group? at h
    split at h
    · obtain ⟨⟨inner, rest⟩, hinner, heq⟩ := Option.map_eq_some_iff.mp h
      cases heq
      exact ⟨_, inner, rfl, rfl, hinner⟩
    · cases h
  · rintro ⟨r, inner, rfl, rfl, hinner⟩
    exact Option.map_eq_some_iff.mpr ⟨_, hinner, rfl⟩

theorem group?_eq_some {s group rest : Text} (h : group? s = some (group, rest)) :
    s = group ++ rest ∧ ∃ inner, group = inner ++ [')'] := by
  obtain ⟨r, closed, rfl, rfl, hclosed⟩ := group?_eq_some_iff.mp h
  obtain ⟨rfl, inner, rfl⟩ := closing?_eq_some hclosed
  exact ⟨rfl, '(' :: inner, rfl⟩

/-- The operand of a root is a numeral, a group or a call. -/
theorem operand?_kinds {s operand rest : Text} (h : operand? s = some (operand, rest)) :
    numeral? s = some (operand, rest) ∨ group? s = some (operand, rest) ∨
      ∃ r group, s = rootName ++ r ∧ operand = rootName ++ group ∧
        group? r = some (group, rest) := by
  unfold operand? at h
  split at h
  · rename_i hnumeral
    cases h
    exact .inl hnumeral
  · split at h
    · rename_i r hname
      obtain ⟨⟨group, rest⟩, hgroup, heq⟩ := Option.map_eq_some_iff.mp h
      cases heq
      exact .inr (.inr ⟨r, group, dropLead?_eq_some_iff.mp hname, rfl, hgroup⟩)
    · exact .inr (.inl h)

/-- The operand of a root stands in front of the rest. -/
theorem operand?_eq_some {s operand rest : Text} (h : operand? s = some (operand, rest)) :
    s = operand ++ rest := by
  obtain hnumeral | hgroup | ⟨r, group, rfl, rfl, hgroup⟩ := operand?_kinds h
  · exact (numeral?_kinds hnumeral).1
  · exact (group?_eq_some hgroup).1
  · rw [(group?_eq_some hgroup).1, List.append_assoc]

/-! ## The ends of operands -/

/-- A numeral is written in digits and points. -/
theorem numeral?_figures {s numeral rest : Text} (h : numeral? s = some (numeral, rest)) :
    ∀ c ∈ numeral, c.isDigit = true ∨ c = '.' := by
  have hrun {run : Text} (hdigits : run.all Char.isDigit = true) :
      ∀ c ∈ run, c.isDigit = true ∨ c = '.' := fun c hc =>
    .inl (List.all_eq_true.mp hdigits c hc)
  obtain ⟨-, whole, -, hwhole, rfl | ⟨fraction, -, hfraction, rfl⟩⟩ := numeral?_kinds h
  · exact hrun hwhole
  · rw [List.forall_mem_append, List.forall_mem_cons]
    exact ⟨hrun hwhole, .inr rfl, hrun hfraction⟩

/-- The operand of a root is a numeral, or it ends with a parenthesis. -/
theorem operand?_cases {s operand rest : Text} (h : operand? s = some (operand, rest)) :
    (∀ c ∈ operand, c.isDigit = true ∨ c = '.') ∨ ∃ inner, operand = inner ++ [')'] := by
  obtain hnumeral | hgroup | ⟨r, group, -, rfl, hgroup⟩ := operand?_kinds h
  · exact .inl (numeral?_figures hnumeral)
  · exact .inr (group?_eq_some hgroup).2
  · obtain ⟨-, inner, rfl⟩ := group?_eq_some hgroup
    exact .inr ⟨rootName ++ inner, (List.append_assoc _ _ _).symm⟩

/-! ## Groups -/

/-- A text in parentheses. -/
def enclosed (s : Text) : Text := '(' :: (s ++ [')'])

/-- Whether a text can stand inside a group: the search for the parenthesis that closes
the group runs over it. -/
def Balanced (s : Text) : Prop :=
  ∀ depth rest, closing? depth (s ++ rest) =
    (closing? depth rest).map fun split => (s ++ split.1, split.2)

theorem Balanced.append {a b : Text} (ha : Balanced a) (hb : Balanced b) :
    Balanced (a ++ b) := by
  intro depth rest
  rw [List.append_assoc, ha, hb, Option.map_map]
  simp only [Function.comp_def, List.append_assoc]

theorem balanced_of_notMem {s : Text} (hopening : '(' ∉ s) (hclosing : ')' ∉ s) :
    Balanced s := by
  induction s with
  | nil =>
    intro depth rest
    simp
  | cons c s ih =>
    intro depth rest
    simp only [List.mem_cons, not_or] at hopening hclosing
    rw [List.cons_append, closing?.eq_def]
    simp only [if_neg (Ne.symm hopening.1), if_neg (Ne.symm hclosing.1),
      ih hopening.2 hclosing.2 depth rest, Option.map_map]
    rfl

/-- The parenthesis behind a balanced text closes the group. -/
theorem closing?_balanced {s : Text} (h : Balanced s) (rest : Text) :
    closing? 0 (s ++ ')' :: rest) = some (s ++ [')'], rest) := by
  rw [h]
  rfl

theorem Balanced.enclosed {s : Text} (h : Balanced s) : Balanced (enclosed s) := by
  intro depth rest
  have hclosing : closing? (depth + 1) (')' :: rest) =
      (closing? depth rest).map fun split => (')' :: split.1, split.2) := rfl
  have hopening : closing? depth ('(' :: (s ++ [')'] ++ rest)) =
      (closing? (depth + 1) (s ++ [')'] ++ rest)).map fun split => ('(' :: split.1, split.2) := rfl
  rw [Notation.enclosed, List.cons_append, hopening, List.append_assoc, h, List.singleton_append,
    hclosing, Option.map_map, Option.map_map]
  simp only [Function.comp_def, List.append_assoc, List.cons_append, List.nil_append]

theorem group?_enclosed {s : Text} (h : Balanced s) (rest : Text) :
    group? (enclosed s ++ rest) = some (enclosed s, rest) := by
  have hgroup : group? ('(' :: (s ++ ')' :: rest)) =
      (closing? 0 (s ++ ')' :: rest)).map fun split => ('(' :: split.1, split.2) := rfl
  rw [enclosed, List.cons_append, List.append_assoc, List.singleton_append, hgroup,
    closing?_balanced h]
  rfl

/-- A group is the operand of a root. -/
theorem operand?_enclosed {s : Text} (h : Balanced s) (rest : Text) :
    operand? (enclosed s ++ rest) = some (enclosed s, rest) := by
  have hgroup : operand? (enclosed s ++ rest) = group? (enclosed s ++ rest) := rfl
  rw [hgroup, group?_enclosed h]

/-- A root that is a call already is the operand of a root. -/
theorem operand?_root {s : Text} (h : Balanced s) (rest : Text) :
    operand? (rootName ++ enclosed s ++ rest) = some (rootName ++ enclosed s, rest) := by
  have hnumeral : numeral? (rootName ++ enclosed s ++ rest) = none := rfl
  have hlead : dropLead? rootName (rootName ++ enclosed s ++ rest) = some (enclosed s ++ rest) :=
    dropLead?_eq_some_iff.mpr (List.append_assoc _ _ _)
  rw [operand?, hnumeral]
  simp only [hlead, group?_enclosed h, Option.map_some]

/-! ## Root signs -/

/-- A root sign with an operand becomes a call, and any other character stays. -/
theorem expandRoots_cons_eq_some {c : Char} {raw s : Text} (h : expandRoots (c :: raw) = some s) :
    ∃ behind, expandRoots raw = some behind ∧
      ((c ≠ rootSign ∧ s = c :: behind) ∨
        ∃ operand rest, c = rootSign ∧ operand? (trimStart behind) = some (operand, rest) ∧
          s = rootName ++ '(' :: operand ++ ')' :: rest) := by
  rw [expandRoots] at h
  split at h
  · cases h
  · rename_i behind hbehind
    refine ⟨behind, hbehind, ?_⟩
    split at h
    · rename_i hc
      obtain ⟨⟨operand, rest⟩, hoperand, hsplit⟩ := Option.map_eq_some_iff.mp h
      exact .inr ⟨operand, rest, hc, hoperand, hsplit.symm⟩
    · rename_i hc
      exact .inl ⟨hc, (Option.some.inj h).symm⟩

theorem rootSign_notMem_of_expandRoots {raw s : Text} (h : expandRoots raw = some s) :
    rootSign ∉ s := by
  induction raw generalizing s with
  | nil =>
    cases h
    exact List.not_mem_nil
  | cons c raw ih =>
    obtain ⟨behind, hbehind, ⟨hc, rfl⟩ | ⟨operand, rest, -, hoperand, rfl⟩⟩ :=
      expandRoots_cons_eq_some h
    · simpa using ⟨Ne.symm hc, ih hbehind⟩
    · have hname : rootSign ∉ rootName := by decide
      have hsplit : rootSign ∉ operand ++ rest := by
        rw [← operand?_eq_some hoperand]
        exact fun hmem => ih hbehind ((List.dropWhile_sublist _).mem hmem)
      have hmarks : rootSign ≠ '(' ∧ rootSign ≠ ')' := by decide
      simp only [List.mem_append, List.mem_cons, not_or] at hsplit ⊢
      exact ⟨⟨hname, hmarks.1, hsplit.1⟩, hmarks.2, hsplit.2⟩

theorem expandRoots_append {a s behind : Text} (ha : rootSign ∉ a)
    (hs : expandRoots s = some behind) : expandRoots (a ++ s) = some (a ++ behind) := by
  induction a with
  | nil => exact hs
  | cons c a ih =>
    simp only [List.mem_cons, not_or] at ha
    rw [List.cons_append, expandRoots, ih ha.2]
    exact if_neg (Ne.symm ha.1)

theorem expandRoots_of_notMem {s : Text} (h : rootSign ∉ s) : expandRoots s = some s := by
  have hnothing : expandRoots [] = some [] := rfl
  simpa using expandRoots_append h hnothing

/-- A root sign takes the operand behind the blanks. -/
theorem expandRoots_root {s operand rest : Text} {behind : Text}
    (hs : expandRoots s = some behind) (htrim : trimStart behind = operand ++ rest)
    (hoperand : operand? (operand ++ rest) = some (operand, rest)) :
    expandRoots (rootSign :: s) = some (rootName ++ enclosed operand ++ rest) := by
  rw [expandRoots, hs]
  simp only [htrim, hoperand, if_true, Option.map_some, enclosed]
  simp

/-- What is not blank does not become blank. -/
theorem all_isBlank_of_expandRoots {raw s : Text} (h : expandRoots raw = some s)
    (hblank : s.all isBlank = true) : raw.all isBlank = true := by
  induction raw generalizing s with
  | nil => rfl
  | cons c raw ih =>
    obtain ⟨behind, hbehind, ⟨-, rfl⟩ | ⟨operand, rest, -, -, rfl⟩⟩ := expandRoots_cons_eq_some h
    · rw [List.all_cons, Bool.and_eq_true] at hblank ⊢
      exact ⟨hblank.1, ih hbehind hblank.2⟩
    · rw [List.append_assoc, List.all_append, Bool.and_eq_true] at hblank
      exact absurd hblank.1 (by decide)

/-- Expanding roots drops root signs and the blanks behind them, and no other
character. -/
theorem mem_of_expandRoots {raw s : Text} (h : expandRoots raw = some s) {c : Char}
    (hc : c ∈ raw) : c ∈ s ∨ c = rootSign ∨ isBlank c = true := by
  induction raw generalizing s with
  | nil => cases hc
  | cons d raw ih =>
    obtain ⟨behind, hbehind, ⟨-, rfl⟩ | ⟨operand, rest, rfl, hoperand, rfl⟩⟩ :=
      expandRoots_cons_eq_some h
    · rcases List.mem_cons.mp hc with rfl | hc
      · exact .inl List.mem_cons_self
      · exact (ih hbehind hc).imp_left (List.mem_cons_of_mem d)
    · rcases List.mem_cons.mp hc with hroot | hc
      · exact .inr (.inl hroot)
      · rcases ih hbehind hc with hmem | hother
        · have hsplit : behind = behind.takeWhile isBlank ++ (operand ++ rest) := by
            rw [← operand?_eq_some hoperand]
            exact List.takeWhile_append_dropWhile.symm
          rw [hsplit] at hmem
          rcases List.mem_append.mp hmem with hblank | hmem
          · exact .inr (.inr (List.all_eq_true.mp List.all_takeWhile c hblank))
          · refine .inl ?_
            simp only [List.mem_append, List.mem_cons] at hmem ⊢
            exact hmem.elim (fun hc => .inl (.inr (.inr hc))) fun hc => .inr (.inr hc)
        · exact .inr hother

end PocketCalculator.Notation
