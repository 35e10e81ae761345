import PocketCalculator.Text.Lexeme

/-!
# Lexemes that stay apart

`Lexeme.split` cuts a text into proper lexemes of which no two neighbours
would run together (`Lexeme.cut_split`).  Such a list is the one that its own
text is cut into (`Lexeme.split_render`), so texts and lists of that kind can
be exchanged for each other.

A cut in which fewer characters count as figures is finer: it cuts the lexemes of
the coarser one again (`Lexeme.split_refine`).
-/

namespace PocketCalculator.Lexeme

variable {figure : Char → Bool}

@[simp] theorem render_append (a b : List Lexeme) : render (a ++ b) = render a ++ render b :=
  List.flatMap_append

/-- The lexemes that cutting makes. -/
def Proper (figure : Char → Bool) : Lexeme → Prop
  | word name => (∃ c ∈ name.head?, startsWord c = true) ∧
      ∀ c ∈ name, startsWord c = true ∨ figure c = true
  | number figures => figures ≠ [] ∧ ∀ c ∈ figures, startsWord c = false ∧ figure c = true
  | mark c => startsWord c = false ∧ figure c = false

/-- `Proper` as a test. -/
def isProper (figure : Char → Bool) : Lexeme → Bool
  | word name => name.head?.any startsWord && name.all fun c => startsWord c || figure c
  | number figures => !figures.isEmpty && figures.all fun c => !startsWord c && figure c
  | mark c => !startsWord c && !figure c

theorem isProper_iff {l : Lexeme} : l.isProper figure = true ↔ l.Proper figure := by
  cases l <;> simp [isProper, Proper, Option.any_eq_true]

instance (figure : Char → Bool) (l : Lexeme) : Decidable (l.Proper figure) :=
  decidable_of_iff _ isProper_iff

/-- Whether two lexemes can stand side by side.  A word would draw a number or a
word behind it into itself, and two numbers would be one. -/
def Apart : Lexeme → Lexeme → Prop
  | word _, word _ => False
  | word _, number _ => False
  | number _, number _ => False
  | _, _ => True

/-- Proper lexemes that stay apart. -/
def Cut (figure : Char → Bool) : List Lexeme → Prop
  | [] => True
  | l :: rest => l.Proper figure ∧ (∀ r ∈ rest.head?, l.Apart r) ∧ Cut figure rest

theorem cut_cons {l : Lexeme} {rest : List Lexeme} :
    Cut figure (l :: rest) ↔
      l.Proper figure ∧ (∀ r ∈ rest.head?, l.Apart r) ∧ Cut figure rest := Iff.rfl

theorem Cut.tail {l : Lexeme} {rest : List Lexeme} (h : Cut figure (l :: rest)) :
    Cut figure rest := h.2.2

theorem Cut.proper {l : Lexeme} {ls : List Lexeme} (h : Cut figure ls) (hl : l ∈ ls) :
    l.Proper figure := by
  induction ls with
  | nil => cases hl
  | cons m ls ih =>
    rcases List.mem_cons.mp hl with rfl | hl
    · exact h.1
    · exact ih h.tail hl

@[simp] theorem apart_mark (c : Char) (l : Lexeme) : (mark c).Apart l := by
  cases l <;> trivial

@[simp] theorem word_apart_iff {name : Text} {l : Lexeme} :
    (word name).Apart l ↔ ∃ c, l = mark c := by
  cases l <;> simp [Apart]

@[simp] theorem number_apart_iff {figures : Text} {l : Lexeme} :
    (number figures).Apart l ↔ ∀ more, l ≠ number more := by
  cases l <;> simp [Apart]

@[simp] theorem apart_before_mark (l : Lexeme) (c : Char) : l.Apart (mark c) := by
  cases l <;> trivial

theorem cut_mark_cons {c : Char} {rest : List Lexeme} :
    Cut figure (mark c :: rest) ↔ (mark c).Proper figure ∧ Cut figure rest := by
  simp [cut_cons]

/-- What follows a word is a mark. -/
theorem Cut.after_word {name : Text} {rest : List Lexeme} (h : Cut figure (word name :: rest)) :
    rest = [] ∨ ∃ c rest', rest = mark c :: rest' := by
  cases rest with
  | nil => exact .inl rfl
  | cons r rest =>
    cases r with
    | mark c => exact .inr ⟨c, rest, rfl⟩
    | word | number => exact absurd (h.2.1 _ rfl) (by simp [Apart])

theorem Cut.append {a b : List Lexeme} (ha : Cut figure a) (hb : Cut figure b)
    (hjoint : ∀ x ∈ a.getLast?, ∀ y ∈ b.head?, x.Apart y) : Cut figure (a ++ b) := by
  induction a with
  | nil => exact hb
  | cons l a ih =>
    obtain ⟨hl, hnext, ha⟩ := ha
    cases a with
    | nil => exact ⟨hl, hjoint l rfl, hb⟩
    | cons m a => exact ⟨hl, hnext, ih ha fun x hx => hjoint x (by simpa using hx)⟩

/-- The two parts of lexemes that stay apart. -/
theorem Cut.of_append {a b : List Lexeme} (h : Cut figure (a ++ b)) :
    Cut figure a ∧ Cut figure b := by
  induction a with
  | nil => exact ⟨trivial, h⟩
  | cons l a ih =>
    obtain ⟨ha, hb⟩ := ih h.tail
    refine ⟨⟨h.1, fun r hr => h.2.1 r ?_, ha⟩, hb⟩
    cases a with
    | nil => cases hr
    | cons m a => exact hr

/-- A character that belongs to no word and no number stands in the text as a mark. -/
theorem Cut.mark_mem {c : Char} {ls : List Lexeme} (h : Cut figure ls) (hc : c ∈ render ls)
    (hword : startsWord c = false) (hfigure : figure c = false) : mark c ∈ ls := by
  obtain ⟨l, hl, hmem⟩ := List.mem_flatMap.mp hc
  have hproper := h.proper hl
  cases l with
  | word name =>
    have := hproper.2 c hmem
    simp [hword, hfigure] at this
  | number figures =>
    have := hproper.2 c hmem
    simp [hfigure] at this
  | mark d =>
    obtain rfl : c = d := by simpa [text] using hmem
    exact hl

theorem toNat_of_startsWord {c : Char} (h : startsWord c = true) :
    0x41 ≤ c.toNat ∧ c.toNat ≤ 0x7A := by
  rcases Bool.or_eq_true_iff.mp h with hletter | hunderscore
  · rcases Bool.or_eq_true_iff.mp hletter with hupper | hlower
    · have hupper : 0x41 ≤ c.toNat ∧ c.toNat ≤ 0x5A := by
        simpa [UInt32.le_iff_toNat_le] using of_decide_eq_true hupper
      omega
    · have hlower : 0x61 ≤ c.toNat ∧ c.toNat ≤ 0x7A := by
        simpa [UInt32.le_iff_toNat_le] using Bool.and_eq_true_iff.mp hlower
      omega
  · have hc : c = '_' := by simpa using hunderscore
    rw [hc]
    decide

/-- Digits begin no word. -/
theorem startsWord_of_isDigit {c : Char} (h : c.isDigit = true) : startsWord c = false := by
  have hdigit : c.toNat ≤ 0x39 := (Char.isDigit_iff_toNat.mp h).2
  rw [← Bool.not_eq_true]
  intro hstart
  have := (toNat_of_startsWord hstart).1
  omega

/-- Letters and digits are not blank. -/
theorem isBlank_eq_false {c : Char} (h : startsWord c = true ∨ c.isDigit = true) :
    isBlank c = false := by
  have hcode : (0x30 ≤ c.toNat ∧ c.toNat ≤ 0x39) ∨ (0x41 ≤ c.toNat ∧ c.toNat ≤ 0x7A) :=
    h.symm.imp Char.isDigit_iff_toNat.mp toNat_of_startsWord
  simp only [isBlank, Bool.or_eq_false_iff, Bool.and_eq_false_iff, decide_eq_false_iff_not,
    beq_eq_false_iff_ne]
  omega

theorem not_startsWord_of_isBlank {c : Char} (h : isBlank c = true) :
    startsWord c = false ∧ c.isDigit = false := by
  have hplain : ¬(startsWord c = true ∨ c.isDigit = true) := by
    intro hc
    rw [isBlank_eq_false hc] at h
    cases h
  simpa [not_or] using hplain

/-! ## Cutting keeps lexemes apart -/

theorem cut_push {c : Char} {ls : List Lexeme} (h : Cut figure ls) :
    Cut figure (push figure c ls) := by
  unfold push
  split
  · rename_i hc
    split
    · rename_i figures name rest
      obtain ⟨⟨-, hfigures⟩, -, ⟨-, hname⟩, hnext, hrest⟩ := h
      refine ⟨⟨⟨c, rfl, hc⟩, ?_⟩, by simpa using hnext, hrest⟩
      intro d hd
      simp only [List.mem_append, List.mem_cons] at hd
      rcases hd with (rfl | hd) | hd
      · exact .inl hc
      · exact .inr (hfigures d hd).2
      · exact hname d hd
    · rename_i figures rest hword
      obtain ⟨⟨-, hfigures⟩, hnext, hrest⟩ := h
      refine ⟨⟨⟨c, rfl, hc⟩, ?_⟩, ?_, hrest⟩
      · intro d hd
        rcases List.mem_cons.mp hd with rfl | hd
        · exact .inl hc
        · exact .inr (hfigures d hd).2
      · rcases rest with _ | ⟨_ | _ | _, rest⟩
        · simp
        · exact absurd rfl (hword _ _)
        · simp at hnext
        · simp
    · rename_i name rest
      obtain ⟨⟨-, hname⟩, hnext, hrest⟩ := h
      refine ⟨⟨⟨c, rfl, hc⟩, ?_⟩, by simpa using hnext, hrest⟩
      intro d hd
      rcases List.mem_cons.mp hd with rfl | hd
      · exact .inl hc
      · exact hname d hd
    · rename_i hnumber hword
      refine ⟨⟨⟨c, rfl, hc⟩, by simpa using .inl hc⟩, ?_, h⟩
      rcases ls with _ | ⟨_ | _ | _, rest⟩
      · simp
      · exact absurd rfl (hword _ _)
      · exact absurd rfl (hnumber _ _)
      · simp
  · rename_i hc
    split
    · rename_i hfigure
      split
      · rename_i figures rest
        obtain ⟨⟨-, hfigures⟩, hnext, hrest⟩ := h
        refine ⟨⟨by simp, ?_⟩, by simpa using hnext, hrest⟩
        intro d hd
        rcases List.mem_cons.mp hd with rfl | hd
        · exact ⟨by simpa using hc, hfigure⟩
        · exact hfigures d hd
      · rename_i hnumber
        refine ⟨⟨by simp, by simp [hc, hfigure]⟩, ?_, h⟩
        rcases ls with _ | ⟨_ | _ | _, rest⟩
        · simp
        · simp
        · exact absurd rfl (hnumber _ _)
        · simp
    · rename_i hfigure
      exact cut_mark_cons.mpr ⟨⟨by simpa using hc, by simpa using hfigure⟩, h⟩

theorem cut_split (figure : Char → Bool) (s : Text) : Cut figure (split figure s) := by
  induction s with
  | nil => trivial
  | cons c s ih => exact cut_push ih

/-! ## Lexemes that stay apart are cut apart -/

/-- What a letter in front of lexemes draws into its word, and the lexemes behind. -/
def lead : List Lexeme → Text × List Lexeme
  | number figures :: word name :: rest => (figures ++ name, rest)
  | number figures :: rest => (figures, rest)
  | word name :: rest => (name, rest)
  | rest => ([], rest)

theorem push_of_startsWord {c : Char} (hc : startsWord c = true) (ls : List Lexeme) :
    push figure c ls = word (c :: (lead ls).1) :: (lead ls).2 := by
  unfold push lead
  rw [if_pos hc]
  split <;> simp_all

theorem push_of_figure {c : Char} (hc : startsWord c = false) (hfigure : figure c = true)
    {ls : List Lexeme} (hls : ∀ r ∈ ls.head?, ∀ figures, r ≠ number figures) :
    push figure c ls = number [c] :: ls := by
  unfold push
  rw [if_neg (by simp [hc]), if_pos hfigure]
  split
  · exact absurd rfl (hls _ rfl _)
  · rfl

theorem lead_push_of_figure {c : Char} (hc : startsWord c = false) (hfigure : figure c = true)
    (ls : List Lexeme) :
    lead (push figure c ls) = (c :: (lead ls).1, (lead ls).2) := by
  unfold push
  rw [if_neg (by simp [hc]), if_pos hfigure]
  rcases ls with _ | ⟨name | figures | d, _ | ⟨name' | figures' | d', rest⟩⟩ <;> rfl

/-- The characters of a word are drawn together up to the next mark. -/
theorem lead_split_append {t s : Text} (ht : ∀ c ∈ t, startsWord c = true ∨ figure c = true)
    (hs : ∀ r ∈ (split figure s).head?, ∃ c, r = mark c) :
    lead (split figure (t ++ s)) = (t, split figure s) := by
  induction t with
  | nil =>
    rw [List.nil_append]
    rcases hsplit : split figure s with _ | ⟨r, rest⟩
    · rfl
    · obtain ⟨c, rfl⟩ := hs r (by simp [hsplit])
      rfl
  | cons c t ih =>
    have hlead := ih fun d hd => ht d (List.mem_cons_of_mem c hd)
    rw [List.cons_append, split_cons]
    cases hc : startsWord c with
    | true =>
      rw [push_of_startsWord hc, hlead]
      rfl
    | false =>
      have hfigure : figure c = true := by simpa [hc] using ht c List.mem_cons_self
      rw [lead_push_of_figure hc hfigure, hlead]

/-- A proper lexeme in front of a text is cut off, if the rest of the text begins
with a lexeme that it stays apart from. -/
theorem split_text_append {l : Lexeme} {s : Text} (hl : l.Proper figure)
    (hs : ∀ r ∈ (split figure s).head?, l.Apart r) :
    split figure (l.text ++ s) = l :: split figure s := by
  cases l with
  | word name =>
    obtain ⟨⟨c, hhead, hc⟩, hname⟩ := hl
    obtain ⟨t, rfl⟩ : ∃ t, name = c :: t := by
      cases name <;> simp_all
    have hlead := lead_split_append (fun d hd => hname d (List.mem_cons_of_mem c hd))
      (by simpa using hs)
    rw [text, List.cons_append, split_cons, push_of_startsWord hc, hlead]
  | number figures =>
    obtain ⟨hne, hfigures⟩ := hl
    rw [text]
    induction figures with
    | nil => exact absurd rfl hne
    | cons c figures ih =>
      obtain ⟨hc, hfigure⟩ := hfigures c List.mem_cons_self
      rw [List.cons_append, split_cons]
      cases figures with
      | nil => exact push_of_figure hc hfigure (by simpa using hs)
      | cons d figures =>
        rw [ih (by simpa using hs) (by simp) fun d hd => hfigures d (List.mem_cons_of_mem c hd)]
        simp [push, hc, hfigure]
  | mark c =>
    obtain ⟨hc, hfigure⟩ := hl
    simp [text, push, hc, hfigure]

/-- The text of lexemes that stay apart is cut into them. -/
theorem split_render {ls : List Lexeme} (h : Cut figure ls) : split figure (render ls) = ls := by
  induction ls with
  | nil => rfl
  | cons l ls ih =>
    obtain ⟨hl, hnext, hls⟩ := h
    rw [render_cons, split_text_append hl (by rwa [ih hls]), ih hls]

/-- Two texts are cut one after the other if their lexemes stay apart at the joint. -/
theorem split_append {a b : Text}
    (hjoint : ∀ x ∈ (split figure a).getLast?, ∀ y ∈ (split figure b).head?, x.Apart y) :
    split figure (a ++ b) = split figure a ++ split figure b := by
  have hcut := (cut_split figure a).append (cut_split figure b) hjoint
  rw [← split_render hcut, render_append, render_split, render_split]

theorem split_mark_cons {c : Char} (hword : startsWord c = false)
    (hfigure : figure c = false) (s : Text) :
    split figure (c :: s) = mark c :: split figure s := by
  simp [push, hword, hfigure]

theorem split_append_mark {c : Char} (hword : startsWord c = false) (hfigure : figure c = false)
    (a b : Text) : split figure (a ++ c :: b) = split figure a ++ mark c :: split figure b := by
  rw [← split_mark_cons hword hfigure]
  apply split_append
  intro x _ y hy
  rw [split_mark_cons hword hfigure] at hy
  cases hy
  exact apart_before_mark x c

/-! ## Finer cuts -/

section Finer

variable {fine coarse : Char → Bool}

theorem split_mark_of_finer (hfine : ∀ c, fine c = true → coarse c = true) {c : Char}
    (h : (mark c).Proper coarse) (s : Text) : split fine (c :: s) = mark c :: split fine s := by
  apply split_mark_cons h.1
  have hcoarse : coarse c = false := h.2
  rw [← Bool.not_eq_true] at hcoarse ⊢
  exact mt (hfine c) hcoarse

/-- The first lexeme of a finer cut is a word or a mark where the first lexeme of the
coarser cut is one. -/
theorem head?_split_text_append (hfine : ∀ c, fine c = true → coarse c = true) {l : Lexeme}
    (hl : l.Proper coarse) (hnumber : ∀ figures, l ≠ number figures) (s : Text) :
    ∀ y ∈ (split fine (l.text ++ s)).head?,
      (∃ a b, l = word a ∧ y = word b) ∨ ∃ c, l = mark c ∧ y = mark c := by
  intro y hy
  cases l with
  | number figures => exact absurd rfl (hnumber figures)
  | word name =>
    obtain ⟨⟨c, hhead, hc⟩, -⟩ := hl
    obtain ⟨t, rfl⟩ : ∃ t, name = c :: t := by
      cases name <;> simp_all
    rw [text, List.cons_append, split_cons, push_of_startsWord hc] at hy
    exact .inl ⟨_, _, rfl, (Option.some.inj hy).symm⟩
  | mark c =>
    rw [text, List.singleton_append, split_mark_of_finer hfine hl] at hy
    exact .inr ⟨c, rfl, (Option.some.inj hy).symm⟩

/-- A number is cut into numbers and marks. -/
theorem ne_word_of_mem_split {figures : Text} (h : (number figures).Proper coarse) {x : Lexeme}
    (hx : x ∈ split fine figures) (name : Text) : x ≠ word name := by
  rintro rfl
  obtain ⟨⟨c, hhead, hstart⟩, -⟩ := (cut_split fine figures).proper hx
  have hc : c ∈ figures := by
    rw [← render_split fine figures]
    exact List.mem_flatMap.mpr ⟨_, hx, List.mem_of_mem_head? hhead⟩
  simp [(h.2 c hc).1] at hstart

/-- Lexemes that stay apart stay apart when they are cut again. -/
theorem Apart.of_finer (hfine : ∀ c, fine c = true → coarse c = true) {l r : Lexeme}
    (hl : l.Proper coarse) (hr : r.Proper coarse) (h : l.Apart r) (s : Text) :
    ∀ x ∈ (split fine l.text).getLast?, ∀ y ∈ (split fine (r.text ++ s)).head?, x.Apart y := by
  intro x hx y hy
  have hx := List.mem_of_getLast? hx
  cases l with
  | word name =>
    obtain ⟨c, rfl⟩ := word_apart_iff.mp h
    rcases head?_split_text_append hfine hr (by simp) s y hy with ⟨_, _, hword, -⟩ | ⟨_, -, rfl⟩
    · cases hword
    · simp
  | number figures =>
    have hnumber := number_apart_iff.mp h
    rcases head?_split_text_append hfine hr hnumber s y hy with ⟨_, _, -, rfl⟩ | ⟨_, -, rfl⟩
    · cases x with
      | word name => exact absurd rfl (ne_word_of_mem_split hl hx name)
      | number | mark => simp
    · simp
  | mark c =>
    rw [text, split_mark_of_finer hfine hl] at hx
    rw [List.mem_singleton.mp hx]
    simp

/-- Where more characters count as figures, lexemes are longer: cutting each of them
again gives the finer cut. -/
theorem split_refine (hfine : ∀ c, fine c = true → coarse c = true) (s : Text) :
    split fine s = (split coarse s).flatMap fun l => split fine l.text := by
  have hrefine {ls : List Lexeme} (h : Cut coarse ls) :
      split fine (render ls) = ls.flatMap fun l => split fine l.text := by
    induction ls with
    | nil => rfl
    | cons l rest ih =>
      obtain ⟨hl, hnext, hrest⟩ := h
      rw [render_cons, List.flatMap_cons, ← ih hrest]
      apply split_append
      cases rest with
      | nil => simp
      | cons r behind => exact (hnext r rfl).of_finer hfine hl hrest.1 (render behind)
  rw [← hrefine (cut_split coarse s), render_split]

end Finer

end PocketCalculator.Lexeme
