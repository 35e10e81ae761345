import PocketCalculator.Proofs.Rereading
import PocketCalculator.Proofs.Runs.Calculator

/-!
# Using a result again

An evaluation leaves its result in the entry line, and the memory is recalled into it.  Either
can be evaluated at once.  This gives the same number again as long as the number is shown
without an exponent, and a message otherwise (`reuse_of_result`).
-/

namespace PocketCalculator

namespace Calculator

open Display (isPlain reread)

variable {lib : Elementary} {c : Calculator} {v : Float}

/-- The message for a text with an exponent. -/
def exponentMessage : Text := Error.message (.malformed (.unknownName ['e']))

/-- An evaluation that succeeds: no message is shown, and the entry line has a result. -/
theorem evaluation?_eq_ok_iff :
    c.evaluation? lib = some ⟨c.entry, .ok v⟩ ↔
      c.showsMessage = false ∧ compute lib c.entry = .ok v := by
  cases hshown : c.showsMessage with
  | true => simp [evaluation?, hshown]
  | false => simp [evaluation?_of_not_shown hshown]

/-- A result stands in the entry line as any text does, and it has what its text is read as for
a result. -/
theorem compute_equals (hshown : c.showsMessage = false) (hcomputed : compute lib c.entry = .ok v) :
    (c.equals lib).showsMessage = false ∧ (c.equals lib).entry = Display.result v ∧
      compute lib (c.equals lib).entry =
        if isPlain v then .ok (reread v) else .error (.malformed (.unknownName ['e'])) := by
  have hfinite : v.isFinite = true := isFinite_of_compute hcomputed
  rw [equals_of_ok hshown hcomputed]
  exact ⟨hshown, rfl, Display.compute_result lib hfinite⟩

/-- A result without an exponent is a result again. -/
theorem equals_again_of_plain (hshown : c.showsMessage = false)
    (hcomputed : compute lib c.entry = .ok v) (hplain : isPlain v = true) :
    (c.equals lib).evaluation? lib = some ⟨Display.result v, .ok (reread v)⟩ ∧
      ((c.equals lib).equals lib).mode = .result ∧
      ((c.equals lib).equals lib).entry = Display.result v := by
  obtain ⟨hshown', hentry, hagain⟩ := compute_equals hshown hcomputed
  rw [if_pos hplain] at hagain
  rw [evaluation?_of_not_shown hshown', equals_of_ok hshown' hagain, hagain, hentry]
  refine ⟨rfl, ?_, Display.result_reread v⟩
  rw [mode, hshown']
  rfl

/-- A result with an exponent becomes a message. -/
theorem equals_again_of_not_plain (hshown : c.showsMessage = false)
    (hcomputed : compute lib c.entry = .ok v) (hplain : isPlain v = false) :
    (c.equals lib).evaluation? lib =
        some ⟨Display.result v, .error (.malformed (.unknownName ['e']))⟩ ∧
      ((c.equals lib).equals lib).mode = .message ∧
      ((c.equals lib).equals lib).entry = exponentMessage := by
  obtain ⟨hshown', hentry, hagain⟩ := compute_equals hshown hcomputed
  rw [if_neg (by rw [hplain]; decide)] at hagain
  rw [evaluation?_of_not_shown hshown', equals_of_error hshown' hagain, hagain, hentry]
  exact ⟨rfl, rfl, rfl⟩

theorem preview_memoryRecall (hfinite : c.engine.memory.isFinite = true) :
    (c.memoryRecall lib).preview =
      if isPlain c.engine.memory then "→ ".toList ++ Display.result c.engine.memory else [] := by
  have hpreview : (c.memoryRecall lib).preview =
      previewOf (compute lib (Display.result c.engine.memory)) := by
    simp [memoryRecall, leaveResult, refresh, focus]
  rw [hpreview, Display.compute_result lib hfinite]
  cases isPlain c.engine.memory with
  | true => exact congrArg ("→ ".toList ++ ·) (Display.result_reread _)
  | false => rfl

/-- A shown number can be used again exactly if it is shown without an exponent: by computing
it, by evaluating a result once more, and by recalling it from the memory. -/
theorem reuse_of_result (lib : Elementary) :
    (∀ v : Float, v.isFinite = true →
      (reread v == v) = true ∧
        compute lib (Display.result v) =
          if isPlain v then .ok (reread v) else .error (.malformed (.unknownName ['e']))) ∧
    (∀ (c : Calculator) (v : Float), c.evaluation? lib = some ⟨c.entry, .ok v⟩ →
      let once := c.equals lib
      let twice := once.equals lib
      once.entry = Display.result v ∧
        if isPlain v then
          once.evaluation? lib = some ⟨once.entry, .ok (reread v)⟩ ∧
            twice.mode = .result ∧ twice.entry = once.entry
        else
          once.evaluation? lib =
              some ⟨once.entry, .error (.malformed (.unknownName ['e']))⟩ ∧
            twice.mode = .message ∧ twice.entry = exponentMessage) ∧
    ∀ c : Calculator, c.engine.memory.isFinite = true →
      let recalled := c.memoryRecall lib
      recalled.entry = Display.result c.engine.memory ∧
        recalled.preview =
          if isPlain c.engine.memory then "→ ".toList ++ Display.result c.engine.memory
          else [] := by
  refine ⟨?_, ?_, ?_⟩
  · intro v hfinite
    exact ⟨Display.reread_beq hfinite, Display.compute_result lib hfinite⟩
  · intro c v hevaluated once twice
    obtain ⟨hshown, hcomputed⟩ := evaluation?_eq_ok_iff.mp hevaluated
    have hentry : once.entry = Display.result v := by
      show (c.equals lib).entry = _
      rw [equals_of_ok hshown hcomputed]
    refine ⟨hentry, ?_⟩
    rw [hentry]
    cases hplain : isPlain v with
    | true => exact equals_again_of_plain hshown hcomputed hplain
    | false => exact equals_again_of_not_plain hshown hcomputed hplain
  · intro c hfinite recalled
    refine ⟨?_, preview_memoryRecall hfinite⟩
    show Display.result c.leaveMessage.engine.memory = _
    rw [engine_leaveMessage]

theorem reuse_of_result_eighth :
    let c := ({} : Calculator).insert Elementary.machine "1/8".toList
    let once := c.equals Elementary.machine
    let twice := once.equals Elementary.machine
    compute Elementary.machine "0.125".toList = .ok 0.125 ∧
      twice.mode = .result ∧ twice.entry = "0.125".toList ∧
      (once.memoryAdd.memoryRecall Elementary.machine).preview = "→ 0.125".toList := by
  intro c once twice
  have htext : Display.result 0.125 = "0.125".toList := by decide +kernel
  have hplain : isPlain 0.125 = true := by decide +kernel
  have hvalue : reread 0.125 = 0.125 := by decide +kernel
  have hcomputed : compute Elementary.machine c.entry = .ok 0.125 := by decide +kernel
  have hmemory : once.memoryAdd.engine.memory = 0.125 := by decide +kernel
  obtain ⟨hreading, hevaluating, hrecalling⟩ := reuse_of_result Elementary.machine
  obtain ⟨-, hread⟩ := hreading 0.125 (by decide +kernel)
  obtain ⟨hentry, hagain⟩ :=
    hevaluating c 0.125 (evaluation?_eq_ok_iff.mpr ⟨rfl, hcomputed⟩)
  obtain ⟨-, hpreview⟩ := hrecalling once.memoryAdd (by rw [hmemory]; decide +kernel)
  rw [if_pos hplain] at hagain
  rw [htext, if_pos hplain, hvalue] at hread
  rw [hmemory, if_pos hplain, htext] at hpreview
  exact ⟨hread, hagain.2.1, hagain.2.2.trans (hentry.trans htext), hpreview⟩

/-- A product of `10 ^ 21` is shown, but it cannot be used again. -/
theorem large_result_refused :
    let c := ({} : Calculator).insert Elementary.machine "1000000000000*1000000000".toList
    let once := c.equals Elementary.machine
    let twice := once.equals Elementary.machine
    (1e21 : Float).isFinite = true ∧ Display.result 1e21 = "1e+21".toList ∧
      compute Elementary.machine "1e+21".toList = .error (.malformed (.unknownName ['e'])) ∧
      c.evaluation? Elementary.machine = some ⟨c.entry, .ok 1e21⟩ ∧
      once.entry = "1e+21".toList ∧ twice.mode = .message ∧
      (once.memoryAdd.memoryRecall Elementary.machine).engine.memory = 1e21 ∧
      (once.memoryAdd.memoryRecall Elementary.machine).preview = [] := by
  intro c once twice
  have hcomputed : compute Elementary.machine c.entry = .ok 1e21 := by decide +kernel
  have hevaluated : c.evaluation? Elementary.machine = some ⟨c.entry, .ok 1e21⟩ :=
    evaluation?_eq_ok_iff.mpr ⟨rfl, hcomputed⟩
  refine ⟨?_, ?_, ?_, hevaluated, ?_, ?_, ?_, ?_⟩ <;> decide +kernel

end Calculator

end PocketCalculator
