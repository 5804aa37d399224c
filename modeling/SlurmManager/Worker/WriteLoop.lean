import SlurmManager.Worker.Framing
import Mathlib.Logic.Relation

/-!
# WriteLoop — the loops of `Write` end

`write` is defined on buffers that fit, by recursion on what a pass leaves of the data.  Here the outer loop
is taken as the code has it, on any buffer.

* `Turn`: one pass of the loop; `loop`: the loop with a bound on the number of passes.
* `loop_eq_write`: with as many passes as there are bytes, `loop` is `write`.
* `cut_bounds`: a full buffer is cut within its last three bytes, or not at all.
* `write_loop`: from a buffer that fits, at most as many passes as there are bytes, each of which takes a
  byte and leaves a buffer that fits.
-/

namespace SlurmManager.Worker

/-! ## The code -/

section Code

/-- The loop goes on: there is data, and this is what one pass makes of it. -/
def Turn (s s' : Bytes × Bytes) : Prop := s.2 ≠ [] ∧ s' = (pass s.1 s.2).2

/-- At most `fuel` passes; `none` if the data is not taken by then. -/
def loop : ℕ → Bytes → Bytes → Option (List Chunk × Bytes)
  | _, buffer, [] => some ([], buffer)
  | 0, _, _ :: _ => none
  | fuel + 1, buffer, b :: data =>
    (loop fuel (pass buffer (b :: data)).2.1 (pass buffer (b :: data)).2.2).map fun r =>
      ((pass buffer (b :: data)).1 ++ r.1, r.2)

/-- The buffer of a pass when its lines have been sent. -/
def filled (buffer data : Bytes) : Bytes := (extract (buffer ++ data.take (maxChunk - buffer.length))).2

end Code

/-! ## One pass -/

section Pass

variable {buffer data : Bytes}

theorem take_count (buffer data : Bytes) :
    data.take (min data.length (maxChunk - buffer.length)) = data.take (maxChunk - buffer.length) := by
  rw [min_comm, ← List.take_take, List.take_length]

/-- **A full buffer is cut within its last three bytes, or at its end**, so a chunk is sent. -/
theorem cut_bounds (hfull : (filled buffer data).length = maxChunk) :
    maxChunk - 3 ≤ cutAt (filled buffer data) ∧ cutAt (filled buffer data) ≤ maxChunk ∧
      ⟨(filled buffer data).take (cutAt (filled buffer data)), false⟩ ∈ (pass buffer data).1 ∧
      (filled buffer data).take (cutAt (filled buffer data)) ≠ [] := by
  obtain ⟨hlo, hhi⟩ := cutAt_bounds (show 4 ≤ (filled buffer data).length by rw [hfull]; decide)
  rw [hfull] at hlo hhi
  refine ⟨hlo, hhi, ?_, ?_⟩
  · unfold filled at hfull ⊢
    unfold pass
    simp only [take_count]
    rw [if_pos hfull]
    exact List.mem_append_right _ (List.mem_singleton_self _)
  · rw [← List.length_pos_iff, List.length_take, hfull]
    have hpos : 3 < maxChunk := by decide
    omega

/-- What a pass takes: as much as there is room for. -/
theorem pass_takes (h : Fits buffer) (hd : data ≠ []) :
    ∃ n, 0 < n ∧ n ≤ data.length ∧ (pass buffer data).2.2 = data.drop n := by
  have hpos := List.length_pos_iff.mpr hd
  have hroom := h.short
  refine ⟨min data.length (maxChunk - buffer.length), by omega, min_le_left _ _, ?_⟩
  unfold pass
  simp only
  split_ifs <;> rfl

end Pass

/-! ## The loop -/

/-- As many passes as there are bytes are enough, and they do what `write` does. -/
theorem loop_eq_write (buffer : Buffer) (data : Bytes) {fuel : ℕ} (hfuel : data.length ≤ fuel) :
    loop fuel buffer.bytes data = some ((write buffer data).1, (write buffer data).2.bytes) := by
  induction fuel generalizing buffer data with
  | zero =>
    obtain rfl := List.length_eq_zero_iff.mp (Nat.le_zero.mp hfuel)
    rw [write]
    rfl
  | succ fuel ih =>
    cases data with
    | nil =>
      rw [write]
      rfl
    | cons b data =>
      obtain ⟨hfits, hless⟩ := pass_spec buffer.fits (List.cons_ne_nil b data)
      have hrest := ih ⟨_, hfits⟩ (pass buffer.bytes (b :: data)).2.2 (by omega)
      rw [write, loop, hrest]
      rfl

/-- **The loops of `Write` end.**  From a buffer without newline and with room, for any data: the loop is
left after at most one pass for each byte, with such a buffer; and at each pass on the way the buffer is such
a buffer, the pass takes at least one byte, and if it fills the buffer, then the cut is within the last three
bytes or at the end, and a chunk that is not empty is sent.  What `loop` sends and leaves is what `write` sends and
leaves (`loop_eq_write`). -/
theorem write_loop {buffer : Bytes} (h : Fits buffer) (data : Bytes) :
    (∃ sent buffer', loop data.length buffer data = some (sent, buffer') ∧ Fits buffer') ∧
    ∀ b d, Relation.ReflTransGen Turn (buffer, data) (b, d) → Fits b ∧ (d ≠ [] →
      (∃ n, 0 < n ∧ n ≤ d.length ∧ (pass b d).2.2 = d.drop n) ∧ Fits (pass b d).2.1 ∧
      ((filled b d).length = maxChunk →
        maxChunk - 3 ≤ cutAt (filled b d) ∧ cutAt (filled b d) ≤ maxChunk ∧
          ⟨(filled b d).take (cutAt (filled b d)), false⟩ ∈ (pass b d).1 ∧
          (filled b d).take (cutAt (filled b d)) ≠ [])) := by
  constructor
  · exact ⟨_, _, loop_eq_write ⟨buffer, h⟩ data le_rfl, (write ⟨buffer, h⟩ data).2.fits⟩
  · intro b d hreach
    have hfits : Fits b := by
      -- the invariant of the outer loop
      have hinv : ∀ s, Relation.ReflTransGen Turn (buffer, data) s → Fits s.1 := by
        intro s hs
        induction hs with
        | refl => exact h
        | tail _ hturn ih =>
          rw [hturn.2]
          exact (pass_spec ih hturn.1).1
      exact hinv (b, d) hreach
    exact ⟨hfits, fun hd => ⟨pass_takes hfits hd, (pass_spec hfits hd).1, cut_bounds⟩⟩

/-- Two bytes on a buffer that lacks one to be full: the first pass fills it and sends a chunk. -/
theorem write_loop_of_full : (∃ sent buffer',
    loop 2 (List.replicate (maxChunk - 1) 65) [66, 0xC3] = some (sent, buffer') ∧ Fits buffer') ∧
    ∃ text, text ≠ [] ∧ ⟨text, false⟩ ∈ (pass (List.replicate (maxChunk - 1) 65) [66, 0xC3]).1 := by
  have hfits : Fits (List.replicate (maxChunk - 1) 65) := by
    refine ⟨?_, fun hmem => ?_⟩
    · rw [List.length_replicate]
      decide
    · exact absurd (List.eq_of_mem_replicate hmem) (by decide)
  have hfull : (filled (List.replicate (maxChunk - 1) 65) [66, 0xC3]).length = maxChunk := by
    have htake : ([66, 0xC3] : Bytes).take (maxChunk - (List.replicate (maxChunk - 1) (65 : UInt8)).length) = [66] := by
      rw [List.length_replicate]
      rfl
    have hline : newline ∉ List.replicate (maxChunk - 1) (65 : UInt8) ++ [66] := by
      intro hmem
      rcases List.mem_append.mp hmem with hmem | hmem
      · exact absurd (List.eq_of_mem_replicate hmem) (by decide)
      · exact absurd (List.mem_singleton.mp hmem) (by decide)
    rw [filled, htake, extract_of_not_mem hline, List.length_append, List.length_replicate]
    rfl
  obtain ⟨hloop, hpasses⟩ := write_loop hfits [66, 0xC3]
  obtain ⟨-, hpass⟩ := hpasses _ _ Relation.ReflTransGen.refl
  obtain ⟨-, -, hsent, hne⟩ := (hpass (by simp)).2.2 hfull
  exact ⟨hloop, _, hne, hsent⟩

end SlurmManager.Worker
