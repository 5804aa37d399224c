import SlurmManager.Worker.LineWriter

/-!
# Framing — what the log messages of a stream are

* `Buffer`: the buffers between two calls of `Write`; `pass_spec` keeps them, so the outer loop of
  `Write` ends (`write`).
* `write_eq_feedAll`: a call of `Write` treats its data like single bytes.
* `framing`: the messages of a stream do not depend on how it is cut into calls; they are bounded,
  follow the lines, and give the stream back.
* `messages_valid`: the messages of a valid UTF-8 stream are valid.
-/

namespace SlurmManager.Worker

/-! ## Buffers -/

/-- No newline, and room for a byte. -/
structure Fits (buffer : Bytes) : Prop where
  short : buffer.length < maxChunk
  unterminated : newline ∉ buffer

/-- The bytes of a message, with the newline that ended it. -/
def Chunk.bytes (c : Chunk) : Bytes := c.text ++ if c.ended then [newline] else []

/-- The stream that the messages stand for. -/
def joined (cs : List Chunk) : Bytes := cs.flatMap Chunk.bytes

/-- A message is bounded and has no newline inside. -/
def Chunk.Bounded (c : Chunk) : Prop := c.text.length ≤ maxChunk ∧ newline ∉ c.text

theorem fits_nil : Fits [] := ⟨by simp [maxChunk], by simp⟩

@[simp] theorem joined_nil : joined [] = [] := rfl

@[simp] theorem joined_append (cs cs' : List Chunk) : joined (cs ++ cs') = joined cs ++ joined cs' :=
  List.flatMap_append

@[simp] theorem joined_singleton (c : Chunk) : joined [c] = c.bytes := by
  simp [joined]

section Feed

variable {buffer : Bytes} (h : Fits buffer)
include h

theorem Fits.full {b : UInt8} (hb : b ≠ newline) (hmax : (buffer ++ [b]).length = maxChunk) :
    Fits ((buffer ++ [b]).drop (cutAt (buffer ++ [b]))) := by
  have hnot : newline ∉ buffer ++ [b] := by simp [h.unterminated, Ne.symm hb]
  obtain ⟨hlo, -⟩ := cutAt_bounds (show 4 ≤ (buffer ++ [b]).length by rw [hmax]; decide)
  refine ⟨?_, fun hd => hnot (List.mem_of_mem_drop hd)⟩
  rw [List.length_drop]
  rw [hmax] at hlo ⊢
  unfold maxChunk at hlo ⊢
  omega

theorem Fits.feed (b : UInt8) : Fits (feed buffer b).2 := by
  unfold Worker.feed
  split_ifs with hb hmax
  · exact fits_nil
  · exact h.full hb hmax
  · refine ⟨?_, by simp [h.unterminated, Ne.symm hb]⟩
    have hlt := h.short
    rw [List.length_append, List.length_singleton] at hmax ⊢
    omega

theorem feed_bounded (b : UInt8) : ∀ c ∈ (feed buffer b).1, c.Bounded := by
  unfold feed
  split_ifs with hb hmax
  · intro c hc
    rw [List.mem_singleton.mp hc]
    exact ⟨h.short.le, h.unterminated⟩
  · intro c hc
    rw [List.mem_singleton.mp hc]
    refine ⟨?_, ?_⟩
    · exact (List.length_take_le' _ _).trans hmax.le
    · intro hmem
      have hmem := List.mem_of_mem_take hmem
      simp [h.unterminated, Ne.symm hb] at hmem
  · intro c hc
    simp at hc

omit h in
/-- No byte is lost. -/
theorem joined_feed (buffer : Bytes) (b : UInt8) :
    joined (feed buffer b).1 ++ (feed buffer b).2 = buffer ++ [b] := by
  unfold feed
  split_ifs with hb hmax
  · simp [Chunk.bytes, hb]
  · simp only [joined_singleton, Chunk.bytes, Bool.false_eq_true, if_false, List.append_nil]
    exact List.take_append_drop _ _
  · rfl

theorem Fits.feedAll (data : Bytes) : Fits (feedAll buffer data).2 := by
  induction data generalizing buffer with
  | nil => exact h
  | cons b data ih => exact ih (h.feed b)

theorem feedAll_bounded (data : Bytes) : ∀ c ∈ (feedAll buffer data).1, c.Bounded := by
  induction data generalizing buffer with
  | nil =>
    intro c hc
    simp [feedAll] at hc
  | cons b data ih =>
    intro c hc
    rcases List.mem_append.mp hc with hc | hc
    · exact feed_bounded h b c hc
    · exact ih (h.feed b) c hc

omit h in
theorem joined_feedAll (buffer data : Bytes) :
    joined (feedAll buffer data).1 ++ (feedAll buffer data).2 = buffer ++ data := by
  induction data generalizing buffer with
  | nil => simp [feedAll]
  | cons b data ih =>
    simp only [feedAll]
    rw [joined_append, List.append_assoc, ih, ← List.append_assoc, joined_feed, List.append_assoc]
    rfl

/-- **A pass ends.**  It takes at least one byte and leaves a buffer with room. -/
theorem pass_spec {data : Bytes} (hd : data ≠ []) :
    Fits (pass buffer data).2.1 ∧ (pass buffer data).2.2.length < data.length := by
  rw [pass_eq_feedAll h.unterminated h.short]
  refine ⟨h.feedAll _, ?_⟩
  have hpos := List.length_pos_iff.mpr hd
  have hroom := h.short
  simp only [List.length_drop]
  omega

end Feed

/-- The buffer of a `lineWriter` between two calls. -/
structure Buffer where
  bytes : Bytes
  fits : Fits bytes

def Buffer.empty : Buffer := ⟨[], fits_nil⟩

theorem Buffer.ext' {b b' : Buffer} (h : b.bytes = b'.bytes) : b = b' := by
  obtain ⟨x, hx⟩ := b
  obtain ⟨y, hy⟩ := b'
  obtain rfl : x = y := h
  rfl

/-! ## The code on buffers -/

section Code

/-- `Write` on the buffer, once the data is archived: the messages sent and the buffer that is left. -/
def write (buffer : Buffer) (data : Bytes) : List Chunk × Buffer :=
  if h : data = [] then ([], buffer)
  else
    let next : Buffer := ⟨(pass buffer.bytes data).2.1, (pass_spec buffer.fits h).1⟩
    let rest := write next (pass buffer.bytes data).2.2
    ((pass buffer.bytes data).1 ++ rest.1, rest.2)
termination_by data.length
decreasing_by exact (pass_spec buffer.fits h).2

/-- `flush`. -/
def flush (buffer : Bytes) : List Chunk := if buffer = [] then [] else [⟨buffer, false⟩]

def writeAll (buffer : Buffer) : List Bytes → List Chunk × Buffer
  | [] => ([], buffer)
  | data :: pieces =>
    ((write buffer data).1 ++ (writeAll (write buffer data).2 pieces).1,
      (writeAll (write buffer data).2 pieces).2)

/-- The messages of a stream that is written in pieces and then flushed. -/
def publications (pieces : List Bytes) : List Chunk :=
  (writeAll Buffer.empty pieces).1 ++ flush (writeAll Buffer.empty pieces).2.bytes

/-- **`Write` treats its data like single bytes.** -/
theorem write_eq_feedAll (buffer : Buffer) (data : Bytes) :
    (write buffer data).1 = (feedAll buffer.bytes data).1 ∧
      (write buffer data).2.bytes = (feedAll buffer.bytes data).2 := by
  induction hn : data.length using Nat.strongRecOn generalizing buffer data with
  | _ n ih =>
    rw [write]
    split_ifs with hd
    · rw [hd]
      exact ⟨rfl, rfl⟩
    · obtain ⟨h1, h2⟩ := ih _ (hn ▸ (pass_spec buffer.fits hd).2)
        ⟨(pass buffer.bytes data).2.1, (pass_spec buffer.fits hd).1⟩ _ rfl
      simp only [h1, h2]
      rw [pass_eq_feedAll buffer.fits.unterminated buffer.fits.short]
      have hx := feedAll_append buffer.bytes (data.take (maxChunk - buffer.bytes.length))
        (data.drop (maxChunk - buffer.bytes.length))
      rw [List.take_append_drop] at hx
      rw [hx]
      exact ⟨rfl, rfl⟩

/-- Two calls do what one call with all the data does. -/
theorem write_append (buffer : Buffer) (a b : Bytes) : write buffer (a ++ b) =
    ((write buffer a).1 ++ (write (write buffer a).2 b).1, (write (write buffer a).2 b).2) := by
  obtain ⟨hab1, hab2⟩ := write_eq_feedAll buffer (a ++ b)
  obtain ⟨ha1, ha2⟩ := write_eq_feedAll buffer a
  obtain ⟨hb1, hb2⟩ := write_eq_feedAll (write buffer a).2 b
  rw [feedAll_append] at hab1 hab2
  refine Prod.ext ?_ (Buffer.ext' ?_)
  · rw [hab1, ha1, hb1, ha2]
  · rw [hab2, hb2, ha2]

theorem write_nil (buffer : Buffer) : write buffer [] = ([], buffer) := by
  rw [write, dif_pos rfl]

theorem writeAll_eq_write (buffer : Buffer) (pieces : List Bytes) :
    writeAll buffer pieces = write buffer pieces.flatten := by
  induction pieces generalizing buffer with
  | nil => rw [List.flatten_nil, write_nil, writeAll]
  | cons data pieces ih => rw [List.flatten_cons, write_append, writeAll, ih]

end Code

/-! ## Streams -/

section Streams

/-- The messages of a stream. -/
def framed (stream : Bytes) : List Chunk := (feedAll [] stream).1 ++ flush (feedAll [] stream).2

/-- The position after these bytes begins a line. -/
def AtLineStart (before : Bytes) : Prop := ∀ b ∈ before.getLast?, b = newline

theorem publications_eq_framed (pieces : List Bytes) : publications pieces = framed pieces.flatten := by
  obtain ⟨h1, h2⟩ := write_eq_feedAll Buffer.empty pieces.flatten
  unfold publications framed
  rw [writeAll_eq_write, h1, h2]
  rfl

theorem framed_bounded (stream : Bytes) : ∀ c ∈ framed stream, c.Bounded := by
  intro c hc
  have hfits := fits_nil.feedAll stream
  rcases List.mem_append.mp hc with hc | hc
  · exact feedAll_bounded fits_nil stream c hc
  · unfold flush at hc
    split_ifs at hc
    · simp at hc
    · rw [List.mem_singleton.mp hc]
      exact ⟨hfits.short.le, hfits.unterminated⟩

theorem joined_flush (buffer : Bytes) : joined (flush buffer) = buffer := by
  unfold flush
  split_ifs with h
  · rw [h, joined_nil]
  · simp [Chunk.bytes]

theorem joined_framed (stream : Bytes) : joined (framed stream) = stream := by
  rw [framed, joined_append, joined_flush, joined_feedAll]
  rfl

/-- At the start of a line the buffer is empty. -/
theorem feedAll_lineStart {before : Bytes} (h : AtLineStart before) : (feedAll [] before).2 = [] := by
  rcases List.eq_nil_or_concat' before with rfl | ⟨init, b, rfl⟩
  · rfl
  · obtain rfl : b = newline := h b (by simp)
    rw [feedAll_append, feedAll, feed_newline, feedAll]

theorem framed_append {before : Bytes} (h : AtLineStart before) (after : Bytes) :
    framed (before ++ after) = framed before ++ framed after := by
  unfold framed
  rw [feedAll_append, feedAll_lineStart h]
  simp [flush]

/-- A line that is shorter than the limit is one message. -/
theorem framed_line {line : Bytes} (hn : newline ∉ line) (hl : line.length < maxChunk) (after : Bytes) :
    framed (line ++ newline :: after) = ⟨line, true⟩ :: framed after := by
  have hshort := feedAll_short [] hn (by simpa using hl)
  unfold framed
  rw [feedAll_append, hshort, feedAll, feed_newline]
  rfl

theorem framed_last {line : Bytes} (hn : newline ∉ line) (hne : line ≠ []) (hl : line.length < maxChunk) :
    framed line = [⟨line, false⟩] := by
  have hshort := feedAll_short [] hn (by simpa using hl)
  unfold framed
  rw [hshort]
  simp [flush, hne]

end Streams

/-- **Framing.**  Two calls of `Write` do what one call with the joined data does, and the messages of a
stream do not depend on how it is cut into calls.  Each message has at most `maxChunk` bytes and no
newline.  Every line shorter than that is one message, also the last one without a newline.  With the
newlines put back, the messages are the stream. -/
theorem framing :
    (∀ (buffer : Buffer) (a b : Bytes), write buffer (a ++ b) =
      ((write buffer a).1 ++ (write (write buffer a).2 b).1, (write (write buffer a).2 b).2)) ∧
    (∀ pieces pieces' : List Bytes, pieces.flatten = pieces'.flatten →
      publications pieces = publications pieces') ∧
    ∀ pieces : List Bytes,
      (∀ c ∈ publications pieces, c.text.length ≤ maxChunk ∧ newline ∉ c.text) ∧
      (∀ before line after, AtLineStart before → newline ∉ line → line.length < maxChunk →
        pieces.flatten = before ++ line ++ newline :: after →
        publications pieces = publications [before] ++ ⟨line, true⟩ :: publications [after]) ∧
      (∀ before line, AtLineStart before → newline ∉ line → line ≠ [] → line.length < maxChunk →
        pieces.flatten = before ++ line → publications pieces = publications [before] ++ [⟨line, false⟩]) ∧
      joined (publications pieces) = pieces.flatten := by
  refine ⟨write_append, fun pieces pieces' h => ?_, fun pieces => ⟨?_, ?_, ?_, ?_⟩⟩
  · rw [publications_eq_framed, publications_eq_framed, h]
  · rw [publications_eq_framed]
    exact framed_bounded _
  · intro before line after hb hn hl hx
    simp only [publications_eq_framed, hx, List.flatten_singleton]
    rw [List.append_assoc, framed_append hb, framed_line hn hl]
  · intro before line hb hn hne hl hx
    simp only [publications_eq_framed, hx, List.flatten_singleton]
    rw [framed_append hb, framed_last hn hne hl]
  · rw [publications_eq_framed, joined_framed]

/-! ## Valid texts -/

section Texts

variable {buffer rest : Bytes}

/-- **A full buffer is cut between two runes**: the part that stays begins with the rune that goes on in
the next bytes, if there is one. -/
theorem cutAt_valid (hlen : 4 ≤ buffer.length) (h : Utf8.Valid (buffer ++ rest)) :
    Utf8.Valid (buffer.take (cutAt buffer)) ∧ Utf8.Valid (buffer.drop (cutAt buffer) ++ rest) := by
  obtain ⟨a, x, y, b, rfl, rfl, ha, hb, hxy⟩ := h.split
  suffices hcut : cutAt (a ++ x) = a.length by
    rw [hcut, List.take_left, List.drop_left]
    refine ⟨ha, ?_⟩
    obtain ⟨rfl, rfl⟩ | ⟨-, -, hr⟩ := hxy
    · exact hb
    · rw [← List.append_assoc]
      exact Utf8.Valid.cons hr hb
  -- no rune among the whole ones is incomplete
  have hbelow : ∀ start, start < a.length → incomplete ((a ++ x).drop start) = false := by
    intro start hs
    obtain ⟨c, tail, hc⟩ := List.exists_cons_of_ne_nil (mt List.drop_eq_nil_iff.mp (not_le.mpr hs))
    have hsplit : a = a.take start ++ c :: tail := by rw [← hc, List.take_append_drop]
    rw [List.drop_append_of_le_length hs.le, hc, List.cons_append]
    by_cases hstart : Utf8.runeStart c = true
    · rw [hsplit] at ha
      have hfull := (ha.of_runeStart hstart).2.fullRune (by simp) x
      rw [List.cons_append] at hfull
      simp [incomplete, hfull]
    · simp [incomplete, hstart]
  unfold cutAt
  rcases hxy with ⟨rfl, rfl⟩ | ⟨hx, hy, hr⟩
  · rw [List.append_nil] at hbelow hlen ⊢
    rw [List.find?_eq_none.mpr, Option.getD_none]
    intro start hmem
    rw [List.mem_range'_1] at hmem
    rw [hbelow start (by omega)]
    simp
  · have hsize := hr.length_le.2
    have hypos := List.length_pos_iff.mpr hy
    have hxpos := List.length_pos_iff.mpr hx
    rw [List.length_append] at hsize
    have hat : incomplete ((a ++ x).drop a.length) = true := by
      rw [List.drop_left]
      cases x with
      | nil => exact absurd rfl hx
      | cons c x =>
        obtain ⟨d, tail, hd, hstart⟩ := hr.head
        rw [List.cons_append] at hd
        obtain ⟨rfl, -⟩ := List.cons.inj hd
        simp [incomplete, hstart, Utf8.fullRune_of_proper hr hy]
    have habove : ∀ start, a.length < start → incomplete ((a ++ x).drop start) = false := by
      intro start hs
      rw [List.drop_append, List.drop_eq_nil_of_le hs.le, List.nil_append]
      cases htail : x.drop (start - a.length) with
      | nil => rfl
      | cons c tail =>
        have hx' : x.take (start - a.length) ≠ [] := by
          intro hnil
          rcases List.take_eq_nil_iff.mp hnil with h0 | h0
          · omega
          · exact hx h0
        have hsplit : x ++ y = x.take (start - a.length) ++ (c :: tail ++ y) := by
          rw [← htail, ← List.append_assoc, List.take_append_drop]
        rw [hsplit] at hr
        have hc := Utf8.runeStart_of_proper (c := c) hr hx' (by simp)
        simp [incomplete, hc]
    cases hf : (List.range' ((a ++ x).length - 4) 4).find? fun start => incomplete ((a ++ x).drop start) with
    | none =>
      have hnot := List.find?_eq_none.mp hf a.length (by
        rw [List.mem_range'_1, List.length_append]
        omega)
      exact absurd hat hnot
    | some start =>
      have hs := List.find?_some hf
      rw [Option.getD_some]
      rcases lt_trichotomy start a.length with hlt | rfl | hgt
      · rw [hbelow start hlt] at hs
        contradiction
      · rfl
      · rw [habove start hgt] at hs
        contradiction

theorem feed_valid {b : UInt8} (h : Utf8.Valid (buffer ++ b :: rest)) :
    (∀ c ∈ (feed buffer b).1, Utf8.Valid c.text) ∧ Utf8.Valid ((feed buffer b).2 ++ rest) := by
  have hx : buffer ++ b :: rest = buffer ++ [b] ++ rest := by simp
  unfold feed
  split_ifs with hb hmax
  · subst hb
    obtain ⟨h1, h2⟩ := h.of_ascii (by decide)
    exact ⟨by simpa using h1, h2⟩
  · rw [hx] at h
    obtain ⟨h1, h2⟩ := cutAt_valid (by rw [hmax]; decide) h
    exact ⟨by simpa using h1, h2⟩
  · rw [hx] at h
    exact ⟨by simp, h⟩

theorem feedAll_valid {data : Bytes} (h : Utf8.Valid (buffer ++ data)) :
    (∀ c ∈ (feedAll buffer data).1, Utf8.Valid c.text) ∧ Utf8.Valid (feedAll buffer data).2 := by
  induction data generalizing buffer with
  | nil =>
    rw [List.append_nil] at h
    exact ⟨by simp [feedAll], h⟩
  | cons b data ih =>
    obtain ⟨hfeed, hnext⟩ := feed_valid h
    obtain ⟨hrest, hend⟩ := ih hnext
    refine ⟨fun c hc => ?_, hend⟩
    rcases List.mem_append.mp hc with hc | hc
    · exact hfeed c hc
    · exact hrest c hc

end Texts

/-- **No rune is split between two messages**: the messages of a valid UTF-8 stream are valid, however
the stream is cut into calls of `Write`. -/
theorem messages_valid {pieces : List Bytes} (h : Utf8.Valid pieces.flatten) :
    ∀ c ∈ publications pieces, Utf8.Valid c.text := by
  rw [publications_eq_framed]
  have hx : Utf8.Valid ([] ++ pieces.flatten) := h
  obtain ⟨hsent, hrest⟩ := feedAll_valid hx
  intro c hc
  rcases List.mem_append.mp hc with hc | hc
  · exact hsent c hc
  · unfold flush at hc
    split_ifs at hc
    · simp at hc
    · rw [List.mem_singleton.mp hc]
      exact hrest

/-- The two bytes of `é` in two calls make one message. -/
theorem messages_valid_of_split_rune : publications [[0xC3], [0xA9]] = [⟨[0xC3, 0xA9], false⟩] ∧
    ∀ c ∈ publications [[0xC3], [0xA9]], Utf8.Valid c.text := by
  have hr : Utf8.IsRune [0xC3, 0xA9] :=
    Utf8.IsRune.mk (l := ⟨2, 0x80, 0xBF⟩) (by decide) rfl (by simp) (by simp)
  refine ⟨?_, messages_valid hr.valid⟩
  rw [publications_eq_framed]
  decide

end SlurmManager.Worker
