import SlurmManager.Worker.LogOrder
import SlurmManager.Worker.Wire

/-!
# LogText — the output of a job, as the manager reads it

The worker cuts a stream into messages, and each message is decoded on its own.  That changes nothing: a cut never
falls inside a rune, whether or not the stream is UTF-8.

* `decode_cut`, `chars_framed`: the characters of the messages are those of the stream.
* `linesOf`, `texts_framed`: as long as lines are short, the messages are the lines.
* `received_output`: **from the processes to the manager**: what the manager reads from the payloads of a run that
  publishes `finished` is what the processes wrote.
-/

namespace SlurmManager.Worker

/-! ## Cuts -/

section Cuts

/-- The characters of a message, with the line break that ended it. -/
def Chunk.chars (c : Chunk) : List Char := Utf8.decode c.text ++ if c.ended then ['\n'] else []

theorem decode_newline (a b : Bytes) : Utf8.decode (a ++ newline :: b) = Utf8.decode a ++ '\n' :: Utf8.decode b :=
  Utf8.decode_ascii (by decide) a b

/-- A buffer is cut where its characters may be cut. -/
theorem decode_cut {buffer : Bytes} (hlen : 4 ≤ buffer.length) (rest : Bytes) : Utf8.decode (buffer ++ rest) =
    Utf8.decode (buffer.take (cutAt buffer)) ++ Utf8.decode (buffer.drop (cutAt buffer) ++ rest) := by
  have hsplit : buffer ++ rest = buffer.take (cutAt buffer) ++ (buffer.drop (cutAt buffer) ++ rest) := by
    rw [← List.append_assoc, List.take_append_drop]
  cases hf : (List.range' (buffer.length - 4) 4).find? fun start => incomplete (buffer.drop start) with
  | some start =>
    have hcut : cutAt buffer = start := by
      unfold cutAt
      rw [hf, Option.getD_some]
    have hinc := List.find?_some hf
    rw [← hcut] at hinc
    cases hd : buffer.drop (cutAt buffer) with
    | nil =>
      rw [hd] at hinc
      contradiction
    | cons c tail =>
      rw [hd] at hinc
      have hstart : Utf8.runeStart c = true := (Bool.and_eq_true_iff.mp hinc).1
      rw [hsplit, hd]
      exact Utf8.decode_start hstart _ _
  | none =>
    have hcut : cutAt buffer = buffer.length := by
      unfold cutAt
      rw [hf, Option.getD_none]
    rw [hcut, List.take_length, List.drop_length, List.nil_append]
    refine Utf8.decode_whole (fun x t hsuffix hstart => ?_) rest
    -- a suffix that might be unfinished is among the last four
    by_contra hfull
    rw [Bool.not_eq_true] at hfull
    have hshort : (x :: t).length < 4 := by
      by_contra hlong
      rw [Utf8.fullRune_of_length (by omega)] at hfull
      contradiction
    obtain ⟨before, rfl⟩ := hsuffix
    have hnot := List.find?_eq_none.mp hf before.length (by
      rw [List.mem_range'_1, List.length_append]
      simp only [List.length_cons] at hshort ⊢
      omega)
    rw [List.drop_left] at hnot
    exact hnot (by simp [incomplete, hstart, hfull])

theorem chars_feed (buffer : Bytes) (b : UInt8) (rest : Bytes) :
    (feed buffer b).1.flatMap Chunk.chars ++ Utf8.decode ((feed buffer b).2 ++ rest) =
      Utf8.decode (buffer ++ b :: rest) := by
  have hx : buffer ++ b :: rest = buffer ++ [b] ++ rest := by simp
  unfold feed
  split_ifs with hb hmax
  · rw [hb, decode_newline]
    simp [Chunk.chars]
  · have hlen : 4 ≤ (buffer ++ [b]).length := by
      rw [hmax]
      decide
    rw [hx, decode_cut hlen]
    simp [Chunk.chars]
  · rw [hx]
    rfl

theorem chars_feedAll (buffer data rest : Bytes) :
    (feedAll buffer data).1.flatMap Chunk.chars ++ Utf8.decode ((feedAll buffer data).2 ++ rest) =
      Utf8.decode (buffer ++ (data ++ rest)) := by
  induction data generalizing buffer with
  | nil => rfl
  | cons b data ih =>
    simp only [feedAll]
    rw [List.flatMap_append, List.append_assoc, ih, chars_feed]
    rfl

/-- **The characters of the messages are those of the stream.** -/
theorem chars_framed (stream : Bytes) : (framed stream).flatMap Chunk.chars = Utf8.decode stream := by
  have hflush : ∀ buffer, (flush buffer).flatMap Chunk.chars = Utf8.decode buffer := by
    intro buffer
    unfold flush
    split_ifs with h
    · rw [h]
      simp [Utf8.decode, Utf8.runes_nil]
    · simp [Chunk.chars]
  have hfeed := chars_feedAll [] stream []
  rw [List.append_nil, List.append_nil] at hfeed
  rw [framed, List.flatMap_append, hflush]
  exact hfeed

end Cuts

/-! ## Lines -/

section Lines

/-- The lines of a text; the last one need not be ended. -/
def linesOf : List Char → List (List Char)
  | [] => []
  | c :: text =>
    if c = '\n' then [] :: linesOf text
    else match linesOf text with
      | [] => [[c]]
      | line :: rest => (c :: line) :: rest

theorem linesOf_line {line : List Char} (h : '\n' ∉ line) (after : List Char) :
    linesOf (line ++ '\n' :: after) = line :: linesOf after := by
  induction line with
  | nil => exact if_pos rfl
  | cons c line ih =>
    have hc : c ≠ '\n' := fun hc => h (hc ▸ List.mem_cons_self)
    rw [List.cons_append, linesOf, if_neg hc, ih fun hx => h (List.mem_cons_of_mem c hx)]

theorem linesOf_last {line : List Char} (h : '\n' ∉ line) (hne : line ≠ []) : linesOf line = [line] := by
  induction line with
  | nil => exact absurd rfl hne
  | cons c line ih =>
    have hc : c ≠ '\n' := fun hc => h (hc ▸ List.mem_cons_self)
    rw [linesOf, if_neg hc]
    cases line with
    | nil => rfl
    | cons d line => rw [ih (fun hx => h (List.mem_cons_of_mem c hx)) (by simp)]

/-- Every line is shorter than a chunk. -/
def ShortLines (stream : Bytes) : Prop := ∀ line, line <:+: stream → newline ∉ line → line.length < maxChunk

theorem newline_notMem {line : Bytes} (h : newline ∉ line) : '\n' ∉ Utf8.decode line :=
  Utf8.decode_notMem (c := newline) (by decide) h

theorem decode_ne_nil {l : Bytes} (h : l ≠ []) : Utf8.decode l ≠ [] := by
  cases l with
  | nil => exact absurd rfl h
  | cons b rest =>
    unfold Utf8.decode
    cases hr : Utf8.isRune (b :: rest.take (Utf8.width b - 1)) with
    | true =>
      rw [Utf8.runes_rune hr]
      exact List.cons_ne_nil _ _
    | false =>
      rw [Utf8.runes_byte hr]
      exact List.cons_ne_nil _ _

/-- **As long as lines are short, the messages are the lines.** -/
theorem texts_framed {stream : Bytes} (h : ShortLines stream) :
    (framed stream).map (fun c => Utf8.decode c.text) = linesOf (Utf8.decode stream) := by
  induction hn : stream.length using Nat.strongRecOn generalizing stream with
  | _ n ih =>
    by_cases hmem : newline ∈ stream
    · obtain ⟨line, after, rfl, hline⟩ := List.eq_append_cons_of_mem hmem
      have hshort := h line (List.prefix_append _ _).isInfix hline
      have hafter : ShortLines after := fun l hl =>
        h l (hl.trans ⟨line ++ [newline], [], by simp⟩)
      rw [List.length_append, List.length_cons] at hn
      rw [framed_line hline hshort, List.map_cons, ih after.length (by omega) hafter rfl, decode_newline,
        linesOf_line (newline_notMem hline)]
    · by_cases hne : stream = []
      · subst hne
        simp [framed, feedAll, flush, Utf8.decode, Utf8.runes_nil, linesOf]
      · rw [framed_last hmem hne (h stream List.infix_rfl hmem), linesOf_last (newline_notMem hmem) (decode_ne_nil hne)]
        rfl

/-- The texts of the messages are the text of the stream without its line breaks. -/
theorem flatten_framed (stream : Bytes) :
    (framed stream).flatMap (fun c => Utf8.decode c.text) = (Utf8.decode stream).filter (· ≠ '\n') := by
  have hchunk : ∀ c ∈ framed stream, Utf8.decode c.text = c.chars.filter (· ≠ '\n') := by
    intro c hc
    have hnot := newline_notMem (framed_bounded stream c hc).2
    have htext : (Utf8.decode c.text).filter (· ≠ '\n') = Utf8.decode c.text := by
      rw [List.filter_eq_self]
      intro x hx
      exact decide_eq_true fun he => hnot (he ▸ hx)
    unfold Chunk.chars
    rw [List.filter_append, htext]
    cases c.ended <;> simp
  rw [← chars_framed, List.filter_flatMap]
  exact List.flatMap_congr hchunk

end Lines

/-! ## The manager -/

section Manager

variable {print : ℚ → JsonText.Numeral} {r : Reader} {jobID : String}

/-- What Redis gives to a subscriber for a publication. -/
def Reply (print : ℚ → JsonText.Numeral) (jobID : String) (m : Feedback) (reply : Polled) : Prop :=
  ∃ channel data, reply = .message channel (.raw data) ∧ Carries channel (topic jobID m) ∧ Carries data (payload print m)

/-- The heartbeats among these messages are read as they were printed. -/
def Readable (print : ℚ → JsonText.Numeral) (r : Reader) (ms : List Feedback) : Prop :=
  ∀ m ∈ ms, ∀ t, m = .heartbeat t → ReadsBack print r t

/-- The text of a log message of a stream. -/
def outputOf (x : Stream) : SlurmMessage → Option (List Char)
  | .log m => if m.metadata.get? "stream" = some x.name then some m.log.toList else none
  | _ => none

theorem Stream.name_injective : Function.Injective Stream.name := by
  intro x y h
  cases x <;> cases y <;> first | rfl | simp [Stream.name] at h

theorem outputOf_log (x y : Stream) (c : Chunk) :
    outputOf x (Feedback.log y c).received = if y = x then some (Utf8.decode c.text) else none := by
  have hget : (Dict.single "stream" y.name).get? "stream" = some y.name := Dict.get?_set_self _ _ _
  simp only [Feedback.received, outputOf, hget, Option.some.injEq, Stream.name_injective.eq_iff, String.toList_ofList]

/-- The replies are parsed to the messages, on the topics of the job. -/
theorem parsed_replies {ms : List Feedback} {replies : List Polled} (h : List.Forall₂ (Reply print jobID) ms replies)
    (hlimit : 2 ≤ r.limit) (hprint : Readable print r ms) :
    replies.filterMap r.parser.parsed? = ms.map fun m => (topicOf jobID m.kind, m.received) := by
  induction h with
  | nil => rfl
  | @cons m reply ms replies hm _ ih =>
    obtain ⟨channel, data, rfl, hchannel, hdata⟩ := hm
    have hread := parseText_payload m hlimit (hprint m List.mem_cons_self)
    have hparsed : r.parser.parsed? (.message channel (.raw data)) = some (topicOf jobID m.kind, m.received) := by
      unfold MessageParser.parsed? MessageParser.normalize
      simp only [hchannel.decode, hdata.decode, topic_eq_topicOf, hread]
    rw [List.filterMap_cons_some hparsed, ih fun m' hm' => hprint m' (List.mem_cons_of_mem _ hm')]
    rfl

/-- The publications that succeeded. -/
def published (attempts : List Attempt) : List Feedback :=
  (attempts.filter fun a => a.error.isNone).map Attempt.message

theorem mem_published {m : Feedback} {attempts : List Attempt} : m ∈ published attempts ↔ ⟨m, none⟩ ∈ attempts := by
  unfold published
  rw [List.mem_map]
  constructor
  · rintro ⟨⟨m', e⟩, ha, rfl⟩
    obtain ⟨ha, he⟩ := List.mem_filter.mp ha
    obtain rfl := Option.isNone_iff_eq_none.mp he
    exact ha
  · intro ha
    exact ⟨_, List.mem_filter.mpr ⟨ha, rfl⟩, rfl⟩

theorem published_append (as bs : List Attempt) : published (as ++ bs) = published as ++ published bs := by
  unfold published
  rw [List.filter_append, List.map_append]

/-- What the manager reads of a stream, if no log of it failed. -/
theorem output_published (x : Stream) {attempts : List Attempt} (h : Unfailed attempts) :
    (published attempts).filterMap (fun m => outputOf x m.received) =
      (logs x attempts).map fun c => Utf8.decode c.text := by
  induction attempts with
  | nil => rfl
  | cons a attempts ih =>
    have hrest := ih fun b hb => h b (List.mem_cons_of_mem a hb)
    have hlogs : logs x (a :: attempts) = logs x [a] ++ logs x attempts := logs_append x [a] attempts
    have hpub : published (a :: attempts) = published [a] ++ published attempts := published_append [a] attempts
    rw [hlogs, hpub, List.filterMap_append, List.map_append, hrest]
    congr 1
    obtain ⟨m, e⟩ := a
    cases m with
    | status text => cases e <;> rfl
    | heartbeat t => cases e <;> rfl
    | log y c =>
      obtain rfl : e = none := h _ List.mem_cons_self (by simp [Feedback.kind])
      show [Feedback.log y c].filterMap (fun m => outputOf x m.received) = _
      by_cases hy : y = x
      · rw [hy, logs_log]
        simp [outputOf_log]
      · rw [logs_other fun c' hc' => hy (Feedback.log.inj hc').1]
        simp [outputOf_log, hy]

/-- What the manager reads of a stream, once `finished` has been published. -/
theorem output_finished {s : State} {ls : List Label} (hrun : Run Steps (fun _ _ => True) {} ls s) {e : Option Err}
    (hfinished : ⟨.status "finished", e⟩ ∈ s.attempts) (x : Stream) :
    let texts := (published s.attempts).filterMap fun m => outputOf x m.received
    texts.flatten = (Utf8.decode (s.outlet x).written).filter (· ≠ '\n') ∧
      (ShortLines (s.outlet x).written → texts = linesOf (Utf8.decode (s.outlet x).written)) := by
  have htexts := output_published x (unfailed_of_finished hrun hfinished)
  rw [logs_of_finished hrun hfinished x] at htexts
  intro texts
  refine ⟨?_, fun hshort => htexts.trans (texts_framed hshort)⟩
  rw [← flatten_framed, List.flatMap_def]
  exact congrArg List.flatten htexts

/-- **From the processes to the manager.**  A run publishes `finished`, and the manager gets what was published, in
order.  Then every message is for a topic of the job; the log texts of a stream, one after the other, are the decoded
bytes that the processes wrote, without the line breaks; and if no line is as long as a chunk, they are its lines. -/
theorem received_output {s : State} {ls : List Label} (hrun : Run Steps (fun _ _ => True) {} ls s) {e : Option Err}
    (hfinished : ⟨.status "finished", e⟩ ∈ s.attempts) {replies : List Polled}
    (hreplies : List.Forall₂ (Reply print jobID) (published s.attempts) replies) (hlimit : 2 ≤ r.limit)
    (hprint : Readable print r (published s.attempts)) :
    (∀ p ∈ replies.filterMap r.parser.parsed?, p.1 = topicOf jobID p.2.msgType) ∧
    ∀ x,
      let texts := (replies.filterMap r.parser.parsed?).filterMap fun p => outputOf x p.2
      texts.flatten = (Utf8.decode (s.outlet x).written).filter (· ≠ '\n') ∧
      (ShortLines (s.outlet x).written → texts = linesOf (Utf8.decode (s.outlet x).written)) := by
  have hparsed := parsed_replies hreplies hlimit hprint
  refine ⟨fun p hp => ?_, fun x => ?_⟩
  · rw [hparsed] at hp
    obtain ⟨m, -, rfl⟩ := List.mem_map.mp hp
    cases m <;> rfl
  · rw [hparsed, List.filterMap_map]
    exact output_finished hrun hfinished x

/-- The replies as texts. -/
def replied (print : ℚ → JsonText.Numeral) (jobID : String) (ms : List Feedback) : List Polled :=
  ms.map fun m => .message (.text (topic jobID m)) (.raw (.text (payload print m)))

theorem replied_spec (ms : List Feedback) : List.Forall₂ (Reply print jobID) ms (replied print jobID ms) := by
  induction ms with
  | nil => exact .nil
  | cons m ms ih => exact .cons ⟨_, _, rfl, Or.inl rfl, Or.inl rfl⟩ ih

/-- Heartbeats at the time 1 are read by the reader of digits. -/
theorem readable_one {ms : List Feedback} (h : ∀ t, .heartbeat t ∈ ms → t = 1) :
    Readable (fun _ => one) digitReader ms := by
  intro m hm t ht
  subst ht
  obtain rfl := h t hm
  exact ⟨by decide, rfl⟩

/-- The workload writes `h`, a line break and the two bytes of `é` one by one. -/
theorem received_output_of_split_rune : ∃ s : State, ∃ ls,
    Run Steps (fun _ _ => True) {} ls s ∧ (s.outlet .stdout).written = [104, 10, 0xC3, 0xA9] ∧
    ((replied (fun _ => one) "7" (published s.attempts)).filterMap digitReader.parser.parsed?).filterMap
      (fun p => outputOf .stdout p.2) = [['h'], ['é']] := by
  have hex : ∃ s : State, Run Steps (fun _ _ => True) {}
      [.announce none, .launch none, .beat 1 none, .emit .stdout [104, 10, 0xC3], .copy .stdout 3 3 none,
        .send .stdout none, .emit .stdout [0xA9], .copy .stdout 1 1 none, .exit (.exited 0), .close .stdout,
        .close .stderr, .eof .stdout, .eof .stderr, .waited, .watch, .drained, .flush none, .flush none,
        .stopBeating, .halted, .conclude, .report none] s ∧
      (s.outlet .stdout).written = [104, 10, 0xC3, 0xA9] ∧
      published s.attempts = [.status "running", .heartbeat 1, .log .stdout ⟨[104], true⟩,
        .log .stdout ⟨[0xC3, 0xA9], false⟩, .status "finished"] :=
    Run.of_evaluated (fun _ _ _ => id) (by decide +kernel)
  obtain ⟨s, hrun, hwritten, hpublished⟩ := hex
  have hfinished : ⟨.status "finished", none⟩ ∈ s.attempts := by
    rw [← mem_published, hpublished]
    simp
  have hreadable : Readable (fun _ => one) digitReader (published s.attempts) := by
    rw [hpublished]
    exact readable_one (by simp)
  have hshort : ShortLines (s.outlet .stdout).written := by
    rw [hwritten]
    intro line hline _
    exact Nat.lt_of_le_of_lt hline.length_le (by decide)
  obtain ⟨-, htexts⟩ := received_output hrun hfinished (replied_spec (published s.attempts)) (by decide) hreadable
  have hdecode : Utf8.decode [104, 10, 0xC3, 0xA9] = ['h', '\n', 'é'] := by
    rw [← Utf8.decode_utf8Encode ['h', '\n', 'é']]
    rfl
  have hlines := (htexts .stdout).2 hshort
  rw [hwritten, hdecode] at hlines
  exact ⟨s, _, hrun, hwritten, hlines⟩

end Manager

end SlurmManager.Worker
