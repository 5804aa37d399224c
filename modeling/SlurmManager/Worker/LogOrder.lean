import SlurmManager.Worker.OutputIntegrity

/-!
# LogOrder — what was published of a stream is the beginning of its messages

`output_integrity` is about runs that finish.  Here a run may fail at any point: writers, processes and Redis.

* `Stage`: which messages a writer has handed to `publish`, as a function of the bytes it has taken; which of them
  were attempted.
* `Stage.publish`, `Stage.copy`, …: what one step does to it.
* `log_order`: in every state of every run, the log messages of a stream are the beginning of the messages of what
  the processes wrote, in order, none left out and none twice; after `finished` they are all of them.
-/

namespace SlurmManager.Worker

/-! ## The invariant -/

/-- The writer of the stream has been flushed. -/
def Main.Past (x : Stream) : Main → Prop
  | .flushing .stderr => x = .stdout
  | .halting | .concluding | .reporting _ _ _ | .returned _ _ => True
  | _ => False

theorem Main.Past.not_waiting {x : Stream} {m : Main} (h : m.Past x) : m ≠ .waiting := by
  rintro rfl
  exact h

/-- The bytes that the writer has taken and the messages that it has handed to `publish`. -/
structure Stage (x : Stream) (s : State) (taken : Bytes) (sent : List Chunk) : Prop where
  written : taken <+: (s.outlet x).written
  archived : (s.outlet x).writer.err = none → taken = (s.outlet x).writer.archive
  /-- The rest of the messages is in the outbox and in the buffer, until the flush. -/
  framing : (s.outlet x).writer.buffer.bytes = (feedAll [] taken).2 ∧
      sent ++ (s.outlet x).writer.outbox = (feedAll [] taken).1 ∨
    s.main.Past x ∧ (s.outlet x).writer.buffer.bytes = [] ∧ (s.outlet x).writer.outbox = [] ∧ sent = framed taken
  logged : logs x s.attempts <+: sent
  complete : Unfailed s.attempts → logs x s.attempts = sent

/-! ## Publications -/

section Publish

variable {x : Stream} {m : Feedback} {r : Option Err} {s : State}

theorem logs_publish (hm : ∀ c, m ≠ .log x c) : logs x (publish m r s).1.attempts = logs x s.attempts := by
  rcases publish_cases m r s with ⟨-, -, h⟩ | ⟨-, h⟩ <;> rw [h]
  show logs x (s.attempts ++ [⟨m, r⟩]) = _
  rw [logs_append, logs_other hm, List.append_nil]

theorem unfailed_publish (h : Unfailed (publish m r s).1.attempts) : Unfailed s.attempts := by
  rcases publish_cases m r s with ⟨-, -, hp⟩ | ⟨-, hp⟩ <;> rw [hp] at h
  · exact h
  · exact fun a ha => h a (List.mem_append_left _ ha)

/-- Without a sticky error nothing has failed. -/
theorem State.Running.unfailed (h : s.Running) (hn : s.publishError = none) : Unfailed s.attempts := by
  obtain ⟨rest, hrest, hf⟩ := h
  rw [hn] at hf
  intro a ha _
  rw [hrest] at ha
  rcases List.mem_cons.mp ha with rfl | ha
  · rfl
  · exact hf.all_succeeded a ha

end Publish

/-! ## One step -/

namespace Stage

variable {x : Stream} {s s' : State} {taken : Bytes} {sent : List Chunk} (h : Stage x s taken sent)
include h

/-- A step that leaves the writer and its messages alone. -/
theorem congr (hw : (s'.outlet x).writer = (s.outlet x).writer)
    (hwritten : (s.outlet x).written <+: (s'.outlet x).written)
    (hl : logs x s'.attempts = logs x s.attempts) (hu : Unfailed s'.attempts → Unfailed s.attempts)
    (hm : s.main.Past x → s'.main.Past x) : Stage x s' taken sent := by
  refine ⟨h.written.trans hwritten, ?_, ?_, ?_, ?_⟩
  · rw [hw]
    exact h.archived
  · rw [hw]
    exact h.framing.imp id fun ⟨hp, hrest⟩ => ⟨hm hp, hrest⟩
  · rw [hl]
    exact h.logged
  · rw [hl]
    exact fun hx => h.complete (hu hx)

theorem same (ho : s'.outlet x = s.outlet x) (ha : s'.attempts = s.attempts) (hm : s.main.Past x → s'.main.Past x) :
    Stage x s' taken sent :=
  h.congr (congrArg Outlet.writer ho) (by simp [ho]) (congrArg (logs x) ha) (fun hu => ha ▸ hu) hm

/-- A change of the other stream. -/
theorem aside {y : Stream} (hy : x ≠ y) (o : Outlet) : Stage x (s.setOutlet y o) taken sent :=
  h.same (by rw [setOutlet_outlet, if_neg hy]) rfl id

/-- A publication that is not a log of the stream. -/
theorem publish {m : Feedback} (hm : ∀ c, m ≠ .log x c) (r : Option Err) :
    Stage x (Worker.publish m r s).1 taken sent := by
  have hsame := publish_same m r s
  refine h.congr ?_ ?_ (logs_publish hm) unfailed_publish ?_
  · rw [hsame.outlet]
  · simp [hsame.outlet]
  · rw [hsame.main]
    exact id

/-- A log of the stream is attempted, or it is dropped behind a failure. -/
theorem logged_publish (hrun : s.Running) (c : Chunk) (r : Option Err) :
    logs x (Worker.publish (.log x c) r s).1.attempts <+: sent ++ [c] ∧
      (Unfailed (Worker.publish (.log x c) r s).1.attempts →
        logs x (Worker.publish (.log x c) r s).1.attempts = sent ++ [c]) := by
  rcases publish_cases (.log x c) r s with ⟨hne, -, hp⟩ | ⟨hn | hk, hp⟩
  · rw [hp]
    exact ⟨h.logged.trans (List.prefix_append _ _), fun hu => absurd (hrun.publishError hu) hne⟩
  · have hlogs : logs x (s.attempts ++ [⟨.log x c, r⟩]) = sent ++ [c] := by
      rw [logs_append, logs_log, h.complete (hrun.unfailed hn)]
    rw [hp]
    show logs x (s.attempts ++ [⟨.log x c, r⟩]) <+: sent ++ [c] ∧ _
    rw [hlogs]
    exact ⟨List.prefix_rfl, fun _ => hlogs⟩
  · contradiction

/-- Bytes are taken as long as the archive takes them. -/
theorem copy (hmain : s.main = .waiting) (ho : (s.outlet x).writer.outbox = [])
    (harch : (s.outlet x).writer.err = none → (s.outlet x).writer.archive ++ (s.outlet x).pending = (s.outlet x).written)
    (n written : ℕ) (err : Option Err) : ∃ taken sent, Stage x (receive x ((s.outlet x).pending.take n) written err
      (s.setOutlet x { s.outlet x with pending := (s.outlet x).pending.drop n })) taken sent := by
  obtain ⟨hbuf, hsent⟩ := h.framing.resolve_right fun ⟨hp, _⟩ => hp.not_waiting hmain
  rcases receive_cases x ((s.outlet x).pending.take n) written err
    (s.setOutlet x { s.outlet x with pending := (s.outlet x).pending.drop n }) with
    ⟨e, -, heq⟩ | ⟨-, e, heq⟩ | ⟨he, heq⟩ <;> rw [heq]
  · refine ⟨taken, sent, h.congr ?_ ?_ rfl id id⟩
    · simp [finish, setOutlet_self]
    · simp [finish, setOutlet_self]
  · refine ⟨taken, sent, ?_, ?_, Or.inl ?_, h.logged, h.complete⟩
    · simpa [finish, setOutlet_self] using h.written
    · simp [finish, setOutlet_self]
    · simpa [finish, setOutlet_self] using ⟨hbuf, hsent⟩
  · rw [setOutlet_self] at he
    obtain ⟨h1, h2⟩ := write_eq_feedAll (s.outlet x).writer.buffer ((s.outlet x).pending.take n)
    have htaken := h.archived he
    rw [ho, List.append_nil] at hsent
    refine ⟨taken ++ (s.outlet x).pending.take n, sent, ?_, ?_, Or.inl ?_, h.logged, h.complete⟩
    · simp only [setOutlet_self]
      rw [← harch he, htaken]
      exact List.prefix_append_right_inj _ |>.mpr (List.take_prefix _ _)
    · simp [setOutlet_self, htaken]
    · simp [setOutlet_self, h1, h2, hbuf, feedAll_append, hsent]

/-- A message leaves the outbox. -/
theorem send (hrun : s.Running) {c : Chunk} {rest : List Chunk} (ho : (s.outlet x).writer.outbox = c :: rest)
    (r : Option Err) : Stage x ((Worker.publish (.log x c) r s).1.popped x rest) taken (sent ++ [c]) := by
  obtain ⟨hlogged, hcomplete⟩ := h.logged_publish hrun c r
  have hsame := publish_same (.log x c) r s
  refine ⟨?_, ?_, Or.inl ?_, hlogged, hcomplete⟩
  · simpa [State.popped, setOutlet_self, hsame.outlet] using h.written
  · simpa [State.popped, setOutlet_self, hsame.outlet] using h.archived
  · rcases h.framing with ⟨hbuf, hsent⟩ | ⟨-, -, hnil, -⟩
    · rw [ho] at hsent
      simp [State.popped, setOutlet_self, hsame.outlet, hbuf, ← hsent]
    · rw [ho] at hnil
      contradiction

/-- What is in the buffer is the last message. -/
theorem flush (hrun : s.Running) (hmain : s.main = .flushing x) (ho : (s.outlet x).writer.outbox = [])
    (hb : (s.outlet x).writer.buffer.bytes ≠ []) (r : Option Err) :
    Stage x (afterFlush x ((Worker.publish (.log x ⟨(s.outlet x).writer.buffer.bytes, false⟩) r s).1.emptied x)) taken
      (framed taken) := by
  have hsame := publish_same (.log x ⟨(s.outlet x).writer.buffer.bytes, false⟩) r s
  obtain ⟨hbuf, hsent⟩ := h.framing.resolve_right fun ⟨_, hnil, _⟩ => hb hnil
  rw [ho, List.append_nil] at hsent
  have hframed : sent ++ [⟨(s.outlet x).writer.buffer.bytes, false⟩] = framed taken := by
    unfold framed Worker.flush
    rw [hsent, ← hbuf, if_neg hb]
  obtain ⟨hlogged, hcomplete⟩ := h.logged_publish hrun ⟨(s.outlet x).writer.buffer.bytes, false⟩ r
  rw [hframed] at hlogged hcomplete
  cases x
  all_goals
    refine ⟨?_, ?_, Or.inr ⟨?_, ?_, ?_, rfl⟩, hlogged, hcomplete⟩
    · simpa [afterFlush, State.emptied, setOutlet_self, hsame.outlet] using h.written
    · simpa [afterFlush, State.emptied, setOutlet_self, hsame.outlet] using h.archived
    · trivial
    · simp [afterFlush, State.emptied, setOutlet_self, Buffer.empty]
    · simpa [afterFlush, State.emptied, setOutlet_self, hsame.outlet] using ho

end Stage

/-- Every stream is at some stage. -/
def State.Staged (s : State) : Prop := ∀ x, ∃ taken sent, Stage x s taken sent

namespace State.Staged

variable {s s' : State} {l : Label} (h : s.Staged)
include h

theorem publish {m : Feedback} (hm : m.kind ≠ .log) (r : Option Err) : (Worker.publish m r s).1.Staged := by
  intro x
  obtain ⟨taken, sent, hx⟩ := h x
  refine ⟨taken, sent, hx.publish (fun c hc => hm ?_) r⟩
  rw [hc]
  rfl

/-- The main goroutine goes on, or another one does, without a publication. -/
theorem same (ho : s'.outlet = s.outlet) (ha : s'.attempts = s.attempts) (hm : ∀ x, s.main.Past x → s'.main.Past x) :
    s'.Staged := by
  intro x
  obtain ⟨taken, sent, hx⟩ := h x
  exact ⟨taken, sent, hx.same (congrFun ho x) ha (hm x)⟩

/-- A step at one stream. -/
theorem at_stream (x : Stream) (hx : ∃ taken sent, Stage x s' taken sent)
    (hy : ∀ y, y ≠ x → ∀ taken sent, Stage y s taken sent → Stage y s' taken sent) : s'.Staged := by
  intro y
  by_cases hyx : y = x
  · rw [hyx]
    exact hx
  · obtain ⟨taken, sent, hstage⟩ := h y
    exact ⟨taken, sent, hy y hyx taken sent hstage⟩

/-- A copy goroutine ends. -/
theorem finish (x : Stream) (e : Option Err) : (finish x e s).Staged := by
  obtain ⟨taken, sent, hx⟩ := h x
  refine h.at_stream x ⟨taken, sent, hx.congr ?_ ?_ rfl id id⟩ fun y hy _ _ hstage =>
    hstage.same (by simp [Worker.finish, setOutlet_outlet, hy]) rfl id
  · simp [Worker.finish, setOutlet_self]
  · simp [Worker.finish, setOutlet_self]

theorem step (hq : s.Quiet) (hph : s.Phase) (hsound : s.Sound) (hs : Moved s l s') : s'.Staged := by
  have hwaiting : ∀ {x}, (s.outlet x).copier = .running → s.main = .waiting := by
    intro x hc
    by_contra hm
    exact hq.copiers hm x hc
  have hrunning : s.main.Open → s.Running := fun ho => (State.phase_of_open ho).mp hph
  cases hs with
  | cancel | propagate | tick | stopBeating | watchCancelled | watchDone | terminated | exit | expire =>
    exact h.same rfl rfl fun _ => id
  | unannounced hm hr => exact (h.publish (by simp [Feedback.kind]) _).same rfl rfl fun _ _ => trivial
  | announced hm hr =>
    refine (h.publish (by simp [Feedback.kind]) _).same rfl rfl fun x hx => ?_
    rw [(publish_same _ _ s).main, hm] at hx
    exact hx
  | unlaunched hm hr | drained hm hw | waited hm hl hc =>
    refine h.same rfl rfl fun x hx => ?_
    rw [hm] at hx
    contradiction
  | halted hm hh | conclude hm => exact h.same rfl rfl fun _ _ => trivial
  | launched hm hw =>
    intro x
    obtain ⟨taken, sent, hx⟩ := h x
    refine ⟨taken, sent, hx.congr rfl List.prefix_rfl rfl id fun hp => ?_⟩
    rw [hm] at hp
    contradiction
  | beatFailed hh hr | beat hh hr => exact (h.publish (by simp [Feedback.kind]) _).same rfl rfl fun _ => id
  | report hm =>
    refine (h.publish (by simp [Feedback.kind]) _).same rfl rfl fun _ _ => ?_
    simp only [outcome]
    split
    · trivial
    · split <;> trivial
  | @emit x data hst hh =>
    obtain ⟨taken, sent, hx⟩ := h x
    refine h.at_stream x ⟨taken, sent, hx.congr ?_ ?_ rfl id id⟩ fun y hy _ _ hstage => hstage.aside hy _
    · rw [setOutlet_self]
    · rw [setOutlet_self]
      exact List.prefix_append _ _
  | @close x hst =>
    obtain ⟨taken, sent, hx⟩ := h x
    refine h.at_stream x ⟨taken, sent, hx.congr ?_ ?_ rfl id id⟩ fun y hy _ _ hstage => hstage.aside hy _
    · rw [setOutlet_self]
    · simp [setOutlet_self]
  | @copy x n written err hc ho =>
    obtain ⟨taken, sent, hx⟩ := h x
    refine h.at_stream x (hx.copy (hwaiting hc) ho (hsound.intact x).archived n written err) ?_
    intro y hy taken sent hstage
    rcases receive_cases x ((s.outlet x).pending.take n) written err
      (s.setOutlet x { s.outlet x with pending := (s.outlet x).pending.drop n }) with
      ⟨e, -, heq⟩ | ⟨-, e, heq⟩ | ⟨-, heq⟩ <;> rw [heq]
    · exact hstage.same (by simp [Worker.finish, setOutlet_outlet, hy]) rfl id
    · exact hstage.same (by simp [Worker.finish, setOutlet_outlet, hy]) rfl id
    · exact hstage.same (by simp [setOutlet_outlet, hy]) rfl id
  | @send x r c rest hc ho =>
    obtain ⟨taken, sent, hx⟩ := h x
    have hopen : s.main.Open := by
      rw [hwaiting hc]
      trivial
    refine h.at_stream x ⟨taken, _, hx.send (hrunning hopen) ho r⟩ fun y hy _ _ hstage => ?_
    refine (hstage.publish (fun c' hc' => ?_) r).aside hy _
    obtain ⟨rfl, -⟩ := Feedback.log.inj hc'
    exact hy rfl
  | @eof x hc ho hp hh => exact h.finish x none
  | @closed x hc ho he => exact h.finish x _
  | @flushedEmpty x r hm hb =>
    cases x
    all_goals
      refine h.same rfl rfl fun x hx => ?_
      rw [hm] at hx
      trivial
  | @flushed x r hm hb =>
    obtain ⟨taken, sent, hx⟩ := h x
    have hidle : (s.outlet x).writer.outbox = [] := (hsound.intact x).idle (hq.copiers (by simp [hm]) x)
    have hrun := hrunning (by rw [hm]; trivial)
    refine h.at_stream x ⟨taken, _, hx.flush hrun hm hidle hb r⟩ fun y hy _ _ hstage => ?_
    have hpub := hstage.publish (m := .log x ⟨(s.outlet x).writer.buffer.bytes, false⟩) (fun c hc => ?_) r
    · refine hpub.same ?_ ?_ fun hp => ?_
      · cases x <;> simp [afterFlush, State.emptied, setOutlet_outlet, hy]
      · cases x <;> rfl
      · have hp : s.main.Past y := (publish_same _ r s).main ▸ hp
        rw [hm] at hp
        cases x <;> trivial
    · obtain ⟨rfl, -⟩ := Feedback.log.inj hc
      exact hy rfl

end State.Staged

/-! ## Runs -/

section Runs

variable {s : State} {ls : List Label}

theorem State.staged_initial : State.Staged {} := fun _ =>
  ⟨[], [], List.prefix_rfl, fun _ => rfl, Or.inl ⟨rfl, rfl⟩, List.prefix_rfl, fun _ => rfl⟩

theorem State.staged {ok : State → Label → Prop} (hrun : Run Steps ok {} ls s) : s.Staged := by
  have hinv : ((s.Phase ∧ s.Quiet) ∧ s.Sound) ∧ s.Staged := by
    refine hrun.invariant (I := fun s => ((s.Phase ∧ s.Quiet) ∧ s.Sound) ∧ s.Staged)
      ⟨⟨⟨State.phase_initial, State.quiet_initial⟩, State.Sound.initial⟩, State.staged_initial⟩ ?_
    intro s l s' ⟨⟨⟨hph, hq⟩, hsound⟩, h⟩ _ hs
    exact ⟨⟨⟨hph.step hq hs.moved, hq.step hs.moved⟩, hsound.step hq hph hs.moved⟩, h.step hq hph hsound hs.moved⟩
  exact hinv.2

/-- What has been handed over is the beginning of the messages of what has been taken. -/
theorem Stage.sent_prefix {x : Stream} {taken : Bytes} {sent : List Chunk} (h : Stage x s taken sent) :
    sent <+: framed taken := by
  rcases h.framing with ⟨-, hsent⟩ | ⟨-, -, -, hsent⟩
  · unfold framed
    rw [← hsent, List.append_assoc]
    exact List.prefix_append _ _
  · simp [hsent]

/-- After the flush, all messages have been handed over. -/
theorem Stage.sent_eq {x : Stream} {taken : Bytes} {sent : List Chunk} (h : Stage x s taken sent)
    (hb : (s.outlet x).writer.buffer.bytes = []) (ho : (s.outlet x).writer.outbox = []) : sent = framed taken := by
  rcases h.framing with ⟨hbuf, hsent⟩ | ⟨-, -, -, hsent⟩
  · rw [ho, List.append_nil] at hsent
    rw [framed, ← hsent, ← hbuf, hb]
    exact (List.append_nil sent).symm
  · exact hsent

/-- **Once `finished` has been published, the logs are the messages of everything written.** -/
theorem logs_of_finished (hrun : Run Steps (fun _ _ => True) {} ls s) {r : Option Err}
    (hr : ⟨.status "finished", r⟩ ∈ s.attempts) (x : Stream) : logs x s.attempts = framed (s.outlet x).written := by
  obtain ⟨taken, sent, h⟩ := State.staged hrun x
  obtain ⟨hph, hq⟩ := State.reachable hrun
  obtain ⟨-, hsound⟩ := State.sound hrun
  obtain ⟨code, err, -, -, -, hm, -⟩ := hph.finished hr
  have hsent := h.sent_eq (hsound.flushed x (by rw [hm]; trivial))
    ((hsound.intact x).idle (hq.copiers (by simp [hm]) x))
  have hu := unfailed_of_finished hrun hr
  -- the bytes that the messages stand for are those that the processes wrote
  have htaken : taken = (s.outlet x).written := by
    rw [← (joined_of_finished hrun hr x).2, h.complete hu, hsent, joined_framed]
  rw [h.complete hu, hsent, htaken]

/-- **The order of the logs.**  In every state of every run, whatever fails and in whichever order the goroutines
go on: the log messages of a stream are the beginning of the messages of some bytes that the processes wrote first. -/
theorem log_order (hrun : Run Steps (fun _ _ => True) {} ls s) (x : Stream) :
    ∃ taken, taken <+: (s.outlet x).written ∧ logs x s.attempts <+: framed taken ∧
      ((s.outlet x).writer.err = none → taken = (s.outlet x).writer.archive) ∧
      ∀ r, ⟨.status "finished", r⟩ ∈ s.attempts → logs x s.attempts = framed (s.outlet x).written := by
  obtain ⟨taken, sent, h⟩ := State.staged hrun x
  exact ⟨taken, h.written, h.logged.trans h.sent_prefix, h.archived, fun r hr => logs_of_finished hrun hr x⟩

/-- Redis fails at the second of three lines: the third one is not attempted. -/
theorem log_order_of_failure : ∃ s : State, ∃ taken,
    taken <+: (s.outlet .stdout).written ∧ logs .stdout s.attempts <+: framed taken ∧
      logs .stdout s.attempts = [⟨[104], true⟩, ⟨[105], true⟩] ∧
      (s.outlet .stdout).written = [104, 10, 105, 10, 106, 10] := by
  have hex : ∃ s : State, Run Steps (fun _ _ => True) {}
      [.announce none, .launch none, .emit .stdout [104, 10, 105, 10, 106, 10], .copy .stdout 6 6 none,
        .send .stdout none, .send .stdout (some "connection lost"), .send .stdout none] s ∧
      logs .stdout s.attempts = [⟨[104], true⟩, ⟨[105], true⟩] ∧
      (s.outlet .stdout).written = [104, 10, 105, 10, 106, 10] :=
    Run.of_evaluated (fun _ _ _ => id) (by decide +kernel)
  obtain ⟨s, hrun, hlogs, hwritten⟩ := hex
  obtain ⟨taken, htaken, hbegins, -⟩ := log_order hrun .stdout
  exact ⟨s, taken, htaken, hbegins, hlogs, hwritten⟩

end Runs

end SlurmManager.Worker
