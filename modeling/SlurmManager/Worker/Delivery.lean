import SlurmManager.Tracking.Arrival
import SlurmManager.Worker.LogText

/-!
# Delivery — from the processes of a job to its listeners

The runs of the worker and those of the tracker, put together at the Redis channel: the worker publishes, Redis gives
its payloads to the listener thread in order, and the tracker submits them to the executor for the listeners.

* `logLines`: the log messages of both streams, in the order of publication.
* `output_delivered`: **the output of the job is submitted to a log listener of the job**, whatever the goroutines of
  the worker, the threads of the manager and other jobs do in between.
-/

namespace SlurmManager.Worker

open Session (toldOf awaited arrivalsAt bare)

variable {print : ℚ → JsonText.Numeral} {r : Reader} {jobID : String}

/-- The log messages, decoded. -/
def logLines (ms : List Feedback) : List (Stream × List Char) :=
  ms.filterMap fun
    | .log x c => some (x, Utf8.decode c.text)
    | _ => none

/-- The lines of one stream. -/
def linesAt (x : Stream) (lines : List (Stream × List Char)) : List (List Char) :=
  lines.filterMap fun l => if l.1 = x then some l.2 else none

/-- The log messages that the listener thread reads on a topic. -/
def readLogs (p : MessageParser) (t : Topic) (replies : List Polled) : List SlurmMessage :=
  (replies.filterMap p.parsed?).filterMap fun q => if q.1 = t ∧ q.2.msgType = .log then some q.2 else none

theorem linesAt_logLines (x : Stream) (ms : List Feedback) :
    linesAt x (logLines ms) = ms.filterMap fun m => outputOf x m.received := by
  unfold linesAt logLines
  rw [List.filterMap_filterMap]
  refine List.filterMap_congr fun m _ => ?_
  cases m with
  | status text => rfl
  | heartbeat t => rfl
  | log y c =>
    rw [outputOf_log]
    rfl

/-- What is read, as it is submitted. -/
theorem bare_readLogs {ms : List Feedback} {replies : List Polled} (h : List.Forall₂ (Reply print jobID) ms replies)
    (hlimit : 2 ≤ r.limit) (hprint : Readable print r ms) :
    (readLogs r.parser (topicOf jobID .log) replies).map bare =
      (logLines ms).map fun l => .log { log := String.ofList l.2 } := by
  unfold readLogs logLines
  rw [parsed_replies h hlimit hprint, List.filterMap_map, List.map_filterMap, List.map_filterMap]
  refine List.filterMap_congr fun m _ => ?_
  cases m with
  | status text => simp [Feedback.received, SlurmMessage.msgType, Feedback.kind]
  | heartbeat t => simp [Feedback.received, SlurmMessage.msgType, Feedback.kind]
  | log y c =>
    simp [Feedback.received, SlurmMessage.msgType, Feedback.kind, bare, SlurmMessage.withMetadata]

section Delivered

variable {w : State} {steps : List Label} {e : Option Err} {replies : List Polled} {s₀ s₁ s : Session}
  {ls₁ ls₂ : List SlurmManager.Label} {f : FutureRef} {k : SubId}

/-- **A log listener of a job gets the output of the job.**  The worker publishes `finished`; Redis gives what it
published to the listener thread, in order, while the listener is indexed by the tracker and registered in the client.
Then what is submitted for the listener is, line by line, an interleaving of the two outputs that the processes wrote:
the decoded bytes of each without the line breaks, and its lines if they are short. -/
theorem output_delivered (hrun : Run Steps (fun _ _ => True) {} steps w)
    (hfinished : ⟨.status "finished", e⟩ ∈ w.attempts) (h₀ : s₀.Initial)
    (hreplies : List.Forall₂ (Reply print (s₀.jobOf f)) (published w.attempts) replies) (hlimit : 2 ≤ r.limit)
    (hprint : Readable print r (published w.attempts))
    (h₁ : Run Session.Steps (fun _ l => Session.Sectioned l) s₀ ls₁ s₁)
    (h₂ : Run Session.Steps (fun s l => Session.Sectioned l ∧ s.Serving (s₀.jobOf f) .log k) s₁ ls₂ s)
    (harrive : arrivalsAt (topicOf (s₀.jobOf f) .log) .log ls₂ =
      readLogs r.parser (topicOf (s₀.jobOf f) .log) replies) :
    ∃ lines : List (Stream × List Char),
      toldOf k .log s.tracker.tasks ++ awaited k .log s.captured =
        toldOf k .log s₁.tracker.tasks ++ awaited k .log s₁.captured ++
          lines.map (fun l => .log { log := String.ofList l.2 }) ∧
      ∀ x, (linesAt x lines).flatten = (Utf8.decode (w.outlet x).written).filter (· ≠ '\n') ∧
        (ShortLines (w.outlet x).written → linesAt x lines = linesOf (Utf8.decode (w.outlet x).written)) := by
  refine ⟨logLines (published w.attempts), ?_, fun x => ?_⟩
  · have htold := (Session.run_bounds h₀ h₁).1.told_run (show Event.log ≠ .status by decide) h₂
    rw [harrive, bare_readLogs hreplies hlimit hprint] at htold
    exact htold
  · rw [linesAt_logLines]
    exact output_finished hrun hfinished x

/-- The workload writes `x` and `y` on two lines, and one listener is in place. -/
theorem output_delivered_of_lines : ∃ s : Session, ∃ lines : List (Stream × List Char),
    toldOf 3 .log s.tracker.tasks = lines.map (fun l => .log { log := String.ofList l.2 }) ∧
    linesAt .stdout lines = [['x'], ['y']] := by
  have hworker : ∃ w : State, Run Steps (fun _ _ => True) {}
      [.announce none, .launch none, .beat 1 none, .emit .stdout [120, 10, 121, 10], .copy .stdout 4 4 none,
        .send .stdout none, .send .stdout none, .exit (.exited 0), .close .stdout, .close .stderr, .eof .stdout,
        .eof .stderr, .waited, .watch, .drained, .flush none, .flush none, .stopBeating, .halted, .conclude,
        .report none] w ∧
      (w.outlet .stdout).written = [120, 10, 121, 10] ∧
      published w.attempts = [.status "running", .heartbeat 1, .log .stdout ⟨[120], true⟩,
        .log .stdout ⟨[121], true⟩, .status "finished"] := Run.of_evaluated (fun _ _ _ => id) (by decide +kernel)
  obtain ⟨w, hrun, hwritten, hpublished⟩ := hworker
  obtain ⟨s₁, h₁, -, s₂, h₂, -, -, -, hnone, hcap, s, h₃, hempty⟩ := Session.run_of_listeners
  have hfinished : ⟨.status "finished", none⟩ ∈ w.attempts := by
    rw [← mem_published, hpublished]
    simp
  have hreadable : Readable (fun _ => one) digitReader (published w.attempts) := by
    rw [hpublished]
    exact readable_one (by simp)
  have hreplies := @replied_spec (fun _ => one) "j" (published w.attempts)
  have hread : readLogs digitReader.parser "info/j/log" (replied (fun _ => one) "j" (published w.attempts)) =
      [Session.outputLine "x", Session.outputLine "y"] := by
    have hx : (Feedback.log .stdout ⟨[120], true⟩).received = Session.outputLine "x" :=
      received_encoded .stdout ['x'] true
    have hy : (Feedback.log .stdout ⟨[121], true⟩).received = Session.outputLine "y" :=
      received_encoded .stdout ['y'] true
    unfold readLogs
    rw [parsed_replies hreplies (by decide) hreadable, hpublished]
    simp only [List.map_cons, List.map_nil, hx, hy]
    rfl
  have hj : (Session.new (fun _ _ => none) Session.unary).jobOf 0 = "j" := by decide +kernel
  have hshort : ShortLines (w.outlet .stdout).written := by
    rw [hwritten]
    intro line hline _
    exact Nat.lt_of_le_of_lt hline.length_le (by decide)
  rw [← hj] at h₃ hreplies
  obtain ⟨lines, htold, hlines⟩ := output_delivered hrun hfinished (Session.initial_new _ Session.unary_injective)
    hreplies (by decide) hreadable ((h₁.append h₂).mono fun _ _ hl => hl.1) h₃ (by rw [hj]; exact hread.symm)
  rw [hnone, hcap, hempty] at htold
  have hdecode : Utf8.decode [120, 10, 121, 10] = ['x', '\n', 'y', '\n'] :=
    Utf8.decode_utf8Encode ['x', '\n', 'y', '\n']
  refine ⟨s, lines, (List.append_nil _).symm.trans htold, ?_⟩
  rw [(hlines .stdout).2 hshort, hwritten, hdecode]
  rfl

end Delivered

end SlurmManager.Worker
