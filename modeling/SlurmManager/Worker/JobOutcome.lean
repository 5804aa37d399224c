import SlurmManager.Manager.Completion
import SlurmManager.Tracking.Outcome
import SlurmManager.Worker.FeedbackOrder
import SlurmManager.Worker.LogText

/-!
# JobOutcome — from the exit of a workload to the future of its job

The runs of the worker and those of the tracker meet at the status topic of the job.

* `statuses_published`: a run of the worker that has told how it ended has published two statuses.
* `outcome_delivered`: **the future of the job ends as the worker says**, with its details, and succeeds exactly if
  the worker returns 0.
-/

namespace SlurmManager.Worker

open JobTracker (splitColon splitColon_append)
open Session (awaitedStatuses statusesAt)

variable {print : ℚ → JsonText.Numeral} {r : Reader} {jobID : String} {w : State} {steps : List Label}

/-! ## The statuses of a run -/

/-- The status texts among the messages. -/
def statusTexts (ms : List Feedback) : List String :=
  ms.filterMap fun
    | .status text => some text
    | _ => none

/-- The statuses that the listener thread reads on a topic. -/
def readStatuses (p : MessageParser) (t : Topic) (replies : List Polled) : List StatusMessage :=
  (replies.filterMap p.parsed?).filterMap fun q => if q.1 = t then q.2.status? else none

theorem statusTexts_append (ms ms' : List Feedback) : statusTexts (ms ++ ms') = statusTexts ms ++ statusTexts ms' :=
  List.filterMap_append

theorem statusTexts_eq_nil {ms : List Feedback} (h : ∀ m ∈ ms, m.kind ≠ .status) : statusTexts ms = [] := by
  refine List.filterMap_eq_nil_iff.mpr fun m hm => ?_
  cases m with
  | status text => exact absurd rfl (h _ hm)
  | heartbeat t => rfl
  | log x c => rfl

/-- **A worker that has told how it ended has published two statuses.** -/
theorem statuses_published (hrun : Run Steps (fun _ _ => True) {} steps w) {c : ℕ} {err : Option Err} {text : String}
    (hmain : w.main = .returned c err) (hlast : w.attempts.getLast? = some ⟨.status text, none⟩) :
    statusTexts (published w.attempts) = ["running", text] := by
  have hord := (State.reachable hrun).1.ordered
  unfold State.Ordered at hord
  rw [hmain] at hord
  rcases hord with ⟨e, he, -⟩ | ⟨rest, failure, status, result, hcomplete⟩
  · rw [he] at hlast
    have hlast := Option.some.inj hlast
    injection hlast with _ herr
    contradiction
  · have hattempts := hcomplete.attempts
    rw [hattempts, ← List.cons_append, List.getLast?_append] at hlast
    injection Option.some.inj hlast with hmessage hresult
    injection hmessage with htext
    subst htext hresult
    have hrest : statusTexts (published rest) = [] := by
      refine statusTexts_eq_nil fun m hm => ?_
      rw [mem_published] at hm
      exact hcomplete.fed.kinds _ hm
    rw [hattempts, ← List.singleton_append, published_append, published_append, statusTexts_append,
      statusTexts_append, hrest]
    rfl

/-- What is read of the statuses. -/
theorem readStatuses_replies {ms : List Feedback} {replies : List Polled}
    (h : List.Forall₂ (Reply print jobID) ms replies) (hlimit : 2 ≤ r.limit) (hprint : Readable print r ms) :
    readStatuses r.parser (topicOf jobID .status) replies =
      (statusTexts ms).map fun text => { status := text } := by
  unfold readStatuses statusTexts
  rw [parsed_replies h hlimit hprint, List.filterMap_map, List.map_filterMap]
  refine List.filterMap_congr fun m _ => ?_
  cases m with
  | status text => exact if_pos rfl
  | heartbeat t =>
    simp only [Function.comp_apply, Feedback.received, SlurmMessage.status?, ite_self]
    rfl
  | log x c =>
    simp only [Function.comp_apply, Feedback.received, SlurmMessage.status?, ite_self]
    rfl

/-! ## The future -/

/-- The last status that the worker chooses. -/
theorem text_chosen {c : ℕ} {text : String} (hc : Chosen c text) :
    ∃ st x, statusOfText text = some (st, x) ∧ st.terminal = true ∧ (st = .finished ↔ c = 0) := by
  cases hc with
  | finished =>
    have hst : statusOfText JobStatus.finished.value = some (.finished, none) := by decide
    exact ⟨.finished, none, hst, rfl, by simp⟩
  | cancelled =>
    have hst : statusOfText JobStatus.cancelled.value = some (.cancelled, none) := by decide
    exact ⟨.cancelled, none, hst, rfl, by simp⟩
  | error hne detail =>
    have hst : statusOfText ("error:" ++ detail) = some (.error, some detail) := by
      have hsplit : splitColon ("error:" ++ detail) = ("error", some detail) := by
        have hc : "error:" = "error" ++ ":" := by decide
        rw [hc]
        exact splitColon_append (by decide) detail
      unfold statusOfText
      rw [hsplit]
      rfl
    exact ⟨.error, some detail, hst, rfl, by simp [hne]⟩

/-- How a future ends that heeds `running` and a last status. -/
theorem foldl_heed_chosen (f : JobFuture) {text : String} {st : JobStatus} {x : Option String}
    (hst : statusOfText text = some (st, x)) {xs : List (Runtime × StatusMessage)}
    (hxs : xs.map Prod.snd = [{ status := "running" }, { status := text }]) :
    xs.foldl JobFuture.heed f = (f.updateStatus .running none).updateStatus st x := by
  obtain ⟨⟨rt, m⟩, ys, rfl, hm, hys⟩ := List.map_eq_cons_iff.mp hxs
  obtain ⟨⟨rt', m'⟩, zs, rfl, hm', hzs⟩ := List.map_eq_cons_iff.mp hys
  obtain rfl := List.map_eq_nil_iff.mp hzs
  obtain rfl : m = { status := "running" } := hm
  obtain rfl : m' = { status := text } := hm'
  have hrunning : statusOfText "running" = some (.running, none) := by decide
  rw [List.foldl_cons, List.foldl_cons, heed_of_text (m := { status := "running" }) f rt hrunning,
    heed_of_text (m := { status := text }) _ rt' hst]
  rfl

section Delivered

variable {c : ℕ} {err : Option Err} {text : String} {replies : List Polled} {s₀ s₁ s : Session}
  {ls₁ ls₂ : List SlurmManager.Label} {f : FutureRef}

/-- **The future of a job ends as the worker says.**  The worker publishes how its run ended; Redis gives what it
published to the listener thread, in order, while the job runs with its lifecycle callback registered in the client,
and nobody else speaks of the job.  Then the future is done once nothing is captured for it any more, and a future that
is done has the status and the details that the worker chose, and succeeds exactly if the worker returned 0. -/
theorem outcome_delivered (hrun : Run Steps (fun _ _ => True) {} steps w) (hmain : w.main = .returned c err)
    (hlast : w.attempts.getLast? = some ⟨.status text, none⟩) (h₀ : s₀.Initial)
    (hreplies : List.Forall₂ (Reply print (s₀.jobOf f)) (published w.attempts) replies) (hlimit : 2 ≤ r.limit)
    (hprint : Readable print r (published w.attempts))
    (h₁ : Run Session.Steps (fun _ l => Session.Sectioned l) s₀ ls₁ s₁) (hf : s₁.Running (s₀.jobOf f) f)
    (hnone : awaitedStatuses f s₁.captured = [])
    (h₂ : Run Session.Steps (fun s l => Session.Sectioned l ∧ Session.Unspoken (s₀.jobOf f) f s l ∧
      s.Tuned (s₀.jobOf f) f) s₁ ls₂ s)
    (harrive : statusesAt (topicOf (s₀.jobOf f) .status) ls₂ =
      readStatuses r.parser (topicOf (s₀.jobOf f) .status) replies) :
    (awaitedStatuses f s.captured = [] → (s.tracker.futures f).done = true) ∧
      ((s.tracker.futures f).done = true → ((s.tracker.futures f).success = true ↔ c = 0) ∧
        ∃ st x, statusOfText text = some (st, x) ∧
          s.tracker.futures f = ((s₁.tracker.futures f).updateStatus .running none).updateStatus st x) := by
  have hms : awaitedStatuses f s₁.captured ++ statusesAt (topicOf (s₀.jobOf f) .status) ls₂ =
      [{ status := "running" }, { status := text }] := by
    rw [hnone, harrive, readStatuses_replies hreplies hlimit hprint, statuses_published hrun hmain hlast]
    rfl
  have hstart : s₁.Heard s₀.jobOf f (s₁.tracker.futures f) (awaitedStatuses f s₁.captured) :=
    Or.inr ⟨hf, [], rfl, rfl⟩
  have h : s₁.Attuned s₀.jobOf := Session.run_attuned h₀ h₁
  obtain ⟨-, hheard⟩ := hstart.run h h₀.jobIds h₂
  rw [hms] at hheard
  obtain ⟨st, x, hst, hterminal, hsuccess⟩ := text_chosen ((State.reachable hrun).1.chosen hmain hlast)
  have hrunning : ((s₁.tracker.futures f).updateStatus .running none).done = false :=
    JobFuture.done_updateStatus _ _ hf.2
  rcases hheard with ⟨hd, xs, hxs, hfold⟩ | ⟨hopen, xs, hall, hfold⟩
  · have hend := hfold.trans (foldl_heed_chosen _ hst hxs)
    refine ⟨fun _ => hd, fun _ => ⟨?_, st, x, hst, hend⟩⟩
    rw [hend, JobFuture.success_updateStatus _ _ hrunning, decide_eq_true_iff]
    exact hsuccess
  · refine ⟨fun hnot => ?_, fun hd => ?_⟩
    · rw [hnot, List.append_nil] at hall
      rw [hfold.trans (foldl_heed_chosen _ hst hall.symm), JobFuture.done_updateStatus _ _ hrunning]
      exact hterminal
    · rw [hopen.2] at hd
      contradiction

/-- A workload that exits with 0, and the future of its job. -/
theorem outcome_delivered_of_success : ∃ s : Session,
    (s.tracker.futures 0).done = true ∧ (s.tracker.futures 0).success = true := by
  have hworker : ∃ w : State, Run Steps (fun _ _ => True) {}
      [.announce none, .beat 1 none, .launch none, .exit (.exited 0), .close .stdout, .close .stderr, .eof .stdout,
        .eof .stderr, .waited, .watch, .drained, .flush none, .flush none, .stopBeating, .halted, .conclude,
        .report none] w ∧ w.main = .returned 0 none ∧ w.attempts.getLast? = some ⟨.status "finished", none⟩ ∧
      published w.attempts = [.status "running", .heartbeat 1, .status "finished"] :=
    Run.of_evaluated (fun _ _ _ => id) (by decide +kernel)
  obtain ⟨w, hrun, hmain, hlast, hpublished⟩ := hworker
  obtain ⟨s₁, h₁, hf, hcap, s, h₂, hempty⟩ := Session.run_of_statuses
  have hreadable : Readable (fun _ => one) digitReader (published w.attempts) := by
    rw [hpublished]
    exact readable_one (by simp)
  have hreplies := @replied_spec (fun _ => one) "j" (published w.attempts)
  have hread : readStatuses digitReader.parser "info/j/status" (replied (fun _ => one) "j" (published w.attempts)) =
      [{ status := "running" }, { status := "finished" }] :=
    (readStatuses_replies hreplies (by decide) hreadable).trans (by rw [hpublished]; rfl)
  have hj : (Session.new (fun _ _ => none) Session.unary).jobOf 0 = "j" := by decide +kernel
  rw [← hj] at hf h₂ hreplies
  obtain ⟨hdone, hend⟩ := outcome_delivered hrun hmain hlast (Session.initial_new _ Session.unary_injective)
    hreplies (by decide) hreadable h₁ hf (by rw [hcap]; rfl) h₂ (by rw [hj]; exact hread.symm)
  have hd := hdone (by rw [hempty]; rfl)
  exact ⟨s, hd, (hend hd).1.mpr rfl⟩

end Delivered

end SlurmManager.Worker
