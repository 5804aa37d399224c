import SlurmManager.Worker.Phases

/-!
# FeedbackOrder — what a worker publishes, and in which order

The heartbeat, both outputs and the main goroutine share one publisher.  However they are interleaved,
and whichever attempts fail, the first attempt says that the job runs, the last one says how it ended, and
no log or heartbeat follows one that failed.
-/

namespace SlurmManager.Worker

/-- The statuses with which a run ends. -/
def Terminal (status : String) : Prop :=
  status = "finished" ∨ status = "cancelled" ∨ ∃ reason, status = "error:" ++ reason

theorem terminal_verdict (cancelled : Bool) (e : Option RunError) (outputFailed feedbackFailed : Bool) :
    Terminal (verdict cancelled e outputFailed feedbackFailed).2 := by
  unfold verdict Terminal
  split_ifs
  · exact Or.inr (Or.inr ⟨"Redis feedback failed", rfl⟩)
  · exact Or.inr (Or.inr ⟨"Slurm output write failed", rfl⟩)
  · exact Or.inr (Or.inl rfl)
  · cases e with
    | none => exact Or.inl rfl
    | some e =>
      refine Or.inr (Or.inr ⟨"workload exited with code " ++ toString e.code, ?_⟩)
      change "error:" ++ "workload exited with code " ++ toString e.code = _
      rw [String.append_assoc]

/-- The attempts of a run that has told how it ended. -/
structure Complete (attempts : List Attempt) (code : ℕ) (rest : List Attempt) (failure : Option Err)
    (status : String) (result : Option Err) : Prop where
  attempts : attempts = ⟨.status "running", none⟩ :: (rest ++ [⟨.status status, result⟩])
  fed : Fed rest failure
  terminal : Terminal status
  failed : failure ≠ none → status = "error:Redis feedback failed" ∧ code = 1

/-- What has been attempted, by where the main goroutine stands. -/
def State.Ordered (s : State) : Prop :=
  match s.main with
  | .announcing => s.attempts = [] ∧ s.started = false
  | .returned code _ =>
    (∃ e, s.attempts = [⟨.status "running", some e⟩] ∧ s.started = false) ∨
      ∃ rest failure status result, Complete s.attempts code rest failure status result
  | _ => ∃ rest failure, s.attempts = ⟨.status "running", none⟩ :: rest ∧ Fed rest failure

theorem State.Report.complete {s : State} {code chosen : ℕ} {rest : List Attempt} {failure r : Option Err}
    {status : String} (h : s.Report code rest failure chosen status r) :
    Complete s.attempts code rest failure status r := by
  obtain ⟨-, b, -, hv⟩ := h.decided
  refine ⟨h.attempts, h.fed, ?_, fun hf => ?_⟩
  · rw [show status = _ from congrArg Prod.snd hv]
    exact terminal_verdict _ _ _ _
  · have hsome : failure.isSome = true := by
      rw [Option.isSome_iff_ne_none]
      exact hf
    obtain ⟨hchosen, hstatus⟩ : chosen = 1 ∧ status = "error:Redis feedback failed" := by
      simpa [verdict, hsome] using hv
    refine ⟨hstatus, ?_⟩
    rw [h.code, if_neg (fun hn => hf hn.1), hchosen]

theorem State.Phase.ordered {s : State} (h : s.Phase) : s.Ordered := by
  unfold State.Phase at h
  unfold State.Ordered
  cases hm : s.main with
  | announcing =>
    rw [hm] at h
    exact ⟨h.1, h.2.2⟩
  | returned code err =>
    rw [hm] at h
    rcases h with h | ⟨rest, failure, chosen, status, r, h⟩
    · obtain ⟨e, he⟩ := h.attempts
      exact Or.inl ⟨e, he, h.started⟩
    · exact Or.inr ⟨rest, failure, status, r, h.complete⟩
  | reporting code status failure =>
    rw [hm] at h
    obtain ⟨rest, hrest, hf⟩ := h.1
    exact ⟨rest, _, hrest, hf⟩
  | launching | waiting | draining | flushing x | halting | concluding =>
    rw [hm] at h
    obtain ⟨rest, hrest, hf⟩ := h
    exact ⟨rest, _, hrest, hf⟩

/-- **The order of the attempts**, in every state of every run.

* Before the return: nothing, or `running` and logs and heartbeats (`Fed`: only the last of them may
  have failed).
* After the return: either `running` failed and is the only attempt, and the workload was never started;
  or one terminal status came last.  When a log or a heartbeat had failed, that status says so and the
  code is 1. -/
theorem feedback_order {s : State} {ls : List Label} (hrun : Run Steps (fun _ _ => True) {} ls s) :
    s.Ordered := (State.reachable hrun).1.ordered

/-- A heartbeat fails while a line of the output is being copied; the log is not attempted any more. -/
theorem feedback_order_of_failed_heartbeat : ∃ (s : State) (ls : List Label),
    Run Steps (fun _ _ => True) {} ls s ∧ s.Ordered ∧
    s.attempts.map (fun a => (a.message.kind, a.error)) =
      [(.status, none), (.heartbeat, some "timeout"), (.status, none)] := by
  have hex : ∃ s : State, Run Steps (fun _ _ => True) {}
      [.announce none, .launch none, .emit .stdout [104, 10], .copy .stdout 2 2 none, .beat 1 (some "timeout"),
        .send .stdout none, .exit (.signaled "terminated"), .close .stdout, .close .stderr, .eof .stdout,
        .eof .stderr, .waited, .watch, .terminated, .drained, .flush none, .flush none, .halted, .conclude,
        .report none] s ∧
      s.attempts.map (fun a => (a.message.kind, a.error)) =
        [(.status, none), (.heartbeat, some "timeout"), (.status, none)] :=
    Run.of_evaluated (fun _ _ _ => id) (by decide +kernel)
  obtain ⟨s, hrun, hs⟩ := hex
  exact ⟨s, _, hrun, feedback_order hrun, hs⟩

end SlurmManager.Worker
