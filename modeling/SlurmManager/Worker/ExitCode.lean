import SlurmManager.Worker.OutputIntegrity
import SlurmManager.Worker.Progress

/-!
# ExitCode — the exit status of the workload and the code of the run

The runs here are those in which nothing outside goes wrong: no cancellation, every publication and every
archive write succeeds, and the leader of the workload exits with a status `k` of its own.

* `Calm`: what holds throughout such a run.
* `exit_code_iff`: the run answers `k`, unless `k` is 0 and a copy goroutine is still running when
  `WaitDelay` has passed since the leader exited.  Then `Wait` returns `ErrWaitDelay`, which is no exit
  status, and the run reports 1 for a workload that exited with 0.
-/

namespace SlurmManager.Worker

/-- Nothing but the workload decides. -/
def Undisturbed (k : ℕ) (s : State) : Label → Prop
  | .cancel => False
  | .announce r | .launch r | .beat _ r | .send _ r | .flush r | .report r => r = none
  | .copy x n written err => err = none ∧ written = ((s.outlet x).pending.take n).length
  | .exit status => status = .exited k
  | _ => True

instance (k : ℕ) (s : State) : DecidablePred (Undisturbed k s)
  | .cancel => inferInstanceAs (Decidable False)
  | .announce r | .launch r | .beat _ r | .send _ r | .flush r | .report r => inferInstanceAs (Decidable (r = none))
  | .copy x n written err => inferInstanceAs (Decidable (err = none ∧ written = ((s.outlet x).pending.take n).length))
  | .exit status => inferInstanceAs (Decidable (status = .exited k))
  | .propagate | .tick | .stopBeating | .watch | .terminated | .emit _ _ | .close _ | .eof _ | .expire | .closed _
  | .waited | .drained | .halted | .conclude => inferInstanceAs (Decidable True)

theorem Label.Own.undisturbed {k : ℕ} {s : State} {l : Label} (h : l.Own) : Undisturbed k s l := by
  cases l <;> first | exact h | trivial

/-- The status that belongs to an exit status. -/
def exitText (k : ℕ) : String :=
  if k = 0 then "finished" else "error:workload exited with code " ++ toString k

/-- The run has returned `k`, and its last publication says so. -/
def State.Answered (s : State) (k : ℕ) : Prop :=
  (∃ err, s.main = .returned k err) ∧ ∃ r, s.attempts.getLast? = some ⟨.status (exitText k), r⟩

/-! ## The invariant -/

structure State.Calm (s : State) (k : ℕ) : Prop where
  ctxDone : s.ctxDone = false
  workDone : s.workDone = false
  publishError : s.publishError = none
  attempts : ∀ a ∈ s.attempts, a.error = none
  writers : ∀ x, (s.outlet x).writer.err = none
  leader : ∀ status, s.leader = some status → status = .exited k
  copyError : s.copyError ≠ none → s.expired = true
  waited : s.processDone = true → s.runError = waitResult (.exited k) s
  early : s.runError ≠ none → s.processDone = true

theorem publish_calm {m : Feedback} {s : State} (hp : s.publishError = none) :
    publish m none s = ({ s with attempts := s.attempts ++ [⟨m, none⟩] }, none) := by
  rcases publish_cases m none s with ⟨hne, -, -⟩ | ⟨-, h⟩
  · contradiction
  · rw [h]
    simp [State.attempted, hp]

namespace State.Calm

variable {s s' : State} {k : ℕ} {l : Label} (h : s.Calm k)

section Step
include h

theorem attempted (m : Feedback) : State.Calm { s with attempts := s.attempts ++ [⟨m, none⟩] } k := by
  refine ⟨h.ctxDone, h.workDone, h.publishError, fun a ha => ?_, h.writers, h.leader, h.copyError, h.waited, h.early⟩
  rcases List.mem_append.mp ha with ha | ha
  · exact h.attempts a ha
  · rw [List.mem_singleton.mp ha]

theorem setOutlet {x : Stream} {o : Outlet} (ho : o.writer.err = none) : (s.setOutlet x o).Calm k := by
  refine ⟨h.ctxDone, h.workDone, h.publishError, h.attempts, fun y => ?_, h.leader, h.copyError, h.waited, h.early⟩
  rw [setOutlet_outlet]
  split
  · exact ho
  · exact h.writers y

/-- The end of a copy goroutine, while the workload is waited for. -/
theorem finish (x : Stream) {e : Option Err} (hp : s.processDone = false) (he : e ≠ none → s.expired = true) :
    (Worker.finish x e s).Calm k := by
  have hset := h.setOutlet (x := x) (o := { s.outlet x with copier := .finished }) (h.writers x)
  refine ⟨h.ctxDone, h.workDone, h.publishError, h.attempts, hset.writers, h.leader, fun hc => ?_, fun hd => ?_,
    h.early⟩
  · change (s.copyError <|> e) ≠ none at hc
    cases hcopy : s.copyError with
    | some e' => exact h.copyError (by rw [hcopy]; nofun)
    | none =>
      rw [hcopy] at hc
      exact he hc
  · have hd' : s.processDone = true := hd
    rw [hp] at hd'
    contradiction

theorem step (hq : s.Quiet) (hsound : s.Sound) (hok : Undisturbed k s l) (hs : Moved s l s') : s'.Calm k := by
  have hearly : ∀ {x}, (s.outlet x).copier = .running → s.processDone = false := by
    intro x hc
    apply hsound.early
    by_contra hw
    exact hq.copiers (fun hm => hw (by rw [hm]; trivial)) x hc
  cases hs with
  | cancel => exact hok.elim
  | propagate hc =>
    rw [h.ctxDone] at hc
    contradiction
  | unannounced hm hr =>
    obtain rfl := hok
    rw [publish_calm h.publishError] at hr
    contradiction
  | announced hm hr =>
    obtain rfl := hok
    rw [publish_calm h.publishError]
    have ha := h.attempted (.status "running")
    exact ⟨ha.ctxDone, ha.workDone, ha.publishError, ha.attempts, ha.writers, ha.leader, ha.copyError, ha.waited,
      ha.early⟩
  | unlaunched hm hr =>
    obtain rfl := hok
    rcases hr with ⟨hw, -⟩ | ⟨-, hr⟩
    · rw [h.workDone] at hw
      contradiction
    · contradiction
  | launched hm hw =>
    exact ⟨h.ctxDone, h.workDone, h.publishError, h.attempts, h.writers, h.leader, h.copyError, h.waited, h.early⟩
  | beatFailed hh hr =>
    obtain rfl := hok
    rw [publish_calm h.publishError] at hr
    contradiction
  | @beat t r hh hr =>
    obtain rfl := hok
    rw [publish_calm h.publishError]
    have ha := h.attempted (.heartbeat t)
    exact ⟨ha.ctxDone, ha.workDone, ha.publishError, ha.attempts, ha.writers, ha.leader, ha.copyError, ha.waited,
      ha.early⟩
  | tick | stopBeating | watchCancelled | watchDone | terminated | drained | halted | conclude =>
    exact ⟨h.ctxDone, h.workDone, h.publishError, h.attempts, h.writers, h.leader, h.copyError, h.waited, h.early⟩
  | emit hst hh => exact h.setOutlet (h.writers _)
  | close hst => exact h.setOutlet (h.writers _)
  | exit hst hl =>
    obtain rfl := hok
    refine ⟨h.ctxDone, h.workDone, h.publishError, h.attempts, h.writers, fun status hstatus => ?_, h.copyError,
      h.waited, h.early⟩
    exact (Option.some.inj hstatus).symm
  | @copy x n written err hc ho hn =>
    obtain ⟨rfl, rfl⟩ := hok
    have hset := h.setOutlet (x := x) (o := { s.outlet x with pending := (s.outlet x).pending.drop n })
      (h.writers x)
    rw [receive_ok (by rw [setOutlet_self]; exact h.writers x)]
    exact hset.setOutlet (by rw [setOutlet_self]; exact h.writers x)
  | @send x r c rest hc ho =>
    obtain rfl := hok
    rw [publish_calm h.publishError]
    exact (h.attempted (.log x c)).setOutlet (h.writers x)
  | eof hc ho hp hh => exact h.finish _ (hearly hc) fun hn => absurd rfl hn
  | expire hm hl hc =>
    refine ⟨h.ctxDone, h.workDone, h.publishError, h.attempts, h.writers, h.leader, fun _ => rfl, fun hd => ?_,
      h.early⟩
    have hd' := hsound.early (by rw [hm]; trivial)
    rw [hd'] at hd
    contradiction
  | closed hc ho he => exact h.finish _ (hearly hc) fun _ => he
  | @waited status hm hl hc =>
    refine ⟨h.ctxDone, h.workDone, h.publishError, h.attempts, h.writers, h.leader, h.copyError, fun _ => ?_,
      fun _ => rfl⟩
    obtain rfl := h.leader status hl
    rfl
  | @flushedEmpty x r hm hb =>
    cases x
    · exact ⟨h.ctxDone, h.workDone, h.publishError, h.attempts, h.writers, h.leader, h.copyError, h.waited, h.early⟩
    · exact ⟨h.ctxDone, h.workDone, h.publishError, h.attempts, h.writers, h.leader, h.copyError, h.waited, h.early⟩
  | @flushed x r hm hb =>
    obtain rfl := hok
    rw [publish_calm h.publishError]
    have ha := (h.attempted (.log x ⟨(s.outlet x).writer.buffer.bytes, false⟩)).setOutlet (x := x)
      (o := { s.outlet x with writer := { (s.outlet x).writer with buffer := Buffer.empty } }) (h.writers x)
    cases x
    · exact ⟨ha.ctxDone, ha.workDone, ha.publishError, ha.attempts, ha.writers, ha.leader, ha.copyError, ha.waited,
        ha.early⟩
    · exact ⟨ha.ctxDone, ha.workDone, ha.publishError, ha.attempts, ha.writers, ha.leader, ha.copyError, ha.waited,
        ha.early⟩
  | @report code status failure r hm =>
    obtain rfl := hok
    rw [publish_calm h.publishError]
    have ha := h.attempted (.status status)
    exact ⟨ha.ctxDone, ha.workDone, ha.publishError, ha.attempts, ha.writers, ha.leader, ha.copyError, ha.waited,
      ha.early⟩

end Step

theorem initial : State.Calm {} k :=
  ⟨rfl, rfl, rfl, nofun, fun _ => rfl, nofun, fun hn => absurd rfl hn, nofun, fun hn => absurd rfl hn⟩

end State.Calm

/-! ## Runs -/

theorem Moved.expired {s s' : State} {l : Label} (hs : Moved s l s') :
    s'.expired = true ↔ s.expired = true ∨ l = .expire := by
  cases hs with
  | expire hm hl hc => simp
  | unannounced hm hr => simp [(publish_same _ _ s).expired]
  | announced hm hr => simp [(publish_same _ _ s).expired]
  | beatFailed hh hr => simp [(publish_same _ _ s).expired]
  | beat hh hr => simp [(publish_same _ _ s).expired]
  | report hm => simp [(publish_same _ _ s).expired]
  | copy hc ho hn =>
    rcases receive_cases _ _ _ _ (s.setOutlet _ _) with ⟨e, -, heq⟩ | ⟨-, e, heq⟩ | ⟨-, heq⟩ <;> rw [heq] <;>
      simp [finish, State.setOutlet]
  | send hc ho => simp [State.popped, State.setOutlet, (publish_same _ _ s).expired]
  | @flushedEmpty x r hm hb => cases x <;> simp [afterFlush]
  | @flushed x r hm hb => cases x <;> simp [afterFlush, State.emptied, State.setOutlet, (publish_same _ _ s).expired]
  | _ => simp [finish, State.setOutlet, State.launched]

section Runs

variable {s : State} {ls : List Label} {k : ℕ}

theorem expired_iff {ok : State → Label → Prop} (hrun : Run Steps ok {} ls s) :
    s.expired = true ↔ .expire ∈ ls := by
  generalize hi : ({} : State) = i at hrun
  induction hrun with
  | nil => simp [← hi]
  | snoc _ _ hs ih =>
    rw [(Steps.moved hs).expired, ih, List.mem_append, List.mem_singleton, eq_comm (a := Label.expire)]

theorem State.calm (hrun : Run Steps (Undisturbed k) {} ls s) : s.Phase ∧ s.Calm k := by
  have hinv : (s.Phase ∧ s.Quiet) ∧ s.Sound ∧ s.Calm k := by
    refine hrun.invariant (I := fun s => (s.Phase ∧ s.Quiet) ∧ s.Sound ∧ s.Calm k)
      ⟨⟨State.phase_initial, State.quiet_initial⟩, State.Sound.initial, State.Calm.initial⟩ ?_
    intro s l s' ⟨⟨hph, hq⟩, hsound, h⟩ hok hs
    exact ⟨⟨hph.step hq hs.moved, hq.step hs.moved⟩, hsound.step hq hph hs.moved, h.step hq hsound hok hs.moved⟩
  exact ⟨hinv.1.1, hinv.2.2⟩

/-- What a calm run has returned. -/
theorem State.Calm.returned (h : s.Calm k) (hph : s.Phase) {code : ℕ} {err : Option Err}
    (hm : s.main = .returned code err) :
    ∃ status, (code, status) = verdict false (waitResult (.exited k) s) false false ∧
      s.attempts.getLast? = some ⟨.status status, none⟩ := by
  unfold State.Phase at hph
  rw [hm] at hph
  rcases hph with href | ⟨rest, failure, chosen, status, r, hrep⟩
  · obtain ⟨e, he⟩ := href.attempts
    have hok := h.attempts ⟨.status "running", some e⟩ (by rw [he]; simp)
    contradiction
  have hok : ∀ a ∈ rest ++ [⟨.status status, r⟩], a.error = none := fun a ha =>
    h.attempts a (by rw [hrep.attempts]; exact List.mem_cons_of_mem _ ha)
  obtain rfl : r = none := hok ⟨.status status, r⟩ (by simp)
  obtain rfl : failure = none := by
    rw [← hrep.fed.failure]
    rcases List.eq_nil_or_concat' rest with rfl | ⟨l, b, rfl⟩
    · rfl
    · rw [List.getLast?_concat]
      exact hok b (by simp)
  obtain ⟨hdone, cancelled, hc, hv⟩ := hrep.decided
  have hcancel : cancelled = false := by
    by_contra hn
    have hctx := hc (by simpa using hn)
    rw [h.ctxDone] at hctx
    contradiction
  have hout : s.outputFailed = false := by simp [State.outputFailed, h.writers]
  have hwait : s.runError = waitResult (.exited k) s := by
    apply h.waited
    by_cases hr : s.runError = none
    · exact hdone hr
    · exact h.early hr
  rw [hcancel, hout, hwait] at hv
  refine ⟨status, ?_, ?_⟩
  · rw [hrep.code]
    simpa using hv
  · rw [hrep.attempts, ← List.cons_append, List.getLast?_concat]

theorem verdict_exit (hk : k ≠ 0) : verdict false (waitResult (.exited k) s) false false = (k, exitText k) := by
  obtain ⟨n, rfl⟩ := Nat.exists_eq_succ_of_ne_zero hk
  simp [verdict, waitResult, RunError.code, exitText]

theorem verdict_zero (he : s.expired = false) (hc : s.copyError = none) :
    verdict false (waitResult (.exited 0) s) false false = (0, exitText 0) := by
  simp [verdict, waitResult, exitText, he, hc]

theorem verdict_expired (he : s.expired = true) :
    (verdict false (waitResult (.exited 0) s) false false).1 = 1 := by
  simp [verdict, waitResult, RunError.code, he]

/-- **The exit status of the workload decides, or `WaitDelay` does.**  Once the leader has exited with `k`,
the run can return whatever the other processes do; and what it returns is `k`, with the status that
belongs to it, exactly when `k` is not 0 or both copy goroutines ended before `WaitDelay` had passed. -/
theorem exit_code_iff (hrun : Run Steps (Undisturbed k) {} ls s) :
    (∀ status, s.leader = some status → ∃ ls' t code err, Run Steps (Undisturbed k) s ls' t ∧
      t.main = .returned code err) ∧
    ∀ code err, s.main = .returned code err → (s.Answered k ↔ k ≠ 0 ∨ .expire ∉ ls) := by
  obtain ⟨hph, h⟩ := State.calm hrun
  refine ⟨fun status hl => ?_, fun code err hm => ?_⟩
  · obtain ⟨ls', t, code, err, hrun', ht⟩ := returns hrun hl
    exact ⟨ls', t, code, err, hrun'.mono fun _ _ hown => hown.undisturbed, ht⟩
  · obtain ⟨status, hv, hlast⟩ := h.returned hph hm
    have hanswered : (code, status) = (k, exitText k) → s.Answered k := by
      intro heq
      obtain ⟨rfl, rfl⟩ := Prod.mk.inj heq
      exact ⟨⟨err, hm⟩, none, hlast⟩
    rw [← expired_iff hrun |>.not]
    constructor
    · rintro ⟨⟨err', hm'⟩, -⟩
      by_contra hn
      push Not at hn
      obtain ⟨rfl, he⟩ := hn
      have hcode := congrArg Prod.fst hv
      rw [verdict_expired he] at hcode
      rw [hm] at hm'
      cases hm'
      contradiction
    · rintro (hk | he)
      · exact hanswered (hv.trans (verdict_exit hk))
      · by_cases hk : k = 0
        · subst hk
          have hcopy : s.copyError = none := by
            by_contra hc
            exact he (h.copyError hc)
          exact hanswered (hv.trans (verdict_zero (by simpa using he) hcopy))
        · exact hanswered (hv.trans (verdict_exit hk))

end Runs

/-- A workload that exits with `k` and leaves a process with the output open. -/
def outputHeld (k : ℕ) : List Label :=
  [.announce none, .launch none, .beat 1 none, .exit (.exited k), .close .stderr, .eof .stderr, .expire, .closed .stdout,
    .waited, .watch, .drained, .flush none, .flush none, .stopBeating, .halted, .conclude, .report none]

theorem held_output : ∃ s : State, Run Steps (Undisturbed 0) {} (outputHeld 0) s ∧
    s.main = .returned 1 (some "exec: WaitDelay expired before I/O complete") := by
  have hleads : Run.leads step (fun s l => decide (Undisturbed 0 s l)) (fun s => decide
      (s.main = .returned 1 (some "exec: WaitDelay expired before I/O complete"))) (outputHeld 0) {} = true := by
    decide +kernel
  obtain ⟨s, hrun, hs⟩ := Run.of_leads (R := Steps) (fun _ _ _ => id) (fun _ _ => of_decide_eq_true) hleads
  exact ⟨s, hrun, of_decide_eq_true hs⟩

/-- The run reports 1 for a workload that exited with 0. -/
theorem exit_zero_reported_as_one : ¬ ∀ (k : ℕ) (s : State) (ls : List Label) (code : ℕ) (err : Option Err),
    Run Steps (Undisturbed k) {} ls s → s.main = .returned code err → s.Answered k := by
  intro h
  obtain ⟨s, hrun, hm⟩ := held_output
  obtain ⟨⟨err', hm'⟩, -⟩ := h 0 s _ 1 _ hrun hm
  rw [hm] at hm'
  cases hm'

/-- The same workload, exiting with 3. -/
theorem exit_code_iff_of_three : ∃ (s : State) (ls : List Label), Run Steps (Undisturbed 3) {} ls s ∧
    .expire ∈ ls ∧ s.Answered 3 := by
  have hleads : Run.leads step (fun s l => decide (Undisturbed 3 s l)) (fun s => decide
      (s.main = .returned 3 (some "exit status 3"))) (outputHeld 3) {} = true := by
    decide +kernel
  obtain ⟨s, hrun, hs⟩ := Run.of_leads (R := Steps) (fun _ _ _ => id) (fun _ _ => of_decide_eq_true) hleads
  have hm := of_decide_eq_true hs
  exact ⟨s, _, hrun, by simp [outputHeld], ((exit_code_iff hrun).2 _ _ hm).mpr (Or.inl (by decide))⟩

end SlurmManager.Worker
