import SlurmManager.Worker.Phases

/-!
# Progress — once its leader has exited, nothing can keep a worker from returning

* `Wired`: the goroutines that the main one waits for were started, and their stop signals are given.
* `Ends`: some steps of the worker's own goroutines lead to the return, without any help of the
  processes.
* `returns`: this holds in every state of every run in which the leader has exited.
-/

namespace SlurmManager.Worker

/-- The steps of the worker itself, with publications that succeed. -/
def Label.Own : Label → Prop
  | .expire | .closed _ | .waited | .watch | .terminated | .drained | .stopBeating | .halted | .conclude => True
  | .beat _ r | .send _ r | .flush r | .report r => r = none
  | _ => False

/-- The main goroutine waits for the watcher. -/
def Main.Watched : Main → Prop
  | .waiting | .draining => True
  | _ => False

structure State.Wired (s : State) : Prop where
  heartbeat : s.main.Open → s.heartbeat ≠ .absent
  stop : s.main = .halting → s.stopHeartbeat = true
  watcher : s.main.Watched → s.watcher ≠ .absent
  done : s.main = .draining → s.processDone = true
  copiers : s.main = .waiting → ∀ x, (s.outlet x).copier ≠ .absent
  fresh : s.main = .announcing ∨ s.main = .launching → s.started = false
  leader : s.started = false → s.leader = none

namespace State.Wired

variable {s s' : State} {l : Label}

theorem initial : State.Wired {} :=
  ⟨False.elim, nofun, False.elim, nofun, nofun, fun _ => rfl, fun _ => rfl⟩

/-- What changes neither the main goroutine nor the others' existence. -/
theorem congr (h : s.Wired) (hm : s'.main = s.main) (hs : s'.stopHeartbeat = s.stopHeartbeat)
    (hp : s'.processDone = s.processDone) (hst : s'.started = s.started)
    (hh : s'.heartbeat = .absent → s.heartbeat = .absent) (hw : s'.watcher = .absent → s.watcher = .absent)
    (hc : ∀ x, (s'.outlet x).copier = .absent → (s.outlet x).copier = .absent)
    (hl : s.started = false → s'.leader = s.leader) : s'.Wired := by
  refine ⟨fun ho ha => ?_, fun hn => ?_, fun hn ha => ?_, fun hn => ?_, fun hn x ha => ?_, fun hn => ?_,
    fun hn => ?_⟩
  · rw [hm] at ho
    exact h.heartbeat ho (hh ha)
  · rw [hm] at hn
    rw [hs, h.stop hn]
  · rw [hm] at hn
    exact h.watcher hn (hw ha)
  · rw [hm] at hn
    rw [hp, h.done hn]
  · rw [hm] at hn
    exact h.copiers hn x (hc x ha)
  · rw [hm] at hn
    rw [hst, h.fresh hn]
  · rw [hst] at hn
    rw [hl hn, h.leader hn]

theorem publish (h : s.Wired) (m : Feedback) (r : Option Err) : (Worker.publish m r s).1.Wired := by
  have hsame := publish_same m r s
  refine h.congr hsame.main hsame.stopHeartbeat hsame.processDone hsame.started ?_ ?_ ?_ fun _ => hsame.leader
  · rw [hsame.heartbeat]
    exact id
  · rw [hsame.watcher]
    exact id
  · rw [hsame.outlet]
    exact fun _ => id

theorem setOutlet (h : s.Wired) {x : Stream} {o : Outlet} (ho : o.copier = .absent → (s.outlet x).copier = .absent) :
    (s.setOutlet x o).Wired := by
  refine h.congr rfl rfl rfl rfl id id (fun y => ?_) fun _ => rfl
  rw [setOutlet_outlet]
  split
  · rename_i hy
    rw [hy]
    exact ho
  · exact id

theorem finish (h : s.Wired) (x : Stream) (e : Option Err) : (Worker.finish x e s).Wired := by
  have hset : (s.setOutlet x { s.outlet x with copier := .finished }).Wired := h.setOutlet nofun
  exact hset.congr rfl rfl rfl rfl id id (fun _ => id) fun _ => rfl

theorem receive (h : s.Wired) (x : Stream) (data : Bytes) (written : ℕ) (err : Option Err) :
    (Worker.receive x data written err s).Wired := by
  rcases receive_cases x data written err s with ⟨e, -, heq⟩ | ⟨-, e, heq⟩ | ⟨-, heq⟩ <;> rw [heq]
  · exact h.finish x _
  · refine finish ?_ x (some e)
    have hset : (s.setOutlet x { s.outlet x with writer := { (s.outlet x).writer with
        err := some e, archive := (s.outlet x).writer.archive ++ data.take written } }).Wired := h.setOutlet id
    exact hset.congr rfl rfl rfl rfl id id (fun _ => id) fun _ => rfl
  · exact h.setOutlet id

theorem step (h : s.Wired) (hs : Moved s l s') : s'.Wired := by
  cases hs with
  | cancel | propagate | expire => exact h.congr rfl rfl rfl rfl id id (fun _ => id) fun _ => rfl
  | tick | stopBeating => exact h.congr rfl rfl rfl rfl nofun id (fun _ => id) fun _ => rfl
  | watchCancelled | watchDone | terminated =>
    exact h.congr rfl rfl rfl rfl id nofun (fun _ => id) fun _ => rfl
  | exit hst hl =>
    refine h.congr rfl rfl rfl rfl id id (fun _ => id) fun hf => ?_
    rw [hst] at hf
    contradiction
  | unannounced hm hr =>
    exact ⟨False.elim, nofun, False.elim, nofun, nofun, nofun, (h.publish _ _).leader⟩
  | announced hm hr =>
    refine ⟨fun _ => nofun, nofun, False.elim, nofun, nofun, fun _ => ?_, (h.publish _ _).leader⟩
    exact (h.publish _ _).fresh (Or.inl ((publish_same _ _ s).main.trans hm))
  | unlaunched hm hr =>
    exact ⟨fun _ => h.heartbeat (by rw [hm]; trivial), nofun, False.elim, nofun, nofun, nofun, h.leader⟩
  | launched hm hw =>
    exact ⟨fun _ => h.heartbeat (by rw [hm]; trivial), nofun, fun _ => nofun, nofun, fun _ _ => nofun, nofun,
      nofun⟩
  | beatFailed hh hr => exact (h.publish _ _).congr rfl rfl rfl rfl nofun id (fun _ => id) fun _ => rfl
  | beat hh hr => exact (h.publish _ _).congr rfl rfl rfl rfl nofun id (fun _ => id) fun _ => rfl
  | emit | close => exact h.setOutlet id
  | @copy x n written err hc ho =>
    have hset : (s.setOutlet x { s.outlet x with pending := (s.outlet x).pending.drop n }).Wired :=
      h.setOutlet id
    exact hset.receive _ _ _ _
  | send hc ho => exact (h.publish _ _).setOutlet id
  | eof | closed => exact h.finish _ _
  | waited hm hl hc =>
    exact ⟨fun _ => h.heartbeat (by rw [hm]; trivial), nofun, fun _ => h.watcher (by rw [hm]; trivial),
      fun _ => rfl, nofun, nofun, h.leader⟩
  | drained hm hw =>
    exact ⟨fun _ => h.heartbeat (by rw [hm]; trivial), nofun, False.elim, nofun, nofun, nofun, h.leader⟩
  | @flushedEmpty x r hm hb =>
    cases x
    · exact ⟨fun _ => h.heartbeat (by rw [hm]; trivial), nofun, False.elim, nofun, nofun, nofun, h.leader⟩
    · exact ⟨fun _ => h.heartbeat (by rw [hm]; trivial), fun _ => rfl, False.elim, nofun, nofun, nofun, h.leader⟩
  | @flushed x r hm hb =>
    have hp := h.publish (.log x ⟨(s.outlet x).writer.buffer.bytes, false⟩) r
    have hopen := hp.heartbeat (by rw [(publish_same _ r s).main, hm]; trivial)
    cases x
    · exact ⟨fun _ => hopen, nofun, False.elim, nofun, nofun, nofun, hp.leader⟩
    · exact ⟨fun _ => hopen, fun _ => rfl, False.elim, nofun, nofun, nofun, hp.leader⟩
  | halted hm hh =>
    exact ⟨fun _ => h.heartbeat (by rw [hm]; trivial), nofun, False.elim, nofun, nofun, nofun, h.leader⟩
  | conclude hm => exact ⟨False.elim, nofun, False.elim, nofun, nofun, nofun, h.leader⟩
  | @report code status failure r hm =>
    have hp := (h.publish (.status status) r).leader
    unfold outcome
    split
    · exact ⟨False.elim, nofun, False.elim, nofun, nofun, nofun, hp⟩
    · split
      · exact ⟨False.elim, nofun, False.elim, nofun, nofun, nofun, hp⟩
      · exact ⟨False.elim, nofun, False.elim, nofun, nofun, nofun, hp⟩

end State.Wired

theorem State.wired {s : State} {ls : List Label} {ok : State → Label → Prop} (hrun : Run Steps ok {} ls s) :
    s.Wired :=
  hrun.invariant State.Wired.initial fun _ _ _ h _ hs => h.step hs.moved

/-! ## The rest of a run -/

/-- The worker's own steps lead to the return. -/
def State.Ends (s : State) : Prop :=
  ∃ ls t code err, Run Steps (fun _ l => l.Own) s ls t ∧ t.main = .returned code err

section Ends

variable {s t : State}

theorem State.Ends.step {l : Label} (hs : Steps s l t) (hl : l.Own) (h : t.Ends) : s.Ends := by
  obtain ⟨ls, u, code, err, hrun, hu⟩ := h
  exact ⟨l :: ls, u, code, err, Run.cons hl hs hrun, hu⟩

theorem State.Ends.run {ls : List Label} (hrun : Run Steps (fun _ l => l.Own) s ls t) (h : t.Ends) : s.Ends := by
  obtain ⟨ls', u, code, err, hrun', hu⟩ := h
  exact ⟨ls ++ ls', u, code, err, hrun.append hrun', hu⟩

theorem ends_reporting {code : ℕ} {status : String} {failure : Option Err}
    (hm : s.main = .reporting code status failure) : s.Ends := by
  have hret : ∀ e u, ∃ c err, outcome code failure e u = .returned c err := by
    intro e u
    unfold outcome
    split
    · exact ⟨_, _, rfl⟩
    · split
      · exact ⟨_, _, rfl⟩
      · exact ⟨_, _, rfl⟩
  obtain ⟨c, err, hc⟩ := hret (publish (.status status) none s).2 (publish (.status status) none s).1
  exact ⟨[.report none], _, c, err, Run.single rfl (Moved.report hm).steps, hc⟩

theorem ends_concluding (hm : s.main = .concluding) : s.Ends :=
  State.Ends.step (Moved.conclude hm).steps trivial (ends_reporting rfl)

theorem ends_halting (hm : s.main = .halting) (hstop : s.stopHeartbeat = true) (hh : s.heartbeat ≠ .absent) :
    s.Ends := by
  have hdone : ∀ u : State, u.main = .halting → u.heartbeat = .done → u.Ends := by
    intro u hu hd
    exact State.Ends.step (Moved.halted hu hd).steps trivial (ends_concluding rfl)
  have hpausing : ∀ u : State, u.main = .halting → u.stopHeartbeat = true → u.heartbeat = .pausing →
      u.Ends := by
    intro u hu hs hp
    exact State.Ends.step (Moved.stopBeating hp hs).steps trivial (hdone _ hu rfl)
  cases hheart : s.heartbeat with
  | absent => contradiction
  | done => exact hdone s hm hheart
  | pausing => exact hpausing s hm hstop hheart
  | beating =>
    have hsame := publish_same (.heartbeat 0) none s
    cases hr : (publish (.heartbeat 0) none s).2 with
    | none =>
      refine State.Ends.step (Moved.beat hheart hr).steps rfl (hpausing _ ?_ ?_ rfl)
      · exact hsame.main.trans hm
      · exact hsame.stopHeartbeat.trans hstop
    | some e =>
      refine State.Ends.step (Moved.beatFailed hheart hr).steps rfl (hdone _ ?_ rfl)
      exact hsame.main.trans hm

theorem ends_flushing (x : Stream) (hm : s.main = .flushing x) (hh : s.heartbeat ≠ .absent) : s.Ends := by
  have hflush : ∀ (x : Stream) (u : State), u.main = .flushing x → u.heartbeat ≠ .absent →
      ∃ v : State, Steps u (.flush none) (afterFlush x v) ∧ v.heartbeat = u.heartbeat := by
    intro x u hu hheart
    by_cases hb : (u.outlet x).writer.buffer.bytes = []
    · exact ⟨u, (Moved.flushedEmpty hu hb).steps, rfl⟩
    · exact ⟨_, (Moved.flushed hu hb).steps, (publish_same _ none u).heartbeat⟩
  have hstderr : ∀ u : State, u.main = .flushing .stderr → u.heartbeat ≠ .absent → u.Ends := by
    intro u hu hheart
    obtain ⟨v, hstep, hv⟩ := hflush .stderr u hu hheart
    refine State.Ends.step hstep rfl (ends_halting rfl rfl ?_)
    exact fun ha => hheart (hv.symm.trans ha)
  cases x with
  | stderr => exact hstderr s hm hh
  | stdout =>
    obtain ⟨v, hstep, hv⟩ := hflush .stdout s hm hh
    refine State.Ends.step hstep rfl (hstderr _ rfl ?_)
    exact fun ha => hh (hv.symm.trans ha)

theorem ends_draining (hm : s.main = .draining) (hp : s.processDone = true) (hw : s.watcher ≠ .absent)
    (hh : s.heartbeat ≠ .absent) : s.Ends := by
  have hdone : ∀ u : State, u.main = .draining → u.watcher = .done → u.heartbeat ≠ .absent → u.Ends := by
    intro u hu hd hheart
    exact State.Ends.step (Moved.drained hu hd).steps trivial (ends_flushing .stdout rfl hheart)
  have hterminating : ∀ u : State, u.main = .draining → u.watcher = .terminating → u.heartbeat ≠ .absent →
      u.Ends := by
    intro u hu ht hheart
    exact State.Ends.step (Moved.terminated ht).steps trivial (hdone _ hu rfl hheart)
  cases hwatch : s.watcher with
  | absent => contradiction
  | done => exact hdone s hm hwatch hh
  | terminating => exact hterminating s hm hwatch hh
  | watching =>
    cases hwork : s.workDone with
    | true => exact State.Ends.step (Moved.watchCancelled hwatch hwork).steps trivial (hterminating _ hm rfl hh)
    | false => exact State.Ends.step (Moved.watchDone hwatch hwork hp).steps trivial (hdone _ hm rfl hh)

/-- A copy goroutine whose pipe is closed sends what it has read and ends. -/
theorem closes (x : Stream) (hm : s.main = .waiting) (he : s.expired = true)
    (hc : (s.outlet x).copier = .running) : ∃ ls t, Run Steps (fun _ l => l.Own) s ls t ∧
      t.main = .waiting ∧ t.expired = true ∧ t.leader = s.leader ∧ t.heartbeat = s.heartbeat ∧
      t.watcher = s.watcher ∧ (t.outlet x).copier = .finished ∧
      ∀ y, y ≠ x → (t.outlet y).copier = (s.outlet y).copier := by
  induction hout : (s.outlet x).writer.outbox generalizing s with
  | nil =>
    refine ⟨[.closed x], _, Run.single trivial (Moved.closed hc hout he).steps, hm, he, rfl, rfl, rfl, ?_, ?_⟩
    · exact congrArg Outlet.copier setOutlet_self
    · intro y hy
      exact congrArg Outlet.copier ((setOutlet_outlet y).trans (if_neg hy))
  | cons c rest ih =>
    have hsame := publish_same (.log x c) none s
    have hstep := (Moved.send (r := none) hc hout).steps
    have hself : ((publish (.log x c) none s).1.popped x rest).outlet x
        = { s.outlet x with writer := { (s.outlet x).writer with outbox := rest } } := by
      unfold State.popped
      rw [setOutlet_self, hsame.outlet]
    obtain ⟨ls, t, hrun, h1, h2, h3, h4, h5, h6, h7⟩ := ih (s := (publish (.log x c) none s).1.popped x rest)
      (hsame.main.trans hm) (hsame.expired.trans he) (by rw [hself]; exact hc) (by rw [hself])
    refine ⟨.send x none :: ls, t, Run.cons rfl hstep hrun, h1, h2, h3.trans hsame.leader,
      h4.trans hsame.heartbeat, h5.trans hsame.watcher, h6, fun y hy => (h7 y hy).trans ?_⟩
    unfold State.popped
    rw [setOutlet_outlet, if_neg hy, hsame.outlet]

theorem ends_waiting {status : ExitStatus} (hm : s.main = .waiting) (hl : s.leader = some status)
    (hc : ∀ x, (s.outlet x).copier ≠ .absent) (hw : s.watcher ≠ .absent) (hh : s.heartbeat ≠ .absent) :
    s.Ends := by
  have hcopied : ∀ u : State, u.main = .waiting → u.leader = s.leader → u.watcher = s.watcher →
      u.heartbeat = s.heartbeat → u.Copied → u.Ends := by
    intro u hu hul huw huh hcop
    refine State.Ends.step (Moved.waited hu (hul.trans hl) hcop).steps trivial (ends_draining rfl rfl ?_ ?_)
    · exact fun ha => hw (huw.symm.trans ha)
    · exact fun ha => hh (huh.symm.trans ha)
  -- After the delay, the goroutines end one after the other.
  have hstderr : ∀ u : State, u.main = .waiting → u.expired = true → u.leader = s.leader →
      u.watcher = s.watcher → u.heartbeat = s.heartbeat → (u.outlet .stdout).copier = .finished →
      (u.outlet .stderr).copier ≠ .absent → u.Ends := by
    intro u hu he hul huw huh hout herr
    cases hcop : (u.outlet .stderr).copier with
    | absent => contradiction
    | finished => exact hcopied u hu hul huw huh ⟨hout, hcop⟩
    | running =>
      obtain ⟨ls, t, hrun, h1, -, h3, h4, h5, h6, h7⟩ := closes .stderr hu he hcop
      exact State.Ends.run hrun (hcopied t h1 (h3.trans hul) (h5.trans huw) (h4.trans huh)
        ⟨(h7 .stdout nofun).trans hout, h6⟩)
  have hstdout : ∀ u : State, u.main = .waiting → u.expired = true → u.leader = s.leader →
      u.watcher = s.watcher → u.heartbeat = s.heartbeat → (∀ x, (u.outlet x).copier ≠ .absent) → u.Ends := by
    intro u hu he hul huw huh hcop
    cases hout : (u.outlet .stdout).copier with
    | absent => exact absurd hout (hcop .stdout)
    | finished => exact hstderr u hu he hul huw huh hout (hcop .stderr)
    | running =>
      obtain ⟨ls, t, hrun, h1, h2, h3, h4, h5, h6, h7⟩ := closes .stdout hu he hout
      refine State.Ends.run hrun (hstderr t h1 h2 (h3.trans hul) (h5.trans huw) (h4.trans huh) h6 ?_)
      rw [h7 .stderr nofun]
      exact hcop .stderr
  by_cases hcop : s.Copied
  · exact hcopied s hm rfl rfl rfl hcop
  · refine State.Ends.step (Moved.expire hm ?_ hcop).steps trivial (hstdout _ hm rfl rfl rfl rfl hc)
    rw [hl]
    rfl

end Ends

/-- **Once the leader has exited, the worker can return by itself**, whatever the other processes do with
their outputs. -/
theorem returns {s : State} {ls : List Label} {ok : State → Label → Prop} (hrun : Run Steps ok {} ls s)
    {status : ExitStatus} (hl : s.leader = some status) : s.Ends := by
  have h := State.wired hrun
  have hstarted : s.started = true := by
    by_contra hs
    rw [h.leader (by simpa using hs)] at hl
    contradiction
  have hfresh : ∀ m, s.main = m → m = .announcing ∨ m = .launching → False := by
    intro m hm hor
    rw [h.fresh (by rwa [hm])] at hstarted
    contradiction
  cases hm : s.main with
  | announcing => exact (hfresh _ hm (Or.inl rfl)).elim
  | launching => exact (hfresh _ hm (Or.inr rfl)).elim
  | waiting =>
    exact ends_waiting hm hl (h.copiers hm) (h.watcher (by rw [hm]; trivial)) (h.heartbeat (by rw [hm]; trivial))
  | draining =>
    exact ends_draining hm (h.done hm) (h.watcher (by rw [hm]; trivial)) (h.heartbeat (by rw [hm]; trivial))
  | flushing x => exact ends_flushing x hm (h.heartbeat (by rw [hm]; trivial))
  | halting => exact ends_halting hm (h.stop hm) (h.heartbeat (by rw [hm]; trivial))
  | concluding => exact ends_concluding hm
  | reporting code status failure => exact ends_reporting hm
  | returned code err => exact ⟨[], s, code, err, Run.nil s, hm⟩

end SlurmManager.Worker
