import SlurmManager.Worker.Run

/-!
# Steps — what one step of a worker does

* `publish_cases`: a publication is skipped or attempted; the rest of the state stays.
* `receive_cases`: what `Write` does before it sends.
* `Moved`, `Steps.moved`: the ways in which a step changes the state.  Every invariant of the runs is a
  case analysis of `Moved`.
-/

namespace SlurmManager.Worker

/-! ## Publications -/

section Publish

variable {m : Feedback} {r : Option Err} {s : State}

/-- The state after an attempt. -/
def State.attempted (m : Feedback) (r : Option Err) (s : State) : State :=
  { s with
    attempts := s.attempts ++ [⟨m, r⟩]
    publishError := s.publishError <|> r
    workDone := s.workDone || (r.isSome && s.publishError.isNone) }

theorem publish_cases (m : Feedback) (r : Option Err) (s : State) :
    (s.publishError ≠ none ∧ m.kind ≠ .status ∧ publish m r s = (s, s.publishError)) ∨
      ((s.publishError = none ∨ m.kind = .status) ∧ publish m r s = (s.attempted m r, r)) := by
  unfold publish State.attempted
  cases hp : s.publishError with
  | none => cases r <;> simp
  | some e =>
    by_cases hk : m.kind = .status
    · simp [hk]
    · simp [hk]

/-- What a publication leaves alone. -/
structure SameApart (s s' : State) : Prop where
  ctxDone : s'.ctxDone = s.ctxDone
  main : s'.main = s.main
  heartbeat : s'.heartbeat = s.heartbeat
  stopHeartbeat : s'.stopHeartbeat = s.stopHeartbeat
  watcher : s'.watcher = s.watcher
  processDone : s'.processDone = s.processDone
  leader : s'.leader = s.leader
  started : s'.started = s.started
  expired : s'.expired = s.expired
  copyError : s'.copyError = s.copyError
  runError : s'.runError = s.runError
  outlet : s'.outlet = s.outlet

theorem publish_same (m : Feedback) (r : Option Err) (s : State) : SameApart s (publish m r s).1 := by
  rcases publish_cases m r s with ⟨-, -, h⟩ | ⟨-, h⟩ <;> rw [h] <;>
    exact ⟨rfl, rfl, rfl, rfl, rfl, rfl, rfl, rfl, rfl, rfl, rfl, rfl⟩

theorem publish_status (text : String) (r : Option Err) (s : State) :
    publish (.status text) r s = (s.attempted (.status text) r, r) := by
  rcases publish_cases (.status text) r s with ⟨-, hk, -⟩ | ⟨-, h⟩
  · exact absurd rfl hk
  · exact h

end Publish

/-! ## Outlets -/

section Outlets

variable {s : State} {x : Stream} {o : Outlet}

theorem setOutlet_outlet (y : Stream) :
    (s.setOutlet x o).outlet y = if y = x then o else s.outlet y := Function.update_apply _ _ _ _

theorem setOutlet_self : (s.setOutlet x o).outlet x = o := Function.update_self _ _ _

theorem copier_setOutlet (h : o.copier = .running → (s.outlet x).copier = .running) (y : Stream) :
    ((s.setOutlet x o).outlet y).copier = .running → (s.outlet y).copier = .running := by
  rw [setOutlet_outlet]
  split
  · rename_i hy
    rw [hy]
    exact h
  · exact id

theorem outputFailed_setOutlet (h : o.writer.err = (s.outlet x).writer.err) :
    (s.setOutlet x o).outputFailed = s.outputFailed := by
  unfold State.outputFailed
  cases x <;> simp [setOutlet_outlet, h]

theorem copier_finish (e : Option Err) (y : Stream) :
    ((finish x e s).outlet y).copier = .running → (s.outlet y).copier = .running :=
  copier_setOutlet (fun h => by contradiction) y

/-- What `Write` does before it sends. -/
theorem receive_cases (x : Stream) (data : Bytes) (written : ℕ) (err : Option Err) (s : State) :
    (∃ e, (s.outlet x).writer.err = some e ∧ receive x data written err s = finish x (some e) s) ∨
    ((s.outlet x).writer.err = none ∧ ∃ e, receive x data written err s = finish x (some e)
      { s.setOutlet x { s.outlet x with writer := { (s.outlet x).writer with
          err := some e, archive := (s.outlet x).writer.archive ++ data.take written } } with
        workDone := true }) ∨
    ((s.outlet x).writer.err = none ∧ receive x data written err s =
      s.setOutlet x { s.outlet x with writer := { (s.outlet x).writer with
        buffer := (write (s.outlet x).writer.buffer data).2
        outbox := (write (s.outlet x).writer.buffer data).1
        archive := (s.outlet x).writer.archive ++ data } }) := by
  unfold receive
  cases hw : (s.outlet x).writer.err with
  | some e =>
    left
    exact ⟨e, rfl, by simp only [hw]⟩
  | none =>
    right
    simp only [hw]
    cases err with
    | some e => exact Or.inl ⟨trivial, _, rfl⟩
    | none =>
      by_cases hl : written ≠ data.length
      · simp only [if_pos hl]
        exact Or.inl ⟨trivial, _, rfl⟩
      · simp only [if_neg hl]
        exact Or.inr ⟨trivial, trivial⟩

theorem receive_ok {data : Bytes} (he : (s.outlet x).writer.err = none) :
    receive x data data.length none s = s.setOutlet x { s.outlet x with writer := { (s.outlet x).writer with
      buffer := (write (s.outlet x).writer.buffer data).2
      outbox := (write (s.outlet x).writer.buffer data).1
      archive := (s.outlet x).writer.archive ++ data } } := by
  unfold receive
  simp only [he, ne_eq, not_true_eq_false, if_false]

end Outlets

/-! ## Inversion -/

/-- The state of the processes that were started. -/
def State.launched (s : State) : State :=
  { s with
    started := true
    watcher := .watching
    outlet := fun x => { s.outlet x with copier := .running }
    main := .waiting }

/-- The writer has sent one of its messages. -/
def State.popped (x : Stream) (rest : List Chunk) (s : State) : State :=
  s.setOutlet x { s.outlet x with writer := { (s.outlet x).writer with outbox := rest } }

/-- The writer is flushed. -/
def State.emptied (x : Stream) (s : State) : State :=
  s.setOutlet x { s.outlet x with writer := { (s.outlet x).writer with buffer := Buffer.empty } }

theorem copier_emptied (x y : Stream) (s : State) :
    ((s.emptied x).outlet y).copier = (s.outlet y).copier := by
  unfold State.emptied
  rw [setOutlet_outlet]
  split
  · rename_i hy
    rw [hy]
  · rfl

/-- What a step does. -/
inductive Moved (s : State) : Label → State → Prop
  | cancel : Moved s .cancel { s with ctxDone := true }
  | propagate (h : s.ctxDone = true) : Moved s .propagate { s with workDone := true }
  | unannounced {r : Option Err} {e : Err} (hm : s.main = .announcing)
      (hr : (publish (.status "running") r s).2 = some e) : Moved s (.announce r)
        { (publish (.status "running") r s).1 with
          main := .returned 1 (some ("cannot publish job start: " ++ e)) }
  | announced {r : Option Err} (hm : s.main = .announcing)
      (hr : (publish (.status "running") r s).2 = none) : Moved s (.announce r)
        { (publish (.status "running") r s).1 with main := .launching, heartbeat := .beating }
  | unlaunched {r : Option Err} {e : Err} (hm : s.main = .launching)
      (hr : s.workDone = true ∧ e = "context canceled" ∨ s.workDone = false ∧ r = some e) : Moved s (.launch r)
        { s with runError := some (.other e), main := .flushing .stdout }
  | launched (hm : s.main = .launching) (hw : s.workDone = false) : Moved s (.launch none) s.launched
  | beatFailed {t : ℚ} {r : Option Err} {e : Err} (hh : s.heartbeat = .beating)
      (hr : (publish (.heartbeat t) r s).2 = some e) : Moved s (.beat t r)
        { (publish (.heartbeat t) r s).1 with heartbeat := .done }
  | beat {t : ℚ} {r : Option Err} (hh : s.heartbeat = .beating)
      (hr : (publish (.heartbeat t) r s).2 = none) : Moved s (.beat t r)
        { (publish (.heartbeat t) r s).1 with heartbeat := .pausing }
  | tick (hh : s.heartbeat = .pausing) : Moved s .tick { s with heartbeat := .beating }
  | stopBeating (hh : s.heartbeat = .pausing) (hs : s.stopHeartbeat = true) :
    Moved s .stopBeating { s with heartbeat := .done }
  | watchCancelled (hw : s.watcher = .watching) (hd : s.workDone = true) :
    Moved s .watch { s with watcher := .terminating }
  | watchDone (hw : s.watcher = .watching) (hd : s.workDone = false) (hp : s.processDone = true) :
    Moved s .watch { s with watcher := .done }
  | terminated (hw : s.watcher = .terminating) : Moved s .terminated { s with watcher := .done }
  | emit {x : Stream} {data : Bytes} (hs : s.started = true) (hh : (s.outlet x).held = true) :
    Moved s (.emit x data) (s.setOutlet x { s.outlet x with
      written := (s.outlet x).written ++ data
      pending := (s.outlet x).pending ++ data })
  | close {x : Stream} (hs : s.started = true) :
    Moved s (.close x) (s.setOutlet x { s.outlet x with held := false })
  | exit {status : ExitStatus} (hs : s.started = true) (hl : s.leader = none) :
    Moved s (.exit status) { s with leader := some status }
  | copy {x : Stream} {n written : ℕ} {err : Option Err} (hc : (s.outlet x).copier = .running)
      (ho : (s.outlet x).writer.outbox = []) (hn : (s.outlet x).pending.take n ≠ []) :
      Moved s (.copy x n written err)
        (receive x ((s.outlet x).pending.take n) written err
          (s.setOutlet x { s.outlet x with pending := (s.outlet x).pending.drop n }))
  | send {x : Stream} {r : Option Err} {c : Chunk} {rest : List Chunk}
      (hc : (s.outlet x).copier = .running) (ho : (s.outlet x).writer.outbox = c :: rest) :
    Moved s (.send x r) ((publish (.log x c) r s).1.popped x rest)
  | eof {x : Stream} (hc : (s.outlet x).copier = .running) (ho : (s.outlet x).writer.outbox = [])
      (hp : (s.outlet x).pending = []) (hh : (s.outlet x).held = false) :
    Moved s (.eof x) (finish x none s)
  | expire (hm : s.main = .waiting) (hl : s.leader.isSome = true) (hc : ¬ s.Copied) :
    Moved s .expire { s with expired := true }
  | closed {x : Stream} (hc : (s.outlet x).copier = .running) (ho : (s.outlet x).writer.outbox = [])
      (he : s.expired = true) : Moved s (.closed x) (finish x (some "file already closed") s)
  | waited {status : ExitStatus} (hm : s.main = .waiting) (hl : s.leader = some status) (hc : s.Copied) :
    Moved s .waited { s with runError := waitResult status s, processDone := true, main := .draining }
  | drained (hm : s.main = .draining) (hw : s.watcher = .done) :
    Moved s .drained { s with main := .flushing .stdout }
  | flushedEmpty {x : Stream} {r : Option Err} (hm : s.main = .flushing x)
      (hb : (s.outlet x).writer.buffer.bytes = []) : Moved s (.flush r) (afterFlush x s)
  | flushed {x : Stream} {r : Option Err} (hm : s.main = .flushing x)
      (hb : (s.outlet x).writer.buffer.bytes ≠ []) : Moved s (.flush r)
        (afterFlush x ((publish (.log x ⟨(s.outlet x).writer.buffer.bytes, false⟩) r s).1.emptied x))
  | halted (hm : s.main = .halting) (hh : s.heartbeat = .done) :
    Moved s .halted { s with main := .concluding }
  | conclude (hm : s.main = .concluding) : Moved s .conclude { s with
      main := .reporting (verdict s.ctxDone s.runError s.outputFailed s.publishError.isSome).1
        (verdict s.ctxDone s.runError s.outputFailed s.publishError.isSome).2 s.publishError }
  | report {code : ℕ} {status : String} {failure r : Option Err}
      (hm : s.main = .reporting code status failure) : Moved s (.report r)
        { (publish (.status status) r s).1 with
          main := outcome code failure (publish (.status status) r s).2 (publish (.status status) r s).1 }

/-- **The step relation is no larger than `Moved`.** -/
theorem Steps.moved {s s' : State} {l : Label} (h : Steps s l s') : Moved s l s' := by
  unfold Steps step at h
  cases l with
  | cancel =>
    obtain rfl := Option.some.inj h
    exact Moved.cancel
  | propagate =>
    simp only at h
    split_ifs at h with hc
    obtain rfl := Option.some.inj h
    exact Moved.propagate hc
  | announce r =>
    simp only at h
    split at h
    · rename_i hm
      split at h
      · rename_i t e hp
        obtain rfl := Option.some.inj h
        have hx := Moved.unannounced (e := e) (r := r) hm (by rw [hp])
        rwa [hp] at hx
      · rename_i t hp
        obtain rfl := Option.some.inj h
        have hx := Moved.announced (r := r) hm (by rw [hp])
        rwa [hp] at hx
    · contradiction
  | launch r =>
    simp only at h
    split at h
    · rename_i hm
      split_ifs at h with hw
      · obtain rfl := Option.some.inj h
        exact Moved.unlaunched hm (Or.inl ⟨hw, rfl⟩)
      · cases r with
        | some e =>
          obtain rfl := Option.some.inj h
          exact Moved.unlaunched hm (Or.inr ⟨by simpa using hw, rfl⟩)
        | none =>
          obtain rfl := Option.some.inj h
          exact Moved.launched hm (by simpa using hw)
    · contradiction
  | beat t r =>
    simp only at h
    split_ifs at h with hh
    split at h
    · rename_i u e hp
      obtain rfl := Option.some.inj h
      have hx := Moved.beatFailed (e := e) (t := t) (r := r) hh (by rw [hp])
      rwa [hp] at hx
    · rename_i u hp
      obtain rfl := Option.some.inj h
      have hx := Moved.beat (t := t) (r := r) hh (by rw [hp])
      rwa [hp] at hx
  | tick =>
    simp only at h
    split_ifs at h with hh
    obtain rfl := Option.some.inj h
    exact Moved.tick hh
  | stopBeating =>
    simp only at h
    split_ifs at h with hh
    obtain rfl := Option.some.inj h
    exact Moved.stopBeating hh.1 hh.2
  | watch =>
    simp only at h
    split_ifs at h with hw hd hp
    · obtain rfl := Option.some.inj h
      exact Moved.watchCancelled hw hd
    · obtain rfl := Option.some.inj h
      exact Moved.watchDone hw (by simpa using hd) hp
  | terminated =>
    simp only at h
    split_ifs at h with hw
    obtain rfl := Option.some.inj h
    exact Moved.terminated hw
  | emit x data =>
    simp only at h
    split_ifs at h with hh
    obtain rfl := Option.some.inj h
    exact Moved.emit hh.1 hh.2
  | close x =>
    simp only at h
    split_ifs at h with hs
    obtain rfl := Option.some.inj h
    exact Moved.close hs
  | exit status =>
    simp only at h
    split_ifs at h with hs
    obtain rfl := Option.some.inj h
    exact Moved.exit hs.1 (by simpa using hs.2)
  | copy x n written err =>
    simp only at h
    split_ifs at h with hc
    obtain rfl := Option.some.inj h
    exact Moved.copy hc.1 hc.2.1 hc.2.2
  | send x r =>
    simp only at h
    split at h
    · rename_i c rest hc ho
      obtain rfl := Option.some.inj h
      exact Moved.send hc ho
    · contradiction
  | eof x =>
    simp only at h
    split_ifs at h with hc
    obtain rfl := Option.some.inj h
    exact Moved.eof hc.1 hc.2.1 hc.2.2.1 hc.2.2.2
  | expire =>
    simp only at h
    split at h
    · rename_i hm
      split_ifs at h with hl
      obtain rfl := Option.some.inj h
      exact Moved.expire hm hl.1 hl.2
    · contradiction
  | closed x =>
    simp only at h
    split_ifs at h with hc
    obtain rfl := Option.some.inj h
    exact Moved.closed hc.1 hc.2.1 hc.2.2
  | waited =>
    simp only at h
    split at h
    · rename_i status hm hl
      split_ifs at h with hc
      obtain rfl := Option.some.inj h
      exact Moved.waited hm hl hc
    · contradiction
  | drained =>
    simp only at h
    split at h
    · rename_i hm hw
      obtain rfl := Option.some.inj h
      exact Moved.drained hm hw
    · contradiction
  | flush r =>
    simp only at h
    split at h
    · rename_i x hm
      by_cases hb : (s.outlet x).writer.buffer.bytes = []
      · simp only [hb, Worker.flush, if_true] at h
        obtain rfl := Option.some.inj h
        exact Moved.flushedEmpty hm hb
      · simp only [Worker.flush, if_neg hb] at h
        obtain rfl := Option.some.inj h
        exact Moved.flushed hm hb
    · contradiction
  | halted =>
    simp only at h
    split at h
    · rename_i hm hh
      obtain rfl := Option.some.inj h
      exact Moved.halted hm hh
    · contradiction
  | conclude =>
    simp only at h
    split at h
    · rename_i hm
      obtain rfl := Option.some.inj h
      exact Moved.conclude hm
    · contradiction
  | report r =>
    simp only at h
    split at h
    · rename_i code status failure hm
      obtain rfl := Option.some.inj h
      exact Moved.report hm
    · contradiction

/-- **Nor is it smaller.** -/
theorem Moved.steps {s s' : State} {l : Label} (h : Moved s l s') : Steps s l s' := by
  unfold Steps
  cases h with
  | cancel => rfl
  | propagate h => simp [step, h]
  | @unannounced r e hm hr =>
    rw [publish_status] at hr ⊢
    simp [step, hm, publish_status, show r = some e from hr]
  | @announced r hm hr =>
    rw [publish_status] at hr ⊢
    simp [step, hm, publish_status, show r = none from hr]
  | unlaunched hm hr =>
    rcases hr with ⟨hw, rfl⟩ | ⟨hw, rfl⟩
    · simp [step, hm, hw]
    · simp [step, hm, hw]
  | launched hm hw => simp [step, hm, hw, State.launched]
  | @beatFailed t r e hh hr =>
    generalize hp : publish (.heartbeat t) r s = p at hr ⊢
    obtain ⟨u, o⟩ := p
    obtain rfl : o = some e := hr
    simp [step, hh, hp]
  | @beat t r hh hr =>
    generalize hp : publish (.heartbeat t) r s = p at hr ⊢
    obtain ⟨u, o⟩ := p
    obtain rfl : o = none := hr
    simp [step, hh, hp]
  | tick hh => simp [step, hh]
  | stopBeating hh hs => simp [step, hh, hs]
  | watchCancelled hw hd => simp [step, hw, hd]
  | watchDone hw hd hp => simp [step, hw, hd, hp]
  | terminated hw => simp [step, hw]
  | emit hs hh => simp [step, hs, hh]
  | close hs => simp [step, hs]
  | exit hs hl => simp [step, hs, hl]
  | copy hc ho hn => simp [step, hc, ho, hn]
  | send hc ho => simp [step, hc, ho, State.popped]
  | eof hc ho hp hh => simp [step, hc, ho, hp, hh]
  | expire hm hl hc => simp [step, hm, hl, hc]
  | closed hc ho he => simp [step, hc, ho, he]
  | waited hm hl hc => simp [step, hm, hl, hc]
  | drained hm hw => simp [step, hm, hw]
  | flushedEmpty hm hb => simp [step, hm, hb, Worker.flush]
  | flushed hm hb => simp [step, hm, hb, Worker.flush, State.emptied]
  | halted hm hh => simp [step, hm, hh]
  | conclude hm => simp [step, hm]
  | report hm => simp [step, hm]

end SlurmManager.Worker
