import SlurmManager.Tracking.Tags
import SlurmManager.Tracking.Effects

/-!
# StatusDelivery — each accepted status reaches each listener once

A terminal status may come from the worker, from `cancel_job`, from the scheduler, from a removal or
from a failed submission, in any order and in the middle of anything else.  Whatever the order:

* `Lifecycle`: the accepted statuses of a future, and what the future shows for them.
* `Delivered`: the tasks submitted on behalf of one listener report the accepted statuses, in order.
* `Recorded`: the history of a session grows by an accepted status with its notifications, or by the
  tasks of a delivery, or not at all.
* `status_delivery`: both hold over every run.  No assumption on Redis is made.

A status listener of a job is installed twice, in Redis as a stub and in the tracker as the dispatcher.
The tags tell the two apart: an id drawn for such a listener never comes with another client callback
than the stub.
-/

namespace SlurmManager

open Program JobTracker

/-! ## The lifecycle of a future -/

/-- What a future shows once the statuses `l` were accepted: only the last one may be terminal, and it
decides the outcome. -/
structure Lifecycle (f : JobFuture) (l : List JobStatus) : Prop where
  running : ∀ st ∈ l.dropLast, st.terminal = false
  done_iff : f.done = true ↔ ∃ st ∈ l, st.terminal = true
  status : f.status = l.getLast?.getD .pending
  success_iff : f.success = true ↔ .finished ∈ l

theorem Lifecycle.nil {f : JobFuture} (hd : f.done = false) (hs : f.status = .pending) :
    Lifecycle f [] := by
  refine ⟨by simp, by simp [hd], hs, ?_⟩
  rw [JobFuture.success_eq_done_and, hd]
  simp

theorem Lifecycle.accept {f : JobFuture} {l : List JobStatus} (h : Lifecycle f l) (hd : f.done = false)
    (st : JobStatus) (x : Option String) : Lifecycle (f.updateStatus st x) (l ++ [st]) := by
  have hnone : ∀ st ∈ l, st.terminal = false := by
    intro st hst
    by_contra hterm
    have hdone : f.done = true := h.done_iff.mpr ⟨st, hst, by simpa using hterm⟩
    rw [hd] at hdone
    contradiction
  refine ⟨?_, ?_, ?_, ?_⟩
  · rw [List.dropLast_concat]
    exact hnone
  · rw [JobFuture.done_updateStatus st x hd]
    constructor
    · intro ht
      exact ⟨st, by simp, ht⟩
    · rintro ⟨st', hst', ht⟩
      rcases List.mem_append.mp hst' with hl | hl
      · rw [hnone st' hl] at ht
        contradiction
      · rwa [List.mem_singleton.mp hl] at ht
  · rw [JobFuture.status_updateStatus st x hd, List.getLast?_concat]
    rfl
  · rw [JobFuture.success_updateStatus st x hd]
    have hno : JobStatus.finished ∉ l := by
      intro hl
      have := hnone _ hl
      contradiction
    simp [hno, eq_comm]

/-! ## Notifications -/

namespace JobTracker

/-- The statuses accepted for a future. -/
def statusesOf (f : FutureRef) (s : JobTracker) : List JobStatus :=
  (s.accepted.filter fun x => x.1 = f).map Prod.snd

/-- The statuses accepted for any future. -/
def allStatuses (s : JobTracker) : List JobStatus := s.accepted.map Prod.snd

section Statuses

variable {s t : JobTracker} {f g : FutureRef} {st : JobStatus}

theorem statusesOf_congr (h : t.accepted = s.accepted) : t.statusesOf f = s.statusesOf f := by
  unfold statusesOf
  rw [h]

theorem statusesOf_self (h : t.accepted = s.accepted ++ [(f, st)]) :
    t.statusesOf f = s.statusesOf f ++ [st] := by
  unfold statusesOf
  rw [h, List.filter_append, List.map_append]
  simp

theorem statusesOf_ne (h : t.accepted = s.accepted ++ [(g, st)]) (hg : g ≠ f) :
    t.statusesOf f = s.statusesOf f := by
  unfold statusesOf
  rw [h, List.filter_append]
  simp [hg]

end Statuses

/-- The task hands the callable a status message that reads as `st`. -/
def Reports (cb : Callback) (task : Task) (st : JobStatus) : Prop :=
  task.callback = cb ∧ ∃ m : StatusMessage, task.message = .status m ∧
    JobStatus.ofValue? (splitColon m.status).1 = some st

/-- The status listener `i` of the job of `f`, which calls `cb`. -/
def JobListener (f : FutureRef) (i : SubId) (cb : Callback) (s : JobTracker) : Prop :=
  ((((s.subscriptionsByTopic.get? (topicOf (s.futures f).jobId .status)).getD ∅).get? i).bind fun info =>
    info.callback.map fun d => d.callback) = some cb

/-- The manager-wide status listener `i`, which calls `cb`. -/
def GlobalListener (i : SubId) (cb : Callback) (s : JobTracker) : Prop :=
  ((s.globalCallbacks.get? i).map fun r => (r.event, r.callback)) = some (.status, cb)

instance (f : FutureRef) (i : SubId) (cb : Callback) (s : JobTracker) : Decidable (s.JobListener f i cb) :=
  inferInstanceAs (Decidable (_ = _))

instance (i : SubId) (cb : Callback) (s : JobTracker) : Decidable (s.GlobalListener i cb) :=
  inferInstanceAs (Decidable (_ = _))

theorem JobListener.record {f : FutureRef} {i : SubId} {cb : Callback} {s : JobTracker}
    (h : s.JobListener f i cb) :
    ∃ info d, ((s.subscriptionsByTopic.get? (topicOf (s.futures f).jobId .status)).getD ∅).get? i = some info ∧
      info.callback = some d ∧ d.callback = cb := by
  obtain ⟨info, hinfo, hd⟩ := Option.bind_eq_some_iff.mp h
  obtain ⟨d, hd, hcb⟩ := Option.map_eq_some_iff.mp hd
  exact ⟨info, d, hinfo, hd, hcb⟩

theorem GlobalListener.callback {i : SubId} {cb : Callback} {s : JobTracker} (h : s.GlobalListener i cb) :
    ∃ r, s.globalCallbacks.get? i = some r ∧ r.event = .status ∧ r.callback = cb := by
  obtain ⟨r, hr, he⟩ := Option.map_eq_some_iff.mp h
  exact ⟨r, hr, (Prod.mk.inj he).1, (Prod.mk.inj he).2⟩

/-- Between the two states, the tasks submitted for listener `i` report the statuses accepted in the
meantime: one task for each, in order, and no others. -/
def Delivered (i : SubId) (cb : Callback) (statuses : JobTracker → List JobStatus) (s s' : JobTracker) :
    Prop :=
  ∃ sts ts, statuses s' = statuses s ++ sts ∧ s'.tasks = s.tasks ++ ts ∧
    List.Forall₂ (Reports cb) (ts.filter fun t => t.listener = i) sts

section Delivered

variable {i : SubId} {cb : Callback} {statuses : JobTracker → List JobStatus} {s t u : JobTracker}

theorem Delivered.refl (s : JobTracker) : Delivered i cb statuses s s :=
  ⟨[], [], by simp, by simp, List.Forall₂.nil⟩

theorem Delivered.trans (h : Delivered i cb statuses s t) (h' : Delivered i cb statuses t u) :
    Delivered i cb statuses s u := by
  obtain ⟨sts, ts, hs, ht, hr⟩ := h
  obtain ⟨sts', ts', hs', ht', hr'⟩ := h'
  refine ⟨sts ++ sts', ts ++ ts', ?_, ?_, ?_⟩
  · rw [hs', hs, List.append_assoc]
  · rw [ht', ht, List.append_assoc]
  · rw [List.filter_append]
    exact List.rel_append hr hr'

/-- Tasks of other listeners. -/
theorem Delivered.other {ts : List Task} (hs : statuses t = statuses s) (ht : t.tasks = s.tasks ++ ts)
    (hi : ∀ task ∈ ts, task.listener ≠ i) : Delivered i cb statuses s t := by
  refine ⟨[], ts, by simp [hs], ht, ?_⟩
  rw [List.filter_eq_nil_iff.mpr fun task h => by simpa using hi task h]
  exact List.Forall₂.nil

end Delivered

section Tasks

variable {s : JobTracker} (rt : Runtime) (i : SubId)

/-- What a walk over a dictionary makes for one of its keys. -/
theorem filter_filterMap_key {ν : Type} {g : SubId × ν → Option Task}
    (hg : ∀ e t, g e = some t → t.listener = e.1) (d : Dict SubId ν) :
    (d.entries.filterMap g).filter (fun t => t.listener = i) =
      ((d.get? i).bind fun v => g (i, v)).toList := by
  have hswap : ∀ l : List (SubId × ν), (l.filterMap g).filter (fun t => t.listener = i) =
      (l.filter fun e => e.1 = i).filterMap g := by
    intro l
    induction l with
    | nil => rfl
    | cons e l ih =>
      cases he : g e with
      | none =>
        rw [List.filterMap_cons_none he, ih]
        by_cases hi : e.1 = i
        · simp [hi, he]
        · simp [hi]
      | some t =>
        rw [List.filterMap_cons_some he, List.filter_cons, List.filter_cons, ih, hg e t he]
        by_cases hi : e.1 = i
        · simp [hi, he]
        · simp [hi]
  rw [hswap, d.entries_filter_key]
  cases d.get? i with
  | none => rfl
  | some v =>
    simp only [Option.map_some, Option.toList_some, Option.bind_some]
    cases hv : g (i, v) with
    | none => simp [hv]
    | some t => simp [hv]

theorem filter_listenerTasks (m : SlurmMessage) (t : Topic) :
    (listenerTasks rt m t s).filter (fun x => x.listener = i) =
      ((((s.subscriptionsByTopic.get? t).getD ∅).get? i).bind fun info =>
        info.callback.map fun d => Dispatch.task rt d i m).toList := by
  refine filter_filterMap_key i (fun e x hx => ?_) _
  obtain ⟨d, -, rfl⟩ := Option.map_eq_some_iff.mp hx
  rfl

/-- The manager-wide copy for one registration. -/
def globalTask (m : SlurmMessage) (j : String) (slurm : Option String) (r : RegisteredCallback) : Task where
  listener := i
  callback := r.callback
  message := m.withMetadata (globalMetadata rt m.metadata j slurm)

theorem filter_globalTasks (m : SlurmMessage) (j : String) (slurm : Option String) :
    (globalTasks rt m j slurm s).filter (fun x => x.listener = i) =
      (((s.globalCallbacks.get? i).filter fun r => r.event = m.msgType).map
        (globalTask rt i m j slurm)).toList := by
  have hx : globalTasks rt m j slurm s = s.globalCallbacks.entries.filterMap fun e =>
      if e.2.event = m.msgType then some (globalTask rt e.1 m j slurm e.2) else none := by
    unfold globalTasks
    rw [← List.filterMap_eq_map, List.filterMap_filter]
    refine List.filterMap_congr fun e _ => ?_
    by_cases he : e.2.event = m.msgType
    · simp only [he, decide_true, if_pos]
      rfl
    · simp [he]
  rw [hx, filter_filterMap_key]
  · cases s.globalCallbacks.get? i with
    | none => rfl
    | some r => by_cases hr : r.event = m.msgType <;> simp [hr, Option.filter]
  · intro e x he
    split_ifs at he
    obtain rfl := Option.some.inj he
    rfl

/-- The message that `apply_status` forwards reads as the status it accepted. -/
theorem ofValue?_forwarded (m : StatusMessage) :
    JobStatus.ofValue? (splitColon (decodeStatus rt m).1.status).1 = some (decoded rt m) := by
  unfold decoded
  cases hv : JobStatus.ofValue? (splitColon m.status).1 with
  | some st =>
    rw [decodeStatus_of_ofValue? rt (show splitColon m.status = (_, _) from rfl) hv]
    exact hv
  | none =>
    unfold decodeStatus
    simp only [hv]
    rw [show "error:" = "error" ++ ":" from rfl, splitColon_append (by decide)]
    exact JobStatus.ofValue?_value .error

end Tasks

section Deliveries

variable {s : JobTracker} {rt : Runtime} {m : SlurmMessage} {sub : Subscription ClientCallback}

theorem mem_globalTasks {j : String} {slurm : Option String} {t : Task}
    (h : t ∈ globalTasks rt m j slurm s) :
    ∃ r, s.globalCallbacks.get? t.listener = some r ∧ r.event = m.msgType ∧
      t = globalTask rt t.listener m j slurm r := by
  obtain ⟨e, he, rfl⟩ := List.mem_map.mp h
  obtain ⟨hmem, hev⟩ := List.mem_filter.mp he
  exact ⟨e.2, Dict.mem_entries_iff.mp hmem, by simpa using hev, rfl⟩

theorem mem_listenerTasks {topic : Topic} {t : Task} (h : t ∈ listenerTasks rt m topic s) :
    ∃ info d, ((s.subscriptionsByTopic.get? topic).getD ∅).get? t.listener = some info ∧
      info.callback = some d ∧ t = Dispatch.task rt d t.listener m := by
  obtain ⟨e, he, ht⟩ := List.mem_filterMap.mp h
  obtain ⟨d, hd, rfl⟩ := Option.map_eq_some_iff.mp ht
  exact ⟨e.2, d, Dict.mem_entries_iff.mp he, hd, rfl⟩

end Deliveries

end JobTracker

/-- The callback forwards its message to the manager-wide listeners. -/
def ClientCallback.Forwards : ClientCallback → Prop
  | .log _ _ => True
  | .heartbeat _ _ => True
  | _ => False

/-- The tasks of a delivery that applies no status: one for a dispatcher, or those of the manager-wide
listeners of the message's type. -/
theorem JobTracker.tasks_deliver (s : JobTracker) (rt : Runtime) {m : SlurmMessage}
    {sub : Subscription ClientCallback} (hno : ∀ f m', sub.callback = .event f → m ≠ .status m') :
    ∃ ts, ((deliver rt m sub).after s).tasks = s.tasks ++ ts ∧ ∀ t ∈ ts,
      (∃ d, sub.callback = .dispatch d ∧ t = Dispatch.task rt d sub.id m) ∨
      (sub.callback.Forwards ∧ ∃ r, s.globalCallbacks.get? t.listener = some r ∧ r.event = m.msgType ∧
        t.callback = r.callback ∧ t.message.msgType = m.msgType) := by
  unfold deliver
  cases hcb : sub.callback with
  | ignoreStatus => exact ⟨[], (List.append_nil _).symm, by simp⟩
  | dispatch d =>
    refine ⟨[Dispatch.task rt d sub.id m], rfl, fun t ht => Or.inl ⟨d, rfl, ?_⟩⟩
    rw [List.mem_singleton.mp ht]
  | log j slurm =>
    refine ⟨globalTasks rt m j (some slurm) s, rfl, fun t ht => Or.inr ⟨trivial, ?_⟩⟩
    obtain ⟨r, hr, hev, ht⟩ := mem_globalTasks ht
    exact ⟨r, hr, hev, by rw [ht]; rfl, by rw [ht]; exact SlurmMessage.msgType_withMetadata m _⟩
  | heartbeat j slurm =>
    refine ⟨globalTasks rt (m.withMetadata (enrich rt m.metadata j slurm)) j (some slurm) s, rfl,
      fun t ht => Or.inr ⟨trivial, ?_⟩⟩
    obtain ⟨r, hr, hev, ht⟩ := mem_globalTasks ht
    have hmeta := SlurmMessage.msgType_withMetadata m (enrich rt m.metadata j slurm)
    refine ⟨r, hr, hev.trans hmeta, by rw [ht]; rfl, ?_⟩
    rw [ht]
    exact (SlurmMessage.msgType_withMetadata _ _).trans hmeta
  | event f =>
    cases m with
    | status m' => exact absurd rfl (hno f m' hcb)
    | _ => exact ⟨[], (List.append_nil _).symm, by simp⟩

namespace Session

variable {jobOf : FutureRef → String} {tag : SubId → Option Tag} {s s' : Session} {l : Label}

/-! ## The history of a session -/

/-- What one section adds to the history of the tracker. -/
inductive Recorded (s : Session) (l : Label) (t : JobTracker) : Prop
  | quiet (h : t.record = s.tracker.record)
  | accepted {m : StatusMessage} {f : FutureRef} (hd : (s.tracker.futures f).done = false)
      (h : t.record = (s.tracker.accept l.rt m f).record)
  | delivered {sub : Subscription ClientCallback} {m : SlurmMessage}
      {rest : List (Subscription ClientCallback × SlurmMessage)} (hact : l.act = .deliver)
      (hc : s.captured = (sub, m) :: rest) (hno : ∀ f m', sub.callback = .event f → m ≠ .status m')
      (h : t = (deliver l.rt m sub).after s.tracker)

/-- **Every accepted status is notified in the step that accepts it.** -/
theorem Steps.recorded (hl : Sectioned l) (hs : Steps s l s') : Recorded s l s'.tracker := by
  have heff := hs.effect
  generalize s'.tracker = t at heff
  cases heff with
  | keep x hx => exact Recorded.quiet ((hx.map fun y => y.2.2) s.tracker)
  | @publish f hf x hx => exact Recorded.quiet ((hx.map fun y => y.2.2) (publishFuture f s.tracker))
  | @status m f ha =>
    cases hd : (s.tracker.futures f).done with
    | true =>
      refine Recorded.quiet ?_
      rw [Program.after, exec_applyStatus_done l.rt m f hd]
    | false =>
      refine Recorded.accepted hd (m := m) ?_
      cases ht : (decoded l.rt m).terminal with
      | false => rw [Program.after, exec_applyStatus_running l.rt m f hd ht]
      | true =>
        rw [Program.after, exec_applyStatus_terminal l.rt m f hd ht]
        exact ((frame_discardJob l.rt _).map fun y => y.2) _
  | @discard j skip _ => exact Recorded.quiet (((frame_discardJob l.rt j).map fun y => y.2) s.tracker)
  | @removeIds ids _ =>
    exact Recorded.quiet (((frame_removeSubscriptionById ids).map fun y => y.2) s.tracker)
  | @listen e cb _ => exact Recorded.quiet (((frame_listenGlobal e cb).map fun y => y.2) s.tracker)
  | deliver hact hc hno => exact Recorded.delivered hact hc hno rfl
  | dispatch hact =>
    unfold Sectioned at hl
    rw [hact] at hl
    exact hl.elim

theorem Recorded.lifecycle {t : JobTracker} (h : Recorded s l t) {f : FutureRef}
    (hf : Lifecycle (s.tracker.futures f) (s.tracker.statusesOf f)) :
    Lifecycle (t.futures f) (t.statusesOf f) := by
  have hcongr : ∀ {u u' : JobTracker}, u'.record = u.record →
      Lifecycle (u.futures f) (u.statusesOf f) → Lifecycle (u'.futures f) (u'.statusesOf f) := by
    intro u u' hr hu
    rw [show u'.futures = u.futures from congrArg (fun y => y.1) hr,
      statusesOf_congr (congrArg (fun y => y.2.2) hr)]
    exact hu
  cases h with
  | quiet h => exact hcongr h hf
  | @accepted m g hd h =>
    refine hcongr h ?_
    by_cases hg : f = g
    · subst hg
      rw [accept_futures_self, statusesOf_self (accept_accepted l.rt m f)]
      exact hf.accept hd _ _
    · rw [accept_futures_ne l.rt m g hg, statusesOf_ne (accept_accepted l.rt m g) (Ne.symm hg)]
      exact hf
  | delivered _ hc hno h =>
    have hst := frame_deliver l.rt hno s.tracker
    rw [h, show ((deliver l.rt _ _).after s.tracker).futures = s.tracker.futures from
      congrArg (fun y => y.2.2.1) hst, statusesOf_congr (congrArg (fun y => y.2.2.2) hst)]
    exact hf

/-- A future that is done stays as it is. -/
theorem Recorded.done {t : JobTracker} (h : Recorded s l t) {f : FutureRef}
    (hf : (s.tracker.futures f).done = true) : t.futures f = s.tracker.futures f := by
  cases h with
  | quiet h => exact congrFun (congrArg (fun y => y.1) h) f
  | @accepted m g hd h =>
    have hg : f ≠ g := by
      rintro rfl
      rw [hf] at hd
      contradiction
    rw [show t.futures f = (s.tracker.accept l.rt m g).futures f from
      congrFun (congrArg (fun y => y.1) h) f, accept_futures_ne l.rt m g hg]
  | delivered _ hc hno h =>
    rw [h]
    exact congrFun (congrArg (fun y => y.2.2.1) (frame_deliver l.rt hno s.tracker)) f

/-! ## Listeners of a job -/

section JobLevel

variable (h : s.Tagged jobOf tag) {i : SubId} {a : AddArgs} (hi : tag i = some (.listener a))
  (hkey : a.key = .status)
include h hi hkey

/-- A status listener of a job gets its tasks from `apply_status` only: its callback in Redis is the
stub. -/
theorem Tagged.stub {sub : Subscription ClientCallback} {m : SlurmMessage}
    (hc : (sub, m) ∈ s.captured) (hid : sub.id = i) (d : Dispatch) : sub.callback ≠ .dispatch d := by
  obtain ⟨t, ht⟩ := h.captured _ hc
  intro hd
  unfold ClientFits at ht
  simp only [hid, hi, hd] at ht
  obtain ⟨-, -, g, hg⟩ := ht
  rw [AddArgs.redisCallback, if_pos hkey] at hg
  contradiction

theorem Tagged.delivered_job {f : FutureRef} {cb : Callback} (hinj : ∀ f g, jobOf f = jobOf g → f = g)
    (hj : a.jobId = jobOf f)
    (hlisten : (s.tracker.futures f).done = false → s.tracker.JobListener f i cb) {t : JobTracker}
    (hr : Recorded s l t) : Delivered i cb (statusesOf f) s.tracker t := by
  have hglobal : ∀ k r, s.tracker.globalCallbacks.get? k = some r → k ≠ i := by
    rintro k r hk rfl
    have hk := h.tracker.globals k r hk
    simp [hi] at hk
  cases hr with
  | quiet hr =>
    have htasks : t.tasks = s.tracker.tasks ++ [] :=
      (congrArg (fun y => y.2.1) hr).trans (List.append_nil _).symm
    exact Delivered.other (statusesOf_congr (congrArg (fun y => y.2.2) hr)) htasks (by simp)
  | @accepted m g hd hr =>
    have htasks : t.tasks = s.tracker.tasks ++ (listenerTasks l.rt (.status (decodeStatus l.rt m).1)
        (topicOf (s.tracker.futures g).jobId .status) s.tracker ++
          globalTasks l.rt (.status (decodeStatus l.rt m).1) (s.tracker.futures g).jobId
            (some (s.tracker.futures g).slurmJobId) s.tracker) :=
      (congrArg (fun y => y.2.1) hr).trans (List.append_assoc _ _ _)
    have hacc : t.accepted = s.tracker.accepted ++ [(g, decoded l.rt m)] :=
      congrArg (fun y => y.2.2) hr
    by_cases hg : g = f
    · subst hg
      obtain ⟨info, d, hinfo, hd', hdcb⟩ := (hlisten hd).record
      refine ⟨[decoded l.rt m], _, statusesOf_self hacc, htasks, ?_⟩
      · have hnone : (globalTasks l.rt (.status (decodeStatus l.rt m).1) (s.tracker.futures g).jobId
            (some (s.tracker.futures g).slurmJobId) s.tracker).filter (fun t => t.listener = i) = [] := by
          refine List.filter_eq_nil_iff.mpr fun x hx => ?_
          obtain ⟨r, hr, -⟩ := mem_globalTasks hx
          simpa using hglobal _ _ hr
        rw [List.filter_append, hnone, List.append_nil, filter_listenerTasks, hinfo, Option.bind_some, hd',
          Option.map_some]
        exact List.Forall₂.cons ⟨hdcb, _, rfl, ofValue?_forwarded l.rt m⟩ List.Forall₂.nil
    · refine Delivered.other (statusesOf_ne hacc hg) htasks fun x hx => ?_
      · rcases List.mem_append.mp hx with hx | hx
        · obtain ⟨info, _, hinfo, -⟩ := mem_listenerTasks hx
          rintro rfl
          have hfit := h.tracker.records.inner _ _ _ hinfo
          unfold TrackerFits at hfit
          rw [hi] at hfit
          have hjobs := (topicOf_inj.mp hfit.1).1
          rw [h.tracker.jobIds, hj] at hjobs
          exact hg (hinj _ _ hjobs)
        · obtain ⟨r, hr, -⟩ := mem_globalTasks hx
          exact hglobal _ _ hr
  | @delivered sub m rest _ hc hno hr =>
    obtain ⟨ts, hts, hmem⟩ := tasks_deliver s.tracker l.rt hno
    have hacc : t.accepted = s.tracker.accepted := by
      rw [hr]
      exact congrArg (fun y => y.2.2.2) (frame_deliver l.rt hno s.tracker)
    refine Delivered.other (statusesOf_congr hacc) (by rw [hr, hts]) fun x hx => ?_
    rcases hmem x hx with ⟨d, hd, rfl⟩ | ⟨-, r, hr, -⟩
    · exact fun hx => h.stub hi hkey (hc ▸ List.mem_cons_self) hx d hd
    · exact hglobal _ _ hr

end JobLevel

/-! ## Manager-wide listeners -/

/-- The worker publishes statuses on the status channels only. -/
def OnChannel (l : Label) : Prop := ∀ t m, l.act = .poll t (.status m) → ∃ j, t = topicOf j .status

/-- No captured callback would forward a status to the manager-wide listeners by itself. -/
def Typed (s : Session) : Prop := ∀ x ∈ s.captured, x.1.callback.Forwards → x.2.msgType ≠ .status

/-- What a step does to the captured callbacks. -/
theorem Steps.captured (hs : Steps s l s') : s'.captured = s.captured ∨
    (∃ x, s.captured = x :: s'.captured) ∨
    ∃ t m, l.act = .poll t m ∧ s'.captured = (s.tracker.subClient.capture t).map fun sub => (sub, m) := by
  obtain ⟨rt, act⟩ := l
  unfold Steps step at hs
  cases act with
  | poll t m =>
    simp only at hs
    split at hs
    · obtain rfl := Option.some.inj hs
      exact Or.inr (Or.inr ⟨t, m, rfl, rfl⟩)
    · simp at hs
  | deliver =>
    simp only at hs
    cases hc : s.captured with
    | nil => simp [hc] at hs
    | cons x rest =>
      obtain ⟨sub, m⟩ := x
      simp only [hc] at hs
      obtain rfl := Option.some.inj hs
      exact Or.inr (Or.inl ⟨(sub, m), rfl⟩)
  | proceed n =>
    refine Or.inl ?_
    unfold Session.proceed at hs
    simp only at hs
    split at hs
    · split at hs <;> (obtain rfl := Option.some.inj hs; rfl)
    · obtain rfl := Option.some.inj hs
      rfl
    · split at hs <;> (obtain rfl := Option.some.inj hs; rfl)
    · split at hs <;> (obtain rfl := Option.some.inj hs; rfl)
    · simp at hs
  | _ =>
    refine Or.inl ?_
    simp only at hs
    repeat' (split at hs)
    all_goals first
      | (obtain rfl := Option.some.inj hs; rfl)
      | simp at hs

theorem Typed.step (ht : s.Typed) (h : s.Tagged jobOf tag) (hl : OnChannel l) (hs : Steps s l s') :
    s'.Typed := by
  rcases hs.captured with hc | ⟨x, hc⟩ | ⟨t, m, hact, hc⟩
  · unfold Typed
    rw [hc]
    exact ht
  · intro y hy
    exact ht y (hc ▸ List.mem_cons_of_mem x hy)
  · intro y hy hf
    rw [hc] at hy
    obtain ⟨sub, hsub, rfl⟩ := List.mem_map.mp hy
    cases m with
    | status m =>
      obtain ⟨j, rfl⟩ := hl t m hact
      obtain ⟨i, hi⟩ := Dict.mem_values_iff.mp hsub
      have hfit := (h.tracker.client.subs.inner _ i sub hi).2
      split at hfit
      · obtain ⟨f, g, hcb, htopic⟩ := hfit
        obtain ⟨-, rfl⟩ := topicOf_inj.mp htopic
        rw [hcb] at hf
        exact hf.elim
      · obtain ⟨-, g, hcb⟩ := hfit
        rw [hcb] at hf
        unfold AddArgs.redisCallback at hf
        split_ifs at hf <;> exact hf.elim
      · exact hfit.elim
    | heartbeat m => exact fun he => by cases he
    | log m => exact fun he => by cases he

section ManagerWide

variable (h : s.Tagged jobOf tag) (ht : s.Typed) {i : SubId} (hi : tag i = some .global)
include h ht hi

theorem Tagged.delivered_global {cb : Callback} (hlisten : s.tracker.GlobalListener i cb)
    {t : JobTracker} (hr : Recorded s l t) : Delivered i cb allStatuses s.tracker t := by
  cases hr with
  | quiet hr =>
    have htasks : t.tasks = s.tracker.tasks ++ [] :=
      (congrArg (fun y => y.2.1) hr).trans (List.append_nil _).symm
    exact Delivered.other (congrArg (fun y => y.2.2.map Prod.snd) hr) htasks (by simp)
  | @accepted m g hd hr =>
    have htasks : t.tasks = s.tracker.tasks ++ (listenerTasks l.rt (.status (decodeStatus l.rt m).1)
        (topicOf (s.tracker.futures g).jobId .status) s.tracker ++
          globalTasks l.rt (.status (decodeStatus l.rt m).1) (s.tracker.futures g).jobId
            (some (s.tracker.futures g).slurmJobId) s.tracker) :=
      (congrArg (fun y => y.2.1) hr).trans (List.append_assoc _ _ _)
    have hacc : t.accepted = s.tracker.accepted ++ [(g, decoded l.rt m)] :=
      congrArg (fun y => y.2.2) hr
    refine ⟨[decoded l.rt m], _, ?_, htasks, ?_⟩
    · unfold allStatuses
      rw [hacc, List.map_append]
      rfl
    · obtain ⟨r, hr, hev, hcb⟩ := hlisten.callback
      have hev : r.event = (SlurmMessage.status (decodeStatus l.rt m).1).msgType := hev
      have hnone : (listenerTasks l.rt (.status (decodeStatus l.rt m).1)
          (topicOf (s.tracker.futures g).jobId .status) s.tracker).filter (fun t => t.listener = i) = [] := by
        refine List.filter_eq_nil_iff.mpr fun x hx => ?_
        obtain ⟨info, _, hinfo, -⟩ := mem_listenerTasks hx
        have hfit := h.tracker.records.inner _ _ _ hinfo
        intro hxi
        unfold TrackerFits at hfit
        rw [show x.listener = i by simpa using hxi, hi] at hfit
        exact hfit
      have hsel : (some r).filter (fun r => r.event = (SlurmMessage.status (decodeStatus l.rt m).1).msgType) =
          some r := Option.filter_some_pos (decide_eq_true hev)
      rw [List.filter_append, hnone, List.nil_append, filter_globalTasks, hr, hsel, Option.map_some]
      exact List.Forall₂.cons ⟨hcb, _, rfl, ofValue?_forwarded l.rt m⟩ List.Forall₂.nil
  | @delivered sub m rest _ hc hno hr =>
    obtain ⟨ts, hts, hmem⟩ := tasks_deliver s.tracker l.rt hno
    have hacc : t.accepted = s.tracker.accepted := by
      rw [hr]
      exact congrArg (fun y => y.2.2.2) (frame_deliver l.rt hno s.tracker)
    have hcap : (sub, m) ∈ s.captured := hc ▸ List.mem_cons_self
    refine Delivered.other (congrArg (List.map Prod.snd) hacc) (by rw [hr, hts]) fun x hx => ?_
    rcases hmem x hx with ⟨d, hd, rfl⟩ | ⟨hf, r, hr, hev, -⟩
    · obtain ⟨t, hfit⟩ := h.captured _ hcap
      intro hxi
      have hfit := hfit.2
      simp only [show sub.id = i from hxi, hi] at hfit
    · rintro rfl
      obtain ⟨r', hr', hev', -⟩ := hlisten.callback
      obtain rfl := Dict.get?_inj hr hr'
      exact ht _ hcap hf (hev.symm.trans hev')

end ManagerWide

/-! ## Runs -/

section Runs

variable {s₀ s₁ : Session} {ls ls₁ : List Label} (h₀ : s₀.Initial)
include h₀

theorem Initial.tagged_run {ok : Session → Label → Prop} (hok : ∀ x l, ok x l → Sectioned l)
    (hrun : Run Steps ok s₀ ls s) : ∃ tag, s.Tagged s₀.jobOf tag := by
  refine hrun.invariant (I := fun x => ∃ tag, x.Tagged s₀.jobOf tag) ⟨_, h₀.tagged⟩ ?_
  rintro x l y ⟨tag, hx⟩ hl hs
  obtain ⟨tag', hy, -⟩ := hx.step (hok x l hl) hs
  exact ⟨tag', hy⟩

/-- Every future shows the statuses accepted for it. -/
theorem Initial.lifecycle_run (hrun : Run Steps (fun _ l => Sectioned l) s₀ ls s) (f : FutureRef) :
    Lifecycle (s.tracker.futures f) (s.tracker.statusesOf f) := by
  refine hrun.invariant (I := fun x => Lifecycle (x.tracker.futures f) (x.tracker.statusesOf f)) ?_
    fun x l y hx hl hs => (hs.recorded hl).lifecycle hx
  obtain ⟨-, -, -, -, -, -, hacc⟩ := h₀.maps
  have hnil : s₀.tracker.statusesOf f = [] := by
    unfold statusesOf
    rw [hacc]
    rfl
  rw [hnil]
  exact Lifecycle.nil (h₀.futures f).1 (h₀.futures f).2

/-- A listener of a job, from the state in which it is registered until the job is done and beyond. -/
theorem Initial.delivered_job_run (hrun₁ : Run Steps (fun _ l => Sectioned l) s₀ ls₁ s₁) {f : FutureRef}
    {i : SubId} {cb : Callback} (hlisten : s₁.tracker.JobListener f i cb)
    (hrun : Run Steps (fun x l => Sectioned l ∧
      ((x.tracker.futures f).done = false → x.tracker.JobListener f i cb)) s₁ ls s) :
    Delivered i cb (statusesOf f) s₁.tracker s.tracker := by
  obtain ⟨tag, h₁⟩ := h₀.tagged_run (fun _ _ => id) hrun₁
  obtain ⟨info, d, hinfo, hd, -⟩ := hlisten.record
  have hfit := h₁.tracker.records.inner _ _ _ hinfo
  have htag : ∃ a, tag i = some (.listener a) ∧ a.jobId = s₀.jobOf f ∧ a.key = .status := by
    unfold TrackerFits at hfit
    split at hfit
    · rw [hfit] at hd
      contradiction
    · rename_i a hi
      obtain ⟨hj, he⟩ := topicOf_inj.mp hfit.1
      exact ⟨a, hi, by rw [← hj, h₁.tracker.jobIds], he.symm⟩
    · exact hfit.elim
  obtain ⟨a, hi, hj, hkey⟩ := htag
  suffices hinv : ∃ tag, s.Tagged s₀.jobOf tag ∧ tag i = some (.listener a) ∧
      Delivered i cb (statusesOf f) s₁.tracker s.tracker by
    obtain ⟨-, -, -, hdel⟩ := hinv
    exact hdel
  refine hrun.invariant (I := fun x => ∃ tag, x.Tagged s₀.jobOf tag ∧ tag i = some (.listener a) ∧
    Delivered i cb (statusesOf f) s₁.tracker x.tracker) ⟨tag, h₁, hi, Delivered.refl _⟩ ?_
  rintro x l y ⟨tag, hx, hi, hdel⟩ ⟨hl, hlisten⟩ hs
  obtain ⟨tag', hy, hext⟩ := hx.step hl hs
  have hstep := hx.delivered_job hi hkey h₀.jobIds hj hlisten (hs.recorded hl)
  exact ⟨tag', hy, (hext i (by rw [hi]; simp)).trans hi, hdel.trans hstep⟩

/-- A manager-wide listener, as long as it is registered. -/
theorem Initial.delivered_global_run
    (hrun₁ : Run Steps (fun _ l => Sectioned l ∧ OnChannel l) s₀ ls₁ s₁) {i : SubId} {cb : Callback}
    (hlisten : s₁.tracker.GlobalListener i cb)
    (hrun : Run Steps (fun x l => (Sectioned l ∧ OnChannel l) ∧ x.tracker.GlobalListener i cb) s₁ ls s) :
    Delivered i cb allStatuses s₁.tracker s.tracker := by
  obtain ⟨tag, h₁⟩ := h₀.tagged_run (fun _ _ h => h.1) hrun₁
  have htyped : s₁.Typed := by
    have hinv : (∃ tag, s₁.Tagged s₀.jobOf tag) ∧ s₁.Typed := by
      refine hrun₁.invariant (I := fun x => (∃ tag, x.Tagged s₀.jobOf tag) ∧ x.Typed)
        ⟨⟨_, h₀.tagged⟩, fun x hx => ?_⟩ ?_
      · rw [h₀.histories.1] at hx
        simp at hx
      · rintro x l y ⟨⟨tag, hx⟩, ht⟩ ⟨hl, hch⟩ hs
        obtain ⟨tag', hy, -⟩ := hx.step hl hs
        exact ⟨⟨tag', hy⟩, ht.step hx hch hs⟩
    exact hinv.2
  obtain ⟨r, hr, -⟩ := hlisten.callback
  suffices hinv : ∃ tag, (s.Tagged s₀.jobOf tag ∧ s.Typed) ∧ tag i = some .global ∧
      Delivered i cb allStatuses s₁.tracker s.tracker by
    obtain ⟨-, -, -, hdel⟩ := hinv
    exact hdel
  refine hrun.invariant (I := fun x => ∃ tag, (x.Tagged s₀.jobOf tag ∧ x.Typed) ∧
    tag i = some .global ∧ Delivered i cb allStatuses s₁.tracker x.tracker)
      ⟨tag, ⟨h₁, htyped⟩, h₁.tracker.globals i r hr, Delivered.refl _⟩ ?_
  rintro x l y ⟨tag, ⟨hx, ht⟩, hi, hdel⟩ ⟨⟨hl, hch⟩, hlisten⟩ hs
  obtain ⟨tag', hy, hext⟩ := hx.step hl hs
  have hstep := hx.delivered_global ht hi hlisten (hs.recorded hl)
  exact ⟨tag', ⟨hy, ht.step hx hch hs⟩, (hext i (by rw [hi]; simp)).trans hi, hdel.trans hstep⟩

omit h₀ in
/-- A finished job shows the same result for ever. -/
theorem done_run (hrun : Run Steps (fun _ l => Sectioned l) s₁ ls s) {f : FutureRef}
    (hd : (s₁.tracker.futures f).done = true) : s.tracker.futures f = s₁.tracker.futures f := by
  refine hrun.invariant (I := fun x => x.tracker.futures f = s₁.tracker.futures f) rfl ?_
  intro x l y hx hl hs
  exact ((hs.recorded hl).done (by rw [hx]; exact hd)).trans hx

end Runs

/-- **Each accepted status is delivered once, and the first terminal one is the last.**  `s₁` and `s` are
two states of one run, in which the threads may be interleaved in any way.

* The statuses accepted for a future are some that are not terminal, then at most one that is.  The
  future is done exactly when there is one, and successful exactly when it is `finished`.
* A future that is done in `s₁` shows the same status, success and exception in `s`.
* A status listener of a job that is registered in `s₁`, and from then on as long as the job is not done,
  got exactly one task for each status accepted in between, in the same order.
* So did a manager-wide status listener that is registered all the time. -/
theorem status_delivery {s₀ s₁ s : Session} {ls₁ ls : List Label} (h₀ : s₀.Initial)
    (hrun₁ : Run Steps (fun _ l => Sectioned l ∧ OnChannel l) s₀ ls₁ s₁)
    (hrun : Run Steps (fun _ l => Sectioned l ∧ OnChannel l) s₁ ls s) :
    (∀ f, Lifecycle (s.tracker.futures f) (s.tracker.statusesOf f)) ∧
    (∀ f, (s₁.tracker.futures f).done = true →
      (s.tracker.futures f).status = (s₁.tracker.futures f).status ∧
      (s.tracker.futures f).success = (s₁.tracker.futures f).success ∧
      (s.tracker.futures f).exception = (s₁.tracker.futures f).exception) ∧
    (∀ f i cb, s₁.tracker.JobListener f i cb →
      Run Steps (fun x l => Sectioned l ∧
        ((x.tracker.futures f).done = false → x.tracker.JobListener f i cb)) s₁ ls s →
      Delivered i cb (statusesOf f) s₁.tracker s.tracker) ∧
    ∀ i cb, s₁.tracker.GlobalListener i cb →
      Run Steps (fun x l => (Sectioned l ∧ OnChannel l) ∧ x.tracker.GlobalListener i cb) s₁ ls s →
      Delivered i cb allStatuses s₁.tracker s.tracker := by
  have hsec₁ : Run Steps (fun _ l => Sectioned l) s₀ ls₁ s₁ := hrun₁.mono fun _ _ h => h.1
  have hsec : Run Steps (fun _ l => Sectioned l) s₁ ls s := hrun.mono fun _ _ h => h.1
  refine ⟨h₀.lifecycle_run (hsec₁.append hsec), fun f hd => ?_, fun f i cb hl hr => ?_,
    fun i cb hl hr => ?_⟩
  · rw [done_run hsec hd]
    exact ⟨rfl, rfl, rfl⟩
  · exact h₀.delivered_job_run hsec₁ hl hr
  · exact h₀.delivered_global_run hrun₁ hl hr

/-- Whether the step is a section, and takes a status from the channel of the job `j` only. -/
def onChannel (l : Label) : Bool :=
  decide (Sectioned l) &&
    match l.act with
    | .poll t (.status _) => decide (t = topicOf "j" .status)
    | _ => true

theorem onChannel_sound {l : Label} (h : onChannel l = true) : Sectioned l ∧ OnChannel l := by
  obtain ⟨hl, hch⟩ := Bool.and_eq_true_iff.mp h
  refine ⟨of_decide_eq_true hl, fun t m he => ⟨"j", ?_⟩⟩
  rw [he] at hch
  exact of_decide_eq_true hch

/-- The job `j` is tracked, then a listener of its status and a manager-wide one are added. -/
def listening : List Label :=
  ⟨.still, .startTrack 0 0⟩ :: List.replicate 4 ⟨.still, .proceed 0⟩ ++
    [⟨.still, .startAdd 1 ⟨"j", .status, 7⟩⟩, ⟨.still, .proceed 1⟩, ⟨.still, .proceed 1⟩, ⟨.still, .listenGlobal .status 8⟩]

/-- The job runs and is cancelled while a `finished` of the worker is captured but not yet delivered. -/
def ending : List Label :=
  [⟨.still, .applyStatus { status := "running" } 0⟩,
    ⟨.still, .poll "info/j/status" (.status { status := "finished" })⟩,
    ⟨.still, .startCancel 2 "j"⟩, ⟨.still, .cancelled 2 (.ok ())⟩, ⟨.still, .deliver⟩]

/-- The same, while both listeners are registered. -/
def attended (s : Session) (l : Label) : Bool :=
  onChannel l && decide (s.tracker.GlobalListener 3 8) &&
    ((s.tracker.futures 0).done || decide (s.tracker.JobListener 0 2 7))

theorem attended_sound (h : attended s l = true) : (Sectioned l ∧ OnChannel l) ∧ s.tracker.GlobalListener 3 8 ∧
    ((s.tracker.futures 0).done = false → s.tracker.JobListener 0 2 7) := by
  unfold attended at h
  simp only [Bool.and_eq_true, decide_eq_true_eq, Bool.or_eq_true] at h
  obtain ⟨⟨hl, hg⟩, hj⟩ := h
  exact ⟨onChannel_sound hl, hg, fun hd => hj.resolve_left (by rw [hd]; decide)⟩

/-- Both listeners are told that the job runs and is cancelled, and of nothing else. -/
theorem status_delivery_of_two_listeners : ∃ s₁ s : Session, ∃ ls₁ ls,
    Run Steps (fun _ l => Sectioned l ∧ OnChannel l) (new (fun _ _ => none) unary) ls₁ s₁ ∧
    Run Steps (fun _ l => Sectioned l ∧ OnChannel l) s₁ ls s ∧
    s.tracker.statusesOf 0 = [.running, .cancelled] ∧
    Delivered 2 7 (statusesOf 0) s₁.tracker s.tracker ∧ Delivered 3 8 allStatuses s₁.tracker s.tracker := by
  have hex : ∃ s₁, Run Steps (fun _ l => Sectioned l ∧ OnChannel l) (new (fun _ _ => none) unary) listening s₁ ∧
      (decide (s₁.tracker.JobListener 0 2 7) && decide (s₁.tracker.GlobalListener 3 8) &&
        Run.leads step attended (fun s => decide (s.tracker.statusesOf 0 = [.running, .cancelled])) ending s₁) = true :=
    Run.of_leads (p := fun _ => onChannel) (fun _ _ _ => id) (fun _ _ => onChannel_sound) (by decide +kernel)
  obtain ⟨s₁, hrun₁, hq⟩ := hex
  simp only [Bool.and_eq_true, decide_eq_true_eq] at hq
  obtain ⟨⟨hjob, hglobal⟩, hleads⟩ := hq
  obtain ⟨s, hrun, hst⟩ := Run.of_leads (R := Steps) (fun _ _ _ => id) (fun _ _ => attended_sound) hleads
  have hrun' : Run Steps (fun _ l => Sectioned l ∧ OnChannel l) s₁ ending s := hrun.mono fun _ _ h => h.1
  obtain ⟨-, -, hj, hg⟩ := status_delivery (initial_new _ unary_injective) hrun₁ hrun'
  exact ⟨s₁, s, listening, ending, hrun₁, hrun', of_decide_eq_true hst,
    hj 0 2 7 hjob (hrun.mono fun _ _ h => ⟨h.1.1, h.2.2⟩),
    hg 3 8 hglobal (hrun.mono fun _ _ h => ⟨h.1, h.2.1⟩)⟩

end Session

end SlurmManager
