import SlurmManager.Tracking.Arrival

/-!
# Outcome — what the statuses of the worker make of a future

The listener thread captures the lifecycle callback of a job when a status arrives and calls it later.  Sections of
other threads come in between, and the callback may be gone from the client by then.

* `JobFuture.heed`: a future and one status message.
* `Aimed`: the lifecycle callback of a future is registered under the status topic of its job only.
* `outcome_of_arrivals`: as long as nobody else speaks of the job, **its future is what the arrived statuses make of
  it, one after the other**, but for those that are captured and not yet handed over.
* `run_tuned`: while the job runs and its status topic is left alone, the lifecycle callback is registered.
-/

namespace SlurmManager

open Program JobTracker

/-! ## Status texts -/

/-- The status and the details of a status text; `none` if it names no status. -/
def statusOfText (text : String) : Option (JobStatus × Option String) :=
  (JobStatus.ofValue? (splitColon text).1).map fun st => (st, (splitColon text).2)

/-- What the lifecycle callback makes of a future, with the runtime that it is called in. -/
def JobFuture.heed (f : JobFuture) (x : Runtime × StatusMessage) : JobFuture :=
  let d := decodeStatus x.1 { x.2 with metadata := enrich x.1 x.2.metadata f.jobId f.slurmJobId }
  f.updateStatus d.2.1 d.2.2

def ClientCallback.event? : ClientCallback → Option FutureRef
  | .event f => some f
  | _ => none

def SlurmMessage.status? : SlurmMessage → Option StatusMessage
  | .status m => some m
  | _ => none

theorem event?_eq_some {cb : ClientCallback} {f : FutureRef} (h : cb.event? = some f) : cb = .event f := by
  cases cb with
  | event g =>
    obtain rfl := Option.some.inj h
    rfl
  | _ => contradiction

theorem heed_done {f : JobFuture} (h : f.done = true) (x : Runtime × StatusMessage) : f.heed x = f :=
  JobFuture.updateStatus_of_done _ _ h

theorem foldl_heed_done {f : JobFuture} (h : f.done = true) (xs : List (Runtime × StatusMessage)) :
    xs.foldl JobFuture.heed f = f := by
  induction xs with
  | nil => rfl
  | cons x xs ih =>
    rw [List.foldl_cons, heed_done h]
    exact ih

theorem heed_of_text (f : JobFuture) (rt : Runtime) {m : StatusMessage} {st : JobStatus} {x : Option String}
    (h : statusOfText m.status = some (st, x)) : f.heed (rt, m) = f.updateStatus st x := by
  obtain ⟨st', hst, hp⟩ := Option.map_eq_some_iff.mp h
  obtain ⟨rfl, rfl⟩ := Prod.mk.inj hp
  have hdec : ∀ md, decodeStatus rt { m with metadata := md } =
      ({ m with metadata := md }, st', (splitColon m.status).2) := fun _ => decodeStatus_of_ofValue? rt rfl hst
  exact congrArg (fun d => f.updateStatus d.2.1 d.2.2) (hdec _)

/-! ## Applying a status -/

section Apply

variable {s : JobTracker} {f g : FutureRef}

/-- `apply_status` of an enriched message. -/
theorem after_applyStatus_self (rt : Runtime) (m : StatusMessage) :
    ((applyStatus rt { m with metadata := enrich rt m.metadata (s.futures f).jobId (s.futures f).slurmJobId }
        f).after s).futures f = (s.futures f).heed (rt, m) ∧
      (((s.futures f).heed (rt, m)).done = false → ((applyStatus rt { m with
        metadata := enrich rt m.metadata (s.futures f).jobId (s.futures f).slurmJobId } f).after s).futureRegistry =
          s.futureRegistry) := by
  generalize hm : ({ m with metadata := enrich rt m.metadata (s.futures f).jobId (s.futures f).slurmJobId } :
    StatusMessage) = m'
  have hself : (s.accept rt m' f).futures f = (s.futures f).heed (rt, m) := by
    rw [accept_futures_self, ← hm]
    rfl
  cases hd : (s.futures f).done with
  | true =>
    rw [after, exec_applyStatus_done rt m' f hd, heed_done hd]
    exact ⟨rfl, fun _ => rfl⟩
  | false =>
    cases ht : (decoded rt m').terminal with
    | false =>
      rw [after, exec_applyStatus_running rt m' f hd ht]
      exact ⟨hself, fun _ => rfl⟩
    | true =>
      rw [after, exec_applyStatus_terminal rt m' f hd ht]
      refine ⟨?_, fun hn => ?_⟩
      · have hframe := congrFun (congrArg (fun y => y.2.1) (frame_discardJob rt (s.futures f).jobId (s.accept rt m' f))) f
        exact Eq.trans hframe hself
      · rw [← hself, accept_done rt m' f hd, ht] at hn
        contradiction

/-- `apply_status` for another job. -/
theorem after_applyStatus_other (rt : Runtime) (m : StatusMessage) (hg : f ≠ g) {j : String}
    (hj : j ≠ (s.futures g).jobId) :
    ((applyStatus rt m g).after s).futures f = s.futures f ∧
      ((applyStatus rt m g).after s).futureRegistry.get? j = s.futureRegistry.get? j := by
  have haccept : (s.accept rt m g).futures f = s.futures f := accept_futures_ne rt m g hg
  cases hd : (s.futures g).done with
  | true =>
    rw [after, exec_applyStatus_done rt m g hd]
    exact ⟨rfl, rfl⟩
  | false =>
    cases ht : (decoded rt m).terminal with
    | false =>
      rw [after, exec_applyStatus_running rt m g hd ht]
      exact ⟨haccept, rfl⟩
    | true =>
      rw [after, exec_applyStatus_terminal rt m g hd ht]
      have hframe := congrFun (congrArg (fun y => y.2.1) (frame_discardJob rt (s.futures g).jobId (s.accept rt m g))) f
      exact ⟨Eq.trans hframe haccept, frame_discardJob_registry rt hj (s.accept rt m g)⟩

/-- The call of a lifecycle callback with a status. -/
theorem after_deliver_status (rt : Runtime) (m : StatusMessage) {sub : Subscription ClientCallback}
    (hcb : sub.callback = .event f) : (deliver rt (.status m) sub).after s = (applyStatus rt { m with
      metadata := enrich rt m.metadata (s.futures f).jobId (s.futures f).slurmJobId } f).after s := by
  unfold deliver
  rw [hcb, after, exec_bind_ok (exec_get s), exec_tryCatch, after]
  rcases (applyStatus rt _ f).exec s with ⟨r, t⟩
  cases r <;> rfl

end Apply

namespace Session

variable {jobOf : FutureRef → String} {j : String} {s s' : Session} {l : Label} {f : FutureRef}

/-! ## Where a lifecycle callback is registered -/

/-- The lifecycle callback of a future is registered under the status topic of its job only. -/
def Aimed (jobOf : FutureRef → String) (s : Session) : Prop :=
  ∀ t i sub f, s.tracker.subClient.registration? t i = some sub → sub.callback = .event f →
    t = topicOf (jobOf f) .status

theorem Initial.aimed (h : s.Initial) : s.Aimed s.jobOf := by
  intro t i sub f hi
  unfold RedisSubClient.registration? at hi
  rw [h.client.1] at hi
  contradiction

/-- A registration with a lifecycle callback is under a status topic. -/
theorem Regular.status_topic (h : s.Regular jobOf) {t : Topic} {i : SubId} {sub : Subscription ClientCallback}
    (hi : s.tracker.subClient.registration? t i = some sub) (hcb : sub.callback = .event f) :
    ∃ j, t = topicOf j .status := by
  obtain ⟨tag, htag⟩ := h.tagged
  obtain ⟨-, hfit⟩ := htag.tracker.client.subs.inner t i sub hi
  cases hx : tag i with
  | none => simp [hx] at hfit
  | some y =>
    rw [hx] at hfit
    cases y with
    | internal e =>
      obtain ⟨g, x, hcb', ht⟩ := hfit
      cases e with
      | status => exact ⟨_, ht⟩
      | heartbeat =>
        rw [hcb'] at hcb
        contradiction
      | log =>
        rw [hcb'] at hcb
        contradiction
    | global => exact hfit.elim
    | listener a =>
      obtain ⟨-, g, hcb'⟩ := hfit
      have hint := not_internal_redisCallback a g
      rw [← hcb', hcb] at hint
      exact absurd trivial hint

theorem Aimed.step (h : s.Aimed jobOf) (hr : s.Regular jobOf) (hinj : ∀ f g, jobOf f = jobOf g → f = g)
    (hl : Sectioned l) (hs : Steps s l s') : s'.Aimed jobOf := by
  intro t i sub f hi hcb
  obtain ⟨j, rfl⟩ := (hr.step hl hs).status_topic hi hcb
  obtain ⟨pending, hh⟩ := hr.homed
  by_cases hk : Leaves j .status s l
  · have hon := hh.onTopic hinj hl hk hs
    cases hon with
    | aside _ ht => exact h _ i sub f (ht.client i sub hi) hcb
    | closed _ ht => exact h _ i sub f (ht.client _ i sub hi) hcb
    | checked _ he => contradiction
    | heard _ _ _ _ _ ht => exact h _ i sub f (by rwa [ht] at hi) hcb
    | published => exact h _ i sub f hi hcb
    | @subscribed n g rest r c _ _ hj he =>
      rw [Config.exec_subscribeCallback, onClient, exec_focus, hh.jobIds, hj] at he
      obtain ⟨hr', rfl⟩ := Prod.mk.inj he
      cases r with
      | error err =>
        have hi' := (RedisSubClient.registration?_subscribe_error (Prod.ext hr' rfl) i).symm.trans hi
        exact h _ i sub f hi' hcb
      | ok k =>
        have hi' := (RedisSubClient.registration?_subscribe (Prod.ext hr' rfl) i).symm.trans hi
        split_ifs at hi' with hki
        · obtain rfl := Option.some.inj hi'
          obtain rfl := ClientCallback.event.inj hcb
          rw [hj]
        · exact h _ i sub f hi' hcb
    | @indexed n g k o rest _ _ _ =>
      have hi' : ((indexCallback l.rt .status g k).after s.tracker).subClient.registration? (topicOf j .status) i =
        some sub := hi
      rw [after, Config.exec_indexCallback] at hi'
      exact h _ i sub f hi' hcb
    | @joined n a g r c _ _ ha he =>
      have hx : (subscribeListener a g).exec s.tracker = _ := exec_bind_ok (exec_get s.tracker)
      rw [hx, onClient, exec_focus, ha] at he
      obtain ⟨hr', rfl⟩ := Prod.mk.inj he
      cases r with
      | error err =>
        have hi' := (RedisSubClient.registration?_subscribe_error (Prod.ext hr' rfl) i).symm.trans hi
        exact h _ i sub f hi' hcb
      | ok k =>
        have hi' := (RedisSubClient.registration?_subscribe (Prod.ext hr' rfl) i).symm.trans hi
        split_ifs at hi' with hki
        · obtain rfl := Option.some.inj hi'
          have hint := not_internal_redisCallback a (s.tracker.futures g)
          rw [show a.redisCallback (s.tracker.futures g) = .event f from hcb] at hint
          exact absurd trivial hint
        · exact h _ i sub f hi' hcb
    | @validated n a g k o r c ids _ _ _ he =>
      have hfewer := lift_validateListener RedisSubClient.removals_fewer a g k s.tracker
      rw [after, he] at hfewer
      exact h _ i sub f (hfewer _ i sub hi) hcb
  · have hlost := (show Idle jobOf j .status s s' ∧ _ from idle_of_removal hk hs).2
    exact h _ i sub f (hlost.client _ i sub hi) hcb

/-! ## Who speaks of a job -/

/-- Nobody but the listener thread speaks of the job: no status is applied to it by hand, it is neither cancelled nor
removed, and the scheduler has no verdict on it. -/
def Unspoken (j : String) (f : FutureRef) (s : Session) (l : Label) : Prop :=
  match l.act with
  | .applyStatus _ g => g ≠ f
  | .removeSubscriptionsForJob j' _ => j' ≠ j
  | .cancelled n (.ok _) => s.calls n ≠ .cancelling (some f)
  | .checked n (some _) => s.calls n ≠ .checking f
  | _ => True

/-- **A section that hands no status over to the future leaves it alone.** -/
theorem Steps.unspoken {pending : SubId → Option Pending} (hh : s.Homed jobOf pending)
    (hinj : ∀ f g, jobOf f = jobOf g → f = g) (hl : Sectioned l) (hu : Unspoken (jobOf f) f s l)
    (hp : f ∈ s.published) (hreg : s.tracker.futureRegistry.get? (jobOf f) = some f)
    (hno : ∀ sub m rest, l.act = .deliver → s.captured = (sub, .status m) :: rest → sub.callback ≠ .event f)
    (hs : Steps s l s') : s'.tracker.futures f = s.tracker.futures f ∧
      s'.tracker.futureRegistry.get? (jobOf f) = some f := by
  have heff := hs.effect
  generalize s'.tracker = t at heff ⊢
  unfold Unspoken at hu
  cases heff with
  | keep x hx =>
    have hsame := hx s.tracker
    exact ⟨congrFun (congrArg (fun y => y.2.2.1) hsame) f,
      (congrArg (fun y => y.1.get? (jobOf f)) hsame).trans hreg⟩
  | @publish g hg x hx =>
    have hsame := hx (publishFuture g s.tracker)
    have hne : jobOf f ≠ (s.tracker.futures g).jobId := by
      rw [hh.jobIds]
      exact fun he => hg (hinj f g he ▸ hp)
    refine ⟨congrFun (congrArg (fun y => y.2.2.1) hsame) f,
      (congrArg (fun y => y.1.get? (jobOf f)) hsame).trans ?_⟩
    exact (Dict.get?_set_ne _ _ hne).trans hreg
  | @status m g ha =>
    have hg : f ≠ g := by
      rintro rfl
      cases ha with
      | call hact =>
        rw [hact] at hu
        exact hu rfl
      | removal hact hf =>
        rw [hact] at hu
        exact hu (hh.registry _ _ hf).symm
      | cancel hact hn =>
        rw [hact] at hu
        exact hu hn
      | verdict hact hn =>
        rw [hact] at hu
        exact hu hn
      | message hact hc hcb => exact hno _ _ _ hact hc hcb
    have hne : jobOf f ≠ (s.tracker.futures g).jobId := by
      rw [hh.jobIds]
      exact fun he => hg (hinj f g he)
    obtain ⟨hfuture, hsame⟩ := after_applyStatus_other (s := s.tracker) l.rt m hg hne
    exact ⟨hfuture, hsame.trans hreg⟩
  | @discard j' skip hact =>
    rw [hact] at hu
    have hframe := frame_discardJob l.rt j' s.tracker
    exact ⟨congrFun (congrArg (fun y => y.2.1) hframe) f,
      Eq.trans (frame_discardJob_registry l.rt (Ne.symm hu) s.tracker) hreg⟩
  | @removeIds ids hact =>
    have hframe := frame_removeSubscriptionById ids s.tracker
    exact ⟨congrFun (congrArg (fun y => y.2.1) hframe) f,
      (congrArg (fun y => y.1.get? (jobOf f)) hframe).trans hreg⟩
  | @listen e cb hact =>
    have hframe := frame_listenGlobal e cb s.tracker
    exact ⟨congrFun (congrArg (fun y => y.2.1) hframe) f,
      (congrArg (fun y => y.1.get? (jobOf f)) hframe).trans hreg⟩
  | @deliver sub m rest hact hc hnone =>
    have hframe := frame_deliver l.rt hnone s.tracker
    exact ⟨congrFun (congrArg (fun y => y.2.2.1) hframe) f,
      (congrArg (fun y => y.1.get? (jobOf f)) hframe).trans hreg⟩
  | dispatch hact =>
    unfold Sectioned at hl
    rw [hact] at hl
    exact hl.elim

/-! ## What has arrived -/

/-- The statuses that arrived under the topic. -/
def statusesAt (t : Topic) (ls : List Label) : List StatusMessage :=
  ls.filterMap fun l => match l.act with
    | .poll t' m => if t' = t then m.status? else none
    | _ => none

/-- The statuses that the listener thread has captured for the future. -/
def awaitedStatuses (f : FutureRef) (captured : List (Subscription ClientCallback × SlurmMessage)) :
    List StatusMessage :=
  captured.flatMap fun x => if x.1.callback.event? = some f then x.2.status?.toList else []

theorem statusesAt_append (t : Topic) (ls : List Label) (l : Label) :
    statusesAt t (ls ++ [l]) = statusesAt t ls ++ statusesAt t [l] := List.filterMap_append

theorem statusesAt_quiet (t : Topic) (hl : ∀ t m, l.act ≠ .poll t m) : statusesAt t [l] = [] := by
  refine List.filterMap_cons_none ?_
  cases ha : l.act with
  | poll t m => exact absurd ha (hl t m)
  | _ => rfl

/-- What holds after any sections. -/
structure Attuned (jobOf : FutureRef → String) (s : Session) : Prop where
  regular : s.Regular jobOf
  bounds : ∀ j e, ∃ x, s.Bounds jobOf j e x
  aimed : s.Aimed jobOf

/-- As long as the job runs, its lifecycle callback is registered in the client. -/
def Tuned (s : Session) (j : String) (f : FutureRef) : Prop :=
  s.Running j f → ∃ i sub, s.tracker.subClient.registration? (topicOf j .status) i = some sub ∧ sub.callback = .event f

theorem Attuned.published (h : s.Attuned jobOf) (hinj : ∀ f g, jobOf f = jobOf g → f = g) (ht : s.Tuned (jobOf f) f)
    (hf : s.Running (jobOf f) f) : f ∈ s.published := by
  obtain ⟨i, sub, hi, hcb⟩ := ht hf
  obtain ⟨x, hx⟩ := h.bounds (jobOf f) .status
  have hid := hx.client i sub hi (by rw [hcb]; trivial)
  by_contra hno
  rw [hx.fresh fun g hg hj => hno (hinj g f hj ▸ hg)] at hid
  contradiction

/-- The capture of a message for the future. -/
theorem Attuned.capture (h : s.Attuned jobOf) (ht : s.Tuned (jobOf f) f) (hf : s.Running (jobOf f) f) (t : Topic)
    (m : SlurmMessage) : awaitedStatuses f ((s.tracker.subClient.capture t).map fun sub => (sub, m)) =
      if t = topicOf (jobOf f) .status then m.status?.toList else [] := by
  unfold awaitedStatuses
  rw [List.flatMap_map]
  have hinternal : ∀ sub : Subscription ClientCallback, sub.callback.event? = some f → sub.callback.Internal := by
    intro sub hsub
    rw [event?_eq_some hsub]
    trivial
  split_ifs with hx
  · subst hx
    obtain ⟨i, sub, hi, hcb⟩ := ht hf
    have hsub : sub.callback.event? = some f := by
      rw [hcb]
      rfl
    obtain ⟨x, hx⟩ := h.bounds (jobOf f) .status
    have hid := hx.client i sub hi (hinternal sub hsub)
    refine (Dict.flatMap_values_eq hi fun k sub' hk hne => if_neg fun hsub' => hne ?_).trans (if_pos hsub)
    exact Option.some.inj ((hx.client k sub' hk (hinternal sub' hsub')).symm.trans hid)
  · refine List.flatMap_eq_nil_iff.mpr fun sub hsub => if_neg fun hev => hx ?_
    obtain ⟨k, hk⟩ := RedisSubClient.mem_capture.mp hsub
    exact h.aimed t k sub f hk (event?_eq_some hev)

/-- **The future is what the statuses made of it**: all of them once it is done, and before that those that have been
handed over. -/
def Heard (jobOf : FutureRef → String) (f : FutureRef) (start : JobFuture) (ms : List StatusMessage) (s : Session) :
    Prop :=
  ((s.tracker.futures f).done = true ∧ ∃ xs : List (Runtime × StatusMessage), xs.map Prod.snd = ms ∧
      s.tracker.futures f = xs.foldl JobFuture.heed start) ∨
    (s.Running (jobOf f) f ∧ ∃ xs : List (Runtime × StatusMessage),
      ms = xs.map Prod.snd ++ awaitedStatuses f s.captured ∧ s.tracker.futures f = xs.foldl JobFuture.heed start)

/-- A future that is done heeds no further statuses. -/
theorem Heard.of_done {xs : List (Runtime × StatusMessage)} {start : JobFuture} {ms : List StatusMessage} (rt : Runtime)
    (hd : (s.tracker.futures f).done = true) (hfold : s.tracker.futures f = xs.foldl JobFuture.heed start) :
    s.Heard jobOf f start (xs.map Prod.snd ++ ms) := by
  refine Or.inl ⟨hd, xs ++ ms.map fun m => (rt, m), ?_, ?_⟩
  · rw [List.map_append, List.map_map]
    exact congrArg (_ ++ ·) (List.map_id _)
  · rw [List.foldl_append, ← hfold, foldl_heed_done hd]

section Step

variable {start : JobFuture} {ms : List StatusMessage}

/-- The call of the lifecycle callback hands one status over. -/
theorem Heard.handed (hms : s.Heard jobOf f start ms) (hf : s.Running (jobOf f) f) {rt : Runtime}
    {sub : Subscription ClientCallback} {m : StatusMessage} (hc : s.captured = (sub, .status m) :: s'.captured)
    (hcb : sub.callback = .event f) (ht : s'.tracker = (JobTracker.deliver rt (.status m) sub).after s.tracker) :
    s'.Heard jobOf f start ms := by
  rcases hms with ⟨hd, -⟩ | ⟨-, xs, rfl, hfold⟩
  · rw [hf.2] at hd
    contradiction
  rw [after_deliver_status rt m hcb] at ht
  obtain ⟨hself, hreg⟩ := after_applyStatus_self (s := s.tracker) (f := f) rt m
  have hheed : s'.tracker.futures f = (xs ++ [(rt, m)]).foldl JobFuture.heed start := by
    rw [ht, hself, List.foldl_append, ← hfold]
    rfl
  have hsplit : xs.map Prod.snd ++ awaitedStatuses f s.captured =
      (xs ++ [(rt, m)]).map Prod.snd ++ awaitedStatuses f s'.captured := by
    have hone : awaitedStatuses f s.captured = m :: awaitedStatuses f s'.captured := by
      rw [hc]
      unfold awaitedStatuses
      rw [List.flatMap_cons, hcb]
      exact congrArg (· ++ _) (if_pos rfl)
    rw [hone, List.map_append, List.append_assoc]
    rfl
  rw [hsplit]
  cases hd : (s'.tracker.futures f).done with
  | true => exact Heard.of_done rt hd hheed
  | false =>
    refine Or.inr ⟨⟨?_, hd⟩, xs ++ [(rt, m)], rfl, hheed⟩
    rw [ht, hself] at hd
    rw [ht, hreg hd]
    exact hf.1

/-- A section that hands no status over to the future may capture one. -/
theorem Heard.captured (h : s.Attuned jobOf) (ht : s.Tuned (jobOf f) f) (hf : s.Running (jobOf f) f)
    (hms : s.Heard jobOf f start ms) (hl : Sectioned l) (hs : Steps s l s') (hf' : s'.Running (jobOf f) f)
    (hsame : s'.tracker.futures f = s.tracker.futures f)
    (hno : ∀ sub m rest, l.act = .deliver → s.captured = (sub, .status m) :: rest → sub.callback ≠ .event f) :
    s'.Heard jobOf f start (ms ++ statusesAt (topicOf (jobOf f) .status) [l]) := by
  rcases hms with ⟨hd, -⟩ | ⟨-, xs, rfl, hfold⟩
  · rw [hf.2] at hd
    contradiction
  refine Or.inr ⟨hf', xs, ?_, hsame.trans hfold⟩
  rw [List.append_assoc]
  refine congrArg (xs.map Prod.snd ++ ·) ?_
  cases hs.flow hl with
  | @poll t m hact hc _ hc' =>
    have harrived : statusesAt (topicOf (jobOf f) .status) [l] =
        if t = topicOf (jobOf f) .status then m.status?.toList else [] := by
      unfold statusesAt
      rw [List.filterMap_cons, hact]
      dsimp only
      split_ifs
      · cases m <;> rfl
      · rfl
    rw [hc, hc', harrived, h.capture ht hf]
    rfl
  | @deliver sub m hact hc _ =>
    have hskip : (if sub.callback.event? = some f then m.status?.toList else []) = [] := by
      refine ite_eq_right_iff.mpr fun hsub => ?_
      cases m with
      | status m => exact absurd (event?_eq_some hsub) (hno sub m s'.captured hact hc)
      | heartbeat m => rfl
      | log m => rfl
    have hsplit : awaitedStatuses f s.captured = awaitedStatuses f s'.captured := by
      rw [hc]
      unfold awaitedStatuses
      rw [List.flatMap_cons]
      exact (congrArg (· ++ _) hskip).trans (List.nil_append _)
    rw [hsplit, statusesAt_quiet _ (by rw [hact]; simp), List.append_nil]
  | quiet hact hc _ => rw [hc, statusesAt_quiet _ hact, List.append_nil]

/-- **One section.** -/
theorem Heard.step (h : s.Attuned jobOf) (ht : s.Tuned (jobOf f) f) (hinj : ∀ f g, jobOf f = jobOf g → f = g)
    (hms : s.Heard jobOf f start ms) (hl : Sectioned l) (hu : Unspoken (jobOf f) f s l) (hs : Steps s l s') :
    s'.Heard jobOf f start (ms ++ statusesAt (topicOf (jobOf f) .status) [l]) := by
  obtain ⟨pending, hh⟩ := h.regular.homed
  rcases id hms with ⟨hd, xs, rfl, hfold⟩ | ⟨hf, -⟩
  · have hkept := (hs.recorded hl).done hd
    exact Heard.of_done l.rt (by rwa [hkept]) (hkept.trans hfold)
  by_cases hev : ∃ sub m rest, l.act = .deliver ∧ s.captured = (sub, .status m) :: rest ∧ sub.callback = .event f
  · obtain ⟨sub, m, rest, hact, hc, hcb⟩ := hev
    rw [statusesAt_quiet _ (by rw [hact]; simp), List.append_nil]
    obtain ⟨rt, act⟩ := l
    obtain rfl : act = .deliver := hact
    unfold Steps Session.step at hs
    simp only [hc] at hs
    obtain rfl := Option.some.inj hs
    exact hms.handed hf hc hcb rfl
  · have hno : ∀ sub m rest, l.act = .deliver → s.captured = (sub, .status m) :: rest → sub.callback ≠ .event f :=
      fun sub m rest hact hc hcb => hev ⟨sub, m, rest, hact, hc, hcb⟩
    obtain ⟨hsame, hreg⟩ := hs.unspoken hh hinj hl hu (h.published hinj ht hf) hf.1 hno
    exact hms.captured h ht hf hl hs ⟨hreg, by rw [hsame]; exact hf.2⟩ hsame hno

end Step

/-! ## Runs -/

theorem Attuned.step (h : s.Attuned jobOf) (hinj : ∀ f g, jobOf f = jobOf g → f = g) (hl : Sectioned l)
    (hs : Steps s l s') : s'.Attuned jobOf := by
  obtain ⟨pending, hh⟩ := h.regular.homed
  refine ⟨h.regular.step hl hs, fun j e => ?_, h.aimed.step h.regular hinj hl hs⟩
  obtain ⟨x, hx⟩ := h.bounds j e
  exact hx.step hh h.regular.solo hinj hl hs

theorem Initial.attuned (h : s.Initial) : s.Attuned s.jobOf := ⟨h.regular, fun j e => ⟨_, h.bounds j e⟩, h.aimed⟩

theorem run_attuned {s₀ : Session} {ls : List Label} (h₀ : s₀.Initial)
    (hrun : Run Steps (fun _ l => Sectioned l) s₀ ls s) : s.Attuned s₀.jobOf :=
  hrun.invariant (I := fun s => s.Attuned s₀.jobOf) h₀.attuned fun _ _ _ h hl hs => h.step h₀.jobIds hl hs

/-- **A run of sections of all calls.** -/
theorem Heard.run {start : JobFuture} {ms : List StatusMessage} {ls : List Label} (h : s.Attuned jobOf)
    (hinj : ∀ f g, jobOf f = jobOf g → f = g) (hms : s.Heard jobOf f start ms)
    (hrun : Run Steps (fun s l => Sectioned l ∧ Unspoken (jobOf f) f s l ∧ s.Tuned (jobOf f) f) s ls s') :
    s'.Attuned jobOf ∧ s'.Heard jobOf f start (ms ++ statusesAt (topicOf (jobOf f) .status) ls) := by
  induction hrun with
  | nil => exact ⟨h, by rwa [show statusesAt _ [] = [] from rfl, List.append_nil]⟩
  | @snoc s' s'' ls l hrun hok hs ih =>
    obtain ⟨hl, hu, ht⟩ := hok
    obtain ⟨h', hms'⟩ := ih
    rw [statusesAt_append, ← List.append_assoc]
    exact ⟨h'.step hinj hl hs, hms'.step h' ht hinj hl hu hs⟩

/-- **The future of a job is what the arrived statuses make of it.**  While the job runs, its lifecycle callback is
registered in the client, and nobody but the listener thread speaks of the job.  Then the future, once it is done, is
what all statuses that arrived under the topic of the job made of it one after the other, unknown ones as errors;
before that it is what those made of it that are not captured any more. -/
theorem outcome_of_arrivals {s₀ s₁ : Session} {ls₁ ls₂ : List Label} (h₀ : s₀.Initial)
    (h₁ : Run Steps (fun _ l => Sectioned l) s₀ ls₁ s₁) (hf : s₁.Running (s₀.jobOf f) f)
    (h₂ : Run Steps (fun s l => Sectioned l ∧ Unspoken (s₀.jobOf f) f s l ∧ s.Tuned (s₀.jobOf f) f) s₁ ls₂ s) :
    s.Heard s₀.jobOf f (s₁.tracker.futures f)
      (awaitedStatuses f s₁.captured ++ statusesAt (topicOf (s₀.jobOf f) .status) ls₂) := by
  have hstart : s₁.Heard s₀.jobOf f (s₁.tracker.futures f) (awaitedStatuses f s₁.captured) :=
    Or.inr ⟨hf, [], rfl, rfl⟩
  exact (hstart.run (run_attuned h₀ h₁) h₀.jobIds h₂).2

/-- **While a job runs, its lifecycle callback is registered**, once `track` has indexed it and as long as its
subscription is left alone. -/
theorem run_tuned {s₀ s₁ : Session} {ls₁ ls₂ : List Label} {rt : Runtime} {n : ℕ} {i : SubId} {o : Bool}
    {rest : List Event} (h₀ : s₀.Initial) (h₁ : Run Steps (Tending (s₀.jobOf f) .status) s₀ ls₁ s₁)
    (hn : s₁.calls n = .indexing f .status i o rest)
    (h₂ : Run Steps (Tending (s₀.jobOf f) .status) s₁ (⟨rt, .proceed n⟩ :: ls₂) s) : s.Tuned (s₀.jobOf f) f := by
  obtain ⟨hr₁, x, hx⟩ := run_installs h₀ h₁
  obtain ⟨s₂, ⟨hl, -⟩, hs, hrest⟩ := h₂.uncons
  have hx₂ := hr₁.indexed h₀.jobIds hx hn rfl hs
  obtain ⟨-, hx₃⟩ := run_indexed h₀.jobIds (hr₁.step hl hs) hx₂ hrest
  exact fun hf => ⟨i, _, hx₃.registered f i hf.1 hf.2 rfl, rfl⟩

/-- Whether the lifecycle callback of the future is registered under the status topic of `j`. -/
def tuned (j : String) (f : FutureRef) (s : Session) : Bool :=
  (s.tracker.subClient.capture (topicOf j .status)).any fun sub => sub.callback.event? == some f

theorem tuned_of_any (h : s.tuned j f = true) : s.Tuned j f := by
  intro _
  obtain ⟨sub, hsub, hev⟩ := List.any_eq_true.mp h
  obtain ⟨i, hi⟩ := RedisSubClient.mem_capture.mp hsub
  exact ⟨i, sub, hi, event?_eq_some (beq_iff_eq.mp hev)⟩

/-- Whether the listener thread does something while the lifecycle callback of a running job is registered. -/
def heeding (j : String) (f : FutureRef) (s : Session) (l : Label) : Bool :=
  (match l.act with | .poll _ _ | .deliver => true | _ => false) &&
    (s.tracker.futureRegistry.get? j != some f || s.tuned j f)

theorem tuned_of_heeding (j : String) (f : FutureRef) (s : Session) (l : Label) (h : heeding j f s l = true) :
    Sectioned l ∧ Unspoken j f s l ∧ s.Tuned j f := by
  obtain ⟨hl, ht⟩ := Bool.and_eq_true_iff.mp h
  have htuned : s.Tuned j f := by
    intro hf
    rcases Bool.or_eq_true_iff.mp ht with hne | ht
    · exact absurd hf.1 (bne_iff_ne.mp hne)
    · exact tuned_of_any ht hf
  obtain ⟨rt, act⟩ := l
  cases act with
  | poll t m => exact ⟨trivial, trivial, htuned⟩
  | deliver => exact ⟨trivial, trivial, htuned⟩
  | _ => contradiction

/-- The statuses `running` and `finished` for the job `j`. -/
def statusSections : List Label :=
  [⟨.still, .poll "info/j/status" (.status { status := "running" })⟩, ⟨.still, .deliver⟩,
    ⟨.still, .poll "info/j/status" (.status { status := "finished" })⟩, ⟨.still, .deliver⟩]

/-- `track`, and then both statuses. -/
theorem run_of_statuses : ∃ s₁ : Session, Run Steps (fun _ l => Sectioned l) (new (fun _ _ => none) unary)
      (trackSections ++ [⟨.still, .proceed 0⟩]) s₁ ∧ s₁.Running "j" 0 ∧ s₁.captured = [] ∧
    ∃ s, Run Steps (fun s l => Sectioned l ∧ Unspoken "j" 0 s l ∧ s.Tuned "j" 0) s₁ statusSections s ∧
      s.captured = [] := by
  obtain ⟨s₁, h₁, hq₁⟩ := Run.of_leads (R := Steps) (fun _ _ _ => id) (tending_of_additive (j := "j") (e := .status))
    (show Run.leads Session.step additive (fun s₁ => decide (s₁.tracker.futureRegistry.get? "j" = some 0) &&
      !(s₁.tracker.futures 0).done && s₁.captured.isEmpty &&
      Run.leads Session.step (heeding "j" 0) (fun s => s.captured.isEmpty) statusSections s₁)
      (trackSections ++ [⟨.still, .proceed 0⟩]) (new (fun _ _ => none) unary) by decide +kernel)
  simp only [Bool.and_eq_true, decide_eq_true_eq, Bool.not_eq_true', List.isEmpty_iff] at hq₁
  obtain ⟨⟨⟨hf, hd⟩, hcap⟩, hq₂⟩ := hq₁
  obtain ⟨s, h₂, hempty⟩ := Run.of_leads (R := Steps) (fun _ _ _ => id) (tuned_of_heeding "j" 0) hq₂
  exact ⟨s₁, h₁.mono fun _ _ hl => hl.1, ⟨hf, hd⟩, hcap, s, h₂, List.isEmpty_iff.mp hempty⟩

/-- Both statuses are heeded. -/
theorem outcome_of_arrivals_of_finished : ∃ s₁ s : Session, s₁.Running "j" 0 ∧
    s.Heard (new (fun _ _ => none) unary).jobOf 0 (s₁.tracker.futures 0)
      [{ status := "running" }, { status := "finished" }] := by
  obtain ⟨s₁, h₁, hf, hcap, s, h₂, -⟩ := run_of_statuses
  have hj : (new (fun _ _ => none) unary).jobOf 0 = "j" := by decide +kernel
  refine ⟨s₁, s, hf, ?_⟩
  rw [← hj] at hf h₂
  have hout := outcome_of_arrivals (initial_new _ unary_injective) h₁ hf h₂
  rw [hcap, hj] at hout
  exact hout

end Session

end SlurmManager
