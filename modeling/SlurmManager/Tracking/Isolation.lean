import SlurmManager.Tracking.Homes

/-!
# Isolation — an operation for one job leaves the others alone

Jobs share flat maps keyed by topics and ids.  From any reachable state, whatever Redis answers:

* `Isolated j s s'`: everything that belongs to job `j` is the same in both trackers.
* `same_*`: an operation for another job leaves the `jobView` alone.
* `JobOperation`: the operations aimed at one job, and `jobs_isolated`: each isolates every other job.
-/

namespace SlurmManager

open Program

namespace JobTracker

variable {j A : String} {s s' : JobTracker} {pending pending' : SubId → Option Pending}

/-! ## What belongs to a job -/

/-- The job keeps its future, its part of the tracker and of the client, and the ids that lead to it. -/
structure Isolated (j : String) (s s' : JobTracker) : Prop where
  futures : ∀ g, (s.futures g).jobId = j → s'.futures g = s.futures g
  view : s'.jobView j = s.jobView j
  owners : ∀ i e, s'.topicBySubscriptionId.get? i = some (topicOf j e) ↔
    s.topicBySubscriptionId.get? i = some (topicOf j e)
  clientOwners : ∀ i e, s'.subClient.topicBySubscriptionId.get? i = some (topicOf j e) ↔
    s.subClient.topicBySubscriptionId.get? i = some (topicOf j e)

/-- The ids that lead to the topics of a job are those of its records and of its callbacks. -/
theorem isolated_of_same (h : s.Homed pending) (h' : s'.Homed pending')
    (hf : ∀ g, (s.futures g).jobId = j → s'.futures g = s.futures g) (hv : Same (jobView j) s s') :
    Isolated j s s' := by
  obtain ⟨-, hrest⟩ := Prod.mk.inj hv
  obtain ⟨-, hrest⟩ := Prod.mk.inj hrest
  obtain ⟨hsub, hcl⟩ := Prod.mk.inj hrest
  refine ⟨hf, hv, fun i e => ?_, fun i e => ?_⟩
  · rw [h'.owner_iff, h.owner_iff, record?_congr (congrFun hsub e)]
  · have hbucket : s'.subClient.index.bucket (topicOf j e) = s.subClient.index.bucket (topicOf j e) := by
      unfold Index.bucket RedisSubClient.index
      exact congrArg (fun b => Option.getD b ∅) (congrArg Prod.fst (congrFun hcl e))
    have hi := h.client.consistent.owner_iff i (topicOf j e)
    have hi' := h'.client.consistent.owner_iff i (topicOf j e)
    rw [hbucket] at hi'
    exact hi'.trans hi.symm

/-! ## Registrations of another job -/

section Registrations

/-- A future of another job stays one, and the view of the job stays the same. -/
def Avoids (f : FutureRef) (j : String) (s s' : JobTracker) : Prop :=
  (s.futures f).jobId ≠ j → Same (jobView j) s s' ∧ (s'.futures f).jobId ≠ j

instance (f : FutureRef) : IsPreorder JobTracker (Avoids f j) where
  refl _ hj := ⟨rfl, hj⟩
  trans _ _ _ h h' hj := by
    obtain ⟨hv, hj'⟩ := h hj
    obtain ⟨hv', hj''⟩ := h' hj'
    exact ⟨IsTrans.trans _ _ _ hv hv', hj''⟩

theorem same_indexed {info : SubscriptionInfo} (i : SubId) (hj : info.jobId ≠ j) (ht : IsTopicOf info.jobId info.topic) :
    Same (jobView j) s (s.indexed info i) := by
  refine same_jobView rfl (Dict.get?_set_ne _ _ hj.symm) (fun e => ?_) fun _ => rfl
  exact Dict.get?_set_ne _ _ (ht.ne hj e).symm

theorem avoids_subscribeInternal (rt : Runtime) (e : Event) (f : FutureRef) :
    Within (Avoids f j) (subscribeInternal rt e f) := by
  intro s hj
  have hfut : ((subscribeInternal rt e f).after s).futures = s.futures :=
    congrArg (fun x => x.2.2.1) (frame_subscribeInternal rt e f s)
  refine ⟨?_, by rwa [hfut]⟩
  have hsub : Same (jobView j) s
      { s with subClient := (RedisSubClient.subscribe (topicOf (s.futures f).jobId e)
        (internalCallback e f (s.futures f))).after s.subClient } :=
    same_onClient fun e' => RedisSubClient.frame_subscribe ((isTopicOf_topicOf _ e).ne hj e') _ s.subClient
  unfold subscribeInternal
  rw [after, exec_bind, Config.exec_subscribeCallback, onClient, exec_focus]
  rcases he : (RedisSubClient.subscribe _ _).exec s.subClient with ⟨r, c⟩
  rw [after, he] at hsub
  cases r with
  | error err => exact hsub
  | ok i =>
    dsimp only
    rw [Config.exec_indexCallback]
    refine IsTrans.trans _ _ _ hsub (same_indexed i ?_ ?_)
    · rw [Config.internalInfo_jobId]
      exact hj
    · rw [Config.internalInfo_topic, Config.internalInfo_jobId]
      exact isTopicOf_topicOf _ _

/-- `track` of another job. -/
theorem same_track (rt : Runtime) {f : FutureRef} (hj : (s.futures f).jobId ≠ j) :
    Same (jobView j) s ((track rt f).after s) := by
  have hin : Within (Avoids f j) (track rt f) := by
    refine Within.bind (within_modify fun s hj => ⟨?_, hj⟩) fun _ =>
      Within.bind (avoids_subscribeInternal rt _ f) fun _ =>
        Within.bind (avoids_subscribeInternal rt _ f) fun _ => avoids_subscribeInternal rt _ f
    exact same_jobView (Dict.get?_set_ne _ _ hj.symm) rfl (fun _ => rfl) fun _ => rfl
  exact (hin s hj).1

/-- `add_subscription` of another job. -/
theorem same_addSubscription (h : s.Homed pending) {a : AddArgs} (hj : a.jobId ≠ j) :
    Same (jobView j) s ((addSubscription a).after s) := by
  have hne := (isTopicOf_topicOf a.jobId a.key).ne hj
  have hstay : ∃ r, (checkActive a).exec s = (r, s) := by
    rw [Config.exec_checkActive]
    split
    · exact ⟨_, rfl⟩
    · split
      · exact ⟨_, rfl⟩
      · exact ⟨_, rfl⟩
  unfold addSubscription
  obtain ⟨r, hr⟩ := hstay
  rw [after, exec_bind, hr]
  cases r with
  | error err => rfl
  | ok f =>
    have hx : (subscribeListener a f).exec s =
        (onClient (RedisSubClient.subscribe a.topic (a.redisCallback (s.futures f)))).exec s :=
      exec_bind_ok (exec_get s)
    dsimp only
    rw [exec_bind, hx]
    rcases he : (onClient (RedisSubClient.subscribe _ _)).exec s with ⟨r, t⟩
    have ho := h.opened f he
    have hsub : Same (jobView j) s t := by
      rw [← (Prod.mk.inj he).2]
      exact same_onClient fun e => RedisSubClient.frame_subscribe (hne e) _ s.subClient
    cases r with
    | error err => exact hsub
    | ok i =>
      obtain ⟨rfl, ho⟩ := ho
      refine IsTrans.trans _ _ _ hsub ?_
      show Same (jobView j) t ((validateListener a f s.subClient.nextUuid).after t)
      -- the id in flight lies under the topic of the call
      have hown : ∀ t', t.subClient.topicBySubscriptionId.get? s.subClient.nextUuid = some t' → t' = a.topic := by
        intro t' ht'
        have hp : Function.update pending s.subClient.nextUuid (some ⟨a.topic, f, false⟩) s.subClient.nextUuid =
          some ⟨a.topic, f, false⟩ := Function.update_self _ _ _
        rcases ho.owned _ t' ht' with hc | ⟨q, hq, hqt⟩
        · rw [(ho.inFlight _ _ hp).2] at hc
          contradiction
        · rw [hp] at hq
          obtain rfl := Option.some.inj hq
          exact hqt.symm
      unfold validateListener
      rw [after, exec_bind_ok (exec_get t)]
      split
      · have hun : Same (jobView j) t
            { t with subClient := (RedisSubClient.unsubscribe s.subClient.nextUuid).after t.subClient } :=
          same_onClient fun e => RedisSubClient.same_unsubscribe fun ht' => hne e (hown _ ht').symm
        rcases he : (RedisSubClient.unsubscribe s.subClient.nextUuid).exec t.subClient with ⟨r, c⟩
        rw [after, he] at hun
        rw [exec_bind, onClient, exec_focus, he]
        cases r <;> exact hun
      · rw [exec_bind_ok (exec_registerSubscriptionForJob rfl), exec_pure]
        exact same_indexed _ hj (isTopicOf_topicOf _ _)

end Registrations

/-! ## Removals, checks and heartbeats of another job -/

section Removals

theorem same_removeSubscriptionsForJob (h : s.Homed pending) (rt : Runtime) (hj : A ≠ j)
    (hreg : ∀ f, s.futureRegistry.get? A = some f → (s.futures f).jobId = A) (skip : Bool) :
    Same (jobView j) s ((removeSubscriptionsForJob rt A skip).after s) := by
  rw [after]
  rcases exec_removeSubscriptionsForJob rt A skip with ⟨f, hf, -, -, he⟩ | ⟨-, he⟩
  · rw [he]
    exact same_applyStatus rt _ (by rw [hreg f hf]; exact hj) h.own
  · rw [he]
    exact same_discardJob rt hj h.own

/-- The records of a topic of another job, and the topic in the client. -/
theorem same_removeSubscriptionByTopic (h : s.Homed pending) {t : Topic} (ht : IsTopicOf A t) (hj : A ≠ j) :
    Same (jobView j) s ((removeSubscriptionByTopic t).after s) := by
  have hjob : ∀ e ∈ ((s.subscriptionsByTopic.get? t).getD ∅).entries, e.2.jobId ≠ j := by
    intro e he
    rw [(h.filed t e.1 e.2 (Dict.mem_entries_iff.mp he)).2.2.unique ht]
    exact hj
  unfold removeSubscriptionByTopic
  rw [after, exec_bind_ok (exec_get s)]
  dsimp only
  generalize ((s.subscriptionsByTopic.get? t).getD ∅).entries = l at hjob
  have hrest : Frame (jobView j) (do
      modify fun s => { s with subscriptionsByTopic := s.subscriptionsByTopic.erase t }
      modify fun s => l.foldl (fun s e =>
        { s with
          topicBySubscriptionId := s.topicBySubscriptionId.erase e.1
          activeSubscriptions :=
            s.activeSubscriptions.set e.2.jobId (discardTopic t (s.activeTopics e.2.jobId)) }) s
      let _ ← onClient (RedisSubClient.unsubscribeTopic t) : Program PyError JobTracker PUnit) := by
    refine Within.bind (within_modify fun s => same_jobView rfl rfl (fun e => ?_) fun _ => rfl) fun _ =>
      Within.bind (within_modify fun s => ?_) fun _ =>
        Within.bind (within_focus fun s => same_onClient fun e => ?_) fun _ => within_pure _
    · exact Dict.get?_erase_ne _ (ht.ne hj e).symm
    · induction l generalizing s with
      | nil => exact refl s
      | cons e l ih =>
        rw [List.foldl_cons]
        refine IsTrans.trans _ _ _ ?_ (ih (fun e' he' => hjob e' (List.mem_cons_of_mem _ he')) _)
        exact same_jobView rfl (Dict.get?_set_ne _ _ (hjob e List.mem_cons_self).symm) (fun _ => rfl) fun _ => rfl
    · exact RedisSubClient.frame_unsubscribeTopic (ht.ne hj e) s.subClient
  exact hrest s

theorem same_beginSchedulerCheck (rt : Runtime) (hj : A ≠ j) : Frame (jobView j) (beginSchedulerCheck rt A) := by
  refine Within.bind within_get fun s => ?_
  split
  · exact within_pure _
  · split
    · exact within_pure _
    · exact Within.bind (within_modify fun s => same_stamp ((isTopicOf_topicOf A _).ne hj)) fun _ => within_pure _

/-- The delivery of a heartbeat to a callback of a topic of another job. -/
theorem same_deliver_heartbeat (rt : Runtime) (m : HeartBeatMessage) {sub : Subscription ClientCallback}
    (ht : ∀ e, sub.topic ≠ topicOf j e) : Frame (jobView j) (deliver rt (.heartbeat m) sub) := by
  unfold deliver
  split
  · exact within_pure _
  · exact within_modify fun _ => rfl
  · exact within_modify fun _ => rfl
  · exact Within.bind (within_modify fun s => same_stamp ht) fun _ => within_modify fun _ => rfl
  · exact within_pure _

theorem same_dispatch_heartbeat (h : s.Homed pending) (rt : Runtime) (m : HeartBeatMessage) {t : Topic}
    (ht : ∀ e, t ≠ topicOf j e) : Same (jobView j) s ((dispatchMessage rt t (.heartbeat m)).after s) := by
  have hall : Frame (jobView j) (forM (s.subClient.capture t) (deliver rt (.heartbeat m))) := by
    refine within_forM fun sub hsub => same_deliver_heartbeat rt m ?_
    have hf := (RedisSubClient.mem_capture_iff h.client).mp hsub
    rw [(h.client.filed _ _ _ hf).2]
    exact ht
  unfold dispatchMessage
  rw [after, exec_bind_ok (exec_get s)]
  exact hall s

end Removals

/-! ## The futures -/

section Futures

/-- A status changes the future it is for. -/
theorem frame_applyStatus_futures (rt : Runtime) (m : StatusMessage) {f g : FutureRef} (hg : g ≠ f) :
    Frame (fun s => s.futures g) (applyStatus rt m f) := by
  intro s
  have haccept : Same (fun s => s.futures g) s (s.accept rt m f) := accept_futures_ne rt m f hg
  unfold after
  cases hd : (s.futures f).done with
  | true =>
    rw [exec_applyStatus_done rt m f hd]
    exact refl s
  | false =>
    cases ht : (decoded rt m).terminal with
    | false =>
      rw [exec_applyStatus_running rt m f hd ht]
      exact haccept
    | true =>
      rw [exec_applyStatus_terminal rt m f hd ht]
      exact IsTrans.trans _ _ _ haccept ((frame_discardJob rt _).map (fun x => x.2.1 g) _)

theorem removeSubscriptionsForJob_futures (rt : Runtime) (hj : A ≠ j)
    (hreg : ∀ f, s.futureRegistry.get? A = some f → (s.futures f).jobId = A) (skip : Bool) {g : FutureRef}
    (hg : (s.futures g).jobId = j) : ((removeSubscriptionsForJob rt A skip).after s).futures g = s.futures g := by
  rw [after]
  rcases exec_removeSubscriptionsForJob rt A skip with ⟨f, hf, -, -, he⟩ | ⟨-, he⟩
  · have hgf : g ≠ f := by
      rintro rfl
      exact hj ((hreg g hf).symm.trans hg)
    rw [he]
    exact frame_applyStatus_futures rt _ hgf s
  · rw [he]
    exact congrFun (congrArg (fun x => x.2.1) (frame_discardJob rt A s)) g

end Futures

/-! ## The operations aimed at a job -/

section Operations

/-- An operation aimed at one job. -/
inductive JobOperation
  | track (future : FutureRef)
  | addSubscription (key : Event) (callback : Callback)
  | applyStatus (m : StatusMessage) (future : FutureRef)
  | removeSubscriptionsForJob (skipEventCallback : Bool)
  | removeSubscriptionByTopic (key : Event)
  | beginSchedulerCheck
  | heartbeat (m : HeartBeatMessage)

/-- The tracker after the operation for job `A`. -/
def JobOperation.after (rt : Runtime) (A : String) (s : JobTracker) : JobOperation → JobTracker
  | .track f => (JobTracker.track rt f).after s
  | .addSubscription key cb => (JobTracker.addSubscription ⟨A, key, cb⟩).after s
  | .applyStatus m f => (JobTracker.applyStatus rt m f).after s
  | .removeSubscriptionsForJob skip => (JobTracker.removeSubscriptionsForJob rt A skip).after s
  | .removeSubscriptionByTopic key => (JobTracker.removeSubscriptionByTopic (topicOf A key)).after s
  | .beginSchedulerCheck => (JobTracker.beginSchedulerCheck rt A).after s
  | .heartbeat m => (dispatchMessage rt (topicOf A .heartbeat) (.heartbeat m)).after s

/-- The future of the operation, if it is given one, is that of job `A`. -/
def JobOperation.Fits (A : String) (s : JobTracker) : JobOperation → Prop
  | .track f => (s.futures f).jobId = A
  | .applyStatus _ f => (s.futures f).jobId = A
  | _ => True

/-- Every operation keeps the ids where they lead. -/
theorem Homed.operation (h : s.Homed pending) (rt : Runtime) (A : String) (op : JobOperation) :
    (op.after rt A s).Homed pending := by
  cases op with
  | track f => exact homed_track rt f s h
  | addSubscription key cb => exact homed_addSubscription _ s h
  | applyStatus m f => exact homed_applyStatus rt m f s h
  | removeSubscriptionsForJob skip => exact homed_removeSubscriptionsForJob rt A skip s h
  | removeSubscriptionByTopic key => exact homed_removeSubscriptionByTopic _ s h
  | beginSchedulerCheck => exact homed_beginSchedulerCheck rt A s h
  | heartbeat m => exact homed_dispatchMessage rt _ _ s h

theorem Homed.operation_view (h : s.Homed pending) (rt : Runtime) (hj : A ≠ j)
    (hreg : ∀ f, s.futureRegistry.get? A = some f → (s.futures f).jobId = A) {op : JobOperation} (hop : op.Fits A s) :
    Same (jobView j) s (op.after rt A s) := by
  cases op with
  | track f =>
    have hf : (s.futures f).jobId = A := hop
    exact same_track rt (by rw [hf]; exact hj)
  | addSubscription key cb => exact same_addSubscription h hj
  | applyStatus m f =>
    have hf : (s.futures f).jobId = A := hop
    exact same_applyStatus rt m (by rw [hf]; exact hj) h.own
  | removeSubscriptionsForJob skip => exact same_removeSubscriptionsForJob h rt hj hreg skip
  | removeSubscriptionByTopic key => exact same_removeSubscriptionByTopic h (isTopicOf_topicOf A key) hj
  | beginSchedulerCheck => exact same_beginSchedulerCheck rt hj s
  | heartbeat m => exact same_dispatch_heartbeat h rt m ((isTopicOf_topicOf A _).ne hj)

theorem operation_futures (rt : Runtime) (hj : A ≠ j)
    (hreg : ∀ f, s.futureRegistry.get? A = some f → (s.futures f).jobId = A) {op : JobOperation} (hop : op.Fits A s)
    {g : FutureRef} (hg : (s.futures g).jobId = j) : (op.after rt A s).futures g = s.futures g := by
  cases op with
  | track f => exact congrFun (congrArg Prod.fst (frame_track rt f s)) g
  | addSubscription key cb => exact congrFun (congrArg (fun x => x.2.2.1) (frame_addSubscription _ s)) g
  | applyStatus m f =>
    have hf : (s.futures f).jobId = A := hop
    refine frame_applyStatus_futures rt m ?_ s
    rintro rfl
    exact hj (hf.symm.trans hg)
  | removeSubscriptionsForJob skip => exact removeSubscriptionsForJob_futures rt hj hreg skip hg
  | removeSubscriptionByTopic key =>
    exact congrFun (congrArg (fun x => x.2.2.1) (frame_removeSubscriptionByTopic _ s)) g
  | beginSchedulerCheck => exact congrFun (congrArg (fun x => x.2.2.1) (frame_beginSchedulerCheck rt A s)) g
  | heartbeat m =>
    have hall : Frame (fun s => s.futures) (dispatchMessage rt (topicOf A .heartbeat) (.heartbeat m)) :=
      Within.bind within_get fun _ => within_forM fun sub _ =>
        (frame_deliver rt fun _ _ _ => by simp).map fun x => x.2.2.1
    exact congrFun (hall s) g

end Operations

end JobTracker

/-! ## Reachable states -/

namespace Session

open JobTracker

/-- **Jobs are isolated**: from every reachable state, every operation aimed at one job leaves everything that
belongs to another job exactly as it is, whatever Redis answers. -/
theorem jobs_isolated {s₀ s : Session} {ls : List Label} (h₀ : s₀.Initial) (hrun : Run Steps (fun _ _ => True) s₀ ls s)
    {A B : String} (hne : A ≠ B) (rt : Runtime) (op : JobOperation) (hop : op.Fits A s.tracker) :
    Isolated B s.tracker (op.after rt A s.tracker) := by
  obtain ⟨pending, h⟩ := run_homed h₀ hrun
  have hreg : ∀ f, s.tracker.futureRegistry.get? A = some f → (s.tracker.futures f).jobId = A := fun f hf =>
    (h.jobIds f).trans (h.registry A f hf)
  exact isolated_of_same h.tracker (h.tracker.operation rt A op) (fun g hg => operation_futures rt hne hreg hop hg)
    (h.tracker.operation_view rt hne hreg hop)

/-- Two tracked jobs, `j` and `jj`; the first one finishes. -/
theorem jobs_isolated_of_finished : ∃ s, Run Steps (fun _ _ => True) (new (fun _ _ => none) unary)
      [⟨.still, .track 0⟩, ⟨.still, .track 1⟩] s ∧
    s.tracker.futureRegistry.get? "jj" = some 1 ∧
    (((JobOperation.applyStatus { status := "finished" } 0).after .still "j" s.tracker).futures 0).done = true ∧
    Isolated "jj" s.tracker ((JobOperation.applyStatus { status := "finished" } 0).after .still "j" s.tracker) := by
  have hex : ∃ s, Run Steps (fun _ _ => True) (new (fun _ _ => none) unary)
      [⟨.still, .track 0⟩, ⟨.still, .track 1⟩] s ∧ s.tracker.futureRegistry.get? "jj" = some 1 ∧
      (((JobOperation.applyStatus { status := "finished" } 0).after .still "j" s.tracker).futures 0).done = true ∧
      (s.tracker.futures 0).jobId = "j" :=
    ⟨_, Run.cons trivial rfl (Run.single trivial rfl), rfl, rfl, rfl⟩
  obtain ⟨s, hrun, hreg, hdone, hjob⟩ := hex
  exact ⟨s, hrun, hreg, hdone, jobs_isolated (initial_new _ unary_injective) hrun (by decide) .still _ hjob⟩

end Session

end SlurmManager
