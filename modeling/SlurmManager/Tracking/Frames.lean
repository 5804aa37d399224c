import SlurmManager.Tracking.JobTracker

/-!
# Frames — what each operation leaves alone, whatever Redis answers

No hypothesis on the state or on the connection: these are facts about the text of the operations.

* `lifecycle`: the registry, the futures, the submitted tasks, the accepted statuses and the
  manager-wide callbacks.  Registering, indexing and dropping subscriptions leaves all of it alone.
* `record`: the futures, the tasks and the accepted statuses, which the removals leave alone.
* `statuses`: what dispatching leaves alone.
-/

namespace SlurmManager

namespace JobTracker

open Program

/-- The futures, the submitted tasks and the accepted statuses. -/
def record (s : JobTracker) : (FutureRef → JobFuture) × List Task × List (FutureRef × JobStatus) :=
  (s.futures, s.tasks, s.accepted)

/-- Everything but the subscriptions. -/
def lifecycle (s : JobTracker) : Dict String FutureRef × Dict SubId RegisteredCallback ×
    (FutureRef → JobFuture) × List Task × List (FutureRef × JobStatus) :=
  (s.futureRegistry, s.globalCallbacks, s.record)

/-! ## Registrations -/

section Registrations

variable {α : Type}

theorem frame_onClient (x : Program PyError (RedisSubClient ClientCallback) α) :
    Frame lifecycle (onClient x) := by
  exact within_focus fun _ => rfl

theorem frame_registerSubscriptionForJob (info : SubscriptionInfo) :
    Frame lifecycle (registerSubscriptionForJob info) := by
  unfold registerSubscriptionForJob
  split
  · exact within_throw _
  · exact within_modify fun _ => rfl

theorem frame_subscribeCallback (e : Event) (f : FutureRef) : Frame lifecycle (subscribeCallback e f) :=
  Within.bind within_get fun _ => frame_onClient _

theorem frame_indexCallback (rt : Runtime) (e : Event) (f : FutureRef) (i : SubId) :
    Frame lifecycle (indexCallback rt e f i) :=
  Within.bind within_get fun _ => frame_registerSubscriptionForJob _

theorem frame_subscribeInternal (rt : Runtime) (e : Event) (f : FutureRef) :
    Frame lifecycle (subscribeInternal rt e f) :=
  Within.bind (frame_subscribeCallback e f) fun i => frame_indexCallback rt e f i

theorem frame_subscribeToInternalTopics (rt : Runtime) (f : FutureRef) :
    Frame lifecycle (subscribeToInternalTopics rt f) :=
  Within.bind (frame_subscribeInternal rt .heartbeat f) fun _ =>
    Within.bind (frame_subscribeInternal rt .status f) fun _ => frame_subscribeInternal rt .log f

theorem frame_checkActive (a : AddArgs) : Frame lifecycle (checkActive a) := by
  refine Within.bind within_get fun s => ?_
  split
  · exact within_throw _
  · split
    · exact within_throw _
    · exact within_pure _

theorem frame_subscribeListener (a : AddArgs) (f : FutureRef) :
    Frame lifecycle (subscribeListener a f) :=
  Within.bind within_get fun _ => frame_onClient _

theorem frame_validateListener (a : AddArgs) (f : FutureRef) (i : SubId) :
    Frame lifecycle (validateListener a f i) := by
  refine Within.bind within_get fun s => ?_
  split
  · exact Within.bind (frame_onClient _) fun _ => within_throw _
  · exact Within.bind (frame_registerSubscriptionForJob _) fun _ => within_pure _

theorem frame_addSubscription (a : AddArgs) : Frame lifecycle (addSubscription a) :=
  Within.bind (frame_checkActive a) fun f =>
    Within.bind (frame_subscribeListener a f) fun i => frame_validateListener a f i

theorem frame_beginSchedulerCheck (rt : Runtime) (j : String) :
    Frame lifecycle (beginSchedulerCheck rt j) := by
  refine Within.bind within_get fun s => ?_
  split
  · exact within_pure _
  · split
    · exact within_pure _
    · exact Within.bind (within_modify fun _ => rfl) fun _ => within_pure _

theorem frame_track (rt : Runtime) (f : FutureRef) : Frame record (track rt f) :=
  Within.bind (within_modify fun _ => rfl) fun _ =>
    (frame_subscribeToInternalTopics rt f).map fun x => x.2.2

theorem frame_listenGlobal (e : Event) (cb : Callback) :
    Frame (fun s => (s.futureRegistry, s.record)) (listenGlobal e cb) :=
  Within.bind ((frame_onClient _).map fun x => (x.1, x.2.2)) fun _ =>
    Within.bind (within_modify fun _ => rfl) fun _ => within_pure _

end Registrations

/-! ## Removals -/

section Removals

theorem frame_dropTopic (t : Topic) : Frame lifecycle (dropTopic t) :=
  Within.bind (within_modify fun _ => rfl) fun _ => Within.bind (frame_onClient _) fun _ => within_pure _

theorem frame_dropTopics (ts : List Topic) : Frame lifecycle (forM ts dropTopic) :=
  within_forM fun t _ => frame_dropTopic t

theorem frame_discardJob (rt : Runtime) (j : String) :
    Frame (fun s => (s.globalCallbacks, s.record)) (discardJob rt j) :=
  Within.bind within_get fun _ => Within.bind (within_modify fun _ => rfl) fun _ =>
    Within.bind ((frame_dropTopics _).map fun x => x.2) fun _ => within_modify fun _ => rfl

/-- The registry entries of other jobs. -/
theorem frame_discardJob_registry (rt : Runtime) {j j' : String} (hj : j ≠ j') :
    Frame (fun s => s.futureRegistry.get? j) (discardJob rt j') :=
  Within.bind within_get fun _ => Within.bind (within_modify fun _ => rfl) fun _ =>
    Within.bind ((frame_dropTopics _).map fun x => x.1.get? j) fun _ =>
      within_modify fun _ => Dict.get?_erase_ne _ hj

theorem frame_removeId (i : SubId) : Frame (fun s => (s.futureRegistry, s.record)) (removeId i) := by
  refine Within.bind within_get fun s => ?_
  split
  · exact within_modify fun _ => rfl
  · split
    · exact within_pure _
    · refine Within.bind (within_modify fun _ => rfl) fun _ =>
        Within.bind ((frame_onClient _).map fun x => (x.1, x.2.2)) fun _ => ?_
      split
      · exact within_pure _
      · refine Within.bind (within_modify fun _ => rfl) fun _ => ?_
        split
        · exact within_pure _
        · exact within_modify fun _ => rfl

theorem frame_removeSubscriptionById (ids : List SubId) :
    Frame (fun s => (s.futureRegistry, s.record)) (removeSubscriptionById ids) :=
  within_forM fun i _ => frame_removeId i

theorem frame_removeSubscriptionByTopic (t : Topic) :
    Frame lifecycle (removeSubscriptionByTopic t) := by
  refine Within.bind within_get fun s => Within.bind (within_modify fun _ => rfl) fun _ =>
    Within.bind (within_modify fun s' => ?_) fun _ => Within.bind (frame_onClient _) fun _ => within_pure _
  generalize ((s.subscriptionsByTopic.get? t).getD ∅).entries = l
  induction l generalizing s' with
  | nil => rfl
  | cons e l ih => exact ih _

end Removals

/-! ## Deliveries -/

section Deliveries

/-- The registry, the manager-wide callbacks, the futures and the accepted statuses: what dispatching
leaves alone. -/
def statuses (s : JobTracker) : Dict String FutureRef × Dict SubId RegisteredCallback ×
    (FutureRef → JobFuture) × List (FutureRef × JobStatus) :=
  (s.futureRegistry, s.globalCallbacks, s.futures, s.accepted)

theorem frame_dispatchGlobal (rt : Runtime) (m : SlurmMessage) (j : String) (slurm : Option String) :
    Frame statuses (dispatchGlobal rt m j slurm) := within_modify fun _ => rfl

theorem frame_heartbeatCallback (rt : Runtime) (m : SlurmMessage) (sub : Subscription ClientCallback)
    (j slurm : String) : Frame statuses (heartbeatCallback rt m sub j slurm) :=
  Within.bind (within_modify fun _ => rfl) fun _ => frame_dispatchGlobal rt m j (some slurm)

/-- The delivery of anything but a status to the lifecycle callback. -/
theorem frame_deliver (rt : Runtime) {m : SlurmMessage} {sub : Subscription ClientCallback}
    (hno : ∀ f m', sub.callback = .event f → m ≠ .status m') : Frame statuses (deliver rt m sub) := by
  unfold deliver
  cases hcb : sub.callback with
  | ignoreStatus => exact within_pure _
  | dispatch d => exact within_modify fun _ => rfl
  | log j slurm => exact frame_dispatchGlobal rt m j (some slurm)
  | heartbeat j slurm => exact frame_heartbeatCallback rt _ sub j slurm
  | event f =>
    cases m with
    | status m' => exact absurd rfl (hno f m' hcb)
    | _ => exact within_pure _

end Deliveries

end JobTracker

end SlurmManager
