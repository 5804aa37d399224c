import SlurmManager.Tracking.RedisSubClient

/-!
# JobTracker — futures, subscriptions and callback dispatch

`job_tracker.py`.  Every public operation is a `Program` over the tracker and, inside it, its Redis
client.  Futures are objects: `futures` is the heap they live in, `_future_registry` holds
references.  User callbacks run on an executor; `tasks` is the list of tasks submitted to it, each
marked with the subscription on whose behalf it was submitted.  `accepted` is a history: the statuses
that `apply_status` let through, in order.

`remove_subscriptions_for_job` and `apply_status` call each other, but only once around: the call in
`apply_status` skips the event callback and goes straight to `discardJob`, the tail of
`remove_subscriptions_for_job`.

The receipt flag `heartbeat_received`, which nothing reads, and log output are left out.
-/

namespace SlurmManager

/-- A `JobFuture` object. -/
abbrev FutureRef := ℕ

/-- `wrapped_callback` of `add_subscription` with its bound arguments. -/
structure Dispatch where
  callback : Callback
  jobId : String
  slurmJobId : String

/-- What the tracker registers in the Redis client. -/
inductive ClientCallback
  /-- `wrapped_callback` of `_subscribe_to_heartbeat`, with the ids of its `sub_info`. -/
  | heartbeat (jobId slurmJobId : String)
  /-- `wrapped_callback` of `_subscribe_to_event`. -/
  | event (future : FutureRef)
  /-- `partial(self._dispatch_global, ...)` of `_subscribe_to_log`. -/
  | log (jobId slurmJobId : String)
  | dispatch (d : Dispatch)
  /-- `_ignore_status_message`. -/
  | ignoreStatus

structure SubscriptionInfo where
  topic : Topic
  jobId : String
  slurmJobId : Option String := none
  callback : Option Dispatch := none
  callbackId : Option SubId := none
  lastHeartbeat : Option ℚ := none
  lastSchedulerCheck : Option ℚ := none

/-- A call submitted to the executor. -/
structure Task where
  listener : SubId
  callback : Callback
  message : SlurmMessage

structure JobTracker where
  subClient : RedisSubClient ClientCallback
  futureRegistry : Dict String FutureRef := ∅
  globalCallbacks : Dict SubId RegisteredCallback := ∅
  subscriptionsByTopic : Dict Topic (Dict SubId SubscriptionInfo) := ∅
  topicBySubscriptionId : Dict SubId Topic := ∅
  activeSubscriptions : Dict String (List Topic) := ∅
  futures : FutureRef → JobFuture
  tasks : List Task := []
  accepted : List (FutureRef × JobStatus) := []

namespace JobTracker

/-- A call of the Redis client. -/
def onClient {α : Type} (x : Program PyError (RedisSubClient ClientCallback) α) :
    Program PyError JobTracker α :=
  Program.focus (fun s => s.subClient) (fun s c => { s with subClient := c }) x

/-- `self._active_subscriptions.get(job_id, set())`. -/
def activeTopics (s : JobTracker) (jobId : String) : List Topic :=
  (s.activeSubscriptions.get? jobId).getD []

/-- `topics.add(topic)`. -/
def addTopic (topic : Topic) (topics : List Topic) : List Topic :=
  if topic ∈ topics then topics else topics ++ [topic]

/-- `topics.discard(topic)`. -/
def discardTopic (topic : Topic) (topics : List Topic) : List Topic := topics.filter (· ≠ topic)

def setFuture (future : FutureRef) (f : JobFuture) (s : JobTracker) : JobTracker :=
  { s with futures := Function.update s.futures future f }

/-! ## Dispatch -/

section Dispatch

/-- `message.metadata.update(...)` of the wrapped callbacks. -/
def enrich (rt : Runtime) (metadata : Metadata) (jobId slurmJobId : String) : Metadata :=
  ((metadata.set "msg_received" rt.isoformat).set "job_id" jobId).set "slurm_job_id" slurmJobId

/-- The task that a user's `wrapped_callback` submits for a message. -/
def Dispatch.task (rt : Runtime) (d : Dispatch) (listener : SubId) (message : SlurmMessage) : Task where
  listener := listener
  callback := d.callback
  message := message.withMetadata (enrich rt message.metadata d.jobId d.slurmJobId)

/-- The metadata of a manager-wide copy in `_dispatch_global`. -/
def globalMetadata (rt : Runtime) (metadata : Metadata) (jobId : String) (slurmJobId : Option String) :
    Metadata :=
  let metadata := (metadata.set "msg_received" rt.isoformat).set "job_id" jobId
  match slurmJobId with
  | none => metadata
  | some text => metadata.set "slurm_job_id" text

/-- The tasks of `_dispatch_global`. -/
def globalTasks (rt : Runtime) (message : SlurmMessage) (jobId : String) (slurmJobId : Option String)
    (s : JobTracker) : List Task :=
  (s.globalCallbacks.entries.filter fun e => e.2.event = message.msgType).map fun e =>
    { listener := e.1
      callback := e.2.callback
      message := message.withMetadata (globalMetadata rt message.metadata jobId slurmJobId) }

/-- `_dispatch_global`. -/
def dispatchGlobal (rt : Runtime) (message : SlurmMessage) (jobId : String)
    (slurmJobId : Option String) : Program PyError JobTracker Unit :=
  modify fun s => { s with tasks := s.tasks ++ globalTasks rt message jobId slurmJobId s }

/-- The tasks of the job-level listeners in `apply_status`: the dispatchers indexed under the topic. -/
def listenerTasks (rt : Runtime) (message : SlurmMessage) (topic : Topic) (s : JobTracker) :
    List Task :=
  ((s.subscriptionsByTopic.get? topic).getD ∅).entries.filterMap fun e =>
    e.2.callback.map fun d => Dispatch.task rt d e.1 message

end Dispatch

/-! ## Removal -/

section Removal

/-- One turn of the loop of `remove_subscriptions_for_job`. -/
def dropTopic (topic : Topic) : Program PyError JobTracker Unit := do
  modify fun s =>
    { s with
      subscriptionsByTopic := s.subscriptionsByTopic.erase topic
      topicBySubscriptionId :=
        s.topicBySubscriptionId.eraseAll ((s.subscriptionsByTopic.get? topic).getD ∅).keys }
  let _ ← onClient (RedisSubClient.unsubscribeTopic topic)

/-- `remove_subscriptions_for_job` once no failure update is due.  The topics form a Python set: they
are walked in the order of `rt`. -/
def discardJob (rt : Runtime) (jobId : String) : Program PyError JobTracker Unit := do
  let s ← get
  modify fun s => { s with activeSubscriptions := s.activeSubscriptions.erase jobId }
  forM (rt.setOrder (s.activeTopics jobId)) dropTopic
  modify fun s => { s with futureRegistry := s.futureRegistry.erase jobId }

/-- One turn of the loop of `remove_subscription_by_id`. -/
def removeId (cbId : SubId) : Program PyError JobTracker Unit := do
  let s ← get
  match s.globalCallbacks.get? cbId with
  | some _ => modify fun s => { s with globalCallbacks := s.globalCallbacks.erase cbId }
  | none =>
    match s.topicBySubscriptionId.get? cbId with
    | none => return ()
    | some topic =>
      let callbacks := (s.subscriptionsByTopic.get? topic).getD ∅
      modify fun s =>
        { s with
          topicBySubscriptionId := s.topicBySubscriptionId.erase cbId
          subscriptionsByTopic := s.subscriptionsByTopic.modify topic (Dict.erase · cbId) }
      let _ ← onClient (RedisSubClient.unsubscribe cbId)
      if (callbacks.erase cbId).isEmpty = false then
        return ()
      else
        modify fun s => { s with subscriptionsByTopic := s.subscriptionsByTopic.erase topic }
        match callbacks.get? cbId with
        | none => return ()
        | some info =>
          modify fun s =>
            { s with activeSubscriptions := s.activeSubscriptions.modify info.jobId (discardTopic topic) }

/-- `remove_subscription_by_id`. -/
def removeSubscriptionById (cbIds : List SubId) : Program PyError JobTracker Unit := forM cbIds removeId

/-- `remove_subscription_by_topic`; `_active_subscriptions[job_id]` creates a missing entry. -/
def removeSubscriptionByTopic (topic : Topic) : Program PyError JobTracker Unit := do
  let s ← get
  let callbacks := (s.subscriptionsByTopic.get? topic).getD ∅
  modify fun s => { s with subscriptionsByTopic := s.subscriptionsByTopic.erase topic }
  modify fun s => callbacks.entries.foldl (fun s e =>
    { s with
      topicBySubscriptionId := s.topicBySubscriptionId.erase e.1
      activeSubscriptions :=
        s.activeSubscriptions.set e.2.jobId (discardTopic topic (s.activeTopics e.2.jobId)) }) s
  let _ ← onClient (RedisSubClient.unsubscribeTopic topic)

end Removal

/-! ## Lifecycle -/

section Lifecycle

/-- `text.split(":", 1)`: the head, and the rest if there is a colon. -/
def splitColon (text : String) : String × Option String :=
  match text.toList.dropWhile (· ≠ ':') with
  | [] => (text, none)
  | _ :: rest => (String.ofList (text.toList.takeWhile (· ≠ ':')), some (String.ofList rest))

/-- The decoding of a status message by `apply_status`: the message to forward, the status, and the
details.  An unknown status becomes an error. -/
def decodeStatus (rt : Runtime) (message : StatusMessage) : StatusMessage × JobStatus × Option String :=
  let info := splitColon message.status
  match JobStatus.ofValue? info.1 with
  | some status => (message, status, info.2)
  | none =>
    let detail :=
      "Received unknown job status '" ++ info.1 ++ "' from message: " ++ rt.modelDump message
    ({ message with status := "error:" ++ detail }, .error, some detail)

/-- `apply_status`. -/
def applyStatus (rt : Runtime) (message : StatusMessage) (future : FutureRef) :
    Program PyError JobTracker Unit := do
  let (message, status, excInfo) := decodeStatus rt message
  let s ← get
  let f := s.futures future
  if f.done then
    return ()
  else
    modify (setFuture future (f.updateStatus status excInfo))
    modify fun t => { t with accepted := t.accepted ++ [(future, status)] }
    -- the callbacks were listed before the update
    modify fun t =>
      { t with tasks := t.tasks ++ listenerTasks rt (.status message) (topicOf f.jobId .status) s }
    dispatchGlobal rt (.status message) f.jobId (some f.slurmJobId)
    if status.terminal then
      discardJob rt f.jobId
    else
      return ()

/-- The message with which `remove_subscriptions_for_job` fails an unfinished job. -/
def removalMessage (rt : Runtime) (f : JobFuture) : StatusMessage where
  status := "error:Removal requested by user; timestamp " ++ rt.isoformat
  metadata := enrich rt ∅ f.jobId f.slurmJobId

/-- `remove_subscriptions_for_job`. -/
def removeSubscriptionsForJob (rt : Runtime) (jobId : String) (skipEventCallback : Bool := false) :
    Program PyError JobTracker Unit := do
  let s ← get
  match s.futureRegistry.get? jobId with
  | some future =>
    if (s.futures future).done = false ∧ skipEventCallback = false then
      applyStatus rt (removalMessage rt (s.futures future)) future
    else
      discardJob rt jobId
  | none => discardJob rt jobId

/-- `begin_scheduler_check`. -/
def beginSchedulerCheck (rt : Runtime) (jobId : String) : Program PyError JobTracker (Option FutureRef) := do
  let s ← get
  match s.futureRegistry.get? jobId with
  | none => return none
  | some future =>
    if (s.futures future).done then
      return none
    else
      modify fun s =>
        { s with
          subscriptionsByTopic := s.subscriptionsByTopic.modify (topicOf jobId .heartbeat) fun b =>
            b.mapValues fun _ info =>
              if info.lastHeartbeat.isSome then { info with lastSchedulerCheck := some rt.time } else info }
      return some future

end Lifecycle

/-! ## Subscriptions -/

section Subscriptions

/-- `_register_subscription_for_job`. -/
def registerSubscriptionForJob (info : SubscriptionInfo) : Program PyError JobTracker Unit :=
  match info.callbackId with
  | none => throw ⟨.valueError, "SubscriptionInfo.callback_id must be set before registration"⟩
  | some cbId =>
    modify fun s =>
      { s with
        subscriptionsByTopic := s.subscriptionsByTopic.set info.topic
          (((s.subscriptionsByTopic.get? info.topic).getD ∅).set cbId info)
        topicBySubscriptionId := s.topicBySubscriptionId.set cbId info.topic
        activeSubscriptions :=
          s.activeSubscriptions.set info.jobId (addTopic info.topic (s.activeTopics info.jobId)) }

/-- The callback that the tracker installs for itself. -/
def internalCallback (e : Event) (future : FutureRef) (f : JobFuture) : ClientCallback :=
  match e with
  | .heartbeat => .heartbeat f.jobId f.slurmJobId
  | .status => .event future
  | .log => .log f.jobId f.slurmJobId

/-- The record of an internal subscription: the heartbeat one is stamped with its registration. -/
def internalInfo (rt : Runtime) (e : Event) (f : JobFuture) (cbId : SubId) : SubscriptionInfo :=
  match e with
  | .heartbeat =>
    { topic := topicOf f.jobId .heartbeat, jobId := f.jobId, slurmJobId := some f.slurmJobId,
      callbackId := some cbId, lastHeartbeat := some rt.time }
  | .status =>
    { topic := topicOf f.jobId .status, jobId := f.jobId, slurmJobId := some f.slurmJobId,
      callbackId := some cbId }
  | .log => { topic := topicOf f.jobId .log, jobId := f.jobId, callbackId := some cbId }

/-- The client subscription of a `_subscribe_to_*` function. -/
def subscribeCallback (e : Event) (future : FutureRef) : Program PyError JobTracker SubId := do
  let s ← get
  let f := s.futures future
  onClient (RedisSubClient.subscribe (topicOf f.jobId e) (internalCallback e future f))

/-- The indexing of that subscription, in a critical section of its own. -/
def indexCallback (rt : Runtime) (e : Event) (future : FutureRef) (cbId : SubId) :
    Program PyError JobTracker Unit := do
  let s ← get
  registerSubscriptionForJob (internalInfo rt e (s.futures future) cbId)

/-- The common shape of the `_subscribe_to_*` functions. -/
def subscribeInternal (rt : Runtime) (e : Event) (future : FutureRef) : Program PyError JobTracker Unit := do
  let cbId ← subscribeCallback e future
  indexCallback rt e future cbId

/-- `_subscribe_to_heartbeat`. -/
def subscribeToHeartbeat (rt : Runtime) (future : FutureRef) := subscribeInternal rt .heartbeat future

/-- `_subscribe_to_event`. -/
def subscribeToEvent (rt : Runtime) (future : FutureRef) := subscribeInternal rt .status future

/-- `_subscribe_to_log`. -/
def subscribeToLog (rt : Runtime) (future : FutureRef) := subscribeInternal rt .log future

/-- `_subscribe_to_internal_topics`. -/
def subscribeToInternalTopics (rt : Runtime) (future : FutureRef) : Program PyError JobTracker Unit := do
  subscribeToHeartbeat rt future
  subscribeToEvent rt future
  subscribeToLog rt future

/-- `self._future_registry[future._job_id] = future`. -/
def publishFuture (future : FutureRef) (s : JobTracker) : JobTracker :=
  { s with futureRegistry := s.futureRegistry.set (s.futures future).jobId future }

/-- `track`. -/
def track (rt : Runtime) (future : FutureRef) : Program PyError JobTracker Unit := do
  modify (publishFuture future)
  subscribeToInternalTopics rt future

/-- `listen` without a job id: a manager-wide registration. -/
def listenGlobal (event : Event) (callback : Callback) : Program PyError JobTracker SubId := do
  let callbackId ← onClient RedisSubClient.uuid4
  modify fun s =>
    { s with globalCallbacks := s.globalCallbacks.set callbackId ⟨callbackId, event, callback⟩ }
  return callbackId

/-- The arguments of `add_subscription`. -/
structure AddArgs where
  jobId : String
  key : Event
  callback : Callback
  deriving DecidableEq, Repr

def AddArgs.topic (a : AddArgs) : Topic := topicOf a.jobId a.key

/-- The activity check of `add_subscription`. -/
def checkActive (a : AddArgs) : Program PyError JobTracker FutureRef := do
  let s ← get
  match s.futureRegistry.get? a.jobId with
  | none => throw ⟨.runtimeError, "Job " ++ a.jobId ++ " is no longer active"⟩
  | some future =>
    if (s.futures future).done then
      throw ⟨.runtimeError, "Job " ++ a.jobId ++ " is no longer active"⟩
    else
      return future

/-- `dispatch` of `add_subscription`. -/
def AddArgs.dispatch (a : AddArgs) (f : JobFuture) : Dispatch := ⟨a.callback, a.jobId, f.slurmJobId⟩

/-- What `add_subscription` registers in Redis: a status listener is served by the lifecycle
subscription, so Redis gets a stub. -/
def AddArgs.redisCallback (a : AddArgs) (f : JobFuture) : ClientCallback :=
  if a.key = .status then .ignoreStatus else .dispatch (a.dispatch f)

/-- The record that `add_subscription` indexes. -/
def AddArgs.info (a : AddArgs) (f : JobFuture) (cbId : SubId) : SubscriptionInfo :=
  { topic := a.topic, jobId := a.jobId, slurmJobId := some f.slurmJobId,
    callback := some (a.dispatch f), callbackId := some cbId }

/-- The client subscription of `add_subscription`, made without holding the tracker's lock. -/
def subscribeListener (a : AddArgs) (future : FutureRef) : Program PyError JobTracker SubId := do
  let s ← get
  onClient (RedisSubClient.subscribe a.topic (a.redisCallback (s.futures future)))

/-- The last critical section of `add_subscription`: validate the owner, then index or undo. -/
def validateListener (a : AddArgs) (future : FutureRef) (cbId : SubId) :
    Program PyError JobTracker SubId := do
  let s ← get
  if s.futureRegistry.get? a.jobId ≠ some future ∨ (s.futures future).done then
    let _ ← onClient (RedisSubClient.unsubscribe cbId)
    throw ⟨.runtimeError, "Job " ++ a.jobId ++ " finished during subscription registration"⟩
  else
    registerSubscriptionForJob (a.info (s.futures future) cbId)
    return cbId

/-- `add_subscription`. -/
def addSubscription (a : AddArgs) : Program PyError JobTracker SubId := do
  let future ← checkActive a
  let cbId ← subscribeListener a future
  validateListener a future cbId

end Subscriptions

/-! ## Deliveries -/

section Deliveries

/-- `_heartbeat_callback`: the stamp goes to the record of the subscription, if it is still indexed. -/
def heartbeatCallback (rt : Runtime) (message : SlurmMessage) (sub : Subscription ClientCallback)
    (jobId slurmJobId : String) : Program PyError JobTracker Unit := do
  modify fun s =>
    { s with
      subscriptionsByTopic := s.subscriptionsByTopic.modify sub.topic fun b =>
        b.mapValues fun i info =>
          if i = sub.id then { info with lastHeartbeat := some rt.time } else info }
  dispatchGlobal rt message jobId (some slurmJobId)

/-- The call of one captured callback by the listener thread.  Exceptions of `apply_status` are
logged.  A message that is no status has no `status` attribute for the lifecycle callback, which the
listener logs too. -/
def deliver (rt : Runtime) (message : SlurmMessage) (sub : Subscription ClientCallback) :
    Program PyError JobTracker Unit :=
  match sub.callback with
  | .ignoreStatus => return ()
  | .dispatch d => modify fun s => { s with tasks := s.tasks ++ [Dispatch.task rt d sub.id message] }
  | .log jobId slurmJobId => dispatchGlobal rt message jobId (some slurmJobId)
  | .heartbeat jobId slurmJobId =>
    heartbeatCallback rt (message.withMetadata (enrich rt message.metadata jobId slurmJobId)) sub jobId
      slurmJobId
  | .event future =>
    match message with
    | .status m => do
      let s ← get
      let f := s.futures future
      tryCatch (applyStatus rt { m with metadata := enrich rt m.metadata f.jobId f.slurmJobId } future)
        fun _ => return ()
    | _ => return ()

/-- The listener's handling of one message: capture the callbacks of the topic, then call each. -/
def dispatchMessage (rt : Runtime) (topic : Topic) (message : SlurmMessage) :
    Program PyError JobTracker Unit := do
  let s ← get
  forM (s.subClient.capture topic) (deliver rt message)

end Deliveries

end JobTracker

end SlurmManager
