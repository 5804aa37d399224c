import SlurmManager.Tracking.Sections

/-!
# Session — any number of calls on one tracker, section by section

A `Session` is a tracker with the calls in flight.  A label is one critical section of one call, or a
call that is taken whole; a run (`Run Session.Steps`) is an interleaving.  The listener thread takes a
message in one section (`poll`) and calls the captured callbacks one after the other (`deliver`).

* `Matches`: a session and a `Config` agree when the registrations in flight are exactly those that
  some call holds.
* `Session.step_run`: every label is answered by a run of critical sections (`Config.Step`), so what
  these keep holds in every state of every interleaving.  A label that indexes an internal
  subscription needs its job in the registry; `track` does not check this (`Admits`).
-/

namespace SlurmManager

open JobTracker

/-! ## Calls -/

/-- Where a call in several critical sections stands.  A call that has subscribed in the client carries
a history flag: whether `remove_subscription_by_topic` of its topic came in between. -/
inductive Call
  | idle
  /-- `track`, about to subscribe for `e`, then for the rest. -/
  | subscribing (future : FutureRef) (e : Event) (rest : List Event)
  /-- `track`, about to index the subscription for `e`. -/
  | indexing (future : FutureRef) (e : Event) (cbId : SubId) (overtaken : Bool) (rest : List Event)
  /-- `add_subscription`, found the job active. -/
  | adding (a : AddArgs) (future : FutureRef)
  /-- `add_subscription`, about to validate and index. -/
  | validating (a : AddArgs) (future : FutureRef) (cbId : SubId) (overtaken : Bool)
  /-- `cancel_job`, about to request the cancellation. -/
  | cancelling (future : Option FutureRef)
  /-- `_check_slurm_job`, about to query Slurm. -/
  | checking (future : FutureRef)
  | ended (result : Except PyError (Option SubId))
  deriving DecidableEq

/-- The history flag: the topic of the call's subscription has just been removed by topic. -/
def Call.overtake (jobOf : FutureRef → String) (t : Topic) : Call → Call
  | .indexing f e i o rest => .indexing f e i (o || decide (topicOf (jobOf f) e = t)) rest
  | .validating a f i o => .validating a f i (o || decide (a.topic = t))
  | call => call

structure Session where
  tracker : JobTracker
  calls : ℕ → Call := fun _ => .idle
  /-- The callbacks that the listener thread has captured and not yet called. -/
  captured : List (Subscription ClientCallback × SlurmMessage) := []
  /-- Histories: the futures put in the registry, the ids returned by `add_subscription`, the topics
  given to `remove_subscription_by_topic`. -/
  published : List FutureRef := []
  listeners : List SubId := []
  cutTopics : List Topic := []

/-- What a thread does next. -/
inductive Act
  | track (future : FutureRef)
  | addSubscription (a : AddArgs)
  | applyStatus (m : StatusMessage) (future : FutureRef)
  | removeSubscriptionById (ids : List SubId)
  | removeSubscriptionByTopic (t : Topic)
  | removeSubscriptionsForJob (jobId : String) (skip : Bool)
  | beginSchedulerCheck (jobId : String)
  | dispatchMessage (t : Topic) (m : SlurmMessage)
  | listenGlobal (e : Event) (cb : Callback)
  /-- First section of `track`. -/
  | startTrack (n : ℕ) (future : FutureRef)
  /-- First section of `add_subscription`. -/
  | startAdd (n : ℕ) (a : AddArgs)
  /-- First section of `cancel_job`. -/
  | startCancel (n : ℕ) (jobId : String)
  /-- First section of `_check_slurm_job`. -/
  | startCheck (n : ℕ) (jobId : String)
  /-- The next section of a `track` or an `add_subscription`. -/
  | proceed (n : ℕ)
  /-- The REST request of `cancel_job` ends, and the rest of the call. -/
  | cancelled (n : ℕ) (rest : Except PyError Unit)
  /-- The query of `_check_slurm_job` ends with a status or without, and the rest of the call. -/
  | checked (n : ℕ) (verdict : Option String)
  | poll (t : Topic) (m : SlurmMessage)
  | deliver

/-- A step with what it takes from the interpreter. -/
structure Label where
  rt : Runtime
  act : Act

/-! ## Steps -/

namespace Session

def jobOf (s : Session) (f : FutureRef) : String := (s.tracker.futures f).jobId

def goto (s : Session) (n : ℕ) (call : Call) : Session :=
  { s with calls := Function.update s.calls n call }

/-- The message of `cancel_job`. -/
def cancelMessage (rt : Runtime) (f : JobFuture) : StatusMessage where
  status := "cancelled"
  metadata := enrich rt ∅ f.jobId f.slurmJobId

/-- The next section of a call of `track` or `add_subscription`. -/
def proceed (rt : Runtime) (n : ℕ) (s : Session) : Option Session :=
  match s.calls n with
  | .subscribing f e rest =>
    match (subscribeCallback e f).exec s.tracker with
    | (.ok i, t) => some ({ s with tracker := t }.goto n (.indexing f e i false rest))
    | (.error err, t) => some ({ s with tracker := t }.goto n (.ended (.error err)))
  | .indexing f e i _ rest =>
    let next := match rest with
      | [] => .ended (.ok none)
      | e' :: rest => .subscribing f e' rest
    some ({ s with tracker := (indexCallback rt e f i).after s.tracker }.goto n next)
  | .adding a f =>
    match (subscribeListener a f).exec s.tracker with
    | (.ok i, t) => some ({ s with tracker := t }.goto n (.validating a f i false))
    | (.error err, t) => some ({ s with tracker := t }.goto n (.ended (.error err)))
  | .validating a f i _ =>
    match (validateListener a f i).exec s.tracker with
    | (.ok i, t) =>
      some ({ s with tracker := t, listeners := s.listeners ++ [i] }.goto n (.ended (.ok (some i))))
    | (.error err, t) => some ({ s with tracker := t }.goto n (.ended (.error err)))
  | _ => none

/-- One step of one thread; `none` when the label does not apply. -/
def step (s : Session) (l : Label) : Option Session :=
  match l.act with
  | .track f =>
    if f ∈ s.published ∨ (s.tracker.futures f).done then none
    else some { s with tracker := (track l.rt f).after s.tracker, published := s.published ++ [f] }
  | .addSubscription a =>
    match (addSubscription a).exec s.tracker with
    | (.ok i, t) => some { s with tracker := t, listeners := s.listeners ++ [i] }
    | (.error _, t) => some { s with tracker := t }
  | .applyStatus m f => some { s with tracker := (applyStatus l.rt m f).after s.tracker }
  | .removeSubscriptionById ids =>
    some { s with tracker := (removeSubscriptionById ids).after s.tracker }
  | .removeSubscriptionByTopic t =>
    some { s with
      tracker := (removeSubscriptionByTopic t).after s.tracker
      calls := fun n => (s.calls n).overtake s.jobOf t
      cutTopics := s.cutTopics ++ [t] }
  | .removeSubscriptionsForJob j skip =>
    some { s with tracker := (removeSubscriptionsForJob l.rt j skip).after s.tracker }
  | .beginSchedulerCheck j => some { s with tracker := (beginSchedulerCheck l.rt j).after s.tracker }
  | .dispatchMessage t m => some { s with tracker := (dispatchMessage l.rt t m).after s.tracker }
  | .listenGlobal e cb => some { s with tracker := (listenGlobal e cb).after s.tracker }
  | .startTrack n f =>
    match s.calls n with
    | .idle =>
      if f ∈ s.published ∨ (s.tracker.futures f).done then none
      else some ({ s with
        tracker := publishFuture f s.tracker
        published := s.published ++ [f] }.goto n (.subscribing f .heartbeat [.status, .log]))
    | _ => none
  | .startAdd n a =>
    match s.calls n with
    | .idle =>
      match (checkActive a).exec s.tracker with
      | (.ok f, t) => some ({ s with tracker := t }.goto n (.adding a f))
      | (.error err, t) => some ({ s with tracker := t }.goto n (.ended (.error err)))
    | _ => none
  | .startCancel n j =>
    match s.calls n with
    | .idle => some (s.goto n (.cancelling (s.tracker.futureRegistry.get? j)))
    | _ => none
  | .startCheck n j =>
    match s.calls n with
    | .idle =>
      match (beginSchedulerCheck l.rt j).exec s.tracker with
      | (.ok (some f), t) => some ({ s with tracker := t }.goto n (.checking f))
      | (.ok none, t) => some ({ s with tracker := t }.goto n (.ended (.ok none)))
      | (.error err, t) => some ({ s with tracker := t }.goto n (.ended (.error err)))
    | _ => none
  | .proceed n => s.proceed l.rt n
  | .cancelled n rest =>
    match s.calls n with
    | .cancelling future =>
      match rest, future with
      | .error err, _ => some (s.goto n (.ended (.error err)))
      | .ok _, none => some (s.goto n (.ended (.ok none)))
      | .ok _, some f =>
        some ({ s with tracker := (applyStatus l.rt
          (cancelMessage l.rt (s.tracker.futures f)) f).after s.tracker }.goto n (.ended (.ok none)))
    | _ => none
  | .checked n verdict =>
    match s.calls n with
    | .checking f =>
      match verdict with
      | none => some (s.goto n (.ended (.ok none)))
      | some status =>
        some ({ s with tracker :=
          (applyStatus l.rt { status := status } f).after s.tracker }.goto n (.ended (.ok none)))
    | _ => none
  | .poll t m =>
    match s.captured with
    | [] => some { s with captured := (s.tracker.subClient.capture t).map fun sub => (sub, m) }
    | _ => none
  | .deliver =>
    match s.captured with
    | [] => none
    | (sub, m) :: rest =>
      some { s with tracker := (deliver l.rt m sub).after s.tracker, captured := rest }

/-- The transition relation of a session. -/
def Steps (s : Session) (l : Label) (s' : Session) : Prop := s.step l = some s'

/-- A new tracker: empty maps, unfinished futures with different job ids, no call, no command sent. -/
structure Initial (s : Session) : Prop where
  maps : s.tracker.futureRegistry = ∅ ∧ s.tracker.globalCallbacks = ∅ ∧
    s.tracker.subscriptionsByTopic = ∅ ∧ s.tracker.topicBySubscriptionId = ∅ ∧
    s.tracker.activeSubscriptions = ∅ ∧ s.tracker.tasks = [] ∧ s.tracker.accepted = []
  client : s.tracker.subClient.subscriptionsByTopic = ∅ ∧
    s.tracker.subClient.topicBySubscriptionId = ∅ ∧ s.tracker.subClient.subscriptionReady = ∅ ∧
    s.tracker.subClient.events = [] ∧ s.tracker.subClient.pubsub.sent = [] ∧
    s.tracker.subClient.pubsub.calls = 0
  calls : ∀ n, s.calls n = .idle
  histories : s.captured = [] ∧ s.published = [] ∧ s.listeners = [] ∧ s.cutTopics = []
  futures : ∀ f, (s.tracker.futures f).done = false ∧ (s.tracker.futures f).status = .pending
  jobIds : ∀ f g, (s.tracker.futures f).jobId = (s.tracker.futures g).jobId → f = g

/-- `JobTracker(RedisSubClient(...))` and futures with the given job ids. -/
def new (failure : ℕ → Command → Option String) (jobId : FutureRef → String) : Session where
  tracker :=
    { subClient := { pubsub := { failure := failure } }
      futures := fun f => JobFuture.new (jobId f) "1" }

theorem initial_new (failure : ℕ → Command → Option String) {jobId : FutureRef → String}
    (hj : ∀ f g, jobId f = jobId g → f = g) : (new failure jobId).Initial :=
  ⟨⟨rfl, rfl, rfl, rfl, rfl, rfl, rfl⟩, ⟨rfl, rfl, rfl, rfl, rfl, rfl⟩, fun _ => rfl, ⟨rfl, rfl, rfl, rfl⟩,
    fun _ => ⟨rfl, rfl⟩, hj⟩

/-- Job ids `j`, `jj`, `jjj`, … -/
def unary (n : ℕ) : String := String.ofList (List.replicate (n + 1) 'j')

theorem unary_injective (f g : ℕ) (h : unary f = unary g) : f = g := by
  have hl := congrArg List.length (String.ofList_injective h)
  simpa using hl

end Session

/-- An interpreter whose clock stands still and which walks sets in insertion order. -/
def Runtime.still : Runtime := ⟨0, "now", fun _ => "", id, fun l => List.Perm.refl l⟩

end SlurmManager
