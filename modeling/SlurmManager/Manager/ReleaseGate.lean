import SlurmManager.Manager.Submission
import SlurmManager.Tracking.JobView

/-!
# ReleaseGate — `submit_job` section by section

Any number of calls of `submit_job`, the listener thread, and the server at the other end of the
connection.  The bodies of the sections are those of `Submission`; here they are interleaved.

* `Stage`: where a call stands, with what it holds.
* `Gate.step`: the next section of a call (`proceed`), a call that raises where it stands (`raise`), and
  the steps of the listener and of the server.
-/

namespace SlurmManager

open Program JobTracker

/-! ## The calls -/

/-- What a call holds once its submission has returned. -/
structure Submitted where
  args : SubmitArgs
  future : FutureRef
  slurmJobId : String
  job : Object
  callbacks : List (Event × Callback)

inductive Stage
  | idle
  /-- `track`, about to put the future in the registry. -/
  | tracking (x : Submitted)
  /-- `track`, about to subscribe for `e`, then for the rest. -/
  | subscribing (x : Submitted) (e : Event) (rest : List Event)
  /-- `track`, about to index the subscription for `e`. -/
  | indexing (x : Submitted) (e : Event) (cbId : SubId) (rest : List Event)
  /-- About to register the callbacks `todo`. -/
  | listening (x : Submitted) (todo : List (Event × Callback))
  /-- `add_subscription`, found the job active. -/
  | adding (x : Submitted) (found : FutureRef) (c : Event × Callback) (todo : List (Event × Callback))
  /-- `add_subscription`, about to validate and index. -/
  | validating (x : Submitted) (found : FutureRef) (c : Event × Callback) (cbId : SubId)
    (todo : List (Event × Callback))
  /-- `listen`, about to note the callback in the future. -/
  | noting (x : Submitted) (c : Event × Callback) (cbId : SubId) (todo : List (Event × Callback))
  /-- `wait_until_ready`, has copied the topics of the job. -/
  | looking (x : Submitted) (topics : List Topic)
  /-- `wait_until_subscribed`, about to wait for the first event of the list. -/
  | waiting (x : Submitted) (ready : List (Topic × EventRef))
  /-- About to ask for the release. -/
  | releasing (x : Submitted)
  | returned (x : Submitted)
  /-- The `except` clause, about to ask for the cancellation. -/
  | cancelling (x : Submitted) (exc : PyError)
  /-- The `except` clause, about to apply the status. -/
  | failing (x : Submitted) (exc : PyError)
  | raised (exc : PyError)

/-- What a call under the `try` holds. -/
def Stage.underTry : Stage → Option Submitted
  | .tracking x | .subscribing x _ _ | .indexing x _ _ _ | .listening x _ | .adding x _ _ _
  | .validating x _ _ _ _ | .noting x _ _ _ | .looking x _ | .waiting x _ | .releasing x => some x
  | _ => none

/-- The manager, the connection to the server, the calls, and what the listener thread has captured.
`used` is a history: the futures that have been created. -/
structure Gate (ρ : Type) where
  submitter : Submitter ρ
  wire : Wire := {}
  stages : ℕ → Stage := fun _ => .idle
  captured : List (Subscription ClientCallback × SlurmMessage) := []
  used : List FutureRef := []

namespace Gate

variable {ρ : Type}

/-- What a party does next. -/
inductive Label
  /-- `submit_job` until its future exists; `f` is the new object. -/
  | submit (n : ℕ) (f : FutureRef) (settings : WorkerSettings) (w : Surroundings) (a : SubmitArgs)
  /-- The next section of a call. -/
  | proceed (n : ℕ) (rt : Runtime)
  /-- The statement under the `try` at which a call stands raises. -/
  | raise (n : ℕ) (exc : PyError)
  | poll (topic : Topic) (m : SlurmMessage)
  | deliver (rt : Runtime)
  /-- The server takes a command. -/
  | serve
  /-- The listener reads an acknowledgement. -/
  | read
  /-- The listener handles the acknowledgement that it has read. -/
  | handle

def tracker (s : Gate ρ) : JobTracker := s.submitter.managed.tracker

def client (s : Gate ρ) : RedisSubClient ClientCallback := s.tracker.subClient

/-- The commands sent. -/
def sent (s : Gate ρ) : List Command := s.client.pubsub.sent

def setTracker (s : Gate ρ) (t : JobTracker) : Gate ρ :=
  { s with submitter := { s.submitter with managed := { s.submitter.managed with tracker := t } } }

def setClient (s : Gate ρ) (c : RedisSubClient ClientCallback) : Gate ρ :=
  s.setTracker { s.tracker with subClient := c }

def goto (s : Gate ρ) (n : ℕ) (stage : Stage) : Gate ρ := { s with stages := Function.update s.stages n stage }

/-- A section of a call on the tracker: on to `next`, or to the `except` clause. -/
def enact {α : Type} (s : Gate ρ) (n : ℕ) (x : Submitted) (action : Program PyError JobTracker α)
    (next : α → Stage) : Gate ρ :=
  match action.exec s.tracker with
  | (.ok a, t) => (s.setTracker t).goto n (next a)
  | (.error e, t) => (s.setTracker t).goto n (.cancelling x e)

variable (rest : RestClient ρ)

/-- `submit_job` until its future exists; the `uuid4` of the call is the job id of the new object. -/
def submit (s : Gate ρ) (n : ℕ) (f : FutureRef) (settings : WorkerSettings) (w : Surroundings) (a : SubmitArgs) :
    Gate ρ :=
  let jobId := (s.tracker.futures f).jobId
  match prepare settings w jobId a with
  | .error e => s.goto n (.raised e)
  | .ok (script, job, callbacks) =>
    match (ask (.submit script job) (rest.submit script job)).exec s.submitter with
    | (.error e, m) => { s with submitter := m }.goto n (.raised e)
    | (.ok result, m) =>
      match submittedId w.str result with
      | .error e => { s with submitter := m }.goto n (.raised e)
      | .ok text =>
        let created : Gate ρ :=
          { s with
            submitter := (withTracker (modify (setFuture f (JobFuture.new jobId text)))).after m
            used := s.used ++ [f] }
        created.goto n (.tracking ⟨a, f, strip text, job, callbacks⟩)

/-- The next section of a call. -/
def proceed (s : Gate ρ) (n : ℕ) (rt : Runtime) : Option (Gate ρ) :=
  match s.stages n with
  | .tracking x => some (s.enact n x (modify (publishFuture x.future)) fun _ =>
      .subscribing x .heartbeat [.status, .log])
  | .subscribing x e rest => some (s.enact n x (subscribeCallback e x.future) fun i => .indexing x e i rest)
  | .indexing x e i rest => some (s.enact n x (indexCallback rt e x.future i) fun _ =>
      match rest with
      | [] => .listening x x.callbacks
      | e' :: rest => .subscribing x e' rest)
  | .listening x [] =>
    some (s.goto n (.looking x (rt.setOrder (s.tracker.activeTopics (s.tracker.futures x.future).jobId))))
  | .listening x (c :: todo) =>
    some (s.enact n x (checkActive ⟨(s.tracker.futures x.future).jobId, c.1, c.2⟩) fun g => .adding x g c todo)
  | .adding x g c todo =>
    some (s.enact n x (subscribeListener ⟨(s.tracker.futures x.future).jobId, c.1, c.2⟩ g) fun i =>
      .validating x g c i todo)
  | .validating x g c i todo =>
    some (s.enact n x (validateListener ⟨(s.tracker.futures x.future).jobId, c.1, c.2⟩ g i) fun i =>
      .noting x c i todo)
  | .noting x c i todo =>
    some (s.enact n x (modify fun t =>
      setFuture x.future ((t.futures x.future).registerCallback ⟨i, c.1, c.2⟩) t) fun _ => .listening x todo)
  | .looking x topics =>
    some (s.enact n x (onClient (RedisSubClient.readyEvents topics)) fun ready => .waiting x ready)
  | .waiting x [] => some (s.goto n (.releasing x))
  | .waiting x ((_, e) :: ready) =>
    if s.client.events[e]? = some true then some (s.goto n (.waiting x ready)) else none
  | .releasing x =>
    match (ask (.release x.slurmJobId) (rest.release x.slurmJobId)).exec s.submitter with
    | (.ok _, m) => some ({ s with submitter := m }.goto n (.returned x))
    | (.error e, m) => some ({ s with submitter := m }.goto n (.cancelling x e))
  | .cancelling x exc =>
    match (ask (.cancel x.slurmJobId) (rest.cancel x.slurmJobId)).exec s.submitter with
    | (.ok _, m) => some ({ s with submitter := m }.goto n (.failing x exc))
    | (.error e, m) =>
      some ({ s with submitter := m }.goto n
        (if e.type = ExceptionType.slurmRestError ∨ e.type = ExceptionType.valueError then .failing x exc else .raised e))
  | .failing x exc =>
    match (applyStatus rt (setupFailed exc) x.future).exec s.tracker with
    | (.ok _, t) => some ((s.setTracker t).goto n (.raised exc))
    | (.error e, t) => some ((s.setTracker t).goto n (.raised e))
  | _ => none

/-- One step of one party; `none` when the label does not apply. -/
def step (s : Gate ρ) : Label → Option (Gate ρ)
  | .submit n f settings w a =>
    match s.stages n with
    | .idle => if f ∈ s.used then none else some (s.submit rest n f settings w a)
    | _ => none
  | .proceed n rt => s.proceed rest n rt
  | .raise n exc => (s.stages n).underTry.map fun x => s.goto n (.cancelling x exc)
  | .poll t m =>
    match s.captured with
    | [] => some { s with captured := (s.client.capture t).map fun sub => (sub, m) }
    | _ => none
  | .deliver rt =>
    match s.captured with
    | [] => none
    | (sub, m) :: captured =>
      some { s.setTracker ((JobTracker.deliver rt m sub).after s.tracker) with captured := captured }
  | .serve => (s.wire.serve s.sent).map fun w => { s with wire := w }
  | .read => s.wire.read.map fun w => { s with wire := w }
  | .handle => s.wire.held.map fun cmd =>
      { s.setClient (Link.acknowledged cmd s.client) with wire := { s.wire with held := none } }

def Steps (s : Gate ρ) (l : Label) (s' : Gate ρ) : Prop := s.step rest l = some s'

/-- A new tracker on a new connection, and futures with different job ids. -/
structure Initial (s : Gate ρ) : Prop where
  maps : s.tracker.futureRegistry = ∅ ∧ s.tracker.subscriptionsByTopic = ∅ ∧ s.tracker.activeSubscriptions = ∅
  client : s.client.subscriptionsByTopic = ∅ ∧ s.client.topicBySubscriptionId = ∅ ∧
    s.client.subscriptionReady = ∅ ∧ s.sent = []
  wire : s.wire = {}
  stages : ∀ n, s.stages n = .idle
  jobIds : ∀ f g, (s.tracker.futures f).jobId = (s.tracker.futures g).jobId → f = g

end Gate

end SlurmManager
