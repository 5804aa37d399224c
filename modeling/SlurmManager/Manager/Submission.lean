import SlurmManager.Manager.JobOptions
import SlurmManager.Manager.JobScript
import SlurmManager.Manager.SchedulerCheck

/-!
# Submission — `submit_job`

The call as a whole, over the tracker and any REST client.  A history lists what it asked of the client.

* `prepare`: everything before the submission.
* `setUp`: everything that happens under the `try`, in which the job is held.
* `abandon`: the `except` clause.
-/

namespace SlurmManager

open Program JobTracker

/-- A request to the REST client. -/
inductive RestCall
  | submit (script : String) (job : Object)
  | release (slurmJobId : String)
  | cancel (slurmJobId : String)

/-- A manager, and the history of its requests. -/
structure Submitter (ρ : Type) where
  managed : Managed ρ
  requests : List RestCall := []

/-- The arguments of `submit_job`. -/
structure SubmitArgs where
  scriptPath : String
  envPath : Option String := none
  workingDirectory : String
  jobOptions : Option JobOptions := none
  callbacks : Dict String Callback := ∅

/-- The settings of a manager that go into a script. -/
structure WorkerSettings where
  workerPath : String
  redisAddress : String
  redisTls : Bool

/-- Where a callback registration raises: before or after the client has registered the callback. -/
inductive RegistrationFault
  | refused (e : PyError)
  | interrupted (e : PyError)

/-- What one call takes from its surroundings. -/
structure Surroundings where
  rt : Runtime
  readText : String → Except PyError String
  uuid : UuidHex
  /-- The text of a value in an f-string. -/
  str : Json → String
  /-- Whether the subscription is acknowledged before the deadline. -/
  acknowledged : Topic → Bool
  /-- Which registration raises. -/
  fault : Event → Option RegistrationFault

/-! ## The code -/

section Code

variable {ρ α : Type}

/-- The event with a name. -/
def Event.ofName? (name : String) : Option Event := [Event.heartbeat, .log, .status].find? fun e => e.name = name

/-- The callbacks by event; `none` if there is a key that is no event. -/
def eventCallbacks (callbacks : Dict String Callback) : Option (List (Event × Callback)) :=
  callbacks.entries.mapM fun e => (Event.ofName? e.1).map fun event => (event, e.2)

/-- The job description. -/
def jobDescription (a : SubmitArgs) : Object :=
  (a.jobOptions.getD {}).toRest.update
    [("current_working_directory", .string a.workingDirectory),
      ("environment", .array [.string ("PATH=/usr/share/Modules/bin:/usr/local/bin:/usr/bin:/usr/local/sbin:" ++
        "/usr/sbin:/usr/lpp/mmfs/bin:")]),
      ("hold", .bool true)]

/-- `submit_job` up to the submission: the script, the job description and the callbacks. -/
def prepare (settings : WorkerSettings) (w : Surroundings) (jobId : String) (a : SubmitArgs) :
    Except PyError (String × Object × List (Event × Callback)) := do
  if startsWithSlash a.workingDirectory = false then
    throw ⟨.valueError, "Working directory must be an absolute compute-node path"⟩
  match eventCallbacks a.callbacks with
  | none => throw ⟨.valueError, "Callbacks must use log, status, or heartbeat keys"⟩
  | some callbacks =>
    let script ← buildJobScript w.readText a.scriptPath a.envPath jobId settings.workerPath settings.redisAddress
      settings.redisTls w.uuid
    return (script, jobDescription a, callbacks)

/-- `str(result["job_id"])`. -/
def submittedId (str : Json → String) (result : Object) : Except PyError String :=
  match result.lookup "job_id" with
  | none => .error ⟨.keyError, "'job_id'"⟩
  | some id => .ok (str id)

def lifted (x : Except PyError α) : Program PyError (Submitter ρ) α :=
  match x with
  | .ok a => return a
  | .error e => throw e

/-- A request to the REST client. -/
def ask (call : RestCall) (x : Program PyError ρ α) : Program PyError (Submitter ρ) α := do
  modify fun m => { m with requests := m.requests ++ [call] }
  Program.focus (fun m => m.managed.rest) (fun m r => { m with managed := { m.managed with rest := r } }) x

/-- A call of the tracker. -/
def withTracker (x : Program PyError JobTracker α) : Program PyError (Submitter ρ) α :=
  Program.focus (fun m => m.managed.tracker) (fun m t => { m with managed := { m.managed with tracker := t } }) x

/-- The waits of `wait_until_subscribed`: the listener has set the event in time, or it has not. -/
def awaitReady {χ : Type} (acknowledged : Topic → Bool) :
    List (Topic × EventRef) → Program PyError (RedisSubClient χ) Unit
  | [] => return ()
  | (topic, _) :: ready =>
    if acknowledged topic then do
      modify (RedisSubClient.acknowledge topic)
      awaitReady acknowledged ready
    else throw ⟨.timeoutError, "Redis did not acknowledge subscription to " ++ topic⟩

/-- `wait_until_ready`. -/
def waitUntilReady (w : Surroundings) (jobId : String) : Program PyError JobTracker Unit := do
  let s ← get
  let ready ← onClient (RedisSubClient.readyEvents (w.rt.setOrder (s.activeTopics jobId)))
  onClient (awaitReady w.acknowledged ready)

/-- `job_future.listen(event, callback)`. -/
def listenJob (fault : Option RegistrationFault) (f : FutureRef) (jobId : String) (event : Event)
    (callback : Callback) : Program PyError JobTracker SubId :=
  match fault with
  | some (.refused e) => throw e
  | some (.interrupted e) => do
    let future ← checkActive ⟨jobId, event, callback⟩
    let _ ← subscribeListener ⟨jobId, event, callback⟩ future
    throw e
  | none => do
    let cbId ← addSubscription ⟨jobId, event, callback⟩
    modify fun s => setFuture f ((s.futures f).registerCallback ⟨cbId, event, callback⟩) s
    return cbId

/-- The loop over the initial callbacks. -/
def listenAll (w : Surroundings) (f : FutureRef) (jobId : String) (callbacks : List (Event × Callback)) :
    Program PyError JobTracker Unit :=
  forM callbacks fun c => do
    let _ ← listenJob (w.fault c.1) f jobId c.1 c.2

/-- The body of the `try`. -/
def setUp (w : Surroundings) (client : RestClient ρ) (f : FutureRef) (jobId slurmJobId : String)
    (callbacks : List (Event × Callback)) : Program PyError (Submitter ρ) Unit := do
  withTracker (track w.rt f)
  withTracker (listenAll w f jobId callbacks)
  withTracker (waitUntilReady w jobId)
  ask (.release slurmJobId) (client.release slurmJobId)

/-- The status of a job whose setup failed. -/
def setupFailed (exc : PyError) : StatusMessage where
  status := "error:Submission setup failed: " ++ exc.text

/-- The `except` clause. -/
def abandon (w : Surroundings) (client : RestClient ρ) (f : FutureRef) (slurmJobId : String) (exc : PyError) :
    Program PyError (Submitter ρ) Unit := do
  tryCatch (ask (.cancel slurmJobId) (client.cancel slurmJobId)) fun e =>
    if e.type = .slurmRestError ∨ e.type = .valueError then return () else throw e
  withTracker (applyStatus w.rt (setupFailed exc) f)
  throw exc

/-- `submit_job`; `f` is the new future, `jobId` the `uuid4` of the call. -/
def submitJob (settings : WorkerSettings) (w : Surroundings) (client : RestClient ρ) (f : FutureRef)
    (jobId : String) (a : SubmitArgs) : Program PyError (Submitter ρ) FutureRef := do
  let (script, job, callbacks) ← lifted (prepare settings w jobId a)
  let result ← ask (.submit script job) (client.submit script job)
  let slurmJobId ← lifted (submittedId w.str result)
  withTracker (modify (setFuture f (JobFuture.new jobId slurmJobId)))
  -- the future keeps the text without its blanks
  let slurmJobId := strip slurmJobId
  tryCatch (setUp w client f jobId slurmJobId callbacks) fun exc => abandon w client f slurmJobId exc
  return f

end Code

section Spec

variable {ρ α : Type}

@[simp] theorem exec_withTracker (x : Program PyError JobTracker α) (m : Submitter ρ) :
    (withTracker x).exec m = ((x.exec m.managed.tracker).1,
      { m with managed := { m.managed with tracker := (x.exec m.managed.tracker).2 } }) := rfl

@[simp] theorem exec_ask (call : RestCall) (x : Program PyError ρ α) (m : Submitter ρ) :
    (ask call x).exec m = ((x.exec m.managed.rest).1,
      { managed := { m.managed with rest := (x.exec m.managed.rest).2 }, requests := m.requests ++ [call] }) := rfl

end Spec

end SlurmManager
