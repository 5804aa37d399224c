import SlurmManager.Tracking.Messages

/-!
# JobFuture — the state of one job as its user sees it

`job_future.py` without its locks: the lifecycle status, the wrapped `concurrent.futures.Future`
(`outcome`), and the registry of the user's callbacks.  A wrapped future is completed at most once;
`updateStatus_of_done` is the reason why nothing changes afterwards.
-/

namespace SlurmManager

/-! ## Statuses -/

inductive JobStatus
  | pending
  | running
  | finished
  | error
  | cancelled
  deriving DecidableEq, Repr

def JobStatus.value : JobStatus → String
  | .pending => "pending"
  | .running => "running"
  | .finished => "finished"
  | .error => "error"
  | .cancelled => "cancelled"

/-- `JobStatus(text)`; `none` is its `ValueError`. -/
def JobStatus.ofValue? (text : String) : Option JobStatus :=
  [JobStatus.pending, .running, .finished, .error, .cancelled].find? fun s => s.value = text

/-- The statuses that end a job: `status in (ERROR, FINISHED, CANCELLED)`. -/
def JobStatus.terminal : JobStatus → Bool
  | .pending | .running => false
  | .finished | .error | .cancelled => true

theorem JobStatus.ofValue?_value (s : JobStatus) : JobStatus.ofValue? s.value = some s := by
  cases s <;> decide

/-! ## The future -/

/-- A user's callable, told apart by a number, with the keyword arguments bound to it. -/
abbrev Callback := ℕ

/-- A `uuid4` text, told apart by a number. -/
abbrev SubId := ℕ

structure RegisteredCallback where
  id : SubId
  event : Event
  callback : Callback
  deriving DecidableEq, Repr

/-- How the wrapped `Future[None]` was completed. -/
inductive Outcome
  | result
  | exception (info : String)
  deriving DecidableEq, Repr

structure JobFuture where
  jobId : String
  slurmJobId : String
  name : String
  status : JobStatus := .pending
  outcome : Option Outcome := none
  callbackRegistry : Dict Event (List RegisteredCallback) := ∅

/-- The characters `str.strip` removes. -/
def isSpace (c : Char) : Bool :=
  (9 ≤ c.toNat && c.toNat ≤ 13) || (28 ≤ c.toNat && c.toNat ≤ 32) || (8192 ≤ c.toNat && c.toNat ≤ 8202)
    || c.toNat ∈ [133, 160, 5760, 8232, 8233, 8239, 8287, 12288]

/-- A text without the blanks at its ends. -/
def trim (blank : Char → Bool) (text : String) : String :=
  String.ofList ((text.toList.dropWhile blank).reverse.dropWhile blank).reverse

/-- `text.strip()`. -/
def strip (text : String) : String := trim isSpace text

namespace JobFuture

/-- `JobFuture(job_id, manager, slurm_job_id, name)`. -/
def new (jobId slurmJobId : String) (name : Option String := none) : JobFuture where
  jobId := jobId
  slurmJobId := strip slurmJobId
  name := name.getD "Job" ++ "-" ++ strip slurmJobId

def done (f : JobFuture) : Bool := f.outcome.isSome

def success (f : JobFuture) : Bool := f.outcome = some .result

/-- `exception()`: the text of the recorded exception. -/
def exception (f : JobFuture) : Option String :=
  match f.outcome with
  | some (.exception info) => some info
  | _ => none

/-- `_set_finished`. -/
def setFinished (f : JobFuture) : JobFuture :=
  if f.done then f else { f with outcome := some .result }

/-- `_set_exception`; an empty `exc_info` is falsy. -/
def setException (f : JobFuture) (status : JobStatus) (excInfo : Option String) : JobFuture :=
  if f.done then f
  else
    let info := match excInfo with
      | some text =>
        if text = "" then f.name ++ " failed with status " ++ status.value ++ "."
        else f.name ++ " failed with status " ++ status.value ++ ". Exception info: " ++ text
      | none => f.name ++ " failed with status " ++ status.value ++ "."
    { f with outcome := some (.exception info) }

/-- `_update_status`: ignored once the job is done. -/
def updateStatus (f : JobFuture) (status : JobStatus) (excInfo : Option String) : JobFuture :=
  if f.done then f
  else
    let f := { f with status := status }
    match status with
    | .finished => f.setFinished
    | .cancelled | .error => f.setException status excInfo
    | .pending | .running => f

/-- The append of `listen` to the future's own registry. -/
def registerCallback (f : JobFuture) (cb : RegisteredCallback) : JobFuture :=
  match f.callbackRegistry.get? cb.event with
  | none => { f with callbackRegistry := f.callbackRegistry.set cb.event [cb] }
  | some cbs => { f with callbackRegistry := f.callbackRegistry.set cb.event (cbs ++ [cb]) }

/-! ## What a status update does -/

section UpdateStatus

variable (f : JobFuture) (st : JobStatus) (x : Option String)

theorem updateStatus_of_done {f : JobFuture} (h : f.done = true) : f.updateStatus st x = f := by
  simp [updateStatus, h]

@[simp] theorem updateStatus_jobId : (f.updateStatus st x).jobId = f.jobId := by
  unfold updateStatus setFinished setException
  cases st <;> by_cases h : f.done = true <;> simp [h] <;> split <;> rfl

@[simp] theorem updateStatus_slurmJobId : (f.updateStatus st x).slurmJobId = f.slurmJobId := by
  unfold updateStatus setFinished setException
  cases st <;> by_cases h : f.done = true <;> simp [h] <;> split <;> rfl

@[simp] theorem updateStatus_callbackRegistry :
    (f.updateStatus st x).callbackRegistry = f.callbackRegistry := by
  unfold updateStatus setFinished setException
  cases st <;> by_cases h : f.done = true <;> simp [h] <;> split <;> rfl

variable {f}

/-- A future that was not done is done afterwards exactly when the status is terminal. -/
theorem done_updateStatus (h : f.done = false) : (f.updateStatus st x).done = st.terminal := by
  have h' : ({ f with status := st } : JobFuture).done = false := h
  cases st <;> simp_all [updateStatus, setFinished, setException, done, JobStatus.terminal]

theorem status_updateStatus (h : f.done = false) : (f.updateStatus st x).status = st := by
  have h' : ({ f with status := st } : JobFuture).done = false := h
  cases st <;> simp_all [updateStatus, setFinished, setException, done]

theorem success_updateStatus (h : f.done = false) :
    (f.updateStatus st x).success = decide (st = .finished) := by
  have h' : ({ f with status := st } : JobFuture).done = false := h
  cases st <;> simp_all [updateStatus, setFinished, setException, done, success]

end UpdateStatus

@[simp] theorem registerCallback_done (f : JobFuture) (cb : RegisteredCallback) :
    (f.registerCallback cb).done = f.done := by
  unfold registerCallback; split <;> rfl

@[simp] theorem registerCallback_jobId (f : JobFuture) (cb : RegisteredCallback) :
    (f.registerCallback cb).jobId = f.jobId := by
  unfold registerCallback; split <;> rfl

@[simp] theorem registerCallback_slurmJobId (f : JobFuture) (cb : RegisteredCallback) :
    (f.registerCallback cb).slurmJobId = f.slurmJobId := by
  unfold registerCallback; split <;> rfl

theorem success_eq_done_and (f : JobFuture) :
    f.success = (f.done && f.exception.isNone) := by
  unfold success done exception
  cases f.outcome with
  | none => rfl
  | some o => cases o <;> rfl

end JobFuture

end SlurmManager
