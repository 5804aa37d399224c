import SlurmManager.Tracking.Messages
import SlurmManager.Lib.Runs
import SlurmManager.Worker.Framing
import Mathlib.Logic.Function.Basic

/-!
# Run — the worker of one job, goroutine by goroutine

`Run` of `worker.go`, from the first publication on (staging and the HOME lookup come before it).  A label
is one step of one goroutine or of the environment; what the environment decides (the results of the
publisher, of the archive writers and of the processes) is part of the label, so a run
(`Run Worker.Steps`) is one interleaving with one pattern of failures.

* `publish` holds a mutex from the test of the sticky error to the end of the network call; it is one
  step.
* `lineWriter.Write` ignores what `publish` returns: `outbox` holds the messages of the current call that
  are still to be sent, each sent in a step of its own.
* The part of `os/exec` behind `Start` and `Wait` is written out: one goroutine per output copies the
  pipe into its `lineWriter`; `Wait` waits for the leader, then for both goroutines, but for at most
  `WaitDelay`, after which it closes the pipes (`expired`).

The processes themselves are left free: they write, close their pipes and exit when they like, whatever
signals the watcher sends them.
-/

namespace SlurmManager.Worker

/-- A Go error, by its text. -/
abbrev Err := String

inductive Stream
  | stdout
  | stderr
  deriving DecidableEq

def Stream.name : Stream → String
  | .stdout => "stdout"
  | .stderr => "stderr"

/-! ## Messages -/

/-- What is handed to `publish`. -/
inductive Feedback
  | status (text : String)
  | heartbeat (timestamp : ℚ)
  | log (stream : Stream) (chunk : Chunk)
  deriving DecidableEq

/-- The `msg_type`. -/
def Feedback.kind : Feedback → Event
  | .status _ => .status
  | .heartbeat _ => .heartbeat
  | .log _ _ => .log

/-- The channel of a message. -/
def topic (jobID : String) (m : Feedback) : Topic := "info/" ++ jobID ++ "/" ++ m.kind.name

/-- The worker publishes on the channels that the manager listens to. -/
theorem topic_eq_topicOf (jobID : String) (m : Feedback) : topic jobID m = topicOf jobID m.kind := rfl

/-- A call of `Publisher.Publish` and what it returned. -/
structure Attempt where
  message : Feedback
  error : Option Err
  deriving DecidableEq

/-! ## State -/

/-- `lineWriter`. -/
structure LineWriter where
  buffer : Buffer := Buffer.empty
  /-- The messages of the current call that are still to be sent. -/
  outbox : List Chunk := []
  err : Option Err := none
  /-- What the local writer has received. -/
  archive : Bytes := []

/-- The goroutine that copies a pipe. -/
inductive Copier
  | absent
  | running
  | finished
  deriving DecidableEq

/-- One output of the workload: the pipe, its copy goroutine and its `lineWriter`. -/
structure Outlet where
  /-- Everything the processes wrote. -/
  written : Bytes := []
  /-- What the copy goroutine has not read yet. -/
  pending : Bytes := []
  /-- Some process may still write. -/
  held : Bool := true
  copier : Copier := .absent
  writer : LineWriter := {}

inductive ExitStatus
  | exited (code : ℕ)
  | signaled (signal : String)
  deriving DecidableEq

/-- The error of `Start`, of `Wait`, or of the cancelled context. -/
inductive RunError
  | exit (code : ℕ)
  | signaled (signal : String)
  | other (text : Err)

def RunError.text : RunError → Err
  | .exit code => "exit status " ++ toString code
  | .signaled signal => "signal: " ++ signal
  | .other text => text

/-- Where the main goroutine stands. -/
inductive Main
  /-- About to publish that the job runs. -/
  | announcing
  /-- About to test the context and to start the workload. -/
  | launching
  /-- In `command.Wait`. -/
  | waiting
  /-- Waiting for the watcher. -/
  | draining
  | flushing (x : Stream)
  /-- Waiting for the heartbeat goroutine. -/
  | halting
  /-- About to choose code and status. -/
  | concluding
  | reporting (code : ℕ) (status : String) (failure : Option Err)
  | returned (code : ℕ) (err : Option Err)
  deriving DecidableEq

inductive Heartbeat
  | absent
  | beating
  /-- In the `select`. -/
  | pausing
  | done
  deriving DecidableEq

inductive Watcher
  | absent
  | watching
  /-- In `terminateProcessGroup`. -/
  | terminating
  | done
  deriving DecidableEq

structure State where
  /-- `ctx.Err() != nil`. -/
  ctxDone : Bool := false
  /-- `workContext.Err() != nil`. -/
  workDone : Bool := false
  publishError : Option Err := none
  attempts : List Attempt := []
  main : Main := .announcing
  heartbeat : Heartbeat := .absent
  stopHeartbeat : Bool := false
  watcher : Watcher := .absent
  processDone : Bool := false
  /-- The leader of the process group, once it has exited. -/
  leader : Option ExitStatus := none
  started : Bool := false
  /-- `WaitDelay` has passed since the leader exited. -/
  expired : Bool := false
  /-- The first error of a copy goroutine. -/
  copyError : Option Err := none
  runError : Option RunError := none
  outlet : Stream → Outlet := fun _ => {}

/-! ## The code -/

section Code

/-- `publish`, with what the publisher would return.  Once feedback has failed, only statuses are still
attempted; the first error stays and cancels the work. -/
def publish (m : Feedback) (result : Option Err) (s : State) : State × Option Err :=
  if s.publishError.isSome ∧ m.kind ≠ .status then (s, s.publishError)
  else
    let s := { s with attempts := s.attempts ++ [⟨m, result⟩] }
    if result.isSome ∧ s.publishError.isNone then
      ({ s with publishError := result, workDone := true }, result)
    else (s, result)

def State.setOutlet (x : Stream) (o : Outlet) (s : State) : State :=
  { s with outlet := Function.update s.outlet x o }

/-- The end of a copy goroutine; the first error is kept. -/
def finish (x : Stream) (e : Option Err) (s : State) : State :=
  { s.setOutlet x { s.outlet x with copier := .finished } with copyError := s.copyError <|> e }

/-- `lineWriter.Write` up to its first `send`, with what the local writer returns. -/
def receive (x : Stream) (data : Bytes) (written : ℕ) (err : Option Err) (s : State) : State :=
  let o := s.outlet x
  let w := o.writer
  match w.err with
  | some e => finish x (some e) s
  | none =>
    let err := match err with
      | some e => some e
      | none => if written ≠ data.length then some "short write" else none
    match err with
    | some e =>
      let e := x.name ++ " archive: " ++ e
      let w := { w with err := some e, archive := w.archive ++ data.take written }
      finish x (some e) { s.setOutlet x { o with writer := w } with workDone := true }
    | none =>
      let r := write w.buffer data
      let w := { w with buffer := r.2, outbox := r.1, archive := w.archive ++ data }
      s.setOutlet x { o with writer := w }

/-- Both copy goroutines have ended. -/
def State.Copied (s : State) : Prop :=
  (s.outlet .stdout).copier = .finished ∧ (s.outlet .stderr).copier = .finished

instance (s : State) : Decidable s.Copied := inferInstanceAs (Decidable (_ ∧ _))

/-- What `Wait` returns once the leader and both copy goroutines have ended. -/
def waitResult (status : ExitStatus) (s : State) : Option RunError :=
  match status with
  | .exited 0 =>
    if s.expired then some (.other "exec: WaitDelay expired before I/O complete")
    else s.copyError.map .other
  | .exited code => some (.exit code)
  | .signaled signal => some (.signaled signal)

/-- `exitError.ExitCode()` if it is positive, else 1. -/
def RunError.code : RunError → ℕ
  | .exit code => if 0 < code then code else 1
  | _ => 1

/-- The cascade that chooses code and status. -/
def verdict (cancelled : Bool) (runError : Option RunError) (outputFailed feedbackFailed : Bool) : ℕ × String :=
  if feedbackFailed then (1, "error:Redis feedback failed")
  else if outputFailed then (1, "error:Slurm output write failed")
  else if cancelled then (143, "cancelled")
  else match runError with
    | none => (0, "finished")
    | some e => (e.code, "error:workload exited with code " ++ toString e.code)

/-- `outputError`. -/
def State.outputErrors (s : State) : List Err :=
  (s.outlet .stdout).writer.err.toList ++ (s.outlet .stderr).writer.err.toList

def State.outputFailed (s : State) : Bool :=
  (s.outlet .stdout).writer.err.isSome || (s.outlet .stderr).writer.err.isSome

/-- `errors.Join`. -/
def joinErrors (errors : List Err) : Option Err :=
  if errors = [] then none else some (String.intercalate "\n" errors)

/-- What `Run` returns after the last publication. -/
def outcome (code : ℕ) (failure terminalError : Option Err) (s : State) : Main :=
  match failure with
  | some e => .returned code (some ("Redis feedback failed: " ++ e))
  | none =>
    match terminalError with
    | some e => .returned 1 (some ("cannot publish terminal status: " ++ e))
    | none =>
      .returned code (joinErrors ((s.runError.map RunError.text).toList ++ s.outputErrors))

/-- Where the main goroutine goes from the flush of a writer. -/
def afterFlush (x : Stream) (s : State) : State :=
  match x with
  | .stdout => { s with main := .flushing .stderr }
  | .stderr => { s with main := .halting, stopHeartbeat := true }

end Code

/-! ## Steps -/

inductive Label
  /-- `ctx` is cancelled. -/
  | cancel
  /-- The cancellation reaches `workContext`. -/
  | propagate
  | announce (result : Option Err)
  /-- The test of `workContext`, then `command.Start`. -/
  | launch (result : Option Err)
  | beat (timestamp : ℚ) (result : Option Err)
  | tick
  | stopBeating
  /-- The watcher wakes up. -/
  | watch
  | terminated
  /-- A process writes. -/
  | emit (x : Stream) (data : Bytes)
  /-- The last process closes its end. -/
  | close (x : Stream)
  | exit (status : ExitStatus)
  /-- A copy goroutine calls `Write` with the next `n` bytes. -/
  | copy (x : Stream) (n : ℕ) (written : ℕ) (err : Option Err)
  | send (x : Stream) (result : Option Err)
  /-- The pipe is read to its end. -/
  | eof (x : Stream)
  | expire
  /-- The pipe was closed by `Wait`. -/
  | closed (x : Stream)
  | waited
  | drained
  | flush (result : Option Err)
  | halted
  | conclude
  | report (result : Option Err)

def step (s : State) : Label → Option State
  | .cancel => some { s with ctxDone := true }
  | .propagate => if s.ctxDone then some { s with workDone := true } else none
  | .announce result =>
    match s.main with
    | .announcing =>
      match publish (.status "running") result s with
      | (s, some e) => some { s with main := .returned 1 (some ("cannot publish job start: " ++ e)) }
      | (s, none) => some { s with main := .launching, heartbeat := .beating }
    | _ => none
  | .launch result =>
    match s.main with
    | .launching =>
      if s.workDone then
        some { s with runError := some (.other "context canceled"), main := .flushing .stdout }
      else match result with
        | some e => some { s with runError := some (.other e), main := .flushing .stdout }
        | none =>
          some { s with
            started := true
            watcher := .watching
            outlet := fun x => { s.outlet x with copier := .running }
            main := .waiting }
    | _ => none
  | .beat timestamp result =>
    if s.heartbeat = .beating then
      match publish (.heartbeat timestamp) result s with
      | (s, some _) => some { s with heartbeat := .done }
      | (s, none) => some { s with heartbeat := .pausing }
    else none
  | .tick => if s.heartbeat = .pausing then some { s with heartbeat := .beating } else none
  | .stopBeating =>
    if s.heartbeat = .pausing ∧ s.stopHeartbeat then some { s with heartbeat := .done } else none
  | .watch =>
    if s.watcher = .watching then
      if s.workDone then some { s with watcher := .terminating }
      -- the process group is killed
      else if s.processDone then some { s with watcher := .done }
      else none
    else none
  | .terminated => if s.watcher = .terminating then some { s with watcher := .done } else none
  | .emit x data =>
    let o := s.outlet x
    if s.started ∧ o.held then
      some (s.setOutlet x { o with written := o.written ++ data, pending := o.pending ++ data })
    else none
  | .close x => if s.started then some (s.setOutlet x { s.outlet x with held := false }) else none
  | .exit status =>
    if s.started ∧ s.leader.isNone then some { s with leader := some status } else none
  | .copy x n written err =>
    let o := s.outlet x
    if o.copier = .running ∧ o.writer.outbox = [] ∧ o.pending.take n ≠ [] then
      some (receive x (o.pending.take n) written err (s.setOutlet x { o with pending := o.pending.drop n }))
    else none
  | .send x result =>
    match (s.outlet x).copier, (s.outlet x).writer.outbox with
    | .running, c :: rest =>
      let s := (publish (.log x c) result s).1
      some (s.setOutlet x { s.outlet x with writer := { (s.outlet x).writer with outbox := rest } })
    | _, _ => none
  | .eof x =>
    let o := s.outlet x
    if o.copier = .running ∧ o.writer.outbox = [] ∧ o.pending = [] ∧ o.held = false then some (finish x none s)
    else none
  | .expire =>
    match s.main with
    | .waiting =>
      if s.leader.isSome ∧ ¬ s.Copied then some { s with expired := true } else none
    | _ => none
  | .closed x =>
    let o := s.outlet x
    if o.copier = .running ∧ o.writer.outbox = [] ∧ s.expired then
      some (finish x (some "file already closed") s)
    else none
  | .waited =>
    match s.main, s.leader with
    | .waiting, some status =>
      if s.Copied then
        some { s with runError := waitResult status s, processDone := true, main := .draining }
      else none
    | _, _ => none
  | .drained =>
    match s.main, s.watcher with
    | .draining, .done => some { s with main := .flushing .stdout }
    | _, _ => none
  | .flush result =>
    match s.main with
    | .flushing x =>
      let o := s.outlet x
      match Worker.flush o.writer.buffer.bytes with
      | [] => some (afterFlush x s)
      | c :: _ =>
        let s := (publish (.log x c) result s).1
        some (afterFlush x (s.setOutlet x { s.outlet x with
          writer := { (s.outlet x).writer with buffer := Buffer.empty } }))
    | _ => none
  | .halted =>
    match s.main, s.heartbeat with
    | .halting, .done => some { s with main := .concluding }
    | _, _ => none
  | .conclude =>
    match s.main with
    | .concluding =>
      let v := verdict s.ctxDone s.runError s.outputFailed s.publishError.isSome
      some { s with main := .reporting v.1 v.2 s.publishError }
    | _ => none
  | .report result =>
    match s.main with
    | .reporting code status failure =>
      let (s, terminalError) := publish (.status status) result s
      some { s with main := outcome code failure terminalError s }
    | _ => none

def Steps (s : State) (l : Label) (s' : State) : Prop := step s l = some s'

end SlurmManager.Worker
