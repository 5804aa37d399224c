import SlurmManager.Manager.SchedulerRecord
import SlurmManager.Manager.SlurmRestClient
import SlurmManager.Tracking.StatusUpdate
import SlurmManager.Tracking.Frames

/-!
# SchedulerCheck — a missed heartbeat is resolved from the scheduler's records

* `checkSlurmJob`: `_check_slurm_job`, over the tracker and any REST client.
* `checkSlurmJob_cases`: it leaves the tracker alone, stamps it, or applies one status.
* `scheduler_verdicts`: with the client of this repository, a future is moved only by what an error-free
  reply proves, and accounting is asked only when the controller has no record.
-/

namespace SlurmManager

open Program JobTracker

/-- The parts of a `SlurmManager` that the monitor uses. -/
structure Managed (ρ : Type) where
  tracker : JobTracker
  rest : ρ

/-! ## The code -/

section Code

variable {ρ α : Type}

def onTracker (x : Program PyError JobTracker α) : Program PyError (Managed ρ) α :=
  Program.focus (fun m => m.tracker) (fun m t => { m with tracker := t }) x

def onRest (x : Program PyError ρ α) : Program PyError (Managed ρ) α :=
  Program.focus (fun m => m.rest) (fun m r => { m with rest := r }) x

/-- The queries of `_check_slurm_job`: the controller, then accounting.  Errors that the client reports are
logged. -/
def consult (client : RestClient ρ) (slurmJobId : String) : Program PyError ρ (Option Object) :=
  tryCatch
    (do
      match ← client.getJob slurmJobId false with
      | some record => return some record
      | none => client.getJob slurmJobId true)
    fun e => if e.type = .slurmRestError ∨ e.type = .valueError then return none else throw e

/-- `_check_slurm_job` from the record on. -/
def applyRecord (rt : Runtime) (str : Json → String) (future : FutureRef) (record : Object) :
    Program PyError JobTracker Unit :=
  match resolve str record with
  | .error e => throw e
  | .ok none => return ()
  | .ok (some status) => applyStatus rt { status := status } future

/-- `_check_slurm_job` once the future is known to be unfinished. -/
def checkRecord (rt : Runtime) (str : Json → String) (client : RestClient ρ) (future : FutureRef) :
    Program PyError (Managed ρ) Unit := do
  let m ← get
  match ← onRest (consult client (m.tracker.futures future).slurmJobId) with
  | none => return ()
  | some record => onTracker (applyRecord rt str future record)

/-- `_check_slurm_job`. -/
def checkSlurmJob (rt : Runtime) (str : Json → String) (client : RestClient ρ) (jobId : String) :
    Program PyError (Managed ρ) Unit := do
  match ← onTracker (beginSchedulerCheck rt jobId) with
  | none => return ()
  | some future =>
    let m ← get
    if (m.tracker.futures future).done then return ()
    else checkRecord rt str client future

end Code

/-! ## The start of a check -/

namespace JobTracker

variable {s : JobTracker}

/-- The tracker once a check of the job is recorded. -/
def checked (rt : Runtime) (jobId : String) (s : JobTracker) : JobTracker :=
  { s with
    subscriptionsByTopic := s.subscriptionsByTopic.modify (topicOf jobId .heartbeat) fun b =>
      b.mapValues fun _ info =>
        if info.lastHeartbeat.isSome then { info with lastSchedulerCheck := some rt.time } else info }

/-- The job is tracked, and its future is not done. -/
def Active (s : JobTracker) (jobId : String) (f : FutureRef) : Prop :=
  s.futureRegistry.get? jobId = some f ∧ (s.futures f).done = false

theorem exec_beginSchedulerCheck_active (rt : Runtime) {j : String} {f : FutureRef} (h : s.Active j f) :
    (beginSchedulerCheck rt j).exec s = (.ok (some f), s.checked rt j) := by
  obtain ⟨hr, hd⟩ := h
  simp [beginSchedulerCheck, Program.exec_bind, Program.exec_map, Except.map, hr, hd, checked]

theorem exec_beginSchedulerCheck_inactive (rt : Runtime) {j : String} (h : ∀ f, ¬ s.Active j f) :
    (beginSchedulerCheck rt j).exec s = (.ok none, s) := by
  cases hr : s.futureRegistry.get? j with
  | none => simp [beginSchedulerCheck, Program.exec_bind, hr]
  | some f =>
    have hd : (s.futures f).done = true := by
      by_contra hd
      exact h f ⟨hr, by simpa using hd⟩
    simp [beginSchedulerCheck, Program.exec_bind, hr, hd]

theorem exec_beginSchedulerCheck_cases (s : JobTracker) (rt : Runtime) (j : String) :
    (∃ f, s.Active j f ∧ (beginSchedulerCheck rt j).exec s = (.ok (some f), s.checked rt j)) ∨
      ((∀ f, ¬ s.Active j f) ∧ (beginSchedulerCheck rt j).exec s = (.ok none, s)) := by
  by_cases h : ∃ f, s.Active j f
  · obtain ⟨f, hf⟩ := h
    exact Or.inl ⟨f, hf, exec_beginSchedulerCheck_active rt hf⟩
  · push Not at h
    exact Or.inr ⟨h, exec_beginSchedulerCheck_inactive rt h⟩

/-- The futures after an `apply_status`, however it ends. -/
theorem futures_applyStatus (rt : Runtime) (m : StatusMessage) {f : FutureRef} (hd : (s.futures f).done = false) :
    ((applyStatus rt m f).after s).futures = (s.accept rt m f).futures := by
  unfold after
  by_cases ht : (decoded rt m).terminal = true
  · rw [exec_applyStatus_terminal rt m f hd ht]
    exact congrArg (fun x => x.2.1) (frame_discardJob rt (s.futures f).jobId (s.accept rt m f))
  · rw [exec_applyStatus_running rt m f hd (by simpa using ht)]

/-! ## The statuses of a check -/

theorem decoded_value (rt : Runtime) {m : StatusMessage} {st : JobStatus} (h : m.status = st.value) :
    decoded rt m = st := by
  have hs : splitColon m.status = (st.value, none) := by
    rw [h]
    cases st <;> decide
  exact congrArg (fun d => d.2.1) (decodeStatus_of_ofValue? rt hs (JobStatus.ofValue?_value st))

theorem decoded_error (rt : Runtime) {m : StatusMessage} {rest : String} (h : m.status = "error:" ++ rest) :
    decoded rt m = .error := by
  have hc : "error:" = "error" ++ ":" := by decide
  have hs : splitColon m.status = ("error", some rest) := by
    rw [h, hc]
    exact splitColon_append (by decide) rest
  exact congrArg (fun d => d.2.1) (decodeStatus_of_ofValue? rt hs (JobStatus.ofValue?_value .error))

end JobTracker

/-! ## What a check does -/

section Check

variable {ρ : Type} {m : Managed ρ} {client : RestClient ρ}

theorem exec_checkRecord (rt : Runtime) (str : Json → String) (f : FutureRef) :
    (checkRecord rt str client f).exec m =
      match (consult client (m.tracker.futures f).slurmJobId).exec m.rest with
      | (.error e, r) => (.error e, { m with rest := r })
      | (.ok none, r) => (.ok (), { m with rest := r })
      | (.ok (some record), r) =>
        (((applyRecord rt str f record).exec m.tracker).1, ⟨((applyRecord rt str f record).exec m.tracker).2, r⟩) := by
  rcases hc : (consult client (m.tracker.futures f).slurmJobId).exec m.rest with ⟨e, r⟩
  cases e with
  | error e => simp [checkRecord, Program.exec_bind, onRest, hc]
  | ok record? => cases record? <;> simp [checkRecord, Program.exec_bind, onRest, onTracker, hc]

theorem exec_checkSlurmJob_inactive (rt : Runtime) (str : Json → String) {j : String}
    (h : ∀ f, ¬ m.tracker.Active j f) : (checkSlurmJob rt str client j).exec m = (.ok (), m) := by
  simp [checkSlurmJob, Program.exec_bind, onTracker, exec_beginSchedulerCheck_inactive rt h]

theorem exec_checkSlurmJob_active (rt : Runtime) (str : Json → String) {j : String} {f : FutureRef}
    (h : m.tracker.Active j f) : (checkSlurmJob rt str client j).exec m =
      (checkRecord rt str client f).exec { m with tracker := m.tracker.checked rt j } := by
  have hd : ((m.tracker.checked rt j).futures f).done = false := h.2
  simp [checkSlurmJob, Program.exec_bind, onTracker, exec_beginSchedulerCheck_active rt h, hd]

theorem exec_consult (slurmJobId : String) (r : ρ) : (consult client slurmJobId).exec r =
    match (client.getJob slurmJobId false).exec r with
    | (.ok (some record), r) => (.ok (some record), r)
    | (.ok none, r) =>
      match (client.getJob slurmJobId true).exec r with
      | (.ok record?, r) => (.ok record?, r)
      | (.error e, r) => (if e.type = .slurmRestError ∨ e.type = .valueError then .ok none else .error e, r)
    | (.error e, r) => (if e.type = .slurmRestError ∨ e.type = .valueError then .ok none else .error e, r) := by
  have hcatch : ∀ (e : PyError) (r : ρ),
      (if e.type = .slurmRestError ∨ e.type = .valueError then return none
        else throw e : Program PyError ρ (Option Object)).exec r =
      (if e.type = .slurmRestError ∨ e.type = .valueError then .ok none else .error e, r) := by
    intro e r
    rw [Program.exec_ite]
    split_ifs <;> rfl
  unfold consult
  rw [Program.exec_tryCatch, Program.exec_bind]
  rcases (client.getJob slurmJobId false).exec r with ⟨e, r₁⟩
  rcases e with e | (_ | record)
  · exact hcatch e r₁
  · dsimp only
    rcases (client.getJob slurmJobId true).exec r₁ with ⟨e, r₂⟩
    cases e with
    | error e => exact hcatch e r₂
    | ok record? => rfl
  · rfl

end Check

/-! ## The queries -/

namespace SlurmRestClient

variable {c : SlurmRestClient} {jobId : String}

/-- The record that a check may go by: the controller's, or that of accounting when the controller has
none. -/
def Consulted (c : SlurmRestClient) (record : Object) : Prop :=
  c.ErrorFree (c.outcome c.requests) record ∨
    (c.NoRecord (c.outcome c.requests) ∧ c.ErrorFree (c.outcome (c.requests + 1)) record)

/-- Accounting is asked only when the controller has no record. -/
theorem consult_cases (c : SlurmRestClient) (jobId : String) : ∃ r n q,
    (consult slurmRestClient jobId).exec c = (r, { c with requests := c.requests + n, sent := c.sent ++ q }) ∧
    (∀ x ∈ q, x.url = c.jobUrl jobId false ∨ (x.url = c.jobUrl jobId true ∧ c.NoRecord (c.outcome c.requests))) ∧
    ∀ record, r = .ok (some record) → c.Consulted record := by
  have hcaught : ∀ (e : PyError) (record : Object), (if e.type = .slurmRestError ∨ e.type = .valueError then .ok none
      else .error e : Except PyError (Option Object)) ≠ .ok (some record) := by
    intro e record
    split_ifs <;> simp
  obtain ⟨r, n, q, hget, hq, -, hok⟩ := getJob_cases c jobId false
  have hget' : (slurmRestClient.getJob jobId false).exec c = _ := hget
  cases r with
  | error e =>
    refine ⟨_, n, q, ?_, fun x hx => Or.inl (hq x hx), fun record hr => absurd hr (hcaught e record)⟩
    rw [exec_consult, hget']
  | ok record? =>
    obtain ⟨rfl, hnone, hsome⟩ := hok record? rfl
    cases record? with
    | some record =>
      refine ⟨.ok (some record), 1, q, ?_, fun x hx => Or.inl (hq x hx), fun record' hr => ?_⟩
      · rw [exec_consult, hget']
      · exact Or.inl (hsome record' (Except.ok.inj hr))
    | none =>
      obtain ⟨r, n, q', hget₂, hq', -, hok'⟩ :=
        getJob_cases { c with requests := c.requests + 1, sent := c.sent ++ q } jobId true
      have hget₂' : (slurmRestClient.getJob jobId true).exec _ = _ := hget₂
      have hsent : ∀ x ∈ q ++ q', x.url = c.jobUrl jobId false ∨
          (x.url = c.jobUrl jobId true ∧ c.NoRecord (c.outcome c.requests)) := by
        intro x hx
        rcases List.mem_append.mp hx with hx | hx
        · exact Or.inl (hq x hx)
        · exact Or.inr ⟨hq' x hx, hnone rfl⟩
      cases r with
      | error e =>
        refine ⟨_, 1 + n, q ++ q', ?_, hsent, fun record hr => absurd hr (hcaught e record)⟩
        rw [exec_consult, hget']
        simp only [hget₂', Nat.add_assoc, List.append_assoc]
      | ok record? =>
        obtain ⟨rfl, -, hsome'⟩ := hok' record? rfl
        refine ⟨.ok record?, 2, q ++ q', ?_, hsent, fun record hr => ?_⟩
        · rw [exec_consult, hget']
          simp only [hget₂', Nat.add_assoc, List.append_assoc, Nat.reduceAdd]
        · exact Or.inr ⟨hnone rfl, hsome' record (Except.ok.inj hr)⟩

end SlurmRestClient

/-! ## Verdicts -/

/-- What a record has to prove for a future to get this status. -/
inductive Proves (str : Json → String) (record : Object) : JobStatus → Prop
  | finished (h : ProvesSuccess record) : Proves str record .finished
  | cancelled (h : Shows record "CANCELLED") : Proves str record .cancelled
  | error (h : ProvesFailure str record) : Proves str record .error

theorem Verdict.proves {str : Json → String} {record : Object} {status : String}
    (h : Verdict str record (some status)) (rt : Runtime) :
    Proves str record (decoded rt { status := status }) := by
  cases h with
  | success h =>
    rw [show decoded rt { status := JobStatus.finished.value } = .finished from decoded_value rt rfl]
    exact Proves.finished h
  | cancelled h =>
    rw [show decoded rt { status := JobStatus.cancelled.value } = .cancelled from decoded_value rt rfl]
    exact Proves.cancelled h
  | failure text h =>
    have he : "error:Slurm state " ++ text = "error:" ++ ("Slurm state " ++ text) := by
      rw [← String.append_assoc]
      rfl
    rw [decoded_error rt he]
    exact Proves.error h

/-- **Scheduler verdicts are sound.**  Whenever a check of a job returns:

* A future that it has changed is the unfinished future of that job, and its new status is what a record
  proves that came in an error-free reply.
* When there is no such record, or it proves nothing, the tracker is as before, but for the time stamp of
  the check.
* Accounting has been asked only if the controller had no record. -/
theorem scheduler_verdicts (rt : Runtime) (m m' : Managed SlurmRestClient) (jobId : String)
    (h : (checkSlurmJob rt m.rest.texts.str slurmRestClient jobId).exec m = (.ok (), m')) :
    (∀ f, m'.tracker.futures f ≠ m.tracker.futures f → m.tracker.Active jobId f ∧
      ∃ record, m.rest.Consulted record ∧ Proves m.rest.texts.str record (m'.tracker.futures f).status) ∧
    ((∀ record, m.rest.Consulted record → ProvesNothing m.rest.texts.str record) →
      m'.tracker = m.tracker ∨ m'.tracker = m.tracker.checked rt jobId) ∧
    ∃ q, m'.rest.sent = m.rest.sent ++ q ∧ ∀ f, m.tracker.Active jobId f → ∀ x ∈ q,
      x.url = m.rest.jobUrl (m.tracker.futures f).slurmJobId true → m.rest.NoRecord (m.rest.outcome m.rest.requests) := by
  by_cases hactive : ∃ f, m.tracker.Active jobId f
  · obtain ⟨f, hf⟩ := hactive
    rw [exec_checkSlurmJob_active rt _ hf, exec_checkRecord] at h
    obtain ⟨r, n, q, hq, hurl, hrec⟩ := SlurmRestClient.consult_cases m.rest (m.tracker.futures f).slurmJobId
    have hq' : (consult slurmRestClient ((m.tracker.checked rt jobId).futures f).slurmJobId).exec m.rest = _ := hq
    simp only [hq'] at h
    have hunique : ∀ g, m.tracker.Active jobId g → g = f := fun g hg =>
      Option.some.inj (hg.1.symm.trans hf.1)
    have hasked : ∀ g, m.tracker.Active jobId g → ∀ x ∈ q,
        x.url = m.rest.jobUrl (m.tracker.futures g).slurmJobId true →
          m.rest.NoRecord (m.rest.outcome m.rest.requests) := by
      intro g hg x hx hxurl
      rw [hunique g hg] at hxurl
      rcases hurl x hx with hfalse | ⟨-, hno⟩
      · exact absurd (hfalse.symm.trans hxurl) SlurmRestClient.jobUrl_ne
      · exact hno
    rcases r with e | (_ | record)
    · -- the `RecursionError` of a response leaves the check
      simp at h
    · obtain ⟨-, rfl⟩ := Prod.mk.inj h
      exact ⟨fun g hg => absurd rfl hg, fun _ => Or.inr rfl, q, rfl, hasked⟩
    · simp only [applyRecord] at h
      cases hres : resolve m.rest.texts.str record with
      | error e =>
        simp only [hres] at h
        simp at h
      | ok status? =>
        have hv := resolve_sound hres
        simp only [hres] at h
        cases status? with
        | none =>
          obtain ⟨-, rfl⟩ := Prod.mk.inj h
          exact ⟨fun g hg => absurd rfl hg, fun _ => Or.inr rfl, q, rfl, hasked⟩
        | some status =>
          obtain ⟨-, rfl⟩ := Prod.mk.inj h
          have hd : ((m.tracker.checked rt jobId).futures f).done = false := hf.2
          have hfut := futures_applyStatus rt { status := status } hd
          refine ⟨fun g hg => ?_, fun hnothing => ?_, q, rfl, hasked⟩
          · have hgf : g = f := by
              by_contra hne
              exact hg ((congrFun hfut g).trans (accept_futures_ne rt _ f hne))
            subst hgf
            refine ⟨hf, record, hrec record rfl, ?_⟩
            have hst : (((applyStatus rt { status := status } g).exec (m.tracker.checked rt jobId)).2.futures g).status
                = decoded rt { status := status } := by
              refine (congrArg JobFuture.status (congrFun hfut g)).trans ?_
              rw [accept_futures_self, JobFuture.status_updateStatus _ _ hd]
            rw [hst]
            exact hv.proves rt
          · exact absurd (hnothing record (hrec record rfl)) hv.not_nothing
  · push Not at hactive
    rw [exec_checkSlurmJob_inactive rt _ hactive] at h
    obtain ⟨-, rfl⟩ := Prod.mk.inj h
    exact ⟨fun g hg => absurd rfl hg, fun _ => Or.inl rfl, [], by simp, by simp⟩

section Example

/-- A structured record of a job that ended with the exit code `n`. -/
def endedRecord (n : ℤ) : Object :=
  [("job_state", .array [.string "COMPLETED"]),
    ("exit_code", .object [("return_code", .object [("set", .bool true), ("number", .int n)]),
      ("signal", .object [("id", .object [("set", .bool false), ("number", .int 9)])])])]

/-- One tracked job, and a service that answers every request with one record. -/
def answering (record : Object) : Managed SlurmRestClient where
  tracker := {
    subClient := { pubsub := { failure := fun _ _ => none } }
    futureRegistry := Dict.single "j" 0
    futures := fun _ => JobFuture.new "j" "7" }
  rest := {
    url := "http://slurm"
    apiVersion := "v0.0.44"
    texts := ⟨fun _ => "", fun _ => true, fun _ => .value (.object [("jobs", .array [.object record])])⟩
    credentials := fun _ => ⟨"token", ""⟩
    outcome := fun _ => .reply [123, 125] }

def still : Runtime := ⟨1, "", fun _ => "", id, fun _ => List.Perm.refl _⟩

/-- The controller reports success. -/
theorem scheduler_verdicts_of_success : ∃ m' : Managed SlurmRestClient,
    (checkSlurmJob still (fun _ => "") slurmRestClient "j").exec (answering (endedRecord 0)) = (.ok (), m') ∧
    (m'.tracker.futures 0).status = .finished ∧
    ∃ record, (answering (endedRecord 0)).rest.Consulted record ∧ Proves (fun _ => "") record .finished := by
  have hok : (checkSlurmJob still (fun _ => "") slurmRestClient "j").exec (answering (endedRecord 0)) =
      (.ok (), ((checkSlurmJob still (fun _ => "") slurmRestClient "j").exec (answering (endedRecord 0))).2) := rfl
  have hst : ((((checkSlurmJob still (fun _ => "") slurmRestClient "j").exec
      (answering (endedRecord 0))).2).tracker.futures 0).status = .finished := rfl
  obtain ⟨hmoved, -, -⟩ := scheduler_verdicts still (answering (endedRecord 0)) _ "j" hok
  obtain ⟨-, record, hrec, hp⟩ := hmoved 0 fun heq => by
    rw [heq] at hst
    contradiction
  rw [hst] at hp
  exact ⟨_, hok, hst, record, hrec, hp⟩

end Example

end SlurmManager
