import SlurmManager.Manager.Json
import SlurmManager.Lib.Program

/-!
# SlurmRestClient — authenticated requests to slurmrestd

`slurm_rest_client.py`.  The connection is an oracle: `outcome n` is how the n-th request of the client
ends, `credentials n` what its settings are then (the dotenv file is read again for every request).  `sent`
lists the requests that went out.

* `answer`: what `request` makes of a raw outcome.
* `RestClient`: the operations that the manager uses; `slurmRestClient` is this module's.
* `Raises`: the errors that an operation lets out; besides the expected ones the `RecursionError` of a body
  that is nested too deeply (`Deep`).
* `ErrorFree`, `NoRecord`: the raw outcomes for which `get_job` gives a record, and none (`getJob_cases`).
-/

namespace SlurmManager

abbrev RawBytes := List UInt8

/-- What the code takes from Python about texts. -/
structure Texts where
  /-- The text of a value in an f-string. -/
  str : Json → String
  isdigit : String → Bool
  /-- `json.loads`. -/
  loads : RawBytes → Loaded

/-- The part of `_settings` that a request reads. -/
structure Credentials where
  jwt : String
  user : String

structure HttpRequest where
  method : String
  url : String
  headers : List (String × String)
  data : Option Json

/-- How `open` and `read` end. -/
inductive RawOutcome
  | reply (raw : RawBytes)
  /-- `HTTPError`; reading its body may raise. -/
  | httpError (code : ℕ) (body : Option RawBytes)
  /-- `URLError`, `OSError`, `TimeoutError` or `HTTPException`. -/
  | failed

structure SlurmRestClient where
  url : String
  apiVersion : String
  texts : Texts
  credentials : ℕ → Credentials
  outcome : ℕ → RawOutcome
  requests : ℕ := 0
  sent : List HttpRequest := []

namespace SlurmRestClient

/-! ## The code -/

section Code

def restError (text : String) : PyError := ⟨.slurmRestError, text⟩

def invalidJobID : ℤ := 2017

/-- An invalid-job-ID error. -/
def unknownJob (error : Json) : Bool :=
  match error.asObject? with
  | none => false
  | some fields => (Object.get fields "error_number").equals invalidJobID

/-- `_missing_job`. -/
def missingJob (result : Object) : Bool :=
  match Object.get result "errors" with
  | .array errors => !errors.isEmpty && errors.all unknownJob
  | _ => false

/-- `isinstance(error_body, dict) and _missing_job(error_body)`. -/
def missingBody (body : Json) : Bool :=
  match body.asObject? with
  | none => false
  | some result => missingJob result

/-- `_headers`. -/
def headers (settings : Credentials) : Except PyError (List (String × String)) :=
  if settings.jwt = "" then .error ⟨.valueError, "Set SLURM_JWT in the local .env file or environment"⟩
  else .ok ([("X-SLURM-USER-TOKEN", settings.jwt), ("Accept", "application/json")] ++
    if settings.user = "" then [] else [("X-SLURM-USER-NAME", settings.user)])

/-- `error_body`: read and decoded only when a missing job is allowed. -/
def errorBody (loads : RawBytes → Loaded) (missingOk : Bool) (body : Option RawBytes) : Except PyError Json :=
  match if missingOk then body else none with
  | none => .ok (.object [])
  | some raw => (loads raw).orElse (.ok (.object []))

/-- `json.loads(raw) if raw else {}`. -/
def replyBody (loads : RawBytes → Loaded) (raw : RawBytes) : Except PyError Json :=
  if raw = [] then .ok (.object []) else (loads raw).orElse (.error (restError "Slurm REST returned invalid JSON"))

/-- `request` from the raw outcome on. -/
def answer (loads : RawBytes → Loaded) (method : String) (missingOk : Bool) :
    RawOutcome → Except PyError Object
  | .failed => .error (restError ("Slurm REST " ++ method ++ " failed (connection or timeout)"))
  | .httpError code body =>
    -- slurmrestd may use HTTP 500 for a purged controller job
    match errorBody loads missingOk body with
    | .error e => .error e
    | .ok errorBody =>
      if missingOk ∧ (code = 404 ∨ ((code = 400 ∨ code = 500) ∧ missingBody errorBody)) then .ok []
      else .error (restError ("Slurm REST " ++ method ++ " failed (HTTP " ++ toString code ++ ")"))
  | .reply raw =>
    match replyBody loads raw with
    | .error e => .error e
    | .ok (.object result) =>
      if (Object.get result "errors").truthy then
        if missingOk ∧ missingJob result then .ok []
        else .error (restError "Slurm REST reported an application error")
      else .ok result
    | .ok _ => .error (restError "Slurm REST returned an invalid response")

/-- `request`. -/
def request (method path : String) (payload : Option Json) (missingOk : Bool) :
    Program PyError SlurmRestClient Object := do
  let c ← get
  set { c with requests := c.requests + 1 }
  match headers (c.credentials c.requests) with
  | .error e => throw e
  | .ok headers =>
    let headers := if payload.isSome then headers ++ [("Content-Type", "application/json")] else headers
    modify fun c => { c with sent := c.sent ++ [⟨method, c.url ++ "/" ++ path, headers, payload⟩] }
    match answer c.texts.loads method missingOk (c.outcome c.requests) with
    | .error e => throw e
    | .ok result => return result

/-- `_job_path`. -/
def jobPath (c : SlurmRestClient) (jobId : String) (accounting : Bool) : Except PyError String :=
  if c.texts.isdigit jobId then
    .ok ((if accounting then "slurmdb" else "slurm") ++ "/" ++ c.apiVersion ++ "/job/" ++ jobId)
  else .error ⟨.valueError, "Slurm job ID must be numeric"⟩

/-- The record that `get_job` picks from a response. -/
def firstJob (result : Object) : Except PyError (Option Object) :=
  let jobs := Object.get result "jobs"
  match if jobs.truthy then jobs else .array [] with
  | .array jobs =>
    match jobs.mapM Json.asObject? with
    | none => .error (restError "Slurm REST returned invalid job records")
    | some records => .ok records.head?
  | _ => .error (restError "Slurm REST returned invalid job records")

/-- A computation that needs no state. -/
def lift {α : Type} (x : Except PyError α) : Program PyError SlurmRestClient α :=
  match x with
  | .ok a => return a
  | .error e => throw e

/-- `get_job`. -/
def getJob (jobId : String) (accounting : Bool) : Program PyError SlurmRestClient (Option Object) := do
  let path ← lift (jobPath (← get) jobId accounting)
  let result ← request "GET" path none true
  lift (firstJob result)

/-- `submit`. -/
def submit (script : String) (job : Object) : Program PyError SlurmRestClient Object := do
  let c ← get
  let result ← request "POST" ("slurm/" ++ c.apiVersion ++ "/job/submit")
    (some (.object [("script", .string script), ("job", .object job)])) false
  if c.texts.isdigit (c.texts.str (Object.get result "job_id" (.string ""))) then return result
  else throw (restError "Slurm REST submission did not return a job ID")

/-- `release`. -/
def release (jobId : String) : Program PyError SlurmRestClient Unit := do
  let path ← lift (jobPath (← get) jobId false)
  let _ ← request "POST" path (some (.object [("hold", .bool false)])) false

/-- `cancel`. -/
def cancel (jobId : String) : Program PyError SlurmRestClient Unit := do
  let path ← lift (jobPath (← get) jobId false)
  let _ ← request "DELETE" path none false

end Code

end SlurmRestClient

/-- What the manager uses of a REST client with the state `ρ`. -/
structure RestClient (ρ : Type) where
  submit : String → Object → Program PyError ρ Object
  release : String → Program PyError ρ Unit
  cancel : String → Program PyError ρ Unit
  getJob : String → Bool → Program PyError ρ (Option Object)

def slurmRestClient : RestClient SlurmRestClient where
  submit := SlurmRestClient.submit
  release := SlurmRestClient.release
  cancel := SlurmRestClient.cancel
  getJob := SlurmRestClient.getJob

namespace SlurmRestClient

/-! ## What `get_job` makes of a raw outcome -/

section GetJob

variable {c : SlurmRestClient} {jobId : String} {accounting : Bool}

/-- An error-free JSON reply whose first record is `record`. -/
def ErrorFree (c : SlurmRestClient) (o : RawOutcome) (record : Object) : Prop :=
  ∃ raw result rest, o = .reply raw ∧ raw ≠ [] ∧ c.texts.loads raw = .value (.object result) ∧
    (Object.get result "errors").truthy = false ∧ Object.get result "jobs" = .array (.object record :: rest)

/-- The outcome shows no record: an empty reply, an unknown job, or a response without jobs. -/
def NoRecord (c : SlurmRestClient) (o : RawOutcome) : Prop :=
  ∃ result, answer c.texts.loads "GET" true o = .ok result ∧ firstJob result = .ok none

/-- The URL of a query. -/
def jobUrl (c : SlurmRestClient) (jobId : String) (accounting : Bool) : String :=
  c.url ++ "/" ++ ((if accounting then "slurmdb" else "slurm") ++ "/" ++ c.apiVersion ++ "/job/" ++ jobId)

theorem jobUrl_ne : c.jobUrl jobId false ≠ c.jobUrl jobId true := by
  intro h
  have hl := congrArg String.toList h
  simp [jobUrl, String.toList_append] at hl

theorem firstJob_some {result record : Object} (h : firstJob result = .ok (some record)) :
    ∃ rest, Object.get result "jobs" = .array (.object record :: rest) := by
  unfold firstJob at h
  by_cases ht : (Object.get result "jobs").truthy = true
  · simp only [if_pos ht] at h
    cases hj : Object.get result "jobs" with
    | array jobs =>
      rw [hj] at h
      cases jobs with
      | nil => simp at h
      | cons v rest =>
        cases hv : v.asObject? with
        | none => simp [hv] at h
        | some o =>
          cases hr : rest.mapM Json.asObject? with
          | none => simp [hv, hr] at h
          | some records =>
            obtain rfl : o = record := by simpa [hv, hr] using h
            exact ⟨rest, by rw [Json.asObject?_eq_some.mp hv]⟩
    | _ =>
      rw [hj] at h
      simp at h
  · simp [if_neg ht] at h

theorem loads_of_replyBody {raw : RawBytes} {v : Json} (hraw : raw ≠ [])
    (h : replyBody c.texts.loads raw = .ok v) : c.texts.loads raw = .value v := by
  rw [replyBody, if_neg hraw] at h
  cases hl : c.texts.loads raw with
  | value w =>
    rw [hl] at h
    rw [Except.ok.inj h]
  | valueError =>
    rw [hl] at h
    contradiction
  | tooDeep =>
    rw [hl] at h
    contradiction

/-- A record comes from an error-free reply. -/
theorem errorFree_of_answer {o : RawOutcome} {result record : Object}
    (ha : answer c.texts.loads "GET" true o = .ok result) (hr : firstJob result = .ok (some record)) :
    c.ErrorFree o record := by
  obtain ⟨rest, hj⟩ := firstJob_some hr
  have hne : result ≠ [] := by
    rintro rfl
    simp [Object.get] at hj
  cases o with
  | failed => contradiction
  | httpError code body =>
    simp only [answer] at ha
    split at ha
    · contradiction
    · split_ifs at ha
      exact absurd (Except.ok.inj ha).symm hne
  | reply raw =>
    simp only [answer] at ha
    split at ha
    · contradiction
    · rename_i res hres
      split_ifs at ha with herr hmiss
      · exact absurd (Except.ok.inj ha).symm hne
      · obtain rfl := Except.ok.inj ha
        by_cases hraw : raw = []
        · rw [replyBody, if_pos hraw] at hres
          obtain rfl := Json.object.inj (Except.ok.inj hres)
          exact absurd rfl hne
        · exact ⟨raw, res, rest, rfl, hraw, loads_of_replyBody hraw hres, by simpa using herr, hj⟩
    · contradiction

/-- The errors that are reported as such. -/
def Expected (e : PyError) : Prop := e.type = .slurmRestError ∨ e.type = .valueError

/-- `json.loads` raises `RecursionError` for some response. -/
def Deep (c : SlurmRestClient) : Prop := ∃ raw, c.texts.loads raw = .tooDeep

/-- What the operations of the client raise. -/
def Raises (c : SlurmRestClient) (e : PyError) : Prop := Expected e ∨ e = PyError.tooDeep ∧ c.Deep

theorem exec_lift {α : Type} (x : Except PyError α) : (lift x).exec c = (x, c) := by
  cases x <;> rfl

theorem expected_restError (text : String) : Expected (restError text) := Or.inl rfl

theorem raises_orElse {raw : RawBytes} {other : Except PyError Json} {e : PyError}
    (hother : ∀ e, other = .error e → Expected e) (h : (c.texts.loads raw).orElse other = .error e) :
    c.Raises e := by
  cases hl : c.texts.loads raw with
  | value v =>
    rw [hl] at h
    contradiction
  | valueError =>
    rw [hl] at h
    exact Or.inl (hother e h)
  | tooDeep =>
    rw [hl] at h
    exact Or.inr ⟨(Except.error.inj h).symm, raw, hl⟩

theorem raises_errorBody {missingOk : Bool} {body : Option RawBytes} {e : PyError}
    (h : errorBody c.texts.loads missingOk body = .error e) : c.Raises e := by
  unfold errorBody at h
  split at h
  · contradiction
  · exact raises_orElse (fun _ he => absurd he (by simp)) h

theorem raises_replyBody {raw : RawBytes} {e : PyError} (h : replyBody c.texts.loads raw = .error e) :
    c.Raises e := by
  unfold replyBody at h
  split_ifs at h
  exact raises_orElse (fun e he => Except.error.inj he ▸ expected_restError _) h

theorem raises_answer {method : String} {ok : Bool} {o : RawOutcome} {e : PyError}
    (h : answer c.texts.loads method ok o = .error e) : c.Raises e := by
  have hrest : ∀ {text}, (.error (restError text) : Except PyError Object) = .error e → c.Raises e :=
    fun he => Or.inl (Except.error.inj he ▸ expected_restError _)
  cases o with
  | failed => exact hrest h
  | httpError code body =>
    simp only [answer] at h
    split at h
    · rename_i e' hbody
      exact Except.error.inj h ▸ raises_errorBody hbody
    · split_ifs at h
      exact hrest h
  | reply raw =>
    simp only [answer] at h
    split at h
    · rename_i e' hbody
      exact Except.error.inj h ▸ raises_replyBody hbody
    · split_ifs at h
      exact hrest h
    · exact hrest h

theorem expected_firstJob {result : Object} {e : PyError} (h : firstJob result = .error e) : Expected e := by
  left
  unfold firstJob at h
  simp only at h
  split at h
  · split at h
    · rw [← Except.error.inj h]; rfl
    · contradiction
  · rw [← Except.error.inj h]; rfl

/-- A request whose token is missing is not sent. -/
theorem exec_request (method path : String) (payload : Option Json) (ok : Bool) : ∃ r q,
    (request method path payload ok).exec c = (r, { c with requests := c.requests + 1, sent := c.sent ++ q }) ∧
    (∀ x ∈ q, x.url = c.url ++ "/" ++ path) ∧ (∀ e, r = .error e → c.Raises e) ∧
    ∀ result, r = .ok result → answer c.texts.loads method ok (c.outcome c.requests) = .ok result := by
  cases hh : headers (c.credentials c.requests) with
  | error e =>
    refine ⟨.error e, [], ?_, by simp, ?_, by simp⟩
    · simp [request, Program.exec_bind, hh]
    · intro e' he'
      obtain rfl := Except.error.inj he'
      unfold headers at hh
      split_ifs at hh
      rw [← Except.error.inj hh]
      exact Or.inl (Or.inr rfl)
  | ok hs =>
    refine ⟨answer c.texts.loads method ok (c.outcome c.requests), [⟨method, c.url ++ "/" ++ path,
      if payload.isSome then hs ++ [("Content-Type", "application/json")] else hs, payload⟩], ?_, by simp,
      fun e => raises_answer, fun _ => id⟩
    cases ha : answer c.texts.loads method ok (c.outcome c.requests) <;>
      simp [request, Program.exec_bind, Program.exec_map, Except.map, hh, ha]

/-- How `get_job` ends, and what it sends. -/
theorem getJob_cases (c : SlurmRestClient) (jobId : String) (accounting : Bool) : ∃ r n q,
    (getJob jobId accounting).exec c = (r, { c with requests := c.requests + n, sent := c.sent ++ q }) ∧
    (∀ x ∈ q, x.url = c.jobUrl jobId accounting) ∧ (∀ e, r = .error e → c.Raises e) ∧
    ∀ record?, r = .ok record? → n = 1 ∧ (record? = none → c.NoRecord (c.outcome c.requests)) ∧
      ∀ record, record? = some record → c.ErrorFree (c.outcome c.requests) record := by
  cases hp : jobPath c jobId accounting with
  | error e =>
    refine ⟨.error e, 0, [], ?_, by simp, ?_, by simp⟩
    · simp [getJob, Program.exec_bind, exec_lift, hp]
    · intro e' he'
      obtain rfl := Except.error.inj he'
      unfold jobPath at hp
      split_ifs at hp
      rw [← Except.error.inj hp]
      exact Or.inl (Or.inr rfl)
  | ok path =>
    have hurl : c.url ++ "/" ++ path = c.jobUrl jobId accounting := by
      unfold jobPath at hp
      split_ifs at hp with hd ha
      · rw [← Except.ok.inj hp, ha]
        rfl
      · rw [← Except.ok.inj hp, Bool.eq_false_iff.mpr ha]
        rfl
    obtain ⟨r, q, hreq, hq, herr, hok⟩ := exec_request (c := c) "GET" path none true
    cases r with
    | error e =>
      refine ⟨.error e, 1, q, ?_, by rwa [← hurl], fun e' he' => herr e' ?_, by simp⟩
      · simp [getJob, Program.exec_bind, exec_lift, hp, hreq]
      · rw [← Except.error.inj he']
    | ok result =>
      refine ⟨firstJob result, 1, q, ?_, by rwa [← hurl], fun _ he => Or.inl (expected_firstJob he),
        fun record? hr => ⟨rfl, ?_, ?_⟩⟩
      · simp [getJob, Program.exec_bind, exec_lift, hp, hreq]
      · rintro rfl
        exact ⟨result, hok result rfl, hr⟩
      · rintro record rfl
        exact errorFree_of_answer (hok result rfl) hr

theorem raises_cancel (c : SlurmRestClient) (jobId : String) {e : PyError} {c' : SlurmRestClient}
    (h : (cancel jobId).exec c = (.error e, c')) : c.Raises e := by
  cases hp : jobPath c jobId false with
  | error e' =>
    have he : (cancel jobId).exec c = (.error e', c) := by simp [cancel, Program.exec_bind, exec_lift, hp]
    obtain rfl := Except.error.inj (Prod.mk.inj (he.symm.trans h)).1
    unfold jobPath at hp
    split_ifs at hp
    rw [← Except.error.inj hp]
    exact Or.inl (Or.inr rfl)
  | ok path =>
    obtain ⟨r, q, hreq, -, herr, -⟩ := exec_request (c := c) "DELETE" path none false
    cases r with
    | error e' =>
      refine herr e ?_
      simp [cancel, Program.exec_bind, Program.exec_map, Except.map, exec_lift, hp, hreq] at h
      rw [h.1]
    | ok result => simp [cancel, Program.exec_bind, Program.exec_map, Except.map, exec_lift, hp, hreq] at h

end GetJob

end SlurmRestClient

end SlurmManager
