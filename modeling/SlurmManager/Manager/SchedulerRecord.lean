import SlurmManager.Manager.Json
import SlurmManager.Tracking.JobTracker

/-!
# SchedulerRecord — what a scheduler record says about a job

The part of `_check_slurm_job` between the queries and the status update, with `_job_exit_code`.  The
record comes from an external service; nothing but its being an object has been validated.  `str` gives
the text of a value in an f-string.

* `resolve`: the status to apply, `none` if the record proves nothing, or the exception.
* `Walkable`, `resolve_ok_iff`: the records that raise nothing.
* `resolve_finished`, `resolve_cancelled`, `resolve_error`: what the record says when it decides.
-/

namespace SlurmManager

/-! ## The code -/

section Code

/-- `terminal`. -/
def terminalStates : List String :=
  ["COMPLETED", "CANCELLED", "FAILED", "TIMEOUT", "OUT_OF_MEMORY", "NODE_FAIL", "BOOT_FAIL", "DEADLINE",
    "PREEMPTED", "REVOKED"]

/-- `state`, once a structured one is replaced by its `current`. -/
def stateValue (record : Object) : Json :=
  match Object.get record "job_state" (Object.get record "state" (.array [])) with
  | .object fields => Object.get fields "current" (.array [])
  | state => state

/-- `states`, as the items that the search below walks through. -/
def states (record : Object) : Except PyError (List Json) :=
  match stateValue record with
  | .string text => .ok [.string text]
  | state => if state.truthy then state.iterate else .ok []

/-- `next((value for value in states if value in terminal), None)`. -/
def firstTerminal : List Json → Except PyError (Option String)
  | [] => .ok none
  | value :: rest => do
    value.hash
    match value with
    | .string text => if text ∈ terminalStates then return some text else firstTerminal rest
    | _ => firstTerminal rest

/-- `code` of `_job_exit_code`, for an exit status of any shape. -/
def returnCode : Json → Json
  | .object fields =>
    match Object.get fields "return_code" with
    | .object code => if (Object.get code "set").truthy then Object.get code "number" else .null
    | code => code
  | exitCode => exitCode

/-- `signal` of `_job_exit_code`. -/
def signal (exitCode : Object) : Except PyError Json := do
  match ← (Object.get exitCode "signal" (.object [])).get "id" (.object []) with
  | .object id => return if (Object.get id "set").truthy then Object.get id "number" (.int 0) else .int 0
  | signal => return signal

/-- `_job_exit_code`. -/
def jobExitCode (str : Json → String) : Json → Except PyError Json
  | .object fields => do
    let signal ← signal fields
    return if signal.truthy then .string ("signal " ++ str signal) else returnCode (.object fields)
  | exitCode => return exitCode

/-- The status for a first terminal state and a decoded exit code.  A partial accounting record is not
proof of failure. -/
def statusText (str : Json → String) (state : String) (exitCode : Json) : Option String :=
  if state = "COMPLETED" ∧ exitCode.isZero then some JobStatus.finished.value
  else if state = "CANCELLED" then some JobStatus.cancelled.value
  else if state = "COMPLETED" ∧ exitCode.isNull then none
  else some ("error:Slurm state " ++ state ++ ", exit code " ++ str exitCode)

/-- `_check_slurm_job` from the record on. -/
def resolve (str : Json → String) (record : Object) : Except PyError (Option String) :=
  if record.isEmpty then return none
  else do
    match ← firstTerminal (← states record) with
    | none => return none
    | some state =>
      let exitCode ← jobExitCode str (Object.get record "exit_code")
      return statusText str state exitCode

end Code

/-! ## The first terminal state -/

/-- The value is one of the terminal states. -/
def Json.Terminal (v : Json) : Prop := ∃ text ∈ terminalStates, v = .string text

/-- The first terminal state among the items. -/
def First (items : List Json) (state : String) : Prop :=
  ∃ pre post, items = pre ++ .string state :: post ∧ state ∈ terminalStates ∧ ∀ v ∈ pre, ¬ v.Terminal

/-- No list and no object stands in front of the first terminal state. -/
def Scannable (items : List Json) : Prop :=
  ∀ pre v post, items = pre ++ v :: post → (∀ w ∈ pre, ¬ w.Terminal) → v.Hashable

theorem Json.Terminal.hashable {v : Json} (h : v.Terminal) : v.Hashable := by
  obtain ⟨text, -, rfl⟩ := h
  trivial

theorem not_first_nil {state : String} : ¬ First [] state := by
  rintro ⟨pre, post, h, -⟩
  simp at h

theorem first_cons_terminal {text : String} (ht : text ∈ terminalStates) {rest : List Json} {state : String} :
    First (.string text :: rest) state ↔ state = text := by
  constructor
  · rintro ⟨pre, post, h, hs, hpre⟩
    cases pre with
    | nil =>
      obtain ⟨hv, -⟩ := List.cons.inj h
      exact (Json.string.inj hv).symm
    | cons v pre =>
      obtain ⟨hv, -⟩ := List.cons.inj h
      exact absurd ⟨text, ht, hv.symm⟩ (hpre v (by simp))
  · rintro rfl
    exact ⟨[], rest, rfl, ht, by simp⟩

theorem first_cons_other {v : Json} (hv : ¬ v.Terminal) {rest : List Json} {state : String} :
    First (v :: rest) state ↔ First rest state := by
  constructor
  · rintro ⟨pre, post, h, hs, hpre⟩
    cases pre with
    | nil =>
      obtain ⟨rfl, -⟩ := List.cons.inj h
      exact absurd ⟨state, hs, rfl⟩ hv
    | cons w pre =>
      obtain ⟨-, ht⟩ := List.cons.inj h
      exact ⟨pre, post, ht, hs, fun u hu => hpre u (List.mem_cons_of_mem _ hu)⟩
  · rintro ⟨pre, post, rfl, hs, hpre⟩
    refine ⟨v :: pre, post, rfl, hs, fun u hu => ?_⟩
    rcases List.mem_cons.mp hu with rfl | hu
    · exact hv
    · exact hpre u hu

theorem scannable_cons_terminal {v : Json} (hv : v.Terminal) (rest : List Json) : Scannable (v :: rest) := by
  intro pre w post h hpre
  cases pre with
  | nil =>
    obtain ⟨rfl, -⟩ := List.cons.inj h
    exact hv.hashable
  | cons u pre =>
    obtain ⟨rfl, -⟩ := List.cons.inj h
    exact absurd hv (hpre _ (by simp))

theorem scannable_cons_other {v : Json} (hv : ¬ v.Terminal) {rest : List Json} :
    Scannable (v :: rest) ↔ v.Hashable ∧ Scannable rest := by
  constructor
  · intro h
    refine ⟨h [] v rest rfl (by simp), fun pre w post hr hpre => ?_⟩
    refine h (v :: pre) w post (by rw [hr]; rfl) fun u hu => ?_
    rcases List.mem_cons.mp hu with rfl | hu
    · exact hv
    · exact hpre u hu
  · rintro ⟨hh, hr⟩ pre w post h hpre
    cases pre with
    | nil =>
      obtain ⟨rfl, -⟩ := List.cons.inj h
      exact hh
    | cons u pre =>
      obtain ⟨-, ht⟩ := List.cons.inj h
      exact hr pre w post ht fun x hx => hpre x (List.mem_cons_of_mem _ hx)

theorem first_unique {items : List Json} {state state' : String} (h : First items state) (h' : First items state') :
    state = state' := by
  induction items with
  | nil => exact absurd h not_first_nil
  | cons v rest ih =>
    by_cases hv : v.Terminal
    · obtain ⟨text, ht, rfl⟩ := hv
      rw [first_cons_terminal ht] at h h'
      rw [h, h']
    · rw [first_cons_other hv] at h h'
      exact ih h h'

/-- **The search finds the first terminal state**, or there is none. -/
theorem firstTerminal_spec {items : List Json} (h : Scannable items) : ∃ r, firstTerminal items = .ok r ∧
    ∀ state, r = some state ↔ First items state := by
  induction items with
  | nil => exact ⟨none, rfl, fun state => by simp [not_first_nil]⟩
  | cons v rest ih =>
    by_cases hv : v.Terminal
    · obtain ⟨text, ht, rfl⟩ := hv
      refine ⟨some text, by simp [firstTerminal, Json.hash, ht], fun state => ?_⟩
      rw [first_cons_terminal ht, Option.some.injEq, eq_comm]
    · obtain ⟨hh, hr⟩ := (scannable_cons_other hv).mp h
      obtain ⟨r, hr, hspec⟩ := ih hr
      refine ⟨r, ?_, fun state => (hspec state).trans (first_cons_other hv).symm⟩
      cases v with
      | string text =>
        have ht : text ∉ terminalStates := fun ht => hv ⟨text, ht, rfl⟩
        simp [firstTerminal, Json.hash, ht, hr]
      | array items => exact hh.elim
      | object fields => exact hh.elim
      | _ => simp [firstTerminal, Json.hash, hr]

theorem scannable_of_firstTerminal {items : List Json} {r : Option String} (h : firstTerminal items = .ok r) :
    Scannable items := by
  induction items with
  | nil =>
    intro pre v post hn
    simp at hn
  | cons v rest ih =>
    by_cases hv : v.Terminal
    · exact scannable_cons_terminal hv rest
    · rw [scannable_cons_other hv]
      cases v with
      | string text =>
        have ht : text ∉ terminalStates := fun ht => hv ⟨text, ht, rfl⟩
        refine ⟨trivial, ih ?_⟩
        simpa [firstTerminal, Json.hash, ht] using h
      | array items => contradiction
      | object fields => contradiction
      | _ =>
        refine ⟨trivial, ih ?_⟩
        simpa [firstTerminal, Json.hash] using h

/-! ## Records that raise nothing -/

/-- The first terminal state that a record shows. -/
def Shows (record : Object) (state : String) : Prop := ∃ items, states record = .ok items ∧ First items state

/-- The records that `_check_slurm_job` can walk through.  The states are a text, a list, an object or
falsy; no list and no object stands in front of the first terminal state; and if there is one, the
`signal` of a structured exit code, if any, is an object. -/
structure Walkable (record : Object) : Prop where
  iterable : (stateValue record).truthy = true → (stateValue record).IsSequence
  scannable : ∀ items, stateValue record = .array items → Scannable items
  signal : ∀ state, Shows record state → ∀ fields, Object.get record "exit_code" = .object fields →
    ∀ v, fields.lookup "signal" = some v → v.IsObject

/-- The items that a value lists as states. -/
theorem states_cases {record : Object} {items : List Json} (h : states record = .ok items) :
    stateValue record = .array items ∨ ∀ v ∈ items, ∃ text, v = .string text := by
  unfold states at h
  cases hv : stateValue record with
  | array l =>
    rw [hv] at h
    cases l with
    | nil => exact Or.inl (by rw [← Except.ok.inj h])
    | cons v l => exact Or.inl (by rw [← Except.ok.inj h])
  | string text =>
    rw [hv] at h
    right
    rw [← Except.ok.inj h]
    intro v hmem
    exact ⟨text, List.mem_singleton.mp hmem⟩
  | object fields =>
    right
    rw [hv] at h
    cases fields with
    | nil =>
      rw [← Except.ok.inj h]
      nofun
    | cons e fields =>
      rw [← Except.ok.inj h]
      intro v hmem
      obtain ⟨e', -, rfl⟩ := List.mem_map.mp hmem
      exact ⟨e'.1, rfl⟩
  | null | bool b | int n | float x =>
    right
    rw [hv] at h
    simp only [Json.iterate] at h
    split_ifs at h
    rw [← Except.ok.inj h]
    nofun

theorem states_ok_iff {record : Object} : (∃ items, states record = .ok items) ↔
    ((stateValue record).truthy = true → (stateValue record).IsSequence) := by
  unfold states
  cases stateValue record with
  | string text => simp [Json.IsSequence]
  | array items => cases items <;> simp [Json.truthy, Json.iterate, Json.IsSequence]
  | object fields => cases fields <;> simp [Json.truthy, Json.iterate, Json.IsSequence]
  | null => simp [Json.truthy]
  | bool b => cases b <;> simp [Json.truthy, Json.iterate, Json.IsSequence]
  | int n => by_cases hn : n = 0 <;> simp [Json.truthy, Json.iterate, Json.IsSequence, hn]
  | float x => by_cases hx : x = .finite 0 <;> simp [Json.truthy, Json.iterate, Json.IsSequence, hx]

theorem scannable_of_strings {items : List Json} (h : ∀ v ∈ items, ∃ text, v = .string text) :
    Scannable items := by
  intro pre v post hi _
  obtain ⟨text, rfl⟩ := h v (by simp [hi])
  trivial

theorem signal_ok_iff {fields : Object} :
    (∃ r, signal fields = .ok r) ↔ ∀ v, fields.lookup "signal" = some v → v.IsObject := by
  have hget : (∃ r, signal fields = .ok r) ↔ (Object.get fields "signal" (.object [])).IsObject := by
    rw [← Json.get_ok_iff _ "id" (.object [])]
    unfold signal
    cases (Object.get fields "signal" (.object [])).get "id" (.object []) with
    | error e => simp
    | ok r => cases r <;> simp
  rw [hget]
  unfold Object.get
  cases fields.lookup "signal" with
  | none => simp [Json.IsObject]
  | some v => simp

theorem jobExitCode_ok_iff (str : Json → String) {e : Json} : (∃ r, jobExitCode str e = .ok r) ↔
    ∀ fields, e = .object fields → ∀ v, fields.lookup "signal" = some v → v.IsObject := by
  cases e with
  | object fields =>
    have hsignal : (∃ r, jobExitCode str (.object fields) = .ok r) ↔ ∃ r, signal fields = .ok r := by
      cases hs : signal fields <;> simp [jobExitCode, hs]
    rw [hsignal, signal_ok_iff]
    simp
  | _ => simp [jobExitCode]

/-- **Exactly these records are walked through.** -/
theorem resolve_ok_iff (str : Json → String) (record : Object) :
    (∃ r, resolve str record = .ok r) ↔ Walkable record := by
  by_cases hempty : record.isEmpty = true
  · have hnil : record = [] := List.isEmpty_iff.mp hempty
    subst hnil
    have hw : Walkable [] := by
      refine ⟨nofun, fun items hi => ?_, ?_⟩
      · rw [← Json.array.inj hi]
        exact scannable_of_strings nofun
      · rintro state ⟨items, hi, hf⟩
        rw [← Except.ok.inj hi] at hf
        exact absurd hf not_first_nil
    exact ⟨fun _ => hw, fun _ => ⟨none, rfl⟩⟩
  · have hresolve : resolve str record = (states record >>= fun items => firstTerminal items >>= fun r =>
        match r with
        | none => .ok none
        | some state => jobExitCode str (Object.get record "exit_code") >>= fun e =>
          .ok (statusText str state e)) := by
      simp [resolve, hempty]
    rw [hresolve]
    constructor
    · rintro ⟨r, hr⟩
      obtain ⟨items, hi, hr⟩ := Except.bind_eq_ok.mp hr
      obtain ⟨first, hf, hr⟩ := Except.bind_eq_ok.mp hr
      have hscan := scannable_of_firstTerminal hf
      obtain ⟨first', hf', hspec⟩ := firstTerminal_spec hscan
      obtain rfl : first = first' := Except.ok.inj (hf.symm.trans hf')
      refine ⟨states_ok_iff.mp ⟨items, hi⟩, fun l hl => ?_, fun state hshow => ?_⟩
      · rcases states_cases hi with h | h
        · obtain rfl := Json.array.inj (hl.symm.trans h)
          exact hscan
        · unfold states at hi
          rw [hl] at hi
          cases l with
          | nil => exact scannable_of_strings nofun
          | cons v l =>
            rw [← Except.ok.inj hi] at hscan
            exact hscan
      · obtain ⟨items', hi', hfirst⟩ := hshow
        obtain rfl : items = items' := Except.ok.inj (hi.symm.trans hi')
        rw [(hspec state).mpr hfirst] at hr
        obtain ⟨e, he, -⟩ := Except.bind_eq_ok.mp hr
        exact (jobExitCode_ok_iff str).mp ⟨e, he⟩
    · intro hw
      obtain ⟨items, hi⟩ := states_ok_iff.mpr hw.iterable
      have hscan : Scannable items := by
        rcases states_cases hi with h | h
        · exact hw.scannable items h
        · exact scannable_of_strings h
      obtain ⟨first, hf, hspec⟩ := firstTerminal_spec hscan
      rw [hi, Except.ok_bind, hf, Except.ok_bind]
      cases first with
      | none => exact ⟨none, rfl⟩
      | some state =>
        have hshow : Shows record state := ⟨items, hi, (hspec state).mp rfl⟩
        obtain ⟨e, he⟩ := (jobExitCode_ok_iff str).mpr (hw.signal state hshow)
        exact ⟨statusText str state e, by simp only [he, Except.ok_bind]⟩

/-! ## What a record proves -/

/-- The value is a number other than 0. -/
def Json.Nonzero (v : Json) : Prop := (∃ n, v = .int n ∧ n ≠ 0) ∨ ∃ x, v = .float x ∧ x ≠ .finite 0

theorem Json.Nonzero.truthy {v : Json} (h : v.Nonzero) : v.truthy = true := by
  rcases h with ⟨n, rfl, hn⟩ | ⟨x, rfl, hx⟩
  · simp [Json.truthy, hn]
  · simp [Json.truthy, hx]

/-- The `id` of the signal is a number other than 0, plain or structured. -/
inductive SignalId : Json → Prop
  | plain {number : Json} (hne : number.Nonzero) : SignalId number
  | structured {id : Object} {number : Json} (hset : (Object.get id "set").truthy = true)
      (hnum : id.lookup "number" = some number) (hne : number.Nonzero) : SignalId (.object id)

/-- The exit status names a signal with a number other than 0. -/
def SignalSet (exitCode : Json) : Prop :=
  ∃ fields sig id, exitCode = .object fields ∧ fields.lookup "signal" = some (.object sig) ∧
    sig.lookup "id" = some id ∧ SignalId id

theorem signal_of_signalSet {exitCode : Json} (h : SignalSet exitCode) :
    ∃ fields number, exitCode = .object fields ∧ signal fields = .ok number ∧ number.truthy = true := by
  obtain ⟨fields, sig, id, rfl, hsig, hid, hnumber⟩ := h
  have hget : (Object.get fields "signal" (.object [])).get "id" (.object []) = .ok id := by
    simp [Object.get, Json.get, hsig, hid]
  cases hnumber with
  | plain hne =>
    refine ⟨fields, id, rfl, ?_, hne.truthy⟩
    rcases hne with ⟨n, rfl, -⟩ | ⟨x, rfl, -⟩ <;> simp [signal, hget]
  | @structured id number hset hnum hne =>
    have hnum' : Object.get id "number" (.int 0) = number := by simp [Object.get, hnum]
    exact ⟨fields, number, rfl, by simp [signal, hget, hset, hnum'], hne.truthy⟩

/-- An exit code of 0 is the plain return code, and no signal is set. -/
theorem jobExitCode_zero {str : Json → String} {exitCode e : Json} (h : jobExitCode str exitCode = .ok e)
    (hz : e.isZero = true) : (returnCode exitCode).isZero = true ∧ ¬ SignalSet exitCode := by
  cases exitCode with
  | object fields =>
    obtain ⟨number, hs, hr⟩ := Except.bind_eq_ok.mp h
    by_cases ht : number.truthy = true
    · rw [if_pos ht] at hr
      rw [← Except.ok.inj hr] at hz
      contradiction
    · rw [if_neg ht] at hr
      rw [← Except.ok.inj hr] at hz
      refine ⟨hz, fun hset => ht ?_⟩
      obtain ⟨fields', number', heq, hs', ht'⟩ := signal_of_signalSet hset
      obtain rfl := Json.object.inj heq
      obtain rfl : number = number' := Except.ok.inj (hs.symm.trans hs')
      exact ht'
  | _ =>
    obtain rfl := Except.ok.inj h
    refine ⟨hz, ?_⟩
    rintro ⟨fields, -, -, heq, -⟩
    contradiction

/-- The record proves that its job ended with exit code 0. -/
def ProvesSuccess (record : Object) : Prop :=
  Shows record "COMPLETED" ∧ (returnCode (Object.get record "exit_code")).isZero = true ∧
    ¬ SignalSet (Object.get record "exit_code")

/-- The record proves that its job failed: another terminal state, or `COMPLETED` with an exit code that is
present and not 0. -/
def ProvesFailure (str : Json → String) (record : Object) : Prop :=
  (∃ state, Shows record state ∧ state ≠ "COMPLETED" ∧ state ≠ "CANCELLED") ∨
    (Shows record "COMPLETED" ∧ ∃ e, jobExitCode str (Object.get record "exit_code") = .ok e ∧
      e.isNull = false ∧ e.isZero = false)

/-- The record proves nothing: no terminal state, or `COMPLETED` without an exit code. -/
def ProvesNothing (str : Json → String) (record : Object) : Prop :=
  (∀ state, ¬ Shows record state) ∨
    (Shows record "COMPLETED" ∧ ∃ e, jobExitCode str (Object.get record "exit_code") = .ok e ∧ e.isNull = true)

/-- The status that a record leads to. -/
inductive Verdict (str : Json → String) (record : Object) : Option String → Prop
  | success (h : ProvesSuccess record) : Verdict str record (some JobStatus.finished.value)
  | cancelled (h : Shows record "CANCELLED") : Verdict str record (some JobStatus.cancelled.value)
  | failure (text : String) (h : ProvesFailure str record) : Verdict str record (some ("error:Slurm state " ++ text))
  | nothing (h : ProvesNothing str record) : Verdict str record none

/-- **The status says what the record proves.** -/
theorem resolve_sound {str : Json → String} {record : Object} {r : Option String}
    (h : resolve str record = .ok r) : Verdict str record r := by
  have hnone : (∀ state, ¬ Shows record state) → r = none → Verdict str record r := by
    rintro hn rfl
    exact Verdict.nothing (Or.inl hn)
  unfold resolve at h
  split_ifs at h with hempty
  · have hnil : record = [] := List.isEmpty_iff.mp hempty
    subst hnil
    refine hnone ?_ (Except.ok.inj h).symm
    rintro state ⟨items, hi, hf⟩
    rw [← Except.ok.inj hi] at hf
    exact not_first_nil hf
  · obtain ⟨items, hi, h⟩ := Except.bind_eq_ok.mp h
    obtain ⟨first, hf, h⟩ := Except.bind_eq_ok.mp h
    obtain ⟨first', hf', hspec⟩ := firstTerminal_spec (scannable_of_firstTerminal hf)
    obtain rfl : first = first' := Except.ok.inj (hf.symm.trans hf')
    cases first with
    | none =>
      refine hnone ?_ (Except.ok.inj h).symm
      rintro state ⟨items', hi', hfirst⟩
      obtain rfl : items = items' := Except.ok.inj (hi.symm.trans hi')
      exact absurd ((hspec state).mpr hfirst) (by simp)
    | some state =>
      have hshow : Shows record state := ⟨items, hi, (hspec state).mp rfl⟩
      obtain ⟨e, he, h⟩ := Except.bind_eq_ok.mp h
      rw [← Except.ok.inj h]
      unfold statusText
      split_ifs with hz hc hn
      · obtain ⟨rfl, hz⟩ := hz
        exact Verdict.success ⟨hshow, jobExitCode_zero he hz⟩
      · rw [hc] at hshow
        exact Verdict.cancelled hshow
      · obtain ⟨rfl, hn⟩ := hn
        exact Verdict.nothing (Or.inr ⟨hshow, e, he, hn⟩)
      · rw [String.append_assoc, String.append_assoc]
        refine Verdict.failure _ ?_
        by_cases hs : state = "COMPLETED"
        · subst hs
          refine Or.inr ⟨hshow, e, he, ?_, ?_⟩
          · simpa using hn
          · simpa using hz
        · exact Or.inl ⟨state, hshow, hs, hc⟩

theorem Shows.unique {record : Object} {state state' : String} (h : Shows record state) (h' : Shows record state') :
    state = state' := by
  obtain ⟨items, hi, hf⟩ := h
  obtain ⟨items', hi', hf'⟩ := h'
  obtain rfl : items = items' := Except.ok.inj (hi.symm.trans hi')
  exact first_unique hf hf'

/-- What proves something does not prove nothing. -/
theorem Verdict.not_nothing {str : Json → String} {record : Object} {status : String}
    (h : Verdict str record (some status)) : ¬ ProvesNothing str record := by
  rintro (hno | ⟨hshow, e, he, hnull⟩)
  · cases h with
    | success h => exact hno _ h.1
    | cancelled h => exact hno _ h
    | failure text h =>
      rcases h with ⟨state, hs, -⟩ | ⟨hs, -⟩
      · exact hno _ hs
      · exact hno _ hs
  · cases h with
    | success h =>
      have hz : (returnCode (Object.get record "exit_code")).isZero = true := h.2.1
      revert he hz
      cases Object.get record "exit_code" with
      | object fields =>
        intro he hz
        obtain ⟨number, -, hr⟩ := Except.bind_eq_ok.mp he
        split_ifs at hr with ht
        · rw [← Except.ok.inj hr] at hnull
          contradiction
        · rw [Except.ok.inj hr] at hz
          cases e <;> contradiction
      | _ =>
        intro he hz
        rw [← Except.ok.inj he] at hnull
        contradiction
    | cancelled h => exact absurd (h.unique hshow) (by decide)
    | failure text h =>
      rcases h with ⟨state, hs, hne, -⟩ | ⟨-, e', he', hn, -⟩
      · exact hne (hs.unique hshow)
      · obtain rfl : e = e' := Except.ok.inj (he.symm.trans he')
        rw [hnull] at hn
        contradiction

end SlurmManager
