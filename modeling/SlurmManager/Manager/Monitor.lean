import SlurmManager.Manager.SchedulerCheck
import SlurmManager.Tracking.Heartbeats
import SlurmManager.Tracking.Session

/-!
# Monitor — the heartbeat monitor thread beside everything else

`_heartbeat_monitoring_loop`, one critical section or one query at a time.  Between any two of its steps the
other threads take any step of the session, use the REST client, or set the stop event.

* `Monitor.step`: the loop.  An exception that `_check_slurm_job` does not catch ends the thread (`died`).
* `check_run`: the sections of one check, taken without a break, are `checkSlurmJob`.
* `Turn`: the steps by their outcomes; what follows of a run is proved from these (`Steps.turn`).
-/

namespace SlurmManager

open Program JobTracker

/-! ## The loop -/

/-- Where the monitor thread stands.  `todo` are the jobs still to check in this sweep. -/
inductive Place
  | waiting
  /-- `get_missing_heartbeats` has read the clock. -/
  | reading (now : ℚ)
  | sweeping (todo : List String)
  /-- About to test `done` and to ask the controller. -/
  | querying (jobId : String) (future : FutureRef) (todo : List String)
  /-- The controller has no record. -/
  | accounting (jobId : String) (future : FutureRef) (todo : List String)
  | resolving (jobId : String) (future : FutureRef) (record : Object) (todo : List String)
  | ended
  | died (e : PyError)

structure Monitor (ρ : Type) where
  session : Session
  rest : ρ
  stop : Bool := false
  place : Place := .waiting
  /-- Histories: the jobs selected in all sweeps, and those whose check has returned. -/
  selected : List String := []
  checked : List String := []

namespace Monitor

variable {ρ : Type}

inductive Label (ρ : Type)
  /-- Other threads. -/
  | other (l : SlurmManager.Label)
  | service (rest : ρ)
  | stop
  /-- `wait` returns; if the event is not set, `get_missing_heartbeats` reads the clock. -/
  | wake (now : ℚ)
  | select
  /-- On to the next job of the sweep. -/
  | next (rt : Runtime)
  | query
  | account
  | resolve (rt : Runtime)

section Code

variable (str : Json → String) (client : RestClient ρ)

def setTracker (s : Monitor ρ) (t : JobTracker) : Monitor ρ :=
  { s with session := { s.session with tracker := t } }

def goto (s : Monitor ρ) (place : Place) : Monitor ρ := { s with place := place }

/-- The check of a job returns. -/
def finish (s : Monitor ρ) (jobId : String) (todo : List String) : Monitor ρ :=
  { s with place := .sweeping todo, checked := s.checked ++ [jobId] }

/-- The `except` clause of `_check_slurm_job`. -/
def caught (s : Monitor ρ) (e : PyError) (jobId : String) (todo : List String) : Monitor ρ :=
  if e.type = .slurmRestError ∨ e.type = .valueError then s.finish jobId todo else s.goto (.died e)

/-- One step; `none` when the label does not apply. -/
def step (s : Monitor ρ) : Label ρ → Option (Monitor ρ)
  | .other l => (s.session.step l).map fun t => { s with session := t }
  | .service rest => some { s with rest := rest }
  | .stop => some { s with stop := true }
  | .wake now =>
    match s.place with
    | .waiting => some (s.goto (if s.stop then .ended else .reading now))
    | _ => none
  | .select =>
    match s.place with
    | .reading now =>
      let todo := (s.session.tracker.getMissingHeartbeats now).map fun info => info.jobId
      some { s with place := .sweeping todo, selected := s.selected ++ todo }
    | _ => none
  | .next rt =>
    match s.place with
    | .sweeping [] => some (s.goto .waiting)
    | .sweeping (jobId :: todo) =>
      match (beginSchedulerCheck rt jobId).exec s.session.tracker with
      | (.ok (some future), t) => some ((s.setTracker t).goto (.querying jobId future todo))
      | (.ok none, t) => some ((s.setTracker t).finish jobId todo)
      | (.error e, t) => some ((s.setTracker t).goto (.died e))
    | _ => none
  | .query =>
    match s.place with
    | .querying jobId future todo =>
      let f := s.session.tracker.futures future
      if f.done then some (s.finish jobId todo)
      else
        match (client.getJob f.slurmJobId false).exec s.rest with
        | (.ok (some record), r) => some ({ s with rest := r }.goto (.resolving jobId future record todo))
        | (.ok none, r) => some ({ s with rest := r }.goto (.accounting jobId future todo))
        | (.error e, r) => some ({ s with rest := r }.caught e jobId todo)
    | _ => none
  | .account =>
    match s.place with
    | .accounting jobId future todo =>
      match (client.getJob (s.session.tracker.futures future).slurmJobId true).exec s.rest with
      | (.ok (some record), r) => some ({ s with rest := r }.goto (.resolving jobId future record todo))
      | (.ok none, r) => some ({ s with rest := r }.finish jobId todo)
      | (.error e, r) => some ({ s with rest := r }.caught e jobId todo)
    | _ => none
  | .resolve rt =>
    match s.place with
    | .resolving jobId future record todo =>
      match (applyRecord rt str future record).exec s.session.tracker with
      | (.ok _, t) => some ((s.setTracker t).finish jobId todo)
      | (.error e, t) => some ((s.setTracker t).goto (.died e))
    | _ => none

def Steps (s : Monitor ρ) (l : Label ρ) (s' : Monitor ρ) : Prop := s.step str client l = some s'

end Code

/-! ## One check without a break -/

section Check

variable {str : Json → String} {client : RestClient ρ} {s : Monitor ρ}

/-- The steps of the monitor thread itself. -/
def Label.Own : Label ρ → Prop
  | .other _ | .service _ | .stop => False
  | _ => True

/-- Where the thread stands once the check of a job has ended. -/
def ended (jobId : String) (todo : List String) (r : Except PyError Unit) (m : Managed ρ) (s : Monitor ρ) : Monitor ρ :=
  let s' := { s with session := { s.session with tracker := m.tracker }, rest := m.rest }
  match r with
  | .ok _ => s'.finish jobId todo
  | .error e => s'.goto (.died e)

theorem caught_eq (s : Monitor ρ) (e : PyError) (j : String) (todo : List String) : s.caught e j todo =
    s.ended j todo (if e.type = .slurmRestError ∨ e.type = .valueError then .ok () else .error e)
      ⟨s.session.tracker, s.rest⟩ := by
  unfold caught
  split_ifs <;> rfl

theorem steps_resolve (rt : Runtime) {j : String} {f : FutureRef} {record : Object} {todo : List String}
    (hs : s.place = .resolving j f record todo) {r : Except PyError Unit} {t : JobTracker}
    (h : (applyRecord rt str f record).exec s.session.tracker = (r, t)) :
    s.Steps str client (.resolve rt) (s.ended j todo r ⟨t, s.rest⟩) := by
  simp only [Steps, step, hs, h]
  cases r <;> rfl

/-- The queries and the verdict, taken without a break. -/
theorem query_run (rt : Runtime) {j : String} {f : FutureRef} {todo : List String}
    (hs : s.place = .querying j f todo) (hd : (s.session.tracker.futures f).done = false)
    {r : Except PyError Unit} {m : Managed ρ}
    (h : (checkRecord rt str client f).exec ⟨s.session.tracker, s.rest⟩ = (r, m)) :
    ∃ ls, Run (Steps str client) (fun _ l => l.Own) s ls (s.ended j todo r m) := by
  rw [exec_checkRecord, exec_consult] at h
  have hown : (Label.query : Label ρ).Own ∧ (Label.account : Label ρ).Own ∧ (Label.resolve rt : Label ρ).Own :=
    ⟨trivial, trivial, trivial⟩
  have hquery : ∀ s', s.step str client .query = some s' → s.Steps str client .query s' := fun _ => id
  simp only [step, hs, hd, Bool.false_eq_true, if_false] at hquery
  rcases hc : (client.getJob (s.session.tracker.futures f).slurmJobId false).exec s.rest with ⟨e, r₁⟩
  simp only [hc] at h hquery
  rcases e with e | (_ | record)
  · refine ⟨_, Run.single hown.1 (hquery _ (congrArg some ?_))⟩
    rw [caught_eq]
    by_cases he : e.type = .slurmRestError ∨ e.type = .valueError
    · simp only [if_pos he] at h ⊢
      obtain ⟨rfl, rfl⟩ := Prod.mk.inj h
      rfl
    · simp only [if_neg he] at h ⊢
      obtain ⟨rfl, rfl⟩ := Prod.mk.inj h
      rfl
  · -- the controller has no record
    rcases ha : (client.getJob (s.session.tracker.futures f).slurmJobId true).exec r₁ with ⟨e, r₂⟩
    have haccount : ∀ s', ({ s with rest := r₁ }.goto (.accounting j f todo)).step str client .account = some s' →
        ({ s with rest := r₁ }.goto (.accounting j f todo)).Steps str client .account s' := fun _ => id
    simp only [step, goto, ha] at haccount
    simp only [ha] at h
    rcases e with e | (_ | record)
    · refine ⟨_, Run.cons hown.1 (hquery _ rfl) (Run.single hown.2.1 (haccount _ (congrArg some ?_)))⟩
      rw [caught_eq]
      by_cases he : e.type = .slurmRestError ∨ e.type = .valueError
      · simp only [if_pos he] at h ⊢
        obtain ⟨rfl, rfl⟩ := Prod.mk.inj h
        rfl
      · simp only [if_neg he] at h ⊢
        obtain ⟨rfl, rfl⟩ := Prod.mk.inj h
        rfl
    · obtain ⟨rfl, rfl⟩ := Prod.mk.inj h
      exact ⟨_, Run.cons hown.1 (hquery _ rfl) (Run.single hown.2.1 (haccount _ rfl))⟩
    · obtain ⟨rfl, rfl⟩ := Prod.mk.inj h
      exact ⟨_, Run.cons hown.1 (hquery _ rfl) (Run.cons hown.2.1 (haccount _ rfl)
        (Run.single hown.2.2 (steps_resolve rt rfl rfl)))⟩
  · obtain ⟨rfl, rfl⟩ := Prod.mk.inj h
    exact ⟨_, Run.cons hown.1 (hquery _ rfl) (Run.single hown.2.2 (steps_resolve rt rfl rfl))⟩

/-- **The sections of a check, taken without a break, are the check.** -/
theorem check_run (rt : Runtime) {j : String} {todo : List String} (hs : s.place = .sweeping (j :: todo))
    {r : Except PyError Unit} {m : Managed ρ}
    (h : (checkSlurmJob rt str client j).exec ⟨s.session.tracker, s.rest⟩ = (r, m)) :
    ∃ ls, Run (Steps str client) (fun _ l => l.Own) s ls (s.ended j todo r m) := by
  have hown : (Label.next rt : Label ρ).Own := trivial
  by_cases hactive : ∃ f, s.session.tracker.Active j f
  · obtain ⟨f, hf⟩ := hactive
    rw [exec_checkSlurmJob_active (m := ⟨s.session.tracker, s.rest⟩) rt str hf] at h
    have hnext : s.Steps str client (.next rt)
        ((s.setTracker (s.session.tracker.checked rt j)).goto (.querying j f todo)) := by
      simp only [Steps, step, hs, exec_beginSchedulerCheck_active rt hf]
    obtain ⟨ls, hrun⟩ := query_run rt
      (s := (s.setTracker (s.session.tracker.checked rt j)).goto (.querying j f todo)) rfl hf.2 h
    have he : ((s.setTracker (s.session.tracker.checked rt j)).goto (.querying j f todo)).ended j todo r m =
        s.ended j todo r m := by cases r <;> rfl
    rw [he] at hrun
    exact ⟨_, Run.cons hown hnext hrun⟩
  · push Not at hactive
    rw [exec_checkSlurmJob_inactive (m := ⟨s.session.tracker, s.rest⟩) rt str hactive] at h
    obtain ⟨rfl, rfl⟩ := Prod.mk.inj h
    refine ⟨_, Run.single hown ?_⟩
    simp only [Steps, step, hs, exec_beginSchedulerCheck_inactive rt hactive]
    rfl

end Check

/-! ## What a step can do -/

section Turns

variable {str : Json → String} {client : RestClient ρ} {s s' : Monitor ρ} {l : Label ρ}

/-- The label asks Slurm about the job, its controller or its accounting. -/
inductive Asks (s : Monitor ρ) : Label ρ → String → FutureRef → List String → Bool → Prop
  | controller {j : String} {f : FutureRef} {todo : List String} (hp : s.place = .querying j f todo)
    (hd : (s.session.tracker.futures f).done = false) : Asks s .query j f todo false
  | accounting {j : String} {f : FutureRef} {todo : List String} (hp : s.place = .accounting j f todo) :
    Asks s .account j f todo true

/-- The steps by their outcomes. -/
inductive Turn (str : Json → String) (client : RestClient ρ) (s : Monitor ρ) : Label ρ → Monitor ρ → Prop
  | other {l : SlurmManager.Label} {t : Session} (h : s.session.step l = some t) :
    Turn str client s (.other l) { s with session := t }
  | service (rest : ρ) : Turn str client s (.service rest) { s with rest := rest }
  | stop : Turn str client s .stop { s with stop := true }
  | wake {now : ℚ} (hp : s.place = .waiting) :
    Turn str client s (.wake now) (s.goto (if s.stop then .ended else .reading now))
  | select {now : ℚ} (hp : s.place = .reading now) :
    Turn str client s .select
      (let todo := (s.session.tracker.getMissingHeartbeats now).map fun info => info.jobId
       { s with place := .sweeping todo, selected := s.selected ++ todo })
  | swept {rt : Runtime} (hp : s.place = .sweeping []) : Turn str client s (.next rt) (s.goto .waiting)
  | begun {rt : Runtime} {j : String} {f : FutureRef} {todo : List String} (hp : s.place = .sweeping (j :: todo))
    (hf : s.session.tracker.Active j f) :
    Turn str client s (.next rt) ((s.setTracker (s.session.tracker.checked rt j)).goto (.querying j f todo))
  | skipped {rt : Runtime} {j : String} {todo : List String} (hp : s.place = .sweeping (j :: todo))
    (hno : ∀ f, ¬ s.session.tracker.Active j f) : Turn str client s (.next rt) (s.finish j todo)
  /-- The job has ended since the check began. -/
  | lapsed {j : String} {f : FutureRef} {todo : List String} (hp : s.place = .querying j f todo)
    (hd : (s.session.tracker.futures f).done = true) : Turn str client s .query (s.finish j todo)
  | found {l : Label ρ} {j : String} {f : FutureRef} {todo : List String} {accounting : Bool} {record : Object} {r : ρ}
    (hp : s.Asks l j f todo accounting)
    (hc : (client.getJob (s.session.tracker.futures f).slurmJobId accounting).exec s.rest = (.ok (some record), r)) :
    Turn str client s l ({ s with rest := r }.goto (.resolving j f record todo))
  | unknown {j : String} {f : FutureRef} {todo : List String} {r : ρ} (hp : s.Asks .query j f todo false)
    (hc : (client.getJob (s.session.tracker.futures f).slurmJobId false).exec s.rest = (.ok none, r)) :
    Turn str client s .query ({ s with rest := r }.goto (.accounting j f todo))
  | unrecorded {j : String} {f : FutureRef} {todo : List String} {r : ρ} (hp : s.Asks .account j f todo true)
    (hc : (client.getJob (s.session.tracker.futures f).slurmJobId true).exec s.rest = (.ok none, r)) :
    Turn str client s .account ({ s with rest := r }.finish j todo)
  | raised {l : Label ρ} {j : String} {f : FutureRef} {todo : List String} {accounting : Bool} {e : PyError} {r : ρ}
    (hp : s.Asks l j f todo accounting)
    (hc : (client.getJob (s.session.tracker.futures f).slurmJobId accounting).exec s.rest = (.error e, r)) :
    Turn str client s l ({ s with rest := r }.caught e j todo)
  | resolved {rt : Runtime} {j : String} {f : FutureRef} {record : Object} {todo : List String}
    {r : Except PyError Unit} {t : JobTracker} (hp : s.place = .resolving j f record todo)
    (hc : (applyRecord rt str f record).exec s.session.tracker = (r, t)) :
    Turn str client s (.resolve rt) (s.ended j todo r ⟨t, s.rest⟩)

theorem Steps.turn (hs : s.Steps str client l s') : Turn str client s l s' := by
  unfold Steps step at hs
  cases l with
  | other l =>
    obtain ⟨t, ht, rfl⟩ := Option.map_eq_some_iff.mp hs
    exact .other ht
  | service rest =>
    obtain rfl := Option.some.inj hs
    exact .service rest
  | stop =>
    obtain rfl := Option.some.inj hs
    exact .stop
  | wake now =>
    cases hp : s.place <;> simp only [hp] at hs <;> try contradiction
    obtain rfl := Option.some.inj hs
    exact .wake hp
  | select =>
    cases hp : s.place <;> simp only [hp] at hs <;> try contradiction
    obtain rfl := Option.some.inj hs
    exact .select hp
  | next rt =>
    cases hp : s.place with
    | sweeping todo =>
      cases todo with
      | nil =>
        simp only [hp] at hs
        obtain rfl := Option.some.inj hs
        exact .swept hp
      | cons j todo =>
        rcases exec_beginSchedulerCheck_cases s.session.tracker rt j with ⟨f, hf, hb⟩ | ⟨hno, hb⟩
        · simp only [hp, hb] at hs
          obtain rfl := Option.some.inj hs
          exact .begun hp hf
        · simp only [hp, hb] at hs
          obtain rfl := Option.some.inj hs
          exact .skipped hp hno
    | _ =>
      simp only [hp] at hs
      contradiction
  | query =>
    cases hp : s.place <;> simp only [hp] at hs <;> try contradiction
    rename_i j f todo
    split_ifs at hs with hd
    · obtain rfl := Option.some.inj hs
      exact .lapsed hp hd
    · have hask : s.Asks .query j f todo false := .controller hp (Bool.eq_false_iff.mpr hd)
      rcases hc : (client.getJob (s.session.tracker.futures f).slurmJobId false).exec s.rest with ⟨e, r⟩
      simp only [hc] at hs
      rcases e with e | (_ | record)
      · obtain rfl := Option.some.inj hs
        exact .raised hask hc
      · obtain rfl := Option.some.inj hs
        exact .unknown hask hc
      · obtain rfl := Option.some.inj hs
        exact .found hask hc
  | account =>
    cases hp : s.place <;> simp only [hp] at hs <;> try contradiction
    rename_i j f todo
    rcases hc : (client.getJob (s.session.tracker.futures f).slurmJobId true).exec s.rest with ⟨e, r⟩
    simp only [hc] at hs
    rcases e with e | (_ | record)
    · obtain rfl := Option.some.inj hs
      exact .raised (.accounting hp) hc
    · obtain rfl := Option.some.inj hs
      exact .unrecorded (.accounting hp) hc
    · obtain rfl := Option.some.inj hs
      exact .found (.accounting hp) hc
  | resolve rt =>
    cases hp : s.place <;> simp only [hp] at hs <;> try contradiction
    rename_i j f record todo
    rcases hc : (applyRecord rt str f record).exec s.session.tracker with ⟨r, t⟩
    rw [hc] at hs
    cases r with
    | ok u =>
      obtain rfl := Option.some.inj hs
      exact .resolved hp hc
    | error e =>
      obtain rfl := Option.some.inj hs
      exact .resolved hp hc

end Turns

end Monitor

end SlurmManager
