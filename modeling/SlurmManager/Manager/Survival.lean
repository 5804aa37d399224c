import SlurmManager.Manager.Monitor

/-!
# Survival — when one job's record ends the monitoring of all

A record that cannot be walked through raises in `_check_slurm_job`, outside its `try`.  Nothing else does.

* `Documented`: what the manager relies on of a REST client.  `slurmRestClient_documented`.
* `checkSlurmJob_ok_iff`: exactly when a check returns.
* `monitor_survives_iff`: with records that can be walked through, the thread ends only after the stop event,
  and every selected job is checked.
-/

namespace SlurmManager

open Program JobTracker

/-- In the states in `good`, which it does not leave, `get_job` raises nothing but `SlurmRestError` and
`ValueError`. -/
structure RestClient.Documented {ρ : Type} (client : RestClient ρ) (good : ρ → Prop) : Prop where
  expected : ∀ {jobId accounting r e r'}, good r →
    (client.getJob jobId accounting).exec r = (.error e, r') → SlurmRestClient.Expected e
  kept : ∀ {jobId accounting r x r'}, good r → (client.getJob jobId accounting).exec r = (x, r') → good r'

/-- The client of this repository is, but for a response that nests too deeply. -/
theorem slurmRestClient_documented : slurmRestClient.Documented fun c => ¬ c.Deep where
  expected {jobId accounting c e c'} hc h := by
    obtain ⟨r, n, q, hget, -, hraises, -⟩ := SlurmRestClient.getJob_cases c jobId accounting
    have hr : r = .error e := (Prod.mk.inj (hget.symm.trans h)).1
    rcases hraises e hr with he | ⟨-, hdeep⟩
    · exact he
    · exact absurd hdeep hc
  kept {jobId accounting c x c'} hc h := by
    obtain ⟨r, n, q, hget, -⟩ := SlurmRestClient.getJob_cases c jobId accounting
    have hc' : { c with requests := c.requests + n, sent := c.sent ++ q } = c' := (Prod.mk.inj (hget.symm.trans h)).2
    exact hc' ▸ hc

/-! ## Cleaning up -/

section Cleanup

theorem RedisSubClient.succeeds_unsubscribeTopic {χ : Type} (t : Topic) :
    Succeeds (fun c : RedisSubClient χ => c.pubsub.UnsubscribeOk) (unsubscribeTopic t) := by
  refine Succeeds.get_bind fun c => Succeeds.bind (succeeds_modify fun _ => id) fun _ => ?_
  split
  · exact succeeds_pure _
  · split
    · exact succeeds_pure _
    · refine Succeeds.bind (succeeds_modify fun _ => id) fun _ => Succeeds.bind (fun d hd => ?_) fun _ => succeeds_pure _
      have hout : (d.pubsub.record (.unsubscribe t)).UnsubscribeOk := hd
      exact ⟨(), { d with pubsub := d.pubsub.record (.unsubscribe t) },
        by rw [exec_send, Pubsub.outcome_unsubscribe hd], hout⟩

namespace JobTracker

/-- No UNSUBSCRIBE of the tracker's client raises. -/
def CleansUp (s : JobTracker) : Prop := s.subClient.pubsub.UnsubscribeOk

theorem succeeds_dropTopic (t : Topic) : Succeeds CleansUp (dropTopic t) :=
  Succeeds.bind (succeeds_modify fun _ => id) fun _ =>
    Succeeds.bind (succeeds_focus (RedisSubClient.succeeds_unsubscribeTopic t) (fun _ => id) fun _ _ _ => id)
      fun _ => succeeds_pure _

theorem succeeds_discardJob (rt : Runtime) (j : String) : Succeeds CleansUp (discardJob rt j) :=
  Succeeds.get_bind fun _ => Succeeds.bind (succeeds_modify fun _ => id) fun _ =>
    Succeeds.bind (succeeds_forM succeeds_dropTopic) fun _ => succeeds_modify fun _ => id

/-- `apply_status` raises nothing of its own. -/
theorem succeeds_applyStatus (rt : Runtime) (m : StatusMessage) (f : FutureRef) :
    Succeeds CleansUp (applyStatus rt m f) := by
  unfold applyStatus
  obtain ⟨m', st, x⟩ := decodeStatus rt m
  refine Succeeds.get_bind fun s => ?_
  dsimp only
  split
  · exact succeeds_pure _
  · refine Succeeds.bind (succeeds_modify fun _ => id) fun _ => Succeeds.bind (succeeds_modify fun _ => id) fun _ =>
      Succeeds.bind (succeeds_modify fun _ => id) fun _ => Succeeds.bind (succeeds_modify fun _ => id) fun _ => ?_
    split
    · exact succeeds_discardJob rt _
    · exact succeeds_pure _

theorem applyRecord_ok_iff (rt : Runtime) (str : Json → String) (f : FutureRef) (record : Object) {s : JobTracker}
    (hs : s.CleansUp) : (∃ t, (applyRecord rt str f record).exec s = (.ok (), t)) ↔ Walkable record := by
  rw [← resolve_ok_iff str record]
  unfold applyRecord
  cases hr : resolve str record with
  | error e => simp
  | ok status? =>
    cases status? with
    | none => simp
    | some status =>
      obtain ⟨_, t, he, -⟩ := succeeds_applyStatus rt { status := status } f s hs
      exact ⟨fun _ => ⟨_, rfl⟩, fun _ => ⟨t, he⟩⟩

end JobTracker

end Cleanup

/-! ## One check -/

section Check

variable {ρ : Type} {client : RestClient ρ} {good : ρ → Prop} (hclient : client.Documented good)
include hclient

theorem consult_ok (slurmJobId : String) {r : ρ} (hr : good r) :
    ∃ record? r', (consult client slurmJobId).exec r = (.ok record?, r') := by
  rw [exec_consult]
  rcases hc : (client.getJob slurmJobId false).exec r with ⟨e, r₁⟩
  rcases e with e | (_ | record)
  · exact ⟨none, r₁, by simp only [if_pos (show e.type = .slurmRestError ∨ e.type = .valueError from
      hclient.expected hr hc)]⟩
  · rcases ha : (client.getJob slurmJobId true).exec r₁ with ⟨e, r₂⟩
    cases e with
    | error e =>
      refine ⟨none, r₂, ?_⟩
      have he : e.type = .slurmRestError ∨ e.type = .valueError := hclient.expected (hclient.kept hr hc) ha
      simp only [ha, if_pos he]
    | ok record? => exact ⟨record?, r₂, by simp only [ha]⟩
  · exact ⟨some record, r₁, rfl⟩

/-- **A check returns exactly if the record can be walked through.** -/
theorem checkSlurmJob_ok_iff (rt : Runtime) (str : Json → String) (j : String) (m : Managed ρ)
    (hm : m.tracker.CleansUp) (hr : good m.rest) : (∃ m', (checkSlurmJob rt str client j).exec m = (.ok (), m')) ↔
      ∀ f record, m.tracker.Active j f →
        ((consult client (m.tracker.futures f).slurmJobId).exec m.rest).1 = .ok (some record) → Walkable record := by
  by_cases hactive : ∃ f, m.tracker.Active j f
  · obtain ⟨f, hf⟩ := hactive
    have hunique : ∀ g, m.tracker.Active j g → g = f := fun g hg => Option.some.inj (hg.1.symm.trans hf.1)
    rw [exec_checkSlurmJob_active rt str hf, exec_checkRecord]
    obtain ⟨record?, r', hc⟩ := consult_ok hclient (m.tracker.futures f).slurmJobId hr
    have hc' : (consult client ((m.tracker.checked rt j).futures f).slurmJobId).exec m.rest = _ := hc
    simp only [hc']
    cases record? with
    | none =>
      refine ⟨fun _ g record hg hr => ?_, fun _ => ⟨_, rfl⟩⟩
      rw [hunique g hg, hc] at hr
      simp at hr
    | some record =>
      have hiff := applyRecord_ok_iff rt str f record (s := m.tracker.checked rt j) hm
      constructor
      · rintro ⟨m', h⟩ g record' hg hr
        rw [hunique g hg, hc] at hr
        obtain rfl : record = record' := by simpa using hr
        exact hiff.mp ⟨_, Prod.ext (Prod.mk.inj h).1 rfl⟩
      · intro h
        obtain ⟨t, ht⟩ := hiff.mpr (h f record hf (by rw [hc]))
        refine ⟨⟨t, r'⟩, ?_⟩
        dsimp only
        rw [ht]
  · push Not at hactive
    exact ⟨fun _ f _ hf => absurd hf (hactive f), fun _ => ⟨m, exec_checkSlurmJob_inactive rt str hactive⟩⟩

end Check

/-! ## Runs -/

namespace Monitor

variable {ρ : Type} {str : Json → String} {client : RestClient ρ} {good : ρ → Prop} {s s' : Monitor ρ}

/-- The condition on a record: it can be walked through, and the clean-up does not raise.  Other threads leave
the client as it is documented. -/
def Walked (good : ρ → Prop) (s : Monitor ρ) : Label ρ → Prop
  | .resolve _ => ∀ j f record todo, s.place = .resolving j f record todo →
      Walkable record ∧ s.session.tracker.CleansUp
  | .service rest => good rest
  | _ => True

/-- The selected jobs whose check has not ended. -/
def pending (s : Monitor ρ) : List String :=
  match s.place with
  | .sweeping todo => todo
  | .querying j _ todo | .accounting j _ todo | .resolving j _ _ todo => j :: todo
  | _ => []

theorem Asks.pending {l : Label ρ} {j : String} {f : FutureRef} {todo : List String} {accounting : Bool}
    (h : s.Asks l j f todo accounting) : s.pending = j :: todo := by
  cases h with
  | controller hp => simp only [Monitor.pending, hp]
  | accounting hp => simp only [Monitor.pending, hp]

/-- What every such run keeps. -/
structure Alive (good : ρ → Prop) (s : Monitor ρ) : Prop where
  documented : good s.rest
  alive : ∀ e, s.place ≠ .died e
  stopped : s.place = .ended → s.stop = true
  selected : s.selected = s.checked ++ s.pending

theorem Alive.finish {j : String} {todo : List String} (hr : good s.rest) (h : s.selected = s.checked ++ j :: todo) :
    (s.finish j todo).Alive good :=
  ⟨hr, nofun, nofun, by simpa [Monitor.finish, pending] using h⟩

theorem Alive.goto {place : Place} (hr : good s.rest) (h : s.selected = s.checked ++ (s.goto place).pending)
    (ha : ∀ e, place ≠ .died e) (he : place ≠ .ended) : (s.goto place).Alive good :=
  ⟨hr, ha, fun hp => absurd hp he, h⟩

/-- An expected error ends the check, not the thread. -/
theorem Alive.caught {e : PyError} {j : String} {todo : List String} (he : SlurmRestClient.Expected e)
    (hr : good s.rest) (h : s.selected = s.checked ++ j :: todo) : (s.caught e j todo).Alive good := by
  unfold Monitor.caught
  split_ifs with hc
  · exact Alive.finish hr h
  · exact absurd he hc

variable (hclient : client.Documented good)
include hclient

theorem Alive.step {l : Label ρ} (h : s.Alive good) (hok : s.Walked good l) (hs : s.Steps str client l s') :
    s'.Alive good := by
  have hsel := h.selected
  have hrest := h.documented
  cases hs.turn with
  | other => exact ⟨hrest, h.alive, h.stopped, hsel⟩
  | service r => exact ⟨hok, h.alive, h.stopped, hsel⟩
  | stop => exact ⟨hrest, h.alive, fun _ => rfl, hsel⟩
  | wake hp =>
    simp only [pending, hp] at hsel
    by_cases hstop : s.stop = true
    · rw [if_pos hstop]
      exact ⟨hrest, nofun, fun _ => hstop, hsel⟩
    · rw [if_neg hstop]
      exact Alive.goto hrest hsel nofun nofun
  | select hp =>
    refine ⟨hrest, nofun, nofun, ?_⟩
    simp only [pending, hp, List.append_nil] at hsel
    rw [hsel]
    rfl
  | swept hp =>
    simp only [pending, hp] at hsel
    exact Alive.goto hrest hsel nofun nofun
  | begun hp =>
    simp only [pending, hp] at hsel
    exact Alive.goto hrest hsel nofun nofun
  | skipped hp =>
    simp only [pending, hp] at hsel
    exact Alive.finish hrest hsel
  | lapsed hp =>
    simp only [pending, hp] at hsel
    exact Alive.finish hrest hsel
  | found hask hc =>
    rw [hask.pending] at hsel
    exact Alive.goto (hclient.kept hrest hc) hsel nofun nofun
  | unknown hask hc =>
    rw [hask.pending] at hsel
    exact Alive.goto (hclient.kept hrest hc) hsel nofun nofun
  | unrecorded hask hc =>
    rw [hask.pending] at hsel
    exact Alive.finish (hclient.kept hrest hc) hsel
  | raised hask hc =>
    rw [hask.pending] at hsel
    exact Alive.caught (hclient.expected hrest hc) (hclient.kept hrest hc) hsel
  | resolved hp hc =>
    simp only [pending, hp] at hsel
    obtain ⟨hw, hclean⟩ := hok _ _ _ _ hp
    obtain ⟨t, ht⟩ := (applyRecord_ok_iff _ str _ _ hclean).mpr hw
    obtain ⟨rfl, rfl⟩ := Prod.mk.inj (ht.symm.trans hc)
    exact Alive.finish hrest hsel

omit hclient in
/-- Unless it has ended, the thread can go on. -/
theorem Alive.goes_on (h : s.Alive good) (he : s.place ≠ .ended) (rt : Runtime) :
    ∃ l, l.Own ∧ ∃ s', s.Steps str client l s' := by
  have hown : (Label.wake 0 : Label ρ).Own ∧ (Label.select : Label ρ).Own ∧ (Label.next rt : Label ρ).Own ∧
      (Label.query : Label ρ).Own ∧ (Label.account : Label ρ).Own ∧ (Label.resolve rt : Label ρ).Own :=
    ⟨trivial, trivial, trivial, trivial, trivial, trivial⟩
  obtain ⟨hwake, hselect, hnext, hquery, haccount, hresolve⟩ := hown
  unfold Steps
  simp only [← Option.isSome_iff_exists]
  cases hp : s.place with
  | waiting => exact ⟨_, hwake, by simp [Monitor.step, hp]⟩
  | reading now => exact ⟨_, hselect, by simp [Monitor.step, hp]⟩
  | sweeping todo =>
    refine ⟨_, hnext, ?_⟩
    cases todo with
    | nil => simp [Monitor.step, hp]
    | cons j todo =>
      rcases exec_beginSchedulerCheck_cases s.session.tracker rt j with ⟨f, -, hb⟩ | ⟨-, hb⟩
      · simp [Monitor.step, hp, hb]
      · simp [Monitor.step, hp, hb]
  | querying j f todo =>
    refine ⟨_, hquery, ?_⟩
    rcases hc : (client.getJob (s.session.tracker.futures f).slurmJobId false).exec s.rest with ⟨e, r⟩
    by_cases hd : (s.session.tracker.futures f).done = true
    · simp [Monitor.step, hp, hd]
    · rcases e with e | (_ | record) <;> simp [Monitor.step, hp, hd, hc]
  | accounting j f todo =>
    refine ⟨_, haccount, ?_⟩
    rcases hc : (client.getJob (s.session.tracker.futures f).slurmJobId true).exec s.rest with ⟨e, r⟩
    rcases e with e | (_ | record) <;> simp [Monitor.step, hp, hc]
  | resolving j f record todo =>
    refine ⟨_, hresolve, ?_⟩
    rcases hr : (applyRecord rt str f record).exec s.session.tracker with ⟨e, t⟩
    cases e <;> simp [Monitor.step, hp, hr]
  | ended => exact absurd hp he
  | died e => exact absurd hp (h.alive e)

/-- **The monitor survives exactly the records that can be walked through.**

* As long as `get_job` raises nothing but the two errors, a check returns exactly if the record that the queries
  give, if any, can be walked through.
* In a run with such records only, whatever the other threads do, the monitor thread does not die; it ends
  only after the stop event, and until then it can go on; and every job selected in a sweep is checked before
  the sweep is over. -/
theorem monitor_survives_iff (str : Json → String) :
    (∀ rt j (m : Managed ρ), m.tracker.CleansUp → good m.rest →
      ((∃ m', (checkSlurmJob rt str client j).exec m = (.ok (), m')) ↔
        ∀ f record, m.tracker.Active j f →
          ((consult client (m.tracker.futures f).slurmJobId).exec m.rest).1 = .ok (some record) →
            Walkable record)) ∧
    ∀ (s₀ s : Monitor ρ) ls, s₀.place = .waiting → s₀.selected = s₀.checked → good s₀.rest →
      Run (Steps str client) (Walked good) s₀ ls s →
        (∀ e, s.place ≠ .died e) ∧ (s.place = .ended → s.stop = true) ∧ s.selected = s.checked ++ s.pending ∧
        (s.place ≠ .ended → ∃ l, l.Own ∧ ∃ s', s.Steps str client l s') := by
  refine ⟨fun rt j m hm hr => checkSlurmJob_ok_iff hclient rt str j m hm hr, fun s₀ s ls hp hsel hr hrun => ?_⟩
  have h₀ : s₀.Alive good := by
    refine ⟨hr, fun e he => ?_, fun he => ?_, ?_⟩
    · rw [hp] at he
      contradiction
    · rw [hp] at he
      contradiction
    · simp [pending, hp, hsel]
  have h : s.Alive good := hrun.invariant h₀ fun _ _ _ h hok hs => h.step hclient hok hs
  exact ⟨h.alive, h.stopped, h.selected, fun he => h.goes_on he Runtime.still⟩

omit hclient

/-! ## A record that ends the thread -/

section Example

/-- Two tracked jobs that have not been heard of for a while, and a service that answers every request with
one record. -/
def stale (record : Object) : Monitor SlurmRestClient where
  session := Session.new (fun _ _ => none) Session.unary
  rest := (answering record).rest

/-- The two jobs are tracked, and a sweep comes long after. -/
def sweep : List (Label SlurmRestClient) :=
  [.other ⟨SlurmManager.still, .track 0⟩, .other ⟨SlurmManager.still, .track 1⟩, .wake 100, .select]

theorem steps_select (todo : List String) {s : Monitor ρ} {now : ℚ} (hs : s.place = .reading now)
    (h : (s.session.tracker.getMissingHeartbeats now).map (fun info => info.jobId) = todo) :
    s.Steps str client .select { s with place := .sweeping todo, selected := s.selected ++ todo } := by
  simp only [Steps, Monitor.step, hs, h]

/-- A record of a job that has not ended. -/
def running : Object := [("job_state", .array [.string "RUNNING"])]

/-- The first job is still running: its check returns, and the sweep goes on. -/
theorem monitor_survives_iff_of_running :
    (∃ m', (checkSlurmJob SlurmManager.still (fun _ => "") slurmRestClient "j").exec (answering running) = (.ok (), m')) ∧
    ∃ s, Run (Steps (fun _ => "") slurmRestClient) (Walked fun c => ¬ c.Deep) (stale running)
      (sweep ++ [.next SlurmManager.still, .query, .resolve SlurmManager.still]) s ∧
    (∀ e, s.place ≠ .died e) ∧ s.selected = s.checked ++ s.pending ∧ s.pending = ["jj"] := by
  have hw : Walkable running := (resolve_ok_iff (fun _ => "") _).mp ⟨_, rfl⟩
  have hdeep : ¬ (answering running).rest.Deep := fun ⟨_, h⟩ => Loaded.noConfusion h
  have hex : ∃ s, Run (Steps (fun _ => "") slurmRestClient) (Walked fun c => ¬ c.Deep) (stale running)
      (sweep ++ [.next SlurmManager.still, .query, .resolve SlurmManager.still]) s ∧ s.pending = ["jj"] := by
    refine ⟨_, Run.cons trivial rfl (Run.cons trivial rfl (Run.cons trivial rfl (Run.cons trivial
      (steps_select ["j", "jj"] rfl (by decide +kernel)) (Run.cons trivial rfl (Run.cons trivial rfl
        (Run.single ?_ rfl)))))), rfl⟩
    rintro j f record todo hp
    obtain ⟨-, -, rfl, -⟩ := Place.resolving.inj hp
    exact ⟨hw, fun _ _ => rfl⟩
  obtain ⟨s, hrun, hpending⟩ := hex
  obtain ⟨hcheck, hruns⟩ := monitor_survives_iff slurmRestClient_documented (fun _ => "")
  have hreturns := (hcheck SlurmManager.still "j" (answering running) (fun _ _ => rfl) hdeep).mpr fun f record _ hr => by
    obtain rfl : running = record := Option.some.inj (Except.ok.inj hr)
    exact hw
  obtain ⟨halive, -, hsel, -⟩ := hruns _ s _ rfl rfl hdeep hrun
  exact ⟨hreturns, s, hrun, halive, hsel, hpending⟩

/-- A record that says nothing about a signal. -/
def nullSignal : Object :=
  [("job_state", .array [.string "COMPLETED"]), ("exit_code", .object [("return_code", .int 0), ("signal", .null)])]

/-- The first job's record ends the thread: no stop event is set, and the second job is never checked. -/
theorem null_signal_ends_monitor : ∃ s, Run (Steps (fun _ => "") slurmRestClient)
    (fun s _ => s.session.tracker.CleansUp) (stale nullSignal)
    (sweep ++ [.next SlurmManager.still, .query, .resolve SlurmManager.still]) s ∧
    s.place = .died ⟨.other, "'NoneType' object has no attribute 'get'"⟩ ∧ s.stop = false ∧
    s.selected = ["j", "jj"] ∧ s.checked = [] := by
  exact ⟨_, Run.cons (fun _ _ => rfl) rfl (Run.cons (fun _ _ => rfl) rfl (Run.cons (fun _ _ => rfl) rfl
    (Run.cons (fun _ _ => rfl) (steps_select ["j", "jj"] rfl (by decide +kernel)) (Run.cons (fun _ _ => rfl) rfl
      (Run.cons (fun _ _ => rfl) rfl (Run.single (fun _ _ => rfl) rfl)))))), rfl, rfl, rfl, rfl⟩

end Example

end Monitor

end SlurmManager
