import Mathlib.Algebra.Order.Ring.Unbundled.Rat
import Mathlib.Tactic.Linarith
import SlurmManager.Manager.Completion
import SlurmManager.Manager.Monitor
import SlurmManager.Tracking.Internals

/-!
# Throttle — when the monitor thread checks a job

The monitor beside every other thread, with the readings of the clock.  `get_missing_heartbeats` selects
copies of records; a check is stamped later, through another look-up, on a topic that listeners share.

* `Vigil`: the monitor with what a reader of the clock knows: when each job was last heard of, and which checks
  were begun when.
* `Watch`: what the heartbeat records of one job have to do with these.
* `heartbeat_throttling`: checks of a job are far apart, each sweep takes a job once, and it takes no job that was
  heard of lately, whatever is removed.
* `heartbeat_monitoring`: it takes every other job whose heartbeat subscription is left alone.
-/

namespace SlurmManager

open Program JobTracker

/-- The monitor, and what there is to know about its clock. -/
structure Vigil (ρ : Type) where
  monitor : Monitor ρ
  /-- The last reading. -/
  clock : ℚ
  /-- The calls of `track` that have set `sub_info.last_heartbeat`. -/
  stamped : ℕ → Bool := fun _ => false
  /-- `last_heartbeat` of the `sub_info` of a heartbeat topic, indexed or not. -/
  heard : Topic → Option ℚ := fun _ => none
  /-- Histories: when the sweep began, what had been heard then, and the jobs that it selected. -/
  started : ℚ := 0
  snapshot : Topic → Option ℚ := fun _ => none
  jobs : List String := []
  /-- A history: the checks begun, with the times stamped on the records. -/
  begun : List (String × ℚ) := []

/-- The jobs still to check in the sweep. -/
def Place.todo : Place → List String
  | .sweeping todo | .querying _ _ todo | .accounting _ _ todo | .resolving _ _ _ todo => todo
  | _ => []

namespace Vigil

variable {ρ : Type}

def session (v : Vigil ρ) : Session := v.monitor.session

/-- A step of any thread, or `track` sets the stamp of the subscription that it has not indexed yet. -/
inductive Label (ρ : Type)
  | monitor (l : Monitor.Label ρ)
  | stamp (n : ℕ) (now : ℚ)

/-- The topic of the heartbeat that the listener thread hands to the tracker next. -/
def arriving (s : Session) : Option Topic :=
  match s.captured with
  | [] => none
  | (sub, _) :: _ =>
    match sub.callback with
    | .heartbeat _ _ => some sub.topic
    | _ => none

/-- What is known once the monitor has taken a step to `m`. -/
def observe (v : Vigil ρ) (m : Monitor ρ) : Monitor.Label ρ → Vigil ρ
  | .other l =>
    match l.act with
    | .deliver =>
      { v with
        monitor := m
        clock := l.rt.time
        heard := match arriving v.session with
          | none => v.heard
          | some t => Function.update v.heard t (some l.rt.time) }
    | _ => { v with monitor := m }
  | .wake now => { v with monitor := m, clock := now, started := now, snapshot := v.heard, jobs := [] }
  | .select => { v with monitor := m, jobs := m.place.todo }
  | .next rt =>
    match m.place with
    | .querying j _ _ => { v with monitor := m, clock := rt.time, begun := v.begun ++ [(j, rt.time)] }
    | _ => { v with monitor := m }
  | _ => { v with monitor := m }

def step (str : Json → String) (client : RestClient ρ) (v : Vigil ρ) : Label ρ → Option (Vigil ρ)
  | .monitor l => (v.monitor.step str client l).map fun m => v.observe m l
  | .stamp n now =>
    match v.session.calls n with
    | .indexing f .heartbeat _ _ _ =>
      if v.stamped n then none
      else some { v with
        clock := now
        stamped := Function.update v.stamped n true
        heard := Function.update v.heard (topicOf (v.session.jobOf f) .heartbeat) (some now) }
    | _ => none

def Steps (str : Json → String) (client : RestClient ρ) (v : Vigil ρ) (l : Label ρ) (v' : Vigil ρ) : Prop :=
  v.step str client l = some v'

/-- The clock does not run backwards, `track` indexes the stamp that it has set, and only the monitor begins checks. -/
def Fair (v : Vigil ρ) : Label ρ → Prop
  | .stamp _ now => v.clock ≤ now
  | .monitor (.other l) => Session.Sectioned l ∧
    match l.act with
    | .deliver => v.clock ≤ l.rt.time
    | .proceed n => ∀ f i o rest, v.session.calls n = .indexing f .heartbeat i o rest →
        v.stamped n = true ∧ v.heard (topicOf (v.session.jobOf f) .heartbeat) = some l.rt.time
    | .beginSchedulerCheck _ => False
    | .startCheck _ _ => False
    | _ => True
  | .monitor (.wake now) => v.clock ≤ now
  | .monitor (.next rt) => v.clock ≤ rt.time
  | .monitor _ => True

/-- The heartbeat subscription of the job is left alone. -/
def Keeps (j : String) (v : Vigil ρ) : Label ρ → Prop
  | .monitor (.other l) => Session.Leaves j .heartbeat v.session l
  | _ => True

/-- A new tracker, a monitor that has not woken up yet, and a clock that shows a positive time. -/
structure Initial (v : Vigil ρ) : Prop where
  session : v.session.Initial
  place : v.monitor.place = .waiting
  clock : 0 < v.clock
  unheard : ∀ t, v.heard t = none
  unbegun : v.begun = []
  unstarted : v.started = 0 ∧ v.jobs = []

end Vigil

/-! ## Records of a topic -/

namespace Session

variable {jobOf : FutureRef → String} {j : String} {e : Event} {s s' : Session} {l : SlurmManager.Label}

/-- A record that was not there before: of a listener, or of `track`. -/
inductive NewRecord (jobOf : FutureRef → String) (j : String) (e : Event) (s : Session) (l : SlurmManager.Label)
    (i : SubId) : SubscriptionInfo → Prop
  | listener (a : AddArgs) (f : FutureRef) : NewRecord jobOf j e s l i (a.info (s.tracker.futures f) i)
  | internal {n : ℕ} {f : FutureRef} {o : Bool} {rest : List Event} (hl : l.act = .proceed n)
      (hn : s.calls n = .indexing f e i o rest) (hj : jobOf f = j) :
    NewRecord jobOf j e s l i (internalInfo l.rt e (s.tracker.futures f) i)

theorem record?_of_subscribe {t : Topic} {cb : ClientCallback} {r : Except PyError SubId} {y : JobTracker}
    {x : JobTracker} (he : (onClient (RedisSubClient.subscribe t cb)).exec x = (r, y)) (t' : Topic) (i : SubId) :
    y.record? t' i = x.record? t' i := by
  rw [onClient, exec_focus] at he
  obtain ⟨-, rfl⟩ := Prod.mk.inj he
  rfl

/-- Where a record under the topic comes from, when the step stamps none. -/
theorem OnTopic.record (h : OnTopic jobOf j e s l s')
    (hcheck : ∀ j', l.act ≠ .beginSchedulerCheck j' ∧ ∀ n, l.act ≠ .startCheck n j')
    (hheard : l.act = .deliver → Vigil.arriving s ≠ some (topicOf j e)) {i : SubId} {info : SubscriptionInfo}
    (hi : s'.tracker.record? (topicOf j e) i = some info) :
    s.tracker.record? (topicOf j e) i = some info ∨ NewRecord jobOf j e s l i info := by
  cases h with
  | aside _ ht => exact Or.inl (ht.records i info hi)
  | closed _ ht => exact Or.inl (ht.records _ i info hi)
  | checked _ _ hl =>
    rcases hl with hl | ⟨n, hl⟩
    · exact absurd hl (hcheck j).1
    · exact absurd hl ((hcheck j).2 n)
  | heard _ hl hc hcb hsub =>
    refine absurd ?_ (hheard hl)
    unfold Vigil.arriving
    rw [hc]
    dsimp only
    rw [hcb, hsub]
  | published => exact Or.inl hi
  | subscribed hl hn hj he =>
    rw [Config.exec_subscribeCallback] at he
    exact Or.inl ((record?_of_subscribe he _ i).symm.trans hi)
  | joined hl hn ha he =>
    rw [show (subscribeListener _ _).exec s.tracker = _ from exec_bind_ok (exec_get s.tracker)] at he
    exact Or.inl ((record?_of_subscribe he _ i).symm.trans hi)
  | @indexed n f k o rest hl hn hj =>
    have hi' : ((indexCallback l.rt e f k).after s.tracker).record? (topicOf j e) i = some info := hi
    rw [after, Config.exec_indexCallback] at hi'
    dsimp only at hi'
    rw [record?_indexed] at hi'
    split_ifs at hi' with hk
    · obtain ⟨-, rfl⟩ := hk
      obtain rfl := Option.some.inj hi'
      exact Or.inr (NewRecord.internal hl hn hj)
    · exact Or.inl hi'
  | @validated n a f k o r t ids hl hn ha he =>
    have hi' : t.record? (topicOf j e) i = some info := hi
    unfold JobTracker.validateListener at he
    rw [exec_bind_ok (exec_get s.tracker), exec_ite] at he
    split_ifs at he
    · have hlost := (Within.bind (lost_of_client (RedisSubClient.removals_fewer.unsubscribe k)) fun _ =>
        within_throw _).of_exec he
      exact Or.inl (hlost.records _ i info hi')
    · rw [exec_bind_ok (exec_registerSubscriptionForJob rfl)] at he
      obtain ⟨-, rfl⟩ := Prod.mk.inj he
      rw [record?_indexed] at hi'
      split_ifs at hi' with hk
      · obtain ⟨-, rfl⟩ := hk
        obtain rfl := Option.some.inj hi'
        exact Or.inr (NewRecord.listener a f)
      · exact Or.inl hi'

/-- Where a record comes from, whatever is removed. -/
theorem Homed.record {pending : SubId → Option Pending} (hh : s.Homed jobOf pending)
    (hinj : ∀ f g, jobOf f = jobOf g → f = g) (hl : Sectioned l) (hs : Steps s l s')
    (hcheck : ∀ j', l.act ≠ .beginSchedulerCheck j' ∧ ∀ n, l.act ≠ .startCheck n j')
    (hheard : l.act = .deliver → Vigil.arriving s ≠ some (topicOf j e)) {i : SubId} {info : SubscriptionInfo}
    (hi : s'.tracker.record? (topicOf j e) i = some info) :
    s.tracker.record? (topicOf j e) i = some info ∨ NewRecord jobOf j e s l i info := by
  by_cases hk : Leaves j e s l
  · exact (hh.onTopic hinj hl hk hs).record hcheck hheard hi
  · have hlost := (show Idle jobOf j e s s' ∧ _ from idle_of_removal hk hs).2
    exact Or.inl (hlost.records _ i info hi)

end Session

/-! ## The records of one job -/

namespace Vigil

variable {ρ : Type} {jobOf : FutureRef → String} {kept : Prop} {j : String} {x x' : Installation} {v v' : Vigil ρ}

def record? (v : Vigil ρ) (j : String) (i : SubId) : Option SubscriptionInfo :=
  v.session.tracker.record? (topicOf j .heartbeat) i

/-- What was last heard of the job. -/
def heardOf (v : Vigil ρ) (j : String) : Option ℚ := v.heard (topicOf j .heartbeat)

/-- The heartbeat records of the job, with the tracker's own subscription at `x`, in force if it is `kept`.  Only its
record has stamps: the last heartbeat, and a check that was begun no earlier than any other. -/
structure Watch (jobOf : FutureRef → String) (kept : Prop) (j : String) (x : Installation) (v : Vigil ρ) : Prop where
  marks : v.session.Marks jobOf j .heartbeat x
  installs : kept → v.session.Installs jobOf j .heartbeat x
  unheard : x = .absent → v.heardOf j = none
  positive : ∀ t, v.heardOf j = some t → 0 < t ∧ t ≤ v.clock
  listeners : ∀ i info, v.record? j i = some info → info.callback ≠ none → info.lastHeartbeat = none
  stamps : ∀ i info, v.record? j i = some info → info.callback = none →
    info.lastHeartbeat = v.heardOf j ∧ (v.heardOf j).isSome
  checks : ∀ i info c, v.record? j i = some info → info.callback = none → info.lastSchedulerCheck = some c →
    (j, c) ∈ v.begun
  begun : ∀ t, (j, t) ∈ v.begun → t ≤ v.clock ∧ (∃ i, x = .indexed i) ∧
    ∀ i info, v.record? j i = some info → info.callback = none → ∃ c, info.lastSchedulerCheck = some c ∧ t ≤ c
  todo : j ∈ v.monitor.place.todo → ∃ i, x = .indexed i

section Watch

variable (h : Watch jobOf kept j x v)
include h

/-- No stamp changes; a new record is that of a listener, or has the stamp of `track`. -/
theorem Watch.of_records (hx : v'.session.Marks jobOf j .heartbeat x')
    (hin : kept → v'.session.Installs jobOf j .heartbeat x') (habs : x' = .absent → x = .absent)
    (hind : ∀ i, x = .indexed i → x' = .indexed i) (hclock : v.clock ≤ v'.clock) (hheard : v'.heardOf j = v.heardOf j)
    (hbegun : ∀ t, (j, t) ∈ v'.begun ↔ (j, t) ∈ v.begun)
    (htodo : j ∈ v'.monitor.place.todo → j ∈ v.monitor.place.todo)
    (hrec : ∀ i info, v'.record? j i = some info → v.record? j i = some info ∨
      info.lastSchedulerCheck = none ∧ (info.callback ≠ none → info.lastHeartbeat = none) ∧
        (info.callback = none → info.lastHeartbeat = v.heardOf j ∧ (v.heardOf j).isSome ∧ ∀ i, x ≠ .indexed i)) :
    Watch jobOf kept j x' v' := by
  refine ⟨hx, hin, fun hx => hheard.trans (h.unheard (habs hx)), fun t ht => ?_, fun i info hi hcb => ?_,
    fun i info hi hcb => ?_, fun i info c hi hcb hc => ?_, fun t ht => ?_, fun hj => ?_⟩
  · obtain ⟨hpos, hle⟩ := h.positive t (hheard.symm.trans ht)
    exact ⟨hpos, hle.trans hclock⟩
  · rcases hrec i info hi with hold | ⟨-, hnew, -⟩
    · exact h.listeners i info hold hcb
    · exact hnew hcb
  · rw [hheard]
    rcases hrec i info hi with hold | ⟨-, -, hnew⟩
    · exact h.stamps i info hold hcb
    · exact ⟨(hnew hcb).1, (hnew hcb).2.1⟩
  · rcases hrec i info hi with hold | ⟨hnone, -⟩
    · exact (hbegun c).mpr (h.checks i info c hold hcb hc)
    · rw [hnone] at hc
      contradiction
  · obtain ⟨hle, ⟨i, hi⟩, hchecks⟩ := h.begun t ((hbegun t).mp ht)
    refine ⟨hle.trans hclock, ⟨i, hind i hi⟩, fun k info hk hcb => ?_⟩
    rcases hrec k info hk with hold | ⟨-, -, hnew⟩
    · exact hchecks k info hold hcb
    · exact absurd hi ((hnew hcb).2.2 i)
  · obtain ⟨i, hi⟩ := h.todo (htodo hj)
    exact ⟨i, hind i hi⟩

/-- The heartbeat of the job arrives. -/
theorem Watch.heartbeat (hx : v'.session.Marks jobOf j .heartbeat x)
    (hin : kept → v'.session.Installs jobOf j .heartbeat x) {t : ℚ} {k : SubId} (hclock : v.clock ≤ t)
    (hc : v'.clock = t) (hpos : 0 < v.clock) (hk : x.id = some k) (hheard : v'.heardOf j = some t)
    (hbegun : v'.begun = v.begun) (htodo : v'.monitor.place.todo = v.monitor.place.todo)
    (hlistener : ∀ info, v.record? j k = some info → info.callback = none)
    (hrec : ∀ i, v'.record? j i = (v.record? j i).map (heartbeatStamp t k i)) : Watch jobOf kept j x v' := by
  have hold : ∀ i info, v'.record? j i = some info → ∃ info₀, v.record? j i = some info₀ ∧
      info = heartbeatStamp t k i info₀ := by
    intro i info hi
    obtain ⟨info₀, h₀, rfl⟩ := Option.map_eq_some_iff.mp ((hrec i).symm.trans hi)
    exact ⟨info₀, h₀, rfl⟩
  have hcb : ∀ i info, (heartbeatStamp t k i info).callback = info.callback := fun i info => by
    unfold heartbeatStamp
    split_ifs <;> rfl
  have hcheck : ∀ i info, (heartbeatStamp t k i info).lastSchedulerCheck = info.lastSchedulerCheck := fun i info => by
    unfold heartbeatStamp
    split_ifs <;> rfl
  refine ⟨hx, hin, fun hx => ?_, fun t' ht => ?_, fun i info hi hne => ?_, fun i info hi hnone => ?_,
    fun i info c hi hnone hc => ?_, fun t' ht => ?_, fun hj => h.todo (htodo ▸ hj)⟩
  · rw [hx] at hk
    contradiction
  · obtain rfl := Option.some.inj (hheard.symm.trans ht)
    exact ⟨hpos.trans_le hclock, hc.ge⟩
  · obtain ⟨info₀, h₀, rfl⟩ := hold i info hi
    rw [hcb] at hne
    unfold heartbeatStamp
    split_ifs with hik
    · subst hik
      exact absurd (hlistener info₀ h₀) hne
    · exact h.listeners i info₀ h₀ hne
  · obtain ⟨info₀, h₀, rfl⟩ := hold i info hi
    rw [hcb] at hnone
    have hik : i = k := by
      have hx := h.marks.records i info₀ h₀ hnone
      rw [hx] at hk
      exact Option.some.inj hk
    rw [hheard]
    refine ⟨?_, rfl⟩
    unfold heartbeatStamp
    rw [if_pos hik]
  · obtain ⟨info₀, h₀, rfl⟩ := hold i info hi
    rw [hcb] at hnone
    rw [hcheck] at hc
    rw [hbegun]
    exact h.checks i info₀ c h₀ hnone hc
  · rw [hbegun] at ht
    obtain ⟨hle, hi, hchecks⟩ := h.begun t' ht
    refine ⟨(hle.trans hclock).trans hc.ge, hi, fun i info hinfo hnone => ?_⟩
    obtain ⟨info₀, h₀, rfl⟩ := hold i info hinfo
    rw [hcb] at hnone
    rw [hcheck]
    exact hchecks i info₀ h₀ hnone

/-- A check of the job is begun. -/
theorem Watch.check (hx : v'.session.Marks jobOf j .heartbeat x)
    (hin : kept → v'.session.Installs jobOf j .heartbeat x) {t : ℚ} (hclock : v.clock ≤ t) (hc : v'.clock = t)
    (hheard : v'.heardOf j = v.heardOf j) (hbegun : v'.begun = v.begun ++ [(j, t)]) (hj : ∃ i, x = .indexed i)
    (hrec : ∀ i, v'.record? j i = (v.record? j i).map (checkStamp t i)) : Watch jobOf kept j x v' := by
  have hold : ∀ i info, v'.record? j i = some info → ∃ info₀, v.record? j i = some info₀ ∧
      info = checkStamp t i info₀ := by
    intro i info hi
    obtain ⟨info₀, h₀, rfl⟩ := Option.map_eq_some_iff.mp ((hrec i).symm.trans hi)
    exact ⟨info₀, h₀, rfl⟩
  have hcb : ∀ i info, (checkStamp t i info).callback = info.callback ∧
      (checkStamp t i info).lastHeartbeat = info.lastHeartbeat := fun i info => by
    unfold checkStamp
    split_ifs <;> exact ⟨rfl, rfl⟩
  -- the record of the tracker's own subscription has a heartbeat, so it is stamped
  have hstamp : ∀ i info, v.record? j i = some info → info.callback = none →
      (checkStamp t i info).lastSchedulerCheck = some t := by
    intro i info hi hnone
    obtain ⟨hlast, hsome⟩ := h.stamps i info hi hnone
    unfold checkStamp
    rw [if_pos (hlast ▸ hsome)]
  refine ⟨hx, hin, fun hx => hheard.trans (h.unheard hx), fun t' ht => ?_, fun i info hi hne => ?_,
    fun i info hi hnone => ?_, fun i info c hi hnone hc => ?_, fun t' ht => ?_, fun _ => hj⟩
  · obtain ⟨hpos, hle⟩ := h.positive t' (hheard.symm.trans ht)
    exact ⟨hpos, (hle.trans hclock).trans hc.ge⟩
  · obtain ⟨info₀, h₀, rfl⟩ := hold i info hi
    rw [(hcb i info₀).1] at hne
    exact (hcb i info₀).2.trans (h.listeners i info₀ h₀ hne)
  · obtain ⟨info₀, h₀, rfl⟩ := hold i info hi
    rw [(hcb i info₀).1] at hnone
    rw [(hcb i info₀).2, hheard]
    exact h.stamps i info₀ h₀ hnone
  · obtain ⟨info₀, h₀, rfl⟩ := hold i info hi
    rw [(hcb i info₀).1] at hnone
    rw [hstamp i info₀ h₀ hnone] at hc
    obtain rfl := Option.some.inj hc
    rw [hbegun]
    exact List.mem_append_right _ (List.mem_singleton.mpr rfl)
  · have ht' : t' ≤ t := by
      rw [hbegun] at ht
      rcases List.mem_append.mp ht with ht | ht
      · exact (h.begun t' ht).1.trans hclock
      · exact (Prod.mk.inj (List.mem_singleton.mp ht)).2.le
    refine ⟨ht'.trans hc.ge, hj, fun i info hi hnone => ?_⟩
    obtain ⟨info₀, h₀, rfl⟩ := hold i info hi
    rw [(hcb i info₀).1] at hnone
    exact ⟨t, hstamp i info₀ h₀ hnone, ht'⟩

/-- `track` sets the stamp of the subscription, which is not indexed yet. -/
theorem Watch.stamp {i : SubId} (hi : x = .subscribed i) {t : ℚ} (hclock : v.clock ≤ t) (hpos : 0 < v.clock)
    (hs : v'.monitor = v.monitor) (hc : v'.clock = t) (hheard : v'.heardOf j = some t) (hbegun : v'.begun = v.begun) :
    Watch jobOf kept j x v' := by
  have hsession : v'.session = v.session := congrArg Monitor.session hs
  have hrec : ∀ k, v'.record? j k = v.record? j k := fun k => by
    unfold record?
    rw [hsession]
  have hno : ∀ k info, v'.record? j k = some info → info.callback ≠ none := by
    intro k info hk hnone
    have hx := h.marks.records k info ((hrec k).symm.trans hk) hnone
    rw [hi] at hx
    contradiction
  refine ⟨hsession ▸ h.marks, fun hk => hsession ▸ h.installs hk, fun hx => ?_, fun t' ht => ?_, fun k info hk => ?_,
    fun k info hk hnone => absurd hnone (hno k info hk), fun k info c hk hnone => absurd hnone (hno k info hk),
    fun t' ht => ?_, fun hj => ?_⟩
  · rw [hi] at hx
    contradiction
  · obtain rfl := Option.some.inj (hheard.symm.trans ht)
    exact ⟨hpos.trans_le hclock, hc.ge⟩
  · exact h.listeners k info ((hrec k).symm.trans hk)
  · rw [hbegun] at ht
    obtain ⟨hle, hx, -⟩ := h.begun t' ht
    exact ⟨(hle.trans hclock).trans hc.ge, hx, fun k info hk hnone => absurd hnone (hno k info hk)⟩
  · rw [hs] at hj
    exact h.todo hj

end Watch

/-! ## Steps of the session -/

/-- A section of any thread that stamps no heartbeat record of the job. -/
theorem Watch.section (h : Watch jobOf kept j x v) (hr : v.session.Regular jobOf)
    (hinj : ∀ f g, jobOf f = jobOf g → f = g) {l : SlurmManager.Label} (hl : Session.Sectioned l)
    (hk : kept → Session.Leaves j .heartbeat v.session l)
    (hs : Session.Steps v.session l v'.session)
    (hcheck : ∀ j', l.act ≠ .beginSchedulerCheck j' ∧ ∀ n, l.act ≠ .startCheck n j')
    (hdeliver : l.act = .deliver → arriving v.session ≠ some (topicOf j .heartbeat))
    (hproceed : ∀ n f i o rest, l.act = .proceed n → v.session.calls n = .indexing f .heartbeat i o rest →
      v.heardOf (v.session.jobOf f) = some l.rt.time)
    (hclock : v.clock ≤ v'.clock) (hheard : v'.heardOf j = v.heardOf j) (hbegun : v'.begun = v.begun)
    (htodo : j ∈ v'.monitor.place.todo → j ∈ v.monitor.place.todo) : ∃ x', Watch jobOf kept j x' v' := by
  obtain ⟨pending, hh⟩ := hr.homed
  obtain ⟨x', hx', ha, hin⟩ := hr.marks hinj h.marks hl hs
  refine ⟨x', h.of_records hx' (fun hk' => hin (hk hk') (h.installs hk')) (fun hx => ?_) (fun i hx => ?_)
    hclock hheard (fun t => by rw [hbegun]) htodo fun i info hi => ?_⟩
  · cases ha with
    | stay => exact hx
    | subscribe => contradiction
    | index => contradiction
  · cases ha with
    | stay => exact hx
    | subscribe => contradiction
    | index => contradiction
  · rcases hh.record hinj hl hs hcheck hdeliver hi with hold | hnew
    · exact Or.inl hold
    · refine Or.inr ?_
      cases hnew with
      | listener a f => exact ⟨rfl, fun _ => rfl, fun hcb => by contradiction⟩
      | @internal n f o rest hact hn hj =>
        have hheard := hproceed n f i o rest hact hn
        rw [show v.session.jobOf f = j from (hh.jobIds f).trans hj] at hheard
        have hphase : (v.session.calls n).phase jobOf j .heartbeat = some (.inFlight i) := by
          rw [hn]
          exact if_pos hj
        refine ⟨rfl, fun hcb => absurd rfl hcb, fun _ => ⟨hheard.symm, by rw [hheard]; rfl, fun k hk => ?_⟩⟩
        have hx : x = .subscribed i := h.marks.calls n _ hphase
        rw [hx] at hk
        contradiction

/-- What the listener thread hands to the tracker is the heartbeat of the tracker's own subscription. -/
theorem arriving_iff {s : Session} {t : Topic} : arriving s = some t ↔
    ∃ sub m rest a b, s.captured = (sub, m) :: rest ∧ sub.callback = .heartbeat a b ∧ sub.topic = t := by
  unfold arriving
  cases hc : s.captured with
  | nil => simp
  | cons y rest =>
    obtain ⟨sub, m⟩ := y
    dsimp only
    cases hcb : sub.callback <;> simp_all

/-- The heartbeat of the job arrives. -/
theorem Watch.arrival (h : Watch jobOf kept j x v) (hr : v.session.Regular jobOf)
    (hinj : ∀ f g, jobOf f = jobOf g → f = g) {rt : Runtime} (hs : Session.Steps v.session ⟨rt, .deliver⟩ v'.session)
    (harr : arriving v.session = some (topicOf j .heartbeat)) (hclock : v.clock ≤ rt.time) (hpos : 0 < v.clock)
    (hc : v'.clock = rt.time) (hheard : v'.heardOf j = some rt.time) (hbegun : v'.begun = v.begun)
    (htodo : v'.monitor.place.todo = v.monitor.place.todo) : Watch jobOf kept j x v' := by
  obtain ⟨sub, m, rest, a, b, hcap, hcb, htopic⟩ := arriving_iff.mp harr
  obtain ⟨tag, htag⟩ := hr.tagged
  have hmem : (sub, m) ∈ v.session.captured := by
    rw [hcap]
    exact List.mem_cons_self
  have hid : x.id = some sub.id := h.marks.captured _ hmem htopic (by rw [hcb]; trivial)
  have hx : v'.session.Marks jobOf j .heartbeat x ∧ (kept → v'.session.Installs jobOf j .heartbeat x) := by
    obtain ⟨x', hx', ha, hin⟩ := hr.marks (l := ⟨rt, .deliver⟩) hinj h.marks trivial hs
    cases ha with
    | stay => exact ⟨hx', fun hk => hin trivial (h.installs hk)⟩
    | subscribe hl => contradiction
    | index hl => contradiction
  have hs' : v'.session =
      { v.session with tracker := (deliver rt m sub).after v.session.tracker, captured := rest } := by
    unfold Session.Steps Session.step at hs
    simp only [hcap] at hs
    exact (Option.some.inj hs).symm
  refine h.heartbeat hx.1 hx.2 hclock hc hpos hid hheard hbegun htodo (fun info hi => ?_) fun i => ?_
  · -- the id was drawn for the tracker
    obtain ⟨t, hfit⟩ := htag.captured _ hmem
    have hrec := htag.tracker.records.inner _ _ _ hi
    unfold ClientFits at hfit
    unfold TrackerFits at hrec
    cases htg : tag sub.id with
    | none => simp [htg] at hrec
    | some y =>
      cases y with
      | internal e => simpa [htg] using hrec
      | global => simp [htg] at hrec
      | listener a' =>
        simp only [htg] at hfit
        obtain ⟨-, -, g, hg⟩ := hfit
        rw [hcb] at hg
        have hnot := not_internal_redisCallback a' g
        rw [← hg] at hnot
        exact absurd trivial hnot
  · obtain ⟨ts, he⟩ := after_deliver_heartbeat rt m hcb v.session.tracker
    unfold record?
    rw [hs', he, htopic]
    exact (record?_restamp _ _ _ _).trans (if_pos rfl)

/-- A check of a job is begun. -/
theorem Watch.begin (h : Watch jobOf kept j x v) (hr : v.session.Regular jobOf) (hinj : ∀ f g, jobOf f = jobOf g → f = g)
    {rt : Runtime} {k : String} {f : FutureRef} (hf : v.session.tracker.Active k f)
    (hs : v'.session = { v.session with tracker := v.session.tracker.checked rt k }) (hclock : v.clock ≤ rt.time)
    (hc : v'.clock = rt.time) (hheard : v'.heardOf j = v.heardOf j) (hbegun : v'.begun = v.begun ++ [(k, rt.time)])
    (htodo : k :: v'.monitor.place.todo = v.monitor.place.todo) : Watch jobOf kept j x v' := by
  have hstep : Session.Steps v.session ⟨rt, .beginSchedulerCheck k⟩ v'.session := by
    rw [hs]
    refine congrArg some ?_
    show ({ v.session with tracker := (beginSchedulerCheck rt k).after v.session.tracker } : Session) = _
    rw [after, exec_beginSchedulerCheck_active rt hf]
  have hx : v'.session.Marks jobOf j .heartbeat x ∧ (kept → v'.session.Installs jobOf j .heartbeat x) := by
    obtain ⟨x', hx', ha, hin⟩ := hr.marks (l := ⟨rt, .beginSchedulerCheck k⟩) hinj h.marks trivial hstep
    cases ha with
    | stay => exact ⟨hx', fun hk => hin trivial (h.installs hk)⟩
    | subscribe hl => contradiction
    | index hl => contradiction
  have hrec : ∀ i, v'.record? j i = if topicOf j .heartbeat = topicOf k .heartbeat then
      (v.record? j i).map (checkStamp rt.time i) else v.record? j i := by
    intro i
    unfold record?
    rw [hs]
    exact record?_restamp _ _ _ i
  by_cases hj : j = k
  · subst hj
    refine h.check hx.1 hx.2 hclock hc hheard hbegun (h.todo ?_) fun i => (hrec i).trans (if_pos rfl)
    rw [← htodo]
    exact List.mem_cons_self
  · have hne : topicOf j .heartbeat ≠ topicOf k .heartbeat := fun ht => hj (topicOf_inj.mp ht).1
    refine h.of_records hx.1 hx.2 id (fun _ => id) (hclock.trans hc.ge) hheard (fun t => ?_) (fun hj => ?_)
      fun i info hi => ?_
    · rw [hbegun, List.mem_append, List.mem_singleton, Prod.mk.injEq]
      exact or_iff_left fun hx => hj hx.1
    · rw [← htodo]
      exact List.mem_cons_of_mem _ hj
    · exact Or.inl (((hrec i).trans (if_neg hne)).symm.trans hi)

end Vigil

/-! ## Selection -/

namespace JobTracker

variable {s : JobTracker} {pending : SubId → Option Pending}

/-- The jobs of a sweep, job by job. -/
theorem jobs_missing (h : s.Homed pending) (now : ℚ) :
    (s.getMissingHeartbeats now).map (fun info => info.jobId) = s.activeSubscriptions.entries.flatMap fun e =>
      if topicOf e.1 .heartbeat ∈ e.2 then
        (((s.subscriptionsByTopic.get? (topicOf e.1 .heartbeat)).getD ∅).values.filter
          (SubscriptionInfo.missing now)).map fun _ => e.1
      else [] := by
  unfold getMissingHeartbeats
  rw [List.map_flatMap]
  refine List.flatMap_congr fun e _ => ?_
  dsimp only
  split_ifs
  · refine List.map_congr_left fun info hinfo => ?_
    obtain ⟨i, hi⟩ := Dict.mem_values_iff.mp (List.mem_filter.mp hinfo).1
    obtain ⟨-, -, e', he⟩ := h.filed _ i info hi
    exact (topicOf_inj.mp he).1.symm
  · rfl

theorem mem_jobs_missing (h : s.Homed pending) {now : ℚ} {j : String} :
    j ∈ (s.getMissingHeartbeats now).map (fun info => info.jobId) ↔ topicOf j .heartbeat ∈ s.activeTopics j ∧
      ∃ i info, s.record? (topicOf j .heartbeat) i = some info ∧ info.missing now = true := by
  rw [jobs_missing h, List.mem_flatMap]
  constructor
  · rintro ⟨e, he, hj⟩
    split_ifs at hj with htop
    · obtain ⟨info, hinfo, rfl⟩ := List.mem_map.mp hj
      obtain ⟨hvalue, hmiss⟩ := List.mem_filter.mp hinfo
      obtain ⟨i, hi⟩ := Dict.mem_values_iff.mp hvalue
      refine ⟨?_, i, info, hi, hmiss⟩
      unfold activeTopics
      rw [Dict.mem_entries_iff.mp he]
      exact htop
    · simp at hj
  · rintro ⟨htop, i, info, hi, hmiss⟩
    unfold activeTopics at htop
    cases hact : s.activeSubscriptions.get? j with
    | none =>
      rw [hact] at htop
      simp at htop
    | some topics =>
      rw [hact] at htop
      refine ⟨(j, topics), Dict.mem_entries_iff.mpr hact, ?_⟩
      rw [if_pos (show topicOf j .heartbeat ∈ topics from htop)]
      exact List.mem_map.mpr ⟨info, List.mem_filter.mpr ⟨Dict.mem_values_iff.mpr ⟨i, hi⟩, hmiss⟩, rfl⟩

/-- With one stamped record for each job, no job is selected twice. -/
theorem nodup_jobs_missing (h : s.Homed pending) {now : ℚ}
    (hone : ∀ j i k info info', s.record? (topicOf j .heartbeat) i = some info →
      s.record? (topicOf j .heartbeat) k = some info' → info.missing now = true → info'.missing now = true → i = k) :
    ((s.getMissingHeartbeats now).map fun info => info.jobId).Nodup := by
  rw [jobs_missing h, List.nodup_flatMap]
  refine ⟨fun e _ => ?_, ?_⟩
  · split_ifs
    · rw [List.map_const', List.nodup_replicate]
      exact Dict.length_filter_values_le_one fun i k info info' hi hk => hone e.1 i k info info' hi hk
    · exact List.nodup_nil
  · refine (List.pairwise_map.mp s.activeSubscriptions.nodup).imp fun {e e'} hne => ?_
    intro j hj hj'
    dsimp only at hj hj'
    split_ifs at hj hj'
    · obtain ⟨-, -, rfl⟩ := List.mem_map.mp hj
      obtain ⟨-, -, he⟩ := List.mem_map.mp hj'
      exact hne he.symm
    all_goals simp at hj hj'

end JobTracker

/-! ## The sweep -/

namespace Vigil

variable {ρ : Type} {jobOf : FutureRef → String} {kept : String → Prop} {v v' : Vigil ρ} {m : Monitor ρ}

/-- What is known of the sweep.  While `get_missing_heartbeats` waits for the lock, a job that is heard of leaves
the ones that were silent when the clock was read. -/
structure Sweep (v : Vigil ρ) : Prop where
  positive : 0 < v.clock
  started : v.started ≤ v.clock
  reading : ∀ now, v.monitor.place = .reading now → v.started = now ∧
    ∀ j, v.heardOf j = v.snapshot (topicOf j .heartbeat) ∨ ∃ t, v.heardOf j = some t ∧ now ≤ t
  nodup : v.monitor.place.todo.Nodup
  selected : ∀ j ∈ v.monitor.place.todo, j ∈ v.jobs
  stale : ∀ j ∈ v.jobs, ∃ t, v.snapshot (topicOf j .heartbeat) = some t ∧ heartbeatTimeout < v.started - t
  due : ∀ j ∈ v.monitor.place.todo, ∀ t, (j, t) ∈ v.begun → heartbeatTimeout < v.started - t
  spaced : v.begun.Pairwise fun c d => c.1 = d.1 → heartbeatTimeout < d.2 - c.2

theorem Sweep.mono (h : Sweep v) (hclock : v.clock ≤ v'.clock) (hs : v'.started = v.started)
    (hsnap : v'.snapshot = v.snapshot) (hjobs : v'.jobs = v.jobs) (hbegun : v'.begun = v.begun)
    (hplace : ∀ now, v'.monitor.place = .reading now → v.monitor.place = .reading now)
    (htodo : v'.monitor.place.todo.Sublist v.monitor.place.todo)
    (hheard : ∀ j, v'.heardOf j = v.heardOf j ∨ ∃ t, v'.heardOf j = some t ∧ v.clock ≤ t) : Sweep v' := by
  refine ⟨h.positive.trans_le hclock, ?_, fun now hp => ?_, h.nodup.sublist htodo, fun j hj => ?_, fun j hj => ?_,
    fun j hj t ht => ?_, ?_⟩
  · rw [hs]
    exact h.started.trans hclock
  · obtain ⟨hnow, hold⟩ := h.reading now (hplace now hp)
    refine ⟨hs.trans hnow, fun j => ?_⟩
    rw [hsnap]
    rcases hheard j with heq | ⟨t, ht, hle⟩
    · rw [heq]
      exact hold j
    · exact Or.inr ⟨t, ht, (hnow ▸ h.started).trans hle⟩
  · rw [hjobs]
    exact h.selected j (htodo.subset hj)
  · rw [hsnap, hs]
    exact h.stale j (hjobs ▸ hj)
  · rw [hs]
    exact h.due j (htodo.subset hj) t (hbegun ▸ ht)
  · rw [hbegun]
    exact h.spaced

/-- The monitor wakes up. -/
theorem Sweep.wake (h : Sweep v) {now : ℚ} (hclock : v.clock ≤ now) {p : Place} (hp : p = .ended ∨ p = .reading now) :
    Sweep { v with
      monitor := v.monitor.goto p, clock := now, started := now, snapshot := v.heard, jobs := [] } := by
  have htodo : p.todo = [] := by rcases hp with rfl | rfl <;> rfl
  refine ⟨h.positive.trans_le hclock, le_refl now, fun now' hp' => ⟨?_, fun j => Or.inl rfl⟩, ?_, fun j hj => ?_, by simp,
    fun j hj => ?_, h.spaced⟩
  · have hp'' : p = .reading now' := hp'
    rcases hp with rfl | rfl
    · contradiction
    · exact Place.reading.inj hp''
  · show p.todo.Nodup
    rw [htodo]
    exact List.nodup_nil
  · have hj' : j ∈ p.todo := hj
    rw [htodo] at hj'
    simp at hj'
  · have hj' : j ∈ p.todo := hj
    rw [htodo] at hj'
    simp at hj'

/-- A check is begun. -/
theorem Sweep.begin (h : Sweep v) {j : String} {t : ℚ} (hclock : v.clock ≤ t) (hc : v'.clock = t)
    (hs : v'.started = v.started) (hsnap : v'.snapshot = v.snapshot) (hjobs : v'.jobs = v.jobs)
    (hbegun : v'.begun = v.begun ++ [(j, t)]) (hplace : ∀ now, v'.monitor.place ≠ .reading now)
    (htodo : j :: v'.monitor.place.todo = v.monitor.place.todo) : Sweep v' := by
  have hnodup := h.nodup
  rw [← htodo, List.nodup_cons] at hnodup
  have hmem : ∀ k ∈ v'.monitor.place.todo, k ∈ v.monitor.place.todo := fun k hk => by
    rw [← htodo]
    exact List.mem_cons_of_mem _ hk
  have hj : j ∈ v.monitor.place.todo := by
    rw [← htodo]
    exact List.mem_cons_self
  refine ⟨hc ▸ h.positive.trans_le hclock, ?_, fun now hp => absurd hp (hplace now), hnodup.2, fun k hk => ?_,
    fun k hk => ?_, fun k hk t' ht => ?_, ?_⟩
  · rw [hs, hc]
    exact h.started.trans hclock
  · rw [hjobs]
    exact h.selected k (hmem k hk)
  · rw [hsnap, hs]
    exact h.stale k (hjobs ▸ hk)
  · rw [hs]
    rw [hbegun] at ht
    rcases List.mem_append.mp ht with ht | ht
    · exact h.due k (hmem k hk) t' ht
    · obtain ⟨rfl, -⟩ := Prod.mk.inj (List.mem_singleton.mp ht)
      exact absurd hk hnodup.1
  · rw [hbegun, List.pairwise_append]
    refine ⟨h.spaced, List.pairwise_singleton _ _, fun c hc' d hd hcd => ?_⟩
    obtain rfl := List.mem_singleton.mp hd
    obtain ⟨k, t'⟩ := c
    obtain rfl : k = j := hcd
    have hdue := h.due k hj t' hc'
    have hle := h.started.trans hclock
    show heartbeatTimeout < t - t'
    linarith

/-! ## One step -/

/-- What holds of every state. -/
structure Inv (jobOf : FutureRef → String) (kept : String → Prop) (v : Vigil ρ) : Prop where
  regular : v.session.Regular jobOf
  watch : ∀ j, ∃ x, Watch jobOf (kept j) j x v
  sweep : Sweep v

section Step

variable (h : Inv jobOf kept v)
include h

/-- The monitor thread moves without the tracker. -/
theorem Inv.idle (hs : m.session = v.session) (hplace : ∀ now, m.place = .reading now → v.monitor.place = .reading now)
    (htodo : m.place.todo.Sublist v.monitor.place.todo) : Inv jobOf kept { v with monitor := m } := by
  refine ⟨?_, fun j => ?_, h.sweep.mono le_rfl rfl rfl rfl rfl hplace htodo fun _ => Or.inl rfl⟩
  · show m.session.Regular jobOf
    rw [hs]
    exact h.regular
  · obtain ⟨x, hx⟩ := h.watch j
    refine ⟨x, hx.of_records ?_ (fun hk => ?_) id (fun _ => id) le_rfl rfl (fun _ => Iff.rfl)
      (fun hj => htodo.subset hj) fun i info hi => Or.inl ?_⟩
    · show m.session.Marks jobOf j .heartbeat x
      rw [hs]
      exact hx.marks
    · show m.session.Installs jobOf j .heartbeat x
      rw [hs]
      exact hx.installs hk
    · have hi' : m.session.tracker.record? (topicOf j .heartbeat) i = some info := hi
      rw [hs] at hi'
      exact hi'

/-- A section of any thread that stamps no heartbeat record. -/
theorem Inv.section (hinj : ∀ f g, jobOf f = jobOf g → f = g) {l : SlurmManager.Label} (hl : Session.Sectioned l)
    (hk : ∀ j, kept j → Session.Leaves j .heartbeat v.session l) (hs : Session.Steps v.session l m.session)
    (hcheck : ∀ j', l.act ≠ .beginSchedulerCheck j' ∧ ∀ n, l.act ≠ .startCheck n j')
    (hdeliver : l.act = .deliver → arriving v.session = none)
    (hproceed : ∀ n f i o rest, l.act = .proceed n → v.session.calls n = .indexing f .heartbeat i o rest →
      v.heardOf (v.session.jobOf f) = some l.rt.time) {c : ℚ} (hc : v.clock ≤ c)
    (hplace : ∀ now, m.place = .reading now → v.monitor.place = .reading now)
    (htodo : m.place.todo.Sublist v.monitor.place.todo) : Inv jobOf kept { v with monitor := m, clock := c } := by
  refine ⟨h.regular.step hl hs, fun j => ?_, h.sweep.mono hc rfl rfl rfl rfl hplace htodo fun _ => Or.inl rfl⟩
  obtain ⟨x, hx⟩ := h.watch j
  refine hx.section h.regular hinj hl (hk j) hs hcheck (fun hd => ?_) hproceed hc rfl rfl fun hj => htodo.subset hj
  rw [hdeliver hd]
  simp

/-- A heartbeat arrives. -/
theorem Inv.arrival (hinj : ∀ f g, jobOf f = jobOf g → f = g) {rt : Runtime} {t : Topic}
    (hs : Session.Steps v.session ⟨rt, .deliver⟩ m.session) (harr : arriving v.session = some t)
    (hclock : v.clock ≤ rt.time) (hplace : m.place = v.monitor.place) : Inv jobOf kept { v with
      monitor := m, clock := rt.time, heard := Function.update v.heard t (some rt.time) } := by
  refine ⟨h.regular.step (l := ⟨rt, .deliver⟩) trivial hs, fun j => ?_, h.sweep.mono hclock rfl rfl rfl rfl ?_ ?_ fun j => ?_⟩
  · obtain ⟨x, hx⟩ := h.watch j
    by_cases ht : t = topicOf j .heartbeat
    · subst ht
      exact ⟨x, hx.arrival h.regular hinj hs harr hclock h.sweep.positive rfl (Function.update_self _ _ _) rfl
        (congrArg Place.todo hplace)⟩
    · refine hx.section (l := ⟨rt, .deliver⟩) h.regular hinj trivial (fun _ => trivial) hs (by simp) (fun _ => ?_)
        (by simp) hclock (Function.update_of_ne (Ne.symm ht) _ _) rfl fun hj => ?_
      · rw [harr]
        exact fun he => ht (Option.some.inj he)
      · show j ∈ v.monitor.place.todo
        rw [← hplace]
        exact hj
  · intro now hp
    exact hplace.symm.trans hp
  · show m.place.todo.Sublist _
    rw [hplace]
  · by_cases ht : topicOf j .heartbeat = t
    · subst ht
      exact Or.inr ⟨rt.time, Function.update_self _ _ _, hclock⟩
    · exact Or.inl (Function.update_of_ne ht _ _)

/-- `track` sets a stamp. -/
theorem Inv.stamp {n : ℕ} {now : ℚ} {f : FutureRef} {i : SubId} {o : Bool} {rest : List Event}
    (hn : v.session.calls n = .indexing f .heartbeat i o rest) (hclock : v.clock ≤ now) {st : ℕ → Bool} :
    Inv jobOf kept { v with
      clock := now, stamped := st
      heard := Function.update v.heard (topicOf (v.session.jobOf f) .heartbeat) (some now) } := by
  obtain ⟨pending, hh⟩ := h.regular.homed
  have hjob : v.session.jobOf f = jobOf f := hh.jobIds f
  refine ⟨h.regular, fun j => ?_, h.sweep.mono hclock rfl rfl rfl rfl (fun _ => id) (List.Sublist.refl _) fun j => ?_⟩
  · obtain ⟨x, hx⟩ := h.watch j
    by_cases hj : jobOf f = j
    · have hphase : (v.session.calls n).phase jobOf j .heartbeat = some (.inFlight i) := by
        rw [hn]
        exact if_pos hj
      refine ⟨x, hx.stamp (hx.marks.calls n _ hphase) hclock h.sweep.positive rfl rfl ?_ rfl⟩
      rw [← hj, ← hjob]
      exact Function.update_self _ _ _
    · refine ⟨x, hx.of_records hx.marks hx.installs id (fun _ => id) hclock ?_ (fun _ => Iff.rfl) id fun i info => Or.inl⟩
      refine Function.update_of_ne (fun ht => hj ?_) _ _
      rw [← hjob]
      exact (topicOf_inj.mp ht).1.symm
  · by_cases ht : topicOf j .heartbeat = topicOf (v.session.jobOf f) .heartbeat
    · exact Or.inr ⟨now, (congrArg _ ht).trans (Function.update_self _ _ _), hclock⟩
    · exact Or.inl (Function.update_of_ne ht _ _)

/-- A check is begun. -/
theorem Inv.begin (hinj : ∀ f g, jobOf f = jobOf g → f = g) {rt : Runtime} {k : String} {f : FutureRef}
    (hf : v.session.tracker.Active k f) (hclock : v.clock ≤ rt.time)
    (hs : m.session = { v.session with tracker := v.session.tracker.checked rt k })
    (hplace : ∀ now, m.place ≠ .reading now) (htodo : k :: m.place.todo = v.monitor.place.todo) :
    Inv jobOf kept { v with monitor := m, clock := rt.time, begun := v.begun ++ [(k, rt.time)] } := by
  have hstep : Session.Steps v.session ⟨rt, .beginSchedulerCheck k⟩ m.session := by
    rw [hs]
    refine congrArg some ?_
    show ({ v.session with tracker := (beginSchedulerCheck rt k).after v.session.tracker } : Session) = _
    rw [after, exec_beginSchedulerCheck_active rt hf]
  refine ⟨h.regular.step (l := ⟨rt, .beginSchedulerCheck k⟩) trivial hstep, fun j => ?_,
    h.sweep.begin hclock rfl rfl rfl rfl rfl hplace htodo⟩
  obtain ⟨x, hx⟩ := h.watch j
  exact ⟨x, hx.begin h.regular hinj hf hs hclock rfl rfl rfl htodo⟩

/-- The record that has a job selected. -/
theorem Inv.missing {now : ℚ} {j : String} {i : SubId} {info : SubscriptionInfo} (hi : v.record? j i = some info)
    (hm : info.missing now = true) : info.callback = none ∧ ∃ t, v.heardOf j = some t ∧
      heartbeatTimeout < now - t ∧ ∀ c, info.lastSchedulerCheck = some c → heartbeatTimeout < now - c := by
  obtain ⟨x, hx⟩ := h.watch j
  have hcb : info.callback = none := by
    by_contra hcb
    unfold SubscriptionInfo.missing at hm
    rw [hx.listeners i info hi hcb] at hm
    simp at hm
  obtain ⟨hlast, hsome⟩ := hx.stamps i info hi hcb
  obtain ⟨t, ht⟩ := Option.isSome_iff_exists.mp hsome
  unfold SubscriptionInfo.missing at hm
  rw [hlast, ht] at hm
  dsimp only at hm
  split_ifs at hm with h0 hle
  refine ⟨hcb, t, ht, not_le.mp hle, fun c hc => ?_⟩
  rw [hc] at hm
  dsimp only at hm
  split_ifs at hm with hle'
  exact not_le.mp hle'

/-- The jobs that `get_missing_heartbeats` selects at the time `now`. -/
def selection (v : Vigil ρ) (now : ℚ) : List String :=
  (v.session.tracker.getMissingHeartbeats now).map fun info => info.jobId

theorem Inv.selection_nodup (now : ℚ) : (v.selection now).Nodup := by
  obtain ⟨pending, hh⟩ := h.regular.homed
  refine nodup_jobs_missing hh.tracker fun j i k info info' hi hk hm hm' => ?_
  obtain ⟨x, hx⟩ := h.watch j
  have hi' := hx.marks.records i info hi (h.missing hi hm).1
  have hk' := hx.marks.records k info' hk (h.missing hk hm').1
  exact Installation.indexed.inj (hi'.symm.trans hk')

/-- A selected job was silent when the clock was read, and its last check, if any, is long ago. -/
theorem Inv.mem_selection {now : ℚ} (hp : v.monitor.place = .reading now) {j : String} (hj : j ∈ v.selection now)
    {x : Installation} (hx : Watch jobOf (kept j) j x v) : (∃ i, x = .indexed i) ∧
      (∃ t, v.snapshot (topicOf j .heartbeat) = some t ∧ heartbeatTimeout < v.started - t) ∧
      ∀ t, (j, t) ∈ v.begun → heartbeatTimeout < v.started - t := by
  obtain ⟨pending, hh⟩ := h.regular.homed
  obtain ⟨-, i, info, hi, hm⟩ := (mem_jobs_missing hh.tracker).mp hj
  obtain ⟨hcb, t, ht, hlt, hcheck⟩ := h.missing hi hm
  obtain ⟨rfl, hread⟩ := h.sweep.reading now hp
  refine ⟨⟨i, hx.marks.records i info hi hcb⟩, ⟨t, ?_, hlt⟩, fun t' ht' => ?_⟩
  · rcases hread j with hsame | ⟨t', ht', hle⟩
    · exact hsame.symm.trans ht
    · obtain rfl := Option.some.inj (ht.symm.trans ht')
      have hpos : (0 : ℚ) < heartbeatTimeout := by decide
      linarith
  · obtain ⟨c, hc, hle⟩ := (hx.begun t' ht').2.2 i info hi hcb
    have hlt' := hcheck c hc
    linarith

/-- **A silent job is selected**: tracked and unfinished, its subscription indexed and left alone, and neither heard of
nor checked lately. -/
theorem Inv.selects {now : ℚ} {j : String} {f : FutureRef} {t : ℚ} (hk : kept j) (hf : v.session.tracker.Active j f)
    (ht : v.heardOf j = some t) (hidle : ∀ n i o rest, v.session.calls n ≠ .indexing f .heartbeat i o rest)
    (hlt : heartbeatTimeout < now - t) (hchecks : ∀ c, (j, c) ∈ v.begun → heartbeatTimeout < now - c)
    (hinj : ∀ f g, jobOf f = jobOf g → f = g) : j ∈ v.selection now := by
  obtain ⟨pending, hh⟩ := h.regular.homed
  obtain ⟨x, hx⟩ := h.watch j
  obtain ⟨i, rfl⟩ : ∃ i, x = .indexed i := by
    cases x with
    | indexed i => exact ⟨i, rfl⟩
    | absent =>
      rw [hx.unheard rfl] at ht
      contradiction
    | subscribed i =>
      obtain ⟨n, hn⟩ := hx.marks.flying i rfl
      obtain ⟨g, o, rest, hcall, hg⟩ := Session.indexing_of_phase hn
      obtain rfl := hinj g f (hg.trans (hh.registry j f hf.1).symm)
      exact absurd hcall (hidle n i o rest)
  obtain ⟨htop, info, hinfo, hcb⟩ := (hx.installs hk).indexed f i hf.1 hf.2 rfl
  refine (mem_jobs_missing hh.tracker).mpr ⟨htop, i, info, hinfo, ?_⟩
  have hlast := (hx.stamps i info hinfo hcb).1.trans ht
  have hpos := (hx.positive t ht).1
  unfold SubscriptionInfo.missing
  rw [hlast]
  dsimp only
  rw [if_neg hpos.ne', if_neg (not_le.mpr hlt)]
  cases hc : info.lastSchedulerCheck with
  | none => rfl
  | some c =>
    dsimp only
    rw [if_neg (not_le.mpr (hchecks c (hx.checks i info c hinfo hcb hc)))]

/-- The monitor selects the jobs of the sweep. -/
theorem Inv.select {now : ℚ} (hp : v.monitor.place = .reading now) {sel : List String} : Inv jobOf kept { v with
    monitor := { v.monitor with place := .sweeping (v.selection now), selected := sel }
    jobs := v.selection now } := by
  have hstale : ∀ j ∈ v.selection now,
      (∃ t, v.snapshot (topicOf j .heartbeat) = some t ∧ heartbeatTimeout < v.started - t) ∧
        ∀ t, (j, t) ∈ v.begun → heartbeatTimeout < v.started - t := by
    intro j hj
    obtain ⟨x, hx⟩ := h.watch j
    exact (h.mem_selection hp hj hx).2
  refine ⟨h.regular, fun j => ?_, h.sweep.positive, h.sweep.started, fun now' hp' => by contradiction,
    h.selection_nodup now, fun j => id, fun j hj => (hstale j hj).1, fun j hj => (hstale j hj).2, h.sweep.spaced⟩
  obtain ⟨x, hx⟩ := h.watch j
  exact ⟨x, hx.marks, hx.installs, hx.unheard, hx.positive, hx.listeners, hx.stamps, hx.checks, hx.begun,
    fun hj => (h.mem_selection hp hj hx).1⟩

/-- The monitor thread moves; the tracker is as a status has left it. -/
theorem Inv.resolved (hinj : ∀ f g, jobOf f = jobOf g → f = g) {rt : Runtime} {str : Json → String} {f : FutureRef}
    {record : Object}
    (hs : m.session = { v.session with tracker := (applyRecord rt str f record).after v.session.tracker })
    (hplace : ∀ now, m.place = .reading now → v.monitor.place = .reading now)
    (htodo : m.place.todo.Sublist v.monitor.place.todo) : Inv jobOf kept { v with monitor := m } := by
  rcases after_applyRecord (t := v.session.tracker) rt str f record with he | ⟨status, -, he⟩
  · rw [he] at hs
    exact h.idle hs hplace htodo
  · rw [he] at hs
    exact h.section (l := ⟨rt, .applyStatus { status := status } f⟩) hinj trivial (fun _ _ => trivial)
      (congrArg some hs.symm) (by simp) (by simp) (by simp) le_rfl hplace htodo

/-- The monitor wakes up. -/
theorem Inv.wake {now : ℚ} (hclock : v.clock ≤ now) {p : Place} (hp : p = .ended ∨ p = .reading now) :
    Inv jobOf kept { v with
      monitor := v.monitor.goto p, clock := now, started := now, snapshot := v.heard, jobs := [] } := by
  refine ⟨h.regular, fun j => ?_, h.sweep.wake hclock hp⟩
  obtain ⟨x, hx⟩ := h.watch j
  refine ⟨x, hx.of_records hx.marks hx.installs id (fun _ => id) hclock rfl (fun _ => Iff.rfl) (fun hj => ?_)
    fun i info => Or.inl⟩
  have hj' : j ∈ p.todo := hj
  rcases hp with rfl | rfl <;> simp [Place.todo] at hj'

/-- An exception that `_check_slurm_job` catches or not. -/
theorem Inv.caught {r : ρ} {e : PyError} {j : String} {todo : List String} (htodo : todo = v.monitor.place.todo) :
    Inv jobOf kept { v with monitor := ({ v.monitor with rest := r }).caught e j todo } := by
  unfold Monitor.caught
  split_ifs
  · exact h.idle rfl (fun _ hp => by contradiction) (htodo ▸ List.Sublist.refl todo)
  · exact h.idle rfl (fun _ hp => by contradiction) (List.nil_sublist _)

/-- The other threads. -/
theorem Inv.other (hinj : ∀ f g, jobOf f = jobOf g → f = g) {l : SlurmManager.Label} {t : Session}
    (hok : Fair v (.monitor (.other l))) (hk : ∀ j, kept j → Session.Leaves j .heartbeat v.session l)
    (hs : Session.Steps v.session l t) :
    Inv jobOf kept (v.observe { v.monitor with session := t } (.other l)) := by
  obtain ⟨hl, hact⟩ := hok
  by_cases hd : l.act = .deliver
  · obtain ⟨rt, act⟩ := l
    obtain rfl : act = .deliver := hd
    cases harr : arriving v.session with
    | none =>
      have he : v.observe { v.monitor with session := t } (.other ⟨rt, .deliver⟩) =
          { v with monitor := { v.monitor with session := t }, clock := rt.time } := by
        unfold observe
        dsimp only
        rw [harr]
      rw [he]
      exact h.section hinj hl hk hs (by simp) (fun _ => harr) (by simp) hact (fun _ => id) (List.Sublist.refl _)
    | some topic =>
      have he : v.observe { v.monitor with session := t } (.other ⟨rt, .deliver⟩) =
          { v with
            monitor := { v.monitor with session := t }, clock := rt.time
            heard := Function.update v.heard topic (some rt.time) } := by
        unfold observe
        dsimp only
        rw [harr]
      rw [he]
      exact h.arrival hinj hs harr hact rfl
  · have he : v.observe { v.monitor with session := t } (.other l) =
        { v with monitor := { v.monitor with session := t } } := by
      unfold observe
      dsimp only
      split
      · exact absurd ‹_› hd
      · rfl
    rw [he]
    refine h.section hinj hl hk hs (fun j => ⟨fun hx => ?_, fun n hx => ?_⟩) (fun hx => absurd hx hd)
      (fun n f i o rest hx hn => ?_) le_rfl (fun _ => id) (List.Sublist.refl _)
    · rw [hx] at hact
      exact hact
    · rw [hx] at hact
      exact hact
    · rw [hx] at hact
      exact (hact f i o rest hn).2

variable {str : Json → String} {client : RestClient ρ} {l : Label ρ}

omit h in
theorem todo_of_asks {l : Monitor.Label ρ} {j : String} {f : FutureRef} {todo : List String} {accounting : Bool}
    (hask : v.monitor.Asks l j f todo accounting) : todo = v.monitor.place.todo := by
  cases hask with
  | controller hp => rw [hp]; rfl
  | accounting hp => rw [hp]; rfl

omit h in
theorem observe_of_asks {l : Monitor.Label ρ} {j : String} {f : FutureRef} {todo : List String} {accounting : Bool}
    (hask : v.monitor.Asks l j f todo accounting) (m : Monitor ρ) : v.observe m l = { v with monitor := m } := by
  cases hask <;> rfl

/-- **Every step of every thread keeps the invariant.** -/
theorem Inv.step (hinj : ∀ f g, jobOf f = jobOf g → f = g) (hok : Fair v l) (hk : ∀ j, kept j → Keeps j v l)
    (hs : Steps str client v l v') :
    Inv jobOf kept v' := by
  cases l with
  | stamp n now =>
    unfold Steps Vigil.step at hs
    dsimp only at hs
    split at hs
    · split_ifs at hs
      obtain rfl := Option.some.inj hs
      exact h.stamp ‹_› hok
    · contradiction
  | monitor l =>
    obtain ⟨m, hm, rfl⟩ := Option.map_eq_some_iff.mp hs
    cases (show v.monitor.Steps str client l m from hm).turn with
    | other ht => exact h.other hinj hok hk ht
    | service rest => exact h.idle rfl (fun _ => id) (List.Sublist.refl _)
    | stop => exact h.idle rfl (fun _ => id) (List.Sublist.refl _)
    | wake hp =>
      refine h.wake hok ?_
      split_ifs
      · exact Or.inl rfl
      · exact Or.inr rfl
    | select hp => exact h.select hp
    | swept hp => exact h.idle rfl (fun _ hp => by contradiction) (List.nil_sublist _)
    | @begun rt j f todo hp hf =>
      have htodo : j :: todo = v.monitor.place.todo := by rw [hp]; rfl
      exact h.begin hinj hf hok rfl (fun _ hp => by contradiction) htodo
    | @skipped rt j todo hp hno =>
      have htodo : j :: todo = v.monitor.place.todo := by rw [hp]; rfl
      exact h.idle rfl (fun _ hp => by contradiction) (htodo ▸ List.sublist_cons_self j todo)
    | @lapsed j f todo hp hd =>
      have htodo : todo = v.monitor.place.todo := by rw [hp]; rfl
      exact h.idle rfl (fun _ hp => by contradiction) (htodo ▸ List.Sublist.refl todo)
    | @found l j f todo _ record r hask hc =>
      rw [observe_of_asks hask]
      exact h.idle rfl (fun _ hp => by contradiction) (todo_of_asks hask ▸ List.Sublist.refl todo)
    | @unknown j f todo r hask hc =>
      exact h.idle rfl (fun _ hp => by contradiction) (todo_of_asks hask ▸ List.Sublist.refl todo)
    | @unrecorded j f todo r hask hc =>
      exact h.idle rfl (fun _ hp => by contradiction) (todo_of_asks hask ▸ List.Sublist.refl todo)
    | raised hask hc =>
      rw [observe_of_asks hask]
      exact h.caught (todo_of_asks hask)
    | @resolved rt j f record todo r t hp hc =>
      have htodo : todo = v.monitor.place.todo := by rw [hp]; rfl
      have ht : (applyRecord rt str f record).after v.session.tracker = t := by
        rw [after]
        exact congrArg Prod.snd hc
      have hsession : ({ v.session with tracker := t } : Session) =
          { v.session with tracker := (applyRecord rt str f record).after v.session.tracker } := by rw [ht]
      cases r with
      | ok u => exact h.resolved hinj hsession (fun _ hp => by contradiction) (htodo ▸ List.Sublist.refl todo)
      | error e => exact h.resolved hinj hsession (fun _ hp => by contradiction) (List.nil_sublist _)

end Step

/-! ## Runs -/

section Runs

variable {str : Json → String} {client : RestClient ρ} {l : Label ρ} {kept : String → Prop}

theorem Initial.inv (h : v.Initial) : Inv v.session.jobOf kept v := by
  have hrec : ∀ j i, v.record? j i = none := by
    intro j i
    unfold record? JobTracker.record?
    rw [h.session.maps.2.2.1]
    rfl
  have htodo : v.monitor.place.todo = [] := by rw [h.place]; rfl
  refine ⟨h.session.regular, fun j => ⟨.absent, ?_⟩, ?_⟩
  · have hx := h.session.installs j .heartbeat
    refine ⟨hx.toMarks, fun _ => hx, fun _ => h.unheard _, fun t ht => ?_, fun i info hi => ?_, fun i info hi => ?_,
      fun i info c hi => ?_, fun t ht => ?_, fun hj => ?_⟩
    · unfold heardOf at ht
      rw [h.unheard] at ht
      contradiction
    · rw [hrec] at hi
      contradiction
    · rw [hrec] at hi
      contradiction
    · rw [hrec] at hi
      contradiction
    · rw [h.unbegun] at ht
      simp at ht
    · rw [htodo] at hj
      simp at hj
  · obtain ⟨hstarted, hjobs⟩ := h.unstarted
    refine ⟨h.clock, hstarted ▸ h.clock.le, fun now hp => ?_, ?_, fun j hj => ?_, fun j hj => ?_, fun j hj => ?_, ?_⟩
    · rw [h.place] at hp
      contradiction
    · rw [htodo]
      exact List.nodup_nil
    · rw [htodo] at hj
      simp at hj
    · rw [hjobs] at hj
      simp at hj
    · rw [htodo] at hj
      simp at hj
    · rw [h.unbegun]
      exact List.Pairwise.nil

/-- The one step that begins a check. -/
theorem begun_of_step (hs : Steps str client v l v') : v'.begun = v.begun ∨
    ∃ (rt : Runtime) (j : String) (f : FutureRef) (todo : List String),
    v.monitor.place = .sweeping (j :: todo) ∧ v.session.tracker.Active j f ∧ v'.begun = v.begun ++ [(j, rt.time)] := by
  cases l with
  | stamp n now =>
    unfold Steps Vigil.step at hs
    dsimp only at hs
    split at hs
    · split_ifs at hs
      obtain rfl := Option.some.inj hs
      exact Or.inl rfl
    · contradiction
  | monitor l =>
    obtain ⟨m, hm, rfl⟩ := Option.map_eq_some_iff.mp hs
    cases (show v.monitor.Steps str client l m from hm).turn with
    | other =>
      refine Or.inl ?_
      unfold observe
      dsimp only
      split <;> rfl
    | @begun rt j f todo hp hf => exact Or.inr ⟨rt, j, f, todo, hp, hf, rfl⟩
    | found hask => exact Or.inl (by rw [observe_of_asks hask])
    | raised hask => exact Or.inl (by rw [observe_of_asks hask])
    | _ => exact Or.inl rfl

/-- When the monitor thread takes a job. -/
structure Throttled (str : Json → String) (client : RestClient ρ) (v : Vigil ρ) : Prop where
  /-- The checks of a job are far apart. -/
  spaced : v.begun.Pairwise fun c d => c.1 = d.1 → heartbeatTimeout < d.2 - c.2
  /-- A sweep takes no job twice. -/
  once : ∀ v', v.Steps str client (.monitor .select) v' → v'.jobs.Nodup
  /-- A check is begun for an unfinished job of the sweep that was silent when the sweep began. -/
  due : ∀ l v', v.Steps str client l v' → v'.begun = v.begun ∨ ∃ j now f t, v'.begun = v.begun ++ [(j, now)] ∧
    j ∈ v.jobs ∧ v.session.tracker.Active j f ∧ v.snapshot (topicOf j .heartbeat) = some t ∧
    heartbeatTimeout < v.started - t

/-- What the monitor thread does with the job when its heartbeats are missing. -/
structure Monitored (str : Json → String) (client : RestClient ρ) (j : String) (v : Vigil ρ) : Prop
    extends Throttled str client v where
  /-- A sweep takes the job if it is tracked, unfinished, and was neither heard of nor checked lately. -/
  complete : ∀ v' f t, v.Steps str client (.monitor .select) v' → v.session.tracker.Active j f →
    (∀ n i o rest, v.session.calls n ≠ .indexing f .heartbeat i o rest) → v.heardOf j = some t →
    heartbeatTimeout < v.started - t → (∀ c, (j, c) ∈ v.begun → heartbeatTimeout < v.started - c) → j ∈ v'.jobs

/-- The jobs that a sweep takes. -/
theorem Sweep.select (h : Sweep v) (hs : v.Steps str client (.monitor .select) v') :
    v.monitor.place = .reading v.started ∧ v'.jobs = v.selection v.started := by
  obtain ⟨m, hm, rfl⟩ := Option.map_eq_some_iff.mp hs
  cases (show v.monitor.Steps str client .select m from hm).turn with
  | select hp =>
    obtain ⟨rfl, -⟩ := h.reading _ hp
    exact ⟨hp, rfl⟩
  | found hask => cases hask
  | raised hask => cases hask

theorem Inv.throttled (h : Inv jobOf kept v) : Throttled str client v := by
  refine ⟨h.sweep.spaced, fun v' hs => ?_, fun l v' hs => ?_⟩
  · rw [(h.sweep.select hs).2]
    exact h.selection_nodup v.started
  · rcases begun_of_step hs with he | ⟨rt, j, f, todo, hp, hf, he⟩
    · exact Or.inl he
    · have hj : j ∈ v.jobs := by
        refine h.sweep.selected j ?_
        rw [hp]
        exact List.mem_cons_self
      obtain ⟨t, ht, hlt⟩ := h.sweep.stale j hj
      exact Or.inr ⟨j, rt.time, f, t, he, hj, hf, ht, hlt⟩

/-- What holds after any steps that leave the heartbeat subscriptions of the jobs `kept` alone. -/
theorem run_inv {v₀ : Vigil ρ} {ls : List (Label ρ)} (h₀ : v₀.Initial)
    (hrun : Run (Steps str client) (fun v l => Fair v l ∧ ∀ j, kept j → Keeps j v l) v₀ ls v) :
    Inv v₀.session.jobOf kept v :=
  hrun.invariant (I := fun v => Inv v₀.session.jobOf kept v) h₀.inv
    fun _ _ _ h hok hs => h.step h₀.session.jobIds hok.1 hok.2 hs

/-- **Heartbeat monitoring is throttled**, whatever the other threads do in between, heartbeat subscriptions removed
and all. -/
theorem heartbeat_throttling {v₀ : Vigil ρ} {ls : List (Label ρ)} (h₀ : v₀.Initial)
    (hrun : Run (Steps str client) Fair v₀ ls v) : Throttled str client v := by
  have hinv : Inv v₀.session.jobOf (fun _ => False) v :=
    run_inv h₀ (hrun.mono fun _ _ hok => ⟨hok, fun _ => False.elim⟩)
  exact hinv.throttled

/-- **Heartbeat monitoring is throttled and complete**: it misses no job whose heartbeat subscription the other threads
leave alone (no removal of its topic or of the tracker's own id, none of the job broken off by Redis), whatever they do
to the other jobs. -/
theorem heartbeat_monitoring {v₀ : Vigil ρ} {ls : List (Label ρ)} {j : String} (h₀ : v₀.Initial)
    (hrun : Run (Steps str client) (fun v l => Fair v l ∧ Keeps j v l) v₀ ls v) : Monitored str client j v := by
  have hinv : Inv v₀.session.jobOf (fun j' => j' = j) v :=
    run_inv h₀ (hrun.mono fun _ _ hok => ⟨hok.1, fun j' hj => hj ▸ hok.2⟩)
  refine ⟨hinv.throttled, fun v' f t hs hf hidle ht hlt hchecks => ?_⟩
  rw [(hinv.sweep.select hs).2]
  exact hinv.selects rfl hf ht hidle hlt hchecks h₀.session.jobIds

/-- A scheduler that has no record of any job. -/
def oblivious : RestClient Unit := ⟨fun _ _ => pure [], fun _ => pure (), fun _ => pure (), fun _ _ => pure none⟩

/-- A new tracker for the jobs `j`, `jj`, …, and a clock that shows 1. -/
def fresh : Vigil Unit where
  monitor := { session := Session.new (fun _ _ => none) Session.unary, rest := () }
  clock := 1

/-- The job `j` is tracked at 5, a topic is removed, and a sweep comes at 20. -/
def silence (t : Topic) : List (Label Unit) :=
  [.monitor (.other ⟨.still, .startTrack 0 0⟩), .monitor (.other ⟨.still, .proceed 0⟩), .stamp 0 5,
    .monitor (.other ⟨{ Runtime.still with time := 5 }, .proceed 0⟩),
    .monitor (.other ⟨.still, .removeSubscriptionByTopic t⟩), .monitor (.wake 20)]

/-- Whether the step is one of the monitor, of `track` or the removal of a topic, and keeps to the clock. -/
def punctual (v : Vigil ρ) : Label ρ → Bool
  | .stamp _ now => decide (v.clock ≤ now)
  | .monitor (.other l) =>
    match l.act with
    | .startTrack _ _ => true
    | .removeSubscriptionByTopic _ => true
    | .proceed n =>
      match v.session.calls n with
      | .indexing f .heartbeat _ _ _ =>
        v.stamped n && decide (v.heard (topicOf (v.session.jobOf f) .heartbeat) = some l.rt.time)
      | _ => true
    | _ => false
  | .monitor (.wake now) => decide (v.clock ≤ now)
  | .monitor (.next rt) => decide (v.clock ≤ rt.time)
  | .monitor _ => true

theorem fair_of_punctual (v : Vigil ρ) (l : Label ρ) (h : v.punctual l = true) : Fair v l := by
  cases l with
  | stamp n now => exact of_decide_eq_true (p := v.clock ≤ now) h
  | monitor l =>
    cases l with
    | other l =>
      obtain ⟨rt, act⟩ := l
      cases act with
      | startTrack n f => exact ⟨trivial, trivial⟩
      | removeSubscriptionByTopic t => exact ⟨trivial, trivial⟩
      | proceed n =>
        refine ⟨trivial, fun f i o rest hn => ?_⟩
        unfold punctual at h
        simp only [hn, Bool.and_eq_true, decide_eq_true_eq] at h
        exact h
      | _ => contradiction
    | wake now => exact of_decide_eq_true (p := v.clock ≤ now) h
    | next rt => exact of_decide_eq_true (p := v.clock ≤ rt.time) h
    | _ => trivial

/-- Whether the step removes no subscription of the job. -/
def tame (j : String) : Label ρ → Bool
  | .monitor (.other l) =>
    match l.act with
    | .startTrack _ _ | .proceed _ => true
    | .removeSubscriptionByTopic t => decide (t ≠ topicOf j .heartbeat)
    | _ => false
  | _ => true

theorem keeps_of_tame {j : String} (v : Vigil ρ) (l : Label ρ) (h : tame j l = true) : Keeps j v l := by
  cases l with
  | stamp n now => trivial
  | monitor l =>
    cases l with
    | other l =>
      obtain ⟨rt, act⟩ := l
      cases act with
      | startTrack n f => trivial
      | proceed n => trivial
      | removeSubscriptionByTopic t => exact of_decide_eq_true (p := t ≠ topicOf j .heartbeat) h
      | _ => contradiction
    | _ => trivial

theorem initial_fresh : fresh.Initial :=
  ⟨Session.initial_new _ Session.unary_injective, rfl, by decide +kernel, fun _ => rfl, rfl, rfl, rfl⟩

/-- The job is selected, its check begins at 21, and its heartbeat topic is removed. -/
theorem heartbeat_throttling_of_removed_topic : ∃ v : Vigil Unit,
    v.begun = [("j", 21)] ∧ v.record? "j" 0 = none ∧ Throttled (fun _ => "") oblivious v := by
  have hex : ∃ v : Vigil Unit, Run (Steps (fun _ => "") oblivious) Fair fresh (silence "info/j/log" ++
      [.monitor .select, .monitor (.next { Runtime.still with time := 21 }),
        .monitor (.other ⟨.still, .removeSubscriptionByTopic "info/j/heartbeat"⟩)]) v ∧
      (decide (v.begun = [("j", 21)]) && (v.record? "j" 0).isNone) = true :=
    Run.of_leads (fun _ _ _ => id) fair_of_punctual (by decide +kernel)
  obtain ⟨v, hrun, hend⟩ := hex
  obtain ⟨hbegun, hnone⟩ := Bool.and_eq_true_iff.mp hend
  exact ⟨v, of_decide_eq_true hbegun, Option.isNone_iff_eq_none.mp hnone, heartbeat_throttling initial_fresh hrun⟩

/-- Another job's topic is removed, and the sweep takes the job. -/
theorem heartbeat_monitoring_of_silent_job : ∃ v : Vigil Unit,
    (v.step (fun _ => "") oblivious (.monitor .select)).map Vigil.jobs = some ["j"] ∧
      Monitored (fun _ => "") oblivious "j" v := by
  have hkeeps : ∀ (v : Vigil Unit) l, (v.punctual l && tame "j" l) = true → Fair v l ∧ Keeps "j" v l := by
    intro v l h
    obtain ⟨hp, ht⟩ := Bool.and_eq_true_iff.mp h
    exact ⟨fair_of_punctual v l hp, keeps_of_tame v l ht⟩
  have hex : ∃ v : Vigil Unit, Run (Steps (fun _ => "") oblivious) (fun v l => Fair v l ∧ Keeps "j" v l) fresh
      (silence "info/jj/heartbeat") v ∧
      decide ((v.step (fun _ => "") oblivious (.monitor .select)).map Vigil.jobs = some ["j"]) = true :=
    Run.of_leads (fun _ _ _ => id) hkeeps (by decide +kernel)
  obtain ⟨v, hrun, hjobs⟩ := hex
  exact ⟨v, of_decide_eq_true hjobs, heartbeat_monitoring initial_fresh hrun⟩

end Runs

end Vigil

end SlurmManager
