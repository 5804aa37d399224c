import SlurmManager.Tracking.CallSteps

/-!
# ListenerAgreement — the tracker and its client on concurrent registrations

`add_subscription` subscribes in the client without holding the tracker's lock and indexes later.  The
validation in between asks whether the job is still active, not whether the registration still is.

* `Mirrored`: an id of the tracker is registered in the client under the same topic, so a message on
  the topic reaches it.
* `concurrent_registrations`: this holds as long as no validation that finds the job active comes
  after a removal of its topic by `remove_subscription_by_topic` (`Current`).
* `lost_listener`: the one order of steps that breaks it.
-/

namespace SlurmManager

open JobTracker Config

namespace Session

/-- Every id that the tracker lists is registered in the client under the same topic, and is among the
callbacks that the listener thread captures for a message on it. -/
def Mirrored (s : JobTracker) : Prop :=
  ∀ i t, s.topicBySubscriptionId.get? i = some t →
    s.subClient.topicBySubscriptionId.get? i = some t ∧ ∃ sub ∈ s.subClient.capture t, sub.id = i

theorem mirrored_of_agree {jobOf : FutureRef → String} {c : Config} (h : c.Inv jobOf)
    (ha : c.Agree jobOf) : Mirrored c.tracker := by
  intro i t hi
  have hcl := ha.mirrored i t hi
  refine ⟨hcl, ?_⟩
  obtain ⟨sub, hf⟩ := (RedisSubClient.topic_eq_some_iff h.wellFormed.client).mp hcl
  obtain ⟨hid, -⟩ := h.wellFormed.client.filed i t sub hf
  refine ⟨sub, (RedisSubClient.mem_capture_iff h.wellFormed.client).mpr ?_, hid⟩
  rw [hid]
  exact hf

/-- No overtaken registration is indexed. -/
def indexingCurrent : Guard where
  fresh := True

/-! ## Overtaken registrations -/

/-- The client has dropped every overtaken registration in flight. -/
def Dropped (c : Config) : Prop :=
  ∀ i p, c.pending i = some p → p.overtaken = true →
    c.tracker.subClient.topicBySubscriptionId.get? i = none

theorem Dropped.removed {c : Config} (hd : Dropped c) {k : RedisSubClient ClientCallback}
    {gone : SubId → Topic → Prop} (h : c.tracker.subClient.WellFormed)
    (hk : RedisSubClient.Removed c.tracker.subClient gone k) {i : SubId} {p : Pending}
    (hp : c.pending i = some p) (ho : p.overtaken = true) : k.topicBySubscriptionId.get? i = none := by
  cases hi : k.topicBySubscriptionId.get? i with
  | none => rfl
  | some t =>
    obtain ⟨hold, -⟩ := (hk.topic_iff h).mp hi
    rw [hd i p hp ho] at hold
    simp at hold

theorem Dropped.step {jobOf : FutureRef → String} {c c' : Config} {l : Micro} (hd : Dropped c)
    (h : c.Inv jobOf) (hs : Config.Step jobOf c l c') : Dropped c' := by
  intro i p hp ho
  have hcl := h.wellFormed.client
  cases hs with
  | stamp hst =>
    rw [hst.subClient]
    exact hd i p hp ho
  | @subscribe t cb k f hk ht hf =>
    show k.topicBySubscriptionId.get? i = none
    rw [hk.topic hcl]
    by_cases hin : i = c.tracker.subClient.nextUuid
    · subst hin
      obtain rfl : Pending.mk t f false = p := by simpa using hp
      simp at ho
    · rw [if_neg hin]
      exact hd i p (by simpa [Function.update_of_ne hin] using hp) ho
  | refuse hk _ => exact (hk.topic hcl i).trans (hd i p hp ho)
  | @index k q info ids hq hi ht hj hr hids =>
    have hne : i ≠ k := by
      rintro rfl
      simp at hp
    exact hd i p (by simpa [Function.update_of_ne hne] using hp) ho
  | @undo k q cl hq hk =>
    have hne : i ≠ k := by
      rintro rfl
      simp at hp
    exact hd.removed hcl hk (by simpa [Function.update_of_ne hne] using hp) ho
  | removeId hpr _ => exact hd.removed hcl hpr.client hp ho
  | @removeTopic t s' hpr hr =>
    obtain ⟨q, hq, hqp⟩ := Option.map_eq_some_iff.mp hp
    by_cases hqt : q.topic = t
    · -- the removal took the registration along
      cases hi : s'.subClient.topicBySubscriptionId.get? i with
      | none => rfl
      | some t' =>
        obtain ⟨hold, hno⟩ := (hpr.client.topic_iff hcl).mp hi
        rcases h.owned i t' hold with hown | ⟨q', hq', hqt'⟩
        · rw [(h.pending i q hq).2.1] at hown
          simp at hown
        · obtain rfl := Option.some.inj (hq.symm.trans hq')
          exact absurd (hqt'.symm.trans hqt) hno
    · rw [if_neg hqt] at hqp
      subst hqp
      exact hd.removed hcl hpr.client hq ho
  | accept => exact hd i p hp ho
  | finish _ _ hpr _ _ => exact hd.removed hcl hpr.client hp ho
  | discard hpr _ _ => exact hd.removed hcl hpr.client hp ho
  | publish => exact hd i p hp ho
  | listen => exact hd i p hp ho

/-- A step that is not current indexes a registration that the client has dropped. -/
theorem not_mirrored_of_overtaken {jobOf : FutureRef → String} {s s' : Session} {l : Label}
    {pending : SubId → Option Pending} (h : s.Sound jobOf pending) (hd : Dropped (s.config pending))
    (hs : Steps s l s') (hc : ¬ s.Current l) : ¬ Mirrored s'.tracker := by
  unfold Current at hc
  push Not at hc
  obtain ⟨n, a, f, i, o, hl, hcall, hreg, hdone, ho⟩ := hc
  obtain rfl : o = true := by simpa using ho
  obtain ⟨rt, act⟩ := l
  obtain rfl : act = .proceed n := hl
  have hp := h.holds.listed n i ⟨a.topic, f, true⟩ (by rw [hcall]; rfl)
  have hfits := h.fits n
  rw [hcall] at hfits
  have hlost := hd i _ hp rfl
  have hs : s.proceed rt n = some s' := hs
  unfold proceed at hs
  rw [hcall] at hs
  rcases validateListener_step h.inv a hp rfl rfl hfits.1 with ⟨-, -, x, hx, hstep⟩ | ⟨hno, -⟩
  · have hx' : (validateListener a f i).exec s.tracker = (.ok i, x) := hx
    simp only [hx'] at hs
    obtain rfl := Option.some.inj hs
    intro hm
    cases hstep with
    | @index _ q info ids hq hi ht hj hr hids =>
      have htop : (s.tracker.indexed info i).topicBySubscriptionId.get? i = some info.topic := by
        rw [topic_indexed, if_pos rfl]
      have hcl : s.tracker.subClient.topicBySubscriptionId.get? i = some info.topic := (hm i _ htop).1
      rw [show s.tracker.subClient.topicBySubscriptionId.get? i = none from hlost] at hcl
      simp at hcl
  · rcases hno with hno | hno
    · exact absurd hreg hno
    · rw [show (s.tracker.futures f).done = true from hno] at hdone
      simp at hdone

/-! ## Runs -/

/-- **The tracker and its client agree about every listener as long as no validation is overtaken**,
in every interleaving in which `track` is one step: after a run of current steps they agree, and they
agree after one more step exactly when that step is current. -/
theorem concurrent_registrations {s₀ s : Session} {ls : List Label} (h₀ : s₀.Initial)
    (hu : s₀.tracker.subClient.pubsub.UnsubscribeOk)
    (hrun : Run Steps (fun s l => TracksWhole l ∧ s.Current l) s₀ ls s) :
    Mirrored s.tracker ∧
      ∀ l s', TracksWhole l → Steps s l s' → (Mirrored s'.tracker ↔ s.Current l) := by
  have hadmitted : Run Steps (Admits indexingCurrent) s₀ ls s :=
    (hrun.strengthen h₀.noTrack (fun s l t h hl hs => h.step hl.1 hs)
      fun s l h hl => h.admits (fun _ => trivial) fun _ => hl.2).1
  obtain ⟨pending, ms, hms, hsound⟩ := simulated h₀ hu hadmitted
  have hinv := (h₀.sound hu).inv
  have ha := run_agree (g := indexingCurrent) trivial hms hinv h₀.agree
  have hd : Dropped (s.config pending) :=
    (hms.invariant (I := fun c => c.Inv s₀.jobOf ∧ Dropped c) ⟨hinv, fun i p hp => by simp at hp⟩
      fun _ _ _ hc _ hs => ⟨hc.1.step hs, hc.2.step hc.1 hs⟩).2
  refine ⟨mirrored_of_agree hsound.inv ha, fun l s' hl hs => ⟨fun hm => ?_, fun hc => ?_⟩⟩
  · by_contra hc
    exact not_mirrored_of_overtaken hsound hd hs hc hm
  · have hnt : s.NoTrack := (hrun.invariant h₀.noTrack fun s l t h hl hs => h.step hl.1 hs)
    obtain ⟨pending', ks, hks, -, -⟩ :=
      hsound.answered (g := indexingCurrent) (hnt.admits (fun _ => trivial) fun _ => hc) hs
    have ha' := run_agree (g := indexingCurrent) trivial hks hsound.inv ha
    exact mirrored_of_agree (run_sound hks hsound).1 ha'

theorem current_proceed {s : Session} {rt : Runtime} {n : ℕ}
    (h : ∀ a f i, s.calls n ≠ .validating a f i true) : s.Current ⟨rt, .proceed n⟩ := by
  rintro m a f i (_ | _) hl hc - -
  · rfl
  · cases hl
    exact absurd hc (h a f i)

/-- Two calls of `add_subscription`, with a removal by topic before the first one subscribes. -/
theorem concurrent_registrations_of_two_listeners : ∃ s,
    Run Steps (fun s l => TracksWhole l ∧ s.Current l) (new (fun _ _ => none) unary)
      [⟨.still, .track 0⟩, ⟨.still, .startAdd 0 ⟨"j", .log, 7⟩⟩, ⟨.still, .startAdd 1 ⟨"j", .log, 8⟩⟩,
        ⟨.still, .removeSubscriptionByTopic "info/j/log"⟩, ⟨.still, .proceed 0⟩, ⟨.still, .proceed 0⟩] s ∧
      Mirrored s.tracker ∧
      ∀ l s', TracksWhole l → Steps s l s' → (Mirrored s'.tracker ↔ s.Current l) := by
  have hex : ∃ s, Run Steps (fun s l => TracksWhole l ∧ s.Current l) (new (fun _ _ => none) unary)
      [⟨.still, .track 0⟩, ⟨.still, .startAdd 0 ⟨"j", .log, 7⟩⟩, ⟨.still, .startAdd 1 ⟨"j", .log, 8⟩⟩,
        ⟨.still, .removeSubscriptionByTopic "info/j/log"⟩, ⟨.still, .proceed 0⟩, ⟨.still, .proceed 0⟩] s := by
    refine ⟨_, Run.cons ⟨nofun, nofun⟩ rfl (Run.cons ⟨nofun, nofun⟩ rfl (Run.cons ⟨nofun, nofun⟩ rfl
      (Run.cons ⟨nofun, nofun⟩ rfl (Run.cons ⟨nofun, current_proceed ?_⟩ rfl
        (Run.single ⟨nofun, current_proceed ?_⟩ rfl)))))⟩
    · exact fun a f i hc => Call.noConfusion hc
    · exact fun a f i hc => by cases hc
  obtain ⟨s, hrun⟩ := hex
  exact ⟨s, hrun, concurrent_registrations (initial_new _ unary_injective) (fun _ _ => rfl) hrun⟩

/-- **A listener lost by a removal in between.** -/
theorem lost_listener : ∃ s,
    Run Steps (fun _ l => TracksWhole l) (new (fun _ _ => none) unary)
      [⟨.still, .track 0⟩, ⟨.still, .startAdd 0 ⟨"j", .log, 7⟩⟩, ⟨.still, .proceed 0⟩,
        ⟨.still, .removeSubscriptionByTopic "info/j/log"⟩, ⟨.still, .proceed 0⟩] s ∧
      s.calls 0 = .ended (.ok (some 3)) ∧
      s.tracker.topicBySubscriptionId.get? 3 = some "info/j/log" ∧
      s.tracker.subClient.topicBySubscriptionId.get? 3 = none ∧
      s.tracker.subClient.subscriptionsByTopic.get? "info/j/log" = none ∧
      ¬ Mirrored s.tracker := by
  refine ⟨_, Run.cons nofun rfl (Run.cons nofun rfl (Run.cons nofun rfl (Run.cons nofun rfl
    (Run.single nofun rfl)))), rfl, rfl, rfl, rfl, fun h => ?_⟩
  exact absurd (h 3 "info/j/log" rfl).1 (by decide)

end Session

end SlurmManager
