import SlurmManager.Tracking.Effects

/-!
# TrackingRace — a job that ends while `track` is still registering it

`track` puts the future in the registry first and then subscribes and indexes three times.  Unlike
`add_subscription` it does not look at the registry again, so what it registers after the job was
removed stays.

* `Tracking`, `Ends`: a future in the middle of `track`, and the steps that end a job.
* `Undisturbed`: a step that ends no job in the middle of its `track`.
* `no_orphan_from_initial_tracking`: in runs of such steps, a finished or removed job is mentioned
  nowhere.
* `orphan_from_initial_tracking`: a run with one other step, and what it leaves.
-/

namespace SlurmManager

open JobTracker Config Program

namespace Session

/-- The future is in the middle of `track`. -/
def Tracking (s : Session) (f : FutureRef) : Prop :=
  ∃ n, (∃ e rest, s.calls n = .subscribing f e rest) ∨
    ∃ e i o rest, s.calls n = .indexing f e i o rest

/-- The step applies a terminal status to the unfinished future, or removes its job. -/
def Ends (s : Session) (l : Label) (f : FutureRef) : Prop :=
  (∃ m, s.Applies l m f ∧ (s.tracker.futures f).done = false ∧ (decoded l.rt m).terminal = true) ∨
    ∃ skip, l.act = .removeSubscriptionsForJob (s.jobOf f) skip

/-- The step ends no job in the middle of its `track`.  The listener thread takes a message in sections
(`poll` and `deliver`). -/
def Undisturbed (s : Session) (l : Label) : Prop :=
  (∀ t m, l.act ≠ .dispatchMessage t m) ∧ ∀ f, s.Tracking f → ¬ s.Ends l f

variable {jobOf : FutureRef → String} {s s' : Session} {l : Label} {pending : SubId → Option Pending}

/-- A call is in the middle of `track` because it was so before, or because it just began. -/
theorem Tracking.before {f : FutureRef} (hs : Steps s l s') (h : s'.Tracking f) :
    s.Tracking f ∨ ∃ n, l.act = .startTrack n f := by
  obtain ⟨n, hn⟩ := h
  have hm := hs.moves n
  suffices hbefore : ((∃ e rest, s.calls n = .subscribing f e rest) ∨
      ∃ e i o rest, s.calls n = .indexing f e i o rest) ∨ l.act = .startTrack n f from
    hbefore.imp (fun hb => ⟨n, hb⟩) fun hb => ⟨n, hb⟩
  generalize s.calls n = c at hm
  generalize s'.calls n = c' at hm hn
  cases hm with
  | stay => exact Or.inl hn
  | overtake => cases c <;> simp_all [Call.overtake]
  | publish hl hf =>
    refine Or.inr ?_
    obtain ⟨e, rest, he⟩ | ⟨e, i, o, rest, he⟩ := hn
    · cases he
      exact hl
    · cases he
  | _ => simp_all

section Registry

variable (h : s.Sound jobOf pending) (hinj : ∀ f g, jobOf f = jobOf g → f = g)
include h hinj

/-- A job stays in the registry through every step that does not end it. -/
theorem registry_kept {f : FutureRef} (hs : Steps s l s') (hd : ∀ t m, l.act ≠ .dispatchMessage t m)
    (hf : s.tracker.futureRegistry.get? (jobOf f) = some f) (hno : ¬ s.Ends l f) :
    s'.tracker.futureRegistry.get? (jobOf f) = some f := by
  have hpub := (h.inv.registry _ f hf).2.2
  have hjobs : ∀ g, (s.tracker.futures g).jobId = jobOf g := h.inv.jobIds
  have heff := hs.effect
  generalize s'.tracker = t at heff
  cases heff with
  | keep x hx => exact ((hx.map fun y => y.1.get? (jobOf f)) s.tracker).trans hf
  | @publish g hg x hx =>
    have hne : jobOf f ≠ jobOf g := by
      intro hj
      exact hg (hinj f g hj ▸ hpub)
    refine ((hx.map fun y => y.1.get? (jobOf f)) (publishFuture g s.tracker)).trans ?_
    show (s.tracker.futureRegistry.set (s.tracker.futures g).jobId g).get? (jobOf f) = some f
    rw [hjobs, Dict.get?_set_ne _ _ hne, hf]
  | @status m g ha =>
    by_cases hdone : (s.tracker.futures g).done = true
    · rw [Program.after, exec_applyStatus_done l.rt m g hdone]
      exact hf
    · have hdone : (s.tracker.futures g).done = false := by simpa using hdone
      cases hterm : (decoded l.rt m).terminal with
      | false =>
        rw [Program.after, exec_applyStatus_running l.rt m g hdone hterm]
        exact hf
      | true =>
        have hne : jobOf f ≠ jobOf g := by
          intro hj
          obtain rfl := hinj f g hj
          exact hno (Or.inl ⟨m, ha, hdone, hterm⟩)
        rw [Program.after, exec_applyStatus_terminal l.rt m g hdone hterm, hjobs]
        exact (frame_discardJob_registry l.rt hne _).trans hf
  | @discard j skip hact =>
    have hne : jobOf f ≠ j := by
      rintro rfl
      exact hno (Or.inr ⟨skip, by rw [h.jobOf_eq]; exact hact⟩)
    exact (frame_discardJob_registry l.rt hne _).trans hf
  | @removeIds ids _ =>
    exact (((frame_removeSubscriptionById ids).map fun y => y.1.get? (jobOf f)) s.tracker).trans hf
  | @listen e cb _ =>
    exact (((frame_listenGlobal e cb).map fun y => y.1.get? (jobOf f)) s.tracker).trans hf
  | deliver _ _ hev =>
    exact (((frame_deliver l.rt hev).map fun y => y.1.get? (jobOf f)) s.tracker).trans hf
  | dispatch hact => exact absurd hact (hd _ _)

/-- While a future is in the middle of `track`, its job is in the registry. -/
def Kept (jobOf : FutureRef → String) (s : Session) : Prop :=
  ∀ f, s.Tracking f → s.tracker.futureRegistry.get? (jobOf f) = some f

omit hinj in
/-- Then the registrations of `track` are indexed for a job in the registry. -/
theorem Kept.admits (hk : s.Kept jobOf) : s.Admits {} l := by
  obtain ⟨rt, act⟩ := l
  unfold Admits
  cases act with
  | removeSubscriptionById ids => exact fun _ _ => trivial
  | proceed n =>
    simp only
    split
    · rename_i f e i o rest hcall
      refine ⟨?_, fun hf => hf.elim⟩
      rw [h.jobOf_eq]
      exact hk f ⟨n, Or.inr ⟨e, i, o, rest, hcall⟩⟩
    · exact fun hf => hf.elim
    · trivial
  | _ => trivial

omit hinj in
/-- The first section of `track`. -/
theorem registry_of_startTrack {f : FutureRef} (hs : Steps s l s') {n : ℕ}
    (hl : l.act = .startTrack n f) : s'.tracker.futureRegistry.get? (jobOf f) = some f := by
  obtain ⟨rt, act⟩ := l
  obtain rfl : act = .startTrack n f := hl
  unfold Steps step at hs
  simp only at hs
  cases hcall : s.calls n with
  | idle =>
    simp only [hcall] at hs
    split_ifs at hs
    obtain rfl := Option.some.inj hs
    show (s.tracker.futureRegistry.set (s.tracker.futures f).jobId f).get? (jobOf f) = some f
    rw [show (s.tracker.futures f).jobId = jobOf f from h.inv.jobIds f, Dict.get?_set_self]
  | _ => simp [hcall] at hs

theorem Kept.step (hk : s.Kept jobOf) (hl : s.Undisturbed l) (hs : Steps s l s') : s'.Kept jobOf := by
  intro f hf
  rcases hf.before hs with hold | ⟨n, hnew⟩
  · exact registry_kept h hinj hs hl.1 (hk f hold) (hl.2 f hold)
  · exact registry_of_startTrack h hs hnew

end Registry

/-- **No orphan from initial tracking**, in the runs that end no job in the middle of its `track`.  A
job that is done or out of the registry is mentioned nowhere once no call holds a registration for it;
when SUBSCRIBE calls do not raise either, Redis was last asked to drop each of its topics. -/
theorem no_orphan_from_initial_tracking {s₀ : Session} {ls : List Label} (h₀ : s₀.Initial)
    (hu : s₀.tracker.subClient.pubsub.UnsubscribeOk) (hrun : Run Steps Undisturbed s₀ ls s)
    {f : FutureRef} (hend : (s.tracker.futures f).done = true ∨
      s.tracker.futureRegistry.get? (s.jobOf f) = none) (hs : s.Settled (s.jobOf f)) :
    s.tracker.Forgotten (s.jobOf f) ∧ (s₀.tracker.subClient.pubsub.SubscribeOk →
      ∀ t, IsTopicOf (s.jobOf f) t → s.tracker.subClient.subscriptionReady.get? t = none ∧
        isOpen s.tracker.subClient.pubsub.sent t = false) := by
  have hkept₀ : s₀.Kept s₀.jobOf := by
    rintro g ⟨n, hn⟩
    rw [h₀.calls n] at hn
    simp at hn
  have hadmitted : Run Steps (Admits {}) s₀ ls s := by
    refine (hrun.strengthen (I := fun x => (∃ pending, x.Sound s₀.jobOf pending) ∧ x.Kept s₀.jobOf)
      ⟨⟨_, h₀.sound hu⟩, hkept₀⟩ ?_ ?_).1
    · rintro x l y ⟨⟨pending, hx⟩, hk⟩ hl hs
      exact ⟨hx.step (hk.admits hx) hs, hk.step hx h₀.jobIds hl hs⟩
    · rintro x l ⟨⟨pending, hx⟩, hk⟩ -
      exact hk.admits hx
  obtain ⟨pending, ms, hms, h⟩ := simulated h₀ hu hadmitted
  have hnone : s.tracker.futureRegistry.get? (s.jobOf f) = none := by
    rcases hend with hdone | hnone
    · cases hreg : s.tracker.futureRegistry.get? (s.jobOf f) with
      | none => rfl
      | some g =>
        obtain ⟨hj, hd, -⟩ := h.inv.registry _ g hreg
        rw [h.jobOf_eq] at hj
        obtain rfl := h₀.jobIds g f hj
        rw [show (s.tracker.futures g).done = false from hd] at hdone
        simp at hdone
    · exact hnone
  have hfor := h.inv.forgotten hnone (h.settled hs)
  refine ⟨hfor, fun hsub t ht => ?_⟩
  have hquiet := run_quiet hms (h₀.sound hu).inv (h₀.quiet ⟨hsub, hu⟩)
  exact hquiet.closed (hfor.callbacks t ht)

/-- A job that finished while another one was in the middle of its `track`. -/
theorem no_orphan_from_initial_tracking_of_two_jobs : ∃ s, Run Steps Undisturbed
      (new (fun _ _ => none) unary)
      [⟨.still, .startTrack 0 0⟩, ⟨.still, .track 1⟩,
        ⟨.still, .applyStatus { status := "finished" } 1⟩] s ∧
    s.tracker.Forgotten (s.jobOf 1) ∧ ((new (fun _ _ => none) unary).tracker.subClient.pubsub.SubscribeOk →
      ∀ t, IsTopicOf (s.jobOf 1) t → s.tracker.subClient.subscriptionReady.get? t = none ∧
        isOpen s.tracker.subClient.pubsub.sent t = false) := by
  have hother : ∀ {n : ℕ}, n ≠ 0 →
      Function.update (fun _ => Call.idle) 0 (.subscribing 0 .heartbeat [.status, .log]) n = .idle :=
    fun hn => Function.update_of_ne hn _ _
  have hex : ∃ s, Run Steps Undisturbed (new (fun _ _ => none) unary)
      [⟨.still, .startTrack 0 0⟩, ⟨.still, .track 1⟩,
        ⟨.still, .applyStatus { status := "finished" } 1⟩] s ∧
      (s.tracker.futures 1).done = true ∧
      s.calls = Function.update (fun _ => Call.idle) 0 (.subscribing 0 .heartbeat [.status, .log]) := by
    refine ⟨_, Run.cons ⟨nofun, fun f _ => ?_⟩ rfl (Run.cons ⟨nofun, fun f _ => ?_⟩ rfl
      (Run.single ⟨nofun, fun f => ?_⟩ rfl)), rfl, rfl⟩
    · rintro (⟨m, ha, -⟩ | ⟨skip, ha⟩)
      · cases ha <;> contradiction
      · contradiction
    · rintro (⟨m, ha, -⟩ | ⟨skip, ha⟩)
      · cases ha <;> contradiction
      · contradiction
    · rintro ⟨n, hn⟩ (⟨m, ha, -⟩ | ⟨skip, ha⟩)
      · cases ha with
        | call hact =>
          cases hact
          by_cases h0 : n = 0
          · subst h0
            rcases hn with ⟨e, rest, hn⟩ | ⟨e, i, o, rest, hn⟩ <;> cases hn
          · rcases hn with ⟨e, rest, hn⟩ | ⟨e, i, o, rest, hn⟩ <;> cases (hother h0).symm.trans hn
        | _ => contradiction
      · contradiction
  obtain ⟨s, hrun, hdone, hcalls⟩ := hex
  refine ⟨s, hrun, no_orphan_from_initial_tracking (initial_new _ unary_injective) (fun _ _ => rfl) hrun
    (Or.inl hdone) fun n i p hn => ?_⟩
  rw [hcalls] at hn
  by_cases h0 : n = 0
  · subst h0
    cases hn
  · rw [hother h0] at hn
    cases hn

/-- **An orphan from initial tracking.**  The job is removed after its heartbeat subscription was
indexed.  `track` goes on, returns normally, and the status and log registrations of the finished job
stay on both sides. -/
theorem orphan_from_initial_tracking : ∃ s, Run Steps (fun _ _ => True) (new (fun _ _ => none) unary)
      [⟨.still, .startTrack 0 0⟩, ⟨.still, .proceed 0⟩, ⟨.still, .proceed 0⟩,
        ⟨.still, .removeSubscriptionsForJob "j" false⟩, ⟨.still, .proceed 0⟩,
        ⟨.still, .proceed 0⟩, ⟨.still, .proceed 0⟩, ⟨.still, .proceed 0⟩] s ∧
    s.calls 0 = .ended (.ok none) ∧
    (s.tracker.futures 0).done = true ∧
    s.tracker.futureRegistry.get? "j" = none ∧
    s.tracker.activeSubscriptions.get? "j" = some ["info/j/status", "info/j/log"] ∧
    s.tracker.topicBySubscriptionId.get? 1 = some "info/j/status" ∧
    s.tracker.subClient.topicBySubscriptionId.get? 1 = some "info/j/status" ∧
    (s.tracker.subClient.subscriptionsByTopic.get? "info/j/log").isSome ∧
    ¬ s.tracker.Forgotten "j" := by
  refine ⟨_, Run.cons trivial rfl (Run.cons trivial rfl (Run.cons trivial rfl (Run.cons trivial rfl
    (Run.cons trivial rfl (Run.cons trivial rfl (Run.cons trivial rfl (Run.single trivial rfl))))))),
    rfl, rfl, rfl, rfl, rfl, rfl, rfl, fun h => ?_⟩
  exact absurd h.active (by decide)

end Session

end SlurmManager
