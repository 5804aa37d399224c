import SlurmManager.Tracking.Config

/-!
# Sections — the code of each critical section is a `Config.Step`

One lemma for each function of `JobTracker` that runs under the lock (and for the client calls made
without it): from a configuration with `Inv` it ends normally, or raises as stated, and the tracker it
leaves is reached by one step.  The functions with several sections (`track`, `add_subscription`,
`remove_subscription_by_id` of a list, the delivery of a message) are runs.
-/

namespace SlurmManager

namespace Config

open JobTracker

variable {jobOf : FutureRef → String} {c : Config}

section Sections

variable (h : c.Inv jobOf)
include h

/-! ## Lifecycle -/

theorem discardJob_step (rt : Runtime) (j : String) :
    ∃ s', (discardJob rt j).exec c.tracker = (.ok (), s') ∧
      Step jobOf c .other { c with tracker := s' } := by
  obtain ⟨s', he, hp, hr, ha, -⟩ :=
    discardJob_ok h.wellFormed rt j (accepts_closing h.unsubscribes _)
  exact ⟨s', he, Step.discard hp hr ha⟩

/-- `apply_status` is one step, whatever the message. -/
theorem applyStatus_step (rt : Runtime) (m : StatusMessage) (f : FutureRef) :
    ∃ s', (applyStatus rt m f).exec c.tracker = (.ok (), s') ∧
      Step jobOf c .other { c with tracker := s' } := by
  by_cases hd : (c.tracker.futures f).done = true
  · exact ⟨_, exec_applyStatus_done rt m f hd, Step.stamp (Stamped.refl h.wellFormed)⟩
  · have hd : (c.tracker.futures f).done = false := by simpa using hd
    cases ht : (decoded rt m).terminal with
    | false => exact ⟨_, exec_applyStatus_running rt m f hd ht, Step.accept hd ht⟩
    | true =>
      have hw := h.wellFormed.congr (sameMaps_accept rt m f)
      obtain ⟨s', he, hp, hr, ha, -⟩ :=
        discardJob_ok hw rt (jobOf f) (accepts_closing h.unsubscribes _)
      refine ⟨s', ?_, Step.finish hd ht hp hr ha⟩
      rw [exec_applyStatus_terminal rt m f hd ht, h.jobIds f]
      exact he

theorem removeSubscriptionsForJob_step (rt : Runtime) (j : String) (skip : Bool) :
    ∃ s', (removeSubscriptionsForJob rt j skip).exec c.tracker = (.ok (), s') ∧
      Step jobOf c .other { c with tracker := s' } := by
  rcases exec_removeSubscriptionsForJob rt j skip with ⟨f, -, -, -, he⟩ | ⟨-, he⟩
  · rw [he]
    exact applyStatus_step h rt _ f
  · rw [he]
    exact discardJob_step h rt j

theorem beginSchedulerCheck_step (rt : Runtime) (j : String) :
    ∃ r s', (beginSchedulerCheck rt j).exec c.tracker = (.ok r, s') ∧
      Step jobOf c .other { c with tracker := s' } := by
  obtain ⟨r, s', he, hs, -⟩ := beginSchedulerCheck_ok h.wellFormed rt j
  exact ⟨r, s', he, Step.stamp hs⟩

/-! ## Removals by id and by topic -/

theorem removeId_step (i : SubId) :
    ∃ s', (removeId i).exec c.tracker = (.ok (), s') ∧
      Step jobOf c (.removeId i) { c with tracker := s' } := by
  obtain ⟨s', he, hp, hr, -⟩ := removeId_ok h.wellFormed h.unsubscribes i
  exact ⟨s', he, Step.removeId hp hr⟩

/-- Removing a list of ids is one step for each. -/
theorem removeSubscriptionById_run (ok : Config → Micro → Prop) (ids : List SubId)
    (hok : ∀ s' i, i ∈ ids → ok { c with tracker := s' } (.removeId i)) :
    ∃ s' ls, (removeSubscriptionById ids).exec c.tracker = (.ok (), s') ∧
      Run (Step jobOf) ok c ls { c with tracker := s' } := by
  unfold removeSubscriptionById
  induction ids generalizing c with
  | nil => exact ⟨c.tracker, [], rfl, Run.nil c⟩
  | cons i ids ih =>
    rw [List.forM_cons]
    obtain ⟨s₁, he₁, hs₁⟩ := removeId_step h i
    obtain ⟨s', ls, he, hrun⟩ := ih (h.step hs₁) fun s' k hk => hok s' k (List.mem_cons_of_mem _ hk)
    refine ⟨s', .removeId i :: ls, ?_, Run.cons (hok c.tracker i (by simp)) hs₁ hrun⟩
    rw [Program.exec_bind_ok he₁]
    exact he

theorem removeSubscriptionByTopic_step (t : Topic) :
    ∃ s', (removeSubscriptionByTopic t).exec c.tracker = (.ok (), s') ∧
      Step jobOf c .other { c with
        tracker := s'
        pending := fun i => (c.pending i).map fun p =>
          if p.topic = t then { p with overtaken := true } else p
        cutTopics := c.cutTopics ++ [t] } := by
  obtain ⟨s', he, hp, hr, -⟩ := removeSubscriptionByTopic_ok h.wellFormed h.unsubscribes t
  exact ⟨s', he, Step.removeTopic hp hr⟩

/-! ## Registrations -/

/-- A client subscription opens a pending registration, or raises what SUBSCRIBE raised. -/
theorem subscribe_step {t : Topic} (cb : ClientCallback) {f : FutureRef} (ht : IsTopicOf (jobOf f) t)
    (hf : f ∈ c.published) :
    (∃ k, (onClient (RedisSubClient.subscribe t cb)).exec c.tracker =
        (.ok c.tracker.subClient.nextUuid, { c.tracker with subClient := k }) ∧
      RedisSubClient.Subscribed c.tracker.subClient t cb k ∧
      Step jobOf c .other { c with
        tracker := { c.tracker with subClient := k }
        pending := Function.update c.pending c.tracker.subClient.nextUuid (some ⟨t, f, false⟩) }) ∨
    (∃ k e, (onClient (RedisSubClient.subscribe t cb)).exec c.tracker =
        (.error e, { c.tracker with subClient := k }) ∧
      c.tracker.subClient.pubsub.outcome (.subscribe t) = .error e ∧
      Step jobOf c .other { c with tracker := { c.tracker with subClient := k } }) := by
  rcases RedisSubClient.subscribe_cases h.wellFormed.client t cb with ⟨k, he, hk⟩ | ⟨e, k, he, hk, -, hs⟩
  · refine Or.inl ⟨k, ?_, hk, Step.subscribe hk ht hf⟩
    rw [exec_onClient, he]
  · refine Or.inr ⟨k, e, ?_, hs, Step.refuse hk hs⟩
    rw [exec_onClient, he]

omit h in
theorem exec_subscribeCallback {s : JobTracker} (e : Event) (f : FutureRef) :
    (subscribeCallback e f).exec s = (onClient (RedisSubClient.subscribe
      (topicOf (s.futures f).jobId e) (internalCallback e f (s.futures f)))).exec s := by
  exact Program.exec_bind_ok (Program.exec_get s)

omit h in
theorem internalInfo_callbackId (rt : Runtime) (e : Event) (f : JobFuture) (i : SubId) :
    (internalInfo rt e f i).callbackId = some i := by cases e <;> rfl

omit h in
theorem internalInfo_topic (rt : Runtime) (e : Event) (f : JobFuture) (i : SubId) :
    (internalInfo rt e f i).topic = topicOf f.jobId e := by cases e <;> rfl

omit h in
theorem internalInfo_jobId (rt : Runtime) (e : Event) (f : JobFuture) (i : SubId) :
    (internalInfo rt e f i).jobId = f.jobId := by cases e <;> rfl

omit h in
theorem internalInfo_callback (rt : Runtime) (e : Event) (f : JobFuture) (i : SubId) :
    (internalInfo rt e f i).callback = none := by cases e <;> rfl

omit h in
theorem exec_indexCallback {s : JobTracker} (rt : Runtime) (e : Event) (f : FutureRef) (i : SubId) :
    (indexCallback rt e f i).exec s = (.ok (), s.indexed (internalInfo rt e (s.futures f) i) i) := by
  refine (Program.exec_bind_ok (Program.exec_get s)).trans ?_
  exact exec_registerSubscriptionForJob (internalInfo_callbackId rt e _ i)

/-- Indexing an internal subscription of a job that is still in the registry. -/
theorem indexCallback_step (rt : Runtime) {e : Event} {f : FutureRef} {i : SubId} {p : Pending}
    (hp : c.pending i = some p) (ht : p.topic = topicOf (c.tracker.futures f).jobId e)
    (hf : p.future = f) (hr : c.tracker.futureRegistry.get? (jobOf f) = some f) :
    Step jobOf c (.index i) { c with
      tracker := c.tracker.indexed (internalInfo rt e (c.tracker.futures f) i) i
      pending := Function.update c.pending i none } := by
  subst hf
  refine Step.index hp (internalInfo_callbackId rt e _ i) ?_ ?_ hr (Or.inl ⟨?_, rfl⟩)
  · rw [internalInfo_topic, ht]
  · rw [internalInfo_jobId, h.jobIds]
  · exact internalInfo_callback rt e _ i

/-- The last section of `add_subscription`: the owner is valid and the record is indexed, or the client
subscription is undone and `RuntimeError` raised. -/
theorem validateListener_step (a : AddArgs) {f : FutureRef} {i : SubId} {p : Pending}
    (hp : c.pending i = some p) (ht : p.topic = a.topic) (hf : p.future = f) (hj : jobOf f = a.jobId) :
    (c.tracker.futureRegistry.get? a.jobId = some f ∧ (c.tracker.futures f).done = false ∧
      ∃ s', (validateListener a f i).exec c.tracker = (.ok i, s') ∧
        Step jobOf c (.index i) { c with
          tracker := s'
          pending := Function.update c.pending i none
          listeners := c.listeners ++ [i] }) ∨
    ((c.tracker.futureRegistry.get? a.jobId ≠ some f ∨ (c.tracker.futures f).done = true) ∧
      ∃ s', (validateListener a f i).exec c.tracker = (.error ⟨.runtimeError, "Job " ++ a.jobId ++
          " finished during subscription registration"⟩, s') ∧
        Step jobOf c .other { c with
          tracker := s'
          pending := Function.update c.pending i none }) := by
  subst hf
  have hx : (validateListener a p.future i).exec c.tracker =
      (if c.tracker.futureRegistry.get? a.jobId ≠ some p.future ∨ (c.tracker.futures p.future).done then do
        let _ ← onClient (RedisSubClient.unsubscribe i)
        throw ⟨.runtimeError, "Job " ++ a.jobId ++ " finished during subscription registration"⟩
      else do
        registerSubscriptionForJob (a.info (c.tracker.futures p.future) i)
        return i : Program PyError JobTracker SubId).exec c.tracker :=
    Program.exec_bind_ok (Program.exec_get c.tracker)
  rw [hx, Program.exec_ite]
  by_cases hv : c.tracker.futureRegistry.get? a.jobId ≠ some p.future ∨
      (c.tracker.futures p.future).done = true
  · refine Or.inr ⟨hv, ?_⟩
    obtain ⟨r, k, he, hk, hok⟩ := RedisSubClient.unsubscribe_spec h.wellFormed.client i
    obtain ⟨r, rfl⟩ := hok h.unsubscribes
    refine ⟨{ c.tracker with subClient := k }, ?_, Step.undo hp hk⟩
    rw [if_pos hv, Program.exec_bind_ok (a := r) (t := { c.tracker with subClient := k })]
    · rfl
    · rw [exec_onClient, he]
  · refine Or.inl ?_
    rw [if_neg hv]
    obtain ⟨hr, hd⟩ := not_or.mp hv
    have hr : c.tracker.futureRegistry.get? a.jobId = some p.future := not_not.mp hr
    refine ⟨hr, by simpa using hd, c.tracker.indexed (a.info (c.tracker.futures p.future) i) i, ?_, ?_⟩
    · rw [Program.exec_bind_ok (exec_registerSubscriptionForJob rfl)]
      rfl
    · exact Step.index hp rfl ht.symm hj.symm (by rw [hj]; exact hr) (Or.inr ⟨by simp [AddArgs.info], rfl⟩)

omit h in
theorem listenGlobal_step (e : Event) (cb : Callback) :
    ∃ s', (listenGlobal e cb).exec c.tracker = (.ok c.tracker.subClient.nextUuid, s') ∧
      Step jobOf c .other { c with tracker := s' } := by
  exact ⟨_, rfl, Step.listen⟩

/-! ## Deliveries -/

/-- The call of one captured callback is one step; it never raises. -/
theorem deliver_step (rt : Runtime) (m : SlurmMessage) (sub : Subscription ClientCallback) :
    ∃ s', (deliver rt m sub).exec c.tracker = (.ok (), s') ∧
      Step jobOf c .other { c with tracker := s' } := by
  have hsame : Step jobOf c .other { c with tracker := c.tracker } := Step.stamp (Stamped.refl h.wellFormed)
  unfold deliver
  cases sub.callback with
  | ignoreStatus => exact ⟨_, rfl, hsame⟩
  | dispatch d => exact ⟨_, rfl, Step.stamp (Stamped.tasks h.wellFormed _)⟩
  | log j slurm => exact ⟨_, rfl, Step.stamp (Stamped.tasks h.wellFormed _)⟩
  | heartbeat j slurm =>
    obtain ⟨s', he, hs⟩ := heartbeatCallback_ok h.wellFormed rt
      (m.withMetadata (enrich rt m.metadata j slurm)) sub j slurm
    exact ⟨s', he, Step.stamp hs⟩
  | event f =>
    cases m with
    | heartbeat _ => exact ⟨_, rfl, hsame⟩
    | log _ => exact ⟨_, rfl, hsame⟩
    | status m =>
      obtain ⟨s', he, hs⟩ := applyStatus_step h rt { m with
        metadata := enrich rt m.metadata (c.tracker.futures f).jobId (c.tracker.futures f).slurmJobId } f
      refine ⟨s', (Program.exec_bind_ok (Program.exec_get c.tracker)).trans ?_, hs⟩
      rw [Program.exec_tryCatch, he]

theorem dispatchMessage_run {ok : Config → Micro → Prop} (hok : ∀ c, ok c .other) (rt : Runtime)
    (t : Topic) (m : SlurmMessage) :
    ∃ s' ls, (dispatchMessage rt t m).exec c.tracker = (.ok (), s') ∧
      Run (Step jobOf) ok c ls { c with tracker := s' } := by
  have hx : (dispatchMessage rt t m).exec c.tracker =
      (forM (c.tracker.subClient.capture t) (deliver rt m)).exec c.tracker :=
    Program.exec_bind_ok (Program.exec_get c.tracker)
  rw [hx]
  generalize c.tracker.subClient.capture t = l
  induction l generalizing c with
  | nil => exact ⟨c.tracker, [], rfl, Run.nil c⟩
  | cons sub l ih =>
    rw [List.forM_cons]
    obtain ⟨s₁, he₁, hs₁⟩ := deliver_step h rt m sub
    obtain ⟨s', ls, he, hrun⟩ := ih (h.step hs₁) (Program.exec_bind_ok (Program.exec_get s₁))
    refine ⟨s', .other :: ls, ?_, Run.cons (hok c) hs₁ hrun⟩
    rw [Program.exec_bind_ok he₁]
    exact he

/-! ## Whole calls -/

/-- No step removes by id, and none indexes an overtaken registration. -/
def Plain (c : Config) (l : Micro) : Prop :=
  (∀ i, l ≠ .removeId i) ∧ ∀ i p, l = .index i → c.pending i = some p → p.overtaken = false

omit h in
theorem plain_other (c : Config) : c.Plain .other := ⟨by simp, by simp⟩

omit h in
theorem plain_index {i : SubId} {p : Pending} (hp : c.pending i = some p) (ho : p.overtaken = false) :
    c.Plain (.index i) := by
  refine ⟨by simp, fun i' p' hi hp' => ?_⟩
  obtain rfl : i = i' := by simpa using hi
  rw [← Option.some.inj (hp.symm.trans hp')]
  exact ho

theorem pending_nextUuid : c.pending c.tracker.subClient.nextUuid = none := by
  cases hp : c.pending c.tracker.subClient.nextUuid with
  | none => rfl
  | some p => exact absurd (h.pending _ p hp).1 (lt_irrefl _)

/-- A registration that is opened and closed again leaves the table as it was. -/
theorem pending_restore (p : Pending) :
    Function.update (Function.update c.pending c.tracker.subClient.nextUuid (some p))
      c.tracker.subClient.nextUuid none = c.pending := by
  rw [Function.update_idem, ← pending_nextUuid h, Function.update_eq_self]

/-- A `_subscribe_to_*` function: it registers on both sides, or raises what SUBSCRIBE raised. -/
theorem subscribeInternal_run (rt : Runtime) (e : Event) {f : FutureRef} (hf : f ∈ c.published)
    (hr : c.tracker.futureRegistry.get? (jobOf f) = some f) :
    (∃ s' ls, (subscribeInternal rt e f).exec c.tracker = (.ok (), s') ∧
      Run (Step jobOf) Plain c ls { c with tracker := s' } ∧
      s'.futureRegistry = c.tracker.futureRegistry ∧ s'.futures = c.tracker.futures ∧
      ({ c with tracker := s' } : Config).Monitored f e) ∨
    (∃ s' err, (subscribeInternal rt e f).exec c.tracker = (.error err, s') ∧
      c.tracker.subClient.pubsub.outcome (.subscribe (topicOf (c.tracker.futures f).jobId e)) = .error err ∧
      Run (Step jobOf) Plain c [.other] { c with tracker := s' } ∧
      s'.futureRegistry = c.tracker.futureRegistry ∧ s'.futures = c.tracker.futures) := by
  have htop : IsTopicOf (jobOf f) (topicOf (c.tracker.futures f).jobId e) := by
    rw [h.jobIds f]
    exact isTopicOf_topicOf _ _
  have hx := exec_subscribeCallback (s := c.tracker) e f
  unfold subscribeInternal
  rcases subscribe_step h (internalCallback e f (c.tracker.futures f)) htop hf with
    ⟨k, he, hk, hs⟩ | ⟨k, err, he, hout, hs⟩
  · have hnone : c.tracker.find? c.tracker.subClient.nextUuid = none :=
      JobTracker.find?_eq_none_of_le h.wellFormed le_rfl
    have hpend : Function.update c.pending c.tracker.subClient.nextUuid
        (some ⟨topicOf (c.tracker.futures f).jobId e, f, false⟩) c.tracker.subClient.nextUuid =
          some ⟨topicOf (c.tracker.futures f).jobId e, f, false⟩ := Function.update_self ..
    have hi := indexCallback_step (h.step hs) rt (e := e) hpend rfl rfl hr
    refine Or.inl ⟨({ c.tracker with subClient := k } : JobTracker).indexed
        (internalInfo rt e (c.tracker.futures f) c.tracker.subClient.nextUuid)
        c.tracker.subClient.nextUuid,
      [.other, .index c.tracker.subClient.nextUuid], ?_, ?_, rfl, rfl, Or.inr ?_⟩
    · rw [Program.exec_bind_ok (hx.trans he)]
      exact exec_indexCallback rt e f _
    · have hrun := Run.cons (plain_other c) hs (Run.single (plain_index hpend rfl) hi)
      simp only [pending_restore h] at hrun
      exact hrun
    · refine ⟨c.tracker.subClient.nextUuid,
        internalInfo rt e (c.tracker.futures f) c.tracker.subClient.nextUuid,
        ⟨c.tracker.subClient.nextUuid, topicOf (c.tracker.futures f).jobId e,
          internalCallback e f (c.tracker.futures f)⟩, ?_,
        internalInfo_callback rt e _ _, ?_, rfl⟩
      · refine (find?_indexed (h.step hs).wellFormed hnone _).trans ?_
        rw [if_pos rfl, internalInfo_topic]
        rfl
      · show k.find? c.tracker.subClient.nextUuid = _
        rw [hk.find?, if_pos rfl]
        rfl
  · refine Or.inr ⟨{ c.tracker with subClient := k }, err, ?_, hout, Run.single (plain_other c) hs, rfl, rfl⟩
    exact Program.exec_bind_error (hx.trans he)

omit h in
theorem run_failure {ok : Config → Micro → Prop} {c' : Config} {ls : List Micro}
    (hrun : Run (Step jobOf) ok c ls c') :
    c'.tracker.subClient.pubsub.failure = c.tracker.subClient.pubsub.failure :=
  hrun.invariant (I := fun d => d.tracker.subClient.pubsub.failure = c.tracker.subClient.pubsub.failure)
    rfl fun _ _ _ hd _ hs => hs.failure.trans hd

/-- A run keeps what the tracker proofs rely on, and the internal subscriptions it finds. -/
theorem run_keeps {c' : Config} {ls : List Micro} (hrun : Run (Step jobOf) Plain c ls c')
    (hn : c.Named) : c'.Inv jobOf ∧ c'.Named ∧ ∀ f e, c.Watched f e → c'.Watched f e := by
  refine hrun.invariant (I := fun d => d.Inv jobOf ∧ d.Named ∧ ∀ f e, c.Watched f e → d.Watched f e)
    ⟨h, hn, fun _ _ hw => hw⟩ ?_
  rintro d l d' ⟨hd, hdn, hdw⟩ hl hs
  refine ⟨hd.step hs, hdn.step hd hs, fun f e hw => (hdw f e hw).step hd hdn ?_ hs⟩
  exact fun i hi => absurd hi (hl.1 i)

/-- `_subscribe_to_internal_topics`, for any list of events. -/
theorem subscribeAll_run (hn : c.Named) (rt : Runtime) (es : List Event) {f : FutureRef}
    (hf : f ∈ c.published) (hr : c.tracker.futureRegistry.get? (jobOf f) = some f) :
    ∃ r s' ls, (forM es fun e => subscribeInternal rt e f).exec c.tracker = (r, s') ∧
      Run (Step jobOf) Plain c ls { c with tracker := s' } ∧
      s'.futureRegistry = c.tracker.futureRegistry ∧ s'.futures = c.tracker.futures ∧
      (r = .ok () → ∀ e ∈ es, ({ c with tracker := s' } : Config).Monitored f e) ∧
      (c.tracker.subClient.pubsub.SubscribeOk → r = .ok ()) := by
  induction es generalizing c with
  | nil => exact ⟨_, _, [], rfl, Run.nil c, rfl, rfl, by simp, fun _ => rfl⟩
  | cons e es ih =>
    rw [List.forM_cons]
    rcases subscribeInternal_run h rt e hf hr with
      ⟨s₁, ls₁, he₁, hrun₁, hr₁, hfu₁, hm₁⟩ | ⟨s₁, err, he₁, hout, hrun₁, hr₁, hfu₁⟩
    · obtain ⟨h₁, hn₁, -⟩ := run_keeps h hrun₁ hn
      have hreg₁ : s₁.futureRegistry.get? (jobOf f) = some f := by rw [hr₁]; exact hr
      obtain ⟨r, s', ls, he, hrun, hr', hfu, hm, hok⟩ := ih h₁ hn₁ hf hreg₁
      refine ⟨r, s', ls₁ ++ ls, ?_, hrun₁.append hrun, hr'.trans hr₁, hfu.trans hfu₁, ?_, fun hq => ?_⟩
      · rw [Program.exec_bind_ok he₁]
        exact he
      · intro hr_ok e' he'
        rcases List.mem_cons.mp he' with rfl | he'
        · have hw := (run_keeps h₁ hrun hn₁).2.2 f e' ⟨hf, fun _ => hm₁⟩
          refine hw.2 ?_
          show s'.futureRegistry.get? (s'.futures f).jobId = some f
          rw [hr', hr₁, hfu, hfu₁, h.jobIds f]
          exact hr
        · exact hm hr_ok e' he'
      · refine hok ?_
        unfold Pubsub.SubscribeOk
        rw [run_failure hrun₁]
        exact hq
    · refine ⟨.error err, s₁, [.other], Program.exec_bind_error he₁, hrun₁, hr₁, hfu₁, by simp, fun hq => ?_⟩
      rw [Pubsub.outcome_eq_ok_iff.mpr (hq _ _)] at hout
      simp at hout

omit h in
theorem exec_subscribeToInternalTopics {s : JobTracker} (rt : Runtime) (f : FutureRef) :
    (subscribeToInternalTopics rt f).exec s =
      (forM [Event.heartbeat, .status, .log] fun e => subscribeInternal rt e f).exec s := by
  simp only [List.forM_cons, List.forM_nil, subscribeToInternalTopics, subscribeToHeartbeat,
    subscribeToEvent, subscribeToLog, bind_pure_unit]

/-- **`track` as a run.**  When it returns, the three internal subscriptions are registered; it raises
only what a SUBSCRIBE call raised. -/
theorem track_run (hn : c.Named) (rt : Runtime) {f : FutureRef} (hf : f ∉ c.published)
    (hd : (c.tracker.futures f).done = false) :
    ∃ r s' ls, (track rt f).exec c.tracker = (r, s') ∧
      Run (Step jobOf) Plain c ls { c with tracker := s', published := c.published ++ [f] } ∧
      s'.futureRegistry = c.tracker.futureRegistry.set (jobOf f) f ∧ s'.futures = c.tracker.futures ∧
      (r = .ok () → ∀ e,
        ({ c with tracker := s', published := c.published ++ [f] } : Config).Monitored f e) ∧
      (c.tracker.subClient.pubsub.SubscribeOk → r = .ok ()) := by
  have hs : Step jobOf c .other _ := Step.publish hf hd
  have hreg : (publishFuture f c.tracker).futureRegistry = c.tracker.futureRegistry.set (jobOf f) f := by
    unfold publishFuture
    rw [h.jobIds f]
  obtain ⟨r, s', ls, he, hrun, hr, hfu, hm, hok⟩ := subscribeAll_run (h.step hs) (hn.step h hs) rt
    [.heartbeat, .status, .log] (f := f) (by simp) (by
      show (publishFuture f c.tracker).futureRegistry.get? (jobOf f) = some f
      rw [hreg, Dict.get?_set_self])
  refine ⟨r, s', .other :: ls, ?_, Run.cons (plain_other c) hs hrun, hr.trans hreg, hfu, ?_, hok⟩
  · unfold track
    rw [Program.exec_bind_ok (Program.exec_modify _ _)]
    exact (exec_subscribeToInternalTopics rt f).trans he
  · intro hr_ok e
    exact hm hr_ok e (by cases e <;> simp)

omit h in
theorem exec_checkActive {s : JobTracker} (a : AddArgs) : (checkActive a).exec s =
    match s.futureRegistry.get? a.jobId with
    | none => (.error ⟨.runtimeError, "Job " ++ a.jobId ++ " is no longer active"⟩, s)
    | some f =>
      if (s.futures f).done then (.error ⟨.runtimeError, "Job " ++ a.jobId ++ " is no longer active"⟩, s)
      else (.ok f, s) := by
  unfold checkActive
  rw [Program.exec_bind_ok (Program.exec_get s)]
  cases s.futureRegistry.get? a.jobId with
  | none => rfl
  | some f =>
    simp only [Program.exec_ite]
    rfl

/-- `add_subscription`, taken whole: it registers on both sides or raises and registers nothing. -/
theorem addSubscription_run (a : AddArgs) :
    (∃ i s' ls, (addSubscription a).exec c.tracker = (.ok i, s') ∧
      Run (Step jobOf) Plain c ls { c with tracker := s', listeners := c.listeners ++ [i] }) ∨
    (∃ e s' ls, (addSubscription a).exec c.tracker = (.error e, s') ∧
      Run (Step jobOf) Plain c ls { c with tracker := s' }) := by
  have hx := exec_checkActive (s := c.tracker) a
  unfold addSubscription
  cases hr : c.tracker.futureRegistry.get? a.jobId with
  | none =>
    rw [hr] at hx
    exact Or.inr ⟨_, _, [], Program.exec_bind_error hx, Run.nil c⟩
  | some f =>
    obtain ⟨hj, hd, hf⟩ := h.registry a.jobId f hr
    simp only [hr, hd, Bool.false_eq_true, if_false] at hx
    rw [Program.exec_bind_ok hx]
    have ht : IsTopicOf (jobOf f) a.topic := by
      rw [hj]
      exact isTopicOf_topicOf _ _
    have hsub : (subscribeListener a f).exec c.tracker =
        (onClient (RedisSubClient.subscribe a.topic (a.redisCallback (c.tracker.futures f)))).exec
          c.tracker := Program.exec_bind_ok (Program.exec_get c.tracker)
    rcases subscribe_step h (a.redisCallback (c.tracker.futures f)) ht hf with
      ⟨k, he, hk, hs⟩ | ⟨k, e, he, -, hs⟩
    · rw [Program.exec_bind_ok (hsub.trans he)]
      have hpend : Function.update c.pending c.tracker.subClient.nextUuid
          (some ⟨a.topic, f, false⟩) c.tracker.subClient.nextUuid = some ⟨a.topic, f, false⟩ :=
        Function.update_self ..
      rcases validateListener_step (h.step hs) a hpend rfl rfl hj with
        ⟨-, -, s', he', hs'⟩ | ⟨hno, -⟩
      · have hrun := Run.cons (plain_other c) hs (Run.single (plain_index hpend rfl) hs')
        simp only [pending_restore h] at hrun
        exact Or.inl ⟨_, s', _, he', hrun⟩
      · rcases hno with hno | hno
        · exact absurd hr hno
        · have hno' : (c.tracker.futures f).done = true := hno
          rw [hd] at hno'
          simp at hno'
    · exact Or.inr ⟨e, _, [.other], Program.exec_bind_error (hsub.trans he), Run.single (plain_other c) hs⟩

end Sections

end Config

end SlurmManager
