import SlurmManager.Manager.Submission
import SlurmManager.Tracking.Interleaving

/-!
# AllOrNothing — a failed setup leaves nothing behind

The setup can fail between any two registrations, on either side.  What all these states have in common is
`Held`: the job is in the registry, and whatever the client has for it lies on a topic that the tracker
lists.  From there the ordinary status path removes everything.

* `setUp_cases`: however the setup ends, the job is held.
* `Held.abandoned`: the status of the `except` clause forgets a held job.
* `submitJob_all_or_nothing`: the two outcomes of `submit_job`, for a job id that the tracker does not know;
  `forgotten_of_sound`: a new `uuid4` in a reachable state is one.
-/

namespace SlurmManager

open Program JobTracker RedisSubClient

/-! ## A job that is being set up -/

/-- The job is in the registry, unfinished, and the client knows it only by topics that the tracker lists. -/
structure Held (f : FutureRef) (j : String) (s : JobTracker) : Prop where
  wellFormed : s.WellFormed
  unsubscribes : s.subClient.pubsub.UnsubscribeOk
  covered : ∀ i t, s.subClient.topicBySubscriptionId.get? i = some t → IsTopicOf j t → t ∈ s.activeTopics j
  registry : s.futureRegistry.get? j = some f
  jobId : (s.futures f).jobId = j
  unfinished : (s.futures f).done = false

/-- The tracker lists the three topics of the job. -/
def Listed (j : String) (s : JobTracker) : Prop := ∀ e, topicOf j e ∈ s.activeTopics j

namespace Held

variable {f : FutureRef} {j : String} {s : JobTracker} (h : Held f j s)
include h

theorem withClient {k : RedisSubClient ClientCallback} (hk : k.WellFormed)
    (hn : s.subClient.nextUuid ≤ k.nextUuid) (hf : k.pubsub.failure = s.subClient.pubsub.failure)
    (hc : ∀ i t, k.topicBySubscriptionId.get? i = some t → IsTopicOf j t → t ∈ s.activeTopics j) :
    Held f j { s with subClient := k } := by
  refine ⟨h.wellFormed.withClient hk hn, ?_, hc, h.registry, h.jobId, h.unfinished⟩
  show k.pubsub.UnsubscribeOk
  unfold Pubsub.UnsubscribeOk
  rw [hf]
  exact h.unsubscribes

theorem setFuture {x : JobFuture} (hj : x.jobId = j) (hd : x.done = false) : Held f j (setFuture f x s) := by
  refine ⟨h.wellFormed.congr ⟨rfl, rfl, rfl, rfl⟩, h.unsubscribes, h.covered, h.registry, ?_, ?_⟩
  · show (Function.update s.futures f x f).jobId = j
    rw [Function.update_self, hj]
  · show (Function.update s.futures f x f).done = false
    rw [Function.update_self, hd]

/-- A SUBSCRIBE that raised. -/
theorem refused {t : Topic} {k : RedisSubClient ClientCallback} (hk : Refused s.subClient t k) :
    Held f j { s with subClient := k } := by
  refine h.withClient hk.wellFormed (by rw [hk.nextUuid]; omega) hk.failure fun i t' hi => ?_
  rw [hk.topic h.wellFormed.client] at hi
  exact h.covered i t' hi

/-- A client registration on a listed topic. -/
theorem subscribed {t : Topic} {cb : ClientCallback} {k : RedisSubClient ClientCallback}
    (hk : Subscribed s.subClient t cb k) (ht : t ∈ s.activeTopics j) : Held f j { s with subClient := k } := by
  refine h.withClient hk.wellFormed (by rw [hk.nextUuid]; omega) hk.failure fun i t' hi hjt => ?_
  rw [hk.topic h.wellFormed.client] at hi
  split_ifs at hi
  · rwa [← Option.some.inj hi]
  · exact h.covered i t' hi hjt

/-- A client registration and its indexing. -/
theorem registered {t : Topic} {cb : ClientCallback} {k : RedisSubClient ClientCallback} {info : SubscriptionInfo}
    (hk : Subscribed s.subClient t cb k) (hi : info.callbackId = some s.subClient.nextUuid) (ht : info.topic = t)
    (hjob : info.jobId = j) (hjt : IsTopicOf j t) :
    Held f j (({ s with subClient := k } : JobTracker).indexed info s.subClient.nextUuid) ∧
      t ∈ (({ s with subClient := k } : JobTracker).indexed info s.subClient.nextUuid).activeTopics j ∧
      ∀ t' ∈ s.activeTopics j,
        t' ∈ (({ s with subClient := k } : JobTracker).indexed info s.subClient.nextUuid).activeTopics j := by
  subst hjob ht
  have hact : ∀ t', t' ∈ (({ s with subClient := k } : JobTracker).indexed info
      s.subClient.nextUuid).activeTopics info.jobId ↔ t' = info.topic ∨ t' ∈ s.activeTopics info.jobId := by
    intro t'
    rw [activeTopics_indexed, if_pos rfl, mem_addTopic]
    rfl
  have hw := h.wellFormed.withClient hk.wellFormed (by rw [hk.nextUuid]; omega)
  have hnone : ({ s with subClient := k } : JobTracker).find? s.subClient.nextUuid = none :=
    JobTracker.find?_eq_none_of_le h.wellFormed le_rfl
  have hlt : s.subClient.nextUuid < k.nextUuid := by
    rw [hk.nextUuid]
    omega
  refine ⟨⟨hw.indexed hnone hi hjt hlt, ?_, fun i t' hi' hjt' => ?_, h.registry, h.jobId, h.unfinished⟩,
    (hact _).mpr (Or.inl rfl), fun t' ht' => (hact t').mpr (Or.inr ht')⟩
  · show k.pubsub.UnsubscribeOk
    unfold Pubsub.UnsubscribeOk
    rw [hk.failure]
    exact h.unsubscribes
  · have hi' : k.topicBySubscriptionId.get? i = some t' := hi'
    rw [hk.topic h.wellFormed.client] at hi'
    rw [hact]
    split_ifs at hi'
    · exact Or.inl (Option.some.inj hi').symm
    · exact Or.inr (h.covered i t' hi' hjt')

end Held

/-! ## The status of the `except` clause -/

section Abandoning

variable {f : FutureRef} {j : String} {s : JobTracker}

theorem decoded_setupFailed (rt : Runtime) (exc : PyError) : decoded rt (setupFailed exc) = .error := by
  have hc : "error:Submission setup failed: " ++ exc.text = "error:" ++ ("Submission setup failed: " ++ exc.text) := by
    rw [← String.append_assoc]
    rfl
  exact decoded_error rt hc

/-- **The status path forgets a held job**, whatever had been registered for it. -/
theorem Held.abandoned (h : Held f j s) (rt : Runtime) (exc : PyError) :
    ∃ s', (applyStatus rt (setupFailed exc) f).exec s = (.ok (), s') ∧ s'.Forgotten j ∧
      (s'.futures f).done = true ∧ (s'.futures f).status = .error := by
  have hterm : (decoded rt (setupFailed exc)).terminal = true := by
    rw [decoded_setupFailed]
    rfl
  have hw := h.wellFormed.congr (sameMaps_accept rt (setupFailed exc) f)
  obtain ⟨s', he, hp, hr, ha, -⟩ := discardJob_ok hw rt j (accepts_closing h.unsubscribes _)
  have hfut : s'.futures f = (s.futures f).updateStatus (decoded rt (setupFailed exc))
      (decodeStatus rt (setupFailed exc)).2.2 := by
    rw [hp.futures, accept_futures_self]
  refine ⟨s', ?_, ?_, ?_, ?_⟩
  · rw [exec_applyStatus_terminal rt _ f h.unfinished hterm, h.jobId, he]
  · refine Config.forgotten_of_topics hp.wellFormed ?_ ?_ (fun i t hi => ?_) (fun i t hi hjt => ?_)
    · rw [hr, Dict.get?_erase_self]
    · rw [ha, Dict.get?_erase_self]
    · exact ((hp.topic_iff hw).mp hi).2
    · obtain ⟨hi, hno⟩ := (hp.client.topic_iff hw.client).mp hi
      exact hno (h.covered i t hi hjt)
  · rw [hfut, JobFuture.done_updateStatus _ _ h.unfinished, hterm]
  · rw [hfut, JobFuture.status_updateStatus _ _ h.unfinished, decoded_setupFailed]

end Abandoning

/-! ## The setup -/

section Setup

variable {f : FutureRef} {j : String} {s : JobTracker}

/-- A `_subscribe_to_*` function. -/
theorem Held.subscribeInternal (h : Held f j s) (rt : Runtime) (e : Event) :
    (∃ s', (subscribeInternal rt e f).exec s = (.ok (), s') ∧ Held f j s' ∧ topicOf j e ∈ s'.activeTopics j ∧
      ∀ t ∈ s.activeTopics j, t ∈ s'.activeTopics j) ∨
    ∃ err s', (JobTracker.subscribeInternal rt e f).exec s = (.error err, s') ∧ Held f j s' := by
  have hx := Config.exec_subscribeCallback (s := s) e f
  unfold JobTracker.subscribeInternal
  rcases subscribe_cases h.wellFormed.client (topicOf (s.futures f).jobId e) (internalCallback e f (s.futures f)) with
    ⟨k, he, hk⟩ | ⟨err, k, he, hk, -, -⟩
  · have hx' : (subscribeCallback e f).exec s = (.ok s.subClient.nextUuid, { s with subClient := k }) := by
      rw [hx, exec_onClient, he]
    have hreg := h.registered hk (Config.internalInfo_callbackId rt e (s.futures f) _)
      (Config.internalInfo_topic rt e (s.futures f) _) (by rw [Config.internalInfo_jobId, h.jobId])
      (h.jobId ▸ isTopicOf_topicOf _ e)
    rw [exec_bind_ok hx']
    exact Or.inl ⟨_, Config.exec_indexCallback rt e f _, hreg.1, h.jobId ▸ hreg.2.1, hreg.2.2⟩
  · have hx' : (subscribeCallback e f).exec s = (.error err, { s with subClient := k }) := by
      rw [hx, exec_onClient, he]
    exact Or.inr ⟨err, _, exec_bind_error hx', h.refused hk⟩

/-- A tracker that has never heard of the job. -/
structure Unheard (f : FutureRef) (j : String) (s : JobTracker) : Prop where
  wellFormed : s.WellFormed
  unsubscribes : s.subClient.pubsub.UnsubscribeOk
  ids : ∀ i t, s.subClient.topicBySubscriptionId.get? i = some t → ¬ IsTopicOf j t
  jobId : (s.futures f).jobId = j
  unfinished : (s.futures f).done = false

theorem Unheard.publish (h : Unheard f j s) : Held f j (publishFuture f s) := by
  refine ⟨h.wellFormed.congr ⟨rfl, rfl, rfl, rfl⟩, h.unsubscribes, fun i t hi hjt => absurd hjt (h.ids i t hi), ?_,
    h.jobId, h.unfinished⟩
  show (s.futureRegistry.set (s.futures f).jobId f).get? j = some f
  rw [h.jobId, Dict.get?_set_self]

/-- `track`: any of its three subscriptions may raise. -/
theorem Unheard.track (h : Unheard f j s) (rt : Runtime) :
    (∃ s', (track rt f).exec s = (.ok (), s') ∧ Held f j s' ∧ Listed j s') ∨
    ∃ err s', (JobTracker.track rt f).exec s = (.error err, s') ∧ Held f j s' := by
  have h₀ := h.publish
  unfold JobTracker.track subscribeToInternalTopics subscribeToHeartbeat subscribeToEvent subscribeToLog
  rw [exec_bind_ok (exec_modify _ _)]
  rcases h₀.subscribeInternal rt .heartbeat with ⟨s₁, he₁, h₁, hm₁, -⟩ | ⟨err, s₁, he₁, h₁⟩
  · rw [exec_bind_ok he₁]
    rcases h₁.subscribeInternal rt .status with ⟨s₂, he₂, h₂, hm₂, hk₂⟩ | ⟨err, s₂, he₂, h₂⟩
    · rw [exec_bind_ok he₂]
      rcases h₂.subscribeInternal rt .log with ⟨s₃, he₃, h₃, hm₃, hk₃⟩ | ⟨err, s₃, he₃, h₃⟩
      · refine Or.inl ⟨s₃, he₃, h₃, fun e => ?_⟩
        cases e with
        | heartbeat => exact hk₃ _ (hk₂ _ hm₁)
        | log => exact hm₃
        | status => exact hk₃ _ hm₂
      · exact Or.inr ⟨err, s₃, he₃, h₃⟩
    · exact Or.inr ⟨err, s₂, exec_bind_error he₂, h₂⟩
  · exact Or.inr ⟨err, s₁, exec_bind_error he₁, h₁⟩

/-- `add_subscription` for a job that is being set up. -/
theorem Held.addSubscription (h : Held f j s) (hl : Listed j s) (e : Event) (cb : Callback) :
    (∃ i s', (addSubscription ⟨j, e, cb⟩).exec s = (.ok i, s') ∧ Held f j s' ∧ Listed j s') ∨
    ∃ err s', (JobTracker.addSubscription ⟨j, e, cb⟩).exec s = (.error err, s') ∧ Held f j s' := by
  set a : AddArgs := ⟨j, e, cb⟩
  have hcheck : (checkActive a).exec s = (.ok f, s) := by
    rw [Config.exec_checkActive]
    simp only [a, h.registry, h.unfinished]
    rfl
  have hsub : (subscribeListener a f).exec s =
      (onClient (RedisSubClient.subscribe a.topic (a.redisCallback (s.futures f)))).exec s :=
    exec_bind_ok (exec_get s)
  unfold JobTracker.addSubscription
  rw [exec_bind_ok hcheck]
  rcases subscribe_cases h.wellFormed.client a.topic (a.redisCallback (s.futures f)) with
    ⟨k, he, hk⟩ | ⟨err, k, he, hk, -, -⟩
  · have hsub' : (subscribeListener a f).exec s = (.ok s.subClient.nextUuid, { s with subClient := k }) := by
      rw [hsub, exec_onClient, he]
    have hcb : (a.info (s.futures f) s.subClient.nextUuid).callbackId = some s.subClient.nextUuid := rfl
    have hreg := h.registered hk hcb rfl rfl (isTopicOf_topicOf j e)
    rw [exec_bind_ok hsub']
    refine Or.inl ⟨s.subClient.nextUuid, _, ?_, hreg.1, fun e' => hreg.2.2 _ (hl e')⟩
    unfold validateListener
    rw [exec_bind_ok (exec_get _), exec_ite, if_neg, exec_bind_ok (exec_registerSubscriptionForJob rfl)]
    · rfl
    · rw [not_or, not_not]
      exact ⟨h.registry, by simp [h.unfinished]⟩
  · have hsub' : (subscribeListener a f).exec s = (.error err, { s with subClient := k }) := by
      rw [hsub, exec_onClient, he]
    exact Or.inr ⟨err, _, exec_bind_error hsub', h.refused hk⟩

/-- `job_future.listen`, which may raise before or after the client has the callback. -/
theorem Held.listenJob (h : Held f j s) (hl : Listed j s) (fault : Option RegistrationFault) (e : Event)
    (cb : Callback) :
    (∃ i s', (listenJob fault f j e cb).exec s = (.ok i, s') ∧ Held f j s' ∧ Listed j s') ∨
    ∃ err s', (SlurmManager.listenJob fault f j e cb).exec s = (.error err, s') ∧ Held f j s' := by
  unfold SlurmManager.listenJob
  match fault with
  | none =>
    rcases h.addSubscription hl e cb with ⟨i, s', he, h', hl'⟩ | ⟨err, s', he, h'⟩
    · have hset := h'.setFuture (x := (s'.futures f).registerCallback ⟨i, e, cb⟩) (by simp [h'.jobId])
        (by simp [h'.unfinished])
      refine Or.inl ⟨i, _, ?_, hset, hl'⟩
      dsimp only
      rw [exec_bind_ok he, exec_bind_ok (exec_modify _ _)]
      rfl
    · exact Or.inr ⟨err, s', exec_bind_error he, h'⟩
  | some (.refused err) => exact Or.inr ⟨err, s, rfl, h⟩
  | some (.interrupted err) =>
    have hcheck : (checkActive ⟨j, e, cb⟩).exec s = (.ok f, s) := by
      rw [Config.exec_checkActive]
      simp only [h.registry, h.unfinished]
      rfl
    have hsub : (subscribeListener ⟨j, e, cb⟩ f).exec s =
        (onClient (RedisSubClient.subscribe (topicOf j e) ((AddArgs.mk j e cb).redisCallback (s.futures f)))).exec s :=
      exec_bind_ok (exec_get s)
    refine Or.inr ?_
    dsimp only
    rw [exec_bind_ok hcheck]
    rcases subscribe_cases h.wellFormed.client (topicOf j e) ((AddArgs.mk j e cb).redisCallback (s.futures f)) with
      ⟨k, he, hk⟩ | ⟨err', k, he, hk, -, -⟩
    · have hsub' : (subscribeListener ⟨j, e, cb⟩ f).exec s = (.ok s.subClient.nextUuid, { s with subClient := k }) := by
        rw [hsub, exec_onClient, he]
      rw [exec_bind_ok hsub']
      exact ⟨err, _, rfl, h.subscribed hk (hl e)⟩
    · have hsub' : (subscribeListener ⟨j, e, cb⟩ f).exec s = (.error err', { s with subClient := k }) := by
        rw [hsub, exec_onClient, he]
      exact ⟨err', _, exec_bind_error hsub', h.refused hk⟩

/-- The registrations of all initial callbacks. -/
theorem Held.listenAll (h : Held f j s) (hl : Listed j s) (w : Surroundings) (callbacks : List (Event × Callback)) :
    (∃ s', (listenAll w f j callbacks).exec s = (.ok (), s') ∧ Held f j s' ∧ Listed j s') ∨
    ∃ err s', (SlurmManager.listenAll w f j callbacks).exec s = (.error err, s') ∧ Held f j s' := by
  unfold SlurmManager.listenAll
  induction callbacks generalizing s with
  | nil => exact Or.inl ⟨s, rfl, h, hl⟩
  | cons c callbacks ih =>
    rw [List.forM_cons]
    rcases h.listenJob hl (w.fault c.1) c.1 c.2 with ⟨i, s₁, he, h₁, hl₁⟩ | ⟨err, s₁, he, h₁⟩
    · have he' : (do let _ ← SlurmManager.listenJob (w.fault c.1) f j c.1 c.2 : Program PyError JobTracker Unit).exec
          s = (.ok (), s₁) := by
        rw [exec_bind_ok he]
        rfl
      rw [exec_bind_ok he']
      exact ih h₁ hl₁
    · exact Or.inr ⟨err, s₁, exec_bind_error (exec_bind_error he), h₁⟩

/-- The look-up of the ready events changes nothing. -/
theorem exec_readyEvents (c : RedisSubClient ClientCallback) (topics : List Topic) :
    ((readyEvents topics).exec c).2 = c := by
  induction topics with
  | nil => rfl
  | cons t topics ih =>
    unfold readyEvents
    rw [exec_bind_ok (exec_get c)]
    cases c.subscriptionReady.get? t with
    | none => rfl
    | some e =>
      dsimp only
      rw [exec_bind]
      rcases hx : (readyEvents topics).exec c with ⟨r, c'⟩
      rw [hx] at ih
      obtain rfl : c' = c := ih
      cases r <;> rfl

/-- The waits set events and touch no registration. -/
theorem Held.awaitReady (h : Held f j s) (acknowledged : Topic → Bool) (ready : List (Topic × EventRef)) :
    Held f j { s with subClient := (awaitReady acknowledged ready).after s.subClient } := by
  induction ready generalizing s with
  | nil => exact h
  | cons x ready ih =>
    obtain ⟨t, e⟩ := x
    unfold SlurmManager.awaitReady
    split_ifs
    · obtain ⟨-, h2, -, h4, h5, -⟩ := acknowledge_eq t s.subClient
      have hack := h.withClient (h.wellFormed.client.acknowledge t) h5.ge (by rw [h4]) fun i t' hi =>
        h.covered i t' (by rwa [h2] at hi)
      exact ih hack
    · exact h

/-- `wait_until_ready`. -/
theorem Held.waitUntilReady (h : Held f j s) (w : Surroundings) :
    Held f j ((waitUntilReady w j).after s) ∧
      ((waitUntilReady w j).after s).activeSubscriptions = s.activeSubscriptions := by
  unfold SlurmManager.waitUntilReady
  rw [after, exec_bind_ok (exec_get s), exec_bind, exec_onClient]
  rcases hx : (readyEvents (w.rt.setOrder (s.activeTopics j))).exec s.subClient with ⟨r, c⟩
  have hc := exec_readyEvents s.subClient (w.rt.setOrder (s.activeTopics j))
  rw [hx] at hc
  obtain rfl : c = s.subClient := hc
  cases r with
  | error e => exact ⟨h, rfl⟩
  | ok ready => exact ⟨h.awaitReady w.acknowledged ready, rfl⟩

end Setup

/-! ## The whole call -/

section Whole

variable {ρ α : Type} {f : FutureRef} {j : String}

/-- The two ways in which the setup ends. -/
theorem setUp_cases (w : Surroundings) (client : RestClient ρ) (slurmJobId : String)
    (callbacks : List (Event × Callback)) {m : Submitter ρ} (h : Unheard f j m.managed.tracker) :
    (∃ m', (setUp w client f j slurmJobId callbacks).exec m = (.ok (), m') ∧ Held f j m'.managed.tracker ∧
      Listed j m'.managed.tracker ∧ m'.requests = m.requests ++ [.release slurmJobId]) ∨
    ∃ exc m' released, (setUp w client f j slurmJobId callbacks).exec m = (.error exc, m') ∧
      Held f j m'.managed.tracker ∧ m'.requests = m.requests ++ released ∧
      (released = [] ∨ released = [.release slurmJobId]) := by
  unfold setUp
  rcases h.track w.rt with ⟨s₁, he₁, h₁, hl₁⟩ | ⟨err, s₁, he₁, h₁⟩
  · rw [exec_bind_ok (by rw [exec_withTracker, he₁])]
    rcases h₁.listenAll hl₁ w callbacks with ⟨s₂, he₂, h₂, hl₂⟩ | ⟨err, s₂, he₂, h₂⟩
    · rw [exec_bind_ok (by rw [exec_withTracker, he₂])]
      obtain ⟨h₃, hact⟩ := h₂.waitUntilReady w
      rcases hx : (waitUntilReady w j).exec s₂ with ⟨r, s₃⟩
      rw [after, hx] at h₃ hact
      have hl₃ : Listed j s₃ := by
        intro e
        unfold JobTracker.activeTopics
        rw [hact]
        exact hl₂ e
      cases r with
      | ok u =>
        rw [exec_bind_ok (by rw [exec_withTracker, hx])]
        rcases hr : (client.release slurmJobId).exec m.managed.rest with ⟨r, rest⟩
        cases r with
        | ok u => exact Or.inl ⟨_, by rw [exec_ask, hr], h₃, hl₃, rfl⟩
        | error e => exact Or.inr ⟨e, _, [.release slurmJobId], by rw [exec_ask, hr], h₃, rfl, Or.inr rfl⟩
      | error e =>
        refine Or.inr ⟨e, ?_, [], exec_bind_error (by rw [exec_withTracker, hx]), h₃, ?_, Or.inl rfl⟩
        exact (List.append_nil _).symm
    · refine Or.inr ⟨err, ?_, [], exec_bind_error (by rw [exec_withTracker, he₂]), h₂, ?_, Or.inl rfl⟩
      exact (List.append_nil _).symm
  · refine Or.inr ⟨err, ?_, [], exec_bind_error (by rw [exec_withTracker, he₁]), h₁, ?_, Or.inl rfl⟩
    exact (List.append_nil _).symm

/-- The cancellation returns, or raises `SlurmRestError` or `ValueError`. -/
def CancelsAsExpected (client : RestClient ρ) (slurmJobId : String) (rest : ρ) : Prop :=
  ∀ e rest', (client.cancel slurmJobId).exec rest = (.error e, rest') → SlurmRestClient.Expected e

/-- The client of the manager does, but for a response that nests too deeply. -/
theorem cancelsAsExpected_slurmRestClient (slurmJobId : String) {c : SlurmRestClient} (hc : ¬ c.Deep) :
    CancelsAsExpected slurmRestClient slurmJobId c := by
  intro e c' h
  rcases SlurmRestClient.raises_cancel c slurmJobId h with he | ⟨-, hdeep⟩
  · exact he
  · exact absurd hdeep hc

/-- The `except` clause. -/
theorem exec_abandon (w : Surroundings) (client : RestClient ρ) (slurmJobId : String) (exc : PyError)
    {m : Submitter ρ} (h : Held f j m.managed.tracker)
    (hcancel : CancelsAsExpected client slurmJobId m.managed.rest) :
    ∃ m', (abandon w client f slurmJobId exc).exec m = (.error exc, m') ∧
      m'.requests = m.requests ++ [.cancel slurmJobId] ∧ m'.managed.tracker.Forgotten j ∧
      (m'.managed.tracker.futures f).done = true ∧ (m'.managed.tracker.futures f).status = .error := by
  obtain ⟨s', he, hfor, hd, hst⟩ := h.abandoned w.rt exc
  have hcatch : (tryCatch (ask (.cancel slurmJobId) (client.cancel slurmJobId)) fun e =>
      if e.type = .slurmRestError ∨ e.type = .valueError then return () else throw e).exec m = (.ok (),
        { managed := { m.managed with rest := ((client.cancel slurmJobId).exec m.managed.rest).2 },
          requests := m.requests ++ [.cancel slurmJobId] }) := by
    rw [exec_tryCatch, exec_ask]
    rcases hc : (client.cancel slurmJobId).exec m.managed.rest with ⟨r, rest⟩
    cases r with
    | ok u => rfl
    | error e =>
      dsimp only
      rw [if_pos (show e.type = .slurmRestError ∨ e.type = .valueError from hcancel e _ hc)]
      rfl
  unfold abandon
  rw [exec_bind_ok hcatch, exec_bind_ok (by rw [exec_withTracker, he])]
  exact ⟨_, rfl, rfl, hfor, hd, hst⟩

/-- The manager when the REST submission has returned: one more request, and the new future. -/
def Submitter.submitted (m : Submitter ρ) (f : FutureRef) (jobId text : String) (script : String) (job : Object)
    (rest : ρ) : Submitter ρ where
  managed := { m.managed with
    tracker := setFuture f (JobFuture.new jobId text) m.managed.tracker
    rest := rest }
  requests := m.requests ++ [.submit script job]

/-- A job id that the tracker does not know: nothing is registered for it anywhere. -/
theorem unheard_submitted {m : Submitter ρ} (hw : m.managed.tracker.WellFormed)
    (hu : m.managed.tracker.subClient.pubsub.UnsubscribeOk) (hj : m.managed.tracker.Forgotten j)
    (text script : String) (job : Object) (rest : ρ) :
    Unheard f j (m.submitted f j text script job rest).managed.tracker := by
  refine ⟨hw.congr ⟨rfl, rfl, rfl, rfl⟩, hu, hj.ids, ?_, ?_⟩
  · show (Function.update m.managed.tracker.futures f (JobFuture.new j text) f).jobId = j
    rw [Function.update_self]
    rfl
  · show (Function.update m.managed.tracker.futures f (JobFuture.new j text) f).done = false
    rw [Function.update_self]
    rfl

/-- `submit_job` from the `try` on. -/
theorem exec_submitJob {settings : WorkerSettings} {w : Surroundings} {client : RestClient ρ} {a : SubmitArgs}
    {m : Submitter ρ} {script text : String} {job result : Object} {callbacks : List (Event × Callback)} {rest : ρ}
    (hprep : prepare settings w j a = .ok (script, job, callbacks))
    (hsub : (client.submit script job).exec m.managed.rest = (.ok result, rest))
    (hid : submittedId w.str result = .ok text) :
    (submitJob settings w client f j a).exec m =
      (do
        tryCatch (setUp w client f j (strip text) callbacks) fun exc => abandon w client f (strip text) exc
        return f : Program PyError (Submitter ρ) FutureRef).exec (m.submitted f j text script job rest) := by
  unfold submitJob lifted
  rw [hprep, exec_bind_ok (exec_pure _ _)]
  dsimp only
  rw [exec_bind_ok (by rw [exec_ask, hsub]), hid, exec_bind_ok (exec_pure _ _), exec_bind_ok (exec_withTracker _ _)]
  rfl

/-- **`submit_job` is all or nothing.**  The REST submission has returned a job id, and the tracker knows
nothing of the new job.  Whatever then raises, at any point of the setup: the call raises the same, has
requested one cancellation of that id, also if the cancellation raises one of its two errors, and has left a
failed future and no trace of the job.  If nothing raises, there is one release and no cancellation, and the
future is tracked. -/
theorem submitJob_all_or_nothing (settings : WorkerSettings) (w : Surroundings) (client : RestClient ρ)
    (f : FutureRef) (j : String) (a : SubmitArgs) {m : Submitter ρ} {script text : String} {job result : Object}
    {callbacks : List (Event × Callback)} {rest : ρ}
    (hw : m.managed.tracker.WellFormed) (hu : m.managed.tracker.subClient.pubsub.UnsubscribeOk)
    (hj : m.managed.tracker.Forgotten j)
    (hprep : prepare settings w j a = .ok (script, job, callbacks))
    (hsub : (client.submit script job).exec m.managed.rest = (.ok result, rest))
    (hid : submittedId w.str result = .ok text) :
    (∀ exc m₁, (setUp w client f j (strip text) callbacks).exec (m.submitted f j text script job rest) =
        (.error exc, m₁) → CancelsAsExpected client (strip text) m₁.managed.rest →
      ∃ m' released, (submitJob settings w client f j a).exec m = (.error exc, m') ∧
        m'.requests = m.requests ++ .submit script job :: (released ++ [.cancel (strip text)]) ∧
        (released = [] ∨ released = [.release (strip text)]) ∧ m'.managed.tracker.Forgotten j ∧
        (m'.managed.tracker.futures f).done = true ∧ (m'.managed.tracker.futures f).status = .error) ∧
    ∀ m₁, (setUp w client f j (strip text) callbacks).exec (m.submitted f j text script job rest) = (.ok (), m₁) →
      ∃ m', (submitJob settings w client f j a).exec m = (.ok f, m') ∧
        m'.requests = m.requests ++ [.submit script job, .release (strip text)] ∧
        m'.managed.tracker.futureRegistry.get? j = some f ∧ Listed j m'.managed.tracker ∧
        (m'.managed.tracker.futures f).done = false := by
  have hun := unheard_submitted (f := f) hw hu hj text script job rest
  have hexec := exec_submitJob (f := f) hprep hsub hid
  constructor
  · intro exc m₁ hm₁ hcancel
    rcases setUp_cases w client (strip text) callbacks hun with
      ⟨m₂, he, -⟩ | ⟨exc', m₂, released, he, hheld, hreq, hrel⟩
    · exact absurd (hm₁.symm.trans he) (by simp)
    · obtain ⟨hexc, rfl⟩ := Prod.mk.inj (hm₁.symm.trans he)
      obtain rfl := Except.error.inj hexc
      obtain ⟨m', he', hreq', hfor, hd, hst⟩ := exec_abandon w client (strip text) exc hheld hcancel
      refine ⟨m', released, ?_, ?_, hrel, hfor, hd, hst⟩
      · rw [hexec]
        refine exec_bind_error ?_
        rw [exec_tryCatch, he]
        exact he'
      · rw [hreq', hreq]
        show m.requests ++ [.submit script job] ++ released ++ _ = _
        simp
  · intro m₁ hm₁
    rcases setUp_cases w client (strip text) callbacks hun with ⟨m₂, he, hheld, hl, hreq⟩ | ⟨exc', m₂, _, he, -⟩
    · refine ⟨m₂, ?_, ?_, hheld.registry, hl, hheld.unfinished⟩
      · rw [hexec]
        refine exec_bind_ok (a := ()) ?_
        rw [exec_tryCatch, he]
      · rw [hreq]
        show m.requests ++ [.submit script job] ++ _ = _
        simp
    · exact absurd (hm₁.symm.trans he) (by simp)

/-- A Slurm that takes every job and cancels none. -/
def busyClient : RestClient Unit where
  submit _ _ := return [("job_id", .string "7")]
  release _ := return ()
  cancel _ := throw (SlurmRestClient.restError "busy")
  getJob _ _ := return none

/-- Redis acknowledges everything, and goes away while the heartbeat callback is being registered. -/
def shaky : Surroundings where
  rt := .still
  readText _ := .ok "true\n"
  uuid := ⟨"0", digits_zero⟩
  str _ := " 7 "
  acknowledged _ := true
  fault e := if e = .heartbeat then some (.interrupted ⟨.redisError, "down"⟩) else none

/-- A submission with two initial callbacks. -/
def twoCallbacks : SubmitArgs where
  scriptPath := "run.sh"
  workingDirectory := "/home"
  callbacks := Dict.ofList [("log", 8), ("heartbeat", 9)]

/-- The log callback is registered, the heartbeat callback is not, and Slurm refuses the cancellation. -/
theorem submitJob_all_or_nothing_of_refusal : ∃ m' released,
    (submitJob ⟨"/opt/w", "r:1", false⟩ shaky busyClient 0 "j" twoCallbacks).exec
      ({ managed := ⟨(Session.new (fun _ _ => none) Session.unary).tracker, ()⟩ } : Submitter Unit) =
        (.error ⟨.redisError, "down"⟩, m') ∧
    (∃ script job, m'.requests = .submit script job :: (released ++ [.cancel "7"])) ∧
    (released = [] ∨ released = [.release "7"]) ∧ m'.managed.tracker.Forgotten "j" ∧
    (m'.managed.tracker.futures 0).done = true ∧ (m'.managed.tracker.futures 0).status = .error := by
  set s := Session.new (fun _ _ => none) Session.unary
  have hw : s.tracker.WellFormed :=
    wellFormed_of_empty (RedisSubClient.wellFormed_of_empty rfl rfl rfl) rfl rfl rfl
  have hj : s.tracker.Forgotten "j" :=
    Config.forgotten_of_topics hw rfl rfl (by simp [s, Session.new]) (by simp [s, Session.new])
  have hcancel : ∀ r, CancelsAsExpected busyClient (strip " 7 ") r := by
    intro r e r' h
    rw [← Except.error.inj (Prod.mk.inj h).1]
    exact Or.inl rfl
  have hgoes : (prepare ⟨"/opt/w", "r:1", false⟩ shaky "j" twoCallbacks).toOption.any (fun p =>
      ((setUp shaky busyClient 0 "j" (strip " 7 ") p.2.2).exec
        (Submitter.submitted ⟨⟨s.tracker, ()⟩, []⟩ 0 "j" " 7 " p.1 p.2.1 ())).1 = .error ⟨.redisError, "down"⟩) = true := by
    decide +kernel
  obtain ⟨⟨script, job, callbacks⟩, hp, hend⟩ := (Option.any_eq_true _ _).mp hgoes
  have hprep : prepare ⟨"/opt/w", "r:1", false⟩ shaky "j" twoCallbacks = .ok (script, job, callbacks) := by
    cases h : prepare ⟨"/opt/w", "r:1", false⟩ shaky "j" twoCallbacks with
    | error e => simp [h, Except.toOption] at hp
    | ok p => rw [Option.some.inj ((congrArg Except.toOption h).symm.trans hp)]
  obtain ⟨m', released, he, hreq, hrel, hrest⟩ := (submitJob_all_or_nothing ⟨"/opt/w", "r:1", false⟩ shaky busyClient
    0 "j" twoCallbacks (m := ⟨⟨s.tracker, ()⟩, []⟩) hw (fun _ _ => rfl) hj hprep rfl rfl).1
    ⟨.redisError, "down"⟩ _ (Prod.ext (of_decide_eq_true hend) rfl) (hcancel _)
  exact ⟨m', released, he, ⟨_, _, hreq⟩, hrel, hrest⟩

/-- A reachable tracker knows nothing of a job whose future it has never been given. -/
theorem forgotten_of_sound {s : Session} {jobOf : FutureRef → String} {pending : SubId → Option Pending}
    (hs : s.Sound jobOf pending) (hinj : ∀ f g, jobOf f = jobOf g → f = g) (hf : f ∉ s.published) :
    s.tracker.WellFormed ∧ s.tracker.subClient.pubsub.UnsubscribeOk ∧ s.tracker.Forgotten (jobOf f) := by
  have hreg : s.tracker.futureRegistry.get? (jobOf f) = none := by
    rw [Option.eq_none_iff_forall_ne_some]
    intro g hg
    obtain ⟨hjob, -, hpub⟩ := hs.inv.registry _ g hg
    exact hf (hinj g f hjob ▸ hpub)
  refine ⟨hs.inv.wellFormed, hs.inv.unsubscribes, hs.inv.forgotten hreg fun i p hp hjt => ?_⟩
  -- a registration in flight belongs to a published future
  obtain ⟨-, -, htp, hpub⟩ := hs.inv.pending i p hp
  exact hf (hinj _ _ (htp.unique hjt) ▸ hpub)

end Whole

end SlurmManager
