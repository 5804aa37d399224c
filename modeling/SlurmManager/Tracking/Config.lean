import SlurmManager.Lib.Runs
import SlurmManager.Tracking.StatusUpdate

/-!
# Config — the tracker's critical sections as one transition relation

A call that registers a listener subscribes in the Redis client first and indexes in the tracker in a
later critical section.  A `Config` is a tracker together with the registrations in between
(`pending`).  `Step` lists the transitions that a critical section can make; public operations,
whether taken whole or section by section, are runs of `Step`.

* `Inv`: the client knows no registration that the tracker neither has nor will get, and the tracker
  has none for a job outside the registry.  Every step keeps it (`Inv.step`).
* `Agree`: the client knows every registration of the tracker.  Every step keeps it that does not index
  an overtaken registration (`Agree.step`).
* `forgotten_of_inv`: what `Inv` says about a job that left the registry.

The job id of a future never changes; `jobOf` is the assignment.
-/

namespace SlurmManager

/-- A registration made in the client and not yet indexed: its topic, the future of its job, and
whether its topic was removed in between by `remove_subscription_by_topic`. -/
structure Pending where
  topic : Topic
  future : FutureRef
  overtaken : Bool := false

/-- The tracker, the registrations in flight, and three histories: the ids that `add_subscription`
returned, the topics given to `remove_subscription_by_topic`, the futures put in the registry. -/
structure Config where
  tracker : JobTracker
  pending : SubId → Option Pending := fun _ => none
  listeners : List SubId := []
  cutTopics : List Topic := []
  published : List FutureRef := []

/-- What a step is about; the other steps need no name. -/
inductive Micro
  | index (i : SubId)
  | removeId (i : SubId)
  | other

/-- The tracker and the callback maps of its client do not mention the job. -/
structure JobTracker.Forgotten (s : JobTracker) (j : String) : Prop where
  registry : s.futureRegistry.get? j = none
  active : s.activeSubscriptions.get? j = none
  indexed : ∀ t, IsTopicOf j t → s.subscriptionsByTopic.get? t = none
  records : ∀ t b i info, s.subscriptionsByTopic.get? t = some b → b.get? i = some info → info.jobId ≠ j
  owner : ∀ i t, s.topicBySubscriptionId.get? i = some t → ¬ IsTopicOf j t
  callbacks : ∀ t, IsTopicOf j t → s.subClient.subscriptionsByTopic.get? t = none
  ids : ∀ i t, s.subClient.topicBySubscriptionId.get? i = some t → ¬ IsTopicOf j t

namespace Config

open JobTracker

/-- The transitions of the critical sections. -/
inductive Step (jobOf : FutureRef → String) : Config → Micro → Config → Prop
  /-- Clock readings, tasks, or nothing. -/
  | stamp {c : Config} {s' : JobTracker} (h : Stamped c.tracker s') :
    Step jobOf c .other { c with tracker := s' }
  /-- A client subscription. -/
  | subscribe {c : Config} {t : Topic} {cb : ClientCallback} {k : RedisSubClient ClientCallback}
      {f : FutureRef} (h : RedisSubClient.Subscribed c.tracker.subClient t cb k)
      (ht : IsTopicOf (jobOf f) t) (hf : f ∈ c.published) :
    Step jobOf c .other { c with
      tracker := { c.tracker with subClient := k }
      pending := Function.update c.pending c.tracker.subClient.nextUuid (some ⟨t, f, false⟩) }
  /-- A client subscription whose SUBSCRIBE raised. -/
  | refuse {c : Config} {t : Topic} {k : RedisSubClient ClientCallback} {e : PyError}
      (h : RedisSubClient.Refused c.tracker.subClient t k)
      (hs : c.tracker.subClient.pubsub.outcome (.subscribe t) = .error e) :
    Step jobOf c .other { c with tracker := { c.tracker with subClient := k } }
  /-- The indexing of a pending registration; `user` tells listeners from internal callbacks. -/
  | index {c : Config} {i : SubId} {p : Pending} {info : SubscriptionInfo} {ids : List SubId}
      (hp : c.pending i = some p) (hi : info.callbackId = some i) (ht : info.topic = p.topic)
      (hj : info.jobId = jobOf p.future)
      (hr : c.tracker.futureRegistry.get? (jobOf p.future) = some p.future)
      (hids : (info.callback = none ∧ ids = c.listeners) ∨
        (info.callback ≠ none ∧ ids = c.listeners ++ [i])) :
    Step jobOf c (.index i) { c with
      tracker := c.tracker.indexed info i
      pending := Function.update c.pending i none
      listeners := ids }
  /-- The undoing of a pending registration. -/
  | undo {c : Config} {i : SubId} {p : Pending} {k : RedisSubClient ClientCallback}
      (hp : c.pending i = some p)
      (h : RedisSubClient.Removed c.tracker.subClient (fun k _ => k = i) k) :
    Step jobOf c .other { c with
      tracker := { c.tracker with subClient := k }
      pending := Function.update c.pending i none }
  | removeId {c : Config} {i : SubId} {s' : JobTracker}
      (h : Pruned c.tracker (fun k _ => k = i ∧ c.tracker.globalCallbacks.get? i = none)
        (fun k _ => k = i ∧ c.tracker.globalCallbacks.get? i = none ∧ c.tracker.find? i ≠ none) s')
      (hr : s'.futureRegistry = c.tracker.futureRegistry) :
    Step jobOf c (.removeId i) { c with tracker := s' }
  | removeTopic {c : Config} {t : Topic} {s' : JobTracker}
      (h : Pruned c.tracker (fun _ t' => t' = t) (fun _ t' => t' = t) s')
      (hr : s'.futureRegistry = c.tracker.futureRegistry) :
    Step jobOf c .other { c with
      tracker := s'
      pending := fun i => (c.pending i).map fun p =>
        if p.topic = t then { p with overtaken := true } else p
      cutTopics := c.cutTopics ++ [t] }
  /-- An accepted status that does not end the job. -/
  | accept {c : Config} {rt : Runtime} {m : StatusMessage} {f : FutureRef}
      (hd : (c.tracker.futures f).done = false) (ht : (decoded rt m).terminal = false) :
    Step jobOf c .other { c with tracker := c.tracker.accept rt m f }
  /-- An accepted terminal status, with the removal of the job. -/
  | finish {c : Config} {rt : Runtime} {m : StatusMessage} {f : FutureRef} {s' : JobTracker}
      (hd : (c.tracker.futures f).done = false) (ht : (decoded rt m).terminal = true)
      (h : Pruned (c.tracker.accept rt m f) (fun _ t => IsTopicOf (jobOf f) t)
        (fun _ t => t ∈ c.tracker.activeTopics (jobOf f)) s')
      (hr : s'.futureRegistry = c.tracker.futureRegistry.erase (jobOf f))
      (ha : s'.activeSubscriptions = c.tracker.activeSubscriptions.erase (jobOf f)) :
    Step jobOf c .other { c with tracker := s' }
  /-- The removal of a job without a status. -/
  | discard {c : Config} {j : String} {s' : JobTracker}
      (h : Pruned c.tracker (fun _ t => IsTopicOf j t) (fun _ t => t ∈ c.tracker.activeTopics j) s')
      (hr : s'.futureRegistry = c.tracker.futureRegistry.erase j)
      (ha : s'.activeSubscriptions = c.tracker.activeSubscriptions.erase j) :
    Step jobOf c .other { c with tracker := s' }
  | publish {c : Config} {f : FutureRef} (hf : f ∉ c.published)
      (hd : (c.tracker.futures f).done = false) :
    Step jobOf c .other { c with
      tracker := c.tracker.publishFuture f
      published := c.published ++ [f] }
  /-- A manager-wide registration. -/
  | listen {c : Config} {cb : RegisteredCallback} :
    Step jobOf c .other { c with tracker := { c.tracker with
      subClient := { c.tracker.subClient with nextUuid := c.tracker.subClient.nextUuid + 1 }
      globalCallbacks := c.tracker.globalCallbacks.set c.tracker.subClient.nextUuid cb } }

/-- Nothing is registered that is not accounted for. -/
structure Inv (jobOf : FutureRef → String) (c : Config) : Prop where
  wellFormed : c.tracker.WellFormed
  unsubscribes : c.tracker.subClient.pubsub.UnsubscribeOk
  jobIds : ∀ f, (c.tracker.futures f).jobId = jobOf f
  pending : ∀ (i : ℕ) p, c.pending i = some p → i < c.tracker.subClient.nextUuid ∧
    c.tracker.topicBySubscriptionId.get? i = none ∧ IsTopicOf (jobOf p.future) p.topic ∧
    p.future ∈ c.published
  owned : ∀ i t, c.tracker.subClient.topicBySubscriptionId.get? i = some t →
    c.tracker.topicBySubscriptionId.get? i = some t ∨ ∃ p, c.pending i = some p ∧ p.topic = t
  live : ∀ i t, c.tracker.topicBySubscriptionId.get? i = some t →
    ∃ j, IsTopicOf j t ∧ (c.tracker.futureRegistry.get? j).isSome
  active : ∀ j, (c.tracker.activeSubscriptions.get? j).isSome → (c.tracker.futureRegistry.get? j).isSome
  registry : ∀ j f, c.tracker.futureRegistry.get? j = some f →
    jobOf f = j ∧ (c.tracker.futures f).done = false ∧ f ∈ c.published

/-! ## Every step keeps `Inv` -/

section Preservation

variable {jobOf : FutureRef → String} {c : Config} (h : c.Inv jobOf)
include h

theorem Inv.stamp {s' : JobTracker} (hs : Stamped c.tracker s') :
    ({ c with tracker := s' } : Config).Inv jobOf := by
  refine ⟨hs.wellFormed, ?_, fun f => ?_, fun i p hp => ?_, fun i t hi => ?_, fun i t hi => ?_,
    fun j hj => ?_, fun j f hf => ?_⟩
  · simpa only [hs.subClient] using h.unsubscribes
  · simpa only [hs.futures] using h.jobIds f
  · simpa only [hs.subClient, hs.topicBySubscriptionId] using h.pending i p hp
  · simp only [hs.subClient, hs.topicBySubscriptionId] at hi ⊢
    exact h.owned i t hi
  · simp only [hs.topicBySubscriptionId, hs.futureRegistry] at hi ⊢
    exact h.live i t hi
  · simp only [hs.activeSubscriptions, hs.futureRegistry] at hj ⊢
    exact h.active j hj
  · simp only [hs.futureRegistry, hs.futures] at hf ⊢
    exact h.registry j f hf

theorem Inv.subscribe {t : Topic} {cb : ClientCallback} {k : RedisSubClient ClientCallback}
    {f : FutureRef} (hk : RedisSubClient.Subscribed c.tracker.subClient t cb k)
    (ht : IsTopicOf (jobOf f) t) (hf : f ∈ c.published) :
    ({ c with
      tracker := { c.tracker with subClient := k }
      pending := Function.update c.pending c.tracker.subClient.nextUuid (some ⟨t, f, false⟩) } :
        Config).Inv jobOf := by
  have hle : c.tracker.subClient.nextUuid ≤ k.nextUuid := by rw [hk.nextUuid]; omega
  refine ⟨h.wellFormed.withClient hk.wellFormed hle, ?_, h.jobIds, fun i p hp => ?_,
    fun i t' hi => ?_, h.live, h.active, h.registry⟩
  · show k.pubsub.UnsubscribeOk
    unfold Pubsub.UnsubscribeOk
    rw [hk.failure]
    exact h.unsubscribes
  · show i < k.nextUuid ∧ _
    rw [hk.nextUuid]
    by_cases hin : i = c.tracker.subClient.nextUuid
    · subst hin
      obtain rfl : Pending.mk t f false = p := by simpa using hp
      refine ⟨by omega, ?_, ht, hf⟩
      exact (topic_eq_none_iff h.wellFormed).mpr (find?_eq_none_of_le h.wellFormed le_rfl)
    · obtain ⟨hlt, hrest⟩ := h.pending i p (by simpa [Function.update_of_ne hin] using hp)
      exact ⟨by omega, hrest⟩
  · have hi' : k.topicBySubscriptionId.get? i = some t' := hi
    rw [hk.topic h.wellFormed.client] at hi'
    by_cases hin : i = c.tracker.subClient.nextUuid
    · rw [if_pos hin] at hi'
      exact Or.inr ⟨⟨t, f, false⟩, by simp [hin], Option.some.inj hi'⟩
    · rw [if_neg hin] at hi'
      rcases h.owned i t' hi' with ho | ⟨p, hp, hpt⟩
      · exact Or.inl ho
      · exact Or.inr ⟨p, by simpa [Function.update_of_ne hin] using hp, hpt⟩

theorem Inv.refuse {t : Topic} {k : RedisSubClient ClientCallback}
    (hk : RedisSubClient.Refused c.tracker.subClient t k) :
    ({ c with tracker := { c.tracker with subClient := k } } : Config).Inv jobOf := by
  have hle : c.tracker.subClient.nextUuid ≤ k.nextUuid := by rw [hk.nextUuid]; omega
  refine ⟨h.wellFormed.withClient hk.wellFormed hle, ?_, h.jobIds, fun i p hp => ?_,
    fun i t' hi => ?_, h.live, h.active, h.registry⟩
  · show k.pubsub.UnsubscribeOk
    unfold Pubsub.UnsubscribeOk
    rw [hk.failure]
    exact h.unsubscribes
  · obtain ⟨hlt, hrest⟩ := h.pending i p hp
    exact ⟨lt_of_lt_of_le hlt hle, hrest⟩
  · have hi' : k.topicBySubscriptionId.get? i = some t' := hi
    rw [hk.topic h.wellFormed.client] at hi'
    exact h.owned i t' hi'

/-- The client may forget a registration that the tracker does not have. -/
theorem Inv.undo {i : SubId} {k : RedisSubClient ClientCallback}
    (hk : RedisSubClient.Removed c.tracker.subClient (fun k _ => k = i) k) :
    ({ c with
      tracker := { c.tracker with subClient := k }
      pending := Function.update c.pending i none } : Config).Inv jobOf := by
  refine ⟨h.wellFormed.withClient hk.wellFormed hk.nextUuid.ge, ?_, h.jobIds, fun i' p' hp' => ?_,
    fun i' t' hi => ?_, h.live, h.active, h.registry⟩
  · exact hk.unsubscribeOk h.unsubscribes
  · have hne : i' ≠ i := by
      rintro rfl
      simp at hp'
    rw [show ({ c.tracker with subClient := k } : JobTracker).subClient.nextUuid =
      c.tracker.subClient.nextUuid from hk.nextUuid]
    exact h.pending i' p' (by simpa [Function.update_of_ne hne] using hp')
  · obtain ⟨hi, hne⟩ := (hk.topic_iff h.wellFormed.client).mp hi
    rcases h.owned i' t' hi with ho | ⟨q, hq, hqt⟩
    · exact Or.inl ho
    · exact Or.inr ⟨q, by simpa [Function.update_of_ne hne] using hq, hqt⟩

theorem Inv.index {i : SubId} {p : Pending} {info : SubscriptionInfo} {ids : List SubId}
    (hp : c.pending i = some p) (hi : info.callbackId = some i) (ht : info.topic = p.topic)
    (hj : info.jobId = jobOf p.future)
    (hr : c.tracker.futureRegistry.get? (jobOf p.future) = some p.future) :
    ({ c with
      tracker := c.tracker.indexed info i
      pending := Function.update c.pending i none
      listeners := ids } : Config).Inv jobOf := by
  obtain ⟨hlt, hnone, htop, -⟩ := h.pending i p hp
  have hn : c.tracker.find? i = none := (topic_eq_none_iff h.wellFormed).mp hnone
  have hjt : IsTopicOf info.jobId info.topic := by rw [hj, ht]; exact htop
  refine ⟨h.wellFormed.indexed hn hi hjt hlt, h.unsubscribes, h.jobIds, fun i' p' hp' => ?_,
    fun i' t' hi' => ?_, fun i' t' hi' => ?_, fun j hj' => ?_, h.registry⟩
  · have hne : i' ≠ i := by
      rintro rfl
      simp at hp'
    obtain ⟨hlt', hnone', hrest⟩ := h.pending i' p' (by simpa [Function.update_of_ne hne] using hp')
    refine ⟨hlt', ?_, hrest⟩
    rw [topic_indexed, if_neg hne]
    exact hnone'
  · show (c.tracker.indexed info i).topicBySubscriptionId.get? i' = some t' ∨ _
    rw [topic_indexed]
    rcases h.owned i' t' hi' with ho | ⟨q, hq, hqt⟩
    · have hne : i' ≠ i := by
        rintro rfl
        rw [hnone] at ho
        simp at ho
      exact Or.inl (by rw [if_neg hne]; exact ho)
    · by_cases hii : i' = i
      · subst hii
        obtain rfl := Option.some.inj (hp.symm.trans hq)
        exact Or.inl (by rw [if_pos rfl, ht, hqt])
      · exact Or.inr ⟨q, by simpa [Function.update_of_ne hii] using hq, hqt⟩
  · have hi'' : (c.tracker.indexed info i).topicBySubscriptionId.get? i' = some t' := hi'
    rw [topic_indexed] at hi''
    split_ifs at hi'' with hii
    · obtain rfl := Option.some.inj hi''
      exact ⟨jobOf p.future, by rw [ht]; exact htop, Option.isSome_iff_exists.mpr ⟨_, hr⟩⟩
    · exact h.live i' t' hi''
  · have hj'' : ((c.tracker.activeSubscriptions.set info.jobId
        (addTopic info.topic (c.tracker.activeTopics info.jobId))).get? j).isSome := hj'
    rw [Dict.get?_set] at hj''
    split_ifs at hj'' with hjj
    · rw [hjj, hj]
      exact Option.isSome_iff_exists.mpr ⟨_, hr⟩
    · exact h.active j hj''

/-- The removals: what the tracker loses the client loses too, and the rest is still live.  The
future that ended the job may have been updated before (`s₀`). -/
theorem Inv.pruned {s₀ s' : JobTracker} {gone cut : SubId → Topic → Prop}
    {q : SubId → Option Pending} {ts : List Topic} (hm : SameMaps c.tracker s₀)
    (hjob : ∀ f, (s₀.futures f).jobId = jobOf f) (hp : Pruned s₀ gone cut s')
    (hcut : ∀ i t, c.tracker.topicBySubscriptionId.get? i = some t → gone i t → cut i t)
    (hpend : ∀ i, (q i).map (fun p => (p.topic, p.future)) =
      (c.pending i).map (fun p => (p.topic, p.future)))
    (hlive : ∀ i t, c.tracker.topicBySubscriptionId.get? i = some t → ¬ gone i t →
      ∃ j, IsTopicOf j t ∧ (s'.futureRegistry.get? j).isSome)
    (hact : ∀ j, (s'.activeSubscriptions.get? j).isSome → (s'.futureRegistry.get? j).isSome)
    (hreg : ∀ j f, s'.futureRegistry.get? j = some f →
      jobOf f = j ∧ (s'.futures f).done = false ∧ f ∈ c.published) :
    ({ c with tracker := s', pending := q, cutTopics := ts } : Config).Inv jobOf := by
  have h₀ : s₀.WellFormed := h.wellFormed.congr hm
  have htop : ∀ {i t}, s'.topicBySubscriptionId.get? i = some t ↔
      c.tracker.topicBySubscriptionId.get? i = some t ∧ ¬ gone i t := fun {i t} => by
    rw [hp.topic_iff h₀, hm.topicBySubscriptionId]
  have hfrom : ∀ i p, q i = some p →
      ∃ p', c.pending i = some p' ∧ p'.topic = p.topic ∧ p'.future = p.future := fun i p hip => by
    have he := hpend i
    rw [hip] at he
    obtain ⟨p', hq, hqp⟩ := Option.map_eq_some_iff.mp he.symm
    exact ⟨p', hq, (Prod.mk.inj hqp).1, (Prod.mk.inj hqp).2⟩
  have hto : ∀ i p', c.pending i = some p' → ∃ p, q i = some p ∧ p.topic = p'.topic := fun i p' hq => by
    have he := hpend i
    rw [hq] at he
    obtain ⟨p, hip, hpq⟩ := Option.map_eq_some_iff.mp he
    exact ⟨p, hip, (Prod.mk.inj hpq).1⟩
  have huuid : s'.subClient.nextUuid = c.tracker.subClient.nextUuid := by
    rw [hp.nextUuid, hm.subClient]
  have hcl : RedisSubClient.Removed c.tracker.subClient cut s'.subClient := by
    have := hp.client
    rwa [hm.subClient] at this
  refine ⟨hp.wellFormed, hcl.unsubscribeOk h.unsubscribes, fun f => ?_, fun i p hip => ?_,
    fun i t hi => ?_, fun i t hi => ?_, hact, hreg⟩
  · rw [hp.futures]
    exact hjob f
  · obtain ⟨p', hq, hqt, hqf⟩ := hfrom i p hip
    obtain ⟨hlt, hnone, htopic, hpub⟩ := h.pending i p' hq
    refine ⟨by rw [huuid]; exact hlt, ?_, by rw [← hqt, ← hqf]; exact htopic, hqf ▸ hpub⟩
    cases hi : s'.topicBySubscriptionId.get? i with
    | none => rfl
    | some t =>
      rw [(htop.mp hi).1] at hnone
      simp at hnone
  · obtain ⟨hi, hno⟩ := (hcl.topic_iff h.wellFormed.client).mp hi
    rcases h.owned i t hi with ho | ⟨p', hq, hqt⟩
    · exact Or.inl (htop.mpr ⟨ho, fun hg => hno (hcut i t ho hg)⟩)
    · obtain ⟨p, hip, hpt⟩ := hto i p' hq
      exact Or.inr ⟨p, hip, hpt.trans hqt⟩
  · obtain ⟨hi, hno⟩ := htop.mp hi
    exact hlive i t hi hno

/-- What the client of a well-formed tracker loses when a job is discarded. -/
theorem Inv.discarded {s₀ s' : JobTracker} {j : String} (hm : SameMaps c.tracker s₀)
    (hjob : ∀ f, (s₀.futures f).jobId = jobOf f)
    (hdone : ∀ f, jobOf f ≠ j → (s₀.futures f).done = (c.tracker.futures f).done)
    (hp : Pruned s₀ (fun _ t => IsTopicOf j t) (fun _ t => t ∈ c.tracker.activeTopics j) s')
    (hr : s'.futureRegistry = c.tracker.futureRegistry.erase j)
    (ha : s'.activeSubscriptions = c.tracker.activeSubscriptions.erase j) :
    ({ c with tracker := s' } : Config).Inv jobOf := by
  have hkeep : ∀ {j'}, j' ≠ j → s'.futureRegistry.get? j' = c.tracker.futureRegistry.get? j' :=
    fun hne => by rw [hr, Dict.get?_erase_ne _ hne]
  refine Inv.pruned h (q := c.pending) hm hjob hp (fun i t hi hg => ?_) (fun _ => rfl)
    (fun i t hi hno => ?_) (fun j' hj' => ?_) (fun j' f hf => ?_)
  · exact (mem_activeTopics_iff h.wellFormed).mpr ⟨hg, i, hi⟩
  · obtain ⟨j', hjt, hsome⟩ := h.live i t hi
    have hne : j' ≠ j := fun he => hno (he ▸ hjt)
    exact ⟨j', hjt, by rw [hkeep hne]; exact hsome⟩
  · rw [ha, Dict.get?_erase] at hj'
    split_ifs at hj' with hjj
    · simp at hj'
    · rw [hkeep hjj]
      exact h.active j' hj'
  · have hne : j' ≠ j := by
      rintro rfl
      rw [hr, Dict.get?_erase_self] at hf
      simp at hf
    rw [hkeep hne] at hf
    obtain ⟨hjf, hd, hpub⟩ := h.registry j' f hf
    refine ⟨hjf, ?_, hpub⟩
    rw [hp.futures, hdone f (hjf ▸ hne)]
    exact hd

theorem Inv.accept {rt : Runtime} {m : StatusMessage} {f : FutureRef}
    (hd : (c.tracker.futures f).done = false) (ht : (decoded rt m).terminal = false) :
    ({ c with tracker := c.tracker.accept rt m f } : Config).Inv jobOf := by
  refine ⟨h.wellFormed.congr (sameMaps_accept rt m f), h.unsubscribes, fun g => ?_, h.pending, h.owned,
    h.live, h.active, fun j g hg => ?_⟩
  · rw [accept_jobId]
    exact h.jobIds g
  · obtain ⟨hj, hdg, hpub⟩ := h.registry j g hg
    refine ⟨hj, ?_, hpub⟩
    by_cases hgf : g = f
    · rw [hgf, accept_done rt m f hd, ht]
    · rw [accept_futures_ne rt m f hgf]
      exact hdg

theorem Inv.publish {f : FutureRef} (hd : (c.tracker.futures f).done = false) :
    ({ c with
      tracker := c.tracker.publishFuture f
      published := c.published ++ [f] } : Config).Inv jobOf := by
  have hset : ∀ j, (c.tracker.publishFuture f).futureRegistry.get? j =
      if j = jobOf f then some f else c.tracker.futureRegistry.get? j := fun j => by
    rw [← h.jobIds f]
    exact Dict.get?_set _ _ _ _
  have hsome : ∀ j, (c.tracker.futureRegistry.get? j).isSome →
      ((c.tracker.publishFuture f).futureRegistry.get? j).isSome := fun j hj => by
    rw [hset]
    split_ifs
    · rfl
    · exact hj
  refine ⟨h.wellFormed.congr ⟨rfl, rfl, rfl, rfl⟩, h.unsubscribes, h.jobIds,
    fun i p hp => ?_, h.owned, fun i t hi => ?_, fun j hj => hsome j (h.active j hj), fun j g hg => ?_⟩
  · obtain ⟨h1, h2, h3, h4⟩ := h.pending i p hp
    exact ⟨h1, h2, h3, by simp [h4]⟩
  · obtain ⟨j, hjt, hj⟩ := h.live i t hi
    exact ⟨j, hjt, hsome j hj⟩
  · rw [show (c.tracker.publishFuture f).futureRegistry.get? j = _ from hset j] at hg
    split_ifs at hg with hj
    · obtain rfl := Option.some.inj hg
      exact ⟨hj.symm, hd, by simp⟩
    · obtain ⟨h1, h2, h3⟩ := h.registry j g hg
      exact ⟨h1, h2, by simp [h3]⟩

/-- **Every critical section keeps `Inv`.** -/
theorem Inv.step {l : Micro} {c' : Config} (hs : Step jobOf c l c') : c'.Inv jobOf := by
  cases hs with
  | stamp hst => exact h.stamp hst
  | subscribe hk ht hf => exact h.subscribe hk ht hf
  | refuse hk _ => exact h.refuse hk
  | index hp hi ht hj hr _ => exact h.index hp hi ht hj hr
  | undo _ hk => exact h.undo hk
  | removeId hp hr =>
    refine Inv.pruned h (q := c.pending) SameMaps.rfl h.jobIds hp (fun i t hi hg => ?_)
      (fun _ => rfl) (fun i t hi _ => ?_) (fun j hj => ?_) (fun j f hf => ?_)
    · refine ⟨hg.1, hg.2, fun hn => ?_⟩
      rw [hg.1, (topic_eq_none_iff h.wellFormed).mpr hn] at hi
      simp at hi
    · rw [hr]
      exact h.live i t hi
    · rw [hr]
      exact h.active j (hp.active j hj)
    · rw [hr] at hf
      rw [hp.futures]
      exact h.registry j f hf
  | removeTopic hp hr =>
    refine Inv.pruned h SameMaps.rfl h.jobIds hp (fun i t _ hg => hg) (fun i => ?_)
      (fun i t hi _ => ?_) (fun j hj => ?_) (fun j f hf => ?_)
    · rw [Option.map_map]
      congr 1
      funext p
      dsimp only [Function.comp]
      split_ifs <;> rfl
    · rw [hr]
      exact h.live i t hi
    · rw [hr]
      exact h.active j (hp.active j hj)
    · rw [hr] at hf
      rw [hp.futures]
      exact h.registry j f hf
  | accept hd ht => exact h.accept hd ht
  | @finish rt m f s' hd ht hp hr ha =>
    refine h.discarded (sameMaps_accept rt m f) (fun g => ?_) (fun g hg => ?_) hp hr ha
    · rw [accept_jobId]
      exact h.jobIds g
    · have hne : g ≠ f := fun he => hg (he ▸ rfl)
      rw [accept_futures_ne rt m f hne]
  | discard hp hr ha => exact h.discarded SameMaps.rfl h.jobIds (fun _ _ => rfl) hp hr ha
  | publish _ hd => exact h.publish hd
  | listen =>
    have hle : c.tracker.subClient.nextUuid ≤ c.tracker.subClient.nextUuid + 1 := by omega
    have hcl : ({ c.tracker.subClient with nextUuid := c.tracker.subClient.nextUuid + 1 } :
        RedisSubClient ClientCallback).WellFormed :=
      ⟨h.wellFormed.client.consistent,
        fun i p hp => lt_of_lt_of_le (h.wellFormed.client.fresh i p hp) hle,
        h.wellFormed.client.filed, h.wellFormed.client.ready, h.wellFormed.client.event_lt⟩
    have hw := h.wellFormed.withClient hcl hle
    refine ⟨hw.congr ⟨rfl, rfl, rfl, rfl⟩, h.unsubscribes, h.jobIds, fun i p hp => ?_, h.owned, h.live, h.active, h.registry⟩
    obtain ⟨hlt, hrest⟩ := h.pending i p hp
    exact ⟨lt_of_lt_of_le hlt hle, hrest⟩

end Preservation

/-! ## Agreement with the client -/

section Agreement

/-- The client has every registration of the tracker, and those in flight whose topic and job were not
removed meanwhile. -/
structure Agree (jobOf : FutureRef → String) (c : Config) : Prop where
  mirrored : ∀ i t, c.tracker.topicBySubscriptionId.get? i = some t →
    c.tracker.subClient.topicBySubscriptionId.get? i = some t
  kept : ∀ i p, c.pending i = some p → p.overtaken = false →
    c.tracker.futureRegistry.get? (jobOf p.future) = some p.future →
    c.tracker.subClient.topicBySubscriptionId.get? i = some p.topic

variable {jobOf : FutureRef → String} {c : Config} (h : c.Inv jobOf) (ha : c.Agree jobOf)
include h ha

/-- The removals: the client loses only what the tracker loses or never had. -/
theorem Agree.pruned {s' : JobTracker} {g cut : SubId → Topic → Prop}
    {q : SubId → Option Pending} {ts : List Topic}
    (htop : ∀ i t, s'.topicBySubscriptionId.get? i = some t →
      c.tracker.topicBySubscriptionId.get? i = some t ∧ ¬ g i t)
    (hcl : RedisSubClient.Removed c.tracker.subClient cut s'.subClient)
    (hcut : ∀ i t, c.tracker.topicBySubscriptionId.get? i = some t → cut i t → g i t)
    (hpend : ∀ i p, q i = some p → p.overtaken = false →
      c.pending i = some p ∧ (s'.futureRegistry.get? (jobOf p.future) = some p.future →
        ¬ cut i p.topic ∧ c.tracker.futureRegistry.get? (jobOf p.future) = some p.future)) :
    ({ c with tracker := s', pending := q, cutTopics := ts } : Config).Agree jobOf := by
  refine ⟨fun i t hi => ?_, fun i p hp hov hr => ?_⟩
  · obtain ⟨hi, hno⟩ := htop i t hi
    exact (hcl.topic_iff h.wellFormed.client).mpr ⟨ha.mirrored i t hi, fun hc => hno (hcut i t hi hc)⟩
  · obtain ⟨hp, hrest⟩ := hpend i p hp hov
    obtain ⟨hno, hreg⟩ := hrest hr
    exact (hcl.topic_iff h.wellFormed.client).mpr ⟨ha.kept i p hp hov hreg, hno⟩

theorem Agree.discarded {s₀ s' : JobTracker} {j : String} (hm : SameMaps c.tracker s₀)
    (hp : Pruned s₀ (fun _ t => IsTopicOf j t) (fun _ t => t ∈ c.tracker.activeTopics j) s')
    (hr : s'.futureRegistry = c.tracker.futureRegistry.erase j) :
    ({ c with tracker := s' } : Config).Agree jobOf := by
  have hcl := hp.client
  rw [hm.subClient] at hcl
  refine Agree.pruned h ha (g := fun _ t => IsTopicOf j t) (q := c.pending) (fun i t hi => ?_) hcl
    (fun i t _ hc => ((mem_activeTopics_iff h.wellFormed).mp hc).1)
    (fun i p hip _ => ⟨hip, fun hreg => ?_⟩)
  · rw [hp.topic_iff (h.wellFormed.congr hm), hm.topicBySubscriptionId] at hi
    exact hi
  · rw [hr, Dict.get?_erase] at hreg
    split_ifs at hreg with hj
    obtain ⟨-, -, htop, -⟩ := h.pending i p hip
    exact ⟨fun hc => hj (htop.unique ((mem_activeTopics_iff h.wellFormed).mp hc).1), hreg⟩

/-- **A critical section keeps `Agree`, unless it indexes an overtaken registration.** -/
theorem Agree.step {l : Micro} {c' : Config} (hs : Step jobOf c l c')
    (hl : ∀ i p, l = .index i → c.pending i = some p → p.overtaken = false) : c'.Agree jobOf := by
  cases hs with
  | stamp hst =>
    refine ⟨fun i t hi => ?_, fun i p hp hov hr => ?_⟩
    · simp only [hst.topicBySubscriptionId, hst.subClient] at hi ⊢
      exact ha.mirrored i t hi
    · simp only [hst.futureRegistry, hst.subClient] at hr ⊢
      exact ha.kept i p hp hov hr
  | @subscribe t cb k f hk ht hf =>
    have hold : ∀ i t', c.tracker.subClient.topicBySubscriptionId.get? i = some t' →
        k.topicBySubscriptionId.get? i = some t' := fun i t' hi => by
      have hlt := RedisSubClient.topic_lt h.wellFormed.client hi
      rw [hk.topic h.wellFormed.client, if_neg (Nat.ne_of_lt hlt)]
      exact hi
    refine ⟨fun i t' hi => hold i t' (ha.mirrored i t' hi), fun i p hp hov hr => ?_⟩
    by_cases hin : i = c.tracker.subClient.nextUuid
    · subst hin
      obtain rfl : Pending.mk t f false = p := by simpa using hp
      show k.topicBySubscriptionId.get? _ = _
      rw [hk.topic h.wellFormed.client, if_pos rfl]
    · exact hold i _ (ha.kept i p (by simpa [Function.update_of_ne hin] using hp) hov hr)
  | @refuse t k _ hk _ =>
    have hold : ∀ i, k.topicBySubscriptionId.get? i =
        c.tracker.subClient.topicBySubscriptionId.get? i := hk.topic h.wellFormed.client
    exact ⟨fun i t' hi => (hold i).trans (ha.mirrored i t' hi),
      fun i p hp hov hr => (hold i).trans (ha.kept i p hp hov hr)⟩
  | @index i p info ids hp hi ht hj hr hids =>
    refine ⟨fun i' t' hi' => ?_, fun i' p' hp' hov hr' => ?_⟩
    · have hi'' : (c.tracker.indexed info i).topicBySubscriptionId.get? i' = some t' := hi'
      rw [topic_indexed] at hi''
      split_ifs at hi'' with hii
      · obtain rfl := Option.some.inj hi''
        rw [hii, ht]
        exact ha.kept i p hp (hl i p rfl hp) hr
      · exact ha.mirrored i' t' hi''
    · have hne : i' ≠ i := by
        rintro rfl
        simp at hp'
      exact ha.kept i' p' (by simpa [Function.update_of_ne hne] using hp') hov hr'
  | @undo i p k hp hk =>
    have hnone := (h.pending i p hp).2.1
    refine ⟨fun i' t' hi' => ?_, fun i' p' hp' hov hr' => ?_⟩
    · refine (hk.topic_iff h.wellFormed.client).mpr ⟨ha.mirrored i' t' hi', ?_⟩
      rintro rfl
      have hi'' : c.tracker.topicBySubscriptionId.get? i' = some t' := hi'
      rw [hnone] at hi''
      simp at hi''
    · have hne : i' ≠ i := by
        rintro rfl
        simp at hp'
      refine (hk.topic_iff h.wellFormed.client).mpr ⟨?_, hne⟩
      exact ha.kept i' p' (by simpa [Function.update_of_ne hne] using hp') hov hr'
  | @removeId i s' hp hr =>
    refine Agree.pruned h ha (q := c.pending) (fun i t hi => (hp.topic_iff h.wellFormed).mp hi)
      hp.client (fun k t _ hc => ⟨hc.1, hc.2.1⟩)
      (fun k p hkp _ => ⟨hkp, fun hreg => ⟨fun hc => hc.2.2 ?_, by rw [← hr]; exact hreg⟩⟩)
    rw [← hc.1, ← topic_eq_none_iff h.wellFormed]
    exact (h.pending k p hkp).2.1
  | @removeTopic t s' hp hr =>
    refine Agree.pruned h ha (fun i t hi => (hp.topic_iff h.wellFormed).mp hi) hp.client
      (fun k t _ hc => hc) (fun k p hkp hov => ?_)
    obtain ⟨q, hq, hqp⟩ := Option.map_eq_some_iff.mp hkp
    split_ifs at hqp with hqt
    · rw [← hqp] at hov
      simp at hov
    · subst hqp
      exact ⟨hq, fun hreg => ⟨hqt, by rw [← hr]; exact hreg⟩⟩
  | accept hd ht => exact ⟨ha.mirrored, ha.kept⟩
  | @finish rt m f s' hd ht hp hr _ => exact ha.discarded h (sameMaps_accept rt m f) hp hr
  | discard hp hr _ => exact ha.discarded h SameMaps.rfl hp hr
  | @publish f hf hd =>
    refine ⟨ha.mirrored, fun i p hp hov hr => ha.kept i p hp hov ?_⟩
    have hr' : (c.tracker.futureRegistry.set (c.tracker.futures f).jobId f).get? (jobOf p.future) =
        some p.future := hr
    rw [Dict.get?_set] at hr'
    split_ifs at hr' with hj
    · obtain rfl := Option.some.inj hr'
      exact absurd (h.pending i p hp).2.2.2 hf
    · exact hr'
  | listen => exact ⟨ha.mirrored, ha.kept⟩

end Agreement

/-! ## A job outside the registry -/

section Forgotten

/-- The maps mention a job only through the ids under its topics and through its own two entries. -/
theorem forgotten_of_topics {s : JobTracker} (h : s.WellFormed) {j : String}
    (hj : s.futureRegistry.get? j = none) (ha : s.activeSubscriptions.get? j = none)
    (howner : ∀ i t, s.topicBySubscriptionId.get? i = some t → ¬ IsTopicOf j t)
    (hids : ∀ i t, s.subClient.topicBySubscriptionId.get? i = some t → ¬ IsTopicOf j t) :
    s.Forgotten j := by
  refine ⟨hj, ha, fun t hjt => ?_, fun t b i info hb hi hinfo => ?_, howner, fun t hjt => ?_, hids⟩
  · rw [← Option.not_isSome_iff_eq_none, subscriptionsByTopic_isSome_iff h]
    rintro ⟨i, hi⟩
    exact howner i t hi hjt
  · have hf : s.find? i = some (t, info) := by
      refine (Index.find?_eq_some_iff h.consistent).mpr ?_
      simp [Index.bucket, JobTracker.index, hb, hi]
    have ht := (jobId_eq_iff h hf).mp hinfo
    exact howner i t ((topic_eq_some_iff h).mpr ⟨info, hf⟩) ht
  · rw [← Option.not_isSome_iff_eq_none]
    intro hreg
    obtain ⟨i, hi⟩ := (RedisSubClient.registered_iff_topic h.client).mp hreg
    exact hids i t hi hjt

/-- **A job outside the registry, with no registration in flight, is mentioned nowhere.** -/
theorem Inv.forgotten {jobOf : FutureRef → String} {c : Config} (h : c.Inv jobOf) {j : String}
    (hj : c.tracker.futureRegistry.get? j = none)
    (hp : ∀ i p, c.pending i = some p → ¬ IsTopicOf j p.topic) : c.tracker.Forgotten j := by
  have howner : ∀ i t, c.tracker.topicBySubscriptionId.get? i = some t → ¬ IsTopicOf j t := by
    intro i t hi hjt
    obtain ⟨j', hjt', hsome⟩ := h.live i t hi
    rw [← hjt.unique hjt', hj] at hsome
    simp at hsome
  have hact : c.tracker.activeSubscriptions.get? j = none := by
    cases ha : c.tracker.activeSubscriptions.get? j with
    | none => rfl
    | some ts =>
      have := h.active j (by simp [ha])
      rw [hj] at this
      simp at this
  refine forgotten_of_topics h.wellFormed hj hact howner fun i t hi hjt => ?_
  rcases h.owned i t hi with ho | ⟨p, hip, hpt⟩
  · exact howner i t ho hjt
  · exact hp i p hip (hpt ▸ hjt)

end Forgotten

/-! ## Internal subscriptions -/

section Monitoring

/-- The ids handed to users belong to records with a user's callback. -/
def Named (c : Config) : Prop :=
  ∀ i : ℕ, i ∈ c.listeners → i < c.tracker.subClient.nextUuid ∧ c.pending i = none ∧
    ∀ t info, c.tracker.find? i = some (t, info) → info.callback ≠ none

/-- The internal subscription of an event is registered in the tracker and in the client, unless its
topic was removed by `remove_subscription_by_topic`. -/
def Monitored (c : Config) (f : FutureRef) (e : Event) : Prop :=
  topicOf (c.tracker.futures f).jobId e ∈ c.cutTopics ∨
    ∃ i info sub, c.tracker.find? i = some (topicOf (c.tracker.futures f).jobId e, info) ∧
      info.callback = none ∧
      c.tracker.subClient.find? i = some (topicOf (c.tracker.futures f).jobId e, sub) ∧
      sub.callback = internalCallback e f (c.tracker.futures f)

/-- A future that is in the registry is monitored. -/
def Watched (c : Config) (f : FutureRef) (e : Event) : Prop :=
  f ∈ c.published ∧
    (c.tracker.futureRegistry.get? (c.tracker.futures f).jobId = some f → c.Monitored f e)

theorem internalCallback_congr {e : Event} {f : FutureRef} {x y : JobFuture} (hj : x.jobId = y.jobId)
    (hs : x.slurmJobId = y.slurmJobId) : internalCallback e f x = internalCallback e f y := by
  cases e <;> simp [internalCallback, hj, hs]

/-- Monitoring survives a step that leaves the ids of the future and the two registrations alone. -/
theorem Monitored.keep {c c' : Config} {f : FutureRef} {e : Event} (h : c.Monitored f e)
    (hj : (c'.tracker.futures f).jobId = (c.tracker.futures f).jobId)
    (hs : (c'.tracker.futures f).slurmJobId = (c.tracker.futures f).slurmJobId)
    (hcut : ∀ t, t ∈ c.cutTopics → t ∈ c'.cutTopics)
    (hkeep : ∀ i info sub, c.tracker.find? i = some (topicOf (c.tracker.futures f).jobId e, info) →
      info.callback = none →
      c.tracker.subClient.find? i = some (topicOf (c.tracker.futures f).jobId e, sub) →
      topicOf (c.tracker.futures f).jobId e ∈ c'.cutTopics ∨
      ((∃ info', c'.tracker.find? i = some (topicOf (c.tracker.futures f).jobId e, info') ∧
          info'.callback = info.callback) ∧
        c'.tracker.subClient.find? i = some (topicOf (c.tracker.futures f).jobId e, sub))) :
    c'.Monitored f e := by
  unfold Monitored
  rw [hj]
  rcases h with hc | ⟨i, info, sub, hf, hn, hcl, hcb⟩
  · exact Or.inl (hcut _ hc)
  · rcases hkeep i info sub hf hn hcl with hc | ⟨⟨info', hf', hcb'⟩, hcl'⟩
    · exact Or.inl hc
    · refine Or.inr ⟨i, info', sub, hf', hcb'.trans hn, hcl', ?_⟩
      rw [hcb]
      exact internalCallback_congr hj.symm hs.symm

variable {jobOf : FutureRef → String} {c c' : Config} {l : Micro} (h : c.Inv jobOf) (hn : c.Named)
include h hn

theorem Named.step (hs : Step jobOf c l c') : c'.Named := by
  intro i hi
  cases hs with
  | stamp hst =>
    obtain ⟨hlt, hnone, hcb⟩ := hn i hi
    refine ⟨by simpa only [hst.subClient] using hlt, hnone, fun t info hf => ?_⟩
    obtain ⟨info₀, hf₀, hu⟩ := hst.find?_of_some hf
    rw [← (SubscriptionInfo.eq_of_unstamped hu).2.2.2]
    exact hcb t info₀ hf₀
  | @subscribe t cb k f hk ht hf =>
    obtain ⟨hlt, hnone, hcb⟩ := hn i hi
    refine ⟨?_, ?_, hcb⟩
    · show i < k.nextUuid
      rw [hk.nextUuid]
      omega
    · simpa [Function.update_of_ne (Nat.ne_of_lt hlt)] using hnone
  | @refuse t k _ hk _ =>
    obtain ⟨hlt, hnone, hcb⟩ := hn i hi
    refine ⟨?_, hnone, hcb⟩
    show i < k.nextUuid
    rw [hk.nextUuid]
    omega
  | @index k p info ids hp hki ht hj hr hids =>
    obtain ⟨hlt, hnone, -⟩ := h.pending k p hp
    have hnew : c.tracker.find? k = none := (topic_eq_none_iff h.wellFormed).mp hnone
    have hfind : ∀ n, (c.tracker.indexed info k).find? n = _ := find?_indexed h.wellFormed hnew
    have hold : i ∈ c.listeners → i < c.tracker.subClient.nextUuid ∧
        Function.update c.pending k none i = none ∧
        ∀ t info', (c.tracker.indexed info k).find? i = some (t, info') → info'.callback ≠ none := by
      intro hi
      obtain ⟨hlt', hnone', hcb⟩ := hn i hi
      have hne : i ≠ k := by
        rintro rfl
        rw [hp] at hnone'
        simp at hnone'
      refine ⟨hlt', by rw [Function.update_of_ne hne]; exact hnone', fun t info' hf => ?_⟩
      rw [hfind, if_neg hne] at hf
      exact hcb t info' hf
    rcases hids with ⟨-, rfl⟩ | ⟨hcb, rfl⟩
    · exact hold hi
    · rcases List.mem_append.mp hi with hi | hi
      · exact hold hi
      · obtain rfl : i = k := by simpa using hi
        refine ⟨hlt, by simp, fun t info' hf => ?_⟩
        have hf' : (c.tracker.indexed info i).find? i = some (t, info') := hf
        rw [hfind, if_pos rfl] at hf'
        obtain ⟨-, rfl⟩ := Prod.mk.inj (Option.some.inj hf')
        exact hcb
  | @undo k p cl hp hk =>
    obtain ⟨hlt, hnone, hcb⟩ := hn i hi
    refine ⟨?_, ?_, hcb⟩
    · show i < cl.nextUuid
      rw [hk.nextUuid]
      exact hlt
    · by_cases hik : i = k
      · simp [hik]
      · simpa [Function.update_of_ne hik] using hnone
  | @removeId k s' hp hr =>
    obtain ⟨hlt, hnone, hcb⟩ := hn i hi
    exact ⟨lt_of_lt_of_eq hlt hp.nextUuid.symm, hnone,
      fun t info hf => hcb t info ((hp.find?_iff i _).mp hf).1⟩
  | @removeTopic t s' hp hr =>
    obtain ⟨hlt, hnone, hcb⟩ := hn i hi
    exact ⟨lt_of_lt_of_eq hlt hp.nextUuid.symm, by simp [hnone],
      fun t info hf => hcb t info ((hp.find?_iff i _).mp hf).1⟩
  | accept hd ht => exact hn i hi
  | @finish rt m f s' hd ht hp hr _ =>
    obtain ⟨hlt, hnone, hcb⟩ := hn i hi
    exact ⟨lt_of_lt_of_eq hlt hp.nextUuid.symm, hnone,
      fun t info hf => hcb t info ((hp.find?_iff i _).mp hf).1⟩
  | @discard j s' hp hr _ =>
    obtain ⟨hlt, hnone, hcb⟩ := hn i hi
    exact ⟨lt_of_lt_of_eq hlt hp.nextUuid.symm, hnone,
      fun t info hf => hcb t info ((hp.find?_iff i _).mp hf).1⟩
  | publish hf hd => exact hn i hi
  | listen =>
    obtain ⟨hlt, hrest⟩ := hn i hi
    exact ⟨Nat.lt_succ_of_lt hlt, hrest⟩

omit h hn in
/-- A record that survived a removal, with its client registration. -/
theorem survives {s₀ s' : JobTracker} {gone cut : SubId → Topic → Prop} (hm : SameMaps c.tracker s₀)
    (hp : Pruned s₀ gone cut s') {i : SubId} {t : Topic} {info : SubscriptionInfo}
    {sub : Subscription ClientCallback} (hf : c.tracker.find? i = some (t, info))
    (hcl : c.tracker.subClient.find? i = some (t, sub)) (hg : ¬ gone i t) (hc : ¬ cut i t) :
    (∃ info', s'.find? i = some (t, info') ∧ info'.callback = info.callback) ∧
      s'.subClient.find? i = some (t, sub) := by
  refine ⟨⟨info, (hp.find?_iff i _).mpr ⟨?_, hg⟩, rfl⟩, (hp.client.find?_iff i _).mpr ⟨?_, hc⟩⟩
  · rw [hm.find?]
    exact hf
  · rw [hm.subClient]
    exact hcl

/-- **An internal subscription stays until its topic or its job is removed**, provided that only ids
handed to users are removed by id. -/
theorem Watched.step {f : FutureRef} {e : Event} (hw : c.Watched f e)
    (hl : ∀ i, l = .removeId i → i ∈ c.listeners) (hs : Step jobOf c l c') : c'.Watched f e := by
  obtain ⟨hpub, hmon⟩ := hw
  -- a removal that spares the job of `f` spares the subscription
  have hspared : ∀ {s₀ s' : JobTracker} {j : String}, SameMaps c.tracker s₀ →
      Pruned s₀ (fun _ t => IsTopicOf j t) (fun _ t => t ∈ c.tracker.activeTopics j) s' →
      s'.futureRegistry = c.tracker.futureRegistry.erase j →
      (s'.futures f).jobId = (c.tracker.futures f).jobId →
      (s'.futures f).slurmJobId = (c.tracker.futures f).slurmJobId →
      ({ c with tracker := s' } : Config).Watched f e := by
    intro s₀ s' j hm hp hr hji hsi
    refine ⟨hpub, fun hreg => ?_⟩
    have hreg' : s'.futureRegistry.get? (s'.futures f).jobId = some f := hreg
    rw [hji, hr, Dict.get?_erase] at hreg'
    split_ifs at hreg' with hj
    have hno : ¬ IsTopicOf j (topicOf (c.tracker.futures f).jobId e) := fun hjt' =>
      hj ((isTopicOf_topicOf _ _).unique hjt')
    refine (hmon hreg').keep hji hsi (fun t ht => ht) fun i info sub hf _ hcl => Or.inr ?_
    exact survives hm hp hf hcl hno fun hc => hno ((mem_activeTopics_iff h.wellFormed).mp hc).1
  cases hs with
  | @stamp s' hst =>
    refine ⟨hpub, fun hreg => ?_⟩
    have hfu : (s'.futures f) = c.tracker.futures f := by rw [hst.futures]
    have hreg' : s'.futureRegistry.get? (s'.futures f).jobId = some f := hreg
    rw [hst.futureRegistry, hst.futures] at hreg'
    refine (hmon hreg').keep (by rw [hfu]) (by rw [hfu]) (fun t ht => ht) ?_
    intro i info sub hf _ hcl
    obtain ⟨info', hf', hu⟩ := hst.find?_some hf
    exact Or.inr ⟨⟨info', hf', (SubscriptionInfo.eq_of_unstamped hu).2.2.2⟩, by rw [hst.subClient]; exact hcl⟩
  | @subscribe t cb k f' hk ht hf' =>
    refine ⟨hpub, fun hreg => (hmon hreg).keep rfl rfl (fun t ht => ht) ?_⟩
    intro i info sub hf _ hcl
    refine Or.inr ⟨⟨info, hf, rfl⟩, ?_⟩
    show k.find? i = _
    rw [hk.find?, if_neg (Nat.ne_of_lt (h.wellFormed.fresh i _ hf))]
    exact hcl
  | @refuse t k _ hk _ =>
    refine ⟨hpub, fun hreg => (hmon hreg).keep rfl rfl (fun t ht => ht) ?_⟩
    intro i info sub hf _ hcl
    exact Or.inr ⟨⟨info, hf, rfl⟩, (hk.find? i).trans hcl⟩
  | @index i p info ids hp hki ht hj hr hids =>
    refine ⟨hpub, fun hreg => (hmon hreg).keep rfl rfl (fun t ht => ht) ?_⟩
    intro k info' sub hf _ hcl
    have hnone : c.tracker.find? i = none := (topic_eq_none_iff h.wellFormed).mp (h.pending i p hp).2.1
    refine Or.inr ⟨⟨info', ?_, rfl⟩, hcl⟩
    have hne : k ≠ i := by
      rintro rfl
      rw [hnone] at hf
      simp at hf
    exact (find?_indexed h.wellFormed hnone k).trans (by rw [if_neg hne]; exact hf)
  | @undo i p k hp hk =>
    refine ⟨hpub, fun hreg => (hmon hreg).keep rfl rfl (fun t ht => ht) ?_⟩
    intro i' info' sub hf _ hcl
    refine Or.inr ⟨⟨info', hf, rfl⟩, (hk.find?_iff i' _).mpr ⟨hcl, ?_⟩⟩
    rintro rfl
    rw [(topic_eq_none_iff h.wellFormed).mp (h.pending i' p hp).2.1] at hf
    simp at hf
  | @removeId i s' hp hr =>
    refine ⟨hpub, fun hreg => ?_⟩
    have hfu : s'.futures f = c.tracker.futures f := by rw [hp.futures]
    have hreg' : s'.futureRegistry.get? (s'.futures f).jobId = some f := hreg
    rw [hfu, hr] at hreg'
    refine (hmon hreg').keep (by rw [hfu]) (by rw [hfu]) (fun t ht => ht) ?_
    intro k info sub hf hcb hcl
    have hne : k ≠ i := by
      rintro rfl
      exact (hn k (hl k rfl)).2.2 _ info hf hcb
    exact Or.inr (survives SameMaps.rfl hp hf hcl (fun hg => hne hg.1) fun hg => hne hg.1)
  | @removeTopic t s' hp hr =>
    refine ⟨hpub, fun hreg => ?_⟩
    have hfu : s'.futures f = c.tracker.futures f := by rw [hp.futures]
    have hreg' : s'.futureRegistry.get? (s'.futures f).jobId = some f := hreg
    rw [hfu, hr] at hreg'
    refine (hmon hreg').keep (by rw [hfu]) (by rw [hfu])
      (fun t' ht' => List.mem_append_left _ ht') ?_
    intro k info sub hf _ hcl
    by_cases ht : topicOf (c.tracker.futures f).jobId e = t
    · exact Or.inl (by simp [ht])
    · exact Or.inr (survives SameMaps.rfl hp hf hcl ht ht)
  | @accept rt m g hd ht =>
    refine ⟨hpub, fun hreg => ?_⟩
    have hreg' : c.tracker.futureRegistry.get? ((c.tracker.accept rt m g).futures f).jobId = some f := hreg
    rw [accept_jobId] at hreg'
    refine (hmon hreg').keep (accept_jobId rt m g f) (accept_slurmJobId rt m g f) (fun t ht => ht) ?_
    exact fun i info sub hf _ hcl => Or.inr ⟨⟨info, hf, rfl⟩, hcl⟩
  | @finish rt m g s' hd ht hp hr _ =>
    refine hspared (sameMaps_accept rt m g) hp hr ?_ ?_
    · rw [hp.futures, accept_jobId]
    · rw [hp.futures, accept_slurmJobId]
  | @discard j s' hp hr _ =>
    exact hspared SameMaps.rfl hp hr (by rw [hp.futures]) (by rw [hp.futures])
  | @publish g hg hd =>
    refine ⟨by simp [hpub], fun hreg => ?_⟩
    have hreg' : (c.tracker.futureRegistry.set (c.tracker.futures g).jobId g).get?
        (c.tracker.futures f).jobId = some f := hreg
    rw [Dict.get?_set] at hreg'
    split_ifs at hreg' with hj
    · exact absurd (Option.some.inj hreg' ▸ hpub) hg
    · exact (hmon hreg').keep rfl rfl (fun t ht => ht)
        fun i info sub hf _ hcl => Or.inr ⟨⟨info, hf, rfl⟩, hcl⟩
  | listen =>
    refine ⟨hpub, fun hreg => (hmon hreg).keep rfl rfl (fun t ht => ht) ?_⟩
    exact fun i info sub hf _ hcl => Or.inr ⟨⟨info, hf, rfl⟩, hcl⟩

end Monitoring

/-! ## Redis calls that do not raise -/

/-- The connection's oracle is the same all along. -/
theorem Step.failure {jobOf : FutureRef → String} {c c' : Config} {l : Micro} (hs : Step jobOf c l c') :
    c'.tracker.subClient.pubsub.failure = c.tracker.subClient.pubsub.failure := by
  cases hs with
  | stamp h => exact congrArg (fun k => k.pubsub.failure) h.subClient
  | subscribe h => exact h.failure
  | refuse h => exact h.failure
  | index => rfl
  | undo _ h => exact h.failure
  | removeId h => exact h.client.failure
  | removeTopic h => exact h.client.failure
  | accept => rfl
  | finish _ _ h => exact h.client.failure
  | discard h => exact h.client.failure
  | publish => rfl
  | listen => rfl

section Quiet

/-- SUBSCRIBE calls do not raise, and none did: ready events, registered topics and open channels are
the same topics. -/
structure Quiet (c : Config) : Prop where
  subscribes : c.tracker.subClient.pubsub.SubscribeOk
  synced : c.tracker.subClient.Synced

variable {jobOf : FutureRef → String} {c c' : Config} {l : Micro} (h : c.Inv jobOf) (hq : c.Quiet)
include h hq

theorem Quiet.removed {gone : SubId → Topic → Prop} {k : RedisSubClient ClientCallback}
    (hk : RedisSubClient.Removed c.tracker.subClient gone k) : k.pubsub.SubscribeOk ∧ k.Synced := by
  refine ⟨?_, hk.synced h.unsubscribes hq.synced⟩
  unfold Pubsub.SubscribeOk
  rw [hk.failure]
  exact hq.subscribes

theorem Quiet.step (hs : Step jobOf c l c') : c'.Quiet := by
  cases hs with
  | stamp hst => exact ⟨by rw [hst.subClient]; exact hq.subscribes, by rw [hst.subClient]; exact hq.synced⟩
  | @subscribe t cb k f hk ht hf =>
    refine ⟨?_, hk.synced hq.synced⟩
    show k.pubsub.SubscribeOk
    unfold Pubsub.SubscribeOk
    rw [hk.failure]
    exact hq.subscribes
  | @refuse t k e hk hs =>
    rw [Pubsub.outcome_eq_ok_iff.mpr (hq.subscribes _ t)] at hs
    simp at hs
  | index => exact ⟨hq.subscribes, hq.synced⟩
  | undo _ hk => exact ⟨(hq.removed h hk).1, (hq.removed h hk).2⟩
  | removeId hp _ => exact ⟨(hq.removed h hp.client).1, (hq.removed h hp.client).2⟩
  | removeTopic hp _ => exact ⟨(hq.removed h hp.client).1, (hq.removed h hp.client).2⟩
  | accept => exact ⟨hq.subscribes, hq.synced⟩
  | finish _ _ hp _ _ => exact ⟨(hq.removed h hp.client).1, (hq.removed h hp.client).2⟩
  | discard hp _ _ => exact ⟨(hq.removed h hp.client).1, (hq.removed h hp.client).2⟩
  | publish => exact ⟨hq.subscribes, hq.synced⟩
  | listen => exact ⟨hq.subscribes, ⟨hq.synced.ready_iff, hq.synced.open_iff⟩⟩

omit h in
/-- A topic without callbacks has no ready event, and Redis was last asked to drop it. -/
theorem Quiet.closed {t : Topic} (ht : c.tracker.subClient.subscriptionsByTopic.get? t = none) :
    c.tracker.subClient.subscriptionReady.get? t = none ∧
      isOpen c.tracker.subClient.pubsub.sent t = false := by
  have hreg : ¬ c.tracker.subClient.Registered t := by simp [RedisSubClient.Registered, ht]
  refine ⟨?_, ?_⟩
  · rw [← Option.not_isSome_iff_eq_none, hq.synced.ready_iff]
    exact hreg
  · rw [← Bool.not_eq_true, hq.synced.open_iff]
    exact hreg

end Quiet

end Config

end SlurmManager
