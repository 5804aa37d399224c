import SlurmManager.Tracking.ClientInvariant
import SlurmManager.Tracking.JobTracker

/-!
# TrackerInvariant — the registrations of `JobTracker`

* `WellFormed`: the two registration maps form a consistent index, a record is filed under its own id
  and topic, the topic is one of its job, and `_active_subscriptions` lists for each job the topics
  that have records.  It says nothing about the agreement with the Redis client, which does not hold
  between two critical sections.
* `WellFormed.indexed`: indexing a new registration.
* `Stamped`: the effect of the operations that write heartbeat and scheduler stamps.
-/

namespace SlurmManager

/-- A record without its clock readings. -/
def SubscriptionInfo.unstamped (info : SubscriptionInfo) : SubscriptionInfo :=
  { info with lastHeartbeat := none, lastSchedulerCheck := none }

theorem SubscriptionInfo.eq_of_unstamped {a b : SubscriptionInfo} (h : a.unstamped = b.unstamped) :
    a.callbackId = b.callbackId ∧ a.topic = b.topic ∧ a.jobId = b.jobId ∧ a.callback = b.callback := by
  cases a
  cases b
  simp only [SubscriptionInfo.unstamped, SubscriptionInfo.mk.injEq] at h
  obtain ⟨ht, hj, -, hc, hi, -⟩ := h
  exact ⟨hi, ht, hj, hc⟩

namespace JobTracker

variable {s : JobTracker}

/-- `_subscriptions_by_topic` with `_topic_by_subscription_id`. -/
def index (s : JobTracker) : Index Topic SubId SubscriptionInfo where
  buckets := s.subscriptionsByTopic
  owner := s.topicBySubscriptionId

/-- The registration of an id: its topic and its record. -/
def find? (s : JobTracker) (i : SubId) : Option (Topic × SubscriptionInfo) := s.index.find? i

structure WellFormed (s : JobTracker) : Prop where
  client : s.subClient.WellFormed
  consistent : s.index.Consistent
  fresh : ∀ (i : ℕ) p, s.find? i = some p → i < s.subClient.nextUuid
  filed : ∀ i t info, s.find? i = some (t, info) →
    info.callbackId = some i ∧ info.topic = t ∧ IsTopicOf info.jobId t
  active_iff : ∀ j t, t ∈ s.activeTopics j ↔ IsTopicOf j t ∧ ∃ i p, s.find? i = some (t, p)
  active_nodup : ∀ j, (s.activeTopics j).Nodup

/-! ## Reading -/

section Reading

/-- A new tracker. -/
theorem wellFormed_of_empty (hc : s.subClient.WellFormed) (h : s.subscriptionsByTopic = ∅)
    (h' : s.topicBySubscriptionId = ∅) (ha : s.activeSubscriptions = ∅) : s.WellFormed := by
  have hf : ∀ i, s.find? i = none := fun i => by
    unfold find? index
    rw [h, h']
    rfl
  have hact : ∀ j, s.activeTopics j = [] := fun j => by
    unfold activeTopics
    rw [ha]
    rfl
  refine ⟨hc, ?_, fun i p hp => ?_, fun i t info hi => ?_, fun j t => ?_, fun j => ?_⟩
  · unfold index
    rw [h, h']
    exact Index.consistent_empty
  · rw [hf] at hp
    simp at hp
  · rw [hf] at hi
    simp at hi
  · simp [hact, hf]
  · simp [hact]

theorem topic_eq_some_iff (h : s.WellFormed) {i : SubId} {t : Topic} :
    s.topicBySubscriptionId.get? i = some t ↔ ∃ info, s.find? i = some (t, info) :=
  Index.owner_eq_some_iff h.consistent

theorem topic_eq_none_iff (h : s.WellFormed) {i : SubId} :
    s.topicBySubscriptionId.get? i = none ↔ s.find? i = none :=
  (Index.find?_eq_none_iff h.consistent).symm

theorem find?_eq_none_of_le (h : s.WellFormed) {i : ℕ} (hi : s.subClient.nextUuid ≤ i) :
    s.find? i = none := by
  cases hf : s.find? i with
  | none => rfl
  | some p => exact absurd (h.fresh i p hf) (not_lt.mpr hi)

/-- A registration belongs to the job of its topic. -/
theorem jobId_eq_iff (h : s.WellFormed) {i : SubId} {t : Topic} {info : SubscriptionInfo} {j : String}
    (hf : s.find? i = some (t, info)) : info.jobId = j ↔ IsTopicOf j t := by
  have ht := (h.filed i t info hf).2.2
  exact ⟨fun hj => hj ▸ ht, fun hj => ht.unique hj⟩

/-- A topic is indexed exactly when an id leads to it. -/
theorem subscriptionsByTopic_isSome_iff (h : s.WellFormed) {t : Topic} :
    (s.subscriptionsByTopic.get? t).isSome ↔ ∃ i, s.topicBySubscriptionId.get? i = some t := by
  have hb : (s.subscriptionsByTopic.get? t).isSome ↔ ∃ i v, s.find? i = some (t, v) :=
    Index.buckets_isSome_iff h.consistent
  rw [hb]
  exact exists_congr fun i => (topic_eq_some_iff h).symm

theorem mem_activeTopics_iff (h : s.WellFormed) {j : String} {t : Topic} :
    t ∈ s.activeTopics j ↔ IsTopicOf j t ∧ ∃ i, s.topicBySubscriptionId.get? i = some t := by
  rw [h.active_iff]
  refine and_congr_right fun _ => exists_congr fun i => ?_
  exact (topic_eq_some_iff h).symm

end Reading

/-! ## Updates that leave the maps alone -/

section Frame

/-- The two trackers have the same maps of registrations and the same client. -/
structure SameMaps (s s' : JobTracker) : Prop where
  subClient : s'.subClient = s.subClient
  subscriptionsByTopic : s'.subscriptionsByTopic = s.subscriptionsByTopic
  topicBySubscriptionId : s'.topicBySubscriptionId = s.topicBySubscriptionId
  activeSubscriptions : s'.activeSubscriptions = s.activeSubscriptions

theorem SameMaps.rfl : SameMaps s s := ⟨Eq.refl _, Eq.refl _, Eq.refl _, Eq.refl _⟩

variable {s' : JobTracker} (hm : SameMaps s s')
include hm

theorem SameMaps.index : s'.index = s.index := by
  simp [JobTracker.index, hm.subscriptionsByTopic, hm.topicBySubscriptionId]

theorem SameMaps.find? (i : SubId) : s'.find? i = s.find? i := by
  simp [JobTracker.find?, hm.index]

theorem SameMaps.activeTopics (j : String) : s'.activeTopics j = s.activeTopics j := by
  simp [JobTracker.activeTopics, hm.activeSubscriptions]

omit hm in
theorem WellFormed.congr (h : s.WellFormed) (hm : SameMaps s s') : s'.WellFormed := by
  refine ⟨?_, ?_, ?_, ?_, ?_, ?_⟩
  · rw [hm.subClient]; exact h.client
  · rw [hm.index]; exact h.consistent
  · intro i p hp
    rw [hm.subClient]
    exact h.fresh i p (by rwa [hm.find?] at hp)
  · intro i t info hf
    exact h.filed i t info (by rwa [hm.find?] at hf)
  · intro j t
    simp only [hm.activeTopics, hm.find?]
    exact h.active_iff j t
  · intro j
    rw [hm.activeTopics]
    exact h.active_nodup j

omit hm in
/-- Only the client changed, and it did not give back identifiers. -/
theorem WellFormed.withClient (h : s.WellFormed) {c : RedisSubClient ClientCallback}
    (hc : c.WellFormed) (hle : s.subClient.nextUuid ≤ c.nextUuid) :
    ({ s with subClient := c } : JobTracker).WellFormed :=
  ⟨hc, h.consistent, fun i p hp => lt_of_lt_of_le (h.fresh i p hp) hle, h.filed, h.active_iff,
    h.active_nodup⟩

end Frame

/-! ## Indexing -/

section Indexing

/-- The tracker after `_register_subscription_for_job`. -/
def indexed (info : SubscriptionInfo) (i : SubId) (s : JobTracker) : JobTracker :=
  { s with
    subscriptionsByTopic := s.subscriptionsByTopic.set info.topic
      (((s.subscriptionsByTopic.get? info.topic).getD ∅).set i info)
    topicBySubscriptionId := s.topicBySubscriptionId.set i info.topic
    activeSubscriptions :=
      s.activeSubscriptions.set info.jobId (addTopic info.topic (s.activeTopics info.jobId)) }

theorem exec_registerSubscriptionForJob {info : SubscriptionInfo} {i : SubId}
    (hi : info.callbackId = some i) :
    (registerSubscriptionForJob info).exec s = (.ok (), s.indexed info i) := by
  simp [registerSubscriptionForJob, hi, indexed]

theorem mem_addTopic {t t' : Topic} {ts : List Topic} : t' ∈ addTopic t ts ↔ t' = t ∨ t' ∈ ts := by
  unfold addTopic
  split_ifs with h
  · constructor
    · exact Or.inr
    · rintro (rfl | h')
      · exact h
      · exact h'
  · simp [or_comm]

theorem nodup_addTopic {t : Topic} {ts : List Topic} (h : ts.Nodup) : (addTopic t ts).Nodup := by
  unfold addTopic
  split_ifs with ht
  · exact h
  · refine List.Nodup.append h (by simp) ?_
    intro x hx hx'
    have hxt : x = t := by simpa using hx'
    exact ht (hxt ▸ hx)

theorem index_indexed (info : SubscriptionInfo) (i : SubId) :
    (s.indexed info i).index = s.index.insert info.topic i info := rfl

theorem activeTopics_indexed (info : SubscriptionInfo) (i : SubId) (j : String) :
    (s.indexed info i).activeTopics j =
      if j = info.jobId then addTopic info.topic (s.activeTopics info.jobId) else s.activeTopics j := by
  unfold indexed activeTopics
  rw [Dict.get?_set]
  split_ifs <;> rfl

theorem topic_indexed (info : SubscriptionInfo) (i k : SubId) :
    (s.indexed info i).topicBySubscriptionId.get? k =
      if k = i then some info.topic else s.topicBySubscriptionId.get? k := Dict.get?_set _ _ _ _

variable (h : s.WellFormed) {info : SubscriptionInfo} {i : ℕ} (hn : s.find? i = none)
include h hn

theorem find?_indexed (k : SubId) :
    (s.indexed info i).find? k = if k = i then some (info.topic, info) else s.find? k := by
  have ho : s.index.owner.get? i = none := (Index.find?_eq_none_iff h.consistent).mp hn
  unfold find?
  rw [index_indexed, Index.find?_insert h.consistent ho]

theorem WellFormed.indexed (hi : info.callbackId = some i) (ht : IsTopicOf info.jobId info.topic)
    (hlt : i < s.subClient.nextUuid) : (s.indexed info i).WellFormed := by
  have ho : s.index.owner.get? i = none := (Index.find?_eq_none_iff h.consistent).mp hn
  have hfind : ∀ k, (s.indexed info i).find? k = _ := find?_indexed h hn
  refine ⟨h.client, ?_, ?_, ?_, ?_, ?_⟩
  · rw [index_indexed]
    exact h.consistent.insert ho
  · intro k p hp
    rw [hfind] at hp
    split_ifs at hp with hk
    · exact hk ▸ hlt
    · exact h.fresh k p hp
  · intro k t info' hf
    rw [hfind] at hf
    split_ifs at hf with hk
    · obtain ⟨rfl, rfl⟩ := Prod.mk.inj (Option.some.inj hf)
      exact ⟨hk ▸ hi, rfl, ht⟩
    · exact h.filed k t info' hf
  · intro j t
    have hmem : t ∈ (s.indexed info i).activeTopics j ↔
        (j = info.jobId ∧ t = info.topic) ∨ t ∈ s.activeTopics j := by
      rw [activeTopics_indexed]
      split_ifs with hj
      · rw [mem_addTopic, hj]; simp
      · simp [hj]
    rw [hmem, h.active_iff]
    constructor
    · rintro (⟨rfl, rfl⟩ | ⟨hj, k, p, hp⟩)
      · exact ⟨ht, i, info, by rw [hfind, if_pos rfl]⟩
      · have hk : k ≠ i := fun hk => by rw [hk, hn] at hp; simp at hp
        exact ⟨hj, k, p, by rw [hfind, if_neg hk]; exact hp⟩
    · rintro ⟨hj, k, p, hp⟩
      rw [hfind] at hp
      split_ifs at hp with hk
      · obtain ⟨rfl, rfl⟩ := Prod.mk.inj (Option.some.inj hp)
        exact Or.inl ⟨hj.unique ht, rfl⟩
      · exact Or.inr ⟨hj, k, p, hp⟩
  · intro j
    rw [activeTopics_indexed]
    split_ifs
    · exact nodup_addTopic (h.active_nodup _)
    · exact h.active_nodup j

end Indexing

/-! ## Stamps -/

section Stamps

/-- Only clock readings in the records, and the executor's tasks, are different. -/
structure Stamped (s s' : JobTracker) : Prop where
  wellFormed : s'.WellFormed
  find? : ∀ i, (s'.find? i).map (fun p => (p.1, p.2.unstamped)) =
    (s.find? i).map (fun p => (p.1, p.2.unstamped))
  subClient : s'.subClient = s.subClient
  topicBySubscriptionId : s'.topicBySubscriptionId = s.topicBySubscriptionId
  activeSubscriptions : s'.activeSubscriptions = s.activeSubscriptions
  futureRegistry : s'.futureRegistry = s.futureRegistry
  globalCallbacks : s'.globalCallbacks = s.globalCallbacks
  futures : s'.futures = s.futures
  accepted : s'.accepted = s.accepted

theorem Stamped.refl (h : s.WellFormed) : Stamped s s :=
  ⟨h, fun _ => rfl, rfl, rfl, rfl, rfl, rfl, rfl, rfl⟩

theorem Stamped.trans {s' s'' : JobTracker} (h : Stamped s s') (h' : Stamped s' s'') :
    Stamped s s'' :=
  ⟨h'.wellFormed, fun i => (h'.find? i).trans (h.find? i), h'.subClient.trans h.subClient,
    h'.topicBySubscriptionId.trans h.topicBySubscriptionId,
    h'.activeSubscriptions.trans h.activeSubscriptions, h'.futureRegistry.trans h.futureRegistry,
    h'.globalCallbacks.trans h.globalCallbacks, h'.futures.trans h.futures,
    h'.accepted.trans h.accepted⟩

/-- Appending tasks. -/
theorem Stamped.tasks (h : s.WellFormed) (l : List Task) : Stamped s { s with tasks := l } :=
  ⟨h.congr ⟨rfl, rfl, rfl, rfl⟩, fun _ => rfl, rfl, rfl, rfl, rfl, rfl, rfl, rfl⟩

/-- The registrations that survive a stamp, seen from the state after it. -/
theorem Stamped.find?_some {s' : JobTracker} (h : Stamped s s') {i : SubId} {t : Topic}
    {info : SubscriptionInfo} (hf : s.find? i = some (t, info)) :
    ∃ info', s'.find? i = some (t, info') ∧ info'.unstamped = info.unstamped := by
  have hi := h.find? i
  rw [hf] at hi
  obtain ⟨⟨t', info'⟩, hf', he⟩ := Option.map_eq_some_iff.mp hi
  obtain ⟨rfl, he⟩ := Prod.mk.inj he
  exact ⟨info', hf', he⟩

/-- The same, seen from the state before. -/
theorem Stamped.find?_of_some {s' : JobTracker} (h : Stamped s s') {i : SubId} {t : Topic}
    {info' : SubscriptionInfo} (hf : s'.find? i = some (t, info')) :
    ∃ info, s.find? i = some (t, info) ∧ info.unstamped = info'.unstamped := by
  have hi := h.find? i
  rw [hf] at hi
  obtain ⟨⟨t', info⟩, hf', he⟩ := Option.map_eq_some_iff.mp hi.symm
  obtain ⟨rfl, he⟩ := Prod.mk.inj he
  exact ⟨info, hf', he⟩

/-- Writing stamps into the records of one topic. -/
theorem stamped_modify (h : s.WellFormed) (t : Topic) (g : SubId → SubscriptionInfo → SubscriptionInfo)
    (hg : ∀ i info, (g i info).unstamped = info.unstamped) :
    Stamped s { s with
      subscriptionsByTopic := s.subscriptionsByTopic.modify t fun b => b.mapValues g } := by
  have hix : ({ s with
      subscriptionsByTopic := s.subscriptionsByTopic.modify t fun b => b.mapValues g } :
        JobTracker).index = s.index.mapBucket t g := by
    unfold Index.mapBucket Dict.modify index
    dsimp only
    cases s.subscriptionsByTopic.get? t <;> rfl
  have hfind : ∀ i, ({ s with
      subscriptionsByTopic := s.subscriptionsByTopic.modify t fun b => b.mapValues g } :
        JobTracker).find? i = (s.find? i).map fun p => if p.1 = t then (p.1, g i p.2) else p := by
    intro i
    unfold find?
    rw [hix, Index.find?_mapBucket h.consistent]
  have hsome : ∀ i t', (∃ p, ({ s with
      subscriptionsByTopic := s.subscriptionsByTopic.modify t fun b => b.mapValues g } :
        JobTracker).find? i = some (t', p)) ↔ ∃ p, s.find? i = some (t', p) := by
    intro i t'
    simp only [hfind, Option.map_eq_some_iff]
    constructor
    · rintro ⟨p, q, hq, he⟩
      refine ⟨q.2, ?_⟩
      rw [hq]
      split_ifs at he
      · rw [← (Prod.mk.inj he).1]
      · rw [← (Prod.mk.inj he).1]
    · rintro ⟨p, hp⟩
      refine ⟨if t' = t then g i p else p, (t', p), hp, ?_⟩
      split_ifs <;> rfl
  refine ⟨⟨h.client, ?_, fun i p hp => ?_, fun i t' info hf => ?_, fun j t' => ?_, h.active_nodup⟩,
    fun i => ?_, rfl, rfl, rfl, rfl, rfl, rfl, rfl⟩
  · rw [hix]
    exact h.consistent.mapBucket t g
  · obtain ⟨q, hq⟩ := (hsome i p.1).mp ⟨p.2, hp⟩
    exact h.fresh i _ hq
  · rw [hfind] at hf
    obtain ⟨⟨t₀, info₀⟩, hq, he⟩ := Option.map_eq_some_iff.mp hf
    have hfiled := h.filed i t₀ info₀ hq
    split_ifs at he with ht
    · obtain ⟨rfl, rfl⟩ := Prod.mk.inj he
      obtain ⟨h1, h2, h3, -⟩ := SubscriptionInfo.eq_of_unstamped (hg i info₀)
      rw [h1, h2, h3]
      exact hfiled
    · obtain ⟨rfl, rfl⟩ := Prod.mk.inj he
      exact hfiled
  · refine (h.active_iff j t').trans (and_congr_right fun _ => exists_congr fun i => ?_)
    exact (hsome i t').symm
  · rw [hfind, Option.map_map]
    congr 1
    funext p
    dsimp only [Function.comp]
    split_ifs
    · rw [hg]
    · rfl

variable (h : s.WellFormed)
include h

theorem beginSchedulerCheck_ok (rt : Runtime) (j : String) :
    ∃ r s', (beginSchedulerCheck rt j).exec s = (.ok r, s') ∧ Stamped s s' ∧ s'.tasks = s.tasks ∧
      ∀ f, r = some f → s.futureRegistry.get? j = some f ∧ (s.futures f).done = false := by
  unfold beginSchedulerCheck
  simp only [Program.exec_bind, Program.exec_get]
  cases hr : s.futureRegistry.get? j with
  | none => exact ⟨none, s, rfl, Stamped.refl h, rfl, by simp⟩
  | some f =>
    by_cases hd : (s.futures f).done = true
    · simp only [hd, if_true]
      exact ⟨none, s, rfl, Stamped.refl h, rfl, by simp⟩
    · simp only [hd, Bool.false_eq_true, if_false, Program.exec_bind, Program.exec_modify]
      refine ⟨some f, _, rfl, stamped_modify h _ _ fun i info => ?_, rfl, ?_⟩
      · split_ifs <;> rfl
      · rintro f' hf
        obtain rfl := Option.some.inj hf
        exact ⟨rfl, by simpa using hd⟩

theorem heartbeatCallback_ok (rt : Runtime) (m : SlurmMessage) (sub : Subscription ClientCallback)
    (j slurm : String) :
    ∃ s', (heartbeatCallback rt m sub j slurm).exec s = (.ok (), s') ∧ Stamped s s' := by
  have h₁ := stamped_modify h sub.topic (fun i info =>
    if i = sub.id then { info with lastHeartbeat := some rt.time } else info)
    (fun i info => by split_ifs <;> rfl)
  exact ⟨_, rfl, h₁.trans (Stamped.tasks h₁.wellFormed _)⟩

end Stamps

@[simp] theorem exec_onClient {α : Type} (x : Program PyError (RedisSubClient ClientCallback) α) :
    (onClient x).exec s = ((x.exec s.subClient).1, { s with subClient := (x.exec s.subClient).2 }) := rfl

end JobTracker

end SlurmManager
