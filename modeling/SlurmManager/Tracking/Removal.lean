import SlurmManager.Tracking.TrackerInvariant

/-!
# Removal — the three ways in which `JobTracker` drops registrations

* `Cut` and `forM_dropTopic_*`: the loop of `remove_subscriptions_for_job`, turn by turn.  It runs
  through exactly when the connection accepts the UNSUBSCRIBE calls of the walk (`closing`).
* `Pruned`: the common effect of the removals.  `discardJob`, `removeId` and
  `removeSubscriptionByTopic` differ only in which registrations are gone.
-/

namespace SlurmManager

namespace JobTracker

variable {s : JobTracker}

/-! ## One topic of the removal loop -/

section Cut

/-- What a walk of `dropTopic` did: both sides lost every registration under a topic with `gone`. -/
structure Cut (s : JobTracker) (gone : Topic → Prop) (s' : JobTracker) : Prop where
  consistent : s'.index.Consistent
  find?_iff : ∀ i p, s'.find? i = some p ↔ s.find? i = some p ∧ ¬ gone p.1
  client : RedisSubClient.Removed s.subClient (fun _ t => gone t) s'.subClient
  rest : s' = { s with
    subClient := s'.subClient
    subscriptionsByTopic := s'.subscriptionsByTopic
    topicBySubscriptionId := s'.topicBySubscriptionId }

theorem Cut.trans {g g' : Topic → Prop} {s' s'' : JobTracker} (h : Cut s g s') (h' : Cut s' g' s'') :
    Cut s (fun t => g t ∨ g' t) s'' := by
  refine ⟨h'.consistent, fun i p => ?_, h.client.trans h'.client, ?_⟩
  · rw [h'.find?_iff, h.find?_iff, not_or, and_assoc]
  · have hr := h'.rest
    rw [h.rest] at hr
    exact hr

theorem Cut.congr {g g' : Topic → Prop} {s' : JobTracker} (h : Cut s g s')
    (hg : ∀ t, g t ↔ g' t) : Cut s g' s' := by
  have he : g = g' := funext fun t => propext (hg t)
  exact he ▸ h

theorem exec_dropTopic (t : Topic) :
    (dropTopic t).exec s =
      (((RedisSubClient.unsubscribeTopic t).exec s.subClient).1.map fun _ => (),
        { s with
          subscriptionsByTopic := s.subscriptionsByTopic.erase t
          topicBySubscriptionId :=
            s.topicBySubscriptionId.eraseAll ((s.subscriptionsByTopic.get? t).getD ∅).keys
          subClient := ((RedisSubClient.unsubscribeTopic t).exec s.subClient).2 }) := by
  simp only [dropTopic, Program.exec_bind, Program.exec_modify, onClient, Program.exec_focus]
  rcases (RedisSubClient.unsubscribeTopic t).exec s.subClient with ⟨r, c⟩
  cases r <;> rfl

variable (hc : s.index.Consistent)
include hc

theorem cut_of_client {t : Topic} {c : RedisSubClient ClientCallback}
    (hr : RedisSubClient.Removed s.subClient (fun _ t' => t' = t) c) :
    Cut s (fun t' => t' = t)
      { s with
        subscriptionsByTopic := s.subscriptionsByTopic.erase t
        topicBySubscriptionId :=
          s.topicBySubscriptionId.eraseAll ((s.subscriptionsByTopic.get? t).getD ∅).keys
        subClient := c } := by
  refine ⟨hc.eraseBucket t, fun i p => ?_, hr, rfl⟩
  show (s.index.eraseBucket t).find? i = some p ↔ s.index.find? i = some p ∧ ¬ p.1 = t
  rw [Index.find?_eraseBucket hc, Option.filter_eq_some_iff]
  simp

/-- A topic with callbacks in the client: one UNSUBSCRIBE call, and the turn ends as it does. -/
theorem dropTopic_registered (hcl : s.subClient.WellFormed) {t : Topic} (ht : s.subClient.Registered t) :
    ∃ s', (dropTopic t).exec s = (s.subClient.pubsub.outcome (.unsubscribe t), s') ∧
      Cut s (fun t' => t' = t) s' ∧
      s'.subClient.pubsub = s.subClient.pubsub.record (.unsubscribe t) := by
  obtain ⟨n, c', he, hr, hp⟩ := RedisSubClient.unsubscribeTopic_registered hcl ht
  refine ⟨_, exec_dropTopic t |>.trans ?_, cut_of_client hc hr, hp⟩
  rw [he]
  cases s.subClient.pubsub.outcome (.unsubscribe t) <;> rfl

/-- A topic unknown to the client: no call. -/
theorem dropTopic_unregistered (hcl : s.subClient.WellFormed) {t : Topic}
    (ht : ¬ s.subClient.Registered t) :
    ∃ s', (dropTopic t).exec s = (.ok (), s') ∧ Cut s (fun t' => t' = t) s' ∧
      s'.subClient = s.subClient := by
  have he := RedisSubClient.unsubscribeTopic_unregistered ht
  have hr : RedisSubClient.Removed s.subClient (fun _ t' => t' = t) s.subClient := by
    refine RedisSubClient.Removed.refl hcl fun i p hp hg => ht ?_
    exact (RedisSubClient.registered_iff hcl).mpr ⟨i, p.2, by rw [hp, ← hg]⟩
  refine ⟨_, exec_dropTopic t |>.trans ?_, cut_of_client hc hr, rfl⟩
  rw [he]
  rfl

omit hc in
/-- The UNSUBSCRIBE calls made by a walk over the topics: those that have callbacks in the client. -/
def closing (c : RedisSubClient ClientCallback) (ts : List Topic) : List Command :=
  (ts.filter fun t => (c.subscriptionsByTopic.get? t).isSome).map .unsubscribe

omit hc in
theorem closing_cons_registered {c : RedisSubClient ClientCallback} {t : Topic} (ht : c.Registered t)
    (ts : List Topic) : closing c (t :: ts) = .unsubscribe t :: closing c ts := by
  have hb : (c.subscriptionsByTopic.get? t).isSome = true := ht
  simp [closing, hb]

omit hc in
theorem closing_cons_unregistered {c : RedisSubClient ClientCallback} {t : Topic}
    (ht : ¬ c.Registered t) (ts : List Topic) : closing c (t :: ts) = closing c ts := by
  have hb : (c.subscriptionsByTopic.get? t).isSome = false := by simpa [RedisSubClient.Registered] using ht
  simp [closing, hb]

omit hc in
theorem Cut.closing (hcl : s.subClient.WellFormed) {t : Topic} {s' : JobTracker}
    (h : Cut s (fun t' => t' = t) s') {ts : List Topic} (ht : t ∉ ts) :
    closing s'.subClient ts = closing s.subClient ts := by
  unfold JobTracker.closing
  congr 1
  refine List.filter_congr fun t' ht' => ?_
  have hne : t' ≠ t := fun he => ht (he ▸ ht')
  have hiff := h.client.registered_iff hcl (t := t')
  rw [Bool.eq_iff_iff]
  exact hiff.trans (and_iff_left hne)

/-- How one turn ends, by whether its network call (if it makes one) is accepted. -/
theorem dropTopic_cases (hcl : s.subClient.WellFormed) {t : Topic} {ts : List Topic} (hnot : t ∉ ts) :
    (∃ s', (dropTopic t).exec s = (.ok (), s') ∧ Cut s (fun t' => t' = t) s' ∧
      (s.subClient.pubsub.Accepts (closing s.subClient (t :: ts)) ↔
        s'.subClient.pubsub.Accepts (closing s'.subClient ts))) ∨
    (∃ e s', (dropTopic t).exec s = (.error e, s') ∧ Cut s (fun t' => t' = t) s' ∧
      ¬ s.subClient.pubsub.Accepts (closing s.subClient (t :: ts))) := by
  by_cases ht : s.subClient.Registered t
  · obtain ⟨s', he, hcut, hp⟩ := dropTopic_registered hc hcl ht
    rw [closing_cons_registered ht, Pubsub.accepts_cons]
    cases hs : s.subClient.pubsub.outcome (.unsubscribe t) with
    | ok u =>
      have hok := Pubsub.outcome_eq_ok_iff.mp hs
      refine Or.inl ⟨s', by rw [he, hs], hcut, ?_⟩
      rw [hcut.closing hcl hnot, hp]
      exact and_iff_right hok
    | error e =>
      refine Or.inr ⟨e, s', by rw [he, hs], hcut, fun ha => ?_⟩
      rw [Pubsub.outcome_eq_ok_iff.mpr ha.1] at hs
      cases hs
  · obtain ⟨s', he, hcut, hp⟩ := dropTopic_unregistered hc hcl ht
    refine Or.inl ⟨s', he, hcut, ?_⟩
    rw [closing_cons_unregistered ht, hcut.closing hcl hnot, hp]

/-- **The removal loop runs through when its network calls do.** -/
theorem forM_dropTopic_ok (hcl : s.subClient.WellFormed) {ts : List Topic} (hnd : ts.Nodup)
    (ha : s.subClient.pubsub.Accepts (closing s.subClient ts)) :
    ∃ s', (forM ts dropTopic).exec s = (.ok (), s') ∧ Cut s (fun t => t ∈ ts) s' := by
  induction ts generalizing s with
  | nil =>
    refine ⟨s, rfl, hc, fun i p => by simp, ?_, rfl⟩
    exact RedisSubClient.Removed.refl hcl fun i p _ hg => by simp at hg
  | cons t ts ih =>
    obtain ⟨hnot, hnd⟩ := List.nodup_cons.mp hnd
    rw [List.forM_cons]
    rcases dropTopic_cases hc hcl hnot with ⟨s', he, hcut, hiff⟩ | ⟨e, s', he, hcut, hna⟩
    · obtain ⟨s'', he', hcut'⟩ := ih hcut.consistent hcut.client.wellFormed hnd (hiff.mp ha)
      refine ⟨s'', ?_, (hcut.trans hcut').congr fun t' => by simp⟩
      rw [Program.exec_bind_ok he]
      exact he'
    · exact absurd ha hna

/-- **The first network call that raises ends the removal loop.** -/
theorem forM_dropTopic_raised (hcl : s.subClient.WellFormed) {ts : List Topic} (hnd : ts.Nodup)
    (ha : ¬ s.subClient.pubsub.Accepts (closing s.subClient ts)) :
    ∃ e s', (forM ts dropTopic).exec s = (.error e, s') ∧ s'.futureRegistry = s.futureRegistry ∧
      s'.accepted = s.accepted := by
  induction ts generalizing s with
  | nil => exact absurd (Pubsub.accepts_nil _) ha
  | cons t ts ih =>
    obtain ⟨hnot, hnd⟩ := List.nodup_cons.mp hnd
    rw [List.forM_cons]
    rcases dropTopic_cases hc hcl hnot with ⟨s', he, hcut, hiff⟩ | ⟨e, s', he, hcut, hna⟩
    · have hreg : s'.futureRegistry = s.futureRegistry := by rw [hcut.rest]
      have hacc : s'.accepted = s.accepted := by rw [hcut.rest]
      obtain ⟨e, s'', he', hreg', hacc'⟩ :=
        ih hcut.consistent hcut.client.wellFormed hnd fun h => ha (hiff.mpr h)
      refine ⟨e, s'', ?_, hreg'.trans hreg, hacc'.trans hacc⟩
      rw [Program.exec_bind_ok he]
      exact he'
    · exact ⟨e, s', Program.exec_bind_error he, by rw [hcut.rest], by rw [hcut.rest]⟩

end Cut

/-! ## Removals -/

section Removals

/-- What a removal did: the tracker lost the registrations with `gone`, the client those with `cut`. -/
structure Pruned (s : JobTracker) (gone cut : SubId → Topic → Prop) (s' : JobTracker) : Prop where
  wellFormed : s'.WellFormed
  find?_iff : ∀ i p, s'.find? i = some p ↔ s.find? i = some p ∧ ¬ gone i p.1
  client : RedisSubClient.Removed s.subClient cut s'.subClient
  active : ∀ j, (s'.activeSubscriptions.get? j).isSome → (s.activeSubscriptions.get? j).isSome
  futures : s'.futures = s.futures
  tasks : s'.tasks = s.tasks
  accepted : s'.accepted = s.accepted

variable {gone cut : SubId → Topic → Prop} {s' : JobTracker}

theorem Pruned.topic_iff (h : s.WellFormed) (hp : Pruned s gone cut s') {i : SubId} {t : Topic} :
    s'.topicBySubscriptionId.get? i = some t ↔
      s.topicBySubscriptionId.get? i = some t ∧ ¬ gone i t := by
  rw [topic_eq_some_iff hp.wellFormed, topic_eq_some_iff h]
  constructor
  · rintro ⟨info, hf⟩
    obtain ⟨hf, hg⟩ := (hp.find?_iff i _).mp hf
    exact ⟨⟨info, hf⟩, hg⟩
  · rintro ⟨⟨info, hf⟩, hg⟩
    exact ⟨info, (hp.find?_iff i _).mpr ⟨hf, hg⟩⟩

theorem Pruned.nextUuid (hp : Pruned s gone cut s') : s'.subClient.nextUuid = s.subClient.nextUuid :=
  hp.client.nextUuid

variable (h : s.WellFormed)
include h

/-- The part of `WellFormed` that a removal keeps in any case. -/
theorem wellFormed_of_removed (hc : s'.index.Consistent) (hcl : s'.subClient.WellFormed)
    (hu : s'.subClient.nextUuid = s.subClient.nextUuid)
    (hf : ∀ i p, s'.find? i = some p → s.find? i = some p)
    (ha : ∀ j t, t ∈ s'.activeTopics j ↔ IsTopicOf j t ∧ ∃ i p, s'.find? i = some (t, p))
    (hn : ∀ j, (s'.activeTopics j).Nodup) : s'.WellFormed := by
  refine ⟨hcl, hc, fun i p hp => ?_, fun i t info hp => h.filed i t info (hf i _ hp), ha, hn⟩
  rw [hu]
  exact h.fresh i p (hf i p hp)

omit h in
theorem exec_discardJob_ok (rt : Runtime) (j : String)
    (he : (forM (rt.setOrder (s.activeTopics j)) dropTopic).exec
      { s with activeSubscriptions := s.activeSubscriptions.erase j } = (.ok (), s')) :
    (discardJob rt j).exec s = (.ok (), { s' with futureRegistry := s'.futureRegistry.erase j }) := by
  simp only [discardJob, Program.exec_bind, Program.exec_get, Program.exec_modify, he]

omit h in
theorem exec_discardJob_error (rt : Runtime) (j : String) {e : PyError}
    (he : (forM (rt.setOrder (s.activeTopics j)) dropTopic).exec
      { s with activeSubscriptions := s.activeSubscriptions.erase j } = (.error e, s')) :
    (discardJob rt j).exec s = (.error e, s') := by
  simp only [discardJob, Program.exec_bind, Program.exec_get, Program.exec_modify, he]

/-- **The tail of `remove_subscriptions_for_job`, when its network calls are accepted.** -/
theorem discardJob_ok (rt : Runtime) (j : String)
    (ha : s.subClient.pubsub.Accepts (closing s.subClient (rt.setOrder (s.activeTopics j)))) :
    ∃ s', (discardJob rt j).exec s = (.ok (), s') ∧
      Pruned s (fun _ t => IsTopicOf j t) (fun _ t => t ∈ s.activeTopics j) s' ∧
      s'.futureRegistry = s.futureRegistry.erase j ∧
      s'.activeSubscriptions = s.activeSubscriptions.erase j ∧
      s'.globalCallbacks = s.globalCallbacks := by
  have hnd : (rt.setOrder (s.activeTopics j)).Nodup :=
    (rt.setOrder_perm _).nodup_iff.mpr (h.active_nodup j)
  obtain ⟨s₁, he, hcut⟩ := forM_dropTopic_ok
    (s := { s with activeSubscriptions := s.activeSubscriptions.erase j }) h.consistent h.client hnd ha
  refine ⟨_, exec_discardJob_ok rt j he, ?_⟩
  have hrest := hcut.rest
  have hact : s₁.activeSubscriptions = s.activeSubscriptions.erase j := by rw [hrest]
  have hfind : ∀ i p, s₁.find? i = some p ↔ s.find? i = some p ∧ ¬ IsTopicOf j p.1 := fun i p => by
    rw [hcut.find?_iff]
    refine and_congr_right fun hp => not_congr ?_
    have hp' : s.find? i = some p := hp
    rw [rt.mem_setOrder, h.active_iff]
    exact and_iff_left ⟨i, p.2, hp'⟩
  have htop : ∀ j', s₁.activeTopics j' = if j' = j then [] else s.activeTopics j' := fun j' => by
    simp only [activeTopics, hact, Dict.get?_erase]
    split_ifs <;> rfl
  refine ⟨⟨?_, hfind, ?_, ?_, ?_, ?_, ?_⟩, ?_, hact, ?_⟩
  · refine wellFormed_of_removed h hcut.consistent hcut.client.wellFormed hcut.client.nextUuid
      (fun i p hp => ((hfind i p).mp hp).1) (fun j' t => ?_) (fun j' => ?_)
    · show t ∈ s₁.activeTopics j' ↔ IsTopicOf j' t ∧ ∃ i p, s₁.find? i = some (t, p)
      simp only [htop, hfind]
      split_ifs with hj
      · subst hj
        constructor
        · intro hm
          simp at hm
        · rintro ⟨ht, i, p, -, hno⟩
          exact absurd ht hno
      · rw [h.active_iff]
        refine and_congr_right fun ht => exists_congr fun i => exists_congr fun p => ?_
        exact (and_iff_left fun hj' => hj (ht.unique hj')).symm
    · show (s₁.activeTopics j').Nodup
      rw [htop]
      split_ifs
      · exact List.nodup_nil
      · exact h.active_nodup j'
  · exact hcut.client.congr fun i p _ => rt.mem_setOrder
  · intro j' hj'
    have : (s.activeSubscriptions.erase j).get? j' ≠ none := by
      rw [← hact]
      exact Option.isSome_iff_ne_none.mp hj'
    rw [Dict.get?_erase] at this
    split_ifs at this
    · exact absurd rfl this
    · exact Option.isSome_iff_ne_none.mpr this
  · show s₁.futures = s.futures
    rw [hrest]
  · show s₁.tasks = s.tasks
    rw [hrest]
  · show s₁.accepted = s.accepted
    rw [hrest]
  · show s₁.futureRegistry.erase j = s.futureRegistry.erase j
    rw [hrest]
  · show s₁.globalCallbacks = s.globalCallbacks
    rw [hrest]

/-- The registry keeps the job when a network call of the cleanup raises. -/
theorem discardJob_raised (rt : Runtime) (j : String)
    (ha : ¬ s.subClient.pubsub.Accepts (closing s.subClient (rt.setOrder (s.activeTopics j)))) :
    ∃ e s', (discardJob rt j).exec s = (.error e, s') ∧ s'.futureRegistry = s.futureRegistry ∧
      s'.accepted = s.accepted := by
  have hnd : (rt.setOrder (s.activeTopics j)).Nodup :=
    (rt.setOrder_perm _).nodup_iff.mpr (h.active_nodup j)
  obtain ⟨e, s', he, hreg, hacc⟩ := forM_dropTopic_raised
    (s := { s with activeSubscriptions := s.activeSubscriptions.erase j }) h.consistent h.client hnd ha
  exact ⟨e, s', exec_discardJob_error rt j he, hreg, hacc⟩

omit h in
theorem accepts_closing {c : RedisSubClient ClientCallback} (hu : c.pubsub.UnsubscribeOk)
    (ts : List Topic) : c.pubsub.Accepts (closing c ts) := by
  refine hu.accepts fun cmd hc => ?_
  obtain ⟨t, -, rfl⟩ := List.mem_map.mp hc
  exact ⟨t, rfl⟩

/-! ### `remove_subscription_by_id` -/

omit h in
theorem exec_removeId_global {i : SubId} {cb : RegisteredCallback}
    (hg : s.globalCallbacks.get? i = some cb) :
    (removeId i).exec s = (.ok (), { s with globalCallbacks := s.globalCallbacks.erase i }) := by
  simp [removeId, Program.exec_bind, hg]

omit h in
theorem exec_removeId_unknown {i : SubId} (hg : s.globalCallbacks.get? i = none)
    (ht : s.topicBySubscriptionId.get? i = none) : (removeId i).exec s = (.ok (), s) := by
  simp [removeId, Program.exec_bind, hg, ht]

omit h in
/-- The last record of a topic takes the topic with it; another one leaves it. -/
theorem exec_removeId_known {i : SubId} {t : Topic} {b : Dict SubId SubscriptionInfo}
    {info : SubscriptionInfo} {r : Bool} {c : RedisSubClient ClientCallback}
    (hg : s.globalCallbacks.get? i = none) (ht : s.topicBySubscriptionId.get? i = some t)
    (hb : s.subscriptionsByTopic.get? t = some b) (hi : b.get? i = some info)
    (hc : (RedisSubClient.unsubscribe i).exec s.subClient = (.ok r, c)) :
    (removeId i).exec s = (.ok (),
      if (b.erase i).isEmpty = false then
        { s with
          topicBySubscriptionId := s.topicBySubscriptionId.erase i
          subscriptionsByTopic := s.subscriptionsByTopic.set t (b.erase i)
          subClient := c }
      else
        { s with
          topicBySubscriptionId := s.topicBySubscriptionId.erase i
          subscriptionsByTopic := (s.subscriptionsByTopic.set t (b.erase i)).erase t
          subClient := c
          activeSubscriptions := s.activeSubscriptions.modify info.jobId (discardTopic t) }) := by
  have hm : s.subscriptionsByTopic.modify t (Dict.erase · i) =
      s.subscriptionsByTopic.set t (b.erase i) := by simp [Dict.modify, hb]
  simp only [removeId, Program.exec_bind, Program.exec_get, hg, ht, Program.exec_modify, onClient,
    Program.exec_focus, hc, hb, Option.getD_some, hm, hi]
  split_ifs with he <;> rfl

omit h in
theorem activeTopics_modify (d : Dict String (List Topic)) (j j' : String) (t : Topic) :
    ((d.modify j (discardTopic t)).get? j').getD [] =
      if j' = j then discardTopic t ((d.get? j').getD []) else (d.get? j').getD [] := by
  rw [Dict.get?_modify]
  split_ifs with hj
  · subst hj
    cases d.get? j' <;> rfl
  · rfl

theorem removeId_ok (hu : s.subClient.pubsub.UnsubscribeOk) (i : SubId) :
    ∃ s', (removeId i).exec s = (.ok (), s') ∧
      Pruned s (fun k _ => k = i ∧ s.globalCallbacks.get? i = none)
        (fun k _ => k = i ∧ s.globalCallbacks.get? i = none ∧ s.find? i ≠ none) s' ∧
      s'.futureRegistry = s.futureRegistry ∧ s'.globalCallbacks = s.globalCallbacks.erase i := by
  have hrefl : ∀ {gone cut : SubId → Topic → Prop} {s' : JobTracker}, SameMaps s s' →
      s'.futures = s.futures → s'.tasks = s.tasks → s'.accepted = s.accepted →
      (∀ k p, s.find? k = some p → ¬ gone k p.1) → (∀ k p, ¬ cut k p) → Pruned s gone cut s' := by
    intro gone cut s' hm hfu hta hac hg hcut
    refine ⟨h.congr hm, fun k p => ?_, ?_, fun j hj => ?_, hfu, hta, hac⟩
    · rw [hm.find?]
      exact ⟨fun hp => ⟨hp, hg k p hp⟩, fun hp => hp.1⟩
    · rw [hm.subClient]
      exact RedisSubClient.Removed.refl h.client fun k p _ => hcut k p.1
    · rwa [hm.activeSubscriptions] at hj
  cases hg : s.globalCallbacks.get? i with
  | some cb =>
    exact ⟨_, exec_removeId_global hg, hrefl ⟨rfl, rfl, rfl, rfl⟩ rfl rfl rfl (by simp) (by simp),
      rfl, rfl⟩
  | none =>
    cases ht : s.topicBySubscriptionId.get? i with
    | none =>
      have hn : s.find? i = none := (topic_eq_none_iff h).mp ht
      refine ⟨_, exec_removeId_unknown hg ht, hrefl SameMaps.rfl rfl rfl rfl ?_ (by simp [hn]), rfl,
        (Dict.erase_of_get?_eq_none hg).symm⟩
      rintro k p hp ⟨rfl, -⟩
      rw [hn] at hp
      simp at hp
    | some t =>
      obtain ⟨info, hf⟩ := (topic_eq_some_iff h).mp ht
      have hbi : (s.index.bucket t).get? i = some info := (Index.find?_eq_some_iff h.consistent).mp hf
      obtain ⟨b, hb⟩ : ∃ b, s.subscriptionsByTopic.get? t = some b := by
        cases hb : s.subscriptionsByTopic.get? t with
        | none => simp [Index.bucket, index, hb] at hbi
        | some b => exact ⟨b, rfl⟩
      have hbk : s.index.bucket t = b := by simp [Index.bucket, index, hb]
      rw [hbk] at hbi
      obtain ⟨r, c, hc, hrem, hok⟩ := RedisSubClient.unsubscribe_spec h.client i
      obtain ⟨r, rfl⟩ := hok hu
      refine ⟨_, exec_removeId_known hg ht hb hbi hc, ?_⟩
      have hjob : IsTopicOf info.jobId t := (h.filed i t info hf).2.2
      have hce := h.consistent.eraseId i
      have hfe : ∀ k p, (s.index.eraseId i).find? k = some p ↔ s.find? k = some p ∧ ¬ k = i := by
        intro k p
        rw [Index.find?_eraseId h.consistent]
        unfold find?
        split_ifs with hk <;> simp [hk]
      have hmem : (b.erase i).isEmpty = false ↔ ∃ k p, s.find? k = some (t, p) ∧ ¬ k = i := by
        rw [Dict.isEmpty_eq_false_iff]
        refine exists_congr fun k => exists_congr fun p => ?_
        have hk : s.find? k = some (t, p) ↔ b.get? k = some p := by
          rw [← hbk]
          exact Index.find?_eq_some_iff h.consistent
        rw [hk, Dict.get?_erase]
        split_ifs with hki <;> simp [hki]
      have ho : s.index.owner.get? i = some t := ht
      have hcut : RedisSubClient.Removed s.subClient
          (fun k _ => k = i ∧ (none : Option RegisteredCallback) = none ∧ s.find? i ≠ none) c :=
        hrem.congr fun k p _ => by simp [hf]
      split_ifs with he
      · -- another record keeps the topic
        have hix : s.index.eraseId i =
            ⟨s.subscriptionsByTopic.set t (b.erase i), s.topicBySubscriptionId.erase i⟩ := by
          simp [Index.eraseId, ho, hbk, he]; exact ⟨rfl, rfl⟩
        rw [hix] at hce hfe
        refine ⟨⟨?_, fun k p => (hfe k p).trans (by simp), hcut, fun j hj => hj, rfl, rfl, rfl⟩, rfl,
          (Dict.erase_of_get?_eq_none hg).symm⟩
        refine wellFormed_of_removed h hce hrem.wellFormed hrem.nextUuid
          (fun k p hp => ((hfe k p).mp hp).1) (fun j t' => ?_) h.active_nodup
        refine (h.active_iff j t').trans (and_congr_right fun _ => ?_)
        constructor
        · rintro ⟨k, p, hp⟩
          by_cases hk : k = i
          · have htt : t' = t := by
              rw [hk, hf] at hp
              exact (Prod.mk.inj (Option.some.inj hp)).1.symm
            obtain ⟨k', p', hp'⟩ := hmem.mp he
            exact ⟨k', p', (hfe k' _).mpr (htt ▸ hp')⟩
          · exact ⟨k, p, (hfe k _).mpr ⟨hp, hk⟩⟩
        · rintro ⟨k, p, hp⟩
          exact ⟨k, p, ((hfe k _).mp hp).1⟩
      · -- the topic goes, in the active set too
        have he' : (b.erase i).isEmpty = true := by simpa using he
        have hix : s.index.eraseId i =
            ⟨(s.subscriptionsByTopic.set t (b.erase i)).erase t, s.topicBySubscriptionId.erase i⟩ := by
          simp [Index.eraseId, ho, hbk, he', Dict.erase_set_self]; exact ⟨rfl, rfl⟩
        rw [hix] at hce hfe
        refine ⟨⟨?_, fun k p => (hfe k p).trans (by simp), hcut, fun j hj => ?_, rfl, rfl, rfl⟩, rfl,
          (Dict.erase_of_get?_eq_none hg).symm⟩
        · refine wellFormed_of_removed h hce hrem.wellFormed hrem.nextUuid
            (fun k p hp => ((hfe k p).mp hp).1) (fun j t' => ?_) (fun j => ?_)
          · refine Iff.trans (b := t' ∈ s.activeTopics j ∧ t' ≠ t) ?_ ?_
            · show t' ∈ ((s.activeSubscriptions.modify info.jobId (discardTopic t)).get? j).getD [] ↔ _
              rw [activeTopics_modify]
              split_ifs with hj
              · simp [discardTopic, activeTopics]
              · refine (and_iff_left_of_imp fun hm => ?_).symm
                rintro rfl
                exact hj (((h.active_iff j t').mp hm).1.unique hjob)
            · rw [h.active_iff, and_assoc]
              refine and_congr_right fun _ => ?_
              constructor
              · rintro ⟨⟨k, p, hp⟩, hne⟩
                refine ⟨k, p, (hfe k _).mpr ⟨hp, fun hk => hne ?_⟩⟩
                rw [hk, hf] at hp
                exact (Prod.mk.inj (Option.some.inj hp)).1.symm
              · rintro ⟨k, p, hp⟩
                obtain ⟨hp, hk⟩ := (hfe k _).mp hp
                exact ⟨⟨k, p, hp⟩, fun htt => he (hmem.mpr ⟨k, p, htt ▸ hp, hk⟩)⟩
          · show (((s.activeSubscriptions.modify info.jobId (discardTopic t)).get? j).getD []).Nodup
            rw [activeTopics_modify]
            split_ifs
            · exact (h.active_nodup j).filter _
            · exact h.active_nodup j
        · have hj' : ((s.activeSubscriptions.modify info.jobId (discardTopic t)).get? j).isSome := hj
          rw [Dict.get?_modify] at hj'
          split_ifs at hj' with hji
          · rw [hji]
            simpa using hj'
          · exact hj'

/-! ### `remove_subscription_by_topic` -/

omit h in
/-- The walk over the popped records: all of one job, so the walk edits one active set. -/
theorem foldl_unlist (t : Topic) (j : String) (l : List (SubId × SubscriptionInfo))
    (hl : ∀ e ∈ l, e.2.jobId = j) (s : JobTracker) :
    let s' := l.foldl (fun s e =>
      { s with
        topicBySubscriptionId := s.topicBySubscriptionId.erase e.1
        activeSubscriptions :=
          s.activeSubscriptions.set e.2.jobId (discardTopic t (s.activeTopics e.2.jobId)) }) s
    s' = { s with
        topicBySubscriptionId := s.topicBySubscriptionId.eraseAll (l.map Prod.fst)
        activeSubscriptions := s'.activeSubscriptions } ∧
      ∀ j', s'.activeSubscriptions.get? j' =
        if j' = j ∧ l ≠ [] then some (discardTopic t (s.activeTopics j))
        else s.activeSubscriptions.get? j' := by
  induction l generalizing s with
  | nil => exact ⟨rfl, fun j' => by simp⟩
  | cons e l ih =>
    have hej : e.2.jobId = j := hl e (by simp)
    obtain ⟨hrest, hact⟩ := ih (fun e' he' => hl e' (by simp [he'])) { s with
      topicBySubscriptionId := s.topicBySubscriptionId.erase e.1
      activeSubscriptions :=
        s.activeSubscriptions.set e.2.jobId (discardTopic t (s.activeTopics e.2.jobId)) }
    rw [List.foldl_cons]
    refine ⟨hrest, fun j' => ?_⟩
    rw [hact, hej]
    by_cases hj : j' = j
    · subst hj
      have hidem : discardTopic t (discardTopic t (s.activeTopics j')) =
          discardTopic t (s.activeTopics j') := by simp [discardTopic, List.filter_filter]
      simp only [activeTopics, Dict.get?_set_self, Option.getD_some] at hidem ⊢
      simp [hidem]
    · simp [hj, Dict.get?_set_ne _ _ hj]

theorem removeSubscriptionByTopic_ok (hu : s.subClient.pubsub.UnsubscribeOk) (t : Topic) :
    ∃ s', (removeSubscriptionByTopic t).exec s = (.ok (), s') ∧
      Pruned s (fun _ t' => t' = t) (fun _ t' => t' = t) s' ∧
      s'.futureRegistry = s.futureRegistry ∧ s'.globalCallbacks = s.globalCallbacks := by
  obtain ⟨r, c, hc, hrem, hok⟩ := RedisSubClient.unsubscribeTopic_spec h.client t
  obtain ⟨r, rfl⟩ := hok hu
  -- the records of a topic belong to one job
  obtain ⟨j, hj⟩ : ∃ j, ∀ e ∈ (s.index.bucket t).entries, e.2.jobId = j ∧ IsTopicOf j t := by
    cases hb : (s.index.bucket t).entries with
    | nil => exact ⟨"", by simp⟩
    | cons e₀ l =>
      have hfind : ∀ e ∈ e₀ :: l, s.find? e.1 = some (t, e.2) := fun e he =>
        (Index.find?_eq_some_iff h.consistent).mpr (Dict.mem_entries_iff.mp (hb ▸ he))
      refine ⟨e₀.2.jobId, fun e he => ?_⟩
      have h₀ := (h.filed _ _ _ (hfind e₀ (by simp))).2.2
      exact ⟨(jobId_eq_iff h (hfind e he)).mpr h₀, h₀⟩
  obtain ⟨hrest, hact⟩ := foldl_unlist t j (s.index.bucket t).entries (fun e he => (hj e he).1)
    { s with subscriptionsByTopic := s.subscriptionsByTopic.erase t }
  have hlisted : ∀ j', j' = j ∧ (s.index.bucket t).entries ≠ [] → t ∈ s.activeTopics j' := by
    rintro j' ⟨rfl, hne⟩
    obtain ⟨e, l, hel⟩ := List.exists_cons_of_ne_nil hne
    have he : e ∈ (s.index.bucket t).entries := by simp [hel]
    refine (h.active_iff j' t).mpr ⟨(hj e he).2, e.1, e.2, ?_⟩
    exact (Index.find?_eq_some_iff h.consistent).mpr (Dict.mem_entries_iff.mp he)
  generalize hs₁ : (s.index.bucket t).entries.foldl _ _ = s₁ at hrest hact
  have hexec : (removeSubscriptionByTopic t).exec s = (.ok (), { s₁ with subClient := c }) := by
    have hcl : s₁.subClient = s.subClient := by rw [hrest]
    have hbk : (s.subscriptionsByTopic.get? t).getD ∅ = s.index.bucket t := rfl
    simp only [removeSubscriptionByTopic, Program.exec_bind, Program.exec_get, Program.exec_modify, onClient,
      Program.exec_focus, hbk, hs₁, hcl, hc]
    rfl
  have hfe : ∀ i p, (s.index.eraseBucket t).find? i = some p ↔ s.find? i = some p ∧ ¬ p.1 = t := by
    intro i p
    rw [Index.find?_eraseBucket h.consistent, Option.filter_eq_some_iff]
    simp [find?]
  have hix : ({ s₁ with subClient := c } : JobTracker).index = s.index.eraseBucket t := by
    show Index.mk s₁.subscriptionsByTopic s₁.topicBySubscriptionId = _
    rw [hrest]
    rfl
  have hfind : ∀ i p, ({ s₁ with subClient := c } : JobTracker).find? i = some p ↔
      s.find? i = some p ∧ ¬ p.1 = t := by
    intro i p
    unfold find?
    rw [hix]
    exact hfe i p
  have hmem : ∀ j' t', t' ∈ s₁.activeTopics j' ↔ t' ∈ s.activeTopics j' ∧ t' ≠ t := by
    intro j' t'
    unfold activeTopics
    rw [hact]
    split_ifs with hjl
    · rw [hjl.1]
      simp [discardTopic, activeTopics]
    · refine (and_iff_left_of_imp fun hm => ?_).symm
      rintro rfl
      have hm : t' ∈ s.activeTopics j' := hm
      obtain ⟨hjt, i, p, hp⟩ := (h.active_iff j' t').mp hm
      have he : (i, p) ∈ (s.index.bucket t').entries :=
        Dict.mem_entries_iff.mpr ((Index.find?_eq_some_iff h.consistent).mp hp)
      exact hjl ⟨hjt.unique (hj _ he).2, List.ne_nil_of_mem he⟩
  refine ⟨_, hexec, ⟨?_, hfind, hrem, fun j' hj' => ?_, ?_, ?_, ?_⟩, ?_, ?_⟩
  · refine wellFormed_of_removed h (by rw [hix]; exact h.consistent.eraseBucket t) hrem.wellFormed
      hrem.nextUuid (fun i p hp => ((hfind i p).mp hp).1) (fun j' t' => ?_) (fun j' => ?_)
    · refine (hmem j' t').trans ?_
      rw [h.active_iff, and_assoc]
      simp only [hfind]
      refine and_congr_right fun _ => ?_
      rw [← exists_and_right]
      exact exists_congr fun i => exists_and_right.symm
    · show (s₁.activeTopics j').Nodup
      unfold activeTopics
      rw [hact]
      split_ifs
      · exact (h.active_nodup j).filter _
      · exact h.active_nodup j'
  · have hj' : (s₁.activeSubscriptions.get? j').isSome := hj'
    rw [hact] at hj'
    split_ifs at hj' with hjl
    · cases hn : s.activeSubscriptions.get? j' with
      | some ts => rfl
      | none =>
        have := hlisted j' hjl
        simp [activeTopics, hn] at this
    · exact hj'
  · show s₁.futures = s.futures
    rw [hrest]
  · show s₁.tasks = s.tasks
    rw [hrest]
  · show s₁.accepted = s.accepted
    rw [hrest]
  · show s₁.futureRegistry = s.futureRegistry
    rw [hrest]
  · show s₁.globalCallbacks = s.globalCallbacks
    rw [hrest]

end Removals

end JobTracker

end SlurmManager
