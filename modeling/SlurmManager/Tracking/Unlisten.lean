import SlurmManager.Tracking.Homes

/-!
# Unlisten — what `remove_subscription_by_id` leaves depends on the set of ids

The calls that UNSUBSCRIBE do not raise; nothing else is assumed of the connection.

* `Dropped`, `Without`: the client, and the tracker with its client, without the ids of a set.  A topic is
  left by its last id (`Index.Emptied`), in the tracker and in the client by what each has there.
* `without_removeId`, `Without.trans`: one id, and one set after the other.
* `unlisten_by_set`: the result of a list of ids, and that of any calls with the same ids.
-/

namespace SlurmManager

open Program

/-- From now on no UNSUBSCRIBE raises. -/
def Pubsub.Willing (p : Pubsub) : Prop := ∀ n, p.calls ≤ n → ∀ t, p.failure n (.unsubscribe t) = none

/-! ## The client -/

namespace RedisSubClient

variable {χ : Type} {c c' c'' : RedisSubClient χ} {I J : SubId → Prop}

/-- The id is registered under the topic. -/
def Under (c : RedisSubClient χ) (i : SubId) (t : Topic) : Prop := c.topicBySubscriptionId.get? i = some t

/-- The client without the ids of `I`: a topic that loses its last id loses its ready event and its channel. -/
structure Dropped (I : SubId → Prop) (c c' : RedisSubClient χ) : Prop where
  wellFormed : c'.WellFormed
  find?_iff : ∀ i p, c'.find? i = some p ↔ c.find? i = some p ∧ ¬ I i
  ready_iff : ∀ t e, c'.subscriptionReady.get? t = some e ↔
    c.subscriptionReady.get? t = some e ∧ ¬ Index.Emptied c.Under I t
  open_iff : ∀ t, isOpen c'.pubsub.sent t = true ↔ isOpen c.pubsub.sent t = true ∧ ¬ Index.Emptied c.Under I t
  events : c'.events = c.events
  nextUuid : c'.nextUuid = c.nextUuid
  willing : c.pubsub.Willing → c'.pubsub.Willing

theorem Dropped.refl (h : c.WellFormed) (hI : ∀ i t, c.Under i t → ¬ I i) : Dropped I c c := by
  have hne : ∀ t, ¬ Index.Emptied c.Under I t := fun t => Index.not_emptied fun i hi => hI i t hi
  refine ⟨h, fun i p => ⟨fun hp => ⟨hp, ?_⟩, And.left⟩, fun t e => ?_, fun t => ?_, rfl, rfl, id⟩
  · exact hI i p.1 ((topic_eq_some_iff h).mpr ⟨p.2, hp⟩)
  · simp [hne t]
  · simp [hne t]

/-- The ids left in the client. -/
theorem Dropped.under_iff (h : c.WellFormed) (hd : Dropped I c c') (i : SubId) (t : Topic) :
    c'.Under i t ↔ c.Under i t ∧ ¬ I i := by
  unfold Under
  rw [topic_eq_some_iff hd.wellFormed, topic_eq_some_iff h]
  constructor
  · rintro ⟨p, hp⟩
    obtain ⟨hp, hI⟩ := (hd.find?_iff i _).mp hp
    exact ⟨⟨p, hp⟩, hI⟩
  · rintro ⟨⟨p, hp⟩, hI⟩
    exact ⟨p, (hd.find?_iff i _).mpr ⟨hp, hI⟩⟩

/-- The topics left in the client. -/
theorem Dropped.registered_iff (h : c.WellFormed) (hd : Dropped I c c') (t : Topic) :
    c'.Registered t ↔ c.Registered t ∧ ¬ Index.Emptied c.Under I t := by
  have hreg : c.Registered t ↔ ∃ i, c.Under i t := registered_iff_topic h
  have hreg' : c'.Registered t ↔ ∃ i, c'.Under i t := registered_iff_topic hd.wellFormed
  unfold Index.Emptied
  rw [hreg', hreg]
  simp only [hd.under_iff h, not_and, not_forall]
  constructor
  · rintro ⟨i, hi, hI⟩
    exact ⟨⟨i, hi⟩, fun _ => ⟨i, hi, hI⟩⟩
  · rintro ⟨hex, hall⟩
    obtain ⟨i, hi, hI⟩ := hall hex
    exact ⟨i, hi, hI⟩

theorem Dropped.congr (hd : Dropped I c c') (h : c.WellFormed) (hIJ : ∀ i t, c.Under i t → (I i ↔ J i)) :
    Dropped J c c' := by
  have he : ∀ t, Index.Emptied c.Under I t ↔ Index.Emptied c.Under J t := fun t =>
    Index.emptied_congr (fun _ => Iff.rfl) fun i hi => hIJ i t hi
  refine ⟨hd.wellFormed, fun i p => ?_, fun t e => ?_, fun t => ?_, hd.events, hd.nextUuid, hd.willing⟩
  · rw [hd.find?_iff]
    exact and_congr_right fun hp => not_congr (hIJ i p.1 ((topic_eq_some_iff h).mpr ⟨p.2, hp⟩))
  · rw [hd.ready_iff, he]
  · rw [hd.open_iff, he]

theorem Dropped.trans (h : c.WellFormed) (hd : Dropped I c c') (hd' : Dropped J c' c'') :
    Dropped (fun i => I i ∨ J i) c c'' := by
  have he : ∀ t, Index.Emptied c.Under (fun i => I i ∨ J i) t ↔
      Index.Emptied c.Under I t ∨ Index.Emptied c'.Under J t := by
    intro t
    rw [Index.emptied_or]
    exact or_congr_right (Index.emptied_congr (fun i => (hd.under_iff h i t).symm) fun _ _ => Iff.rfl)
  refine ⟨hd'.wellFormed, fun i p => ?_, fun t e => ?_, fun t => ?_, hd'.events.trans hd.events,
    hd'.nextUuid.trans hd.nextUuid, fun hw => hd'.willing (hd.willing hw)⟩
  · rw [hd'.find?_iff, hd.find?_iff, not_or, and_assoc]
  · rw [hd'.ready_iff, hd.ready_iff, he, not_or, and_assoc]
  · rw [hd'.open_iff, hd.open_iff, he, not_or, and_assoc]

/-- `unsubscribe` on a willing connection returns, and drops the one id. -/
theorem unsubscribe_dropped (h : c.WellFormed) (hw : c.pubsub.Willing) (i : SubId) :
    ∃ b c', (unsubscribe i).exec c = (.ok b, c') ∧ Dropped (fun k => k = i) c c' := by
  obtain ⟨r, d, hx, hrem, -⟩ := unsubscribe_spec h i
  cases hi : c.topicBySubscriptionId.get? i with
  | none =>
    refine ⟨_, _, exec_unsubscribe_unknown hi, Dropped.refl h fun k t hk => ?_⟩
    rintro rfl
    rw [Under, hi] at hk
    contradiction
  | some t =>
    have hmem : ((c.index.bucket t).get? i).isSome := (h.consistent.owner_iff i t).mp hi
    obtain ⟨b, hb⟩ : ∃ b, c.subscriptionsByTopic.get? t = some b := by
      cases hb : c.subscriptionsByTopic.get? t with
      | none => simp [Index.bucket, index, hb] at hmem
      | some b => exact ⟨b, rfl⟩
    have hemptied : ∀ t', Index.Emptied c.Under (fun k => k = i) t' ↔ t' = t ∧ (b.erase i).isEmpty = true := by
      intro t'
      have he : Index.Emptied c.Under (fun k => k = i) t' ↔ t' = t ∧ ((c.index.bucket t).erase i).isEmpty = true :=
        Index.emptied_iff h.consistent.owner_iff hi
      rwa [show c.index.bucket t = b by simp [Index.bucket, index, hb]] at he
    cases he : (b.erase i).isEmpty with
    | false =>
      have hex := exec_unsubscribe_shared hi hb he
      obtain ⟨-, hd⟩ := Prod.mk.inj (hx.symm.trans hex)
      subst hd
      refine ⟨_, _, hex, hrem.wellFormed, fun k p => hrem.find?_iff k p, fun t' e => ?_, fun t' => ?_, rfl, rfl, id⟩
      · simp [hemptied, he]
      · simp [hemptied, he]
    | true =>
      have hfail : c.pubsub.failure c.pubsub.calls (.unsubscribe t) = none := hw _ le_rfl t
      have hex := exec_unsubscribe_last hi hb he
      rw [Pubsub.outcome_eq_ok_iff.mpr hfail] at hex
      obtain ⟨-, hd⟩ := Prod.mk.inj (hx.symm.trans hex)
      subst hd
      refine ⟨_, _, hex, hrem.wellFormed, fun k p => hrem.find?_iff k p, fun t' e => ?_, fun t' => ?_, rfl, rfl,
        fun hw n hn t' => ?_⟩
      · rw [Dict.get?_erase, hemptied]
        split_ifs with ht <;> simp [ht, he]
      · simp only [Pubsub.record, hfail, Option.isNone_none, if_true, isOpen_unsubscribe, hemptied, he, and_true]
        split_ifs with ht
        · simp [ht]
        · simp [Ne.symm ht]
      · exact hw n (Nat.le_of_succ_le hn) t'

end RedisSubClient

/-! ## The tracker -/

namespace JobTracker

variable {pending : SubId → Option Pending} {s s' s'' : JobTracker} {I J : SubId → Prop}

/-- The id is indexed under the topic. -/
def Under (s : JobTracker) (i : SubId) (t : Topic) : Prop := s.topicBySubscriptionId.get? i = some t

/-- The id is indexed. -/
def Knows (s : JobTracker) (i : SubId) : Prop := ∃ t, s.Under i t

/-- The tracker and its client without the ids of `I`.  An id that the tracker does not know stays where it
is in the client. -/
structure Without (I : SubId → Prop) (s s' : JobTracker) : Prop where
  globals_iff : ∀ i cb, s'.globalCallbacks.get? i = some cb ↔ s.globalCallbacks.get? i = some cb ∧ ¬ I i
  under_iff : ∀ i t, s'.Under i t ↔ s.Under i t ∧ ¬ I i
  record_iff : ∀ t i info, s'.record? t i = some info ↔ s.record? t i = some info ∧ ¬ I i
  topic_iff : ∀ t, (s'.subscriptionsByTopic.get? t).isSome ↔
    (s.subscriptionsByTopic.get? t).isSome ∧ ¬ Index.Emptied s.Under I t
  active_iff : ∀ j t, t ∈ s'.activeTopics j ↔ t ∈ s.activeTopics j ∧ ¬ Index.Emptied s.Under I t
  entry_iff : ∀ j, (s'.activeSubscriptions.get? j).isSome ↔ (s.activeSubscriptions.get? j).isSome
  client : RedisSubClient.Dropped (fun i => I i ∧ s.Knows i) s.subClient s'.subClient
  rest : (s'.futureRegistry, s'.record) = (s.futureRegistry, s.record)

/-- A set of ids that the tracker does not know. -/
theorem Without.refl (h : s.Homed pending) (hg : ∀ i, I i → s.globalCallbacks.get? i = none)
    (hI : ∀ i, I i → ¬ s.Knows i) : Without I s s := by
  have hne : ∀ t, ¬ Index.Emptied s.Under I t := fun t => Index.not_emptied fun i hi hIi => hI i hIi ⟨t, hi⟩
  refine ⟨fun i cb => ⟨fun hi => ⟨hi, fun hIi => ?_⟩, And.left⟩, fun i t => ⟨fun hi => ⟨hi, fun hIi => ?_⟩, And.left⟩,
    fun t i info => ⟨fun hi => ⟨hi, fun hIi => ?_⟩, And.left⟩, fun t => by simp [hne t], fun j t => by simp [hne t],
    fun _ => Iff.rfl, RedisSubClient.Dropped.refl h.client fun i t _ hi => hI i hi.1 hi.2, rfl⟩
  · rw [hg i hIi] at hi
    contradiction
  · exact hI i hIi ⟨t, hi⟩
  · exact hI i hIi ⟨t, (h.owner_iff i t).mpr (by rw [hi]; rfl)⟩

theorem Without.trans (h : s.Homed pending) (hw : Without I s s') (hw' : Without J s' s'') :
    Without (fun i => I i ∨ J i) s s'' := by
  have he : ∀ t, Index.Emptied s.Under (fun i => I i ∨ J i) t ↔
      Index.Emptied s.Under I t ∨ Index.Emptied s'.Under J t := by
    intro t
    rw [Index.emptied_or]
    exact or_congr_right (Index.emptied_congr (fun i => (hw.under_iff i t).symm) fun _ _ => Iff.rfl)
  refine ⟨fun i cb => ?_, fun i t => ?_, fun t i info => ?_, fun t => ?_, fun j t => ?_, fun j => ?_, ?_,
    hw'.rest.trans hw.rest⟩
  · rw [hw'.globals_iff, hw.globals_iff, not_or, and_assoc]
  · rw [hw'.under_iff, hw.under_iff, not_or, and_assoc]
  · rw [hw'.record_iff, hw.record_iff, not_or, and_assoc]
  · rw [hw'.topic_iff, hw.topic_iff, he, not_or, and_assoc]
  · rw [hw'.active_iff, hw.active_iff, he, not_or, and_assoc]
  · rw [hw'.entry_iff, hw.entry_iff]
  · refine (hw.client.trans h.client hw'.client).congr h.client fun i t _ => ?_
    have hknows : s'.Knows i ↔ s.Knows i ∧ ¬ I i := by
      unfold Knows
      simp only [hw.under_iff, exists_and_right]
    rw [hknows]
    constructor
    · rintro (⟨hI, hk⟩ | ⟨hJ, hk, -⟩)
      · exact ⟨.inl hI, hk⟩
      · exact ⟨.inr hJ, hk⟩
    · rintro ⟨hI | hJ, hk⟩
      · exact .inl ⟨hI, hk⟩
      · by_cases hI : I i
        · exact .inl ⟨hI, hk⟩
        · exact .inr ⟨hJ, hk, hI⟩

theorem Without.congr (hw : Without I s s') (hIJ : ∀ i, I i ↔ J i) : Without J s s' := by
  obtain rfl : I = J := funext fun i => propext (hIJ i)
  exact hw

/-- One turn of the loop, for an id that is indexed. -/
theorem without_removeId_known (h : s.Homed pending) (hw : s.subClient.pubsub.Willing) {i : SubId} {t : Topic}
    (hg : s.globalCallbacks.get? i = none) (hi : s.topicBySubscriptionId.get? i = some t) :
    ∃ s', (removeId i).exec s = (.ok (), s') ∧ Without (fun k => k = i) s s' := by
  obtain ⟨info, hinfo⟩ := Option.isSome_iff_exists.mp ((h.owner_iff i t).mp hi)
  have hjob : IsTopicOf info.jobId t := (h.filed t i info hinfo).2.2
  obtain ⟨b, hb⟩ : ∃ b, s.subscriptionsByTopic.get? t = some b := by
    cases hb : s.subscriptionsByTopic.get? t with
    | none => simp [record?, hb] at hinfo
    | some b => exact ⟨b, rfl⟩
  have hbi : b.get? i = some info := by
    unfold record? at hinfo
    rwa [hb] at hinfo
  obtain ⟨r, c, hc, hdrop⟩ := RedisSubClient.unsubscribe_dropped h.client hw i
  have hclient : RedisSubClient.Dropped (fun k => k = i ∧ s.Knows k) s.subClient c :=
    hdrop.congr h.client fun k _ _ => ⟨fun hk => ⟨hk, t, by rw [hk]; exact hi⟩, And.left⟩
  have hemptied : ∀ t', Index.Emptied s.Under (fun k => k = i) t' ↔ t' = t ∧ (b.erase i).isEmpty = true := by
    intro t'
    have howner : ∀ k u, s.index.owner.get? k = some u ↔ ((s.index.bucket u).get? k).isSome := h.owner_iff
    have he : Index.Emptied s.Under (fun k => k = i) t' ↔ t' = t ∧ ((s.index.bucket t).erase i).isEmpty = true :=
      Index.emptied_iff howner hi
    rwa [show s.index.bucket t = b by simp [Index.bucket, index, hb]] at he
  have hunder : ∀ k t', (s.topicBySubscriptionId.erase i).get? k = some t' ↔ s.Under k t' ∧ ¬ k = i := by
    intro k t'
    rw [Dict.get?_erase]
    split_ifs with hk <;> simp [hk, Under]
  have hglobal : ∀ k cb, s.globalCallbacks.get? k = some cb ↔ s.globalCallbacks.get? k = some cb ∧ ¬ k = i := by
    intro k cb
    refine ⟨fun hk => ⟨hk, ?_⟩, And.left⟩
    rintro rfl
    rw [hg] at hk
    contradiction
  have hrecord : ∀ t' k info', (if t' = t then (b.erase i).get? k else s.record? t' k) = some info' ↔
      s.record? t' k = some info' ∧ ¬ k = i := by
    intro t' k info'
    by_cases ht : t' = t
    · subst ht
      rw [if_pos rfl, Dict.get?_erase]
      unfold record?
      rw [hb]
      split_ifs with hk <;> simp [hk]
    · rw [if_neg ht]
      refine ⟨fun hk => ⟨hk, fun hki => ht ?_⟩, And.left⟩
      have ho := (h.owner_iff k t').mpr (by rw [hk]; rfl)
      rw [hki, hi] at ho
      exact (Option.some.inj ho).symm
  refine ⟨_, exec_removeId_known hg hi hb hbi hc, ?_⟩
  split_ifs with he
  · -- another record keeps the topic
    refine ⟨hglobal, hunder, fun t' k info' => ?_, fun t' => ?_, fun j t' => ?_, fun _ => Iff.rfl, hclient, rfl⟩
    · rw [← hrecord]
      unfold record?
      dsimp only
      rw [Dict.get?_set]
      split_ifs <;> rfl
    · rw [hemptied, he, Dict.get?_set]
      split_ifs with ht <;> simp [ht, hb]
    · rw [hemptied, he]
      simp only [Bool.false_eq_true, and_false, not_false_iff, and_true]
      rfl
  · -- the topic goes, in the active set too
    have he' : (b.erase i).isEmpty = true := by simpa using he
    refine ⟨hglobal, hunder, fun t' k info' => ?_, fun t' => ?_, fun j t' => ?_, fun j => ?_, hclient, rfl⟩
    · rw [← hrecord]
      unfold record?
      dsimp only
      rw [Dict.get?_erase]
      split_ifs with ht
      · rw [Dict.isEmpty_iff.mp he' k]
        rfl
      · rw [Dict.get?_set_ne _ _ ht]
    · rw [hemptied, he', Dict.get?_erase]
      split_ifs with ht
      · simp [ht]
      · simp [ht, Dict.get?_set_ne _ _ ht]
    · rw [hemptied, he']
      show t' ∈ ((s.activeSubscriptions.modify info.jobId (discardTopic t)).get? j).getD [] ↔ _
      rw [activeTopics_modify]
      split_ifs with hj
      · simp [discardTopic, activeTopics]
      · refine ⟨fun hm => ⟨hm, fun ht => hj ?_⟩, And.left⟩
        exact (h.own j t' hm).unique (ht.1 ▸ hjob)
    · show ((s.activeSubscriptions.modify info.jobId (discardTopic t)).get? j).isSome ↔ _
      rw [Dict.get?_modify]
      split_ifs with hj
      · rw [hj, Option.isSome_map]
      · rfl

theorem without_removeId (h : s.Homed pending) (hw : s.subClient.pubsub.Willing) (i : SubId) :
    ∃ s', (removeId i).exec s = (.ok (), s') ∧ Without (fun k => k = i) s s' := by
  cases hg : s.globalCallbacks.get? i with
  | none =>
    cases hi : s.topicBySubscriptionId.get? i with
    | none =>
      refine ⟨s, exec_removeId_unknown hg hi, Without.refl h ?_ ?_⟩
      · rintro k rfl
        exact hg
      · rintro k rfl ⟨t, ht⟩
        rw [Under, hi] at ht
        contradiction
    | some t => exact without_removeId_known h hw hg hi
  | some cb =>
    have hunknown : ∀ k, k = i → ¬ s.Knows k := by
      rintro k rfl ⟨t, ht⟩
      rw [Under, (h.globals k cb hg).2.1] at ht
      contradiction
    have hne : ∀ t, ¬ Index.Emptied s.Under (fun k => k = i) t := fun t =>
      Index.not_emptied fun k hk hki => hunknown k hki ⟨t, hk⟩
    refine ⟨_, exec_removeId_global hg, fun k cb' => ?_, fun k t => ⟨fun hk => ⟨hk, fun hki => ?_⟩, And.left⟩,
      fun t k info => ⟨fun hk => ⟨hk, fun hki => ?_⟩, And.left⟩, fun t => by simp [hne t], fun j t => ?_,
      fun _ => Iff.rfl, RedisSubClient.Dropped.refl h.client fun k t _ hk => hunknown k hk.1 hk.2, rfl⟩
    · rw [Dict.get?_erase]
      split_ifs with hk <;> simp [hk]
    · exact hunknown k hki ⟨t, hk⟩
    · exact hunknown k hki ⟨t, (h.owner_iff k t).mpr (by rw [show s.record? t k = some info from hk]; rfl)⟩
    · exact ⟨fun ht => ⟨ht, hne t⟩, And.left⟩

/-- The whole list. -/
theorem without_removeSubscriptionById (h : s.Homed pending) (hw : s.subClient.pubsub.Willing) (ids : List SubId) :
    ∃ s', (removeSubscriptionById ids).exec s = (.ok (), s') ∧ s'.Homed pending ∧ s'.subClient.pubsub.Willing ∧
      Without (fun i => i ∈ ids) s s' := by
  unfold removeSubscriptionById
  induction ids generalizing s with
  | nil => exact ⟨s, rfl, h, hw, Without.refl h (by simp) (by simp)⟩
  | cons i ids ih =>
    obtain ⟨s₁, he₁, hw₁⟩ := without_removeId h hw i
    have hh₁ : s₁.Homed pending := (homed_removeId i).of_exec he₁ h
    obtain ⟨s₂, he₂, hh₂, hwill₂, hw₂⟩ := ih hh₁ (hw₁.client.willing hw)
    refine ⟨s₂, ?_, hh₂, hwill₂, (hw₁.trans h hw₂).congr fun k => List.mem_cons.symm⟩
    rw [List.forM_cons, exec_bind_ok he₁]
    exact he₂

/-- Several calls, one after the other. -/
theorem without_calls (h : s.Homed pending) (hw : s.subClient.pubsub.Willing) (calls : List (List SubId)) :
    ∃ s', (forM calls removeSubscriptionById).exec s = (.ok (), s') ∧ Without (fun i => ∃ ids ∈ calls, i ∈ ids) s s' := by
  induction calls generalizing s with
  | nil => exact ⟨s, rfl, Without.refl h (by simp) (by simp)⟩
  | cons ids calls ih =>
    obtain ⟨s₁, he₁, hh₁, hwill₁, hw₁⟩ := without_removeSubscriptionById h hw ids
    obtain ⟨s₂, he₂, hw₂⟩ := ih hh₁ hwill₁
    refine ⟨s₂, ?_, (hw₁.trans h hw₂).congr fun k => by simp⟩
    rw [List.forM_cons, exec_bind_ok he₁]
    exact he₂

/-- Equal trackers, as far as dictionaries and sets are compared: every look-up, every set of topics, the ready
events and the open channels of the client, and all the rest. -/
structure Alike (s s' : JobTracker) : Prop where
  globals : ∀ i, s'.globalCallbacks.get? i = s.globalCallbacks.get? i
  owners : ∀ i, s'.topicBySubscriptionId.get? i = s.topicBySubscriptionId.get? i
  records : ∀ t i, s'.record? t i = s.record? t i
  topics : ∀ t, (s'.subscriptionsByTopic.get? t).isSome ↔ (s.subscriptionsByTopic.get? t).isSome
  active : ∀ j t, t ∈ s'.activeTopics j ↔ t ∈ s.activeTopics j
  entries : ∀ j, (s'.activeSubscriptions.get? j).isSome ↔ (s.activeSubscriptions.get? j).isSome
  clientOwners : ∀ i, s'.subClient.topicBySubscriptionId.get? i = s.subClient.topicBySubscriptionId.get? i
  clientCallbacks : ∀ t i, (s'.subClient.index.bucket t).get? i = (s.subClient.index.bucket t).get? i
  clientTopics : ∀ t, s'.subClient.Registered t ↔ s.subClient.Registered t
  ready : ∀ t, s'.subClient.subscriptionReady.get? t = s.subClient.subscriptionReady.get? t
  events : s'.subClient.events = s.subClient.events
  channels : ∀ t, isOpen s'.subClient.pubsub.sent t = isOpen s.subClient.pubsub.sent t
  rest : (s'.futureRegistry, s'.record) = (s.futureRegistry, s.record)

/-- What is left depends on the set of ids only. -/
theorem Without.alike (hw : Without I s s') (hw' : Without I s s'') : Alike s' s'' := by
  have hfind : ∀ i, s''.subClient.find? i = s'.subClient.find? i := fun i => Option.ext fun p => by
    rw [hw'.client.find?_iff, hw.client.find?_iff]
  refine ⟨fun i => Option.ext fun cb => ?_, fun i => Option.ext fun t => ?_, fun t i => Option.ext fun info => ?_,
    fun t => ?_, fun j t => ?_, fun j => ?_, fun i => ?_, fun t i => Option.ext fun p => ?_, fun t => ?_,
    fun t => Option.ext fun e => ?_, hw'.client.events.trans hw.client.events.symm, fun t => Bool.eq_iff_iff.mpr ?_,
    hw'.rest.trans hw.rest.symm⟩
  · rw [hw'.globals_iff, hw.globals_iff]
  · exact (hw'.under_iff i t).trans (hw.under_iff i t).symm
  · rw [hw'.record_iff, hw.record_iff]
  · rw [hw'.topic_iff, hw.topic_iff]
  · rw [hw'.active_iff, hw.active_iff]
  · rw [hw'.entry_iff, hw.entry_iff]
  · rw [RedisSubClient.topicBySubscriptionId_eq hw'.client.wellFormed,
      RedisSubClient.topicBySubscriptionId_eq hw.client.wellFormed, hfind]
  · have h := Index.find?_eq_some_iff (k := t) (i := i) (v := p) hw.client.wellFormed.consistent
    have h' := Index.find?_eq_some_iff (k := t) (i := i) (v := p) hw'.client.wellFormed.consistent
    exact h'.symm.trans ((iff_of_eq (congrArg (fun o => o = some (t, p)) (hfind i))).trans h)
  · rw [RedisSubClient.registered_iff hw'.client.wellFormed, RedisSubClient.registered_iff hw.client.wellFormed]
    simp only [hfind]
  · rw [hw'.client.ready_iff, hw.client.ready_iff]
  · rw [hw'.client.open_iff, hw.client.open_iff]

/-- Where the two layers list the same ids, a topic leaves both at the same moment. -/
theorem Without.together (hw : Without I s s')
    (hids : ∀ i, s.subClient.topicBySubscriptionId.get? i = s.topicBySubscriptionId.get? i) {j : String} {t : Topic}
    (ha : t ∈ s.activeTopics j) (ho : isOpen s.subClient.pubsub.sent t = true) :
    t ∈ s'.activeTopics j ↔ isOpen s'.subClient.pubsub.sent t = true := by
  rw [hw.active_iff, hw.client.open_iff]
  refine and_congr (iff_of_true ha ho) (not_congr (Index.emptied_congr (fun i => ?_) fun i hi => ?_))
  · unfold Under RedisSubClient.Under
    rw [hids]
  · exact ⟨fun hI => ⟨hI, t, hi⟩, And.left⟩

end JobTracker

/-! ## Reachable states -/

namespace Session

open JobTracker

/-- The id was drawn by a call that has not ended: nobody else knows it yet. -/
def BeingRegistered (s : Session) (i : SubId) : Prop := ∃ n p, (s.calls n).holds s.jobOf = some (i, p)

/-- **Removal by id depends on the set of ids.**  From every reachable state the call returns; the ids of the
list are gone on both sides, all else is as it was, and a topic goes with its last id.  Any calls with the same
ids, in whatever order and however often, leave the same. -/
theorem unlisten_by_set {s₀ s : Session} {ls : List Label} (h₀ : s₀.Initial)
    (hrun : Run Steps (fun _ _ => True) s₀ ls s) (hw : s.tracker.subClient.pubsub.Willing) (ids : List SubId) :
    ∃ s', (removeSubscriptionById ids).exec s.tracker = (.ok (), s') ∧
      Without (fun i => i ∈ ids) s.tracker s' ∧
      (∀ i ∈ ids, ¬ s.BeingRegistered i → s'.subClient.topicBySubscriptionId.get? i = none) ∧
      ((∀ i, s.tracker.subClient.topicBySubscriptionId.get? i = s.tracker.topicBySubscriptionId.get? i) →
        ∀ j, ∀ t ∈ s.tracker.activeTopics j, isOpen s.tracker.subClient.pubsub.sent t = true →
          (t ∈ s'.activeTopics j ↔ isOpen s'.subClient.pubsub.sent t = true)) ∧
      ∀ calls : List (List SubId), (∀ i, i ∈ ids ↔ ∃ l ∈ calls, i ∈ l) →
        ∃ s'', (forM calls removeSubscriptionById).exec s.tracker = (.ok (), s'') ∧ Alike s' s'' := by
  obtain ⟨pending, h⟩ := run_homed h₀ hrun
  obtain ⟨s', he, -, -, hs'⟩ := without_removeSubscriptionById h.tracker hw ids
  refine ⟨s', he, hs', fun i hi hf => ?_, fun hids j t ha ho => hs'.together hids ha ho, fun calls hc => ?_⟩
  · cases ht : s'.subClient.topicBySubscriptionId.get? i with
    | none => rfl
    | some t =>
      obtain ⟨hu, hno⟩ := (hs'.client.under_iff h.tracker.client i t).mp ht
      rcases h.tracker.owned i t hu with hk | ⟨p, hp, -⟩
      · exact absurd ⟨hi, t, hk⟩ hno
      · obtain ⟨n, hn⟩ := h.holds.held i p hp
        refine absurd ⟨n, p, ?_⟩ hf
        rwa [show s.jobOf = s₀.jobOf from funext h.jobIds]
  · obtain ⟨s'', he'', hs''⟩ := without_calls h.tracker hw calls
    exact ⟨s'', he'', hs'.alike (hs''.congr fun i => (hc i).symm)⟩

/-- A tracked job with a listener (id 3) and a manager-wide listener (id 4): both go, in one call or in two. -/
theorem unlisten_by_set_of_listeners : ∃ s s' s'', Run Steps (fun _ _ => True) (new (fun _ _ => none) unary)
      [⟨.still, .track 0⟩, ⟨.still, .addSubscription ⟨"j", .log, 7⟩⟩, ⟨.still, .listenGlobal .log 8⟩] s ∧
    s.listeners = [3] ∧
    (removeSubscriptionById [3, 4, 99, 3]).exec s.tracker = (.ok (), s') ∧
    (forM [[4], [99, 3]] removeSubscriptionById).exec s.tracker = (.ok (), s'') ∧ Alike s' s'' := by
  have hex : ∃ s, Run Steps (fun _ _ => True) (new (fun _ _ => none) unary)
      [⟨.still, .track 0⟩, ⟨.still, .addSubscription ⟨"j", .log, 7⟩⟩, ⟨.still, .listenGlobal .log 8⟩] s ∧
      s.listeners = [3] ∧ s.tracker.subClient.pubsub.Willing :=
    ⟨_, Run.cons trivial rfl (Run.cons trivial rfl (Run.single trivial rfl)), rfl, fun _ _ _ => rfl⟩
  obtain ⟨s, hrun, hl, hw⟩ := hex
  obtain ⟨s', he, -, -, -, hcalls⟩ := unlisten_by_set (initial_new _ unary_injective) hrun hw [3, 4, 99, 3]
  obtain ⟨s'', he', ha⟩ := hcalls [[4], [99, 3]] fun i => by simp; grind
  exact ⟨s, s', s'', hrun, hl, he, he', ha⟩

end Session

end SlurmManager
