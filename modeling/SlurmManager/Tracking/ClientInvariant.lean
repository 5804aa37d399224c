import SlurmManager.Tracking.RedisSubClient

/-!
# ClientInvariant — what every operation keeps of `RedisSubClient`

* `WellFormed` holds whatever the connection does: the index is consistent, identifiers in use were
  drawn before, a subscription is filed under its own id and topic, and every registered topic has a
  ready event.
* `Synced` holds as long as no pub/sub call raises: ready events, registered topics and the channels
  opened by the commands sent (`isOpen`) are the same topics.
* `find?` is the view of the client that the tracker proofs use: the registration of an id.  One
  lemma for each operation says what it does to this view; the maps are not unfolded after this
  module.
-/

namespace SlurmManager

/-- Whether the commands leave the channel subscribed: the last command about it decides. -/
def isOpen (sent : List Command) (t : Topic) : Bool :=
  sent.foldl (fun o cmd => match cmd with
    | .subscribe t' => if t' = t then true else o
    | .unsubscribe t' => if t' = t then false else o) false

@[simp] theorem isOpen_nil (t : Topic) : isOpen [] t = false := rfl

@[simp] theorem isOpen_subscribe (sent : List Command) (t t' : Topic) :
    isOpen (sent ++ [.subscribe t']) t = if t' = t then true else isOpen sent t := by
  simp [isOpen, List.foldl_append]

@[simp] theorem isOpen_unsubscribe (sent : List Command) (t t' : Topic) :
    isOpen (sent ++ [.unsubscribe t']) t = if t' = t then false else isOpen sent t := by
  simp [isOpen, List.foldl_append]

namespace Pubsub

/-- The calls, made from now on one after the other, do not raise. -/
def Accepts (p : Pubsub) (cmds : List Command) : Prop :=
  ∀ k cmd, cmds[k]? = some cmd → p.failure (p.calls + k) cmd = none

theorem accepts_nil (p : Pubsub) : p.Accepts [] := by
  intro k cmd h
  simp at h

theorem accepts_cons {p : Pubsub} {cmd : Command} {cmds : List Command} :
    p.Accepts (cmd :: cmds) ↔ p.failure p.calls cmd = none ∧ (p.record cmd).Accepts cmds := by
  constructor
  · intro h
    refine ⟨h 0 cmd rfl, fun k cmd' hk => ?_⟩
    have := h (k + 1) cmd' hk
    rwa [show p.calls + (k + 1) = p.calls + 1 + k by omega] at this
  · rintro ⟨h0, h⟩ k cmd' hk
    cases k with
    | zero =>
      obtain rfl : cmd = cmd' := by simpa using hk
      exact h0
    | succ k =>
      have := h k cmd' hk
      rwa [show p.calls + (k + 1) = p.calls + 1 + k by omega]

theorem UnsubscribeOk.accepts {p : Pubsub} (h : p.UnsubscribeOk) {cmds : List Command}
    (hc : ∀ cmd ∈ cmds, ∃ t, cmd = .unsubscribe t) : p.Accepts cmds := by
  intro k cmd hk
  obtain ⟨t, rfl⟩ := hc cmd (List.mem_of_getElem? hk)
  exact h _ t

theorem outcome_eq_ok_iff {p : Pubsub} {cmd : Command} :
    p.outcome cmd = .ok () ↔ p.failure p.calls cmd = none := by
  unfold outcome
  cases p.failure p.calls cmd <;> simp

end Pubsub

namespace RedisSubClient

variable {χ : Type} {c : RedisSubClient χ}

/-- The registration of an id: its topic and its subscription. -/
def find? (c : RedisSubClient χ) (i : SubId) : Option (Topic × Subscription χ) := c.index.find? i

/-- The topic has callbacks: `topic in registered_topics`. -/
def Registered (c : RedisSubClient χ) (t : Topic) : Prop := (c.subscriptionsByTopic.get? t).isSome

structure WellFormed (c : RedisSubClient χ) : Prop where
  consistent : c.index.Consistent
  fresh : ∀ (i : ℕ) p, c.find? i = some p → i < c.nextUuid
  filed : ∀ i t s, c.find? i = some (t, s) → s.id = i ∧ s.topic = t
  ready : ∀ t, c.Registered t → (c.subscriptionReady.get? t).isSome
  event_lt : ∀ t (e : ℕ), c.subscriptionReady.get? t = some e → e < c.events.length

structure Synced (c : RedisSubClient χ) : Prop where
  ready_iff : ∀ t, (c.subscriptionReady.get? t).isSome ↔ c.Registered t
  open_iff : ∀ t, isOpen c.pubsub.sent t = true ↔ c.Registered t

section View

/-- A new client. -/
theorem find?_of_empty (h : c.subscriptionsByTopic = ∅) (h' : c.topicBySubscriptionId = ∅) (i : SubId) :
    c.find? i = none := by
  unfold find? index
  rw [h, h']
  rfl

theorem wellFormed_of_empty (h : c.subscriptionsByTopic = ∅) (h' : c.topicBySubscriptionId = ∅)
    (hr : c.subscriptionReady = ∅) : c.WellFormed := by
  have hf := find?_of_empty h h'
  refine ⟨?_, fun i p hp => ?_, fun i t s hs => ?_, fun t ht => ?_, fun t e he => ?_⟩
  · unfold index
    rw [h, h']
    exact Index.consistent_empty
  · rw [hf] at hp
    simp at hp
  · rw [hf] at hs
    simp at hs
  · simp [Registered, h] at ht
  · simp [hr] at he

theorem synced_of_empty (h : c.subscriptionsByTopic = ∅) (hr : c.subscriptionReady = ∅)
    (hs : c.pubsub.sent = []) : c.Synced := by
  refine ⟨fun t => ?_, fun t => ?_⟩
  · simp [Registered, h, hr]
  · simp [Registered, h, hs]

theorem registered_iff (h : c.WellFormed) {t : Topic} :
    c.Registered t ↔ ∃ i s, c.find? i = some (t, s) := Index.buckets_isSome_iff h.consistent

theorem topicBySubscriptionId_eq (h : c.WellFormed) (i : SubId) :
    c.topicBySubscriptionId.get? i = (c.find? i).map Prod.fst := Index.owner_eq h.consistent i

theorem topic_eq_some_iff (h : c.WellFormed) {i : SubId} {t : Topic} :
    c.topicBySubscriptionId.get? i = some t ↔ ∃ s, c.find? i = some (t, s) :=
  Index.owner_eq_some_iff h.consistent

theorem topic_lt (h : c.WellFormed) {i : ℕ} {t : Topic}
    (hi : c.topicBySubscriptionId.get? i = some t) : i < c.nextUuid := by
  obtain ⟨s, hf⟩ := (topic_eq_some_iff h).mp hi
  exact h.fresh i _ hf

theorem registered_iff_topic (h : c.WellFormed) {t : Topic} :
    c.Registered t ↔ ∃ i, c.topicBySubscriptionId.get? i = some t := by
  rw [registered_iff h]
  exact exists_congr fun i => (topic_eq_some_iff h).symm

theorem find?_eq_none_of_le (h : c.WellFormed) {i : SubId} (hi : c.nextUuid ≤ i) :
    c.find? i = none := by
  cases hf : c.find? i with
  | none => rfl
  | some p => exact absurd (h.fresh i p hf) (not_lt.mpr hi)

/-- The captured callbacks of a topic are the registrations under it. -/
theorem mem_capture_iff (h : c.WellFormed) {t : Topic} {s : Subscription χ} :
    s ∈ c.capture t ↔ c.find? s.id = some (t, s) := by
  rw [capture, Dict.mem_values_iff]
  constructor
  · rintro ⟨i, hi⟩
    have hf : c.find? i = some (t, s) := (Index.find?_eq_some_iff h.consistent).mpr hi
    rw [(h.filed i t s hf).1]
    exact hf
  · intro hf
    exact ⟨s.id, (Index.find?_eq_some_iff h.consistent).mp hf⟩

end View

/-! ## `subscribe` -/

section Subscribe

/-- What a returning `subscribe` did. -/
structure Subscribed (c : RedisSubClient χ) (t : Topic) (cb : χ) (c' : RedisSubClient χ) : Prop where
  wellFormed : c'.WellFormed
  find? : ∀ i : ℕ, c'.find? i = if i = c.nextUuid then some (t, ⟨c.nextUuid, t, cb⟩) else c.find? i
  nextUuid : c'.nextUuid = c.nextUuid + 1
  failure : c'.pubsub.failure = c.pubsub.failure
  synced : c.Synced → c'.Synced

/-- What a raising `subscribe` did: only the ready event of the topic is new. -/
structure Refused (c : RedisSubClient χ) (t : Topic) (c' : RedisSubClient χ) : Prop where
  wellFormed : c'.WellFormed
  find? : ∀ i, c'.find? i = c.find? i
  nextUuid : c'.nextUuid = c.nextUuid + 1
  failure : c'.pubsub.failure = c.pubsub.failure
  ready : ∀ t', c'.subscriptionReady.get? t' =
    if t' = t then some c.events.length else c.subscriptionReady.get? t'

theorem Subscribed.topic {t : Topic} {cb : χ} {c' : RedisSubClient χ} (h : c.WellFormed)
    (hs : Subscribed c t cb c') (i : ℕ) : c'.topicBySubscriptionId.get? i =
      if i = c.nextUuid then some t else c.topicBySubscriptionId.get? i := by
  rw [topicBySubscriptionId_eq hs.wellFormed, hs.find?, topicBySubscriptionId_eq h]
  split_ifs <;> rfl

theorem Refused.topic {t : Topic} {c' : RedisSubClient χ} (h : c.WellFormed) (hs : Refused c t c')
    (i : SubId) : c'.topicBySubscriptionId.get? i = c.topicBySubscriptionId.get? i := by
  rw [topicBySubscriptionId_eq hs.wellFormed, hs.find?, topicBySubscriptionId_eq h]

variable (h : c.WellFormed) (t : Topic) (cb : χ)
include h

theorem owner_nextUuid : c.index.owner.get? c.nextUuid = none :=
  (Index.find?_eq_none_iff h.consistent).mp (find?_eq_none_of_le h le_rfl)

/-- A client whose index gained the registration `(t, nextUuid)` is well-formed. -/
theorem wellFormed_insert {d : RedisSubClient χ}
    (hix : d.index = c.index.insert t c.nextUuid ⟨c.nextUuid, t, cb⟩)
    (hu : d.nextUuid = c.nextUuid + 1)
    (hr : ∀ t', d.Registered t' → (d.subscriptionReady.get? t').isSome)
    (he : ∀ t' (e : ℕ), d.subscriptionReady.get? t' = some e → e < d.events.length) :
    d.WellFormed ∧
      ∀ i : ℕ, d.find? i = if i = c.nextUuid then some (t, ⟨c.nextUuid, t, cb⟩) else c.find? i := by
  have hfind : ∀ i : ℕ, d.find? i =
      if i = c.nextUuid then some (t, ⟨c.nextUuid, t, cb⟩) else c.find? i := fun i => by
    unfold find?
    rw [hix, Index.find?_insert h.consistent (owner_nextUuid h)]
  refine ⟨⟨?_, ?_, ?_, hr, he⟩, hfind⟩
  · rw [hix]; exact h.consistent.insert (owner_nextUuid h)
  · intro i p hp
    rw [hfind] at hp
    split_ifs at hp with hi
    · omega
    · have := h.fresh i p hp; omega
  · intro i t' s hs
    rw [hfind] at hs
    split_ifs at hs with hi
    · obtain ⟨rfl, rfl⟩ := Prod.mk.inj (Option.some.inj hs)
      exact ⟨hi.symm, rfl⟩
    · exact h.filed i t' s hs

theorem subscribe_joined (hb : c.Registered t) :
    ∃ c', (subscribe t cb).exec c = (.ok c.nextUuid, c') ∧ Subscribed c t cb c' := by
  obtain ⟨b, hb⟩ := Option.isSome_iff_exists.mp hb
  refine ⟨_, exec_subscribe_joined hb, ?_⟩
  have hreg : ∀ t', (c.subscriptionsByTopic.set t (b.set c.nextUuid ⟨c.nextUuid, t, cb⟩)).get? t' =
      if t' = t then some (b.set c.nextUuid ⟨c.nextUuid, t, cb⟩)
      else c.subscriptionsByTopic.get? t' := fun t' => Dict.get?_set _ _ _ _
  have hregd : ∀ t', ((c.subscriptionsByTopic.set t
      (b.set c.nextUuid ⟨c.nextUuid, t, cb⟩)).get? t').isSome ↔ c.Registered t' := fun t' => by
    rw [hreg]
    split_ifs with ht
    · simp [ht, Registered, hb]
    · rfl
  obtain ⟨hwf, hf⟩ := wellFormed_insert h t cb
    (d := { c with
      subscriptionsByTopic := c.subscriptionsByTopic.set t (b.set c.nextUuid ⟨c.nextUuid, t, cb⟩)
      topicBySubscriptionId := c.topicBySubscriptionId.set c.nextUuid t
      nextUuid := c.nextUuid + 1 })
    (by simp [index, Index.insert, Index.bucket, hb]) rfl
    (fun t' ht' => h.ready t' ((hregd t').mp ht')) h.event_lt
  exact ⟨hwf, hf, rfl, rfl, fun hs =>
    ⟨fun t' => (hs.ready_iff t').trans (hregd t').symm,
      fun t' => (hs.open_iff t').trans (hregd t').symm⟩⟩

theorem subscribe_opened (hb : ¬ c.Registered t) (hs : c.pubsub.outcome (.subscribe t) = .ok ()) :
    ∃ c', (subscribe t cb).exec c = (.ok c.nextUuid, c') ∧ Subscribed c t cb c' := by
  have hb : c.subscriptionsByTopic.get? t = none := by simpa [Registered] using hb
  refine ⟨_, exec_subscribe_opened hb hs, ?_⟩
  have hregd : ∀ t', ((c.subscriptionsByTopic.set t
      (Dict.single c.nextUuid ⟨c.nextUuid, t, cb⟩)).get? t').isSome ↔ t' = t ∨ c.Registered t' :=
    fun t' => by
      rw [Dict.get?_set]
      split_ifs with ht <;> simp [ht, Registered]
  have hready : ∀ t', ((c.subscriptionReady.set t c.events.length).get? t').isSome ↔
      t' = t ∨ (c.subscriptionReady.get? t').isSome := fun t' => by
    rw [Dict.get?_set]
    split_ifs with ht <;> simp [ht]
  have hfail : c.pubsub.failure c.pubsub.calls (.subscribe t) = none := by
    unfold Pubsub.outcome at hs
    cases hf : c.pubsub.failure c.pubsub.calls (.subscribe t) with
    | none => rfl
    | some text => rw [hf] at hs; simp at hs
  obtain ⟨hwf, hf⟩ := wellFormed_insert h t cb
    (d := { c with
      subscriptionsByTopic :=
        c.subscriptionsByTopic.set t (Dict.single c.nextUuid ⟨c.nextUuid, t, cb⟩)
      topicBySubscriptionId := c.topicBySubscriptionId.set c.nextUuid t
      subscriptionReady := c.subscriptionReady.set t c.events.length
      events := c.events ++ [false]
      pubsub := c.pubsub.record (.subscribe t)
      nextUuid := c.nextUuid + 1 })
    (by simp [index, Index.insert, Index.bucket, hb, Dict.single]) rfl
    (fun t' ht' => by
      rcases (hregd t').mp ht' with rfl | ht'
      · simp
      · exact (hready t').mpr (Or.inr (h.ready t' ht')))
    (fun t' e he => by
      simp only [Dict.get?_set, List.length_append, List.length_cons, List.length_nil] at he ⊢
      split_ifs at he with ht
      · have : c.events.length = e := Option.some.inj he
        omega
      · have := h.event_lt t' e he; omega)
  refine ⟨hwf, hf, rfl, rfl, fun hsy => ⟨fun t' => ?_, fun t' => ?_⟩⟩
  · show ((c.subscriptionReady.set t c.events.length).get? t').isSome ↔ _
    rw [hready, hsy.ready_iff]
    exact (hregd t').symm
  · refine Iff.trans ?_ (hregd t').symm
    simp only [Pubsub.record, hfail, Option.isNone_none, if_true, isOpen_subscribe]
    split_ifs with ht
    · simp [ht]
    · rw [hsy.open_iff]
      simp [Ne.symm ht]

theorem subscribe_raised {e : PyError} (hb : ¬ c.Registered t)
    (hs : c.pubsub.outcome (.subscribe t) = .error e) :
    ∃ c', (subscribe t cb).exec c = (.error e, c') ∧ Refused c t c' := by
  have hb : c.subscriptionsByTopic.get? t = none := by simpa [Registered] using hb
  refine ⟨_, exec_subscribe_raised hb hs, ?_⟩
  refine ⟨⟨h.consistent, fun i p hp => ?_, h.filed, fun t' ht' => ?_, fun t' e' he => ?_⟩,
    fun _ => rfl, rfl, rfl, fun t' => Dict.get?_set _ _ _ _⟩
  · have := h.fresh i p hp
    show i < c.nextUuid + 1
    omega
  · simp only [Dict.get?_set]
    split_ifs with ht
    · rfl
    · exact h.ready t' ht'
  · simp only [Dict.get?_set, List.length_append, List.length_cons, List.length_nil] at he ⊢
    split_ifs at he with ht
    · have : c.events.length = e' := Option.some.inj he
      omega
    · have := h.event_lt t' e' he; omega

/-- How `subscribe` can end. -/
theorem subscribe_cases :
    (∃ c', (subscribe t cb).exec c = (.ok c.nextUuid, c') ∧ Subscribed c t cb c') ∨
    (∃ e c', (subscribe t cb).exec c = (.error e, c') ∧ Refused c t c' ∧ ¬ c.Registered t ∧
      c.pubsub.outcome (.subscribe t) = .error e) := by
  by_cases hb : c.Registered t
  · exact Or.inl (subscribe_joined h t cb hb)
  · cases hs : c.pubsub.outcome (.subscribe t) with
    | ok u => exact Or.inl (subscribe_opened h t cb hb hs)
    | error e =>
      obtain ⟨c', he, hr⟩ := subscribe_raised h t cb hb hs
      exact Or.inr ⟨e, c', he, hr, hb, rfl⟩

end Subscribe

/-! ## `unsubscribe` and `unsubscribe_topic` -/

section Unsubscribe

/-- What a removal did: the registrations `(i, t)` with `gone i t` are no longer there.  The maps
are cleaned before the network call, so this does not depend on how the call ended; only `Synced`
does. -/
structure Removed (c : RedisSubClient χ) (gone : SubId → Topic → Prop) (c' : RedisSubClient χ) :
    Prop where
  wellFormed : c'.WellFormed
  find?_iff : ∀ i p, c'.find? i = some p ↔ c.find? i = some p ∧ ¬ gone i p.1
  nextUuid : c'.nextUuid = c.nextUuid
  failure : c'.pubsub.failure = c.pubsub.failure
  events : c'.events = c.events
  synced : c.pubsub.UnsubscribeOk → c.Synced → c'.Synced

theorem Removed.refl (h : c.WellFormed) {gone : SubId → Topic → Prop}
    (hg : ∀ i p, c.find? i = some p → ¬ gone i p.1) : Removed c gone c :=
  ⟨h, fun i p => ⟨fun hp => ⟨hp, hg i p hp⟩, fun hp => hp.1⟩, rfl, rfl, rfl, fun _ hs => hs⟩

theorem Removed.unsubscribeOk {gone : SubId → Topic → Prop} {c' : RedisSubClient χ}
    (hr : Removed c gone c') (h : c.pubsub.UnsubscribeOk) : c'.pubsub.UnsubscribeOk := by
  unfold Pubsub.UnsubscribeOk
  rw [hr.failure]
  exact h

/-- Two removals one after the other. -/
theorem Removed.trans {g g' : SubId → Topic → Prop} {c' c'' : RedisSubClient χ}
    (h : Removed c g c') (h' : Removed c' g' c'') : Removed c (fun i t => g i t ∨ g' i t) c'' := by
  refine ⟨h'.wellFormed, fun i p => ?_, h'.nextUuid.trans h.nextUuid, h'.failure.trans h.failure,
    h'.events.trans h.events, fun hu hs => h'.synced (h.unsubscribeOk hu) (h.synced hu hs)⟩
  rw [h'.find?_iff, h.find?_iff, not_or, and_assoc]

theorem Removed.congr {g g' : SubId → Topic → Prop} {c' : RedisSubClient χ} (h : Removed c g c')
    (hg : ∀ i p, c.find? i = some p → (g i p.1 ↔ g' i p.1)) : Removed c g' c' := by
  refine ⟨h.wellFormed, fun i p => ?_, h.nextUuid, h.failure, h.events, h.synced⟩
  rw [h.find?_iff]
  exact and_congr_right fun hp => not_congr (hg i p hp)

theorem Removed.registered_iff (h : c.WellFormed) {g : Topic → Prop} {c' : RedisSubClient χ}
    (hr : Removed c (fun _ t => g t) c') {t : Topic} :
    c'.Registered t ↔ c.Registered t ∧ ¬ g t := by
  rw [RedisSubClient.registered_iff hr.wellFormed, RedisSubClient.registered_iff h]
  constructor
  · rintro ⟨i, s, hf⟩
    obtain ⟨hf, hg⟩ := (hr.find?_iff i _).mp hf
    exact ⟨⟨i, s, hf⟩, hg⟩
  · rintro ⟨⟨i, s, hf⟩, hg⟩
    exact ⟨i, s, (hr.find?_iff i _).mpr ⟨hf, hg⟩⟩

/-- The ids that a removal leaves registered. -/
theorem Removed.topic_iff (h : c.WellFormed) {g : SubId → Topic → Prop} {c' : RedisSubClient χ}
    (hr : Removed c g c') {i : SubId} {t : Topic} :
    c'.topicBySubscriptionId.get? i = some t ↔
      c.topicBySubscriptionId.get? i = some t ∧ ¬ g i t := by
  rw [topic_eq_some_iff hr.wellFormed, topic_eq_some_iff h]
  constructor
  · rintro ⟨s, hf⟩
    obtain ⟨hf, hg⟩ := (hr.find?_iff i _).mp hf
    exact ⟨⟨s, hf⟩, hg⟩
  · rintro ⟨⟨s, hf⟩, hg⟩
    exact ⟨s, (hr.find?_iff i _).mpr ⟨hf, hg⟩⟩

/-- A client that lost a bucket, its ready event and nothing else of its view. -/
theorem removed_of_close (h : c.WellFormed) {t : Topic} {gone : SubId → Topic → Prop}
    {c' : RedisSubClient χ} (hc : c'.index.Consistent)
    (hf : ∀ i p, c'.find? i = some p ↔ c.find? i = some p ∧ ¬ gone i p.1)
    (hb : ∀ t', c'.subscriptionsByTopic.get? t' =
      if t' = t then none else c.subscriptionsByTopic.get? t')
    (hr : c'.subscriptionReady = c.subscriptionReady.erase t) (hu : c'.nextUuid = c.nextUuid)
    (he : c'.events = c.events) (hp : c'.pubsub = c.pubsub.record (.unsubscribe t)) :
    Removed c gone c' := by
  have hreg : ∀ t', c'.Registered t' ↔ t' ≠ t ∧ c.Registered t' := fun t' => by
    unfold Registered
    rw [hb]
    split_ifs with ht <;> simp [ht]
  have hready : ∀ t', (c'.subscriptionReady.get? t').isSome ↔
      t' ≠ t ∧ (c.subscriptionReady.get? t').isSome := fun t' => by
    rw [hr, Dict.get?_erase]
    split_ifs with ht <;> simp [ht]
  refine ⟨⟨hc, fun i p hi => ?_, fun i t' s hi => ?_, fun t' ht' => ?_, fun t' e he' => ?_⟩, hf, hu,
    by rw [hp]; rfl, he, fun hok hs => ⟨fun t' => ?_, fun t' => ?_⟩⟩
  · rw [hu]; exact h.fresh i p ((hf i p).mp hi).1
  · exact h.filed i t' s ((hf i (t', s)).mp hi).1
  · obtain ⟨hne, hrt⟩ := (hreg t').mp ht'
    exact (hready t').mpr ⟨hne, h.ready t' hrt⟩
  · rw [hr, Dict.get?_erase] at he'
    rw [he]
    split_ifs at he' with ht
    exact h.event_lt t' e he'
  · rw [hready, hreg, hs.ready_iff]
  · rw [hp, hreg, ← hs.open_iff]
    simp only [Pubsub.record, hok c.pubsub.calls t, Option.isNone_none, if_true, isOpen_unsubscribe]
    split_ifs with ht
    · simp [ht]
    · simp [Ne.symm ht]

variable (h : c.WellFormed)
include h

/-- `unsubscribe` removes the one registration; it raises only when the connection does. -/
theorem unsubscribe_spec (i : SubId) :
    ∃ r c', (unsubscribe i).exec c = (r, c') ∧ Removed c (fun j _ => j = i) c' ∧
      (c.pubsub.UnsubscribeOk → ∃ b, r = .ok b) := by
  cases hi : c.topicBySubscriptionId.get? i with
  | none =>
    have hn : c.find? i = none := (Index.find?_eq_none_iff h.consistent).mpr hi
    refine ⟨_, _, exec_unsubscribe_unknown hi, Removed.refl h fun j p hp hj => ?_, fun _ => ⟨_, rfl⟩⟩
    rw [hj, hn] at hp
    simp at hp
  | some t =>
    have ho : c.index.owner.get? i = some t := hi
    have hmem : ((c.index.bucket t).get? i).isSome := (h.consistent.owner_iff i t).mp ho
    obtain ⟨b, hb⟩ : ∃ b, c.subscriptionsByTopic.get? t = some b := by
      cases hb : c.subscriptionsByTopic.get? t with
      | none => simp [Index.bucket, index, hb] at hmem
      | some b => exact ⟨b, rfl⟩
    have hbk : c.index.bucket t = b := by simp [Index.bucket, index, hb]
    have hfe : ∀ j p, (c.index.eraseId i).find? j = some p ↔ c.find? j = some p ∧ ¬ j = i := by
      intro j p
      rw [Index.find?_eraseId h.consistent]
      unfold find?
      split_ifs with hj <;> simp [hj]
    have hce := h.consistent.eraseId i
    cases he : (b.erase i).isEmpty with
    | false =>
      refine ⟨_, _, exec_unsubscribe_shared hi hb he, ?_, fun _ => ⟨_, rfl⟩⟩
      have hix : c.index.eraseId i =
          ⟨c.subscriptionsByTopic.set t (b.erase i), c.topicBySubscriptionId.erase i⟩ := by
        simp [Index.eraseId, ho, hbk, he]; exact ⟨rfl, rfl⟩
      rw [hix] at hfe hce
      have hreg : ∀ t', ((c.subscriptionsByTopic.set t (b.erase i)).get? t').isSome ↔
          c.Registered t' := fun t' => by
        rw [Dict.get?_set, Registered]
        split_ifs with ht
        · simp [ht, hb]
        · rfl
      exact ⟨⟨hce, fun j p hj => h.fresh j p ((hfe j p).mp hj).1,
        fun j t' s hj => h.filed j t' s ((hfe j (t', s)).mp hj).1,
        fun t' ht' => h.ready t' ((hreg t').mp ht'), h.event_lt⟩, hfe, rfl, rfl, rfl,
        fun _ hs => ⟨fun t' => (hs.ready_iff t').trans (hreg t').symm,
          fun t' => (hs.open_iff t').trans (hreg t').symm⟩⟩
    | true =>
      refine ⟨_, _, exec_unsubscribe_last hi hb he, ?_, fun hok => ⟨true, ?_⟩⟩
      · have hix : c.index.eraseId i =
            ⟨(c.subscriptionsByTopic.set t (b.erase i)).erase t, c.topicBySubscriptionId.erase i⟩ := by
          simp [Index.eraseId, ho, hbk, he, Dict.erase_set_self]; exact ⟨rfl, rfl⟩
        rw [hix] at hfe hce
        exact removed_of_close h hce hfe
          (fun t' => by simp only [Dict.erase_set_self, Dict.get?_erase]) rfl rfl rfl rfl
      · rw [Pubsub.outcome_unsubscribe hok]; rfl

omit h in
/-- `unsubscribe_topic` on a topic without callbacks does nothing. -/
theorem unsubscribeTopic_unregistered {t : Topic} (ht : ¬ c.Registered t) :
    (unsubscribeTopic t).exec c = (.ok 0, c) := by
  exact exec_unsubscribeTopic_none (by simpa [Registered] using ht)

/-- `unsubscribe_topic` on a registered topic removes its callbacks and ends like its network call. -/
theorem unsubscribeTopic_registered {t : Topic} (ht : c.Registered t) :
    ∃ n c', (unsubscribeTopic t).exec c = ((c.pubsub.outcome (.unsubscribe t)).map fun _ => n, c') ∧
      Removed c (fun _ t' => t' = t) c' ∧ c'.pubsub = c.pubsub.record (.unsubscribe t) := by
  obtain ⟨b, hb⟩ := Option.isSome_iff_exists.mp ht
  have he := h.consistent.nonempty t b hb
  refine ⟨_, _, exec_unsubscribeTopic_some hb he, ?_, rfl⟩
  have hfe : ∀ i p, (c.index.eraseBucket t).find? i = some p ↔ c.find? i = some p ∧ ¬ p.1 = t := by
    intro i p
    rw [Index.find?_eraseBucket h.consistent, Option.filter_eq_some_iff]
    simp [find?]
  have hce := h.consistent.eraseBucket t
  have hix : c.index.eraseBucket t =
      ⟨c.subscriptionsByTopic.erase t, c.topicBySubscriptionId.eraseAll b.keys⟩ := by
    simp [Index.eraseBucket, Index.bucket, index, hb]
  rw [hix] at hfe hce
  exact removed_of_close h hce hfe (fun t' => Dict.get?_erase _ _ _) rfl rfl rfl rfl

theorem unsubscribeTopic_spec (t : Topic) :
    ∃ r c', (unsubscribeTopic t).exec c = (r, c') ∧ Removed c (fun _ t' => t' = t) c' ∧
      (c.pubsub.UnsubscribeOk → ∃ n, r = .ok n) := by
  by_cases ht : c.Registered t
  · obtain ⟨n, c', he, hr, -⟩ := unsubscribeTopic_registered h ht
    refine ⟨_, c', he, hr, fun hok => ⟨n, ?_⟩⟩
    rw [Pubsub.outcome_unsubscribe hok]; rfl
  · refine ⟨_, _, unsubscribeTopic_unregistered ht, Removed.refl h fun i p hp hg => ht ?_,
      fun _ => ⟨0, rfl⟩⟩
    exact (registered_iff h).mpr ⟨i, p.2, by rw [hp, ← hg]⟩

end Unsubscribe

/-! ## The listener's part -/

section Listener

theorem acknowledge_eq (t : Topic) (c : RedisSubClient χ) :
    (acknowledge t c).subscriptionsByTopic = c.subscriptionsByTopic ∧
      (acknowledge t c).topicBySubscriptionId = c.topicBySubscriptionId ∧
      (acknowledge t c).subscriptionReady = c.subscriptionReady ∧
      (acknowledge t c).pubsub = c.pubsub ∧ (acknowledge t c).nextUuid = c.nextUuid ∧
      (acknowledge t c).events.length = c.events.length := by
  unfold acknowledge
  cases c.subscriptionReady.get? t with
  | none => simp
  | some e => simp

@[simp] theorem find?_acknowledge (t : Topic) (c : RedisSubClient χ) (i : SubId) :
    (acknowledge t c).find? i = c.find? i := by
  obtain ⟨h1, h2, -⟩ := acknowledge_eq t c
  simp [find?, index, h1, h2]

theorem WellFormed.acknowledge (h : c.WellFormed) (t : Topic) :
    (RedisSubClient.acknowledge t c).WellFormed := by
  obtain ⟨h1, h2, h3, -, h5, h6⟩ := acknowledge_eq t c
  have hix : (RedisSubClient.acknowledge t c).index = c.index := by simp [index, h1, h2]
  refine ⟨hix ▸ h.consistent, fun i p hp => ?_, fun i t' s hs => ?_, fun t' ht' => ?_,
    fun t' e he => ?_⟩
  · rw [h5]; exact h.fresh i p (by simpa using hp)
  · exact h.filed i t' s (by simpa using hs)
  · rw [h3]; exact h.ready t' (by simpa [Registered, h1] using ht')
  · rw [h6]; exact h.event_lt t' e (h3 ▸ he)

end Listener

end RedisSubClient

end SlurmManager
