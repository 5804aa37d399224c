import SlurmManager.Lib.Runs
import SlurmManager.Tracking.Readiness

/-!
# ClientRuns — the client over whole histories

Any sequence of `subscribe`, `unsubscribe`, `unsubscribe_topic` and handled acknowledgements, with any
arguments; any call of the connection may raise.

* `ClientCall`, `Steps`: one call; `Returns`: it does not raise.
* `Counted`: what a returning call has sent, by the topics that gained or lost their callbacks.
* `client_index`: the two maps of registrations agree in every state, and where nothing raises they also
  agree with the connection.
-/

namespace SlurmManager

open Program

/-- A call of the client, or an acknowledgement that its listener handles. -/
inductive ClientCall (χ : Type)
  | subscribe (topic : Topic) (callback : χ)
  | unsubscribe (id : SubId)
  | unsubscribeTopic (topic : Topic)
  | acknowledge (topic : Topic)

namespace RedisSubClient

variable {χ : Type}

/-! ## The calls -/

/-- The call, without its result. -/
def call : ClientCall χ → Program PyError (RedisSubClient χ) Unit
  | .subscribe t cb => do
    let _ ← subscribe t cb
  | .unsubscribe i => do
    let _ ← unsubscribe i
  | .unsubscribeTopic t => do
    let _ ← unsubscribeTopic t
  | .acknowledge t => modify (acknowledge t)

/-- The call has been made; it may have raised. -/
def Steps (c : RedisSubClient χ) (l : ClientCall χ) (c' : RedisSubClient χ) : Prop := (call l).after c = c'

/-- The call does not raise. -/
def Returns (c : RedisSubClient χ) (l : ClientCall χ) : Prop := ((call l).exec c).1 = .ok ()

theorem after_ignore {σ α : Type} (x : Program PyError σ α) (s : σ) :
    (do
      let _ ← x : Program PyError σ Unit).after s = x.after s := by
  rw [after, after, exec_bind]
  rcases x.exec s with ⟨r, t⟩
  cases r <;> rfl

theorem exec_ignore {σ α : Type} (x : Program PyError σ α) (s : σ) :
    ((do
      let _ ← x : Program PyError σ Unit).exec s).1 = .ok () ↔ ∃ a, x.exec s = (.ok a, x.after s) := by
  rw [after, exec_bind]
  rcases x.exec s with ⟨r, t⟩
  cases r <;> simp

variable {c c' : RedisSubClient χ} {l : ClientCall χ}

/-- **Every call keeps the registrations consistent**, whether it raises or not. -/
theorem WellFormed.call (h : c.WellFormed) (hs : Steps c l c') : c'.WellFormed := by
  unfold Steps at hs
  subst hs
  cases l with
  | subscribe t cb =>
    rw [RedisSubClient.call, after_ignore]
    obtain ⟨cmds, hm⟩ := moved_subscribe h t cb
    exact hm.wellFormed
  | unsubscribe i =>
    rw [RedisSubClient.call, after_ignore]
    obtain ⟨cmds, hm⟩ := moved_unsubscribe h i
    exact hm.wellFormed
  | unsubscribeTopic t =>
    rw [RedisSubClient.call, after_ignore]
    obtain ⟨cmds, hm⟩ := moved_unsubscribeTopic h t
    exact hm.wellFormed
  | acknowledge t => exact h.acknowledge t

/-! ## Calls that return -/

/-- What a returning call has sent, and which topics gained or lost their callbacks. -/
structure Counted (c c' : RedisSubClient χ) (cmds : List Command) : Prop where
  sent : c'.pubsub.sent = c.pubsub.sent ++ cmds
  one : cmds.length ≤ 1
  subscribe_iff : ∀ t, .subscribe t ∈ cmds ↔ ¬ c.Registered t ∧ c'.Registered t
  unsubscribe_iff : ∀ t, .unsubscribe t ∈ cmds ↔ c.Registered t ∧ ¬ c'.Registered t
  ready_iff : ∀ t, (c'.subscriptionReady.get? t).isSome ↔
    .subscribe t ∈ cmds ∨ .unsubscribe t ∉ cmds ∧ (c.subscriptionReady.get? t).isSome

/-- Nothing is sent when the same topics are registered. -/
theorem counted_nil (hs : c'.pubsub.sent = c.pubsub.sent) (hr : ∀ t, c'.Registered t ↔ c.Registered t)
    (he : c'.subscriptionReady = c.subscriptionReady) : Counted c c' [] := by
  refine ⟨by rw [hs, List.append_nil], by simp, fun t => ?_, fun t => ?_, fun t => by simp [he]⟩
  · rw [hr]
    simp
  · rw [hr]
    simp

/-- A topic gets its first callback. -/
theorem counted_opened {t : Topic} (hs : c'.pubsub.sent = c.pubsub.sent ++ [.subscribe t]) (ht : ¬ c.Registered t)
    (hr : ∀ t', c'.Registered t' ↔ t' = t ∨ c.Registered t')
    (he : ∀ t', (c'.subscriptionReady.get? t').isSome ↔ t' = t ∨ (c.subscriptionReady.get? t').isSome) :
    Counted c c' [.subscribe t] := by
  refine ⟨hs, by simp, fun t' => ?_, fun t' => ?_, fun t' => ?_⟩
  · rw [hr, List.mem_singleton, Command.subscribe.injEq]
    constructor
    · rintro rfl
      exact ⟨ht, Or.inl rfl⟩
    · rintro ⟨hn, h | h⟩
      · exact h
      · exact absurd h hn
  · rw [hr]
    simp only [List.mem_singleton, reduceCtorEq, false_iff, not_and, not_not]
    exact Or.inr
  · rw [he]
    simp

/-- A topic loses its last callback. -/
theorem counted_closed {t : Topic} (hs : c'.pubsub.sent = c.pubsub.sent ++ [.unsubscribe t]) (ht : c.Registered t)
    (hr : ∀ t', c'.Registered t' ↔ t' ≠ t ∧ c.Registered t')
    (he : c'.subscriptionReady = c.subscriptionReady.erase t) : Counted c c' [.unsubscribe t] := by
  refine ⟨hs, by simp, fun t' => ?_, fun t' => ?_, fun t' => ?_⟩
  · rw [hr]
    simp only [List.mem_singleton, reduceCtorEq, false_iff, not_and]
    exact fun hn _ => hn
  · rw [hr, List.mem_singleton, Command.unsubscribe.injEq]
    constructor
    · rintro rfl
      exact ⟨ht, fun h => h.1 rfl⟩
    · rintro ⟨h, hn⟩
      by_contra hne
      exact hn ⟨hne, h⟩
  · rw [he, Dict.get?_erase]
    split_ifs with h
    · simp [h]
    · simp [h]

theorem sent_of_ok {p : Pubsub} {cmd : Command} (h : p.outcome cmd = .ok ()) :
    (p.record cmd).sent = p.sent ++ [cmd] := by
  rw [sent_record, Pubsub.outcome_eq_ok_iff.mp h]
  rfl

theorem counted_subscribe (t : Topic) (cb : χ) {i : SubId} (he : (subscribe t cb).exec c = (.ok i, c')) :
    ∃ cmds, Counted c c' cmds := by
  cases hb : c.subscriptionsByTopic.get? t with
  | some b =>
    rw [exec_subscribe_joined hb] at he
    obtain ⟨-, rfl⟩ := Prod.mk.inj he
    refine ⟨[], counted_nil rfl (fun t' => ?_) rfl⟩
    unfold Registered
    rw [Dict.get?_set]
    split_ifs with ht
    · simp [ht, hb]
    · rfl
  | none =>
    have hnot : ¬ c.Registered t := by simp [Registered, hb]
    cases hs : c.pubsub.outcome (.subscribe t) with
    | error e =>
      rw [exec_subscribe_raised hb hs] at he
      exact absurd (Prod.mk.inj he).1 (by simp)
    | ok u =>
      rw [exec_subscribe_opened hb hs] at he
      obtain ⟨-, rfl⟩ := Prod.mk.inj he
      refine ⟨_, counted_opened (sent_of_ok hs) hnot (fun t' => ?_) fun t' => ?_⟩
      · unfold Registered
        rw [Dict.get?_set]
        split_ifs with ht <;> simp [ht]
      · rw [Dict.get?_set]
        split_ifs with ht <;> simp [ht]

theorem counted_unsubscribe (h : c.WellFormed) {i : SubId} {r : Bool} (he : (unsubscribe i).exec c = (.ok r, c')) :
    (∃ cmds, Counted c c' cmds) ∧ (r = true ↔ (c.topicBySubscriptionId.get? i).isSome) := by
  cases hi : c.topicBySubscriptionId.get? i with
  | none =>
    rw [exec_unsubscribe_unknown hi] at he
    obtain ⟨hr, rfl⟩ := Prod.mk.inj he
    obtain rfl := Except.ok.inj hr
    exact ⟨⟨[], counted_nil rfl (fun _ => Iff.rfl) rfl⟩, by simp⟩
  | some t =>
    have hreg : c.Registered t := (registered_iff_topic h).mpr ⟨i, hi⟩
    obtain ⟨b, hb⟩ := Option.isSome_iff_exists.mp hreg
    cases hempty : (b.erase i).isEmpty with
    | false =>
      rw [exec_unsubscribe_shared hi hb hempty] at he
      obtain ⟨hr, rfl⟩ := Prod.mk.inj he
      obtain rfl := Except.ok.inj hr
      refine ⟨⟨[], counted_nil rfl (fun t' => ?_) rfl⟩, by simp⟩
      unfold Registered
      rw [Dict.get?_set]
      split_ifs with ht
      · simp [ht, hb]
      · rfl
    | true =>
      rw [exec_unsubscribe_last hi hb hempty] at he
      obtain ⟨hr, rfl⟩ := Prod.mk.inj he
      cases ho : c.pubsub.outcome (.unsubscribe t) with
      | error e =>
        rw [ho] at hr
        simp [Except.map] at hr
      | ok u =>
        rw [ho] at hr
        obtain rfl := Except.ok.inj hr
        refine ⟨⟨_, counted_closed (sent_of_ok ho) hreg (fun t' => ?_) rfl⟩, by simp⟩
        unfold Registered
        rw [Dict.erase_set_self, Dict.get?_erase]
        split_ifs with ht <;> simp [ht]

theorem counted_unsubscribeTopic (h : c.WellFormed) {t : Topic} {n : ℕ}
    (he : (unsubscribeTopic t).exec c = (.ok n, c')) :
    (∃ cmds, Counted c c' cmds) ∧ n = ((c.subscriptionsByTopic.get? t).getD ∅).keys.length ∧ ¬ c'.Registered t := by
  cases hb : c.subscriptionsByTopic.get? t with
  | none =>
    rw [exec_unsubscribeTopic_none hb] at he
    obtain ⟨hn, rfl⟩ := Prod.mk.inj he
    obtain rfl := Except.ok.inj hn
    exact ⟨⟨[], counted_nil rfl (fun _ => Iff.rfl) rfl⟩, rfl, by simp [Registered, hb]⟩
  | some b =>
    have hreg : c.Registered t := by simp [Registered, hb]
    rw [exec_unsubscribeTopic_some hb (h.consistent.nonempty t b hb)] at he
    obtain ⟨hn, rfl⟩ := Prod.mk.inj he
    cases ho : c.pubsub.outcome (.unsubscribe t) with
    | error e =>
      rw [ho] at hn
      simp [Except.map] at hn
    | ok u =>
      rw [ho] at hn
      obtain rfl := Except.ok.inj hn
      refine ⟨⟨_, counted_closed (sent_of_ok ho) hreg (fun t' => ?_) rfl⟩, rfl, by simp [Registered]⟩
      unfold Registered
      rw [Dict.get?_erase]
      split_ifs with ht <;> simp [ht]

/-- A returning call, whichever. -/
theorem WellFormed.counted (h : c.WellFormed) (hr : Returns c l) (hs : Steps c l c') : ∃ cmds, Counted c c' cmds := by
  unfold Steps at hs
  unfold Returns at hr
  subst hs
  cases l with
  | subscribe t cb =>
    obtain ⟨i, he⟩ := (exec_ignore _ c).mp hr
    rw [RedisSubClient.call, after_ignore]
    exact counted_subscribe t cb he
  | unsubscribe i =>
    obtain ⟨r, he⟩ := (exec_ignore _ c).mp hr
    rw [RedisSubClient.call, after_ignore]
    exact (counted_unsubscribe h he).1
  | unsubscribeTopic t =>
    obtain ⟨n, he⟩ := (exec_ignore _ c).mp hr
    rw [RedisSubClient.call, after_ignore]
    exact (counted_unsubscribeTopic h he).1
  | acknowledge t =>
    obtain ⟨h1, -, h3, h4, -⟩ := acknowledge_eq t c
    refine ⟨[], counted_nil (congrArg Pubsub.sent h4) (fun t' => ?_) h3⟩
    show ((RedisSubClient.acknowledge t c).subscriptionsByTopic.get? t').isSome ↔ _
    rw [h1]
    rfl

/-- Connection, ready events and registrations stay together. -/
theorem Counted.synced {cmds : List Command} (hc : Counted c c' cmds) (hs : c.Synced) : c'.Synced := by
  have hready : ∀ t, (c'.subscriptionReady.get? t).isSome ↔ c'.Registered t := by
    intro t
    rw [hc.ready_iff, hc.subscribe_iff, hc.unsubscribe_iff, hs.ready_iff]
    tauto
  refine ⟨hready, fun t => ?_⟩
  have hsub := hc.subscribe_iff t
  have hun := hc.unsubscribe_iff t
  have hopen := hs.open_iff t
  rw [hc.sent]
  match cmds, hc.one with
  | [], _ =>
    rw [List.append_nil, hopen]
    simp at hsub hun
    tauto
  | [.subscribe t'], _ =>
    rw [isOpen_subscribe]
    split_ifs with ht
    · subst ht
      simp at hsub
      simp [hsub.2]
    · simp [Ne.symm ht] at hsub hun
      tauto
  | [.unsubscribe t'], _ =>
    rw [isOpen_unsubscribe]
    split_ifs with ht
    · subst ht
      simp at hun
      simp [hun.2]
    · simp [Ne.symm ht] at hsub hun
      tauto

/-! ## Histories -/

/-- `RedisSubClient(...)`. -/
structure New (c : RedisSubClient χ) : Prop where
  subscriptionsByTopic : c.subscriptionsByTopic = ∅
  topicBySubscriptionId : c.topicBySubscriptionId = ∅
  subscriptionReady : c.subscriptionReady = ∅
  sent : c.pubsub.sent = []

/-- What every history keeps. -/
theorem New.run {c₀ : RedisSubClient χ} {ok : RedisSubClient χ → ClientCall χ → Prop} {ls : List (ClientCall χ)}
    (h₀ : New c₀) (hrun : Run Steps ok c₀ ls c) : c.WellFormed :=
  hrun.invariant (wellFormed_of_empty h₀.subscriptionsByTopic h₀.topicBySubscriptionId h₀.subscriptionReady)
    fun _ _ _ h _ hs => h.call hs

/-- What every history keeps in which nothing raises. -/
theorem New.run_synced {c₀ : RedisSubClient χ} {ls : List (ClientCall χ)} (h₀ : New c₀)
    (hrun : Run Steps Returns c₀ ls c) : c.Synced := by
  refine (hrun.invariant (I := fun c => c.WellFormed ∧ c.Synced) ⟨?_, ?_⟩ fun _ _ _ h hr hs => ?_).2
  · exact wellFormed_of_empty h₀.subscriptionsByTopic h₀.topicBySubscriptionId h₀.subscriptionReady
  · exact synced_of_empty h₀.subscriptionsByTopic h₀.subscriptionReady h₀.sent
  · obtain ⟨cmds, hc⟩ := h.1.counted hr hs
    exact ⟨h.1.call hs, hc.synced h.2⟩

/-- **The index of the client.**  After any history an id maps to a topic exactly if it is among the callbacks
of that topic, and no topic has an empty set of callbacks.  After a history in which nothing raises, the
open channels are the registered topics and the topics with a ready event; the next call, if it does not raise
either, sends a SUBSCRIBE exactly for a topic that gets its first callback and an UNSUBSCRIBE exactly for a
topic that loses its last; and both removals return what they removed. -/
theorem client_index {c₀ : RedisSubClient χ} (h₀ : New c₀) :
    (∀ ls c, Run Steps (fun _ _ => True) c₀ ls c →
      (∀ i t, c.topicBySubscriptionId.get? i = some t ↔
        ∃ b, c.subscriptionsByTopic.get? t = some b ∧ (b.get? i).isSome) ∧
      ∀ t b, c.subscriptionsByTopic.get? t = some b → b.isEmpty = false) ∧
    ∀ ls c, Run Steps Returns c₀ ls c →
      (∀ t, isOpen c.pubsub.sent t = true ↔ t ∈ c.registeredTopics) ∧
      (∀ t, t ∈ c.subscriptionReady.keys ↔ t ∈ c.registeredTopics) ∧
      (∀ l c', Returns c l → Steps c l c' → ∃ cmds, c'.pubsub.sent = c.pubsub.sent ++ cmds ∧ cmds.length ≤ 1 ∧
        (∀ t, .subscribe t ∈ cmds ↔ t ∉ c.registeredTopics ∧ t ∈ c'.registeredTopics) ∧
        ∀ t, .unsubscribe t ∈ cmds ↔ t ∈ c.registeredTopics ∧ t ∉ c'.registeredTopics) ∧
      (∀ i r c', (unsubscribe i).exec c = (.ok r, c') → (r = true ↔ (c.topicBySubscriptionId.get? i).isSome)) ∧
      ∀ t n c', (unsubscribeTopic t).exec c = (.ok n, c') →
        n = ((c.subscriptionsByTopic.get? t).getD ∅).keys.length ∧ c'.subscriptionsByTopic.get? t = none := by
  have hkeys : ∀ (d : RedisSubClient χ) t, t ∈ d.registeredTopics ↔ d.Registered t := fun d t => Dict.mem_keys_iff
  constructor
  · intro ls c hrun
    have h := h₀.run hrun
    refine ⟨fun i t => ?_, h.consistent.nonempty⟩
    refine (h.consistent.owner_iff i t).trans ?_
    show (((c.subscriptionsByTopic.get? t).getD ∅).get? i).isSome ↔ _
    cases c.subscriptionsByTopic.get? t <;> simp
  · intro ls c hrun
    have h := h₀.run hrun
    have hs := h₀.run_synced hrun
    refine ⟨fun t => ?_, fun t => ?_, fun l c' hr hstep => ?_, fun i r c' he => ?_, fun t n c' he => ?_⟩
    · rw [hs.open_iff, hkeys]
    · rw [Dict.mem_keys_iff, hs.ready_iff, hkeys]
    · obtain ⟨cmds, hc⟩ := h.counted hr hstep
      refine ⟨cmds, hc.sent, hc.one, fun t => ?_, fun t => ?_⟩
      · rw [hc.subscribe_iff, hkeys, hkeys]
      · rw [hc.unsubscribe_iff, hkeys, hkeys]
    · exact (counted_unsubscribe h he).2
    · obtain ⟨-, hn, hreg⟩ := counted_unsubscribeTopic h he
      exact ⟨hn, Option.not_isSome_iff_eq_none.mp hreg⟩

/-- A topic that two callbacks share, and a removal of each. -/
theorem client_index_of_shared : ∃ c : RedisSubClient Unit,
    Run Steps Returns ({ pubsub := { failure := fun _ _ => none } } : RedisSubClient Unit)
      [.subscribe "t" (), .subscribe "t" (), .unsubscribe 0, .unsubscribe 1] c ∧
    c.pubsub.sent = [.subscribe "t", .unsubscribe "t"] ∧ (isOpen c.pubsub.sent "t" = true ↔ "t" ∈ c.registeredTopics) := by
  have hrun : Run Steps Returns ({ pubsub := { failure := fun _ _ => none } } : RedisSubClient Unit)
      [.subscribe "t" (), .subscribe "t" (), .unsubscribe 0, .unsubscribe 1] _ :=
    .cons rfl rfl (.cons rfl rfl (.cons rfl rfl (.single rfl rfl)))
  exact ⟨_, hrun, by decide, ((client_index ⟨rfl, rfl, rfl, rfl⟩).2 _ _ hrun).1 "t"⟩

end RedisSubClient

end SlurmManager
