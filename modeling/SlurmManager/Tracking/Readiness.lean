import SlurmManager.Lib.Runs
import SlurmManager.Tracking.ClientInvariant

/-!
# Readiness — acknowledgements between the server and `wait_until_subscribed`

The client with its connection: the server takes the commands in the order in which they were sent and
answers each of them, the listener thread reads the answers in the same order, and any number of threads
wait for ready events.  An answer names its topic and nothing else; a ready event belongs to one
registration of the topic.

* `Link.step`: the interleavings of client calls, server, listener and waits.
* `returned_processed`: a wait that returns is right about the server, as long as no acknowledgement is
  handled that is older than the registration of its topic.
* `early_return`: from a step that does handle one, a wait is wrong at once.
-/

namespace SlurmManager

/-! ## Commands on their way -/

section Commands

/-- What lies between the client and its listener: the server has taken `processed` commands; it has sent
the answers `wire`; the listener has read the answer `held` and not yet handled it. -/
structure Wire where
  processed : ℕ := 0
  answers : List Command := []
  held : Option Command := none

namespace Wire

/-- The server takes the next command and answers it. -/
def serve (sent : List Command) (w : Wire) : Option Wire :=
  match sent[w.processed]? with
  | some cmd => some { w with processed := w.processed + 1, answers := w.answers ++ [cmd] }
  | none => none

/-- The listener reads the next answer. -/
def read (w : Wire) : Option Wire :=
  match w.held, w.answers with
  | none, cmd :: rest => some { w with answers := rest, held := some cmd }
  | _, _ => none

/-- The commands that the server has not taken. -/
def pending (sent : List Command) (w : Wire) : List Command := sent.drop w.processed

end Wire

/-- The last SUBSCRIBE of the topic: the command of its registration, if it is registered. -/
def IsCurrent (sent : List Command) (t : Topic) (k : ℕ) : Prop :=
  sent[k]? = some (.subscribe t) ∧ ∀ m, k < m → sent[m]? ≠ some (.subscribe t)

theorem exists_isCurrent {sent : List Command} {t : Topic} (h : .subscribe t ∈ sent) : ∃ k, IsCurrent sent t k := by
  induction sent using List.reverseRecOn with
  | nil => simp at h
  | append_singleton sent cmd ih =>
    by_cases hc : cmd = .subscribe t
    · refine ⟨sent.length, by simp [hc], fun m hm => ?_⟩
      rw [List.getElem?_eq_none (by simp; omega)]
      simp
    · obtain ⟨k, hk, hlast⟩ := ih (by simpa [Ne.symm hc] using h)
      have hlt := (List.getElem?_eq_some_iff.mp hk).1
      refine ⟨k, by rw [List.getElem?_append_left hlt, hk], fun m hm => ?_⟩
      by_cases hml : m < sent.length
      · rw [List.getElem?_append_left hml]
        exact hlast m hm
      · rw [List.getElem?_append_right (by omega)]
        intro hcmd
        have hmem := List.mem_of_getElem? hcmd
        exact hc (List.mem_singleton.mp hmem).symm

/-- The last SUBSCRIBE is among the first `n` commands exactly if none comes later. -/
theorem isCurrent_lt_iff {sent : List Command} {t : Topic} (h : .subscribe t ∈ sent) (n : ℕ) :
    (∃ k < n, IsCurrent sent t k) ↔ .subscribe t ∉ sent.drop n := by
  constructor
  · rintro ⟨k, hk, -, hlast⟩ hmem
    obtain ⟨m, hm⟩ := List.mem_iff_getElem?.mp hmem
    rw [List.getElem?_drop] at hm
    exact hlast (n + m) (by omega) hm
  · intro hdrop
    obtain ⟨k, hk⟩ := exists_isCurrent h
    refine ⟨k, ?_, hk⟩
    by_contra hn
    apply hdrop
    apply List.mem_of_getElem? (i := k - n)
    rw [List.getElem?_drop, show n + (k - n) = k by omega]
    exact hk.1

theorem Wire.pending_append {sent cmds : List Command} {w : Wire} (h : w.processed ≤ sent.length) :
    w.pending (sent ++ cmds) = w.pending sent ++ cmds := by
  unfold Wire.pending
  rw [List.drop_append_of_le_length h]

end Commands

/-! ## The calls of the client -/

namespace RedisSubClient

variable {χ : Type} {c : RedisSubClient χ}

/-- The ready event of a topic is set. -/
def Ready (c : RedisSubClient χ) (t : Topic) : Prop :=
  ∃ e : ℕ, c.subscriptionReady.get? t = some e ∧ c.events[e]? = some true

/-- No event belongs to two topics. -/
def Distinct (c : RedisSubClient χ) : Prop :=
  ∀ t t' (e : ℕ), c.subscriptionReady.get? t = some e → c.subscriptionReady.get? t' = some e → t = t'

/-- What a call that sent `cmds` did to the ready events. -/
structure Moved (c : RedisSubClient χ) (cmds : List Command) (c' : RedisSubClient χ) : Prop where
  wellFormed : c'.WellFormed
  sent : c'.pubsub.sent = c.pubsub.sent ++ cmds
  events : ∀ e < c.events.length, c'.events[e]? = c.events[e]?
  distinct : c.Distinct → c'.Distinct
  /-- A topic that stays registered keeps its event, and is not subscribed. -/
  steady : ∀ t, c.Registered t → c'.Registered t →
    c'.subscriptionReady.get? t = c.subscriptionReady.get? t ∧ .subscribe t ∉ cmds
  /-- A topic that gets registered is subscribed, and not ready. -/
  opened : ∀ t, ¬ c.Registered t → c'.Registered t → .subscribe t ∈ cmds ∧ ¬ c'.Ready t

section Moves

theorem sent_record (p : Pubsub) (cmd : Command) :
    (p.record cmd).sent = p.sent ++ if (p.failure p.calls cmd).isNone then [cmd] else [] := by
  unfold Pubsub.record
  split_ifs <;> simp

theorem Moved.refl (h : c.WellFormed) : Moved c [] c :=
  ⟨h, (List.append_nil _).symm, fun _ _ => rfl, id, fun _ _ _ => ⟨rfl, by simp⟩, fun _ h h' => absurd h' h⟩

variable (h : c.WellFormed)
include h

/-- A new event at the end of the list leaves the events distinct. -/
theorem distinct_newReady (hd : c.Distinct) {t : Topic} {c' : RedisSubClient χ}
    (hr : c'.subscriptionReady = c.subscriptionReady.set t c.events.length) : c'.Distinct := by
  intro t₁ t₂ e h₁ h₂
  rw [hr, Dict.get?_set] at h₁ h₂
  split_ifs at h₁ h₂ with he₁ he₂ he₂
  · rw [he₁, he₂]
  · have := h.event_lt _ _ h₂
    obtain rfl : c.events.length = e := Option.some.inj h₁
    omega
  · have := h.event_lt _ _ h₁
    obtain rfl : c.events.length = e := Option.some.inj h₂
    omega
  · exact hd _ _ _ h₁ h₂

/-- A call that gave a topic without callbacks a new ready event. -/
theorem moved_of_newReady {t : Topic} {c' : RedisSubClient χ} {cmds : List Command} (hw : c'.WellFormed)
    (ht : ¬ c.Registered t) (hr : c'.subscriptionReady = c.subscriptionReady.set t c.events.length)
    (he : c'.events = c.events ++ [false]) (hs : c'.pubsub.sent = c.pubsub.sent ++ cmds)
    (hreg : ∀ t', c'.Registered t' → c.Registered t' ∨ (t' = t ∧ .subscribe t ∈ cmds))
    (hc : ∀ t', .subscribe t' ∈ cmds → t' = t) : Moved c cmds c' := by
  refine ⟨hw, hs, fun e hlt => ?_, fun hd => distinct_newReady h hd hr, fun t' h₁ h₂ => ?_, fun t' h₁ h₂ => ?_⟩
  · rw [he, List.getElem?_append_left hlt]
  · have hne : t' ≠ t := fun hne => ht (hne ▸ h₁)
    refine ⟨?_, fun hm => hne (hc t' hm)⟩
    rw [hr, Dict.get?_set_ne _ _ hne]
  · obtain hold | ⟨rfl, hm⟩ := hreg t' h₂
    · exact absurd hold h₁
    · refine ⟨hm, ?_⟩
      rintro ⟨e, hev, hset⟩
      rw [hr, Dict.get?_set_self] at hev
      obtain rfl : c.events.length = e := Option.some.inj hev
      rw [he] at hset
      simp at hset

theorem moved_subscribe (t : Topic) (cb : χ) : ∃ cmds, Moved c cmds ((subscribe t cb).after c) := by
  by_cases ht : c.Registered t
  · obtain ⟨b, hb⟩ := Option.isSome_iff_exists.mp ht
    obtain ⟨c', he, hs⟩ := subscribe_joined h t cb ht
    have hc : (subscribe t cb).after c = c' := by rw [Program.after, he]
    have hc' := congrArg Prod.snd (he.symm.trans (exec_subscribe_joined hb))
    dsimp only at hc'
    rw [hc]
    have hreg : ∀ t', c'.Registered t' → c.Registered t' := by
      intro t' ht'
      rw [hc'] at ht'
      unfold Registered at ht' ⊢
      rw [Dict.get?_set] at ht'
      split_ifs at ht' with hne
      · rw [hne, hb]
        rfl
      · exact ht'
    refine ⟨[], hs.wellFormed, ?_, ?_, ?_, ?_, fun t' h' ht' => absurd (hreg t' ht') h'⟩
    · rw [hc', List.append_nil]
    · intro e _
      rw [hc']
    · intro hd
      rw [hc']
      exact hd
    · intro t' _ _
      rw [hc']
      exact ⟨rfl, by simp⟩
  · have hb : c.subscriptionsByTopic.get? t = none := by simpa [Registered] using ht
    cases ho : c.pubsub.outcome (.subscribe t) with
    | ok u =>
      obtain ⟨c', he, hs⟩ := subscribe_opened h t cb ht ho
      have hc : (subscribe t cb).after c = c' := by rw [Program.after, he]
      have hc' := congrArg Prod.snd (he.symm.trans (exec_subscribe_opened hb ho))
      dsimp only at hc'
      have hf := Pubsub.outcome_eq_ok_iff.mp ho
      have hsent : c'.pubsub.sent = c.pubsub.sent ++ [.subscribe t] := by
        rw [hc', sent_record, hf]
        rfl
      rw [hc]
      refine ⟨_, moved_of_newReady h hs.wellFormed ht (by rw [hc']) (by rw [hc']) hsent ?_ (by simp)⟩
      intro t' ht'
      rw [hc'] at ht'
      unfold Registered at ht' ⊢
      rw [Dict.get?_set] at ht'
      split_ifs at ht' with hne
      · exact Or.inr ⟨hne, by simp⟩
      · exact Or.inl ht'
    | error e =>
      obtain ⟨c', he, hr⟩ := subscribe_raised h t cb ht ho
      have hc : (subscribe t cb).after c = c' := by rw [Program.after, he]
      have hc' := congrArg Prod.snd (he.symm.trans (exec_subscribe_raised hb ho))
      dsimp only at hc'
      rw [hc]
      refine ⟨_, moved_of_newReady h hr.wellFormed ht (by rw [hc']) (by rw [hc']) (by rw [hc', sent_record]) ?_ ?_⟩
      · intro t' ht'
        rw [hc'] at ht'
        exact Or.inl ht'
      · intro t'
        split_ifs <;> simp

/-- A removal that keeps the events of the topics that stay registered. -/
theorem moved_of_removed {gone : SubId → Topic → Prop} {c' : RedisSubClient χ} {cmds : List Command}
    (hr : Removed c gone c') (hs : c'.pubsub.sent = c.pubsub.sent ++ cmds) (hc : ∀ t, .subscribe t ∉ cmds)
    (hready : ∀ t, c'.Registered t → c'.subscriptionReady.get? t = c.subscriptionReady.get? t)
    (hsub : ∀ t (e : ℕ), c'.subscriptionReady.get? t = some e → c.subscriptionReady.get? t = some e) :
    Moved c cmds c' := by
  refine ⟨hr.wellFormed, hs, fun e _ => by rw [hr.events], ?_, fun t _ ht => ⟨hready t ht, hc t⟩, ?_⟩
  · intro hd t t' e h₁ h₂
    exact hd t t' e (hsub t e h₁) (hsub t' e h₂)
  · intro t hn ht
    obtain ⟨i, s, hf⟩ := (registered_iff hr.wellFormed).mp ht
    exact absurd ((registered_iff h).mpr ⟨i, s, ((hr.find?_iff i _).mp hf).1⟩) hn

/-- A removal that closed a topic. -/
theorem moved_of_closed {gone : SubId → Topic → Prop} {t : Topic} {c' : RedisSubClient χ} (hr : Removed c gone c')
    (ht : c'.subscriptionsByTopic.get? t = none) (hready : c'.subscriptionReady = c.subscriptionReady.erase t)
    (hp : c'.pubsub = c.pubsub.record (.unsubscribe t)) : ∃ cmds, Moved c cmds c' := by
  refine ⟨_, moved_of_removed h hr (by rw [hp, sent_record]) ?_ ?_ ?_⟩
  · intro t'
    split_ifs <;> simp
  · intro t' ht'
    have hne : t' ≠ t := by
      rintro rfl
      unfold Registered at ht'
      rw [ht] at ht'
      simp at ht'
    rw [hready, Dict.get?_erase_ne _ hne]
  · intro t' e he
    rw [hready, Dict.get?_erase] at he
    split_ifs at he
    exact he

theorem moved_unsubscribe (i : SubId) : ∃ cmds, Moved c cmds ((unsubscribe i).after c) := by
  obtain ⟨r, c', he, hr, -⟩ := unsubscribe_spec h i
  have hc : (unsubscribe i).after c = c' := by rw [Program.after, he]
  rw [hc]
  cases hi : c.topicBySubscriptionId.get? i with
  | none =>
    obtain rfl := congrArg Prod.snd (he.symm.trans (exec_unsubscribe_unknown hi))
    exact ⟨[], Moved.refl h⟩
  | some t =>
    obtain ⟨b, hb⟩ := Option.isSome_iff_exists.mp ((registered_iff_topic h).mpr ⟨i, hi⟩)
    cases hempty : (b.erase i).isEmpty with
    | false =>
      have hc' := congrArg Prod.snd (he.symm.trans (exec_unsubscribe_shared hi hb hempty))
      dsimp only at hc'
      refine ⟨[], moved_of_removed h hr (by rw [hc', List.append_nil]) (by simp) ?_ ?_⟩
      · intro t' _
        rw [hc']
      · intro t' e h'
        rwa [hc'] at h'
    | true =>
      have hc' := congrArg Prod.snd (he.symm.trans (exec_unsubscribe_last hi hb hempty))
      dsimp only at hc'
      exact moved_of_closed h hr (by rw [hc', Dict.get?_erase_self]) (by rw [hc']) (by rw [hc'])

theorem moved_unsubscribeTopic (t : Topic) : ∃ cmds, Moved c cmds ((unsubscribeTopic t).after c) := by
  by_cases ht : c.Registered t
  · obtain ⟨n, c', he, hr, -⟩ := unsubscribeTopic_registered h ht
    have hc : (unsubscribeTopic t).after c = c' := by rw [Program.after, he]
    obtain ⟨b, hb⟩ := Option.isSome_iff_exists.mp ht
    have hc' := congrArg Prod.snd (he.symm.trans (exec_unsubscribeTopic_some hb (h.consistent.nonempty t b hb)))
    dsimp only at hc'
    rw [hc]
    exact moved_of_closed h hr (by rw [hc', Dict.get?_erase_self]) (by rw [hc']) (by rw [hc'])
  · have hc : (unsubscribeTopic t).after c = c := by rw [Program.after, unsubscribeTopic_unregistered ht]
    rw [hc]
    exact ⟨[], Moved.refl h⟩

end Moves

end RedisSubClient

/-! ## The parties -/

/-- Where a call of `wait_until_subscribed` stands: about to wait for the first event of the list. -/
inductive Wait
  | idle
  | waiting (topics : List Topic) (ready : List (Topic × EventRef))
  | returned (topics : List Topic)
  | raised (e : PyError)

/-- The topics that the call is about, and what it has yet to wait for, if it goes well. -/
def Wait.left : Wait → Option (List Topic × List (Topic × EventRef))
  | .waiting topics ready => some (topics, ready)
  | .returned topics => some (topics, [])
  | _ => none

/-- The client, the connection to the server, and the calls of `wait_until_subscribed`. -/
structure Link (χ : Type) where
  client : RedisSubClient χ
  wire : Wire := {}
  waits : ℕ → Wait := fun _ => .idle

namespace Link

/-- What a party does next. -/
inductive Label (χ : Type)
  | subscribe (topic : Topic) (callback : χ)
  | unsubscribe (id : SubId)
  | unsubscribeTopic (topic : Topic)
  /-- The server takes a command. -/
  | serve
  /-- The listener reads an acknowledgement from the connection. -/
  | read
  /-- The listener handles the acknowledgement that it has read. -/
  | handle
  /-- First section of `wait_until_subscribed`: the look-up of the ready events. -/
  | startWait (n : ℕ) (topics : List Topic)
  /-- `event.wait` returns true. -/
  | wake (n : ℕ)
  /-- `event.wait` runs out of time. -/
  | timeout (n : ℕ)

variable {χ : Type}

open RedisSubClient Program

def sent (s : Link χ) : List Command := s.client.pubsub.sent

def goto (s : Link χ) (n : ℕ) (w : Wait) : Link χ := { s with waits := Function.update s.waits n w }

/-- The listener's branch on the kind of the acknowledgement. -/
def acknowledged (cmd : Command) (c : RedisSubClient χ) : RedisSubClient χ :=
  match cmd with
  | .subscribe t => acknowledge t c
  | .unsubscribe _ => c

def step (s : Link χ) : Label χ → Option (Link χ)
  | .subscribe t cb => some { s with client := (subscribe t cb).after s.client }
  | .unsubscribe i => some { s with client := (unsubscribe i).after s.client }
  | .unsubscribeTopic t => some { s with client := (unsubscribeTopic t).after s.client }
  | .serve => (s.wire.serve s.sent).map fun w => { s with wire := w }
  | .read => s.wire.read.map fun w => { s with wire := w }
  | .handle => s.wire.held.map fun cmd =>
      { s with client := acknowledged cmd s.client, wire := { s.wire with held := none } }
  | .startWait n topics =>
    match s.waits n with
    | .idle =>
      match (readyEvents topics).exec s.client with
      | (.ok ready, _) => some (s.goto n (.waiting topics ready))
      | (.error e, _) => some (s.goto n (.raised e))
    | _ => none
  | .wake n =>
    match s.waits n with
    | .waiting topics [] => some (s.goto n (.returned topics))
    | .waiting topics ((_, e) :: ready) =>
      if s.client.events[e]? = some true then some (s.goto n (.waiting topics ready)) else none
    | _ => none
  | .timeout n =>
    match s.waits n with
    | .waiting _ ((t, e) :: _) =>
      if s.client.events[e]? = some true then none
      else some (s.goto n (.raised ⟨.timeoutError, "Redis did not acknowledge subscription to " ++ t⟩))
    | _ => none

def Steps (s : Link χ) (l : Label χ) (s' : Link χ) : Prop := s.step l = some s'

/-- A new client on a new connection. -/
structure Initial (s : Link χ) : Prop where
  maps : s.client.subscriptionsByTopic = ∅ ∧ s.client.topicBySubscriptionId = ∅ ∧ s.client.subscriptionReady = ∅
  sent : s.sent = []
  wire : s.wire = {}
  waits : ∀ n, s.waits n = .idle

/-- The server has taken the SUBSCRIBE command of the topic's registration. -/
def Processed (s : Link χ) (t : Topic) : Prop := ∃ k < s.wire.processed, IsCurrent s.sent t k

/-- The step handles no acknowledgement of a registered topic while the server has yet to take a SUBSCRIBE
of that topic. -/
def Timely (s : Link χ) (l : Label χ) : Prop :=
  l = .handle → ∀ t, s.wire.held = some (.subscribe t) → s.client.Registered t →
    .subscribe t ∉ s.wire.pending s.sent

/-! ## What every step keeps -/

/-- The invariant of the client and the connection. -/
structure Inv (s : Link χ) : Prop where
  client : s.client.WellFormed
  distinct : s.client.Distinct
  bound : s.wire.processed ≤ s.sent.length
  sent : ∀ t, s.client.Registered t → .subscribe t ∈ s.sent
  /-- A ready event is set when the server has taken every SUBSCRIBE of its topic. -/
  honest : ∀ t, s.client.Registered t → s.client.Ready t → .subscribe t ∉ s.wire.pending s.sent

section Kept

variable {s s' : Link χ}

theorem Inv.moved (h : s.Inv) {c : RedisSubClient χ} {cmds : List Command} (hm : Moved s.client cmds c) :
    Inv { s with client := c } := by
  have hpending : s.wire.pending c.pubsub.sent = s.wire.pending s.sent ++ cmds := by
    rw [hm.sent]
    exact Wire.pending_append h.bound
  refine ⟨hm.wellFormed, hm.distinct h.distinct, ?_, fun t ht => ?_, fun t ht hr => ?_⟩
  · show s.wire.processed ≤ c.pubsub.sent.length
    rw [hm.sent, List.length_append]
    exact Nat.le_add_right_of_le h.bound
  · show _ ∈ c.pubsub.sent
    rw [hm.sent]
    by_cases hold : s.client.Registered t
    · exact List.mem_append_left _ (h.sent t hold)
    · exact List.mem_append_right _ (hm.opened t hold ht).1
  · show _ ∉ s.wire.pending c.pubsub.sent
    by_cases hold : s.client.Registered t
    · obtain ⟨hready, hcmds⟩ := hm.steady t hold ht
      have hr' : s.client.Ready t := by
        obtain ⟨e, he, hset⟩ := hr
        rw [hready] at he
        refine ⟨e, he, ?_⟩
        rw [← hm.events e (h.client.event_lt t e he)]
        exact hset
      rw [hpending, List.mem_append, not_or]
      exact ⟨h.honest t hold hr', hcmds⟩
    · exact absurd hr (hm.opened t hold ht).2

/-- An acknowledgement sets the event of its topic and touches nothing else. -/
theorem ready_acknowledge {c : RedisSubClient χ} (hd : c.Distinct) {t t' : Topic} (h : (acknowledge t c).Ready t') :
    t' = t ∨ c.Ready t' := by
  unfold acknowledge at h
  cases ht : c.subscriptionReady.get? t with
  | none =>
    rw [ht] at h
    exact Or.inr h
  | some e₀ =>
    rw [ht] at h
    obtain ⟨e, he, hset⟩ := h
    by_cases hee : e = e₀
    · exact Or.inl (hd t' t e he (hee ▸ ht))
    · refine Or.inr ⟨e, he, ?_⟩
      rwa [List.getElem?_set_ne (Ne.symm hee)] at hset

theorem Inv.handle (h : s.Inv) {cmd : Command} (hheld : s.wire.held = some cmd) (ht : s.Timely .handle) :
    Inv { s with client := acknowledged cmd s.client, wire := { s.wire with held := none } } := by
  cases cmd with
  | unsubscribe t => exact ⟨h.client, h.distinct, h.bound, h.sent, h.honest⟩
  | subscribe t =>
    obtain ⟨h1, -, h3, h4, -, -⟩ := acknowledge_eq t s.client
    have hreg : ∀ t', (acknowledge t s.client).Registered t' ↔ s.client.Registered t' := by
      intro t'
      unfold Registered
      rw [h1]
    have hsent : (acknowledge t s.client).pubsub.sent = s.sent := congrArg Pubsub.sent h4
    refine ⟨h.client.acknowledge t, ?_, ?_, fun t' ht' => ?_, fun t' ht' hr => ?_⟩
    · intro t₁ t₂ e h₁ h₂
      exact h.distinct t₁ t₂ e (by rw [← h3]; exact h₁) (by rw [← h3]; exact h₂)
    · show s.wire.processed ≤ (acknowledge t s.client).pubsub.sent.length
      rw [hsent]
      exact h.bound
    · show _ ∈ (acknowledge t s.client).pubsub.sent
      rw [hsent]
      exact h.sent t' ((hreg t').mp ht')
    · show _ ∉ s.wire.pending (acknowledge t s.client).pubsub.sent
      rw [hsent]
      have hold := (hreg t').mp ht'
      obtain rfl | hr := ready_acknowledge h.distinct hr
      · exact ht rfl t' hheld hold
      · exact h.honest t' hold hr

theorem Inv.serve (h : s.Inv) {w : Wire} (hw : s.wire.serve s.sent = some w) : Inv { s with wire := w } := by
  unfold Wire.serve at hw
  cases hcmd : s.sent[s.wire.processed]? with
  | none =>
    rw [hcmd] at hw
    simp at hw
  | some cmd =>
    rw [hcmd] at hw
    obtain rfl := Option.some.inj hw
    refine ⟨h.client, h.distinct, (List.getElem?_eq_some_iff.mp hcmd).1, h.sent, fun t ht hr hmem => ?_⟩
    exact h.honest t ht hr (List.drop_subset_drop_left _ (Nat.le_succ _) hmem)

theorem Inv.read (h : s.Inv) {w : Wire} (hw : s.wire.read = some w) : Inv { s with wire := w } := by
  have hp : w.processed = s.wire.processed := by
    unfold Wire.read at hw
    split at hw
    · obtain rfl := Option.some.inj hw
      rfl
    · simp at hw
  refine ⟨h.client, h.distinct, hp ▸ h.bound, h.sent, fun t ht hr => ?_⟩
  show _ ∉ s.sent.drop w.processed
  rw [hp]
  exact h.honest t ht hr

theorem Inv.goto (h : s.Inv) (n : ℕ) (w : Wait) : (s.goto n w).Inv := ⟨h.client, h.distinct, h.bound, h.sent, h.honest⟩

/-- What a step does to the client and the connection, apart from the waits. -/
theorem Inv.step {l : Label χ} (h : s.Inv) (ht : s.Timely l) (hs : s.Steps l s') : s'.Inv := by
  unfold Steps Link.step at hs
  cases l with
  | subscribe t cb =>
    obtain rfl := Option.some.inj hs
    obtain ⟨cmds, hm⟩ := moved_subscribe h.client t cb
    exact h.moved hm
  | unsubscribe i =>
    obtain rfl := Option.some.inj hs
    obtain ⟨cmds, hm⟩ := moved_unsubscribe h.client i
    exact h.moved hm
  | unsubscribeTopic t =>
    obtain rfl := Option.some.inj hs
    obtain ⟨cmds, hm⟩ := moved_unsubscribeTopic h.client t
    exact h.moved hm
  | serve =>
    obtain ⟨w, hw, rfl⟩ := Option.map_eq_some_iff.mp hs
    exact h.serve hw
  | read =>
    obtain ⟨w, hw, rfl⟩ := Option.map_eq_some_iff.mp hs
    exact h.read hw
  | handle =>
    obtain ⟨cmd, hcmd, rfl⟩ := Option.map_eq_some_iff.mp hs
    exact h.handle hcmd ht
  | startWait n topics =>
    dsimp only at hs
    split at hs
    · split at hs
      · exact Option.some.inj hs ▸ h.goto n _
      · exact Option.some.inj hs ▸ h.goto n _
    · simp at hs
  | wake n =>
    dsimp only at hs
    split at hs
    · exact Option.some.inj hs ▸ h.goto n _
    · split_ifs at hs
      exact Option.some.inj hs ▸ h.goto n _
    · simp at hs
  | timeout n =>
    dsimp only at hs
    split at hs
    · split_ifs at hs
      exact Option.some.inj hs ▸ h.goto n _
    · simp at hs

theorem Initial.inv (h : s.Initial) : s.Inv := by
  obtain ⟨h1, h2, h3⟩ := h.maps
  have hreg : ∀ t, ¬ s.client.Registered t := by
    intro t ht
    simp [Registered, h1] at ht
  refine ⟨wellFormed_of_empty h1 h2 h3, ?_, ?_, fun t ht => absurd ht (hreg t), fun t ht => absurd ht (hreg t)⟩
  · intro t t' e ht
    simp [h3] at ht
  · rw [h.wire]
    exact Nat.zero_le _

end Kept

/-! ## Waiting -/

section Waiting

variable {s s' : Link χ}

/-- A topic of a wait: its event is set or still to be waited for. -/
def Covered (c : RedisSubClient χ) (ready : List (Topic × EventRef)) (t : Topic) : Prop :=
  ∃ e : ℕ, c.subscriptionReady.get? t = some e ∧ ((t, e) ∈ ready ∨ c.events[e]? = some true)

/-- What is known of a wait for `topics` while they stay registered. -/
def Waited (s : Link χ) (n : ℕ) (topics : List Topic) : Prop :=
  ∀ ready, (s.waits n).left = some (topics, ready) → ∀ t ∈ topics, Covered s.client ready t

theorem readyEvents_ok {c : RedisSubClient χ} {topics : List Topic} {ready : List (Topic × EventRef)}
    (h : ((readyEvents topics).exec c).1 = .ok ready) :
    ∀ t ∈ topics, ∃ e, c.subscriptionReady.get? t = some e ∧ (t, e) ∈ ready := by
  induction topics generalizing ready with
  | nil => simp
  | cons topic topics ih =>
    unfold readyEvents at h
    rw [exec_bind_ok (exec_get c)] at h
    cases hr : c.subscriptionReady.get? topic with
    | none =>
      simp only [hr] at h
      simp at h
    | some e =>
      simp only [hr] at h
      rw [exec_bind] at h
      rcases hrest : (readyEvents topics).exec c with ⟨r, c'⟩
      rw [hrest] at h
      cases r with
      | error e => simp at h
      | ok rest =>
        obtain rfl : (topic, e) :: rest = ready := by simpa using h
        intro t ht
        rcases List.mem_cons.mp ht with rfl | ht
        · exact ⟨e, hr, by simp⟩
        · obtain ⟨e', he', hm⟩ := ih (by rw [hrest]) t ht
          exact ⟨e', he', List.mem_cons_of_mem _ hm⟩

/-- What a wait has found stays so while its topics stay registered. -/
theorem Covered.moved {c c' : RedisSubClient χ} (hw : c.WellFormed) {cmds : List Command} (hm : Moved c cmds c')
    {t : Topic} (ht : c.Registered t) (ht' : c'.Registered t) {ready : List (Topic × EventRef)}
    (h : Covered c ready t) : Covered c' ready t := by
  obtain ⟨e, he, hset⟩ := h
  refine ⟨e, by rw [(hm.steady t ht ht').1, he], hset.imp_right fun hset => ?_⟩
  rw [hm.events e (hw.event_lt t e he), hset]

theorem Covered.acknowledge {c : RedisSubClient χ} {t t' : Topic} {ready : List (Topic × EventRef)}
    (h : Covered c ready t) : Covered (acknowledge t' c) ready t := by
  obtain ⟨e, he, hset⟩ := h
  unfold RedisSubClient.acknowledge
  cases c.subscriptionReady.get? t' with
  | none => exact ⟨e, he, hset⟩
  | some e₀ =>
    refine ⟨e, he, hset.imp_right fun hset => ?_⟩
    have hlt := (List.getElem?_eq_some_iff.mp hset).1
    show (c.events.set e₀ true)[e]? = some true
    rw [List.getElem?_set]
    split_ifs with h₁ h₂
    · rfl
    · omega
    · exact hset

theorem Waited.goto_ne {n m : ℕ} {topics : List Topic} (h : s.Waited n topics) (hne : n ≠ m) (w : Wait) :
    (s.goto m w).Waited n topics := by
  intro ready hr
  have hw : (s.goto m w).waits n = s.waits n := Function.update_of_ne hne _ _
  rw [hw] at hr
  exact h ready hr

theorem waited_goto {n : ℕ} {topics : List Topic} {w : Wait}
    (h : ∀ ready, w.left = some (topics, ready) → ∀ t ∈ topics, Covered s.client ready t) :
    (s.goto n w).Waited n topics := by
  intro ready hr
  have hw : (s.goto n w).waits n = w := Function.update_self _ _ _
  rw [hw] at hr
  exact h ready hr

/-- A step between two states in which the topics are registered keeps what a wait for them has found. -/
theorem Waited.step {l : Label χ} {n : ℕ} {topics : List Topic} (hi : s.Inv) (h : s.Waited n topics)
    (hreg : ∀ t ∈ topics, s.client.Registered t) (hreg' : ∀ t ∈ topics, s'.client.Registered t)
    (hs : s.Steps l s') : s'.Waited n topics := by
  unfold Steps Link.step at hs
  cases l with
  | subscribe t cb =>
    obtain rfl := Option.some.inj hs
    obtain ⟨cmds, hm⟩ := moved_subscribe hi.client t cb
    exact fun ready hr t' ht' => (h ready hr t' ht').moved hi.client hm (hreg t' ht') (hreg' t' ht')
  | unsubscribe i =>
    obtain rfl := Option.some.inj hs
    obtain ⟨cmds, hm⟩ := moved_unsubscribe hi.client i
    exact fun ready hr t' ht' => (h ready hr t' ht').moved hi.client hm (hreg t' ht') (hreg' t' ht')
  | unsubscribeTopic t =>
    obtain rfl := Option.some.inj hs
    obtain ⟨cmds, hm⟩ := moved_unsubscribeTopic hi.client t
    exact fun ready hr t' ht' => (h ready hr t' ht').moved hi.client hm (hreg t' ht') (hreg' t' ht')
  | serve =>
    obtain ⟨w, -, rfl⟩ := Option.map_eq_some_iff.mp hs
    exact h
  | read =>
    obtain ⟨w, -, rfl⟩ := Option.map_eq_some_iff.mp hs
    exact h
  | handle =>
    obtain ⟨cmd, -, rfl⟩ := Option.map_eq_some_iff.mp hs
    cases cmd with
    | subscribe t' => exact fun ready hr t ht => (h ready hr t ht).acknowledge
    | unsubscribe t' => exact h
  | startWait m ts =>
    dsimp only at hs
    split at hs
    · rcases hx : (readyEvents ts).exec s.client with ⟨r, c⟩
      rw [hx] at hs
      by_cases hnm : n = m
      · subst hnm
        cases r with
        | error e =>
          obtain rfl := Option.some.inj hs
          exact waited_goto fun ready hr => nomatch hr
        | ok found =>
          obtain rfl := Option.some.inj hs
          refine waited_goto fun ready hr t ht => ?_
          obtain ⟨rfl, rfl⟩ := Prod.mk.inj (Option.some.inj hr)
          obtain ⟨e, he, hm⟩ := readyEvents_ok (by rw [hx]) t ht
          exact ⟨e, he, Or.inl hm⟩
      · cases r with
        | error e => exact Option.some.inj hs ▸ h.goto_ne hnm _
        | ok found => exact Option.some.inj hs ▸ h.goto_ne hnm _
    · simp at hs
  | wake m =>
    dsimp only at hs
    by_cases hnm : n = m
    · subst hnm
      split at hs
      · rename_i ts hw
        obtain rfl := Option.some.inj hs
        refine waited_goto fun ready hr => h ready ?_
        rw [hw]
        exact hr
      · rename_i ts t₀ e₀ ready₀ hw
        split_ifs at hs with hset
        obtain rfl := Option.some.inj hs
        refine waited_goto fun ready hr t ht => ?_
        obtain ⟨rfl, rfl⟩ := Prod.mk.inj (Option.some.inj hr)
        obtain ⟨e, he, hm⟩ := h _ (by rw [hw]; rfl) t ht
        refine ⟨e, he, ?_⟩
        rcases hm with hm | hm
        · rcases List.mem_cons.mp hm with heq | hm
          · obtain ⟨rfl, rfl⟩ := Prod.mk.inj heq
            exact Or.inr hset
          · exact Or.inl hm
        · exact Or.inr hm
      · simp at hs
    · split at hs
      · exact Option.some.inj hs ▸ h.goto_ne hnm _
      · split_ifs at hs
        exact Option.some.inj hs ▸ h.goto_ne hnm _
      · simp at hs
  | timeout m =>
    dsimp only at hs
    split at hs
    · split_ifs at hs
      by_cases hnm : n = m
      · subst hnm
        obtain rfl := Option.some.inj hs
        exact waited_goto fun ready hr => nomatch hr
      · exact Option.some.inj hs ▸ h.goto_ne hnm _
    · simp at hs

end Waiting

/-! ## What a returning wait says -/

section Returning

variable {s₀ s₁ s₂ : Link χ} {n : ℕ} {topics : List Topic} {ls₀ ls : List (Label χ)}

theorem Inv.run {s t : Link χ} (h : s.Inv) (hrun : Run Steps Timely s ls t) : t.Inv :=
  hrun.invariant h fun _ _ _ hi ht hs => hi.step ht hs

theorem Waited.run (hi : s₁.Inv) (h : s₁.Waited n topics)
    (hrun : Run Steps (fun s l => s.Timely l ∧ ∀ t ∈ topics, s.client.Registered t) s₁ ls s₂)
    (hreg : ∀ t ∈ topics, s₂.client.Registered t) : s₂.Waited n topics := by
  have hkept := hrun.invariant (I := fun s => s.Inv ∧ ((∀ t ∈ topics, s.client.Registered t) → s.Waited n topics))
    ⟨hi, fun _ => h⟩ fun s l t hs hok hstep =>
      ⟨hs.1.step hok.1 hstep, fun hreg' => (hs.2 hok.2).step hs.1 hok.2 hreg' hstep⟩
  exact hkept.2 hreg

/-- **A wait that returns is right**: when a call of `wait_until_subscribed` has returned while its topics
stayed registered, the server has taken the SUBSCRIBE of each of their registrations, provided that no step of
the run handles an acknowledgement while a later SUBSCRIBE of its topic is still on its way. -/
theorem returned_processed (h₀ : s₀.Initial) (hrun : Run Steps Timely s₀ ls₀ s₁) (hidle : s₁.waits n = .idle)
    (hwait : Run Steps (fun s l => s.Timely l ∧ ∀ t ∈ topics, s.client.Registered t) s₁ ls s₂)
    (hret : s₂.waits n = .returned topics) (hreg : ∀ t ∈ topics, s₂.client.Registered t) :
    ∀ t ∈ topics, s₂.Processed t := by
  intro t ht
  have hi := h₀.inv.run hrun
  have hi' := hi.run (hwait.mono fun _ _ h => h.1)
  have hw : s₂.Waited n topics := by
    refine Waited.run hi (fun ready hr => ?_) hwait hreg
    rw [hidle] at hr
    exact nomatch hr
  obtain ⟨e, he, hset⟩ := hw [] (by rw [hret]; rfl) t ht
  have hready : s₂.client.Ready t := ⟨e, he, hset.resolve_left (by simp)⟩
  exact (isCurrent_lt_iff (hi'.sent t (hreg t ht)) _).mpr (hi'.honest t (hreg t ht) hready)

/-- The converse: after a step that handles an acknowledgement while a SUBSCRIBE of its topic is on its way, a
wait returns at once and is wrong. -/
theorem early_return {s : Link χ} (hi : s.Inv) {t : Topic} (hheld : s.wire.held = some (.subscribe t))
    (hreg : s.client.Registered t) (hpending : .subscribe t ∈ s.wire.pending s.sent) (hidle : s.waits n = .idle) :
    ∃ s', Run Steps (fun s _ => s.client.Registered t) s [.handle, .startWait n [t], .wake n, .wake n] s' ∧
      s'.waits n = .returned [t] ∧ s'.client.Registered t ∧ ¬ s'.Processed t := by
  obtain ⟨e, he⟩ := Option.isSome_iff_exists.mp (hi.client.ready t hreg)
  have hlt := hi.client.event_lt t e he
  set s₁ : Link χ := { s with client := acknowledge t s.client, wire := { s.wire with held := none } } with hs₁
  have hack : acknowledge t s.client = { s.client with events := s.client.events.set e true } := by
    unfold acknowledge
    rw [he]
  have hready : s₁.client.subscriptionReady.get? t = some e := by
    rw [hs₁, hack]
    exact he
  have hset : s₁.client.events[e]? = some true := by
    rw [hs₁, hack]
    exact List.getElem?_set_self hlt
  have hreg₁ : s₁.client.Registered t := by
    rw [hs₁, hack]
    exact hreg
  have h1 : s.Steps .handle s₁ := by
    show s.wire.held.map _ = _
    rw [hheld]
    rfl
  have h2 : s₁.Steps (.startWait n [t]) (s₁.goto n (.waiting [t] [(t, e)])) := by
    show (match s.waits n with | .idle => _ | _ => _) = _
    rw [hidle]
    have hex : (readyEvents [t]).exec s₁.client = (.ok [(t, e)], s₁.client) := by
      unfold readyEvents
      rw [exec_bind_ok (exec_get _)]
      simp only [hready]
      rfl
    simp only [hex]
  have h3 : (s₁.goto n (.waiting [t] [(t, e)])).Steps (.wake n) ((s₁.goto n (.waiting [t] [(t, e)])).goto n
      (.waiting [t] [])) := by
    have hw : (s₁.goto n (.waiting [t] [(t, e)])).waits n = .waiting [t] [(t, e)] := Function.update_self _ _ _
    unfold Steps Link.step
    dsimp only
    rw [hw]
    exact if_pos hset
  have h4 : ((s₁.goto n (.waiting [t] [(t, e)])).goto n (.waiting [t] [])).Steps (.wake n)
      (((s₁.goto n (.waiting [t] [(t, e)])).goto n (.waiting [t] [])).goto n (.returned [t])) := by
    have hw : ((s₁.goto n (.waiting [t] [(t, e)])).goto n (.waiting [t] [])).waits n = .waiting [t] [] :=
      Function.update_self _ _ _
    unfold Steps Link.step
    dsimp only
    rw [hw]
  refine ⟨_, Run.cons hreg h1 (Run.cons hreg₁ h2 (Run.cons hreg₁ h3 (Run.single hreg₁ h4))),
    Function.update_self _ _ _, hreg₁, ?_⟩
  have hsent : s₁.sent = s.sent := by
    rw [hs₁, hack]
    rfl
  have hmem : .subscribe t ∈ s₁.sent := hsent ▸ hi.sent t hreg
  show ¬ s₁.Processed t
  unfold Processed
  rw [isCurrent_lt_iff hmem, not_not, hsent]
  exact hpending

end Returning

section Examples

/-- A new client on a connection that never raises. -/
def new : Link Unit where
  client := { pubsub := { failure := fun _ _ => none } }

theorem initial_new : new.Initial := ⟨⟨rfl, rfl, rfl⟩, rfl, rfl, fun _ => rfl⟩

/-- One registration, acknowledged and waited for. -/
theorem returned_processed_of_first :
    ∃ s : Link Unit, s.waits 0 = .returned ["t"] ∧ ∀ t ∈ ["t"], s.Processed t := by
  have hreg : ∀ {s : Link Unit}, s.client.Registered "t" → ∀ t ∈ ["t"], s.client.Registered t := by
    intro s hs t ht
    obtain rfl := List.mem_singleton.mp ht
    exact hs
  have hquiet : ∀ {s : Link Unit} {l : Label Unit}, l ≠ .handle → s.Timely l := fun hl hl' => absurd hl' hl
  have hrun : ∃ s₁ s₂, Run Steps Timely new [.subscribe "t" (), .serve, .read, .handle] s₁ ∧ s₁.waits 0 = .idle ∧
      Run Steps (fun s l => s.Timely l ∧ ∀ t ∈ ["t"], s.client.Registered t) s₁ [.startWait 0 ["t"], .wake 0, .wake 0]
        s₂ ∧ s₂.waits 0 = .returned ["t"] ∧ ∀ t ∈ ["t"], s₂.client.Registered t := by
    refine ⟨_, _, Run.cons (hquiet (by simp)) rfl (Run.cons (hquiet (by simp)) rfl (Run.cons (hquiet (by simp)) rfl
      (Run.single ?_ rfl))), rfl, Run.cons ⟨hquiet (by simp), ?_⟩ rfl (Run.cons ⟨hquiet (by simp), ?_⟩ rfl
        (Run.single ⟨hquiet (by simp), ?_⟩ rfl)), rfl, ?_⟩
    · intro _ t _ _
      show Command.subscribe t ∉ ([] : List Command)
      simp
    all_goals exact hreg rfl
  obtain ⟨s₁, s₂, h₀, hidle, hwait, hret, hreg⟩ := hrun
  exact ⟨s₂, hret, returned_processed initial_new h₀ hidle hwait hret hreg⟩

/-- The acknowledgement of a registration that is gone answers for the next one. -/
theorem returned_not_processed :
    ¬ ∀ (s₀ s₁ s₂ : Link Unit) (n : ℕ) (topics : List Topic) (ls₀ ls : List (Label Unit)), s₀.Initial →
      Run Steps (fun _ _ => True) s₀ ls₀ s₁ → s₁.waits n = .idle →
      Run Steps (fun s _ => ∀ t ∈ topics, s.client.Registered t) s₁ ls s₂ → s₂.waits n = .returned topics →
      (∀ t ∈ topics, s₂.client.Registered t) → ∀ t ∈ topics, s₂.Processed t := by
  intro h
  have hreg : ∀ {s : Link Unit}, s.client.Registered "t" → ∀ t ∈ ["t"], s.client.Registered t := by
    intro s hs t ht
    obtain rfl := List.mem_singleton.mp ht
    exact hs
  have hp := h new _ _ 0 ["t"]
    [.subscribe "t" (), .serve, .unsubscribe (0 : ℕ), .subscribe "t" (), .read, .handle]
    [.startWait 0 ["t"], .wake 0, .wake 0] initial_new
    (Run.cons trivial rfl (Run.cons trivial rfl (Run.cons trivial rfl (Run.cons trivial rfl (Run.cons trivial rfl
      (Run.single trivial rfl)))))) rfl
    (Run.cons (hreg rfl) rfl (Run.cons (hreg rfl) rfl (Run.single (hreg rfl) rfl))) rfl (hreg rfl) "t" (by simp)
  obtain ⟨k, hk, -, hlast⟩ := hp
  have hk : k < 1 := hk
  exact hlast 2 (by omega) rfl

end Examples

end Link

end SlurmManager
