import SlurmManager.Tracking.Isolation
import SlurmManager.Tracking.StatusDelivery

/-!
# TopicSteps — what one step does to one event of one job

`Effects` inverts a step for the whole tracker.  Most results about a listener need less: what happens
under the topic of one event of one job, of which the tracker and the client hold a part each.

* `Lost`, `Weeded`: registrations are lost; listeners are lost, but no internal subscription.
* `Phase`: what a call has to do with the event of the job.
* `OnTopic`, `Steps.onTopic`: the ways in which a step can concern the topic, and that there are no others.
-/

namespace SlurmManager

open Program

/-! ## The client -/

namespace RedisSubClient

variable {χ : Type} {c c' : RedisSubClient χ} {t : Topic}

/-- The registration of an id under a topic. -/
def registration? (c : RedisSubClient χ) (t : Topic) (i : SubId) : Option (Subscription χ) :=
  ((c.subscriptionsByTopic.get? t).getD ∅).get? i

theorem mem_capture {sub : Subscription χ} : sub ∈ c.capture t ↔ ∃ i, c.registration? t i = some sub :=
  Dict.mem_values_iff

theorem registration?_of_view (h : Same (topicView t) c c') (i : SubId) :
    c'.registration? t i = c.registration? t i := by
  unfold registration?
  rw [show c'.subscriptionsByTopic.get? t = c.subscriptionsByTopic.get? t from congrArg Prod.fst h]

theorem registration?_eq_some_iff (h : c.WellFormed) {i : SubId} {sub : Subscription χ} :
    c.registration? t i = some sub ↔ c.find? i = some (t, sub) := (Index.find?_eq_some_iff h.consistent).symm

/-- A subscription is filed under its own id and topic. -/
theorem registration?_filed (h : c.WellFormed) {i : SubId} {sub : Subscription χ}
    (hs : c.registration? t i = some sub) : sub.id = i ∧ sub.topic = t :=
  h.filed i t sub ((registration?_eq_some_iff h).mp hs)

/-- An id has a registration under the topic that its owner entry names. -/
theorem registration?_isSome_iff (h : c.WellFormed) {i : SubId} :
    (c.registration? t i).isSome ↔ c.topicBySubscriptionId.get? i = some t := (h.consistent.owner_iff i t).symm

/-- Registrations are only lost. -/
def Fewer (c c' : RedisSubClient χ) : Prop :=
  ∀ t i sub, c'.registration? t i = some sub → c.registration? t i = some sub

instance : IsPreorder (RedisSubClient χ) Fewer where
  refl _ _ _ _ := id
  trans _ _ _ h h' := fun t i sub hs => h t i sub (h' t i sub hs)

theorem fewer_of_keeps {α : Type} {x : Program PyError (RedisSubClient χ) α}
    (hx : ∀ n (ok : Topic → SubId → Subscription χ → Prop), Keeps (Filed n ok) x) : Within Fewer x := by
  intro c t i sub hs
  have hfiled : c.Filed c.nextUuid fun t i sub => c.registration? t i = some sub := by
    refine ⟨rfl, fun t b hb i sub hi => ?_⟩
    unfold registration?
    rw [hb]
    exact hi
  exact (hx _ _ c hfiled).subs.inner t i sub hs

theorem removals_fewer : Removals (Fewer (χ := χ)) :=
  ⟨fun i => fewer_of_keeps fun _ _ => keeps_unsubscribe i, fun t => fewer_of_keeps fun _ _ => keeps_unsubscribeTopic t⟩

/-- The other ids keep their registrations. -/
theorem registration?_unsubscribe (h : c.WellFormed) {i k : SubId} (hk : k ≠ i) :
    ((unsubscribe i).after c).registration? t k = c.registration? t k := by
  obtain ⟨r, c', hc, hr, -⟩ := unsubscribe_spec h i
  rw [after, hc]
  refine Option.ext fun sub => ?_
  rw [registration?_eq_some_iff hr.wellFormed, registration?_eq_some_iff h, hr.find?_iff]
  exact and_iff_left hk

/-- What a subscription adds. -/
theorem registration?_subscribe {t' : Topic} {cb : χ} {i : SubId} (he : (subscribe t cb).exec c = (.ok i, c')) (k : SubId) :
    c'.registration? t' k = if t' = t ∧ k = i then some ⟨i, t, cb⟩ else c.registration? t' k := by
  unfold registration?
  cases hb : c.subscriptionsByTopic.get? t with
  | some b =>
    rw [exec_subscribe_joined hb] at he
    obtain ⟨hi, rfl⟩ := Prod.mk.inj he
    obtain rfl := Except.ok.inj hi
    by_cases ht : t' = t
    · subst ht
      simp [hb, Dict.get?_set]
    · simp [ht, Dict.get?_set_ne]
  | none =>
    cases hs : c.pubsub.outcome (.subscribe t) with
    | ok u =>
      rw [exec_subscribe_opened hb hs] at he
      obtain ⟨hi, rfl⟩ := Prod.mk.inj he
      obtain rfl := Except.ok.inj hi
      by_cases ht : t' = t
      · subst ht
        simp [hb]
      · simp [ht, Dict.get?_set_ne]
    | error e =>
      rw [exec_subscribe_raised hb hs] at he
      exact absurd (Prod.mk.inj he).1 (by simp)

/-- The id that a subscription draws is new. -/
theorem ne_of_subscribe (h : c.WellFormed) {t' : Topic} {cb : χ} {i k : SubId} {sub : Subscription χ}
    (he : (subscribe t cb).exec c = (.ok i, c')) (hk : c.registration? t' k = some sub) : k ≠ i := by
  have hlt := h.fresh k _ ((registration?_eq_some_iff h).mp hk)
  rcases subscribe_cases h t cb with ⟨c'', hc, -⟩ | ⟨e, c'', hc, -⟩
  · rw [hc] at he
    obtain rfl : c.nextUuid = i := Except.ok.inj (Prod.mk.inj he).1
    exact Nat.ne_of_lt hlt
  · rw [hc] at he
    exact absurd (Prod.mk.inj he).1 (by simp)

theorem registration?_subscribe_error {t' : Topic} {cb : χ} {e : PyError}
    (he : (subscribe t cb).exec c = (.error e, c')) (k : SubId) : c'.registration? t' k = c.registration? t' k := by
  cases hb : c.subscriptionsByTopic.get? t with
  | some b =>
    rw [exec_subscribe_joined hb] at he
    exact absurd (Prod.mk.inj he).1 (by simp)
  | none =>
    cases hs : c.pubsub.outcome (.subscribe t) with
    | ok u =>
      rw [exec_subscribe_opened hb hs] at he
      exact absurd (Prod.mk.inj he).1 (by simp)
    | error e' =>
      rw [exec_subscribe_raised hb hs] at he
      obtain ⟨-, rfl⟩ := Prod.mk.inj he
      rfl

end RedisSubClient

/-! ## The tracker -/

namespace JobTracker

variable {j : String} {t : Topic} {s s' : JobTracker} {pending : SubId → Option Pending}

/-- Records and registrations are only lost. -/
structure Lost (s s' : JobTracker) : Prop where
  records : ∀ t i info, s'.record? t i = some info → s.record? t i = some info
  client : s.subClient.Fewer s'.subClient

instance : IsPreorder JobTracker Lost where
  refl s := ⟨fun _ _ _ => id, refl s.subClient⟩
  trans s _ _ h h' := ⟨fun t i info hi => h.records t i info (h'.records t i info hi),
    IsTrans.trans s.subClient _ _ h.client h'.client⟩

theorem lost_of_client {α : Type} {x : Program PyError (RedisSubClient ClientCallback) α}
    (hx : Within RedisSubClient.Fewer x) : Within Lost (onClient x) :=
  within_focus fun s => ⟨fun _ _ _ => id, hx s.subClient⟩

theorem lost_dropTopic (t : Topic) : Within Lost (dropTopic t) := by
  refine Within.bind (within_modify fun s => ⟨fun t' i info hi => ?_, refl _⟩) fun _ =>
    Within.bind (lost_of_client (RedisSubClient.removals_fewer.unsubscribeTopic t)) fun _ => within_pure _
  rw [record?_erase (s := s) rfl] at hi
  split_ifs at hi
  exact hi

theorem lost_discardJob (rt : Runtime) (j : String) : Within Lost (discardJob rt j) :=
  Within.bind within_get fun _ => Within.bind (within_modify fun _ => ⟨fun _ _ _ => id, refl _⟩) fun _ =>
    Within.bind (within_forM fun t _ => lost_dropTopic t) fun _ => within_modify fun _ => ⟨fun _ _ _ => id, refl _⟩

theorem lost_applyStatus (rt : Runtime) (m : StatusMessage) (f : FutureRef) : Within Lost (applyStatus rt m f) := by
  intro s
  have haccept : Lost s (s.accept rt m f) := ⟨fun _ _ _ => id, refl s.subClient⟩
  unfold after
  cases hd : (s.futures f).done with
  | true =>
    rw [exec_applyStatus_done rt m f hd]
    exact refl s
  | false =>
    cases ht : (decoded rt m).terminal with
    | false =>
      rw [exec_applyStatus_running rt m f hd ht]
      exact haccept
    | true =>
      rw [exec_applyStatus_terminal rt m f hd ht]
      exact IsTrans.trans _ _ _ haccept (lost_discardJob rt _ (s.accept rt m f))

/-- The removal of one id. -/
theorem lost_removeId (i : SubId) : Within Lost (removeId i) := by
  refine Within.bind within_get fun s => ?_
  split
  · exact within_modify fun _ => ⟨fun _ _ _ => id, refl _⟩
  · split
    · exact within_pure _
    · rename_i t _
      refine Within.bind (within_modify fun s' => ⟨fun t' k info hk => ?_, refl _⟩) fun _ =>
        Within.bind (lost_of_client (RedisSubClient.removals_fewer.unsubscribe i)) fun _ => ?_
      · have hk' : (s'.popped i t).record? t' k = some info := hk
        rw [record?_popped] at hk'
        split_ifs at hk'
        exact hk'
      · split
        · exact within_pure _
        · refine Within.bind (within_modify fun s' => ⟨fun t' k info hk => ?_, refl _⟩) fun _ => ?_
          · rw [record?_erase (s := s') rfl] at hk
            split_ifs at hk
            exact hk
          · split
            · exact within_pure _
            · exact within_modify fun _ => ⟨fun _ _ _ => id, refl _⟩

theorem lost_removeSubscriptionById (ids : List SubId) : Within Lost (removeSubscriptionById ids) :=
  within_forM fun i _ => lost_removeId i

theorem lost_removeSubscriptionByTopic (t : Topic) : Within Lost (removeSubscriptionByTopic t) := by
  refine Within.bind within_get fun s => Within.bind (within_modify fun s' => ⟨fun t' k info hk => ?_, refl _⟩) fun _ =>
    Within.bind (within_modify fun s' => ?_) fun _ =>
      Within.bind (lost_of_client (RedisSubClient.removals_fewer.unsubscribeTopic t)) fun _ => within_pure _
  · rw [record?_erase (s := s') rfl] at hk
    split_ifs at hk
    exact hk
  · generalize ((s.subscriptionsByTopic.get? t).getD ∅).entries = l
    induction l generalizing s' with
    | nil => exact refl s'
    | cons e l ih =>
      rw [List.foldl_cons]
      refine IsTrans.trans _ _ _ ?_ (ih _)
      exact ⟨fun _ _ _ => id, refl _⟩

theorem lost_removeSubscriptionsForJob (rt : Runtime) (j : String) (skip : Bool) :
    Within Lost (removeSubscriptionsForJob rt j skip) := by
  intro s
  rcases exec_removeSubscriptionsForJob (s := s) rt j skip with ⟨f, -, -, -, he⟩ | ⟨-, he⟩
  · rw [show (removeSubscriptionsForJob rt j skip).after s = _ from congrArg Prod.snd he]
    exact lost_applyStatus rt _ f s
  · rw [show (removeSubscriptionsForJob rt j skip).after s = _ from congrArg Prod.snd he]
    exact lost_discardJob rt j s

/-- Under the topic of a job listeners are lost, but no internal subscription; where a record is left, or
where there was none, the client is as before. -/
structure Weeded (j : String) (t : Topic) (s s' : JobTracker) : Prop where
  registry : s'.futureRegistry.get? j = s.futureRegistry.get? j
  records : ∀ i info, s'.record? t i = some info → s.record? t i = some info
  client : ∀ i sub, s'.subClient.registration? t i = some sub → s.subClient.registration? t i = some sub
  kept : ∀ i, s.record? t i = none ∨ (s'.record? t i).isSome →
    s'.subClient.registration? t i = s.subClient.registration? t i
  internal : ∀ i info, s.record? t i = some info → info.callback = none →
    s'.record? t i = some info ∧ (t ∈ s.activeTopics j → t ∈ s'.activeTopics j)

theorem Weeded.of_eq (hr : s'.futureRegistry.get? j = s.futureRegistry.get? j)
    (hrec : ∀ i, s'.record? t i = s.record? t i)
    (hc : ∀ i, s'.subClient.registration? t i = s.subClient.registration? t i)
    (ha : t ∈ s.activeTopics j → t ∈ s'.activeTopics j) : Weeded j t s s' :=
  ⟨hr, fun i _ hi => (hrec i).symm.trans hi, fun i _ hi => (hc i).symm.trans hi, fun i _ => hc i,
    fun i _ hi _ => ⟨(hrec i).trans hi, ha⟩⟩

instance : IsPreorder JobTracker (Weeded j t) where
  refl _ := Weeded.of_eq rfl (fun _ => rfl) (fun _ => rfl) id
  trans s s' s'' h h' := by
    refine ⟨h'.registry.trans h.registry, fun i info hi => h.records i info (h'.records i info hi),
      fun i sub hi => h.client i sub (h'.client i sub hi), fun i hi => ?_, fun i info hi hn => ?_⟩
    · rcases hi with hi | hi
      · have hi' : s'.record? t i = none := by
          cases hr : s'.record? t i with
          | none => rfl
          | some info =>
            rw [h.records i info hr] at hi
            contradiction
        exact (h'.kept i (Or.inl hi')).trans (h.kept i (Or.inl hi))
      · obtain ⟨info, hinfo⟩ := Option.isSome_iff_exists.mp hi
        have hi' : (s'.record? t i).isSome := by
          rw [h'.records i info hinfo]
          rfl
        exact (h'.kept i (Or.inr hi)).trans (h.kept i (Or.inr hi'))
    · obtain ⟨hs', ha⟩ := h.internal i info hi hn
      obtain ⟨hs'', ha'⟩ := h'.internal i info hs' hn
      exact ⟨hs'', fun ht => ha' (ha ht)⟩

/-- What leaves the view of the job alone. -/
theorem weeded_of_same (h : Same (jobView j) s s') (e : Event) : Weeded j (topicOf j e) s s' := by
  obtain ⟨hreg, hrest⟩ := Prod.mk.inj h
  obtain ⟨hact, hrest⟩ := Prod.mk.inj hrest
  obtain ⟨hsub, hcl⟩ := Prod.mk.inj hrest
  refine Weeded.of_eq hreg (record?_congr (congrFun hsub e))
    (RedisSubClient.registration?_of_view (congrFun hcl e)) fun ht => ?_
  unfold activeTopics
  rw [hact]
  exact ht

/-! ## Removals of listeners -/

section Removals

variable (h : s.Homed pending)
include h

/-- The removal of one listener. -/
theorem weeded_removeId {i : SubId} (hi : ∀ info, s.record? t i = some info → info.callback ≠ none) :
    Weeded j t s ((removeId i).after s) := by
  cases hg : s.globalCallbacks.get? i with
  | some cb =>
    rw [after, exec_removeId_global hg]
    exact Weeded.of_eq rfl (fun _ => rfl) (fun _ => rfl) id
  | none =>
    cases ht₀ : s.topicBySubscriptionId.get? i with
    | none =>
      rw [after, exec_removeId_unknown hg ht₀]
      exact refl s
    | some t₀ =>
      have hreg : ((removeId i).after s).futureRegistry = s.futureRegistry :=
        congrArg Prod.fst (frame_removeId i s)
      have hcl : ((removeId i).after s).subClient = (RedisSubClient.unsubscribe i).after s.subClient := by
        rcases after_removeId hg ht₀ with he | ⟨-, active, he, -⟩
        · rw [he]
          rfl
        · rw [he]
          rfl
      have hhome : ∀ t' info, s.record? t' i = some info → t' = t₀ := by
        intro t' info hinfo
        have ho := (h.owner_iff i t').mpr (by rw [hinfo]; rfl)
        exact Option.some.inj (ho.symm.trans ht₀)
      -- the records under `t₀`, and the topic, if another record is left there
      have hrec : ∀ t' k, ((removeId i).after s).record? t' k = (s.popped i t₀).record? t' k := by
        intro t' k
        rcases after_removeId hg ht₀ with he | ⟨hempty, active, he, -⟩
        · rw [he]
        · rw [he, record?_erase (s := s.popped i t₀) rfl]
          split_ifs with ht'
          · subst ht'
            rw [record?_popped]
            split_ifs with hk
            · rfl
            · have hn := Dict.isEmpty_iff.mp hempty k
              rw [Dict.get?_erase_ne _ fun hki => hk ⟨rfl, hki⟩] at hn
              exact hn.symm
          · rfl
      have hact : ∀ k info, k ≠ i → s.record? t k = some info → t ∈ s.activeTopics j →
          t ∈ ((removeId i).after s).activeTopics j := by
        intro k info hk hinfo ht
        rcases after_removeId hg ht₀ with he | ⟨hempty, active, he, hactive⟩
        · rw [he]
          exact ht
        · rw [he]
          refine (hactive j t).2 ?_ ht
          rintro rfl
          have hn := Dict.isEmpty_iff.mp hempty k
          rw [Dict.get?_erase_ne _ hk] at hn
          have hinfo' : ((s.subscriptionsByTopic.get? t).getD ∅).get? k = some info := hinfo
          rw [hn] at hinfo'
          contradiction
      have hfewer : s.subClient.Fewer ((removeId i).after s).subClient := by
        rw [hcl]
        exact RedisSubClient.removals_fewer.unsubscribe i s.subClient
      refine ⟨by rw [hreg], fun k info hk => ?_, hfewer t, fun k hk => ?_, fun k info hk hn => ?_⟩
      · rw [hrec, record?_popped] at hk
        split_ifs at hk
        exact hk
      · by_cases hki : k = i
        · -- the id is not registered under the topic, before or after
          subst hki
          have hnone : s.subClient.registration? t k = none := by
            have htt : t ≠ t₀ := by
              rintro rfl
              rw [hrec, record?_popped, if_pos ⟨rfl, rfl⟩] at hk
              rcases hk with hk | hk
              · have ho := (h.owner_iff k t).mp ht₀
                rw [hk] at ho
                contradiction
              · contradiction
            rw [← Option.not_isSome_iff_eq_none, RedisSubClient.registration?_isSome_iff h.client]
            intro ho
            rcases h.owned k t ho with ho | ⟨p, hp, -⟩
            · exact htt (Option.some.inj (ho.symm.trans ht₀))
            · rw [(h.inFlight k p hp).2] at ht₀
              contradiction
          rw [hnone]
          cases hr : ((removeId k).after s).subClient.registration? t k with
          | none => rfl
          | some sub =>
            rw [hfewer t k sub hr] at hnone
            contradiction
        · rw [hcl]
          exact RedisSubClient.registration?_unsubscribe h.client hki
      · have hki : k ≠ i := by
          rintro rfl
          exact hi info hk hn
        refine ⟨?_, hact k info hki hk⟩
        rw [hrec, record?_popped, if_neg fun hx => hki hx.2]
        exact hk

end Removals

/-- The removal of listeners. -/
theorem weeded_removeSubscriptionById (h : s.Homed pending) {ids : List SubId}
    (hids : ∀ i ∈ ids, ∀ info, s.record? t i = some info → info.callback ≠ none) :
    Weeded j t s ((removeSubscriptionById ids).after s) := by
  unfold removeSubscriptionById
  induction ids generalizing s with
  | nil => exact refl s
  | cons i ids ih =>
    have hw : Weeded j t s ((removeId i).after s) := weeded_removeId h (hids i List.mem_cons_self)
    have hh := homed_removeId i s h
    rw [List.forM_cons, after, exec_bind]
    rcases he : (removeId i).exec s with ⟨r, s₁⟩
    rw [after, he] at hh hw
    cases r with
    | error err => exact hw
    | ok u =>
      refine IsTrans.trans _ _ _ hw (ih hh fun k hk info hinfo => ?_)
      exact hids k (List.mem_cons_of_mem _ hk) info (hw.records k info hinfo)

/-- The removal of another topic. -/
theorem weeded_removeSubscriptionByTopic {t₀ : Topic} (ht : t₀ ≠ t) :
    Within (Weeded j t) (removeSubscriptionByTopic t₀) := by
  refine Within.bind within_get fun s => Within.bind (within_modify fun s => ?_) fun _ =>
    Within.bind (within_modify fun s' => ?_) fun _ => Within.bind (within_focus fun s => ?_) fun _ => within_pure _
  · exact Weeded.of_eq rfl (fun i => by rw [record?_erase (s := s) rfl, if_neg ht.symm]) (fun _ => rfl) id
  · generalize ((s.subscriptionsByTopic.get? t₀).getD ∅).entries = l
    induction l generalizing s' with
    | nil => exact refl s'
    | cons e l ih =>
      rw [List.foldl_cons]
      refine IsTrans.trans _ _ _ ?_ (ih _)
      refine Weeded.of_eq rfl (fun _ => rfl) (fun _ => rfl) fun hact => ?_
      unfold activeTopics at hact ⊢
      dsimp only
      rw [Dict.get?_set]
      split_ifs with hj
      · subst hj
        exact List.mem_filter.mpr ⟨hact, by simpa using ht.symm⟩
      · exact hact
  · exact Weeded.of_eq rfl (fun _ => rfl)
      (RedisSubClient.registration?_of_view (RedisSubClient.frame_unsubscribeTopic ht s.subClient)) id

/-- The removal of a job, unless Redis breaks it off, takes it out of the registry. -/
theorem registry_discardJob (rt : Runtime) (j : String) (s : JobTracker) :
    ((discardJob rt j).after s).futureRegistry.get? j = none ∨
      (∃ err, ((discardJob rt j).exec s).1 = .error err) ∧
        ((discardJob rt j).after s).futureRegistry = s.futureRegistry := by
  have hframe := frame_dropTopics (rt.setOrder (s.activeTopics j))
    { s with activeSubscriptions := s.activeSubscriptions.erase j }
  rw [Same, after] at hframe
  rcases hx : (forM (rt.setOrder (s.activeTopics j)) dropTopic : Program PyError JobTracker PUnit).exec
    { s with activeSubscriptions := s.activeSubscriptions.erase j } with ⟨r, t⟩
  rw [hx] at hframe
  unfold after
  cases r with
  | ok u =>
    rw [exec_discardJob_ok rt j hx]
    exact Or.inl (Dict.get?_erase_self _ _)
  | error err =>
    rw [exec_discardJob_error rt j hx]
    exact Or.inr ⟨⟨err, rfl⟩, congrArg Prod.fst hframe⟩

theorem registry_discardJob_sub (rt : Runtime) (j : String) (s : JobTracker) (f : FutureRef)
    (hf : ((discardJob rt j).after s).futureRegistry.get? j = some f) : s.futureRegistry.get? j = some f := by
  rcases registry_discardJob rt j s with hnone | ⟨-, hsame⟩
  · rw [hnone] at hf
    contradiction
  · rwa [hsame] at hf

/-! ## Registrations under other topics -/

theorem weeded_subscribe {t₀ : Topic} (ht : t₀ ≠ t) (cb : ClientCallback) :
    Within (Weeded j t) (onClient (RedisSubClient.subscribe t₀ cb)) := within_focus fun s =>
  Weeded.of_eq rfl (fun _ => rfl)
    (RedisSubClient.registration?_of_view (RedisSubClient.frame_subscribe ht cb s.subClient)) id

theorem weeded_indexed {info : SubscriptionInfo} (i : SubId) (ht : info.topic ≠ t) :
    Weeded j t s (s.indexed info i) := by
  refine Weeded.of_eq rfl (fun k => ?_) (fun _ => rfl) fun hact => ?_
  · rw [record?_indexed, if_neg fun hx => ht hx.1.symm]
  · rw [activeTopics_indexed]
    split_ifs with hj
    · rw [← hj]
      exact mem_addTopic.mpr (Or.inr hact)
    · exact hact

/-- The end of `add_subscription`, for an id that leads to another topic, if anywhere. -/
theorem weeded_validateListener {a : AddArgs} (ha : a.topic ≠ t) (f : FutureRef) {i : SubId}
    (hown : s.subClient.topicBySubscriptionId.get? i ≠ some t) :
    Weeded j t s ((validateListener a f i).after s) := by
  unfold validateListener
  rw [after, exec_bind_ok (exec_get s), exec_ite]
  split_ifs
  · have hun := RedisSubClient.registration?_of_view (RedisSubClient.same_unsubscribe hown)
    rw [after] at hun
    rw [exec_bind, onClient, exec_focus]
    rcases hx : (RedisSubClient.unsubscribe i).exec s.subClient with ⟨r, c⟩
    rw [hx] at hun
    cases r with
    | ok b => exact Weeded.of_eq rfl (fun _ => rfl) hun id
    | error err => exact Weeded.of_eq rfl (fun _ => rfl) hun id
  · rw [exec_bind_ok (exec_registerSubscriptionForJob rfl)]
    exact weeded_indexed i ha

/-! ## Stamps -/

/-- The tracker with the records under a topic changed in place. -/
def restamp (t : Topic) (k : SubId → SubscriptionInfo → SubscriptionInfo) (s : JobTracker) : JobTracker :=
  { s with subscriptionsByTopic := s.subscriptionsByTopic.modify t fun b => b.mapValues k }

theorem record?_restamp (t₀ : Topic) (k : SubId → SubscriptionInfo → SubscriptionInfo) (t : Topic) (i : SubId) :
    (s.restamp t₀ k).record? t i = if t = t₀ then (s.record? t i).map (k i) else s.record? t i := by
  unfold record? restamp
  dsimp only
  rw [Dict.get?_modify]
  split_ifs with ht
  · subst ht
    cases s.subscriptionsByTopic.get? t with
    | none => rfl
    | some b => simp
  · rfl

/-- The stamp of `begin_scheduler_check`. -/
def checkStamp (now : ℚ) (_ : SubId) (info : SubscriptionInfo) : SubscriptionInfo :=
  if info.lastHeartbeat.isSome then { info with lastSchedulerCheck := some now } else info

/-- The stamp of `_heartbeat_callback`. -/
def heartbeatStamp (now : ℚ) (i : SubId) (k : SubId) (info : SubscriptionInfo) : SubscriptionInfo :=
  if k = i then { info with lastHeartbeat := some now } else info

/-- A check of a job is begun if it has an unfinished future in the registry. -/
theorem after_beginSchedulerCheck (rt : Runtime) (j : String) (s : JobTracker) :
    (∃ f, s.futureRegistry.get? j = some f ∧ (s.futures f).done = false ∧
      (beginSchedulerCheck rt j).exec s = (.ok (some f), s.restamp (topicOf j .heartbeat) (checkStamp rt.time))) ∨
    ((∀ f, s.futureRegistry.get? j = some f → (s.futures f).done = true) ∧
      (beginSchedulerCheck rt j).exec s = (.ok none, s)) := by
  unfold beginSchedulerCheck
  rw [exec_bind_ok (exec_get s)]
  cases hr : s.futureRegistry.get? j with
  | none => exact Or.inr ⟨by simp, rfl⟩
  | some f =>
    dsimp only
    cases hd : (s.futures f).done with
    | true => exact Or.inr ⟨fun g hg => Option.some.inj hg ▸ hd, rfl⟩
    | false => exact Or.inl ⟨f, rfl, hd, rfl⟩

/-- A heartbeat stamps one record, and is passed on. -/
theorem after_deliver_heartbeat (rt : Runtime) (m : SlurmMessage) {sub : Subscription ClientCallback}
    {j slurm : String} (hcb : sub.callback = .heartbeat j slurm) (s : JobTracker) :
    ∃ ts, (deliver rt m sub).after s = { s.restamp sub.topic (heartbeatStamp rt.time sub.id) with tasks := ts } := by
  unfold deliver
  rw [hcb]
  exact ⟨_, rfl⟩

end JobTracker

/-! ## Sessions -/

open JobTracker

/-- What a call has to do with an event of a job: its `track` has yet to subscribe for the event, or to
index the subscription, or is past it; its `add_subscription` has subscribed. -/
inductive Phase
  | owed
  | inFlight (i : SubId)
  | passed
  | joining (a : AddArgs) (f : FutureRef) (i : SubId)

def Call.phase (jobOf : FutureRef → String) (j : String) (e : Event) : Call → Option Phase
  | .subscribing f e' rest =>
    if jobOf f = j then some (if e = e' ∨ e ∈ rest then .owed else .passed) else none
  | .indexing f e' i _ rest =>
    if jobOf f = j then some (if e = e' then .inFlight i else if e ∈ rest then .owed else .passed) else none
  | .validating a f i _ => if a.topic = topicOf j e then some (.joining a f i) else none
  | _ => none

/-- The call after the client subscription that it made. -/
def Call.opened (k : SubId → Call) : Except PyError SubId → Call
  | .ok i => k i
  | .error err => .ended (.error err)

/-- `track` once it has indexed a subscription. -/
def Call.next (f : FutureRef) : List Event → Call
  | [] => .ended (.ok none)
  | e :: rest => .subscribing f e rest

namespace Session

variable {jobOf : FutureRef → String} {j : String} {e : Event} {s s' : Session} {l : Label}

theorem phase_overtake (t : Topic) (call : Call) :
    (call.overtake s.jobOf t).phase jobOf j e = call.phase jobOf j e := by
  cases call <;> rfl

/-- The subscription for another event. -/
theorem phase_indexing {f : FutureRef} {e₀ : Event} (hx : ¬ (jobOf f = j ∧ e₀ = e)) (i : SubId) (o : Bool)
    (rest : List Event) :
    (Call.indexing f e₀ i o rest).phase jobOf j e = (Call.subscribing f e₀ rest).phase jobOf j e := by
  unfold Call.phase
  by_cases hj : jobOf f = j
  · have he : e ≠ e₀ := fun he => hx ⟨hj, he.symm⟩
    simp [hj, he]
  · simp [hj]

/-- The indexing for another event. -/
theorem phase_next {f : FutureRef} {e₀ : Event} (hx : ¬ (jobOf f = j ∧ e₀ = e)) (i : SubId) (o : Bool)
    (e' : Event) (rest : List Event) :
    (Call.subscribing f e' rest).phase jobOf j e = (Call.indexing f e₀ i o (e' :: rest)).phase jobOf j e := by
  unfold Call.phase
  by_cases hj : jobOf f = j
  · have he : e ≠ e₀ := fun he => hx ⟨hj, he.symm⟩
    simp [hj, he]
  · simp [hj]

theorem phase_subscribing_ne (f : FutureRef) (e₀ : Event) (rest : List Event) (i : SubId) :
    (Call.subscribing f e₀ rest).phase jobOf j e ≠ some (.inFlight i) := by
  unfold Call.phase
  dsimp only
  split_ifs <;> simp

/-- The internal subscription of the event is left to the job: nobody removes its topic, or its own id, and no
removal of the job with `skip_event_callback` is broken off by Redis. -/
def Leaves (j : String) (e : Event) (s : Session) (l : Label) : Prop :=
  match l.act with
  | .removeSubscriptionByTopic t => t ≠ topicOf j e
  | .removeSubscriptionById ids =>
    ∀ i ∈ ids, ∀ info, s.tracker.record? (topicOf j e) i = some info → info.callback ≠ none
  | .removeSubscriptionsForJob j' skip => j' = j → skip = true →
      ∃ t, (removeSubscriptionsForJob l.rt j' skip).exec s.tracker = (.ok (), t)
  | _ => True

/-- No call begins or goes on for the event of the job; what the listener thread has captured was registered. -/
structure Idle (jobOf : FutureRef → String) (j : String) (e : Event) (s s' : Session) : Prop where
  published : ∀ f ∈ s.published, f ∈ s'.published
  calls : ∀ n p, (s'.calls n).phase jobOf j e = some p → (s.calls n).phase jobOf j e = some p
  flight : ∀ n i, (s.calls n).phase jobOf j e = some (.inFlight i) →
    (s'.calls n).phase jobOf j e = some (.inFlight i)
  captured : ∀ x ∈ s'.captured,
    x ∈ s.captured ∨ s.tracker.subClient.registration? x.1.topic x.1.id = some x.1

/-- How a step concerns the event of the job. -/
inductive OnTopic (jobOf : FutureRef → String) (j : String) (e : Event) (s : Session) (l : Label) :
    Session → Prop
  | aside {s' : Session} (hi : Idle jobOf j e s s') (ht : Weeded j (topicOf j e) s.tracker s'.tracker) :
    OnTopic jobOf j e s l s'
  /-- The job leaves the registry, or is done. -/
  | closed {s' : Session} (hi : Idle jobOf j e s s') (ht : Lost s.tracker s'.tracker)
      (hreg : ∀ f, s'.tracker.futureRegistry.get? j = some f → s.tracker.futureRegistry.get? j = some f)
      (hend : ∀ f, s'.tracker.futureRegistry.get? j = some f → (s'.tracker.futures f).done = true) :
    OnTopic jobOf j e s l s'
  | checked {s' : Session} (hi : Idle jobOf j e s s') (he : e = .heartbeat)
      (hl : l.act = .beginSchedulerCheck j ∨ ∃ n, l.act = .startCheck n j)
      (ht : s'.tracker = s.tracker.restamp (topicOf j e) (checkStamp l.rt.time)) : OnTopic jobOf j e s l s'
  | heard {s' : Session} (hi : Idle jobOf j e s s') (hl : l.act = .deliver) {sub : Subscription ClientCallback}
      {m : SlurmMessage} {rest : List (Subscription ClientCallback × SlurmMessage)} {j' slurm : String}
      (hc : s.captured = (sub, m) :: rest) (hcb : sub.callback = .heartbeat j' slurm)
      (hsub : sub.topic = topicOf j e) {ts : List Task}
      (ht : s'.tracker = { s.tracker.restamp (topicOf j e) (heartbeatStamp l.rt.time sub.id) with tasks := ts }) :
    OnTopic jobOf j e s l s'
  | published {n : ℕ} {f : FutureRef} (hl : l.act = .startTrack n f) (hn : s.calls n = .idle) (hj : jobOf f = j)
      (hf : f ∉ s.published) : OnTopic jobOf j e s l ({ s with
        tracker := publishFuture f s.tracker
        published := s.published ++ [f] }.goto n (.subscribing f .heartbeat [.status, .log]))
  | subscribed {n : ℕ} {f : FutureRef} {rest : List Event} {r : Except PyError SubId} {t : JobTracker}
      (hl : l.act = .proceed n) (hn : s.calls n = .subscribing f e rest) (hj : jobOf f = j)
      (he : (subscribeCallback e f).exec s.tracker = (r, t)) :
    OnTopic jobOf j e s l ({ s with tracker := t }.goto n (.opened (fun i => .indexing f e i false rest) r))
  | indexed {n : ℕ} {f : FutureRef} {i : SubId} {o : Bool} {rest : List Event} (hl : l.act = .proceed n)
      (hn : s.calls n = .indexing f e i o rest) (hj : jobOf f = j) :
    OnTopic jobOf j e s l ({ s with tracker := (indexCallback l.rt e f i).after s.tracker }.goto n (.next f rest))
  | joined {n : ℕ} {a : AddArgs} {f : FutureRef} {r : Except PyError SubId} {t : JobTracker}
      (hl : l.act = .proceed n) (hn : s.calls n = .adding a f) (ha : a.topic = topicOf j e)
      (he : (subscribeListener a f).exec s.tracker = (r, t)) :
    OnTopic jobOf j e s l ({ s with tracker := t }.goto n (.opened (fun i => .validating a f i false) r))
  | validated {n : ℕ} {a : AddArgs} {f : FutureRef} {i : SubId} {o : Bool} {r : Except PyError SubId}
      {t : JobTracker} {ids : List SubId} (hl : l.act = .proceed n) (hn : s.calls n = .validating a f i o)
      (ha : a.topic = topicOf j e) (he : (validateListener a f i).exec s.tracker = (r, t)) :
    OnTopic jobOf j e s l ({ s with tracker := t, listeners := ids }.goto n (.ended (r.map some)))

/-! ## Inversion -/

section Inversion

theorem idle_same (hp : ∀ f ∈ s.published, f ∈ s'.published) (hc : s'.calls = s.calls)
    (hcap : ∀ x ∈ s'.captured, x ∈ s.captured) : Idle jobOf j e s s' := by
  refine ⟨hp, fun n p hn => ?_, fun n i hn => ?_, fun x hx => Or.inl (hcap x hx)⟩
  · rwa [hc] at hn
  · rwa [hc]

theorem idle_update {n : ℕ} {call : Call} (hp : ∀ f ∈ s.published, f ∈ s'.published)
    (hc : s'.calls = Function.update s.calls n call) (hcap : ∀ x ∈ s'.captured, x ∈ s.captured)
    (hphase : ∀ p, call.phase jobOf j e = some p → (s.calls n).phase jobOf j e = some p)
    (hflight : ∀ i, (s.calls n).phase jobOf j e ≠ some (.inFlight i)) : Idle jobOf j e s s' := by
  refine ⟨hp, fun m p hm => ?_, fun m i hm => ?_, fun x hx => Or.inl (hcap x hx)⟩
  · rw [hc] at hm
    by_cases hmn : m = n
    · subst hmn
      rw [Function.update_self] at hm
      exact hphase p hm
    · rwa [Function.update_of_ne hmn] at hm
  · have hmn : m ≠ n := fun hmn => hflight i (hmn ▸ hm)
    rw [hc, Function.update_of_ne hmn]
    exact hm

/-- A call that has nothing to do with the event of the job goes on. -/
theorem idle_quiet {n : ℕ} {call : Call} (hp : ∀ f ∈ s.published, f ∈ s'.published)
    (hc : s'.calls = Function.update s.calls n call) (hcap : ∀ x ∈ s'.captured, x ∈ s.captured)
    (hold : (s.calls n).phase jobOf j e = none) (hnew : call.phase jobOf j e = none) : Idle jobOf j e s s' := by
  refine idle_update hp hc hcap (fun p hm => ?_) fun i hi => ?_
  · rw [hnew] at hm
    contradiction
  · rw [hold] at hi
    contradiction

variable {pending : SubId → Option Pending} (h : s.Homed jobOf pending)
include h

theorem Homed.onTopic_proceed {rt : Runtime} {n : ℕ} (hs : s.proceed rt n = some s') :
    OnTopic jobOf j e s ⟨rt, .proceed n⟩ s' := by
  unfold Session.proceed at hs
  cases hcall : s.calls n with
  | subscribing f e₀ rest =>
    simp only [hcall] at hs
    rcases hr : (subscribeCallback e₀ f).exec s.tracker with ⟨r, t⟩
    rw [hr] at hs
    by_cases hx : jobOf f = j ∧ e₀ = e
    · obtain ⟨hj, rfl⟩ := hx
      cases r with
      | ok i => obtain rfl := Option.some.inj hs; exact OnTopic.subscribed rfl hcall hj hr
      | error err => obtain rfl := Option.some.inj hs; exact OnTopic.subscribed rfl hcall hj hr
    · rw [Config.exec_subscribeCallback] at hr
      have hne : topicOf (s.tracker.futures f).jobId e₀ ≠ topicOf j e := fun ht =>
        hx (topicOf_inj.mp (h.jobIds f ▸ ht))
      have hw := (weeded_subscribe (j := j) hne _).of_exec hr
      cases r with
      | ok i =>
        obtain rfl := Option.some.inj hs
        refine OnTopic.aside (idle_update (fun _ => id) rfl (fun _ => id) (fun p hp => ?_) ?_) hw
        · rw [hcall, ← phase_indexing hx i false]
          exact hp
        · rw [hcall]
          exact phase_subscribing_ne f e₀ rest
      | error err =>
        obtain rfl := Option.some.inj hs
        refine OnTopic.aside (idle_update (fun _ => id) rfl (fun _ => id) (fun p hp => ?_) ?_) hw
        · have hp' : (none : Option Phase) = some p := hp
          contradiction
        · rw [hcall]
          exact phase_subscribing_ne f e₀ rest
  | indexing f e₀ i o rest =>
    simp only [hcall] at hs
    by_cases hx : jobOf f = j ∧ e₀ = e
    · obtain ⟨hj, rfl⟩ := hx
      have hnext := OnTopic.indexed (l := ⟨rt, .proceed n⟩) rfl hcall hj
      obtain rfl := Option.some.inj hs
      cases rest <;> exact hnext
    · obtain rfl := Option.some.inj hs
      refine OnTopic.aside (idle_update (fun _ => id) rfl (fun _ => id) (fun p hp => ?_) ?_) ?_
      · rw [hcall]
        cases rest with
        | nil =>
          have hp' : (none : Option Phase) = some p := hp
          contradiction
        | cons e' rest =>
          rw [← phase_next hx]
          exact hp
      · rw [hcall, phase_indexing hx]
        exact phase_subscribing_ne f e₀ rest
      · show Weeded j (topicOf j e) s.tracker ((indexCallback rt e₀ f i).after s.tracker)
        rw [after, Config.exec_indexCallback]
        refine weeded_indexed i fun ht => hx ?_
        rw [Config.internalInfo_topic, h.jobIds] at ht
        exact topicOf_inj.mp ht
  | adding a f =>
    simp only [hcall] at hs
    rcases hr : (subscribeListener a f).exec s.tracker with ⟨r, t⟩
    rw [hr] at hs
    by_cases ha : a.topic = topicOf j e
    · cases r with
      | ok i => obtain rfl := Option.some.inj hs; exact OnTopic.joined rfl hcall ha hr
      | error err => obtain rfl := Option.some.inj hs; exact OnTopic.joined rfl hcall ha hr
    · rw [show (subscribeListener a f).exec s.tracker = _ from exec_bind_ok (exec_get s.tracker)] at hr
      have hw := (weeded_subscribe (j := j) ha _).of_exec hr
      cases r with
      | ok i =>
        obtain rfl := Option.some.inj hs
        exact OnTopic.aside (idle_quiet (fun _ => id) rfl (fun _ => id) (by rw [hcall]; rfl) (if_neg ha)) hw
      | error err =>
        obtain rfl := Option.some.inj hs
        exact OnTopic.aside (idle_quiet (fun _ => id) rfl (fun _ => id) (by rw [hcall]; rfl) rfl) hw
  | validating a f i o =>
    simp only [hcall] at hs
    rcases hr : (validateListener a f i).exec s.tracker with ⟨r, t⟩
    rw [hr] at hs
    by_cases ha : a.topic = topicOf j e
    · cases r with
      | ok k => obtain rfl := Option.some.inj hs; exact OnTopic.validated rfl hcall ha hr
      | error err => obtain rfl := Option.some.inj hs; exact OnTopic.validated rfl hcall ha hr
    · -- the id leads to the topic of the call, if anywhere
      have hp := h.holds.listed n i ⟨a.topic, f, o⟩ (by rw [hcall]; rfl)
      have hown : s.tracker.subClient.topicBySubscriptionId.get? i ≠ some (topicOf j e) := by
        intro ht
        rcases h.tracker.owned i _ ht with ho | ⟨q, hq, hqt⟩
        · rw [(h.tracker.inFlight i _ hp).2] at ho
          contradiction
        · rw [hp] at hq
          obtain rfl := Option.some.inj hq
          exact ha hqt
      have hw : Weeded j (topicOf j e) s.tracker t := by
        have hw := weeded_validateListener (j := j) ha f hown
        rwa [after, hr] at hw
      cases r with
      | ok k =>
        obtain rfl := Option.some.inj hs
        exact OnTopic.aside (idle_quiet (fun _ => id) rfl (fun _ => id) (by rw [hcall]; exact if_neg ha) rfl) hw
      | error err =>
        obtain rfl := Option.some.inj hs
        exact OnTopic.aside (idle_quiet (fun _ => id) rfl (fun _ => id) (by rw [hcall]; exact if_neg ha) rfl) hw
  | idle => simp [hcall] at hs
  | cancelling f => simp [hcall] at hs
  | checking f => simp [hcall] at hs
  | ended r => simp [hcall] at hs

variable (hinj : ∀ f g, jobOf f = jobOf g → f = g)
include hinj

/-- Every status, from whatever source. -/
theorem Homed.onTopic_status (hi : Idle jobOf j e s s') {m : StatusMessage} {f : FutureRef}
    (ht : s'.tracker = (applyStatus l.rt m f).after s.tracker) : OnTopic jobOf j e s l s' := by
  by_cases hj : jobOf f = j
  · rw [after] at ht
    cases hd : (s.tracker.futures f).done with
    | true =>
      rw [exec_applyStatus_done l.rt m f hd] at ht
      refine OnTopic.aside hi ?_
      rw [ht]
      exact refl _
    | false =>
      cases hterm : (decoded l.rt m).terminal with
      | false =>
        rw [exec_applyStatus_running l.rt m f hd hterm] at ht
        refine OnTopic.aside hi ?_
        rw [ht]
        exact weeded_of_same (same_accept l.rt m f) e
      | true =>
        have hids := keepsIds_applyStatus l.rt m f s.tracker
        have hlost := lost_applyStatus l.rt m f s.tracker
        rw [after] at hids hlost
        rw [← ht] at hids hlost
        refine OnTopic.closed hi hlost (fun g hg => ?_) fun g hg => ?_
        · rw [ht, exec_applyStatus_terminal l.rt m f hd hterm] at hg
          rw [h.jobIds, hj] at hg
          exact (registry_discardJob_sub l.rt j (s.tracker.accept l.rt m f)) g hg
        have hgf : g = f := hinj g f (((h.ids hids).2 j g hg).trans hj.symm)
        subst hgf
        have hframe := congrFun (congrArg (fun x => x.2.1) (frame_discardJob l.rt (s.tracker.futures g).jobId
          (s.tracker.accept l.rt m g))) g
        rw [ht, exec_applyStatus_terminal l.rt m g hd hterm]
        refine Eq.trans (congrArg JobFuture.done hframe) ?_
        show ((s.tracker.accept l.rt m g).futures g).done = true
        rw [accept_done l.rt m g hd, hterm]
  · refine OnTopic.aside hi ?_
    rw [ht]
    refine weeded_of_same (same_applyStatus l.rt m ?_ h.tracker.own) e
    rw [h.jobIds]
    exact hj

omit h hinj in
/-- A check of the job stamps the heartbeat records. -/
theorem onTopic_check {j' : String} (hi : Idle jobOf j e s s')
    (hl : l.act = .beginSchedulerCheck j' ∨ ∃ n, l.act = .startCheck n j')
    (ht : s'.tracker = (beginSchedulerCheck l.rt j').after s.tracker) : OnTopic jobOf j e s l s' := by
  rw [after] at ht
  rcases after_beginSchedulerCheck l.rt j' s.tracker with ⟨f, -, -, he⟩ | ⟨-, he⟩
  · rw [he] at ht
    by_cases hx : j' = j ∧ e = .heartbeat
    · obtain ⟨rfl, rfl⟩ := hx
      exact OnTopic.checked hi rfl hl ht
    · refine OnTopic.aside hi ?_
      rw [ht]
      refine Weeded.of_eq rfl (fun i => ?_) (fun _ => rfl) id
      rw [record?_restamp, if_neg fun ht => hx ?_]
      obtain ⟨hj, he⟩ := topicOf_inj.mp ht
      exact ⟨hj.symm, he⟩
  · rw [he] at ht
    refine OnTopic.aside hi ?_
    rw [ht]
    exact refl _

/-- The delivery of a captured callback. -/
theorem Homed.onTopic_deliver (hi : Idle jobOf j e s s') (hl : l.act = .deliver) {sub : Subscription ClientCallback}
    {m : SlurmMessage} {rest : List (Subscription ClientCallback × SlurmMessage)} (hc : s.captured = (sub, m) :: rest)
    (ht : s'.tracker = (deliver l.rt m sub).after s.tracker) : OnTopic jobOf j e s l s' := by
  have hsame : ∀ ts, Weeded j (topicOf j e) s.tracker { s.tracker with tasks := ts } := fun _ =>
    Weeded.of_eq rfl (fun _ => rfl) (fun _ => rfl) id
  cases hcb : sub.callback with
  | ignoreStatus =>
    refine OnTopic.aside hi ?_
    rw [ht, deliver, hcb]
    exact refl _
  | dispatch d =>
    refine OnTopic.aside hi ?_
    rw [ht, deliver, hcb]
    exact hsame _
  | log j' slurm =>
    refine OnTopic.aside hi ?_
    rw [ht, deliver, hcb]
    exact hsame _
  | heartbeat j' slurm =>
    obtain ⟨ts, he⟩ := after_deliver_heartbeat l.rt m hcb s.tracker
    rw [he] at ht
    by_cases hsub : sub.topic = topicOf j e
    · rw [hsub] at ht
      exact OnTopic.heard hi hl hc hcb hsub ht
    · refine OnTopic.aside hi ?_
      rw [ht]
      refine Weeded.of_eq rfl (fun i => ?_) (fun _ => rfl) id
      exact (record?_restamp _ _ _ _).trans (if_neg (Ne.symm hsub))
  | event f =>
    rcases after_deliver_event (s := s.tracker) hcb l.rt m with he | ⟨m', he⟩
    · refine OnTopic.aside hi ?_
      rw [ht, he]
      exact refl _
    · exact h.onTopic_status hinj hi (ht.trans he)

/-- **Every step concerns the event of the job in one of these ways.** -/
theorem Homed.onTopic (hl : Sectioned l) (hk : Leaves j e s l) (hs : Steps s l s') : OnTopic jobOf j e s l s' := by
  obtain ⟨rt, act⟩ := l
  unfold Steps Session.step at hs
  unfold Sectioned at hl
  unfold Leaves at hk
  cases act with
  | track f => exact hl.elim
  | addSubscription a => exact hl.elim
  | dispatchMessage t m => exact hl.elim
  | applyStatus m f =>
    obtain rfl := Option.some.inj hs
    exact h.onTopic_status hinj (idle_same (fun _ => id) rfl fun _ => id) (l := ⟨rt, .applyStatus m f⟩) rfl
  | removeSubscriptionById ids =>
    obtain rfl := Option.some.inj hs
    exact OnTopic.aside (idle_same (fun _ => id) rfl fun _ => id) (weeded_removeSubscriptionById h.tracker hk)
  | removeSubscriptionByTopic t =>
    obtain rfl := Option.some.inj hs
    refine OnTopic.aside ⟨fun _ => id, fun n p hp => ?_, fun n i hp => ?_, fun _ => Or.inl⟩
      (weeded_removeSubscriptionByTopic hk _)
    · have hp' : ((s.calls n).overtake s.jobOf t).phase jobOf j e = some p := hp
      rwa [phase_overtake] at hp'
    · exact (phase_overtake t (s.calls n)).trans hp
  | removeSubscriptionsForJob j' skip =>
    obtain rfl := Option.some.inj hs
    have hi : Idle jobOf j e s { s with tracker := (removeSubscriptionsForJob rt j' skip).after s.tracker } :=
      idle_same (fun _ => id) rfl fun _ => id
    rcases exec_removeSubscriptionsForJob rt j' skip with ⟨f, -, -, -, he⟩ | ⟨hf, he⟩
    · exact h.onTopic_status hinj (l := ⟨rt, .removeSubscriptionsForJob j' skip⟩) hi (congrArg Prod.snd he)
    · have ht : (removeSubscriptionsForJob rt j' skip).after s.tracker = (discardJob rt j').after s.tracker :=
        congrArg Prod.snd he
      by_cases hj : j' = j
      · subst hj
        refine OnTopic.closed hi ?_ (fun f hf' => ?_) fun f hf' => ?_
        · show Lost s.tracker _
          rw [ht]
          exact lost_discardJob rt j' s.tracker
        · have hreg : ((discardJob rt j').after s.tracker).futureRegistry.get? j' = some f := ht ▸ hf'
          exact registry_discardJob_sub rt j' s.tracker f hreg
        · have hreg : ((discardJob rt j').after s.tracker).futureRegistry.get? j' = some f := ht ▸ hf'
          have hfut : ((discardJob rt j').after s.tracker).futures = s.tracker.futures :=
            congrArg (fun x => x.2.1) (frame_discardJob rt j' s.tracker)
          show (((removeSubscriptionsForJob rt j' skip).after s.tracker).futures f).done = true
          rw [ht, hfut]
          rcases registry_discardJob rt j' s.tracker with hnone | ⟨⟨err, herr⟩, hsame⟩
          · rw [hnone] at hreg
            contradiction
          · refine (hf f (hsame ▸ hreg)).resolve_right fun hskip => ?_
            obtain ⟨t, hok⟩ := hk rfl hskip
            rw [he] at hok
            rw [hok] at herr
            contradiction
      · refine OnTopic.aside hi (weeded_of_same ?_ e)
        show Same (jobView j) s.tracker _
        rw [ht]
        exact same_discardJob rt hj h.tracker.own
  | beginSchedulerCheck j' =>
    obtain rfl := Option.some.inj hs
    exact onTopic_check (l := ⟨rt, .beginSchedulerCheck j'⟩) (idle_same (fun _ => id) rfl fun _ => id)
      (Or.inl rfl) rfl
  | listenGlobal e' cb =>
    obtain rfl := Option.some.inj hs
    exact OnTopic.aside (idle_same (fun _ => id) rfl fun _ => id)
      (Weeded.of_eq rfl (fun _ => rfl) (fun _ => rfl) id)
  | startTrack n f =>
    simp only at hs
    cases hcall : s.calls n with
    | idle =>
      simp only [hcall] at hs
      split_ifs at hs with hf
      obtain rfl := Option.some.inj hs
      by_cases hj : jobOf f = j
      · exact OnTopic.published rfl hcall hj (not_or.mp hf).1
      · refine OnTopic.aside (idle_quiet (fun _ => List.mem_append_left _) rfl (fun _ => id) ?_ ?_) ?_
        · rw [hcall]
          rfl
        · exact if_neg hj
        · refine Weeded.of_eq ?_ (fun _ => rfl) (fun _ => rfl) id
          refine Dict.get?_set_ne _ _ ?_
          rw [h.jobIds]
          exact Ne.symm hj
    | _ => simp [hcall] at hs
  | startAdd n a =>
    simp only at hs
    cases hcall : s.calls n with
    | idle =>
      simp only [hcall] at hs
      rcases hr : (checkActive a).exec s.tracker with ⟨r, t⟩
      have ht : t = s.tracker := by
        have hx := congrArg Prod.snd hr
        rw [Config.exec_checkActive] at hx
        split at hx
        · exact hx.symm
        · split at hx <;> exact hx.symm
      subst ht
      rw [hr] at hs
      cases r with
      | ok f =>
        obtain rfl := Option.some.inj hs
        exact OnTopic.aside (idle_quiet (fun _ => id) rfl (fun _ => id) (by rw [hcall]; rfl) rfl) (refl _)
      | error err =>
        obtain rfl := Option.some.inj hs
        exact OnTopic.aside (idle_quiet (fun _ => id) rfl (fun _ => id) (by rw [hcall]; rfl) rfl) (refl _)
    | _ => simp [hcall] at hs
  | startCancel n j' =>
    simp only at hs
    cases hcall : s.calls n with
    | idle =>
      simp only [hcall] at hs
      obtain rfl := Option.some.inj hs
      exact OnTopic.aside (idle_quiet (fun _ => id) rfl (fun _ => id) (by rw [hcall]; rfl) rfl) (refl _)
    | _ => simp [hcall] at hs
  | startCheck n j' =>
    simp only at hs
    cases hcall : s.calls n with
    | idle =>
      simp only [hcall] at hs
      rcases hr : (beginSchedulerCheck rt j').exec s.tracker with ⟨r, t⟩
      have ht : t = (beginSchedulerCheck rt j').after s.tracker := by rw [after, hr]
      rw [hr] at hs
      rcases r with err | (_ | f)
      · obtain rfl := Option.some.inj hs
        exact onTopic_check (l := ⟨rt, .startCheck n j'⟩)
          (idle_quiet (fun _ => id) rfl (fun _ => id) (by rw [hcall]; rfl) rfl) (Or.inr ⟨n, rfl⟩) ht
      · obtain rfl := Option.some.inj hs
        exact onTopic_check (l := ⟨rt, .startCheck n j'⟩)
          (idle_quiet (fun _ => id) rfl (fun _ => id) (by rw [hcall]; rfl) rfl) (Or.inr ⟨n, rfl⟩) ht
      · obtain rfl := Option.some.inj hs
        exact onTopic_check (l := ⟨rt, .startCheck n j'⟩)
          (idle_quiet (fun _ => id) rfl (fun _ => id) (by rw [hcall]; rfl) rfl) (Or.inr ⟨n, rfl⟩) ht
    | _ => simp [hcall] at hs
  | proceed n => exact h.onTopic_proceed hs
  | cancelled n rest =>
    simp only at hs
    cases hcall : s.calls n with
    | cancelling future =>
      simp only [hcall] at hs
      split at hs
      · obtain rfl := Option.some.inj hs
        exact OnTopic.aside (idle_quiet (fun _ => id) rfl (fun _ => id) (by rw [hcall]; rfl) rfl) (refl _)
      · obtain rfl := Option.some.inj hs
        exact OnTopic.aside (idle_quiet (fun _ => id) rfl (fun _ => id) (by rw [hcall]; rfl) rfl) (refl _)
      · obtain rfl := Option.some.inj hs
        exact h.onTopic_status hinj (l := ⟨rt, .cancelled n _⟩)
          (idle_quiet (fun _ => id) rfl (fun _ => id) (by rw [hcall]; rfl) rfl) rfl
    | _ => simp [hcall] at hs
  | checked n verdict =>
    simp only at hs
    cases hcall : s.calls n with
    | checking f =>
      simp only [hcall] at hs
      split at hs
      · obtain rfl := Option.some.inj hs
        exact OnTopic.aside (idle_quiet (fun _ => id) rfl (fun _ => id) (by rw [hcall]; rfl) rfl) (refl _)
      · obtain rfl := Option.some.inj hs
        exact h.onTopic_status hinj (l := ⟨rt, .checked n _⟩)
          (idle_quiet (fun _ => id) rfl (fun _ => id) (by rw [hcall]; rfl) rfl) rfl
    | _ => simp [hcall] at hs
  | poll t m =>
    simp only at hs
    split at hs
    · obtain rfl := Option.some.inj hs
      refine OnTopic.aside ⟨fun _ => id, fun _ _ => id, fun _ _ => id, fun x hx => Or.inr ?_⟩ (refl _)
      obtain ⟨sub, hsub, rfl⟩ := List.mem_map.mp hx
      obtain ⟨i, hi⟩ := RedisSubClient.mem_capture.mp hsub
      obtain ⟨rfl, rfl⟩ := RedisSubClient.registration?_filed h.tracker.client hi
      exact hi
    · simp at hs
  | deliver =>
    simp only at hs
    cases hc : s.captured with
    | nil => simp [hc] at hs
    | cons x rest =>
      obtain ⟨sub, m⟩ := x
      simp only [hc] at hs
      obtain rfl := Option.some.inj hs
      refine h.onTopic_deliver hinj (l := ⟨rt, .deliver⟩) (idle_same (fun _ => id) rfl fun x hx => ?_) rfl hc rfl
      rw [hc]
      exact List.mem_cons_of_mem _ hx

omit h hinj in
/-- A step that does not leave the subscription alone takes something away, and nothing else. -/
theorem idle_of_removal (hk : ¬ Leaves j e s l) (hs : Steps s l s') : Idle jobOf j e s s' ∧ Lost s.tracker s'.tracker := by
  obtain ⟨rt, act⟩ := l
  unfold Leaves at hk
  cases act with
  | removeSubscriptionByTopic t =>
    obtain rfl := Option.some.inj hs
    refine ⟨⟨fun _ => id, fun n p hp => ?_, fun n i hp => ?_, fun _ => Or.inl⟩,
      lost_removeSubscriptionByTopic t s.tracker⟩
    · have hp' : ((s.calls n).overtake s.jobOf t).phase jobOf j e = some p := hp
      rwa [phase_overtake] at hp'
    · exact (phase_overtake t (s.calls n)).trans hp
  | removeSubscriptionById ids =>
    obtain rfl := Option.some.inj hs
    exact ⟨idle_same (fun _ => id) rfl fun _ => id, lost_removeSubscriptionById ids s.tracker⟩
  | removeSubscriptionsForJob j' skip =>
    obtain rfl := Option.some.inj hs
    exact ⟨idle_same (fun _ => id) rfl fun _ => id, lost_removeSubscriptionsForJob rt j' skip s.tracker⟩
  | _ => exact absurd trivial hk

end Inversion

end Session

end SlurmManager
