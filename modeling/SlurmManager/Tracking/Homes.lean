import SlurmManager.Tracking.Interleaving
import SlurmManager.Tracking.JobView

/-!
# Homes — every id lies where it leads

What all reachable states have in common, whatever Redis answers and however `track` is raced: the ids of
the tracker lead to its records, each record lies under a topic of its job, and the client has no id
that is neither the tracker's nor held by a call in flight.

* `JobTracker.Homed`: the invariant of a tracker, next to the registrations in flight (`pending`).
* `homed_*`: the operations keep it; `Homed.opened` and `Homed.closed` are the two that change what is in flight.
* `Session.run_homed`: it holds in every state of every run.
-/

namespace SlurmManager

open Program

namespace JobTracker

variable {pending : SubId → Option Pending} {s s' : JobTracker}

/-- Ids lead to records, and records lie under the topics of their jobs. -/
structure Homed (pending : SubId → Option Pending) (s : JobTracker) : Prop where
  client : s.subClient.WellFormed
  owner_iff : ∀ i t, s.topicBySubscriptionId.get? i = some t ↔ (s.record? t i).isSome
  filed : ∀ t i info, s.record? t i = some info → info.callbackId = some i ∧ info.topic = t ∧ IsTopicOf info.jobId t
  fresh : ∀ (i : ℕ) t, s.topicBySubscriptionId.get? i = some t → i < s.subClient.nextUuid
  owned : ∀ i t, s.subClient.topicBySubscriptionId.get? i = some t →
    s.topicBySubscriptionId.get? i = some t ∨ ∃ p, pending i = some p ∧ p.topic = t
  inFlight : ∀ (i : ℕ) p, pending i = some p → i < s.subClient.nextUuid ∧ s.topicBySubscriptionId.get? i = none
  globals : ∀ (i : ℕ) cb, s.globalCallbacks.get? i = some cb →
    i < s.subClient.nextUuid ∧ s.topicBySubscriptionId.get? i = none ∧ pending i = none
  own : s.ActiveOwn

/-! ## Registrations that are lost or stamped -/

section Lost

/-- A record of the second tracker is one of the first, up to stamps. -/
def RecordsFrom (s s' : JobTracker) : Prop :=
  ∀ t i info, s'.record? t i = some info → ∃ info₀, s.record? t i = some info₀ ∧ info.unstamped = info₀.unstamped

theorem recordsFrom_of_sub (h : ∀ t i info, s'.record? t i = some info → s.record? t i = some info) :
    RecordsFrom s s' := fun t i info hi => ⟨info, h t i info hi, rfl⟩

variable (h : s.Homed pending)
include h

/-- The ids of the first tracker that lead somewhere in the second. -/
theorem Homed.topic_of_records (hown : ∀ i t, s'.topicBySubscriptionId.get? i = some t ↔ (s'.record? t i).isSome)
    (hrec : RecordsFrom s s') {i : SubId} {t : Topic} (hi : s'.topicBySubscriptionId.get? i = some t) :
    s.topicBySubscriptionId.get? i = some t := by
  obtain ⟨info, hinfo⟩ := Option.isSome_iff_exists.mp ((hown i t).mp hi)
  obtain ⟨info₀, h₀, -⟩ := hrec t i info hinfo
  rw [h.owner_iff, h₀]
  rfl

/-- An operation that loses registrations on both sides, or stamps them. -/
theorem Homed.lose (hw : s'.subClient.WellFormed) (hn : s'.subClient.nextUuid = s.subClient.nextUuid)
    (hown : ∀ i t, s'.topicBySubscriptionId.get? i = some t ↔ (s'.record? t i).isSome) (hrec : RecordsFrom s s')
    (hcl : ∀ i t, s'.subClient.topicBySubscriptionId.get? i = some t →
      s.subClient.topicBySubscriptionId.get? i = some t ∧
        (s.topicBySubscriptionId.get? i = some t → s'.topicBySubscriptionId.get? i = some t))
    (hg : ∀ i cb, s'.globalCallbacks.get? i = some cb → s.globalCallbacks.get? i = some cb)
    (ha : ∀ j t, t ∈ s'.activeTopics j → t ∈ s.activeTopics j) : s'.Homed pending := by
  have htop := fun i t => h.topic_of_records hown hrec (i := i) (t := t)
  have hnone : ∀ i, s.topicBySubscriptionId.get? i = none → s'.topicBySubscriptionId.get? i = none := by
    intro i hi
    cases hs : s'.topicBySubscriptionId.get? i with
    | none => rfl
    | some t =>
      rw [htop i t hs] at hi
      contradiction
  refine ⟨hw, hown, fun t i info hi => ?_, fun i t hi => ?_, fun i t hi => ?_, fun i p hp => ?_, fun i cb hi => ?_,
    fun j t ht => h.own j t (ha j t ht)⟩
  · obtain ⟨info₀, h₀, hu⟩ := hrec t i info hi
    obtain ⟨hid, htopic, hjob, -⟩ := SubscriptionInfo.eq_of_unstamped hu
    rw [hid, htopic, hjob]
    exact h.filed t i info₀ h₀
  · rw [hn]
    exact h.fresh i t (htop i t hi)
  · obtain ⟨hc, hkeep⟩ := hcl i t hi
    exact (h.owned i t hc).imp_left hkeep
  · rw [hn]
    obtain ⟨hlt, htopic⟩ := h.inFlight i p hp
    exact ⟨hlt, hnone i htopic⟩
  · rw [hn]
    obtain ⟨hlt, htopic, hp⟩ := h.globals i cb (hg i cb hi)
    exact ⟨hlt, hnone i htopic, hp⟩

/-- An operation that leaves all maps alone. -/
theorem Homed.congr (hm : SameMaps s s') (hg : s'.globalCallbacks = s.globalCallbacks) : s'.Homed pending := by
  have hrec : ∀ t i, s'.record? t i = s.record? t i := fun t i => record?_congr (by rw [hm.subscriptionsByTopic]) i
  refine h.lose (by rw [hm.subClient]; exact h.client) (by rw [hm.subClient]) (fun i t => ?_)
    (recordsFrom_of_sub fun t i info hi => by rw [← hrec]; exact hi) (fun i t hi => ?_) (fun i cb hi => by rwa [hg] at hi)
    fun j t ht => by rwa [hm.activeTopics] at ht
  · rw [hm.topicBySubscriptionId, hrec]
    exact h.owner_iff i t
  · rw [hm.subClient] at hi
    rw [hm.topicBySubscriptionId]
    exact ⟨hi, id⟩

end Lost

/-! ## Removals and stamps -/

section Removals

theorem homed_tasks (l : JobTracker → List Task) :
    Keeps (Homed pending) (modify fun s => { s with tasks := l s } : Program PyError JobTracker PUnit) :=
  within_modify fun _ h => h.congr ⟨rfl, rfl, rfl, rfl⟩ rfl

/-- The records of a topic that has been popped. -/
theorem record?_erase {t t' : Topic} {i : SubId} (hs : s'.subscriptionsByTopic = s.subscriptionsByTopic.erase t) :
    s'.record? t' i = if t' = t then none else s.record? t' i := by
  unfold record?
  rw [hs, Dict.get?_erase]
  split_ifs <;> rfl

/-- The two sides lose a topic. -/
theorem Homed.dropped (h : s.Homed pending) {t : Topic}
    (hsub : s'.subscriptionsByTopic = s.subscriptionsByTopic.erase t)
    (htop : s'.topicBySubscriptionId = s.topicBySubscriptionId.eraseAll ((s.subscriptionsByTopic.get? t).getD ∅).keys)
    (hcl : RedisSubClient.Removed s.subClient (fun _ t' => t' = t) s'.subClient)
    (hg : s'.globalCallbacks = s.globalCallbacks)
    (ha : ∀ j t', t' ∈ s'.activeTopics j → t' ∈ s.activeTopics j) : s'.Homed pending := by
  have hrec : ∀ t' i, s'.record? t' i = if t' = t then none else s.record? t' i := fun _ _ => record?_erase hsub
  have hkey : ∀ i : SubId, i ∈ ((s.subscriptionsByTopic.get? t).getD ∅).keys ↔
      s.topicBySubscriptionId.get? i = some t := fun i => by
    rw [Dict.mem_keys_iff, h.owner_iff]
    rfl
  have howner : ∀ i t', s'.topicBySubscriptionId.get? i = some t' ↔
      s.topicBySubscriptionId.get? i = some t' ∧ t' ≠ t := by
    intro i t'
    rw [htop, Dict.get?_eraseAll]
    split_ifs with hi
    · rw [hkey] at hi
      rw [hi]
      refine ⟨fun ht => absurd ht (by simp), ?_⟩
      rintro ⟨ht, hne⟩
      exact absurd (Option.some.inj ht).symm hne
    · refine ⟨fun ht => ⟨ht, ?_⟩, And.left⟩
      rintro rfl
      exact hi ((hkey i).mpr ht)
  refine h.lose hcl.wellFormed hcl.nextUuid (fun i t' => ?_) (recordsFrom_of_sub fun t' i info hi => ?_)
    (fun i t' hi => ?_) (fun i cb hi => by rwa [hg] at hi) ha
  · rw [howner, hrec, h.owner_iff]
    split_ifs with ht <;> simp [ht]
  · rw [hrec] at hi
    split_ifs at hi
    exact hi
  · obtain ⟨hi, hne⟩ := (hcl.topic_iff h.client).mp hi
    exact ⟨hi, fun ht => (howner i t').mpr ⟨ht, hne⟩⟩

theorem homed_dropTopic (t : Topic) : Keeps (Homed pending) (dropTopic t) := by
  intro s h
  obtain ⟨r, c, hc, hr, -⟩ := RedisSubClient.unsubscribeTopic_spec h.client t
  rw [after, exec_dropTopic, hc]
  exact h.dropped rfl rfl hr rfl fun _ _ => id

theorem homed_discardJob (rt : Runtime) (j : String) : Keeps (Homed pending) (discardJob rt j) := by
  refine Keeps.get_bind fun s₀ _ => Within.bind (within_modify fun s h => ?_) fun _ =>
    Within.bind (within_forM fun t _ => homed_dropTopic t) fun _ => within_modify fun s h => ?_
  · refine h.lose h.client rfl h.owner_iff (recordsFrom_of_sub fun _ _ _ => id) (fun i t hi => ⟨hi, id⟩)
      (fun _ _ => id) fun j' t ht => ?_
    unfold activeTopics at ht
    dsimp only at ht
    rw [Dict.get?_erase] at ht
    split_ifs at ht
    · simp at ht
    · exact ht
  · exact h.congr ⟨rfl, rfl, rfl, rfl⟩ rfl

theorem homed_applyStatus (rt : Runtime) (m : StatusMessage) (f : FutureRef) :
    Keeps (Homed pending) (applyStatus rt m f) := by
  intro s h
  have haccept : (s.accept rt m f).Homed pending := h.congr (sameMaps_accept rt m f) rfl
  cases hd : (s.futures f).done with
  | true =>
    rw [after, exec_applyStatus_done rt m f hd]
    exact h
  | false =>
    cases ht : (decoded rt m).terminal with
    | false =>
      rw [after, exec_applyStatus_running rt m f hd ht]
      exact haccept
    | true =>
      rw [after, exec_applyStatus_terminal rt m f hd ht]
      exact homed_discardJob rt _ _ haccept

theorem homed_removeSubscriptionsForJob (rt : Runtime) (j : String) (skip : Bool) :
    Keeps (Homed pending) (removeSubscriptionsForJob rt j skip) := by
  intro s h
  rw [after]
  rcases exec_removeSubscriptionsForJob rt j skip with ⟨f, -, -, -, he⟩ | ⟨-, he⟩
  · rw [he]
    exact homed_applyStatus rt _ f s h
  · rw [he]
    exact homed_discardJob rt j s h

/-- Stamps on the records of a topic. -/
theorem homed_stamp (t : Topic) {k : SubId → SubscriptionInfo → SubscriptionInfo}
    (hk : ∀ i info, (k i info).unstamped = info.unstamped) :
    Keeps (Homed pending) (modify fun s => { s with
      subscriptionsByTopic := s.subscriptionsByTopic.modify t fun b => b.mapValues k } :
        Program PyError JobTracker PUnit) := by
  refine within_modify fun s h => ?_
  have hrec : ∀ t' i, ({ s with subscriptionsByTopic := s.subscriptionsByTopic.modify t fun b => b.mapValues k } :
      JobTracker).record? t' i = if t' = t then (s.record? t' i).map (k i) else s.record? t' i := by
    intro t' i
    unfold record?
    dsimp only
    rw [Dict.get?_modify]
    split_ifs with ht
    · subst ht
      cases s.subscriptionsByTopic.get? t' with
      | none => rfl
      | some b => exact Dict.get?_mapValues b k i
    · rfl
  refine h.lose h.client rfl (fun i t' => ?_) (fun t' i info hi => ?_) (fun i t' hi => ⟨hi, id⟩) (fun _ _ => id)
    fun _ _ => id
  · rw [hrec]
    refine (h.owner_iff i t').trans ?_
    split_ifs
    · rw [Option.isSome_map]
    · rfl
  · rw [hrec] at hi
    split_ifs at hi
    · obtain ⟨info₀, h₀, rfl⟩ := Option.map_eq_some_iff.mp hi
      exact ⟨info₀, h₀, hk i info₀⟩
    · exact ⟨info, hi, rfl⟩

theorem homed_beginSchedulerCheck (rt : Runtime) (j : String) : Keeps (Homed pending) (beginSchedulerCheck rt j) := by
  refine Keeps.get_bind fun s _ => ?_
  split
  · exact within_pure _
  · split
    · exact within_pure _
    · refine Within.bind (homed_stamp _ fun i info => ?_) fun _ => within_pure _
      split_ifs <;> rfl

theorem homed_deliver (rt : Runtime) (m : SlurmMessage) (sub : Subscription ClientCallback) :
    Keeps (Homed pending) (deliver rt m sub) := by
  unfold deliver
  split
  · exact within_pure _
  · exact homed_tasks _
  · exact homed_tasks _
  · refine Within.bind (homed_stamp _ fun i info => ?_) fun _ => homed_tasks _
    split_ifs <;> rfl
  · split
    · exact Keeps.get_bind fun s _ => within_tryCatch (homed_applyStatus rt _ _) fun _ => within_pure _
    · exact within_pure _

theorem homed_dispatchMessage (rt : Runtime) (t : Topic) (m : SlurmMessage) :
    Keeps (Homed pending) (dispatchMessage rt t m) :=
  Keeps.get_bind fun _ _ => within_forM fun sub _ => homed_deliver rt m sub

/-- The tracker after the pops of `remove_subscription_by_id` and the call of the client. -/
def popped (i : SubId) (t : Topic) (s : JobTracker) : JobTracker :=
  { s with
    topicBySubscriptionId := s.topicBySubscriptionId.erase i
    subscriptionsByTopic := s.subscriptionsByTopic.modify t (Dict.erase · i)
    subClient := (RedisSubClient.unsubscribe i).after s.subClient }

theorem record?_popped (i k : SubId) (t t' : Topic) :
    (s.popped i t).record? t' k = if t' = t ∧ k = i then none else s.record? t' k := by
  unfold record? popped
  dsimp only
  rw [Dict.get?_modify]
  by_cases ht : t' = t
  · subst ht
    rw [if_pos rfl]
    cases hb : s.subscriptionsByTopic.get? t' with
    | none => simp
    | some b =>
      simp only [Option.map_some, Option.getD_some, Dict.get?_erase, true_and]
  · simp [ht]

theorem Homed.popped (h : s.Homed pending) {i : SubId} {t : Topic} (hi : s.topicBySubscriptionId.get? i = some t) :
    (s.popped i t).Homed pending := by
  obtain ⟨r, c, hc, hr, -⟩ := RedisSubClient.unsubscribe_spec h.client i
  have hcl : (s.popped i t).subClient = c := by
    unfold JobTracker.popped after
    rw [hc]
  have htop : ∀ k, (s.popped i t).topicBySubscriptionId.get? k =
      if k = i then none else s.topicBySubscriptionId.get? k := fun k => Dict.get?_erase _ _ _
  refine h.lose (by rw [hcl]; exact hr.wellFormed) (by rw [hcl]; exact hr.nextUuid) (fun k t' => ?_)
    (recordsFrom_of_sub fun t' k info hk => ?_) (fun k t' hk => ?_) (fun _ _ => id) fun _ _ => id
  · rw [htop, record?_popped]
    by_cases hk : k = i
    · subst hk
      rw [if_pos rfl]
      by_cases ht : t' = t
      · simp [ht]
      · have hnone : ¬ (s.record? t' k).isSome := by
          rw [← h.owner_iff, hi]
          exact fun he => ht (Option.some.inj he).symm
        simpa [ht] using hnone
    · rw [if_neg hk, if_neg (fun hx => hk hx.2)]
      exact h.owner_iff k t'
  · rw [record?_popped] at hk
    split_ifs at hk
    exact hk
  · rw [hcl] at hk
    obtain ⟨hk, hne⟩ := (hr.topic_iff h.client).mp hk
    refine ⟨hk, fun ht => ?_⟩
    rw [htop, if_neg hne]
    exact ht

/-- What `remove_subscription_by_id` leaves of a known id. -/
theorem after_removeId {i : SubId} {t : Topic} (hg : s.globalCallbacks.get? i = none)
    (ht : s.topicBySubscriptionId.get? i = some t) :
    (removeId i).after s = s.popped i t ∨ (((s.subscriptionsByTopic.get? t).getD ∅).erase i).isEmpty = true ∧
      ∃ active, (removeId i).after s = { s.popped i t with
          subscriptionsByTopic := (s.popped i t).subscriptionsByTopic.erase t
          activeSubscriptions := active } ∧
        ∀ j t', (t' ∈ (active.get? j).getD [] → t' ∈ s.activeTopics j) ∧
          (t' ≠ t → t' ∈ s.activeTopics j → t' ∈ (active.get? j).getD []) := by
  unfold popped after
  simp only [removeId, exec_bind, exec_get, hg, ht, exec_modify, onClient, exec_focus]
  rcases (RedisSubClient.unsubscribe i).exec s.subClient with ⟨r, c⟩
  cases r with
  | error e => exact .inl rfl
  | ok b =>
    dsimp only
    split_ifs with he
    · exact .inl rfl
    · refine .inr ⟨by simpa using he, ?_⟩
      cases ((s.subscriptionsByTopic.get? t).getD ∅).get? i with
      | none => exact ⟨_, rfl, fun _ _ => ⟨id, fun _ => id⟩⟩
      | some info =>
        refine ⟨_, rfl, fun j t' => ?_⟩
        rw [activeTopics_modify]
        split_ifs with hj
        · subst hj
          exact ⟨List.mem_of_mem_filter, fun hne ht' => List.mem_filter.mpr ⟨ht', by simpa using hne⟩⟩
        · exact ⟨id, fun _ => id⟩

theorem homed_removeId (i : SubId) : Keeps (Homed pending) (removeId i) := by
  intro s h
  cases hg : s.globalCallbacks.get? i with
  | some cb =>
    rw [after, exec_removeId_global hg]
    refine h.lose h.client rfl h.owner_iff (recordsFrom_of_sub fun _ _ _ => id) (fun i t hi => ⟨hi, id⟩)
      (fun k cb' hk => ?_) fun _ _ => id
    rw [Dict.get?_erase] at hk
    split_ifs at hk
    exact hk
  | none =>
    cases ht : s.topicBySubscriptionId.get? i with
    | none =>
      rw [after, exec_removeId_unknown hg ht]
      exact h
    | some t =>
      have hp := h.popped ht
      rcases after_removeId hg ht with he | ⟨hempty, active, he, hact⟩
      · rw [he]
        exact hp
      · -- the popped topic has no records
        have hbucket : ∀ k, (s.popped i t).record? t k = none := by
          intro k
          rw [record?_popped]
          split_ifs with hk
          · rfl
          · have hk' : k ≠ i := fun hki => hk ⟨rfl, hki⟩
            have hn := Dict.isEmpty_iff.mp hempty k
            rwa [Dict.get?_erase_ne _ hk'] at hn
        have hrec : ∀ t' k, ((removeId i).after s).record? t' k = (s.popped i t).record? t' k := by
          intro t' k
          rw [he, record?_erase (s := s.popped i t) rfl]
          split_ifs with hk
          · rw [hk, hbucket]
          · rfl
        have howner : ((removeId i).after s).topicBySubscriptionId = (s.popped i t).topicBySubscriptionId := by rw [he]
        refine hp.lose (by rw [he]; exact hp.client) (by rw [he]) (fun k t' => ?_)
          (recordsFrom_of_sub fun t' k info hk => by rwa [hrec] at hk) (fun k t' hk => ?_)
          (fun k cb hk => by rwa [he] at hk) fun j t' hj => ?_
        · rw [howner, hrec]
          exact hp.owner_iff k t'
        · rw [howner]
          rw [he] at hk
          exact ⟨hk, id⟩
        · rw [he] at hj
          exact (hact j t').1 hj

theorem homed_removeSubscriptionById (ids : List SubId) : Keeps (Homed pending) (removeSubscriptionById ids) :=
  within_forM fun i _ => homed_removeId i

theorem homed_removeSubscriptionByTopic (t : Topic) : Keeps (Homed pending) (removeSubscriptionByTopic t) := by
  intro s h
  obtain ⟨r, c, hc, hr, -⟩ := RedisSubClient.unsubscribeTopic_spec h.client t
  -- the records of a topic belong to one job
  obtain ⟨j, hj⟩ : ∃ j, ∀ e ∈ ((s.subscriptionsByTopic.get? t).getD ∅).entries, e.2.jobId = j := by
    have hjob : ∀ e ∈ ((s.subscriptionsByTopic.get? t).getD ∅).entries, IsTopicOf e.2.jobId t :=
      fun e he => (h.filed t e.1 e.2 (Dict.mem_entries_iff.mp he)).2.2
    generalize ((s.subscriptionsByTopic.get? t).getD ∅).entries = l at hjob
    cases l with
    | nil => exact ⟨"", by simp⟩
    | cons e₀ l => exact ⟨e₀.2.jobId, fun e he => (hjob e he).unique (hjob e₀ List.mem_cons_self)⟩
  obtain ⟨hrest, hact⟩ := foldl_unlist t j ((s.subscriptionsByTopic.get? t).getD ∅).entries hj
    { s with subscriptionsByTopic := s.subscriptionsByTopic.erase t }
  generalize hs₁ : ((s.subscriptionsByTopic.get? t).getD ∅).entries.foldl _ _ = s₁ at hrest hact
  have hcl : s₁.subClient = s.subClient := by rw [hrest]
  have hexec : (removeSubscriptionByTopic t).after s = { s₁ with subClient := c } := by
    simp only [after, removeSubscriptionByTopic, exec_bind, exec_get, exec_modify, onClient, exec_focus, hs₁, hcl, hc]
    cases r <;> rfl
  rw [hexec]
  refine h.dropped (by rw [hrest]) (by rw [hrest]; rfl) hr (by rw [hrest]) fun j' t' ht' => ?_
  have ht'' : t' ∈ s₁.activeTopics j' := ht'
  unfold activeTopics at ht''
  rw [hact] at ht''
  split_ifs at ht'' with hjl
  · rw [hjl.1]
    exact List.mem_of_mem_filter ht''
  · exact ht''

end Removals

/-! ## Ids that are drawn, indexed, or given up -/

section Drawn

theorem Homed.unlisted (h : s.Homed pending) : pending s.subClient.nextUuid = none := by
  cases hp : pending s.subClient.nextUuid with
  | none => rfl
  | some p => exact absurd (h.inFlight _ p hp).1 (lt_irrefl _)

/-- A manager-wide registration. -/
theorem homed_listenGlobal (e : Event) (cb : Callback) : Keeps (Homed pending) (listenGlobal e cb) := by
  intro s h
  have hw : ({ s.subClient with nextUuid := s.subClient.nextUuid + 1 } : RedisSubClient ClientCallback).WellFormed :=
    ⟨h.client.consistent, fun i p hi => Nat.lt_succ_of_lt (h.client.fresh i p hi), h.client.filed, h.client.ready,
      h.client.event_lt⟩
  refine ⟨hw, h.owner_iff, h.filed, fun i t hi => Nat.lt_succ_of_lt (h.fresh i t hi), h.owned, fun i p hi => ?_,
    fun i cb' hi => ?_, h.own⟩
  · exact ⟨Nat.lt_succ_of_lt (h.inFlight i p hi).1, (h.inFlight i p hi).2⟩
  · have hi' : (s.globalCallbacks.set s.subClient.nextUuid ⟨s.subClient.nextUuid, e, cb⟩).get? i = some cb' := hi
    rw [Dict.get?_set] at hi'
    split_ifs at hi' with hin
    · subst hin
      refine ⟨Nat.lt_succ_self _, ?_, h.unlisted⟩
      cases ht : s.topicBySubscriptionId.get? s.subClient.nextUuid with
      | none => exact ht
      | some t => exact absurd (h.fresh _ t ht) (lt_irrefl _)
    · obtain ⟨hlt, hrest⟩ := h.globals i cb' hi'
      exact ⟨Nat.lt_succ_of_lt hlt, hrest⟩

/-- A client subscription: it draws an id, which is then in flight, or it is refused. -/
theorem Homed.opened (h : s.Homed pending) {t : Topic} {cb : ClientCallback} (f : FutureRef)
    {r : Except PyError SubId} (he : (onClient (RedisSubClient.subscribe t cb)).exec s = (r, s')) :
    match r with
    | .ok i => i = s.subClient.nextUuid ∧ s'.Homed (Function.update pending i (some ⟨t, f, false⟩))
    | .error _ => s'.Homed pending := by
  obtain ⟨hr, hs⟩ := Prod.mk.inj he
  have hnone : s.topicBySubscriptionId.get? s.subClient.nextUuid = none := by
    cases ht : s.topicBySubscriptionId.get? s.subClient.nextUuid with
    | none => rfl
    | some t => exact absurd (h.fresh _ t ht) (lt_irrefl _)
  rcases RedisSubClient.subscribe_cases h.client t cb with ⟨c, hc, hsub⟩ | ⟨e, c, hc, href, -, -⟩
  · rw [hc] at hr hs
    subst hr hs
    have hn : c.nextUuid = s.subClient.nextUuid + 1 := hsub.nextUuid
    refine ⟨rfl, hsub.wellFormed, h.owner_iff, h.filed, fun i t' hi => ?_, fun i t' hi => ?_, fun i p hi => ?_,
      fun i cb' hi => ?_, h.own⟩
    · show i < c.nextUuid
      rw [hn]
      exact Nat.lt_succ_of_lt (h.fresh i t' hi)
    · have hi' : c.topicBySubscriptionId.get? i = some t' := hi
      rw [hsub.topic h.client] at hi'
      by_cases hin : i = s.subClient.nextUuid
      · subst hin
        rw [if_pos rfl] at hi'
        exact .inr ⟨_, Function.update_self _ _ _, Option.some.inj hi'⟩
      · rw [if_neg hin] at hi'
        rcases h.owned i t' hi' with ho | ⟨p, hp, hpt⟩
        · exact .inl ho
        · exact .inr ⟨p, by rwa [Function.update_of_ne hin], hpt⟩
    · show i < c.nextUuid ∧ s.topicBySubscriptionId.get? i = none
      rw [hn]
      by_cases hin : i = s.subClient.nextUuid
      · subst hin
        exact ⟨Nat.lt_succ_self _, hnone⟩
      · rw [Function.update_of_ne hin] at hi
        exact ⟨Nat.lt_succ_of_lt (h.inFlight i p hi).1, (h.inFlight i p hi).2⟩
    · show i < c.nextUuid ∧ s.topicBySubscriptionId.get? i = none ∧ _
      obtain ⟨hlt, htop, hp⟩ := h.globals i cb' hi
      rw [hn, Function.update_of_ne (Nat.ne_of_lt hlt)]
      exact ⟨Nat.lt_succ_of_lt hlt, htop, hp⟩
  · rw [hc] at hr hs
    subst hr hs
    have hn : s.subClient.nextUuid ≤ c.nextUuid := by rw [href.nextUuid]; exact Nat.le_succ _
    refine ⟨href.wellFormed, h.owner_iff, h.filed, fun i t' hi => lt_of_lt_of_le (h.fresh i t' hi) hn,
      fun i t' hi => h.owned i t' ?_, fun i p hi => ?_, fun i cb' hi => ?_, h.own⟩
    · have hi' : c.topicBySubscriptionId.get? i = some t' := hi
      rwa [href.topic h.client] at hi'
    · exact ⟨lt_of_lt_of_le (h.inFlight i p hi).1 hn, (h.inFlight i p hi).2⟩
    · obtain ⟨hlt, hrest⟩ := h.globals i cb' hi
      exact ⟨lt_of_lt_of_le hlt hn, hrest⟩

/-- A registration in flight is indexed. -/
theorem Homed.closed (h : s.Homed pending) {i : SubId} {p : Pending} {info : SubscriptionInfo} (hp : pending i = some p)
    (hi : info.callbackId = some i) (ht : info.topic = p.topic) (hj : IsTopicOf info.jobId info.topic) :
    (s.indexed info i).Homed (Function.update pending i none) := by
  obtain ⟨hlt, hnone⟩ := h.inFlight i p hp
  have htop := fun k => topic_indexed (s := s) info i k
  have hfree : ∀ t, s.record? t i = none := by
    intro t
    cases hr : s.record? t i with
    | none => rfl
    | some x =>
      have ho := (h.owner_iff i t).mpr (by rw [hr]; rfl)
      rw [hnone] at ho
      contradiction
  have hrec := record?_indexed (s := s) info i
  refine ⟨h.client, fun k t => ?_, fun t k x hk => ?_, fun k t hk => ?_, fun k t hk => ?_, fun k q hk => ?_,
    fun k cb hk => ?_, fun j t hjt => ?_⟩
  · rw [htop, hrec]
    by_cases hk : k = i
    · subst hk
      rw [if_pos rfl]
      by_cases ht' : t = info.topic
      · simp [ht']
      · simp [ht', Ne.symm ht', hfree]
    · rw [if_neg hk, if_neg fun hx => hk hx.2]
      exact h.owner_iff k t
  · rw [hrec] at hk
    split_ifs at hk with hk'
    · obtain rfl := Option.some.inj hk
      obtain ⟨rfl, rfl⟩ := hk'
      exact ⟨hi, rfl, hj⟩
    · exact h.filed t k x hk
  · rw [htop] at hk
    split_ifs at hk with hk'
    · rw [hk']
      exact hlt
    · exact h.fresh k t hk
  · rw [htop]
    by_cases hk' : k = i
    · subst hk'
      rcases h.owned k t hk with ho | ⟨q, hq, hqt⟩
      · rw [hnone] at ho
        contradiction
      · rw [hp] at hq
        obtain rfl := Option.some.inj hq
        rw [if_pos rfl, ht, hqt]
        exact .inl rfl
    · rw [if_neg hk', Function.update_of_ne hk']
      exact h.owned k t hk
  · have hk' : k ≠ i := by
      rintro rfl
      rw [Function.update_self] at hk
      contradiction
    rw [Function.update_of_ne hk'] at hk
    rw [htop, if_neg hk']
    exact h.inFlight k q hk
  · obtain ⟨hklt, hktop, hkp⟩ := h.globals k cb hk
    have hk' : k ≠ i := by
      rintro rfl
      rw [hp] at hkp
      contradiction
    rw [htop, if_neg hk', Function.update_of_ne hk']
    exact ⟨hklt, hktop, hkp⟩
  · rw [activeTopics_indexed] at hjt
    split_ifs at hjt with hji
    · subst hji
      rcases mem_addTopic.mp hjt with rfl | hjt
      · exact hj
      · exact h.own _ t hjt
    · exact h.own j t hjt

/-- A registration in flight is given up. -/
theorem Homed.undone (h : s.Homed pending) (i : SubId) :
    ({ s with subClient := (RedisSubClient.unsubscribe i).after s.subClient } : JobTracker).Homed
      (Function.update pending i none) := by
  obtain ⟨r, c, hc, hr, -⟩ := RedisSubClient.unsubscribe_spec h.client i
  have hcl : (RedisSubClient.unsubscribe i).after s.subClient = c := by rw [after, hc]
  have hpend : ∀ k q, Function.update pending i none k = some q → k ≠ i ∧ pending k = some q := by
    intro k q hk
    have hk' : k ≠ i := by
      rintro rfl
      rw [Function.update_self] at hk
      contradiction
    exact ⟨hk', by rwa [Function.update_of_ne hk'] at hk⟩
  rw [hcl]
  refine ⟨hr.wellFormed, h.owner_iff, h.filed, fun k t hk => ?_, fun k t hk => ?_, fun k q hk => ?_,
    fun k cb hk => ?_, h.own⟩
  · show k < c.nextUuid
    rw [hr.nextUuid]
    exact h.fresh k t hk
  · have hk' : c.topicBySubscriptionId.get? k = some t := hk
    obtain ⟨hk', hne⟩ := (hr.topic_iff h.client).mp hk'
    rw [Function.update_of_ne hne]
    exact h.owned k t hk'
  · show k < c.nextUuid ∧ _
    rw [hr.nextUuid]
    exact h.inFlight k q (hpend k q hk).2
  · show k < c.nextUuid ∧ _
    rw [hr.nextUuid]
    obtain ⟨hklt, hktop, hkp⟩ := h.globals k cb hk
    refine ⟨hklt, hktop, ?_⟩
    by_cases hk' : k = i
    · rw [hk', Function.update_self]
    · rw [Function.update_of_ne hk']
      exact hkp

/-- The flags of the registrations in flight do not matter. -/
theorem Homed.relisted (h : s.Homed pending) {k : Pending → Pending} (hk : ∀ p, (k p).topic = p.topic) :
    s.Homed fun i => (pending i).map k := by
  refine ⟨h.client, h.owner_iff, h.filed, h.fresh, fun i t hi => ?_, fun i p hp => ?_, fun i cb hi => ?_, h.own⟩
  · rcases h.owned i t hi with ho | ⟨p, hp, hpt⟩
    · exact .inl ho
    · exact .inr ⟨k p, by rw [hp]; rfl, (hk p).trans hpt⟩
  · obtain ⟨q, hq, -⟩ := Option.map_eq_some_iff.mp hp
    exact h.inFlight i q hq
  · obtain ⟨hlt, htop, hp⟩ := h.globals i cb hi
    exact ⟨hlt, htop, by rw [hp]; rfl⟩

/-- The indexing of an internal subscription. -/
theorem Homed.indexCallback (h : s.Homed pending) (rt : Runtime) {e : Event} {f : FutureRef} {i : SubId} {p : Pending}
    (hp : pending i = some p) (ht : p.topic = topicOf (s.futures f).jobId e) :
    ((JobTracker.indexCallback rt e f i).after s).Homed (Function.update pending i none) := by
  rw [after, Config.exec_indexCallback]
  refine h.closed hp (Config.internalInfo_callbackId rt e _ i) ?_ ?_
  · rw [Config.internalInfo_topic, ht]
  · rw [Config.internalInfo_topic, Config.internalInfo_jobId]
    exact isTopicOf_topicOf _ _

/-- The last section of `add_subscription`. -/
theorem Homed.validateListener (h : s.Homed pending) {a : AddArgs} {f : FutureRef} {i : SubId} {p : Pending}
    (hp : pending i = some p) (ht : p.topic = a.topic) :
    ((JobTracker.validateListener a f i).after s).Homed (Function.update pending i none) := by
  unfold JobTracker.validateListener
  rw [after, exec_bind_ok (exec_get s)]
  split
  · have hu := h.undone i
    rcases he : (RedisSubClient.unsubscribe i).exec s.subClient with ⟨r, c⟩
    rw [after, he] at hu
    rw [exec_bind, onClient, exec_focus, he]
    cases r <;> exact hu
  · rw [exec_bind_ok (exec_registerSubscriptionForJob rfl), exec_pure]
    exact h.closed hp rfl ht.symm (isTopicOf_topicOf _ _)

theorem homed_subscribeInternal (rt : Runtime) (e : Event) (f : FutureRef) :
    Keeps (Homed pending) (subscribeInternal rt e f) := by
  intro s h
  unfold subscribeInternal
  rw [after, exec_bind, Config.exec_subscribeCallback]
  rcases hr : (onClient (RedisSubClient.subscribe _ _)).exec s with ⟨r, t⟩
  have ho := h.opened f hr
  have hfut : t.futures = s.futures := by
    rw [← (Prod.mk.inj hr).2]
  cases r with
  | error err => exact ho
  | ok i =>
    obtain ⟨rfl, ho⟩ := ho
    have hc := ho.indexCallback rt (e := e) (f := f) (Function.update_self _ _ _) (by rw [hfut])
    rw [Function.update_idem, ← h.unlisted, Function.update_eq_self] at hc
    exact hc

/-- `track`, taken whole. -/
theorem homed_track (rt : Runtime) (f : FutureRef) : Keeps (Homed pending) (track rt f) := by
  refine Within.bind (within_modify fun s h => h.congr ⟨rfl, rfl, rfl, rfl⟩ rfl) fun _ => ?_
  exact Within.bind (homed_subscribeInternal rt _ f) fun _ =>
    Within.bind (homed_subscribeInternal rt _ f) fun _ => homed_subscribeInternal rt _ f

/-- `add_subscription`, taken whole. -/
theorem homed_addSubscription (a : AddArgs) : Keeps (Homed pending) (addSubscription a) := by
  refine Within.bind ?_ fun f s h => ?_
  · intro s h
    rw [after, Config.exec_checkActive]
    split
    · exact h
    · split <;> exact h
  · have hx : (subscribeListener a f).exec s =
        (onClient (RedisSubClient.subscribe a.topic (a.redisCallback (s.futures f)))).exec s :=
      exec_bind_ok (exec_get s)
    rw [after, exec_bind, hx]
    rcases hr : (onClient (RedisSubClient.subscribe _ _)).exec s with ⟨r, t⟩
    have ho := h.opened f hr
    cases r with
    | error err => exact ho
    | ok i =>
      obtain ⟨rfl, ho⟩ := ho
      have hc := ho.validateListener (a := a) (f := f) (Function.update_self _ _ _) rfl
      rw [Function.update_idem, ← h.unlisted, Function.update_eq_self] at hc
      exact hc

end Drawn

/-! ## The registry -/

section Registry

/-- The futures keep their job ids, and an entry of the registry is an old one or one under its own job. -/
structure KeepsIds (s s' : JobTracker) : Prop where
  jobIds : ∀ f, (s'.futures f).jobId = (s.futures f).jobId
  registry : ∀ j f, s'.futureRegistry.get? j = some f → s.futureRegistry.get? j = some f ∨ (s.futures f).jobId = j

instance : IsPreorder JobTracker KeepsIds where
  refl _ := ⟨fun _ => rfl, fun _ _ => Or.inl⟩
  trans _ _ _ h h' := by
    refine ⟨fun f => (h'.jobIds f).trans (h.jobIds f), fun j f hf => ?_⟩
    rcases h'.registry j f hf with hf | hf
    · exact h.registry j f hf
    · exact .inr ((h.jobIds f).symm.trans hf)

/-- What leaves the registry and the futures alone. -/
theorem keepsIds_of_frame {α : Type} {x : Program PyError JobTracker α}
    (hx : Frame (fun s => (s.futureRegistry, s.record)) x) : Within KeepsIds x := by
  intro s
  obtain ⟨hreg, hrec⟩ := Prod.mk.inj (hx s)
  have hfut : (x.after s).futures = s.futures := congrArg Prod.fst hrec
  refine ⟨fun f => by rw [hfut], fun j f hf => .inl ?_⟩
  rwa [hreg] at hf

theorem keepsIds_of_lifecycle {α : Type} {x : Program PyError JobTracker α} (hx : Frame lifecycle x) :
    Within KeepsIds x := keepsIds_of_frame (hx.map fun x => (x.1, x.2.2))

theorem keepsIds_publishFuture (f : FutureRef) (s : JobTracker) : KeepsIds s (publishFuture f s) := by
  refine ⟨fun _ => rfl, fun j g hg => ?_⟩
  have hg' : (s.futureRegistry.set (s.futures f).jobId f).get? j = some g := hg
  rw [Dict.get?_set] at hg'
  split_ifs at hg' with hj
  · obtain rfl := Option.some.inj hg'
    exact .inr hj.symm
  · exact .inl hg'

theorem keepsIds_track (rt : Runtime) (f : FutureRef) : Within KeepsIds (track rt f) :=
  Within.bind (within_modify fun s => keepsIds_publishFuture f s) fun _ =>
    keepsIds_of_lifecycle (frame_subscribeToInternalTopics rt f)

theorem keepsIds_discardJob (rt : Runtime) (j : String) : Within KeepsIds (discardJob rt j) := by
  refine Within.bind within_get fun _ => Within.bind (within_modify fun _ => ⟨fun _ => rfl, fun _ _ => .inl⟩) fun _ =>
    Within.bind (keepsIds_of_lifecycle (frame_dropTopics _)) fun _ => within_modify fun s => ⟨fun _ => rfl, fun j' f hf => ?_⟩
  rw [Dict.get?_erase] at hf
  split_ifs at hf
  exact .inl hf

theorem keepsIds_applyStatus (rt : Runtime) (m : StatusMessage) (f : FutureRef) :
    Within KeepsIds (applyStatus rt m f) := by
  intro s
  have haccept : KeepsIds s (s.accept rt m f) := ⟨fun g => accept_jobId rt m f g, fun _ _ => .inl⟩
  unfold after
  cases hd : (s.futures f).done with
  | true =>
    rw [exec_applyStatus_done rt m f hd]
    exact refl s
  | false =>
    cases ht : (decoded rt m).terminal with
    | false =>
      rw [exec_applyStatus_running rt m f hd ht]
      exact haccept
    | true =>
      rw [exec_applyStatus_terminal rt m f hd ht]
      exact IsTrans.trans _ _ _ haccept (keepsIds_discardJob rt _ _)

theorem keepsIds_removeSubscriptionsForJob (rt : Runtime) (j : String) (skip : Bool) :
    Within KeepsIds (removeSubscriptionsForJob rt j skip) := by
  intro s
  rw [after]
  rcases exec_removeSubscriptionsForJob rt j skip with ⟨f, -, -, -, he⟩ | ⟨-, he⟩
  · rw [he]
    exact keepsIds_applyStatus rt _ f s
  · rw [he]
    exact keepsIds_discardJob rt j s

theorem keepsIds_deliver (rt : Runtime) (m : SlurmMessage) (sub : Subscription ClientCallback) :
    Within KeepsIds (deliver rt m sub) := by
  unfold deliver
  split
  · exact within_pure _
  · exact within_modify fun _ => ⟨fun _ => rfl, fun _ _ => .inl⟩
  · exact within_modify fun _ => ⟨fun _ => rfl, fun _ _ => .inl⟩
  · exact Within.bind (within_modify fun _ => ⟨fun _ => rfl, fun _ _ => .inl⟩) fun _ =>
      within_modify fun _ => ⟨fun _ => rfl, fun _ _ => .inl⟩
  · split
    · exact Within.bind within_get fun s => within_tryCatch (keepsIds_applyStatus rt _ _) fun _ => within_pure _
    · exact within_pure _

theorem keepsIds_dispatchMessage (rt : Runtime) (t : Topic) (m : SlurmMessage) :
    Within KeepsIds (dispatchMessage rt t m) :=
  Within.bind within_get fun _ => within_forM fun sub _ => keepsIds_deliver rt m sub

end Registry

end JobTracker

/-! ## Sessions -/

open JobTracker

namespace Session

/-- The invariant of sessions, whatever Redis answers. -/
structure Homed (jobOf : FutureRef → String) (pending : SubId → Option Pending) (s : Session) : Prop where
  tracker : s.tracker.Homed pending
  holds : Holds jobOf s.calls pending
  jobIds : ∀ f, (s.tracker.futures f).jobId = jobOf f
  registry : ∀ j f, s.tracker.futureRegistry.get? j = some f → jobOf f = j

variable {jobOf : FutureRef → String} {pending : SubId → Option Pending} {s s' : Session} {l : Label}

theorem Initial.homed (h : s.Initial) : s.Homed s.jobOf fun _ => none := by
  obtain ⟨hreg, hglo, hsub, htop, hact, -, -⟩ := h.maps
  obtain ⟨hcsub, hctop, hcready, -, -, -⟩ := h.client
  have hrec : ∀ t i, s.tracker.record? t i = none := fun t i => by
    unfold record?
    rw [hsub]
    rfl
  refine ⟨⟨RedisSubClient.wellFormed_of_empty hcsub hctop hcready, fun i t => ?_, fun t i info hi => ?_,
    fun i t hi => ?_, fun i t hi => ?_, fun i p hp => ?_, fun i cb hi => ?_, fun j t ht => ?_⟩,
    ⟨fun n i p hn => ?_, fun i p hp => ?_, fun n m i p q hn => ?_⟩, fun _ => rfl, fun j f hf => ?_⟩
  · rw [htop, hrec]
    simp
  · rw [hrec] at hi
    contradiction
  · rw [htop] at hi
    contradiction
  · rw [hctop] at hi
    contradiction
  · contradiction
  · rw [hglo] at hi
    contradiction
  · unfold activeTopics at ht
    rw [hact] at ht
    simp at ht
  · rw [h.calls n] at hn
    contradiction
  · contradiction
  · rw [h.calls n] at hn
    contradiction
  · rw [hreg] at hf
    contradiction

section Step

variable (h : s.Homed jobOf pending)
include h

/-- The futures and the registry after a step. -/
theorem Homed.ids {x : JobTracker} (hid : KeepsIds s.tracker x) :
    (∀ f, (x.futures f).jobId = jobOf f) ∧ ∀ j f, x.futureRegistry.get? j = some f → jobOf f = j := by
  refine ⟨fun f => (hid.jobIds f).trans (h.jobIds f), fun j f hf => ?_⟩
  rcases hid.registry j f hf with hf | hf
  · exact h.registry j f hf
  · exact (h.jobIds f).symm.trans hf

/-- A step that leaves the registrations in flight as they are. -/
theorem Homed.same (ht : s'.tracker.Homed pending) (hid : KeepsIds s.tracker s'.tracker) (hc : s'.calls = s.calls) :
    ∃ pending', s'.Homed jobOf pending' :=
  ⟨pending, ht, by rw [hc]; exact h.holds, (h.ids hid).1, (h.ids hid).2⟩

/-- A step of a call that holds the same before and after. -/
theorem Homed.moved (ht : s'.tracker.Homed pending) (hid : KeepsIds s.tracker s'.tracker) {n : ℕ} {call : Call}
    (hc : s'.calls = Function.update s.calls n call) (hcall : call.holds jobOf = (s.calls n).holds jobOf) :
    ∃ pending', s'.Homed jobOf pending' :=
  ⟨pending, ht, by rw [hc]; exact h.holds.keep hcall, (h.ids hid).1, (h.ids hid).2⟩

/-- The client subscription of a call. -/
theorem Homed.opened {n : ℕ} {t : Topic} {cb : ClientCallback} {f : FutureRef} {r : Except PyError SubId}
    {x : JobTracker} {k : SubId → Call} (he : (onClient (RedisSubClient.subscribe t cb)).exec s.tracker = (r, x))
    (hn : (s.calls n).holds jobOf = none) (hnext : ∀ i, (k i).holds jobOf = some (i, ⟨t, f, false⟩)) :
    ∃ pending', ({ s with tracker := x }.goto n (match r with
      | .ok i => k i
      | .error e => .ended (.error e))).Homed jobOf pending' := by
  have ho := h.tracker.opened f he
  obtain ⟨hids, hreg⟩ := h.ids ((keepsIds_of_lifecycle (frame_onClient _)).of_exec he)
  cases r with
  | error err => exact ⟨pending, ho, h.holds.keep hn.symm, hids, hreg⟩
  | ok i =>
    obtain ⟨rfl, ho⟩ := ho
    exact ⟨_, ho, h.holds.opened hn h.tracker.unlisted (hnext _), hids, hreg⟩

theorem Homed.proceed {rt : Runtime} {n : ℕ} (hs : s.proceed rt n = some s') :
    ∃ pending', s'.Homed jobOf pending' := by
  unfold Session.proceed at hs
  cases hcall : s.calls n with
  | subscribing f e rest =>
    simp only [hcall] at hs
    rcases hr : (subscribeCallback e f).exec s.tracker with ⟨r, x⟩
    rw [hr] at hs
    rw [Config.exec_subscribeCallback] at hr
    have ho := h.opened (n := n) (f := f) (k := fun i => .indexing f e i false rest) hr (by rw [hcall]; rfl)
      fun i => by rw [h.jobIds]; rfl
    cases r with
    | ok i => obtain rfl := Option.some.inj hs; exact ho
    | error err => obtain rfl := Option.some.inj hs; exact ho
  | indexing f e i o rest =>
    simp only [hcall] at hs
    have hholds : (s.calls n).holds jobOf = some (i, ⟨topicOf (jobOf f) e, f, o⟩) := by rw [hcall]; rfl
    have hp := h.holds.listed n i _ hholds
    obtain rfl := Option.some.inj hs
    obtain ⟨hids, hreg⟩ := h.ids (keepsIds_of_lifecycle (frame_indexCallback rt e f i) s.tracker)
    refine ⟨_, h.tracker.indexCallback rt hp (by rw [h.jobIds]), h.holds.closed hholds ?_, hids, hreg⟩
    cases rest <;> rfl
  | adding a f =>
    simp only [hcall] at hs
    rcases hr : (subscribeListener a f).exec s.tracker with ⟨r, x⟩
    rw [hr] at hs
    rw [show (subscribeListener a f).exec s.tracker = _ from exec_bind_ok (exec_get s.tracker)] at hr
    have ho := h.opened (n := n) (f := f) (k := fun i => .validating a f i false) hr (by rw [hcall]; rfl) fun i => rfl
    cases r with
    | ok i => obtain rfl := Option.some.inj hs; exact ho
    | error err => obtain rfl := Option.some.inj hs; exact ho
  | validating a f i o =>
    simp only [hcall] at hs
    have hholds : (s.calls n).holds jobOf = some (i, ⟨a.topic, f, o⟩) := by rw [hcall]; rfl
    have hp := h.holds.listed n i _ hholds
    have ht := h.tracker.validateListener (a := a) (f := f) hp rfl
    rcases hr : (validateListener a f i).exec s.tracker with ⟨r, x⟩
    obtain ⟨hids, hreg⟩ := h.ids ((keepsIds_of_lifecycle (frame_validateListener a f i)).of_exec hr)
    rw [after, hr] at ht
    rw [hr] at hs
    cases r with
    | ok k =>
      obtain rfl := Option.some.inj hs
      exact ⟨_, ht, h.holds.closed hholds rfl, hids, hreg⟩
    | error err =>
      obtain rfl := Option.some.inj hs
      exact ⟨_, ht, h.holds.closed hholds rfl, hids, hreg⟩
  | idle => simp [hcall] at hs
  | cancelling f => simp [hcall] at hs
  | checking f => simp [hcall] at hs
  | ended r => simp [hcall] at hs

/-- **Every step keeps the invariant.** -/
theorem Homed.step (hs : Steps s l s') : ∃ pending', s'.Homed jobOf pending' := by
  have ht := h.tracker
  obtain ⟨rt, act⟩ := l
  unfold Steps Session.step at hs
  cases act with
  | track f =>
    simp only at hs
    split_ifs at hs
    obtain rfl := Option.some.inj hs
    exact h.same (homed_track rt f _ ht) (keepsIds_track rt f _) rfl
  | addSubscription a =>
    simp only at hs
    rcases hr : (addSubscription a).exec s.tracker with ⟨r, x⟩
    have hx := (homed_addSubscription a).of_exec hr ht
    have hid := (keepsIds_of_lifecycle (frame_addSubscription a)).of_exec hr
    rw [hr] at hs
    cases r with
    | ok i => obtain rfl := Option.some.inj hs; exact h.same hx hid rfl
    | error err => obtain rfl := Option.some.inj hs; exact h.same hx hid rfl
  | applyStatus m f =>
    obtain rfl := Option.some.inj hs
    exact h.same (homed_applyStatus rt m f _ ht) (keepsIds_applyStatus rt m f _) rfl
  | removeSubscriptionById ids =>
    obtain rfl := Option.some.inj hs
    exact h.same (homed_removeSubscriptionById ids _ ht)
      (keepsIds_of_frame (frame_removeSubscriptionById ids) _) rfl
  | removeSubscriptionByTopic t =>
    obtain rfl := Option.some.inj hs
    have hx := Homed.relisted (homed_removeSubscriptionByTopic t _ ht)
      (k := fun p => if p.topic = t then { p with overtaken := true } else p) fun p => by split_ifs <;> rfl
    have hjob : s.jobOf = jobOf := funext h.jobIds
    rw [hjob]
    obtain ⟨hids, hreg⟩ := h.ids (keepsIds_of_lifecycle (frame_removeSubscriptionByTopic t) s.tracker)
    exact ⟨_, hx, h.holds.overtaken t, hids, hreg⟩
  | removeSubscriptionsForJob j skip =>
    obtain rfl := Option.some.inj hs
    exact h.same (homed_removeSubscriptionsForJob rt j skip _ ht) (keepsIds_removeSubscriptionsForJob rt j skip _) rfl
  | beginSchedulerCheck j =>
    obtain rfl := Option.some.inj hs
    exact h.same (homed_beginSchedulerCheck rt j _ ht)
      (keepsIds_of_lifecycle (frame_beginSchedulerCheck rt j) _) rfl
  | dispatchMessage t m =>
    obtain rfl := Option.some.inj hs
    exact h.same (homed_dispatchMessage rt t m _ ht) (keepsIds_dispatchMessage rt t m _) rfl
  | listenGlobal e cb =>
    obtain rfl := Option.some.inj hs
    exact h.same (homed_listenGlobal e cb _ ht) (keepsIds_of_frame (frame_listenGlobal e cb) _) rfl
  | startTrack n f =>
    simp only at hs
    cases hcall : s.calls n with
    | idle =>
      simp only [hcall] at hs
      split_ifs at hs
      obtain rfl := Option.some.inj hs
      exact h.moved (ht.congr ⟨rfl, rfl, rfl, rfl⟩ rfl) (keepsIds_publishFuture f _) rfl (by rw [hcall]; rfl)
    | _ => simp [hcall] at hs
  | startAdd n a =>
    simp only at hs
    cases hcall : s.calls n with
    | idle =>
      simp only [hcall] at hs
      have hx : ∃ r, (checkActive a).exec s.tracker = (r, s.tracker) := by
        rw [Config.exec_checkActive]
        split
        · exact ⟨_, rfl⟩
        · split
          · exact ⟨_, rfl⟩
          · exact ⟨_, rfl⟩
      obtain ⟨r, hr⟩ := hx
      rw [hr] at hs
      cases r with
      | ok f => obtain rfl := Option.some.inj hs; exact h.moved ht (refl _) rfl (by rw [hcall]; rfl)
      | error err => obtain rfl := Option.some.inj hs; exact h.moved ht (refl _) rfl (by rw [hcall]; rfl)
    | _ => simp [hcall] at hs
  | startCancel n j =>
    simp only at hs
    cases hcall : s.calls n with
    | idle =>
      simp only [hcall] at hs
      obtain rfl := Option.some.inj hs
      exact h.moved ht (refl _) rfl (by rw [hcall]; rfl)
    | _ => simp [hcall] at hs
  | startCheck n j =>
    simp only at hs
    cases hcall : s.calls n with
    | idle =>
      simp only [hcall] at hs
      rcases hr : (beginSchedulerCheck rt j).exec s.tracker with ⟨r, x⟩
      have hx := (homed_beginSchedulerCheck rt j).of_exec hr ht
      have hid := (keepsIds_of_lifecycle (frame_beginSchedulerCheck rt j)).of_exec hr
      rw [hr] at hs
      rcases r with err | (_ | f)
      · obtain rfl := Option.some.inj hs
        exact h.moved hx hid rfl (by rw [hcall]; rfl)
      · obtain rfl := Option.some.inj hs
        exact h.moved hx hid rfl (by rw [hcall]; rfl)
      · obtain rfl := Option.some.inj hs
        exact h.moved hx hid rfl (by rw [hcall]; rfl)
    | _ => simp [hcall] at hs
  | proceed n => exact h.proceed hs
  | cancelled n rest =>
    simp only at hs
    cases hcall : s.calls n with
    | cancelling future =>
      simp only [hcall] at hs
      split at hs
      · obtain rfl := Option.some.inj hs
        exact h.moved ht (refl _) rfl (by rw [hcall]; rfl)
      · obtain rfl := Option.some.inj hs
        exact h.moved ht (refl _) rfl (by rw [hcall]; rfl)
      · obtain rfl := Option.some.inj hs
        exact h.moved (homed_applyStatus rt _ _ _ ht) (keepsIds_applyStatus rt _ _ _) rfl (by rw [hcall]; rfl)
    | _ => simp [hcall] at hs
  | checked n verdict =>
    simp only at hs
    cases hcall : s.calls n with
    | checking f =>
      simp only [hcall] at hs
      split at hs
      · obtain rfl := Option.some.inj hs
        exact h.moved ht (refl _) rfl (by rw [hcall]; rfl)
      · obtain rfl := Option.some.inj hs
        exact h.moved (homed_applyStatus rt _ _ _ ht) (keepsIds_applyStatus rt _ _ _) rfl (by rw [hcall]; rfl)
    | _ => simp [hcall] at hs
  | poll t m =>
    simp only at hs
    split at hs
    · obtain rfl := Option.some.inj hs
      exact h.same ht (refl _) rfl
    · simp at hs
  | deliver =>
    simp only at hs
    split at hs
    · simp at hs
    · obtain rfl := Option.some.inj hs
      exact h.same (homed_deliver rt _ _ _ ht) (keepsIds_deliver rt _ _ _) rfl

end Step

/-- **The invariant holds in every state of every run.** -/
theorem run_homed {ok : Session → Label → Prop} {s₀ : Session} {ls : List Label} (h₀ : s₀.Initial)
    (hrun : Run Steps ok s₀ ls s) : ∃ pending, s.Homed s₀.jobOf pending :=
  hrun.invariant (I := fun s => ∃ pending, s.Homed s₀.jobOf pending) ⟨_, h₀.homed⟩
    fun _ _ _ ⟨_, hx⟩ _ hs => hx.step hs

end Session

end SlurmManager
