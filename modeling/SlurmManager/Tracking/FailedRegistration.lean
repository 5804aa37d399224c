import SlurmManager.Tracking.Unlisten

/-!
# FailedRegistration — what a `listen` that raises leaves behind

`JobFuture.listen` tests that the job is active, subscribes in the client, then validates and indexes; in between
the other threads go on.  What it leaves when it raises is compared with what the other threads alone leave.

* `Beside`: a client with one registration more than another.  The removals keep this (`Beside.dropped`,
  `Beside.dropped_topic`), and undoing the registration brings the clients together up to a ready event
  (`Beside.undone`).
* `Parallel`: an operation of another thread runs the same on both clients.
* `failed_listen_iff`: exactly when nothing is left behind.
-/

namespace SlurmManager

open Program

namespace RedisSubClient

variable {χ : Type} {c c' d d' : RedisSubClient χ} {I J : SubId → Prop}

/-! ## Two clients, one registration apart -/

/-- The same registrations and ready events, as dictionaries are compared. -/
structure SameRegistrations (c d : RedisSubClient χ) : Prop where
  topics : ∀ t, d.Registered t ↔ c.Registered t
  callbacks : ∀ t i, (d.index.bucket t).get? i = (c.index.bucket t).get? i
  owners : ∀ i, d.topicBySubscriptionId.get? i = c.topicBySubscriptionId.get? i
  ready : ∀ t, d.subscriptionReady.get? t = c.subscriptionReady.get? t

theorem sameRegistrations_of_find (hc : c.WellFormed) (hd : d.WellFormed)
    (hf : ∀ i p, d.find? i = some p ↔ c.find? i = some p)
    (hr : ∀ t, d.subscriptionReady.get? t = c.subscriptionReady.get? t) : SameRegistrations c d := by
  have hfind : ∀ i, d.find? i = c.find? i := fun i => Option.ext (hf i)
  refine ⟨fun t => ?_, fun t i => Option.ext fun p => ?_, fun i => ?_, hr⟩
  · rw [registered_iff hd, registered_iff hc]
    simp only [hf]
  · have h := Index.find?_eq_some_iff (k := t) (i := i) (v := p) hc.consistent
    have h' := Index.find?_eq_some_iff (k := t) (i := i) (v := p) hd.consistent
    exact h'.symm.trans ((hf i _).trans h)
  · rw [topicBySubscriptionId_eq hd, topicBySubscriptionId_eq hc, hfind]

/-- `d` has the registrations of `c`, and `i` under `t` unless that has been removed with its topic.  `stale` is
the ready event that `c` keeps for `t` without a registration. -/
structure Beside (i : SubId) (t : Topic) (stale : Option EventRef) (c d : RedisSubClient χ) : Prop where
  left : c.WellFormed
  right : d.WellFormed
  others : ∀ k p, k ≠ i → (d.find? k = some p ↔ c.find? k = some p)
  absent : c.find? i = none
  filed : ∀ p, d.find? i = some p → p.1 = t
  present : c.Registered t → (d.find? i).isSome
  ready : ∀ t', t' ≠ t → d.subscriptionReady.get? t' = c.subscriptionReady.get? t'
  shared : c.Registered t → d.subscriptionReady.get? t = c.subscriptionReady.get? t ∧ stale = none
  alone : ¬ c.Registered t → c.subscriptionReady.get? t = stale
  gone : d.find? i = none → d.subscriptionReady.get? t = none

/-- `unsubscribe_topic` on a willing connection returns, and drops the ids of the topic. -/
theorem unsubscribeTopic_dropped (h : c.WellFormed) (hw : c.pubsub.Willing) (t : Topic) :
    ∃ n c', (unsubscribeTopic t).exec c = (.ok n, c') ∧ Dropped (fun k => c.Under k t) c c' := by
  by_cases ht : c.Registered t
  · obtain ⟨b, hb⟩ := Option.isSome_iff_exists.mp ht
    have hne := h.consistent.nonempty t b hb
    obtain ⟨n, c', hx, hrem, -⟩ := unsubscribeTopic_registered h ht
    have hfail : c.pubsub.failure c.pubsub.calls (.unsubscribe t) = none := hw _ le_rfl t
    have hex := exec_unsubscribeTopic_some hb hne
    obtain ⟨-, hd⟩ := Prod.mk.inj (hx.symm.trans hex)
    rw [Pubsub.outcome_eq_ok_iff.mpr hfail] at hex
    subst hd
    have hemptied : ∀ t', Index.Emptied c.Under (fun k => c.Under k t) t' ↔ t' = t := by
      intro t'
      constructor
      · rintro ⟨⟨k, hk⟩, hall⟩
        exact Option.some.inj ((hk : _ = _).symm.trans (hall k hk))
      · rintro rfl
        exact ⟨(registered_iff_topic h).mp ht, fun _ => id⟩
    refine ⟨_, _, hex, hrem.wellFormed, fun k p => ?_, fun t' e => ?_, fun t' => ?_, rfl, rfl, fun hw n hn t' => ?_⟩
    · rw [hrem.find?_iff]
      refine and_congr_right fun hp => not_congr ?_
      have hk : c.Under k p.1 := (topic_eq_some_iff h).mpr ⟨p.2, hp⟩
      exact ⟨fun he => he ▸ hk, fun hu => Option.some.inj ((hk : _ = _).symm.trans hu)⟩
    · rw [Dict.get?_erase, hemptied]
      split_ifs with htt <;> simp [htt]
    · simp only [Pubsub.record, hfail, Option.isNone_none, if_true, isOpen_unsubscribe, hemptied]
      split_ifs with htt
      · simp [htt]
      · simp [Ne.symm htt]
    · exact hw n (Nat.le_of_succ_le hn) t'
  · refine ⟨0, c, unsubscribeTopic_unregistered ht, Dropped.refl h fun k t' _ hk => ht ?_⟩
    exact (registered_iff_topic h).mpr ⟨k, hk⟩

section Beside

variable {i : SubId} {t : Topic} {stale : Option EventRef} (h : Beside i t stale c d)
include h

theorem Beside.under_iff (k : SubId) (t' : Topic) (hk : k ≠ i) : d.Under k t' ↔ c.Under k t' := by
  unfold Under
  rw [topic_eq_some_iff h.right, topic_eq_some_iff h.left]
  exact exists_congr fun s => h.others k _ hk

/-- Ids other than `i` are dropped on both sides. -/
theorem Beside.dropped (hI : ¬ I i) (hc : Dropped I c c') (hd : Dropped I d d') : Beside i t stale c' d' := by
  have hmine : d.Under i t ∨ d.find? i = none := by
    cases hf : d.find? i with
    | none => exact .inr rfl
    | some p =>
      have hp : p.1 = t := h.filed p hf
      exact .inl ((topic_eq_some_iff h.right).mpr ⟨p.2, by rw [hf, ← hp]⟩)
  have hout : ∀ t', t' ≠ t → (Index.Emptied d.Under I t' ↔ Index.Emptied c.Under I t') := by
    intro t' ht
    refine Index.emptied_congr (fun k => ?_) fun _ _ => Iff.rfl
    by_cases hk : k = i
    · subst hk
      refine iff_of_false (fun hu => ?_) fun hu => ?_
      · obtain ⟨s, hs⟩ := (topic_eq_some_iff h.right).mp hu
        exact ht (h.filed _ hs)
      · obtain ⟨s, hs⟩ := (topic_eq_some_iff h.left).mp hu
        rw [h.absent] at hs
        contradiction
    · exact h.under_iff k t' hk
  refine ⟨hc.wellFormed, hd.wellFormed, fun k p hk => ?_, ?_, fun p hp => h.filed p ((hd.find?_iff i p).mp hp).1,
    fun hr => ?_, fun t' ht => Option.ext fun e => ?_, fun hr => ⟨Option.ext fun e => ?_, ?_⟩, fun hr => ?_, fun hg => ?_⟩
  · rw [hd.find?_iff, hc.find?_iff, h.others k p hk]
  · cases hf : c'.find? i with
    | none => rfl
    | some p =>
      have hp := ((hc.find?_iff i p).mp hf).1
      rw [h.absent] at hp
      contradiction
  · obtain ⟨p, hp⟩ := Option.isSome_iff_exists.mp (h.present ((hc.registered_iff h.left t).mp hr).1)
    rw [(hd.find?_iff i p).mpr ⟨hp, hI⟩]
    rfl
  · rw [hd.ready_iff, hc.ready_iff, h.ready t' ht, hout t' ht]
  · -- `i` keeps the topic on the right
    obtain ⟨hreg, hne⟩ := (hc.registered_iff h.left t).mp hr
    have hi : d.Under i t := hmine.resolve_right fun hn => by
      have hs := h.present hreg
      rw [hn] at hs
      contradiction
    have hne' : ¬ Index.Emptied d.Under I t := fun he => hI (he.2 i hi)
    rw [hd.ready_iff, hc.ready_iff, (h.shared hreg).1]
    simp [hne, hne']
  · exact (h.shared ((hc.registered_iff h.left t).mp hr).1).2
  · by_cases hreg : c.Registered t
    · have he : Index.Emptied c.Under I t := by
        by_contra hne
        exact hr ((hc.registered_iff h.left t).mpr ⟨hreg, hne⟩)
      rw [(h.shared hreg).2]
      refine Option.eq_none_iff_forall_ne_some.mpr fun e hev => ?_
      exact ((hc.ready_iff t e).mp hev).2 he
    · have hne : ¬ Index.Emptied c.Under I t := fun he => hreg ((registered_iff_topic h.left).mpr he.1)
      rw [← h.alone hreg]
      exact Option.ext fun e => by simp [hc.ready_iff, hne]
  · have hn : d.find? i = none := by
      refine Option.eq_none_iff_forall_ne_some.mpr fun p hp => ?_
      rw [(hd.find?_iff i p).mpr ⟨hp, hI⟩] at hg
      contradiction
    refine Option.eq_none_iff_forall_ne_some.mpr fun e hev => ?_
    have he := ((hd.ready_iff t e).mp hev).1
    rw [h.gone hn] at he
    contradiction

/-- A topic is dropped on both sides. -/
theorem Beside.dropped_topic {t' : Topic} (hc : Dropped (fun k => c.Under k t') c c')
    (hd : Dropped (fun k => d.Under k t') d d') : Beside i t stale c' d' := by
  have hself : ¬ c.Under i t' := fun hu => by
    obtain ⟨s, hs⟩ := (topic_eq_some_iff h.left).mp hu
    rw [h.absent] at hs
    contradiction
  by_cases ht : t' = t
  · subst ht
    have hno : ¬ c'.Registered t' := fun hr => by
      obtain ⟨hreg, hne⟩ := (hc.registered_iff h.left t').mp hr
      exact hne ⟨(registered_iff_topic h.left).mp hreg, fun _ => id⟩
    have hgone : d'.find? i = none := by
      refine Option.eq_none_iff_forall_ne_some.mpr fun p hp => ?_
      obtain ⟨hp, hu⟩ := (hd.find?_iff i p).mp hp
      have hpt := h.filed p hp
      exact hu ((topic_eq_some_iff h.right).mpr ⟨p.2, by rw [hp, ← hpt]⟩)
    have hout : ∀ t'', t'' ≠ t' → ¬ Index.Emptied c.Under (fun k => c.Under k t') t'' ∧
        ¬ Index.Emptied d.Under (fun k => d.Under k t') t'' := by
      refine fun t'' hne => ⟨Index.not_emptied fun k hk hk' => ?_, Index.not_emptied fun k hk hk' => ?_⟩
      · exact hne (Option.some.inj ((hk : _ = _).symm.trans hk'))
      · exact hne (Option.some.inj ((hk : _ = _).symm.trans hk'))
    refine ⟨hc.wellFormed, hd.wellFormed, fun k p hk => ?_, ?_, fun p hp => ?_, fun hr => absurd hr hno,
      fun t'' hne => Option.ext fun e => ?_, fun hr => absurd hr hno, fun _ => ?_, fun _ => ?_⟩
    · rw [hd.find?_iff, hc.find?_iff, h.others k p hk, h.under_iff k t' hk]
    · refine Option.eq_none_iff_forall_ne_some.mpr fun p hp => ?_
      have hp := ((hc.find?_iff i p).mp hp).1
      rw [h.absent] at hp
      contradiction
    · rw [hgone] at hp
      contradiction
    · rw [hd.ready_iff, hc.ready_iff, h.ready t'' hne]
      simp [hout t'' hne]
    · by_cases hreg : c.Registered t'
      · rw [(h.shared hreg).2]
        refine Option.eq_none_iff_forall_ne_some.mpr fun e hev => ?_
        exact ((hc.ready_iff t' e).mp hev).2 ⟨(registered_iff_topic h.left).mp hreg, fun _ => id⟩
      · have hne : ¬ Index.Emptied c.Under (fun k => c.Under k t') t' := fun he =>
          hreg ((registered_iff_topic h.left).mpr he.1)
        rw [← h.alone hreg]
        exact Option.ext fun e => by simp [hc.ready_iff, hne]
    · refine Option.eq_none_iff_forall_ne_some.mpr fun e hev => ?_
      obtain ⟨hev, hne⟩ := (hd.ready_iff t' e).mp hev
      cases hf : d.find? i with
      | none =>
        rw [h.gone hf] at hev
        contradiction
      | some p =>
        have hpt := h.filed p hf
        refine hne ⟨⟨i, (topic_eq_some_iff h.right).mpr ⟨p.2, ?_⟩⟩, fun _ => id⟩
        rw [hf, ← hpt]
  · refine h.dropped hself hc (hd.congr h.right fun k t'' hk => ?_)
    by_cases hki : k = i
    · subst hki
      refine iff_of_false (fun hu => ?_) hself
      obtain ⟨s, hs⟩ := (topic_eq_some_iff h.right).mp hu
      exact ht (h.filed _ hs)
    · exact h.under_iff k t' hki

/-- The registration is undone: what may differ is a ready event that was left on the topic. -/
theorem Beside.undone (hd : Dropped (fun k => k = i) d d') : SameRegistrations c d' ↔ stale = none := by
  have hfind : ∀ k p, d'.find? k = some p ↔ c.find? k = some p := by
    intro k p
    rw [hd.find?_iff]
    by_cases hk : k = i
    · subst hk
      simp [h.absent]
    · rw [h.others k p hk]
      simp [hk]
  have hout : ∀ t', t' ≠ t → ¬ Index.Emptied d.Under (fun k => k = i) t' := by
    refine fun t' ht => Index.not_emptied fun k hk hki => ht ?_
    subst hki
    obtain ⟨s, hs⟩ := (topic_eq_some_iff h.right).mp hk
    exact h.filed _ hs
  have hrest : ∀ t', t' ≠ t → d'.subscriptionReady.get? t' = c.subscriptionReady.get? t' := by
    intro t' ht
    rw [← h.ready t' ht]
    exact Option.ext fun e => by simp [hd.ready_iff, hout t' ht]
  by_cases hreg : c.Registered t
  · -- others keep the topic
    obtain ⟨k, hk⟩ := (registered_iff_topic h.left).mp hreg
    have hki : k ≠ i := by
      rintro rfl
      obtain ⟨s, hs⟩ := (topic_eq_some_iff h.left).mp hk
      rw [h.absent] at hs
      contradiction
    have hne : ¬ Index.Emptied d.Under (fun k => k = i) t := fun he => hki (he.2 k ((h.under_iff k t hki).mpr hk))
    refine iff_of_true (sameRegistrations_of_find h.left hd.wellFormed hfind fun t' => ?_) (h.shared hreg).2
    by_cases ht : t' = t
    · rw [ht, ← (h.shared hreg).1]
      exact Option.ext fun e => by simp [hd.ready_iff, hne]
    · exact hrest t' ht
  · have hnone : d'.subscriptionReady.get? t = none := by
      refine Option.eq_none_iff_forall_ne_some.mpr fun e hev => ?_
      obtain ⟨hev, hne⟩ := (hd.ready_iff t e).mp hev
      cases hf : d.find? i with
      | none =>
        rw [h.gone hf] at hev
        contradiction
      | some p =>
        have hpt := h.filed p hf
        refine hne ⟨⟨i, (topic_eq_some_iff h.right).mpr ⟨p.2, by rw [hf, ← hpt]⟩⟩, fun k hk => by_contra fun hki => ?_⟩
        exact hreg ((registered_iff_topic h.left).mpr ⟨k, (h.under_iff k t hki).mp hk⟩)
    rw [← h.alone hreg]
    constructor
    · intro hs
      rw [← hs.ready t, hnone]
    · intro hc
      refine sameRegistrations_of_find h.left hd.wellFormed hfind fun t' => ?_
      by_cases ht : t' = t
      · rw [ht, hnone, hc]
      · exact hrest t' ht

end Beside

end RedisSubClient

namespace JobTracker

/-! ## The other threads -/

section Parallel

variable {i : SubId} {t : Topic} {stale : Option EventRef} {α : Type}

/-- The tracker and a second client that has the registration `i` more. -/
structure Twins (i : SubId) (t : Topic) (stale : Option EventRef) (s : JobTracker)
    (d : RedisSubClient ClientCallback) : Prop where
  beside : RedisSubClient.Beside i t stale s.subClient d
  unknown : s.topicBySubscriptionId.get? i = none
  willing : s.subClient.pubsub.Willing ∧ d.pubsub.Willing

/-- The operation returns and does the same with either client. -/
def Parallel (i : SubId) (t : Topic) (stale : Option EventRef) (x : Program PyError JobTracker α) : Prop :=
  ∀ s d, Twins i t stale s d → ∃ a s' d', x.exec s = (.ok a, s') ∧
    x.exec { s with subClient := d } = (.ok a, { s' with subClient := d' }) ∧ Twins i t stale s' d'

theorem parallel_pure (a : α) : Parallel i t stale (pure a : Program PyError JobTracker α) :=
  fun s d h => ⟨a, s, d, rfl, rfl, h⟩

theorem Parallel.bind {β : Type} {x : Program PyError JobTracker α} {f : α → Program PyError JobTracker β}
    (hx : Parallel i t stale x) (hf : ∀ a, Parallel i t stale (f a)) : Parallel i t stale (x >>= f) := by
  intro s d h
  obtain ⟨a, s', d', he, he', h'⟩ := hx s d h
  rw [exec_bind_ok he, exec_bind_ok he']
  exact hf a s' d' h'

theorem parallel_forM {l : List α} {f : α → Program PyError JobTracker PUnit} (hf : ∀ a, Parallel i t stale (f a)) :
    Parallel i t stale (forM l f) := by
  induction l with
  | nil => exact parallel_pure _
  | cons a l ih =>
    rw [List.forM_cons]
    exact (hf a).bind fun _ => ih

/-- A change of the tracker that neither reads nor writes the client, and indexes no id. -/
theorem parallel_modify {g : JobTracker → JobTracker}
    (hg : ∀ s d, g { s with subClient := d } = { g s with subClient := d })
    (hcl : ∀ s, (g s).subClient = s.subClient)
    (htop : ∀ s, s.topicBySubscriptionId.get? i = none → (g s).topicBySubscriptionId.get? i = none) :
    Parallel i t stale (modify g : Program PyError JobTracker PUnit) := by
  refine fun s d h => ⟨⟨⟩, g s, d, rfl, ?_, ⟨by rw [hcl]; exact h.beside, htop s h.unknown, by rw [hcl]; exact h.willing⟩⟩
  rw [exec_modify, hg]

/-- An operation that begins by reading the tracker, but not the client. -/
theorem parallel_get_bind {f : JobTracker → Program PyError JobTracker α} (hf : ∀ s d, f { s with subClient := d } = f s)
    (h : ∀ s, s.topicBySubscriptionId.get? i = none → Parallel i t stale (f s)) :
    Parallel i t stale (get >>= f : Program PyError JobTracker α) := by
  intro s d hs
  rw [exec_bind_ok (exec_get s), exec_bind_ok (exec_get _), hf s d]
  exact h s hs.unknown s d hs

theorem parallel_unsubscribe {k : SubId} (hk : k ≠ i) {x : Program PyError JobTracker α} (hx : Parallel i t stale x) :
    Parallel i t stale (do let _ ← onClient (RedisSubClient.unsubscribe k); x) := by
  intro s d h
  obtain ⟨b, c', he, hc⟩ := RedisSubClient.unsubscribe_dropped h.beside.left h.willing.1 k
  obtain ⟨b', d', he', hd⟩ := RedisSubClient.unsubscribe_dropped h.beside.right h.willing.2 k
  have hx' : (onClient (RedisSubClient.unsubscribe k)).exec s = (.ok b, { s with subClient := c' }) := by
    rw [onClient, exec_focus, he]
  have hy : (onClient (RedisSubClient.unsubscribe k)).exec { s with subClient := d } =
      (.ok b', { s with subClient := d' }) := by
    rw [onClient, exec_focus, he']
  rw [exec_bind_ok hx', exec_bind_ok hy]
  exact hx { s with subClient := c' } d' ⟨h.beside.dropped hk.symm hc hd, h.unknown, hc.willing h.willing.1,
    hd.willing h.willing.2⟩

theorem parallel_unsubscribeTopic (t' : Topic) {x : Program PyError JobTracker α} (hx : Parallel i t stale x) :
    Parallel i t stale (do let _ ← onClient (RedisSubClient.unsubscribeTopic t'); x) := by
  intro s d h
  obtain ⟨n, c', he, hc⟩ := RedisSubClient.unsubscribeTopic_dropped h.beside.left h.willing.1 t'
  obtain ⟨n', d', he', hd⟩ := RedisSubClient.unsubscribeTopic_dropped h.beside.right h.willing.2 t'
  have hx' : (onClient (RedisSubClient.unsubscribeTopic t')).exec s = (.ok n, { s with subClient := c' }) := by
    rw [onClient, exec_focus, he]
  have hy : (onClient (RedisSubClient.unsubscribeTopic t')).exec { s with subClient := d } =
      (.ok n', { s with subClient := d' }) := by
    rw [onClient, exec_focus, he']
  rw [exec_bind_ok hx', exec_bind_ok hy]
  exact hx { s with subClient := c' } d' ⟨h.beside.dropped_topic hc hd, h.unknown, hc.willing h.willing.1,
    hd.willing h.willing.2⟩

theorem parallel_tryCatch {x : Program PyError JobTracker α} {f : PyError → Program PyError JobTracker α}
    (hx : Parallel i t stale x) : Parallel i t stale (tryCatch x f) := by
  intro s d h
  obtain ⟨a, s', d', he, he', h'⟩ := hx s d h
  refine ⟨a, s', d', ?_, ?_, h'⟩
  · rw [exec_tryCatch, he]
  · rw [exec_tryCatch, he']

/-! ### The operations -/

theorem parallel_dropTopic (t' : Topic) : Parallel i t stale (dropTopic t') := by
  refine Parallel.bind (parallel_modify (fun _ _ => rfl) (fun _ => rfl) fun s hs => ?_) fun _ =>
    parallel_unsubscribeTopic t' (parallel_pure _)
  rw [Dict.get?_eraseAll]
  split_ifs
  · rfl
  · exact hs

theorem parallel_discardJob (rt : Runtime) (j : String) : Parallel i t stale (discardJob rt j) := by
  refine parallel_get_bind (fun _ _ => rfl) fun s _ => ?_
  refine Parallel.bind (parallel_modify (fun _ _ => rfl) (fun _ => rfl) fun _ => id) fun _ => ?_
  exact Parallel.bind (parallel_forM parallel_dropTopic) fun _ =>
    parallel_modify (fun _ _ => rfl) (fun _ => rfl) fun _ => id

theorem parallel_applyStatus (rt : Runtime) (m : StatusMessage) (f : FutureRef) :
    Parallel i t stale (applyStatus rt m f) := by
  intro s d h
  have haccept : Twins i t stale (s.accept rt m f) d := ⟨h.beside, h.unknown, h.willing⟩
  cases hd : (s.futures f).done with
  | true =>
    exact ⟨(), s, d, exec_applyStatus_done rt m f hd, exec_applyStatus_done (s := { s with subClient := d }) rt m f hd, h⟩
  | false =>
    cases ht : (decoded rt m).terminal with
    | false =>
      exact ⟨(), s.accept rt m f, d, exec_applyStatus_running rt m f hd ht,
        exec_applyStatus_running (s := { s with subClient := d }) rt m f hd ht, haccept⟩
    | true =>
      rw [exec_applyStatus_terminal rt m f hd ht,
        exec_applyStatus_terminal (s := { s with subClient := d }) rt m f hd ht]
      exact parallel_discardJob rt _ _ d haccept

theorem parallel_removeSubscriptionsForJob (rt : Runtime) (j : String) (skip : Bool) :
    Parallel i t stale (removeSubscriptionsForJob rt j skip) := by
  refine parallel_get_bind (fun _ _ => rfl) fun s _ => ?_
  split
  · split
    · exact parallel_applyStatus rt _ _
    · exact parallel_discardJob rt j
  · exact parallel_discardJob rt j

theorem parallel_removeId (k : SubId) : Parallel i t stale (removeId k) := by
  refine parallel_get_bind (fun _ _ => rfl) fun s hs => ?_
  split
  · exact parallel_modify (fun _ _ => rfl) (fun _ => rfl) fun _ => id
  · split
    · exact parallel_pure _
    · rename_i topic htop
      have hk : k ≠ i := by
        rintro rfl
        rw [hs] at htop
        contradiction
      refine Parallel.bind (parallel_modify (fun _ _ => rfl) (fun _ => rfl) fun s' hs' => ?_) fun _ => ?_
      · show (s'.topicBySubscriptionId.erase k).get? i = none
        rw [Dict.get?_erase_ne _ hk.symm]
        exact hs'
      · refine parallel_unsubscribe hk ?_
        split
        · exact parallel_pure _
        · refine Parallel.bind (parallel_modify (fun _ _ => rfl) (fun _ => rfl) fun _ => id) fun _ => ?_
          split
          · exact parallel_pure _
          · exact parallel_modify (fun _ _ => rfl) (fun _ => rfl) fun _ => id

theorem parallel_removeSubscriptionByTopic (t' : Topic) : Parallel i t stale (removeSubscriptionByTopic t') := by
  refine parallel_get_bind (fun _ _ => rfl) fun s _ => ?_
  refine Parallel.bind (parallel_modify (fun _ _ => rfl) (fun _ => rfl) fun _ => id) fun _ => ?_
  refine Parallel.bind (parallel_modify (fun s' d => ?_) (fun s' => ?_) fun s' hs' => ?_) fun _ =>
    parallel_unsubscribeTopic t' (parallel_pure _)
  all_goals
    generalize ((s.subscriptionsByTopic.get? t').getD ∅).entries = l
  · induction l generalizing s' with
    | nil => rfl
    | cons e l ih =>
      rw [List.foldl_cons, List.foldl_cons]
      exact ih { s' with
        topicBySubscriptionId := s'.topicBySubscriptionId.erase e.1
        activeSubscriptions := s'.activeSubscriptions.set e.2.jobId (discardTopic t' (s'.activeTopics e.2.jobId)) }
  · induction l generalizing s' with
    | nil => rfl
    | cons e l ih => exact ih _
  · induction l generalizing s' with
    | nil => exact hs'
    | cons e l ih =>
      refine ih _ ?_
      show (s'.topicBySubscriptionId.erase e.1).get? i = none
      rw [Dict.get?_erase]
      split_ifs
      · rfl
      · exact hs'

theorem parallel_beginSchedulerCheck (rt : Runtime) (j : String) : Parallel i t stale (beginSchedulerCheck rt j) := by
  refine parallel_get_bind (fun _ _ => rfl) fun s _ => ?_
  split
  · exact parallel_pure _
  · split
    · exact parallel_pure _
    · exact Parallel.bind (parallel_modify (fun _ _ => rfl) (fun _ => rfl) fun _ => id) fun _ => parallel_pure _

theorem parallel_deliver (rt : Runtime) (m : SlurmMessage) (sub : Subscription ClientCallback) :
    Parallel i t stale (deliver rt m sub) := by
  unfold deliver
  split
  · exact parallel_pure _
  · exact parallel_modify (fun _ _ => rfl) (fun _ => rfl) fun _ => id
  · exact parallel_modify (fun _ _ => rfl) (fun _ => rfl) fun _ => id
  · exact Parallel.bind (parallel_modify (fun _ _ => rfl) (fun _ => rfl) fun _ => id) fun _ =>
      parallel_modify (fun _ _ => rfl) (fun _ => rfl) fun _ => id
  · split
    · exact parallel_get_bind (fun _ _ => rfl) fun s _ => parallel_tryCatch (parallel_applyStatus rt _ _)
    · exact parallel_pure _

end Parallel

/-! ## The registration of a callback -/

section Listen

/-- What another thread does to the tracker between a client subscription and its validation.  Registrations are left
out: beside the call they draw other ids and ready events than without it. -/
inductive Interference
  | applyStatus (rt : Runtime) (m : StatusMessage) (future : FutureRef)
  | removeSubscriptionsForJob (rt : Runtime) (jobId : String) (skip : Bool)
  | removeSubscriptionById (ids : List SubId)
  | removeSubscriptionByTopic (topic : Topic)
  | beginSchedulerCheck (rt : Runtime) (jobId : String)
  | deliver (rt : Runtime) (m : SlurmMessage) (sub : Subscription ClientCallback)

def Interference.run : Interference → Program PyError JobTracker Unit
  | .applyStatus rt m f => JobTracker.applyStatus rt m f
  | .removeSubscriptionsForJob rt j skip => JobTracker.removeSubscriptionsForJob rt j skip
  | .removeSubscriptionById ids => JobTracker.removeSubscriptionById ids
  | .removeSubscriptionByTopic t => JobTracker.removeSubscriptionByTopic t
  | .beginSchedulerCheck rt j => do let _ ← JobTracker.beginSchedulerCheck rt j
  | .deliver rt m sub => JobTracker.deliver rt m sub

/-- What the other threads leave. -/
def meanwhile (env : List Interference) (s : JobTracker) : JobTracker := env.foldl (fun s x => x.run.after s) s

/-- `add_subscription`.  The other threads bring the tracker to `later` before the client subscription, and do
`env` between it and its validation. -/
def addSubscriptionDuring (later : JobTracker) (env : List Interference) (a : AddArgs) :
    Program PyError JobTracker SubId := do
  let future ← checkActive a
  set later
  let cbId ← subscribeListener a future
  modify (meanwhile env)
  validateListener a future cbId

/-- `JobFuture.listen`. -/
def listenDuring (later : JobTracker) (env : List Interference) (future : FutureRef) (event : Event)
    (callback : Callback) : Program PyError JobTracker SubId := do
  let s ← get
  let cbId ← addSubscriptionDuring later env ⟨(s.futures future).jobId, event, callback⟩
  modify fun s => setFuture future ((s.futures future).registerCallback ⟨cbId, event, callback⟩) s
  return cbId

/-- What the other threads alone leave by the time the call ends: a call that finds the job inactive, or is refused
its client subscription, ends before them. -/
def bystander (later : JobTracker) (env : List Interference) (a : AddArgs) (s : JobTracker) : JobTracker :=
  match (checkActive a).exec s with
  | (.error _, _) => s
  | (.ok future, _) =>
    match (subscribeListener a future).exec later with
    | (.ok _, _) => meanwhile env later
    | (.error _, _) => later

/-- The maps of the tracker, those of its client, and the futures with their callbacks are the same. -/
structure Restored (s t : JobTracker) : Prop where
  registry : t.futureRegistry = s.futureRegistry
  globals : t.globalCallbacks = s.globalCallbacks
  records : t.subscriptionsByTopic = s.subscriptionsByTopic
  owners : t.topicBySubscriptionId = s.topicBySubscriptionId
  active : t.activeSubscriptions = s.activeSubscriptions
  futures : t.futures = s.futures
  client : RedisSubClient.SameRegistrations s.subClient t.subClient

/-- The job is in the registry and not done. -/
def Accepting (s : JobTracker) (j : String) : Prop := ∃ g, s.futureRegistry.get? j = some g ∧ (s.futures g).done = false

/-- If the job is active at the call, its topic has callbacks in the client at the client subscription, or SUBSCRIBE
is accepted and no ready event was left there. -/
def Tidy (s later : JobTracker) (a : AddArgs) : Prop :=
  s.Accepting a.jobId → later.subClient.Registered a.topic ∨
    later.subClient.pubsub.outcome (.subscribe a.topic) = .ok () ∧ later.subClient.subscriptionReady.get? a.topic = none

variable {i : SubId} {t : Topic} {stale : Option EventRef} {s : JobTracker} {pending : SubId → Option Pending}

theorem parallel_run (x : Interference) : Parallel i t stale x.run := by
  cases x with
  | applyStatus rt m f => exact parallel_applyStatus rt m f
  | removeSubscriptionsForJob rt j skip => exact parallel_removeSubscriptionsForJob rt j skip
  | removeSubscriptionById ids => exact parallel_forM parallel_removeId
  | removeSubscriptionByTopic t' => exact parallel_removeSubscriptionByTopic t'
  | beginSchedulerCheck rt j => exact (parallel_beginSchedulerCheck rt j).bind fun _ => parallel_pure _
  | deliver rt m sub => exact parallel_deliver rt m sub

/-- The other threads do the same with either client. -/
theorem Twins.meanwhile {d : RedisSubClient ClientCallback} (h : Twins i t stale s d) (env : List Interference) :
    ∃ d', meanwhile env { s with subClient := d } =
        { meanwhile env s with subClient := d' } ∧
      Twins i t stale (meanwhile env s) d' := by
  unfold JobTracker.meanwhile
  induction env generalizing s d with
  | nil => exact ⟨d, rfl, h⟩
  | cons x env ih =>
    obtain ⟨u, s', d', he, he', h'⟩ := parallel_run x s d h
    have hs : x.run.after s = s' := congrArg Prod.snd he
    have hd : x.run.after { s with subClient := d } = { s' with subClient := d' } := congrArg Prod.snd he'
    rw [List.foldl_cons, List.foldl_cons, hs, hd]
    exact ih h'

/-- A client subscription that returned, beside the client without it. -/
theorem Homed.twins (h : s.Homed pending) (hw : s.subClient.pubsub.Willing) {cb : ClientCallback} {i : SubId}
    {d : RedisSubClient ClientCallback} (he : (RedisSubClient.subscribe t cb).exec s.subClient = (.ok i, d)) :
    ∃ stale, Twins i t stale s d ∧
      (stale = none ↔ s.subClient.Registered t ∨
        s.subClient.pubsub.outcome (.subscribe t) = .ok () ∧ s.subClient.subscriptionReady.get? t = none) := by
  have hc := h.client
  have hnone : s.topicBySubscriptionId.get? s.subClient.nextUuid = none := by
    cases ho : s.topicBySubscriptionId.get? s.subClient.nextUuid with
    | none => rfl
    | some t' => exact absurd (h.fresh _ t' ho) (lt_irrefl _)
  have habsent := RedisSubClient.find?_eq_none_of_le hc (le_refl s.subClient.nextUuid)
  by_cases hreg : s.subClient.Registered t
  · -- the topic has callbacks
    obtain ⟨b, hb⟩ := Option.isSome_iff_exists.mp hreg
    obtain ⟨d', hd, hs⟩ := RedisSubClient.subscribe_joined hc t cb hreg
    obtain ⟨hi, rfl⟩ := Prod.mk.inj (hd.symm.trans he)
    obtain rfl := Except.ok.inj hi
    have hready : d'.subscriptionReady = s.subClient.subscriptionReady := by
      rw [← (Prod.mk.inj ((RedisSubClient.exec_subscribe_joined hb).symm.trans hd)).2]
    have hmine : d'.find? s.subClient.nextUuid = some (t, ⟨s.subClient.nextUuid, t, cb⟩) := by
      rw [hs.find?, if_pos rfl]
    have hcalls : d'.pubsub = s.subClient.pubsub := by
      rw [← (Prod.mk.inj ((RedisSubClient.exec_subscribe_joined hb).symm.trans hd)).2]
    refine ⟨none, ⟨⟨hc, hs.wellFormed, fun k p hk => by rw [hs.find?, if_neg hk], habsent, fun p hp => ?_,
      fun _ => by rw [hmine]; rfl, fun t' _ => by rw [hready], fun _ => ⟨by rw [hready], rfl⟩,
      fun hno => absurd hreg hno, fun hg => ?_⟩, hnone, hw, by rwa [hcalls]⟩, iff_of_true rfl (.inl hreg)⟩
    · rw [hmine] at hp
      rw [← Option.some.inj hp]
    · rw [hmine] at hg
      contradiction
  · have hb : s.subClient.subscriptionsByTopic.get? t = none := by simpa [RedisSubClient.Registered] using hreg
    cases hout : s.subClient.pubsub.outcome (.subscribe t) with
    | error err =>
      rw [RedisSubClient.exec_subscribe_raised hb hout] at he
      cases he
    | ok u =>
      obtain ⟨d', hd, hs⟩ := RedisSubClient.subscribe_opened hc t cb hreg hout
      obtain ⟨hi, rfl⟩ := Prod.mk.inj (hd.symm.trans he)
      obtain rfl := Except.ok.inj hi
      have hex := (Prod.mk.inj ((RedisSubClient.exec_subscribe_opened hb hout).symm.trans hd)).2
      have hready : d'.subscriptionReady =
          s.subClient.subscriptionReady.set t s.subClient.events.length := by rw [← hex]
      have hcalls : d'.pubsub = s.subClient.pubsub.record (.subscribe t) := by rw [← hex]
      have hmine : d'.find? s.subClient.nextUuid = some (t, ⟨s.subClient.nextUuid, t, cb⟩) := by
        rw [hs.find?, if_pos rfl]
      refine ⟨s.subClient.subscriptionReady.get? t, ⟨⟨hc, hs.wellFormed, fun k p hk => by rw [hs.find?, if_neg hk],
        habsent, fun p hp => ?_, fun hr => absurd hr hreg, fun t' ht => ?_, fun hr => absurd hr hreg, fun _ => rfl,
        fun hg => ?_⟩, hnone, hw, ?_⟩, ?_⟩
      · rw [hmine] at hp
        rw [← Option.some.inj hp]
      · rw [hready, Dict.get?_set_ne _ _ ht]
      · rw [hmine] at hg
        contradiction
      · rw [hcalls]
        exact fun n hn => hw n (Nat.le_of_succ_le hn)
      · simp [hreg]

/-- A client subscription that raised leaves a ready event that was not there. -/
theorem not_sameRegistrations_of_raised {χ : Type} {c d : RedisSubClient χ} (h : c.WellFormed) {cb : χ} {e : PyError}
    (he : (RedisSubClient.subscribe t cb).exec c = (.error e, d)) :
    ¬ RedisSubClient.SameRegistrations c d ∧ ¬ c.Registered t ∧ c.pubsub.outcome (.subscribe t) ≠ .ok () := by
  rcases RedisSubClient.subscribe_cases h t cb with ⟨c', hc, -⟩ | ⟨e', c', hc, href, hreg, hout⟩
  · rw [hc] at he
    cases he
  · obtain ⟨-, rfl⟩ := Prod.mk.inj (hc.symm.trans he)
    refine ⟨fun hs => ?_, hreg, by rw [hout]; simp⟩
    have hnew := hs.ready t
    rw [href.ready, if_pos rfl] at hnew
    exact absurd (h.event_lt t _ hnew.symm) (lt_irrefl _)

theorem sameRegistrations_refl {χ : Type} (c : RedisSubClient χ) : RedisSubClient.SameRegistrations c c :=
  ⟨fun _ => Iff.rfl, fun _ _ => rfl, fun _ => rfl, fun _ => rfl⟩

theorem checkActive_cases (a : AddArgs) :
    (∃ g, s.Accepting a.jobId ∧ (checkActive a).exec s = (.ok g, s)) ∨
      (¬ s.Accepting a.jobId ∧ ∃ err, (checkActive a).exec s = (.error err, s)) := by
  have hcheck := Config.exec_checkActive (s := s) a
  cases hreg : s.futureRegistry.get? a.jobId with
  | none =>
    rw [hreg] at hcheck
    refine Or.inr ⟨?_, _, hcheck⟩
    rintro ⟨g, hg, -⟩
    rw [hreg] at hg
    contradiction
  | some g =>
    cases hd : (s.futures g).done with
    | true =>
      simp only [hreg, hd, if_true] at hcheck
      refine Or.inr ⟨?_, _, hcheck⟩
      rintro ⟨g', hg', hd'⟩
      rw [hreg] at hg'
      obtain rfl := Option.some.inj hg'
      rw [hd] at hd'
      contradiction
    | false =>
      simp only [hreg, hd, Bool.false_eq_true, if_false] at hcheck
      exact Or.inl ⟨g, ⟨g, hreg, hd⟩, hcheck⟩

theorem exec_subscribeListener (a : AddArgs) (g : FutureRef) : (subscribeListener a g).exec s =
    (onClient (RedisSubClient.subscribe a.topic (a.redisCallback (s.futures g)))).exec s :=
  exec_bind_ok (exec_get s)

/-- The validation finds the job over and undoes the registration. -/
theorem Homed.undone_restored {later : JobTracker} (h : later.Homed pending) (hw : later.subClient.pubsub.Willing)
    (env : List Interference) (a : AddArgs) {g : FutureRef} {i : SubId} {d : RedisSubClient ClientCallback}
    (hr : (RedisSubClient.subscribe a.topic (a.redisCallback (later.futures g))).exec later.subClient = (.ok i, d))
    {e : PyError} {s' : JobTracker}
    (he : (JobTracker.validateListener a g i).exec (meanwhile env { later with subClient := d }) = (.error e, s')) :
    Restored (meanwhile env later) s' ↔ later.subClient.Registered a.topic ∨
      later.subClient.pubsub.outcome (.subscribe a.topic) = .ok () ∧
        later.subClient.subscriptionReady.get? a.topic = none := by
  obtain ⟨stale, htwins, hstale⟩ := h.twins hw hr
  obtain ⟨d', hmean, htw⟩ := htwins.meanwhile env
  rw [hmean] at he
  unfold JobTracker.validateListener at he
  rw [exec_bind_ok (exec_get _)] at he
  split_ifs at he
  · obtain ⟨b, d'', hun, hdrop⟩ := RedisSubClient.unsubscribe_dropped htw.beside.right htw.willing.2 i
    have hun' : (onClient (RedisSubClient.unsubscribe i)).exec { meanwhile env later with subClient := d' } =
        (.ok b, { meanwhile env later with subClient := d'' }) := by
      rw [onClient, exec_focus, hun]
    rw [exec_bind_ok hun'] at he
    obtain rfl := (Prod.mk.inj he).2
    rw [← hstale, ← htw.beside.undone hdrop]
    exact ⟨fun hs => hs.client, fun hs => ⟨rfl, rfl, rfl, rfl, rfl, rfl, hs⟩⟩
  · rw [exec_bind_ok (exec_registerSubscriptionForJob rfl)] at he
    cases he

/-- A registration that raises leaves nothing behind exactly where the topic is tidy. -/
theorem Homed.addSubscription_restored {later : JobTracker} (h : later.Homed pending) (hw : later.subClient.pubsub.Willing)
    (env : List Interference) (a : AddArgs) {e : PyError} {s' : JobTracker}
    (he : (addSubscriptionDuring later env a).exec s = (.error e, s')) :
    Restored (bystander later env a s) s' ↔ s.Tidy later a := by
  unfold addSubscriptionDuring at he
  unfold bystander
  rcases checkActive_cases (s := s) a with ⟨g, hactive, hcheck⟩ | ⟨hno, err, hcheck⟩
  · rw [exec_bind_ok hcheck, exec_bind_ok (exec_set later s)] at he
    rw [hcheck]
    dsimp only
    have hx := exec_subscribeListener (s := later) a g
    rw [onClient, exec_focus] at hx
    rcases hr : (RedisSubClient.subscribe a.topic (a.redisCallback (later.futures g))).exec later.subClient with ⟨r, d⟩
    rw [hr] at hx
    cases r with
    | error err =>
      -- SUBSCRIBE raised
      rw [exec_bind_error hx] at he
      obtain rfl := (Prod.mk.inj he).2
      obtain ⟨hne, hno, hout⟩ := not_sameRegistrations_of_raised h.client hr
      rw [hx]
      refine iff_of_false (fun hs => hne hs.client) fun htidy => ?_
      rcases htidy hactive with hr | ⟨hok, -⟩
      · exact hno hr
      · exact hout hok
    | ok i =>
      rw [exec_bind_ok hx, exec_bind_ok (exec_modify _ _)] at he
      rw [hx]
      dsimp only
      rw [h.undone_restored hw env a hr he]
      exact ⟨fun ht _ => ht, fun ht => ht hactive⟩
  · rw [exec_bind_error hcheck] at he
    obtain rfl := (Prod.mk.inj he).2
    rw [hcheck]
    exact iff_of_true ⟨rfl, rfl, rfl, rfl, rfl, rfl, sameRegistrations_refl _⟩ fun ha => absurd ha hno

end Listen

end JobTracker

/-! ## Reachable states -/

namespace Session

open JobTracker

/-- **When a failed registration leaves nothing behind.**  In every reachable state `s`, and whatever the other threads
do from there to `later`, where the client subscription is made: a `listen` that raises leaves what the other threads
alone leave exactly where the topic is tidy; a client subscription that raises never leaves the client as it was. -/
theorem failed_listen_iff {s₀ s later : Session} {ls ls' : List Label} (h₀ : s₀.Initial)
    (hrun : Run Steps (fun _ _ => True) s₀ ls s) (hlater : Run Steps (fun _ _ => True) s ls' later)
    (hw : later.tracker.subClient.pubsub.Willing) :
    (∀ env f event callback e t, (listenDuring later.tracker env f event callback).exec s.tracker = (.error e, t) →
      (Restored (bystander later.tracker env ⟨s.jobOf f, event, callback⟩ s.tracker) t ↔
        s.tracker.Tidy later.tracker ⟨s.jobOf f, event, callback⟩)) ∧
    ∀ topic callback e c, (RedisSubClient.subscribe topic callback).exec s.tracker.subClient = (.error e, c) →
      ¬ RedisSubClient.SameRegistrations s.tracker.subClient c := by
  obtain ⟨pending₀, h⟩ := run_homed h₀ hrun
  obtain ⟨pending, h'⟩ := run_homed h₀ (hrun.append hlater)
  refine ⟨fun env f event callback e t he => ?_, fun topic callback e c he => ?_⟩
  · unfold listenDuring at he
    rw [exec_bind_ok (exec_get _)] at he
    rcases hr : (addSubscriptionDuring later.tracker env ⟨(s.tracker.futures f).jobId, event, callback⟩).exec s.tracker
      with ⟨r, x⟩
    cases r with
    | ok i =>
      rw [exec_bind_ok hr] at he
      cases he
    | error err =>
      rw [exec_bind_error hr] at he
      obtain ⟨-, rfl⟩ := Prod.mk.inj he
      exact h'.tracker.addSubscription_restored hw env _ hr
  · exact (not_sameRegistrations_of_raised h.tracker.client he).1

/-- A connection that refuses a SUBSCRIBE as its fifth call. -/
def fifthFails (n : ℕ) : Command → Option String
  | .subscribe _ => if n = 4 then some "Connection refused" else none
  | .unsubscribe _ => none

/-- The run after which the log topic of a tracked job has no callback. -/
theorem tracked_without_log : ∃ s, Run Steps (fun _ _ => True) (new fifthFails unary)
      [⟨.still, .track 0⟩, ⟨.still, .removeSubscriptionByTopic "info/j/log"⟩] s ∧
    s.tracker.subClient.pubsub.failure = fifthFails ∧
    s.tracker.subClient.subscriptionReady.get? "info/j/log" = none ∧
    ((listenDuring s.tracker [] 0 .log 7).exec s.tracker).1 = .error ⟨.redisError, "Connection refused"⟩ ∧
    ((listenDuring s.tracker [] 0 .log 7).after s.tracker).subClient.subscriptionReady.get? "info/j/log" = some 3 ∧
    bystander s.tracker [] ⟨s.jobOf 0, .log, 7⟩ s.tracker = s.tracker :=
  ⟨_, Run.cons trivial rfl (Run.single trivial rfl), rfl, rfl, rfl, rfl, rfl⟩

/-- **A refused SUBSCRIBE leaves a ready event behind.**  Before the call the topic had none; afterwards
`wait_until_subscribed` finds one that nobody will ever set. -/
theorem refused_listen_leaves_event : ∃ s s', Run Steps (fun _ _ => True) (new fifthFails unary)
      [⟨.still, .track 0⟩, ⟨.still, .removeSubscriptionByTopic "info/j/log"⟩] s ∧
    (listenDuring s.tracker [] 0 .log 7).exec s.tracker = (.error ⟨.redisError, "Connection refused"⟩, s') ∧
    s.tracker.subClient.subscriptionReady.get? "info/j/log" = none ∧
    s'.subClient.subscriptionReady.get? "info/j/log" = some 3 ∧
    ¬ Restored (bystander s.tracker [] ⟨s.jobOf 0, .log, 7⟩ s.tracker) s' := by
  obtain ⟨s, hrun, -, hnone, hres, hsome, hby⟩ := tracked_without_log
  refine ⟨s, _, hrun, Prod.ext hres rfl, hnone, hsome, fun h => ?_⟩
  have hr := h.client.ready "info/j/log"
  rw [hby, hnone] at hr
  rw [after] at hsome
  rw [hsome] at hr
  contradiction

/-- The refused call is the case of a topic that is not tidy. -/
theorem failed_listen_iff_of_refused : ∃ s s', Run Steps (fun _ _ => True) (new fifthFails unary)
      [⟨.still, .track 0⟩, ⟨.still, .removeSubscriptionByTopic "info/j/log"⟩] s ∧
    (listenDuring s.tracker [] 0 .log 7).exec s.tracker = (.error ⟨.redisError, "Connection refused"⟩, s') ∧
    (Restored (bystander s.tracker [] ⟨s.jobOf 0, .log, 7⟩ s.tracker) s' ↔
      s.tracker.Tidy s.tracker ⟨s.jobOf 0, .log, 7⟩) := by
  obtain ⟨s, hrun, hfail, -, hres, -⟩ := tracked_without_log
  have hw : s.tracker.subClient.pubsub.Willing := fun n _ t => by rw [hfail]; rfl
  exact ⟨s, _, hrun, Prod.ext hres rfl,
    (failed_listen_iff (initial_new _ unary_injective) hrun (Run.nil s) hw).1 [] 0 .log 7 _ _ (Prod.ext hres rfl)⟩

end Session

end SlurmManager
