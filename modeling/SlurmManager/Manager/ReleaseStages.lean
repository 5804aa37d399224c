import SlurmManager.Manager.ReleaseGating
import SlurmManager.Tracking.Sections

/-!
# ReleaseStages — the sections of one call

Each section of a call takes an upright call of an unfinished job to its next stage.  One lemma a
section, in the order of the code; in all of them `j` is the job id of the call's future.
-/

namespace SlurmManager

open Program

namespace RedisSubClient

variable {χ : Type} {t : Topic} {c c' : RedisSubClient χ}

/-- More callbacks on an opened topic. -/
theorem Opened.set (h : Opened t c) {b : Dict SubId (Subscription χ)}
    (hb : c'.subscriptionsByTopic.get? t = some b) (hr : c'.subscriptionReady = c.subscriptionReady)
    (hp : c'.pubsub = c.pubsub) : Opened t c' := by
  obtain ⟨b', e, hv⟩ := h
  refine ⟨b, e, ?_⟩
  unfold topicView at hv ⊢
  rw [hb, hr, hp]
  exact congrArg (fun v => (some b, v.2)) hv

/-- Looking up changes nothing. -/
theorem frame_readyEvents (topics : List Topic) : Frame (fun c : RedisSubClient χ => c) (readyEvents topics) := by
  induction topics with
  | nil => exact within_pure _
  | cons topic topics ih =>
    refine Within.bind within_get fun c => ?_
    split
    · exact within_throw _
    · exact Within.bind ih fun _ => within_pure _

end RedisSubClient

namespace JobTracker

variable {s t : JobTracker} {j : String} {x : Submitted}

theorem topicOf_ne {e e' : Event} (h : e ≠ e') : topicOf j e ≠ topicOf j e' := fun he => h (topicOf_inj.mp he).2

/-- `track` puts the future in the registry. -/
theorem Upright.published (h : s.Upright j x (.tracking x)) (hj : (s.futures x.future).jobId = j) :
    (publishFuture x.future s).Upright j x (.subscribing x .heartbeat [.status, .log]) := by
  refine ⟨fun _ => ?_, h.owed, h.opened, h.listed, fun c hc => Or.inl hc, by simp [At]⟩
  rw [← hj]
  exact Dict.get?_set_self _ _ _

/-- `track` subscribes for an event: the topic is new. -/
theorem Upright.subscribed {e : Event} {rest : List Event} {i : SubId} (h : s.Upright j x (.subscribing x e rest))
    (hj : (s.futures x.future).jobId = j) (he : (subscribeCallback e x.future).exec s = (.ok i, t)) :
    t.Upright j x (.indexing x e i rest) := by
  rw [Config.exec_subscribeCallback, onClient, exec_focus, hj] at he
  rcases hx : (RedisSubClient.subscribe (topicOf j e) (internalCallback e x.future (s.futures x.future))).exec
    s.subClient with ⟨r, c⟩
  rw [hx] at he
  obtain ⟨rfl, rfl⟩ := Prod.mk.inj he
  obtain ⟨hne, hnodup⟩ := List.nodup_cons.mp h.at_
  have hother : ∀ e', e' ≠ e → Same (RedisSubClient.topicView (topicOf j e')) s.subClient c :=
    fun e' he' => (RedisSubClient.frame_subscribe (topicOf_ne he'.symm) _).of_exec hx
  refine ⟨fun _ => h.registry (by simp), fun e' he' => ?_, fun e' he' => ?_, h.listed, fun c hc => Or.inl hc, h.at_⟩
  · have hee : e' ≠ e := fun hee => hne (hee ▸ he')
    exact (h.owed e' (List.mem_cons_of_mem e he')).congr (hother e' hee)
  · by_cases hee : e' = e
    · subst hee
      exact (h.owed e' List.mem_cons_self).subscribed _ hx
    · have hold : e' ∉ e :: rest := fun hm => (List.mem_cons.mp hm).elim hee he'
      exact (h.opened e' hold).congr (hother e' hee)

/-- The stage after the indexing of an internal subscription. -/
def indexedStage (x : Submitted) : List Event → Stage
  | [] => .listening x x.callbacks
  | e :: rest => .subscribing x e rest

/-- `track` indexes the subscription. -/
theorem Upright.indexed {e : Event} {rest : List Event} {i : SubId} (rt : Runtime)
    (h : s.Upright j x (.indexing x e i rest)) (hj : (s.futures x.future).jobId = j) :
    ((indexCallback rt e x.future i).after s).Upright j x (indexedStage x rest) := by
  have hafter : (indexCallback rt e x.future i).after s = s.indexed (internalInfo rt e (s.futures x.future) i) i := by
    rw [after, Config.exec_indexCallback]
  have hlisted : ∀ e' ∉ rest, topicOf j e' ∈ (s.indexed (internalInfo rt e (s.futures x.future) i) i).activeTopics j := by
    intro e' he'
    rw [activeTopics_indexed, Config.internalInfo_jobId, Config.internalInfo_topic, hj, if_pos rfl, mem_addTopic]
    by_cases hee : e' = e
    · exact Or.inl (hee ▸ rfl)
    · exact Or.inr (h.listed e' fun hm => (List.mem_cons.mp hm).elim hee he')
  have hnodup := (List.nodup_cons.mp h.at_).2
  rw [hafter]
  cases rest with
  | nil => exact ⟨fun _ => h.registry (by simp), h.owed, h.opened, hlisted, fun c hc => Or.inl hc, trivial⟩
  | cons e' rest => exact ⟨fun _ => h.registry (by simp), h.owed, h.opened, hlisted, fun c hc => Or.inl hc, hnodup⟩

/-- `wait_until_ready` copies the topics of the job, which are all there. -/
theorem Upright.looked (rt : Runtime) (h : s.Upright j x (.listening x [])) :
    s.Upright j x (.looking x (rt.setOrder (s.activeTopics j))) := by
  refine ⟨fun _ => h.registry (by simp), h.owed, h.opened, h.listed, h.callbacks, fun e => ?_⟩
  exact rt.mem_setOrder.mpr (h.listed e List.not_mem_nil)

/-- `add_subscription` finds the job active. -/
theorem Upright.active {c : Event × Callback} {todo : List (Event × Callback)} {g : FutureRef}
    (h : s.Upright j x (.listening x (c :: todo))) (he : (checkActive ⟨j, c.1, c.2⟩).exec s = (.ok g, t)) :
    t.Upright j x (.adding x g c todo) := by
  rw [Config.exec_checkActive, h.registry (by simp)] at he
  dsimp only at he
  split_ifs at he
  · exact absurd (Prod.mk.inj he).1 (by simp)
  · obtain ⟨hg, rfl⟩ := Prod.mk.inj he
    exact ⟨fun _ => h.registry (by simp), h.owed, h.opened, h.listed, h.callbacks, (Except.ok.inj hg).symm⟩

/-- `add_subscription` joins the topic. -/
theorem Upright.joined {c : Event × Callback} {todo : List (Event × Callback)} {g : FutureRef} {i : SubId}
    (hw : s.subClient.WellFormed) (h : s.Upright j x (.adding x g c todo))
    (he : (subscribeListener ⟨j, c.1, c.2⟩ g).exec s = (.ok i, t)) : t.Upright j x (.validating x g c i todo) := by
  obtain ⟨b, hb, hx⟩ := (h.opened c.1 List.not_mem_nil).joined
    ((⟨j, c.1, c.2⟩ : AddArgs).redisCallback (s.futures g))
  have hexec : (subscribeListener ⟨j, c.1, c.2⟩ g).exec s = _ := exec_bind_ok (exec_get s)
  rw [hexec, onClient, exec_focus, show (⟨j, c.1, c.2⟩ : AddArgs).topic = topicOf j c.1 from rfl, hx] at he
  obtain ⟨hi, rfl⟩ := Prod.mk.inj he
  obtain rfl := Except.ok.inj hi
  have hfresh : ∀ {t' : Topic} {b' : Dict SubId (Subscription ClientCallback)} {k : SubId} {sub},
      s.subClient.subscriptionsByTopic.get? t' = some b' → b'.get? k = some sub → k ≠ s.subClient.nextUuid := by
    intro t' b' k sub hb' hk
    have hfind : s.subClient.find? k = some (t', sub) := by
      refine (Index.find?_eq_some_iff hw.consistent).mpr ?_
      show ((s.subClient.subscriptionsByTopic.get? t').getD ∅).get? k = some sub
      rw [hb']
      exact hk
    exact Nat.ne_of_lt (hw.fresh k _ hfind)
  have hother : ∀ e', e' ≠ c.1 → Same (RedisSubClient.topicView (topicOf j e')) s.subClient _ :=
    fun e' he' => (RedisSubClient.frame_subscribe (topicOf_ne he'.symm) _).of_exec hx
  refine ⟨fun _ => h.registry (by simp), by simp [Stage.owed], fun e' _ => ?_, h.listed, fun c' hc' => ?_,
    h.at_, _, _, Dict.get?_set_self _ _ _, Dict.get?_set_self _ _ _, ?_⟩
  · by_cases hee : e' = c.1
    · subst hee
      exact (h.opened c.1 List.not_mem_nil).set (Dict.get?_set_self _ _ _) rfl rfl
    · exact (h.opened e' List.not_mem_nil).congr (hother e' hee)
  · rcases h.callbacks c' hc' with hp | ⟨k, -, ⟨b', sub, hb', hk, hcb⟩, hrec⟩
    · exact Or.inl hp
    · have hne := hfresh hb' hk
      refine Or.inr ⟨k, fun hd => hne (Option.some.inj hd).symm, ?_, hrec⟩
      by_cases hee : c'.1 = c.1
      · rw [hee] at hb'
        obtain rfl := Option.some.inj (hb.symm.trans hb')
        refine ⟨b.set s.subClient.nextUuid ⟨s.subClient.nextUuid, topicOf j c.1,
          (⟨j, c.1, c.2⟩ : AddArgs).redisCallback (s.futures g)⟩, sub, ?_, (Dict.get?_set_ne _ _ hne).trans hk, hcb⟩
        rw [hee]
        exact Dict.get?_set_self _ _ _
      · exact Installed.congr ⟨b', sub, hb', hk, hcb⟩ (hother c'.1 hee)
  · by_cases hst : c.1 = .status
    · rw [if_pos hst]
      exact if_pos hst
    · rw [if_neg hst]
      exact ⟨_, rfl, rfl, if_neg hst⟩

/-- `add_subscription` finds the job active again, and indexes the callback. -/
theorem Upright.validated {c : Event × Callback} {todo : List (Event × Callback)} {g : FutureRef} {i k : SubId}
    (h : s.Upright j x (.validating x g c i todo)) (hd : (s.futures x.future).done = false)
    (he : (validateListener ⟨j, c.1, c.2⟩ g i).exec s = (.ok k, t)) : t.Upright j x (.noting x c k todo) := by
  obtain ⟨rfl, hin⟩ := h.at_
  have hreg := h.registry (by simp)
  unfold validateListener at he
  rw [exec_bind_ok (exec_get s), exec_ite, if_neg (by simp [hreg, hd])] at he
  rw [exec_bind_ok (exec_registerSubscriptionForJob rfl)] at he
  obtain ⟨hk, rfl⟩ := Prod.mk.inj he
  obtain rfl : i = k := Except.ok.inj hk
  have hrec := record?_indexed (s := s) ((⟨j, c.1, c.2⟩ : AddArgs).info (s.futures x.future) i) i
  refine ⟨fun _ => hreg, by simp [Stage.owed], h.opened, fun e he => ?_, fun c' hc' => ?_, trivial⟩
  · rw [activeTopics_indexed]
    split_ifs
    · exact mem_addTopic.mpr (Or.inr (h.listed e he))
    · exact h.listed e he
  · have hnew : (s.indexed ((⟨j, c.1, c.2⟩ : AddArgs).info (s.futures x.future) i) i).Serves j c i := by
      refine ⟨hin, (⟨j, c.1, c.2⟩ : AddArgs).info (s.futures x.future) i,
        (⟨j, c.1, c.2⟩ : AddArgs).dispatch (s.futures x.future), ?_, rfl, rfl, rfl⟩
      rw [hrec, if_pos ⟨rfl, rfl⟩]
    rcases h.callbacks c' hc' with hp | ⟨k, hdrawn, hink, info, d, hinfo, hrest⟩
    · rcases List.mem_cons.mp hp with rfl | hp
      · exact Or.inr ⟨i, by simp [Stage.drawn], hnew⟩
      · exact Or.inl hp
    · refine Or.inr ⟨k, by simp [Stage.drawn], hink, info, d, ?_, hrest⟩
      rw [hrec, if_neg fun hk => hdrawn (congrArg some hk.2.symm)]
      exact hinfo

/-- `listen` notes the callback in the future. -/
theorem Upright.noted {c : Event × Callback} {i : SubId} {todo : List (Event × Callback)}
    (h : s.Upright j x (.noting x c i todo)) (f : JobFuture) :
    (setFuture x.future f s).Upright j x (.listening x todo) := by
  refine ⟨fun _ => h.registry (by simp), h.owed, h.opened, h.listed, fun c' hc' => ?_, trivial⟩
  rcases h.callbacks c' hc' with hp | ⟨k, -, hserves⟩
  · exact Or.inl hp
  · exact Or.inr ⟨k, by simp [Stage.drawn], hserves⟩

/-- `wait_until_subscribed` looks the ready events up. -/
theorem Upright.covered {topics : List Topic} {ready : List (Topic × EventRef)}
    (h : s.Upright j x (.looking x topics))
    (he : (onClient (RedisSubClient.readyEvents topics)).exec s = (.ok ready, t)) :
    t.Upright j x (.waiting x ready) := by
  rw [onClient, exec_focus] at he
  obtain ⟨hr, rfl⟩ := Prod.mk.inj he
  have hsame : ((RedisSubClient.readyEvents topics).exec s.subClient).2 = s.subClient :=
    RedisSubClient.frame_readyEvents topics s.subClient
  rw [hsame]
  refine ⟨fun _ => h.registry (by simp), h.owed, h.opened, h.listed, h.callbacks, fun e => Or.inr ?_⟩
  obtain ⟨ev, hev, hmem⟩ := Link.readyEvents_ok hr (topicOf j e) (h.at_ e)
  exact ⟨ev, hmem, hev⟩

/-- One wait is over. -/
theorem Upright.woken {t : Topic} {e : EventRef} {ready : List (Topic × EventRef)}
    (h : s.Upright j x (.waiting x ((t, e) :: ready))) (he : s.subClient.events[e]? = some true) :
    s.Upright j x (.waiting x ready) := by
  refine ⟨fun _ => h.registry (by simp), h.owed, h.opened, h.listed, h.callbacks, fun e' => ?_⟩
  rcases h.at_ e' with hr | ⟨ev, hmem, hev⟩
  · exact Or.inl hr
  · rcases List.mem_cons.mp hmem with heq | hmem
    · obtain ⟨rfl, rfl⟩ := Prod.mk.inj heq
      exact Or.inl ⟨ev, hev, he⟩
    · exact Or.inr ⟨ev, hmem, hev⟩

/-- All waits are over. -/
theorem Upright.awaited (h : s.Upright j x (.waiting x [])) : s.Upright j x (.releasing x) := by
  refine ⟨fun _ => h.registry (by simp), h.owed, h.opened, h.listed, h.callbacks, fun e => ?_⟩
  rcases h.at_ e with hr | ⟨ev, hmem, -⟩
  · exact hr
  · simp at hmem

theorem Upright.released (h : s.Upright j x (.releasing x)) : s.Upright j x (.returned x) :=
  ⟨fun _ => h.registry (by simp), h.owed, h.opened, h.listed, h.callbacks, h.at_⟩

end JobTracker

end SlurmManager
