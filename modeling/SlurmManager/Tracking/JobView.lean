import SlurmManager.Tracking.Frames
import SlurmManager.Tracking.Readiness
import SlurmManager.Tracking.StatusUpdate

/-!
# JobView — what is held for one job, and who leaves it alone

No assumption on Redis is made.

* `Calls`, `Removals`: what every call of the client, or each of its removals, does to the client.  The
  `lift_*` lemmas carry this over to the operations of the tracker.
* `topicView`, `jobView`: the parts of the client and of the tracker that belong to a topic and to a job.
* `same_*`: an operation for another job leaves the `jobView` alone.
-/

namespace SlurmManager

open Program

def Command.topic : Command → Topic
  | .subscribe t => t
  | .unsubscribe t => t

@[simp] theorem Command.topic_subscribe (t : Topic) : (Command.subscribe t).topic = t := rfl

@[simp] theorem Command.topic_unsubscribe (t : Topic) : (Command.unsubscribe t).topic = t := rfl

/-! ## One topic of the client -/

namespace RedisSubClient

variable {χ : Type} {t : Topic}

/-- The part of a client that belongs to a topic: callbacks, ready event, commands. -/
def topicView (t : Topic) (c : RedisSubClient χ) :
    Option (Dict SubId (Subscription χ)) × Option EventRef × List Command :=
  (c.subscriptionsByTopic.get? t, c.subscriptionReady.get? t, c.pubsub.sent.filter fun cmd => cmd.topic = t)

theorem filter_record {p : Pubsub} {cmd : Command} (h : cmd.topic ≠ t) :
    (p.record cmd).sent.filter (fun cmd => cmd.topic = t) = p.sent.filter fun cmd => cmd.topic = t := by
  unfold Pubsub.record
  dsimp only
  split_ifs
  · rw [List.filter_append, List.filter_singleton]
    simp [h]
  · rfl

theorem frame_send {cmd : Command} (h : cmd.topic ≠ t) : Frame (topicView (χ := χ) t) (send cmd) := by
  intro c
  rw [after, exec_send]
  unfold Same topicView
  dsimp only
  rw [filter_record h]

theorem frame_subscribe {t' : Topic} (h : t' ≠ t) (cb : χ) : Frame (topicView t) (subscribe t' cb) := by
  intro c
  have hcmd : (Command.subscribe t').topic ≠ t := h
  unfold after Same topicView
  cases hb : c.subscriptionsByTopic.get? t' with
  | some b =>
    rw [exec_subscribe_joined hb]
    dsimp only
    rw [Dict.get?_set_ne _ _ h.symm]
  | none =>
    cases hs : c.pubsub.outcome (.subscribe t') with
    | ok u =>
      rw [exec_subscribe_opened hb hs]
      dsimp only
      rw [Dict.get?_set_ne _ _ h.symm, Dict.get?_set_ne _ _ h.symm, filter_record hcmd]
    | error e =>
      rw [exec_subscribe_raised hb hs]
      dsimp only
      rw [Dict.get?_set_ne _ _ h.symm, filter_record hcmd]

/-- The removal of an id that lies under another topic. -/
theorem same_unsubscribe {c : RedisSubClient χ} {i : SubId} (hi : c.topicBySubscriptionId.get? i ≠ some t) :
    Same (topicView t) c ((unsubscribe i).after c) := by
  unfold after Same topicView
  cases ht : c.topicBySubscriptionId.get? i with
  | none => rw [exec_unsubscribe_unknown ht]
  | some t' =>
    have hne : t ≠ t' := fun he => hi (he ▸ ht)
    have hcmd : (Command.unsubscribe t').topic ≠ t := hne.symm
    cases hb : c.subscriptionsByTopic.get? t' with
    | none => simp [unsubscribe, Program.exec_bind, Program.exec_map, Except.map, ht, hb]
    | some b =>
      cases he : (b.erase i).isEmpty with
      | false =>
        rw [exec_unsubscribe_shared ht hb he]
        dsimp only
        rw [Dict.get?_set_ne _ _ hne]
      | true =>
        rw [exec_unsubscribe_last ht hb he]
        dsimp only
        rw [Dict.get?_erase_ne _ hne, Dict.get?_set_ne _ _ hne, Dict.get?_erase_ne _ hne, filter_record hcmd]

theorem frame_unsubscribeTopic {t' : Topic} (h : t' ≠ t) : Frame (topicView (χ := χ) t) (unsubscribeTopic t') := by
  intro c
  refine Within.bind (r := Same (topicView t)) within_get (fun _ => Within.bind (within_modify fun d => ?_) fun _ => ?_) c
  · unfold Same topicView
    rw [Dict.get?_erase_ne _ h.symm]
  · split
    · exact within_pure _
    · split
      · exact within_pure _
      · refine Within.bind (within_modify fun d => ?_) fun _ => Within.bind (frame_send h) fun _ => within_pure _
        unfold Same topicView
        rw [Dict.get?_erase_ne _ h.symm]

/-! ## What every call of the client does -/

/-- Both removals of the client take it along `r`. -/
structure Removals (r : RedisSubClient χ → RedisSubClient χ → Prop) : Prop where
  unsubscribe : ∀ i, Within r (unsubscribe i)
  unsubscribeTopic : ∀ t, Within r (unsubscribeTopic t)

/-- Every call of the client takes it along `r`. -/
structure Calls (r : RedisSubClient χ → RedisSubClient χ → Prop) : Prop extends Removals r where
  uuid4 : Within r uuid4
  subscribe : ∀ t cb, Within r (subscribe t cb)

/-- Registrations and ready events are consistent. -/
def Sane (c : RedisSubClient χ) : Prop := c.WellFormed ∧ c.Distinct

theorem calls_sane : Calls (Kept (Sane (χ := χ))) := by
  refine ⟨⟨fun i c hc => ?_, fun t c hc => ?_⟩, fun c hc => ?_, fun t cb c hc => ?_⟩
  · obtain ⟨cmds, hm⟩ := moved_unsubscribe hc.1 i
    exact ⟨hm.wellFormed, hm.distinct hc.2⟩
  · obtain ⟨cmds, hm⟩ := moved_unsubscribeTopic hc.1 t
    exact ⟨hm.wellFormed, hm.distinct hc.2⟩
  · refine ⟨⟨hc.1.consistent, fun i p hi => ?_, hc.1.filed, hc.1.ready, hc.1.event_lt⟩, hc.2⟩
    exact Nat.lt_succ_of_lt (hc.1.fresh i p hi)
  · obtain ⟨cmds, hm⟩ := moved_subscribe hc.1 t cb
    exact ⟨hm.wellFormed, hm.distinct hc.2⟩

/-- Commands and events are only added. -/
def Grows (c c' : RedisSubClient χ) : Prop := c.pubsub.sent <+: c'.pubsub.sent ∧ c.events <+: c'.events

instance : IsPreorder (RedisSubClient χ) Grows where
  refl _ := ⟨List.prefix_rfl, List.prefix_rfl⟩
  trans _ _ _ h h' := ⟨h.1.trans h'.1, h.2.trans h'.2⟩

theorem grows_send (cmd : Command) : Within (Grows (χ := χ)) (send cmd) := by
  intro c
  rw [after, exec_send]
  refine ⟨?_, List.prefix_rfl⟩
  rw [sent_record]
  exact List.prefix_append _ _

theorem calls_grows : Calls (Grows (χ := χ)) := by
  refine ⟨⟨fun i => ?_, fun t => ?_⟩, fun c => ⟨List.prefix_rfl, List.prefix_rfl⟩, fun t cb c => ?_⟩
  · refine Within.bind within_get fun c => ?_
    split
    · exact within_pure _
    · refine Within.bind (within_modify fun c => ⟨List.prefix_rfl, List.prefix_rfl⟩) fun _ => ?_
      split
      · exact within_pure _
      · refine Within.bind (within_modify fun c => ⟨List.prefix_rfl, List.prefix_rfl⟩) fun _ => ?_
        split
        · exact within_pure _
        · exact Within.bind (within_modify fun c => ⟨List.prefix_rfl, List.prefix_rfl⟩) fun _ =>
            Within.bind (grows_send _) fun _ => within_pure _
  · refine Within.bind within_get fun c => ?_
    refine Within.bind (within_modify fun c => ⟨List.prefix_rfl, List.prefix_rfl⟩) fun _ => ?_
    split
    · exact within_pure _
    · split
      · exact within_pure _
      · exact Within.bind (within_modify fun c => ⟨List.prefix_rfl, List.prefix_rfl⟩) fun _ =>
          Within.bind (grows_send _) fun _ => within_pure _
  · unfold after
    cases hb : c.subscriptionsByTopic.get? t with
    | some b =>
      rw [exec_subscribe_joined hb]
      exact ⟨List.prefix_rfl, List.prefix_rfl⟩
    | none =>
      have hsent : c.pubsub.sent <+: (c.pubsub.record (.subscribe t)).sent := by
        rw [sent_record]
        exact List.prefix_append _ _
      cases hs : c.pubsub.outcome (.subscribe t) with
      | ok u =>
        rw [exec_subscribe_opened hb hs]
        exact ⟨hsent, List.prefix_append _ _⟩
      | error e =>
        rw [exec_subscribe_raised hb hs]
        exact ⟨hsent, List.prefix_append _ _⟩

/-- Only an acknowledgement makes a topic ready. -/
def NoneReady (c c' : RedisSubClient χ) : Prop := ∀ t, c'.Ready t → c.Ready t

instance : IsPreorder (RedisSubClient χ) NoneReady where
  refl _ _ := id
  trans _ _ _ h h' t ht := h t (h' t ht)

/-- A new event is not set. -/
theorem noneReady_newReady {c c' : RedisSubClient χ} {t : Topic}
    (hr : c'.subscriptionReady = c.subscriptionReady.set t c.events.length) (he : c'.events = c.events ++ [false]) :
    NoneReady c c' := by
  rintro t' ⟨e, hev, hset⟩
  rw [hr, Dict.get?_set] at hev
  rw [he] at hset
  split_ifs at hev with ht
  · obtain rfl := Option.some.inj hev
    simp at hset
  · refine ⟨e, hev, ?_⟩
    by_cases hlt : e < c.events.length
    · rwa [List.getElem?_append_left hlt] at hset
    · rw [List.getElem?_append_right (by omega)] at hset
      have := List.mem_of_getElem? hset
      simp at this

/-- Events that are only taken away. -/
theorem noneReady_erase {c c' : RedisSubClient χ} {t : Topic} (he : c'.events = c.events)
    (hr : c'.subscriptionReady = c.subscriptionReady.erase t) : NoneReady c c' := by
  rintro t' ⟨e, hev, hset⟩
  rw [hr, Dict.get?_erase] at hev
  split_ifs at hev
  exact ⟨e, hev, he ▸ hset⟩

theorem noneReady_send (cmd : Command) : Within (NoneReady (χ := χ)) (send cmd) := by
  intro c
  rw [after, exec_send]
  exact fun _ => id

theorem calls_noneReady : Calls (NoneReady (χ := χ)) := by
  refine ⟨⟨fun i => ?_, fun t => ?_⟩, fun c _ => id, fun t cb c => ?_⟩
  · refine Within.bind within_get fun c => ?_
    split
    · exact within_pure _
    · refine Within.bind (within_modify fun c _ => id) fun _ => ?_
      split
      · exact within_pure _
      · refine Within.bind (within_modify fun c _ => id) fun _ => ?_
        split
        · exact within_pure _
        · exact Within.bind (within_modify fun c => noneReady_erase rfl rfl) fun _ =>
            Within.bind (noneReady_send _) fun _ => within_pure _
  · refine Within.bind within_get fun c => ?_
    refine Within.bind (within_modify fun c _ => id) fun _ => ?_
    split
    · exact within_pure _
    · split
      · exact within_pure _
      · exact Within.bind (within_modify fun c => noneReady_erase rfl rfl) fun _ =>
          Within.bind (noneReady_send _) fun _ => within_pure _
  · unfold after
    cases hb : c.subscriptionsByTopic.get? t with
    | some b =>
      rw [exec_subscribe_joined hb]
      exact fun _ => id
    | none =>
      cases hs : c.pubsub.outcome (.subscribe t) with
      | ok u =>
        rw [exec_subscribe_opened hb hs]
        exact noneReady_newReady rfl rfl
      | error e =>
        rw [exec_subscribe_raised hb hs]
        exact noneReady_newReady rfl rfl

end RedisSubClient

namespace JobTracker

/-! ## What every operation of the tracker does to its client -/

section Lifted

variable {r : RedisSubClient ClientCallback → RedisSubClient ClientCallback → Prop}

/-- The relation between two trackers that holds of their clients. -/
def OnClient (r : RedisSubClient ClientCallback → RedisSubClient ClientCallback → Prop) (s s' : JobTracker) : Prop :=
  r s.subClient s'.subClient

variable [IsPreorder (RedisSubClient ClientCallback) r]

instance : IsPreorder JobTracker (OnClient r) where
  refl s := refl s.subClient
  trans s _ _ h h' := IsTrans.trans s.subClient _ _ h h'

theorem lift_modify {g : JobTracker → JobTracker} (h : ∀ s, (g s).subClient = s.subClient) :
    Within (OnClient r) (modify g : Program PyError JobTracker PUnit) := by
  refine within_modify fun s => ?_
  unfold OnClient
  rw [h s]
  exact refl _

omit [IsPreorder (RedisSubClient ClientCallback) r] in
theorem lift_onClient {α : Type} {x : Program PyError (RedisSubClient ClientCallback) α} (hx : Within r x) :
    Within (OnClient r) (onClient x) := within_focus fun s => hx s.subClient

variable (hr : RedisSubClient.Removals r)
include hr

theorem lift_dropTopic (t : Topic) : Within (OnClient r) (dropTopic t) :=
  Within.bind (lift_modify fun _ => rfl) fun _ =>
    Within.bind (lift_onClient (hr.unsubscribeTopic t)) fun _ => within_pure _

theorem lift_discardJob (rt : Runtime) (j : String) : Within (OnClient r) (discardJob rt j) :=
  Within.bind within_get fun _ => Within.bind (lift_modify fun _ => rfl) fun _ =>
    Within.bind (within_forM fun t _ => lift_dropTopic hr t) fun _ => lift_modify fun _ => rfl

theorem lift_applyStatus (rt : Runtime) (m : StatusMessage) (f : FutureRef) :
    Within (OnClient r) (applyStatus rt m f) := by
  intro s
  unfold OnClient
  cases hd : (s.futures f).done with
  | true =>
    rw [after, exec_applyStatus_done rt m f hd]
    exact refl _
  | false =>
    cases ht : (decoded rt m).terminal with
    | false =>
      rw [after, exec_applyStatus_running rt m f hd ht]
      exact refl _
    | true =>
      rw [after, exec_applyStatus_terminal rt m f hd ht]
      exact lift_discardJob hr rt _ (s.accept rt m f)

theorem lift_deliver (rt : Runtime) (m : SlurmMessage) (sub : Subscription ClientCallback) :
    Within (OnClient r) (deliver rt m sub) := by
  unfold deliver dispatchGlobal heartbeatCallback
  split
  · exact within_pure _
  · exact lift_modify fun _ => rfl
  · exact lift_modify fun _ => rfl
  · exact Within.bind (lift_modify fun _ => rfl) fun _ => lift_modify fun _ => rfl
  · split
    · exact Within.bind within_get fun s => within_tryCatch (lift_applyStatus hr rt _ _) fun _ => within_pure _
    · exact within_pure _

theorem lift_validateListener (a : AddArgs) (f : FutureRef) (i : SubId) :
    Within (OnClient r) (validateListener a f i) := by
  refine Within.bind within_get fun s => ?_
  split
  · exact Within.bind (lift_onClient (hr.unsubscribe i)) fun _ => within_throw _
  · unfold registerSubscriptionForJob
    exact Within.bind (lift_modify fun _ => rfl) fun _ => within_pure _

end Lifted

/-! ## One job -/

section OneJob

variable {γ : Type} {g : SubscriptionInfo → γ} {j j' : String} {s s' : JobTracker}

/-- `self._subscriptions_by_topic[topic].get(id)`, if there is the topic. -/
def record? (s : JobTracker) (t : Topic) (i : SubId) : Option SubscriptionInfo :=
  ((s.subscriptionsByTopic.get? t).getD ∅).get? i

/-- Nothing has changed for the job: its topics in the client, the part `g` of its records, its entries. -/
structure Spares (g : SubscriptionInfo → γ) (j : String) (s s' : JobTracker) : Prop where
  client : ∀ e, Same (RedisSubClient.topicView (topicOf j e)) s.subClient s'.subClient
  records : ∀ e i, (s'.record? (topicOf j e) i).map g = (s.record? (topicOf j e) i).map g
  active : s'.activeSubscriptions.get? j = s.activeSubscriptions.get? j
  registry : s'.futureRegistry.get? j = s.futureRegistry.get? j

instance : IsPreorder JobTracker (Spares g j) where
  refl _ := ⟨fun _ => rfl, fun _ _ => rfl, rfl, rfl⟩
  trans _ _ _ h h' := ⟨fun e => IsTrans.trans _ _ _ (h.client e) (h'.client e),
    fun e i => (h'.records e i).trans (h.records e i), h'.active.trans h.active, h'.registry.trans h.registry⟩

/-- The set of topics of each job holds topics of that job. -/
def ActiveOwn (s : JobTracker) : Prop := ∀ j, ∀ t ∈ s.activeTopics j, IsTopicOf j t

/-- The part of a tracker that belongs to a job: its future's entry, its set of topics, its records, and its
topics in the client. -/
def jobView (j : String) (s : JobTracker) : Option FutureRef × Option (List Topic) ×
    (Event → Option (Dict SubId SubscriptionInfo)) ×
    (Event → Option (Dict SubId (Subscription ClientCallback)) × Option EventRef × List Command) :=
  (s.futureRegistry.get? j, s.activeSubscriptions.get? j, fun e => s.subscriptionsByTopic.get? (topicOf j e),
    fun e => s.subClient.topicView (topicOf j e))

theorem same_jobView (hr : s'.futureRegistry.get? j = s.futureRegistry.get? j)
    (ha : s'.activeSubscriptions.get? j = s.activeSubscriptions.get? j)
    (hs : ∀ e, s'.subscriptionsByTopic.get? (topicOf j e) = s.subscriptionsByTopic.get? (topicOf j e))
    (hc : ∀ e, Same (RedisSubClient.topicView (topicOf j e)) s.subClient s'.subClient) : Same (jobView j) s s' := by
  unfold Same jobView
  rw [hr, ha, funext hs, funext hc]

theorem same_onClient {x : RedisSubClient ClientCallback}
    (h : ∀ e, Same (RedisSubClient.topicView (topicOf j e)) s.subClient x) : Same (jobView j) s { s with subClient := x } :=
  same_jobView rfl rfl (fun _ => rfl) h

theorem record?_congr {t : Topic} (h : s'.subscriptionsByTopic.get? t = s.subscriptionsByTopic.get? t) (i : SubId) :
    s'.record? t i = s.record? t i := by
  unfold record?
  rw [h]

theorem record?_indexed (info : SubscriptionInfo) (i : SubId) (t : Topic) (k : SubId) :
    (s.indexed info i).record? t k = if t = info.topic ∧ k = i then some info else s.record? t k := by
  unfold record? indexed
  dsimp only
  rw [Dict.get?_set]
  by_cases ht : t = info.topic
  · subst ht
    simp only [if_true, Option.getD_some, Dict.get?_set, true_and]
  · simp [ht]

/-- What leaves the view of a job alone spares the job. -/
theorem spares_of_same (h : Same (jobView j) s s') : Spares g j s s' := by
  obtain ⟨hreg, hrest⟩ := Prod.mk.inj h
  obtain ⟨hact, hrest⟩ := Prod.mk.inj hrest
  obtain ⟨hsub, hcl⟩ := Prod.mk.inj hrest
  refine ⟨fun e => congrFun hcl e, fun e i => ?_, hact, hreg⟩
  rw [record?_congr (congrFun hsub e)]

theorem frame_dropTopic_job {t : Topic} (ht : ∀ e, t ≠ topicOf j e) : Frame (jobView j) (dropTopic t) := by
  refine Within.bind (within_modify fun s => same_jobView rfl rfl (fun e => ?_) fun _ => rfl) fun _ =>
    Within.bind (within_focus fun s => same_onClient fun e => ?_) fun _ => within_pure _
  · exact Dict.get?_erase_ne _ (ht e).symm
  · exact RedisSubClient.frame_unsubscribeTopic (ht e) s.subClient

/-- The removal of another job. -/
theorem same_discardJob (rt : Runtime) (hj : j' ≠ j) (hs : s.ActiveOwn) :
    Same (jobView j) s ((discardJob rt j').after s) := by
  have hrest : Frame (jobView j) (do
      modify fun s => { s with activeSubscriptions := s.activeSubscriptions.erase j' }
      forM (rt.setOrder (s.activeTopics j')) dropTopic
      modify fun s => { s with futureRegistry := s.futureRegistry.erase j' } : Program PyError JobTracker PUnit) := by
    refine Within.bind (within_modify fun s => same_jobView rfl ?_ (fun _ => rfl) fun _ => rfl) fun _ =>
      Within.bind (within_forM fun t ht => frame_dropTopic_job fun e => ?_) fun _ =>
        within_modify fun s => same_jobView ?_ rfl (fun _ => rfl) fun _ => rfl
    · exact Dict.get?_erase_ne _ hj.symm
    · exact (hs j' t (rt.mem_setOrder.mp ht)).ne hj e
    · exact Dict.get?_erase_ne _ hj.symm
  unfold discardJob
  rw [after, exec_bind_ok (exec_get s)]
  exact hrest s

theorem same_accept (rt : Runtime) (m : StatusMessage) (f : FutureRef) : Same (jobView j) s (s.accept rt m f) := rfl

/-- A status of another job. -/
theorem same_applyStatus (rt : Runtime) (m : StatusMessage) {f : FutureRef} (hj : (s.futures f).jobId ≠ j)
    (hs : s.ActiveOwn) : Same (jobView j) s ((applyStatus rt m f).after s) := by
  unfold after
  cases hd : (s.futures f).done with
  | true =>
    rw [exec_applyStatus_done rt m f hd]
    exact refl s
  | false =>
    cases ht : (decoded rt m).terminal with
    | false =>
      rw [exec_applyStatus_running rt m f hd ht]
      exact same_accept rt m f
    | true =>
      rw [exec_applyStatus_terminal rt m f hd ht]
      exact IsTrans.trans _ _ _ (same_accept rt m f) (same_discardJob rt hj hs)

theorem spares_accept (rt : Runtime) (m : StatusMessage) (f : FutureRef) : Spares g j s (s.accept rt m f) :=
  spares_of_same (same_accept rt m f)

/-- A status of another job. -/
theorem spares_applyStatus (rt : Runtime) (m : StatusMessage) {f : FutureRef} (hj : (s.futures f).jobId ≠ j)
    (hs : s.ActiveOwn) : Spares g j s ((applyStatus rt m f).after s) := spares_of_same (same_applyStatus rt m hj hs)

/-- A status of the job itself spares it unless it ends it. -/
theorem applyStatus_spares_or_done (rt : Runtime) (m : StatusMessage) (f : FutureRef) :
    Spares g j s ((applyStatus rt m f).after s) ∨ (((applyStatus rt m f).after s).futures f).done = true := by
  unfold after
  cases hd : (s.futures f).done with
  | true =>
    rw [exec_applyStatus_done rt m f hd]
    exact Or.inr hd
  | false =>
    cases ht : (decoded rt m).terminal with
    | false =>
      rw [exec_applyStatus_running rt m f hd ht]
      exact Or.inl (spares_accept rt m f)
    | true =>
      right
      have hframe := frame_discardJob rt (s.futures f).jobId (s.accept rt m f)
      have hfut := congrArg (fun x => x.2.1 f) hframe
      rw [exec_applyStatus_terminal rt m f hd ht]
      show (((discardJob rt (s.futures f).jobId).after (s.accept rt m f)).futures f).done = true
      rw [show ((discardJob rt (s.futures f).jobId).after (s.accept rt m f)).futures f =
        (s.accept rt m f).futures f from hfut, accept_done rt m f hd, ht]

/-- Stamps on the records of a topic of another job. -/
theorem same_stamp {t : Topic} {k : SubId → SubscriptionInfo → SubscriptionInfo} (ht : ∀ e, t ≠ topicOf j e) :
    Same (jobView j) s
      { s with subscriptionsByTopic := s.subscriptionsByTopic.modify t fun b => b.mapValues k } := by
  refine same_jobView rfl rfl (fun e => ?_) fun _ => rfl
  rw [Dict.get?_modify, if_neg (ht e).symm]

/-- Stamps on the records of a topic of another job, or on stamps only. -/
theorem spares_stamp {t : Topic} {k : SubId → SubscriptionInfo → SubscriptionInfo}
    (hk : (∀ i info, g (k i info) = g info) ∨ ∀ e, t ≠ topicOf j e) :
    Spares g j s { s with subscriptionsByTopic := s.subscriptionsByTopic.modify t fun b => b.mapValues k } := by
  refine ⟨fun _ => rfl, fun e i => ?_, rfl, rfl⟩
  unfold record?
  dsimp only
  rw [Dict.get?_modify]
  split_ifs with ht
  · subst ht
    rcases hk with hk | hk
    · cases s.subscriptionsByTopic.get? (topicOf j e) with
      | none => rfl
      | some b =>
        simp only [Option.map_some, Option.getD_some, Dict.get?_mapValues, Option.map_map]
        cases b.get? i with
        | none => rfl
        | some info => exact congrArg some (hk i info)
    · exact absurd rfl (hk e)
  · rfl

/-- The removal of a job that the tracker does not know. -/
theorem spares_discardJob_unknown (rt : Runtime) (ha : s.activeSubscriptions.get? j' = none)
    (hr : s.futureRegistry.get? j' = none) : Spares g j s ((discardJob rt j').after s) := by
  have hnone : s.activeTopics j' = [] := by
    unfold activeTopics
    rw [ha]
    rfl
  have hset : rt.setOrder [] = [] := (rt.setOrder_perm []).eq_nil
  unfold discardJob
  rw [after, exec_bind_ok (exec_get s), exec_bind_ok (exec_modify _ _), hnone, hset]
  refine ⟨fun _ => rfl, fun _ _ => rfl, ?_, ?_⟩
  · show (s.activeSubscriptions.erase j').get? j = _
    rw [Dict.erase_of_get?_eq_none ha]
  · show (s.futureRegistry.erase j').get? j = _
    rw [Dict.erase_of_get?_eq_none hr]

/-- A status of a job that the tracker does not know. -/
theorem spares_applyStatus_unknown (rt : Runtime) (m : StatusMessage) {f : FutureRef}
    (ha : s.activeSubscriptions.get? (s.futures f).jobId = none)
    (hr : s.futureRegistry.get? (s.futures f).jobId = none) : Spares g j s ((applyStatus rt m f).after s) := by
  unfold after
  cases hd : (s.futures f).done with
  | true =>
    rw [exec_applyStatus_done rt m f hd]
    exact refl s
  | false =>
    cases ht : (decoded rt m).terminal with
    | false =>
      rw [exec_applyStatus_running rt m f hd ht]
      exact spares_accept rt m f
    | true =>
      rw [exec_applyStatus_terminal rt m f hd ht]
      exact IsTrans.trans _ _ _ (spares_accept rt m f) (spares_discardJob_unknown rt ha hr)

theorem spares_tasks (ts : List Task) : Spares g j s { s with tasks := ts } :=
  ⟨fun _ => rfl, fun _ _ => rfl, rfl, rfl⟩

theorem after_deliver_event {sub : Subscription ClientCallback} {f : FutureRef} (hcb : sub.callback = .event f)
    (rt : Runtime) (m : SlurmMessage) : (deliver rt m sub).after s = s ∨
      ∃ m', (deliver rt m sub).after s = (applyStatus rt m' f).after s := by
  unfold deliver
  rw [hcb]
  cases m with
  | status m =>
    right
    dsimp only
    rw [after, exec_bind_ok (exec_get s), exec_tryCatch]
    refine ⟨{ m with metadata := enrich rt m.metadata (s.futures f).jobId (s.futures f).slurmJobId }, ?_⟩
    rw [after]
    split
    · next h => rw [h]
    · next h => rw [h]; rfl
  | _ => exact Or.inl rfl

/-- A delivery that is no status spares every job up to stamps. -/
theorem spares_deliver (hk : ∀ info : SubscriptionInfo, ∀ x, g { info with lastHeartbeat := x } = g info)
    {sub : Subscription ClientCallback} (hcb : ∀ f, sub.callback ≠ .event f) (rt : Runtime) (m : SlurmMessage) :
    Within (Spares g j) (deliver rt m sub) := by
  unfold deliver
  split
  · exact within_pure _
  · exact within_modify fun s => spares_tasks _
  · exact within_modify fun s => spares_tasks _
  · refine Within.bind (within_modify fun s => spares_stamp (Or.inl fun i info => ?_)) fun _ =>
      within_modify fun s => spares_tasks _
    split_ifs
    · exact hk info _
    · rfl
  · next f h => exact absurd h (hcb f)

end OneJob

/-! ## The sets of topics -/

section Own

theorem own_onClient {α : Type} (x : Program PyError (RedisSubClient ClientCallback) α) :
    Keeps ActiveOwn (onClient x) := within_focus fun _ => id

theorem own_registerSubscriptionForJob {info : SubscriptionInfo} (ht : IsTopicOf info.jobId info.topic) :
    Keeps ActiveOwn (registerSubscriptionForJob info) := by
  unfold registerSubscriptionForJob
  split
  · exact within_throw _
  · refine within_modify fun s hs j t hj => ?_
    unfold activeTopics at hj
    dsimp only at hj
    rw [Dict.get?_set] at hj
    split_ifs at hj with hji
    · subst hji
      unfold addTopic at hj
      split_ifs at hj
      · exact hs _ t hj
      · rcases List.mem_append.mp hj with hj | hj
        · exact hs _ t hj
        · rwa [List.mem_singleton.mp hj]
    · exact hs j t hj

theorem own_discardJob (rt : Runtime) (j : String) : Keeps ActiveOwn (discardJob rt j) := by
  refine Within.bind within_get fun _ => Within.bind (within_modify fun s hs j' t hj => ?_) fun _ =>
    Within.bind (within_forM fun t _ => Within.bind (within_modify fun _ => id) fun _ =>
      Within.bind (own_onClient _) fun _ => within_pure _) fun _ => within_modify fun _ => id
  unfold activeTopics at hj
  dsimp only at hj
  rw [Dict.get?_erase] at hj
  split_ifs at hj
  · simp at hj
  · exact hs j' t hj

theorem own_applyStatus (rt : Runtime) (m : StatusMessage) (f : FutureRef) : Keeps ActiveOwn (applyStatus rt m f) := by
  intro s hs
  unfold after
  cases hd : (s.futures f).done with
  | true =>
    rw [exec_applyStatus_done rt m f hd]
    exact hs
  | false =>
    cases ht : (decoded rt m).terminal with
    | false =>
      rw [exec_applyStatus_running rt m f hd ht]
      exact hs
    | true =>
      rw [exec_applyStatus_terminal rt m f hd ht]
      exact own_discardJob rt _ (s.accept rt m f) hs

theorem own_deliver (rt : Runtime) (m : SlurmMessage) (sub : Subscription ClientCallback) :
    Keeps ActiveOwn (deliver rt m sub) := by
  unfold deliver
  split
  · exact within_pure _
  · exact within_modify fun _ => id
  · exact within_modify fun _ => id
  · exact Within.bind (within_modify fun _ => id) fun _ => within_modify fun _ => id
  · split
    · exact Within.bind within_get fun s => within_tryCatch (own_applyStatus rt _ _) fun _ => within_pure _
    · exact within_pure _

end Own

end JobTracker

end SlurmManager
