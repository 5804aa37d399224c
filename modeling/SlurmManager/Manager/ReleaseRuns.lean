import SlurmManager.Manager.ReleaseStages
import SlurmManager.Tracking.Isolation

/-!
# ReleaseRuns — any number of `submit_job` calls

The sections of a call concern its own job; the listener and the server concern no call's maps, except
that a terminal status removes the job of its future, which is then done.

* `Carries`: what every section does to the tracker, whatever the job: the client stays in order, and
  nothing that was sent or drawn is taken back.
* `Gate.Inv`: the invariant, with an `Upright` for each call whose future is not done.
* `Gate.release_gating`: at the release the server has the three channels, and every callback is
  registered.
-/

namespace SlurmManager

open Program JobTracker

/-! ## What every section does to the tracker -/

namespace RedisSubClient

variable {χ : Type} {c c' : RedisSubClient χ}

/-- No id that was drawn comes to lie under another topic. -/
def KeepsTopics (c c' : RedisSubClient χ) : Prop := c.nextUuid ≤ c'.nextUuid ∧
  ∀ (i : ℕ) t, i < c.nextUuid → c'.topicBySubscriptionId.get? i = some t → c.topicBySubscriptionId.get? i = some t

instance : IsPreorder (RedisSubClient χ) KeepsTopics where
  refl _ := ⟨le_rfl, fun _ _ _ => id⟩
  trans _ _ _ h h' := ⟨h.1.trans h'.1, fun i t hi ht => h.2 i t hi (h'.2 i t (hi.trans_le h.1) ht)⟩

theorem keepsTopics_send (cmd : Command) : Within (KeepsTopics (χ := χ)) (send cmd) := by
  intro c
  rw [after, exec_send]
  exact ⟨le_rfl, fun _ _ _ => id⟩

theorem calls_keepsTopics : Calls (KeepsTopics (χ := χ)) := by
  refine ⟨⟨fun i => ?_, fun t => ?_⟩, fun c => ⟨Nat.le_succ _, fun _ _ _ => id⟩, fun t cb c => ?_⟩
  · refine Within.bind within_get fun c => ?_
    split
    · exact within_pure _
    · refine Within.bind (within_modify fun c => ⟨le_rfl, fun k t _ hk => ?_⟩) fun _ => ?_
      · rw [Dict.get?_erase] at hk
        split_ifs at hk
        exact hk
      · split
        · exact within_pure _
        · refine Within.bind (within_modify fun c => ⟨le_rfl, fun _ _ _ => id⟩) fun _ => ?_
          split
          · exact within_pure _
          · exact Within.bind (within_modify fun c => ⟨le_rfl, fun _ _ _ => id⟩) fun _ =>
              Within.bind (keepsTopics_send _) fun _ => within_pure _
  · refine Within.bind within_get fun c => ?_
    refine Within.bind (within_modify fun c => ⟨le_rfl, fun _ _ _ => id⟩) fun _ => ?_
    split
    · exact within_pure _
    · split
      · exact within_pure _
      · refine Within.bind (within_modify fun c => ⟨le_rfl, fun k t' _ hk => ?_⟩) fun _ =>
          Within.bind (keepsTopics_send _) fun _ => within_pure _
        rw [Dict.get?_eraseAll] at hk
        split_ifs at hk
        exact hk
  · have hset : ∀ (k : ℕ) t', k < c.nextUuid → (c.topicBySubscriptionId.set c.nextUuid t).get? k = some t' →
        c.topicBySubscriptionId.get? k = some t' := by
      intro k t' hk hget
      have hne : k ≠ c.nextUuid := Nat.ne_of_lt hk
      rwa [Dict.get?_set_ne _ _ hne] at hget
    unfold after
    cases hb : c.subscriptionsByTopic.get? t with
    | some b =>
      rw [exec_subscribe_joined hb]
      exact ⟨Nat.le_succ _, hset⟩
    | none =>
      cases hs : c.pubsub.outcome (.subscribe t) with
      | ok u =>
        rw [exec_subscribe_opened hb hs]
        exact ⟨Nat.le_succ _, hset⟩
      | error e =>
        rw [exec_subscribe_raised hb hs]
        exact ⟨Nat.le_succ _, fun _ _ _ => id⟩

/-- A subscription that returns has drawn the next id for its topic. -/
theorem subscribe_ok {t : Topic} {cb : χ} {i : SubId} {d : RedisSubClient χ}
    (he : (subscribe t cb).exec c = (.ok i, d)) :
    i < d.nextUuid ∧ ∀ t', d.topicBySubscriptionId.get? i = some t' → t' = t := by
  have hset : ∀ t', (c.topicBySubscriptionId.set c.nextUuid t).get? c.nextUuid = some t' → t' = t := by
    intro t' hget
    rw [Dict.get?_set_self] at hget
    exact (Option.some.inj hget).symm
  cases hb : c.subscriptionsByTopic.get? t with
  | some b =>
    rw [exec_subscribe_joined hb] at he
    obtain ⟨hi, rfl⟩ := Prod.mk.inj he
    obtain rfl := Except.ok.inj hi
    exact ⟨Nat.lt_succ_self _, hset⟩
  | none =>
    cases hs : c.pubsub.outcome (.subscribe t) with
    | ok u =>
      rw [exec_subscribe_opened hb hs] at he
      obtain ⟨hi, rfl⟩ := Prod.mk.inj he
      obtain rfl := Except.ok.inj hi
      exact ⟨Nat.lt_succ_self _, hset⟩
    | error e =>
      rw [exec_subscribe_raised hb hs] at he
      exact absurd (Prod.mk.inj he).1 (by simp)

/-! ## Acknowledgements -/

/-- An acknowledgement touches the events only. -/
theorem acknowledged_eq (cmd : Command) (c : RedisSubClient χ) :
    (Link.acknowledged cmd c).subscriptionsByTopic = c.subscriptionsByTopic ∧
      (Link.acknowledged cmd c).topicBySubscriptionId = c.topicBySubscriptionId ∧
      (Link.acknowledged cmd c).subscriptionReady = c.subscriptionReady ∧
      (Link.acknowledged cmd c).pubsub = c.pubsub ∧ (Link.acknowledged cmd c).nextUuid = c.nextUuid := by
  cases cmd with
  | subscribe t =>
    obtain ⟨h₁, h₂, h₃, h₄, h₅, -⟩ := acknowledge_eq t c
    exact ⟨h₁, h₂, h₃, h₄, h₅⟩
  | unsubscribe t => exact ⟨rfl, rfl, rfl, rfl, rfl⟩

theorem events_acknowledged (cmd : Command) {e : ℕ} (he : c.events[e]? = some true) :
    (Link.acknowledged cmd c).events[e]? = some true := by
  cases cmd with
  | unsubscribe t => exact he
  | subscribe t =>
    show (acknowledge t c).events[e]? = some true
    unfold acknowledge
    cases c.subscriptionReady.get? t with
    | none => exact he
    | some e₀ =>
      show (c.events.set e₀ true)[e]? = some true
      rw [List.getElem?_set]
      split_ifs with h hlt
      · rfl
      · obtain ⟨hlt', -⟩ := List.getElem?_eq_some_iff.mp he
        exact absurd (h ▸ hlt') hlt
      · exact he

/-- The acknowledgement of a command that the server has taken. -/
theorem Prompt.acknowledged {n : ℕ} (h : Prompt n c) {cmd : Command} (hcmd : cmd ∈ c.pubsub.sent.take n) :
    Prompt n (Link.acknowledged cmd c) := by
  obtain ⟨-, -, hready, hpub, -⟩ := acknowledged_eq cmd c
  have hdistinct : (Link.acknowledged cmd c).Distinct := by
    intro t₁ t₂ e h₁ h₂
    rw [hready] at h₁ h₂
    exact h.sane.2 t₁ t₂ e h₁ h₂
  refine ⟨⟨?_, hdistinct⟩, by rw [hpub]; exact h.bound, fun t ht => ?_⟩
  · cases cmd with
    | subscribe t => exact h.sane.1.acknowledge t
    | unsubscribe t => exact h.sane.1
  · rw [hpub]
    cases cmd with
    | unsubscribe t' => exact h.ready t ht
    | subscribe t' =>
      rcases Link.ready_acknowledge h.sane.2 ht with rfl | ht
      · exact hcmd
      · exact h.ready t ht

/-- What every call of the client does, next to a server that has taken `n` commands. -/
structure Carried (n : ℕ) (c c' : RedisSubClient χ) : Prop where
  prompt : Kept (Prompt n) c c'
  grows : Grows c c'
  topics : KeepsTopics c c'

instance (n : ℕ) : IsPreorder (RedisSubClient χ) (Carried n) where
  refl c := ⟨id, refl c, refl c⟩
  trans _ _ _ h h' := ⟨fun hc => h'.prompt (h.prompt hc), IsTrans.trans _ _ _ h.grows h'.grows,
    IsTrans.trans _ _ _ h.topics h'.topics⟩

theorem calls_carried (n : ℕ) : Calls (Carried (χ := χ) n) := by
  have hp := calls_prompt (χ := χ) n
  have hg := calls_grows (χ := χ)
  have ht := calls_keepsTopics (χ := χ)
  exact ⟨⟨fun i c => ⟨hp.unsubscribe i c, hg.unsubscribe i c, ht.unsubscribe i c⟩,
      fun t c => ⟨hp.unsubscribeTopic t c, hg.unsubscribeTopic t c, ht.unsubscribeTopic t c⟩⟩,
    fun c => ⟨hp.uuid4 c, hg.uuid4 c, ht.uuid4 c⟩,
    fun t cb c => ⟨hp.subscribe t cb c, hg.subscribe t cb c, ht.subscribe t cb c⟩⟩

end RedisSubClient

namespace JobTracker

variable {s t u : JobTracker} {n : ℕ} {x : Submitted} {j : String}

/-- What every section does to the tracker. -/
structure Carries (n : ℕ) (s t : JobTracker) : Prop where
  client : s.subClient.Carried n t.subClient
  own : s.ActiveOwn → t.ActiveOwn
  jobIds : ∀ f, (t.futures f).jobId = (s.futures f).jobId

instance (n : ℕ) : IsPreorder JobTracker (Carries n) where
  refl s := ⟨refl s.subClient, id, fun _ => rfl⟩
  trans _ _ _ h h' := ⟨IsTrans.trans _ _ _ h.client h'.client, fun ha => h'.own (h.own ha),
    fun f => (h'.jobIds f).trans (h.jobIds f)⟩

/-- What a section of a call does to the tracker: nothing to other jobs, and no other future ends. -/
structure Sections (n : ℕ) (x : Submitted) (s t : JobTracker) : Prop extends Carries n s t where
  others : ∀ j ≠ (s.futures x.future).jobId, Spares SubscriptionInfo.unstamped j s t
  futures : ∀ f ≠ x.future, (t.futures f).done = (s.futures f).done

theorem carries_applyStatus (rt : Runtime) (m : StatusMessage) (f : FutureRef) :
    Within (Carries n) (applyStatus rt m f) := fun s =>
  ⟨lift_applyStatus (RedisSubClient.calls_carried n).toRemovals rt m f s, own_applyStatus rt m f s,
    (keepsIds_applyStatus rt m f s).jobIds⟩

theorem carries_deliver (rt : Runtime) (m : SlurmMessage) (sub : Subscription ClientCallback) :
    Within (Carries n) (deliver rt m sub) := fun s =>
  ⟨lift_deliver (RedisSubClient.calls_carried n).toRemovals rt m sub s, own_deliver rt m sub s,
    (keepsIds_deliver rt m sub s).jobIds⟩

/-- A section that leaves the futures alone. -/
theorem sections_of_frame {α : Type} {y : Program PyError JobTracker α} (hy : Frame lifecycle y)
    (hc : s.subClient.Carried n (y.after s).subClient) (ho : s.ActiveOwn → (y.after s).ActiveOwn)
    (hj : ∀ j ≠ (s.futures x.future).jobId, Spares SubscriptionInfo.unstamped j s (y.after s)) :
    Sections n x s (y.after s) := by
  have hfut : (y.after s).futures = s.futures := congrArg (fun v => v.2.2.1) (hy s)
  exact ⟨⟨hc, ho, fun f => by rw [hfut]⟩, hj, fun f _ => by rw [hfut]⟩

/-! ## The sections of a call -/

theorem sections_publish : Sections n x s (publishFuture x.future s) :=
  ⟨⟨refl _, id, fun _ => rfl⟩, fun _ hj => ⟨fun _ => rfl, fun _ _ => rfl, rfl, Dict.get?_set_ne _ _ hj⟩, fun _ _ => rfl⟩

theorem sections_subscribe (t : Topic) (cb : ClientCallback) (ht : IsTopicOf (s.futures x.future).jobId t) :
    Sections n x s ((onClient (RedisSubClient.subscribe t cb)).after s) := by
  refine sections_of_frame (frame_onClient _) ((RedisSubClient.calls_carried n).subscribe t cb s.subClient)
    (own_onClient _ s) fun j hj => spares_of_same (same_onClient fun e => ?_)
  exact RedisSubClient.frame_subscribe (ht.ne hj.symm e) cb s.subClient

theorem sections_subscribeCallback (e : Event) : Sections n x s ((subscribeCallback e x.future).after s) := by
  rw [after, Config.exec_subscribeCallback]
  exact sections_subscribe _ _ (isTopicOf_topicOf _ e)

theorem sections_subscribeListener {a : AddArgs} (ha : a.jobId = (s.futures x.future).jobId) (g : FutureRef) :
    Sections n x s ((subscribeListener a g).after s) := by
  unfold subscribeListener
  rw [after, exec_bind_ok (exec_get s)]
  exact sections_subscribe _ _ (ha ▸ isTopicOf_topicOf a.jobId a.key)

/-- The indexing of a subscription. -/
theorem sections_indexed {info : SubscriptionInfo} {i : SubId} (hi : info.callbackId = some i)
    (hj : info.jobId = (s.futures x.future).jobId) (ht : IsTopicOf info.jobId info.topic) :
    Sections n x s (s.indexed info i) := by
  have he : s.indexed info i = (registerSubscriptionForJob info).after s := by
    rw [after, exec_registerSubscriptionForJob hi]
  rw [he]
  refine sections_of_frame (frame_registerSubscriptionForJob info) ?_ (own_registerSubscriptionForJob ht s)
    fun j hne => ?_
  · rw [← he]
    exact refl _
  · rw [← he]
    exact spares_of_same (same_indexed i (hj ▸ hne.symm) ht)

theorem sections_indexCallback (rt : Runtime) (e : Event) (i : SubId) :
    Sections n x s ((indexCallback rt e x.future i).after s) := by
  rw [after, Config.exec_indexCallback]
  refine sections_indexed (Config.internalInfo_callbackId _ _ _ _) (Config.internalInfo_jobId _ _ _ _) ?_
  rw [Config.internalInfo_topic, Config.internalInfo_jobId]
  exact isTopicOf_topicOf _ e

/-- The validation of a subscription: the id lies under the topic that it was drawn for, if anywhere. -/
theorem sections_validateListener {a : AddArgs} (ha : a.jobId = (s.futures x.future).jobId) (g : FutureRef)
    {i : SubId} (hi : ∀ t, s.subClient.topicBySubscriptionId.get? i = some t → t = a.topic) :
    Sections n x s ((validateListener a g i).after s) := by
  have hto : IsTopicOf (s.futures x.future).jobId a.topic := ha ▸ isTopicOf_topicOf a.jobId a.key
  unfold validateListener
  rw [after, exec_bind_ok (exec_get s), exec_ite]
  split_ifs
  · rw [exec_bind]
    have hun : Sections n x s ((onClient (RedisSubClient.unsubscribe i)).after s) := by
      refine sections_of_frame (frame_onClient _) ((RedisSubClient.calls_carried n).unsubscribe i s.subClient)
        (own_onClient _ s) fun j hj => spares_of_same (same_onClient fun e => ?_)
      exact RedisSubClient.same_unsubscribe fun ht => hto.ne hj.symm e (hi _ ht).symm
    rw [after] at hun
    rcases he : (onClient (RedisSubClient.unsubscribe i)).exec s with ⟨r, u⟩
    rw [he] at hun
    cases r <;> exact hun
  · rw [exec_bind_ok (exec_registerSubscriptionForJob rfl)]
    exact sections_indexed rfl ha (isTopicOf_topicOf a.jobId a.key)

theorem sections_same {α : Type} {y : Program PyError JobTracker α} (hy : y.after s = s) :
    Sections n x s (y.after s) := by
  rw [hy]
  exact ⟨refl _, fun _ _ => refl _, fun _ _ => rfl⟩

theorem after_checkActive (a : AddArgs) (s : JobTracker) : (checkActive a).after s = s := by
  rw [after, Config.exec_checkActive]
  split
  · rfl
  · split_ifs <;> rfl

theorem after_readyEvents (topics : List Topic) (s : JobTracker) :
    (onClient (RedisSubClient.readyEvents topics)).after s = s := by
  rw [after, onClient, exec_focus]
  exact congrArg (fun c => { s with subClient := c }) (RedisSubClient.frame_readyEvents topics s.subClient)

/-- A new value of a future that is not used otherwise, or a note in it. -/
theorem carries_setFuture {f : FutureRef} {v : JobFuture} (hv : v.jobId = (s.futures f).jobId) :
    Carries n s (setFuture f v s) := by
  refine ⟨refl _, id, fun g => ?_⟩
  show (Function.update s.futures f v g).jobId = _
  by_cases hg : g = f
  · rw [hg, Function.update_self, hv]
  · rw [Function.update_of_ne hg]

theorem sections_setFuture {v : JobFuture} (hv : v.jobId = (s.futures x.future).jobId) :
    Sections n x s (setFuture x.future v s) := by
  refine ⟨carries_setFuture hv, fun _ _ => ⟨fun _ => rfl, fun _ _ => rfl, rfl, rfl⟩, fun f hf => ?_⟩
  show (Function.update s.futures x.future v f).done = _
  rw [Function.update_of_ne hf]

theorem futures_applyStatus_ne (rt : Runtime) (m : StatusMessage) {f g : FutureRef} (hg : g ≠ f) :
    ((applyStatus rt m f).after s).futures g = s.futures g := by
  unfold after
  cases hd : (s.futures f).done with
  | true => rw [exec_applyStatus_done rt m f hd]
  | false =>
    cases ht : (decoded rt m).terminal with
    | false => rw [exec_applyStatus_running rt m f hd ht, accept_futures_ne rt m f hg]
    | true =>
      rw [exec_applyStatus_terminal rt m f hd ht]
      have hframe := congrArg (fun v => v.2.1 g) (frame_discardJob rt (s.futures f).jobId (s.accept rt m f))
      exact Eq.trans hframe (accept_futures_ne rt m f hg)

theorem sections_applyStatus (rt : Runtime) (m : StatusMessage) (hs : s.ActiveOwn) :
    Sections n x s ((applyStatus rt m x.future).after s) :=
  ⟨carries_applyStatus rt m x.future s, fun _ hj => spares_applyStatus rt m hj.symm hs,
    fun f hf => by rw [futures_applyStatus_ne rt m hf]⟩

/-! ## What a delivery does to the jobs -/

/-- The tracker has nothing of the job. -/
structure Unknown (j : String) (s : JobTracker) : Prop where
  client : ∀ e, s.subClient.Virgin (topicOf j e)
  active : s.activeSubscriptions.get? j = none
  registry : s.futureRegistry.get? j = none

theorem Unknown.spared (h : Unknown j s) (hs : Spares SubscriptionInfo.unstamped j s t) : Unknown j t :=
  ⟨fun e => (h.client e).congr (hs.client e), hs.active.trans h.active, hs.registry.trans h.registry⟩

/-- The job of the future is spared, unless the future is done then. -/
def Passes (f : FutureRef) (s t : JobTracker) : Prop := (t.futures f).done = false →
  (s.futures f).done = false ∧ Spares SubscriptionInfo.unstamped (s.futures f).jobId s t

theorem passes_applyStatus (rt : Runtime) (m : StatusMessage) {f g : FutureRef} (hs : s.ActiveOwn)
    (hinj : ∀ f g, (s.futures f).jobId = (s.futures g).jobId → f = g) : Passes g s ((applyStatus rt m f).after s) := by
  intro hd
  by_cases hg : g = f
  · subst hg
    have hold : (s.futures g).done = false := by
      by_contra hdone
      rw [after, exec_applyStatus_done rt m g (by simpa using hdone)] at hd
      exact hdone hd
    refine ⟨hold, (applyStatus_spares_or_done rt m g).resolve_right ?_⟩
    rw [hd]
    simp
  · rw [futures_applyStatus_ne rt m hg] at hd
    exact ⟨hd, spares_applyStatus rt m (fun hj => hg (hinj _ _ hj).symm) hs⟩

theorem spares_applyStatus_of_unknown (rt : Runtime) (m : StatusMessage) {f g : FutureRef} (hs : s.ActiveOwn)
    (hg : Unknown (s.futures g).jobId s) :
    Spares SubscriptionInfo.unstamped (s.futures g).jobId s ((applyStatus rt m f).after s) := by
  by_cases hj : (s.futures f).jobId = (s.futures g).jobId
  · exact spares_applyStatus_unknown rt m (hj ▸ hg.active) (hj ▸ hg.registry)
  · exact spares_applyStatus rt m hj hs

/-- A delivery changes nothing, applies a status, or spares every job. -/
theorem after_deliver (rt : Runtime) (m : SlurmMessage) (sub : Subscription ClientCallback) (s : JobTracker) :
    (∃ m' f, (deliver rt m sub).after s = (applyStatus rt m' f).after s) ∨
      ((deliver rt m sub).after s).futures = s.futures ∧
        ∀ j, Spares SubscriptionInfo.unstamped j s ((deliver rt m sub).after s) := by
  by_cases hev : ∃ f, sub.callback = .event f
  · obtain ⟨f, hf⟩ := hev
    rcases after_deliver_event (s := s) hf rt m with he | ⟨m', he⟩
    · rw [he]
      exact Or.inr ⟨rfl, fun _ => refl s⟩
    · exact Or.inl ⟨m', f, he⟩
  · have hno : ∀ f, sub.callback ≠ .event f := fun f hf => hev ⟨f, hf⟩
    refine Or.inr ⟨?_, fun j => spares_deliver (fun _ _ => rfl) hno rt m s⟩
    exact congrArg (fun v => v.2.2.1) (frame_deliver rt (fun f m' hf => absurd hf (hno f)) s)

theorem passes_deliver (rt : Runtime) (m : SlurmMessage) (sub : Subscription ClientCallback) {g : FutureRef}
    (hs : s.ActiveOwn) (hinj : ∀ f g, (s.futures f).jobId = (s.futures g).jobId → f = g) :
    Passes g s ((deliver rt m sub).after s) := by
  rcases after_deliver rt m sub s with ⟨m', f, he⟩ | ⟨hf, hsp⟩
  · rw [he]
    exact passes_applyStatus rt m' hs hinj
  · intro hd
    rw [hf] at hd
    exact ⟨hd, hsp _⟩

theorem spares_deliver_of_unknown (rt : Runtime) (m : SlurmMessage) (sub : Subscription ClientCallback)
    {g : FutureRef} (hs : s.ActiveOwn) (hg : Unknown (s.futures g).jobId s) :
    Spares SubscriptionInfo.unstamped (s.futures g).jobId s ((deliver rt m sub).after s) := by
  rcases after_deliver rt m sub s with ⟨m', f, he⟩ | ⟨-, hsp⟩
  · rw [he]
    exact spares_applyStatus_of_unknown rt m' hs hg
  · exact hsp _

end JobTracker

/-! ## The invariant -/

namespace Gate

variable {ρ : Type} {rest : RestClient ρ} {jobOf : FutureRef → String} {s s' : Gate ρ}

/-- The client and the server are in step: what the listener has yet to handle is what the server has taken. -/
structure Wired (s : Gate ρ) : Prop where
  prompt : s.client.Prompt s.wire.processed
  answers : ∀ cmd ∈ s.wire.answers, cmd ∈ s.sent.take s.wire.processed
  held : ∀ cmd, s.wire.held = some cmd → cmd ∈ s.sent.take s.wire.processed

/-- The submission that a call has made. -/
structure Asked (x : Submitted) (requests : List RestCall) : Prop where
  job : x.job = jobDescription x.args
  callbacks : eventCallbacks x.args.callbacks = some x.callbacks
  asked : ∃ script, .submit script x.job ∈ requests

/-- What holds in every state. -/
structure Inv (jobOf : FutureRef → String) (s : Gate ρ) : Prop where
  wired : s.Wired
  own : s.tracker.ActiveOwn
  jobIds : ∀ f, (s.tracker.futures f).jobId = jobOf f
  unused : ∀ f ∉ s.used, Unknown (jobOf f) s.tracker
  used : ∀ n x, (s.stages n).owner = some x → x.future ∈ s.used
  asked : ∀ n x, (s.stages n).owner = some x → Asked x s.submitter.requests
  apart : ∀ n m x y, (s.stages n).owner = some x → (s.stages m).owner = some y → x.future = y.future → n = m
  drawn : ∀ n x g c i todo, s.stages n = .validating x g c i todo → i < s.client.nextUuid ∧
    ∀ t, s.client.topicBySubscriptionId.get? i = some t → t = topicOf (jobOf x.future) c.1
  upright : ∀ n x, (s.stages n).upright = some x → (s.tracker.futures x.future).done = false →
    s.tracker.Upright (jobOf x.future) x (s.stages n)

theorem owner_of_upright {stage : Stage} {x : Submitted} (h : stage.upright = some x) : stage.owner = some x := by
  cases stage <;> first | exact h | simp [Stage.upright, Stage.underTry] at h

theorem mem_take_of_prefix {α : Type} {l l' : List α} (h : l <+: l') {n : ℕ} (hn : n ≤ l.length) {a : α}
    (ha : a ∈ l.take n) : a ∈ l'.take n := by
  obtain ⟨r, rfl⟩ := h
  rwa [List.take_append_of_le_length hn]

theorem getElem?_of_prefix {α : Type} {l l' : List α} (h : l <+: l') {n : ℕ} {a : α} (ha : l[n]? = some a) :
    l'[n]? = some a := by
  obtain ⟨r, rfl⟩ := h
  rw [List.getElem?_append_left (List.getElem?_eq_some_iff.mp ha).1, ha]

theorem Wired.carried (h : s.Wired) (hw : s'.wire = s.wire) (hc : s.client.Carried s.wire.processed s'.client) :
    s'.Wired := by
  have hmem : ∀ cmd ∈ s.sent.take s.wire.processed, cmd ∈ s'.sent.take s.wire.processed :=
    fun cmd hcmd => mem_take_of_prefix hc.grows.1 h.prompt.bound hcmd
  refine ⟨?_, fun cmd hcmd => ?_, fun cmd hcmd => ?_⟩
  · rw [hw]
    exact hc.prompt h.prompt
  · rw [hw] at hcmd ⊢
    exact hmem cmd (h.answers cmd hcmd)
  · rw [hw] at hcmd ⊢
    exact hmem cmd (h.held cmd hcmd)

section Steps

variable (h : s.Inv jobOf) (hinj : ∀ f g, jobOf f = jobOf g → f = g)
include h hinj

/-- A step of one call, on its own job. -/
theorem Inv.moved {n : ℕ} {x : Submitted} {stage : Stage} (hx : (s.stages n).owner = some x)
    (hstages : s'.stages = Function.update s.stages n stage) (hwire : s'.wire = s.wire) (hused : s'.used = s.used)
    (hreq : ∀ call ∈ s.submitter.requests, call ∈ s'.submitter.requests)
    (ht : Sections s.wire.processed x s.tracker s'.tracker) (ho : stage.owner = none ∨ stage.owner = some x)
    (hdrawn : ∀ y g c i todo, stage = .validating y g c i todo → i < s'.client.nextUuid ∧
      ∀ t, s'.client.topicBySubscriptionId.get? i = some t → t = topicOf (jobOf y.future) c.1)
    (hup : stage.upright = some x → (s'.tracker.futures x.future).done = false →
      s'.tracker.Upright (jobOf x.future) x stage) : s'.Inv jobOf := by
  have hself : s'.stages n = stage := by rw [hstages, Function.update_self]
  have hother : ∀ m ≠ n, s'.stages m = s.stages m := fun m hm => by rw [hstages, Function.update_of_ne hm]
  have howner : ∀ m y, (s'.stages m).owner = some y → (s.stages m).owner = some y := by
    intro m y hy
    by_cases hm : m = n
    · subst hm
      rw [hself] at hy
      rw [hx]
      rcases ho with ho | ho
      · rw [ho] at hy
        contradiction
      · rw [ho] at hy
        exact hy
    · rwa [hother m hm] at hy
  have hspares : ∀ f ≠ x.future, Spares SubscriptionInfo.unstamped (jobOf f) s.tracker s'.tracker := by
    intro f hf
    refine ht.others _ fun hj => hf (hinj _ _ ?_)
    rw [hj, h.jobIds]
  refine ⟨h.wired.carried hwire ht.client, ht.own h.own, fun f => (ht.jobIds f).trans (h.jobIds f),
    fun f hf => ?_, fun m y hy => ?_, fun m y hy => ?_, fun m k y z hy hz => ?_, fun m y g c i todo hm => ?_,
    fun m y hy hd => ?_⟩
  · rw [hused] at hf
    exact (h.unused f hf).spared (hspares f fun hfx => hf (hfx ▸ h.used n x hx))
  · rw [hused]
    exact h.used m y (howner m y hy)
  · have ha := h.asked m y (howner m y hy)
    exact ⟨ha.job, ha.callbacks, ha.asked.imp fun script hs => hreq _ hs⟩
  · exact h.apart m k y z (howner m y hy) (howner k z hz)
  · by_cases hmn : m = n
    · subst hmn
      exact hdrawn y g c i todo (hself ▸ hm)
    · rw [hother m hmn] at hm
      obtain ⟨hlt, htop⟩ := h.drawn m y g c i todo hm
      have hk := ht.client.topics
      exact ⟨Nat.lt_of_lt_of_le hlt hk.1, fun t hget => htop t (hk.2 i t hlt hget)⟩
  · by_cases hmn : m = n
    · subst hmn
      rw [hself] at hy ⊢
      have hyx : y = x := by
        have hoy := owner_of_upright hy
        rcases ho with ho | ho
        · rw [ho] at hoy
          contradiction
        · exact Option.some.inj (hoy.symm.trans ho)
      subst hyx
      exact hup hy hd
    · rw [hother m hmn] at hy ⊢
      have hne : y.future ≠ x.future := fun he => hmn (h.apart m n y x (owner_of_upright hy) hx he)
      rw [ht.futures _ hne] at hd
      exact (h.upright m y hy hd).spared (hspares _ hne) fun e he => getElem?_of_prefix ht.client.grows.2 he

omit hinj in
/-- A step of the listener or of the server. -/
theorem Inv.beside (hstages : s'.stages = s.stages) (hused : s'.used = s.used)
    (hreq : s'.submitter.requests = s.submitter.requests) (hwired : s'.Wired) (hown : s'.tracker.ActiveOwn)
    (hids : ∀ f, (s'.tracker.futures f).jobId = (s.tracker.futures f).jobId)
    (htopics : s.client.KeepsTopics s'.client)
    (hevents : ∀ e : ℕ, s.client.events[e]? = some true → s'.client.events[e]? = some true)
    (hunused : ∀ f ∉ s.used, Spares SubscriptionInfo.unstamped (jobOf f) s.tracker s'.tracker)
    (hpass : ∀ f, Passes f s.tracker s'.tracker) : s'.Inv jobOf := by
  refine ⟨hwired, hown, fun f => (hids f).trans (h.jobIds f), fun f hf => ?_, ?_, ?_, ?_,
    fun m y g c i todo hm => ?_, fun m y hy hd => ?_⟩
  · rw [hused] at hf
    exact (h.unused f hf).spared (hunused f hf)
  · rw [hstages, hused]
    exact h.used
  · rw [hstages, hreq]
    exact h.asked
  · rw [hstages]
    exact h.apart
  · rw [hstages] at hm
    obtain ⟨hlt, htop⟩ := h.drawn m y g c i todo hm
    exact ⟨Nat.lt_of_lt_of_le hlt htopics.1, fun t hget => htop t (htopics.2 i t hlt hget)⟩
  · rw [hstages] at hy ⊢
    obtain ⟨hold, hsp⟩ := hpass _ hd
    rw [h.jobIds] at hsp
    exact (h.upright m y hy hold).spared hsp hevents

/-- A section of a call on the tracker. -/
theorem Inv.enact {n : ℕ} {x : Submitted} {stage : Stage} {α : Type} {y : Program PyError JobTracker α}
    {next : α → Stage} (hst : s.stages n = stage) (hx : stage.upright = some x)
    (hsec : Sections s.wire.processed x s.tracker (y.after s.tracker))
    (hdone : ((y.after s.tracker).futures x.future).done = (s.tracker.futures x.future).done)
    (hnext : ∀ a t, y.exec s.tracker = (.ok a, t) → (next a).owner = some x ∧
      (∀ z g c i todo, next a = .validating z g c i todo → i < t.subClient.nextUuid ∧
        ∀ t', t.subClient.topicBySubscriptionId.get? i = some t' → t' = topicOf (jobOf z.future) c.1) ∧
      ((s.tracker.futures x.future).done = false → s.tracker.Upright (jobOf x.future) x stage →
        t.Upright (jobOf x.future) x (next a))) : (s.enact n x y next).Inv jobOf := by
  have hup := h.upright n
  rw [hst] at hup
  have hown : (s.stages n).owner = some x := by
    rw [hst]
    exact owner_of_upright hx
  unfold Gate.enact
  rw [after] at hsec hdone
  rcases he : y.exec s.tracker with ⟨r, t⟩
  rw [he] at hsec hdone
  cases r with
  | ok a =>
    obtain ⟨ho, hdr, hu⟩ := hnext a t he
    refine h.moved hinj hown rfl rfl rfl (fun _ => id) hsec (Or.inr ho) hdr fun _ hd => ?_
    have hd' : (s.tracker.futures x.future).done = false := hdone ▸ hd
    exact hu hd' (hup x hx hd')
  | error e =>
    exact h.moved hinj hown rfl rfl rfl (fun _ => id) hsec (Or.inr rfl) (by simp) (by simp [Stage.upright, Stage.underTry])

/-- A section of a call that leaves the tracker alone. -/
theorem Inv.advance {n : ℕ} {x : Submitted} {stage : Stage} (hx : (s.stages n).owner = some x)
    (hstages : s'.stages = Function.update s.stages n stage) (hwire : s'.wire = s.wire) (hused : s'.used = s.used)
    (hreq : ∀ call ∈ s.submitter.requests, call ∈ s'.submitter.requests) (ht : s'.tracker = s.tracker)
    (ho : stage.owner = none ∨ stage.owner = some x) (hv : ∀ y g c i todo, stage ≠ .validating y g c i todo)
    (hup : stage.upright = some x → (s.tracker.futures x.future).done = false →
      s.tracker.Upright (jobOf x.future) x stage) : s'.Inv jobOf := by
  refine h.moved hinj hx hstages hwire hused hreq ?_ ho (fun y g c i todo he => absurd he (hv y g c i todo)) ?_
  · rw [ht]
    exact ⟨refl _, fun _ _ => refl _, fun _ _ => rfl⟩
  · rw [ht]
    exact hup

/-- The next section of a call on the tracker. -/
theorem Inv.proceed {n : ℕ} {rt : Runtime} (hs : s.proceed rest n rt = some s') : s'.Inv jobOf := by
  have hfut : ∀ {α : Type} {y : Program PyError JobTracker α}, Frame lifecycle y → ∀ f,
      ((y.after s.tracker).futures f).done = (s.tracker.futures f).done :=
    fun hy f => congrArg (fun v => (v.2.2.1 f).done) (hy s.tracker)
  have hjob := h.jobIds
  unfold Gate.proceed at hs
  cases hst : s.stages n with
  | tracking x =>
    simp only [hst] at hs
    obtain rfl := Option.some.inj hs
    refine h.enact hinj hst rfl sections_publish rfl fun a t he => ?_
    obtain ⟨-, rfl⟩ := Prod.mk.inj he
    exact ⟨rfl, by simp, fun _ hu => hu.published (hjob _)⟩
  | subscribing x e rest =>
    simp only [hst] at hs
    obtain rfl := Option.some.inj hs
    refine h.enact hinj hst rfl (sections_subscribeCallback e) (hfut (frame_subscribeCallback e _) _) fun i t he => ?_
    exact ⟨rfl, by simp, fun _ hu => hu.subscribed (hjob _) he⟩
  | indexing x e i rest =>
    simp only [hst] at hs
    obtain rfl := Option.some.inj hs
    refine h.enact hinj hst rfl (sections_indexCallback rt e i) (hfut (frame_indexCallback rt e _ i) _) fun a t he => ?_
    have ht : (indexCallback rt e x.future i).after s.tracker = t := by rw [after, he]
    have hidx := fun hu : s.tracker.Upright (jobOf x.future) x (.indexing x e i rest) => hu.indexed rt (hjob _)
    rw [ht] at hidx
    cases rest with
    | nil => exact ⟨rfl, by simp, fun _ => hidx⟩
    | cons e' rest => exact ⟨rfl, by simp, fun _ => hidx⟩
  | listening x todo =>
    have hx : (s.stages n).owner = some x := by
      rw [hst]
      rfl
    cases todo with
    | nil =>
      simp only [hst] at hs
      obtain rfl := Option.some.inj hs
      refine h.advance hinj hx rfl rfl rfl (fun _ => id) rfl (Or.inr rfl) (by simp) fun _ hd => ?_
      have hu := h.upright n x (by rw [hst]; rfl) hd
      rw [hst] at hu
      rw [hjob]
      exact hu.looked rt
    | cons c todo =>
      simp only [hst] at hs
      obtain rfl := Option.some.inj hs
      refine h.enact hinj hst rfl (sections_same (after_checkActive _ _)) (hfut (frame_checkActive _) _) fun g t he => ?_
      rw [hjob] at he
      exact ⟨rfl, by simp, fun _ hu => hu.active he⟩
  | adding x g c todo =>
    simp only [hst] at hs
    obtain rfl := Option.some.inj hs
    refine h.enact hinj hst rfl (sections_subscribeListener rfl g) (hfut (frame_subscribeListener _ g) _)
      fun i t he => ?_
    rw [hjob] at he
    refine ⟨rfl, fun z g' c' i' todo' hz => ?_, fun _ hu => hu.joined h.wired.prompt.sane.1 he⟩
    obtain ⟨rfl, rfl, rfl, rfl, rfl⟩ := Stage.validating.inj hz
    unfold subscribeListener at he
    rw [exec_bind_ok (exec_get s.tracker), onClient, exec_focus] at he
    rcases hc : (RedisSubClient.subscribe _ _).exec s.tracker.subClient with ⟨r, d⟩
    rw [hc] at he
    obtain ⟨rfl, rfl⟩ := Prod.mk.inj he
    exact RedisSubClient.subscribe_ok hc
  | validating x g c i todo =>
    simp only [hst] at hs
    obtain rfl := Option.some.inj hs
    obtain ⟨-, htop⟩ := h.drawn n x g c i todo hst
    have htop' : ∀ t, s.tracker.subClient.topicBySubscriptionId.get? i = some t →
        t = (⟨(s.tracker.futures x.future).jobId, c.1, c.2⟩ : AddArgs).topic := by
      intro t ht
      rw [hjob]
      exact htop t ht
    refine h.enact hinj hst rfl (sections_validateListener rfl g htop') (hfut (frame_validateListener _ g i) _)
      fun k t he => ?_
    rw [hjob] at he
    exact ⟨rfl, by simp, fun hd hu => hu.validated hd he⟩
  | noting x c i todo =>
    simp only [hst] at hs
    obtain rfl := Option.some.inj hs
    refine h.enact hinj hst rfl (sections_setFuture (JobFuture.registerCallback_jobId _ _)) ?_ fun a t he => ?_
    · show (Function.update s.tracker.futures x.future _ x.future).done = _
      rw [Function.update_self, JobFuture.registerCallback_done]
    · obtain ⟨-, rfl⟩ := Prod.mk.inj he
      exact ⟨rfl, by simp, fun _ hu => hu.noted _⟩
  | looking x topics =>
    simp only [hst] at hs
    obtain rfl := Option.some.inj hs
    refine h.enact hinj hst rfl (sections_same (after_readyEvents topics _)) (hfut (frame_onClient _) _)
      fun ready t he => ?_
    exact ⟨rfl, by simp, fun _ hu => hu.covered he⟩
  | waiting x ready =>
    have hx : (s.stages n).owner = some x := by
      rw [hst]
      rfl
    have hu := h.upright n x (by rw [hst]; rfl)
    rw [hst] at hu
    cases ready with
    | nil =>
      simp only [hst] at hs
      obtain rfl := Option.some.inj hs
      exact h.advance hinj hx rfl rfl rfl (fun _ => id) rfl (Or.inr rfl) (by simp) fun _ hd => (hu hd).awaited
    | cons r ready =>
      simp only [hst] at hs
      split_ifs at hs with hset
      obtain rfl := Option.some.inj hs
      exact h.advance hinj hx rfl rfl rfl (fun _ => id) rfl (Or.inr rfl) (by simp) fun _ hd => (hu hd).woken hset
  | releasing x =>
    have hx : (s.stages n).owner = some x := by
      rw [hst]
      rfl
    have hu := h.upright n x (by rw [hst]; rfl)
    rw [hst] at hu
    simp only [hst, exec_ask] at hs
    have hreq : ∀ call ∈ s.submitter.requests, call ∈ s.submitter.requests ++ [.release x.slurmJobId] :=
      fun call hc => List.mem_append_left _ hc
    rcases hr : ((rest.release x.slurmJobId).exec s.submitter.managed.rest).1 with e | u
    · rw [hr] at hs
      obtain rfl := Option.some.inj hs
      exact h.advance hinj hx rfl rfl rfl hreq rfl (Or.inr rfl) (by simp) (by simp [Stage.upright, Stage.underTry])
    · rw [hr] at hs
      obtain rfl := Option.some.inj hs
      exact h.advance hinj hx rfl rfl rfl hreq rfl (Or.inr rfl) (by simp) fun _ hd => (hu hd).released
  | cancelling x exc =>
    have hx : (s.stages n).owner = some x := by
      rw [hst]
      rfl
    simp only [hst, exec_ask] at hs
    have hreq : ∀ call ∈ s.submitter.requests, call ∈ s.submitter.requests ++ [.cancel x.slurmJobId] :=
      fun call hc => List.mem_append_left _ hc
    rcases hr : ((rest.cancel x.slurmJobId).exec s.submitter.managed.rest).1 with e | u
    · rw [hr] at hs
      obtain rfl := Option.some.inj hs
      refine h.advance hinj hx rfl rfl rfl hreq rfl ?_ ?_ ?_
      · split_ifs
        · exact Or.inr rfl
        · exact Or.inl rfl
      · split_ifs <;> simp
      · split_ifs <;> simp [Stage.upright, Stage.underTry]
    · rw [hr] at hs
      obtain rfl := Option.some.inj hs
      exact h.advance hinj hx rfl rfl rfl hreq rfl (Or.inr rfl) (by simp) (by simp [Stage.upright, Stage.underTry])
  | failing x exc =>
    have hx : (s.stages n).owner = some x := by
      rw [hst]
      rfl
    have hsec : Sections s.wire.processed x s.tracker ((applyStatus rt (setupFailed exc) x.future).after s.tracker) :=
      sections_applyStatus rt _ h.own
    simp only [hst] at hs
    rw [after] at hsec
    rcases he : (applyStatus rt (setupFailed exc) x.future).exec s.tracker with ⟨r, t⟩
    rw [he] at hs hsec
    cases r with
    | ok u =>
      obtain rfl := Option.some.inj hs
      exact h.moved hinj hx rfl rfl rfl (fun _ => id) hsec (Or.inl rfl) (by simp) (by simp [Stage.upright, Stage.underTry])
    | error e =>
      obtain rfl := Option.some.inj hs
      exact h.moved hinj hx rfl rfl rfl (fun _ => id) hsec (Or.inl rfl) (by simp) (by simp [Stage.upright, Stage.underTry])
  | idle => simp [hst] at hs
  | returned x => simp [hst] at hs
  | raised exc => simp [hst] at hs

omit hinj in
/-- A call that raises before its future exists. -/
theorem Inv.declined {n : ℕ} {e : PyError}
    (hstages : s'.stages = Function.update s.stages n (.raised e)) (hwire : s'.wire = s.wire)
    (hused : s'.used = s.used) (hreq : ∀ call ∈ s.submitter.requests, call ∈ s'.submitter.requests)
    (ht : s'.tracker = s.tracker) : s'.Inv jobOf := by
  have hst : ∀ m, s'.stages m = s.stages m ∨ s'.stages m = .raised e := by
    intro m
    rw [hstages]
    by_cases hm : m = n
    · rw [hm, Function.update_self]
      exact Or.inr rfl
    · rw [Function.update_of_ne hm]
      exact Or.inl rfl
  have howner : ∀ m y, (s'.stages m).owner = some y → (s.stages m).owner = some y := by
    intro m y hy
    rcases hst m with hm | hm
    · rwa [hm] at hy
    · rw [hm] at hy
      exact absurd hy (by simp [Stage.owner, Stage.underTry])
  have hclient : s'.client = s.client := congrArg JobTracker.subClient ht
  refine ⟨h.wired.carried hwire (hclient ▸ refl _), ht ▸ h.own, ht ▸ h.jobIds, ?_, fun m y hy => ?_,
    fun m y hy => ?_, fun m k y z hy hz => ?_, fun m y g c i todo hm => ?_, fun m y hy hd => ?_⟩
  · rw [hused, ht]
    exact h.unused
  · rw [hused]
    exact h.used m y (howner m y hy)
  · have ha := h.asked m y (howner m y hy)
    exact ⟨ha.job, ha.callbacks, ha.asked.imp fun script hs => hreq _ hs⟩
  · exact h.apart m k y z (howner m y hy) (howner k z hz)
  · rcases hst m with hm' | hm'
    · rw [hclient]
      exact h.drawn m y g c i todo (hm' ▸ hm)
    · rw [hm'] at hm
      cases hm
  · rcases hst m with hm | hm
    · rw [hm] at hy ⊢
      rw [ht] at hd ⊢
      exact h.upright m y hy hd
    · rw [hm] at hy
      exact absurd hy (by simp [Stage.upright, Stage.underTry])

omit hinj in
/-- The future of a call is created: its job id is new. -/
theorem Inv.created {n : ℕ} {x : Submitted} {v : JobFuture} (hx : x.future ∉ s.used)
    (hstages : s'.stages = Function.update s.stages n (.tracking x)) (hwire : s'.wire = s.wire)
    (hused : s'.used = s.used ++ [x.future]) (hreq : ∀ call ∈ s.submitter.requests, call ∈ s'.submitter.requests)
    (hasked : Asked x s'.submitter.requests) (hv : v.jobId = (s.tracker.futures x.future).jobId)
    (ht : s'.tracker = setFuture x.future v s.tracker) : s'.Inv jobOf := by
  have hself : s'.stages n = .tracking x := by rw [hstages, Function.update_self]
  have hother : ∀ m ≠ n, s'.stages m = s.stages m := fun m hm => by rw [hstages, Function.update_of_ne hm]
  have hclient : s'.client = s.client := by
    rw [Gate.client, ht]
    rfl
  have hsp : ∀ j, Spares SubscriptionInfo.unstamped j s.tracker s'.tracker := by
    intro j
    rw [ht]
    exact ⟨fun _ => rfl, fun _ _ => rfl, rfl, rfl⟩
  have howner : ∀ m y, (s'.stages m).owner = some y → m = n ∧ y = x ∨ m ≠ n ∧ (s.stages m).owner = some y := by
    intro m y hy
    by_cases hm : m = n
    · subst hm
      rw [hself] at hy
      exact Or.inl ⟨rfl, (Option.some.inj hy).symm⟩
    · rw [hother m hm] at hy
      exact Or.inr ⟨hm, hy⟩
  have hids : ∀ f, (s'.tracker.futures f).jobId = jobOf f := by
    intro f
    rw [ht, (carries_setFuture (n := 0) hv).jobIds]
    exact h.jobIds f
  refine ⟨h.wired.carried hwire (hclient ▸ refl _), ?_, hids, fun f hf => ?_, fun m y hy => ?_, fun m y hy => ?_,
    fun m k y z hy hz hyz => ?_, fun m y g c i todo hm => ?_, fun m y hy hd => ?_⟩
  · rw [ht]
    exact h.own
  · rw [hused] at hf
    exact (h.unused f fun hmem => hf (List.mem_append_left _ hmem)).spared (hsp _)
  · rw [hused]
    rcases howner m y hy with ⟨-, rfl⟩ | ⟨-, hy⟩
    · simp
    · exact List.mem_append_left _ (h.used m y hy)
  · rcases howner m y hy with ⟨-, rfl⟩ | ⟨-, hy⟩
    · exact hasked
    · have ha := h.asked m y hy
      exact ⟨ha.job, ha.callbacks, ha.asked.imp fun script hs => hreq _ hs⟩
  · rcases howner m y hy with ⟨rfl, rfl⟩ | ⟨-, hy⟩ <;> rcases howner k z hz with ⟨rfl, rfl⟩ | ⟨-, hz⟩
    · rfl
    · exact absurd (hyz ▸ h.used k z hz) hx
    · exact absurd (hyz ▸ h.used m y hy) hx
    · exact h.apart m k y z hy hz hyz
  · have hmn : m ≠ n := by
      rintro rfl
      rw [hself] at hm
      cases hm
    rw [hother m hmn] at hm
    rw [hclient]
    exact h.drawn m y g c i todo hm
  · by_cases hmn : m = n
    · subst hmn
      rw [hself] at hy ⊢
      obtain rfl := Option.some.inj hy
      have hun := (h.unused _ hx).spared (hsp _)
      exact ⟨fun hne => absurd rfl hne, fun e _ => hun.client e, fun e he => by cases e <;> simp [Stage.owed] at he,
        fun e he => by cases e <;> simp [Stage.unlisted] at he, fun c hc => Or.inl hc, trivial⟩
    · rw [hother m hmn] at hy ⊢
      have hne : y.future ≠ x.future := fun he => hx (he ▸ h.used m y (owner_of_upright hy))
      have hfut : s'.tracker.futures y.future = s.tracker.futures y.future := by
        rw [ht]
        exact Function.update_of_ne hne _ _
      rw [hfut] at hd
      exact (h.upright m y hy hd).spared (hsp _) fun e he => by rw [show s'.tracker.subClient = _ from hclient]; exact he

omit h hinj in
/-- What a call has ready for its submission. -/
theorem prepare_ok {settings : WorkerSettings} {w : Surroundings} {jobId : String} {a : SubmitArgs} {script : String}
    {job : Object} {callbacks : List (Event × Callback)}
    (hp : prepare settings w jobId a = .ok (script, job, callbacks)) :
    job = jobDescription a ∧ eventCallbacks a.callbacks = some callbacks := by
  unfold prepare at hp
  dsimp only at hp
  split_ifs at hp
  · cases hp
  cases hcb : eventCallbacks a.callbacks with
  | none => simp [hcb] at hp
  | some cbs =>
    simp only [hcb] at hp
    obtain ⟨script', -, hp⟩ := Except.bind_eq_ok.mp hp
    obtain ⟨-, hp⟩ := Prod.mk.inj (Except.ok.inj hp)
    obtain ⟨rfl, rfl⟩ := Prod.mk.inj hp
    exact ⟨rfl, rfl⟩

omit hinj in
theorem Inv.submit {n : ℕ} {f : FutureRef} (settings : WorkerSettings) (w : Surroundings) (a : SubmitArgs)
    (hf : f ∉ s.used) : (s.submit rest n f settings w a).Inv jobOf := by
  unfold Gate.submit
  dsimp only
  rcases hp : prepare settings w (s.tracker.futures f).jobId a with e | ⟨script, job, callbacks⟩
  · exact h.declined rfl rfl rfl (fun _ => id) rfl
  · have hreq : ∀ call ∈ s.submitter.requests, call ∈ s.submitter.requests ++ [.submit script job] :=
      fun call hc => List.mem_append_left _ hc
    simp only [exec_ask]
    rcases ((rest.submit script job).exec s.submitter.managed.rest).1 with e | result
    · exact h.declined rfl rfl rfl hreq rfl
    · dsimp only
      cases submittedId w.str result with
      | error e => exact h.declined rfl rfl rfl hreq rfl
      | ok text =>
        obtain ⟨hjob, hcb⟩ := prepare_ok hp
        exact h.created (x := ⟨a, f, strip text, job, callbacks⟩)
          (v := JobFuture.new (s.tracker.futures f).jobId text) hf rfl rfl rfl hreq
          ⟨hjob, hcb, script, List.mem_append_right _ (List.mem_singleton.mpr rfl)⟩ rfl rfl

omit hinj in
/-- A step of the connection. -/
theorem Inv.rewired {w : Wire} (hw : ({ s with wire := w } : Gate ρ).Wired) :
    ({ s with wire := w } : Gate ρ).Inv jobOf :=
  ⟨hw, h.own, h.jobIds, h.unused, h.used, h.asked, h.apart, h.drawn, h.upright⟩

/-- **Every step keeps the invariant.** -/
theorem Inv.step {l : Label} (hs : Steps rest s l s') : s'.Inv jobOf := by
  have hinj' : ∀ f g, (s.tracker.futures f).jobId = (s.tracker.futures g).jobId → f = g := by
    intro f g hfg
    rw [h.jobIds, h.jobIds] at hfg
    exact hinj f g hfg
  have hspares : ∀ {t : JobTracker}, (∀ f, Unknown (s.tracker.futures f).jobId s.tracker →
      Spares SubscriptionInfo.unstamped (s.tracker.futures f).jobId s.tracker t) →
        ∀ f ∉ s.used, Spares SubscriptionInfo.unstamped (jobOf f) s.tracker t := by
    intro t ht f hf
    have hun := h.unused f hf
    rw [← h.jobIds] at hun ⊢
    exact ht f hun
  unfold Steps Gate.step at hs
  cases l with
  | submit n f settings w a =>
    simp only at hs
    split at hs
    · split_ifs at hs with hf
      obtain rfl := Option.some.inj hs
      exact h.submit settings w a hf
    · simp at hs
  | proceed n rt => exact h.proceed hinj hs
  | raise n exc =>
    obtain ⟨x, hx, rfl⟩ := Option.map_eq_some_iff.mp hs
    have hown : (s.stages n).owner = some x := by
      cases hst : s.stages n <;> rw [hst] at hx <;> first | exact hx | simp [Stage.underTry] at hx
    exact h.advance hinj hown rfl rfl rfl (fun _ => id) rfl (Or.inr rfl) (by simp) (by simp [Stage.upright, Stage.underTry])
  | poll t m =>
    simp only at hs
    split at hs
    · obtain rfl := Option.some.inj hs
      exact ⟨⟨h.wired.prompt, h.wired.answers, h.wired.held⟩, h.own, h.jobIds, h.unused, h.used, h.asked, h.apart,
        h.drawn, h.upright⟩
    · simp at hs
  | deliver rt =>
    simp only at hs
    split at hs
    · simp at hs
    · rename_i sub m rest hc
      obtain rfl := Option.some.inj hs
      have hcar : Carries s.wire.processed s.tracker ((JobTracker.deliver rt m sub).after s.tracker) :=
        carries_deliver rt m sub s.tracker
      exact h.beside rfl rfl rfl (h.wired.carried rfl hcar.client) (hcar.own h.own) hcar.jobIds hcar.client.topics
        (fun e he => getElem?_of_prefix hcar.client.grows.2 he)
        (hspares fun f hf => spares_deliver_of_unknown rt m sub h.own hf)
        fun f => passes_deliver rt m sub h.own hinj'
  | serve =>
    obtain ⟨w, hw, rfl⟩ := Option.map_eq_some_iff.mp hs
    refine h.rewired ?_
    unfold Wire.serve at hw
    split at hw
    · rename_i cmd hcmd
      obtain rfl := Option.some.inj hw
      have hlt := (List.getElem?_eq_some_iff.mp hcmd).1
      have hmem : ∀ c ∈ s.sent.take s.wire.processed, c ∈ s.sent.take (s.wire.processed + 1) :=
        fun c hc => List.take_subset_take_left _ (Nat.le_succ _) hc
      refine ⟨⟨h.wired.prompt.sane, hlt, fun t ht => hmem _ (h.wired.prompt.ready t ht)⟩, fun c hc => ?_,
        fun c hc => hmem c (h.wired.held c hc)⟩
      rcases List.mem_append.mp hc with hc | hc
      · exact hmem c (h.wired.answers c hc)
      · rw [List.mem_singleton.mp hc]
        refine List.mem_iff_getElem?.mpr ⟨s.wire.processed, ?_⟩
        rw [List.getElem?_take_of_lt (Nat.lt_succ_self _)]
        exact hcmd
    · simp at hw
  | read =>
    obtain ⟨w, hw, rfl⟩ := Option.map_eq_some_iff.mp hs
    refine h.rewired ?_
    unfold Wire.read at hw
    split at hw
    · rename_i cmd rest hheld hans
      obtain rfl := Option.some.inj hw
      refine ⟨h.wired.prompt, fun c hc => h.wired.answers c (hans ▸ List.mem_cons_of_mem _ hc), fun c hc => ?_⟩
      obtain rfl := Option.some.inj hc
      exact h.wired.answers _ (hans ▸ List.mem_cons_self)
    · simp at hw
  | handle =>
    obtain ⟨cmd, hheld, rfl⟩ := Option.map_eq_some_iff.mp hs
    obtain ⟨hsub, htop, hready, hpub, hnext⟩ := RedisSubClient.acknowledged_eq cmd s.client
    have hcmd := h.wired.held cmd hheld
    have hsp : ∀ j, Spares SubscriptionInfo.unstamped j s.tracker
        { s.tracker with subClient := Link.acknowledged cmd s.client } := by
      refine fun j => ⟨fun e => ?_, fun _ _ => rfl, rfl, rfl⟩
      unfold Same RedisSubClient.topicView
      rw [hsub, hready, hpub]
      rfl
    refine h.beside rfl rfl rfl ⟨h.wired.prompt.acknowledged hcmd, fun c hc => ?_, nofun⟩ h.own (fun _ => rfl)
      ⟨hnext.ge, fun i t _ ht => by rw [← htop]; exact ht⟩ (fun e => RedisSubClient.events_acknowledged cmd)
      (fun f _ => hsp _) fun f hd => ⟨hd, hsp _⟩
    show c ∈ (Link.acknowledged cmd s.client).pubsub.sent.take _
    rw [hpub]
    exact h.wired.answers c hc

end Steps

/-! ## Runs -/

theorem Initial.inv (h : s.Initial) : s.Inv fun f => (s.tracker.futures f).jobId := by
  obtain ⟨hreg, hsub, hact⟩ := h.maps
  obtain ⟨hcsub, hctop, hready, hsent⟩ := h.client
  have hidle : ∀ n, (s.stages n).owner = none := fun n => by
    rw [h.stages n]
    rfl
  have hnone : ∀ t e, s.client.subscriptionReady.get? t ≠ some e := by
    intro t e he
    rw [hready] at he
    simp at he
  have hprompt : s.client.Prompt s.wire.processed := by
    rw [h.wire]
    refine ⟨⟨RedisSubClient.wellFormed_of_empty hcsub hctop hready, fun t _ e ht => absurd ht (hnone t e)⟩,
      Nat.zero_le _, fun t ht => ?_⟩
    obtain ⟨e, he, -⟩ := ht
    exact absurd he (hnone t e)
  refine ⟨⟨hprompt, by rw [h.wire]; simp, by rw [h.wire]; simp⟩, fun j t ht => ?_, fun _ => rfl, fun f _ => ?_,
    fun n x hx => ?_, fun n x hx => ?_, fun n m x y hx => ?_, fun n x g c i todo hv => ?_, fun n x hx => ?_⟩
  · unfold activeTopics at ht
    rw [hact] at ht
    simp at ht
  · refine ⟨fun e => ?_, by rw [hact]; rfl, by rw [hreg]; rfl⟩
    have hsent' : s.client.pubsub.sent = [] := hsent
    show RedisSubClient.topicView _ s.client = _
    unfold RedisSubClient.topicView
    rw [hcsub, hready, hsent']
    rfl
  · exact absurd ((hidle n).symm.trans hx) (by simp)
  · exact absurd ((hidle n).symm.trans hx) (by simp)
  · exact absurd ((hidle n).symm.trans hx) (by simp)
  · rw [h.stages n] at hv
    cases hv
  · exact absurd ((hidle n).symm.trans (owner_of_upright hx)) (by simp)

/-- A callback that was passed to `submit_job` is among those by event. -/
theorem mem_callbacks {d : Dict String Callback} {callbacks : List (Event × Callback)}
    (h : eventCallbacks d = some callbacks) {name : String} {cb : Callback} (hget : d.get? name = some cb) :
    ∃ e : Event, e.name = name ∧ (e, cb) ∈ callbacks := by
  have hmem : (name, cb) ∈ d.entries := Dict.mem_entries_iff.mpr hget
  unfold eventCallbacks at h
  generalize d.entries = l at h hmem
  induction l generalizing callbacks with
  | nil => simp at hmem
  | cons a l ih =>
    rw [List.mapM_cons] at h
    obtain ⟨c, hc, h⟩ := Option.bind_eq_some_iff.mp h
    obtain ⟨cs, hcs, h⟩ := Option.bind_eq_some_iff.mp h
    obtain rfl := Option.some.inj h
    rcases List.mem_cons.mp hmem with rfl | hmem
    · obtain ⟨e, he, rfl⟩ := Option.map_eq_some_iff.mp hc
      exact ⟨e, by simpa using List.find?_some he, List.mem_cons_self⟩
    · obtain ⟨e, he, hin⟩ := ih hcs hmem
      exact ⟨e, he, List.mem_cons_of_mem _ hin⟩

/-- What is asked of the state in which the release of `x` is requested: the job was submitted with `hold`
set, the server has the three channels of the job for this connection, and every callback is registered for
its event, with the client and with the tracker. -/
structure Gated (s : Gate ρ) (x : Submitted) (j : String) : Prop where
  hold : x.job.get "hold" .null = .bool true
  submitted : ∃ script, .submit script x.job ∈ s.submitter.requests
  subscribed : ∀ e, isOpen (s.sent.take s.wire.processed) (topicOf j e) = true
  registered : ∀ name cb, x.args.callbacks.get? name = some cb →
    ∃ (e : Event) (i : SubId), e.name = name ∧ s.tracker.Serves j (e, cb) i

theorem Inv.gated (h : s.Inv jobOf) {n : ℕ} {x : Submitted}
    (hst : s.stages n = .releasing x ∨ s.stages n = .returned x) (hd : (s.tracker.futures x.future).done = false) :
    s.Gated x (jobOf x.future) := by
  have hx : (s.stages n).upright = some x := by rcases hst with hst | hst <;> rw [hst] <;> rfl
  have hu := h.upright n x hx hd
  have ha := h.asked n x (owner_of_upright hx)
  have hready : ∀ e, s.client.Ready (topicOf (jobOf x.future) e) := by
    have hat := hu.at_
    rcases hst with hst | hst <;> rw [hst] at hat <;> exact hat
  have hopened : ∀ e, s.client.Opened (topicOf (jobOf x.future) e) := by
    intro e
    refine hu.opened e ?_
    rcases hst with hst | hst <;> rw [hst] <;> exact List.not_mem_nil
  refine ⟨?_, ha.asked, fun e => (hopened e).isOpen (h.wired.prompt.ready _ (hready e)), fun name cb hget => ?_⟩
  · rw [ha.job]
    exact Object.get_update_last _ [_, _] _ _ _
  · obtain ⟨e, he, hmem⟩ := mem_callbacks ha.callbacks hget
    rcases hu.callbacks (e, cb) hmem with hp | ⟨i, -, hserves⟩
    · rcases hst with hst | hst <;> rw [hst] at hp <;> exact absurd hp List.not_mem_nil
    · exact ⟨e, i, he, hserves⟩

/-- **Nothing is released before it can be heard.**  In every interleaving of any number of `submit_job` calls
with the listener thread and the server, the call that is about to request the release of a job whose future
is not done has submitted it on hold, is subscribed at the server to its three channels, and has all its
callbacks registered; and this stays so after the request, as long as the future is not done. -/
theorem release_gating {s₀ : Gate ρ} {ls : List Label} (h₀ : s₀.Initial)
    (hrun : Run (Steps rest) (fun _ _ => True) s₀ ls s) {n : ℕ} {x : Submitted}
    (hst : s.stages n = .releasing x ∨ s.stages n = .returned x) (hd : (s.tracker.futures x.future).done = false) :
    s.Gated x (s.tracker.futures x.future).jobId := by
  have hinv := hrun.invariant (I := fun s => s.Inv fun f => (s₀.tracker.futures f).jobId) h₀.inv
    fun _ _ _ hs _ hstep => hs.step h₀.jobIds hstep
  rw [hinv.jobIds]
  exact hinv.gated hst hd

/-- A Slurm that takes, releases and cancels every job. -/
def readyClient : RestClient Unit where
  submit _ _ := return [("job_id", .string "7")]
  release _ := return ()
  cancel _ := return ()
  getJob _ _ := return none

/-- A new manager on a server that never fails. -/
def fresh : Gate Unit where
  submitter := { managed := ⟨(Session.new (fun _ _ => none) Session.unary).tracker, ()⟩ }

theorem initial_fresh : fresh.Initial :=
  ⟨⟨rfl, rfl, rfl⟩, ⟨rfl, rfl, rfl, rfl⟩, rfl, fun _ => rfl, Session.unary_injective⟩

/-- The call `0` is about to request the release, with a log callback and an unfinished future. -/
def awaitsRelease (s : Gate Unit) : Bool :=
  match s.stages 0 with
  | .releasing x => x.args.callbacks.get? "log" = some 7 ∧ (s.tracker.futures x.future).done = false
  | _ => false

/-- The server takes the commands while the callback is being registered, and the listener reads the
acknowledgements after the call has begun to wait. -/
theorem release_gating_of_one_callback : ∃ (s : Gate Unit) (x : Submitted),
    s.stages 0 = .releasing x ∧ x.args.callbacks.get? "log" = some 7 ∧
      s.Gated x (s.tracker.futures x.future).jobId := by
  have hplay : (([.submit 0 0 ⟨"/opt/w", "r:1", false⟩
          ⟨.still, fun _ => .ok "true\n", ⟨"0", digits_zero⟩, fun _ => "7", fun _ => true, fun _ => none⟩
          { scriptPath := "run.sh", workingDirectory := "/home", callbacks := Dict.single "log" 7 },
        .proceed 0 .still, .proceed 0 .still, .proceed 0 .still, .proceed 0 .still, .proceed 0 .still,
        .proceed 0 .still, .proceed 0 .still, .serve, .serve, .proceed 0 .still, .proceed 0 .still, .serve,
        .proceed 0 .still, .proceed 0 .still, .proceed 0 .still, .proceed 0 .still, .read, .handle, .read, .handle,
        .read, .handle, .proceed 0 .still, .proceed 0 .still, .proceed 0 .still, .proceed 0 .still] :
      List Label).foldlM (fun (s : Gate Unit) l => s.step readyClient l) fresh).any awaitsRelease = true := by decide +kernel
  obtain ⟨s, hs, hw⟩ := (Option.any_eq_true _ _).mp hplay
  unfold awaitsRelease at hw
  split at hw
  · next x hst =>
    obtain ⟨hget, hd⟩ := of_decide_eq_true hw
    have hrun : Run (Steps readyClient) (fun _ _ => True) fresh _ s := Run.of_foldlM (fun _ _ _ => id) hs
    exact ⟨s, x, hst, hget, release_gating initial_fresh hrun (Or.inl hst) hd⟩
  · exact absurd hw Bool.false_ne_true

end Gate

end SlurmManager
