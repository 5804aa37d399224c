import SlurmManager.Lib.Runs
import SlurmManager.Manager.ReleaseGate

/-!
# ReleaseGating — what holds for a call of `submit_job` at each stage

A job id is new, so its three topics are subscribed once by their `track` and never unsubscribed while
the future is not done.  A set ready event of such a topic can only come from that SUBSCRIBE.

* `Virgin`, `Opened`: a topic before and after that one SUBSCRIBE.
* `Prompt`: a ready topic has been subscribed at the server.
* `Upright`: what holds for a call at each stage, while its future is not done.
* `Upright.spared`: steps that spare its job keep this.
-/

namespace SlurmManager

open Program JobTracker

/-! ## The topics of a job -/

namespace RedisSubClient

variable {χ : Type} {t : Topic} {c c' : RedisSubClient χ}

/-- Nothing is held for the topic, and nothing was ever sent. -/
def Virgin (t : Topic) (c : RedisSubClient χ) : Prop := c.topicView t = (none, none, [])

/-- The topic has callbacks and a ready event, and one SUBSCRIBE is all that was sent. -/
def Opened (t : Topic) (c : RedisSubClient χ) : Prop := ∃ b e, c.topicView t = (some b, some e, [.subscribe t])

theorem Virgin.congr (h : Virgin t c) (hs : Same (topicView t) c c') : Virgin t c' := hs.trans h

theorem Opened.congr (h : Opened t c) (hs : Same (topicView t) c c') : Opened t c' := by
  obtain ⟨b, e, he⟩ := h
  exact ⟨b, e, hs.trans he⟩

theorem Ready.congr (h : c.Ready t) (hs : Same (topicView t) c c')
    (he : ∀ e : ℕ, c.events[e]? = some true → c'.events[e]? = some true) : c'.Ready t := by
  obtain ⟨e, hev, hset⟩ := h
  exact ⟨e, (congrArg (fun v => v.2.1) hs).trans hev, he e hset⟩

/-- `isOpen` depends on the commands for the topic only. -/
theorem isOpen_filter (sent : List Command) (t : Topic) :
    isOpen (sent.filter fun cmd => cmd.topic = t) t = isOpen sent t := by
  induction sent using List.reverseRecOn with
  | nil => rfl
  | append_singleton sent cmd ih =>
    rw [List.filter_append, List.filter_singleton]
    cases cmd with
    | subscribe t' =>
      by_cases ht : t' = t
      · subst ht
        simp
      · simp [ht, ih]
    | unsubscribe t' =>
      by_cases ht : t' = t
      · subst ht
        simp
      · simp [ht, ih]

/-- Of an opened topic the server has taken the one command, or none. -/
theorem Opened.isOpen {n : ℕ} (h : Opened t c) (hp : .subscribe t ∈ c.pubsub.sent.take n) :
    isOpen (c.pubsub.sent.take n) t = true := by
  obtain ⟨b, e, he⟩ := h
  have hsent : c.pubsub.sent.filter (fun cmd => cmd.topic = t) = [.subscribe t] := congrArg (fun v => v.2.2) he
  have hmem : .subscribe t ∈ (c.pubsub.sent.take n).filter fun cmd => cmd.topic = t := by
    simp [hp]
  have hsub : ((c.pubsub.sent.take n).filter fun cmd => cmd.topic = t).Sublist [.subscribe t] := by
    rw [← hsent]
    exact (List.take_sublist n _).filter _
  have hall : (c.pubsub.sent.take n).filter (fun cmd => cmd.topic = t) = [.subscribe t] := by
    refine hsub.eq_of_length_le ?_
    exact List.length_pos_of_mem hmem
  rw [← isOpen_filter, hall]
  simp [SlurmManager.isOpen]

/-- The first subscription of a topic. -/
theorem Virgin.subscribed (h : Virgin t c) (cb : χ) {i : SubId} {d : RedisSubClient χ}
    (he : (subscribe t cb).exec c = (.ok i, d)) : Opened t d := by
  have hb : c.subscriptionsByTopic.get? t = none := congrArg (fun v => v.1) h
  have hsent : c.pubsub.sent.filter (fun cmd => cmd.topic = t) = [] := congrArg (fun v => v.2.2) h
  cases hs : c.pubsub.outcome (.subscribe t) with
  | error e =>
    rw [exec_subscribe_raised hb hs] at he
    exact absurd (Prod.mk.inj he).1 (by simp)
  | ok u =>
    rw [exec_subscribe_opened hb hs] at he
    obtain ⟨-, rfl⟩ := Prod.mk.inj he
    refine ⟨Dict.single c.nextUuid ⟨c.nextUuid, t, cb⟩, c.events.length, ?_⟩
    have hf : c.pubsub.failure c.pubsub.calls (.subscribe t) = none := Pubsub.outcome_eq_ok_iff.mp hs
    have hrec : (c.pubsub.record (.subscribe t)).sent = c.pubsub.sent ++ [.subscribe t] := by
      rw [sent_record, hf]
      rfl
    unfold topicView
    dsimp only
    rw [Dict.get?_set_self, Dict.get?_set_self, hrec, List.filter_append, hsent]
    simp

/-- A further subscription of an opened topic: nothing is sent. -/
theorem Opened.joined (h : Opened t c) (cb : χ) :
    ∃ b, c.subscriptionsByTopic.get? t = some b ∧ (subscribe t cb).exec c = (.ok c.nextUuid,
      { c with
        subscriptionsByTopic := c.subscriptionsByTopic.set t (b.set c.nextUuid ⟨c.nextUuid, t, cb⟩)
        topicBySubscriptionId := c.topicBySubscriptionId.set c.nextUuid t
        nextUuid := c.nextUuid + 1 }) := by
  obtain ⟨b, e, he⟩ := h
  have hb : c.subscriptionsByTopic.get? t = some b := congrArg (fun v => v.1) he
  exact ⟨b, hb, exec_subscribe_joined hb⟩

/-! ## The client and the connection -/

/-- A client of whose commands the server has taken `n`: a ready topic has been subscribed at the server. -/
structure Prompt (n : ℕ) (c : RedisSubClient χ) : Prop where
  sane : c.Sane
  bound : n ≤ c.pubsub.sent.length
  ready : ∀ t, c.Ready t → .subscribe t ∈ c.pubsub.sent.take n

theorem Prompt.next {n : ℕ} (h : Prompt n c) (hs : c'.Sane) (hg : Grows c c') (hr : NoneReady c c') : Prompt n c' := by
  obtain ⟨cmds, hcmds⟩ := hg.1
  refine ⟨hs, ?_, fun t ht => ?_⟩
  · rw [← hcmds, List.length_append]
    have := h.bound
    omega
  · rw [← hcmds, List.take_append_of_le_length h.bound]
    exact h.ready t (hr t ht)

theorem calls_prompt (n : ℕ) : Calls (Kept (Prompt (χ := χ) n)) := by
  have hs := calls_sane (χ := χ)
  have hg := calls_grows (χ := χ)
  have hr := calls_noneReady (χ := χ)
  refine ⟨⟨fun i c h => ?_, fun t c h => ?_⟩, fun c h => ?_, fun t cb c h => ?_⟩
  · exact h.next (hs.unsubscribe i c h.sane) (hg.unsubscribe i c) (hr.unsubscribe i c)
  · exact h.next (hs.unsubscribeTopic t c h.sane) (hg.unsubscribeTopic t c) (hr.unsubscribeTopic t c)
  · exact h.next (hs.uuid4 c h.sane) (hg.uuid4 c) (hr.uuid4 c)
  · exact h.next (hs.subscribe t cb c h.sane) (hg.subscribe t cb c) (hr.subscribe t cb c)

end RedisSubClient

/-! ## What holds at each stage -/

namespace Stage

/-- What a call holds from its submission to its end. -/
def owner : Stage → Option Submitted
  | .returned x | .cancelling x _ | .failing x _ => some x
  | stage => stage.underTry

/-- What a call holds that has not failed. -/
def upright : Stage → Option Submitted
  | .returned x => some x
  | stage => stage.underTry

/-- The events for which `track` has yet to subscribe. -/
def owed : Stage → List Event
  | .tracking _ => [.heartbeat, .status, .log]
  | .subscribing _ e rest => e :: rest
  | .indexing _ _ _ rest => rest
  | _ => []

/-- The events for which `track` has yet to index a subscription. -/
def unlisted : Stage → List Event
  | .tracking _ => [.heartbeat, .status, .log]
  | .subscribing _ e rest => e :: rest
  | .indexing _ e _ rest => e :: rest
  | _ => []

/-- The callbacks that are not registered yet. -/
def pending : Stage → List (Event × Callback)
  | .tracking x => x.callbacks
  | .subscribing x _ _ => x.callbacks
  | .indexing x _ _ _ => x.callbacks
  | .listening _ todo => todo
  | .adding _ _ c todo => c :: todo
  | .validating _ _ c _ todo => c :: todo
  | .noting _ _ _ todo => todo
  | _ => []

/-- The id that a call is about to index. -/
def drawn : Stage → Option SubId
  | .validating _ _ _ i _ => some i
  | _ => none

end Stage

/-- The client has the callback under the id. -/
def JobTracker.Installed (s : JobTracker) (j : String) (c : Event × Callback) (i : SubId) : Prop :=
  ∃ b sub, s.subClient.subscriptionsByTopic.get? (topicOf j c.1) = some b ∧ b.get? i = some sub ∧
    if c.1 = .status then sub.callback = .ignoreStatus
    else ∃ d : Dispatch, d.callback = c.2 ∧ d.jobId = j ∧ sub.callback = .dispatch d

/-- The tracker has the callback under the id. -/
def JobTracker.Recorded (s : JobTracker) (j : String) (c : Event × Callback) (i : SubId) : Prop :=
  ∃ info d, s.record? (topicOf j c.1) i = some info ∧ info.callback = some d ∧ d.callback = c.2 ∧ d.jobId = j

/-- The callback is registered for its event. -/
def JobTracker.Serves (s : JobTracker) (j : String) (c : Event × Callback) (i : SubId) : Prop :=
  s.Installed j c i ∧ s.Recorded j c i

/-- What holds at one stage and not at the others. -/
def JobTracker.At (s : JobTracker) (j : String) : Stage → Prop
  | .subscribing _ e rest => (e :: rest).Nodup
  | .indexing _ e _ rest => (e :: rest).Nodup
  | .adding x g _ _ => g = x.future
  | .validating x g c i _ => g = x.future ∧ s.Installed j c i
  | .looking _ topics => ∀ e, topicOf j e ∈ topics
  | .waiting _ ready => ∀ e, s.subClient.Ready (topicOf j e) ∨
      ∃ ev, (topicOf j e, ev) ∈ ready ∧ s.subClient.subscriptionReady.get? (topicOf j e) = some ev
  | .releasing _ => ∀ e, s.subClient.Ready (topicOf j e)
  | .returned _ => ∀ e, s.subClient.Ready (topicOf j e)
  | _ => True

/-- **What holds for a call, while its future is not done.** -/
structure JobTracker.Upright (s : JobTracker) (j : String) (x : Submitted) (stage : Stage) : Prop where
  registry : stage ≠ .tracking x → s.futureRegistry.get? j = some x.future
  owed : ∀ e ∈ stage.owed, s.subClient.Virgin (topicOf j e)
  opened : ∀ e ∉ stage.owed, s.subClient.Opened (topicOf j e)
  listed : ∀ e ∉ stage.unlisted, topicOf j e ∈ s.activeTopics j
  callbacks : ∀ c ∈ x.callbacks, c ∈ stage.pending ∨ ∃ i, stage.drawn ≠ some i ∧ s.Serves j c i
  at_ : s.At j stage

namespace JobTracker

section Spared

variable {s s' : JobTracker} {j : String} {x : Submitted} {stage : Stage}

theorem Installed.congr {c : Event × Callback} {i : SubId} (h : s.Installed j c i)
    (hs : Same (RedisSubClient.topicView (topicOf j c.1)) s.subClient s'.subClient) : s'.Installed j c i := by
  obtain ⟨b, sub, hb, hrest⟩ := h
  exact ⟨b, sub, (congrArg (fun v => v.1) hs).trans hb, hrest⟩

theorem Recorded.congr {c : Event × Callback} {i : SubId} (h : s.Recorded j c i)
    (hs : (s'.record? (topicOf j c.1) i).map SubscriptionInfo.unstamped =
      (s.record? (topicOf j c.1) i).map SubscriptionInfo.unstamped) : s'.Recorded j c i := by
  obtain ⟨info, d, hi, hd, hrest⟩ := h
  rw [hi] at hs
  obtain ⟨info', hi', he⟩ := Option.map_eq_some_iff.mp hs
  exact ⟨info', d, hi', by rw [(SubscriptionInfo.eq_of_unstamped he).2.2.2, hd], hrest⟩

/-- Steps that spare the job leave a call where it is. -/
theorem Upright.spared (h : s.Upright j x stage) (hs : Spares SubscriptionInfo.unstamped j s s')
    (he : ∀ e : ℕ, s.subClient.events[e]? = some true → s'.subClient.events[e]? = some true) :
    s'.Upright j x stage := by
  have hready : ∀ e, s.subClient.Ready (topicOf j e) → s'.subClient.Ready (topicOf j e) :=
    fun e hr => hr.congr (hs.client e) he
  refine ⟨fun hst => hs.registry.trans (h.registry hst), fun e ho => (h.owed e ho).congr (hs.client e),
    fun e ho => (h.opened e ho).congr (hs.client e), fun e hl => ?_, fun c hc => ?_, ?_⟩
  · unfold activeTopics
    rw [hs.active]
    exact h.listed e hl
  · rcases h.callbacks c hc with hp | ⟨i, hi, hin, hrec⟩
    · exact Or.inl hp
    · exact Or.inr ⟨i, hi, hin.congr (hs.client c.1), hrec.congr (hs.records c.1 i)⟩
  · have hat := h.at_
    cases stage with
    | validating y g c i todo => exact ⟨hat.1, hat.2.congr (hs.client c.1)⟩
    | waiting y ready =>
      intro e
      rcases hat e with hr | ⟨ev, hm, hev⟩
      · exact Or.inl (hready e hr)
      · exact Or.inr ⟨ev, hm, (congrArg (fun v => v.2.1) (hs.client e)).trans hev⟩
    | releasing y => exact fun e => hready e (hat e)
    | returned y => exact fun e => hready e (hat e)
    | _ => exact hat

end Spared

end JobTracker

end SlurmManager
