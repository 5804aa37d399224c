import SlurmManager.Lib.Index
import SlurmManager.Lib.Program
import SlurmManager.Tracking.JobFuture

/-!
# RedisSubClient — callbacks per topic and the SUBSCRIBE commands behind them

`redis_sub_client.py` up to its listener thread.  `χ` is the type of registered callbacks.

* `Pubsub` is the connection: each call to it may raise `RedisError`, as `failure` says for the
  n-th call; `sent` lists the commands that went out.
* The two dictionaries of registrations form an `Index`; `index` reads them together, and
  `subscribe`, `unsubscribe`, `unsubscribe_topic` insert, erase an id and erase a bucket in it
  (`exec_subscribe_*`, `exec_unsubscribe_*`, `exec_unsubscribeTopic_*`).
-/

namespace SlurmManager

/-- A `threading.Event`, by its position among the events created so far. -/
abbrev EventRef := ℕ

/-- A pub/sub command of the connection. -/
inductive Command
  | subscribe (topic : Topic)
  | unsubscribe (topic : Topic)
  deriving DecidableEq, Repr

/-- The pub/sub object: which calls raise (with the text of the `RedisError`), how many calls were
made, and the commands handed to the connection. -/
structure Pubsub where
  failure : ℕ → Command → Option String
  calls : ℕ := 0
  sent : List Command := []

namespace Pubsub

/-- How the next call ends if it is `cmd`. -/
def outcome (p : Pubsub) (cmd : Command) : Except PyError Unit :=
  match p.failure p.calls cmd with
  | none => .ok ()
  | some text => .error ⟨.redisError, text⟩

/-- The connection after the call `cmd`; a call that raised sent nothing. -/
def record (p : Pubsub) (cmd : Command) : Pubsub :=
  { p with
    calls := p.calls + 1
    sent := if (p.failure p.calls cmd).isNone then p.sent ++ [cmd] else p.sent }

/-- No UNSUBSCRIBE call raises. -/
def UnsubscribeOk (p : Pubsub) : Prop := ∀ n t, p.failure n (.unsubscribe t) = none

/-- No SUBSCRIBE call raises. -/
def SubscribeOk (p : Pubsub) : Prop := ∀ n t, p.failure n (.subscribe t) = none

@[simp] theorem record_failure (p : Pubsub) (cmd : Command) : (p.record cmd).failure = p.failure := rfl

theorem outcome_unsubscribe {p : Pubsub} (h : p.UnsubscribeOk) (t : Topic) :
    p.outcome (.unsubscribe t) = .ok () := by simp [outcome, h p.calls t]

end Pubsub

/-- One registered callback for one topic. -/
structure Subscription (χ : Type) where
  id : SubId
  topic : Topic
  callback : χ

structure RedisSubClient (χ : Type) where
  subscriptionsByTopic : Dict Topic (Dict SubId (Subscription χ)) := ∅
  topicBySubscriptionId : Dict SubId Topic := ∅
  subscriptionReady : Dict Topic EventRef := ∅
  /-- The flags of the `threading.Event` objects created so far. -/
  events : List Bool := []
  pubsub : Pubsub
  /-- The next `uuid4`; every draw is new. -/
  nextUuid : ℕ := 0

namespace RedisSubClient

variable {χ : Type}

/-- The registrations: `_subscriptions_by_topic` with `_topic_by_subscription_id`. -/
def index (c : RedisSubClient χ) : Index Topic SubId (Subscription χ) where
  buckets := c.subscriptionsByTopic
  owner := c.topicBySubscriptionId

/-- `registered_topics`. -/
def registeredTopics (c : RedisSubClient χ) : List Topic := c.subscriptionsByTopic.keys

/-! ## The operations -/

section Code

/-- `str(uuid4())`. -/
def uuid4 : Program PyError (RedisSubClient χ) SubId := do
  let c ← get
  set { c with nextUuid := c.nextUuid + 1 }
  return c.nextUuid

/-- A call of the pub/sub object. -/
def send (cmd : Command) : Program PyError (RedisSubClient χ) Unit := do
  let c ← get
  set { c with pubsub := c.pubsub.record cmd }
  match c.pubsub.outcome cmd with
  | .ok _ => return ()
  | .error e => throw e

/-- `self._subscription_ready[topic] = threading.Event()`. -/
def newReady (topic : Topic) (c : RedisSubClient χ) : RedisSubClient χ :=
  { c with
    subscriptionReady := c.subscriptionReady.set topic c.events.length
    events := c.events ++ [false] }

/-- `subscribe`.  Starting the listener thread touches none of the maps and is left out. -/
def subscribe (topic : Topic) (callback : χ) : Program PyError (RedisSubClient χ) SubId := do
  let subId ← uuid4
  let subscription : Subscription χ := ⟨subId, topic, callback⟩
  let c ← get
  match c.subscriptionsByTopic.get? topic with
  | none =>
    modify (newReady topic)
    send (.subscribe topic)
    modify fun c =>
      { c with subscriptionsByTopic := c.subscriptionsByTopic.set topic (Dict.single subId subscription) }
  | some callbacks =>
    modify fun c =>
      { c with subscriptionsByTopic := c.subscriptionsByTopic.set topic (callbacks.set subId subscription) }
  modify fun c => { c with topicBySubscriptionId := c.topicBySubscriptionId.set subId topic }
  return subId

/-- `unsubscribe`. -/
def unsubscribe (subscriptionId : SubId) : Program PyError (RedisSubClient χ) Bool := do
  let c ← get
  match c.topicBySubscriptionId.get? subscriptionId with
  | none => return false
  | some topic =>
    modify fun c => { c with topicBySubscriptionId := c.topicBySubscriptionId.erase subscriptionId }
    match c.subscriptionsByTopic.get? topic with
    | none => return false
    | some callbacks =>
      let callbacks := callbacks.erase subscriptionId
      modify fun c => { c with subscriptionsByTopic := c.subscriptionsByTopic.set topic callbacks }
      if callbacks.isEmpty = false then
        return true
      else
        modify fun c =>
          { c with
            subscriptionsByTopic := c.subscriptionsByTopic.erase topic
            subscriptionReady := c.subscriptionReady.erase topic }
        send (.unsubscribe topic)
        return true

/-- `unsubscribe_topic`: the number of removed callbacks. -/
def unsubscribeTopic (topic : Topic) : Program PyError (RedisSubClient χ) ℕ := do
  let c ← get
  modify fun c => { c with subscriptionsByTopic := c.subscriptionsByTopic.erase topic }
  match c.subscriptionsByTopic.get? topic with
  | none => return 0
  | some callbacks =>
    if callbacks.isEmpty then
      return 0
    else
      modify fun c =>
        { c with
          subscriptionReady := c.subscriptionReady.erase topic
          topicBySubscriptionId := c.topicBySubscriptionId.eraseAll callbacks.keys }
      send (.unsubscribe topic)
      return callbacks.keys.length

/-- The look-up of `wait_until_subscribed` under the lock; an unregistered topic is a `KeyError`
(whose text is the key in quotes). -/
def readyEvents : List Topic → Program PyError (RedisSubClient χ) (List (Topic × EventRef))
  | [] => return []
  | topic :: topics => do
    let c ← get
    match c.subscriptionReady.get? topic with
    | none => throw ⟨.keyError, "'" ++ topic ++ "'"⟩
    | some event =>
      let ready ← readyEvents topics
      return (topic, event) :: ready

/-- The listener's handling of a subscribe acknowledgement: set the topic's ready event, if any. -/
def acknowledge (topic : Topic) (c : RedisSubClient χ) : RedisSubClient χ :=
  match c.subscriptionReady.get? topic with
  | none => c
  | some event => { c with events := c.events.set event true }

/-- The listener's snapshot of the callbacks of a topic. -/
def capture (topic : Topic) (c : RedisSubClient χ) : List (Subscription χ) :=
  ((c.subscriptionsByTopic.get? topic).getD ∅).values

end Code

/-! ## What each operation computes -/

section Spec

variable (c : RedisSubClient χ)

@[simp] theorem exec_uuid4 :
    uuid4.exec c = (.ok c.nextUuid, { c with nextUuid := c.nextUuid + 1 }) := rfl

@[simp] theorem exec_send (cmd : Command) :
    (send cmd).exec c = (c.pubsub.outcome cmd, { c with pubsub := c.pubsub.record cmd }) := by
  simp only [send, Program.exec_bind, Program.exec_get, Program.exec_set]
  cases c.pubsub.outcome cmd <;> rfl

variable {c}

/-- Joining a topic that has callbacks sends nothing. -/
theorem exec_subscribe_joined {t : Topic} {cb : χ} {b : Dict SubId (Subscription χ)}
    (hb : c.subscriptionsByTopic.get? t = some b) :
    (subscribe t cb).exec c = (.ok c.nextUuid,
      { c with
        subscriptionsByTopic := c.subscriptionsByTopic.set t (b.set c.nextUuid ⟨c.nextUuid, t, cb⟩)
        topicBySubscriptionId := c.topicBySubscriptionId.set c.nextUuid t
        nextUuid := c.nextUuid + 1 }) := by
  simp [subscribe, Program.exec_bind, Program.exec_map, Except.map, hb]

/-- The first callback of a topic creates its ready event and sends SUBSCRIBE. -/
theorem exec_subscribe_opened {t : Topic} {cb : χ} (hb : c.subscriptionsByTopic.get? t = none)
    (hs : c.pubsub.outcome (.subscribe t) = .ok ()) :
    (subscribe t cb).exec c = (.ok c.nextUuid,
      { c with
        subscriptionsByTopic :=
          c.subscriptionsByTopic.set t (Dict.single c.nextUuid ⟨c.nextUuid, t, cb⟩)
        topicBySubscriptionId := c.topicBySubscriptionId.set c.nextUuid t
        subscriptionReady := c.subscriptionReady.set t c.events.length
        events := c.events ++ [false]
        pubsub := c.pubsub.record (.subscribe t)
        nextUuid := c.nextUuid + 1 }) := by
  simp [subscribe, Program.exec_bind, Program.exec_map, Except.map, hb, newReady, hs]

/-- A SUBSCRIBE that raises leaves the ready event behind and registers nothing. -/
theorem exec_subscribe_raised {t : Topic} {cb : χ} {e : PyError}
    (hb : c.subscriptionsByTopic.get? t = none)
    (hs : c.pubsub.outcome (.subscribe t) = .error e) :
    (subscribe t cb).exec c = (.error e,
      { c with
        subscriptionReady := c.subscriptionReady.set t c.events.length
        events := c.events ++ [false]
        pubsub := c.pubsub.record (.subscribe t)
        nextUuid := c.nextUuid + 1 }) := by
  simp [subscribe, Program.exec_bind, hb, newReady, hs]

theorem exec_unsubscribe_unknown {i : SubId} (hi : c.topicBySubscriptionId.get? i = none) :
    (unsubscribe i).exec c = (.ok false, c) := by
  simp [unsubscribe, Program.exec_bind, hi]

/-- Other callbacks still own the topic. -/
theorem exec_unsubscribe_shared {i : SubId} {t : Topic} {b : Dict SubId (Subscription χ)}
    (hi : c.topicBySubscriptionId.get? i = some t) (hb : c.subscriptionsByTopic.get? t = some b)
    (he : (b.erase i).isEmpty = false) :
    (unsubscribe i).exec c = (.ok true,
      { c with
        subscriptionsByTopic := c.subscriptionsByTopic.set t (b.erase i)
        topicBySubscriptionId := c.topicBySubscriptionId.erase i }) := by
  simp [unsubscribe, Program.exec_bind, Program.exec_map, Except.map, hi, hb, he]

/-- The last callback goes: the maps are cleaned first, then UNSUBSCRIBE is sent. -/
theorem exec_unsubscribe_last {i : SubId} {t : Topic} {b : Dict SubId (Subscription χ)}
    (hi : c.topicBySubscriptionId.get? i = some t) (hb : c.subscriptionsByTopic.get? t = some b)
    (he : (b.erase i).isEmpty = true) :
    (unsubscribe i).exec c = ((c.pubsub.outcome (.unsubscribe t)).map fun _ => true,
      { c with
        subscriptionsByTopic := (c.subscriptionsByTopic.set t (b.erase i)).erase t
        topicBySubscriptionId := c.topicBySubscriptionId.erase i
        subscriptionReady := c.subscriptionReady.erase t
        pubsub := c.pubsub.record (.unsubscribe t) }) := by
  simp only [unsubscribe, Program.exec_bind, Program.exec_get, hi, Program.exec_modify, hb, he,
    Bool.true_eq_false, if_false, exec_send]
  cases c.pubsub.outcome (.unsubscribe t) <;> rfl

theorem exec_unsubscribeTopic_none {t : Topic} (hb : c.subscriptionsByTopic.get? t = none) :
    (unsubscribeTopic t).exec c = (.ok 0, c) := by
  simp [unsubscribeTopic, Program.exec_bind, Program.exec_map, Except.map, hb,
    Dict.erase_of_get?_eq_none hb]

theorem exec_unsubscribeTopic_some {t : Topic} {b : Dict SubId (Subscription χ)}
    (hb : c.subscriptionsByTopic.get? t = some b) (he : b.isEmpty = false) :
    (unsubscribeTopic t).exec c = ((c.pubsub.outcome (.unsubscribe t)).map fun _ => b.keys.length,
      { c with
        subscriptionsByTopic := c.subscriptionsByTopic.erase t
        topicBySubscriptionId := c.topicBySubscriptionId.eraseAll b.keys
        subscriptionReady := c.subscriptionReady.erase t
        pubsub := c.pubsub.record (.unsubscribe t) }) := by
  simp only [unsubscribeTopic, Program.exec_bind, Program.exec_get, Program.exec_modify, hb, he,
    Bool.false_eq_true, if_false, exec_send]
  cases c.pubsub.outcome (.unsubscribe t) <;> rfl

end Spec

end RedisSubClient

end SlurmManager
