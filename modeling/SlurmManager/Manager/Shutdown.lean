import SlurmManager.Manager.Monitor
import SlurmManager.Tracking.StatusUpdate

/-!
# Shutdown — closing the manager while everything else runs

`SlurmManager.shutdown` with `JobTracker.shutdown` and `RedisSubClient.shutdown` inside it, one section at a
time, beside the monitor thread, the listener thread, the executor and the calls of the users.

* `Closing`: the manager with its threads and resources, and where the call of `shutdown` stands.
* `Quiet`: once the maps of the tracker are cleared, nothing fills them but a registration, and once the maps
  of the client are cleared too, no status submits a task or sends a command.
* `shutdown_drains`: a call that raises `TimeoutError` has closed nothing.  If the listener thread was joined in
  time, nothing is submitted to the closed executor and nothing is sent over the closed connection, and every
  task has been run once when `shutdown` returns.

A use of a closed resource is recorded (`lost`), and what follows it is not described.
-/

namespace SlurmManager

open Program JobTracker

/-! ## The code -/

/-- `self._global_callbacks.clear()` and so on; the registry of futures is not cleared. -/
def JobTracker.clearMaps (s : JobTracker) : JobTracker :=
  { s with globalCallbacks := ∅, subscriptionsByTopic := ∅, topicBySubscriptionId := ∅ }

/-- The clearing of the client's maps in its `shutdown`. -/
def RedisSubClient.clearMaps {χ : Type} (c : RedisSubClient χ) : RedisSubClient χ :=
  { c with subscriptionsByTopic := ∅, topicBySubscriptionId := ∅, subscriptionReady := ∅ }

/-- The next section of a call of `shutdown`. -/
inductive Closing.Stage
  | idle
  | joiningMonitor
  | clearing
  | stoppingListener
  | joiningListener
  | dropping
  | disconnecting
  | closingExecutor
  /-- The executor waits for its tasks. -/
  | draining
  | returned
  /-- `TimeoutError`: the monitor is still in its query. -/
  | raised
  deriving DecidableEq, Repr

structure Closing (ρ : Type) where
  monitor : Monitor ρ
  stage : Closing.Stage := .idle
  stopListener : Bool := false
  /-- Whether the listener thread is alive. -/
  listener : Bool := true
  connected : Bool := true
  /-- Whether the executor takes tasks. -/
  accepting : Bool := true
  /-- The tasks that have been run, by their position. -/
  ran : List ℕ := []
  /-- Histories: the maps of the tracker and of the client have been cleared; the listener thread outlived its
  join; a closed resource was used. -/
  cleared : Bool := false
  dropped : Bool := false
  late : Bool := false
  lost : Bool := false

/-- Whether the monitor thread is alive. -/
def Monitor.alive {ρ : Type} (s : Monitor ρ) : Bool :=
  match s.place with
  | .ended | .died _ => false
  | _ => true

namespace Closing

variable {ρ : Type}

inductive Label (ρ : Type)
  /-- The monitor thread, the listener thread, and the calls of the users. -/
  | manager (l : Monitor.Label ρ)
  /-- A worker of the executor finishes the task at a position. -/
  | run (i : ℕ)
  /-- `shutdown` is called: the monitor is told to stop. -/
  | call
  /-- The next section of `shutdown`. -/
  | next
  /-- The listener thread sees the stop event at the head of its loop. -/
  | listenerEnds

def session (c : Closing ρ) : Session := c.monitor.session

def tracker (c : Closing ρ) : JobTracker := c.monitor.session.tracker

/-- What the listener thread does. -/
def ofListener : Act → Bool
  | .poll _ _ | .deliver | .dispatchMessage _ _ => true
  | _ => false

/-- A thread that has ended takes no step. -/
def allows (c : Closing ρ) : Monitor.Label ρ → Bool
  | .other l => c.listener || !ofListener l.act
  | _ => true

/-- The manager after a step of one of its threads.  A task for the closed executor is refused, and a command for
the closed connection opens it again. -/
def went (c : Closing ρ) (m : Monitor ρ) : Closing ρ :=
  { c with
    monitor := m
    lost := (!c.connected && decide (m.session.tracker.subClient.pubsub.calls ≠ c.tracker.subClient.pubsub.calls)) ||
      (!c.accepting && decide (m.session.tracker.tasks.length ≠ c.tracker.tasks.length)) }

def setTracker (c : Closing ρ) (t : JobTracker) : Closing ρ := { c with monitor := c.monitor.setTracker t }

/-- The sections of `shutdown`. -/
def next (c : Closing ρ) : Option (Closing ρ) :=
  match c.stage with
  | .joiningMonitor => some { c with stage := if c.monitor.alive then .raised else .clearing }
  | .clearing => some { c.setTracker c.tracker.clearMaps with cleared := true, stage := .stoppingListener }
  | .stoppingListener => some { c with stopListener := true, stage := .joiningListener }
  | .joiningListener => some { c with late := c.late || c.listener, stage := .dropping }
  | .dropping =>
    some { c.setTracker { c.tracker with subClient := c.tracker.subClient.clearMaps } with
      dropped := true, stage := .disconnecting }
  | .disconnecting => some { c with connected := false, stage := .closingExecutor }
  | .closingExecutor => some { c with accepting := false, stage := .draining }
  | .draining => if ∀ i < c.tracker.tasks.length, i ∈ c.ran then some { c with stage := .returned } else none
  | .idle | .returned | .raised => none

variable (str : Json → String) (client : RestClient ρ)

def step (c : Closing ρ) : Label ρ → Option (Closing ρ)
  | .manager l => if c.lost ∨ c.allows l = false then none else (c.monitor.step str client l).map c.went
  | .run i => if i < c.tracker.tasks.length ∧ i ∉ c.ran then some { c with ran := c.ran ++ [i] } else none
  | .call =>
    if c.stage = .idle ∨ c.stage = .raised ∨ c.stage = .returned then
      some { c with monitor := { c.monitor with stop := true }, stage := .joiningMonitor }
    else none
  | .next => c.next
  | .listenerEnds =>
    if c.stopListener ∧ c.listener ∧ c.session.captured.isEmpty then some { c with listener := false } else none

def Steps (c : Closing ρ) (l : Label ρ) (c' : Closing ρ) : Prop := c.step str client l = some c'

/-- A manager in operation. -/
def new (m : Monitor ρ) : Closing ρ where
  monitor := m

end Closing

/-! ## Registrations -/

/-- The labels that begin a registration. -/
def Act.registers : Act → Bool
  | .track _ | .addSubscription _ | .listenGlobal _ _ | .startTrack _ _ | .startAdd _ _ => true
  | _ => false

/-- The call is in the middle of a registration. -/
def Call.registering : Call → Bool
  | .subscribing .. | .indexing .. | .adding .. | .validating .. => true
  | _ => false

@[simp] theorem Call.registering_overtake (jobOf : FutureRef → String) (t : Topic) (call : Call) :
    (call.overtake jobOf t).registering = call.registering := by
  cases call <;> rfl

/-! ## A tracker without subscriptions -/

/-- The maps that `shutdown` clears are empty. -/
structure JobTracker.Cleared (s : JobTracker) : Prop where
  globals : s.globalCallbacks = ∅
  topics : s.subscriptionsByTopic = ∅
  ids : s.topicBySubscriptionId = ∅

def RedisSubClient.Emptied {χ : Type} (c : RedisSubClient χ) : Prop :=
  c.subscriptionsByTopic = ∅ ∧ c.topicBySubscriptionId = ∅

namespace JobTracker

/-- A cleared tracker stays so, and with an emptied client nothing is submitted or sent. -/
def Quiet (s t : JobTracker) : Prop :=
  s.Cleared → t.Cleared ∧ (s.subClient.Emptied → t.subClient = s.subClient ∧ t.tasks = s.tasks)

instance : IsPreorder JobTracker Quiet where
  refl _ h := ⟨h, fun _ => ⟨rfl, rfl⟩⟩
  trans _ _ _ h h' hs :=
    ⟨(h' (h hs).1).1, fun he =>
      have hc := (h hs).2 he
      have hd := (h' (h hs).1).2 (hc.1.symm ▸ he)
      ⟨hd.1.trans hc.1, hd.2.trans hc.2⟩⟩

theorem Quiet.of_same {s t : JobTracker} (hg : t.globalCallbacks = s.globalCallbacks)
    (ht : t.subscriptionsByTopic = s.subscriptionsByTopic) (hi : t.topicBySubscriptionId = s.topicBySubscriptionId)
    (hc : t.subClient = s.subClient) (htasks : t.tasks = s.tasks) : Quiet s t :=
  fun h => ⟨⟨hg.trans h.globals, ht.trans h.topics, hi.trans h.ids⟩, fun _ => ⟨hc, htasks⟩⟩

section Programs

variable {α : Type}

theorem quiet_onClient {x : Program PyError (RedisSubClient ClientCallback) α}
    (hx : ∀ c, c.Emptied → x.after c = c) : Within Quiet (onClient x) := by
  refine within_focus fun s h => ⟨⟨h.globals, h.topics, h.ids⟩, fun he => ⟨?_, rfl⟩⟩
  exact hx s.subClient he

theorem quiet_unsubscribe (i : SubId) : Within Quiet (onClient (RedisSubClient.unsubscribe i)) := by
  refine quiet_onClient fun c hc => ?_
  rw [after, RedisSubClient.exec_unsubscribe_unknown]
  rw [hc.2]
  rfl

theorem quiet_unsubscribeTopic (t : Topic) : Within Quiet (onClient (RedisSubClient.unsubscribeTopic t)) := by
  refine quiet_onClient fun c hc => ?_
  rw [after, RedisSubClient.exec_unsubscribeTopic_none]
  rw [hc.1]
  rfl

theorem eraseAll_empty {κ ν : Type} [DecidableEq κ] (ks : List κ) : (∅ : Dict κ ν).eraseAll ks = ∅ := by
  unfold Dict.eraseAll
  induction ks with
  | nil => rfl
  | cons k ks ih => exact ih

theorem quiet_dropTopic (t : Topic) : Within Quiet (dropTopic t) := by
  refine Within.bind (within_modify fun s h => ?_) fun _ =>
    Within.bind (quiet_unsubscribeTopic t) fun _ => within_pure _
  refine ⟨⟨h.globals, ?_, ?_⟩, fun _ => ⟨rfl, rfl⟩⟩
  · rw [h.topics]
    rfl
  · rw [h.ids]
    exact eraseAll_empty _

theorem quiet_discardJob (rt : Runtime) (j : String) : Within Quiet (discardJob rt j) :=
  Within.bind within_get fun _ =>
    Within.bind (within_modify fun _ => Quiet.of_same rfl rfl rfl rfl rfl) fun _ =>
      Within.bind (within_forM fun t _ => quiet_dropTopic t) fun _ =>
        within_modify fun _ => Quiet.of_same rfl rfl rfl rfl rfl

/-- A status that a cleared tracker accepts is submitted to nobody. -/
theorem quiet_accept (rt : Runtime) (m : StatusMessage) (f : FutureRef) (s : JobTracker) :
    Quiet s (s.accept rt m f) := by
  intro h
  have hlisteners : ∀ m t, listenerTasks rt m t s = [] := by
    intro m t
    unfold listenerTasks
    rw [h.topics]
    rfl
  have hglobal : ∀ m j slurm, globalTasks rt m j slurm s = [] := by
    intro m j slurm
    unfold globalTasks
    rw [h.globals]
    rfl
  refine ⟨⟨h.globals, h.topics, h.ids⟩, fun _ => ⟨rfl, ?_⟩⟩
  unfold accept
  simp only [hlisteners, hglobal, List.append_nil]

theorem quiet_applyStatus (rt : Runtime) (m : StatusMessage) (f : FutureRef) : Within Quiet (applyStatus rt m f) := by
  intro s
  cases hd : (s.futures f).done with
  | true =>
    rw [after, exec_applyStatus_done rt m f hd]
    exact refl s
  | false =>
    cases ht : (decoded rt m).terminal with
    | false =>
      rw [after, exec_applyStatus_running rt m f hd ht]
      exact quiet_accept rt m f s
    | true =>
      rw [after, exec_applyStatus_terminal rt m f hd ht]
      exact IsTrans.trans _ _ _ (quiet_accept rt m f s) (quiet_discardJob rt _ _)

theorem quiet_removeSubscriptionsForJob (rt : Runtime) (j : String) (skip : Bool) :
    Within Quiet (removeSubscriptionsForJob rt j skip) := by
  refine Within.bind within_get fun s => ?_
  split
  · split
    · exact quiet_applyStatus rt _ _
    · exact quiet_discardJob rt j
  · exact quiet_discardJob rt j

theorem quiet_removeId (i : SubId) : Within Quiet (removeId i) := by
  refine Within.bind within_get fun s => ?_
  split
  · refine within_modify fun s h => ⟨⟨?_, h.topics, h.ids⟩, fun _ => ⟨rfl, rfl⟩⟩
    rw [h.globals]
    rfl
  · split
    · exact within_pure _
    · refine Within.bind (within_modify fun s h => ⟨⟨h.globals, ?_, ?_⟩, fun _ => ⟨rfl, rfl⟩⟩) fun _ =>
        Within.bind (quiet_unsubscribe i) fun _ => ?_
      · rw [h.topics]
        rfl
      · rw [h.ids]
        rfl
      · split
        · exact within_pure _
        · refine Within.bind (within_modify fun s h => ⟨⟨h.globals, ?_, h.ids⟩, fun _ => ⟨rfl, rfl⟩⟩) fun _ => ?_
          · rw [h.topics]
            rfl
          · split
            · exact within_pure _
            · exact within_modify fun _ => Quiet.of_same rfl rfl rfl rfl rfl

theorem quiet_removeSubscriptionById (ids : List SubId) : Within Quiet (removeSubscriptionById ids) :=
  within_forM fun i _ => quiet_removeId i

theorem quiet_removeSubscriptionByTopic (t : Topic) : Within Quiet (removeSubscriptionByTopic t) := by
  refine Within.bind within_get fun s => Within.bind (within_modify fun s h => ?_) fun _ =>
    Within.bind (within_modify fun s' => ?_) fun _ => Within.bind (quiet_unsubscribeTopic t) fun _ => within_pure _
  · refine ⟨⟨h.globals, ?_, h.ids⟩, fun _ => ⟨rfl, rfl⟩⟩
    rw [h.topics]
    rfl
  · generalize ((s.subscriptionsByTopic.get? t).getD ∅).entries = l
    induction l generalizing s' with
    | nil => exact refl s'
    | cons e l ih =>
      have hstep : Quiet s' { s' with
          topicBySubscriptionId := s'.topicBySubscriptionId.erase e.1
          activeSubscriptions :=
            s'.activeSubscriptions.set e.2.jobId (discardTopic t (s'.activeTopics e.2.jobId)) } := by
        refine fun h => ⟨⟨h.globals, h.topics, ?_⟩, fun _ => ⟨rfl, rfl⟩⟩
        show s'.topicBySubscriptionId.erase e.1 = ∅
        rw [h.ids]
        rfl
      exact IsTrans.trans _ _ _ hstep (ih _)

theorem quiet_beginSchedulerCheck (rt : Runtime) (j : String) : Within Quiet (beginSchedulerCheck rt j) := by
  refine Within.bind within_get fun s => ?_
  split
  · exact within_pure _
  · split
    · exact within_pure _
    · refine Within.bind (within_modify fun s h => ⟨⟨h.globals, ?_, h.ids⟩, fun _ => ⟨rfl, rfl⟩⟩) fun _ => within_pure _
      rw [h.topics]
      rfl

/-! ## Deliveries to a cleared tracker -/

theorem cleared_of_quiet {x : Program PyError JobTracker α} (hx : Within Quiet x) : Keeps Cleared x :=
  fun s h => (hx s h).1

theorem cleared_dispatchGlobal (rt : Runtime) (m : SlurmMessage) (j : String) (slurm : Option String) :
    Keeps Cleared (dispatchGlobal rt m j slurm) :=
  within_modify fun _ h => ⟨h.globals, h.topics, h.ids⟩

theorem cleared_deliver (rt : Runtime) (m : SlurmMessage) (sub : Subscription ClientCallback) :
    Keeps Cleared (deliver rt m sub) := by
  unfold deliver
  cases sub.callback with
  | ignoreStatus => exact within_pure _
  | dispatch d => exact within_modify fun _ h => ⟨h.globals, h.topics, h.ids⟩
  | log j slurm => exact cleared_dispatchGlobal rt m j (some slurm)
  | heartbeat j slurm =>
    refine Within.bind (within_modify fun s h => ⟨h.globals, ?_, h.ids⟩) fun _ => cleared_dispatchGlobal rt _ j (some slurm)
    rw [h.topics]
    rfl
  | event f =>
    cases m with
    | heartbeat _ => exact within_pure _
    | log _ => exact within_pure _
    | status m =>
      exact Within.bind within_get fun s =>
        within_tryCatch (cleared_of_quiet (quiet_applyStatus rt _ f)) fun _ => within_pure _

theorem cleared_dispatchMessage (rt : Runtime) (t : Topic) (m : SlurmMessage) :
    Keeps Cleared (dispatchMessage rt t m) :=
  Within.bind within_get fun _ => within_forM fun sub _ => cleared_deliver rt m sub

end Programs

end JobTracker

/-! ## Steps of a session that registers nothing -/

namespace Session

variable {s s' : Session} {l : Label}

/-- No call is in the middle of a registration. -/
def NoneRegistering (s : Session) : Prop := ∀ n, (s.calls n).registering = false

theorem noneRegistering_goto {t : JobTracker} {n : ℕ} {call : Call} (h : s.NoneRegistering) (hc : call.registering = false) :
    ({ s with tracker := t }.goto n call).NoneRegistering := by
  intro m
  show (Function.update s.calls n call m).registering = false
  by_cases hm : m = n
  · rw [hm, Function.update_self]
    exact hc
  · rw [Function.update_of_ne hm]
    exact h m

/-- **What a step does that begins no registration, when none is under way.** -/
inductive Unregistering (s : Session) (l : Label) (s' : Session) : Prop
  | quiet {α : Type} (x : Program PyError JobTracker α) (hx : Within Quiet x)
    (ht : s'.tracker = x.after s.tracker) (hc : s'.captured = s.captured)
  | listener (hl : Closing.ofListener l.act = true) (ht : s.tracker.Cleared → s'.tracker.Cleared)

theorem Steps.unregistering (hs : Steps s l s') (hr : l.act.registers = false) (h : s.NoneRegistering) :
    s'.NoneRegistering ∧ Unregistering s l s' := by
  obtain ⟨rt, act⟩ := l
  unfold Steps step at hs
  cases act with
  | track f => contradiction
  | addSubscription a => contradiction
  | listenGlobal e cb => contradiction
  | startTrack n f => contradiction
  | startAdd n a => contradiction
  | applyStatus m f =>
    obtain rfl := Option.some.inj hs
    exact ⟨h, .quiet _ (quiet_applyStatus rt m f) rfl rfl⟩
  | removeSubscriptionById ids =>
    obtain rfl := Option.some.inj hs
    exact ⟨h, .quiet _ (quiet_removeSubscriptionById ids) rfl rfl⟩
  | removeSubscriptionByTopic t =>
    obtain rfl := Option.some.inj hs
    exact ⟨fun n => (Call.registering_overtake _ _ _).trans (h n), .quiet _ (quiet_removeSubscriptionByTopic t) rfl rfl⟩
  | removeSubscriptionsForJob j skip =>
    obtain rfl := Option.some.inj hs
    exact ⟨h, .quiet _ (quiet_removeSubscriptionsForJob rt j skip) rfl rfl⟩
  | beginSchedulerCheck j =>
    obtain rfl := Option.some.inj hs
    exact ⟨h, .quiet _ (quiet_beginSchedulerCheck rt j) rfl rfl⟩
  | dispatchMessage t m =>
    obtain rfl := Option.some.inj hs
    exact ⟨h, .listener rfl (cleared_dispatchMessage rt t m s.tracker)⟩
  | startCancel n j =>
    simp only at hs
    split at hs
    · obtain rfl := Option.some.inj hs
      exact ⟨noneRegistering_goto h rfl, .quiet (pure () : Program PyError JobTracker Unit) (within_pure ()) rfl rfl⟩
    · contradiction
  | startCheck n j =>
    simp only at hs
    split at hs
    · have hq : ∀ r t call, (beginSchedulerCheck rt j).exec s.tracker = (r, t) →
          Unregistering s ⟨rt, .startCheck n j⟩ ({ s with tracker := t }.goto n call) := fun r t call he =>
        .quiet _ (quiet_beginSchedulerCheck rt j) (by rw [after, he]; rfl) rfl
      split at hs <;> (obtain rfl := Option.some.inj hs; exact ⟨noneRegistering_goto h rfl, hq _ _ _ ‹_›⟩)
    · contradiction
  | proceed n =>
    have hn := h n
    simp only [proceed] at hs
    split at hs <;> simp_all [Call.registering]
  | cancelled n rest =>
    simp only at hs
    split at hs
    · split at hs
      · obtain rfl := Option.some.inj hs
        exact ⟨noneRegistering_goto h rfl, .quiet (pure () : Program PyError JobTracker Unit) (within_pure ()) rfl rfl⟩
      · obtain rfl := Option.some.inj hs
        exact ⟨noneRegistering_goto h rfl, .quiet (pure () : Program PyError JobTracker Unit) (within_pure ()) rfl rfl⟩
      · obtain rfl := Option.some.inj hs
        exact ⟨noneRegistering_goto h rfl, .quiet _ (quiet_applyStatus rt _ _) rfl rfl⟩
    · contradiction
  | checked n verdict =>
    simp only at hs
    split at hs
    · split at hs
      · obtain rfl := Option.some.inj hs
        exact ⟨noneRegistering_goto h rfl, .quiet (pure () : Program PyError JobTracker Unit) (within_pure ()) rfl rfl⟩
      · obtain rfl := Option.some.inj hs
        exact ⟨noneRegistering_goto h rfl, .quiet _ (quiet_applyStatus rt _ _) rfl rfl⟩
    · contradiction
  | poll t m =>
    simp only at hs
    split at hs
    · obtain rfl := Option.some.inj hs
      exact ⟨h, .listener rfl id⟩
    · contradiction
  | deliver =>
    simp only at hs
    split at hs
    · contradiction
    · obtain rfl := Option.some.inj hs
      exact ⟨h, .listener rfl (cleared_deliver rt _ _ s.tracker)⟩

end Session

/-! ## The order of the sections -/

/-- How far the call of `shutdown` has come. -/
def Closing.Stage.rank : Closing.Stage → ℕ
  | .idle | .raised | .joiningMonitor => 0
  | .clearing => 1
  | .stoppingListener => 2
  | .joiningListener => 3
  | .dropping => 4
  | .disconnecting => 5
  | .closingExecutor => 6
  | .draining => 7
  | .returned => 8

namespace Closing

variable {ρ : Type} {str : Json → String} {client : RestClient ρ} {c c' : Closing ρ} {l : Label ρ}

/-- What the flags say about each other. -/
structure Ordered (c : Closing ρ) : Prop where
  joined : 1 ≤ c.stage.rank → c.monitor.alive = false
  cleared : 2 ≤ c.stage.rank → c.cleared = true
  listener : 4 ≤ c.stage.rank → c.late = false → c.listener = false
  dropped : 5 ≤ c.stage.rank → c.dropped = true
  running : c.monitor.alive = true → c.cleared = false
  raised : c.stage = .raised → c.cleared = false
  stopped : c.stopListener = true → c.cleared = true
  ended : c.listener = false → c.stopListener = true
  dropping : c.dropped = true → c.cleared = true ∧ (c.late = false → c.listener = false)
  disconnected : c.connected = false → c.dropped = true
  closed : c.accepting = false → c.dropped = true

/-- The monitor thread does not come back. -/
theorem alive_of_step {m m' : Monitor ρ} {l : Monitor.Label ρ} (hs : m.step str client l = some m')
    (hm : m.alive = false) : m'.alive = false ∧
      ((∃ l', l = .other l' ∧ m.session.step l' = some m'.session) ∨ m'.session = m.session) := by
  have hplace : ∀ p, m.place = p → p = .ended ∨ ∃ e, p = .died e := by
    rintro p rfl
    unfold Monitor.alive at hm
    cases hp : m.place <;> simp only [hp] at hm <;> first | contradiction | simp
  cases (show m.Steps str client l m' from hs).turn with
  | other hstep => exact ⟨hm, Or.inl ⟨_, rfl, hstep⟩⟩
  | service rest => exact ⟨hm, Or.inr rfl⟩
  | stop => exact ⟨hm, Or.inr rfl⟩
  | found hask | raised hask =>
    cases hask with
    | controller hp => simpa using hplace _ hp
    | accounting hp => simpa using hplace _ hp
  | unknown hask | unrecorded hask =>
    cases hask with
    | _ hp => simpa using hplace _ hp
  | wake hp | select hp | swept hp | begun hp | skipped hp | lapsed hp | resolved hp => simpa using hplace _ hp

theorem Ordered.next (h : c.Ordered) (hs : c.next = some c') : c'.Ordered := by
  unfold Closing.next at hs
  cases hstage : c.stage <;> simp only [hstage] at hs
  case idle => contradiction
  case returned => contradiction
  case raised => contradiction
  case joiningMonitor =>
    obtain rfl := Option.some.inj hs
    cases halive : c.monitor.alive with
    | true =>
      exact ⟨fun hr => absurd (show 1 ≤ 0 from hr) (by decide), fun hr => absurd (show 2 ≤ 0 from hr) (by decide),
        fun hr => absurd (show 4 ≤ 0 from hr) (by decide), fun hr => absurd (show 5 ≤ 0 from hr) (by decide),
        h.running, fun _ => h.running halive, h.stopped, h.ended, h.dropping, h.disconnected, h.closed⟩
    | false =>
      exact ⟨fun _ => halive, fun hr => absurd (show 2 ≤ 1 from hr) (by decide),
        fun hr => absurd (show 4 ≤ 1 from hr) (by decide), fun hr => absurd (show 5 ≤ 1 from hr) (by decide),
        h.running, fun hr => by contradiction, h.stopped, h.ended, h.dropping, h.disconnected, h.closed⟩
  case clearing =>
    obtain rfl := Option.some.inj hs
    have halive : c.monitor.alive = false := h.joined (by rw [hstage]; decide)
    refine ⟨fun _ => halive, fun _ => rfl, fun hr => absurd (show 4 ≤ 2 from hr) (by decide),
      fun hr => absurd (show 5 ≤ 2 from hr) (by decide), fun ha => ?_, fun hr => by contradiction, fun _ => rfl,
      h.ended, fun hd => ⟨rfl, (h.dropping hd).2⟩, h.disconnected, h.closed⟩
    rw [show (c.setTracker c.tracker.clearMaps).monitor.alive = c.monitor.alive from rfl, halive] at ha
    contradiction
  case stoppingListener =>
    obtain rfl := Option.some.inj hs
    have hcleared : c.cleared = true := h.cleared (by rw [hstage]; decide)
    exact ⟨fun _ => h.joined (by rw [hstage]; decide), fun _ => hcleared,
      fun hr => absurd (show 4 ≤ 3 from hr) (by decide), fun hr => absurd (show 5 ≤ 3 from hr) (by decide), h.running,
      fun hr => by contradiction, fun _ => hcleared, fun _ => rfl, h.dropping, h.disconnected, h.closed⟩
  case joiningListener =>
    obtain rfl := Option.some.inj hs
    exact ⟨fun _ => h.joined (by rw [hstage]; decide), fun _ => h.cleared (by rw [hstage]; decide),
      fun _ hl => (Bool.or_eq_false_iff.mp hl).2, fun hr => absurd (show 5 ≤ 4 from hr) (by decide), h.running,
      fun hr => by contradiction, h.stopped, h.ended,
      fun hd => ⟨(h.dropping hd).1, fun hl => (Bool.or_eq_false_iff.mp hl).2⟩, h.disconnected, h.closed⟩
  case dropping =>
    obtain rfl := Option.some.inj hs
    have hcleared : c.cleared = true := h.cleared (by rw [hstage]; decide)
    have hlistener : c.late = false → c.listener = false := h.listener (by rw [hstage]; decide)
    exact ⟨fun _ => h.joined (by rw [hstage]; decide), fun _ => hcleared, fun _ => hlistener, fun _ => rfl, h.running,
      fun hr => by contradiction, h.stopped, h.ended, fun _ => ⟨hcleared, hlistener⟩, fun _ => rfl, fun _ => rfl⟩
  case disconnecting =>
    obtain rfl := Option.some.inj hs
    have hdropped : c.dropped = true := h.dropped (by rw [hstage]; decide)
    exact ⟨fun _ => h.joined (by rw [hstage]; decide), fun _ => h.cleared (by rw [hstage]; decide),
      fun _ => h.listener (by rw [hstage]; decide), fun _ => hdropped, h.running, fun hr => by contradiction,
      h.stopped, h.ended, h.dropping, fun _ => hdropped, h.closed⟩
  case closingExecutor =>
    obtain rfl := Option.some.inj hs
    have hdropped : c.dropped = true := h.dropped (by rw [hstage]; decide)
    exact ⟨fun _ => h.joined (by rw [hstage]; decide), fun _ => h.cleared (by rw [hstage]; decide),
      fun _ => h.listener (by rw [hstage]; decide), fun _ => hdropped, h.running, fun hr => by contradiction,
      h.stopped, h.ended, h.dropping, h.disconnected, fun _ => hdropped⟩
  case draining =>
    split_ifs at hs
    obtain rfl := Option.some.inj hs
    exact ⟨fun _ => h.joined (by rw [hstage]; decide), fun _ => h.cleared (by rw [hstage]; decide),
      fun _ => h.listener (by rw [hstage]; decide), fun _ => h.dropped (by rw [hstage]; decide), h.running,
      fun hr => by contradiction, h.stopped, h.ended, h.dropping, h.disconnected, h.closed⟩

theorem Ordered.step (h : c.Ordered) (hs : Steps str client c l c') : c'.Ordered := by
  unfold Steps Closing.step at hs
  cases l with
  | manager l =>
    simp only at hs
    split_ifs at hs
    obtain ⟨m, hm, rfl⟩ := Option.map_eq_some_iff.mp hs
    have halive : c.monitor.alive = false → (c.went m).monitor.alive = false := fun ha => (alive_of_step hm ha).1
    refine ⟨fun hr => halive (h.joined hr), h.cleared, h.listener, h.dropped, fun ha => ?_, h.raised, h.stopped,
      h.ended, h.dropping, h.disconnected, h.closed⟩
    refine h.running ?_
    by_contra hn
    rw [halive (by simpa using hn)] at ha
    contradiction
  | run i =>
    simp only at hs
    split_ifs at hs
    obtain rfl := Option.some.inj hs
    exact ⟨h.joined, h.cleared, h.listener, h.dropped, h.running, h.raised, h.stopped, h.ended, h.dropping,
      h.disconnected, h.closed⟩
  | call =>
    simp only at hs
    split_ifs at hs
    obtain rfl := Option.some.inj hs
    refine ⟨?_, ?_, ?_, ?_, h.running, ?_, h.stopped, h.ended, h.dropping, h.disconnected, h.closed⟩
    all_goals intro hr; contradiction
  | next => exact h.next hs
  | listenerEnds =>
    simp only at hs
    split_ifs at hs with hg
    obtain rfl := Option.some.inj hs
    exact ⟨h.joined, h.cleared, fun _ _ => rfl, h.dropped, h.running, h.raised, h.stopped, fun _ => hg.1,
      fun hd => ⟨(h.dropping hd).1, fun _ => rfl⟩, h.disconnected, h.closed⟩

/-- Before the maps of the tracker are cleared, nothing is stopped or closed. -/
theorem Ordered.unclosed (h : c.Ordered) (hc : c.cleared = false) :
    c.dropped = false ∧ c.stopListener = false ∧ c.connected = true ∧ c.accepting = true := by
  have hd : c.dropped = false := by
    refine eq_false_of_ne_true fun hd => ?_
    rw [(h.dropping hd).1] at hc
    contradiction
  refine ⟨hd, eq_false_of_ne_true fun hstop => ?_, eq_true_of_ne_false fun hcon => ?_,
    eq_true_of_ne_false fun hacc => ?_⟩
  · rw [h.stopped hstop] at hc
    contradiction
  · rw [h.disconnected hcon] at hd
    contradiction
  · rw [h.closed hacc] at hd
    contradiction

/-! ## What a shutdown guarantees -/

/-- The runs in which no registration overlaps with, or follows, the clearing of the maps. -/
def Orderly (c : Closing ρ) : Label ρ → Prop
  | .manager (.other l) => c.cleared = true → l.act.registers = false
  | .next => c.stage = .clearing → c.session.NoneRegistering
  | _ => True

/-- **What holds in every state of an orderly run.** -/
structure Inv (c : Closing ρ) : Prop where
  ordered : c.Ordered
  cleared : c.cleared = true → c.tracker.Cleared ∧ c.session.NoneRegistering
  captured : c.listener = false → c.session.captured = []
  emptied : c.dropped = true → c.late = false → c.tracker.subClient.Emptied
  once : c.ran.Nodup
  drained : c.stage = .returned → c.late = false → ∀ i < c.tracker.tasks.length, i ∈ c.ran
  unlost : c.late = false → c.lost = false

/-- A step of the threads on cleared maps. -/
theorem Inv.manager (h : c.Inv) (hc : c.cleared = true) {l : Monitor.Label ρ} {m : Monitor ρ}
    (hok : c.Orderly (.manager l)) (ha : c.allows l = true) (hs : c.monitor.step str client l = some m) :
    m.session.tracker.Cleared ∧ m.session.NoneRegistering ∧ (c.listener = false →
      m.session.captured = c.session.captured ∧ (c.tracker.subClient.Emptied →
        m.session.tracker.subClient = c.tracker.subClient ∧ m.session.tracker.tasks = c.tracker.tasks)) := by
  obtain ⟨hcleared, hsettled⟩ := h.cleared hc
  have halive : c.monitor.alive = false := by
    by_contra hn
    rw [h.ordered.running (by simpa using hn)] at hc
    contradiction
  rcases (alive_of_step hs halive).2 with ⟨l', rfl, hstep⟩ | hsame
  · obtain ⟨hset, hun⟩ := Session.Steps.unregistering hstep (hok hc) hsettled
    cases hun with
    | quiet x hx ht hcap =>
      obtain ⟨hcl, hq⟩ := hx c.tracker hcleared
      rw [← show m.session.tracker = x.after c.tracker from ht] at hcl hq
      exact ⟨hcl, hset, fun _ => ⟨hcap, hq⟩⟩
    | listener hl ht =>
      refine ⟨ht hcleared, hset, fun hdead => ?_⟩
      simp [allows, hdead, hl] at ha
  · unfold tracker session at *
    rw [hsame]
    exact ⟨hcleared, hsettled, fun _ => ⟨rfl, fun _ => ⟨rfl, rfl⟩⟩⟩

theorem Inv.next (h : c.Inv) (hord : c'.Ordered) (hok : c.Orderly .next) (hs : c.next = some c') : c'.Inv := by
  unfold Closing.next at hs
  cases hstage : c.stage <;> simp only [hstage] at hs
  case idle => contradiction
  case returned => contradiction
  case raised => contradiction
  case joiningMonitor =>
    obtain rfl := Option.some.inj hs
    refine ⟨hord, h.cleared, h.captured, h.emptied, h.once, fun hst => ?_, h.unlost⟩
    simp only at hst
    split_ifs at hst
  case clearing =>
    obtain rfl := Option.some.inj hs
    exact ⟨hord, fun _ => ⟨⟨rfl, rfl, rfl⟩, hok hstage⟩, h.captured, h.emptied, h.once, fun hst => by contradiction,
      h.unlost⟩
  case stoppingListener =>
    obtain rfl := Option.some.inj hs
    exact ⟨hord, h.cleared, h.captured, h.emptied, h.once, fun hst => by contradiction, h.unlost⟩
  case joiningListener =>
    obtain rfl := Option.some.inj hs
    have hlate : (c.late || c.listener) = false → c.late = false := fun hl => (Bool.or_eq_false_iff.mp hl).1
    exact ⟨hord, h.cleared, h.captured, fun hd hl => h.emptied hd (hlate hl), h.once, fun hst => by contradiction,
      fun hl => h.unlost (hlate hl)⟩
  case dropping =>
    obtain rfl := Option.some.inj hs
    refine ⟨hord, fun hc => ?_, h.captured, fun _ _ => ⟨rfl, rfl⟩, h.once, fun hst => by contradiction, h.unlost⟩
    obtain ⟨hcl, hset⟩ := h.cleared hc
    exact ⟨⟨hcl.globals, hcl.topics, hcl.ids⟩, hset⟩
  case disconnecting =>
    obtain rfl := Option.some.inj hs
    exact ⟨hord, h.cleared, h.captured, h.emptied, h.once, fun hst => by contradiction, h.unlost⟩
  case closingExecutor =>
    obtain rfl := Option.some.inj hs
    exact ⟨hord, h.cleared, h.captured, h.emptied, h.once, fun hst => by contradiction, h.unlost⟩
  case draining =>
    split_ifs at hs with hran
    obtain rfl := Option.some.inj hs
    exact ⟨hord, h.cleared, h.captured, h.emptied, h.once, fun _ _ => hran, h.unlost⟩

theorem Inv.step (h : c.Inv) (hok : c.Orderly l) (hs : Steps str client c l c') : c'.Inv := by
  have hord := h.ordered.step hs
  unfold Steps Closing.step at hs
  cases l with
  | manager l =>
    simp only at hs
    split_ifs at hs with hg
    obtain ⟨hlost, hallow⟩ := not_or.mp hg
    obtain ⟨m, hm, rfl⟩ := Option.map_eq_some_iff.mp hs
    have hman := fun hc => h.manager hc hok (by simpa using hallow) hm
    have hdead : c.dropped = true → c.late = false →
        m.session.tracker.subClient = c.tracker.subClient ∧ m.session.tracker.tasks = c.tracker.tasks := by
      intro hd hl
      obtain ⟨hc, hlis⟩ := h.ordered.dropping hd
      exact ((hman hc).2.2 (hlis hl)).2 (h.emptied hd hl)
    refine ⟨hord, fun hc => ⟨(hman hc).1, (hman hc).2.1⟩, fun hl => ?_, fun hd hl => ?_, h.once, fun hst hl i hi => ?_,
      fun hl => ?_⟩
    · have hc := h.ordered.stopped (h.ordered.ended hl)
      exact ((hman hc).2.2 hl).1.trans (h.captured hl)
    · show m.session.tracker.subClient.Emptied
      rw [(hdead hd hl).1]
      exact h.emptied hd hl
    · have hd : c.dropped = true := h.ordered.dropped (by rw [show c.stage = .returned from hst]; decide)
      have hi : i < m.session.tracker.tasks.length := hi
      rw [(hdead hd hl).2] at hi
      exact h.drained hst hl i hi
    · show ((!c.connected && decide _) || (!c.accepting && decide _)) = false
      cases hcon : c.connected with
      | false =>
        obtain ⟨hsub, htasks⟩ := hdead (h.ordered.disconnected hcon) hl
        simp [hsub, htasks]
      | true =>
        cases hacc : c.accepting with
        | false => simp [(hdead (h.ordered.closed hacc) hl).2]
        | true => rfl
  | run i =>
    simp only at hs
    split_ifs at hs with hg
    obtain rfl := Option.some.inj hs
    refine ⟨hord, h.cleared, h.captured, h.emptied, ?_, fun hst hl k hk => ?_, h.unlost⟩
    · exact List.Nodup.append h.once (List.nodup_singleton i) (by simpa using hg.2)
    · exact List.mem_append_left _ (h.drained hst hl k hk)
  | call =>
    simp only at hs
    split_ifs at hs
    obtain rfl := Option.some.inj hs
    exact ⟨hord, h.cleared, h.captured, h.emptied, h.once, fun hst => by contradiction, h.unlost⟩
  | next => exact h.next hord hok hs
  | listenerEnds =>
    simp only at hs
    split_ifs at hs with hg
    obtain rfl := Option.some.inj hs
    exact ⟨hord, h.cleared, fun _ => List.isEmpty_iff.mp hg.2.2, h.emptied, h.once, h.drained, h.unlost⟩

theorem inv_new (m : Monitor ρ) : (new m).Inv :=
  ⟨⟨by simp [new, Stage.rank], by simp [new, Stage.rank], by simp [new, Stage.rank], by simp [new, Stage.rank],
      fun _ => rfl, fun h => by contradiction, fun h => by contradiction, fun h => by contradiction,
      fun h => by contradiction, fun h => by contradiction, fun h => by contradiction⟩,
    fun h => by contradiction, fun h => by contradiction, fun h => by contradiction, List.nodup_nil,
    fun h => by contradiction, fun _ => rfl⟩

/-- **A shutdown drains the callbacks, or closes nothing.**  If the call raises `TimeoutError`, no map was cleared, the
listener thread was not told to stop, and the connection and the executor are open.  If the listener thread ended
within its join, no task is submitted to the closed executor and no command sent over the closed connection, and when
the call has returned the threads have ended and every submitted task has been run, none of them twice. -/
theorem shutdown_drains {m : Monitor ρ} {ls : List (Label ρ)} (hrun : Run (Steps str client) Orderly (new m) ls c) :
    (c.stage = .raised →
      c.cleared = false ∧ c.dropped = false ∧ c.stopListener = false ∧ c.connected = true ∧ c.accepting = true) ∧
    (c.late = false → c.lost = false ∧ (c.stage = .returned →
      c.monitor.alive = false ∧ c.listener = false ∧ c.session.captured = [] ∧
        c.ran.Nodup ∧ ∀ i < c.tracker.tasks.length, i ∈ c.ran)) := by
  have h : c.Inv := hrun.invariant (inv_new m) fun _ _ _ hc hok hs => hc.step hok hs
  have hord := h.ordered
  constructor
  · intro hraised
    have hc := hord.raised hraised
    exact ⟨hc, hord.unclosed hc⟩
  · intro hlate
    refine ⟨h.unlost hlate, fun hret => ?_⟩
    have hrank : c.stage.rank = 8 := by rw [hret]; rfl
    have hlis := hord.listener (by omega) hlate
    exact ⟨hord.joined (by omega), hlis, h.captured hlis, h.once, h.drained hret hlate⟩

/-- A scheduler without a record. -/
def noRecords : RestClient Unit := ⟨fun _ _ => pure [], fun _ => pure (), fun _ => pure (), fun _ _ => pure none⟩

/-- A manager of the jobs `j`, `jj`, … without a scheduler. -/
def idleManager : Monitor Unit where
  session := Session.new (fun _ _ => none) Session.unary
  rest := ()

/-- The job `j` is tracked, one listener waits for its log, and a line has been polled.  A first call of `shutdown`
finds the monitor thread in a sweep, a second one clears the maps of the tracker. -/
def called : List (Label Unit) :=
  [.manager (.other ⟨.still, .track 0⟩), .manager (.other ⟨.still, .addSubscription ⟨"j", .log, 7⟩⟩),
    .manager (.other ⟨.still, .poll "info/j/log" (.log { log := "x" })⟩), .manager (.wake 5), .call, .next,
    .manager .select, .manager (.next .still), .manager (.wake 7), .call, .next, .next]

/-- The captured line is handed over, and the resources are closed. -/
def closed : List (Label Unit) :=
  [.manager (.other ⟨.still, .deliver⟩), .manager (.other ⟨.still, .deliver⟩), .next, .listenerEnds, .next, .next,
    .next, .next, .run 0, .next]

/-- Whether a label neither registers nor clears. -/
def plain (c : Closing Unit) (l : Label Unit) : Bool :=
  match l with
  | .manager (.other l) => !l.act.registers
  | .next => c.stage ≠ .clearing
  | _ => true

theorem orderly_of_plain (c : Closing Unit) (l : Label Unit) (h : plain c l = true) : c.Orderly l := by
  cases l with
  | manager l =>
    cases l with
    | other l => exact fun _ => by simpa [plain] using h
    | _ => trivial
  | next => exact fun hc => by simp [plain, hc] at h
  | _ => trivial

/-- The run of the two calls. -/
theorem run_of_calls : ∃ c : Closing Unit,
    Run (Steps (fun _ => "") noRecords) Orderly (new idleManager) (called ++ closed) c ∧
    c.stage = .returned ∧ c.late = false ∧ c.tracker.tasks.length = 1 := by
  have hcalled : ∃ c : Closing Unit, Run (Steps (fun _ => "") noRecords) Orderly (new idleManager) called c ∧
      ∃ c', Run (Steps (fun _ => "") noRecords) Orderly c closed c' ∧
        (c'.stage = .returned && !c'.late && c'.tracker.tasks.length == 1) = true := by
    refine ⟨_, Run.cons (fun h => by contradiction) rfl (Run.cons (fun h => by contradiction) rfl
      (Run.cons (fun h => by contradiction) rfl (Run.cons trivial rfl (Run.cons trivial rfl
      (Run.cons (fun h => by contradiction) rfl (Run.cons trivial rfl (Run.cons trivial rfl (Run.cons trivial rfl
      (Run.cons trivial rfl (Run.cons (fun h => by contradiction) rfl
      (Run.single (fun _ _ => rfl) rfl))))))))))), ?_⟩
    exact Run.of_leads (fun _ _ _ => id) orderly_of_plain (by decide +kernel)
  obtain ⟨c, hrun, c', hrun', hq⟩ := hcalled
  simp only [Bool.and_eq_true, decide_eq_true_eq, Bool.not_eq_true', beq_iff_eq] at hq
  exact ⟨c', hrun.append hrun', hq.1.1, hq.1.2, hq.2⟩

/-- The line is handed over, and its task run, before `shutdown` returns. -/
theorem shutdown_drains_of_line : ∃ c : Closing Unit, c.stage = .returned ∧ c.lost = false ∧
    c.tracker.tasks.length = 1 ∧ c.ran.Nodup ∧ ∀ i < c.tracker.tasks.length, i ∈ c.ran := by
  obtain ⟨c, hrun, hstage, hlate, htasks⟩ := run_of_calls
  obtain ⟨-, hend⟩ := shutdown_drains hrun
  obtain ⟨hlost, hret⟩ := hend hlate
  obtain ⟨-, -, -, hnodup, hall⟩ := hret hstage
  exact ⟨c, hstage, hlost, htasks, hnodup, hall⟩

end Closing

end SlurmManager
