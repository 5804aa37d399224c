import SlurmManager.Lib.Locks
import Mathlib.Order.Nat
import Mathlib.Tactic.Common

/-!
# LockOrder — which locks every operation takes

The operations of `slurm_manager.py`, `job_tracker.py`, `job_future.py` and `redis_sub_client.py`, the turns of the
listener thread and of the monitor, reduced to what they do with the tracker's lock, the client's lock and the
locks of the futures.  `φ` are the futures.  Calls of user callbacks are not here: the executor runs them on
threads of its own, which hold no lock and are threads like all others.

* One definition for each function of the source that takes a lock, under its name.
* `Operation`: what a thread can run.
* `no_lock_cycle`: the tracker's lock comes first, and neither of the others is taken under the other.
-/

namespace SlurmManager.Locking

open LockCode

inductive Lock (φ : Type)
  | tracker
  | client
  | future (f : φ)
  deriving DecidableEq

variable {φ : Type}

/-- What the operations do with the locks; `any` stands for a future found in the registry. -/
abbrev Code (φ : Type) := LockCode (Lock φ) φ

/-- `with self._lock:` of the tracker. -/
def tracked (body : Code φ) : Code φ := .withLock .tracker body

/-- `with self._lock:` of the client. -/
def served (body : Code φ) : Code φ := .withLock .client body

/-- `with self._lock:` of a future. -/
def owned (f : φ) (body : Code φ) : Code φ := .withLock (.future f) body

/-- One statement after the other. -/
def block (ps : List (Code φ)) : Code φ := ps.foldr .seq .plain

/-- `if`, or a `return` under a condition: the rest is skipped. -/
def optional (p : Code φ) : Code φ := .either .plain p

/-! ## The client -/

namespace RedisSubClient

def registeredTopics : Code φ := served .plain

/-- `subscribe`; starting the listener thread takes no lock. -/
def subscribe : Code φ := block [.plain, served .plain]

def unsubscribe : Code φ := served .plain

def unsubscribeTopic : Code φ := served .plain

def waitUntilSubscribed : Code φ := block [.plain, served .plain, .many .plain]

def shutdown : Code φ := block [.plain, served .plain, .plain]

end RedisSubClient

/-! ## The future's own part -/

namespace JobFuture

def removeCallback (f : φ) : Code φ := owned f (.many .plain)

def updateStatus (f : φ) : Code φ := owned f .plain

end JobFuture

/-! ## The tracker -/

namespace JobTracker

def dispatchGlobal : Code φ := tracked (.many .plain)

def registerSubscriptionForJob : Code φ := tracked .plain

def removeJobFuture : Code φ := tracked .plain

/-- The tail of `remove_subscriptions_for_job`. -/
def discardJob : Code φ := block [.plain, .many (block [.plain, RedisSubClient.unsubscribeTopic]), removeJobFuture]

/-- `apply_status`; its `remove_subscriptions_for_job(skip_event_callback=True)` goes straight to the tail. -/
def applyStatus (f : φ) : Code φ :=
  block [.plain, tracked (optional (block [.plain, JobFuture.updateStatus f, .many .plain, dispatchGlobal,
    optional (tracked discardJob)]))]

def removeSubscriptionsForJob : Code φ := tracked (.either (.any applyStatus) discardJob)

def getFuture : Code φ := tracked .plain

def waitUntilReady : Code φ := block [tracked .plain, RedisSubClient.waitUntilSubscribed]

def beginSchedulerCheck : Code φ := tracked (.many .plain)

def getMissingHeartbeats : Code φ := block [.plain, tracked (.many .plain)]

/-- `_subscribe_to_heartbeat`, `_subscribe_to_event` and `_subscribe_to_log`. -/
def subscribeInternal : Code φ := block [.plain, RedisSubClient.subscribe, .plain, registerSubscriptionForJob]

def track : Code φ := block [tracked .plain, subscribeInternal, subscribeInternal, subscribeInternal]

def addSubscription : Code φ :=
  block [.plain, tracked .plain, .plain, RedisSubClient.subscribe,
    tracked (.either (block [RedisSubClient.unsubscribe, .raise]) (block [.plain, registerSubscriptionForJob]))]

def removeSubscriptionById : Code φ :=
  tracked (.many (block [.plain, optional (block [RedisSubClient.unsubscribe, .plain])]))

def removeSubscriptionByTopic : Code φ := tracked (block [.many .plain, RedisSubClient.unsubscribeTopic])

def shutdown : Code φ := block [tracked .plain, RedisSubClient.shutdown, .plain]

/-- The `wrapped_callback` of `_subscribe_to_heartbeat` with `_heartbeat_callback`. -/
def heartbeatCallback : Code φ := .attempt (block [.plain, tracked (block [.plain, dispatchGlobal])]) .plain

/-- The `wrapped_callback` of `_subscribe_to_event`. -/
def eventCallback (f : φ) : Code φ := .attempt (block [.plain, applyStatus f]) .plain

end JobTracker

/-! ## The public side of a future -/

namespace JobFuture

def listen (f : φ) : Code φ := block [JobTracker.addSubscription, owned f .plain]

def unlisten (f : φ) : Code φ := block [removeCallback f, optional JobTracker.removeSubscriptionById]

end JobFuture

def JobTracker.listen : Code φ := block [.plain, tracked .plain, optional (.any JobFuture.listen)]

/-! ## The manager -/

namespace Manager

def submitJob (f : φ) : Code φ :=
  block [.plain,
    .attempt
      (block [JobTracker.track, .many (JobFuture.listen f), JobTracker.waitUntilReady, .plain])
      (block [.attempt .plain .plain, JobTracker.applyStatus f, .raise])]

def cancelJob : Code φ := block [JobTracker.getFuture, .plain, optional (.any JobTracker.applyStatus)]

def shutdown : Code φ := block [.plain, JobTracker.shutdown]

def checkSlurmJob : Code φ := block [JobTracker.beginSchedulerCheck, optional (.any JobTracker.applyStatus)]

/-- A sweep of `_heartbeat_monitoring_loop`. -/
def monitorSweep : Code φ := block [.plain, JobTracker.getMissingHeartbeats, .many checkSlurmJob]

end Manager

/-- The callbacks that the tracker registers in the client. -/
def listenerCallback : Code φ :=
  .either .plain (.either JobTracker.dispatchGlobal (.either JobTracker.heartbeatCallback (.any JobTracker.eventCallback)))

/-- A turn of `_listener_loop`. -/
def listenerTurn : Code φ :=
  block [.attempt (block [served .plain, .plain]) .plain,
    .either (served .plain) (optional (block [.plain, served .plain, .many (.attempt listenerCallback .plain)]))]

/-! ## Operations -/

/-- What a thread can run.  The properties of a future, `wait` and the constructors take no lock. -/
inductive Operation (φ : Type)
  | registeredTopics | subscribe | unsubscribe | unsubscribeTopic | waitUntilSubscribed | clientShutdown
  | track | getFuture | waitUntilReady | beginSchedulerCheck | applyStatus (f : φ) | getMissingHeartbeats
  | trackerListen | addSubscription | removeSubscriptionById | removeSubscriptionByTopic | removeSubscriptionsForJob
  | trackerShutdown
  | listen (f : φ) | unlisten (f : φ)
  | submitJob (f : φ) | cancelJob | managerShutdown
  | monitorSweep | listenerTurn
  | lockFree

def Operation.code : Operation φ → Code φ
  | .registeredTopics => RedisSubClient.registeredTopics
  | .subscribe => RedisSubClient.subscribe
  | .unsubscribe => RedisSubClient.unsubscribe
  | .unsubscribeTopic => RedisSubClient.unsubscribeTopic
  | .waitUntilSubscribed => RedisSubClient.waitUntilSubscribed
  | .clientShutdown => RedisSubClient.shutdown
  | .track => JobTracker.track
  | .getFuture => JobTracker.getFuture
  | .waitUntilReady => JobTracker.waitUntilReady
  | .beginSchedulerCheck => JobTracker.beginSchedulerCheck
  | .applyStatus f => JobTracker.applyStatus f
  | .getMissingHeartbeats => JobTracker.getMissingHeartbeats
  | .trackerListen => JobTracker.listen
  | .addSubscription => JobTracker.addSubscription
  | .removeSubscriptionById => JobTracker.removeSubscriptionById
  | .removeSubscriptionByTopic => JobTracker.removeSubscriptionByTopic
  | .removeSubscriptionsForJob => JobTracker.removeSubscriptionsForJob
  | .trackerShutdown => JobTracker.shutdown
  | .listen f => JobFuture.listen f
  | .unlisten f => JobFuture.unlisten f
  | .submitJob f => Manager.submitJob f
  | .cancelJob => Manager.cancelJob
  | .managerShutdown => Manager.shutdown
  | .monitorSweep => Manager.monitorSweep
  | .listenerTurn => Locking.listenerTurn
  | .lockFree => .plain

/-- The tracker's lock before all others. -/
def rank : Lock φ → ℕ
  | .tracker => 0
  | .client => 1
  | .future _ => 1

/-! ## The order -/

section Order

variable {held : List (Lock φ)}

/-- Nothing but the tracker's lock is held. -/
def Early (held : List (Lock φ)) : Prop := ∀ l ∈ held, l = .tracker

theorem Early.nil : Early ([] : List (Lock φ)) := fun _ h => absurd h List.not_mem_nil

theorem Early.tracker (h : Early held) : Early (.tracker :: held) := by
  intro l hl
  rcases List.mem_cons.mp hl with rfl | hl
  · rfl
  · exact h l hl

theorem Early.fits (h : Early held) (l : Lock φ) : Fits rank held l := by
  cases l with
  | tracker =>
    cases held with
    | nil => exact .inr fun k hk => absurd hk List.not_mem_nil
    | cons k _ => exact .inl (by rw [h k List.mem_cons_self]; exact List.mem_cons_self)
  | client =>
    refine .inr fun k hk => ?_
    rw [h k hk]
    exact Nat.one_pos
  | future f =>
    refine .inr fun k hk => ?_
    rw [h k hk]
    exact Nat.one_pos

/-- A block of the tracker is in order if its body is. -/
theorem ordered_tracked (h : Early held) {body : Code φ} (hbody : ∀ held', Early held' → body.Ordered rank held') :
    (tracked body).Ordered rank held := ⟨h.fits _, hbody _ h.tracker⟩

@[simp] theorem ordered_plain : (LockCode.plain : Code φ).Ordered rank held := trivial

@[simp] theorem ordered_raise : (LockCode.raise : Code φ).Ordered rank held := trivial

@[simp] theorem ordered_block_nil : (block ([] : List (Code φ))).Ordered rank held := trivial

@[simp] theorem ordered_block_cons {p : Code φ} {ps : List (Code φ)} :
    (block (p :: ps)).Ordered rank held ↔ p.Ordered rank held ∧ (block ps).Ordered rank held := Iff.rfl

@[simp] theorem ordered_optional {p : Code φ} : (optional p).Ordered rank held ↔ p.Ordered rank held :=
  ⟨And.right, And.intro trivial⟩

@[simp] theorem ordered_either {p q : Code φ} :
    (LockCode.either p q).Ordered rank held ↔ p.Ordered rank held ∧ q.Ordered rank held := Iff.rfl

@[simp] theorem ordered_many {p : Code φ} : (LockCode.many p).Ordered rank held ↔ p.Ordered rank held := Iff.rfl

@[simp] theorem ordered_attempt {p q : Code φ} :
    (LockCode.attempt p q).Ordered rank held ↔ p.Ordered rank held ∧ q.Ordered rank held := Iff.rfl

@[simp] theorem ordered_any {p : φ → Code φ} : (LockCode.any p).Ordered rank held ↔ ∀ f, (p f).Ordered rank held :=
  Iff.rfl

variable (h : Early held)
include h

theorem ordered_served : (served .plain : Code φ).Ordered rank held := ⟨h.fits _, trivial⟩

theorem ordered_owned (f : φ) : (owned f .plain).Ordered rank held ∧ (owned f (.many .plain)).Ordered rank held :=
  ⟨⟨h.fits _, trivial⟩, h.fits _, trivial⟩

theorem ordered_tracked_plain : (tracked .plain : Code φ).Ordered rank held ∧ (tracked (.many .plain) : Code φ).Ordered rank held :=
  ⟨⟨h.fits _, trivial⟩, h.fits _, trivial⟩

theorem ordered_discardJob : (JobTracker.discardJob : Code φ).Ordered rank held := by
  simp [JobTracker.discardJob, JobTracker.removeJobFuture, RedisSubClient.unsubscribeTopic, ordered_served h,
    ordered_tracked_plain h]

theorem ordered_applyStatus (f : φ) : (JobTracker.applyStatus f).Ordered rank held := by
  have hbody : ∀ held', Early held' → (optional (block [.plain, JobFuture.updateStatus f, .many .plain,
      JobTracker.dispatchGlobal, optional (tracked JobTracker.discardJob)])).Ordered rank held' := by
    intro held' h'
    have hdiscard := ordered_tracked h' fun _ h'' => ordered_discardJob h''
    simp [JobFuture.updateStatus, JobTracker.dispatchGlobal, ordered_owned h', ordered_tracked_plain h', hdiscard]
  simp [JobTracker.applyStatus, ordered_tracked h hbody]

theorem ordered_subscribe : (RedisSubClient.subscribe : Code φ).Ordered rank held := by
  simp [RedisSubClient.subscribe, ordered_served h]

theorem ordered_addSubscription : (JobTracker.addSubscription : Code φ).Ordered rank held := by
  have hbody : ∀ held', Early held' → (LockCode.either (block [RedisSubClient.unsubscribe, .raise])
      (block [.plain, JobTracker.registerSubscriptionForJob]) : Code φ).Ordered rank held' := by
    intro held' h'
    simp [RedisSubClient.unsubscribe, JobTracker.registerSubscriptionForJob, ordered_served h', ordered_tracked_plain h']
  simp [JobTracker.addSubscription, ordered_tracked_plain h, ordered_subscribe h, ordered_tracked h hbody]

theorem ordered_removeSubscriptionById : (JobTracker.removeSubscriptionById : Code φ).Ordered rank held := by
  refine ordered_tracked h fun held' h' => ?_
  simp [RedisSubClient.unsubscribe, ordered_served h']

theorem ordered_listen (f : φ) : (JobFuture.listen f).Ordered rank held := by
  simp [JobFuture.listen, ordered_addSubscription h, ordered_owned h]

theorem ordered_track : (JobTracker.track : Code φ).Ordered rank held := by
  simp [JobTracker.track, JobTracker.subscribeInternal, JobTracker.registerSubscriptionForJob, ordered_subscribe h,
    ordered_tracked_plain h]

theorem ordered_waitUntilReady : (JobTracker.waitUntilReady : Code φ).Ordered rank held := by
  simp [JobTracker.waitUntilReady, RedisSubClient.waitUntilSubscribed, ordered_served h, ordered_tracked_plain h]

theorem ordered_shutdown : (JobTracker.shutdown : Code φ).Ordered rank held := by
  simp [JobTracker.shutdown, RedisSubClient.shutdown, ordered_served h, ordered_tracked_plain h]

theorem ordered_listenerTurn : (listenerTurn : Code φ).Ordered rank held := by
  have hdispatch : (JobTracker.dispatchGlobal : Code φ).Ordered rank held := (ordered_tracked_plain h).2
  have hheartbeat : (tracked (block [.plain, JobTracker.dispatchGlobal]) : Code φ).Ordered rank held := by
    refine ordered_tracked h fun held' h' => ?_
    simp [JobTracker.dispatchGlobal, ordered_tracked_plain h']
  simp [listenerTurn, listenerCallback, JobTracker.heartbeatCallback, JobTracker.eventCallback, ordered_served h,
    hdispatch, hheartbeat, ordered_applyStatus h]

omit h

/-- Every operation keeps to the order. -/
theorem ordered_operation (op : Operation φ) : op.code.Ordered rank [] := by
  have h : Early ([] : List (Lock φ)) := Early.nil
  have hserved := ordered_served h
  have htracked := ordered_tracked_plain h
  cases op with
  | registeredTopics => exact hserved
  | subscribe => exact ordered_subscribe h
  | unsubscribe => exact hserved
  | unsubscribeTopic => exact hserved
  | waitUntilSubscribed => simp [Operation.code, RedisSubClient.waitUntilSubscribed, hserved]
  | clientShutdown => simp [Operation.code, RedisSubClient.shutdown, hserved]
  | track => exact ordered_track h
  | getFuture => exact htracked.1
  | waitUntilReady => exact ordered_waitUntilReady h
  | beginSchedulerCheck => exact htracked.2
  | applyStatus f => exact ordered_applyStatus h f
  | getMissingHeartbeats => simp [Operation.code, JobTracker.getMissingHeartbeats, htracked]
  | trackerListen => simp [Operation.code, JobTracker.listen, htracked, ordered_listen h]
  | addSubscription => exact ordered_addSubscription h
  | removeSubscriptionById => exact ordered_removeSubscriptionById h
  | removeSubscriptionByTopic =>
    refine ordered_tracked h fun held' h' => ?_
    simp [RedisSubClient.unsubscribeTopic, ordered_served h']
  | removeSubscriptionsForJob =>
    refine ordered_tracked h fun held' h' => ?_
    simp [ordered_applyStatus h', ordered_discardJob h']
  | trackerShutdown => exact ordered_shutdown h
  | listen f => exact ordered_listen h f
  | unlisten f =>
    simp [Operation.code, JobFuture.unlisten, JobFuture.removeCallback, ordered_owned h, ordered_removeSubscriptionById h]
  | submitJob f =>
    simp [Operation.code, Manager.submitJob, ordered_track h, ordered_listen h, ordered_waitUntilReady h,
      ordered_applyStatus h]
  | cancelJob => simp [Operation.code, Manager.cancelJob, JobTracker.getFuture, htracked, ordered_applyStatus h]
  | managerShutdown => simp [Operation.code, Manager.shutdown, ordered_shutdown h]
  | monitorSweep =>
    simp [Operation.code, Manager.monitorSweep, Manager.checkSlurmJob, JobTracker.getMissingHeartbeats,
      JobTracker.beginSchedulerCheck, htracked, ordered_applyStatus h]
  | listenerTurn => exact ordered_listenerTurn h
  | lockFree => trivial

end Order

/-- **No lock cycle.**  However many threads run however many of the operations over however many jobs, no threads
wait for each other in a cycle. -/
theorem no_lock_cycle {θ : Type} [DecidableEq θ] [DecidableEq φ] {ls : List θ} {s : LockState θ (Lock φ)}
    (hrun : Run (LockState.Step Operation.code) (fun _ _ => True) {} ls s) (n : θ) :
    ¬ Relation.TransGen s.WaitsFor n n := LockState.acyclic ordered_operation hrun n

/-- A status update that waits for the future's lock while `unlisten` holds it. -/
theorem no_lock_cycle_of_unlisten : ∃ s : LockState ℕ (Lock ℕ),
    Run (LockState.Step Operation.code) (fun _ _ => True) {} [0, 1, 0, 1] s ∧
    s.WaitsFor 0 1 ∧ ¬ Relation.TransGen s.WaitsFor 0 0 := by
  have hstatus : (Operation.applyStatus 7).code.Path
      [.acquire .tracker, .acquire (.future 7), .release (.future 7), .release .tracker] true :=
    .seq (.plain false) (.seqRaised (.withLock (.right (.seq (.plain false)
      (.seq (.withLock (.plain false)) (.seqRaised (.manyRaised (.plain true))))))))
  have hunlisten : (Operation.unlisten 7).code.Path [.acquire (.future 7), .release (.future 7)] false :=
    .seq (.withLock .stop) (.seq (.left (.plain false)) (.plain false))
  have hrun : Run (LockState.Step Operation.code) (fun _ _ => True) ({} : LockState ℕ (Lock ℕ)) [0, 1, 0, 1] _ :=
    .cons trivial (.start (.applyStatus 7) rfl hstatus)
      (.cons trivial (.start (.unlisten 7) rfl hunlisten)
        (.cons trivial (.acquire rfl fun _ _ => by simp [LockState.goto])
          (.single trivial (.acquire rfl fun _ _ => by simp [LockState.goto, Function.update]))))
  refine ⟨_, hrun, ⟨.future 7, ⟨_, rfl⟩, by decide, ?_⟩, no_lock_cycle hrun 0⟩
  simp [LockState.goto]

end SlurmManager.Locking
