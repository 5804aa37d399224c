import SlurmManager.Tracking.Interleaving

/-!
# Outage — the cleanup of a job while Redis is away

`apply_status` completes the future first and then cleans up topic by topic, with a network call for
each topic that has callbacks.  The registry entry goes last.

* `outage`: the tracker with a connection that answers in any way from now on.
* `CleanupAccepted`: no network call of the cleanup raises.
* `terminal_cleanup_iff`: this is exactly when the job is forgotten.  Otherwise the first call that
  raises leaves the registry entry, and the topics behind it, for good: the future is done, so later
  statuses return early (`cleanup_interrupted`).
-/

namespace SlurmManager

open JobTracker Config

/-- The tracker once the connection answers as `failure` says. -/
def JobTracker.outage (failure : ℕ → Command → Option String) (s : JobTracker) : JobTracker :=
  { s with subClient := { s.subClient with pubsub := { s.subClient.pubsub with failure := failure } } }

/-- No UNSUBSCRIBE call made by the cleanup of the job raises. -/
def JobTracker.CleanupAccepted (rt : Runtime) (j : String) (s : JobTracker) : Prop :=
  s.subClient.pubsub.Accepts (closing s.subClient (rt.setOrder (s.activeTopics j)))

namespace JobTracker

variable {s : JobTracker}

theorem WellFormed.outage (h : s.WellFormed) (failure : ℕ → Command → Option String) :
    (s.outage failure).WellFormed := by
  have hcl : (s.outage failure).subClient.WellFormed :=
    ⟨h.client.consistent, h.client.fresh, h.client.filed, h.client.ready, h.client.event_lt⟩
  exact h.withClient hcl le_rfl

/-- The client has no registration for the job besides the tracker's. -/
def Owned (s : JobTracker) (j : String) : Prop :=
  ∀ i t, s.subClient.topicBySubscriptionId.get? i = some t → IsTopicOf j t →
    s.topicBySubscriptionId.get? i = some t

/-- A job that the removal went through for is forgotten. -/
theorem Pruned.forgotten {s' : JobTracker} {j : String} (h : s.WellFormed) (ho : s.Owned j)
    (hp : Pruned s (fun _ t => IsTopicOf j t) (fun _ t => t ∈ s.activeTopics j) s')
    (hr : s'.futureRegistry = s.futureRegistry.erase j)
    (ha : s'.activeSubscriptions = s.activeSubscriptions.erase j) : s'.Forgotten j := by
  refine forgotten_of_topics hp.wellFormed ?_ ?_ (fun i t hi => ?_) (fun i t hi hjt => ?_)
  · rw [hr, Dict.get?_erase_self]
  · rw [ha, Dict.get?_erase_self]
  · exact ((hp.topic_iff h).mp hi).2
  · obtain ⟨hi, hno⟩ := (hp.client.topic_iff h.client).mp hi
    exact hno ((mem_activeTopics_iff h).mpr ⟨hjt, i, ho i t hi hjt⟩)

/-- The tail of the removal forgets the job exactly when its network calls are accepted. -/
theorem discardJob_forgotten_iff (h : s.WellFormed) {j : String} (ho : s.Owned j)
    (hreg : (s.futureRegistry.get? j).isSome) (rt : Runtime) :
    ((discardJob rt j).after s).accepted = s.accepted ∧
      (((discardJob rt j).after s).Forgotten j ↔ s.CleanupAccepted rt j) := by
  by_cases ha : s.CleanupAccepted rt j
  · obtain ⟨s', he, hp, hr, hact, -⟩ := discardJob_ok h rt j ha
    rw [Program.after, he]
    exact ⟨hp.accepted, iff_of_true (hp.forgotten h ho hr hact) ha⟩
  · obtain ⟨e, s', he, hr, hacc⟩ := discardJob_raised h rt j ha
    rw [Program.after, he]
    refine ⟨hacc, iff_of_false (fun hf => ?_) ha⟩
    have hnone := hf.registry
    rw [hr] at hnone
    rw [hnone] at hreg
    simp at hreg

/-- A terminal status for a tracked job is accepted, and the job is forgotten exactly when the network
calls of the cleanup are accepted. -/
theorem applyStatus_forgotten_iff (h : s.WellFormed) {f : FutureRef} {j : String}
    (hj : (s.futures f).jobId = j) (hd : (s.futures f).done = false) (ho : s.Owned j)
    (hreg : (s.futureRegistry.get? j).isSome) (rt : Runtime) {m : StatusMessage}
    (ht : (decoded rt m).terminal = true) :
    ((applyStatus rt m f).after s).accepted = s.accepted ++ [(f, decoded rt m)] ∧
      (((applyStatus rt m f).after s).Forgotten j ↔ s.CleanupAccepted rt j) := by
  have hx : (applyStatus rt m f).after s = (discardJob rt j).after (s.accept rt m f) := by
    rw [Program.after, exec_applyStatus_terminal rt m f hd ht, hj, Program.after]
  rw [hx]
  have hwf : (s.accept rt m f).WellFormed := h.congr (sameMaps_accept rt m f)
  exact discardJob_forgotten_iff hwf ho hreg rt

end JobTracker

namespace Session

/-- **A terminal status forgets its job exactly when no network call of the cleanup raises.**  The
state is any that interleaved calls can reach, with no call in flight on the job; the connection then
answers in any way. -/
theorem terminal_cleanup_iff {s₀ s : Session} {ls : List Label} (h₀ : s₀.Initial)
    (hu : s₀.tracker.subClient.pubsub.UnsubscribeOk) (hrun : Run Steps (Admits {}) s₀ ls s)
    {j : String} {f : FutureRef} (hf : s.tracker.futureRegistry.get? j = some f) (hs : s.Settled j)
    (failure : ℕ → Command → Option String) (rt : Runtime) {m : StatusMessage}
    (ht : (decoded rt m).terminal = true) :
    ((applyStatus rt m f).after (s.tracker.outage failure)).accepted =
        s.tracker.accepted ++ [(f, decoded rt m)] ∧
      (((applyStatus rt m f).after (s.tracker.outage failure)).Forgotten j ↔
        (s.tracker.outage failure).CleanupAccepted rt j) := by
  obtain ⟨pending, ms, -, hsound⟩ := simulated h₀ hu hrun
  have hinv := hsound.inv
  obtain ⟨hjob, hd, -⟩ := hinv.registry j f hf
  have hj : (s.tracker.futures f).jobId = j := (hinv.jobIds f).trans hjob
  have ho : (s.tracker.outage failure).Owned j := by
    intro i t hi hjt
    rcases hinv.owned i t hi with ho | ⟨p, hp, hpt⟩
    · exact ho
    · exact absurd (hpt ▸ hjt) (hsound.settled hs i p hp)
  exact applyStatus_forgotten_iff (hinv.wellFormed.outage failure) hj hd ho
    (Option.isSome_iff_exists.mpr ⟨f, hf⟩) rt ht

/-- A connection on which every UNSUBSCRIBE raises. -/
def refusing (_ : ℕ) : Command → Option String
  | .subscribe _ => none
  | .unsubscribe _ => some "Connection refused"

/-- The run that tracks one job. -/
theorem tracked_one : ∃ s, Run Steps (Admits {}) (new (fun _ _ => none) unary) [⟨.still, .track 0⟩] s ∧
    s.tracker.futureRegistry.get? "j" = some 0 ∧ s.Settled "j" ∧
    s = { new (fun _ _ => none) unary with
      tracker := (track .still 0).after (new (fun _ _ => none) unary).tracker
      published := [0] } := by
  refine ⟨_, Run.single trivial rfl, rfl, fun n i p hn => ?_, rfl⟩
  simp [new, Call.holds] at hn

/-- One tracked job and a connection that refuses to unsubscribe. -/
theorem terminal_cleanup_iff_of_refusing : ∃ s,
    Run Steps (Admits {}) (new (fun _ _ => none) unary) [⟨.still, .track 0⟩] s ∧
    ((applyStatus .still { status := "finished" } 0).after (s.tracker.outage refusing)).accepted =
        s.tracker.accepted ++ [(0, decoded .still { status := "finished" })] ∧
      (((applyStatus .still { status := "finished" } 0).after
          (s.tracker.outage refusing)).Forgotten "j" ↔
        (s.tracker.outage refusing).CleanupAccepted .still "j") := by
  obtain ⟨s, hrun, hf, hs, -⟩ := tracked_one
  exact ⟨s, hrun, terminal_cleanup_iff (initial_new _ unary_injective) (fun _ _ => rfl) hrun hf hs
    refusing .still rfl⟩

/-- **A refused UNSUBSCRIBE leaves a finished job behind.**  The status is accepted, the first topic is
gone, and the registry, both indices and the client still mention the job.  Later statuses and
removals change nothing about that. -/
theorem cleanup_interrupted : ∃ s s',
    Run Steps (Admits {}) (new (fun _ _ => none) unary) [⟨.still, .track 0⟩] s ∧
    s.tracker.futureRegistry.get? "j" = some 0 ∧
    (applyStatus .still { status := "finished" } 0).exec (s.tracker.outage refusing) =
      (.error ⟨.redisError, "Connection refused"⟩, s') ∧
    s'.accepted = [(0, .finished)] ∧
    s'.futureRegistry.get? "j" = some 0 ∧
    s'.subscriptionsByTopic.get? "info/j/heartbeat" = none ∧
    (s'.subscriptionsByTopic.get? "info/j/status").isSome ∧
    s'.topicBySubscriptionId.get? 1 = some "info/j/status" ∧
    (s'.subClient.subscriptionsByTopic.get? "info/j/status").isSome ∧
    ¬ s'.Forgotten "j" ∧
    (applyStatus .still { status := "cancelled" } 0).exec s' = (.ok (), s') := by
  obtain ⟨s, hrun, hf, -, rfl⟩ := tracked_one
  refine ⟨_, _, hrun, hf, rfl, rfl, rfl, rfl, rfl, rfl, rfl, fun h => ?_, rfl⟩
  exact absurd h.registry (by decide)

end Session

end SlurmManager
