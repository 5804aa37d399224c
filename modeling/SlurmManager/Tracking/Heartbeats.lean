import SlurmManager.Tracking.JobTracker

/-!
# Heartbeats — the jobs that are due for a scheduler check

`get_missing_heartbeats`.  The clock is read before the lock is taken: `now` is an argument.
-/

namespace SlurmManager

/-- `HEARTBEAT_TIMEOUT`, in seconds. -/
def heartbeatTimeout : ℚ := 10

/-- The tests of `get_missing_heartbeats` on one record.  A stamp of 0 is falsy. -/
def SubscriptionInfo.missing (now : ℚ) (info : SubscriptionInfo) : Bool :=
  match info.lastHeartbeat with
  | none => false
  | some lastHeartbeat =>
    if lastHeartbeat = 0 then false
    else if now - lastHeartbeat ≤ heartbeatTimeout then false
    else
      match info.lastSchedulerCheck with
      | none => true
      | some lastCheck => if now - lastCheck ≤ heartbeatTimeout then false else true

namespace JobTracker

/-- `get_missing_heartbeats`. -/
def getMissingHeartbeats (now : ℚ) (s : JobTracker) : List SubscriptionInfo :=
  s.activeSubscriptions.entries.flatMap fun e =>
    let topic := topicOf e.1 .heartbeat
    if topic ∈ e.2 then
      ((s.subscriptionsByTopic.get? topic).getD ∅).values.filter (SubscriptionInfo.missing now)
    else []

end JobTracker

end SlurmManager
