import SlurmManager.Lib.Index
import SlurmManager.Lib.Program
import SlurmManager.Tracking.JobFuture
import SlurmManager.Tracking.RedisSubClient
import SlurmManager.Tracking.ClientInvariant
import SlurmManager.Tracking.JobTracker
import SlurmManager.Tracking.TrackerInvariant
import SlurmManager.Tracking.Removal
import SlurmManager.Tracking.StatusUpdate
import SlurmManager.Lib.Runs
import SlurmManager.Tracking.Config
import SlurmManager.Tracking.Sections
import SlurmManager.Tracking.Session
import SlurmManager.Tracking.Interleaving
import SlurmManager.Tracking.SequentialRuns
import SlurmManager.Tracking.Outage
import SlurmManager.Tracking.CallSteps
import SlurmManager.Tracking.ListenerAgreement
import SlurmManager.Tracking.LateRegistration
import SlurmManager.Tracking.Frames
import SlurmManager.Tracking.Effects
import SlurmManager.Tracking.TrackingRace
import SlurmManager.Tracking.Tags
import SlurmManager.Tracking.StatusDelivery
import SlurmManager.Lib.Utf8
import SlurmManager.Worker.LineWriter
import SlurmManager.Worker.Framing
import SlurmManager.Worker.Run
import SlurmManager.Worker.Steps
import SlurmManager.Worker.Phases
import SlurmManager.Worker.FeedbackOrder
import SlurmManager.Worker.OutputIntegrity
import SlurmManager.Worker.Progress
import SlurmManager.Worker.ExitCode
import SlurmManager.Manager.Json
import SlurmManager.Manager.SchedulerRecord
import SlurmManager.Manager.SlurmRestClient
import SlurmManager.Manager.SchedulerCheck
import SlurmManager.Manager.Monitor
import SlurmManager.Manager.Survival
import SlurmManager.Manager.Completion
import SlurmManager.Lib.JsonText
import SlurmManager.Lib.Shell
import SlurmManager.Manager.JobScript
import SlurmManager.Manager.JobOptions
import SlurmManager.Manager.Submission
import SlurmManager.Tracking.Readiness
import SlurmManager.Manager.AllOrNothing
import SlurmManager.Tracking.JobView
import SlurmManager.Manager.ReleaseGate
import SlurmManager.Manager.ReleaseGating
import SlurmManager.Lib.Expansion
import SlurmManager.Lib.Locks
import SlurmManager.Manager.LockOrder
import SlurmManager.Manager.ReleaseRuns
import SlurmManager.Manager.TokenSecrecy
import SlurmManager.Tracking.ClientRuns
import SlurmManager.Tracking.EventFilter
import SlurmManager.Tracking.FailedRegistration
import SlurmManager.Tracking.ListenerLoop
import SlurmManager.Tracking.TopicSteps
import SlurmManager.Tracking.Internals
import SlurmManager.Tracking.FanOut
import SlurmManager.Tracking.Arrival
import SlurmManager.Tracking.Outcome
import SlurmManager.Manager.Throttle
import SlurmManager.Manager.Shutdown
import SlurmManager.Worker.UploadPackages
import SlurmManager.Worker.WriteLoop
import SlurmManager.Lib.Utf8Text
import SlurmManager.Lib.JsonTree
import SlurmManager.Tracking.EventMessages
import SlurmManager.Worker.Wire
import SlurmManager.Worker.LogOrder
import SlurmManager.Worker.LogText
import SlurmManager.Worker.Delivery
import SlurmManager.Worker.JobOutcome
