import SlurmManager.Lib.Dict
import Mathlib.Data.Rat.Defs

/-!
# Messages — events, topics and what Python supplies to a call

The vocabulary of `event_messages.py` and of the topic helper of `job_tracker.py`.

* `TopicInfo.topic_injective`: job id and event can be read back from a topic, whatever characters
  the job id contains (an event name has no `/`, so the last segment is the event).
* `Runtime` collects what a call takes from the interpreter: one clock reading, the text of
  `datetime.now().isoformat()`, the text of `model_dump()`, and the order in which a Python set is
  walked.  The order is a permutation, otherwise free.
-/

namespace SlurmManager

/-! ## Events and topics -/

section Topics

/-- `Literal["heartbeat", "log", "status"]`. -/
inductive Event
  | heartbeat
  | log
  | status
  deriving DecidableEq, Repr

/-- The text of an event key, also the last segment of its topic. -/
def Event.name : Event → String
  | .heartbeat => "heartbeat"
  | .log => "log"
  | .status => "status"

/-- A Redis channel name. -/
abbrev Topic := String

structure TopicInfo where
  jobId : String
  topicPrefix : String := "info"

/-- `TopicInfo.topic`: `f"{self.prefix}/{self.job_id}/{v}"`. -/
def TopicInfo.topic (t : TopicInfo) (v : String) : Topic :=
  t.topicPrefix ++ "/" ++ t.jobId ++ "/" ++ v

def TopicInfo.log (t : TopicInfo) : Topic := t.topic "log"

def TopicInfo.event (t : TopicInfo) : Topic := t.topic "status"

def TopicInfo.heartbeat (t : TopicInfo) : Topic := t.topic "heartbeat"

/-- The topic of an event of a job: `TopicInfo(job_id).topic(key)`. -/
def topicOf (jobId : String) (e : Event) : Topic := (TopicInfo.mk jobId "info").topic e.name

theorem heartbeat_eq_topicOf (j : String) : (TopicInfo.mk j "info").heartbeat = topicOf j .heartbeat := rfl

theorem event_eq_topicOf (j : String) : (TopicInfo.mk j "info").event = topicOf j .status := rfl

theorem log_eq_topicOf (j : String) : (TopicInfo.mk j "info").log = topicOf j .log := rfl

/-- Two texts with a slash-free tail agree in head and tail when they agree as a whole. -/
theorem append_slash_inj {a b u v : List Char} (hu : '/' ∉ u) (hv : '/' ∉ v)
    (h : a ++ '/' :: u = b ++ '/' :: v) : a = b ∧ u = v := by
  rcases List.append_eq_append_iff.mp h with ⟨c, h1, h2⟩ | ⟨c, h1, h2⟩
  · cases c with
    | nil => simp at h2; exact ⟨by simpa using h1.symm, h2⟩
    | cons x c => simp at h2; exact absurd (h2.2 ▸ by simp) hu
  · cases c with
    | nil => simp at h2; exact ⟨by simpa using h1, h2.symm⟩
    | cons x c => simp at h2; exact absurd (h2.2 ▸ by simp) hv

theorem slash_not_mem_name (e : Event) : '/' ∉ e.name.toList := by
  cases e <;> simp [Event.name]

theorem Event.name_injective : Function.Injective Event.name := by
  intro e e' h
  cases e <;> cases e' <;> first | rfl | simp [Event.name] at h

/-- Job id and event are determined by the topic, for arbitrary job ids. -/
theorem topicOf_injective {j j' : String} {e e' : Event} (h : topicOf j e = topicOf j' e') :
    j = j' ∧ e = e' := by
  have hl := congrArg String.toList h
  simp only [topicOf, TopicInfo.topic, String.toList_append] at hl
  have hs : "/".toList = ['/'] := rfl
  rw [hs, List.append_assoc _ ['/'] e.name.toList, List.append_assoc _ ['/'] e'.name.toList] at hl
  obtain ⟨hj, he⟩ := append_slash_inj (slash_not_mem_name e) (slash_not_mem_name e') hl
  exact ⟨String.toList_inj.mp (List.append_cancel_left hj), Event.name_injective (String.toList_inj.mp he)⟩

@[simp] theorem topicOf_inj {j j' : String} {e e' : Event} :
    topicOf j e = topicOf j' e' ↔ j = j' ∧ e = e' :=
  ⟨topicOf_injective, fun ⟨h, h'⟩ => h ▸ h' ▸ rfl⟩

/-- `t` is one of the three topics of job `j`. -/
def IsTopicOf (j : String) (t : Topic) : Prop := ∃ e, t = topicOf j e

theorem IsTopicOf.unique {j j' : String} {t : Topic} (h : IsTopicOf j t) (h' : IsTopicOf j' t) :
    j = j' := by
  obtain ⟨e, rfl⟩ := h
  obtain ⟨e', h'⟩ := h'
  exact (topicOf_injective h').1

theorem isTopicOf_topicOf (j : String) (e : Event) : IsTopicOf j (topicOf j e) := ⟨e, rfl⟩

theorem IsTopicOf.ne {j j' : String} {t : Topic} (ht : IsTopicOf j' t) (hj : j' ≠ j) (e : Event) : t ≠ topicOf j e := by
  rintro rfl
  exact hj (ht.unique (isTopicOf_topicOf j e))

end Topics

/-! ## Messages -/

section Messages

/-- `metadata: dict[str, str]`. -/
abbrev Metadata := Dict String String

structure HeartBeatMessage where
  timestamp : ℚ
  metadata : Metadata := ∅

structure StatusMessage where
  status : String
  metadata : Metadata := ∅

structure LogMessage where
  log : String
  metadata : Metadata := ∅

/-- The union discriminated by `msg_type`. -/
inductive SlurmMessage
  | heartbeat (m : HeartBeatMessage)
  | status (m : StatusMessage)
  | log (m : LogMessage)

/-- `msg_type`, the literal of each message class. -/
def SlurmMessage.msgType : SlurmMessage → Event
  | .heartbeat _ => .heartbeat
  | .status _ => .status
  | .log _ => .log

def SlurmMessage.metadata : SlurmMessage → Metadata
  | .heartbeat m => m.metadata
  | .status m => m.metadata
  | .log m => m.metadata

def SlurmMessage.withMetadata : SlurmMessage → Metadata → SlurmMessage
  | .heartbeat m, d => .heartbeat { m with metadata := d }
  | .status m, d => .status { m with metadata := d }
  | .log m, d => .log { m with metadata := d }

@[simp] theorem SlurmMessage.msgType_withMetadata (m : SlurmMessage) (d : Metadata) :
    (m.withMetadata d).msgType = m.msgType := by cases m <;> rfl

end Messages

/-! ## The interpreter -/

section Interpreter

/-- The exception classes the modelled code raises or catches. -/
inductive ExceptionType
  | redisError
  | runtimeError
  | valueError
  | keyError
  | timeoutError
  | slurmRestError
  | recursionError
  | other
  deriving DecidableEq, Repr

/-- A raised exception and its text `str(exc)`. -/
structure PyError where
  type : ExceptionType
  text : String
  deriving DecidableEq, Repr

/-- What one call takes from the interpreter. -/
structure Runtime where
  time : ℚ
  isoformat : String
  modelDump : StatusMessage → String
  setOrder : List Topic → List Topic
  setOrder_perm : ∀ l, (setOrder l).Perm l

theorem Runtime.mem_setOrder (rt : Runtime) {l : List Topic} {t : Topic} :
    t ∈ rt.setOrder l ↔ t ∈ l := (rt.setOrder_perm l).mem_iff

end Interpreter

end SlurmManager
