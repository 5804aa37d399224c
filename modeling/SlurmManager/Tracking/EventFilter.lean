import SlurmManager.Tracking.StatusDelivery

/-!
# EventFilter — what a listener gets to see

A message comes with a topic and with a type, and the two need not agree.  Manager-wide listeners are
selected by the type, the listeners of a job by the topic, and a status goes through `apply_status`,
but only where it came on the status channel.

* `Watched`: a session with the history of its registrations: under which arguments each id was drawn.
* `Told`: the tasks of a list are of the types their listeners registered for, and each status in them
  was accepted for the job it names.
* `Routed`: the steps in which neither a listener of a job nor a manager-wide status listener gets a
  message that came on another topic.
* `Watched.listeners_see_own_events`: in a run of such steps every task is in order.  Without the
  condition this fails: `finished_on_log_topic`.
-/

namespace SlurmManager

open Program JobTracker

/-! ## Registrations -/

/-- What an id was drawn for, with the arguments of the registration. -/
inductive Enrolment
  | internal (e : Event)
  | job (a : AddArgs)
  | manager (e : Event) (cb : Callback)

namespace Enrolment

def tag : Enrolment → Tag
  | .internal e => .internal e
  | .job a => .listener a
  | .manager _ _ => .global

/-- The event that the listener registered for. -/
def event : Enrolment → Event
  | .internal e => e
  | .job a => a.key
  | .manager e _ => e

/-- The callable of the listener, if it is one of a user. -/
def callback : Enrolment → Option Callback
  | .internal _ => none
  | .job a => some a.callback
  | .manager _ cb => some cb

/-- The listener is to hear of the job of the future. -/
def Concerns (jobOf : FutureRef → String) : Enrolment → FutureRef → Prop
  | .internal _, _ => False
  | .job a, f => jobOf f = a.jobId
  | .manager _ _, _ => True

end Enrolment

/-- A session and the history of its registrations. -/
structure Watched where
  session : Session
  roll : SubId → Option Enrolment := fun _ => none

/-- What the step draws an id for. -/
def Session.enrols (s : Session) (l : Label) : Option Enrolment :=
  match l.act with
  | .listenGlobal e cb => some (.manager e cb)
  | .proceed n =>
    match s.calls n with
    | .subscribing _ e _ => some (.internal e)
    | .adding a _ => some (.job a)
    | _ => none
  | _ => none

namespace Watched

/-- The history after the step. -/
def enrol (x : Watched) (l : Label) : SubId → Option Enrolment :=
  match x.session.enrols l with
  | none => x.roll
  | some k => Function.update x.roll x.session.tracker.subClient.nextUuid (some k)

/-- A step of the session, with its history. -/
def step (x : Watched) (l : Label) : Option Watched :=
  (x.session.step l).map fun s => { session := s, roll := x.enrol l }

def Steps (x : Watched) (l : Label) (x' : Watched) : Prop := x.step l = some x'

/-- The tags that the history gives to the ids. -/
def tags (x : Watched) (i : SubId) : Option Tag := (x.roll i).map Enrolment.tag

variable {jobOf : FutureRef → String} {x x' : Watched} {l : Label}

theorem Steps.session (hs : Steps x l x') : Session.Steps x.session l x'.session := by
  obtain ⟨s, hstep, rfl⟩ := Option.map_eq_some_iff.mp hs
  exact hstep

theorem Steps.roll (hs : Steps x l x') : x'.roll = x.enrol l := by
  obtain ⟨s, -, rfl⟩ := Option.map_eq_some_iff.mp hs
  rfl

theorem draws_eq (s : Session) (l : Label) : s.draws l = (s.enrols l).map Enrolment.tag := by
  obtain ⟨rt, act⟩ := l
  unfold Session.draws Session.enrols
  cases act with
  | proceed n => cases h : s.calls n <;> simp [h, Enrolment.tag]
  | _ => rfl

theorem Steps.tags (hs : Steps x l x') : x'.tags = x.session.retag l x.tags := by
  funext i
  unfold Watched.tags Session.retag
  rw [hs.roll, draws_eq]
  unfold enrol
  cases x.session.enrols l with
  | none => rfl
  | some k =>
    show Option.map Enrolment.tag (Function.update x.roll _ (some k) i) =
      Function.update x.tags _ (some k.tag) i
    by_cases hi : i = x.session.tracker.subClient.nextUuid
    · rw [hi, Function.update_self, Function.update_self]
      rfl
    · rw [Function.update_of_ne hi, Function.update_of_ne hi]
      rfl

theorem roll_of_tag_listener {i : SubId} {a : AddArgs} (h : x.tags i = some (.listener a)) :
    x.roll i = some (.job a) := by
  obtain ⟨k, hk, ht⟩ := Option.map_eq_some_iff.mp h
  cases k with
  | job b =>
    obtain rfl : b = a := Tag.listener.inj ht
    exact hk
  | internal e => cases ht
  | manager e cb => cases ht

theorem tags_of_roll {i : SubId} {k : Enrolment} (hk : x.roll i = some k) :
    x.tags i = some k.tag := by
  unfold tags
  rw [hk]
  rfl

/-! ## What the listeners are told -/

/-- The listener of the task registered for messages of this type. -/
def Sees (roll : SubId → Option Enrolment) (t : Task) : Prop :=
  ∃ k, roll t.listener = some k ∧ k.callback = some t.callback ∧ t.message.msgType = k.event

theorem enrich_job_id (rt : Runtime) (d : Metadata) (j slurm : String) :
    (enrich rt d j slurm).get? "job_id" = some j := by
  unfold enrich
  rw [Dict.get?_set_ne _ _ (by decide), Dict.get?_set_self]

/-- The task hands over a status message of the job of the future, which reads as the status. -/
def Reported (jobOf : FutureRef → String) (t : Task) (y : FutureRef × JobStatus) : Prop :=
  ∃ m : StatusMessage, t.message = .status m ∧ JobStatus.ofValue? (splitColon m.status).1 = some y.2 ∧
    m.metadata.get? "job_id" = some (jobOf y.1)

theorem reported_of {rt : Runtime} {t : Task} {m : StatusMessage} {y : FutureRef × JobStatus}
    {j slurm : String} (ht : t.message = .status { m with metadata := enrich rt m.metadata j slurm })
    (hread : JobStatus.ofValue? (splitColon m.status).1 = some y.2) (hj : j = jobOf y.1) :
    Reported jobOf t y :=
  ⟨_, ht, hread, (enrich_job_id rt m.metadata j slurm).trans (congrArg some hj)⟩

/-- The tasks `ts` are in order, next to the accepted statuses: every listener gets messages of the type
that it registered for, and a status listener gets, in the order of their acceptance and each at most
once, accepted statuses of the job that it is to hear of. -/
structure Told (jobOf : FutureRef → String) (roll : SubId → Option Enrolment) (ts : List Task)
    (accepted : List (FutureRef × JobStatus)) : Prop where
  sees : ∀ t ∈ ts, Sees roll t
  accepted : ∀ i k, roll i = some k → k.event = .status → ∃ l, l.Sublist accepted ∧
    (∀ y ∈ l, k.Concerns jobOf y.1) ∧ List.Forall₂ (Reported jobOf) (ts.filter fun t => t.listener = i) l

section Told

variable {roll roll' : SubId → Option Enrolment} {ts ts' : List Task} {ys ys' : List (FutureRef × JobStatus)}

theorem told_nil : Told jobOf roll [] [] :=
  ⟨by simp, fun _ _ _ _ => ⟨[], List.Sublist.refl _, by simp, List.Forall₂.nil⟩⟩

theorem Told.append (h : Told jobOf roll ts ys) (h' : Told jobOf roll ts' ys') :
    Told jobOf roll (ts ++ ts') (ys ++ ys') := by
  refine ⟨fun t ht => (List.mem_append.mp ht).elim (h.sees t) (h'.sees t), fun i k hi hk => ?_⟩
  obtain ⟨l, hsub, hc, hr⟩ := h.accepted i k hi hk
  obtain ⟨l', hsub', hc', hr'⟩ := h'.accepted i k hi hk
  refine ⟨l ++ l', hsub.append hsub', fun y hy => (List.mem_append.mp hy).elim (hc y) (hc' y), ?_⟩
  rw [List.filter_append]
  exact List.rel_append hr hr'

/-- A registration more: its id has no task yet. -/
theorem Told.enrol (h : Told jobOf roll ts ys) (hext : ∀ i k, roll i = some k → roll' i = some k) :
    Told jobOf roll' ts ys := by
  refine ⟨fun t ht => ?_, fun i k hi hk => ?_⟩
  · obtain ⟨k, hk, hs⟩ := h.sees t ht
    exact ⟨k, hext _ k hk, hs⟩
  · cases hold : roll i with
    | some k' =>
      obtain rfl : k' = k := Option.some.inj ((hext i k' hold).symm.trans hi)
      exact h.accepted i k' hold hk
    | none =>
      refine ⟨[], List.nil_sublist _, by simp, ?_⟩
      rw [List.filter_eq_nil_iff.mpr fun t ht => ?_]
      · exact List.Forall₂.nil
      · obtain ⟨k', hk', -⟩ := h.sees t ht
        intro hti
        rw [show t.listener = i by simpa using hti, hold] at hk'
        contradiction

/-- Tasks without a status need no acceptance. -/
theorem told_of_sees (h : ∀ t ∈ ts, Sees roll t ∧ t.message.msgType ≠ .status) :
    Told jobOf roll ts [] := by
  refine ⟨fun t ht => (h t ht).1, fun i k hi hk => ⟨[], List.Sublist.refl _, by simp, ?_⟩⟩
  rw [List.filter_eq_nil_iff.mpr fun t ht => ?_]
  · exact List.Forall₂.nil
  · obtain ⟨⟨k', hk', -, he⟩, hne⟩ := h t ht
    intro hti
    rw [show t.listener = i by simpa using hti, hi] at hk'
    obtain rfl := Option.some.inj hk'
    exact hne (he.trans hk)

end Told

end Watched

/-! ## The manager-wide table -/

namespace JobTracker

/-- The tasks with which `apply_status` notifies the listeners of an accepted status. -/
def notifications (rt : Runtime) (m : StatusMessage) (f : FutureRef) (s : JobTracker) : List Task :=
  listenerTasks rt (.status (decodeStatus rt m).1) (topicOf (s.futures f).jobId .status) s ++
    globalTasks rt (.status (decodeStatus rt m).1) (s.futures f).jobId (some (s.futures f).slurmJobId) s

variable {ok : SubId → RegisteredCallback → Prop}

theorem keeps_globals_removeId (i : SubId) : Keeps (fun s => s.globalCallbacks.All ok) (removeId i) := by
  refine Keeps.get_bind fun s _ => ?_
  split
  · exact within_modify fun s hs => hs.erase i
  · split
    · exact within_pure _
    · have hclient : Keeps (fun s => s.globalCallbacks.All ok) (onClient (RedisSubClient.unsubscribe i)) :=
        within_focus fun _ hs => hs
      refine Within.bind (within_modify fun s hs => hs) fun _ => Within.bind hclient fun _ => ?_
      split
      · exact within_pure _
      · refine Within.bind (within_modify fun s hs => hs) fun _ => ?_
        split
        · exact within_pure _
        · exact within_modify fun s hs => hs

theorem globals_applyStatus (rt : Runtime) (m : StatusMessage) (f : FutureRef) (s : JobTracker) :
    ((applyStatus rt m f).after s).globalCallbacks = s.globalCallbacks := by
  cases hd : (s.futures f).done with
  | true => rw [Program.after, exec_applyStatus_done rt m f hd]
  | false =>
    cases ht : (decoded rt m).terminal with
    | false => rw [Program.after, exec_applyStatus_running rt m f hd ht, accept_globalCallbacks]
    | true =>
      rw [Program.after, exec_applyStatus_terminal rt m f hd ht]
      exact congrArg (fun y => y.1) (frame_discardJob rt _ (s.accept rt m f))

end JobTracker

/-- An entry of the manager-wide table is an old one, or made by the `listen` of this step. -/
theorem Session.Steps.globals {s s' : Session} {l : Label} (hl : Sectioned l) (hs : Session.Steps s l s')
    {i : SubId} {r : RegisteredCallback} (h : s'.tracker.globalCallbacks.get? i = some r) :
    s.tracker.globalCallbacks.get? i = some r ∨
      l.act = .listenGlobal r.event r.callback ∧ i = s.tracker.subClient.nextUuid := by
  have heff := hs.effect
  generalize s'.tracker = t at heff h
  have hsame : ∀ {u : JobTracker}, u.globalCallbacks = s.tracker.globalCallbacks →
      u.globalCallbacks.get? i = some r → s.tracker.globalCallbacks.get? i = some r :=
    fun he hu => he ▸ hu
  cases heff with
  | keep x hx => exact Or.inl (hsame (congrArg (fun y => y.2.1) (hx s.tracker)) h)
  | @publish f hf x hx =>
    exact Or.inl (hsame (congrArg (fun y => y.2.1) (hx (publishFuture f s.tracker))) h)
  | @status m f ha => exact Or.inl (hsame (globals_applyStatus l.rt m f s.tracker) h)
  | @discard j skip _ => exact Or.inl (hsame (congrArg (fun y => y.1) (frame_discardJob l.rt j s.tracker)) h)
  | @removeIds ids _ =>
    have hkeep : Keeps (fun t => t.globalCallbacks.All fun i r => s.tracker.globalCallbacks.get? i = some r)
        (removeSubscriptionById ids) := within_forM fun i _ => keeps_globals_removeId i
    exact Or.inl (hkeep s.tracker (fun _ _ hi => hi) i r h)
  | @listen e cb hact =>
    have hset : (s.tracker.globalCallbacks.set s.tracker.subClient.nextUuid
      ⟨s.tracker.subClient.nextUuid, e, cb⟩).get? i = some r := h
    rw [Dict.get?_set] at hset
    split_ifs at hset with hi
    · obtain rfl := Option.some.inj hset
      exact Or.inr ⟨hact, hi⟩
    · exact Or.inl hset
  | deliver _ hc hno =>
    exact Or.inl (hsame (congrArg (fun y => y.2.1) (frame_deliver l.rt hno s.tracker)) h)
  | dispatch hact =>
    unfold Sectioned at hl
    rw [hact] at hl
    exact hl.elim

/-- The callback belongs to a listener of a job. -/
def ClientCallback.Dispatches : ClientCallback → Prop
  | .dispatch _ => True
  | _ => False

instance (cb : ClientCallback) : Decidable cb.Dispatches := by
  cases cb <;> unfold ClientCallback.Dispatches <;> infer_instance

namespace Watched

variable {jobOf : FutureRef → String} {x x' : Watched} {l : Label}

/-! ## The invariant -/

/-- The condition on a step.  When a message is taken from a log or heartbeat channel and is not of the
type of the channel, no listener of the job is registered there.  When a status is handed to the internal
callback of such a channel, there is no manager-wide status listener. -/
def Routed (s : Session) (l : Label) : Prop :=
  match l.act with
  | .poll t m => ∀ j e, t = topicOf j e → e ≠ m.msgType →
      ∀ sub ∈ s.tracker.subClient.capture t, ¬ sub.callback.Dispatches
  | .deliver => ∀ sub m rest, s.captured = (sub, .status m) :: rest → sub.callback.Forwards →
      ∀ r ∈ s.tracker.globalCallbacks.values, r.event ≠ .status
  | _ => True

/-- What holds in every state of a run whose steps are routed. -/
structure Inv (jobOf : FutureRef → String) (x : Watched) : Prop where
  tagged : x.session.Tagged jobOf x.tags
  globals : x.session.tracker.globalCallbacks.All fun i r => x.roll i = some (.manager r.event r.callback)
  captured : ∀ sub m, (sub, m) ∈ x.session.captured → ∀ d, sub.callback = .dispatch d →
    ∃ a, x.roll sub.id = some (.job a) ∧ d.callback = a.callback ∧ a.key = m.msgType ∧ a.key ≠ .status
  told : Told jobOf x.roll x.session.tracker.tasks x.session.tracker.accepted

section Step

variable (h : x.Inv jobOf)
include h

/-- The history keeps what it has. -/
theorem Inv.roll_mono (hs : Steps x l x') {i : SubId} {k : Enrolment} (hk : x.roll i = some k) :
    x'.roll i = some k := by
  rw [hs.roll, enrol]
  cases x.session.enrols l with
  | none => exact hk
  | some k' =>
    refine (Function.update_of_ne ?_ _ _).trans hk
    rintro rfl
    have hnone := h.tagged.unused _ le_rfl
    rw [tags_of_roll hk] at hnone
    contradiction

theorem Inv.globals_step (hl : Session.Sectioned l) (hs : Steps x l x') :
    x'.session.tracker.globalCallbacks.All fun i r => x'.roll i = some (.manager r.event r.callback) := by
  intro i r hr
  rcases hs.session.globals hl hr with hold | ⟨hact, rfl⟩
  · exact h.roll_mono hs (h.globals i r hold)
  · rw [hs.roll, enrol, show x.session.enrols l = some (.manager r.event r.callback) by
      unfold Session.enrols
      rw [hact]]
    exact Function.update_self _ _ _

theorem Inv.captured_step (hr : Routed x.session l) (hs : Steps x l x') :
    ∀ sub m, (sub, m) ∈ x'.session.captured → ∀ d, sub.callback = .dispatch d →
      ∃ a, x'.roll sub.id = some (.job a) ∧ d.callback = a.callback ∧ a.key = m.msgType ∧ a.key ≠ .status := by
  have hold : ∀ sub m, (sub, m) ∈ x.session.captured → ∀ d, sub.callback = .dispatch d →
      ∃ a, x'.roll sub.id = some (.job a) ∧ d.callback = a.callback ∧ a.key = m.msgType ∧ a.key ≠ .status := by
    intro sub m hmem d hd
    obtain ⟨a, ha, hcb, hkey, hne⟩ := h.captured sub m hmem d hd
    exact ⟨a, h.roll_mono hs ha, hcb, hkey, hne⟩
  rcases hs.session.captured with hc | ⟨y, hc⟩ | ⟨t, m, hact, hc⟩
  · rw [hc]
    exact hold
  · exact fun sub m hmem => hold sub m (hc ▸ List.mem_cons_of_mem y hmem)
  · intro sub m' hmem d hd
    rw [hc] at hmem
    obtain ⟨sub', hsub, he⟩ := List.mem_map.mp hmem
    obtain ⟨rfl, rfl⟩ := Prod.mk.inj he
    obtain ⟨i, hi⟩ := Dict.mem_values_iff.mp hsub
    obtain ⟨rfl, hfit⟩ := h.tagged.tracker.client.subs.inner t i sub' hi
    -- only the id of a listener of a job comes with a dispatcher
    split at hfit
    · obtain ⟨f, g, hcb, -⟩ := hfit
      rename_i e _
      rw [hcb] at hd
      cases e <;> cases hd
    · rename_i a htag
      obtain ⟨rfl, g, hcb⟩ := hfit
      rw [hcb, AddArgs.redisCallback] at hd
      split_ifs at hd with hkey
      obtain rfl := ClientCallback.dispatch.inj hd
      refine ⟨a, h.roll_mono hs (roll_of_tag_listener htag), rfl, ?_, hkey⟩
      by_contra hne
      unfold Routed at hr
      rw [hact] at hr
      refine hr a.jobId a.key rfl hne sub' hsub ?_
      rw [hcb, AddArgs.redisCallback, if_neg hkey]
      trivial
    · exact hfit.elim

/-! ## Tasks -/

/-- Each notification of an accepted status is a task for a status listener that is to hear of the job. -/
theorem Inv.notification (rt : Runtime) (m : StatusMessage) (g : FutureRef) {t : Task}
    (ht : t ∈ x.session.tracker.notifications rt m g) :
    Reported jobOf t (g, decoded rt m) ∧ ∃ k, x.roll t.listener = some k ∧ k.callback = some t.callback ∧
      k.event = .status ∧ k.Concerns jobOf g := by
  have hj := h.tagged.tracker.jobIds g
  rcases List.mem_append.mp ht with ht | ht
  · obtain ⟨info, d, hinfo, hd, ht⟩ := mem_listenerTasks ht
    have hfit := h.tagged.tracker.records.inner _ _ _ hinfo
    unfold TrackerFits at hfit
    split at hfit
    · rw [hfit] at hd
      contradiction
    · rename_i a htag
      obtain ⟨htopic, g', hd'⟩ := hfit
      obtain ⟨hjob, hkey⟩ := topicOf_inj.mp htopic
      rw [hj] at hjob
      obtain rfl := Option.some.inj (hd.symm.trans hd')
      have hcb : t.callback = a.callback := by rw [ht]; rfl
      refine ⟨?_, .job a, roll_of_tag_listener htag, congrArg some hcb.symm, hkey.symm, hjob⟩
      exact reported_of (m := (decodeStatus rt m).1) (by rw [ht]; rfl) (ofValue?_forwarded rt m) hjob.symm
    · exact hfit.elim
  · obtain ⟨r, hr, hev, ht⟩ := mem_globalTasks ht
    have hcb : t.callback = r.callback := by rw [ht]; rfl
    refine ⟨?_, .manager r.event r.callback, h.globals _ r hr, congrArg some hcb.symm, hev, trivial⟩
    exact reported_of (m := (decodeStatus rt m).1) (by rw [ht]; rfl) (ofValue?_forwarded rt m) hj

/-- A listener is notified once: an id is not both a listener of a job and a manager-wide one. -/
theorem Inv.notification_once (rt : Runtime) (m : StatusMessage) (g : FutureRef) (i : SubId) :
    ((x.session.tracker.notifications rt m g).filter fun t => t.listener = i).length ≤ 1 := by
  unfold notifications
  rw [List.filter_append, filter_listenerTasks, filter_globalTasks]
  cases hr : x.session.tracker.globalCallbacks.get? i with
  | none =>
    rw [Option.filter_none, Option.map_none, Option.toList_none, List.append_nil]
    exact Option.length_toList_le
  | some r =>
    have htag := tags_of_roll (h.globals i r hr)
    have hnone : ∀ t, ((x.session.tracker.subscriptionsByTopic.get? t).getD ∅).get? i = none := by
      intro t
      by_contra hsome
      obtain ⟨info, hinfo⟩ := Option.ne_none_iff_exists'.mp hsome
      have hfit := h.tagged.tracker.records.inner t i info hinfo
      unfold TrackerFits at hfit
      rw [htag] at hfit
      exact hfit
    rw [hnone, Option.bind_none, Option.toList_none, List.nil_append]
    exact Option.length_toList_le

theorem Inv.told_accepted (rt : Runtime) (m : StatusMessage) (g : FutureRef) :
    Told jobOf x.roll (x.session.tracker.notifications rt m g) [(g, decoded rt m)] := by
  refine ⟨fun t ht => ?_, fun i k hi hk => ?_⟩
  · obtain ⟨⟨m', hm', -⟩, k, hk, hcb, hev, -⟩ := h.notification rt m g ht
    exact ⟨k, hk, hcb, by rw [hm', hev]; rfl⟩
  · have hone := h.notification_once rt m g i
    have hmem : ∀ t ∈ (x.session.tracker.notifications rt m g).filter fun t => t.listener = i,
        Reported jobOf t (g, decoded rt m) ∧ k.Concerns jobOf g := by
      intro t ht
      obtain ⟨ht, hti⟩ := List.mem_filter.mp ht
      obtain ⟨hrep, k', hk', -, -, hc⟩ := h.notification rt m g ht
      rw [show t.listener = i by simpa using hti, hi] at hk'
      obtain rfl := Option.some.inj hk'
      exact ⟨hrep, hc⟩
    generalize ((x.session.tracker.notifications rt m g).filter fun t => t.listener = i) = ts at hone hmem
    match ts, hone with
    | [], _ => exact ⟨[], List.nil_sublist _, by simp, List.Forall₂.nil⟩
    | [t], _ =>
      obtain ⟨hrep, hc⟩ := hmem t (List.mem_singleton.mpr rfl)
      exact ⟨[(g, decoded rt m)], List.Sublist.refl _, by simpa using hc,
        List.Forall₂.cons hrep List.Forall₂.nil⟩

/-- The tasks of a delivery that applies no status: none hands over a status. -/
theorem Inv.told_delivered {sub : Subscription ClientCallback} {m : SlurmMessage}
    {rest : List (Subscription ClientCallback × SlurmMessage)} (hact : l.act = .deliver)
    (hr : Routed x.session l) (hc : x.session.captured = (sub, m) :: rest) {ts : List Task}
    (hts : ∀ t ∈ ts, (∃ d, sub.callback = .dispatch d ∧ t = Dispatch.task l.rt d sub.id m) ∨
      (sub.callback.Forwards ∧ ∃ r, x.session.tracker.globalCallbacks.get? t.listener = some r ∧
        r.event = m.msgType ∧ t.callback = r.callback ∧ t.message.msgType = m.msgType)) :
    Told jobOf x.roll ts [] := by
  refine told_of_sees fun t ht => ?_
  rcases hts t ht with ⟨d, hd, rfl⟩ | ⟨hf, r, hget, hev, hcb, hty⟩
  · obtain ⟨a, ha, hcb, hkey, hne⟩ := h.captured sub m (hc ▸ List.mem_cons_self) d hd
    have hty : (Dispatch.task l.rt d sub.id m).message.msgType = a.key := by
      rw [hkey]
      exact SlurmMessage.msgType_withMetadata m _
    exact ⟨⟨.job a, ha, congrArg some hcb.symm, hty⟩, by rw [hty]; exact hne⟩
  · refine ⟨⟨.manager r.event r.callback, h.globals _ r hget, congrArg some hcb.symm, hty.trans hev.symm⟩, ?_⟩
    intro hstatus
    rw [hty] at hstatus
    unfold Routed at hr
    rw [hact] at hr
    cases m with
    | status m' => exact hr sub m' rest hc hf r (Dict.mem_values_iff.mpr ⟨_, hget⟩) hev
    | heartbeat m' => cases hstatus
    | log m' => cases hstatus

theorem Inv.told_step (hl : Session.Sectioned l) (hr : Routed x.session l) (hs : Steps x l x') :
    Told jobOf x'.roll x'.session.tracker.tasks x'.session.tracker.accepted := by
  have hnew : ∃ ts ys, x'.session.tracker.tasks = x.session.tracker.tasks ++ ts ∧
      x'.session.tracker.accepted = x.session.tracker.accepted ++ ys ∧ Told jobOf x.roll ts ys := by
    cases hs.session.recorded hl with
    | quiet hq =>
      refine ⟨[], [], ?_, ?_, told_nil⟩
      · exact (congrArg (fun y => y.2.1) hq).trans (List.append_nil _).symm
      · exact (congrArg (fun y => y.2.2) hq).trans (List.append_nil _).symm
    | @accepted m g hd hq =>
      refine ⟨_, _, ?_, congrArg (fun y => y.2.2) hq, h.told_accepted l.rt m g⟩
      exact (congrArg (fun y => y.2.1) hq).trans (List.append_assoc _ _ _)
    | @delivered sub m rest hact hc hno hq =>
      obtain ⟨ts, hts, hmem⟩ := tasks_deliver x.session.tracker l.rt hno
      refine ⟨ts, [], by rw [hq, hts], ?_, h.told_delivered hact hr hc hmem⟩
      rw [hq, List.append_nil]
      exact congrArg (fun y => y.2.2.2) (frame_deliver l.rt hno x.session.tracker)
  obtain ⟨ts, ys, hts, hys, htold⟩ := hnew
  rw [hts, hys]
  exact (h.told.append htold).enrol fun i k hk => h.roll_mono hs hk

/-- **A routed step keeps every listener to its event.** -/
theorem Inv.step (hl : Session.Sectioned l) (hr : Routed x.session l) (hs : Steps x l x') :
    x'.Inv jobOf := by
  refine ⟨?_, h.globals_step hl hs, h.captured_step hr hs, h.told_step hl hr hs⟩
  rw [hs.tags]
  exact h.tagged.retag hl hs.session

end Step

/-! ## Runs -/

/-- Every listener got its own events only, and whoever was told of a terminal status was told of a job
that is done. -/
structure OwnEvents (x : Watched) : Prop where
  told : Told x.session.jobOf x.roll x.session.tracker.tasks x.session.tracker.accepted
  settled : ∀ t ∈ x.session.tracker.tasks, ∀ m st, t.message = .status m →
    JobStatus.ofValue? (splitColon m.status).1 = some st → st.terminal = true →
      ∃ f, m.metadata.get? "job_id" = some (x.session.jobOf f) ∧ (x.session.tracker.futures f).done = true

/-- A status that is reported was accepted. -/
theorem Told.reported {roll : SubId → Option Enrolment} {ts : List Task}
    {ys : List (FutureRef × JobStatus)} (h : Told jobOf roll ts ys) {t : Task} (ht : t ∈ ts)
    {m : StatusMessage} (hm : t.message = .status m) : ∃ y ∈ ys, Reported jobOf t y := by
  obtain ⟨k, hk, -, hev⟩ := h.sees t ht
  rw [hm] at hev
  obtain ⟨l, hsub, -, hrel⟩ := h.accepted t.listener k hk hev.symm
  have hmem : t ∈ ts.filter fun t' => t'.listener = t.listener :=
    List.mem_filter.mpr ⟨ht, decide_eq_true rfl⟩
  obtain ⟨n, hn, hget⟩ := List.mem_iff_getElem.mp hmem
  obtain ⟨hlen, hall⟩ := List.forall₂_iff_get.mp hrel
  have hrep := hall n hn (hlen ▸ hn)
  rw [List.get_eq_getElem, hget] at hrep
  exact ⟨_, hsub.subset (List.get_mem _ _), hrep⟩

/-- The run of the session itself. -/
theorem run_session {x₀ : Watched} {ls : List Label} (hrun : Run Steps (fun _ l => Session.Sectioned l) x₀ ls x) :
    ∃ ks, Run Session.Steps (fun _ l => Session.Sectioned l) x₀.session ks x.session := by
  obtain ⟨ks, s, hsrun, rfl⟩ := hrun.simulate (r := fun x s => s = x.session) rfl
    fun _ l t _ ha hl hs => ⟨[l], t.session, Run.single hl (ha ▸ hs.session), rfl⟩
  exact ⟨ks, hsrun⟩

/-- **A listener gets messages of its own event only.**  In every run whose steps are routed, whatever the
listeners, the publishers and the order of the steps:

* a task hands its listener a message of the type that the listener registered for;
* the status messages of a status listener are accepted statuses, in order and each at most once, of its
  job, or of any job for a manager-wide listener;
* a listener that was told of a terminal status was told of a job that is done. -/
theorem listeners_see_own_events {x₀ x : Watched} {ls : List Label} (h₀ : x₀.session.Initial)
    (hroll : ∀ i, x₀.roll i = none)
    (hrun : Run Steps (fun x l => Session.Sectioned l ∧ Routed x.session l) x₀ ls x) : x.OwnEvents := by
  obtain ⟨-, hglo, -, -, -, htasks, hacc⟩ := h₀.maps
  have hnone : x₀.tags = fun _ => none := by
    funext i
    unfold tags
    rw [hroll]
    rfl
  have hbase : x₀.Inv x₀.session.jobOf := by
    refine ⟨by rw [hnone]; exact h₀.tagged, by rw [hglo]; exact Dict.all_empty, ?_, ?_⟩
    · rw [h₀.histories.1]
      simp
    · rw [htasks, hacc]
      exact told_nil
  have hinv : x.Inv x₀.session.jobOf :=
    hrun.invariant hbase fun _ _ _ hx hl hs => hx.step hl.1 hl.2 hs
  obtain ⟨ks, hsrun⟩ := run_session (hrun.mono fun _ _ hok => hok.1)
  have hjob : x.session.jobOf = x₀.session.jobOf := funext hinv.tagged.tracker.jobIds
  have htold := hinv.told
  rw [← hjob] at htold
  refine ⟨htold, fun t ht m st hm hst hterm => ?_⟩
  obtain ⟨y, hy, m', hm', hread, hid⟩ := htold.reported ht hm
  obtain rfl := SlurmMessage.status.inj (hm.symm.trans hm')
  refine ⟨y.1, hid, (h₀.lifecycle_run hsrun y.1).done_iff.mpr ⟨st, ?_, hterm⟩⟩
  obtain rfl := Option.some.inj (hst.symm.trans hread)
  exact List.mem_map.mpr ⟨y, List.mem_filter.mpr ⟨hy, decide_eq_true rfl⟩, rfl⟩

/-- What happened to the listeners: who got a message, and of which type. -/
def outcome (x : Watched) : List (SubId × Event) :=
  x.session.tracker.tasks.map fun t => (t.listener, t.message.msgType)

/-- A new tracker on a server that never fails, for the jobs `j`, `jj`, … -/
def fresh : Watched := { session := Session.new (fun _ _ => none) Session.unary }

/-- Whether the section is routed since nobody is registered whom it could reach by mistake. -/
def unmistakable (x : Watched) (l : Label) : Bool :=
  decide (Session.Sectioned l) &&
    match l.act with
    | .poll t _ => (x.session.tracker.subClient.capture t).all fun sub => decide ¬ sub.callback.Dispatches
    | .deliver => x.session.tracker.globalCallbacks.values.all fun r => decide (r.event ≠ .status)
    | _ => true

theorem routed_of_unmistakable (h : unmistakable x l = true) : Session.Sectioned l ∧ Routed x.session l := by
  obtain ⟨hl, hr⟩ := Bool.and_eq_true_iff.mp h
  refine ⟨of_decide_eq_true hl, ?_⟩
  unfold Routed
  cases hact : l.act with
  | poll t m =>
    rw [hact] at hr
    exact fun _ _ _ _ sub hsub => of_decide_eq_true (List.all_eq_true.mp hr sub hsub)
  | deliver =>
    rw [hact] at hr
    exact fun _ _ _ _ _ r hreg => of_decide_eq_true (List.all_eq_true.mp hr r hreg)
  | _ => trivial

/-- The job `j` is tracked, then a manager-wide listener and one of the job are added. -/
def listening (manager job : Event) : List Label :=
  ⟨.still, .startTrack 0 0⟩ :: List.replicate 6 ⟨.still, .proceed 0⟩ ++
    [⟨.still, .listenGlobal manager 8⟩, ⟨.still, .startAdd 1 ⟨"j", job, 7⟩⟩, ⟨.still, .proceed 1⟩, ⟨.still, .proceed 1⟩]

/-- A log line on the heartbeat channel of a job goes to the manager-wide log listener, a final status on
its status channel to the status listener. -/
theorem listeners_see_own_events_of_log_on_heartbeat : ∃ (x : Watched) (ls : List Label),
    Run Steps (fun x l => Session.Sectioned l ∧ Routed x.session l) fresh ls x ∧
      x.outcome = [(3, .log), (4, .status)] ∧ x.OwnEvents := by
  have hex : ∃ x : Watched, Run Steps (fun x l => Session.Sectioned l ∧ Routed x.session l) fresh
      (listening .log .status ++ [⟨.still, .poll "info/j/heartbeat" (.log { log := "x" })⟩, ⟨.still, .deliver⟩,
        ⟨.still, .poll "info/j/status" (.status { status := "finished" })⟩, ⟨.still, .deliver⟩]) x ∧
      decide (x.outcome = [(3, .log), (4, .status)]) = true :=
    Run.of_leads (fun _ _ _ => id) (fun _ _ => routed_of_unmistakable) (by decide +kernel)
  obtain ⟨x, hrun, hout⟩ := hex
  exact ⟨x, _, hrun, of_decide_eq_true hout,
    listeners_see_own_events (Session.initial_new _ Session.unary_injective) (fun _ => rfl) hrun⟩

/-- **A status on the log channel passes by `apply_status`.**  The log listener of the job and the
manager-wide status listener are both told that the job finished, while nothing was accepted and the
future is not done. -/
theorem finished_on_log_topic : ∃ (x : Watched) (ls : List Label),
    Run Steps (fun _ l => Session.Sectioned l) fresh ls x ∧ x.outcome = [(3, .status), (4, .status)] ∧
      (x.roll 3).map Enrolment.event = some .status ∧ (x.roll 4).map Enrolment.event = some .log ∧
      x.session.tracker.accepted = [] ∧ (∀ f, (x.session.tracker.futures f).done = false) ∧ ¬ x.OwnEvents := by
  have hex : ∃ x : Watched, Run Steps (fun _ l => Session.Sectioned l) fresh
      (listening .status .log ++ [⟨.still, .poll "info/j/log" (.status { status := "finished" })⟩,
        ⟨.still, .deliver⟩, ⟨.still, .deliver⟩]) x ∧
      (decide (x.outcome = [(3, .status), (4, .status)]) &&
        decide ((x.roll 3).map Enrolment.event = some .status) &&
        decide ((x.roll 4).map Enrolment.event = some .log) && x.session.tracker.accepted.isEmpty) = true :=
    Run.of_leads (fun _ _ _ => id) (fun _ _ => of_decide_eq_true) (by decide +kernel)
  obtain ⟨x, hrun, hend⟩ := hex
  simp only [Bool.and_eq_true, decide_eq_true_eq, List.isEmpty_iff] at hend
  obtain ⟨⟨⟨hout, h₃⟩, h₄⟩, hacc⟩ := hend
  have hd : ∀ f, (x.session.tracker.futures f).done = false := by
    intro f
    obtain ⟨ks, hsrun⟩ := run_session hrun
    have hlife := (Session.initial_new (fun _ _ => none) Session.unary_injective).lifecycle_run hsrun f
    rw [Bool.eq_false_iff, Ne, hlife.done_iff, JobTracker.statusesOf, hacc]
    simp
  refine ⟨x, _, hrun, hout, h₃, h₄, hacc, hd, fun h => ?_⟩
  obtain ⟨t, ht, hpair⟩ : ∃ t ∈ x.session.tracker.tasks, (t.listener, t.message.msgType) = (3, .status) := by
    refine List.mem_map.mp ?_
    show _ ∈ x.outcome
    rw [hout]
    exact List.mem_cons_self
  cases hm : t.message with
  | status m =>
    obtain ⟨y, hy, -⟩ := h.told.reported ht hm
    rw [hacc] at hy
    simp at hy
  | heartbeat m =>
    rw [hm] at hpair
    exact absurd (Prod.mk.inj hpair).2 (by simp [SlurmMessage.msgType])
  | log m =>
    rw [hm] at hpair
    exact absurd (Prod.mk.inj hpair).2 (by simp [SlurmMessage.msgType])

end Watched

end SlurmManager
