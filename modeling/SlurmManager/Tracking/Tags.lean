import SlurmManager.Tracking.Session

/-!
# Tags — what each id was drawn for

Ids come from one source and are used for three purposes: the internal subscriptions of `track`, the
listeners of `add_subscription`, and the manager-wide listeners.  Wherever an id occurs, the callback
stored with it is of the kind that the id was drawn for.  This does not depend on what Redis answers.

* `ClientFits`, `TrackerFits`: what the tag of an id says about a registration under it.
* `Tagged`: every registration of the tracker and of its client fits.  Every operation keeps this
  (`keeps_*`); the operations that draw an id extend the assignment (`Tagged.subscribe`,
  `Tagged.listenGlobal`).
-/

namespace SlurmManager

open Program

/-- What an id was drawn for. -/
inductive Tag
  | internal (e : Event)
  | listener (a : JobTracker.AddArgs)
  | global

/-- A registration of the client fits the tag of its id. -/
def ClientFits (tag : SubId → Option Tag) (t : Topic) (i : SubId) (sub : Subscription ClientCallback) :
    Prop :=
  sub.id = i ∧ match tag i with
    | some (.internal e) => ∃ f g, sub.callback = JobTracker.internalCallback e f g ∧ t = topicOf g.jobId e
    | some (.listener a) => t = a.topic ∧ ∃ g, sub.callback = a.redisCallback g
    | _ => False

/-- A record of the tracker fits the tag of its id. -/
def TrackerFits (tag : SubId → Option Tag) (t : Topic) (i : SubId) (info : SubscriptionInfo) : Prop :=
  match tag i with
  | some (.internal _) => info.callback = none
  | some (.listener a) => t = a.topic ∧ ∃ g, info.callback = some (a.dispatch g)
  | _ => False

theorem ClientFits.ne_none {tag : SubId → Option Tag} {t : Topic} {i : SubId}
    {sub : Subscription ClientCallback} (h : ClientFits tag t i sub) : tag i ≠ none := by
  intro hn
  simp [ClientFits, hn] at h

theorem TrackerFits.ne_none {tag : SubId → Option Tag} {t : Topic} {i : SubId} {info : SubscriptionInfo}
    (h : TrackerFits tag t i info) : tag i ≠ none := by
  intro hn
  simp [TrackerFits, hn] at h

theorem ClientFits.congr {tag tag' : SubId → Option Tag} {t : Topic} {i : SubId}
    {sub : Subscription ClientCallback} (h : ClientFits tag t i sub) (ht : tag' i = tag i) :
    ClientFits tag' t i sub := by
  unfold ClientFits
  rw [ht]
  exact h

theorem TrackerFits.congr {tag tag' : SubId → Option Tag} {t : Topic} {i : SubId} {info : SubscriptionInfo}
    (h : TrackerFits tag t i info) (ht : tag' i = tag i) : TrackerFits tag' t i info := by
  unfold TrackerFits
  rw [ht]
  exact h

/-! ## The client -/

namespace RedisSubClient

variable {χ : Type} {ok : Topic → SubId → Subscription χ → Prop} {n : ℕ}

/-- The next id, and a property of every registration. -/
structure Filed (n : ℕ) (ok : Topic → SubId → Subscription χ → Prop) (c : RedisSubClient χ) : Prop where
  next : c.nextUuid = n
  subs : c.subscriptionsByTopic.Nested ok

theorem keeps_send (cmd : Command) : Keeps (Filed (χ := χ) n ok) (send cmd) := by
  intro c hc
  rw [after, exec_send]
  exact ⟨hc.next, hc.subs⟩

theorem keeps_unsubscribe (i : SubId) : Keeps (Filed (χ := χ) n ok) (unsubscribe i) := by
  refine Keeps.get_bind fun c hc => ?_
  split
  · exact within_pure _
  · rename_i topic _
    refine Within.bind (within_modify fun _ h => ⟨h.next, h.subs⟩) fun _ => ?_
    split
    · exact within_pure _
    · rename_i callbacks hb
      have hall : (callbacks.erase i).All (ok topic) := (hc.subs topic callbacks hb).erase i
      refine Within.bind (within_modify fun _ h => ⟨h.next, h.subs.set hall⟩) fun _ => ?_
      split
      · exact within_pure _
      · refine Within.bind (within_modify fun _ h => ⟨h.next, h.subs.erase topic⟩) fun _ => ?_
        exact Within.bind (keeps_send _) fun _ => within_pure _

theorem keeps_unsubscribeTopic (t : Topic) : Keeps (Filed (χ := χ) n ok) (unsubscribeTopic t) := by
  refine Keeps.get_bind fun c _ => ?_
  refine Within.bind (within_modify fun _ h => ⟨h.next, h.subs.erase t⟩) fun _ => ?_
  split
  · exact within_pure _
  · split
    · exact within_pure _
    · refine Within.bind (within_modify fun _ h => ⟨h.next, h.subs⟩) fun _ => ?_
      exact Within.bind (keeps_send _) fun _ => within_pure _

/-- A subscription draws one id, whether SUBSCRIBE raises or not. -/
theorem Filed.subscribe {c : RedisSubClient χ} (h : c.Filed n ok) {t : Topic} {cb : χ}
    (hok : ok t n ⟨n, t, cb⟩) :
    ((RedisSubClient.subscribe t cb).after c).Filed (n + 1) ok ∧
      ∀ i, ((RedisSubClient.subscribe t cb).exec c).1 = .ok i → i = n := by
  obtain rfl := h.next
  unfold after
  cases hb : c.subscriptionsByTopic.get? t with
  | some b =>
    rw [exec_subscribe_joined hb]
    refine ⟨⟨rfl, h.subs.set ((h.subs t b hb).set hok)⟩, fun i hi => ?_⟩
    exact (Except.ok.inj hi).symm
  | none =>
    cases hs : c.pubsub.outcome (.subscribe t) with
    | ok u =>
      rw [exec_subscribe_opened hb hs]
      refine ⟨⟨rfl, h.subs.set (Dict.all_empty.set hok)⟩, fun i hi => ?_⟩
      exact (Except.ok.inj hi).symm
    | error e =>
      rw [exec_subscribe_raised hb hs]
      exact ⟨⟨rfl, h.subs⟩, fun i hi => by cases hi⟩

end RedisSubClient

/-! ## The tracker -/

namespace JobTracker

/-- Every registration fits the tag of its id; the ids from `n` on are unused.  The job ids of the
futures are `jobOf`. -/
structure Tagged (jobOf : FutureRef → String) (tag : SubId → Option Tag) (n : ℕ) (s : JobTracker) :
    Prop where
  client : s.subClient.Filed n (ClientFits tag)
  records : s.subscriptionsByTopic.Nested (TrackerFits tag)
  globals : s.globalCallbacks.All fun i _ => tag i = some .global
  jobIds : ∀ f, (s.futures f).jobId = jobOf f

variable {jobOf : FutureRef → String} {tag : SubId → Option Tag} {n : ℕ}

section Registrations

theorem keeps_onClient {α : Type} {x : Program PyError (RedisSubClient ClientCallback) α}
    (hx : Keeps (RedisSubClient.Filed n (ClientFits tag)) x) : Keeps (Tagged jobOf tag n) (onClient x) :=
  within_focus fun s hs => ⟨hx s.subClient hs.client, hs.records, hs.globals, hs.jobIds⟩

theorem keeps_registerSubscriptionForJob {info : SubscriptionInfo}
    (hi : ∀ i, info.callbackId = some i → TrackerFits tag info.topic i info) :
    Keeps (Tagged jobOf tag n) (registerSubscriptionForJob info) := by
  unfold registerSubscriptionForJob
  split
  · exact within_throw _
  · rename_i i hid
    refine within_modify fun s hs => ⟨hs.client, hs.records.set ?_, hs.globals, hs.jobIds⟩
    exact (hs.records.inner info.topic).set (hi i hid)

theorem keeps_indexCallback (rt : Runtime) {e : Event} {f : FutureRef} {i : SubId}
    (hi : tag i = some (.internal e)) : Keeps (Tagged jobOf tag n) (indexCallback rt e f i) := by
  refine Keeps.get_bind fun s _ => keeps_registerSubscriptionForJob fun k hk => ?_
  have hik : i = k := by cases e <;> exact Option.some.inj hk
  subst hik
  unfold TrackerFits
  rw [hi]
  cases e <;> rfl

theorem keeps_checkActive (a : AddArgs) : Keeps (Tagged jobOf tag n) (checkActive a) := by
  refine Keeps.get_bind fun s _ => ?_
  split
  · exact within_throw _
  · split
    · exact within_throw _
    · exact within_pure _

theorem keeps_validateListener {a : AddArgs} {f : FutureRef} {i : SubId}
    (hi : tag i = some (.listener a)) : Keeps (Tagged jobOf tag n) (validateListener a f i) := by
  refine Keeps.get_bind fun s _ => ?_
  split
  · exact Within.bind (keeps_onClient (RedisSubClient.keeps_unsubscribe i)) fun _ => within_throw _
  · refine Within.bind (keeps_registerSubscriptionForJob fun k hk => ?_) fun _ => within_pure _
    obtain rfl : i = k := Option.some.inj hk
    unfold TrackerFits
    rw [hi]
    exact ⟨rfl, _, rfl⟩

theorem keeps_beginSchedulerCheck (rt : Runtime) (j : String) :
    Keeps (Tagged jobOf tag n) (beginSchedulerCheck rt j) := by
  refine Keeps.get_bind fun s _ => ?_
  split
  · exact within_pure _
  · split
    · exact within_pure _
    · refine Within.bind (within_modify fun s hs => ?_) fun _ => within_pure _
      refine ⟨hs.client, hs.records.modify fun b hb => hb.mapValues fun i info hinfo => ?_, hs.globals,
        hs.jobIds⟩
      split_ifs <;> exact hinfo

end Registrations

section Removals

theorem keeps_dropTopic (t : Topic) : Keeps (Tagged jobOf tag n) (dropTopic t) := by
  refine Within.bind (within_modify fun s hs => ?_) fun _ =>
    Within.bind (keeps_onClient (RedisSubClient.keeps_unsubscribeTopic t)) fun _ => within_pure _
  exact ⟨hs.client, hs.records.erase t, hs.globals, hs.jobIds⟩

theorem keeps_discardJob (rt : Runtime) (j : String) : Keeps (Tagged jobOf tag n) (discardJob rt j) := by
  refine Keeps.get_bind fun s _ => Within.bind (within_modify fun s hs => ?_) fun _ =>
    Within.bind (within_forM fun t _ => keeps_dropTopic t) fun _ => within_modify fun s hs => ?_
  · exact ⟨hs.client, hs.records, hs.globals, hs.jobIds⟩
  · exact ⟨hs.client, hs.records, hs.globals, hs.jobIds⟩

theorem keeps_removeId (i : SubId) : Keeps (Tagged jobOf tag n) (removeId i) := by
  refine Keeps.get_bind fun s _ => ?_
  split
  · exact within_modify fun s hs => ⟨hs.client, hs.records, hs.globals.erase i, hs.jobIds⟩
  · split
    · exact within_pure _
    · rename_i topic _
      refine Within.bind (within_modify fun s hs => ?_) fun _ =>
        Within.bind (keeps_onClient (RedisSubClient.keeps_unsubscribe i)) fun _ => ?_
      · exact ⟨hs.client, hs.records.modify fun b hb => hb.erase i, hs.globals, hs.jobIds⟩
      · split
        · exact within_pure _
        · refine Within.bind (within_modify fun s hs => ?_) fun _ => ?_
          · exact ⟨hs.client, hs.records.erase topic, hs.globals, hs.jobIds⟩
          · split
            · exact within_pure _
            · exact within_modify fun s hs => ⟨hs.client, hs.records, hs.globals, hs.jobIds⟩

theorem keeps_removeSubscriptionById (ids : List SubId) :
    Keeps (Tagged jobOf tag n) (removeSubscriptionById ids) := within_forM fun i _ => keeps_removeId i

theorem keeps_removeSubscriptionByTopic (t : Topic) :
    Keeps (Tagged jobOf tag n) (removeSubscriptionByTopic t) := by
  refine Keeps.get_bind fun s _ => Within.bind (within_modify fun s hs => ?_) fun _ =>
    Within.bind (within_modify fun s' hs => ?_) fun _ =>
      Within.bind (keeps_onClient (RedisSubClient.keeps_unsubscribeTopic t)) fun _ => within_pure _
  · exact ⟨hs.client, hs.records.erase t, hs.globals, hs.jobIds⟩
  · generalize ((s.subscriptionsByTopic.get? t).getD ∅).entries = l
    induction l generalizing s' with
    | nil => exact hs
    | cons e l ih => exact ih _ ⟨hs.client, hs.records, hs.globals, hs.jobIds⟩

end Removals

section Statuses

theorem keeps_dispatchGlobal (rt : Runtime) (m : SlurmMessage) (j : String) (slurm : Option String) :
    Keeps (Tagged jobOf tag n) (dispatchGlobal rt m j slurm) :=
  within_modify fun _ hs => ⟨hs.client, hs.records, hs.globals, hs.jobIds⟩

theorem keeps_applyStatus (rt : Runtime) (m : StatusMessage) (f : FutureRef) :
    Keeps (Tagged jobOf tag n) (applyStatus rt m f) := by
  intro s hs
  have haccept : Tagged jobOf tag n (s.accept rt m f) :=
    ⟨hs.client, hs.records, hs.globals, fun g => by rw [accept_jobId]; exact hs.jobIds g⟩
  cases hd : (s.futures f).done with
  | true =>
    rw [after, exec_applyStatus_done rt m f hd]
    exact hs
  | false =>
    cases ht : (decoded rt m).terminal with
    | false =>
      rw [after, exec_applyStatus_running rt m f hd ht]
      exact haccept
    | true =>
      rw [after, exec_applyStatus_terminal rt m f hd ht]
      exact keeps_discardJob rt _ _ haccept

theorem keeps_removeSubscriptionsForJob (rt : Runtime) (j : String) (skip : Bool) :
    Keeps (Tagged jobOf tag n) (removeSubscriptionsForJob rt j skip) := by
  intro s hs
  rw [after]
  rcases exec_removeSubscriptionsForJob rt j skip with ⟨f, -, -, -, he⟩ | ⟨-, he⟩
  · rw [he]
    exact keeps_applyStatus rt _ f s hs
  · rw [he]
    exact keeps_discardJob rt j s hs

theorem keeps_deliver (rt : Runtime) (m : SlurmMessage) (sub : Subscription ClientCallback) :
    Keeps (Tagged jobOf tag n) (deliver rt m sub) := by
  unfold deliver
  split
  · exact within_pure _
  · exact within_modify fun s hs => ⟨hs.client, hs.records, hs.globals, hs.jobIds⟩
  · exact keeps_dispatchGlobal rt _ _ _
  · refine Within.bind (within_modify fun s hs => ?_) fun _ => keeps_dispatchGlobal rt _ _ _
    refine ⟨hs.client, hs.records.modify fun b hb => hb.mapValues fun i info hinfo => ?_, hs.globals,
      hs.jobIds⟩
    split_ifs <;> exact hinfo
  · split
    · refine Keeps.get_bind fun s _ => within_tryCatch (keeps_applyStatus rt _ _) fun _ => within_pure _
    · exact within_pure _

end Statuses

/-! ## New ids -/

section NewIds

variable {s : JobTracker} (h : s.Tagged jobOf tag n) (hn : tag n = none)
include h hn

/-- A new id may be given any tag. -/
theorem Tagged.extend (k : Tag) : s.Tagged jobOf (Function.update tag n (some k)) n := by
  have hold : ∀ {i}, tag i ≠ none → Function.update tag n (some k) i = tag i := by
    intro i hi
    refine Function.update_of_ne ?_ _ _
    rintro rfl
    exact hi hn
  refine ⟨⟨h.client.next, ?_⟩, ?_, ?_, h.jobIds⟩
  · exact h.client.subs.mono fun t b hb => hb.mono fun i sub hf => hf.congr (hold hf.ne_none)
  · exact h.records.mono fun t b hb => hb.mono fun i info hf => hf.congr (hold hf.ne_none)
  · exact h.globals.mono fun i cb hi => (hold (by rw [hi]; simp)).trans hi

theorem Tagged.subscribe {t : Topic} {cb : ClientCallback} {k : Tag}
    (hfit : ClientFits (Function.update tag n (some k)) t n ⟨n, t, cb⟩) {r : Except PyError SubId}
    {s' : JobTracker} (he : (onClient (RedisSubClient.subscribe t cb)).exec s = (r, s')) :
    s'.Tagged jobOf (Function.update tag n (some k)) (n + 1) ∧ ∀ i, r = .ok i → i = n := by
  have hx := h.extend hn k
  obtain ⟨hc, hi⟩ := hx.client.subscribe hfit
  obtain ⟨rfl, rfl⟩ := Prod.mk.inj he
  exact ⟨⟨hc, hx.records, hx.globals, hx.jobIds⟩, hi⟩

theorem Tagged.listenGlobal (e : Event) (cb : Callback) :
    ((listenGlobal e cb).after s).Tagged jobOf (Function.update tag n (some .global)) (n + 1) := by
  have hx := h.extend hn .global
  have hnext := hx.client.next
  refine ⟨⟨?_, hx.client.subs⟩, hx.records, ?_, hx.jobIds⟩
  · show s.subClient.nextUuid + 1 = n + 1
    rw [hnext]
  · refine hx.globals.set ?_
    rw [hnext, Function.update_self]

end NewIds

end JobTracker

/-! ## Sessions -/

open JobTracker Config

/-- The registration that a call has in flight was drawn for it. -/
def Call.Tagged (tag : SubId → Option Tag) : Call → Prop
  | .indexing _ e i _ _ => tag i = some (.internal e)
  | .validating a _ i _ => tag i = some (.listener a)
  | _ => True

namespace Session

/-- The step is a single section: `track`, `add_subscription` and the delivery of a message are taken in
parts. -/
def Sectioned (l : Label) : Prop :=
  match l.act with
  | .track _ => False
  | .addSubscription _ => False
  | .dispatchMessage _ _ => False
  | _ => True

instance : DecidablePred Sectioned := fun l => by
  unfold Sectioned
  split <;> infer_instance

/-- Every id in the session is used for what it was drawn for. -/
structure Tagged (jobOf : FutureRef → String) (tag : SubId → Option Tag) (s : Session) : Prop where
  tracker : s.tracker.Tagged jobOf tag s.tracker.subClient.nextUuid
  unused : ∀ i : ℕ, s.tracker.subClient.nextUuid ≤ i → tag i = none
  calls : ∀ n, (s.calls n).Tagged tag
  captured : ∀ x ∈ s.captured, ∃ t, ClientFits tag t x.1.id x.1

/-- What the step draws an id for. -/
def draws (s : Session) (l : Label) : Option Tag :=
  match l.act with
  | .listenGlobal _ _ => some .global
  | .proceed n =>
    match s.calls n with
    | .subscribing _ e _ => some (.internal e)
    | .adding a _ => some (.listener a)
    | _ => none
  | _ => none

/-- The assignment after the step. -/
def retag (s : Session) (l : Label) (tag : SubId → Option Tag) : SubId → Option Tag :=
  match s.draws l with
  | none => tag
  | some k => Function.update tag s.tracker.subClient.nextUuid (some k)

/-- The assignment covers the old one. -/
def Extends (tag tag' : SubId → Option Tag) : Prop := ∀ i, tag i ≠ none → tag' i = tag i

theorem Initial.tagged {s : Session} (h : s.Initial) : s.Tagged s.jobOf fun _ => none := by
  obtain ⟨-, hglo, hsub, -⟩ := h.maps
  refine ⟨⟨⟨rfl, ?_⟩, ?_, ?_, fun _ => rfl⟩, fun _ _ => rfl, fun n => ?_, ?_⟩
  · rw [h.client.1]
    exact Dict.all_empty
  · rw [hsub]
    exact Dict.all_empty
  · rw [hglo]
    exact Dict.all_empty
  · rw [h.calls n]
    trivial
  · rw [h.histories.1]
    simp

section Step

variable {jobOf : FutureRef → String} {tag : SubId → Option Tag} {s s' : Session} {l : Label}
  (h : s.Tagged jobOf tag)
include h

theorem Tagged.calls_update {n : ℕ} {call : Call} (hc : call.Tagged tag) (m : ℕ) :
    (Function.update s.calls n call m).Tagged tag := by
  by_cases hm : m = n
  · rw [hm, Function.update_self]
    exact hc
  · rw [Function.update_of_ne hm]
    exact h.calls m

/-- A step that draws no id. -/
theorem Tagged.same (hx : s'.tracker.Tagged jobOf tag s.tracker.subClient.nextUuid)
    (hcalls : ∀ m, (s'.calls m).Tagged tag) (hcap : ∀ x ∈ s'.captured, ∃ t, ClientFits tag t x.1.id x.1) :
    s'.Tagged jobOf tag := by
  have hn : s'.tracker.subClient.nextUuid = s.tracker.subClient.nextUuid := hx.client.next
  refine ⟨?_, ?_, hcalls, hcap⟩
  · rw [hn]
    exact hx
  · rw [hn]
    exact h.unused

/-- A new id covers the old ones. -/
theorem Tagged.covers (k : Tag) :
    Extends tag (Function.update tag s.tracker.subClient.nextUuid (some k)) := by
  intro i hi
  refine Function.update_of_ne ?_ _ _
  rintro rfl
  exact hi (h.unused _ le_rfl)

theorem Tagged.extends (l : Label) : Extends tag (s.retag l tag) := by
  unfold retag
  split
  · exact fun _ _ => rfl
  · exact h.covers _

/-- A step that draws one id, for a call or for itself. -/
theorem Tagged.drawn {k : Tag} {n : ℕ}
    (hx : s'.tracker.Tagged jobOf (Function.update tag s.tracker.subClient.nextUuid (some k))
      (s.tracker.subClient.nextUuid + 1))
    (hcalls : s'.calls = s.calls ∨ ∃ call, s'.calls = Function.update s.calls n call ∧
      call.Tagged (Function.update tag s.tracker.subClient.nextUuid (some k)))
    (hcap : s'.captured = s.captured) :
    s'.Tagged jobOf (Function.update tag s.tracker.subClient.nextUuid (some k)) := by
  have hold := h.covers k
  have hcall : ∀ m, (s.calls m).Tagged (Function.update tag s.tracker.subClient.nextUuid (some k)) := by
    intro m
    have hm := h.calls m
    cases hc : s.calls m with
    | indexing f e i o rest =>
      rw [hc] at hm
      exact (hold i (by rw [hm]; simp)).trans hm
    | validating a f i o =>
      rw [hc] at hm
      exact (hold i (by rw [hm]; simp)).trans hm
    | _ => trivial
  have hn : s'.tracker.subClient.nextUuid = s.tracker.subClient.nextUuid + 1 := hx.client.next
  refine ⟨?_, fun i hi => ?_, fun m => ?_, ?_⟩
  · rw [hn]
    exact hx
  · rw [hn] at hi
    have hne : i ≠ s.tracker.subClient.nextUuid := Nat.ne_of_gt hi
    rw [Function.update_of_ne hne]
    exact h.unused i (Nat.le_of_succ_le hi)
  · rcases hcalls with hcalls | ⟨call, hcalls, hc⟩
    · rw [hcalls]
      exact hcall m
    · rw [hcalls]
      by_cases hm : m = n
      · rw [hm, Function.update_self]
        exact hc
      · rw [Function.update_of_ne hm]
        exact hcall m
  · rw [hcap]
    intro x hxc
    obtain ⟨t, ht⟩ := h.captured x hxc
    exact ⟨t, ht.congr (hold _ ht.ne_none)⟩

theorem Tagged.proceed {rt : Runtime} {n : ℕ} (hs : s.proceed rt n = some s') :
    s'.Tagged jobOf (s.retag ⟨rt, .proceed n⟩ tag) := by
  have hnone : tag s.tracker.subClient.nextUuid = none := h.unused _ le_rfl
  unfold Session.proceed at hs
  unfold retag draws
  dsimp only
  cases hcall : s.calls n with
  | subscribing f e rest =>
    simp only [hcall] at hs ⊢
    rcases hr : (subscribeCallback e f).exec s.tracker with ⟨r, t⟩
    rw [hr] at hs
    rw [exec_subscribeCallback] at hr
    obtain ⟨ht, hi⟩ := h.tracker.subscribe hnone (k := .internal e) ⟨rfl, by
      rw [Function.update_self]
      exact ⟨f, s.tracker.futures f, rfl, rfl⟩⟩ hr
    cases r with
    | ok i =>
      obtain rfl := Option.some.inj hs
      obtain rfl := hi i rfl
      refine h.drawn ht (Or.inr ⟨_, rfl, ?_⟩) rfl
      exact Function.update_self _ _ _
    | error err =>
      obtain rfl := Option.some.inj hs
      exact h.drawn ht (Or.inr ⟨_, rfl, trivial⟩) rfl
  | indexing f e i o rest =>
    have hi := h.calls n
    rw [hcall] at hi
    simp only [hcall] at hs ⊢
    obtain rfl := Option.some.inj hs
    refine h.same (keeps_indexCallback rt hi s.tracker h.tracker) (fun m => ?_) h.captured
    refine h.calls_update ?_ m
    cases rest <;> trivial
  | adding a f =>
    simp only [hcall] at hs ⊢
    rcases hr : (subscribeListener a f).exec s.tracker with ⟨r, t⟩
    rw [hr] at hs
    rw [show (subscribeListener a f).exec s.tracker = _ from
      Program.exec_bind_ok (Program.exec_get s.tracker)] at hr
    obtain ⟨ht, hi⟩ := h.tracker.subscribe hnone (k := .listener a) ⟨rfl, by
      rw [Function.update_self]
      exact ⟨rfl, _, rfl⟩⟩ hr
    cases r with
    | ok i =>
      obtain rfl := Option.some.inj hs
      obtain rfl := hi i rfl
      refine h.drawn ht (Or.inr ⟨_, rfl, ?_⟩) rfl
      exact Function.update_self _ _ _
    | error err =>
      obtain rfl := Option.some.inj hs
      exact h.drawn ht (Or.inr ⟨_, rfl, trivial⟩) rfl
  | validating a f i o =>
    have hi := h.calls n
    rw [hcall] at hi
    simp only [hcall] at hs ⊢
    rcases hr : (validateListener a f i).exec s.tracker with ⟨r, t⟩
    have ht := (keeps_validateListener (f := f) hi).of_exec hr h.tracker
    rw [hr] at hs
    cases r with
    | ok k =>
      obtain rfl := Option.some.inj hs
      exact h.same ht (h.calls_update trivial) h.captured
    | error err =>
      obtain rfl := Option.some.inj hs
      exact h.same ht (h.calls_update trivial) h.captured
  | idle => simp [hcall] at hs
  | cancelling f => simp [hcall] at hs
  | checking f => simp [hcall] at hs
  | ended r => simp [hcall] at hs

theorem Tagged.retag (hl : Sectioned l) (hs : Steps s l s') : s'.Tagged jobOf (s.retag l tag) := by
  have ht := h.tracker
  obtain ⟨rt, act⟩ := l
  unfold Steps step at hs
  unfold Sectioned at hl
  cases act with
  | track f => exact hl.elim
  | addSubscription a => exact hl.elim
  | dispatchMessage t m => exact hl.elim
  | applyStatus m f =>
    obtain rfl := Option.some.inj hs
    exact h.same (keeps_applyStatus rt m f _ ht) h.calls h.captured
  | removeSubscriptionById ids =>
    obtain rfl := Option.some.inj hs
    exact h.same (keeps_removeSubscriptionById ids _ ht) h.calls h.captured
  | removeSubscriptionByTopic t =>
    obtain rfl := Option.some.inj hs
    refine h.same (keeps_removeSubscriptionByTopic t _ ht) (fun m => ?_) h.captured
    have hm := h.calls m
    show ((s.calls m).overtake s.jobOf t).Tagged tag
    cases hc : s.calls m <;> rw [hc] at hm <;> exact hm
  | removeSubscriptionsForJob j skip =>
    obtain rfl := Option.some.inj hs
    exact h.same (keeps_removeSubscriptionsForJob rt j skip _ ht) h.calls h.captured
  | beginSchedulerCheck j =>
    obtain rfl := Option.some.inj hs
    exact h.same (keeps_beginSchedulerCheck rt j _ ht) h.calls h.captured
  | listenGlobal e cb =>
    obtain rfl := Option.some.inj hs
    exact h.drawn (n := 0) (ht.listenGlobal (h.unused _ le_rfl) e cb) (Or.inl rfl) rfl
  | startTrack n f =>
    simp only at hs
    cases hcall : s.calls n with
    | idle =>
      simp only [hcall] at hs
      split_ifs at hs
      obtain rfl := Option.some.inj hs
      exact h.same ⟨ht.client, ht.records, ht.globals, ht.jobIds⟩ (h.calls_update trivial) h.captured
    | _ => simp [hcall] at hs
  | startAdd n a =>
    simp only at hs
    cases hcall : s.calls n with
    | idle =>
      simp only [hcall] at hs
      rcases hr : (checkActive a).exec s.tracker with ⟨r, t⟩
      have hx := (keeps_checkActive a).of_exec hr ht
      rw [hr] at hs
      cases r with
      | ok f =>
        obtain rfl := Option.some.inj hs
        exact h.same hx (h.calls_update trivial) h.captured
      | error err =>
        obtain rfl := Option.some.inj hs
        exact h.same hx (h.calls_update trivial) h.captured
    | _ => simp [hcall] at hs
  | startCancel n j =>
    simp only at hs
    cases hcall : s.calls n with
    | idle =>
      simp only [hcall] at hs
      obtain rfl := Option.some.inj hs
      exact h.same ht (h.calls_update trivial) h.captured
    | _ => simp [hcall] at hs
  | startCheck n j =>
    simp only at hs
    cases hcall : s.calls n with
    | idle =>
      simp only [hcall] at hs
      rcases hr : (beginSchedulerCheck rt j).exec s.tracker with ⟨r, t⟩
      have hx := (keeps_beginSchedulerCheck rt j).of_exec hr ht
      rw [hr] at hs
      rcases r with err | (_ | f)
      · obtain rfl := Option.some.inj hs
        exact h.same hx (h.calls_update trivial) h.captured
      · obtain rfl := Option.some.inj hs
        exact h.same hx (h.calls_update trivial) h.captured
      · obtain rfl := Option.some.inj hs
        exact h.same hx (h.calls_update trivial) h.captured
    | _ => simp [hcall] at hs
  | proceed n => exact h.proceed hs
  | cancelled n rest =>
    simp only at hs
    cases hcall : s.calls n with
    | cancelling future =>
      simp only [hcall] at hs
      split at hs
      · obtain rfl := Option.some.inj hs
        exact h.same ht (h.calls_update trivial) h.captured
      · obtain rfl := Option.some.inj hs
        exact h.same ht (h.calls_update trivial) h.captured
      · obtain rfl := Option.some.inj hs
        exact h.same (keeps_applyStatus rt _ _ _ ht) (h.calls_update trivial) h.captured
    | _ => simp [hcall] at hs
  | checked n verdict =>
    simp only at hs
    cases hcall : s.calls n with
    | checking f =>
      simp only [hcall] at hs
      split at hs
      · obtain rfl := Option.some.inj hs
        exact h.same ht (h.calls_update trivial) h.captured
      · obtain rfl := Option.some.inj hs
        exact h.same (keeps_applyStatus rt _ _ _ ht) (h.calls_update trivial) h.captured
    | _ => simp [hcall] at hs
  | poll t m =>
    simp only at hs
    split at hs
    · obtain rfl := Option.some.inj hs
      refine h.same ht h.calls fun x hx => ?_
      obtain ⟨sub, hsub, rfl⟩ := List.mem_map.mp hx
      obtain ⟨i, hi⟩ := Dict.mem_values_iff.mp hsub
      have hfit := ht.client.subs.inner t i sub hi
      refine ⟨t, ?_⟩
      show ClientFits tag t sub.id sub
      rw [hfit.1]
      exact hfit
    · simp at hs
  | deliver =>
    simp only at hs
    cases hc : s.captured with
    | nil => simp [hc] at hs
    | cons e rest =>
      obtain ⟨sub, m⟩ := e
      simp only [hc] at hs
      obtain rfl := Option.some.inj hs
      refine h.same (keeps_deliver rt m sub _ ht) h.calls fun x hx => h.captured x ?_
      rw [hc]
      exact List.mem_cons_of_mem _ hx

/-- **Every section keeps the ids in order.** -/
theorem Tagged.step (hl : Sectioned l) (hs : Steps s l s') :
    ∃ tag', s'.Tagged jobOf tag' ∧ Extends tag tag' :=
  ⟨_, h.retag hl hs, h.extends l⟩

end Step

end Session

end SlurmManager
