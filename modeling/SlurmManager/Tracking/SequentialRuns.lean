import SlurmManager.Tracking.Interleaving

/-!
# SequentialRuns — public operations taken one after the other

Runs in which every call is one step: `track`, `apply_status`, `add_subscription`, the three removals,
`begin_scheduler_check` and the delivery of heartbeats, in any order, for any number of jobs.

* `InternalRegistered`: a tracked job keeps its three internal subscriptions on both sides, except
  where `remove_subscription_by_topic` has taken one since.
* `MapsAgree`: the six maps of the tracker and of its client agree.
-/

namespace SlurmManager

open JobTracker Config

namespace Session

/-- The operations of a sequential run.  Only ids that `add_subscription` returned are removed by id. -/
def Whole (s : Session) (l : Label) : Prop :=
  match l.act with
  | .track _ => True
  | .addSubscription _ => True
  | .applyStatus _ _ => True
  | .removeSubscriptionById ids => ∀ i ∈ ids, i ∈ s.listeners
  | .removeSubscriptionByTopic _ => True
  | .removeSubscriptionsForJob _ _ => True
  | .beginSchedulerCheck _ => True
  | .dispatchMessage _ m => m.msgType = .heartbeat
  | _ => False

/-- The internal subscription for an event is in every map of the tracker and of the client. -/
structure InternalRegistered (s : JobTracker) (f : FutureRef) (e : Event) (i : SubId) : Prop where
  tracker : ∃ b info, s.subscriptionsByTopic.get? (topicOf (s.futures f).jobId e) = some b ∧
    b.get? i = some info ∧ info.callback = none
  owner : s.topicBySubscriptionId.get? i = some (topicOf (s.futures f).jobId e)
  active : topicOf (s.futures f).jobId e ∈ s.activeTopics (s.futures f).jobId
  client : ∃ b sub, s.subClient.subscriptionsByTopic.get? (topicOf (s.futures f).jobId e) = some b ∧
    b.get? i = some sub ∧ sub.callback = internalCallback e f (s.futures f)
  clientOwner : s.subClient.topicBySubscriptionId.get? i = some (topicOf (s.futures f).jobId e)

/-- The maps of the tracker, those of the client, and the two sides agree. -/
structure MapsAgree (s : JobTracker) : Prop where
  owner_iff : ∀ i t, s.topicBySubscriptionId.get? i = some t ↔
    ∃ b info, s.subscriptionsByTopic.get? t = some b ∧ b.get? i = some info
  active_iff : ∀ j t, t ∈ s.activeTopics j ↔
    ∃ b i info, s.subscriptionsByTopic.get? t = some b ∧ b.get? i = some info ∧ info.jobId = j
  nonempty : ∀ t b, s.subscriptionsByTopic.get? t = some b → b.isEmpty = false
  records : ∀ t b i info, s.subscriptionsByTopic.get? t = some b → b.get? i = some info →
    info.callbackId = some i ∧ info.topic = t ∧ IsTopicOf info.jobId t
  client_iff : ∀ i t, s.subClient.topicBySubscriptionId.get? i = some t ↔
    ∃ b sub, s.subClient.subscriptionsByTopic.get? t = some b ∧ b.get? i = some sub
  sides : ∀ i, s.subClient.topicBySubscriptionId.get? i = s.topicBySubscriptionId.get? i

theorem bucket_iff {κ ι ν : Type} [DecidableEq κ] [DecidableEq ι] {ix : Index κ ι ν}
    (h : ix.Consistent) {i : ι} {k : κ} {v : ν} :
    ix.find? i = some (k, v) ↔ ∃ b, ix.buckets.get? k = some b ∧ b.get? i = some v := by
  rw [Index.find?_eq_some_iff h, Index.bucket]
  cases ix.buckets.get? k <;> simp

section Facts

variable {jobOf : FutureRef → String} {c : Config} (h : c.Inv jobOf)
include h

theorem find?_iff_maps {i : SubId} {t : Topic} {info : SubscriptionInfo} :
    c.tracker.find? i = some (t, info) ↔
      ∃ b, c.tracker.subscriptionsByTopic.get? t = some b ∧ b.get? i = some info :=
  bucket_iff h.wellFormed.consistent

theorem client_find?_iff_maps {i : SubId} {t : Topic} {sub : Subscription ClientCallback} :
    c.tracker.subClient.find? i = some (t, sub) ↔
      ∃ b, c.tracker.subClient.subscriptionsByTopic.get? t = some b ∧ b.get? i = some sub :=
  bucket_iff h.wellFormed.client.consistent

/-- Without registrations in flight, the invariants are the agreement of all maps. -/
theorem mapsAgree (ha : c.Agree jobOf) (hp : ∀ i, c.pending i = none) : MapsAgree c.tracker := by
  refine ⟨fun i t => ?_, fun j t => ?_, fun t b hb => h.wellFormed.consistent.nonempty t b hb,
    fun t b i info hb hi => ?_, fun i t => ?_, fun i => ?_⟩
  · rw [topic_eq_some_iff h.wellFormed]
    simp only [find?_iff_maps h]
    exact exists_comm
  · rw [h.wellFormed.active_iff]
    constructor
    · rintro ⟨hj, i, info, hf⟩
      obtain ⟨b, hb, hi⟩ := (find?_iff_maps h).mp hf
      exact ⟨b, i, info, hb, hi, (jobId_eq_iff h.wellFormed hf).mpr hj⟩
    · rintro ⟨b, i, info, hb, hi, hj⟩
      have hf := (find?_iff_maps h).mpr ⟨b, hb, hi⟩
      exact ⟨(jobId_eq_iff h.wellFormed hf).mp hj, i, info, hf⟩
  · exact h.wellFormed.filed i t info ((find?_iff_maps h).mpr ⟨b, hb, hi⟩)
  · rw [RedisSubClient.topic_eq_some_iff h.wellFormed.client]
    simp only [client_find?_iff_maps h]
    exact exists_comm
  · refine Option.ext fun t => ⟨fun hi => ?_, fun hi => ha.mirrored i t hi⟩
    rcases h.owned i t hi with ho | ⟨p, hip, -⟩
    · exact ho
    · rw [hp i] at hip
      simp at hip

theorem internalRegistered_of_monitored {f : FutureRef} {e : Event} (hm : c.Monitored f e) :
    topicOf (c.tracker.futures f).jobId e ∈ c.cutTopics ∨ ∃ i, InternalRegistered c.tracker f e i := by
  rcases hm with hc | ⟨i, info, sub, hf, hn, hcl, hcb⟩
  · exact Or.inl hc
  · obtain ⟨b, hb, hi⟩ := (find?_iff_maps h).mp hf
    obtain ⟨k, hk, hki⟩ := (client_find?_iff_maps h).mp hcl
    refine Or.inr ⟨i, ⟨b, info, hb, hi, hn⟩, ?_, ?_, ⟨k, sub, hk, hki, hcb⟩, ?_⟩
    · exact (topic_eq_some_iff h.wellFormed).mpr ⟨info, hf⟩
    · exact (h.wellFormed.active_iff _ _).mpr ⟨isTopicOf_topicOf _ _, i, info, hf⟩
    · exact (RedisSubClient.topic_eq_some_iff h.wellFormed.client).mpr ⟨sub, hcl⟩

end Facts

/-- Removals by id take ids handed out; no registration is in flight between two operations. -/
def sequential : Guard where
  ids := fun listeners i => i ∈ listeners
  fresh := True

variable {s s' : Session}

/-- A sequential step leaves no call in flight. -/
theorem Whole.idle {l : Label} (hl : s.Whole l) (hs : Steps s l s') (hi : ∀ n, s.calls n = .idle) :
    ∀ n, s'.calls n = .idle := by
  obtain ⟨rt, act⟩ := l
  unfold Steps step at hs
  unfold Whole at hl
  intro n
  cases act with
  | track f =>
    simp only at hs
    split_ifs at hs
    obtain rfl := Option.some.inj hs
    exact hi n
  | addSubscription a =>
    simp only at hs
    split at hs <;> (obtain rfl := Option.some.inj hs; exact hi n)
  | removeSubscriptionByTopic t =>
    obtain rfl := Option.some.inj hs
    show (s.calls n).overtake s.jobOf t = .idle
    rw [hi n]
    rfl
  | applyStatus => obtain rfl := Option.some.inj hs; exact hi n
  | removeSubscriptionById => obtain rfl := Option.some.inj hs; exact hi n
  | removeSubscriptionsForJob => obtain rfl := Option.some.inj hs; exact hi n
  | beginSchedulerCheck => obtain rfl := Option.some.inj hs; exact hi n
  | dispatchMessage => obtain rfl := Option.some.inj hs; exact hi n
  | _ => exact hl.elim

theorem Whole.admits {l : Label} (hl : s.Whole l) : s.Admits sequential l := by
  obtain ⟨rt, act⟩ := l
  cases act <;> first | exact hl | trivial

/-- The internal subscriptions of every future that was put in the registry are watched, but for `old` ones. -/
def AllWatched (old : List FutureRef) (s : Session) (pending : SubId → Option Pending) : Prop :=
  ∀ f ∈ s.published, f ∉ old → ∀ e, (s.config pending).Watched f e

/-- A run of critical sections keeps the watched subscriptions watched. -/
theorem run_watched {jobOf : FutureRef → String} {c c' : Config} {ms : List Micro}
    (hrun : Run (Config.Step jobOf) sequential.micro c ms c') (h : c.Inv jobOf) (hn : c.Named)
    {f : FutureRef} {e : Event} (hw : c.Watched f e) : c'.Watched f e := by
  refine (hrun.invariant (I := fun d => d.Inv jobOf ∧ d.Named ∧ d.Watched f e) ⟨h, hn, hw⟩ ?_).2.2
  exact fun _ _ _ hd hok hs => ⟨hd.1.step hs, hd.2.1.step hd.1 hs, hd.2.2.step hd.1 hd.2.1 hok.1 hs⟩

/-- What holds between two operations of a sequential run. -/
structure Steady (jobOf : FutureRef → String) (old : List FutureRef) (s : Session) : Prop where
  idle : ∀ n, s.calls n = .idle
  sound : s.Sound jobOf (fun _ => none)
  agree : (s.config fun _ => none).Agree jobOf
  quiet : (s.config fun _ => none).Quiet
  watched : s.AllWatched old fun _ => none

theorem pending_eq_none {jobOf : FutureRef → String} {pending : SubId → Option Pending}
    (hh : Holds jobOf s.calls pending) (hi : ∀ n, s.calls n = .idle) : pending = fun _ => none := by
  funext i
  cases hp : pending i with
  | none => rfl
  | some p =>
    obtain ⟨n, hn⟩ := hh.held i p hp
    rw [hi n] at hn
    simp [Call.holds] at hn

/-- The futures that a sequential step adds to the registry. -/
theorem published_of_step {l : Label} (hl : s.Whole l) (hs : Steps s l s') :
    s'.published = s.published ∨ ∃ f, l.act = .track f ∧ f ∉ s.published ∧
      (s.tracker.futures f).done = false ∧
      s' = { s with tracker := (track l.rt f).after s.tracker, published := s.published ++ [f] } := by
  obtain ⟨rt, act⟩ := l
  unfold Steps step at hs
  unfold Whole at hl
  cases act with
  | track f =>
    simp only at hs
    split_ifs at hs with hf
    obtain ⟨hf, hd⟩ := not_or.mp hf
    exact Or.inr ⟨f, rfl, hf, by simpa using hd, (Option.some.inj hs).symm⟩
  | addSubscription a =>
    simp only at hs
    split at hs <;> exact Or.inl (Option.some.inj hs ▸ rfl)
  | removeSubscriptionByTopic t => exact Or.inl (Option.some.inj hs ▸ rfl)
  | applyStatus => exact Or.inl (Option.some.inj hs ▸ rfl)
  | removeSubscriptionById => exact Or.inl (Option.some.inj hs ▸ rfl)
  | removeSubscriptionsForJob => exact Or.inl (Option.some.inj hs ▸ rfl)
  | beginSchedulerCheck => exact Or.inl (Option.some.inj hs ▸ rfl)
  | dispatchMessage => exact Or.inl (Option.some.inj hs ▸ rfl)
  | _ => exact hl.elim

/-- **Every operation of a sequential run keeps the six maps in order.** -/
theorem Steady.step {jobOf : FutureRef → String} {old : List FutureRef} {l : Label} (h : s.Steady jobOf old)
    (hl : s.Whole l) (hs : Steps s l s') : s'.Steady jobOf old := by
  have hidle := hl.idle hs h.idle
  obtain ⟨pending, ms, hrun, hh, hf⟩ := h.sound.answered hl.admits hs
  obtain rfl := pending_eq_none hh hidle
  obtain ⟨hi, hn⟩ := run_sound hrun h.sound
  refine ⟨hidle, ⟨hi, hn, hh, hf⟩, run_agree trivial hrun h.sound.inv h.agree,
    run_quiet hrun h.sound.inv h.quiet, fun f hpub hold e => ?_⟩
  rcases published_of_step hl hs with hp | ⟨f₀, -, hf₀, hd, hs'⟩
  · exact run_watched hrun h.sound.inv h.sound.named (h.watched f (hp ▸ hpub) hold e)
  · by_cases hff : f ∈ s.published
    · exact run_watched hrun h.sound.inv h.sound.named (h.watched f hff hold e)
    · -- the future that was just tracked
      subst hs'
      obtain rfl : f = f₀ := by
        rcases List.mem_append.mp hpub with hpub | hpub
        · exact absurd hpub hff
        · simpa using hpub
      obtain ⟨r, x, ls, he, -, -, -, hm, hok⟩ := track_run h.sound.inv h.sound.named l.rt hf₀ hd
      have he' : (track l.rt f).exec s.tracker = (r, x) := he
      have hmon := hm (hok h.quiet.subscribes) e
      refine ⟨hpub, fun _ => ?_⟩
      simp only [Program.after, he']
      exact hmon

theorem Initial.steady {s₀ : Session} (h : s₀.Initial) (hc : s₀.Calm) : s₀.Steady s₀.jobOf [] := by
  refine ⟨h.calls, h.sound hc.unsubscribes, h.agree, h.quiet hc, fun f hf => ?_⟩
  rw [h.histories.2.1] at hf
  simp at hf

/-! ## Removed topics -/

/-- The topics that the steps of a run removed. -/
def cutBy (ls : List Label) : List Topic :=
  ls.filterMap fun l => match l.act with
    | .removeSubscriptionByTopic t => some t
    | _ => none

theorem cutBy_append (ls : List Label) (l : Label) : cutBy (ls ++ [l]) = cutBy ls ++ cutBy [l] := List.filterMap_append

/-- The session with another history of removed topics. -/
def recut (ts : List Topic) (s : Session) : Session := { s with cutTopics := ts }

/-- No step looks at the removed topics. -/
theorem Steps.recut {l : Label} (hl : s.Whole l) (hs : Steps s l s') (ts : List Topic) :
    Steps (s.recut ts) l (s'.recut (ts ++ cutBy [l])) := by
  obtain ⟨rt, act⟩ := l
  unfold Steps step at hs ⊢
  unfold Whole at hl
  cases act with
  | track f =>
    rw [show cutBy [⟨rt, .track f⟩] = [] from rfl, List.append_nil]
    simp only at hs ⊢
    split_ifs at hs with hf
    obtain rfl := Option.some.inj hs
    exact if_neg hf
  | addSubscription a =>
    rw [show cutBy [⟨rt, .addSubscription a⟩] = [] from rfl, List.append_nil]
    simp only at hs ⊢
    rcases hx : (addSubscription a).exec s.tracker with ⟨r, t⟩
    rw [hx] at hs
    rw [show (addSubscription a).exec (s.recut ts).tracker = (r, t) from hx]
    cases r <;> (obtain rfl := Option.some.inj hs; rfl)
  | removeSubscriptionByTopic t =>
    obtain rfl := Option.some.inj hs
    rfl
  | applyStatus m f =>
    rw [show cutBy [⟨rt, .applyStatus m f⟩] = [] from rfl, List.append_nil]
    obtain rfl := Option.some.inj hs
    rfl
  | removeSubscriptionById ids =>
    rw [show cutBy [⟨rt, .removeSubscriptionById ids⟩] = [] from rfl, List.append_nil]
    obtain rfl := Option.some.inj hs
    rfl
  | removeSubscriptionsForJob j skip =>
    rw [show cutBy [⟨rt, .removeSubscriptionsForJob j skip⟩] = [] from rfl, List.append_nil]
    obtain rfl := Option.some.inj hs
    rfl
  | beginSchedulerCheck j =>
    rw [show cutBy [⟨rt, .beginSchedulerCheck j⟩] = [] from rfl, List.append_nil]
    obtain rfl := Option.some.inj hs
    rfl
  | dispatchMessage t m =>
    rw [show cutBy [⟨rt, .dispatchMessage t m⟩] = [] from rfl, List.append_nil]
    obtain rfl := Option.some.inj hs
    rfl
  | _ => exact hl.elim

theorem run_recut {ls : List Label} (hrun : Run Steps Whole s ls s') (ts : List Topic) :
    Run Steps Whole (s.recut ts) ls (s'.recut (ts ++ cutBy ls)) := by
  induction hrun with
  | nil =>
    rw [show cutBy [] = [] from rfl, List.append_nil]
    exact Run.nil _
  | @snoc s' s'' ls l hrun hl hs ih =>
    rw [cutBy_append, ← List.append_assoc]
    exact Run.snoc ih hl (hs.recut hl _)

/-- A future that a run put in the registry was tracked in it, once. -/
theorem tracked_of_published {ls : List Label} (hrun : Run Steps Whole s ls s') {f : FutureRef}
    (hf : f ∉ s.published) (hf' : f ∈ s'.published) : ∃ ls₁ rt ls₂ t, ls = ls₁ ++ ⟨rt, .track f⟩ :: ls₂ ∧
      Run Steps Whole s ls₁ t ∧ f ∉ t.published ∧ Run Steps Whole t (⟨rt, .track f⟩ :: ls₂) s' := by
  induction hrun with
  | nil => exact absurd hf' hf
  | @snoc s' s'' ls l hrun hl hs ih =>
    by_cases hold : f ∈ s'.published
    · obtain ⟨ls₁, rt, ls₂, t, rfl, h₁, hft, h₂⟩ := ih hold
      exact ⟨ls₁, rt, ls₂ ++ [l], t, by simp, h₁, hft, Run.snoc h₂ hl hs⟩
    · rcases published_of_step hl hs with hp | ⟨g, hact, -, -, rfl⟩
      · exact absurd (hp ▸ hf') hold
      · obtain rfl : f = g := by
          rcases List.mem_append.mp hf' with hf' | hf'
          · exact absurd hf' hold
          · exact List.mem_singleton.mp hf'
        obtain ⟨rt, act⟩ := l
        obtain rfl : act = .track f := hact
        exact ⟨ls, rt, [], s', rfl, hrun, hold, Run.single hl hs⟩

/-- The registrations are in order after a run `ls`: (a) a job in the registry is unfinished and has its three internal
subscriptions in every map, except where `remove_subscription_by_topic` took the topic after the job was tracked; (b) a
job outside the registry is mentioned by no map; (c) the maps of both sides agree. -/
structure InOrder (ls : List Label) (s : Session) : Prop where
  tracked : ∀ j f, s.tracker.futureRegistry.get? j = some f →
    (s.tracker.futures f).jobId = j ∧ (s.tracker.futures f).done = false ∧
    ∃ ls₁ rt ls₂, ls = ls₁ ++ ⟨rt, .track f⟩ :: ls₂ ∧
      ∀ e, topicOf j e ∈ cutBy ls₂ ∨ ∃ i, InternalRegistered s.tracker f e i
  untracked : ∀ j, s.tracker.futureRegistry.get? j = none → s.tracker.Forgotten j ∧
    ∀ e, s.tracker.subClient.subscriptionReady.get? (topicOf j e) = none
  agree : MapsAgree s.tracker

/-- **Every sequential run leaves the registrations in order.** -/
theorem sequential_registrations {s₀ s : Session} {ls : List Label} (h₀ : s₀.Initial) (hc : s₀.Calm)
    (hrun : Run Steps Whole s₀ ls s) : s.InOrder ls := by
  have hsteady : ∀ {old t t' ls}, Run Steps Whole t ls t' → t.Steady s₀.jobOf old → t'.Steady s₀.jobOf old :=
    fun hrun h => hrun.invariant h fun _ _ _ h hl hs => h.step hl hs
  have h := hsteady hrun (h₀.steady hc)
  have hinv := h.sound.inv
  refine ⟨fun j f hj => ?_, fun j hj => ?_, mapsAgree hinv h.agree fun _ => rfl⟩
  · obtain ⟨hjob, hd, hpub⟩ := hinv.registry j f hj
    have hjob' : (s.tracker.futures f).jobId = j := (hinv.jobIds f).trans hjob
    have hf₀ : f ∉ s₀.published := by
      rw [h₀.histories.2.1]
      exact List.not_mem_nil
    obtain ⟨ls₁, rt, ls₂, t, rfl, h₁, hf, h₂⟩ := tracked_of_published hrun hf₀ hpub
    refine ⟨hjob', hd, ls₁, rt, ls₂, rfl, fun e => ?_⟩
    -- from the call of `track` on, with no topic removed so far
    have ht := hsteady h₁ (h₀.steady hc)
    have hfresh : (t.recut []).Steady s₀.jobOf t.published :=
      ⟨ht.idle, ⟨⟨ht.sound.inv.wellFormed, ht.sound.inv.unsubscribes, ht.sound.inv.jobIds, ht.sound.inv.pending,
        ht.sound.inv.owned, ht.sound.inv.live, ht.sound.inv.active, ht.sound.inv.registry⟩, ht.sound.named,
        ht.sound.holds, ht.sound.fits⟩, ⟨ht.agree.mirrored, ht.agree.kept⟩, ⟨ht.quiet.subscribes, ht.quiet.synced⟩,
        fun g hg hno => absurd hg hno⟩
    have hend := hsteady (run_recut h₂ []) hfresh
    have hreg : s.tracker.futureRegistry.get? (s.tracker.futures f).jobId = some f := by
      rw [hjob']
      exact hj
    have hmon := internalRegistered_of_monitored hend.sound.inv ((hend.watched f hpub hf e).2 hreg)
    rcases hmon with hcut | hex
    · refine Or.inl ?_
      rw [← hjob']
      exact hcut
    · exact Or.inr hex
  · have hfor := hinv.forgotten hj (by simp)
    exact ⟨hfor, fun e => (h.quiet.closed (hfor.callbacks _ (isTopicOf_topicOf j e))).1⟩

/-- A topic removed, two jobs tracked, a listener added, one job finished, the other removed by topic in part. -/
def twoJobs : List Label :=
  [⟨.still, .removeSubscriptionByTopic "info/jj/status"⟩, ⟨.still, .track 0⟩, ⟨.still, .addSubscription ⟨"j", .log, 7⟩⟩,
    ⟨.still, .track 1⟩, ⟨.still, .applyStatus { status := "finished" } 0⟩,
    ⟨.still, .removeSubscriptionByTopic "info/jj/log"⟩]

theorem sequential_registrations_of_two_jobs : ∃ s, Run Steps Whole (new (fun _ _ => none) unary) twoJobs s ∧
    s.InOrder twoJobs := by
  have hex : ∃ s, Run Steps Whole (new (fun _ _ => none) unary) twoJobs s :=
    ⟨_, Run.cons trivial rfl (Run.cons trivial rfl (Run.cons trivial rfl (Run.cons trivial rfl
      (Run.cons trivial rfl (Run.single trivial rfl)))))⟩
  obtain ⟨s, hrun⟩ := hex
  exact ⟨s, hrun, sequential_registrations (initial_new _ unary_injective)
    ⟨fun _ _ => rfl, fun _ _ => rfl⟩ hrun⟩

end Session

end SlurmManager
