import SlurmManager.Tracking.TopicSteps

/-!
# Internals — the tracker's own subscription for one event of a job

`track` makes one subscription for each event of the job, first in the client and then in its own maps.  The
topic is shared with the listeners of the job, which come and go; the subscription must outlast them.

* `Installation`: how far the subscription has come.  It only goes forward (`Advances`).
* `Marks`: it is the only callback of the tracker under the topic, in the client and in the tracker's own maps.
* `Installs`: besides, while the job is unfinished, it is registered, and indexed once `track` is past it.
* `Marks.step`: every section keeps the first, and every section that leaves it alone (`Leaves`) the second, whatever
  listeners do.
* `Solo`: each job is tracked by one call, which goes through the events once.
-/

namespace SlurmManager

open Program JobTracker

/-- A callback of the tracker itself. -/
def ClientCallback.Internal : ClientCallback → Prop
  | .dispatch _ => False
  | .ignoreStatus => False
  | _ => True

instance : DecidablePred ClientCallback.Internal
  | .dispatch _ => isFalse id
  | .ignoreStatus => isFalse id
  | .event _ => isTrue trivial
  | .log _ _ => isTrue trivial
  | .heartbeat _ _ => isTrue trivial

theorem internal_internalCallback (e : Event) (f : FutureRef) (x : JobFuture) : (internalCallback e f x).Internal := by
  cases e <;> trivial

theorem not_internal_redisCallback (a : AddArgs) (x : JobFuture) : ¬ (a.redisCallback x).Internal := by
  unfold AddArgs.redisCallback
  split_ifs <;> exact id

/-! ## Calls -/

/-- The future that a call is tracking, and the events it is not done with. -/
def Call.tracking : Call → Option (FutureRef × List Event)
  | .subscribing f e rest => some (f, e :: rest)
  | .indexing f e _ _ rest => some (f, e :: rest)
  | _ => none

namespace Session

variable {jobOf : FutureRef → String} {j : String} {e : Event} {s s' : Session} {l : Label}

/-- A call that is tracking was tracking before, or has just begun. -/
theorem Moves.tracking {n : ℕ} {c c' : Call} (hm : Moves s l n c c') {f : FutureRef} {es : List Event}
    (ht : c'.tracking = some (f, es)) :
    (∃ es₀, c.tracking = some (f, es₀) ∧ (es₀ = es ∨ ∃ e, es₀ = e :: es)) ∨
      l.act = .startTrack n f ∧ f ∉ s.published ∧ es = [.heartbeat, .status, .log] := by
  cases hm with
  | stay => exact Or.inl ⟨es, ht, Or.inl rfl⟩
  | overtake => cases c <;> exact Or.inl ⟨es, ht, Or.inl rfl⟩
  | @publish g hl hf =>
    obtain ⟨rfl, rfl⟩ := Prod.mk.inj (Option.some.inj ht)
    exact Or.inr ⟨hl, hf, rfl⟩
  | subscribed => exact Or.inl ⟨es, ht, Or.inl rfl⟩
  | @indexed g e₀ e' i o rest =>
    obtain ⟨rfl, rfl⟩ := Prod.mk.inj (Option.some.inj ht)
    exact Or.inl ⟨_, rfl, Or.inr ⟨e₀, rfl⟩⟩
  | _ => exact absurd ht (by simp [Call.tracking])

/-- What is published stays so, and `track` publishes. -/
theorem Steps.published (hs : Steps s l s') :
    (∀ f ∈ s.published, f ∈ s'.published) ∧ ∀ n f, l.act = .startTrack n f → f ∈ s'.published := by
  obtain ⟨rt, act⟩ := l
  unfold Steps step at hs
  cases act with
  | track f =>
    simp only at hs
    split_ifs at hs
    obtain rfl := Option.some.inj hs
    exact ⟨fun _ => List.mem_append_left _, by simp⟩
  | startTrack n f =>
    simp only at hs
    split at hs
    · split_ifs at hs
      obtain rfl := Option.some.inj hs
      refine ⟨fun _ => List.mem_append_left _, fun m g hact => ?_⟩
      obtain ⟨-, rfl⟩ := Act.startTrack.inj hact
      exact List.mem_append_right _ (List.mem_singleton.mpr rfl)
    · simp at hs
  | proceed n =>
    unfold Session.proceed at hs
    simp only at hs
    refine ⟨fun f hf => ?_, by simp⟩
    split at hs
    · split at hs <;> (obtain rfl := Option.some.inj hs; exact hf)
    · obtain rfl := Option.some.inj hs
      exact hf
    · split at hs <;> (obtain rfl := Option.some.inj hs; exact hf)
    · split at hs <;> (obtain rfl := Option.some.inj hs; exact hf)
    · simp at hs
  | _ =>
    simp only at hs
    refine ⟨fun f hf => ?_, by simp⟩
    repeat' (split at hs)
    all_goals first
      | (obtain rfl := Option.some.inj hs; exact hf)
      | simp at hs

/-- Each job is tracked by one call, and each event of it once. -/
structure Solo (s : Session) : Prop where
  published : ∀ n f es, (s.calls n).tracking = some (f, es) → f ∈ s.published
  nodup : ∀ n f es, (s.calls n).tracking = some (f, es) → es.Nodup
  single : ∀ n m f es es', (s.calls n).tracking = some (f, es) → (s.calls m).tracking = some (f, es') → n = m

theorem Initial.solo (h : s.Initial) : s.Solo := by
  have hno : ∀ n f es, (s.calls n).tracking ≠ some (f, es) := fun n f es => by simp [h.calls n, Call.tracking]
  exact ⟨fun n f es hn => absurd hn (hno n f es), fun n f es hn => absurd hn (hno n f es),
    fun n _ f es _ hn => absurd hn (hno n f es)⟩

theorem Solo.step (h : s.Solo) (hs : Steps s l s') : s'.Solo := by
  have hpub := hs.published
  refine ⟨fun n f es hn => ?_, fun n f es hn => ?_, fun n m f es es' hn hm => ?_⟩
  · rcases (hs.moves n).tracking hn with ⟨es₀, h₀, -⟩ | ⟨hl, -, -⟩
    · exact hpub.1 f (h.published n f es₀ h₀)
    · exact hpub.2 n f hl
  · rcases (hs.moves n).tracking hn with ⟨es₀, h₀, rfl | ⟨e, rfl⟩⟩ | ⟨-, -, rfl⟩
    · exact h.nodup n f _ h₀
    · exact (List.nodup_cons.mp (h.nodup n f _ h₀)).2
    · decide
  · rcases (hs.moves n).tracking hn with ⟨es₀, h₀, -⟩ | ⟨hl, hf, -⟩
    · rcases (hs.moves m).tracking hm with ⟨es₁, h₁, -⟩ | ⟨-, hf, -⟩
      · exact h.single n m f es₀ es₁ h₀ h₁
      · exact absurd (h.published n f es₀ h₀) hf
    · rcases (hs.moves m).tracking hm with ⟨es₁, h₁, -⟩ | ⟨hl', -, -⟩
      · exact absurd (h.published m f es₁ h₁) hf
      · exact (Act.startTrack.inj (hl.symm.trans hl')).1

/-- A call whose `track` concerns the event of the job. -/
theorem tracking_of_phase {call : Call} {p : Phase} (hp : call.phase jobOf j e = some p)
    (hne : ∀ a f i, p ≠ .joining a f i) : ∃ f es, call.tracking = some (f, es) ∧ jobOf f = j := by
  cases call with
  | subscribing f e' rest =>
    refine ⟨f, e' :: rest, rfl, ?_⟩
    by_contra hj
    have hp' : (if jobOf f = j then some _ else none) = some p := hp
    rw [if_neg hj] at hp'
    contradiction
  | indexing f e' i o rest =>
    refine ⟨f, e' :: rest, rfl, ?_⟩
    by_contra hj
    have hp' : (if jobOf f = j then some _ else none) = some p := hp
    rw [if_neg hj] at hp'
    contradiction
  | validating a f i o =>
    have hp' : (if a.topic = topicOf j e then some (Phase.joining a f i) else none) = some p := hp
    split_ifs at hp'
    exact absurd (Option.some.inj hp').symm (hne a f i)
  | _ => exact absurd hp (by simp [Call.phase])

/-- The call that tracks a job is the only one. -/
theorem Solo.phases (h : s.Solo) (hinj : ∀ f g, jobOf f = jobOf g → f = g) {n : ℕ} {f : FutureRef} {es : List Event}
    (hn : (s.calls n).tracking = some (f, es)) (hj : jobOf f = j) {call : Call} {m : ℕ} {p : Phase}
    (hp : ((Function.update s.calls n call) m).phase jobOf j e = some p) :
    call.phase jobOf j e = some p ∨ ∃ a g i, p = .joining a g i := by
  by_cases hm : m = n
  · rw [hm, Function.update_self] at hp
    exact Or.inl hp
  · rw [Function.update_of_ne hm] at hp
    by_contra hne
    obtain ⟨g, es', hg, hgj⟩ := tracking_of_phase hp fun a g i he => hne (Or.inr ⟨a, g, i, he⟩)
    obtain rfl := hinj g f (hgj.trans hj.symm)
    exact hm (h.single m n g es' es hg hn)

/-- A call that has the subscription in flight. -/
theorem indexing_of_phase {call : Call} {i : SubId} (hp : call.phase jobOf j e = some (.inFlight i)) :
    ∃ f o rest, call = .indexing f e i o rest ∧ jobOf f = j := by
  cases call with
  | subscribing f e' rest => exact absurd hp (phase_subscribing_ne f e' rest i)
  | indexing f e' k o rest =>
    have hp' : (if jobOf f = j then some (if e = e' then Phase.inFlight k else
      if e ∈ rest then Phase.owed else Phase.passed) else none) = some (.inFlight i) := hp
    split_ifs at hp' with hj he
    · subst he
      obtain rfl := Phase.inFlight.inj (Option.some.inj hp')
      exact ⟨f, o, rest, rfl, hj⟩
    · exact absurd (Option.some.inj hp') (by simp)
    · exact absurd (Option.some.inj hp') (by simp)
  | validating a f k o =>
    have hp' : (if a.topic = topicOf j e then some (Phase.joining a f k) else none) = some (.inFlight i) := hp
    split_ifs at hp'
    exact absurd (Option.some.inj hp') (by simp)
  | _ => exact absurd hp (by simp [Call.phase])

/-- What a call holds is not indexed. -/
theorem Homed.unindexed {pending : SubId → Option Pending} (h : s.Homed jobOf pending) {n : ℕ} {i : SubId} {p : Pending}
    (hn : (s.calls n).holds jobOf = some (i, p)) (t : Topic) : s.tracker.record? t i = none := by
  have hnone := (h.tracker.inFlight i p (h.holds.listed n i p hn)).2
  cases hr : s.tracker.record? t i with
  | none => rfl
  | some info =>
    have ho := (h.tracker.owner_iff i t).mpr (by rw [hr]; rfl)
    rw [hnone] at ho
    contradiction

/-! ## Futures -/

/-- The ids of a future never change, and what is done stays done. -/
theorem Recorded.future {t : JobTracker} (h : Recorded s l t) (f : FutureRef) :
    (t.futures f).jobId = (s.tracker.futures f).jobId ∧ (t.futures f).slurmJobId = (s.tracker.futures f).slurmJobId ∧
      ((t.futures f).done = false → (s.tracker.futures f).done = false) := by
  refine ⟨?_, ?_, fun hd => ?_⟩
  · cases h with
    | quiet h => rw [show t.futures = s.tracker.futures from congrArg (fun y => y.1) h]
    | @accepted m g hd h =>
      rw [show t.futures = (s.tracker.accept l.rt m g).futures from congrArg (fun y => y.1) h, accept_jobId]
    | delivered _ _ hno h =>
      rw [h, show ((deliver l.rt _ _).after s.tracker).futures = s.tracker.futures from
        congrArg (fun y => y.2.2.1) (frame_deliver l.rt hno s.tracker)]
  · cases h with
    | quiet h => rw [show t.futures = s.tracker.futures from congrArg (fun y => y.1) h]
    | @accepted m g hd h =>
      rw [show t.futures = (s.tracker.accept l.rt m g).futures from congrArg (fun y => y.1) h, accept_slurmJobId]
    | delivered _ _ hno h =>
      rw [h, show ((deliver l.rt _ _).after s.tracker).futures = s.tracker.futures from
        congrArg (fun y => y.2.2.1) (frame_deliver l.rt hno s.tracker)]
  · by_contra hn
    rw [h.done (by simpa using hn)] at hd
    exact hn hd

end Session

/-! ## The subscription -/

/-- How far `track` has come with its subscription for an event: the client has drawn its id, it is indexed. -/
inductive Installation
  | absent
  | subscribed (i : SubId)
  | indexed (i : SubId)

def Installation.id : Installation → Option SubId
  | .absent => none
  | .subscribed i => some i
  | .indexed i => some i

/-- The phases of a call that go with it. -/
def Installation.Fits (x : Installation) : Phase → Prop
  | .owed => x = .absent
  | .inFlight i => x = .subscribed i
  | .passed => ∃ i, x = .indexed i
  | .joining _ _ _ => True

namespace Session

variable {jobOf : FutureRef → String} {j : String} {e : Event} {s s' : Session} {l : Label} {x x' : Installation}

/-- What a step does to the subscription. -/
inductive Advances (jobOf : FutureRef → String) (j : String) (e : Event) (s : Session) (l : Label) :
    Installation → Installation → Prop
  | stay (x : Installation) : Advances jobOf j e s l x x
  | subscribe {n : ℕ} (hl : l.act = .proceed n) (i : SubId) : Advances jobOf j e s l .absent (.subscribed i)
  | index {n : ℕ} {f : FutureRef} {i : SubId} {o : Bool} {rest : List Event} (hl : l.act = .proceed n)
      (hn : s.calls n = .indexing f e i o rest) (hj : jobOf f = j) :
    Advances jobOf j e s l (.subscribed i) (.indexed i)

/-- The client has no other internal subscription for the event of the job than `x`. -/
structure Bounds (jobOf : FutureRef → String) (j : String) (e : Event) (x : Installation) (s : Session) : Prop where
  client : ∀ i sub, s.tracker.subClient.registration? (topicOf j e) i = some sub → sub.callback.Internal →
    x.id = some i
  captured : ∀ y ∈ s.captured, y.1.topic = topicOf j e → y.1.callback.Internal → x.id = some y.1.id
  fresh : (∀ f ∈ s.published, jobOf f ≠ j) → x = .absent
  calls : ∀ n p, (s.calls n).phase jobOf j e = some p → x.Fits p

/-- The tracker's own record for the event of the job is that of `x`, and a call of `track` has what is not indexed. -/
structure Marks (jobOf : FutureRef → String) (j : String) (e : Event) (x : Installation) (s : Session) : Prop
    extends Bounds jobOf j e x s where
  records : ∀ i info, s.tracker.record? (topicOf j e) i = some info → info.callback = none → x = .indexed i
  flying : ∀ i, x = .subscribed i → ∃ n, (s.calls n).phase jobOf j e = some (.inFlight i)

/-- The subscription for the event of the job is at `x`. -/
structure Installs (jobOf : FutureRef → String) (j : String) (e : Event) (x : Installation) (s : Session) : Prop
    extends Marks jobOf j e x s where
  registered : ∀ f i, s.tracker.futureRegistry.get? j = some f → (s.tracker.futures f).done = false →
    x.id = some i → s.tracker.subClient.registration? (topicOf j e) i =
      some ⟨i, topicOf j e, internalCallback e f (s.tracker.futures f)⟩
  indexed : ∀ f i, s.tracker.futureRegistry.get? j = some f → (s.tracker.futures f).done = false →
    x = .indexed i → topicOf j e ∈ s.tracker.activeTopics j ∧
      ∃ info, s.tracker.record? (topicOf j e) i = some info ∧ info.callback = none

theorem Initial.bounds (h : s.Initial) (j : String) (e : Event) : s.Bounds s.jobOf j e .absent := by
  have hclient : ∀ t i, s.tracker.subClient.registration? t i = none := by
    intro t i
    unfold RedisSubClient.registration?
    rw [h.client.1]
    rfl
  have hphase : ∀ n, (s.calls n).phase s.jobOf j e = none := fun n => by rw [h.calls n]; rfl
  refine ⟨fun i sub hi => ?_, fun y hy => ?_, fun _ => rfl, fun n p hn => ?_⟩
  · rw [hclient] at hi
    contradiction
  · rw [h.histories.1] at hy
    contradiction
  · rw [hphase] at hn
    contradiction

theorem Initial.installs (h : s.Initial) (j : String) (e : Event) : s.Installs s.jobOf j e .absent := by
  obtain ⟨hreg, -, hsub, -, -, -, -⟩ := h.maps
  have hrec : ∀ t i, s.tracker.record? t i = none := by
    intro t i
    unfold record?
    rw [hsub]
    rfl
  refine ⟨⟨h.bounds j e, fun i info hi => ?_, fun i hi => ?_⟩, fun f i hf => ?_, fun f i hf => ?_⟩
  · rw [hrec] at hi
    contradiction
  · contradiction
  · rw [hreg] at hf
    contradiction
  · rw [hreg] at hf
    contradiction

/-! ## At most one -/

section Bounds

variable (h : s.Bounds jobOf j e x)
include h

/-- Listeners come and go, and subscriptions go. -/
theorem Bounds.idle (hi : Idle jobOf j e s s') (hc : ∀ i sub,
    s'.tracker.subClient.registration? (topicOf j e) i = some sub →
      s.tracker.subClient.registration? (topicOf j e) i = some sub) : s'.Bounds jobOf j e x := by
  refine ⟨fun i sub hsub => h.client i sub (hc i sub hsub), fun y hy ht hint => ?_,
    fun hp => h.fresh fun f hf => hp f (hi.published f hf), fun n p hn => h.calls n p (hi.calls n p hn)⟩
  rcases hi.captured y hy with hy | hy
  · exact h.captured y hy ht hint
  · exact h.client _ _ (ht ▸ hy) hint

/-- `track` puts the job in the registry. -/
theorem Bounds.published (hsolo : s.Solo) (hinj : ∀ f g, jobOf f = jobOf g → f = g) {n : ℕ} {f : FutureRef}
    (hj : jobOf f = j) (hf : f ∉ s.published) : x = .absent ∧
    ({ s with tracker := publishFuture f s.tracker, published := s.published ++ [f] }.goto n
      (.subscribing f .heartbeat [.status, .log])).Bounds jobOf j e x := by
  obtain rfl : x = .absent := h.fresh fun g hg hgj => hf (hinj g f (hgj.trans hj.symm) ▸ hg)
  -- no other call tracks the job
  have hno : ∀ m p, (s.calls m).phase jobOf j e = some p → ∃ a g i, p = .joining a g i := by
    intro m p hp
    by_contra hne
    obtain ⟨g, es, hg, hgj⟩ := tracking_of_phase hp fun a g i he => hne ⟨a, g, i, he⟩
    exact hf (hinj g f (hgj.trans hj.symm) ▸ hsolo.published m g es hg)
  refine ⟨rfl, h.client, h.captured, fun _ => rfl, fun m p hp => ?_⟩
  by_cases hm : m = n
  · have hp' : ((Function.update s.calls n (.subscribing f .heartbeat [.status, .log])) m).phase jobOf j e = some p := hp
    rw [hm, Function.update_self] at hp'
    have hp'' : (if jobOf f = j then some (if e = .heartbeat ∨ e ∈ [Event.status, .log] then Phase.owed
      else .passed) else none) = some p := hp'
    rw [if_pos hj, if_pos (by cases e <;> simp)] at hp''
    rw [← Option.some.inj hp'']
    rfl
  · have hp' : ((Function.update s.calls n (.subscribing f .heartbeat [.status, .log])) m).phase jobOf j e = some p := hp
    rw [Function.update_of_ne hm] at hp'
    obtain ⟨a, g, i, rfl⟩ := hno m p hp'
    trivial

/-- The client subscription of `track`. -/
theorem Bounds.subscribed (hsolo : s.Solo) (hinj : ∀ f g, jobOf f = jobOf g → f = g) {n : ℕ} {f : FutureRef}
    {rest : List Event} {r : Except PyError SubId} {c : RedisSubClient ClientCallback}
    (hn : s.calls n = .subscribing f e rest) (hj : jobOf f = j)
    (he : (RedisSubClient.subscribe (topicOf j e) (internalCallback e f (s.tracker.futures f))).exec
      s.tracker.subClient = (r, c)) : x = .absent ∧
    ({ s with tracker := { s.tracker with subClient := c } }.goto n
      (.opened (fun i => .indexing f e i false rest) r)).Bounds jobOf j e
        (match r with | .ok i => .subscribed i | .error _ => .absent) := by
  have htrack : (s.calls n).tracking = some (f, e :: rest) := by rw [hn]; rfl
  have hphase : (s.calls n).phase jobOf j e = some .owed := by
    rw [hn]
    show (if jobOf f = j then some (if e = e ∨ e ∈ rest then Phase.owed else .passed) else none) = _
    rw [if_pos hj, if_pos (Or.inl rfl)]
  obtain rfl : x = .absent := h.calls n _ hphase
  refine ⟨rfl, ?_⟩
  cases r with
  | error err =>
    refine ⟨fun i sub hi => ?_, h.captured, h.fresh, fun m p hm => ?_⟩
    · exact h.client i sub ((RedisSubClient.registration?_subscribe_error he i).symm.trans hi)
    · rcases hsolo.phases hinj htrack hj hm with hp | ⟨a, g, i, rfl⟩
      · have hp' : (none : Option Phase) = some p := hp
        contradiction
      · trivial
  | ok i =>
    have hold : ∀ k sub, s.tracker.subClient.registration? (topicOf j e) k = some sub → ¬ sub.callback.Internal := by
      intro k sub hk hint
      have hid := h.client k sub hk hint
      contradiction
    refine ⟨fun k sub hk hint => ?_, fun y hy ht hint => ?_, fun hp => ?_, fun m p hm => ?_⟩
    · have hk' := (RedisSubClient.registration?_subscribe he k).symm.trans hk
      split_ifs at hk' with hki
      · exact congrArg some hki.2.symm
      · exact absurd hint (hold k sub hk')
    · have hx := h.captured y hy ht hint
      contradiction
    · exact absurd hj (hp f (hsolo.published n f _ htrack))
    · rcases hsolo.phases hinj htrack hj hm with hp | ⟨a, g, k, rfl⟩
      · have hp' : (if jobOf f = j then some (if e = e then Phase.inFlight i else
          if e ∈ rest then Phase.owed else .passed) else none) = some p := hp
        rw [if_pos hj, if_pos rfl] at hp'
        rw [← Option.some.inj hp']
        rfl
      · trivial

/-- The indexing of the subscription. -/
theorem Bounds.index (hsolo : s.Solo) (hinj : ∀ f g, jobOf f = jobOf g → f = g) {n : ℕ} {f : FutureRef} {i : SubId}
    {o : Bool} {rest : List Event} (rt : Runtime) (hn : s.calls n = .indexing f e i o rest) (hj : jobOf f = j) :
    x = .subscribed i ∧
    ({ s with tracker := (indexCallback rt e f i).after s.tracker }.goto n (.next f rest)).Bounds jobOf j e
      (.indexed i) := by
  have htrack : (s.calls n).tracking = some (f, e :: rest) := by rw [hn]; rfl
  have hphase : (s.calls n).phase jobOf j e = some (.inFlight i) := by
    rw [hn]
    show (if jobOf f = j then some (if e = e then Phase.inFlight i else
      if e ∈ rest then Phase.owed else .passed) else none) = _
    rw [if_pos hj, if_pos rfl]
  obtain rfl : x = .subscribed i := h.calls n _ hphase
  have hrest : e ∉ rest := (List.nodup_cons.mp (hsolo.nodup n f _ htrack)).1
  refine ⟨rfl, fun k sub hk hint => ?_, h.captured, fun hp => ?_, fun m p hm => ?_⟩
  · have hk' : ((indexCallback rt e f i).after s.tracker).subClient.registration? (topicOf j e) k = some sub := hk
    rw [after, Config.exec_indexCallback] at hk'
    exact h.client k sub hk' hint
  · exact absurd hj (hp f (hsolo.published n f _ htrack))
  · rcases hsolo.phases hinj htrack hj hm with hp | ⟨a, g, k, rfl⟩
    · cases rest with
      | nil =>
        have hp' : (none : Option Phase) = some p := hp
        contradiction
      | cons e' rest =>
        obtain ⟨hne, hrest⟩ := not_or.mp fun hx => hrest (List.mem_cons.mpr hx)
        have hp' : (if jobOf f = j then some (if e = e' ∨ e ∈ rest then Phase.owed else .passed) else none) = some p := hp
        rw [if_pos hj, if_neg (not_or.mpr ⟨hne, hrest⟩)] at hp'
        rw [← Option.some.inj hp']
        exact ⟨i, rfl⟩
    · trivial

/-- A listener joins the topic in the client. -/
theorem Bounds.joined {n : ℕ} {a : AddArgs} {f : FutureRef} {r : Except PyError SubId} {c : RedisSubClient ClientCallback}
    (ha : a.topic = topicOf j e)
    (he : (RedisSubClient.subscribe (topicOf j e) (a.redisCallback (s.tracker.futures f))).exec s.tracker.subClient =
      (r, c)) :
    ({ s with tracker := { s.tracker with subClient := c } }.goto n
      (.opened (fun i => .validating a f i false) r)).Bounds jobOf j e x := by
  refine ⟨fun k sub hk hint => ?_, h.captured, h.fresh, fun m p hp => ?_⟩
  · cases r with
    | error err => exact h.client k sub ((RedisSubClient.registration?_subscribe_error he k).symm.trans hk) hint
    | ok i =>
      have hk' := (RedisSubClient.registration?_subscribe he k).symm.trans hk
      split_ifs at hk' with hik
      · obtain rfl := Option.some.inj hk'
        exact absurd hint (not_internal_redisCallback a _)
      · exact h.client k sub hk' hint
  · have hp' : ((Function.update s.calls n (.opened (fun i => .validating a f i false) r)) m).phase jobOf j e = some p := hp
    by_cases hm : m = n
    · rw [hm, Function.update_self] at hp'
      cases r with
      | error err =>
        have hnone : (none : Option Phase) = some p := hp'
        contradiction
      | ok i =>
        have hif : (if a.topic = topicOf j e then some (Phase.joining a f i) else none) = some p := hp'
        rw [if_pos ha] at hif
        rw [← Option.some.inj hif]
        trivial
    · rw [Function.update_of_ne hm] at hp'
      exact h.calls m p hp'

/-- A listener is indexed, or its client subscription undone. -/
theorem Bounds.validated {n : ℕ} {r : Except PyError (Option SubId)} {t : JobTracker} (ids : List SubId)
    (hf : s.tracker.subClient.Fewer t.subClient) :
    ({ s with tracker := t, listeners := ids }.goto n (.ended r)).Bounds jobOf j e x := by
  refine ⟨fun k sub hk => h.client k sub (hf _ k sub hk), h.captured, h.fresh, fun m p hp => ?_⟩
  have hp' : ((Function.update s.calls n (.ended r)) m).phase jobOf j e = some p := hp
  by_cases hm : m = n
  · rw [hm, Function.update_self] at hp'
    have hnone : (none : Option Phase) = some p := hp'
    contradiction
  · rw [Function.update_of_ne hm] at hp'
    exact h.calls m p hp'

/-- **Every section keeps it at one.** -/
theorem Bounds.step {pending : SubId → Option Pending} (hh : s.Homed jobOf pending) (hsolo : s.Solo)
    (hinj : ∀ f g, jobOf f = jobOf g → f = g) (hl : Sectioned l) (hs : Steps s l s') : ∃ x', s'.Bounds jobOf j e x' := by
  by_cases hk : Leaves j e s l
  · have hon := hh.onTopic hinj hl hk hs
    cases hon with
    | aside hi ht => exact ⟨x, h.idle hi ht.client⟩
    | closed hi ht => exact ⟨x, h.idle hi (ht.client _)⟩
    | checked hi _ _ ht => exact ⟨x, h.idle hi fun i sub hsub => by rwa [ht] at hsub⟩
    | heard hi _ _ _ _ ht => exact ⟨x, h.idle hi fun i sub hsub => by rwa [ht] at hsub⟩
    | published _ _ hj hf => exact ⟨x, (h.published hsolo hinj hj hf).2⟩
    | subscribed _ hn hj he =>
      rw [Config.exec_subscribeCallback, onClient, exec_focus, hh.jobIds, hj] at he
      obtain ⟨rfl, rfl⟩ := Prod.mk.inj he
      exact ⟨_, (h.subscribed hsolo hinj hn hj rfl).2⟩
    | indexed _ hn hj => exact ⟨_, (h.index hsolo hinj l.rt hn hj).2⟩
    | @joined n a f r t _ _ ha he =>
      have hx : (subscribeListener a f).exec s.tracker = _ := exec_bind_ok (exec_get s.tracker)
      rw [hx, onClient, exec_focus, ha] at he
      obtain ⟨rfl, rfl⟩ := Prod.mk.inj he
      exact ⟨x, h.joined ha rfl⟩
    | @validated n a f i o r t ids _ _ _ he =>
      have hfewer := lift_validateListener RedisSubClient.removals_fewer a f i s.tracker
      rw [after, he] at hfewer
      exact ⟨x, h.validated ids hfewer⟩
  · obtain ⟨hi, hlost⟩ := idle_of_removal hk hs
    exact ⟨x, h.idle hi (hlost.client _)⟩

end Bounds

/-! ## Records -/

section Marks

variable (h : s.Marks jobOf j e x)
include h

/-- As long as `track` has not indexed the subscription, nothing lies at its id. -/
theorem Marks.unindexed {pending : SubId → Option Pending} (hh : s.Homed jobOf pending) {i : SubId}
    (hx : x = .subscribed i) (t : Topic) : s.tracker.record? t i = none := by
  obtain ⟨n, hn⟩ := h.flying i hx
  obtain ⟨f, o, rest, hcall, -⟩ := indexing_of_phase hn
  exact hh.unindexed (show (s.calls n).holds jobOf = some (i, _) by rw [hcall]; rfl) t

/-- The calls that have the subscription in flight go on; the records are those of before, stamped or not. -/
theorem Marks.idle (hi : Idle jobOf j e s s') (hc : ∀ i sub,
    s'.tracker.subClient.registration? (topicOf j e) i = some sub →
      s.tracker.subClient.registration? (topicOf j e) i = some sub)
    (hrec : ∀ i info, s'.tracker.record? (topicOf j e) i = some info →
      ∃ info₀, s.tracker.record? (topicOf j e) i = some info₀ ∧ info₀.callback = info.callback) :
    s'.Marks jobOf j e x := by
  refine ⟨h.toBounds.idle hi hc, fun i info hinfo hn => ?_, fun i hx => ?_⟩
  · obtain ⟨info₀, h₀, hcb⟩ := hrec i info hinfo
    exact h.records i info₀ h₀ (hcb.trans hn)
  · obtain ⟨n, hn⟩ := h.flying i hx
    exact ⟨n, hi.flight n i hn⟩

/-- Records and registrations are lost. -/
theorem Marks.lost (hi : Idle jobOf j e s s') (hl : Lost s.tracker s'.tracker) : s'.Marks jobOf j e x :=
  h.idle hi (hl.client _) fun i info hinfo => ⟨info, hl.records _ i info hinfo, rfl⟩

/-- Stamps change no callback. -/
theorem Marks.restamped (hi : Idle jobOf j e s s') {t : Topic} {k : SubId → SubscriptionInfo → SubscriptionInfo}
    (hk : ∀ i info, (k i info).callback = info.callback) {ts : List Task}
    (ht : s'.tracker = { s.tracker.restamp t k with tasks := ts }) : s'.Marks jobOf j e x := by
  refine h.idle hi (fun i sub hsub => by rwa [ht] at hsub) fun i info hinfo => ?_
  have hrec : s'.tracker.record? (topicOf j e) i =
      if topicOf j e = t then (s.tracker.record? (topicOf j e) i).map (k i) else s.tracker.record? (topicOf j e) i := by
    rw [ht]
    exact record?_restamp t k (topicOf j e) i
  rw [hrec] at hinfo
  split_ifs at hinfo
  · obtain ⟨info₀, h₀, rfl⟩ := Option.map_eq_some_iff.mp hinfo
    exact ⟨info₀, h₀, (hk i info₀).symm⟩
  · exact ⟨info, hinfo, rfl⟩

/-- `track` puts the job in the registry. -/
theorem Marks.published (hsolo : s.Solo) (hinj : ∀ f g, jobOf f = jobOf g → f = g) {n : ℕ} {f : FutureRef}
    (hj : jobOf f = j) (hf : f ∉ s.published) : x = .absent ∧
    ({ s with tracker := publishFuture f s.tracker, published := s.published ++ [f] }.goto n
      (.subscribing f .heartbeat [.status, .log])).Marks jobOf j e x := by
  obtain ⟨rfl, hb⟩ := h.toBounds.published hsolo hinj (n := n) hj hf
  exact ⟨rfl, hb, h.records, fun i hi => by contradiction⟩

/-- The client subscription of `track`. -/
theorem Marks.subscribed (hsolo : s.Solo) (hinj : ∀ f g, jobOf f = jobOf g → f = g) {n : ℕ} {f : FutureRef}
    {rest : List Event} {r : Except PyError SubId} {c : RedisSubClient ClientCallback}
    (hn : s.calls n = .subscribing f e rest) (hj : jobOf f = j)
    (he : (RedisSubClient.subscribe (topicOf j e) (internalCallback e f (s.tracker.futures f))).exec
      s.tracker.subClient = (r, c)) : x = .absent ∧
    ({ s with tracker := { s.tracker with subClient := c } }.goto n
      (.opened (fun i => .indexing f e i false rest) r)).Marks jobOf j e
        (match r with | .ok i => .subscribed i | .error _ => .absent) := by
  obtain ⟨rfl, hb⟩ := h.toBounds.subscribed hsolo hinj hn hj he
  refine ⟨rfl, hb, fun k info hk hnone => ?_, fun k hk => ?_⟩
  · have hx := h.records k info hk hnone
    contradiction
  · cases r with
    | error err => contradiction
    | ok i =>
      obtain rfl := Installation.subscribed.inj hk
      refine ⟨n, ?_⟩
      show ((Function.update s.calls n (.indexing f e i false rest)) n).phase jobOf j e = _
      rw [Function.update_self]
      show (if jobOf f = j then some (if e = e then Phase.inFlight i else
        if e ∈ rest then Phase.owed else .passed) else none) = _
      rw [if_pos hj, if_pos rfl]

/-- The indexing of the subscription. -/
theorem Marks.index {pending : SubId → Option Pending} (hh : s.Homed jobOf pending) (hsolo : s.Solo)
    (hinj : ∀ f g, jobOf f = jobOf g → f = g) {n : ℕ} {f : FutureRef} {i : SubId} {o : Bool} {rest : List Event}
    (rt : Runtime) (hn : s.calls n = .indexing f e i o rest) (hj : jobOf f = j) : x = .subscribed i ∧
    ({ s with tracker := (indexCallback rt e f i).after s.tracker }.goto n (.next f rest)).Marks jobOf j e
      (.indexed i) := by
  obtain ⟨rfl, hb⟩ := h.toBounds.index hsolo hinj rt hn hj
  have hjob : (s.tracker.futures f).jobId = j := (hh.jobIds f).trans hj
  refine ⟨rfl, hb, fun k info hk hnone => ?_, fun k hk => by contradiction⟩
  have hk' : ((indexCallback rt e f i).after s.tracker).record? (topicOf j e) k = some info := hk
  rw [after, Config.exec_indexCallback] at hk'
  dsimp only at hk'
  rw [record?_indexed, Config.internalInfo_topic, hjob] at hk'
  split_ifs at hk' with hki
  · rw [hki.2]
  · have hx := h.records k info hk' hnone
    contradiction

/-- A listener joins the topic in the client. -/
theorem Marks.joined {n : ℕ} {a : AddArgs} {f : FutureRef} {r : Except PyError SubId}
    {c : RedisSubClient ClientCallback} (hn : s.calls n = .adding a f) (ha : a.topic = topicOf j e)
    (he : (RedisSubClient.subscribe (topicOf j e) (a.redisCallback (s.tracker.futures f))).exec s.tracker.subClient =
      (r, c)) :
    ({ s with tracker := { s.tracker with subClient := c } }.goto n
      (.opened (fun i => .validating a f i false) r)).Marks jobOf j e x := by
  refine ⟨h.toBounds.joined ha he, h.records, fun i hi => ?_⟩
  obtain ⟨m, hm⟩ := h.flying i hi
  have hmn : m ≠ n := by
    rintro rfl
    rw [hn] at hm
    contradiction
  refine ⟨m, ?_⟩
  show ((Function.update s.calls n _) m).phase jobOf j e = _
  rwa [Function.update_of_ne hmn]

/-- A listener is indexed, or its client subscription undone. -/
theorem Marks.validated {n : ℕ} {a : AddArgs} {f : FutureRef} {i : SubId} {o : Bool} {r : Except PyError SubId}
    {t : JobTracker} (ids : List SubId) (hn : s.calls n = .validating a f i o) (ha : a.topic = topicOf j e)
    (he : (validateListener a f i).exec s.tracker = (r, t)) :
    ({ s with tracker := t, listeners := ids }.goto n (.ended (r.map some))).Marks jobOf j e x := by
  have hb := h.toBounds.validated (n := n) (r := r.map some) ids
    (lift_validateListener RedisSubClient.removals_fewer a f i s.tracker)
  rw [after, he] at hb
  refine ⟨hb, fun k info hk hcb => ?_, fun k hk => ?_⟩
  · have hk' : t.record? (topicOf j e) k = some info := hk
    unfold JobTracker.validateListener at he
    rw [exec_bind_ok (exec_get s.tracker), exec_ite] at he
    split_ifs at he
    · have hlost := (Within.bind (lost_of_client (RedisSubClient.removals_fewer.unsubscribe i)) fun _ =>
        within_throw _).of_exec he
      exact h.records k info (hlost.records _ k info hk') hcb
    · rw [exec_bind_ok (exec_registerSubscriptionForJob rfl)] at he
      obtain ⟨-, rfl⟩ := Prod.mk.inj he
      rw [record?_indexed] at hk'
      split_ifs at hk'
      · obtain rfl := Option.some.inj hk'
        contradiction
      · exact h.records k info hk' hcb
  · obtain ⟨m, hm⟩ := h.flying k hk
    have hmn : m ≠ n := by
      rintro rfl
      rw [hn] at hm
      have hm' : (if a.topic = topicOf j e then some (Phase.joining a f i) else none) = some (.inFlight k) := hm
      rw [if_pos ha] at hm'
      exact absurd (Option.some.inj hm') (by simp)
    refine ⟨m, ?_⟩
    show ((Function.update s.calls n _) m).phase jobOf j e = _
    rwa [Function.update_of_ne hmn]

end Marks

/-! ## One step -/

section Step

variable (h : s.Installs jobOf j e x)
include h

/-- Listeners come and go. -/
theorem Installs.aside {pending : SubId → Option Pending} (hh : s.Homed jobOf pending) (hi : Idle jobOf j e s s')
    (hw : Weeded j (topicOf j e) s.tracker s'.tracker)
    (hfut : ∀ f, internalCallback e f (s'.tracker.futures f) = internalCallback e f (s.tracker.futures f) ∧
      ((s'.tracker.futures f).done = false → (s.tracker.futures f).done = false)) : s'.Installs jobOf j e x := by
  have hm := h.toMarks.idle hi hw.client fun i info hinfo => ⟨info, hw.records i info hinfo, rfl⟩
  refine ⟨hm, fun f i hf hd hx => ?_, fun f i hf hd hx => ?_⟩
  · have hf' := hw.registry.symm.trans hf
    have hd' := (hfut f).2 hd
    have hkept : s.tracker.record? (topicOf j e) i = none ∨ (s'.tracker.record? (topicOf j e) i).isSome := by
      cases x with
      | absent => contradiction
      | subscribed k =>
        obtain rfl : k = i := Option.some.inj hx
        exact Or.inl (h.toMarks.unindexed hh rfl _)
      | indexed k =>
        obtain rfl : k = i := Option.some.inj hx
        obtain ⟨-, info, hinfo, hn⟩ := h.indexed f k hf' hd' rfl
        refine Or.inr ?_
        rw [(hw.internal k info hinfo hn).1]
        rfl
    rw [hw.kept i hkept, (hfut f).1]
    exact h.registered f i hf' hd' hx
  · obtain ⟨ht, info, hinfo, hn⟩ := h.indexed f i (hw.registry.symm.trans hf) ((hfut f).2 hd) hx
    obtain ⟨hinfo', ht'⟩ := hw.internal i info hinfo hn
    exact ⟨ht' ht, info, hinfo', hn⟩

/-- The job ends. -/
theorem Installs.closed (hi : Idle jobOf j e s s') (hl : Lost s.tracker s'.tracker)
    (hend : ∀ f, s'.tracker.futureRegistry.get? j = some f → (s'.tracker.futures f).done = true) :
    s'.Installs jobOf j e x := by
  have hno : ∀ f, s'.tracker.futureRegistry.get? j = some f → (s'.tracker.futures f).done ≠ false := fun f hf hd => by
    rw [hend f hf] at hd
    contradiction
  exact ⟨h.toMarks.lost hi hl, fun f i hf hd => absurd hd (hno f hf), fun f i hf hd => absurd hd (hno f hf)⟩

/-- Stamps change no callback. -/
theorem Installs.restamped (hi : Idle jobOf j e s s') {t : Topic} {k : SubId → SubscriptionInfo → SubscriptionInfo}
    (hk : ∀ i info, (k i info).callback = info.callback) {ts : List Task}
    (ht : s'.tracker = { s.tracker.restamp t k with tasks := ts }) : s'.Installs jobOf j e x := by
  have hrec : ∀ i, s'.tracker.record? (topicOf j e) i =
      if topicOf j e = t then (s.tracker.record? (topicOf j e) i).map (k i) else s.tracker.record? (topicOf j e) i := by
    intro i
    rw [ht]
    exact record?_restamp t k (topicOf j e) i
  refine ⟨h.toMarks.restamped hi hk ht, fun f i hf hd hx => ?_, fun f i hf hd hx => ?_⟩
  · rw [ht] at hf hd ⊢
    exact h.registered f i hf hd hx
  · have hfut : s'.tracker.futures = s.tracker.futures := by rw [ht]; rfl
    have hreg : s'.tracker.futureRegistry = s.tracker.futureRegistry := by rw [ht]; rfl
    have hact : s'.tracker.activeTopics j = s.tracker.activeTopics j := by rw [ht]; rfl
    rw [hreg] at hf
    rw [hfut] at hd
    obtain ⟨htop, info, hinfo, hn⟩ := h.indexed f i hf hd hx
    rw [hact, hrec, hinfo]
    split_ifs
    · exact ⟨htop, k i info, rfl, (hk i info).trans hn⟩
    · exact ⟨htop, info, rfl, hn⟩

/-- `track` puts the job in the registry. -/
theorem Installs.published (hsolo : s.Solo) (hinj : ∀ f g, jobOf f = jobOf g → f = g) {n : ℕ} {f : FutureRef}
    (hj : jobOf f = j) (hf : f ∉ s.published) :
    ({ s with tracker := publishFuture f s.tracker, published := s.published ++ [f] }.goto n
      (.subscribing f .heartbeat [.status, .log])).Installs jobOf j e x := by
  obtain ⟨rfl, hm⟩ := h.toMarks.published hsolo hinj (n := n) hj hf
  exact ⟨hm, fun g i _ _ hi => by contradiction, fun g i _ _ hi => by contradiction⟩

/-- The client subscription of `track`. -/
theorem Installs.subscribed {pending : SubId → Option Pending} (hh : s.Homed jobOf pending) (hsolo : s.Solo)
    (hinj : ∀ f g, jobOf f = jobOf g → f = g) {n : ℕ} {f : FutureRef} {rest : List Event} {r : Except PyError SubId}
    {c : RedisSubClient ClientCallback} (hn : s.calls n = .subscribing f e rest) (hj : jobOf f = j)
    (he : (RedisSubClient.subscribe (topicOf j e) (internalCallback e f (s.tracker.futures f))).exec
      s.tracker.subClient = (r, c)) :
    ({ s with tracker := { s.tracker with subClient := c } }.goto n
      (.opened (fun i => .indexing f e i false rest) r)).Installs jobOf j e
        (match r with | .ok i => .subscribed i | .error _ => .absent) := by
  obtain ⟨rfl, hm⟩ := h.toMarks.subscribed hsolo hinj hn hj he
  refine ⟨hm, fun g k hg hd hk => ?_, fun g k _ _ hk => ?_⟩
  · cases r with
    | error err => contradiction
    | ok i =>
      obtain rfl := hinj g f ((hh.registry j g hg).trans hj.symm)
      obtain rfl : i = k := Option.some.inj hk
      exact (RedisSubClient.registration?_subscribe he i).trans (if_pos ⟨rfl, rfl⟩)
  · cases r <;> contradiction

/-- The indexing of the subscription. -/
theorem Installs.index {pending : SubId → Option Pending} (hh : s.Homed jobOf pending) (hsolo : s.Solo)
    (hinj : ∀ f g, jobOf f = jobOf g → f = g) {n : ℕ} {f : FutureRef} {i : SubId} {o : Bool} {rest : List Event}
    (rt : Runtime) (hn : s.calls n = .indexing f e i o rest) (hj : jobOf f = j) :
    ({ s with tracker := (indexCallback rt e f i).after s.tracker }.goto n (.next f rest)).Installs jobOf j e
      (.indexed i) := by
  obtain ⟨rfl, hm⟩ := h.toMarks.index hh hsolo hinj rt hn hj
  have hjob : (s.tracker.futures f).jobId = j := (hh.jobIds f).trans hj
  have ht : (indexCallback rt e f i).after s.tracker =
      s.tracker.indexed (internalInfo rt e (s.tracker.futures f) i) i := by
    rw [after, Config.exec_indexCallback]
  refine ⟨hm, fun g k hg hd hk => ?_, fun g k hg hd hk => ?_⟩
  · have hg' : ((indexCallback rt e f i).after s.tracker).futureRegistry.get? j = some g := hg
    have hd' : (((indexCallback rt e f i).after s.tracker).futures g).done = false := hd
    show ((indexCallback rt e f i).after s.tracker).subClient.registration? (topicOf j e) k =
      some ⟨k, topicOf j e, internalCallback e g (((indexCallback rt e f i).after s.tracker).futures g)⟩
    rw [ht] at hg' hd' ⊢
    exact h.registered g k hg' hd' hk
  · obtain rfl := Installation.indexed.inj hk
    refine ⟨?_, internalInfo rt e (s.tracker.futures f) i, ?_, Config.internalInfo_callback _ _ _ _⟩
    · show topicOf j e ∈ ((indexCallback rt e f i).after s.tracker).activeTopics j
      rw [ht, activeTopics_indexed, Config.internalInfo_jobId, Config.internalInfo_topic, hjob, if_pos rfl]
      exact mem_addTopic.mpr (Or.inl rfl)
    · show ((indexCallback rt e f i).after s.tracker).record? (topicOf j e) i = _
      rw [ht, record?_indexed, Config.internalInfo_topic, hjob]
      exact if_pos ⟨rfl, rfl⟩

/-- A listener joins the topic in the client. -/
theorem Installs.joined {pending : SubId → Option Pending} (hh : s.Homed jobOf pending) {n : ℕ} {a : AddArgs}
    {f : FutureRef} {r : Except PyError SubId} {c : RedisSubClient ClientCallback} (hn : s.calls n = .adding a f)
    (ha : a.topic = topicOf j e)
    (he : (RedisSubClient.subscribe (topicOf j e) (a.redisCallback (s.tracker.futures f))).exec s.tracker.subClient =
      (r, c)) :
    ({ s with tracker := { s.tracker with subClient := c } }.goto n
      (.opened (fun i => .validating a f i false) r)).Installs jobOf j e x := by
  refine ⟨h.toMarks.joined hn ha he, fun g i hg hd hi => ?_, h.indexed⟩
  have hold := h.registered g i hg hd hi
  cases r with
  | error err => exact (RedisSubClient.registration?_subscribe_error he i).trans hold
  | ok k =>
    exact (RedisSubClient.registration?_subscribe he i).trans ((if_neg fun hik =>
      RedisSubClient.ne_of_subscribe hh.tracker.client he hold hik.2).trans hold)

/-- A listener is indexed, or its client subscription undone. -/
theorem Installs.validated {pending : SubId → Option Pending} {tag : SubId → Option Tag} (hh : s.Homed jobOf pending)
    (htag : s.Tagged jobOf tag) {n : ℕ} {a : AddArgs} {f : FutureRef} {i : SubId} {o : Bool}
    {r : Except PyError SubId} {t : JobTracker} {ids : List SubId} (hn : s.calls n = .validating a f i o)
    (ha : a.topic = topicOf j e) (he : (validateListener a f i).exec s.tracker = (r, t)) :
    ({ s with tracker := t, listeners := ids }.goto n (.ended (r.map some))).Installs jobOf j e x := by
  have hm := h.toMarks.validated ids hn ha he
  unfold JobTracker.validateListener at he
  rw [exec_bind_ok (exec_get s.tracker), exec_ite] at he
  split_ifs at he
  · -- the subscription that is undone is not the tracker's own
    have hlistener : tag i = some (.listener a) := by
      have hcall := htag.calls n
      rw [hn] at hcall
      exact hcall
    rw [exec_bind, onClient, exec_focus] at he
    rcases hu : (RedisSubClient.unsubscribe i).exec s.tracker.subClient with ⟨r', c⟩
    rw [hu] at he
    have hafter : (RedisSubClient.unsubscribe i).after s.tracker.subClient = c := by rw [after, hu]
    have ht : t = { s.tracker with subClient := c } := by
      cases r' with
      | ok b => exact (Prod.mk.inj he).2.symm
      | error err => exact (Prod.mk.inj he).2.symm
    subst ht
    refine ⟨hm, fun g k hg hd hk => ?_, h.indexed⟩
    have hold := h.registered g k hg hd hk
    have hki : k ≠ i := by
      rintro rfl
      have hfit := (htag.tracker.client.subs.inner _ k _ hold).2
      rw [hlistener] at hfit
      obtain ⟨-, y, hy⟩ := hfit
      have hcb : internalCallback e g (s.tracker.futures g) = a.redisCallback y := hy
      exact not_internal_redisCallback a y (hcb ▸ internal_internalCallback e g (s.tracker.futures g))
    have hun := RedisSubClient.registration?_unsubscribe (t := topicOf j e) hh.tracker.client hki
    rw [hafter] at hun
    exact hun.trans hold
  · rw [exec_bind_ok (exec_registerSubscriptionForJob rfl)] at he
    obtain ⟨-, rfl⟩ := Prod.mk.inj he
    have hnone : s.tracker.record? (topicOf j e) i = none :=
      hh.unindexed (show (s.calls n).holds jobOf = some (i, _) by rw [hn]; rfl) _
    refine ⟨hm, h.registered, fun g k hg hd hk => ?_⟩
    obtain ⟨htop, info, hinfo, hcb⟩ := h.indexed g k hg hd hk
    refine ⟨?_, info, ?_, hcb⟩
    · show topicOf j e ∈ (s.tracker.indexed (a.info (s.tracker.futures f) i) i).activeTopics j
      rw [activeTopics_indexed]
      split_ifs with hj
      · rw [← hj]
        exact mem_addTopic.mpr (Or.inr htop)
      · exact htop
    · show (s.tracker.indexed (a.info (s.tracker.futures f) i) i).record? (topicOf j e) k = some info
      rw [record?_indexed]
      refine (if_neg ?_).trans hinfo
      rintro ⟨-, rfl⟩
      rw [hnone] at hinfo
      contradiction

omit h in
/-- **Every section keeps the subscription where it is, or moves it on**, and it stays in force if it is left alone. -/
theorem Marks.step (h : s.Marks jobOf j e x) {pending : SubId → Option Pending} {tag : SubId → Option Tag}
    (hh : s.Homed jobOf pending) (htag : s.Tagged jobOf tag) (hsolo : s.Solo) (hinj : ∀ f g, jobOf f = jobOf g → f = g)
    (hl : Sectioned l) (hs : Steps s l s') : ∃ x', s'.Marks jobOf j e x' ∧ Advances jobOf j e s l x x' ∧
      (Leaves j e s l → s.Installs jobOf j e x → s'.Installs jobOf j e x') := by
  by_cases hk : Leaves j e s l
  · have hrec := hs.recorded hl
    have hfut : ∀ f, internalCallback e f (s'.tracker.futures f) = internalCallback e f (s.tracker.futures f) ∧
        ((s'.tracker.futures f).done = false → (s.tracker.futures f).done = false) := by
      intro f
      obtain ⟨hjob, hslurm, hdone⟩ := hrec.future f
      exact ⟨Config.internalCallback_congr hjob hslurm, hdone⟩
    have hon := hh.onTopic hinj hl hk hs
    cases hon with
    | aside hi ht =>
      exact ⟨x, h.idle hi ht.client fun i info hinfo => ⟨info, ht.records i info hinfo, rfl⟩, Advances.stay x,
        fun _ hx => hx.aside hh hi ht hfut⟩
    | closed hi ht _ hend => exact ⟨x, h.lost hi ht, Advances.stay x, fun _ hx => hx.closed hi ht hend⟩
    | checked hi he hact ht =>
      have hcb : ∀ i info, (checkStamp l.rt.time i info).callback = info.callback := fun i info => by
        unfold checkStamp
        split_ifs <;> rfl
      have ht' : s'.tracker = { s.tracker.restamp _ _ with tasks := s.tracker.tasks } := ht
      exact ⟨x, h.restamped hi hcb ht', Advances.stay x, fun _ hx => hx.restamped hi hcb ht'⟩
    | @heard _ hi hact sub m rest j' slurm hc hcb hsub ts ht =>
      have hcb' : ∀ i info, (heartbeatStamp l.rt.time sub.id i info).callback = info.callback := fun i info => by
        unfold heartbeatStamp
        split_ifs <;> rfl
      exact ⟨x, h.restamped hi hcb' ht, Advances.stay x, fun _ hx => hx.restamped hi hcb' ht⟩
    | published hact hn hj hf =>
      exact ⟨x, (h.published hsolo hinj hj hf).2, Advances.stay x, fun _ hx => hx.published hsolo hinj hj hf⟩
    | @subscribed n f rest r t hact hn hj he =>
      rw [Config.exec_subscribeCallback, onClient, exec_focus, hh.jobIds, hj] at he
      obtain ⟨hr, rfl⟩ := Prod.mk.inj he
      have he' := Prod.ext (y := (r, _)) hr rfl
      obtain ⟨rfl, hm⟩ := h.subscribed hsolo hinj hn hj he'
      refine ⟨_, hm, ?_, fun _ hx => hx.subscribed hh hsolo hinj hn hj he'⟩
      cases r with
      | ok i => exact Advances.subscribe hact i
      | error err => exact Advances.stay _
    | indexed hact hn hj =>
      obtain ⟨rfl, hm⟩ := h.index hh hsolo hinj l.rt hn hj
      exact ⟨_, hm, Advances.index hact hn hj, fun _ hx => hx.index hh hsolo hinj l.rt hn hj⟩
    | @joined n a f r t hact hn ha he =>
      have hx : (subscribeListener a f).exec s.tracker = _ := exec_bind_ok (exec_get s.tracker)
      rw [hx, onClient, exec_focus, ha] at he
      obtain ⟨hr, rfl⟩ := Prod.mk.inj he
      have he' := Prod.ext (y := (r, _)) hr rfl
      exact ⟨x, h.joined hn ha he', Advances.stay x, fun _ hx => hx.joined hh hn ha he'⟩
    | validated hact hn ha he =>
      exact ⟨x, h.validated _ hn ha he, Advances.stay x, fun _ hx => hx.validated hh htag hn ha he⟩
  · obtain ⟨hi, hlost⟩ := idle_of_removal hk hs
    exact ⟨x, h.lost hi hlost, Advances.stay x, fun hl => absurd hl hk⟩

end Step

/-! ## Runs -/

/-- What every section keeps. -/
structure Regular (jobOf : FutureRef → String) (s : Session) : Prop where
  homed : ∃ pending, s.Homed jobOf pending
  tagged : ∃ tag, s.Tagged jobOf tag
  solo : s.Solo

theorem Initial.regular (h : s.Initial) : s.Regular s.jobOf := ⟨⟨_, h.homed⟩, ⟨_, h.tagged⟩, h.solo⟩

theorem Regular.step (h : s.Regular jobOf) (hl : Sectioned l) (hs : Steps s l s') : s'.Regular jobOf := by
  obtain ⟨pending, hh⟩ := h.homed
  obtain ⟨tag, ht⟩ := h.tagged
  obtain ⟨tag', ht', -⟩ := ht.step hl hs
  exact ⟨hh.step hs, ⟨tag', ht'⟩, h.solo.step hs⟩

theorem Regular.marks (h : s.Regular jobOf) (hinj : ∀ f g, jobOf f = jobOf g → f = g) (hx : s.Marks jobOf j e x)
    (hl : Sectioned l) (hs : Steps s l s') : ∃ x', s'.Marks jobOf j e x' ∧ Advances jobOf j e s l x x' ∧
      (Leaves j e s l → s.Installs jobOf j e x → s'.Installs jobOf j e x') := by
  obtain ⟨pending, hh⟩ := h.homed
  obtain ⟨tag, ht⟩ := h.tagged
  exact hx.step hh ht h.solo hinj hl hs

theorem Regular.installs (h : s.Regular jobOf) (hinj : ∀ f g, jobOf f = jobOf g → f = g) (hx : s.Installs jobOf j e x)
    (hl : Sectioned l) (hk : Leaves j e s l) (hs : Steps s l s') :
    ∃ x', s'.Installs jobOf j e x' ∧ Advances jobOf j e s l x x' := by
  obtain ⟨x', -, ha, hkept⟩ := h.marks hinj hx.toMarks hl hs
  exact ⟨x', hkept hk hx, ha⟩

/-- `track` indexes the subscription. -/
theorem Regular.indexed (h : s.Regular jobOf) (hinj : ∀ f g, jobOf f = jobOf g → f = g) (hx : s.Installs jobOf j e x)
    {rt : Runtime} {n : ℕ} {f : FutureRef} {i : SubId} {o : Bool} {rest : List Event}
    (hn : s.calls n = .indexing f e i o rest) (hj : jobOf f = j) (hs : Steps s ⟨rt, .proceed n⟩ s') :
    s'.Installs jobOf j e (.indexed i) := by
  obtain ⟨pending, hh⟩ := h.homed
  have hx' := hx.index hh h.solo hinj rt hn hj
  have hs' : s' = { s with tracker := (indexCallback rt e f i).after s.tracker }.goto n (.next f rest) := by
    unfold Steps Session.step Session.proceed at hs
    simp only [hn] at hs
    rw [← Option.some.inj hs]
    cases rest <;> rfl
  rwa [hs']

/-- A section that does not touch the subscription for the event of the job. -/
def Tending (j : String) (e : Event) (s : Session) (l : Label) : Prop := Sectioned l ∧ Leaves j e s l

/-- Where the subscription is after a run. -/
theorem run_installs {s₀ : Session} {ls : List Label} (h₀ : s₀.Initial) (hrun : Run Steps (Tending j e) s₀ ls s) :
    s.Regular s₀.jobOf ∧ ∃ x, s.Installs s₀.jobOf j e x := by
  refine hrun.invariant (I := fun s => s.Regular s₀.jobOf ∧ ∃ x, s.Installs s₀.jobOf j e x)
    ⟨h₀.regular, _, h₀.installs j e⟩ ?_
  rintro s l s' ⟨hr, x, hx⟩ ⟨hl, hk⟩ hs
  obtain ⟨x', hx', -⟩ := hr.installs h₀.jobIds hx hl hk hs
  exact ⟨hr.step hl hs, x', hx'⟩

/-- What holds after any sections. -/
theorem run_bounds {s₀ : Session} {ls : List Label} (h₀ : s₀.Initial)
    (hrun : Run Steps (fun _ l => Sectioned l) s₀ ls s) :
    s.Regular s₀.jobOf ∧ ∀ j e, ∃ x, s.Bounds s₀.jobOf j e x := by
  refine hrun.invariant (I := fun s => s.Regular s₀.jobOf ∧ ∀ j e, ∃ x, s.Bounds s₀.jobOf j e x)
    ⟨h₀.regular, fun j e => ⟨_, h₀.bounds j e⟩⟩ ?_
  rintro s l s' ⟨hr, hx⟩ hl hs
  obtain ⟨pending, hh⟩ := hr.homed
  refine ⟨hr.step hl hs, fun j e => ?_⟩
  obtain ⟨x, hx⟩ := hx j e
  exact hx.step hh hr.solo h₀.jobIds hl hs

/-- An indexed subscription stays where it is. -/
theorem run_indexed {i : SubId} {ls : List Label} (hinj : ∀ f g, jobOf f = jobOf g → f = g) (hr : s.Regular jobOf)
    (hx : s.Installs jobOf j e (.indexed i)) (hrun : Run Steps (Tending j e) s ls s') :
    s'.Regular jobOf ∧ s'.Installs jobOf j e (.indexed i) := by
  refine hrun.invariant (I := fun s => s.Regular jobOf ∧ s.Installs jobOf j e (.indexed i)) ⟨hr, hx⟩ ?_
  rintro s l s' ⟨hr, hx⟩ ⟨hl, hk⟩ hs
  obtain ⟨x', hx', ha⟩ := hr.installs hinj hx hl hk hs
  cases ha
  exact ⟨hr.step hl hs, hx'⟩

/-- **The tracker's own subscription outlasts its listeners.**  From the section of `track` that indexes the
subscription `i` for an event until the job ends, `i` is registered in the client with its own callback, indexed
under a topic of the job, and no other callback of the tracker itself is under the topic. -/
theorem internal_subscription_survives {s₀ s₁ : Session} {ls₁ ls₂ : List Label} {rt : Runtime} {n : ℕ} {f : FutureRef}
    {i : SubId} {o : Bool} {rest : List Event} (h₀ : s₀.Initial)
    (h₁ : Run Steps (Tending (s₀.jobOf f) e) s₀ ls₁ s₁) (hn : s₁.calls n = .indexing f e i o rest)
    (h₂ : Run Steps (Tending (s₀.jobOf f) e) s₁ (⟨rt, .proceed n⟩ :: ls₂) s)
    (hf : s.tracker.futureRegistry.get? (s₀.jobOf f) = some f) (hd : (s.tracker.futures f).done = false) :
    s.tracker.subClient.registration? (topicOf (s₀.jobOf f) e) i =
        some ⟨i, topicOf (s₀.jobOf f) e, internalCallback e f (s.tracker.futures f)⟩ ∧
      topicOf (s₀.jobOf f) e ∈ s.tracker.activeTopics (s₀.jobOf f) ∧
      (∃ info, s.tracker.record? (topicOf (s₀.jobOf f) e) i = some info ∧ info.callback = none) ∧
      ∀ k sub, s.tracker.subClient.registration? (topicOf (s₀.jobOf f) e) k = some sub → sub.callback.Internal →
        k = i := by
  obtain ⟨hr₁, x, hx⟩ := run_installs h₀ h₁
  obtain ⟨s₂, ⟨hl, hk⟩, hs, hrest⟩ := h₂.uncons
  have hr₂ := hr₁.step hl hs
  have hx₂ := hr₁.indexed h₀.jobIds hx hn rfl hs
  obtain ⟨-, hx₃⟩ := run_indexed h₀.jobIds hr₂ hx₂ hrest
  obtain ⟨htop, info, hinfo, hcb⟩ := hx₃.indexed f i hf hd rfl
  refine ⟨hx₃.registered f i hf hd rfl, htop, ⟨info, hinfo, hcb⟩, fun k sub hk hint => ?_⟩
  exact (Option.some.inj (hx₃.client k sub hk hint)).symm

/-- A listener shares the heartbeat topic of the job `j`, and the log topic is removed. -/
theorem internal_subscription_survives_of_listener : ∃ s₁ s : Session,
    s₁.calls 0 = .indexing 0 .heartbeat 0 false [.status, .log] ∧
      (s.tracker.subClient.registration? "info/j/heartbeat" 1).isSome ∧
      (s.tracker.subClient.registration? "info/j/log" 2).isNone ∧
      s.tracker.subClient.registration? "info/j/heartbeat" 0 =
        some ⟨0, "info/j/heartbeat", internalCallback .heartbeat 0 (s.tracker.futures 0)⟩ := by
  have h₁ : ∃ s₁, Run Steps (Tending "j" .heartbeat) (new (fun _ _ => none) unary)
      [⟨.still, .startTrack 0 0⟩, ⟨.still, .proceed 0⟩] s₁ ∧
        s₁.calls 0 = .indexing 0 .heartbeat 0 false [.status, .log] ∧
      ∃ s, Run Steps (Tending "j" .heartbeat) s₁
        [⟨.still, .proceed 0⟩, ⟨.still, .startAdd 1 ⟨"j", .heartbeat, 7⟩⟩, ⟨.still, .proceed 1⟩,
          ⟨.still, .proceed 1⟩, ⟨.still, .removeSubscriptionByTopic "info/j/log"⟩] s ∧
        s.tracker.futureRegistry.get? "j" = some 0 ∧ (s.tracker.futures 0).done = false ∧
        (s.tracker.subClient.registration? "info/j/heartbeat" 1).isSome ∧
        (s.tracker.subClient.registration? "info/j/log" 2).isNone := by
    refine ⟨_, Run.cons ⟨trivial, trivial⟩ rfl (Run.single ⟨trivial, trivial⟩ rfl), rfl, _,
      Run.cons ⟨trivial, trivial⟩ rfl (Run.cons ⟨trivial, trivial⟩ rfl (Run.cons ⟨trivial, trivial⟩ rfl
        (Run.cons ⟨trivial, trivial⟩ rfl (Run.single ⟨trivial, ?_⟩ rfl)))), by decide +kernel, by decide +kernel,
      by decide +kernel, by decide +kernel⟩
    show "info/j/log" ≠ topicOf "j" .heartbeat
    decide
  obtain ⟨s₁, hrun₁, hn, s, hrun₂, hf, hd, hl, ho⟩ := h₁
  have hj : (new (fun _ _ => none) unary).jobOf 0 = "j" := by decide +kernel
  rw [← hj] at hrun₁ hrun₂ hf
  have hreg := (internal_subscription_survives (initial_new _ unary_injective) hrun₁ hn hrun₂ hf hd).1
  rw [hj] at hreg
  exact ⟨s₁, s, hn, hl, ho, hreg⟩

end Session

end SlurmManager
