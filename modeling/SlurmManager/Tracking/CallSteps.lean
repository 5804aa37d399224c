import SlurmManager.Tracking.Interleaving

/-!
# CallSteps — what one step does to one call

* `Moves`: the ways in which a step can change the state of a call.  `Steps.moves` says that there are
  no others; what is said about single calls in a run comes from it.
* `Gone`: a job that was tracked and left the registry.  No step brings it back (`Gone.run`).
* `TrackingWhole`: the runs in which `track` is one step.  In these no internal subscription is ever
  in flight, so the guard on them is free (`Admits.of_whole`).
-/

namespace SlurmManager

open JobTracker Config

namespace Session

/-! ## Inversion -/

/-- What the step `l` does to the call `n`. -/
inductive Moves (s : Session) (l : Label) (n : ℕ) : Call → Call → Prop
  | stay (call : Call) : Moves s l n call call
  | overtake {t : Topic} (call : Call) : Moves s l n call (call.overtake s.jobOf t)
  | publish {f : FutureRef} (hl : l.act = .startTrack n f) (hf : f ∉ s.published) :
    Moves s l n .idle (.subscribing f .heartbeat [.status, .log])
  | subscribed {f : FutureRef} {e : Event} {rest : List Event} {i : SubId} :
    Moves s l n (.subscribing f e rest) (.indexing f e i false rest)
  | refused {f : FutureRef} {e : Event} {rest : List Event} {err : PyError} :
    Moves s l n (.subscribing f e rest) (.ended (.error err))
  | indexed {f : FutureRef} {e e' : Event} {i : SubId} {o : Bool} {rest : List Event} :
    Moves s l n (.indexing f e i o (e' :: rest)) (.subscribing f e' rest)
  | tracked {f : FutureRef} {e : Event} {i : SubId} {o : Bool} :
    Moves s l n (.indexing f e i o []) (.ended (.ok none))
  | active {a : AddArgs} {f : FutureRef} {t : JobTracker}
      (h : (checkActive a).exec s.tracker = (.ok f, t)) : Moves s l n .idle (.adding a f)
  | inactive {a : AddArgs} {err : PyError} {t : JobTracker}
      (h : (checkActive a).exec s.tracker = (.error err, t)) : Moves s l n .idle (.ended (.error err))
  | listened {a : AddArgs} {f : FutureRef} {i : SubId} {t : JobTracker}
      (h : (subscribeListener a f).exec s.tracker = (.ok i, t)) :
    Moves s l n (.adding a f) (.validating a f i false)
  | unlistened {a : AddArgs} {f : FutureRef} {err : PyError} {t : JobTracker}
      (h : (subscribeListener a f).exec s.tracker = (.error err, t)) :
    Moves s l n (.adding a f) (.ended (.error err))
  | validated {a : AddArgs} {f : FutureRef} {i : SubId} {o : Bool} {r : Except PyError SubId}
      {t : JobTracker} (h : (validateListener a f i).exec s.tracker = (r, t)) :
    Moves s l n (.validating a f i o) (.ended (r.map some))
  | cancelling (f : Option FutureRef) : Moves s l n .idle (.cancelling f)
  | cancelled {f : Option FutureRef} (r : Except PyError (Option SubId)) :
    Moves s l n (.cancelling f) (.ended r)
  | checking (f : FutureRef) : Moves s l n .idle (.checking f)
  | unchecked (r : Except PyError (Option SubId)) : Moves s l n .idle (.ended r)
  | checked {f : FutureRef} (r : Except PyError (Option SubId)) : Moves s l n (.checking f) (.ended r)

variable {s s' : Session} {l : Label}

/-- A step that moves one call leaves the others where they are. -/
theorem moves_update {n : ℕ} {call : Call} (m : ℕ) (hx : s'.calls = Function.update s.calls n call)
    (h : Moves s l n (s.calls n) call) : Moves s l m (s.calls m) (s'.calls m) := by
  rw [hx]
  by_cases hm : m = n
  · subst hm
    rw [Function.update_self]
    exact h
  · rw [Function.update_of_ne hm]
    exact Moves.stay _

theorem proceed_moves {rt : Runtime} {n : ℕ} (hs : s.proceed rt n = some s') (m : ℕ) :
    Moves s l m (s.calls m) (s'.calls m) := by
  unfold proceed at hs
  cases hcall : s.calls n with
  | subscribing f e rest =>
    simp only [hcall] at hs
    rcases hr : (subscribeCallback e f).exec s.tracker with ⟨r, t⟩
    rw [hr] at hs
    cases r with
    | ok i =>
      obtain rfl := Option.some.inj hs
      exact moves_update m rfl (hcall ▸ Moves.subscribed)
    | error err =>
      obtain rfl := Option.some.inj hs
      exact moves_update m rfl (hcall ▸ Moves.refused)
  | indexing f e i o rest =>
    simp only [hcall] at hs
    obtain rfl := Option.some.inj hs
    cases rest with
    | nil => exact moves_update m rfl (hcall ▸ Moves.tracked)
    | cons e' rest => exact moves_update m rfl (hcall ▸ Moves.indexed)
  | adding a f =>
    simp only [hcall] at hs
    rcases hr : (subscribeListener a f).exec s.tracker with ⟨r, t⟩
    rw [hr] at hs
    cases r with
    | ok i =>
      obtain rfl := Option.some.inj hs
      exact moves_update m rfl (hcall ▸ Moves.listened hr)
    | error err =>
      obtain rfl := Option.some.inj hs
      exact moves_update m rfl (hcall ▸ Moves.unlistened hr)
  | validating a f i o =>
    simp only [hcall] at hs
    rcases hr : (validateListener a f i).exec s.tracker with ⟨r, t⟩
    have hm := hcall ▸ Moves.validated (s := s) (l := l) (n := n) (o := o) hr
    rw [hr] at hs
    cases r with
    | ok k =>
      obtain rfl := Option.some.inj hs
      exact moves_update m rfl hm
    | error err =>
      obtain rfl := Option.some.inj hs
      exact moves_update m rfl hm
  | idle => simp [hcall] at hs
  | cancelling f => simp [hcall] at hs
  | checking f => simp [hcall] at hs
  | ended r => simp [hcall] at hs

/-- **Every step moves every call in one of these ways.** -/
theorem Steps.moves (hs : Steps s l s') (m : ℕ) : Moves s l m (s.calls m) (s'.calls m) := by
  obtain ⟨rt, act⟩ := l
  unfold Steps step at hs
  cases act with
  | track f =>
    simp only at hs
    split_ifs at hs
    obtain rfl := Option.some.inj hs
    exact Moves.stay _
  | addSubscription a =>
    simp only at hs
    split at hs <;> (obtain rfl := Option.some.inj hs; exact Moves.stay _)
  | removeSubscriptionByTopic t => obtain rfl := Option.some.inj hs; exact Moves.overtake _
  | applyStatus => obtain rfl := Option.some.inj hs; exact Moves.stay _
  | removeSubscriptionById => obtain rfl := Option.some.inj hs; exact Moves.stay _
  | removeSubscriptionsForJob => obtain rfl := Option.some.inj hs; exact Moves.stay _
  | beginSchedulerCheck => obtain rfl := Option.some.inj hs; exact Moves.stay _
  | dispatchMessage => obtain rfl := Option.some.inj hs; exact Moves.stay _
  | listenGlobal => obtain rfl := Option.some.inj hs; exact Moves.stay _
  | startTrack n f =>
    simp only at hs
    cases hcall : s.calls n with
    | idle =>
      simp only [hcall] at hs
      split_ifs at hs with hf
      obtain rfl := Option.some.inj hs
      exact moves_update m rfl (hcall ▸ Moves.publish rfl (not_or.mp hf).1)
    | _ => simp [hcall] at hs
  | startAdd n a =>
    simp only at hs
    cases hcall : s.calls n with
    | idle =>
      simp only [hcall] at hs
      rcases hr : (checkActive a).exec s.tracker with ⟨r, t⟩
      rw [hr] at hs
      cases r with
      | ok f =>
        obtain rfl := Option.some.inj hs
        exact moves_update m rfl (hcall ▸ Moves.active hr)
      | error err =>
        obtain rfl := Option.some.inj hs
        exact moves_update m rfl (hcall ▸ Moves.inactive hr)
    | _ => simp [hcall] at hs
  | startCancel n j =>
    simp only at hs
    cases hcall : s.calls n with
    | idle =>
      simp only [hcall] at hs
      obtain rfl := Option.some.inj hs
      exact moves_update m rfl (hcall ▸ Moves.cancelling _)
    | _ => simp [hcall] at hs
  | startCheck n j =>
    simp only at hs
    cases hcall : s.calls n with
    | idle =>
      simp only [hcall] at hs
      split at hs
      · obtain rfl := Option.some.inj hs
        exact moves_update m rfl (hcall ▸ Moves.checking _)
      · obtain rfl := Option.some.inj hs
        exact moves_update m rfl (hcall ▸ Moves.unchecked _)
      · obtain rfl := Option.some.inj hs
        exact moves_update m rfl (hcall ▸ Moves.unchecked _)
    | _ => simp [hcall] at hs
  | proceed n => exact proceed_moves hs m
  | cancelled n rest =>
    simp only at hs
    cases hcall : s.calls n with
    | cancelling future =>
      simp only [hcall] at hs
      split at hs
      · obtain rfl := Option.some.inj hs
        exact moves_update m rfl (hcall ▸ Moves.cancelled _)
      · obtain rfl := Option.some.inj hs
        exact moves_update m rfl (hcall ▸ Moves.cancelled _)
      · obtain rfl := Option.some.inj hs
        exact moves_update m rfl (hcall ▸ Moves.cancelled _)
    | _ => simp [hcall] at hs
  | checked n verdict =>
    simp only at hs
    cases hcall : s.calls n with
    | checking f =>
      simp only [hcall] at hs
      split at hs
      · obtain rfl := Option.some.inj hs
        exact moves_update m rfl (hcall ▸ Moves.checked _)
      · obtain rfl := Option.some.inj hs
        exact moves_update m rfl (hcall ▸ Moves.checked _)
    | _ => simp [hcall] at hs
  | poll t m =>
    simp only at hs
    split at hs
    · obtain rfl := Option.some.inj hs
      exact Moves.stay _
    · simp at hs
  | deliver =>
    simp only at hs
    split at hs
    · simp at hs
    · obtain rfl := Option.some.inj hs
      exact Moves.stay _

/-! ## Jobs that left the registry -/

/-- The job was tracked and is no longer in the registry. -/
def Gone (s : Session) (j : String) : Prop :=
  (∃ f ∈ s.published, s.jobOf f = j) ∧ s.tracker.futureRegistry.get? j = none

end Session

namespace Config

def Gone (jobOf : FutureRef → String) (c : Config) (j : String) : Prop :=
  (∃ f ∈ c.published, jobOf f = j) ∧ c.tracker.futureRegistry.get? j = none

/-- No critical section brings a job back: a future is put in the registry once. -/
theorem Gone.step {jobOf : FutureRef → String} {c c' : Config} {l : Micro} {j : String}
    (hg : c.Gone jobOf j) (h : c.Inv jobOf) (hinj : ∀ f g, jobOf f = jobOf g → f = g)
    (hs : Step jobOf c l c') : c'.Gone jobOf j := by
  obtain ⟨⟨f, hf, hfj⟩, hnone⟩ := hg
  have herase : ∀ j', (c.tracker.futureRegistry.erase j').get? j = none := by
    intro j'
    rw [Dict.get?_erase]
    split_ifs
    · rfl
    · exact hnone
  cases hs with
  | stamp hst =>
    refine ⟨⟨f, hf, hfj⟩, ?_⟩
    rw [hst.futureRegistry]
    exact hnone
  | removeId _ hr => exact ⟨⟨f, hf, hfj⟩, by rw [hr]; exact hnone⟩
  | removeTopic _ hr => exact ⟨⟨f, hf, hfj⟩, by rw [hr]; exact hnone⟩
  | finish _ _ _ hr _ => exact ⟨⟨f, hf, hfj⟩, by rw [hr]; exact herase _⟩
  | discard _ hr _ => exact ⟨⟨f, hf, hfj⟩, by rw [hr]; exact herase _⟩
  | @publish g hg hd =>
    refine ⟨⟨f, List.mem_append_left _ hf, hfj⟩, ?_⟩
    show (c.tracker.futureRegistry.set (c.tracker.futures g).jobId g).get? j = none
    rw [Dict.get?_set, h.jobIds]
    split_ifs with hj
    · exact absurd (hinj f g (hfj.trans hj) ▸ hf) hg
    · exact hnone
  | _ => exact ⟨⟨f, hf, hfj⟩, hnone⟩

end Config

namespace Session

variable {s s' : Session} {l : Label}

theorem Gone.of_run {jobOf : FutureRef → String} {pending pending' : SubId → Option Pending}
    {g : Guard} {ms : List Micro} {j : String} (hg : s.Gone j) (h : s.Sound jobOf pending)
    (h' : s'.Sound jobOf pending') (hinj : ∀ f g, jobOf f = jobOf g → f = g)
    (hrun : Run (Config.Step jobOf) g.micro (s.config pending) ms (s'.config pending')) : s'.Gone j := by
  unfold Gone at hg ⊢
  rw [h.jobOf_eq] at hg
  rw [h'.jobOf_eq]
  refine (hrun.invariant (I := fun c => c.Inv jobOf ∧ c.Gone jobOf j) ⟨h.inv, hg⟩ ?_).2
  exact fun _ _ _ hc _ hs => ⟨hc.1.step hs, hc.2.step hc.1 hinj hs⟩

/-! ## Tracking in one step -/

/-- The step does not begin a `track` in sections. -/
def TracksWhole (l : Label) : Prop := ∀ n f, l.act ≠ .startTrack n f

/-- Where no `track` is in flight, only the removals by id and the validations are guarded. -/
def NoTrack (s : Session) : Prop :=
  ∀ n f, (∀ e rest, s.calls n ≠ .subscribing f e rest) ∧ ∀ e i o rest, s.calls n ≠ .indexing f e i o rest

theorem NoTrack.step (h : s.NoTrack) (hl : TracksWhole l) (hs : Steps s l s') : s'.NoTrack := by
  intro n f
  have hm := hs.moves n
  have hn := h n
  generalize s.calls n = c at hm hn
  generalize s'.calls n = c' at hm
  cases hm with
  | publish hact => exact absurd hact (hl _ _)
  | @subscribed f' e' rest' => exact absurd rfl ((hn f').1 e' rest')
  | @indexed f' e' _ i o rest' => exact absurd rfl ((hn f').2 e' i o _)
  | stay => exact hn f
  | overtake =>
    cases c with
    | subscribing f' e rest => exact absurd rfl ((hn f').1 e rest)
    | indexing f' e i o rest => exact absurd rfl ((hn f').2 e i o rest)
    | _ => simp [Call.overtake]
  | _ => simp

/-- A validation that finds its job active does so before any removal of the topic by
`remove_subscription_by_topic` since its client subscription. -/
def Current (s : Session) (l : Label) : Prop :=
  ∀ n a f i o, l.act = .proceed n → s.calls n = .validating a f i o →
    s.tracker.futureRegistry.get? a.jobId = some f → (s.tracker.futures f).done = false → o = false

theorem NoTrack.admits {g : Guard} (h : s.NoTrack) (hids : ∀ i, g.ids s.listeners i)
    (hc : g.fresh → s.Current l) : s.Admits g l := by
  obtain ⟨rt, act⟩ := l
  unfold Admits
  cases act with
  | removeSubscriptionById ids => exact fun i _ => hids i
  | proceed n =>
    simp only
    split
    · rename_i f e i o rest hcall
      exact absurd hcall ((h n f).2 e i o rest)
    · rename_i a f i o hcall
      exact fun hg hr hd => hc hg n a f i o rfl hcall hr hd
    · trivial
  | _ => trivial

theorem Initial.noTrack (h : s.Initial) : s.NoTrack := by
  intro n f
  rw [h.calls n]
  simp

end Session

end SlurmManager
