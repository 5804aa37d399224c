import SlurmManager.Tracking.Session

/-!
# Interleaving — every step of a session is a run of critical sections

* `Holds`: the table of registrations in flight lists exactly what the calls hold; three lemmas follow
  a call that opens, closes or keeps a registration.
* `Guard` and `Admits`: what a result requires of the steps it is about.
* `Sound.step`: the simulation of a session by `Config.Step`.
* `Sound.run`: the same for a whole run from a new tracker.
-/

namespace SlurmManager

open JobTracker Config

/-! ## The registrations held by calls -/

/-- The registration that a call has in flight. -/
def Call.holds (jobOf : FutureRef → String) : Call → Option (SubId × Pending)
  | .indexing f e i o _ => some (i, ⟨topicOf (jobOf f) e, f, o⟩)
  | .validating a f i o => some (i, ⟨a.topic, f, o⟩)
  | _ => none

/-- The future of a call is one that was put in the registry, of the job that the call is about. -/
def Call.Fits (jobOf : FutureRef → String) (published : List FutureRef) : Call → Prop
  | .subscribing f _ _ => f ∈ published
  | .indexing f _ _ _ _ => f ∈ published
  | .adding a f => jobOf f = a.jobId ∧ f ∈ published
  | .validating a f _ _ => jobOf f = a.jobId ∧ f ∈ published
  | _ => True

theorem Call.Fits.mono {jobOf : FutureRef → String} {l l' : List FutureRef} {call : Call}
    (h : call.Fits jobOf l) (hl : ∀ f, f ∈ l → f ∈ l') : call.Fits jobOf l' := by
  cases call <;> simp_all [Call.Fits]

/-- `pending` lists what the calls hold, each registration held by one call. -/
structure Holds (jobOf : FutureRef → String) (calls : ℕ → Call) (pending : SubId → Option Pending) :
    Prop where
  listed : ∀ n i p, (calls n).holds jobOf = some (i, p) → pending i = some p
  held : ∀ i p, pending i = some p → ∃ n, (calls n).holds jobOf = some (i, p)
  distinct : ∀ n m i p q, (calls n).holds jobOf = some (i, p) → (calls m).holds jobOf = some (i, q) →
    n = m

section Holds

variable {jobOf : FutureRef → String} {calls : ℕ → Call} {pending : SubId → Option Pending}
  (h : Holds jobOf calls pending) {n : ℕ} {call : Call}
include h

theorem Holds.keep (hc : call.holds jobOf = (calls n).holds jobOf) :
    Holds jobOf (Function.update calls n call) pending := by
  have he : ∀ m, (Function.update calls n call m).holds jobOf = (calls m).holds jobOf := fun m => by
    by_cases hm : m = n
    · rw [hm, Function.update_self, hc]
    · rw [Function.update_of_ne hm]
  refine ⟨fun m i p hm => ?_, fun i p hp => ?_, fun m m' i p q hm hm' => ?_⟩
  · exact h.listed m i p (by rwa [he] at hm)
  · obtain ⟨m, hm⟩ := h.held i p hp
    exact ⟨m, by rwa [he]⟩
  · exact h.distinct m m' i p q (by rwa [he] at hm) (by rwa [he] at hm')

/-- A call without a registration opens one under an id that nobody holds. -/
theorem Holds.opened {i : SubId} {p : Pending} (hn : (calls n).holds jobOf = none)
    (hi : pending i = none) (hc : call.holds jobOf = some (i, p)) :
    Holds jobOf (Function.update calls n call) (Function.update pending i (some p)) := by
  have hfree : ∀ m q, (calls m).holds jobOf ≠ some (i, q) := fun m q hm => by
    have := h.listed m i q hm
    rw [hi] at this
    simp at this
  refine ⟨fun m k q hm => ?_, fun k q hk => ?_, fun m m' k q q' hm hm' => ?_⟩
  · by_cases hmn : m = n
    · subst hmn
      rw [Function.update_self, hc] at hm
      obtain ⟨rfl, rfl⟩ := Prod.mk.inj (Option.some.inj hm)
      exact Function.update_self ..
    · rw [Function.update_of_ne hmn] at hm
      have hk : k ≠ i := fun he => hfree m q (he ▸ hm)
      rw [Function.update_of_ne hk]
      exact h.listed m k q hm
  · by_cases hki : k = i
    · subst hki
      rw [Function.update_self] at hk
      obtain rfl := Option.some.inj hk
      exact ⟨n, by rw [Function.update_self, hc]⟩
    · rw [Function.update_of_ne hki] at hk
      obtain ⟨m, hm⟩ := h.held k q hk
      have hmn : m ≠ n := by
        rintro rfl
        rw [hn] at hm
        simp at hm
      exact ⟨m, by rw [Function.update_of_ne hmn]; exact hm⟩
  · by_cases hmn : m = n <;> by_cases hmn' : m' = n
    · rw [hmn, hmn']
    · subst hmn
      rw [Function.update_self, hc] at hm
      rw [Function.update_of_ne hmn'] at hm'
      obtain ⟨rfl, -⟩ := Prod.mk.inj (Option.some.inj hm)
      exact absurd hm' (hfree m' q')
    · subst hmn'
      rw [Function.update_self, hc] at hm'
      rw [Function.update_of_ne hmn] at hm
      obtain ⟨rfl, -⟩ := Prod.mk.inj (Option.some.inj hm')
      exact absurd hm (hfree m q)
    · rw [Function.update_of_ne hmn] at hm
      rw [Function.update_of_ne hmn'] at hm'
      exact h.distinct m m' k q q' hm hm'

/-- A call gives up its registration. -/
theorem Holds.closed {i : SubId} {p : Pending} (hn : (calls n).holds jobOf = some (i, p))
    (hc : call.holds jobOf = none) :
    Holds jobOf (Function.update calls n call) (Function.update pending i none) := by
  have hother : ∀ {m k q}, (Function.update calls n call m).holds jobOf = some (k, q) →
      m ≠ n ∧ (calls m).holds jobOf = some (k, q) := by
    intro m k q hm
    by_cases hmn : m = n
    · subst hmn
      rw [Function.update_self, hc] at hm
      simp at hm
    · rw [Function.update_of_ne hmn] at hm
      exact ⟨hmn, hm⟩
  refine ⟨fun m k q hm => ?_, fun k q hk => ?_, fun m m' k q q' hm hm' => ?_⟩
  · obtain ⟨hmn, hm⟩ := hother hm
    have hk : k ≠ i := fun he => hmn (h.distinct m n i q p (he ▸ hm) hn)
    rw [Function.update_of_ne hk]
    exact h.listed m k q hm
  · have hki : k ≠ i := by
      rintro rfl
      rw [Function.update_self] at hk
      simp at hk
    rw [Function.update_of_ne hki] at hk
    obtain ⟨m, hm⟩ := h.held k q hk
    have hmn : m ≠ n := by
      rintro rfl
      rw [hn] at hm
      exact hki (Prod.mk.inj (Option.some.inj hm)).1.symm
    exact ⟨m, by rw [Function.update_of_ne hmn]; exact hm⟩
  · exact h.distinct m m' k q q' (hother hm).2 (hother hm').2

omit h in
/-- What a call holds after its topic may have been removed. -/
theorem holds_overtake (t : Topic) (call : Call) : (call.overtake jobOf t).holds jobOf =
    (call.holds jobOf).map fun e =>
      (e.1, if e.2.topic = t then { e.2 with overtaken := true } else e.2) := by
  cases call with
  | indexing f e i o rest =>
    by_cases ht : topicOf (jobOf f) e = t <;> simp [Call.overtake, Call.holds, ht]
  | validating a f i o =>
    by_cases ht : a.topic = t <;> simp [Call.overtake, Call.holds, ht]
  | _ => rfl

theorem Holds.overtaken (t : Topic) : Holds jobOf (fun n => (calls n).overtake jobOf t)
    (fun i => (pending i).map fun p => if p.topic = t then { p with overtaken := true } else p) := by
  refine ⟨fun m i p hm => ?_, fun i p hp => ?_, fun m m' i p q hm hm' => ?_⟩
  · rw [holds_overtake] at hm
    obtain ⟨⟨k, q⟩, hq, he⟩ := Option.map_eq_some_iff.mp hm
    obtain ⟨rfl, rfl⟩ := Prod.mk.inj he
    rw [h.listed m k q hq]
    rfl
  · obtain ⟨q, hq, rfl⟩ := Option.map_eq_some_iff.mp hp
    obtain ⟨m, hm⟩ := h.held i q hq
    exact ⟨m, by rw [holds_overtake, hm]; rfl⟩
  · rw [holds_overtake] at hm hm'
    obtain ⟨⟨k, r⟩, hr, he⟩ := Option.map_eq_some_iff.mp hm
    obtain ⟨⟨k', r'⟩, hr', he'⟩ := Option.map_eq_some_iff.mp hm'
    obtain ⟨rfl, -⟩ := Prod.mk.inj he
    obtain ⟨rfl, -⟩ := Prod.mk.inj he'
    exact h.distinct m m' k' r r' hr hr'

end Holds

/-! ## Requirements on steps -/

/-- What a result requires of the steps it is about. -/
structure Guard where
  /-- Which ids may be given to `remove_subscription_by_id`, by the ids handed out so far. -/
  ids : List SubId → SubId → Prop := fun _ _ => True
  /-- Whether a registration is indexed only if its topic was not removed meanwhile. -/
  fresh : Prop := False

def Guard.micro (g : Guard) (c : Config) (l : Micro) : Prop :=
  (∀ i, l = .removeId i → g.ids c.listeners i) ∧
    (g.fresh → ∀ i p, l = .index i → c.pending i = some p → p.overtaken = false)

theorem Config.Plain.micro {g : Guard} {c : Config} {l : Micro} (h : c.Plain l) : g.micro c l :=
  ⟨fun i hi => absurd hi (h.1 i), fun _ => h.2⟩

namespace Session

/-- The steps that the guard admits.  In every case an internal subscription is indexed while its job
is in the registry. -/
def Admits (g : Guard) (s : Session) (l : Label) : Prop :=
  match l.act with
  | .removeSubscriptionById ids => ∀ i ∈ ids, g.ids s.listeners i
  | .proceed n =>
    match s.calls n with
    | .indexing f _ _ o _ =>
      s.tracker.futureRegistry.get? (s.jobOf f) = some f ∧ (g.fresh → o = false)
    | .validating a f _ o =>
      g.fresh → s.tracker.futureRegistry.get? a.jobId = some f →
        (s.tracker.futures f).done = false → o = false
    | _ => True
  | _ => True

/-- The session as a configuration. -/
def config (s : Session) (pending : SubId → Option Pending) : Config where
  tracker := s.tracker
  pending := pending
  listeners := s.listeners
  cutTopics := s.cutTopics
  published := s.published

@[simp] theorem config_tracker (s : Session) (p : SubId → Option Pending) :
    (s.config p).tracker = s.tracker := rfl

@[simp] theorem config_pending (s : Session) (p : SubId → Option Pending) :
    (s.config p).pending = p := rfl

@[simp] theorem config_listeners (s : Session) (p : SubId → Option Pending) :
    (s.config p).listeners = s.listeners := rfl

@[simp] theorem config_published (s : Session) (p : SubId → Option Pending) :
    (s.config p).published = s.published := rfl

@[simp] theorem config_cutTopics (s : Session) (p : SubId → Option Pending) :
    (s.config p).cutTopics = s.cutTopics := rfl

/-- The invariant of sessions. -/
structure Sound (jobOf : FutureRef → String) (s : Session) (pending : SubId → Option Pending) :
    Prop where
  inv : (s.config pending).Inv jobOf
  named : (s.config pending).Named
  holds : Holds jobOf s.calls pending
  fits : ∀ n, (s.calls n).Fits jobOf s.published

/-- No call in flight holds a registration for the job. -/
def Settled (s : Session) (j : String) : Prop :=
  ∀ n i p, (s.calls n).holds s.jobOf = some (i, p) → ¬ IsTopicOf j p.topic

variable {jobOf : FutureRef → String} {g : Guard} {s s' : Session} {pending : SubId → Option Pending}

theorem Sound.jobOf_eq (h : s.Sound jobOf pending) : s.jobOf = jobOf :=
  funext fun f => h.inv.jobIds f

theorem Sound.settled (h : s.Sound jobOf pending) {j : String} (hj : s.Settled j) :
    ∀ i p, pending i = some p → ¬ IsTopicOf j p.topic := by
  intro i p hp
  obtain ⟨n, hn⟩ := h.holds.held i p hp
  exact hj n i p (by rw [h.jobOf_eq]; exact hn)

theorem micro_other (c : Config) : g.micro c .other := (plain_other c).micro

theorem run_sound {c : Config} {ls : List Micro}
    (hrun : Run (Config.Step jobOf) g.micro (s.config pending) ls c) (h : s.Sound jobOf pending) :
    c.Inv jobOf ∧ c.Named :=
  hrun.invariant (I := fun d => d.Inv jobOf ∧ d.Named) ⟨h.inv, h.named⟩
    fun _ _ _ hd _ hs => ⟨hd.1.step hs, hd.2.step hd.1 hs⟩

/-- A label is answered by a run of critical sections. -/
def Answered (jobOf : FutureRef → String) (g : Guard) (s : Session) (pending : SubId → Option Pending)
    (s' : Session) : Prop :=
  ∃ pending' ls, Run (Config.Step jobOf) g.micro (s.config pending) ls (s'.config pending') ∧
    Holds jobOf s'.calls pending' ∧ ∀ n, (s'.calls n).Fits jobOf s'.published

section Answers

variable (h : s.Sound jobOf pending)
include h

/-- A step that only changes the tracker. -/
theorem answered_tracker {x : JobTracker} {l : List (Subscription ClientCallback × SlurmMessage)}
    (hs : Config.Step jobOf (s.config pending) .other { s.config pending with tracker := x }) :
    Answered jobOf g s pending { s with tracker := x, captured := l } :=
  ⟨pending, [.other], Run.single (micro_other _) hs, h.holds, h.fits⟩

theorem fits_goto {n : ℕ} {call : Call} {l : List FutureRef} (hl : ∀ f, f ∈ s.published → f ∈ l)
    (hc : call.Fits jobOf l) (m : ℕ) : (Function.update s.calls n call m).Fits jobOf l := by
  by_cases hm : m = n
  · rw [hm, Function.update_self]
    exact hc
  · rw [Function.update_of_ne hm]
    exact (h.fits m).mono hl

/-- A step of a call that holds nothing before and after. -/
theorem answered_goto {x : JobTracker} {n : ℕ} {call : Call}
    (hs : Config.Step jobOf (s.config pending) .other { s.config pending with tracker := x })
    (hc : call.holds jobOf = (s.calls n).holds jobOf) (hf : call.Fits jobOf s.published) :
    Answered jobOf g s pending ({ s with tracker := x }.goto n call) :=
  ⟨pending, [.other], Run.single (micro_other _) hs, h.holds.keep hc,
    fits_goto h (fun _ hf => hf) hf⟩

/-- A client subscription by a call: it goes on with the registration in flight, or ends. -/
theorem answered_subscribe {n : ℕ} {t : Topic} {cb : ClientCallback} {f : FutureRef}
    {r : Except PyError SubId} {x : JobTracker} {k : SubId → Call}
    (he : (onClient (RedisSubClient.subscribe t cb)).exec s.tracker = (r, x))
    (hn : (s.calls n).holds jobOf = none) (ht : IsTopicOf (jobOf f) t) (hf : f ∈ s.published)
    (hnext : ∀ i, (k i).holds jobOf = some (i, ⟨t, f, false⟩))
    (hfits : ∀ i, (k i).Fits jobOf s.published) :
    Answered jobOf g s pending
      ({ s with tracker := x }.goto n (match r with
        | .ok i => k i
        | .error e => .ended (.error e))) := by
  rcases subscribe_step h.inv cb ht hf with ⟨k, he', -, hs⟩ | ⟨k, e, he', -, hs⟩
  · obtain ⟨rfl, rfl⟩ := Prod.mk.inj (he.symm.trans he')
    refine ⟨_, [.other], Run.single (micro_other _) hs, ?_, fits_goto h (fun _ hf => hf) (hfits _)⟩
    exact h.holds.opened hn (pending_nextUuid h.inv) (hnext _)
  · obtain ⟨rfl, rfl⟩ := Prod.mk.inj (he.symm.trans he')
    exact answered_goto h hs (by rw [hn]; rfl) trivial

/-- The next section of `track` or `add_subscription`. -/
theorem answered_proceed {rt : Runtime} {n : ℕ} (hok : s.Admits g ⟨rt, .proceed n⟩)
    (hs : s.proceed rt n = some s') : Answered jobOf g s pending s' := by
  have hfits := h.fits n
  have hjob : s.jobOf = jobOf := funext fun f => h.inv.jobIds f
  unfold proceed at hs
  unfold Admits at hok
  cases hcall : s.calls n with
  | subscribing f e rest =>
    simp only [hcall, Call.Fits] at hs hfits
    have ht : IsTopicOf (jobOf f) (topicOf (s.tracker.futures f).jobId e) := by
      rw [← hjob]
      exact isTopicOf_topicOf _ _
    have hnext : ∀ i, (Call.indexing f e i false rest).holds jobOf =
        some (i, ⟨topicOf (s.tracker.futures f).jobId e, f, false⟩) := fun i => by
      rw [← hjob]
      rfl
    have hx := exec_subscribeCallback (s := s.tracker) e f
    rcases hr : (subscribeCallback e f).exec s.tracker with ⟨r, x⟩
    have ha := answered_subscribe (g := g) h (n := n) (k := fun i => .indexing f e i false rest)
      (hx.symm.trans hr) (by rw [hcall]; rfl) ht hfits hnext (fun _ => hfits)
    rw [hr] at hs
    cases r with
    | ok i => obtain rfl := Option.some.inj hs; exact ha
    | error e => obtain rfl := Option.some.inj hs; exact ha
  | indexing f e i o rest =>
    simp only [hcall, Call.Fits] at hs hfits hok
    have hholds : (s.calls n).holds jobOf = some (i, ⟨topicOf (jobOf f) e, f, o⟩) := by rw [hcall]; rfl
    have hp := h.holds.listed n i _ hholds
    have hx := exec_indexCallback (s := s.tracker) rt e f i
    obtain rfl := Option.some.inj hs
    have hstep := indexCallback_step h.inv rt (e := e) hp (by rw [← hjob]; rfl) rfl
      (by rw [← hjob]; exact hok.1)
    refine ⟨Function.update pending i none, [.index i],
      Run.single ⟨by simp, fun hg i' p' hi hp' => ?_⟩ ?_, ?_, ?_⟩
    · obtain rfl : i = i' := by simpa using hi
      rw [← Option.some.inj (hp.symm.trans hp')]
      exact hok.2 hg
    · simp only [Program.after, hx]
      exact hstep
    · refine h.holds.closed hholds ?_
      cases rest <;> rfl
    · refine fits_goto h (fun _ hf => hf) ?_
      cases rest
      · trivial
      · exact hfits
  | adding a f =>
    simp only [hcall, Call.Fits] at hs hfits
    have ht : IsTopicOf (jobOf f) a.topic := by
      rw [hfits.1]
      exact isTopicOf_topicOf _ _
    have hx : (subscribeListener a f).exec s.tracker =
        (onClient (RedisSubClient.subscribe a.topic (a.redisCallback (s.tracker.futures f)))).exec
          s.tracker := Program.exec_bind_ok (Program.exec_get s.tracker)
    rcases hr : (subscribeListener a f).exec s.tracker with ⟨r, x⟩
    have ha := answered_subscribe (g := g) h (n := n) (k := fun i => .validating a f i false)
      (hx.symm.trans hr) (by rw [hcall]; rfl) ht hfits.2 (fun _ => rfl) (fun _ => hfits)
    rw [hr] at hs
    cases r with
    | ok i => obtain rfl := Option.some.inj hs; exact ha
    | error e => obtain rfl := Option.some.inj hs; exact ha
  | validating a f i o =>
    simp only [hcall, Call.Fits] at hs hfits hok
    have hholds : (s.calls n).holds jobOf = some (i, ⟨a.topic, f, o⟩) := by rw [hcall]; rfl
    have hp := h.holds.listed n i _ hholds
    rcases validateListener_step h.inv a hp rfl rfl hfits.1 with
      ⟨hreg, hdone, x, hx, hstep⟩ | ⟨-, x, hx, hstep⟩
    · have hx' : (validateListener a f i).exec s.tracker = (.ok i, x) := hx
      rw [hx'] at hs
      obtain rfl := Option.some.inj hs
      refine ⟨_, [.index i], Run.single ⟨by simp, fun hg i' p' hi hp' => ?_⟩ hstep,
        h.holds.closed hholds rfl, fits_goto h (fun _ hf => hf) trivial⟩
      obtain rfl : i = i' := by simpa using hi
      rw [← Option.some.inj (hp.symm.trans hp')]
      exact hok hg hreg hdone
    · have hx' : (validateListener a f i).exec s.tracker = (.error ⟨.runtimeError, "Job " ++ a.jobId ++
          " finished during subscription registration"⟩, x) := hx
      rw [hx'] at hs
      obtain rfl := Option.some.inj hs
      exact ⟨_, [.other], Run.single (micro_other _) hstep, h.holds.closed hholds rfl,
        fits_goto h (fun _ hf => hf) trivial⟩
  | idle => simp [hcall] at hs
  | cancelling f => simp [hcall] at hs
  | checking f => simp [hcall] at hs
  | ended r => simp [hcall] at hs

/-- **Simulation**: every admitted step of a session is a run of critical sections. -/
theorem Sound.answered {l : Label} (hok : s.Admits g l) (hs : Steps s l s') :
    Answered jobOf g s pending s' := by
  obtain ⟨rt, act⟩ := l
  have hsame : Config.Step jobOf (s.config pending) .other
      { s.config pending with tracker := s.tracker } := Config.Step.stamp (Stamped.refl h.inv.wellFormed)
  unfold Steps step at hs
  unfold Admits at hok
  cases act with
  | track f =>
    simp only at hs
    split_ifs at hs with hf
    obtain rfl := Option.some.inj hs
    obtain ⟨hf, hd⟩ := not_or.mp hf
    obtain ⟨r, x, ls, he, hrun, -⟩ := track_run h.inv h.named rt hf (by simpa using hd)
    have he' : (track rt f).exec s.tracker = (r, x) := he
    refine ⟨pending, ls, ?_, h.holds, fun n => (h.fits n).mono fun g hg => by simp [hg]⟩
    simp only [Program.after, he']
    exact hrun.mono fun _ _ hp => hp.micro
  | addSubscription a =>
    simp only at hs
    rcases addSubscription_run h.inv a with ⟨i, x, ls, he, hrun⟩ | ⟨e, x, ls, he, hrun⟩
    · have he' : (addSubscription a).exec s.tracker = (.ok i, x) := he
      rw [he'] at hs
      obtain rfl := Option.some.inj hs
      exact ⟨pending, ls, hrun.mono fun _ _ hp => hp.micro, h.holds, h.fits⟩
    · have he' : (addSubscription a).exec s.tracker = (.error e, x) := he
      rw [he'] at hs
      obtain rfl := Option.some.inj hs
      exact ⟨pending, ls, hrun.mono fun _ _ hp => hp.micro, h.holds, h.fits⟩
  | applyStatus m f =>
    obtain ⟨x, he, hstep⟩ := applyStatus_step h.inv rt m f
    have he' : (applyStatus rt m f).exec s.tracker = (.ok (), x) := he
    obtain rfl := Option.some.inj hs
    simp only [Program.after, he']
    exact answered_tracker h hstep
  | removeSubscriptionById ids =>
    obtain ⟨x, ls, he, hrun⟩ := removeSubscriptionById_run h.inv g.micro ids
      fun s' i hi => ⟨fun k hk => by
        obtain rfl : i = k := by simpa using hk
        exact hok i hi, by simp⟩
    have he' : (removeSubscriptionById ids).exec s.tracker = (.ok (), x) := he
    obtain rfl := Option.some.inj hs
    simp only [Program.after, he']
    exact ⟨pending, ls, hrun, h.holds, h.fits⟩
  | removeSubscriptionByTopic t =>
    obtain ⟨x, he, hstep⟩ := removeSubscriptionByTopic_step h.inv t
    have he' : (removeSubscriptionByTopic t).exec s.tracker = (.ok (), x) := he
    have hjob : s.jobOf = jobOf := funext fun f => h.inv.jobIds f
    obtain rfl := Option.some.inj hs
    simp only [Program.after, he', hjob]
    refine ⟨_, [.other], Run.single (micro_other _) hstep, h.holds.overtaken t, fun n => ?_⟩
    have hfit := h.fits n
    show ((s.calls n).overtake jobOf t).Fits jobOf s.published
    cases hc : s.calls n <;> simp_all [Call.overtake, Call.Fits]
  | removeSubscriptionsForJob j skip =>
    obtain ⟨x, he, hstep⟩ := removeSubscriptionsForJob_step h.inv rt j skip
    have he' : (removeSubscriptionsForJob rt j skip).exec s.tracker = (.ok (), x) := he
    obtain rfl := Option.some.inj hs
    simp only [Program.after, he']
    exact answered_tracker h hstep
  | beginSchedulerCheck j =>
    obtain ⟨r, x, he, hstep⟩ := beginSchedulerCheck_step h.inv rt j
    have he' : (beginSchedulerCheck rt j).exec s.tracker = (.ok r, x) := he
    obtain rfl := Option.some.inj hs
    simp only [Program.after, he']
    exact answered_tracker h hstep
  | dispatchMessage t m =>
    obtain ⟨x, ls, he, hrun⟩ := dispatchMessage_run h.inv (fun c => micro_other (g := g) c) rt t m
    have he' : (dispatchMessage rt t m).exec s.tracker = (.ok (), x) := he
    obtain rfl := Option.some.inj hs
    simp only [Program.after, he']
    exact ⟨pending, ls, hrun, h.holds, h.fits⟩
  | listenGlobal e cb =>
    obtain ⟨x, he, hstep⟩ : ∃ x, _ ∧ Config.Step jobOf (s.config pending) .other _ :=
      listenGlobal_step e cb
    have he' : (listenGlobal e cb).exec s.tracker = (.ok s.tracker.subClient.nextUuid, x) := he
    obtain rfl := Option.some.inj hs
    simp only [Program.after, he']
    exact answered_tracker h hstep
  | startTrack n f =>
    simp only at hs
    cases hcall : s.calls n with
    | idle =>
      simp only [hcall] at hs
      split_ifs at hs with hf
      obtain rfl := Option.some.inj hs
      obtain ⟨hf, hd⟩ := not_or.mp hf
      refine ⟨pending, [.other], Run.single (micro_other _) (Config.Step.publish hf (by simpa using hd)),
        h.holds.keep (by rw [hcall]; rfl), fits_goto h (fun _ hf => List.mem_append_left _ hf) ?_⟩
      exact List.mem_append_right _ (List.mem_singleton.mpr rfl)
    | _ => simp [hcall] at hs
  | startAdd n a =>
    simp only at hs
    cases hcall : s.calls n with
    | idle =>
      have hx := exec_checkActive (s := s.tracker) a
      simp only [hcall] at hs
      rcases hr : (checkActive a).exec s.tracker with ⟨r, x⟩
      rw [hr] at hs
      rw [hr] at hx
      have hmatch : x = s.tracker ∧ ∀ f, r = .ok f → s.tracker.futureRegistry.get? a.jobId = some f := by
        cases hreg : s.tracker.futureRegistry.get? a.jobId with
        | none =>
          rw [hreg] at hx
          obtain ⟨rfl, rfl⟩ := Prod.mk.inj hx
          exact ⟨rfl, by simp⟩
        | some f =>
          simp only [hreg] at hx
          split_ifs at hx with hd
          · obtain ⟨rfl, rfl⟩ := Prod.mk.inj hx
            exact ⟨rfl, by simp⟩
          · obtain ⟨rfl, rfl⟩ := Prod.mk.inj hx
            exact ⟨rfl, fun g hg => by simpa using hg⟩
      obtain ⟨rfl, hreg⟩ := hmatch
      cases r with
      | ok f =>
        obtain rfl := Option.some.inj hs
        obtain ⟨hj, -, hpub⟩ := h.inv.registry _ f (hreg f rfl)
        exact answered_goto h hsame (by rw [hcall]; rfl) ⟨hj, hpub⟩
      | error e =>
        obtain rfl := Option.some.inj hs
        exact answered_goto h hsame (by rw [hcall]; rfl) trivial
    | _ => simp [hcall] at hs
  | startCancel n j =>
    simp only at hs
    cases hcall : s.calls n with
    | idle =>
      simp only [hcall] at hs
      obtain rfl := Option.some.inj hs
      exact answered_goto h hsame (by rw [hcall]; rfl) trivial
    | _ => simp [hcall] at hs
  | startCheck n j =>
    simp only at hs
    cases hcall : s.calls n with
    | idle =>
      simp only [hcall] at hs
      obtain ⟨r, x, he, hstep⟩ := beginSchedulerCheck_step h.inv rt j
      have he' : (beginSchedulerCheck rt j).exec s.tracker = (.ok r, x) := he
      rw [he'] at hs
      cases r with
      | none =>
        obtain rfl := Option.some.inj hs
        exact answered_goto h hstep (by rw [hcall]; rfl) trivial
      | some f =>
        obtain rfl := Option.some.inj hs
        exact answered_goto h hstep (by rw [hcall]; rfl) trivial
    | _ => simp [hcall] at hs
  | proceed n => exact answered_proceed h hok hs
  | cancelled n rest =>
    simp only at hs
    cases hcall : s.calls n with
    | cancelling future =>
      simp only [hcall] at hs
      cases rest with
      | error e =>
        obtain rfl := Option.some.inj hs
        exact answered_goto h hsame (by rw [hcall]; rfl) trivial
      | ok u =>
        cases future with
        | none =>
          obtain rfl := Option.some.inj hs
          exact answered_goto h hsame (by rw [hcall]; rfl) trivial
        | some f =>
          obtain ⟨x, he, hstep⟩ :=
            applyStatus_step h.inv rt (cancelMessage rt (s.tracker.futures f)) f
          have he' : (applyStatus rt (cancelMessage rt (s.tracker.futures f)) f).exec s.tracker =
            (.ok (), x) := he
          obtain rfl := Option.some.inj hs
          simp only [Program.after, he']
          exact answered_goto h hstep (by rw [hcall]; rfl) trivial
    | _ => simp [hcall] at hs
  | checked n verdict =>
    simp only at hs
    cases hcall : s.calls n with
    | checking f =>
      simp only [hcall] at hs
      cases verdict with
      | none =>
        obtain rfl := Option.some.inj hs
        exact answered_goto h hsame (by rw [hcall]; rfl) trivial
      | some text =>
        obtain ⟨x, he, hstep⟩ := applyStatus_step h.inv rt { status := text } f
        have he' : (applyStatus rt { status := text } f).exec s.tracker = (.ok (), x) := he
        obtain rfl := Option.some.inj hs
        simp only [Program.after, he']
        exact answered_goto h hstep (by rw [hcall]; rfl) trivial
    | _ => simp [hcall] at hs
  | poll t m =>
    simp only at hs
    split at hs
    · obtain rfl := Option.some.inj hs
      exact answered_tracker h hsame
    · simp at hs
  | deliver =>
    simp only at hs
    split at hs
    · simp at hs
    · rename_i sub m rest _
      obtain ⟨x, he, hstep⟩ := deliver_step h.inv rt m sub
      have he' : (deliver rt m sub).exec s.tracker = (.ok (), x) := he
      obtain rfl := Option.some.inj hs
      simp only [Program.after, he']
      exact answered_tracker h hstep

end Answers

/-- Every admitted step keeps the invariant of sessions. -/
theorem Sound.step {l : Label} (h : s.Sound jobOf pending) (hok : s.Admits g l) (hs : Steps s l s') :
    ∃ pending', s'.Sound jobOf pending' := by
  obtain ⟨pending', ls, hrun, hh, hf⟩ := h.answered (g := g) hok hs
  obtain ⟨hi, hn⟩ := run_sound hrun h
  exact ⟨pending', hi, hn, hh, hf⟩

/-! ## Runs from a new tracker -/

section Runs

theorem Initial.sound (h : s.Initial) (hu : s.tracker.subClient.pubsub.UnsubscribeOk) :
    s.Sound s.jobOf (fun _ => none) := by
  obtain ⟨hreg, -, hsub, htop, hact, -, -⟩ := h.maps
  obtain ⟨hcsub, hctop, hcready, -, -, -⟩ := h.client
  obtain ⟨-, -, hlis, -⟩ := h.histories
  have hwf : s.tracker.WellFormed := JobTracker.wellFormed_of_empty
    (RedisSubClient.wellFormed_of_empty hcsub hctop hcready) hsub htop hact
  refine ⟨⟨hwf, hu, fun f => rfl, fun i p hp => ?_, fun i t hi => ?_, fun i t hi => ?_,
    fun j hj => ?_, fun j f hf => ?_⟩, fun i hi => ?_,
    ⟨fun n i p hn => ?_, fun i p hp => ?_, fun n m i p q hn => ?_⟩, fun n => ?_⟩
  · simp at hp
  · simp [hctop] at hi
  · simp [htop] at hi
  · simp [hact] at hj
  · simp [hreg] at hf
  · simp [hlis] at hi
  · rw [h.calls n] at hn
    simp [Call.holds] at hn
  · simp at hp
  · rw [h.calls n] at hn
    simp [Call.holds] at hn
  · rw [h.calls n]
    trivial

/-- **Every run of a session is a run of critical sections.** -/
theorem simulated {s₀ : Session} {ls : List Label} (h₀ : s₀.Initial)
    (hu : s₀.tracker.subClient.pubsub.UnsubscribeOk) (hrun : Run Steps (Admits g) s₀ ls s) :
    ∃ pending ms, Run (Config.Step s₀.jobOf) g.micro (s₀.config fun _ => none) ms (s.config pending) ∧
      s.Sound s₀.jobOf pending := by
  obtain ⟨ms, c, hms, pending, rfl, hs⟩ : ∃ ms c, Run (Config.Step s₀.jobOf) g.micro
      (s₀.config fun _ => none) ms c ∧ ∃ pending, c = s.config pending ∧ s.Sound s₀.jobOf pending :=
    hrun.simulate (r := fun s c => ∃ pending, c = s.config pending ∧ s.Sound s₀.jobOf pending)
      ⟨fun _ => none, rfl, h₀.sound hu⟩ (by
      rintro s l t c ⟨pending, rfl, hs⟩ hok hstep
      obtain ⟨pending', ks, hks, hh, hf⟩ := hs.answered hok hstep
      obtain ⟨hi, hn⟩ := run_sound hks hs
      exact ⟨ks, _, hks, pending', rfl, hi, hn, hh, hf⟩)
  exact ⟨pending, ms, hms, hs⟩

/-- No pub/sub call ever raises. -/
structure Calm (s : Session) : Prop where
  subscribes : s.tracker.subClient.pubsub.SubscribeOk
  unsubscribes : s.tracker.subClient.pubsub.UnsubscribeOk

theorem Initial.quiet (h : s.Initial) (hc : s.Calm) : (s.config fun _ => none).Quiet := by
  obtain ⟨hcsub, -, hcready, -, hsent, -⟩ := h.client
  exact ⟨hc.subscribes, RedisSubClient.synced_of_empty hcsub hcready hsent⟩

theorem Initial.agree (h : s.Initial) : (s.config fun _ => none).Agree s.jobOf := by
  refine ⟨fun i t hi => ?_, fun i p hp => ?_⟩
  · simp [h.maps.2.2.2.1] at hi
  · simp at hp

variable {c c' : Config} {ms : List Micro}

theorem run_quiet {ok : Config → Micro → Prop} (hrun : Run (Config.Step jobOf) ok c ms c')
    (h : c.Inv jobOf) (hq : c.Quiet) : c'.Quiet := by
  refine (hrun.invariant (I := fun d => d.Inv jobOf ∧ d.Quiet) ⟨h, hq⟩ ?_).2
  exact fun _ _ _ hd _ hs => ⟨hd.1.step hs, hd.2.step hd.1 hs⟩

/-- Where no overtaken registration is indexed, the tracker and the client agree throughout. -/
theorem run_agree (hg : g.fresh) (hrun : Run (Config.Step jobOf) g.micro c ms c')
    (h : c.Inv jobOf) (ha : c.Agree jobOf) : c'.Agree jobOf := by
  refine (hrun.invariant (I := fun d => d.Inv jobOf ∧ d.Agree jobOf) ⟨h, ha⟩ ?_).2
  exact fun _ _ _ hd hok hs => ⟨hd.1.step hs, hd.2.step hd.1 hs (hok.2 hg)⟩

end Runs

end Session

end SlurmManager
