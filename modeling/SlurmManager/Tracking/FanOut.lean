import SlurmManager.Tracking.Internals

/-!
# FanOut — who is told of a log line or a heartbeat

Job-level listeners have client subscriptions of their own, manager-wide ones are served by the tracker's own
subscription for the job.  Both lie in one dictionary of the client, and listeners come and go between messages.

* `Listens`: a listener that the tracker has indexed is registered in the client with its dispatcher.
* `tasks_dispatchMessage`: the tasks that one message makes.
* `fan_out`: exactly one for each listener of the job and the event, and none for any other.
-/

namespace SlurmManager

open Program JobTracker

/-- A subscription leaves the registrations that there are. -/
theorem RedisSubClient.registration?_kept {χ : Type} {c c' : RedisSubClient χ} (h : c.WellFormed) {t t' : Topic} {cb : χ}
    {r : Except PyError SubId} {k : SubId} {sub : Subscription χ} (he : (subscribe t cb).exec c = (r, c'))
    (hk : c.registration? t' k = some sub) : c'.registration? t' k = some sub := by
  cases r with
  | ok i => exact (registration?_subscribe he k).trans ((if_neg fun hx => ne_of_subscribe h he hk hx.2).trans hk)
  | error err => exact (registration?_subscribe_error he k).trans hk

theorem redisCallback_congr (a : AddArgs) {f g : JobFuture} (h : g.slurmJobId = f.slurmJobId) :
    a.redisCallback g = a.redisCallback f := by
  unfold AddArgs.redisCallback AddArgs.dispatch
  rw [h]

/-- The only call that is joining. -/
theorem validating_of_phase {jobOf : FutureRef → String} {j : String} {e : Event} {call : Call} {a : AddArgs}
    {f : FutureRef} {i : SubId} (h : call.phase jobOf j e = some (.joining a f i)) :
    ∃ o, call = .validating a f i o ∧ a.topic = topicOf j e := by
  cases call with
  | validating a' f' i' o =>
    have h' : (if a'.topic = topicOf j e then some (Phase.joining a' f' i') else none) = some (.joining a f i) := h
    split_ifs at h' with ha
    obtain ⟨rfl, rfl, rfl⟩ := Phase.joining.inj (Option.some.inj h')
    exact ⟨o, rfl, ha⟩
  | subscribing =>
    unfold Call.phase at h
    dsimp only at h
    split_ifs at h <;> exact absurd (Option.some.inj h) (by simp)
  | indexing =>
    unfold Call.phase at h
    dsimp only at h
    split_ifs at h <;> exact absurd (Option.some.inj h) (by simp)
  | _ => contradiction

/-- A call that does not join goes on. -/
theorem joining_update {jobOf : FutureRef → String} {j : String} {e : Event} {calls : ℕ → Call} {n m : ℕ} {call : Call}
    (hno : ∀ a f i o, call ≠ .validating a f i o) {a : AddArgs} {f : FutureRef} {i : SubId}
    (hm : (Function.update calls n call m).phase jobOf j e = some (.joining a f i)) :
    (calls m).phase jobOf j e = some (.joining a f i) := by
  by_cases hmn : m = n
  · rw [hmn, Function.update_self] at hm
    obtain ⟨o, hcall, -⟩ := validating_of_phase hm
    exact absurd hcall (hno a f i o)
  · rwa [Function.update_of_ne hmn] at hm

theorem adding_update {calls : ℕ → Call} {n m : ℕ} {call : Call} (hno : ∀ a f, call ≠ .adding a f) {a : AddArgs}
    {f : FutureRef} (hm : Function.update calls n call m = .adding a f) : calls m = .adding a f := by
  by_cases hmn : m = n
  · rw [hmn, Function.update_self] at hm
    exact absurd hm (hno a f)
  · rwa [Function.update_of_ne hmn] at hm

namespace Session

variable {jobOf : FutureRef → String} {j : String} {e : Event} {s s' : Session} {l : Label} {x : Installation}

/-- The job is in the registry, and its future is not done. -/
def Running (s : Session) (j : String) (f : FutureRef) : Prop :=
  s.tracker.futureRegistry.get? j = some f ∧ (s.tracker.futures f).done = false

/-- The listener `k` of the event of the job is indexed. -/
def Listening (s : Session) (j : String) (e : Event) (k : SubId) : Prop :=
  ∃ info, s.tracker.record? (topicOf j e) k = some info ∧ info.callback ≠ none

/-- The listener `k` of the event of the job is indexed, and registered in the client. -/
def Serving (s : Session) (j : String) (e : Event) (k : SubId) : Prop :=
  s.Listening j e k ∧ (s.tracker.subClient.registration? (topicOf j e) k).isSome

/-! ## Listeners in the client -/

/-- The listeners of the event of the job have their callbacks in the client, from the client subscription on. -/
structure Listens (jobOf : FutureRef → String) (j : String) (e : Event) (s : Session) : Prop where
  fresh : (∀ f ∈ s.published, jobOf f ≠ j) → s.tracker.futureRegistry.get? j = none ∧
    (∀ n a f, s.calls n = .adding a f → a.topic ≠ topicOf j e) ∧
    (∀ n a f i, (s.calls n).phase jobOf j e ≠ some (.joining a f i)) ∧
    ∀ i info, s.tracker.record? (topicOf j e) i = some info → info.callback = none
  adding : ∀ n a f g, s.calls n = .adding a f → a.topic = topicOf j e → s.Running j g → f = g
  joining : ∀ n a f i g, (s.calls n).phase jobOf j e = some (.joining a f i) → s.Running j g → f = g ∧
    s.tracker.subClient.registration? (topicOf j e) i =
      some ⟨i, topicOf j e, a.redisCallback (s.tracker.futures f)⟩
  records : ∀ i info d g, s.tracker.record? (topicOf j e) i = some info → info.callback = some d →
    s.Running j g → d.jobId = j ∧ d.slurmJobId = (s.tracker.futures g).slurmJobId ∧
      (e ≠ .status → s.tracker.subClient.registration? (topicOf j e) i = some ⟨i, topicOf j e, .dispatch d⟩)

theorem Initial.listens (h : s.Initial) (j : String) (e : Event) : s.Listens s.jobOf j e := by
  obtain ⟨hreg, -, hsub, -⟩ := h.maps
  have hrec : ∀ t i, s.tracker.record? t i = none := by
    intro t i
    unfold record?
    rw [hsub]
    rfl
  have hphase : ∀ n, (s.calls n).phase s.jobOf j e = none := fun n => by rw [h.calls n]; rfl
  refine ⟨fun _ => ⟨by rw [hreg]; rfl, fun n a f hn => ?_, fun n a f i hn => ?_, fun i info hi => ?_⟩,
    fun n a f g hn => ?_, fun n a f i g hn => ?_, fun i info d g hi => ?_⟩
  · rw [h.calls n] at hn
    contradiction
  · rw [hphase] at hn
    contradiction
  · rw [hrec] at hi
    contradiction
  · rw [h.calls n] at hn
    contradiction
  · rw [hphase] at hn
    contradiction
  · rw [hrec] at hi
    contradiction

/-- A call that is about to subscribe found its job in the registry. -/
theorem adding_of_step (hs : Steps s l s') {n : ℕ} {a : AddArgs} {f : FutureRef} (hn : s'.calls n = .adding a f) :
    s.calls n = .adding a f ∨ s.tracker.futureRegistry.get? a.jobId = some f := by
  have hm := hs.moves n
  generalize hc : s.calls n = c at hm
  generalize hd : s'.calls n = d at hm
  rw [hn] at hd
  cases hm with
  | stay => exact Or.inl hd.symm
  | overtake call =>
    cases c with
    | adding => exact Or.inl hd.symm
    | _ => exact absurd hd (by simp [Call.overtake])
  | active he =>
    obtain ⟨rfl, rfl⟩ := Call.adding.inj hd
    rw [Config.exec_checkActive] at he
    cases hr : s.tracker.futureRegistry.get? a.jobId with
    | none =>
      rw [hr] at he
      exact absurd (Prod.mk.inj he).1 (by simp)
    | some g =>
      rw [hr] at he
      dsimp only at he
      split_ifs at he
      · exact absurd (Prod.mk.inj he).1 (by simp)
      · exact Or.inr (congrArg some (Except.ok.inj (Prod.mk.inj he).1))
  | _ => contradiction

section Step

variable (h : s.Listens jobOf j e)
include h

/-- The calls go on elsewhere; records and registrations of listeners stay what they are, or are lost with the job. -/
theorem Listens.of_kept (hp : ∀ f ∈ s.published, f ∈ s'.published)
    (hadd : ∀ n a f, s'.calls n = .adding a f → s.calls n = .adding a f ∨ s.tracker.futureRegistry.get? a.jobId = some f)
    (hphase : ∀ n a f i, (s'.calls n).phase jobOf j e = some (.joining a f i) →
      (s.calls n).phase jobOf j e = some (.joining a f i))
    (hreg : ∀ f, s'.tracker.futureRegistry.get? j = some f → s.tracker.futureRegistry.get? j = some f)
    (hfut : ∀ f, (s'.tracker.futures f).slurmJobId = (s.tracker.futures f).slurmJobId ∧
      ((s'.tracker.futures f).done = false → (s.tracker.futures f).done = false))
    (hrec : ∀ i info, s'.tracker.record? (topicOf j e) i = some info → info.callback ≠ none →
      ∃ info₀, s.tracker.record? (topicOf j e) i = some info₀ ∧ info₀.callback = info.callback)
    (hclient : ∀ g i sub, s'.Running j g → s.tracker.subClient.registration? (topicOf j e) i = some sub →
      (∃ n a f, (s'.calls n).phase jobOf j e = some (.joining a f i)) ∨
        (∃ info d, s'.tracker.record? (topicOf j e) i = some info ∧ info.callback = some d) →
      s'.tracker.subClient.registration? (topicOf j e) i = some sub) : s'.Listens jobOf j e := by
  have hrun : ∀ g, s'.Running j g → s.Running j g := fun g hg => ⟨hreg g hg.1, (hfut g).2 hg.2⟩
  refine ⟨fun hno => ?_, fun n a f g hn ha hg => ?_, fun n a f i g hn hg => ?_, fun i info d g hi hd hg => ?_⟩
  · obtain ⟨hnone, hadding, hjoin, hrecords⟩ := h.fresh fun f hf => hno f (hp f hf)
    refine ⟨?_, fun n a f hn ha => ?_, fun n a f i hn => hjoin n a f i (hphase n a f i hn), fun i info hi => ?_⟩
    · cases hr : s'.tracker.futureRegistry.get? j with
      | none => rfl
      | some f =>
        rw [hreg f hr] at hnone
        contradiction
    · rcases hadd n a f hn with hold | hold
      · exact hadding n a f hold ha
      · rw [(topicOf_inj.mp ha).1, hnone] at hold
        contradiction
    · by_contra hcb
      obtain ⟨info₀, h₀, heq⟩ := hrec i info hi hcb
      exact hcb (heq ▸ hrecords i info₀ h₀)
  · rcases hadd n a f hn with hold | hold
    · exact h.adding n a f g hold ha (hrun g hg)
    · rw [(topicOf_inj.mp ha).1, hreg g hg.1] at hold
      exact (Option.some.inj hold).symm
  · obtain ⟨hfg, hsub⟩ := h.joining n a f i g (hphase n a f i hn) (hrun g hg)
    rw [redisCallback_congr a (hfut f).1]
    exact ⟨hfg, hclient g i _ hg hsub (Or.inl ⟨n, a, f, hn⟩)⟩
  · obtain ⟨info₀, h₀, heq⟩ := hrec i info hi (by rw [hd]; simp)
    obtain ⟨hj, hslurm, hcb⟩ := h.records i info₀ d g h₀ (heq.trans hd) (hrun g hg)
    exact ⟨hj, hslurm.trans (hfut g).1.symm, fun he => hclient g i _ hg (hcb he) (Or.inr ⟨info, d, hi, hd⟩)⟩

/-- `track` puts the job in the registry. -/
theorem Listens.published (hinj : ∀ f g, jobOf f = jobOf g → f = g) {n : ℕ} {f : FutureRef} (hj : jobOf f = j)
    (hf : f ∉ s.published) : ({ s with
      tracker := publishFuture f s.tracker
      published := s.published ++ [f] }.goto n (.subscribing f .heartbeat [.status, .log])).Listens jobOf j e := by
  obtain ⟨-, hadding, hjoin, hrec⟩ := h.fresh fun g hg hgj => hf (hinj g f (hgj.trans hj.symm) ▸ hg)
  refine ⟨fun hno => absurd hj (hno f (List.mem_append_right _ (List.mem_singleton.mpr rfl))),
    fun m a g g' hm ha => ?_, fun m a g i g' hm => ?_, fun i info d g hi hd => ?_⟩
  · exact absurd ha (hadding m a g (adding_update (by simp) hm))
  · by_cases hmn : m = n
    · subst hmn
      have hm' : ((Function.update s.calls m (.subscribing f .heartbeat [.status, .log])) m).phase jobOf j e =
        some (.joining a g i) := hm
      rw [Function.update_self] at hm'
      obtain ⟨o, hcall, -⟩ := validating_of_phase hm'
      contradiction
    · have hm' : ((Function.update s.calls n (.subscribing f .heartbeat [.status, .log])) m).phase jobOf j e =
        some (.joining a g i) := hm
      rw [Function.update_of_ne hmn] at hm'
      exact absurd hm' (hjoin m a g i)
  · rw [show info.callback = none from hrec i info hi] at hd
    contradiction

/-- A listener joins. -/
theorem Listens.joined {pending : SubId → Option Pending} (hh : s.Homed jobOf pending) {n : ℕ} {a : AddArgs}
    {f : FutureRef} {r : Except PyError SubId} {t : JobTracker} (hn : s.calls n = .adding a f)
    (ha : a.topic = topicOf j e) (he : (subscribeListener a f).exec s.tracker = (r, t)) :
    ({ s with tracker := t }.goto n (.opened (fun i => .validating a f i false) r)).Listens jobOf j e := by
  have hx : (subscribeListener a f).exec s.tracker = _ := exec_bind_ok (exec_get s.tracker)
  rw [hx, onClient, exec_focus, ha] at he
  rcases hs : (RedisSubClient.subscribe (topicOf j e) (a.redisCallback (s.tracker.futures f))).exec
    s.tracker.subClient with ⟨r', c⟩
  rw [hs] at he
  obtain ⟨rfl, rfl⟩ := Prod.mk.inj he
  have hkept : ∀ i sub, s.tracker.subClient.registration? (topicOf j e) i = some sub →
      c.registration? (topicOf j e) i = some sub := fun i sub =>
    RedisSubClient.registration?_kept hh.tracker.client hs
  have hopened : ∀ a' f', Call.opened (fun i => .validating a f i false) r' ≠ .adding a' f' := fun a' f' => by
    cases r' <;> simp [Call.opened]
  refine ⟨fun hno => absurd ha ((h.fresh hno).2.1 n a f hn),
    fun m a' f' g hm ha' hg => h.adding m a' f' g (adding_update hopened hm) ha' hg,
    fun m a' f' i g hm hg => ?_, fun i info d g hi hd hg => ?_⟩
  · by_cases hmn : m = n
    · subst hmn
      have hm' : ((Function.update s.calls m (.opened (fun i => .validating a f i false) r')) m).phase jobOf j e =
        some (.joining a' f' i) := hm
      rw [Function.update_self] at hm'
      obtain ⟨o, hcall, -⟩ := validating_of_phase hm'
      cases r' with
      | error err => contradiction
      | ok k =>
        obtain ⟨rfl, rfl, rfl, -⟩ := Call.validating.inj hcall
        exact ⟨h.adding m a f g hn ha hg, (RedisSubClient.registration?_subscribe hs k).trans (if_pos ⟨rfl, rfl⟩)⟩
    · have hm' : ((Function.update s.calls n (.opened (fun i => .validating a f i false) r')) m).phase jobOf j e =
        some (.joining a' f' i) := hm
      rw [Function.update_of_ne hmn] at hm'
      obtain ⟨hfg, hsub⟩ := h.joining m a' f' i g hm' hg
      exact ⟨hfg, hkept i _ hsub⟩
  · obtain ⟨hj, hslurm, hcb⟩ := h.records i info d g hi hd hg
    exact ⟨hj, hslurm, fun he => hkept i _ (hcb he)⟩

/-- A listener is indexed, or its client subscription undone. -/
theorem Listens.validated {pending : SubId → Option Pending} (hh : s.Homed jobOf pending) {n : ℕ} {a : AddArgs}
    {f : FutureRef} {k : SubId} {o : Bool} {r : Except PyError SubId} {t : JobTracker} {ids : List SubId}
    (hn : s.calls n = .validating a f k o) (ha : a.topic = topicOf j e)
    (he : (validateListener a f k).exec s.tracker = (r, t)) :
    ({ s with tracker := t, listeners := ids }.goto n (.ended (r.map some))).Listens jobOf j e := by
  have hphase : (s.calls n).phase jobOf j e = some (.joining a f k) := by
    rw [hn]
    exact if_pos ha
  have hother : ∀ m a' f' i, ((Function.update s.calls n (.ended (r.map some))) m).phase jobOf j e =
      some (.joining a' f' i) → (s.calls m).phase jobOf j e = some (.joining a' f' i) ∧ i ≠ k := by
    intro m a' f' i hm
    by_cases hmn : m = n
    · subst hmn
      rw [Function.update_self] at hm
      contradiction
    · rw [Function.update_of_ne hmn] at hm
      refine ⟨hm, ?_⟩
      rintro rfl
      obtain ⟨o', hcall, -⟩ := validating_of_phase hm
      exact hmn (hh.holds.distinct m n i ⟨a'.topic, f', o'⟩ ⟨a.topic, f, o⟩ (by rw [hcall]; rfl) (by rw [hn]; rfl))
  have hnone : s.tracker.record? (topicOf j e) k = none :=
    hh.unindexed (show (s.calls n).holds jobOf = some (k, _) by rw [hn]; rfl) _
  unfold JobTracker.validateListener at he
  rw [exec_bind_ok (exec_get s.tracker), exec_ite] at he
  split_ifs at he with hactive
  · rw [exec_bind, onClient, exec_focus] at he
    rcases hu : (RedisSubClient.unsubscribe k).exec s.tracker.subClient with ⟨r', c⟩
    rw [hu] at he
    have hafter : (RedisSubClient.unsubscribe k).after s.tracker.subClient = c := by rw [after, hu]
    have ht : t = { s.tracker with subClient := c } := by
      cases r' with
      | ok b => exact (Prod.mk.inj he).2.symm
      | error err => exact (Prod.mk.inj he).2.symm
    subst ht
    have hkept : ∀ i, i ≠ k → c.registration? (topicOf j e) i = s.tracker.subClient.registration? (topicOf j e) i := by
      intro i hi
      have hun := RedisSubClient.registration?_unsubscribe (t := topicOf j e) hh.tracker.client hi
      rwa [hafter] at hun
    refine ⟨fun hno => absurd hphase ((h.fresh hno).2.2.1 n a f k),
      fun m a' f' g hm ha' hg => h.adding m a' f' g (adding_update (by simp) hm) ha' hg, fun m a' f' i g hm hg => ?_,
      fun i info d g hi hd hg => ?_⟩
    · obtain ⟨hm', hik⟩ := hother m a' f' i hm
      obtain ⟨hfg, hsub⟩ := h.joining m a' f' i g hm' hg
      exact ⟨hfg, (hkept i hik).trans hsub⟩
    · obtain ⟨hj, hslurm, hcb⟩ := h.records i info d g hi hd hg
      have hik : i ≠ k := by
        rintro rfl
        rw [show s.tracker.record? (topicOf j e) i = some info from hi] at hnone
        contradiction
      exact ⟨hj, hslurm, fun he => (hkept i hik).trans (hcb he)⟩
  · rw [exec_bind_ok (exec_registerSubscriptionForJob rfl)] at he
    obtain ⟨-, rfl⟩ := Prod.mk.inj he
    refine ⟨fun hno => absurd hphase ((h.fresh hno).2.2.1 n a f k),
      fun m a' f' g hm ha' hg => h.adding m a' f' g (adding_update (by simp) hm) ha' hg, fun m a' f' i g hm hg => ?_,
      fun i info d g hi hd hg => ?_⟩
    · exact h.joining m a' f' i g (hother m a' f' i hm).1 hg
    · have hi' : (s.tracker.indexed (a.info (s.tracker.futures f) k) k).record? (topicOf j e) i = some info := hi
      rw [record?_indexed, show (a.info (s.tracker.futures f) k).topic = topicOf j e from ha] at hi'
      split_ifs at hi' with hik
      · obtain ⟨-, rfl⟩ := hik
        obtain rfl := Option.some.inj hi'
        obtain rfl : a.dispatch (s.tracker.futures f) = d := Option.some.inj hd
        have hjob : a.jobId = j ∧ a.key = e := topicOf_inj.mp ha
        obtain rfl : f = g := by
          have hf : s.tracker.futureRegistry.get? a.jobId = some f := by
            by_contra hne
            exact hactive (Or.inl hne)
          rw [hjob.1] at hf
          exact Option.some.inj (hf.symm.trans hg.1)
        refine ⟨hjob.1, rfl, fun he => ?_⟩
        have hreg := (h.joining n a f i f hphase hg).2
        unfold AddArgs.redisCallback at hreg
        rwa [if_neg (hjob.2 ▸ he)] at hreg
      · exact h.records i info d g hi' hd hg

/-- **Every section that leaves the tracker's own subscription alone keeps the listeners registered.** -/
theorem Listens.step {pending : SubId → Option Pending} (hh : s.Homed jobOf pending)
    (hinj : ∀ f g, jobOf f = jobOf g → f = g) (hl : Sectioned l) (hk : Leaves j e s l) (hs : Steps s l s') :
    s'.Listens jobOf j e := by
  have hfut : ∀ f, (s'.tracker.futures f).slurmJobId = (s.tracker.futures f).slurmJobId ∧
      ((s'.tracker.futures f).done = false → (s.tracker.futures f).done = false) := fun f =>
    ((hs.recorded hl).future f).2
  have hadd : ∀ n a f, s'.calls n = .adding a f → s.calls n = .adding a f ∨
      s.tracker.futureRegistry.get? a.jobId = some f := fun n a f => adding_of_step hs
  have hpub := hs.published.1
  have hon := hh.onTopic hinj hl hk hs
  cases hon with
  | aside hi ht =>
    refine h.of_kept hi.published hadd (fun n a f i => hi.calls n _) (fun f hf => ht.registry.symm.trans hf) hfut
      (fun i info hi _ => ⟨info, ht.records i info hi, rfl⟩) fun g i sub _ hsub hi' => ?_
    refine (ht.kept i ?_).trans hsub
    rcases hi' with ⟨n, a, f, hn⟩ | ⟨info, d, hinfo, -⟩
    · obtain ⟨o, hcall, -⟩ := validating_of_phase (hi.calls n _ hn)
      exact Or.inl (hh.unindexed (show (s.calls n).holds jobOf = some (i, _) by rw [hcall]; rfl) _)
    · exact Or.inr (by rw [hinfo]; rfl)
  | closed hi ht hreg hend =>
    refine h.of_kept hi.published hadd (fun n a f i => hi.calls n _) hreg hfut
      (fun i info hi _ => ⟨info, ht.records _ i info hi, rfl⟩) fun g i sub hg _ _ => ?_
    rw [Running, hend g hg.1] at hg
    exact absurd hg.2 (by simp)
  | @checked _ hi _ _ ht =>
    refine h.of_kept hi.published hadd (fun n a f i => hi.calls n _) (fun f hf => by rwa [ht] at hf) hfut
      (fun i info hinfo _ => ?_) fun g i sub _ hsub _ => by rwa [ht]
    rw [ht, record?_restamp, if_pos rfl] at hinfo
    obtain ⟨info₀, h₀, rfl⟩ := Option.map_eq_some_iff.mp hinfo
    refine ⟨info₀, h₀, ?_⟩
    unfold checkStamp
    split_ifs <;> rfl
  | heard hi _ _ _ _ ht =>
    refine h.of_kept hi.published hadd (fun n a f i => hi.calls n _) (fun f hf => by rwa [ht] at hf) hfut
      (fun i info hinfo _ => ?_) fun g i sub _ hsub _ => by rwa [ht]
    rw [ht] at hinfo
    obtain ⟨info₀, h₀, rfl⟩ := Option.map_eq_some_iff.mp
      ((record?_restamp _ _ _ _).trans (if_pos rfl) ▸ hinfo)
    refine ⟨info₀, h₀, ?_⟩
    unfold heartbeatStamp
    split_ifs <;> rfl
  | published _ _ hj hf => exact h.published hinj hj hf
  | @subscribed n f rest r t _ hn hj he =>
    rw [Config.exec_subscribeCallback, onClient, exec_focus] at he
    rcases hc : (RedisSubClient.subscribe (topicOf (s.tracker.futures f).jobId e)
      (internalCallback e f (s.tracker.futures f))).exec s.tracker.subClient with ⟨r', c⟩
    rw [hc] at he
    obtain ⟨rfl, rfl⟩ := Prod.mk.inj he
    refine h.of_kept hpub hadd (fun m a g i => joining_update ?_) (fun _ => id) hfut (fun i info hi _ => ⟨info, hi, rfl⟩)
      fun g i sub _ hsub _ => RedisSubClient.registration?_kept hh.tracker.client hc hsub
    cases r' <;> simp [Call.opened]
  | @indexed n f i o rest _ hn hj =>
    have ht : (indexCallback l.rt e f i).after s.tracker =
        s.tracker.indexed (internalInfo l.rt e (s.tracker.futures f) i) i := by
      rw [after, Config.exec_indexCallback]
    refine h.of_kept hpub hadd (fun m a g k => joining_update ?_) (fun g hg => ?_) hfut (fun k info hk hcb => ?_)
      fun g k sub _ hsub _ => ?_
    · cases rest <;> simp [Call.next]
    · have hg' : ((indexCallback l.rt e f i).after s.tracker).futureRegistry.get? j = some g := hg
      rwa [ht] at hg'
    · have hk' : ((indexCallback l.rt e f i).after s.tracker).record? (topicOf j e) k = some info := hk
      rw [ht, record?_indexed] at hk'
      split_ifs at hk' with hki
      · rw [← Option.some.inj hk'] at hcb
        exact absurd (Config.internalInfo_callback _ _ _ _) hcb
      · exact ⟨info, hk', rfl⟩
    · show ((indexCallback l.rt e f i).after s.tracker).subClient.registration? (topicOf j e) k = some sub
      rwa [ht]
  | joined _ hn ha he => exact h.joined hh hn ha he
  | validated _ hn ha he => exact h.validated hh hn ha he

end Step

end Session

/-! ## The tasks of one message -/

namespace JobTracker

variable (rt : Runtime) (m : SlurmMessage)

/-- What a captured callback submits for a message that is no status. -/
def submitted (s : JobTracker) (sub : Subscription ClientCallback) : List Task :=
  match sub.callback with
  | .dispatch d => [Dispatch.task rt d sub.id m]
  | .log j slurm => globalTasks rt m j (some slurm) s
  | .heartbeat j slurm => globalTasks rt (m.withMetadata (enrich rt m.metadata j slurm)) j (some slurm) s
  | .event _ => []
  | .ignoreStatus => []

/-- The listener thread survives every callback. -/
theorem exec_deliver (sub : Subscription ClientCallback) (s : JobTracker) :
    (deliver rt m sub).exec s = (.ok (), (deliver rt m sub).after s) := by
  refine Prod.ext ?_ rfl
  unfold deliver
  cases sub.callback with
  | event f =>
    cases m with
    | status m =>
      dsimp only
      rw [exec_bind_ok (exec_get s), exec_tryCatch]
      rcases (applyStatus rt _ f).exec s with ⟨r, t⟩
      cases r <;> rfl
    | _ => rfl
  | _ => rfl

/-- One callback after the other. -/
theorem after_deliveries (sub : Subscription ClientCallback) (subs : List (Subscription ClientCallback)) (s : JobTracker) :
    (forM (sub :: subs) (deliver rt m)).after s = (forM subs (deliver rt m)).after ((deliver rt m sub).after s) := by
  rw [after, List.forM_cons, exec_bind_ok (exec_deliver rt m sub s)]
  rfl

theorem after_dispatchMessage (t : Topic) (s : JobTracker) :
    (dispatchMessage rt t m).after s = (forM (s.subClient.capture t) (deliver rt m)).after s := by
  unfold dispatchMessage
  rw [after, exec_bind_ok (exec_get s)]
  rfl

variable {m}

theorem tasks_deliver_submitted (hm : m.msgType ≠ .status) (sub : Subscription ClientCallback) (s : JobTracker) :
    ((deliver rt m sub).after s).tasks = s.tasks ++ submitted rt m s sub ∧
      ((deliver rt m sub).after s).globalCallbacks = s.globalCallbacks := by
  unfold deliver submitted
  cases sub.callback with
  | event f =>
    cases m with
    | status m => exact absurd rfl hm
    | _ => exact ⟨(List.append_nil _).symm, rfl⟩
  | ignoreStatus => exact ⟨(List.append_nil _).symm, rfl⟩
  | _ => exact ⟨rfl, rfl⟩

theorem submitted_congr {s t : JobTracker} (h : t.globalCallbacks = s.globalCallbacks)
    (sub : Subscription ClientCallback) : submitted rt m t sub = submitted rt m s sub := by
  unfold submitted globalTasks
  rw [h]

theorem tasks_deliveries (hm : m.msgType ≠ .status) (subs : List (Subscription ClientCallback)) (s : JobTracker) :
    ((forM subs (deliver rt m)).after s).tasks = s.tasks ++ subs.flatMap (submitted rt m s) := by
  induction subs generalizing s with
  | nil => exact (List.append_nil _).symm
  | cons sub subs ih =>
    obtain ⟨htasks, hglobal⟩ := tasks_deliver_submitted rt hm sub s
    rw [after_deliveries, ih, htasks, List.append_assoc, List.flatMap_cons]
    refine congrArg _ (congrArg _ (List.flatMap_congr fun sub' _ => ?_))
    exact submitted_congr rt hglobal sub'

/-- **The tasks of a message that is no status**: those of the callbacks that are registered. -/
theorem tasks_dispatchMessage (hm : m.msgType ≠ .status) (t : Topic) (s : JobTracker) :
    ((dispatchMessage rt t m).after s).tasks = s.tasks ++ (s.subClient.capture t).flatMap (submitted rt m s) := by
  rw [after_dispatchMessage]
  exact tasks_deliveries rt hm _ s

end JobTracker

/-! ## Who is told -/

namespace Session

variable {jobOf : FutureRef → String} {j : String} {e : Event} {s s' : Session} {l : Label} {x : Installation}

/-- The subscription `i` for the event of the job is indexed; listeners are where they should be. -/
structure Attended (jobOf : FutureRef → String) (j : String) (e : Event) (i : SubId) (s : Session) : Prop where
  regular : s.Regular jobOf
  installs : s.Installs jobOf j e (.indexed i)
  listens : s.Listens jobOf j e

/-- What is registered under the topic of a log or a heartbeat: the tracker's own callback, and dispatchers. -/
theorem Regular.dispatches (h : s.Regular jobOf) (he : e ≠ .status) {k : SubId} {sub : Subscription ClientCallback}
    (hk : s.tracker.subClient.registration? (topicOf j e) k = some sub) :
    sub.id = k ∧ (sub.callback.Internal ∨ ∃ d, sub.callback = .dispatch d) := by
  obtain ⟨tag, htag⟩ := h.tagged
  obtain ⟨hid, hfit⟩ := htag.tracker.client.subs.inner _ k _ hk
  refine ⟨hid, ?_⟩
  cases htg : tag k with
  | none => simp [htg] at hfit
  | some y =>
    rw [htg] at hfit
    cases y with
    | internal e' =>
      obtain ⟨f, g, hcb, -⟩ := hfit
      exact Or.inl (hcb ▸ internal_internalCallback e' f g)
    | global => exact hfit.elim
    | listener a =>
      obtain ⟨ha, g, hcb⟩ := hfit
      refine Or.inr ⟨a.dispatch g, ?_⟩
      rw [hcb, AddArgs.redisCallback, if_neg]
      exact fun hkey => he ((topicOf_inj.mp ha).2.trans hkey)

/-- Manager-wide listeners have no subscription in the client. -/
theorem Regular.global_unregistered (h : s.Regular jobOf) {k : SubId} {cb : RegisteredCallback}
    (hk : s.tracker.globalCallbacks.get? k = some cb) (t : Topic) :
    s.tracker.subClient.registration? t k = none ∧ s.tracker.record? t k = none := by
  obtain ⟨pending, hh⟩ := h.homed
  obtain ⟨-, howner, hpend⟩ := hh.tracker.globals k cb hk
  constructor
  · cases hr : s.tracker.subClient.registration? t k with
    | none => rfl
    | some sub =>
      have ho := (RedisSubClient.registration?_isSome_iff hh.tracker.client).mp (by rw [hr]; rfl)
      rcases hh.tracker.owned k t ho with hx | ⟨p, hp, -⟩
      · rw [howner] at hx
        contradiction
      · rw [hpend] at hp
        contradiction
  · cases hr : s.tracker.record? t k with
    | none => rfl
    | some info =>
      have ho := (hh.tracker.owner_iff k t).mpr (by rw [hr]; rfl)
      rw [howner] at ho
      contradiction

section Told

variable {i : SubId} {f : FutureRef} {rt : Runtime} {m : SlurmMessage} (h : s.Attended jobOf j e i) (he : e ≠ .status)
  (hf : s.Running j f)
include h he hf

omit he in
/-- The tracker's own callback. -/
theorem Attended.internal {k : SubId} {sub : Subscription ClientCallback}
    (hk : s.tracker.subClient.registration? (topicOf j e) k = some sub) (hint : sub.callback.Internal) :
    k = i ∧ sub = ⟨i, topicOf j e, internalCallback e f (s.tracker.futures f)⟩ := by
  obtain rfl : i = k := Option.some.inj (h.installs.client k sub hk hint)
  have hreg := h.installs.registered f i hf.1 hf.2 rfl
  exact ⟨rfl, Option.some.inj (hk.symm.trans hreg)⟩

variable (rt m) in
/-- What the tracker's own callback submits: a copy for each manager-wide listener. -/
theorem Attended.submitted_internal : ∃ md, submitted rt m s.tracker
    ⟨i, topicOf j e, internalCallback e f (s.tracker.futures f)⟩ =
      globalTasks rt (m.withMetadata md) j (some (s.tracker.futures f).slurmJobId) s.tracker := by
  obtain ⟨pending, hh⟩ := h.regular.homed
  have hjob : (s.tracker.futures f).jobId = j := (hh.jobIds f).trans (hh.registry j f hf.1)
  cases e with
  | status => exact absurd rfl he
  | heartbeat =>
    refine ⟨enrich rt m.metadata j (s.tracker.futures f).slurmJobId, ?_⟩
    rw [← hjob]
    rfl
  | log =>
    refine ⟨m.metadata, ?_⟩
    rw [← hjob, show m.withMetadata m.metadata = m by cases m <;> rfl]
    rfl

/-- What is submitted on behalf of one listener. -/
def share (rt : Runtime) (m : SlurmMessage) (t : Topic) (k : SubId) (s : Session) : List Task :=
  (s.tracker.subClient.capture t).flatMap fun sub => (submitted rt m s.tracker sub).filter fun x => x.listener = k

/-- **A listener of the job and the event is told once.** -/
theorem Attended.job_told {k : SubId} {info : SubscriptionInfo} {d : Dispatch}
    (hk : s.tracker.record? (topicOf j e) k = some info) (hd : info.callback = some d) :
    s.share rt m (topicOf j e) k = [Dispatch.task rt d k m] := by
  have hreg := (h.listens.records k info d f hk hd hf).2.2 he
  have hglobal : s.tracker.globalCallbacks.get? k = none := by
    cases hg : s.tracker.globalCallbacks.get? k with
    | none => rfl
    | some cb =>
      rw [(h.regular.global_unregistered hg _).2] at hk
      contradiction
  refine (Dict.flatMap_values_eq hreg fun k' sub hk' hne => ?_).trans ?_
  · rcases h.regular.dispatches he hk' with ⟨hid, hint | ⟨d', hcb⟩⟩
    · obtain ⟨-, rfl⟩ := h.internal hf hk' hint
      obtain ⟨md, hsub⟩ := h.submitted_internal rt m he hf
      rw [hsub, filter_globalTasks, hglobal]
      rfl
    · unfold submitted
      rw [hcb]
      simp [Dispatch.task, hid, hne]
  · simp [submitted, Dispatch.task]

/-- **A manager-wide listener of the event is told once.** -/
theorem Attended.global_told {k : SubId} {cb : RegisteredCallback} (hm : m.msgType = e)
    (hk : s.tracker.globalCallbacks.get? k = some cb) (hev : cb.event = e) :
    ∃ t, s.share rt m (topicOf j e) k = [t] ∧ t.callback = cb.callback := by
  have hreg := h.installs.registered f i hf.1 hf.2 rfl
  obtain ⟨md, hsub⟩ := h.submitted_internal rt m he hf
  refine ⟨globalTask rt k (m.withMetadata md) j (some (s.tracker.futures f).slurmJobId) cb, ?_, rfl⟩
  refine (Dict.flatMap_values_eq hreg fun k' sub hk' hne => ?_).trans ?_
  · rcases h.regular.dispatches he hk' with ⟨hid, hint | ⟨d', hcb⟩⟩
    · exact absurd (h.internal hf hk' hint).1 hne
    · have hne' : k' ≠ k := by
        rintro rfl
        have hnone := (h.regular.global_unregistered hk (topicOf j e)).1
        rw [show s.tracker.subClient.registration? (topicOf j e) k' = some sub from hk'] at hnone
        contradiction
      unfold submitted
      rw [hcb]
      simp [Dispatch.task, hid, hne']
  · rw [hsub, filter_globalTasks, hk]
    simp [hm, hev]

/-- A dispatcher in the client belongs to a listener of the job and the event: an indexed one, or one that is being
registered. -/
theorem Attended.dispatcher {k : SubId} {sub : Subscription ClientCallback} {d : Dispatch}
    (hk : s.tracker.subClient.registration? (topicOf j e) k = some sub) (hcb : sub.callback = .dispatch d) :
    (s.Listening j e k ∨
      ∃ n a o, s.calls n = .validating a f k o ∧ a.topic = topicOf j e) ∧
    d.jobId = j ∧ d.slurmJobId = (s.tracker.futures f).slurmJobId := by
  obtain ⟨pending, hh⟩ := h.regular.homed
  have ho := (RedisSubClient.registration?_isSome_iff hh.tracker.client).mp
    (show (s.tracker.subClient.registration? (topicOf j e) k).isSome by rw [hk]; rfl)
  rcases hh.tracker.owned k _ ho with howner | ⟨p, hp, htopic⟩
  · obtain ⟨info, hinfo⟩ := Option.isSome_iff_exists.mp ((hh.tracker.owner_iff k _).mp howner)
    cases hd : info.callback with
    | none =>
      obtain rfl := Installation.indexed.inj (h.installs.records k info hinfo hd)
      rw [h.installs.registered f i hf.1 hf.2 rfl] at hk
      rw [← Option.some.inj hk] at hcb
      cases e <;> contradiction
    | some d' =>
      obtain ⟨hj, hslurm, hreg⟩ := h.listens.records k info d' f hinfo hd hf
      rw [hreg he] at hk
      rw [← Option.some.inj hk] at hcb
      obtain rfl : d' = d := ClientCallback.dispatch.inj hcb
      exact ⟨Or.inl ⟨info, hinfo, by rw [hd]; simp⟩, hj, hslurm⟩
  · obtain ⟨n, hn⟩ := hh.holds.held k p hp
    cases hcall : s.calls n with
    | indexing f' e' k' o rest =>
      rw [hcall] at hn
      obtain ⟨rfl, rfl⟩ := Prod.mk.inj (Option.some.inj hn)
      obtain ⟨hj, rfl⟩ := topicOf_inj.mp htopic
      have hphase : (s.calls n).phase jobOf j e' = some (.inFlight k') := by
        rw [hcall]
        show (if jobOf f' = j then some (if e' = e' then Phase.inFlight k' else
          if e' ∈ rest then Phase.owed else .passed) else none) = _
        rw [if_pos hj, if_pos rfl]
      have hx := h.installs.calls n _ hphase
      contradiction
    | validating a f' k' o =>
      rw [hcall] at hn
      obtain ⟨rfl, rfl⟩ := Prod.mk.inj (Option.some.inj hn)
      have hphase : (s.calls n).phase jobOf j e = some (.joining a f' k') := by
        rw [hcall]
        exact if_pos htopic
      obtain ⟨rfl, hreg⟩ := h.listens.joining n a f' k' f hphase hf
      rw [hreg] at hk
      rw [← Option.some.inj hk] at hcb
      obtain ⟨hjob, hkey⟩ : a.jobId = j ∧ a.key = e := topicOf_inj.mp htopic
      have hcb' : a.redisCallback (s.tracker.futures f') = .dispatch d := hcb
      rw [AddArgs.redisCallback, if_neg (hkey ▸ he)] at hcb'
      obtain rfl := ClientCallback.dispatch.inj hcb'
      exact ⟨Or.inr ⟨n, a, o, hcall, htopic⟩, hjob, rfl⟩
    | _ =>
      rw [hcall] at hn
      contradiction

/-- **Nobody else is told**, and every message names the job. -/
theorem Attended.told {t : Task} (hm : m.msgType = e)
    (ht : t ∈ (s.tracker.subClient.capture (topicOf j e)).flatMap (submitted rt m s.tracker)) :
    (s.Listening j e t.listener ∨ (∃ n a o, s.calls n = .validating a f t.listener o ∧ a.topic = topicOf j e) ∨
      ∃ cb, s.tracker.globalCallbacks.get? t.listener = some cb ∧ cb.event = e) ∧
    ∃ md, t.message = m.withMetadata md ∧ md.get? "job_id" = some j ∧
      md.get? "slurm_job_id" = some (s.tracker.futures f).slurmJobId := by
  obtain ⟨sub, hsub, ht⟩ := List.mem_flatMap.mp ht
  obtain ⟨k, hk⟩ := RedisSubClient.mem_capture.mp hsub
  rcases h.regular.dispatches he hk with ⟨hid, hint | ⟨d, hcb⟩⟩
  · obtain ⟨-, rfl⟩ := h.internal hf hk hint
    obtain ⟨md, hsub⟩ := h.submitted_internal rt m he hf
    rw [hsub] at ht
    obtain ⟨cb, hcb, hev, ht⟩ := mem_globalTasks ht
    refine ⟨Or.inr (Or.inr ⟨cb, hcb, ?_⟩), globalMetadata rt (m.withMetadata md).metadata j
      (some (s.tracker.futures f).slurmJobId), ?_, ?_, ?_⟩
    · rw [hev, SlurmMessage.msgType_withMetadata, hm]
    · rw [ht]
      cases m <;> rfl
    · simp [globalMetadata, Dict.get?_set]
    · simp [globalMetadata]
  · unfold submitted at ht
    rw [hcb] at ht
    obtain rfl := List.mem_singleton.mp ht
    obtain ⟨hwho, rfl, hslurm⟩ := h.dispatcher he hf hk hcb
    refine ⟨?_, enrich rt m.metadata d.jobId d.slurmJobId, rfl, ?_, ?_⟩
    · show s.Listening _ e sub.id ∨ (∃ n a o, s.calls n = .validating a f sub.id o ∧ _) ∨ _
      rw [hid]
      exact hwho.imp_right Or.inl
    · simp [enrich, Dict.get?_set]
    · simp [enrich, hslurm]

end Told

/-! ## Runs -/

/-- What a log line or a heartbeat of a job sets off. -/
structure FannedOut (s : Session) (rt : Runtime) (m : SlurmMessage) (j slurm : String) (f : FutureRef)
    (ts : List Task) : Prop where
  /-- One task for each listener of the job and the event. -/
  job : ∀ k info d, s.tracker.record? (topicOf j m.msgType) k = some info → info.callback = some d →
    ts.filter (fun t => t.listener = k) = [Dispatch.task rt d k m]
  /-- One task for each manager-wide listener of the event. -/
  global : ∀ k cb, s.tracker.globalCallbacks.get? k = some cb → cb.event = m.msgType →
    ∃ t, ts.filter (fun t => t.listener = k) = [t] ∧ t.callback = cb.callback
  /-- None for a listener of another job or another event. -/
  other : ∀ t ∈ ts, (∀ topic, topic ≠ topicOf j m.msgType → s.tracker.record? topic t.listener = none) ∧
    ∀ cb, s.tracker.globalCallbacks.get? t.listener = some cb → cb.event = m.msgType
  /-- Every task belongs to a listener, or to one that is being registered. -/
  listener : ∀ t ∈ ts, s.Listening j m.msgType t.listener ∨
    (∃ n a o, s.calls n = .validating a f t.listener o ∧ a.topic = topicOf j m.msgType) ∨
    ∃ cb, s.tracker.globalCallbacks.get? t.listener = some cb ∧ cb.event = m.msgType
  metadata : ∀ t ∈ ts, ∃ md, t.message = m.withMetadata md ∧ md.get? "job_id" = some j ∧
    md.get? "slurm_job_id" = some slurm

theorem Attended.fannedOut {i : SubId} {f : FutureRef} (rt : Runtime) (m : SlurmMessage)
    (h : s.Attended jobOf j m.msgType i) (he : m.msgType ≠ .status) (hf : s.Running j f) :
    s.FannedOut rt m j (s.tracker.futures f).slurmJobId f
      ((s.tracker.subClient.capture (topicOf j m.msgType)).flatMap (submitted rt m s.tracker)) := by
  obtain ⟨pending, hh⟩ := h.regular.homed
  have hshare : ∀ k, ((s.tracker.subClient.capture (topicOf j m.msgType)).flatMap (submitted rt m s.tracker)).filter
      (fun t => t.listener = k) = s.share rt m (topicOf j m.msgType) k := fun k => List.filter_flatMap
  refine ⟨fun k info d hk hd => ?_, fun k cb hk hev => ?_, fun t ht => ⟨fun topic hne => ?_, fun cb hcb => ?_⟩,
    fun t ht => (h.told he hf rfl ht).1, fun t ht => (h.told he hf rfl ht).2⟩
  · rw [hshare]
    exact h.job_told he hf hk hd
  · rw [hshare]
    exact h.global_told he hf rfl hk hev
  · rcases (h.told he hf rfl ht).1 with ⟨info, hinfo, -⟩ | ⟨n, a, o, hn, -⟩ | ⟨cb, hcb, -⟩
    · cases hr : s.tracker.record? topic t.listener with
      | none => rfl
      | some info' =>
        have ho := (hh.tracker.owner_iff _ _).mpr (show (s.tracker.record? topic t.listener).isSome by rw [hr]; rfl)
        have ho' := (hh.tracker.owner_iff _ _).mpr
          (show (s.tracker.record? (topicOf j m.msgType) t.listener).isSome by rw [hinfo]; rfl)
        exact absurd (Option.some.inj (ho.symm.trans ho')) hne
    · exact hh.unindexed (show (s.calls n).holds jobOf = some (t.listener, _) by rw [hn]; rfl) topic
    · exact (h.regular.global_unregistered hcb topic).2
  · rcases (h.told he hf rfl ht).1 with ⟨info, hinfo, -⟩ | ⟨n, a, o, hn, -⟩ | ⟨cb', hcb', hev⟩
    · rw [(h.regular.global_unregistered hcb _).2] at hinfo
      contradiction
    · have hp := hh.holds.listed n t.listener _ (by rw [hn]; rfl)
      rw [(hh.tracker.globals _ _ hcb).2.2] at hp
      contradiction
    · obtain rfl := Option.some.inj (hcb.symm.trans hcb')
      exact hev

/-- Where the job's subscription and its listeners are after a run. -/
theorem run_attends {s₀ : Session} {ls : List Label} (h₀ : s₀.Initial) (hrun : Run Steps (Tending j e) s₀ ls s) :
    s.Regular s₀.jobOf ∧ s.Listens s₀.jobOf j e ∧ ∃ x, s.Installs s₀.jobOf j e x := by
  refine hrun.invariant (I := fun s => s.Regular s₀.jobOf ∧ s.Listens s₀.jobOf j e ∧ ∃ x, s.Installs s₀.jobOf j e x)
    ⟨h₀.regular, h₀.listens j e, _, h₀.installs j e⟩ ?_
  rintro s l s' ⟨hr, hlis, x, hx⟩ ⟨hl, hk⟩ hs
  obtain ⟨pending, hh⟩ := hr.homed
  obtain ⟨x', hx', -⟩ := hr.installs h₀.jobIds hx hl hk hs
  exact ⟨hr.step hl hs, hlis.step hh h₀.jobIds hl hk hs, x', hx'⟩

/-- After `track` the subscription for a log or a heartbeat is indexed. -/
theorem run_tracked {s₀ s₁ : Session} {ls₁ ls₂ : List Label} {rt : Runtime} {n : ℕ} {f : FutureRef} {k : SubId} {o : Bool}
    (h₀ : s₀.Initial) (he : e ≠ .status) (h₁ : Run Steps (Tending (s₀.jobOf f) e) s₀ ls₁ s₁)
    (hn : s₁.calls n = .indexing f .log k o [])
    (h₂ : Run Steps (Tending (s₀.jobOf f) e) s₁ (⟨rt, .proceed n⟩ :: ls₂) s) :
    ∃ i, s.Attended s₀.jobOf (s₀.jobOf f) e i := by
  obtain ⟨s₂, ⟨hl, hk⟩, hs, hrest⟩ := h₂.uncons
  obtain ⟨hr₁, x, hx⟩ := run_installs h₀ h₁
  obtain ⟨hr, hlis, -⟩ := run_attends h₀ (h₁.append h₂)
  have hx₂ : ∃ i, s₂.Installs s₀.jobOf (s₀.jobOf f) e (.indexed i) := by
    cases e with
    | status => exact absurd rfl he
    | log => exact ⟨k, hr₁.indexed h₀.jobIds hx hn rfl hs⟩
    | heartbeat =>
      have hphase : (s₁.calls n).phase s₀.jobOf (s₀.jobOf f) .heartbeat = some .passed := by
        rw [hn]
        exact if_pos rfl
      obtain ⟨i, rfl⟩ := hx.calls n _ hphase
      obtain ⟨x', hx', ha⟩ := hr₁.installs h₀.jobIds hx hl hk hs
      cases ha
      exact ⟨i, hx'⟩
  obtain ⟨i, hx₂⟩ := hx₂
  exact ⟨i, hr, (run_indexed h₀.jobIds (hr₁.step hl hs) hx₂ hrest).2, hlis⟩

/-- **A log line or a heartbeat goes to every listener of the job and the event, once, and to nobody else.**  The
job's `track` has returned and the job has not ended; in between, any number of calls add and remove listeners of
any jobs. -/
theorem fan_out {s₀ s₁ : Session} {ls₁ ls₂ : List Label} {rt₁ rt : Runtime} {n : ℕ} {f : FutureRef} {k : SubId}
    {o : Bool} {m : SlurmMessage} (h₀ : s₀.Initial) (h₁ : Run Steps (Tending (s₀.jobOf f) m.msgType) s₀ ls₁ s₁)
    (hn : s₁.calls n = .indexing f .log k o [])
    (h₂ : Run Steps (Tending (s₀.jobOf f) m.msgType) s₁ (⟨rt₁, .proceed n⟩ :: ls₂) s)
    (hf : s.Running (s₀.jobOf f) f) (hm : m.msgType ≠ .status)
    (hs : Steps s ⟨rt, .dispatchMessage (topicOf (s₀.jobOf f) m.msgType) m⟩ s') :
    ∃ ts, s'.tracker.tasks = s.tracker.tasks ++ ts ∧
      s.FannedOut rt m (s₀.jobOf f) (s.tracker.futures f).slurmJobId f ts := by
  obtain ⟨i, h⟩ := run_tracked h₀ hm h₁ hn h₂
  obtain rfl := Option.some.inj hs
  exact ⟨_, tasks_dispatchMessage rt hm _ s.tracker, h.fannedOut rt m hm hf⟩

theorem listening_of_any {k : SubId} (h : (s.tracker.record? (topicOf j e) k).any (fun info => info.callback.isSome)) :
    s.Listening j e k := by
  obtain ⟨info, hinfo, hcb⟩ := (Option.any_eq_true _ _).mp h
  exact ⟨info, hinfo, Option.isSome_iff_ne_none.mp hcb⟩

/-- Whether the section is one of the listener thread, or of a call that subscribes. -/
def additive (_ : Session) (l : Label) : Bool :=
  match l.act with
  | .startTrack _ _ | .startAdd _ _ | .proceed _ | .listenGlobal _ _ | .poll _ _ | .deliver => true
  | _ => false

theorem tending_of_additive (s : Session) (l : Label) (h : additive s l = true) : Tending j e s l := by
  obtain ⟨rt, act⟩ := l
  cases act with
  | startTrack => exact ⟨trivial, trivial⟩
  | startAdd => exact ⟨trivial, trivial⟩
  | proceed => exact ⟨trivial, trivial⟩
  | listenGlobal => exact ⟨trivial, trivial⟩
  | poll => exact ⟨trivial, trivial⟩
  | deliver => exact ⟨trivial, trivial⟩
  | _ => contradiction

/-- Whether `k` listens to the log of the job `j`, and is registered. -/
def attentive (j : String) (k : SubId) (s : Session) : Bool :=
  (s.tracker.record? (topicOf j .log) k).any (fun info => info.callback.isSome) &&
    (s.tracker.subClient.registration? (topicOf j .log) k).isSome

theorem serving_of_attentive {k : SubId} (h : s.attentive j k = true) : s.Serving j .log k := by
  obtain ⟨hk, hreg⟩ := Bool.and_eq_true_iff.mp h
  exact ⟨listening_of_any hk, hreg⟩

/-- A line of the standard output, as it is read. -/
def outputLine (text : String) : SlurmMessage := .log { log := text, metadata := Dict.single "stream" "stdout" }

/-- The sections of `track`. -/
def trackSections : List Label := ⟨.still, .startTrack 0 0⟩ :: List.replicate 5 ⟨.still, .proceed 0⟩

/-- The last one, afterwards one listener for the log of the job and one for every log. -/
def listenSections : List Label := [⟨.still, .proceed 0⟩, ⟨.still, .startAdd 1 ⟨"j", .log, 7⟩⟩, ⟨.still, .proceed 1⟩,
  ⟨.still, .proceed 1⟩, ⟨.still, .listenGlobal .log 8⟩]

/-- Two lines for both of them. -/
def lineSections : List Label := [⟨.still, .poll "info/j/log" (outputLine "x")⟩, ⟨.still, .deliver⟩, ⟨.still, .deliver⟩,
  ⟨.still, .poll "info/j/log" (outputLine "y")⟩, ⟨.still, .deliver⟩, ⟨.still, .deliver⟩]

theorem run_of_listeners : ∃ s₁, Run Steps (Tending "j" .log) (new (fun _ _ => none) unary) trackSections s₁ ∧
    s₁.calls 0 = .indexing 0 .log 2 false [] ∧
    ∃ s, Run Steps (Tending "j" .log) s₁ listenSections s ∧ s.Running "j" 0 ∧ s.Serving "j" .log 3 ∧
      (s.tracker.globalCallbacks.get? 4).isSome ∧ s.tracker.tasks = [] ∧ s.captured = [] ∧
      ∃ s', Run Steps (fun s l => Sectioned l ∧ s.Serving "j" .log 3) s lineSections s' ∧ s'.captured = [] := by
  have hserved : ∀ s l, (additive s l && s.attentive "j" 3) = true → Sectioned l ∧ s.Serving "j" .log 3 := by
    intro s l h
    obtain ⟨hl, hs⟩ := Bool.and_eq_true_iff.mp h
    exact ⟨(tending_of_additive (j := "j") (e := .log) s l hl).1, serving_of_attentive hs⟩
  obtain ⟨s₁, h₁, hq₁⟩ := Run.of_leads (R := Steps) (fun _ _ _ => id) (tending_of_additive (j := "j") (e := .log))
    (show Run.leads Session.step additive (fun s₁ => decide (s₁.calls 0 = .indexing 0 .log 2 false []) &&
      Run.leads Session.step additive (fun s => decide (s.tracker.futureRegistry.get? "j" = some 0) &&
        !(s.tracker.futures 0).done && s.attentive "j" 3 && (s.tracker.globalCallbacks.get? 4).isSome &&
        s.tracker.tasks.isEmpty && s.captured.isEmpty &&
        Run.leads Session.step (fun s l => additive s l && s.attentive "j" 3) (fun s' => s'.captured.isEmpty)
          lineSections s) listenSections s₁) trackSections (new (fun _ _ => none) unary) by decide +kernel)
  obtain ⟨hn, hq₁⟩ := Bool.and_eq_true_iff.mp hq₁
  obtain ⟨s, h₂, hq₂⟩ := Run.of_leads (R := Steps) (fun _ _ _ => id) (tending_of_additive (j := "j") (e := .log)) hq₁
  simp only [Bool.and_eq_true, decide_eq_true_eq, Bool.not_eq_true', List.isEmpty_iff] at hn hq₂
  obtain ⟨⟨⟨⟨⟨⟨hf, hd⟩, hk⟩, hg⟩, htasks⟩, hcap⟩, hq₃⟩ := hq₂
  obtain ⟨s', h₃, hempty⟩ := Run.of_leads (R := Steps) (fun _ _ _ => id) hserved hq₃
  exact ⟨s₁, h₁, hn, s, h₂, ⟨hf, hd⟩, serving_of_attentive hk, hg, htasks, hcap, s', h₃, List.isEmpty_iff.mp hempty⟩

/-- Both listeners are told of a line. -/
theorem fan_out_of_listeners : ∃ (s s' : Session) (ts : List Task), s.Listening "j" .log 3 ∧
    (s.tracker.globalCallbacks.get? 4).isSome ∧ s'.tracker.tasks = s.tracker.tasks ++ ts ∧
    s.FannedOut .still (.log { log := "x" }) "j" (s.tracker.futures 0).slurmJobId 0 ts := by
  obtain ⟨s₁, h₁, hn, s, h₂, hf, hjob, hall, -⟩ := run_of_listeners
  have hj : (new (fun _ _ => none) unary).jobOf 0 = "j" := by decide +kernel
  rw [← hj] at h₁ h₂ hf
  obtain ⟨ts, hts, hout⟩ := fan_out (m := .log { log := "x" }) (initial_new _ unary_injective) h₁ hn h₂ hf
    (by decide) (show Steps s ⟨.still, .dispatchMessage _ _⟩ _ from rfl)
  rw [hj] at hout
  exact ⟨s, _, ts, hjob.1, hall, hts, hout⟩

end Session

end SlurmManager
