import SlurmManager.Tracking.CallSteps

/-!
# LateRegistration — `add_subscription` while its job ends

Any number of `add_subscription` calls in flight, interleaved with everything else that a tracker does,
`track` taken as one step.

* `Late`: where a call on a removed job can stand.  It ends with the `RuntimeError` of the validation.
* `no_orphan_from_late_registration`: once the job left the registry and no call on it is in flight,
  no map mentions it and Redis was last asked to drop each of its topics.
-/

namespace SlurmManager

open JobTracker Config

namespace Session

/-- The error of a validation that comes too late. -/
def lateError (j : String) : PyError :=
  ⟨.runtimeError, "Job " ++ j ++ " finished during subscription registration"⟩

/-- Where a call of `add_subscription` on a job stands that was in flight when the job was removed. -/
def Late (j : String) : Call → Prop
  | .adding a _ => a.jobId = j
  | .validating a _ _ _ => a.jobId = j
  | .ended r => r = .error (lateError j)
  | _ => False

/-- The call has passed the activity check of `add_subscription` for the job and not yet returned. -/
def InFlight (j : String) (call : Call) : Prop :=
  (∃ a f, call = .adding a f ∧ a.jobId = j) ∨ ∃ a f i o, call = .validating a f i o ∧ a.jobId = j

theorem InFlight.late {j : String} {call : Call} (h : InFlight j call) : Late j call := by
  rcases h with ⟨a, f, rfl, ha⟩ | ⟨a, f, i, o, rfl, ha⟩
  · exact ha
  · exact ha

/-- What holds in the runs of this module: no `track` in flight, and no pub/sub call that raised. -/
structure Orderly (jobOf : FutureRef → String) (s : Session) (pending : SubId → Option Pending) : Prop where
  sound : s.Sound jobOf pending
  noTrack : s.NoTrack
  quiet : (s.config pending).Quiet

section Orderly

variable {jobOf : FutureRef → String} {s s' : Session} {l : Label} {pending : SubId → Option Pending}
  (h : s.Orderly jobOf pending)
include h

theorem Orderly.step (hl : TracksWhole l) (hs : Steps s l s') :
    ∃ pending', s'.Orderly jobOf pending' ∧
      ((∀ f g, jobOf f = jobOf g → f = g) → ∀ j, s.Gone j → s'.Gone j) := by
  have hok : s.Admits {} l := h.noTrack.admits (fun _ => trivial) fun hf => hf.elim
  obtain ⟨pending', ks, hks, hh, hf⟩ := h.sound.answered hok hs
  obtain ⟨hi, hn⟩ := run_sound hks h.sound
  have hsound : s'.Sound jobOf pending' := ⟨hi, hn, hh, hf⟩
  refine ⟨pending', ⟨hsound, h.noTrack.step hl hs, run_quiet hks h.sound.inv h.quiet⟩, ?_⟩
  exact fun hinj j hg => hg.of_run h.sound hsound hinj hks

/-- Without calls in flight on the job, no call holds a registration for it. -/
theorem Orderly.settled {j : String} (hj : ∀ n, ¬ InFlight j (s.calls n)) : s.Settled j := by
  intro n i p hp ht
  cases hcall : s.calls n with
  | validating a f k o =>
    rw [hcall] at hp
    obtain ⟨rfl, rfl⟩ := Prod.mk.inj (Option.some.inj hp)
    exact hj n (Or.inr ⟨a, f, k, o, hcall, (isTopicOf_topicOf a.jobId a.key).unique ht⟩)
  | indexing f e k o rest => exact (h.noTrack n f).2 e k o rest hcall
  | _ =>
    rw [hcall] at hp
    simp [Call.holds] at hp

/-- A late call stays late: SUBSCRIBE does not raise, and the validation finds the job gone. -/
theorem Orderly.late {j : String} (hg : s.Gone j) {n : ℕ} (hl : Late j (s.calls n))
    (hs : Steps s l s') : Late j (s'.calls n) := by
  have hm := hs.moves n
  have hfits := h.sound.fits n
  have hlisted := h.sound.holds.listed n
  generalize s.calls n = c at hm hl hfits hlisted
  generalize s'.calls n = c' at hm
  cases hm with
  | stay => exact hl
  | overtake =>
    cases c with
    | validating a f i o => exact hl
    | _ => exact hl
  | listened _ => exact hl
  | @unlistened a f err t hx =>
    obtain ⟨hjob, hpub⟩ := hfits
    have ht : IsTopicOf (jobOf f) a.topic := by
      rw [hjob]
      exact isTopicOf_topicOf _ _
    have he : (subscribeListener a f).exec s.tracker = _ := Program.exec_bind_ok (Program.exec_get s.tracker)
    rcases subscribe_step h.sound.inv (a.redisCallback (s.tracker.futures f)) ht hpub with
      ⟨k, hk, -⟩ | ⟨k, e, -, hout, -⟩
    · have hok := hx.symm.trans (he.trans hk)
      cases (Prod.mk.inj hok).1
    · rw [Pubsub.outcome_eq_ok_iff.mpr (h.quiet.subscribes _ a.topic)] at hout
      cases hout
  | @validated a f i o r t hx =>
    have hp := hlisted i ⟨a.topic, f, o⟩ rfl
    have haj : a.jobId = j := hl
    rcases validateListener_step h.sound.inv a hp rfl rfl hfits.1 with ⟨hreg, -⟩ | ⟨-, x, hx', -⟩
    · have hnone : s.tracker.futureRegistry.get? a.jobId = none := by rw [haj]; exact hg.2
      rw [show s.tracker.futureRegistry.get? a.jobId = some f from hreg] at hnone
      simp at hnone
    · obtain ⟨rfl, -⟩ := Prod.mk.inj (hx.symm.trans hx')
      show Except.map some _ = _
      rw [haj]
      rfl
  | _ => exact hl.elim

end Orderly

/-- **No orphan from late registration.**  A job left the registry in `s₁`.  In every later state `s`:
when no call of `add_subscription` on the job is in flight, no map mentions the job and Redis was last
asked to drop each of its topics; and a call that was in flight in `s₁` has raised `RuntimeError` if it
has ended. -/
theorem no_orphan_from_late_registration {s₀ s₁ s : Session} {ls₁ ls : List Label} (h₀ : s₀.Initial)
    (hc : s₀.Calm) (hrun₁ : Run Steps (fun _ l => TracksWhole l) s₀ ls₁ s₁) {j : String}
    (hg : s₁.Gone j) (hrun : Run Steps (fun _ l => TracksWhole l) s₁ ls s) :
    ((∀ n, ¬ InFlight j (s.calls n)) → s.tracker.Forgotten j ∧ ∀ t, IsTopicOf j t →
      s.tracker.subClient.subscriptionReady.get? t = none ∧
        isOpen s.tracker.subClient.pubsub.sent t = false) ∧
    ∀ n r, InFlight j (s₁.calls n) → s.calls n = .ended r → r = .error (lateError j) := by
  have h₁ : ∃ pending, s₁.Orderly s₀.jobOf pending := by
    refine hrun₁.invariant (I := fun x => ∃ pending, x.Orderly s₀.jobOf pending)
      ⟨_, h₀.sound hc.unsubscribes, h₀.noTrack, h₀.quiet hc⟩ ?_
    rintro x l y ⟨pending, hx⟩ hl hs
    obtain ⟨pending', hy, -⟩ := hx.step hl hs
    exact ⟨pending', hy⟩
  have hinv : (∃ pending, s.Orderly s₀.jobOf pending) ∧ s.Gone j ∧
      ∀ n, InFlight j (s₁.calls n) → Late j (s.calls n) := by
    refine hrun.invariant (I := fun x => (∃ pending, x.Orderly s₀.jobOf pending) ∧ x.Gone j ∧
      ∀ n, InFlight j (s₁.calls n) → Late j (x.calls n)) ⟨h₁, hg, fun n hn => hn.late⟩ ?_
    rintro x l y ⟨⟨pending, hx⟩, hgx, hlate⟩ hl hs
    obtain ⟨pending', hy, hgone⟩ := hx.step hl hs
    exact ⟨⟨pending', hy⟩, hgone h₀.jobIds j hgx, fun n hn => hx.late hgx (hlate n hn) hs⟩
  obtain ⟨⟨pending, h⟩, hgone, hlate⟩ := hinv
  refine ⟨fun hland => ?_, fun n r hn hr => ?_⟩
  · have hfor := h.sound.inv.forgotten hgone.2 (h.sound.settled (h.settled hland))
    exact ⟨hfor, fun t ht => h.quiet.closed (hfor.callbacks t ht)⟩
  · have hl := hlate n hn
    rw [hr] at hl
    exact hl

/-- Two listeners of one job, subscribed before and after the job finished. -/
theorem no_orphan_from_late_registration_of_two_listeners : ∃ s₁ s,
    Run Steps (fun _ l => TracksWhole l) (new (fun _ _ => none) unary)
      [⟨.still, .track 0⟩, ⟨.still, .startAdd 0 ⟨"j", .log, 7⟩⟩, ⟨.still, .startAdd 1 ⟨"j", .status, 8⟩⟩,
        ⟨.still, .proceed 0⟩, ⟨.still, .applyStatus { status := "finished" } 0⟩] s₁ ∧
    Run Steps (fun _ l => TracksWhole l) s₁
      [⟨.still, .proceed 1⟩, ⟨.still, .proceed 1⟩, ⟨.still, .proceed 0⟩] s ∧
    ((∀ n, ¬ InFlight "j" (s.calls n)) → s.tracker.Forgotten "j" ∧ ∀ t, IsTopicOf "j" t →
      s.tracker.subClient.subscriptionReady.get? t = none ∧
        isOpen s.tracker.subClient.pubsub.sent t = false) ∧
    ∀ n r, InFlight "j" (s₁.calls n) → s.calls n = .ended r → r = .error (lateError "j") := by
  have hex : ∃ s₁ s, Run Steps (fun _ l => TracksWhole l) (new (fun _ _ => none) unary)
      [⟨.still, .track 0⟩, ⟨.still, .startAdd 0 ⟨"j", .log, 7⟩⟩, ⟨.still, .startAdd 1 ⟨"j", .status, 8⟩⟩,
        ⟨.still, .proceed 0⟩, ⟨.still, .applyStatus { status := "finished" } 0⟩] s₁ ∧ s₁.Gone "j" ∧
      Run Steps (fun _ l => TracksWhole l) s₁
        [⟨.still, .proceed 1⟩, ⟨.still, .proceed 1⟩, ⟨.still, .proceed 0⟩] s := by
    refine ⟨_, _, Run.cons nofun rfl (Run.cons nofun rfl (Run.cons nofun rfl (Run.cons nofun rfl
      (Run.single nofun rfl)))), ⟨⟨0, by decide, rfl⟩, rfl⟩,
      Run.cons nofun rfl (Run.cons nofun rfl (Run.single nofun rfl))⟩
  obtain ⟨s₁, s, hrun₁, hg, hrun⟩ := hex
  exact ⟨s₁, s, hrun₁, hrun, no_orphan_from_late_registration (initial_new _ unary_injective)
    ⟨fun _ _ => rfl, fun _ _ => rfl⟩ hrun₁ hg hrun⟩

end Session

end SlurmManager
