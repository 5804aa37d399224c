import SlurmManager.Tracking.Frames
import SlurmManager.Tracking.CallSteps

/-!
# Effects — what one step does to the tracker

`CallSteps` inverts a step from the side of the calls, this module from the side of the tracker.  The
labels are many, the effects few: most steps only register something (`keep`), and every status, from
whatever source, goes through `apply_status` (`status`).

* `Applies`: the sources of statuses, each with the message and the future it applies to.
* `Effect`, `Steps.effect`: the effects of a step, and that there are no others.
-/

namespace SlurmManager

open JobTracker Config Program

namespace Session

variable {s s' : Session} {l : Label}

/-- The `apply_status` call that a step makes. -/
inductive Applies (s : Session) (l : Label) : StatusMessage → FutureRef → Prop
  | call {m : StatusMessage} {f : FutureRef} (h : l.act = .applyStatus m f) : Applies s l m f
  /-- `remove_subscriptions_for_job` of an unfinished job. -/
  | removal {j : String} {f : FutureRef} (h : l.act = .removeSubscriptionsForJob j false)
      (hf : s.tracker.futureRegistry.get? j = some f) (hd : (s.tracker.futures f).done = false) :
    Applies s l (removalMessage l.rt (s.tracker.futures f)) f
  /-- The end of `cancel_job`. -/
  | cancel {n : ℕ} {f : FutureRef} (h : l.act = .cancelled n (.ok ())) (hn : s.calls n = .cancelling (some f)) :
    Applies s l (cancelMessage l.rt (s.tracker.futures f)) f
  /-- The verdict of the scheduler. -/
  | verdict {n : ℕ} {f : FutureRef} {text : String} (h : l.act = .checked n (some text))
      (hn : s.calls n = .checking f) : Applies s l { status := text } f
  /-- A status message delivered by the listener thread. -/
  | message {sub : Subscription ClientCallback} {m : StatusMessage} {f : FutureRef}
      {rest : List (Subscription ClientCallback × SlurmMessage)} (h : l.act = .deliver)
      (hc : s.captured = (sub, .status m) :: rest) (hf : sub.callback = .event f) :
    Applies s l { m with
      metadata := enrich l.rt m.metadata (s.tracker.futures f).jobId (s.tracker.futures f).slurmJobId } f

/-- The tracker after a step. -/
inductive Effect (s : Session) (l : Label) : JobTracker → Prop
  | keep {α : Type} (x : Program PyError JobTracker α) (hx : Frame lifecycle x) :
    Effect s l (x.after s.tracker)
  | publish {f : FutureRef} (hf : f ∉ s.published) (x : Program PyError JobTracker Unit)
      (hx : Frame lifecycle x) : Effect s l (x.after (publishFuture f s.tracker))
  | status {m : StatusMessage} {f : FutureRef} (h : s.Applies l m f) :
    Effect s l ((applyStatus l.rt m f).after s.tracker)
  | discard {j : String} {skip : Bool} (h : l.act = .removeSubscriptionsForJob j skip) :
    Effect s l ((discardJob l.rt j).after s.tracker)
  | removeIds {ids : List SubId} (h : l.act = .removeSubscriptionById ids) :
    Effect s l ((removeSubscriptionById ids).after s.tracker)
  | listen {e : Event} {cb : Callback} (h : l.act = .listenGlobal e cb) :
    Effect s l ((listenGlobal e cb).after s.tracker)
  | deliver {sub : Subscription ClientCallback} {m : SlurmMessage}
      {rest : List (Subscription ClientCallback × SlurmMessage)} (h : l.act = .deliver)
      (hc : s.captured = (sub, m) :: rest) (hno : ∀ f m', sub.callback = .event f → m ≠ .status m') :
    Effect s l ((JobTracker.deliver l.rt m sub).after s.tracker)
  | dispatch {t : Topic} {m : SlurmMessage} (h : l.act = .dispatchMessage t m) :
    Effect s l ((dispatchMessage l.rt t m).after s.tracker)

theorem effect_same (s : Session) (l : Label) : Effect s l s.tracker :=
  Effect.keep (pure () : Program PyError JobTracker Unit) (within_pure ())

theorem effect_exec {α : Type} {x : Program PyError JobTracker α} {r : Except PyError α} {t : JobTracker}
    (he : x.exec s.tracker = (r, t)) (hx : Frame lifecycle x) : Effect s l t := by
  have ht : x.after s.tracker = t := by rw [Program.after, he]
  exact ht ▸ Effect.keep x hx

theorem proceed_effect {rt : Runtime} {n : ℕ} (hs : s.proceed rt n = some s') : Effect s l s'.tracker := by
  unfold proceed at hs
  cases hcall : s.calls n with
  | subscribing f e rest =>
    simp only [hcall] at hs
    rcases hr : (subscribeCallback e f).exec s.tracker with ⟨r, t⟩
    have he := effect_exec (l := l) hr (frame_subscribeCallback e f)
    rw [hr] at hs
    cases r with
    | ok i => obtain rfl := Option.some.inj hs; exact he
    | error err => obtain rfl := Option.some.inj hs; exact he
  | indexing f e i o rest =>
    simp only [hcall] at hs
    obtain rfl := Option.some.inj hs
    exact Effect.keep _ (frame_indexCallback rt e f i)
  | adding a f =>
    simp only [hcall] at hs
    rcases hr : (subscribeListener a f).exec s.tracker with ⟨r, t⟩
    have he := effect_exec (l := l) hr (frame_subscribeListener a f)
    rw [hr] at hs
    cases r with
    | ok i => obtain rfl := Option.some.inj hs; exact he
    | error err => obtain rfl := Option.some.inj hs; exact he
  | validating a f i o =>
    simp only [hcall] at hs
    rcases hr : (validateListener a f i).exec s.tracker with ⟨r, t⟩
    have he := effect_exec (l := l) hr (frame_validateListener a f i)
    rw [hr] at hs
    cases r with
    | ok k => obtain rfl := Option.some.inj hs; exact he
    | error err => obtain rfl := Option.some.inj hs; exact he
  | idle => simp [hcall] at hs
  | cancelling f => simp [hcall] at hs
  | checking f => simp [hcall] at hs
  | ended r => simp [hcall] at hs

/-- What the delivery of one captured callback does. -/
theorem deliver_effect {rt : Runtime} {sub : Subscription ClientCallback} {m : SlurmMessage}
    {rest : List (Subscription ClientCallback × SlurmMessage)} (hc : s.captured = (sub, m) :: rest) :
    Effect s ⟨rt, .deliver⟩ ((JobTracker.deliver rt m sub).after s.tracker) := by
  by_cases hev : ∃ f m', sub.callback = .event f ∧ m = .status m'
  · obtain ⟨f, m', hf, rfl⟩ := hev
    have hx : (JobTracker.deliver rt (.status m') sub).after s.tracker = (applyStatus rt { m' with
        metadata := enrich rt m'.metadata (s.tracker.futures f).jobId (s.tracker.futures f).slurmJobId }
          f).after s.tracker := by
      unfold JobTracker.deliver
      rw [hf, Program.after, Program.exec_bind_ok (Program.exec_get s.tracker), Program.exec_tryCatch,
        Program.after]
      rcases (applyStatus rt _ f).exec s.tracker with ⟨r, t⟩
      cases r <;> rfl
    rw [hx]
    exact Effect.status (Applies.message rfl hc hf)
  · exact Effect.deliver rfl hc fun f m' hf hm => hev ⟨f, m', hf, hm⟩

/-- **The effect of every step on the tracker is one of these.** -/
theorem Steps.effect (hs : Steps s l s') : Effect s l s'.tracker := by
  obtain ⟨rt, act⟩ := l
  unfold Steps step at hs
  cases act with
  | track f =>
    simp only at hs
    split_ifs at hs with hf
    obtain rfl := Option.some.inj hs
    exact Effect.publish (not_or.mp hf).1 _ (frame_subscribeToInternalTopics rt f)
  | addSubscription a =>
    simp only at hs
    rcases hr : (addSubscription a).exec s.tracker with ⟨r, t⟩
    have he := effect_exec (l := ⟨rt, .addSubscription a⟩) hr (frame_addSubscription a)
    rw [hr] at hs
    cases r with
    | ok i => obtain rfl := Option.some.inj hs; exact he
    | error err => obtain rfl := Option.some.inj hs; exact he
  | removeSubscriptionByTopic t =>
    obtain rfl := Option.some.inj hs
    exact Effect.keep _ (frame_removeSubscriptionByTopic t)
  | applyStatus m f =>
    obtain rfl := Option.some.inj hs
    exact Effect.status (Applies.call rfl)
  | removeSubscriptionById ids =>
    obtain rfl := Option.some.inj hs
    exact Effect.removeIds rfl
  | removeSubscriptionsForJob j skip =>
    obtain rfl := Option.some.inj hs
    show Effect s _ ((removeSubscriptionsForJob rt j skip).after s.tracker)
    rcases exec_removeSubscriptionsForJob rt j skip with ⟨f, hf, hd, rfl, he⟩ | ⟨-, he⟩
    · rw [Program.after, he]
      exact Effect.status (l := ⟨rt, .removeSubscriptionsForJob j false⟩) (Applies.removal rfl hf hd)
    · rw [Program.after, he]
      exact Effect.discard (l := ⟨rt, .removeSubscriptionsForJob j skip⟩) rfl
  | beginSchedulerCheck j =>
    obtain rfl := Option.some.inj hs
    exact Effect.keep _ (frame_beginSchedulerCheck rt j)
  | dispatchMessage t m =>
    obtain rfl := Option.some.inj hs
    exact Effect.dispatch rfl
  | listenGlobal e cb =>
    obtain rfl := Option.some.inj hs
    exact Effect.listen rfl
  | startTrack n f =>
    simp only at hs
    cases hcall : s.calls n with
    | idle =>
      simp only [hcall] at hs
      split_ifs at hs with hf
      obtain rfl := Option.some.inj hs
      exact Effect.publish (not_or.mp hf).1 (pure ()) (within_pure ())
    | _ => simp [hcall] at hs
  | startAdd n a =>
    simp only at hs
    cases hcall : s.calls n with
    | idle =>
      simp only [hcall] at hs
      rcases hr : (checkActive a).exec s.tracker with ⟨r, t⟩
      have he := effect_exec (l := ⟨rt, .startAdd n a⟩) hr (frame_checkActive a)
      rw [hr] at hs
      cases r with
      | ok f => obtain rfl := Option.some.inj hs; exact he
      | error err => obtain rfl := Option.some.inj hs; exact he
    | _ => simp [hcall] at hs
  | startCancel n j =>
    simp only at hs
    cases hcall : s.calls n with
    | idle =>
      simp only [hcall] at hs
      obtain rfl := Option.some.inj hs
      exact effect_same s _
    | _ => simp [hcall] at hs
  | startCheck n j =>
    simp only at hs
    cases hcall : s.calls n with
    | idle =>
      simp only [hcall] at hs
      rcases hr : (beginSchedulerCheck rt j).exec s.tracker with ⟨r, t⟩
      have he := effect_exec (l := ⟨rt, .startCheck n j⟩) hr (frame_beginSchedulerCheck rt j)
      rw [hr] at hs
      rcases r with err | (_ | f)
      · obtain rfl := Option.some.inj hs; exact he
      · obtain rfl := Option.some.inj hs; exact he
      · obtain rfl := Option.some.inj hs; exact he
    | _ => simp [hcall] at hs
  | proceed n => exact proceed_effect hs
  | cancelled n rest =>
    simp only at hs
    cases hcall : s.calls n with
    | cancelling future =>
      simp only [hcall] at hs
      cases rest with
      | error err =>
        obtain rfl := Option.some.inj hs
        exact effect_same s _
      | ok u =>
        cases future with
        | none =>
          obtain rfl := Option.some.inj hs
          exact effect_same s _
        | some f =>
          obtain rfl := Option.some.inj hs
          exact Effect.status (Applies.cancel rfl hcall)
    | _ => simp [hcall] at hs
  | checked n verdict =>
    simp only at hs
    cases hcall : s.calls n with
    | checking f =>
      simp only [hcall] at hs
      cases verdict with
      | none =>
        obtain rfl := Option.some.inj hs
        exact effect_same s _
      | some text =>
        obtain rfl := Option.some.inj hs
        exact Effect.status (Applies.verdict rfl hcall)
    | _ => simp [hcall] at hs
  | poll t m =>
    simp only at hs
    split at hs
    · obtain rfl := Option.some.inj hs
      exact effect_same s _
    · simp at hs
  | deliver =>
    simp only at hs
    cases hc : s.captured with
    | nil => simp [hc] at hs
    | cons e rest =>
      obtain ⟨sub, m⟩ := e
      simp only [hc] at hs
      obtain rfl := Option.some.inj hs
      exact deliver_effect hc

end Session

end SlurmManager
