import SlurmManager.Tracking.Removal

/-!
# StatusUpdate — `apply_status` and the removal that goes through it

* `exec_applyStatus_*`: `apply_status` is a test of `done`, the pure update `accept`, and
  `discardJob` after a terminal status.
* `exec_removeSubscriptionsForJob`: the removal of an unfinished job is an `apply_status` of an error.
-/

namespace SlurmManager

namespace JobTracker

variable {s : JobTracker}

/-! ## `apply_status` -/

section Status

/-- The tracker once `apply_status` has updated the future and queued the notifications. -/
def accept (rt : Runtime) (message : StatusMessage) (future : FutureRef) (s : JobTracker) : JobTracker :=
  let d := decodeStatus rt message
  let f := s.futures future
  { s with
    futures := Function.update s.futures future (f.updateStatus d.2.1 d.2.2)
    accepted := s.accepted ++ [(future, d.2.1)]
    tasks := s.tasks ++ listenerTasks rt (.status d.1) (topicOf f.jobId .status) s ++
      globalTasks rt (.status d.1) f.jobId (some f.slurmJobId) s }

variable (rt : Runtime) (m : StatusMessage) (future : FutureRef)

/-- The status that `apply_status` reads from a message. -/
def decoded : JobStatus := (decodeStatus rt m).2.1

theorem exec_applyStatus_done (hd : (s.futures future).done = true) :
    (applyStatus rt m future).exec s = (.ok (), s) := by
  simp [applyStatus, Program.exec_bind, hd]

theorem exec_applyStatus_running (hd : (s.futures future).done = false)
    (ht : (decoded rt m).terminal = false) :
    (applyStatus rt m future).exec s = (.ok (), s.accept rt m future) := by
  unfold decoded at ht
  simp [applyStatus, Program.exec_bind, hd, ht, accept, dispatchGlobal, setFuture, globalTasks]

/-- A terminal status ends with the removal of the job. -/
theorem exec_applyStatus_terminal (hd : (s.futures future).done = false)
    (ht : (decoded rt m).terminal = true) :
    (applyStatus rt m future).exec s =
      (discardJob rt (s.futures future).jobId).exec (s.accept rt m future) := by
  unfold decoded at ht
  simp [applyStatus, Program.exec_bind, hd, ht, accept, dispatchGlobal, setFuture, globalTasks]

theorem sameMaps_accept : SameMaps s (s.accept rt m future) := ⟨rfl, rfl, rfl, rfl⟩

@[simp] theorem accept_futureRegistry :
    (s.accept rt m future).futureRegistry = s.futureRegistry := rfl

@[simp] theorem accept_subClient : (s.accept rt m future).subClient = s.subClient := rfl

@[simp] theorem accept_globalCallbacks :
    (s.accept rt m future).globalCallbacks = s.globalCallbacks := rfl

@[simp] theorem accept_accepted :
    (s.accept rt m future).accepted = s.accepted ++ [(future, decoded rt m)] := rfl

theorem accept_futures_self : (s.accept rt m future).futures future =
    (s.futures future).updateStatus (decoded rt m) (decodeStatus rt m).2.2 := by
  simp [accept, decoded]

theorem accept_futures_ne {g : FutureRef} (hg : g ≠ future) :
    (s.accept rt m future).futures g = s.futures g := by
  simp [accept, hg]

@[simp] theorem accept_jobId (g : FutureRef) :
    ((s.accept rt m future).futures g).jobId = (s.futures g).jobId := by
  by_cases hg : g = future
  · rw [hg, accept_futures_self, JobFuture.updateStatus_jobId]
  · rw [accept_futures_ne rt m future hg]

@[simp] theorem accept_slurmJobId (g : FutureRef) :
    ((s.accept rt m future).futures g).slurmJobId = (s.futures g).slurmJobId := by
  by_cases hg : g = future
  · rw [hg, accept_futures_self, JobFuture.updateStatus_slurmJobId]
  · rw [accept_futures_ne rt m future hg]

theorem accept_done (hd : (s.futures future).done = false) :
    ((s.accept rt m future).futures future).done = (decoded rt m).terminal := by
  rw [accept_futures_self, JobFuture.done_updateStatus _ _ hd]

/-- `remove_subscriptions_for_job` is either an `apply_status` of the failure or the bare removal. -/
theorem exec_removeSubscriptionsForJob (j : String) (skip : Bool) :
    (∃ f, s.futureRegistry.get? j = some f ∧ (s.futures f).done = false ∧ skip = false ∧
      (removeSubscriptionsForJob rt j skip).exec s =
        (applyStatus rt (removalMessage rt (s.futures f)) f).exec s) ∨
    ((∀ f, s.futureRegistry.get? j = some f → (s.futures f).done = true ∨ skip = true) ∧
      (removeSubscriptionsForJob rt j skip).exec s = (discardJob rt j).exec s) := by
  unfold removeSubscriptionsForJob
  rw [Program.exec_bind_ok (Program.exec_get s)]
  cases hr : s.futureRegistry.get? j with
  | none => exact Or.inr ⟨by simp, rfl⟩
  | some f =>
    by_cases hd : (s.futures f).done = false ∧ skip = false
    · refine Or.inl ⟨f, rfl, hd.1, hd.2, ?_⟩
      simp only [if_pos hd]
    · refine Or.inr ⟨fun g hg => ?_, ?_⟩
      · obtain rfl := Option.some.inj hg
        by_cases hf : (s.futures f).done = true
        · exact Or.inl hf
        · exact Or.inr (by simpa [hf] using hd)
      · simp only [if_neg hd]

omit rt m future in
/-- A text with a colon is split at the first one. -/
theorem splitColon_append {head : String} (hh : ':' ∉ head.toList) (rest : String) :
    splitColon (head ++ ":" ++ rest) = (head, some rest) := by
  have hl : (head ++ ":" ++ rest).toList = head.toList ++ ':' :: rest.toList := by
    simp [String.toList_append]
  have hp : ∀ c ∈ head.toList, decide (c ≠ ':') = true := fun c hc => by
    simpa using fun he : c = ':' => hh (he ▸ hc)
  unfold splitColon
  rw [hl, List.dropWhile_append_of_pos hp, List.takeWhile_append_of_pos hp]
  simp

omit future m in
theorem decodeStatus_of_ofValue? {m : StatusMessage} {st : JobStatus} {x : Option String} {head : String}
    (hs : splitColon m.status = (head, x)) (hv : JobStatus.ofValue? head = some st) :
    decodeStatus rt m = (m, st, x) := by
  unfold decodeStatus
  rw [hs]
  simp only [hv]

end Status

end JobTracker

end SlurmManager
