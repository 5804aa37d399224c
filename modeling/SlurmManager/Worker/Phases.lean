import SlurmManager.Worker.Steps

/-!
# Phases — what a worker has attempted so far

* `Fed`: log and heartbeat attempts, up to the first failure.
* `Quiet`: who may still publish.  The copy goroutines end before `Wait` returns, the heartbeat before
  the status is chosen.
* `Phase`: the attempts so far, by where the main goroutine stands; `reachable`: both hold in every
  state of every run.
-/

namespace SlurmManager.Worker

/-! ## Attempts -/

/-- Attempts to publish logs and heartbeats: all but the last succeeded, and `failure` is the error of
the last. -/
structure Fed (rest : List Attempt) (failure : Option Err) : Prop where
  kinds : ∀ a ∈ rest, a.message.kind ≠ .status
  succeeded : ∀ a ∈ rest.dropLast, a.error = none
  failure : rest.getLast?.bind Attempt.error = failure

namespace Fed

variable {rest : List Attempt}

theorem nil : Fed [] none := ⟨by simp, by simp, rfl⟩

/-- Without a failure every attempt succeeded. -/
theorem all_succeeded (h : Fed rest none) : ∀ a ∈ rest, a.error = none := by
  intro a ha
  rcases List.eq_nil_or_concat' rest with rfl | ⟨l, b, rfl⟩
  · simp at ha
  · have hl := h.succeeded
    have hb := h.failure
    rw [List.dropLast_concat] at hl
    rw [List.getLast?_concat] at hb
    rcases List.mem_append.mp ha with ha | ha
    · exact hl a ha
    · rw [List.mem_singleton.mp ha]
      exact hb

theorem snoc (h : Fed rest none) {m : Feedback} (hm : m.kind ≠ .status) (r : Option Err) :
    Fed (rest ++ [⟨m, r⟩]) r := by
  refine ⟨?_, ?_, ?_⟩
  · intro a ha
    rcases List.mem_append.mp ha with ha | ha
    · exact h.kinds a ha
    · rw [List.mem_singleton.mp ha]
      exact hm
  · rw [List.dropLast_concat]
    exact h.all_succeeded
  · rw [List.getLast?_concat]
    rfl

end Fed

/-! ## Phases -/

/-- Code and status were chosen by the cascade, and not before the workload had been waited for. -/
def State.Decided (s : State) (code : ℕ) (status : String) (failure : Option Err) : Prop :=
  (s.runError = none → s.processDone = true) ∧ ∃ cancelled, (cancelled = true → s.ctxDone = true) ∧
    (code, status) = verdict cancelled s.runError s.outputFailed failure.isSome

/-- The start was published. -/
def State.Running (s : State) : Prop :=
  ∃ rest, s.attempts = ⟨.status "running", none⟩ :: rest ∧ Fed rest s.publishError

/-- The start could not be published. -/
structure State.Refused (s : State) (code : ℕ) : Prop where
  attempts : ∃ e, s.attempts = [⟨.status "running", some e⟩]
  started : s.started = false
  code : code = 1

/-- The attempts of a run that returned `code` after it had chosen `chosen` and `status`. -/
structure State.Report (s : State) (code : ℕ) (rest : List Attempt) (failure : Option Err) (chosen : ℕ)
    (status : String) (r : Option Err) : Prop where
  attempts : s.attempts = ⟨.status "running", none⟩ :: (rest ++ [⟨.status status, r⟩])
  fed : Fed rest failure
  decided : s.Decided chosen status failure
  code : code = if failure = none ∧ r ≠ none then 1 else chosen

def State.Phase (s : State) : Prop :=
  match s.main with
  | .announcing => s.attempts = [] ∧ s.publishError = none ∧ s.started = false
  | .reporting code status failure =>
    s.Running ∧ failure = s.publishError ∧ s.Decided code status failure
  | .returned code _ => s.Refused code ∨ ∃ rest failure chosen status r, s.Report code rest failure chosen status r
  | _ => s.Running

/-- The main goroutine is between the first and the last publication. -/
def Main.Open : Main → Prop
  | .launching | .waiting | .draining | .flushing _ | .halting | .concluding => True
  | .announcing | .reporting _ _ _ | .returned _ _ => False

/-- The heartbeat goroutine has ended, or there is none yet. -/
def Main.Silent : Main → Prop
  | .announcing | .concluding | .reporting _ _ _ | .returned _ _ => True
  | _ => False

/-- The workload has been waited for, or was not started. -/
def Main.Waited : Main → Prop
  | .draining | .flushing _ | .halting | .concluding | .reporting _ _ _ => True
  | _ => False

theorem Main.open_of_not_silent {m : Main} (h : ¬ m.Silent) : m.Open := by
  cases m <;> simp_all [Main.Silent, Main.Open]

/-- Who may still publish, and that the workload is over when the main goroutine goes on. -/
structure State.Quiet (s : State) : Prop where
  copiers : s.main ≠ .waiting → ∀ x, (s.outlet x).copier ≠ .running
  heartbeat : s.main.Silent → s.heartbeat = .absent ∨ s.heartbeat = .done
  waited : s.main.Waited → s.runError = none → s.processDone = true

theorem State.phase_of_open {s : State} (h : s.main.Open) : s.Phase ↔ s.Running := by
  unfold State.Phase
  cases hm : s.main <;> simp_all [Main.Open]

/-- What the goroutines other than the main one leave alone unless they publish. -/
structure State.Aside (s s' : State) : Prop where
  main : s'.main = s.main
  attempts : s'.attempts = s.attempts
  publishError : s'.publishError = s.publishError
  started : s'.started = s.started
  runError : s'.runError = s.runError
  processDone : s'.processDone = s.processDone
  ctxDone : s.ctxDone = true → s'.ctxDone = true

theorem State.Running.congr {s s' : State} (h : s.Running) (ha : s'.attempts = s.attempts)
    (hp : s'.publishError = s.publishError) : s'.Running := by
  obtain ⟨rest, hrest, hf⟩ := h
  exact ⟨rest, ha.trans hrest, by rwa [hp]⟩

theorem State.Decided.congr {s s' : State} {c : ℕ} {st : String} {f : Option Err} (h : s.Decided c st f)
    (ha : s.Aside s') (ho : s'.outputFailed = s.outputFailed) : s'.Decided c st f := by
  obtain ⟨hw, b, hb, hv⟩ := h
  refine ⟨?_, b, ha.ctxDone ∘ hb, by rwa [ha.runError, ho]⟩
  rwa [ha.runError, ha.processDone]

theorem State.Phase.congr {s s' : State} (h : s.Phase) (ha : s.Aside s')
    (ho : ¬ s.main.Open → s'.outputFailed = s.outputFailed) : s'.Phase := by
  unfold State.Phase at *
  rw [ha.main]
  cases hmain : s.main with
  | announcing =>
    rw [hmain] at h
    exact ⟨ha.attempts.trans h.1, ha.publishError.trans h.2.1, ha.started.trans h.2.2⟩
  | reporting code status failure =>
    rw [hmain] at h
    exact ⟨h.1.congr ha.attempts ha.publishError, h.2.1.trans ha.publishError.symm,
      h.2.2.congr ha (ho (by simp [hmain, Main.Open]))⟩
  | returned code err =>
    rw [hmain] at h
    rcases h with h | ⟨rest, failure, chosen, status, r, h⟩
    · exact Or.inl ⟨by rw [ha.attempts]; exact h.attempts, ha.started.trans h.started, h.code⟩
    · exact Or.inr ⟨rest, failure, chosen, status, r, ha.attempts.trans h.attempts, h.fed,
        h.decided.congr ha (ho (by simp [hmain, Main.Open])), h.code⟩
  | launching | waiting | draining | flushing x | halting | concluding =>
    rw [hmain] at h
    exact h.congr ha.attempts ha.publishError

theorem State.Quiet.congr {s s' : State} (h : s.Quiet) (ha : s.Aside s')
    (hh : s'.heartbeat = s.heartbeat)
    (hc : ∀ x, (s'.outlet x).copier = .running → (s.outlet x).copier = .running) : s'.Quiet := by
  refine ⟨fun hw x hx => ?_, fun hs => ?_, fun hw hr => ?_⟩
  · rw [ha.main] at hw
    exact h.copiers hw x (hc x hx)
  · rw [ha.main] at hs
    rw [hh]
    exact h.heartbeat hs
  · rw [ha.main] at hw
    rw [ha.runError] at hr
    rw [ha.processDone]
    exact h.waited hw hr

section Aside

variable {s : State} {x : Stream}

theorem aside_setOutlet (o : Outlet) : s.Aside (s.setOutlet x o) := ⟨rfl, rfl, rfl, rfl, rfl, rfl, id⟩

theorem aside_finish (e : Option Err) : s.Aside (finish x e s) := ⟨rfl, rfl, rfl, rfl, rfl, rfl, id⟩

theorem aside_receive (data : Bytes) (written : ℕ) (err : Option Err) :
    s.Aside (receive x data written err s) := by
  rcases receive_cases x data written err s with ⟨e, -, h⟩ | ⟨-, e, h⟩ | ⟨-, h⟩ <;> rw [h] <;>
    exact ⟨rfl, rfl, rfl, rfl, rfl, rfl, id⟩

end Aside

/-! ## One step -/

section Publish

variable {s : State} {m : Feedback} {r : Option Err}

theorem State.Running.publish (h : s.Running) (hm : m.kind ≠ .status) : (publish m r s).1.Running := by
  rcases publish_cases m r s with ⟨-, -, hp⟩ | ⟨hk, hp⟩ <;> rw [hp]
  · exact h
  · obtain ⟨rest, hrest, hf⟩ := h
    rcases hk with hnone | hk
    · rw [hnone] at hf
      refine ⟨rest ++ [⟨m, r⟩], by simp [State.attempted, hrest], ?_⟩
      have hr : (s.attempted m r).publishError = r := by simp [State.attempted, hnone]
      rw [hr]
      exact hf.snoc hm r
    · contradiction

end Publish

theorem State.Quiet.step {s s' : State} {l : Label} (h : s.Quiet) (hs : Moved s l s') : s'.Quiet := by
  have hpub : ∀ m r x, ((publish m r s).1.outlet x).copier = .running → (s.outlet x).copier = .running := by
    intro m r x
    rw [(publish_same m r s).outlet]
    exact id
  have hidle : s.main ≠ .waiting → ∀ m r x, ((publish m r s).1.outlet x).copier ≠ .running :=
    fun hw m r x hx => h.copiers hw x (hpub m r x hx)
  have hwait : s.main.Waited → ∀ m r, (publish m r s).1.runError = none →
      (publish m r s).1.processDone = true := by
    intro hw m r hr
    rw [(publish_same m r s).runError] at hr
    rw [(publish_same m r s).processDone]
    exact h.waited hw hr
  cases hs with
  | cancel => exact h.congr ⟨rfl, rfl, rfl, rfl, rfl, rfl, fun _ => rfl⟩ rfl fun _ => id
  | propagate | watchCancelled | watchDone | terminated | exit | expire =>
    exact h.congr ⟨rfl, rfl, rfl, rfl, rfl, rfl, id⟩ rfl fun _ => id
  | unannounced hm hr =>
    refine ⟨fun _ => hidle (by simp [hm]) _ _, fun _ => ?_, False.elim⟩
    have hheart := h.heartbeat (by simp [hm, Main.Silent])
    rwa [← (publish_same _ _ s).heartbeat] at hheart
  | announced hm hr => exact ⟨fun _ => hidle (by simp [hm]) _ _, False.elim, False.elim⟩
  | unlaunched hm hr => exact ⟨fun _ => h.copiers (by simp [hm]), False.elim, nofun⟩
  | launched hm hw => exact ⟨fun hw => absurd rfl hw, False.elim, False.elim⟩
  | @beatFailed t r e hh hr =>
    have hmain := (publish_same (.heartbeat t) r s).main
    refine ⟨fun hw => hidle ?_ _ _, fun _ => Or.inr rfl, fun hw => hwait ?_ _ _⟩
    · rw [← hmain]
      exact hw
    · rw [← hmain]
      exact hw
  | @beat t r hh hr =>
    have hmain := (publish_same (.heartbeat t) r s).main
    refine ⟨fun hw => hidle (by rw [← hmain]; exact hw) _ _, fun hs => ?_,
      fun hw => hwait (by rw [← hmain]; exact hw) _ _⟩
    have hheart := h.heartbeat (by rw [← hmain]; exact hs)
    simp [hh] at hheart
  | tick hh =>
    refine ⟨h.copiers, fun hs => ?_, h.waited⟩
    have hheart := h.heartbeat hs
    simp [hh] at hheart
  | stopBeating hh hs => exact ⟨h.copiers, fun _ => Or.inr rfl, h.waited⟩
  | emit | close => exact h.congr (aside_setOutlet _) rfl (copier_setOutlet id)
  | @copy x n written err hc ho =>
    have hw : s.main = .waiting := by
      by_contra hw
      exact h.copiers hw x hc
    have hmain : (receive x ((s.outlet x).pending.take n) written err
        (s.setOutlet x { s.outlet x with pending := (s.outlet x).pending.drop n })).main = .waiting :=
      (aside_receive _ _ _).main.trans hw
    refine ⟨fun hn => absurd hmain hn, fun hs => ?_, fun hw => ?_⟩
    · rw [hmain] at hs
      exact hs.elim
    · rw [hmain] at hw
      exact hw.elim
  | @send x r c rest hc ho =>
    have hw : s.main = .waiting := by
      by_contra hw
      exact h.copiers hw x hc
    have hmain : ((publish (.log x c) r s).1.popped x rest).main = .waiting :=
      (publish_same (.log x c) r s).main.trans hw
    refine ⟨fun hn => absurd hmain hn, fun hs => ?_, fun hw => ?_⟩
    · rw [hmain] at hs
      exact hs.elim
    · rw [hmain] at hw
      exact hw.elim
  | eof | closed => exact h.congr (aside_finish _) rfl (copier_finish _)
  | waited hm hl hc =>
    refine ⟨fun _ x => ?_, False.elim, fun _ _ => rfl⟩
    obtain ⟨hout, herr⟩ := hc
    cases x
    · exact fun hx => by simp [hout] at hx
    · exact fun hx => by simp [herr] at hx
  | drained hm hw =>
    exact ⟨fun _ => h.copiers (by simp [hm]), False.elim, fun _ => h.waited (by simp [hm, Main.Waited])⟩
  | @flushedEmpty x r hm hb =>
    have hwait' := h.waited (by simp [hm, Main.Waited])
    cases x
    · exact ⟨fun _ => h.copiers (by simp [hm]), False.elim, fun _ => hwait'⟩
    · exact ⟨fun _ => h.copiers (by simp [hm]), False.elim, fun _ => hwait'⟩
  | @flushed x r hm hb =>
    have hcop : ∀ y, (((publish (.log x ⟨(s.outlet x).writer.buffer.bytes, false⟩) r s).1.emptied x).outlet
        y).copier ≠ .running :=
      fun y hy => hidle (by simp [hm]) _ _ y ((copier_emptied x y _).symm.trans hy)
    have hwait' := hwait (by simp [hm, Main.Waited]) (.log x ⟨(s.outlet x).writer.buffer.bytes, false⟩) r
    cases x
    · exact ⟨fun _ => hcop, False.elim, fun _ => hwait'⟩
    · exact ⟨fun _ => hcop, False.elim, fun _ => hwait'⟩
  | halted hm hh =>
    exact ⟨fun _ => h.copiers (by simp [hm]), fun _ => Or.inr hh,
      fun _ => h.waited (by simp [hm, Main.Waited])⟩
  | conclude hm =>
    exact ⟨fun _ => h.copiers (by simp [hm]), fun _ => h.heartbeat (by simp [hm, Main.Silent]),
      fun _ => h.waited (by simp [hm, Main.Waited])⟩
  | @report code status failure r hm =>
    refine ⟨fun _ => hidle ?_ _ _, fun _ => ?_, fun hw => ?_⟩
    · simp [hm]
    · have hheart := h.heartbeat (by simp [hm, Main.Silent])
      rwa [← (publish_same (.status status) r s).heartbeat] at hheart
    · unfold outcome at hw
      split at hw
      · exact hw.elim
      · split at hw
        · exact hw.elim
        · exact hw.elim

theorem State.Phase.step {s s' : State} {l : Label} (h : s.Phase) (hq : s.Quiet) (hs : Moved s l s') :
    s'.Phase := by
  have hrunning : s.main.Open → s.Running := fun ho => (State.phase_of_open ho).mp h
  have hwaiting : ∀ {x}, (s.outlet x).copier = .running → s.main = .waiting := by
    intro x hc
    by_contra hw
    exact hq.copiers hw x hc
  have hbeating : s.heartbeat = .beating → s.main.Open := by
    intro hh
    apply Main.open_of_not_silent
    intro hs
    have := hq.heartbeat hs
    simp [hh] at this
  cases hs with
  | cancel => exact h.congr ⟨rfl, rfl, rfl, rfl, rfl, rfl, fun _ => rfl⟩ fun _ => rfl
  | propagate | tick | stopBeating | watchCancelled | watchDone | terminated | exit | expire =>
    exact h.congr ⟨rfl, rfl, rfl, rfl, rfl, rfl, id⟩ fun _ => rfl
  | @unannounced r e hm hr =>
    unfold State.Phase at h
    rw [hm] at h
    rw [publish_status] at hr ⊢
    obtain rfl : r = some e := hr
    exact Or.inl ⟨⟨e, by simp [State.attempted, h.1]⟩, h.2.2, rfl⟩
  | @announced r hm hr =>
    unfold State.Phase at h
    rw [hm] at h
    rw [publish_status] at hr ⊢
    obtain rfl : r = none := hr
    have hp : (s.attempted (.status "running") none).publishError = none := by simp [State.attempted, h.2.1]
    refine ⟨[], by simp [State.attempted, h.1], ?_⟩
    change Fed [] (s.attempted (.status "running") none).publishError
    rw [hp]
    exact Fed.nil
  | unlaunched hm hr => exact hrunning (by simp [hm, Main.Open])
  | launched hm hw => exact hrunning (by simp [hm, Main.Open])
  | @beatFailed t r e hh hr =>
    have hr' := (hrunning (hbeating hh)).publish (m := .heartbeat t) (r := r) nofun
    refine (State.phase_of_open ?_).mpr hr'
    exact (congrArg Main.Open (publish_same (.heartbeat t) r s).main).mpr (hbeating hh)
  | @beat t r hh hr =>
    have hr' := (hrunning (hbeating hh)).publish (m := .heartbeat t) (r := r) nofun
    refine (State.phase_of_open ?_).mpr hr'
    exact (congrArg Main.Open (publish_same (.heartbeat t) r s).main).mpr (hbeating hh)
  | emit => exact h.congr (aside_setOutlet _) fun _ => outputFailed_setOutlet rfl
  | close => exact h.congr (aside_setOutlet _) fun _ => outputFailed_setOutlet rfl
  | @copy x n written err hc ho =>
    have haside := aside_setOutlet (s := s) (x := x)
      { s.outlet x with pending := (s.outlet x).pending.drop n }
    have hrec := aside_receive (s := s.setOutlet x { s.outlet x with pending := (s.outlet x).pending.drop n })
      (x := x) ((s.outlet x).pending.take n) written err
    have hopen : s.main.Open := by simp [hwaiting hc, Main.Open]
    refine (h.congr haside fun hn => absurd hopen hn).congr hrec fun hn => absurd ?_ hn
    rw [haside.main]
    exact hopen
  | @send x r c rest hc ho =>
    have hmain : (publish (.log x c) r s).1.main = .waiting :=
      (publish_same (.log x c) r s).main.trans (hwaiting hc)
    have hr' := (hrunning (by simp [hwaiting hc, Main.Open])).publish (m := .log x c) (r := r) nofun
    refine (State.phase_of_open ?_).mpr hr'
    change (publish (.log x c) r s).1.main.Open
    simp [hmain, Main.Open]
  | eof hc ho hp hh =>
    exact h.congr (aside_finish _) fun hn => absurd (by simp [hwaiting hc, Main.Open]) hn
  | closed hc ho he =>
    exact h.congr (aside_finish _) fun hn => absurd (by simp [hwaiting hc, Main.Open]) hn
  | waited hm hl hc => exact hrunning (by simp [hm, Main.Open])
  | drained hm hw => exact hrunning (by simp [hm, Main.Open])
  | @flushedEmpty x r hm hb =>
    have hr' := hrunning (by simp [hm, Main.Open])
    cases x
    · exact hr'
    · exact hr'
  | @flushed x r hm hb =>
    have hr' := (hrunning (by simp [hm, Main.Open])).publish
      (m := .log x ⟨(s.outlet x).writer.buffer.bytes, false⟩) (r := r) nofun
    cases x
    · exact hr'
    · exact hr'
  | halted hm hh => exact hrunning (by simp [hm, Main.Open])
  | conclude hm =>
    have hr' := hrunning (by simp [hm, Main.Open])
    exact ⟨hr', rfl, hq.waited (by simp [hm, Main.Waited]), s.ctxDone, id, rfl⟩
  | @report code status failure r hm =>
    unfold State.Phase at h
    rw [hm] at h
    obtain ⟨⟨rest, hrest, hfed⟩, rfl, hdec⟩ := h
    rw [publish_status]
    have hatt : (s.attempted (.status status) r).attempts
        = ⟨.status "running", none⟩ :: (rest ++ [⟨.status status, r⟩]) := by
      simp [State.attempted, hrest]
    have hreport : ∀ c err, c = (if s.publishError = none ∧ r ≠ none then 1 else code) →
        State.Phase { s.attempted (.status status) r with main := .returned c err } :=
      fun c err hcode => Or.inr ⟨rest, s.publishError, code, status, r, hatt, hfed, hdec, hcode⟩
    unfold outcome
    cases hp : s.publishError with
    | some e => exact hreport _ _ (by simp [hp])
    | none =>
      cases r with
      | some e => exact hreport _ _ (by simp [hp])
      | none => exact hreport _ _ (by simp)

/-! ## Runs -/

theorem State.phase_initial : State.Phase {} := ⟨rfl, rfl, rfl⟩

theorem State.quiet_initial : State.Quiet {} := ⟨fun _ _ h => by contradiction, fun _ => Or.inl rfl, False.elim⟩

theorem State.reachable {s : State} {ls : List Label} {ok : State → Label → Prop} (hrun : Run Steps ok {} ls s) :
    s.Phase ∧ s.Quiet := by
  refine hrun.invariant (I := fun s => s.Phase ∧ s.Quiet) ⟨State.phase_initial, State.quiet_initial⟩ ?_
  intro s l s' h _ hs
  exact ⟨h.1.step h.2 hs.moved, h.2.step hs.moved⟩

end SlurmManager.Worker
