import SlurmManager.Worker.Phases

/-!
# OutputIntegrity — `finished` means that nothing was lost

A lost byte shows in one of three places: the error of its writer, the sticky error of the publisher, or
what `Wait` returned.

* `Intact`: as long as a writer has no error, its archive and the pipe hold what was written; as long as
  nothing else failed either, its messages and its buffer hold what was archived.
* `Settled`: what a copy goroutine that ended without an error leaves behind.
* `output_integrity`: a run that publishes `finished` has archived and published each stream.
-/

namespace SlurmManager.Worker

/-- The log messages of a stream. -/
def logs (x : Stream) (attempts : List Attempt) : List Chunk :=
  attempts.filterMap fun a => match a.message with
    | .log y c => if y = x then some c else none
    | _ => none

theorem logs_append (x : Stream) (l l' : List Attempt) : logs x (l ++ l') = logs x l ++ logs x l' :=
  List.filterMap_append

theorem logs_other {x : Stream} {m : Feedback} {r : Option Err} (h : ∀ c, m ≠ .log x c) :
    logs x [⟨m, r⟩] = [] := by
  cases m with
  | status text => rfl
  | heartbeat t => rfl
  | log y c =>
    have hy : y ≠ x := fun hy => h c (by rw [hy])
    simp [logs, hy]

theorem logs_log (x : Stream) (c : Chunk) (r : Option Err) : logs x [⟨.log x c, r⟩] = [c] := by
  simp [logs]

/-- No log and no heartbeat has failed. -/
def Unfailed (attempts : List Attempt) : Prop := ∀ a ∈ attempts, a.message.kind ≠ .status → a.error = none

theorem State.Running.publishError {s : State} (h : s.Running) (hu : Unfailed s.attempts) :
    s.publishError = none := by
  obtain ⟨rest, hrest, hf⟩ := h
  rw [← hf.failure]
  rcases List.eq_nil_or_concat' rest with rfl | ⟨l, b, rfl⟩
  · rfl
  · rw [List.getLast?_concat]
    exact hu b (by simp [hrest]) (hf.kinds b (by simp))

/-! ## The invariant -/

/-- Nothing of a stream is lost unless an error says so. -/
structure Intact (x : Stream) (o : Outlet) (attempts : List Attempt) : Prop where
  archived : o.writer.err = none → o.writer.archive ++ o.pending = o.written
  published : o.writer.err = none → Unfailed attempts →
    joined (logs x attempts) ++ joined o.writer.outbox ++ o.writer.buffer.bytes = o.writer.archive
  idle : o.copier ≠ .running → o.writer.outbox = []

/-- What a copy goroutine that ended without an error leaves behind. -/
def Settled (o : Outlet) (copyError : Option Err) : Prop :=
  o.copier = .finished → copyError = none → o.pending = [] ∧ o.held = false

/-- The writer of a stream has been flushed. -/
def Main.Flushed (x : Stream) : Main → Prop
  | .flushing .stderr => x = .stdout
  | .announcing | .halting | .concluding | .reporting _ _ _ | .returned _ _ => True
  | _ => False

/-- The workload is not waited for yet. -/
def Main.Early : Main → Prop
  | .announcing | .launching | .waiting => True
  | _ => False

structure State.Sound (s : State) : Prop where
  intact : ∀ x, Intact x (s.outlet x) s.attempts
  settled : ∀ x, Settled (s.outlet x) s.copyError
  flushed : ∀ x, s.main.Flushed x → (s.outlet x).writer.buffer.bytes = []
  complete : s.processDone = true → s.runError = none → s.Copied ∧ s.copyError = none
  early : s.main.Early → s.processDone = false

namespace Intact

variable {x : Stream} {o : Outlet} {attempts : List Attempt}

theorem of_error (he : o.writer.err ≠ none) (ho : o.writer.outbox = []) : Intact x o attempts :=
  ⟨fun hn => absurd hn he, fun hn => absurd hn he, fun _ => ho⟩

/-- A publication that is not a log of the stream. -/
theorem publish {s : State} (h : Intact x o s.attempts) {m : Feedback} (hm : ∀ c, m ≠ .log x c)
    (r : Option Err) : Intact x o (Worker.publish m r s).1.attempts := by
  rcases publish_cases m r s with ⟨-, -, hp⟩ | ⟨-, hp⟩ <;> rw [hp]
  · exact h
  · refine ⟨h.archived, fun he hu => ?_, h.idle⟩
    simp only [State.attempted] at hu ⊢
    rw [logs_append, logs_other hm, List.append_nil]
    exact h.published he fun a ha => hu a (List.mem_append_left _ ha)

/-- A log of the stream is published, or a log or a heartbeat has failed. -/
theorem joined_publish {s : State} (h : s.Running) (c : Chunk) (r : Option Err)
    (hu : Unfailed (Worker.publish (.log x c) r s).1.attempts) : Unfailed s.attempts ∧
      joined (logs x (Worker.publish (.log x c) r s).1.attempts) = joined (logs x s.attempts) ++ c.bytes := by
  rcases publish_cases (.log x c) r s with ⟨hne, -, hp⟩ | ⟨-, hp⟩ <;> rw [hp] at hu ⊢
  · exact absurd (h.publishError hu) hne
  · simp only [State.attempted] at hu ⊢
    refine ⟨fun a ha => hu a (List.mem_append_left _ ha), ?_⟩
    rw [logs_append, logs_log, joined_append, joined_singleton]

end Intact

theorem Settled.of_error {o : Outlet} {copyError : Option Err} (h : copyError ≠ none) : Settled o copyError :=
  fun _ hn => absurd hn h

theorem copyError_finish (x : Stream) (e : Err) (s : State) : (finish x (some e) s).copyError ≠ none := by
  unfold finish
  cases s.copyError <;> nofun

theorem forall_setOutlet {P : Stream → Outlet → Prop} {s : State} {x : Stream} {o : Outlet} (hx : P x o)
    (hy : ∀ y, y ≠ x → P y (s.outlet y)) (y : Stream) : P y ((s.setOutlet x o).outlet y) := by
  rw [setOutlet_outlet]
  split
  · rename_i h
    rw [h]
    exact hx
  · rename_i h
    exact hy y h

/-! ## One step -/

namespace State.Sound

variable {s s' : State} {l : Label} (h : s.Sound) (hq : s.Quiet) (hs : Moved s l s')

section Step
include h hq

theorem intact_step (hph : s.Phase) (hs : Moved s l s') : ∀ x, Intact x (s'.outlet x) s'.attempts := by
  have hrunning : s.main.Open → s.Running := fun ho => (State.phase_of_open ho).mp hph
  have hpub : ∀ {m : Feedback}, m.kind ≠ .log → ∀ r x, Intact x ((publish m r s).1.outlet x)
      (publish m r s).1.attempts := by
    intro m hm r x
    rw [(publish_same m r s).outlet]
    refine (h.intact x).publish (fun c he => hm ?_) r
    rw [he]
    rfl
  -- Another stream's log does not count.
  have hlog : ∀ {x : Stream} (c : Chunk) (r : Option Err) (y : Stream), y ≠ x →
      Intact y ((publish (.log x c) r s).1.outlet y) (publish (.log x c) r s).1.attempts := by
    intro x c r y hy
    rw [(publish_same (.log x c) r s).outlet]
    refine (h.intact y).publish (fun c' he => ?_) r
    obtain ⟨rfl, -⟩ := Feedback.log.inj he
    exact hy rfl
  cases hs with
  | cancel | propagate | unlaunched | tick | stopBeating | watchCancelled | watchDone | terminated | exit
  | expire | waited | drained | halted | conclude => exact h.intact
  | unannounced hm hr => exact hpub (by simp [Feedback.kind]) _
  | announced hm hr => exact hpub (by simp [Feedback.kind]) _
  | launched hm hw =>
    intro x
    exact ⟨(h.intact x).archived, (h.intact x).published, fun hc => absurd rfl hc⟩
  | beatFailed hh hr => exact hpub (by simp [Feedback.kind]) _
  | beat hh hr => exact hpub (by simp [Feedback.kind]) _
  | @emit x data hst hh =>
    refine forall_setOutlet (P := fun y o => Intact y o s.attempts) ?_ fun y _ => h.intact y
    refine ⟨fun he => ?_, (h.intact x).published, (h.intact x).idle⟩
    rw [← (h.intact x).archived he, List.append_assoc]
  | @close x hst =>
    exact forall_setOutlet (P := fun y o => Intact y o s.attempts)
      ⟨(h.intact x).archived, (h.intact x).published, (h.intact x).idle⟩ fun y _ => h.intact y
  | @copy x n written err hc ho =>
    have hother : ∀ y, y ≠ x → Intact y ((s.setOutlet x { s.outlet x with
        pending := (s.outlet x).pending.drop n }).outlet y) s.attempts := by
      intro y hy
      rw [setOutlet_outlet, if_neg hy]
      exact h.intact y
    rcases receive_cases x ((s.outlet x).pending.take n) written err
      (s.setOutlet x { s.outlet x with pending := (s.outlet x).pending.drop n }) with
      ⟨e, he, heq⟩ | ⟨-, e, heq⟩ | ⟨he, heq⟩ <;> rw [heq]
    · refine forall_setOutlet (P := fun y o => Intact y o s.attempts) ?_ hother
      rw [setOutlet_self] at he ⊢
      exact Intact.of_error (by rw [he]; simp) ho
    · refine forall_setOutlet (P := fun y o => Intact y o s.attempts) ?_ fun y hy => ?_
      · rw [setOutlet_self]
        exact Intact.of_error (by simp) (by simpa [setOutlet_self] using ho)
      · exact forall_setOutlet (P := fun y o => y ≠ x → Intact y o s.attempts)
          (fun hn => absurd rfl hn) (fun z _ hz => hother z hz) y hy
    · refine forall_setOutlet (P := fun y o => Intact y o s.attempts) ?_ hother
      rw [setOutlet_self] at he ⊢
      obtain ⟨h1, h2⟩ := write_eq_feedAll (s.outlet x).writer.buffer ((s.outlet x).pending.take n)
      refine ⟨fun _ => ?_, fun _ hp => ?_, fun hn => absurd hc hn⟩
      · rw [← (h.intact x).archived he]
        simp
      · have hpublished := (h.intact x).published he hp
        simp only [ho, joined_nil, List.append_nil] at hpublished
        simp only [h1, h2]
        rw [List.append_assoc, joined_feedAll, ← List.append_assoc, hpublished]
  | @send x r c rest hc ho =>
    have hopen : s.main.Open := by
      by_contra hn
      exact hq.copiers (fun hm => hn (by rw [hm]; trivial)) x hc
    refine forall_setOutlet (P := fun y o => Intact y o (publish (.log x c) r s).1.attempts) ?_ (hlog c r)
    rw [(publish_same (.log x c) r s).outlet]
    refine ⟨(h.intact x).archived, fun he hu => ?_, fun hn => absurd hc hn⟩
    obtain ⟨hu', hj⟩ := Intact.joined_publish (hrunning hopen) c r hu
    have hpublished := (h.intact x).published he hu'
    rw [ho] at hpublished
    rw [hj, ← hpublished]
    simp [joined]
  | @eof x hc ho hp hh =>
    exact forall_setOutlet (P := fun y o => Intact y o s.attempts)
      ⟨(h.intact x).archived, (h.intact x).published, fun _ => ho⟩ fun y _ => h.intact y
  | @closed x hc ho he =>
    exact forall_setOutlet (P := fun y o => Intact y o s.attempts)
      ⟨(h.intact x).archived, (h.intact x).published, fun _ => ho⟩ fun y _ => h.intact y
  | @flushedEmpty x r hm hb =>
    cases x
    · exact h.intact
    · exact h.intact
  | @flushed x r hm hb =>
    have hintact : ∀ y, Intact y (((publish (.log x ⟨(s.outlet x).writer.buffer.bytes, false⟩) r s).1.emptied
        x).outlet y) (publish (.log x ⟨(s.outlet x).writer.buffer.bytes, false⟩) r s).1.attempts := by
      refine forall_setOutlet (P := fun y o => Intact y o (publish (.log x ⟨(s.outlet x).writer.buffer.bytes,
        false⟩) r s).1.attempts) ?_ (hlog _ r)
      rw [(publish_same _ r s).outlet]
      have hidle : (s.outlet x).writer.outbox = [] := (h.intact x).idle (hq.copiers (by simp [hm]) x)
      refine ⟨(h.intact x).archived, fun he hu => ?_, fun _ => hidle⟩
      obtain ⟨hu', hj⟩ := Intact.joined_publish (hrunning (by rw [hm]; trivial)) _ r hu
      have hpublished := (h.intact x).published he hu'
      rw [hj, ← hpublished]
      simp [hidle, Chunk.bytes, Buffer.empty]
    cases x
    · exact hintact
    · exact hintact
  | report hm => exact hpub (by simp [Feedback.kind]) _

omit hq in
theorem settled_step (hs : Moved s l s') : ∀ x, Settled (s'.outlet x) s'.copyError := by
  have hpub : ∀ m r x, Settled ((publish m r s).1.outlet x) (publish m r s).1.copyError := by
    intro m r x
    rw [(publish_same m r s).outlet, (publish_same m r s).copyError]
    exact h.settled x
  cases hs with
  | cancel | propagate | unlaunched | tick | stopBeating | watchCancelled | watchDone | terminated | exit
  | expire | waited | drained | halted | conclude => exact h.settled
  | unannounced hm hr => exact hpub _ _
  | announced hm hr => exact hpub _ _
  | launched hm hw => exact fun x hf => by contradiction
  | beatFailed hh hr => exact hpub _ _
  | beat hh hr => exact hpub _ _
  | @emit x data hst hh =>
    refine forall_setOutlet (P := fun _ o => Settled o s.copyError) (fun hf hn => ?_) fun y _ => h.settled y
    have hheld := (h.settled x hf hn).2
    rw [hh] at hheld
    contradiction
  | @close x hst =>
    exact forall_setOutlet (P := fun _ o => Settled o s.copyError)
      (fun hf hn => ⟨(h.settled x hf hn).1, rfl⟩) fun y _ => h.settled y
  | @copy x n written err hc ho =>
    rcases receive_cases x ((s.outlet x).pending.take n) written err
      (s.setOutlet x { s.outlet x with pending := (s.outlet x).pending.drop n }) with
      ⟨e, -, heq⟩ | ⟨-, e, heq⟩ | ⟨-, heq⟩ <;> rw [heq]
    · exact fun y => Settled.of_error (copyError_finish _ _ _)
    · exact fun y => Settled.of_error (copyError_finish _ _ _)
    · refine forall_setOutlet (P := fun _ o => Settled o s.copyError) (fun hf => ?_) ?_
      · rw [setOutlet_self] at hf
        exact absurd (hf.symm.trans hc) (by decide)
      · intro y hy
        rw [setOutlet_outlet, if_neg hy]
        exact h.settled y
  | @send x r c rest hc ho =>
    exact forall_setOutlet (P := fun _ o => Settled o (publish (.log x c) r s).1.copyError)
      (hpub (.log x c) r x) fun y _ => hpub (.log x c) r y
  | @eof x hc ho hp hh =>
    have hcopy : (finish x none s).copyError = s.copyError := by
      unfold finish
      cases s.copyError <;> rfl
    rw [hcopy]
    exact forall_setOutlet (P := fun _ o => Settled o s.copyError) (fun _ _ => ⟨hp, hh⟩) fun y _ => h.settled y
  | closed hc ho he => exact fun y => Settled.of_error (copyError_finish _ _ _)
  | @flushedEmpty x r hm hb =>
    cases x
    · exact h.settled
    · exact h.settled
  | @flushed x r hm hb =>
    have hsettled := forall_setOutlet (P := fun _ o => Settled o
      (publish (.log x ⟨(s.outlet x).writer.buffer.bytes, false⟩) r s).1.copyError) (x := x)
      (o := { (publish (.log x ⟨(s.outlet x).writer.buffer.bytes, false⟩) r s).1.outlet x with
        writer := { ((publish (.log x ⟨(s.outlet x).writer.buffer.bytes, false⟩) r s).1.outlet x).writer with
          buffer := Buffer.empty } }) (hpub _ _ x) fun y _ => hpub _ _ y
    cases x
    · exact hsettled
    · exact hsettled
  | report hm => exact hpub _ _

theorem flushed_step (hs : Moved s l s') :
    ∀ x, s'.main.Flushed x → (s'.outlet x).writer.buffer.bytes = [] := by
  have hpub : ∀ m r x, (publish m r s).1.main.Flushed x →
      ((publish m r s).1.outlet x).writer.buffer.bytes = [] := by
    intro m r x
    rw [(publish_same m r s).outlet, (publish_same m r s).main]
    exact h.flushed x
  have hwaiting : ∀ {x}, (s.outlet x).copier = .running → s.main = .waiting := by
    intro x hc
    by_contra hw
    exact hq.copiers hw x hc
  cases hs with
  | cancel | propagate | tick | stopBeating | watchCancelled | watchDone | terminated | exit | expire =>
    exact h.flushed
  | unlaunched hm hr => exact fun _ hf => hf.elim
  | announced hm hr => exact fun _ hf => hf.elim
  | launched hm hw => exact fun _ hf => hf.elim
  | waited hm hl hc => exact fun _ hf => hf.elim
  | drained hm hw => exact fun _ hf => hf.elim
  | @unannounced r e hm hr =>
    exact fun x _ => hpub _ r x (by rw [(publish_same _ r s).main, hm]; trivial)
  | beatFailed hh hr => exact hpub _ _
  | beat hh hr => exact hpub _ _
  | @emit x data hst hh =>
    exact forall_setOutlet (P := fun y o => s.main.Flushed y → o.writer.buffer.bytes = []) (h.flushed x)
      fun y _ => h.flushed y
  | @close x hst =>
    exact forall_setOutlet (P := fun y o => s.main.Flushed y → o.writer.buffer.bytes = []) (h.flushed x)
      fun y _ => h.flushed y
  | @copy x n written err hc ho =>
    have hmain : (receive x ((s.outlet x).pending.take n) written err
        (s.setOutlet x { s.outlet x with pending := (s.outlet x).pending.drop n })).main = .waiting :=
      (aside_receive _ _ _).main.trans (hwaiting hc)
    intro y hf
    rw [hmain] at hf
    exact hf.elim
  | @send x r c rest hc ho =>
    have hmain : ((publish (.log x c) r s).1.popped x rest).main = .waiting :=
      (publish_same (.log x c) r s).main.trans (hwaiting hc)
    intro y hf
    rw [hmain] at hf
    exact hf.elim
  | @eof x hc ho hp hh =>
    intro y hf
    rw [(aside_finish _).main, hwaiting hc] at hf
    exact hf.elim
  | @closed x hc ho he =>
    intro y hf
    rw [(aside_finish _).main, hwaiting hc] at hf
    exact hf.elim
  | @flushedEmpty x r hm hb =>
    cases x with
    | stdout =>
      intro y hf
      obtain rfl : y = .stdout := hf
      exact hb
    | stderr =>
      intro y _
      cases y with
      | stdout => exact h.flushed .stdout (by rw [hm]; rfl)
      | stderr => exact hb
  | @flushed x r hm hb =>
    have hempty := fun y => forall_setOutlet (P := fun y o => y = x ∨ s.main.Flushed y → o.writer.buffer.bytes = [])
      (s := (publish (.log x ⟨(s.outlet x).writer.buffer.bytes, false⟩) r s).1) (x := x)
      (o := { (publish (.log x ⟨(s.outlet x).writer.buffer.bytes, false⟩) r s).1.outlet x with
        writer := { ((publish (.log x ⟨(s.outlet x).writer.buffer.bytes, false⟩) r s).1.outlet x).writer with
          buffer := Buffer.empty } }) (fun _ => rfl) (fun z hz hor => ?_) y
    · cases x with
      | stdout =>
        intro y hf
        exact hempty y (Or.inl hf)
      | stderr =>
        intro y _
        refine hempty y ?_
        rw [hm]
        cases y with
        | stdout => exact Or.inr rfl
        | stderr => exact Or.inl rfl
    · rw [(publish_same _ r s).outlet]
      exact h.flushed z (hor.resolve_left hz)
  | halted hm hh => exact fun x _ => h.flushed x (by rw [hm]; trivial)
  | conclude hm => exact fun x _ => h.flushed x (by rw [hm]; trivial)
  | report hm => exact fun x _ => hpub _ _ x (by rw [(publish_same _ _ s).main, hm]; trivial)

omit hq in
theorem early_step (hs : Moved s l s') : s'.main.Early → s'.processDone = false := by
  have hpub : ∀ m r, (publish m r s).1.main.Early → (publish m r s).1.processDone = false := by
    intro m r
    rw [(publish_same m r s).processDone, (publish_same m r s).main]
    exact h.early
  cases hs with
  | cancel | propagate | tick | stopBeating | watchCancelled | watchDone | terminated | exit | expire
  | emit | close | eof | closed => exact h.early
  | unannounced hm hr => exact False.elim
  | announced hm hr => exact fun _ => hpub _ _ (by rw [(publish_same _ _ s).main, hm]; trivial)
  | unlaunched hm hr => exact False.elim
  | launched hm hw => exact fun _ => h.early (by rw [hm]; trivial)
  | beatFailed hh hr => exact hpub _ _
  | beat hh hr => exact hpub _ _
  | copy hc ho =>
    intro hearly
    rw [(aside_receive _ _ _).main] at hearly
    rw [(aside_receive _ _ _).processDone]
    exact h.early hearly
  | send hc ho => exact hpub _ _
  | waited hm hl hc => exact False.elim
  | drained hm hw => exact False.elim
  | @flushedEmpty x r hm hb =>
    cases x
    · exact False.elim
    · exact False.elim
  | @flushed x r hm hb =>
    cases x
    · exact False.elim
    · exact False.elim
  | halted hm hh => exact False.elim
  | conclude hm => exact False.elim
  | report hm =>
    unfold outcome
    intro hearly
    split at hearly
    · exact hearly.elim
    · split at hearly
      · exact hearly.elim
      · exact hearly.elim

theorem complete_step (hs : Moved s l s') :
    s'.processDone = true → s'.runError = none → s'.Copied ∧ s'.copyError = none := by
  have hpub : ∀ m r, (publish m r s).1.processDone = true → (publish m r s).1.runError = none →
      (publish m r s).1.Copied ∧ (publish m r s).1.copyError = none := by
    intro m r
    have hsame := publish_same m r s
    unfold State.Copied
    rw [hsame.processDone, hsame.runError, hsame.copyError, hsame.outlet]
    exact h.complete
  have hcopied : ∀ {u : State} (x : Stream) (o : Outlet), u.Copied → o.copier = (u.outlet x).copier →
      (u.setOutlet x o).Copied := by
    intro u x o hu ho
    unfold State.Copied at *
    cases x
    · exact ⟨by simp [setOutlet_outlet, ho, hu.1], by simp [setOutlet_outlet, hu.2]⟩
    · exact ⟨by simp [setOutlet_outlet, hu.1], by simp [setOutlet_outlet, ho, hu.2]⟩
  -- While a copy goroutine runs, the workload is not waited for.
  have hcopying : ∀ {x}, (s.outlet x).copier = .running → s.processDone = false := by
    intro x hc
    apply h.early
    by_contra hw
    exact hq.copiers (fun hm => hw (by rw [hm]; trivial)) x hc
  have habsurd : s.processDone = false → s'.processDone = s.processDone → s'.processDone = true →
      s'.runError = none → s'.Copied ∧ s'.copyError = none := by
    intro hf heq ht
    rw [heq, hf] at ht
    contradiction
  cases hs with
  | cancel | propagate | tick | stopBeating | watchCancelled | watchDone | terminated | exit | expire
  | drained | halted | conclude => exact h.complete
  | unannounced hm hr => exact hpub _ _
  | announced hm hr => exact hpub _ _
  | unlaunched hm hr => exact fun _ hn => by contradiction
  | launched hm hw => exact habsurd (h.early (by rw [hm]; trivial)) rfl
  | beatFailed hh hr => exact hpub _ _
  | beat hh hr => exact hpub _ _
  | emit hst hh => exact fun hp hn => ⟨hcopied _ _ (h.complete hp hn).1 rfl, (h.complete hp hn).2⟩
  | close hst => exact fun hp hn => ⟨hcopied _ _ (h.complete hp hn).1 rfl, (h.complete hp hn).2⟩
  | copy hc ho => exact habsurd (hcopying hc) (aside_receive _ _ _).processDone
  | send hc ho => exact habsurd (hcopying hc) (publish_same _ _ s).processDone
  | eof hc ho hp hh => exact habsurd (hcopying hc) rfl
  | closed hc ho he => exact habsurd (hcopying hc) rfl
  | @waited status hm hl hc =>
    refine fun _ hn => ⟨hc, ?_⟩
    change waitResult status s = none at hn
    unfold waitResult at hn
    split at hn
    · split_ifs at hn
      exact Option.map_eq_none_iff.mp hn
    · contradiction
    · contradiction
  | @flushedEmpty x r hm hb =>
    cases x
    · exact h.complete
    · exact h.complete
  | @flushed x r hm hb =>
    have hdone : (publish (.log x ⟨(s.outlet x).writer.buffer.bytes, false⟩) r s).1.processDone = true →
        (publish (.log x ⟨(s.outlet x).writer.buffer.bytes, false⟩) r s).1.runError = none →
        ((publish (.log x ⟨(s.outlet x).writer.buffer.bytes, false⟩) r s).1.emptied x).Copied ∧
          (publish (.log x ⟨(s.outlet x).writer.buffer.bytes, false⟩) r s).1.copyError = none :=
      fun hp hn => ⟨hcopied _ _ (hpub _ _ hp hn).1 rfl, (hpub _ _ hp hn).2⟩
    cases x
    · exact hdone
    · exact hdone
  | report hm => exact hpub _ _

end Step

theorem step (h : s.Sound) (hq : s.Quiet) (hph : s.Phase) (hs : Moved s l s') : s'.Sound :=
  ⟨h.intact_step hq hph hs, h.settled_step hs, h.flushed_step hq hs, h.complete_step hq hs, h.early_step hs⟩

theorem initial : State.Sound {} := by
  refine ⟨fun x => ⟨fun _ => rfl, fun _ _ => rfl, fun _ => rfl⟩, fun x hf => ?_, fun _ _ => rfl, ?_, fun _ => rfl⟩
  · contradiction
  · intro hp
    contradiction

end State.Sound

/-! ## Runs -/

section Runs

variable {s : State} {ls : List Label}

theorem State.sound {ok : State → Label → Prop} (hrun : Run Steps ok {} ls s) : s.Phase ∧ s.Sound := by
  have hinv : (s.Phase ∧ s.Quiet) ∧ s.Sound := by
    refine hrun.invariant (I := fun s => (s.Phase ∧ s.Quiet) ∧ s.Sound)
      ⟨⟨State.phase_initial, State.quiet_initial⟩, State.Sound.initial⟩ ?_
    intro s l s' ⟨⟨hph, hq⟩, h⟩ _ hs
    exact ⟨⟨hph.step hq hs.moved, hq.step hs.moved⟩, h.step hq hph hs.moved⟩
  exact ⟨hinv.1.1, hinv.2⟩

theorem verdict_finished {cancelled outputFailed feedbackFailed : Bool} {e : Option RunError} :
    (verdict cancelled e outputFailed feedbackFailed).2 = "finished" ↔
      feedbackFailed = false ∧ outputFailed = false ∧ cancelled = false ∧ e = none := by
  have herror : ∀ t, "error:workload exited with code " ++ t ≠ "finished" := by
    intro t h
    have hl := congrArg String.toList h
    simp at hl
  unfold verdict
  cases feedbackFailed <;> cases outputFailed <;> cases cancelled <;> cases e <;> simp [herror]

/-- Who has published `finished` is at the end of a run in which nothing failed. -/
theorem State.Phase.finished (h : s.Phase) {r : Option Err} (hr : ⟨.status "finished", r⟩ ∈ s.attempts) :
    ∃ code err rest failure chosen, s.main = .returned code err ∧
      s.Report code rest failure chosen "finished" r := by
  have hrunning : ¬ s.Running := by
    rintro ⟨rest, hrest, hf⟩
    rw [hrest] at hr
    rcases List.mem_cons.mp hr with heq | hmem
    · simp at heq
    · exact hf.kinds _ hmem rfl
  unfold State.Phase at h
  cases hm : s.main with
  | announcing =>
    rw [hm] at h
    rw [h.1] at hr
    simp at hr
  | reporting code status failure =>
    rw [hm] at h
    exact absurd h.1 hrunning
  | launching | waiting | draining | flushing x | halting | concluding =>
    rw [hm] at h
    exact absurd h hrunning
  | returned code err =>
    rw [hm] at h
    rcases h with h | ⟨rest, failure, chosen, status, r', h⟩
    · obtain ⟨e, he⟩ := h.attempts
      rw [he] at hr
      simp at hr
    · have hatt := h.attempts
      rw [hatt] at hr
      rcases List.mem_cons.mp hr with heq | hmem
      · simp at heq
      · rcases List.mem_append.mp hmem with hmem | hmem
        · exact absurd rfl (h.fed.kinds _ hmem)
        · obtain ⟨rfl, rfl⟩ : "finished" = status ∧ r = r' := by simpa using hmem
          exact ⟨code, err, rest, failure, chosen, rfl, h⟩

/-- Before `finished` nothing has failed. -/
theorem attempts_of_finished (hrun : Run Steps (fun _ _ => True) {} ls s) {r : Option Err}
    (hr : ⟨.status "finished", r⟩ ∈ s.attempts) :
    ∃ rest, s.attempts = ⟨.status "running", none⟩ :: (rest ++ [⟨.status "finished", r⟩]) ∧
      ∀ a ∈ rest, a.error = none := by
  obtain ⟨code, err, rest, failure, chosen, hm, hreport⟩ := (State.reachable hrun).1.finished hr
  obtain ⟨-, b, -, hv⟩ := hreport.decided
  obtain ⟨hfb, -⟩ := verdict_finished.mp (congrArg Prod.snd hv).symm
  have hnone : failure = none := by simpa using hfb
  rw [hnone] at hreport
  exact ⟨rest, hreport.attempts, hreport.fed.all_succeeded⟩

theorem unfailed_of_finished (hrun : Run Steps (fun _ _ => True) {} ls s) {r : Option Err}
    (hr : ⟨.status "finished", r⟩ ∈ s.attempts) : Unfailed s.attempts := by
  obtain ⟨rest, hattempts, hall⟩ := attempts_of_finished hrun hr
  intro a ha hk
  rw [hattempts] at ha
  rcases List.mem_cons.mp ha with rfl | ha
  · rfl
  · rcases List.mem_append.mp ha with ha | ha
    · exact hall a ha
    · rw [List.mem_singleton.mp ha] at hk
      exact absurd rfl hk

/-- Once `finished` has been published, a stream is archived and its logs are complete. -/
theorem joined_of_finished (hrun : Run Steps (fun _ _ => True) {} ls s) {r : Option Err}
    (hr : ⟨.status "finished", r⟩ ∈ s.attempts) (x : Stream) :
    (s.outlet x).writer.archive = (s.outlet x).written ∧ joined (logs x s.attempts) = (s.outlet x).written := by
  have hu := unfailed_of_finished hrun hr
  obtain ⟨hph, hsound⟩ := State.sound hrun
  obtain ⟨code, err, rest, failure, chosen, hm, hreport⟩ := hph.finished hr
  obtain ⟨hdone, b, -, hv⟩ := hreport.decided
  obtain ⟨-, hout, -, hrun⟩ := verdict_finished.mp (congrArg Prod.snd hv).symm
  obtain ⟨hcopied, hcopy⟩ := hsound.complete (hdone hrun) hrun
  have herr : (s.outlet x).writer.err = none := by
    unfold State.outputFailed at hout
    cases x <;> simp_all
  have hfin : (s.outlet x).copier = .finished := by
    cases x
    · exact hcopied.1
    · exact hcopied.2
  have harch := (hsound.intact x).archived herr
  have hpub := (hsound.intact x).published herr hu
  have hbuf := hsound.flushed x (by rw [hm]; trivial)
  have hidle := (hsound.intact x).idle (by rw [hfin]; nofun)
  obtain ⟨hpend, -⟩ := hsound.settled x hfin hcopy
  rw [hpend, List.append_nil] at harch
  rw [hidle, hbuf, joined_nil, List.append_nil, List.append_nil] at hpub
  exact ⟨harch, hpub.trans harch⟩

/-- **A run that publishes `finished` has lost nothing.**  For each stream, what was archived is what the
processes wrote, and so is what the log messages stand for; every one of them was published. -/
theorem output_integrity (hrun : Run Steps (fun _ _ => True) {} ls s) {r : Option Err}
    (hr : ⟨.status "finished", r⟩ ∈ s.attempts) :
    ∃ rest, s.attempts = ⟨.status "running", none⟩ :: (rest ++ [⟨.status "finished", r⟩]) ∧
      (∀ a ∈ rest, a.error = none) ∧
      ∀ x, (s.outlet x).writer.archive = (s.outlet x).written ∧ joined (logs x rest) = (s.outlet x).written := by
  obtain ⟨rest, hattempts, hall⟩ := attempts_of_finished hrun hr
  refine ⟨rest, hattempts, hall, fun x => ?_⟩
  have hlogs : logs x s.attempts = logs x rest := by
    rw [hattempts, ← List.singleton_append, logs_append, logs_append, logs_other (by nofun), logs_other (by nofun),
      List.nil_append, List.append_nil]
  rw [← hlogs]
  exact joined_of_finished hrun hr x

/-- Two outputs, the first in two pieces and without a newline at its end. -/
theorem output_integrity_of_two_streams : ∃ s : State, ∃ ls rest,
    Run Steps (fun _ _ => True) {} ls s ∧
    s.attempts = ⟨.status "running", none⟩ :: (rest ++ [⟨.status "finished", none⟩]) ∧
    (∀ x, joined (logs x rest) = (s.outlet x).written) ∧
    (s.outlet .stdout).written = [104, 10, 105] ∧ (s.outlet .stderr).written = [33, 10] := by
  have hex : ∃ s : State, Run Steps (fun _ _ => True) {}
      [.announce none, .launch none, .beat 1 none, .emit .stdout [104, 10], .emit .stderr [33, 10],
        .copy .stdout 1 1 none, .copy .stderr 2 2 none, .send .stderr none, .copy .stdout 1 1 none,
        .emit .stdout [105], .send .stdout none, .copy .stdout 1 1 none, .exit (.exited 0), .close .stdout,
        .close .stderr, .eof .stdout, .eof .stderr, .waited, .watch, .drained, .flush none, .flush none,
        .stopBeating, .halted, .conclude, .report none] s ∧
      ⟨.status "finished", none⟩ ∈ s.attempts ∧
      (s.outlet .stdout).written = [104, 10, 105] ∧ (s.outlet .stderr).written = [33, 10] :=
    Run.of_evaluated (fun _ _ _ => id) (by decide +kernel)
  obtain ⟨s, hrun, hmem, hout, herr⟩ := hex
  obtain ⟨rest, hatt, -, hx⟩ := output_integrity hrun hmem
  exact ⟨s, _, rest, hrun, hatt, fun x => (hx x).2, hout, herr⟩

end Runs

end SlurmManager.Worker
