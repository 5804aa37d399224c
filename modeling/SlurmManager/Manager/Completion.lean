import SlurmManager.Manager.SchedulerCheck
import SlurmManager.Worker.Phases

/-!
# Completion — the worker's last status and the scheduler's record agree

The end of a job reaches the manager on two ways: the terminal status that the worker publishes, and the
record that the scheduler keeps of a process that exited with the worker's code.

* `Recorded`: what is assumed of the scheduler.
* `finished_iff_code_zero`: status and code of a run.
* `channels_agree`: whatever arrives first, the future succeeds exactly if the code is 0.
-/

namespace SlurmManager

open Program JobTracker

/-! ## The worker's side -/

namespace Worker

theorem verdict_code_pos {e : RunError} : e.code ≠ 0 := by
  cases e with
  | exit code =>
    show (if 0 < code then code else 1) ≠ 0
    split_ifs
    · omega
    · decide
  | signaled signal => exact Nat.one_ne_zero
  | other text => exact Nat.one_ne_zero

/-- The statuses that may come last, with their codes. -/
inductive Chosen : ℕ → String → Prop
  | finished : Chosen 0 JobStatus.finished.value
  | cancelled : Chosen 143 JobStatus.cancelled.value
  | error {code : ℕ} (h : code ≠ 0) (text : String) : Chosen code ("error:" ++ text)

theorem chosen_verdict (cancelled : Bool) (runError : Option RunError) (out fed : Bool) :
    Chosen (verdict cancelled runError out fed).1 (verdict cancelled runError out fed).2 := by
  unfold verdict
  split_ifs
  · exact Chosen.error (by decide) "Redis feedback failed"
  · exact Chosen.error (by decide) "Slurm output write failed"
  · exact Chosen.cancelled
  · cases runError with
    | none => exact Chosen.finished
    | some e =>
      have hs : "error:workload exited with code " ++ toString e.code =
          "error:" ++ ("workload exited with code " ++ toString e.code) := by
        rw [← String.append_assoc]
        rfl
      simp only [hs]
      exact Chosen.error verdict_code_pos _

/-- A run whose last status was published has returned the code that goes with it. -/
theorem State.Phase.chosen {s : State} (h : s.Phase) {c : ℕ} {err : Option Err} (hmain : s.main = .returned c err)
    {text : String} (hlast : s.attempts.getLast? = some ⟨.status text, none⟩) : Chosen c text := by
  unfold State.Phase at h
  rw [hmain] at h
  rcases h with h | ⟨rest, failure, chosen, status, r, h⟩
  · obtain ⟨e, he⟩ := h.attempts
    rw [he] at hlast
    simp at hlast
  · rw [h.attempts, ← List.cons_append, List.getLast?_concat] at hlast
    obtain ⟨rfl, rfl⟩ : status = text ∧ r = none := by simpa using hlast
    obtain ⟨-, b, -, hv⟩ := h.decided
    have hc : c = chosen := by
      rw [h.code]
      simp
    rw [hc, show chosen = _ from congrArg Prod.fst hv, show status = _ from congrArg Prod.snd hv]
    exact chosen_verdict _ _ _ _

/-- The manager reads a success from the status exactly if the code is 0. -/
theorem Chosen.decoded_iff {c : ℕ} {text : String} (h : Chosen c text) (rt : Runtime) {m : StatusMessage}
    (hm : m.status = text) : decoded rt m = .finished ↔ c = 0 := by
  cases h with
  | finished => simp [decoded_value rt hm]
  | cancelled => simp [decoded_value rt hm]
  | error hc text => simp [decoded_error rt hm, hc]

end Worker

/-! ## The scheduler's side -/

/-- A return code of `c`: plain, or optional and set. -/
inductive ReturnCode (c : ℕ) : Json → Prop
  | plain : ReturnCode c (.int c)
  | optional {fields : Object} (hset : (Object.get fields "set").truthy = true)
      (hnumber : Object.get fields "number" = .int c) : ReturnCode c (.object fields)

/-- The exit status names no signal. -/
def Unsignalled (fields : Object) : Prop :=
  ∃ sig, Object.get fields "signal" (.object []) = .object sig ∧
    (Object.get sig "id" (.object []) = .int 0 ∨
      ∃ id, Object.get sig "id" (.object []) = .object id ∧ (Object.get id "set").truthy = false)

/-- The exit status of a process that exited with `c`. -/
inductive ExitedWith (c : ℕ) : Json → Prop
  | plain : ExitedWith c (.int c)
  | structured {fields : Object} (hcode : ReturnCode c (Object.get fields "return_code"))
      (hsignal : Unsignalled fields) : ExitedWith c (.object fields)

/-- The record that the scheduler keeps of a process that exited with `c`.  Its states are texts; it shows
`COMPLETED` with exit code 0, or, for another code, `COMPLETED` with that code or another terminal state. -/
structure Recorded (c : ℕ) (record : Object) : Prop where
  states : ∀ items, stateValue record = .array items → ∀ v ∈ items, ∃ text, v = .string text
  ended : (Shows record "COMPLETED" ∧ ExitedWith c (Object.get record "exit_code")) ∨
    (c ≠ 0 ∧ ∃ state, Shows record state ∧ state ≠ "COMPLETED")

section Record

variable {c : ℕ} {record : Object} {str : Json → String}

theorem ExitedWith.returnCode {e : Json} (h : ExitedWith c e) : returnCode e = .int c := by
  cases h with
  | plain => rfl
  | @structured fields hcode hsignal =>
    unfold SlurmManager.returnCode
    dsimp only
    generalize Object.get fields "return_code" = v at hcode
    cases hcode with
    | plain => rfl
    | optional hset hnumber => simp [hset, hnumber]

theorem ExitedWith.decoded {e : Json} (h : ExitedWith c e) : jobExitCode str e = .ok (.int c) := by
  have hreturn := h.returnCode
  cases h with
  | plain => rfl
  | @structured fields hcode hsignal =>
    obtain ⟨sig, hsig, hid⟩ := hsignal
    have hnone : signal fields = .ok (.int 0) := by
      unfold signal
      rw [hsig]
      rcases hid with hid | ⟨id, hid, hset⟩
      · simp [Json.get, hid]
      · simp [Json.get, hid, hset]
    simp [jobExitCode, hnone, hreturn, Json.truthy]

/-- A record of a completed job can be walked through. -/
theorem Recorded.walkable (h : Recorded c record) (hshow : Shows record "COMPLETED")
    (he : ExitedWith c (Object.get record "exit_code")) : Walkable record := by
  obtain ⟨items, hi, -⟩ := hshow
  refine ⟨states_ok_iff.mp ⟨items, hi⟩, fun items hi => scannable_of_strings (h.states items hi), ?_⟩
  rintro state -
  exact (jobExitCode_ok_iff fun _ => "").mp ⟨_, he.decoded⟩

/-- **A check reads a success from the record exactly if the code is 0.** -/
theorem Recorded.decoded_iff (h : Recorded c record) (str : Json → String) (rt : Runtime) :
    (∃ status, resolve str record = .ok (some status) ∧ decoded rt { status := status } = .finished) ↔ c = 0 := by
  constructor
  · rintro ⟨status, hr, hd⟩
    have hp := (resolve_sound hr).proves rt
    rw [hd] at hp
    cases hp with
    | finished hp =>
      obtain ⟨hshow, hz, -⟩ := hp
      rcases h.ended with ⟨-, he⟩ | ⟨-, state, hstate, hne⟩
      · rw [he.returnCode] at hz
        simpa [Json.isZero, Json.equals] using hz
      · exact absurd (hstate.unique hshow) hne
  · rintro rfl
    obtain ⟨hshow, he⟩ := h.ended.resolve_right fun h => h.1 rfl
    obtain ⟨r, hr⟩ := (resolve_ok_iff str record).mpr (h.walkable hshow he)
    have hcode : ∀ e, jobExitCode str (Object.get record "exit_code") = .ok e → e = .int 0 := fun e he' =>
      (Except.ok.inj (he'.symm.trans he.decoded))
    cases resolve_sound hr with
    | success => exact ⟨_, hr, decoded_value rt rfl⟩
    | cancelled hc => exact absurd (hc.unique hshow) (by decide)
    | failure text hf =>
      rcases hf with ⟨state, hs, hne, -⟩ | ⟨-, e, he', -, hz⟩
      · exact absurd (hs.unique hshow) hne
      · rw [hcode e he'] at hz
        contradiction
    | nothing hn =>
      rcases hn with hn | ⟨-, e, he', hz⟩
      · exact absurd hshow (hn _)
      · rw [hcode e he'] at hz
        contradiction

end Record

/-! ## Both channels -/

section Channels

variable {ρ : Type}

/-- What arrives about a job: a status message, a whole check, or the end of a check begun earlier. -/
inductive Arrival
  | message (rt : Runtime) (m : StatusMessage)
  | check (rt : Runtime)
  | resolve (rt : Runtime) (record : Object)

/-- What an arrival does. -/
def arrive (str : Json → String) (client : RestClient ρ) (jobId : String) (f : FutureRef) (m : Managed ρ) :
    Arrival → Managed ρ
  | .message rt message => { m with tracker := (applyStatus rt message f).after m.tracker }
  | .check rt => (checkSlurmJob rt str client jobId).after m
  | .resolve rt record => { m with tracker := (applyRecord rt str f record).after m.tracker }

/-- The arrivals about a run that published `text` last and exited with `c`. -/
def Concerns (client : RestClient ρ) (c : ℕ) (text : String) (f : FutureRef) (m : Managed ρ) : Arrival → Prop
  | .message _ message => message.status = "running" ∨ message.status = text
  | .check _ => ∃ record r, (consult client (m.tracker.futures f).slurmJobId).exec m.rest = (.ok (some record), r) ∧
      Recorded c record
  | .resolve _ record => Recorded c record

/-- The arrival tells the end of the job. -/
def Arrival.Final (text : String) : Arrival → Prop
  | .message _ m => m.status = text
  | _ => True

section Futures

variable {t : JobTracker} {f : FutureRef} (rt : Runtime)

/-- A status decides the success of a future that is not done. -/
theorem success_applyStatus (m : StatusMessage) (hd : (t.futures f).done = false) :
    (((applyStatus rt m f).after t).futures f).success = decide (decoded rt m = .finished) := by
  rw [futures_applyStatus rt m hd, accept_futures_self, JobFuture.success_updateStatus _ _ hd]

theorem applyStatus_done (m : StatusMessage) (hd : (t.futures f).done = true) : (applyStatus rt m f).after t = t := by
  rw [after, exec_applyStatus_done rt m f hd]

theorem futures_applyStatus_ne (m : StatusMessage) {g : FutureRef} (hg : g ≠ f) :
    ((applyStatus rt m f).after t).futures g = t.futures g := by
  by_cases hd : (t.futures f).done = true
  · rw [applyStatus_done rt m hd]
  · rw [futures_applyStatus rt m (by simpa using hd), accept_futures_ne rt m f hg]

variable (str : Json → String)

/-- The end of a check is a status or nothing. -/
theorem after_applyRecord (f : FutureRef) (record : Object) :
    (applyRecord rt str f record).after t = t ∨ ∃ status, resolve str record = .ok (some status) ∧
      (applyRecord rt str f record).after t = (applyStatus rt { status := status } f).after t := by
  unfold applyRecord
  cases resolve str record with
  | error e => exact Or.inl rfl
  | ok status? =>
    cases status? with
    | none => exact Or.inl rfl
    | some status => exact Or.inr ⟨status, rfl, rfl⟩

theorem success_applyRecord {c : ℕ} {record : Object} (hr : Recorded c record) (hd : (t.futures f).done = false) :
    (((applyRecord rt str f record).after t).futures f).success = true ↔ c = 0 := by
  rw [← hr.decoded_iff str rt]
  have hs : (t.futures f).success = false := by
    rw [JobFuture.success_eq_done_and, hd]
    rfl
  rcases h : resolve str record with e | (_ | status)
  · simp [applyRecord, h, after, hs]
  · simp [applyRecord, h, after, hs]
  · simp [applyRecord, h, success_applyStatus rt _ hd]

/-- A check leaves a stamp, or ends with the record that the queries gave. -/
theorem after_checkSlurmJob (client : RestClient ρ) (j : String) (m : Managed ρ) :
    ((checkSlurmJob rt str client j).after m).tracker = m.tracker ∨
      ∃ g, m.tracker.Active j g ∧ (((checkSlurmJob rt str client j).after m).tracker = m.tracker.checked rt j ∨
        ∃ record r, (consult client (m.tracker.futures g).slurmJobId).exec m.rest = (.ok (some record), r) ∧
          ((checkSlurmJob rt str client j).after m).tracker =
            (applyRecord rt str g record).after (m.tracker.checked rt j)) := by
  by_cases hactive : ∃ g, m.tracker.Active j g
  · obtain ⟨g, hg⟩ := hactive
    refine Or.inr ⟨g, hg, ?_⟩
    unfold after
    rw [exec_checkSlurmJob_active rt str hg, exec_checkRecord]
    rcases hc : (consult client (m.tracker.futures g).slurmJobId).exec m.rest with ⟨e, r⟩
    have hc' : (consult client ((m.tracker.checked rt j).futures g).slurmJobId).exec m.rest = _ := hc
    simp only [hc']
    rcases e with e | (_ | record)
    · exact Or.inl rfl
    · exact Or.inl rfl
    · exact Or.inr ⟨record, r, rfl, rfl⟩
  · push Not at hactive
    refine Or.inl ?_
    rw [after, exec_checkSlurmJob_inactive rt str hactive]

end Futures

section Step

variable {str : Json → String} {client : RestClient ρ} {j : String} {f : FutureRef} {c : ℕ} {text : String}
  {m : Managed ρ} {a : Arrival}

/-- What has been told once stays. -/
theorem done_arrive (hd : (m.tracker.futures f).done = true) :
    (arrive str client j f m a).tracker.futures f = m.tracker.futures f := by
  have hrecord : ∀ (rt : Runtime) record, (applyRecord rt str f record).after m.tracker = m.tracker := by
    intro rt record
    rcases after_applyRecord rt str f record with h | ⟨status, -, h⟩
    · exact h
    · exact h.trans (applyStatus_done rt _ hd)
  cases a with
  | message rt message => exact congrArg (fun t => t.futures f) (applyStatus_done rt message hd)
  | resolve rt record => exact congrArg (fun t => t.futures f) (hrecord rt record)
  | check rt =>
    show ((checkSlurmJob rt str client j).after m).tracker.futures f = _
    rcases after_checkSlurmJob rt str client j m with h | ⟨g, hg, h | ⟨record, r, -, h⟩⟩
    · rw [h]
    · rw [h]
      rfl
    · have hne : f ≠ g := by
        rintro rfl
        rw [hg.2] at hd
        contradiction
      rw [h]
      rcases after_applyRecord (t := m.tracker.checked rt j) rt str g record with h | ⟨status, -, h⟩
      · rw [h]
        rfl
      · rw [h, futures_applyStatus_ne rt _ hne]
        rfl

variable (ht : Worker.Chosen c text) (hok : Concerns client c text f m a)
include ht hok

/-- An arrival makes a future succeed only if the code is 0. -/
theorem success_arrive (hd : (m.tracker.futures f).done = false)
    (hs : ((arrive str client j f m a).tracker.futures f).success = true) : c = 0 := by
  have hno : (m.tracker.futures f).success = false := by
    rw [JobFuture.success_eq_done_and, hd]
    rfl
  cases a with
  | message rt message =>
    have hdec := (success_applyStatus rt message hd).symm.trans hs
    rw [decide_eq_true_iff] at hdec
    rcases hok with hrunning | htext
    · rw [show decoded rt message = .running from decoded_value rt hrunning] at hdec
      contradiction
    · exact (ht.decoded_iff rt htext).mp hdec
  | resolve rt record => exact (success_applyRecord rt str hok hd).mp hs
  | check rt =>
    obtain ⟨record, r, hc, hrecord⟩ := hok
    replace hs : (((checkSlurmJob rt str client j).after m).tracker.futures f).success = true := hs
    rcases after_checkSlurmJob rt str client j m with h | ⟨g, hg, h | ⟨record', r', hc', h⟩⟩
    · rw [h, hno] at hs
      contradiction
    · rw [h, show (m.tracker.checked rt j).futures = m.tracker.futures from rfl, hno] at hs
      contradiction
    · rw [h] at hs
      by_cases hgf : g = f
      · subst hgf
        rw [hc] at hc'
        obtain rfl : record = record' := by simpa using congrArg Prod.fst hc'
        exact (success_applyRecord rt str hrecord (t := m.tracker.checked rt j) hd).mp hs
      · rcases after_applyRecord (t := m.tracker.checked rt j) rt str g record' with h | ⟨status, -, h⟩
        · rw [h, show (m.tracker.checked rt j).futures = m.tracker.futures from rfl, hno] at hs
          contradiction
        · rw [h, futures_applyStatus_ne rt _ (Ne.symm hgf),
            show (m.tracker.checked rt j).futures = m.tracker.futures from rfl, hno] at hs
          contradiction

/-- With the code 0, the first final arrival makes the future succeed. -/
theorem final_arrive (hc : c = 0) (hactive : m.tracker.Active j f) (hfinal : a.Final text) :
    ((arrive str client j f m a).tracker.futures f).success = true := by
  have hd := hactive.2
  cases a with
  | message rt message =>
    refine (success_applyStatus rt message hd).trans ?_
    rw [decide_eq_true_iff]
    exact (ht.decoded_iff rt hfinal).mpr hc
  | resolve rt record => exact (success_applyRecord rt str hok hd).mpr hc
  | check rt =>
    obtain ⟨record, r, hconsult, hrecord⟩ := hok
    have hafter : ((checkSlurmJob rt str client j).after m).tracker =
        (applyRecord rt str f record).after (m.tracker.checked rt j) := by
      have hconsult' : (consult client ((m.tracker.checked rt j).futures f).slurmJobId).exec m.rest = _ := hconsult
      unfold after
      rw [exec_checkSlurmJob_active rt str hactive, exec_checkRecord]
      simp only [hconsult']
    show (((checkSlurmJob rt str client j).after m).tracker.futures f).success = true
    rw [hafter]
    exact (success_applyRecord rt str hrecord (t := m.tracker.checked rt j) hd).mpr hc

omit ht in
/-- What is not final leaves the job active. -/
theorem active_arrive (hactive : m.tracker.Active j f) (hfinal : ¬ a.Final text) :
    (arrive str client j f m a).tracker.Active j f := by
  cases a with
  | resolve rt record => exact absurd trivial hfinal
  | check rt => exact absurd trivial hfinal
  | message rt message =>
    have hrunning : decoded rt message = .running := decoded_value rt (hok.resolve_right hfinal)
    have hexec := exec_applyStatus_running rt message f hactive.2 (by rw [hrunning]; rfl)
    have hafter : (applyStatus rt message f).after m.tracker = m.tracker.accept rt message f := by
      rw [after, hexec]
    show ((applyStatus rt message f).after m.tracker).Active j f
    rw [hafter]
    refine ⟨hactive.1, ?_⟩
    rw [accept_done rt message f hactive.2, hrunning]
    rfl

end Step

/-- **The two channels agree.**  A run of the worker has returned `c`, and `text` is the terminal status that
it has published; the scheduler keeps a record of a process that exited with `c`.  Then `text` means success
exactly if `c` is 0; and whatever arrives first, message or check, the future of the job has succeeded
exactly if `c` is 0, once the end has arrived. -/
theorem channels_agree {s : Worker.State} {ls : List Worker.Label} {c : ℕ} {err : Option Worker.Err} {text : String}
    (hrun : Run Worker.Steps (fun _ _ => True) {} ls s) (hmain : s.main = .returned c err)
    (hlast : s.attempts.getLast? = some ⟨.status text, none⟩) :
    (∀ rt (m : StatusMessage), m.status = text → (decoded rt m = .finished ↔ c = 0)) ∧
    ∀ (str : Json → String) (client : RestClient ρ) (m m' : Managed ρ) (j : String) (f : FutureRef) (es : List Arrival),
      m.tracker.Active j f → (∃ a ∈ es, a.Final text) →
      Run (fun m a m' => arrive str client j f m a = m') (Concerns client c text f) m es m' →
      ((m'.tracker.futures f).success = true ↔ c = 0) := by
  have ht : Worker.Chosen c text := (Worker.State.reachable hrun).1.chosen hmain hlast
  refine ⟨fun rt m hm => ht.decoded_iff rt hm, fun str client m m' j f es hactive hfinal hes => ?_⟩
  have hstart : (m.tracker.futures f).success = false := by
    rw [JobFuture.success_eq_done_and, hactive.2]
    rfl
  -- a success only with code 0, and with code 0 a success once the end has arrived
  have hinv : ((m'.tracker.futures f).success = true → c = 0) ∧
      (c = 0 → (m'.tracker.futures f).success = true ∨ (m'.tracker.Active j f ∧ ∀ a ∈ es, ¬ a.Final text)) := by
    clear hfinal
    induction hes with
    | nil =>
      refine ⟨fun hs => ?_, fun _ => Or.inr ⟨hactive, by simp⟩⟩
      rw [hstart] at hs
      contradiction
    | @snoc m₁ m₂ es a hes hok hstep ih =>
      obtain ⟨honly, hzero⟩ := ih
      obtain rfl := hstep
      by_cases hd : (m₁.tracker.futures f).done = true
      · rw [done_arrive hd]
        refine ⟨honly, fun hc => Or.inl ?_⟩
        rcases hzero hc with hs | ⟨ha, -⟩
        · exact hs
        · rw [ha.2] at hd
          contradiction
      · have hd' : (m₁.tracker.futures f).done = false := by simpa using hd
        refine ⟨success_arrive ht hok hd', fun hc => ?_⟩
        rcases hzero hc with hs | ⟨ha, hnone⟩
        · rw [JobFuture.success_eq_done_and, hd'] at hs
          contradiction
        · by_cases hf : a.Final text
          · exact Or.inl (final_arrive ht hok hc ha hf)
          · refine Or.inr ⟨active_arrive hok ha hf, fun b hb => ?_⟩
            rcases List.mem_append.mp hb with hb | hb
            · exact hnone b hb
            · rw [List.mem_singleton.mp hb]
              exact hf
  refine ⟨hinv.1, fun hc => ?_⟩
  rcases hinv.2 hc with hs | ⟨-, hnone⟩
  · exact hs
  · obtain ⟨a, ha, hf⟩ := hfinal
    exact absurd hf (hnone a ha)

section Example

theorem recorded_endedRecord : Recorded 0 (endedRecord 0) := by
  refine ⟨fun items hi v hv => ?_, Or.inl ⟨⟨_, rfl, [], [], rfl, by decide, by simp⟩, ?_⟩⟩
  · obtain rfl := Json.array.inj hi
    exact ⟨_, List.mem_singleton.mp hv⟩
  · exact ExitedWith.structured (ReturnCode.optional rfl rfl) ⟨_, rfl, Or.inr ⟨_, rfl, rfl⟩⟩

/-- A workload that exits with 0; the check comes before the message. -/
theorem channels_agree_of_success : ∃ (s : Worker.State) (ls : List Worker.Label) (err : Option Worker.Err),
    Run Worker.Steps (fun _ _ => True) {} ls s ∧ s.main = .returned 0 err ∧
    ((arrive (fun _ => "") slurmRestClient "j" 0 (arrive (fun _ => "") slurmRestClient "j" 0
      (answering (endedRecord 0)) (.check still)) (.message still { status := "finished" })).tracker.futures 0).success
        = true := by
  have hex : ∃ (s : Worker.State), Run Worker.Steps (fun _ _ => True) {}
      [.announce none, .beat 1 none, .launch none, .exit (.exited 0), .close .stdout, .close .stderr, .eof .stdout,
        .eof .stderr, .waited, .watch, .drained, .flush none, .flush none, .stopBeating, .halted, .conclude,
        .report none] s ∧ s.main = .returned 0 none ∧ s.attempts.getLast? = some ⟨.status "finished", none⟩ :=
    Run.of_evaluated (fun _ _ _ => id) (by decide +kernel)
  obtain ⟨s, hrun, hmain, hlast⟩ := hex
  obtain ⟨-, hagree⟩ := channels_agree (ρ := SlurmRestClient) hrun hmain hlast
  have hrunning : Run (fun m a m' => arrive (fun _ => "") slurmRestClient "j" 0 m a = m')
      (Concerns slurmRestClient 0 "finished" 0) (answering (endedRecord 0))
      [.check still, .message still { status := "finished" }] _ :=
    Run.cons ⟨endedRecord 0, _, rfl, recorded_endedRecord⟩ rfl (Run.single (Or.inr rfl) rfl)
  have hfinal : ∃ a ∈ [Arrival.check still, .message still { status := "finished" }], a.Final "finished" :=
    ⟨.check still, List.mem_cons_self, trivial⟩
  exact ⟨s, _, none, hrun, hmain, (hagree _ _ _ _ "j" 0 _ ⟨rfl, rfl⟩ hfinal hrunning).mpr rfl⟩

end Example

end Channels

end SlurmManager
