import SlurmManager.Tracking.FanOut

/-!
# Arrival — log lines and heartbeats in the order in which they arrived

The listener thread copies the callbacks of a topic under the lock and calls them without it, so that sections of other
threads come in between.  Statuses also come from elsewhere; log lines and heartbeats come from the listener thread
alone.  A callback submits its message to the executor, whose threads then run the listeners in whatever order they
like: the results are about the order of submission.

* `Flow`: what a section adds to the tasks.
* `arrival_order`: in any run the messages submitted for a listener are in the order of arrival, each once at most.
* `ordered_fan_out`: one message of a running job is one task for every listener of it, behind what came before.
* `exact_delivery`: for a listener that is indexed and registered, none is missing.
* `run_serving`: while the job runs and its topic is left alone, a listener that is indexed is registered.
-/

namespace SlurmManager

open Program JobTracker

/-! ## Tasks are only added -/

namespace JobTracker

/-- Tasks are only added, all of one kind. -/
def Adds (P : Task → Prop) (s s' : JobTracker) : Prop := ∃ ts, s'.tasks = s.tasks ++ ts ∧ ∀ t ∈ ts, P t

instance (P : Task → Prop) : IsPreorder JobTracker (Adds P) where
  refl s := ⟨[], (List.append_nil _).symm, by simp⟩
  trans s s' s'' h h' := by
    obtain ⟨ts, ht, hp⟩ := h
    obtain ⟨ts', ht', hp'⟩ := h'
    refine ⟨ts ++ ts', by rw [ht', ht, List.append_assoc], fun t hmem => ?_⟩
    rcases List.mem_append.mp hmem with hmem | hmem
    · exact hp t hmem
    · exact hp' t hmem

/-- The task carries a status. -/
def Task.Status (t : Task) : Prop := t.message.msgType = .status

theorem adds_accept (rt : Runtime) (m : StatusMessage) (f : FutureRef) (s : JobTracker) :
    Adds Task.Status s (s.accept rt m f) := by
  refine ⟨_, List.append_assoc _ _ _, fun t ht => ?_⟩
  rcases List.mem_append.mp ht with ht | ht
  · obtain ⟨info, d, -, -, ht⟩ := mem_listenerTasks ht
    rw [Task.Status, ht]
    rfl
  · obtain ⟨cb, -, -, ht⟩ := mem_globalTasks ht
    rw [Task.Status, ht]
    rfl

theorem adds_applyStatus (rt : Runtime) (m : StatusMessage) (f : FutureRef) (s : JobTracker) :
    Adds Task.Status s ((applyStatus rt m f).after s) := by
  rw [after]
  cases hd : (s.futures f).done with
  | true =>
    rw [exec_applyStatus_done rt m f hd]
    exact refl s
  | false =>
    cases ht : (decoded rt m).terminal with
    | false =>
      rw [exec_applyStatus_running rt m f hd ht]
      exact adds_accept rt m f s
    | true =>
      rw [exec_applyStatus_terminal rt m f hd ht]
      obtain ⟨ts, hts, hp⟩ := adds_accept rt m f s
      refine ⟨ts, ?_, hp⟩
      rw [← hts]
      exact congrArg (fun x => x.2.2.1) (frame_discardJob rt (s.futures f).jobId (s.accept rt m f))

/-- The delivery of a status. -/
theorem adds_deliver (rt : Runtime) (m : StatusMessage) (sub : Subscription ClientCallback) :
    Within (Adds Task.Status) (deliver rt (.status m) sub) := by
  intro s
  have hglobal : ∀ (md : Metadata) (j : String) (slurm : Option String),
      ∀ t ∈ globalTasks rt ((SlurmMessage.status m).withMetadata md) j slurm s, Task.Status t := by
    intro md j slurm t ht
    obtain ⟨cb, -, -, ht⟩ := mem_globalTasks ht
    rw [Task.Status, ht]
    rfl
  cases hcb : sub.callback with
  | event f =>
    rcases after_deliver_event (s := s) hcb rt (.status m) with he | ⟨m', he⟩
    · rw [he]
      exact refl s
    · rw [he]
      exact adds_applyStatus rt m' f s
  | ignoreStatus =>
    rw [deliver, hcb]
    exact refl s
  | dispatch d =>
    rw [deliver, hcb]
    refine ⟨[Dispatch.task rt d sub.id (.status m)], rfl, fun t ht => ?_⟩
    rw [List.mem_singleton.mp ht]
    rfl
  | log j slurm =>
    rw [deliver, hcb]
    exact ⟨_, rfl, hglobal m.metadata j (some slurm)⟩
  | heartbeat j slurm =>
    rw [deliver, hcb]
    exact ⟨_, rfl, hglobal _ j (some slurm)⟩

end JobTracker

namespace Session

variable {jobOf : FutureRef → String} {tag tag' : SubId → Option Tag} {j : String} {e : Event} {s s' : Session} {l : Label}
  {rt : Runtime} {m : SlurmMessage} {k : SubId}

/-! ## The listener thread -/

/-- What a section does to the captured callbacks and the tasks. -/
inductive Flow (s : Session) (l : Label) (s' : Session) : Prop
  | poll {t : Topic} {m : SlurmMessage} (hl : l.act = .poll t m) (hc : s.captured = []) (ht : s'.tracker = s.tracker)
      (hc' : s'.captured = (s.tracker.subClient.capture t).map fun sub => (sub, m))
  | deliver {sub : Subscription ClientCallback} {m : SlurmMessage} (hl : l.act = .deliver)
      (hc : s.captured = (sub, m) :: s'.captured) (ht : s'.tracker = (deliver l.rt m sub).after s.tracker)
  /-- Every other section submits statuses at most. -/
  | quiet (hl : ∀ t m, l.act ≠ .poll t m) (hc : s'.captured = s.captured) (ht : Adds Task.Status s.tracker s'.tracker)

/-- Nobody else touches what the listener thread has captured. -/
theorem captured_of_step (hp : ∀ t m, l.act ≠ .poll t m) (hd : l.act ≠ .deliver) (hs : Steps s l s') :
    s'.captured = s.captured := by
  obtain ⟨rt, act⟩ := l
  unfold Steps step at hs
  cases act with
  | poll t m => exact absurd rfl (hp t m)
  | deliver => exact absurd rfl hd
  | proceed n =>
    unfold Session.proceed at hs
    simp only at hs
    repeat' (split at hs)
    all_goals first
      | (obtain rfl := Option.some.inj hs; rfl)
      | simp at hs
  | _ =>
    simp only at hs
    repeat' (split at hs)
    all_goals first
      | (obtain rfl := Option.some.inj hs; rfl)
      | simp at hs

theorem Steps.flow (hl : Sectioned l) (hs : Steps s l s') : Flow s l s' := by
  obtain ⟨rt, act⟩ := l
  have hsingle : (∀ t m, act ≠ .poll t m) → act ≠ .deliver → Flow s ⟨rt, act⟩ s' := by
    intro hp hd
    have hc := captured_of_step hp hd hs
    cases hs.recorded hl with
    | quiet hq =>
      have htasks : s'.tracker.tasks = s.tracker.tasks := congrArg (fun x => x.2.1) hq
      exact Flow.quiet hp hc ⟨[], by rw [htasks, List.append_nil], by simp⟩
    | @accepted m f _ hq =>
      have htasks : s'.tracker.tasks = (s.tracker.accept rt m f).tasks := congrArg (fun x => x.2.1) hq
      obtain ⟨ts, hts, ht⟩ := adds_accept rt m f s.tracker
      exact Flow.quiet hp hc ⟨ts, htasks.trans hts, ht⟩
    | delivered hact => exact absurd hact hd
  cases act with
  | poll t m =>
    unfold Steps step at hs
    simp only at hs
    split at hs
    · rename_i hc
      obtain rfl := Option.some.inj hs
      exact Flow.poll rfl hc rfl rfl
    · simp at hs
  | deliver =>
    unfold Steps step at hs
    simp only at hs
    cases hc : s.captured with
    | nil => simp [hc] at hs
    | cons x rest =>
      obtain ⟨sub, m⟩ := x
      simp only [hc] at hs
      obtain rfl := Option.some.inj hs
      exact Flow.deliver rfl hc rfl
  | _ => exact hsingle (by simp) (by simp)

/-- The messages of a run, in the order in which the listener thread took them. -/
def arrivals (ls : List Label) : List SlurmMessage :=
  ls.filterMap fun l => match l.act with
    | .poll _ m => some m
    | _ => none

theorem arrivals_append (ls : List Label) (l : Label) : arrivals (ls ++ [l]) = arrivals ls ++ arrivals [l] :=
  List.filterMap_append

/-! ## What is submitted for a listener -/

/-- A message without what the manager adds. -/
def bare (m : SlurmMessage) : SlurmMessage := m.withMetadata ∅

theorem bare_withMetadata (m : SlurmMessage) (md : Metadata) : bare (m.withMetadata md) = bare m := by cases m <;> rfl

/-- What was submitted for a listener of one type, in the order of the tasks. -/
def toldOf (k : SubId) (e : Event) (ts : List Task) : List SlurmMessage :=
  (ts.filter fun t => t.listener = k ∧ t.message.msgType = e).map fun t => bare t.message

theorem toldOf_append (k : SubId) (e : Event) (ts ts' : List Task) :
    toldOf k e (ts ++ ts') = toldOf k e ts ++ toldOf k e ts' := by
  unfold toldOf
  rw [List.filter_append, List.map_append]

/-- Tasks of another type, or for another listener. -/
theorem toldOf_eq_nil {ts : List Task} (h : ∀ t ∈ ts, t.listener = k → t.message.msgType ≠ e) : toldOf k e ts = [] := by
  unfold toldOf
  rw [List.filter_eq_nil_iff.mpr fun t ht => ?_]
  · rfl
  · rw [decide_eq_true_eq]
    exact fun hx => h t ht hx.1 hx.2

/-- Statuses do not count. -/
theorem toldOf_adds {t t' : JobTracker} (k : SubId) (he : e ≠ .status) (h : Adds Task.Status t t') :
    toldOf k e t'.tasks = toldOf k e t.tasks := by
  obtain ⟨ts, hts, hp⟩ := h
  have hnil : toldOf k e ts = [] := toldOf_eq_nil fun x hx _ hxe => he (hxe.symm.trans (hp x hx))
  rw [hts, toldOf_append, hnil, List.append_nil]

theorem msgType_submitted {t : JobTracker} {sub : Subscription ClientCallback} {x : Task}
    (hx : x ∈ submitted rt m t sub) : x.message.msgType = m.msgType := by
  have hglobal : ∀ (md : Metadata) (j : String) (slurm : Option String),
      x ∈ globalTasks rt (m.withMetadata md) j slurm t → x.message.msgType = m.msgType := by
    intro md j slurm hx
    obtain ⟨cb, -, -, hx⟩ := mem_globalTasks hx
    rw [hx]
    exact (SlurmMessage.msgType_withMetadata _ _).trans (SlurmMessage.msgType_withMetadata _ _)
  unfold submitted at hx
  cases hcb : sub.callback with
  | dispatch d =>
    rw [hcb] at hx
    rw [List.mem_singleton.mp hx]
    exact SlurmMessage.msgType_withMetadata _ _
  | log j slurm =>
    rw [hcb] at hx
    refine hglobal m.metadata j (some slurm) ?_
    rwa [show m.withMetadata m.metadata = m by cases m <;> rfl]
  | heartbeat j slurm =>
    rw [hcb] at hx
    exact hglobal _ j (some slurm) hx
  | _ =>
    rw [hcb] at hx
    exact absurd hx List.not_mem_nil

/-- One callback tells a listener at most once. -/
theorem toldOf_submitted (t : JobTracker) (sub : Subscription ClientCallback) :
    (toldOf k e (submitted rt m t sub)).Sublist [bare m] := by
  have hall : (((submitted rt m t sub).filter fun x => x.listener = k).map fun x => bare x.message).Sublist [bare m] := by
    have hglobal : ∀ (md : Metadata) (j : String) (slurm : Option String),
        (((globalTasks rt (m.withMetadata md) j slurm t).filter fun x => x.listener = k).map
          fun x => bare x.message).Sublist [bare m] := by
      intro md j slurm
      rw [filter_globalTasks]
      cases (t.globalCallbacks.get? k).filter fun r => r.event = (m.withMetadata md).msgType with
      | none => exact List.nil_sublist _
      | some r =>
        simp only [Option.map_some, Option.toList_some, List.map_cons, List.map_nil, globalTask, bare_withMetadata]
        exact List.Sublist.refl _
    unfold submitted
    cases sub.callback with
    | dispatch d =>
      by_cases hid : sub.id = k
      · simp [Dispatch.task, hid, bare_withMetadata]
      · simp [Dispatch.task, hid]
    | log j slurm =>
      have hx := hglobal m.metadata j (some slurm)
      rwa [show m.withMetadata m.metadata = m by cases m <;> rfl] at hx
    | heartbeat j slurm => exact hglobal _ j (some slurm)
    | event f => exact List.nil_sublist _
    | ignoreStatus => exact List.nil_sublist _
  refine List.Sublist.trans (List.Sublist.map _ (List.monotone_filter_right _ fun x => ?_)) hall
  simp only [decide_eq_true_eq]
  exact And.left

/-! ## Who may still be told -/

/-- The captured callback may tell the listener `k` something: it is the listener's own, or, as long as `k` may be a
manager-wide listener, the tracker's. -/
def Teller (tag : SubId → Option Tag) (k : SubId) (sub : Subscription ClientCallback) : Prop :=
  match tag k with
  | some (.listener _) => sub.id = k
  | some (.internal _) => False
  | _ => sub.callback.Internal

instance : DecidablePred (Teller tag k) := fun sub => by
  unfold Teller
  split <;> infer_instance

/-- The captured messages that the listener may still be told. -/
def owed (tag : SubId → Option Tag) (k : SubId) (captured : List (Subscription ClientCallback × SlurmMessage)) :
    List SlurmMessage :=
  captured.flatMap fun x => if Teller tag k x.1 then [bare x.2] else []

/-- A listener that has just drawn its id has nothing to expect. -/
theorem Teller.of_extends {sub : Subscription ClientCallback} {t : Topic} (hfit : ClientFits tag t sub.id sub)
    (hext : Extends tag tag') (h : Teller tag' k sub) : Teller tag k sub := by
  unfold Teller at h ⊢
  cases hk : tag k with
  | some y => rwa [hext k (by rw [hk]; simp), hk] at h
  | none =>
    cases hk' : tag' k with
    | none => rwa [hk'] at h
    | some y =>
      rw [hk'] at h
      cases y with
      | internal e => exact h.elim
      | global => exact h
      | listener a =>
        obtain rfl : sub.id = k := h
        exact absurd hk hfit.ne_none

theorem owed_extends {captured : List (Subscription ClientCallback × SlurmMessage)}
    (hfit : ∀ x ∈ captured, ∃ t, ClientFits tag t x.1.id x.1) (hext : Extends tag tag') :
    (owed tag' k captured).Sublist (owed tag k captured) := by
  unfold owed
  induction captured with
  | nil => exact List.Sublist.refl _
  | cons x rest ih =>
    rw [List.flatMap_cons, List.flatMap_cons]
    refine List.Sublist.append ?_ (ih fun y hy => hfit y (List.mem_cons_of_mem _ hy))
    obtain ⟨t, ht⟩ := hfit x List.mem_cons_self
    by_cases h : Teller tag' k x.1
    · rw [if_pos h, if_pos (h.of_extends ht hext)]
    · rw [if_neg h]
      exact List.nil_sublist _

section Tagged

variable (h : s.Tagged jobOf tag)
include h

/-- Only a teller tells. -/
theorem Tagged.listener_submitted {sub : Subscription ClientCallback} {t : Topic} (hfit : ClientFits tag t sub.id sub)
    {x : Task} (hx : x ∈ submitted rt m s.tracker sub) : Teller tag x.listener sub := by
  have hglobal : ∀ m' j slurm, x ∈ globalTasks rt m' j slurm s.tracker → sub.callback.Internal →
      Teller tag x.listener sub := by
    intro m' j slurm hx hint
    obtain ⟨cb, hcb, -, -⟩ := mem_globalTasks hx
    have htag : tag x.listener = some .global := h.tracker.globals x.listener cb hcb
    unfold Teller
    rw [htag]
    exact hint
  unfold submitted at hx
  cases hcb : sub.callback with
  | dispatch d =>
    rw [hcb] at hx
    rw [List.mem_singleton.mp hx]
    show Teller tag sub.id sub
    obtain ⟨-, hfit⟩ := hfit
    unfold Teller
    cases htag : tag sub.id with
    | none => simp [htag] at hfit
    | some y =>
      rw [htag] at hfit
      cases y with
      | internal e =>
        obtain ⟨f, g, hcb', -⟩ := hfit
        have hint := internal_internalCallback e f g
        rw [← hcb', hcb] at hint
        exact hint.elim
      | global => exact hfit.elim
      | listener a => rfl
  | log j slurm =>
    rw [hcb] at hx
    exact hglobal _ _ _ hx (by rw [hcb]; trivial)
  | heartbeat j slurm =>
    rw [hcb] at hx
    exact hglobal _ _ _ hx (by rw [hcb]; trivial)
  | _ =>
    rw [hcb] at hx
    exact absurd hx List.not_mem_nil

/-- A captured callback submits what the listener is owed, or nothing. -/
theorem Tagged.toldOf_submitted {sub : Subscription ClientCallback} {t : Topic} (hfit : ClientFits tag t sub.id sub) :
    (toldOf k e (submitted rt m s.tracker sub)).Sublist (if Teller tag k sub then [bare m] else []) := by
  split_ifs with hteller
  · exact Session.toldOf_submitted s.tracker sub
  · rw [toldOf_eq_nil fun x hx hxk => ?_]
    exact absurd (hxk ▸ h.listener_submitted hfit hx) hteller

/-- **Under a topic a listener has one teller at most.** -/
theorem Tagged.one_teller (hb : ∀ j e, ∃ x, s.Bounds jobOf j e x) {t : Topic} {i i' : SubId}
    {sub sub' : Subscription ClientCallback} (hi : s.tracker.subClient.registration? t i = some sub)
    (hi' : s.tracker.subClient.registration? t i' = some sub') (ht : Teller tag k sub) (ht' : Teller tag k sub') :
    i = i' := by
  have hfit := h.tracker.client.subs.inner t i sub hi
  have hfit' := h.tracker.client.subs.inner t i' sub' hi'
  have hint : sub.callback.Internal → sub'.callback.Internal → i = i' := by
    intro hint hint'
    obtain ⟨-, hfit⟩ := hfit
    cases htag : tag i with
    | none => simp [htag] at hfit
    | some y =>
      rw [htag] at hfit
      cases y with
      | internal e =>
        obtain ⟨f, g, -, rfl⟩ := hfit
        obtain ⟨x, hx⟩ := hb g.jobId e
        exact Option.some.inj ((hx.client i sub hi hint).symm.trans (hx.client i' sub' hi' hint'))
      | global => exact hfit.elim
      | listener a =>
        obtain ⟨-, g, hcb⟩ := hfit
        rw [hcb] at hint
        exact absurd hint (not_internal_redisCallback a g)
  unfold Teller at ht ht'
  cases hk : tag k with
  | none =>
    rw [hk] at ht ht'
    exact hint ht ht'
  | some y =>
    rw [hk] at ht ht'
    cases y with
    | internal e => exact ht.elim
    | global => exact hint ht ht'
    | listener a => exact hfit.1.symm.trans (ht.trans (ht'.symm.trans hfit'.1))

theorem Tagged.owed_capture (hb : ∀ j e, ∃ x, s.Bounds jobOf j e x) (t : Topic) :
    (owed tag k ((s.tracker.subClient.capture t).map fun sub => (sub, m))).Sublist [bare m] := by
  unfold owed
  rw [List.flatMap_map]
  by_cases hex : ∃ i sub, s.tracker.subClient.registration? t i = some sub ∧ Teller tag k sub
  · obtain ⟨i, sub, hi, ht⟩ := hex
    have hone := Dict.flatMap_values_eq (g := fun sub => if Teller tag k sub then [bare m] else []) hi
      fun i' sub' hi' hne => if_neg fun ht' => hne (h.one_teller hb hi' hi ht' ht)
    refine (hone.trans (if_pos ht)) ▸ List.Sublist.refl _
  · rw [List.flatMap_eq_nil_iff.mpr fun sub hsub => ?_]
    · exact List.nil_sublist _
    · obtain ⟨i, hi⟩ := RedisSubClient.mem_capture.mp hsub
      exact if_neg fun ht => hex ⟨i, sub, hi, ht⟩

/-- One message for a listener is one task at most. -/
theorem Tagged.told_capture (hb : ∀ j e, ∃ x, s.Bounds jobOf j e x) (t : Topic) :
    (toldOf k e ((s.tracker.subClient.capture t).flatMap (submitted rt m s.tracker))).Sublist [bare m] := by
  have howed := h.owed_capture (k := k) (m := m) hb t
  refine List.Sublist.trans ?_ howed
  have hfit : ∀ sub ∈ s.tracker.subClient.capture t, ClientFits tag t sub.id sub := by
    intro sub hsub
    obtain ⟨i, hi⟩ := RedisSubClient.mem_capture.mp hsub
    have hfit := h.tracker.client.subs.inner t i sub hi
    obtain rfl := hfit.1
    exact hfit
  clear howed
  generalize s.tracker.subClient.capture t = subs at hfit
  induction subs with
  | nil => exact List.Sublist.refl _
  | cons sub subs ih =>
    rw [List.flatMap_cons, toldOf_append]
    exact List.Sublist.append (h.toldOf_submitted (hfit sub List.mem_cons_self))
      (ih fun sub' hsub' => hfit sub' (List.mem_cons_of_mem _ hsub'))

/-- **No section tells a listener anything that it is not owed.** -/
theorem Tagged.told_step (hb : ∀ j e, ∃ x, s.Bounds jobOf j e x) (he : e ≠ .status) (hl : Sectioned l)
    (hs : Steps s l s') : ∃ tag', s'.Tagged jobOf tag' ∧
      (toldOf k e s'.tracker.tasks ++ owed tag' k s'.captured).Sublist
        (toldOf k e s.tracker.tasks ++ owed tag k s.captured ++ (arrivals [l]).map bare) := by
  obtain ⟨tag', h', hext⟩ := h.step hl hs
  refine ⟨tag', h', ?_⟩
  cases hs.flow hl with
  | @poll t m hact hc ht hc' =>
    have harr : arrivals [l] = [m] := by
      unfold arrivals
      rw [List.filterMap_cons_some (b := m) (by rw [hact])]
      rfl
    have howed : owed tag k s.captured = [] := by
      rw [hc]
      rfl
    rw [ht, hc', harr, howed, List.append_nil]
    refine List.Sublist.append (List.Sublist.refl _) ((owed_extends ?_ hext).trans (h.owed_capture hb t))
    intro x hx
    obtain ⟨sub, hsub, rfl⟩ := List.mem_map.mp hx
    obtain ⟨i, hi⟩ := RedisSubClient.mem_capture.mp hsub
    have hfit := h.tracker.client.subs.inner t i sub hi
    obtain rfl := hfit.1
    exact ⟨t, hfit⟩
  | @deliver sub m hact hc ht =>
    have hrest : (owed tag' k s'.captured).Sublist (owed tag k s'.captured) :=
      owed_extends (fun x hx => h.captured x (by rw [hc]; exact List.mem_cons_of_mem _ hx)) hext
    have hsplit : owed tag k s.captured = (if Teller tag k sub then [bare m] else []) ++ owed tag k s'.captured := by
      rw [hc]
      rfl
    refine List.Sublist.trans ?_ (List.sublist_append_left _ _)
    rw [hsplit, ← List.append_assoc]
    refine List.Sublist.append ?_ hrest
    rw [ht]
    by_cases hm : m.msgType = .status
    · cases m with
      | status m =>
        rw [toldOf_adds k he (adds_deliver l.rt m sub s.tracker)]
        exact List.sublist_append_left _ _
      | _ => contradiction
    · rw [(tasks_deliver_submitted l.rt hm sub s.tracker).1, toldOf_append]
      obtain ⟨t, hfit⟩ := h.captured (sub, m) (by rw [hc]; exact List.mem_cons_self)
      exact List.Sublist.append (List.Sublist.refl _) (h.toldOf_submitted hfit)
  | quiet hact hc ht =>
    refine List.Sublist.trans ?_ (List.sublist_append_left _ _)
    rw [toldOf_adds k he ht, hc]
    exact List.Sublist.append (List.Sublist.refl _) (owed_extends h.captured hext)

end Tagged

/-- What a run of sections submits for a listener, and what it is still owed. -/
theorem run_told {s₀ : Session} {ls : List Label} (h₀ : s₀.Initial)
    (hrun : Run Steps (fun _ l => Sectioned l) s₀ ls s) (k : SubId) (he : e ≠ .status) :
    ∃ tag, s.Tagged s₀.jobOf tag ∧
      (toldOf k e s.tracker.tasks ++ owed tag k s.captured).Sublist ((arrivals ls).map bare) := by
  induction hrun with
  | nil =>
    refine ⟨_, h₀.tagged, ?_⟩
    rw [h₀.maps.2.2.2.2.2.1, h₀.histories.1]
    exact List.Sublist.refl _
  | @snoc s s' ls l hrun hl hs ih =>
    obtain ⟨tag, h, hsub⟩ := ih
    obtain ⟨tag', h', hstep⟩ := h.told_step (k := k) (run_bounds h₀ hrun).2 he hl hs
    refine ⟨tag', h', hstep.trans ?_⟩
    rw [arrivals_append, List.map_append]
    exact hsub.append (List.Sublist.refl _)

/-- **What is submitted for a listener comes in the order in which the messages arrived, each at most once**, in
whatever order the sections of all calls come, and whatever Redis answers. -/
theorem arrival_order {s₀ : Session} {ls : List Label} (h₀ : s₀.Initial)
    (hrun : Run Steps (fun _ l => Sectioned l) s₀ ls s) (k : SubId) (he : e ≠ .status) :
    (toldOf k e s.tracker.tasks).Sublist ((arrivals ls).map bare) := by
  obtain ⟨tag, -, hsub⟩ := run_told h₀ hrun k he
  exact (List.sublist_append_left _ _).trans hsub

/-- Two lines for the listener of every log. -/
theorem arrival_order_of_lines : ∃ s : Session, s.captured = [] ∧
    (toldOf 4 .log s.tracker.tasks).Sublist [.log { log := "x" }, .log { log := "y" }] := by
  obtain ⟨s₁, h₁, -, s₂, h₂, -, -, -, -, -, s, h₃, hempty⟩ := run_of_listeners
  have hrun := (h₁.mono fun _ _ hl => hl.1).append
    ((h₂.mono fun _ _ hl => hl.1).append (h₃.mono fun _ _ hl => hl.1))
  exact ⟨s, hempty, arrival_order (initial_new _ unary_injective) hrun 4 (show Event.log ≠ .status by decide)⟩

/-- **One message of a running job**: one task for every listener of the job and the event and for every manager-wide
listener of the event, none for anybody else, each with the ids of the job, and all of them behind what came before. -/
theorem ordered_fan_out {s₀ s₁ : Session} {ls₁ ls₂ : List Label} {rt₁ : Runtime} {n : ℕ} {f : FutureRef} {i : SubId}
    {o : Bool} (h₀ : s₀.Initial) (h₁ : Run Steps (Tending (s₀.jobOf f) m.msgType) s₀ ls₁ s₁)
    (hn : s₁.calls n = .indexing f .log i o [])
    (h₂ : Run Steps (Tending (s₀.jobOf f) m.msgType) s₁ (⟨rt₁, .proceed n⟩ :: ls₂) s)
    (hf : s.Running (s₀.jobOf f) f) (hm : m.msgType ≠ .status)
    (hs : Steps s ⟨rt, .dispatchMessage (topicOf (s₀.jobOf f) m.msgType) m⟩ s') :
    (∃ ts, s'.tracker.tasks = s.tracker.tasks ++ ts ∧
      s.FannedOut rt m (s₀.jobOf f) (s.tracker.futures f).slurmJobId f ts) ∧
    ∀ k e, e ≠ .status → (toldOf k e s'.tracker.tasks).Sublist
      ((arrivals (ls₁ ++ ⟨rt₁, .proceed n⟩ :: ls₂) ++ [m]).map bare) := by
  obtain rfl := Option.some.inj hs
  obtain ⟨i, h⟩ := run_tracked h₀ hm h₁ hn h₂
  have htasks := tasks_dispatchMessage rt hm (topicOf (s₀.jobOf f) m.msgType) s.tracker
  refine ⟨⟨_, htasks, h.fannedOut rt m hm hf⟩, fun k e he => ?_⟩
  have hrun := (h₁.append h₂).mono fun _ _ hl => hl.1
  obtain ⟨tag, htag, hsub⟩ := run_told h₀ hrun k he
  rw [show (toldOf k e (_ : Session).tracker.tasks) = _ from congrArg (toldOf k e) htasks, toldOf_append, List.map_append]
  exact List.Sublist.append ((List.sublist_append_left _ _).trans hsub) (htag.told_capture (run_bounds h₀ hrun).2 _)

/-- A line for the listener of the job and the listener of every log. -/
theorem ordered_fan_out_of_line : ∃ (s s' : Session) (ts : List Task), s.Serving "j" .log 3 ∧
    (s.tracker.globalCallbacks.get? 4).isSome ∧ s'.tracker.tasks = s.tracker.tasks ++ ts ∧
    s.FannedOut .still (outputLine "x") "j" (s.tracker.futures 0).slurmJobId 0 ts ∧
    (toldOf 4 .log s'.tracker.tasks).Sublist [.log { log := "x" }] := by
  obtain ⟨s₁, h₁, hn, s, h₂, hf, hjob, hall, -⟩ := run_of_listeners
  have hj : (new (fun _ _ => none) unary).jobOf 0 = "j" := by decide +kernel
  rw [← hj] at h₁ h₂ hf
  obtain ⟨⟨ts, hts, hout⟩, horder⟩ := ordered_fan_out (m := outputLine "x") (initial_new _ unary_injective) h₁ hn h₂ hf
    (by decide) (show Steps s ⟨.still, .dispatchMessage _ _⟩ _ from rfl)
  rw [hj] at hout
  exact ⟨s, _, ts, hjob, hall, hts, hout, horder 4 .log (by decide)⟩

/-! ## Nothing lost -/

/-- The messages of the type that arrived under the topic. -/
def arrivalsAt (t : Topic) (e : Event) (ls : List Label) : List SlurmMessage :=
  ls.filterMap fun l => match l.act with
    | .poll t' m => if t' = t ∧ m.msgType = e then some m else none
    | _ => none

theorem arrivalsAt_append (t : Topic) (e : Event) (ls : List Label) (l : Label) :
    arrivalsAt t e (ls ++ [l]) = arrivalsAt t e ls ++ arrivalsAt t e [l] := List.filterMap_append

/-- The messages of the type that the listener thread has captured for `k`. -/
def awaited (k : SubId) (e : Event) (captured : List (Subscription ClientCallback × SlurmMessage)) :
    List SlurmMessage :=
  captured.flatMap fun x => if x.1.id = k ∧ x.2.msgType = e then [bare x.2] else []

section Served

variable (h : s.Tagged jobOf tag) (hk : s.Listening j e k) (he : e ≠ .status)
include h hk

/-- What the id of a listener was drawn for. -/
theorem Tagged.listening : ∃ a, tag k = some (.listener a) ∧ topicOf j e = a.topic := by
  obtain ⟨info, hinfo, hcb⟩ := hk
  have hfit := h.tracker.records.inner _ k info hinfo
  unfold TrackerFits at hfit
  cases htag : tag k with
  | none => simp [htag] at hfit
  | some y =>
    rw [htag] at hfit
    cases y with
    | internal e' => exact absurd hfit hcb
    | global => exact hfit.elim
    | listener a => exact ⟨a, rfl, hfit.1⟩

include he

/-- The delivery to the listener, or to somebody else. -/
theorem Tagged.told_delivered {sub : Subscription ClientCallback} (hx : (sub, m) ∈ s.captured) :
    toldOf k e ((deliver rt m sub).after s.tracker).tasks =
      toldOf k e s.tracker.tasks ++ if sub.id = k ∧ m.msgType = e then [bare m] else [] := by
  obtain ⟨a, htag, ha⟩ := h.listening hk
  obtain ⟨t, hfit⟩ := h.captured _ hx
  by_cases hm : m.msgType = .status
  · cases m with
    | status m =>
      rw [toldOf_adds k he (adds_deliver rt m sub s.tracker), if_neg fun hx => he (hx.2.symm.trans hm)]
      exact (List.append_nil _).symm
    | _ => contradiction
  · rw [(tasks_deliver_submitted rt hm sub s.tracker).1, toldOf_append]
    refine congrArg _ ?_
    split_ifs with hcase
    · obtain ⟨rfl, hme⟩ := hcase
      obtain ⟨-, hfit⟩ := hfit
      rw [htag] at hfit
      obtain ⟨-, g, hcb⟩ := hfit
      rw [AddArgs.redisCallback, if_neg fun hkey => he ((topicOf_inj.mp ha).2.trans hkey)] at hcb
      unfold submitted
      rw [hcb]
      simp [toldOf, Dispatch.task, SlurmMessage.msgType_withMetadata, hme, bare_withMetadata]
    · refine toldOf_eq_nil fun x hx hxk hxe => hcase ⟨?_, (msgType_submitted hx).symm.trans hxe⟩
      have hteller := h.listener_submitted hfit hx
      rw [hxk] at hteller
      unfold Teller at hteller
      rwa [htag] at hteller

end Served

/-- **While a job runs, the listeners that are indexed are registered**, as long as its topic is left alone. -/
theorem run_serving {s₀ : Session} {ls : List Label} {f : FutureRef} (h₀ : s₀.Initial) (he : e ≠ .status)
    (hrun : Run Steps (Tending j e) s₀ ls s) (hf : s.Running j f) (hk : s.Listening j e k) : s.Serving j e k := by
  obtain ⟨-, hlis, -⟩ := run_attends h₀ hrun
  refine ⟨hk, ?_⟩
  obtain ⟨info, hinfo, hcb⟩ := hk
  obtain ⟨d, hd⟩ := Option.ne_none_iff_exists'.mp hcb
  rw [(hlis.records k info d f hinfo hd hf).2.2 he]
  rfl

/-- The capture of a message for the listener. -/
theorem Regular.awaited_capture (h : s.Regular jobOf) (hk : s.Serving j e k) (t : Topic) (m : SlurmMessage) :
    awaited k e ((s.tracker.subClient.capture t).map fun sub => (sub, m)) =
      if t = topicOf j e ∧ m.msgType = e then [bare m] else [] := by
  obtain ⟨⟨info, hinfo, -⟩, hreg⟩ := hk
  obtain ⟨sub, hsub⟩ := Option.isSome_iff_exists.mp hreg
  obtain ⟨pending, hh⟩ := h.homed
  have hid := (RedisSubClient.registration?_filed hh.tracker.client hsub).1
  unfold awaited
  rw [List.flatMap_map]
  split_ifs with hcase
  · obtain ⟨rfl, hm⟩ := hcase
    refine (Dict.flatMap_values_eq hsub fun k' sub' hk' hne => ?_).trans (if_pos ⟨hid, hm⟩)
    rw [← (RedisSubClient.registration?_filed hh.tracker.client hk').1] at hne
    exact if_neg fun hx => hne hx.1
  · refine List.flatMap_eq_nil_iff.mpr fun sub' hsub' => if_neg fun hx => hcase ⟨?_, hx.2⟩
    obtain ⟨k', hk'⟩ := RedisSubClient.mem_capture.mp hsub'
    obtain ⟨rfl, -⟩ := RedisSubClient.registration?_filed hh.tracker.client hk'
    have ho := (RedisSubClient.registration?_isSome_iff hh.tracker.client).mp
      (show (s.tracker.subClient.registration? t sub'.id).isSome by rw [hk']; rfl)
    have howner := (hh.tracker.owner_iff k (topicOf j e)).mpr (by rw [hinfo]; rfl)
    rw [← hx.1] at howner
    rcases hh.tracker.owned sub'.id t ho with hown | ⟨p, hp, -⟩
    · exact Option.some.inj (hown.symm.trans howner)
    · rw [(hh.tracker.inFlight sub'.id p hp).2] at howner
      contradiction

/-- What one section submits to a listener, and what it captures for it. -/
theorem Regular.told_step (h : s.Regular jobOf) (he : e ≠ .status) (hk : s.Serving j e k) (hl : Sectioned l)
    (hs : Steps s l s') : toldOf k e s'.tracker.tasks ++ awaited k e s'.captured =
      toldOf k e s.tracker.tasks ++ awaited k e s.captured ++ (arrivalsAt (topicOf j e) e [l]).map bare := by
  obtain ⟨tag, htag⟩ := h.tagged
  have hnone : (∀ t m, l.act ≠ .poll t m) → arrivalsAt (topicOf j e) e [l] = [] := by
    intro hact
    refine List.filterMap_cons_none ?_
    cases ha : l.act with
    | poll t m => exact absurd ha (hact t m)
    | _ => rfl
  cases hs.flow hl with
  | @poll t m hact hc ht hc' =>
    have harr : (arrivalsAt (topicOf j e) e [l]).map bare = if t = topicOf j e ∧ m.msgType = e then [bare m] else [] := by
      unfold arrivalsAt
      split_ifs with hx
      · rw [List.filterMap_cons_some (b := m) (by rw [hact]; exact if_pos hx)]
        rfl
      · rw [List.filterMap_cons_none (by rw [hact]; exact if_neg hx)]
        rfl
    rw [ht, hc', hc, harr, h.awaited_capture hk]
    exact congrArg (· ++ _) (List.append_nil _).symm
  | @deliver sub m hact hc ht =>
    have hmem : (sub, m) ∈ s.captured := by
      rw [hc]
      exact List.mem_cons_self
    have hsplit : awaited k e s.captured =
        (if sub.id = k ∧ m.msgType = e then [bare m] else []) ++ awaited k e s'.captured := by
      rw [hc]
      rfl
    rw [hnone (by rw [hact]; simp), ht, htag.told_delivered hk.1 he hmem, hsplit, List.append_assoc]
    exact (List.append_nil _).symm
  | quiet hact hc ht =>
    rw [hnone hact, toldOf_adds k he ht, hc]
    exact (List.append_nil _).symm

/-- What a run of sections submits to a listener that stays in place. -/
theorem Regular.told_run {ls : List Label} (h : s.Regular jobOf) (he : e ≠ .status)
    (hrun : Run Steps (fun s l => Sectioned l ∧ s.Serving j e k) s ls s') :
    toldOf k e s'.tracker.tasks ++ awaited k e s'.captured =
      toldOf k e s.tracker.tasks ++ awaited k e s.captured ++ (arrivalsAt (topicOf j e) e ls).map bare := by
  induction hrun with
  | nil => exact (List.append_nil _).symm
  | @snoc s' s'' ls l hrun hok hs ih =>
    have hr := hrun.invariant h fun _ _ _ hr hok hs => hr.step hok.1 hs
    rw [hr.told_step he hok.2 hok.1 hs, ih, arrivalsAt_append, List.map_append]
    exact List.append_assoc _ _ _

/-- **A listener of a job misses nothing and is served nothing twice**: as long as it is indexed and registered in the
client, whatever the sections of other calls do, the messages submitted for it are exactly those that arrived under its
topic, in their order, but for those that the listener thread has captured and not delivered. -/
theorem exact_delivery {s₀ s₁ : Session} {ls₁ ls₂ : List Label} (h₀ : s₀.Initial) (he : e ≠ .status)
    (h₁ : Run Steps (fun _ l => Sectioned l) s₀ ls₁ s₁)
    (h₂ : Run Steps (fun s l => Sectioned l ∧ s.Serving j e k) s₁ ls₂ s) :
    toldOf k e s.tracker.tasks ++ awaited k e s.captured =
      toldOf k e s₁.tracker.tasks ++ awaited k e s₁.captured ++ (arrivalsAt (topicOf j e) e ls₂).map bare :=
  (run_bounds h₀ h₁).1.told_run he h₂

/-- Two lines for the listener of a job. -/
theorem exact_delivery_of_lines : ∃ s : Session,
    toldOf 3 .log s.tracker.tasks = [.log { log := "x" }, .log { log := "y" }] := by
  obtain ⟨s₁, h₁, -, s₂, h₂, -, -, -, hnone, hcap, s, h₃, hempty⟩ := run_of_listeners
  have htold := exact_delivery (initial_new _ unary_injective) (show Event.log ≠ .status by decide)
    ((h₁.append h₂).mono fun _ _ hl => hl.1) h₃
  rw [hnone, hcap, hempty] at htold
  exact ⟨s, (List.append_nil _).symm.trans htold⟩

end Session

end SlurmManager
