import Mathlib.Data.List.Induction
import Mathlib.Tactic.SplitIfs

/-!
# Runs — finite runs of a labelled transition relation

`Run R ok s ls t`: from `s`, steps of `R` with the labels `ls` lead to `t`, and every step was taken
from a state in which `ok` allows its label.  The predicate `ok` is how a result restricts the runs it
is about: which labels occur at all, and what has to hold when one is taken.

* `Run.invariant`: what every allowed step keeps holds at the end.
* `Run.append`, `Run.mono`, `Run.split`: runs compose, may be restricted, and may be cut.
* `Run.simulate`: a relation that every step keeps by a run of another system is kept by runs.
-/

/-- A finite run in which every step is allowed. -/
inductive Run {σ ι : Type} (R : σ → ι → σ → Prop) (ok : σ → ι → Prop) : σ → List ι → σ → Prop
  | nil (s : σ) : Run R ok s [] s
  | snoc {s t u : σ} {ls : List ι} {l : ι} (h : Run R ok s ls t) (hok : ok t l) (hstep : R t l u) :
    Run R ok s (ls ++ [l]) u

namespace Run

variable {σ ι : Type} {R : σ → ι → σ → Prop} {ok ok' : σ → ι → Prop} {s t u : σ} {ls ls' : List ι}

theorem single {l : ι} (hok : ok s l) (hstep : R s l t) : Run R ok s [l] t :=
  snoc (nil s) hok hstep

theorem append (h : Run R ok s ls t) (h' : Run R ok t ls' u) : Run R ok s (ls ++ ls') u := by
  induction h' with
  | nil => rwa [List.append_nil]
  | snoc _ hok hstep ih =>
    rw [← List.append_assoc]
    exact snoc ih hok hstep

theorem cons {l : ι} (hok : ok s l) (hstep : R s l t) (h : Run R ok t ls u) :
    Run R ok s (l :: ls) u := append (single hok hstep) h

/-- Weaker requirements allow more runs. -/
theorem mono (h : Run R ok s ls t) (hok : ∀ s l, ok s l → ok' s l) : Run R ok' s ls t := by
  induction h with
  | nil => exact nil s
  | snoc _ hl hstep ih => exact snoc ih (hok _ _ hl) hstep

/-- A run whose steps keep an invariant meets every requirement that follows from it. -/
theorem strengthen {I : σ → Prop} (h : Run R ok s ls t) (hs : I s)
    (hstep : ∀ s l t, I s → ok s l → R s l t → I t) (hok : ∀ s l, I s → ok s l → ok' s l) :
    Run R ok' s ls t ∧ I t := by
  induction h with
  | nil => exact ⟨nil s, hs⟩
  | snoc _ hl hR ih =>
    obtain ⟨hrun, hI⟩ := ih
    exact ⟨snoc hrun (hok _ _ hI hl) hR, hstep _ _ _ hI hl hR⟩

/-- **Induction over runs**: a property that every allowed step keeps holds at the end. -/
theorem invariant {I : σ → Prop} (h : Run R ok s ls t) (hs : I s)
    (hstep : ∀ s l t, I s → ok s l → R s l t → I t) : I t := by
  induction h with
  | nil => exact hs
  | snoc _ hok hR ih => exact hstep _ _ _ ih hok hR

/-- A step function that answers every label takes a run. -/
theorem of_foldlM {step : σ → ι → Option σ} (hR : ∀ s l t, step s l = some t → R s l t)
    (h : ls.foldlM step s = some t) : Run R (fun _ _ => True) s ls t := by
  induction ls generalizing s with
  | nil =>
    obtain rfl : s = t := Option.some.inj h
    exact nil s
  | cons l ls ih =>
    rw [List.foldlM_cons] at h
    obtain ⟨u, hu, h⟩ := Option.bind_eq_some_iff.mp h
    exact cons trivial (hR s l u hu) (ih h)

/-- The run that a step function takes, evaluated. -/
theorem of_evaluated {step : σ → ι → Option σ} {q : σ → Prop} [DecidablePred q]
    (hR : ∀ s l t, step s l = some t → R s l t) (h : (ls.foldlM step s).any fun t => decide (q t)) :
    ∃ t, Run R (fun _ _ => True) s ls t ∧ q t := by
  obtain ⟨t, ht, hq⟩ := (Option.any_eq_true _ _).mp h
  exact ⟨t, of_foldlM hR ht, of_decide_eq_true hq⟩

/-- Whether the step function takes the labels, each allowed by `p`, to a state with `q`. -/
def leads (step : σ → ι → Option σ) (p : σ → ι → Bool) (q : σ → Bool) (ls : List ι) (s : σ) : Bool :=
  (ls.foldlM (fun s l => if p s l then step s l else none) s).any q

/-- The same with requirements that can be decided. -/
theorem of_leads {step : σ → ι → Option σ} {p : σ → ι → Bool} {q : σ → Bool}
    (hR : ∀ s l t, step s l = some t → R s l t) (hp : ∀ s l, p s l = true → ok s l) (h : leads step p q ls s) :
    ∃ t, Run R ok s ls t ∧ q t = true := by
  unfold leads at h
  induction ls generalizing s with
  | nil => exact ⟨s, nil s, h⟩
  | cons l ls ih =>
    rw [List.foldlM_cons] at h
    obtain ⟨t, ht, hq⟩ := (Option.any_eq_true _ _).mp h
    obtain ⟨u, hu, ht⟩ := Option.bind_eq_some_iff.mp ht
    split_ifs at hu with hl
    obtain ⟨t', hrun, ht'⟩ := ih (s := u) ((Option.any_eq_true _ _).mpr ⟨t, ht, hq⟩)
    exact ⟨t', cons (hp s l hl) (hR s l u hu) hrun, ht'⟩

/-- A run over a concatenation passes through a state in between. -/
theorem split (h : Run R ok s (ls ++ ls') u) : ∃ t, Run R ok s ls t ∧ Run R ok t ls' u := by
  induction ls' using List.reverseRecOn generalizing u with
  | nil =>
    rw [List.append_nil] at h
    exact ⟨u, h, nil u⟩
  | append_singleton ls' l ih =>
    rw [← List.append_assoc] at h
    generalize hl : ls ++ ls' ++ [l] = k at h
    cases h with
    | nil => simp at hl
    | snoc hrun hok hR =>
      obtain ⟨rfl, hl'⟩ := List.append_inj' hl rfl
      obtain rfl := List.singleton_inj.mp hl'
      obtain ⟨t, h1, h2⟩ := ih hrun
      exact ⟨t, h1, snoc h2 hok hR⟩

/-- The first step of a run. -/
theorem uncons {l : ι} (h : Run R ok s (l :: ls) u) : ∃ t, ok s l ∧ R s l t ∧ Run R ok t ls u := by
  obtain ⟨t, hfirst, hrest⟩ := split (show Run R ok s ([l] ++ ls) u from h)
  generalize hl : [l] = k at hfirst
  cases hfirst with
  | nil => contradiction
  | @snoc r _ ks l' hrun hok hR =>
    obtain ⟨hks, hl'⟩ := List.append_inj' (show [] ++ [l] = ks ++ [l'] from hl) rfl
    obtain rfl := List.singleton_inj.mp hl'
    subst hks
    generalize hk : ([] : List ι) = k at hrun
    cases hrun with
    | nil => exact ⟨t, hok, hR, hrest⟩
    | snoc => simp at hk

variable {τ κ : Type} {S : τ → κ → τ → Prop} {okS : τ → κ → Prop}

/-- **Simulation**: when every allowed step is answered by a run of `S`, so is every run. -/
theorem simulate {r : σ → τ → Prop} (h : Run R ok s ls t) {a : τ} (ha : r s a)
    (hstep : ∀ s l t a, r s a → ok s l → R s l t → ∃ ks b, Run S okS a ks b ∧ r t b) :
    ∃ ks b, Run S okS a ks b ∧ r t b := by
  induction h with
  | nil => exact ⟨[], a, nil a, ha⟩
  | snoc _ hok hR ih =>
    obtain ⟨ks, b, hrun, hb⟩ := ih
    obtain ⟨ks', b', hrun', hb'⟩ := hstep _ _ _ b hb hok hR
    exact ⟨ks ++ ks', b', hrun.append hrun', hb'⟩

end Run
