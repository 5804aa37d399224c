import Mathlib.Order.Defs.Unbundled

/-!
# Program — programs with a state and exceptions

`Program ε σ α` is a program that reads and writes a state `σ` and either returns an `α` or raises an
`ε`.  What it wrote before raising stays written: the exception transformer sits on top of the state
monad.  `exec` runs a program; the lemmas `exec_*` compute it on every way of building one, so that
a proof about a program is a symbolic execution by `simp`.

`Within r x` says that every run of `x` takes the state along the preorder `r`, however it ends; its
rules follow the shape of the program.  `Frame g x` (a part of the state is left alone) and `Keeps P x`
(an invariant is kept) are the two preorders in use.  `Succeeds P x` says that `x` returns from every state
with `P` and keeps `P`.  The last section computes `do` blocks in plain `Except`.
-/

/-- A program over the state `σ` that may raise an `ε`. -/
abbrev Program (ε σ : Type) : Type → Type := ExceptT ε (StateM σ)

namespace Program

variable {ε σ τ α β : Type}

/-- Run a program: how it ended, and the state it left. -/
def exec (x : Program ε σ α) (s : σ) : Except ε α × σ := Id.run (StateT.run (ExceptT.run x) s)

/-- Run a program on a part of the state. -/
def focus (get : σ → τ) (put : σ → τ → σ) (x : Program ε τ α) : Program ε σ α :=
  ExceptT.mk fun s => pure ((x.exec (get s)).1, put s (x.exec (get s)).2)

/-! ## Symbolic execution -/

@[simp] theorem exec_pure (a : α) (s : σ) : exec (pure a : Program ε σ α) s = (.ok a, s) := rfl

@[simp] theorem exec_throw (e : ε) (s : σ) :
    exec (throw e : Program ε σ α) s = (.error e, s) := rfl

@[simp] theorem exec_get (s : σ) : exec (get : Program ε σ σ) s = (.ok s, s) := rfl

@[simp] theorem exec_set (t s : σ) : exec (set t : Program ε σ PUnit) s = (.ok ⟨⟩, t) := rfl

@[simp] theorem exec_modify (f : σ → σ) (s : σ) :
    exec (modify f : Program ε σ PUnit) s = (.ok ⟨⟩, f s) := rfl

theorem exec_bind (x : Program ε σ α) (f : α → Program ε σ β) (s : σ) :
    exec (x >>= f) s = match exec x s with
      | (.ok a, t) => exec (f a) t
      | (.error e, t) => (.error e, t) := by
  show Id.run (StateT.run (ExceptT.run (x >>= f)) s) = _
  unfold exec
  rw [ExceptT.run_bind, StateT.run_bind]
  simp only [Id.run_bind]
  rcases Id.run (StateT.run (ExceptT.run x) s) with ⟨r, t⟩
  cases r <;> rfl

theorem exec_map (f : α → β) (x : Program ε σ α) (s : σ) :
    exec (f <$> x) s = ((exec x s).1.map f, (exec x s).2) := by
  have h : f <$> x = x >>= fun a => pure (f a) := (bind_pure_comp f x).symm
  rw [h, exec_bind]
  rcases exec x s with ⟨r, t⟩
  cases r <;> rfl

theorem exec_tryCatch (x : Program ε σ α) (h : ε → Program ε σ α) (s : σ) :
    exec (tryCatch x h) s = match exec x s with
      | (.ok a, t) => (.ok a, t)
      | (.error e, t) => exec (h e) t := by
  show Id.run (StateT.run (ExceptT.run (ExceptT.tryCatch x h)) s) = _
  unfold exec ExceptT.tryCatch
  rw [ExceptT.run_mk, StateT.run_bind]
  simp only [Id.run_bind]
  rcases hx : Id.run (StateT.run (ExceptT.run x) s) with ⟨r, t⟩
  have hx' : Id.run (StateT.run x s) = (r, t) := hx
  rw [hx']
  cases r <;> rfl

@[simp] theorem exec_focus (get : σ → τ) (put : σ → τ → σ) (x : Program ε τ α) (s : σ) :
    exec (focus get put x) s = ((x.exec (get s)).1, put s (x.exec (get s)).2) := rfl

theorem exec_ite (c : Prop) [Decidable c] (x y : Program ε σ α) (s : σ) :
    exec (if c then x else y) s = if c then exec x s else exec y s := by
  by_cases h : c
  · rw [if_pos h, if_pos h]
  · rw [if_neg h, if_neg h]

/-- A program that returned goes on with what follows it. -/
theorem exec_bind_ok {x : Program ε σ α} {f : α → Program ε σ β} {s t : σ} {a : α}
    (h : exec x s = (.ok a, t)) : exec (x >>= f) s = exec (f a) t := by
  rw [exec_bind, h]

/-- A program that raised skips what follows it. -/
theorem exec_bind_error {x : Program ε σ α} {f : α → Program ε σ β} {s t : σ} {e : ε}
    (h : exec x s = (.error e, t)) : exec (x >>= f) s = (.error e, t) := by
  rw [exec_bind, h]

/-- The state a program leaves, however it ends. -/
def after (x : Program ε σ α) (s : σ) : σ := (exec x s).2

/-! ## What every run of a program does to the state -/

section Within

variable {r : σ → σ → Prop}

/-- Every run of the program, whether it returns or raises, takes the state along `r`. -/
def Within (r : σ → σ → Prop) (x : Program ε σ α) : Prop := ∀ s, r s (x.after s)

theorem Within.of_exec {x : Program ε σ α} (h : Within r x) {s t : σ} {e : Except ε α}
    (he : exec x s = (e, t)) : r s t := by
  have hx := h s
  rw [after, he] at hx
  exact hx

theorem within_modify {f : σ → σ} (h : ∀ s, r s (f s)) : Within r (modify f : Program ε σ PUnit) := h

theorem within_focus {read : σ → τ} {put : σ → τ → σ} {x : Program ε τ α}
    (h : ∀ s, r s (put s (x.after (read s)))) : Within r (focus read put x) := h

variable [IsPreorder σ r]

theorem within_pure (a : α) : Within r (pure a : Program ε σ α) := fun s => refl s

theorem within_throw (e : ε) : Within r (throw e : Program ε σ α) := fun s => refl s

theorem within_get : Within r (get : Program ε σ σ) := fun s => refl s

theorem Within.bind {x : Program ε σ α} {f : α → Program ε σ β} (hx : Within r x)
    (hf : ∀ a, Within r (f a)) : Within r (x >>= f) := by
  intro s
  rw [after, exec_bind]
  rcases he : exec x s with ⟨e, t⟩
  have ht := hx.of_exec he
  cases e with
  | ok a => exact IsTrans.trans _ _ _ ht (hf a t)
  | error e => exact ht

theorem within_tryCatch {x : Program ε σ α} {f : ε → Program ε σ α} (hx : Within r x)
    (hf : ∀ e, Within r (f e)) : Within r (tryCatch x f) := by
  intro s
  rw [after, exec_tryCatch]
  rcases he : exec x s with ⟨e, t⟩
  have ht := hx.of_exec he
  cases e with
  | ok a => exact ht
  | error e => exact IsTrans.trans _ _ _ ht (hf e t)

theorem within_forM {l : List α} {f : α → Program ε σ PUnit} (hf : ∀ a ∈ l, Within r (f a)) :
    Within r (forM l f) := by
  induction l with
  | nil => exact within_pure _
  | cons a l ih =>
    rw [List.forM_cons]
    exact Within.bind (hf a (by simp)) fun _ => ih fun b hb => hf b (by simp [hb])

end Within

section Frames

variable {γ δ : Type} {g : σ → γ} {P : σ → Prop}

/-- The two states agree in the part `g`. -/
def Same (g : σ → γ) (s t : σ) : Prop := g t = g s

/-- What holds of the first state holds of the second. -/
def Kept (P : σ → Prop) (s t : σ) : Prop := P s → P t

instance : IsPreorder σ (Same g) where
  refl _ := rfl
  trans _ _ _ h h' := Eq.trans h' h

instance : IsPreorder σ (Kept P) where
  refl _ := id
  trans _ _ _ h h' := fun hs => h' (h hs)

/-- The program leaves the part `g` of the state alone. -/
abbrev Frame (g : σ → γ) (x : Program ε σ α) : Prop := Within (Same g) x

/-- The program keeps `P`. -/
abbrev Keeps (P : σ → Prop) (x : Program ε σ α) : Prop := Within (Kept P) x

/-- What leaves a part alone leaves a part of the part alone. -/
theorem Frame.map {x : Program ε σ α} (h : Frame g x) (k : γ → δ) : Frame (fun s => k (g s)) x :=
  fun s => congrArg k (h s)

/-- A program that begins by reading the state may use what holds of it. -/
theorem Keeps.get_bind {f : σ → Program ε σ α} (hf : ∀ s, P s → Keeps P (f s)) :
    Keeps P (get >>= f : Program ε σ α) := by
  intro s hs
  rw [after, exec_bind_ok (exec_get s)]
  exact hf s hs s hs

end Frames

/-! ## Commands that return -/

section Succeeds

variable {P : σ → Prop}

/-- From a state with `P` the program returns, and `P` still holds. -/
def Succeeds (P : σ → Prop) (x : Program ε σ α) : Prop := ∀ s, P s → ∃ a t, exec x s = (.ok a, t) ∧ P t

theorem succeeds_pure (a : α) : Succeeds P (pure a : Program ε σ α) := fun s hs => ⟨a, s, rfl, hs⟩

theorem succeeds_modify {f : σ → σ} (h : ∀ s, P s → P (f s)) : Succeeds P (modify f : Program ε σ PUnit) :=
  fun s hs => ⟨⟨⟩, f s, rfl, h s hs⟩

theorem Succeeds.bind {x : Program ε σ α} {f : α → Program ε σ β} (hx : Succeeds P x)
    (hf : ∀ a, Succeeds P (f a)) : Succeeds P (x >>= f) := by
  intro s hs
  obtain ⟨a, t, he, ht⟩ := hx s hs
  rw [exec_bind_ok he]
  exact hf a t ht

theorem Succeeds.get_bind {f : σ → Program ε σ α} (hf : ∀ s, Succeeds P (f s)) :
    Succeeds P (get >>= f : Program ε σ α) := by
  intro s hs
  rw [exec_bind_ok (exec_get s)]
  exact hf s s hs

theorem succeeds_focus {read : σ → τ} {put : σ → τ → σ} {Q : τ → Prop} {x : Program ε τ α} (hx : Succeeds Q x)
    (hread : ∀ s, P s → Q (read s)) (hput : ∀ s t, P s → Q t → P (put s t)) : Succeeds P (focus read put x) := by
  intro s hs
  obtain ⟨a, t, he, ht⟩ := hx (read s) (hread s hs)
  refine ⟨a, put s t, ?_, hput s t hs ht⟩
  rw [exec_focus, he]

theorem succeeds_forM {l : List α} {f : α → Program ε σ PUnit} (hf : ∀ a, Succeeds P (f a)) :
    Succeeds P (forM l f) := by
  induction l with
  | nil => exact succeeds_pure _
  | cons a l ih =>
    rw [List.forM_cons]
    exact (hf a).bind fun _ => ih

end Succeeds

end Program

/-! ## Plain exceptions -/

namespace Except

variable {ε α β : Type}

@[simp] theorem ok_bind (a : α) (f : α → Except ε β) : (Except.ok a >>= f) = f a := rfl

@[simp] theorem error_bind (e : ε) (f : α → Except ε β) : (Except.error e >>= f) = .error e := rfl

@[simp] theorem pure_eq_ok (a : α) : (pure a : Except ε α) = .ok a := rfl

/-- A computation that returned had a first part that returned. -/
theorem bind_eq_ok {x : Except ε α} {f : α → Except ε β} {b : β} :
    (x >>= f) = .ok b ↔ ∃ a, x = .ok a ∧ f a = .ok b := by
  cases x with
  | ok a => simp
  | error e => simp

end Except
