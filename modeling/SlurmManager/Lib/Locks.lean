import SlurmManager.Lib.Runs
import Mathlib.Logic.Relation
import Mathlib.Logic.Function.Basic
import Mathlib.Order.Basic

/-!
# Locks — lock orders of programs with re-entrant locks

A program is what it does with its locks: blocks `with lock:`, branches, loops, exceptions and handlers
(`LockCode`); its paths are the sequences of acquisitions and releases it can make.  Any number of threads run
such programs one after the other; a lock is held by one thread at a time, by that thread any number of times.

* `LockCode.Ordered`: every block takes a lock that is held already or that ranks above all held ones.
* `Disciplined`: the same of a sequence of acquisitions and releases; `Path.disciplined` leads from one to the
  other.
* `LockState.acyclic`: if all programs are ordered, no cycle of threads wait for each other.
-/

/-- A program over locks `κ`; `ι` are the objects a run may come across. -/
inductive LockCode (κ ι : Type)
  /-- Code that takes no lock; it may raise. -/
  | plain
  | raise
  /-- `with lock:`. -/
  | withLock (l : κ) (body : LockCode κ ι)
  | seq (p q : LockCode κ ι)
  | either (p q : LockCode κ ι)
  /-- A loop. -/
  | many (p : LockCode κ ι)
  /-- Code about an object found on the way. -/
  | any (p : ι → LockCode κ ι)
  /-- `try` and `except`. -/
  | attempt (p handler : LockCode κ ι)

inductive LockEvent (κ : Type)
  | acquire (l : κ)
  | release (l : κ)

namespace LockCode

variable {κ ι : Type}

/-- The code takes these locks on this path, and raises in the end or not. -/
inductive Path : LockCode κ ι → List (LockEvent κ) → Bool → Prop
  | plain (raised : Bool) : Path .plain [] raised
  | raise : Path .raise [] true
  | withLock {l : κ} {p : LockCode κ ι} {es : List (LockEvent κ)} {raised : Bool} (h : Path p es raised) :
    Path (.withLock l p) (.acquire l :: (es ++ [.release l])) raised
  | seq {p q : LockCode κ ι} {es es' : List (LockEvent κ)} {raised : Bool} (h : Path p es false) (h' : Path q es' raised) :
    Path (.seq p q) (es ++ es') raised
  | seqRaised {p q : LockCode κ ι} {es : List (LockEvent κ)} (h : Path p es true) : Path (.seq p q) es true
  | left {p q : LockCode κ ι} {es : List (LockEvent κ)} {raised : Bool} (h : Path p es raised) :
    Path (.either p q) es raised
  | right {p q : LockCode κ ι} {es : List (LockEvent κ)} {raised : Bool} (h : Path q es raised) :
    Path (.either p q) es raised
  | stop {p : LockCode κ ι} : Path (.many p) [] false
  | again {p : LockCode κ ι} {es es' : List (LockEvent κ)} {raised : Bool} (h : Path p es false)
    (h' : Path (.many p) es' raised) : Path (.many p) (es ++ es') raised
  | manyRaised {p : LockCode κ ι} {es : List (LockEvent κ)} (h : Path p es true) : Path (.many p) es true
  | any {p : ι → LockCode κ ι} (i : ι) {es : List (LockEvent κ)} {raised : Bool} (h : Path (p i) es raised) :
    Path (.any p) es raised
  | attempt {p handler : LockCode κ ι} {es : List (LockEvent κ)} {raised : Bool} (h : Path p es raised) :
    Path (.attempt p handler) es raised
  | caught {p handler : LockCode κ ι} {es es' : List (LockEvent κ)} {raised : Bool} (h : Path p es true)
    (h' : Path handler es' raised) : Path (.attempt p handler) (es ++ es') raised

variable {α : Type} [Preorder α] (rank : κ → α)

/-- The lock is held already, or it ranks above all that are. -/
def Fits (held : List κ) (l : κ) : Prop := l ∈ held ∨ ∀ k ∈ held, rank k < rank l

/-- Every block of the code takes a lock that fits. -/
def Ordered (held : List κ) : LockCode κ ι → Prop
  | .plain => True
  | .raise => True
  | .withLock l p => Fits rank held l ∧ p.Ordered (l :: held)
  | .seq p q => p.Ordered held ∧ q.Ordered held
  | .either p q => p.Ordered held ∧ q.Ordered held
  | .many p => p.Ordered held
  | .any p => ∀ i, (p i).Ordered held
  | .attempt p handler => p.Ordered held ∧ handler.Ordered held

/-- Every acquisition fits, every release is of the lock taken last, and no lock is left held. -/
def Disciplined (held : List κ) : List (LockEvent κ) → Prop
  | [] => held = []
  | .acquire l :: es => Fits rank held l ∧ Disciplined (l :: held) es
  | .release l :: es => ∃ rest, held = l :: rest ∧ Disciplined rest es

variable {rank}

/-- The paths of ordered code are disciplined, whatever disciplined path follows. -/
theorem Path.disciplined {p : LockCode κ ι} {es : List (LockEvent κ)} {raised : Bool} (h : Path p es raised)
    {held : List κ} (hp : p.Ordered rank held) {rest : List (LockEvent κ)} (hrest : Disciplined rank held rest) :
    Disciplined rank held (es ++ rest) := by
  induction h generalizing held rest with
  | plain => exact hrest
  | raise => exact hrest
  | withLock h ih =>
    refine ⟨hp.1, ?_⟩
    rw [List.append_eq, List.append_assoc]
    exact ih hp.2 ⟨held, rfl, hrest⟩
  | seq _ _ ih ih' =>
    rw [List.append_assoc]
    exact ih hp.1 (ih' hp.2 hrest)
  | seqRaised _ ih => exact ih hp.1 hrest
  | left _ ih => exact ih hp.1 hrest
  | right _ ih => exact ih hp.2 hrest
  | stop => exact hrest
  | again _ _ ih ih' =>
    rw [List.append_assoc]
    exact ih hp (ih' hp hrest)
  | manyRaised _ ih => exact ih hp hrest
  | any i _ ih => exact ih (hp i) hrest
  | attempt _ ih => exact ih hp.1 hrest
  | caught _ _ ih ih' =>
    rw [List.append_assoc]
    exact ih hp.1 (ih' hp.2 hrest)

end LockCode

/-! ## Threads -/

/-- For each thread the locks it holds, the last one first, and what it will do with locks until the end of the
program it runs. -/
structure LockState (θ κ : Type) where
  held : θ → List κ := fun _ => []
  todo : θ → List (LockEvent κ) := fun _ => []

namespace LockState

open LockCode

variable {θ κ ι ω : Type} [DecidableEq θ] [DecidableEq κ]

/-- The thread with other locks and another path. -/
def goto (s : LockState θ κ) (n : θ) (held : List κ) (todo : List (LockEvent κ)) : LockState θ κ where
  held := Function.update s.held n held
  todo := Function.update s.todo n todo

/-- A thread starts a program, takes a lock that no other thread holds, or gives one back. -/
inductive Step (code : ω → LockCode κ ι) : LockState θ κ → θ → LockState θ κ → Prop
  | start {s : LockState θ κ} {n : θ} (op : ω) {es : List (LockEvent κ)} {raised : Bool}
    (hidle : s.todo n = []) (hpath : Path (code op) es raised) : Step code s n (s.goto n (s.held n) es)
  | acquire {s : LockState θ κ} {n : θ} {l : κ} {es : List (LockEvent κ)} (hnext : s.todo n = .acquire l :: es)
    (hfree : ∀ m, m ≠ n → l ∉ s.held m) : Step code s n (s.goto n (l :: s.held n) es)
  | release {s : LockState θ κ} {n : θ} {l : κ} {es : List (LockEvent κ)} (hnext : s.todo n = .release l :: es) :
    Step code s n (s.goto n ((s.held n).erase l) es)

/-- The thread is about to take the lock. -/
def Wants (s : LockState θ κ) (n : θ) (l : κ) : Prop := ∃ es, s.todo n = .acquire l :: es

/-- A thread waits for a lock that the other one holds. -/
def WaitsFor (s : LockState θ κ) (n m : θ) : Prop := ∃ l, s.Wants n l ∧ m ≠ n ∧ l ∈ s.held m

variable {α : Type} [Preorder α] (rank : κ → α)

/-- **The invariant**: a lock has one holder, and every thread is on a disciplined path. -/
structure Fair (s : LockState θ κ) : Prop where
  exclusive : ∀ n m l, l ∈ s.held n → l ∈ s.held m → n = m
  disciplined : ∀ n, Disciplined rank (s.held n) (s.todo n)

variable {rank} {s s' : LockState θ κ}

omit [DecidableEq θ] [DecidableEq κ] in
theorem fair_idle : Fair rank ({} : LockState θ κ) :=
  ⟨fun _ _ _ h => absurd h List.not_mem_nil, fun _ => rfl⟩

omit [DecidableEq κ] in
theorem mem_held_goto {n m : θ} {held : List κ} {todo : List (LockEvent κ)} {l : κ}
    (h : l ∈ (s.goto n held todo).held m) : m = n ∧ l ∈ held ∨ m ≠ n ∧ l ∈ s.held m := by
  by_cases hm : m = n
  · subst hm
    exact .inl ⟨rfl, by simpa [goto] using h⟩
  · exact .inr ⟨hm, by simpa [goto, hm] using h⟩

omit [DecidableEq κ] in
theorem Fair.goto (h : s.Fair rank) {n : θ} {held : List κ} {todo : List (LockEvent κ)}
    (hheld : ∀ l ∈ held, ∀ m, m ≠ n → l ∉ s.held m) (hd : Disciplined rank held todo) :
    (s.goto n held todo).Fair rank := by
  refine ⟨fun a b l ha hb => ?_, fun m => ?_⟩
  · rcases mem_held_goto ha with ⟨ha, hla⟩ | ⟨ha, hla⟩ <;> rcases mem_held_goto hb with ⟨hb, hlb⟩ | ⟨hb, hlb⟩
    · exact ha.trans hb.symm
    · exact absurd hlb (hheld l hla b hb)
    · exact absurd hla (hheld l hlb a ha)
    · exact h.exclusive a b l hla hlb
  · by_cases hm : m = n
    · subst hm
      simpa [LockState.goto] using hd
    · simpa [LockState.goto, hm] using h.disciplined m

theorem Fair.step {code : ω → LockCode κ ι} (hcode : ∀ op, (code op).Ordered rank []) (h : s.Fair rank) {n : θ}
    (hs : Step code s n s') : s'.Fair rank := by
  have hn := h.disciplined n
  have hown : ∀ l ∈ s.held n, ∀ m, m ≠ n → l ∉ s.held m := fun l hl m hm hl' => hm (h.exclusive m n l hl' hl)
  cases hs with
  | start op hidle hpath =>
    rw [hidle] at hn
    have hheld : s.held n = [] := hn
    refine h.goto hown ?_
    rw [hheld]
    have hd := hpath.disciplined (hcode op) (show Disciplined rank [] [] from rfl)
    rwa [List.append_nil] at hd
  | acquire hnext hfree =>
    rw [hnext] at hn
    refine h.goto (fun k hk m hm => ?_) hn.2
    rcases List.mem_cons.mp hk with rfl | hk
    · exact hfree m hm
    · exact hown k hk m hm
  | release hnext =>
    rw [hnext] at hn
    obtain ⟨rest, hheld, hrest⟩ := hn
    refine h.goto (fun k hk => hown k (List.mem_of_mem_erase hk)) ?_
    rw [hheld, List.erase_cons_head]
    exact hrest

omit [DecidableEq θ] [DecidableEq κ] in
theorem Wants.unique {n : θ} {l k : κ} (h : s.Wants n l) (h' : s.Wants n k) : l = k := by
  obtain ⟨es, he⟩ := h
  obtain ⟨es', he'⟩ := h'
  exact LockEvent.acquire.inj (List.cons.inj (he.symm.trans he')).1

omit [DecidableEq θ] [DecidableEq κ] in
/-- A thread that waits, and waits for one that waits, wants the lower lock. -/
theorem Fair.wants_lt (h : s.Fair rank) {n m k : θ} {l l' : κ} (hn : s.WaitsFor n m) (hl : s.Wants n l)
    (hm : s.WaitsFor m k) (hl' : s.Wants m l') : rank l < rank l' := by
  obtain ⟨_, hwant, -, hheld⟩ := hn
  obtain rfl := hwant.unique hl
  obtain ⟨_, hwant', hne, hheld'⟩ := hm
  obtain rfl := hwant'.unique hl'
  obtain ⟨es, hes⟩ := hl'
  have hd := h.disciplined m
  rw [hes] at hd
  rcases hd.1 with hmem | hlt
  · exact absurd (h.exclusive _ _ _ hheld' hmem) hne
  · exact hlt _ hheld

omit [DecidableEq θ] [DecidableEq κ] in
/-- **No cycle**: along a chain of waiting threads the wanted locks rise. -/
theorem Fair.acyclic (h : s.Fair rank) (n : θ) : ¬ Relation.TransGen s.WaitsFor n n := by
  have hrise : ∀ {a b}, Relation.TransGen s.WaitsFor a b → ∀ {c l l'}, s.Wants a l → s.WaitsFor b c → s.Wants b l' →
      rank l < rank l' := by
    intro a b hab
    induction hab with
    | single hab => exact fun hl hbc hl' => h.wants_lt hab hl hbc hl'
    | tail _ hbd ih =>
      intro c l l' hl hdc hl'
      obtain ⟨k, hk, -⟩ := id hbd
      exact lt_trans (ih hl hbd hk) (h.wants_lt hbd hk hdc hl')
  intro hcycle
  obtain ⟨m, hm, -⟩ := Relation.TransGen.head'_iff.mp hcycle
  obtain ⟨l, hl, -⟩ := id hm
  exact lt_irrefl _ (hrise hcycle hl hm hl)

/-- Ordered programs never block each other in a cycle. -/
theorem acyclic {code : ω → LockCode κ ι} (hcode : ∀ op, (code op).Ordered rank []) {ls : List θ}
    (hrun : Run (Step code) (fun _ _ => True) {} ls s) (n : θ) : ¬ Relation.TransGen s.WaitsFor n n := by
  have h : s.Fair rank := hrun.invariant fair_idle fun _ _ _ h _ hs => h.step hcode hs
  exact h.acyclic n

end LockState
