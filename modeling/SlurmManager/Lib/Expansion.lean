import Mathlib.Data.List.Infix
import Mathlib.Tactic.Common

/-!
# Expansion — what the parameter expansions of a shell compute

* `afterLast`, `beforeLast`: `${x##*c}` and `${x%c*}`.
* `chopPrefix`, `chopSuffix`: `${x#text}` and `${x%text}`, for a text without wildcards.
* `glob`: the pattern `head*tail`.
-/

namespace Shell

variable {α : Type} [DecidableEq α]

/-- What follows the last `c`; everything if there is none. -/
def afterLast (c : α) (l : List α) : List α := (l.reverse.takeWhile (· ≠ c)).reverse

/-- What precedes the last `c`; everything if there is none. -/
def beforeLast (c : α) (l : List α) : List α :=
  if c ∈ l then (l.reverse.dropWhile (· ≠ c)).tail.reverse else l

def chopPrefix (head l : List α) : List α := if head <+: l then l.drop head.length else l

def chopSuffix (tail l : List α) : List α := if tail <:+ l then l.take (l.length - tail.length) else l

/-- `l` matches `head*tail`. -/
def glob (head tail l : List α) : Bool := decide (head <+: l) && decide (tail <:+ l.drop head.length)

section

variable {c : α} {u v : List α}

theorem takeWhile_append_cons (u : List α) (hv : c ∉ v) :
    (v ++ c :: u).takeWhile (· ≠ c) = v ∧ (v ++ c :: u).dropWhile (· ≠ c) = c :: u := by
  induction v with
  | nil => simp
  | cons x v ih =>
    have hx : x ≠ c := fun h => hv (h ▸ List.mem_cons_self)
    obtain ⟨h1, h2⟩ := ih fun h => hv (List.mem_cons_of_mem x h)
    rw [List.cons_append, List.takeWhile_cons_of_pos (by simpa using hx), h1,
      List.dropWhile_cons_of_pos (by simpa using hx), h2]
    exact ⟨rfl, rfl⟩

omit [DecidableEq α] in
theorem reverse_append_cons : (u ++ c :: v).reverse = v.reverse ++ c :: u.reverse := by simp

@[simp] theorem afterLast_append (hv : c ∉ v) : afterLast c (u ++ c :: v) = v := by
  have hr : c ∉ v.reverse := by simpa using hv
  rw [afterLast, reverse_append_cons, (takeWhile_append_cons u.reverse hr).1, List.reverse_reverse]

@[simp] theorem beforeLast_append (hv : c ∉ v) : beforeLast c (u ++ c :: v) = u := by
  have hr : c ∉ v.reverse := by simpa using hv
  rw [beforeLast, if_pos (by simp), reverse_append_cons, (takeWhile_append_cons u.reverse hr).2, List.tail_cons,
    List.reverse_reverse]

@[simp] theorem chopPrefix_append : chopPrefix u (u ++ v) = v := by simp [chopPrefix]

@[simp] theorem chopSuffix_append : chopSuffix v (u ++ v) = u := by simp [chopSuffix]

theorem glob_iff {head tail l : List α} : glob head tail l = true ↔ ∃ mid, l = head ++ (mid ++ tail) := by
  constructor
  · intro h
    simp only [glob, Bool.and_eq_true, decide_eq_true_eq] at h
    obtain ⟨⟨rest, rfl⟩, mid, hmid⟩ := h
    rw [List.drop_left] at hmid
    exact ⟨mid, by rw [hmid]⟩
  · rintro ⟨mid, rfl⟩
    simp [glob]

end

end Shell
