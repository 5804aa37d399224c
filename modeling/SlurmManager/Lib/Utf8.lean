import Mathlib.Data.List.Basic
import Mathlib.Tactic.Common

/-!
# Utf8 — bytes, runes and the places where a rune may be cut

UTF-8 by its table of leading bytes: `lead b` gives the length of the runes that begin with `b` and
the range of their second byte, `none` when no rune begins with `b`.

* `IsRune`, `Valid`: one encoded rune, and a sequence of them.
* `runeStart`, `fullRune`: the two tests a writer has on a partial text.  On a text that goes on to be
  valid they find the rune that is cut: `fullRune_of_proper`, `fullRune_append`, `runeStart_tail`.
* `Valid.split`: a cut through a valid text goes between two runes or through one.
-/

namespace Utf8

/-- The runes that begin with one byte: their length, and the range of the second byte. -/
structure Lead where
  size : ℕ
  lo : UInt8
  hi : UInt8
  deriving DecidableEq

/-- The table of leading bytes; `none` for a byte that begins no rune. -/
def lead (b : UInt8) : Option Lead :=
  if b < 0x80 then some ⟨1, 0x80, 0xBF⟩
  else if b < 0xC2 then none
  else if b < 0xE0 then some ⟨2, 0x80, 0xBF⟩
  else if b = 0xE0 then some ⟨3, 0xA0, 0xBF⟩
  else if b = 0xED then some ⟨3, 0x80, 0x9F⟩
  else if b < 0xF0 then some ⟨3, 0x80, 0xBF⟩
  else if b = 0xF0 then some ⟨4, 0x90, 0xBF⟩
  else if b < 0xF4 then some ⟨4, 0x80, 0xBF⟩
  else if b = 0xF4 then some ⟨4, 0x80, 0x8F⟩
  else none

/-- The byte is not a continuation byte. -/
def runeStart (b : UInt8) : Bool := b &&& 0xC0 != 0x80

/-- The bytes begin with a complete rune, or with something that no more bytes can complete. -/
def fullRune : List UInt8 → Bool
  | [] => false
  | b :: rest =>
    match lead b with
    | none => true
    | some l =>
      if l.size ≤ rest.length + 1 then true
      else match rest with
        | [] => false
        | [c] => decide (c < l.lo) || decide (l.hi < c)
        | c :: d :: _ => decide (c < l.lo) || decide (l.hi < c) || decide (d < 0x80) || decide (0xBF < d)

/-- The encoding of one rune. -/
inductive IsRune : List UInt8 → Prop
  | mk {b : UInt8} {rest : List UInt8} {l : Lead} (hl : lead b = some l) (hsize : rest.length + 1 = l.size)
      (hsecond : ∀ c ∈ rest.head?, l.lo ≤ c ∧ c ≤ l.hi) (htail : ∀ c ∈ rest, 0x80 ≤ c ∧ c ≤ 0xBF) :
    IsRune (b :: rest)

/-- A sequence of runes. -/
inductive Valid : List UInt8 → Prop
  | nil : Valid []
  | cons {r l : List UInt8} (hr : IsRune r) (hl : Valid l) : Valid (r ++ l)

/-! ## Bytes -/

section Bytes

theorem forall_byte {p : UInt8 → Prop} (h : ∀ n : Fin 256, p (UInt8.ofFin n)) (b : UInt8) : p b :=
  h b.toFin

theorem runeStart_of_lead {b : UInt8} {l : Lead} (h : lead b = some l) : runeStart b = true := by
  revert h
  apply forall_byte (p := fun b => lead b = some l → runeStart b = true)
  intro n h
  have hn : ∀ n : Fin 256, (lead (UInt8.ofFin n)).isSome = true → runeStart (UInt8.ofFin n) = true := by
    decide +kernel
  exact hn n (by rw [h]; rfl)

theorem size_of_lead {b : UInt8} {l : Lead} (h : lead b = some l) : 1 ≤ l.size ∧ l.size ≤ 4 := by
  unfold lead at h
  split_ifs at h <;> (obtain rfl := Option.some.inj h; decide)

theorem size_eq_one_iff {b : UInt8} {l : Lead} (h : lead b = some l) : l.size = 1 ↔ b < 0x80 := by
  unfold lead at h
  split_ifs at h with hb <;> (obtain rfl := Option.some.inj h; simp [hb])

theorem runeStart_tail {c : UInt8} (h : 0x80 ≤ c ∧ c ≤ 0xBF) : runeStart c = false := by
  revert h
  apply forall_byte (p := fun c => 0x80 ≤ c ∧ c ≤ 0xBF → runeStart c = false)
  decide +kernel

end Bytes

/-! ## Runes -/

section Runes

variable {r x y : List UInt8}

theorem IsRune.length_le (h : IsRune r) : 1 ≤ r.length ∧ r.length ≤ 4 := by
  obtain ⟨hl, hsize, -, -⟩ := h
  rw [List.length_cons, hsize]
  exact size_of_lead hl

/-- An ASCII byte occurs only as a rune of its own. -/
theorem IsRune.eq_singleton {b : UInt8} (h : IsRune r) (hb : b < 0x80) (hmem : b ∈ r) : r = [b] := by
  obtain ⟨hl, hsize, -, htail⟩ := h
  rename_i b' rest l
  rcases List.mem_cons.mp hmem with rfl | hrest
  · have h1 := (size_eq_one_iff hl).mpr hb
    have hnil : rest.length = 0 := by omega
    rw [List.length_eq_zero_iff.mp hnil]
  · exact absurd hb (UInt8.not_lt.mpr (htail b hrest).1)

/-- Something longer than a rune that begins with it is complete. -/
theorem fullRune_append (h : IsRune r) (x : List UInt8) : fullRune (r ++ x) = true := by
  obtain ⟨hl, hsize, -, -⟩ := h
  rename_i b rest l
  unfold fullRune
  rw [List.cons_append]
  simp only [hl]
  rw [if_pos]
  rw [List.length_append]
  omega

/-- No rune is longer than four bytes. -/
theorem fullRune_of_length (h : 4 ≤ x.length) : fullRune x = true := by
  cases x with
  | nil => simp at h
  | cons b rest =>
    unfold fullRune
    simp only
    cases hl : lead b with
    | none => rfl
    | some l =>
      have hsize := (size_of_lead hl).2
      rw [List.length_cons] at h
      simp only
      rw [if_pos]
      omega

/-- The beginning of a rune is not complete. -/
theorem fullRune_of_proper (h : IsRune (x ++ y)) (hy : y ≠ []) : fullRune x = false := by
  generalize hr : x ++ y = r at h
  obtain ⟨hl, hsize, hsecond, htail⟩ := h
  rename_i b rest l
  have hpos := List.length_pos_iff.mpr hy
  cases x with
  | nil => rfl
  | cons b' x =>
    rw [List.cons_append] at hr
    obtain ⟨rfl, rfl⟩ := List.cons.inj hr
    rw [List.length_append] at hsize
    have hshort : ¬ l.size ≤ x.length + 1 := by omega
    unfold fullRune
    simp only [hl, if_neg hshort]
    cases x with
    | nil => rfl
    | cons c x =>
      obtain ⟨hlo, hhi⟩ := hsecond c rfl
      cases x with
      | nil => simp [UInt8.not_lt.mpr hlo, UInt8.not_lt.mpr hhi]
      | cons d x =>
        obtain ⟨hd, hd'⟩ := htail d (by simp)
        simp [UInt8.not_lt.mpr hlo, UInt8.not_lt.mpr hhi, UInt8.not_lt.mpr hd, UInt8.not_lt.mpr hd']

/-- The rest of a rune begins with a continuation byte. -/
theorem runeStart_of_proper (h : IsRune (x ++ y)) (hx : x ≠ []) {c : UInt8} (hc : c ∈ y) :
    runeStart c = false := by
  generalize hr : x ++ y = r at h
  obtain ⟨-, -, -, htail⟩ := h
  cases x with
  | nil => exact absurd rfl hx
  | cons b x =>
    rw [List.cons_append] at hr
    obtain ⟨-, rfl⟩ := List.cons.inj hr
    exact runeStart_tail (htail c (List.mem_append_right _ hc))

theorem IsRune.head (h : IsRune r) : ∃ b rest, r = b :: rest ∧ runeStart b = true := by
  obtain ⟨hl, -, -, -⟩ := h
  exact ⟨_, _, rfl, runeStart_of_lead hl⟩

end Runes

/-! ## Valid texts -/

section Texts

variable {a b l : List UInt8}

theorem IsRune.valid (h : IsRune l) : Valid l := by
  have hl := Valid.cons h Valid.nil
  rwa [List.append_nil] at hl

/-- **A cut through a valid text** leaves whole runes on both sides, and at most one rune in two parts. -/
theorem Valid.split (h : Valid (a ++ b)) :
    ∃ a' x y b', a = a' ++ x ∧ b = y ++ b' ∧ Valid a' ∧ Valid b' ∧
      ((x = [] ∧ y = []) ∨ (x ≠ [] ∧ y ≠ [] ∧ IsRune (x ++ y))) := by
  generalize hl : a ++ b = l at h
  induction h generalizing a with
  | nil =>
    obtain ⟨rfl, rfl⟩ := List.append_eq_nil_iff.mp hl
    exact ⟨[], [], [], [], rfl, rfl, Valid.nil, Valid.nil, Or.inl ⟨rfl, rfl⟩⟩
  | @cons r l hr hv ih =>
    rcases List.append_eq_append_iff.mp hl with ⟨c, rfl, rfl⟩ | ⟨c, rfl, hc⟩
    · -- the cut is within the first rune, or at one of its ends
      by_cases ha : a = []
      · subst ha
        exact ⟨[], [], [], c ++ l, rfl, rfl, Valid.nil, Valid.cons hr hv, Or.inl ⟨rfl, rfl⟩⟩
      · by_cases hc : c = []
        · subst hc
          rw [List.append_nil] at hr
          exact ⟨a, [], [], l, (List.append_nil a).symm, rfl, hr.valid, hv, Or.inl ⟨rfl, rfl⟩⟩
        · exact ⟨[], a, c, l, rfl, rfl, Valid.nil, hv, Or.inr ⟨ha, hc, hr⟩⟩
    · obtain ⟨a', x, y, b', rfl, rfl, ha', hb', hxy⟩ := ih hc.symm
      exact ⟨r ++ a', x, y, b', (List.append_assoc _ _ _).symm, rfl, Valid.cons hr ha', hb', hxy⟩

/-- A text may be cut in front of a byte that begins a rune. -/
theorem Valid.of_runeStart {c : UInt8} (h : Valid (a ++ c :: b)) (hc : runeStart c = true) :
    Valid a ∧ Valid (c :: b) := by
  obtain ⟨a', x, y, b', rfl, hb, ha', hb', ⟨rfl, rfl⟩ | ⟨hx, hy, hr⟩⟩ := h.split
  · rw [List.append_nil]
    rw [List.nil_append] at hb
    exact ⟨ha', hb ▸ hb'⟩
  · cases y with
    | nil => exact absurd rfl hy
    | cons d y =>
      obtain ⟨rfl, -⟩ := List.cons.inj hb
      rw [runeStart_of_proper hr hx List.mem_cons_self] at hc
      contradiction

/-- A text may be cut around an ASCII byte. -/
theorem Valid.of_ascii {c : UInt8} (h : Valid (a ++ c :: b)) (hc : c < 0x80) : Valid a ∧ Valid b := by
  have hl : lead c = some ⟨1, 0x80, 0xBF⟩ := if_pos hc
  obtain ⟨ha, hcb⟩ := h.of_runeStart (runeStart_of_lead hl)
  refine ⟨ha, ?_⟩
  generalize hx : c :: b = l at hcb
  cases hcb with
  | nil => simp at hx
  | @cons r l hr hv =>
    obtain ⟨d, rest, rfl, -⟩ := hr.head
    obtain ⟨rfl, rfl⟩ := List.cons.inj hx
    obtain ⟨-, rfl⟩ := List.cons.inj (hr.eq_singleton hc List.mem_cons_self)
    exact hv

/-- A text that is valid and not empty begins with a complete rune, whatever follows it. -/
theorem Valid.fullRune (h : Valid a) (ha : a ≠ []) (x : List UInt8) : fullRune (a ++ x) = true := by
  cases h with
  | nil => exact absurd rfl ha
  | cons hr _ =>
    rw [List.append_assoc]
    exact fullRune_append hr _

end Texts

end Utf8
