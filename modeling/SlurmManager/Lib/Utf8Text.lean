import SlurmManager.Lib.Utf8

/-!
# Utf8Text — the characters of a byte sequence, valid or not

A reader that takes whole runes where there are some, and one byte where there is none.  `runes` says for each of
them whether it was a rune; `decode` puts U+FFFD for what was none.

* `decode_start`, `decode_whole`: where a text may be cut without a change to its characters: in front of a byte
  that begins a rune, and behind a text that ends in no unfinished rune.
* `runes_encode`: an encoded character reads as itself.
* `decode_ascii`, `decode_notMem`: an ASCII byte is one character, and the character is read from nothing else.
-/

namespace Utf8

/-- U+FFFD. -/
def replacement : Char := Char.ofNat 0xfffd

/-- The length that the first byte announces. -/
def width (b : UInt8) : ℕ :=
  match lead b with
  | some l => l.size
  | none => 1

/-- One encoded rune. -/
def isRune : List UInt8 → Bool
  | [] => false
  | b :: rest =>
    match lead b with
    | none => false
    | some l => decide (rest.length + 1 = l.size) && (rest.head?.all fun c => decide (l.lo ≤ c) && decide (c ≤ l.hi)) &&
      rest.all fun c => decide (0x80 ≤ c) && decide (c ≤ 0xBF)

/-- The number of a rune. -/
def codePoint : List UInt8 → ℕ
  | [a] => a.toNat
  | [a, b] => a.toNat % 32 * 64 + b.toNat % 64
  | [a, b, c] => a.toNat % 16 * 4096 + b.toNat % 64 * 64 + c.toNat % 64
  | [a, b, c, d] => a.toNat % 8 * 262144 + b.toNat % 64 * 4096 + c.toNat % 64 * 64 + d.toNat % 64
  | _ => 0

/-- The runes of a text; `none` for a byte that is not part of one. -/
def runes : List UInt8 → List (Option Char)
  | [] => []
  | b :: rest =>
    let r := b :: rest.take (width b - 1)
    if isRune r then some (Char.ofNat (codePoint r)) :: runes (rest.drop (width b - 1)) else none :: runes rest
termination_by l => l.length
decreasing_by
  · rw [List.length_drop, List.length_cons]
    omega
  · simp

/-- The character of a rune. -/
def glyph (x : Option Char) : Char := x.getD replacement

def decode (l : List UInt8) : List Char := (runes l).map glyph

/-! ## Where a text may be cut -/

section Cuts

variable {a b : List UInt8}

theorem isRune_iff {r : List UInt8} : isRune r = true ↔ IsRune r := by
  constructor
  · intro h
    cases r with
    | nil => contradiction
    | cons b rest =>
      unfold isRune at h
      cases hl : lead b with
      | none => simp [hl] at h
      | some l =>
        simp only [hl, Bool.and_eq_true, decide_eq_true_eq, List.all_eq_true, Option.all_eq_true] at h
        obtain ⟨⟨hsize, hsecond⟩, htail⟩ := h
        exact IsRune.mk hl hsize hsecond htail
  · rintro ⟨hl, hsize, hsecond, htail⟩
    unfold isRune
    simp only [hl, Bool.and_eq_true, decide_eq_true_eq, List.all_eq_true, Option.all_eq_true]
    exact ⟨⟨hsize, hsecond⟩, htail⟩

theorem runes_nil : runes [] = [] := by
  rw [runes]

theorem runes_rune {b : UInt8} {rest : List UInt8} (h : isRune (b :: rest.take (width b - 1)) = true) :
    runes (b :: rest) = some (Char.ofNat (codePoint (b :: rest.take (width b - 1)))) ::
      runes (rest.drop (width b - 1)) := by
  rw [runes]
  exact if_pos h

theorem runes_byte {b : UInt8} {rest : List UInt8} (h : isRune (b :: rest.take (width b - 1)) = false) :
    runes (b :: rest) = none :: runes rest := by
  rw [runes]
  exact if_neg (by simp [h])

/-- The reader goes on over the cut as it would without it. -/
theorem runes_append (h : ∀ x t, x :: t <:+ a → isRune (x :: (t ++ b).take (width x - 1)) = true →
    width x - 1 ≤ t.length) : runes (a ++ b) = runes a ++ runes b := by
  induction hn : a.length using Nat.strongRecOn generalizing a with
  | _ n ih =>
    subst hn
    cases a with
    | nil =>
      rw [runes_nil]
      rfl
    | cons x t =>
      have hshort := h x t List.suffix_rfl
      have hsub : ∀ t', t' <:+ t → ∀ y u, y :: u <:+ t' → isRune (y :: (u ++ b).take (width y - 1)) = true →
          width y - 1 ≤ u.length := fun t' ht' y u hu =>
        h y u ((hu.trans ht').trans (List.suffix_cons x t))
      rw [List.cons_append]
      by_cases hr : isRune (x :: (t ++ b).take (width x - 1)) = true
      · have hle := hshort hr
        have htake : (t ++ b).take (width x - 1) = t.take (width x - 1) := List.take_append_of_le_length hle
        have hdrop : (t ++ b).drop (width x - 1) = t.drop (width x - 1) ++ b := List.drop_append_of_le_length hle
        have hrest := ih (t.drop (width x - 1)).length (by rw [List.length_drop, List.length_cons]; omega)
          (hsub _ (List.drop_suffix _ _)) rfl
        rw [runes_rune hr, hdrop, hrest, htake]
        rw [htake] at hr
        rw [runes_rune hr, List.cons_append]
      · rw [Bool.not_eq_true] at hr
        have hr' : isRune (x :: t.take (width x - 1)) = false := by
          rw [Bool.eq_false_iff]
          intro hx
          rcases Nat.lt_or_ge t.length (width x - 1) with hlt | hge
          · -- what is left is shorter than the first byte announces
            obtain ⟨hl, hsize, -, -⟩ := isRune_iff.mp hx
            rw [List.take_of_length_le (Nat.le_of_lt hlt)] at hsize
            unfold width at hlt
            rw [hl] at hlt
            dsimp only at hlt
            omega
          · rw [List.take_append_of_le_length hge, hx] at hr
            contradiction
        rw [runes_byte hr, runes_byte hr', ih t.length (by simp) (hsub _ List.suffix_rfl) rfl]
        rfl

/-- **A cut in front of a byte that begins a rune** changes nothing. -/
theorem runes_start {c : UInt8} (hc : runeStart c = true) (a b : List UInt8) :
    runes (a ++ c :: b) = runes a ++ runes (c :: b) := by
  refine runes_append fun x t _ hr => ?_
  by_contra hlt
  rw [Nat.not_le] at hlt
  obtain ⟨-, -, -, htail⟩ := isRune_iff.mp hr
  have hmem : c ∈ (t ++ c :: b).take (width x - 1) := by
    rw [List.take_append]
    refine List.mem_append_right _ ?_
    obtain ⟨k, hk⟩ : ∃ k, width x - 1 - t.length = k + 1 := ⟨width x - 1 - t.length - 1, by omega⟩
    rw [hk, List.take_succ_cons]
    exact List.mem_cons_self
  rw [runeStart_tail (htail c hmem)] at hc
  contradiction

/-- **A cut behind a text that ends in no unfinished rune** changes nothing. -/
theorem runes_whole (h : ∀ x t, x :: t <:+ a → runeStart x = true → fullRune (x :: t) = true) (b : List UInt8) :
    runes (a ++ b) = runes a ++ runes b := by
  refine runes_append fun x t hx hr => ?_
  by_contra hlt
  rw [Nat.not_le] at hlt
  have hrune := isRune_iff.mp hr
  obtain ⟨y, rest, heq, hstart⟩ := hrune.head
  obtain ⟨rfl, -⟩ := List.cons.inj heq
  have hsplit : x :: (t ++ b).take (width x - 1) = (x :: t) ++ b.take (width x - 1 - t.length) := by
    rw [List.take_append, List.take_of_length_le (Nat.le_of_lt hlt)]
    rfl
  rw [hsplit] at hrune
  have hne : b.take (width x - 1 - t.length) ≠ [] := by
    intro hnil
    obtain ⟨hl, hsize, -, -⟩ := isRune_iff.mp hr
    rw [List.take_append, List.take_of_length_le (Nat.le_of_lt hlt), hnil, List.append_nil] at hsize
    unfold width at hlt
    rw [hl] at hlt
    dsimp only at hlt
    omega
  have hfull := h x t hx hstart
  rw [fullRune_of_proper hrune hne] at hfull
  contradiction

theorem decode_start {c : UInt8} (hc : runeStart c = true) (a b : List UInt8) :
    decode (a ++ c :: b) = decode a ++ decode (c :: b) := by
  unfold decode
  rw [runes_start hc, List.map_append]

theorem decode_whole (h : ∀ x t, x :: t <:+ a → runeStart x = true → fullRune (x :: t) = true) (b : List UInt8) :
    decode (a ++ b) = decode a ++ decode b := by
  unfold decode
  rw [runes_whole h, List.map_append]

/-- A text may be cut around an ASCII byte, whatever is on either side. -/
theorem decode_ascii {c : UInt8} (hc : c < 0x80) (a b : List UInt8) :
    decode (a ++ c :: b) = decode a ++ Char.ofNat c.toNat :: decode b := by
  have hl : lead c = some ⟨1, 0x80, 0xBF⟩ := if_pos hc
  have hw : width c = 1 := by
    unfold width
    rw [hl]
  have hr : isRune [c] = true := by
    unfold isRune
    simp [hl]
  rw [decode_start (runeStart_of_lead hl)]
  unfold decode
  rw [runes_rune (by rw [hw]; exact hr), hw]
  rfl

end Cuts

/-! ## Encoded characters -/

section Encoded

theorem lead_two {b : UInt8} (h : 0xC2 ≤ b.toNat ∧ b.toNat < 0xE0) : lead b = some ⟨2, 0x80, 0xBF⟩ := by
  revert h
  apply forall_byte (p := fun b => 0xC2 ≤ b.toNat ∧ b.toNat < 0xE0 → lead b = some ⟨2, 0x80, 0xBF⟩)
  decide +kernel

theorem lead_three {b : UInt8} (h : 0xE0 ≤ b.toNat ∧ b.toNat < 0xF0) :
    lead b = some ⟨3, if b.toNat = 0xE0 then 0xA0 else 0x80, if b.toNat = 0xED then 0x9F else 0xBF⟩ := by
  revert h
  apply forall_byte (p := fun b => 0xE0 ≤ b.toNat ∧ b.toNat < 0xF0 →
    lead b = some ⟨3, if b.toNat = 0xE0 then 0xA0 else 0x80, if b.toNat = 0xED then 0x9F else 0xBF⟩)
  decide +kernel

theorem lead_four {b : UInt8} (h : 0xF0 ≤ b.toNat ∧ b.toNat ≤ 0xF4) :
    lead b = some ⟨4, if b.toNat = 0xF0 then 0x90 else 0x80, if b.toNat = 0xF4 then 0x8F else 0xBF⟩ := by
  revert h
  apply forall_byte (p := fun b => 0xF0 ≤ b.toNat ∧ b.toNat ≤ 0xF4 →
    lead b = some ⟨4, if b.toNat = 0xF0 then 0x90 else 0x80, if b.toNat = 0xF4 then 0x8F else 0xBF⟩)
  decide +kernel

theorem lead_high {b : UInt8} (h : 0x80 ≤ b.toNat ∧ b.toNat < 0xC2 ∨ 0xF4 < b.toNat) : lead b = none := by
  revert h
  apply forall_byte (p := fun b => 0x80 ≤ b.toNat ∧ b.toNat < 0xC2 ∨ 0xF4 < b.toNat → lead b = none)
  decide +kernel

theorem rune_two {a b : UInt8} (ha : 0xC2 ≤ a.toNat ∧ a.toNat < 0xE0) (hb : 0x80 ≤ b.toNat ∧ b.toNat ≤ 0xBF) :
    width a = 2 ∧ isRune [a, b] = true := by
  have hl := lead_two ha
  unfold width isRune
  simp [hl, UInt8.le_iff_toNat_le, hb]

theorem rune_three {a b c : UInt8} (ha : 0xE0 ≤ a.toNat ∧ a.toNat < 0xF0) (hb : 0x80 ≤ b.toNat ∧ b.toNat ≤ 0xBF)
    (hlo : a.toNat = 0xE0 → 0xA0 ≤ b.toNat) (hhi : a.toNat = 0xED → b.toNat ≤ 0x9F)
    (hc : 0x80 ≤ c.toNat ∧ c.toNat ≤ 0xBF) : width a = 3 ∧ isRune [a, b, c] = true := by
  have hl := lead_three ha
  unfold width isRune
  by_cases h1 : a.toNat = 0xE0 <;> by_cases h2 : a.toNat = 0xED <;> simp_all [UInt8.le_iff_toNat_le]

theorem rune_four {a b c d : UInt8} (ha : 0xF0 ≤ a.toNat ∧ a.toNat ≤ 0xF4) (hb : 0x80 ≤ b.toNat ∧ b.toNat ≤ 0xBF)
    (hlo : a.toNat = 0xF0 → 0x90 ≤ b.toNat) (hhi : a.toNat = 0xF4 → b.toNat ≤ 0x8F)
    (hc : 0x80 ≤ c.toNat ∧ c.toNat ≤ 0xBF) (hd : 0x80 ≤ d.toNat ∧ d.toNat ≤ 0xBF) :
    width a = 4 ∧ isRune [a, b, c, d] = true := by
  have hl := lead_four ha
  unfold width isRune
  by_cases h1 : a.toNat = 0xF0 <;> by_cases h2 : a.toNat = 0xF4 <;> simp_all [UInt8.le_iff_toNat_le]

theorem toNat_byte {n : ℕ} (h : n < 256) : (UInt8.ofNat n).toNat = n := by
  rw [UInt8.toNat_ofNat']
  exact Nat.mod_eq_of_lt h

/-- An encoded character is one rune, and its number is the character's. -/
theorem rune_encode (c : Char) : ∃ b rest, String.utf8EncodeChar c = b :: rest ∧ width b = rest.length + 1 ∧
    isRune (b :: rest) = true ∧ codePoint (b :: rest) = c.toNat := by
  have hvalid : c.toNat < 0xd800 ∨ 0xdfff < c.toNat ∧ c.toNat < 0x110000 := c.valid
  have hbyte : ∀ {n : ℕ}, n < 256 → (UInt8.ofNat n).toNat = n := toNat_byte
  unfold String.utf8EncodeChar
  rw [show c.val.toNat = c.toNat from rfl]
  generalize c.toNat = v at hvalid
  dsimp only
  split_ifs with h1 h2 h3
  · have hb : (UInt8.ofNat v).toNat = v := hbyte (by omega)
    have hlow : UInt8.ofNat v < 0x80 := by
      rw [UInt8.lt_iff_toNat_lt, hb]
      exact Nat.lt_succ_of_le h1
    have hl : lead (UInt8.ofNat v) = some ⟨1, 0x80, 0xBF⟩ := if_pos hlow
    refine ⟨_, _, rfl, ?_, ?_, hb⟩
    · unfold width
      rw [hl]
      rfl
    · unfold isRune
      simp [hl]
  · have ha : (UInt8.ofNat (v / 64 % 32 + 192)).toNat = v / 64 % 32 + 192 := hbyte (by omega)
    have hb : (UInt8.ofNat (v % 64 + 128)).toNat = v % 64 + 128 := hbyte (by omega)
    generalize UInt8.ofNat (v / 64 % 32 + 192) = a at ha
    generalize UInt8.ofNat (v % 64 + 128) = b at hb
    obtain ⟨hw, hr⟩ := rune_two (a := a) (b := b) (by omega) (by omega)
    refine ⟨_, _, rfl, hw, hr, ?_⟩
    show a.toNat % 32 * 64 + b.toNat % 64 = v
    omega
  · have ha : (UInt8.ofNat (v / 4096 % 16 + 224)).toNat = v / 4096 % 16 + 224 := hbyte (by omega)
    have hb : (UInt8.ofNat (v / 64 % 64 + 128)).toNat = v / 64 % 64 + 128 := hbyte (by omega)
    have hc : (UInt8.ofNat (v % 64 + 128)).toNat = v % 64 + 128 := hbyte (by omega)
    generalize UInt8.ofNat (v / 4096 % 16 + 224) = a at ha
    generalize UInt8.ofNat (v / 64 % 64 + 128) = b at hb
    generalize UInt8.ofNat (v % 64 + 128) = d at hc
    obtain ⟨hw, hr⟩ := rune_three (a := a) (b := b) (c := d) (by omega) (by omega) (by omega) (by omega) (by omega)
    refine ⟨_, _, rfl, hw, hr, ?_⟩
    show a.toNat % 16 * 4096 + b.toNat % 64 * 64 + d.toNat % 64 = v
    omega
  · have ha : (UInt8.ofNat (v / 262144 % 8 + 240)).toNat = v / 262144 % 8 + 240 := hbyte (by omega)
    have hb : (UInt8.ofNat (v / 4096 % 64 + 128)).toNat = v / 4096 % 64 + 128 := hbyte (by omega)
    have hc : (UInt8.ofNat (v / 64 % 64 + 128)).toNat = v / 64 % 64 + 128 := hbyte (by omega)
    have hd : (UInt8.ofNat (v % 64 + 128)).toNat = v % 64 + 128 := hbyte (by omega)
    generalize UInt8.ofNat (v / 262144 % 8 + 240) = a at ha
    generalize UInt8.ofNat (v / 4096 % 64 + 128) = b at hb
    generalize UInt8.ofNat (v / 64 % 64 + 128) = d at hc
    generalize UInt8.ofNat (v % 64 + 128) = e at hd
    obtain ⟨hw, hr⟩ := rune_four (a := a) (b := b) (c := d) (d := e) (by omega) (by omega) (by omega) (by omega)
      (by omega) (by omega)
    refine ⟨_, _, rfl, hw, hr, ?_⟩
    show a.toNat % 8 * 262144 + b.toNat % 64 * 4096 + d.toNat % 64 * 64 + e.toNat % 64 = v
    omega

/-- **An encoded character reads as itself**, whatever follows. -/
theorem runes_encode (c : Char) (l : List UInt8) : runes (String.utf8EncodeChar c ++ l) = some c :: runes l := by
  obtain ⟨b, rest, he, hw, hr, hc⟩ := rune_encode c
  have htake : (rest ++ l).take (width b - 1) = rest := by
    rw [hw, Nat.add_sub_cancel]
    exact List.take_left' rfl
  have hdrop : (rest ++ l).drop (width b - 1) = l := by
    rw [hw, Nat.add_sub_cancel]
    exact List.drop_left' rfl
  rw [he, List.cons_append, runes_rune (by rwa [htake]), htake, hdrop, hc, Char.ofNat_toNat]

/-- An encoded text reads as itself. -/
theorem runes_utf8Encode (text : List Char) : runes (text.flatMap String.utf8EncodeChar) = text.map some := by
  induction text with
  | nil => exact runes_nil
  | cons c text ih => rw [List.flatMap_cons, runes_encode, ih, List.map_cons]

theorem decode_utf8Encode (text : List Char) : decode (text.flatMap String.utf8EncodeChar) = text := by
  unfold decode
  rw [runes_utf8Encode, List.map_map]
  exact List.map_id text

end Encoded

/-! ## ASCII characters -/

section Ascii

/-- A rune of several bytes is no ASCII character. -/
theorem codePoint_ge {b : UInt8} {rest : List UInt8} (h : isRune (b :: rest) = true) (hne : rest ≠ []) :
    0x80 ≤ codePoint (b :: rest) := by
  obtain ⟨hl, hsize, hsecond, htail⟩ := isRune_iff.mp h
  rename_i l
  have hpos := List.length_pos_iff.mpr hne
  have hbyte : ∀ {x y : UInt8}, x ≤ y → x.toNat ≤ y.toNat := UInt8.le_iff_toNat_le.mp
  by_cases h1 : b.toNat < 0x80
  · have hone := (size_eq_one_iff hl).mpr (UInt8.lt_iff_toNat_lt.mpr h1)
    omega
  by_cases h2 : b.toNat < 0xC2 ∨ 0xF4 < b.toNat
  · rw [lead_high (by omega)] at hl
    contradiction
  by_cases h3 : b.toNat < 0xE0
  · obtain rfl := Option.some.inj ((lead_two (by omega)).symm.trans hl)
    obtain ⟨c, rfl⟩ := List.length_eq_one_iff.mp (Nat.succ.inj hsize)
    show 0x80 ≤ b.toNat % 32 * 64 + c.toNat % 64
    omega
  by_cases h4 : b.toNat < 0xF0
  · obtain rfl := Option.some.inj ((lead_three (by omega)).symm.trans hl)
    obtain ⟨c, d, rfl⟩ := List.length_eq_two.mp (Nat.succ.inj hsize)
    have hlo := hbyte (hsecond c rfl).1
    have hc := hbyte (htail c (by simp)).2
    show 0x80 ≤ b.toNat % 16 * 4096 + c.toNat % 64 * 64 + d.toNat % 64
    dsimp only at hlo
    split_ifs at hlo with h5
    · have hlo : 0xA0 ≤ c.toNat := hlo
      have hc : c.toNat ≤ 0xBF := hc
      omega
    · omega
  · obtain rfl := Option.some.inj ((lead_four (by omega)).symm.trans hl)
    obtain ⟨c, d, e, rfl⟩ := List.length_eq_three.mp (Nat.succ.inj hsize)
    have hlo := hbyte (hsecond c rfl).1
    have hc := hbyte (htail c (by simp)).2
    show 0x80 ≤ b.toNat % 8 * 262144 + c.toNat % 64 * 4096 + d.toNat % 64 * 64 + e.toNat % 64
    dsimp only at hlo
    split_ifs at hlo with h5
    · have hlo : 0x90 ≤ c.toNat := hlo
      have hc : c.toNat ≤ 0xBF := hc
      omega
    · omega

theorem toNat_ofNat {n : ℕ} (h : n.isValidChar) : (Char.ofNat n).toNat = n := by
  unfold Char.ofNat
  rw [dif_pos h]
  rfl

theorem ofNat_ne {m n : ℕ} (hm : 0 < m ∧ m < 0x80) (h : n ≠ m) : Char.ofNat n ≠ Char.ofNat m := by
  intro he
  have he := congrArg Char.toNat he
  rw [toNat_ofNat (Or.inl (by omega) : m.isValidChar)] at he
  by_cases hn : n.isValidChar
  · rw [toNat_ofNat hn] at he
    exact h he
  · have hzero : (Char.ofNat n).toNat = 0 := by
      unfold Char.ofNat
      rw [dif_neg hn]
      rfl
    omega

/-- An ASCII character is read only from its byte. -/
theorem decode_notMem {c : UInt8} (hc : 0 < c ∧ c < 0x80) {l : List UInt8} (h : c ∉ l) :
    Char.ofNat c.toNat ∉ decode l := by
  have hlow : 0 < c.toNat ∧ c.toNat < 0x80 := ⟨UInt8.lt_iff_toNat_lt.mp hc.1, UInt8.lt_iff_toNat_lt.mp hc.2⟩
  induction hn : l.length using Nat.strongRecOn generalizing l with
  | _ n ih =>
    subst hn
    unfold decode
    cases l with
    | nil =>
      rw [runes_nil]
      exact List.not_mem_nil
    | cons b rest =>
      have hrest : c ∉ rest := fun hx => h (List.mem_cons_of_mem b hx)
      cases hr : isRune (b :: rest.take (width b - 1)) with
      | false =>
        rw [runes_byte hr, List.map_cons, List.mem_cons, not_or]
        exact ⟨(ofNat_ne (n := 0xfffd) hlow (by omega)).symm, ih rest.length (by simp) hrest rfl⟩
      | true =>
        rw [runes_rune hr, List.map_cons, List.mem_cons, not_or]
        refine ⟨(ofNat_ne hlow ?_).symm, ih _ ?_ (fun hx => hrest (List.mem_of_mem_drop hx)) rfl⟩
        · by_cases hnil : rest.take (width b - 1) = []
          · rw [hnil]
            intro he
            exact h (by rw [← UInt8.toNat_inj.mp he]; exact List.mem_cons_self)
          · have hge := codePoint_ge hr hnil
            omega
        · rw [List.length_drop, List.length_cons]
          omega

end Ascii

end Utf8
