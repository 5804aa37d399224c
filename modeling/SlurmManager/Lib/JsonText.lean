import Mathlib.Data.Nat.Notation
import Mathlib.Tactic.Common

/-!
# JsonText — objects of texts, written in ASCII and read back

A writer and a reader of JSON objects whose members are all strings.  The writer escapes every character
that is not printable ASCII, as UTF-16 units; so what it writes is one line.  The reader takes the first
value of a text and joins a surrogate pair that was escaped; half a pair is read as U+FFFD.

* `readString_writeString`: a written string reads back as it was.
* `readObject_writeObject`: a written object reads back as it was, whatever follows it.
* `writeObject_printable`: a written object has no line break and no other control character.
-/

namespace JsonText

/-! ## Sixteen-bit units -/

section Units

/-- The value of a hexadecimal digit. -/
def hexValue? (c : Char) : Option ℕ :=
  if '0' ≤ c ∧ c ≤ '9' then some (c.toNat - '0'.toNat)
  else if 'a' ≤ c ∧ c ≤ 'f' then some (c.toNat - 'a'.toNat + 10)
  else if 'A' ≤ c ∧ c ≤ 'F' then some (c.toNat - 'A'.toNat + 10)
  else none

/-- The value of four hexadecimal digits. -/
def unitValue? (a b c d : Char) : Option ℕ := do
  return (((← hexValue? a) * 16 + (← hexValue? b)) * 16 + (← hexValue? c)) * 16 + (← hexValue? d)

/-- The escape of a unit. -/
def unit (n : ℕ) : List Char :=
  ['\\', 'u', Nat.digitChar (n / 4096 % 16), Nat.digitChar (n / 256 % 16), Nat.digitChar (n / 16 % 16),
    Nat.digitChar (n % 16)]

theorem hexValue?_digitChar : ∀ d < 16, hexValue? (Nat.digitChar d) = some d := by decide

theorem digitChar_printable : ∀ d < 16, ' ' ≤ Nat.digitChar d ∧ Nat.digitChar d ≤ '~' := by decide

theorem unitValue?_unit {n : ℕ} (h : n < 65536) :
    unitValue? (Nat.digitChar (n / 4096 % 16)) (Nat.digitChar (n / 256 % 16)) (Nat.digitChar (n / 16 % 16))
      (Nat.digitChar (n % 16)) = some n := by
  have hm : ∀ k, k % 16 < 16 := fun k => Nat.mod_lt k (by decide)
  unfold unitValue?
  rw [hexValue?_digitChar _ (hm _), hexValue?_digitChar _ (hm _), hexValue?_digitChar _ (hm _),
    hexValue?_digitChar _ (hm _)]
  show some _ = some n
  congr 1
  omega

def IsSurrogate (n : ℕ) : Prop := 0xd800 ≤ n ∧ n < 0xe000

instance (n : ℕ) : Decidable (IsSurrogate n) := inferInstanceAs (Decidable (_ ∧ _))

/-- The character of a pair of surrogates, high half first. -/
def pair? (high low : ℕ) : Option Char :=
  if 0xd800 ≤ high ∧ high < 0xdc00 ∧ 0xdc00 ≤ low ∧ low < 0xe000 then
    some (Char.ofNat ((high - 0xd800) * 0x400 + (low - 0xdc00) + 0x10000))
  else none

/-- The units of a character. -/
def units (c : Char) : List Char :=
  if c.toNat < 0x10000 then unit c.toNat
  else unit (0xd800 + (c.toNat - 0x10000) / 0x400) ++ unit (0xdc00 + (c.toNat - 0x10000) % 0x400)

theorem not_isSurrogate (c : Char) : ¬ IsSurrogate c.toNat := by
  rintro ⟨h1, h2⟩
  rcases c.valid with h | h
  · exact absurd (show c.toNat < 0xd800 from h) (by omega)
  · exact absurd (show 0xdfff < c.toNat from h.1) (by omega)

theorem toNat_lt (c : Char) : c.toNat < 0x110000 := by
  rcases c.valid with h | h
  · exact Nat.lt_trans (show c.toNat < 0xd800 from h) (by decide)
  · exact h.2

theorem pair?_halves {c : Char} (h : 0x10000 ≤ c.toNat) :
    pair? (0xd800 + (c.toNat - 0x10000) / 0x400) (0xdc00 + (c.toNat - 0x10000) % 0x400) = some c := by
  have hlt := toNat_lt c
  have hc : (0xd800 + (c.toNat - 0x10000) / 0x400 - 0xd800) * 0x400 +
      (0xdc00 + (c.toNat - 0x10000) % 0x400 - 0xdc00) + 0x10000 = c.toNat := by omega
  unfold pair?
  rw [if_pos (by omega), hc, Char.ofNat_toNat]

end Units

/-! ## Strings -/

section Strings

/-- The characters that are written as they are. -/
def Plain (c : Char) : Prop := ' ' ≤ c ∧ c ≤ '~' ∧ c ≠ '"' ∧ c ≠ '\\'

instance (c : Char) : Decidable (Plain c) := inferInstanceAs (Decidable (_ ∧ _ ∧ _ ∧ _))

/-- A character inside a written string. -/
def escape (c : Char) : List Char :=
  if Plain c then [c]
  else match c with
    | '"' => ['\\', '"']
    | '\\' => ['\\', '\\']
    | '\n' => ['\\', 'n']
    | '\r' => ['\\', 'r']
    | '\t' => ['\\', 't']
    | '\x0c' => ['\\', 'f']
    | '\x08' => ['\\', 'b']
    | c => units c

def writeString (text : List Char) : List Char := '"' :: (text.flatMap escape ++ ['"'])

/-- The character of a one-letter escape. -/
def letter? : Char → Option Char
  | '"' => some '"'
  | '\\' => some '\\'
  | '/' => some '/'
  | 'b' => some '\x08'
  | 'f' => some '\x0c'
  | 'n' => some '\n'
  | 'r' => some '\r'
  | 't' => some '\t'
  | _ => none

/-- U+FFFD. -/
def replacement : Char := Char.ofNat 0xfffd

/-- The rest of a string, after its opening quote: its text and what follows the closing quote. -/
def readString : List Char → Option (List Char × List Char)
  | [] => none
  | '"' :: rest => some ([], rest)
  | '\\' :: 'u' :: a :: b :: c :: d :: '\\' :: 'u' :: a' :: b' :: c' :: d' :: rest =>
    match unitValue? a b c d, unitValue? a' b' c' d' with
    | some high, some low =>
      match pair? high low with
      | some x => (readString rest).map fun p => (x :: p.1, p.2)
      | none =>
        (readString ('\\' :: 'u' :: a' :: b' :: c' :: d' :: rest)).map fun p =>
          ((if IsSurrogate high then replacement else Char.ofNat high) :: p.1, p.2)
    | _, _ => none
  | '\\' :: 'u' :: a :: b :: c :: d :: rest =>
    match unitValue? a b c d with
    | some n =>
      (readString rest).map fun p => ((if IsSurrogate n then replacement else Char.ofNat n) :: p.1, p.2)
    | none => none
  | '\\' :: c :: rest =>
    match letter? c with
    | some x => (readString rest).map fun p => (x :: p.1, p.2)
    | none => none
  | c :: rest => if ' ' ≤ c then (readString rest).map fun p => (c :: p.1, p.2) else none

/-- A unit whose digits are bad spoils the string. -/
theorem readString_bad {a b c d : Char} (rest : List Char) (h : unitValue? a b c d = none) :
    readString ('\\' :: 'u' :: a :: b :: c :: d :: rest) = none := by
  by_cases hr : ∃ a' b' c' d' r, rest = '\\' :: 'u' :: a' :: b' :: c' :: d' :: r
  · obtain ⟨a', b', c', d', r, rfl⟩ := hr
    rw [readString, h]
  · rw [readString, h]
    intro a' b' c' d' r hr'
    exact hr ⟨a', b', c', d', r, hr'⟩

/-- A unit that is no surrogate reads as its character. -/
theorem readString_unit {n : ℕ} (h : n < 65536) (hs : ¬ IsSurrogate n) (rest : List Char) :
    readString (unit n ++ rest) = (readString rest).map fun p => (Char.ofNat n :: p.1, p.2) := by
  unfold unit
  simp only [List.cons_append, List.nil_append]
  by_cases hr : ∃ a b c d r, rest = '\\' :: 'u' :: a :: b :: c :: d :: r
  · obtain ⟨a, b, c, d, r, rfl⟩ := hr
    rw [readString, unitValue?_unit h]
    cases hv : unitValue? a b c d with
    | none =>
      rw [readString_bad r hv]
      rfl
    | some low =>
      have hp : pair? n low = none := if_neg fun hp => hs ⟨hp.1, by omega⟩
      simp only [hp, if_neg hs]
  · rw [readString, unitValue?_unit h]
    · simp only [if_neg hs]
    · intro a b c d r hr'
      exact hr ⟨a, b, c, d, r, hr'⟩

/-- Two units that are the halves of a pair read as its character. -/
theorem readString_pair {high low : ℕ} (hh : high < 65536) (hl : low < 65536) {c : Char}
    (hp : pair? high low = some c) (rest : List Char) :
    readString (unit high ++ (unit low ++ rest)) = (readString rest).map fun p => (c :: p.1, p.2) := by
  unfold unit
  simp only [List.cons_append, List.nil_append]
  rw [readString, unitValue?_unit hh, unitValue?_unit hl]
  simp only [hp]

theorem readString_units (c : Char) (rest : List Char) :
    readString (units c ++ rest) = (readString rest).map fun p => (c :: p.1, p.2) := by
  have hlt := toNat_lt c
  unfold units
  by_cases h : c.toNat < 65536
  · rw [if_pos h, readString_unit h (not_isSurrogate c), Char.ofNat_toNat]
  · rw [if_neg h, List.append_assoc]
    exact readString_pair (by omega) (by omega) (pair?_halves (by omega)) rest

theorem readString_plain {c : Char} (h : Plain c) (rest : List Char) :
    readString (c :: rest) = (readString rest).map fun p => (c :: p.1, p.2) := by
  obtain ⟨hlow, -, hq, hb⟩ := h
  rw [readString]
  · exact if_pos hlow
  · exact fun hc => hq hc
  · rintro a b c d a' b' c' d' r rfl
    exact absurd rfl hb
  · rintro a b c d r rfl
    exact absurd rfl hb
  · rintro x r rfl
    exact absurd rfl hb

/-- A written character reads as itself, whatever follows. -/
theorem readString_escape (c : Char) (rest : List Char) :
    readString (escape c ++ rest) = (readString rest).map fun p => (c :: p.1, p.2) := by
  unfold escape
  split_ifs with h
  · exact readString_plain h rest
  · split
    · rfl
    · rfl
    · rfl
    · rfl
    · rfl
    · rfl
    · rfl
    · exact readString_units c rest

/-- **A written string reads back as it was.** -/
theorem readString_writeString (text rest : List Char) :
    readString (text.flatMap escape ++ '"' :: rest) = some (text, rest) := by
  induction text with
  | nil => rfl
  | cons c text ih =>
    rw [List.flatMap_cons, List.append_assoc, readString_escape, ih]
    rfl

theorem printable_pair {c x : Char} (hc : ' ' ≤ c ∧ c ≤ '~') (hx : x ∈ ['\\', c]) : ' ' ≤ x ∧ x ≤ '~' := by
  rcases List.mem_cons.mp hx with rfl | hx
  · decide
  · exact List.mem_singleton.mp hx ▸ hc

theorem escape_printable (c : Char) : ∀ x ∈ escape c, ' ' ≤ x ∧ x ≤ '~' := by
  have hunit : ∀ n, ∀ x ∈ unit n, ' ' ≤ x ∧ x ≤ '~' := by
    intro n x hx
    have hm : ∀ k, ' ' ≤ Nat.digitChar (k % 16) ∧ Nat.digitChar (k % 16) ≤ '~' :=
      fun k => digitChar_printable _ (Nat.mod_lt k (by decide))
    simp only [unit, List.mem_cons, List.not_mem_nil, or_false] at hx
    rcases hx with rfl | rfl | rfl | rfl | rfl | rfl
    · decide
    · decide
    · exact hm _
    · exact hm _
    · exact hm _
    · exact hm _
  intro x hx
  unfold escape at hx
  split_ifs at hx with h
  · rw [List.mem_singleton.mp hx]
    exact ⟨h.1, h.2.1⟩
  · split at hx <;> try exact printable_pair (by decide) hx
    unfold units at hx
    split_ifs at hx
    · exact hunit _ x hx
    · rcases List.mem_append.mp hx with hx | hx
      · exact hunit _ x hx
      · exact hunit _ x hx

end Strings

/-! ## Objects -/

section Objects

def skipBlanks (text : List Char) : List Char := text.dropWhile (· ∈ [' ', '\t', '\n', '\r'])

/-- `"key": "value"`. -/
def writeMember (m : List Char × List Char) : List Char := writeString m.1 ++ (": ".toList ++ writeString m.2)

def writeMembers : List (List Char × List Char) → List Char
  | [] => []
  | [m] => writeMember m
  | m :: ms => writeMember m ++ (", ".toList ++ writeMembers ms)

def writeObject (members : List (List Char × List Char)) : List Char := '{' :: (writeMembers members ++ ['}'])

/-- The text after `c`, if it begins with `c` and blanks before it. -/
def expect (c : Char) (text : List Char) : Option (List Char) :=
  match skipBlanks text with
  | x :: rest => if x = c then some rest else none
  | [] => none

/-- The next member, and what follows it. -/
def readMember (text : List Char) : Option ((List Char × List Char) × List Char) := do
  let (key, rest) ← readString (← expect '"' text)
  let (value, rest) ← readString (← expect '"' (← expect ':' rest))
  return ((key, value), rest)

/-- The members up to the closing brace, at most as many as the first argument. -/
def readMembers : ℕ → List Char → Option (List (List Char × List Char))
  | 0, _ => none
  | n + 1, text => do
    let (m, rest) ← readMember text
    match expect ',' rest with
    | some rest => (readMembers n rest).map (m :: ·)
    | none => (expect '}' rest).map fun _ => [m]

/-- The first value of the text, if it is an object whose members are strings. -/
def readObject (text : List Char) : Option (List (List Char × List Char)) := do
  let rest ← expect '{' text
  match expect '}' rest with
  | some _ => return []
  | none => readMembers rest.length rest

theorem expect_cons {c : Char} (h : c ∉ [' ', '\t', '\n', '\r']) (d : Char) (rest : List Char) :
    expect d (c :: rest) = if c = d then some rest else none := by
  have hs : skipBlanks (c :: rest) = c :: rest := List.dropWhile_cons_of_neg (by simpa using h)
  unfold expect
  rw [hs]

theorem expect_blank (d : Char) (rest : List Char) : expect d (' ' :: rest) = expect d rest := rfl

theorem readMember_writeMember (m : List Char × List Char) (rest : List Char) :
    readMember (writeMember m ++ rest) = some (m, rest) := by
  obtain ⟨key, value⟩ := m
  have htext : writeMember (key, value) ++ rest = '"' :: (key.flatMap escape ++ '"' ::
      ':' :: ' ' :: '"' :: (value.flatMap escape ++ '"' :: rest)) := by
    simp [writeMember, writeString]
  rw [htext, readMember]
  simp [expect_cons, expect_blank, readString_writeString]

theorem readMembers_blank (n : ℕ) (text : List Char) : readMembers n (' ' :: text) = readMembers n text := by
  cases n <;> rfl

theorem readMembers_writeMembers {n : ℕ} {ms : List (List Char × List Char)} (hn : ms.length ≤ n) (hne : ms ≠ [])
    (rest : List Char) : readMembers n (writeMembers ms ++ '}' :: rest) = some ms := by
  induction ms generalizing n with
  | nil => exact absurd rfl hne
  | cons m ms ih =>
    obtain ⟨n, rfl⟩ : ∃ k, n = k + 1 := ⟨n - 1, by simp at hn; omega⟩
    cases ms with
    | nil =>
      rw [writeMembers, readMembers, readMember_writeMember]
      simp [expect_cons]
    | cons m' ms =>
      have hrest := ih (by simpa using hn) (by simp)
      rw [writeMembers, readMembers, List.append_assoc, readMember_writeMember]
      · simp [expect_cons, readMembers_blank, hrest]
      · simp

theorem length_writeMembers (ms : List (List Char × List Char)) : ms.length ≤ (writeMembers ms).length := by
  induction ms with
  | nil => exact Nat.le_refl 0
  | cons m ms ih =>
    have hm : 1 ≤ (writeMember m).length := by simp [writeMember, writeString]
    cases ms with
    | nil => exact hm
    | cons m' ms =>
      rw [writeMembers, List.length_append, List.length_append, List.length_cons]
      · omega
      · simp

/-- **A written object reads back as it was**, whatever follows it. -/
theorem readObject_writeObject (ms : List (List Char × List Char)) (rest : List Char) :
    readObject (writeObject ms ++ rest) = some ms := by
  have htext : writeObject ms ++ rest = '{' :: (writeMembers ms ++ '}' :: rest) := by simp [writeObject]
  rw [htext, readObject]
  cases ms with
  | nil => simp [writeMembers, expect_cons]
  | cons m ms =>
    have hclose : expect '}' (writeMembers (m :: ms) ++ '}' :: rest) = none := by
      cases ms <;> simp [writeMembers, writeMember, writeString, expect_cons]
    have hfuel := length_writeMembers (m :: ms)
    simp only [expect_cons (c := '{') (by decide), if_true, Option.bind_eq_bind, Option.bind_some, hclose]
    refine readMembers_writeMembers ?_ (by simp) rest
    rw [List.length_append]
    omega

theorem writeString_printable (text : List Char) : ∀ x ∈ writeString text, ' ' ≤ x ∧ x ≤ '~' := by
  intro x hx
  simp only [writeString, List.mem_cons, List.mem_append, List.mem_flatMap, List.not_mem_nil, or_false] at hx
  rcases hx with rfl | ⟨c, -, hx⟩ | rfl
  · decide
  · exact escape_printable c x hx
  · decide

theorem writeMember_printable (m : List Char × List Char) : ∀ x ∈ writeMember m, ' ' ≤ x ∧ x ≤ '~' := by
  have hsep : ∀ x ∈ ": ".toList, ' ' ≤ x ∧ x ≤ '~' := by simp
  intro x hx
  rcases List.mem_append.mp hx with hx | hx
  · exact writeString_printable _ x hx
  rcases List.mem_append.mp hx with hx | hx
  · exact hsep x hx
  · exact writeString_printable _ x hx

/-- A written object is one line of printable ASCII. -/
theorem writeObject_printable (ms : List (List Char × List Char)) : ∀ x ∈ writeObject ms, ' ' ≤ x ∧ x ≤ '~' := by
  have hsep : ∀ x ∈ ", ".toList, ' ' ≤ x ∧ x ≤ '~' := by simp
  have hms : ∀ x ∈ writeMembers ms, ' ' ≤ x ∧ x ≤ '~' := by
    induction ms with
    | nil => simp [writeMembers]
    | cons m ms ih =>
      cases ms with
      | nil => exact writeMember_printable m
      | cons m' ms =>
        intro x hx
        rw [writeMembers] at hx
        · rcases List.mem_append.mp hx with hx | hx
          · exact writeMember_printable m x hx
          rcases List.mem_append.mp hx with hx | hx
          · exact hsep x hx
          · exact ih x hx
        · simp
  intro x hx
  simp only [writeObject, List.mem_cons, List.mem_append, List.not_mem_nil, or_false] at hx
  rcases hx with rfl | hx | rfl
  · decide
  · exact hms x hx
  · decide

end Objects

end JsonText
