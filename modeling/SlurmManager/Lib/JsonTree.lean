import SlurmManager.Lib.JsonText

/-!
# JsonTree — JSON values, read and written

A reader of arbitrary JSON values that counts how deeply they nest and may refuse numerals, and a compact writer
whose escapes are a parameter: a text is a list of any elements, each with its escape.  A writer is right as soon as
the reader takes the escape of one element for one character (`Escapes`).

* `readText`: the strict reader of strings; half a surrogate pair is no character and is refused.
* `numeral?`: the longest numeral that a text begins with.
* `read_write`: **a written value reads back**, with its elements turned into characters.
-/

namespace JsonText

/-- A JSON value whose numbers are of `ν` and whose texts are made of `α`. -/
inductive Tree (ν α : Type)
  | null
  | bool (b : Bool)
  | number (n : ν)
  | text (s : List α)
  | array (items : List (Tree ν α))
  | object (members : List (List α × Tree ν α))

/-- What a reader returns: numbers are left as they are written. -/
abbrev Parsed := Tree (List Char) Char

/-- How reading fails. -/
inductive Failure
  | invalid
  /-- The text nests too deeply. -/
  | deep
  deriving DecidableEq

/-! ## Texts -/

section Texts

/-- The rest of a string, after its opening quote: its text and what follows the closing quote. -/
def readText : List Char → Option (List Char × List Char)
  | [] => none
  | '"' :: rest => some ([], rest)
  | '\\' :: 'u' :: a :: b :: c :: d :: rest =>
    match unitValue? a b c d with
    | none => none
    | some n =>
      if IsSurrogate n then
        match rest with
        | '\\' :: 'u' :: a' :: b' :: c' :: d' :: rest =>
          match (unitValue? a' b' c' d').bind (pair? n) with
          | some x => (readText rest).map fun p => (x :: p.1, p.2)
          | none => none
        | _ => none
      else (readText rest).map fun p => (Char.ofNat n :: p.1, p.2)
  | '\\' :: c :: rest =>
    match letter? c with
    | some x => (readText rest).map fun p => (x :: p.1, p.2)
    | none => none
  | c :: rest => if ' ' ≤ c then (readText rest).map fun p => (c :: p.1, p.2) else none

/-- A unit that is no surrogate reads as its character. -/
theorem readText_unit {n : ℕ} (h : n < 65536) (hs : ¬ IsSurrogate n) (rest : List Char) :
    readText (unit n ++ rest) = (readText rest).map fun p => (Char.ofNat n :: p.1, p.2) := by
  unfold unit
  simp only [List.cons_append, List.nil_append]
  rw [readText.eq_def]
  simp only [unitValue?_unit h, if_neg hs]

/-- A character that needs no escape. -/
theorem readText_plain {c : Char} (h : ' ' ≤ c ∧ c ≠ '"' ∧ c ≠ '\\') (rest : List Char) :
    readText (c :: rest) = (readText rest).map fun p => (c :: p.1, p.2) := by
  obtain ⟨hlow, hq, hb⟩ := h
  rw [readText]
  · exact if_pos hlow
  · exact fun hc => hq hc
  · rintro a b c d r rfl
    exact absurd rfl hb
  · rintro x r rfl
    exact absurd rfl hb

/-- Every element is read as one character. -/
def Escapes {α : Type} (esc : α → List Char) (val : α → Char) : Prop :=
  ∀ x rest, readText (esc x ++ rest) = (readText rest).map fun p => (val x :: p.1, p.2)

variable {α : Type} {esc : α → List Char} {val : α → Char}

def writeText (esc : α → List Char) (s : List α) : List Char := '"' :: (s.flatMap esc ++ ['"'])

theorem readText_writeText (h : Escapes esc val) (s : List α) (rest : List Char) :
    readText (s.flatMap esc ++ '"' :: rest) = some (s.map val, rest) := by
  induction s with
  | nil => rfl
  | cons x s ih =>
    rw [List.flatMap_cons, List.append_assoc, h, ih]
    rfl

end Texts

/-! ## Numerals -/

section Numerals

/-- The digits that a text begins with. -/
def digits (text : List Char) : List Char × List Char := (text.takeWhile Char.isDigit, text.dropWhile Char.isDigit)

def sign (text : List Char) : List Char × List Char :=
  match text with
  | '-' :: rest => (['-'], rest)
  | _ => ([], text)

/-- `0`, or digits that do not begin with `0`. -/
def whole? (text : List Char) : Option (List Char × List Char) :=
  match text with
  | '0' :: rest => some (['0'], rest)
  | c :: _ => if c.isDigit then some (digits text) else none
  | [] => none

def fraction (text : List Char) : List Char × List Char :=
  match text with
  | '.' :: rest => if (digits rest).1 = [] then ([], text) else ('.' :: (digits rest).1, (digits rest).2)
  | _ => ([], text)

def exponentSign (text : List Char) : List Char × List Char :=
  match text with
  | '+' :: rest => (['+'], rest)
  | '-' :: rest => (['-'], rest)
  | _ => ([], text)

def exponent (text : List Char) : List Char × List Char :=
  match text with
  | c :: rest =>
    if c = 'e' ∨ c = 'E' then
      let s := exponentSign rest
      let ds := digits s.2
      if ds.1 = [] then ([], text) else (c :: (s.1 ++ ds.1), ds.2)
    else ([], text)
  | [] => ([], [])

/-- The numeral that a text begins with, and what follows it. -/
def numeral? (text : List Char) : Option (List Char × List Char) :=
  (whole? (sign text).2).map fun w =>
    ((sign text).1 ++ (w.1 ++ ((fraction w.2).1 ++ (exponent (fraction w.2).2).1)), (exponent (fraction w.2).2).2)

/-- A numeral in its parts. -/
structure Numeral where
  negative : Bool
  whole : List Char
  fraction : List Char
  exponent : List Char
  whole_ok : whole = ['0'] ∨ whole ≠ [] ∧ whole.head? ≠ some '0' ∧ ∀ c ∈ whole, c.isDigit
  fraction_ok : fraction = [] ∨ ∃ ds, fraction = '.' :: ds ∧ ds ≠ [] ∧ ∀ c ∈ ds, c.isDigit
  exponent_ok : exponent = [] ∨ ∃ e s ds, exponent = e :: (s ++ ds) ∧ (e = 'e' ∨ e = 'E') ∧
    (s = [] ∨ s = ['+'] ∨ s = ['-']) ∧ ds ≠ [] ∧ ∀ c ∈ ds, c.isDigit

def Numeral.text (n : Numeral) : List Char :=
  (if n.negative then ['-'] else []) ++ (n.whole ++ (n.fraction ++ n.exponent))

/-- What follows does not go on with a numeral. -/
def Ends (rest : List Char) : Prop := ∀ c ∈ rest.head?, c.isDigit = false ∧ c ≠ '.' ∧ c ≠ 'e' ∧ c ≠ 'E'

theorem digits_append {ds rest : List Char} (hds : ∀ c ∈ ds, c.isDigit) (hr : ∀ c ∈ rest.head?, c.isDigit = false) :
    digits (ds ++ rest) = (ds, rest) := by
  have hnone : rest.takeWhile Char.isDigit = [] ∧ rest.dropWhile Char.isDigit = rest := by
    cases rest with
    | nil => exact ⟨rfl, rfl⟩
    | cons c rest =>
      have hc := hr c rfl
      exact ⟨List.takeWhile_cons_of_neg (by simp [hc]), List.dropWhile_cons_of_neg (by simp [hc])⟩
  unfold digits
  rw [List.takeWhile_append_of_pos hds, List.dropWhile_append_of_pos hds, hnone.1, hnone.2, List.append_nil]

variable {rest : List Char}

theorem sign_append (b : Bool) (hr : rest.head? ≠ some '-') :
    sign ((if b then ['-'] else []) ++ rest) = (if b then ['-'] else [], rest) := by
  cases b with
  | true => rfl
  | false =>
    show sign rest = ([], rest)
    unfold sign
    split
    · exact absurd rfl hr
    · rfl

theorem whole?_append {w : List Char} (hw : w = ['0'] ∨ w ≠ [] ∧ w.head? ≠ some '0' ∧ ∀ c ∈ w, c.isDigit)
    (hr : ∀ c ∈ rest.head?, c.isDigit = false) : whole? (w ++ rest) = some (w, rest) := by
  rcases hw with rfl | ⟨hne, h0, hall⟩
  · rfl
  · obtain ⟨c, cs, rfl⟩ := List.exists_cons_of_ne_nil hne
    have hc : c ≠ '0' := fun hc => h0 (by rw [hc]; rfl)
    rw [List.cons_append, whole?]
    · rw [if_pos (hall c List.mem_cons_self), ← List.cons_append, digits_append hall hr]
    · exact fun hx => hc hx

theorem fraction_append {f : List Char} (hf : f = [] ∨ ∃ ds, f = '.' :: ds ∧ ds ≠ [] ∧ ∀ c ∈ ds, c.isDigit)
    (hr : ∀ c ∈ rest.head?, c.isDigit = false ∧ c ≠ '.') : fraction (f ++ rest) = (f, rest) := by
  rcases hf with rfl | ⟨ds, rfl, hne, hall⟩
  · rw [List.nil_append]
    unfold fraction
    split
    · exact absurd rfl (hr '.' rfl).2
    · rfl
  · rw [List.cons_append]
    unfold fraction
    simp only [digits_append hall fun c hc => (hr c hc).1, if_neg hne]

theorem exponentSign_append {s ds : List Char} (hs : s = [] ∨ s = ['+'] ∨ s = ['-']) (hne : ds ≠ [])
    (hall : ∀ c ∈ ds, c.isDigit) (rest : List Char) : exponentSign (s ++ (ds ++ rest)) = (s, ds ++ rest) := by
  rcases hs with rfl | rfl | rfl
  · obtain ⟨d, ds, rfl⟩ := List.exists_cons_of_ne_nil hne
    have hd := hall d List.mem_cons_self
    rw [List.nil_append, List.cons_append]
    unfold exponentSign
    split
    · rename_i heq
      obtain ⟨rfl, -⟩ := List.cons.inj heq
      contradiction
    · rename_i heq
      obtain ⟨rfl, -⟩ := List.cons.inj heq
      contradiction
    · rfl
  · rfl
  · rfl

theorem exponent_append {x : List Char} (hx : x = [] ∨ ∃ e s ds, x = e :: (s ++ ds) ∧ (e = 'e' ∨ e = 'E') ∧
    (s = [] ∨ s = ['+'] ∨ s = ['-']) ∧ ds ≠ [] ∧ ∀ c ∈ ds, c.isDigit) (hr : Ends rest) :
    exponent (x ++ rest) = (x, rest) := by
  rcases hx with rfl | ⟨e, s, ds, rfl, he, hs, hne, hall⟩
  · cases rest with
    | nil => rfl
    | cons c rest =>
      obtain ⟨-, -, h1, h2⟩ := hr c rfl
      exact if_neg (not_or.mpr ⟨h1, h2⟩)
  · rw [List.cons_append, List.append_assoc]
    unfold exponent
    simp only [if_pos he, exponentSign_append hs hne hall, digits_append hall fun c hc => (hr c hc).1, if_neg hne]

/-- **A numeral is read as a whole.** -/
theorem numeral?_text (n : Numeral) (hr : Ends rest) : numeral? (n.text ++ rest) = some (n.text, rest) := by
  have hexp : ∀ c ∈ (n.exponent ++ rest).head?, c.isDigit = false ∧ c ≠ '.' := by
    rcases n.exponent_ok with h | ⟨e, s, ds, h, he, -⟩
    · rw [h]
      exact fun c hc => ⟨(hr c hc).1, (hr c hc).2.1⟩
    · rw [h]
      intro c hc
      obtain rfl := Option.some.inj hc
      rcases he with rfl | rfl <;> decide
  have hfrac : ∀ c ∈ (n.fraction ++ (n.exponent ++ rest)).head?, c.isDigit = false := by
    rcases n.fraction_ok with h | ⟨ds, h, -⟩
    · rw [h]
      exact fun c hc => (hexp c hc).1
    · rw [h]
      intro c hc
      obtain rfl := Option.some.inj hc
      decide
  have hsign : (n.whole ++ (n.fraction ++ (n.exponent ++ rest))).head? ≠ some '-' := by
    rcases n.whole_ok with h | ⟨hne, -, hall⟩
    · rw [h]
      simp
    · obtain ⟨c, cs, hc⟩ := List.exists_cons_of_ne_nil hne
      rw [hc, List.cons_append]
      intro hx
      have hd := hall c (by rw [hc]; exact List.mem_cons_self)
      obtain rfl := Option.some.inj hx
      contradiction
  unfold numeral? Numeral.text
  rw [List.append_assoc, List.append_assoc, List.append_assoc, sign_append n.negative hsign]
  dsimp only
  rw [whole?_append n.whole_ok hfrac, Option.map_some]
  dsimp only
  rw [fraction_append n.fraction_ok hexp]
  dsimp only
  rw [exponent_append n.exponent_ok hr]

end Numerals

/-! ## Values -/

section Values

/-- The names of values; the constants that are no numerals are read as numbers. -/
def literal? (text : List Char) : Option (Parsed × List Char) :=
  match text with
  | 'n' :: 'u' :: 'l' :: 'l' :: rest => some (.null, rest)
  | 't' :: 'r' :: 'u' :: 'e' :: rest => some (.bool true, rest)
  | 'f' :: 'a' :: 'l' :: 's' :: 'e' :: rest => some (.bool false, rest)
  | 'N' :: 'a' :: 'N' :: rest => some (.number "NaN".toList, rest)
  | 'I' :: 'n' :: 'f' :: 'i' :: 'n' :: 'i' :: 't' :: 'y' :: rest => some (.number "Infinity".toList, rest)
  | '-' :: 'I' :: 'n' :: 'f' :: 'i' :: 'n' :: 'i' :: 't' :: 'y' :: rest => some (.number "-Infinity".toList, rest)
  | _ => none

/-- A value that is neither a string nor nested. -/
def readScalar (admits : List Char → Bool) (text : List Char) : Except Failure (Parsed × List Char) :=
  match literal? text with
  | some r => .ok r
  | none =>
    match numeral? text with
    | some (t, rest) => if admits t then .ok (.number t, rest) else .error .invalid
    | none => .error .invalid

mutual

/-- The value that a text begins with, and what follows it.  The first number bounds the steps, the second one the
depth. -/
def readValue (admits : List Char → Bool) : ℕ → ℕ → List Char → Except Failure (Parsed × List Char)
  | 0, _, _ => .error .invalid
  | n + 1, depth, text =>
    match text with
    | '"' :: rest =>
      match readText rest with
      | some (s, rest) => .ok (.text s, rest)
      | none => .error .invalid
    | '{' :: rest =>
      match depth with
      | 0 => .error .deep
      | d + 1 =>
        match expect '}' rest with
        | some rest => .ok (.object [], rest)
        | none => (readFields admits n d (skipBlanks rest)).map fun p => (.object p.1, p.2)
    | '[' :: rest =>
      match depth with
      | 0 => .error .deep
      | d + 1 =>
        match expect ']' rest with
        | some rest => .ok (.array [], rest)
        | none => (readItems admits n d (skipBlanks rest)).map fun p => (.array p.1, p.2)
    | text => readScalar admits text

/-- The members up to the closing brace. -/
def readFields (admits : List Char → Bool) : ℕ → ℕ → List Char → Except Failure (List (List Char × Parsed) × List Char)
  | 0, _, _ => .error .invalid
  | n + 1, depth, text =>
    match text with
    | '"' :: rest =>
      match readText rest with
      | none => .error .invalid
      | some (key, rest) =>
        match expect ':' rest with
        | none => .error .invalid
        | some rest => do
          let (value, rest) ← readValue admits n depth (skipBlanks rest)
          match expect ',' rest with
          | some rest => (readFields admits n depth (skipBlanks rest)).map fun p => ((key, value) :: p.1, p.2)
          | none =>
            match expect '}' rest with
            | some rest => .ok ([(key, value)], rest)
            | none => .error .invalid
    | _ => .error .invalid

/-- The items up to the closing bracket. -/
def readItems (admits : List Char → Bool) : ℕ → ℕ → List Char → Except Failure (List Parsed × List Char)
  | 0, _, _ => .error .invalid
  | n + 1, depth, text => do
    let (value, rest) ← readValue admits n depth text
    match expect ',' rest with
    | some rest => (readItems admits n depth (skipBlanks rest)).map fun p => (value :: p.1, p.2)
    | none =>
      match expect ']' rest with
      | some rest => .ok ([value], rest)
      | none => .error .invalid

end

/-- The value of a text that holds one value and blanks around it. -/
def readJson (admits : List Char → Bool) (depth : ℕ) (text : List Char) : Except Failure (Parsed) :=
  match readValue admits (text.length + 1) depth (skipBlanks text) with
  | .ok (v, rest) => if skipBlanks rest = [] then .ok v else .error .invalid
  | .error err => .error err

end Values

/-! ## Writing -/

section Writing

variable {ν ν' α α' : Type}

mutual

def Tree.map (f : ν → ν') (g : α → α') : Tree ν α → Tree ν' α'
  | .null => .null
  | .bool b => .bool b
  | .number n => .number (f n)
  | .text s => .text (s.map g)
  | .array items => .array (mapItems f g items)
  | .object members => .object (mapFields f g members)

def mapItems (f : ν → ν') (g : α → α') : List (Tree ν α) → List (Tree ν' α')
  | [] => []
  | v :: vs => v.map f g :: mapItems f g vs

def mapFields (f : ν → ν') (g : α → α') : List (List α × Tree ν α) → List (List α' × Tree ν' α')
  | [] => []
  | (k, v) :: ms => (k.map g, v.map f g) :: mapFields f g ms

end

mutual

/-- How deeply a value nests. -/
def Tree.depth : Tree ν α → ℕ
  | .array items => depthItems items + 1
  | .object members => depthFields members + 1
  | _ => 0

def depthItems : List (Tree ν α) → ℕ
  | [] => 0
  | v :: vs => max v.depth (depthItems vs)

def depthFields : List (List α × Tree ν α) → ℕ
  | [] => 0
  | (_, v) :: ms => max v.depth (depthFields ms)

end

mutual

/-- A condition on every number of a value. -/
def Tree.All (p : ν → Prop) : Tree ν α → Prop
  | .number n => p n
  | .array items => AllItems p items
  | .object members => AllFields p members
  | _ => True

def AllItems (p : ν → Prop) : List (Tree ν α) → Prop
  | [] => True
  | v :: vs => v.All p ∧ AllItems p vs

def AllFields (p : ν → Prop) : List (List α × Tree ν α) → Prop
  | [] => True
  | (_, v) :: ms => v.All p ∧ AllFields p ms

end

mutual

/-- The compact text of a value. -/
def write (esc : α → List Char) : Tree Numeral α → List Char
  | .null => ['n', 'u', 'l', 'l']
  | .bool true => ['t', 'r', 'u', 'e']
  | .bool false => ['f', 'a', 'l', 's', 'e']
  | .number n => n.text
  | .text s => writeText esc s
  | .array [] => ['[', ']']
  | .array (v :: vs) => '[' :: (write esc v ++ (writeItems esc vs ++ [']']))
  | .object [] => ['{', '}']
  | .object ((k, v) :: ms) => '{' :: (writeText esc k ++ ':' :: (write esc v ++ (writeFields esc ms ++ ['}'])))

/-- The items after the first one. -/
def writeItems (esc : α → List Char) : List (Tree Numeral α) → List Char
  | [] => []
  | v :: vs => ',' :: (write esc v ++ writeItems esc vs)

/-- The members after the first one. -/
def writeFields (esc : α → List Char) : List (List α × Tree Numeral α) → List Char
  | [] => []
  | (k, v) :: ms => ',' :: (writeText esc k ++ ':' :: (write esc v ++ writeFields esc ms))

end

variable {esc : α → List Char} {val : α → Char}

/-- A numeral begins with a digit, or with a minus sign and a digit. -/
theorem Numeral.head (n : Numeral) : ∃ c cs, n.text = c :: cs ∧
    (c.isDigit = true ∨ c = '-' ∧ ∃ d ds, cs = d :: ds ∧ d.isDigit = true) := by
  have hw : ∃ d ds, n.whole = d :: ds ∧ d.isDigit = true := by
    rcases n.whole_ok with h | ⟨hne, -, hall⟩
    · exact ⟨'0', [], h, by decide⟩
    · obtain ⟨d, ds, h⟩ := List.exists_cons_of_ne_nil hne
      exact ⟨d, ds, h, hall d (by rw [h]; exact List.mem_cons_self)⟩
  obtain ⟨d, ds, hd, hdigit⟩ := hw
  unfold Numeral.text
  rw [hd]
  cases n.negative with
  | true => exact ⟨'-', d :: (ds ++ (n.fraction ++ n.exponent)), rfl, Or.inr ⟨rfl, d, _, rfl, hdigit⟩⟩
  | false => exact ⟨d, ds ++ (n.fraction ++ n.exponent), rfl, Or.inl hdigit⟩

/-- The first character of a value. -/
theorem write_head (esc : α → List Char) (v : Tree Numeral α) : ∃ c cs, write esc v = c :: cs ∧
    c ∉ [' ', '\t', '\n', '\r'] ∧ c ≠ '}' ∧ c ≠ ']' := by
  cases v with
  | null => exact ⟨_, _, by rw [write], by decide⟩
  | bool b =>
    cases b with
    | true => exact ⟨_, _, by rw [write], by decide⟩
    | false => exact ⟨_, _, by rw [write], by decide⟩
  | number n =>
    obtain ⟨c, cs, hn, hc⟩ := n.head
    refine ⟨c, cs, by rw [write, hn], ?_⟩
    rcases hc with hc | ⟨rfl, -⟩
    · refine ⟨fun hx => ?_, ?_, ?_⟩
      · simp only [List.mem_cons, List.not_mem_nil, or_false] at hx
        rcases hx with rfl | rfl | rfl | rfl <;> contradiction
      · rintro rfl
        contradiction
      · rintro rfl
        contradiction
    · decide
  | text s => exact ⟨_, _, by rw [write]; rfl, by decide⟩
  | array items =>
    cases items with
    | nil => exact ⟨_, _, by rw [write], by decide⟩
    | cons v vs => exact ⟨_, _, by rw [write], by decide⟩
  | object members =>
    cases members with
    | nil => exact ⟨_, _, by rw [write], by decide⟩
    | cons m ms =>
      obtain ⟨k, v⟩ := m
      exact ⟨_, _, by rw [write], by decide⟩

theorem skipBlanks_write (esc : α → List Char) (v : Tree Numeral α) (rest : List Char) :
    skipBlanks (write esc v ++ rest) = write esc v ++ rest := by
  obtain ⟨c, cs, h, hc, -⟩ := write_head esc v
  rw [h]
  exact List.dropWhile_cons_of_neg (by simpa using hc)

theorem literal?_numeral (n : Numeral) (rest : List Char) : literal? (n.text ++ rest) = none := by
  obtain ⟨c, cs, h, hc⟩ := n.head
  rw [h, List.cons_append]
  unfold literal?
  split <;> first
    | rfl
    | (rename_i heq
       obtain ⟨rfl, -⟩ := List.cons.inj heq
       rcases hc with hc | ⟨hc, -⟩ <;> contradiction)
    | (rename_i heq
       obtain ⟨rfl, htail⟩ := List.cons.inj heq
       rcases hc with hc | ⟨-, d, ds, rfl, hd⟩
       · contradiction
       · obtain ⟨rfl, -⟩ := List.cons.inj htail
         contradiction)

/-- What is in a container follows a comma or ends it. -/
theorem ends_cons {c : Char} (hc : c = ',' ∨ c = '}' ∨ c = ']') (rest : List Char) : Ends (c :: rest) := by
  intro x hx
  obtain rfl := Option.some.inj hx
  rcases hc with rfl | rfl | rfl <;> decide

theorem ends_items (esc : α → List Char) (vs : List (Tree Numeral α)) (rest : List Char) :
    Ends (writeItems esc vs ++ ']' :: rest) := by
  cases vs with
  | nil =>
    rw [writeItems, List.nil_append]
    exact ends_cons (Or.inr (Or.inr rfl)) rest
  | cons v vs =>
    rw [writeItems, List.cons_append]
    exact ends_cons (Or.inl rfl) _

theorem ends_fields (esc : α → List Char) (ms : List (List α × Tree Numeral α)) (rest : List Char) :
    Ends (writeFields esc ms ++ '}' :: rest) := by
  cases ms with
  | nil =>
    rw [writeFields, List.nil_append]
    exact ends_cons (Or.inr (Or.inl rfl)) rest
  | cons m ms =>
    obtain ⟨k, v⟩ := m
    rw [writeFields, List.cons_append]
    exact ends_cons (Or.inl rfl) _

theorem expect_write (v : Tree Numeral α) {c : Char} (hc : c = '}' ∨ c = ']') (rest : List Char) :
    expect c (write esc v ++ rest) = none := by
  obtain ⟨x, xs, h, hx, hbrace, hbracket⟩ := write_head esc v
  rw [h, List.cons_append, expect_cons hx]
  rcases hc with rfl | rfl
  · exact if_neg hbrace
  · exact if_neg hbracket

/-- The reader takes the numeral. -/
def Admitted (admits : List Char → Bool) (n : Numeral) : Prop := admits n.text = true

theorem readScalar_numeral {admits : List Char → Bool} {n : Numeral} (hn : Admitted admits n) {rest : List Char}
    (hr : Ends rest) : readScalar admits (n.text ++ rest) = .ok (.number n.text, rest) := by
  unfold readScalar
  simp only [literal?_numeral, numeral?_text n hr]
  exact if_pos hn

/-- A text that begins neither a string nor a container. -/
theorem readValue_scalar (admits : List Char → Bool) {c : Char} (hq : c ≠ '"') (hb : c ≠ '{') (hk : c ≠ '[')
    (n depth : ℕ) (rest : List Char) : readValue admits (n + 1) depth (c :: rest) = readScalar admits (c :: rest) := by
  rw [readValue]
  · intro r h
    exact hq (List.cons.inj h).1
  · intro r h
    exact hb (List.cons.inj h).1
  · intro r h
    exact hk (List.cons.inj h).1

/-! ### What is written is read -/

section Reading

variable (esc val) (admits : List Char → Bool)

/-- A value is read with as many steps as it has characters, whatever follows. -/
def ReadsValues (n : ℕ) : Prop :=
  ∀ (v : Tree Numeral α) (depth : ℕ) (rest : List Char), (write esc v).length ≤ n → v.depth ≤ depth →
    v.All (Admitted admits) → Ends rest →
    readValue admits n depth (write esc v ++ rest) = .ok (v.map Numeral.text val, rest)

def ReadsItems (n : ℕ) : Prop :=
  ∀ (v : Tree Numeral α) (vs : List (Tree Numeral α)) (depth : ℕ) (rest : List Char),
    (write esc v).length + (writeItems esc vs).length + 1 ≤ n → v.depth ≤ depth → depthItems vs ≤ depth →
    v.All (Admitted admits) → AllItems (Admitted admits) vs →
    readItems admits n depth (write esc v ++ (writeItems esc vs ++ ']' :: rest)) =
      .ok (mapItems Numeral.text val (v :: vs), rest)

def ReadsFields (n : ℕ) : Prop :=
  ∀ (k : List α) (v : Tree Numeral α) (ms : List (List α × Tree Numeral α)) (depth : ℕ) (rest : List Char),
    (write esc v).length + (writeFields esc ms).length + 1 ≤ n → v.depth ≤ depth → depthFields ms ≤ depth →
    v.All (Admitted admits) → AllFields (Admitted admits) ms →
    readFields admits n depth (writeText esc k ++ ':' :: (write esc v ++ (writeFields esc ms ++ '}' :: rest))) =
      .ok (mapFields Numeral.text val ((k, v) :: ms), rest)

variable {esc val admits} {n : ℕ}

theorem readsValues_succ (h : Escapes esc val) (hi : ReadsItems esc val admits n)
    (hf : ReadsFields esc val admits n) : ReadsValues esc val admits (n + 1) := by
  intro v depth rest hn hd ha hr
  cases v with
  | null => rfl
  | bool b => cases b <;> rfl
  | number t =>
    obtain ⟨c, cs, ht, hc⟩ := t.head
    rw [write, Tree.map, ht, List.cons_append, readValue_scalar, ← List.cons_append, ← ht,
      readScalar_numeral (show Admitted admits t by rwa [Tree.All] at ha) hr]
    all_goals
      rintro rfl
      rcases hc with hc | ⟨hc, -⟩ <;> contradiction
  | text s =>
    rw [write, Tree.map, writeText, List.cons_append, List.append_assoc, readValue]
    simp only [List.singleton_append, readText_writeText h]
  | array items =>
    obtain ⟨depth, rfl⟩ : ∃ k, depth = k + 1 := ⟨depth - 1, by rw [Tree.depth] at hd; omega⟩
    cases items with
    | nil => rfl
    | cons v vs =>
      rw [Tree.depth, depthItems] at hd
      rw [Tree.All, AllItems] at ha
      rw [write, List.length_cons, List.length_append, List.length_append, List.length_singleton] at hn
      have hitems := hi v vs depth rest (by omega) (by omega) (by omega) ha.1 ha.2
      rw [write, Tree.map, List.cons_append, List.append_assoc, List.append_assoc, readValue]
      simp only [expect_write v (Or.inr rfl), skipBlanks_write, List.singleton_append, hitems]
      rfl
  | object members =>
    obtain ⟨depth, rfl⟩ : ∃ k, depth = k + 1 := ⟨depth - 1, by rw [Tree.depth] at hd; omega⟩
    cases members with
    | nil => rfl
    | cons m ms =>
      obtain ⟨k, v⟩ := m
      rw [Tree.depth, depthFields] at hd
      rw [Tree.All, AllFields] at ha
      rw [write, List.length_cons, List.length_append, List.length_cons, List.length_append, List.length_append,
        List.length_singleton] at hn
      have hfields := hf k v ms depth rest (by omega) (by omega) (by omega) ha.1 ha.2
      have htext : write esc (.object ((k, v) :: ms)) ++ rest =
          '{' :: (writeText esc k ++ ':' :: (write esc v ++ (writeFields esc ms ++ '}' :: rest))) := by
        simp [write]
      have hclose : ∀ u, expect '}' (writeText esc k ++ u) = none := fun _ => rfl
      have hblank : ∀ u, skipBlanks (writeText esc k ++ u) = writeText esc k ++ u := fun _ => rfl
      rw [htext, Tree.map, readValue]
      simp only [hclose, hblank, hfields]
      rfl

theorem readsItems_succ (hv : ReadsValues esc val admits n) (hi : ReadsItems esc val admits n) :
    ReadsItems esc val admits (n + 1) := by
  intro v vs depth rest hn hdv hdi hav hai
  have hvalue := hv v depth _ (by omega) hdv hav (ends_items esc vs rest)
  rw [readItems, hvalue]
  cases vs with
  | nil =>
    rw [writeItems]
    rfl
  | cons w vs =>
    rw [writeItems, List.length_cons, List.length_append] at hn
    rw [depthItems] at hdi
    rw [AllItems] at hai
    have hrest := hi w vs depth rest (by omega) (by omega) (by omega) hai.1 hai.2
    have hcomma : ∀ u, expect ',' (',' :: u) = some u := fun _ => rfl
    rw [writeItems, List.cons_append, List.append_assoc]
    simp only [bind, Except.bind, hcomma, skipBlanks_write, hrest]
    rfl

theorem readsFields_succ (h : Escapes esc val) (hv : ReadsValues esc val admits n)
    (hf : ReadsFields esc val admits n) : ReadsFields esc val admits (n + 1) := by
  intro k v ms depth rest hn hdv hdf hav haf
  have hvalue := hv v depth _ (by omega) hdv hav (ends_fields esc ms rest)
  have hcolon : ∀ u, expect ':' (':' :: u) = some u := fun _ => rfl
  rw [writeText, List.cons_append, List.append_assoc, List.singleton_append, readFields, readText_writeText h]
  simp only [hcolon, skipBlanks_write, hvalue]
  cases ms with
  | nil =>
    rw [writeFields]
    rfl
  | cons m ms =>
    obtain ⟨k', w⟩ := m
    rw [writeFields, List.length_cons, List.length_append, List.length_cons, List.length_append] at hn
    rw [depthFields] at hdf
    rw [AllFields] at haf
    have hrest := hf k' w ms depth rest (by omega) (by omega) (by omega) haf.1 haf.2
    have hblank : ∀ u, skipBlanks (writeText esc k' ++ u) = writeText esc k' ++ u := fun _ => rfl
    have hcomma : ∀ u, expect ',' (',' :: u) = some u := fun _ => rfl
    rw [writeFields, List.cons_append, List.append_assoc, List.cons_append, List.append_assoc]
    simp only [bind, Except.bind, hcomma, hblank, hrest]
    rfl

theorem reads (h : Escapes esc val) (n : ℕ) :
    ReadsValues esc val admits n ∧ ReadsItems esc val admits n ∧ ReadsFields esc val admits n := by
  induction n with
  | zero =>
    refine ⟨fun v _ _ hn => ?_, fun v vs _ _ hn => ?_, fun k v ms _ _ hn => ?_⟩
    · obtain ⟨x, xs, hx, -⟩ := write_head esc v
      rw [hx, List.length_cons] at hn
      omega
    · omega
    · omega
  | succ n ih =>
    obtain ⟨hv, hi, hf⟩ := ih
    exact ⟨readsValues_succ h hi hf, readsItems_succ hv hi, readsFields_succ h hv hf⟩

/-- **A written value reads back**, if the reader may nest as deeply and takes its numerals. -/
theorem read_write (h : Escapes esc val) {v : Tree Numeral α} {depth : ℕ} (hd : v.depth ≤ depth)
    (ha : v.All (Admitted admits)) : readJson admits depth (write esc v) = .ok (v.map Numeral.text val) := by
  have hends : Ends [] := by
    intro c hc
    contradiction
  have hread := (reads h ((write esc v).length + 1)).1 v depth [] (by omega) hd ha hends
  have hblank := skipBlanks_write esc v []
  rw [List.append_nil] at hread hblank
  unfold readJson
  rw [hblank, hread]
  rfl

end Reading

end Writing

end JsonText
