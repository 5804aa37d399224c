import Mathlib.Data.Nat.Notation
import Mathlib.Tactic.Common

/-!
# Shell — scripts whose words are never expanded

The part of the shell's grammar in which every text stands for itself: words of safe characters and of
quoted parts, and one here-document with a quoted delimiter.  The reader stops at every character that
the shell would expand, escape or take for an operator (`Refusal.special`), so a script that is read to
its end is run without any expansion.

* `quote`, `join`: the POSIX quoting of an argument and of a list of them.
* `read_quote`: a quoted text without NUL is read as one word, the text itself.
* `run_exec`: a script `exec args <<'delimiter'` with a one-line document runs as the arguments say.
-/

namespace Shell

/-! ## Quoting -/

section Quoting

/-- The characters that mean nothing to the shell. -/
def Safe (c : Char) : Prop :=
  ('a' ≤ c ∧ c ≤ 'z') ∨ ('A' ≤ c ∧ c ≤ 'Z') ∨ ('0' ≤ c ∧ c ≤ '9') ∨
    c ∈ ['_', '@', '%', '+', '=', ':', ',', '.', '/', '-']

instance (c : Char) : Decidable (Safe c) := inferInstanceAs (Decidable (_ ∨ _ ∨ _ ∨ _))

/-- Decided along the text, not along the characters. -/
instance decidableAllSafe (text : List Char) : Decidable (∀ c ∈ text, Safe c) := List.decidableBAll Safe text

/-- The text between single quotes: a single quote is written in double quotes. -/
def quoteBody (text : List Char) : List Char :=
  text.flatMap fun c => if c = '\'' then ['\'', '"', '\'', '"', '\''] else [c]

/-- One argument, quoted if necessary. -/
def quote (text : List Char) : List Char :=
  if text = [] then ['\'', '\'']
  else if ∀ c ∈ text, Safe c then text
  else '\'' :: (quoteBody text ++ ['\''])

/-- The arguments with blanks between them. -/
def join : List (List Char) → List Char
  | [] => []
  | [text] => quote text
  | text :: texts => quote text ++ ' ' :: join texts

end Quoting

/-! ## Reading a command -/

section Reading

/-- Why a script is not read. -/
inductive Refusal
  /-- A character that the shell expands, escapes or takes for an operator. -/
  | special (c : Char)
  | incomplete
  | unsupported
  deriving DecidableEq

inductive Token
  /-- A word, and whether a part of it was quoted. -/
  | word (text : List Char) (quoted : Bool)
  /-- `<<`. -/
  | hereDocument
  deriving DecidableEq

inductive Mode
  | bare
  | single
  | double
  | comment
  deriving DecidableEq

/-- What was read of a command: its tokens, and the word that is being read. -/
structure Reading where
  tokens : List Token := []
  word : Option (List Char × Bool) := none

namespace Reading

/-- A character of the current word. -/
def add (c : Char) (r : Reading) : Reading :=
  match r.word with
  | none => { r with word := some ([c], false) }
  | some (text, quoted) => { r with word := some (text ++ [c], quoted) }

/-- An opening quote. -/
def openQuote (r : Reading) : Reading :=
  match r.word with
  | none => { r with word := some ([], true) }
  | some (text, _) => { r with word := some (text, true) }

/-- The end of the current word, if there is one. -/
def flush (r : Reading) : Reading :=
  match r.word with
  | none => r
  | some (text, quoted) => ⟨r.tokens ++ [.word text quoted], none⟩

end Reading

/-- The first command of a text up to its line break, which a quoted line break does not end, and what
follows it.  Blank lines and comments are skipped. -/
def read : Mode → Reading → List Char → Except Refusal (List Token × List Char)
  | .bare, r, [] => .ok (r.flush.tokens, [])
  | .bare, r, '\n' :: rest =>
    if r.flush.tokens = [] then read .bare {} rest else .ok (r.flush.tokens, rest)
  | .bare, r, '<' :: '<' :: '\'' :: rest =>
    if r.word = none then read .single (Reading.openQuote ⟨r.tokens ++ [.hereDocument], none⟩) rest
    else .error (.special '<')
  | .bare, r, '#' :: rest => if r.word = none then read .comment r rest else .error (.special '#')
  | .bare, r, '\'' :: rest => read .single r.openQuote rest
  | .bare, r, '"' :: rest => read .double r.openQuote rest
  | .bare, r, c :: rest =>
    if c = ' ' ∨ c = '\t' then read .bare r.flush rest
    else if Safe c then read .bare (r.add c) rest
    else .error (.special c)
  | .single, _, [] => .error .incomplete
  | .single, r, c :: rest =>
    if c = '\'' then read .bare r rest
    else if c = '\x00' then .error (.special c)
    else read .single (r.add c) rest
  | .double, _, [] => .error .incomplete
  | .double, r, c :: rest =>
    if c = '"' then read .bare r rest
    else if c ∈ ['$', '`', '\\', '!', '\x00'] then .error (.special c)
    else read .double (r.add c) rest
  | .comment, r, [] => .ok (r.flush.tokens, [])
  | .comment, r, c :: rest =>
    if c = '\n' then
      if r.flush.tokens = [] then read .bare {} rest else .ok (r.flush.tokens, rest)
    else read .comment r rest

end Reading

/-! ## Running a script -/

section Running

/-- What replaces the shell. -/
structure Process where
  argv : List String
  stdin : String
  deriving DecidableEq

/-- The words of a command, and the delimiter of its here-document. -/
def parse : List Token → Except Refusal (List (List Char) × Option (List Char))
  | [] => .ok ([], none)
  | .word text _ :: tokens => (parse tokens).map fun p => (text :: p.1, p.2)
  | .hereDocument :: .word text _ :: tokens =>
    match parse tokens with
    | .ok (words, none) => .ok (words, some text)
    | .ok (_, some _) => .error .unsupported
    | .error e => .error e
  | .hereDocument :: _ => .error .incomplete

/-- The lines of a here-document, up to the one that is the delimiter. -/
def document (delimiter : List Char) : List Char → List Char → Option (List Char)
  | line, [] => if line = delimiter then some [] else none
  | line, '\n' :: rest =>
    if line = delimiter then some [] else (document delimiter [] rest).map fun text => line ++ '\n' :: text
  | line, c :: rest => if c = '\x00' then none else document delimiter (line ++ [c]) rest

/-- A script whose first command is `exec` with an absolute path and a here-document.  Nothing after that
command is run. -/
def run (script : String) : Except Refusal Process := do
  let (tokens, rest) ← read .bare {} script.toList
  match ← parse tokens with
  | (command :: path :: args, some delimiter) =>
    if command = "exec".toList ∧ path.head? = some '/' then
      match document delimiter [] rest with
      | some text => return ⟨(path :: args).map String.ofList, String.ofList text⟩
      | none => throw .incomplete
    else throw .unsupported
  | _ => throw .unsupported

end Running

/-! ## What quoting does -/

section Quoted

variable {ts : List Token} {w : List Char} {q : Bool}

theorem Safe.ne {c d : Char} (h : Safe c) (hd : ¬ Safe d) : c ≠ d := by
  rintro rfl
  exact hd h

theorem read_safe {c : Char} (h : Safe c) (r : Reading) (rest : List Char) :
    read .bare r (c :: rest) = read .bare (r.add c) rest := by
  have hn : c ≠ '\n' := h.ne (by decide)
  have hl : c ≠ '<' := h.ne (by decide)
  have hc : c ≠ '#' := h.ne (by decide)
  have hs : c ≠ '\'' := h.ne (by decide)
  have hd : c ≠ '"' := h.ne (by decide)
  have hb : ¬ (c = ' ' ∨ c = '\t') := fun hb => hb.elim (h.ne (by decide)) (h.ne (by decide))
  rw [read]
  · rw [if_neg hb, if_pos h]
  all_goals grind

theorem read_safes {text : List Char} (h : ∀ c ∈ text, Safe c) (rest : List Char) :
    read .bare ⟨ts, some (w, q)⟩ (text ++ rest) = read .bare ⟨ts, some (w ++ text, q)⟩ rest := by
  induction text generalizing w with
  | nil => rw [List.append_nil, List.nil_append]
  | cons c text ih =>
    rw [List.cons_append, read_safe (h c (by simp))]
    show read .bare ⟨ts, some (w ++ [c], q)⟩ (text ++ rest) = _
    rw [ih fun x hx => h x (by simp [hx]), List.append_assoc, List.singleton_append]

theorem quoteBody_of_not_mem {text : List Char} (h : '\'' ∉ text) : quoteBody text = text := by
  induction text with
  | nil => rfl
  | cons c text ih =>
    have hc : c ≠ '\'' := fun hc => h (by simp [hc])
    have ih := ih fun hx => h (by simp [hx])
    unfold quoteBody at ih ⊢
    rw [List.flatMap_cons, if_neg hc, ih, List.singleton_append]

/-- The rest of a quoted text, up to its closing quote. -/
theorem read_quoteBody {text : List Char} (h : '\x00' ∉ text) (rest : List Char) :
    read .single ⟨ts, some (w, true)⟩ (quoteBody text ++ '\'' :: rest) =
      read .bare ⟨ts, some (w ++ text, true)⟩ rest := by
  induction text generalizing w with
  | nil =>
    rw [List.append_nil]
    rfl
  | cons c text ih =>
    have ih := ih (w := w ++ [c]) fun hx => h (by simp [hx])
    rw [List.append_assoc, List.singleton_append] at ih
    rw [← ih]
    by_cases hc : c = '\''
    · subst hc
      rfl
    · have hbody : quoteBody (c :: text) = c :: quoteBody text := by simp [quoteBody, hc]
      rw [hbody, List.cons_append, read, if_neg hc, if_neg fun h0 => h (by simp [h0])]
      rfl

/-- **A quoted text is read as one word, the text itself.** -/
theorem read_quote (ts : List Token) {text : List Char} (h : '\x00' ∉ text) (rest : List Char) :
    ∃ q, read .bare ⟨ts, none⟩ (quote text ++ rest) = read .bare ⟨ts, some (text, q)⟩ rest := by
  unfold quote
  split_ifs with he hs
  · subst he
    exact ⟨true, rfl⟩
  · refine ⟨false, ?_⟩
    obtain ⟨c, text, rfl⟩ := List.exists_cons_of_ne_nil he
    rw [List.cons_append, read_safe (hs c (by simp))]
    exact read_safes (fun x hx => hs x (by simp [hx])) rest
  · refine ⟨true, ?_⟩
    rw [List.cons_append, List.append_assoc, List.singleton_append]
    exact read_quoteBody h rest

/-- Tokens that are words. -/
def wordTokens (words : List (List Char × Bool)) : List Token := words.map fun p => .word p.1 p.2

/-- A joined list of arguments is read as these words. -/
theorem read_join (ts : List Token) {texts : List (List Char)} (h : ∀ text ∈ texts, '\x00' ∉ text) (hne : texts ≠ [])
    (rest : List Char) : ∃ words : List (List Char × Bool), words.map Prod.fst = texts ∧
      read .bare ⟨ts, none⟩ (join texts ++ ' ' :: rest) = read .bare ⟨ts ++ wordTokens words, none⟩ rest := by
  induction texts generalizing ts with
  | nil => exact absurd rfl hne
  | cons text texts ih =>
    cases texts with
    | nil =>
      obtain ⟨q, hq⟩ := read_quote ts (h text (by simp)) (' ' :: rest)
      exact ⟨[(text, q)], rfl, hq⟩
    | cons text' texts =>
      obtain ⟨q, hq⟩ := read_quote ts (h text (by simp)) (' ' :: (join (text' :: texts) ++ ' ' :: rest))
      obtain ⟨words, hw, hr⟩ := ih (ts ++ [.word text q]) (fun x hx => h x (by simp [hx])) (by simp)
      refine ⟨(text, q) :: words, by simp [hw], ?_⟩
      rw [join, List.append_assoc, List.cons_append, hq]
      · show read .bare ⟨ts ++ [.word text q], none⟩ (join (text' :: texts) ++ ' ' :: rest) = _
        rw [hr, List.append_assoc]
        rfl
      · simp

theorem read_comment {text : List Char} (h : '\n' ∉ text) (rest : List Char) :
    read .bare {} ('#' :: (text ++ '\n' :: rest)) = read .bare {} rest := by
  show read .comment {} (text ++ '\n' :: rest) = _
  induction text with
  | nil => rfl
  | cons c text ih =>
    rw [List.cons_append, read, if_neg fun hc => h (by simp [hc])]
    exact ih fun hx => h (by simp [hx])

end Quoted

/-! ## Scripts -/

section Scripts

theorem parse_wordTokens (words : List (List Char × Bool)) (tokens : List Token) :
    parse (wordTokens words ++ tokens) = (parse tokens).map fun p => (words.map Prod.fst ++ p.1, p.2) := by
  induction words with
  | nil =>
    show parse tokens = _
    cases parse tokens <;> rfl
  | cons word words ih =>
    show (parse (wordTokens words ++ tokens)).map _ = _
    rw [ih]
    cases parse tokens <;> rfl

theorem document_chars {delimiter line text : List Char} (h : ∀ c ∈ text, c ≠ '\n' ∧ c ≠ '\x00')
    (rest : List Char) : document delimiter line (text ++ rest) = document delimiter (line ++ text) rest := by
  induction text generalizing line with
  | nil => rw [List.append_nil, List.nil_append]
  | cons c text ih =>
    obtain ⟨hn, h0⟩ := h c (by simp)
    rw [List.cons_append, document, if_neg h0, ih fun x hx => h x (by simp [hx]), List.append_assoc,
      List.singleton_append]
    exact fun hc => hn hc

/-- A document of one line that is not the delimiter. -/
theorem document_line {delimiter text : List Char} (ht : ∀ c ∈ text, c ≠ '\n' ∧ c ≠ '\x00')
    (hd : ∀ c ∈ delimiter, c ≠ '\n' ∧ c ≠ '\x00') (hne : text ≠ delimiter) (rest : List Char) :
    document delimiter [] (text ++ '\n' :: (delimiter ++ '\n' :: rest)) = some (text ++ ['\n']) := by
  rw [document_chars ht, List.nil_append, document, if_neg hne, document_chars hd, List.nil_append, document,
    if_pos rfl]
  rfl

/-- A script that gives one line to a command. -/
def heredoc (comment : String) (args : List String) (delimiter text : List Char) : List Char :=
  '#' :: (comment.toList ++ '\n' :: ("exec ".toList ++ (join (args.map String.toList) ++ " <<'".toList ++
    (delimiter ++ '\'' :: '\n' :: (text ++ '\n' :: (delimiter ++ ['\n']))))))

/-- The command of such a script, read. -/
theorem read_heredoc {comment : String} {args : List String} {delimiter : List Char} (text : List Char)
    (hcomment : '\n' ∉ comment.toList) (hargs : ∀ a ∈ args, '\x00' ∉ a.toList) (hne : args ≠ [])
    (hd : '\x00' ∉ delimiter ∧ '\'' ∉ delimiter) :
    ∃ words : List (List Char × Bool), words.map Prod.fst = "exec".toList :: args.map String.toList ∧
      read .bare {} (heredoc comment args delimiter text) =
        .ok (wordTokens words ++ [.hereDocument, .word delimiter true],
          text ++ '\n' :: (delimiter ++ ['\n'])) := by
  set rest := text ++ '\n' :: (delimiter ++ ['\n'])
  have hjoin : ∀ l, "exec ".toList ++ (join (args.map String.toList) ++ " <<'".toList ++ l) =
      join ("exec".toList :: args.map String.toList) ++ ' ' :: '<' :: '<' :: '\'' :: l := by
    have hword : "exec ".toList = quote "exec".toList ++ [' '] := by
      rw [quote, if_neg (by simp), if_pos (by simp [Safe])]
      rfl
    have hmark : " <<'".toList = [' ', '<', '<', '\''] := rfl
    obtain ⟨a, as, rfl⟩ := List.exists_cons_of_ne_nil hne
    have hcons : join ("exec".toList :: (a :: as).map String.toList) =
        quote "exec".toList ++ ([' '] ++ join ((a :: as).map String.toList)) := rfl
    intro l
    rw [hword, hmark, hcons, List.append_assoc, List.append_assoc, List.append_assoc, List.append_assoc]
    rfl
  have hexec : ∀ a ∈ "exec".toList :: args.map String.toList, '\x00' ∉ a := by
    intro a ha
    rcases List.mem_cons.mp ha with rfl | ha
    · decide
    · obtain ⟨b, hb, rfl⟩ := List.mem_map.mp ha
      exact hargs b hb
  have hbody : quoteBody delimiter = delimiter := quoteBody_of_not_mem hd.2
  obtain ⟨words, hw, hr⟩ := read_join [] hexec (by simp) ('<' :: '<' :: '\'' :: (delimiter ++ '\'' ::
    '\n' :: rest))
  refine ⟨words, hw, ?_⟩
  rw [heredoc, read_comment hcomment, hjoin]
  refine hr.trans ?_
  rw [List.nil_append]
  show read .single ⟨wordTokens words ++ [.hereDocument], some ([], true)⟩ (delimiter ++ '\'' :: '\n' :: rest) = _
  nth_rewrite 1 [← hbody]
  rw [read_quoteBody hd.1, List.nil_append]
  show (if (Reading.flush _).tokens = [] then _ else _) = _
  have htokens : (Reading.flush ⟨wordTokens words ++ [.hereDocument], some (delimiter, true)⟩).tokens =
      wordTokens words ++ [.hereDocument, .word delimiter true] := by
    show wordTokens words ++ [.hereDocument] ++ [.word delimiter true] = _
    rw [List.append_assoc]
    rfl
  rw [htokens, if_neg (by simp)]

/-- **The arguments and the line of a script reach the process as they are.** -/
theorem run_exec (comment : String) {path : String} {args : List String} {delimiter text : List Char}
    (hcomment : '\n' ∉ comment.toList) (hpath : path.toList.head? = some '/')
    (hargs : ∀ a ∈ path :: args, '\x00' ∉ a.toList)
    (hd : ∀ c ∈ delimiter, c ≠ '\n' ∧ c ≠ '\x00' ∧ c ≠ '\'') (ht : ∀ c ∈ text, c ≠ '\n' ∧ c ≠ '\x00')
    (hne : text ≠ delimiter) :
    run (String.ofList (heredoc comment (path :: args) delimiter text)) =
      .ok ⟨path :: args, String.ofList (text ++ ['\n'])⟩ := by
  obtain ⟨words, hw, hr⟩ := read_heredoc text hcomment hargs (by simp)
    ⟨fun h => (hd _ h).2.1 rfl, fun h => (hd _ h).2.2 rfl⟩
  have hparse : parse (wordTokens words ++ [.hereDocument, .word delimiter true]) =
      .ok ("exec".toList :: (path :: args).map String.toList, some delimiter) := by
    rw [parse_wordTokens, hw]
    show Except.ok (_ ++ [], some delimiter) = _
    rw [List.append_nil]
  have hdoc : document delimiter [] (text ++ '\n' :: (delimiter ++ ['\n'])) = some (text ++ ['\n']) :=
    document_line ht (fun c hc => ⟨(hd c hc).1, (hd c hc).2.1⟩) hne []
  have hback : ((path :: args).map String.toList).map String.ofList = path :: args := by
    rw [List.map_map]
    exact (List.map_congr_left fun a _ => String.ofList_toList).trans (List.map_id' _)
  unfold run
  rw [String.toList_ofList, hr]
  show (parse _ >>= _) = _
  rw [hparse]
  show (if "exec".toList = "exec".toList ∧ path.toList.head? = some '/' then _ else _) = _
  rw [if_pos ⟨rfl, hpath⟩, hdoc]
  show Except.ok (Process.mk (((path :: args).map String.toList).map String.ofList) _) = _
  rw [hback]

end Scripts

end Shell
