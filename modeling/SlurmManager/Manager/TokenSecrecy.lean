import SlurmManager.Manager.SlurmRestClient

/-!
# TokenSecrecy — what an error of `request` says about the token

A statement about two runs of one request under two tokens.  `urllib` is a parameter: the opener ends in any
way that does not depend on the token, unless `http.client` refuses a header value, which raises a `ValueError`
that speaks of the value.  `request` does not catch it.

* `requestWith`: `request` for given settings, with that exception.
* `firstIllegal`: the header value that is refused.
* `same_errors_iff`: the errors tell nothing of the token exactly if that value is the same for both.
* `httpClientCheck`: the check of `putheader`, on the Latin-1 encoding of the value.
-/

namespace SlurmManager

/-- What `request` takes from `http.client`. -/
structure HeaderCheck where
  /-- The value is refused. -/
  illegal : String → Bool
  /-- The text of the `ValueError` for a refused value. -/
  complaint : String → String

namespace SlurmRestClient

/-! ## The code -/

section Code

/-- The headers that are sent. -/
def sentHeaders (payload : Option Json) (headers : List (String × String)) : List (String × String) :=
  if payload.isSome then headers ++ [("Content-Type", "application/json")] else headers

/-- The opener: headers are checked before anything is sent. -/
def opened (check : HeaderCheck) (headers : List (String × String)) (o : RawOutcome) : Except PyError RawOutcome :=
  match headers.find? fun h => check.illegal h.2 with
  | some h => .error ⟨.valueError, check.complaint h.2⟩
  | none => .ok o

/-- `request`, for given settings and a given end of the exchange. -/
def requestWith (check : HeaderCheck) (loads : RawBytes → Loaded) (settings : Credentials) (method : String)
    (payload : Option Json) (missingOk : Bool) (o : RawOutcome) : Except PyError Object := do
  let headers ← headers settings
  let o ← opened check (sentHeaders payload headers) o
  answer loads method missingOk o

/-- The first header value that `http.client` refuses. -/
def firstIllegal (check : HeaderCheck) (settings : Credentials) (payload : Option Json) : Option String :=
  match headers settings with
  | .error _ => none
  | .ok headers => ((sentHeaders payload headers).find? fun h => check.illegal h.2).map Prod.snd

/-- Two runs raise the same. -/
def SameErrors {α : Type} (x y : Except PyError α) : Prop := ∀ e, x = .error e ↔ y = .error e

/-- What `request` raises for a response. -/
def responseErrors (method : String) (code : ℕ) : List PyError :=
  PyError.tooDeep :: ["Slurm REST " ++ method ++ " failed (connection or timeout)",
    "Slurm REST " ++ method ++ " failed (HTTP " ++ toString code ++ ")", "Slurm REST returned invalid JSON",
    "Slurm REST returned an invalid response", "Slurm REST reported an application error"].map restError

/-- The HTTP code of a failed exchange. -/
def RawOutcome.code : RawOutcome → ℕ
  | .httpError code _ => code
  | _ => 200

end Code

/-! ## One run -/

section OneRun

variable {check : HeaderCheck} {loads : RawBytes → Loaded} {settings : Credentials} {method : String}
  {payload : Option Json} {missingOk : Bool} {o : RawOutcome}

theorem orElse_error {raw : RawBytes} {other : Except PyError Json} {e : PyError}
    (h : (loads raw).orElse other = .error e) : e = PyError.tooDeep ∨ other = .error e := by
  cases hl : loads raw with
  | value v =>
    rw [hl] at h
    contradiction
  | valueError =>
    rw [hl] at h
    exact Or.inr h
  | tooDeep =>
    rw [hl] at h
    exact Or.inl (Except.error.inj h).symm

theorem errorBody_error {body : Option RawBytes} {e : PyError}
    (h : errorBody loads missingOk body = .error e) : e = PyError.tooDeep := by
  unfold errorBody at h
  split at h
  · contradiction
  · rcases orElse_error h with he | he
    · exact he
    · contradiction

theorem replyBody_error {raw : RawBytes} {e : PyError} (h : replyBody loads raw = .error e) :
    e = PyError.tooDeep ∨ e = restError "Slurm REST returned invalid JSON" := by
  unfold replyBody at h
  split_ifs at h
  rcases orElse_error h with he | he
  · exact Or.inl he
  · exact Or.inr (Except.error.inj he).symm

/-- The error of a response is one of six: the token and the body have no part in it. -/
theorem answer_error {e : PyError} (h : answer loads method missingOk o = .error e) :
    e ∈ responseErrors method (RawOutcome.code o) := by
  cases o with
  | failed =>
    obtain rfl := Except.error.inj h
    simp [responseErrors]
  | httpError code body =>
    simp only [answer] at h
    split at h
    · rename_i e' hbody
      obtain rfl := Except.error.inj h
      rw [errorBody_error hbody]
      simp [responseErrors]
    · split_ifs at h
      obtain rfl := Except.error.inj h
      simp [responseErrors, RawOutcome.code]
  | reply raw =>
    simp only [answer] at h
    split at h
    · rename_i e' hbody
      obtain rfl := Except.error.inj h
      rcases replyBody_error hbody with rfl | rfl <;> simp [responseErrors]
    · split_ifs at h
      obtain rfl := Except.error.inj h
      simp [responseErrors]
    · obtain rfl := Except.error.inj h
      simp [responseErrors]

/-- None of them is a `ValueError`. -/
theorem type_ne_of_mem_responseErrors {code : ℕ} {e : PyError} (h : e ∈ responseErrors method code) :
    e.type ≠ .valueError := by
  rcases List.mem_cons.mp h with rfl | h
  · decide
  · obtain ⟨text, -, rfl⟩ := List.mem_map.mp h
    exact nofun

/-- With a token the headers are there, and the token is the first of them. -/
theorem headers_of_jwt (h : settings.jwt ≠ "") : headers settings =
    .ok ([("X-SLURM-USER-TOKEN", settings.jwt), ("Accept", "application/json")] ++
      if settings.user = "" then [] else [("X-SLURM-USER-NAME", settings.user)]) := if_neg h

/-- A run with a token either complains of a header value, or is decided by the response. -/
theorem requestWith_eq (h : settings.jwt ≠ "") :
    requestWith check loads settings method payload missingOk o =
      match firstIllegal check settings payload with
      | some value => .error ⟨.valueError, check.complaint value⟩
      | none => answer loads method missingOk o := by
  unfold requestWith firstIllegal opened
  rw [headers_of_jwt h]
  simp only [Except.ok_bind]
  cases (sentHeaders payload _).find? fun h => check.illegal h.2 <;> rfl

/-- Without a refused value this is the `request` of the client. -/
theorem request_eq_requestWith (c : SlurmRestClient) (path : String)
    (h : firstIllegal check (c.credentials c.requests) payload = none) :
    ((request method path payload missingOk).exec c).1 =
      requestWith check c.texts.loads (c.credentials c.requests) method payload missingOk (c.outcome c.requests) := by
  unfold firstIllegal at h
  unfold requestWith opened
  cases hh : headers (c.credentials c.requests) with
  | error e => simp [request, Program.exec_bind, hh]
  | ok hs =>
    rw [hh] at h
    rw [Option.map_eq_none_iff] at h
    simp only [Except.ok_bind, h]
    cases ha : answer c.texts.loads method missingOk (c.outcome c.requests) <;>
      simp [request, Program.exec_bind, Program.exec_map, Except.map, hh, ha]

end OneRun

/-! ## Two runs -/

/-- **When the errors tell nothing of the token.**  Two runs of one request, under two tokens, raise the same
exactly if the first header value that `http.client` refuses, if any, is the same in both.  A run without such a
value raises one of six errors, which name the method and the HTTP code. -/
theorem same_errors_iff (check : HeaderCheck) (loads : RawBytes → Loaded) {first second : Credentials}
    (method : String) (payload : Option Json) (missingOk : Bool) (o : RawOutcome)
    (hfirst : first.jwt ≠ "") (hsecond : second.jwt ≠ "")
    (hquote : ∀ v w, firstIllegal check first payload = some v → firstIllegal check second payload = some w →
      check.complaint v = check.complaint w → v = w) :
    (SameErrors (requestWith check loads first method payload missingOk o)
        (requestWith check loads second method payload missingOk o) ↔
      firstIllegal check first payload = firstIllegal check second payload) ∧
    (firstIllegal check first payload = none → ∀ e,
      requestWith check loads first method payload missingOk o = .error e →
        e ∈ responseErrors method (RawOutcome.code o)) := by
  rw [requestWith_eq hfirst, requestWith_eq hsecond]
  refine ⟨⟨fun h => ?_, fun h => ?_⟩, fun h e he => ?_⟩
  · cases h₁ : firstIllegal check first payload with
    | none =>
      cases h₂ : firstIllegal check second payload with
      | none => rfl
      | some w =>
        -- only a refused value raises a `ValueError`
        rw [h₁, h₂] at h
        have he := (h _).mpr rfl
        exact absurd rfl (type_ne_of_mem_responseErrors (answer_error he))
    | some v =>
      have he := (h _).mp (by rw [h₁])
      cases h₂ : firstIllegal check second payload with
      | none =>
        rw [h₂] at he
        exact absurd rfl (type_ne_of_mem_responseErrors (answer_error he))
      | some w =>
        rw [h₂] at he
        have htext := congrArg PyError.text (Except.error.inj he)
        rw [hquote v w h₁ h₂ htext.symm]
  · rw [h]
    exact fun e => Iff.rfl
  · rw [h] at he
    exact answer_error he

/-! ## The check of `http.client` -/

section HttpClient

/-- Latin-1 has no such character. -/
def beyondLatin1 (c : Char) : Bool := 255 < c.toNat

/-- A line break that no blank follows. -/
def bareLineBreak : List Char → Bool
  | [] => false
  | c :: rest =>
    let folded := rest.head? = some ' ' ∨ rest.head? = some '\t'
    (c = '\n' ∧ ¬ folded) ∨ (c = '\r' ∧ ¬ folded ∧ rest.head? ≠ some '\n') ∨ bareLineBreak rest

def hexDigits (width n : ℕ) : List Char := (Nat.toDigits 16 n).leftpad width '0'

/-- A byte in the `repr` of a `bytes` object. -/
def reprByte (quote c : Char) : List Char :=
  if c = '\\' ∨ c = quote then ['\\', c]
  else if c = '\n' then ['\\', 'n']
  else if c = '\r' then ['\\', 'r']
  else if c = '\t' then ['\\', 't']
  else if ' ' ≤ c ∧ c ≤ '~' then [c]
  else ['\\', 'x'] ++ hexDigits 2 c.toNat

/-- `repr` of the encoded value. -/
def reprBytes (chars : List Char) : List Char :=
  let quote := if '\'' ∈ chars ∧ '"' ∉ chars then '"' else '\''
  'b' :: quote :: (chars.flatMap (reprByte quote) ++ [quote])

/-- The text of a `UnicodeEncodeError`: the characters that cannot be encoded, and where they stand. -/
def encodeComplaint (chars : List Char) : List Char :=
  let start := chars.findIdx beyondLatin1
  let run := (chars.drop start).takeWhile beyondLatin1
  let what := match run with
    | [c] =>
      "character '".toList ++ (if c.toNat < 65536 then ['\\', 'u'] ++ hexDigits 4 c.toNat
        else ['\\', 'U'] ++ hexDigits 8 c.toNat) ++ ("' in position " ++ toString start).toList
    | run => ("characters in position " ++ toString start ++ "-" ++ toString (start + run.length - 1)).toList
  "'latin-1' codec can't encode ".toList ++ what ++ ": ordinal not in range(256)".toList

/-- The check of `putheader`: the value is encoded first. -/
def httpClientCheck : HeaderCheck where
  illegal value := value.toList.any beyondLatin1 || bareLineBreak value.toList
  complaint value := String.ofList (
    if value.toList.any beyondLatin1 then encodeComplaint value.toList
    else "Invalid header value ".toList ++ reprBytes value.toList)

end HttpClient

/-- No response is JSON. -/
def notJson : RawBytes → Loaded := fun _ => .valueError

/-- A clean token and a response that is no JSON. -/
theorem same_errors_iff_of_clean :
    SameErrors (requestWith httpClientCheck notJson ⟨"eyJ", "alice"⟩ "GET" none true (.reply [1]))
      (requestWith httpClientCheck notJson ⟨"abc", "alice"⟩ "GET" none true (.reply [1])) := by
  have hclean : firstIllegal httpClientCheck ⟨"eyJ", "alice"⟩ none = none := by decide
  refine (same_errors_iff httpClientCheck notJson "GET" none true (.reply [1]) (by decide) (by decide)
    fun v w hv => ?_).1.mpr (by decide)
  rw [hclean] at hv
  contradiction

/-- A token that a line break has got into is in the text of the error. -/
theorem token_in_error : ∃ e,
    requestWith httpClientCheck notJson ⟨"eyJhbGci\nOiJ9", "alice"⟩ "DELETE" none false (.reply []) = .error e ∧
    e = ⟨.valueError, "Invalid header value b'eyJhbGci\\nOiJ9'"⟩ ∧
    ¬ SameErrors
      (requestWith httpClientCheck notJson ⟨"eyJhbGci\nOiJ9", "alice"⟩ "DELETE" none false (.reply []))
      (requestWith httpClientCheck notJson ⟨"abc", "alice"⟩ "DELETE" none false (.reply [])) := by
  have hraised : requestWith httpClientCheck notJson ⟨"eyJhbGci\nOiJ9", "alice"⟩ "DELETE" none false
      (.reply []) = .error ⟨.valueError, "Invalid header value b'eyJhbGci\\nOiJ9'"⟩ := rfl
  refine ⟨_, hraised, rfl, fun h => ?_⟩
  have hsame := (h _).mp hraised
  exact absurd hsame (by nofun)

end SlurmRestClient

end SlurmManager
