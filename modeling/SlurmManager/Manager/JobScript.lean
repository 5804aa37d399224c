import SlurmManager.Lib.JsonText
import SlurmManager.Lib.Shell
import SlurmManager.Tracking.Messages

/-!
# JobScript — the batch script and the payload that the worker reads from it

`_build_job_script` packs the user's texts as JSON into a here-document; `main.go` decodes the payload
from its standard input.  The texts meet three syntaxes on the way: JSON, the here-document, and the
quoting of the arguments.

* `buildJobScript_runs`: the worker gets the arguments and the payload exactly as they were.
-/

namespace SlurmManager

/-! ## Packing -/

section Packing

/-- `text.startswith("/")`. -/
def startsWithSlash (text : String) : Bool := text.toList.head? = some '/'

/-- `uuid4().hex`. -/
structure UuidHex where
  text : String
  digits : ∀ c ∈ text.toList, c ∈ "0123456789abcdef".toList

theorem digits_zero : ∀ c ∈ "0".toList, c ∈ "0123456789abcdef".toList := by
  intro c hc
  simp at hc
  simp [hc]

/-- `worker.Payload`. -/
structure Payload where
  jobId : String := ""
  script : String := ""
  activation : String := ""
  deriving DecidableEq, Repr

/-- `json.dumps({"job_id": ..., "script": ..., "activation": ...})`. -/
def Payload.dumps (p : Payload) : String :=
  String.ofList (JsonText.writeObject
    [("job_id".toList, p.jobId.toList), ("script".toList, p.script.toList),
      ("activation".toList, p.activation.toList)])

/-- `shlex.join(args)`. -/
def shlexJoin (args : List String) : String := String.ofList (Shell.join (args.map String.toList))

/-- The command line of the worker. -/
def workerArgs (workerPath redisAddress : String) (redisTls : Bool) : List String :=
  [workerPath, "--redis-address", redisAddress, "--redis-tls=" ++ if redisTls then "true" else "false"]

/-- `_build_job_script`; `readText` is `Path(...).read_text()`. -/
def buildJobScript (readText : String → Except PyError String) (scriptPath : String) (envPath : Option String)
    (jobId workerPath redisAddress : String) (redisTls : Bool) (uuid : UuidHex) : Except PyError String := do
  if startsWithSlash workerPath = false then
    throw ⟨.valueError, "Worker path must be an absolute compute-node path"⟩
  let script ← readText scriptPath
  let activation ← match envPath with
    | some path => readText path
    | none => pure ""
  let payload := Payload.dumps ⟨jobId, script, activation⟩
  let delimiter := "SLURM_PAYLOAD_" ++ uuid.text
  let command := shlexJoin (workerArgs workerPath redisAddress redisTls)
  return "#!/bin/bash\nexec " ++ command ++ " <<'" ++ delimiter ++ "'\n" ++ payload ++ "\n" ++ delimiter ++ "\n"

end Packing

/-! ## Unpacking -/

section Unpacking

/-- A member of the object goes to the field with its tag.  A key that is no tag is not modelled. -/
def Payload.setMember (p : Payload) (m : List Char × List Char) : Option Payload :=
  if m.1 = "job_id".toList then some { p with jobId := String.ofList m.2 }
  else if m.1 = "script".toList then some { p with script := String.ofList m.2 }
  else if m.1 = "activation".toList then some { p with activation := String.ofList m.2 }
  else none

/-- `json.NewDecoder(os.Stdin).Decode(&payload)`: the first value of the input. -/
def decodePayload (stdin : String) : Option Payload := do
  (← JsonText.readObject stdin.toList).foldlM Payload.setMember {}

/-- Why `main` exits with 2 before it runs anything. -/
inductive PayloadError
  | cannotDecode
  | emptyJobId
  deriving DecidableEq, Repr

/-- The payload that `main` goes on with. -/
def loadPayload (stdin : String) : Except PayloadError Payload :=
  match decodePayload stdin with
  | none => .error .cannotDecode
  | some payload => if payload.jobId = "" then .error .emptyJobId else .ok payload

end Unpacking

/-! ## The round trip -/

section RoundTrip

/-- The payload is decoded as it was, whatever follows its text. -/
theorem decodePayload_dumps (p : Payload) (rest : String) : decodePayload (p.dumps ++ rest) = some p := by
  unfold decodePayload Payload.dumps
  rw [String.toList_append, String.toList_ofList, JsonText.readObject_writeObject]
  simp [Payload.setMember, String.ofList_toList]

theorem dumps_printable (p : Payload) : ∀ c ∈ p.dumps.toList, ' ' ≤ c ∧ c ≤ '~' := by
  unfold Payload.dumps
  rw [String.toList_ofList]
  exact JsonText.writeObject_printable _

theorem dumps_chars (p : Payload) : ∀ c ∈ p.dumps.toList, c ≠ '\n' ∧ c ≠ '\x00' := by
  intro c hc
  have hlow := (dumps_printable p c hc).1
  constructor
  · rintro rfl
    exact absurd hlow (by decide)
  · rintro rfl
    exact absurd hlow (by decide)

theorem delimiter_chars (uuid : UuidHex) :
    ∀ c ∈ ("SLURM_PAYLOAD_" ++ uuid.text).toList, c ≠ '\n' ∧ c ≠ '\x00' ∧ c ≠ '\'' := by
  have hhead : ∀ c ∈ "SLURM_PAYLOAD_".toList, c ≠ '\n' ∧ c ≠ '\x00' ∧ c ≠ '\'' := by simp
  have hdigit : ∀ c ∈ "0123456789abcdef".toList, c ≠ '\n' ∧ c ≠ '\x00' ∧ c ≠ '\'' := by simp
  intro c hc
  rw [String.toList_append] at hc
  rcases List.mem_append.mp hc with hc | hc
  · exact hhead c hc
  · exact hdigit c (uuid.digits c hc)

/-- The payload is no delimiter: it begins with a brace. -/
theorem dumps_ne_delimiter (p : Payload) (text : String) : p.dumps.toList ≠ ("SLURM_PAYLOAD_" ++ text).toList := by
  unfold Payload.dumps
  rw [String.toList_ofList, String.toList_append]
  intro h
  simp [JsonText.writeObject] at h

variable (readText : String → Except PyError String) (scriptPath : String) (envPath : Option String)
  (jobId workerPath redisAddress : String) (redisTls : Bool) (uuid : UuidHex)

/-- The text of the activation file, if there is one. -/
def activationText : Except PyError String :=
  match envPath with
  | some path => readText path
  | none => .ok ""

variable {readText scriptPath envPath workerPath}

/-- The script in the form that the shell's grammar has a name for. -/
theorem buildJobScript_ok {script activation : String} (hslash : startsWithSlash workerPath = true)
    (hscript : readText scriptPath = .ok script) (hactivation : activationText readText envPath = .ok activation) :
    buildJobScript readText scriptPath envPath jobId workerPath redisAddress redisTls uuid =
      .ok (String.ofList (Shell.heredoc "!/bin/bash" (workerArgs workerPath redisAddress redisTls)
        ("SLURM_PAYLOAD_" ++ uuid.text).toList (Payload.dumps ⟨jobId, script, activation⟩).toList)) := by
  have hpayload : Payload.dumps ⟨jobId, script, activation⟩ =
      String.ofList (Payload.dumps ⟨jobId, script, activation⟩).toList := String.ofList_toList.symm
  have htext : ∀ p : String, "#!/bin/bash\nexec " ++ shlexJoin (workerArgs workerPath redisAddress redisTls) ++
      " <<'" ++ ("SLURM_PAYLOAD_" ++ uuid.text) ++ "'\n" ++ p ++ "\n" ++ ("SLURM_PAYLOAD_" ++ uuid.text) ++ "\n" =
      String.ofList (Shell.heredoc "!/bin/bash" (workerArgs workerPath redisAddress redisTls)
        ("SLURM_PAYLOAD_" ++ uuid.text).toList p.toList) := by
    intro p
    apply String.toList_inj.mp
    simp [Shell.heredoc, shlexJoin]
  unfold activationText at hactivation
  unfold buildJobScript
  rw [hslash, hscript]
  simp only [Bool.true_eq_false, if_false]
  cases envPath with
  | none =>
    obtain rfl : "" = activation := by simpa using hactivation
    exact congrArg Except.ok (htext _)
  | some path =>
    dsimp only at hactivation
    simp only [hactivation]
    exact congrArg Except.ok (htext _)

/-- **Packaging round trip.**  The shell is replaced by the worker with exactly its four arguments, and the
worker reads the job id and the two texts exactly as they were. -/
theorem buildJobScript_runs {script activation : String} (hslash : startsWithSlash workerPath = true)
    (hscript : readText scriptPath = .ok script) (hactivation : activationText readText envPath = .ok activation)
    (hjob : jobId ≠ "") (hpath : '\x00' ∉ workerPath.toList) (haddress : '\x00' ∉ redisAddress.toList) :
    ∃ text stdin,
      buildJobScript readText scriptPath envPath jobId workerPath redisAddress redisTls uuid = .ok text ∧
      Shell.run text =
        .ok ⟨[workerPath, "--redis-address", redisAddress, "--redis-tls=" ++ if redisTls then "true" else "false"],
          stdin⟩ ∧
      decodePayload stdin = some ⟨jobId, script, activation⟩ ∧
      loadPayload stdin = .ok ⟨jobId, script, activation⟩ := by
  have hargs : ∀ a ∈ workerArgs workerPath redisAddress redisTls, '\x00' ∉ a.toList := by
    intro a ha
    simp only [workerArgs, List.mem_cons, List.not_mem_nil, or_false] at ha
    rcases ha with rfl | rfl | rfl | rfl
    · exact hpath
    · decide
    · exact haddress
    · cases redisTls <;> decide
  have hrun := Shell.run_exec "!/bin/bash" (by decide) (of_decide_eq_true hslash) hargs
    (delimiter_chars uuid) (dumps_chars ⟨jobId, script, activation⟩) (dumps_ne_delimiter _ uuid.text)
  have hdec : decodePayload (String.ofList ((Payload.dumps ⟨jobId, script, activation⟩).toList ++ ['\n'])) =
      some ⟨jobId, script, activation⟩ := by
    rw [String.ofList_append, String.ofList_toList]
    exact decodePayload_dumps _ _
  refine ⟨_, _, buildJobScript_ok jobId redisAddress redisTls uuid hslash hscript hactivation, hrun, hdec, ?_⟩
  unfold loadPayload
  rw [hdec]
  exact if_neg hjob

end RoundTrip

/-- A workload with quotes, dollar signs, line breaks and a line that looks like a delimiter, under a path with
a quote and a line break. -/
theorem buildJobScript_runs_of_quotes :
    ∃ text stdin,
      buildJobScript (fun _ => .ok "echo '$HOME' \"\\\nSLURM_PAYLOAD_0\n") "run.sh" none "j" "/opt/it's\nhere" "r:1" true
        ⟨"0", digits_zero⟩ = .ok text ∧
      Shell.run text = .ok ⟨["/opt/it's\nhere", "--redis-address", "r:1", "--redis-tls=true"], stdin⟩ ∧
      decodePayload stdin = some ⟨"j", "echo '$HOME' \"\\\nSLURM_PAYLOAD_0\n", ""⟩ ∧
      loadPayload stdin = .ok ⟨"j", "echo '$HOME' \"\\\nSLURM_PAYLOAD_0\n", ""⟩ :=
  buildJobScript_runs "j" "r:1" true ⟨"0", digits_zero⟩ (by decide) rfl rfl (by decide) (by decide) (by decide)

end SlurmManager
