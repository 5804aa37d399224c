import SlurmManager.Lib.JsonTree
import SlurmManager.Tracking.ListenerLoop

/-!
# EventMessages — `parse_slurm_message`, from the text on

`json.loads` and the adapter of `event_messages.py`, so that the parameters of the listener loop have a value.
What a number is and which of them a `float` field takes stay parameters.

* `Reader.loads`: an object keeps the last value of a key that occurs twice, in the place of the first one.
* `Reader.validate`: `msg_type` chooses the class; `metadata` may be missing, and other keys are ignored.
* `loads_write`: what a JSON writer has written is loaded as the value that it wrote.
-/

namespace SlurmManager

open JsonText (Parsed Numeral)

/-! ## Values -/

section Values

mutual

/-- The Python value of a JSON text. -/
def Json.ofTree (number : List Char → Json) : Parsed → Json
  | .null => .null
  | .bool b => .bool b
  | .number t => number t
  | .text s => .string (String.ofList s)
  | .array items => .array (Json.ofItems number items)
  | .object members => .object (Dict.ofList (Json.ofFields number members)).entries

def Json.ofItems (number : List Char → Json) : List Parsed → List Json
  | [] => []
  | v :: vs => Json.ofTree number v :: Json.ofItems number vs

def Json.ofFields (number : List Char → Json) : List (List Char × Parsed) → List (String × Json)
  | [] => []
  | (k, v) :: ms => (String.ofList k, Json.ofTree number v) :: Json.ofFields number ms

end

/-- A field of type `str`. -/
def Json.asText? : Json → Option String
  | .string text => some text
  | _ => none

/-- A field of type `dict[str, str]`. -/
def Json.asMetadata? : Json → Option Metadata
  | .object o => (o.mapM fun (e : String × Json) => e.2.asText?.map fun v => (e.1, v)).map Dict.ofList
  | _ => none

end Values

/-! ## The parser -/

/-- What the interpreter and the validator add to the text. -/
structure Reader where
  /-- How deeply a text may nest before `json.loads` raises `RecursionError`. -/
  limit : ℕ
  /-- How many digits an integer may have before `int` raises `ValueError`. -/
  maxDigits : ℕ
  /-- The value of a numeral. -/
  number : List Char → Json
  /-- A field of type `float`. -/
  asFloat : Json → Option ℚ

namespace Reader

variable (r : Reader)

/-- The numeral is no integer, or one that is short enough. -/
def admits (t : List Char) : Bool := t.any (· ∈ ['.', 'e', 'E']) || t.countP Char.isDigit ≤ r.maxDigits

/-- `json.loads`.  A text with half of an escaped surrogate pair, which is no text here, is refused at once; the
validator refuses it in every field that it reads. -/
def loads (text : String) : Loaded :=
  match JsonText.readJson r.admits r.limit text.toList with
  | .ok v => .value (.ofTree r.number v)
  | .error .deep => .tooDeep
  | .error .invalid => .valueError

/-- The field `metadata`, `{}` by default. -/
def metadata (o : Object) : Option Metadata :=
  match o.lookup "metadata" with
  | none => some ∅
  | some v => v.asMetadata?

/-- `SLURM_MESSAGE_ADAPTER.validate_python`: the union discriminated by `msg_type`. -/
def validate : Json → Option SlurmMessage
  | .object o => do
    let tag ← (← o.lookup "msg_type").asText?
    if tag = "heartbeat" then
      return .heartbeat ⟨← r.asFloat (← o.lookup "timestamp"), ← metadata o⟩
    else if tag = "status" then
      return .status ⟨← (← o.lookup "status").asText?, ← metadata o⟩
    else if tag = "log" then
      return .log ⟨← (← o.lookup "log").asText?, ← metadata o⟩
    else none
  | _ => none

def parser : MessageParser where
  loads := r.loads
  validate := r.validate

/-! ## What is accepted -/

section Accepted

variable {r : Reader}

/-- **A written value is loaded**, whatever the writer escapes. -/
theorem loads_write {α : Type} {esc : α → List Char} {val : α → Char} (h : JsonText.Escapes esc val)
    {v : JsonText.Tree Numeral α} (hd : v.depth ≤ r.limit) (ha : v.All (JsonText.Admitted r.admits)) :
    r.loads (String.ofList (JsonText.write esc v)) = .value (.ofTree r.number (v.map Numeral.text val)) := by
  unfold loads
  rw [String.toList_ofList, JsonText.read_write h hd ha]

end Accepted

end Reader

end SlurmManager
