import SlurmManager.Tracking.Messages

/-!
# Json — decoded JSON values and what Python does with them

The values that `json.loads` returns, with the built-in operations the manager applies to values nobody
has validated: truth, `== 0`, iteration, and `.get`, which only objects have.  An object lists its members
in order; `json.loads` gives it no key twice.
-/

namespace SlurmManager

/-- A Python `float`. -/
inductive PyFloat
  | finite (value : ℚ)
  | infinite (negative : Bool)
  | nan
  deriving DecidableEq

inductive Json
  | null
  | bool (b : Bool)
  | int (n : ℤ)
  | float (x : PyFloat)
  | string (text : String)
  | array (items : List Json)
  | object (fields : List (String × Json))

/-- A `dict[str, Any]`. -/
abbrev Object := List (String × Json)

/-- `o.get(key, default)`. -/
def Object.get (o : Object) (key : String) (default : Json := .null) : Json := (o.lookup key).getD default

namespace Json

/-- `type(value).__name__`. -/
def typeName : Json → String
  | .null => "NoneType"
  | .bool _ => "bool"
  | .int _ => "int"
  | .float _ => "float"
  | .string _ => "str"
  | .array _ => "list"
  | .object _ => "dict"

/-- `bool(value)`. -/
def truthy : Json → Bool
  | .null => false
  | .bool b => b
  | .int n => n ≠ 0
  | .float x => x ≠ .finite 0
  | .string text => text ≠ ""
  | .array items => !items.isEmpty
  | .object fields => !fields.isEmpty

/-- `value == n`: `False` and `0.0` are equal to 0. -/
def equals (n : ℤ) : Json → Bool
  | .bool b => n = if b then 1 else 0
  | .int m => m = n
  | .float x => x = .finite n
  | _ => false

/-- `value == 0`. -/
def isZero (v : Json) : Bool := v.equals 0

/-- `value is None`. -/
def isNull : Json → Bool
  | .null => true
  | _ => false

/-- The object that a value is, `isinstance(value, dict)`. -/
def asObject? : Json → Option Object
  | .object fields => some fields
  | _ => none

/-- `iter(value)`. -/
def iterate : Json → Except PyError (List Json)
  | .array items => .ok items
  | .object fields => .ok (fields.map fun e => .string e.1)
  | .string text => .ok (text.toList.map fun c => .string c.toString)
  | value => .error ⟨.other, "'" ++ value.typeName ++ "' object is not iterable"⟩

/-- `value.get(key, default)`. -/
def get (value : Json) (key : String) (default : Json := .null) : Except PyError Json :=
  match value with
  | .object fields => .ok (Object.get fields key default)
  | value => .error ⟨.other, "'" ++ value.typeName ++ "' object has no attribute 'get'"⟩

/-- Membership in a set hashes the value first. -/
def hash : Json → Except PyError Unit
  | .array items => .error ⟨.other, "unhashable type: '" ++ (Json.array items).typeName ++ "'"⟩
  | .object fields => .error ⟨.other, "unhashable type: '" ++ (Json.object fields).typeName ++ "'"⟩
  | _ => .ok ()

end Json

/-! ## Loading -/

/-- How `json.loads` ends. -/
inductive Loaded
  | value (j : Json)
  | valueError
  /-- `RecursionError`: the text nests beyond the limit of the interpreter. -/
  | tooDeep

/-- Its text goes on with what was being decoded, an array or an object. -/
def PyError.tooDeep : PyError := ⟨.recursionError, "maximum recursion depth exceeded"⟩

/-- `json.loads` under an `except ValueError` that goes on with `other`. -/
def Loaded.orElse (other : Except PyError Json) : Loaded → Except PyError Json
  | .value v => .ok v
  | .valueError => other
  | .tooDeep => .error PyError.tooDeep

/-! ## When these operations raise -/

namespace Json

/-- The value is a text, a list or an object. -/
def IsSequence : Json → Prop
  | .string _ | .array _ | .object _ => True
  | _ => False

def IsObject (value : Json) : Prop := ∃ fields, value = .object fields

/-- The value is neither a list nor an object. -/
def Hashable : Json → Prop
  | .array _ | .object _ => False
  | _ => True

theorem asObject?_eq_some {v : Json} {o : Object} : v.asObject? = some o ↔ v = .object o := by
  cases v <;> simp [asObject?]

theorem get_ok_iff (v : Json) (key : String) (d : Json) : (∃ r, v.get key d = .ok r) ↔ v.IsObject := by
  cases v <;> simp [get, IsObject]

end Json

end SlurmManager
