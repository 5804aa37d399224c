import SlurmManager.Manager.Json
import SlurmManager.Tracking.JobFuture
import Mathlib.Data.PNat.Defs

/-!
# JobOptions — validated options and the REST job description

`job_options.py`.  A `JobOptions` is one that pydantic has accepted: texts are stripped and not empty,
numbers are positive.

* `toRest`: `to_rest`, with unset values omitted.
* `Object.update`: `dict.update`; `get_update` reads a member of an updated object.
-/

namespace SlurmManager

/-! ## Updating an object -/

namespace Object

/-- `o[key] = value`: an old member keeps its place. -/
def set (o : Object) (key : String) (value : Json) : Object :=
  if (o.lookup key).isSome then o.map fun e => if e.1 = key then (key, value) else e else o ++ [(key, value)]

/-- `o.update(items)`. -/
def update (o items : Object) : Object := items.foldl (fun o e => o.set e.1 e.2) o

theorem lookup_set_self (o : Object) (key : String) (value : Json) : (o.set key value).lookup key = some value := by
  unfold set
  split_ifs with h
  · induction o with
    | nil => simp at h
    | cons e o ih =>
      by_cases he : e.1 = key
      · simp [he]
      · have hk : (key == e.1) = false := by simpa using Ne.symm he
        rw [List.lookup_cons, hk] at h
        rw [List.map_cons, if_neg he, List.lookup_cons, hk]
        exact ih h
  · rw [List.lookup_append]
    have h : o.lookup key = none := Option.not_isSome_iff_eq_none.mp h
    simp [h]

/-- The last item decides. -/
theorem get_update_last (o items : Object) (key : String) (value default : Json) :
    (o.update (items ++ [(key, value)])).get key default = value := by
  unfold update Object.get
  rw [List.foldl_append]
  show ((Object.set _ key value).lookup key).getD default = value
  rw [lookup_set_self]
  rfl

end Object

/-! ## The options -/

/-- The white space that pydantic strips; the separators U+001C to U+001F stay. -/
def isWhiteSpace (c : Char) : Bool := isSpace c && !(28 ≤ c.toNat && c.toNat ≤ 31)

/-- `NonEmptyString`. -/
structure NonEmptyString where
  text : String
  stripped : trim isWhiteSpace text = text
  nonempty : text ≠ ""

inductive Partition
  | hour
  | day
  | week
  | gpu
  deriving DecidableEq, Repr

def Partition.value : Partition → String
  | .hour => "hour"
  | .day => "day"
  | .week => "week"
  | .gpu => "gpu"

structure JobOptions where
  name : Option NonEmptyString := none
  partition : Option Partition := none
  account : Option NonEmptyString := none
  qos : Option NonEmptyString := none
  tasks : ℕ+ := 1
  timeLimitMinutes : Option ℕ+ := none
  standardOutput : Option NonEmptyString := none
  standardError : Option NonEmptyString := none

namespace JobOptions

def textValue (text : Option NonEmptyString) : Option Json := text.map fun t => .string t.text

/-- `to_rest`. -/
def toRest (o : JobOptions) : Object :=
  let options : List (String × Option Json) :=
    [("name", textValue o.name), ("partition", o.partition.map fun p => .string p.value),
      ("account", textValue o.account), ("qos", textValue o.qos), ("tasks", some (.int o.tasks)),
      ("standard_output", textValue o.standardOutput), ("standard_error", textValue o.standardError)]
  let options := options.filterMap fun e => e.2.map fun v => (e.1, v)
  match o.timeLimitMinutes with
  | none => options
  | some minutes => options ++ [("time_limit", .object [("set", .bool true), ("number", .int minutes)])]

end JobOptions

end SlurmManager
