import Mathlib

/-!
# JSON values as a dynamically typed program sees them

`Json` is the value that a JSON text loads to.  Reading a field, taking a default
and comparing with a clock value can each raise, depending on the shape of the
value, and `PyError` names the exception.

`JsonText` is a stored text up to what the parser makes of it: either the dump of
a value, or a text that does not parse.  Dumping and loading is then the identity
on values, which is what the standard module guarantees.
-/

namespace Rcsce

/-- A reading of the wall clock, in seconds. -/
abbrev Time := ℚ

/-- The floats that are not numbers of the line; the standard parser reads them. -/
inductive NonFinite where
  | nan
  | posInf
  | negInf
  deriving DecidableEq

/-- A value that a JSON text loads to.  An object keeps its members in order. -/
inductive Json where
  | null
  | bool (b : Bool)
  | num (q : ℚ)
  | nonFinite (f : NonFinite)
  | str (s : String)
  | arr (elems : List Json)
  | obj (members : List (String × Json))

instance : Inhabited Json := ⟨.null⟩

/-- The exceptions that the modelled code can meet. -/
inductive PyError where
  | keyError (key : String)
  | typeError
  | attributeError
  | jsonDecodeError
  | timeoutError
  | runtimeError
  deriving DecidableEq

namespace Json

/-- `value[key]` with a string key. -/
def getItem (value : Json) (key : String) : Except PyError Json :=
  match value with
  | .obj members =>
      match members.lookup key with
      | some v => .ok v
      | none => .error (.keyError key)
  | _ => .error .typeError

/-- `value.get(key, default)`. -/
def getD (value : Json) (key : String) (default : Json) : Except PyError Json :=
  match value with
  | .obj members => .ok ((members.lookup key).getD default)
  | _ => .error .attributeError

/-- `now <= value`, where `value` came out of a JSON text. -/
def clockLe (now : Time) : Json → Except PyError Bool
  | .num q => .ok (now ≤ q)
  | .bool b => .ok (now ≤ if b then 1 else 0)
  | .nonFinite .posInf => .ok true
  | .nonFinite _ => .ok false
  | _ => .error .typeError

/-- `now > value`, where `value` came out of a JSON text. -/
def clockGt (now : Time) : Json → Except PyError Bool
  | .num q => .ok (q < now)
  | .bool b => .ok ((if b then 1 else 0) < now)
  | .nonFinite .negInf => .ok true
  | .nonFinite _ => .ok false
  | _ => .error .typeError

/-- `value` counts as true in a condition. -/
def truthy : Json → Bool
  | .null => false
  | .bool b => b
  | .num q => q ≠ 0
  | .nonFinite _ => true
  | .str s => s ≠ ""
  | .arr elems => !elems.isEmpty
  | .obj members => !members.isEmpty

/-- What `for x in value` goes through. -/
def iter : Json → Except PyError (List Json)
  | .arr elems => .ok elems
  | .obj members => .ok (members.map fun m => .str m.1)
  | .str s => .ok (s.toList.map fun c => .str c.toString)
  | _ => .error .typeError

/-- The string, when `value` is one. -/
def str? : Json → Option String
  | .str s => some s
  | _ => none

/-- `value` can be looked for in a dictionary. -/
def hashable : Json → Bool
  | .arr _ | .obj _ => false
  | _ => true

end Json

/-- A stored text, up to what the parser makes of it. -/
inductive JsonText where
  /-- The text that `json.dumps` writes for a value. -/
  | dumps (value : Json)
  /-- A text that `json.loads` rejects. -/
  | malformed (text : String)

namespace JsonText

/-- `json.loads`. -/
def loads : JsonText → Except PyError Json
  | .dumps value => .ok value
  | .malformed _ => .error .jsonDecodeError

/-- A text counts as true when it is not empty; no JSON text is empty. -/
def truthy : JsonText → Bool
  | .dumps _ => true
  | .malformed text => text ≠ ""

@[simp] theorem loads_dumps (value : Json) : (dumps value).loads = .ok value := rfl

@[simp] theorem truthy_dumps (value : Json) : (dumps value).truthy = true := rfl

end JsonText
end Rcsce
