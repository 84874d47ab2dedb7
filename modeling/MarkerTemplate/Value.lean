import MarkerTemplate.Effect
import MarkerTemplate.Json.Reader
import MarkerTemplate.Json.Writer

/-!
# Values and variables

What keys are bound to, and the mappings that bind them.

## Main definitions

- `Value` is a text, a number, structured data or a supplier
- `Variables` is an ordered mapping of keys to values
- `Variables.ofJson` and `Variables.ofJsonFlattened` read a mapping off a JSON object
- `DataError` says why data cannot serve as variables

## Design notes

Strings and numbers of JSON become texts and numbers, since markers put them into running text.
The rest of JSON stays structured.
-/

namespace MarkerTemplate

inductive Value where
  | text (s : Text)
  | number (n : Number)
  -- Data with a structure of its own: objects, arrays, truth values and the empty value.
  | structured (json : Json)
  | supplied (supplier : Supplier)

namespace Value

def ofJson : Json → Value
  | .string s => .text s
  | .number n => .number n
  | json => .structured json

/-- The value of a floating-point number. What is not finite has no form in JSON and becomes the
empty value. -/
def ofFloat (x : Float) : Value :=
  if h : x.isFinite = true then .number (.float ⟨x, h⟩) else .structured .null

/-- Whether the text of the value may have to be waited for. -/
def isDeferred : Value → Bool
  | .supplied supplier => supplier.shape.isDeferred
  | _ => false

def kindName : Value → String
  | .text _ => Json.Kind.string.name
  | .number _ => Json.Kind.number.name
  | .structured json => json.kind.name
  | .supplied supplier => if supplier.shape.isDeferred then "async function" else "sync function"

def items? : Value → Option (List Json)
  | .structured (.array items) => some items
  | _ => none

end Value

inductive DataError where
  | json (error : Json.ReadError)
  | notAnObject (found : Json.Kind)
  deriving DecidableEq, Repr

def DataError.message : DataError → String
  | .json error => "JSON error: " ++ error.message
  | .notAnObject found => "Variables must be a JSON object, found " ++ found.name

/-- A mapping of keys to values, whose order is the order of substitution. -/
abbrev Variables := OrderedMap Value

namespace Variables

def ofMembers (members : List (Text × Json)) : Variables :=
  OrderedMap.ofList (members.map fun (name, json) => (name, Value.ofJson json))

def ofJson : Json → Except DataError Variables
  | .object members => .ok (ofMembers members)
  | json => .error (.notAnObject json.kind)

mutual

/-- The leaves of the data at `path`, with their paths. Objects with members are not leaves. -/
def leavesAt (path : Text) : Json → List (Text × Json)
  | .object (member :: members) => leavesOf (path ++ ['.']) (member :: members)
  | json => [(path, json)]

/-- The leaves of the members of an object, whose paths begin with `stem`. -/
def leavesOf (stem : Text) : List (Text × Json) → List (Text × Json)
  | [] => []
  | (name, json) :: members => leavesAt (stem ++ name) json ++ leavesOf stem members

end

/-- The variables of a JSON object in which objects are taken apart: a value in an object inside
the object is bound to its path, the names joined by points. Arrays and empty objects stay
whole. -/
def ofJsonFlattened : Json → Except DataError Variables
  | .object members => .ok (ofMembers (leavesOf [] members))
  | json => .error (.notAnObject json.kind)

def ofJsonText (s : Text) : Except DataError Variables :=
  match Json.read s with
  | .ok json => ofJson json
  | .error error => .error (.json error)

end Variables

end MarkerTemplate
