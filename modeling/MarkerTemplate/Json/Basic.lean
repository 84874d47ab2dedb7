import MarkerTemplate.Decimal.Layout

/-!
# JSON values

The data that templates are filled with.

## Main definitions

- `Number` is an integer or a finite floating-point number
- `Json` is a JSON value whose objects keep the order of their members
- `Json.Kind` names the six kinds of value
- `Number.plainText` is the decimal text of a number

## Design notes

The members of an object are a list, in the order in which their names first came. Reading a text
gives lists with distinct names; nothing else in the library depends on that.
-/

namespace MarkerTemplate

/-- A floating-point number that is neither infinite nor undefined. -/
structure FiniteFloat where
  value : Float
  isFinite : value.isFinite = true
  deriving DecidableEq

/-- A number: JSON keeps whole numbers apart from those with a fraction or an exponent. -/
inductive Number where
  | int (n : Int)
  | float (x : FiniteFloat)
  deriving DecidableEq

/-- Numbers in running text never have an exponent, whole ones have no fraction, and zero has no
sign. -/
def plainLayout : Layout :=
  ⟨.up, fun _ => true, [], false⟩

/-- The decimal text of a number, as it is put into running text. -/
def Number.plainText : Number → Text
  | .int n => integerText n
  | .float x => plainLayout.write x.value

inductive Json where
  | null
  | bool (b : Bool)
  | number (n : Number)
  | string (s : Text)
  | array (items : List Json)
  | object (members : List (Text × Json))

namespace Json

inductive Kind where
  | null
  | boolean
  | number
  | string
  | array
  | object
  deriving DecidableEq, Repr

def Kind.name : Kind → String
  | .null => "null"
  | .boolean => "boolean"
  | .number => "number"
  | .string => "string"
  | .array => "array"
  | .object => "object"

def kind : Json → Kind
  | .null => .null
  | .bool _ => .boolean
  | .number _ => .number
  | .string _ => .string
  | .array _ => .array
  | .object _ => .object

end Json

end MarkerTemplate
