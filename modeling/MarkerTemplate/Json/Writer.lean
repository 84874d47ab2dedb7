import MarkerTemplate.Json.Basic

/-!
# Writing JSON

The compact and the indented text of a JSON value.

## Main definitions

- `Json.quote` is the quoted form of a string
- `Json.write` is the compact text of a value, without any spaces
- `Json.writeIndented` is the text with one item or member a line

## Design notes

Only what JSON forbids inside a string is escaped: the quote, the backslash and the characters
below the space. Everything else stands for itself.
-/

namespace MarkerTemplate

/-- Floating-point numbers in JSON keep a fraction or an exponent, so that they are told from
whole numbers. They are positional when the leading digit stands between the fifth place behind
the point and the sixteenth before it. -/
def jsonLayout : Layout :=
  ⟨.toEven, fun power => -5 ≤ power ∧ power ≤ 15, ['.', '0'], true⟩

def Number.jsonText : Number → Text
  | .int n => integerText n
  | .float x => jsonLayout.write x.value

namespace Json

/-- The form of a character inside a quoted string. -/
def escape (c : Char) : Text :=
  if c = '"' then ['\\', '"']
  else if c = '\\' then ['\\', '\\']
  else if c = '\x08' then ['\\', 'b']
  else if c = '\x0c' then ['\\', 'f']
  else if c = '\n' then ['\\', 'n']
  else if c = '\r' then ['\\', 'r']
  else if c = '\t' then ['\\', 't']
  else if c.toNat < 0x20 then
    ['\\', 'u', '0', '0', Nat.digitChar (c.toNat / 16), Nat.digitChar (c.toNat % 16)]
  else [c]

def quote (s : Text) : Text :=
  '"' :: s.flatMap escape ++ ['"']

mutual

def write : Json → Text
  | .null => ['n', 'u', 'l', 'l']
  | .bool true => ['t', 'r', 'u', 'e']
  | .bool false => ['f', 'a', 'l', 's', 'e']
  | .number n => n.jsonText
  | .string s => quote s
  | .array items => '[' :: [','].intercalate (writeItems items) ++ [']']
  | .object members => '{' :: [','].intercalate (writeMembers members) ++ ['}']

/-- The compact texts of the items of an array. -/
def writeItems : List Json → List Text
  | [] => []
  | item :: items => write item :: writeItems items

/-- The compact texts of the members of an object, each with its name. -/
def writeMembers : List (Text × Json) → List Text
  | [] => []
  | (name, value) :: members => (quote name ++ ':' :: write value) :: writeMembers members

end

/-- Parts between brackets, each on a line of its own that is indented by two spaces more than
the line of the closing bracket. Without parts the brackets stand side by side. -/
def bracketed (left right : Char) (depth : Nat) (parts : List Text) : Text :=
  if parts.isEmpty then [left, right]
  else
    let line (depth : Nat) : Text := '\n' :: List.replicate (2 * depth) ' '
    left :: line (depth + 1) ++ (',' :: line (depth + 1)).intercalate parts ++ line depth ++ [right]

mutual

/-- The indented text of a value that stands inside `depth` brackets. -/
def writeIndentedAt (depth : Nat) : Json → Text
  | .array items => bracketed '[' ']' depth (writeIndentedItems (depth + 1) items)
  | .object members => bracketed '{' '}' depth (writeIndentedMembers (depth + 1) members)
  | .null => write .null
  | .bool b => write (.bool b)
  | .number n => write (.number n)
  | .string s => write (.string s)

/-- The indented texts of the items of an array. -/
def writeIndentedItems (depth : Nat) : List Json → List Text
  | [] => []
  | item :: items => writeIndentedAt depth item :: writeIndentedItems depth items

/-- The indented texts of the members of an object, each with its name. -/
def writeIndentedMembers (depth : Nat) : List (Text × Json) → List Text
  | [] => []
  | (name, value) :: members =>
    (quote name ++ ':' :: ' ' :: writeIndentedAt depth value) :: writeIndentedMembers depth members

end

def writeIndented (json : Json) : Text :=
  writeIndentedAt 0 json

/-! ### Lemmas -/

theorem writeItems_eq_map (items : List Json) : writeItems items = items.map write := by
  induction items with
  | nil => rfl
  | cons item items ih => simp [writeItems, ih]

theorem writeMembers_eq_map (members : List (Text × Json)) :
    writeMembers members = members.map fun m => quote m.1 ++ ':' :: write m.2 := by
  induction members with
  | nil => rfl
  | cons member members ih => simp [writeMembers, ih]

end Json

end MarkerTemplate
