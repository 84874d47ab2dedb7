import MarkerTemplate.Value

/-!
# Assignments

A variable given as `KEY=VALUE`.

## Main definitions

- `Assignment.read` is the key and the value of an assignment
- `AssignmentError` says why a text is not an assignment

## Design notes

The key ends at the first equals sign. The value is read as JSON if it is JSON, and is a text
otherwise, so every text behind the sign is a value.
-/

namespace MarkerTemplate

inductive AssignmentError where
  | missingSign (s : Text)
  | emptyKey (s : Text)
  deriving DecidableEq, Repr

def AssignmentError.message : AssignmentError → String
  | .missingSign s => "Expected KEY=VALUE, got: " ++ String.ofList s
  | .emptyKey s => "Empty key in assignment: " ++ String.ofList s

/-- The value that the text behind the sign stands for. -/
def Assignment.value (s : Text) : Value :=
  match Json.read s with
  | .ok json => .ofJson json
  | .error _ => .text s

def Assignment.read (s : Text) : Except AssignmentError (Text × Value) :=
  match Text.splitOnce? ['='] s with
  | none => .error (.missingSign s)
  | some (key, value) =>
    if key = [] then .error (.emptyKey s) else .ok (key, Assignment.value value)

end MarkerTemplate
