import MarkerTemplate.Json.Basic

/-!
# Failures of reading JSON

Why a text is not JSON, and where reading it stopped.

## Main definitions

- `Json.Fault` lists the causes
- `Json.Failure` is a cause with the place where reading stopped, counted from the end
- `Json.ReadError` is a cause with the line and column of that place

## Design notes

A reader sees only the text that is left, so a failure counts the bytes it has not looked at. The
place in the whole text follows from its length. Lines count from one; a column is the number of
bytes read in its line, so that an error at a character is one column behind the error before it.
-/

namespace MarkerTemplate

namespace Json

inductive Fault where
  | endInList
  | endInObject
  | endInString
  | endInValue
  | expectedColon
  | expectedListCommaOrEnd
  | expectedObjectCommaOrEnd
  | expectedWord
  | expectedValue
  | invalidEscape
  | invalidNumber
  | numberOutOfRange
  | controlCharacter
  | nameNotString
  | loneSurrogate
  | unpairedSurrogate
  | trailingComma
  | trailingCharacters
  | tooDeep
  deriving DecidableEq, Repr

def Fault.message : Fault → String
  | .endInList => "EOF while parsing a list"
  | .endInObject => "EOF while parsing an object"
  | .endInString => "EOF while parsing a string"
  | .endInValue => "EOF while parsing a value"
  | .expectedColon => "expected `:`"
  | .expectedListCommaOrEnd => "expected `,` or `]`"
  | .expectedObjectCommaOrEnd => "expected `,` or `\x7d`"
  | .expectedWord => "expected ident"
  | .expectedValue => "expected value"
  | .invalidEscape => "invalid escape"
  | .invalidNumber => "invalid number"
  | .numberOutOfRange => "number out of range"
  | .controlCharacter => "control character (\\u0000-\\u001F) found while parsing a string"
  | .nameNotString => "key must be a string"
  | .loneSurrogate => "lone leading surrogate in hex escape"
  | .unpairedSurrogate => "unexpected end of hex escape"
  | .trailingComma => "trailing comma"
  | .trailingCharacters => "trailing characters"
  | .tooDeep => "recursion limit exceeded"

/-- A fault, and the number of bytes that were not read when it was found. -/
structure Failure where
  fault : Fault
  -- The length of the text not read, in bytes.
  unread : Nat
  deriving DecidableEq, Repr

namespace Failure

def before (fault : Fault) (s : Text) : Failure :=
  ⟨fault, Text.utf8Length s⟩

/-- The failure behind the first byte of the text `s`, or at its end if it is empty. -/
def behindFirst (fault : Fault) (s : Text) : Failure :=
  ⟨fault, Text.utf8Length s - 1⟩

/-- The failure of a text that ends where a value should stand. -/
def atEnd : Failure :=
  ⟨.endInValue, 0⟩

end Failure

/-- Line and column of the place `offset` bytes behind the place at the given line and column. A
place inside a character counts the bytes of it that lie before the place. -/
def position (line column : Nat) : Text → Nat → Nat × Nat
  | [], offset => (line, column + offset)
  | c :: s, offset =>
    if offset < c.utf8Size then (line, column + offset)
    else if c = '\n' then position (line + 1) 0 s (offset - c.utf8Size)
    else position line (column + c.utf8Size) s (offset - c.utf8Size)

structure ReadError where
  fault : Fault
  -- The line, counted from one.
  line : Nat
  -- The number of bytes read in that line.
  column : Nat
  deriving DecidableEq, Repr

def ReadError.message (e : ReadError) : String :=
  s!"{e.fault.message} at line {e.line} column {e.column}"

/-- The error that a failure means in the text `s`. -/
def Failure.locate (s : Text) (failure : Failure) : ReadError :=
  let (line, column) := position 1 0 s (Text.utf8Length s - failure.unread)
  ⟨failure.fault, line, column⟩

end Json

end MarkerTemplate
