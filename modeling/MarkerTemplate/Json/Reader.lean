import MarkerTemplate.Json.Number
import MarkerTemplate.OrderedMap

/-!
# Reading JSON

From a text to the value it stands for.

## Main definitions

- `Json.Reading` is the outcome of a step of reading, which leaves less text than it was given
- `Json.readString` reads a string behind its opening quote
- `Json.readValue` reads a value with at most a given number of brackets inside one another
- `Json.read` reads a whole text

## Design notes

Every step says in its type that the text left is shorter, and the loops over characters, items
and members end for that reason. Brackets inside one another are counted down: a value may stand
in at most 127 of them.

A name that comes twice in an object keeps its first place and takes its last value.
-/

namespace MarkerTemplate

namespace Json

/-- What has been read and the text left, which is shorter than `s`; or why `s` cannot be read. -/
abbrev Reading (α : Type) (s : Text) :=
  Except Failure { r : α × Text // r.2.length < s.length }

/-- A step on a text no longer than `s`, seen as a step on `s`. -/
def Reading.widen {α : Type} {t s : Text} (h : t.length ≤ s.length) : Reading α t → Reading α s
  | .error failure => .error failure
  | .ok ⟨r, hr⟩ => .ok ⟨r, Nat.lt_of_lt_of_le hr h⟩

def Reading.map {α β : Type} {s : Text} (f : α → β) : Reading α s → Reading β s
  | .error failure => .error failure
  | .ok ⟨r, hr⟩ => .ok ⟨(f r.1, r.2), hr⟩

/-- Whether a character may stand between the parts of a value. -/
def isBlank (c : Char) : Bool :=
  c = ' ' ∨ c = '\n' ∨ c = '\t' ∨ c = '\r'

def skipBlanks (s : Text) : Text :=
  s.dropWhile isBlank

theorem length_skipBlanks_le (s : Text) : (skipBlanks s).length ≤ s.length :=
  (List.dropWhile_sublist _).length_le

theorem length_lt_of_skipBlanks_eq_cons {s rest : Text} {c : Char}
    (h : skipBlanks s = c :: rest) : rest.length < s.length := by
  have hle := length_skipBlanks_le s
  rw [h] at hle
  exact hle

/-! ### Strings -/

def hexValue? (c : Char) : Option Nat :=
  if '0' ≤ c ∧ c ≤ '9' then some (c.toNat - '0'.toNat)
  else if 'a' ≤ c ∧ c ≤ 'f' then some (c.toNat - 'a'.toNat + 10)
  else if 'A' ≤ c ∧ c ≤ 'F' then some (c.toNat - 'A'.toNat + 10)
  else none

/-- The value of four hexadecimal digits. Four bytes are taken before they are looked at. -/
def readHex (s : Text) : Reading Nat s :=
  if Text.utf8Length s < 4 then .error ⟨.endInString, 0⟩
  else
    match s with
    | a :: b :: c :: d :: rest =>
      match hexValue? a, hexValue? b, hexValue? c, hexValue? d with
      | some a, some b, some c, some d =>
        .ok ⟨(((a * 16 + b) * 16 + c) * 16 + d, rest), by simp only [List.length_cons]; omega⟩
      | _, _, _, _ => .error ⟨.invalidEscape, Text.utf8Length (a :: b :: c :: d :: rest) - 4⟩
    | s => .error ⟨.invalidEscape, Text.utf8Length s - 4⟩

/-- Whether a number is the first half of a surrogate pair. -/
def isLeadingSurrogate (n : Nat) : Bool :=
  0xD800 ≤ n ∧ n < 0xDC00

/-- Whether a number is the second half of a surrogate pair. -/
def isTrailingSurrogate (n : Nat) : Bool :=
  0xDC00 ≤ n ∧ n < 0xE000

/-- The character of four hexadecimal digits, or of a surrogate pair written as two escapes. -/
def readCodePoint (s : Text) : Reading Char s :=
  match readHex s with
  | .error failure => .error failure
  | .ok ⟨(first, rest), h⟩ =>
    if isTrailingSurrogate first then .error (.before .loneSurrogate rest)
    else if isLeadingSurrogate first then
      match rest with
      | [] => .error ⟨.endInString, 0⟩
      | '\\' :: [] => .error ⟨.endInString, 0⟩
      | '\\' :: 'u' :: more =>
        match readHex more with
        | .error failure => .error failure
        | .ok ⟨(second, rest'), h'⟩ =>
          if isTrailingSurrogate second then
            .ok ⟨(Char.ofNat ((first - 0xD800) * 0x400 + (second - 0xDC00) + 0x10000), rest'),
              by simp only [List.length_cons] at h h' ⊢; omega⟩
          else .error (.before .loneSurrogate rest')
      | '\\' :: more => .error (.behindFirst .unpairedSurrogate more)
      | more => .error (.behindFirst .unpairedSurrogate more)
    else .ok ⟨(Char.ofNat first, rest), h⟩

/-- The character that a letter behind a backslash stands for. -/
def escapedChar? (c : Char) : Option Char :=
  if c = '"' ∨ c = '\\' ∨ c = '/' then some c
  else if c = 'b' then some '\x08'
  else if c = 'f' then some '\x0c'
  else if c = 'n' then some '\n'
  else if c = 'r' then some '\r'
  else if c = 't' then some '\t'
  else none

/-- The character of an escape behind its backslash. -/
def readEscape : (s : Text) → Reading Char s
  | [] => .error ⟨.endInString, 0⟩
  | c :: s =>
    match escapedChar? c with
    | some d => .ok ⟨(d, s), Nat.lt_succ_self _⟩
    | none =>
      if c = 'u' then (readCodePoint s).widen (Nat.le_succ _)
      else .error (.behindFirst .invalidEscape (c :: s))

/-- A string behind its opening quote, up to the closing one. -/
def readString (s : Text) : Reading Text s :=
  match s with
  | [] => .error ⟨.endInString, 0⟩
  | c :: s =>
    if c = '"' then .ok ⟨([], s), Nat.lt_succ_self _⟩
    else if c = '\\' then
      match readEscape s with
      | .error failure => .error failure
      | .ok ⟨(d, rest), h⟩ =>
        ((readString rest).map (d :: ·)).widen (by simp only [List.length_cons] at h ⊢; omega)
    else if c.toNat < 0x20 then .error (.behindFirst .controlCharacter (c :: s))
    else ((readString s).map (c :: ·)).widen (Nat.le_succ _)
termination_by s.length
decreasing_by all_goals simp only [List.length_cons] at *; omega

/-! ### Words and numbers -/

/-- The text behind the letters of `word`, which must stand at its beginning. -/
def readWord : (word s : Text) → Except Failure { rest : Text // rest.length ≤ s.length }
  | [], s => .ok ⟨s, Nat.le_refl _⟩
  | _ :: _, [] => .error .atEnd
  | expected :: word, c :: s =>
    if c = expected then
      match readWord word s with
      | .error failure => .error failure
      | .ok ⟨rest, h⟩ => .ok ⟨rest, Nat.le_succ_of_le h⟩
    else .error (.behindFirst .expectedWord (c :: s))

def readUnsigned (isNegative : Bool) (s : Text) : Reading Json s :=
  match h : readNumber isNegative s with
  | .error failure => .error failure
  | .ok (n, rest) => .ok ⟨(.number n, rest), length_lt_of_readNumber_eq_ok h⟩

/-! ### Values -/

/-- The way to read the values inside brackets. -/
abbrev ValueReader := (s : Text) → Reading Json s

/-- The items of an array behind one of its items, up to the closing bracket. -/
def readItems (value : ValueReader) (s : Text) : Reading (List Json) s :=
  match h : skipBlanks s with
  | [] => .error ⟨.endInList, 0⟩
  | c :: rest =>
    have hc := length_lt_of_skipBlanks_eq_cons h
    if c = ']' then .ok ⟨([], rest), hc⟩
    else if c = ',' then
      match skipBlanks rest with
      | ']' :: more => .error (.behindFirst .trailingComma (']' :: more))
      | _ =>
        match value rest with
        | .error failure => .error failure
        | .ok ⟨(item, rest'), h'⟩ =>
          ((readItems value rest').map (item :: ·)).widen (by simp only at h'; omega)
    else .error (.behindFirst .expectedListCommaOrEnd (c :: rest))
termination_by s.length
decreasing_by simp only at h'; omega

def readArray (value : ValueReader) (s : Text) : Reading (List Json) s :=
  match h : skipBlanks s with
  | [] => .error ⟨.endInList, 0⟩
  | ']' :: rest => .ok ⟨([], rest), length_lt_of_skipBlanks_eq_cons h⟩
  | _ =>
    match value s with
    | .error failure => .error failure
    | .ok ⟨(item, rest), h'⟩ =>
      ((readItems value rest).map (item :: ·)).widen (Nat.le_of_lt h')

/-- The name of a member, its colon and its value. The text begins with the quote of the name. -/
def readMember (value : ValueReader) (s : Text) : Reading (Text × Json) s :=
  match s with
  | '"' :: s =>
    match readString s with
    | .error failure => .error failure
    | .ok ⟨(name, rest), h⟩ =>
      match h' : skipBlanks rest with
      | [] => .error ⟨.endInObject, 0⟩
      | ':' :: rest' =>
        have hrest := length_lt_of_skipBlanks_eq_cons h'
        ((value rest').map fun v => (name, v)).widen
          (by simp only [List.length_cons] at h ⊢; omega)
      | more => .error (.behindFirst .expectedColon more)
  | s => .error (.behindFirst .nameNotString s)

/-- The members of an object behind one of its members, up to the closing brace. -/
def readMembers (value : ValueReader) (s : Text) : Reading (List (Text × Json)) s :=
  match h : skipBlanks s with
  | [] => .error ⟨.endInObject, 0⟩
  | c :: rest =>
    have hc := length_lt_of_skipBlanks_eq_cons h
    if c = '}' then .ok ⟨([], rest), hc⟩
    else if c = ',' then
      match h' : skipBlanks rest with
      | [] => .error .atEnd
      | '}' :: more => .error (.behindFirst .trailingComma ('}' :: more))
      | more =>
        have hmore : more.length ≤ rest.length := h' ▸ length_skipBlanks_le rest
        match readMember value more with
        | .error failure => .error failure
        | .ok ⟨(member, rest'), h''⟩ =>
          ((readMembers value rest').map (member :: ·)).widen (by simp only at h''; omega)
    else .error (.behindFirst .expectedObjectCommaOrEnd (c :: rest))
termination_by s.length
decreasing_by simp only at h''; omega

def readObject (value : ValueReader) (s : Text) : Reading (List (Text × Json)) s :=
  match h : skipBlanks s with
  | [] => .error ⟨.endInObject, 0⟩
  | '}' :: rest => .ok ⟨([], rest), length_lt_of_skipBlanks_eq_cons h⟩
  | more =>
    have hmore : more.length ≤ s.length := h ▸ length_skipBlanks_le s
    match readMember value more with
    | .error failure => .error failure
    | .ok ⟨(member, rest), h'⟩ =>
      ((readMembers value rest).map (member :: ·)).widen (by simp only at h'; omega)

/-- The object with the given members, in which the last value of a name counts. -/
def ofMembers (members : List (Text × Json)) : Json :=
  .object (OrderedMap.ofList members).entries

/-- A value, where `inner` reads what stands inside its brackets. Without `inner` it may not have
any. -/
def readValueWith (inner : Option ValueReader) (s : Text) : Reading Json s :=
  match h : skipBlanks s with
  | [] => .error .atEnd
  | c :: rest =>
    have hc := length_lt_of_skipBlanks_eq_cons h
    have hall : (c :: rest).length ≤ s.length := hc
    let word (letters : Text) (json : Json) : Reading Json s :=
      match readWord letters rest with
      | .error failure => .error failure
      | .ok ⟨rest', h'⟩ => .ok ⟨(json, rest'), Nat.lt_of_le_of_lt h' hc⟩
    if c = 'n' then word ['u', 'l', 'l'] .null
    else if c = 't' then word ['r', 'u', 'e'] (.bool true)
    else if c = 'f' then word ['a', 'l', 's', 'e'] (.bool false)
    else if c = '-' then (readUnsigned true rest).widen (Nat.le_of_lt hc)
    else if c.isDigit then (readUnsigned false (c :: rest)).widen hall
    else if c = '"' then ((readString rest).map .string).widen (Nat.le_of_lt hc)
    else if c = '[' ∨ c = '{' then
      match inner with
      | none => .error (.behindFirst .tooDeep (c :: rest))
      | some value =>
        if c = '[' then ((readArray value rest).map .array).widen (Nat.le_of_lt hc)
        else ((readObject value rest).map ofMembers).widen (Nat.le_of_lt hc)
    else .error (.behindFirst .expectedValue (c :: rest))

/-- A value with at most `depth` brackets inside one another. -/
def readValue : (depth : Nat) → ValueReader
  | 0 => readValueWith none
  | depth + 1 => readValueWith (some (readValue depth))

/-- How many brackets may stand inside one another. -/
def maxDepth : Nat :=
  127

def readAll (s : Text) : Except Failure Json :=
  match readValue maxDepth s with
  | .error failure => .error failure
  | .ok ⟨(json, rest), _⟩ =>
    match skipBlanks rest with
    | [] => .ok json
    | more => .error (.behindFirst .trailingCharacters more)

/-- The value of a whole text, or why and where it is not JSON. -/
def read (s : Text) : Except ReadError Json :=
  (readAll s).mapError (·.locate s)

end Json

end MarkerTemplate
