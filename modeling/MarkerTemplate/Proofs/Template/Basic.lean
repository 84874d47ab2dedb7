import MarkerTemplate.Merge
import MarkerTemplate.Proofs.Conditional.Printed
import MarkerTemplate.Proofs.Json.Braces
import MarkerTemplate.Proofs.Substitution.Settled

/-!
# Well-formed templates

Templates as they are meant to be written, as a syntax with a printed form and a meaning.

## Main definitions

- `Name` is a key that a template may use, and `Literal` a text without braces
- `Inline` is a literal or a marker, and `Piece` is an inline part or a block
- `Template` is a sequence of pieces, no two of which are blocks over the same array
- `Template.text` writes a template out
- `Template.eval` is the meaning of a template: its pieces one by one
- `Variables.Orderly` says what a mapping must be for templates to have this meaning

## Design notes

The meaning never looks at a text that is put together from others. That merging a template that is
written out comes to its meaning says that no text put in for one piece is read again as a part of
the language.
-/

namespace MarkerTemplate

open Text (BraceFree)

/-- The text is not empty and has none of the characters of which marks are made. -/
def IsName (s : Text) : Prop :=
  s ≠ [] ∧ BraceFree s ∧ '[' ∉ s ∧ ']' ∉ s ∧ '?' ∉ s ∧ ':' ∉ s

instance (s : Text) : Decidable (IsName s) :=
  inferInstanceAs (Decidable (s ≠ [] ∧ BraceFree s ∧ '[' ∉ s ∧ ']' ∉ s ∧ '?' ∉ s ∧ ':' ∉ s))

namespace IsName

variable {key : Text} (h : IsName key)

include h

theorem braceFree : BraceFree key :=
  h.2.1

theorem braceFree_body (sweep : Sweep) : BraceFree (sweep.body key) :=
  sweep.braceFree_body h.braceFree

theorem braceFree_array : BraceFree (key ++ Markup.arrayEnding) :=
  Text.braceFree_append.2 ⟨h.braceFree, by decide⟩

theorem notMem_body {c : Char} (hc : c = '?' ∨ c = ':') (sweep : Sweep) :
    c ∉ sweep.body key := by
  obtain ⟨-, -, -, -, hquestion, hcolon⟩ := h
  cases sweep <;> rcases hc with rfl | rfl <;> simp [Sweep.body, hquestion, hcolon]

theorem notMem_array {c : Char} (hc : c = '?' ∨ c = ':') : c ∉ key ++ Markup.arrayEnding := by
  obtain ⟨-, -, -, -, hquestion, hcolon⟩ := h
  rcases hc with rfl | rfl <;> simp [Markup.arrayEnding, hquestion, hcolon]

theorem head_ne (t : Text) : (key ++ t).head? ≠ some '[' := by
  obtain ⟨hne, -, hbracket, -⟩ := h
  obtain ⟨c, key', rfl⟩ := List.exists_cons_of_ne_nil hne
  intro hhead
  cases Option.some.inj hhead
  exact hbracket List.mem_cons_self

end IsName

/-- A key that a template may use. -/
structure Name where
  text : Text
  isName : IsName text
  deriving DecidableEq

/-- A text that stands for itself. -/
structure Literal where
  text : Text
  braceFree : BraceFree text
  deriving DecidableEq

/-- A part of a template outside of blocks, or of a branch of a block. -/
inductive Inline where
  | literal (run : Literal)
  | marker (sweep : Sweep) (name : Name)
  deriving DecidableEq

/-- A piece of a template. -/
inductive Piece where
  | inline (part : Inline)
  | block (name : Name) (content : List Inline) (alternative : Option (List Inline))
  | array (name : Name) (item : List Inline)
  deriving DecidableEq

/-- The array and the item, in a block over an array. -/
def Piece.array? : Piece → Option (Name × List Inline)
  | .array name item => some (name, item)
  | .inline _ | .block _ _ _ => none

/-- Pieces in order. Each array has at most one block. -/
structure Template where
  pieces : List Piece
  nodup_arrays : ((pieces.filterMap Piece.array?).map Prod.fst).Nodup

/-! ### Templates written out -/

/-- The part as it is written. -/
def Inline.text : Inline → Text
  | .literal run => run.text
  | .marker sweep name => sweep.marker name.text

/-- The parts as they are written, one behind the other. -/
def textOf (parts : List Inline) : Text :=
  parts.flatMap Inline.text

/-- The piece as it is written. -/
def Piece.text : Piece → Text
  | .inline part => part.text
  | .block name content none =>
    Markup.opener ++ name.text ++ ['}'] ++ textOf content ++ Markup.closer
  | .block name content (some alternative) =>
    Markup.opener ++ name.text ++ ['}'] ++ textOf content ++ Markup.elseMark ++
      textOf alternative ++ Markup.closer
  | .array name item =>
    Markup.shorthandOpener ++ name.text ++ Markup.shorthandCloser ++ textOf item ++ Markup.closer

/-- The template as it is written. -/
def Template.text (template : Template) : Text :=
  template.pieces.flatMap Piece.text

/-! ### The meaning of templates -/

/-- The part where names have the given values. A marker stays as it is if the name has no value
or the value has no form in it. -/
def Inline.eval (lookup : Text → Option Value) : Inline → Text
  | .literal run => run.text
  | .marker sweep name =>
    ((lookup name.text).bind (·.form? sweep name.text)).getD (sweep.marker name.text)

/-- The parts where names have the given values, one behind the other. -/
def evalParts (lookup : Text → Option Value) (parts : List Inline) : Text :=
  parts.flatMap (Inline.eval lookup)

/-- The values of names for an element of an array: the fields of the element, then the variables
common to all elements, then what the element is told of its place. -/
def elementLookup (vars : Variables) (index : Nat) (element : Json) (key : Text) : Option Value :=
  ((elementFields element).get? key).or
    ((vars.get? key).or ((metaVariables index (digitsOf index)).get? key))

/-- The marker that stands for the items of an array. -/
def arrayMarker (name : Text) : Text :=
  Text.braced (name ++ Markup.arrayEnding)

/-- What a block over an array shows: the item for each element, with the spacer behind it and
between the elements. If there is no such array, it shows the marker for its items. -/
def arrayText (vars : Variables) (spacer : Text) (name : Name) (item : List Inline) : Text :=
  match (vars.get? name.text).bind Value.items? with
  | some elements =>
    spacer.intercalate (elements.mapIdx fun index element =>
      evalParts (elementLookup vars index element) item ++ spacer)
  | none => arrayMarker name.text

/-- The piece filled with the variables. -/
def Piece.eval (vars : Variables) (spacer : Text) : Piece → Text
  | .inline part => part.eval vars.get?
  | .block name content alternative =>
    if vars.contains name.text then spacer ++ evalParts vars.get? content ++ spacer
    else
      match alternative with
      | some alternative => spacer ++ evalParts vars.get? alternative ++ spacer
      | none => spacer
  | .array name item => spacer ++ arrayText vars spacer name item ++ spacer

theorem Piece.eval_block (vars : Variables) (spacer : Text) (name : Name) (content : List Inline)
    (alternative : Option (List Inline)) :
    (block name content alternative).eval vars spacer =
      if vars.contains name.text then spacer ++ evalParts vars.get? content ++ spacer
      else
        match alternative with
        | some alternative => spacer ++ evalParts vars.get? alternative ++ spacer
        | none => spacer := by
  cases alternative <;> rfl

/-- The template filled with the variables, piece by piece. -/
def Template.eval (template : Template) (vars : Variables) (spacer : Text) : Text :=
  template.pieces.flatMap (Piece.eval vars spacer)

/-! ### Mappings -/

/-- The value brings no brace but those of objects in JSON, and if it is a supplier, it hands over
its text, which depends on the key alone. -/
def Value.Orderly (key : Text) : Value → Prop
  | .text s => BraceFree s
  | .number _ => True
  | .structured json => json.BraceFree
  | .supplied supplier =>
    supplier.shape ≠ .never ∧ supplier.KeyOnlyAt key ∧ BraceFree (supplier.reply key 1)

/-- The keys are names, as are the fields of array elements, and the values are orderly. -/
structure Variables.Orderly (vars : Variables) : Prop where
  isName : ∀ entry ∈ vars.entries, IsName entry.1
  orderly : ∀ entry ∈ vars.entries, entry.2.Orderly entry.1
  isName_field : ∀ entry ∈ vars.entries, ∀ elements, entry.2.items? = some elements →
    ∀ element ∈ elements, ∀ field ∈ (elementFields element).entries, IsName field.1

end MarkerTemplate
