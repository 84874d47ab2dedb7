import MarkerTemplate.Value

/-!
# Conditional blocks

A block begins with an opener and its key, and ends with the closer. It may hold an alternative
behind an else mark:

```text
{?:key} content {:?}
{?:key} content {:else:} alternative {:?}
{?:[key]} item {:?}
```

## Main definitions

- `Chunk` is the text from one opener to the next, taken apart
- `expandShorthand` writes the last form above in full
- `extractBlocks` lists the blocks of a template
- `filterBlocks` chooses the branch of every block

## Design notes

Blocks do not nest, and no text is malformed: an opener always begins a block. The key ends at the
first brace and the block at the first closer; where one is missing, the chunk ends there. Thus a
block never reaches beyond the next opener.
-/

namespace MarkerTemplate

namespace Markup

def opener : Text := ['{', '?', ':']

def closer : Text := ['{', ':', '?', '}']

/-- The mark between the content of a block and its alternative. -/
def elseMark : Text := ['{', ':', 'e', 'l', 's', 'e', ':', '}']

/-- The mark that begins a block over the items of an array. -/
def shorthandOpener : Text := ['{', '?', ':', '[']

def shorthandCloser : Text := [']', '}']

/-- The ending of a key that stands for the rendered items of an array. -/
def arrayEnding : Text := ['[', ']']

end Markup

/-- The text behind an opener, up to the next opener. -/
structure Chunk where
  key : Text
  content : Text
  -- The text for the other case, if the block gives one.
  alternative : Option Text
  rest : Text
  deriving DecidableEq, Repr

structure Block where
  key : Text
  content : Text
  -- The text for the other case with the spacer behind it; empty if the block gives none.
  elseText : Text
  isBound : Bool
  deriving DecidableEq, Repr

namespace Chunk

/-- The content of a block and its alternative. An else mark counts only if it is the only one. -/
def branches (content : Text) : Text × Option Text :=
  match Text.splitOnce? Markup.elseMark content with
  | some (before, behind) =>
    if Text.occursIn Markup.elseMark behind then (content, none) else (before, some behind)
  | none => (content, none)

def ofText (s : Text) : Chunk :=
  let (body, rest) := Text.splitOnce Markup.closer s
  let (key, content) := Text.splitOnce ['}'] body
  let (content, alternative) := branches content
  ⟨key, content, alternative, rest⟩

/-- The text of the block for the case that its key is not bound. -/
def elseText (chunk : Chunk) (spacer : Text) : Text :=
  match chunk.alternative with
  | some alternative => alternative ++ spacer
  | none => []

/-- The block of the chunk, seen with the given variables. -/
def block (chunk : Chunk) (vars : Variables) (spacer : Text) : Block :=
  ⟨chunk.key, chunk.content, chunk.elseText spacer, vars.contains chunk.key⟩

/-- The chosen branch of the block and the text behind the block. -/
def select (chunk : Chunk) (vars : Variables) (spacer : Text) : Text :=
  let branch := if vars.contains chunk.key then chunk.content ++ spacer else chunk.elseText spacer
  spacer ++ branch ++ chunk.rest

end Chunk

/-- The text before the first block of a template, and the chunks of the blocks. -/
def chunks (raw : Text) : Text × List Chunk :=
  let pieces := Text.splitAll Markup.opener raw
  (pieces.first, pieces.later.map Chunk.ofText)

/-- The blocks of a template by key. Of two blocks with one key the later counts, at the place of
the earlier. -/
def extractBlocks (raw : Text) (vars : Variables) (spacer : Text) : OrderedMap Block :=
  OrderedMap.ofList ((chunks raw).2.map fun chunk => (chunk.key, chunk.block vars spacer))

/-- The template with the chosen branch in the place of every block. -/
def filterBlocks (raw : Text) (vars : Variables) (spacer : Text) : Text :=
  (chunks raw).1 ++ (chunks raw).2.flatMap (·.select vars spacer)

/-- The beginning of a block over the items of the array `name`: its content is the rendered
items, and its alternative, which the template goes on with, is the text of an item. -/
def arrayBlockStart (name : Text) : Text :=
  Markup.opener ++ name ++ Markup.arrayEnding ++ ['}'] ++
    '{' :: name ++ Markup.arrayEnding ++ ['}'] ++ Markup.elseMark

/-- The template with every shorthand for a block over an array written in full. A shorthand that
is not closed takes the text up to the next one for the name. -/
def expandShorthand (raw : Text) : Text :=
  let pieces := Text.splitAll Markup.shorthandOpener raw
  pieces.first ++ pieces.later.flatMap fun piece =>
    let (name, rest) := Text.splitOnce Markup.shorthandCloser piece
    arrayBlockStart name ++ rest

end MarkerTemplate
