import MarkerTemplate.Collection
import MarkerTemplate.Conditional
import MarkerTemplate.Substitution

/-!
# Merging

Merging fills a template with variables: blocks over arrays are rendered, the branches of blocks
are chosen, and markers are replaced.

## Main definitions

- `renderElements` renders a template with one mapping after another
- `bindArrayBlocks` renders the array blocks of a template and binds their texts
- `mergeStep` is a merge in which the items of arrays are merged by another function
- `merge` is that step, three levels deep
- `renderCollection` and `renderEach` render a template for the elements of a collection

## Design notes

Merging an array block merges the text of its item for each element, with an empty spacer, so
merging calls for itself. `mergeWithin` bounds how deep it does so. Three levels are enough for
every template, however many openers its parts, its spacer and its values hold: an item is the
text between two openers followed by the spacer, so that only a spacer can bring openers into it,
and from the second level on there is no spacer.
-/

namespace MarkerTemplate

/-- A way to merge a template without a spacer. -/
abbrev Merger := Text → Variables → Effect Text

/-- The template rendered with each mapping in turn, with the spacer between the results. Every
element takes a turn when it is done. -/
def renderElements (merger : Merger) (template spacer : Text) : List Variables → Effect Text
  | [] => return []
  | scope :: scopes => do
    let fragment ← merger template scope
    Effect.pause
    let fragments ← renderElements merger template spacer scopes
    return fragment ++ (if scopes.isEmpty then [] else spacer) ++ fragments

def renderCollectionWith (merger : Merger) (template : Text) (collection : Collection)
    (globals : Variables) (spacer : Text) : Effect Text :=
  renderElements merger template spacer (collection.scopes globals)

/-- The variables with every key that stands for the items of an array bound to their text. The
item is what the block gives for the case that its key is not bound; if there is no array, the
key is bound to the content of the block. -/
def bindArrayBlocks (merger : Merger) (spacer : Text) :
    List (Text × Block) → Variables → Effect Variables
  | [], vars => return vars
  | (key, block) :: blocks, vars =>
    match Text.stripSuffix? Markup.arrayEnding key with
    | none => bindArrayBlocks merger spacer blocks vars
    | some name =>
      match (vars.get? name).bind Value.items? with
      | some items => do
        let rendered ← renderCollectionWith merger block.elseText (.ofItems items) vars spacer
        bindArrayBlocks merger spacer blocks (vars.insert key (.text rendered))
      | none => bindArrayBlocks merger spacer blocks (vars.insert key (.text block.content))

/-- The template filled with the variables, where `merger` merges the items of arrays. The spacer
stands around chosen branches and between the items of an array. -/
def mergeStep (merger : Merger) (raw : Text) (vars : Variables) (spacer : Text) : Effect Text := do
  let raw := expandShorthand raw
  let blocks := extractBlocks raw vars spacer
  if blocks.isEmpty then substitute raw vars
  else do
    let vars ← bindArrayBlocks merger spacer blocks.entries vars
    substitute (filterBlocks raw vars spacer) vars

/-- A merge with at most `depth` merges inside one another. One that would need more never ends. -/
def mergeWithin : (depth : Nat) → (raw : Text) → Variables → (spacer : Text) → Effect Text
  | 0, _, _, _ => Effect.forever
  | depth + 1, raw, vars, spacer =>
    mergeStep (fun item scope => mergeWithin depth item scope []) raw vars spacer

def merge (raw : Text) (vars : Variables) (spacer : Text) : Effect Text :=
  mergeWithin 3 raw vars spacer

/-- The template rendered for each element of a collection. -/
def renderCollection (template : Text) (collection : Collection) (globals : Variables)
    (spacer : Text) : Effect Text :=
  renderCollectionWith (merge · · []) template collection globals spacer

/-- The template rendered for each element, with nothing in common. -/
def renderEach (template : Text) (collection : Collection) (spacer : Text) : Effect Text :=
  renderCollection template collection .empty spacer

end MarkerTemplate
