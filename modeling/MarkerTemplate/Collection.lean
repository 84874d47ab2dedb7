import MarkerTemplate.Value

/-!
# Collections

Templates are rendered once for each element of a collection.

## Main definitions

- `Collection` is a sequence of mappings or an ordered map of them
- `Collection.ofJson?` reads a collection off an array or an object
- `metaVariables` tells an element its index, its key and its parity
- `Collection.scopes` lists, for every element, the mapping it is rendered with

## Design notes

The mapping of an element has three layers: the meta variables, the variables common to all
elements, and the fields of the element. A later layer wins over an earlier one, and the order of
the keys is that of their first layer.
-/

namespace MarkerTemplate

inductive Collection where
  | sequence (elements : List Variables)
  | keyed (elements : OrderedMap Variables)

/-- The fields of an element: the members of an object, and nothing for other data. -/
def elementFields : Json → Variables
  | .object members => .ofMembers members
  | _ => .empty

def metaVariables (index : Nat) (key : Text) : Variables :=
  .ofList [
    ("_meta.index".toList, .number (.int index)),
    ("_meta.key".toList, .text key),
    ("_meta.indexOddEven".toList, .text (if index % 2 = 0 then "Even" else "Odd").toList)]

namespace Collection

def ofItems (items : List Json) : Collection :=
  .sequence (items.map elementFields)

/-- The collection that an array or an object stands for. -/
def ofJson? : Json → Option Collection
  | .array items => some (ofItems items)
  | .object members =>
    some (.keyed (.ofList (members.map fun (key, json) => (key, elementFields json))))
  | _ => none

/-- The elements with their keys; the key in a sequence is the index. -/
def entries : Collection → List (Text × Variables)
  | .sequence elements => elements.mapIdx fun index fields => (digitsOf index, fields)
  | .keyed elements => elements.entries

def size : Collection → Nat
  | .sequence elements => elements.length
  | .keyed elements => elements.size

def isEmpty (collection : Collection) : Bool :=
  collection.size = 0

/-- The mapping of each element, with `globals` between its meta variables and its fields. -/
def scopes (collection : Collection) (globals : Variables) : List Variables :=
  collection.entries.mapIdx fun index (key, fields) =>
    ((metaVariables index key).extend globals).extend fields

end Collection

end MarkerTemplate
