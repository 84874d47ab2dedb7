import MarkerTemplate.Proofs.OrderedMap

/-!
# Layers of mappings

A mapping may be put over another one, as the fields of an element are put over what all elements
share. How do such layers add up, when the order of the keys counts as well as what is found at
them?

## Main definitions

- `OrderedMap.Write` is one of the ways in which a map is written to
- `OrderedMap.written` is the map that comes of some writes

## Design notes

Whatever way a map is written to, pairs of a key and a value are inserted one by one, so a map is
known by the list of all pairs ever written. Layers are compared through these lists.
-/

namespace MarkerTemplate

namespace OrderedMap

universe u

variable {α : Type u}

/-! ### Writing -/

/-- A write inserts one value, the pairs of a list, or all that another map holds. -/
inductive Write (α : Type u) where
  | insert (key : Text) (value : α)
  | insertAll (pairs : List (Text × α))
  | extend (other : OrderedMap α)

namespace Write

def apply (m : OrderedMap α) : Write α → OrderedMap α
  | .insert key value => m.insert key value
  | .insertAll pairs => m.insertAll pairs
  | .extend other => m.extend other

/-- The pairs that are written, in order. -/
def pairs : Write α → List (Text × α)
  | .insert key value => [(key, value)]
  | .insertAll pairs => pairs
  | .extend other => other.entries

theorem apply_eq_insertAll (m : OrderedMap α) (write : Write α) :
    write.apply m = m.insertAll write.pairs := by
  cases write <;> rfl

end Write

/-- The map after the given writes, which begin with nothing. -/
def written (writes : List (Write α)) : OrderedMap α :=
  writes.foldl Write.apply empty

theorem foldl_apply_eq_insertAll (m : OrderedMap α) (writes : List (Write α)) :
    writes.foldl Write.apply m = m.insertAll (writes.flatMap Write.pairs) := by
  induction writes generalizing m with
  | nil => rfl
  | cons write writes ih =>
    rw [List.foldl_cons, ih, Write.apply_eq_insertAll, List.flatMap_cons, insertAll_append]

/-- A map is what its writes have written, all in one list. -/
theorem written_eq_ofList (writes : List (Write α)) :
    written writes = ofList (writes.flatMap Write.pairs) :=
  foldl_apply_eq_insertAll empty writes

/-! ### Putting one map over another -/

theorem keys_extend (a b : OrderedMap α) :
    (a.extend b).keys = a.keys ++ b.keys.filter fun key => !a.contains key :=
  keys_insertAll b.nodup_keys a

theorem extend_assoc (a b c : OrderedMap α) :
    (a.extend b).extend c = a.extend (b.extend c) :=
  (extend_insertAll a b c.entries).symm

theorem empty_extend (a : OrderedMap α) : empty.extend a = a :=
  ext (entries_ofList a.nodup_keys)

theorem extend_empty (a : OrderedMap α) : a.extend empty = a :=
  rfl

/-- Putting a map over itself brings no new key and changes no value. -/
theorem extend_self (a : OrderedMap α) : a.extend a = a := by
  refine eq_of_keys_eq ?_ fun key => ?_
  · have hnone : (a.keys.filter fun key => !a.contains key) = [] := by
      refine List.filter_eq_nil_iff.2 fun key hkey => ?_
      simp [contains, hkey]
    rw [keys_extend, hnone, List.append_nil]
  · rw [get?_extend, Option.or_self]

/-- Layers of mappings add up, and the order of the keys with them. A map that has been written to
in any way has the keys that were written, each at the place where it first came and none of them
twice, and finds at each what was written last. Layers may be put together in any grouping, an empty
layer makes no difference and neither does a map put over itself. Of two layers the keys of the
lower one come first, and the values of the upper one count. A list that is collected in two parts
gives two layers. -/
theorem extend_layers (a b c : OrderedMap α) (writes : List (Write α))
    (pairs more : List (Text × α)) :
    ((written writes).keys = ((writes.flatMap Write.pairs).map Prod.fst).eraseDups ∧
        (written writes).keys.Nodup ∧
        ∀ key, (written writes).get? key = (writes.flatMap Write.pairs).reverse.lookup key) ∧
      (a.extend b).extend c = a.extend (b.extend c) ∧
      (empty.extend a = a ∧ a.extend empty = a) ∧
      a.extend a = a ∧
      (a.extend b).keys = a.keys ++ b.keys.filter (fun key => !a.contains key) ∧
      (∀ key, (a.extend b).get? key = (b.get? key).or (a.get? key)) ∧
      ofList (pairs ++ more) = (ofList pairs).extend (ofList more) := by
  refine ⟨⟨?_, (written writes).keys_nodup, fun key => ?_⟩, extend_assoc a b c,
    ⟨empty_extend a, extend_empty a⟩, extend_self a, keys_extend a b, get?_extend a b,
    ofList_append pairs more⟩
  · rw [written_eq_ofList, keys_ofList]
  · rw [written_eq_ofList, get?_ofList]

end OrderedMap

end MarkerTemplate
