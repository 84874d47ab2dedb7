import MarkerTemplate.Text

/-!
# Ordered maps

A map from texts to values that remembers the order in which its keys came. Variable mappings,
keyed collections, extracted blocks and template stores are maps of this kind.

## Main definitions

- `OrderedMap` is a list of entries with distinct keys
- `OrderedMap.insert`, `OrderedMap.extend`, `OrderedMap.erase` change a map
- `OrderedMap.get?`, `OrderedMap.contains`, `OrderedMap.keys` look at it

## Design notes

Order is visible: substitution walks through a mapping from its first entry to its last. Writing
to a key that is present gives it a new value and leaves it at its place, and a new key goes to
the end. `OrderedMap.put` does this on a bare list of entries, which is also how the members of a
JSON object are collected.
-/

namespace MarkerTemplate

universe u

/-- Entries in the order of their first insertion, no two of them with the same key. -/
structure OrderedMap (α : Type u) where
  entries : List (Text × α)
  nodup_keys : (entries.map Prod.fst).Nodup

namespace OrderedMap

variable {α : Type u}

/-- The entries with `value` at `key`: at the place of the entry with that key, or at the end if
there is none. -/
def put (key : Text) (value : α) : List (Text × α) → List (Text × α)
  | [] => [(key, value)]
  | entry :: entries =>
    if entry.1 = key then (key, value) :: entries else entry :: put key value entries

theorem map_fst_put (key : Text) (value : α) (entries : List (Text × α)) :
    (put key value entries).map Prod.fst =
      if key ∈ entries.map Prod.fst then entries.map Prod.fst
      else entries.map Prod.fst ++ [key] := by
  induction entries with
  | nil => simp [put]
  | cons entry entries ih =>
    by_cases h : entry.1 = key
    · simp [put, h]
    · have hne : ¬ key = entry.1 := fun heq => h heq.symm
      simp only [put, h, if_false, List.map_cons, List.mem_cons, hne, false_or, ih]
      split <;> rfl

theorem nodup_map_fst_put {key : Text} {value : α} {entries : List (Text × α)}
    (h : (entries.map Prod.fst).Nodup) : ((put key value entries).map Prod.fst).Nodup := by
  rw [map_fst_put]
  split
  · exact h
  · rename_i hkey
    rw [List.nodup_append]
    exact ⟨h, by simp, fun a ha b hb => by rintro rfl; exact hkey (List.mem_singleton.1 hb ▸ ha)⟩

theorem lookup_put (key other : Text) (value : α) (entries : List (Text × α)) :
    (put key value entries).lookup other =
      if other = key then some value else entries.lookup other := by
  induction entries with
  | nil =>
    by_cases h : other = key
    · simp [put, h]
    · simp [put, List.lookup_cons, beq_eq_false_iff_ne.2 h, h]
  | cons entry entries ih =>
    obtain ⟨k, v⟩ := entry
    by_cases hk : k = key
    · subst hk
      by_cases h : other = k
      · simp [put, h]
      · simp [put, List.lookup_cons, beq_eq_false_iff_ne.2 h, h]
    · by_cases h : other = key
      · subst h
        have hother : (other == k) = false := beq_eq_false_iff_ne.2 fun heq => hk heq.symm
        simp [put, hk, List.lookup_cons, hother, ih]
      · simp [put, hk, List.lookup_cons, h, ih]

def empty : OrderedMap α :=
  ⟨[], List.nodup_nil⟩

/-- The map with `value` at `key`. A key that was present keeps its place. -/
def insert (m : OrderedMap α) (key : Text) (value : α) : OrderedMap α :=
  ⟨put key value m.entries, nodup_map_fst_put m.nodup_keys⟩

/-- The map after the given entries have been inserted one by one. -/
def insertAll (m : OrderedMap α) (entries : List (Text × α)) : OrderedMap α :=
  entries.foldl (fun m entry => m.insert entry.1 entry.2) m

/-- The map of the given entries. A later entry wins over an earlier one with the same key and
takes its place. -/
def ofList (entries : List (Text × α)) : OrderedMap α :=
  empty.insertAll entries

/-- The map with every entry of `other` inserted, so that `other` wins where both have a key. -/
def extend (m other : OrderedMap α) : OrderedMap α :=
  m.insertAll other.entries

def erase (m : OrderedMap α) (key : Text) : OrderedMap α :=
  ⟨m.entries.filter (·.1 != key), (List.filter_sublist.map Prod.fst).nodup m.nodup_keys⟩

def get? (m : OrderedMap α) (key : Text) : Option α :=
  m.entries.lookup key

def keys (m : OrderedMap α) : List Text :=
  m.entries.map Prod.fst

def contains (m : OrderedMap α) (key : Text) : Bool :=
  decide (key ∈ m.keys)

def size (m : OrderedMap α) : Nat :=
  m.entries.length

def isEmpty (m : OrderedMap α) : Bool :=
  m.entries.isEmpty

/-! ### Lemmas -/

@[ext]
theorem ext {m n : OrderedMap α} (h : m.entries = n.entries) : m = n := by
  cases m
  cases n
  cases h
  rfl

theorem keys_nodup (m : OrderedMap α) : m.keys.Nodup :=
  m.nodup_keys

@[simp]
theorem keys_empty : (empty : OrderedMap α).keys = [] :=
  rfl

theorem keys_insert (m : OrderedMap α) (key : Text) (value : α) :
    (m.insert key value).keys = if key ∈ m.keys then m.keys else m.keys ++ [key] :=
  map_fst_put key value m.entries

theorem get?_insert (m : OrderedMap α) (key other : Text) (value : α) :
    (m.insert key value).get? other = if other = key then some value else m.get? other :=
  lookup_put key other value m.entries

theorem insertAll_append (m : OrderedMap α) (entries more : List (Text × α)) :
    m.insertAll (entries ++ more) = (m.insertAll entries).insertAll more :=
  List.foldl_append

end OrderedMap

end MarkerTemplate
