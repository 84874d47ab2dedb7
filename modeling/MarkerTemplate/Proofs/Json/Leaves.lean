import Mathlib.Data.List.Nodup
import Mathlib.Data.Prod.Basic
import MarkerTemplate.Proofs.OrderedMap
import MarkerTemplate.Proofs.Text.Splitting
import MarkerTemplate.Value

/-!
# Taking objects apart

A mapping that is read off data with its objects taken apart has an entry for the path of each leaf.
If the names in the data have no points, the paths tell which names lead to a leaf, and the data can
be put together again.

## Main definitions

- `Json.leaves` — the parts of the data that are no objects with members, with the names that lead
  to them
- `Json.dottedPath` — these names, joined by points
- `Json.PlainNames` — the names in the data are distinct and have no points

## Design notes

The leaves of one member of an object stand together, and the first of their names is that of the
member. Where names are distinct, this shows where the leaves of the next member begin.
-/

namespace MarkerTemplate

namespace Json

mutual

/-- The leaves of the data in the order in which they stand there, each behind the names that lead
to it. Arrays and empty objects are leaves. -/
def leaves : Json → List (List Text × Json)
  | .object (member :: members) => memberLeaves (member :: members)
  | json => [([], json)]

/-- The leaves of the members of an object. -/
def memberLeaves : List (Text × Json) → List (List Text × Json)
  | [] => []
  | (name, json) :: members => json.leaves.map (Prod.map (name :: ·) id) ++ memberLeaves members

end

/-- The names that lead to a leaf, joined by points. -/
def dottedPath (leaf : List Text × Json) : Text :=
  ['.'].intercalate leaf.1

mutual

/-- The names in each object that is reached through objects are distinct, as they are in all data
that has been read, and have no points. -/
def PlainNames : Json → Prop
  | .object members => (members.map Prod.fst).Nodup ∧ PlainMembers members
  | .null | .bool _ | .number _ | .string _ | .array _ => True

/-- The names of the members have no points, and neither have those in the members. -/
def PlainMembers : List (Text × Json) → Prop
  | [] => True
  | (name, json) :: members => '.' ∉ name ∧ json.PlainNames ∧ PlainMembers members

end

/-! ### Which leaves there are -/

/-- Data is a leaf by itself, unless it is an object with members. -/
theorem leaves_cases (json : Json) :
    json.leaves = [([], json)] ∨ ∃ member members, json = .object (member :: members) := by
  cases json with
  | object members =>
    cases members with
    | nil => exact Or.inl rfl
    | cons member members => exact Or.inr ⟨member, members, rfl⟩
  | null | bool _ | number _ | string _ | array _ => exact Or.inl rfl

theorem mem_memberLeaves_cons {leaf : List Text × Json} {name : Text} {json : Json}
    {members : List (Text × Json)} :
    leaf ∈ memberLeaves ((name, json) :: members) ↔
      (∃ inner ∈ json.leaves, (name :: inner.1, inner.2) = leaf) ∨ leaf ∈ memberLeaves members := by
  rw [memberLeaves, List.mem_append, List.mem_map]
  rfl

/-- The first name that leads to a leaf of a member is a name of the object. -/
theorem exists_names_of_mem_memberLeaves {leaf : List Text × Json} {members : List (Text × Json)}
    (h : leaf ∈ memberLeaves members) :
    ∃ name ∈ members.map Prod.fst, ∃ names, leaf.1 = name :: names := by
  induction members with
  | nil => cases h
  | cons member members ih =>
    obtain ⟨name, json⟩ := member
    rcases mem_memberLeaves_cons.1 h with ⟨inner, -, rfl⟩ | hlater
    · exact ⟨name, List.mem_cons_self, inner.1, rfl⟩
    · obtain ⟨name', hname', hleaf⟩ := ih hlater
      exact ⟨name', List.mem_cons_of_mem name hname', hleaf⟩

mutual

theorem leaves_ne_nil : ∀ json : Json, json.leaves ≠ []
  | .object (member :: members) => memberLeaves_ne_nil member members
  | .object [] | .null | .bool _ | .number _ | .string _ | .array _ => nofun

/-- Every member leads to a leaf. -/
theorem memberLeaves_ne_nil :
    ∀ (member : Text × Json) (members : List (Text × Json)), memberLeaves (member :: members) ≠ []
  | (_, json), _ => by
    rw [memberLeaves]
    exact fun h => leaves_ne_nil json (List.map_eq_nil_iff.1 (List.append_eq_nil_iff.1 h).1)

end

mutual

/-- No leaf is an object with members. -/
theorem ne_object_of_mem_leaves :
    ∀ json : Json, ∀ leaf ∈ json.leaves, ∀ member members, leaf.2 ≠ .object (member :: members)
  | .object (member :: members), leaf, h =>
    ne_object_of_mem_memberLeaves (member :: members) leaf h
  | .object [], _, h | .null, _, h | .bool _, _, h | .number _, _, h | .string _, _, h
  | .array _, _, h => by
    rw [List.mem_singleton.1 h]
    exact nofun

theorem ne_object_of_mem_memberLeaves :
    ∀ members : List (Text × Json), ∀ leaf ∈ memberLeaves members, ∀ member members',
      leaf.2 ≠ .object (member :: members')
  | [], _, h => by cases h
  | (_, json) :: members, leaf, h => by
    rcases mem_memberLeaves_cons.1 h with ⟨inner, hinner, rfl⟩ | hlater
    · exact ne_object_of_mem_leaves json inner hinner
    · exact ne_object_of_mem_memberLeaves members leaf hlater

end

/-! ### Names without points -/

mutual

theorem notMem_of_mem_leaves {leaf : List Text × Json} :
    ∀ json : Json, json.PlainNames → leaf ∈ json.leaves → ∀ name ∈ leaf.1, '.' ∉ name
  | .object (member :: members), h, hleaf =>
    notMem_of_mem_memberLeaves (member :: members) h.2 hleaf
  | .object [], _, hleaf | .null, _, hleaf | .bool _, _, hleaf | .number _, _, hleaf
  | .string _, _, hleaf | .array _, _, hleaf => by
    rw [List.mem_singleton.1 hleaf]
    exact nofun

/-- No name that leads to a leaf has a point. -/
theorem notMem_of_mem_memberLeaves {leaf : List Text × Json} :
    ∀ members : List (Text × Json), PlainMembers members → leaf ∈ memberLeaves members →
      ∀ name ∈ leaf.1, '.' ∉ name
  | [], _, hleaf => by cases hleaf
  | (name, json) :: members, h, hleaf => by
    rcases mem_memberLeaves_cons.1 hleaf with ⟨inner, hinner, rfl⟩ | hlater
    · exact List.forall_mem_cons.2 ⟨h.1, notMem_of_mem_leaves json h.2.1 hinner⟩
    · exact notMem_of_mem_memberLeaves members h.2.2 hlater

end

/-- Splitting the path at its points gives the names. -/
theorem splitOn_dottedPath {leaf : List Text × Json} {members : List (Text × Json)}
    (h : PlainMembers members) (hleaf : leaf ∈ memberLeaves members) :
    (dottedPath leaf).splitOn '.' = leaf.1 := by
  obtain ⟨name, -, names, heq⟩ := exists_names_of_mem_memberLeaves hleaf
  refine List.splitOn_intercalate '.' (notMem_of_mem_memberLeaves members h hleaf) ?_
  rw [heq]
  exact List.cons_ne_nil name names

mutual

theorem nodup_map_fst_leaves :
    ∀ json : Json, json.PlainNames → (json.leaves.map Prod.fst).Nodup
  | .object (member :: members), h => nodup_map_fst_memberLeaves (member :: members) h.1 h.2
  | .object [], _ | .null, _ | .bool _, _ | .number _, _ | .string _, _ | .array _, _ =>
    List.nodup_singleton []

/-- Different names lead to different leaves. -/
theorem nodup_map_fst_memberLeaves :
    ∀ members : List (Text × Json), (members.map Prod.fst).Nodup → PlainMembers members →
      ((memberLeaves members).map Prod.fst).Nodup
  | [], _, _ => List.nodup_nil
  | (name, json) :: members, hnames, h => by
    obtain ⟨hfresh, hrest⟩ := List.nodup_cons.1 hnames
    have hhere : ((json.leaves.map Prod.fst).map (name :: ·)).Nodup :=
      (nodup_map_fst_leaves json h.2.1).map List.cons_injective
    have hlater := nodup_map_fst_memberLeaves members hrest h.2.2
    rw [memberLeaves, List.map_append, List.map_map]
    rw [List.map_map] at hhere
    refine List.nodup_append.2 ⟨hhere, hlater, fun names hnames names' hnames' heq => ?_⟩
    obtain ⟨leaf, -, rfl⟩ := List.mem_map.1 hnames
    obtain ⟨leaf', hleaf', rfl⟩ := List.mem_map.1 hnames'
    obtain ⟨name', hname', names', hfirst⟩ := exists_names_of_mem_memberLeaves hleaf'
    have hsame : name = name' := (List.cons.inj (heq.trans hfirst)).1
    exact hfresh (hsame ▸ hname')

end

/-- No two leaves have one path. -/
theorem nodup_map_dottedPath_memberLeaves {members : List (Text × Json)}
    (h : (object members).PlainNames) : ((memberLeaves members).map dottedPath).Nodup := by
  have hsplit : ((memberLeaves members).map dottedPath).map (List.splitOn '.') =
      (memberLeaves members).map Prod.fst := by
    rw [List.map_map]
    exact List.map_congr_left fun leaf hleaf => splitOn_dottedPath h.2 hleaf
  refine List.Nodup.of_map (List.splitOn '.') ?_
  rw [hsplit]
  exact nodup_map_fst_memberLeaves members h.1 h.2

/-! ### Putting data together again -/

/-- The leaves of the first member are those with its name. -/
theorem filter_memberLeaves_cons {name : Text} (json : Json) {members : List (Text × Json)}
    (h : name ∉ members.map Prod.fst) :
    (memberLeaves ((name, json) :: members)).filter (·.1.head? = some name) =
      json.leaves.map (Prod.map (name :: ·) id) := by
  have hhere : (json.leaves.map (Prod.map (name :: ·) id)).filter (·.1.head? = some name) =
      json.leaves.map (Prod.map (name :: ·) id) := by
    refine List.filter_eq_self.2 fun leaf hleaf => ?_
    obtain ⟨inner, -, rfl⟩ := List.mem_map.1 hleaf
    exact decide_eq_true rfl
  have hlater : (memberLeaves members).filter (·.1.head? = some name) = [] := by
    refine List.filter_eq_nil_iff.2 fun leaf hleaf hhead => ?_
    obtain ⟨name', hname', names, heq⟩ := exists_names_of_mem_memberLeaves hleaf
    rw [heq] at hhead
    have hsame : name' = name := Option.some.inj (of_decide_eq_true hhead)
    exact h (hsame ▸ hname')
  rw [memberLeaves, List.filter_append, hhere, hlater, List.append_nil]

theorem head?_memberLeaves_cons (name : Text) (json : Json) (members : List (Text × Json)) :
    (memberLeaves ((name, json) :: members)).head?.bind (·.1.head?) = some name := by
  obtain ⟨leaf, later, hleaves⟩ := List.exists_cons_of_ne_nil (leaves_ne_nil json)
  rw [memberLeaves, hleaves]
  rfl

/-- Only a leaf is reached without any name. -/
theorem eq_of_leaves_eq_singleton {json value : Json} (h : json.leaves = [([], value)]) :
    json = value := by
  rcases leaves_cases json with hleaf | ⟨member, members, rfl⟩
  · have hsame : [(([] : List Text), json)] = [([], value)] := hleaf.symm.trans h
    exact (Prod.mk.inj (List.cons.inj hsame).1).2
  · have hmem : ([], value) ∈ (object (member :: members)).leaves := h ▸ List.mem_cons_self
    obtain ⟨name, -, names, heq⟩ := exists_names_of_mem_memberLeaves hmem
    cases heq

mutual

theorem eq_of_leaves_eq :
    ∀ json json' : Json, json.PlainNames → json'.PlainNames → json.leaves = json'.leaves →
      json = json'
  | .object (member :: members), json', hplain, hplain', h => by
    rcases leaves_cases json' with hleaf | ⟨member', members', rfl⟩
    · exact eq_of_leaves_eq_singleton (h.trans hleaf)
    · exact congrArg object
        (eq_of_memberLeaves_eq (member :: members) (member' :: members') hplain hplain' h)
  | .object [], _, _, _, h | .null, _, _, _, h | .bool _, _, _, _, h | .number _, _, _, _, h
  | .string _, _, _, _, h | .array _, _, _, _, h => (eq_of_leaves_eq_singleton h.symm).symm

/-- Data with plain names is known by its leaves. -/
theorem eq_of_memberLeaves_eq :
    ∀ members members' : List (Text × Json), (object members).PlainNames →
      (object members').PlainNames → memberLeaves members = memberLeaves members' →
      members = members'
  | [], [], _, _, _ => rfl
  | [], member' :: members', _, _, h => absurd h.symm (memberLeaves_ne_nil member' members')
  | member :: members, [], _, _, h => absurd h (memberLeaves_ne_nil member members)
  | (name, json) :: members, (name', json') :: members', ⟨hnames, hplain⟩, ⟨hnames', hplain'⟩, h =>
    by
    obtain ⟨hfresh, hrest⟩ := List.nodup_cons.1 hnames
    obtain ⟨hfresh', hrest'⟩ := List.nodup_cons.1 hnames'
    have hname : some name = some name' := by
      rw [← head?_memberLeaves_cons name json members, h, head?_memberLeaves_cons]
    obtain rfl := Option.some.inj hname
    -- In both lists, the leaves that belong to the first member are those with its name.
    have hgroup : json.leaves.map (Prod.map (name :: ·) id) =
        json'.leaves.map (Prod.map (name :: ·) id) := by
      rw [← filter_memberLeaves_cons json hfresh, h, filter_memberLeaves_cons json' hfresh']
    have hinjective : Function.Injective (Prod.map (name :: ·) (id : Json → Json)) :=
      List.cons_injective.prodMap Function.injective_id
    have hjson : json = json' :=
      eq_of_leaves_eq json json' hplain.2.1 hplain'.2.1
        (List.map_injective_iff.2 hinjective hgroup)
    have hmembers : members = members' := by
      rw [memberLeaves, memberLeaves, hgroup] at h
      exact eq_of_memberLeaves_eq members members' ⟨hrest, hplain.2.2⟩ ⟨hrest', hplain'.2.2⟩
        (List.append_cancel_left h)
    rw [hjson, hmembers]

end

end Json

theorem Value.ofJson_injective : Function.Injective Value.ofJson := by
  intro json json' h
  cases json <;> cases json' <;> cases h <;> rfl

namespace Variables

open Json (dottedPath memberLeaves)

/-! ### The mapping -/

mutual

theorem leavesAt_eq_map (path : Text) :
    ∀ json : Json, leavesAt path json =
      json.leaves.map fun leaf => (['.'].intercalate (path :: leaf.1), leaf.2)
  | .object (member :: members) => by
    rw [leavesAt, leavesOf_eq_map (path ++ ['.']) (member :: members), Json.leaves]
    refine List.map_congr_left fun leaf hleaf => ?_
    obtain ⟨name, -, names, heq⟩ := Json.exists_names_of_mem_memberLeaves hleaf
    rw [dottedPath, heq, List.intercalate_cons_cons]
  | .object [] | .null | .bool _ | .number _ | .string _ | .array _ => by
    simp [leavesAt, Json.leaves]

/-- The paths of the leaves are the names that lead to them, joined by points, behind the stem. -/
theorem leavesOf_eq_map (stem : Text) :
    ∀ members : List (Text × Json), leavesOf stem members =
      (memberLeaves members).map fun leaf => (stem ++ dottedPath leaf, leaf.2)
  | [] => rfl
  | (name, json) :: members => by
    rw [leavesOf, leavesAt_eq_map (stem ++ name) json, leavesOf_eq_map stem members, memberLeaves,
      List.map_append, List.map_map]
    congr 1
    refine List.map_congr_left fun leaf _ => ?_
    have hpath : ['.'].intercalate ((stem ++ name) :: leaf.1) =
        stem ++ ['.'].intercalate (name :: leaf.1) := by
      rw [Text.intercalate_cons, Text.intercalate_cons, List.append_assoc]
    exact Prod.ext hpath rfl

end

/-- The entries of a mapping with objects taken apart, as they are inserted. -/
def leafEntries (members : List (Text × Json)) : List (Text × Value) :=
  (memberLeaves members).map fun leaf => (dottedPath leaf, Value.ofJson leaf.2)

theorem ofMembers_leavesOf (members : List (Text × Json)) :
    ofMembers (leavesOf [] members) = OrderedMap.ofList (leafEntries members) := by
  rw [ofMembers, leavesOf_eq_map, List.map_map]
  rfl

theorem map_fst_leafEntries (members : List (Text × Json)) :
    (leafEntries members).map Prod.fst = (memberLeaves members).map dottedPath := by
  rw [leafEntries, List.map_map]
  rfl

/-- If the names are plain, the entries tell the data. -/
theorem eq_of_leafEntries_eq {members members' : List (Text × Json)}
    (hplain : (Json.object members).PlainNames) (hplain' : (Json.object members').PlainNames)
    (h : leafEntries members = leafEntries members') : members = members' := by
  -- Splitting the paths leads back from the entries to the leaves.
  have hsplit : ∀ {members : List (Text × Json)}, (Json.object members).PlainNames →
      (leafEntries members).map (Prod.map (List.splitOn '.') id) =
        (memberLeaves members).map (Prod.map id Value.ofJson) := by
    intro members hplain
    rw [leafEntries, List.map_map]
    refine List.map_congr_left fun leaf hleaf => ?_
    exact Prod.ext (Json.splitOn_dottedPath hplain.2 hleaf) rfl
  have hinjective : Function.Injective (Prod.map (id : List Text → List Text) Value.ofJson) :=
    Function.injective_id.prodMap Value.ofJson_injective
  refine Json.eq_of_memberLeaves_eq members members' hplain hplain' ?_
  refine List.map_injective_iff.2 hinjective ?_
  rw [← hsplit hplain, h, hsplit hplain']

/-- Taking objects apart: there is an entry for each path of a leaf, in the order in which the paths
first come, with the last leaf that has the path. No entry is an object with members. If the names
have no points, then no two leaves have one path, and the mapping tells the object that it has been
read off. -/
theorem ofJsonFlattened_binds_leaves (members : List (Text × Json)) :
    let leaves := memberLeaves members
    ∃ vars, ofJsonFlattened (.object members) = .ok vars ∧
      vars.keys = (leaves.map dottedPath).eraseDups ∧
      (∀ key, vars.get? key =
        (leaves.filter (dottedPath · = key)).getLast?.map fun leaf => Value.ofJson leaf.2) ∧
      (∀ entry ∈ vars.entries, ∀ member members',
        entry.2 ≠ .structured (.object (member :: members'))) ∧
      ((Json.object members).PlainNames →
        (leaves.map dottedPath).Nodup ∧
          ∀ members', (Json.object members').PlainNames →
            ofJsonFlattened (.object members') = .ok vars → members' = members) := by
  intro leaves
  refine ⟨OrderedMap.ofList (leafEntries members),
    congrArg Except.ok (ofMembers_leavesOf members), ?_, ?_, ?_, fun hplain => ?_⟩
  · rw [OrderedMap.keys_ofList, map_fst_leafEntries]
  · intro key
    exact OrderedMap.get?_ofList_map dottedPath (fun leaf => Value.ofJson leaf.2) key leaves
  · intro entry hentry member members' hobject
    obtain ⟨leaf, hleaf, rfl⟩ := List.mem_map.1 (OrderedMap.mem_entries_ofList hentry)
    refine Json.ne_object_of_mem_memberLeaves members leaf hleaf member members' ?_
    exact Value.ofJson_injective hobject
  · have hpaths := Json.nodup_map_dottedPath_memberLeaves hplain
    refine ⟨hpaths, fun members' hplain' h => ?_⟩
    have hpaths' := Json.nodup_map_dottedPath_memberLeaves hplain'
    rw [← map_fst_leafEntries] at hpaths hpaths'
    have hmaps : OrderedMap.ofList (leafEntries members') =
        OrderedMap.ofList (leafEntries members) := by
      rw [← ofMembers_leavesOf members']
      exact Except.ok.inj h
    have hentries := congrArg OrderedMap.entries hmaps
    rw [OrderedMap.entries_ofList hpaths', OrderedMap.entries_ofList hpaths] at hentries
    exact eq_of_leafEntries_eq hplain' hplain hentries

/-- Members with an object, an empty object, an empty array and empty names. -/
def nestedMembers : List (Text × Json) :=
  [(['a'], .object [([], .bool true), (['b'], .array [])]), ([], .object []), (['c'], .string [])]

/-- An empty name leaves its point behind, and the order of the members can be told. -/
theorem ofJsonFlattened_binds_leaves_nestedMembers :
    (Json.object nestedMembers).PlainNames ∧
      ∃ vars, ofJsonFlattened (.object nestedMembers) = .ok vars ∧
        vars.keys = ["a.".toList, "a.b".toList, [], "c".toList] ∧
        ofJsonFlattened (.object nestedMembers.reverse) ≠ .ok vars := by
  have hplain : (Json.object nestedMembers).PlainNames := by
    simp [nestedMembers, Json.PlainNames, Json.PlainMembers]
  have hreverse : (Json.object nestedMembers.reverse).PlainNames := by
    simp [nestedMembers, Json.PlainNames, Json.PlainMembers]
  obtain ⟨vars, hvars, hkeys, -, -, htold⟩ := ofJsonFlattened_binds_leaves nestedMembers
  refine ⟨hplain, vars, hvars, hkeys.trans rfl, fun hsame => ?_⟩
  have heq := (htold hplain).2 nestedMembers.reverse hreverse hsame
  simp [nestedMembers] at heq

end Variables

end MarkerTemplate
