import Mathlib.Data.List.Forall2
import MarkerTemplate.OrderedMap

/-!
# The entries of ordered maps

Which entries a map has after some have been inserted, and which of them is found at a key.
`OrderedMap.Related` says that two maps have the same keys in the same order, with values that are
related key by key; inserting related values keeps maps related.
-/

namespace MarkerTemplate

namespace OrderedMap

universe u

variable {α : Type u}

theorem mem_put {key : Text} {value : α} {entries : List (Text × α)} {entry : Text × α}
    (h : entry ∈ put key value entries) : entry = (key, value) ∨ entry ∈ entries := by
  induction entries with
  | nil => exact Or.inl (List.mem_singleton.1 h)
  | cons first entries ih =>
    unfold put at h
    split at h
    · rcases List.mem_cons.1 h with rfl | h
      · exact Or.inl rfl
      · exact Or.inr (List.mem_cons_of_mem first h)
    · rcases List.mem_cons.1 h with rfl | h
      · exact Or.inr List.mem_cons_self
      · rcases ih h with rfl | h
        · exact Or.inl rfl
        · exact Or.inr (List.mem_cons_of_mem first h)

theorem insertAll_cons (m : OrderedMap α) (entry : Text × α) (entries : List (Text × α)) :
    m.insertAll (entry :: entries) = (m.insert entry.1 entry.2).insertAll entries :=
  rfl

/-- Every entry of a map was there before or has been inserted. -/
theorem mem_entries_insertAll {m : OrderedMap α} {inserted : List (Text × α)}
    {entry : Text × α} (h : entry ∈ (m.insertAll inserted).entries) :
    entry ∈ inserted ∨ entry ∈ m.entries := by
  induction inserted generalizing m with
  | nil => exact Or.inr h
  | cons first inserted ih =>
    rw [insertAll_cons] at h
    rcases ih h with h | h
    · exact Or.inl (List.mem_cons_of_mem first h)
    · rcases mem_put h with rfl | h
      · exact Or.inl List.mem_cons_self
      · exact Or.inr h

theorem mem_entries_ofList {entries : List (Text × α)} {entry : Text × α}
    (h : entry ∈ (ofList entries).entries) : entry ∈ entries := by
  rcases mem_entries_insertAll h with h | h
  · exact h
  · cases h

/-! ### Looking up -/

theorem get?_eq_some_iff {m : OrderedMap α} {key : Text} {value : α} :
    m.get? key = some value ↔ (key, value) ∈ m.entries := by
  have hnodup := m.nodup_keys
  unfold get?
  generalize m.entries = entries at hnodup ⊢
  induction entries with
  | nil => simp
  | cons entry entries ih =>
    obtain ⟨k, v⟩ := entry
    obtain ⟨hfresh, hrest⟩ := List.nodup_cons.1 hnodup
    by_cases hkey : key = k
    · subst hkey
      have hnot : (key, value) ∉ entries := fun h =>
        hfresh (List.mem_map.2 ⟨(key, value), h, rfl⟩)
      simp [hnot, eq_comm]
    · simp [List.lookup_cons, beq_eq_false_iff_ne.2 hkey, hkey, ih hrest]

theorem get?_erase (m : OrderedMap α) (key other : Text) :
    (m.erase key).get? other = if other = key then none else m.get? other := by
  refine Option.ext fun value => ?_
  rw [get?_eq_some_iff, erase, List.mem_filter]
  by_cases hkey : other = key
  · simp [hkey]
  · simp [hkey, get?_eq_some_iff]

theorem contains_eq_isSome (m : OrderedMap α) (key : Text) :
    m.contains key = (m.get? key).isSome := by
  rw [Bool.eq_iff_iff, contains, decide_eq_true_iff, get?, List.lookup_isSome_iff]
  simp [keys]

/-- Of entries that have been inserted, the later one counts, and all of them count more than what
was there before. -/
theorem get?_insertAll {inserted : List (Text × α)} (h : (inserted.map Prod.fst).Nodup)
    (m : OrderedMap α) (key : Text) :
    (m.insertAll inserted).get? key = (inserted.lookup key).or (m.get? key) := by
  induction inserted generalizing m with
  | nil => rfl
  | cons entry inserted ih =>
    obtain ⟨k, v⟩ := entry
    obtain ⟨hfresh, hrest⟩ := List.nodup_cons.1 h
    rw [insertAll_cons, ih hrest, get?_insert]
    -- If the key is this entry's, no later entry has it.
    by_cases hkey : key = k
    · subst hkey
      have hnone : inserted.lookup key = none := by
        refine List.lookup_eq_none_iff.2 fun entry hentry => ?_
        exact bne_iff_ne.2 fun heq => hfresh (List.mem_map.2 ⟨entry, hentry, heq.symm⟩)
      simp [hnone]
    · simp [List.lookup_cons, beq_eq_false_iff_ne.2 hkey, hkey]

theorem get?_extend (m other : OrderedMap α) (key : Text) :
    (m.extend other).get? key = (other.get? key).or (m.get? key) :=
  get?_insertAll other.nodup_keys m key

/-! ### New keys -/

theorem put_of_notMem {key : Text} {entries : List (Text × α)} (h : key ∉ entries.map Prod.fst)
    (value : α) : put key value entries = entries ++ [(key, value)] := by
  induction entries with
  | nil => rfl
  | cons entry entries ih =>
    obtain ⟨hhead, hrest⟩ := not_or.1 (mt List.mem_cons.2 h)
    rw [put, if_neg (Ne.symm hhead), ih hrest]
    rfl

theorem entries_insertAll {m : OrderedMap α} {inserted : List (Text × α)}
    (h : (m.keys ++ inserted.map Prod.fst).Nodup) :
    (m.insertAll inserted).entries = m.entries ++ inserted := by
  induction inserted generalizing m with
  | nil => exact (List.append_nil m.entries).symm
  | cons entry inserted ih =>
    rw [List.map_cons, List.append_cons] at h
    have hfresh : entry.1 ∉ m.keys := by
      have hnodup := (List.nodup_append.1 h).1
      exact fun hmem => (List.nodup_append.1 hnodup).2.2 _ hmem _ List.mem_cons_self rfl
    have hentries : (m.insert entry.1 entry.2).entries = m.entries ++ [entry] :=
      put_of_notMem hfresh entry.2
    have hkeys : (m.insert entry.1 entry.2).keys = m.keys ++ [entry.1] := by
      rw [keys, hentries, List.map_append]
      rfl
    rw [insertAll_cons, ih (hkeys ▸ h), hentries, List.append_assoc]
    rfl

theorem entries_ofList {entries : List (Text × α)} (h : (entries.map Prod.fst).Nodup) :
    (ofList entries).entries = entries :=
  entries_insertAll (m := empty) h

theorem put_ne_nil (key : Text) (value : α) (entries : List (Text × α)) :
    put key value entries ≠ [] := by
  cases entries with
  | nil => exact List.cons_ne_nil _ _
  | cons entry entries =>
    unfold put
    split <;> exact List.cons_ne_nil _ _

theorem eq_nil_of_isEmpty_insertAll {m : OrderedMap α} {inserted : List (Text × α)}
    (h : (m.insertAll inserted).isEmpty = true) : inserted = [] ∧ m.isEmpty = true := by
  induction inserted generalizing m with
  | nil => exact ⟨rfl, h⟩
  | cons entry inserted ih =>
    have hempty := (ih h).2
    exact absurd (List.isEmpty_iff.1 hempty) (put_ne_nil entry.1 entry.2 m.entries)

/-- Inserting entries puts their new keys behind those that were there, in the order in which they
first come. -/
theorem keys_insertAll_eq_append_eraseDups (m : OrderedMap α) (inserted : List (Text × α)) :
    (m.insertAll inserted).keys =
      m.keys ++ ((inserted.map Prod.fst).filter fun key => !m.contains key).eraseDups := by
  induction inserted generalizing m with
  | nil => exact (List.append_nil m.keys).symm
  | cons entry inserted ih =>
    rw [insertAll_cons, ih, List.map_cons, keys_insert]
    split
    · rename_i hkey
      have hcontains : m.contains entry.1 = true := decide_eq_true hkey
      rw [List.filter_cons_of_neg (by simp [hcontains])]
      simp only [contains, keys_insert, if_pos hkey]
    · rename_i hkey
      have hcontains : m.contains entry.1 = false := decide_eq_false hkey
      rw [List.filter_cons_of_pos (by simp [hcontains]), List.eraseDups_cons, List.filter_filter,
        List.append_assoc, List.singleton_append]
      congr 3
      -- The key is there now, so a later entry with it adds none.
      refine List.filter_congr fun key _ => ?_
      by_cases hsame : key = entry.1 <;> simp [contains, keys_insert, hkey, hsame]

theorem eraseDups_of_nodup {keys : List Text} (h : keys.Nodup) : keys.eraseDups = keys := by
  induction keys with
  | nil => rfl
  | cons key keys ih =>
    obtain ⟨hfresh, hrest⟩ := List.nodup_cons.1 h
    have hfilter : (keys.filter fun later => !later == key) = keys := by
      refine List.filter_eq_self.2 fun later hlater => ?_
      have hne : later ≠ key := fun heq => hfresh (heq ▸ hlater)
      simp [hne]
    rw [List.eraseDups_cons, hfilter, ih hrest]

theorem keys_insertAll {inserted : List (Text × α)} (h : (inserted.map Prod.fst).Nodup)
    (m : OrderedMap α) :
    (m.insertAll inserted).keys =
      m.keys ++ (inserted.map Prod.fst).filter fun key => !m.contains key := by
  rw [keys_insertAll_eq_append_eraseDups, eraseDups_of_nodup (h.filter _)]

/-- The keys of entries are collected in the order in which they first come. -/
theorem keys_ofList (entries : List (Text × α)) :
    (ofList entries).keys = (entries.map Prod.fst).eraseDups := by
  have hfresh : ((entries.map Prod.fst).filter fun key => !(empty : OrderedMap α).contains key) =
      entries.map Prod.fst :=
    List.filter_eq_self.2 fun _ _ => rfl
  rw [ofList, keys_insertAll_eq_append_eraseDups, hfresh, keys_empty, List.nil_append]

theorem mem_keys_insertAll {m : OrderedMap α} {inserted : List (Text × α)} {key : Text} :
    key ∈ (m.insertAll inserted).keys ↔ key ∈ m.keys ∨ key ∈ inserted.map Prod.fst := by
  induction inserted generalizing m with
  | nil => simp [insertAll]
  | cons entry inserted ih =>
    rw [insertAll_cons, ih, keys_insert, List.map_cons, List.mem_cons]
    split
    · rename_i hkey
      constructor
      · rintro (h | h)
        · exact Or.inl h
        · exact Or.inr (Or.inr h)
      · rintro (h | rfl | h)
        · exact Or.inl h
        · exact Or.inl hkey
        · exact Or.inr h
    · rw [List.mem_append, List.mem_singleton, or_assoc]

/-! ### One map behind another -/

theorem entries_eq_filterMap (m : OrderedMap α) :
    m.entries = m.keys.filterMap fun key => (m.get? key).map (key, ·) := by
  rw [keys, List.filterMap_map]
  refine (List.filterMap_some.symm.trans (List.filterMap_congr fun entry hentry => ?_))
  have hfound : m.get? entry.1 = some entry.2 := get?_eq_some_iff.2 hentry
  simp [hfound]

/-- A map is known by its keys in their order and by what is found at them. -/
theorem eq_of_keys_eq {m n : OrderedMap α} (hkeys : m.keys = n.keys)
    (hget : ∀ key, m.get? key = n.get? key) : m = n := by
  apply ext
  rw [m.entries_eq_filterMap, n.entries_eq_filterMap, hkeys]
  simp only [hget]

theorem extend_insert (m n : OrderedMap α) (key : Text) (value : α) :
    m.extend (n.insert key value) = (m.extend n).insert key value := by
  refine eq_of_keys_eq ?_ fun other => ?_
  · have hmem : key ∈ (m.extend n).keys ↔ key ∈ m.keys ∨ key ∈ n.keys := mem_keys_insertAll
    have hkeys : ∀ other : OrderedMap α,
        (m.extend other).keys = m.keys ++ other.keys.filter fun key => !m.contains key :=
      fun other => keys_insertAll other.nodup_keys m
    rw [keys_insert, hkeys, hkeys, keys_insert]
    rw [hkeys] at hmem
    by_cases hn : key ∈ n.keys
    · rw [if_pos hn, if_pos (hmem.2 (Or.inr hn))]
    · by_cases hm : key ∈ m.keys
      · rw [if_neg hn, if_pos (hmem.2 (Or.inl hm)), List.filter_append]
        simp [contains, hm]
      · rw [if_neg hn, if_neg (mt hmem.1 (not_or.2 ⟨hm, hn⟩)), List.filter_append]
        simp [contains, hm]
  · rw [get?_extend, get?_insert, get?_insert, get?_extend]
    split
    · rfl
    · rfl

/-- Entries may be collected first, or inserted one by one behind what is there. -/
theorem extend_insertAll (m n : OrderedMap α) (inserted : List (Text × α)) :
    m.extend (n.insertAll inserted) = (m.extend n).insertAll inserted := by
  induction inserted generalizing n with
  | nil => rfl
  | cons entry inserted ih => rw [insertAll_cons, ih, extend_insert, insertAll_cons]

theorem ofList_append (entries more : List (Text × α)) :
    ofList (entries ++ more) = (ofList entries).extend (ofList more) := by
  have hcollect : (ofList entries).extend (ofList more) =
      ((ofList entries).extend empty).insertAll more := extend_insertAll _ empty more
  rw [hcollect, ofList, insertAll_append]
  rfl

/-! ### Entries chosen by their keys -/

theorem filter_put (p : Text → Bool) (key : Text) (value : α) (entries : List (Text × α)) :
    (put key value entries).filter (fun entry => p entry.1) =
      if p key then put key value (entries.filter fun entry => p entry.1)
      else entries.filter fun entry => p entry.1 := by
  induction entries with
  | nil => cases h : p key <;> simp [put, h]
  | cons entry entries ih =>
    by_cases hkey : entry.1 = key
    · subst hkey
      cases h : p entry.1 <;> simp [put, h]
    · cases h : p key <;> cases hentry : p entry.1 <;> simp [put, hkey, h, hentry, ih]

theorem filter_entries_insertAll (p : Text → Bool) (m : OrderedMap α)
    (inserted : List (Text × α)) :
    (m.insertAll inserted).entries.filter (fun entry => p entry.1) =
      (inserted.filter fun entry => p entry.1).foldl
        (fun entries entry => put entry.1 entry.2 entries)
        (m.entries.filter fun entry => p entry.1) := by
  induction inserted generalizing m with
  | nil => rfl
  | cons entry inserted ih =>
    rw [insertAll_cons, ih, insert, filter_put]
    cases h : p entry.1 <;> simp [h]

theorem entries_insertAll_eq_foldl (m : OrderedMap α) (inserted : List (Text × α)) :
    (m.insertAll inserted).entries =
      inserted.foldl (fun entries entry => put entry.1 entry.2 entries) m.entries := by
  induction inserted generalizing m with
  | nil => rfl
  | cons entry inserted ih => exact ih (m.insert entry.1 entry.2)

theorem filter_entries_ofList (p : Text → Bool) (entries : List (Text × α)) :
    (ofList entries).entries.filter (fun entry => p entry.1) =
      (ofList (entries.filter fun entry => p entry.1)).entries := by
  rw [ofList, filter_entries_insertAll, ofList, entries_insertAll_eq_foldl]
  rfl

/-! ### Repeated keys -/

/-- Of entries with one key that have been inserted, the last one counts. -/
theorem get?_insertAll_eq_lookup_reverse (m : OrderedMap α) (inserted : List (Text × α))
    (key : Text) :
    (m.insertAll inserted).get? key = (inserted.reverse.lookup key).or (m.get? key) := by
  induction inserted generalizing m with
  | nil => rfl
  | cons entry inserted ih =>
    obtain ⟨k, v⟩ := entry
    have hentry : (if key = k then some v else m.get? key) =
        ([(k, v)].lookup key).or (m.get? key) := by
      by_cases hkey : key = k
      · simp [hkey]
      · simp [List.lookup_cons, beq_eq_false_iff_ne.2 hkey, hkey]
    rw [insertAll_cons, ih, get?_insert, hentry, List.reverse_cons, List.lookup_append,
      Option.or_assoc]

theorem get?_ofList (entries : List (Text × α)) (key : Text) :
    (ofList entries).get? key = entries.reverse.lookup key := by
  rw [ofList, get?_insertAll_eq_lookup_reverse]
  exact Option.or_none

theorem lookup_map {β : Type u} (f : β → Text) (g : β → α) (key : Text) (items : List β) :
    (items.map fun item => (f item, g item)).lookup key =
      (items.find? (f · = key)).map g := by
  induction items with
  | nil => rfl
  | cons item items ih =>
    rw [List.map_cons, List.lookup_cons, List.find?_cons]
    by_cases h : f item = key
    · simp [h]
    · have hne : (key == f item) = false := beq_eq_false_iff_ne.2 fun heq => h heq.symm
      simp only [hne, h, decide_false, ih]

/-- Of the items that are given one key, the last one is found at it. -/
theorem get?_ofList_map {β : Type u} (f : β → Text) (g : β → α) (key : Text) (items : List β) :
    (ofList (items.map fun item => (f item, g item))).get? key =
      (items.filter (f · = key)).getLast?.map g := by
  rw [get?_ofList, ← List.map_reverse, lookup_map, List.getLast?_filter]

theorem put_map {β : Type u} (f : α → β) (key : Text) (value : α) (entries : List (Text × α)) :
    put key (f value) (entries.map (Prod.map id f)) =
      (put key value entries).map (Prod.map id f) := by
  induction entries with
  | nil => rfl
  | cons entry entries ih =>
    rw [List.map_cons, put, put, ih, Prod.map_fst, id]
    split <;> rfl

/-- Changing the values and collecting the entries may be done in either order. -/
theorem entries_ofList_map {β : Type u} (f : α → β) (entries : List (Text × α)) :
    (ofList (entries.map (Prod.map id f))).entries =
      (ofList entries).entries.map (Prod.map id f) := by
  suffices h : ∀ collected : List (Text × α),
      (entries.map (Prod.map id f)).foldl (fun entries entry => put entry.1 entry.2 entries)
          (collected.map (Prod.map id f)) =
        (entries.foldl (fun entries entry => put entry.1 entry.2 entries) collected).map
          (Prod.map id f) by
    rw [ofList, ofList, entries_insertAll_eq_foldl, entries_insertAll_eq_foldl]
    exact h []
  induction entries with
  | nil => exact fun _ => rfl
  | cons entry entries ih =>
    intro collected
    rw [List.map_cons, List.foldl_cons, List.foldl_cons, ← ih, ← put_map]
    rfl

/-! ### Related maps -/

variable {β : Type u}

/-- The entries have the same key and values that are related at that key. -/
def RelatedEntry (R : Text → α → β → Prop) (entry : Text × α) (entry' : Text × β) : Prop :=
  entry.1 = entry'.1 ∧ R entry.1 entry.2 entry'.2

/-- The maps have the same keys in the same order, with related values. -/
def Related (R : Text → α → β → Prop) (m : OrderedMap α) (n : OrderedMap β) : Prop :=
  List.Forall₂ (RelatedEntry R) m.entries n.entries

variable {R : Text → α → β → Prop} {m : OrderedMap α} {n : OrderedMap β}

theorem exists_of_mem_forall₂ {γ δ : Type u} {S : γ → δ → Prop} {l : List γ} {l' : List δ}
    (h : List.Forall₂ S l l') {a : γ} (ha : a ∈ l) : ∃ b ∈ l', S a b := by
  induction h with
  | nil => cases ha
  | @cons first first' _ _ hfirst _ ih =>
    rcases List.mem_cons.1 ha with rfl | ha
    · exact ⟨first', List.mem_cons_self, hfirst⟩
    · obtain ⟨b, hb, hrelated⟩ := ih ha
      exact ⟨b, List.mem_cons_of_mem first' hb, hrelated⟩

/-- Every entry of one map has its counterpart in the other. -/
theorem Related.exists_of_mem (h : Related R m n) {entry : Text × α} (hentry : entry ∈ m.entries) :
    ∃ entry' ∈ n.entries, RelatedEntry R entry entry' :=
  exists_of_mem_forall₂ h hentry

theorem Related.keys_eq (h : Related R m n) : m.keys = n.keys := by
  unfold Related at h
  unfold keys
  generalize m.entries = entries at h ⊢
  generalize n.entries = entries' at h ⊢
  induction h with
  | nil => rfl
  | cons hentry _ ih => rw [List.map_cons, List.map_cons, hentry.1, ih]

theorem Related.contains_eq (h : Related R m n) (key : Text) : m.contains key = n.contains key := by
  rw [contains, contains, h.keys_eq]

theorem related_put {key : Text} {value : α} {value' : β} {entries : List (Text × α)}
    {entries' : List (Text × β)} (h : List.Forall₂ (RelatedEntry R) entries entries')
    (hvalue : R key value value') :
    List.Forall₂ (RelatedEntry R) (put key value entries) (put key value' entries') := by
  induction h with
  | nil => exact List.Forall₂.cons ⟨rfl, hvalue⟩ List.Forall₂.nil
  | @cons entry entry' _ _ hentry hentries ih =>
    unfold put
    rw [hentry.1]
    split
    · exact List.Forall₂.cons ⟨rfl, hvalue⟩ hentries
    · exact List.Forall₂.cons hentry ih

theorem Related.insert (h : Related R m n) {key : Text} {value : α} {value' : β}
    (hvalue : R key value value') : Related R (m.insert key value) (n.insert key value') :=
  related_put h hvalue

theorem Related.insertAll (h : Related R m n) {entries : List (Text × α)}
    {entries' : List (Text × β)} (hentries : List.Forall₂ (RelatedEntry R) entries entries') :
    Related R (m.insertAll entries) (n.insertAll entries') := by
  induction hentries generalizing m n with
  | nil => exact h
  | @cons entry entry' _ _ hentry _ ih =>
    rw [insertAll_cons, insertAll_cons]
    apply ih
    rw [← hentry.1]
    exact h.insert hentry.2

theorem Related.extend (h : Related R m n) {m' : OrderedMap α} {n' : OrderedMap β}
    (h' : Related R m' n') : Related R (m.extend m') (n.extend n') :=
  h.insertAll h'

/-- Looking up a key in related maps gives related values, or nothing in both. -/
theorem Related.get?_rel (h : Related R m n) (key : Text) :
    Option.Rel (R key) (m.get? key) (n.get? key) := by
  unfold Related at h
  unfold get?
  generalize m.entries = entries at h ⊢
  generalize n.entries = entries' at h ⊢
  induction h with
  | nil => exact Option.Rel.none
  | @cons entry entry' _ _ hentry _ ih =>
    obtain ⟨k, v⟩ := entry
    obtain ⟨k', v'⟩ := entry'
    obtain ⟨rfl, hvalue⟩ := hentry
    rw [List.lookup_cons, List.lookup_cons]
    cases hk : key == k with
    | true =>
      obtain rfl := beq_iff_eq.1 hk
      exact Option.Rel.some hvalue
    | false => exact ih

end OrderedMap

end MarkerTemplate
