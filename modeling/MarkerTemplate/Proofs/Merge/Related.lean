import MarkerTemplate.Proofs.Merge.Depth
import MarkerTemplate.Proofs.OrderedMap
import MarkerTemplate.Proofs.Effect

/-!
# Merging with related mappings

If two mappings have the same keys with related values, merging with one of them is related to
merging with the other: a merge looks at keys and at the items of arrays, and leaves the rest to
substitution.

## Main definitions

- `Value.Comparison` — a relation on values that keeps data and the items of arrays
- `Merger.Respects` — a merger does related things with related mappings

## Design notes

What is compared is open: the relation `V` says which values correspond at a key, and `R` says what
is shown of the two computations. It has to hold for substitution; that it then holds for merging
and for rendering collections is shown here, once for all such relations.
-/

namespace MarkerTemplate

/-- Data is related to itself, and values that are related have the same
items. -/
structure Value.Comparison (V : Text → Value → Value → Prop) : Prop where
  refl_of_data : ∀ key value, (∀ supplier, value ≠ .supplied supplier) → V key value value
  items?_eq : ∀ {key value value'}, V key value value' → value.items? = value'.items?

variable {V : Text → Value → Value → Prop} {vars vars' : Variables}

/-! ### Mappings of data -/

section Data

variable (hV : Value.Comparison V)

include hV

theorem Value.Comparison.related_self
    (h : ∀ entry ∈ vars.entries, ∀ supplier, entry.2 ≠ .supplied supplier) :
    OrderedMap.Related V vars vars :=
  List.forall₂_same.2 fun entry hentry =>
    ⟨rfl, hV.refl_of_data entry.1 entry.2 (h entry hentry)⟩

omit hV in
theorem Value.ofJson_ne_supplied (json : Json) (supplier : Supplier) :
    Value.ofJson json ≠ .supplied supplier := by
  cases json <;> exact Value.noConfusion

theorem Value.Comparison.related_metaVariables (index : Nat) (key : Text) :
    OrderedMap.Related V (metaVariables index key) (metaVariables index key) := by
  refine hV.related_self fun entry hentry supplier => ?_
  have hmem := OrderedMap.mem_entries_ofList hentry
  simp only [List.mem_cons, List.not_mem_nil, or_false] at hmem
  obtain rfl | rfl | rfl := hmem <;> exact Value.noConfusion

omit hV in
/-- The members of an object are data. -/
theorem Variables.ofMembers_ne_supplied (members : List (Text × Json)) :
    ∀ entry ∈ (Variables.ofMembers members).entries, ∀ supplier, entry.2 ≠ .supplied supplier := by
  intro entry hentry supplier
  obtain ⟨member, -, rfl⟩ := List.mem_map.1 (OrderedMap.mem_entries_ofList hentry)
  exact Value.ofJson_ne_supplied member.2 supplier

omit hV in
theorem elementFields_ne_supplied (json : Json) :
    ∀ entry ∈ (elementFields json).entries, ∀ supplier, entry.2 ≠ .supplied supplier := by
  intro entry hentry
  cases json with
  | object members => exact Variables.ofMembers_ne_supplied members entry hentry
  | null | bool _ | number _ | string _ | array _ => cases hentry

theorem Value.Comparison.related_elementFields (json : Json) :
    OrderedMap.Related V (elementFields json) (elementFields json) :=
  hV.related_self (elementFields_ne_supplied json)

theorem Value.Comparison.related_insert_text (h : OrderedMap.Related V vars vars')
    (key s : Text) :
    OrderedMap.Related V (vars.insert key (.text s)) (vars'.insert key (.text s)) :=
  h.insert (hV.refl_of_data key (.text s) fun _ => Value.noConfusion)

/-! ### Elements -/

omit hV in
theorem forall₂_mapIdx {α β γ δ : Type} {R : α → β → Prop} {S : γ → δ → Prop} {l : List α}
    {l' : List β} (h : List.Forall₂ R l l') {f : Nat → α → γ} {g : Nat → β → δ}
    (hfg : ∀ index a b, R a b → S (f index a) (g index b)) :
    List.Forall₂ S (l.mapIdx f) (l'.mapIdx g) := by
  induction h generalizing f g with
  | nil => exact List.Forall₂.nil
  | cons hab _ ih =>
    rw [List.mapIdx_cons, List.mapIdx_cons]
    exact List.Forall₂.cons (hfg 0 _ _ hab) (ih fun index => hfg (index + 1))

/-- The elements of two collections have the same keys and related fields, one by one. -/
def Collection.Related (V : Text → Value → Value → Prop) (collection collection' : Collection) :
    Prop :=
  List.Forall₂ (OrderedMap.RelatedEntry fun _ => OrderedMap.Related V)
    collection.entries collection'.entries

theorem Value.Comparison.related_ofItems (items : List Json) :
    (Collection.ofItems items).Related V (.ofItems items) := by
  refine forall₂_mapIdx (R := fun fields fields' => OrderedMap.Related V fields fields')
    ?_ fun index _ _ hfields => ⟨rfl, hfields⟩
  refine List.forall₂_same.2 fun fields hfields => ?_
  obtain ⟨json, -, rfl⟩ := List.mem_map.1 hfields
  exact hV.related_elementFields json

/-- Related elements are rendered with related mappings. -/
theorem Collection.Related.scopes {collection collection' : Collection}
    (h : collection.Related V collection') (hvars : OrderedMap.Related V vars vars') :
    List.Forall₂ (OrderedMap.Related V) (collection.scopes vars) (collection'.scopes vars') := by
  refine forall₂_mapIdx h fun index entry entry' hentry => ?_
  obtain ⟨key, fields⟩ := entry
  obtain ⟨key', fields'⟩ := entry'
  obtain ⟨rfl, hfields⟩ := hentry
  exact ((hV.related_metaVariables index key).extend hvars).extend hfields

end Data

/-! ### Blocks -/

section Blocks

variable (h : OrderedMap.Related V vars vars')

include h

/-- The blocks of a template depend on the keys of a mapping alone. -/
theorem extractBlocks_eq_of_related (raw spacer : Text) :
    extractBlocks raw vars spacer = extractBlocks raw vars' spacer := by
  simp only [extractBlocks, Chunk.block, h.contains_eq]

theorem filterBlocks_eq_of_related (raw spacer : Text) :
    filterBlocks raw vars spacer = filterBlocks raw vars' spacer := by
  simp only [filterBlocks, Chunk.select, h.contains_eq]

/-- The same items stand under a name in both mappings. -/
theorem Value.Comparison.items?_get?_eq (hV : Value.Comparison V) (name : Text) :
    (vars.get? name).bind Value.items? = (vars'.get? name).bind Value.items? := by
  have hget := h.get?_rel name
  generalize vars.get? name = found at hget ⊢
  generalize vars'.get? name = found' at hget ⊢
  cases hget with
  | none => rfl
  | some hvalue => exact hV.items?_eq hvalue

end Blocks

/-! ### Rendering and merging -/

/-- The merger does related things with related mappings. -/
def Merger.Respects (V : Text → Value → Value → Prop)
    (R : (α : Type) → Effect α → Effect α → Prop) (merger : Merger) : Prop :=
  ∀ {vars vars' : Variables}, OrderedMap.Related V vars vars' → ∀ item,
    R Text (merger item vars) (merger item vars')

section Merge

variable {R : (α : Type) → Effect α → Effect α → Prop} (hR : Effect.Sequential R)

include hR

theorem rel_renderElements {merger : Merger} (hmerger : merger.Respects V R)
    (template spacer : Text) {scopes scopes' : List Variables}
    (h : List.Forall₂ (OrderedMap.Related V) scopes scopes') :
    R Text (renderElements merger template spacer scopes)
      (renderElements merger template spacer scopes') := by
  induction h with
  | nil => exact hR.rel_pure []
  | @cons scope scope' scopes scopes' hscope hscopes ih =>
    have hempty : scopes.isEmpty = scopes'.isEmpty := by
      cases hscopes <;> rfl
    unfold renderElements
    rw [hempty]
    apply hR.rel_bind (hmerger hscope template)
    intro fragment
    apply hR.rel_bind hR.rel_pause
    intro _
    exact hR.rel_bind ih fun fragments => hR.rel_pure _

variable (hV : Value.Comparison V)

include hV

theorem rel_renderCollectionWith {merger : Merger} (hmerger : merger.Respects V R)
    (template spacer : Text) {collection collection' : Collection}
    (hcollection : collection.Related V collection') (h : OrderedMap.Related V vars vars') :
    R Text (renderCollectionWith merger template collection vars spacer)
      (renderCollectionWith merger template collection' vars' spacer) :=
  rel_renderElements hR hmerger template spacer (hcollection.scopes hV h)

/-- Whatever follows the binding of array blocks, it starts from related mappings. -/
theorem rel_bindArrayBlocks_bind {merger : Merger} (hmerger : merger.Respects V R)
    (spacer : Text) (blocks : List (Text × Block)) (h : OrderedMap.Related V vars vars')
    {f : Variables → Effect Text}
    (hf : ∀ {vars vars'}, OrderedMap.Related V vars vars' → R Text (f vars) (f vars')) :
    R Text (bindArrayBlocks merger spacer blocks vars >>= f)
      (bindArrayBlocks merger spacer blocks vars' >>= f) := by
  induction blocks generalizing vars vars' with
  | nil =>
    simp only [bindArrayBlocks, pure_bind]
    exact hf h
  | cons entry blocks ih =>
    obtain ⟨key, block⟩ := entry
    unfold bindArrayBlocks
    split
    · exact ih h
    · rename_i name hname
      rw [hV.items?_get?_eq h name]
      split
      · rename_i items hitems
        rw [bind_assoc, bind_assoc]
        have hrendered := rel_renderCollectionWith hR hV hmerger block.elseText spacer
          (hV.related_ofItems items) h
        exact hR.rel_bind hrendered fun rendered => ih (hV.related_insert_text h key rendered)
      · exact ih (hV.related_insert_text h key block.content)

variable (hsubstitute : Merger.Respects V R substitute)

include hsubstitute

theorem rel_mergeStep {merger : Merger} (hmerger : merger.Respects V R)
    (h : OrderedMap.Related V vars vars') (raw spacer : Text) :
    R Text (mergeStep merger raw vars spacer) (mergeStep merger raw vars' spacer) := by
  unfold mergeStep
  simp only [extractBlocks_eq_of_related h]
  split
  · exact hsubstitute h _
  · apply rel_bindArrayBlocks_bind hR hV hmerger spacer _ h
    intro bound bound' hbound
    rw [filterBlocks_eq_of_related hbound]
    exact hsubstitute hbound _

/-- If substitution respects related mappings, so does merging. -/
theorem rel_merge (h : OrderedMap.Related V vars vars') (raw spacer : Text) :
    R Text (merge raw vars spacer) (merge raw vars' spacer) := by
  -- At the depth that merging reaches, items are merged by a step without further items.
  have hitem : Merger.Respects V R fun item scope => mergeStep substitute item scope [] :=
    fun hscope item => rel_mergeStep hR hV hsubstitute hsubstitute hscope item []
  rw [merge_eq_mergeStep, merge_eq_mergeStep]
  exact rel_mergeStep hR hV hsubstitute hitem h raw spacer

theorem rel_renderCollection {collection collection' : Collection}
    (hcollection : collection.Related V collection') (h : OrderedMap.Related V vars vars')
    (item spacer : Text) :
    R Text (renderCollection item collection vars spacer)
      (renderCollection item collection' vars' spacer) := by
  have hmerge : Merger.Respects V R fun item scope => merge item scope [] :=
    fun hscope item => rel_merge hR hV hsubstitute hscope item []
  exact rel_renderCollectionWith hR hV hmerge item spacer hcollection h

end Merge

end MarkerTemplate
