import MarkerTemplate.Proofs.Conditional.Printed
import MarkerTemplate.Proofs.Merge.Shapes

/-!
# Merging by way of array blocks

Merging binds the blocks over arrays and then substitutes in the chosen branches, whether there are
blocks or not.

## Main definitions

- `elementScope` — the mapping for an element of an array
- `isArrayKey` — the key stands for the items of an array
-/

namespace MarkerTemplate

/-! ### Templates with and without blocks -/

theorem mergeStep_eq_bind (merger : Merger) (raw : Text) (vars : Variables) (spacer : Text) :
    mergeStep merger raw vars spacer =
      bindArrayBlocks merger spacer
          (extractBlocks (expandShorthand raw) vars spacer).entries vars >>= fun bound =>
        substitute (filterBlocks (expandShorthand raw) bound spacer) bound := by
  unfold mergeStep
  simp only
  split
  · rename_i hempty
    have hentries := List.isEmpty_iff.1 hempty
    rw [hentries, bindArrayBlocks, pure_bind, filterBlocks_of_isEmpty hempty]
  · rfl

/-! ### Blocks over arrays -/

/-- Whether the key stands for the items of an array. -/
def isArrayKey (key : Text) : Bool :=
  (Text.stripSuffix? Markup.arrayEnding key).isSome

theorem bindArrayBlocks_filter (merger : Merger) (spacer : Text) (blocks : List (Text × Block))
    (vars : Variables) :
    bindArrayBlocks merger spacer (blocks.filter fun entry => isArrayKey entry.1) vars =
      bindArrayBlocks merger spacer blocks vars := by
  induction blocks generalizing vars with
  | nil => rfl
  | cons entry blocks ih =>
    obtain ⟨key, block⟩ := entry
    cases hname : Text.stripSuffix? Markup.arrayEnding key with
    | none =>
      have hkey : isArrayKey key = false := by rw [isArrayKey, hname, Option.isSome_none]
      rw [List.filter_cons_of_neg (by simp [hkey]), ih]
      simp only [bindArrayBlocks, hname]
    | some name =>
      have hkey : isArrayKey key = true := by rw [isArrayKey, hname, Option.isSome_some]
      rw [List.filter_cons_of_pos (by simp [hkey])]
      simp only [bindArrayBlocks, hname, ih]

/-! ### Elements -/

/-- The mapping that an element of an array is rendered with. -/
def elementScope (vars : Variables) (index : Nat) (element : Json) : Variables :=
  ((metaVariables index (digitsOf index)).extend vars).extend (elementFields element)

theorem scopes_ofItems (elements : List Json) (vars : Variables) :
    (Collection.ofItems elements).scopes vars = elements.mapIdx (elementScope vars) := by
  refine List.ext_getElem? fun index => ?_
  simp only [Collection.scopes, Collection.entries, Collection.ofItems, List.getElem?_mapIdx,
    List.getElem?_map, Option.map_map]
  rfl

/-- Rendering puts the spacer between the texts that the merger comes to. -/
theorem returns_renderElements {merger : Merger} {template spacer : Text}
    {scopes : List Variables} {texts : List Text}
    (h : List.Forall₂ (fun scope text => Effect.Returns (merger template scope) text)
      scopes texts) :
    Effect.Returns (renderElements merger template spacer scopes) (spacer.intercalate texts) := by
  induction h with
  | nil => exact Effect.returns_pure []
  | @cons scope text scopes texts hscope hscopes ih =>
    unfold renderElements
    refine hscope.bind (Effect.returns_pause.bind (ih.bind ?_))
    cases hscopes with
    | nil => simpa using Effect.returns_pure text
    | cons _ _ =>
      rw [List.intercalate_cons_cons]
      exact Effect.returns_pure _

end MarkerTemplate
