import MarkerTemplate.Proofs.Merge.Arrays
import MarkerTemplate.Proofs.Template.Filling
import MarkerTemplate.Proofs.Template.Reading

/-!
# Rendering the items of arrays

The block over an array comes to the item filled in for each element, with the spacer behind it
and between the elements.

## Main definitions

- `MarkerLeft` — the bodies of the markers that rendered items may still hold
-/

namespace MarkerTemplate

open Text (BraceFree Tokenised)

/-! ### The mapping for an element -/

/-- Looking up a name in the mapping for an element goes through its layers. -/
theorem get?_elementScope {vars vars' : Variables} {key : Text}
    (h : vars.get? key = vars'.get? key) (index : Nat) (element : Json) :
    (elementScope vars index element).get? key = elementLookup vars' index element key := by
  rw [elementScope, OrderedMap.get?_extend, OrderedMap.get?_extend, h, elementLookup]

theorem Variables.Workable.insert {vars : Variables} (h : vars.Workable) {key : Text}
    {value : Value} (hbound : Bound key value) : Variables.Workable (vars.insert key value) := by
  intro entry hentry
  rcases OrderedMap.mem_put hentry with rfl | hentry
  · exact hbound
  · exact h entry hentry

theorem Variables.Workable.extend {vars vars' : Variables} (h : vars.Workable)
    (h' : vars'.Workable) : Variables.Workable (vars.extend vars') := by
  intro entry hentry
  rcases OrderedMap.mem_entries_insertAll hentry with hentry | hentry
  · exact h' entry hentry
  · exact h entry hentry

theorem workable_metaVariables (index : Nat) :
    (metaVariables index (digitsOf index)).Workable := by
  intro entry hentry
  have hparity : BraceFree (if index % 2 = 0 then "Even" else "Odd").toList := by
    split <;> decide
  have hindex : IsName "_meta.index".toList := by decide
  have hkey : IsName "_meta.key".toList := by decide
  have hindexOddEven : IsName "_meta.indexOddEven".toList := by decide
  have hmem := OrderedMap.mem_entries_ofList hentry
  simp only [List.mem_cons, List.not_mem_nil, or_false] at hmem
  rcases hmem with rfl | rfl | rfl
  · exact Bound.value hindex trivial
  · exact Bound.value hkey (braceFree_digitsOf index)
  · exact Bound.value hindexOddEven hparity

theorem Json.BraceFreeItems.of_mem {items : List Json} (h : BraceFreeItems items) :
    ∀ item ∈ items, item.BraceFree := by
  induction items with
  | nil => exact fun _ hitem => absurd hitem List.not_mem_nil
  | cons first items ih =>
    intro item hitem
    rcases List.mem_cons.1 hitem with rfl | hitem
    · exact h.1
    · exact ih h.2 item hitem

theorem Json.BraceFreeMembers.of_mem {members : List (Text × Json)} (h : BraceFreeMembers members) :
    ∀ member ∈ members, member.2.BraceFree := by
  induction members with
  | nil => exact fun _ hmember => absurd hmember List.not_mem_nil
  | cons first members ih =>
    intro member hmember
    rcases List.mem_cons.1 hmember with rfl | hmember
    · exact h.2.1
    · exact ih h.2.2 member hmember

theorem workable_elementFields {element : Json} (h : element.BraceFree)
    (hname : ∀ field ∈ (elementFields element).entries, IsName field.1) :
    (elementFields element).Workable := by
  intro field hfield
  apply Bound.value (hname field hfield)
  cases element with
  | object members =>
    obtain ⟨member, hmember, rfl⟩ := List.mem_map.1 (OrderedMap.mem_entries_ofList hfield)
    exact Value.orderly_ofJson (Json.BraceFreeMembers.of_mem h member hmember) member.1
  | null | bool _ | number _ | string _ | array _ => cases hfield

/-- The elements of arrays in an orderly mapping have orderly fields. -/
theorem Variables.Orderly.workable_elementFields {vars : Variables} (h : vars.Orderly) {key : Text}
    {elements : List Json} (helements : (vars.get? key).bind Value.items? = some elements) :
    ∀ element ∈ elements, (elementFields element).Workable := by
  intro element helement
  obtain ⟨value, hvalue, hitems⟩ := Option.bind_eq_some_iff.1 helements
  have hentry := OrderedMap.get?_eq_some_iff.1 hvalue
  have horderly := h.orderly _ hentry
  refine MarkerTemplate.workable_elementFields ?_
    (h.isName_field _ hentry elements hitems element helement)
  obtain rfl : value = .structured (.array elements) := by
    unfold Value.items? at hitems
    split at hitems <;> cases hitems
    rfl
  exact Json.BraceFreeItems.of_mem horderly element helement

/-! ### The texts of items -/

theorem evalParts_congr {lookup lookup' : Text → Option Value}
    (h : ∀ name : Name, lookup name.text = lookup' name.text) (parts : List Inline) :
    evalParts lookup parts = evalParts lookup' parts := by
  unfold evalParts
  congr 1
  funext part
  cases part with
  | literal run => rfl
  | marker sweep name => simp only [Inline.eval, h]

variable {vars vars' : Variables} {spacer : Text}

/-- The item and the spacer behind it are filled in for an element. -/
theorem returns_item (hscope : vars.Workable) {lookup : Text → Option Value}
    (hlookup : ∀ name : Name, vars.get? name.text = lookup name.text)
    (hspacer : BraceFree spacer) (item : List Inline) :
    Effect.Returns (mergeStep substitute (textOf item ++ spacer) vars [])
      (evalParts lookup item ++ spacer) := by
  -- Without an opener in it, an item is merged by substitution alone.
  have hunmarked := (unmarked_textOf item).append (unmarked_of_notMem hspacer.1)
  rw [mergeStep_of_not_isInfix hunmarked.not_isInfix_opener, ← evalParts_congr hlookup item,
    ← hscope.settle_textOf item]
  have hsettle := settle_append hscope.gentle (tokenised_textOf item) spacer
  rw [settle_of_inert hscope.gentle hspacer.inert] at hsettle
  rw [← hsettle]
  exact hscope.prompt.returns_substitute _

/-- The items of an array come to their text, if the mapping agrees with an orderly one on
names. -/
theorem returns_renderCollectionWith (h : vars.Workable) (h' : vars'.Orderly)
    (hagree : ∀ name : Name, vars.get? name.text = vars'.get? name.text)
    (hspacer : BraceFree spacer) {name : Name} {elements : List Json}
    (helements : (vars'.get? name.text).bind Value.items? = some elements) (item : List Inline) :
    Effect.Returns
      (renderCollectionWith (fun item scope => mergeStep substitute item scope [])
        (textOf item ++ spacer) (.ofItems elements) vars spacer)
      (arrayText vars' spacer name item) := by
  have hfields := h'.workable_elementFields helements
  unfold renderCollectionWith arrayText
  rw [helements, scopes_ofItems]
  have hself : List.Forall₂ (fun element element' => element = element' ∧ element ∈ elements)
      elements elements :=
    List.forall₂_same.2 fun element helement => ⟨rfl, helement⟩
  refine returns_renderElements (forall₂_mapIdx hself ?_)
  rintro index element _ ⟨rfl, helement⟩
  have hscope : (elementScope vars index element).Workable :=
    ((workable_metaVariables index).extend h).extend (hfields element helement)
  exact returns_item hscope (fun name => get?_elementScope (hagree name) index element) hspacer item

/-! ### Markers that are left -/

/-- The body of a marker that may stand in the rendered items of the array `name`: one for which
there was no value, or the one for the items themselves. -/
inductive MarkerLeft (vars : Variables) (name : Name) : Text → Prop
  | plain (other : Name) : MarkerLeft vars name (Sweep.plain.body other.text)
  | json (other : Name) : vars.get? other.text = none →
      MarkerLeft vars name (Sweep.json.body other.text)
  | array : MarkerLeft vars name (name.text ++ Markup.arrayEnding)

theorem MarkerLeft.markerBody {name : Name} {body : Text} (h : MarkerLeft vars name body) :
    MarkerBody body := by
  cases h with
  | plain other => exact MarkerBody.name .plain other
  | json other _ => exact MarkerBody.name .json other
  | array => exact MarkerBody.array name

/-- A name that has no form as JSON for an element is not bound. -/
theorem get?_eq_none_of_form?_eq_none {index : Nat} {element : Json} {key : Text}
    (h : (elementLookup vars index element key).bind (·.form? .json key) = none) :
    vars.get? key = none := by
  cases hlookup : elementLookup vars index element key with
  | some value =>
    rw [hlookup] at h
    exact absurd h (value.form?_json_ne_none key)
  | none =>
    rw [elementLookup, Option.or_eq_none_iff, Option.or_eq_none_iff] at hlookup
    exact hlookup.2.1

/-- A part that is filled in for an element holds markers only if there was no value for them. -/
theorem tokenised_eval {index : Nat} {element : Json} (h : vars.Workable)
    (hfields : (elementFields element).Workable) (name : Name) (part : Inline) :
    Tokenised Sought (MarkerLeft vars name) (part.eval (elementLookup vars index element)) := by
  cases part with
  | literal run => exact run.braceFree.tokenised
  | marker sweep other =>
    have hscope : (elementScope vars index element).Workable :=
      ((workable_metaVariables index).extend h).extend hfields
    rw [Inline.eval]
    cases hform : (elementLookup vars index element other.text).bind
        (·.form? sweep other.text) with
    | some s =>
      obtain ⟨value, hvalue, hs⟩ := Option.bind_eq_some_iff.1 hform
      rw [← get?_elementScope rfl] at hvalue
      have hbound := hscope _ (OrderedMap.get?_eq_some_iff.1 hvalue)
      exact ((hbound.orderly_of_isName other.isName).inert_form hs).tokenised
    | none =>
      rw [Option.getD_none, Sweep.marker_eq_braced]
      apply Text.tokenised_braced (other.isName.braceFree_body sweep)
      cases sweep with
      | plain => exact MarkerLeft.plain other
      | json => exact MarkerLeft.json other (get?_eq_none_of_form?_eq_none hform)

/-- The text of an array block holds markers only if there was no value for them. -/
theorem tokenised_arrayText (h : vars.Orderly) (hspacer : BraceFree spacer) (name : Name)
    (item : List Inline) :
    Tokenised Sought (MarkerLeft vars name) (arrayText vars spacer name item) := by
  unfold arrayText
  split
  · rename_i elements helements
    refine Text.tokenised_intercalate hspacer.tokenised fun part hpart => ?_
    obtain ⟨index, hindex, rfl⟩ := List.mem_mapIdx.1 hpart
    have hfields := h.workable_elementFields helements elements[index] (List.getElem_mem hindex)
    refine Tokenised.append ?_ hspacer.tokenised
    exact Text.tokenised_flatMap fun part _ => tokenised_eval h.workable hfields name part
  · exact Text.tokenised_braced name.isName.braceFree_array MarkerLeft.array

end MarkerTemplate
