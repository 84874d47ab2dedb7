import MarkerTemplate.Proofs.Template.Items

/-!
# The meaning of templates

Merging a well-formed template comes to its meaning, piece by piece.

## Main definitions

- `withArrays` — the mapping in which the blocks over arrays are bound to their texts

## Design notes

The visits of the names come before those of the rendered items, since new keys go to the end of a
mapping, and those of JSON come last. A marker that is left in rendered items had no value, or none
for a text: so no visit that is still to come looks for it.
-/

namespace MarkerTemplate

open Text (BraceFree Tokenised)

/-! ### Binding the blocks over arrays -/

theorem isArrayKey_array (name : Text) : isArrayKey (name ++ Markup.arrayEnding) = true := by
  rw [isArrayKey, Text.stripSuffix?_append, Option.isSome_some]

theorem IsName.isArrayKey_eq_false {key : Text} (h : IsName key) : isArrayKey key = false := by
  rw [isArrayKey, Option.isSome_eq_false_iff, Option.isNone_iff_eq_none]
  refine Option.eq_none_iff_forall_ne_some.2 fun name hname => ?_
  exact h.ne_array name (Text.stripSuffix?_eq_some_iff.1 hname)

/-- The block over an array, by its key. -/
def arrayEntry (vars : Variables) (spacer : Text) (array : Name × List Inline) : Text × Block :=
  (array.1.text ++ Markup.arrayEnding,
    ⟨array.1.text ++ Markup.arrayEnding, arrayMarker array.1.text, textOf array.2 ++ spacer,
      vars.contains (array.1.text ++ Markup.arrayEnding)⟩)

/-- The text of the block over an array, by its key. -/
def arrayBinding (vars : Variables) (spacer : Text) (array : Name × List Inline) : Text × Value :=
  (array.1.text ++ Markup.arrayEnding, .text (arrayText vars spacer array.1 array.2))

/-- The visit that puts the text of the block in. -/
def itemsVisit (vars : Variables) (spacer : Text) (array : Name × List Inline) : Visit :=
  ⟨.plain, array.1.text ++ Markup.arrayEnding, .text (arrayText vars spacer array.1 array.2)⟩

/-- The mapping with the texts of the blocks over arrays. -/
def withArrays (vars : Variables) (spacer : Text) (arrays : List (Name × List Inline)) :
    Variables :=
  vars.insertAll (arrays.map (arrayBinding vars spacer))

/-- Different arrays have different keys for their items. -/
theorem arrayKey_inj {name name' : Name} :
    name.text ++ Markup.arrayEnding = name'.text ++ Markup.arrayEnding ↔ name = name' := by
  cases name
  cases name'
  simp

theorem nodup_arrayKeys {arrays : List (Name × List Inline)}
    (h : (arrays.map Prod.fst).Nodup) :
    ((arrays.map Prod.fst).map fun name : Name => name.text ++ Markup.arrayEnding).Nodup :=
  h.map fun _ _ heq => arrayKey_inj.1 heq

theorem nodup_bindings {vars : Variables} {spacer : Text} {arrays : List (Name × List Inline)}
    (h : (arrays.map Prod.fst).Nodup) :
    ((arrays.map (arrayBinding vars spacer)).map Prod.fst).Nodup := by
  have hkeys := nodup_arrayKeys h
  rw [List.map_map] at hkeys ⊢
  exact hkeys

/-- Of the blocks of a template, those over arrays have keys that stand for items. -/
theorem filter_entries (vars : Variables) (spacer : Text) (pieces : List Piece) :
    (pieces.filterMap (Piece.entry? vars spacer)).filter (fun entry => isArrayKey entry.1) =
      (pieces.filterMap Piece.array?).map (arrayEntry vars spacer) := by
  induction pieces with
  | nil => rfl
  | cons piece pieces ih =>
    cases piece with
    | inline part => exact ih
    | block name content alternative =>
      rw [List.filterMap_cons_some (f := Piece.entry? vars spacer) rfl, List.filter_cons_of_neg, ih]
      · rfl
      · simp [name.isName.isArrayKey_eq_false]
    | array name item =>
      rw [List.filterMap_cons_some (f := Piece.entry? vars spacer) rfl,
        List.filter_cons_of_pos (by simp [isArrayKey_array]), ih]
      rfl

/-- The blocks of a written template that are bound are those over its arrays. -/
theorem filter_entries_extractBlocks (vars : Variables) (spacer : Text) (template : Template) :
    (extractBlocks (expandShorthand template.text) vars spacer).entries.filter
        (fun entry => isArrayKey entry.1) =
      (template.pieces.filterMap Piece.array?).map (arrayEntry vars spacer) := by
  rw [Template.text, expandShorthand_pieces, extractBlocks_eq_ofList, blockList_pieces,
    OrderedMap.filter_entries_ofList, filter_entries]
  apply OrderedMap.entries_ofList
  have hkeys := nodup_arrayKeys template.nodup_arrays
  rw [List.map_map] at hkeys ⊢
  exact hkeys

section Bind

variable {vars : Variables} {spacer : Text} (h : vars.Orderly) (hspacer : BraceFree spacer)

include h hspacer

/-- What a block over an array is bound to keeps the mapping workable. -/
theorem bound_arrayBinding (array : Name × List Inline) :
    Bound (arrayBinding vars spacer array).1 (arrayBinding vars spacer array).2 :=
  Bound.rendered array.1
    ((tokenised_arrayText h hspacer array.1 array.2).mono fun _ hleft => hleft.markerBody)

/-- The blocks over arrays are bound to their texts, one after another. The mapping grows while
this is done, but only by keys that are not names. -/
theorem returns_bindArrayBlocks (arrays : List (Name × List Inline)) {bound : Variables}
    (hbound : bound.Workable)
    (hagree : ∀ name : Name, bound.get? name.text = vars.get? name.text) :
    Effect.Returns
      (bindArrayBlocks (fun item scope => mergeStep substitute item scope []) spacer
        (arrays.map (arrayEntry vars spacer)) bound)
      (bound.insertAll (arrays.map (arrayBinding vars spacer))) := by
  induction arrays generalizing bound with
  | nil => exact Effect.returns_pure bound
  | cons array arrays ih =>
    obtain ⟨name, item⟩ := array
    -- The new key is not a name, so names are found as before.
    have hnext := ih (hbound.insert (bound_arrayBinding h hspacer (name, item)))
      fun other => by
        rw [OrderedMap.get?_insert]
        exact (if_neg (other.isName.ne_array name.text)).trans (hagree other)
    rw [List.map_cons, List.map_cons, OrderedMap.insertAll_cons]
    simp only [arrayEntry, bindArrayBlocks, Text.stripSuffix?_append, hagree name]
    cases helements : (vars.get? name.text).bind Value.items? with
    | some elements =>
      exact (returns_renderCollectionWith hbound h hagree hspacer helements item).bind hnext
    | none =>
      have htext : arrayText vars spacer name item = arrayMarker name.text := by
        rw [arrayText, helements]
      simpa only [arrayBinding, htext] using hnext

end Bind

/-! ### The mapping with the texts of arrays -/

section Bound

variable {vars : Variables} {spacer : Text} {arrays : List (Name × List Inline)}

theorem get?_withArrays (harrays : (arrays.map Prod.fst).Nodup) (name : Name) :
    (withArrays vars spacer arrays).get? name.text = vars.get? name.text := by
  rw [withArrays, OrderedMap.get?_insertAll (nodup_bindings harrays)]
  have hnone : (arrays.map (arrayBinding vars spacer)).lookup name.text = none := by
    refine List.lookup_eq_none_iff.2 fun entry hentry => ?_
    obtain ⟨array, -, rfl⟩ := List.mem_map.1 hentry
    exact bne_iff_ne.2 (name.isName.ne_array array.1.text)
  rw [hnone, Option.none_or]

theorem contains_withArrays (harrays : (arrays.map Prod.fst).Nodup) (name : Name) :
    (withArrays vars spacer arrays).contains name.text = vars.contains name.text := by
  rw [OrderedMap.contains_eq_isSome, OrderedMap.contains_eq_isSome, get?_withArrays harrays]

variable (h : vars.Orderly) (hspacer : BraceFree spacer) (harrays : (arrays.map Prod.fst).Nodup)

include h

theorem entries_withArrays (harrays : (arrays.map Prod.fst).Nodup) :
    (withArrays vars spacer arrays).entries =
      vars.entries ++ arrays.map (arrayBinding vars spacer) := by
  apply OrderedMap.entries_insertAll
  rw [List.nodup_append]
  refine ⟨vars.keys_nodup, nodup_bindings harrays, ?_⟩
  rintro key hkey _ hkey' rfl
  obtain ⟨entry, hentry, rfl⟩ := List.mem_map.1 hkey
  rw [List.map_map] at hkey'
  obtain ⟨array, -, heq⟩ := List.mem_map.1 hkey'
  exact (h.isName entry hentry).ne_array array.1.text heq.symm

/-- Behind the visit for the items of an array there are only visits for the items of others and
visits for JSON. -/
theorem exists_visits_eq_append (harrays : (arrays.map Prod.fst).Nodup)
    {array : Name × List Inline} (harray : array ∈ arrays) :
    ∃ before after,
      (withArrays vars spacer arrays).visits =
          before ++ itemsVisit vars spacer array :: after ∧
        ∀ visit ∈ after, visit.sweep = .json ∨ ∃ t, visit.key = t ++ Markup.arrayEnding := by
  have hentries : (withArrays vars spacer arrays).entries =
      vars.entries ++ arrays.map (arrayBinding vars spacer) := entries_withArrays h harrays
  obtain ⟨first, later, rfl⟩ := List.append_of_mem harray
  -- All plain visits come first, in the order of the entries, and then those for JSON.
  let visitOf (sweep : Sweep) (entry : Text × Value) : Visit := ⟨sweep, entry.1, entry.2⟩
  refine ⟨(vars.entries ++ first.map (arrayBinding vars spacer)).map (visitOf .plain),
    (later.map (arrayBinding vars spacer)).map (visitOf .plain) ++
      (withArrays vars spacer (first ++ array :: later)).entries.map (visitOf .json), ?_, ?_⟩
  · rw [Variables.visits, hentries]
    simp [visitOf, itemsVisit, arrayBinding]
  · intro visit hvisit
    rcases List.mem_append.1 hvisit with hvisit | hvisit
    · rw [List.map_map] at hvisit
      obtain ⟨other, -, rfl⟩ := List.mem_map.1 hvisit
      exact Or.inr ⟨other.1.text, rfl⟩
    · obtain ⟨entry, -, rfl⟩ := List.mem_map.1 hvisit
      exact Or.inl rfl

theorem contains_arrayKey (harrays : (arrays.map Prod.fst).Nodup) {array : Name × List Inline}
    (harray : array ∈ arrays) :
    (withArrays vars spacer arrays).contains (array.1.text ++ Markup.arrayEnding) = true := by
  rw [OrderedMap.contains, decide_eq_true_iff, OrderedMap.keys, entries_withArrays h harrays,
    List.map_append, List.map_map]
  exact List.mem_append_right _ (List.mem_map.2 ⟨array, harray, rfl⟩)

include hspacer harrays

theorem workable_withArrays : (withArrays vars spacer arrays).Workable := by
  intro entry hentry
  rw [entries_withArrays h harrays] at hentry
  rcases List.mem_append.1 hentry with hentry | hentry
  · exact h.workable entry hentry
  · obtain ⟨array, -, rfl⟩ := List.mem_map.1 hentry
    exact bound_arrayBinding h hspacer array

/-- A marker that is left in rendered items is looked for by no visit that is still to come. -/
theorem body_ne_of_markerLeft {visit : Visit}
    (hvisit : visit ∈ (withArrays vars spacer arrays).visits)
    (hlate : visit.sweep = .json ∨ ∃ t, visit.key = t ++ Markup.arrayEnding) {name : Name}
    (hname : visit.body ≠ name.text ++ Markup.arrayEnding) :
    ¬ MarkerLeft vars name visit.body := by
  intro hleft
  have hhead := (workable_withArrays h hspacer harrays).visit_head_ne hvisit
  generalize hbody : visit.body = body at hleft
  cases hleft with
  | plain other =>
    obtain ⟨hsweep, hkey⟩ := (Sweep.body_inj hhead other.isName.head?_ne).1 hbody
    rcases hlate with hjson | ⟨t, ht⟩
    · rw [hjson] at hsweep
      cases hsweep
    · exact other.isName.ne_array t (hkey.symm.trans ht)
  | json other hnone =>
    have hkey := ((Sweep.body_inj hhead other.isName.head?_ne).1 hbody).2
    have hfound := OrderedMap.get?_eq_some_iff.2 (mem_visits.1 hvisit)
    rw [hkey, get?_withArrays harrays, hnone] at hfound
    cases hfound
  | array => exact hname hbody

/-- The marker for the items of an array becomes the text of the block, and nothing is filled in
there any more. -/
theorem settle_arrayMarker {array : Name × List Inline} (harray : array ∈ arrays) :
    settle (withArrays vars spacer arrays).visits (arrayMarker array.1.text) =
      arrayText vars spacer array.1 array.2 := by
  have hworkable := workable_withArrays h hspacer harrays
  have hgentle := hworkable.gentle
  have hbodies := hworkable.nodup_bodies
  obtain ⟨before, after, hvisits, hlate⟩ : ∃ before after,
      (withArrays vars spacer arrays).visits = before ++ itemsVisit vars spacer array :: after ∧
        ∀ visit ∈ after, visit.sweep = .json ∨ ∃ t, visit.key = t ++ Markup.arrayEnding :=
    exists_visits_eq_append h harrays harray
  have hmem : ∀ visit ∈ after, visit ∈ (withArrays vars spacer arrays).visits := by
    intro visit hvisit
    rw [hvisits]
    exact List.mem_append_right before (List.mem_cons_of_mem _ hvisit)
  have hafter : ∀ visit ∈ after, visit.Gentle Sought MarkerBody := fun visit hvisit =>
    hgentle visit (hmem visit hvisit)
  rw [hvisits, List.map_append, List.map_cons, List.nodup_append, List.nodup_cons] at hbodies
  obtain ⟨-, ⟨hfresh, -⟩, hdisjoint⟩ := hbodies
  rw [hvisits] at hgentle ⊢
  -- The one visit for this marker puts the text in; those behind it find nothing in the text.
  have hmarker := settle_braced hgentle fun other hother =>
    hdisjoint _ (List.mem_map_of_mem hother) _ List.mem_cons_self
  apply hmarker.trans
  apply settle_eq_self hafter (tokenised_arrayText h hspacer array.1 array.2)
  intro visit hvisit
  apply body_ne_of_markerLeft h hspacer harrays (hmem visit hvisit) (hlate visit hvisit)
  exact fun heq => hfresh (List.mem_map.2 ⟨visit, hvisit, heq⟩)

/-! ### Filling in the pieces -/

/-- What stands between spacers is filled in by itself. -/
theorem settle_between_spacers {t u : Text} (ht : Tokenised Sought MarkerBody t)
    (hu : settle (withArrays vars spacer arrays).visits t = u) :
    settle (withArrays vars spacer arrays).visits (spacer ++ t ++ spacer) =
      spacer ++ u ++ spacer := by
  have hgentle := (workable_withArrays h hspacer harrays).gentle
  rw [settle_append hgentle (hspacer.tokenised.append ht), settle_append hgentle hspacer.tokenised,
    settle_of_inert hgentle hspacer.inert, hu]

theorem settle_parts (parts : List Inline) :
    settle (withArrays vars spacer arrays).visits (textOf parts) =
      evalParts vars.get? parts := by
  rw [(workable_withArrays h hspacer harrays).settle_textOf parts]
  exact evalParts_congr (get?_withArrays harrays) parts

/-- With its branch chosen, a piece is filled in to its meaning. -/
theorem settle_filtered {piece : Piece}
    (hpiece : ∀ array, piece.array? = some array → array ∈ arrays) :
    settle (withArrays vars spacer arrays).visits
        (piece.filtered (withArrays vars spacer arrays) spacer) =
      piece.eval vars spacer := by
  cases piece with
  | inline part =>
    have hparts := settle_parts h hspacer harrays [part]
    rw [textOf, evalParts, List.flatMap_singleton, List.flatMap_singleton] at hparts
    exact hparts
  | block name content alternative =>
    rw [Piece.filtered_block, contains_withArrays harrays, Piece.eval_block]
    split
    · exact settle_between_spacers h hspacer harrays (tokenised_textOf content)
        (settle_parts h hspacer harrays content)
    · split
      · rename_i alternative
        exact settle_between_spacers h hspacer harrays (tokenised_textOf alternative)
          (settle_parts h hspacer harrays alternative)
      · exact settle_of_inert (workable_withArrays h hspacer harrays).gentle hspacer.inert
  | array name item =>
    have harray := hpiece (name, item) rfl
    rw [Piece.filtered_array _ _ _ _ (contains_arrayKey h harrays harray), Piece.eval]
    refine settle_between_spacers h hspacer harrays ?_
      (settle_arrayMarker h hspacer harrays harray)
    exact Text.tokenised_braced name.isName.braceFree_array (MarkerBody.array name)

/-- The piece with its branch chosen is made of literals and markers. -/
theorem tokenised_filtered {piece : Piece}
    (hpiece : ∀ array, piece.array? = some array → array ∈ arrays) :
    Tokenised Sought MarkerBody (piece.filtered (withArrays vars spacer arrays) spacer) := by
  have hspacers : ∀ {t : Text}, Tokenised Sought MarkerBody t →
      Tokenised Sought MarkerBody (spacer ++ t ++ spacer) := fun ht =>
    (hspacer.tokenised.append ht).append hspacer.tokenised
  cases piece with
  | inline part => exact part.tokenised_text
  | block name content alternative =>
    rw [Piece.filtered_block]
    split
    · exact hspacers (tokenised_textOf content)
    · split
      · rename_i alternative
        exact hspacers (tokenised_textOf alternative)
      · exact hspacer.tokenised
  | array name item =>
    rw [Piece.filtered_array _ _ _ _ (contains_arrayKey h harrays (hpiece (name, item) rfl))]
    exact hspacers (Text.tokenised_braced name.isName.braceFree_array (MarkerBody.array name))

end Bound

/-! ### Merging -/

/-- Merging a well-formed template comes to its meaning: to the text that its pieces give one by
one, from left to right. -/
theorem result_merge_text (template : Template) {vars : Variables} (h : vars.Orderly)
    {spacer : Text} (hspacer : BraceFree spacer) (history : History) :
    (merge template.text vars spacer history).result = some (template.eval vars spacer) := by
  have harrays := template.nodup_arrays
  have hpiece : ∀ piece ∈ template.pieces, ∀ array, piece.array? = some array →
      array ∈ template.pieces.filterMap Piece.array? := fun piece hpiece array harray =>
    List.mem_filterMap.2 ⟨piece, hpiece, harray⟩
  generalize hbound : template.pieces.filterMap Piece.array? = arrays at harrays hpiece
  have hworkable := workable_withArrays h hspacer harrays
  -- The blocks over arrays are bound, the branches are chosen, and the rest is substitution.
  have hbind := returns_bindArrayBlocks h hspacer arrays h.workable fun _ => rfl
  rw [← hbound, ← filter_entries_extractBlocks, bindArrayBlocks_filter, hbound] at hbind
  have hfilter : filterBlocks (expandShorthand template.text) (withArrays vars spacer arrays)
      spacer = template.pieces.flatMap (Piece.filtered (withArrays vars spacer arrays) spacer) := by
    rw [Template.text, expandShorthand_pieces, filterBlocks_pieces]
  have hsettle : settle (withArrays vars spacer arrays).visits
      (filterBlocks (expandShorthand template.text) (withArrays vars spacer arrays) spacer) =
        template.eval vars spacer := by
    rw [hfilter]
    exact settle_flatMap hworkable.gentle
      (fun piece hmem => tokenised_filtered h hspacer harrays (hpiece piece hmem))
      fun piece hmem => settle_filtered h hspacer harrays (hpiece piece hmem)
  rw [merge_eq_mergeStep, mergeStep_eq_bind, ← hsettle]
  refine Effect.Returns.bind hbind ?_ history
  exact hworkable.prompt.returns_substitute _

/-- A template with a piece of every kind. -/
def menu : Template where
  pieces := [
    .inline (.literal ⟨"Hi ".toList, by decide⟩),
    .inline (.marker .json ⟨"guest".toList, by decide⟩),
    .block ⟨"closed".toList, by decide⟩ [.literal ⟨"no".toList, by decide⟩]
      (some [.marker .plain ⟨"day".toList, by decide⟩]),
    .array ⟨"dishes".toList, by decide⟩
      [.marker .plain ⟨"dish".toList, by decide⟩, .marker .plain ⟨"_meta.index".toList, by decide⟩]]
  nodup_arrays := by decide

/-- Values for it, one of which has to be waited for. -/
def menuVariables : Variables where
  entries := [
    ("guest".toList, .text "Bo".toList),
    ("day".toList, .supplied ⟨0, .future 2, fun key _ => key ++ ['!']⟩),
    ("dishes".toList, .structured (.array [
      .object [("dish".toList, .string "soup".toList)],
      .object [("dish".toList, .string "cake".toList)]]))]
  nodup_keys := by decide

/-- Each piece of the template gives its part of the text. -/
theorem result_merge_text_menu :
    menuVariables.Orderly ∧ BraceFree ['/'] ∧
      (merge menu.text menuVariables ['/'] []).result =
        some "Hi \"Bo\"/day!//soup0//cake1//".toList := by
  have horderly : menuVariables.Orderly := by
    refine ⟨by decide, ?_, ?_⟩
    · simp only [menuVariables, List.forall_mem_cons, List.not_mem_nil, false_implies,
        implies_true, and_true]
      refine ⟨?_, ⟨by decide, fun _ _ => rfl, ?_⟩, ?_⟩
      · show BraceFree _
        decide
      · decide
      · simp only [Value.Orderly, Json.BraceFree, Json.BraceFreeItems, Json.BraceFreeMembers]
        decide
    · simp only [menuVariables, List.forall_mem_cons, List.not_mem_nil, false_implies,
        implies_true, and_true]
      refine ⟨?_, ?_, ?_⟩
      · intro _ h
        cases h
      · intro _ h
        cases h
      · intro elements h
        cases h
        decide
  refine ⟨horderly, by decide, ?_⟩
  rw [result_merge_text menu horderly (by decide) []]
  rfl

end MarkerTemplate
