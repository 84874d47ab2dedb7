import MarkerTemplate.Proofs.Template.Meaning

/-!
# Several blocks over one array

A template may have several blocks over one array. The items of an array are bound to one key,
where the last block counts, so all blocks over an array show the item of the last one. Everything
else in a template is independent of what stands before it and behind it.

## Main definitions

- `lastItem?` — the item of the last block over an array
- `evalPieces` — the meaning of pieces in which arrays may be repeated
- `ShowAlike` — where two templates have blocks over the same array, their last ones show the same

## Design notes

Blocks are collected by key before they are rendered. What is collected is a list without
repetitions, `lastArrays`, so that the mapping and the visits are those of a template with one block
for each array. A block with its branch chosen does not show its item, but the marker that stands
for it: so it does not matter that the item was taken from another block.
-/

namespace MarkerTemplate

open Text (BraceFree)

/-- The item of the last block over the array. -/
def lastItem? (pieces : List Piece) (name : Name) : Option (List Inline) :=
  (pieces.filterMap Piece.array?).reverse.lookup name

/-- The piece, where a block over an array has the item that is given for the array. -/
def Piece.withItem (items : Name → Option (List Inline)) : Piece → Piece
  | .array name item => .array name ((items name).getD item)
  | .inline part => .inline part
  | .block name content alternative => .block name content alternative

/-- The meaning of pieces one behind the other. All blocks over an array show the item of the last
one. -/
def evalPieces (vars : Variables) (spacer : Text) (pieces : List Piece) : Text :=
  pieces.flatMap fun piece => (piece.withItem (lastItem? pieces)).eval vars spacer

/-- If both have a block over an array, the last ones show the same text. -/
def ShowAlike (vars : Variables) (spacer : Text) (first second : List Piece) : Prop :=
  ∀ name item item', lastItem? first name = some item → lastItem? second name = some item' →
    arrayText vars spacer name item = arrayText vars spacer name item'

/-! ### Items of last blocks -/

theorem lastItem?_append (first second : List Piece) (name : Name) :
    lastItem? (first ++ second) name = (lastItem? second name).or (lastItem? first name) := by
  rw [lastItem?, List.filterMap_append, List.reverse_append, List.lookup_append]
  rfl

theorem exists_lastItem?_of_mem {pieces : List Piece} {name : Name} {item : List Inline}
    (h : .array name item ∈ pieces) : ∃ last, lastItem? pieces name = some last := by
  rw [← Option.isSome_iff_exists, lastItem?, List.lookup_isSome_iff]
  refine ⟨(name, item), List.mem_reverse.2 (List.mem_filterMap.2 ⟨_, h, rfl⟩), ?_⟩
  exact beq_self_eq_true name

/-- The blocks over arrays by the keys of their items. -/
def lastArrays (pieces : List Piece) : OrderedMap (Name × List Inline) :=
  .ofList ((pieces.filterMap Piece.array?).map fun array =>
    (array.1.text ++ Markup.arrayEnding, array))

/-- One block for each array: the last one, at the place of the first one. -/
def distinctArrays (pieces : List Piece) : List (Name × List Inline) :=
  (lastArrays pieces).entries.map Prod.snd

theorem key_of_mem_lastArrays {pieces : List Piece} {entry : Text × Name × List Inline}
    (h : entry ∈ (lastArrays pieces).entries) :
    entry.1 = entry.2.1.text ++ Markup.arrayEnding := by
  obtain ⟨array, -, rfl⟩ := List.mem_map.1 (OrderedMap.mem_entries_ofList h)
  rfl

theorem nodup_distinctArrays (pieces : List Piece) :
    ((distinctArrays pieces).map Prod.fst).Nodup := by
  have hkeys : (lastArrays pieces).entries.map Prod.fst =
      ((distinctArrays pieces).map Prod.fst).map fun name => name.text ++ Markup.arrayEnding := by
    rw [distinctArrays, List.map_map, List.map_map]
    exact List.map_congr_left fun entry hentry => key_of_mem_lastArrays hentry
  have hnodup := (lastArrays pieces).nodup_keys
  rw [hkeys] at hnodup
  exact hnodup.of_map _

theorem lookup_arrayKeys (arrays : List (Name × List Inline)) (name : Name) :
    (arrays.map fun array => (array.1.text ++ Markup.arrayEnding, array)).lookup
        (name.text ++ Markup.arrayEnding) =
      (arrays.lookup name).map fun item => (name, item) := by
  induction arrays with
  | nil => rfl
  | cons array arrays ih =>
    obtain ⟨other, item⟩ := array
    rw [List.map_cons, List.lookup_cons, List.lookup_cons, ih]
    by_cases hname : name = other
    · subst hname
      simp
    · have hkey := mt arrayKey_inj.1 hname
      simp [beq_eq_false_iff_ne.2 hname, beq_eq_false_iff_ne.2 hkey]

theorem mem_distinctArrays {pieces : List Piece} {name : Name} {item : List Inline}
    (h : lastItem? pieces name = some item) : (name, item) ∈ distinctArrays pieces := by
  have hfound : (lastArrays pieces).get? (name.text ++ Markup.arrayEnding) =
      some (name, item) := by
    rw [lastArrays, OrderedMap.get?_ofList, ← List.map_reverse, lookup_arrayKeys, ← lastItem?, h]
    rfl
  exact List.mem_map.2 ⟨_, OrderedMap.get?_eq_some_iff.1 hfound, rfl⟩

/-- Where a template has several blocks over one array, the last one is bound. -/
theorem filter_entries_extractBlocks_pieces (vars : Variables) (spacer : Text)
    (pieces : List Piece) :
    (extractBlocks (expandShorthand (pieces.flatMap Piece.text)) vars spacer).entries.filter
        (fun entry => isArrayKey entry.1) =
      (distinctArrays pieces).map (arrayEntry vars spacer) := by
  let blockOf (array : Name × List Inline) : Block := (arrayEntry vars spacer array).2
  have hentries : (pieces.filterMap Piece.array?).map (arrayEntry vars spacer) =
      ((pieces.filterMap Piece.array?).map fun array =>
        (array.1.text ++ Markup.arrayEnding, array)).map (Prod.map id blockOf) := by
    rw [List.map_map]
    rfl
  rw [expandShorthand_pieces, extractBlocks_eq_ofList, blockList_pieces,
    OrderedMap.filter_entries_ofList, filter_entries, hentries, OrderedMap.entries_ofList_map,
    distinctArrays, List.map_map]
  refine List.map_congr_left fun entry hentry => Prod.ext ?_ rfl
  exact key_of_mem_lastArrays hentry

/-! ### Pieces with items of other blocks -/

/-- With the items of last blocks, the blocks over arrays are those that are bound. -/
theorem mem_distinctArrays_of_withItem {pieces : List Piece} {piece : Piece}
    (h : piece ∈ pieces) {array : Name × List Inline}
    (harray : (piece.withItem (lastItem? pieces)).array? = some array) :
    array ∈ distinctArrays pieces := by
  cases piece with
  | inline part => cases harray
  | block name content alternative => cases harray
  | array name item =>
    obtain ⟨last, hlast⟩ := exists_lastItem?_of_mem h
    cases harray
    rw [hlast]
    exact mem_distinctArrays hlast

/-- With its branch chosen, a block over an array does not show its item. -/
theorem Piece.filtered_withItem {bound : Variables} (spacer : Text)
    (items : Name → Option (List Inline)) {piece : Piece}
    (h : ∀ array, (piece.withItem items).array? = some array →
      bound.contains (array.1.text ++ Markup.arrayEnding) = true) :
    (piece.withItem items).filtered bound spacer = piece.filtered bound spacer := by
  cases piece with
  | inline part => rfl
  | block name content alternative => rfl
  | array name item =>
    have hbound := h _ rfl
    rw [withItem, filtered_array _ _ _ _ hbound, filtered_array _ _ _ _ hbound]

/-- It depends only on the texts of the items what a piece shows. -/
theorem Piece.eval_withItem_congr {vars : Variables} {spacer : Text}
    {items items' : Name → Option (List Inline)} {piece : Piece}
    (h : ∀ name item, piece = .array name item →
      arrayText vars spacer name ((items name).getD item) =
        arrayText vars spacer name ((items' name).getD item)) :
    (piece.withItem items).eval vars spacer = (piece.withItem items').eval vars spacer := by
  cases piece with
  | inline part => rfl
  | block name content alternative => rfl
  | array name item => rw [withItem, withItem, eval, eval, h name item rfl]

/-- Pieces mean the same in front of others as alone if what they show of arrays is the same. -/
theorem evalPieces_append {vars : Variables} {spacer : Text} {first second : List Piece}
    (h : ShowAlike vars spacer first second) :
    evalPieces vars spacer (first ++ second) =
      evalPieces vars spacer first ++ evalPieces vars spacer second := by
  rw [evalPieces, List.flatMap_append]
  congr 1
  · refine List.flatMap_congr fun piece hpiece => Piece.eval_withItem_congr ?_
    rintro name item rfl
    obtain ⟨last, hlast⟩ := exists_lastItem?_of_mem hpiece
    rw [lastItem?_append, hlast]
    cases hother : lastItem? second name with
    | none => rfl
    | some other => exact (h name last other hlast hother).symm
  · refine List.flatMap_congr fun piece hpiece => Piece.eval_withItem_congr ?_
    rintro name item rfl
    obtain ⟨last, hlast⟩ := exists_lastItem?_of_mem hpiece
    rw [lastItem?_append, hlast]
    rfl

/-- If no array is repeated, this is the meaning of a template. -/
theorem evalPieces_pieces (template : Template) (vars : Variables) (spacer : Text) :
    evalPieces vars spacer template.pieces = template.eval vars spacer := by
  refine List.flatMap_congr fun piece hpiece => ?_
  cases piece with
  | inline part => rfl
  | block name content alternative => rfl
  | array name item =>
    obtain ⟨last, hlast⟩ := exists_lastItem?_of_mem hpiece
    obtain ⟨before, after, harrays, -⟩ := List.lookup_eq_some_iff.1 hlast
    have hmem : (name, last) ∈ template.pieces.filterMap Piece.array? := by
      rw [← List.mem_reverse, harrays]
      exact List.mem_append_right before List.mem_cons_self
    have hitem : (name, item) ∈ template.pieces.filterMap Piece.array? :=
      List.mem_filterMap.2 ⟨_, hpiece, rfl⟩
    -- An array has one block only, so the last one is this one.
    cases List.inj_on_of_nodup_map template.nodup_arrays hmem hitem rfl
    rw [Piece.withItem, hlast, Option.getD_some]

/-! ### Merging -/

/-- Merging pieces that are written out comes to their meaning, also if arrays are repeated. -/
theorem result_merge_pieces {vars : Variables} (h : vars.Orderly) {spacer : Text}
    (hspacer : BraceFree spacer) (pieces : List Piece) (history : History) :
    (merge (pieces.flatMap Piece.text) vars spacer history).result =
      some (evalPieces vars spacer pieces) := by
  have harrays := nodup_distinctArrays pieces
  have hpiece : ∀ piece ∈ pieces, ∀ array,
      (piece.withItem (lastItem? pieces)).array? = some array → array ∈ distinctArrays pieces :=
    fun _ hmem _ => mem_distinctArrays_of_withItem hmem
  have hfiltered : ∀ piece ∈ pieces,
      (piece.withItem (lastItem? pieces)).filtered
          (withArrays vars spacer (distinctArrays pieces)) spacer =
        piece.filtered (withArrays vars spacer (distinctArrays pieces)) spacer :=
    fun piece hmem => Piece.filtered_withItem spacer _ fun array harray =>
      contains_arrayKey h harrays (hpiece piece hmem array harray)
  have hworkable := workable_withArrays h hspacer harrays
  have hbind := returns_bindArrayBlocks h hspacer (distinctArrays pieces) h.workable fun _ => rfl
  rw [← filter_entries_extractBlocks_pieces, bindArrayBlocks_filter] at hbind
  -- The pieces are filled in as if each of them had the item of the last block.
  have hsettle : settle (withArrays vars spacer (distinctArrays pieces)).visits
      (filterBlocks (expandShorthand (pieces.flatMap Piece.text))
        (withArrays vars spacer (distinctArrays pieces)) spacer) =
      evalPieces vars spacer pieces := by
    rw [expandShorthand_pieces, filterBlocks_pieces]
    refine settle_flatMap hworkable.gentle (fun piece hmem => ?_) fun piece hmem => ?_
    · rw [← hfiltered piece hmem]
      exact tokenised_filtered h hspacer harrays (hpiece piece hmem)
    · rw [← hfiltered piece hmem]
      exact settle_filtered h hspacer harrays (hpiece piece hmem)
  rw [merge_eq_mergeStep, mergeStep_eq_bind, ← hsettle]
  refine Effect.Returns.bind hbind ?_ history
  exact hworkable.prompt.returns_substitute _

/-- Merging is independent of what stands before and behind. Pieces come to their meaning, where all
blocks over an array show the item of the last one. And two templates one behind the other come to
their texts one behind the other, if the last blocks show the same of every array over which both
have blocks. -/
theorem result_merge_append {vars : Variables} (h : vars.Orderly) {spacer : Text}
    (hspacer : BraceFree spacer) :
    (∀ (pieces : List Piece) (history : History),
      (merge (pieces.flatMap Piece.text) vars spacer history).result =
        some (evalPieces vars spacer pieces)) ∧
      ∀ first second : List Piece, ShowAlike vars spacer first second →
        ∀ history history' history'' : History, ∃ text text',
          (merge (first.flatMap Piece.text) vars spacer history).result = some text ∧
          (merge (second.flatMap Piece.text) vars spacer history').result = some text' ∧
          (merge (first.flatMap Piece.text ++ second.flatMap Piece.text) vars spacer
            history'').result = some (text ++ text') := by
  refine ⟨result_merge_pieces h hspacer, fun first second halike history history' history'' => ?_⟩
  refine ⟨evalPieces vars spacer first, evalPieces vars spacer second,
    result_merge_pieces h hspacer first history, result_merge_pieces h hspacer second history', ?_⟩
  rw [← evalPieces_append halike, ← List.flatMap_append]
  exact result_merge_pieces h hspacer (first ++ second) history''

/-- Blocks over the array `k`, with the given texts for each element. -/
def blocksOverK (runs : List Literal) : List Piece :=
  runs.map fun run => .array ⟨['k'], by decide⟩ [.literal run]

def letterA : Literal := ⟨['a'], by decide⟩

def letterB : Literal := ⟨['b'], by decide⟩

/-- An array with one element. -/
def oneElement : Variables where
  entries := [(['k'], .structured (.array [.object []]))]
  nodup_keys := by decide

theorem orderly_oneElement : oneElement.Orderly := by
  refine ⟨by decide, ?_, ?_⟩
  · simp only [oneElement, List.forall_mem_cons, List.not_mem_nil, false_implies, implies_true,
      and_true]
    simp only [Value.Orderly, Json.BraceFree, Json.BraceFreeItems, Json.BraceFreeMembers, and_self]
  · simp only [oneElement, List.forall_mem_cons, List.not_mem_nil, false_implies, implies_true,
      and_true]
    intro elements h
    cases h
    decide

/-- The last blocks have the same item, and both templates show it in all their blocks. -/
theorem result_merge_append_oneElement :
    (oneElement.Orderly ∧ BraceFree ['-'] ∧
        ShowAlike oneElement ['-'] (blocksOverK [letterA]) (blocksOverK [letterB, letterA])) ∧
      (merge "{?:[k]}a{:?}{?:[k]}b{:?}{?:[k]}a{:?}".toList oneElement ['-'] []).result =
        some "-a---a---a--".toList := by
  have hspacer : BraceFree ['-'] := by decide
  have halike : ShowAlike oneElement ['-'] (blocksOverK [letterA])
      (blocksOverK [letterB, letterA]) := by
    intro name item item' hitem hitem'
    by_cases hname : name = ⟨['k'], by decide⟩
    · subst hname
      cases hitem
      cases hitem'
      rfl
    · have hnone : lastItem? (blocksOverK [letterA]) name = none :=
        List.lookup_eq_none_iff.2 fun array harray => by
          obtain rfl := List.mem_singleton.1 harray
          exact bne_iff_ne.2 hname
      rw [hnone] at hitem
      cases hitem
  refine ⟨⟨orderly_oneElement, hspacer, halike⟩, ?_⟩
  obtain ⟨hmeaning, happend⟩ := result_merge_append orderly_oneElement hspacer
  obtain ⟨text, text', hfirst, hsecond, hboth⟩ := happend _ _ halike [] [] []
  rw [hmeaning] at hfirst hsecond
  cases hfirst
  cases hsecond
  exact hboth

/-- Blocks over one array with different items are not rendered each with its own item: alone they
show `a` and `b`, but one behind the other they show `b` twice. -/
theorem result_merge_append_ne_of_different_items :
    (oneElement.Orderly ∧ BraceFree []) ∧
      ¬ ∃ text text',
        (merge ((blocksOverK [letterA]).flatMap Piece.text) oneElement [] []).result =
            some text ∧
          (merge ((blocksOverK [letterB]).flatMap Piece.text) oneElement [] []).result =
            some text' ∧
          (merge ((blocksOverK [letterA]).flatMap Piece.text ++
            (blocksOverK [letterB]).flatMap Piece.text) oneElement [] []).result =
            some (text ++ text') := by
  have hspacer : BraceFree [] := by decide
  refine ⟨⟨orderly_oneElement, hspacer⟩, ?_⟩
  rintro ⟨text, text', hfirst, hsecond, hboth⟩
  rw [result_merge_pieces orderly_oneElement hspacer] at hfirst hsecond
  rw [← List.flatMap_append, result_merge_pieces orderly_oneElement hspacer] at hboth
  cases hfirst
  cases hsecond
  exact absurd hboth (by decide)

end MarkerTemplate
