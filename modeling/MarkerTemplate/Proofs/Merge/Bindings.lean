import Mathlib.Data.List.Basic
import MarkerTemplate.Proofs.Merge.Arrays
import MarkerTemplate.Proofs.Merge.Depth

/-!
# The working mapping of a merge

Merging binds the keys of blocks over arrays to texts, one block after another, and then chooses
branches and substitutes with the mapping that has come out. Each block is rendered with the mapping
as it stands at that point.

## Main definitions

- `arrayBlocks` — the blocks of a template whose keys stand for the items of an array
- `Variables.withTexts` — a mapping with texts at the keys of blocks
- `blockText` — how the text for one block comes about
- `BindingRuns` — the runs that give the texts of the blocks one after another

## Design notes

The mapping that a block is rendered with is the one with the texts of the blocks before it, so it
can be told from the texts alone. Nothing is assumed of the keys: a block may stand at a key that
the caller has bound, and its array may be looked for at the key of an earlier block.
-/

namespace MarkerTemplate

/-- The blocks of a template whose keys stand for the items of an array, by their keys. -/
def arrayBlocks (raw : Text) (vars : Variables) (spacer : Text) : List (Text × Block) :=
  (extractBlocks raw vars spacer).entries.filter fun entry => isArrayKey entry.1

/-- The mapping with the given texts at the keys of the blocks, as far as there are texts. -/
def Variables.withTexts (vars : Variables) (blocks : List (Text × Block)) (texts : List Text) :
    Variables :=
  vars.insertAll (List.zipWith (fun entry s => (entry.1, Value.text s)) blocks texts)

/-- The text for a block over the array `name`: its rendered items, for which the mapping is what
they have in common, or the content of the block if the name is not bound to an array. -/
def blockText (vars : Variables) (spacer name : Text) (block : Block) : Effect Text :=
  match (vars.get? name).bind Value.items? with
  | some items => renderCollection block.elseText (.ofItems items) vars spacer
  | none => return block.content

/-- The runs give the texts for the blocks in turn, each with the mapping and the calls that those
before it have left. -/
structure BindingRuns (vars : Variables) (spacer : Text) (history : History)
    (blocks : List (Text × Block)) (runs : List (Run Text)) (texts : List Text) : Prop where
  length_eq : texts.length = blocks.length
  results_eq : runs.map Run.result = texts.map some
  run_eq : ∀ index key block, blocks[index]? = some (key, block) →
    ∃ name, key = name ++ Markup.arrayEnding ∧
      runs[index]? = some (blockText (vars.withTexts blocks (texts.take index)) spacer name block
        (history ++ (runs.take index).flatMap Run.calls))

/-! ### Going through the blocks -/

theorem exists_name_of_isArrayKey {key : Text} (h : isArrayKey key = true) :
    ∃ name, key = name ++ Markup.arrayEnding := by
  obtain ⟨name, hname⟩ := Option.isSome_iff_exists.1 h
  exact ⟨name, Text.stripSuffix?_eq_some_iff.1 hname⟩

section Bind

variable (vars : Variables) (spacer : Text) (history : History)

theorem bindArrayBlocks_cons (name : Text) (block : Block) (blocks : List (Text × Block)) :
    bindArrayBlocks (merge · · []) spacer ((name ++ Markup.arrayEnding, block) :: blocks) vars =
      blockText vars spacer name block >>= fun s =>
        bindArrayBlocks (merge · · []) spacer blocks
          (vars.insert (name ++ Markup.arrayEnding) (.text s)) := by
  simp only [bindArrayBlocks, Text.stripSuffix?_append, blockText]
  cases (vars.get? name).bind Value.items? with
  | some items => rfl
  | none => rw [pure_bind]

theorem bindingRuns_nil : BindingRuns vars spacer history [] [] [] where
  length_eq := rfl
  results_eq := rfl
  run_eq := by
    intro index key block hblock
    cases hblock

variable {vars spacer history}

/-- The first block is rendered with the mapping as it is, and the others with its text bound. -/
theorem BindingRuns.cons {name s : Text} {block : Block} {blocks : List (Text × Block)}
    {runs : List (Run Text)} {texts : List Text} {run : Run Text}
    (hrun : blockText vars spacer name block history = run) (hresult : run.result = some s)
    (h : BindingRuns (vars.insert (name ++ Markup.arrayEnding) (.text s)) spacer
      (history ++ run.calls) blocks runs texts) :
    BindingRuns vars spacer history ((name ++ Markup.arrayEnding, block) :: blocks) (run :: runs)
      (s :: texts) where
  length_eq := congrArg (· + 1) h.length_eq
  results_eq := by rw [List.map_cons, List.map_cons, hresult, h.results_eq]
  run_eq := by
    intro index key other hother
    cases index with
    | zero =>
      rw [List.getElem?_cons_zero, Option.some.injEq, Prod.mk.injEq] at hother
      obtain ⟨rfl, rfl⟩ := hother
      refine ⟨name, rfl, ?_⟩
      rw [List.getElem?_cons_zero, ← hrun]
      simp [Variables.withTexts, OrderedMap.insertAll]
    | succ index =>
      rw [List.getElem?_cons_succ] at hother
      obtain ⟨name', hname, hrest⟩ := h.run_eq index key other hother
      refine ⟨name', hname, ?_⟩
      rw [List.getElem?_cons_succ, hrest, List.take_succ_cons, List.take_succ_cons,
        List.flatMap_cons, List.append_assoc]
      rfl

/-- If all blocks come to their texts, the mapping has these texts, and the events are those of the
runs in order. -/
theorem exists_bindingRuns {blocks : List (Text × Block)} {bound : Variables}
    (hkeys : ∀ entry ∈ blocks, isArrayKey entry.1 = true)
    (h : (bindArrayBlocks (merge · · []) spacer blocks vars history).result = some bound) :
    ∃ runs texts, BindingRuns vars spacer history blocks runs texts ∧
      bound = vars.withTexts blocks texts ∧
      (bindArrayBlocks (merge · · []) spacer blocks vars history).events =
        runs.flatMap Run.events := by
  induction blocks generalizing vars history with
  | nil =>
    rw [bindArrayBlocks, Effect.pure_apply] at h ⊢
    cases h
    exact ⟨[], [], bindingRuns_nil bound spacer history, rfl, rfl⟩
  | cons entry blocks ih =>
    obtain ⟨key, block⟩ := entry
    obtain ⟨hkey, hrest⟩ := List.forall_mem_cons.1 hkeys
    obtain ⟨name, rfl⟩ := exists_name_of_isArrayKey hkey
    rw [bindArrayBlocks_cons] at h ⊢
    cases hrun : (blockText vars spacer name block history).result with
    | none =>
      rw [Effect.bind_eq_of_none hrun] at h
      cases h
    | some s =>
      rw [Effect.bind_eq_of_some hrun] at h ⊢
      obtain ⟨runs, texts, hruns, hbound, hevents⟩ := ih hrest h
      refine ⟨_ :: runs, s :: texts, hruns.cons rfl hrun, hbound, ?_⟩
      rw [List.flatMap_cons, ← hevents]

end Bind

/-! ### What the working mapping binds -/

section Blocks

variable (raw : Text) (vars : Variables) (spacer : Text)

theorem nodup_keys_arrayBlocks : ((arrayBlocks raw vars spacer).map Prod.fst).Nodup :=
  (List.filter_sublist.map Prod.fst).nodup (extractBlocks raw vars spacer).nodup_keys

theorem isArrayKey_of_mem_arrayBlocks :
    ∀ entry ∈ arrayBlocks raw vars spacer, isArrayKey entry.1 = true :=
  fun _ hentry => (List.mem_filter.1 hentry).2

/-- The keys of the blocks of a template that stand for items are those of its array blocks. -/
theorem key_mem_arrayBlocks_iff {chunk : Chunk} (hchunk : chunk ∈ (chunks raw).2) :
    chunk.key ∈ (arrayBlocks raw vars spacer).map Prod.fst ↔ isArrayKey chunk.key = true := by
  constructor
  · intro hkey
    obtain ⟨entry, hentry, heq⟩ := List.mem_map.1 hkey
    rw [← heq]
    exact isArrayKey_of_mem_arrayBlocks raw vars spacer entry hentry
  · intro hkey
    have hmem : chunk.key ∈ (extractBlocks raw vars spacer).keys := by
      refine OrderedMap.mem_keys_insertAll.2 (Or.inr ?_)
      rw [List.map_map]
      exact List.mem_map_of_mem hchunk
    obtain ⟨entry, hentry, heq⟩ := List.mem_map.1 hmem
    exact List.mem_map.2 ⟨entry, List.mem_filter.2 ⟨hentry, by rwa [heq]⟩, heq⟩

variable {raw vars spacer} {blocks : List (Text × Block)} {texts : List Text}

theorem map_fst_zipWith (h : texts.length = blocks.length) :
    (List.zipWith (fun entry s => (entry.1, Value.text s)) blocks texts).map Prod.fst =
      blocks.map Prod.fst := by
  rw [List.map_zipWith, ← List.map_uncurry_zip_eq_zipWith]
  show (List.zip blocks texts).map (fun pair => pair.1.1) = _
  rw [← Function.comp_def Prod.fst Prod.fst, ← List.map_map, List.map_fst_zip (Nat.le_of_eq h.symm)]

theorem keys_withTexts (hkeys : (blocks.map Prod.fst).Nodup)
    (h : texts.length = blocks.length) :
    (vars.withTexts blocks texts).keys =
      vars.keys ++ (blocks.map Prod.fst).filter fun key => !vars.contains key := by
  rw [Variables.withTexts, OrderedMap.keys_insertAll (by rwa [map_fst_zipWith h]),
    map_fst_zipWith h]

theorem get?_withTexts_of_notMem (hkeys : (blocks.map Prod.fst).Nodup)
    (h : texts.length = blocks.length) {key : Text} (hkey : key ∉ blocks.map Prod.fst) :
    (vars.withTexts blocks texts).get? key = vars.get? key := by
  rw [Variables.withTexts, OrderedMap.get?_insertAll (by rwa [map_fst_zipWith h])]
  have hnone : (List.zipWith (fun entry s => (entry.1, Value.text s)) blocks texts).lookup key =
      none := by
    refine List.lookup_eq_none_iff.2 fun entry hentry => bne_iff_ne.2 ?_
    rintro rfl
    exact hkey (map_fst_zipWith h ▸ List.mem_map_of_mem hentry)
  rw [hnone, Option.none_or]

theorem get?_withTexts_of_getElem? (hkeys : (blocks.map Prod.fst).Nodup)
    (h : texts.length = blocks.length) {index : Nat} {key s : Text} {block : Block}
    (hblock : blocks[index]? = some (key, block)) (htext : texts[index]? = some s) :
    (vars.withTexts blocks texts).get? key = some (.text s) := by
  have hnodup := map_fst_zipWith h ▸ hkeys
  rw [Variables.withTexts, OrderedMap.get?_insertAll hnodup]
  have hmem : (key, Value.text s) ∈
      List.zipWith (fun entry s => (entry.1, Value.text s)) blocks texts := by
    refine List.mem_of_getElem? (i := index) ?_
    simp [List.getElem?_zipWith, hblock, htext]
  have hlookup := OrderedMap.get?_eq_some_iff (m := ⟨_, hnodup⟩).2 hmem
  rw [OrderedMap.get?] at hlookup
  rw [hlookup, Option.some_or]

/-- A block over an array is bound in the working mapping, and any other block is bound in it if and
only if the caller has bound it. -/
theorem select_withTexts (h : texts.length = (arrayBlocks raw vars spacer).length) {chunk : Chunk}
    (hchunk : chunk ∈ (chunks raw).2) :
    chunk.select (vars.withTexts (arrayBlocks raw vars spacer) texts) spacer =
      if isArrayKey chunk.key then spacer ++ chunk.content ++ spacer ++ chunk.rest
      else chunk.select vars spacer := by
  have hkeys : (vars.withTexts (arrayBlocks raw vars spacer) texts).keys = _ :=
    keys_withTexts (nodup_keys_arrayBlocks raw vars spacer) h
  have hmem := key_mem_arrayBlocks_iff raw vars spacer hchunk
  have hcontains : (vars.withTexts (arrayBlocks raw vars spacer) texts).contains chunk.key =
      (isArrayKey chunk.key || vars.contains chunk.key) := by
    rw [Bool.eq_iff_iff, OrderedMap.contains, decide_eq_true_iff, hkeys, List.mem_append,
      List.mem_filter, hmem, Bool.or_eq_true]
    cases hbound : vars.contains chunk.key with
    | true => simp [of_decide_eq_true hbound]
    | false => simp [of_decide_eq_false hbound]
  unfold Chunk.select
  rw [hcontains]
  cases isArrayKey chunk.key with
  | true => simp
  | false => simp

end Blocks

/-! ### Merging with the working mapping -/

theorem merge_eq_bind (raw : Text) (vars : Variables) (spacer : Text) :
    merge raw vars spacer =
      bindArrayBlocks (merge · · []) spacer
          (arrayBlocks (expandShorthand raw) vars spacer) vars >>= fun bound =>
        substitute (filterBlocks (expandShorthand raw) bound spacer) bound := by
  rw [merge_eq_mergeStep_merge, mergeStep_eq_bind, arrayBlocks, bindArrayBlocks_filter]

theorem merge_of_isEmpty {raw : Text} {vars : Variables} {spacer : Text}
    (h : (extractBlocks (expandShorthand raw) vars spacer).isEmpty = true) :
    merge raw vars spacer = substitute (expandShorthand raw) vars := by
  rw [merge_eq_mergeStep_merge, mergeStep]
  simp only [h, if_true]

/-- When a merge comes to a text, it is the text of substituting in the chosen branches with a
working mapping, after all array blocks have been rendered. That mapping has the keys of the caller
and then the new keys of array blocks in the order of the blocks. At the key of an array block it
has the text of that block, which was made with the working mapping of that point, and it is the
caller's mapping elsewhere. So an array block always shows its content, and every other block the
branch that the caller chooses. A template without blocks is merged in the same way, although
nothing is bound for it. -/
theorem merge_eq_substitute_working (raw : Text) (vars : Variables) (spacer : Text) :
    let expanded := expandShorthand raw
    let blocks := arrayBlocks expanded vars spacer
    (∀ history t, (merge raw vars spacer history).result = some t →
      ∃ (runs : List (Run Text)) (texts : List Text),
        BindingRuns vars spacer history blocks runs texts ∧
        let bound := vars.withTexts blocks texts
        let filtered := filterBlocks expanded bound spacer
        let last := substitute filtered bound (history ++ runs.flatMap Run.calls)
        last.result = some t ∧
          (merge raw vars spacer history).events = runs.flatMap Run.events ++ last.events ∧
          bound.keys = vars.keys ++ (blocks.map Prod.fst).filter (fun key => !vars.contains key) ∧
          (∀ key, key ∉ blocks.map Prod.fst → bound.get? key = vars.get? key) ∧
          (∀ (index : Nat) key block, blocks[index]? = some (key, block) →
            ∃ s : Text, texts[index]? = some s ∧ bound.get? key = some (.text s)) ∧
          filtered = (chunks expanded).1 ++ (chunks expanded).2.flatMap fun chunk =>
            if isArrayKey chunk.key then spacer ++ chunk.content ++ spacer ++ chunk.rest
            else chunk.select vars spacer) ∧
      merge raw vars spacer =
        (bindArrayBlocks (merge · · []) spacer (extractBlocks expanded vars spacer).entries vars >>=
          fun bound => substitute (filterBlocks expanded bound spacer) bound) ∧
      ((extractBlocks expanded vars spacer).isEmpty = true →
        merge raw vars spacer = substitute expanded vars) := by
  intro expanded blocks
  refine ⟨fun history t h => ?_, ?_, merge_of_isEmpty⟩
  · rw [merge_eq_bind] at h ⊢
    cases hbind : (bindArrayBlocks (merge · · []) spacer blocks vars history).result with
    | none =>
      rw [Effect.bind_eq_of_none hbind] at h
      cases h
    | some bound =>
      obtain ⟨runs, texts, hruns, rfl, hevents⟩ :=
        exists_bindingRuns (isArrayKey_of_mem_arrayBlocks expanded vars spacer) hbind
      have hcalls : (bindArrayBlocks (merge · · []) spacer blocks vars history).calls =
          runs.flatMap Run.calls := by
        rw [Run.calls, hevents, List.filterMap_flatMap]
        rfl
      have hkeys := nodup_keys_arrayBlocks expanded vars spacer
      have hlength : texts.length = blocks.length := hruns.length_eq
      rw [Effect.bind_eq_of_some hbind, hcalls, hevents] at h ⊢
      refine ⟨runs, texts, hruns, h, rfl, keys_withTexts hkeys hlength, ?_, ?_, ?_⟩
      · exact fun key hkey => get?_withTexts_of_notMem hkeys hlength hkey
      · intro index key block hblock
        obtain ⟨hindex, -⟩ := List.getElem?_eq_some_iff.1 hblock
        have htext := List.getElem?_eq_getElem (hlength ▸ hindex)
        exact ⟨_, htext, get?_withTexts_of_getElem? hkeys hlength hblock htext⟩
      · exact congrArg _ (List.flatMap_congr fun chunk hchunk => select_withTexts hlength hchunk)
  · rw [merge_eq_mergeStep_merge, mergeStep_eq_bind]

/-- An array at `a`, and a text at the key of a block over it. -/
def arrayAndItsKey : Variables where
  entries := [
    ("a[]".toList, .text "old".toList),
    ("a".toList, .structured (.array [.object [("x".toList, .string "1".toList)]]))]
  nodup_keys := by decide

/-- A block over `a`, and a block over the key of that block. -/
def blockOverBlock : Text :=
  "{?:[a]}<{x}>{:?}{?:a[][]}c{:else:}d{:?}".toList

/-- The same template with its shorthand written in full. -/
def blockOverBlockInFull : Text :=
  "{?:a[]}{a[]}{:else:}<{x}>{:?}{?:a[][]}c{:else:}d{:?}".toList

/-- Its blocks. Only the key of the first one is bound by the caller. -/
def blocksOverBlock : List (Text × Block) := [
  ("a[]".toList, ⟨"a[]".toList, "{a[]}".toList, "<{x}>-".toList, true⟩),
  ("a[][]".toList, ⟨"a[][]".toList, "c".toList, "d-".toList, false⟩)]

/-- The key of the first block is bound anew at its old place, so that no array is found at it for
the second one. -/
theorem merge_eq_substitute_working_blockOverBlock :
    (merge blockOverBlock arrayAndItsKey ['-'] []).result = some "-<1>---c-".toList ∧
      ∃ texts,
        (arrayAndItsKey.withTexts
            (arrayBlocks (expandShorthand blockOverBlock) arrayAndItsKey ['-']) texts).keys =
          ["a[]".toList, "a".toList, "a[][]".toList] := by
  have hresult : (merge blockOverBlock arrayAndItsKey ['-'] []).result =
      some "-<1>---c-".toList := by
    have hexpanded : expandShorthand blockOverBlock = blockOverBlockInFull := by rfl
    have hblocks : arrayBlocks blockOverBlockInFull arrayAndItsKey ['-'] = blocksOverBlock := by rfl
    have hbound : (bindArrayBlocks (merge · · []) ['-'] blocksOverBlock arrayAndItsKey []).result =
        some (arrayAndItsKey.withTexts blocksOverBlock ["<1>-".toList, "c".toList]) := by
      rfl
    rw [merge_eq_bind, hexpanded, hblocks, Effect.bind_eq_of_some hbound]
    rfl
  obtain ⟨runs, texts, -, -, -, hkeys, -⟩ :=
    (merge_eq_substitute_working blockOverBlock arrayAndItsKey ['-']).1 [] _ hresult
  exact ⟨hresult, texts, hkeys⟩

end MarkerTemplate
