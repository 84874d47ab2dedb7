import MarkerTemplate.Proofs.Conditional.RoundTrip
import MarkerTemplate.Proofs.Merge.Bindings
import MarkerTemplate.Proofs.Substitution.Settled
import MarkerTemplate.Proofs.Template.Reading

/-!
# A template that is one block over an array

Merging a template that consists of a single block over an array is rendering its item for the
elements of the array.

## Main definitions

- `MarkFree` — no mark of a block stands in a text
- `arrayChunkWith` — the block over an array with a given content
- `arrayChunk` — the block over an array as the shorthand for it is written in full

## Design notes

The items reach the output by way of a key of their own: the block is bound to the rendered text,
shows the marker of that key, and a later visit puts the text in. Of all visits this is the only one
that finds its marker. The item itself may hold any braces, since it is never looked at here.
-/

namespace MarkerTemplate

open Text (Clear braced)

/-- No mark of a block stands in the text. -/
structure MarkFree (s : Text) : Prop where
  opener : ¬ Markup.opener <:+: s
  closer : ¬ Markup.closer <:+: s
  elseMark : ¬ Markup.elseMark <:+: s

/-- The block over an array that shows the given content. -/
def arrayChunkWith (name : Name) (content item : Text) : Chunk :=
  ⟨name.text ++ Markup.arrayEnding, content, some item, []⟩

/-- The block over an array with the given item, as the shorthand for it is written in full. -/
def arrayChunk (name : Name) (item : Text) : Chunk :=
  ⟨name.text ++ Markup.arrayEnding, arrayMarker name.text, some item, []⟩

/-! ### Reading the block -/

section Read

variable (name : Name) {content item : Text} (hcontent : Unmarked content) (hitem : MarkFree item)

include hcontent hitem

theorem writable_arrayChunkWith : (arrayChunkWith name content item).Writable := by
  have hkey : '{' ∉ name.text ++ Markup.arrayEnding := name.isName.braceFree_array.1
  constructor
  case key_opener => exact fun hoccurs => hkey (hoccurs.subset List.mem_cons_self)
  case content_opener => exact hcontent.not_isInfix_opener
  case alternative_opener =>
    intro alternative halternative
    cases halternative
    exact hitem.opener
  case rest_opener => exact fun hoccurs => Markup.opener_ne_nil (List.infix_nil.1 hoccurs)
  case key_brace => exact name.isName.braceFree_array.2
  case key_closer => exact fun hends => hkey (hends.subset List.mem_cons_self)
  case content_closer =>
    exact (Text.clear_nil_iff Markup.closer_ne_nil).1 (hcontent ':' (Or.inr rfl) _ [])
  case alternative_closer =>
    intro alternative halternative
    cases halternative
    exact hitem.closer
  case elseMark_of_some =>
    intro alternative halternative
    cases halternative
    exact ⟨hcontent.not_isInfix_elseMark, hitem.elseMark⟩
  case elseMark_of_none =>
    intro hnone
    cases hnone

theorem chunks_arrayChunkWith :
    chunks (writeBlocks [] [arrayChunkWith name content item]) =
      ([], [arrayChunkWith name content item]) :=
  chunks_writeBlocks (fun hoccurs => Markup.opener_ne_nil (List.infix_nil.1 hoccurs))
    (List.forall_mem_singleton.2 (writable_arrayChunkWith name hcontent hitem))

theorem arrayBlocks_arrayChunkWith (vars : Variables) (spacer : Text) :
    arrayBlocks (writeBlocks [] [arrayChunkWith name content item]) vars spacer =
      [(name.text ++ Markup.arrayEnding,
        (arrayChunkWith name content item).block vars spacer)] := by
  rw [arrayBlocks, extractBlocks, chunks_arrayChunkWith name hcontent hitem]
  refine List.filter_eq_self.2 fun entry hentry => ?_
  rw [List.mem_singleton.1 hentry, isArrayKey]
  exact Option.isSome_iff_exists.2 ⟨name.text, Text.stripSuffix?_append _ _⟩

/-- Where its key is bound, the block shows its content. -/
theorem filterBlocks_arrayChunkWith {vars : Variables}
    (hbound : vars.contains (name.text ++ Markup.arrayEnding) = true) (spacer : Text) :
    filterBlocks (writeBlocks [] [arrayChunkWith name content item]) vars spacer =
      spacer ++ content ++ spacer := by
  rw [filterBlocks, chunks_arrayChunkWith name hcontent hitem, List.flatMap_singleton, Chunk.select]
  show [] ++ (spacer ++
    (if vars.contains (name.text ++ Markup.arrayEnding) then _ else _) ++ []) = _
  rw [if_pos hbound]
  simp [arrayChunkWith]

/-- The text of the block is bound first, and then put into the content. -/
theorem merge_eq_bind_of_arrayChunkWith {raw : Text}
    (hraw : expandShorthand raw = writeBlocks [] [arrayChunkWith name content item])
    (vars : Variables) (spacer : Text) :
    merge raw vars spacer =
      blockText vars spacer name.text ((arrayChunkWith name content item).block vars spacer) >>=
        fun s => substitute (spacer ++ content ++ spacer)
          (vars.insert (name.text ++ Markup.arrayEnding) (.text s)) := by
  rw [merge_eq_bind, hraw, arrayBlocks_arrayChunkWith name hcontent hitem, bindArrayBlocks_cons,
    bind_assoc]
  refine bind_congr fun s => ?_
  have hbound : (vars.insert (name.text ++ Markup.arrayEnding) (.text s)).contains
      (name.text ++ Markup.arrayEnding) = true := by
    rw [OrderedMap.contains_eq_isSome, OrderedMap.get?_insert, if_pos rfl, Option.isSome_some]
  rw [bindArrayBlocks, pure_bind, filterBlocks_arrayChunkWith name hcontent hitem hbound]

end Read

/-- The shorthand is written in full once, since no other one begins in the item. -/
theorem expandShorthand_arrayBlock (name : Name) {item : Text} (hitem : MarkFree item) :
    expandShorthand (Markup.shorthandOpener ++ name.text ++ Markup.shorthandCloser ++ item ++
      Markup.closer) = writeBlocks [] [arrayChunk name item] := by
  have hname : Clear Markup.shorthandOpener (name.text ++ Markup.shorthandCloser)
      (item ++ Markup.closer) := by
    refine Text.clear_of_notMem ?_ _
    simp [name.isName.braceFree.1, Markup.shorthandCloser]
  have hrest : ¬ Markup.opener <:+: item ++ Markup.closer := by
    rw [← Text.clear_nil_iff Markup.opener_ne_nil]
    exact (clear_opener_of_not_isInfix hitem.opener (by decide) _).append (clear_opener_closer [])
  have hexpand := expandShorthand_shorthandOpener_append hname name.isName.2.2.2.1
  rw [expandShorthand_of_not_isInfix hrest] at hexpand
  simp only [List.append_assoc]
  rw [hexpand]
  simp [writeBlocks, arrayChunk, Chunk.write, Chunk.writeBody, Chunk.writeBranches, arrayBlockStart,
    arrayMarker, braced]

/-! ### Putting the items in -/

/-- A new key is visited behind all others, and behind that come only the visits for JSON. -/
theorem exists_visits_insert {vars : Variables} {key : Text} (h : key ∉ vars.keys) (value : Value) :
    ∃ before after,
      Variables.visits (vars.insert key value) = before ++ ⟨.plain, key, value⟩ :: after ∧
        (∀ visit ∈ before, visit.sweep = .plain ∧ visit.key ∈ vars.keys) ∧
        ∀ visit ∈ after, visit.sweep = .json ∧ (visit.key ∈ vars.keys ∨ visit.key = key) := by
  have hentries : (vars.insert key value).entries = vars.entries ++ [(key, value)] :=
    OrderedMap.put_of_notMem h value
  let visitOf (sweep : Sweep) (entry : Text × Value) : Visit := ⟨sweep, entry.1, entry.2⟩
  refine ⟨vars.entries.map (visitOf .plain),
    (vars.entries ++ [(key, value)]).map (visitOf .json), ?_, ?_, ?_⟩
  · rw [Variables.visits, hentries]
    simp [visitOf]
  · intro visit hvisit
    obtain ⟨entry, hentry, rfl⟩ := List.mem_map.1 hvisit
    exact ⟨rfl, List.mem_map_of_mem hentry⟩
  · intro visit hvisit
    obtain ⟨entry, hentry, rfl⟩ := List.mem_map.1 hvisit
    rcases List.mem_append.1 hentry with hentry | hentry
    · exact ⟨rfl, Or.inl (List.mem_map_of_mem hentry)⟩
    · rw [List.mem_singleton] at hentry
      exact ⟨rfl, Or.inr (congrArg Prod.fst hentry)⟩

/-- Where a text holds no marker of another key, the markers of a new key are replaced by the text
bound to it, and the outcome is left alone if it holds no marker for JSON. -/
theorem trySubstitute_insert_text {vars : Variables} {key raw s : Text} (hfree : key ∉ vars.keys)
    (hplain : ∀ other ∈ vars.keys, ¬ Sweep.plain.marker other <:+: raw)
    (hjson : ∀ other, other ∈ vars.keys ∨ other = key →
      ¬ Sweep.json.marker other <:+: Text.replaceAll (Sweep.plain.marker key) s raw) :
    trySubstitute raw (vars.insert key (.text s)) =
      pure (some (Text.replaceAll (Sweep.plain.marker key) s raw)) := by
  obtain ⟨before, after, hvisits, hbefore, hafter⟩ := exists_visits_insert hfree (.text s)
  have hfirst : ∀ visit ∈ before, ¬ visit.marker <:+: raw := by
    rintro ⟨sweep, other, value⟩ hvisit
    obtain ⟨rfl, hother⟩ := hbefore _ hvisit
    exact hplain other hother
  have hlast : ∀ visit ∈ after,
      ¬ visit.marker <:+: Text.replaceAll (Sweep.plain.marker key) s raw := by
    rintro ⟨sweep, other, value⟩ hvisit
    obtain ⟨rfl, hother⟩ := hafter _ hvisit
    exact hjson other hother
  rw [trySubstitute, hvisits, tryVisits_append_of_not_isInfix hfirst,
    tryVisits_cons_of_ne_supplied (fun supplier hvalue => by cases hvalue)]
  exact tryVisits_of_not_isInfix hlast

/-- The marker for the items is replaced by the text bound to it, and this text is left alone if it
holds no marker for JSON. -/
theorem trySubstitute_arrayMarker {name : Name} {vars : Variables} {s : Text}
    (hfree : name.text ++ Markup.arrayEnding ∉ vars.keys)
    (hmarkers : ∀ key, key ∈ vars.keys ∨ key = name.text ++ Markup.arrayEnding →
      ¬ Sweep.json.marker key <:+: s) :
    trySubstitute (arrayMarker name.text)
        (vars.insert (name.text ++ Markup.arrayEnding) (.text s)) = pure (some s) := by
  have hself : Text.replaceAll (Sweep.plain.marker (name.text ++ Markup.arrayEnding)) s
      (arrayMarker name.text) = s :=
    Text.replaceAll_braced_self (name.text ++ Markup.arrayEnding) s
  -- A key with this marker would be the new one.
  have hplain : ∀ key ∈ vars.keys, ¬ Sweep.plain.marker key <:+: arrayMarker name.text := by
    intro key hkey hoccurs
    have heq : key = name.text ++ Markup.arrayEnding :=
      Text.eq_of_braced_isInfix_braced name.isName.braceFree_array hoccurs
    exact hfree (heq ▸ hkey)
  have htry := trySubstitute_insert_text (s := s) hfree hplain (by rwa [hself])
  rwa [hself] at htry

/-! ### Merging the block -/

section Merge

variable (name : Name) {item : Text} (hitem : MarkFree item) {vars : Variables} {items : List Json}
  (hitems : vars.get? name.text = some (.structured (.array items)))

include hitem hitems

/-- The items are rendered first, and then their text is put in for the marker of the block. -/
theorem merge_arrayBlock_eq_bind :
    merge (Markup.shorthandOpener ++ name.text ++ Markup.shorthandCloser ++ item ++ Markup.closer)
        vars [] =
      renderCollection item (.ofItems items) vars [] >>= fun s =>
        substitute (arrayMarker name.text)
          (vars.insert (name.text ++ Markup.arrayEnding) (.text s)) := by
  have hblock : blockText vars [] name.text ((arrayChunk name item).block vars []) =
      renderCollection item (.ofItems items) vars [] := by
    have helse : ((arrayChunk name item).block vars []).elseText = item := List.append_nil item
    rw [blockText, hitems, helse]
    rfl
  have hmerge := merge_eq_bind_of_arrayChunkWith name (unmarked_arrayMarker name) hitem
    (expandShorthand_arrayBlock name hitem) vars []
  rw [List.nil_append, List.append_nil] at hmerge
  rw [hmerge, ← hblock]
  rfl

/-- Merging a block over an array comes to the text that rendering its item for the elements of the
array comes to, with the same calls and turns, provided that this text brings no marker for the JSON
of a key in the mapping. -/
theorem merge_arrayBlock_eq_renderCollection
    (hfree : name.text ++ Markup.arrayEnding ∉ vars.keys) {history : History} {rendered : Text}
    (hrendered : (renderCollection item (.ofItems items) vars [] history).result = some rendered)
    (hmarkers : ∀ key, key ∈ vars.keys ∨ key = name.text ++ Markup.arrayEnding →
      ¬ Sweep.json.marker key <:+: rendered) :
    let explicit := renderCollection item (.ofItems items) vars [] history
    let inline := merge (Markup.shorthandOpener ++ name.text ++ Markup.shorthandCloser ++ item ++
      Markup.closer) vars [] history
    inline.result = some rendered ∧ inline.calls = explicit.calls ∧
      inline.turns = explicit.turns := by
  intro explicit inline
  have hput : substitute (arrayMarker name.text)
      (vars.insert (name.text ++ Markup.arrayEnding) (.text rendered)) (history ++ explicit.calls) =
        ⟨some rendered, []⟩ := by
    have htry := trySubstitute_arrayMarker hfree hmarkers
    rw [substitute_of_some (by rw [htry]; rfl), htry]
    rfl
  have hinline : inline = ⟨some rendered, explicit.events⟩ := by
    show merge _ vars [] history = _
    rw [merge_arrayBlock_eq_bind name hitem hitems, Effect.bind_eq_of_some hrendered, hput]
    simp [explicit]
  rw [hinline]
  exact ⟨rfl, rfl, rfl⟩

end Merge

/-- The elements of an array. -/
def objectAndNull : List Json :=
  [.object [(['x'], .string "{y}".toList)], .null]

/-- An array and a supplier. -/
def arrayAndSupplier : Variables where
  entries := [
    (['k'], .structured (.array objectAndNull)),
    (['f'], .supplied ⟨0, .callback, fun _ n => '#' :: digitsOf n⟩)]
  nodup_keys := by decide

/-- An item with braces that belong to no marker. -/
def unevenItem : Text :=
  "\x7d\x7b{x}\x7b?{[_meta.key]}{f}".toList

/-- What rendering the item comes to. -/
def unevenText : Text :=
  "\x7d\x7b{y}\x7b?\"0\"#1\x7d\x7b{x}\x7b?\"1\"#2".toList

/-- The supplier is called for each element, and the rendered text has markers of its own. -/
theorem merge_arrayBlock_eq_renderCollection_arrayAndSupplier :
    let run := merge (Markup.shorthandOpener ++ ['k'] ++ Markup.shorthandCloser ++ unevenItem ++
      Markup.closer) arrayAndSupplier [] []
    run.result = some unevenText ∧ run.calls.length = 2 := by
  have hitem : MarkFree unevenItem := ⟨by decide, by decide, by decide⟩
  have hitems : arrayAndSupplier.get? ['k'] = some (.structured (.array objectAndNull)) := rfl
  have hrendered :
      (renderCollection unevenItem (.ofItems objectAndNull) arrayAndSupplier [] []).result =
        some unevenText := by
    rfl
  have hcalls :
      (renderCollection unevenItem (.ofItems objectAndNull) arrayAndSupplier [] []).calls.length =
        2 := by
    rfl
  have hmarkers : ∀ key, key ∈ arrayAndSupplier.keys ∨ key = ['k'] ++ Markup.arrayEnding →
      ¬ Sweep.json.marker key <:+: unevenText := by
    intro key hkey
    have hcases : key = ['k'] ∨ key = ['f'] ∨ key = "k[]".toList := by
      simpa [OrderedMap.keys, arrayAndSupplier, Markup.arrayEnding, or_assoc] using hkey
    rcases hcases with rfl | rfl | rfl <;> decide
  obtain ⟨hresult, hsame, -⟩ := merge_arrayBlock_eq_renderCollection ⟨['k'], by decide⟩ hitem hitems
    (by decide) hrendered hmarkers
  exact ⟨hresult, (congrArg List.length hsame).trans hcalls⟩

end MarkerTemplate
