import MarkerTemplate.Proofs.Conditional.Shorthand
import MarkerTemplate.Proofs.Merge.ArrayBlock

/-!
# Blocks over what is no array

A block over an array shows its content, in which the marker for the items stands for them. If there
is no array, the marker is bound to that content itself, and so the content is put into itself.

## Main definitions

- `itemsMarked` — literals with the marker for the items between them

## Design notes

The marker for the items is the only one in the content, and the visit for it comes behind those for
all other keys. So the content is put in once, and the markers that it brings along are not looked
for any more.
-/

namespace MarkerTemplate

open Text (BraceFree Clear Tokenised braced)

/-- The literals, one behind the other, with a text between any two of them. -/
def joinLiterals (between : Text) (literals : List Literal) : Text :=
  between.intercalate (literals.map Literal.text)

/-- The literals with the marker for the items of the array between them. Since a literal may be
empty, this is any content of literals and of such markers. -/
def itemsMarked (name : Name) (literals : List Literal) : Text :=
  joinLiterals (arrayMarker name.text) literals

/-! ### The content -/

theorem unmarked_itemsMarked (name : Name) (literals : List Literal) :
    Unmarked (itemsMarked name literals) := by
  refine Text.intercalate_induction (unmarked_of_notMem List.not_mem_nil) Unmarked.append
    (unmarked_arrayMarker name) fun part hpart => ?_
  obtain ⟨run, -, rfl⟩ := List.mem_map.1 hpart
  exact unmarked_of_notMem run.braceFree.1

section Literals

variable {sought kept : Text → Prop}

theorem tokenised_joinLiterals {between : Text} (h : Tokenised sought kept between)
    (literals : List Literal) : Tokenised sought kept (joinLiterals between literals) := by
  refine Text.tokenised_intercalate h fun part hpart => ?_
  obtain ⟨run, -, rfl⟩ := List.mem_map.1 hpart
  exact run.braceFree.tokenised

/-- The only marker in the content is the one for the items. -/
theorem tokenised_itemsMarked (name : Name) (literals : List Literal) :
    Tokenised sought (· = name.text ++ Markup.arrayEnding) (itemsMarked name literals) := by
  have hmarker : Tokenised sought (· = name.text ++ Markup.arrayEnding) (arrayMarker name.text) :=
    Text.tokenised_braced name.isName.braceFree_array rfl
  exact tokenised_joinLiterals hmarker literals

end Literals

/-- A text put in for the marker stands between the same literals. -/
theorem replaceAll_itemsMarked (name : Name) (literals : List Literal) (s : Text) :
    Text.replaceAll (arrayMarker name.text) s (itemsMarked name literals) =
      joinLiterals s literals := by
  refine Text.replaceAll_intercalate s fun part hpart => ?_
  obtain ⟨run, -, rfl⟩ := List.mem_map.1 hpart
  exact run.braceFree.1

/-- Spacers around the content stay where they are. -/
theorem replaceAll_spaced (name : Name) (literals : List Literal) {spacer : Text}
    (hspacer : BraceFree spacer) (s : Text) :
    Text.replaceAll (arrayMarker name.text) s (spacer ++ itemsMarked name literals ++ spacer) =
      spacer ++ joinLiterals s literals ++ spacer := by
  have hbody : BraceFree (name.text ++ Markup.arrayEnding) := name.isName.braceFree_array
  have hcontent : Tokenised (fun _ => True) (· = name.text ++ Markup.arrayEnding)
      (itemsMarked name literals) := tokenised_itemsMarked name literals
  have hafter : Text.replaceAll (arrayMarker name.text) s spacer = spacer :=
    Text.replaceAll_of_not_isInfix (Text.braced_ne_nil _) s
      fun hoccurs => hspacer.1 (hoccurs.subset List.mem_cons_self)
  have hbefore : Clear (arrayMarker name.text) spacer (itemsMarked name literals ++ spacer) :=
    Text.clear_of_notMem hspacer.1 _
  rw [List.append_assoc, Text.replaceAll_append_of_clear s hbefore, arrayMarker,
    hcontent.replaceAll_append hbody trivial, ← arrayMarker, replaceAll_itemsMarked, hafter,
    List.append_assoc]

/-! ### Substituting in the content -/

section Substitute

variable {name : Name} {vars : Variables} {spacer : Text} (hspacer : BraceFree spacer)
  (hkeys : ∀ key ∈ vars.keys, BraceFree key)
  (hfree : name.text ++ Markup.arrayEnding ∉ vars.keys)

include hspacer hkeys hfree

/-- The content is put into itself once, and that is all. -/
theorem substitute_itemsMarked (literals : List Literal) :
    substitute (spacer ++ itemsMarked name literals ++ spacer)
        (vars.insert (name.text ++ Markup.arrayEnding) (.text (itemsMarked name literals))) =
      pure (spacer ++ joinLiterals (itemsMarked name literals) literals ++ spacer) := by
  have hspaced : ∀ {s : Text}, Tokenised (fun _ => True) (· = name.text ++ Markup.arrayEnding) s →
      Tokenised (fun _ => True) (· = name.text ++ Markup.arrayEnding) (spacer ++ s ++ spacer) :=
    fun hs => (hspacer.tokenised.append hs).append hspacer.tokenised
  have hcontent : Tokenised (fun _ => True) (· = name.text ++ Markup.arrayEnding)
      (itemsMarked name literals) := tokenised_itemsMarked name literals
  have hput := replaceAll_spaced name literals hspacer (itemsMarked name literals)
  have hplain : ∀ key ∈ vars.keys,
      ¬ Sweep.plain.marker key <:+: spacer ++ itemsMarked name literals ++ spacer := by
    intro key hkey
    rw [Sweep.marker_eq_braced]
    refine (hspaced hcontent).not_isInfix (hkeys key hkey) trivial ?_
    rintro rfl
    exact hfree hkey
  have hjson : ∀ key, key ∈ vars.keys ∨ key = name.text ++ Markup.arrayEnding →
      ¬ Sweep.json.marker key <:+:
        spacer ++ joinLiterals (itemsMarked name literals) literals ++ spacer := by
    intro key hkey
    have hbraceFree : BraceFree key := by
      rcases hkey with hkey | rfl
      · exact hkeys key hkey
      · exact name.isName.braceFree_array
    rw [Sweep.marker_eq_braced]
    refine (hspaced (tokenised_joinLiterals hcontent literals)).not_isInfix
      (Sweep.json.braceFree_body hbraceFree) trivial fun hbody => ?_
    -- The body of a marker for JSON begins with a bracket, and no name does.
    refine name.isName.head_ne Markup.arrayEnding ?_
    rw [← hbody]
    rfl
  have htry := trySubstitute_insert_text (s := itemsMarked name literals) hfree hplain
    (fun key hkey => hput.symm ▸ hjson key hkey)
  rw [substitute_eq_pure htry]
  exact congrArg pure hput

end Substitute

/-! ### Merging the block -/

/-- The block written in full has no shorthand in it. -/
theorem expandShorthand_writeBlocks_arrayChunkWith (name : Name) {content item : Text}
    (hcontent : Unmarked content) (hitem : MarkFree item) :
    expandShorthand (writeBlocks [] [arrayChunkWith name content item]) =
      writeBlocks [] [arrayChunkWith name content item] := by
  have hkey : '{' ∉ name.text ++ Markup.arrayEnding := name.isName.braceFree_array.1
  have hshorthand : ¬ Markup.shorthandOpener <:+: item := fun hoccurs =>
    hitem.opener (Markup.opener_isPrefix_shorthandOpener.isInfix.trans hoccurs)
  have hbrace : '{' ∉ ['?', ':', '['] := by decide
  have htext : writeBlocks [] [arrayChunkWith name content item] =
      Markup.opener ++ (name.text ++ (Markup.arrayEnding ++ (['}'] ++ (content ++
        (Markup.elseMark ++ (item ++ Markup.closer)))))) := by
    simp [writeBlocks, arrayChunkWith, Chunk.write, Chunk.writeBody, Chunk.writeBranches]
  rw [expandShorthand_eq_self_iff, ← Text.clear_nil_iff Markup.shorthandOpener_ne_nil, htext]
  refine Clear.append ?_ ?_
  · rw [List.append_nil]
    exact Piece.clear_shorthandOpener_opener name _
  rw [← List.append_assoc]
  apply Clear.append (Text.clear_of_notMem hkey _)
  apply Clear.append (Text.clear_of_notMem (by decide) _)
  apply Clear.append (hcontent.clear_shorthandOpener _)
  apply Clear.append (clear_shorthandOpener_elseMark _)
  apply Clear.append (Text.clear_of_not_isInfix hbrace hshorthand _)
  exact clear_shorthandOpener_closer []

/-- Merging a block over an array that is written in full and over a key without an array: the
content stands between spacers, with the whole of the content in the place of each marker for the
items, where its own markers stay. No supplier is called and no turn is taken, and the text for an
item has no part in it. -/
theorem merge_arrayBlock_of_no_array (name : Name) (literals : List Literal) {item spacer : Text}
    (hitem : MarkFree item) (hspacer : BraceFree spacer) {vars : Variables}
    (hkeys : ∀ key ∈ vars.keys, BraceFree key)
    (hfree : name.text ++ Markup.arrayEnding ∉ vars.keys)
    (harray : ∀ items, vars.get? name.text ≠ some (.structured (.array items))) :
    let content := (arrayMarker name.text).intercalate (literals.map Literal.text)
    merge (Markup.opener ++ name.text ++ Markup.arrayEnding ++ ['}'] ++ content ++
        Markup.elseMark ++ item ++ Markup.closer) vars spacer =
      pure (spacer ++ content.intercalate (literals.map Literal.text) ++ spacer) := by
  intro content
  have hcontent : Unmarked content := unmarked_itemsMarked name literals
  have htext : Markup.opener ++ name.text ++ Markup.arrayEnding ++ ['}'] ++ content ++
      Markup.elseMark ++ item ++ Markup.closer =
        writeBlocks [] [arrayChunkWith name content item] := by
    simp [writeBlocks, arrayChunkWith, Chunk.write, Chunk.writeBody, Chunk.writeBranches]
  have hexpand := expandShorthand_writeBlocks_arrayChunkWith name hcontent hitem
  have hitems : (vars.get? name.text).bind Value.items? = none := by
    rw [Option.bind_eq_none_iff]
    intro value hvalue
    cases value with
    | text _ | number _ | supplied _ => rfl
    | structured json =>
      cases json with
      | array items => exact absurd hvalue (harray items)
      | null | bool _ | number _ | string _ | object _ => rfl
  rw [htext, merge_eq_bind_of_arrayChunkWith name hcontent hitem hexpand, blockText, hitems]
  show (pure content >>= fun s => _) = _
  rw [pure_bind]
  exact substitute_itemsMarked hspacer hkeys hfree literals

/-- An object where an array is looked for, and a supplier. -/
def objectAndSupplier : Variables where
  entries := [
    (['k'], .structured (.object [(['x'], .null)])),
    (['f'], .supplied ⟨0, .never, fun _ _ => []⟩)]
  nodup_keys := by decide

/-- An item with a marker for the supplier. -/
def itemWithMarker : Text :=
  "\x7b?\x7bf\x7d".toList

/-- The marker stands twice in the content, at its beginning and inside of it. -/
theorem merge_arrayBlock_of_no_array_objectAndSupplier :
    merge "\x7b?:k[]\x7d\x7bk[]\x7d, \x7bk[]\x7d.\x7b:else:\x7d\x7b?\x7bf\x7d\x7b:?\x7d".toList
        objectAndSupplier ['-'] =
      pure "-\x7bk[]\x7d, \x7bk[]\x7d., \x7bk[]\x7d, \x7bk[]\x7d..-".toList := by
  have hitem : MarkFree itemWithMarker := ⟨by decide, by decide, by decide⟩
  have hkeys : ∀ key ∈ objectAndSupplier.keys, BraceFree key := by decide
  have harray : ∀ items, objectAndSupplier.get? ['k'] ≠ some (.structured (.array items)) := by
    intro items hitems
    cases hitems
  exact merge_arrayBlock_of_no_array ⟨['k'], by decide⟩
    [⟨[], by decide⟩, ⟨", ".toList, by decide⟩, ⟨".".toList, by decide⟩] hitem (by decide) hkeys
    (by decide) harray

end MarkerTemplate
