import Mathlib.Data.List.Flatten
import MarkerTemplate.Proofs.Conditional.RoundTrip

/-!
# The filtered template and the listed blocks

Listing the blocks of a template and choosing their branches are two walks through the same chunks.
What the first one lists is all that the second one needs to know of a block, and the second one
shows nothing that does not stand in the template.

## Main definitions

- `Block.shown` — what is shown in the place of a block
-/

namespace MarkerTemplate

/-- What is shown in the place of the block, up to the text that stands behind it. -/
def Block.shown (block : Block) (spacer : Text) : Text :=
  spacer ++ if block.isBound then block.content ++ spacer else block.elseText

theorem Chunk.select_eq_shown (chunk : Chunk) (vars : Variables) (spacer : Text) :
    chunk.select vars spacer = (chunk.block vars spacer).shown spacer ++ chunk.rest :=
  rfl

/-! ### Blocks with distinct keys -/

/-- If no key comes twice, the blocks are listed one for each chunk. -/
theorem map_snd_extractBlocks {raw : Text} (h : ((chunks raw).2.map Chunk.key).Nodup)
    (vars : Variables) (spacer : Text) :
    (extractBlocks raw vars spacer).entries.map Prod.snd =
      (chunks raw).2.map fun chunk => chunk.block vars spacer := by
  rw [extractBlocks, OrderedMap.entries_ofList, List.map_map]
  · rfl
  · rwa [List.map_map]

/-! ### Filtering without a spacer -/

namespace Chunk

/-- The branch that is chosen is a part of the content. -/
theorem branch_isInfix (content : Text) (bound : Bool) :
    (if bound then (branches content).1 else (branches content).2.getD []) <:+: content := by
  cases bound with
  | true => exact isInfix_of_branches content
  | false =>
    cases halternative : (branches content).2 with
    | none => exact List.nil_infix
    | some alternative => exact alternative_isInfix_of_branches halternative

/-- Without a spacer, what is shown of a chunk stands in it in the same order. -/
theorem select_sublist (piece : Text) (vars : Variables) :
    ((ofText piece).select vars []).Sublist piece := by
  obtain ⟨body, rest, hpiece⟩ : ∃ body rest, Text.splitOnce Markup.closer piece = (body, rest) :=
    ⟨_, _, rfl⟩
  obtain ⟨key, content, hbody⟩ : ∃ key content, Text.splitOnce ['}'] body = (key, content) :=
    ⟨_, _, rfl⟩
  have hselect : (ofText piece).select vars [] =
      (if vars.contains key then (branches content).1 else (branches content).2.getD []) ++
        rest := by
    simp only [ofText, hpiece, hbody, select, elseText, List.nil_append, List.append_nil]
    cases (branches content).2 <;> rfl
  have hkey : (key ++ content).Sublist body := by
    have hcut := Text.splitOnce_sublist ['}'] body
    rwa [hbody] at hcut
  have hrest : (body ++ rest).Sublist piece := by
    have hcut := Text.splitOnce_sublist Markup.closer piece
    rwa [hpiece] at hcut
  have hbranch := (branch_isInfix content (vars.contains key)).sublist
  rw [hselect]
  exact ((hbranch.trans ((List.sublist_append_right key content).trans hkey)).append_right
    rest).trans hrest

end Chunk

/-- Without a spacer, filtering only takes characters away. -/
theorem filterBlocks_sublist (raw : Text) (vars : Variables) :
    (filterBlocks raw vars []).Sublist raw := by
  have hraw := Text.joinWith_splitAll Markup.opener_ne_nil raw
  conv_rhs => rw [← hraw]
  rw [filterBlocks, chunks, List.flatMap_map]
  refine List.Sublist.append_left (List.Sublist.flatMap_right _ fun piece _ => ?_) _
  exact (Chunk.select_sublist piece vars).trans (List.sublist_append_right Markup.opener piece)

/-- If the keys of its blocks are distinct, a template is filtered block by block as they are
listed: the text before the first opener is followed by what is shown of each block and by a text
that belongs to the template alone. And filtering any template, the text before the first opener
comes first, and without a spacer nothing is added, repeated or moved. -/
theorem filterBlocks_follows_extractBlocks (raw : Text) :
    (((chunks raw).2.map Chunk.key).Nodup →
      ∃ rests : List Text, ∀ (vars : Variables) (spacer : Text),
        let blocks := (extractBlocks raw vars spacer).entries.map Prod.snd
        blocks.length = rests.length ∧
          filterBlocks raw vars spacer =
            (Text.splitOnce Markup.opener raw).1 ++
              (List.zipWith (fun block rest => block.shown spacer ++ rest) blocks rests).flatten) ∧
      ∀ vars : Variables,
        (filterBlocks raw vars []).Sublist raw ∧
          ∀ spacer, (Text.splitOnce Markup.opener raw).1 <+: filterBlocks raw vars spacer := by
  have hfirst : (chunks raw).1 = (Text.splitOnce Markup.opener raw).1 :=
    Text.first_splitAll Markup.opener raw
  constructor
  · intro hkeys
    refine ⟨(chunks raw).2.map Chunk.rest, fun vars spacer => ?_⟩
    rw [map_snd_extractBlocks hkeys]
    constructor
    · simp only [List.length_map]
    · simp only [filterBlocks, hfirst, List.zipWith_map, List.zipWith_self, List.flatMap_def,
        Chunk.select_eq_shown]
  · intro vars
    refine ⟨filterBlocks_sublist raw vars, fun spacer => ?_⟩
    rw [filterBlocks, hfirst]
    exact List.prefix_append _ _

/-- A template with a block that is not closed, one whose key does not end, and one with two else
marks. -/
def unclosedBlocks : Text :=
  "p\x7b\x7b?:x\x7da\x7b:else:\x7db\x7b?".toList ++ "\x7b?:y\x7b:?\x7dc".toList ++
    "\x7b?:z\x7d1\x7b:else:\x7d2\x7b:else:\x7d3\x7b:?\x7dd".toList

theorem filterBlocks_follows_extractBlocks_unclosedBlocks :
    ((chunks unclosedBlocks).2.map Chunk.key).Nodup ∧
      ∃ rests : List Text, rests.length = 3 ∧ ∀ (vars : Variables) (spacer : Text),
        filterBlocks unclosedBlocks vars spacer =
          "p\x7b".toList ++
            (List.zipWith (fun block rest => block.shown spacer ++ rest)
              ((extractBlocks unclosedBlocks vars spacer).entries.map Prod.snd) rests).flatten := by
  have hkeys : ((chunks unclosedBlocks).2.map Chunk.key).Nodup := by decide
  obtain ⟨rests, hrests⟩ := (filterBlocks_follows_extractBlocks unclosedBlocks).1 hkeys
  have hbefore : (Text.splitOnce Markup.opener unclosedBlocks).1 = "p\x7b".toList := by decide
  refine ⟨hkeys, rests, ?_, fun vars spacer => ?_⟩
  · rw [← (hrests .empty []).1]
    decide
  · rw [(hrests vars spacer).2, hbefore]

end MarkerTemplate
