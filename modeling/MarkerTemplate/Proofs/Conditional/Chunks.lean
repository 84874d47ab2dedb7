import MarkerTemplate.Conditional
import MarkerTemplate.Proofs.OrderedMap
import MarkerTemplate.Proofs.Text.Splitting

/-!
# Chunks hold no openers

A template is cut into chunks at its openers, so none is left inside of a chunk or of one of its
parts. A text without openers has no blocks and no shorthands.
-/

namespace MarkerTemplate

theorem Markup.opener_ne_nil : Markup.opener ≠ [] := by
  decide

theorem Markup.shorthandOpener_ne_nil : Markup.shorthandOpener ≠ [] := by
  decide

theorem Markup.opener_isPrefix_shorthandOpener : Markup.opener <+: Markup.shorthandOpener := by
  decide

namespace Chunk

theorem alternative_isInfix_of_branches {content alternative : Text}
    (h : (branches content).2 = some alternative) : alternative <:+: content := by
  unfold branches at h
  split at h
  · rename_i before behind hcut
    split at h
    · cases h
    · cases h
      exact (Text.splitOnce?_isInfix hcut).2
  · cases h

theorem alternative_isInfix {s alternative : Text} (h : (ofText s).alternative = some alternative) :
    alternative <:+: s := by
  have hbody := (Text.splitOnce_isInfix Markup.closer s).1
  have hcontent := (Text.splitOnce_isInfix ['}'] (Text.splitOnce Markup.closer s).1).2
  exact (alternative_isInfix_of_branches h).trans (hcontent.trans hbody)

end Chunk

/-- A chunk comes from a piece of the template between two openers. -/
theorem exists_piece_of_mem_chunks {raw : Text} {chunk : Chunk} (h : chunk ∈ (chunks raw).2) :
    ∃ piece, ¬ Markup.opener <:+: piece ∧ chunk = Chunk.ofText piece := by
  obtain ⟨piece, hpiece, rfl⟩ := List.mem_map.1 h
  refine ⟨piece, ?_, rfl⟩
  exact Text.not_isInfix_of_mem_splitAll Markup.opener_ne_nil raw piece
    (List.mem_cons_of_mem _ hpiece)

theorem chunks_of_not_isInfix {raw : Text} (h : ¬ Markup.opener <:+: raw) :
    chunks raw = (raw, []) := by
  rw [chunks, Text.splitAll_of_not_isInfix Markup.opener_ne_nil h]
  rfl

/-- Without a spacer, the text of a block for an unbound key holds no opener. -/
theorem not_isInfix_elseText {raw : Text} {vars : Variables} {entry : Text × Block}
    (h : entry ∈ (extractBlocks raw vars []).entries) :
    ¬ Markup.opener <:+: entry.2.elseText := by
  obtain ⟨chunk, hchunk, rfl⟩ := List.mem_map.1 (OrderedMap.mem_entries_ofList h)
  obtain ⟨piece, hpiece, rfl⟩ := exists_piece_of_mem_chunks hchunk
  show ¬ Markup.opener <:+: (Chunk.ofText piece).elseText []
  unfold Chunk.elseText
  split
  · rename_i alternative halternative
    rw [List.append_nil]
    exact fun hoccurs => hpiece (hoccurs.trans (Chunk.alternative_isInfix halternative))
  · exact fun hoccurs => Markup.opener_ne_nil (List.infix_nil.1 hoccurs)

theorem extractBlocks_isEmpty_of_not_isInfix {raw : Text} (h : ¬ Markup.opener <:+: raw)
    (vars : Variables) (spacer : Text) : (extractBlocks raw vars spacer).isEmpty = true := by
  rw [extractBlocks, chunks_of_not_isInfix h]
  rfl

theorem expandShorthand_of_not_isInfix {raw : Text} (h : ¬ Markup.opener <:+: raw) :
    expandShorthand raw = raw := by
  have hshorthand : ¬ Markup.shorthandOpener <:+: raw := fun hoccurs =>
    h (Markup.opener_isPrefix_shorthandOpener.isInfix.trans hoccurs)
  rw [expandShorthand, Text.splitAll_of_not_isInfix Markup.shorthandOpener_ne_nil hshorthand]
  exact List.append_nil raw

end MarkerTemplate
