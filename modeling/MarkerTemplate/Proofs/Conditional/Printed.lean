import MarkerTemplate.Proofs.Conditional.Chunks

/-!
# Blocks that are written out

A block that is written out, with delimiters that begin only where they are meant to, is read back
as it is, whatever follows it.

## Main definitions

- `Chunk.write` — the text of a block and of what stands behind it
-/

namespace MarkerTemplate

open Text (Clear)

theorem Markup.shorthandCloser_ne_nil : Markup.shorthandCloser ≠ [] := by
  decide

theorem Markup.closer_ne_nil : Markup.closer ≠ [] := by
  decide

theorem Markup.elseMark_ne_nil : Markup.elseMark ≠ [] := by
  decide

/-! ### Marks -/

/-- A mark is clear of another mark that it does not begin with. -/
theorem clear_mark {pattern mark b : Text} (h : ¬ '{' :: pattern <+: '{' :: (mark ++ b))
    (hmark : '{' ∉ mark) : Clear ('{' :: pattern) ('{' :: mark) b :=
  Text.clear_cons h (Text.clear_of_notMem hmark b)

theorem clear_closer_elseMark (b : Text) : Clear Markup.closer Markup.elseMark b :=
  clear_mark (by simp) (by decide)

theorem clear_opener_elseMark (b : Text) : Clear Markup.opener Markup.elseMark b :=
  clear_mark (by simp) (by decide)

theorem clear_opener_closer (b : Text) : Clear Markup.opener Markup.closer b :=
  clear_mark (by simp) (by decide)

theorem clear_shorthandOpener_elseMark (b : Text) :
    Clear Markup.shorthandOpener Markup.elseMark b :=
  clear_mark (by simp) (by decide)

theorem clear_shorthandOpener_closer (b : Text) : Clear Markup.shorthandOpener Markup.closer b :=
  clear_mark (by simp) (by decide)

/-! ### One block -/

namespace Chunk

/-- The content of a block with its alternative behind an else mark. -/
def writeBranches (content : Text) : Option Text → Text
  | none => content
  | some alternative => content ++ (Markup.elseMark ++ alternative)

/-- The block between its opener and its closer. -/
def writeBody (chunk : Chunk) : Text :=
  chunk.key ++ (['}'] ++ writeBranches chunk.content chunk.alternative)

/-- The block behind its opener, and what stands behind it. -/
def write (chunk : Chunk) : Text :=
  chunk.writeBody ++ (Markup.closer ++ chunk.rest)

theorem branches_of_not_isInfix {content : Text} (h : ¬ Markup.elseMark <:+: content) :
    branches content = (content, none) := by
  rw [branches, Text.splitOnce?_of_not_isInfix Markup.elseMark_ne_nil h]

theorem branches_append {content alternative : Text}
    (hcontent : Clear Markup.elseMark content (Markup.elseMark ++ alternative))
    (halternative : ¬ Markup.elseMark <:+: alternative) :
    branches (content ++ (Markup.elseMark ++ alternative)) = (content, some alternative) := by
  rw [branches, Text.splitOnce?_append_sep_append Markup.elseMark_ne_nil hcontent]
  simp [Text.occursIn_iff_isInfix, halternative]

theorem ofText_write {chunk : Chunk} (hkey : '}' ∉ chunk.key)
    (hbody : Clear Markup.closer chunk.writeBody (Markup.closer ++ chunk.rest))
    (hbranches : branches (writeBranches chunk.content chunk.alternative) =
      (chunk.content, chunk.alternative)) : ofText chunk.write = chunk := by
  have hcloser : Text.splitOnce Markup.closer chunk.write = (chunk.writeBody, chunk.rest) :=
    Text.splitOnce_append_sep_append Markup.closer_ne_nil hbody
  have hbrace : Text.splitOnce ['}'] chunk.writeBody =
      (chunk.key, writeBranches chunk.content chunk.alternative) :=
    Text.splitOnce_append_sep_append (List.cons_ne_nil '}' []) (Text.clear_of_notMem hkey _)
  simp only [ofText, hcloser, hbrace, hbranches]

end Chunk

/-! ### Chunks of what is put together -/

/-- A text in which no opener begins goes before the chunks of what follows. -/
theorem chunks_append {a b : Text} (h : Clear Markup.opener a b) :
    chunks (a ++ b) = (a ++ (chunks b).1, (chunks b).2) := by
  simp only [chunks, Text.splitAll_append_of_clear h]

/-- A block that is written out is a chunk together with what stands before the next block. -/
theorem chunks_opener_append {body b : Text}
    (h : Clear Markup.opener (body ++ Markup.closer) b) :
    chunks (Markup.opener ++ (body ++ (Markup.closer ++ b))) =
      ([], Chunk.ofText (body ++ (Markup.closer ++ (chunks b).1)) :: (chunks b).2) := by
  have hpieces := Text.splitAll_append_of_clear h
  rw [List.append_assoc] at hpieces
  simp only [chunks, Text.splitAll_sep_append Markup.opener_ne_nil, hpieces, List.map_cons,
    List.append_assoc]

variable {vars : Variables} {spacer : Text}

theorem filterBlocks_append {a b : Text} (h : Clear Markup.opener a b) :
    filterBlocks (a ++ b) vars spacer = a ++ filterBlocks b vars spacer := by
  simp only [filterBlocks, chunks_append h, List.append_assoc]

/-- The blocks of a template in the order in which they stand there. -/
def blockList (raw : Text) (vars : Variables) (spacer : Text) : List (Text × Block) :=
  (chunks raw).2.map fun chunk => (chunk.key, chunk.block vars spacer)

theorem extractBlocks_eq_ofList (raw : Text) (vars : Variables) (spacer : Text) :
    extractBlocks raw vars spacer = OrderedMap.ofList (blockList raw vars spacer) :=
  rfl

theorem blockList_append {a b : Text} (h : Clear Markup.opener a b) :
    blockList (a ++ b) vars spacer = blockList b vars spacer := by
  simp only [blockList, chunks_append h]

/-- A template without blocks has no branches to choose. -/
theorem filterBlocks_of_isEmpty {raw : Text} (h : (extractBlocks raw vars spacer).isEmpty = true)
    (vars' : Variables) (spacer' : Text) : filterBlocks raw vars' spacer' = raw := by
  have hnone := (OrderedMap.eq_nil_of_isEmpty_insertAll h).1
  have hlater : (Text.splitAll Markup.opener raw).later = [] :=
    List.map_eq_nil_iff.1 (List.map_eq_nil_iff.1 hnone)
  have hjoin := Text.joinWith_splitAll Markup.opener_ne_nil raw
  rw [Text.Pieces.joinWith, hlater] at hjoin
  simpa [filterBlocks, chunks, hlater] using hjoin

/-! ### Shorthands -/

theorem expandShorthand_append {a b : Text} (h : Clear Markup.shorthandOpener a b) :
    expandShorthand (a ++ b) = a ++ expandShorthand b := by
  simp only [expandShorthand, Text.splitAll_append_of_clear h, List.append_assoc]

/-- The beginning of a block over an array is written in full. -/
theorem expandShorthand_shorthandOpener_append {name b : Text}
    (hname : Clear Markup.shorthandOpener (name ++ Markup.shorthandCloser) b)
    (hclose : ']' ∉ name) :
    expandShorthand (Markup.shorthandOpener ++ (name ++ (Markup.shorthandCloser ++ b))) =
      arrayBlockStart name ++ expandShorthand b := by
  have hpieces := Text.splitAll_append_of_clear hname
  rw [List.append_assoc] at hpieces
  have hcut : ∀ rest, Text.splitOnce Markup.shorthandCloser
      (name ++ (Markup.shorthandCloser ++ rest)) = (name, rest) := fun rest =>
    Text.splitOnce_append_sep_append Markup.shorthandCloser_ne_nil
      (Text.clear_of_notMem hclose _)
  simp only [expandShorthand, Text.splitAll_sep_append Markup.shorthandOpener_ne_nil, hpieces,
    List.flatMap_cons, List.nil_append, List.append_assoc, hcut]

end MarkerTemplate
