import MarkerTemplate.Proofs.Template.Basic

/-!
# Reading written templates

A template that is written out is read piece by piece: its shorthands are expanded, its blocks are
listed and their branches are chosen as if every piece stood alone.

## Main definitions

- `Unmarked` — no mark of a block begins in the text
- `Chunk.Tidy` — the parts of a block are free of marks of blocks
- `Piece.expanded` — the piece with its shorthand written in full
- `Piece.filtered` — the piece with its branch chosen
-/

namespace MarkerTemplate

open Text (BraceFree Clear braced)

/-! ### Texts without marks of blocks -/

/-- No mark of a block begins in the text, whatever follows it. -/
def Unmarked (s : Text) : Prop :=
  ∀ c, c = '?' ∨ c = ':' → ∀ pattern b, Clear ('{' :: c :: pattern) s b

theorem unmarked_of_notMem {s : Text} (h : '{' ∉ s) : Unmarked s :=
  fun _ _ _ b => Text.clear_of_notMem h b

theorem Unmarked.append {a b : Text} (ha : Unmarked a) (hb : Unmarked b) : Unmarked (a ++ b) :=
  fun c hc pattern rest => (ha c hc pattern (b ++ rest)).append (hb c hc pattern rest)

theorem unmarked_braced {body : Text} (hbody : BraceFree body)
    (hmark : ∀ c, c = '?' ∨ c = ':' → c ∉ body) : Unmarked (braced body) := by
  intro c hc pattern b
  refine Text.clear_braced hbody fun hbegins => ?_
  have htail : c :: pattern <+: body ++ ('}' :: b) := by
    simpa [braced] using hbegins
  cases body with
  | nil =>
    obtain ⟨rfl, -⟩ := List.cons_prefix_cons.1 htail
    exact absurd hc (by decide)
  | cons d body =>
    obtain ⟨rfl, -⟩ := List.cons_prefix_cons.1 htail
    exact hmark c hc List.mem_cons_self

theorem Inline.unmarked_text (part : Inline) : Unmarked part.text := by
  cases part with
  | literal run => exact unmarked_of_notMem run.braceFree.1
  | marker sweep name =>
    rw [Inline.text, Sweep.marker_eq_braced]
    exact unmarked_braced (name.isName.braceFree_body sweep)
      fun c hc => name.isName.notMem_body hc sweep

theorem unmarked_textOf (parts : List Inline) : Unmarked (textOf parts) :=
  Text.flatMap_induction (unmarked_of_notMem List.not_mem_nil) Unmarked.append
    fun part _ => part.unmarked_text

theorem unmarked_arrayMarker (name : Name) : Unmarked (arrayMarker name.text) :=
  unmarked_braced name.isName.braceFree_array fun _ hc => name.isName.notMem_array hc

namespace Unmarked

variable {s : Text} (h : Unmarked s) (b : Text)

include h

theorem clear_opener : Clear Markup.opener s b :=
  h '?' (Or.inl rfl) _ b

theorem clear_shorthandOpener : Clear Markup.shorthandOpener s b :=
  h '?' (Or.inl rfl) _ b

theorem clear_elseMark : Clear Markup.elseMark s b :=
  h ':' (Or.inr rfl) _ b

omit b in
theorem not_isInfix_opener : ¬ Markup.opener <:+: s :=
  (Text.clear_nil_iff Markup.opener_ne_nil).1 (h.clear_opener [])

omit b in
theorem not_isInfix_elseMark : ¬ Markup.elseMark <:+: s :=
  (Text.clear_nil_iff Markup.elseMark_ne_nil).1 (h.clear_elseMark [])

end Unmarked

/-! ### Tidy blocks -/

namespace Chunk

/-- No mark of a block begins in a branch of the block, and its key has no brace. -/
structure Tidy (chunk : Chunk) : Prop where
  key : BraceFree chunk.key
  content : Unmarked chunk.content
  alternative : ∀ alternative, chunk.alternative = some alternative → Unmarked alternative

variable {chunk : Chunk} (h : chunk.Tidy)

include h

/-- A mark that neither the else mark begins with nor the closer is found nowhere in the block. -/
theorem Tidy.clear_writeBody {c : Char} (hc : c = '?' ∨ c = ':') {pattern : Text}
    (helse : ∀ rest, Clear ('{' :: c :: pattern) Markup.elseMark rest) (b : Text) :
    Clear ('{' :: c :: pattern) chunk.writeBody b := by
  have hbrace : '{' ∉ ['}'] := by decide
  apply Clear.append (Text.clear_of_notMem h.key.1 _)
  apply Clear.append (Text.clear_of_notMem hbrace _)
  cases halternative : chunk.alternative with
  | none => exact h.content c hc pattern b
  | some alternative =>
    apply Clear.append (h.content c hc pattern _)
    exact (helse _).append (h.alternative _ halternative c hc pattern b)

theorem Tidy.branches_eq :
    branches (writeBranches chunk.content chunk.alternative) =
      (chunk.content, chunk.alternative) := by
  cases halternative : chunk.alternative with
  | none => exact branches_of_not_isInfix h.content.not_isInfix_elseMark
  | some alternative =>
    exact branches_append (h.content.clear_elseMark _)
      (h.alternative _ halternative).not_isInfix_elseMark

/-- A tidy block is read back, with what follows it up to the next block. -/
theorem Tidy.chunks_append (b : Text) :
    chunks (Markup.opener ++ (chunk.writeBody ++ (Markup.closer ++ b))) =
      ([], { chunk with rest := (chunks b).1 } :: (chunks b).2) := by
  have hopener : Clear Markup.opener (chunk.writeBody ++ Markup.closer) b :=
    (h.clear_writeBody (Or.inl rfl) clear_opener_elseMark _).append (clear_opener_closer b)
  have hread : ofText { chunk with rest := (chunks b).1 }.write =
      { chunk with rest := (chunks b).1 } :=
    ofText_write h.key.2 (h.clear_writeBody (Or.inr rfl) clear_closer_elseMark _) h.branches_eq
  rw [chunks_opener_append hopener]
  exact congrArg (fun first => ([], first :: (chunks b).2)) hread

theorem Tidy.filterBlocks_append (hrest : chunk.rest = []) (vars : Variables) (spacer b : Text) :
    filterBlocks (Markup.opener ++ (chunk.writeBody ++ (Markup.closer ++ b))) vars spacer =
      chunk.select vars spacer ++ filterBlocks b vars spacer := by
  simp [filterBlocks, h.chunks_append, select, elseText, hrest]

theorem Tidy.blockList_append (vars : Variables) (spacer b : Text) :
    blockList (Markup.opener ++ (chunk.writeBody ++ (Markup.closer ++ b))) vars spacer =
      (chunk.key, chunk.block vars spacer) :: blockList b vars spacer := by
  simp only [blockList, h.chunks_append, List.map_cons]
  rfl

end Chunk

/-! ### Pieces -/

namespace Piece

/-- The block that the piece is, with its parts as they are written. -/
def chunk? : Piece → Option Chunk
  | .inline _ => none
  | .block name content alternative =>
    some ⟨name.text, textOf content, alternative.map textOf, []⟩
  | .array name item =>
    some ⟨name.text ++ Markup.arrayEnding, arrayMarker name.text, some (textOf item), []⟩

/-- The piece with its shorthand written in full. -/
def expanded (piece : Piece) : Text :=
  match piece.chunk? with
  | some chunk => Markup.opener ++ (chunk.writeBody ++ Markup.closer)
  | none => piece.text

/-- The piece with its branch chosen. -/
def filtered (vars : Variables) (spacer : Text) (piece : Piece) : Text :=
  match piece.chunk? with
  | some chunk => chunk.select vars spacer
  | none => piece.text

/-- The block of the piece by its key. -/
def entry? (vars : Variables) (spacer : Text) (piece : Piece) : Option (Text × Block) :=
  piece.chunk?.map fun chunk => (chunk.key, chunk.block vars spacer)

theorem tidy_of_chunk?_eq_some {piece : Piece} {chunk : Chunk} (h : piece.chunk? = some chunk) :
    chunk.Tidy ∧ chunk.rest = [] := by
  cases piece with
  | inline part => cases h
  | block name content alternative =>
    cases h
    refine ⟨⟨name.isName.braceFree, unmarked_textOf content, fun _ halternative => ?_⟩, rfl⟩
    obtain ⟨parts, -, rfl⟩ := Option.map_eq_some_iff.1 halternative
    exact unmarked_textOf parts
  | array name item =>
    cases h
    refine ⟨⟨name.isName.braceFree_array, unmarked_arrayMarker name, fun _ halternative => ?_⟩, rfl⟩
    cases halternative
    exact unmarked_textOf item

theorem unmarked_text_of_chunk?_eq_none {piece : Piece} (h : piece.chunk? = none) :
    Unmarked piece.text := by
  cases piece with
  | inline part => exact part.unmarked_text
  | block _ _ _ | array _ _ => cases h

theorem text_block (name : Name) (content : List Inline) (alternative : Option (List Inline)) :
    (block name content alternative).text = (block name content alternative).expanded := by
  cases alternative <;> simp [text, expanded, chunk?, Chunk.writeBody, Chunk.writeBranches]

/-- An opener with a name behind it is not one of a shorthand. -/
theorem clear_shorthandOpener_opener (name : Name) (t : Text) :
    Clear Markup.shorthandOpener Markup.opener (name.text ++ t) := by
  refine clear_mark (fun hbegins => ?_) (by decide)
  obtain ⟨u, hu⟩ := hbegins
  have htail : '[' :: u = name.text ++ t := by simpa using hu
  apply name.isName.head_ne t
  rw [← htail]
  rfl

/-- Expanding a template begins with expanding its first piece. -/
theorem expandShorthand_text_append (piece : Piece) (b : Text) :
    expandShorthand (piece.text ++ b) = piece.expanded ++ expandShorthand b := by
  cases piece with
  | inline part => exact expandShorthand_append (part.unmarked_text.clear_shorthandOpener b)
  | block name content alternative =>
    have hchunk : (block name content alternative).chunk? =
        some ⟨name.text, textOf content, alternative.map textOf, []⟩ := rfl
    have htidy := (tidy_of_chunk?_eq_some hchunk).1
    rw [text_block]
    apply expandShorthand_append
    refine Clear.append ?_ (Clear.append ?_ (clear_shorthandOpener_closer b))
    · simp only [Chunk.writeBody, List.append_assoc]
      exact clear_shorthandOpener_opener name _
    · exact htidy.clear_writeBody (Or.inl rfl) clear_shorthandOpener_elseMark _
  | array name item =>
    have hname : Clear Markup.shorthandOpener (name.text ++ Markup.shorthandCloser)
        (textOf item ++ (Markup.closer ++ b)) := by
      refine Text.clear_of_notMem ?_ _
      simp [name.isName.braceFree.1, Markup.shorthandCloser]
    have hitem : Clear Markup.shorthandOpener (textOf item ++ Markup.closer) b :=
      ((unmarked_textOf item).clear_shorthandOpener _).append (clear_shorthandOpener_closer b)
    have hexpand := expandShorthand_append hitem
    rw [List.append_assoc] at hexpand
    simp only [text, List.append_assoc]
    rw [expandShorthand_shorthandOpener_append hname name.isName.2.2.2.1, hexpand]
    simp [expanded, chunk?, Chunk.writeBody, Chunk.writeBranches, arrayBlockStart, arrayMarker,
      braced]

variable (vars : Variables) (spacer : Text)

/-- The chosen branch stands between spacers; if there is none, one spacer is left. -/
theorem filtered_block (name : Name) (content : List Inline)
    (alternative : Option (List Inline)) :
    (block name content alternative).filtered vars spacer =
      if vars.contains name.text then spacer ++ textOf content ++ spacer
      else
        match alternative with
        | some alternative => spacer ++ textOf alternative ++ spacer
        | none => spacer := by
  cases alternative <;> cases h : vars.contains name.text <;>
    simp [filtered, chunk?, Chunk.select, Chunk.elseText, h]

/-- A block over an array becomes the marker for its items, between spacers. -/
theorem filtered_array (name : Name) (item : List Inline)
    (h : vars.contains (name.text ++ Markup.arrayEnding) = true) :
    (array name item).filtered vars spacer = spacer ++ arrayMarker name.text ++ spacer := by
  simp [filtered, chunk?, Chunk.select, h]

theorem filterBlocks_expanded_append (piece : Piece) (b : Text) :
    filterBlocks (piece.expanded ++ b) vars spacer =
      piece.filtered vars spacer ++ filterBlocks b vars spacer := by
  unfold expanded filtered
  cases h : piece.chunk? with
  | none =>
    exact filterBlocks_append ((unmarked_text_of_chunk?_eq_none h).clear_opener b)
  | some chunk =>
    obtain ⟨htidy, hrest⟩ := tidy_of_chunk?_eq_some h
    simp only [List.append_assoc]
    exact htidy.filterBlocks_append hrest vars spacer b

theorem blockList_expanded_append (piece : Piece) (b : Text) :
    blockList (piece.expanded ++ b) vars spacer =
      (piece.entry? vars spacer).toList ++ blockList b vars spacer := by
  unfold expanded entry?
  cases h : piece.chunk? with
  | none => exact blockList_append ((unmarked_text_of_chunk?_eq_none h).clear_opener b)
  | some chunk =>
    simp only [List.append_assoc]
    exact (tidy_of_chunk?_eq_some h).1.blockList_append vars spacer b

end Piece

/-! ### Whole templates -/

section Pieces

variable (pieces : List Piece) (vars : Variables) (spacer : Text)

/-- The shorthands of a template are expanded piece by piece. -/
theorem expandShorthand_pieces :
    expandShorthand (pieces.flatMap Piece.text) = pieces.flatMap Piece.expanded := by
  induction pieces with
  | nil => rfl
  | cons piece pieces ih =>
    rw [List.flatMap_cons, List.flatMap_cons, Piece.expandShorthand_text_append, ih]

/-- The branches of its blocks are chosen piece by piece. -/
theorem filterBlocks_pieces :
    filterBlocks (pieces.flatMap Piece.expanded) vars spacer =
      pieces.flatMap (Piece.filtered vars spacer) := by
  induction pieces with
  | nil => rfl
  | cons piece pieces ih =>
    rw [List.flatMap_cons, List.flatMap_cons, Piece.filterBlocks_expanded_append, ih]

theorem blockList_pieces :
    blockList (pieces.flatMap Piece.expanded) vars spacer =
      pieces.filterMap (Piece.entry? vars spacer) := by
  induction pieces with
  | nil => rfl
  | cons piece pieces ih =>
    rw [List.flatMap_cons, Piece.blockList_expanded_append, ih]
    cases h : piece.entry? vars spacer <;> simp [h]

end Pieces

end MarkerTemplate
