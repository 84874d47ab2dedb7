import MarkerTemplate.Proofs.Conditional.Printed

/-!
# Templates put together from blocks

A template that is written out from blocks is read back as these blocks, and a template in which
every block is closed is written out from blocks in one way only.

## Main definitions

- `writeBlocks` — the text before the first block, and the blocks with what stands behind them
- `Chunk.Writable` — no part of the block holds a mark that would end it
- `IsClosed` — the text behind an opener has a key and a closer behind it

## Design notes

Reading has two levels: a template is cut at its openers, and each piece is taken apart by itself.
So the round trip is shown for pieces and for blocks, in both directions, and then put together.
-/

namespace MarkerTemplate

open Text (Clear)

/-- The template with the given text before its first block and with the given blocks. -/
def writeBlocks (before : Text) (chunks : List Chunk) : Text :=
  before ++ chunks.flatMap fun chunk => Markup.opener ++ chunk.write

/-- The parts of the block can be told apart when it is written out. -/
structure Chunk.Writable (chunk : Chunk) : Prop where
  -- No part holds an opener.
  key_opener : ¬ Markup.opener <:+: chunk.key
  content_opener : ¬ Markup.opener <:+: chunk.content
  alternative_opener : ∀ alternative, chunk.alternative = some alternative →
    ¬ Markup.opener <:+: alternative
  rest_opener : ¬ Markup.opener <:+: chunk.rest
  -- The key ends at the brace behind it, and this brace does not end a closer.
  key_brace : '}' ∉ chunk.key
  key_closer : ¬ ['{', ':', '?'] <:+ chunk.key
  -- The block ends at the closer behind it.
  content_closer : ¬ Markup.closer <:+: chunk.content
  alternative_closer : ∀ alternative, chunk.alternative = some alternative →
    ¬ Markup.closer <:+: alternative
  -- If there is an alternative, the mark before it is the only one.
  elseMark_of_some : ∀ alternative, chunk.alternative = some alternative →
    ¬ Markup.elseMark <:+: chunk.content ∧ ¬ Markup.elseMark <:+: alternative
  elseMark_of_none : chunk.alternative = none →
    Text.occurrences Markup.elseMark chunk.content ≠ 1

/-- There is a closer in the text, and the first one has a right brace before it. -/
def IsClosed (piece : Text) : Prop :=
  ∃ body rest, piece = body ++ Markup.closer ++ rest ∧ ¬ Markup.closer <:+: body ∧ '}' ∈ body

/-! ### Branches -/

/-- Marks before which a text without a mark stays free of it. -/
theorem clear_closer_of_not_isInfix {a : Text} (h : ¬ Markup.closer <:+: a) (b : Text) :
    Clear Markup.closer a ('{' :: b) :=
  Text.clear_of_not_isInfix (by decide) h b

theorem clear_opener_of_not_isInfix {a : Text} (h : ¬ Markup.opener <:+: a) {d : Char}
    (hd : d ∉ ['?', ':']) (b : Text) : Clear Markup.opener a (d :: b) :=
  Text.clear_of_not_isInfix hd h b

theorem clear_elseMark_of_not_isInfix {a : Text} (h : ¬ Markup.elseMark <:+: a) (b : Text) :
    Clear Markup.elseMark a (Markup.elseMark ++ b) :=
  Text.clear_of_not_isInfix (by decide) h _

namespace Chunk

theorem branches_of_cut {content before behind : Text}
    (h : Text.splitOnce? Markup.elseMark content = some (before, behind)) :
    branches content =
      if Text.occursIn Markup.elseMark behind then (content, none) else (before, some behind) := by
  rw [branches, h]

/-- How often the else mark stands in a content that is cut at the first one. -/
theorem occurrences_of_cut {content before behind : Text}
    (h : Text.splitOnce? Markup.elseMark content = some (before, behind)) :
    Text.occurrences Markup.elseMark content =
      1 + Text.occurrences Markup.elseMark behind := by
  have hbefore := Text.not_isInfix_of_splitOnce?_eq_some Markup.elseMark_ne_nil h
  rw [Text.splitOnce?_eq_append h, List.append_assoc,
    Text.occurrences_append_of_clear (clear_elseMark_of_not_isInfix hbefore behind)]
  exact Text.occurrences_pattern_append (by decide) behind

/-- A content in which the else mark does not stand exactly once has no alternative. -/
theorem branches_of_occurrences_ne_one {content : Text}
    (h : Text.occurrences Markup.elseMark content ≠ 1) : branches content = (content, none) := by
  cases hcut : Text.splitOnce? Markup.elseMark content with
  | none => rw [branches, hcut]
  | some cut =>
    obtain ⟨before, behind⟩ := cut
    rw [branches_of_cut hcut, if_pos]
    rw [Text.occursIn_iff_isInfix]
    by_contra hnone
    rw [occurrences_of_cut hcut,
      Text.occurrences_of_not_isInfix Markup.elseMark_ne_nil hnone] at h
    exact h rfl

/-- The two ways in which a content is read: as it is, or as two texts around its only else mark. -/
theorem branches_cases (content : Text) :
    (branches content = (content, none) ∧ Text.occurrences Markup.elseMark content ≠ 1) ∨
      ∃ before behind, branches content = (before, some behind) ∧
        content = before ++ (Markup.elseMark ++ behind) ∧
        ¬ Markup.elseMark <:+: before ∧ ¬ Markup.elseMark <:+: behind := by
  cases hcut : Text.splitOnce? Markup.elseMark content with
  | none =>
    refine Or.inl ⟨by rw [branches, hcut], ?_⟩
    have hnone : ¬ Markup.elseMark <:+: content := by
      intro hoccurs
      obtain ⟨_, _, hsome⟩ := Text.exists_splitOnce?_of_isInfix Markup.elseMark_ne_nil hoccurs
      rw [hcut] at hsome
      cases hsome
    rw [Text.occurrences_of_not_isInfix Markup.elseMark_ne_nil hnone]
    exact Nat.zero_ne_one
  | some cut =>
    obtain ⟨before, behind⟩ := cut
    rw [branches_of_cut hcut]
    by_cases hmore : Text.occursIn Markup.elseMark behind = true
    · rw [if_pos hmore]
      refine Or.inl ⟨rfl, ?_⟩
      have hpos := Text.occurrences_pos_of_isInfix Markup.elseMark_ne_nil
        (Text.occursIn_iff_isInfix.1 hmore)
      rw [occurrences_of_cut hcut]
      omega
    · rw [if_neg hmore]
      refine Or.inr ⟨before, behind, rfl, ?_, ?_, mt Text.occursIn_iff_isInfix.2 hmore⟩
      · rw [Text.splitOnce?_eq_append hcut, List.append_assoc]
      · exact Text.not_isInfix_of_splitOnce?_eq_some Markup.elseMark_ne_nil hcut

/-! ### From blocks to texts and back -/

namespace Writable

variable {chunk : Chunk} (h : chunk.Writable)

include h

theorem branches_writeBranches :
    branches (writeBranches chunk.content chunk.alternative) =
      (chunk.content, chunk.alternative) := by
  cases halternative : chunk.alternative with
  | none => exact branches_of_occurrences_ne_one (h.elseMark_of_none halternative)
  | some alternative =>
    obtain ⟨hcontent, hother⟩ := h.elseMark_of_some alternative halternative
    exact branches_append (clear_elseMark_of_not_isInfix hcontent alternative) hother

/-- No closer begins in the key or with the brace behind it. -/
theorem clear_closer_key (b : Text) : Clear Markup.closer chunk.key ('}' :: b) := by
  intro t hne ht hbegins
  have hbrace : '}' ∉ t := fun hmem => h.key_brace (ht.subset hmem)
  -- An occurrence that begins in the key ends at the first brace, which is the one behind it.
  obtain hinside | hacross := List.prefix_or_prefix_of_prefix hbegins
    (List.prefix_append t ('}' :: b))
  · exact hbrace (hinside.subset (by decide))
  · have hmark : Markup.closer = ['{', ':', '?'] ++ ['}'] := rfl
    rw [hmark] at hacross hbegins
    obtain rfl | hshort := List.prefix_concat_iff.1 hacross
    · exact hbrace (by decide)
    · obtain ⟨u, hu⟩ := hshort
      cases u with
      | nil =>
        rw [List.append_nil] at hu
        exact h.key_closer (hu ▸ ht)
      | cons e u =>
        rw [← hu, List.append_assoc, List.prefix_append_right_inj] at hbegins
        obtain ⟨rfl, -⟩ := List.cons_prefix_cons.1 hbegins
        have hmem : '}' ∈ ['{', ':', '?'] := hu ▸ List.mem_append_right t List.mem_cons_self
        exact absurd hmem (by decide)

theorem clear_closer_writeBody :
    Clear Markup.closer chunk.writeBody (Markup.closer ++ chunk.rest) := by
  apply Clear.append (h.clear_closer_key _)
  apply Clear.append (Text.clear_of_notMem (by decide) _)
  cases halternative : chunk.alternative with
  | none => exact clear_closer_of_not_isInfix h.content_closer _
  | some alternative =>
    apply Clear.append (clear_closer_of_not_isInfix h.content_closer _)
    apply Clear.append (clear_closer_elseMark _)
    exact clear_closer_of_not_isInfix (h.alternative_closer _ halternative) _

theorem ofText_write : ofText chunk.write = chunk :=
  Chunk.ofText_write h.key_brace h.clear_closer_writeBody h.branches_writeBranches

theorem not_isInfix_write : ¬ Markup.opener <:+: chunk.write := by
  rw [← Text.clear_nil_iff Markup.opener_ne_nil]
  refine Clear.append (Clear.append ?_ (Clear.append (Text.clear_of_notMem (by decide) _) ?_))
    (Clear.append (clear_opener_closer _) ?_)
  · exact clear_opener_of_not_isInfix h.key_opener (by decide) _
  · cases halternative : chunk.alternative with
    | none => exact clear_opener_of_not_isInfix h.content_opener (by decide) _
    | some alternative =>
      apply Clear.append (clear_opener_of_not_isInfix h.content_opener (by decide) _)
      apply Clear.append (clear_opener_elseMark _)
      exact clear_opener_of_not_isInfix (h.alternative_opener _ halternative) (by decide) _
  · exact (Text.clear_nil_iff Markup.opener_ne_nil).2 h.rest_opener

theorem isClosed_write : IsClosed chunk.write := by
  refine ⟨chunk.writeBody, chunk.rest, ?_, ?_, ?_⟩
  · rw [write, List.append_assoc]
  · intro hoccurs
    have hclear := h.clear_closer_writeBody
    obtain ⟨before, behind, hbody⟩ := hoccurs
    refine hclear (Markup.closer ++ behind) (List.append_ne_nil_of_left_ne_nil
      Markup.closer_ne_nil _) ⟨before, by rw [← hbody, List.append_assoc]⟩ ?_
    rw [List.append_assoc]
    exact List.prefix_append _ _
  · simp [writeBody]

end Writable

/-- A closed piece is read as a key up to its first brace, a content up to its first closer, in
which the branches are told apart, and the rest. -/
theorem exists_parts_of_isClosed {piece : Text} (h : IsClosed piece) :
    ∃ key content rest, piece = key ++ (['}'] ++ content) ++ (Markup.closer ++ rest) ∧
      '}' ∉ key ∧ ¬ Markup.closer <:+: key ++ (['}'] ++ content) ∧
      ofText piece = ⟨key, (branches content).1, (branches content).2, rest⟩ := by
  obtain ⟨body, rest, rfl, hcloser, hbrace⟩ := h
  obtain ⟨key, content, rfl, hkey⟩ := List.eq_append_cons_of_mem hbrace
  refine ⟨key, content, rest, by rw [List.append_assoc]; rfl, hkey, hcloser, ?_⟩
  have hbody := Text.splitOnce_append_sep_append Markup.closer_ne_nil
    (clear_closer_of_not_isInfix hcloser (':' :: '?' :: '}' :: rest))
  have hcut : Text.splitOnce ['}'] (key ++ '}' :: content) = (key, content) :=
    Text.splitOnce_append_sep_append (List.cons_ne_nil '}' []) (Text.clear_of_notMem hkey _)
  rw [List.append_assoc]
  simp only [ofText, hbody, hcut]

/-- A closed piece is the text of the block that is read from it. -/
theorem write_ofText {piece : Text} (h : IsClosed piece) : (ofText piece).write = piece := by
  obtain ⟨key, content, rest, hpiece, -, -, hread⟩ := exists_parts_of_isClosed h
  rw [hread, hpiece, write, writeBody]
  obtain ⟨hbranches, -⟩ | ⟨before, behind, hbranches, hcontent, -⟩ := branches_cases content
  · rw [hbranches]
    rfl
  · rw [hbranches, hcontent]
    rfl

theorem isInfix_of_branches (content : Text) : (branches content).1 <:+: content := by
  obtain ⟨hbranches, -⟩ | ⟨before, behind, hbranches, hcontent, -⟩ := branches_cases content
  · have hall : (branches content).1 = content := congrArg Prod.fst hbranches
    exact hall.symm ▸ List.infix_rfl
  · rw [hbranches, hcontent]
    exact (List.prefix_append before _).isInfix

/-- The block that is read from a closed piece can be written out. -/
theorem writable_ofText {piece : Text} (h : IsClosed piece)
    (hopener : ¬ Markup.opener <:+: piece) : (ofText piece).Writable := by
  obtain ⟨key, content, rest, hpiece, hkey, hcloser, hread⟩ := exists_parts_of_isClosed h
  have hbody : key ++ (['}'] ++ content) <:+: piece := by
    rw [hpiece]
    exact (List.prefix_append _ _).isInfix
  have hkeyPart : key <:+: key ++ (['}'] ++ content) := (List.prefix_append key _).isInfix
  have hcontentPart : content <:+: key ++ (['}'] ++ content) := by
    rw [← List.append_assoc]
    exact (List.suffix_append _ content).isInfix
  have hrestPart : rest <:+: piece := by
    rw [hpiece, ← List.append_assoc]
    exact (List.suffix_append _ rest).isInfix
  -- The branches are parts of the content, and this is a part of the body.
  have hfirst := (isInfix_of_branches content).trans hcontentPart
  have hsecond : ∀ alternative, (branches content).2 = some alternative →
      alternative <:+: key ++ (['}'] ++ content) := fun _ hsome =>
    (alternative_isInfix_of_branches hsome).trans hcontentPart
  rw [hread]
  exact {
    key_opener := fun hmark => hopener (hmark.trans (hkeyPart.trans hbody))
    content_opener := fun hmark => hopener (hmark.trans (hfirst.trans hbody))
    alternative_opener := fun alternative hsome hmark =>
      hopener (hmark.trans ((hsecond alternative hsome).trans hbody))
    rest_opener := fun hmark => hopener (hmark.trans hrestPart)
    key_brace := hkey
    key_closer := by
      -- Such a key would make a closer together with the brace behind it.
      rintro ⟨before, rfl⟩
      exact hcloser ⟨before, content, by simp [Markup.closer]⟩
    content_closer := fun hmark => hcloser (hmark.trans hfirst)
    alternative_closer := fun alternative hsome hmark =>
      hcloser (hmark.trans (hsecond alternative hsome))
    elseMark_of_some := by
      intro alternative hsome
      obtain ⟨hbranches, -⟩ | ⟨before, behind, hbranches, -, hmarks⟩ := branches_cases content
      · rw [hbranches] at hsome
        cases hsome
      · rw [hbranches] at hsome ⊢
        cases hsome
        exact hmarks
    elseMark_of_none := by
      intro hnone
      obtain ⟨hbranches, hcount⟩ | ⟨before, behind, hbranches, -⟩ := branches_cases content
      · rw [hbranches]
        exact hcount
      · rw [hbranches] at hnone
        cases hnone }

end Chunk

/-! ### Whole templates -/

theorem writeBlocks_eq_joinWith (before : Text) (chunks : List Chunk) :
    writeBlocks before chunks =
      Text.Pieces.joinWith Markup.opener ⟨before, chunks.map Chunk.write⟩ := by
  rw [writeBlocks, Text.Pieces.joinWith, List.flatMap_map]

/-- A template that is written out is cut at the openers that were written. -/
theorem splitAll_writeBlocks {before : Text} {chunks : List Chunk}
    (hbefore : ¬ Markup.opener <:+: before) (h : ∀ chunk ∈ chunks, chunk.Writable) :
    Text.splitAll Markup.opener (writeBlocks before chunks) =
      ⟨before, chunks.map Chunk.write⟩ := by
  rw [writeBlocks_eq_joinWith]
  refine Text.splitAll_joinWith (by decide) (List.forall_mem_cons.2 ⟨hbefore, ?_⟩)
  intro piece hpiece
  obtain ⟨chunk, hchunk, rfl⟩ := List.mem_map.1 hpiece
  exact (h chunk hchunk).not_isInfix_write

theorem chunks_writeBlocks {before : Text} {written : List Chunk}
    (hbefore : ¬ Markup.opener <:+: before) (h : ∀ chunk ∈ written, chunk.Writable) :
    chunks (writeBlocks before written) = (before, written) := by
  rw [chunks, splitAll_writeBlocks hbefore h, List.map_map]
  have hread : written.map (Chunk.ofText ∘ Chunk.write) = written := by
    refine (List.map_congr_left fun chunk hchunk => ?_).trans (List.map_id written)
    exact (h chunk hchunk).ofText_write
  simp only [hread]

/-- A template whose blocks are closed is written out from the blocks that are read from it. -/
theorem writeBlocks_chunks {raw : Text}
    (h : ∀ piece ∈ (Text.splitAll Markup.opener raw).later, IsClosed piece) :
    writeBlocks (chunks raw).1 (chunks raw).2 = raw := by
  have hpieces : (chunks raw).2.map Chunk.write = (Text.splitAll Markup.opener raw).later := by
    rw [chunks, List.map_map]
    refine (List.map_congr_left fun piece hpiece => ?_).trans (List.map_id _)
    exact Chunk.write_ofText (h piece hpiece)
  rw [writeBlocks_eq_joinWith, hpieces]
  exact Text.joinWith_splitAll Markup.opener_ne_nil raw

/-- The templates whose blocks are closed are those that are written out from writable blocks, and
they are so in one way only. -/
theorem forall_isClosed_iff_existsUnique (raw : Text) :
    (∀ piece ∈ (Text.splitAll Markup.opener raw).later, IsClosed piece) ↔
      ∃! written : Text × List Chunk,
        (¬ Markup.opener <:+: written.1 ∧ ∀ chunk ∈ written.2, chunk.Writable) ∧
          writeBlocks written.1 written.2 = raw := by
  constructor
  · intro h
    have hopener := Text.not_isInfix_of_mem_splitAll Markup.opener_ne_nil raw
    refine ⟨chunks raw, ⟨⟨hopener _ List.mem_cons_self, fun chunk hchunk => ?_⟩,
      writeBlocks_chunks h⟩, ?_⟩
    · obtain ⟨piece, hpiece, rfl⟩ := List.mem_map.1 hchunk
      exact Chunk.writable_ofText (h piece hpiece)
        (hopener piece (List.mem_cons_of_mem _ hpiece))
    · rintro ⟨before, written⟩ ⟨⟨hbefore, hwritten⟩, rfl⟩
      exact (chunks_writeBlocks hbefore hwritten).symm
  · rintro ⟨⟨before, written⟩, ⟨⟨hbefore, hwritten⟩, rfl⟩, -⟩ piece hpiece
    rw [splitAll_writeBlocks hbefore hwritten] at hpiece
    obtain ⟨chunk, hchunk, rfl⟩ := List.mem_map.1 hpiece
    exact (hwritten chunk hchunk).isClosed_write

/-- Blocks that are written out are read back as they are: they are listed by key, in order, and the
branch of each is chosen by whether its key is bound. And a template is written out from such blocks
in exactly one way if, in the text behind each of its openers up to the next, there is a closer and
the first one has a right brace before it; otherwise it is not written out from blocks at all. -/
theorem blocks_written_iff_read :
    (∀ (before : Text) (written : List Chunk), ¬ Markup.opener <:+: before →
      (∀ chunk ∈ written, chunk.Writable) → ∀ (vars : Variables) (spacer : Text),
      extractBlocks (writeBlocks before written) vars spacer =
          OrderedMap.ofList (written.map fun chunk => (chunk.key,
            ⟨chunk.key, chunk.content, chunk.alternative.elim [] (· ++ spacer),
              vars.contains chunk.key⟩)) ∧
        filterBlocks (writeBlocks before written) vars spacer =
          before ++ written.flatMap fun chunk =>
            spacer ++
              (if vars.contains chunk.key then chunk.content ++ spacer
                else chunk.alternative.elim [] (· ++ spacer)) ++
              chunk.rest) ∧
      ∀ raw : Text,
        (∀ piece ∈ (Text.splitAll Markup.opener raw).later, IsClosed piece) ↔
          ∃! written : Text × List Chunk,
            (¬ Markup.opener <:+: written.1 ∧ ∀ chunk ∈ written.2, chunk.Writable) ∧
              writeBlocks written.1 written.2 = raw := by
  refine ⟨fun before written hbefore hwritten vars spacer => ?_, forall_isClosed_iff_existsUnique⟩
  have helse : ∀ chunk : Chunk,
      chunk.elseText spacer = chunk.alternative.elim [] (· ++ spacer) := by
    intro chunk
    rw [Chunk.elseText]
    cases chunk.alternative <;> rfl
  have hread := chunks_writeBlocks hbefore hwritten
  constructor
  · simp only [extractBlocks, hread, Chunk.block, helse]
  · simp only [filterBlocks, hread, Chunk.select, helse]

/-- A template with two blocks: one with an alternative, and one with two else marks. -/
def twoBlocks : List Chunk :=
  [⟨"a".toList, "x{y}".toList, some "{else}".toList, "|".toList⟩,
    ⟨"b".toList, "1{:else:}2{:else:}3".toList, none, "{:?}".toList⟩]

theorem writable_twoBlocks : ∀ chunk ∈ twoBlocks, chunk.Writable := by
  simp only [twoBlocks, List.forall_mem_cons, List.not_mem_nil, false_implies, implies_true,
    and_true]
  constructor
  · constructor
    case alternative_opener | alternative_closer | elseMark_of_some =>
      intro alternative hsome
      cases hsome
      decide
    case elseMark_of_none =>
      intro hnone
      cases hnone
    all_goals decide
  · constructor
    case alternative_opener | alternative_closer | elseMark_of_some =>
      intro alternative hsome
      cases hsome
    all_goals decide

theorem blocks_written_iff_read_twoBlocks :
    (¬ Markup.opener <:+: "p{?}".toList ∧ ∀ chunk ∈ twoBlocks, chunk.Writable) ∧
      writeBlocks "p{?}".toList twoBlocks =
        "p{?}{?:a}x{y}{:else:}{else}{:?}|{?:b}1{:else:}2{:else:}3{:?}{:?}".toList ∧
      filterBlocks "p{?}{?:a}x{y}{:else:}{else}{:?}|{?:b}1{:else:}2{:else:}3{:?}{:?}".toList
        (.ofList [("b".toList, .text [])]) "-".toList =
          "p{?}-{else}-|-1{:else:}2{:else:}3-{:?}".toList := by
  have hbefore : ¬ Markup.opener <:+: "p{?}".toList := by decide
  have htext : writeBlocks "p{?}".toList twoBlocks =
      "p{?}{?:a}x{y}{:else:}{else}{:?}|{?:b}1{:else:}2{:else:}3{:?}{:?}".toList := by decide
  refine ⟨⟨hbefore, writable_twoBlocks⟩, htext, ?_⟩
  rw [← htext, (blocks_written_iff_read.1 _ _ hbefore writable_twoBlocks _ _).2]
  rfl

/-- The closer that counts is the first one. In this template only the second one has a brace before
it, and the template is not written out from blocks. -/
theorem not_written_of_brace_before_later_closer :
    (∀ piece ∈ (Text.splitAll Markup.opener "{?:x{:?}}{:?}".toList).later,
        ∃ body rest, piece = body ++ Markup.closer ++ rest ∧ '}' ∈ body) ∧
      ¬ ∃ written : Text × List Chunk,
        (¬ Markup.opener <:+: written.1 ∧ ∀ chunk ∈ written.2, chunk.Writable) ∧
          writeBlocks written.1 written.2 = "{?:x{:?}}{:?}".toList := by
  have hcut : (Text.splitAll Markup.opener "{?:x{:?}}{:?}".toList).later =
      ['x' :: Markup.closer ++ '}' :: Markup.closer] := by decide
  constructor
  · rw [hcut]
    intro piece hpiece
    rw [List.mem_singleton] at hpiece
    exact ⟨'x' :: Markup.closer ++ ['}'], [], hpiece, by decide⟩
  · rintro ⟨⟨before, written⟩, ⟨hbefore, hwritten⟩, htext⟩
    rw [← htext, splitAll_writeBlocks hbefore hwritten] at hcut
    have hmem : 'x' :: Markup.closer ++ '}' :: Markup.closer ∈ written.map Chunk.write := by
      show _ ∈ (⟨before, written.map Chunk.write⟩ : Text.Pieces).later
      rw [hcut]
      exact List.mem_cons_self
    obtain ⟨chunk, hchunk, hpiece⟩ := List.mem_map.1 hmem
    -- The piece is cut at its first closer, and no brace stands before that one.
    obtain ⟨body, rest, hsplit, hcloser, hbrace⟩ := (hwritten chunk hchunk).isClosed_write
    rw [hpiece, List.append_assoc] at hsplit
    have hbody := Text.splitOnce?_append_sep_append Markup.closer_ne_nil
      (clear_closer_of_not_isInfix hcloser (':' :: '?' :: '}' :: rest))
    have hfirst : Text.splitOnce? Markup.closer ('x' :: Markup.closer ++ '}' :: Markup.closer) =
        some (['x'], '}' :: Markup.closer) := by decide
    have hsame : some (['x'], '}' :: Markup.closer) = some (body, rest) := by
      rw [← hfirst, hsplit]
      exact hbody
    cases hsame
    exact absurd hbrace (by decide)

end MarkerTemplate
