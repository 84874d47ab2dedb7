import MarkerTemplate.Proofs.Conditional.Printed

/-!
# Openers part a template

An opener begins a block whatever stands before it, so a template may be cut at any of its openers
and the two parts taken by themselves. This asks nothing of the parts: what is malformed in the
first one ends at the opener.
-/

namespace MarkerTemplate

/-- The chunks of a template with an opener in it are those before the opener and those from it
on. -/
theorem chunks_append_opener (raw behind : Text) :
    chunks (raw ++ (Markup.opener ++ behind)) =
      ((chunks raw).1, (chunks raw).2 ++ (chunks (Markup.opener ++ behind)).2) := by
  have hmark : '{' ∉ ['?', ':'] := by decide
  have hwhole := Text.splitAll_append_sep_append hmark raw behind
  have hbehind := Text.splitAll_sep_append Markup.opener_ne_nil behind
  simp only [chunks, hbehind]
  rw [Markup.opener, hwhole, List.map_append]

theorem fst_chunks_opener_append (behind : Text) : (chunks (Markup.opener ++ behind)).1 = [] := by
  rw [chunks, Text.splitAll_sep_append Markup.opener_ne_nil]

/-- Of a template and another one that begins with an opener, put together, each is filtered by
itself. The blocks of the second are inserted behind those of the first: the keys of the first keep
their places, the new keys of the second follow in order, and a key of both has the block of the
second. -/
theorem blocks_append_of_isPrefix (raw : Text) {behind : Text} (h : Markup.opener <+: behind)
    (vars : Variables) (spacer : Text) :
    let first := extractBlocks raw vars spacer
    let second := extractBlocks behind vars spacer
    let both := extractBlocks (raw ++ behind) vars spacer
    filterBlocks (raw ++ behind) vars spacer =
        filterBlocks raw vars spacer ++ filterBlocks behind vars spacer ∧
      both = first.extend second ∧
      both.keys = first.keys ++ second.keys.filter (fun key => !first.contains key) ∧
      ∀ key, both.get? key = (second.get? key).or (first.get? key) := by
  intro first second both
  obtain ⟨behind, rfl⟩ := h
  have hchunks := chunks_append_opener raw behind
  have hboth : both = first.extend second := by
    show extractBlocks _ vars spacer = _
    rw [extractBlocks, hchunks, List.map_append, OrderedMap.ofList_append]
    rfl
  refine ⟨?_, hboth, ?_, fun key => ?_⟩
  · simp only [filterBlocks, hchunks, fst_chunks_opener_append, List.flatMap_append,
      List.append_assoc, List.nil_append]
  · rw [hboth]
    exact OrderedMap.keys_insertAll second.keys_nodup first
  · rw [hboth]
    exact first.get?_extend second key

/-- A template with a block without a closer and an opener without a key, which ends inside of what
might become another opener. -/
def malformedTemplate : Text :=
  "{:?}{?:x}a\x7b?:{?:y}b\x7b?".toList

/-- A template with blocks for two keys of the malformed one, in the other order. -/
def keysAgain : Text :=
  "{?:y}1{:?}{?:x}2{:else:}3{:?}4".toList

theorem blocks_append_of_isPrefix_malformedTemplate :
    let vars : Variables := .ofList [("y".toList, .text [])]
    let both := malformedTemplate ++ keysAgain
    Markup.opener <+: keysAgain ∧
      filterBlocks both vars "-".toList = "{:?}---b\x7b?--1--3-4".toList ∧
      (extractBlocks both vars "-".toList).keys = ["x".toList, [], "y".toList] := by
  intro vars both
  have hopener : Markup.opener <+: keysAgain := by decide
  obtain ⟨hfilter, -, hkeys, -⟩ :=
    blocks_append_of_isPrefix malformedTemplate hopener vars "-".toList
  refine ⟨hopener, ?_, ?_⟩
  · rw [hfilter]
    decide
  · rw [hkeys]
    decide

end MarkerTemplate
