import MarkerTemplate.Merge
import MarkerTemplate.Proofs.Conditional.Chunks

/-!
# The depth of merging

Merging calls for itself, for the items of arrays. How deep does it get?

## Main definitions

- `mergeAbove` — merges inside one another, down to a depth below which another function is used

## Design notes

An item is the text of a block for the case that its key is not bound: a part of the text between
two openers, with the spacer behind it. Items are merged without a spacer, so at the second level
an item holds no opener, and its merge has no blocks and no items. What a merge would do below
that level cannot be told from the whole run.
-/

namespace MarkerTemplate

/-- A merge with `depth` merges inside one another, where `bottom` takes the place of those that
would come below them. -/
def mergeAbove (bottom : Merger) : (depth : Nat) → (raw : Text) → Variables → (spacer : Text) →
    Effect Text
  | 0, raw, vars, _ => bottom raw vars
  | depth + 1, raw, vars, spacer =>
    mergeStep (fun item scope => mergeAbove bottom depth item scope []) raw vars spacer

theorem mergeWithin_eq_mergeAbove (depth : Nat) (raw : Text) (vars : Variables) (spacer : Text) :
    mergeWithin depth raw vars spacer =
      mergeAbove (fun _ _ => Effect.forever) depth raw vars spacer := by
  induction depth generalizing raw vars spacer with
  | zero => rfl
  | succ depth ih => simp only [mergeWithin, mergeAbove, ih]

/-! ### What a merge asks of the merges inside of it -/

theorem renderElements_congr {merger merger' : Merger} {template : Text}
    (h : ∀ scope, merger template scope = merger' template scope) (spacer : Text)
    (scopes : List Variables) :
    renderElements merger template spacer scopes =
      renderElements merger' template spacer scopes := by
  induction scopes with
  | nil => rfl
  | cons scope scopes ih => simp only [renderElements, h, ih]

theorem bindArrayBlocks_congr {merger merger' : Merger} {blocks : List (Text × Block)}
    (h : ∀ entry ∈ blocks, ∀ scope,
      merger entry.2.elseText scope = merger' entry.2.elseText scope)
    (spacer : Text) (vars : Variables) :
    bindArrayBlocks merger spacer blocks vars = bindArrayBlocks merger' spacer blocks vars := by
  induction blocks generalizing vars with
  | nil => rfl
  | cons entry blocks ih =>
    have hrest := ih fun later hlater => h later (List.mem_cons_of_mem entry hlater)
    obtain ⟨key, block⟩ := entry
    unfold bindArrayBlocks
    split
    · exact hrest vars
    · split
      · unfold renderCollectionWith
        rw [renderElements_congr (h (key, block) List.mem_cons_self)]
        exact bind_congr fun rendered => hrest _
      · exact hrest _

/-- Only the texts of blocks for unbound keys are merged again. -/
theorem mergeStep_congr {merger merger' : Merger} {raw : Text} {vars : Variables} {spacer : Text}
    (h : ∀ entry ∈ (extractBlocks (expandShorthand raw) vars spacer).entries, ∀ scope,
      merger entry.2.elseText scope = merger' entry.2.elseText scope) :
    mergeStep merger raw vars spacer = mergeStep merger' raw vars spacer := by
  unfold mergeStep
  simp only [bindArrayBlocks_congr h]

/-- A template without openers is not merged again at all. -/
theorem mergeStep_of_not_isInfix {raw : Text} (h : ¬ Markup.opener <:+: raw) (merger : Merger)
    (vars : Variables) (spacer : Text) :
    mergeStep merger raw vars spacer = substitute raw vars := by
  unfold mergeStep
  simp only [expandShorthand_of_not_isInfix h, extractBlocks_isEmpty_of_not_isInfix h, if_true]

/-- Without a spacer, the items of a merge have no items of their own. -/
theorem mergeStep_nil_spacer (merger : Merger) (raw : Text) (vars : Variables) :
    mergeStep (fun item scope => mergeStep merger item scope []) raw vars [] =
      mergeStep substitute raw vars [] := by
  refine mergeStep_congr fun entry hentry scope => ?_
  exact mergeStep_of_not_isInfix (not_isInfix_elseText hentry) merger scope []

theorem mergeAbove_nil_spacer (bottom : Merger) (depth : Nat) (raw : Text) (vars : Variables) :
    mergeAbove bottom (depth + 2) raw vars [] = mergeStep substitute raw vars [] :=
  mergeStep_nil_spacer _ raw vars

theorem mergeAbove_eq (bottom : Merger) (depth : Nat) (raw : Text) (vars : Variables)
    (spacer : Text) :
    mergeAbove bottom (depth + 3) raw vars spacer =
      mergeStep (fun item scope => mergeStep substitute item scope []) raw vars spacer := by
  unfold mergeAbove
  simp only [mergeAbove_nil_spacer]

/-- A merge is a merge whose items are merged by steps without further items. -/
theorem merge_eq_mergeStep (raw : Text) (vars : Variables) (spacer : Text) :
    merge raw vars spacer =
      mergeStep (fun item scope => mergeStep substitute item scope []) raw vars spacer := by
  rw [merge, mergeWithin_eq_mergeAbove]
  exact mergeAbove_eq _ 0 raw vars spacer

/-- Merging calls for itself without any bound that could be noticed. -/
theorem merge_eq_mergeStep_merge (raw : Text) (vars : Variables) (spacer : Text) :
    merge raw vars spacer = mergeStep (merge · · []) raw vars spacer := by
  have hdeeper : mergeWithin 4 raw vars spacer = merge raw vars spacer := by
    rw [mergeWithin_eq_mergeAbove, merge_eq_mergeStep]
    exact mergeAbove_eq _ 1 raw vars spacer
  rw [← hdeeper]
  rfl

/-- At most three merges are ever inside one another, and at most two if there is no spacer:
whatever stands in the place of the merges below, the whole run is the same after every history,
and so it is with any larger bound on the depth. -/
theorem merge_depth_le (raw : Text) (vars : Variables) (spacer : Text) :
    (∀ bottom depth, mergeAbove bottom (depth + 3) raw vars spacer = merge raw vars spacer) ∧
      (∀ bottom depth, mergeAbove bottom (depth + 2) raw vars [] = mergeWithin 2 raw vars []) ∧
      (∀ depth, mergeWithin (depth + 3) raw vars spacer = merge raw vars spacer) ∧
      (∀ depth, mergeWithin (depth + 2) raw vars [] = mergeWithin 2 raw vars []) := by
  have htwo : mergeWithin 2 raw vars [] = mergeStep substitute raw vars [] := by
    rw [mergeWithin_eq_mergeAbove]
    exact mergeAbove_nil_spacer _ 0 raw vars
  refine ⟨?_, ?_, ?_, ?_⟩
  · intro bottom depth
    rw [mergeAbove_eq, merge_eq_mergeStep]
  · intro bottom depth
    rw [mergeAbove_nil_spacer, htwo]
  · intro depth
    rw [mergeWithin_eq_mergeAbove, mergeAbove_eq, merge_eq_mergeStep]
  · intro depth
    rw [mergeWithin_eq_mergeAbove, mergeAbove_nil_spacer, htwo]

end MarkerTemplate
