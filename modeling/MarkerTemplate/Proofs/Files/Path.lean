import Mathlib.Data.List.Induction
import MarkerTemplate.Files.Path
import MarkerTemplate.Proofs.Text.Splitting

/-!
# The path of the standard output

Which paths are the name `-`: it may have slashes and points behind it, but nothing before it, not
even a step that stays where it is.

## Main definitions

- `Path.IsDash` — the paths that stand for the standard output, as they are written
-/

namespace MarkerTemplate

namespace Path

/-- The path is the name `-`. Slashes may follow, each with nothing or a point behind it. -/
def IsDash (path : Text) : Prop :=
  ∃ idle : List Text, (∀ segment ∈ idle, segment = [] ∨ segment = ['.']) ∧
    path = '-' :: idle.flatMap (['/'] ++ ·)

theorem dropIdle_cons_cons (segment next : Text) (before : List Text) :
    dropIdle (segment :: next :: before) =
      if segment = [] ∨ segment = ['.'] then dropIdle (next :: before)
      else segment :: next :: before :=
  rfl

/-- Passing over idle segments leaves the first segment alone if all others are idle. -/
theorem dropIdle_reverse_eq_singleton_iff {first name : Text} {later : List Text} :
    dropIdle (first :: later).reverse = [name] ↔
      first = name ∧ ∀ segment ∈ later, segment = [] ∨ segment = ['.'] := by
  induction later using List.reverseRecOn with
  | nil => simp [dropIdle]
  | append_singleton later last ih =>
    obtain ⟨next, before, hbefore⟩ : ∃ next before, (first :: later).reverse = next :: before :=
      List.exists_cons_of_ne_nil (by simp)
    have hreverse : (first :: (later ++ [last])).reverse = last :: next :: before := by
      rw [← hbefore]
      simp
    rw [hbefore] at ih
    rw [hreverse, dropIdle_cons_cons, List.forall_mem_append, List.forall_mem_singleton]
    by_cases hidle : last = [] ∨ last = ['.']
    · rw [if_pos hidle, ih]
      simp only [hidle, and_true]
    · rw [if_neg hidle]
      simp [hidle]

/-- The segments of such a path are its name and those that lead nowhere. -/
theorem splitAll_dash {idle : List Text} (h : ∀ segment ∈ idle, segment = [] ∨ segment = ['.']) :
    Text.splitAll ['/'] ('-' :: idle.flatMap (['/'] ++ ·)) = ⟨['-'], idle⟩ := by
  let pieces : Text.Pieces := ⟨['-'], idle⟩
  have hclean : ∀ piece ∈ ['-'] :: idle, ¬ ['/'] <:+: piece := by
    refine List.forall_mem_cons.2 ⟨by decide, fun piece hpiece => ?_⟩
    rcases h piece hpiece with rfl | rfl <;> decide
  have hsplit : Text.splitAll ['/'] (pieces.joinWith ['/']) = pieces :=
    Text.splitAll_joinWith List.not_mem_nil hclean
  exact hsplit

theorem isStandardStream_iff {path : Text} : isStandardStream path = true ↔ IsDash path := by
  rw [isStandardStream, decide_eq_true_iff, segmentsFromEnd, dropIdle_reverse_eq_singleton_iff]
  constructor
  · rintro ⟨hfirst, hidle⟩
    refine ⟨(Text.splitAll ['/'] path).later, hidle, ?_⟩
    have hjoin := Text.joinWith_splitAll (List.cons_ne_nil '/' []) path
    rw [Text.Pieces.joinWith, hfirst] at hjoin
    exact hjoin.symm
  · rintro ⟨idle, hidle, rfl⟩
    rw [splitAll_dash hidle]
    exact ⟨rfl, hidle⟩

example : isStandardStream "-/./".toList = true ∧ isStandardStream "./-".toList = false := by
  decide

end Path

end MarkerTemplate
