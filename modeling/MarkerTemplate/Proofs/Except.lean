/-!
# Computations that may fail

What a computation with errors comes to, told for its parts and then for the whole.

## Main definitions

- `Decides` — a computation gives a good value, or it fails, and it fails only for a stated reason

## Design notes

`Decides good bad x` is a contract in both directions. A value is not only good: that there is one
also says that no reason to fail was present. So a contract for a whole command follows from those
of its steps, although the reasons to fail in a later step are never looked at if an earlier one has
failed.
-/

namespace MarkerTemplate

variable {ε ε' α β : Type}

theorem exceptBind_eq_ok_iff {x : Except ε α} {f : α → Except ε β} {b : β} :
    x >>= f = .ok b ↔ ∃ a, x = .ok a ∧ f a = .ok b := by
  cases x <;> simp [bind, Except.bind]

/-- The computation has a good value and there is no reason for it to fail, or it fails for a
reason that there is. -/
inductive Decides (good : α → Prop) (bad : ε → Prop) : Except ε α → Prop
  | ok {a : α} : good a → (∀ e, ¬ bad e) → Decides good bad (.ok a)
  | error {e : ε} : bad e → Decides good bad (.error e)

namespace Decides

variable {good : α → Prop} {bad : ε → Prop} {good' : β → Prop} {bad' : ε → Prop}

/-- What a computation comes to is all that can be said of it. -/
theorem self (x : Except ε α) : Decides (fun a => x = .ok a) (fun e => x = .error e) x := by
  cases x with
  | ok a => exact .ok rfl fun _ h => nomatch h
  | error e => exact .error rfl

theorem pure {a : α} (h : good a) : Decides good (fun _ : ε => False) (.ok a) :=
  .ok h fun _ hbad => hbad

/-- The good values may be more, and the reasons to fail may be put in other words. -/
theorem congr {x : Except ε α} {good' : α → Prop} (h : Decides good bad x)
    (hgood : ∀ a, good a → good' a) (hbad : ∀ e, bad e ↔ bad' e) : Decides good' bad' x := by
  cases h with
  | ok ha hnone => exact .ok (hgood _ ha) fun e he => hnone e ((hbad e).2 he)
  | error he => exact .error ((hbad _).1 he)

theorem mapError {x : Except ε α} (h : Decides good bad x) (f : ε → ε') :
    Decides good (fun e' => ∃ e, bad e ∧ e' = f e) (x.mapError f) := by
  cases h with
  | ok ha hnone => exact .ok ha fun _ ⟨e, he, _⟩ => hnone e he
  | error he => exact .error ⟨_, he, rfl⟩

/-- One computation and then another fail for the reasons of either. Those of the second must not
depend on what the first has given. -/
theorem bind {x : Except ε α} {f : α → Except ε β} (hx : Decides good bad x)
    (hf : ∀ a, good a → Decides good' bad' (f a)) :
    Decides good' (fun e => bad e ∨ bad' e) (x >>= f) := by
  cases hx with
  | error he => exact .error (.inl he)
  | @ok a ha hnone =>
    show Decides good' _ (f a)
    have hrest := hf a ha
    generalize f a = y at hrest ⊢
    cases hrest with
    | ok hb hnone' => exact .ok hb fun e he => he.elim (hnone e) (hnone' e)
    | error he => exact .error (.inr he)

end Decides

end MarkerTemplate
