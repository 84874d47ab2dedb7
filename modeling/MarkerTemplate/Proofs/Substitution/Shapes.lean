import MarkerTemplate.Proofs.OrderedMap
import MarkerTemplate.Proofs.Substitution.Attempts

/-!
# The shapes of suppliers

Whether a supplier hands over its text at once, through a callback or after some turns decides
which way substitution takes, but not what it comes to.

## Main definitions

- `Value.Alike` — values that are the same up to the shape of a supplier
- `Variables.Alike` — mappings whose values are alike, key by key
- `Visit.Related` — visits that differ only in their values, which are related

## Design notes

Both relations carry a condition `waits` that holds if a supplier never replies. With `True` they
say nothing about that; with `False` they say that every supplier replies.
-/

namespace MarkerTemplate

/-- The values are the same at the key, but for the shape of a supplier. Suppliers reply the same
text to the key whenever they are asked, and either both or neither of them never hands it over,
for which `waits` must hold. -/
inductive Value.Alike (waits : Prop) (key : Text) : Value → Value → Prop
  | data {value : Value} : (∀ supplier, value ≠ .supplied supplier) → Alike waits key value value
  | supplied {supplier supplier' : Supplier} :
      (∀ m n, supplier.reply key m = supplier'.reply key n) →
      (supplier.shape = .never ↔ supplier'.shape = .never) →
      (supplier.shape = .never → waits) →
      Alike waits key (.supplied supplier) (.supplied supplier')

/-- The mappings have the same keys in the same order, and values that are alike. -/
def Variables.Alike (waits : Prop) (vars vars' : Variables) : Prop :=
  OrderedMap.Related (Value.Alike waits) vars vars'

variable {waits : Prop}

theorem Value.Alike.symm {key : Text} {value value' : Value} (h : value.Alike waits key value') :
    value'.Alike waits key value := by
  cases h with
  | data hdata => exact Value.Alike.data hdata
  | supplied hreply hnever hwaits =>
    exact Value.Alike.supplied (fun m n => (hreply n m).symm) hnever.symm
      fun h => hwaits (hnever.2 h)

theorem Variables.Alike.symm {vars vars' : Variables} (h : vars.Alike waits vars') :
    vars'.Alike waits vars := by
  refine List.Forall₂.flip (h.imp ?_)
  intro entry entry' hentry
  refine ⟨hentry.1.symm, ?_⟩
  rw [← hentry.1]
  exact hentry.2.symm

/-- Suppliers that reply the same as others reply to their key alone. -/
theorem Variables.Alike.keyOnly {vars vars' : Variables} (h : vars.Alike waits vars') :
    vars.KeyOnly := by
  intro key supplier hentry
  obtain ⟨entry', -, -, hvalue⟩ := h.exists_of_mem hentry
  generalize entry'.2 = value' at hvalue
  cases hvalue with
  | data hdata => exact absurd rfl (hdata supplier)
  | supplied hreply _ _ =>
    intro m n
    exact (hreply m 0).trans (hreply n 0).symm

/-! ### Visits -/

/-- The visits have the same pass and key, and values that are related at that key. -/
def Visit.Related (V : Text → Value → Value → Prop) (visit visit' : Visit) : Prop :=
  visit.sweep = visit'.sweep ∧ visit.key = visit'.key ∧ V visit.key visit.value visit'.value

theorem forall₂_visits {V : Text → Value → Value → Prop} {vars vars' : Variables}
    (h : OrderedMap.Related V vars vars') :
    List.Forall₂ (Visit.Related V) vars.visits vars'.visits := by
  have hsweep : ∀ sweep : Sweep, List.Forall₂ (Visit.Related V)
      (vars.entries.map fun entry => ⟨sweep, entry.1, entry.2⟩)
      (vars'.entries.map fun entry => ⟨sweep, entry.1, entry.2⟩) := by
    intro sweep
    rw [List.forall₂_map_left_iff, List.forall₂_map_right_iff]
    exact h.imp fun entry entry' hentry => ⟨rfl, hentry.1, hentry.2⟩
  simp only [Variables.visits, List.flatMap_cons, List.flatMap_nil, List.append_nil]
  exact List.rel_append (hsweep .plain) (hsweep .json)

theorem Supplier.result_call (supplier : Supplier) (key : Text) (history : History) :
    (supplier.call key history).result =
      if supplier.shape = .never then none
      else some (supplier.reply key (history.count supplier.id + 1)) := by
  unfold Supplier.call
  cases supplier.shape <;> rfl

/-- Asking suppliers that reply the same comes to the same text. -/
theorem agree_call {supplier supplier' : Supplier} {key : Text}
    (hreply : ∀ m n, supplier.reply key m = supplier'.reply key n)
    (hnever : supplier.shape = .never ↔ supplier'.shape = .never)
    (hwaits : supplier.shape = .never → waits) :
    Effect.Agree waits (supplier.call key) (supplier'.call key) := by
  intro history history'
  rw [Supplier.result_call, Supplier.result_call]
  by_cases h : supplier.shape = .never
  · rw [if_pos h, if_pos (hnever.1 h)]
    exact ⟨rfl, fun _ => hwaits h⟩
  · rw [if_neg h, if_neg fun h' => h (hnever.2 h')]
    refine ⟨congrArg some (hreply _ _), fun hnone => ?_⟩
    cases hnone

theorem source_supplied (sweep : Sweep) (key : Text) (supplier : Supplier) (s : Text) :
    (⟨sweep, key, .supplied supplier⟩ : Visit).source s =
      if Text.occursIn (sweep.marker key) s then .ask supplier else .absent := by
  cases sweep <;> rfl

/-- Whatever the shapes, the second attempt comes to the same text. -/
theorem agree_deferVisits {visits visits' : List Visit}
    (h : List.Forall₂ (Visit.Related (Value.Alike waits)) visits visits') (s : Text) :
    Effect.Agree waits (deferVisits visits s) (deferVisits visits' s) := by
  induction h generalizing s with
  | nil => exact Effect.agree_pure s
  | @cons visit visit' visits visits' hvisit _ ih =>
    obtain ⟨sweep, key, value⟩ := visit
    obtain ⟨sweep', key', value'⟩ := visit'
    obtain ⟨hsweep, hkey, hvalue⟩ := hvisit
    obtain rfl : sweep = sweep' := hsweep
    obtain rfl : key = key' := hkey
    cases hvalue with
    | data hdata =>
      unfold deferVisits
      split
      · exact Effect.agree_pause.bind fun _ => ih _
      · exact ih s
      · rename_i supplier hsource
        exact absurd (Visit.value_of_source_eq_ask hsource) (hdata supplier)
    | @supplied supplier supplier' hreply hnever hwaits =>
      unfold deferVisits
      rw [source_supplied, source_supplied]
      -- The shapes may differ here, but both suppliers are asked or neither is.
      by_cases hoccurs : Text.occursIn (sweep.marker key) s = true
      · rw [if_pos hoccurs, if_pos hoccurs]
        refine Effect.Agree.bind ?_ fun replacement => Effect.agree_pause.bind fun _ => ih _
        exact (agree_call hreply hnever hwaits).bind fun reply => Effect.agree_pure _
      · rw [if_neg hoccurs, if_neg hoccurs]
        exact ih s

/-! ### Substitution -/

/-- With suppliers that reply to their keys alone, substitution comes to what the second attempt
comes to by itself. -/
theorem result_substitute {vars : Variables} (h : vars.KeyOnly) (raw : Text)
    (history history' : History) :
    (substitute raw vars history).result = (substituteDeferred raw vars history').result := by
  have hsteady := steady_substituteDeferred h raw
  obtain ⟨-, ⟨t, hfast, hslow, -⟩ | ⟨hfast, -⟩⟩ := attempts_lockstep vars.visits raw history
  · rw [substitute_of_some hfast, hsteady history' history]
    exact hslow.symm
  · rw [substitute_of_none hfast, hsteady history']

/-- Whatever the shapes, substitution comes to the same text. -/
theorem agree_substitute {vars vars' : Variables} (h : vars.Alike waits vars') (raw : Text) :
    Effect.Agree waits (substitute raw vars) (substitute raw vars') := by
  intro history history'
  rw [result_substitute h.keyOnly raw history history,
    result_substitute h.symm.keyOnly raw history' history']
  exact agree_deferVisits (forall₂_visits h) raw history history'

end MarkerTemplate
