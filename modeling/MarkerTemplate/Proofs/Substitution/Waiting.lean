import MarkerTemplate.Proofs.Effect.Waiting
import MarkerTemplate.Proofs.Substitution.Shapes

/-!
# Substitution that waits forever

Substitution waits forever for at most one text, that of the supplier it has asked last.

## Main definitions

- `Value.Unblocked` — values that are the same, but for a supplier that never hands over its text
- `Variables.Unblocked` — mappings whose values are like this, key by key
- `Variables.Finishing` — no supplier of the mapping is of this kind

## Design notes

The first attempt is broken off at every deferred supplier, whatever becomes of its text. So both
attempts are the same with either mapping until one such supplier is asked.
-/

namespace MarkerTemplate

/-- The values are the same, except that a supplier that never hands over its text may have become
a deferred one with any shape and any replies, for which `waits` must hold. It remains the same
supplier to those who count its calls. -/
inductive Value.Unblocked (waits : Prop) : Value → Value → Prop
  | same {value : Value} : (∀ supplier, value = .supplied supplier → supplier.shape ≠ .never) →
      Unblocked waits value value
  | replaced {supplier supplier' : Supplier} : supplier.shape = .never →
      supplier'.id = supplier.id → supplier'.shape.isDeferred = true → waits →
      Unblocked waits (.supplied supplier) (.supplied supplier')

/-- The mappings have the same keys in the same order. In the second one, suppliers that never
hand over their texts are replaced by deferred ones. -/
def Variables.Unblocked (waits : Prop) (vars vars' : Variables) : Prop :=
  OrderedMap.Related (fun _ => Value.Unblocked waits) vars vars'

/-- Every supplier of the mapping hands over its text. -/
def Variables.Finishing (vars : Variables) : Prop :=
  ∀ key supplier, (key, Value.supplied supplier) ∈ vars.entries → supplier.shape ≠ .never

theorem Variables.finishing_of_ne_supplied {vars : Variables}
    (h : ∀ entry ∈ vars.entries, ∀ supplier, entry.2 ≠ .supplied supplier) : vars.Finishing :=
  fun _ supplier hentry => absurd rfl (h _ hentry supplier)

variable {waits : Prop}

theorem Variables.Finishing.unblocked {vars : Variables} (h : vars.Finishing) :
    vars.Unblocked waits vars := by
  refine List.forall₂_same.2 fun entry hentry => ⟨rfl, Value.Unblocked.same ?_⟩
  intro supplier hvalue
  obtain ⟨key, value⟩ := entry
  obtain rfl : value = .supplied supplier := hvalue
  exact h key supplier hentry

/-! ### Asking -/

theorem Supplier.unblocked_call {supplier : Supplier} (h : supplier.shape ≠ .never) (key : Text) :
    Effect.Unblocked waits (supplier.call key) (supplier.call key) := by
  intro history
  have hresult := supplier.result_call key history
  rw [if_neg h] at hresult
  refine Run.Unblocked.same hresult fun call hcall => ?_
  rw [Supplier.calls_call] at hcall
  rw [List.mem_singleton.1 hcall]
  exact h

/-- A supplier that never replies is asked last, and another one in its place is asked as well. -/
theorem Supplier.unblocked_call_of_never {supplier supplier' : Supplier}
    (h : supplier.shape = .never) (hid : supplier'.id = supplier.id) (hwaits : waits)
    (key : Text) : Effect.Unblocked waits (supplier.call key) (supplier'.call key) := by
  intro history
  have hcall : supplier.call key history = ⟨none, [] ++ [.call (supplier.asked key)]⟩ := by
    simp [Supplier.call, Supplier.asked, h]
  obtain ⟨result, after, hcall'⟩ : ∃ result after, supplier'.call key history =
      ⟨result, [] ++ .call (supplier'.asked key) :: after⟩ := by
    cases hshape : supplier'.shape <;> simp [Supplier.call, Supplier.asked, hshape]
  rw [hcall, hcall']
  exact Run.Unblocked.goesOn hwaits (fun _ hearlier => absurd hearlier List.not_mem_nil) h hid rfl

theorem Visit.unblocked_ask {visit : Visit} {supplier supplier' : Supplier}
    (h : Effect.Unblocked waits (supplier.call visit.key) (supplier'.call visit.key)) :
    Effect.Unblocked waits (visit.ask supplier) (visit.ask supplier') :=
  h.bind fun _ => Effect.unblocked_pure _

/-! ### The two attempts -/

/-- How two visits go whose values are the same but for a supplier that never hands over its text:
they do the same, or both of them need the text of a deferred supplier, which may be asked. -/
theorem Visit.source_of_unblocked {visit visit' : Visit}
    (h : visit.Related (fun _ => Value.Unblocked waits) visit') (s : Text) :
    (visit = visit' ∧ ∀ supplier, visit.source s = .ask supplier → supplier.shape ≠ .never) ∨
      (visit.source s = .absent ∧ visit'.source s = .absent) ∨
        ∃ supplier supplier', visit.source s = .ask supplier ∧
          visit'.source s = .ask supplier' ∧ supplier.shape.isDeferred = true ∧
          supplier'.shape.isDeferred = true ∧
          Effect.Unblocked waits (visit.ask supplier) (visit'.ask supplier') := by
  obtain ⟨sweep, key, value⟩ := visit
  obtain ⟨sweep', key', value'⟩ := visit'
  obtain ⟨hsweep, hkey, hvalue⟩ := h
  obtain rfl : sweep = sweep' := hsweep
  obtain rfl : key = key' := hkey
  cases hvalue with
  | same hshape =>
    refine Or.inl ⟨rfl, fun supplier hsource => ?_⟩
    exact hshape supplier (Visit.value_of_source_eq_ask hsource)
  | @replaced supplier supplier' hnever hid hdeferred hwaits =>
    right
    rw [source_supplied, source_supplied]
    by_cases hoccurs : Text.occursIn (sweep.marker key) s = true
    · rw [if_pos hoccurs, if_pos hoccurs]
      refine Or.inr ⟨supplier, supplier', rfl, rfl, by rw [hnever]; rfl, hdeferred, ?_⟩
      exact (Supplier.unblocked_call_of_never hnever hid hwaits key).bind
        fun _ => Effect.unblocked_pure _
    · rw [if_neg hoccurs, if_neg hoccurs]
      exact Or.inl ⟨rfl, rfl⟩

/-- The first attempt asks no deferred supplier, so it is the same with both mappings. -/
theorem unblocked_tryVisits {visits visits' : List Visit}
    (h : List.Forall₂ (Visit.Related fun _ => Value.Unblocked waits) visits visits') (s : Text) :
    Effect.Unblocked waits (tryVisits visits s) (tryVisits visits' s) := by
  induction h generalizing s with
  | nil => exact Effect.unblocked_pure (some s)
  | @cons visit visit' visits visits' hvisit _ ih =>
    unfold tryVisits
    obtain ⟨rfl, hshape⟩ | ⟨habsent, habsent'⟩ |
      ⟨supplier, supplier', hask, hask', hdeferred, hdeferred', -⟩ :=
      Visit.source_of_unblocked hvisit s
    · split
      · exact ih _
      · exact ih s
      · rename_i supplier hsource
        split
        · exact Effect.unblocked_pure none
        · refine Effect.Unblocked.bind ?_ fun replacement => ih _
          exact Visit.unblocked_ask (Supplier.unblocked_call (hshape supplier hsource) _)
    · rw [habsent, habsent']
      exact ih s
    · rw [hask, hask']
      simp only [hdeferred, hdeferred', if_true]
      exact Effect.unblocked_pure none

/-- The second attempt waits for every deferred supplier that it asks. -/
theorem unblocked_deferVisits {visits visits' : List Visit}
    (h : List.Forall₂ (Visit.Related fun _ => Value.Unblocked waits) visits visits') (s : Text) :
    Effect.Unblocked waits (deferVisits visits s) (deferVisits visits' s) := by
  induction h generalizing s with
  | nil => exact Effect.unblocked_pure s
  | @cons visit visit' visits visits' hvisit _ ih =>
    have hput : ∀ t u : Text, visit.put t u = visit'.put t u := by
      obtain ⟨hsweep, hkey, -⟩ := hvisit
      intro t u
      rw [Visit.put, Visit.put, Visit.marker, Visit.marker, hsweep, hkey]
    unfold deferVisits
    obtain ⟨rfl, hshape⟩ | ⟨habsent, habsent'⟩ | ⟨supplier, supplier', hask, hask', -, -, h⟩ :=
      Visit.source_of_unblocked hvisit s
    · split
      · exact Effect.unblocked_pause.bind fun _ => ih _
      · exact ih s
      · rename_i supplier hsource
        refine Effect.Unblocked.bind ?_ fun replacement =>
          Effect.unblocked_pause.bind fun _ => ih _
        exact Visit.unblocked_ask (Supplier.unblocked_call (hshape supplier hsource) _)
    · rw [habsent, habsent']
      exact ih s
    · rw [hask, hask']
      refine h.bind fun replacement => Effect.unblocked_pause.bind fun _ => ?_
      rw [hput]
      exact ih _

/-! ### Substitution -/

variable {vars vars' : Variables}

theorem unblocked_substitute (h : vars.Unblocked waits vars') (raw : Text) :
    Effect.Unblocked waits (substitute raw vars) (substitute raw vars') := by
  have hempty : vars.isEmpty = vars'.isEmpty := by
    have hkeys : vars.keys.isEmpty = vars'.keys.isEmpty := congrArg List.isEmpty h.keys_eq
    rwa [OrderedMap.keys, OrderedMap.keys, List.isEmpty_map, List.isEmpty_map] at hkeys
  unfold substitute
  rw [hempty]
  split
  · exact Effect.unblocked_pure raw
  · refine (unblocked_tryVisits (forall₂_visits h) raw).bind fun attempt => ?_
    cases attempt with
    | some s => exact Effect.unblocked_pure s
    | none => exact unblocked_deferVisits (forall₂_visits h) raw

end MarkerTemplate
