import MarkerTemplate.Proofs.Merge.Related
import MarkerTemplate.Proofs.Substitution.Waiting

/-!
# Merging that waits forever

Substitution, merging and rendering wait forever for one text only, and do nothing after they have
asked for it. What they do before does not depend on whether that text ever comes.

## Main definitions

- `Run.WaitsOnLastCall` — if the run waits forever, it does so for its last call
-/

namespace MarkerTemplate

/-- The run waits forever if it asks a supplier that never hands over its text, and for no other
reason, and it does nothing after that. Here `run'` is the run with such suppliers replaced: it goes
on from that call, or it is the same if there is none. -/
structure Run.WaitsOnLastCall {α : Type} (waits : Prop) (run run' : Run α) : Prop where
  result_eq_none_iff : run.result = none ↔ ∃ call ∈ run.calls, call.shape = .never
  waits_of_result_eq_none : run.result = none → waits
  -- The call is the last event and the only one of its kind, and all events before it, calls and
  -- turns, are those of the other run.
  exists_last : run.result = none → ∃ before call call' after,
    run.events = before ++ [.call call] ∧
      run'.events = before ++ .call call' :: after ∧
      call.shape = .never ∧ call'.supplier = call.supplier ∧ call'.key = call.key ∧
      ∀ earlier, .call earlier ∈ before → earlier.shape ≠ .never
  eq_of_result_ne_none : run.result ≠ none → run' = run

variable {waits : Prop}

theorem Event.mem_filterMap_call? {events : List Event} {call : Call} :
    call ∈ events.filterMap Event.call? ↔ .call call ∈ events := by
  rw [List.mem_filterMap]
  constructor
  · rintro ⟨event, hevent, hcall⟩
    cases event with
    | call made =>
      cases hcall
      exact hevent
    | turn => cases hcall
  · exact fun h => ⟨.call call, h, rfl⟩

theorem Run.Unblocked.waitsOnLastCall {α : Type} {run run' : Run α}
    (h : Run.Unblocked waits run run') : Run.WaitsOnLastCall waits run run' := by
  cases h with
  | @same _ a hresult hcalls =>
    have hsome : run.result ≠ none := by
      rw [hresult]
      exact Option.some_ne_none a
    refine ⟨⟨fun hnone => absurd hnone hsome, ?_⟩, fun hnone => absurd hnone hsome,
      fun hnone => absurd hnone hsome, fun _ => rfl⟩
    rintro ⟨call, hcall, hnever⟩
    exact absurd hnever (hcalls call hcall)
  | @goesOn before call call' result after hwaits hbefore hnever hsupplier hkey =>
    refine ⟨⟨fun _ => ⟨call, ?_, hnever⟩, fun _ => rfl⟩, fun _ => hwaits, fun _ => ?_, ?_⟩
    · rw [Run.calls_mk_append]
      exact List.mem_append_right _ List.mem_cons_self
    · exact ⟨before, call, call', after, rfl, rfl, hnever, hsupplier, hkey,
        fun earlier hearlier => hbefore earlier (Event.mem_filterMap_call?.2 hearlier)⟩
    · exact fun hsome => absurd rfl hsome

/-! ### Merging -/

/-- Being unblocked says something of suppliers only. -/
theorem comparison_unblocked : Value.Comparison fun _ => Value.Unblocked waits where
  refl_of_data := fun _ _ hdata =>
    Value.Unblocked.same fun supplier hvalue => absurd hvalue (hdata supplier)
  items?_eq := by
    intro key value value' h
    cases h with
    | same _ => rfl
    | replaced _ _ _ _ => rfl

variable {vars vars' : Variables} {collection collection' : Collection}

theorem unblocked_merge (h : vars.Unblocked waits vars') (raw spacer : Text) :
    Effect.Unblocked waits (merge raw vars spacer) (merge raw vars' spacer) :=
  rel_merge (Effect.sequential_unblocked waits) comparison_unblocked
    (fun hvars raw => unblocked_substitute hvars raw) h raw spacer

theorem unblocked_renderCollection
    (hcollection : collection.Related (fun _ => Value.Unblocked waits) collection')
    (h : vars.Unblocked waits vars') (item spacer : Text) :
    Effect.Unblocked waits (renderCollection item collection vars spacer)
      (renderCollection item collection' vars' spacer) :=
  rel_renderCollection (Effect.sequential_unblocked waits) comparison_unblocked
    (fun hvars raw => unblocked_substitute hvars raw) hcollection h item spacer

/-! ### Suppliers that hand over their texts -/

theorem exists_result_merge (h : vars.Finishing) (raw spacer : Text) (history : History) :
    ∃ t, (merge raw vars spacer history).result = some t :=
  (unblocked_merge h.unblocked raw spacer).exists_result history

theorem Collection.related_of_finishing
    (h : ∀ entry ∈ collection.entries, Variables.Finishing entry.2) :
    collection.Related (fun _ => Value.Unblocked waits) collection :=
  List.forall₂_same.2 fun entry hentry => ⟨rfl, (h entry hentry).unblocked⟩

theorem exists_result_renderCollection (h : vars.Finishing)
    (hentries : ∀ entry ∈ collection.entries, Variables.Finishing entry.2) (item spacer : Text)
    (history : History) :
    ∃ t, (renderCollection item collection vars spacer history).result = some t :=
  (unblocked_renderCollection (Collection.related_of_finishing hentries) h.unblocked item
    spacer).exists_result history

/-- The elements of a collection that has been read are data. -/
theorem Collection.finishing_of_ofJson? {json : Json}
    (h : Collection.ofJson? json = some collection) :
    ∀ entry ∈ collection.entries, Variables.Finishing entry.2 := by
  intro entry hentry
  cases json with
  | array items =>
    cases h
    obtain ⟨index, hindex, rfl⟩ := List.mem_mapIdx.1 hentry
    rw [List.getElem_map]
    exact Variables.finishing_of_ne_supplied (elementFields_ne_supplied _)
  | object members =>
    cases h
    obtain ⟨member, -, rfl⟩ := List.mem_map.1 (OrderedMap.mem_entries_ofList hentry)
    exact Variables.finishing_of_ne_supplied (elementFields_ne_supplied member.2)
  | null | bool _ | number _ | string _ => cases h

/-! ### The call that is waited for -/

/-- Waiting forever is for one call, which is the last one made. Whatever is done before it is done
as well if suppliers that never hand over their texts are replaced by others that do. This is so
for both attempts at substituting, for substitution as a whole, for merging and for rendering. -/
theorem waitsOnLastCall_of_unblocked (hvars : vars.Unblocked waits vars')
    (hcollection : collection.Related (fun _ => Value.Unblocked waits) collection')
    (raw spacer : Text) (history : History) :
    (trySubstitute raw vars history).WaitsOnLastCall waits (trySubstitute raw vars' history) ∧
      (substituteDeferred raw vars history).WaitsOnLastCall waits
        (substituteDeferred raw vars' history) ∧
      (substitute raw vars history).WaitsOnLastCall waits (substitute raw vars' history) ∧
      (merge raw vars spacer history).WaitsOnLastCall waits (merge raw vars' spacer history) ∧
      (renderCollection raw collection vars spacer history).WaitsOnLastCall waits
        (renderCollection raw collection' vars' spacer history) := by
  have hvisits := forall₂_visits hvars
  refine ⟨?_, ?_, ?_, ?_, ?_⟩
  · exact (unblocked_tryVisits hvisits raw history).waitsOnLastCall
  · exact (unblocked_deferVisits hvisits raw history).waitsOnLastCall
  · exact (unblocked_substitute hvars raw history).waitsOnLastCall
  · exact (unblocked_merge hvars raw spacer history).waitsOnLastCall
  · exact (unblocked_renderCollection hcollection hvars raw spacer history).waitsOnLastCall

/-- The first element has suppliers of its own that reply; the second one is left with those common
to all elements, of which one is waited for. -/
theorem waitsOnLastCall_of_unblocked_suppliersOf :
    (suppliersOf .immediate .never).Unblocked True (suppliersOf .immediate .callback) ∧
      (Collection.sequence [suppliersOf .immediate .immediate, .empty]).Related
        (fun _ => Value.Unblocked True)
        (.sequence [suppliersOf .immediate .immediate, .empty]) ∧
      (renderCollection ['{', 'a', '}']
        (.sequence [suppliersOf .immediate .immediate, .empty])
        (suppliersOf .immediate .never) [] []).result = none ∧
      (renderCollection ['{', 'a', '}']
        (.sequence [suppliersOf .immediate .immediate, .empty])
        (suppliersOf .immediate .never) [] []).events =
          [.call ⟨0, .immediate, ['a']⟩, .call ⟨1, .immediate, ['b']⟩, .turn,
            .call ⟨0, .immediate, ['a']⟩, .call ⟨0, .immediate, ['a']⟩, .turn,
            .call ⟨1, .never, ['b']⟩] := by
  have hvars : (suppliersOf .immediate .never).Unblocked True
      (suppliersOf .immediate .callback) := by
    refine .cons ⟨rfl, .same fun supplier hvalue => ?_⟩
      (.cons ⟨rfl, .replaced rfl rfl rfl trivial⟩ .nil)
    cases hvalue
    decide
  have helement : (suppliersOf .immediate .immediate).Unblocked True
      (suppliersOf .immediate .immediate) := by
    apply Variables.Finishing.unblocked
    intro key supplier hentry
    simp only [suppliersOf, List.mem_cons, List.not_mem_nil, or_false, Prod.mk.injEq,
      Value.supplied.injEq] at hentry
    obtain ⟨-, rfl⟩ | ⟨-, rfl⟩ := hentry <;> decide
  have hcollection : (Collection.sequence [suppliersOf .immediate .immediate, .empty]).Related
      (fun _ => Value.Unblocked True)
      (.sequence [suppliersOf .immediate .immediate, .empty]) :=
    .cons ⟨rfl, helement⟩ (.cons ⟨rfl, .nil⟩ .nil)
  have hrun := (waitsOnLastCall_of_unblocked hvars hcollection ['{', 'a', '}'] [] []).2.2.2.2
  refine ⟨hvars, hcollection, hrun.result_eq_none_iff.2 ?_, rfl⟩
  exact ⟨⟨1, .never, ['b']⟩, by decide, rfl⟩

end MarkerTemplate
