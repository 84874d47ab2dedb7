import MarkerTemplate.Proofs.Effect.Budget
import MarkerTemplate.Proofs.Substitution.Attempts

/-!
# Which suppliers substitution asks

A text that is put in may bring back markers that have been replaced already. Still no supplier is
asked more often than there are passes: in each pass the suppliers are asked in the order of the
mapping, each at most once for each of its keys.

## Main definitions

- `Visit.asked?` — the call that a visit may make
- `Variables.askable` — the calls that a pass over the mapping may make

## Design notes

An attempt makes its calls from its list of visits, whatever the text has become by then. So its
budget is read off the visits alone: the call of each visit to a supplier, and in the second attempt
one turn for each visit.
-/

namespace MarkerTemplate

/-- The supplier that the value is, if it is one. -/
def Value.supplier? : Value → Option Supplier
  | .supplied supplier => some supplier
  | .text _ | .number _ | .structured _ => none

/-- The call by which the visit asks for its text, if it is a visit to a supplier. -/
def Visit.asked? (visit : Visit) : Option Call :=
  visit.value.supplier?.map (·.asked visit.key)

/-- The call of every supplier of the mapping with the key that it is bound to. -/
def Variables.askable (vars : Variables) : List Call :=
  vars.entries.filterMap fun (key, value) => value.supplier?.map (·.asked key)

theorem Variables.map_key_askable_sublist (vars : Variables) :
    (vars.askable.map Call.key).Sublist vars.keys := by
  unfold askable OrderedMap.keys
  induction vars.entries with
  | nil => exact List.Sublist.refl []
  | cons entry entries ih =>
    obtain ⟨key, value⟩ := entry
    cases value with
    | text _ | number _ | structured _ => exact ih.cons key
    | supplied supplier => exact ih.cons_cons key

/-- Each pass visits every supplier. -/
theorem Variables.filterMap_asked?_visits (vars : Variables) :
    vars.visits.filterMap Visit.asked? = vars.askable ++ vars.askable := by
  simp only [visits, List.flatMap_cons, List.flatMap_nil, List.append_nil, List.filterMap_append,
    List.filterMap_map]
  rfl

theorem Variables.length_visits (vars : Variables) : vars.visits.length = 2 * vars.size := by
  simp only [visits, List.flatMap_cons, List.flatMap_nil, List.append_nil, List.length_append,
    List.length_map, OrderedMap.size]
  omega

/-! ### The budget of an attempt -/

/-- Asking is one call, and all the turns that it takes are waiting. -/
theorem Supplier.within_call (supplier : Supplier) (key : Text) :
    Effect.Within [supplier.asked key] 0 (supplier.call key) := by
  intro history
  have hcalls := supplier.calls_call key history
  have hdelays : (supplier.call key history).delays = supplier.shape.delay := by
    rw [Run.delays, hcalls]
    rfl
  rw [hcalls, hdelays]
  refine ⟨List.Sublist.refl _, ?_⟩
  unfold Supplier.call Run.turns
  cases supplier.shape <;> simp [Shape.delay, Event.isTurn, List.countP_replicate]

theorem Visit.within_ask (visit : Visit) (supplier : Supplier) :
    Effect.Within [supplier.asked visit.key] 0 (visit.ask supplier) :=
  (supplier.within_call visit.key).bind fun _ => Effect.within_pure _

theorem Visit.asked?_of_source_eq_ask {visit : Visit} {s : Text} {supplier : Supplier}
    (h : visit.source s = .ask supplier) : visit.asked? = some (supplier.asked visit.key) := by
  rw [Visit.asked?, Visit.value_of_source_eq_ask h]
  rfl

/-- A visit that is not made, or that makes no call, leaves its call unused. -/
theorem filterMap_asked?_sublist_cons (visit : Visit) (visits : List Visit) :
    (visits.filterMap Visit.asked?).Sublist ((visit :: visits).filterMap Visit.asked?) :=
  (List.sublist_cons_self visit visits).filterMap Visit.asked?

theorem within_tryVisits (visits : List Visit) (s : Text) :
    Effect.Within (visits.filterMap Visit.asked?) 0 (tryVisits visits s) := by
  induction visits generalizing s with
  | nil => exact Effect.within_pure (some s)
  | cons visit visits ih =>
    have hskip := filterMap_asked?_sublist_cons visit visits
    unfold tryVisits
    split
    · exact (ih _).mono hskip (Nat.le_refl 0)
    · exact (ih s).mono hskip (Nat.le_refl 0)
    · rename_i supplier hsource
      split
      · exact (Effect.within_pure none).mono (List.nil_sublist _) (Nat.le_refl 0)
      · rw [List.filterMap_cons_some (Visit.asked?_of_source_eq_ask hsource)]
        exact (visit.within_ask supplier).bind fun _ => ih _

/-- Only a replacement takes a turn, and a visit makes at most one. -/
theorem within_deferVisits (visits : List Visit) (s : Text) :
    Effect.Within (visits.filterMap Visit.asked?) visits.length (deferVisits visits s) := by
  induction visits generalizing s with
  | nil => exact Effect.within_pure s
  | cons visit visits ih =>
    have hskip := filterMap_asked?_sublist_cons visit visits
    have hreplace : ∀ t, Effect.Within (visits.filterMap Visit.asked?) (visit :: visits).length
        (Effect.pause >>= fun _ => deferVisits visits t) := by
      intro t
      rw [List.length_cons, Nat.add_comm]
      exact Effect.within_pause.bind fun _ => ih t
    unfold deferVisits
    split
    · exact (hreplace _).mono hskip (Nat.le_refl _)
    · exact (ih s).mono hskip (Nat.le_succ _)
    · rename_i supplier hsource
      rw [List.filterMap_cons_some (Visit.asked?_of_source_eq_ask hsource),
        ← Nat.zero_add (visit :: visits).length]
      exact (visit.within_ask supplier).bind fun _ => hreplace _

/-! ### Substitution -/

theorem within_trySubstitute (raw : Text) (vars : Variables) :
    Effect.Within (vars.askable ++ vars.askable) 0 (trySubstitute raw vars) := by
  rw [← vars.filterMap_asked?_visits]
  exact within_tryVisits vars.visits raw

theorem within_substituteDeferred (raw : Text) (vars : Variables) :
    Effect.Within (vars.askable ++ vars.askable) (2 * vars.size) (substituteDeferred raw vars) := by
  rw [← vars.filterMap_asked?_visits, ← vars.length_visits]
  exact within_deferVisits vars.visits raw

/-- The first attempt takes no turn. -/
theorem turns_trySubstitute (raw : Text) (vars : Variables) (history : History) :
    (trySubstitute raw vars history).turns = 0 := by
  have htaken := (within_trySubstitute raw vars history).2
  have himmediate := (attempts_lockstep vars.visits raw history).1
  have hdelays : (trySubstitute raw vars history).delays = 0 :=
    Run.delays_of_forall_immediate himmediate
  omega

/-- Whatever texts are put in, suppliers are asked in the order of the mapping and at most twice:
each attempt makes its calls from a first pass over the suppliers and a second one, in which no key
comes twice. Substitution takes no turn if the first attempt has a text. Otherwise it takes at most
two turns for each key and those that it waits for the texts of suppliers. -/
theorem substitution_asks_in_order (raw : Text) (vars : Variables) (history : History) :
    let fast := trySubstitute raw vars history
    let slow := substituteDeferred raw vars history
    let whole := substitute raw vars history
    (vars.askable.map Call.key).Sublist vars.keys ∧
      (vars.askable.map Call.key).Nodup ∧
      fast.calls.Sublist (vars.askable ++ vars.askable) ∧
      slow.calls.Sublist (vars.askable ++ vars.askable) ∧
      ((∃ t, fast.result = some (some t) ∧ whole.turns = 0) ∨
        (fast.result = some none ∧ whole.turns ≤ 2 * vars.size + whole.delays)) := by
  intro fast slow whole
  have hkeys := vars.map_key_askable_sublist
  refine ⟨hkeys, hkeys.nodup vars.keys_nodup, (within_trySubstitute raw vars history).1,
    (within_substituteDeferred raw vars history).1, ?_⟩
  have hfastTurns : fast.turns = 0 := turns_trySubstitute raw vars history
  rcases (attempts_lockstep vars.visits raw history).2 with ⟨t, hfast, -⟩ | ⟨hfast, -⟩
  · refine Or.inl ⟨t, hfast, ?_⟩
    have hwhole : whole = ⟨some t, fast.events⟩ := substitute_of_some hfast
    rw [hwhole]
    exact hfastTurns
  · refine Or.inr ⟨hfast, ?_⟩
    -- The second attempt is on a budget of its own, after all calls of the first one.
    let again := substituteDeferred raw vars (history ++ fast.calls)
    have hwhole : whole = ⟨again.result, fast.events ++ again.events⟩ := substitute_of_none hfast
    have hagain : again.turns ≤ 2 * vars.size + again.delays :=
      (within_substituteDeferred raw vars (history ++ fast.calls)).2
    have hturns : whole.turns = fast.turns + again.turns := by
      rw [hwhole]
      exact Run.turns_mk_append _ _ _
    have hdelays : whole.delays = fast.delays + again.delays := by
      rw [hwhole, Run.delays, Run.calls_mk_append, List.map_append, List.sum_append]
      rfl
    omega

/-- All of the budget may be needed: two keys with two markers each, and two waits of three turns. -/
example :
    let run := substitute "{a}{[a]}{b}{[b]}".toList (suppliersOf .immediate (.future 3)) []
    run.turns = 2 * 2 + run.delays ∧ run.delays = 3 + 3 := by
  decide

end MarkerTemplate
