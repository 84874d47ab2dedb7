import Mathlib.Algebra.BigOperators.Group.List.Basic
import Mathlib.Algebra.GroupWithZero.Nat
import MarkerTemplate.Proofs.Merge.Waiting

/-!
# Rendering element by element

Rendering a collection is merging the template for one element after another, each time with what
was asked for the elements before it. The texts are joined with the spacer, and one turn is given up
behind each of them.

## Main definitions

- `elementRuns` — the runs of merging for the elements of a collection

## Design notes

Rendering ends with the first element that waits forever, so the runs end there as well. What is
said of the whole run in terms of these runs holds whether one of them waits or not.
-/

namespace MarkerTemplate

/-- The runs of the merger for one mapping after another, each after the calls of those before it.
Behind a run that waits forever there is none. -/
def elementRuns (merger : Merger) (template : Text) : List Variables → History → List (Run Text)
  | [], _ => []
  | scope :: scopes, history =>
    let run := merger template scope history
    run :: if run.result.isSome then elementRuns merger template scopes (history ++ run.calls)
      else []

/-! ### One element -/

section Cons

variable {merger : Merger} {template spacer : Text} {scope : Variables} {history : History}

theorem elementRuns_cons_of_none (h : (merger template scope history).result = none)
    (scopes : List Variables) :
    elementRuns merger template (scope :: scopes) history = [merger template scope history] := by
  simp [elementRuns, h]

theorem elementRuns_cons_of_some {fragment : Text}
    (h : (merger template scope history).result = some fragment) (scopes : List Variables) :
    elementRuns merger template (scope :: scopes) history =
      merger template scope history ::
        elementRuns merger template scopes
          (history ++ (merger template scope history).calls) := by
  simp [elementRuns, h]

theorem renderElements_cons_of_none (h : (merger template scope history).result = none)
    (scopes : List Variables) :
    renderElements merger template spacer (scope :: scopes) history =
      ⟨none, (merger template scope history).events⟩ := by
  rw [renderElements, Effect.bind_eq_of_none h]

/-- Behind the text of an element a turn is given up, and then come the other elements. -/
theorem renderElements_cons_of_some {fragment : Text}
    (h : (merger template scope history).result = some fragment) (scopes : List Variables) :
    renderElements merger template spacer (scope :: scopes) history =
      let rest := renderElements merger template spacer scopes
        (history ++ (merger template scope history).calls)
      ⟨rest.result.map fun fragments =>
          fragment ++ (if scopes.isEmpty then [] else spacer) ++ fragments,
        (merger template scope history).events ++ .turn :: rest.events⟩ := by
  rw [renderElements, Effect.bind_eq_of_some h]
  simp only [Effect.pause_bind_apply]
  cases hrest : (renderElements merger template spacer scopes
      (history ++ (merger template scope history).calls)).result with
  | none =>
    rw [Effect.bind_eq_of_none hrest]
    rfl
  | some fragments =>
    rw [Effect.bind_eq_of_some hrest]
    simp [Effect.pure_apply]

end Cons

/-! ### All elements -/

section Runs

variable (merger : Merger) (template spacer : Text)

/-- Each run is that of the merger for its element, after all calls made for those before it. -/
theorem exists_scope_of_getElem?_elementRuns {scopes : List Variables} {history : History}
    {index : Nat} {run : Run Text}
    (h : (elementRuns merger template scopes history)[index]? = some run) :
    ∃ scope, scopes[index]? = some scope ∧
      run = merger template scope
        (history ++ ((elementRuns merger template scopes history).take index).flatMap
          Run.calls) := by
  induction scopes generalizing history index with
  | nil => cases h
  | cons scope scopes ih =>
    cases index with
    | zero =>
      rw [elementRuns] at h
      exact ⟨scope, rfl, by simpa using h.symm⟩
    | succ index =>
      cases hresult : (merger template scope history).result with
      | none =>
        rw [elementRuns_cons_of_none hresult] at h
        cases h
      | some fragment =>
        rw [elementRuns_cons_of_some hresult] at h ⊢
        obtain ⟨other, hother, hrun⟩ := ih h
        refine ⟨other, hother, ?_⟩
        rw [hrun, List.take_succ_cons, List.flatMap_cons, List.append_assoc]

/-- Only the last run can be one that waits forever. -/
theorem length_elementRuns_of_result_eq_none {scopes : List Variables} {history : History}
    {index : Nat} {run : Run Text}
    (h : (elementRuns merger template scopes history)[index]? = some run)
    (hnone : run.result = none) :
    (elementRuns merger template scopes history).length = index + 1 ∧
      (renderElements merger template spacer scopes history).result = none := by
  induction scopes generalizing history index with
  | nil => cases h
  | cons scope scopes ih =>
    cases hresult : (merger template scope history).result with
    | none =>
      rw [elementRuns_cons_of_none hresult] at h ⊢
      rw [renderElements_cons_of_none hresult]
      cases index with
      | zero => exact ⟨rfl, rfl⟩
      | succ index => cases h
    | some fragment =>
      rw [elementRuns_cons_of_some hresult] at h ⊢
      rw [renderElements_cons_of_some hresult]
      cases index with
      | zero =>
        obtain rfl : merger template scope history = run := Option.some.inj h
        rw [hresult] at hnone
        cases hnone
      | succ index =>
        obtain ⟨hlength, hrest⟩ := ih h
        exact ⟨congrArg (· + 1) hlength, by simp only [hrest, Option.map_none]⟩

/-- The events are those of the runs, with a turn behind each one that comes to a text. -/
theorem events_renderElements (scopes : List Variables) (history : History) :
    (renderElements merger template spacer scopes history).events =
      (elementRuns merger template scopes history).flatMap fun run =>
        run.events ++ if run.result.isSome then [.turn] else [] := by
  induction scopes generalizing history with
  | nil => rfl
  | cons scope scopes ih =>
    cases hresult : (merger template scope history).result with
    | none =>
      rw [elementRuns_cons_of_none hresult, renderElements_cons_of_none hresult]
      simp [hresult]
    | some fragment =>
      rw [elementRuns_cons_of_some hresult, renderElements_cons_of_some hresult, List.flatMap_cons,
        ← ih]
      simp [hresult]

theorem calls_renderElements (scopes : List Variables) (history : History) :
    (renderElements merger template spacer scopes history).calls =
      (elementRuns merger template scopes history).flatMap Run.calls := by
  rw [Run.calls, events_renderElements, List.filterMap_flatMap]
  congr 1
  funext run
  rw [List.filterMap_append]
  cases run.result <;> exact List.append_nil _

theorem turns_renderElements (scopes : List Variables) (history : History) :
    (renderElements merger template spacer scopes history).turns =
      ((elementRuns merger template scopes history).map fun run =>
        run.turns + if run.result.isSome then 1 else 0).sum := by
  rw [Run.turns, events_renderElements, List.countP_flatMap]
  congr 2
  funext run
  rw [Function.comp_apply, List.countP_append]
  cases run.result <;> rfl

/-- If all runs come to texts, each of them is followed by a turn. -/
theorem turns_renderElements_of_map_result_eq {scopes : List Variables} {history : History}
    {texts : List Text}
    (h : (elementRuns merger template scopes history).map Run.result = texts.map some) :
    (renderElements merger template spacer scopes history).turns =
      ((elementRuns merger template scopes history).map Run.turns).sum + texts.length := by
  rw [turns_renderElements]
  generalize elementRuns merger template scopes history = runs at h ⊢
  have hsome : ∀ run ∈ runs, run.result.isSome = true := by
    intro run hrun
    have hmem : run.result ∈ texts.map some := h ▸ List.mem_map_of_mem hrun
    obtain ⟨text, -, htext⟩ := List.mem_map.1 hmem
    rw [← htext]
    rfl
  have hturn : runs.map (fun run => run.turns + if run.result.isSome then 1 else 0) =
      runs.map fun run => run.turns + 1 :=
    List.map_congr_left fun run hrun => by rw [if_pos (hsome run hrun)]
  have hlength : runs.length = texts.length := by
    rw [← List.length_map (f := Run.result), h, List.length_map]
  rw [hturn, List.sum_map_add, List.map_const', List.sum_replicate, hlength]
  simp

/-- If every mapping gives a text, the texts are joined with the spacer. -/
theorem exists_texts_renderElements {scopes : List Variables}
    (h : ∀ scope ∈ scopes, ∀ history, ∃ t, (merger template scope history).result = some t)
    (history : History) :
    ∃ texts : List Text,
      (elementRuns merger template scopes history).map Run.result = texts.map some ∧
        texts.length = scopes.length ∧
        (renderElements merger template spacer scopes history).result =
          some (spacer.intercalate texts) := by
  induction scopes generalizing history with
  | nil => exact ⟨[], rfl, rfl, rfl⟩
  | cons scope scopes ih =>
    obtain ⟨fragment, hfragment⟩ := h scope List.mem_cons_self history
    obtain ⟨texts, hresults, hlength, hrest⟩ :=
      ih (fun later hlater => h later (List.mem_cons_of_mem scope hlater))
        (history ++ (merger template scope history).calls)
    refine ⟨fragment :: texts, ?_, congrArg (· + 1) hlength, ?_⟩
    · rw [elementRuns_cons_of_some hfragment, List.map_cons, List.map_cons, hresults, hfragment]
    · rw [renderElements_cons_of_some hfragment]
      simp only [hrest, Option.map_some]
      -- The spacer stands behind the first text if and only if there is another one.
      cases texts with
      | nil =>
        have hnil : scopes = [] := List.length_eq_zero_iff.1 hlength.symm
        simp [hnil]
      | cons text texts =>
        have hcons : scopes.isEmpty = false := by
          cases scopes with
          | nil => cases hlength
          | cons _ _ => rfl
        simp [hcons, List.intercalate_cons_cons]

end Runs

/-- Joining `n + 1` texts puts the separator in `n` times. -/
theorem length_intercalate (sep : Text) (texts : List Text) :
    (sep.intercalate texts).length =
      (texts.map List.length).sum + (texts.length - 1) * sep.length := by
  induction texts with
  | nil => simp
  | cons text texts ih =>
    cases texts with
    | nil => simp
    | cons next texts =>
      rw [List.intercalate_cons_cons, List.length_append, List.length_append, ih]
      simp only [List.map_cons, List.sum_cons, List.length_cons, Nat.add_sub_cancel]
      rw [Nat.succ_mul]
      omega

/-! ### Collections -/

namespace Collection

variable (collection : Collection) (globals : Variables)

theorem length_entries : collection.entries.length = collection.size := by
  cases collection with
  | sequence elements => exact List.length_mapIdx
  | keyed elements => rfl

/-- The key of an element is its index in a sequence, and its own one in an ordered map. -/
theorem getElem?_entries_eq_some_iff {index : Nat} {key : Text} {fields : Variables} :
    collection.entries[index]? = some (key, fields) ↔
      match collection with
      | .sequence elements => key = digitsOf index ∧ elements[index]? = some fields
      | .keyed elements => elements.entries[index]? = some (key, fields) := by
  cases collection with
  | sequence elements =>
    rw [entries, List.getElem?_mapIdx, Option.map_eq_some_iff]
    constructor
    · rintro ⟨fields, hfields, heq⟩
      cases heq
      exact ⟨rfl, hfields⟩
    · rintro ⟨rfl, hfields⟩
      exact ⟨fields, hfields, rfl⟩
  | keyed elements => exact Iff.rfl

theorem length_scopes : (collection.scopes globals).length = collection.size := by
  rw [scopes, List.length_mapIdx, length_entries]

/-- The mapping of an element has its fields, the variables common to all elements and what the
element is told of its place, and nothing of other elements. -/
theorem exists_entry_of_getElem?_scopes {index : Nat} {scope : Variables}
    (h : (collection.scopes globals)[index]? = some scope) :
    ∃ key fields, collection.entries[index]? = some (key, fields) ∧
      scope = ((metaVariables index key).extend globals).extend fields ∧
      ∀ name, scope.get? name =
        (fields.get? name).or ((globals.get? name).or ((metaVariables index key).get? name)) := by
  rw [scopes, List.getElem?_mapIdx, Option.map_eq_some_iff] at h
  obtain ⟨⟨key, fields⟩, hentry, rfl⟩ := h
  refine ⟨key, fields, hentry, rfl, fun name => ?_⟩
  rw [OrderedMap.get?_extend, OrderedMap.get?_extend]

end Collection

/-- If all suppliers hand over their texts, merging for an element comes to a text. -/
theorem exists_result_merge_of_mem_scopes {collection : Collection} {globals : Variables}
    (hglobals : globals.Finishing)
    (hentries : ∀ entry ∈ collection.entries, Variables.Finishing entry.2) (template : Text) :
    ∀ scope ∈ collection.scopes globals, ∀ history,
      ∃ t, (merge template scope [] history).result = some t := by
  intro scope hscope history
  have hcollection : collection.Related (fun _ => Value.Unblocked False) collection :=
    Collection.related_of_finishing hentries
  have hscopes := hcollection.scopes comparison_unblocked hglobals.unblocked
  exact (unblocked_merge (List.forall₂_same.1 hscopes scope hscope) template []).exists_result
    history

/-- Rendering a collection merges the template for one element after another, each with a mapping of
its own and after the calls made for those before it. An element of a sequence has its index for a
key, in decimal digits. The calls are those of the elements, in order. If all suppliers hand over their texts, it comes to the texts of the elements with the spacer between them,
and it gives up one turn more for each of them. If one element waits forever, nothing is done for
the elements behind it. -/
theorem renderCollection_elementwise (template : Text) (collection : Collection)
    (globals : Variables) (spacer : Text) (history : History) :
    let whole := renderCollection template collection globals spacer history
    let runs := elementRuns (merge · · []) template (collection.scopes globals) history
    (∀ index run, runs[index]? = some run →
      ∃ key fields scope,
        (match collection with
          | .sequence elements => key = digitsOf index ∧ elements[index]? = some fields
          | .keyed elements => elements.entries[index]? = some (key, fields)) ∧
        scope = ((metaVariables index key).extend globals).extend fields ∧
        (∀ name, scope.get? name =
          (fields.get? name).or ((globals.get? name).or ((metaVariables index key).get? name))) ∧
        run = merge template scope [] (history ++ (runs.take index).flatMap Run.calls)) ∧
      whole.calls = runs.flatMap Run.calls ∧
      (globals.Finishing → (∀ entry ∈ collection.entries, Variables.Finishing entry.2) →
        ∃ texts : List Text, runs.map Run.result = texts.map some ∧
          texts.length = collection.size ∧
          whole.result = some (spacer.intercalate texts) ∧
          (spacer.intercalate texts).length =
            (texts.map List.length).sum + (collection.size - 1) * spacer.length ∧
          whole.turns = (runs.map Run.turns).sum + collection.size) ∧
      (∀ index run, runs[index]? = some run → run.result = none →
        runs.length = index + 1 ∧ whole.result = none) := by
  intro whole runs
  refine ⟨fun index run hrun => ?_, ?_, fun hglobals hentries => ?_, fun index run hrun hnone => ?_⟩
  · obtain ⟨scope, hscope, hmerge⟩ := exists_scope_of_getElem?_elementRuns _ template hrun
    obtain ⟨key, fields, hentry, hlayers, hlookup⟩ :=
      collection.exists_entry_of_getElem?_scopes globals hscope
    have helement := collection.getElem?_entries_eq_some_iff.1 hentry
    exact ⟨key, fields, scope, helement, hlayers, hlookup, hmerge⟩
  · exact calls_renderElements _ template spacer _ history
  · obtain ⟨texts, hresults, hlength, hresult⟩ :=
      exists_texts_renderElements (merge · · []) template spacer
        (exists_result_merge_of_mem_scopes hglobals hentries template) history
    rw [Collection.length_scopes] at hlength
    refine ⟨texts, hresults, hlength, hresult, ?_, ?_⟩
    · rw [length_intercalate, hlength]
    · rw [← hlength]
      exact turns_renderElements_of_map_result_eq _ template spacer hresults
  · exact length_elementRuns_of_result_eq_none _ template spacer hrun hnone

/-- A supplier that counts how often it has been asked. -/
def counter : Variables where
  entries := [(['a'], .supplied ⟨0, .future 1, fun key n => key ++ digitsOf n⟩)]
  nodup_keys := by simp

/-- Two elements, of which the second has a field of its own. -/
def sequencePair : Collection :=
  .sequence [.empty, .ofList [(['b'], .text ['!'])]]

/-- The same elements, with keys. -/
def keyedPair : Collection :=
  .keyed {
    entries := [(['x'], .empty), (['y'], .ofList [(['b'], .text ['!'])])]
    nodup_keys := by simp }

/-- The supplier is asked once for each element. Waiting for it takes one turn, its replacement one
more, and so does the element; the second element has one replacement more than the first. -/
theorem renderCollection_elementwise_counter :
    counter.Finishing ∧ (∀ entry ∈ sequencePair.entries, Variables.Finishing entry.2) ∧
      (∀ entry ∈ keyedPair.entries, Variables.Finishing entry.2) ∧
      (renderCollection "{_meta.key}{a}{b}".toList sequencePair counter [','] []).result =
        some "0a1{b},1a2!".toList ∧
      (renderCollection "{_meta.key}{a}{b}".toList sequencePair counter [','] []).turns = 9 ∧
      (renderCollection "{_meta.key}{a}{b}".toList keyedPair counter [','] []).result =
        some "xa1{b},ya2!".toList ∧
      (renderCollection "{_meta.key}{a}{b}".toList keyedPair counter [','] []).turns = 9 := by
  have hglobals : counter.Finishing := by
    intro key supplier hentry
    simp only [counter, List.mem_singleton, Prod.mk.injEq, Value.supplied.injEq] at hentry
    obtain ⟨-, rfl⟩ := hentry
    decide
  have hpair : ∀ first second : Text,
      ∀ entry ∈ [(first, OrderedMap.empty), (second, .ofList [(['b'], .text ['!'])])],
        Variables.Finishing entry.2 := by
    intro first second entry hentry key supplier hfield
    simp only [List.mem_cons, List.not_mem_nil, or_false] at hentry
    obtain rfl | rfl := hentry
    · cases hfield
    · cases List.mem_singleton.1 hfield
  have hsequence : ∀ entry ∈ sequencePair.entries, Variables.Finishing entry.2 :=
    hpair ['0'] ['1']
  have hkeyed : ∀ entry ∈ keyedPair.entries, Variables.Finishing entry.2 := hpair ['x'] ['y']
  have hinj : Function.Injective (List.map (some : Text → Option Text)) :=
    List.map_injective_iff.2 fun _ _ => Option.some.inj
  obtain ⟨texts, hresults, -, hresult, -, hturns⟩ := (renderCollection_elementwise
    "{_meta.key}{a}{b}".toList sequencePair counter [','] []).2.2.1 hglobals hsequence
  obtain rfl : ["0a1{b}".toList, "1a2!".toList] = texts := hinj hresults
  obtain ⟨texts, hresults, -, hresult', -, hturns'⟩ := (renderCollection_elementwise
    "{_meta.key}{a}{b}".toList keyedPair counter [','] []).2.2.1 hglobals hkeyed
  obtain rfl : ["xa1{b}".toList, "ya2!".toList] = texts := hinj hresults
  exact ⟨hglobals, hsequence, hkeyed, hresult, hturns, hresult', hturns'⟩

end MarkerTemplate
