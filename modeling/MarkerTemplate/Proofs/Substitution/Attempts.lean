import MarkerTemplate.Proofs.Effect
import MarkerTemplate.Substitution

/-!
# The two attempts at substituting

Substitution first tries to do without waiting, and starts again if it cannot. Here the two
attempts are run side by side.

## Main definitions

- `GivesUpOn` — the call for which the first attempt is broken off
- `Variables.KeyOnly` — every supplier replies to its key alone, however often it is asked

## Design notes

Both attempts walk through one list of visits, so they are compared visit by visit: as long as no
deferred supplier is met they have the same text and have made the same calls, and where the first
one stops the second one makes a call.
-/

namespace MarkerTemplate

/-- Whatever the supplier replies to the key, it always replies the same. -/
def Supplier.KeyOnlyAt (supplier : Supplier) (key : Text) : Prop :=
  ∀ m n, supplier.reply key m = supplier.reply key n

/-- Every supplier of the mapping replies to the key that it is bound to alone. -/
def Variables.KeyOnly (vars : Variables) : Prop :=
  ∀ key supplier, (key, Value.supplied supplier) ∈ vars.entries → supplier.KeyOnlyAt key

/-- Every supplier among the visits replies to its key alone. -/
def KeyOnlyVisits (visits : List Visit) : Prop :=
  ∀ visit ∈ visits, ∀ supplier, visit.value = .supplied supplier →
    supplier.KeyOnlyAt visit.key

theorem mem_visits {vars : Variables} {visit : Visit} :
    visit ∈ vars.visits ↔ (visit.key, visit.value) ∈ vars.entries := by
  obtain ⟨sweep, key, value⟩ := visit
  cases sweep <;> simp [Variables.visits]

theorem Variables.KeyOnly.visits {vars : Variables} (h : vars.KeyOnly) :
    KeyOnlyVisits vars.visits := by
  intro visit hvisit supplier hvalue
  apply h visit.key supplier
  rw [← hvalue]
  exact mem_visits.1 hvisit

/-! ### Asking -/

theorem Visit.value_of_source_eq_ask {visit : Visit} {s : Text} {supplier : Supplier}
    (h : visit.source s = .ask supplier) : visit.value = .supplied supplier := by
  obtain ⟨sweep, key, value⟩ := visit
  unfold Visit.source at h
  split at h
  · cases value <;> cases sweep <;> simp_all [Sweep.source]
  · cases h

theorem Visit.ask_apply (visit : Visit) (supplier : Supplier) (history : History) :
    visit.ask supplier history =
      ⟨(supplier.call visit.key history).result.map visit.sweep.encode,
        (supplier.call visit.key history).events⟩ := by
  unfold Visit.ask
  cases h : (supplier.call visit.key history).result with
  | none => rw [Effect.bind_eq_of_none h, Option.map_none]
  | some reply =>
    rw [Effect.bind_eq_of_some h, Effect.pure_apply]
    simp

theorem Supplier.calls_call (supplier : Supplier) (key : Text) (history : History) :
    (supplier.call key history).calls = [supplier.asked key] := by
  unfold Supplier.call Run.calls
  cases h : supplier.shape <;> simp [Event.call?, Supplier.asked, h, List.filterMap_replicate]

/-- Asking is one call, of whatever shape the supplier is. -/
theorem Visit.calls_ask (visit : Visit) (supplier : Supplier) (history : History) :
    (visit.ask supplier history).calls = [supplier.asked visit.key] := by
  rw [Visit.ask_apply]
  exact supplier.calls_call visit.key history

/-- A supplier that hands over its text at once needs no turn for it. -/
theorem Visit.ask_of_immediate (visit : Visit) {supplier : Supplier}
    (h : supplier.shape = .immediate) (history : History) :
    visit.ask supplier history =
      ⟨some (visit.sweep.encode (supplier.reply visit.key (history.count supplier.id + 1))),
        [.call (supplier.asked visit.key)]⟩ := by
  rw [Visit.ask_apply]
  simp [Supplier.call, Supplier.asked, h]

theorem eq_immediate_of_not_isDeferred {shape : Shape} (h : shape.isDeferred = false) :
    shape = .immediate := by
  cases shape with
  | immediate => rfl
  | callback | future _ | never => cases h

/-! ### One visit -/

/-- The visit passes without waiting: the text `s` becomes another one, and some calls are made. -/
inductive Visit.Passes (visit : Visit) (s : Text) (history : History) : Text → List Call → Prop
  | ready {replacement : Text} : visit.source s = .ready replacement →
      Passes visit s history (visit.put replacement s) []
  | absent : visit.source s = .absent → Passes visit s history s []
  | asked {supplier : Supplier} : visit.source s = .ask supplier →
      supplier.shape = .immediate →
      Passes visit s history
        (visit.put (visit.sweep.encode
          (supplier.reply visit.key (history.count supplier.id + 1))) s)
        [supplier.asked visit.key]

theorem Visit.passes_or_deferred (visit : Visit) (s : Text) (history : History) :
    (∃ t made, visit.Passes s history t made) ∨
      ∃ supplier, visit.source s = .ask supplier ∧ supplier.shape.isDeferred = true := by
  cases h : visit.source s with
  | ready replacement => exact Or.inl ⟨_, _, .ready h⟩
  | absent => exact Or.inl ⟨_, _, .absent h⟩
  | ask supplier =>
    cases hshape : supplier.shape.isDeferred with
    | true => exact Or.inr ⟨supplier, rfl, hshape⟩
    | false => exact Or.inl ⟨_, _, .asked h (eq_immediate_of_not_isDeferred hshape)⟩

namespace Visit.Passes

variable {visit : Visit} {s t : Text} {history : History} {made : List Call}

/-- A supplier that is asked in passing is not deferred. -/
theorem immediate (h : visit.Passes s history t made) :
    ∀ call ∈ made, call.shape = .immediate := by
  intro call hcall
  cases h with
  | ready _ | absent _ => cases hcall
  | asked _ hshape =>
    rw [List.mem_singleton.1 hcall]
    exact hshape

/-- The first attempt goes on behind a visit that passes. -/
theorem tryVisits_cons (h : visit.Passes s history t made) (visits : List Visit) :
    tryVisits (visit :: visits) s history =
      ⟨(tryVisits visits t (history ++ made)).result,
        made.map .call ++ (tryVisits visits t (history ++ made)).events⟩ := by
  cases h with
  | ready hsource | absent hsource => simp only [tryVisits, hsource, List.append_nil]; rfl
  | @asked supplier hsource hshape =>
    have hdeferred : ¬ supplier.shape.isDeferred = true := by simp [hshape, Shape.isDeferred]
    have hask := visit.ask_of_immediate hshape history
    simp only [tryVisits, hsource, if_neg hdeferred]
    rw [Effect.bind_eq_of_some (congrArg Run.result hask), Visit.calls_ask, hask]
    rfl

/-- So does the second attempt, which gives up a turn after a replacement. -/
theorem deferVisits_cons (h : visit.Passes s history t made) (visits : List Visit) :
    (deferVisits (visit :: visits) s history).result =
        (deferVisits visits t (history ++ made)).result ∧
      (deferVisits (visit :: visits) s history).calls =
        made ++ (deferVisits visits t (history ++ made)).calls := by
  cases h with
  | ready hsource =>
    simp only [deferVisits, hsource, List.append_nil, List.nil_append]
    exact ⟨by rw [Effect.pause_bind_apply], Effect.calls_pause_bind _ history⟩
  | absent hsource =>
    simp only [deferVisits, hsource, List.append_nil, List.nil_append, and_self]
  | @asked supplier hsource hshape =>
    have hask := congrArg Run.result (visit.ask_of_immediate hshape history)
    simp only [deferVisits, hsource]
    constructor
    · rw [Effect.result_bind, hask, Visit.calls_ask, Option.bind_some,
        Effect.pause_bind_apply]
    · rw [Effect.calls_bind_of_some hask, Visit.calls_ask, Effect.calls_pause_bind]

end Visit.Passes

section Deferred

variable {visit : Visit} {s : Text} {supplier : Supplier}

/-- The first attempt is broken off at a deferred supplier, which is not asked. -/
theorem tryVisits_cons_of_deferred (hsource : visit.source s = .ask supplier)
    (hdeferred : supplier.shape.isDeferred = true) (visits : List Visit) (history : History) :
    tryVisits (visit :: visits) s history = ⟨some none, []⟩ := by
  simp only [tryVisits, hsource, if_pos hdeferred]
  rfl

theorem calls_deferVisits_cons_of_ask (hsource : visit.source s = .ask supplier)
    (visits : List Visit) (history : History) :
    [supplier.asked visit.key] <+: (deferVisits (visit :: visits) s history).calls := by
  simp only [deferVisits, hsource]
  cases h : (visit.ask supplier history).result with
  | none =>
    rw [Effect.bind_eq_of_none h]
    show _ <+: (visit.ask supplier history).calls
    simp only [Visit.calls_ask, List.prefix_rfl]
  | some replacement =>
    rw [Effect.calls_bind_of_some h, Visit.calls_ask]
    exact List.prefix_append _ _

end Deferred

/-! ### Visits that find nothing to do -/

theorem Visit.source_of_isInfix {visit : Visit} {s : Text} (h : visit.marker <:+: s) :
    visit.source s = visit.sweep.source visit.value :=
  if_pos (Text.occursIn_iff_isInfix.2 h)

theorem Visit.source_of_not_isInfix {visit : Visit} {s : Text} (h : ¬ visit.marker <:+: s) :
    visit.source s = .absent := by
  rw [Visit.source, if_neg]
  rwa [Text.occursIn_iff_isInfix]

/-- Visits that need no text for a marker leave the text to those behind them. -/
theorem tryVisits_append_of_absent {visits : List Visit} {s : Text}
    (h : ∀ visit ∈ visits, visit.source s = .absent) (later : List Visit) :
    tryVisits (visits ++ later) s = tryVisits later s := by
  induction visits with
  | nil => rfl
  | cons visit visits ih =>
    obtain ⟨hvisit, hrest⟩ := List.forall_mem_cons.1 h
    rw [List.cons_append, tryVisits, hvisit]
    exact ih hrest

/-- So do visits whose markers do not occur. -/
theorem tryVisits_append_of_not_isInfix {visits : List Visit} {s : Text}
    (h : ∀ visit ∈ visits, ¬ visit.marker <:+: s) (later : List Visit) :
    tryVisits (visits ++ later) s = tryVisits later s :=
  tryVisits_append_of_absent
    (fun visit hvisit => Visit.source_of_not_isInfix (h visit hvisit)) later

theorem tryVisits_of_absent {visits : List Visit} {s : Text}
    (h : ∀ visit ∈ visits, visit.source s = .absent) : tryVisits visits s = pure (some s) := by
  have happend := tryVisits_append_of_absent h []
  rwa [List.append_nil] at happend

theorem tryVisits_of_not_isInfix {visits : List Visit} {s : Text}
    (h : ∀ visit ∈ visits, ¬ visit.marker <:+: s) : tryVisits visits s = pure (some s) :=
  tryVisits_of_absent fun visit hvisit => Visit.source_of_not_isInfix (h visit hvisit)

/-! ### Whole attempts -/

/-- The call for which the first attempt is broken off: the attempt gets through the visits
before it with all that it does, and then comes to the marker of a deferred supplier. -/
def GivesUpOn (visits : List Visit) (s : Text) (history : History) (call : Call) : Prop :=
  ∃ before visit after t supplier,
    visits = before ++ visit :: after ∧
    tryVisits before s history = ⟨some (some t), (tryVisits visits s history).events⟩ ∧
    visit.source t = .ask supplier ∧
    supplier.shape.isDeferred = true ∧
    call = supplier.asked visit.key

/-- A visit that passes comes before the place where the rest is given up. -/
theorem Visit.Passes.givesUpOn_cons {visit : Visit} {visits : List Visit} {s t : Text}
    {history : History} {made : List Call} {call : Call} (h : visit.Passes s history t made)
    (hcall : GivesUpOn visits t (history ++ made) call) :
    GivesUpOn (visit :: visits) s history call := by
  obtain ⟨before, stop, after, t', supplier, rfl, hbefore, hsource, hdeferred, rfl⟩ := hcall
  refine ⟨visit :: before, stop, after, t', supplier, rfl, ?_, hsource, hdeferred, rfl⟩
  rw [h.tryVisits_cons, h.tryVisits_cons, hbefore]

/-- The attempts run in lock step. Either both come to the same text with the same calls, or the
first one gives up on a call, which is the next one that the second makes. -/
theorem attempts_lockstep (visits : List Visit) (s : Text) (history : History) :
    (∀ call ∈ (tryVisits visits s history).calls, call.shape = .immediate) ∧
      ((∃ t, (tryVisits visits s history).result = some (some t) ∧
          (deferVisits visits s history).result = some t ∧
          (deferVisits visits s history).calls = (tryVisits visits s history).calls) ∨
        ((tryVisits visits s history).result = some none ∧
          ∃ call, GivesUpOn visits s history call ∧
            (tryVisits visits s history).calls ++ [call] <+:
              (deferVisits visits s history).calls)) := by
  induction visits generalizing s history with
  | nil =>
    refine ⟨fun call hcall => ?_, Or.inl ⟨s, rfl, rfl, rfl⟩⟩
    cases hcall
  | cons visit visits ih =>
    -- Either the visit passes and the rest runs in lock step, or this is where the first gives up.
    rcases visit.passes_or_deferred s history with ⟨t, made, h⟩ | ⟨supplier, hsource, hdeferred⟩
    · obtain ⟨himmediate, hrest⟩ := ih t (history ++ made)
      have hcalls : (tryVisits (visit :: visits) s history).calls =
          made ++ (tryVisits visits t (history ++ made)).calls := by
        rw [h.tryVisits_cons, Run.calls_map_append]
        rfl
      obtain ⟨hslow, hslowCalls⟩ := h.deferVisits_cons visits
      rw [hcalls, hslow, hslowCalls, h.tryVisits_cons]
      refine ⟨?_, ?_⟩
      · intro call hcall
        rcases List.mem_append.1 hcall with hmade | hlater
        · exact h.immediate call hmade
        · exact himmediate call hlater
      · rcases hrest with ⟨t', hfast, hresult, hsame⟩ | ⟨hfast, call, hgives, hbegins⟩
        · exact Or.inl ⟨t', hfast, hresult, by rw [hsame]⟩
        · refine Or.inr ⟨hfast, call, h.givesUpOn_cons hgives, ?_⟩
          rw [List.append_assoc]
          exact (List.prefix_append_right_inj made).2 hbegins
    · have hfast := tryVisits_cons_of_deferred hsource hdeferred visits history
      rw [hfast]
      refine ⟨fun call hcall => ?_, Or.inr ⟨rfl, supplier.asked visit.key, ?_, ?_⟩⟩
      · cases hcall
      · exact ⟨[], visit, visits, s, supplier, rfl, by rw [hfast]; rfl, hsource, hdeferred, rfl⟩
      · exact calls_deferVisits_cons_of_ask hsource visits history

/-! ### Substitution as a whole -/

theorem Visit.source_nil (visit : Visit) : visit.source [] = .absent := by
  obtain ⟨sweep, key, value⟩ := visit
  cases sweep <;> simp [Visit.source, Visit.marker, Sweep.marker, Text.occursIn]

theorem tryVisits_nil_text (visits : List Visit) : tryVisits visits [] = pure (some []) := by
  induction visits with
  | nil => rfl
  | cons visit visits ih => simp only [tryVisits, visit.source_nil, ih]

theorem Variables.visits_of_isEmpty {vars : Variables} (h : vars.isEmpty = true) :
    vars.visits = [] := by
  have hentries : vars.entries = [] := List.isEmpty_iff.1 h
  simp [Variables.visits, hentries]

/-- Where nothing is to be done, the first attempt leaves the template as it is. -/
theorem trySubstitute_of_isEmpty {raw : Text} {vars : Variables}
    (h : (raw.isEmpty || vars.isEmpty) = true) : trySubstitute raw vars = pure (some raw) := by
  rcases (Bool.or_eq_true _ _).mp h with hraw | hvars
  · rw [List.isEmpty_iff.1 hraw]
    exact tryVisits_nil_text vars.visits
  · rw [trySubstitute, Variables.visits_of_isEmpty hvars]
    rfl

/-- If the first attempt has a text, substitution is that attempt. -/
theorem substitute_of_some {raw t : Text} {vars : Variables} {history : History}
    (h : (trySubstitute raw vars history).result = some (some t)) :
    substitute raw vars history = ⟨some t, (trySubstitute raw vars history).events⟩ := by
  unfold substitute
  split
  · rename_i hempty
    rw [trySubstitute_of_isEmpty hempty] at h ⊢
    cases h
    rfl
  · rw [Effect.bind_eq_of_some h]
    simp [Effect.pure_apply]

theorem substitute_eq_pure {raw t : Text} {vars : Variables}
    (h : trySubstitute raw vars = pure (some t)) : substitute raw vars = pure t := by
  funext history
  rw [substitute_of_some (by rw [h]; rfl), h]
  rfl

/-- If it gives up, substitution is that attempt and then the second one. -/
theorem substitute_of_none {raw : Text} {vars : Variables} {history : History}
    (h : (trySubstitute raw vars history).result = some none) :
    substitute raw vars history =
      ⟨(substituteDeferred raw vars (history ++ (trySubstitute raw vars history).calls)).result,
        (trySubstitute raw vars history).events ++
          (substituteDeferred raw vars
            (history ++ (trySubstitute raw vars history).calls)).events⟩ := by
  unfold substitute
  split
  · rename_i hempty
    rw [trySubstitute_of_isEmpty hempty] at h
    cases h
  · rw [Effect.bind_eq_of_some h]

/-! ### Suppliers that reply to their key alone -/

theorem Supplier.KeyOnlyAt.steady_call {supplier : Supplier} {key : Text}
    (h : supplier.KeyOnlyAt key) : (supplier.call key).Steady := by
  intro history history'
  unfold Supplier.call
  rw [h (History.count history supplier.id + 1) (History.count history' supplier.id + 1)]

/-- The second attempt runs in the same way after every history. -/
theorem steady_deferVisits {visits : List Visit} (h : KeyOnlyVisits visits) (s : Text) :
    (deferVisits visits s).Steady := by
  induction visits generalizing s with
  | nil => exact Effect.steady_pure s
  | cons visit visits ih =>
    have hrest := ih fun later hlater => h later (List.mem_cons_of_mem visit hlater)
    unfold deferVisits
    split
    · exact Effect.steady_pause.bind fun _ => hrest _
    · exact hrest s
    · rename_i supplier hsource
      have hreply := h visit List.mem_cons_self supplier (Visit.value_of_source_eq_ask hsource)
      have hask : (visit.ask supplier).Steady :=
        hreply.steady_call.bind fun reply => Effect.steady_pure _
      exact hask.bind fun replacement => Effect.steady_pause.bind fun _ => hrest _

theorem steady_substituteDeferred {vars : Variables} (h : vars.KeyOnly) (raw : Text) :
    (substituteDeferred raw vars).Steady :=
  steady_deferVisits h.visits raw

/-- The attempt without waiting, the attempt that waits and the substitution that chooses between
them belong together. If the first comes to a text, the others come to the same text with the same
calls. If it gives up, the second begins with the same calls and goes on with the one that the
first gave up on; substitution makes the calls of the first and then those of the second, and if
suppliers reply to their keys alone, the second does what it would have done by itself. -/
theorem substitute_attempts_agree (raw : Text) (vars : Variables) (history : History) :
    let fast := trySubstitute raw vars history
    let slow := substituteDeferred raw vars history
    let again := substituteDeferred raw vars (history ++ fast.calls)
    let whole := substitute raw vars history
    (∀ call ∈ fast.calls, call.shape = .immediate) ∧
      ((∃ t, fast.result = some (some t) ∧ slow.result = some t ∧ slow.calls = fast.calls ∧
          whole.result = some t ∧ whole.calls = fast.calls) ∨
        (fast.result = some none ∧
          (∃ call, GivesUpOn vars.visits raw history call ∧
            fast.calls ++ [call] <+: slow.calls) ∧
          (whole.result = again.result ∧ whole.calls = fast.calls ++ again.calls) ∧
          (vars.KeyOnly →
            (∀ history', substituteDeferred raw vars history' = slow) ∧
              whole.result = slow.result ∧ whole.calls = fast.calls ++ slow.calls))) := by
  intro fast slow again whole
  obtain ⟨himmediate, hcases⟩ := attempts_lockstep vars.visits raw history
  refine ⟨himmediate, ?_⟩
  rcases hcases with ⟨t, hfast, hslow, hcalls⟩ | ⟨hfast, hgives⟩
  · have hwhole : whole = ⟨some t, fast.events⟩ := substitute_of_some hfast
    refine Or.inl ⟨t, hfast, hslow, hcalls, ?_, ?_⟩
    · rw [hwhole]
    · rw [hwhole]
      rfl
  · have hwhole : whole = ⟨again.result, fast.events ++ again.events⟩ :=
      substitute_of_none hfast
    have hresult : whole.result = again.result := by rw [hwhole]
    have hcalls : whole.calls = fast.calls ++ again.calls := by
      rw [hwhole, Run.calls_mk_append]
      rfl
    refine Or.inr ⟨hfast, hgives, ⟨hresult, hcalls⟩, ?_⟩
    intro hkeyOnly
    -- The calls of the first attempt have no bearing on the second one.
    have hsteady := steady_substituteDeferred hkeyOnly raw
    have hagain : again = slow := hsteady (history ++ fast.calls) history
    refine ⟨fun history' => hsteady history' history, ?_, ?_⟩
    · rw [hresult, hagain]
    · rw [hcalls, hagain]

/-- Two suppliers of the given shapes; the text of the first brings the marker of the second. -/
def suppliersOf (first second : Shape) : Variables where
  entries := [
    (['a'], .supplied ⟨0, first, fun _ _ => ['<', '{', 'b', '}', '>']⟩),
    (['b'], .supplied ⟨1, second, fun key _ => key ++ key⟩)]
  nodup_keys := by simp

/-- The second supplier is deferred, so the first is asked in both attempts. -/
theorem substitute_attempts_agree_suppliersOf :
    (suppliersOf .immediate .callback).KeyOnly ∧
      (substitute ['{', 'a', '}'] (suppliersOf .immediate .callback) []).result =
        some ['<', 'b', 'b', '>'] ∧
      (substitute ['{', 'a', '}'] (suppliersOf .immediate .callback) []).calls =
        [⟨0, .immediate, ['a']⟩, ⟨0, .immediate, ['a']⟩, ⟨1, .callback, ['b']⟩] := by
  have hkeyOnly : (suppliersOf .immediate .callback).KeyOnly := by
    intro key supplier hentry m n
    simp only [suppliersOf, List.mem_cons, List.not_mem_nil, or_false, Prod.mk.injEq,
      Value.supplied.injEq] at hentry
    rcases hentry with ⟨-, rfl⟩ | ⟨-, rfl⟩ <;> rfl
  have hagree := substitute_attempts_agree ['{', 'a', '}'] (suppliersOf .immediate .callback) []
  rcases hagree.2 with ⟨t, hfast, -⟩ | ⟨-, -, -, hwhole⟩
  · cases hfast
  · obtain ⟨-, hresult, hcalls⟩ := hwhole hkeyOnly
    exact ⟨hkeyOnly, hresult, hcalls⟩

end MarkerTemplate
