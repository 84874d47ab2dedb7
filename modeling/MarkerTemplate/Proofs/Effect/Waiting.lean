import MarkerTemplate.Proofs.Effect

/-!
# Runs that wait forever

A run that waits forever has asked a supplier that never hands over its text, and that is the last
thing that it has done. If the supplier handed over a text after all, the run would go on from
there.

## Main definitions

- `Run.Unblocked` — a run and the one in which suppliers that never reply do so after all
- `Effect.Unblocked` — two computations of which every run and its counterpart are like this

## Design notes

Up to the call for which one of them waits, both runs have the same events, and so every supplier
has been asked as often in one as in the other. This is why both can be followed from one history.
-/

namespace MarkerTemplate

/-- The run `run'` is what becomes of `run` if suppliers that never hand over their texts do so.
Either none of them is asked, and then the runs are the same. Or one of them is asked, the run waits
for it forever, for which `waits` must hold, and the other run goes on behind that call. -/
inductive Run.Unblocked {α : Type} (waits : Prop) : Run α → Run α → Prop
  | same {run : Run α} {a : α} : run.result = some a →
      (∀ call ∈ run.calls, call.shape ≠ .never) → Unblocked waits run run
  | goesOn {before : List Event} {call call' : Call} {result : Option α} {after : List Event} :
      waits → (∀ earlier ∈ before.filterMap Event.call?, earlier.shape ≠ .never) →
      call.shape = .never → call'.supplier = call.supplier → call'.key = call.key →
      Unblocked waits ⟨none, before ++ [.call call]⟩ ⟨result, before ++ .call call' :: after⟩

namespace Effect

variable {α β : Type} {waits : Prop}

/-- After every history the run of `y` is what becomes of that of `x` if suppliers that never hand
over their texts do so. -/
def Unblocked (waits : Prop) (x y : Effect α) : Prop :=
  ∀ history, Run.Unblocked waits (x history) (y history)

theorem unblocked_pure (a : α) : Unblocked waits (pure a : Effect α) (pure a) :=
  fun _ => Run.Unblocked.same rfl fun _ hcall => absurd hcall List.not_mem_nil

theorem unblocked_pause : Unblocked waits pause pause :=
  fun _ => Run.Unblocked.same rfl fun _ hcall => absurd hcall List.not_mem_nil

theorem Unblocked.bind {x y : Effect α} {f g : α → Effect β} (hxy : Unblocked waits x y)
    (hfg : ∀ a, Unblocked waits (f a) (g a)) : Unblocked waits (x >>= f) (y >>= g) := by
  intro history
  have hrun := hxy history
  generalize hx : x history = run at hrun
  generalize hy : y history = run' at hrun
  cases hrun with
  | @same _ a hresult hcalls =>
    -- Nothing has been waited for, and both go on from the same history.
    have hrest := hfg a (history ++ run.calls)
    rw [bind_eq_of_some (hx ▸ hresult), bind_eq_of_some (hy ▸ hresult), hx, hy]
    generalize f a (history ++ run.calls) = rest at hrest
    generalize g a (history ++ run.calls) = rest' at hrest
    cases hrest with
    | same hlast hlater =>
      refine Run.Unblocked.same hlast fun call hcall => ?_
      rw [Run.calls_mk_append] at hcall
      exact (List.mem_append.1 hcall).elim (hcalls call) (hlater call)
    | @goesOn before call call' result after hwaits hbefore hnever hsupplier hkey =>
      have hearlier : ∀ earlier ∈ (run.events ++ before).filterMap Event.call?,
          earlier.shape ≠ .never := by
        intro earlier hmem
        rw [List.filterMap_append] at hmem
        exact (List.mem_append.1 hmem).elim (hcalls earlier) (hbefore earlier)
      have h : Run.Unblocked waits ⟨none, (run.events ++ before) ++ [.call call]⟩
          ⟨result, (run.events ++ before) ++ .call call' :: after⟩ :=
        Run.Unblocked.goesOn hwaits hearlier hnever hsupplier hkey
      simpa only [List.append_assoc] using h
  | @goesOn before call call' result after hwaits hbefore hnever hsupplier hkey =>
    rw [bind_eq_of_none (by rw [hx]), hx]
    cases result with
    | none =>
      rw [bind_eq_of_none (by rw [hy]), hy]
      exact Run.Unblocked.goesOn hwaits hbefore hnever hsupplier hkey
    | some b =>
      rw [bind_eq_of_some (a := b) (by rw [hy]), hy]
      simp only [List.append_assoc, List.cons_append]
      exact Run.Unblocked.goesOn hwaits hbefore hnever hsupplier hkey

theorem sequential_unblocked (waits : Prop) : Sequential fun _ => Unblocked waits :=
  ⟨unblocked_pure, unblocked_pause, Unblocked.bind⟩

/-- If nothing may wait forever, the run comes to a result. -/
theorem Unblocked.exists_result {x y : Effect α} (h : Unblocked False x y) (history : History) :
    ∃ a, (x history).result = some a := by
  have hrun := h history
  generalize x history = run at hrun ⊢
  generalize y history = run' at hrun
  cases hrun with
  | @same _ a hresult _ => exact ⟨a, hresult⟩
  | goesOn hwaits => exact hwaits.elim

end Effect

end MarkerTemplate
