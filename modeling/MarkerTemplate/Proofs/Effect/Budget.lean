import Mathlib.Algebra.GroupWithZero.Nat
import MarkerTemplate.Proofs.Effect

/-!
# Runs within a budget

Which suppliers a computation may ask, in which order, and how many turns it may take.

## Main definitions

- `Shape.delay` and `Call.delay` — the turns for which a text is waited for
- `Run.delays` — the turns for which a run waits in all its calls
- `Effect.Within` — the calls and turns of a computation stay within a budget

## Design notes

A budget is a list of calls, of which some may be left out but none repeated or made earlier, and a
number of turns. Turns for which suppliers let wait are on the account of the suppliers. Budgets add
up where computations follow one another, and this also holds if the first one waits forever: what
has not begun stays within any budget.
-/

namespace MarkerTemplate

/-- For how many turns a text of this shape is waited for. -/
def Shape.delay : Shape → Nat
  | .future delay => delay
  | .immediate | .callback | .never => 0

def Call.delay (call : Call) : Nat :=
  call.shape.delay

namespace Run

variable {α : Type}

/-- For how many turns the run waits for the suppliers that it asks. -/
def delays (run : Run α) : Nat :=
  (run.calls.map Call.delay).sum

theorem turns_mk_append (result : Option α) (before behind : List Event) :
    (⟨result, before ++ behind⟩ : Run α).turns =
      before.countP Event.isTurn + behind.countP Event.isTurn :=
  List.countP_append

/-- Suppliers that hand over their texts at once let nobody wait. -/
theorem delays_of_forall_immediate {run : Run α}
    (h : ∀ call ∈ run.calls, call.shape = .immediate) : run.delays = 0 := by
  refine List.sum_eq_zero_iff_forall_eq_nat.2 fun delay hdelay => ?_
  obtain ⟨call, hcall, rfl⟩ := List.mem_map.1 hdelay
  rw [Call.delay, h call hcall]
  rfl

end Run

namespace Effect

variable {α β : Type}

/-- After every history the computation makes no calls but those listed, each at most once and in
this order, and besides waiting for suppliers it takes no more turns than the given number. -/
def Within (calls : List Call) (turns : Nat) (x : Effect α) : Prop :=
  ∀ history, (x history).calls.Sublist calls ∧ (x history).turns ≤ turns + (x history).delays

theorem within_pure (a : α) : Within [] 0 (pure a : Effect α) :=
  fun _ => ⟨List.Sublist.refl [], Nat.zero_le _⟩

theorem within_pause : Within [] 1 pause :=
  fun _ => ⟨List.Sublist.refl [], Nat.le_refl 1⟩

variable {calls calls' : List Call} {turns turns' : Nat}

/-- A computation also stays within a larger budget. -/
theorem Within.mono {x : Effect α} (h : Within calls turns x) (hcalls : calls.Sublist calls')
    (hturns : turns ≤ turns') : Within calls' turns' x := by
  intro history
  obtain ⟨hmade, htaken⟩ := h history
  exact ⟨hmade.trans hcalls, by omega⟩

theorem Within.bind {x : Effect α} {f : α → Effect β} (hx : Within calls turns x)
    (hf : ∀ a, Within calls' turns' (f a)) :
    Within (calls ++ calls') (turns + turns') (x >>= f) := by
  intro history
  obtain ⟨hmade, htaken⟩ := hx history
  cases h : (x history).result with
  | none =>
    rw [bind_eq_of_none h]
    refine ⟨hmade.trans (List.sublist_append_left calls calls'), ?_⟩
    show (x history).turns ≤ turns + turns' + (x history).delays
    omega
  | some a =>
    obtain ⟨hmade', htaken'⟩ := hf a (history ++ (x history).calls)
    have hcalls := calls_bind_of_some (f := f) h
    have hdelays : ((x >>= f) history).delays =
        (x history).delays + (f a (history ++ (x history).calls)).delays := by
      rw [Run.delays, hcalls, List.map_append, List.sum_append]
      rfl
    have hturns : ((x >>= f) history).turns =
        (x history).turns + (f a (history ++ (x history).calls)).turns := by
      rw [bind_eq_of_some h]
      exact Run.turns_mk_append _ _ _
    rw [hcalls]
    exact ⟨hmade.append hmade', by omega⟩

end Effect

end MarkerTemplate
