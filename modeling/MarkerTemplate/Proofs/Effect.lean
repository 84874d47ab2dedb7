import MarkerTemplate.Effect

/-!
# Runs compared

What can be said of the run of a computation without regard to the history it starts from.

## Main definitions

- `Effect.Steady` — the run is the same after every history
- `Effect.Agree` — two computations come to the same result after any two histories, and neither
  waits forever unless a given condition holds
- `Effect.Returns` — the computation always comes to a given result
- `Effect.Sequential` — a relation on computations that is kept by doing one after another

## Design notes

Each of them is kept by doing one computation after another. `Effect.Agree` carries the condition
under which a run may wait forever along with the equality of results, so that one induction over
a program shows both that shapes of suppliers do not matter and that a result comes at all.
-/

namespace MarkerTemplate

namespace Run

variable {α : Type}

theorem calls_mk_append (result : Option α) (before behind : List Event) :
    (⟨result, before ++ behind⟩ : Run α).calls =
      before.filterMap Event.call? ++ behind.filterMap Event.call? :=
  List.filterMap_append

theorem calls_map_append (result : Option α) (made : List Call) (events : List Event) :
    (⟨result, made.map .call ++ events⟩ : Run α).calls =
      made ++ events.filterMap Event.call? := by
  rw [calls_mk_append]
  congr 1
  induction made with
  | nil => rfl
  | cons call made ih => simp [Event.call?, ih]

end Run

/-- The record of asking the supplier with the key. -/
def Supplier.asked (supplier : Supplier) (key : Text) : Call :=
  ⟨supplier.id, supplier.shape, key⟩

namespace Effect

variable {α β : Type}

theorem result_bind (x : Effect α) (f : α → Effect β) (history : History) :
    ((x >>= f) history).result =
      (x history).result.bind fun a => (f a (history ++ (x history).calls)).result := by
  cases h : (x history).result with
  | none => rw [bind_eq_of_none h, Option.bind_none]
  | some a => rw [bind_eq_of_some h, Option.bind_some]

theorem calls_bind_of_some {x : Effect α} {f : α → Effect β} {history : History} {a : α}
    (h : (x history).result = some a) :
    ((x >>= f) history).calls =
      (x history).calls ++ (f a (history ++ (x history).calls)).calls := by
  rw [bind_eq_of_some h, Run.calls_mk_append]
  rfl

/-- A turn is given up before all else and changes nothing. -/
theorem pause_bind_apply (x : Effect α) (history : History) :
    (pause >>= fun _ => x) history = ⟨(x history).result, .turn :: (x history).events⟩ := by
  have h : (pause history).result = some () := rfl
  have hcalls : (pause history).calls = [] := rfl
  rw [bind_eq_of_some h, hcalls, List.append_nil]
  rfl

theorem calls_pause_bind (x : Effect α) (history : History) :
    ((pause >>= fun _ => x) history).calls = (x history).calls := by
  rw [pause_bind_apply]
  rfl

/-! ### Runs that are the same after every history -/

/-- The run does not depend on the calls made before. -/
def Steady (x : Effect α) : Prop :=
  ∀ history history', x history = x history'

theorem steady_pure (a : α) : Steady (pure a : Effect α) :=
  fun _ _ => rfl

theorem steady_pause : Steady pause :=
  fun _ _ => rfl

theorem Steady.bind {x : Effect α} {f : α → Effect β} (hx : Steady x) (hf : ∀ a, Steady (f a)) :
    Steady (x >>= f) := by
  intro history history'
  have hrun := hx history history'
  cases h : (x history).result with
  | none => rw [bind_eq_of_none h, bind_eq_of_none (hrun ▸ h), hrun]
  | some a =>
    rw [bind_eq_of_some h, bind_eq_of_some (hrun ▸ h),
      hf a (history ++ (x history).calls) (history' ++ (x history').calls), hrun]

/-! ### Computations with the same result -/

/-- After any two histories the computations come to the same result, and if they wait forever
then `waits` holds. -/
def Agree (waits : Prop) (x y : Effect α) : Prop :=
  ∀ history history',
    (x history).result = (y history').result ∧ ((x history).result = none → waits)

variable {waits : Prop}

theorem agree_pure (a : α) : Agree waits (pure a : Effect α) (pure a) := by
  intro history history'
  refine ⟨rfl, fun h => ?_⟩
  rw [pure_apply] at h
  cases h

theorem Agree.symm {x y : Effect α} (h : Agree waits x y) : Agree waits y x := by
  intro history history'
  obtain ⟨hresult, hwaits⟩ := h history' history
  exact ⟨hresult.symm, fun hnone => hwaits (hresult.trans hnone)⟩

theorem Agree.bind {x y : Effect α} {f g : α → Effect β} (hxy : Agree waits x y)
    (hfg : ∀ a, Agree waits (f a) (g a)) : Agree waits (x >>= f) (y >>= g) := by
  intro history history'
  obtain ⟨hresult, hwaits⟩ := hxy history history'
  rw [result_bind, result_bind, ← hresult]
  cases h : (x history).result with
  | none => exact ⟨rfl, fun _ => hwaits h⟩
  | some a => exact hfg a _ _

theorem agree_pause : Agree waits pause pause := by
  intro history history'
  refine ⟨rfl, fun h => ?_⟩
  cases h

/-! ### Relations that are kept in sequence -/

/-- The relation holds between a computation and itself if nothing is asked in it, and it is kept
by going on in related ways. -/
structure Sequential (R : (α : Type) → Effect α → Effect α → Prop) : Prop where
  rel_pure : ∀ {α : Type} (a : α), R α (pure a) (pure a)
  rel_pause : R Unit pause pause
  rel_bind : ∀ {α β : Type} {x y : Effect α} {f g : α → Effect β},
    R α x y → (∀ a, R β (f a) (g a)) → R β (x >>= f) (y >>= g)

theorem sequential_agree (waits : Prop) : Sequential fun _ => Agree waits :=
  ⟨agree_pure, agree_pause, Agree.bind⟩

/-! ### Results that are known -/

/-- After every history the computation comes to the result `a`. -/
def Returns (x : Effect α) (a : α) : Prop :=
  ∀ history, (x history).result = some a

theorem returns_pure (a : α) : Returns (pure a : Effect α) a :=
  fun _ => rfl

theorem returns_pause : Returns pause () :=
  fun _ => rfl

theorem Returns.bind {x : Effect α} {f : α → Effect β} {a : α} {b : β} (hx : Returns x a)
    (hf : Returns (f a) b) : Returns (x >>= f) b := by
  intro history
  rw [result_bind, hx history]
  exact hf _

end Effect

end MarkerTemplate
