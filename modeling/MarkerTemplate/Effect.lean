import MarkerTemplate.Text

/-!
# Running with suppliers

Some texts are not known in advance: they are asked for, by key, when a marker needs them. This
file says what it is to run a computation that asks suppliers for texts.

## Main definitions

- `Supplier` is a function value: asked with a key, it replies with a text
- `Call` is the record of one question, and `Event` is a call or a turn given up
- `Run` is what running a computation amounts to: its result and its events
- `Effect` is a computation, which runs after a history of earlier calls
- `Supplier.call` asks a supplier, and `Effect.pause` gives up a turn

## Design notes

The only memory of a supplier is how often it has been asked, so the history of all calls is the
whole state, and `History.count` reads a supplier's own count from it.

The events of a run keep calls and turns in one order, so that the turns before a call can be told
from those after it. `Run.calls` and `Run.turns` look at each kind by itself.

A computation may wait for a text that never comes. It then has no result, and no further event
follows: see `Effect.bind`.
-/

namespace MarkerTemplate

/-- How a supplier hands over its text. -/
inductive Shape where
  | immediate
  -- The text is handed to the caller before the supplier returns.
  | callback
  -- The text comes after the given number of turns.
  | future (delay : Nat)
  | never
  deriving DecidableEq, Repr

/-- Whether a text of this shape may have to be waited for. -/
def Shape.isDeferred : Shape → Bool
  | .immediate => false
  | .callback | .future _ | .never => true

/-- A source of texts. Values may be copied, and the copies remain the same supplier, which is
known by its number. -/
structure Supplier where
  id : Nat
  shape : Shape
  -- The text for a key when the supplier is asked for the given time, counted from one.
  reply : Text → Nat → Text

/-- A supplier has been asked with a key. -/
structure Call where
  supplier : Nat
  shape : Shape
  key : Text
  deriving DecidableEq, Repr

/-- The calls made so far, the earliest first. -/
abbrev History := List Call

/-- How often a supplier has been asked. -/
def History.count (history : History) (supplier : Nat) : Nat :=
  history.countP (·.supplier == supplier)

/-- What can be seen of a computation while it runs. -/
inductive Event where
  | call (call : Call)
  | turn
  deriving DecidableEq, Repr

/-- The call that an event is, if it is one. -/
def Event.call? : Event → Option Call
  | .call made => some made
  | .turn => none

/-- Whether an event is a turn. -/
def Event.isTurn : Event → Bool
  | .call _ => false
  | .turn => true

/-- The outcome of running a computation. -/
structure Run (α : Type) where
  -- The result, unless the computation waits for something that never comes.
  result : Option α
  events : List Event

namespace Run

variable {α : Type}

/-- The calls made, in order. -/
def calls (run : Run α) : List Call :=
  run.events.filterMap Event.call?

/-- How often the computation gave up its turn. -/
def turns (run : Run α) : Nat :=
  run.events.countP Event.isTurn

end Run

/-- A computation that may ask suppliers, take turns and wait. -/
def Effect (α : Type) : Type :=
  History → Run α

namespace Effect

variable {α β γ : Type}

/-- The computation that has its result already. -/
protected def pure (a : α) : Effect α :=
  fun _ => ⟨some a, []⟩

/-- One computation and then another. If the first waits forever, the second does not begin. -/
protected def bind (x : Effect α) (f : α → Effect β) : Effect β := fun history =>
  let first := x history
  match first.result with
  | none => ⟨none, first.events⟩
  | some a =>
    let second := f a (history ++ first.calls)
    ⟨second.result, first.events ++ second.events⟩

instance : Monad Effect where
  pure := Effect.pure
  bind := Effect.bind

/-- Giving up one turn. -/
def pause : Effect Unit :=
  fun _ => ⟨some (), [.turn]⟩

/-- Waiting for something that never comes. -/
def forever : Effect α :=
  fun _ => ⟨none, []⟩

end Effect

/-- Asking a supplier with a key. The call is made when the supplier is asked, not when its text
comes. -/
def Supplier.call (supplier : Supplier) (key : Text) : Effect Text := fun history =>
  let reply := supplier.reply key (history.count supplier.id + 1)
  let asked : Event := .call ⟨supplier.id, supplier.shape, key⟩
  match supplier.shape with
  | .immediate | .callback => ⟨some reply, [asked]⟩
  | .future delay => ⟨some reply, asked :: List.replicate delay .turn⟩
  | .never => ⟨none, [asked]⟩

/-! ### Lemmas -/

namespace Effect

variable {α β γ : Type}

theorem pure_apply (a : α) (history : History) :
    (pure a : Effect α) history = ⟨some a, []⟩ :=
  rfl

theorem bind_eq_of_none {x : Effect α} {f : α → Effect β} {history : History}
    (h : (x history).result = none) : (x >>= f) history = ⟨none, (x history).events⟩ := by
  change Effect.bind x f history = _
  simp [Effect.bind, h]

theorem bind_eq_of_some {x : Effect α} {f : α → Effect β} {history : History} {a : α}
    (h : (x history).result = some a) :
    (x >>= f) history =
      let second := f a (history ++ (x history).calls)
      ⟨second.result, (x history).events ++ second.events⟩ := by
  change Effect.bind x f history = _
  simp [Effect.bind, h]

/-- A run without events leads straight into what follows. -/
theorem pure_bind (a : α) (f : α → Effect β) : (pure a : Effect α) >>= f = f a := by
  funext history
  have h : ((pure a : Effect α) history).result = some a := rfl
  rw [bind_eq_of_some h]
  simp [pure_apply, Run.calls]

theorem bind_assoc (x : Effect α) (f : α → Effect β) (g : β → Effect γ) :
    x >>= f >>= g = x >>= fun a => f a >>= g := by
  funext history
  cases hx : (x history).result with
  | none =>
    have hxf := bind_eq_of_none (f := f) hx
    rw [bind_eq_of_none (by rw [hxf]), hxf, bind_eq_of_none hx]
  | some a =>
    have hxf := bind_eq_of_some (f := f) hx
    rw [bind_eq_of_some hx]
    cases hf : (f a (history ++ (x history).calls)).result with
    | none => rw [bind_eq_of_none (by rw [hxf]; exact hf), hxf, bind_eq_of_none hf]
    | some b =>
      rw [bind_eq_of_some (by rw [hxf]; exact hf), hxf, bind_eq_of_some hf]
      simp [Run.calls, List.append_assoc]

theorem bind_pure (x : Effect α) : x >>= pure = x := by
  funext history
  cases hx : (x history).result with
  | none => rw [bind_eq_of_none hx, ← hx]
  | some a => rw [bind_eq_of_some hx, pure_apply]; simp [← hx]

instance : LawfulMonad Effect :=
  LawfulMonad.mk' Effect bind_pure (fun a f => pure_bind a f) bind_assoc

end Effect

end MarkerTemplate
