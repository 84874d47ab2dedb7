import Mathlib.Logic.Function.Basic
import MarkerTemplate.Store.Cache

/-!
# How a template cache should serve

What should come of an action on a cache, told from what can be seen of the run up to then: which
texts the source gave to the cache, and which ones were dropped.

## Main definitions

- `CacheEvent` — a text has been given to the cache, or dropped
- `keptText` — the text that a journal of events leaves for an id
- `Fetches` and `Serves` — what a fetch and an action should come to

## Design notes

A journal never looks into the cache: an event is recorded because the source has been asked and had
the text, or because the action drops texts. `Serves` is stated over the texts that a journal leaves
and over the source as it is now, and it says of each action which ids the source is asked for, what
the answer is, and what is kept afterwards.
-/

namespace MarkerTemplate

/-! ### Journals -/

/-- What happens to the texts of a cache. -/
inductive CacheEvent where
  -- The cache asked its source for the template and was given this text.
  | loaded (id s : Text)
  | dropped (id : Text)
  | droppedAll

/-- What is kept for an id right after the event, if the event has anything to do with it. -/
def CacheEvent.leaves? (id : Text) : CacheEvent → Option (Option Text)
  | .loaded other s => if other = id then some (some s) else none
  | .dropped other => if other = id then some none else none
  | .droppedAll => some none

/-- The text that the latest event about an id leaves for it. -/
def keptText (journal : List CacheEvent) (id : Text) : Option Text :=
  (journal.reverse.findSome? (·.leaves? id)).join

/-- The event that comes of asking the source for a template: none, if it has no text to give. -/
def TemplateSource.delivery? (source : TemplateSource) (id : Text) : Option CacheEvent :=
  match source.load id with
  | .ok (some s) => some (.loaded id s)
  | .ok none => none
  | .error _ => none

def CacheAction.drops : CacheAction → List CacheEvent
  | .invalidate id => [.dropped id]
  | .clear => [.droppedAll]
  | .put _ _ | .delete _ | .load _ | .raw _ | .render _ _ _ | .renderEach _ _ _ => []

/-- The id that an action is about. -/
def CacheAction.id? : CacheAction → Option Text
  | .put id _ | .delete id | .load id | .raw id | .render id _ _ | .renderEach id _ _
  | .invalidate id => some id
  | .clear => none

/-- The id of the template that an action takes from the cache. -/
def CacheAction.fetched? : CacheAction → Option Text
  | .raw id | .render id _ _ | .renderEach id _ _ => some id
  | .put _ _ | .delete _ | .load _ | .invalidate _ | .clear => none

/-! ### What should come of an action -/

/-- What should come of fetching the template `id` when the source is `now` and `kept` tells the
texts kept: the ids the source is asked for, the text or an error, and the texts kept afterwards. -/
inductive Fetches (now : TemplateSource) (kept : Text → Option Text) (id : Text) :
    List Text → Except TemplateError Text → (Text → Option Text) → Prop
  | fromCache {s : Text} (hkept : kept id = some s) : Fetches now kept id [] (.ok s) kept
  | fromSource {s : Text} (hkept : kept id = none) (hload : now.load id = .ok (some s)) :
    Fetches now kept id [id] (.ok s) (Function.update kept id (some s))
  | missing (hkept : kept id = none) (hload : now.load id = .ok none) :
    Fetches now kept id [id] (.error (.notFound id)) kept
  | failed {error : FileError} (hkept : kept id = none)
    (hload : now.load id = .error (.file error)) :
    Fetches now kept id [id] (.error (.file error)) kept

/-- What should come of an action after the calls `history`: the answer, the ids the source is asked
for, the calls, and the texts kept afterwards. -/
inductive Serves (now : TemplateSource) (kept : Text → Option Text) (history : History) :
    CacheAction → CacheAnswer → List Text → List Call → (Text → Option Text) → Prop
  | put (id s : Text) : Serves now kept history (.put id s) .done [] [] kept
  | delete (id : Text) : Serves now kept history (.delete id) .done [] [] kept
  | load {id : Text} {s : Option Text} (hload : now.load id = .ok s) :
    Serves now kept history (.load id) (.found s) [] [] kept
  | loadFailed {id : Text} {error : TemplateError} (hload : now.load id = .error error) :
    Serves now kept history (.load id) (.failed error) [] [] kept
  | raw {id s : Text} {asked : List Text} {after : Text → Option Text}
    (hfetch : Fetches now kept id asked (.ok s) after) :
    Serves now kept history (.raw id) (.found (some s)) asked [] after
  | render {id s : Text} {asked : List Text} {after : Text → Option Text}
    (hfetch : Fetches now kept id asked (.ok s) after) (vars : Variables) (spacer : Text) :
    Serves now kept history (.render id vars spacer)
      (.rendered (merge s vars spacer history).result) asked
      (merge s vars spacer history).calls after
  | renderEach {id s : Text} {asked : List Text} {after : Text → Option Text}
    (hfetch : Fetches now kept id asked (.ok s) after) (collection : Collection) (spacer : Text) :
    Serves now kept history (.renderEach id collection spacer)
      (.rendered (renderEach s collection spacer history).result) asked
      (renderEach s collection spacer history).calls after
  | fetchFailed {action : CacheAction} {id : Text} (haction : action.fetched? = some id)
    {error : TemplateError} {asked : List Text} {after : Text → Option Text}
    (hfetch : Fetches now kept id asked (.error error) after) :
    Serves now kept history action (.failed error) asked [] after
  | invalidate (id : Text) :
    Serves now kept history (.invalidate id) (.wasKept (kept id).isSome) [] []
      (Function.update kept id none)
  | clear : Serves now kept history .clear .done [] [] fun _ => none

/-! ### The texts a journal leaves -/

theorem keptText_concat (journal : List CacheEvent) (event : CacheEvent) (id : Text) :
    keptText (journal ++ [event]) id = (event.leaves? id).getD (keptText journal id) := by
  rw [keptText, List.reverse_concat, List.findSome?_cons]
  cases event.leaves? id <;> rfl

/-- An event about one id leaves the texts of the others alone. -/
theorem keptText_concat_eq_update (journal : List CacheEvent) {event : CacheEvent} {id : Text}
    {left : Option Text}
    (h : ∀ other, event.leaves? other = if id = other then some left else none) :
    keptText (journal ++ [event]) = Function.update (keptText journal) id left := by
  funext other
  rw [keptText_concat, h, Function.update_apply]
  by_cases hother : other = id
  · rw [if_pos hother.symm, if_pos hother, Option.getD_some]
  · rw [if_neg (Ne.symm hother), if_neg hother, Option.getD_none]

theorem keptText_concat_droppedAll (journal : List CacheEvent) :
    keptText (journal ++ [.droppedAll]) = fun _ => none := by
  funext other
  rw [keptText_concat, CacheEvent.leaves?, Option.getD_some]

/-! ### What serving implies -/

/-- Fetching drops nothing. -/
theorem CacheAction.eq_of_fetched? {action : CacheAction} {id : Text}
    (h : action.fetched? = some id) : action.id? = some id ∧ action.drops = [] := by
  cases action with
  | raw | render | renderEach => exact ⟨h, rfl⟩
  | put | delete | load | invalidate | clear => cases h

section Fetches

variable {now : TemplateSource} {kept after : Text → Option Text} {journal : List CacheEvent}
  {id : Text} {asked : List Text} {fetched : Except TemplateError Text}

/-- What is kept after a fetch is what the journal says once it has the delivery in it. -/
theorem Fetches.keptText_eq (h : Fetches now (keptText journal) id asked fetched after) :
    after = keptText (journal ++ asked.filterMap now.delivery?) := by
  cases h with
  | fromCache hkept => simp
  | @fromSource s hkept hload =>
    have hdelivery : now.delivery? id = some (.loaded id s) := by
      rw [TemplateSource.delivery?, hload]
    rw [List.filterMap_cons_some hdelivery, List.filterMap_nil]
    exact (keptText_concat_eq_update journal fun _ => rfl).symm
  | missing hkept hload | failed hkept hload =>
    have hdelivery : now.delivery? id = none := by rw [TemplateSource.delivery?, hload]
    rw [List.filterMap_cons_none hdelivery, List.filterMap_nil, List.append_nil]

theorem Fetches.kept_eq_of_ne (h : Fetches now kept id asked fetched after) {other : Text}
    (hother : other ≠ id) : after other = kept other := by
  cases h with
  | fromCache | missing | failed => rfl
  | fromSource => exact Function.update_of_ne hother _ _

/-- A text that is kept is given without a look at the source. -/
theorem Fetches.eq_of_some (h : Fetches now kept id asked fetched after) {s : Text}
    (hkept : kept id = some s) : asked = [] ∧ fetched = .ok s := by
  cases h with
  | fromCache hfound =>
    cases hkept.symm.trans hfound
    exact ⟨rfl, rfl⟩
  | fromSource hmissing | missing hmissing | failed hmissing => cases hkept.symm.trans hmissing

end Fetches

section Serves

variable {now : TemplateSource} {kept after : Text → Option Text} {journal : List CacheEvent}
  {history : History} {action : CacheAction} {answer : CacheAnswer} {asked : List Text}
  {calls : List Call}

/-- What is kept after an action is what the journal says once it has the events of the action in
it. -/
theorem Serves.keptText_eq
    (h : Serves now (keptText journal) history action answer asked calls after) :
    after = keptText (journal ++ (asked.filterMap now.delivery? ++ action.drops)) := by
  cases h with
  | put | delete | load | loadFailed => simp [CacheAction.drops]
  | raw hfetch | render hfetch | renderEach hfetch =>
    rw [hfetch.keptText_eq, CacheAction.drops, List.append_nil]
  | fetchFailed haction hfetch =>
    rw [hfetch.keptText_eq, (CacheAction.eq_of_fetched? haction).2, List.append_nil]
  | invalidate id => exact (keptText_concat_eq_update journal fun _ => rfl).symm
  | clear => exact (keptText_concat_droppedAll journal).symm

/-- An action on one template changes nothing for the others. -/
theorem Serves.kept_eq_of_ne (h : Serves now kept history action answer asked calls after)
    {id other : Text} (hid : action.id? = some id) (hother : other ≠ id) :
    after other = kept other := by
  cases h with
  | put | delete | load | loadFailed => rfl
  | raw hfetch | render hfetch | renderEach hfetch =>
    cases hid
    exact hfetch.kept_eq_of_ne hother
  | fetchFailed haction hfetch =>
    cases (CacheAction.eq_of_fetched? haction).1.symm.trans hid
    exact hfetch.kept_eq_of_ne hother
  | invalidate =>
    cases hid
    exact Function.update_of_ne hother _ _
  | clear => cases hid

theorem Serves.raw_of_some {id s : Text}
    (h : Serves now kept history (.raw id) answer asked calls after) (hkept : kept id = some s) :
    answer = .found (some s) ∧ asked = [] := by
  cases h with
  | raw hfetch =>
    obtain ⟨rfl, hfetched⟩ := hfetch.eq_of_some hkept
    cases hfetched
    exact ⟨rfl, rfl⟩
  | fetchFailed haction hfetch =>
    cases haction
    cases (hfetch.eq_of_some hkept).2

end Serves

end MarkerTemplate
