import Mathlib.Data.List.Induction
import MarkerTemplate.Proofs.OrderedMap
import MarkerTemplate.Proofs.Store.Serving

/-!
# Runs of a template cache

At every step of every run, a cache serves as it should.

## Main definitions

- `TemplateSource.changedBy` — the source after an action, with no cache in sight
- `TemplateSource.Usable` — the default extension fits the name of a file
- `CacheRun` — a cache with the calls and the events up to now

## Design notes

A step is compared with `Serves` once, with the texts in the cache for the texts kept. From this it
follows that the cache goes on holding the texts of the journal, and the rest is an induction on the
run.
-/

namespace MarkerTemplate

namespace TemplateSource

/-- The source after an action. Only an action on the source itself changes it. -/
def changedBy (source : TemplateSource) : CacheAction → TemplateSource
  | .put id s => source.put id s
  | .delete id => source.delete id
  | .load _ | .raw _ | .render _ _ _ | .renderEach _ _ _ | .invalidate _ | .clear => source

/-- The default extension, if there is one, fits the name of a file. -/
def Usable : TemplateSource → Prop
  | .memory _ => True
  | .directory folder _ => '/' ∉ folder.extension

end TemplateSource

/-! ### Runs -/

/-- A cache, the calls made up to now, and what has happened to its texts. -/
structure CacheRun where
  cache : TemplateCache
  history : History
  journal : List CacheEvent

namespace CacheRun

/-- The run in which nothing has been done. -/
def ofSource (source : TemplateSource) : CacheRun :=
  ⟨.ofSource source, [], []⟩

def step (run : CacheRun) (action : CacheAction) : CacheStep :=
  run.cache.perform run.history action

/-- The run with one more action. -/
def next (run : CacheRun) (action : CacheAction) : CacheRun where
  cache := (run.step action).cache
  history := run.history ++ (run.step action).calls
  journal := run.journal ++
    ((run.step action).asked.filterMap run.cache.source.delivery? ++ action.drops)

def after (source : TemplateSource) (actions : List CacheAction) : CacheRun :=
  actions.foldl next (ofSource source)

end CacheRun

/-! ### What a step does -/

theorem Directory.exists_pathFor?_eq_some {folder : Directory} (h : '/' ∉ folder.extension)
    (id : Text) : ∃ path, folder.pathFor? id = some path := by
  have hslash : folder.extension.contains '/' = false := by
    rw [← Bool.not_eq_true, List.contains_iff_mem]
    exact h
  rw [pathFor?, hslash]
  split <;> exact ⟨_, rfl⟩

namespace TemplateSource

theorem Usable.changedBy {source : TemplateSource} (h : source.Usable) (action : CacheAction) :
    (source.changedBy action).Usable := by
  have hput : ∀ id s, (source.put id s).Usable := by
    intro id s
    cases source with
    | memory => trivial
    | directory folder files =>
      rw [put]
      split <;> exact h
  have hdelete : ∀ id, (source.delete id).Usable := by
    intro id
    cases source with
    | memory => trivial
    | directory folder files =>
      rw [delete]
      split <;> exact h
  cases action with
  | put id s => exact hput id s
  | delete id => exact hdelete id
  | load | raw | render | renderEach | invalidate | clear => exact h

theorem Usable.foldl_changedBy {source : TemplateSource} (h : source.Usable)
    (actions : List CacheAction) : (actions.foldl TemplateSource.changedBy source).Usable := by
  induction actions generalizing source with
  | nil => exact h
  | cons action actions ih => exact ih (h.changedBy action)

/-- A usable source fails only because of a file. -/
theorem Usable.exists_of_load_eq_error {source : TemplateSource} (h : source.Usable) {id : Text}
    {error : TemplateError} (herror : source.load id = .error error) :
    ∃ fileError, error = .file fileError := by
  cases source with
  | memory => cases herror
  | directory folder files =>
    obtain ⟨path, hpath⟩ := Directory.exists_pathFor?_eq_some h id
    simp only [load, hpath] at herror
    split at herror
    · cases herror
    · cases herror
    · cases herror
      exact ⟨_, rfl⟩

end TemplateSource

namespace TemplateCache

theorem source_fetch (cache : TemplateCache) (id : Text) :
    (cache.fetch id).cache.source = cache.source := by
  rw [fetch]
  cases cache.kept.get? id with
  | some s => rfl
  | none =>
    cases cache.source.load id with
    | ok found => cases found <;> rfl
    | error error => rfl

theorem fetches_fetch {cache : TemplateCache} (h : cache.source.Usable) (id : Text) :
    Fetches cache.source cache.kept.get? id (cache.fetch id).asked (cache.fetch id).text
      (cache.fetch id).cache.kept.get? := by
  rw [fetch]
  cases hkept : cache.kept.get? id with
  | some s => exact .fromCache hkept
  | none =>
    cases hload : cache.source.load id with
    | ok found =>
      cases found with
      | some s =>
        have hget : (cache.kept.insert id s).get? =
            Function.update cache.kept.get? id (some s) := by
          funext other
          rw [OrderedMap.get?_insert, Function.update_apply]
        show Fetches _ _ _ _ _ (cache.kept.insert id s).get?
        rw [hget]
        exact .fromSource hkept hload
      | none => exact .missing hkept hload
    | error error =>
      obtain ⟨fileError, rfl⟩ := h.exists_of_load_eq_error hload
      exact .failed hkept hload

theorem source_renderWith (cache : TemplateCache) (id : Text) (history : History)
    (render : Text → Effect Text) :
    (cache.renderWith id history render).cache.source = cache.source := by
  rw [renderWith]
  cases (cache.fetch id).text <;> exact cache.source_fetch id

theorem source_perform (cache : TemplateCache) (history : History) (action : CacheAction) :
    (cache.perform history action).cache.source = cache.source.changedBy action := by
  cases action with
  | put | delete | invalidate | clear => rfl
  | load id =>
    rw [perform]
    cases cache.source.load id <;> rfl
  | raw id =>
    rw [perform]
    cases (cache.fetch id).text <;> exact cache.source_fetch id
  | render | renderEach => exact cache.source_renderWith _ _ _

theorem get?_invalidate (cache : TemplateCache) (id : Text) :
    (cache.invalidate id).kept.get? = Function.update cache.kept.get? id none := by
  funext other
  rw [Function.update_apply]
  exact OrderedMap.get?_erase cache.kept id other

/-- A step does what it should, given what the cache keeps. -/
theorem serves_perform {cache : TemplateCache} (h : cache.source.Usable) (history : History)
    (action : CacheAction) :
    Serves cache.source cache.kept.get? history action (cache.perform history action).answer
      (cache.perform history action).asked (cache.perform history action).calls
      (cache.perform history action).cache.kept.get? := by
  cases action with
  | put id s => exact .put id s
  | delete id => exact .delete id
  | load id =>
    rw [perform]
    cases hload : cache.source.load id with
    | ok s => exact .load hload
    | error error => exact .loadFailed hload
  | raw id =>
    have hfetch := fetches_fetch h id
    rw [perform]
    cases htext : (cache.fetch id).text <;> rw [htext] at hfetch
    case ok s => exact .raw hfetch
    case error error => exact .fetchFailed rfl hfetch
  | render id vars spacer =>
    have hfetch := fetches_fetch h id
    rw [perform, renderWith]
    cases htext : (cache.fetch id).text <;> rw [htext] at hfetch
    case ok s => exact .render hfetch vars spacer
    case error error => exact .fetchFailed rfl hfetch
  | renderEach id collection spacer =>
    have hfetch := fetches_fetch h id
    rw [perform, renderWith]
    cases htext : (cache.fetch id).text <;> rw [htext] at hfetch
    case ok s => exact .renderEach hfetch collection spacer
    case error error => exact .fetchFailed rfl hfetch
  | invalidate id =>
    have hkept : cache.kept.contains id = (cache.kept.get? id).isSome :=
      cache.kept.contains_eq_isSome id
    rw [perform, hkept]
    show Serves _ _ _ _ _ _ _ (cache.invalidate id).kept.get?
    rw [cache.get?_invalidate]
    exact .invalidate id
  | clear => exact .clear

end TemplateCache

/-! ### What a run does -/

namespace CacheRun

/-- The source of the cache is the source as the actions on it have left it, and the texts kept are
those of the journal. -/
structure Faithful (run : CacheRun) (now : TemplateSource) : Prop where
  source : run.cache.source = now
  kept : run.cache.kept.get? = keptText run.journal

theorem faithful_ofSource (source : TemplateSource) : (ofSource source).Faithful source :=
  ⟨rfl, rfl⟩

section Step

variable {run : CacheRun} {now : TemplateSource} (h : run.Faithful now) (husable : now.Usable)
  (action : CacheAction)

include h husable

theorem Faithful.serves :
    Serves now (keptText run.journal) run.history action (run.step action).answer
      (run.step action).asked (run.step action).calls (run.step action).cache.kept.get? := by
  obtain ⟨rfl, hkept⟩ := h
  rw [← hkept]
  exact TemplateCache.serves_perform husable run.history action

theorem Faithful.next : (run.next action).Faithful (now.changedBy action) := by
  constructor
  case source =>
    rw [← h.source]
    exact run.cache.source_perform run.history action
  case kept =>
    have hjournal := (h.serves husable action).keptText_eq
    rw [← h.source] at hjournal
    exact hjournal

end Step

/-- From its start, a run stays faithful. -/
theorem faithful_after {source : TemplateSource} (h : source.Usable) (actions : List CacheAction) :
    (after source actions).Faithful (actions.foldl TemplateSource.changedBy source) := by
  induction actions using List.reverseRecOn with
  | nil => exact faithful_ofSource source
  | append_singleton actions action ih =>
    rw [after, List.foldl_concat, List.foldl_concat]
    exact ih.next (h.foldl_changedBy actions) action

/-- Whatever has been done with a cache and its source before, the next action is served from the
text that the latest delivery left, if it has not been dropped since, and from the source as it is
now otherwise. -/
theorem serves_after {source : TemplateSource} (h : source.Usable) (before : List CacheAction)
    (action : CacheAction) :
    let run := after source before
    let now := before.foldl TemplateSource.changedBy source
    let step := run.step action
    let keptNext := keptText (run.next action).journal
    run.cache.source = now ∧ run.cache.kept.get? = keptText run.journal ∧
      Serves now (keptText run.journal) run.history action step.answer step.asked step.calls
        keptNext ∧
      ∀ id other, action.id? = some id → other ≠ id →
        keptNext other = keptText run.journal other := by
  intro run now step keptNext
  have hrun : run.Faithful now := faithful_after h before
  have hserves := hrun.serves (h.foldl_changedBy before) action
  have hnext : step.cache.kept.get? = keptNext :=
    (hrun.next (h.foldl_changedBy before) action).kept
  rw [hnext] at hserves
  exact ⟨hrun.source, hrun.kept, hserves, fun id other hid hother =>
    hserves.kept_eq_of_ne hid hother⟩

end CacheRun

/-- A directory without files. -/
def emptyFolder : TemplateSource :=
  .directory ⟨"/pages".toList, "html".toList⟩ (.bare ["pages".toList])

/-- A supplier that never hands over its text. -/
def silentSupplier : Variables where
  entries := [(['x'], .supplied ⟨0, .never, fun _ _ => []⟩)]
  nodup_keys := by decide

/-- A template that is missing at first, is loaded by a rendering that never ends, and is changed
then. -/
def changedWhileKept : List CacheAction := [
  .raw "a".toList,
  .put "a.html".toList "<{x}>".toList,
  .render "a".toList silentSupplier [],
  .put "a.html".toList "new".toList,
  .invalidate "b".toList]

/-- The source has another text by now, and is not asked. -/
theorem CacheRun.serves_after_changedWhileKept :
    let run := CacheRun.after emptyFolder changedWhileKept
    run.cache.source.load "a".toList = .ok (some "new".toList) ∧
      (run.step (.raw "a".toList)).answer = .found (some "<{x}>".toList) ∧
      (run.step (.raw "a".toList)).asked = [] := by
  have husable : emptyFolder.Usable := by
    show '/' ∉ "html".toList
    decide
  have hnow : (changedWhileKept.foldl TemplateSource.changedBy emptyFolder).load "a".toList =
      .ok (some "new".toList) := by
    decide +kernel
  have hkept : keptText (CacheRun.after emptyFolder changedWhileKept).journal "a".toList =
      some "<{x}>".toList := by
    decide +kernel
  obtain ⟨hsource, -, hserves, -⟩ :=
    CacheRun.serves_after husable changedWhileKept (.raw "a".toList)
  exact ⟨hsource ▸ hnow, hserves.raw_of_some hkept⟩

end MarkerTemplate
