import MarkerTemplate.Merge
import MarkerTemplate.Store.Source

/-!
# The template cache

A cache asks its source for a template once and keeps the text.

## Main definitions

- `TemplateCache` is a source with the texts kept so far
- `TemplateCache.fetch` gives the text of a template, kept or loaded, and `CacheFetch` is what comes
  of it
- `CacheAction` lists what can be done with a cache and its source
- `TemplateCache.perform` does it, and `CacheStep` is what comes of it

## Design notes

Only a text that has been loaded is kept: neither a missing template nor a failure of the source
is remembered. What is kept stays the same, whatever becomes of the source, until it is dropped.

A fetch reports which ids it asked the source for, and a step passes this on, with the calls that
rendering made. Rendering may wait forever; the text is kept all the same.
-/

namespace MarkerTemplate

/-- A source of templates with the texts kept of it. -/
structure TemplateCache where
  source : TemplateSource
  kept : OrderedMap Text

/-- What comes of fetching a template. -/
structure CacheFetch where
  text : Except TemplateError Text
  -- The ids that the cache asked its source for.
  asked : List Text
  cache : TemplateCache

namespace TemplateCache

/-- The cache of a source before anything has been asked of it. -/
def ofSource (source : TemplateSource) : TemplateCache :=
  ⟨source, .empty⟩

/-- The text of a template, for which the source is asked only if none is kept. A text that the
source gives is kept from then on. -/
def fetch (cache : TemplateCache) (id : Text) : CacheFetch :=
  match cache.kept.get? id with
  | some s => ⟨.ok s, [], cache⟩
  | none =>
    match cache.source.load id with
    | .ok (some s) => ⟨.ok s, [id], { cache with kept := cache.kept.insert id s }⟩
    | .ok none => ⟨.error (.notFound id), [id], cache⟩
    | .error error => ⟨.error error, [id], cache⟩

def invalidate (cache : TemplateCache) (id : Text) : TemplateCache :=
  { cache with kept := cache.kept.erase id }

def clear (cache : TemplateCache) : TemplateCache :=
  { cache with kept := .empty }

end TemplateCache

/-- What can be done with a cache and its source. -/
inductive CacheAction where
  | put (id s : Text)
  | delete (id : Text)
  -- The source is asked for a template, past the cache.
  | load (id : Text)
  | raw (id : Text)
  | render (id : Text) (vars : Variables) (spacer : Text)
  | renderEach (id : Text) (collection : Collection) (spacer : Text)
  | invalidate (id : Text)
  | clear

inductive CacheAnswer where
  | done
  | found (s : Option Text)
  -- The text rendered, unless rendering waits forever.
  | rendered (s : Option Text)
  | wasKept (b : Bool)
  | failed (error : TemplateError)
  deriving DecidableEq, Repr

structure CacheStep where
  answer : CacheAnswer
  -- The ids that the cache asked its source for.
  asked : List Text
  calls : List Call
  cache : TemplateCache

namespace TemplateCache

/-- The step that fetches a template and renders it. -/
def renderWith (cache : TemplateCache) (id : Text) (history : History)
    (render : Text → Effect Text) : CacheStep :=
  let fetched := cache.fetch id
  match fetched.text with
  | .ok raw =>
    let run := render raw history
    ⟨.rendered run.result, fetched.asked, run.calls, fetched.cache⟩
  | .error error => ⟨.failed error, fetched.asked, [], fetched.cache⟩

/-- The step that an action takes, after the calls that earlier steps made. -/
def perform (cache : TemplateCache) (history : History) : CacheAction → CacheStep
  | .put id s => ⟨.done, [], [], { cache with source := cache.source.put id s }⟩
  | .delete id => ⟨.done, [], [], { cache with source := cache.source.delete id }⟩
  | .load id =>
    match cache.source.load id with
    | .ok s => ⟨.found s, [], [], cache⟩
    | .error error => ⟨.failed error, [], [], cache⟩
  | .raw id =>
    let fetched := cache.fetch id
    match fetched.text with
    | .ok s => ⟨.found (some s), fetched.asked, [], fetched.cache⟩
    | .error error => ⟨.failed error, fetched.asked, [], fetched.cache⟩
  | .render id vars spacer => cache.renderWith id history (merge · vars spacer)
  | .renderEach id collection spacer =>
    cache.renderWith id history (renderEach · collection spacer)
  | .invalidate id => ⟨.wasKept (cache.kept.contains id), [], [], cache.invalidate id⟩
  | .clear => ⟨.done, [], [], cache.clear⟩

end TemplateCache

end MarkerTemplate
