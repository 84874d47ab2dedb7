import MarkerTemplate.Value

/-!
# Substitution

Markers for keys are replaced by the texts of their values, first plainly and then as JSON:

```text
{key}       the text of the value
{[key]}     the value as JSON
```

## Main definitions

- `Sweep` is one of the two passes over the keys, and `Visit` is a key met in a pass
- `trySubstitute` substitutes without waiting, or gives up
- `substituteDeferred` substitutes and waits for texts where it must
- `substitute` does the first, and starts again with the second if that gives up

## Design notes

A pass visits the keys in the order of the mapping, and each replacement works on the text left
by the one before. So a text put in for one key may bring markers of later keys with it.

The two ways of substituting walk through the same list of visits. They differ in what they do
when the text of a marker has to be waited for, and in that only the second takes turns: one
after each replacement.
-/

namespace MarkerTemplate

inductive Sweep where
  | plain
  | json
  deriving DecidableEq, Repr

namespace Sweep

def marker : Sweep → Text → Text
  | .plain, key => '{' :: key ++ ['}']
  | .json, key => '{' :: '[' :: key ++ [']', '}']

/-- The form in which a text is put in for a marker. -/
def encode : Sweep → Text → Text
  | .plain, s => s
  | .json, s => Json.quote s

end Sweep

inductive Source where
  | ready (s : Text)
  -- The value has no form for this kind of marker, which stays as it is.
  | absent
  | ask (supplier : Supplier)

/-- Where the text for a marker of the value comes from. A number looks the same in both passes. -/
def Sweep.source : Sweep → Value → Source
  | sweep, .text s => .ready (sweep.encode s)
  | _, .number n => .ready n.plainText
  | .plain, .structured _ => .absent
  | .json, .structured data => .ready data.write
  | _, .supplied supplier => .ask supplier

structure Visit where
  sweep : Sweep
  key : Text
  value : Value

namespace Visit

def marker (visit : Visit) : Text :=
  visit.sweep.marker visit.key

/-- Where the text for the marker comes from, if the marker occurs in `s` at all. -/
def source (visit : Visit) (s : Text) : Source :=
  if Text.occursIn visit.marker s then visit.sweep.source visit.value else .absent

/-- The text `s` with `replacement` for every marker. -/
def put (visit : Visit) (replacement s : Text) : Text :=
  Text.replaceAll visit.marker replacement s

/-- The text of the supplier, in the form of the pass. -/
def ask (visit : Visit) (supplier : Supplier) : Effect Text := do
  let reply ← supplier.call visit.key
  return visit.sweep.encode reply

end Visit

def Variables.visits (vars : Variables) : List Visit :=
  [Sweep.plain, Sweep.json].flatMap fun sweep =>
    vars.entries.map fun (key, value) => ⟨sweep, key, value⟩

/-- The text after the given visits. The outcome is `none`, and nothing more is asked, as soon as
a marker needs a text that may have to be waited for. -/
def tryVisits : List Visit → Text → Effect (Option Text)
  | [], s => return some s
  | visit :: visits, s =>
    match visit.source s with
    | .ready replacement => tryVisits visits (visit.put replacement s)
    | .absent => tryVisits visits s
    | .ask supplier =>
      if supplier.shape.isDeferred then return none
      else do
        let replacement ← visit.ask supplier
        tryVisits visits (visit.put replacement s)

/-- The text after the given visits, with one turn after each replacement. -/
def deferVisits : List Visit → Text → Effect Text
  | [], s => return s
  | visit :: visits, s =>
    match visit.source s with
    | .ready replacement => do
      Effect.pause
      deferVisits visits (visit.put replacement s)
    | .absent => deferVisits visits s
    | .ask supplier => do
      let replacement ← visit.ask supplier
      Effect.pause
      deferVisits visits (visit.put replacement s)

/-- Substitution without waiting; `none` if a marker needs a text that may have to be waited
for. -/
def trySubstitute (raw : Text) (vars : Variables) : Effect (Option Text) :=
  tryVisits vars.visits raw

def substituteDeferred (raw : Text) (vars : Variables) : Effect Text :=
  deferVisits vars.visits raw

/-- Substitution, which waits only if it must. When the first attempt gives up, its text is
dropped and the second attempt begins with the template. -/
def substitute (raw : Text) (vars : Variables) : Effect Text :=
  if raw.isEmpty || vars.isEmpty then return raw
  else do
    match ← trySubstitute raw vars with
    | some s => return s
    | none => substituteDeferred raw vars

end MarkerTemplate
