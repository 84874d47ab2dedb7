import MarkerTemplate.Proofs.Merge.Depth
import MarkerTemplate.Proofs.Substitution.Attempts

/-!
# Texts that are left alone

Braces in a template may belong to something else, to a style sheet or a script. A text without an
opener is left alone exactly if it has none of the markers that the mapping can replace, whatever
braces it holds.

## Main definitions

- `Variables.HasNoMarkerIn` — the text has none of the markers that the mapping can replace

## Design notes

What a visit does is decided by the text that it meets. If no visit has anything to do in the
template itself, the text never changes, so none has anything to do later on. The first visit that
has something to do leaves an event behind, and this is why the condition cannot be weakened.
-/

namespace MarkerTemplate

/-- The text has no JSON marker of the mapping, and no plain one but those of structured data, for
which no text is ever put in. -/
structure Variables.HasNoMarkerIn (vars : Variables) (s : Text) : Prop where
  json : ∀ key ∈ vars.keys, ¬ Sweep.json.marker key <:+: s
  plain : ∀ entry ∈ vars.entries, Sweep.plain.marker entry.1 <:+: s →
    ∃ data, entry.2 = .structured data

/-! ### Visits with nothing to do -/

/-- A visit has something to do if its marker occurs, except for a plain marker of structured
data. -/
theorem Visit.source_eq_absent_iff {visit : Visit} {s : Text} :
    visit.source s = .absent ↔
      (visit.marker <:+: s → visit.sweep = .plain ∧ ∃ data, visit.value = .structured data) := by
  by_cases hoccurs : visit.marker <:+: s
  · rw [Visit.source_of_isInfix hoccurs]
    obtain ⟨sweep, key, value⟩ := visit
    cases value <;> cases sweep <;> simp [Sweep.source, hoccurs]
  · rw [Visit.source_of_not_isInfix hoccurs]
    simp only [hoccurs, IsEmpty.forall_iff]

theorem Variables.hasNoMarkerIn_iff {vars : Variables} {s : Text} :
    vars.HasNoMarkerIn s ↔ ∀ visit ∈ vars.visits, visit.source s = .absent := by
  constructor
  · intro h visit hvisit
    have hentry := mem_visits.1 hvisit
    rw [Visit.source_eq_absent_iff]
    intro hoccurs
    obtain ⟨sweep, key, value⟩ := visit
    cases sweep with
    | plain => exact ⟨rfl, h.plain (key, value) hentry hoccurs⟩
    | json => exact absurd hoccurs (h.json key (List.mem_map_of_mem hentry))
  · intro h
    have hvisit : ∀ sweep : Sweep, ∀ entry ∈ vars.entries, sweep.marker entry.1 <:+: s →
        sweep = .plain ∧ ∃ data, entry.2 = .structured data := by
      intro sweep entry hentry
      let visit : Visit := ⟨sweep, entry.1, entry.2⟩
      exact Visit.source_eq_absent_iff.1 (h visit (mem_visits.2 hentry))
    constructor
    · intro key hkey hoccurs
      obtain ⟨entry, hentry, rfl⟩ := List.mem_map.1 hkey
      exact absurd (hvisit .json entry hentry hoccurs).1 (by decide)
    · intro entry hentry hoccurs
      exact (hvisit .plain entry hentry hoccurs).2

/-- The second attempt goes by without any event exactly if there is nothing to do. -/
theorem deferVisits_eq_iff {visits : List Visit} {s : Text} {history : History} :
    deferVisits visits s history = ⟨some s, []⟩ ↔ ∀ visit ∈ visits, visit.source s = .absent := by
  induction visits with
  | nil => exact ⟨fun _ => List.forall_mem_nil _, fun _ => rfl⟩
  | cons visit visits ih =>
    rw [List.forall_mem_cons]
    cases hsource : visit.source s with
    | absent => simp only [deferVisits, hsource, ih, true_and]
    | ready replacement =>
      -- A replacement takes a turn.
      simp [deferVisits, hsource, Effect.pause_bind_apply]
    | ask supplier =>
      -- A question is a call.
      have hcalled := calls_deferVisits_cons_of_ask hsource visits history
      simp only [reduceCtorEq, false_and, iff_false]
      intro hnothing
      rw [hnothing] at hcalled
      exact absurd (List.prefix_nil.1 hcalled) (List.cons_ne_nil _ _)

/-! ### Merging -/

/-- A text without an opener comes out of every operation as it is, with no call and no turn,
exactly if the mapping has no marker in it. So braces of other kinds are left alone, markers of
unknown keys are, and so are stray ends of blocks. -/
theorem leftAlone_iff_hasNoMarkerIn {raw : Text} (hraw : ¬ Markup.opener <:+: raw)
    (vars : Variables) :
    vars.HasNoMarkerIn raw ↔
      ∀ (spacer : Text) (history : History),
        merge raw vars spacer history = ⟨some raw, []⟩ ∧
          substitute raw vars history = ⟨some raw, []⟩ ∧
          trySubstitute raw vars history = ⟨some (some raw), []⟩ ∧
          substituteDeferred raw vars history = ⟨some raw, []⟩ := by
  constructor
  · intro h spacer history
    have habsent := Variables.hasNoMarkerIn_iff.1 h
    have hfast : trySubstitute raw vars = pure (some raw) := tryVisits_of_absent habsent
    have hsubstitute : substitute raw vars = pure raw := substitute_eq_pure hfast
    have hmerge : merge raw vars spacer = pure raw := by
      rw [merge_eq_mergeStep, mergeStep_of_not_isInfix hraw, hsubstitute]
    rw [hmerge, hsubstitute, hfast]
    exact ⟨rfl, rfl, rfl, deferVisits_eq_iff.2 habsent⟩
  · intro h
    obtain ⟨-, -, -, hslow⟩ := h [] []
    exact Variables.hasNoMarkerIn_iff.2 (deferVisits_eq_iff.1 hslow)

/-- A style sheet with stray marks, the marker of an unknown key, and one of structured data. -/
def styleSheet : Text :=
  ".a\x7bb:\x7b\x7bd\x7d\x7b:?\x7d\x7b:else:\x7d\x7b[x]\x7d?:\x7bu\x7d".toList

/-- A mapping with an empty key, a key with a brace and two with brackets. -/
def awkwardKeys : Variables where
  entries := [
    ([], .supplied ⟨0, .never, fun _ _ => []⟩),
    ("\x7bd".toList, .structured (.bool true)),
    ("d".toList, .structured .null),
    ("[x]".toList, .structured (.array [])),
    ("b]".toList, .supplied ⟨1, .future 2, fun _ _ => []⟩)]
  nodup_keys := by decide

theorem leftAlone_iff_hasNoMarkerIn_styleSheet :
    ¬ Markup.opener <:+: styleSheet ∧
      Sweep.plain.marker "[x]".toList <:+: styleSheet ∧
      awkwardKeys.HasNoMarkerIn styleSheet ∧
      merge styleSheet awkwardKeys [','] [] = ⟨some styleSheet, []⟩ := by
  have hraw : ¬ Markup.opener <:+: styleSheet := by decide
  have hmarkers : awkwardKeys.HasNoMarkerIn styleSheet := by
    constructor
    · decide
    · simp only [awkwardKeys, List.forall_mem_cons]
      refine ⟨fun hoccurs => absurd hoccurs (by decide), fun _ => ⟨_, rfl⟩, fun _ => ⟨_, rfl⟩,
        fun _ => ⟨_, rfl⟩, fun hoccurs => absurd hoccurs (by decide), List.forall_mem_nil _⟩
  have halone := (leftAlone_iff_hasNoMarkerIn hraw awkwardKeys).1 hmarkers
  exact ⟨hraw, by decide, hmarkers, (halone [','] []).1⟩

end MarkerTemplate
