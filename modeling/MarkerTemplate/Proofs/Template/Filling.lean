import Mathlib.Data.List.Nodup
import MarkerTemplate.Proofs.Template.Basic

/-!
# Filling in markers

Substitution in a text that is made of literals and markers puts a value in for every marker, and
looks for nothing in the values that it puts in.

## Main definitions

- `Sought` — what is looked for: markers whose bodies are not empty and have no colon
- `MarkerBody` — the bodies of the markers that stand in templates
- `Variables.Workable` — names have orderly values, and other keys stand for rendered items

## Design notes

A mapping that merging works with is not always one that it is given: rendered items are bound to
keys of their own. They may hold markers for which there was no value, so their texts are not
inert, but they are tokenised.
-/

namespace MarkerTemplate

open Text (BraceFree Inert Tokenised braced)

/-- The body of a marker that may be looked for. -/
def Sought (body : Text) : Prop :=
  body ≠ [] ∧ ':' ∉ body

/-- The body of a marker in a template: that of a name, or the one for the items of an array. -/
inductive MarkerBody : Text → Prop
  | name (sweep : Sweep) (name : Name) : MarkerBody (sweep.body name.text)
  | array (name : Name) : MarkerBody (name.text ++ Markup.arrayEnding)

/-! ### Forms of values -/

theorem braceFree_encode {s : Text} (h : BraceFree s) (sweep : Sweep) :
    BraceFree (sweep.encode s) := by
  cases sweep with
  | plain => exact h
  | json => exact Json.braceFree_quote h

/-- Nothing that cannot be the beginning of an object is found in the text that an orderly value has
in a marker. -/
theorem Value.Orderly.inert_form_of_notObjectLike {sought : Text → Prop}
    (hsought : ∀ body, sought body → Json.NotObjectLike body) {key : Text} {value : Value}
    (h : value.Orderly key) {sweep : Sweep} {s : Text} (hform : value.form? sweep key = some s) :
    Inert sought s := by
  cases value with
  | text t =>
    cases hform
    exact (braceFree_encode h sweep).inert
  | number n =>
    cases hform
    exact n.braceFree_plainText.inert
  | structured json =>
    cases sweep with
    | plain => cases hform
    | json =>
      cases hform
      exact json.inert_write hsought h
  | supplied supplier =>
    cases hform
    exact (braceFree_encode h.2.2 sweep).inert

theorem Value.Orderly.inert_form {key : Text} {value : Value} (h : value.Orderly key)
    {sweep : Sweep} {s : Text} (hform : value.form? sweep key = some s) : Inert Sought s :=
  h.inert_form_of_notObjectLike (fun _ hsought => ⟨hsought.1, fun _ => hsought.2⟩) hform

theorem Value.orderly_ofJson {json : Json} (h : json.BraceFree) (key : Text) :
    (Value.ofJson json).Orderly key := by
  cases json with
  | string s => exact h
  | number n => trivial
  | null | bool _ | array _ | object _ => exact h

/-! ### Bodies of markers -/

/-- Keys that do not begin with a bracket have different markers. -/
theorem Sweep.body_inj {sweep sweep' : Sweep} {key key' : Text} (h : key.head? ≠ some '[')
    (h' : key'.head? ≠ some '[') :
    sweep.body key = sweep'.body key' ↔ sweep = sweep' ∧ key = key' := by
  constructor
  · intro heq
    cases sweep <;> cases sweep'
    · exact ⟨rfl, heq⟩
    · exact absurd (congrArg List.head? heq) h
    · exact absurd (congrArg List.head? heq).symm h'
    · exact ⟨rfl, by simpa [Sweep.body] using heq⟩
  · rintro ⟨rfl, rfl⟩
    rfl

theorem IsName.ne_array {key : Text} (h : IsName key) (t : Text) :
    key ≠ t ++ Markup.arrayEnding := by
  rintro rfl
  exact h.2.2.1 (by simp [Markup.arrayEnding])

theorem IsName.head?_ne {key : Text} (h : IsName key) : key.head? ≠ some '[' := by
  have hhead := h.head_ne []
  rwa [List.append_nil] at hhead

/-- No template has the JSON marker of a key that stands for the items of an array. -/
theorem not_markerBody_json_array (name : Name) :
    ¬ MarkerBody (Sweep.json.body (name.text ++ Markup.arrayEnding)) := by
  intro h
  generalize hbody : Sweep.json.body (name.text ++ Markup.arrayEnding) = body at h
  have hhead := name.isName.head_ne Markup.arrayEnding
  cases h with
  | name sweep other =>
    have heq := ((Sweep.body_inj hhead other.isName.head?_ne).1 hbody).2
    exact other.isName.ne_array name.text heq.symm
  | array other =>
    exact other.isName.head_ne Markup.arrayEnding (congrArg List.head? hbody).symm

/-! ### Workable mappings -/

/-- The key is a name with an orderly value, or it stands for the items of an array and has a
tokenised text. -/
inductive Bound : Text → Value → Prop
  | value {key : Text} {value : Value} : IsName key → value.Orderly key → Bound key value
  | rendered (name : Name) {s : Text} : Tokenised Sought MarkerBody s →
      Bound (name.text ++ Markup.arrayEnding) (.text s)

/-- Every key of the mapping is well bound. -/
def Variables.Workable (vars : Variables) : Prop :=
  ∀ entry ∈ vars.entries, Bound entry.1 entry.2

theorem Variables.Orderly.workable {vars : Variables} (h : vars.Orderly) : vars.Workable :=
  fun entry hentry => Bound.value (h.isName entry hentry) (h.orderly entry hentry)

namespace Bound

variable {key : Text} {value : Value} (h : Bound key value)

include h

theorem head_ne : key.head? ≠ some '[' := by
  cases h with
  | value hkey _ => exact hkey.head?_ne
  | rendered name _ => exact name.isName.head_ne Markup.arrayEnding

/-- The visits of a key that is well bound do no harm to tokenised texts. -/
theorem gentle (sweep : Sweep) : (⟨sweep, key, value⟩ : Visit).Gentle Sought MarkerBody := by
  have hsought : ∀ {t : Text}, t ≠ [] → ':' ∉ t → Sought (sweep.body t) := by
    intro t hne hcolon
    cases sweep <;> simp [Sought, Sweep.body, hne, hcolon]
  cases h with
  | value hkey horderly =>
    refine ⟨hkey.braceFree_body sweep, hsought hkey.1 hkey.2.2.2.2.2, ?_⟩
    exact fun _ replacement hform => (horderly.inert_form hform).tokenised
  | rendered name htokenised =>
    have hbraceFree := name.isName.braceFree_array
    refine ⟨sweep.braceFree_body hbraceFree, hsought ?_ (name.isName.notMem_array (Or.inr rfl)), ?_⟩
    · exact List.append_ne_nil_of_left_ne_nil name.isName.1 _
    · intro hbody replacement hform
      cases sweep with
      | plain =>
        cases hform
        exact htokenised
      | json => exact absurd hbody (not_markerBody_json_array name)

theorem orderly_of_isName (hkey : IsName key) : value.Orderly key := by
  cases h with
  | value _ horderly => exact horderly
  | rendered name _ => exact absurd rfl (hkey.ne_array name.text)

end Bound

namespace Variables.Workable

variable {vars : Variables} (h : vars.Workable)

include h

theorem prompt : vars.Prompt := by
  intro key supplier hentry
  cases h _ hentry with
  | value _ horderly => exact ⟨horderly.1, horderly.2.1⟩

theorem head_ne : ∀ key ∈ vars.keys, key.head? ≠ some '[' := by
  intro key hkey
  obtain ⟨entry, hentry, rfl⟩ := List.mem_map.1 hkey
  exact (h entry hentry).head_ne

theorem gentle : ∀ visit ∈ vars.visits, visit.Gentle Sought MarkerBody :=
  fun visit hvisit => (h _ (mem_visits.1 hvisit)).gentle visit.sweep

theorem visit_head_ne {visit : Visit} (hvisit : visit ∈ vars.visits) :
    visit.key.head? ≠ some '[' :=
  (h _ (mem_visits.1 hvisit)).head_ne

theorem nodup_bodies : (vars.visits.map Visit.body).Nodup := by
  have hkeys := vars.keys_nodup
  have hbodies : vars.visits.map Visit.body =
      vars.keys.map (Sweep.plain.body ·) ++ vars.keys.map (Sweep.json.body ·) := by
    simp only [Variables.visits, OrderedMap.keys, List.flatMap_cons, List.flatMap_nil,
      List.append_nil, List.map_append, List.map_map]
    rfl
  rw [hbodies, List.nodup_append]
  have hsweep : ∀ sweep : Sweep, (vars.keys.map (sweep.body ·)).Nodup := by
    refine fun sweep => List.Nodup.map_on (fun key hkey key' hkey' heq => ?_) hkeys
    exact ((Sweep.body_inj (h.head_ne key hkey) (h.head_ne key' hkey')).1 heq).2
  refine ⟨hsweep .plain, hsweep .json, ?_⟩
  rintro body hbody body' hbody' rfl
  obtain ⟨key, hkey, rfl⟩ := List.mem_map.1 hbody
  obtain ⟨key', hkey', heq⟩ := List.mem_map.1 hbody'
  cases ((Sweep.body_inj (h.head_ne key' hkey') (h.head_ne key hkey)).1 heq).1

/-- The marker of a name is filled in, or stays if the name has no form for it. -/
theorem settle_marker (sweep : Sweep) (name : Name) :
    settle vars.visits (sweep.marker name.text) =
      ((vars.get? name.text).bind (·.form? sweep name.text)).getD (sweep.marker name.text) := by
  rw [Sweep.marker_eq_braced]
  cases hvalue : vars.get? name.text with
  | none =>
    apply settle_braced_of_forall_ne h.gentle (name.isName.braceFree_body sweep)
    intro visit hvisit heq
    have hkey := ((Sweep.body_inj (h.visit_head_ne hvisit) name.isName.head?_ne).1 heq).2
    have hfound := OrderedMap.get?_eq_some_iff.2 (mem_visits.1 hvisit)
    rw [hkey, hvalue] at hfound
    cases hfound
  | some value =>
    -- Exactly one visit looks for this marker, and what it puts in is inert.
    have hentry := OrderedMap.get?_eq_some_iff.1 hvalue
    have hvisit : (⟨sweep, name.text, value⟩ : Visit) ∈ vars.visits := mem_visits.2 hentry
    have horderly := (h _ hentry).orderly_of_isName name.isName
    exact settle_braced_of_mem h.gentle h.nodup_bodies hvisit
      fun replacement hform => horderly.inert_form hform

theorem settle_text (part : Inline) :
    settle vars.visits part.text = part.eval vars.get? := by
  cases part with
  | literal run => exact settle_of_inert h.gentle run.braceFree.inert
  | marker sweep name => exact h.settle_marker sweep name

end Variables.Workable

theorem Inline.tokenised_text (part : Inline) : Tokenised Sought MarkerBody part.text := by
  cases part with
  | literal run => exact run.braceFree.tokenised
  | marker sweep name =>
    rw [Inline.text, Sweep.marker_eq_braced]
    exact Text.tokenised_braced (name.isName.braceFree_body sweep) (MarkerBody.name sweep name)

theorem tokenised_textOf (parts : List Inline) : Tokenised Sought MarkerBody (textOf parts) :=
  Text.tokenised_flatMap fun part _ => part.tokenised_text

theorem Variables.Workable.settle_textOf {vars : Variables} (h : vars.Workable)
    (parts : List Inline) : settle vars.visits (textOf parts) = evalParts vars.get? parts :=
  settle_flatMap h.gentle (fun part _ => part.tokenised_text) fun part _ => h.settle_text part

end MarkerTemplate
