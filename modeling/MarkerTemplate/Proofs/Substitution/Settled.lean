import MarkerTemplate.Proofs.Substitution.Shapes
import MarkerTemplate.Proofs.Text.Braces

/-!
# What substitution comes to

If every supplier hands over a text that depends on its key alone, substitution comes to the text
that is left when the visits replace their markers one after another.

## Main definitions

- `Value.form?` — the text that stands for a value in a marker
- `settle` — the text after the given visits
- `Variables.Prompt` — every supplier hands over its text, which depends on the key alone
- `Visit.Gentle` — the visit puts in texts that are tokenised themselves

## Design notes

Gentle visits act on the parts of a tokenised text by themselves. A text made of literals and
markers is settled marker by marker, and a marker is replaced by the one visit that looks for it.
-/

namespace MarkerTemplate

open Text (BraceFree Inert Tokenised braced)

/-- The text between the braces of a marker. -/
def Sweep.body : Sweep → Text → Text
  | .plain, key => key
  | .json, key => '[' :: key ++ [']']

theorem Sweep.marker_eq_braced (sweep : Sweep) (key : Text) :
    sweep.marker key = braced (sweep.body key) := by
  cases sweep <;> simp [marker, body, braced]

theorem Sweep.braceFree_body {key : Text} (h : BraceFree key) (sweep : Sweep) :
    BraceFree (sweep.body key) := by
  cases sweep with
  | plain => exact h
  | json =>
    exact Text.braceFree_append.2 ⟨Text.braceFree_cons.2 ⟨by decide, h⟩, by decide⟩

/-- The text that stands for the value in a marker of the key, if there is one. A number has its
decimal text in both kinds of marker. -/
def Value.form? : Sweep → Text → Value → Option Text
  | sweep, _, .text s => some (sweep.encode s)
  | _, _, .number n => some n.plainText
  | .plain, _, .structured _ => none
  | .json, _, .structured data => some data.write
  | sweep, key, .supplied supplier => some (sweep.encode (supplier.reply key 1))

theorem Value.form?_json_ne_none (key : Text) (value : Value) : value.form? .json key ≠ none := by
  cases value <;> simp [form?]

namespace Visit

/-- The text between the braces of the marker looked for. -/
def body (visit : Visit) : Text :=
  visit.sweep.body visit.key

/-- The text that the visit puts in. -/
def form? (visit : Visit) : Option Text :=
  visit.value.form? visit.sweep visit.key

theorem marker_eq_braced (visit : Visit) : visit.marker = braced visit.body :=
  visit.sweep.marker_eq_braced visit.key

/-- The text `s` with the text that the visit puts in for every marker. -/
def settle (visit : Visit) (s : Text) : Text :=
  match visit.form? with
  | some replacement => visit.put replacement s
  | none => s

theorem settle_of_not_isInfix {visit : Visit} {s : Text} (h : ¬ visit.marker <:+: s) :
    visit.settle s = s := by
  unfold settle
  split
  · refine Text.replaceAll_of_not_isInfix ?_ _ h
    rw [visit.marker_eq_braced]
    exact Text.braced_ne_nil visit.body
  · rfl

end Visit

/-- The marker alone becomes the text that the visit puts in. -/
theorem Visit.settle_marker (visit : Visit) :
    visit.settle visit.marker = visit.form?.getD visit.marker := by
  unfold Visit.settle Visit.put
  rw [visit.marker_eq_braced]
  cases visit.form? with
  | none => rfl
  | some replacement => exact Text.replaceAll_braced_self visit.body replacement

/-- A visit to a value that is no supplier never gives up. -/
theorem tryVisits_cons_of_ne_supplied {visit : Visit}
    (h : ∀ supplier, visit.value ≠ .supplied supplier) (visits : List Visit) (s : Text) :
    tryVisits (visit :: visits) s = tryVisits visits (visit.settle s) := by
  by_cases hoccurs : Text.occursIn visit.marker s = true
  · have hsource : visit.source s = visit.sweep.source visit.value := if_pos hoccurs
    rw [tryVisits, hsource]
    obtain ⟨sweep, key, value⟩ := visit
    cases value with
    | text t => rfl
    | number n => rfl
    | structured data => cases sweep <;> rfl
    | supplied supplier => exact absurd rfl (h supplier)
  · rw [Text.occursIn_iff_isInfix] at hoccurs
    rw [tryVisits, Visit.source_of_not_isInfix hoccurs, Visit.settle_of_not_isInfix hoccurs]

/-- The text after the given visits, where every supplier is asked for its first text. -/
def settle : List Visit → Text → Text
  | [], s => s
  | visit :: visits, s => settle visits (visit.settle s)

theorem settle_append_visits (before after : List Visit) (s : Text) :
    settle (before ++ after) s = settle after (settle before s) := by
  induction before generalizing s with
  | nil => rfl
  | cons visit before ih => exact ih (visit.settle s)

/-! ### Suppliers that hand over their texts -/

/-- Every supplier of the mapping hands over its text, which depends on the key alone. -/
def Variables.Prompt (vars : Variables) : Prop :=
  ∀ key supplier, (key, Value.supplied supplier) ∈ vars.entries →
    supplier.shape ≠ .never ∧ supplier.KeyOnlyAt key

theorem Visit.returns_ask {visit : Visit} {supplier : Supplier}
    (hshape : supplier.shape ≠ .never) (hreply : supplier.KeyOnlyAt visit.key) :
    Effect.Returns (visit.ask supplier) (visit.sweep.encode (supplier.reply visit.key 1)) := by
  intro history
  rw [Visit.ask_apply, Supplier.result_call, if_neg hshape, hreply _ 1]
  rfl

theorem returns_deferVisits {visits : List Visit}
    (h : ∀ visit ∈ visits, ∀ supplier, visit.value = .supplied supplier →
      supplier.shape ≠ .never ∧ supplier.KeyOnlyAt visit.key) (s : Text) :
    Effect.Returns (deferVisits visits s) (settle visits s) := by
  induction visits generalizing s with
  | nil => exact Effect.returns_pure s
  | cons visit visits ih =>
    have hrest := ih fun later hlater => h later (List.mem_cons_of_mem visit hlater)
    have hvisit := h visit List.mem_cons_self
    unfold deferVisits settle
    by_cases hoccurs : Text.occursIn visit.marker s = true
    · -- The marker occurs, so the value decides.
      have hsource : visit.source s = visit.sweep.source visit.value := if_pos hoccurs
      rw [hsource]
      obtain ⟨sweep, key, value⟩ := visit
      cases value with
      | text t => exact Effect.returns_pause.bind (hrest _)
      | number n => exact Effect.returns_pause.bind (hrest _)
      | structured data =>
        cases sweep with
        | plain => exact hrest s
        | json => exact Effect.returns_pause.bind (hrest _)
      | supplied supplier =>
        obtain ⟨hshape, hreply⟩ := hvisit supplier rfl
        exact (Visit.returns_ask hshape hreply).bind (Effect.returns_pause.bind (hrest _))
    · -- It does not occur, so a replacement would change nothing.
      have hsource : visit.source s = .absent := if_neg hoccurs
      rw [Text.occursIn_iff_isInfix] at hoccurs
      rw [hsource, Visit.settle_of_not_isInfix hoccurs]
      exact hrest s

theorem Variables.Prompt.returns_substitute {vars : Variables} (h : vars.Prompt) (raw : Text) :
    Effect.Returns (substitute raw vars) (settle vars.visits raw) := by
  intro history
  have hkeyOnly : vars.KeyOnly := fun key supplier hentry => (h key supplier hentry).2
  rw [result_substitute hkeyOnly raw history history]
  refine returns_deferVisits (fun visit hvisit supplier hvalue => ?_) raw history
  apply h visit.key supplier
  rw [← hvalue]
  exact mem_visits.1 hvisit

/-! ### Settling part by part -/

variable {sought kept : Text → Prop}

/-- The visit looks for a marker that is sought, and if that marker is kept, it puts in a tokenised
text. -/
structure Visit.Gentle (sought kept : Text → Prop) (visit : Visit) : Prop where
  braceFree : BraceFree visit.body
  isSought : sought visit.body
  tokenised : kept visit.body → ∀ replacement, visit.form? = some replacement →
    Tokenised sought kept replacement

namespace Visit.Gentle

variable {visit : Visit}

theorem settle_append (h : visit.Gentle sought kept) {a : Text} (ha : Tokenised sought kept a)
    (b : Text) : visit.settle (a ++ b) = visit.settle a ++ visit.settle b := by
  unfold Visit.settle Visit.put
  rw [visit.marker_eq_braced]
  split
  · exact ha.replaceAll_append h.braceFree h.isSought _ b
  · rfl

theorem tokenised_settle (h : visit.Gentle sought kept) {a : Text}
    (ha : Tokenised sought kept a) : Tokenised sought kept (visit.settle a) := by
  unfold Visit.settle Visit.put
  rw [visit.marker_eq_braced]
  split
  · rename_i replacement hform
    exact ha.tokenised_replaceAll h.braceFree h.isSought fun hkept => h.tokenised hkept _ hform
  · exact ha

end Visit.Gentle

/-- A marker that is not kept does not occur in a tokenised text. -/
theorem Visit.settle_eq_self {visit : Visit} {a : Text} (ha : Tokenised sought kept a)
    (hbody : BraceFree visit.body) (hsought : sought visit.body) (hkept : ¬ kept visit.body) :
    visit.settle a = a := by
  unfold Visit.settle Visit.put
  rw [visit.marker_eq_braced]
  split
  · exact ha.replaceAll_eq_self hbody hsought hkept _
  · rfl

section Gentle

variable {visits : List Visit} (h : ∀ visit ∈ visits, visit.Gentle sought kept)

include h

/-- Gentle visits settle a tokenised text and what follows it independently. -/
theorem settle_append {a : Text} (ha : Tokenised sought kept a) (b : Text) :
    settle visits (a ++ b) = settle visits a ++ settle visits b := by
  induction visits generalizing a b with
  | nil => rfl
  | cons visit visits ih =>
    have hvisit := h visit List.mem_cons_self
    unfold settle
    rw [hvisit.settle_append ha]
    exact ih (fun later hlater => h later (List.mem_cons_of_mem visit hlater))
      (hvisit.tokenised_settle ha) (visit.settle b)

/-- Gentle visits leave a text alone if they look for no marker that is kept in it. -/
theorem settle_eq_self {kept' : Text → Prop} {a : Text} (ha : Tokenised sought kept' a)
    (hkept : ∀ visit ∈ visits, ¬ kept' visit.body) : settle visits a = a := by
  induction visits with
  | nil => rfl
  | cons visit visits ih =>
    have hvisit := h visit List.mem_cons_self
    unfold settle
    rw [Visit.settle_eq_self ha hvisit.braceFree hvisit.isSought (hkept visit List.mem_cons_self)]
    exact ih (fun later hlater => h later (List.mem_cons_of_mem visit hlater))
      fun later hlater => hkept later (List.mem_cons_of_mem visit hlater)

theorem settle_of_inert {a : Text} (ha : Inert sought a) : settle visits a = a :=
  settle_eq_self h (ha.tokenised : Tokenised sought (fun _ => False) a) fun _ _ hfalse => hfalse

theorem settle_flatMap {α : Type} {f g : α → Text} {l : List α}
    (hf : ∀ x ∈ l, Tokenised sought kept (f x)) (hfg : ∀ x ∈ l, settle visits (f x) = g x) :
    settle visits (l.flatMap f) = l.flatMap g := by
  induction l with
  | nil => exact settle_of_inert h Text.inert_nil
  | cons x l ih =>
    rw [List.flatMap_cons, List.flatMap_cons, settle_append h (hf x List.mem_cons_self),
      hfg x List.mem_cons_self]
    rw [ih (fun y hy => hf y (List.mem_cons_of_mem x hy))
      fun y hy => hfg y (List.mem_cons_of_mem x hy)]

theorem settle_braced_of_forall_ne {body : Text} (hbody : BraceFree body)
    (hne : ∀ visit ∈ visits, visit.body ≠ body) : settle visits (braced body) = braced body := by
  have hself : Tokenised sought (· = body) (braced body) := Text.tokenised_braced hbody rfl
  exact settle_eq_self h hself hne

end Gentle

/-- A marker is replaced by the first visit that looks for it. -/
theorem settle_braced {before after : List Visit} {visit : Visit}
    (h : ∀ other ∈ before ++ visit :: after, other.Gentle sought kept)
    (hbefore : ∀ other ∈ before, other.body ≠ visit.body) :
    settle (before ++ visit :: after) (braced visit.body) =
      settle after (visit.form?.getD (braced visit.body)) := by
  have hvisit := h visit (List.mem_append_right before List.mem_cons_self)
  -- The visits before it leave the marker as it is.
  have hfirst := settle_braced_of_forall_ne
    (fun other hother => h other (List.mem_append_left _ hother)) hvisit.braceFree hbefore
  rw [settle_append_visits, hfirst, settle, ← visit.marker_eq_braced, visit.settle_marker]

/-- If no other visit looks for the marker, it settles to the text that the visit puts in, in which
nothing is sought any more. -/
theorem settle_braced_of_mem {visits : List Visit} {visit : Visit}
    (h : ∀ other ∈ visits, other.Gentle sought kept) (hbodies : (visits.map Visit.body).Nodup)
    (hvisit : visit ∈ visits) (hform : ∀ replacement, visit.form? = some replacement →
      Inert sought replacement) :
    settle visits (braced visit.body) = visit.form?.getD (braced visit.body) := by
  obtain ⟨before, after, rfl⟩ := List.append_of_mem hvisit
  rw [List.map_append, List.map_cons, List.nodup_append, List.nodup_cons] at hbodies
  obtain ⟨-, ⟨hafter, -⟩, hdisjoint⟩ := hbodies
  have hrest : ∀ other ∈ after, other.Gentle sought kept := fun other hother =>
    h other (List.mem_append_right before (List.mem_cons_of_mem visit hother))
  rw [settle_braced h fun other hother =>
    hdisjoint _ (List.mem_map_of_mem hother) _ List.mem_cons_self]
  cases hreplacement : visit.form? with
  | none =>
    refine settle_braced_of_forall_ne hrest (h visit hvisit).braceFree fun other hother heq => ?_
    exact hafter (heq ▸ List.mem_map_of_mem hother)
  | some replacement => exact settle_of_inert hrest (hform replacement hreplacement)

end MarkerTemplate
