import MarkerTemplate.Proofs.Substitution.Expansion
import MarkerTemplate.Proofs.Template.Filling

/-!
# Values without markers

If no value brings a marker, all tokens of a template are replaced at once and independently, and
the order of the mapping has no bearing on the result.

## Main definitions

- `Variables.tokenText` — the text that stands in the place of a token
- `Variables.Unbraced` — no key has a brace, and values have none but those of objects in JSON

## Design notes

A key in brackets and the key itself compete for one marker, and the plain pass comes first. The two
passes are taken one after the other: the plain one puts texts without braces in, so that it leaves
a text of tokens; the one for JSON puts braces in as well, but it looks for a bracket behind a
brace, and in JSON a left brace has a quote or a right brace behind it.
-/

namespace MarkerTemplate

open Text (BraceFree Inert OfTokens Tokenised braced mapTokens)

/-- The key between the brackets, if the text has them around it. -/
def unbracket? : Text → Option Text
  | '[' :: s => Text.stripSuffix? [']'] s
  | _ => none

/-- The text that stands in the place of the token `body`: the plain text of the value at that key;
if there is none, and the token is a key between brackets, the JSON of the value at this key; and
the token itself otherwise. -/
def Variables.tokenText (vars : Variables) (body : Text) : Text :=
  let plain := (vars.get? body).bind (·.form? .plain body)
  let asJson := (unbracket? body).bind fun key => (vars.get? key).bind (·.form? .json key)
  (plain.or asJson).getD (braced body)

/-- No key has a brace, and no value brings a brace but those of objects in JSON; suppliers hand
over their texts, which depend on the key alone. -/
structure Variables.Unbraced (vars : Variables) : Prop where
  braceFree : ∀ entry ∈ vars.entries, BraceFree entry.1
  orderly : ∀ entry ∈ vars.entries, entry.2.Orderly entry.1

/-- The token may be the marker of a key for JSON. -/
def Bracketed (body : Text) : Prop :=
  body.head? = some '['

theorem Bracketed.notObjectLike {body : Text} (h : Bracketed body) : Json.NotObjectLike body := by
  refine ⟨?_, fun hquote => ?_⟩
  · rintro rfl
    cases h
  · rw [h] at hquote
    cases hquote

theorem unbracket?_eq_some_iff {body key : Text} :
    unbracket? body = some key ↔ body = Sweep.json.body key := by
  constructor
  · intro h
    unfold unbracket? at h
    split at h
    · rw [Text.stripSuffix?_eq_some_iff.1 h]
      rfl
    · cases h
  · rintro rfl
    exact Text.stripSuffix?_append key [']']

/-! ### The pass for JSON -/

/-- Gentle visits settle each token by itself. -/
theorem settle_eq_mapTokens {sought kept : Text → Prop} {visits : List Visit}
    (h : ∀ visit ∈ visits, visit.Gentle sought kept) {s : Text} (hs : OfTokens kept s) :
    settle visits s = mapTokens (fun body => settle visits (braced body)) s := by
  induction hs with
  | nil => exact settle_of_inert h Text.inert_nil
  | between hrun _ ih =>
    rw [settle_append h hrun.tokenised, settle_of_inert h hrun.inert, ih,
      Text.mapTokens_append_of_braceFree hrun]
  | token hbody hkept _ ih =>
    rw [settle_append h (Text.tokenised_braced hbody hkept), ih,
      Text.mapTokens_braced_append hbody]

theorem Variables.nodup_json_bodies (vars : Variables) :
    ((visitsOf .json vars.entries).map Visit.body).Nodup := by
  have hbodies : (visitsOf .json vars.entries).map Visit.body = vars.keys.map Sweep.json.body := by
    rw [visitsOf, OrderedMap.keys, List.map_map, List.map_map]
    rfl
  rw [hbodies]
  refine List.Nodup.map (fun key key' heq => ?_) vars.keys_nodup
  simpa [Sweep.body] using heq

namespace Variables.Unbraced

variable {vars : Variables} (h : vars.Unbraced)

include h

theorem prompt : vars.Prompt := by
  intro key supplier hentry
  obtain ⟨hshape, hreply, -⟩ := h.orderly _ hentry
  exact ⟨hshape, hreply⟩

theorem inert_form {key s : Text} {value : Value} (hentry : (key, value) ∈ vars.entries)
    {sweep : Sweep} (hform : value.form? sweep key = some s) : Inert Bracketed s :=
  (h.orderly _ hentry).inert_form_of_notObjectLike (fun _ => Bracketed.notObjectLike) hform

theorem braceFree_form {key s : Text} {value : Value} (hentry : (key, value) ∈ vars.entries)
    (hform : value.form? .plain key = some s) : BraceFree s := by
  have horderly := h.orderly _ hentry
  cases value with
  | text t =>
    cases hform
    exact horderly
  | number n =>
    cases hform
    exact n.braceFree_plainText
  | structured json => cases hform
  | supplied supplier =>
    cases hform
    exact horderly.2.2

theorem gentle_json :
    ∀ visit ∈ visitsOf .json vars.entries, visit.Gentle Bracketed fun _ => True := by
  intro visit hvisit
  obtain ⟨⟨key, value⟩, hentry, rfl⟩ := List.mem_map.1 hvisit
  exact {
    braceFree := Sweep.json.braceFree_body (h.braceFree _ hentry)
    isSought := rfl
    tokenised := fun _ _ hform => (h.inert_form hentry hform).tokenised }

/-- In the pass for JSON, a token becomes the JSON of the value whose key is between its brackets. -/
theorem settle_json_braced {body : Text} (hbody : BraceFree body) :
    settle (visitsOf .json vars.entries) (braced body) =
      ((unbracket? body).bind fun key =>
        (vars.get? key).bind (·.form? .json key)).getD (braced body) := by
  have hgentle := h.gentle_json
  have hstays : (∀ key, unbracket? body = some key → vars.get? key = none) →
      settle (visitsOf .json vars.entries) (braced body) = braced body := by
    intro hnone
    refine settle_braced_of_forall_ne hgentle hbody fun visit hvisit heq => ?_
    obtain ⟨⟨key, value⟩, hentry, rfl⟩ := List.mem_map.1 hvisit
    have hget := hnone key (unbracket?_eq_some_iff.2 heq.symm)
    rw [OrderedMap.get?_eq_some_iff.2 hentry] at hget
    cases hget
  cases hkey : unbracket? body with
  | none =>
    refine hstays fun key hsome => ?_
    rw [hkey] at hsome
    cases hsome
  | some key =>
    rw [Option.bind_some]
    cases hget : vars.get? key with
    | none =>
      refine hstays fun other hsome => ?_
      rw [hkey] at hsome
      cases hsome
      exact hget
    | some value =>
      -- Exactly one visit looks for this token, and nothing is looked for in what it puts in.
      have hentry := OrderedMap.get?_eq_some_iff.1 hget
      have hvisit : (⟨.json, key, value⟩ : Visit) ∈ visitsOf .json vars.entries :=
        List.mem_map.2 ⟨(key, value), hentry, rfl⟩
      rw [Option.bind_some, unbracket?_eq_some_iff.1 hkey]
      exact settle_braced_of_mem hgentle vars.nodup_json_bodies hvisit
        fun replacement hform => h.inert_form hentry hform

/-! ### Both passes -/

/-- In the plain pass, a token becomes the plain text of the value that has it for its key. -/
theorem expandToken_eq_getD (body : Text) :
    expandToken vars.entries body =
      ((vars.get? body).bind (·.form? .plain body)).getD (braced body) := by
  cases hform : (vars.get? body).bind (·.form? .plain body) with
  | none =>
    refine expandToken_eq_braced fun value hentry => ?_
    rwa [OrderedMap.get?_eq_some_iff.2 hentry, Option.bind_some] at hform
  | some s =>
    obtain ⟨value, hget, hform⟩ := Option.bind_eq_some_iff.1 hform
    have hentry := OrderedMap.get?_eq_some_iff.1 hget
    have hbraceFree := h.braceFree_form hentry hform
    obtain ⟨before, after, hsplit⟩ := List.append_of_mem hentry
    have hnodup := vars.nodup_keys
    rw [hsplit] at hnodup
    rw [hsplit, expandToken_append_cons hnodup hform, Text.mapTokens_of_braceFree hbraceFree]
    rfl

/-- Both passes together are one pass over the tokens. -/
theorem settle_visits_eq_mapTokens {raw : Text} (hraw : OfTokens (fun _ => True) raw) :
    settle vars.visits raw = mapTokens vars.tokenText raw := by
  have hforms : ∀ entry ∈ vars.entries, ∀ s, entry.2.form? .plain entry.1 = some s →
      OfTokens (fun _ => True) s := fun entry hentry _ hform =>
    (h.braceFree_form hentry hform).ofTokens
  have hexpand : ∀ body, BraceFree body → True →
      OfTokens (fun _ => True) (expandToken vars.entries body) := fun _ =>
    ofTokens_expandToken hforms
  rw [Variables.visits_eq_append, settle_append_visits,
    settle_plain_eq_mapTokens vars.nodup_keys h.braceFree hforms hraw,
    settle_eq_mapTokens h.gentle_json (hraw.mapTokens hexpand), hraw.mapTokens_mapTokens hexpand]
  refine hraw.mapTokens_congr fun body hbody _ => ?_
  rw [h.expandToken_eq_getD body, Variables.tokenText]
  cases hform : (vars.get? body).bind (·.form? .plain body) with
  | none =>
    rw [Option.getD_none, Text.mapTokens_braced hbody, h.settle_json_braced hbody]
    rfl
  | some s =>
    -- The text has no braces, so the pass for JSON leaves it as it is.
    obtain ⟨value, hget, hform⟩ := Option.bind_eq_some_iff.1 hform
    exact Text.mapTokens_of_braceFree
      (h.braceFree_form (OrderedMap.get?_eq_some_iff.1 hget) hform)

end Variables.Unbraced

/-! ### Substitution -/

theorem OrderedMap.get?_eq_of_perm {α : Type} {m n : OrderedMap α} (h : m.entries.Perm n.entries)
    (key : Text) : m.get? key = n.get? key := by
  ext value
  rw [OrderedMap.get?_eq_some_iff, OrderedMap.get?_eq_some_iff, h.mem_iff]

theorem Variables.Unbraced.of_perm {vars vars' : Variables} (h : vars.Unbraced)
    (hperm : vars'.entries.Perm vars.entries) : vars'.Unbraced where
  braceFree entry hentry := h.braceFree entry (hperm.mem_iff.1 hentry)
  orderly entry hentry := h.orderly entry (hperm.mem_iff.1 hentry)

/-- Substitution puts a text in the place of each token by itself, and leaves what stands between
the tokens. A mapping with the same entries in another order gives the same text. -/
theorem result_substitute_mapTokens {raw : Text} {vars : Variables}
    (hraw : OfTokens (fun _ => True) raw) (hvars : vars.Unbraced) :
    (∀ history, (substitute raw vars history).result = some (mapTokens vars.tokenText raw)) ∧
      ∀ vars' : Variables, vars'.entries.Perm vars.entries → ∀ history,
        (substitute raw vars' history).result = some (mapTokens vars.tokenText raw) := by
  have hresult : ∀ {vars : Variables}, vars.Unbraced → ∀ history,
      (substitute raw vars history).result = some (mapTokens vars.tokenText raw) := by
    intro vars hvars history
    rw [hvars.prompt.returns_substitute raw history, hvars.settle_visits_eq_mapTokens hraw]
  refine ⟨hresult hvars, fun vars' hperm history => ?_⟩
  have hsame : vars'.tokenText = vars.tokenText := by
    funext body
    simp only [Variables.tokenText, OrderedMap.get?_eq_of_perm hperm]
  rw [hresult (hvars.of_perm hperm) history, hsame]

/-- Keys that are empty or in brackets. One of them has the marker for JSON of another. -/
def rivalKeys : Variables where
  entries := [
    ([], .text ['e']),
    ("[k]".toList, .structured (.object [(['n'], .object [])])),
    (['k'], .supplied ⟨0, .callback, fun key _ => key ++ ['"']⟩),
    ("[o]".toList, .number (.int 5)),
    (['o'], .structured (.object []))]
  nodup_keys := by decide

/-- The same keys in the opposite order. -/
def rivalKeysReversed : Variables where
  entries := rivalKeys.entries.reverse
  nodup_keys := by decide

def rivalTokens : Text :=
  "{}{[]}-{[k]}{[[k]]}{[o]}{o}{?}".toList

/-- What stands in their place. -/
def rivalTexts : Text :=
  "e\"e\"-\"k\\\"\"\x7b\"n\":{}\x7d5{o}{?}".toList

theorem unbraced_rivalKeys : rivalKeys.Unbraced := by
  refine ⟨by decide, ?_⟩
  simp only [rivalKeys, List.forall_mem_cons, List.not_mem_nil, false_implies, implies_true,
    and_true]
  refine ⟨?_, ?_, ⟨by decide, fun _ _ => rfl, by decide⟩, trivial, ?_⟩
  · show BraceFree ['e']
    decide
  · simp only [Value.Orderly, Json.BraceFree, Json.BraceFreeMembers]
    decide
  · simp only [Value.Orderly, Json.BraceFree, Json.BraceFreeMembers]

/-- The empty key, a structured value in the way of a marker for JSON, a number in its way, and a
key without a value; in both orders. -/
theorem result_substitute_mapTokens_rivalKeys :
    (OfTokens (fun _ => True) rivalTokens ∧ rivalKeys.Unbraced ∧
      rivalKeysReversed.entries.Perm rivalKeys.entries) ∧
      (substitute rivalTokens rivalKeys []).result = some rivalTexts ∧
      (substitute rivalTokens rivalKeysReversed []).result = some rivalTexts := by
  have hraw : OfTokens (fun _ => True) rivalTokens := by decide
  have hperm : rivalKeysReversed.entries.Perm rivalKeys.entries := List.reverse_perm _
  obtain ⟨hresult, hreversed⟩ := result_substitute_mapTokens hraw unbraced_rivalKeys
  refine ⟨⟨hraw, unbraced_rivalKeys, hperm⟩, ?_, ?_⟩
  · rw [hresult []]
    rfl
  · rw [hreversed rivalKeysReversed hperm []]
    rfl

end MarkerTemplate
