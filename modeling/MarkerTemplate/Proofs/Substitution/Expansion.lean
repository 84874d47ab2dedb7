import MarkerTemplate.Proofs.Json.Braces
import MarkerTemplate.Proofs.Substitution.Settled
import MarkerTemplate.Proofs.Text.Tokens

/-!
# Values that bring markers

A text put in for a marker may bring markers itself. Those of later keys are replaced in their turn,
and those of the same key or of an earlier one are not looked for any more. So substitution expands
values, each time with fewer keys, and it ends whatever the values mention.

## Main definitions

- `expandToken` — what becomes of a token in the hands of the given entries
- `Variables.expandFrom` — a text expanded with the keys from a position on
- `Variables.IsExpansion` — the rule that such an expansion follows
- `Variables.Expandable` — the values bring tokens only, none of which is a marker for JSON

## Design notes

The plain pass is an induction on the entries: the visit of the first entry is one pass over the
tokens, and the visits of the others are another pass over what it leaves. The pass for JSON finds
nothing to do, since no token begins with a bracket.
-/

namespace MarkerTemplate

open Text (BraceFree OfTokens Tokenised braced mapTokens)

/-- What becomes of the token `body`: the text of the entry with that key, in which every token
becomes what the entries behind it make of it. -/
def expandToken : List (Text × Value) → Text → Text
  | [], body => braced body
  | (key, value) :: later, body =>
    if body = key then
      match value.form? .plain key with
      | some s => mapTokens (expandToken later) s
      | none => braced body
    else expandToken later body

/-- The text in which the keys from the position `i` on stand for their values. -/
def Variables.expandFrom (vars : Variables) (i : Nat) (s : Text) : Text :=
  mapTokens (expandToken (vars.entries.drop i)) s

/-- The rule for expanding texts with the keys from a position on. -/
structure Variables.IsExpansion (vars : Variables) (expand : Nat → Text → Text) : Prop where
  nil : ∀ i, expand i [] = []
  -- What stands between tokens stays.
  between : ∀ i {run} s, BraceFree run → expand i (run ++ s) = run ++ expand i s
  -- Tokens are expanded one by one.
  token : ∀ i {body} s, BraceFree body →
    expand i (braced body ++ s) = expand i (braced body) ++ expand i s
  -- A key at a position that is not too early stands for its text, where only later keys do so.
  bound : ∀ {i j key value s}, vars.entries[j]? = some (key, value) → i ≤ j →
    value.form? .plain key = some s → expand i (braced key) = expand (j + 1) s
  -- All other tokens stay: the key is at no such position, or its value has no text.
  stays : ∀ {i body}, BraceFree body →
    (∀ j value, i ≤ j → vars.entries[j]? = some (body, value) → value.form? .plain body = none) →
    expand i (braced body) = braced body

/-- The token is not the marker of a key for JSON. -/
def Unbracketed (body : Text) : Prop :=
  body.head? ≠ some '['

instance (body : Text) : Decidable (Unbracketed body) :=
  inferInstanceAs (Decidable (body.head? ≠ some '['))

/-- The value brings only tokens that are allowed, and if it is a supplier, it hands over its text,
which depends on the key alone. -/
def Value.BringsTokens (allowed : Text → Prop) (key : Text) : Value → Prop
  | .text s => OfTokens allowed s
  | .number _ | .structured _ => True
  | .supplied supplier =>
    supplier.shape ≠ .never ∧ supplier.KeyOnlyAt key ∧ OfTokens allowed (supplier.reply key 1)

/-- No key has a brace, and no value brings a marker for JSON. -/
structure Variables.Expandable (vars : Variables) : Prop where
  braceFree : ∀ entry ∈ vars.entries, BraceFree entry.1
  brings : ∀ entry ∈ vars.entries, entry.2.BringsTokens Unbracketed entry.1

variable {allowed : Text → Prop}

theorem Value.BringsTokens.ofTokens_form {key s : Text} {value : Value}
    (h : value.BringsTokens allowed key) (hform : value.form? .plain key = some s) :
    OfTokens allowed s := by
  cases value with
  | text t =>
    cases hform
    exact h
  | number n =>
    cases hform
    exact n.braceFree_plainText.ofTokens
  | structured json => cases hform
  | supplied supplier =>
    cases hform
    exact h.2.2

theorem Variables.Expandable.prompt {vars : Variables} (h : vars.Expandable) : vars.Prompt := by
  intro key supplier hentry
  obtain ⟨hshape, hreply, -⟩ := h.brings _ hentry
  exact ⟨hshape, hreply⟩

/-! ### What becomes of a token -/

theorem expandToken_eq_braced {entries : List (Text × Value)} {body : Text}
    (h : ∀ value, (body, value) ∈ entries → value.form? .plain body = none) :
    expandToken entries body = braced body := by
  induction entries with
  | nil => rfl
  | cons entry later ih =>
    obtain ⟨key, value⟩ := entry
    rw [expandToken]
    split
    · rename_i hkey
      subst hkey
      rw [h value List.mem_cons_self]
    · exact ih fun other hother => h other (List.mem_cons_of_mem _ hother)

/-- Of entries with different keys, the one with the key of the token decides. -/
theorem expandToken_append_cons {before after : List (Text × Value)} {key s : Text} {value : Value}
    (hnodup : ((before ++ (key, value) :: after).map Prod.fst).Nodup)
    (hform : value.form? .plain key = some s) :
    expandToken (before ++ (key, value) :: after) key = mapTokens (expandToken after) s := by
  induction before with
  | nil => rw [List.nil_append, expandToken, if_pos rfl, hform]
  | cons entry before ih =>
    obtain ⟨hfresh, hrest⟩ := List.nodup_cons.1 hnodup
    have hhead : key ≠ entry.1 := by
      rintro rfl
      exact hfresh (by simp)
    rw [List.cons_append, expandToken, if_neg hhead, ih hrest]

theorem ofTokens_expandToken {entries : List (Text × Value)}
    (h : ∀ entry ∈ entries, ∀ s, entry.2.form? .plain entry.1 = some s → OfTokens allowed s)
    {body : Text} (hbody : BraceFree body) (hallowed : allowed body) :
    OfTokens allowed (expandToken entries body) := by
  induction entries generalizing body with
  | nil => exact Text.ofTokens_braced hbody hallowed
  | cons entry later ih =>
    obtain ⟨key, value⟩ := entry
    have hlater : ∀ {body : Text}, BraceFree body → allowed body →
        OfTokens allowed (expandToken later body) :=
      ih fun other hother => h other (List.mem_cons_of_mem _ hother)
    rw [expandToken]
    split
    · cases hform : value.form? .plain key with
      | none => exact Text.ofTokens_braced hbody hallowed
      | some s => exact (h _ List.mem_cons_self s hform).mapTokens fun _ => hlater
    · exact hlater hbody hallowed

/-! ### The plain pass -/

/-- The visits of the entries in one pass. -/
def visitsOf (sweep : Sweep) (entries : List (Text × Value)) : List Visit :=
  entries.map fun (key, value) => ⟨sweep, key, value⟩

theorem Variables.visits_eq_append (vars : Variables) :
    vars.visits = visitsOf .plain vars.entries ++ visitsOf .json vars.entries := by
  simp [Variables.visits, visitsOf]

/-- A plain visit passes over the tokens once. -/
theorem settle_plain_visit {key s t : Text} {value : Value} (hkey : BraceFree key)
    (hform : value.form? .plain key = some t) (hs : OfTokens allowed s) :
    (⟨.plain, key, value⟩ : Visit).settle s =
      mapTokens (fun body => if body = key then t else braced body) s := by
  have hput : (⟨.plain, key, value⟩ : Visit).settle s = Text.replaceAll (braced key) t s := by
    rw [Visit.settle, Visit.form?, hform]
    rfl
  rw [hput, hs.replaceAll_eq_mapTokens hkey]

/-- The plain pass expands every token with all entries. -/
theorem settle_plain_eq_mapTokens {entries : List (Text × Value)}
    (hnodup : (entries.map Prod.fst).Nodup) (hkeys : ∀ entry ∈ entries, BraceFree entry.1)
    (hforms : ∀ entry ∈ entries, ∀ s, entry.2.form? .plain entry.1 = some s → OfTokens allowed s)
    {s : Text} (hs : OfTokens allowed s) :
    settle (visitsOf .plain entries) s = mapTokens (expandToken entries) s := by
  induction entries generalizing s with
  | nil => exact hs.mapTokens_eq_self.symm
  | cons entry later ih =>
    obtain ⟨key, value⟩ := entry
    obtain ⟨hfresh, hrest⟩ := List.nodup_cons.1 hnodup
    obtain ⟨hkey, hlaterKeys⟩ := List.forall_mem_cons.1 hkeys
    obtain ⟨hentry, hlaterForms⟩ := List.forall_mem_cons.1 hforms
    have hlater := fun {s : Text} (hs : OfTokens allowed s) => ih hrest hlaterKeys hlaterForms hs
    show settle (visitsOf .plain later) (Visit.settle ⟨.plain, key, value⟩ s) = _
    cases hform : value.form? .plain key with
    | none =>
      -- The visit does nothing, and no later one looks for the key.
      have hself : Visit.settle ⟨.plain, key, value⟩ s = s := by
        rw [Visit.settle, Visit.form?, hform]
      rw [hself, hlater hs]
      refine hs.mapTokens_congr fun body _ _ => ?_
      rw [expandToken, hform]
      split
      · rename_i heq
        subst heq
        exact expandToken_eq_braced fun other hother =>
          absurd (List.mem_map_of_mem hother) hfresh
      · rfl
    | some t =>
      -- The later visits pass over what this one has put in, and over the other tokens.
      have hput : ∀ body, BraceFree body → allowed body →
          OfTokens allowed (if body = key then t else braced body) := by
        intro body hbody hallowed
        split
        · exact hentry t hform
        · exact Text.ofTokens_braced hbody hallowed
      rw [settle_plain_visit hkey hform hs, hlater (hs.mapTokens hput),
        hs.mapTokens_mapTokens hput]
      refine hs.mapTokens_congr fun body hbody _ => ?_
      rw [expandToken, hform]
      split
      · rfl
      · exact Text.mapTokens_braced hbody

/-! ### Expansion -/

namespace Variables

theorem expandFrom_braced {vars : Variables} {i j : Nat} {key s : Text} {value : Value}
    (hkey : BraceFree key) (hentry : vars.entries[j]? = some (key, value)) (hij : i ≤ j)
    (hform : value.form? .plain key = some s) :
    vars.expandFrom i (braced key) = vars.expandFrom (j + 1) s := by
  obtain ⟨hj, hget⟩ := List.getElem?_eq_some_iff.1 hentry
  -- The entry is the first one with its key, from the position `i` on as well.
  have hdrop : vars.entries.drop j = (key, value) :: vars.entries.drop (j + 1) := by
    rw [List.drop_eq_getElem_cons hj, hget]
  have hsplit : vars.entries.drop i =
      (vars.entries.drop i).take (j - i) ++ (key, value) :: vars.entries.drop (j + 1) := by
    have hrest : (vars.entries.drop i).drop (j - i) = vars.entries.drop j := by
      rw [List.drop_drop]
      congr 1
      omega
    rw [← hdrop, ← hrest, List.take_append_drop]
  have hnodup : ((vars.entries.drop i).map Prod.fst).Nodup :=
    ((List.drop_sublist i vars.entries).map Prod.fst).nodup vars.nodup_keys
  rw [hsplit] at hnodup
  rw [expandFrom, Text.mapTokens_braced hkey, hsplit, expandToken_append_cons hnodup hform]
  rfl

theorem isExpansion_expandFrom {vars : Variables}
    (h : ∀ entry ∈ vars.entries, BraceFree entry.1) : vars.IsExpansion vars.expandFrom where
  nil _ := rfl
  between _ {_} _ hrun := Text.mapTokens_append_of_braceFree hrun
  token i {body} s hbody := by
    rw [expandFrom, Text.mapTokens_braced_append hbody, expandFrom, Text.mapTokens_braced hbody]
    rfl
  bound hentry hij hform :=
    expandFrom_braced (h _ (List.mem_of_getElem? hentry)) hentry hij hform
  stays {i body} hbody hforms := by
    rw [expandFrom, Text.mapTokens_braced hbody]
    refine expandToken_eq_braced fun value hmem => ?_
    obtain ⟨k, hk⟩ := List.mem_iff_getElem?.1 hmem
    rw [List.getElem?_drop] at hk
    exact hforms (i + k) value (Nat.le_add_right i k) hk

end Variables

/-- The pass for JSON finds no marker in a text of tokens that do not begin with a bracket. -/
theorem settle_json_eq_self {entries : List (Text × Value)}
    (h : ∀ entry ∈ entries, BraceFree entry.1) {s : Text} (hs : OfTokens Unbracketed s) :
    settle (visitsOf .json entries) s = s := by
  have htokenised : Tokenised (fun _ => True) Unbracketed s := hs.tokenised
  induction entries with
  | nil => rfl
  | cons entry later ih =>
    obtain ⟨hkey, hlater⟩ := List.forall_mem_cons.1 h
    have hbody : BraceFree (Visit.body ⟨.json, entry.1, entry.2⟩) :=
      Sweep.json.braceFree_body hkey
    have hvisit := Visit.settle_eq_self htokenised hbody trivial fun hallowed => hallowed rfl
    show settle (visitsOf .json later) (Visit.settle ⟨.json, entry.1, entry.2⟩ s) = s
    rw [hvisit, ih hlater]

/-- Substitution expands a template: a token becomes the text of its key, in which only later keys
are looked for, and so on. Substitution ends, also where values mention their own keys or one
another. -/
theorem result_substitute_expandFrom {raw : Text} {vars : Variables}
    (hraw : OfTokens Unbracketed raw) (hvars : vars.Expandable) :
    vars.IsExpansion vars.expandFrom ∧
      ∀ history, (substitute raw vars history).result = some (vars.expandFrom 0 raw) := by
  refine ⟨Variables.isExpansion_expandFrom hvars.braceFree, fun history => ?_⟩
  have hforms : ∀ entry ∈ vars.entries, ∀ s, entry.2.form? .plain entry.1 = some s →
      OfTokens Unbracketed s := fun entry hentry _ hform =>
    (hvars.brings entry hentry).ofTokens_form hform
  have hplain := settle_plain_eq_mapTokens vars.nodup_keys hvars.braceFree hforms hraw
  have htokens := hraw.mapTokens fun _ => ofTokens_expandToken hforms
  rw [hvars.prompt.returns_substitute raw history, Variables.visits_eq_append,
    settle_append_visits, hplain, settle_json_eq_self hvars.braceFree htokens]
  rfl

/-- Two values that mention themselves and each other, one of which has to be waited for. -/
def mutualMentions : Variables where
  entries := [
    (['a'], .text "<{b}{a}>".toList),
    (['b'], .supplied ⟨0, .future 1, fun _ _ => "{a}{c}{b}".toList⟩),
    (['c'], .number (.int 7)),
    (['d'], .structured (.array []))]
  nodup_keys := by decide

/-- The marker of an earlier key and of the same key are left in what is put in. -/
theorem result_substitute_expandFrom_mutualMentions :
    OfTokens Unbracketed "{b}-{a}{d}".toList ∧ mutualMentions.Expandable ∧
      (substitute "{b}-{a}{d}".toList mutualMentions []).result =
        some "{a}7{b}-<{a}7{b}{a}>{d}".toList := by
  have hraw : OfTokens Unbracketed "{b}-{a}{d}".toList := by decide
  have hvars : mutualMentions.Expandable := by
    refine ⟨by decide, ?_⟩
    simp only [mutualMentions, List.forall_mem_cons, List.not_mem_nil, false_implies,
      implies_true, and_true]
    refine ⟨?_, ⟨by decide, fun _ _ => rfl, by decide⟩, trivial, trivial⟩
    show OfTokens Unbracketed _
    decide
  refine ⟨hraw, hvars, ?_⟩
  rw [(result_substitute_expandFrom hraw hvars).2 []]
  rfl

end MarkerTemplate
