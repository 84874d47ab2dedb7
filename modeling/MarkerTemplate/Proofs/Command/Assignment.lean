import MarkerTemplate.Command.Assignment
import MarkerTemplate.Proofs.Json.RoundTrip
import MarkerTemplate.Proofs.Merge.Related
import MarkerTemplate.Proofs.Substitution.Settled

/-!
# Assignments and markers for JSON

Data that is assigned to a key by its compact text comes out of the marker for the JSON of that key
as the same text.

## Design notes

The marker for JSON is visited last. The visit before it looks for the key between plain braces,
which does not stand in the marker for JSON, not even if the key has brackets or braces itself:
wherever it began, the two texts would differ in how many brackets or braces they have.
-/

namespace MarkerTemplate

/-! ### The marker for JSON -/

theorem Sweep.not_plain_isInfix_json (key : Text) :
    ¬ Sweep.plain.marker key <:+: Sweep.json.marker key := by
  intro hoccurs
  rcases List.infix_cons_iff.1 hoccurs with hbegins | hlater
  · -- Behind the first brace, the key would have a bracket before itself.
    have htail : key ++ ['}'] <+: '[' :: key ++ [']', '}'] := (List.prefix_cons_inj '{').1 hbegins
    have hshort : key ++ ['}'] <+: '[' :: key :=
      List.prefix_of_prefix_length_le htail (List.prefix_append _ _) (by simp)
    have hcount := congrArg (List.count '[') (hshort.eq_of_length (by simp))
    simp at hcount
  · rcases List.infix_cons_iff.1 hlater with hbracket | hbehind
    · exact absurd (List.cons_prefix_cons.1 hbracket).1 (by decide)
    · -- Behind the bracket, it would fill the rest, which has no brace in front of the key.
      have heq : '{' :: key ++ ['}'] = key ++ [']', '}'] :=
        hbehind.eq_of_length (by simp [marker])
      have hcount := congrArg (List.count '{') heq
      simp at hcount

theorem Value.form?_json_ofJson {depth : Nat} {json : Json} (h : json.Readable depth) (key : Text) :
    (Value.ofJson json).form? .json key = some json.write := by
  cases h <;> rfl

/-- With one key only, its marker for JSON becomes the compact text of the data. -/
theorem trySubstitute_json_marker {depth : Nat} {json : Json} (h : json.Readable depth)
    (key : Text) :
    trySubstitute (Sweep.json.marker key) (.ofList [(key, .ofJson json)]) =
      pure (some json.write) := by
  let plain : Visit := ⟨.plain, key, .ofJson json⟩
  let asJson : Visit := ⟨.json, key, .ofJson json⟩
  have hother : ¬ plain.marker <:+: asJson.marker := Sweep.not_plain_isInfix_json key
  have hplain : tryVisits ([plain] ++ [asJson]) asJson.marker = tryVisits [asJson] asJson.marker :=
    tryVisits_append_of_not_isInfix (List.forall_mem_singleton.2 hother) [asJson]
  have hform : asJson.form? = some json.write := Value.form?_json_ofJson h key
  show tryVisits ([plain] ++ [asJson]) asJson.marker = _
  rw [hplain, tryVisits_cons_of_ne_supplied (Value.ofJson_ne_supplied json), Visit.settle_marker,
    hform]
  rfl

/-! ### Assignments -/

namespace Assignment

theorem read_append {key : Text} (hkey : key ≠ []) (hsign : '=' ∉ key) (s : Text) :
    read (key ++ '=' :: s) = .ok (key, value s) := by
  have hsplit : Text.splitOnce? ['='] (key ++ (['='] ++ s)) = some (key, s) :=
    Text.splitOnce?_append_sep_append (List.cons_ne_nil '=' []) (Text.clear_of_notMem hsign _)
  show read (key ++ (['='] ++ s)) = _
  rw [read, hsplit]
  exact if_neg hkey

theorem read_of_notMem {s : Text} (h : '=' ∉ s) : read s = .error (.missingSign s) := by
  have hsplit : Text.splitOnce? ['='] s = none := by
    refine Text.splitOnce?_of_not_isInfix (List.cons_ne_nil '=' []) fun hoccurs => ?_
    exact h (hoccurs.subset List.mem_cons_self)
  rw [read, hsplit]

/-- A text without the sign and a text that begins with it are not assignments, and all others are.
-/
theorem read_eq_error_iff {s : Text} {error : AssignmentError} :
    read s = .error error ↔
      ('=' ∉ s ∧ error = .missingSign s) ∨ (s.head? = some '=' ∧ error = .emptyKey s) := by
  by_cases hsign : '=' ∈ s
  · obtain ⟨key, behind, rfl, hkey⟩ := List.eq_append_cons_of_mem hsign
    cases key with
    | nil =>
      have hread : read ('=' :: behind) = .error (.emptyKey ('=' :: behind)) := rfl
      rw [List.nil_append, hread]
      simp [eq_comm]
    | cons c key =>
      have hne : c ≠ '=' := fun heq => hkey (heq ▸ List.mem_cons_self)
      rw [read_append (List.cons_ne_nil c key) hkey]
      simp [hne]
  · have hhead : s.head? ≠ some '=' := fun heq => hsign (List.mem_of_head? heq)
    rw [read_of_notMem hsign]
    simp [hsign, hhead, eq_comm]

/-- Reading an assignment undoes the marker for JSON: what the marker gives for data can be
assigned, and then the marker gives it again. Any other text is assigned as it is, and only a text
without a key or without the sign is no assignment. -/
theorem read_inverts_marker {key : Text} (hkey : key ≠ []) (hsign : '=' ∉ key) :
    (∀ json : Json, json.Readable 127 →
      read (key ++ '=' :: json.write) = .ok (key, .ofJson json) ∧
        ∀ history, trySubstitute (Sweep.json.marker key) (.ofList [(key, .ofJson json)]) history =
          ⟨some (some json.write), []⟩) ∧
    (∀ s error, Json.read s = .error error → read (key ++ '=' :: s) = .ok (key, .text s)) ∧
    ∀ s error, read s = .error error ↔
      ('=' ∉ s ∧ error = .missingSign s) ∨ (s.head? = some '=' ∧ error = .emptyKey s) := by
  refine ⟨fun json hjson => ⟨?_, fun history => ?_⟩, fun s error herror => ?_,
    fun s error => read_eq_error_iff⟩
  · rw [read_append hkey hsign, value, Json.read_write hjson]
  · rw [trySubstitute_json_marker hjson]
    rfl
  · rw [read_append hkey hsign, value, herror]

end Assignment

/-- An object whose first member has the sign in its name and its string, with escapes and with the
smallest and the largest number. -/
def nestedData : Json :=
  .object [
    ("=".toList, .string "\"=\x01".toList),
    ("n".toList, .array [
      .number (.int (-9223372036854775808)), .number (.int 18446744073709551615), .array []]),
    ([], .object [])]

def nestedText : Text :=
  "\x7b\"=\":\"\\\"=\\u0001\",".toList ++
    "\"n\":[-9223372036854775808,18446744073709551615,[]],\"\":\x7b\x7d\x7d".toList

/-- The key looks like a marker itself. -/
theorem Assignment.read_inverts_marker_nestedData :
    Assignment.read ("{[k]}".toList ++ '=' :: nestedText) =
        .ok ("{[k]}".toList, .structured nestedData) ∧
      trySubstitute (Sweep.json.marker "{[k]}".toList)
        (.ofList [("{[k]}".toList, .structured nestedData)]) [] = ⟨some (some nestedText), []⟩ ∧
      Assignment.read "{[k]}=01=2".toList = .ok ("{[k]}".toList, .text "01=2".toList) := by
  have htext : nestedData.write = nestedText := by decide
  have hreadable : nestedData.Readable 127 := by
    refine .object (by decide) ?_
    simp only [List.forall_mem_cons, List.not_mem_nil, false_imp_iff, implies_true, and_true]
    refine ⟨.string _, .array ?_, .object List.nodup_nil (by simp)⟩
    simp only [List.forall_mem_cons, List.not_mem_nil, false_imp_iff, implies_true, and_true]
    exact ⟨.int (by decide) (by decide), .int (by decide) (by decide), .array (by simp)⟩
  have hfault : Json.read "01=2".toList = .error ⟨.invalidNumber, 1, 2⟩ := rfl
  have hkey : "{[k]}".toList ≠ [] := by decide
  have hsign : '=' ∉ "{[k]}".toList := by decide
  obtain ⟨hdata, hother, -⟩ := Assignment.read_inverts_marker hkey hsign
  obtain ⟨hread, hmarker⟩ := hdata nestedData hreadable
  rw [htext] at hread hmarker
  exact ⟨hread, hmarker [], hother _ _ hfault⟩

end MarkerTemplate
