/-!
# Texts

Templates, keys and values are texts: lists of characters. This file holds the operations by
which the engine reads markup, all of which look for a fixed, non-empty delimiter from left to
right.

## Main definitions

- `Text.occursIn` says whether a text has another in it
- `Text.splitAll` cuts a text at every occurrence of a separator
- `Text.splitOnce?` cuts a text at the first occurrence
- `Text.replaceAll` puts one text in the place of every occurrence of another
- `Text.stripSuffix?` takes a fixed ending off a text

## Design notes

Occurrences never overlap: after a separator has been found, the search goes on behind it. The
scan keeps the number of characters of that separator it has still to pass over, so that it
recurses on the text itself. `Text.occursIn` says whether a text occurs in another at all, and it
is the relation `<:+:` made decidable.
-/

namespace MarkerTemplate

/-- A text is a list of characters. -/
abbrev Text := List Char

namespace Text

/-- Whether `pattern` stands somewhere in a text. -/
def occursIn (pattern : Text) : Text → Bool
  | [] => pattern.isEmpty
  | c :: s => pattern.isPrefixOf (c :: s) || occursIn pattern s

/-- What separators leave of a text: a first piece, and one more piece behind each separator. -/
structure Pieces where
  first : Text
  later : List Text
  deriving DecidableEq, Repr

/-- The pieces with `sep` put between them. -/
def Pieces.joinWith (sep : Text) (p : Pieces) : Text :=
  p.first ++ p.later.flatMap (sep ++ ·)

/-- The pieces of a text of which the first `skip` characters belong to a separator already
found. -/
def splitSkipping (sep : Text) : Nat → Text → Pieces
  | _, [] => ⟨[], []⟩
  | skip + 1, _ :: s => splitSkipping sep skip s
  | 0, c :: s =>
    if sep.isPrefixOf (c :: s) then
      let rest := splitSkipping sep (sep.length - 1) s
      ⟨[], rest.first :: rest.later⟩
    else
      let rest := splitSkipping sep 0 s
      ⟨c :: rest.first, rest.later⟩

/-- The pieces between all occurrences of `sep`, found from the left. -/
def splitAll (sep s : Text) : Pieces :=
  splitSkipping sep 0 s

/-- The text before and the text behind the first occurrence of `sep`. -/
def splitOnce? (sep : Text) : Text → Option (Text × Text)
  | [] => none
  | c :: s =>
    if sep.isPrefixOf (c :: s) then some ([], (c :: s).drop sep.length)
    else (splitOnce? sep s).map fun (before, behind) => (c :: before, behind)

/-- The cut at the first occurrence of `sep`, where a text without `sep` is all before it. -/
def splitOnce (sep s : Text) : Text × Text :=
  (splitOnce? sep s).getD (s, [])

/-- `replacement` in the place of every occurrence of `pattern`. -/
def replaceAll (pattern replacement s : Text) : Text :=
  (splitAll pattern s).joinWith replacement

/-- What stands before the ending `ending`, if the text has it. -/
def stripSuffix? (ending s : Text) : Option Text :=
  if ending.isSuffixOf s then some (s.take (s.length - ending.length)) else none

/-- The number of bytes of the text in UTF-8. -/
def utf8Length : Text → Nat
  | [] => 0
  | c :: s => c.utf8Size + utf8Length s

/-! ### Lemmas -/

theorem occursIn_iff_isInfix {pattern s : Text} : occursIn pattern s = true ↔ pattern <:+: s := by
  induction s with
  | nil => simp [occursIn]
  | cons c s ih => simp [occursIn, ih, List.infix_cons_iff]

/-- Whether a text stands in another is decided by one scan. -/
instance (pattern s : Text) : Decidable (pattern <:+: s) :=
  decidable_of_iff _ occursIn_iff_isInfix

theorem stripSuffix?_append (s ending : Text) : stripSuffix? ending (s ++ ending) = some s := by
  simp [stripSuffix?]

theorem stripSuffix?_eq_some_iff {ending s before : Text} :
    stripSuffix? ending s = some before ↔ s = before ++ ending := by
  constructor
  · intro h
    unfold stripSuffix? at h
    split at h
    · rename_i hsuffix
      obtain ⟨t, rfl⟩ := List.isSuffixOf_iff_suffix.1 hsuffix
      simpa using h
    · exact absurd h (by simp)
  · rintro rfl
    exact stripSuffix?_append before ending

theorem splitOnce?_eq_append {sep s before behind : Text}
    (h : splitOnce? sep s = some (before, behind)) : s = before ++ sep ++ behind := by
  induction s generalizing before with
  | nil => exact absurd h (by simp [splitOnce?])
  | cons c s ih =>
    unfold splitOnce? at h
    split at h
    · rename_i hsep
      obtain ⟨t, ht⟩ := List.isPrefixOf_iff_prefix.1 hsep
      simp only [Option.some.injEq, Prod.mk.injEq] at h
      obtain ⟨rfl, rfl⟩ := h
      simp [← ht]
    · simp only [Option.map_eq_some_iff, Prod.mk.injEq] at h
      obtain ⟨⟨before', behind'⟩, hrest, rfl, rfl⟩ := h
      simp [ih hrest]

/-- What a scan gives, joined again, is the text without the characters that it passed over. -/
theorem joinWith_splitSkipping {sep : Text} (hsep : sep ≠ []) (skip : Nat) (s : Text) :
    (splitSkipping sep skip s).joinWith sep = s.drop skip := by
  induction s generalizing skip with
  | nil => simp [splitSkipping, Pieces.joinWith]
  | cons c s ih =>
    cases skip with
    | succ skip => simpa [splitSkipping] using ih skip
    | zero =>
      unfold splitSkipping
      split
      · rename_i hbegins
        obtain ⟨t, ht⟩ := List.isPrefixOf_iff_prefix.1 hbegins
        obtain ⟨d, sep', rfl⟩ := List.exists_cons_of_ne_nil hsep
        simp only [List.cons_append, List.cons.injEq] at ht
        obtain ⟨rfl, rfl⟩ := ht
        simpa [Pieces.joinWith] using ih sep'.length
      · simpa [Pieces.joinWith] using ih 0

/-- Splitting loses nothing but the separators. -/
theorem joinWith_splitAll {sep : Text} (hsep : sep ≠ []) (s : Text) :
    (splitAll sep s).joinWith sep = s :=
  joinWith_splitSkipping hsep 0 s

end Text

end MarkerTemplate
