import MarkerTemplate.Proofs.Files.Path

/-!
# Paths that end in names

What joining paths and giving them an extension comes to if the path ends in the name of a file, and
not in a step that stays or goes upwards.

## Main definitions

- `Path.IsFileName` — a name of something in a directory
- `Path.ofNames` — the path that goes down by the given names

## Design notes

A path of names is put behind another path by a slash before each of its names, and so the names are
the last segments of the whole. Whether a name has an extension is decided by its characters behind
the first one.
-/

namespace MarkerTemplate

namespace Path

/-- The text is the name of something in a directory: it is not empty, has no slash, and is neither
the step that stays nor the step that goes upwards. -/
def IsFileName (name : Text) : Prop :=
  name ≠ [] ∧ name ≠ ['.'] ∧ name ≠ ['.', '.'] ∧ '/' ∉ name

instance (name : Text) : Decidable (IsFileName name) :=
  inferInstanceAs (Decidable (name ≠ [] ∧ name ≠ ['.'] ∧ name ≠ ['.', '.'] ∧ '/' ∉ name))

/-- The path that goes down by the given names. -/
def ofNames (names : List Text) : Text :=
  ['/'].intercalate names

/-! ### The segments of a path -/

theorem slash_cons_ofNames {names : List Text} (h : names ≠ []) :
    '/' :: ofNames names = names.flatMap (['/'] ++ ·) := by
  obtain ⟨name, names, rfl⟩ := List.exists_cons_of_ne_nil h
  rw [ofNames, Text.intercalate_cons, List.flatMap_cons]
  rfl

theorem ofNames_concat {folders : List Text} (h : folders ≠ []) (name : Text) :
    ofNames (folders ++ [name]) = ofNames folders ++ '/' :: name := by
  have hslash := slash_cons_ofNames (List.append_ne_nil_of_left_ne_nil h [name])
  rw [List.flatMap_append, ← slash_cons_ofNames h] at hslash
  simpa using hslash

/-- What is put behind the last name is put behind the path. -/
theorem ofNames_concat_append (folders : List Text) (name ending : Text) :
    ofNames (folders ++ [name ++ ending]) = ofNames (folders ++ [name]) ++ ending := by
  by_cases h : folders = []
  · subst h
    simp [ofNames]
  · rw [ofNames_concat h, ofNames_concat h, List.append_assoc]
    rfl

/-- A path tells its names. -/
theorem ofNames_concat_inj {folders folders' : List Text} {name name' : Text}
    (h : ∀ step ∈ folders ++ [name], '/' ∉ step) (h' : ∀ step ∈ folders' ++ [name'], '/' ∉ step)
    (heq : ofNames (folders ++ [name]) = ofNames (folders' ++ [name'])) :
    folders = folders' ∧ name = name' := by
  have hsplit := congrArg (List.splitOn '/') heq
  rw [ofNames, ofNames, List.splitOn_intercalate '/' h (by simp),
    List.splitOn_intercalate '/' h' (by simp)] at hsplit
  obtain ⟨hfolders, hlast⟩ := List.append_inj' hsplit rfl
  exact ⟨hfolders, List.singleton_inj.1 hlast⟩

/-- Names that are put behind a path, each after a slash, become its last segments. -/
theorem splitAll_append_flatMap (path : Text) {names : List Text}
    (h : ∀ name ∈ names, '/' ∉ name) :
    Text.splitAll ['/'] (path ++ names.flatMap (['/'] ++ ·)) =
      ⟨(Text.splitAll ['/'] path).first, (Text.splitAll ['/'] path).later ++ names⟩ := by
  have hpieces := Text.not_isInfix_of_mem_splitAll (List.cons_ne_nil '/' []) path
  have hjoin := Text.joinWith_splitAll (List.cons_ne_nil '/' []) path
  generalize Text.splitAll ['/'] path = pieces at hpieces hjoin ⊢
  let whole : Text.Pieces := ⟨pieces.first, pieces.later ++ names⟩
  have hwhole : path ++ names.flatMap (['/'] ++ ·) = whole.joinWith ['/'] := by
    rw [← hjoin, Text.Pieces.joinWith, Text.Pieces.joinWith, List.flatMap_append,
      List.append_assoc]
  rw [hwhole]
  refine Text.splitAll_joinWith List.not_mem_nil fun piece hpiece => ?_
  rcases List.mem_append.1 (List.cons_append ▸ hpiece) with hpiece | hpiece
  · exact hpieces piece hpiece
  · exact fun hslash => h piece hpiece (hslash.subset List.mem_cons_self)

theorem segmentsFromEnd_append_slash (path : Text) {name : Text} (h : '/' ∉ name) :
    segmentsFromEnd (path ++ '/' :: name) = name :: segmentsFromEnd path := by
  have hsplit := splitAll_append_flatMap path (List.forall_mem_singleton.2 h)
  rw [List.flatMap_singleton, List.singleton_append] at hsplit
  rw [segmentsFromEnd, segmentsFromEnd, hsplit, ← List.cons_append, List.reverse_append]
  rfl

/-- The segments, each with a slash behind it, are the path with a slash behind it. -/
theorem flatMap_segmentsFromEnd (path : Text) :
    (segmentsFromEnd path).reverse.flatMap (· ++ ['/']) = path ++ ['/'] := by
  have hjoin := Text.joinWith_splitAll (List.cons_ne_nil '/' []) path
  rw [segmentsFromEnd, List.reverse_reverse]
  conv_rhs => rw [← hjoin, Text.Pieces.joinWith]
  generalize (Text.splitAll ['/'] path).first = first
  generalize (Text.splitAll ['/'] path).later = later
  induction later generalizing first with
  | nil => simp
  | cons next later ih =>
    rw [List.flatMap_cons, ih next]
    simp

/-! ### Joining -/

theorem join_eq_append_slash {directory path : Text} (hne : directory ≠ [])
    (hend : ¬ ['/'] <:+ directory) (hbegin : ¬ ['/'] <+: path) :
    join directory path = directory ++ '/' :: path := by
  have hplain : (directory.isEmpty || ['/'].isSuffixOf directory) = false := by
    rw [Bool.or_eq_false_iff, List.isEmpty_eq_false_iff, ← Bool.not_eq_true,
      List.isSuffixOf_iff_suffix]
    exact ⟨hne, hend⟩
  rw [join, if_neg (by rwa [List.isPrefixOf_iff_prefix]), hplain]
  rfl

/-! ### The extension of a name -/

/-- A point at the beginning of a name, or none at all, gives it no extension. -/
theorem splitName_of_notMem {name : Text} (h : '.' ∉ name.tail) :
    splitName name = (name, none) := by
  cases name with
  | nil => rfl
  | cons c name =>
    have hclear : '.' ∉ name.reverse := fun hmem => h (List.mem_reverse.1 hmem)
    by_cases hc : c = '.'
    · subst hc
      have hcut : Text.splitOnce? ['.'] ('.' :: name).reverse = some (name.reverse, []) := by
        rw [List.reverse_cons]
        exact Text.splitOnce?_append_sep_append (List.cons_ne_nil '.' []) (b := [])
          (Text.clear_of_notMem hclear _)
      rw [splitName, hcut]
      rfl
    · have hcut : Text.splitOnce? ['.'] (c :: name).reverse = none := by
        refine Text.splitOnce?_of_not_isInfix (List.cons_ne_nil '.' []) fun hpoint => ?_
        have hmem : '.' ∈ (c :: name).reverse := hpoint.subset List.mem_cons_self
        rcases List.mem_cons.1 (List.mem_reverse.1 hmem) with heq | hmem
        · exact hc heq.symm
        · exact h hmem
      rw [splitName, hcut]

/-- A later point gives it one, which begins behind the last point. -/
theorem exists_splitName_of_mem {name : Text} (h : '.' ∈ name.tail) :
    ∃ stem extension, splitName name = (stem, some extension) := by
  obtain ⟨c, name, rfl⟩ : ∃ c rest, name = c :: rest :=
    List.exists_cons_of_ne_nil fun hnil => by subst hnil; cases h
  obtain ⟨ending, beginning, hname, hending⟩ :=
    List.eq_append_cons_of_mem (List.mem_reverse.2 (show '.' ∈ name from h))
  have hcut : Text.splitOnce? ['.'] (c :: name).reverse = some (ending, beginning ++ [c]) := by
    have hwhole : (c :: name).reverse = ending ++ (['.'] ++ (beginning ++ [c])) := by
      rw [List.reverse_cons, hname, List.append_assoc]
      rfl
    rw [hwhole]
    exact Text.splitOnce?_append_sep_append (List.cons_ne_nil '.' [])
      (Text.clear_of_notMem hending _)
  refine ⟨(beginning ++ [c]).reverse, ending.reverse, ?_⟩
  rw [splitName, hcut]
  simp

/-! ### Paths that end in the name of a file -/

namespace IsFileName

variable {name : Text} (h : IsFileName name)

include h

theorem ne_nil : name ≠ [] :=
  h.1

theorem slash_notMem : '/' ∉ name :=
  h.2.2.2

theorem lastNamed?_of_segmentsFromEnd {path : Text} {before : List Text}
    (hpath : segmentsFromEnd path = name :: before) :
    lastNamed? path = some ⟨before.reverse.flatMap (· ++ ['/']), name⟩ := by
  obtain ⟨hnil, hpoint, hpoints, -⟩ := h
  have hkept : dropIdle (name :: before) = name :: before := by
    cases before with
    | nil => rfl
    | cons next before =>
      rw [dropIdle_cons_cons, if_neg (not_or.2 ⟨hnil, hpoint⟩)]
  rw [lastNamed?, hpath, hkept]
  exact if_neg (by simp only [hnil, hpoint, hpoints, or_self, not_false_eq_true])

theorem lastNamed?_self : lastNamed? name = some ⟨[], name⟩ := by
  have hsplit : Text.splitAll ['/'] name = ⟨name, []⟩ :=
    Text.splitAll_of_not_isInfix (List.cons_ne_nil '/' []) fun hslash =>
      h.slash_notMem (hslash.subset List.mem_cons_self)
  have hsegments : segmentsFromEnd name = [name] := by
    rw [segmentsFromEnd, hsplit]
    rfl
  exact h.lastNamed?_of_segmentsFromEnd hsegments

theorem lastNamed?_append_slash (path : Text) :
    lastNamed? (path ++ '/' :: name) = some ⟨path ++ ['/'], name⟩ := by
  rw [h.lastNamed?_of_segmentsFromEnd (segmentsFromEnd_append_slash path h.slash_notMem),
    flatMap_segmentsFromEnd]

/-- A path of names has an extension if there is a point behind the first character of its last
name. -/
theorem isSome_extension?_ofNames (folders : List Text) :
    (extension? (ofNames (folders ++ [name]))).isSome = true ↔ '.' ∈ name.tail := by
  have hlast : ∃ parent, lastNamed? (ofNames (folders ++ [name])) = some ⟨parent, name⟩ := by
    by_cases hfolders : folders = []
    · subst hfolders
      exact ⟨[], by simpa [ofNames] using h.lastNamed?_self⟩
    · rw [ofNames_concat hfolders]
      exact ⟨_, h.lastNamed?_append_slash _⟩
  obtain ⟨parent, hlast⟩ := hlast
  rw [extension?, hlast, Option.bind_some]
  by_cases hpoint : '.' ∈ name.tail
  · obtain ⟨stem, extension, hsplit⟩ := exists_splitName_of_mem hpoint
    simp only [hsplit, Option.isSome_some, hpoint]
  · simp [splitName_of_notMem hpoint, hpoint]

/-- A name without an extension keeps all its characters when it is given one. -/
theorem withExtension_append_slash (hpoint : '.' ∉ name.tail) (path extension : Text) :
    withExtension (path ++ '/' :: name) extension = path ++ '/' :: name ++ '.' :: extension := by
  rw [withExtension, h.lastNamed?_append_slash path]
  simp [splitName_of_notMem hpoint]

theorem append_extension {extension : Text} (hne : extension ≠ []) (hslash : '/' ∉ extension) :
    IsFileName (name ++ '.' :: extension) := by
  obtain ⟨hnil, -, -, hname⟩ := h
  have hlength : 3 ≤ (name ++ '.' :: extension).length := by
    have hpos := List.length_pos_iff.2 hnil
    have hpos' := List.length_pos_iff.2 hne
    rw [List.length_append, List.length_cons]
    omega
  have hlong : ∀ short : Text, short.length < 3 → name ++ '.' :: extension ≠ short := by
    rintro short hshort rfl
    omega
  refine ⟨hlong [] (by decide), hlong _ (by decide), hlong _ (by decide), ?_⟩
  simp [hname, hslash]

end IsFileName

/-- A path of names is no path from the root. -/
theorem not_slash_isPrefix_ofNames {names : List Text} (h : ∀ name ∈ names, IsFileName name) :
    ¬ ['/'] <+: ofNames names := by
  cases names with
  | nil => exact fun hbegins => List.cons_ne_nil '/' [] (List.prefix_nil.1 hbegins)
  | cons first later =>
    have hfirst := h first List.mem_cons_self
    obtain ⟨c, rest, rfl⟩ := List.exists_cons_of_ne_nil hfirst.ne_nil
    rw [ofNames, Text.intercalate_cons, List.cons_append]
    intro hbegins
    obtain ⟨rfl, -⟩ := List.cons_prefix_cons.1 hbegins
    exact hfirst.slash_notMem List.mem_cons_self

end Path

end MarkerTemplate
