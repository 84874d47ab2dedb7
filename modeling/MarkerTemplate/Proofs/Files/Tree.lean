import MarkerTemplate.Files.Tree
import MarkerTemplate.Proofs.Except

/-!
# Reading what has been written

Writing a text to a path changes one location of the tree, and the path leads there: reading it
again gives the text back.

## Main definitions

- `FileTree.OnlyWritten` — one tree is another with a text written to the file at a path

## Design notes

The location that is written is never a directory, so no path is followed through it. This is why
following a path comes to the same place before and after, also if it is this very path.
-/

namespace MarkerTemplate

theorem decodeUtf8_encodeUtf8 (s : Text) : decodeUtf8 (encodeUtf8 s) = .ok s := by
  have hdecode : String.fromUTF8? (String.ofList s).toUTF8 = some (String.ofList s) := by
    rw [String.fromUTF8?, String.toUTF8_eq_toByteArray, dif_pos (String.ofList s).isValidUTF8]
    rfl
  rw [decodeUtf8, encodeUtf8, hdecode]
  show Except.ok (String.ofList s).toList = _
  rw [String.toList_ofList]

namespace FileTree

variable {tree : FileTree} {location other found : Location} {node : FileNode}

theorem node?_set_self (h : location ≠ []) (node : Option FileNode) :
    (tree.set location node).node? location = node := by
  rw [node?, if_neg h, set]
  exact if_pos rfl

theorem node?_set_of_ne (h : other ≠ location) (node : Option FileNode) :
    (tree.set location node).node? other = tree.node? other := by
  unfold node?
  split
  · rfl
  · exact if_neg h

theorem node?_set_ne_none (h : tree.node? other ≠ none) (node : FileNode) :
    (tree.set location (some node)).node? other ≠ none := by
  by_cases heq : other = location
  · subst heq
    by_cases hroot : other = []
    · rw [node?, if_pos hroot]
      exact Option.some_ne_none _
    · rw [node?_set_self hroot]
      exact Option.some_ne_none node
  · rwa [node?_set_of_ne heq]

/-! ### Following names -/

/-- One step behind a location that is a directory. -/
theorem follow_cons_of_directory (h : tree.node? location = some .directory) (name : Text)
    (names : List Text) :
    tree.follow location (name :: names) =
      if name = [] ∨ name = ['.'] then tree.follow location names
      else if name = ['.', '.'] then tree.follow location.dropLast names
      else if maxNameLength < Text.utf8Length name then .error .nameTooLong
      else if (tree.node? (location ++ [name])).isNone then .error .notFound
      else tree.follow (location ++ [name]) names := by
  rw [follow, h]

/-- Names can only be followed from a directory. -/
theorem directory_of_follow_cons {name : Text} {names : List Text}
    (h : tree.follow location (name :: names) = .ok found) :
    tree.node? location = some .directory := by
  unfold follow at h
  split at h
  · assumption
  · cases h
  · cases h

theorem follow_append (location : Location) (names more : List Text) :
    tree.follow location (names ++ more) =
      tree.follow location names >>= fun found => tree.follow found more := by
  induction names generalizing location with
  | nil => rfl
  | cons name names ih =>
    cases hnode : tree.node? location with
    | none => simp only [List.cons_append, follow, hnode]; rfl
    | some node =>
      cases node with
      | file content => simp only [List.cons_append, follow, hnode]; rfl
      | directory =>
        rw [List.cons_append, follow_cons_of_directory hnode, follow_cons_of_directory hnode]
        simp only [ih]
        repeat' split
        all_goals rfl

/-- What is put at a location that is no directory does not change where names lead, if they lead
somewhere. -/
theorem follow_set (hnode : tree.node? location ≠ some .directory) (node : FileNode)
    {start : Location} {names : List Text} (h : tree.follow start names = .ok found) :
    (tree.set location (some node)).follow start names = .ok found := by
  induction names generalizing start with
  | nil => exact h
  | cons name names ih =>
    have hdirectory := directory_of_follow_cons h
    have hne : start ≠ location := fun heq => hnode (heq ▸ hdirectory)
    have hsame : (tree.set location (some node)).node? start = some .directory := by
      rw [node?_set_of_ne hne, hdirectory]
    rw [follow_cons_of_directory hdirectory] at h
    rw [follow_cons_of_directory hsame]
    by_cases hidle : name = [] ∨ name = ['.']
    · rw [if_pos hidle] at h ⊢
      exact ih h
    by_cases hup : name = ['.', '.']
    · rw [if_neg hidle, if_pos hup] at h ⊢
      exact ih h
    by_cases hlong : maxNameLength < Text.utf8Length name
    · rw [if_neg hidle, if_neg hup, if_pos hlong] at h
      cases h
    by_cases hnone : (tree.node? (start ++ [name])).isNone
    · rw [if_neg hidle, if_neg hup, if_neg hlong, if_pos hnone] at h
      cases h
    · have hsome : ¬ ((tree.set location (some node)).node? (start ++ [name])).isNone := by
        rw [Option.isNone_iff_eq_none] at hnone ⊢
        exact node?_set_ne_none hnone node
      rw [if_neg hidle, if_neg hup, if_neg hlong, if_neg hnone] at h
      rw [if_neg hidle, if_neg hup, if_neg hlong, if_neg hsome]
      exact ih h

/-! ### Writing -/

/-- Where writing to a path goes: to a name behind a directory to which the rest of the path leads,
and at which there is no directory yet. -/
theorem exists_name_of_target {path : Text} (h : tree.target path = .ok location) :
    ∃ start before directory name, tree.start path = .ok (start, before ++ [name]) ∧
      tree.follow start (before ++ [[]]) = .ok directory ∧
      name ∉ [[], ['.'], ['.', '.']] ∧ Text.utf8Length name ≤ maxNameLength ∧
      location = directory ++ [name] ∧ tree.node? location ≠ some .directory := by
  unfold target at h
  obtain ⟨⟨start, names⟩, hstart, h⟩ := exceptBind_eq_ok_iff.1 h
  simp only at h
  generalize hlast : names.reverse = last at h
  split at h
  · cases h
  rename_i name before hdrop
  obtain ⟨directory, hdirectory, h⟩ := exceptBind_eq_ok_iff.1 h
  split at h
  · cases h
  rename_i hname
  split at h
  · cases h
  rename_i hlong
  split at h
  · cases h
  rename_i hnode
  cases h
  -- The path ends in a name, so there is nothing to drop.
  obtain ⟨hhead, hpoint, hup⟩ : last.head? ≠ some [] ∧ name ≠ ['.'] ∧ name ≠ ['.', '.'] := by
    simpa only [not_or] using hname
  cases last with
  | nil => cases hdrop
  | cons first rest =>
    have hfirst : first ≠ [] := fun heq => hhead (congrArg some heq)
    rw [List.dropWhile_cons_of_neg (by simpa using hfirst)] at hdrop
    cases hdrop
    refine ⟨start, before.reverse, directory, name, ?_, hdirectory, ?_, Nat.le_of_not_lt hlong, rfl,
      hnode⟩
    · rw [hstart, ← List.reverse_reverse names, hlast, List.reverse_cons]
    · simp [hfirst, hpoint, hup]

/-- `after` is `tree` with the text written to the file at the path. That file may have been there
before or not, and reading it gives the text. At every other location there is what was there
before, which may be nothing. -/
structure OnlyWritten (tree : FileTree) (path s : Text) (after : FileTree) : Prop where
  readText_eq : after.readText path = .ok s
  exists_location : ∃ location, tree.target path = .ok location ∧
    after.node? location = some (.file (encodeUtf8 s)) ∧
    ∀ other, other ≠ location → after.node? other = tree.node? other
  here_eq : after.here = tree.here

/-- The path leads to what has been put at its location. -/
theorem readBytes_set {path : Text} (h : tree.target path = .ok location) (content : ByteArray) :
    (tree.set location (some (.file content))).readBytes path = .ok content := by
  obtain ⟨start, before, directory, name, hstart, hdirectory, hname, hlength, rfl, hnode⟩ :=
    exists_name_of_target h
  obtain ⟨hnil, hpoint, hup⟩ : name ≠ [] ∧ name ≠ ['.'] ∧ name ≠ ['.', '.'] := by
    simpa using hname
  have hne : directory ++ [name] ≠ [] := by simp
  generalize hafter : tree.set (directory ++ [name]) (some (.file content)) = after
  have hfound : after.node? (directory ++ [name]) = some (.file content) := by
    rw [← hafter, node?_set_self hne]
  -- The directory is there before and after, and behind it is what has been put there.
  have hbefore : after.follow start (before ++ [[]]) = .ok directory := by
    rw [← hafter]
    exact follow_set hnode _ hdirectory
  rw [follow_append] at hbefore
  obtain ⟨reached, hreached, hlast⟩ := exceptBind_eq_ok_iff.1 hbefore
  have hopen := directory_of_follow_cons hlast
  obtain rfl : reached = directory := by
    rw [follow_cons_of_directory hopen, if_pos (Or.inl rfl)] at hlast
    exact Except.ok.inj hlast
  have hfollow : after.follow start (before ++ [name]) = .ok (reached ++ [name]) := by
    rw [follow_append, hreached]
    show after.follow reached [name] = _
    rw [follow_cons_of_directory hopen, if_neg (by simp [hnil, hpoint]), if_neg hup,
      if_neg (Nat.not_lt.2 hlength), if_neg (by simp [hfound])]
    rfl
  have hsame : after.start path = .ok (start, before ++ [name]) := by
    rw [← hstart, ← hafter]
    rfl
  simp only [readBytes, hsame, hfollow, hfound, bind, Except.bind]
  rfl

theorem onlyWritten_set {path : Text} (h : tree.target path = .ok location) (s : Text) :
    tree.OnlyWritten path s (tree.set location (some (.file (encodeUtf8 s)))) := by
  have hne : location ≠ [] := by
    obtain ⟨_, _, directory, name, -, -, -, -, rfl, -⟩ := exists_name_of_target h
    simp
  refine ⟨?_, ⟨location, h, node?_set_self hne _, fun other hother => ?_⟩, rfl⟩
  · rw [readText, readBytes_set h]
    exact decodeUtf8_encodeUtf8 s
  · exact node?_set_of_ne hother _

/-- Writing fails exactly if there is no place to write to, and it changes nothing but what is found
at the path. -/
theorem decides_write (path s : Text) :
    Decides (tree.OnlyWritten path s) (fun error => tree.target path = .error error)
      (tree.write path s) := by
  have htarget := Decides.self (tree.target path)
  have hwrite := htarget.bind fun location h => Decides.pure (onlyWritten_set h s)
  exact hwrite.congr (fun _ h => h) fun error => or_iff_left id

end FileTree

end MarkerTemplate
