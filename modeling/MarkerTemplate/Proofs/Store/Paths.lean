import MarkerTemplate.Proofs.Files.Names
import MarkerTemplate.Store.Source

/-!
# The files of templates

Which file of a directory a template id stands for. An id that goes down by names leads to a file
below the root, and two ids lead to one file only if one of them spells out the default extension
that the other leaves to the directory.

## Main definitions

- `Directory.WellFormed` — a root that can be extended and an extension that can be part of a name
- `Directory.IsComplete` — the name of a file that is given no further extension

## Design notes

Whether an id has an extension is seen from its last name alone. So a name that begins with a point
and has no other one is given the default extension, and a name that ends in a point is not.
-/

namespace MarkerTemplate

open MarkerTemplate.Path (IsFileName ofNames)

namespace Directory

/-- The root is a path to which a slash and a name can be added, and the default extension can be
part of a name. -/
structure WellFormed (directory : Directory) : Prop where
  root_ne_nil : directory.root ≠ []
  root_end : ¬ ['/'] <:+ directory.root
  slash_notMem_extension : '/' ∉ directory.extension

/-- A name of a file that is given no further extension. -/
def IsComplete (directory : Directory) (name : Text) : Prop :=
  directory.extension = [] ∨ '.' ∈ name.tail

instance (directory : Directory) (name : Text) : Decidable (directory.IsComplete name) :=
  inferInstanceAs (Decidable (directory.extension = [] ∨ '.' ∈ name.tail))

/-- The name of the file for a template whose id has the last name `name`. -/
def fileName (directory : Directory) (name : Text) : Text :=
  if directory.IsComplete name then name else name ++ '.' :: directory.extension

variable {directory : Directory} {folders folders' : List Text} {name name' : Text}

theorem WellFormed.isFileName_fileName (h : directory.WellFormed) (hname : IsFileName name) :
    IsFileName (directory.fileName name) := by
  unfold fileName
  split
  · exact hname
  · rename_i hincomplete
    exact hname.append_extension (fun hnil => hincomplete (Or.inl hnil)) h.slash_notMem_extension

theorem ofNames_fileName (directory : Directory) (folders : List Text) (name : Text) :
    ofNames (folders ++ [directory.fileName name]) =
      if directory.IsComplete name then ofNames (folders ++ [name])
      else ofNames (folders ++ [name]) ++ '.' :: directory.extension := by
  unfold fileName
  split
  · rfl
  · exact Path.ofNames_concat_append folders name _

theorem isComplete_iff (directory : Directory) (folders : List Text) (hname : IsFileName name) :
    ((Path.extension? (ofNames (folders ++ [name]))).isSome || directory.extension.isEmpty) = true ↔
      directory.IsComplete name := by
  rw [Bool.or_eq_true, hname.isSome_extension?_ofNames, List.isEmpty_iff, or_comm]
  rfl

/-- An id that goes down by names is put behind the root, with the name of the file in the place of
its last name. -/
theorem WellFormed.pathFor?_ofNames (h : directory.WellFormed)
    (hnames : ∀ step ∈ folders ++ [name], IsFileName step) :
    directory.pathFor? (ofNames (folders ++ [name])) =
      some (directory.root ++ '/' :: ofNames (folders ++ [directory.fileName name])) := by
  have hname : IsFileName name := hnames name (by simp)
  have hjoin : Path.join directory.root (ofNames (folders ++ [name])) =
      directory.root ++ '/' :: ofNames (folders ++ [name]) :=
    Path.join_eq_append_slash h.root_ne_nil h.root_end (Path.not_slash_isPrefix_ofNames hnames)
  simp only [pathFor?, hjoin, directory.isComplete_iff folders hname, ofNames_fileName]
  by_cases hcomplete : directory.IsComplete name
  · rw [if_pos hcomplete, if_pos hcomplete]
  · have hpoint : '.' ∉ name.tail := fun hmem => hcomplete (Or.inr hmem)
    have hslash : ¬ directory.extension.contains '/' = true := by
      simpa using h.slash_notMem_extension
    -- The extension is put on the last name, which stands behind the last slash of the whole.
    have hlast : directory.root ++ '/' :: ofNames (folders ++ [name]) =
        (directory.root ++ folders.flatMap (['/'] ++ ·)) ++ '/' :: name := by
      rw [Path.slash_cons_ofNames (List.append_ne_nil_of_right_ne_nil folders (by simp)),
        List.flatMap_append, List.append_assoc]
      simp
    rw [if_neg hcomplete, if_neg hcomplete, if_neg hslash, hlast,
      hname.withExtension_append_slash hpoint, ← hlast]
    simp

/-- The segments of the path are those of the root and then names. -/
theorem WellFormed.splitAll_path (h : directory.WellFormed)
    (hnames : ∀ step ∈ folders ++ [name], IsFileName step) :
    Text.splitAll ['/'] (directory.root ++ '/' :: ofNames (folders ++ [directory.fileName name])) =
      ⟨(Text.splitAll ['/'] directory.root).first,
        (Text.splitAll ['/'] directory.root).later ++ (folders ++ [directory.fileName name])⟩ := by
  obtain ⟨hfolders, hname⟩ := List.forall_mem_append.1 hnames
  have hfile := h.isFileName_fileName (List.forall_mem_singleton.1 hname)
  rw [Path.slash_cons_ofNames (List.append_ne_nil_of_right_ne_nil folders (by simp))]
  refine Path.splitAll_append_flatMap directory.root (List.forall_mem_append.2 ⟨?_, ?_⟩)
  · exact fun folder hfolder => (hfolders folder hfolder).slash_notMem
  · exact List.forall_mem_singleton.2 hfile.slash_notMem

/-! ### Ids with one file -/

/-- An id that spells out the default extension is given no other one. -/
theorem WellFormed.isComplete_of_eq_append (h : directory.WellFormed)
    (hnames : ∀ step ∈ folders ++ [name], IsFileName step)
    (hnames' : ∀ step ∈ folders' ++ [name'], IsFileName step)
    (heq : ofNames (folders' ++ [name']) =
      ofNames (folders ++ [name]) ++ '.' :: directory.extension) :
    directory.IsComplete name' := by
  obtain ⟨hfolders, hname⟩ := List.forall_mem_append.1 hnames
  have hlast : IsFileName name := List.forall_mem_singleton.1 hname
  rw [← Path.ofNames_concat_append] at heq
  obtain ⟨-, rfl⟩ := Path.ofNames_concat_inj (fun step hstep => (hnames' step hstep).slash_notMem)
    (List.forall_mem_append.2 ⟨fun folder hfolder => (hfolders folder hfolder).slash_notMem,
      List.forall_mem_singleton.2 (by simp [hlast.slash_notMem, h.slash_notMem_extension])⟩) heq
  obtain ⟨c, rest, rfl⟩ := List.exists_cons_of_ne_nil hlast.ne_nil
  exact Or.inr (by simp)

theorem WellFormed.pathFor?_eq_iff (h : directory.WellFormed)
    (hnames : ∀ step ∈ folders ++ [name], IsFileName step)
    (hnames' : ∀ step ∈ folders' ++ [name'], IsFileName step) :
    directory.pathFor? (ofNames (folders ++ [name])) =
        directory.pathFor? (ofNames (folders' ++ [name'])) ↔
      ofNames (folders ++ [name]) = ofNames (folders' ++ [name']) ∨
        (¬ directory.IsComplete name ∧
          ofNames (folders' ++ [name']) =
            ofNames (folders ++ [name]) ++ '.' :: directory.extension) ∨
        (¬ directory.IsComplete name' ∧
          ofNames (folders ++ [name]) =
            ofNames (folders' ++ [name']) ++ '.' :: directory.extension) := by
  rw [h.pathFor?_ofNames hnames, h.pathFor?_ofNames hnames', Option.some.injEq,
    List.append_right_inj, List.cons_inj_right, ofNames_fileName, ofNames_fileName]
  constructor
  · intro heq
    by_cases hname : directory.IsComplete name <;> by_cases hname' : directory.IsComplete name'
    · rw [if_pos hname, if_pos hname'] at heq
      exact Or.inl heq
    · rw [if_pos hname, if_neg hname'] at heq
      exact Or.inr (Or.inr ⟨hname', heq⟩)
    · rw [if_neg hname, if_pos hname'] at heq
      exact Or.inr (Or.inl ⟨hname, heq.symm⟩)
    · rw [if_neg hname, if_neg hname'] at heq
      exact Or.inl (List.append_cancel_right heq)
  · rintro (heq | ⟨hname, heq⟩ | ⟨hname', heq⟩)
    · obtain ⟨rfl, rfl⟩ := Path.ofNames_concat_inj
        (fun step hstep => (hnames step hstep).slash_notMem)
        (fun step hstep => (hnames' step hstep).slash_notMem) heq
      rfl
    · rw [if_neg hname, if_pos (h.isComplete_of_eq_append hnames hnames' heq), heq]
    · rw [if_pos (h.isComplete_of_eq_append hnames' hnames heq), if_neg hname', heq]

/-- Where the templates of a directory are. An id that goes down by names stands for the path behind
the root, with the default extension unless that is empty or the last name has a point behind its
first character. So the path is the root and then names only. Two ids have one path exactly if they
are the same, or one of them is the other with the default extension, which the directory adds. -/
theorem pathFor?_below_root (h : directory.WellFormed)
    (hnames : ∀ step ∈ folders ++ [name], IsFileName step) :
    let id := ofNames (folders ++ [name])
    directory.pathFor? id = some (directory.root ++ '/' ::
        if directory.IsComplete name then id else id ++ '.' :: directory.extension) ∧
      (∃ file path, IsFileName file ∧ directory.pathFor? id = some path ∧
        Text.splitAll ['/'] path = ⟨(Text.splitAll ['/'] directory.root).first,
          (Text.splitAll ['/'] directory.root).later ++ (folders ++ [file])⟩) ∧
      ∀ folders' name', (∀ step ∈ folders' ++ [name'], IsFileName step) →
        let id' := ofNames (folders' ++ [name'])
        (directory.pathFor? id = directory.pathFor? id' ↔
          id = id' ∨
            (¬ directory.IsComplete name ∧ id' = id ++ '.' :: directory.extension) ∨
            (¬ directory.IsComplete name' ∧ id = id' ++ '.' :: directory.extension)) := by
  intro id
  have hpath := h.pathFor?_ofNames hnames
  have hfile := h.isFileName_fileName (hnames name (by simp))
  refine ⟨?_, ⟨directory.fileName name, _, hfile, hpath, h.splitAll_path hnames⟩, ?_⟩
  · rw [hpath, ofNames_fileName]
  · intro folders' name' hnames'
    exact h.pathFor?_eq_iff hnames hnames'

/-- A name that begins with a point, in a directory whose name has a point. -/
theorem pathFor?_below_root_hiddenMenu :
    let directory : Directory := ⟨"t//x".toList, "html".toList⟩
    directory.WellFormed ∧
      (∀ step ∈ ["a.b".toList] ++ [".menu".toList], IsFileName step) ∧
      directory.pathFor? "a.b/.menu".toList = some "t//x/a.b/.menu.html".toList ∧
      directory.pathFor? "a.b/.menu".toList = directory.pathFor? "a.b/.menu.html".toList := by
  intro directory
  have hformed : directory.WellFormed := ⟨by decide, by decide, by decide⟩
  have hnames : ∀ step ∈ ["a.b".toList] ++ [".menu".toList], IsFileName step := by decide
  have hnames' : ∀ step ∈ ["a.b".toList] ++ [".menu.html".toList], IsFileName step := by decide
  obtain ⟨hpath, -, hcollide⟩ := pathFor?_below_root hformed hnames
  refine ⟨hformed, hnames, hpath, (hcollide _ _ hnames').2 (Or.inr (Or.inl ⟨by decide, rfl⟩))⟩

end Directory

end MarkerTemplate
