import Mathlib.Tactic.MkIffOfInductiveProp
import MarkerTemplate.Command.Run
import MarkerTemplate.Proofs.Except
import MarkerTemplate.Proofs.Merge.Waiting

/-!
# What a command reads

The data in a file and the variables of a command, told from the files alone, and what can be wrong
with them.

## Main definitions

- `FileTree.HoldsJson` and `FileTree.DataFault` — the data in a file, and why there may be none
- `FileTree.ItemsFault` — why there may be no collection
- `Settings.Loads` and `Settings.Binds` — the variables in the file for them, and those with the
  assignments
- `Settings.Fault` — why a command may have no variables

## Design notes

None of this says in which order files are read or assignments are looked at. Reading agrees with it
all the same: each `decides` lemma says that one function of the command succeeds exactly if nothing
is wrong with what it reads.
-/

namespace MarkerTemplate

/-! ### Data in files -/

/-- The text of the file at the path is JSON, and it stands for `json`. -/
def FileTree.HoldsJson (files : FileTree) (path : Text) (json : Json) : Prop :=
  ∃ s, files.readText path = .ok s ∧ Json.read s = .ok json

/-- There is no data in the file at the path, because it cannot be read or is not JSON. -/
@[mk_iff]
inductive FileTree.DataFault (files : FileTree) (path : Text) : CommandError → Prop
  | unreadable {error : FileError} : files.readText path = .error error →
      DataFault files path (.data path error)
  | notJson {s : Text} {error : Json.ReadError} : files.readText path = .ok s →
      Json.read s = .error error → DataFault files path (.notJson path error)

section Reading

variable {files : FileTree} {path : Text}

/-- A file holds no other data than its own. -/
theorem FileTree.HoldsJson.iff_eq {json other : Json} (h : files.HoldsJson path json) :
    files.HoldsJson path other ↔ other = json := by
  refine ⟨fun hother => ?_, fun heq => heq ▸ h⟩
  obtain ⟨s, hs, hjson⟩ := h
  obtain ⟨s', hs', hjson'⟩ := hother
  rw [hs] at hs'
  cases hs'
  rw [hjson] at hjson'
  exact (Except.ok.inj hjson').symm

theorem decides_template (files : FileTree) (path : Text) :
    Decides (fun raw => files.readText path = .ok raw)
      (fun error => ∃ e, files.readText path = .error e ∧ error = CommandError.template path e)
      (FileReader.template files.readBytes path) :=
  (Decides.self (files.readText path)).mapError (CommandError.template path)

theorem decides_data (files : FileTree) (path : Text) :
    Decides (files.HoldsJson path) (files.DataFault path)
      (FileReader.data files.readBytes path) := by
  show Decides _ _ ((files.readText path).mapError (CommandError.data path) >>= fun s =>
    (Json.read s).mapError (CommandError.notJson path))
  cases hs : files.readText path with
  | error e => exact .error (.unreadable hs)
  | ok s =>
    show Decides _ _ ((Json.read s).mapError (CommandError.notJson path))
    cases hjson : Json.read s with
    | error e => exact .error (.notJson hs hjson)
    | ok json =>
      refine .ok ⟨s, hs, hjson⟩ fun error hfault => ?_
      cases hfault with
      | unreadable h =>
        rw [hs] at h
        cases h
      | notJson h h' =>
        rw [hs] at h
        cases h
        rw [hjson] at h'
        cases h'

/-- What is made of the data in a file can only fail for that data, or because there is none. -/
theorem decides_data_bind {α : Type} {good : α → Prop} {bad : Json → CommandError → Prop}
    {f : Json → Except CommandError α}
    (h : ∀ json, files.HoldsJson path json → Decides good (bad json) (f json)) :
    Decides good
      (fun error => files.DataFault path error ∨
        ∃ json, files.HoldsJson path json ∧ bad json error)
      (FileReader.data files.readBytes path >>= f) := by
  refine (decides_data files path).bind fun json hjson => ?_
  refine (h json hjson).congr (fun _ hgood => hgood) fun error => ?_
  simp only [hjson.iff_eq, exists_eq_left]

end Reading

/-! ### Items -/

/-- The file for the items has no data, or it has data that is neither an array nor an object. -/
@[mk_iff]
inductive FileTree.ItemsFault (files : FileTree) (path : Text) : CommandError → Prop
  | data {error : CommandError} : files.DataFault path error → ItemsFault files path error
  | notACollection {json : Json} : files.HoldsJson path json → json.kind ≠ .array →
      json.kind ≠ .object → ItemsFault files path (.notACollection path)

theorem Collection.ofJson?_eq_none_iff {json : Json} :
    Collection.ofJson? json = none ↔ json.kind ≠ .array ∧ json.kind ≠ .object := by
  cases json <;> simp [ofJson?, Json.kind]

theorem decides_collection (files : FileTree) (path : Text) :
    Decides
      (fun collection => ∃ json, files.HoldsJson path json ∧
        Collection.ofJson? json = some collection)
      (files.ItemsFault path) (FileReader.collection files.readBytes path) := by
  have hfault : ∀ error,
      (files.DataFault path error ∨ ∃ json, files.HoldsJson path json ∧
        Collection.ofJson? json = none ∧ error = CommandError.notACollection path) ↔
          files.ItemsFault path error := by
    intro error
    simp only [FileTree.itemsFault_iff, Collection.ofJson?_eq_none_iff, and_assoc]
  refine Decides.congr (decides_data_bind fun json hjson => ?_) (fun _ h => h) hfault
  simp only [hjson.iff_eq, exists_eq_left]
  cases Collection.ofJson? json with
  | none => exact .error ⟨rfl, rfl⟩
  | some collection => exact .ok rfl fun _ hbad => nomatch hbad.1

/-! ### Variables -/

theorem Assignment.ne_supplied_of_read {s : Text} {entry : Text × Value}
    (h : Assignment.read s = .ok entry) (supplier : Supplier) : entry.2 ≠ .supplied supplier := by
  unfold Assignment.read at h
  split at h
  · cases h
  split at h
  · cases h
  cases h
  unfold Assignment.value
  split
  · exact Value.ofJson_ne_supplied _ supplier
  · exact Value.noConfusion

namespace Settings

/-- The variables that the file for them gives: the members of its object, or the leaves of the
object if it is to be flattened. Without such a file there are none. -/
inductive Loads (settings : Settings) (files : FileTree) : Variables → Prop
  | nothing : settings.vars = none → Loads settings files .empty
  | object {path : Text} {members : List (Text × Json)} : settings.vars = some path →
      files.HoldsJson path (.object members) → Loads settings files
        (.ofMembers (if settings.flatten then Variables.leavesOf [] members else members))

/-- The file for the variables has no data, or it has data that is no object. -/
@[mk_iff]
inductive LoadFault (settings : Settings) (files : FileTree) : CommandError → Prop
  | data {path : Text} {error : CommandError} : settings.vars = some path →
      files.DataFault path error → LoadFault settings files error
  | notVariables {path : Text} {json : Json} : settings.vars = some path →
      files.HoldsJson path json → json.kind ≠ .object →
      LoadFault settings files (.notVariables path (.notAnObject json.kind))

/-- The variables of a command: those of the file, and then the assignments in their order. -/
def Binds (settings : Settings) (files : FileTree) (vars : Variables) : Prop :=
  ∃ loaded assigned, settings.Loads files loaded ∧
    List.Forall₂ (fun s entry => Assignment.read s = .ok entry) settings.assignments assigned ∧
    vars = loaded.insertAll assigned

/-- One of the texts is no assignment. -/
def AssignmentFault (assignments : List Text) (error : CommandError) : Prop :=
  ∃ s ∈ assignments, ∃ e, Assignment.read s = .error e ∧ error = .assignment e

/-- The command has no variables: something is wrong with the file for them or with an
assignment. -/
def Fault (settings : Settings) (files : FileTree) (error : CommandError) : Prop :=
  settings.LoadFault files error ∨ AssignmentFault settings.assignments error

section Variables

variable {settings : Settings} {files : FileTree}

/-- Taking variables off data, whole or flattened, fails exactly if the data is no object. -/
theorem decides_variables (flatten : Bool) (json : Json) :
    Decides
      (fun vars => ∃ members, json = .object members ∧
        vars = .ofMembers (if flatten then Variables.leavesOf [] members else members))
      (fun error => json.kind ≠ .object ∧ error = .notAnObject json.kind)
      (if flatten then Variables.ofJsonFlattened json else Variables.ofJson json) := by
  cases json with
  | object members =>
    cases flatten <;> exact .ok ⟨members, rfl, rfl⟩ fun _ hbad => hbad.1 rfl
  | null | bool _ | number _ | string _ | array _ =>
    cases flatten <;> exact .error ⟨Json.Kind.noConfusion, rfl⟩

theorem decides_fileVariables (settings : Settings) (files : FileTree) :
    Decides (settings.Loads files) (settings.LoadFault files)
      (settings.fileVariables files.readBytes) := by
  unfold fileVariables
  cases hvars : settings.vars with
  | none =>
    refine .ok (.nothing hvars) fun error hfault => ?_
    simp only [loadFault_iff, hvars, reduceCtorEq, false_and, exists_false, or_self] at hfault
  | some path =>
    have htaken : ∀ json, files.HoldsJson path json →
        Decides (settings.Loads files)
          (fun error => json.kind ≠ .object ∧
            error = CommandError.notVariables path (.notAnObject json.kind))
          ((if settings.flatten then Variables.ofJsonFlattened json
            else Variables.ofJson json).mapError (CommandError.notVariables path)) := by
      intro json hjson
      have hvariables := (decides_variables settings.flatten json).mapError
        (CommandError.notVariables path)
      refine hvariables.congr ?_ fun error => ?_
      · rintro _ ⟨members, rfl, rfl⟩
        exact .object hvars hjson
      · simp only [and_assoc, exists_and_left, exists_eq_left]
    refine (decides_data_bind htaken).congr (fun _ h => h) fun error => ?_
    simp only [loadFault_iff, hvars, Option.some.injEq, exists_eq_left', exists_and_left]

theorem decides_assign (assignments : List Text) (vars : Variables) :
    Decides
      (fun result => ∃ assigned,
        List.Forall₂ (fun s entry => Assignment.read s = .ok entry) assignments assigned ∧
          result = vars.insertAll assigned)
      (AssignmentFault assignments) (assign assignments vars) := by
  induction assignments generalizing vars with
  | nil => exact .ok ⟨[], .nil, rfl⟩ fun _ ⟨_, hmem, _⟩ => nomatch hmem
  | cons s assignments ih =>
    have hread := (Decides.self (Assignment.read s)).mapError CommandError.assignment
    have hrest : ∀ entry, Assignment.read s = .ok entry →
        Decides
          (fun result => ∃ assigned,
            List.Forall₂ (fun s entry => Assignment.read s = .ok entry) (s :: assignments)
              assigned ∧ result = vars.insertAll assigned)
          (AssignmentFault assignments) (assign assignments (vars.insert entry.1 entry.2)) := by
      intro entry hentry
      refine (ih (vars.insert entry.1 entry.2)).congr ?_ fun _ => Iff.rfl
      rintro _ ⟨assigned, hassigned, rfl⟩
      exact ⟨entry :: assigned, .cons hentry hassigned, rfl⟩
    refine (hread.bind hrest).congr (fun _ h => h) fun error => ?_
    simp only [AssignmentFault, List.mem_cons, exists_eq_or_imp]

/-- A command has its variables, or something is wrong with the file for them or with one of the
assignments. -/
theorem decides_bindings (settings : Settings) (files : FileTree) :
    Decides (settings.Binds files) (settings.Fault files)
      (settings.bindings files.readBytes) := by
  refine (decides_fileVariables settings files).bind fun loaded hloaded => ?_
  refine (decides_assign settings.assignments loaded).congr ?_ fun _ => Iff.rfl
  rintro vars ⟨assigned, hassigned, heq⟩
  exact ⟨loaded, assigned, hloaded, hassigned, heq⟩

/-! ### One mapping without suppliers -/

theorem Loads.unique {vars vars' : Variables} (h : settings.Loads files vars)
    (h' : settings.Loads files vars') : vars = vars' := by
  cases h with
  | nothing hnone =>
    cases h' with
    | nothing _ => rfl
    | object hpath _ => exact absurd (hnone.symm.trans hpath) (Option.some_ne_none _).symm
  | object hpath hjson =>
    cases h' with
    | nothing hnone => exact absurd (hnone.symm.trans hpath) (Option.some_ne_none _).symm
    | object hpath' hjson' =>
      obtain rfl := Option.some.inj (hpath.symm.trans hpath')
      cases hjson.iff_eq.1 hjson'
      rfl

theorem Binds.unique {vars vars' : Variables} (h : settings.Binds files vars)
    (h' : settings.Binds files vars') : vars = vars' := by
  obtain ⟨loaded, assigned, hloaded, hassigned, rfl⟩ := h
  obtain ⟨loaded', assigned', hloaded', hassigned', rfl⟩ := h'
  have hread : Relator.RightUnique fun s entry => Assignment.read s = .ok entry :=
    fun s entry entry' hentry hentry' => Except.ok.inj (hentry.symm.trans hentry')
  rw [hloaded.unique hloaded', hread.forall₂ hassigned hassigned']

theorem Loads.ne_supplied {vars : Variables} (h : settings.Loads files vars) :
    ∀ entry ∈ vars.entries, ∀ supplier, entry.2 ≠ .supplied supplier := by
  cases h with
  | nothing _ => exact fun _ hentry => nomatch hentry
  | object _ _ => exact Variables.ofMembers_ne_supplied _

/-- No file and no assignment gives a function, so nothing is ever waited for. -/
theorem Binds.finishing {vars : Variables} (h : settings.Binds files vars) : vars.Finishing := by
  obtain ⟨loaded, assigned, hloaded, hassigned, rfl⟩ := h
  refine Variables.finishing_of_ne_supplied fun entry hentry => ?_
  rcases OrderedMap.mem_entries_insertAll hentry with hentry | hentry
  · obtain ⟨s, -, hread⟩ := OrderedMap.exists_of_mem_forall₂ hassigned.flip hentry
    exact Assignment.ne_supplied_of_read hread
  · exact hloaded.ne_supplied entry hentry

end Variables

end Settings

end MarkerTemplate
