import MarkerTemplate.Proofs.Command.Inputs
import MarkerTemplate.Proofs.Files.Path
import MarkerTemplate.Proofs.Files.Tree

/-!
# Commands do all or nothing

A command that fails changes no file and prints nothing. One that succeeds puts its whole text, made
of the files as they were, either on the standard output or into one file.

## Main definitions

- `Command.Makes` — the text that a command makes of the files
- `Command.InputFault` and `Command.OutputFault` — why it may have no text, and why it may have no
  place for it

## Design notes

A fault is something wrong with the files or the arguments. It is there whether or not the command
comes so far as to notice it, and a command fails exactly if it has a fault. Of several faults it
reports one.
-/

namespace MarkerTemplate

/-! ### The text of a command -/

/-- The value of a computation that comes to a text. -/
theorem result_eq_settledText {x : Effect Text} (h : ∃ t, (x []).result = some t) :
    (x []).result = some (settledText x) := by
  obtain ⟨t, ht⟩ := h
  rw [settledText, ht]
  rfl

namespace Command

/-- The text that a command makes of the files. -/
inductive Makes (files : FileTree) : Command → Text → Prop
  | render {settings : Settings} {raw : Text} {vars : Variables} {s : Text} :
      files.readText settings.template = .ok raw → settings.Binds files vars →
      (merge raw vars settings.spacer []).result = some s → Makes files (.render settings) s
  | each {items : Text} {settings : Settings} {raw : Text} {json : Json}
      {collection : Collection} {vars : Variables} {s : Text} :
      files.readText settings.template = .ok raw → files.HoldsJson items json →
      Collection.ofJson? json = some collection → settings.Binds files vars →
      (renderCollection raw collection vars settings.spacer []).result = some s →
      Makes files (.each items settings) s
  | blocks {settings : Settings} {raw : Text} {vars : Variables} {blocks : OrderedMap Block} :
      files.readText settings.template = .ok raw → settings.Binds files vars →
      extractBlocks (expandShorthand raw) vars settings.spacer = blocks →
      Makes files (.blocks settings)
        ((Json.array (blocks.entries.map (·.2.toJson))).writeIndented ++ ['\n'])

/-- The command has no text: its template cannot be read, or something is wrong with its items or
its variables. -/
@[mk_iff]
inductive InputFault (files : FileTree) (command : Command) : CommandError → Prop
  | template {error : FileError} : files.readText command.settings.template = .error error →
      InputFault files command (.template command.settings.template error)
  | items {items : Text} {settings : Settings} {error : CommandError} :
      command = .each items settings → files.ItemsFault items error →
      InputFault files command error
  | variables {error : CommandError} : command.settings.Fault files error →
      InputFault files command error

/-- The command is to write to a file, and the file cannot be opened. -/
inductive OutputFault (files : FileTree) (command : Command) : CommandError → Prop
  | target {path : Text} {error : FileError} : command.settings.output = some path →
      ¬ Path.IsDash path → files.target path = .error error →
      OutputFault files command (.output path error)

/-- Something is wrong with what the command reads or with the place for its text. -/
def Fault (files : FileTree) (command : Command) (error : CommandError) : Prop :=
  command.InputFault files error ∨ command.OutputFault files error

variable {files : FileTree} {command : Command}

theorem Makes.unique {s t : Text} (h : command.Makes files s) (h' : command.Makes files t) :
    s = t := by
  cases h with
  | render hraw hvars hs =>
    cases h' with
    | render hraw' hvars' ht =>
      cases hraw.symm.trans hraw'
      cases hvars.unique hvars'
      exact Option.some.inj (hs.symm.trans ht)
  | each hraw hjson hcollection hvars hs =>
    cases h' with
    | each hraw' hjson' hcollection' hvars' ht =>
      cases hraw.symm.trans hraw'
      cases hjson.iff_eq.1 hjson'
      cases hcollection.symm.trans hcollection'
      cases hvars.unique hvars'
      exact Option.some.inj (hs.symm.trans ht)
  | blocks hraw hvars hblocks =>
    cases h' with
    | blocks hraw' hvars' hblocks' =>
      cases hraw.symm.trans hraw'
      cases hvars.unique hvars'
      cases hblocks.symm.trans hblocks'
      rfl

/-! ### What the text is made of -/

theorem decides_result (command : Command) (files : FileTree) :
    Decides (command.Makes files) (command.InputFault files)
      (command.result files.readBytes) := by
  cases command with
  | render settings =>
    have hresult := (decides_template files settings.template).bind fun raw hraw =>
      (settings.decides_bindings files).bind fun vars hvars =>
        Decides.pure (Makes.render hraw hvars (result_eq_settledText
          (exists_result_merge hvars.finishing raw settings.spacer [])))
    refine hresult.congr (fun _ h => h) fun error => ?_
    simp only [inputFault_iff, reduceCtorEq, false_and, exists_false, false_or, or_false]
    rfl
  | each items settings =>
    have hresult := (decides_template files settings.template).bind fun raw hraw =>
      (decides_collection files items).bind fun collection ⟨json, hjson, hcollection⟩ =>
        (settings.decides_bindings files).bind fun vars hvars =>
          Decides.pure (Makes.each hraw hjson hcollection hvars (result_eq_settledText
            (exists_result_renderCollection hvars.finishing
              (Collection.finishing_of_ofJson? hcollection) raw settings.spacer [])))
    refine hresult.congr (fun _ h => h) fun error => ?_
    simp only [inputFault_iff, Command.each.injEq, and_assoc, exists_and_left, exists_eq_left',
      or_false]
    rfl
  | blocks settings =>
    have hresult := (decides_template files settings.template).bind fun raw hraw =>
      (settings.decides_bindings files).bind fun vars hvars =>
        Decides.pure (Makes.blocks hraw hvars rfl)
    refine hresult.congr (fun _ h => h) fun error => ?_
    simp only [inputFault_iff, reduceCtorEq, false_and, exists_false, false_or, or_false]
    rfl

/-! ### Where the text goes -/

theorem outputPath?_eq_some_iff {path : Text} :
    command.outputPath? = some path ↔
      command.settings.output = some path ∧ ¬ Path.IsDash path := by
  rw [outputPath?, Option.filter_eq_some_iff, Bool.not_eq_true', ← Path.isStandardStream_iff,
    Bool.not_eq_true]

theorem outputPath?_eq_none_iff :
    command.outputPath? = none ↔
      ∀ path, command.settings.output = some path → Path.IsDash path := by
  constructor
  · intro hnone path hpath
    by_contra hdash
    have hsome := outputPath?_eq_some_iff.2 ⟨hpath, hdash⟩
    exact absurd (hnone.symm.trans hsome) (Option.some_ne_none path).symm
  · intro h
    rw [Option.eq_none_iff_forall_ne_some]
    intro path hpath
    obtain ⟨houtput, hdash⟩ := outputPath?_eq_some_iff.1 hpath
    exact hdash (h path houtput)

section Deliver

variable {path s : Text}

theorem deliver_of_none (h : command.outputPath? = none) :
    command.deliver s files = ⟨none, s, files⟩ := by
  simp only [deliver, h]

theorem deliver_of_write_error {error : FileError} (h : command.outputPath? = some path)
    (hwrite : files.write path s = .error error) :
    command.deliver s files = ⟨some (.output path error), [], files⟩ := by
  simp only [deliver, h, hwrite]

theorem deliver_of_write_ok {after : FileTree} (h : command.outputPath? = some path)
    (hwrite : files.write path s = .ok after) :
    command.deliver s files = ⟨none, [], after⟩ := by
  simp only [deliver, h, hwrite]

end Deliver

/-- Delivering a text fails, and changes nothing, if it is for a file that cannot be opened. Else
the text is printed and no file changes, or nothing is printed and one file changes. -/
theorem deliver_cases (command : Command) (s : Text) (files : FileTree) :
    (∃ error, command.OutputFault files error ∧
        command.deliver s files = ⟨some error, [], files⟩) ∨
      (∀ error, ¬ command.OutputFault files error) ∧
        ((∀ path, command.settings.output = some path → Path.IsDash path) ∧
            command.deliver s files = ⟨none, s, files⟩ ∨
          ∃ path after, command.settings.output = some path ∧ ¬ Path.IsDash path ∧
            command.deliver s files = ⟨none, [], after⟩ ∧ files.OnlyWritten path s after) := by
  cases hpath : command.outputPath? with
  | none =>
    have hdash := outputPath?_eq_none_iff.1 hpath
    refine Or.inr ⟨?_, Or.inl ⟨hdash, deliver_of_none hpath⟩⟩
    rintro _ ⟨houtput, hfile, -⟩
    exact hfile (hdash _ houtput)
  | some path =>
    obtain ⟨houtput, hfile⟩ := outputPath?_eq_some_iff.1 hpath
    have hdecides := files.decides_write path s
    cases hwrite : files.write path s with
    | error error =>
      rw [hwrite] at hdecides
      cases hdecides with
      | error htarget =>
        exact Or.inl ⟨_, .target houtput hfile htarget, deliver_of_write_error hpath hwrite⟩
    | ok after =>
      rw [hwrite] at hdecides
      cases hdecides with
      | ok hafter htarget =>
        refine Or.inr ⟨?_, Or.inr ⟨path, after, houtput, hfile,
          deliver_of_write_ok hpath hwrite, hafter⟩⟩
        rintro _ ⟨houtput', -, hblocked⟩
        cases houtput.symm.trans houtput'
        exact htarget _ hblocked

/-- A command does all or nothing. It fails if something is wrong with any of its files or
assignments or with its output, and only then; no file has changed by then, and nothing has been
printed. Otherwise its text, which the files as they were alone decide, is printed and no file
changes, or it is the content of the file for the output, nothing is printed and no other file
changes. This is so also if that file is one of those that have been read. -/
theorem run_allOrNothing (command : Command) (files : FileTree) :
    (∃ error, command.Fault files error ∧ command.run files = ⟨some error, [], files⟩) ∨
      (∀ error, ¬ command.Fault files error) ∧ ∃ s, (∀ t, command.Makes files t ↔ t = s) ∧
        ((∀ path, command.settings.output = some path → Path.IsDash path) ∧
            command.run files = ⟨none, s, files⟩ ∨
          ∃ path after, command.settings.output = some path ∧ ¬ Path.IsDash path ∧
            command.run files = ⟨none, [], after⟩ ∧ files.OnlyWritten path s after) := by
  have hresult := decides_result command files
  unfold run
  generalize command.result files.readBytes = result at hresult ⊢
  cases hresult with
  | error hfault => exact Or.inl ⟨_, Or.inl hfault, rfl⟩
  | @ok s hmakes hinput =>
    have hunique : ∀ t, command.Makes files t ↔ t = s :=
      fun t => ⟨fun ht => ht.unique hmakes, fun heq => heq ▸ hmakes⟩
    rcases deliver_cases command s files with ⟨error, hfault, hfailed⟩ | ⟨houtput, hdelivered⟩
    · exact Or.inl ⟨error, Or.inr hfault, hfailed⟩
    · have hnone : ∀ error, ¬ command.Fault files error :=
        fun error hfault => hfault.elim (hinput error) (houtput error)
      exact Or.inr ⟨hnone, s, hunique, hdelivered⟩

/-- The output may be the template itself. -/
example :
    let files := (FileTree.bare []).plant [['t']] (.file (encodeUtf8 "{a}".toList))
    let command := Command.render ⟨['t'], none, false, ["a=1".toList], [], some ['t']⟩
    (command.run files).files.readText ['t'] = .ok ['1'] := by
  rfl

end Command

end MarkerTemplate
