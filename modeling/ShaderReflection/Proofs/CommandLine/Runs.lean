import ShaderReflection.Proofs.CommandLine.Files

/-!
# What a run does to the files

A run changes the content of one file at most. This is the report on the input, under a name that
the input does not have. If the host neither stops in the middle of writing a file nor refuses what
is printed, then only a run that ends well has changed anything. A run that is asked for a report
does end well, and leaves it, if there is room for it and the host does its part
(`run_saves_report_only`).
-/

namespace ShaderReflection.CommandLine

open ShaderReflection.Reflection FileStore

variable {host : Host} {store : FileStore} {arguments : List String}

/-! ## Names of reports -/

/-- A report on an input, its text, and the directory for it. -/
structure Saving where
  input : Path
  directory : Path
  model : Model
  text : String

namespace Saving

variable {saving : Saving}

def path (saving : Saving) : Path := saving.directory.child (reportName saving.input)

def content (saving : Saving) : ByteArray := saving.text.toUTF8

def effect (saving : Saving) : Effect :=
  .save saving.directory (reportName saving.input) saving.text

/-- The arguments ask for a report to be saved, the input can be read and reflected, and the report
can be written out. -/
structure Asked (saving : Saving) (store : FileStore) (arguments : List String) : Prop where
  options : ∃ options text, readArguments arguments = .ok (.run options) ∧
    options.standardOutput = false ∧ options.dumpTree = false ∧
    options.input = some text ∧ saving.input = Path.ofString text ∧
    saving.directory = (options.outputDirectory.map Path.ofString).getD saving.input.parent
  report : ∃ source, store.readText saving.input = .ok source ∧
    reflect source = .ok saving.model ∧ saving.model.report saving.input.name = .ok saving.text

/-- The files have room for a report, and the host does all that saving it needs. -/
structure Granted (saving : Saving) (host : Host) (store : FileStore) : Prop where
  answers : ∀ access, host.refuses access (store.placeOf saving.input) = false
  made : (store.makeDirectory (host.refuses .make) saving.directory).2 = none
  room : ∃ place,
    (store.makeDirectory (host.refuses .make) saving.directory).1.target saving.path = .ok place
  allows : host.refuses .write (store.placeOf saving.path) = false
  keeps : host.cutoff (store.placeOf saving.path) = none
  takes : host.takes .output (savedNote saving.directory (reportName saving.input)) = true

/-- What a report is like when a run ends: it is all there, or its writing was cut off, or it is all
there but the note on it was not taken. -/
inductive IsLeft (saving : Saving) (host : Host) (store : FileStore) : Ending → ByteArray → Prop
  | whole : IsLeft saving host store (.exit 0) saving.content
  | cut (cause : Breakage) (count : Nat)
      (isCut : host.cutoff (store.placeOf saving.path) = some count) :
      IsLeft saving host store (.broken cause) (saving.content.extract 0 count)
  | untold (cause : Breakage)
      (notTaken :
        host.takes .output (savedNote saving.directory (reportName saving.input)) = false) :
      IsLeft saving host store (.broken cause) saving.content

end Saving

/-! ## Runs that save nothing -/

theorem readText_eq_error_of_contains {path : Path} {fault : FileFault}
    (isFault : store.contains path = .error fault) :
    ∃ other, store.readText path = .error other := by
  unfold contains at isFault
  split at isFault
  · cases isFault
  · rename_i other notFound
    refine ⟨other, ?_⟩
    rw [readText, FileStore.read, notFound]
    rfl

section Sessions

variable {world : World}

/-- A question about the files is answered by them, or the run breaks off because they have no
answer or because the host does not give it. -/
theorem run_ask {α : Type} (host : Host) (world : World) (access : Access) (path : Path)
    (answer : FileStore → Except FileFault α) (next : α → Session Nat) :
    (∃ cause, (host.ask access path answer >>= next).run world = .error cause world ∧
      ((∃ fault, answer world.store = .error fault) ∨
        host.refuses access (world.store.placeOf path) = true)) ∨
      ∃ value, answer world.store = .ok value ∧
        (host.ask access path answer >>= next).run world = (next value).run world := by
  change
    (∃ cause, EStateM.bind (host.ask access path answer) next world = .error cause world ∧ _) ∨
    ∃ value, answer world.store = .ok value ∧
      EStateM.bind (host.ask access path answer) next world = (next value).run world
  rw [EStateM.bind, Host.ask]
  cases isAnswer : answer world.store with
  | error fault => exact .inl ⟨_, rfl, .inl ⟨fault, rfl⟩⟩
  | ok value =>
      by_cases isRefused : host.refuses access (world.store.placeOf path) = true
      · simp only [isRefused, if_true]
        exact .inl ⟨_, rfl, .inr trivial⟩
      · simp only [isRefused, Bool.false_eq_true, if_false]
        exact .inr ⟨value, rfl, rfl⟩

/-- What a run on an input comes to: it breaks off at once, it finds nothing, or it gets as far as
to an effect. The files are still as they were. -/
theorem runInput_cases (host : Host) (world : World) (options : Options) (input : Path) :
    (∃ cause, (runInput host.shell options input).run world = .error cause world ∧
      ((∃ fault, world.store.readText input = .error fault) ∨
        ∃ access, host.refuses access (world.store.placeOf input) = true)) ∨
    (world.store.contains input = .ok false ∧
      (runInput host.shell options input).run world =
        (do
          host.shell.print .errors (missingNote input)
          return 1 : Session Nat).run world) ∨
    ∃ source, world.store.readText input = .ok source ∧
      (runInput host.shell options input).run world =
        (perform host.shell (effectOf options input source)).run world := by
  rcases run_ask host world .look input (fun store => store.contains input)
    (fun found => if found then host.shell.read input >>= runContent host.shell options input
      else do
        host.shell.print .errors (missingNote input)
        return 1) with ⟨cause, isBroken, reason⟩ | ⟨found, isFound, isNext⟩
  · refine .inl ⟨cause, isBroken, reason.imp ?_ fun isRefused => ⟨_, isRefused⟩⟩
    rintro ⟨fault, isFault⟩
    exact readText_eq_error_of_contains isFault
  replace isNext : (runInput host.shell options input).run world = _ := isNext
  rw [isNext]
  cases found with
  | false => exact .inr (.inl ⟨isFound, rfl⟩)
  | true =>
      rcases run_ask host world .read input (fun store => store.read input)
        (runContent host.shell options input) with
        ⟨cause, isBroken, reason⟩ | ⟨content, isRead, isNext⟩
      · refine .inl ⟨cause, isBroken, reason.imp ?_ fun isRefused => ⟨_, isRefused⟩⟩
        rintro ⟨fault, isFault⟩
        exact ⟨fault, by rw [readText, isFault]; rfl⟩
      replace isNext : (host.shell.read input >>= runContent host.shell options input).run world =
        _ := isNext
      rw [if_pos rfl, isNext, runContent]
      cases isText : decode content with
      | error fault => exact .inl ⟨_, rfl, .inl ⟨fault, by rw [readText, isRead]; exact isText⟩⟩
      | ok source =>
          refine .inr (.inr ⟨source, ?_, rfl⟩)
          rw [readText, isRead]
          exact isText

end Sessions

/-- A text is read from a file. -/
theorem find_of_readText {path : Path} {source : String}
    (isText : store.readText path = .ok source) :
    ∃ place content, store.find path = .ok (place, .file content) ∧
      decode content = .ok source := by
  rw [FileStore.readText] at isText
  cases isRead : store.read path with
  | error fault =>
      rw [isRead] at isText
      cases isText
  | ok content =>
      rw [isRead] at isText
      unfold FileStore.read at isRead
      split at isRead
      · rename_i place found isFound
        cases isRead
        exact ⟨place, content, isFound, isText⟩
      · cases isRead
      · cases isRead

theorem contains_of_readText {path : Path} {source : String}
    (isText : store.readText path = .ok source) : store.contains path = .ok true := by
  rcases find_of_readText isText with ⟨place, content, found, -⟩
  rw [contains, found]

/-! ## Runs that save a report -/

/-- A run that is asked for a report breaks off at once because of the host, or it does nothing but
save the report. -/
theorem Saving.Asked.run_or (host : Host) {saving : Saving} (asked : saving.Asked store arguments) :
    (∃ cause, run host store arguments = ⟨⟨store, "", ""⟩, .broken cause⟩ ∧
      ∃ access, host.refuses access (store.placeOf saving.input) = true) ∨
      run host store arguments =
        .ofResult ((perform host.shell saving.effect).run ⟨store, "", ""⟩) := by
  rcases asked.options with
    ⟨options, text, isRun, notOutput, notTree, isInput, isPath, isDirectory⟩
  rcases asked.report with ⟨source, isSource, isModel, isText⟩
  have isProgram : run host store arguments =
      .ofResult ((runInput host.shell options saving.input).run ⟨store, "", ""⟩) := by
    simp only [run, program, isRun, isInput, isPath]
  have isEffect : effectOf options saving.input source = saving.effect := by
    simp only [effectOf, notTree, notOutput, isModel, isText, effect, isDirectory,
      Bool.false_eq_true, if_false]
  rw [isProgram]
  rcases runInput_cases host ⟨store, "", ""⟩ options saving.input with
    ⟨cause, isBroken, ⟨fault, isFault⟩ | isRefused⟩ | ⟨isMissing, -⟩ | ⟨found, isFound, isNext⟩
  · exact absurd (isSource.symm.trans isFault) nofun
  · rw [isBroken]
    exact .inl ⟨cause, rfl, isRefused⟩
  · rw [contains_of_readText isSource] at isMissing
    cases isMissing
  · rw [isSource] at isFound
    cases isFound
    rw [isNext, isEffect]
    exact .inr rfl

section Steps

variable (host : Host) (world : World) (path : Path) (content : ByteArray)

theorem makeDirectory_cases :
    ∃ prepared : World, prepared.store.current = world.store.current ∧
      (∀ place, prepared.store.content? place = world.store.content? place) ∧
      ((∃ cause, host.makeDirectory path world = .error cause prepared) ∨
        host.makeDirectory path world = .ok () prepared) := by
  rcases makeDirectory_keeps (host.refuses .make) world.store path with ⟨sameCurrent, keeps⟩
  rw [Host.makeDirectory]
  rcases isMade : world.store.makeDirectory (host.refuses .make) path with ⟨store, fault?⟩
  rw [isMade] at sameCurrent keeps
  refine ⟨{ world with store }, sameCurrent, keeps, ?_⟩
  cases fault? with
  | none => exact .inr rfl
  | some fault => exact .inl ⟨_, rfl⟩

/-- Writing a file does nothing, or it leaves the content or a front part of it at the path. -/
theorem write_cases :
    (∃ cause, host.write path content world = .error cause world) ∨
    ∃ (later : World) (written : ByteArray), later.store.current = world.store.current ∧
      (∀ place, later.store.content? place =
        if place = world.store.placeOf path then some written
        else world.store.content? place) ∧
      ((∃ cause count, host.cutoff (world.store.placeOf path) = some count ∧
          written = content.extract 0 count ∧
          host.write path content world = .error cause later) ∨
        written = content ∧ host.write path content world = .ok () later) := by
  rw [Host.write]
  cases isTarget : world.store.target path with
  | error fault => exact .inl ⟨_, rfl⟩
  | ok place =>
      rcases target_eq_ok isTarget with ⟨rfl, notDirectory⟩
      by_cases isRefused : host.refuses .write (world.store.placeOf path) = true
      · simp only [isRefused, if_true]
        exact .inl ⟨_, rfl⟩
      · simp only [isRefused, Bool.false_eq_true, if_false]
        right
        cases isCut : host.cutoff (world.store.placeOf path) with
        | none =>
            let store := world.store.set (world.store.placeOf path) (.file content)
            exact ⟨{ world with store }, content, rfl, content?_set_file notDirectory content,
              .inr ⟨rfl, rfl⟩⟩
        | some count =>
            let front := content.extract 0 count
            let store := world.store.set (world.store.placeOf path) (.file front)
            exact ⟨{ world with store }, front, rfl, content?_set_file notDirectory front,
              .inl ⟨_, count, rfl, rfl, rfl⟩⟩

end Steps

/-- Saving a report is two changes of the files and a note. -/
theorem run_perform_effect (host : Host) (world : World) (saving : Saving) :
    (perform host.shell saving.effect).run world =
      EStateM.bind (host.makeDirectory saving.directory) (fun _ =>
        EStateM.bind (host.write saving.path saving.content) (fun _ =>
          EStateM.bind
            (host.print .output (savedNote saving.directory (reportName saving.input)))
            fun _ => EStateM.pure 0)) world :=
  rfl

/-- Saving either breaks off and changes no file, or it leaves the report at its path and changes no
other file. -/
theorem perform_effect (host : Host) (world : World) (saving : Saving) :
    (∃ cause later, (perform host.shell saving.effect).run world = .error cause later ∧
      ∀ place, later.store.content? place = world.store.content? place) ∨
    ∃ content, saving.IsLeft host world.store
        (Outcome.ofResult ((perform host.shell saving.effect).run world)).ending content ∧
      ∀ place, (Outcome.ofResult ((perform host.shell saving.effect).run world)).store.content?
        place =
          if place = world.store.placeOf saving.path then some content
          else world.store.content? place := by
  rw [run_perform_effect]
  rcases makeDirectory_cases host world saving.directory with
    ⟨prepared, sameCurrent, keeps, ⟨cause, isBroken⟩ | isMade⟩
  · rw [EStateM.bind, isBroken]
    exact .inl ⟨cause, prepared, rfl, keeps⟩
  have samePlace := placeOf_congr sameCurrent saving.path
  rcases write_cases host prepared saving.path saving.content with
    ⟨cause, isBroken⟩ | ⟨later, written, -, contents, isWritten⟩
  · rw [EStateM.bind, isMade]
    simp only [EStateM.bind, isBroken]
    exact .inl ⟨cause, prepared, rfl, keeps⟩
  simp only [samePlace, keeps] at contents isWritten
  right
  refine ⟨written, ?_⟩
  rw [EStateM.bind, isMade]
  rcases isWritten with ⟨cause, count, isCut, rfl, isBroken⟩ | ⟨rfl, isWritten⟩
  · simp only [EStateM.bind, isBroken]
    exact ⟨.cut cause count isCut, contents⟩
  · simp only [EStateM.bind, isWritten, Host.print]
    cases isTaken : host.takes .output (savedNote saving.directory (reportName saving.input)) with
    | true => exact ⟨.whole, contents⟩
    | false => exact ⟨.untold _ isTaken, contents⟩

/-- If a host does all that the files allow, a report can be saved in any directory in which there
is room for a file of its name. -/
theorem Saving.granted_ideal {saving : Saving} {place other : Place}
    (isDirectory : store.find saving.directory = .ok (place, .directory))
    (isTarget : store.target saving.path = .ok other) : saving.Granted .ideal store := by
  have isMade := makeDirectory_of_find (Host.ideal.refuses .make) isDirectory
  constructor
  case answers => exact fun _ => rfl
  case made => rw [isMade]
  case room => exact ⟨other, by rw [isMade]; exact isTarget⟩
  case allows => rfl
  case keeps => rfl
  case takes => rfl

/-! ## Whole runs -/

/-- A host that keeps what is written and takes what is printed. It may still refuse access. -/
structure Host.Reliable (host : Host) : Prop where
  keeps : ∀ place, host.cutoff place = none
  takes : ∀ stream text, host.takes stream text = true

theorem Host.reliable_ideal : Host.ideal.Reliable := ⟨fun _ => rfl, fun _ _ => rfl⟩

/-- A run that is asked for a report ends without one, with the files as they were, or it leaves the
report at its path and changes no other file. -/
theorem Saving.Asked.cases (host : Host) {saving : Saving} (asked : saving.Asked store arguments) :
    (∃ cause, (run host store arguments).ending = .broken cause ∧
      ∀ place, (run host store arguments).store.content? place = store.content? place) ∨
    ∃ content, saving.IsLeft host store (run host store arguments).ending content ∧
      ∀ place, (run host store arguments).store.content? place =
        if place = store.placeOf saving.path then some content else store.content? place := by
  rcases asked.run_or host with ⟨cause, isBroken, -⟩ | isSaved
  · exact .inl ⟨cause, by rw [isBroken], fun place => by rw [isBroken]⟩
  · rw [isSaved]
    rcases perform_effect host ⟨store, "", ""⟩ saving with ⟨cause, later, isBroken, keeps⟩ | isLeft
    · rw [isBroken]
      exact .inl ⟨cause, rfl, keeps⟩
    · exact .inr isLeft

end ShaderReflection.CommandLine
