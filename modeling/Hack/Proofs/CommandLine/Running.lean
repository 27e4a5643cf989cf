import Hack.CommandLine.Run
import Hack.CommandLine.World
import Hack.Proofs.Sequence

namespace Hack.CommandLine

open Hack.Assembly Hack.Stack Hack.Text

variable {α β : Type} {world before : World}

namespace World

/-- The files and the directory are the same; the streams may have been written to. -/
structure Keeps (world after : World) : Prop where
  files : after.files = world.files
  directory : after.directory = world.directory

theorem Keeps.refl (world : World) : world.Keeps world := ⟨rfl, rfl⟩

theorem Keeps.find (keeps : world.Keeps before) (path : Path) : before.find path = world.find path := by
  rw [World.find, World.find, keeps.files, keeps.directory]

theorem Keeps.nodeAt? (keeps : world.Keeps before) (path : Path) : before.nodeAt? path = world.nodeAt? path := by
  rw [World.nodeAt?, World.nodeAt?, keeps.find]

/-- The text of a file. -/
def text? (world : World) (path : Path) : Option String :=
  (world.files.read world.directory path).toOption

def isDirectory (world : World) (path : Path) : Bool :=
  world.nodeAt? path == some .directory

def isFile (world : World) (path : Path) : Bool :=
  match world.nodeAt? path with
  | some (.text _) | some .bytes => true
  | _ => false

/-- The stack programs in a directory, in the order of their names. -/
def programs (world : World) (directory : Path) (names : List String) : List Path :=
  ((ascending (names.filter fun name => extension? name == some "vm")).map (join directory)).filter world.isFile

/-- The paths of the files that an input stands for. -/
def inputs? (world : World) (input : Path) : Option (List Path) :=
  if world.isDirectory input then (world.entries input).toOption.map (world.programs input) else some [input]

def source? (world : World) (path : Path) : Option SourceFile :=
  (world.text? path).map fun text => ⟨finalStem path, text⟩

/-- The sources that an input stands for, if all of them can be read. -/
def sources? (world : World) (input : Path) : Option (List SourceFile) :=
  (world.inputs? input).bind fun paths => paths.mapM world.source?

/-- Where output goes by default. -/
def fallback (world : World) (input : Path) (extension : String) : Path :=
  if world.isDirectory input then withExtension (join input ((world.directoryName input).getD "out")) extension
  else withExtension input extension

/-- What a task makes of an input, if it can. -/
def content? (world : World) (task : Task) (input : Path) : Option String :=
  match task with
  | .assemble true _ => (world.text? input).map preprocess
  | .assemble false _ => (world.text? input).bind fun source => (assemble source).toOption
  | .translate config => (world.sources? input).bind fun files => (translate files config).toOption
  | .build bootstrap => (world.sources? input).bind fun files => (build files { bootstrap }).toOption

/-- The files after a task, if it has something to write and can write it. -/
def written? (world : World) (task : Task) (input output : Path) : Option FileSystem :=
  (world.content? task input).bind fun content => (world.files.write world.directory output content).toOption

end World

/-- Where the content goes. -/
def Job.target (job : Job) (world : World) : Path :=
  job.output.getD <|
    match job.task with
    | .assemble true _ => withExtension job.input "pre.asm"
    | .assemble false _ => withExtension job.input "hack"
    | .translate _ => world.fallback job.input "asm"
    | .build _ => world.fallback job.input "hack"

/-- The files after a job, if it succeeds. -/
def Job.result? (job : Job) (world : World) : Option FileSystem :=
  world.written? job.task job.input (job.target world)

theorem act_bind (action : StateM World α) (next : α → StateM World β) (before : World) :
    (action >>= next) before = next (action before).1 (action before).2 := rfl

theorem run_bind (attempt : Attempt (StateM World) α) (next : α → Attempt (StateM World) β) (before : World) :
    (attempt >>= next).run before =
      match attempt.run before with
      | (.ok value, middle) => (next value).run middle
      | (.error reason, middle) => (.error reason, middle) := by
  have step : (attempt >>= next).run before =
      (ExceptT.bindCont next (attempt.run before).1).run (attempt.run before).2 := rfl
  rw [step]
  cases attempt.run before with
  | mk outcome middle => cases outcome <;> rfl

/-- An attempt finds a value without changing the files, or it finds none. -/
def Finds (world : World) (attempt : Attempt (StateM World) α) (found : Option α) : Prop :=
  ∀ before, world.Keeps before → ∃ outcome after,
    attempt.run before = (outcome, after) ∧ outcome.toOption = found ∧ world.Keeps after

/-- An attempt leaves these files, or it fails and leaves them as they were. -/
def Leaves (world : World) (attempt : Attempt (StateM World) Unit) (left : Option FileSystem) : Prop :=
  ∀ before, world.Keeps before → ∃ outcome after,
    attempt.run before = (outcome, after) ∧ outcome.toOption.isSome = left.isSome ∧
      after.files = left.getD world.files ∧ after.directory = world.directory

namespace Finds

variable {attempt : Attempt (StateM World) α} {next : α → Attempt (StateM World) β} {found : Option α}

theorem pure (value : α) : Finds world (pure value : Attempt (StateM World) α) (some value) :=
  fun before keeps => ⟨.ok value, before, rfl, rfl, keeps⟩

theorem throw (reason : String) : Finds world (throw reason : Attempt (StateM World) α) none :=
  fun before keeps => ⟨.error reason, before, rfl, rfl, keeps⟩

theorem lift {action : StateM World α} {value : α}
    (acts : ∀ before, world.Keeps before → ∃ after, action before = (value, after) ∧ world.Keeps after) :
    Finds world (ExceptT.lift action) (some value) := by
  intro before keeps
  obtain ⟨after, same, kept⟩ := acts before keeps
  have ran : (ExceptT.lift action : Attempt (StateM World) α).run before =
      ((.ok (action before).1, (action before).2) : Except String α × World) := rfl
  rw [same] at ran
  exact ⟨.ok value, after, ran, rfl, kept⟩

theorem bind {result : α → Option β} (first : Finds world attempt found)
    (second : ∀ value, Finds world (next value) (result value)) :
    Finds world (attempt >>= next) (found.bind result) := by
  intro before keeps
  obtain ⟨outcome, middle, ran, rfl, kept⟩ := first before keeps
  rw [run_bind, ran]
  cases outcome with
  | error reason => exact ⟨_, middle, rfl, rfl, kept⟩
  | ok value => exact second value middle kept

theorem andThen {value : α} {result : Option β} (first : Finds world attempt (some value))
    (second : Finds world (next value) result) : Finds world (attempt >>= next) result := by
  intro before keeps
  obtain ⟨outcome, middle, ran, same, kept⟩ := first before keeps
  rw [run_bind, ran, eq_ok_of_toOption same]
  exact second middle kept

theorem mapM {step : α → Attempt (StateM World) β} {result : α → Option β}
    (each : ∀ item, Finds world (step item) (result item)) (list : List α) :
    Finds world (list.mapM step) (list.mapM result) := by
  induction list with
  | nil => exact pure []
  | cons first rest ih =>
      rw [List.mapM_cons, List.mapM_cons]
      exact (each first).bind fun value => ih.bind fun others => pure _

theorem filterM {test : α → Attempt (StateM World) Bool} {holds : α → Bool}
    (each : ∀ item, Finds world (test item) (some (holds item))) (list : List α) :
    Finds world (list.filterM test) (some (list.filter holds)) := by
  -- The loop collects in reverse, in front of what it has kept before.
  have collects : ∀ kept : List α,
      Finds world (List.filterAuxM test list kept) (some ((list.filter holds).reverse ++ kept)) := by
    intro kept
    induction list generalizing kept with
    | nil => exact pure kept
    | cons first rest ih =>
        have decided : Finds world (List.filterAuxM test (first :: rest) kept)
            ((some (holds first)).bind fun keep =>
              some ((rest.filter holds).reverse ++ cond keep (first :: kept) kept)) :=
          (each first).bind fun keep => ih _
        cases keep : holds first <;> simpa [keep] using decided
  have whole : Finds world (list.filterM test)
      ((some ((list.filter holds).reverse ++ [])).bind fun kept => some kept.reverse) :=
    (collects []).bind fun kept => pure kept.reverse
  simpa using whole

theorem forM {step : α → Attempt (StateM World) Unit} (each : ∀ item, Finds world (step item) (some ()))
    (list : List α) : Finds world (list.forM step) (some ()) := by
  induction list with
  | nil => exact pure ()
  | cons first rest ih => exact (each first).bind fun _ => ih

theorem report (text : String) : Finds world (Host.report text : Attempt (StateM World) Unit) (some ()) :=
  lift fun _ keeps => ⟨_, rfl, keeps.files, keeps.directory⟩

theorem print (text : String) : Finds world (Host.print text : Attempt (StateM World) Unit) (some ()) :=
  lift fun _ keeps => ⟨_, rfl, keeps.files, keeps.directory⟩

theorem note (verbosity : Nat) (record : Record) :
    Finds world (note verbosity record : Attempt (StateM World) Unit) (some ()) := by
  unfold CommandLine.note
  split
  · exact report _
  · exact pure ()

theorem noteAll (verbosity : Nat) (records : List Record) :
    Finds world (noteAll verbosity records : Attempt (StateM World) Unit) (some ()) :=
  forM (note verbosity) records

/-- What is asked of the surroundings is answered from the files. -/
theorem ask {answer : World → α} (same : ∀ before, world.Keeps before → answer before = answer world) :
    Finds world (ExceptT.lift (do return answer (← get)) : Attempt (StateM World) α) (some (answer world)) :=
  lift fun before keeps => ⟨before, by rw [← same before keeps]; rfl, keeps⟩

theorem isDirectory (path : Path) :
    Finds world (Host.isDirectory path : Attempt (StateM World) Bool) (some (world.isDirectory path)) :=
  ask fun before keeps => by rw [keeps.nodeAt?]

theorem isFile (path : Path) :
    Finds world (Host.isFile path : Attempt (StateM World) Bool) (some (world.isFile path)) :=
  ask fun before keeps => by rw [keeps.nodeAt?]

theorem entries (path : Path) :
    Finds world (Host.entries path : Attempt (StateM World) _) (some (world.entries path)) :=
  ask fun before keeps => by rw [World.entries, World.entries, keeps.find, keeps.files]

theorem directoryName (path : Path) :
    Finds world (Host.directoryName path : Attempt (StateM World) _) (some (world.directoryName path)) :=
  ask fun before keeps => by rw [World.directoryName, World.directoryName, keeps.find]

theorem readInput (path : Path) : Finds world (readInput path : Attempt (StateM World) String) (world.text? path) := by
  have read : Finds world (Host.readText path : Attempt (StateM World) _)
      (some (world.files.read world.directory path)) :=
    lift fun before keeps => ⟨before, by rw [← keeps.files, ← keeps.directory]; rfl, keeps⟩
  refine read.andThen ?_
  rw [World.text?]
  cases world.files.read world.directory path with
  | ok text => exact pure text
  | error failure => exact throw _

theorem stackFiles (directory : Path) :
    Finds world (stackFiles directory : Attempt (StateM World) (List Path))
      ((world.entries directory).toOption.map (world.programs directory)) := by
  refine (entries directory).andThen ?_
  cases world.entries directory with
  | error failure => exact throw _
  | ok names => exact filterM isFile _

theorem inputFiles (input : Path) :
    Finds world (inputFiles input : Attempt (StateM World) (List Path)) (world.inputs? input) := by
  refine (isDirectory input).andThen ?_
  rw [World.inputs?]
  split
  · exact stackFiles input
  · exact pure [input]

theorem readSource (verbosity : Nat) (path : Path) :
    Finds world (readSource verbosity path : Attempt (StateM World) SourceFile) (world.source? path) := by
  refine (note verbosity _).andThen ?_
  rw [World.source?, Option.map_eq_bind]
  exact (readInput path).bind fun text => pure _

theorem readSources (verbosity : Nat) (input : Path) :
    Finds world (readSources verbosity input : Attempt (StateM World) (List SourceFile)) (world.sources? input) := by
  refine (inputFiles input).bind fun paths => ?_
  have reads : Finds world (paths.mapM (CommandLine.readSource verbosity)) (paths.mapM world.source?) :=
    mapM (readSource verbosity) paths
  split
  · exact (note verbosity _).andThen reads
  · exact reads

theorem defaultOutput (input : Path) (extension : String) :
    Finds world (defaultOutput input extension : Attempt (StateM World) Path) (some (world.fallback input extension)) := by
  refine (isDirectory input).andThen ?_
  rw [World.fallback]
  split
  · exact (directoryName input).andThen (pure _)
  · exact pure _

end Finds

namespace Leaves

variable {attempt : Attempt (StateM World) α} {next : α → Attempt (StateM World) Unit} {found : Option α}

theorem throw (reason : String) : Leaves world (throw reason) none :=
  fun before keeps => ⟨.error reason, before, rfl, rfl, keeps.files, keeps.directory⟩

theorem bind {left : α → Option FileSystem} (first : Finds world attempt found)
    (second : ∀ value, Leaves world (next value) (left value)) : Leaves world (attempt >>= next) (found.bind left) := by
  intro before keeps
  obtain ⟨outcome, middle, ran, rfl, kept⟩ := first before keeps
  rw [run_bind, ran]
  cases outcome with
  | error reason => exact ⟨_, middle, rfl, rfl, kept.files, kept.directory⟩
  | ok value => exact second value middle kept

theorem andThen {value : α} {left : Option FileSystem} (first : Finds world attempt (some value))
    (second : Leaves world (next value) left) : Leaves world (attempt >>= next) left := by
  intro before keeps
  obtain ⟨outcome, middle, ran, same, kept⟩ := first before keeps
  rw [run_bind, ran, eq_ok_of_toOption same]
  exact second middle kept

theorem run_writeText (keeps : world.Keeps before) (path : Path) (content : String) :
    (Host.writeText path content : Attempt (StateM World) _).run before =
      match world.files.write world.directory path content with
      | .ok files => (.ok (.ok ()), { before with files })
      | .error failure => (.ok (.error failure), before) := by
  have ran : (Host.writeText path content : Attempt (StateM World) _).run before =
      (.ok (before.writeText path content).1, (before.writeText path content).2) := rfl
  rw [ran, World.writeText, keeps.files, keeps.directory]
  cases world.files.write world.directory path content <;> rfl

/-- Writing is the end of a run: what is told about it changes no file. -/
theorem writeOutput (verbosity : Nat) (path : Path) (content : String) :
    Leaves world (writeOutput verbosity path content) (world.files.write world.directory path content).toOption := by
  intro before keeps
  rw [CommandLine.writeOutput, run_bind, run_writeText keeps]
  cases world.files.write world.directory path content with
  | error failure => exact ⟨_, before, rfl, rfl, keeps.files, keeps.directory⟩
  | ok files =>
      obtain ⟨outcome, after, ran, same, kept⟩ := Finds.note verbosity (mainRecord .info s!"wrote `{path}`") _ (.refl _)
      refine ⟨outcome, after, ran, by rw [same]; rfl, kept.files, ?_⟩
      rw [kept.directory, ← keeps.directory]

theorem assembleInput (job : Job) (preprocessOnly showListing : Bool)
    (task : job.task = .assemble preprocessOnly showListing) :
    Leaves world (assembleInput job preprocessOnly showListing) (job.result? world) := by
  rw [Job.result?, World.written?, Job.target, task]
  cases preprocessOnly with
  | true =>
      rw [World.content?, Option.bind_map]
      refine bind (Finds.readInput _) fun source => ?_
      exact andThen (Finds.note _ _) (writeOutput _ _ _)
  | false =>
      rw [World.content?, Option.bind_assoc]
      refine bind (Finds.readInput _) fun source => ?_
      refine andThen (Finds.noteAll _ _) ?_
      rw [assemble]
      cases listing source with
      | error error => exact throw _
      | ok entries =>
          cases showListing with
          | false => exact andThen (Finds.note _ _) (writeOutput _ _ _)
          | true => exact andThen (Finds.print _) (andThen (Finds.note _ _) (writeOutput _ _ _))

theorem convertInput (job : Job) {extension verb : String} {records : List SourceFile → List Record}
    {convert : List SourceFile → Except Error String}
    (content : world.content? job.task job.input = (world.sources? job.input).bind fun files => (convert files).toOption)
    (target : job.target world = job.output.getD (world.fallback job.input extension)) :
    Leaves world (convertInput job extension verb records convert) (job.result? world) := by
  rw [Job.result?, World.written?, content, target, Option.bind_assoc]
  refine bind (Finds.readSources _ _) fun files => ?_
  refine andThen (Finds.defaultOutput _ _) ?_
  refine andThen (Finds.noteAll _ _) ?_
  cases convert files with
  | error error => exact throw _
  | ok text => exact writeOutput _ _ _

theorem perform (job : Job) : Leaves world (perform job) (job.result? world) := by
  unfold CommandLine.perform
  split
  · next preprocessOnly showListing task => exact assembleInput job _ _ task
  · next config task => exact convertInput job (by rw [task]; rfl) (by rw [Job.target, task])
  · next bootstrap task => exact convertInput job (by rw [task]; rfl) (by rw [Job.target, task])

end Leaves

theorem note_keeps (verbosity : Nat) (record : Record) (before : World) :
    ∃ after, (note verbosity record : StateM World Unit) before = ((), after) ∧ before.Keeps after := by
  unfold note
  split
  · exact ⟨_, rfl, rfl, rfl⟩
  · exact ⟨before, rfl, .refl before⟩

/-- A run performs its job on the files that it finds, and its exit code tells
whether it has succeeded. -/
theorem runJob_eq (job : Job) (world : World) : ∃ after,
    (runJob job : StateM World UInt32) world = (if (job.result? world).isSome then 0 else 1, after) ∧
      after.files = (job.result? world).getD world.files ∧ after.directory = world.directory := by
  obtain ⟨started, starts, kept⟩ := note_keeps job.verbosity (startRecord job.subcommand.name) world
  obtain ⟨outcome, after, ran, succeeds, files, directory⟩ := Leaves.perform job started kept
  rw [runJob, act_bind, starts, act_bind, ran, ← succeeds]
  cases outcome with
  | ok value => exact ⟨after, rfl, files, directory⟩
  | error reason =>
      obtain ⟨told, tells, last⟩ := note_keeps job.verbosity (mainRecord .error s!"fatal: {reason}") after
      refine ⟨told, ?_, last.files.trans files, last.directory.trans directory⟩
      simp only [act_bind, tells]
      rfl

theorem run_eq {words : List String} {job : Job} (parsed : Request.parse words = .perform job) :
    (run words : StateM World UInt32) = runJob job := by
  rw [run, parsed]

end Hack.CommandLine
