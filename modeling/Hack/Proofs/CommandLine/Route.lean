import Hack.Proofs.CommandLine.Files
import Hack.Proofs.CommandLine.Running
import Hack.Proofs.Stack.Annotation

namespace Hack.CommandLine

open Hack.Assembly Hack.Stack

variable {world : World} {input middle output : Path} {config : Config} {place : Location}
variable {translation assembly building : List String}

/-- A path at which a text can be written and read back: it offers a place where
there is a file or nothing. -/
structure World.Writable (world : World) (path : Path) (place : Location) : Prop where
  offered : world.files.findPlace world.directory path = .ok place
  noDirectory : world.files.node? place ≠ some .directory
  noSink : world.files.node? place ≠ some .sink

/-- The words ask for a task on an input and name its output. -/
def Asks (words : List String) (task : Task) (input output : Path) : Prop :=
  ∃ job, Request.parse words = .perform job ∧ job.task = task ∧ job.input = input ∧ job.output = some output

/-- Makes a second run if the first one succeeds. -/
def runInTurn (first second : List String) : StateM World UInt32 := do
  let code ← run first
  if code = 0 then run second else return code

theorem World.Writable.free (writable : world.Writable middle place) : world.files.IsFree place := by
  obtain ⟨before, name, offers⟩ := FileSystem.offers_of_findPlace writable.offered
  exact ⟨offers.inside, writable.noDirectory, writable.noSink⟩

theorem World.Writable.write_eq (writable : world.Writable middle place) (content : String) :
    world.files.write world.directory middle content = .ok (world.files.store place content) := by
  rw [FileSystem.write_eq writable.offered writable.noDirectory, FileSystem.put, if_neg writable.noSink]

theorem run_of_asks {words : List String} {task : Task} (asks : Asks words task input output) (world : World) :
    ∃ after, (run words : StateM World UInt32) world =
        (if (world.written? task input output).isSome then 0 else 1, after) ∧
      after.files = (world.written? task input output).getD world.files ∧ after.directory = world.directory := by
  obtain ⟨job, parsed, rfl, rfl, named⟩ := asks
  have target : job.target world = output := by
    rw [Job.target, named]
    rfl
  rw [run_eq parsed, ← target]
  exact runJob_eq job world

theorem fails_of_asks {words : List String} {task : Task} (world : World) (asks : Asks words task input output)
    (unwritten : world.written? task input output = none) :
    ∃ after, (run words : StateM World UInt32) world = (1, after) ∧ after.files = world.files := by
  obtain ⟨after, ran, left, _⟩ := run_of_asks asks world
  rw [unwritten] at ran left
  exact ⟨after, ran, left⟩

theorem succeeds_of_asks {words : List String} {task : Task} {files : FileSystem} (world : World)
    (asks : Asks words task input output) (written : world.written? task input output = some files) :
    ∃ after, (run words : StateM World UInt32) world = (0, after) ∧ after.files = files ∧
      after.directory = world.directory := by
  obtain ⟨after, ran, left, directory⟩ := run_of_asks asks world
  rw [written] at ran left
  exact ⟨after, ran, left, directory⟩

/-- How the two ways compare: they end alike, with the same content of the output
where they succeed, and nothing but the file in between tells their files apart. -/
structure Agree (output : Path) (place : Location) (one other : UInt32 × World) : Prop where
  succeed : one.1 = 0 ↔ other.1 = 0
  content : other.1 = 0 → ∃ content, one.2.text? output = some content ∧ other.2.text? output = some content
  elsewhere : ∀ location, location ≠ place → one.2.files.node? location = other.2.files.node? location

theorem Agree.failed {one other : World}
    (elsewhere : ∀ location, location ≠ place → one.files.node? location = other.files.node? location) :
    Agree output place (1, one) (1, other) :=
  ⟨Iff.rfl, fun succeeded => absurd succeeded (show (1 : UInt32) ≠ 0 by decide), elsewhere⟩

theorem runInTurn_of_failed {first second : List String} {after : World}
    (failed : (run first : StateM World UInt32) world = (1, after)) : runInTurn first second world = (1, after) := by
  rw [runInTurn, act_bind, failed]
  rfl

theorem runInTurn_of_success {first second : List String} {after : World}
    (succeeded : (run first : StateM World UInt32) world = (0, after)) :
    runInTurn first second world = (run second : StateM World UInt32) after := by
  rw [runInTurn, act_bind, succeeded]
  rfl

/-- The build of an input is the assembly of its translation, however that is annotated. -/
theorem content?_build (world : World) (input : Path) (config : Config) :
    (world.content? (Task.translate config) input = none ∧ world.content? (Task.build config.bootstrap) input = none) ∨
      ∃ text, world.content? (Task.translate config) input = some text ∧
        world.content? (Task.build config.bootstrap) input = (assemble text).toOption := by
  simp only [World.content?]
  cases world.sources? input with
  | none => exact .inl ⟨rfl, rfl⟩
  | some files =>
      have plain : config.bootstrap = ({ bootstrap := config.bootstrap } : Config).bootstrap := rfl
      simp only [Option.bind_some, build]
      rcases translate_alike files plain with ⟨error, failed, failedPlain⟩ | ⟨text, plainText, translated, translatedPlain, alike⟩
      · rw [failed, failedPlain]
        exact .inl ⟨rfl, rfl⟩
      · rw [translated, translatedPlain]
        refine .inr ⟨text, rfl, ?_⟩
        rcases alike with ⟨binary, assembled, assembledPlain⟩ | ⟨fault, line, otherLine, failed, failedPlain⟩
        · rw [assembled, ok_bind, assembledPlain]
        · rw [failed, ok_bind, failedPlain]
          rfl

/-- Assembling the file in between and building come to the same. -/
theorem written?_build {between : World} {text : String} {showListing : Bool} (writable : world.Writable middle place)
    (left : between.files = world.files.store place text) (directory : between.directory = world.directory)
    (content : world.content? (.build config.bootstrap) input = (assemble text).toOption) :
    (between.written? (.assemble false showListing) middle output = none ∧
        world.written? (.build config.bootstrap) input output = none) ∨
      ∃ later after, between.written? (.assemble false showListing) middle output = some later ∧
        world.written? (.build config.bootstrap) input output = some after ∧
        FileSystem.SameBut place world.directory output later after := by
  have read : between.text? middle = some text := by
    rw [World.text?, left, directory, FileSystem.read_store writable.offered writable.free]
    rfl
  rw [World.written?, World.written?, World.content?, read, Option.bind_some, content, left, directory]
  cases (assemble text).toOption with
  | none => exact .inl ⟨rfl, rfl⟩
  | some binary => exact FileSystem.write_store_cases writable.free text world.directory output binary

theorem agree_of_asks {showListing : Bool} (translates : Asks translation (.translate config) input middle)
    (assembles : Asks assembly (.assemble false showListing) middle output)
    (builds : Asks building (.build config.bootstrap) input output) (writable : world.Writable middle place) :
    Agree output place (runInTurn translation assembly world) ((run building : StateM World UInt32) world) := by
  rcases content?_build world input config with ⟨untranslated, unbuilt⟩ | ⟨text, translated, content⟩
  · obtain ⟨one, ran, left⟩ := fails_of_asks world translates (by rw [World.written?, untranslated]; rfl)
    obtain ⟨other, ranOther, leftOther⟩ := fails_of_asks world builds (by rw [World.written?, unbuilt]; rfl)
    rw [runInTurn_of_failed ran, ranOther]
    exact .failed fun location _ => by rw [left, leftOther]
  · -- The translation has left its text in the file, where the assembler finds it.
    obtain ⟨between, ran, left, directory⟩ := succeeds_of_asks world translates
      (by rw [World.written?, translated, Option.bind_some, writable.write_eq]; rfl)
    rw [runInTurn_of_success ran]
    rcases written?_build writable left directory content with ⟨unwritten, unbuilt⟩ | ⟨later, after, written, built, same⟩
    · obtain ⟨one, ranOne, leftOne⟩ := fails_of_asks between assembles unwritten
      obtain ⟨other, ranOther, leftOther⟩ := fails_of_asks world builds unbuilt
      rw [ranOne, ranOther]
      refine .failed fun location elsewhere => ?_
      rw [leftOne, leftOther, left, FileSystem.node?_store writable.free.inside, if_neg elsewhere]
    · obtain ⟨one, ranOne, leftOne, directoryOne⟩ := succeeds_of_asks between assembles written
      obtain ⟨other, ranOther, leftOther, directoryOther⟩ := succeeds_of_asks world builds built
      obtain ⟨held, heldOne, heldOther⟩ := same.content
      rw [ranOne, ranOther]
      refine ⟨Iff.rfl, fun _ => ⟨held, ?_, ?_⟩, fun location elsewhere => ?_⟩
      · rw [World.text?, leftOne, directoryOne, directory, heldOne]
        rfl
      · rw [World.text?, leftOther, directoryOther, heldOther]
        rfl
      · rw [leftOne, leftOther, same.elsewhere location elsewhere]

/-- Annotation makes no difference to the assembler.  So a program that is
translated, annotated or not, and then assembled comes to what its build comes to. -/
theorem translated_and_assembled_eq_built :
    (∀ (files : List SourceFile) (bootstrap : Bool),
      (∃ error, translate files ⟨bootstrap, true⟩ = .error error ∧ translate files ⟨bootstrap, false⟩ = .error error) ∨
        ∃ annotated plain, translate files ⟨bootstrap, true⟩ = .ok annotated ∧
          translate files ⟨bootstrap, false⟩ = .ok plain ∧ AssembledAlike annotated plain) ∧
      ∀ (world : World) (input middle output : Path) (place : Location) (config : Config) (showListing : Bool)
        (translation assembly building : List String),
        Asks translation (.translate config) input middle → Asks assembly (.assemble false showListing) middle output →
        Asks building (.build config.bootstrap) input output → world.Writable middle place →
        Agree output place (runInTurn translation assembly world) ((run building : StateM World UInt32) world) :=
  ⟨fun files _ => translate_alike files rfl, fun _ _ _ _ _ _ _ _ _ _ translates assembles builds writable =>
    agree_of_asks translates assembles builds writable⟩

def workWorld : World where
  files := ⟨[(["work"], .directory), (["work", "Main.vm"], .text "push constant 7\n")]⟩
  directory := ["work"]

theorem translated_and_assembled_eq_built_main :
    ((run ["build", "Main.vm", "-o", "Main.hack"] : StateM World UInt32) workWorld).1 = 0 ∧
      Agree "Main.hack" ["work", "Main.asm"]
        (runInTurn ["vm", "Main.vm", "-a", "-o", "Main.asm"] ["asm", "Main.asm", "-o", "Main.hack"] workWorld)
        ((run ["build", "Main.vm", "-o", "Main.hack"] : StateM World UInt32) workWorld) := by
  refine ⟨by decide +kernel, translated_and_assembled_eq_built.2 workWorld "Main.vm" "Main.asm" "Main.hack"
    ["work", "Main.asm"] ⟨false, true⟩ false _ _ _ ?_ ?_ ?_ ?_⟩
  · exact ⟨⟨.vm, .translate ⟨false, true⟩, 0, "Main.vm", some "Main.asm"⟩, by decide +kernel, rfl, rfl, rfl⟩
  · exact ⟨⟨.asm, .assemble false false, 0, "Main.asm", some "Main.hack"⟩, by decide +kernel, rfl, rfl, rfl⟩
  · exact ⟨⟨.build, .build false, 0, "Main.vm", some "Main.hack"⟩, by decide +kernel, rfl, rfl, rfl⟩
  · exact ⟨eq_ok_of_toOption (by decide +kernel), by decide +kernel, by decide +kernel⟩

end Hack.CommandLine
