import Hack.CommandLine.Journal
import Hack.CommandLine.Table
import Hack.CommandLine.Usage
import Hack.Text.Ascending

namespace Hack.CommandLine

/-! Runs of the program.

A run reads all of its input before it writes, and it writes once, at its end.
Whatever fails before leaves the files as they were.
-/

open Hack.Assembly Hack.Stack Hack.Text

variable {m : Type → Type} [Monad m] [Host m]

/-- A part of a run that can end it, with the reason. -/
abbrev Attempt (m : Type → Type) := ExceptT String m

def note (verbosity : Nat) (record : Record) : m Unit :=
  if record.shown verbosity then Host.report record.text else pure ()

def noteAll (verbosity : Nat) (records : List Record) : m Unit :=
  records.forM (note verbosity)

def readInput (path : Path) : Attempt m String := do
  match ← Host.readText path with
  | .ok text => return text
  | .error failure => throw s!"unable to open input file `{path}`: {failure.message}"

def writeOutput (verbosity : Nat) (path : Path) (content : String) : Attempt m Unit := do
  match ← Host.writeText path content with
  | .ok _ => note verbosity (mainRecord .info s!"wrote `{path}`")
  | .error failure => throw s!"unable to write to output file `{path}`: {failure.message}"

/-- The files of a directory that hold stack programs, in the order of their names. -/
def stackFiles (directory : Path) : Attempt m (List Path) := do
  match ← Host.entries directory with
  | .error failure => throw s!"unable to read directory `{directory}`: {failure.message}"
  | .ok names =>
      let programs := ascending (names.filter fun name => extension? name == some "vm")
      (programs.map (join directory)).filterM fun path => Host.isFile path

/-- The files that an input stands for. -/
def inputFiles (input : Path) : Attempt m (List Path) := do
  if ← Host.isDirectory input then stackFiles input else return [input]

def readSource (verbosity : Nat) (path : Path) : Attempt m SourceFile := do
  let name := finalStem path
  note verbosity (mainRecord .debug s!"reading `{path}` as `{name}`")
  return ⟨name, ← readInput path⟩

def readSources (verbosity : Nat) (input : Path) : Attempt m (List SourceFile) := do
  let paths ← inputFiles input
  if paths.isEmpty then
    note verbosity (mainRecord .warn s!"no .vm files found in `{input}`")
  paths.mapM (readSource verbosity)

/-- Where the output goes if no other place was asked for: beside a file, or
into a directory under the name of the directory. -/
def defaultOutput (input : Path) (extension : String) : m Path := do
  if ← Host.isDirectory input then
    let name ← Host.directoryName input
    return withExtension (join input (name.getD "out")) extension
  else return withExtension input extension

def assembleInput (job : Job) (preprocessOnly showListing : Bool) : Attempt m Unit := do
  let input := job.input
  let source ← readInput input
  if preprocessOnly then
    note job.verbosity (cleaningRecord source)
    writeOutput job.verbosity (job.output.getD (withExtension input "pre.asm")) (preprocess source)
  else
    noteAll job.verbosity (assemblyRecords source)
    match listing source with
    | .error error => throw s!"unable to assemble `{input}`: {error.message}"
    | .ok entries =>
        if showListing then Host.print (table entries ++ "\n")
        let count := entries.length
        note job.verbosity (mainRecord .info s!"assembled {count} instruction(s) from `{input}`")
        writeOutput job.verbosity (job.output.getD (withExtension input "hack")) (binaryText entries)

/-- Reads the sources of an input, turns them into a text and writes it. -/
def convertInput (job : Job) (extension verb : String) (records : List SourceFile → List Record)
    (convert : List SourceFile → Except Error String) : Attempt m Unit := do
  let input := job.input
  let files ← readSources job.verbosity input
  let fallback ← defaultOutput input extension
  noteAll job.verbosity (records files)
  match convert files with
  | .error error => throw s!"unable to {verb} `{input}`: {error.message}"
  | .ok text => writeOutput job.verbosity (job.output.getD fallback) text

def perform (job : Job) : Attempt m Unit :=
  match job.task with
  | .assemble preprocessOnly showListing => assembleInput job preprocessOnly showListing
  | .translate config =>
      convertInput job "asm" "translate" (fun files => translationRecords files config)
        (fun files => translate files config)
  | .build bootstrap =>
      let config : Config := { bootstrap := bootstrap }
      convertInput job "hack" "build" (fun files => buildRecords files config)
        (fun files => build files config)

/-- Performs a job and gives the exit code. -/
def runJob (job : Job) : m UInt32 := do
  note job.verbosity (startRecord job.subcommand.name)
  match ← (perform job).run with
  | .ok _ => return 0
  | .error reason =>
      note job.verbosity (mainRecord .error s!"fatal: {reason}")
      return 1

/-- Does what the words on the command line ask for and gives the exit code. -/
def run (words : List String) : m UInt32 := do
  match Request.parse words with
  | .perform job => runJob job
  | .help topic =>
      Host.print (helpText topic)
      return 0
  | .version topic =>
      Host.print (versionText topic)
      return 0
  | .idle =>
      Host.report (helpText none)
      return 1
  | .misuse topic reason =>
      Host.report (misuseText topic reason)
      return 1

end Hack.CommandLine
