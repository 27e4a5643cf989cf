import Hack.Build
import Hack.CommandLine.Host

namespace Hack.CommandLine

open Hack.Assembly Hack.Stack Hack.Text

inductive Level where
  | error
  | warn
  | info
  | debug
deriving DecidableEq, Repr

def Level.name : Level → String
  | .error => "ERROR"
  | .warn => "WARN"
  | .info => "INFO"
  | .debug => "DEBUG"

/-- How often a caller has to ask for more before records of a level are shown. -/
def Level.rank : Level → Nat
  | .error => 0
  | .warn => 1
  | .info => 2
  | .debug => 3

structure Record where
  source : String
  level : Level
  message : String
deriving DecidableEq, Repr

def Record.shown (verbosity : Nat) (record : Record) : Bool :=
  record.level.rank ≤ verbosity

def Record.text (record : Record) : String :=
  "[" ++ record.source ++ "][" ++ record.level.name ++ "] " ++ record.message ++ "\n"

/-- A record of the command line itself. -/
def mainRecord (level : Level) (message : String) : Record :=
  ⟨"hasm", level, message⟩

def startRecord (subcommand : String) : Record :=
  mainRecord .debug s!"Arguments:\n\tVerbosity: DEBUG\n\tSubcommand: {subcommand}"

def cleaningRecord (source : String) : Record :=
  let all := (lines source.toList).length
  let kept := (clean source).length
  ⟨"hasm::assembler::lexer", .debug, s!"cleaned {all} source lines down to {kept}"⟩

/-- The table after all instructions up to the first that cannot be encoded. -/
def tableAfter (table : SymbolTable) : List Instruction → SymbolTable
  | [] => table
  | first :: rest =>
      match first.encode table with
      | .ok (_, next) => tableAfter next rest
      | .error _ => table

def variableRecords (table : SymbolTable) : List Record :=
  (table.allocated.toList.zipIdx firstVariable).map fun (name, address) =>
    ⟨"hasm::assembler::symbols", .debug, s!"allocated variable `{name}` at {address}"⟩

def encodingRecords (program : List ParsedLine) (table : SymbolTable) : List Record :=
  let code := instructions program
  let count := code.length
  let labels := program.length - count
  let after := tableAfter table (code.map Prod.snd)
  let closing : List Record := match (encodeAll code).run table with
    | .ok _ => [⟨"hasm::assembler", .debug, s!"encoded {count} instruction(s)"⟩]
    | .error _ => []
  ⟨"hasm::assembler", .debug, s!"label scan bound {labels} label(s) over {count} instruction(s)"⟩ ::
    variableRecords after ++ closing

def assemblyRecords (source : String) : List Record :=
  cleaningRecord source ::
    match parseLines (clean source) with
    | .error _ => []
    | .ok program =>
        match bindLabels .initial 0 program with
        | .error _ => []
        | .ok table => encodingRecords program table

/-- One record for each file, up to the first that cannot be read. -/
def readingRecords : List SourceFile → List Record
  | [] => []
  | file :: rest =>
      match readFile file with
      | .error _ => []
      | .ok commands =>
          let count := commands.length
          let name := file.name
          ⟨"hasm::translator::parser", .debug, s!"parsed {count} command(s) from `{name}`"⟩ ::
            readingRecords rest

def translationRecords (files : List SourceFile) (config : Config) : List Record :=
  let closing : List Record := match readFiles files with
    | .error _ => []
    | .ok commands =>
        match translateCommands config commands with
        | .error _ => []
        | .ok (_, emission) =>
            let count := commands.length
            let total := files.length
            let emitted := emission.emitted
            [⟨"hasm::translator", .info,
              s!"translated {count} command(s) from {total} file(s) into {emitted} instruction(s)"⟩]
  readingRecords files ++ closing

def buildRecords (files : List SourceFile) (config : Config) : List Record :=
  let assembling : List Record := match translate files config with
    | .error _ => []
    | .ok text =>
        assemblyRecords text ++
          match listing text with
          | .error _ => []
          | .ok entries =>
              let total := files.length
              let count := entries.length
              [⟨"hasm::toolchain", .debug, s!"built {total} file(s) into {count} word(s)"⟩]
  translationRecords files config ++ assembling

end Hack.CommandLine
