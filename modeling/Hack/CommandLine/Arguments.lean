import Hack.Stack.Translation

namespace Hack.CommandLine

/-! What the words on the command line ask for.

The words are read from left to right.  A request for help or for the version
and an unknown option take effect where they stand, and the words after them
are not looked at; that something is missing or given too often is found only
when all words have been read.
-/

inductive Subcommand where
  | asm
  | vm
  | build
deriving DecidableEq, Repr

def Subcommand.name : Subcommand → String
  | .asm => "asm"
  | .vm => "vm"
  | .build => "build"

def Subcommand.ofName? (name : String) : Option Subcommand :=
  [Subcommand.asm, .vm, .build].find? fun subcommand => subcommand.name == name

/-- The switches of a subcommand, which may be given once each. -/
def Subcommand.switches : Subcommand → List Char
  | .asm => ['e', 'd']
  | .vm => ['b', 'a']
  | .build => ['b']

/-- Work on an input. -/
inductive Task where
  | assemble (preprocessOnly showListing : Bool)
  | translate (config : Stack.Config)
  | build (bootstrap : Bool)
deriving DecidableEq, Repr

structure Job where
  subcommand : Subcommand
  task : Task
  verbosity : Nat
  input : String
  /-- The output that was asked for in place of the default one. -/
  output : Option String
deriving DecidableEq, Repr

inductive Request where
  | perform (job : Job)
  | help (topic : Option Subcommand)
  | version (topic : Option Subcommand)
  /-- No work was asked for. -/
  | idle
  | misuse (topic : Option Subcommand) (reason : String)
deriving DecidableEq, Repr

/-- The words after a subcommand as far as they have been read. -/
structure Scan where
  verbose : Nat := 0
  switches : List Char := []
  /-- How often an output was announced. -/
  outputMarks : Nat := 0
  outputs : List String := []
  inputs : List String := []
deriving DecidableEq, Repr

/-- The name in a long option, which is all between its dashes and a `=`. -/
def longName (word : List Char) : List Char :=
  (word.dropWhile (· == '-')).takeWhile (· != '=')

/-- Long options ask for help or for the version. -/
def longRequest (topic : Option Subcommand) (word : List Char) : Request :=
  if longName word = "help".toList then .help topic
  else if longName word = "version".toList then .version topic
  else .misuse topic "unexpected argument"

/-- Reads a cluster of short options.  The flag of the result says that the
value of the last one is still to come. -/
def scanCluster (subcommand : Subcommand) (scan : Scan) : List Char → Except Request (Scan × Bool)
  | [] => .ok (scan, false)
  | 'v' :: rest => scanCluster subcommand { scan with verbose := scan.verbose + 1 } rest
  | 'h' :: _ => .error (.help subcommand)
  | 'V' :: _ => .error (.version subcommand)
  | ['o'] => .ok ({ scan with outputMarks := scan.outputMarks + 1 }, true)
  | 'o' :: value =>
      let output := String.ofList (value.dropWhile (· == '='))
      .ok ({ scan with outputMarks := scan.outputMarks + 1, outputs := scan.outputs ++ [output] }, false)
  | letter :: rest =>
      if subcommand.switches.contains letter then
        scanCluster subcommand { scan with switches := scan.switches ++ [letter] } rest
      else .error (.misuse subcommand "unexpected argument")

/-- There is room for one input. -/
def Scan.addInput (subcommand : Subcommand) (scan : Scan) (word : String) : Except Request Scan :=
  if scan.inputs.isEmpty then .ok { scan with inputs := [word] }
  else .error (.misuse subcommand "unexpected argument")

/-- Reads the words after a subcommand.  After `--` every word is an input.  A
single dash is a value like any other word. -/
def scanWords (subcommand : Subcommand) (scan : Scan) (awaited : Bool) :
    List String → Except Request Scan
  | [] => .ok scan
  | word :: rest =>
      match word.toList with
      | ['-', '-'] => rest.foldlM (Scan.addInput subcommand) scan
      | '-' :: '-' :: _ => .error (longRequest subcommand word.toList)
      | '-' :: letter :: letters =>
          match scanCluster subcommand scan (letter :: letters) with
          | .ok (next, waits) => scanWords subcommand next waits rest
          | .error request => .error request
      | _ =>
          if awaited then
            scanWords subcommand { scan with outputs := scan.outputs ++ [word] } false rest
          else
            match scan.addInput subcommand word with
            | .ok next => scanWords subcommand next false rest
            | .error request => .error request

def Subcommand.task (subcommand : Subcommand) (switches : List Char) : Task :=
  let given := switches.contains
  match subcommand with
  | .asm => .assemble (given 'e') (given 'd')
  | .vm => .translate { bootstrap := given 'b', annotate := given 'a' }
  | .build => .build (given 'b')

/-- The job that has been read, unless something is missing or given twice. -/
def Scan.finish (subcommand : Subcommand) (verbose : Nat) (scan : Scan) : Request :=
  match scan.inputs with
  | [] => .misuse subcommand "the input is missing"
  | input :: _ =>
      if scan.outputMarks ≠ scan.outputs.length then
        .misuse subcommand "an option is without its value"
      else if 1 < scan.outputMarks ∨ ¬ scan.switches.Nodup then
        .misuse subcommand "an option is given more than once"
      else .perform
        { subcommand := subcommand
          task := subcommand.task scan.switches
          verbosity := if scan.verbose = 0 then verbose else scan.verbose
          input := input
          output := scan.outputs.head? }

def Subcommand.request (subcommand : Subcommand) (verbose : Nat) (words : List String) : Request :=
  match scanWords subcommand {} false words with
  | .ok scan => scan.finish subcommand verbose
  | .error request => request

/-- The words after `help` may name one subcommand. -/
def helpRequest : List String → Request
  | [] => .help none
  | [word] =>
      match Subcommand.ofName? word with
      | some subcommand => .help subcommand
      | none => if word = "help" then .help none else .misuse none "unknown subcommand"
  | _ => .misuse none "unknown subcommand"

/-- Reads a cluster of short options before the subcommand. -/
def openingCluster (verbose : Nat) : List Char → Except Request Nat
  | [] => .ok verbose
  | 'v' :: rest => openingCluster (verbose + 1) rest
  | 'h' :: _ => .error (.help none)
  | 'V' :: _ => .error (.version none)
  | _ => .error (.misuse none "unexpected argument")

/-- Reads all words.  How much is to be reported may be said before the
subcommand or after it; what is said after it counts. -/
def Request.ofWords (verbose : Nat) : List String → Request
  | [] => .idle
  | word :: rest =>
      match word.toList with
      | '-' :: '-' :: _ => longRequest none word.toList
      | '-' :: letter :: letters =>
          match openingCluster verbose (letter :: letters) with
          | .ok more => Request.ofWords more rest
          | .error request => request
      | _ =>
          if word = "help" then helpRequest rest
          else match Subcommand.ofName? word with
            | some subcommand => subcommand.request verbose rest
            | none => .misuse none "unknown subcommand"

def Request.parse (words : List String) : Request :=
  Request.ofWords 0 words

end Hack.CommandLine
