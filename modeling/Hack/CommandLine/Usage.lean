import Hack.CommandLine.Arguments

namespace Hack.CommandLine

/-- The program's name, alone or with a subcommand. -/
def invocation : Option Subcommand → String
  | none => "hasm"
  | some subcommand => "hasm-" ++ subcommand.name

/-- Only the program as a whole has a version number. -/
def versionText : Option Subcommand → String
  | none => "hasm 0.1.0\n"
  | topic => invocation topic ++ " \n"

def usageLine : Option Subcommand → String
  | none => "    hasm [FLAGS] <SUBCOMMAND>\n"
  | some .asm => "    hasm asm [FLAGS] [OPTIONS] <INPUT>\n"
  | some .vm => "    hasm vm [FLAGS] [OPTIONS] <INPUT>\n"
  | some .build => "    hasm build [FLAGS] [OPTIONS] <INPUT>\n"

def generalFlags : String :=
  "    -h, --help       Prints help information\n" ++
  "    -V, --version    Prints version information\n" ++
  "    -v               Sets the level of verbosity\n"

def switchText : Char → String
  | 'e' => "    -e               preprocess only\n"
  | 'd' => "    -d               prints the listing of the program to standard output\n"
  | 'b' => "    -b               emit startup code that sets SP to 256 and calls Sys.init\n"
  | _ => "    -a               precede the code of each command with the command as a comment\n"

def details : Option Subcommand → String
  | none =>
      "\nSUBCOMMANDS:\n" ++
      "    asm      assembles a .asm file into a .hack file\n" ++
      "    build    translates and assembles .vm code straight into a .hack file\n" ++
      "    help     prints this message or the help of a subcommand\n" ++
      "    vm       translates a .vm file, or a directory of them, into a .asm file\n"
  | some _ => "\nOPTIONS:\n    -o <output>      write output to a file\n"

def helpText (topic : Option Subcommand) : String :=
  let switches := match topic with
    | none => []
    | some subcommand => subcommand.switches.map switchText
  invocation topic ++ "\n\nUSAGE:\n" ++ usageLine topic ++ "\nFLAGS:\n" ++ String.join switches ++
    generalFlags ++ details topic

def misuseText (topic : Option Subcommand) (reason : String) : String :=
  "error: " ++ reason ++ "\n\nUSAGE:\n" ++ usageLine topic ++ "\nFor more information try --help\n"

end Hack.CommandLine
