import Hack.Proofs.CommandLine.Extensions
import Hack.Proofs.CommandLine.Outcome

namespace Hack.CommandLine

open Hack.Stack

variable {world : World} {words : List String} {job : Job} {location : Location} {name ending : String}

end Hack.CommandLine
