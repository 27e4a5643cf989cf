import Hack.Proofs.CommandLine.Sources

namespace Hack.CommandLine

open Hack.Assembly Hack.Stack Hack.Text

variable {world : World} {input path : Path} {start place : Location} {content name : String}
variable {files after : FileSystem} {task : Task} {job : Job}

namespace World

end World

end Hack.CommandLine
