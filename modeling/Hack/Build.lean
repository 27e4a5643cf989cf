import Hack.Assembly.Listing
import Hack.Stack.Translation

namespace Hack

/-- The binary text of stack files: their translation, assembled. -/
def build (files : List Stack.SourceFile) (config : Stack.Config) : Except Error String := do
  Assembly.assemble (← Stack.translate files config)

end Hack
