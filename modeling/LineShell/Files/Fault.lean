import LineShell.Files.Store
import LineShell.Text.Quoted

/-! The reports on file operations that cannot be done. -/

namespace LineShell.Files

def Fault.message : Fault → String
  | .refused cause path => cause.words ++ ": " ++ Text.quoted path.toString
  | .nul => "embedded null byte"

end LineShell.Files
