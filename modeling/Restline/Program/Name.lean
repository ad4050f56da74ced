/-!
The name of the program, as it stands in command lines and in paths, and its version.
-/

set_option autoImplicit false

namespace Restline.Program

/-- The name of the program. -/
def name : String := "azrest"

/-- The version of the program. -/
def version : String := "0.1.0"

end Restline.Program
