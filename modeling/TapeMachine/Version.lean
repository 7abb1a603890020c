/-!
# Version

The version that the program reports of itself.
-/

namespace TapeMachine

/-- The version of the program. -/
def version : String := "0.1.0"

end TapeMachine
