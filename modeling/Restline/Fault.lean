import Restline.Fault.Kind
import Restline.Validation

/-!
Failures as they are told. Each module has failures of its own, which name the cause; what the user gets
to see of any of them is a kind, a message, and the issues of a document.

* `Fault` : a failure as it is told.
* `Fault.ofCrash` : a failure that nobody foresaw.
* `Fault.text` : a failure in words.
-/

set_option autoImplicit false

namespace Restline

/-- A failure as it is told: its kind, its words, and the issues of the document that did not fit. -/
structure Fault where
  kind : FaultKind
  message : String := ""
  issues : List Issue := []
deriving DecidableEq, Repr

/-- A failure that nobody foresaw. -/
def Fault.ofCrash (c : Crash) : Fault := ⟨.crash c, "", []⟩

/-- How many issues there are, in words. -/
def issueCount : List Issue → String
  | [] => ""
  | [_] => "<1 validation error>"
  | is => "<" ++ toString is.length ++ " validation errors>"

/-- The failure in words, with the number of its issues. -/
def Fault.text (f : Fault) : String := f.message ++ issueCount f.issues

/-- The exit status of a failure. -/
def Fault.exitCode (f : Fault) : Nat := f.kind.exitCode

end Restline
