import Restline.CommandLine.Grammar
import Restline.Console

/-!
Runs of the program. A run acts on the host until its work is done or something stops it: a failure, an
exit, a command line that is refused, a question that meets the end of the input, or a request for help.

* `Stop` : what stops a run.
* `Run` : the runs, with `Run.act` and `Run.parse`.
* `Run.fail` : an error is told, and the run exits.
-/

set_option autoImplicit false

namespace Restline

/-- What stops a run. -/
inductive Stop
  | fault (f : Fault)
  | exit (status : Nat)
  | refused (f : UsageFault)
  /-- A question met the end of the input. -/
  | aborted
  /-- Help was asked for, on the command or group of this path. -/
  | help (path : List String)
deriving DecidableEq, Repr

/-- A run of the program, or a part of one. -/
abbrev Run := ExceptT Stop (StateM Host)

namespace Run

variable {α : Type}

/-- An action on the host; its failure stops the run. -/
def act (x : Act α) : Run α := fun h =>
  let (r, h) := x h
  (r.mapError Stop.fault, h)

/-- What words give; when they are refused the run stops. -/
def parse (x : Except UsageFault α) : Run α := ExceptT.mk (pure (x.mapError Stop.refused))

/-- Tells an error and exits. -/
def fail (con : Console) (message : String) (status : Nat) : Run α := do
  act (con.error message)
  throw (.exit status)

end Run

end Restline
