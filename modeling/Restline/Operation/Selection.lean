import Restline.Argument
import Restline.Metadata.Command
import Restline.ResourceId

/-!
Selection of the one operation that an input points at. A command without conditions has one operation.
With conditions, a full identifier selects by the template it fits, and bound arguments select by the
first condition that holds; either way the result is the name of a condition, and the first operation
tagged with it is taken.

* `Operator.holds` : an expression over bound arguments.
* `Condition.firstThatHolds`, `Operation.tagForId` : the two ways to a name.
* `Command.select` : the operation, or why there is none.
-/

set_option autoImplicit false

namespace Restline

/-! ### Expressions -/

namespace Operator

mutual

/-- The expression holds for the bound arguments. -/
def holds (b : Bound) : Operator → Bool
  | .hasValue arg => b.has arg
  | .not o => !o.holds b
  | .all os => allHold b os
  | .any os => anyHolds b os

/-- Every expression of the list holds. -/
def allHold (b : Bound) : List Operator → Bool
  | [] => true
  | o :: r => o.holds b && allHold b r

/-- Some expression of the list holds. -/
def anyHolds (b : Bound) : List Operator → Bool
  | [] => false
  | o :: r => o.holds b || anyHolds b r

end

end Operator

/-! ### Names of conditions -/

/-- The name of the first condition that holds. -/
def Condition.firstThatHolds (cs : List Condition) (b : Bound) : Option String :=
  (cs.find? (fun c => c.operator.holds b)).map Condition.var

/-- The identifier fits the template of the operation. -/
def Operation.accepts (o : Operation) (r : ResourceId) : Bool :=
  o.http.any (fun h => r.fits h.path (some h.request.method))

/-- The last tag of the first operation whose template the identifier fits. -/
def Operation.tagForId (os : List Operation) (r : ResourceId) : Option String :=
  (os.find? (·.accepts r)).bind (·.when.getLast?)

/-! ### The operation -/

/-- Why no operation is selected. -/
inductive SelectFault
  | notSingle (count : Nat)
  | undetermined
deriving DecidableEq, Repr

/-- The failure as it is told. -/
def SelectFault.report : SelectFault → Fault
  | .notSingle count =>
    { kind := .integrity
      message := "command without conditions must have exactly one operation, found "
        ++ toString count }
  | .undetermined =>
    { kind := .operationNotFound
      message := "no single operation could be determined from the input" }

/-- The first operation with a tag. -/
def Operation.tagged (os : List Operation) (tag : String) : Option Operation :=
  os.find? (fun o => o.when.contains tag)

/-- The operation that the input points at. -/
def Command.select (c : Command) (b : Bound) (r : Option ResourceId) : Except SelectFault Operation :=
  match c.conditions with
  | none =>
    match c.operations with
    | [o] => .ok o
    | os => .error (.notSingle os.length)
  | some cs =>
    -- with an identifier no condition is looked at
    let tag := match r with
      | some r => Operation.tagForId c.operations r
      | none => Condition.firstThatHolds cs b
    match tag.bind (Operation.tagged c.operations) with
    | some o => .ok o
    | none => .error .undetermined

end Restline
