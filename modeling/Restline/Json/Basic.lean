import Restline.Keyed
import Restline.Number.Shortest

/-!
JSON values. Whole numbers are unbounded and apart from binary ones, and the members of an object keep
their order.

* `Json` : the values.
* `Json.isFinite` : no number in the value is infinite or no number.
* `Json.withoutNonFinite` : the value with null in place of such numbers.
-/

set_option autoImplicit false

namespace Restline

/-- A JSON value. -/
inductive Json
  | null
  | bool (b : Bool)
  | int (n : Int)
  | float (x : Number.Binary64)
  | str (s : String)
  | arr (items : List Json)
  | obj (members : List (String × Json))
deriving Inhabited

namespace Json

/-! ### Finite numbers -/

mutual

/-- Every number in the value is finite. -/
def isFinite : Json → Bool
  | .float x => x.isFinite
  | .arr items => allFinite items
  | .obj members => membersFinite members
  | _ => true

/-- Every number in the items is finite. -/
def allFinite : List Json → Bool
  | [] => true
  | j :: r => j.isFinite && allFinite r

/-- Every number in the members is finite. -/
def membersFinite : List (String × Json) → Bool
  | [] => true
  | (_, j) :: r => j.isFinite && membersFinite r

end

mutual

/-- The value with null in place of every number that is not finite. -/
def withoutNonFinite : Json → Json
  | .float x => if x.isFinite then .float x else .null
  | .arr items => .arr (itemsWithout items)
  | .obj members => .obj (membersWithout members)
  | j => j

/-- The items with null in place of every number that is not finite. -/
def itemsWithout : List Json → List Json
  | [] => []
  | j :: r => j.withoutNonFinite :: itemsWithout r

/-- The members with null in place of every number that is not finite. -/
def membersWithout : List (String × Json) → List (String × Json)
  | [] => []
  | (k, j) :: r => (k, j.withoutNonFinite) :: membersWithout r

end

/-! ### Equality -/

mutual

/-- Equality of values, with the members of objects in order. -/
def beq : Json → Json → Bool
  | .null, .null => true
  | .bool a, .bool b => a == b
  | .int a, .int b => a == b
  | .float a, .float b => a == b
  | .str a, .str b => a == b
  | .arr a, .arr b => beqItems a b
  | .obj a, .obj b => beqMembers a b
  | _, _ => false

/-- Equality of items. -/
def beqItems : List Json → List Json → Bool
  | [], [] => true
  | a :: r, b :: s => beq a b && beqItems r s
  | _, _ => false

/-- Equality of members in order. -/
def beqMembers : List (String × Json) → List (String × Json) → Bool
  | [], [] => true
  | (k, a) :: r, (l, b) :: s => k == l && beq a b && beqMembers r s
  | _, _ => false

end

instance : BEq Json := ⟨beq⟩

/-! ### Access -/

/-- The member of an object under a name. -/
def member? : Json → String → Option Json
  | .obj members, name => Keyed.get? members name
  | _, _ => none

/-- The text of a string value. -/
def text? : Json → Option String
  | .str s => some s
  | _ => none

/-- The value, unless it is null. -/
def nonNull? : Json → Option Json
  | .null => none
  | j => some j

/-- The value is empty, zero, false or null. -/
def isEmpty : Json → Bool
  | .null => true
  | .bool b => !b
  | .int n => n == 0
  | .float x => match x with
    | .finite _ m _ => m == 0
    | _ => false
  | .str s => s.isEmpty
  | .arr items => items.isEmpty
  | .obj members => members.isEmpty

end Json

end Restline
