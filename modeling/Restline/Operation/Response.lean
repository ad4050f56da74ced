import Restline.Fault
import Restline.Metadata.Command
import Restline.Text.Utf8

/-!
Responses. A response is accepted when some response that the operation declares lists its status; that a
declared response stands for an error makes no difference.

* `Reply` : a status and the bytes of a body.
* `Response.lists`, `Reply.route` : the text of an accepted response, or the undeclared status.
-/

set_option autoImplicit false

namespace Restline

/-- What a service answers. -/
structure Reply where
  status : Int
  body : ByteArray

/-- A status that the operation does not declare, with the text of the response. -/
structure UndeclaredFault where
  status : Int
  text : String
deriving DecidableEq, Repr

/-- The failure as it is told. -/
def UndeclaredFault.report (f : UndeclaredFault) : Fault where
  kind := .response f.status
  message := "error response: " ++ toString f.status ++ "\n\n" ++ f.text

/-- The response lists the status. -/
def Response.lists (r : Response) (status : Int) : Bool := r.statusCodes.any (·.contains status)

/-- The text of the response, if its status is declared. -/
def Response.route (declared : List Response) (status : Int) (text : String) :
    Except UndeclaredFault String :=
  if declared.any (·.lists status) then .ok text else .error ⟨status, text⟩

/-- The text of the body, if the status is declared. -/
def Reply.route (r : Reply) (declared : List Response) : Except UndeclaredFault String :=
  Response.route declared r.status (Text.Utf8.decodeLossy r.body)

end Restline
