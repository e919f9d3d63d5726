import MailgunRelay.Data
import MailgunRelay.Python.SmtpClient

/-
  The exceptions of the Python relay (`errors.py`,
  `auth.py`, `policy.py`, `headers.py`) and their classes.

  Key definitions include:
    * `MailgunRelay.Python.ExcClass`
    * `MailgunRelay.Python.Exc`
    * `MailgunRelay.Python.Exc.isInstance`
-/

------------------------------------------------------------
-- Classes
------------------------------------------------------------

namespace MailgunRelay

namespace Python

/- The exception classes the route tells apart. -/
inductive ExcClass where
  | exception
  | valueError
  | authError
  | policyError
  | invalidAddressError
  | headerInjectionError
  | headerTooLongError
  | dangerousHeaderError
  | mailgunRelayError
  | badRequestError
  | payloadTooLargeError
  | smtpSubmitError
  | httpException
  deriving DecidableEq

/- The class a class is derived from. -/
def ExcClass.base : ExcClass → ExcClass
| .exception => .exception
| .valueError => .exception
| .authError => .exception
| .policyError => .valueError
| .invalidAddressError => .policyError
| .headerInjectionError => .valueError
| .headerTooLongError => .valueError
| .dangerousHeaderError => .valueError
| .mailgunRelayError => .exception
| .badRequestError => .mailgunRelayError
| .payloadTooLargeError => .mailgunRelayError
| .smtpSubmitError => .exception
| .httpException => .exception

/- A class and its ancestors. -/
def ExcClass.mro (cls : ExcClass) : List ExcClass :=
  [cls, cls.base, cls.base.base, cls.base.base.base]

end Python

end MailgunRelay

------------------------------------------------------------
-- Exceptions
------------------------------------------------------------

namespace MailgunRelay

namespace Python

/-
  An exception: its class, the name of its type, its text,
  and what some classes carry: the detail of an
  `HTTPException`, the category of an `SmtpSubmitError` and
  the response of a `MailgunRelayError`.
-/
structure Exc where
  cls : ExcClass
  name : Str
  text : Str
  detail : Str
  category : FailureCategory
  infoStatus : Nat
  infoMessage : Str

/- `isinstance`. -/
def Exc.isInstance
    (exc : Exc)
    (classes : List ExcClass) : Bool :=
  classes.any fun cls => exc.cls.mro.contains cls

/- An exception of a class without more than a text. -/
def Exc.plain (cls : ExcClass) (name text : Str) : Exc :=
  { cls := cls
    name := name
    text := text
    detail := []
    category := .permanent
    infoStatus := 500
    infoMessage := "Internal Server Error".toList }

def badRequestError (message : Str) : Exc :=
  { Exc.plain .badRequestError "BadRequestError".toList
      message with
    infoStatus := 400
    infoMessage := message }

def payloadTooLargeError (message : Str) : Exc :=
  { Exc.plain .payloadTooLargeError
      "PayloadTooLargeError".toList message with
    infoStatus := 413
    infoMessage := "Payload Too Large".toList }

/- `repr` of a string. -/
class Repr where
  repr : Str → Str

end Python

end MailgunRelay
