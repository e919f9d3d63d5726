import Mathlib.Algebra.Ring.Int.Defs
import Mathlib.Algebra.Ring.Nat
import Mathlib.Data.Finset.Basic

/-
  The data the modules of the relay hand to each other.

  Text is a list of characters and a body is a list of
  bytes.

  Key definitions include:
    * `MailgunRelay.Str`
    * `MailgunRelay.Bytes`
    * `MailgunRelay.Refusal`
    * `MailgunRelay.SubmitError`
    * `MailgunRelay.BuiltMessage`
    * `MailgunRelay.TokenPolicy`
-/

------------------------------------------------------------
-- Text And Bytes
------------------------------------------------------------

namespace MailgunRelay

/- A Rust `String` or `&str`: Unicode scalar values. -/
abbrev Str := List Char

/- A Rust `Vec<u8>` or `&[u8]`. -/
abbrev Bytes := List UInt8

end MailgunRelay

------------------------------------------------------------
-- Messages And Submissions
------------------------------------------------------------

namespace MailgunRelay

/-
  `BuiltMessage`: the Message-Id (also the response `id`),
  the `RCPT TO` addresses and the message bytes.
-/
structure BuiltMessage where
  messageId : Str
  envelope : List Str
  formatted : Bytes
  deriving DecidableEq

/-
  A recipient the SMTP server refused while it accepted the
  message for the others.
-/
structure Refusal where
  address : Str
  code : Option Nat
  deriving DecidableEq

/- A failed submission. -/
inductive SubmitError where
  | temporary
  | permanent
  deriving DecidableEq

/- The status the pipeline answers it with. -/
def SubmitError.status : SubmitError → Nat
| .temporary => 503
| .permanent => 502

end MailgunRelay

------------------------------------------------------------
-- Tokens
------------------------------------------------------------

namespace MailgunRelay

/-
  What a token allows.  Without `allowedFromAddresses` the
  domain rule alone decides.
-/
structure TokenPolicy where
  label : Str
  tokenSha256 : Str
  mailgunDomains : Finset Str
  allowedFromDomains : Finset Str
  allowedFromAddresses : Option (Finset Str)

end MailgunRelay
