import MailgunRelay.PyStr

/-
  The environment settings (`config.rs`) as the request
  pipeline reads them.

  Key definitions include:
    * `MailgunRelay.Level`
    * `MailgunRelay.Settings`
-/

------------------------------------------------------------
-- Levels
------------------------------------------------------------

namespace MailgunRelay

/- Log levels in ascending order. -/
inductive Level where
  | trace
  | debug
  | info
  | warning
  | error
  | critical
  deriving DecidableEq

/- The place of a level in the order. -/
def Level.rank : Level → Nat
| .trace => 0
| .debug => 1
| .info => 2
| .warning => 3
| .error => 4
| .critical => 5

instance : LT Level :=
  ⟨fun a b => a.rank < b.rank⟩

instance (a b : Level) : Decidable (a < b) :=
  inferInstanceAs (Decidable (a.rank < b.rank))

end MailgunRelay

------------------------------------------------------------
-- Settings
------------------------------------------------------------

namespace MailgunRelay

/- The settings a request depends on; limits are `i64`. -/
structure Settings where
  publicHost : Str
  failOnPartialRefusal : Bool
  maxBodyBytes : I64
  maxAttachments : I64
  maxAttachmentBytes : I64
  maxRecipients : I64
  maxHeaderValueLength : I64

end MailgunRelay
