import MailgunRelay.PyStr

/-
  Subject and custom header validation (`headers.rs`).

  Key definitions include:
    * `MailgunRelay.HeaderError`
    * `MailgunRelay.containsForbiddenControlChars`
    * `MailgunRelay.isDangerous`
    * `MailgunRelay.validateSubject`
    * `MailgunRelay.validateCustomHeaders`
-/

------------------------------------------------------------
-- Errors
------------------------------------------------------------

namespace MailgunRelay

/- Every failure is a 400. -/
inductive HeaderError where
  | injection
  | tooLong
  | dangerous
  deriving DecidableEq

/- The `error_class` of the request record. -/
def HeaderError.class : HeaderError → Str
| .injection => "HeaderInjectionError".toList
| .tooLong => "HeaderTooLongError".toList
| .dangerous => "DangerousHeaderError".toList

end MailgunRelay

------------------------------------------------------------
-- Checks
------------------------------------------------------------

namespace MailgunRelay

/-
  C0 and C1 controls except TAB, DEL, and the two Unicode
  line separators.
-/
def isForbiddenControl (c : Char) : Bool :=
  c.toNat ≤ 8 || (10 ≤ c.toNat && c.toNat ≤ 0x1f) ||
    (0x7f ≤ c.toNat && c.toNat ≤ 0x9f) ||
    c.toNat == 0x2028 || c.toNat == 0x2029

def containsForbiddenControlChars (value : Str) : Bool :=
  value.any isForbiddenControl

/- Headers the relay sets, MIME structure and receipts. -/
def dangerousNames : List Str :=
  ["bcc", "received", "return-path", "message-id", "date",
    "from", "to", "cc", "subject", "sender",
    "mime-version", "content-type",
    "content-transfer-encoding", "content-disposition",
    "content-id", "disposition-notification-to",
    "return-receipt-to"].map String.toList

def isDangerous [Unicode] (name : Str) : Bool :=
  let lowered := lowercase name
  dangerousNames.contains lowered ||
    "resent-".toList.isPrefixOf lowered

/- `^[A-Za-z][A-Za-z0-9-]*$` as a full match. -/
def isHeaderName : Str → Bool
| [] => false
| c :: rest =>
    c.isAlpha && rest.all fun b => b.isAlphanum || b == '-'

/- Longer than so many code points. -/
def longerThan (value : Str) (max : I64) : Bool :=
  exceeds value.length max

/- The subject as sent: stripped, then checked. -/
def validateSubject
    (value : Str)
    (maxLength : I64) : Except HeaderError Str :=
  let stripped := pyStrip value
  if containsForbiddenControlChars stripped then
    .error .injection
  else if longerThan stripped maxLength then
    .error .tooLong
  else
    .ok stripped

/- The `h:*` headers in map order, first error wins. -/
def validateCustomHeaders
    [Unicode]
    (maxValueLength : I64) :
    List (Str × Str) → Except HeaderError Unit
| [] => .ok ()
| (name, value) :: rest =>
    if !isHeaderName name then
      .error .injection
    else if isDangerous name then
      .error .dangerous
    else if containsForbiddenControlChars value then
      .error .injection
    else if longerThan value maxValueLength then
      .error .tooLong
    else
      validateCustomHeaders maxValueLength rest

end MailgunRelay
