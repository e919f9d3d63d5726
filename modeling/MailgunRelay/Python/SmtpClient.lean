import MailgunRelay.Python.Smtplib
import MailgunRelay.Smtp.Session

/-
  The Python relay's submission (`smtp_client.py`).

  Key definitions include:
    * `MailgunRelay.Python.FailureCategory`
    * `MailgunRelay.Python.categoryFor`
    * `MailgunRelay.Python.submit`
-/

------------------------------------------------------------
-- Categories
------------------------------------------------------------

namespace MailgunRelay

namespace Python

open Smtp

inductive FailureCategory where
  | permanent
  | temporary
  | auth
  deriving DecidableEq

/- The status a category leads to. -/
def FailureCategory.status : FailureCategory → Nat
| .permanent => 502
| .temporary => 503
| .auth => 502

/-
  The category of an exception.  Every exception of
  `smtplib` is an `OSError`, so the last case of the source
  is left to credentials that are not ASCII.
-/
def categoryFor : SmtpException → FailureCategory
| .authenticationError _ => .auth
| .recipientsRefused recipients =>
    if recipients.any fun r => 400 ≤ r.2 && r.2 ≤ 499 then
      .temporary
    else
      .permanent
| .unicodeEncodeError => .permanent
| e =>
    match e.smtpCode with
    | some code =>
        if 400 ≤ code ∧ code ≤ 499 then
          .temporary
        else
          .permanent
    | none => .temporary

end Python

end MailgunRelay

------------------------------------------------------------
-- Submission
------------------------------------------------------------

namespace MailgunRelay

namespace Python

open Smtp

/- What `submit` sees: its own error, or one of `smtplib`. -/
inductive Raised where
  | submit (category : FailureCategory)
  | smtp (e : SmtpException)
  deriving DecidableEq

def Raised.category : Raised → FailureCategory
| .submit category => category
| .smtp e => categoryFor e

/- Run a method of `smtplib`. -/
def call
    {α : Type}
    (m : Py α) : EStateM Raised Client α :=
  fun client =>
    match m client with
    | .ok a client => .ok a client
    | .error e client => .error (.smtp e) client

/- The `from_addr` of a configuration. -/
def envelopeSender (config : SmtpConfig) : Str :=
  match config.sender with
  | some address => address.text
  | none => []

/-
  From the first `EHLO`, whose reply is ignored as that of
  the second one, to the login.
-/
def secure
    (config : SmtpConfig)
    (script : Script) : EStateM Raised Client Unit := do
  call (ehlo script.ehlo script.ehloInfo)
  if config.tls then do
    call (starttls script)
    call (ehlo script.ehloTls script.ehloTlsInfo)
    call (login script config.credentials)
  else
    -- Credentials are always configured, so this refuses to
    -- send them in cleartext.
    throw (.submit .permanent)

/-
  The body of `submit`.  The cleanup in `finally` swallows
  its own exceptions.
-/
def session
    (config : SmtpConfig)
    (script : Script)
    (recipients : List Str) :
    EStateM Raised Client (List (Str × Int)) := do
  call (connect script)
  secure config script
  call (sendMessage script (envelopeSender config) recipients)

/- `submit`: the refused recipients, or a category. -/
def submit
    (config : SmtpConfig)
    (script : Script)
    (recipients : List Str) :
    Except FailureCategory (List (Str × Int)) :=
  match session config script recipients .fresh with
  | .ok refused _ => .ok refused
  | .error e _ => .error e.category

end Python

end MailgunRelay
