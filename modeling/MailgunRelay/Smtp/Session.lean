import MailgunRelay.Lib.Text
import MailgunRelay.Lib.Wp
import MailgunRelay.Smtp.Connection

/-
  One submission over one connection (`smtp.rs`).

  Key definitions include:
    * `MailgunRelay.Smtp.SmtpConfig`
    * `MailgunRelay.Smtp.envelopeAddress`
    * `MailgunRelay.Smtp.login`
    * `MailgunRelay.Smtp.rcptTo`
    * `MailgunRelay.Smtp.transaction`
    * `MailgunRelay.Smtp.session`
-/

------------------------------------------------------------
-- Configuration And Failures
------------------------------------------------------------

namespace MailgunRelay

namespace Smtp

/-
  `SmtpConfig` without the host, the port and the timeout,
  which only the transport uses; `tls` says whether
  `SMTP_STARTTLS` is on.  No sender is the null sender.
-/
structure SmtpConfig where
  tls : Bool
  credentials : SmtpCredentials
  sender : Option Address

/-
  An envelope address: split at the last `@`, both sides
  ASCII without whitespace or angle brackets.
-/
def envelopeAddress (address : Str) : Option Address :=
  match Lib.Text.rsplitOnce '@' address with
  | some (user, domain) =>
      if hValid :
          printable user = true ∧ printable domain = true then
        some { user := user, domain := domain, valid := hValid }
      else
        none
  | none => none

/-
  A failed step: the outcome, and whether the channel is
  still open for `QUIT`.
-/
structure Failure where
  error : SubmitError
  isOpen : Bool
  deriving DecidableEq

def byCode (code : Nat) : SubmitError :=
  if 400 ≤ code ∧ code < 500 then
    .temporary
  else
    .permanent

/-
  A negative reply decides by its code, and 421 closes the
  channel.  Without a code the failure is temporary and the
  channel is gone, except for lettre's own refusals.
-/
def failure (error : Error) : Failure :=
  match error.status with
  | some code =>
      { error := byCode code, isOpen := code != 421 }
  | none =>
      { error := .temporary, isOpen := error.isClient }

/- A positive reply other than the wanted ones: permanent. -/
def require
    (code : Nat)
    (wanted : List Nat) : Except Failure Unit :=
  if code ∈ wanted then
    .ok ()
  else
    .error { error := .permanent, isOpen := true }

/-
  Python ignores the `EHLO` reply, so the next step decides:
  with STARTTLS it finds no STARTTLS (503), without it the
  credentials are refused in cleartext (502).
-/
def ehloFailure
    (config : SmtpConfig)
    (error : Error) : SubmitError :=
  match error.status with
  | some _ =>
      if config.tls then .temporary else .permanent
  | none => .temporary

end Smtp

end MailgunRelay

------------------------------------------------------------
-- The Transaction
------------------------------------------------------------

namespace MailgunRelay

namespace Smtp

/- A step of the transaction. -/
abbrev Step := EStateM Failure Wire

/-
  Each offered mechanism in turn until one is answered with
  235.  A refusal with a code moves on to the next one; 421
  and failures without a code end the session.
-/
def tryMechanisms
    (config : SmtpConfig)
    (script : Script) : List Mechanism → Step Unit
| [] => throw { error := .permanent, isOpen := true }
| mechanism :: rest => do
    match ← Lib.attempt
        (Wire.auth script mechanism config.credentials) with
    | .ok code =>
        if code = 235 then
          pure ()
        else
          tryMechanisms config script rest
    | .error error =>
        if error.status.all (· == 421) then
          throw (failure error)
        else
          tryMechanisms config script rest

/- `smtplib.login`: PLAIN, then LOGIN, if offered. -/
def login
    (config : SmtpConfig)
    (script : Script) : Step Unit := do
  let w ← get
  let offered :=
    [Mechanism.plain, .login].filter
      w.serverInfo.supportsAuthMechanism
  if offered.isEmpty then
    throw { error := .temporary, isOpen := true }
  else
    tryMechanisms config script offered

/- The state of the `RCPT` loop. -/
structure Rcpts where
  accepted : Nat
  refused : List Refusal
  closed : Bool

/-
  One `RCPT` for each recipient.  The loop ends early at a
  421 (the server closed) and throws without a reply code.
-/
def rcptTo
    (script : Script) :
    Nat → List (Address × Str) → Rcpts → Step Rcpts
| _, [], acc => pure acc
| i, (address, raw) :: rest, acc => do
    let answer ← Lib.attempt
      (Wire.command (.rcpt address) (script.rcpt i))
    let reply ←
      match answer with
      | .ok code => pure code
      | .error error =>
          match error.status with
          | some code => pure code
          | none => throw (failure error)
    if reply = 250 ∨ reply = 251 then
      rcptTo script (i + 1) rest
        { acc with accepted := acc.accepted + 1 }
    else
      let refused :=
        acc.refused ++ [{ address := raw, code := some reply }]
      if reply = 421 then
        pure { acc with refused := refused, closed := true }
      else
        rcptTo script (i + 1) rest
          { acc with refused := refused }

/- Whether a refusal carries a 4xx code. -/
def Refusal.isTemporary (refusal : Refusal) : Bool :=
  refusal.code.any fun c => 400 ≤ c && c < 500

/- `strip_suffix(b"\r\n")`, the body itself without it. -/
def stripFinalCrlf (formatted : Bytes) : Bytes :=
  if [13, 10].isSuffixOf formatted then
    formatted.take (formatted.length - 2)
  else
    formatted

/-
  `STARTTLS` when it is configured.  An error with the
  channel already encrypted is a failed second `EHLO`.
-/
def upgrade
    (config : SmtpConfig)
    (script : Script) : Step Unit :=
  if config.tls then do
    match ← Lib.attempt (Wire.starttls script) with
    | .ok () => pure ()
    | .error error =>
        let w ← get
        if w.encrypted then
          throw { error := .temporary, isOpen := false }
        else
          throw (failure error)
  else
    pure ()

/- Never send the credentials in cleartext. -/
def requireEncrypted : Step Unit := do
  let w ← get
  if w.encrypted then
    pure ()
  else
    throw { error := .permanent, isOpen := true }

/- A command whose reply must carry a wanted code. -/
def exchange
    (cmd : Command)
    (reply : Reply)
    (wanted : List Nat) : Step Unit := do
  match ← Lib.attempt (Wire.command cmd reply) with
  | .ok code => Lib.liftExcept (require code wanted)
  | .error error => throw (failure error)

/-
  No recipient left for the message, or the server closed:
  one temporary refusal makes it 503.
-/
def requireAccepted (rcpts : Rcpts) : Step Unit :=
  if rcpts.accepted = 0 ∨ rcpts.closed then
    throw
      { error :=
          if rcpts.refused.any Refusal.isTemporary then
            .temporary
          else
            .permanent
        isOpen := !rcpts.closed }
  else
    pure ()

/- From STARTTLS to the reply to the end of the data. -/
def transaction
    (config : SmtpConfig)
    (script : Script)
    (recipients : List (Address × Str))
    (message : BuiltMessage) : Step (List Refusal) := do
  upgrade config script
  requireEncrypted
  login config script
  exchange (.mail config.sender) script.mail [250]
  let rcpts ← rcptTo script 0 recipients
    { accepted := 0, refused := [], closed := false }
  requireAccepted rcpts
  exchange .data script.data [354]
  -- lettre ends the data with CRLF "." CRLF; the final CRLF
  -- of the message is that first CRLF.
  let body := stripFinalCrlf message.formatted
  exchange (.message body) script.dataEnd [250]
  pure rcpts.refused

end Smtp

end MailgunRelay

------------------------------------------------------------
-- The Session
------------------------------------------------------------

namespace MailgunRelay

namespace Smtp

/- The `error_class` of a `smtp_cleanup_failed` record. -/
inductive CleanupFailed where
  | unexpectedReply
  | negativeReply
  | timeout
  | disconnected
  deriving DecidableEq

/- `QUIT` must be answered with 221; else a record. -/
def quit
    (script : Script)
    (w : Wire) : List CleanupFailed × Wire :=
  match w.command .quit script.quit with
  | (.ok code, w) =>
      (if code = 221 then [] else [.unexpectedReply], w)
  | (.error error, w) =>
      (if error.status.isSome then [.negativeReply]
        else if error.isTimeout then [.timeout]
        else [.disconnected], w)

/- What a session leaves behind. -/
structure SessionRun where
  outcome : Except SubmitError (List Refusal)
  trace : List Event
  cleanup : List CleanupFailed

/- The recipients with their lettre addresses. -/
def recipientsOf
    (envelope : List Str) : Option (List (Address × Str)) :=
  envelope.mapM fun raw =>
    (envelopeAddress raw).map fun address => (address, raw)

/- The outcome and the cleanup after a transaction. -/
def finish
    (script : Script) :
    EStateM.Result Failure Wire (List Refusal) → SessionRun
| .ok refused w =>
    let done :=
      if !script.broken then quit script w else ([], w)
    { outcome := .ok refused
      trace := done.2.trace
      cleanup := done.1 }
| .error fault w =>
    let done :=
      if fault.isOpen && !script.broken then
        quit script w
      else
        ([], w)
    { outcome := .error fault.error
      trace := done.2.trace
      cleanup := done.1 }

/- `SmtpSubmitter::session`. -/
def session
    (config : SmtpConfig)
    (script : Script)
    (message : BuiltMessage) : SessionRun :=
  match recipientsOf message.envelope with
  | none =>
      -- `smtplib` without SMTPUTF8.
      { outcome := .error .temporary
        trace := []
        cleanup := [] }
  | some recipients =>
      if !script.connect then
        { outcome := .error .temporary
          trace := []
          cleanup := [] }
      else
        match Wire.opened.connectWithTransport script with
        | (.ok (), w) =>
            finish script
              (transaction config script recipients message w)
        | (.error error, w) =>
            -- Nothing written yet: the banner failed.
            { outcome := .error
                (if w.written then ehloFailure config error
                  else (failure error).error)
              trace := w.trace
              cleanup := [] }

end Smtp

end MailgunRelay
