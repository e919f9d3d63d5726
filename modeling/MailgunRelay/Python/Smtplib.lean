import MailgunRelay.Lib.Assoc
import MailgunRelay.Lib.Wp
import MailgunRelay.Smtp.Connection

/-
  Python's `smtplib`, as far as the Python relay uses it.

  It is the documented behaviour of `smtplib.SMTP`: which
  replies each method accepts, which exception it raises
  otherwise, and what `ehlo` leaves behind.  The peer is the
  same `Script` as for the Rust relay.  Unlike lettre, which
  sends UTF-8, it encodes the credentials as ASCII.

  Key definitions include:
    * `MailgunRelay.Python.SmtpException`
    * `MailgunRelay.Python.Client`
    * `MailgunRelay.Python.auth`
    * `MailgunRelay.Python.login`
    * `MailgunRelay.Python.sendmail`
-/

------------------------------------------------------------
-- Exceptions
------------------------------------------------------------

namespace MailgunRelay

namespace Python

open Smtp

/-
  The exception classes, `OSError` for the socket and TLS,
  and the `UnicodeEncodeError` of a text that is not ASCII.
  Reply codes are integers: a reply that has none is read
  as -1.
-/
inductive SmtpException where
  | connectError (code : Int)
  | responseException (code : Int)
  | senderRefused (code : Int)
  | dataError (code : Int)
  | authenticationError (code : Int)
  | recipientsRefused (recipients : List (Str × Int))
  | serverDisconnected
  | notSupported
  | smtpException
  | osError
  | unicodeEncodeError
  deriving DecidableEq

/- The code of an `SMTPResponseException` or a subclass. -/
def SmtpException.smtpCode : SmtpException → Option Int
| .connectError code => some code
| .responseException code => some code
| .senderRefused code => some code
| .dataError code => some code
| .authenticationError code => some code
| _ => none

end Python

end MailgunRelay

------------------------------------------------------------
-- The Client
------------------------------------------------------------

namespace MailgunRelay

namespace Python

open Smtp

/-
  The SMTP object: the features of the last accepted `EHLO`,
  and whether the server has closed the channel, which it
  does after a 421.
-/
structure Client where
  features : ServerInfo
  gone : Bool
  deriving DecidableEq

/- A client that has read nothing yet. -/
def Client.fresh : Client :=
  { features := .none
    gone := false }

abbrev Py := EStateM SmtpException Client

/- Send a command and read its reply. -/
def docmd (reply : Reply) : Py Int := do
  let client ← get
  if client.gone then
    throw .serverDisconnected
  else
    match reply with
    | .code n => do
        modify fun c => { c with gone := n == 421 }
        pure n
    | .garbled => pure (-1)
    | .timeout => throw .serverDisconnected
    | .lost => throw .serverDisconnected

/- `EHLO`: any reply but 250 leaves no features. -/
def ehlo
    (reply : Reply)
    (info : ServerInfo) : Py Unit := do
  modify fun c => { c with features := .none }
  let code ← docmd reply
  if code = 250 then
    modify fun c => { c with features := info }
  else
    pure ()

/- `SMTP(host, port)`: connect and read the banner. -/
def connect (script : Script) : Py Unit :=
  if script.connect then do
    let code ← docmd script.banner
    if code = 220 then
      pure ()
    else
      throw (.connectError code)
  else
    throw .osError

/- `STARTTLS` and the handshake; the features are dropped. -/
def starttls (script : Script) : Py Unit := do
  let client ← get
  if client.features.starttls then do
    let code ← docmd script.starttls
    if code = 220 then
      if script.handshake then
        modify fun c => { c with features := .none }
      else
        throw .osError
    else
      throw (.responseException code)
  else
    throw .notSupported

/- The mechanisms of `smtplib`, in its order. -/
inductive AuthMethod where
  | cramMd5
  | shared (mechanism : Mechanism)
  deriving DecidableEq

def AuthMethod.offeredBy
    (info : ServerInfo) : AuthMethod → Bool
| .cramMd5 => info.authCramMd5
| .shared mechanism => info.supportsAuthMechanism mechanism

def preferredAuths : List AuthMethod :=
  [.cramMd5, .shared .plain, .shared .login]

def AuthMethod.reply (script : Script) : AuthMethod → Reply
| .cramMd5 => script.authCramMd5
| .shared mechanism => script.auth mechanism

/- Whether a challenge came before the last reply, or as it. -/
def AuthMethod.challenged
    (script : Script) : AuthMethod → Bool
| .cramMd5 =>
    script.challengedCramMd5 ||
      script.authCramMd5 == .code 334
| .shared mechanism =>
    script.challenged mechanism ||
      script.auth mechanism == .code 334

/- The text sent with the command; CRAM-MD5 has none. -/
def AuthMethod.initialResponse
    (credentials : SmtpCredentials) :
    AuthMethod → Option Str
| .cramMd5 => none
| .shared .plain =>
    some ('\x00' :: credentials.username ++
      '\x00' :: credentials.password)
| .shared .login => some credentials.username

/-
  The texts encoded at a challenge.  PLAIN sends its initial
  response again; CRAM-MD5 sends the user name and a digest,
  of which the password is the key.
-/
def AuthMethod.answer
    (credentials : SmtpCredentials) :
    AuthMethod → List Str
| .cramMd5 => [credentials.password, credentials.username]
| .shared .plain =>
    ['\x00' :: credentials.username ++
      '\x00' :: credentials.password]
| .shared .login => [credentials.password]

def isAscii (s : Str) : Bool :=
  s.all fun c => c.toNat < 128

/- `encode('ascii')` of each text. -/
def encodeAscii (texts : List Str) : Py Unit :=
  if texts.all isAscii then
    pure ()
  else
    throw .unicodeEncodeError

/- The answer to a challenge, if one comes. -/
def challenge
    (script : Script)
    (credentials : SmtpCredentials)
    (method : AuthMethod) : Py Unit :=
  if method.challenged script then do
    let _ ← docmd (.code 334)
    encodeAscii (method.answer credentials)
  else
    pure ()

/-
  One mechanism.  Its initial response is encoded before the
  command is sent; 334 without an end is an `SMTPException`.
-/
def auth
    (script : Script)
    (credentials : SmtpCredentials)
    (method : AuthMethod) : Py Int := do
  encodeAscii (method.initialResponse credentials).toList
  challenge script credentials method
  let code ← docmd (method.reply script)
  if code = 334 then
    throw .smtpException
  else if code = 235 ∨ code = 503 then
    pure code
  else
    throw (.authenticationError code)

/-
  Each method in turn.  Only an authentication error moves
  on, and the last one is raised in the end.
-/
def tryMethods
    (script : Script)
    (credentials : SmtpCredentials) :
    SmtpException → List AuthMethod → Py Unit
| last, [] => throw last
| _, method :: rest =>
    tryCatch
      (do
        let _ ← auth script credentials method
        pure ())
      fun e =>
        match e with
        | .authenticationError code =>
            tryMethods script credentials
              (.authenticationError code) rest
        | e => throw e

def login
    (script : Script)
    (credentials : SmtpCredentials) : Py Unit := do
  let client ← get
  let info := client.features
  if info.authPlain || info.authLogin || info.authCramMd5 then
    tryMethods script credentials .smtpException
      (preferredAuths.filter (AuthMethod.offeredBy info))
  else
    throw .notSupported

/-
  The recipients.  `senderrs` is a dict, so a recipient that
  comes twice is in it once; 421 ends the loop.
-/
def rcptLoop
    (script : Script) :
    Nat → List Str → List (Str × Int) →
      Py (List (Str × Int))
| _, [], senderrs => pure senderrs
| i, each :: rest, senderrs => do
    let code ← docmd (script.rcpt i)
    let senderrs :=
      if code ≠ 250 ∧ code ≠ 251 then
        Lib.Assoc.set each code senderrs
      else
        senderrs
    if code = 421 then
      throw (.recipientsRefused senderrs)
    else
      rcptLoop script (i + 1) rest senderrs

/- All recipients; a message that nobody takes is not sent. -/
def rcpts
    (script : Script)
    (toAddrs : List Str) : Py (List (Str × Int)) := do
  let senderrs ← rcptLoop script 0 toAddrs []
  if senderrs.length = toAddrs.length then
    throw (.recipientsRefused senderrs)
  else
    pure senderrs

/- `DATA`, the message, and the reply to its end. -/
def data (script : Script) : Py Int := do
  let code ← docmd script.data
  if code = 354 then
    docmd script.dataEnd
  else
    throw (.dataError code)

/- `sendmail`: the refused recipients of a sent message. -/
def sendmail
    (script : Script)
    (toAddrs : List Str) : Py (List (Str × Int)) := do
  let code ← docmd script.mail
  if code = 250 then do
    let senderrs ← rcpts script toAddrs
    let code ← data script
    if code = 250 then
      pure senderrs
    else
      throw (.dataError code)
  else
    throw (.senderRefused code)

/- `send_message`: SMTPUTF8 is needed beyond ASCII. -/
def sendMessage
    (script : Script)
    (fromAddr : Str)
    (toAddrs : List Str) : Py (List (Str × Int)) := do
  let client ← get
  if (fromAddr :: toAddrs).all isAscii ||
      client.features.smtpUtf8 then
    sendmail script toAddrs
  else
    throw .notSupported

end Python

end MailgunRelay
