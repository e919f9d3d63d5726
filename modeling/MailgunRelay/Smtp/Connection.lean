import MailgunRelay.Data

/-
  The SMTP connection as the relay sees it.

  The wire protocol is lettre's (`AsyncSmtpConnection`),
  which is not part of the repository.  The relay relies on
  this much of it: a command is answered with a result that
  is `Ok` for a 2xx or 3xx reply, an error with that code
  for a 4xx or 5xx reply and an error without a code for
  everything else, a reply it cannot parse included; a
  connection starts with the banner and `EHLO`; `starttls`
  needs the extension, does the handshake and says `EHLO`
  again.  The peer is otherwise free: a
  `Script` holds its behaviour at every point of a session,
  and all results are for every script.

  Key definitions include:
    * `MailgunRelay.Smtp.Reply`
    * `MailgunRelay.Smtp.Reply.result`
    * `MailgunRelay.Smtp.Script`
    * `MailgunRelay.Smtp.Address`
    * `MailgunRelay.Smtp.Event`
    * `MailgunRelay.Smtp.Wire`
    * `MailgunRelay.Smtp.Wire.command`
    * `MailgunRelay.Smtp.Wire.connectWithTransport`
    * `MailgunRelay.Smtp.Wire.starttls`
    * `MailgunRelay.Smtp.Wire.auth`
-/

------------------------------------------------------------
-- Replies
------------------------------------------------------------

namespace MailgunRelay

namespace Smtp

/-
  What comes back for a command: a reply with a three-digit
  code, a reply without one, nothing within the timeout, or
  the end of the connection.
-/
inductive Reply where
  | code (n : Nat)
  | garbled
  | timeout
  | lost
  deriving DecidableEq

/-
  lettre's error: a negative reply, its own refusal before a
  command is sent, a timeout, or any other failure.
-/
inductive Error where
  | negative (n : Nat)
  | client
  | timeout
  | transport
  deriving DecidableEq

/- The reply code of an error. -/
def Error.status : Error → Option Nat
| .negative n => some n
| _ => none

def Error.isClient : Error → Bool
| .client => true
| _ => false

def Error.isTimeout : Error → Bool
| .timeout => true
| _ => false

/-
  The codes lettre parses: its parser takes a first digit
  from 2 to 5, a second one from 0 to 5 and any third one.
-/
abbrev ParsesCode (n : Nat) : Prop :=
  200 ≤ n ∧ n < 600 ∧ n / 10 % 10 ≤ 5

/-
  lettre's reading of a reply.  One with any other code is
  as good as garbled.
-/
def Reply.result : Reply → Except Error Nat
| .code n =>
    if ParsesCode n then
      if n < 400 then
        .ok n
      else
        .error (.negative n)
    else
      .error .transport
| .garbled => .error .transport
| .timeout => .error .timeout
| .lost => .error .transport

end Smtp

end MailgunRelay

------------------------------------------------------------
-- The Peer
------------------------------------------------------------

namespace MailgunRelay

namespace Smtp

/- The login mechanisms lettre and `smtplib` share. -/
inductive Mechanism where
  | plain
  | login
  deriving DecidableEq

/-
  The extensions an accepted `EHLO` reply lists.  Only
  `smtplib` looks at the last two.
-/
structure ServerInfo where
  starttls : Bool
  authPlain : Bool
  authLogin : Bool
  authCramMd5 : Bool
  smtpUtf8 : Bool
  deriving DecidableEq

def ServerInfo.supportsAuthMechanism
    (info : ServerInfo) : Mechanism → Bool
| .plain => info.authPlain
| .login => info.authLogin

/- No `EHLO` was accepted yet. -/
def ServerInfo.none : ServerInfo :=
  { starttls := false
    authPlain := false
    authLogin := false
    authCramMd5 := false
    smtpUtf8 := false }

/-
  The peer's side of one session.  Every command is sent at
  most once (`RCPT` once for each recipient, `AUTH` once for
  each mechanism), so a peer that reacts to what it was sent
  before is covered as well.  The reply to an `AUTH` is the
  one that ends the exchange with that mechanism; 334 there
  stands for challenges without an end.  CRAM-MD5 is asked
  for by `smtplib` only, and only `smtplib` can fail at a
  challenge, so `challenged` and `challengedCramMd5` say
  whether one came first.  `broken` is lettre's own mark on
  the connection after the transaction.
-/
structure Script where
  connect : Bool
  banner : Reply
  ehlo : Reply
  ehloInfo : ServerInfo
  starttls : Reply
  handshake : Bool
  ehloTls : Reply
  ehloTlsInfo : ServerInfo
  auth : Mechanism → Reply
  authCramMd5 : Reply
  challenged : Mechanism → Bool
  challengedCramMd5 : Bool
  mail : Reply
  rcpt : Nat → Reply
  data : Reply
  dataEnd : Reply
  quit : Reply
  broken : Bool

end Smtp

end MailgunRelay

------------------------------------------------------------
-- The Wire
------------------------------------------------------------

namespace MailgunRelay

namespace Smtp

/- A printable ASCII character other than the space. -/
def isAsciiGraphic (c : Char) : Bool :=
  '!' ≤ c && c ≤ '~'

/- A side of an envelope address. -/
def printable (s : Str) : Bool :=
  !s.isEmpty &&
    s.all fun c => isAsciiGraphic c && c != '<' && c != '>'

/-
  An envelope address for lettre (`Address::new_dangerous`).
  The relay makes them of printable sides only.
-/
structure Address where
  user : Str
  domain : Str
  valid : printable user = true ∧ printable domain = true
  deriving DecidableEq

/- The address as it stands between the angle brackets. -/
def Address.text (address : Address) : Str :=
  address.user ++ '@' :: address.domain

/- `SmtpCredentials` of the secrets file. -/
structure SmtpCredentials where
  username : Str
  password : Str
  deriving DecidableEq

/- What the relay can write; `message` is the mail itself. -/
inductive Command where
  | ehlo
  | starttls
  | auth (mechanism : Mechanism)
      (credentials : SmtpCredentials)
  | mail (sender : Option Address)
  | rcpt (address : Address)
  | data
  | message (body : Bytes)
  | quit
  deriving DecidableEq

/-
  One event of a session: a command with the state of the
  channel it went over and its reply, a completed TLS
  handshake, or the extension list of an accepted `EHLO`.
-/
inductive Event where
  | sent (encrypted : Bool) (command : Command)
      (reply : Reply)
  | handshake
  | offers (info : ServerInfo)
  deriving DecidableEq

/-
  The state of a connection: the events so far, whether the
  stream is encrypted, the extensions in force and whether
  anything was written.
-/
structure Wire where
  trace : List Event
  encrypted : Bool
  serverInfo : ServerInfo
  written : Bool
  deriving DecidableEq

/- The state of a connection that was just opened. -/
def Wire.opened : Wire :=
  { trace := []
    encrypted := false
    serverInfo := .none
    written := false }

namespace Wire

/- Record an event. -/
def log (event : Event) (w : Wire) : Wire :=
  { w with trace := w.trace ++ [event] }

/- Send a command and read its reply (`command`). -/
def command
    (cmd : Command)
    (reply : Reply)
    (w : Wire) : Except Error Nat × Wire :=
  (reply.result,
    { w.log (.sent w.encrypted cmd reply) with
      written := true })

/- `EHLO`; an accepted reply replaces the extensions. -/
def ehlo
    (reply : Reply)
    (info : ServerInfo)
    (w : Wire) : Except Error Unit × Wire :=
  match w.command .ehlo reply with
  | (.ok _, w) =>
      (.ok (),
        { w.log (.offers info) with serverInfo := info })
  | (.error e, w) => (.error e, w)

/- The banner, then `EHLO` (`connect_with_transport`). -/
def connectWithTransport
    (script : Script)
    (w : Wire) : Except Error Unit × Wire :=
  match script.banner.result with
  | .ok _ => w.ehlo script.ehlo script.ehloInfo
  | .error e => (.error e, w)

/- `STARTTLS`, the handshake, and `EHLO` again. -/
def starttls
    (script : Script)
    (w : Wire) : Except Error Unit × Wire :=
  if w.serverInfo.starttls then
    match w.command .starttls script.starttls with
    | (.ok _, w) =>
        if script.handshake then
          ehlo script.ehloTls script.ehloTlsInfo
            { w.log .handshake with encrypted := true }
        else
          (.error .transport, w)
    | (.error e, w) => (.error e, w)
  else
    (.error .client, w)

/- The whole exchange of one mechanism (`auth`). -/
def auth
    (script : Script)
    (mechanism : Mechanism)
    (credentials : SmtpCredentials)
    (w : Wire) : Except Error Nat × Wire :=
  if w.serverInfo.supportsAuthMechanism mechanism then
    match w.command (.auth mechanism credentials)
        (script.auth mechanism) with
    | (.ok n, w) =>
        (if n = 334 then .error .transport else .ok n, w)
    | (.error e, w) => (.error e, w)
  else
    (.error .client, w)

end Wire

end Smtp

end MailgunRelay
