import MailgunRelay.Lib.Wp
import MailgunRelay.Auth
import MailgunRelay.Fields
import MailgunRelay.Log
import MailgunRelay.Policy

/-
  `POST /v3/{domain}/messages` (`pipeline.rs`): the decision
  order, the responses and the request record.

  A request changes its record, calls the logger and hands
  messages to the submitter; the rest is pure.  The checks
  and the submitter are the components of a decision, so
  that what holds for any of them is stated once.

  Key definitions include:
    * `MailgunRelay.Pipeline.Record`
    * `MailgunRelay.Pipeline.World`
    * `MailgunRelay.Pipeline.Components`
    * `MailgunRelay.Pipeline.decide`
    * `MailgunRelay.Pipeline.process`
    * `MailgunRelay.Pipeline.postMessages`
    * `MailgunRelay.Pipeline.components`
-/

------------------------------------------------------------
-- Requests And Responses
------------------------------------------------------------

namespace MailgunRelay

namespace Pipeline

/- A frame of a request body. -/
inductive Frame where
  | data (bytes : Bytes)
  | trailers
  | failed
  deriving DecidableEq

/- A request; header names are in lowercase. -/
structure Request where
  domain : Str
  headers : List (Str × Bytes)
  body : List Frame

/- The first value of a header. -/
def Request.header
    (request : Request)
    (name : Str) : Option Bytes :=
  (request.headers.find? fun h => h.1 == name).map Prod.snd

/- The JSON of a response. -/
inductive ResponseBody where
  | error (message : Str)
  | queued (id message : Str)
  deriving DecidableEq

/-
  A response; `realm` says whether it asks for credentials
  with `WWW-Authenticate`.
-/
structure Response where
  status : Nat
  body : ResponseBody
  realm : Bool
  deriving DecidableEq

def errorResponse (status : Nat) (message : Str) : Response :=
  { status := status
    body := .error message
    realm := false }

/- What the submitter may do with a message. -/
inductive Submission where
  | ok (refused : List Refusal)
  | error (error : SubmitError)
  | panic
  deriving DecidableEq

/-
  The relay of a request: the settings, the token policies,
  the logger, and what the environment gives: a fresh
  request id, the duration, random hex and the date.
-/
structure Relay where
  settings : Settings
  tokens : List TokenPolicy
  logger : Logger
  submit : BuiltMessage → Submission
  requestId : Str
  durationMs : Nat
  hex : Option Str
  date : Str

end Pipeline

end MailgunRelay

------------------------------------------------------------
-- Records
------------------------------------------------------------

namespace MailgunRelay

namespace Pipeline

/- The request record while the request runs. -/
structure Record where
  requestId : Str
  tokenLabel : Str
  pathDomain : Str
  «from» : Str
  recipientCount : Nat
  refusedCount : Nat
  messageId : Option Str
  result : Outcome
  statusCode : Nat
  errorClass : Option Str
  deriving DecidableEq

/- A refused domain and the code of the reply. -/
structure RefusedEntry where
  domain : Str
  code : Option Nat
  deriving DecidableEq

/-
  The events a request can cause.  A record without a
  message id shows `-`; the last event is the submitter's.
-/
inductive Event where
  | request
      (record : Record)
      (messageId : Str)
      (durationMs : Nat)
  | recipientsRefused
      (requestId tokenLabel pathDomain messageId : Str)
      (recipientCount refusedCount : Nat)
      (refused : List RefusedEntry)
  | smtpCleanupFailed (errorClass : Str)
  deriving DecidableEq

def accessLogger : Str :=
  "mailgun_relay.access".toList

def serviceLogger : Str :=
  "mailgun_relay.service".toList

/- What a request changes. -/
structure World where
  record : Record
  emitted : List (LogCall Event)
  submitted : List BuiltMessage

/- How a decision ends early. -/
inductive Abort where
  | failure (failure : Failure)
  | panic

/- A computation of a request. -/
abbrev Decision := EStateM Abort World

/- Change the record. -/
def setRecord (f : Record → Record) : Decision Unit :=
  modify fun w => { w with record := f w.record }

/- Call the access logger. -/
def emit (level : Level) (event : Event) : Decision Unit :=
  modify fun w =>
    { w with
      emitted := w.emitted ++
        [{ level := level
           logger := accessLogger
           event := event }] }

/- A result whose error ends the decision. -/
def check
    {α : Type}
    (result : Except Failure α) : Decision α :=
  match result with
  | .ok a => pure a
  | .error failure => throw (.failure failure)

/- Hand a message to the submitter. -/
def submitMessage
    (submit : BuiltMessage → Submission)
    (message : BuiltMessage) : Decision (List Refusal) := do
  modify fun w =>
    { w with submitted := w.submitted ++ [message] }
  match submit message with
  | .ok refused => pure refused
  | .error .temporary =>
      throw (.failure
        { status := 503
          result := .smtpTemporary
          «class» := "SmtpSubmitError".toList
          message :=
            "Upstream SMTP temporarily unavailable".toList
          agrees := rfl })
  | .error .permanent =>
      throw (.failure
        { status := 502
          result := .smtpPermanent
          «class» := "SmtpSubmitError".toList
          message :=
            "Upstream SMTP rejected the message".toList
          agrees := rfl })
  | .panic => throw .panic

end Pipeline

end MailgunRelay

------------------------------------------------------------
-- Partial Refusals
------------------------------------------------------------

namespace MailgunRelay

namespace Pipeline

variable [Unicode]

/- The domain of a refused address, for the log. -/
def refusedDomain (address : Str) : Str :=
  match Lib.Text.rsplitOnce '@' address with
  | some (_, domain) =>
      if domain.isEmpty then ['-'] else lowercase domain
  | none => ['-']

/- The order of the entries: no code comes first. -/
def RefusedEntry.le (a b : RefusedEntry) : Bool :=
  if a.domain = b.domain then
    match a.code, b.code with
    | none, _ => true
    | some _, none => false
    | some m, some n => m ≤ n
  else
    a.domain.lex b.domain

/- The refused domains and codes, unique and sorted. -/
def refusedEntries
    (refused : List Refusal) : List RefusedEntry :=
  ((refused.map fun refusal =>
      { domain := refusedDomain refusal.address
        code := refusal.code }).mergeSort
    RefusedEntry.le).eraseReps

/- One warning per partly refused request. -/
def logPartialRefusal
    (messageId : Str)
    (refused : List Refusal) : Decision Unit := do
  let w ← get
  emit .warning
    (.recipientsRefused w.record.requestId
      w.record.tokenLabel w.record.pathDomain messageId
      w.record.recipientCount refused.length
      (refusedEntries refused))

end Pipeline

end MailgunRelay

------------------------------------------------------------
-- The Decision
------------------------------------------------------------

namespace MailgunRelay

namespace Pipeline

open Form (Item)

/-
  The components of a decision: the checks of steps 2 to 7,
  the message construction and the submitter.
-/
structure Components where
  authenticate :
    Option Bytes → List TokenPolicy → Option TokenPolicy
  readForm : Request → Except Failure (List Item)
  parseForm : List Item → Except Failure ParsedForm
  normalizeDomain : Str → Except Str Str
  parseMailbox : Str → Option Mailbox
  validateSubject : Str → Except HeaderError Str
  validateCustomHeaders :
    List (Str × Str) → Except HeaderError Unit
  build :
    Mime.MessageInput →
      Except Mime.BuildError BuiltMessage
  submit : BuiltMessage → Submission

def unauthorized : Failure :=
  { status := 401
    result := .authError
    «class» := "AuthError".toList
    message := "Unauthorized".toList
    agrees := rfl }

/- No token is the same failure whatever the reason. -/
def orUnauthorized :
    Option TokenPolicy → Except Failure TokenPolicy
| some policy => .ok policy
| none => .error unauthorized

def policyFailure : PolicyError → Failure
| .badRequest =>
    .badRequest "InvalidAddressError".toList
      "invalid address".toList
| .forbidden message =>
    { status := 403
      result := .policyError
      «class» := "PolicyError".toList
      message := message
      agrees := rfl }

def headerFailure (error : HeaderError) : Failure :=
  .badRequest error.class "invalid header".toList

def buildFailure : Mime.BuildError → Failure
| .invalidMessage =>
    .badRequest "HeaderInjectionError".toList
      "invalid message".toList
| .panic =>
    { status := 500
      result := .internalError
      «class» := "Panic".toList
      message := "Internal Server Error".toList
      agrees := rfl }

/- Step 8: recipients are counted before duplicates go. -/
def checkCount
    (settings : Settings)
    (parsed : ParsedForm) : Except Failure Unit :=
  let count :=
    parsed.to.length + parsed.cc.length + parsed.bcc.length
  if count = 0 then
    .error (malformed
      "at least one of to/cc/bcc is required".toList)
  else if exceeds count settings.maxRecipients then
    .error (.tooLarge
      ("too many recipients (max ".toList ++
        display settings.maxRecipients.val ++ [')']))
  else
    .ok ()

/- What a validated request hands to `build`. -/
def messageInput
    (settings : Settings)
    (parsed : ParsedForm)
    («from» : Mailbox)
    (subject : Str) : Mime.MessageInput :=
  { «from» := «from»
    «to» := parsed.to
    cc := parsed.cc
    bcc := parsed.bcc
    subject := subject
    text := parsed.text
    html := parsed.html
    ampHtml := parsed.ampHtml
    headers := parsed.headers
    attachments := parsed.attachments
    inline := parsed.inline
    publicHost := settings.publicHost }

variable [Unicode]

/- Step 11: the response to a submitted message. -/
def answer
    (settings : Settings)
    (messageId : Str)
    (refused : List Refusal) : Decision Response := do
  setRecord fun r => { r with result := .ok }
  let queued : Response :=
    { status := 200
      body := .queued messageId "Queued. Thank you.".toList
      realm := false }
  if refused.isEmpty then
    return queued
  setRecord fun r =>
    { r with refusedCount := refused.length }
  logPartialRefusal messageId refused
  setRecord fun r => { r with result := .partialRefusal }
  if settings.failOnPartialRefusal then
    let w ← get
    return errorResponse 502
      ("Upstream SMTP refused ".toList ++
        display w.record.refusedCount ++ " of ".toList ++
        display w.record.recipientCount ++
        (" recipients; the message was sent to " ++
          "the others").toList)
  return queued

/- Steps 10 and 11. -/
def deliver
    (c : Components)
    (settings : Settings)
    (message : BuiltMessage) : Decision Response := do
  setRecord fun r =>
    { r with
      messageId := some message.messageId
      recipientCount := message.envelope.length }
  let refused ← submitMessage c.submit message
  answer settings message.messageId refused

/- Steps 9 to 11. -/
def send
    (c : Components)
    (settings : Settings)
    (input : Mime.MessageInput) : Decision Response := do
  let message ←
    check ((c.build input).mapError buildFailure)
  deliver c settings message

/- The logged `from` is capped. -/
def fromLogMaxLen : Nat := 320

/- Steps 2 to 11. -/
def decide
    (c : Components)
    (relay : Relay)
    (request : Request) : Decision Response := do
  let policy ←
    check (orUnauthorized
      (c.authenticate
        (request.header "authorization".toList)
        relay.tokens))
  setRecord fun r => { r with tokenLabel := policy.label }
  let items ← check (c.readForm request)
  let parsed ← check (c.parseForm items)
  let «from» := parsed.from.headD []
  setRecord fun r =>
    { r with «from» := «from».take fromLogMaxLen }
  let mailbox ←
    check ((enforceWith c.normalizeDomain c.parseMailbox
      policy request.domain «from»)
        |>.mapError policyFailure)
  let subject ←
    check ((c.validateSubject (parsed.subject.getD []))
      |>.mapError headerFailure)
  check ((c.validateCustomHeaders parsed.headers)
    |>.mapError headerFailure)
  check (checkCount relay.settings parsed)
  send c relay.settings
    (messageInput relay.settings parsed mailbox subject)

end Pipeline

end MailgunRelay

------------------------------------------------------------
-- The Request Task
------------------------------------------------------------

namespace MailgunRelay

namespace Pipeline

variable [Unicode] [Idna]

/- The record before the decision. -/
def initialRecord
    (relay : Relay)
    (request : Request) : Record :=
  { requestId := relay.requestId
    tokenLabel := ['-']
    -- The raw value when it is no domain.
    pathDomain :=
      match normalizeDomain request.domain with
      | .ok domain => domain
      | .error _ => request.domain
    «from» := ['-']
    recipientCount := 0
    refusedCount := 0
    messageId := none
    result := .internalError
    statusCode := 500
    errorClass := some "Panic".toList }

/- Dropping the record writes it. -/
def dropRecord (relay : Relay) (w : World) : World :=
  { w with
    emitted := w.emitted ++
      [{ level := .info
         logger := accessLogger
         event :=
           .request w.record
             (w.record.messageId.getD ['-'])
             relay.durationMs }] }

/- The response to a failed decision. -/
def failureResponse (failure : Failure) : Response :=
  { errorResponse failure.status failure.message with
    realm := failure.status = 401 }

/- The record once the response is there. -/
def World.respond
    (w : World)
    (response : Response) : World :=
  { w with
    record :=
      { w.record with statusCode := response.status } }

/-
  The end of the request task: no response if it panics, and
  the record is written in each case.
-/
def endTask
    (relay : Relay) :
    EStateM.Result Abort World Response →
      World × Option Response
| .ok response w =>
    let w :=
      { w with record := { w.record with errorClass := none } }
    (dropRecord relay (w.respond response), some response)
| .error (.failure failure) w =>
    let w :=
      { w with
        record :=
          { w.record with
            result := failure.result
            errorClass := some failure.class } }
    let response := failureResponse failure
    (dropRecord relay (w.respond response), some response)
| .error .panic w => (dropRecord relay w, none)

/- The world before the decision. -/
def initialWorld
    (relay : Relay)
    (request : Request) : World :=
  { record := initialRecord relay request
    emitted := []
    submitted := [] }

/- The request task. -/
def process
    (c : Components)
    (relay : Relay)
    (request : Request) : World × Option Response :=
  endTask relay
    (decide c relay request (initialWorld relay request))

/- A request task without a response is a 500. -/
def joinTask :
    World × Option Response → World × Response
| (w, some response) => (w, response)
| (w, none) =>
    (w, errorResponse 500 "Internal Server Error".toList)

/- The route handler. -/
def postMessages
    (c : Components)
    (relay : Relay)
    (request : Request) : World × Response :=
  joinTask (process c relay request)

end Pipeline

end MailgunRelay

------------------------------------------------------------
-- The Components
------------------------------------------------------------

namespace MailgunRelay

namespace Pipeline

open Form (Item FormError)

/- `i64::saturating_add` of a positive number. -/
def I64.saturatingAdd (n : I64) (k : Nat) : I64 :=
  ⟨min (n.val + k) (2 ^ 63 - 1), by
    have h := n.property
    omega⟩

def formFieldHeadroom : Nat := 100

def formFailure : FormError → Failure
| .badRequest => malformed "malformed form".toList
| .tooLarge =>
    .tooLarge "request exceeds multipart limits".toList

def bodyTooLarge (maxBodyBytes : I64) : Failure :=
  .tooLarge
    ("request body exceeds ".toList ++
      display maxBodyBytes.val ++ " bytes".toList)

/- The rest of the body, after the bytes read so far. -/
def readFrames
    (maxBodyBytes : I64)
    (bytes : Bytes) :
    List Frame → Except Failure Bytes
| [] =>
    if exceeds bytes.length maxBodyBytes then
      .error (bodyTooLarge maxBodyBytes)
    else
      .ok bytes
| .failed :: _ => .error (malformed "malformed form".toList)
| .trailers :: rest => readFrames maxBodyBytes bytes rest
| .data data :: rest =>
    if exceeds (bytes ++ data).length maxBodyBytes then
      .error (bodyTooLarge maxBodyBytes)
    else
      readFrames maxBodyBytes (bytes ++ data) rest

/- The body up to `max_body_bytes`. -/
def readBody
    (body : List Frame)
    (maxBodyBytes : I64) : Except Failure Bytes :=
  readFrames maxBodyBytes [] body

/- The parser limits of the settings. -/
def formLimits (settings : Settings) : Form.Limits :=
  { maxFiles := I64.saturatingAdd settings.maxAttachments 1
    maxFields :=
      I64.saturatingAdd settings.maxRecipients
        formFieldHeadroom
    maxPartSize := settings.maxBodyBytes }

variable [Unicode]

/-
  Step 3: the content type decides whether and how the body
  is read.
-/
def readForm
    (settings : Settings)
    (request : Request) : Except Failure (List Item) := do
  let encoding ←
    (Form.encoding (request.header "content-type".toList))
      |>.mapError formFailure
  let bytes ←
    if encoding = .none then
      pure []
    else
      readBody request.body settings.maxBodyBytes
  (Form.parse encoding bytes (formLimits settings))
    |>.mapError formFailure

variable [Idna] [Base64] [Sha256] [Lettre]

/- The components the route uses. -/
def components (relay : Relay) : Components :=
  let settings := relay.settings
  { authenticate := authenticate
    readForm := readForm settings
    parseForm := parseForm settings
    normalizeDomain := normalizeDomain
    parseMailbox := parseMailbox
    validateSubject := fun subject =>
      validateSubject subject settings.maxHeaderValueLength
    validateCustomHeaders :=
      validateCustomHeaders settings.maxHeaderValueLength
    build := Mime.build relay.hex relay.date
    submit := relay.submit }

end Pipeline

end MailgunRelay
