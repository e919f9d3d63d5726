import MailgunRelay.Lib.Text
import MailgunRelay.Lib.Wp
import MailgunRelay.Python.Form

/-
  The Python route (`routes.py`, `post_messages`).

  The `try` body is a computation that may raise; the
  handlers stand in the order of the source, and `finally`
  writes the record in each case.

  Key definitions include:
    * `MailgunRelay.Python.Calls`
    * `MailgunRelay.Python.Vars`
    * `MailgunRelay.Python.tryBody`
    * `MailgunRelay.Python.handle`
    * `MailgunRelay.Python.postMessages`
-/

------------------------------------------------------------
-- Calls And Variables
------------------------------------------------------------

namespace MailgunRelay

namespace Python

open Form (Item)

/- `MessageInput` as the route fills it. -/
structure MessageInput where
  fromAddress : Str
  «to» : List Str
  cc : List Str
  bcc : List Str
  subject : Str
  text : Option Str
  html : Option Str
  ampHtml : Option Str
  customHeaders : List (Str × Str)
  attachments : List Mime.Attachment
  inline : List Mime.Attachment
  publicHost : Str

/- The refused recipients and their reply codes. -/
abbrev RefusedRecipients := List (Str × Option Nat)

/-
  What the route calls, for messages of type `M`: the checks,
  the message construction and the submitter.
-/
structure Calls (M : Type) where
  normalizeDomain : Str → Except Exc Str
  parseEmailStrict : Str → Except Exc (Str × Str)
  authenticate :
    Option Str → List TokenPolicy → Except Exc TokenPolicy
  form : Except Exc (List Item)
  parseForm : List Item → Except Exc ParsedForm
  validateSubject : Str → Except Exc Str
  validateCustomHeaders :
    List (Str × Str) → Except Exc (List (Str × Str))
  buildMessage :
    MessageInput → Except Exc (M × Str × List Str)
  submit :
    M → List Str → Except Exc (Option RefusedRecipients)

/- The settings and the token policies. -/
structure AppState where
  settings : Settings
  tokens : List TokenPolicy

/- The variables of the route, and what it did with them. -/
structure Vars (M : Type) where
  tokenLabel : Str
  fromForLog : Str
  recipientCount : Nat
  refusedCount : Nat
  messageId : Option Str
  result : Str
  errorClass : Option Str
  statusCode : Nat
  warned : Nat
  submitted : List (M × List Str)

def Vars.initial {M : Type} : Vars M :=
  { tokenLabel := ['-']
    fromForLog := ['-']
    recipientCount := 0
    refusedCount := 0
    messageId := none
    result := "ok".toList
    errorClass := none
    statusCode := 200
    warned := 0
    submitted := [] }

/- A `JSONResponse`. -/
structure Response where
  status : Nat
  id : Option Str
  message : Str
  realm : Bool
  deriving DecidableEq

/- `_err_response`. -/
def errResponse
    (status : Nat)
    (message : Str)
    (realm : Bool) : Response :=
  { status := status
    id := none
    message := message
    realm := realm }

/- A computation of the route. -/
abbrev Route (M : Type) := EStateM Exc (Vars M)

end Python

end MailgunRelay

------------------------------------------------------------
-- The Form
------------------------------------------------------------

namespace MailgunRelay

namespace Python

open Form (Item)

/- Substrings of the messages that mean "too big". -/
def multipartLimitMarkers : List Str :=
  ["Too many files", "Too many fields",
    "exceeded maximum size"].map String.toList

/- The detail of an exception, or its text. -/
def Exc.shownDetail (exc : Exc) : Str :=
  if exc.detail = [] then exc.text else exc.detail

/- A limit variant of Starlette's exceptions. -/
def Exc.isLimit (exc : Exc) : Bool :=
  multipartLimitMarkers.any fun marker =>
    (Lib.Text.search marker exc.shownDetail).isSome

/- What an exception of `request.form` is raised as. -/
def formError (exc : Exc) : Exc :=
  if exc.isInstance [.payloadTooLargeError] then
    exc
  else if exc.isLimit then
    payloadTooLargeError
      "request exceeds multipart limits".toList
  else
    badRequestError
      ("malformed multipart form: ".toList ++ exc.name)

end Python

end MailgunRelay

------------------------------------------------------------
-- The Body Of The Route
------------------------------------------------------------

namespace MailgunRelay

namespace Python

variable {M : Type}

/- The number of recipients, before duplicates go. -/
def checkCount
    (settings : Settings)
    (parsed : ParsedForm) : Except Exc Unit :=
  let envelopeCount :=
    parsed.to.length + parsed.cc.length + parsed.bcc.length
  if envelopeCount = 0 then
    .error (badRequestError
      "at least one of to/cc/bcc is required".toList)
  else if settings.maxRecipients.val <
      (envelopeCount : Int) then
    .error (payloadTooLargeError
      ("too many recipients (max ".toList ++
        str settings.maxRecipients.val ++ [')']))
  else
    .ok ()

def payload
    (settings : Settings)
    (parsed : ParsedForm)
    (subject : Str)
    (customHeaders : List (Str × Str)) : MessageInput :=
  { fromAddress := parsed.fromAddress
    «to» := parsed.to
    cc := parsed.cc
    bcc := parsed.bcc
    subject := subject
    text := parsed.text
    html := parsed.html
    ampHtml := parsed.ampHtml
    customHeaders := customHeaders
    attachments := parsed.attachments
    inline := parsed.inline
    publicHost := settings.publicHost }

/- A `PolicyError`. -/
def policyError [Repr] (what value : Str) : Exc :=
  Exc.plain .policyError "PolicyError".toList
    ("token not allowed for ".toList ++ what ++
      ' ' :: Repr.repr value)

/- `enforce_policy`. -/
def enforcePolicy
    [Repr]
    (calls : Calls M)
    (policy : TokenPolicy)
    (pathDomain fromAddress : Str) : Except Exc Unit := do
  let normalizedPath ← calls.normalizeDomain pathDomain
  if normalizedPath ∉ policy.mailgunDomains then
    .error (policyError "path domain".toList normalizedPath)
  else
    let (addr, fromDomain) ←
      calls.parseEmailStrict fromAddress
    if fromDomain ∉ policy.allowedFromDomains then
      .error (policyError "from domain".toList fromDomain)
    else
      match policy.allowedFromAddresses with
      | none => .ok ()
      | some allowed =>
          if addr ∉ allowed then
            .error (policyError "from address".toList addr)
          else
            .ok ()

/- From the refused recipients to the response. -/
def answer
    (settings : Settings)
    (messageId : Str)
    (recipientCount : Nat)
    (refused : Option RefusedRecipients) :
    Route M Response := do
  let queued : Response :=
    { status := 200
      id := some messageId
      message := "Queued. Thank you.".toList
      realm := false }
  match refused with
  | none => pure queued
  | some [] => pure queued
  | some entries => do
      let refusedCount := entries.length
      modify fun v =>
        { v with
          refusedCount := refusedCount
          warned := v.warned + 1
          result := "partial_refusal".toList }
      if settings.failOnPartialRefusal then
        modify fun v => { v with statusCode := 502 }
        pure (errResponse 502
          ("Upstream SMTP refused ".toList ++
            str refusedCount ++ " of ".toList ++
            str recipientCount ++
            (" recipients; the message was sent to " ++
              "the others").toList) false)
      else
        pure queued

/- From the message construction to the response. -/
def deliver
    (calls : Calls M)
    (settings : Settings)
    (payload : MessageInput) : Route M Response := do
  let (msg, messageId, recipients) ←
    Lib.liftExcept (calls.buildMessage payload)
  modify fun v =>
    { v with
      messageId := some messageId
      recipientCount := recipients.length
      submitted := v.submitted ++ [(msg, recipients)] }
  let refused ← Lib.liftExcept (calls.submit msg recipients)
  answer settings messageId recipients.length refused

/- The `try` body. -/
def tryBody
    [Repr]
    (calls : Calls M)
    (state : AppState)
    (domain : Str)
    (authorization : Option Str) : Route M Response := do
  let settings := state.settings
  let policy ←
    Lib.liftExcept
      (calls.authenticate authorization state.tokens)
  modify fun v => { v with tokenLabel := policy.label }
  let items ← Lib.liftExcept (calls.form.mapError formError)
  let parsed ← Lib.liftExcept (calls.parseForm items)
  modify fun v =>
    { v with fromForLog := parsed.fromAddress.take 320 }
  Lib.liftExcept
    (enforcePolicy calls policy domain parsed.fromAddress)
  let subject ←
    Lib.liftExcept (calls.validateSubject parsed.subject)
  let customHeaders ←
    Lib.liftExcept
      (calls.validateCustomHeaders parsed.customHeaders)
  Lib.liftExcept (checkCount settings parsed)
  deliver calls settings
    (payload settings parsed subject customHeaders)

end Python

end MailgunRelay

------------------------------------------------------------
-- The Handlers
------------------------------------------------------------

namespace MailgunRelay

namespace Python

variable {M : Type}

/- What a handler sets and answers. -/
structure Handled where
  result : Str
  status : Nat
  message : Str
  realm : Bool

/- The `except` clauses, first match wins. -/
def handle (exc : Exc) : Handled :=
  if exc.isInstance [.authError] then
    { result := "auth_error".toList
      status := 401
      message := "Unauthorized".toList
      realm := true }
  else if exc.isInstance [.invalidAddressError] then
    -- Precedes its base class, which is a 403.
    { result := "bad_request".toList
      status := 400
      message := exc.text
      realm := false }
  else if exc.isInstance [.policyError] then
    { result := "policy_error".toList
      status := 403
      message := exc.text
      realm := false }
  else if exc.isInstance
      [.badRequestError, .headerInjectionError,
        .headerTooLongError, .dangerousHeaderError] then
    { result := "bad_request".toList
      status := 400
      message := exc.text
      realm := false }
  else if exc.isInstance [.payloadTooLargeError] then
    { result := "too_large".toList
      status := 413
      message := exc.text
      realm := false }
  else if exc.isInstance [.smtpSubmitError] then
    if exc.category = .temporary then
      { result := "smtp_temporary".toList
        status := 503
        message :=
          "Upstream SMTP temporarily unavailable".toList
        realm := false }
    else
      { result := "smtp_permanent".toList
        status := 502
        message := "Upstream SMTP rejected the message".toList
        realm := false }
  else if exc.isInstance [.mailgunRelayError] then
    { result := "error".toList
      status := exc.infoStatus
      message := exc.infoMessage
      realm := false }
  else
    { result := "internal_error".toList
      status := 500
      message := "Internal Server Error".toList
      realm := false }

/- A record of the access log. -/
structure RequestRecord where
  pathDomain : Str
  tokenLabel : Str
  «from» : Str
  recipientCount : Nat
  refusedCount : Nat
  messageId : Option Str
  result : Str
  statusCode : Nat
  errorClass : Option Str

/- The record `finally` writes. -/
def finallyRecord
    (pathDomain : Str)
    (v : Vars M) : RequestRecord :=
  { pathDomain := pathDomain
    tokenLabel := v.tokenLabel
    «from» := v.fromForLog
    recipientCount := v.recipientCount
    refusedCount := v.refusedCount
    messageId := v.messageId
    result := v.result
    statusCode := v.statusCode
    errorClass := v.errorClass }

/- The variables and the response after the handlers. -/
def afterTry :
    EStateM.Result Exc (Vars M) Response → Vars M × Response
| .ok response v => (v, response)
| .error exc v =>
    let handled := handle exc
    ({ v with
        errorClass := some exc.name
        result := handled.result
        statusCode := handled.status },
      errResponse handled.status handled.message
        handled.realm)

/-
  The path domain for the log: the raw value when it is no
  domain.  Other exceptions leave the route.
-/
def pathDomainLog
    (calls : Calls M)
    (domain : Str) : Except Exc Str :=
  match calls.normalizeDomain domain with
  | .ok normalized => .ok normalized
  | .error exc =>
      if exc.isInstance [.invalidAddressError] then
        .ok domain
      else
        .error exc

/-
  `post_messages`: the variables at the end, the record that
  is written, and the response.
-/
def postMessages
    [Repr]
    (calls : Calls M)
    (state : AppState)
    (domain : Str)
    (authorization : Option Str) :
    Except Exc (Vars M × RequestRecord × Response) := do
  let pathDomain ← pathDomainLog calls domain
  let (v, response) :=
    afterTry
      (tryBody calls state domain authorization .initial)
  pure (v, finallyRecord pathDomain v, response)

end Python

end MailgunRelay
