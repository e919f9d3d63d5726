import MailgunRelay.Pipeline.Course

/-
  What the log shows of a request.

  The pipeline's calls of the logger are a function of a few
  things: the path domain, the label of the token, the start
  of the first `from`, how the request ended, and the domains
  and codes of refused recipients.  Requests that agree on
  them have the same log, whatever else they hold.

  Key definitions include:
    * `MailgunRelay.Pipeline.Visible`
    * `MailgunRelay.Pipeline.Visible.log`
    * `MailgunRelay.Pipeline.visible`

  Key theorems include:
    * `MailgunRelay.Pipeline.decide_visible`
    * `MailgunRelay.Pipeline.emitted_visible`
-/

------------------------------------------------------------
-- What May Be Seen
------------------------------------------------------------

namespace MailgunRelay

namespace Pipeline

/- How the submission of a message ended. -/
inductive Sent where
  | delivered (refused : Nat) (entries : List RefusedEntry)
  | failed (error : SubmitError)
  | panicked
  deriving DecidableEq

/- How a request ended; the texts of failures are not seen. -/
inductive Ending where
  | refused (status : Nat) (result : Outcome) («class» : Str)
  | submitted (messageId : Str) (recipients : Nat) (sent : Sent)
  deriving DecidableEq

/- All that the log shows of a request. -/
structure Visible where
  requestId : Str
  durationMs : Nat
  pathDomain : Str
  label : Option Str
  «from» : Option Str
  failOnPartialRefusal : Bool
  ending : Ending
  deriving DecidableEq

/- The record when the checks are over. -/
def Visible.checked (v : Visible) : Record :=
  { requestId := v.requestId
    tokenLabel := v.label.getD ['-']
    pathDomain := v.pathDomain
    «from» := v.from.getD ['-']
    recipientCount := 0
    refusedCount := 0
    messageId := none
    result := .internalError
    statusCode := 500
    errorClass := some "Panic".toList }

/- The record in its end state. -/
def Visible.record (v : Visible) : Record :=
  match v.ending with
  | .refused status result cls =>
      { v.checked with
        statusCode := status
        result := result
        errorClass := some cls }
  | .submitted messageId recipients sent =>
      let record :=
        { v.checked with
          messageId := some messageId
          recipientCount := recipients }
      match sent with
      | .failed .temporary =>
          { record with
            statusCode := 503
            result := .smtpTemporary
            errorClass := some "SmtpSubmitError".toList }
      | .failed .permanent =>
          { record with
            statusCode := 502
            result := .smtpPermanent
            errorClass := some "SmtpSubmitError".toList }
      | .panicked => record
      | .delivered 0 _ =>
          { record with
            statusCode := 200
            result := .ok
            errorClass := none }
      | .delivered refused _ =>
          { record with
            statusCode :=
              if v.failOnPartialRefusal then 502 else 200
            result := .partialRefusal
            refusedCount := refused
            errorClass := none }

/- The warning about refused recipients, if there are any. -/
def Visible.warnings (v : Visible) : List (LogCall Event) :=
  match v.ending with
  | .submitted messageId recipients
      (.delivered (refused + 1) entries) =>
      [{ level := .warning
         logger := accessLogger
         event :=
           .recipientsRefused v.requestId
             (v.label.getD ['-']) v.pathDomain messageId
             recipients (refused + 1) entries }]
  | _ => []

/- The calls of the logger. -/
def Visible.log (v : Visible) : List (LogCall Event) :=
  v.warnings ++
    [{ level := .info
       logger := accessLogger
       event :=
         .request v.record (v.record.messageId.getD ['-'])
           v.durationMs }]

end Pipeline

end MailgunRelay

------------------------------------------------------------
-- What Is Seen Of A Request
------------------------------------------------------------

namespace MailgunRelay

namespace Pipeline

variable [Unicode] [Idna]

/- The form of an authenticated request. -/
def formOf
    (c : Components)
    (relay : Relay)
    (request : Request) : Except Failure ParsedForm := do
  let _ ←
    orUnauthorized
      (c.authenticate
        (request.header "authorization".toList)
        relay.tokens)
  let items ← c.readForm request
  c.parseForm items

def sentAs : Submission → Sent
| .ok refused => .delivered refused.length (refusedEntries refused)
| .error error => .failed error
| .panic => .panicked

def Course.ending : Course → Ending
| .refused failure =>
    .refused failure.status failure.result failure.class
| .submitted message submission =>
    .submitted message.messageId message.envelope.length
      (sentAs submission)

/- What the log shows of a request. -/
def visible
    (c : Components)
    (relay : Relay)
    (request : Request) : Visible :=
  { requestId := relay.requestId
    durationMs := relay.durationMs
    pathDomain := (initialRecord relay request).pathDomain
    label :=
      (c.authenticate
        (request.header "authorization".toList)
        relay.tokens).map TokenPolicy.label
    «from» :=
      (formOf c relay request).toOption.map fun parsed =>
        (parsed.from.headD []).take fromLogMaxLen
    failOnPartialRefusal :=
      relay.settings.failOnPartialRefusal
    ending := (course c relay request).ending }

/- The world when the checks are over. -/
def checkedWorld
    (c : Components)
    (relay : Relay)
    (request : Request) : World :=
  { record := (visible c relay request).checked
    emitted := []
    submitted := [] }

/- The checks leave what may be seen of them. -/
theorem decide_visible
    (c : Components)
    (relay : Relay)
    (request : Request) :
    decide c relay request (initialWorld relay request) =
      match prepare c relay request with
      | .error failure =>
          .error (.failure failure)
            (checkedWorld c relay request)
      | .ok input =>
          send c relay.settings input
            (checkedWorld c relay request) := by
  unfold decide prepare checkedWorld visible formOf
    Visible.checked
  -- One case for each check, in the order of the steps.
  cases c.authenticate
    (request.header "authorization".toList)
    relay.tokens with
  | none => rfl
  | some policy =>
      dsimp only [bind, Except.bind, EStateM.bind, check,
        orUnauthorized, setRecord, modify, modifyGet,
        MonadStateOf.modifyGet, EStateM.modifyGet, pure]
      cases c.readForm request with
      | error failure => rfl
      | ok items =>
          dsimp only [EStateM.pure]
          cases c.parseForm items with
          | error failure => rfl
          | ok parsed =>
              dsimp only [EStateM.pure]
              cases (enforceWith c.normalizeDomain
                c.parseMailbox policy request.domain
                (parsed.from.headD [])).mapError
                  policyFailure with
              | error failure => rfl
              | ok mailbox =>
                  dsimp only [EStateM.pure]
                  cases (c.validateSubject
                    (parsed.subject.getD [])).mapError
                      headerFailure with
                  | error failure => rfl
                  | ok subject =>
                      dsimp only [EStateM.pure]
                      cases (c.validateCustomHeaders
                        parsed.headers).mapError
                          headerFailure with
                      | error failure => rfl
                      | ok _ =>
                          dsimp only [EStateM.pure]
                          cases checkCount relay.settings
                            parsed with
                          | error failure => rfl
                          | ok _ => rfl

end Pipeline

end MailgunRelay

------------------------------------------------------------
-- The Log
------------------------------------------------------------

namespace MailgunRelay

namespace Pipeline

variable [Unicode] [Idna]

omit [Idna] in
/- What the end of a task writes of a refused request. -/
theorem endTask_refused
    (relay : Relay)
    (failure : Failure)
    {v : Visible}
    (hDuration : v.durationMs = relay.durationMs)
    (hEnding : v.ending = (Course.refused failure).ending) :
    (joinTask (endTask relay
        (.error (.failure failure)
          { record := v.checked
            emitted := []
            submitted := [] }))).1.emitted =
      v.log := by
  unfold Visible.log Visible.warnings Visible.record
  rw [hEnding, hDuration]
  rfl

omit [Idna] in
/- What the end of a task writes of a submitted message. -/
theorem endTask_deliver
    (c : Components)
    (relay : Relay)
    (message : BuiltMessage)
    {v : Visible}
    (hSettings :
      v.failOnPartialRefusal =
        relay.settings.failOnPartialRefusal)
    (hDuration : v.durationMs = relay.durationMs)
    (hEnding :
      v.ending =
        (Course.submitted message (c.submit message)).ending) :
    (joinTask (endTask relay
        (deliver c relay.settings message
          { record := v.checked
            emitted := []
            submitted := [] }))).1.emitted =
      v.log := by
  unfold Visible.log Visible.warnings Visible.record deliver
    submitMessage
  rw [hEnding, hSettings, hDuration]
  unfold Course.ending
  cases c.submit message with
  | error error =>
      cases error with
      | temporary => rfl
      | permanent => rfl
  | panic => rfl
  | ok refused =>
      cases refused with
      | nil => rfl
      | cons refusal rest =>
          unfold answer
          cases relay.settings.failOnPartialRefusal with
          | true => rfl
          | false => rfl

/-
  The pipeline's calls of the logger are those of what may
  be seen of the request.
-/
theorem emitted_visible
    (c : Components)
    (relay : Relay)
    (request : Request) :
    (postMessages c relay request).1.emitted =
      (visible c relay request).log := by
  have hEnding :
      (visible c relay request).ending =
        (course c relay request).ending :=
    rfl
  unfold course at hEnding
  unfold postMessages process
  rw [decide_visible]
  cases hPrepare : prepare c relay request with
  | error failure =>
      rw [hPrepare] at hEnding
      exact endTask_refused relay failure rfl hEnding
  | ok input =>
      rw [hPrepare] at hEnding
      dsimp only at hEnding ⊢
      unfold send
      cases hBuild : c.build input with
      | error error =>
          rw [hBuild] at hEnding
          exact
            endTask_refused relay (buildFailure error) rfl
              hEnding
      | ok message =>
          rw [hBuild] at hEnding
          exact
            endTask_deliver c relay message rfl rfl hEnding

end Pipeline

end MailgunRelay
