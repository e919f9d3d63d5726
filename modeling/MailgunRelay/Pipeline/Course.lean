import MailgunRelay.Pipeline

/-
  What becomes of a request.

  The checks before the message construction are one pure
  function of the request.  With it the course of a request
  is a value, and the route does what its course says: what
  the record holds, what is logged, what is submitted and
  what is answered.

  Key definitions include:
    * `MailgunRelay.Pipeline.prepare`
    * `MailgunRelay.Pipeline.Course`
    * `MailgunRelay.Pipeline.course`
    * `MailgunRelay.Pipeline.Ledger`

  Key theorems include:
    * `MailgunRelay.Pipeline.postMessages_follows`
-/

------------------------------------------------------------
-- Courses
------------------------------------------------------------

namespace MailgunRelay

namespace Pipeline

/- The checks of steps 2 to 8. -/
def prepare
    (c : Components)
    (relay : Relay)
    (request : Request) :
    Except Failure Mime.MessageInput := do
  let policy ←
    orUnauthorized
      (c.authenticate
        (request.header "authorization".toList)
        relay.tokens)
  let items ← c.readForm request
  let parsed ← c.parseForm items
  let mailbox ←
    (enforceWith c.normalizeDomain c.parseMailbox policy
      request.domain (parsed.from.headD [])).mapError
        policyFailure
  let subject ←
    (c.validateSubject (parsed.subject.getD [])).mapError
      headerFailure
  (c.validateCustomHeaders parsed.headers).mapError
    headerFailure
  checkCount relay.settings parsed
  pure (messageInput relay.settings parsed mailbox subject)

/-
  What becomes of a request: it is refused before a message
  is there, or its message is submitted.
-/
inductive Course where
  | refused (failure : Failure)
  | submitted (message : BuiltMessage) (end' : Submission)

/- The course of a request. -/
def course
    (c : Components)
    (relay : Relay)
    (request : Request) : Course :=
  match prepare c relay request with
  | .error failure => .refused failure
  | .ok input =>
      match c.build input with
      | .error error => .refused (buildFailure error)
      | .ok message => .submitted message (c.submit message)

/- The messages handed to the submitter. -/
def Course.messages : Course → List BuiltMessage
| .refused _ => []
| .submitted message _ => [message]

end Pipeline

end MailgunRelay

------------------------------------------------------------
-- Ledgers
------------------------------------------------------------

namespace MailgunRelay

namespace Pipeline

/- What a request record says of the outcome. -/
structure Ledger where
  statusCode : Nat
  result : Outcome
  recipientCount : Nat
  refusedCount : Nat
  messageId : Option Str
  deriving DecidableEq

def Record.ledger (record : Record) : Ledger :=
  { statusCode := record.statusCode
    result := record.result
    recipientCount := record.recipientCount
    refusedCount := record.refusedCount
    messageId := record.messageId }

/- The ledger of a submitted message. -/
def sentLedger
    (message : BuiltMessage)
    (statusCode : Nat)
    (result : Outcome)
    (refusedCount : Nat) : Ledger :=
  { statusCode := statusCode
    result := result
    recipientCount := message.envelope.length
    refusedCount := refusedCount
    messageId := some message.messageId }

/- The ledger a course ends with. -/
def Course.ledger
    (failOnPartialRefusal : Bool) : Course → Ledger
| .refused failure =>
    { statusCode := failure.status
      result := failure.result
      recipientCount := 0
      refusedCount := 0
      messageId := none }
| .submitted message (.error .temporary) =>
    sentLedger message 503 .smtpTemporary 0
| .submitted message (.error .permanent) =>
    sentLedger message 502 .smtpPermanent 0
| .submitted message .panic =>
    sentLedger message 500 .internalError 0
| .submitted message (.ok []) =>
    sentLedger message 200 .ok 0
| .submitted message (.ok (_ :: rest)) =>
    sentLedger message
      (if failOnPartialRefusal then 502 else 200)
      .partialRefusal (rest.length + 1)

/- The warning of a course about refused recipients. -/
def Course.warnings
    [Unicode]
    (record : Record) : Course → List (LogCall Event)
| .submitted message (.ok (refusal :: rest)) =>
    [{ level := .warning
       logger := accessLogger
       event :=
         .recipientsRefused record.requestId
           record.tokenLabel record.pathDomain
           message.messageId record.recipientCount
           (rest.length + 1)
           (refusedEntries (refusal :: rest)) }]
| _ => []

/- The call that writes the request record. -/
def requestCall
    (relay : Relay)
    (record : Record) : LogCall Event :=
  { level := .info
    logger := accessLogger
    event :=
      .request record (record.messageId.getD ['-'])
        relay.durationMs }

end Pipeline

end MailgunRelay

------------------------------------------------------------
-- The Checks
------------------------------------------------------------

namespace MailgunRelay

namespace Pipeline

/- Nothing was submitted or logged, the ledger is the same. -/
structure Quiet (w w' : World) : Prop where
  emitted : w'.emitted = w.emitted
  submitted : w'.submitted = w.submitted
  ledger : w'.record.ledger = w.record.ledger

theorem Quiet.trans
    {w w' w'' : World}
    (hFirst : Quiet w w')
    (hSecond : Quiet w' w'') :
    Quiet w w'' :=
  { emitted := hSecond.emitted.trans hFirst.emitted
    submitted := hSecond.submitted.trans hFirst.submitted
    ledger := hSecond.ledger.trans hFirst.ledger }

theorem Quiet.refl
    (w : World) :
    Quiet w w :=
  { emitted := rfl
    submitted := rfl
    ledger := rfl }

/-
  A decision that stops quietly with the failure of a
  result, or goes on quietly with its value.
-/
abbrev Reaches
    {α β : Type} :
    Decision β → Except Failure α → (α → Decision β) →
      World → Prop :=
  Lib.Reaches Quiet Abort.failure

section Reaching

variable {α β γ : Type}
variable {result : Except Failure α}
variable {next : α → Decision β}
variable {w : World}

/- A check stops, or the rest decides. -/
theorem Reaches.check
    {checked : Except Failure γ}
    {m : γ → Decision β}
    {rest : γ → Except Failure α}
    (hRest : ∀ a, checked = .ok a →
      Reaches (m a) (rest a) next w) :
    Reaches (check checked >>= m) (checked >>= rest)
      next w :=
  Lib.Reaches.check .refl (fun _ => rfl) (fun _ => rfl) hRest

/- Changes outside of the ledger are quiet. -/
theorem Reaches.setRecord
    {f : Record → Record}
    {m : Decision β}
    (hLedger : ∀ r, (f r).ledger = r.ledger)
    (hRest : ∀ w', Reaches m result next w') :
    Reaches (setRecord f >>= fun _ => m) result next w :=
  Lib.Reaches.modify .trans ⟨rfl, rfl, hLedger w.record⟩
    (hRest _)

end Reaching

variable [Unicode]

/-
  The decision stops at the first failed check or goes on to
  build the message; the world stays quiet until then.
-/
theorem decide_reaches
    (c : Components)
    (relay : Relay)
    (request : Request)
    (w : World) :
    Reaches (decide c relay request) (prepare c relay request)
      (send c relay.settings) w := by
  unfold decide prepare
  refine Reaches.check fun policy _ => ?_
  refine Reaches.setRecord (fun _ => rfl) fun w => ?_
  refine Reaches.check fun items _ => ?_
  refine Reaches.check fun parsed _ => ?_
  refine Reaches.setRecord (fun _ => rfl) fun w => ?_
  refine Reaches.check fun mailbox _ => ?_
  refine Reaches.check fun subject _ => ?_
  refine Reaches.check fun _ _ => ?_
  refine Reaches.check fun _ _ => ?_
  exact Lib.Reaches.here .refl _

end Pipeline

end MailgunRelay

------------------------------------------------------------
-- The Route
------------------------------------------------------------

namespace MailgunRelay

namespace Pipeline

/-
  The world and the response of a request that took a
  course.
-/
structure Follows
    [Unicode]
    (relay : Relay)
    (course : Course)
    (w : World)
    (response : Response) : Prop where
  ledger :
    w.record.ledger =
      course.ledger relay.settings.failOnPartialRefusal
  submitted : w.submitted = course.messages
  emitted :
    w.emitted =
      course.warnings w.record ++ [requestCall relay w.record]
  status : response.status = w.record.statusCode
  body :
    response.status = 200 →
      ∃ message refused,
        course = .submitted message (.ok refused) ∧
        response.body = .queued message.messageId
          "Queued. Thank you.".toList

/- No failure is answered with a success. -/
theorem Failure.status_ne_success
    (failure : Failure) :
    failure.status ≠ 200 := by
  intro hSuccess
  have hAgrees := failure.agrees
  rw [hSuccess] at hAgrees
  cases hResult : failure.result <;>
    simp [hResult, Outcome.failureStatus] at hAgrees

/- A world in which nothing was submitted or logged yet. -/
structure Untouched (w : World) : Prop where
  emitted : w.emitted = []
  submitted : w.submitted = []
  ledger :
    w.record.ledger =
      { statusCode := 500
        result := .internalError
        recipientCount := 0
        refusedCount := 0
        messageId := none }

variable [Unicode] [Idna]

/- What a run leaves behind and answers. -/
def finish
    (relay : Relay)
    (run : EStateM.Result Abort World Response) :
    World × Response :=
  joinTask (endTask relay run)

omit [Idna] in
/- A refusal before a message is there. -/
theorem finish_refused
    {relay : Relay}
    {w : World}
    (failure : Failure)
    (hWorld : Untouched w) :
    Follows relay (.refused failure)
      (finish relay (.error (.failure failure) w)).1
      (finish relay (.error (.failure failure) w)).2 := by
  have hLedger := hWorld.ledger
  simp only [Record.ledger, Ledger.mk.injEq] at hLedger
  rcases hLedger with ⟨-, -, hCount, hRefused, hId⟩
  constructor
  · simp [finish, joinTask, endTask, dropRecord,
      World.respond, Record.ledger, Course.ledger,
      failureResponse, errorResponse, hCount, hRefused, hId]
  · simp [finish, joinTask, endTask, dropRecord,
      World.respond, Course.messages, hWorld.submitted]
  · simp [finish, joinTask, endTask, dropRecord,
      World.respond, Course.warnings, requestCall,
      hWorld.emitted]
  · rfl
  · intro hSuccess
    exact absurd hSuccess failure.status_ne_success

omit [Idna] in
/- A message that is handed to the submitter. -/
theorem finish_submitted
    {relay : Relay}
    {w : World}
    (c : Components)
    (message : BuiltMessage)
    (hWorld : Untouched w) :
    Follows relay (.submitted message (c.submit message))
      (finish relay
        (deliver c relay.settings message w)).1
      (finish relay
        (deliver c relay.settings message w)).2 := by
  have hLedger := hWorld.ledger
  have hEmitted := hWorld.emitted
  have hSubmitted := hWorld.submitted
  simp only [Record.ledger, Ledger.mk.injEq] at hLedger
  rcases hLedger with ⟨hStatus, hResult, -, hRefused, -⟩
  rcases w with ⟨record, emitted, submitted⟩
  simp only at hStatus hResult hRefused hEmitted hSubmitted
  subst hEmitted hSubmitted
  unfold deliver submitMessage
  cases hSubmit : c.submit message with
  | error error =>
      cases error with
      | temporary =>
          refine ⟨?_, rfl, rfl, rfl, fun h => ?_⟩
          · exact
              congrArg (sentLedger message 503 .smtpTemporary)
                hRefused
          · cases h
      | permanent =>
          refine ⟨?_, rfl, rfl, rfl, fun h => ?_⟩
          · exact
              congrArg (sentLedger message 502 .smtpPermanent)
                hRefused
          · cases h
  | panic =>
      -- The record keeps its default outcome.
      refine ⟨?_, rfl, rfl, hStatus.symm, fun h => ?_⟩
      · exact
          congr
            (congr
              (congrArg (fun status result refused =>
                sentLedger message status result refused)
                hStatus) hResult)
            hRefused
      · cases h
  | ok refused =>
      cases refused with
      | nil =>
          refine ⟨?_, rfl, rfl, rfl, fun _ => ?_⟩
          · exact
              congrArg (sentLedger message 200 .ok) hRefused
          · exact ⟨message, [], rfl, rfl⟩
      | cons refusal rest =>
          unfold answer
          cases hFail : relay.settings.failOnPartialRefusal with
          | true =>
              refine ⟨?_, rfl, rfl, rfl, fun h => ?_⟩
              · rw [hFail]
                rfl
              · cases h
          | false =>
              refine ⟨?_, rfl, rfl, rfl, fun _ => ?_⟩
              · rw [hFail]
                rfl
              · exact ⟨message, refusal :: rest, rfl, rfl⟩

/- The route does what the course of the request says. -/
theorem postMessages_follows
    (c : Components)
    (relay : Relay)
    (request : Request) :
    Follows relay (course c relay request)
      (postMessages c relay request).1
      (postMessages c relay request).2 := by
  rcases
    decide_reaches c relay request
      (initialWorld relay request) with
    ⟨w, hQuiet, hRun⟩
  have hWorld : Untouched w :=
    { emitted := hQuiet.emitted
      submitted := hQuiet.submitted
      ledger := hQuiet.ledger }
  unfold postMessages process course
  rw [hRun]
  cases prepare c relay request with
  | error failure => exact finish_refused failure hWorld
  | ok input =>
      simp only [send]
      cases c.build input with
      | error error =>
          exact finish_refused (buildFailure error) hWorld
      | ok message => exact finish_submitted c message hWorld

end Pipeline

end MailgunRelay
