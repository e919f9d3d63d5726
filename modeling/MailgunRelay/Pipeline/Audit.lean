import MailgunRelay.Pipeline.Course

/-
  The audit record tells what the client was told.

  Key definitions include:
    * `MailgunRelay.Pipeline.built`
    * `MailgunRelay.Pipeline.refusedBy`
    * `MailgunRelay.Pipeline.Audited`

  Key theorems include:
    * `MailgunRelay.Pipeline.request_audited`
-/

------------------------------------------------------------
-- What Happened
------------------------------------------------------------

namespace MailgunRelay

namespace Pipeline

/- The message that was built, if the request got there. -/
def built
    (c : Components)
    (relay : Relay)
    (request : Request) : Option BuiltMessage :=
  match prepare c relay request with
  | .error _ => none
  | .ok input => (c.build input).toOption

/- The recipients a successful submission refused. -/
def refusedBy
    (c : Components)
    (message : Option BuiltMessage) : List Refusal :=
  match message.map c.submit with
  | some (.ok refused) => refused
  | _ => []

def LogCall.isRequest (call : LogCall Event) : Bool :=
  match call.event with
  | .request .. => true
  | .recipientsRefused .. => false
  | .smtpCleanupFailed .. => false

def LogCall.isWarning (call : LogCall Event) : Bool :=
  !LogCall.isRequest call

/- The outcomes a record may tell. -/
def auditTable : List (Nat × Outcome) :=
  [(200, .ok), (200, .partialRefusal),
    (502, .partialRefusal), (400, .badRequest),
    (401, .authError), (403, .policyError), (413, .tooLarge),
    (502, .smtpPermanent), (503, .smtpTemporary),
    (500, .internalError)]

end Pipeline

end MailgunRelay

------------------------------------------------------------
-- Audited Requests
------------------------------------------------------------

namespace MailgunRelay

namespace Pipeline

/-
  The record `r` of a request, the log and the submissions
  agree with its response.
-/
structure Audited
    (c : Components)
    (relay : Relay)
    (request : Request)
    (w : World)
    (response : Response) : Prop where
  /- Exactly one request record is emitted, in its end state. -/
  one :
    w.emitted.filter LogCall.isRequest =
      [requestCall relay w.record]
  /- It is written unless the log level is above it. -/
  written :
    ¬ Level.info < relay.logger.threshold →
      (relay.logger.lines w.emitted).filter
          LogCall.isRequest =
        [requestCall relay w.record]
  status : w.record.statusCode = response.status
  outcome :
    (w.record.statusCode, w.record.result) ∈ auditTable
  /- Refused recipients are warned about once. -/
  warned :
    (w.emitted.filter LogCall.isWarning).length =
      if refusedBy c (built c relay request) = [] then 0
      else 1
  refusedCount :
    w.record.refusedCount =
      (refusedBy c (built c relay request)).length
  submitted : w.submitted = (built c relay request).toList
  messageId :
    w.record.messageId =
      (built c relay request).map BuiltMessage.messageId
  recipientCount :
    w.record.recipientCount =
      ((built c relay request).map fun m =>
        m.envelope.length).getD 0
  answer :
    response.status = 200 →
      ∃ id, w.record.messageId = some id ∧
        response.body =
          .queued id "Queued. Thank you.".toList

/- The outcome of a failure is in the table. -/
theorem Failure.mem_auditTable
    (failure : Failure) :
    (failure.status, failure.result) ∈ auditTable := by
  have hAgrees := failure.agrees
  cases hResult : failure.result <;>
    simp_all [Outcome.failureStatus, auditTable]

/- The outcome of every course is in the table. -/
theorem Course.ledger_mem_auditTable
    (failOnPartialRefusal : Bool)
    (course : Course) :
    ((course.ledger failOnPartialRefusal).statusCode,
      (course.ledger failOnPartialRefusal).result) ∈
        auditTable := by
  cases course with
  | refused failure => exact failure.mem_auditTable
  | submitted message submission =>
      cases submission with
      | error error =>
          cases error <;>
            simp [Course.ledger, sentLedger, auditTable]
      | panic =>
          simp [Course.ledger, sentLedger, auditTable]
      | ok refused =>
          cases refused with
          | nil => simp [Course.ledger, sentLedger, auditTable]
          | cons refusal rest =>
              cases failOnPartialRefusal <;>
                simp [Course.ledger, sentLedger, auditTable]

/- The course of a request in terms of the built message. -/
theorem course_eq
    (c : Components)
    (relay : Relay)
    (request : Request) :
    (∃ failure, course c relay request = .refused failure ∧
      built c relay request = none) ∨
    ∃ message,
      course c relay request =
          .submitted message (c.submit message) ∧
        built c relay request = some message := by
  unfold course built
  cases prepare c relay request with
  | error failure => exact .inl ⟨failure, rfl, rfl⟩
  | ok input =>
      cases hBuild : c.build input with
      | error error =>
          exact .inl
            ⟨buildFailure error, by simp [hBuild],
              by simp [hBuild, Except.toOption]⟩
      | ok message =>
          exact .inr
            ⟨message, by simp [hBuild],
              by simp [hBuild, Except.toOption]⟩

variable [Unicode]

/- The log of a course sorted by its two events. -/
theorem filter_emitted
    (relay : Relay)
    (record : Record)
    (course : Course) :
    (course.warnings record ++
        [requestCall relay record]).filter
          LogCall.isRequest = [requestCall relay record] ∧
      (course.warnings record ++
        [requestCall relay record]).filter
          LogCall.isWarning = course.warnings record := by
  unfold Course.warnings
  split <;> exact ⟨rfl, rfl⟩

/- A course warns once if recipients were refused. -/
theorem Course.length_warnings
    (c : Components)
    (record : Record)
    (message : BuiltMessage) :
    (Course.warnings record
        (.submitted message (c.submit message))).length =
      if refusedBy c (some message) = [] then 0 else 1 := by
  unfold refusedBy
  cases hSubmit : c.submit message with
  | error error => simp [Course.warnings, hSubmit]
  | panic => simp [Course.warnings, hSubmit]
  | ok refused =>
      cases refused <;> simp [Course.warnings, hSubmit]

omit [Unicode] in
/- The refused recipients a ledger counts. -/
theorem Course.refusedCount_ledger
    (c : Components)
    (failOnPartialRefusal : Bool)
    (message : BuiltMessage) :
    (Course.ledger failOnPartialRefusal
        (.submitted message (c.submit message))).refusedCount =
      (refusedBy c (some message)).length := by
  unfold refusedBy
  cases hSubmit : c.submit message with
  | error error =>
      cases error <;> simp [Course.ledger, sentLedger, hSubmit]
  | panic => simp [Course.ledger, sentLedger, hSubmit]
  | ok refused =>
      cases refused <;>
        simp [Course.ledger, sentLedger, hSubmit]

omit [Unicode] in
/- A submitted message is named and counted in any case. -/
theorem Course.ledger_submitted
    (failOnPartialRefusal : Bool)
    (message : BuiltMessage)
    (submission : Submission) :
    (Course.ledger failOnPartialRefusal
        (.submitted message submission)).messageId =
          some message.messageId ∧
      (Course.ledger failOnPartialRefusal
        (.submitted message submission)).recipientCount =
          message.envelope.length := by
  cases submission with
  | error error => cases error <;> exact ⟨rfl, rfl⟩
  | panic => exact ⟨rfl, rfl⟩
  | ok refused => cases refused <;> exact ⟨rfl, rfl⟩

variable [Idna]

/-
  Every request is audited, whatever its checks, its message
  construction and its submitter do.
-/
theorem request_audited
    (c : Components)
    (relay : Relay)
    (request : Request) :
    Audited c relay request
      (postMessages c relay request).1
      (postMessages c relay request).2 := by
  have hFollows := postMessages_follows c relay request
  generalize postMessages c relay request = run at hFollows ⊢
  rcases run with ⟨w, response⟩
  rcases hFollows with
    ⟨hLedger, hSubmitted, hEmitted, hStatus, hBody⟩
  simp only at hLedger hSubmitted hEmitted hStatus hBody ⊢
  have hFilter :=
    filter_emitted relay w.record (course c relay request)
  rw [← hEmitted] at hFilter
  have hTable :=
    Course.ledger_mem_auditTable
      relay.settings.failOnPartialRefusal
      (course c relay request)
  rw [← hLedger] at hTable
  have hOne := hFilter.1
  have hWritten :
      ¬ Level.info < relay.logger.threshold →
        (relay.logger.lines w.emitted).filter
            LogCall.isRequest =
          [requestCall relay w.record] := by
    intro hLevel
    unfold Logger.lines
    rw [List.filter_comm, hOne]
    simp [Logger.renders, requestCall, hLevel]
  rcases course_eq c relay request with
    ⟨failure, hCourse, hBuilt⟩ | ⟨message, hCourse, hBuilt⟩
  · rw [hCourse] at hLedger hSubmitted hFilter hBody
    simp only [Record.ledger, Course.ledger,
      Ledger.mk.injEq] at hLedger
    rcases hLedger with ⟨-, -, hCount, hRefused, hId⟩
    constructor
    · exact hOne
    · exact hWritten
    · exact hStatus.symm
    · exact hTable
    · rw [hFilter.2, hBuilt]
      rfl
    · rw [hRefused, hBuilt]
      rfl
    · rw [hSubmitted, hBuilt]
      rfl
    · rw [hId, hBuilt]
      rfl
    · rw [hCount, hBuilt]
      rfl
    · intro hSuccess
      rcases hBody hSuccess with ⟨message, refused, hOther, -⟩
      cases hOther
  · rw [hCourse] at hLedger hSubmitted hFilter hBody
    have hRefused :=
      Course.refusedCount_ledger c
        relay.settings.failOnPartialRefusal message
    have hNamed :=
      Course.ledger_submitted
        relay.settings.failOnPartialRefusal message
        (c.submit message)
    rw [← hLedger] at hRefused hNamed
    constructor
    · exact hOne
    · exact hWritten
    · exact hStatus.symm
    · exact hTable
    · rw [hFilter.2, hBuilt]
      exact Course.length_warnings c w.record message
    · rw [hBuilt]
      exact hRefused
    · rw [hSubmitted, hBuilt]
      rfl
    · rw [hBuilt]
      exact hNamed.1
    · rw [hBuilt]
      exact hNamed.2
    · intro hSuccess
      rcases hBody hSuccess with
        ⟨message', refused, hOther, hQueued⟩
      rw [Course.submitted.injEq] at hOther
      rw [← hOther.1] at hQueued
      exact ⟨message.messageId, hNamed.1, hQueued⟩

end Pipeline

end MailgunRelay
