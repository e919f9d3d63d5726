import MailgunRelay.Pipeline.Audit
import MailgunRelay.Smtp.Delivery

/-
  What the client is told and what the mail server did.

  With the SMTP session as the submitter, the answer to a
  request says what became of its message: a 200 stands for
  a message the server took, and one that may be sent again
  for a message it did not take.

  Key definitions include:
    * `MailgunRelay.Smtp.submitVia`
    * `MailgunRelay.Smtp.Told`

  Key theorems include:
    * `MailgunRelay.Smtp.length_acceptances`
    * `MailgunRelay.Smtp.answer_told`
-/

------------------------------------------------------------
-- The Submitter
------------------------------------------------------------

namespace MailgunRelay

namespace Smtp

open Pipeline

/- `SmtpSubmitter::submit`: one session for one message. -/
def submitVia
    (config : SmtpConfig)
    (script : Script)
    (message : BuiltMessage) : Submission :=
  match (session config script message).outcome with
  | .ok refused => .ok refused
  | .error error => .error error

/- A relay that submits to a server. -/
def relayVia
    (config : SmtpConfig)
    (script : Script)
    (relay : Relay) : Relay :=
  { relay with submit := submitVia config script }

/- What the server was sent for a message. -/
def traceOf
    (config : SmtpConfig)
    (script : Script)
    (message : BuiltMessage) : List Smtp.Event :=
  (session config script message).trace

/- The recipients the server took of a message. -/
def takenOf
    (config : SmtpConfig)
    (script : Script)
    (message : BuiltMessage) : List Str :=
  acceptances
    (answersTo Command.rcptAddress
      (traceOf config script message))

/- Refused and taken recipients make up the envelope. -/
theorem length_acceptances
    {config : SmtpConfig}
    {script : Script}
    {message : BuiltMessage}
    {refused : List Refusal}
    (hOutcome :
      (session config script message).outcome = .ok refused) :
    refused.length + (takenOf config script message).length =
      message.envelope.length := by
  have hTruth := session_outcome config script message
  rw [hOutcome] at hTruth
  rcases hTruth with ⟨hDelivered, hRefused, -⟩
  have hPerm :=
    (refusals_acceptances_perm
      (answersTo Command.rcptAddress
        (traceOf config script message))).length_eq
  rw [List.length_append, List.length_map] at hPerm
  rw [hRefused, ← hDelivered.asked, List.length_map]
  rw [List.length_map] at hPerm
  exact hPerm

end Smtp

end MailgunRelay

------------------------------------------------------------
-- The Answer
------------------------------------------------------------

namespace MailgunRelay

namespace Smtp

open Pipeline

/-
  What an answer says of the server.  A 200 means that it
  took the message, with every recipient if partial refusals
  fail.  A message that it took is answered with a 200, or
  with that failure; never with a 503, after which the client
  may send it again.
-/
structure Told
    (config : SmtpConfig)
    (script : Script)
    (relay : Relay)
    (w : World)
    (response : Response) : Prop where
  queued :
    response.status = 200 →
      ∃ message,
        w.submitted = [message] ∧
          response.body =
            .queued message.messageId
              "Queued. Thank you.".toList ∧
          Delivered config message
            (traceOf config script message)
  full :
    response.status = 200 →
      relay.settings.failOnPartialRefusal = true →
        ∀ message ∈ w.submitted,
          (takenOf config script message).length =
            message.envelope.length
  taken :
    ∀ message ∈ w.submitted,
      MessageAccepted (traceOf config script message) →
        response.status = 200 ∨
          response.status = 502 ∧
            relay.settings.failOnPartialRefusal = true ∧
            (takenOf config script message).length <
              message.envelope.length
  retried :
    response.status = 503 →
      ∀ message ∈ w.submitted,
        ¬ MessageAccepted (traceOf config script message)
  counted :
    ∀ message ∈ w.submitted,
      MessageAccepted (traceOf config script message) →
        w.record.refusedCount +
            (takenOf config script message).length =
          w.record.recipientCount
  unsent :
    response.status ∉ [200, 502, 503] → w.submitted = []

/- A request that is refused reaches no server. -/
theorem told_of_refused
    [Unicode]
    {config : SmtpConfig}
    {script : Script}
    {relay : Relay}
    {failure : Pipeline.Failure}
    {w : World}
    {response : Response}
    (hFollows : Follows relay (.refused failure) w response) :
    Told config script relay w response := by
  have hNone : w.submitted = [] := hFollows.submitted
  have hNever : ∀ message, message ∉ w.submitted := by
    intro message
    rw [hNone]
    exact List.not_mem_nil
  have hStatus : response.status ≠ 200 := by
    rw [hFollows.status]
    have hCode :=
      congrArg Ledger.statusCode hFollows.ledger
    intro hSuccess
    exact failure.status_ne_success (hCode.symm.trans hSuccess)
  exact
    { queued := fun h => absurd h hStatus
      full := fun h => absurd h hStatus
      taken := fun message h => absurd h (hNever message)
      retried := fun _ message h => absurd h (hNever message)
      counted := fun message h => absurd h (hNever message)
      unsent := fun _ => hNone }

/- The record and the status of a message that was taken. -/
theorem taken_ledger
    [Unicode]
    {relay : Relay}
    {message : BuiltMessage}
    {refused : List Refusal}
    {w : World}
    {response : Response}
    (hFollows :
      Follows relay (.submitted message (.ok refused)) w
        response) :
    w.record.refusedCount = refused.length ∧
      w.record.recipientCount = message.envelope.length ∧
      (response.status = 200 ∧
          (relay.settings.failOnPartialRefusal = true →
            refused = []) ∨
        response.status = 502 ∧
          relay.settings.failOnPartialRefusal = true ∧
          refused ≠ []) := by
  have hLedger := hFollows.ledger
  rw [hFollows.status]
  unfold Record.ledger at hLedger
  cases refused with
  | nil =>
      simp only [Course.ledger, sentLedger, Ledger.mk.injEq]
        at hLedger
      exact
        ⟨hLedger.2.2.2.1, hLedger.2.2.1,
          .inl ⟨hLedger.1, fun _ => rfl⟩⟩
  | cons refusal rest =>
      simp only [Course.ledger, sentLedger, Ledger.mk.injEq]
        at hLedger
      refine ⟨hLedger.2.2.2.1, hLedger.2.2.1, ?_⟩
      rw [hLedger.1]
      cases relay.settings.failOnPartialRefusal with
      | true =>
          exact .inr ⟨rfl, rfl, List.cons_ne_nil refusal rest⟩
      | false =>
          exact .inl ⟨rfl, fun h => absurd h Bool.false_ne_true⟩

/- A message the server took. -/
theorem told_of_taken
    [Unicode]
    {config : SmtpConfig}
    {script : Script}
    {relay : Relay}
    {message : BuiltMessage}
    {refused : List Refusal}
    {w : World}
    {response : Response}
    (hOutcome :
      (session config script message).outcome = .ok refused)
    (hFollows :
      Follows relay (.submitted message (.ok refused)) w
        response) :
    Told config script relay w response := by
  have hTruth := session_outcome config script message
  rw [hOutcome] at hTruth
  have hLength := length_acceptances hOutcome
  rcases taken_ledger hFollows with
    ⟨hRefused, hCount, hStatus⟩
  have hMessages : w.submitted = [message] :=
    hFollows.submitted
  have hOnly :
      ∀ other ∈ w.submitted, other = message := by
    intro other hMem
    rw [hMessages] at hMem
    exact List.mem_singleton.mp hMem
  constructor
  · intro hSuccess
    rcases hFollows.body hSuccess with
      ⟨other, refused', hCourse, hBody⟩
    cases hCourse
    exact ⟨message, hMessages, hBody, hTruth.1⟩
  · intro hSuccess hFail other hMem
    rw [hOnly other hMem]
    rcases hStatus with ⟨-, hNone⟩ | ⟨hFailed, -⟩
    · rw [hNone hFail, List.length_nil, Nat.zero_add]
        at hLength
      exact hLength
    · omega
  · intro other hMem _
    rw [hOnly other hMem]
    rcases hStatus with ⟨hSuccess, -⟩ | ⟨hFailed, hFail, hSome⟩
    · exact .inl hSuccess
    · have hPositive := List.length_pos_iff.mpr hSome
      refine .inr ⟨hFailed, hFail, ?_⟩
      omega
  · intro hRetry
    omega
  · intro other hMem _
    rw [hOnly other hMem, hRefused, hCount]
    exact hLength
  · intro hOther
    simp only [List.mem_cons, List.not_mem_nil, or_false]
      at hOther
    omega

/- A message the server did not take. -/
theorem told_of_failed
    [Unicode]
    {config : SmtpConfig}
    {script : Script}
    {relay : Relay}
    {message : BuiltMessage}
    {error : SubmitError}
    {w : World}
    {response : Response}
    (hOutcome :
      (session config script message).outcome = .error error)
    (hFollows :
      Follows relay (.submitted message (.error error)) w
        response) :
    Told config script relay w response := by
  have hTruth := session_outcome config script message
  rw [hOutcome] at hTruth
  have hMessages : w.submitted = [message] :=
    hFollows.submitted
  have hNever :
      ∀ other ∈ w.submitted,
        ¬ MessageAccepted (traceOf config script other) := by
    intro other hMem
    rw [hMessages] at hMem
    rw [List.mem_singleton.mp hMem]
    exact hTruth
  have hStatus :
      response.status = 502 ∨ response.status = 503 := by
    have hCode :=
      congrArg Ledger.statusCode hFollows.ledger
    rw [hFollows.status]
    cases error with
    | temporary => exact .inr hCode
    | permanent => exact .inl hCode
  constructor
  · intro hSuccess
    omega
  · intro hSuccess
    omega
  · intro other hMem hTaken
    exact absurd hTaken (hNever other hMem)
  · intro _
    exact hNever
  · intro other hMem hTaken
    exact absurd hTaken (hNever other hMem)
  · intro hOther
    simp only [List.mem_cons, List.not_mem_nil, or_false]
      at hOther
    omega

variable [Unicode] [Idna] [Base64] [Sha256] [Lettre]

/- Every answer tells what the server did, for any server. -/
theorem answer_told
    (config : SmtpConfig)
    (script : Script)
    (relay : Relay)
    (request : Pipeline.Request) :
    let relay := relayVia config script relay
    let run := postMessages (components relay) relay request
    Told config script relay run.1 run.2 := by
  intro relay run
  have hFollows :=
    postMessages_follows (components relay) relay request
  rcases course_eq (components relay) relay request with
    ⟨failure, hCourse, -⟩ | ⟨message, hCourse, -⟩
  · rw [hCourse] at hFollows
    exact told_of_refused hFollows
  · have hSubmit :
        (components relay).submit message =
          submitVia config script message :=
      rfl
    rw [hCourse, hSubmit] at hFollows
    unfold submitVia at hFollows
    cases hOutcome :
        (session config script message).outcome with
    | ok refused =>
        rw [hOutcome] at hFollows
        exact told_of_taken hOutcome hFollows
    | error error =>
        rw [hOutcome] at hFollows
        exact told_of_failed hOutcome hFollows

end Smtp

end MailgunRelay
