import MailgunRelay.Mime.Head
import MailgunRelay.Pipeline.Course

/-
  No unauthorised submission.

  Key definitions include:
    * `MailgunRelay.Pipeline.Passed`
    * `MailgunRelay.Pipeline.Authorised`

  Key theorems include:
    * `MailgunRelay.Pipeline.passed_of_prepare`
    * `MailgunRelay.Pipeline.submissions_authorised`
-/

------------------------------------------------------------
-- Passed Checks
------------------------------------------------------------

namespace MailgunRelay

namespace Pipeline

/-
  A request passed the checks with these values, and `input`
  is what they give to the message construction.
-/
structure Passed
    (c : Components)
    (relay : Relay)
    (request : Request)
    (policy : TokenPolicy)
    (parsed : ParsedForm)
    (mailbox : Mailbox)
    (subject : Str)
    (input : Mime.MessageInput) : Prop where
  authenticated :
    c.authenticate
        (request.header "authorization".toList)
        relay.tokens = some policy
  form :
    ∃ items, c.readForm request = .ok items ∧
      c.parseForm items = .ok parsed
  enforced :
    enforceWith c.normalizeDomain c.parseMailbox policy
        request.domain (parsed.from.headD []) = .ok mailbox
  validated :
    c.validateSubject (parsed.subject.getD []) = .ok subject
  headers : c.validateCustomHeaders parsed.headers = .ok ()
  counted :
    1 ≤ parsed.to.length + parsed.cc.length +
          parsed.bcc.length ∧
      ((parsed.to.length + parsed.cc.length +
          parsed.bcc.length : Nat) : Int) ≤
        relay.settings.maxRecipients.val
  input :
    input =
      messageInput relay.settings parsed mailbox subject

theorem mapError_eq_ok_iff
    {α ε ε' : Type}
    {f : ε → ε'}
    {x : Except ε α}
    {a : α} :
    x.mapError f = .ok a ↔ x = .ok a := by
  cases x <;> simp [Except.mapError]

theorem orUnauthorized_eq_ok_iff
    {x : Option TokenPolicy}
    {policy : TokenPolicy} :
    orUnauthorized x = .ok policy ↔ x = some policy := by
  cases x <;> simp [orUnauthorized]

/- The recipients are counted within the limit. -/
theorem counted_of_checkCount
    {settings : Settings}
    {parsed : ParsedForm}
    (hCount : checkCount settings parsed = .ok ()) :
    1 ≤ parsed.to.length + parsed.cc.length +
          parsed.bcc.length ∧
      ((parsed.to.length + parsed.cc.length +
          parsed.bcc.length : Nat) : Int) ≤
        settings.maxRecipients.val := by
  unfold checkCount at hCount
  simp only at hCount
  split at hCount
  · cases hCount
  split at hCount
  · cases hCount
  rename_i hSome hLimit
  rw [exceeds_iff] at hLimit
  omega

/- A prepared message comes from passed checks. -/
theorem passed_of_prepare
    {c : Components}
    {relay : Relay}
    {request : Request}
    {input : Mime.MessageInput}
    (hPrepare : prepare c relay request = .ok input) :
    ∃ policy parsed mailbox subject,
      Passed c relay request policy parsed mailbox subject
        input := by
  unfold prepare at hPrepare
  simp only [Lib.bind_eq_ok_iff, mapError_eq_ok_iff,
    orUnauthorized_eq_ok_iff] at hPrepare
  rcases hPrepare with
    ⟨policy, hPolicy, items, hItems, parsed, hParsed, mailbox,
      hMailbox, subject, hSubject, _, hHeaders, _, hCount,
      hEnd⟩
  cases hEnd
  exact
    ⟨policy, parsed, mailbox, subject,
      { authenticated := hPolicy
        form := ⟨items, hItems, hParsed⟩
        enforced := hMailbox
        validated := hSubject
        headers := hHeaders
        counted := counted_of_checkCount hCount
        input := rfl }⟩

/- A submitted message is not answered with a refusal. -/
theorem Course.messages_eq_nil
    {failOnPartialRefusal : Bool}
    {course : Course}
    (hStatus :
      (course.ledger failOnPartialRefusal).statusCode ∈
        [400, 401, 403, 413]) :
    course.messages = [] := by
  cases course with
  | refused failure => rfl
  | submitted message submission =>
      exfalso
      cases submission with
      | error error =>
          cases error <;>
            simp [Course.ledger, sentLedger] at hStatus
      | panic => simp [Course.ledger, sentLedger] at hStatus
      | ok refused =>
          cases refused with
          | nil => simp [Course.ledger, sentLedger] at hStatus
          | cons refusal rest =>
              cases failOnPartialRefusal <;>
                simp [Course.ledger, sentLedger] at hStatus

/- A message is submitted only after the checks. -/
theorem course_submitted
    {c : Components}
    {relay : Relay}
    {request : Request}
    {message : BuiltMessage}
    (hMessage : message ∈ (course c relay request).messages) :
    ∃ input,
      prepare c relay request = .ok input ∧
        c.build input = .ok message := by
  unfold course at hMessage
  cases hPrepare : prepare c relay request with
  | error failure => simp [hPrepare, Course.messages] at hMessage
  | ok input =>
      cases hBuild : c.build input with
      | error error =>
          simp [hPrepare, hBuild, Course.messages] at hMessage
      | ok built =>
          simp only [hPrepare, hBuild, Course.messages,
            List.mem_singleton] at hMessage
          exact ⟨input, rfl, by rw [hMessage, hBuild]⟩

end Pipeline

end MailgunRelay

------------------------------------------------------------
-- Authorised Submissions
------------------------------------------------------------

namespace MailgunRelay

namespace Pipeline

variable [Unicode] [Idna] [Base64] [Sha256] [Lettre]

/-
  A submitted message is authorised: a configured token
  stands for the request, its policy allows the path domain
  and the sender, the sender's mailbox is the one that was
  checked, and the recipients are within the limit.
-/
structure Authorised
    (relay : Relay)
    (request : Request)
    (message : BuiltMessage)
    (policy : TokenPolicy)
    (parsed : ParsedForm)
    (mailbox : Mailbox) : Prop where
  token :
    authenticate (request.header "authorization".toList)
        relay.tokens = some policy ∧
      policy ∈ relay.tokens
  path :
    ∃ domain, normalizeDomain request.domain = .ok domain ∧
      domain ∈ policy.mailgunDomains
  form :
    ∃ items, readForm relay.settings request = .ok items ∧
      parseForm relay.settings items = .ok parsed
  sender :
    enforcePolicy policy request.domain
        (parsed.from.headD []) = .ok mailbox ∧
      policy.Allows mailbox
  /- The message is built with this mailbox as its sender. -/
  input :
    ∃ subject,
      Mime.build relay.hex relay.date
          (messageInput relay.settings parsed mailbox
            subject) = .ok message
  /- Its head starts with a From field of this mailbox. -/
  fromField :
    ∃ field rest,
      Mime.addressHeader "From".toList [mailbox] =
          some field ∧
        message.formatted = utf8 field.render ++ rest
  recipients :
    1 ≤ parsed.to.length + parsed.cc.length +
          parsed.bcc.length ∧
      ((parsed.to.length + parsed.cc.length +
          parsed.bcc.length : Nat) : Int) ≤
        relay.settings.maxRecipients.val

omit [Sha256] in
/- The From field stands first in a built message. -/
theorem fromField_of_build
    {hex : Option Str}
    {date : Str}
    {input : Mime.MessageInput}
    {message : BuiltMessage}
    (hBuild : Mime.build hex date input = .ok message) :
    ∃ field rest,
      Mime.addressHeader "From".toList [input.from] =
          some field ∧
        message.formatted = utf8 field.render ++ rest := by
  rcases Mime.fields_of_build hBuild with
    ⟨_, _, fields, tree, -, -, hHead, hFormatted⟩
  rcases hHead.parts with
    ⟨fromField, toFields, ccFields, subject, custom, hFrom, -,
      -, -, -, hFields⟩
  refine ⟨fromField, ?_, hFrom, ?_⟩
  · exact
      utf8 ((fields.drop 1).flatMap Mime.Field.render) ++
        Mime.Tree.formatted tree
  · rw [hFormatted, hFields]
    simp [utf8]

/- Passed checks authorise the message they lead to. -/
theorem Passed.authorised
    {relay : Relay}
    {request : Request}
    {policy : TokenPolicy}
    {parsed : ParsedForm}
    {mailbox : Mailbox}
    {subject : Str}
    {input : Mime.MessageInput}
    {message : BuiltMessage}
    (hPassed :
      Passed (components relay) relay request policy parsed
        mailbox subject input)
    (hBuild :
      Mime.build relay.hex relay.date input = .ok message) :
    Authorised relay request message policy parsed mailbox := by
  have hPolicy :=
    (enforceWith_eq_ok_iff _ _ policy request.domain
      (parsed.from.headD []) mailbox).mp hPassed.enforced
  rw [hPassed.input] at hBuild
  exact
    { token :=
        ⟨hPassed.authenticated,
          mem_of_authenticate hPassed.authenticated⟩
      path := hPolicy.1
      form := hPassed.form
      sender := ⟨hPassed.enforced, hPolicy.2.2⟩
      input := ⟨subject, hBuild⟩
      fromField := fromField_of_build hBuild
      recipients := hPassed.counted }

/-
  At most one message is submitted, only an authorised one,
  and none when the answer refuses the request.
-/
theorem submissions_authorised
    (relay : Relay)
    (request : Request) :
    let run := postMessages (components relay) relay request
    run.1.submitted.length ≤ 1 ∧
      (∀ message ∈ run.1.submitted,
        ∃ policy parsed mailbox,
          Authorised relay request message policy parsed
            mailbox) ∧
      (run.2.status ∈ [400, 401, 403, 413] →
        run.1.submitted = []) := by
  have hFollows :=
    postMessages_follows (components relay) relay request
  intro run
  refine ⟨?_, ?_, ?_⟩
  · rw [hFollows.submitted]
    cases course (components relay) relay request <;>
      simp [Course.messages]
  · intro message hMessage
    rw [hFollows.submitted] at hMessage
    rcases course_submitted hMessage with
      ⟨input, hPrepare, hBuild⟩
    rcases passed_of_prepare hPrepare with
      ⟨policy, parsed, mailbox, subject, hPassed⟩
    exact
      ⟨policy, parsed, mailbox, hPassed.authorised hBuild⟩
  · intro hStatus
    have hLedger :
        run.1.record.statusCode = _ :=
      congrArg Ledger.statusCode hFollows.ledger
    rw [hFollows.status, hLedger] at hStatus
    rw [hFollows.submitted]
    exact Course.messages_eq_nil hStatus

end Pipeline

end MailgunRelay
