import MailgunRelay.Pipeline.Course

/-
  The decision as a function of verdicts.

  What the components of a request say is its verdicts, and
  what the request comes to is a function of them alone: the
  first fault decides.  The Rust route computes it.

  Key definitions include:
    * `MailgunRelay.Pipeline.Verdicts`
    * `MailgunRelay.Pipeline.Verdicts.told`
    * `MailgunRelay.Pipeline.Shows`

  Key theorems include:
    * `MailgunRelay.Pipeline.told_eq`
-/

------------------------------------------------------------
-- Verdicts
------------------------------------------------------------

namespace MailgunRelay

namespace Pipeline

/- What a reader of the form, or of its fields, says. -/
inductive FormVerdict where
  | accepted
  | malformed
  | tooLarge

inductive PathVerdict where
  | invalid
  | notAllowed
  | allowed

inductive SenderVerdict where
  | invalid
  | domainNotAllowed
  | addressNotAllowed
  | allowed

/- A message for a number of recipients, or none. -/
inductive BuildVerdict where
  | built (recipients : Nat)
  | refused
  | unexpected

/- A submission with a number of refused recipients. -/
inductive SubmitVerdict where
  | sent (refused : Nat)
  | temporary
  | permanent
  | unexpected

/-
  The verdicts of the components on a request, with the
  number of recipients it names, and the two settings the
  decision depends on.
-/
structure Verdicts where
  token : Bool
  form : FormVerdict
  fields : FormVerdict
  path : PathVerdict
  sender : SenderVerdict
  subject : Bool
  headers : Bool
  recipients : Nat
  build : BuildVerdict
  submit : SubmitVerdict
  maxRecipients : I64
  failOnPartialRefusal : Bool

/- What a request comes to. -/
structure Told where
  status : Nat
  result : Str
  recipientCount : Nat
  refusedCount : Nat
  hasMessageId : Bool
  submissions : Nat
  deriving DecidableEq

end Pipeline

end MailgunRelay

------------------------------------------------------------
-- The Decision
------------------------------------------------------------

namespace MailgunRelay

namespace Pipeline

/- Go on, or stop with an outcome. -/
def require
    (accepted : Bool)
    (outcome : Outcome) : Except Outcome Unit :=
  if accepted then .ok () else .error outcome

def FormVerdict.check : FormVerdict → Except Outcome Unit
| .accepted => .ok ()
| .malformed => .error .badRequest
| .tooLarge => .error .tooLarge

/- The path domain comes before the sender. -/
def policyCheck :
    PathVerdict → SenderVerdict → Except Outcome Unit
| .invalid, _ => .error .badRequest
| .notAllowed, _ => .error .policyError
| .allowed, .invalid => .error .badRequest
| .allowed, .domainNotAllowed => .error .policyError
| .allowed, .addressNotAllowed => .error .policyError
| .allowed, .allowed => .ok ()

def countCheck
    (recipients : Nat)
    (maxRecipients : I64) : Except Outcome Unit :=
  if recipients = 0 then
    .error .badRequest
  else if maxRecipients.val < (recipients : Int) then
    .error .tooLarge
  else
    .ok ()

/- The checks before the message construction, in order. -/
def Verdicts.check (v : Verdicts) : Except Outcome Unit := do
  require v.token .authError
  v.form.check
  v.fields.check
  policyCheck v.path v.sender
  require v.subject .badRequest
  require v.headers .badRequest
  countCheck v.recipients v.maxRecipients

/- No message is there when the decision is taken. -/
def Told.early (outcome : Outcome) : Told :=
  { status := outcome.failureStatus.getD 200
    result := outcome.text
    recipientCount := 0
    refusedCount := 0
    hasMessageId := false
    submissions := 0 }

/- A message went to the submitter. -/
def Told.late
    (recipients status : Nat)
    (outcome : Outcome)
    (refused : Nat) : Told :=
  { status := status
    result := outcome.text
    recipientCount := recipients
    refusedCount := refused
    hasMessageId := true
    submissions := 1 }

def SubmitVerdict.told
    (failOnPartialRefusal : Bool)
    (recipients : Nat) : SubmitVerdict → Told
| .sent 0 => .late recipients 200 .ok 0
| .sent (n + 1) =>
    .late recipients
      (if failOnPartialRefusal then 502 else 200)
      .partialRefusal (n + 1)
| .temporary => .late recipients 503 .smtpTemporary 0
| .permanent => .late recipients 502 .smtpPermanent 0
| .unexpected => .late recipients 500 .internalError 0

def BuildVerdict.told
    (failOnPartialRefusal : Bool)
    (submit : SubmitVerdict) : BuildVerdict → Told
| .refused => .early .badRequest
| .unexpected => .early .internalError
| .built recipients =>
    submit.told failOnPartialRefusal recipients

/- What a request with these verdicts comes to. -/
def Verdicts.told (v : Verdicts) : Told :=
  match v.check with
  | .error outcome => .early outcome
  | .ok () => v.build.told v.failOnPartialRefusal v.submit

end Pipeline

end MailgunRelay

------------------------------------------------------------
-- Verdicts Of A Policy
------------------------------------------------------------

namespace MailgunRelay

namespace Pipeline

/- The verdict on a path domain that may be invalid. -/
def ShowsPath
    (policy : TokenPolicy) :
    Option Str → PathVerdict → Prop
| none, v => v = .invalid
| some path, v =>
    (path ∉ policy.mailgunDomains ∧ v = .notAllowed) ∨
      (path ∈ policy.mailgunDomains ∧ v = .allowed)

/- A token is for the address. -/
def AllowsAddress
    (policy : TokenPolicy)
    (address : Str) : Prop :=
  ∀ allowed, policy.allowedFromAddresses = some allowed →
    address ∈ allowed

/- The verdict on a sender that may be invalid. -/
def ShowsSender
    (policy : TokenPolicy) :
    Option (Str × Str) → SenderVerdict → Prop
| none, v => v = .invalid
| some (address, domain), v =>
    (domain ∉ policy.allowedFromDomains ∧
        v = .domainNotAllowed) ∨
      (domain ∈ policy.allowedFromDomains ∧
        ((¬ AllowsAddress policy address ∧
            v = .addressNotAllowed) ∨
          (AllowsAddress policy address ∧ v = .allowed)))

end Pipeline

end MailgunRelay

------------------------------------------------------------
-- Verdicts Of The Rust Components
------------------------------------------------------------

namespace MailgunRelay

namespace Pipeline

open Form (Item)

/- A failure with one of the two outcomes of a form. -/
def ShowsForm
    {α : Type} :
    Except Failure α → FormVerdict → Prop
| .ok _, v => v = .accepted
| .error failure, v =>
    (failure.result = .badRequest ∧ v = .malformed) ∨
      (failure.result = .tooLarge ∧ v = .tooLarge)

def ShowsBuild :
    Except Mime.BuildError BuiltMessage →
      BuildVerdict → Prop
| .ok message, v => v = .built message.envelope.length
| .error .invalidMessage, v => v = .refused
| .error .panic, v => v = .unexpected

def ShowsSubmit : Submission → SubmitVerdict → Prop
| .ok refused, v => v = .sent refused.length
| .error .temporary, v => v = .temporary
| .error .permanent, v => v = .permanent
| .panic, v => v = .unexpected

/-
  The verdicts of the Rust components on a request.  A
  component is asked about the values that get to it.
-/
structure Shows
    (c : Components)
    (relay : Relay)
    (request : Request)
    (v : Verdicts) : Prop where
  maxRecipients :
    relay.settings.maxRecipients = v.maxRecipients
  failOnPartialRefusal :
    relay.settings.failOnPartialRefusal =
      v.failOnPartialRefusal
  token :
    (c.authenticate (request.header "authorization".toList)
      relay.tokens).isSome = v.token
  form : ShowsForm (c.readForm request) v.form
  fields : ∀ items,
    c.readForm request = .ok items →
      ShowsForm (c.parseForm items) v.fields
  path : ∀ policy,
    c.authenticate (request.header "authorization".toList)
        relay.tokens = some policy →
      ShowsPath policy
        (c.normalizeDomain request.domain).toOption v.path
  sender : ∀ policy items parsed,
    c.authenticate (request.header "authorization".toList)
        relay.tokens = some policy →
      c.readForm request = .ok items →
      c.parseForm items = .ok parsed →
      ShowsSender policy
        ((c.parseMailbox (parsed.from.headD [])).map fun m =>
          (m.policyAddress, m.domain)) v.sender
  subject : ∀ items parsed,
    c.readForm request = .ok items →
      c.parseForm items = .ok parsed →
      (c.validateSubject (parsed.subject.getD [])).isOk =
        v.subject
  headers : ∀ items parsed,
    c.readForm request = .ok items →
      c.parseForm items = .ok parsed →
      (c.validateCustomHeaders parsed.headers).isOk =
        v.headers
  recipients : ∀ items parsed,
    c.readForm request = .ok items →
      c.parseForm items = .ok parsed →
      parsed.to.length + parsed.cc.length +
        parsed.bcc.length = v.recipients
  build : ∀ input,
    prepare c relay request = .ok input →
      ShowsBuild (c.build input) v.build
  submit : ∀ input message,
    prepare c relay request = .ok input →
      c.build input = .ok message →
      ShowsSubmit (c.submit message) v.submit

/- What the Rust route tells. -/
def toldBy (run : World × Response) : Told :=
  { status := run.2.status
    result := run.1.record.result.text
    recipientCount := run.1.record.recipientCount
    refusedCount := run.1.record.refusedCount
    hasMessageId := run.1.record.messageId.isSome
    submissions := run.1.submitted.length }

/- A failure with an outcome. -/
def Has (failure : Failure) (outcome : Outcome) : Prop :=
  failure.result = outcome

end Pipeline

end MailgunRelay

------------------------------------------------------------
-- The Rust Decision
------------------------------------------------------------

namespace MailgunRelay

namespace Pipeline

/- Both go on, the left one with the value of `x`. -/
def Gives
    {ε α : Type}
    (x : Except ε α)
    (a : α)
    (_ : Unit) : Prop :=
  x = .ok a

/- A form component stops with the outcome of its verdict. -/
theorem form_alike
    {α : Type}
    {x : Except Failure α}
    {v : FormVerdict}
    (hShows : ShowsForm x v) :
    Lib.Alike Has (Gives x) x v.check := by
  cases x with
  | ok a =>
      cases hShows
      exact rfl
  | error failure =>
      rcases hShows with ⟨hResult, rfl⟩ | ⟨hResult, rfl⟩
      · exact hResult
      · exact hResult

/- A header check fails as a bad request. -/
theorem header_alike
    {α : Type}
    {x : Except HeaderError α}
    {accepted : Bool}
    (hShows : x.isOk = accepted) :
    Lib.Alike Has (fun _ _ => True)
      (x.mapError headerFailure)
      (require accepted .badRequest) := by
  subst hShows
  cases x with
  | ok a => exact trivial
  | error error => exact rfl

theorem token_alike
    {token : Option TokenPolicy}
    {accepted : Bool}
    (hShows : token.isSome = accepted) :
    Lib.Alike Has (fun policy _ => token = some policy)
      (orUnauthorized token)
      (require accepted .authError) := by
  subst hShows
  cases token with
  | none => exact rfl
  | some policy => exact rfl

/- The Rust policy check comes to the verdicts. -/
theorem policy_alike
    {c : Components}
    {policy : TokenPolicy}
    {domain «from» : Str}
    {path : PathVerdict}
    {sender : SenderVerdict}
    (hPath :
      ShowsPath policy (c.normalizeDomain domain).toOption
        path)
    (hSender :
      ShowsSender policy
        ((c.parseMailbox «from»).map fun m =>
          (m.policyAddress, m.domain)) sender) :
    Lib.Alike Has (fun _ _ => True)
      ((enforceWith c.normalizeDomain c.parseMailbox policy
        domain «from»).mapError policyFailure)
      (policyCheck path sender) := by
  unfold enforceWith
  cases hNormal : c.normalizeDomain domain with
  | error error =>
      rw [hNormal] at hPath
      cases hPath
      exact rfl
  | ok normal =>
      rw [hNormal] at hPath
      rcases hPath with ⟨hNot, rfl⟩ | ⟨hMember, rfl⟩
      · simp only [hNot, not_false_iff, if_true]
        exact rfl
      simp only [hMember, not_true, if_false]
      cases hFrom : c.parseMailbox «from» with
      | none =>
          rw [hFrom] at hSender
          cases hSender
          exact rfl
      | some m =>
          rw [hFrom] at hSender
          rcases hSender with
            ⟨hNot, rfl⟩ | ⟨hDomain, hAddress⟩
          · simp only [hNot, not_false_iff, if_true]
            exact rfl
          simp only [hDomain, not_true, if_false]
          unfold AllowsAddress at hAddress
          cases hAllowed : policy.allowedFromAddresses with
          | none =>
              simp only [hAllowed, reduceCtorEq, false_imp_iff,
                implies_true, not_true, false_and, true_and,
                false_or] at hAddress
              cases hAddress
              exact trivial
          | some allowed =>
              simp only [hAllowed, Option.some.injEq,
                forall_eq'] at hAddress
              rcases hAddress with
                ⟨hNot, rfl⟩ | ⟨hMember, rfl⟩
              · simp only [hNot, not_false_iff, if_true]
                exact rfl
              · simp only [hMember, not_true, if_false]
                exact trivial

theorem count_alike
    (settings : Settings)
    (parsed : ParsedForm)
    {recipients : Nat}
    (hCount :
      parsed.to.length + parsed.cc.length +
        parsed.bcc.length = recipients) :
    Lib.Alike Has (fun _ _ => True)
      (checkCount settings parsed)
      (countCheck recipients settings.maxRecipients) := by
  subst hCount
  unfold checkCount countCheck
  simp only [exceeds_iff]
  split
  · exact rfl
  · split
    · exact rfl
    · exact trivial

/- The checks of a request come to its verdicts. -/
theorem prepare_alike
    {c : Components}
    {relay : Relay}
    {request : Request}
    {v : Verdicts}
    (hShows : Shows c relay request v) :
    Lib.Alike Has (fun _ _ => True)
      (prepare c relay request) v.check := by
  unfold prepare Verdicts.check
  refine (token_alike hShows.token).bind ?_
  rintro policy _ hPolicy
  refine (form_alike hShows.form).bind ?_
  rintro items _ hItems
  refine (form_alike (hShows.fields items hItems)).bind ?_
  rintro parsed _ hParsed
  have hPath := hShows.path policy hPolicy
  have hSender :=
    hShows.sender policy items parsed hPolicy hItems hParsed
  refine (policy_alike hPath hSender).bind ?_
  rintro mailbox _ -
  refine
    (header_alike (hShows.subject items parsed hItems hParsed))
      |>.bind ?_
  rintro subject _ -
  refine
    (header_alike (hShows.headers items parsed hItems hParsed))
      |>.bind ?_
  rintro _ _ -
  have hCount :=
    count_alike relay.settings parsed
      (hShows.recipients items parsed hItems hParsed)
  rw [hShows.maxRecipients] at hCount
  exact hCount.map_left fun _ _ _ => trivial

/- What a course comes to. -/
def Course.told
    (failOnPartialRefusal : Bool)
    (course : Course) : Told :=
  let ledger := course.ledger failOnPartialRefusal
  { status := ledger.statusCode
    result := ledger.result.text
    recipientCount := ledger.recipientCount
    refusedCount := ledger.refusedCount
    hasMessageId := ledger.messageId.isSome
    submissions := course.messages.length }

/- A refused request is told its failure. -/
theorem Course.told_refused
    {failure : Failure}
    {outcome : Outcome}
    (failOnPartialRefusal : Bool)
    (hHas : Has failure outcome) :
    (Course.refused failure).told failOnPartialRefusal =
      .early outcome := by
  cases hHas
  simp [Course.told, Course.ledger, Told.early,
    failure.agrees, Course.messages]

/- A submitted message is told what the submitter said. -/
theorem Course.told_submitted
    {message : BuiltMessage}
    {submission : Submission}
    {submit : SubmitVerdict}
    (failOnPartialRefusal : Bool)
    (hShows : ShowsSubmit submission submit) :
    (Course.submitted message submission).told
        failOnPartialRefusal =
      submit.told failOnPartialRefusal
        message.envelope.length := by
  cases submission with
  | error error =>
      cases error with
      | temporary =>
          cases hShows
          rfl
      | permanent =>
          cases hShows
          rfl
  | panic =>
      cases hShows
      rfl
  | ok refused =>
      cases hShows
      cases refused <;> rfl

/- The course of a request comes to its verdicts. -/
theorem course_told
    {c : Components}
    {relay : Relay}
    {request : Request}
    {v : Verdicts}
    (hShows : Shows c relay request v) :
    (course c relay request).told v.failOnPartialRefusal =
      v.told := by
  have hChecks := prepare_alike hShows
  unfold course Verdicts.told
  cases hPrepare : prepare c relay request with
  | error failure =>
      rw [hPrepare] at hChecks
      cases hCheck : v.check with
      | ok _ => simp [hCheck, Lib.Alike] at hChecks
      | error outcome =>
          rw [hCheck] at hChecks
          exact Course.told_refused _ hChecks
  | ok input =>
      rw [hPrepare] at hChecks
      cases hCheck : v.check with
      | error outcome => simp [hCheck, Lib.Alike] at hChecks
      | ok _ =>
          have hBuild := hShows.build input hPrepare
          cases hBuilt : c.build input with
          | error error =>
              rw [hBuilt] at hBuild
              cases error with
              | invalidMessage =>
                  have hRefused :
                      Has (buildFailure .invalidMessage)
                        .badRequest := rfl
                  simp only [ShowsBuild] at hBuild
                  simp only [hBuilt, hBuild]
                  exact Course.told_refused _ hRefused
              | panic =>
                  have hPanicked :
                      Has (buildFailure .panic)
                        .internalError := rfl
                  simp only [ShowsBuild] at hBuild
                  simp only [hBuilt, hBuild]
                  exact Course.told_refused _ hPanicked
          | ok message =>
              rw [hBuilt] at hBuild
              simp only [ShowsBuild] at hBuild
              simp only [hBuilt, hBuild]
              exact
                Course.told_submitted _
                  (hShows.submit input message hPrepare
                    hBuilt)

variable [Unicode] [Idna]

/- The Rust route comes to the decision of the verdicts. -/
theorem told_eq
    {c : Components}
    {relay : Relay}
    {request : Request}
    {v : Verdicts}
    (hShows : Shows c relay request v) :
    toldBy (postMessages c relay request) = v.told := by
  have hFollows := postMessages_follows c relay request
  have hLedger := hFollows.ledger
  rw [hShows.failOnPartialRefusal] at hLedger
  rw [← course_told hShows]
  unfold toldBy Course.told
  rw [← hLedger, hFollows.status, hFollows.submitted]
  rfl

end Pipeline

end MailgunRelay
