import MailgunRelay.Pipeline.Verdicts
import MailgunRelay.Python.Routes

/-
  The two routes take the same decision: the Python route
  computes the decision of the verdicts as well.

  Key definitions include:
    * `MailgunRelay.Python.Shows`
    * `MailgunRelay.Python.prepare`

  Key theorems include:
    * `MailgunRelay.Python.told_eq`
    * `MailgunRelay.Pipeline.routes_agree`
-/

------------------------------------------------------------
-- Verdicts Of The Python Components
------------------------------------------------------------

namespace MailgunRelay

namespace Python

open Form (Item)
open Pipeline (Verdicts FormVerdict BuildVerdict SubmitVerdict
  ShowsPath ShowsSender)

variable {M α : Type}

/-
  A call that returns if it accepts, or else raises one of
  the classes.
-/
def ShowsCall
    (classes : List ExcClass) :
    Except Exc α → Bool → Prop
| .ok _, accepted => accepted = true
| .error exc, accepted =>
    exc.cls ∈ classes ∧ accepted = false

/- A call that raises nothing but the classes. -/
def OnlyRaises
    (classes : List ExcClass) :
    Except Exc α → Prop
| .ok _ => True
| .error exc => exc.cls ∈ classes

/- Whatever `request.form` raises is about the form. -/
def ShowsForm : Except Exc α → FormVerdict → Prop
| .ok _, v => v = .accepted
| .error exc, v =>
    ((exc.cls = .payloadTooLargeError ∨ exc.isLimit = true) ∧
        v = .tooLarge) ∨
      (exc.cls ≠ .payloadTooLargeError ∧
        exc.isLimit = false ∧ v = .malformed)

def ShowsFields : Except Exc α → FormVerdict → Prop
| .ok _, v => v = .accepted
| .error exc, v =>
    (exc.cls = .badRequestError ∧ v = .malformed) ∨
      (exc.cls = .payloadTooLargeError ∧ v = .tooLarge)

/- The classes of a refused header. -/
def headerClasses : List ExcClass :=
  [.headerInjectionError, .headerTooLongError,
    .dangerousHeaderError]

/- The classes of a refused message. -/
def messageClasses : List ExcClass :=
  .badRequestError :: .invalidAddressError :: headerClasses

/- The classes no handler names. -/
def unexpectedClasses : List ExcClass :=
  [.exception, .valueError, .httpException]

def ShowsBuild :
    Except Exc (M × Str × List Str) → BuildVerdict → Prop
| .ok (_, _, recipients), v => v = .built recipients.length
| .error exc, v =>
    (exc.cls ∈ messageClasses ∧ v = .refused) ∨
      (exc.cls ∈ unexpectedClasses ∧ v = .unexpected)

def ShowsSubmit :
    Except Exc (Option RefusedRecipients) →
      SubmitVerdict → Prop
| .ok refused, v => v = .sent (refused.getD []).length
| .error exc, v =>
    (exc.cls = .smtpSubmitError ∧
        ((exc.category = .temporary ∧ v = .temporary) ∨
          (exc.category ≠ .temporary ∧ v = .permanent))) ∨
      (exc.cls ∈ unexpectedClasses ∧ v = .unexpected)

/- The checks of the `try` body. -/
def prepare
    [Repr]
    (calls : Calls M)
    (state : AppState)
    (domain : Str)
    (authorization : Option Str) :
    Except Exc MessageInput := do
  let policy ← calls.authenticate authorization state.tokens
  let items ← calls.form.mapError formError
  let parsed ← calls.parseForm items
  enforcePolicy calls policy domain parsed.fromAddress
  let subject ← calls.validateSubject parsed.subject
  let customHeaders ←
    calls.validateCustomHeaders parsed.customHeaders
  checkCount state.settings parsed
  pure (payload state.settings parsed subject customHeaders)

/-
  The verdicts of the Python components on a request.  A
  component is asked about the values that get to it; the
  path domain is also normalised for the log.
-/
structure Shows
    [Repr]
    (calls : Calls M)
    (state : AppState)
    (domain : Str)
    (authorization : Option Str)
    (v : Verdicts) : Prop where
  maxRecipients :
    state.settings.maxRecipients = v.maxRecipients
  failOnPartialRefusal :
    state.settings.failOnPartialRefusal =
      v.failOnPartialRefusal
  token :
    ShowsCall [.authError]
      (calls.authenticate authorization state.tokens) v.token
  form : ShowsForm calls.form v.form
  fields : ∀ items,
    calls.form = .ok items →
      ShowsFields (calls.parseForm items) v.fields
  normalizes :
    OnlyRaises [.invalidAddressError]
      (calls.normalizeDomain domain)
  path : ∀ policy,
    calls.authenticate authorization state.tokens =
        .ok policy →
      ShowsPath policy (calls.normalizeDomain domain).toOption
        v.path
  sender : ∀ policy items parsed,
    calls.authenticate authorization state.tokens =
        .ok policy →
      calls.form = .ok items →
      calls.parseForm items = .ok parsed →
      OnlyRaises [.invalidAddressError]
          (calls.parseEmailStrict parsed.fromAddress) ∧
        ShowsSender policy
          (calls.parseEmailStrict parsed.fromAddress).toOption
          v.sender
  subject : ∀ items parsed,
    calls.form = .ok items →
      calls.parseForm items = .ok parsed →
      ShowsCall headerClasses
        (calls.validateSubject parsed.subject) v.subject
  headers : ∀ items parsed,
    calls.form = .ok items →
      calls.parseForm items = .ok parsed →
      ShowsCall headerClasses
        (calls.validateCustomHeaders parsed.customHeaders)
        v.headers
  recipients : ∀ items parsed,
    calls.form = .ok items →
      calls.parseForm items = .ok parsed →
      parsed.to.length + parsed.cc.length +
        parsed.bcc.length = v.recipients
  build : ∀ input,
    prepare calls state domain authorization = .ok input →
      ShowsBuild (calls.buildMessage input) v.build
  submit : ∀ input msg messageId recipients,
    prepare calls state domain authorization = .ok input →
      calls.buildMessage input =
        .ok (msg, messageId, recipients) →
      ShowsSubmit (calls.submit msg recipients) v.submit

/- What the Python route tells. -/
def toldBy
    (run : Vars M × RequestRecord × Response) :
    Pipeline.Told :=
  { status := run.2.2.status
    result := run.2.1.result
    recipientCount := run.2.1.recipientCount
    refusedCount := run.2.1.refusedCount
    hasMessageId := run.2.1.messageId.isSome
    submissions := run.1.submitted.length }

end Python

end MailgunRelay

------------------------------------------------------------
-- Handled Exceptions
------------------------------------------------------------

namespace MailgunRelay

namespace Python

open Pipeline (Outcome)

/- An exception is handled as an outcome. -/
def HandledAs (exc : Exc) (outcome : Outcome) : Prop :=
  (handle exc).result = outcome.text ∧
    some (handle exc).status = outcome.failureStatus

section Handling

variable {exc : Exc}

/- What an exception is an instance of, by its class. -/
theorem isInstance_of_cls
    {cls : ExcClass}
    (classes : List ExcClass)
    (hClass : exc.cls = cls) :
    exc.isInstance classes =
      classes.any fun c => cls.mro.contains c := by
  rw [← hClass]
  rfl

theorem handledAs_authError
    (hClass : exc.cls = .authError) :
    HandledAs exc .authError := by
  unfold HandledAs handle
  simp only [isInstance_of_cls _ hClass]
  rw [if_pos (by decide)]
  exact ⟨rfl, rfl⟩

/- `InvalidAddressError` comes before its base class. -/
theorem handledAs_invalidAddress
    (hClass : exc.cls = .invalidAddressError) :
    HandledAs exc .badRequest := by
  unfold HandledAs handle
  simp only [isInstance_of_cls _ hClass]
  rw [if_neg (by decide), if_pos (by decide)]
  exact ⟨rfl, rfl⟩

theorem handledAs_policyError
    (hClass : exc.cls = .policyError) :
    HandledAs exc .policyError := by
  unfold HandledAs handle
  simp only [isInstance_of_cls _ hClass]
  rw [if_neg (by decide), if_neg (by decide),
    if_pos (by decide)]
  exact ⟨rfl, rfl⟩

/- The classes of the fourth handler. -/
theorem handledAs_badRequest
    (hClass :
      exc.cls ∈ ExcClass.badRequestError :: headerClasses) :
    HandledAs exc .badRequest := by
  simp only [headerClasses, List.mem_cons, List.not_mem_nil,
    or_false] at hClass
  unfold HandledAs handle
  rcases hClass with hClass | hClass | hClass | hClass <;>
  · simp only [isInstance_of_cls _ hClass]
    rw [if_neg (by decide), if_neg (by decide),
      if_neg (by decide), if_pos (by decide)]
    exact ⟨rfl, rfl⟩

theorem handledAs_messageClasses
    (hClass : exc.cls ∈ messageClasses) :
    HandledAs exc .badRequest := by
  unfold messageClasses at hClass
  rcases List.mem_cons.mp hClass with hClass | hClass
  · exact handledAs_badRequest (hClass ▸ .head _)
  rcases List.mem_cons.mp hClass with hClass | hClass
  · exact handledAs_invalidAddress hClass
  · exact handledAs_badRequest (.tail _ hClass)

theorem handledAs_tooLarge
    (hClass : exc.cls = .payloadTooLargeError) :
    HandledAs exc .tooLarge := by
  unfold HandledAs handle
  simp only [isInstance_of_cls _ hClass]
  rw [if_neg (by decide), if_neg (by decide),
    if_neg (by decide), if_neg (by decide),
    if_pos (by decide)]
  exact ⟨rfl, rfl⟩

/- The handler of `SmtpSubmitError`. -/
theorem handle_smtpSubmitError
    (hClass : exc.cls = .smtpSubmitError) :
    HandledAs exc
      (if exc.category = .temporary then .smtpTemporary
        else .smtpPermanent) := by
  unfold HandledAs handle
  simp only [isInstance_of_cls _ hClass]
  rw [if_neg (by decide), if_neg (by decide),
    if_neg (by decide), if_neg (by decide),
    if_neg (by decide), if_pos (by decide)]
  split
  · exact ⟨rfl, rfl⟩
  · exact ⟨rfl, rfl⟩

/- No handler names the class. -/
theorem handledAs_internalError
    (hClass : exc.cls ∈ unexpectedClasses) :
    HandledAs exc .internalError := by
  simp only [unexpectedClasses, List.mem_cons,
    List.not_mem_nil, or_false] at hClass
  unfold HandledAs handle
  rcases hClass with hClass | hClass | hClass <;>
  · simp only [isInstance_of_cls _ hClass]
    rw [if_neg (by decide), if_neg (by decide),
      if_neg (by decide), if_neg (by decide),
      if_neg (by decide), if_neg (by decide),
      if_neg (by decide)]
    exact ⟨rfl, rfl⟩

end Handling

end Python

end MailgunRelay

------------------------------------------------------------
-- The Python Checks
------------------------------------------------------------

namespace MailgunRelay

namespace Python

open Pipeline (Outcome FormVerdict PathVerdict SenderVerdict
  ShowsPath ShowsSender AllowsAddress Gives require
  policyCheck countCheck)

variable {M α : Type}

/- A call stops with the outcome of its classes. -/
theorem call_alike
    {classes : List ExcClass}
    {x : Except Exc α}
    {accepted : Bool}
    {outcome : Outcome}
    (hClasses : ∀ exc : Exc, exc.cls ∈ classes →
      HandledAs exc outcome)
    (hShows : ShowsCall classes x accepted) :
    Lib.Alike HandledAs (Gives x) x
      (require accepted outcome) := by
  cases x with
  | ok a =>
      cases hShows
      exact rfl
  | error exc =>
      rcases hShows with ⟨hClass, rfl⟩
      exact hClasses exc hClass

/- The exceptions of `request.form` become two. -/
theorem form_alike
    {x : Except Exc α}
    {v : FormVerdict}
    (hShows : ShowsForm x v) :
    Lib.Alike HandledAs (fun a _ => x = .ok a)
      (x.mapError formError) v.check := by
  cases x with
  | ok a =>
      cases hShows
      exact rfl
  | error exc =>
      have hInstance :
          exc.isInstance [.payloadTooLargeError] = true ↔
            exc.cls = .payloadTooLargeError := by
        cases hClass : exc.cls <;>
          simp [Exc.isInstance, hClass, ExcClass.mro,
            ExcClass.base]
      rcases hShows with
        ⟨hLimit, rfl⟩ | ⟨hClass, hLimit, rfl⟩
      · show HandledAs (formError exc) .tooLarge
        unfold formError
        by_cases hClass : exc.cls = .payloadTooLargeError
        · rw [if_pos (hInstance.mpr hClass)]
          exact handledAs_tooLarge hClass
        · rw [if_neg (mt hInstance.mp hClass),
            if_pos (hLimit.resolve_left hClass)]
          exact handledAs_tooLarge rfl
      · show HandledAs (formError exc) .badRequest
        unfold formError
        rw [if_neg (mt hInstance.mp hClass),
          if_neg (by simp [hLimit])]
        exact handledAs_badRequest (.head _)

theorem fields_alike
    {x : Except Exc α}
    {v : FormVerdict}
    (hShows : ShowsFields x v) :
    Lib.Alike HandledAs (Gives x) x v.check := by
  cases x with
  | ok a =>
      cases hShows
      exact rfl
  | error exc =>
      rcases hShows with ⟨hClass, rfl⟩ | ⟨hClass, rfl⟩
      · exact handledAs_badRequest (hClass ▸ .head _)
      · exact handledAs_tooLarge hClass

/- The Python policy check comes to the verdicts. -/
theorem policy_alike
    [Repr]
    {calls : Calls M}
    {policy : TokenPolicy}
    {domain fromAddress : Str}
    {path : PathVerdict}
    {sender : SenderVerdict}
    (hNormalizes :
      OnlyRaises [.invalidAddressError]
        (calls.normalizeDomain domain))
    (hPath :
      ShowsPath policy
        (calls.normalizeDomain domain).toOption path)
    (hParses :
      OnlyRaises [.invalidAddressError]
        (calls.parseEmailStrict fromAddress))
    (hSender :
      ShowsSender policy
        (calls.parseEmailStrict fromAddress).toOption
        sender) :
    Lib.Alike HandledAs (fun _ _ => True)
      (enforcePolicy calls policy domain fromAddress)
      (policyCheck path sender) := by
  unfold enforcePolicy
  cases hNormal : calls.normalizeDomain domain with
  | error exc =>
      rw [hNormal] at hPath hNormalizes
      cases hPath
      exact
        handledAs_invalidAddress
          (List.mem_singleton.mp hNormalizes)
  | ok normal =>
      rw [hNormal] at hPath
      simp only [Lib.ok_bind]
      rcases hPath with ⟨hNot, rfl⟩ | ⟨hMember, rfl⟩
      · rw [if_pos hNot]
        exact handledAs_policyError rfl
      rw [if_neg (not_not.mpr hMember)]
      cases hFrom : calls.parseEmailStrict fromAddress with
      | error exc =>
          rw [hFrom] at hSender hParses
          cases hSender
          exact
            handledAs_invalidAddress
              (List.mem_singleton.mp hParses)
      | ok pair =>
          rcases pair with ⟨address, fromDomain⟩
          rw [hFrom] at hSender
          simp only [Lib.ok_bind]
          rcases hSender with
            ⟨hNot, rfl⟩ | ⟨hDomain, hAddress⟩
          · rw [if_pos hNot]
            exact handledAs_policyError rfl
          rw [if_neg (not_not.mpr hDomain)]
          unfold AllowsAddress at hAddress
          cases hAllowed : policy.allowedFromAddresses with
          | none =>
              simp only [hAllowed, reduceCtorEq, false_imp_iff,
                implies_true, not_true, false_and, true_and,
                false_or] at hAddress
              cases hAddress
              exact trivial
          | some allowed =>
              simp only [hAllowed, Option.some.injEq,
                forall_eq'] at hAddress
              rcases hAddress with
                ⟨hNot, rfl⟩ | ⟨hMember, rfl⟩
              · simp only [hNot, not_false_iff, if_true]
                exact handledAs_policyError rfl
              · simp only [hMember, not_true, if_false]
                exact trivial

theorem count_alike
    (settings : Settings)
    (parsed : ParsedForm)
    {recipients : Nat}
    (hCount :
      parsed.to.length + parsed.cc.length +
        parsed.bcc.length = recipients) :
    Lib.Alike HandledAs (fun _ _ => True)
      (checkCount settings parsed)
      (countCheck recipients settings.maxRecipients) := by
  subst hCount
  unfold checkCount countCheck
  dsimp only
  split
  · exact handledAs_badRequest (.head _)
  · split
    · exact handledAs_tooLarge rfl
    · exact trivial

variable [Repr]

/- The checks of a request come to its verdicts. -/
theorem prepare_alike
    {calls : Calls M}
    {state : AppState}
    {domain : Str}
    {authorization : Option Str}
    {v : Pipeline.Verdicts}
    (hShows : Shows calls state domain authorization v) :
    Lib.Alike HandledAs (fun _ _ => True)
      (prepare calls state domain authorization) v.check := by
  unfold prepare Pipeline.Verdicts.check
  refine
    (call_alike
      (fun exc hClass =>
        handledAs_authError (List.mem_singleton.mp hClass))
      hShows.token).bind ?_
  rintro policy _ hPolicy
  refine (form_alike hShows.form).bind ?_
  rintro items _ hItems
  refine (fields_alike (hShows.fields items hItems)).bind ?_
  rintro parsed _ hParsed
  have hSender :=
    hShows.sender policy items parsed hPolicy hItems hParsed
  refine
    (policy_alike hShows.normalizes
      (hShows.path policy hPolicy) hSender.1 hSender.2).bind ?_
  rintro _ _ -
  have hHeader : ∀ exc : Exc, exc.cls ∈ headerClasses →
      HandledAs exc .badRequest :=
    fun _ hClass => handledAs_badRequest (.tail _ hClass)
  refine
    (call_alike hHeader
      (hShows.subject items parsed hItems hParsed)).bind ?_
  rintro subject _ -
  refine
    (call_alike hHeader
      (hShows.headers items parsed hItems hParsed)).bind ?_
  rintro customHeaders _ -
  have hCount :=
    count_alike state.settings parsed
      (hShows.recipients items parsed hItems hParsed)
  rw [hShows.maxRecipients] at hCount
  exact hCount.map_left fun _ _ _ => trivial

end Python

end MailgunRelay

------------------------------------------------------------
-- The Python Decision
------------------------------------------------------------

namespace MailgunRelay

namespace Python

open Pipeline (Outcome Told BuildVerdict SubmitVerdict)

variable {M : Type}

/- What is told stays the same, nothing is submitted. -/
structure Quiet (v v' : Vars M) : Prop where
  recipientCount : v'.recipientCount = v.recipientCount
  refusedCount : v'.refusedCount = v.refusedCount
  messageId : v'.messageId = v.messageId
  result : v'.result = v.result
  statusCode : v'.statusCode = v.statusCode
  submitted : v'.submitted = v.submitted

theorem Quiet.refl
    (v : Vars M) :
    Quiet v v :=
  ⟨rfl, rfl, rfl, rfl, rfl, rfl⟩

theorem Quiet.trans
    {v v' v'' : Vars M}
    (hFirst : Quiet v v')
    (hSecond : Quiet v' v'') :
    Quiet v v'' :=
  { recipientCount :=
      hSecond.recipientCount.trans hFirst.recipientCount
    refusedCount :=
      hSecond.refusedCount.trans hFirst.refusedCount
    messageId := hSecond.messageId.trans hFirst.messageId
    result := hSecond.result.trans hFirst.result
    statusCode := hSecond.statusCode.trans hFirst.statusCode
    submitted := hSecond.submitted.trans hFirst.submitted }

/- A quiet route up to a check. -/
abbrev Reaches
    {α β : Type} :
    Route M β → Except Exc α → (α → Route M β) →
      Vars M → Prop :=
  Lib.Reaches Quiet id

section Reaching

variable {α β γ : Type}
variable {result : Except Exc α}
variable {next : α → Route M β}
variable {v : Vars M}

theorem Reaches.check
    {checked : Except Exc γ}
    {m : γ → Route M β}
    {rest : γ → Except Exc α}
    (hRest : ∀ a, checked = .ok a →
      Reaches (m a) (rest a) next v) :
    Reaches (Lib.liftExcept checked >>= m) (checked >>= rest)
      next v :=
  Lib.Reaches.check .refl (fun _ => rfl) (fun _ => rfl) hRest

theorem Reaches.modify
    {f : Vars M → Vars M}
    {m : Route M β}
    (hQuiet : ∀ v, Quiet v (f v))
    (hRest : ∀ v', Reaches m result next v') :
    Reaches (modify f >>= fun _ => m) result next v :=
  Lib.Reaches.modify .trans (hQuiet v) (hRest _)

end Reaching

variable [Repr]

/- The `try` body stops at a check or gets to deliver. -/
theorem tryBody_reaches
    (calls : Calls M)
    (state : AppState)
    (domain : Str)
    (authorization : Option Str)
    (v : Vars M) :
    Reaches (tryBody calls state domain authorization)
      (prepare calls state domain authorization)
      (deliver calls state.settings) v := by
  unfold tryBody prepare
  refine Reaches.check fun policy _ => ?_
  refine Reaches.modify
    (fun _ => ⟨rfl, rfl, rfl, rfl, rfl, rfl⟩) fun v => ?_
  refine Reaches.check fun items _ => ?_
  refine Reaches.check fun parsed _ => ?_
  refine Reaches.modify
    (fun _ => ⟨rfl, rfl, rfl, rfl, rfl, rfl⟩) fun v => ?_
  refine Reaches.check fun _ _ => ?_
  refine Reaches.check fun subject _ => ?_
  refine Reaches.check fun customHeaders _ => ?_
  refine Reaches.check fun _ _ => ?_
  exact Lib.Reaches.here .refl _

/- What is told after the `try` body. -/
def toldAfter
    (run : EStateM.Result Exc (Vars M) Response) : Told :=
  let v := (afterTry run).1
  { status := (afterTry run).2.status
    result := v.result
    recipientCount := v.recipientCount
    refusedCount := v.refusedCount
    hasMessageId := v.messageId.isSome
    submissions := v.submitted.length }

omit [Repr] in
/- An exception before a message is there. -/
theorem toldAfter_early
    {exc : Exc}
    {outcome : Outcome}
    {v : Vars M}
    (hQuiet : Quiet .initial v)
    (hHandled : HandledAs exc outcome) :
    toldAfter (.error exc v) = .early outcome := by
  rcases hQuiet with ⟨hCount, hRefused, hId, -, -, hSubmitted⟩
  rcases hHandled with ⟨hResult, hStatus⟩
  simp [toldAfter, afterTry, errResponse, Told.early, hCount,
    hRefused, hId, hSubmitted, hResult, ← hStatus,
    Vars.initial]

/- The variables when a message goes to the submitter. -/
def Vars.sending
    (v : Vars M)
    (msg : M)
    (messageId : Str)
    (recipients : List Str) : Vars M :=
  { v with
    messageId := some messageId
    recipientCount := recipients.length
    submitted := v.submitted ++ [(msg, recipients)] }

omit [Repr] in
/- An exception of the submitter. -/
theorem toldAfter_late
    {exc : Exc}
    {outcome : Outcome}
    {status : Nat}
    {v : Vars M}
    (msg : M)
    (messageId : Str)
    (recipients : List Str)
    (hQuiet : Quiet .initial v)
    (hStatus : outcome.failureStatus = some status)
    (hHandled : HandledAs exc outcome) :
    toldAfter
        (.error exc (v.sending msg messageId recipients)) =
      .late recipients.length status outcome 0 := by
  rcases hQuiet with ⟨-, hRefused, -, -, -, hSubmitted⟩
  rcases hHandled with ⟨hResult, hHandledStatus⟩
  rw [hStatus, Option.some.injEq] at hHandledStatus
  simp [toldAfter, afterTry, errResponse, Told.late,
    Vars.sending, hRefused, hSubmitted, hResult,
    hHandledStatus, Vars.initial]

omit [Repr] in
/- A submission that returned. -/
theorem toldAfter_answer
    {settings : Settings}
    {v : Vars M}
    (msg : M)
    (messageId : Str)
    (recipients : List Str)
    (refused : Option RefusedRecipients)
    (hQuiet : Quiet .initial v) :
    toldAfter
        (answer settings messageId recipients.length refused
          (v.sending msg messageId recipients)) =
      (SubmitVerdict.sent (refused.getD []).length).told
        settings.failOnPartialRefusal recipients.length := by
  rcases hQuiet with ⟨-, hRefused, -, hResult, -, hSubmitted⟩
  rcases v with
    ⟨tokenLabel, fromForLog, recipientCount, refusedCount,
      oldId, result, errorClass, statusCode, warned, submitted⟩
  simp only [Vars.initial] at hRefused hResult hSubmitted
  subst hRefused hSubmitted
  rcases refused with _ | _ | ⟨entry, rest⟩
  · exact congrArg (Told.mk 200 · recipients.length 0 true 1)
      hResult
  · exact congrArg (Told.mk 200 · recipients.length 0 true 1)
      hResult
  · unfold answer
    cases hFail : settings.failOnPartialRefusal with
    | true => rfl
    | false => rfl

omit [Repr] in
/- An exception of the submitter is told its verdict. -/
theorem toldAfter_submitError
    {exc : Exc}
    {submit : SubmitVerdict}
    {v : Vars M}
    (failOnPartialRefusal : Bool)
    (msg : M)
    (messageId : Str)
    (recipients : List Str)
    (hQuiet : Quiet .initial v)
    (hShows : ShowsSubmit (.error exc) submit) :
    toldAfter
        (.error exc (v.sending msg messageId recipients)) =
      submit.told failOnPartialRefusal recipients.length := by
  rcases hShows with
    ⟨hClass, ⟨hCategory, rfl⟩ | ⟨hCategory, rfl⟩⟩ |
      ⟨hClass, rfl⟩
  · have hHandled := handle_smtpSubmitError hClass
    rw [if_pos hCategory] at hHandled
    exact
      toldAfter_late msg messageId recipients hQuiet rfl
        hHandled
  · have hHandled := handle_smtpSubmitError hClass
    rw [if_neg hCategory] at hHandled
    exact
      toldAfter_late msg messageId recipients hQuiet rfl
        hHandled
  · exact
      toldAfter_late msg messageId recipients hQuiet rfl
        (handledAs_internalError hClass)

omit [Repr] in
/- From the message construction on. -/
theorem toldAfter_deliver
    {calls : Calls M}
    {input : MessageInput}
    {build : BuildVerdict}
    {submit : SubmitVerdict}
    {v : Vars M}
    (settings : Settings)
    (hQuiet : Quiet .initial v)
    (hBuild : ShowsBuild (calls.buildMessage input) build)
    (hSubmit : ∀ msg messageId recipients,
      calls.buildMessage input =
          .ok (msg, messageId, recipients) →
        ShowsSubmit (calls.submit msg recipients) submit) :
    toldAfter (deliver calls settings input v) =
      build.told settings.failOnPartialRefusal submit := by
  unfold deliver
  cases hBuilt : calls.buildMessage input with
  | error exc =>
      rw [hBuilt] at hBuild
      rcases hBuild with ⟨hClass, rfl⟩ | ⟨hClass, rfl⟩
      · exact
          toldAfter_early hQuiet
            (handledAs_messageClasses hClass)
      · exact
          toldAfter_early hQuiet
            (handledAs_internalError hClass)
  | ok triple =>
      rcases triple with ⟨msg, messageId, recipients⟩
      have hShows := hSubmit msg messageId recipients hBuilt
      rw [hBuilt] at hBuild
      cases hBuild
      show
        toldAfter
            ((Lib.liftExcept (calls.submit msg recipients) >>=
              fun refused =>
                answer settings messageId recipients.length
                  refused)
              (v.sending msg messageId recipients)) =
          submit.told settings.failOnPartialRefusal
            recipients.length
      cases hSent : calls.submit msg recipients with
      | ok refused =>
          rw [hSent] at hShows
          cases hShows
          exact
            toldAfter_answer msg messageId recipients refused
              hQuiet
      | error exc =>
          rw [hSent] at hShows
          exact
            toldAfter_submitError
              settings.failOnPartialRefusal msg messageId
              recipients hQuiet hShows

/- The Python route comes to the decision of the verdicts. -/
theorem told_eq
    {calls : Calls M}
    {state : AppState}
    {domain : Str}
    {authorization : Option Str}
    {v : Pipeline.Verdicts}
    (hShows : Shows calls state domain authorization v) :
    (postMessages calls state domain authorization).map
        toldBy =
      .ok v.told := by
  have hLog :
      ∃ pathDomain,
        pathDomainLog calls domain = .ok pathDomain := by
    have hNormalizes := hShows.normalizes
    unfold pathDomainLog
    cases hNormal : calls.normalizeDomain domain with
    | ok normal => exact ⟨normal, rfl⟩
    | error exc =>
        rw [hNormal] at hNormalizes
        have hClass := List.mem_singleton.mp hNormalizes
        exact ⟨domain, if_pos (isInstance_of_cls _ hClass)⟩
  rcases hLog with ⟨pathDomain, hLog⟩
  unfold postMessages
  rw [hLog, Lib.ok_bind]
  show
    Except.ok
        (toldAfter
          (tryBody calls state domain authorization
            .initial)) =
      Except.ok v.told
  congr 1
  rcases
    tryBody_reaches calls state domain authorization .initial with
    ⟨v', hQuiet, hRun⟩
  have hChecks := prepare_alike hShows
  rw [hRun]
  unfold Pipeline.Verdicts.told
  cases hPrepare :
      prepare calls state domain authorization with
  | error exc =>
      rw [hPrepare] at hChecks
      cases hCheck : v.check with
      | ok _ => simp [hCheck, Lib.Alike] at hChecks
      | error outcome =>
          rw [hCheck] at hChecks
          exact toldAfter_early hQuiet hChecks
  | ok input =>
      rw [hPrepare] at hChecks
      cases hCheck : v.check with
      | error outcome => simp [hCheck, Lib.Alike] at hChecks
      | ok _ =>
          have hDeliver :=
            toldAfter_deliver state.settings hQuiet
              (hShows.build input hPrepare)
              (fun msg messageId recipients =>
                hShows.submit input msg messageId recipients
                  hPrepare)
          rw [hShows.failOnPartialRefusal] at hDeliver
          exact hDeliver

end Python

end MailgunRelay

------------------------------------------------------------
-- Every Assignment Occurs
------------------------------------------------------------

namespace MailgunRelay

namespace Pipeline

namespace Constant

/- A token for the verdicts on the policy. -/
def token (v : Verdicts) : TokenPolicy :=
  { label := []
    tokenSha256 := []
    mailgunDomains :=
      match v.path with
      | .allowed => {[]}
      | _ => ∅
    allowedFromDomains :=
      match v.sender with
      | .domainNotAllowed => ∅
      | _ => {[]}
    allowedFromAddresses :=
      match v.sender with
      | .addressNotAllowed => some ∅
      | _ => none }

def settings (v : Verdicts) : Settings :=
  { publicHost := []
    failOnPartialRefusal := v.failOnPartialRefusal
    maxBodyBytes := v.maxRecipients
    maxAttachments := v.maxRecipients
    maxAttachmentBytes := v.maxRecipients
    maxRecipients := v.maxRecipients
    maxHeaderValueLength := v.maxRecipients }

def formResult
    {α : Type}
    (a : α) : FormVerdict → Except Failure α
| .accepted => .ok a
| .malformed => .error (malformed [])
| .tooLarge => .error (.tooLarge [])

/- Rust components that give these verdicts. -/
def components (v : Verdicts) : Components :=
  { authenticate := fun _ _ =>
      if v.token then some (token v) else none
    readForm := fun _ => formResult [] v.form
    parseForm := fun _ =>
      formResult
        { ParsedForm.empty with
          «to» := List.replicate v.recipients [] }
        v.fields
    normalizeDomain := fun _ =>
      match v.path with
      | .invalid => .error []
      | _ => .ok []
    parseMailbox := fun _ =>
      match v.sender with
      | .invalid => none
      | _ =>
          some
            { displayName := []
              «local» := []
              domain := [] }
    validateSubject := fun subject =>
      if v.subject then .ok subject else .error .injection
    validateCustomHeaders := fun _ =>
      if v.headers then .ok () else .error .injection
    build := fun _ =>
      match v.build with
      | .built n =>
          .ok
            { messageId := []
              envelope := List.replicate n []
              formatted := [] }
      | .refused => .error .invalidMessage
      | .unexpected => .error .panic
    submit := fun _ =>
      match v.submit with
      | .sent n =>
          .ok
            (List.replicate n { address := [], code := none })
      | .temporary => .error .temporary
      | .permanent => .error .permanent
      | .unexpected => .panic }

def relay (v : Verdicts) : Relay :=
  { settings := settings v
    tokens := []
    logger := { threshold := .info }
    submit := (components v).submit
    requestId := []
    durationMs := 0
    hex := none
    date := [] }

def request : Request :=
  { domain := []
    headers := []
    body := [] }

theorem formResult_shows
    {α : Type}
    (a : α)
    (v : FormVerdict) :
    ShowsForm (formResult a v) v := by
  cases v with
  | accepted => exact rfl
  | malformed => exact .inl ⟨rfl, rfl⟩
  | tooLarge => exact .inr ⟨rfl, rfl⟩

/- Every assignment of verdicts is shown. -/
theorem components_show
    (v : Verdicts) :
    Shows (components v) (relay v) request v := by
  have hParsed : ∀ items parsed,
      (components v).parseForm items = .ok parsed →
        parsed =
          { ParsedForm.empty with
            «to» := List.replicate v.recipients [] } := by
    intro items parsed hOk
    simp only [components] at hOk
    cases hFields : v.fields <;>
      simp_all [formResult]
  have hToken : ∀ policy header tokens,
      (components v).authenticate header tokens =
          some policy →
        policy = token v := by
    intro policy header tokens hSome
    simp only [components, Option.ite_none_right_eq_some,
      Option.some.injEq] at hSome
    exact hSome.2.symm
  constructor
  · rfl
  · rfl
  · cases hToken : v.token <;> simp [components, hToken]
  · exact formResult_shows _ _
  · intro items _
    exact formResult_shows _ _
  · intro policy hPolicy
    rw [hToken policy _ _ hPolicy]
    simp only [components]
    cases hPath : v.path with
    | invalid => exact rfl
    | notAllowed =>
        exact .inl ⟨by simp [token, hPath], rfl⟩
    | allowed => exact .inr ⟨by simp [token, hPath], rfl⟩
  · intro policy items parsed hPolicy _ _
    rw [hToken policy _ _ hPolicy]
    simp only [components]
    cases hSender : v.sender with
    | invalid => exact rfl
    | domainNotAllowed =>
        exact .inl ⟨by simp [token, hSender], rfl⟩
    | addressNotAllowed =>
        refine .inr ⟨by simp [token, hSender], .inl ⟨?_, rfl⟩⟩
        simp [AllowsAddress, token, hSender]
    | allowed =>
        refine .inr ⟨by simp [token, hSender], .inr ⟨?_, rfl⟩⟩
        simp [AllowsAddress, token, hSender]
  · intro items parsed _ _
    cases hSubject : v.subject <;>
      simp [components, hSubject, Except.isOk, Except.toBool]
  · intro items parsed _ _
    cases hHeaders : v.headers <;>
      simp [components, hHeaders, Except.isOk, Except.toBool]
  · intro items parsed _ hOk
    rw [hParsed items parsed hOk]
    simp [ParsedForm.empty]
  · intro input _
    simp only [components]
    cases hBuild : v.build with
    | built n => simp [ShowsBuild]
    | refused => exact rfl
    | unexpected => exact rfl
  · intro input message _ _
    simp only [components]
    cases hSubmit : v.submit with
    | sent n => simp [ShowsSubmit]
    | temporary => exact rfl
    | permanent => exact rfl
    | unexpected => exact rfl

end Constant

end Pipeline

namespace Python

namespace Constant

open Form (Item)
open Pipeline (Verdicts FormVerdict)

def exc (cls : ExcClass) : Exc :=
  Exc.plain cls [] []

/- Return a value, or raise an exception of a class. -/
def orRaise
    {α : Type}
    (accepted : Bool)
    (cls : ExcClass)
    (a : α) : Except Exc α :=
  if accepted then .ok a else .error (exc cls)

def formResult
    {α : Type}
    (a : α) : FormVerdict → Except Exc α
| .accepted => .ok a
| .malformed => .error (exc .badRequestError)
| .tooLarge => .error (exc .payloadTooLargeError)

def parsedForm (v : Verdicts) : ParsedForm :=
  { fromAddress := []
    «to» := List.replicate v.recipients []
    cc := []
    bcc := []
    subject := []
    text := none
    html := none
    ampHtml := none
    customHeaders := []
    attachments := []
    inline := [] }

/- Python components that give these verdicts. -/
def calls (v : Verdicts) : Calls Unit :=
  { normalizeDomain := fun _ =>
      match v.path with
      | .invalid => .error (exc .invalidAddressError)
      | _ => .ok []
    parseEmailStrict := fun _ =>
      match v.sender with
      | .invalid => .error (exc .invalidAddressError)
      | _ => .ok ([], [])
    authenticate := fun _ _ =>
      orRaise v.token .authError (Pipeline.Constant.token v)
    form := formResult [] v.form
    parseForm := fun _ => formResult (parsedForm v) v.fields
    validateSubject := fun subject =>
      orRaise v.subject .headerInjectionError subject
    validateCustomHeaders := fun headers =>
      orRaise v.headers .dangerousHeaderError headers
    buildMessage := fun _ =>
      match v.build with
      | .built n => .ok ((), [], List.replicate n [])
      | .refused => .error (exc .headerInjectionError)
      | .unexpected => .error (exc .exception)
    submit := fun _ _ =>
      match v.submit with
      | .sent n => .ok (some (List.replicate n ([], none)))
      | .temporary =>
          .error
            { exc .smtpSubmitError with
              category := .temporary }
      | .permanent => .error (exc .smtpSubmitError)
      | .unexpected => .error (exc .exception) }

def state (v : Verdicts) : AppState :=
  { settings := Pipeline.Constant.settings v
    tokens := [] }

theorem orRaise_shows
    {α : Type}
    {classes : List ExcClass}
    {cls : ExcClass}
    (accepted : Bool)
    (a : α)
    (hClass : cls ∈ classes) :
    ShowsCall classes (orRaise accepted cls a) accepted := by
  cases accepted with
  | true => exact rfl
  | false => exact ⟨hClass, rfl⟩

theorem orRaise_eq_ok
    {α : Type}
    {accepted : Bool}
    {cls : ExcClass}
    {a b : α}
    (hOk : orRaise accepted cls a = .ok b) :
    b = a := by
  cases accepted with
  | true =>
      cases hOk
      rfl
  | false => cases hOk

/- A form failure of another class is no limit. -/
theorem isLimit_exc
    (cls : ExcClass) :
    (exc cls).isLimit = false := by
  show
    multipartLimitMarkers.any
        (fun marker => (Lib.Text.search marker []).isSome) =
      false
  decide +kernel

variable [Repr]

/- Every assignment of verdicts is shown. -/
theorem calls_show
    (v : Verdicts) :
    Shows (calls v) (state v) [] none v := by
  have hParsed : ∀ items parsed,
      (calls v).parseForm items = .ok parsed →
        parsed = parsedForm v := by
    intro items parsed hOk
    simp only [calls] at hOk
    cases hFields : v.fields <;>
      simp_all [formResult]
  constructor
  · rfl
  · rfl
  · exact orRaise_shows _ _ (List.mem_singleton.mpr rfl)
  · simp only [calls]
    cases v.form with
    | accepted => exact rfl
    | malformed =>
        refine .inr ⟨?_, isLimit_exc _, rfl⟩
        exact (nomatch ·)
    | tooLarge => exact .inl ⟨.inl rfl, rfl⟩
  · intro items _
    simp only [calls]
    cases v.fields with
    | accepted => exact rfl
    | malformed => exact .inl ⟨rfl, rfl⟩
    | tooLarge => exact .inr ⟨rfl, rfl⟩
  · simp only [calls]
    cases v.path with
    | invalid => exact List.mem_singleton.mpr rfl
    | notAllowed => exact trivial
    | allowed => exact trivial
  · intro policy hPolicy
    rw [orRaise_eq_ok hPolicy]
    simp only [calls]
    cases hPath : v.path with
    | invalid => exact rfl
    | notAllowed =>
        refine .inl ⟨?_, rfl⟩
        simp [Pipeline.Constant.token, hPath]
    | allowed =>
        refine .inr ⟨?_, rfl⟩
        simp [Pipeline.Constant.token, hPath]
  · intro policy items parsed hPolicy _ _
    rw [orRaise_eq_ok hPolicy]
    simp only [calls]
    cases hSender : v.sender with
    | invalid =>
        exact ⟨List.mem_singleton.mpr rfl, rfl⟩
    | domainNotAllowed =>
        refine ⟨trivial, .inl ⟨?_, rfl⟩⟩
        simp [Pipeline.Constant.token, hSender]
    | addressNotAllowed =>
        refine ⟨trivial, .inr ⟨?_, .inl ⟨?_, rfl⟩⟩⟩
        · simp [Pipeline.Constant.token, hSender]
        · simp [Pipeline.AllowsAddress,
            Pipeline.Constant.token, hSender]
    | allowed =>
        refine ⟨trivial, .inr ⟨?_, .inr ⟨?_, rfl⟩⟩⟩
        · simp [Pipeline.Constant.token, hSender]
        · simp [Pipeline.AllowsAddress,
            Pipeline.Constant.token, hSender]
  · intro items parsed _ _
    exact orRaise_shows _ _ (by simp [headerClasses])
  · intro items parsed _ _
    exact orRaise_shows _ _ (by simp [headerClasses])
  · intro items parsed _ hOk
    rw [hParsed items parsed hOk]
    simp [parsedForm]
  · intro input _
    simp only [calls]
    cases hBuild : v.build with
    | built n => simp [ShowsBuild]
    | refused =>
        refine .inl ⟨?_, rfl⟩
        simp [exc, Exc.plain, messageClasses, headerClasses]
    | unexpected =>
        refine .inr ⟨?_, rfl⟩
        simp [exc, Exc.plain, unexpectedClasses]
  · intro input msg messageId recipients _ _
    simp only [calls]
    cases hSubmit : v.submit with
    | sent n => simp [ShowsSubmit]
    | temporary => exact .inl ⟨rfl, .inl ⟨rfl, rfl⟩⟩
    | permanent =>
        exact .inl ⟨rfl, .inr ⟨(nomatch ·), rfl⟩⟩
    | unexpected =>
        refine .inr ⟨?_, rfl⟩
        simp [exc, Exc.plain, unexpectedClasses]

end Constant

end Python

end MailgunRelay

------------------------------------------------------------
-- The Two Routes
------------------------------------------------------------

namespace MailgunRelay

namespace Pipeline

variable [Unicode] [Idna] [Python.Repr]

/-
  Components with the same verdicts make both routes tell
  the same.
-/
theorem routes_agree
    {M : Type}
    {c : Components}
    {relay : Relay}
    {request : Request}
    {calls : Python.Calls M}
    {state : Python.AppState}
    {domain : Str}
    {authorization : Option Str}
    (v : Verdicts)
    (hRust : Shows c relay request v)
    (hPython :
      Python.Shows calls state domain authorization v) :
    (Python.postMessages calls state domain
        authorization).map Python.toldBy =
      .ok (toldBy (postMessages c relay request)) := by
  rw [Python.told_eq hPython, told_eq hRust]

/- One of two recipients is refused. -/
def Constant.partlyRefused : Verdicts :=
  { token := true
    form := .accepted
    fields := .accepted
    path := .allowed
    sender := .allowed
    subject := true
    headers := true
    recipients := 2
    build := .built 2
    submit := .sent 1
    maxRecipients := ⟨1000, by decide⟩
    failOnPartialRefusal := true }

omit [Unicode] [Idna] [Python.Repr] in
theorem routes_agree_partlyRefused :
    let _ : Unicode := .ascii
    let _ : Idna := .ascii
    let _ : Python.Repr := ⟨pyRepr⟩
    let v := Constant.partlyRefused
    (Python.postMessages (Python.Constant.calls v)
        (Python.Constant.state v) [] none).map
        Python.toldBy =
      .ok
        (toldBy
          (postMessages (Constant.components v)
            (Constant.relay v) Constant.request)) := by
  intro _ _ _ v
  exact
    routes_agree v (Constant.components_show v)
      (Python.Constant.calls_show v)

end Pipeline

end MailgunRelay
