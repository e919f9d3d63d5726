import MailgunRelay.Http.Routes
import MailgunRelay.Pipeline.Accepted
import MailgunRelay.Pipeline.Audit
import MailgunRelay.Pipeline.Authorised
import MailgunRelay.Pipeline.Body

/-
  A request from the router to the submitter.

  `serve` is the whole way: the router answers, or hands the
  request to the pipeline.  Only a POST to the path of a
  domain gets there, what is submitted for it came whole and
  within the limit, and just such a request is audited.

  Key definitions include:
    * `MailgunRelay.Http.serve`
    * `MailgunRelay.Http.Posts`
    * `MailgunRelay.Http.Guarded`
    * `MailgunRelay.Http.Accounted`

  Key theorems include:
    * `MailgunRelay.Http.router_eq_messages_iff`
    * `MailgunRelay.Pipeline.readBody_of_eq_ok`
    * `MailgunRelay.Http.serve_accounted`
-/

------------------------------------------------------------
-- The Way Of A Request
------------------------------------------------------------

namespace MailgunRelay

namespace Http

open Pipeline (Event)

/- What a request causes. -/
structure Served where
  status : Nat
  emitted : List (LogCall Event)
  submitted : List BuiltMessage

/- An answer of the router, which does nothing else. -/
def Served.direct (status : Nat) : Served :=
  { status := status, emitted := [], submitted := [] }

/- The request as the pipeline gets it. -/
def Request.handed
    (request : Request)
    (domain : Str) : Pipeline.Request :=
  { domain := domain
    headers := request.headers
    body := request.body }

/- The answer of the router, or that of the pipeline. -/
def serve
    [Unicode] [Idna] [Base64] [Sha256] [Lettre]
    (relay : Pipeline.Relay)
    (request : Request) : Served :=
  match router relay.settings.maxBodyBytes request with
  | .json status _ => .direct status
  | .notAllowed _ => .direct 405
  | .redirect _ => .direct 307
  | .messages domain =>
      let run :=
        Pipeline.postMessages (Pipeline.components relay) relay
          (request.handed domain)
      { status := run.2.status
        emitted := run.1.emitted
        submitted := run.1.submitted }

/- A POST to the path of a domain, of an admitted length. -/
structure Posts
    (maxBodyBytes : I64)
    (request : Request)
    (domain : Str) : Prop where
  method : request.method = "POST".toList
  path : Names (percentDecode request.path) (.messages domain)
  short : ¬ TooLong maxBodyBytes request

/- Only such requests are handed over. -/
theorem router_eq_messages_iff
    {maxBodyBytes : I64}
    {request : Request}
    {domain : Str} :
    router maxBodyBytes request = .messages domain ↔
      Posts maxBodyBytes request domain := by
  constructor
  · intro hRouter
    have hAnswers := answers_router maxBodyBytes request
    rw [hRouter] at hAnswers
    cases hAnswers with
    | messages hShort hNames hMethod =>
        exact ⟨hMethod, hNames, hShort⟩
  · intro hPosts
    exact
      router_of_answers
        (.messages hPosts.short hPosts.path hPosts.method)

end Http

end MailgunRelay

------------------------------------------------------------
-- Whole Bodies
------------------------------------------------------------

namespace MailgunRelay

namespace Pipeline

/- A body that is read came whole and within the limit. -/
theorem readBody_of_eq_ok
    {frames : List Frame}
    {maxBodyBytes : I64}
    {body : Bytes}
    (hRead : readBody frames maxBodyBytes = .ok body) :
    .failed ∉ frames ∧ body = content frames ∧
      (body.length : Int) ≤ maxBodyBytes.val := by
  unfold readBody at hRead
  by_cases hFailed : .failed ∈ frames
  · rcases List.eq_append_cons_of_mem hFailed with
      ⟨before, rest, rfl, hBefore⟩
    rw [readFrames_failed hBefore] at hRead
    cases hRead
  · rw [readFrames_complete hFailed, List.nil_append] at hRead
    by_cases hExceeds :
        exceeds (content frames).length maxBodyBytes = true
    · rw [if_pos hExceeds] at hRead
      cases hRead
    · rw [if_neg hExceeds] at hRead
      cases hRead
      rw [exceeds_iff] at hExceeds
      exact ⟨hFailed, rfl, Int.not_lt.mp hExceeds⟩

variable [Unicode]

/- A form with items came from a body that was read. -/
theorem body_of_readForm
    {settings : Settings}
    {request : Request}
    {items : List Form.Item}
    (hItems : readForm settings request = .ok items)
    (hSome : items ≠ []) :
    .failed ∉ request.body ∧
      ((content request.body).length : Int) ≤
        settings.maxBodyBytes.val := by
  unfold readForm at hItems
  rcases Lib.bind_eq_ok_iff.mp hItems with
    ⟨encoding, -, hItems⟩
  by_cases hNone : encoding = .none
  · dsimp only at hItems
    rw [if_pos hNone, hNone] at hItems
    cases hItems
    exact absurd rfl hSome
  · dsimp only at hItems
    rw [if_neg hNone] at hItems
    rcases Lib.bind_eq_ok_iff.mp hItems with
      ⟨body, hBody, -⟩
    rcases readBody_of_eq_ok hBody with
      ⟨hWhole, rfl, hFits⟩
    exact ⟨hWhole, hFits⟩

end Pipeline

end MailgunRelay

------------------------------------------------------------
-- Guarded Submissions
------------------------------------------------------------

namespace MailgunRelay

namespace Http

open Pipeline

variable [Unicode] [Idna] [Base64] [Sha256] [Lettre]

/-
  All that stands before a submitted message: the request
  was a POST to the path of a domain, its body came whole and
  within the limit, and the pipeline authorised it.
-/
structure Guarded
    (relay : Relay)
    (request : Request)
    (message : BuiltMessage)
    (domain : Str)
    (policy : TokenPolicy)
    (parsed : ParsedForm)
    (mailbox : Mailbox) : Prop where
  posts : Posts relay.settings.maxBodyBytes request domain
  whole : .failed ∉ request.body
  fits :
    ((content request.body).length : Int) ≤
      relay.settings.maxBodyBytes.val
  authorised :
    Authorised relay (request.handed domain) message policy
      parsed mailbox

/- What the pipeline does for a request it is handed. -/
theorem serve_of_posts
    {relay : Relay}
    {request : Request}
    {domain : Str}
    (hPosts :
      Posts relay.settings.maxBodyBytes request domain) :
    ∃ w response,
      Follows relay
          (course (components relay) relay
            (request.handed domain)) w response ∧
        serve relay request =
          { status := response.status
            emitted := w.emitted
            submitted := w.submitted } := by
  refine
    ⟨_, _,
      postMessages_follows (components relay) relay
        (request.handed domain), ?_⟩
  unfold serve
  rw [router_eq_messages_iff.mpr hPosts]

/- Other requests are only answered. -/
theorem serve_of_not_posts
    {relay : Relay}
    {request : Request}
    (hOther :
      ∀ domain,
        ¬ Posts relay.settings.maxBodyBytes request domain) :
    (serve relay request).emitted = [] ∧
      (serve relay request).submitted = [] := by
  unfold serve
  cases hRouter :
      router relay.settings.maxBodyBytes request with
  | json status body => exact ⟨rfl, rfl⟩
  | notAllowed allow => exact ⟨rfl, rfl⟩
  | redirect location => exact ⟨rfl, rfl⟩
  | messages domain =>
      exact
        absurd (router_eq_messages_iff.mp hRouter)
          (hOther domain)

/- A message that takes its course is guarded. -/
theorem guarded_of_course
    {relay : Relay}
    {request : Request}
    {domain : Str}
    {message : BuiltMessage}
    (hPosts :
      Posts relay.settings.maxBodyBytes request domain)
    (hMessage :
      message ∈
        (course (components relay) relay
          (request.handed domain)).messages) :
    ∃ policy parsed mailbox,
      Guarded relay request message domain policy parsed
        mailbox := by
  rcases course_submitted hMessage with
    ⟨input, hPrepare, hBuild⟩
  rcases passed_of_prepare hPrepare with
    ⟨policy, parsed, mailbox, subject, hPassed⟩
  rcases hPassed.form with ⟨items, hItems, hParsed⟩
  have hSome : items ≠ [] := by
    rintro rfl
    rcases (accepted_of_parseForm hParsed).sender with
      ⟨address, -, hFrom⟩
    cases hFrom
  rcases body_of_readForm hItems hSome with ⟨hWhole, hFits⟩
  exact
    ⟨policy, parsed, mailbox,
      { posts := hPosts
        whole := hWhole
        fits := hFits
        authorised := hPassed.authorised hBuild }⟩

/-
  What a request caused is accounted for: every submitted
  message is guarded, there is at most one and none behind a
  refusal, and the audit record has the status that was
  answered.  A request that is not handed over leaves nothing.
-/
structure Accounted
    (relay : Relay)
    (request : Request)
    (served : Served) : Prop where
  guarded :
    ∀ message ∈ served.submitted,
      ∃ domain policy parsed mailbox,
        Guarded relay request message domain policy parsed
          mailbox
  once : served.submitted.length ≤ 1
  refused :
    served.status ∈ [307, 400, 401, 403, 404, 405, 413] →
      served.submitted = []
  recorded :
    (∃ domain,
        Posts relay.settings.maxBodyBytes request domain) →
      ∃ record,
        served.emitted.filter LogCall.isRequest =
            [requestCall relay record] ∧
          record.statusCode = served.status
  silent :
    (∀ domain,
        ¬ Posts relay.settings.maxBodyBytes request domain) →
      served.emitted = [] ∧ served.submitted = []

omit [Idna] [Base64] [Sha256] [Lettre] in
/- The statuses of a course are the pipeline's. -/
theorem status_of_follows
    {relay : Relay}
    {course : Course}
    {w : World}
    {response : Response}
    (hFollows : Follows relay course w response)
    (hStatus :
      response.status ∈ [307, 400, 401, 403, 404, 405, 413]) :
    response.status ∈ [400, 401, 403, 413] := by
  have hTable :=
    Course.ledger_mem_auditTable
      relay.settings.failOnPartialRefusal course
  rw [← hFollows.ledger] at hTable
  rw [hFollows.status] at hStatus ⊢
  have hAll :
      (auditTable.all fun entry =>
        entry.1 != 307 && entry.1 != 404 && entry.1 != 405) =
        true := by
    decide +kernel
  have hHere := List.all_eq_true.mp hAll _ hTable
  simp only [Record.ledger, Bool.and_eq_true, bne_iff_ne]
    at hHere
  simp only [List.mem_cons, List.not_mem_nil, or_false]
    at hStatus ⊢
  omega

/- Every request is accounted for, on its whole way. -/
theorem serve_accounted
    (relay : Relay)
    (request : Request) :
    Accounted relay request (serve relay request) := by
  by_cases hPosts :
      ∃ domain,
        Posts relay.settings.maxBodyBytes request domain
  · rcases hPosts with ⟨domain, hPosts⟩
    rcases serve_of_posts hPosts with
      ⟨w, response, hFollows, hServe⟩
    rw [hServe]
    constructor
    · intro message hMessage
      dsimp only at hMessage
      rw [hFollows.submitted] at hMessage
      exact ⟨domain, guarded_of_course hPosts hMessage⟩
    · dsimp only
      rw [hFollows.submitted]
      cases course (components relay) relay
        (request.handed domain) with
      | refused failure => exact Nat.zero_le 1
      | submitted message submission => exact Nat.le_refl 1
    · intro hStatus
      dsimp only at hStatus ⊢
      have hRefused := status_of_follows hFollows hStatus
      have hLedger :
          w.record.statusCode = _ :=
        congrArg Ledger.statusCode hFollows.ledger
      rw [hFollows.status, hLedger] at hRefused
      rw [hFollows.submitted]
      exact Course.messages_eq_nil hRefused
    · intro _
      dsimp only
      refine ⟨w.record, ?_, hFollows.status.symm⟩
      rw [hFollows.emitted]
      exact (filter_emitted relay w.record _).1
    · intro hNone
      exact absurd hPosts (hNone domain)
  · have hOther :
        ∀ domain,
          ¬ Posts relay.settings.maxBodyBytes request domain :=
      fun domain hHere => hPosts ⟨domain, hHere⟩
    rcases serve_of_not_posts hOther with
      ⟨hEmitted, hSubmitted⟩
    constructor
    · intro message hMessage
      rw [hSubmitted] at hMessage
      exact absurd hMessage List.not_mem_nil
    · rw [hSubmitted]
      exact Nat.zero_le 1
    · intro _
      exact hSubmitted
    · intro hHere
      exact absurd hHere hPosts
    · intro _
      exact ⟨hEmitted, hSubmitted⟩

end Http

end MailgunRelay
