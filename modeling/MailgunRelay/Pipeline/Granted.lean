import MailgunRelay.Allowlist
import MailgunRelay.Auth.Credentials
import MailgunRelay.Lib.Assoc
import MailgunRelay.Mime.Structure
import MailgunRelay.Pipeline.Authorised
import MailgunRelay.Pipeline.FieldRules
import MailgunRelay.Python.Auth
import MailgunRelay.Secrets.Spec

/-
  The secrets file as its operator reads it.

  Who may send follows from the strings of the file alone:
  which entry a request belongs to, and what that entry
  grants or denies, whatever spelling the file uses.

  Key definitions include:
    * `MailgunRelay.Secrets.Permits`
    * `MailgunRelay.Secrets.Grants`
    * `MailgunRelay.Secrets.Denies`
    * `MailgunRelay.Secrets.Identifies`

  Key theorems include:
    * `MailgunRelay.Secrets.identifies_of_authenticate`
    * `MailgunRelay.Secrets.DescribesPolicy.grants_iff`
    * `MailgunRelay.Secrets.DescribesPolicy.denies_iff`
    * `MailgunRelay.Pipeline.granted_as_written`
-/

------------------------------------------------------------
-- The Entries Of The File
------------------------------------------------------------

namespace MailgunRelay

namespace Secrets

/- A list of an entry spells a value. -/
def Lists
    (normalize : Str → Except Str Str)
    (raw : Node)
    (key : String)
    (value : Str) : Prop :=
  ∃ entry ∈ raw.entries key, normalize entry = .ok value

section Entries

variable [Unicode] [Idna]

/- The senders of an entry. -/
structure Permits
    (raw : Node)
    (m : Mailbox) : Prop where
  domain :
    Lists normalizeConfigDomain raw "allowed_from_domains"
      m.domain
  address :
    raw.entries "allowed_from_addresses" = [] ∨
      Lists normalizeConfigAddress raw
        "allowed_from_addresses" m.policyAddress

/- An entry is for a path domain and a sender. -/
structure Grants
    (raw : Node)
    (path «from» : Str)
    (m : Mailbox) : Prop where
  path :
    ∃ domain, normalizeDomain path = .ok domain ∧
      Lists normalizeConfigDomain raw "mailgun_domains" domain
  mailbox : parseMailbox «from» = some m
  sender : Permits raw m

/- It is not for a path domain, or not for the sender. -/
def Denies
    (raw : Node)
    (path «from» : Str) : Prop :=
  ∃ domain, normalizeDomain path = .ok domain ∧
    (¬ Lists normalizeConfigDomain raw "mailgun_domains"
        domain ∨
      ∃ m, parseMailbox «from» = some m ∧ ¬ Permits raw m)

end Entries

/- An entry has the hash of a password, in any case. -/
def HasHash
    [Unicode]
    [Sha256]
    (password : Str)
    (raw : Node) : Prop :=
  ∃ value, raw.get "token_sha256".toList = some (.str value) ∧
    lowercase (pyStrip value) = tokenHash password

/-
  The entry a header stands for: the last one with the hash
  of the password in it.
-/
def Identifies
    [Unicode]
    [Sha256]
    (data : Node)
    (authorization : Option Bytes)
    (raw : Node) : Prop :=
  ∃ entries header password,
    data.get "tokens".toList = some (.seq entries) ∧
      authorization = some header ∧
      Supplies header password ∧
      Lib.Assoc.LastWith (HasHash password) entries raw

end Secrets

end MailgunRelay

------------------------------------------------------------
-- Entries And Policies
------------------------------------------------------------

namespace MailgunRelay

namespace Secrets

variable [Unicode] [Idna]

theorem DescribesPolicy.hash_iff
    [Sha256]
    {raw : Node}
    {policy : TokenPolicy}
    (hPolicy : DescribesPolicy raw policy)
    (password : Str) :
    HasHash password raw ↔
      policy.tokenSha256 = tokenHash password := by
  rcases hPolicy.hash with ⟨value, hGet, -, hHash⟩
  unfold HasHash
  constructor
  · rintro ⟨other, hOther, hPassword⟩
    rw [hGet, Option.some.injEq, Node.str.injEq] at hOther
    rw [hHash, hOther]
    exact hPassword
  · intro hPassword
    exact ⟨value, hGet, hHash.symm.trans hPassword⟩

theorem DescribesPolicy.path_iff
    {raw : Node}
    {policy : TokenPolicy}
    (hPolicy : DescribesPolicy raw policy)
    (domain : Str) :
    domain ∈ policy.mailgunDomains ↔
      Lists normalizeConfigDomain raw "mailgun_domains"
        domain :=
  hPolicy.mailgunDomains.loaded domain

theorem DescribesPolicy.permits_iff
    {raw : Node}
    {policy : TokenPolicy}
    (hPolicy : DescribesPolicy raw policy)
    (m : Mailbox) :
    policy.Allows m ↔ Permits raw m := by
  have hDomain := hPolicy.allowedFromDomains.loaded m.domain
  have hLoaded := hPolicy.allowedFromAddresses.loaded
  cases hAllowed : policy.allowedFromAddresses with
  | none =>
      rw [hAllowed] at hLoaded
      constructor
      · intro hAllows
        exact ⟨hDomain.mp hAllows.domain, .inl hLoaded⟩
      · intro hPermits
        refine ⟨hDomain.mpr hPermits.domain, ?_⟩
        intro allowed hSome
        rw [hAllowed] at hSome
        cases hSome
  | some allowed =>
      rw [hAllowed] at hLoaded
      have hAddress := hLoaded m.policyAddress
      constructor
      · intro hAllows
        have hMem := hAllows.address allowed hAllowed
        exact
          ⟨hDomain.mp hAllows.domain,
            .inr (hAddress.mp hMem)⟩
      · intro hPermits
        refine ⟨hDomain.mpr hPermits.domain, ?_⟩
        intro allowed' hSome
        rw [hAllowed, Option.some_inj] at hSome
        rw [← hSome]
        rcases hPermits.address with hNone | hListed
        · -- A list that is there is not empty.
          have hDescribes := hPolicy.allowedFromAddresses
          rw [hAllowed] at hDescribes
          rcases hDescribes with ⟨items, hGet, hSome, hItems⟩
          rcases List.exists_mem_of_ne_nil items hSome with
            ⟨item, hMem⟩
          rcases hItems.strings item hMem with
            ⟨value, normal, rfl, -, -⟩
          have hEntry := (mem_entries hGet).mpr hMem
          rw [hNone] at hEntry
          cases hEntry
        · exact hAddress.mpr hListed

/- The policy allows what its entry grants. -/
theorem DescribesPolicy.grants_iff
    {raw : Node}
    {policy : TokenPolicy}
    (hPolicy : DescribesPolicy raw policy)
    (path «from» : Str)
    (m : Mailbox) :
    enforcePolicy policy path «from» = .ok m ↔
      Grants raw path «from» m := by
  unfold enforcePolicy
  rw [enforceWith_eq_ok_iff, hPolicy.permits_iff]
  simp only [hPolicy.path_iff]
  constructor
  · rintro ⟨hPath, hMailbox, hPermits⟩
    exact ⟨hPath, hMailbox, hPermits⟩
  · intro hGrants
    exact ⟨hGrants.path, hGrants.mailbox, hGrants.sender⟩

/- It forbids what its entry denies. -/
theorem DescribesPolicy.denies_iff
    {raw : Node}
    {policy : TokenPolicy}
    (hPolicy : DescribesPolicy raw policy)
    (path «from» : Str) :
    (∃ message,
        enforcePolicy policy path «from» =
          .error (.forbidden message)) ↔
      Denies raw path «from» := by
  unfold Denies
  simp only [← hPolicy.path_iff, ← hPolicy.permits_iff]
  unfold enforcePolicy enforceWith
  cases hPath : normalizeDomain path with
  | error e => simp
  | ok domain =>
      dsimp only
      by_cases hMember : domain ∈ policy.mailgunDomains
      · rw [if_neg (not_not.mpr hMember)]
        cases hFrom : parseMailbox «from» with
        | none => simp [hMember]
        | some m =>
            dsimp only
            by_cases hDomain :
                m.domain ∈ policy.allowedFromDomains
            · rw [if_neg (not_not.mpr hDomain)]
              cases hAllowed :
                  policy.allowedFromAddresses with
              | none =>
                  have hAllows : policy.Allows m :=
                    ⟨hDomain, by simp [hAllowed]⟩
                  simp [hMember, hAllows]
              | some allowed =>
                  dsimp only
                  by_cases hAddress :
                      m.policyAddress ∈ allowed
                  · have hAllows : policy.Allows m := by
                      refine ⟨hDomain, ?_⟩
                      intro allowed' hSome
                      rw [hAllowed, Option.some_inj] at hSome
                      rw [← hSome]
                      exact hAddress
                    rw [if_neg (not_not.mpr hAddress)]
                    simp [hMember, hAllows]
                  · have hAllows : ¬ policy.Allows m :=
                      fun hAllows =>
                        hAddress (hAllows.address _ hAllowed)
                    rw [if_pos hAddress]
                    simp [forbidden, hAllows]
            · have hAllows : ¬ policy.Allows m :=
                fun hAllows => hDomain hAllows.domain
              rw [if_pos hDomain]
              simp [forbidden, hAllows]
      · rw [if_pos hMember]
        simp [forbidden, hMember]

/- A policy of the tokens is one of an entry. -/
theorem identifies_of_authenticate
    [Base64]
    [Sha256]
    (hStrict : StrictLaws)
    {data : Node}
    {smtp : Smtp.SmtpCredentials}
    {tokens : List TokenPolicy}
    (hLoad : fromNode data = .ok (smtp, tokens))
    {authorization : Option Bytes}
    {policy : TokenPolicy}
    (hAuth : authenticate authorization tokens = some policy) :
    ∃ raw, Identifies data authorization raw ∧
      DescribesPolicy raw policy := by
  rcases (fromNode_eq_ok_iff.mp hLoad).policies with
    ⟨entries, hEntries, -, hAll⟩
  rcases (authenticate_eq_some_iff hStrict).mp hAuth with
    ⟨header, password, hHeader, hSupplies, hLast⟩
  rcases
    Lib.Assoc.LastWith.left hAll
      (fun _ _ hDescribes => hDescribes.hash_iff password)
      hLast with
    ⟨raw, hRaw, hPolicy⟩
  exact
    ⟨raw,
      ⟨entries, header, password, hEntries, hHeader, hSupplies,
        hRaw⟩,
      hPolicy⟩

/- And an entry that is identified has its policy. -/
theorem authenticate_of_identifies
    [Base64]
    [Sha256]
    (hStrict : StrictLaws)
    {data : Node}
    {smtp : Smtp.SmtpCredentials}
    {tokens : List TokenPolicy}
    (hLoad : fromNode data = .ok (smtp, tokens))
    {authorization : Option Bytes}
    {raw : Node}
    (hRaw : Identifies data authorization raw) :
    ∃ policy, authenticate authorization tokens = some policy ∧
      DescribesPolicy raw policy := by
  rcases (fromNode_eq_ok_iff.mp hLoad).policies with
    ⟨entries, hEntries, -, hAll⟩
  rcases hRaw with
    ⟨others, header, password, hOthers, hHeader, hSupplies,
      hLast⟩
  rw [hEntries, Option.some_inj, Node.seq.injEq] at hOthers
  rw [← hOthers] at hLast
  rcases
    Lib.Assoc.LastWith.right hAll
      (fun _ _ hDescribes => hDescribes.hash_iff password)
      hLast with
    ⟨policy, hPolicy, hDescribes⟩
  exact
    ⟨policy,
      (authenticate_eq_some_iff hStrict).mpr
        ⟨header, password, hHeader, hSupplies, hPolicy⟩,
      hDescribes⟩

end Secrets

end MailgunRelay

------------------------------------------------------------
-- Refusals Of A Request
------------------------------------------------------------

namespace MailgunRelay

namespace Pipeline

/- A failure that says nothing of who may send. -/
def Failure.IsMinor (failure : Failure) : Prop :=
  failure.status = 400 ∨ failure.status = 413

theorem mapError_eq_error_iff
    {α ε ε' : Type}
    {f : ε → ε'}
    {x : Except ε α}
    {e' : ε'} :
    x.mapError f = .error e' ↔ ∃ e, x = .error e ∧ f e = e' := by
  cases x <;> simp [Except.mapError]

theorem isMinor_formFailure
    (error : Form.FormError) :
    (formFailure error).IsMinor := by
  cases error with
  | badRequest => exact .inl rfl
  | tooLarge => exact .inr rfl

theorem isMinor_readFrames
    {limit : I64}
    {bytes : Bytes}
    {frames : List Frame}
    {failure : Failure}
    (hRead : readFrames limit bytes frames = .error failure) :
    failure.IsMinor := by
  fun_induction readFrames limit bytes frames with
  | case1 =>
      cases hRead
      exact .inr rfl
  | case2 => cases hRead
  | case3 =>
      cases hRead
      exact .inl rfl
  | case4 bytes rest ih => exact ih hRead
  | case5 =>
      cases hRead
      exact .inr rfl
  | case6 bytes data rest hFits ih => exact ih hRead

theorem isMinor_formParse
    [Unicode]
    {encoding : Form.Encoding}
    {bytes : Bytes}
    {limits : Form.Limits}
    {failure : Failure}
    (hParse :
      (Form.parse encoding bytes limits).mapError formFailure =
        .error failure) :
    failure.IsMinor := by
  rcases mapError_eq_error_iff.mp hParse with ⟨error, -, rfl⟩
  exact isMinor_formFailure error

theorem isMinor_readForm
    [Unicode]
    {settings : Settings}
    {request : Request}
    {failure : Failure}
    (hRead : readForm settings request = .error failure) :
    failure.IsMinor := by
  unfold readForm at hRead
  rcases Lib.bind_eq_error_iff.mp hRead with
    hEncoding | ⟨encoding, -, hRead⟩
  · rcases mapError_eq_error_iff.mp hEncoding with
      ⟨error, -, rfl⟩
    exact isMinor_formFailure error
  dsimp only at hRead
  split at hRead
  · exact isMinor_formParse hRead
  · rcases Lib.bind_eq_error_iff.mp hRead with
      hBody | ⟨bytes, -, hRead⟩
    · exact isMinor_readFrames hBody
    · exact isMinor_formParse hRead

theorem isMinor_parseForm
    {settings : Settings}
    {items : List Form.Item}
    {failure : Failure}
    (hParse : parseForm settings items = .error failure) :
    failure.IsMinor := by
  let _ : Python.Repr := ⟨id⟩
  have hAlike := parseForm_alike settings items
  cases hPython : Python.parseForm settings items with
  | ok parsed =>
      rw [hParse, hPython] at hAlike
      exact hAlike.elim
  | error exc =>
      rw [hParse, hPython] at hAlike
      rcases hAlike with ⟨hStatus, -⟩ | ⟨hStatus, -⟩
      · exact .inl hStatus
      · exact .inr hStatus

theorem isMinor_checkCount
    {settings : Settings}
    {parsed : ParsedForm}
    {failure : Failure}
    (hCount : checkCount settings parsed = .error failure) :
    failure.IsMinor := by
  unfold checkCount at hCount
  dsimp only at hCount
  split at hCount
  · cases hCount
    exact .inl rfl
  split at hCount
  · cases hCount
    exact .inr rfl
  · cases hCount

/-
  A request is refused for its credentials, or by the policy
  of its token, or for something else.
-/
inductive RefusedBy
    (c : Components)
    (relay : Relay)
    (request : Request) : Failure → Prop where
  | credentials
      (hAuth :
        c.authenticate
            (request.header "authorization".toList)
            relay.tokens = none) :
      RefusedBy c relay request unauthorized
  | policy
      {policy : TokenPolicy}
      {items : List Form.Item}
      {parsed : ParsedForm}
      {message : Str}
      (hAuth :
        c.authenticate
            (request.header "authorization".toList)
            relay.tokens = some policy)
      (hItems : c.readForm request = .ok items)
      (hParsed : c.parseForm items = .ok parsed)
      (hDenied :
        enforceWith c.normalizeDomain c.parseMailbox policy
            request.domain (parsed.from.headD []) =
          .error (.forbidden message)) :
      RefusedBy c relay request
        (policyFailure (.forbidden message))
  | other
      {failure : Failure}
      (hMinor : failure.IsMinor) :
      RefusedBy c relay request failure

theorem refusedBy_of_prepare
    {c : Components}
    {relay : Relay}
    {request : Request}
    (hRead :
      ∀ failure, c.readForm request = .error failure →
        failure.IsMinor)
    (hParse :
      ∀ items failure, c.parseForm items = .error failure →
        failure.IsMinor)
    {failure : Failure}
    (hPrepare : prepare c relay request = .error failure) :
    RefusedBy c relay request failure := by
  unfold prepare at hPrepare
  cases hAuth :
      c.authenticate (request.header "authorization".toList)
        relay.tokens with
  | none =>
      rw [hAuth] at hPrepare
      cases hPrepare
      exact .credentials hAuth
  | some policy =>
      rw [hAuth] at hPrepare
      replace hPrepare :
          (c.readForm request >>= _) = .error failure :=
        hPrepare
      rcases Lib.bind_eq_error_iff.mp hPrepare with
        hForm | ⟨items, hItems, hPrepare⟩
      · exact .other (hRead failure hForm)
      rcases Lib.bind_eq_error_iff.mp hPrepare with
        hForm | ⟨parsed, hParsed, hPrepare⟩
      · exact .other (hParse items failure hForm)
      rcases Lib.bind_eq_error_iff.mp hPrepare with
        hPolicy | ⟨mailbox, -, hPrepare⟩
      · rcases mapError_eq_error_iff.mp hPolicy with
          ⟨error, hEnforce, rfl⟩
        cases error with
        | badRequest => exact .other (.inl rfl)
        | forbidden message =>
            exact .policy hAuth hItems hParsed hEnforce
      rcases Lib.bind_eq_error_iff.mp hPrepare with
        hSubject | ⟨subject, -, hPrepare⟩
      · rcases mapError_eq_error_iff.mp hSubject with
          ⟨error, -, rfl⟩
        exact .other (.inl rfl)
      rcases Lib.bind_eq_error_iff.mp hPrepare with
        hHeaders | ⟨-, -, hPrepare⟩
      · rcases mapError_eq_error_iff.mp hHeaders with
          ⟨error, -, rfl⟩
        exact .other (.inl rfl)
      rcases Lib.bind_eq_error_iff.mp hPrepare with
        hCount | ⟨-, -, hPrepare⟩
      · exact .other (isMinor_checkCount hCount)
      · cases hPrepare

theorem prepare_unauthorized
    {c : Components}
    {relay : Relay}
    {request : Request}
    (hAuth :
      c.authenticate (request.header "authorization".toList)
          relay.tokens = none) :
    prepare c relay request = .error unauthorized := by
  rw [prepare, hAuth]
  rfl

theorem prepare_forbidden
    {c : Components}
    {relay : Relay}
    {request : Request}
    {policy : TokenPolicy}
    {items : List Form.Item}
    {parsed : ParsedForm}
    {message : Str}
    (hAuth :
      c.authenticate (request.header "authorization".toList)
          relay.tokens = some policy)
    (hItems : c.readForm request = .ok items)
    (hParsed : c.parseForm items = .ok parsed)
    (hDenied :
      enforceWith c.normalizeDomain c.parseMailbox policy
          request.domain (parsed.from.headD []) =
        .error (.forbidden message)) :
    prepare c relay request =
      .error (policyFailure (.forbidden message)) := by
  rw [prepare, hAuth, orUnauthorized, Lib.ok_bind, hItems,
    Lib.ok_bind, hParsed, Lib.ok_bind, hDenied]
  rfl

/- Only a course that was refused is answered so. -/
theorem Course.refused_of_status
    {failOnPartialRefusal : Bool}
    {course : Course}
    {code : Nat}
    (hStatus :
      (course.ledger failOnPartialRefusal).statusCode = code)
    (hCode : code ∈ [400, 401, 403, 413]) :
    ∃ failure, course = .refused failure ∧
      failure.status = code := by
  cases course with
  | refused failure => exact ⟨failure, rfl, hStatus⟩
  | submitted message submission =>
      rw [← hStatus] at hCode
      cases Course.messages_eq_nil hCode

/- What the checks refuse with 401 or 403 is answered so. -/
theorem status_iff
    [Unicode]
    [Idna]
    {c : Components}
    {relay : Relay}
    {request : Request}
    {code : Nat}
    (hCode : code ∈ [401, 403]) :
    (postMessages c relay request).2.status = code ↔
      ∃ failure, prepare c relay request = .error failure ∧
        failure.status = code := by
  have hFollows := postMessages_follows c relay request
  have hLedger :
      (postMessages c relay request).1.record.statusCode = _ :=
    congrArg Ledger.statusCode hFollows.ledger
  rw [hFollows.status, hLedger]
  constructor
  · intro hStatus
    have hMember : code ∈ [400, 401, 403, 413] := by
      rcases List.mem_pair.mp hCode with rfl | rfl
      · decide
      · decide
    rcases Course.refused_of_status hStatus hMember with
      ⟨failure, hCourse, hFailure⟩
    unfold course at hCourse
    cases hPrepare : prepare c relay request with
    | error failure' =>
        rw [hPrepare] at hCourse
        cases hCourse
        exact ⟨failure, rfl, hFailure⟩
    | ok input =>
        rw [hPrepare] at hCourse
        dsimp only at hCourse
        cases hBuild : c.build input with
        | ok message =>
            rw [hBuild] at hCourse
            cases hCourse
        | error error =>
            exfalso
            rw [hBuild] at hCourse
            cases hCourse
            rw [← hFailure] at hCode
            cases error with
            | invalidMessage => revert hCode; decide
            | panic => revert hCode; decide
  · rintro ⟨failure, hPrepare, rfl⟩
    rw [course, hPrepare]
    rfl

end Pipeline

end MailgunRelay

------------------------------------------------------------
-- As The File Is Written
------------------------------------------------------------

namespace MailgunRelay

namespace Pipeline

open Secrets (Identifies Grants Denies DescribesPolicy)

variable [Unicode] [Idna] [Base64] [Sha256] [Lettre]

/- What the checks refuse, by the policies of the relay. -/
theorem refusedBy_of_components
    {relay : Relay}
    {request : Request}
    {failure : Failure}
    (hPrepare :
      prepare (components relay) relay request =
        .error failure) :
    RefusedBy (components relay) relay request failure :=
  refusedBy_of_prepare (fun _ => isMinor_readForm)
    (fun _ _ => isMinor_parseForm) hPrepare

/- No credentials of the file are answered with 401. -/
theorem unauthorized_iff
    (hStrict : StrictLaws)
    {data : Secrets.Node}
    {smtp : Smtp.SmtpCredentials}
    {relay : Relay}
    (hLoad :
      Secrets.fromNode data = .ok (smtp, relay.tokens))
    (request : Request) :
    (postMessages (components relay) relay
        request).2.status = 401 ↔
      ∀ raw,
        ¬ Identifies data
          (request.header "authorization".toList) raw := by
  rw [status_iff (by decide)]
  constructor
  · rintro ⟨failure, hPrepare, hStatus⟩ raw hRaw
    rcases
      Secrets.authenticate_of_identifies hStrict hLoad hRaw with
      ⟨policy, hPolicy, -⟩
    cases refusedBy_of_components hPrepare with
    | credentials hAuth => cases hAuth.symm.trans hPolicy
    | policy hAuth hItems hParsed hDenied => cases hStatus
    | other hMinor =>
        rcases hMinor with hMinor | hMinor <;>
          rw [hMinor] at hStatus <;> cases hStatus
  · intro hNone
    refine ⟨unauthorized, prepare_unauthorized ?_, rfl⟩
    show authenticate _ relay.tokens = none
    rw [Option.eq_none_iff_forall_ne_some]
    intro policy hPolicy
    rcases
      Secrets.identifies_of_authenticate hStrict hLoad
        hPolicy with
      ⟨raw, hRaw, -⟩
    exact hNone raw hRaw

/- What the entry denies is answered with 403. -/
theorem forbidden_iff
    (hStrict : StrictLaws)
    {data : Secrets.Node}
    {smtp : Smtp.SmtpCredentials}
    {relay : Relay}
    (hLoad :
      Secrets.fromNode data = .ok (smtp, relay.tokens))
    (request : Request) :
    (postMessages (components relay) relay
        request).2.status = 403 ↔
      ∃ raw items parsed,
        Identifies data
            (request.header "authorization".toList) raw ∧
          readForm relay.settings request = .ok items ∧
          parseForm relay.settings items = .ok parsed ∧
          Denies raw request.domain
            (parsed.from.headD []) := by
  rw [status_iff (by decide)]
  constructor
  · rintro ⟨failure, hPrepare, hStatus⟩
    cases refusedBy_of_components hPrepare with
    | credentials hAuth => cases hStatus
    | @policy policy items parsed message hAuth hItems hParsed
        hDenied =>
        rcases
          Secrets.identifies_of_authenticate hStrict hLoad
            hAuth with
          ⟨raw, hRaw, hPolicy⟩
        exact
          ⟨raw, items, parsed, hRaw, hItems, hParsed,
            (hPolicy.denies_iff _ _).mp ⟨message, hDenied⟩⟩
    | other hMinor =>
        rcases hMinor with hMinor | hMinor <;>
          rw [hMinor] at hStatus <;> cases hStatus
  · rintro ⟨raw, items, parsed, hRaw, hItems, hParsed, hDenies⟩
    rcases
      Secrets.authenticate_of_identifies hStrict hLoad hRaw with
      ⟨policy, hAuth, hPolicy⟩
    rcases (hPolicy.denies_iff _ _).mpr hDenies with
      ⟨message, hDenied⟩
    exact
      ⟨policyFailure (.forbidden message),
        prepare_forbidden hAuth hItems hParsed hDenied, rfl⟩

/-
  Who may send is what the secrets file says. A request is
  refused for its credentials exactly when no entry is
  theirs, and by the policy exactly when the last entry with
  their hash denies the path domain or the sender; what is
  submitted is granted by that entry, from the sender it was
  checked for.
-/
theorem granted_as_written
    (hStrict : StrictLaws)
    (data : Secrets.Node)
    (smtp : Smtp.SmtpCredentials)
    (relay : Relay)
    (hLoad :
      Secrets.fromNode data = .ok (smtp, relay.tokens))
    (request : Request) :
    let run := postMessages (components relay) relay request
    let authorization :=
      request.header "authorization".toList
    (run.2.status = 401 ↔
      ∀ raw, ¬ Identifies data authorization raw) ∧
    (run.2.status = 403 ↔
      ∃ raw items parsed,
        Identifies data authorization raw ∧
          readForm relay.settings request = .ok items ∧
          parseForm relay.settings items = .ok parsed ∧
          Denies raw request.domain
            (parsed.from.headD [])) ∧
    ∀ message ∈ run.1.submitted,
      ∃ raw items parsed mailbox field rest,
        Identifies data authorization raw ∧
          readForm relay.settings request = .ok items ∧
          parseForm relay.settings items = .ok parsed ∧
          Grants raw request.domain
            (parsed.from.headD []) mailbox ∧
          Mime.addressHeader "From".toList [mailbox] =
            some field ∧
          message.formatted = utf8 field.render ++ rest := by
  intro run authorization
  refine
    ⟨unauthorized_iff hStrict hLoad request,
      forbidden_iff hStrict hLoad request, ?_⟩
  intro message hMessage
  rw [(postMessages_follows (components relay) relay
    request).submitted] at hMessage
  rcases course_submitted hMessage with
    ⟨input, hPrepare, hBuild⟩
  rcases passed_of_prepare hPrepare with
    ⟨policy, parsed, mailbox, subject, hPassed⟩
  rcases
    Secrets.identifies_of_authenticate hStrict hLoad
      hPassed.authenticated with
    ⟨raw, hRaw, hPolicy⟩
  rcases hPassed.form with ⟨items, hItems, hParsed⟩
  rcases fromField_of_build hBuild with
    ⟨field, rest, hField, hFormatted⟩
  rw [hPassed.input] at hField
  exact
    ⟨raw, items, parsed, mailbox, field, rest, hRaw, hItems,
      hParsed,
      (hPolicy.grants_iff _ _ mailbox).mp hPassed.enforced,
      hField, hFormatted⟩

omit [Unicode] [Idna] [Base64] [Sha256] [Lettre] in
/- A file with one entry, for the empty password. -/
theorem granted_as_written_one :
    let _ : Unicode := .ascii
    let _ : Idna := .aDe
    let _ : Base64 := .standard
    let _ : Lettre := .unfolded
    let _ : Sha256 := { digest := fun _ => Python.emptyDigest }
    let limit : I64 := ⟨1048576, by decide⟩
    let relay (tokens : List TokenPolicy) : Relay :=
      { settings :=
          { publicHost := "a.de".toList
            failOnPartialRefusal := false
            maxBodyBytes := limit
            maxAttachments := limit
            maxAttachmentBytes := limit
            maxRecipients := limit
            maxHeaderValueLength := limit }
        tokens := tokens
        logger := { threshold := .info }
        submit := fun _ => .ok []
        requestId := []
        durationMs := 0
        hex := some "0f".toList
        date := "Mon".toList }
    let raw : Secrets.Node :=
      .map
        [("label".toList, .str "a".toList),
          ("token_sha256".toList,
            .str (hexLower Python.emptyDigest)),
          ("mailgun_domains".toList,
            .seq [.str " A.de".toList]),
          ("allowed_from_domains".toList,
            .seq [.str "a.DE".toList])]
    let data : Secrets.Node :=
      .map
        [("smtp".toList,
          .map
            [("username".toList, .str "u".toList),
              ("password".toList, .str "p".toList)]),
          ("tokens".toList, .seq [raw])]
    let request : Request :=
      { domain := "a.de".toList
        headers :=
          [("authorization".toList,
            utf8 ("Basic ".toList ++
              Base64.encode (utf8 "api:".toList))),
           ("content-type".toList,
            utf8 "application/x-www-form-urlencoded".toList)]
        body :=
          [.data (utf8
            "from=b@a.de&to=x@a.de&subject=Hi&text=Ho".toList)] }
    ∃ smtp tokens raw items parsed mailbox,
      Secrets.fromNode data = .ok (smtp, tokens) ∧
        Identifies data
          (request.header "authorization".toList) raw ∧
        readForm (relay tokens).settings request = .ok items ∧
        parseForm (relay tokens).settings items = .ok parsed ∧
        Grants raw request.domain (parsed.from.headD [])
          mailbox := by
  intro _ _ _ _ _ limit relay raw data request
  have hRun :
      ((Secrets.fromNode data).toOption.any fun loaded =>
        !(postMessages (components (relay loaded.2))
          (relay loaded.2) request).1.submitted.isEmpty) =
        true := by
    decide +kernel
  rw [Option.any_eq_true] at hRun
  rcases hRun with ⟨⟨smtp, tokens⟩, hSome, hSubmitted⟩
  have hLoad : Secrets.fromNode data = .ok (smtp, tokens) := by
    cases hNode : Secrets.fromNode data with
    | error error =>
        rw [hNode] at hSome
        cases hSome
    | ok loaded =>
        rw [hNode] at hSome
        cases hSome
        rfl
  rw [Bool.not_eq_true', List.isEmpty_eq_false_iff]
    at hSubmitted
  rcases List.exists_mem_of_ne_nil _ hSubmitted with
    ⟨message, hMessage⟩
  rcases
    (granted_as_written
      ⟨Lib.Base64.decodePadded_eq_some_iff⟩ data smtp
      (relay tokens) hLoad request).2.2 message hMessage with
    ⟨raw, items, parsed, mailbox, -, -, hRaw, hItems, hParsed,
      hGrants, -, -⟩
  exact
    ⟨smtp, tokens, raw, items, parsed, mailbox, hLoad, hRaw,
      hItems, hParsed, hGrants⟩

end Pipeline

end MailgunRelay
