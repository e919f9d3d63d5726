import MailgunRelay.Address

/-
  The token policy (`policy.rs`).

  Key definitions include:
    * `MailgunRelay.PolicyError`
    * `MailgunRelay.enforcePolicy`
    * `MailgunRelay.TokenPolicy.Allows`

  Key theorems include:
    * `MailgunRelay.enforceWith_eq_ok_iff`
-/

------------------------------------------------------------
-- The Check
------------------------------------------------------------

namespace MailgunRelay

/-
  A malformed path domain or `from` value is a 400; what
  the token does not allow is a 403 with its message.
-/
inductive PolicyError where
  | badRequest
  | forbidden (message : Str)
  deriving DecidableEq

/- Python's `repr` of the ASCII strings in the messages. -/
def pyRepr (value : Str) : Str :=
  if value.contains '\'' then
    '"' :: value ++ ['"']
  else
    '\'' :: value ++ ['\'']

def forbidden (what value : Str) : PolicyError :=
  .forbidden
    ("token not allowed for ".toList ++ what ++
      ' ' :: pyRepr value)

/-
  The check with the functions it normalises the path domain
  and parses the sender with.
-/
def enforceWith
    (normalize : Str → Except Str Str)
    (parse : Str → Option Mailbox)
    (policy : TokenPolicy)
    (pathDomain «from» : Str) : Except PolicyError Mailbox :=
  match normalize pathDomain with
  | .error _ => .error .badRequest
  | .ok path =>
      if path ∉ policy.mailgunDomains then
        .error (forbidden "path domain".toList path)
      else
        match parse «from» with
        | none => .error .badRequest
        | some m =>
            if m.domain ∉ policy.allowedFromDomains then
              .error (forbidden "from domain".toList m.domain)
            else
              match policy.allowedFromAddresses with
              | none => .ok m
              | some allowed =>
                  if m.policyAddress ∉ allowed then
                    .error
                      (forbidden "from address".toList
                        m.policyAddress)
                  else
                    .ok m

variable [Unicode] [Idna]

/-
  Check one request against the policy of its token; on
  success the parsed `from` mailbox.
-/
def enforcePolicy :
    TokenPolicy → Str → Str → Except PolicyError Mailbox :=
  enforceWith normalizeDomain parseMailbox

end MailgunRelay

------------------------------------------------------------
-- What It Allows
------------------------------------------------------------

namespace MailgunRelay

/- A token may send from a mailbox. -/
structure TokenPolicy.Allows
    (policy : TokenPolicy)
    (m : Mailbox) : Prop where
  domain : m.domain ∈ policy.allowedFromDomains
  address : ∀ allowed,
    policy.allowedFromAddresses = some allowed →
      m.policyAddress ∈ allowed

/-
  A request passes exactly when its path domain is the
  token's and its `from` value is a mailbox the token
  allows.
-/
theorem enforceWith_eq_ok_iff
    (normalize : Str → Except Str Str)
    (parse : Str → Option Mailbox)
    (policy : TokenPolicy)
    (pathDomain «from» : Str)
    (m : Mailbox) :
    enforceWith normalize parse policy pathDomain «from» =
        .ok m ↔
      (∃ path, normalize pathDomain = .ok path ∧
        path ∈ policy.mailgunDomains) ∧
      parse «from» = some m ∧ policy.Allows m := by
  unfold enforceWith
  constructor
  · intro hOk
    split at hOk
    · simp at hOk
    rename_i path hPath
    split at hOk
    · simp at hOk
    rename_i hMember
    split at hOk
    · simp at hOk
    rename_i m' hFrom
    split at hOk
    · simp at hOk
    rename_i hDomain
    split at hOk
    · rename_i hAny
      cases hOk
      exact
        ⟨⟨path, hPath, not_not.mp hMember⟩, hFrom,
          not_not.mp hDomain, by simp [hAny]⟩
    · rename_i allowed hAllowed
      split at hOk
      · simp at hOk
      rename_i hAddress
      cases hOk
      exact
        ⟨⟨path, hPath, not_not.mp hMember⟩, hFrom,
          not_not.mp hDomain, by
            simpa [hAllowed] using hAddress⟩
  · rintro ⟨⟨path, hPath, hMember⟩, hFrom, hDomain, hAddress⟩
    simp only [hPath, hMember, not_true, if_false, hFrom,
      hDomain]
    cases hAllowed : policy.allowedFromAddresses with
    | none => rfl
    | some allowed => simp [hAddress allowed hAllowed]

end MailgunRelay
