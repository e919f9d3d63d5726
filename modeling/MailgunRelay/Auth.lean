import MailgunRelay.Lib.Text
import MailgunRelay.PyStr

/-
  HTTP Basic authentication against the token hashes
  (`auth.rs`).

  Every failure is the same `AuthError`, so it is `none`.

  Key definitions include:
    * `MailgunRelay.authenticate`

  Key theorems include:
    * `MailgunRelay.mem_of_authenticate`
-/

------------------------------------------------------------
-- Authentication
------------------------------------------------------------

namespace MailgunRelay

/- A hexadecimal digit in lowercase. -/
def hexDigit (n : Nat) : Char :=
  if n < 10 then
    Char.ofNat (48 + n)
  else
    Char.ofNat (87 + n)

def hexLower (bytes : Bytes) : Str :=
  bytes.flatMap fun b =>
    [hexDigit (b.toNat / 16), hexDigit (b.toNat % 16)]

/- The part after a prefix. -/
def stripPrefix (lead text : Str) : Option Str :=
  if lead.isPrefixOf text then
    some (text.drop lead.length)
  else
    none

/-
  The last policy whose hash is the digest, or `matched` if
  there is none.
-/
def lastMatch
    (digest : Str)
    (matched : Option TokenPolicy) :
    List TokenPolicy → Option TokenPolicy
| [] => matched
| policy :: rest =>
    if policy.tokenSha256 = digest then
      lastMatch digest (some policy) rest
    else
      lastMatch digest matched rest

/- A match is one of the policies or the earlier one. -/
theorem mem_of_lastMatch
    {digest : Str}
    {matched : Option TokenPolicy}
    {policies : List TokenPolicy}
    {policy : TokenPolicy}
    (hMatch :
      lastMatch digest matched policies = some policy) :
    policy ∈ policies ∨ matched = some policy := by
  induction policies generalizing matched with
  | nil => exact .inr hMatch
  | cons first rest ih =>
      unfold lastMatch at hMatch
      split at hMatch
      · rcases ih hMatch with hMem | hFirst
        · exact .inl (List.mem_cons_of_mem first hMem)
        · cases hFirst
          exact .inl List.mem_cons_self
      · rcases ih hMatch with hMem | hMatched
        · exact .inl (List.mem_cons_of_mem first hMem)
        · exact .inr hMatched

variable [Base64] [Sha256]

/-
  Resolve the first `Authorization` header to the matching
  token policy.
-/
def authenticate
    (authorization : Option Bytes)
    (policies : List TokenPolicy) : Option TokenPolicy := do
  let header ← authorization.map latin1
  let encoded ← stripPrefix "Basic ".toList header
  let decoded ← Base64.decodeStrict (pyStrip encoded)
  let decoded ← fromUtf8 decoded
  let (username, password) ←
    Lib.Text.splitOnce ':' decoded
  let digest := hexLower (Sha256.digest (utf8 password))
  match lastMatch digest none policies with
  | some policy =>
      if username = "api".toList then
        some policy
      else
        none
  | none => none

/- Authentication resolves to a configured policy. -/
theorem mem_of_authenticate
    {authorization : Option Bytes}
    {policies : List TokenPolicy}
    {policy : TokenPolicy}
    (hAuth :
      authenticate authorization policies = some policy) :
    policy ∈ policies := by
  unfold authenticate at hAuth
  simp only [Option.bind_eq_bind, Option.bind_eq_some_iff]
    at hAuth
  rcases hAuth with
    ⟨header, -, encoded, -, bytes, -, decoded, -, credentials,
      -, hAuth⟩
  split at hAuth
  · rename_i found hMatch
    split at hAuth
    · cases hAuth
      simpa using mem_of_lastMatch hMatch
    · simp at hAuth
  · simp at hAuth

end MailgunRelay
