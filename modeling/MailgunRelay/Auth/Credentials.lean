import MailgunRelay.Auth
import MailgunRelay.Lib.Base64

/-
  Which headers authenticate, and as which policy.

  Key definitions include:
    * `MailgunRelay.StrictLaws`
    * `MailgunRelay.Supplies`
    * `MailgunRelay.tokenHash`
    * `MailgunRelay.IsLast`

  Key theorems include:
    * `MailgunRelay.lastMatch_eq_some_iff`
    * `MailgunRelay.authenticate_eq_some_iff`
    * `MailgunRelay.authenticate_append`
-/

------------------------------------------------------------
-- The Last Match
------------------------------------------------------------

namespace MailgunRelay

/- The last policy with a hash. -/
def IsLast
    (hash : Str)
    (policies : List TokenPolicy)
    (policy : TokenPolicy) : Prop :=
  ∃ before after,
    policies = before ++ policy :: after ∧
    policy.tokenSha256 = hash ∧
    ∀ other ∈ after, other.tokenSha256 ≠ hash

theorem isLast_cons_iff
    {hash : Str}
    {first policy : TokenPolicy}
    {rest : List TokenPolicy} :
    IsLast hash (first :: rest) policy ↔
      IsLast hash rest policy ∨
        (first = policy ∧ first.tokenSha256 = hash ∧
          ∀ other ∈ rest, other.tokenSha256 ≠ hash) := by
  constructor
  · rintro ⟨before, after, hList, hHash, hAfter⟩
    cases before with
    | nil =>
        rw [List.nil_append, List.cons.injEq] at hList
        rcases hList with ⟨rfl, rfl⟩
        exact .inr ⟨rfl, hHash, hAfter⟩
    | cons other before =>
        rw [List.cons_append, List.cons.injEq] at hList
        exact .inl ⟨before, after, hList.2, hHash, hAfter⟩
  · rintro (⟨before, after, rfl, hHash, hAfter⟩ |
      ⟨rfl, hHash, hAfter⟩)
    · exact ⟨first :: before, after, rfl, hHash, hAfter⟩
    · exact ⟨[], rest, rfl, hHash, hAfter⟩

/- The loop keeps the last match, or what it started with. -/
theorem lastMatch_eq_some_iff
    {hash : Str}
    {matched : Option TokenPolicy}
    {policies : List TokenPolicy}
    {policy : TokenPolicy} :
    lastMatch hash matched policies = some policy ↔
      IsLast hash policies policy ∨
        (matched = some policy ∧
          ∀ other ∈ policies, other.tokenSha256 ≠ hash) := by
  induction policies generalizing matched with
  | nil =>
      constructor
      · intro hMatched
        exact .inr ⟨hMatched, nofun⟩
      · rintro (⟨before, after, hList, -⟩ | ⟨hMatched, -⟩)
        · simp at hList
        · exact hMatched
  | cons first rest ih =>
      unfold lastMatch
      rw [isLast_cons_iff, List.forall_mem_cons]
      by_cases hFirst : first.tokenSha256 = hash
      · rw [if_pos hFirst, ih, Option.some.injEq]
        constructor
        · rintro (hLast | ⟨hSame, hNone⟩)
          · exact .inl (.inl hLast)
          · exact .inl (.inr ⟨hSame, hFirst, hNone⟩)
        · rintro ((hLast | ⟨hSame, -, hNone⟩) | ⟨-, hOther, -⟩)
          · exact .inl hLast
          · exact .inr ⟨hSame, hNone⟩
          · exact absurd hFirst hOther
      · rw [if_neg hFirst, ih]
        constructor
        · rintro (hLast | ⟨hMatched, hNone⟩)
          · exact .inl (.inl hLast)
          · exact .inr ⟨hMatched, hFirst, hNone⟩
        · rintro ((hLast | ⟨-, hHash, -⟩) | ⟨hMatched, -, hNone⟩)
          · exact .inl hLast
          · exact absurd hHash hFirst
          · exact .inr ⟨hMatched, hNone⟩

theorem lastMatch_none_iff
    {hash : Str}
    {policies : List TokenPolicy}
    {policy : TokenPolicy} :
    lastMatch hash none policies = some policy ↔
      IsLast hash policies policy := by
  rw [lastMatch_eq_some_iff]
  constructor
  · rintro (hLast | ⟨hNone, -⟩)
    · exact hLast
    · cases hNone
  · exact .inl

/- Policies with other hashes do not matter at the end. -/
theorem lastMatch_append
    {hash : Str}
    {matched : Option TokenPolicy}
    {policies more : List TokenPolicy}
    (hMore : ∀ other ∈ more, other.tokenSha256 ≠ hash) :
    lastMatch hash matched (policies ++ more) =
      lastMatch hash matched policies := by
  induction policies generalizing matched with
  | nil =>
      rw [List.nil_append, lastMatch]
      induction more with
      | nil => rfl
      | cons first rest ih =>
          rw [List.forall_mem_cons] at hMore
          rw [lastMatch, if_neg hMore.1]
          exact ih hMore.2
  | cons first rest ih =>
      rw [List.cons_append, lastMatch, lastMatch]
      split
      · exact ih
      · exact ih

end MailgunRelay

------------------------------------------------------------
-- Credentials
------------------------------------------------------------

namespace MailgunRelay

/-
  The strict engine reads just canonically padded text of the
  standard alphabet, whatever its trailing bits are.
-/
structure StrictLaws [Base64] : Prop where
  strict :
    ∀ text bytes,
      Base64.decodeStrict text = some bytes ↔
        Lib.Base64.Encodes text bytes

/- A header with the credentials of the user `api`. -/
def Supplies (header : Bytes) (password : Str) : Prop :=
  ∃ encoded,
    latin1 header = "Basic ".toList ++ encoded ∧
    Lib.Base64.Encodes (pyStrip encoded)
      (utf8 ("api:".toList ++ password))

/- A password as the policies hold it. -/
def tokenHash [Sha256] (password : Str) : Str :=
  hexLower (Sha256.digest (utf8 password))

theorem stripPrefix_eq_some_iff
    {lead text rest : Str} :
    stripPrefix lead text = some rest ↔ text = lead ++ rest := by
  unfold stripPrefix
  constructor
  · intro hStrip
    split at hStrip
    · rename_i hPrefix
      cases hStrip
      rcases List.isPrefixOf_iff_prefix.mp hPrefix with
        ⟨rest, rfl⟩
      rw [List.drop_left]
    · cases hStrip
  · rintro rfl
    rw [if_pos (List.isPrefixOf_iff_prefix.mpr
      (List.prefix_append _ _)), List.drop_left]

/- The text of a user and a password, cut at the colon. -/
theorem splitOnce_credentials
    {decoded username password : Str}
    (hUser : ':' ∉ username) :
    Lib.Text.splitOnce ':' decoded = some (username, password) ↔
      decoded = username ++ ':' :: password := by
  rw [Lib.Text.splitOnce_eq_some_iff]
  exact ⟨fun h => h.1, fun h => ⟨h, hUser⟩⟩

variable [Base64] [Sha256]

/-
  A header authenticates if it supplies a password, as the
  last policy with the hash of the password.
-/
theorem authenticate_eq_some_iff
    (hStrict : StrictLaws)
    {authorization : Option Bytes}
    {policies : List TokenPolicy}
    {policy : TokenPolicy} :
    authenticate authorization policies = some policy ↔
      ∃ header password,
        authorization = some header ∧
        Supplies header password ∧
        IsLast (tokenHash password) policies policy := by
  unfold authenticate
  simp only [Option.bind_eq_bind, Option.bind_eq_some_iff,
    Option.map_eq_some_iff, stripPrefix_eq_some_iff,
    hStrict.strict, fromUtf8_eq_some_iff]
  constructor
  · rintro ⟨_, ⟨header, rfl, rfl⟩, encoded, hScheme, bytes,
      hBytes, decoded, rfl, ⟨username, password⟩, hSplit, hMatch⟩
    split at hMatch
    · rename_i found hFound
      split at hMatch
      · rename_i hUser
        simp only at hUser
        cases hMatch
        subst hUser
        rw [splitOnce_credentials (by decide)] at hSplit
        refine ⟨header, password, rfl, ⟨encoded, hScheme, ?_⟩, ?_⟩
        · rw [hSplit] at hBytes
          exact hBytes
        · exact lastMatch_none_iff.mp hFound
      · cases hMatch
    · cases hMatch
  · rintro ⟨header, password, rfl, ⟨encoded, hScheme, hBytes⟩,
      hLast⟩
    refine
      ⟨_, ⟨header, rfl, rfl⟩, encoded, hScheme, _, hBytes, _,
        rfl, ("api".toList, password), ?_, ?_⟩
    · exact (splitOnce_credentials (by decide)).mpr rfl
    · have hFound :
          lastMatch (tokenHash password) none policies =
            some policy :=
        lastMatch_none_iff.mpr hLast
      unfold tokenHash at hFound
      simp only [hFound, if_true]

/- Policies with other hashes do not change the result. -/
theorem authenticate_append
    (hStrict : StrictLaws)
    {authorization : Option Bytes}
    {policies more : List TokenPolicy}
    (hMore :
      ∀ header password,
        authorization = some header →
        Supplies header password →
        ∀ other ∈ more,
          other.tokenSha256 ≠ tokenHash password) :
    authenticate authorization (policies ++ more) =
      authenticate authorization policies := by
  apply Option.ext
  intro policy
  rw [authenticate_eq_some_iff hStrict,
    authenticate_eq_some_iff hStrict]
  constructor
  · rintro ⟨header, password, hHeader, hSupplies, hLast⟩
    refine ⟨header, password, hHeader, hSupplies, ?_⟩
    rw [← lastMatch_none_iff] at hLast ⊢
    rwa [lastMatch_append
      (hMore header password hHeader hSupplies)] at hLast
  · rintro ⟨header, password, hHeader, hSupplies, hLast⟩
    refine ⟨header, password, hHeader, hSupplies, ?_⟩
    rw [← lastMatch_none_iff] at hLast ⊢
    rwa [lastMatch_append
      (hMore header password hHeader hSupplies)]

end MailgunRelay
