import MailgunRelay.Auth.Credentials
import MailgunRelay.Mime.Split
import MailgunRelay.Python.Errors

/-
  Authentication of the Python relay (`auth.py`), and that
  it selects the policy the Rust relay selects.

  Key definitions include:
    * `MailgunRelay.Python.a2bBase64`
    * `MailgunRelay.Python.authenticate`
    * `MailgunRelay.Python.SameChoice`

  Key theorems include:
    * `MailgunRelay.Python.a2bBase64_eq_some_iff`
    * `MailgunRelay.Python.authenticate_sameChoice`
    * `MailgunRelay.Python.authenticate_spec`
-/

------------------------------------------------------------
-- Strict Base64
------------------------------------------------------------

namespace MailgunRelay

namespace Python

/-
  `binascii.a2b_base64` in strict mode: the digits read of
  the quad, the bits left of the last one, the padding read
  for the quad, and whether any padding was read.
-/
def a2bBase64 : Nat → Nat → Nat → Bool → Str → Option Bytes
| quad, _, _, _, [] => if quad = 0 then some [] else none
| quad, left, pads, padded, c :: rest =>
    if c = '=' then
      if quad = 0 then
        none
      else if 2 ≤ quad ∧ 4 ≤ quad + (pads + 1) then
        if rest.isEmpty then some [] else none
      else
        a2bBase64 quad left
          (if 2 ≤ quad then pads + 1 else pads) true rest
    else
      match Lib.Base64.value c with
      | none => none
      | some x =>
          if padded then
            none
          else
            match quad with
            | 0 => a2bBase64 1 x 0 padded rest
            | 1 =>
                (a2bBase64 2 (x % 16) 0 padded rest).map
                  (UInt8.ofNat (left * 4 + x / 16) :: ·)
            | 2 =>
                (a2bBase64 3 (x % 4) 0 padded rest).map
                  (UInt8.ofNat (left * 16 + x / 4) :: ·)
            | _ =>
                (a2bBase64 0 0 0 padded rest).map
                  (UInt8.ofNat (left * 64 + x) :: ·)

/- `base64.b64decode(validate=True)` of a string. -/
def b64decode (encoded : Str) : Option Bytes :=
  if encoded.all isAsciiChar then
    a2bBase64 0 0 0 false encoded
  else
    none

/- The text ends inside a quad. -/
theorem a2bBase64_nil
    {quad left pads : Nat}
    {padded : Bool} :
    a2bBase64 (quad + 1) left pads padded [] = none :=
  rfl

/- One character of the text. -/
theorem a2bBase64_cons
    {quad left pads : Nat}
    {padded : Bool}
    {c : Char}
    {rest : Str} :
    a2bBase64 quad left pads padded (c :: rest) =
      if c = '=' then
        if quad = 0 then
          none
        else if 2 ≤ quad ∧ 4 ≤ quad + (pads + 1) then
          if rest.isEmpty then some [] else none
        else
          a2bBase64 quad left
            (if 2 ≤ quad then pads + 1 else pads) true rest
      else
        match Lib.Base64.value c with
        | none => none
        | some x =>
            if padded then
              none
            else
              match quad with
              | 0 => a2bBase64 1 x 0 padded rest
              | 1 =>
                  (a2bBase64 2 (x % 16) 0 padded rest).map
                    (UInt8.ofNat (left * 4 + x / 16) :: ·)
              | 2 =>
                  (a2bBase64 3 (x % 4) 0 padded rest).map
                    (UInt8.ofNat (left * 16 + x / 4) :: ·)
              | _ =>
                  (a2bBase64 0 0 0 padded rest).map
                    (UInt8.ofNat (left * 64 + x) :: ·) :=
  rfl

/- Padding after one digit never ends well. -/
theorem a2bBase64_padded_one
    {left : Nat}
    {text : Str} :
    a2bBase64 1 left 0 true text = none := by
  induction text with
  | nil => rfl
  | cons c rest ih =>
      rw [a2bBase64_cons]
      by_cases hPad : c = '='
      · simpa [hPad] using ih
      · cases Lib.Base64.value c <;> simp [hPad]

/- After two digits and a pad comes just one more pad. -/
theorem a2bBase64_padded_two
    {left : Nat}
    {text : Str} :
    a2bBase64 2 left 1 true text =
      if text = ['='] then some [] else none := by
  cases text with
  | nil => rfl
  | cons c rest =>
      rw [a2bBase64_cons]
      by_cases hPad : c = '='
      · cases rest <;> simp [hPad]
      · cases Lib.Base64.value c <;> simp [hPad]

/- The first digit of a quad. -/
theorem a2bBase64_zero
    {left pads : Nat}
    {c : Char}
    {rest : Str} :
    a2bBase64 0 left pads false (c :: rest) =
      (Lib.Base64.value c).bind fun x =>
        a2bBase64 1 x 0 false rest := by
  rw [a2bBase64_cons]
  by_cases hPad : c = '='
  · simp [hPad]
  · cases Lib.Base64.value c <;> simp [hPad]

/- The second digit gives a byte. -/
theorem a2bBase64_one
    {left : Nat}
    {c : Char}
    {rest : Str} :
    a2bBase64 1 left 0 false (c :: rest) =
      (Lib.Base64.value c).bind fun x =>
        (a2bBase64 2 (x % 16) 0 false rest).map
          (UInt8.ofNat (left * 4 + x / 16) :: ·) := by
  rw [a2bBase64_cons]
  by_cases hPad : c = '='
  · simp [hPad, a2bBase64_padded_one]
  · cases Lib.Base64.value c <;> simp [hPad]

/- The third digit, or a pad that another one follows. -/
theorem a2bBase64_two
    {left : Nat}
    {c : Char}
    {rest : Str} :
    a2bBase64 2 left 0 false (c :: rest) =
      if c = '=' then
        if rest = ['='] then some [] else none
      else
        (Lib.Base64.value c).bind fun x =>
          (a2bBase64 3 (x % 4) 0 false rest).map
            (UInt8.ofNat (left * 16 + x / 4) :: ·) := by
  rw [a2bBase64_cons]
  by_cases hPad : c = '='
  · simp [hPad, a2bBase64_padded_two]
  · cases Lib.Base64.value c <;> simp [hPad]

/- The fourth digit, or a pad at the end. -/
theorem a2bBase64_three
    {left : Nat}
    {c : Char}
    {rest : Str} :
    a2bBase64 3 left 0 false (c :: rest) =
      if c = '=' then
        if rest = [] then some [] else none
      else
        (Lib.Base64.value c).bind fun x =>
          (a2bBase64 0 0 0 false rest).map
            (UInt8.ofNat (left * 64 + x) :: ·) := by
  rw [a2bBase64_cons]
  by_cases hPad : c = '='
  · simp [hPad]
  · cases Lib.Base64.value c <;> simp [hPad]

/- The decoder reads just the text of some bytes. -/
theorem a2bBase64_eq_some_iff
    (text : Str)
    (bytes : Bytes) :
    a2bBase64 0 0 0 false text = some bytes ↔
      Lib.Base64.Encodes text bytes := by
  match text with
  | [] =>
      rw [Lib.Base64.encodes_nil_iff]
      simp [a2bBase64, eq_comm]
  | [c] | [c, d] | [c, d, e] =>
      constructor
      · intro hText
        simp [a2bBase64_zero, a2bBase64_one, a2bBase64_two,
          a2bBase64_nil] at hText
      · intro hEncodes
        cases hEncodes.length_mod
  | c :: d :: e :: f :: text =>
      simp only [a2bBase64_zero, a2bBase64_one, a2bBase64_two,
        a2bBase64_three]
      by_cases hE : e = '='
      · subst hE
        by_cases hLast : f :: text = ['=']
        · cases hLast
          rw [Lib.Base64.encodes_pad_iff]
          simp [Option.bind_eq_some_iff, @eq_comm _ _ bytes]
        · rw [Lib.Base64.encodes_quad_iff]
          · simp [hLast]
          · by_contra hNot
            rw [not_or, not_not, not_not] at hNot
            exact hLast (by rw [hNot.1, hNot.2])
      by_cases hF : f = '='
      · subst hF
        by_cases hText : text = []
        · subst hText
          rw [Lib.Base64.encodes_pad_iff]
          simp [hE, Option.bind_eq_some_iff,
            @eq_comm _ _ bytes]
        · rw [Lib.Base64.encodes_quad_iff (.inl hText)]
          simp [hE, hText]
      · rw [Lib.Base64.encodes_quad_iff (.inr hF)]
        simp [hE, hF, Option.bind_eq_some_iff,
          Option.map_eq_some_iff, a2bBase64_eq_some_iff text,
          @eq_comm _ _ bytes]
termination_by text.length

/- The alphabet and the padding are ASCII. -/
theorem isAscii_of_encodes
    {text : Str}
    {bytes : Bytes}
    (hEncodes : Lib.Base64.Encodes text bytes)
    {c : Char}
    (hMem : c ∈ text) :
    isAsciiChar c = true := by
  have hDigit {d : Char} {n : Nat}
      (hValue : Lib.Base64.value d = some n) :
      isAsciiChar d = true := by
    have hAll :
        Lib.Base64.alphabet.all isAsciiChar = true := by
      decide +kernel
    rcases List.idxOf?_eq_some_iff.mp hValue with
      ⟨hLess, rfl, -⟩
    exact List.all_eq_true.mp hAll _ (List.getElem_mem hLess)
  induction hEncodes with
  | nil => cases hMem
  | one hC hD =>
      simp only [List.mem_cons, List.not_mem_nil,
        or_false] at hMem
      rcases hMem with rfl | rfl | rfl | rfl
      · exact hDigit hC
      · exact hDigit hD
      · decide
      · decide
  | two hC hD hE =>
      simp only [List.mem_cons, List.not_mem_nil,
        or_false] at hMem
      rcases hMem with rfl | rfl | rfl | rfl
      · exact hDigit hC
      · exact hDigit hD
      · exact hDigit hE
      · decide
  | quad hC hD hE hF _ _ _ _ ih =>
      simp only [List.mem_cons] at hMem
      rcases hMem with rfl | rfl | rfl | rfl | hMem
      · exact hDigit hC
      · exact hDigit hD
      · exact hDigit hE
      · exact hDigit hF
      · exact ih hMem

theorem b64decode_eq_some_iff
    (text : Str)
    (bytes : Bytes) :
    b64decode text = some bytes ↔
      Lib.Base64.Encodes text bytes := by
  rw [← a2bBase64_eq_some_iff]
  unfold b64decode
  constructor
  · intro hText
    split at hText
    · exact hText
    · cases hText
  · intro hText
    rw [if_pos]
    · exact hText
    · rw [List.all_eq_true]
      intro c hMem
      exact isAscii_of_encodes
        ((a2bBase64_eq_some_iff _ _).mp hText) hMem

end Python

end MailgunRelay

------------------------------------------------------------
-- Authentication
------------------------------------------------------------

namespace MailgunRelay

namespace Python

/- `AuthError`. -/
def authError (message : String) : Exc :=
  Exc.plain .authError "AuthError".toList message.toList

/- What `compare_digest` raises for text beyond ASCII. -/
def typeError : Exc :=
  Exc.plain .exception "TypeError".toList
    ("comparing strings with non-ASCII characters is not " ++
      "supported").toList

/- `hmac.compare_digest` of strings. -/
def compareDigest (a b : Str) : Except Exc Bool :=
  if a.all isAsciiChar && b.all isAsciiChar then
    .ok (a == b)
  else
    .error typeError

/- The loop over the policies. -/
def matchPolicies
    (digest : Str)
    (matched : Option TokenPolicy) :
    List TokenPolicy → Except Exc (Option TokenPolicy)
| [] => .ok matched
| policy :: rest => do
    if ← compareDigest policy.tokenSha256 digest then
      matchPolicies digest (some policy) rest
    else
      matchPolicies digest matched rest

variable [Sha256]

/- `authenticate`. -/
def authenticate
    (authorization : Option Str)
    (policies : List TokenPolicy) : Except Exc TokenPolicy :=
  let header := authorization.getD []
  if header.isEmpty || !"Basic ".toList.isPrefixOf header then
    .error
      (authError "missing or unsupported Authorization scheme")
  else
    let encoded := pyStrip (header.drop "Basic ".length)
    match (b64decode encoded).bind fromUtf8 with
    | none => .error (authError "malformed Basic credentials")
    | some decoded =>
        if !decoded.contains ':' then
          .error (authError "malformed Basic credentials")
        else do
          let (username, password) :=
            (Lib.Text.splitOnce ':' decoded).getD (decoded, [])
          let usernameOk := utf8 username == utf8 "api".toList
          let suppliedDigest :=
            hexLower (Sha256.digest (utf8 password))
          match ← matchPolicies suppliedDigest none policies with
          | none => .error (authError "invalid credentials")
          | some matched =>
              if usernameOk then
                .ok matched
              else
                .error (authError "invalid credentials")

/-
  The same policy, or both fail.  The comparison of Python
  also fails on a hash that is not ASCII, which the loader
  does not accept.
-/
def SameChoice
    (policies : List TokenPolicy)
    (choice : Option TokenPolicy) :
    Except Exc TokenPolicy → Prop
| .ok policy => choice = some policy
| .error exc =>
    (exc.cls = .authError ∧ choice = none) ∨
      (exc = typeError ∧
        ∃ policy ∈ policies,
          policy.tokenSha256.all isAsciiChar = false)

omit [Sha256] in
theorem hexLower_ascii
    (bytes : Bytes) :
    (hexLower bytes).all isAsciiChar = true := by
  have hDigit :
      (List.range 16).all (fun n => isAsciiChar (hexDigit n)) =
        true := by
    decide +kernel
  rw [List.all_eq_true] at hDigit ⊢
  intro c hMem
  rcases List.mem_flatMap.mp hMem with ⟨b, -, hMem⟩
  have hByte := b.toNat_lt
  simp only [List.mem_cons, List.not_mem_nil,
    or_false] at hMem
  rcases hMem with rfl | rfl
  · exact hDigit _ (List.mem_range.mpr (by omega))
  · exact hDigit _ (List.mem_range.mpr (by omega))

omit [Sha256] in
/- The loop is the one of the relay, or a comparison fails. -/
theorem matchPolicies_eq
    {digest : Str}
    {matched : Option TokenPolicy}
    {policies : List TokenPolicy}
    (hDigest : digest.all isAsciiChar = true) :
    matchPolicies digest matched policies =
        .ok (lastMatch digest matched policies) ∨
      (matchPolicies digest matched policies =
          .error typeError ∧
        ∃ policy ∈ policies,
          policy.tokenSha256.all isAsciiChar = false) := by
  induction policies generalizing matched with
  | nil => exact .inl rfl
  | cons policy rest ih =>
      unfold matchPolicies lastMatch compareDigest
      rw [hDigest, Bool.and_true]
      cases hAscii : policy.tokenSha256.all isAsciiChar with
      | false =>
          right
          exact ⟨rfl, policy, List.mem_cons_self, hAscii⟩
      | true =>
          have hLater {next : Option TokenPolicy} :
              matchPolicies digest next rest =
                  .ok (lastMatch digest next rest) ∨
                (matchPolicies digest next rest =
                    .error typeError ∧
                  ∃ other ∈ policy :: rest,
                    other.tokenSha256.all isAsciiChar =
                      false) := by
            rcases @ih next with hSame | ⟨hError, other, hMem, hNot⟩
            · exact .inl hSame
            · exact
                .inr
                  ⟨hError, other, List.mem_cons_of_mem _ hMem,
                    hNot⟩
          simp only [if_true, Lib.ok_bind, beq_iff_eq]
          split
          · exact hLater
          · exact hLater

/- The same policy for the same decoded credentials. -/
theorem sameChoice_decoded
    (decoded : Str)
    (policies : List TokenPolicy) :
    SameChoice policies
      ((Lib.Text.splitOnce ':' decoded).bind fun credentials =>
        match lastMatch
          (hexLower (Sha256.digest (utf8 credentials.2)))
          none policies with
        | some policy =>
            if credentials.1 = "api".toList then
              some policy
            else
              none
        | none => none)
      (if !decoded.contains ':' then
        .error (authError "malformed Basic credentials")
      else do
        let (username, password) :=
          (Lib.Text.splitOnce ':' decoded).getD (decoded, [])
        let usernameOk := utf8 username == utf8 "api".toList
        let suppliedDigest :=
          hexLower (Sha256.digest (utf8 password))
        match ← matchPolicies suppliedDigest none policies with
        | none => .error (authError "invalid credentials")
        | some matched =>
            if usernameOk then
              .ok matched
            else
              .error (authError "invalid credentials")) := by
  cases hSplit : Lib.Text.splitOnce ':' decoded with
  | none =>
      have hNot : ':' ∉ decoded :=
        (Lib.Text.splitOnce_eq_none_iff ':' decoded).mp hSplit
      have hContains : decoded.contains ':' = false := by
        simpa using hNot
      rw [hContains, Option.bind_none]
      exact .inl ⟨rfl, rfl⟩
  | some credentials =>
      rcases credentials with ⟨username, password⟩
      have hText :=
        ((Lib.Text.splitOnce_eq_some_iff _ _ _ _).mp hSplit).1
      have hContains : decoded.contains ':' = true := by
        rw [hText]
        simp
      have hUser :
          (utf8 username == utf8 "api".toList) =
            decide (username = "api".toList) := by
        by_cases hName : username = "api".toList
        · rw [hName, beq_self_eq_true, decide_eq_true rfl]
        · rw [decide_eq_false hName, beq_eq_false_iff_ne]
          intro hBytes
          apply hName
          have hDecoded := fromUtf8_utf8 username
          rw [hBytes, fromUtf8_utf8] at hDecoded
          exact (Option.some.inj hDecoded).symm
      rw [hContains, Bool.not_true, if_neg Bool.false_ne_true,
        Option.bind_some, Option.getD_some]
      simp only [hUser]
      generalize hDigest :
        hexLower (Sha256.digest (utf8 password)) = digest
      have hAscii : digest.all isAsciiChar = true := by
        rw [← hDigest]
        exact hexLower_ascii _
      rcases @matchPolicies_eq digest none policies hAscii with
        hSame | ⟨hError, hOther⟩
      · rw [hSame, Lib.ok_bind]
        cases lastMatch digest none policies with
        | none => exact .inl ⟨rfl, rfl⟩
        | some policy =>
            simp only [decide_eq_true_eq]
            split
            · exact rfl
            · exact .inl ⟨rfl, rfl⟩
      · rw [hError, Lib.error_bind]
        exact .inr ⟨rfl, hOther⟩

variable [Base64]

/- The same policy for the same header. -/
theorem authenticate_sameChoice
    (hStrict : StrictLaws)
    (authorization : Option Bytes)
    (policies : List TokenPolicy) :
    SameChoice policies
      (MailgunRelay.authenticate authorization policies)
      (authenticate (authorization.map latin1) policies) := by
  have hDecode (text : Str) :
      b64decode text = Base64.decodeStrict text := by
    apply Option.ext
    intro bytes
    rw [b64decode_eq_some_iff, hStrict.strict]
  cases authorization with
  | none => exact .inl ⟨rfl, rfl⟩
  | some bytes =>
      unfold authenticate MailgunRelay.authenticate stripPrefix
      simp only [Option.map_some, Option.getD_some, hDecode,
        Option.bind_eq_bind, Option.bind_some]
      generalize latin1 bytes = header
      by_cases hScheme : "Basic ".toList.isPrefixOf header = true
      · have hSome : header.isEmpty = false := by
          cases header with
          | nil => cases hScheme
          | cons c rest => rfl
        rw [hSome, hScheme, Bool.not_true, Bool.or_self,
          if_neg Bool.false_ne_true, if_pos rfl,
          Option.bind_some]
        change SameChoice policies
          ((Base64.decodeStrict (pyStrip (header.drop 6))).bind _)
          (match (Base64.decodeStrict
            (pyStrip (header.drop 6))).bind fromUtf8 with
            | none => _
            | some decoded => _)
        cases Base64.decodeStrict (pyStrip (header.drop 6)) with
        | none => exact .inl ⟨rfl, rfl⟩
        | some bytes =>
            simp only [Option.bind_some]
            cases fromUtf8 bytes with
            | none => exact .inl ⟨rfl, rfl⟩
            | some decoded =>
                simp only [Option.bind_some]
                exact sameChoice_decoded decoded policies
      · rw [Bool.not_eq_true] at hScheme
        rw [hScheme, Bool.not_false, Bool.or_true, if_pos rfl,
          if_neg Bool.false_ne_true, Option.bind_none]
        exact .inl ⟨rfl, rfl⟩

/- The SHA-256 digest of the empty text. -/
def emptyDigest : Bytes :=
  [0xe3, 0xb0, 0xc4, 0x42, 0x98, 0xfc, 0x1c, 0x14,
    0x9a, 0xfb, 0xf4, 0xc8, 0x99, 0x6f, 0xb9, 0x24,
    0x27, 0xae, 0x41, 0xe4, 0x64, 0x9b, 0x93, 0x4c,
    0xa4, 0x95, 0x99, 0x1b, 0x78, 0x52, 0xb8, 0x55]

/-
  Authentication accepts just the configured tokens: the
  header supplies a password of the user `api`, and the
  policy is the last one with its hash.  Policies with other
  hashes do not matter, and the Python relay makes the same
  choice.
-/
theorem authenticate_spec
    (hStrict : StrictLaws)
    (authorization : Option Bytes)
    (policies : List TokenPolicy) :
    (∀ policy,
      MailgunRelay.authenticate authorization policies =
          some policy ↔
        ∃ header password,
          authorization = some header ∧
          Supplies header password ∧
          IsLast (tokenHash password) policies policy) ∧
    (∀ more,
      (∀ header password,
        authorization = some header →
        Supplies header password →
        ∀ other ∈ more,
          other.tokenSha256 ≠ tokenHash password) →
      MailgunRelay.authenticate authorization
          (policies ++ more) =
        MailgunRelay.authenticate authorization policies) ∧
    SameChoice policies
      (MailgunRelay.authenticate authorization policies)
      (authenticate (authorization.map latin1) policies) :=
  ⟨fun _ => authenticate_eq_some_iff hStrict,
    fun _ => authenticate_append hStrict,
    authenticate_sameChoice hStrict authorization policies⟩

/- A policy with the hash of the empty password. -/
def emptyPolicy : TokenPolicy :=
  { label := "empty".toList
    tokenSha256 := hexLower emptyDigest
    mailgunDomains := {"example.org".toList}
    allowedFromDomains := {"example.org".toList}
    allowedFromAddresses := none }

omit [Sha256] [Base64] in
/- The empty password, in a header with trailing bits. -/
theorem authenticate_spec_empty :
    let _ : Base64 := .standard
    let _ : Sha256 := { digest := fun _ => emptyDigest }
    ∃ header password,
      some (utf8 "Basic YXBpOh==".toList) = some header ∧
      Supplies header password ∧
      IsLast (tokenHash password) [emptyPolicy]
        emptyPolicy := by
  intro _ _
  apply
    ((authenticate_spec
      ⟨Lib.Base64.decodePadded_eq_some_iff⟩
      (some (utf8 "Basic YXBpOh==".toList))
      [emptyPolicy]).1 emptyPolicy).mp
  have hOk :
      (MailgunRelay.authenticate
        (some (utf8 "Basic YXBpOh==".toList))
        [emptyPolicy]).isSome = true := by
    decide +kernel
  rcases Option.isSome_iff_exists.mp hOk with ⟨policy, hPolicy⟩
  rw [hPolicy,
    List.mem_singleton.mp (mem_of_authenticate hPolicy)]

end Python

end MailgunRelay
