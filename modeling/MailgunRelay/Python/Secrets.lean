import MailgunRelay.Secrets
import MailgunRelay.Python.Errors

/-
  The secrets file as Python loads it (`config.py`), beside
  `secrets.rs`.

  Key definitions include:
    * `MailgunRelay.Python.Document`
    * `MailgunRelay.Python.loadPolicyEntry`
    * `MailgunRelay.Python.loadSecrets`
-/

------------------------------------------------------------
-- Documents
------------------------------------------------------------

namespace MailgunRelay

namespace Python

/-
  What `yaml.safe_load` returns; only string keys can be
  looked up, and of a key of another type nothing is kept.
-/
inductive Document where
  | str (value : Str)
  | none
  | bool (value : Bool)
  | int (value : Int)
  | other (name : Str)
  | list (items : List Document)
  | dict (entries : List (Option Str × Document))

/- `dict.get`; a key assigned twice has its last value. -/
def Document.get (key : Str) : Document → Option Document
| .dict entries =>
    (entries.reverse.find? fun entry =>
      entry.1 == some key).map Prod.snd
| _ => .none

/- `isinstance(raw, dict)`. -/
def Document.isDict : Document → Bool
| .dict _ => true
| _ => false

/- `isinstance(raw, int)`, where a bool is an int. -/
def Document.asInt : Document → Option Int
| .bool value => some (if value then 1 else 0)
| .int value => some value
| _ => .none

mutual

/- The node `yaml.rs` keeps of a value. -/
def Document.node : Document → Secrets.Node
| .str value => .str value
| .none => .null
| .bool _ => .other "bool".toList
| .int _ => .other "int".toList
| .other name => .other name
| .list items => .seq (itemNodes items)
| .dict entries => .map (entryNodes entries)

def itemNodes : List Document → List Secrets.Node
| [] => []
| item :: rest => item.node :: itemNodes rest

def entryNodes :
    List (Option Str × Document) →
      List (Option Str × Secrets.Node)
| [] => []
| (key, value) :: rest => (key, value.node) :: entryNodes rest

end

/- `InvalidPolicyError`, a `ValueError`. -/
def invalidPolicyError (text : Str) : Exc :=
  Exc.plain .valueError "InvalidPolicyError".toList text

def invalidAddressError (text : Str) : Exc :=
  Exc.plain .invalidAddressError "InvalidAddressError".toList
    text

end Python

end MailgunRelay

------------------------------------------------------------
-- Fields
------------------------------------------------------------

namespace MailgunRelay

namespace Python

open Secrets (forbiddenValues)

/- `idna.encode` with `uts46=True`, as ASCII text. -/
class IdnaPackage where
  encode : Str → Option Str

/- `_reject_changeme`. -/
def rejectChangeme
    (fieldName value : Str) : Except Exc Unit :=
  if forbiddenValues.contains value then
    .error
      (invalidPolicyError
        (fieldName ++
          ": refuses placeholder/empty value".toList))
  else
    .ok ()

/- A string that is not blank. -/
def nonEmptyString
    (raw : Option Document)
    (text : Str) : Except Exc Str :=
  match raw with
  | some (.str value) =>
      if (pyStrip value).isEmpty then
        .error (invalidPolicyError text)
      else
        .ok value
  | _ => .error (invalidPolicyError text)

/- A field of a token, as the errors name it. -/
def tokenField (label : Str) (key : String) : Str :=
  "token[".toList ++ label ++ "].".toList ++ key.toList

/-
  The set of the items of a list, each a string and
  normalised, with those before them.
-/
def addItems
    (normalize : Str → Except Exc Str)
    (fieldName : Str)
    (normalized : Finset Str) :
    List Document → Except Exc (Finset Str)
| [] => .ok normalized
| item :: rest => do
    let value ←
      nonEmptyString (some item)
        (fieldName ++
          ": entries must be non-empty strings".toList)
    let normal ← normalize value
    addItems normalize fieldName (insert normal normalized) rest

variable [Unicode]

/- `normalize_domain`. -/
def normalizeDomain
    [Repr]
    [IdnaPackage]
    (value : Str) : Except Exc Str :=
  let stripped := lowercase (pyStrip value)
  if stripped.isEmpty then
    .error (invalidAddressError "empty domain".toList)
  else
    match IdnaPackage.encode stripped with
    | some encoded => .ok (lowercase encoded)
    | none =>
        .error
          (invalidAddressError
            ("invalid domain: ".toList ++ Repr.repr value))

/- `normalize_address`. -/
def normalizeAddress
    [Repr]
    [IdnaPackage]
    (value : Str) : Except Exc Str :=
  match Lib.Text.rsplitOnce '@' (pyStrip value) with
  | none =>
      .error
        (invalidAddressError
          ("address missing '@': ".toList ++ Repr.repr value))
  | some (name, domain) =>
      if name.isEmpty then
        .error
          (invalidAddressError
            ("address missing local part: ".toList ++
              Repr.repr value))
      else do
        let normal ← normalizeDomain domain
        .ok (lowercase name ++ '@' :: normal)

/- `_coerce_domain_set`. -/
def coerceDomainSet
    [Repr]
    [IdnaPackage]
    (fieldName : Str)
    (raw : Option Document) : Except Exc (Finset Str) :=
  match raw with
  | some (.list (item :: items)) =>
      addItems normalizeDomain fieldName ∅ (item :: items)
  | _ =>
      .error
        (invalidPolicyError
          (fieldName ++ " must be a non-empty list".toList))

/- `_coerce_optional_address_set`. -/
def coerceOptionalAddressSet
    [Repr]
    [IdnaPackage]
    (raw : Option Document) :
    Except Exc (Option (Finset Str)) :=
  match raw with
  | none | some .none => .ok none
  | some (.list []) => .ok none
  | some (.list items) =>
      (addItems normalizeAddress
        "allowed_from_addresses".toList ∅ items).map some
  | some _ =>
      .error
        (invalidPolicyError
          ("allowed_from_addresses must be a list when " ++
            "present").toList)

end Python

end MailgunRelay

------------------------------------------------------------
-- Hashes
------------------------------------------------------------

namespace MailgunRelay

namespace Python

/- `format(value, "064x")`: the width includes the sign. -/
def formatHash (value : Int) : Str :=
  let sign := if value < 0 then ['-'] else []
  let digits := Nat.toDigits 16 value.natAbs
  sign ++
    List.replicate (64 - sign.length - digits.length) '0' ++
    digits

def isHexDigit (c : Char) : Bool :=
  ('0' ≤ c && c ≤ '9') || ('a' ≤ c && c ≤ 'f')

/-
  `_SHA256_HEX_RE.match`: a final newline stands behind `$`.
-/
def matchesHash (value : Str) : Bool :=
  let digits :=
    if value.getLast? = some '\n' then
      value.dropLast
    else
      value
  digits.length == 64 && digits.all isHexDigit

/- `_validate_sha256_hex`. -/
def validateSha256Hex
    [Unicode]
    (value : Str) : Except Exc Str :=
  let value := lowercase (pyStrip value)
  if matchesHash value then
    .ok value
  else
    .error
      (invalidPolicyError
        ("token_sha256 must be 64 lowercase hex chars " ++
          "(sha256)").toList)

/- The written hash; an int was one without its quotes. -/
def hashText
    (label : Str)
    (raw : Option Document) : Except Exc Str :=
  let refused :=
    invalidPolicyError
      (tokenField label "token_sha256" ++
        " must be a hex string".toList)
  match raw with
  | some (.str value) => .ok value
  | some raw =>
      match raw.asInt with
      | some value => .ok (formatHash value)
      | none => .error refused
  | none => .error refused

/- The hash of a token. -/
def loadSha256
    [Unicode]
    (label : Str)
    (raw : Option Document) : Except Exc Str := do
  let sha ← hashText label raw
  rejectChangeme (tokenField label "token_sha256") sha
  validateSha256Hex sha

end Python

end MailgunRelay

------------------------------------------------------------
-- Loading
------------------------------------------------------------

namespace MailgunRelay

namespace Python

open Smtp (SmtpCredentials)

/- A document that must be a mapping. -/
def requireDict
    (raw : Document)
    (text : Str) : Except Exc Unit :=
  if raw.isDict then .ok () else .error (invalidPolicyError text)

/- `_load_smtp`. -/
def loadSmtp
    (raw : Option Document) : Except Exc SmtpCredentials :=
  match raw with
  | some (.dict entries) => do
      let raw := Document.dict entries
      let username ←
        nonEmptyString (raw.get "username".toList)
          "smtp.username must be a non-empty string".toList
      let password ←
        match raw.get "password".toList with
        | some (.str password) => pure password
        | _ =>
            throw
              (invalidPolicyError
                "smtp.password must be a string".toList)
      rejectChangeme "smtp.username".toList username
      rejectChangeme "smtp.password".toList password
      pure { username := username, password := password }
  | _ =>
      .error
        (invalidPolicyError
          "smtp section must be a mapping".toList)

variable [Unicode] [Repr] [IdnaPackage]

/- `_load_policy_entry`. -/
def loadPolicyEntry
    (raw : Document) : Except Exc TokenPolicy := do
  requireDict raw "each token entry must be a mapping".toList
  let label ←
    nonEmptyString (raw.get "label".toList)
      "token.label must be a non-empty string".toList
  rejectChangeme (tokenField label "label") label
  let sha ← loadSha256 label (raw.get "token_sha256".toList)
  let mailgunDomains ←
    coerceDomainSet (tokenField label "mailgun_domains")
      (raw.get "mailgun_domains".toList)
  let allowedFromDomains ←
    coerceDomainSet (tokenField label "allowed_from_domains")
      (raw.get "allowed_from_domains".toList)
  let allowedFromAddresses ←
    coerceOptionalAddressSet
      (raw.get "allowed_from_addresses".toList)
  pure
    { label := label
      tokenSha256 := sha
      mailgunDomains := mailgunDomains
      allowedFromDomains := allowedFromDomains
      allowedFromAddresses := allowedFromAddresses }

/- The loop over the entries, with the labels seen so far. -/
def loadEntries
    (seenLabels : Finset Str)
    (tokens : List TokenPolicy) :
    List Document → Except Exc (List TokenPolicy)
| [] => .ok tokens
| entry :: rest => do
    let policy ← loadPolicyEntry entry
    if policy.label ∈ seenLabels then
      throw
        (invalidPolicyError
          ("duplicate token label: ".toList ++ policy.label))
    else
      loadEntries (insert policy.label seenLabels)
        (tokens ++ [policy]) rest

/- `load_secrets` of a parsed document. -/
def loadSecrets
    (data : Document) :
    Except Exc (SmtpCredentials × List TokenPolicy) := do
  requireDict data
    "secrets file must be a top-level mapping".toList
  let smtp ← loadSmtp (data.get "smtp".toList)
  let entries ←
    match data.get "tokens".toList with
    | some (.list (entry :: entries)) => pure (entry :: entries)
    | _ =>
        throw
          (invalidPolicyError
            "tokens must be a non-empty list".toList)
  let tokens ← loadEntries ∅ [] entries
  pure (smtp, tokens)

end Python

end MailgunRelay
