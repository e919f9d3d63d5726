import MailgunRelay.Lib.Result
import MailgunRelay.Domain
import MailgunRelay.Smtp.Connection

/-
  The secrets file after it was read (`secrets.rs`): the
  SMTP credentials and the token policies.

  A `ConfigError` is its text.  Errors name the field by its
  position, never by a value.

  Key definitions include:
    * `MailgunRelay.Secrets.Node`
    * `MailgunRelay.Secrets.stringList`
    * `MailgunRelay.Secrets.loadPolicy`
    * `MailgunRelay.Secrets.fromNode`
-/

------------------------------------------------------------
-- Nodes
------------------------------------------------------------

namespace MailgunRelay

namespace Secrets

/-
  A YAML node (`yaml.rs`).  A plain scalar of another type
  is never a string; only string keys can be looked up.
-/
inductive Node where
  | str (value : Str)
  | null
  | other (name : Str)
  | seq (items : List Node)
  | map (entries : List (Option Str × Node))

/- `dict.get(key)` on a mapping: the last entry wins. -/
def Node.get (key : Str) : Node → Option Node
| .map entries =>
    (entries.reverse.find? fun entry =>
      entry.1 == some key).map Prod.snd
| _ => none

def Node.typeName : Node → Str
| .str _ => "str".toList
| .null => "null".toList
| .other name => name
| .seq _ => "list".toList
| .map _ => "mapping".toList

def Node.isMap : Node → Bool
| .map _ => true
| _ => false

def asStr : Option Node → Option Str
| some (.str value) => some value
| _ => none

/- A place of a list. -/
def indexed (field : Str) (index : Nat) : Str :=
  field ++ '[' :: (toString index).toList ++ [']']

/- A key of a mapping. -/
def dotted (field : Str) (key : String) : Str :=
  field ++ '.' :: key.toList

end Secrets

end MailgunRelay

------------------------------------------------------------
-- Fields
------------------------------------------------------------

namespace MailgunRelay

namespace Secrets

/- Placeholders that are never a value. -/
def forbiddenValues : List Str :=
  ["CHANGEME", "changeme", "replace-me", ""].map
    String.toList

def rejectPlaceholder
    (field value : Str) : Except Str Unit :=
  if forbiddenValues.contains value then
    .error
      (field ++ ": refuses placeholder/empty value".toList)
  else
    .ok ()

/- A string that is not blank. -/
def nonBlank
    (node : Option Node)
    (message : Str) : Except Str Str :=
  match asStr node with
  | some value =>
      if (pyStrip value).isEmpty then
        .error message
      else
        .ok value
  | none => .error message

/-
  The strings of a list from a position on, each normalised,
  with those before it.
-/
def stringValues
    (normalize : Str → Except Str Str)
    (field : Str)
    (index : Nat)
    (values : Finset Str) :
    List Node → Except Str (Finset Str)
| [] => .ok values
| .str value :: rest =>
    if (pyStrip value).isEmpty then
      .error
        (indexed field index ++
          " must be a non-empty string".toList)
    else
      match normalize value with
      | .error reason =>
          .error (indexed field index ++ ": ".toList ++ reason)
      | .ok normalized =>
          stringValues normalize field (index + 1)
            (insert normalized values) rest
| _ :: _ =>
    .error
      (indexed field index ++
        " must be a non-empty string".toList)

/-
  A list of non-empty strings; `none` when the key is
  missing, no list, or an empty list.
-/
def stringList
    (raw : Node)
    (field : Str)
    (key : String)
    (normalize : Str → Except Str Str) :
    Except Str (Option (Finset Str)) :=
  match raw.get key.toList with
  | some (.seq []) => .ok none
  | some (.seq items) =>
      (stringValues normalize (dotted field key) 0 ∅ items).map
        some
  | _ => .ok none

/- A list that must be there. -/
def requiredList
    (raw : Node)
    (field : Str)
    (key : String)
    (normalize : Str → Except Str Str) :
    Except Str (Finset Str) := do
  match ← stringList raw field key normalize with
  | some values => pure values
  | none =>
      throw
        (dotted field key ++
          " must be a non-empty list".toList)

end Secrets

end MailgunRelay

------------------------------------------------------------
-- Loading
------------------------------------------------------------

namespace MailgunRelay

namespace Secrets

open Smtp (SmtpCredentials)

def loadSmtp
    (raw : Option Node) : Except Str SmtpCredentials :=
  match raw with
  | some (.map entries) => do
      let raw := Node.map entries
      let username ←
        nonBlank (raw.get "username".toList)
          ("smtp.username must be a non-empty " ++
            "string").toList
      let password ←
        match asStr (raw.get "password".toList) with
        | some password => pure password
        | none =>
            throw "smtp.password must be a string".toList
      rejectPlaceholder "smtp.username".toList username
      rejectPlaceholder "smtp.password".toList password
      pure { username := username, password := password }
  | _ => .error "smtp section must be a mapping".toList

/- The characters of a hash. -/
def isHash (sha : Str) : Bool :=
  byteLen sha == 64 && sha.all fun c =>
    ('0' ≤ c && c ≤ '9') || ('a' ≤ c && c ≤ 'f')

variable [Unicode] [Idna]

/- The hash of a token; only a quoted string is one. -/
def loadHash
    (raw : Node)
    (field : Str) : Except Str Str := do
  let sha ←
    match raw.get "token_sha256".toList with
    | some (.str value) => pure value
    | other =>
        throw
          (dotted field "token_sha256" ++
            " must be a quoted hex string, found ".toList ++
            (other.map Node.typeName).getD "nothing".toList ++
            " (PLAN.md D-5)".toList)
  rejectPlaceholder (dotted field "token_sha256") sha
  let sha := lowercase (pyStrip sha)
  if isHash sha then
    pure sha
  else
    throw
      (dotted field "token_sha256" ++
        " must be 64 lowercase hex chars (sha256)".toList)

/- The address list of a token may be absent. -/
def loadAddresses
    (raw : Node)
    (field : Str) : Except Str (Option (Finset Str)) :=
  match raw.get "allowed_from_addresses".toList with
  | none | some .null => .ok none
  | some (.seq _) =>
      stringList raw field "allowed_from_addresses"
        normalizeConfigAddress
  | some _ =>
      .error
        (dotted field "allowed_from_addresses" ++
          " must be a list when present".toList)

def requireMap
    (raw : Node)
    (message : Str) : Except Str Unit :=
  if raw.isMap then .ok () else .error message

def loadPolicy
    (raw : Node)
    (field : Str) : Except Str TokenPolicy := do
  requireMap raw
    (field ++ ": each token entry must be a mapping".toList)
  let label ←
    nonBlank (raw.get "label".toList)
      (dotted field "label" ++
        " must be a non-empty string".toList)
  rejectPlaceholder (dotted field "label") label
  let sha ← loadHash raw field
  let mailgunDomains ←
    requiredList raw field "mailgun_domains"
      normalizeConfigDomain
  let allowedFromDomains ←
    requiredList raw field "allowed_from_domains"
      normalizeConfigDomain
  let allowedFromAddresses ← loadAddresses raw field
  pure
    { label := label
      tokenSha256 := sha
      mailgunDomains := mailgunDomains
      allowedFromDomains := allowedFromDomains
      allowedFromAddresses := allowedFromAddresses }

/- The policies from a position on, with those before it. -/
def loadTokens
    (index : Nat)
    (tokens : List TokenPolicy) :
    List Node → Except Str (List TokenPolicy)
| [] => .ok tokens
| entry :: rest =>
    match loadPolicy entry (indexed "tokens".toList index) with
    | .error reason => .error reason
    | .ok policy =>
        if tokens.any fun t => t.label == policy.label then
          .error
            (indexed "tokens".toList index ++
              ": duplicate token label".toList)
        else
          loadTokens (index + 1) (tokens ++ [policy]) rest

/- `from_yaml` of a parsed document. -/
def fromNode
    (data : Node) :
    Except Str (SmtpCredentials × List TokenPolicy) := do
  requireMap data
    "secrets file must be a top-level mapping".toList
  let smtp ← loadSmtp (data.get "smtp".toList)
  let entries ←
    match data.get "tokens".toList with
    | some (.seq (item :: items)) => pure (item :: items)
    | _ => throw "tokens must be a non-empty list".toList
  let tokens ← loadTokens 0 [] entries
  pure (smtp, tokens)

end Secrets

end MailgunRelay
