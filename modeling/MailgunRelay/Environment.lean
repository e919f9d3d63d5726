import MailgunRelay.Lib.Checked
import MailgunRelay.Lib.Result
import MailgunRelay.Environment.Values

/-
  The settings from the environment (`config.rs`): one
  variable for each of eighteen fields, its name in any case.

  A variable is a pair of byte strings, as `OsString` holds
  them.  A default that did not parse would be a panic.

  Key definitions include:
    * `MailgunRelay.Environment.Vars`
    * `MailgunRelay.Environment.collect`
    * `MailgunRelay.Environment.lookup`
    * `MailgunRelay.Environment.fromEnv`
    * `MailgunRelay.Environment.fieldNames`
    * `MailgunRelay.Environment.isKnown`
-/

------------------------------------------------------------
-- Variables
------------------------------------------------------------

namespace MailgunRelay

namespace Environment

/- `std::env::vars_os()`: names and values. -/
abbrev Vars := List (Bytes × Bytes)

/- The variables with a name that is text. -/
abbrev Env := List (Str × Bytes)

/- `PREFIX`. -/
def lead : Str :=
  "MAILGUN_RELAY_".toList

/- The name of the variable of a field. -/
def exact (field : String) : Str :=
  lead ++ field.toList

/- A name that goes on after the prefix, in any case. -/
def hasLead (name : Str) : Bool :=
  (utf8 lead).length < (utf8 name).length &&
    eqIgnoreAsciiCase
      ((utf8 name).take (utf8 lead).length) (utf8 lead)

/- A variable with a name that is text. -/
def named (var : Bytes × Bytes) : Option (Str × Bytes) :=
  (fromUtf8 var.1).map fun name => (name, var.2)

/- The variables that are looked at. -/
def collect (vars : Vars) : Env :=
  (vars.filterMap named).filter fun var => hasLead var.1

end Environment

end MailgunRelay

------------------------------------------------------------
-- Lookup
------------------------------------------------------------

namespace MailgunRelay

namespace Environment

/- The variables of a field, its name in any case. -/
def variants (env : Env) (field : String) : Env :=
  env.filter fun var =>
    eqIgnoreAsciiCase (utf8 var.1) (utf8 (exact field))

/-
  `Env::lookup`: the one variable of a field, as its name
  and its value.
-/
def lookup
    (env : Env)
    (field : String) : Except Str (Option (Str × Str)) :=
  match variants env field with
  | [] => .ok none
  | [(name, raw)] =>
      match fromUtf8 raw with
      | some value => .ok (some (name, value))
      | none =>
          .error
            (name ++
              ": value is not valid UTF-8 (PLAN.md D-18)".toList)
  | _ :: _ :: _ =>
      .error
        (exact field ++
          ": several case variants are set (PLAN.md D-7)".toList)

/- `Env::str`. -/
def str
    (env : Env)
    (field default : String) : Lib.Checked Str Str := do
  match ← Lib.Checked.lift (lookup env field) with
  | none => .ok default.toList
  | some (_, value) => .ok value

/- `Env::parsed`. -/
def parsed
    {T : Type}
    (env : Env)
    (field default : String)
    (parse : Str → Except Str T) : Lib.Checked Str T := do
  match ← Lib.Checked.lift (lookup env field) with
  | none =>
      match parse default.toList with
      | .ok value => .ok value
      | .error _ => .error .panics
  | some (name, value) =>
      Lib.Checked.lift
        ((parse value).mapError fun reason =>
          name ++ ": ".toList ++ reason)

end Environment

end MailgunRelay

------------------------------------------------------------
-- Settings
------------------------------------------------------------

namespace MailgunRelay

namespace Environment

/- All settings: those a request reads, and the others. -/
structure Settings extends MailgunRelay.Settings where
  bindHost : Str
  bindPort : UInt16
  secretsPath : Str
  smtpHost : Str
  smtpPort : UInt16
  smtpStarttls : Bool
  smtpTimeoutS : F64
  smtpCaFile : Str
  smtpMaxConcurrency : UInt32
  envelopeSender : Str
  logLevel : Level

variable [Unicode] [Idna]

/- The fields of the settings, one after the other. -/
def readSettings (env : Env) : Lib.Checked Str Settings := do
  let bindHost ← str env "BIND_HOST" "127.0.0.1"
  let bindPort ←
    parsed env "BIND_PORT" "8085" parsePortStrict
  let publicHost ←
    str env "PUBLIC_HOST" "mailgun.home.xn--wersdrfer-47a.de"
  let secretsPath ←
    str env "SECRETS_PATH" "/etc/mailgun-relay/secrets.yml"
  let smtpHost ←
    str env "SMTP_HOST" "smtp.home.xn--wersdrfer-47a.de"
  let smtpPort ← parsed env "SMTP_PORT" "587" parsePort
  let smtpStarttls ←
    parsed env "SMTP_STARTTLS" "true" parseBool
  let smtpTimeoutS ←
    parsed env "SMTP_TIMEOUT_S" "30.0" parseTimeout
  let smtpCaFile ← str env "SMTP_CA_FILE" ""
  let smtpMaxConcurrency ←
    parsed env "SMTP_MAX_CONCURRENCY" "8" parseConcurrency
  let envelopeSender ←
    parsed env "ENVELOPE_SENDER" "" envelopeSender
  let failOnPartialRefusal ←
    parsed env "FAIL_ON_PARTIAL_REFUSAL" "false" parseBool
  let maxBodyBytes ←
    parsed env "MAX_BODY_BYTES" "26214400" parseInt
  let maxAttachments ←
    parsed env "MAX_ATTACHMENTS" "10" parseInt
  let maxAttachmentBytes ←
    parsed env "MAX_ATTACHMENT_BYTES" "10485760" parseInt
  let maxRecipients ←
    parsed env "MAX_RECIPIENTS" "100" parseInt
  let maxHeaderValueLength ←
    parsed env "MAX_HEADER_VALUE_LENGTH" "998" parseInt
  let logLevel ← parsed env "LOG_LEVEL" "INFO" parseLevel
  .ok
    { bindHost, bindPort, publicHost, secretsPath, smtpHost
      smtpPort, smtpStarttls, smtpTimeoutS, smtpCaFile
      smtpMaxConcurrency, envelopeSender
      failOnPartialRefusal, maxBodyBytes, maxAttachments
      maxAttachmentBytes, maxRecipients
      maxHeaderValueLength, logLevel }

/- Python would bind every interface. -/
def checkBindHost
    (settings : Settings) : Lib.Checked Str Settings :=
  if settings.bindHost.isEmpty then
    .error
      (.error
        "MAILGUN_RELAY_BIND_HOST must not be empty".toList)
  else
    .ok settings

/- `Settings::from_env`. -/
def fromEnv (vars : Vars) : Lib.Checked Str Settings := do
  let settings ← readSettings (collect vars)
  checkBindHost settings

end Environment

end MailgunRelay

------------------------------------------------------------
-- Known Names
------------------------------------------------------------

namespace MailgunRelay

namespace Environment

/- The fields that are read. -/
def fieldNames : List String :=
  ["BIND_HOST", "BIND_PORT", "PUBLIC_HOST", "SECRETS_PATH",
    "SMTP_HOST", "SMTP_PORT", "SMTP_STARTTLS",
    "SMTP_TIMEOUT_S", "SMTP_CA_FILE",
    "SMTP_MAX_CONCURRENCY", "ENVELOPE_SENDER",
    "FAIL_ON_PARTIAL_REFUSAL", "MAX_BODY_BYTES",
    "MAX_ATTACHMENTS", "MAX_ATTACHMENT_BYTES",
    "MAX_RECIPIENTS", "MAX_HEADER_VALUE_LENGTH",
    "LOG_LEVEL"]

/- A variable, whatever its name is, sets a field. -/
def sets (field : String) (var : Bytes × Bytes) : Bool :=
  eqIgnoreAsciiCase var.1 (utf8 (exact field))

/- A variable sets one of the fields. -/
def isKnown (var : Bytes × Bytes) : Bool :=
  fieldNames.any fun field => sets field var

end Environment

end MailgunRelay
