import MailgunRelay.Lib.Assoc
import MailgunRelay.Lib.Result
import MailgunRelay.Config
import MailgunRelay.Form
import MailgunRelay.Mime

/-
  The field rules of the route (step 4 of `pipeline.rs`):
  the form items become a parsed form, the first offending
  item decides.

  Key definitions include:
    * `MailgunRelay.Pipeline.Failure`
    * `MailgunRelay.Pipeline.ParsedForm`
    * `MailgunRelay.Pipeline.parseForm`

  Key theorems include:
    * `MailgunRelay.Pipeline.putHeader_eq_set`
-/

------------------------------------------------------------
-- Failures
------------------------------------------------------------

namespace MailgunRelay

namespace Pipeline

/- The `result` of the request record. -/
inductive Outcome where
  | ok
  | partialRefusal
  | badRequest
  | authError
  | policyError
  | tooLarge
  | smtpPermanent
  | smtpTemporary
  | internalError
  deriving DecidableEq

def Outcome.text : Outcome → Str
| .ok => "ok".toList
| .partialRefusal => "partial_refusal".toList
| .badRequest => "bad_request".toList
| .authError => "auth_error".toList
| .policyError => "policy_error".toList
| .tooLarge => "too_large".toList
| .smtpPermanent => "smtp_permanent".toList
| .smtpTemporary => "smtp_temporary".toList
| .internalError => "internal_error".toList

/- The status a failed outcome is answered with. -/
def Outcome.failureStatus : Outcome → Option Nat
| .ok => none
| .partialRefusal => none
| .badRequest => some 400
| .authError => some 401
| .policyError => some 403
| .tooLarge => some 413
| .smtpPermanent => some 502
| .smtpTemporary => some 503
| .internalError => some 500

/-
  One failed decision: the status, the record's `result` and
  `error_class`, and the response message.  The status and
  the result belong together.
-/
structure Failure where
  status : Nat
  result : Outcome
  «class» : Str
  message : Str
  agrees : result.failureStatus = some status
  deriving DecidableEq

def Failure.badRequest (cls message : Str) : Failure :=
  { status := 400
    result := .badRequest
    «class» := cls
    message := message
    agrees := rfl }

def Failure.tooLarge (message : Str) : Failure :=
  { status := 413
    result := .tooLarge
    «class» := "PayloadTooLargeError".toList
    message := message
    agrees := rfl }

/- A `BadRequestError`. -/
def malformed (message : Str) : Failure :=
  .badRequest "BadRequestError".toList message

/- A number as it is formatted. -/
def display (n : Int) : Str :=
  (toString n).toList

end Pipeline

end MailgunRelay

------------------------------------------------------------
-- Values
------------------------------------------------------------

namespace MailgunRelay

namespace Pipeline

open Form (Value Upload Item)

def knownFields : List Str :=
  ["from", "to", "cc", "bcc", "subject", "text", "html",
    "amp-html", "attachment", "inline"].map String.toList

/- The field is known, so `{key:?}` only adds quotes. -/
def requireText
    (key : Str)
    (value : Value) : Except Failure Str :=
  match value with
  | .text text => .ok text
  | .file _ =>
      .error (malformed
        ("field \"".toList ++ key ++
          "\" must be a string".toList))

/- The defaults for the filename and the content type. -/
def withDefaults (upload : Upload) : Mime.Attachment :=
  { filename :=
      if upload.filename.isEmpty then
        "attachment".toList
      else
        upload.filename
    contentType :=
      (upload.contentType.filter fun t => !t.isEmpty).getD
        "application/octet-stream".toList
    data := upload.data }

/- The size limit, then the defaults. -/
def readUpload
    (settings : Settings)
    (value : Value) : Except Failure Mime.Attachment :=
  match value with
  | .text _ =>
      .error (malformed
        "attachment/inline must be an uploaded file".toList)
  | .file upload =>
      if exceeds upload.data.length
          settings.maxAttachmentBytes then
        .error (.tooLarge "attachment exceeds max size".toList)
      else
        .ok (withDefaults upload)

end Pipeline

end MailgunRelay

------------------------------------------------------------
-- The Parsed Form
------------------------------------------------------------

namespace MailgunRelay

namespace Pipeline

open Form (Value Upload Item)

/-
  The parsed form.  Custom headers keep their first position
  and take their last value.
-/
structure ParsedForm where
  «from» : List Str
  «to» : List Str
  cc : List Str
  bcc : List Str
  subject : Option Str
  text : Option Str
  html : Option Str
  ampHtml : Option Str
  headers : List (Str × Str)
  attachments : List Mime.Attachment
  inline : List Mime.Attachment
  deriving DecidableEq

/- `ParsedForm::default`. -/
def ParsedForm.empty : ParsedForm :=
  { «from» := [], «to» := [], cc := [], bcc := []
    subject := none, text := none, html := none
    ampHtml := none, headers := [], attachments := []
    inline := [] }

/- The entry of a header is found and set, or added. -/
def putHeader
    (name text : Str)
    (headers : List (Str × Str)) : List (Str × Str) :=
  match headers.findIdx? fun entry => entry.1 == name with
  | some i => headers.modify i fun entry => (entry.1, text)
  | none => headers ++ [(name, text)]

/- The namespaces and fields that are not supported. -/
def isUnsupported (key : Str) : Bool :=
  "v:".toList.isPrefixOf key || "o:".toList.isPrefixOf key ||
    "t:".toList.isPrefixOf key ||
    key == "recipient-variables".toList ||
    key == "template".toList

/- The sizes of all bodies so far fit the limit. -/
def aggregate
    (settings : Settings)
    (total : Nat) : Except Failure Unit :=
  if exceeds total settings.maxBodyBytes then
    .error (.tooLarge
      ("aggregate body size exceeds ".toList ++
        display settings.maxBodyBytes.val ++
        " bytes".toList))
  else
    .ok ()

/- Set the body a key names. -/
def ParsedForm.setBody
    (parsed : ParsedForm)
    (key text : Str) : ParsedForm :=
  if key = "text".toList then
    { parsed with text := some text }
  else if key = "html".toList then
    { parsed with html := some text }
  else
    { parsed with ampHtml := some text }

/- Add an upload; attachments and inline share the cap. -/
def ParsedForm.addUpload
    (settings : Settings)
    (parsed : ParsedForm)
    (key : Str)
    (attachment : Mime.Attachment) :
    Except Failure ParsedForm :=
  let parsed :=
    if key = "attachment".toList then
      { parsed with
        attachments := parsed.attachments ++ [attachment] }
    else
      { parsed with inline := parsed.inline ++ [attachment] }
  if exceeds
      (parsed.attachments.length + parsed.inline.length)
      settings.maxAttachments then
    .error (.tooLarge
      ("too many attachments+inline (max ".toList ++
        display settings.maxAttachments.val ++ [')']))
  else
    .ok parsed

/- `text`, `html` and `amp-html`: their bytes are counted. -/
def parseBody
    (settings : Settings)
    (parsed : ParsedForm)
    (total : Nat)
    (key : Str)
    (value : Value) : Except Failure (ParsedForm × Nat) := do
  let text ← requireText key value
  let total := total + byteLen text
  aggregate settings total
  pure (parsed.setBody key text, total)

/- `attachment` and `inline`. -/
def parseUpload
    (settings : Settings)
    (parsed : ParsedForm)
    (total : Nat)
    (key : Str)
    (value : Value) : Except Failure (ParsedForm × Nat) := do
  let attachment ← readUpload settings value
  let total := total + attachment.data.length
  aggregate settings total
  let parsed ← parsed.addUpload settings key attachment
  pure (parsed, total)

/- One of the known fields. -/
def parseKnown
    (settings : Settings)
    (parsed : ParsedForm)
    (total : Nat)
    (key : Str)
    (value : Value) : Except Failure (ParsedForm × Nat) :=
  if key = "from".toList then do
    let text ← requireText key value
    pure ({ parsed with «from» := parsed.from ++ [text] },
      total)
  else if key = "to".toList then do
    let text ← requireText key value
    pure ({ parsed with «to» := parsed.to ++ [text] }, total)
  else if key = "cc".toList then do
    let text ← requireText key value
    pure ({ parsed with cc := parsed.cc ++ [text] }, total)
  else if key = "bcc".toList then do
    let text ← requireText key value
    pure ({ parsed with bcc := parsed.bcc ++ [text] }, total)
  else if key = "subject".toList then do
    let text ← requireText key value
    pure ({ parsed with subject := some text }, total)
  else if key = "text".toList ∨ key = "html".toList ∨
      key = "amp-html".toList then
    parseBody settings parsed total key value
  else
    parseUpload settings parsed total key value

/- One item, after the running total of the body sizes. -/
def parseItem
    (settings : Settings)
    (parsed : ParsedForm)
    (total : Nat)
    (key : Str)
    (value : Value) : Except Failure (ParsedForm × Nat) :=
  if isUnsupported key then
    .error (malformed ("unsupported field: ".toList ++ key))
  else if "h:".toList.isPrefixOf key then
    match value with
    | .text text =>
        .ok
          ({ parsed with
              headers :=
                putHeader (key.drop 2) text parsed.headers },
            total)
    | .file _ =>
        .error (malformed
          ("header ".toList ++ key ++
            " must be a string".toList))
  else if !knownFields.contains key then
    .error (malformed ("unknown field: ".toList ++ key))
  else
    parseKnown settings parsed total key value

/- The items in form order, first error wins. -/
def parseItems
    (settings : Settings)
    (parsed : ParsedForm)
    (total : Nat) :
    List Item → Except Failure (ParsedForm × Nat)
| [] => .ok (parsed, total)
| (key, value) :: rest => do
    let (parsed, total) ←
      parseItem settings parsed total key value
    parseItems settings parsed total rest

/- What a form must have once all its items are read. -/
def requireFields
    (parsed : ParsedForm) : Except Failure Unit :=
  if parsed.from.length ≠ 1 then
    .error (malformed "exactly one 'from' is required".toList)
  else if parsed.subject.isNone then
    .error (malformed "subject is required".toList)
  else if parsed.text.isNone && parsed.html.isNone then
    .error (malformed
      "at least one of 'text' or 'html' is required".toList)
  else
    .ok ()

/- Step 4: the field rules. -/
def parseForm
    (settings : Settings)
    (items : List Item) : Except Failure ParsedForm := do
  let (parsed, _) ← parseItems settings .empty 0 items
  requireFields parsed
  pure parsed

/- The headers are an ordered map. -/
theorem putHeader_eq_set
    (name text : Str)
    (headers : List (Str × Str)) :
    putHeader name text headers =
      Lib.Assoc.set name text headers := by
  induction headers with
  | nil => rfl
  | cons entry rest ih =>
      rcases entry with ⟨key, value⟩
      by_cases hKey : key = name
      · simp [putHeader, Lib.Assoc.set, List.findIdx?_cons,
          hKey]
      · unfold putHeader at ih ⊢
        simp only [List.findIdx?_cons, beq_iff_eq, hKey,
          if_false, Lib.Assoc.set]
        cases hFound :
            rest.findIdx? fun entry => entry.1 == name with
        | none =>
            rw [hFound] at ih
            simp [ih]
        | some i =>
            rw [hFound] at ih
            simp [← ih]

end Pipeline

end MailgunRelay
