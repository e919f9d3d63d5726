import MailgunRelay.Lib.Assoc
import MailgunRelay.Lib.Result
import MailgunRelay.Config
import MailgunRelay.Form
import MailgunRelay.Mime
import MailgunRelay.Python.Errors

/-
  The field rules of the Python route (`routes.py`,
  `_parse_form` and what it calls).

  Key definitions include:
    * `MailgunRelay.Python.ParsedForm`
    * `MailgunRelay.Python.readUpload`
    * `MailgunRelay.Python.parseForm`
-/

------------------------------------------------------------
-- Values
------------------------------------------------------------

namespace MailgunRelay

namespace Python

open Form (Value Item)

def knownFormFields : List Str :=
  ["from", "to", "cc", "bcc", "subject", "text", "html",
    "amp-html", "attachment", "inline"].map String.toList

/- `str` of an integer. -/
def str (n : Int) : Str :=
  (toString n).toList

variable [Repr]

/- `_require_str`. -/
def requireStr
    (key : Str)
    (value : Value) : Except Exc Str :=
  match value with
  | .text text => .ok text
  | .file _ =>
      .error (badRequestError
        ("field ".toList ++ Repr.repr key ++
          " must be a string".toList))

/- `_read_upload`; `or` takes the default for an empty one. -/
def readUpload
    (settings : Settings)
    (value : Value) : Except Exc Mime.Attachment :=
  match value with
  | .text _ =>
      .error (badRequestError
        "attachment/inline must be an uploaded file".toList)
  | .file upload =>
      if settings.maxAttachmentBytes.val <
          (upload.data.length : Int) then
        .error (payloadTooLargeError
          ("attachment ".toList ++
            Repr.repr upload.filename ++
            " exceeds max size".toList))
      else
        let contentType := upload.contentType.getD []
        .ok
          { filename :=
              if upload.filename = [] then
                "attachment".toList
              else
                upload.filename
            contentType :=
              if contentType = [] then
                "application/octet-stream".toList
              else
                contentType
            data := upload.data }

end Python

end MailgunRelay

------------------------------------------------------------
-- The Parsed Form
------------------------------------------------------------

namespace MailgunRelay

namespace Python

open Form (Value Item)

/- `_ParsedForm`. -/
structure ParsedForm where
  fromAddress : Str
  «to» : List Str
  cc : List Str
  bcc : List Str
  subject : Str
  text : Option Str
  html : Option Str
  ampHtml : Option Str
  customHeaders : List (Str × Str)
  attachments : List Mime.Attachment
  inline : List Mime.Attachment

/- The local variables of `_parse_form`. -/
structure Locals where
  fromAddresses : List Str
  «to» : List Str
  cc : List Str
  bcc : List Str
  subject : Option Str
  text : Option Str
  html : Option Str
  ampHtml : Option Str
  customHeaders : List (Str × Str)
  attachments : List Mime.Attachment
  inline : List Mime.Attachment
  totalBodyBytes : Nat

def Locals.initial : Locals :=
  { fromAddresses := [], «to» := [], cc := [], bcc := []
    subject := none, text := none, html := none
    ampHtml := none, customHeaders := [], attachments := []
    inline := [], totalBodyBytes := 0 }

/- `_track_text`: the new total, if it fits. -/
def trackText
    (settings : Settings)
    (fieldName content : Str)
    (l : Locals) : Except Exc Locals :=
  let total := l.totalBodyBytes + (utf8 content).length
  if settings.maxBodyBytes.val < (total : Int) then
    .error (payloadTooLargeError
      ("aggregate body size exceeds ".toList ++
        str settings.maxBodyBytes.val ++ " bytes (".toList ++
        fieldName ++ [')']))
  else
    .ok { l with totalBodyBytes := total }

variable [Repr]

/- The branch for `attachment` and `inline`. -/
def addUpload
    (settings : Settings)
    (key : Str)
    (value : Value)
    (l : Locals) : Except Exc Locals := do
  let att ← readUpload settings value
  let total := l.totalBodyBytes + att.data.length
  if settings.maxBodyBytes.val < (total : Int) then
    .error (payloadTooLargeError
      ("aggregate body size exceeds ".toList ++
        str settings.maxBodyBytes.val ++ " bytes".toList))
  else
    let l := { l with totalBodyBytes := total }
    let l :=
      if key = "attachment".toList then
        { l with attachments := l.attachments ++ [att] }
      else
        { l with inline := l.inline ++ [att] }
    if settings.maxAttachments.val <
        ((l.attachments.length + l.inline.length : Nat) :
          Int) then
      .error (payloadTooLargeError
        ("too many attachments+inline (max ".toList ++
          str settings.maxAttachments.val ++ [')']))
    else
      .ok l

/- Metadata and variable namespaces are rejected. -/
def isUnsupported (key : Str) : Bool :=
  "v:".toList.isPrefixOf key || "o:".toList.isPrefixOf key ||
    "t:".toList.isPrefixOf key ||
    key == "recipient-variables".toList ||
    key == "template".toList

/- The branches for the known fields. -/
def knownItem
    (settings : Settings)
    (key : Str)
    (value : Value)
    (l : Locals) : Except Exc Locals :=
  if key = "from".toList then do
    let text ← requireStr key value
    .ok { l with fromAddresses := l.fromAddresses ++ [text] }
  else if key = "to".toList then do
    let text ← requireStr key value
    .ok { l with «to» := l.to ++ [text] }
  else if key = "cc".toList then do
    let text ← requireStr key value
    .ok { l with cc := l.cc ++ [text] }
  else if key = "bcc".toList then do
    let text ← requireStr key value
    .ok { l with bcc := l.bcc ++ [text] }
  else if key = "subject".toList then do
    let text ← requireStr key value
    .ok { l with subject := some text }
  else if key = "text".toList then do
    let text ← requireStr key value
    let l ← trackText settings "text".toList text l
    .ok { l with text := some text }
  else if key = "html".toList then do
    let text ← requireStr key value
    let l ← trackText settings "html".toList text l
    .ok { l with html := some text }
  else if key = "amp-html".toList then do
    let text ← requireStr key value
    let l ← trackText settings "amp-html".toList text l
    .ok { l with ampHtml := some text }
  else if key = "attachment".toList ∨
      key = "inline".toList then
    addUpload settings key value l
  else
    .ok l

/- The body of the loop over the items. -/
def formItem
    (settings : Settings)
    (key : Str)
    (value : Value)
    (l : Locals) : Except Exc Locals :=
  if isUnsupported key then
    .error (badRequestError
      ("unsupported field: ".toList ++ key))
  else if "h:".toList.isPrefixOf key then
    match value with
    | .file _ =>
        .error (badRequestError
          ("header ".toList ++ key ++
            " must be a string".toList))
    | .text text =>
        .ok
          { l with
            customHeaders :=
              Lib.Assoc.set (key.drop 2) text
                l.customHeaders }
  else if !knownFormFields.contains key then
    .error (badRequestError
      ("unknown field: ".toList ++ key))
  else
    knownItem settings key value l

/- The loop over the items. -/
def formItems
    (settings : Settings) :
    List Item → Locals → Except Exc Locals
| [], l => .ok l
| (key, value) :: rest, l => do
    let l ← formItem settings key value l
    formItems settings rest l

/- `_parse_form`. -/
def parseForm
    (settings : Settings)
    (items : List Item) : Except Exc ParsedForm := do
  let l ← formItems settings items .initial
  match l.fromAddresses, l.subject with
  | [fromAddress], some subject =>
      if l.text = none ∧ l.html = none then
        .error (badRequestError
          "at least one of 'text' or 'html' is required".toList)
      else
        .ok
          { fromAddress := fromAddress
            «to» := l.to
            cc := l.cc
            bcc := l.bcc
            subject := subject
            text := l.text
            html := l.html
            ampHtml := l.ampHtml
            customHeaders := l.customHeaders
            attachments := l.attachments
            inline := l.inline }
  | [_], none =>
      .error (badRequestError "subject is required".toList)
  | _, _ =>
      .error (badRequestError
        "exactly one 'from' is required".toList)

end Python

end MailgunRelay
