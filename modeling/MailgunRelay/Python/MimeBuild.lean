import MailgunRelay.Mime

/-
  The MIME structure of Python's `build_message`
  (`mime_build.py`), on the messages of the `email` package.

  A message is converted in place: its content moves into
  the first part of a new container.  What may fail in the
  making of one part (its headers) is left out.

  Key definitions include:
    * `MailgunRelay.Python.EmailMessage`
    * `MailgunRelay.Python.makeMultipart`
    * `MailgunRelay.Python.addMultipart`
    * `MailgunRelay.Python.findHtmlPart`
    * `MailgunRelay.Python.buildStructure`
-/

------------------------------------------------------------
-- The Email Package
------------------------------------------------------------

namespace MailgunRelay

namespace Python

open Mime (Attachment)

/- What `set_content` was called with. -/
inductive Content where
  | text (text subtype : Str)
  | upload
      (upload : Attachment)
      (inline : Bool)
      (maintype subtype : Str)
  deriving DecidableEq

/- A message: one content, or a container of messages. -/
inductive EmailMessage where
  | leaf (content : Content)
  | multipart (subtype : MultiKind) (parts : List EmailMessage)

/- `get_content_type`. -/
def EmailMessage.getContentType : EmailMessage → Str
| .leaf (.text _ subtype) => "text/".toList ++ subtype
| .leaf (.upload _ _ maintype subtype) =>
    maintype ++ '/' :: subtype
| .multipart .alternative _ => "multipart/alternative".toList
| .multipart .related _ => "multipart/related".toList
| .multipart .mixed _ => "multipart/mixed".toList

/- The containers that `make_*` does not convert. -/
def disallowedSubtypes : MultiKind → List MultiKind
| .related => [.alternative, .mixed]
| .alternative => [.mixed]
| .mixed => []

/- `_make_multipart`; `none` is its `ValueError`. -/
def makeMultipart
    (subtype : MultiKind)
    (msg : EmailMessage) : Option EmailMessage :=
  match msg with
  | .leaf _ => some (.multipart subtype [msg])
  | .multipart existing _ =>
      if existing ∈ disallowedSubtypes subtype ++ [subtype] then
        none
      else
        some (.multipart subtype [msg])

/- `attach`. -/
def EmailMessage.attach
    (msg : EmailMessage)
    (content : Content) : EmailMessage :=
  match msg with
  | .leaf _ => msg
  | .multipart subtype parts =>
      .multipart subtype (parts ++ [.leaf content])

/-
  `_add_multipart`, which `add_alternative`, `add_related`
  and `add_attachment` are.
-/
def addMultipart
    (subtype : MultiKind)
    (msg : EmailMessage)
    (content : Content) : Option EmailMessage :=
  match msg with
  | .multipart existing _ =>
      if existing = subtype then
        some (msg.attach content)
      else
        (makeMultipart subtype msg).map fun m =>
          m.attach content
  | .leaf _ =>
      (makeMultipart subtype msg).map fun m =>
        m.attach content

def addAlternative := addMultipart .alternative

def addRelated := addMultipart .related

def addAttachment := addMultipart .mixed

end Python

end MailgunRelay

------------------------------------------------------------
-- The Structure
------------------------------------------------------------

namespace MailgunRelay

namespace Python

open Mime (Attachment)

/- A reference to the html part: the message or a part. -/
inductive HtmlPart where
  | message
  | part (index : Nat)
  deriving DecidableEq

def isHtml (msg : EmailMessage) : Bool :=
  msg.getContentType == "text/html".toList

/- `_find_html_part`. -/
def findHtmlPart (msg : EmailMessage) : Option HtmlPart :=
  if isHtml msg then
    some .message
  else
    match msg with
    | .multipart .alternative parts =>
        (parts.findIdx? isHtml).map .part
    | _ => none

/- A call on the referenced part, which changes in place. -/
def callOn
    (f : EmailMessage → Option EmailMessage)
    (msg : EmailMessage) : HtmlPart → Option EmailMessage
| .message => f msg
| .part index =>
    match msg with
    | .leaf _ => none
    | .multipart subtype parts => do
        let part ← parts[index]?
        let part ← f part
        some (.multipart subtype (parts.set index part))

section

variable [Unicode]

/- `_split_ct`. -/
def splitCt (contentType : Str) : Str × Str :=
  let (main, sub) :=
    (Lib.Text.splitOnce '/' contentType).getD (contentType, [])
  let main := lowercase (pyStrip main)
  let sub := lowercase (pyStrip ((sub.splitOn ';').headD []))
  if main.isEmpty || sub.isEmpty ||
      main = "multipart".toList || main = "message".toList then
    ("application".toList, "octet-stream".toList)
  else
    (main, sub)

/- The part of an upload. -/
def uploadContent
    (inline : Bool)
    (upload : Attachment) : Content :=
  .upload upload inline (splitCt upload.contentType).1
    (splitCt upload.contentType).2

/- One inline upload. -/
def addInline
    (htmlPart : Option HtmlPart)
    (msg : EmailMessage)
    (upload : Attachment) : Option EmailMessage :=
  match htmlPart with
  | some part =>
      callOn
        (fun m => addRelated m (uploadContent true upload))
        msg part
  | none => addAttachment msg (uploadContent true upload)

/-
  The parts of `build_message`; a body that is empty is like
  one that is absent.
-/
def buildStructure
    (text html ampHtml : Option Str)
    (inline attachments : List Attachment) :
    Option EmailMessage := do
  let msg ←
    match Mime.nonEmpty text, Mime.nonEmpty html with
    | some text, some html =>
        addAlternative (.leaf (.text text "plain".toList))
          (.text html "html".toList)
    | none, some html =>
        some (.leaf (.text html "html".toList))
    | some text, none =>
        some (.leaf (.text text "plain".toList))
    | none, none => none
  let msg ←
    match Mime.nonEmpty ampHtml with
    | some amp =>
        addAlternative msg (.text amp "x-amp-html".toList)
    | none => some msg
  let htmlPart := findHtmlPart msg
  let msg ← inline.foldlM (addInline htmlPart) msg
  attachments.foldlM
    (fun msg upload =>
      addAttachment msg (uploadContent false upload))
    msg

end

end Python

end MailgunRelay
