import MailgunRelay.Allowlist
import MailgunRelay.Form.Written
import MailgunRelay.Mime.Structure
import MailgunRelay.Mime.TextBody
import MailgunRelay.Pipeline.Accepted
import MailgunRelay.Pipeline.Authorised
import MailgunRelay.Python.Auth

/-
  What a submitted message says is what the form said.

  Every body and every upload of the form is one part of the
  message, with the same bytes and in the order of the tree;
  the head and the envelope are made of the other fields.

  Key definitions include:
    * `MailgunRelay.Mime.Wanted`
    * `MailgunRelay.Mime.Carries`
    * `MailgunRelay.Mime.wantedParts`
    * `MailgunRelay.Pipeline.Conveys`

  Key theorems include:
    * `MailgunRelay.Mime.leafContentType_leaf`
    * `MailgunRelay.Mime.bodyTree_carries`
    * `MailgunRelay.Pipeline.submitted_conveys`
-/

------------------------------------------------------------
-- What Parts Carry
------------------------------------------------------------

namespace MailgunRelay

namespace Mime

/- What a part of a message is to carry. -/
inductive Wanted where
  | text (text : Str)
  | html (text : Str)
  | ampHtml (text : Str)
  | upload (inline : Bool) (attachment : Attachment)

/- The bytes of a part before they are encoded. -/
def partBytes (part : SinglePart) : Bytes :=
  match part.body with
  | .auto text => utf8 text
  | .base64 data => data

/- The parts of a message in order. -/
def wantedParts
    (text html ampHtml : Option Str)
    (inline attachments : List Attachment) : List Wanted :=
  let inline := inline.map (.upload true)
  (text.map .text).toList ++
    ((html.map .html).toList ++
      (if html.isSome then inline else [])) ++
    (ampHtml.map .ampHtml).toList ++
    ((if html.isNone then inline else []) ++
      attachments.map (.upload false))

variable [Unicode] [Lettre]

/- A content type of a single part. -/
def IsLeafType (contentType : ContentType) : Prop :=
  ∃ main sub,
    isTypeToken main = true ∧ isTypeToken sub = true ∧
      main ≠ "multipart".toList ∧ main ≠ "message".toList ∧
      Lettre.contentType (main ++ '/' :: sub) =
        some contentType

/-
  A text body is stored with CRLF line ends; an upload keeps
  its name and its bytes, and is no container.
-/
def Carries : Wanted → SinglePart → Prop
| .text text, part =>
    part.contentType = textPlain ∧
      part.disposition = .none ∧
      partBytes part = utf8 (stored text)
| .html text, part =>
    part.contentType = textHtml ∧
      part.disposition = .none ∧
      partBytes part = utf8 (stored text)
| .ampHtml text, part =>
    Lettre.contentType
          "text/x-amp-html; charset=utf-8".toList =
        some part.contentType ∧
      part.disposition = .none ∧
      partBytes part = utf8 (stored text)
| .upload inline attachment, part =>
    leafContentType attachment.contentType =
        .ok part.contentType ∧
      IsLeafType part.contentType ∧
      part.disposition =
        (if inline then .inline attachment.filename
          else .attachment attachment.filename) ∧
      partBytes part = attachment.data

/- No upload is a container or a message. -/
theorem leafContentType_leaf
    {raw : Str}
    {contentType : ContentType}
    (hType : leafContentType raw = .ok contentType) :
    IsLeafType contentType := by
  have hOctet
      (hStream : octetStream = .ok contentType) :
      IsLeafType contentType := by
    refine
      ⟨"application".toList, "octet-stream".toList,
        by decide +kernel, by decide +kernel, by decide,
        by decide, ?_⟩
    unfold octetStream at hStream
    exact orPanic_eq_ok_iff.mp hStream
  unfold leafContentType at hType
  generalize
    (Lib.Text.splitOnce '/' raw).getD (raw, []) = pair
    at hType
  rcases pair with ⟨main, rest⟩
  dsimp only at hType
  generalize lowercase (pyStrip main) = main at hType
  generalize
    lowercase (pyStrip ((rest.splitOn ';').headD [])) = sub
    at hType
  split at hType
  · exact hOctet hType
  rename_i hPlain
  simp only [Bool.or_eq_true, Bool.not_eq_true',
    decide_eq_true_eq, not_or, Bool.not_eq_false] at hPlain
  split at hType
  · rename_i found hFound
    cases hType
    exact
      ⟨main, sub, hPlain.1.1.1, hPlain.1.1.2, hPlain.1.2,
        hPlain.2, hFound⟩
  · exact hOctet hType

omit [Unicode] [Lettre] in
theorem partBytes_textPart
    (contentType : ContentType)
    (text : Str) :
    partBytes (textPart contentType text) =
      utf8 (stored text) := by
  unfold partBytes
  rw [textPart_body]
  by_cases hControl : (stored text).any isTextControl = true
  · rw [if_pos hControl]
  · rw [if_neg hControl]

variable [Base64]

theorem carries_uploadPart
    {upload : Attachment}
    {inline : Bool}
    {part : SinglePart}
    (hPart : uploadPart upload inline = .ok (.leaf part)) :
    Carries (.upload inline upload) part := by
  unfold uploadPart at hPart
  rcases Lib.bind_eq_ok_iff.mp hPart with ⟨-, -, hPart⟩
  rcases Lib.bind_eq_ok_iff.mp hPart with
    ⟨contentType, hType, hPart⟩
  have hLeaf := leafContentType_leaf hType
  cases inline with
  | true =>
      rw [if_pos rfl] at hPart
      rcases Lib.bind_eq_ok_iff.mp hPart with ⟨-, -, hPart⟩
      rcases Lib.bind_eq_ok_iff.mp hPart with
        ⟨contentId, -, hEnd⟩
      cases hEnd
      exact ⟨hType, hLeaf, rfl, rfl⟩
  | false =>
      rw [if_neg Bool.false_ne_true] at hPart
      cases hPart
      exact ⟨hType, hLeaf, rfl, rfl⟩

/- The uploads of a list are carried in order. -/
theorem carries_uploadParts
    {inline : Bool}
    {uploads : List Attachment}
    {trees : List Tree}
    (hUploads : uploadParts inline uploads = .ok trees) :
    ∃ parts : List SinglePart,
      trees = parts.map .leaf ∧
        List.Forall₂ Carries
          (uploads.map (.upload inline)) parts := by
  induction uploads generalizing trees with
  | nil =>
      cases hUploads
      exact ⟨[], rfl, .nil⟩
  | cons upload rest ih =>
      rcases Lib.bind_eq_ok_iff.mp hUploads with
        ⟨tree, hTree, hUploads⟩
      rcases Lib.bind_eq_ok_iff.mp hUploads with
        ⟨others, hOthers, hEnd⟩
      cases hEnd
      rcases uploadPart_leaf hTree with ⟨part, rfl⟩
      rcases ih hOthers with ⟨parts, rfl, hPairs⟩
      exact
        ⟨part :: parts, rfl,
          .cons (carries_uploadPart hTree) hPairs⟩

omit [Unicode] [Lettre] [Base64] in
/- The html part and what is related to it. -/
theorem leaves_htmlPart
    (html : Str)
    (inline : List SinglePart) :
    Tree.leaves (htmlPart html (inline.map .leaf)) =
      textPart textHtml html :: inline := by
  unfold htmlPart
  cases inline with
  | nil => rfl
  | cons part rest =>
      dsimp only
      rw [List.map_cons, List.isEmpty_cons,
        if_neg Bool.false_ne_true, Tree.leaves,
        Tree.leavesAll, ← List.map_cons, leavesAll_map_leaf,
        Tree.leaves, List.singleton_append]

omit [Unicode] [Lettre] [Base64] in
/- No body is a mixed tree. -/
theorem bodies_notMixed
    (text html : Option Str)
    (inline : List Tree)
    (amps : List SinglePart) :
    ∀ body ∈
      text.toList.map (fun t =>
          Tree.leaf (textPart textPlain t)) ++
        html.toList.map (fun h => htmlPart h inline) ++
        amps.map .leaf,
      ∀ children, body ≠ .mixed children := by
  intro body hMem children
  rw [List.mem_append, List.mem_append] at hMem
  rcases hMem with (hText | hHtml) | hAmp
  · rcases List.mem_map.mp hText with ⟨t, -, rfl⟩
    exact Tree.noConfusion
  · rcases List.mem_map.mp hHtml with ⟨h, -, rfl⟩
    unfold htmlPart
    dsimp only
    by_cases hNone : inline.isEmpty = true
    · rw [if_pos hNone]
      exact Tree.noConfusion
    · rw [if_neg hNone]
      exact Tree.noConfusion
  · rcases List.mem_map.mp hAmp with ⟨part, -, rfl⟩
    exact Tree.noConfusion

/- The uploads behind the bodies of a tree that was built. -/
theorem joined_of_eq_ok
    {bodies inlineParts : List Tree}
    {attachments : List Attachment}
    {noHtml : Bool}
    {tree : Tree}
    (hBodies :
      ∀ body ∈ bodies, ∀ children, body ≠ .mixed children)
    (hTree :
      (let tree := ofAlternatives bodies
      let tree :=
        if noHtml && !inlineParts.isEmpty then
          Tree.mixed (tree :: inlineParts)
        else
          tree
      if attachments.isEmpty then
        pure tree
      else do
        let parts ← uploadParts false attachments
        pure (addMixed tree parts)) =
          Except.ok (ε := BuildError) tree) :
    ∃ trees,
      uploadParts false attachments = .ok trees ∧
        tree =
          withUploads Tree.containers (ofAlternatives bodies)
            ((if noHtml then inlineParts else []) ++ trees) := by
  have hUploads :
      ∃ trees, uploadParts false attachments = .ok trees := by
    cases attachments with
    | nil => exact ⟨[], rfl⟩
    | cons attachment rest =>
        dsimp only at hTree
        rw [List.isEmpty_cons, if_neg Bool.false_ne_true]
          at hTree
        rcases Lib.bind_eq_ok_iff.mp hTree with
          ⟨trees, hTrees, -⟩
        exact ⟨trees, hTrees⟩
  rcases hUploads with ⟨trees, hTrees⟩
  refine ⟨trees, hTrees, ?_⟩
  rw [joined_eq hBodies hTrees] at hTree
  cases hTree
  rfl

/- The bodies and uploads of a tree that was built. -/
theorem bodyTree_of_eq_ok
    {text html ampHtml : Option Str}
    {inline attachments : List Attachment}
    {tree : Tree}
    (hTree :
      bodyTree text html ampHtml inline attachments =
        .ok tree) :
    ∃ inlineTrees ampParts trees,
      uploadParts true inline = .ok inlineTrees ∧
        List.Forall₂ Carries
          (ampHtml.map .ampHtml).toList ampParts ∧
        uploadParts false attachments = .ok trees ∧
        tree =
          withUploads Tree.containers
            (ofAlternatives
              (text.toList.map (fun t =>
                  Tree.leaf (textPart textPlain t)) ++
                html.toList.map (fun h =>
                  htmlPart h inlineTrees) ++
                ampParts.map .leaf))
            ((if html.isNone then inlineTrees else []) ++
              trees) := by
  unfold bodyTree at hTree
  rcases Lib.bind_eq_ok_iff.mp hTree with
    ⟨inlineTrees, hInline, hTree⟩
  cases ampHtml with
  | none =>
      rcases joined_of_eq_ok
        (bodies_notMixed text html inlineTrees []) hTree with
        ⟨trees, hTrees, hEnd⟩
      exact
        ⟨inlineTrees, [], trees, hInline, .nil, hTrees, hEnd⟩
  | some amp =>
      rcases Lib.bind_eq_ok_iff.mp hTree with
        ⟨ampType, hType, hTree⟩
      have hCarries :
          Carries (.ampHtml amp) (textPart ampType amp) :=
        ⟨orPanic_eq_ok_iff.mp hType, rfl,
          partBytes_textPart ampType amp⟩
      rcases joined_of_eq_ok
        (bodies_notMixed text html inlineTrees
          [textPart ampType amp]) hTree with
        ⟨trees, hTrees, hEnd⟩
      exact
        ⟨inlineTrees, [textPart ampType amp], trees, hInline,
          .cons hCarries .nil, hTrees, hEnd⟩

/- The parts of a tree carry what it was built of. -/
theorem bodyTree_carries
    {text html ampHtml : Option Str}
    {inline attachments : List Attachment}
    {tree : Tree}
    (hTree :
      bodyTree text html ampHtml inline attachments =
        .ok tree) :
    List.Forall₂ Carries
      (wantedParts text html ampHtml inline attachments)
      tree.leaves := by
  rcases bodyTree_of_eq_ok hTree with
    ⟨inlineTrees, ampParts, trees, hInline, hAmps, hTrees, rfl⟩
  rcases carries_uploadParts hInline with
    ⟨inlineParts, rfl, hInlinePairs⟩
  rcases carries_uploadParts hTrees with
    ⟨attachmentParts, rfl, hAttachmentPairs⟩
  have hRest :
      (if html.isNone then inlineParts.map Tree.leaf
          else []) ++ attachmentParts.map Tree.leaf =
        ((if html.isNone then inlineParts else []) ++
          attachmentParts).map Tree.leaf := by
    cases html with
    | none => rw [List.map_append]; rfl
    | some html => rfl
  have hTexts :
      List.Forall₂ Carries (text.map .text).toList
        (Tree.leavesAll
          (text.toList.map fun t =>
            Tree.leaf (textPart textPlain t))) := by
    cases text with
    | none => exact .nil
    | some text =>
        exact
          .cons ⟨rfl, rfl, partBytes_textPart textPlain text⟩ .nil
  have hHtmls :
      List.Forall₂ Carries
        ((html.map .html).toList ++
          (if html.isSome then inline.map (.upload true)
            else []))
        (Tree.leavesAll
          (html.toList.map fun h =>
            htmlPart h (inlineParts.map .leaf))) := by
    cases html with
    | none => exact .nil
    | some html =>
        rw [Option.toList_some, List.map_singleton,
          Tree.leavesAll, leaves_htmlPart, Tree.leavesAll,
          List.append_nil]
        exact
          .cons ⟨rfl, rfl, partBytes_textPart textHtml html⟩
            hInlinePairs
  have hUploads :
      List.Forall₂ Carries
        ((if html.isNone then inline.map (.upload true)
            else []) ++ attachments.map (.upload false))
        ((if html.isNone then inlineParts else []) ++
          attachmentParts) := by
    cases html with
    | none => exact List.rel_append hInlinePairs hAttachmentPairs
    | some html => exact hAttachmentPairs
  rw [hRest, leaves_withUploads, leaves_ofAlternatives,
    leavesAll_append, leavesAll_append, leavesAll_map_leaf]
  exact
    List.rel_append
      (List.rel_append (List.rel_append hTexts hHtmls) hAmps)
      hUploads

end Mime

end MailgunRelay

------------------------------------------------------------
-- What A Message Conveys
------------------------------------------------------------

namespace MailgunRelay

namespace Pipeline

open Form (Item)

/- The body a form has under a key, unless it is empty. -/
def bodyOf (key : String) (items : List Item) : Option Str :=
  Mime.nonEmpty (textsOf key items).getLast?

/- The attachments a form has under a key. -/
def attachmentsOf
    (key : String)
    (items : List Item) : List Mime.Attachment :=
  (uploadsOf key items).map withDefaults

/- What a form asks to be built. -/
def requestedMessage
    (settings : Settings)
    (items : List Item)
    (sender : Mailbox)
    (subject : Str) : Mime.MessageInput :=
  { «from» := sender
    «to» := textsOf "to" items
    cc := textsOf "cc" items
    bcc := textsOf "bcc" items
    subject := subject
    text := (textsOf "text" items).getLast?
    html := (textsOf "html" items).getLast?
    ampHtml := (textsOf "amp-html" items).getLast?
    headers := headersOf items
    attachments := attachmentsOf "attachment" items
    inline := attachmentsOf "inline" items
    publicHost := settings.publicHost }

/- The parts a form asks for. -/
def wantedOf (items : List Item) : List Mime.Wanted :=
  Mime.wantedParts (bodyOf "text" items) (bodyOf "html" items)
    (bodyOf "amp-html" items) (attachmentsOf "inline" items)
    (attachmentsOf "attachment" items)

theorem messageInput_of_reads
    {settings : Settings}
    {items : List Item}
    {parsed : ParsedForm}
    {total : Nat}
    (hReads : Reads items parsed total)
    (sender : Mailbox)
    (subject : Str) :
    messageInput settings parsed sender subject =
      requestedMessage settings items sender subject := by
  unfold messageInput requestedMessage attachmentsOf
  rw [hReads.to, hReads.cc, hReads.bcc, hReads.text,
    hReads.html, hReads.ampHtml, hReads.headers,
    hReads.attachments, hReads.inline]

variable [Unicode] [Idna] [Base64] [Lettre]

/-
  A message conveys a form: its sender, its recipients and
  its subject are read from the fields, the head and the
  envelope are made of them, and every body and upload is a
  part of the tree, in order.
-/
structure Conveys
    (relay : Relay)
    (items : List Item)
    (message : BuiltMessage)
    (sender : Mailbox)
    («to» cc bcc : List Mailbox)
    (subject : Str)
    (fields : List Mime.Field)
    (tree : Mime.Tree) : Prop where
  «from» :
    ∃ address,
      itemsOf "from" items =
          [("from".toList, .text address)] ∧
        parseMailbox address = some sender
  recipients :
    Mime.parseRecipients (textsOf "to" items) = some «to» ∧
      Mime.parseRecipients (textsOf "cc" items) = some cc ∧
      Mime.parseRecipients (textsOf "bcc" items) = some bcc
  stripped :
    ∃ value,
      (textsOf "subject" items).getLast? = some value ∧
        subject = pyStrip value
  head :
    Mime.Head relay.date
      (requestedMessage relay.settings items sender subject)
      «to» cc message.messageId fields
  parts :
    List.Forall₂ Mime.Carries (wantedOf items) tree.leaves
  formatted :
    message.formatted =
      utf8 (fields.flatMap Mime.Field.render) ++
        Mime.Tree.formatted tree
  envelope :
    message.envelope =
      Mime.distinct []
        ((«to» ++ cc ++ bcc).map Mailbox.addrSpec)

/- A built message, in terms of what was requested. -/
theorem conveys_of_build
    {relay : Relay}
    {items : List Item}
    {sender : Mailbox}
    {subject address value : Str}
    {message : BuiltMessage}
    (hFrom :
      itemsOf "from" items =
        [("from".toList, .text address)])
    (hSender : parseMailbox address = some sender)
    (hValue :
      (textsOf "subject" items).getLast? = some value)
    (hSubject : subject = pyStrip value)
    (hBuild :
      Mime.build relay.hex relay.date
          (requestedMessage relay.settings items sender
            subject) = .ok message) :
    ∃ «to» cc bcc fields tree,
      Conveys relay items message sender «to» cc bcc subject
        fields tree := by
  unfold Mime.build at hBuild
  simp only [Lib.bind_eq_ok_iff, Mime.orInvalid_eq_ok_iff]
    at hBuild
  rcases hBuild with
    ⟨-, -, «to», hTo, cc, hCc, bcc, hBcc, -, -,
      ⟨messageId, fields⟩, hHead, tree, hTree, hEnd⟩
  cases hEnd
  exact
    ⟨«to», cc, bcc, fields, tree,
      { «from» := ⟨address, hFrom, hSender⟩
        recipients := ⟨hTo, hCc, hBcc⟩
        stripped := ⟨value, hValue, hSubject⟩
        head := Mime.head_of_headFields hHead
        parts := Mime.bodyTree_carries hTree
        formatted := rfl
        envelope := rfl }⟩

omit [Idna] [Base64] [Lettre] [Unicode] in
/- An accepted form has a subject. -/
theorem subject_of_parseForm
    {settings : Settings}
    {items : List Item}
    {parsed : ParsedForm}
    (hParse : parseForm settings items = .ok parsed) :
    ∃ value, parsed.subject = some value := by
  rcases Lib.bind_eq_ok_iff.mp hParse with
    ⟨⟨parsed', total⟩, -, hRest⟩
  rcases Lib.bind_eq_ok_iff.mp hRest with
    ⟨_, hRequired, hEnd⟩
  cases hEnd
  exact
    Option.ne_none_iff_exists'.mp
      (requireFields_eq_ok hRequired).2.1

omit [Idna] [Base64] [Lettre] [Unicode] in
/- A checked subject is the stripped one. -/
theorem eq_pyStrip_of_validateSubject
    {value subject : Str}
    {maxLength : I64}
    (hSubject : validateSubject value maxLength = .ok subject) :
    subject = pyStrip value := by
  unfold validateSubject at hSubject
  dsimp only at hSubject
  split at hSubject
  · cases hSubject
  split at hSubject
  · cases hSubject
  cases hSubject
  rfl

variable [Sha256]

/-
  A submitted message conveys the form of its request: no
  field, body or upload is lost, added, changed or moved.
-/
theorem submitted_conveys
    (relay : Relay)
    (request : Request)
    {message : BuiltMessage}
    (hMessage :
      message ∈
        (postMessages (components relay) relay
          request).1.submitted) :
    ∃ items,
      readForm relay.settings request = .ok items ∧
        ∃ sender «to» cc bcc subject fields tree,
          Conveys relay items message sender «to» cc bcc
            subject fields tree := by
  rw [(postMessages_follows _ relay request).submitted]
    at hMessage
  rcases course_submitted hMessage with
    ⟨input, hPrepare, hBuild⟩
  rcases passed_of_prepare hPrepare with
    ⟨policy, parsed, sender, subject, hPassed⟩
  rcases hPassed.form with ⟨items, hItems, hParsed⟩
  have hAccepted := accepted_of_parseForm hParsed
  rcases hAccepted.sender with ⟨address, hFrom, hAddress⟩
  rcases subject_of_parseForm hParsed with ⟨value, hValue⟩
  have hPolicy :=
    (enforceWith_eq_ok_iff _ _ policy request.domain
      (parsed.from.headD []) sender).mp hPassed.enforced
  have hSubject := eq_pyStrip_of_validateSubject hPassed.validated
  have hSender : parseMailbox address = some sender := by
    have hParse := hPolicy.2.1
    rw [hFrom] at hParse
    exact hParse
  rw [hValue, Option.getD_some] at hSubject
  rw [hPassed.input, messageInput_of_reads hAccepted.reads]
    at hBuild
  rw [hAccepted.reads.subject] at hValue
  rcases conveys_of_build hAddress hSender hValue hSubject
    hBuild with
    ⟨«to», cc, bcc, fields, tree, hConveys⟩
  exact
    ⟨items, hItems, sender, «to», cc, bcc, subject, fields,
      tree, hConveys⟩

omit [Unicode] [Idna] [Base64] [Lettre] [Sha256] in
/-
  A text and an attachment without a type, sent with the
  empty password.
-/
theorem submitted_conveys_attachment :
    let _ : Unicode := .ascii
    let _ : Idna := .aDe
    let _ : Base64 := .standard
    let _ : Lettre := .unfolded
    let _ : Sha256 := { digest := fun _ => Python.emptyDigest }
    let limit : I64 := ⟨1048576, by decide⟩
    let relay : Relay :=
      { settings :=
          { publicHost := "a.de".toList
            failOnPartialRefusal := false
            maxBodyBytes := limit
            maxAttachments := limit
            maxAttachmentBytes := limit
            maxRecipients := limit
            maxHeaderValueLength := limit }
        tokens :=
          [{ label := "t".toList
             tokenSha256 := hexLower Python.emptyDigest
             mailgunDomains := {"a.de".toList}
             allowedFromDomains := {"a.de".toList}
             allowedFromAddresses := none }]
        logger := { threshold := .info }
        submit := fun _ => .ok []
        requestId := []
        durationMs := 0
        hex := some "0f".toList
        date := "Mon".toList }
    let entries : List Form.Entry :=
      [.field "from".toList "b@a.de".toList,
       .field "to".toList "x@a.de".toList,
       .field "subject".toList " Hi ".toList,
       .field "text".toList "Hello".toList,
       .file "attachment".toList "a.bin".toList none [255]]
    let request : Request :=
      { domain := "a.de".toList
        headers :=
          [("authorization".toList,
            utf8 ("Basic ".toList ++
              Base64.encode (utf8 "api:".toList))),
           ("content-type".toList,
            utf8 "multipart/form-data; boundary=b".toList)]
        body := [.data (Form.multipartBody [98] entries [])] }
    ∃ message items sender «to» cc bcc subject fields tree,
      message ∈
          (postMessages (components relay) relay
            request).1.submitted ∧
        Conveys relay items message sender «to» cc bcc subject
          fields tree := by
  intro _ _ _ _ _ limit relay entries request
  have hOne :
      (postMessages (components relay) relay
        request).1.submitted.length = 1 := by
    decide +kernel
  rcases List.length_eq_one_iff.mp hOne with
    ⟨message, hMessages⟩
  have hMessage :
      message ∈
        (postMessages (components relay) relay
          request).1.submitted := by
    rw [hMessages]
    exact List.mem_singleton_self message
  rcases submitted_conveys relay request hMessage with
    ⟨items, -, sender, «to», cc, bcc, subject, fields, tree,
      hConveys⟩
  exact
    ⟨message, items, sender, «to», cc, bcc, subject, fields,
      tree, hMessage, hConveys⟩

end Pipeline

end MailgunRelay
