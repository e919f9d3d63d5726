import MailgunRelay.Lib.Result
import MailgunRelay.Mime.Writing
import MailgunRelay.Python.MimeBuild

/-
  The MIME tree of a message: what it consists of, and that
  it is the tree Python builds.

  Key definitions include:
    * `MailgunRelay.Mime.Tree.leaves`
    * `MailgunRelay.Mime.expectedTree`
    * `MailgunRelay.Mime.Matches`

  Key theorems include:
    * `MailgunRelay.Mime.leaves_expectedTree`
    * `MailgunRelay.Mime.bodyTree_eq`
    * `MailgunRelay.Python.buildStructure_eq`
    * `MailgunRelay.Mime.expectedTree_rel`
    * `MailgunRelay.Mime.bodyTree_structure`
-/

------------------------------------------------------------
-- The Tree
------------------------------------------------------------

namespace MailgunRelay

namespace Mime

mutual

/- The parts of a tree in order. -/
def Tree.leaves : Tree → List SinglePart
| .leaf part => [part]
| .alternative children => Tree.leavesAll children
| .related children => Tree.leavesAll children
| .mixed children => Tree.leavesAll children

def Tree.leavesAll : List Tree → List SinglePart
| [] => []
| child :: rest => Tree.leaves child ++ Tree.leavesAll rest

end

/- The containers of some kind of tree. -/
structure Containers (τ : Type) where
  alternative : List τ → τ
  related : List τ → τ
  mixed : List τ → τ

/- One body stands alone. -/
def ofBodies {τ : Type} (k : Containers τ) : List τ → τ
| [body] => body
| bodies => k.alternative bodies

/- The html body, with the inline uploads if there are any. -/
def withInline
    {τ : Type}
    (k : Containers τ)
    (html : τ)
    (inline : List τ) : τ :=
  if inline.isEmpty then html else k.related (html :: inline)

/- A tree and the uploads behind it, if there are any. -/
def withUploads
    {τ : Type}
    (k : Containers τ)
    (core : τ)
    (rest : List τ) : τ :=
  if rest.isEmpty then core else k.mixed (core :: rest)

/-
  The tree of some bodies and uploads: inline uploads with
  the html body, or else in front of the attachments.
-/
def expectedTree
    {τ : Type}
    (k : Containers τ)
    (text html amp : Option τ)
    (inline attachments : List τ) : τ :=
  withUploads k
    (ofBodies k
      (text.toList ++
        (html.map fun h => withInline k h inline).toList ++
        amp.toList))
    ((if html.isNone then inline else []) ++ attachments)

/- The containers of the trees here. -/
def Tree.containers : Containers Tree :=
  { alternative := .alternative
    related := .related
    mixed := .mixed }

theorem ofBodies_eq
    (trees : List Tree) :
    ofBodies Tree.containers trees = ofAlternatives trees := by
  match trees with
  | [] => rfl
  | [_] => rfl
  | _ :: _ :: _ => rfl

@[simp] theorem leavesAll_append
    (trees trees' : List Tree) :
    Tree.leavesAll (trees ++ trees') =
      Tree.leavesAll trees ++ Tree.leavesAll trees' := by
  induction trees with
  | nil => rfl
  | cons tree trees ih =>
      simp [Tree.leavesAll, ih]

@[simp] theorem leavesAll_map_leaf
    (parts : List SinglePart) :
    Tree.leavesAll (parts.map .leaf) = parts := by
  induction parts with
  | nil => rfl
  | cons part parts ih =>
      simp [Tree.leavesAll, Tree.leaves, ih]

/- Alternatives or a single body have the same parts. -/
theorem leaves_ofAlternatives
    (trees : List Tree) :
    Tree.leaves (ofAlternatives trees) =
      Tree.leavesAll trees := by
  unfold ofAlternatives
  split
  · simp [Tree.leavesAll]
  · rfl

theorem leaves_withInline
    (html : Tree)
    (inline : List SinglePart) :
    Tree.leaves
        (withInline Tree.containers html
          (inline.map .leaf)) =
      html.leaves ++ inline := by
  unfold withInline
  cases inline with
  | nil => simp
  | cons part rest =>
      rw [if_neg (by simp), Tree.containers, Tree.leaves,
        Tree.leavesAll, leavesAll_map_leaf]

theorem leaves_withUploads
    (core : Tree)
    (rest : List SinglePart) :
    Tree.leaves
        (withUploads Tree.containers core
          (rest.map .leaf)) =
      core.leaves ++ rest := by
  unfold withUploads
  cases rest with
  | nil => simp
  | cons part rest =>
      rw [if_neg (by simp), Tree.containers, Tree.leaves,
        Tree.leavesAll, leavesAll_map_leaf]

/-
  Every body and every upload is one part, inline uploads
  behind the html body or in front of the attachments.
-/
theorem leaves_expectedTree
    (text html amp : Option SinglePart)
    (inline attachments : List SinglePart) :
    (expectedTree Tree.containers (text.map .leaf)
        (html.map .leaf) (amp.map .leaf) (inline.map .leaf)
        (attachments.map .leaf)).leaves =
      text.toList ++
        (html.toList ++
          (if html.isSome then inline else [])) ++
        amp.toList ++
        ((if html.isNone then inline else []) ++
          attachments) := by
  unfold expectedTree
  have hRest :
      (if (html.map Tree.leaf).isNone then
            inline.map Tree.leaf
          else []) ++ attachments.map Tree.leaf =
        ((if html.isNone then inline else []) ++
          attachments).map Tree.leaf := by
    cases html <;> simp
  rw [hRest, leaves_withUploads, ofBodies_eq,
    leaves_ofAlternatives,
    leavesAll_append, leavesAll_append]
  congr 1
  cases html with
  | none => cases text <;> cases amp <;> rfl
  | some html =>
      have hHtml :=
        leaves_withInline (.leaf html) inline
      cases text <;> cases amp <;>
        simp [Tree.leavesAll, Tree.leaves, hHtml]

variable [Unicode] [Base64] [Lettre]

/- Only no uploads have no parts. -/
theorem isEmpty_uploadParts
    {inline : Bool}
    {uploads : List Attachment}
    {parts : List Tree}
    (hUploads : uploadParts inline uploads = .ok parts) :
    parts.isEmpty = uploads.isEmpty := by
  cases uploads with
  | nil =>
      cases hUploads
      rfl
  | cons upload rest =>
      rcases Lib.bind_eq_ok_iff.mp hUploads with
        ⟨part, -, hUploads⟩
      rcases Lib.bind_eq_ok_iff.mp hUploads with
        ⟨others, -, hEnd⟩
      cases hEnd
      rfl

omit [Unicode] [Base64] [Lettre] in
/- One alternative or several are no mixed tree. -/
theorem addMixed_ofAlternatives
    {trees : List Tree}
    (hTrees : ∀ tree ∈ trees, ∀ children, tree ≠ .mixed children)
    (parts : List Tree) :
    addMixed (ofAlternatives trees) parts =
      .mixed (ofAlternatives trees :: parts) := by
  unfold addMixed
  split
  · rename_i children hMixed
    unfold ofAlternatives at hMixed
    split at hMixed
    · exact absurd hMixed (hTrees _ List.mem_cons_self children)
    · cases hMixed
  · rfl

/- Uploads behind bodies: first inline ones, if any. -/
theorem joined_eq
    {bodies inlineParts attachmentParts : List Tree}
    {attachments : List Attachment}
    (hBodies :
      ∀ body ∈ bodies, ∀ children, body ≠ .mixed children)
    (hAttachments :
      uploadParts false attachments = .ok attachmentParts)
    (noHtml : Bool) :
    (let tree := ofAlternatives bodies
    let tree :=
      if noHtml && !inlineParts.isEmpty then
        Tree.mixed (tree :: inlineParts)
      else
        tree
    if attachments.isEmpty then
      pure tree
    else do
      let parts ← uploadParts false attachments
      pure (addMixed tree parts)) =
        Except.ok (ε := BuildError)
          (withUploads Tree.containers (ofAlternatives bodies)
            ((if noHtml then inlineParts else []) ++
              attachmentParts)) := by
  have hEmpty := isEmpty_uploadParts hAttachments
  simp only [hAttachments, Lib.ok_bind, ← hEmpty]
  unfold withUploads
  by_cases hInline : (noHtml && !inlineParts.isEmpty) = true
  · have hSome := hInline
    rw [Bool.and_eq_true, Bool.not_eq_true'] at hSome
    rw [if_pos hInline, if_pos hSome.1]
    cases attachmentParts with
    | nil =>
        simp only [List.isEmpty_nil, if_true, List.append_nil,
          hSome.2, Bool.false_eq_true, if_false]
        rfl
    | cons part rest =>
        have hFull :
            (inlineParts ++ part :: rest).isEmpty = false := by
          simp
        simp only [List.isEmpty_cons, addMixed, hFull,
          Bool.false_eq_true, if_false, List.cons_append]
        rfl
  · have hRest :
        (if noHtml then inlineParts else []) = [] := by
      rw [Bool.and_eq_true, Bool.not_eq_true', not_and,
        Bool.not_eq_false, List.isEmpty_iff] at hInline
      split
      · rename_i hNone
        exact hInline hNone
      · rfl
    rw [if_neg hInline, hRest, List.nil_append]
    cases attachmentParts with
    | nil => rfl
    | cons part rest =>
        rw [addMixed_ofAlternatives hBodies]
        rfl

/- The tree that is built, when its uploads can be. -/
theorem bodyTree_eq
    {text html ampHtml : Option Str}
    {inline attachments : List Attachment}
    {inlineParts attachmentParts : List Tree}
    {ampType : ContentType}
    (hAmp :
      Lettre.contentType
          "text/x-amp-html; charset=utf-8".toList =
        some ampType)
    (hInline : uploadParts true inline = .ok inlineParts)
    (hAttachments :
      uploadParts false attachments = .ok attachmentParts) :
    bodyTree text html ampHtml inline attachments =
      .ok
        (expectedTree Tree.containers
          (text.map fun t => .leaf (textPart textPlain t))
          (html.map fun h => .leaf (textPart textHtml h))
          (ampHtml.map fun a => .leaf (textPart ampType a))
          inlineParts attachmentParts) := by
  have hBodies (amps : List Tree)
      (hAmps : ∀ amp ∈ amps, ∃ part, amp = .leaf part) :
      ∀ body ∈
        text.toList.map (fun t =>
            Tree.leaf (textPart textPlain t)) ++
          html.toList.map (fun h => htmlPart h inlineParts) ++
          amps,
        ∀ children, body ≠ .mixed children := by
    intro body hMem children
    simp only [List.mem_append, List.mem_map] at hMem
    rcases hMem with (⟨t, -, rfl⟩ | ⟨h, -, rfl⟩) | hAmp
    · nofun
    · unfold htmlPart
      dsimp only
      split
      · nofun
      · nofun
    · rcases hAmps body hAmp with ⟨part, rfl⟩
      nofun
  have hHtml :
      (html.map fun h =>
          Tree.leaf (textPart textHtml h)).isNone =
        html.isNone := by
    cases html <;> rfl
  unfold bodyTree expectedTree
  rw [hInline, Lib.ok_bind, hHtml, ofBodies_eq]
  simp only [Option.map_map, Option.toList_map]
  cases ampHtml with
  | none => exact joined_eq (hBodies [] nofun) hAttachments _
  | some amp =>
      simp only [hAmp, orPanic, Lib.ok_bind]
      apply joined_eq (hBodies _ ?_) hAttachments _
      intro tree hMem
      exact ⟨_, List.mem_singleton.mp hMem⟩

end Mime

end MailgunRelay

------------------------------------------------------------
-- Python's Steps
------------------------------------------------------------

namespace MailgunRelay

namespace Python

/- A container that takes one upload after another. -/
theorem addMultipart_all
    (kind : MultiKind)
    (parts : List EmailMessage)
    (contents : List Content) :
    contents.foldlM (addMultipart kind)
        (.multipart kind parts) =
      some (.multipart kind (parts ++ contents.map .leaf)) := by
  induction contents generalizing parts with
  | nil => simp
  | cons content contents ih =>
      have hOne :
          addMultipart kind (.multipart kind parts) content =
            some
              (.multipart kind (parts ++ [.leaf content])) := by
        simp [addMultipart, EmailMessage.attach]
      rw [List.foldlM_cons, hOne]
      refine (ih _).trans ?_
      simp

/- A message that is converted first. -/
theorem addMultipart_convert
    {kind : MultiKind}
    {msg : EmailMessage}
    (hConvert :
      ∀ content,
        addMultipart kind msg content =
          some (.multipart kind [msg, .leaf content]))
    {contents : List Content}
    (hSome : contents ≠ []) :
    contents.foldlM (addMultipart kind) msg =
      some (.multipart kind (msg :: contents.map .leaf)) := by
  cases contents with
  | nil => exact absurd rfl hSome
  | cons content contents =>
      rw [List.foldlM_cons, hConvert]
      exact addMultipart_all kind _ contents

/- Calls on one part of a container change that part. -/
theorem callOn_all
    (kind : MultiKind)
    (front back : List EmailMessage)
    (part : EmailMessage)
    (contents : List Content) :
    contents.foldlM
        (fun m content =>
          callOn (fun p => addRelated p content) m
            (.part front.length))
        (.multipart kind (front ++ part :: back)) =
      (contents.foldlM addRelated part).map fun p =>
        .multipart kind (front ++ p :: back) := by
  induction contents generalizing part with
  | nil => rfl
  | cons content contents ih =>
      rw [List.foldlM_cons, List.foldlM_cons]
      cases hOne : addRelated part content with
      | none => simp [callOn, hOne]
      | some part' =>
          have hCall :
              callOn (fun p => addRelated p content)
                  (.multipart kind (front ++ part :: back))
                  (.part front.length) =
                some
                  (.multipart kind (front ++ part' :: back)) := by
            simp [callOn, hOne]
          rw [hCall]
          exact ih part'

open Mime (Attachment Containers expectedTree nonEmpty
  ofBodies withInline withUploads)

/- The containers of the email package. -/
def EmailMessage.containers : Containers EmailMessage :=
  { alternative := .multipart .alternative
    related := .multipart .related
    mixed := .multipart .mixed }

/- Uploads behind a message that is not mixed itself. -/
theorem addAttachment_all
    {core : EmailMessage}
    (hConvert :
      ∀ content,
        addAttachment core content =
          some (.multipart .mixed [core, .leaf content]))
    (before contents : List Content) :
    contents.foldlM addAttachment
        (withUploads EmailMessage.containers core
          (before.map .leaf)) =
      some
        (withUploads EmailMessage.containers core
          ((before ++ contents).map .leaf)) := by
  cases before with
  | nil =>
      cases contents with
      | nil => rfl
      | cons content contents =>
          exact
            addMultipart_convert hConvert
              (List.cons_ne_nil content contents)
  | cons first before =>
      have hAll :=
        addMultipart_all .mixed
          (core :: (first :: before).map .leaf) contents
      simp only [List.map_append]
      exact hAll

/- Uploads related to the html body. -/
theorem addRelated_all
    (html : Content)
    (contents : List Content) :
    contents.foldlM addRelated (.leaf html) =
      some
        (withInline EmailMessage.containers (.leaf html)
          (contents.map .leaf)) := by
  cases contents with
  | nil => rfl
  | cons content contents =>
      exact
        addMultipart_convert (fun _ => rfl)
          (List.cons_ne_nil content contents)

variable [Unicode]

/- Inline uploads without an html body. -/
theorem addInline_none
    {core : EmailMessage}
    (hConvert :
      ∀ content,
        addAttachment core content =
          some (.multipart .mixed [core, .leaf content]))
    (inline : List Attachment) :
    inline.foldlM (addInline none) core =
      some
        (withUploads EmailMessage.containers core
          ((inline.map (uploadContent true)).map .leaf)) := by
  have hAll :=
    addAttachment_all hConvert []
      (inline.map (uploadContent true))
  rw [List.foldlM_map] at hAll
  exact hAll

theorem addInline_message
    (html : Content)
    (inline : List Attachment) :
    inline.foldlM (addInline (some .message)) (.leaf html) =
      some
        (withInline EmailMessage.containers (.leaf html)
          ((inline.map (uploadContent true)).map .leaf)) := by
  have hAll :=
    addRelated_all html (inline.map (uploadContent true))
  rw [List.foldlM_map] at hAll
  exact hAll

theorem addInline_part
    (front back : List EmailMessage)
    (html : Content)
    (inline : List Attachment) :
    inline.foldlM (addInline (some (.part front.length)))
        (.multipart .alternative
          (front ++ .leaf html :: back)) =
      some
        (.multipart .alternative
          (front ++
            withInline EmailMessage.containers (.leaf html)
              ((inline.map (uploadContent true)).map .leaf) ::
            back)) := by
  have hAll :=
    callOn_all .alternative front back (.leaf html)
      (inline.map (uploadContent true))
  rw [addRelated_all, List.foldlM_map] at hAll
  exact hAll

/- A message that `add_attachment` converts. -/
def Convertible (msg : EmailMessage) : Prop :=
  ∀ content,
    addAttachment msg content =
      some (.multipart .mixed [msg, .leaf content])

omit [Unicode] in
theorem convertible_withInline
    (html : Content)
    (inline : List EmailMessage) :
    Convertible
      (withInline EmailMessage.containers (.leaf html)
        inline) := by
  unfold withInline
  split
  · exact fun _ => rfl
  · exact fun _ => rfl

theorem attachments_eq
    {core : EmailMessage}
    (hConvert : Convertible core)
    (before : List Content)
    (attachments : List Attachment) :
    attachments.foldlM
        (fun msg upload =>
          addAttachment msg (uploadContent false upload))
        (withUploads EmailMessage.containers core
          (before.map .leaf)) =
      some
        (withUploads EmailMessage.containers core
          (before.map .leaf ++
            (attachments.map (uploadContent false)).map
              .leaf)) := by
  have hAll :=
    addAttachment_all hConvert before
      (attachments.map (uploadContent false))
  rw [List.foldlM_map, List.map_append] at hAll
  exact hAll

/- The bodies, as the message they are first made into. -/
theorem buildStructure_of_bodies
    {msg core : EmailMessage}
    {before : List Content}
    {inline attachments : List Attachment}
    (hConvert : Convertible core)
    (hInline :
      inline.foldlM (addInline (findHtmlPart msg)) msg =
        some
          (withUploads EmailMessage.containers core
            (before.map .leaf))) :
    (do
      let htmlPart := findHtmlPart msg
      let msg ← inline.foldlM (addInline htmlPart) msg
      attachments.foldlM
        (fun msg upload =>
          addAttachment msg (uploadContent false upload))
        msg) =
      some
        (withUploads EmailMessage.containers core
          (before.map .leaf ++
            (attachments.map (uploadContent false)).map
              .leaf)) := by
  simp only [hInline]
  exact attachments_eq hConvert before attachments

/- With an html body the inline uploads are part of it. -/
theorem buildStructure_of_html
    {msg core : EmailMessage}
    {inline attachments : List Attachment}
    (hConvert : Convertible core)
    (hInline :
      inline.foldlM (addInline (findHtmlPart msg)) msg =
        some core) :
    (do
      let htmlPart := findHtmlPart msg
      let msg ← inline.foldlM (addInline htmlPart) msg
      attachments.foldlM
        (fun msg upload =>
          addAttachment msg (uploadContent false upload))
        msg) =
      some
        (withUploads EmailMessage.containers core
          ((attachments.map (uploadContent false)).map
            .leaf)) := by
  simp only [hInline]
  exact attachments_eq hConvert [] attachments

/- The message `build_message` makes of its bodies. -/
theorem buildStructure_eq
    {text html ampHtml : Option Str}
    {inline attachments : List Attachment}
    (hBody :
      (nonEmpty text).isSome = true ∨
        (nonEmpty html).isSome = true) :
    buildStructure text html ampHtml inline attachments =
      some
        (expectedTree EmailMessage.containers
          ((nonEmpty text).map fun t =>
            .leaf (.text t "plain".toList))
          ((nonEmpty html).map fun h =>
            .leaf (.text h "html".toList))
          ((nonEmpty ampHtml).map fun a =>
            .leaf (.text a "x-amp-html".toList))
          ((inline.map (uploadContent true)).map .leaf)
          ((attachments.map (uploadContent false)).map
            .leaf)) := by
  unfold buildStructure
  cases hText : nonEmpty text with
  | none =>
      cases hHtml : nonEmpty html with
      | none =>
          rw [hText, hHtml] at hBody
          simp at hBody
      | some h =>
          cases hAmp : nonEmpty ampHtml with
          | none =>
              have hInline :=
                addInline_message (.text h "html".toList) inline
              exact
                buildStructure_of_html
                  (convertible_withInline _ _) hInline
          | some a =>
              have hInline :=
                addInline_part []
                  [.leaf (.text a "x-amp-html".toList)]
                  (.text h "html".toList) inline
              exact
                buildStructure_of_html (fun _ => rfl) hInline
  | some t =>
      cases hHtml : nonEmpty html with
      | none =>
          cases hAmp : nonEmpty ampHtml with
          | none =>
              exact
                buildStructure_of_bodies (fun _ => rfl)
                  (addInline_none (fun _ => rfl) inline)
          | some a =>
              exact
                buildStructure_of_bodies (fun _ => rfl)
                  (addInline_none (fun _ => rfl) inline)
      | some h =>
          cases hAmp : nonEmpty ampHtml with
          | none =>
              have hInline :=
                addInline_part
                  [.leaf (.text t "plain".toList)] []
                  (.text h "html".toList) inline
              exact
                buildStructure_of_html (fun _ => rfl) hInline
          | some a =>
              have hInline :=
                addInline_part
                  [.leaf (.text t "plain".toList)]
                  [.leaf (.text a "x-amp-html".toList)]
                  (.text h "html".toList) inline
              exact
                buildStructure_of_html (fun _ => rfl) hInline

end Python

end MailgunRelay

------------------------------------------------------------
-- The Same Structure
------------------------------------------------------------

namespace MailgunRelay

namespace Mime

open Python (Content EmailMessage uploadContent)

/- The same structure of related parts is related. -/
theorem expectedTree_rel
    {τ σ : Type}
    {k : Containers τ}
    {k' : Containers σ}
    {R : τ → σ → Prop}
    (hAlternative :
      ∀ as bs, List.Forall₂ R as bs →
        R (k.alternative as) (k'.alternative bs))
    (hRelated :
      ∀ as bs, List.Forall₂ R as bs →
        R (k.related as) (k'.related bs))
    (hMixed :
      ∀ as bs, List.Forall₂ R as bs →
        R (k.mixed as) (k'.mixed bs))
    {text html amp : Option τ}
    {text' html' amp' : Option σ}
    {inline attachments : List τ}
    {inline' attachments' : List σ}
    (hText : Option.Rel R text text')
    (hHtml : Option.Rel R html html')
    (hAmp : Option.Rel R amp amp')
    (hInline : List.Forall₂ R inline inline')
    (hAttachments : List.Forall₂ R attachments attachments') :
    R (expectedTree k text html amp inline attachments)
      (expectedTree k' text' html' amp' inline'
        attachments') := by
  have hList {a : Option τ} {b : Option σ}
      (hRel : Option.Rel R a b) :
      List.Forall₂ R a.toList b.toList := by
    cases hRel with
    | some hSome => exact .cons hSome .nil
    | none => exact .nil
  have hOf {as : List τ} {bs : List σ}
      (hRel : List.Forall₂ R as bs) :
      R (ofBodies k as) (ofBodies k' bs) := by
    match hRel with
    | .nil => exact hAlternative _ _ .nil
    | .cons hOne .nil => exact hOne
    | .cons hOne (.cons hTwo hRest) =>
        exact
          hAlternative _ _ (.cons hOne (.cons hTwo hRest))
  have hWith {a : τ} {b : σ} (hRel : R a b) :
      R (withInline k a inline) (withInline k' b inline') := by
    cases hInline with
    | nil => exact hRel
    | cons hOne hRest =>
        exact hRelated _ _ (.cons hRel (.cons hOne hRest))
  have hUploads {a : τ} {b : σ} {as : List τ} {bs : List σ}
      (hRel : R a b) (hRest : List.Forall₂ R as bs) :
      R (withUploads k a as) (withUploads k' b bs) := by
    cases hRest with
    | nil => exact hRel
    | cons hOne hMore =>
        exact hMixed _ _ (.cons hRel (.cons hOne hMore))
  unfold expectedTree
  cases hHtml with
  | some hSome =>
      refine hUploads (hOf ?_) hAttachments
      exact
        List.rel_append
          (List.rel_append (hList hText)
            (.cons (hWith hSome) .nil))
          (hList hAmp)
  | none =>
      refine hUploads (hOf ?_)
        (List.rel_append hInline hAttachments)
      exact
        List.rel_append (List.rel_append (hList hText) .nil)
          (hList hAmp)

variable [Unicode] [Base64] [Lettre]

/- The part that is built for a content. -/
inductive Renders (ampType : ContentType) :
    Content → SinglePart → Prop where
  | plain
      (text : Str) :
      Renders ampType (.text text "plain".toList)
        (textPart textPlain text)
  | html
      (text : Str) :
      Renders ampType (.text text "html".toList)
        (textPart textHtml text)
  | amp
      (text : Str) :
      Renders ampType (.text text "x-amp-html".toList)
        (textPart ampType text)
  | upload
      {upload : Attachment} {inline : Bool}
      {part : SinglePart}
      (hPart : uploadPart upload inline = .ok (.leaf part)) :
      Renders ampType (uploadContent inline upload) part

/- A message and a tree of the same structure. -/
inductive Matches (ampType : ContentType) :
    EmailMessage → Tree → Prop where
  | leaf
      {content : Content} {part : SinglePart}
      (hPart : Renders ampType content part) :
      Matches ampType (.leaf content) (.leaf part)
  | alternative
      {parts : List EmailMessage} {children : List Tree}
      (hParts : List.Forall₂ (Matches ampType) parts children) :
      Matches ampType (.multipart .alternative parts)
        (.alternative children)
  | related
      {parts : List EmailMessage} {children : List Tree}
      (hParts : List.Forall₂ (Matches ampType) parts children) :
      Matches ampType (.multipart .related parts)
        (.related children)
  | mixed
      {parts : List EmailMessage} {children : List Tree}
      (hParts : List.Forall₂ (Matches ampType) parts children) :
      Matches ampType (.multipart .mixed parts)
        (.mixed children)

/- An upload is one part. -/
theorem uploadPart_leaf
    {upload : Attachment}
    {inline : Bool}
    {tree : Tree}
    (hUpload : uploadPart upload inline = .ok tree) :
    ∃ part, tree = .leaf part := by
  unfold uploadPart at hUpload
  rcases Lib.bind_eq_ok_iff.mp hUpload with ⟨-, -, hUpload⟩
  rcases Lib.bind_eq_ok_iff.mp hUpload with
    ⟨contentType, -, hUpload⟩
  split at hUpload
  · rcases Lib.bind_eq_ok_iff.mp hUpload with ⟨-, -, hUpload⟩
    rcases Lib.bind_eq_ok_iff.mp hUpload with ⟨id, -, hEnd⟩
    cases hEnd
    exact ⟨_, rfl⟩
  · cases hUpload
    exact ⟨_, rfl⟩

/- Uploads that can be built are one part each, in order. -/
theorem uploadParts_leaves
    {inline : Bool}
    {uploads : List Attachment}
    (hUploads :
      ∀ upload ∈ uploads, ∃ tree,
        uploadPart upload inline = .ok tree) :
    ∃ parts : List SinglePart,
      uploadParts inline uploads = .ok (parts.map .leaf) ∧
        List.Forall₂
          (fun upload part =>
            uploadPart upload inline = .ok (.leaf part))
          uploads parts := by
  induction uploads with
  | nil => exact ⟨[], rfl, .nil⟩
  | cons upload rest ih =>
      rcases List.forall_mem_cons.mp hUploads with
        ⟨⟨tree, hTree⟩, hRest⟩
      rcases uploadPart_leaf hTree with ⟨part, rfl⟩
      rcases ih hRest with ⟨parts, hParts, hPairs⟩
      refine ⟨part :: parts, ?_, .cons hTree hPairs⟩
      rw [uploadParts, hTree, hParts]
      rfl

/-
  The tree of a message has every body and every upload as
  one part, in order, and it has Python's structure.
-/
theorem bodyTree_structure
    {text html ampHtml : Option Str}
    {inline attachments : List Attachment}
    {ampType : ContentType}
    (hAmp :
      Lettre.contentType
          "text/x-amp-html; charset=utf-8".toList =
        some ampType)
    (hBody : text.isSome = true ∨ html.isSome = true)
    (hInline :
      ∀ upload ∈ inline, ∃ tree,
        uploadPart upload true = .ok tree)
    (hAttachments :
      ∀ upload ∈ attachments, ∃ tree,
        uploadPart upload false = .ok tree) :
    ∃ inlineParts attachmentParts : List SinglePart,
      List.Forall₂
          (fun upload part =>
            uploadPart upload true = .ok (.leaf part))
          inline inlineParts ∧
        List.Forall₂
          (fun upload part =>
            uploadPart upload false = .ok (.leaf part))
          attachments attachmentParts ∧
        let textPart' := text.map (textPart textPlain)
        let htmlPart' := html.map (textPart textHtml)
        let ampPart' := ampHtml.map (textPart ampType)
        let tree :=
          expectedTree Tree.containers (textPart'.map .leaf)
            (htmlPart'.map .leaf) (ampPart'.map .leaf)
            (inlineParts.map .leaf)
            (attachmentParts.map .leaf)
        bodyTree text html ampHtml inline attachments =
            .ok tree ∧
          tree.leaves =
            textPart'.toList ++
              (htmlPart'.toList ++
                (if html.isSome then inlineParts else [])) ++
              ampPart'.toList ++
              ((if html.isNone then inlineParts else []) ++
                attachmentParts) ∧
          (nonEmpty text = text → nonEmpty html = html →
            nonEmpty ampHtml = ampHtml →
              ∃ msg,
                Python.buildStructure text html ampHtml inline
                    attachments = some msg ∧
                  Matches ampType msg tree) := by
  rcases uploadParts_leaves hInline with
    ⟨inlineParts, hInlineParts, hInlinePairs⟩
  rcases uploadParts_leaves hAttachments with
    ⟨attachmentParts, hAttachmentParts, hAttachmentPairs⟩
  refine
    ⟨inlineParts, attachmentParts, hInlinePairs,
      hAttachmentPairs, ?_, ?_, ?_⟩
  · rw [bodyTree_eq hAmp hInlineParts hAttachmentParts]
    simp only [Option.map_map]
    rfl
  · have hLeaves :=
      leaves_expectedTree (text.map (textPart textPlain))
        (html.map (textPart textHtml))
        (ampHtml.map (textPart ampType)) inlineParts
        attachmentParts
    rw [Option.isSome_map, Option.isNone_map] at hLeaves
    exact hLeaves
  · intro hText hHtml hAmpHtml
    rw [← hText, ← hHtml] at hBody
    refine ⟨_, Python.buildStructure_eq hBody, ?_⟩
    rw [hText, hHtml, hAmpHtml]
    have hOption {body : Option Str}
        {content : Str → Content} {part : Str → SinglePart}
        (hPart : ∀ s, Renders ampType (content s) (part s)) :
        Option.Rel (Matches ampType)
          (body.map fun s => .leaf (content s))
          ((body.map part).map .leaf) := by
      cases body with
      | none => exact .none
      | some s => exact .some (.leaf (hPart s))
    have hUploads {inline : Bool} {uploads : List Attachment}
        {parts : List SinglePart}
        (hPairs :
          List.Forall₂
            (fun upload part =>
              uploadPart upload inline = .ok (.leaf part))
            uploads parts) :
        List.Forall₂ (Matches ampType)
          ((uploads.map (uploadContent inline)).map .leaf)
          (parts.map .leaf) := by
      simp only [List.forall₂_map_left_iff,
        List.forall₂_map_right_iff]
      exact
        hPairs.imp fun upload part hPart =>
          .leaf (.upload hPart)
    exact
      expectedTree_rel (fun _ _ => .alternative)
        (fun _ _ => .related) (fun _ _ => .mixed)
        (hOption .plain) (hOption .html) (hOption .amp)
        (hUploads hInlinePairs) (hUploads hAttachmentPairs)

omit [Unicode] [Base64] [Lettre] in
/- Two bodies, an inline upload and an attachment. -/
theorem bodyTree_structure_uploads :
    let _ : Unicode := .ascii
    let _ : Base64 := .standard
    let _ : Lettre := .unfolded
    let logo : Attachment :=
      { filename := "logo.png".toList
        contentType := "image/png".toList
        data := [1] }
    let paper : Attachment :=
      { filename := "a.pdf".toList
        contentType := "application/pdf".toList
        data := [2] }
    ∃ tree,
      bodyTree (some "Hi".toList) (some "<p>".toList) none
          [logo] [paper] = .ok tree ∧
        tree.leaves.length = 4 := by
  intro _ _ _ logo paper
  have hLogo : ∃ tree, uploadPart logo true = .ok tree :=
    Lib.exists_of_isOk (by decide +kernel)
  have hPaper : ∃ tree, uploadPart paper false = .ok tree :=
    Lib.exists_of_isOk (by decide +kernel)
  have hBody :
      (some "Hi".toList).isSome = true ∨
        (some "<p>".toList).isSome = true := .inl rfl
  rcases @bodyTree_structure _ _ _ _ _ none _ _ _ rfl hBody
    (List.forall_mem_singleton.mpr hLogo)
    (List.forall_mem_singleton.mpr hPaper) with
    ⟨inlineParts, attachmentParts, hInline, hAttachments,
      hTree, hLeaves, -⟩
  refine ⟨_, hTree, ?_⟩
  rw [hLeaves]
  have hOne := hInline.length_eq
  have hTwo := hAttachments.length_eq
  simp [← hOne, ← hTwo]

end Mime

end MailgunRelay
