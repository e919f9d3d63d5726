import MailgunRelay.Lib.Assoc
import MailgunRelay.Lib.Result
import MailgunRelay.Mime

/-
  What a built message consists of.

  Key definitions include:
    * `MailgunRelay.Mime.Head`

  Key theorems include:
    * `MailgunRelay.Mime.customHeaders_fields`
    * `MailgunRelay.Mime.head_of_headFields`
    * `MailgunRelay.Mime.fields_of_build`
-/

------------------------------------------------------------
-- The Head
------------------------------------------------------------

namespace MailgunRelay

namespace Mime

@[simp] theorem orInvalid_eq_ok_iff
    {α : Type}
    {x : Option α}
    {a : α} :
    orInvalid x = .ok a ↔ x = some a := by
  cases x <;> simp [orInvalid]

@[simp] theorem orPanic_eq_ok_iff
    {α : Type}
    {x : Option α}
    {a : α} :
    orPanic x = .ok a ↔ x = some a := by
  cases x <;> simp [orPanic]

variable [Unicode] [Idna] [Base64] [Lettre]

/- The fields of a top-level head in order. -/
structure Head
    (date : Str)
    (input : MessageInput)
    («to» cc : List Mailbox)
    (messageId : Str)
    (fields : List Field) : Prop where
  parts :
    ∃ fromField toFields ccFields subject custom,
      addressHeader "From".toList [input.from] =
          some fromField ∧
        recipientHeader "To".toList «to» = some toFields ∧
        recipientHeader "Cc".toList cc = some ccFields ∧
        unstructuredHeader "Subject".toList input.subject =
          some subject ∧
        customHeaders [] input.headers = some custom ∧
        fields =
          fromField :: toFields ++ ccFields ++
            [subject,
              { name := "Message-ID".toList
                value :=
                  Lettre.headerValue "Message-ID".toList
                    messageId },
              { name := "Date".toList, value := date },
              { name := "MIME-Version".toList
                value := "1.0".toList }] ++
            custom
  messageId :
    ∃ hex : Str,
      messageId = '<' :: hex ++ '@' :: input.publicHost ++ ['>']

theorem head_of_headFields
    {hex : Option Str}
    {date : Str}
    {input : MessageInput}
    {«to» cc : List Mailbox}
    {messageId : Str}
    {fields : List Field}
    (hHead :
      headFields hex date input «to» cc =
        .ok (messageId, fields)) :
    Head date input «to» cc messageId fields := by
  unfold headFields at hHead
  simp only [Lib.bind_eq_ok_iff, orInvalid_eq_ok_iff,
    orPanic_eq_ok_iff] at hHead
  rcases hHead with
    ⟨fromField, hFrom, toFields, hTo, ccFields, hCc, subject,
      hSubject, digits, -, custom, hCustom, hEnd⟩
  cases hEnd
  exact
    { parts :=
        ⟨fromField, toFields, ccFields, subject, custom,
          hFrom, hTo, hCc, hSubject, hCustom, rfl⟩
      messageId := ⟨digits, rfl⟩ }

end Mime

end MailgunRelay

------------------------------------------------------------
-- Custom Headers
------------------------------------------------------------

namespace MailgunRelay

namespace Mime

variable [Unicode] [Idna] [Base64] [Lettre]

/- Every custom header is one field, in their order. -/
theorem customHeaders_fields
    {unique : List Str}
    {headers : List (Str × Str)}
    {fields : List Field}
    (hCustom : customHeaders unique headers = some fields) :
    List.Forall₂
      (fun header field =>
        customHeader (asciiLowercase header.1) header.1
          header.2 = some field)
      headers fields := by
  fun_induction customHeaders unique headers generalizing
    fields with
  | case1 =>
      cases hCustom
      exact .nil
  | case2 => cases hCustom
  | case3 => cases hCustom
  | case4 => cases hCustom
  | case5 =>
      rename_i ih
      rcases Option.bind_eq_some_iff.mp hCustom with
        ⟨field, hField, hCustom⟩
      rcases Option.bind_eq_some_iff.mp hCustom with
        ⟨fields', hRest, hEnd⟩
      cases hEnd
      exact .cons hField (ih hRest)

end Mime

end MailgunRelay

------------------------------------------------------------
-- The Message
------------------------------------------------------------

namespace MailgunRelay

namespace Mime

variable [Unicode] [Idna] [Base64] [Lettre]

/- The head of a built message, in front of its body. -/
theorem fields_of_build
    {hex : Option Str}
    {date : Str}
    {input : MessageInput}
    {message : BuiltMessage}
    (hBuild : build hex date input = .ok message) :
    ∃ «to» cc fields tree,
      parseRecipients input.to = some «to» ∧
        parseRecipients input.cc = some cc ∧
        Head date input «to» cc message.messageId fields ∧
        message.formatted =
          utf8 (fields.flatMap Field.render) ++
            Tree.formatted tree := by
  unfold build at hBuild
  simp only [Lib.bind_eq_ok_iff, orInvalid_eq_ok_iff]
    at hBuild
  rcases hBuild with
    ⟨-, -, «to», hTo, cc, hCc, bcc, -, -, -, ⟨messageId,
      fields⟩, hHead, tree, -, hEnd⟩
  cases hEnd
  exact
    ⟨«to», cc, fields, tree, hTo, hCc,
      head_of_headFields hHead, rfl⟩

end Mime

end MailgunRelay
