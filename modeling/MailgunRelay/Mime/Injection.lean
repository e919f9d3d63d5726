import MailgunRelay.Mime.Writing
import MailgunRelay.Smtp.Sender

/-
  The head of a built message: which fields it has, and that
  no value of them starts another one.

  Key definitions include:
    * `MailgunRelay.Mime.ValueLaws`
    * `MailgunRelay.Mime.SafeHead`

  Key theorems include:
    * `MailgunRelay.Mime.writtenMailboxes_plain`
    * `MailgunRelay.Mime.addressHeader_onlyFolds`
    * `MailgunRelay.Mime.unstructuredHeader_onlyFolds`
    * `MailgunRelay.Mime.build_safeHead`
-/

------------------------------------------------------------
-- Values
------------------------------------------------------------

namespace MailgunRelay

namespace Mime

/- What is assumed of `HeaderValue::new`. -/
structure ValueLaws [Lettre] : Prop where
  folds : ∀ name value, value.all isPlainChar = true →
    ∃ text, text.all isPlainChar = true ∧
      Lib.Folding.Folds (Lettre.headerValue name value) text

/- Printable text breaks no line. -/
theorem unbroken_of_plain
    {text : Str}
    (hPlain : text.all isPlainChar = true) :
    Lib.Folding.Unbroken text := by
  intro c hMem
  have hChar := List.all_eq_true.mp hPlain c hMem
  constructor
  · rintro rfl
    cases hChar
  · rintro rfl
    cases hChar

variable [Base64]

theorem EncodesText.plain
    {text : Str}
    {words : List (Token × Bytes)}
    (hWords : EncodesText text words) :
    (writtenWords words).all isPlainChar = true := by
  rw [List.all_eq_true]
  intro c hMem
  rcases hWords.chars hMem with hOwn | rfl
  · exact (isOwnChar_spec hOwn).1
  · rfl

/- What is forwarded of printable text is printable. -/
theorem forwardable_plain
    (hBase64 : Base64Laws)
    {value text : Str}
    {phrase isQuoted : Bool}
    (hPlain : value.all isPlainChar = true)
    (hForward :
      forwardable value phrase isQuoted = some text) :
    text.all isPlainChar = true := by
  rw [List.all_eq_true] at hPlain ⊢
  intro c hMem
  rcases forwardable_chars hBase64 hForward hMem with
    hValue | hOwn | rfl
  · exact hPlain c hValue
  · exact (isOwnChar_spec hOwn).1
  · rfl

theorem WrittenDisplay.plain
    (hBase64 : Base64Laws)
    {display text : Str}
    (hWritten : WrittenDisplay display text) :
    text.all isPlainChar = true := by
  cases hWritten with
  | @received text hPlain hForward =>
      have hText := forwardable_plain hBase64 hPlain hForward
      unfold shown
      split
      · rw [List.all_eq_true] at hText ⊢
        intro c hMem
        rcases mem_of_mem_quote hMem with rfl | rfl | hIn
        · rfl
        · rfl
        · exact hText c hIn
      · exact hText
  | encoded hNone hWords => exact hWords.plain

omit [Base64] in
/- The characters of an address are printable. -/
theorem isPlainChar_of_graphic
    {c : Char}
    (hAscii : isAsciiChar c = true)
    (hGraphic : 0x20 < c.toNat ∧ c.toNat < 0x7f) :
    isPlainChar c = true := by
  revert hGraphic
  exact
    forall_ascii
      (P := fun c => 0x20 < c.toNat ∧ c.toNat < 0x7f →
        isPlainChar c = true)
      (by decide +kernel) hAscii

variable [Unicode] [Idna]

omit [Base64] in
theorem addrSpec_plain
    (hStd3 : Std3Laws)
    {chars : Str}
    {m : Mailbox}
    (hMailbox : mailbox chars = some m) :
    m.addrSpec.all isPlainChar = true := by
  have hStable := Smtp.mailbox_stable hStd3 hMailbox
  rw [List.all_eq_true]
  intro c hMem
  have hChar := hStable.plain c hMem
  exact
    isPlainChar_of_graphic (hStable.ascii c hMem)
      ⟨hChar.1, hChar.2.1⟩

theorem WrittenMailbox.plain
    (hStd3 : Std3Laws)
    (hBase64 : Base64Laws)
    {chars text : Str}
    {m : Mailbox}
    (hMailbox : mailbox chars = some m)
    (hWritten : WrittenMailbox m text) :
    text.all isPlainChar = true := by
  have hAddress := addrSpec_plain hStd3 hMailbox
  cases hWritten with
  | bare hNone => exact hAddress
  | named hName hDisplay =>
      have hText := hDisplay.plain hBase64
      simp only [List.all_append, List.all_cons, List.all_nil,
        hText, hAddress]
      decide

/- The text of an address header is printable. -/
theorem writtenMailboxes_plain
    (hStd3 : Std3Laws)
    (hBase64 : Base64Laws)
    {ms : List Mailbox}
    {written : List Str}
    (hMailboxes : ∀ m ∈ ms, ∃ chars, mailbox chars = some m)
    (hWritten : List.Forall₂ WrittenMailbox ms written) :
    ([',', ' '].intercalate written).all isPlainChar =
      true := by
  have hAll :
      ∀ text ∈ written, text.all isPlainChar = true := by
    induction hWritten with
    | nil => nofun
    | @cons m text ms written hHere hRest ih =>
        intro text' hMem
        rcases List.mem_cons.mp hMem with rfl | hLater
        · rcases hMailboxes m List.mem_cons_self with
            ⟨chars, hChars⟩
          exact hHere.plain hStd3 hBase64 hChars
        · exact
            ih (fun m' hMem' =>
              hMailboxes m' (List.mem_cons_of_mem _ hMem'))
              text' hLater
  rw [List.all_eq_true]
  intro c hMem
  rcases Lib.Text.mem_intercalate hMem with
    hSep | ⟨text, hText, hIn⟩
  · have hPlain :
        ([',', ' '].all isPlainChar) = true := by
      decide
    exact List.all_eq_true.mp hPlain c hSep
  · exact List.all_eq_true.mp (hAll text hText) c hIn

variable [Lettre]

/- An address header breaks lines only where it folds. -/
theorem addressHeader_onlyFolds
    (hStd3 : Std3Laws)
    (hBase64 : Base64Laws)
    (hWriter : WriterLaws)
    {name : Str}
    {ms : List Mailbox}
    {field : Field}
    (hMailboxes : ∀ m ∈ ms, ∃ chars, mailbox chars = some m)
    (hHeader : addressHeader name ms = some field) :
    field.name = name ∧
      Lib.Folding.OnlyFolds field.value := by
  rcases addressHeader_written hWriter hHeader with
    ⟨hName, written, hWritten, hFolds⟩
  have hPlain :=
    writtenMailboxes_plain hStd3 hBase64 hMailboxes hWritten
  exact ⟨hName, hFolds.onlyFolds (unbroken_of_plain hPlain)⟩

omit [Unicode] [Idna] in
/- So does an unstructured one, whatever its value is. -/
theorem unstructuredHeader_onlyFolds
    (hBase64 : Base64Laws)
    (hWriter : WriterLaws)
    (hValue : ValueLaws)
    {name value : Str}
    {field : Field}
    (hHeader : unstructuredHeader name value = some field) :
    field.name = name ∧
      Lib.Folding.OnlyFolds field.value := by
  unfold unstructuredHeader at hHeader
  split at hHeader
  · cases hHeader
  split at hHeader
  · rename_i hPlain
    rcases Option.bind_eq_some_iff.mp hHeader with
      ⟨text, hForward, hField⟩
    cases hField
    unfold isPlain at hPlain
    rw [Bool.and_eq_true] at hPlain
    rcases hValue.folds name text
      (forwardable_plain hBase64 hPlain.1 hForward) with
      ⟨written, hWritten, hFolds⟩
    exact
      ⟨rfl, hFolds.onlyFolds (unbroken_of_plain hWritten)⟩
  split at hHeader
  · cases hHeader
  cases hHeader
  refine ⟨rfl, ?_⟩
  rcases hWriter.folds (byteLen name + 2)
    [.encode (value.dropWhile isWsp)] with
    ⟨text, hWrites, hFolds⟩
  cases hWrites with
  | encode hWords hRest =>
      cases hRest
      rw [List.append_nil] at hFolds
      exact
        hFolds.onlyFolds (unbroken_of_plain hWords.plain)

end Mime

end MailgunRelay

------------------------------------------------------------
-- Custom Headers
------------------------------------------------------------

namespace MailgunRelay

namespace Mime

/- The fields the relay writes itself. -/
def relayNames : List Str :=
  ["from", "to", "cc", "subject", "message-id", "date",
    "mime-version"].map String.toList

/- The fields of the MIME structure, and the hidden one. -/
def structureNames : List Str :=
  ["content-type", "content-transfer-encoding",
    "content-disposition", "content-id", "bcc"].map
    String.toList

/- The syntax of a name is ASCII. -/
theorem isHeaderName_ascii
    {name : Str}
    (hName : isHeaderName name = true)
    {c : Char}
    (hMem : c ∈ name) :
    isAsciiChar c = true := by
  cases name with
  | nil => cases hName
  | cons d rest =>
      simp only [isHeaderName, Bool.and_eq_true,
        List.all_eq_true, Bool.or_eq_true, beq_iff_eq]
        at hName
      rcases List.mem_cons.mp hMem with rfl | hLater
      · have hAlnum : c.isAlphanum = true := by
          simp [Char.isAlphanum, hName.1]
        exact (isAlphanum_plain hAlnum).1
      · rcases hName.2 c hLater with hAlnum | rfl
        · exact (isAlphanum_plain hAlnum).1
        · rfl

section

variable [Unicode]

/- A validated header has a name no other part writes. -/
theorem validated_name
    {maxLength : I64}
    {headers : List (Str × Str)}
    (hValid :
      validateCustomHeaders maxLength headers = .ok ())
    {header : Str × Str}
    (hMem : header ∈ headers) :
    isHeaderName header.1 = true ∧
      asciiLowercase header.1 ∉
        relayNames ++ structureNames := by
  induction headers with
  | nil => cases hMem
  | cons first rest ih =>
      unfold validateCustomHeaders at hValid
      split at hValid
      · cases hValid
      rename_i hSyntax
      split at hValid
      · cases hValid
      rename_i hDangerous
      split at hValid
      · cases hValid
      split at hValid
      · cases hValid
      rcases List.mem_cons.mp hMem with rfl | hLater
      · rw [Bool.not_eq_true, Bool.not_eq_false'] at hSyntax
        refine ⟨hSyntax, fun hListed => hDangerous ?_⟩
        have hAll :
            ((relayNames ++ structureNames).all fun name =>
              dangerousNames.contains name) = true := by
          decide +kernel
        have hName := List.all_eq_true.mp hAll _ hListed
        unfold isDangerous
        rw [lowercase_of_ascii fun c hC =>
          isHeaderName_ascii hSyntax hC]
        rw [Bool.or_eq_true]
        exact .inl hName
      · exact ih hValid hLater

end

variable [Unicode] [Idna] [Base64] [Lettre]

/- Headers that may occur once do, and no later one. -/
theorem customHeaders_unique
    {unique : List Str}
    {headers : List (Str × Str)}
    {fields : List Field}
    (hCustom : customHeaders unique headers = some fields)
    {name : Str}
    (hName : name ∈ uniqueNames) :
    (headers.map fun header =>
        asciiLowercase header.1).count name ≤
      if name ∈ unique then 0 else 1 := by
  fun_induction customHeaders unique headers generalizing
    fields with
  | case1 => exact Nat.zero_le _
  | case2 => cases hCustom
  | case3 => cases hCustom
  | case4 => cases hCustom
  | case5 =>
      rename_i unique first value rest lower hDate hFirst hIds
        ih
      rcases Option.bind_eq_some_iff.mp hCustom with
        ⟨field, hField, hCustom⟩
      rcases Option.bind_eq_some_iff.mp hCustom with
        ⟨fields', hRest, -⟩
      have hLater := ih hRest
      rw [List.map_cons, List.count_cons]
      by_cases hSame : lower = name
      · have hUnique : lower ∈ uniqueNames := by
          rw [hSame]
          exact hName
        have hNew : name ∉ unique := fun hMem =>
          hFirst ⟨hUnique, by rw [hSame]; exact hMem⟩
        rw [if_pos hUnique,
          if_pos (by rw [hSame]; exact List.mem_cons_self)]
          at hLater
        rw [if_neg hNew, if_pos (beq_iff_eq.mpr hSame)]
        omega
      · have hMem :
            name ∈
                (if lower ∈ uniqueNames then lower :: unique
                  else unique) ↔
              name ∈ unique := by
          split
          · rw [List.mem_cons]
            exact or_iff_right (Ne.symm hSame)
          · exact Iff.rfl
        simp only [hMem] at hLater
        rw [if_neg (by rw [beq_iff_eq]; exact hSame)]
        exact hLater

/- What a custom header is written as. -/
theorem customHeader_onlyFolds
    (hStd3 : Std3Laws)
    (hBase64 : Base64Laws)
    (hWriter : WriterLaws)
    (hValue : ValueLaws)
    {name value : Str}
    {field : Field}
    (hHeader :
      customHeader (asciiLowercase name) name value =
        some field) :
    asciiLowercase field.name = asciiLowercase name ∧
      (isHeaderName name = true →
        isHeaderName field.name = true) ∧
      Lib.Folding.OnlyFolds field.value := by
  unfold customHeader at hHeader
  split at hHeader
  · rename_i hReply
    rcases Option.bind_eq_some_iff.mp hHeader with
      ⟨mailboxes, hParsed, hHeader⟩
    split at hHeader
    · cases hHeader
    unfold parseMailboxList at hParsed
    split at hParsed
    · cases hParsed
    rcases addressHeader_onlyFolds hStd3 hBase64 hWriter
      (fun m hMem => mailbox_of_mem_mailboxes hParsed hMem)
      hHeader with ⟨hName, hFolds⟩
    rw [hName, hReply]
    exact ⟨by decide, fun _ => by decide, hFolds⟩
  · rcases unstructuredHeader_onlyFolds hBase64 hWriter hValue
      hHeader with ⟨hName, hFolds⟩
    rw [hName]
    exact ⟨rfl, id, hFolds⟩

end Mime

end MailgunRelay

------------------------------------------------------------
-- The Parts
------------------------------------------------------------

namespace MailgunRelay

namespace Mime

/- Every part of a tree is one of these. -/
inductive Tree.Every (P : SinglePart → Prop) : Tree → Prop where
  | leaf
      {part : SinglePart}
      (hPart : P part) :
      Tree.Every P (.leaf part)
  | alternative
      {children : List Tree}
      (hChildren : ∀ child ∈ children, Tree.Every P child) :
      Tree.Every P (.alternative children)
  | related
      {children : List Tree}
      (hChildren : ∀ child ∈ children, Tree.Every P child) :
      Tree.Every P (.related children)
  | mixed
      {children : List Tree}
      (hChildren : ∀ child ∈ children, Tree.Every P child) :
      Tree.Every P (.mixed children)

/- The Content-ID of a part breaks no line but by folds. -/
def SafePart (part : SinglePart) : Prop :=
  ∀ id, part.contentId = some id → Lib.Folding.OnlyFolds id

theorem textPart_safe
    (contentType : ContentType)
    (text : Str) :
    Tree.Every SafePart (.leaf (textPart contentType text)) :=
  .leaf nofun

theorem ofAlternatives_every
    {P : SinglePart → Prop}
    {trees : List Tree}
    (hTrees : ∀ tree ∈ trees, Tree.Every P tree) :
    Tree.Every P (ofAlternatives trees) := by
  unfold ofAlternatives
  split
  · exact hTrees _ List.mem_cons_self
  · exact .alternative hTrees

theorem htmlPart_safe
    {html : Str}
    {inlineParts : List Tree}
    (hInline :
      ∀ tree ∈ inlineParts, Tree.Every SafePart tree) :
    Tree.Every SafePart (htmlPart html inlineParts) := by
  have hText := textPart_safe textHtml html
  unfold htmlPart
  split
  · exact hText
  · exact .related (List.forall_mem_cons.mpr ⟨hText, hInline⟩)

theorem addMixed_every
    {P : SinglePart → Prop}
    {tree : Tree}
    {parts : List Tree}
    (hTree : Tree.Every P tree)
    (hParts : ∀ part ∈ parts, Tree.Every P part) :
    Tree.Every P (addMixed tree parts) := by
  unfold addMixed
  split
  · cases hTree with
    | mixed hChildren =>
        apply Tree.Every.mixed
        intro child hMem
        rcases List.mem_append.mp hMem with hOld | hNew
        · exact hChildren child hOld
        · exact hParts child hNew
  · exact .mixed (List.forall_mem_cons.mpr ⟨hTree, hParts⟩)

variable [Unicode] [Base64] [Lettre]

theorem uploadParts_safe
    (hBase64 : Base64Laws)
    (hWriter : WriterLaws)
    (hValue : ValueLaws)
    {inline : Bool}
    {uploads : List Attachment}
    {parts : List Tree}
    (hUploads : uploadParts inline uploads = .ok parts) :
    ∀ part ∈ parts, Tree.Every SafePart part := by
  induction uploads generalizing parts with
  | nil =>
      cases hUploads
      nofun
  | cons upload rest ih =>
      unfold uploadParts at hUploads
      rcases Lib.bind_eq_ok_iff.mp hUploads with
        ⟨part, hPart, hUploads⟩
      rcases Lib.bind_eq_ok_iff.mp hUploads with
        ⟨others, hOthers, hEnd⟩
      cases hEnd
      refine List.forall_mem_cons.mpr ⟨?_, ih hOthers⟩
      unfold uploadPart at hPart
      rcases Lib.bind_eq_ok_iff.mp hPart with ⟨-, -, hPart⟩
      rcases Lib.bind_eq_ok_iff.mp hPart with
        ⟨contentType, -, hPart⟩
      split at hPart
      · rcases Lib.bind_eq_ok_iff.mp hPart with ⟨-, -, hPart⟩
        rcases Lib.bind_eq_ok_iff.mp hPart with
          ⟨field, hField, hEnd⟩
        cases hEnd
        have hFolds :=
          (unstructuredHeader_onlyFolds hBase64 hWriter hValue
            (orInvalid_eq_ok_iff.mp hField)).2
        apply Tree.Every.leaf
        intro id hId
        cases hId
        exact hFolds
      · cases hPart
        exact .leaf nofun

/- The alternatives, the inline parts, the attachments. -/
theorem joined_safe
    (hBase64 : Base64Laws)
    (hWriter : WriterLaws)
    (hValue : ValueLaws)
    {alternatives inlineParts : List Tree}
    {withInline : Bool}
    {attachments : List Attachment}
    {tree : Tree}
    (hAlternatives :
      ∀ tree ∈ alternatives, Tree.Every SafePart tree)
    (hInline :
      ∀ tree ∈ inlineParts, Tree.Every SafePart tree)
    (hTree :
      (let tree := ofAlternatives alternatives
      let tree :=
        if withInline then .mixed (tree :: inlineParts)
        else tree
      if attachments.isEmpty then
        pure tree
      else do
        let parts ← uploadParts false attachments
        pure (addMixed tree parts)) =
          Except.ok (ε := BuildError) tree) :
    Tree.Every SafePart tree := by
  have hBase := ofAlternatives_every hAlternatives
  have hMixed :
      Tree.Every SafePart
        (if withInline then
          .mixed (ofAlternatives alternatives :: inlineParts)
        else
          ofAlternatives alternatives) := by
    split
    · exact .mixed (List.forall_mem_cons.mpr ⟨hBase, hInline⟩)
    · exact hBase
  simp only at hTree
  by_cases hNone : attachments.isEmpty = true
  · rw [if_pos hNone] at hTree
    cases hTree
    exact hMixed
  · rw [if_neg hNone] at hTree
    rcases Lib.bind_eq_ok_iff.mp hTree with
      ⟨parts, hParts, hEnd⟩
    cases hEnd
    exact
      addMixed_every hMixed
        (uploadParts_safe hBase64 hWriter hValue hParts)

theorem bodyTree_safe
    (hBase64 : Base64Laws)
    (hWriter : WriterLaws)
    (hValue : ValueLaws)
    {text html ampHtml : Option Str}
    {inline attachments : List Attachment}
    {tree : Tree}
    (hTree :
      bodyTree text html ampHtml inline attachments =
        .ok tree) :
    Tree.Every SafePart tree := by
  unfold bodyTree at hTree
  rcases Lib.bind_eq_ok_iff.mp hTree with
    ⟨inlineParts, hInline, hTree⟩
  have hInlineParts :=
    uploadParts_safe hBase64 hWriter hValue hInline
  have hBodies :
      ∀ tree ∈ text.toList.map (fun t =>
            Tree.leaf (textPart textPlain t)) ++
          html.toList.map (fun h => htmlPart h inlineParts),
        Tree.Every SafePart tree := by
    intro tree hMem
    rcases List.mem_append.mp hMem with hText | hHtml
    · rcases List.mem_map.mp hText with ⟨t, -, rfl⟩
      exact textPart_safe _ t
    · rcases List.mem_map.mp hHtml with ⟨h, -, rfl⟩
      exact htmlPart_safe hInlineParts
  cases ampHtml with
  | none =>
      apply joined_safe hBase64 hWriter hValue ?_ hInlineParts
        hTree
      rw [List.append_nil]
      exact hBodies
  | some amp =>
      rcases Lib.bind_eq_ok_iff.mp hTree with
        ⟨ampType, -, hTree⟩
      apply joined_safe hBase64 hWriter hValue ?_ hInlineParts
        hTree
      intro tree hMem
      rcases List.mem_append.mp hMem with hBody | hAmp
      · exact hBodies tree hBody
      · rw [List.mem_singleton.mp hAmp]
        exact textPart_safe ampType amp

end Mime

end MailgunRelay

------------------------------------------------------------
-- The Head
------------------------------------------------------------

namespace MailgunRelay

namespace Mime

/-
  The fields of a head: those of the relay, once each and in
  order, then one for each custom header.
-/
structure SafeHead
    (input : MessageInput)
    (relay custom : List Field) : Prop where
  relayNames :
    relay.map Field.name =
      ["From".toList] ++
        (if input.to = [] then [] else ["To".toList]) ++
        (if input.cc = [] then [] else ["Cc".toList]) ++
        ["Subject".toList, "Message-ID".toList,
          "Date".toList, "MIME-Version".toList]
  customNames :
    List.Forall₂
      (fun header field =>
        isHeaderName field.name = true ∧
          asciiLowercase field.name = asciiLowercase header.1)
      input.headers custom
  values :
    ∀ field ∈ relay ++ custom,
      Lib.Folding.OnlyFolds field.value
  reserved :
    ∀ field ∈ custom,
      asciiLowercase field.name ∉
        Mime.relayNames ++ structureNames
  unique :
    ∀ name ∈ uniqueNames,
      (custom.map fun field =>
        asciiLowercase field.name).count name ≤ 1

variable [Unicode] [Idna] [Base64] [Lettre]

omit [Base64] [Lettre] in
/- Every recipient was parsed. -/
theorem mailbox_of_parseRecipients
    {values : List Str}
    {ms : List Mailbox}
    (hParsed : parseRecipients values = some ms)
    {m : Mailbox}
    (hMem : m ∈ ms) :
    ∃ chars, mailbox chars = some m := by
  induction values generalizing ms with
  | nil =>
      cases hParsed
      cases hMem
  | cons value rest ih =>
      rcases Option.bind_eq_some_iff.mp hParsed with
        ⟨first, hFirst, hParsed⟩
      rcases Option.bind_eq_some_iff.mp hParsed with
        ⟨others, hOthers, hEnd⟩
      cases hEnd
      rcases List.mem_cons.mp hMem with rfl | hLater
      · exact ⟨value, mailbox_of_parseMailbox hFirst⟩
      · exact ih hOthers hLater

/- Their header is there when there is one. -/
theorem recipientHeader_onlyFolds
    (hStd3 : Std3Laws)
    (hBase64 : Base64Laws)
    (hWriter : WriterLaws)
    {name : Str}
    {values : List Str}
    {ms : List Mailbox}
    {fields : List Field}
    (hParsed : parseRecipients values = some ms)
    (hHeader : recipientHeader name ms = some fields) :
    fields.map Field.name =
        (if values = [] then [] else [name]) ∧
      ∀ field ∈ fields, Lib.Folding.OnlyFolds field.value := by
  have hEmpty : ms.isEmpty = true ↔ values = [] := by
    cases values with
    | nil =>
        cases hParsed
        simp
    | cons value rest =>
        rcases Option.bind_eq_some_iff.mp hParsed with
          ⟨first, hFirst, hParsed⟩
        rcases Option.bind_eq_some_iff.mp hParsed with
          ⟨others, hOthers, hEnd⟩
        cases hEnd
        simp
  unfold recipientHeader at hHeader
  split at hHeader
  · rename_i hNone
    cases hHeader
    rw [if_pos (hEmpty.mp hNone)]
    exact ⟨rfl, nofun⟩
  · rename_i hSome
    rcases Option.bind_eq_some_iff.mp hHeader with
      ⟨field, hField, hEnd⟩
    cases hEnd
    rcases addressHeader_onlyFolds hStd3 hBase64 hWriter
      (fun m hMem => mailbox_of_parseRecipients hParsed hMem)
      hField with ⟨hName, hFolds⟩
    rw [if_neg fun hNone => hSome (hEmpty.mpr hNone)]
    constructor
    · rw [List.map_singleton, hName]
    · intro field' hMem
      rw [List.mem_singleton.mp hMem]
      exact hFolds

/- The message id is made of the random digits. -/
theorem messageId_of_headFields
    {hex : Option Str}
    {date : Str}
    {input : MessageInput}
    {«to» cc : List Mailbox}
    {messageId : Str}
    {fields : List Field}
    (hHead :
      headFields hex date input «to» cc =
        .ok (messageId, fields)) :
    ∃ digits, hex = some digits ∧
      messageId =
        '<' :: digits ++ '@' :: input.publicHost ++ ['>'] := by
  unfold headFields at hHead
  simp only [Lib.bind_eq_ok_iff, orInvalid_eq_ok_iff,
    orPanic_eq_ok_iff] at hHead
  rcases hHead with
    ⟨_, -, _, -, _, -, _, -, digits, hDigits, _, -, hEnd⟩
  cases hEnd
  exact ⟨digits, hDigits, rfl⟩

/-
  A built message starts with the fields of the relay and
  one field for each custom header, and no value of them
  starts another field.
-/
theorem build_safeHead
    (hStd3 : Std3Laws)
    (hBase64 : Base64Laws)
    (hWriter : WriterLaws)
    (hValue : ValueLaws)
    {policy : TokenPolicy}
    {pathDomain «from» : Str}
    {maxLength : I64}
    {hex : Option Str}
    {date : Str}
    {input : MessageInput}
    {message : BuiltMessage}
    (hFrom :
      enforcePolicy policy pathDomain «from» = .ok input.from)
    (hHeaders :
      validateCustomHeaders maxLength input.headers = .ok ())
    (hHost : input.publicHost.all isPlainChar = true)
    (hHex :
      ∀ digits, hex = some digits →
        digits.all isPlainChar = true)
    (hDate : date.all isPlainChar = true)
    (hBuild : build hex date input = .ok message) :
    ∃ relay custom tree,
      SafeHead input relay custom ∧
        bodyTree (nonEmpty input.text) (nonEmpty input.html)
            (nonEmpty input.ampHtml) input.inline
            input.attachments = .ok tree ∧
        Tree.Every SafePart tree ∧
        message.formatted =
          utf8 ((relay ++ custom).flatMap Field.render) ++
            Tree.formatted tree := by
  unfold build at hBuild
  simp only [Lib.bind_eq_ok_iff, orInvalid_eq_ok_iff]
    at hBuild
  rcases hBuild with
    ⟨-, -, «to», hTo, cc, hCc, bcc, -, -, -,
      ⟨messageId, fields⟩, hHead, tree, hTree, hEnd⟩
  cases hEnd
  rcases messageId_of_headFields hHead with
    ⟨digits, hDigits, hId⟩
  rcases (head_of_headFields hHead).parts with
    ⟨fromField, toFields, ccFields, subject, custom, hFromField,
      hToFields, hCcFields, hSubject, hCustom, rfl⟩
  have hSender : mailbox «from» = some input.from :=
    mailbox_of_parseMailbox
      ((enforceWith_eq_ok_iff ..).mp hFrom).2.1
  have hSenders :
      ∀ m ∈ [input.from], ∃ chars, mailbox chars = some m :=
    fun m hMem =>
      ⟨«from», by rw [List.mem_singleton.mp hMem, hSender]⟩
  rcases addressHeader_onlyFolds hStd3 hBase64 hWriter hSenders
    hFromField with ⟨hFromName, hFromFolds⟩
  rcases recipientHeader_onlyFolds hStd3 hBase64 hWriter hTo
    hToFields with ⟨hToName, hToFolds⟩
  rcases recipientHeader_onlyFolds hStd3 hBase64 hWriter hCc
    hCcFields with ⟨hCcName, hCcFolds⟩
  rcases unstructuredHeader_onlyFolds hBase64 hWriter hValue
    hSubject with ⟨hSubjectName, hSubjectFolds⟩
  have hIdPlain : messageId.all isPlainChar = true := by
    rw [hId]
    simp only [List.all_append, List.all_cons, List.all_nil,
      List.cons_append, hHex digits hDigits, hHost]
    decide
  rcases hValue.folds "Message-ID".toList messageId hIdPlain
    with ⟨idText, hIdText, hIdFolds⟩
  have hCustomFields := customHeaders_fields hCustom
  have hNames :=
    hCustomFields.imp fun header field hField =>
      customHeader_onlyFolds hStd3 hBase64 hWriter hValue hField
  refine
    ⟨fromField :: toFields ++ ccFields ++
        [subject,
          { name := "Message-ID".toList
            value :=
              Lettre.headerValue "Message-ID".toList
                messageId },
          { name := "Date".toList, value := date },
          { name := "MIME-Version".toList
            value := "1.0".toList }],
      custom, tree, ?_, hTree,
      bodyTree_safe hBase64 hWriter hValue hTree, by simp⟩
  constructor
  · simp [hFromName, hToName, hCcName, hSubjectName]
  · have hBoth :=
      (List.forall₂_and_left input.headers custom).mpr
        ⟨fun header hMem =>
          (validated_name hHeaders hMem).1, hNames⟩
    exact
      hBoth.imp fun header field hPair =>
        ⟨hPair.2.2.1 hPair.1, hPair.2.1⟩
  · intro field hMem
    simp only [List.mem_append, List.mem_cons,
      List.not_mem_nil, or_false] at hMem
    rcases hMem with (((rfl | hMem) | hMem) |
      rfl | rfl | rfl | rfl) | hMem
    · exact hFromFolds
    · exact hToFolds field hMem
    · exact hCcFolds field hMem
    · exact hSubjectFolds
    · exact hIdFolds.onlyFolds (unbroken_of_plain hIdText)
    · exact
        (Lib.Folding.Folds.refl _).onlyFolds
          (unbroken_of_plain hDate)
    · exact
        (Lib.Folding.Folds.refl _).onlyFolds
          (unbroken_of_plain (by decide))
    · rcases Lib.Assoc.exists_of_mem_right hNames hMem with
        ⟨header, -, -, -, hFolds⟩
      exact hFolds
  · intro field hMem
    rcases Lib.Assoc.exists_of_mem_right hNames hMem with
      ⟨header, hHeader, hName, -⟩
    rw [hName]
    exact (validated_name hHeaders hHeader).2
  · intro name hName
    have hSame :
        List.Forall₂ (· = ·)
          (input.headers.map fun header =>
            asciiLowercase header.1)
          (custom.map fun field =>
            asciiLowercase field.name) := by
      apply List.forall₂_map_left_iff.mpr
      apply List.forall₂_map_right_iff.mpr
      exact hNames.imp fun header field hName => hName.1.symm
    rw [List.forall₂_eq_eq_eq] at hSame
    rw [← hSame]
    exact customHeaders_unique hCustom hName

omit [Unicode] [Idna] [Base64] [Lettre] in
theorem unfolded_valueLaws [Base64] :
    let _ : Lettre := .unfolded
    ValueLaws := by
  intro _
  exact
    { folds := fun _ value hPlain =>
        ⟨value, hPlain, Lib.Folding.Folds.refl value⟩ }

omit [Unicode] [Idna] [Base64] [Lettre] in
/- A message with a quoted name and two custom headers. -/
theorem build_safeHead_custom :
    let _ : Unicode := .ascii
    let _ : Idna := .aDe
    let _ : Base64 := .standard
    let _ : Lettre := .unfolded
    let input : MessageInput :=
      { «from» :=
          { displayName := "A, B".toList
            «local» := "a".toList
            domain := "a.de".toList }
        «to» := ["x@a.de".toList]
        cc := []
        bcc := []
        subject := "Hi".toList
        text := some "Hello".toList
        html := none
        ampHtml := none
        headers :=
          [("X-Tag".toList, "1".toList),
            ("reply-to".toList, "b@a.de".toList)]
        attachments := []
        inline := []
        publicHost := "relay.a.de".toList }
    ∃ message relay custom,
      build (some "0f".toList) "Mon".toList input =
          .ok message ∧
        SafeHead input relay custom := by
  intro _ _ _ _ input
  have hSome :
      (build (some "0f".toList) "Mon".toList input).isOk =
        true := by
    decide +kernel
  cases hBuild :
      build (some "0f".toList) "Mon".toList input with
  | error e =>
      rw [hBuild] at hSome
      cases hSome
  | ok message =>
      let policy : TokenPolicy :=
        { label := "t".toList
          tokenSha256 := []
          mailgunDomains := {"a.de".toList}
          allowedFromDomains := {"a.de".toList}
          allowedFromAddresses := none }
      have hFrom :
          enforcePolicy policy "a.de".toList
              "\"A, B\" <a@a.de>".toList = .ok input.from := by
        decide +kernel
      have hHeaders :
          validateCustomHeaders ⟨998, by decide⟩
              input.headers = .ok () := by
        decide +kernel
      rcases build_safeHead Smtp.aDe_std3Laws
        base64Laws_standard
        (unfolded_writerLaws base64Laws_standard)
        unfolded_valueLaws hFrom hHeaders (by decide +kernel)
        (fun digits hDigits => by cases hDigits; decide +kernel)
        (by decide +kernel) hBuild with
        ⟨relay, custom, -, hSafe, -⟩
      exact ⟨message, relay, custom, rfl, hSafe⟩

end Mime

end MailgunRelay
