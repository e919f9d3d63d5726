import MailgunRelay.Pipeline.FieldRules

/-
  What the field rules say about an accepted form.

  Key definitions include:
    * `MailgunRelay.Pipeline.Reads`
    * `MailgunRelay.Pipeline.Adds`
    * `MailgunRelay.Pipeline.Accepted`

  Key theorems include:
    * `MailgunRelay.Pipeline.adds_of_parseItem`
    * `MailgunRelay.Pipeline.fieldRules`
-/

------------------------------------------------------------
-- What A Form Gives
------------------------------------------------------------

namespace MailgunRelay

namespace Pipeline

open Form (Value Upload Item)

/- The text of an item with this key. -/
def textFor (key : Str) (item : Item) : Option Str :=
  match item.2 with
  | .text text => if item.1 = key then some text else none
  | .file _ => none

/- The upload of an item with this key. -/
def uploadFor (key : Str) (item : Item) : Option Upload :=
  match item.2 with
  | .text _ => none
  | .file upload => if item.1 = key then some upload else none

/- The items with a key in form order. -/
def itemsOf (key : String) (items : List Item) : List Item :=
  items.filter fun item => item.1 = key.toList

/- The texts with a key in form order. -/
def textsOf (key : String) (items : List Item) : List Str :=
  items.filterMap (textFor key.toList)

/- The uploads with a key in form order. -/
def uploadsOf
    (key : String)
    (items : List Item) : List Upload :=
  items.filterMap (uploadFor key.toList)

/- The custom headers: first position, last value. -/
def headersOf (items : List Item) : List (Str × Str) :=
  items.foldl
    (fun headers item =>
      match item.1, item.2 with
      | 'h' :: ':' :: name, .text text =>
          Lib.Assoc.set name text headers
      | _, _ => headers)
    []

/- The bytes of an item that the total counts. -/
def itemBytes (item : Item) : Nat :=
  match item.2 with
  | .text text =>
      if item.1 = "text".toList ∨ item.1 = "html".toList ∨
          item.1 = "amp-html".toList then
        (utf8 text).length
      else
        0
  | .file upload =>
      if item.1 = "attachment".toList ∨
          item.1 = "inline".toList then
        upload.data.length
      else
        0

/- The bytes of all bodies and uploads of a form. -/
def bodyBytes (items : List Item) : Nat :=
  (items.map itemBytes).sum

/- The items so far give this form and this total. -/
structure Reads
    (items : List Item)
    (parsed : ParsedForm)
    (total : Nat) : Prop where
  sender :
    itemsOf "from" items =
      parsed.from.map fun text =>
        ("from".toList, .text text)
  «to» : parsed.to = textsOf "to" items
  cc : parsed.cc = textsOf "cc" items
  bcc : parsed.bcc = textsOf "bcc" items
  subject :
    parsed.subject = (textsOf "subject" items).getLast?
  text : parsed.text = (textsOf "text" items).getLast?
  html : parsed.html = (textsOf "html" items).getLast?
  ampHtml :
    parsed.ampHtml = (textsOf "amp-html" items).getLast?
  headers : parsed.headers = headersOf items
  attachments :
    parsed.attachments =
      (uploadsOf "attachment" items).map withDefaults
  inline :
    parsed.inline =
      (uploadsOf "inline" items).map withDefaults
  total : total = bodyBytes items

/-
  The items so far are within the limits; a limit that was
  not looked at yet may be negative.
-/
structure Within
    (settings : Settings)
    (items : List Item)
    (parsed : ParsedForm)
    (total : Nat) : Prop where
  total :
    (parsed.text = none ∧ parsed.html = none) ∨
      (total : Int) ≤ settings.maxBodyBytes.val
  uploads :
    ∀ upload ∈ uploadsOf "attachment" items ++
        uploadsOf "inline" items,
      (upload.data.length : Int) ≤
        settings.maxAttachmentBytes.val
  count :
    (parsed.attachments = [] ∧ parsed.inline = []) ∨
      ((parsed.attachments.length +
          parsed.inline.length : Nat) : Int) ≤
        settings.maxAttachments.val

/- What an item adds to a form, within the limits. -/
inductive Adds
    (settings : Settings)
    (parsed : ParsedForm)
    (total : Nat) : Item → ParsedForm × Nat → Prop
| header (name text : Str) :
    Adds settings parsed total
      ('h' :: ':' :: name, .text text)
      ({ parsed with
          headers :=
            Lib.Assoc.set name text parsed.headers }, total)
| sender (text : Str) :
    Adds settings parsed total
      ("from".toList, .text text)
      ({ parsed with «from» := parsed.from ++ [text] }, total)
| «to» (text : Str) :
    Adds settings parsed total
      ("to".toList, .text text)
      ({ parsed with «to» := parsed.to ++ [text] }, total)
| cc (text : Str) :
    Adds settings parsed total
      ("cc".toList, .text text)
      ({ parsed with cc := parsed.cc ++ [text] }, total)
| bcc (text : Str) :
    Adds settings parsed total
      ("bcc".toList, .text text)
      ({ parsed with bcc := parsed.bcc ++ [text] }, total)
| subject (text : Str) :
    Adds settings parsed total
      ("subject".toList, .text text)
      ({ parsed with subject := some text }, total)
| body
    (key text : Str)
    (hKey :
      key = "text".toList ∨ key = "html".toList ∨
        key = "amp-html".toList)
    (hTotal :
      ((total + byteLen text : Nat) : Int) ≤
        settings.maxBodyBytes.val) :
    Adds settings parsed total (key, .text text)
      (parsed.setBody key text, total + byteLen text)
| attachment
    (upload : Upload)
    (hSize :
      (upload.data.length : Int) ≤
        settings.maxAttachmentBytes.val)
    (hTotal :
      ((total + upload.data.length : Nat) : Int) ≤
        settings.maxBodyBytes.val)
    (hCount :
      ((parsed.attachments.length + 1 +
          parsed.inline.length : Nat) : Int) ≤
        settings.maxAttachments.val) :
    Adds settings parsed total
      ("attachment".toList, .file upload)
      ({ parsed with
          attachments :=
            parsed.attachments ++ [withDefaults upload] },
        total + upload.data.length)
| inline
    (upload : Upload)
    (hSize :
      (upload.data.length : Int) ≤
        settings.maxAttachmentBytes.val)
    (hTotal :
      ((total + upload.data.length : Nat) : Int) ≤
        settings.maxBodyBytes.val)
    (hCount :
      ((parsed.attachments.length +
          (parsed.inline.length + 1) : Nat) : Int) ≤
        settings.maxAttachments.val) :
    Adds settings parsed total
      ("inline".toList, .file upload)
      ({ parsed with
          inline := parsed.inline ++ [withDefaults upload] },
        total + upload.data.length)

/- A text field is stored if it is text. -/
theorem requireText_eq_ok_iff
    {key text : Str}
    {value : Value} :
    requireText key value = .ok text ↔
      value = .text text := by
  cases value <;> simp [requireText]

theorem aggregate_eq_ok_iff
    {settings : Settings}
    {total : Nat} :
    aggregate settings total = .ok () ↔
      (total : Int) ≤ settings.maxBodyBytes.val := by
  unfold aggregate
  simp only [exceeds_iff]
  split
  · simp only [reduceCtorEq, false_iff]
    omega
  · simp only [true_iff]
    omega

theorem readUpload_eq_ok_iff
    {settings : Settings}
    {value : Value}
    {attachment : Mime.Attachment} :
    readUpload settings value = .ok attachment ↔
      ∃ upload, value = .file upload ∧
        attachment = withDefaults upload ∧
        (upload.data.length : Int) ≤
          settings.maxAttachmentBytes.val := by
  cases value with
  | text text => simp [readUpload]
  | file upload =>
      unfold readUpload
      simp only [exceeds_iff, Value.file.injEq,
        exists_eq_left']
      split
      · simp only [reduceCtorEq, false_iff, not_and]
        omega
      · simp only [Except.ok.injEq]
        constructor
        · rintro rfl
          exact ⟨rfl, by omega⟩
        · exact fun h => h.1.symm

/- An accepted upload is added. -/
theorem adds_of_parseUpload
    {settings : Settings}
    {parsed : ParsedForm}
    {total : Nat}
    {key : Str}
    {value : Value}
    {next : ParsedForm × Nat}
    (hKey : key = "attachment".toList ∨ key = "inline".toList)
    (hUpload :
      parseUpload settings parsed total key value = .ok next) :
    Adds settings parsed total (key, value) next := by
  unfold parseUpload at hUpload
  simp only [Lib.bind_eq_ok_iff, readUpload_eq_ok_iff]
    at hUpload
  rcases hUpload with
    ⟨attachment, ⟨upload, rfl, rfl, hSize⟩, _, hTotal, parsed',
      hAdd, hEnd⟩
  cases hEnd
  have hTotal := aggregate_eq_ok_iff.mp hTotal
  unfold ParsedForm.addUpload at hAdd
  rcases hKey with rfl | rfl
  · simp only [if_true, exceeds_iff] at hAdd
    split at hAdd
    · cases hAdd
    rename_i hCount
    cases hAdd
    simp only [List.length_append, List.length_singleton]
      at hCount
    exact .attachment upload hSize hTotal (by omega)
  · have hOther :
        "inline".toList ≠ "attachment".toList := by decide
    simp only [hOther, if_false, exceeds_iff] at hAdd
    split at hAdd
    · cases hAdd
    rename_i hCount
    cases hAdd
    simp only [List.length_append, List.length_singleton]
      at hCount
    exact .inline upload hSize hTotal (by omega)

/- An accepted text is stored. -/
theorem adds_of_store
    {settings : Settings}
    {parsed : ParsedForm}
    {total : Nat}
    {key : Str}
    {value : Value}
    {next : ParsedForm × Nat}
    {put : Str → ParsedForm × Nat}
    (hParse :
      (do
        let text ← requireText key value
        pure (put text)) = .ok next)
    (hAdds : ∀ text,
      Adds settings parsed total (key, .text text)
        (put text)) :
    Adds settings parsed total (key, value) next := by
  rcases Lib.bind_eq_ok_iff.mp hParse with ⟨text, hText, hEnd⟩
  cases requireText_eq_ok_iff.mp hText
  cases hEnd
  exact hAdds text

/- An accepted known field is added. -/
theorem adds_of_parseKnown
    {settings : Settings}
    {parsed : ParsedForm}
    {total : Nat}
    {key : Str}
    {value : Value}
    {next : ParsedForm × Nat}
    (hKnown : knownFields.contains key = true)
    (hParse :
      parseKnown settings parsed total key value = .ok next) :
    Adds settings parsed total (key, value) next := by
  unfold parseKnown at hParse
  split at hParse
  · rename_i hKey
    subst hKey
    exact adds_of_store hParse .sender
  rename_i hFrom
  split at hParse
  · rename_i hKey
    subst hKey
    exact adds_of_store hParse .to
  rename_i hTo
  split at hParse
  · rename_i hKey
    subst hKey
    exact adds_of_store hParse .cc
  rename_i hCc
  split at hParse
  · rename_i hKey
    subst hKey
    exact adds_of_store hParse .bcc
  rename_i hBcc
  split at hParse
  · rename_i hKey
    subst hKey
    exact adds_of_store hParse .subject
  rename_i hSubject
  split at hParse
  · rename_i hKey
    rcases Lib.bind_eq_ok_iff.mp hParse with
      ⟨text, hText, hParse⟩
    rcases Lib.bind_eq_ok_iff.mp hParse with ⟨_, hTotal, hEnd⟩
    cases requireText_eq_ok_iff.mp hText
    cases hEnd
    exact .body key text hKey (aggregate_eq_ok_iff.mp hTotal)
  rename_i hBody
  rcases not_or.mp hBody with ⟨hText, hOther⟩
  rcases not_or.mp hOther with ⟨hHtml, hAmp⟩
  -- Only the two upload fields are left.
  refine adds_of_parseUpload ?_ hParse
  simpa only [knownFields, List.map_cons, List.map_nil,
    List.contains_iff_mem, List.mem_cons, List.not_mem_nil,
    hFrom, hTo, hCc, hBcc, hSubject, hText, hHtml, hAmp,
    false_or, or_false] using hKnown

/- An accepted item is added. -/
theorem adds_of_parseItem
    {settings : Settings}
    {parsed : ParsedForm}
    {total : Nat}
    {key : Str}
    {value : Value}
    {next : ParsedForm × Nat}
    (hParse :
      parseItem settings parsed total key value = .ok next) :
    Adds settings parsed total (key, value) next := by
  unfold parseItem at hParse
  split at hParse
  · cases hParse
  split at hParse
  · rename_i hHeader
    rcases List.isPrefixOf_iff_prefix.mp hHeader with
      ⟨name, rfl⟩
    cases value with
    | file upload => cases hParse
    | text text =>
        cases hParse
        rw [putHeader_eq_set]
        exact .header name text
  split at hParse
  · cases hParse
  · rename_i hKnown
    refine adds_of_parseKnown ?_ hParse
    simpa using hKnown

end Pipeline

end MailgunRelay

------------------------------------------------------------
-- The Items In Order
------------------------------------------------------------

namespace MailgunRelay

namespace Pipeline

open Form (Value Upload Item)

theorem itemsOf_snoc
    (key : String)
    (items : List Item)
    (item : Item) :
    itemsOf key (items ++ [item]) =
      itemsOf key items ++
        if item.1 = key.toList then [item] else [] := by
  unfold itemsOf
  rw [List.filter_append, List.filter_singleton]
  by_cases hKey : item.1 = key.toList <;> simp [hKey]

@[simp] theorem textsOf_nil
    (key : String) :
    textsOf key [] = [] :=
  rfl

@[simp] theorem uploadsOf_nil
    (key : String) :
    uploadsOf key [] = [] :=
  rfl

theorem textsOf_snoc
    (key : String)
    (items : List Item)
    (item : Item) :
    textsOf key (items ++ [item]) =
      textsOf key items ++ (textFor key.toList item).toList := by
  unfold textsOf
  rw [List.filterMap_append]
  cases hText : textFor key.toList item <;>
    simp [List.filterMap, hText]

theorem uploadsOf_snoc
    (key : String)
    (items : List Item)
    (item : Item) :
    uploadsOf key (items ++ [item]) =
      uploadsOf key items ++
        (uploadFor key.toList item).toList := by
  unfold uploadsOf
  rw [List.filterMap_append]
  cases hUpload : uploadFor key.toList item <;>
    simp [List.filterMap, hUpload]

/- An added item is read. -/
theorem Adds.reads
    {settings : Settings}
    {items : List Item}
    {parsed : ParsedForm}
    {total : Nat}
    {item : Item}
    {next : ParsedForm × Nat}
    (hAdds : Adds settings parsed total item next)
    (hReads : Reads items parsed total) :
    Reads (items ++ [item]) next.1 next.2 := by
  rcases hReads with
    ⟨hFrom, hTo, hCc, hBcc, hSubject, hText, hHtml, hAmp,
      hHeaders, hAttachments, hInline, hTotal⟩
  cases hAdds with
  | body key text hKey =>
      rcases hKey with rfl | rfl | rfl <;>
      constructor <;>
        simp [itemsOf_snoc, textsOf_snoc, uploadsOf_snoc,
          textFor,
          uploadFor, headersOf, bodyBytes, itemBytes,
          ParsedForm.setBody, *]
  | header | sender | «to» | cc | bcc | subject | attachment
  | inline =>
      constructor <;>
        simp [itemsOf_snoc, textsOf_snoc, uploadsOf_snoc,
          textFor,
          uploadFor, headersOf, bodyBytes, itemBytes, *]

/- An added item keeps the form within the limits. -/
theorem Adds.within
    {settings : Settings}
    {items : List Item}
    {parsed : ParsedForm}
    {total : Nat}
    {item : Item}
    {next : ParsedForm × Nat}
    (hAdds : Adds settings parsed total item next)
    (hWithin : Within settings items parsed total) :
    Within settings (items ++ [item]) next.1 next.2 := by
  rcases hWithin with ⟨hTotal, hUploads, hCount⟩
  cases hAdds with
  | header | sender | «to» | cc | bcc | subject =>
      refine ⟨hTotal, ?_, hCount⟩
      simpa [uploadsOf_snoc, uploadFor] using hUploads
  | body key text hKey hLimit =>
      refine ⟨.inr hLimit, ?_, ?_⟩
      · simpa [uploadsOf_snoc, uploadFor] using hUploads
      · rcases hKey with rfl | rfl | rfl <;> exact hCount
  | attachment upload hSize hLimit hCap =>
      have hHere :
          uploadFor "attachment".toList
              ("attachment".toList, .file upload) =
            some upload := by
        simp [uploadFor]
      have hThere :
          uploadFor "inline".toList
              ("attachment".toList, .file upload) = none := by
        simp [uploadFor]
      refine ⟨.inr hLimit, ?_, .inr ?_⟩
      · rw [uploadsOf_snoc, uploadsOf_snoc, hHere, hThere]
        intro other hOther
        simp only [Option.toList_some, Option.toList_none,
          List.append_nil, List.mem_append,
          List.mem_singleton] at hOther
        rcases hOther with (hOld | rfl) | hInline
        · exact hUploads other (List.mem_append_left _ hOld)
        · exact hSize
        · exact
            hUploads other (List.mem_append_right _ hInline)
      · rw [List.length_append, List.length_singleton]
        exact hCap
  | inline upload hSize hLimit hCap =>
      have hHere :
          uploadFor "inline".toList
              ("inline".toList, .file upload) =
            some upload := by
        simp [uploadFor]
      have hThere :
          uploadFor "attachment".toList
              ("inline".toList, .file upload) = none := by
        simp [uploadFor]
      refine ⟨.inr hLimit, ?_, .inr ?_⟩
      · rw [uploadsOf_snoc, uploadsOf_snoc, hHere, hThere]
        intro other hOther
        simp only [Option.toList_some, Option.toList_none,
          List.append_nil, List.mem_append,
          List.mem_singleton] at hOther
        rcases hOther with hAttachment | hOld | rfl
        · exact
            hUploads other
              (List.mem_append_left _ hAttachment)
        · exact hUploads other (List.mem_append_right _ hOld)
        · exact hSize
      · rw [List.length_append, List.length_singleton]
        exact hCap

/- Accepted items are read within the limits. -/
theorem parseItems_reads
    {settings : Settings}
    {before items : List Item}
    {parsed : ParsedForm}
    {total : Nat}
    {next : ParsedForm × Nat}
    (hReads : Reads before parsed total)
    (hWithin : Within settings before parsed total)
    (hParse :
      parseItems settings parsed total items = .ok next) :
    Reads (before ++ items) next.1 next.2 ∧
      Within settings (before ++ items) next.1 next.2 := by
  induction items generalizing before parsed total with
  | nil =>
      cases hParse
      rw [List.append_nil]
      exact ⟨hReads, hWithin⟩
  | cons item rest ih =>
      rcases item with ⟨key, value⟩
      rcases Lib.bind_eq_ok_iff.mp hParse with
        ⟨⟨parsed', total'⟩, hItem, hRest⟩
      have hAdds := adds_of_parseItem hItem
      have hTail :=
        ih (hAdds.reads hReads) (hAdds.within hWithin) hRest
      rwa [List.append_assoc, List.singleton_append] at hTail

end Pipeline

end MailgunRelay

------------------------------------------------------------
-- The Field Rules
------------------------------------------------------------

namespace MailgunRelay

namespace Pipeline

open Form (Value Upload Item)

/-
  What an accepted form is in terms of its items: one
  sender, the recipients in form order, the last value of
  what may be given again, and everything within the limits.
-/
structure Accepted
    (settings : Settings)
    (items : List Item)
    (parsed : ParsedForm) : Prop where
  reads : Reads items parsed (bodyBytes items)
  sender :
    ∃ address, parsed.from = [address] ∧
      itemsOf "from" items =
        [("from".toList, .text address)]
  total :
    (bodyBytes items : Int) ≤ settings.maxBodyBytes.val
  uploads :
    ∀ upload ∈ uploadsOf "attachment" items ++
        uploadsOf "inline" items,
      (upload.data.length : Int) ≤
        settings.maxAttachmentBytes.val
  count :
    uploadsOf "attachment" items ++
          uploadsOf "inline" items ≠ [] →
      (((uploadsOf "attachment" items).length +
          (uploadsOf "inline" items).length : Nat) : Int) ≤
        settings.maxAttachments.val

/- No items give the empty form. -/
theorem reads_nil : Reads [] .empty 0 := by
  refine
    ⟨rfl, rfl, rfl, rfl, ?_, ?_, ?_, ?_, rfl, rfl, rfl, rfl⟩
  all_goals
    rw [textsOf_nil, List.getLast?_nil]
    rfl

/- The empty form has not met a limit. -/
theorem within_nil
    (settings : Settings) :
    Within settings [] .empty 0 :=
  ⟨.inl ⟨rfl, rfl⟩, by simp, .inl ⟨rfl, rfl⟩⟩

/- What an accepted form has. -/
theorem requireFields_eq_ok
    {parsed : ParsedForm}
    (hRequired : requireFields parsed = .ok ()) :
    parsed.from.length = 1 ∧ parsed.subject ≠ none ∧
      ¬ (parsed.text = none ∧ parsed.html = none) := by
  unfold requireFields at hRequired
  split at hRequired
  · cases hRequired
  split at hRequired
  · cases hRequired
  split at hRequired
  · cases hRequired
  rename_i hSender hSubject hBody
  refine ⟨not_not.mp hSender, ?_, ?_⟩
  · simpa using hSubject
  · simpa using hBody

/- An accepted form has its sender, subject and a body. -/
theorem accepted_of_parseForm
    {settings : Settings}
    {items : List Item}
    {parsed : ParsedForm}
    (hParse : parseForm settings items = .ok parsed) :
    Accepted settings items parsed := by
  rcases Lib.bind_eq_ok_iff.mp hParse with
    ⟨⟨parsed', total⟩, hItems, hRest⟩
  rcases Lib.bind_eq_ok_iff.mp hRest with ⟨_, hRequired, hEnd⟩
  cases hEnd
  rcases requireFields_eq_ok hRequired with
    ⟨hSender, hSubject, hBody⟩
  rcases
    parseItems_reads reads_nil (within_nil settings) hItems with
    ⟨hReads, hWithin⟩
  rw [List.nil_append] at hReads hWithin
  simp only at hReads hWithin
  have hTotal := hReads.total
  subst hTotal
  constructor
  · exact hReads
  · rcases List.length_eq_one_iff.mp hSender with
      ⟨address, hAddress⟩
    refine ⟨address, hAddress, ?_⟩
    rw [hReads.sender, hAddress]
    rfl
  · exact hWithin.total.resolve_left hBody
  · exact hWithin.uploads
  · intro hSome
    have hCount := hWithin.count.resolve_left fun hNone => by
      rw [hReads.attachments, hReads.inline] at hNone
      simp only [List.map_eq_nil_iff] at hNone
      exact hSome (by rw [hNone.1, hNone.2]; rfl)
    rw [hReads.attachments, hReads.inline, List.length_map,
      List.length_map] at hCount
    exact hCount

/- The handler answers a refusal with the same status. -/
theorem Refuses.handled
    {failure : Failure}
    {exc : Python.Exc}
    (hRefuses : Refuses failure exc) :
    (Python.handle exc).status = failure.status ∧
      (failure.status = 400 ∨ failure.status = 413) := by
  rcases hRefuses with ⟨hStatus, hClass⟩ | ⟨hStatus, hClass⟩
  · rw [hStatus]
    refine ⟨?_, .inl rfl⟩
    simp [Python.handle, Python.Exc.isInstance, hClass,
      Python.ExcClass.mro, Python.ExcClass.base]
  · rw [hStatus]
    refine ⟨?_, .inr rfl⟩
    simp [Python.handle, Python.Exc.isInstance, hClass,
      Python.ExcClass.mro, Python.ExcClass.base]

/-
  Rust and Python accept the same forms with the same
  result, refuse the others with the same status, and an
  accepted form is what its items say.
-/
theorem fieldRules
    [Python.Repr]
    (settings : Settings)
    (items : List Item) :
    ((Python.parseForm settings items).mapError
        fun exc => (Python.handle exc).status).map ofPython =
      (parseForm settings items).mapError Failure.status ∧
    (∀ failure, parseForm settings items = .error failure →
      failure.status = 400 ∨ failure.status = 413) ∧
    ∀ parsed, parseForm settings items = .ok parsed →
      Accepted settings items parsed := by
  have hAlike := parseForm_alike settings items
  refine ⟨?_, ?_, fun parsed => accepted_of_parseForm⟩
  · cases hRust : parseForm settings items with
    | error failure =>
        cases hPython : Python.parseForm settings items with
        | error exc =>
            rw [hRust, hPython] at hAlike
            have hStatus := (Refuses.handled hAlike).1
            simp [Except.mapError, Except.map, hStatus]
        | ok parsed =>
            rw [hRust, hPython] at hAlike
            exact hAlike.elim
    | ok parsed =>
        cases hPython : Python.parseForm settings items with
        | error exc =>
            rw [hRust, hPython] at hAlike
            exact hAlike.elim
        | ok parsed' =>
            rw [hRust, hPython] at hAlike
            have hSame : parsed = ofPython parsed' := hAlike
            rw [hSame]
            rfl
  · intro failure hRust
    cases hPython : Python.parseForm settings items with
    | error exc =>
        rw [hRust, hPython] at hAlike
        exact (Refuses.handled hAlike).2
    | ok parsed =>
        rw [hRust, hPython] at hAlike
        exact hAlike.elim

end Pipeline

end MailgunRelay
