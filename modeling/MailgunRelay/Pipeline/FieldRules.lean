import MailgunRelay.Fields
import MailgunRelay.Python.Routes

/-
  The Rust and the Python field rules are one function.

  Key definitions include:
    * `MailgunRelay.Pipeline.Refuses`
    * `MailgunRelay.Pipeline.ofPython`

  Key theorems include:
    * `MailgunRelay.Pipeline.parseItem_alike`
    * `MailgunRelay.Pipeline.parseForm_alike`
-/

------------------------------------------------------------
-- Corresponding Steps
------------------------------------------------------------

namespace MailgunRelay

namespace Pipeline

open Form (Value Item)

/- A refusal and the exception for it. -/
def Refuses (failure : Failure) (exc : Python.Exc) : Prop :=
  (failure.status = 400 ∧
    exc.cls = .badRequestError) ∨
  (failure.status = 413 ∧
    exc.cls = .payloadTooLargeError)

theorem refuses_malformed
    (message message' : Str) :
    Refuses (malformed message)
      (Python.badRequestError message') :=
  .inl ⟨rfl, rfl⟩

theorem refuses_tooLarge
    (message message' : Str) :
    Refuses (.tooLarge message)
      (Python.payloadTooLargeError message') :=
  .inr ⟨rfl, rfl⟩

/- The local variables of Python for a form being parsed. -/
def localsOf
    (parsed : ParsedForm)
    (total : Nat) : Python.Locals :=
  { fromAddresses := parsed.from
    «to» := parsed.to
    cc := parsed.cc
    bcc := parsed.bcc
    subject := parsed.subject
    text := parsed.text
    html := parsed.html
    ampHtml := parsed.ampHtml
    customHeaders := parsed.headers
    attachments := parsed.attachments
    inline := parsed.inline
    totalBodyBytes := total }

/- The two loops are at the same point. -/
def SamePoint
    (state : ParsedForm × Nat)
    (l : Python.Locals) : Prop :=
  l = localsOf state.1 state.2

variable [Python.Repr]

theorem requireText_alike
    (key : Str)
    (value : Value) :
    Lib.Alike Refuses Eq (requireText key value)
      (Python.requireStr key value) := by
  cases value with
  | text text => rfl
  | file upload => exact refuses_malformed _ _

/- Empty names and types get the same defaults. -/
theorem readUpload_alike
    (settings : Settings)
    (value : Value) :
    Lib.Alike Refuses Eq (readUpload settings value)
      (Python.readUpload settings value) := by
  cases value with
  | text text => exact refuses_malformed _ _
  | file upload =>
      unfold readUpload Python.readUpload
      simp only [exceeds_iff]
      split
      · exact refuses_tooLarge _ _
      · rcases upload with ⟨filename, contentType, data⟩
        cases contentType with
        | none => cases filename <;> rfl
        | some t => cases t <;> cases filename <;> rfl

/- A body is counted and set alike. -/
theorem parseBody_alike
    (settings : Settings)
    (parsed : ParsedForm)
    (total : Nat)
    (key fieldName : Str)
    (value : Value)
    (store : Str → Python.Locals → Python.Locals)
    (hStore : ∀ text total,
      store text (localsOf parsed total) =
        localsOf (parsed.setBody key text) total) :
    Lib.Alike Refuses SamePoint
      (parseBody settings parsed total key value)
      (do
        let text ← Python.requireStr key value
        let l ←
          Python.trackText settings fieldName text
            (localsOf parsed total)
        .ok (store text l)) := by
  refine (requireText_alike key value).bind ?_
  rintro text _ rfl
  unfold aggregate Python.trackText
  simp only [exceeds_iff, length_utf8, localsOf]
  split
  · exact refuses_tooLarge _ _
  · exact hStore text (total + byteLen text)

/- An upload is counted and added alike. -/
theorem parseUpload_alike
    (settings : Settings)
    (parsed : ParsedForm)
    (total : Nat)
    (key : Str)
    (value : Value) :
    Lib.Alike Refuses SamePoint
      (parseUpload settings parsed total key value)
      (Python.addUpload settings key value
        (localsOf parsed total)) := by
  unfold parseUpload Python.addUpload
  refine (readUpload_alike settings value).bind ?_
  rintro attachment _ rfl
  unfold aggregate ParsedForm.addUpload
  simp only [exceeds_iff, localsOf]
  by_cases hTotal :
      settings.maxBodyBytes.val <
        ((total + attachment.data.length : Nat) : Int)
  · simp only [hTotal, if_true]
    exact refuses_tooLarge _ _
  simp only [hTotal, if_false, Lib.ok_bind]
  by_cases hKey : key = "attachment".toList
  · simp only [hKey, if_true]
    split
    · exact refuses_tooLarge _ _
    · rfl
  · simp only [hKey, if_false]
    split
    · exact refuses_tooLarge _ _
    · rfl

/- A text value is stored alike. -/
theorem store_alike
    (key : Str)
    (value : Value)
    (put : Str → ParsedForm × Nat)
    (store : Str → Python.Locals)
    (hStore : ∀ text, SamePoint (put text) (store text)) :
    Lib.Alike Refuses SamePoint
      (do
        let text ← requireText key value
        pure (put text))
      (do
        let text ← Python.requireStr key value
        .ok (store text)) := by
  refine (requireText_alike key value).bind ?_
  rintro text _ rfl
  exact hStore text

/- A known field is handled alike. -/
theorem parseKnown_alike
    (settings : Settings)
    (parsed : ParsedForm)
    (total : Nat)
    {key : Str}
    (value : Value)
    (hKnown : knownFields.contains key = true) :
    Lib.Alike Refuses SamePoint
      (parseKnown settings parsed total key value)
      (Python.knownItem settings key value
        (localsOf parsed total)) := by
  unfold parseKnown Python.knownItem
  by_cases hFrom : key = "from".toList
  · rw [if_pos hFrom, if_pos hFrom]
    exact store_alike key value _ _ fun _ => rfl
  rw [if_neg hFrom, if_neg hFrom]
  by_cases hTo : key = "to".toList
  · rw [if_pos hTo, if_pos hTo]
    exact store_alike key value _ _ fun _ => rfl
  rw [if_neg hTo, if_neg hTo]
  by_cases hCc : key = "cc".toList
  · rw [if_pos hCc, if_pos hCc]
    exact store_alike key value _ _ fun _ => rfl
  rw [if_neg hCc, if_neg hCc]
  by_cases hBcc : key = "bcc".toList
  · rw [if_pos hBcc, if_pos hBcc]
    exact store_alike key value _ _ fun _ => rfl
  rw [if_neg hBcc, if_neg hBcc]
  by_cases hSubject : key = "subject".toList
  · rw [if_pos hSubject, if_pos hSubject]
    exact store_alike key value _ _ fun _ => rfl
  rw [if_neg hSubject, if_neg hSubject]
  by_cases hText : key = "text".toList
  · rw [if_pos (.inl hText), if_pos hText]
    subst hText
    exact parseBody_alike settings parsed total _ _ value _
      fun _ _ => rfl
  rw [if_neg hText]
  by_cases hHtml : key = "html".toList
  · rw [if_pos (.inr (.inl hHtml)), if_pos hHtml]
    subst hHtml
    exact parseBody_alike settings parsed total _ _ value _
      fun _ _ => rfl
  rw [if_neg hHtml]
  by_cases hAmp : key = "amp-html".toList
  · rw [if_pos (.inr (.inr hAmp)), if_pos hAmp]
    subst hAmp
    exact parseBody_alike settings parsed total _ _ value _
      fun _ _ => rfl
  have hNoBody :=
    not_or.mpr ⟨hText, not_or.mpr ⟨hHtml, hAmp⟩⟩
  rw [if_neg hAmp, if_neg hNoBody]
  -- Only the two upload fields are left.
  have hUpload :
      key = "attachment".toList ∨ key = "inline".toList := by
    simpa only [knownFields, List.map_cons, List.map_nil,
      List.contains_iff_mem, List.mem_cons, List.not_mem_nil,
      hFrom, hTo, hCc, hBcc, hSubject, hText, hHtml, hAmp,
      false_or, or_false] using hKnown
  rw [if_pos hUpload]
  exact parseUpload_alike settings parsed total key value

/- One item is handled alike. -/
theorem parseItem_alike
    (settings : Settings)
    (parsed : ParsedForm)
    (total : Nat)
    (key : Str)
    (value : Value) :
    Lib.Alike Refuses SamePoint
      (parseItem settings parsed total key value)
      (Python.formItem settings key value
        (localsOf parsed total)) := by
  unfold parseItem Python.formItem
  have hUnsupported :
      Python.isUnsupported key = isUnsupported key := rfl
  have hFields :
      Python.knownFormFields = knownFields := rfl
  rw [hUnsupported, hFields]
  by_cases hNamespace : isUnsupported key = true
  · rw [if_pos hNamespace, if_pos hNamespace]
    exact refuses_malformed _ _
  rw [if_neg hNamespace, if_neg hNamespace]
  by_cases hHeader : "h:".toList.isPrefixOf key = true
  · rw [if_pos hHeader, if_pos hHeader]
    cases value with
    | text text =>
        simp only [putHeader_eq_set]
        rfl
    | file upload => exact refuses_malformed _ _
  rw [if_neg hHeader, if_neg hHeader]
  cases hKnown : knownFields.contains key with
  | false => exact refuses_malformed _ _
  | true =>
      exact parseKnown_alike settings parsed total value hKnown

/- The items are handled alike. -/
theorem parseItems_alike
    (settings : Settings)
    (parsed : ParsedForm)
    (total : Nat)
    (items : List Item) :
    Lib.Alike Refuses SamePoint
      (parseItems settings parsed total items)
      (Python.formItems settings items
        (localsOf parsed total)) := by
  induction items generalizing parsed total with
  | nil => rfl
  | cons item rest ih =>
      rcases item with ⟨key, value⟩
      unfold parseItems Python.formItems
      refine
        (parseItem_alike settings parsed total key value).bind
          ?_
      rintro ⟨parsed', total'⟩ _ rfl
      exact ih parsed' total'

/- The parsed form of Python as a parsed form. -/
def ofPython (parsed : Python.ParsedForm) : ParsedForm :=
  { «from» := [parsed.fromAddress]
    «to» := parsed.to
    cc := parsed.cc
    bcc := parsed.bcc
    subject := some parsed.subject
    text := parsed.text
    html := parsed.html
    ampHtml := parsed.ampHtml
    headers := parsed.customHeaders
    attachments := parsed.attachments
    inline := parsed.inline }

/- The two functions are alike. -/
theorem parseForm_alike
    (settings : Settings)
    (items : List Item) :
    Lib.Alike Refuses
      (fun parsed parsed' => parsed = ofPython parsed')
      (parseForm settings items)
      (Python.parseForm settings items) := by
  unfold parseForm Python.parseForm
  refine (parseItems_alike settings .empty 0 items).bind ?_
  rintro ⟨parsed, total⟩ _ rfl
  rcases parsed with
    ⟨«from», «to», cc, bcc, subject, text, html, ampHtml,
      headers, attachments, inline⟩
  unfold requireFields
  match «from», subject with
  | [], _ => exact refuses_malformed _ _
  | _ :: _ :: _, _ => exact refuses_malformed _ _
  | [address], none => exact refuses_malformed _ _
  | [address], some subject =>
      cases text with
      | some text => rfl
      | none =>
          cases html with
          | some html => rfl
          | none => exact refuses_malformed _ _

end Pipeline

end MailgunRelay
