import MailgunRelay.Form.Written
import MailgunRelay.Pipeline.Body

/-
  A written form arrives as it was written.

  The `Content-Type` names the encoding and the boundary, the
  body comes in frames of any sizes, and what the route reads
  of it are the fields and files that were written, in order.

  Key definitions include:
    * `MailgunRelay.Form.IsPlainBoundary`
    * `MailgunRelay.Form.multipartType`
    * `MailgunRelay.Pipeline.Delivers`

  Key theorems include:
    * `MailgunRelay.Form.encoding_multipartType`
    * `MailgunRelay.Pipeline.readForm_written`
-/

------------------------------------------------------------
-- The Content Type
------------------------------------------------------------

namespace MailgunRelay

namespace Form

/- A boundary that stands in the header without quotes. -/
structure IsPlainBoundary (boundary : Bytes) : Prop where
  fits : boundary.length ≤ maxBoundaryLength
  visible : ∀ b ∈ boundary, 33 ≤ b ∧ b ≤ 126
  plain : ∀ b ∈ boundary, b ≠ 34 ∧ b ≠ 59

/- The header value of a multipart form. -/
def multipartType (boundary : Bytes) : Bytes :=
  utf8 "multipart/form-data; boundary=".toList ++ boundary

/- The header value of an urlencoded form. -/
def urlencodedType : Bytes :=
  utf8 "application/x-www-form-urlencoded".toList

/- Visible characters are no white space. -/
theorem IsPlainBoundary.noSpace
    {boundary : Bytes}
    (hBoundary : IsPlainBoundary boundary) :
    ∀ c ∈ latin1 boundary, isPySpace c = false := by
  intro c hMem
  rcases List.mem_map.mp hMem with ⟨b, hByte, rfl⟩
  have hAll :
      ((List.range 256).all fun n =>
        !(33 ≤ UInt8.ofNat n && UInt8.ofNat n ≤ 126) ||
          !isPySpace (Char.ofNat (UInt8.ofNat n).toNat)) =
        true := by
    decide +kernel
  have hHere :=
    @forall_byte
      (fun b =>
        (!(33 ≤ b && b ≤ 126) ||
          !isPySpace (Char.ofNat b.toNat)) = true)
      (fun n hSmall =>
        List.all_eq_true.mp hAll n (List.mem_range.mpr hSmall))
      b
  simpa [hBoundary.visible b hByte] using hHere

theorem IsPlainBoundary.noSemi
    {boundary : Bytes}
    (hBoundary : IsPlainBoundary boundary) :
    ';' ∉ latin1 boundary ∧ '"' ∉ latin1 boundary := by
  have hNat : ∀ n < 256, (Char.ofNat n).toNat = n := by
    decide +kernel
  have hByte (b : UInt8) (c : Char)
      (hChar : Char.ofNat b.toNat = c) :
      b.toNat = c.toNat := by
    rw [← hChar, hNat b.toNat b.toNat_lt]
  constructor
  · intro hMem
    rcases List.mem_map.mp hMem with ⟨b, hB, hChar⟩
    apply (hBoundary.plain b hB).2
    exact UInt8.toNat_inj.mp (hByte b ';' hChar)
  · intro hMem
    rcases List.mem_map.mp hMem with ⟨b, hB, hChar⟩
    apply (hBoundary.plain b hB).1
    exact UInt8.toNat_inj.mp (hByte b '"' hChar)

theorem latin1_multipartType
    (boundary : Bytes) :
    latin1 (multipartType boundary) =
      "multipart/form-data".toList ++ ';' ::
        (" boundary=".toList ++ latin1 boundary) := by
  have hAscii :
      ("multipart/form-data; boundary=".toList.all
        isAsciiChar) = true := by
    decide +kernel
  have hAppend (s t : Bytes) :
      latin1 (s ++ t) = latin1 s ++ latin1 t := by
    unfold latin1
    exact List.map_append
  have hSplit :
      "multipart/form-data; boundary=".toList =
        "multipart/form-data".toList ++ ';' ::
          " boundary=".toList := by
    decide +kernel
  unfold multipartType
  rw [hAppend, latin1_utf8 (List.all_eq_true.mp hAscii),
    hSplit, List.append_assoc, List.cons_append]

/- The type and the boundary are the segments. -/
theorem rawSegments_multipartType
    {boundary : Bytes}
    (hBoundary : IsPlainBoundary boundary) :
    rawSegments (latin1 (multipartType boundary)) =
      ["multipart/form-data".toList,
        " boundary=".toList ++ latin1 boundary] := by
  have hOpen (text : Str) (hNone : ';' ∉ text) :
      ∀ front rest, text = front ++ ';' :: rest →
        isBalanced ([] ++ front) = false := by
    intro front rest hSplit
    rw [hSplit] at hNone
    exact
      absurd (List.mem_append_right _ List.mem_cons_self) hNone
  have hType : ';' ∉ "multipart/form-data".toList := by
    decide +kernel
  have hKey : ';' ∉ " boundary=".toList := by
    decide +kernel
  have hTail :
      ';' ∉ " boundary=".toList ++ latin1 boundary := by
    rw [List.mem_append, not_or]
    exact ⟨hKey, hBoundary.noSemi.1⟩
  have hBalanced :
      isBalanced "multipart/form-data".toList = true := by
    decide +kernel
  have hLast :=
    rawSegmentsFrom_open (hOpen _ hTail) []
  rw [List.append_nil, List.nil_append] at hLast
  rw [latin1_multipartType, rawSegments,
    rawSegmentsFrom_open (hOpen _ hType), List.nil_append,
    rawSegmentsFrom_end hBalanced, rawSegments, hLast,
    rawSegmentsFrom]

variable [Unicode]

/- A segment without a parameter. -/
theorem readSegment_multipart :
    readSegment "multipart/form-data".toList =
      "multipart/form-data".toList := by
  have hWhole :
      Lib.Text.splitOnce '=' "multipart/form-data".toList =
        none := by
    decide +kernel
  unfold readSegment
  rw [hWhole]
  dsimp only
  decide +kernel

/- The boundary is kept as it is. -/
theorem readSegment_boundary
    {boundary : Bytes}
    (hBoundary : IsPlainBoundary boundary) :
    readSegment (" boundary=".toList ++ latin1 boundary) =
      "boundary".toList ++ '=' :: latin1 boundary := by
  have hSpaces := hBoundary.noSpace
  have hSplit :
      Lib.Text.splitOnce '='
          (" boundary=".toList ++ latin1 boundary) =
        some (" boundary".toList, latin1 boundary) :=
    (Lib.Text.splitOnce_eq_some_iff _ _ _ _).mpr
      ⟨rfl, by decide +kernel⟩
  have hAscii :
      (" boundary".toList.all isAsciiChar) = true := by
    decide +kernel
  have hRight :
      " boundary".toList.rdropWhile isPySpace =
        " boundary".toList := by
    decide +kernel
  have hLower :
      lowercase " boundary".toList = " boundary".toList := by
    rw [lowercase_of_ascii (List.all_eq_true.mp hAscii)]
    decide +kernel
  have hStart :
      (latin1 boundary).dropWhile isPySpace =
        latin1 boundary := by
    apply List.dropWhile_eq_self_iff.mpr
    intro hLength
    rw [hSpaces _ (List.getElem_mem hLength)]
    exact Bool.false_ne_true
  have hKey :
      ("boundary=".toList.all fun c => !isPySpace c) =
        true := by
    decide +kernel
  have hNone :
      ∀ c ∈ "boundary=".toList ++ latin1 boundary,
        isPySpace c = false := by
    intro c hMem
    rcases List.mem_append.mp hMem with hName | hValue
    · have hHere := List.all_eq_true.mp hKey c hName
      rwa [Bool.not_eq_true'] at hHere
    · exact hSpaces c hValue
  have hBefore : ([' '].all isPySpace) = true := by
    decide +kernel
  have hStrip :=
    @Lib.Text.strip_append _ isPySpace [' '] _ []
      (List.all_eq_true.mp hBefore) hNone (by simp)
  rw [List.append_nil] at hStrip
  unfold readSegment
  rw [hSplit]
  dsimp only
  rw [hRight, hLower, hStart]
  exact hStrip

/- A type and one parameter whose value has no quotes. -/
theorem optionsHeader_one
    {text raw segment essence key value : Str}
    (hSegments : rawSegments text = [raw, segment])
    (hContains : text.contains ';' = true)
    (hEssence : readSegment raw = essence)
    (hSegment : readSegment segment = key ++ '=' :: value)
    (hEquals : '=' ∉ key)
    (hStar : ¬ key.contains '*' = true)
    (hKey : key ≠ "filename".toList)
    (hQuote : '"' ∉ value) :
    optionsHeader (some text) = (essence, [(key, value)]) := by
  have hValue : unquoteValue value = value := by
    unfold unquoteValue
    rw [if_neg]
    intro hQuoted
    exact hQuote (List.mem_of_mem_head? hQuoted.2.1)
  have hSplit :
      Lib.Text.splitOnce '=' (key ++ '=' :: value) =
        some (key, value) :=
    (Lib.Text.splitOnce_eq_some_iff _ _ _ _).mpr
      ⟨rfl, hEquals⟩
  cases text with
  | nil => cases hContains
  | cons c rest =>
      unfold optionsHeader
      dsimp only
      rw [hContains, if_neg (by decide), parseparam_eq,
        hSegments, List.map_cons, List.map_cons, List.map_nil,
        hEssence, hSegment, List.headD_cons, List.tail_cons,
        List.filterMap_cons, hSplit, Option.getD_some]
      dsimp only
      rw [if_neg hStar, if_neg fun h => hKey h.1, hValue]
      rfl

/- A type without parameters. -/
theorem optionsHeader_none
    {text : Str}
    (hSome : text ≠ [])
    (hContains : text.contains ';' = false) :
    optionsHeader (some text) =
      (pyStrip (lowercase text), []) := by
  cases text with
  | nil => exact absurd rfl hSome
  | cons c rest =>
      unfold optionsHeader
      dsimp only
      rw [hContains]
      rfl

omit [Unicode] in
theorem param_singleton
    (name value key : Str) :
    param [(name, value)] key =
      if name = key then some value else none := by
  unfold param
  rw [List.reverse_singleton, List.find?_singleton]
  by_cases hKey : name = key
  · rw [if_pos hKey, if_pos (beq_iff_eq.mpr hKey)]
    rfl
  · rw [if_neg hKey, if_neg fun h => hKey (beq_iff_eq.mp h)]
    rfl

/- The one parameter of the header. -/
theorem optionsHeader_multipartType
    {boundary : Bytes}
    (hBoundary : IsPlainBoundary boundary) :
    optionsHeader (some (latin1 (multipartType boundary))) =
      ("multipart/form-data".toList,
        [("boundary".toList, latin1 boundary)]) := by
  have hContains :
      (latin1 (multipartType boundary)).contains ';' = true := by
    rw [latin1_multipartType, List.contains_iff_mem]
    exact List.mem_append_right _ List.mem_cons_self
  exact
    optionsHeader_one (rawSegments_multipartType hBoundary)
      hContains readSegment_multipart
      (readSegment_boundary hBoundary) (by decide +kernel)
      (by decide +kernel) (by decide +kernel)
      hBoundary.noSemi.2

/- A plain boundary is the one the form is read with. -/
theorem encoding_multipartType
    {boundary : Bytes}
    (hBoundary : IsPlainBoundary boundary) :
    encoding (some (multipartType boundary)) =
      .ok (.multipart boundary .utf8) := by
  have hOther :
      ¬ "multipart/form-data".toList =
        "application/x-www-form-urlencoded".toList := by
    decide +kernel
  have hCharset :
      ¬ "boundary".toList = "charset".toList := by
    decide +kernel
  unfold encoding
  rw [Option.map_some, optionsHeader_multipartType hBoundary]
  dsimp only
  rw [if_neg hOther, if_pos rfl, param_singleton,
    param_singleton, if_neg hCharset, if_pos rfl]
  dsimp only [bind, Except.bind]
  rw [latin1Bytes_latin1,
    if_neg (Nat.not_lt.mpr hBoundary.fits)]

theorem encoding_urlencodedType :
    encoding (some urlencodedType) = .ok .urlencoded := by
  have hAscii :
      ("application/x-www-form-urlencoded".toList.all
        isAsciiChar) = true := by
    decide +kernel
  have hSelf :
      pyStrip
          (asciiLowercase
            "application/x-www-form-urlencoded".toList) =
        "application/x-www-form-urlencoded".toList := by
    decide +kernel
  have hNone :
      "application/x-www-form-urlencoded".toList.contains ';' =
        false := by
    decide +kernel
  have hNonempty :
      "application/x-www-form-urlencoded".toList ≠ [] := by
    decide +kernel
  have hHeader := optionsHeader_none hNonempty hNone
  rw [lowercase_of_ascii (List.all_eq_true.mp hAscii), hSelf]
    at hHeader
  unfold encoding urlencodedType
  rw [Option.map_some,
    latin1_utf8 (List.all_eq_true.mp hAscii), hHeader]
  dsimp only
  rw [if_pos rfl]

end Form

end MailgunRelay

------------------------------------------------------------
-- The Form Of A Request
------------------------------------------------------------

namespace MailgunRelay

namespace Pipeline

open Form

/-
  A request brings a body of some content type, whole and
  within the limit, in frames of any sizes.
-/
structure Delivers
    (settings : Settings)
    (request : Request)
    (contentType body : Bytes) : Prop where
  header :
    request.header "content-type".toList = some contentType
  complete : .failed ∉ request.body
  content : content request.body = body
  fits : (body.length : Int) ≤ settings.maxBodyBytes.val

theorem Delivers.readBody
    {settings : Settings}
    {request : Request}
    {contentType body : Bytes}
    (hDelivers : Delivers settings request contentType body) :
    readBody request.body settings.maxBodyBytes = .ok body := by
  unfold Pipeline.readBody
  rw [readFrames_complete hDelivers.complete,
    List.nil_append, hDelivers.content, if_neg]
  intro hExceeds
  rw [exceeds_iff] at hExceeds
  have hFits := hDelivers.fits
  omega

variable [Unicode]

/- A delivered form is what its bytes are parsed to. -/
theorem readForm_of_delivers
    {settings : Settings}
    {request : Request}
    {contentType body : Bytes}
    {encoding : Encoding}
    {items : List Item}
    (hDelivers : Delivers settings request contentType body)
    (hEncoding :
      Form.encoding (some contentType) = .ok encoding)
    (hSome : encoding ≠ .none)
    (hParse :
      parse encoding body (formLimits settings) = .ok items) :
    readForm settings request = .ok items := by
  unfold readForm
  rw [hDelivers.header, hEncoding]
  dsimp only [bind, Except.bind, Except.mapError]
  rw [if_neg hSome, hDelivers.readBody]
  dsimp only
  rw [hParse]

/-
  A written form is read as it was written, whatever the
  frames: the fields and files of a multipart body, and the
  fields of an urlencoded one.
-/
theorem readForm_written
    (settings : Settings)
    (request : Request) :
    (∀ boundary entries tail,
      IsPlainBoundary boundary →
      (∀ e ∈ entries, Sendable boundary e ∧ TypeFits e) →
      Admits (formLimits settings) entries →
      Delivers settings request (multipartType boundary)
        (multipartBody boundary entries tail) →
      readForm settings request =
        .ok (entries.map Entry.item)) ∧
    ∀ fields,
      AdmitsQuoted (formLimits settings) fields →
      Delivers settings request urlencodedType
        (urlencode fields) →
      readForm settings request =
        .ok (fields.map fieldItem) := by
  constructor
  · intro boundary entries tail hBoundary hSend hAdmits
      hDelivers
    have hLine : 13 ∉ boundary := by
      intro hMem
      exact absurd (hBoundary.visible 13 hMem).1 (by decide)
    apply
      readForm_of_delivers hDelivers
        (encoding_multipartType hBoundary)
    · nofun
    · exact multipart_written hLine hSend hAdmits tail
  · intro fields hAdmits hDelivers
    apply
      readForm_of_delivers hDelivers encoding_urlencodedType
    · nofun
    · exact urlencoded_written hAdmits

omit [Unicode] in
/- A field and a file, in two frames and trailers. -/
theorem readForm_written_frames :
    let _ : Unicode := .ascii
    let limit : I64 := ⟨1048576, by decide⟩
    let settings : Settings :=
      { publicHost := []
        failOnPartialRefusal := false
        maxBodyBytes := limit
        maxAttachments := limit
        maxAttachmentBytes := limit
        maxRecipients := limit
        maxHeaderValueLength := limit }
    let entries : List Entry :=
      [.field "to".toList "a, b".toList,
       .file "inline".toList "é.txt".toList none
        [13, 10, 45, 45, 120]]
    let body := multipartBody [98, 61] entries []
    let request : Request :=
      { domain := []
        headers :=
          [("content-type".toList, multipartType [98, 61])]
        body :=
          [.data (body.take 9), .trailers,
           .data (body.drop 9)] }
    readForm settings request =
      .ok (entries.map Entry.item) := by
  intro _ limit settings entries body request
  have hContent : content request.body = body := by
    show body.take 9 ++ (body.drop 9 ++ []) = body
    rw [List.append_nil, List.take_append_drop]
  apply
    (readForm_written settings request).1 [98, 61] entries []
  · exact ⟨by decide, by simp, by simp⟩
  · decide +kernel
  · decide +kernel
  · exact
      { header := rfl
        complete := by simp [request]
        content := hContent
        fits := by decide +kernel }

end Pipeline

end MailgunRelay
