import MailgunRelay.Form.Beginnings
import MailgunRelay.Form.Disposition
import MailgunRelay.Form.Limits
import MailgunRelay.Percent

/-
  Forms as clients write them.  A multipart body is read as
  the fields and files that were written, and so is an
  urlencoded one: both encodings give the same form.

  Key definitions include:
    * `MailgunRelay.Form.Entry`
    * `MailgunRelay.Form.multipartBody`
    * `MailgunRelay.Form.urlencode`
    * `MailgunRelay.Form.Sendable`

  Key theorems include:
    * `MailgunRelay.Form.partHeaders_written`
    * `MailgunRelay.Form.partEnd_written`
    * `MailgunRelay.Form.parts_written`
    * `MailgunRelay.Form.urlencoded_written`
    * `MailgunRelay.Form.encodings_lossless`
-/

------------------------------------------------------------
-- Bodies
------------------------------------------------------------

namespace MailgunRelay

namespace Form

/-
  A text field, or a file with the bytes of its content type
  and its data.
-/
inductive Entry where
  | field (name text : Str)
  | file
      (name filename : Str)
      (contentType : Option Bytes)
      (data : Bytes)

/- What a form has for it. -/
def Entry.item : Entry → Item
| .field name text => (name, .text text)
| .file name filename contentType data =>
    (name, .file
      { filename := filename
        contentType := contentType.map latin1
        data := data })

def Entry.params : Entry → List (Str × Str)
| .field name _ => [("name".toList, name)]
| .file name filename _ _ =>
    [("name".toList, name), ("filename".toList, filename)]

def Entry.contentType : Entry → Option Bytes
| .field _ _ => none
| .file _ _ contentType _ => contentType

def Entry.data : Entry → Bytes
| .field _ text => utf8 text
| .file _ _ _ data => data

/- The name of a header, a colon, a space and the value. -/
def headerText (header : Bytes × Bytes) : Bytes :=
  header.1 ++ 58 :: 32 :: header.2

def Entry.disposition (entry : Entry) : Bytes × Bytes :=
  (utf8 "Content-Disposition".toList,
    utf8 (withParams "form-data".toList entry.params))

/- The headers of its part. -/
def Entry.headers (entry : Entry) : List (Bytes × Bytes) :=
  entry.disposition ::
    (entry.contentType.map fun value =>
      (utf8 "Content-Type".toList, value)).toList

def Entry.raw (entry : Entry) : RawPart :=
  { headers := entry.headers.map headerText
    data := entry.data }

def dashes : Bytes := [45, 45]

/- A part with its boundary in front. -/
def Entry.bytes (boundary : Bytes) (entry : Entry) : Bytes :=
  dashes ++ boundary ++ crlf ++ entry.raw.bytes ++ crlf

/- The parts and the closing boundary, and what follows. -/
def multipartBody
    (boundary : Bytes)
    (entries : List Entry)
    (tail : Bytes) : Bytes :=
  entries.flatMap (Entry.bytes boundary) ++
    (dashes ++ boundary ++ dashes ++ tail)

/-
  No delimiter in the data is followed by CRLF or `--`; CRLF
  stands after the data.
-/
def ClearOf (boundary data : Bytes) : Prop :=
  ∀ front after,
    data = front ++ delimiter boundary ++ after →
      ¬ crlf <+: after ++ crlf ∧ ¬ dashes <+: after ++ crlf

/- What a client can send as it is. -/
structure Sendable
    (boundary : Bytes)
    (entry : Entry) : Prop where
  quotable : ∀ p ∈ entry.params,
    IsQuotable p.2 ∧ '\r' ∉ p.2
  fits :
    (headerText entry.disposition).length ≤ maxHeaderSize
  contentType : ∀ value ∈ entry.contentType,
    13 ∉ value ∧ value.head? ≠ some 32
  clear : ClearOf boundary entry.data

/- The header line of a content type fits as well. -/
def TypeFits (entry : Entry) : Prop :=
  ∀ header ∈ entry.headers,
    (headerText header).length ≤ maxHeaderSize

/- The limits admit the counts and the sizes. -/
structure Admits
    (limits : Limits)
    (entries : List Entry) : Prop where
  counts : CountsFit limits (entries.map Entry.item)
  sizes : ∀ entry ∈ entries, entry.data ≠ [] →
    isText entry.item = true →
      (entry.data.length : Int) ≤ limits.maxPartSize.val

instance
    (value : Str) :
    Decidable (IsQuotable value) :=
  inferInstanceAs (Decidable (_ ∧ _))

/- Where a delimiter may stand in the data. -/
theorem clearOf_iff
    (boundary data : Bytes) :
    ClearOf boundary data ↔
      ∀ k < data.length + 1,
        delimiter boundary <+: data.drop k →
          let after :=
            data.drop (k + (delimiter boundary).length)
          ¬ crlf <+: after ++ crlf ∧
            ¬ dashes <+: after ++ crlf := by
  constructor
  · intro hClear k _ hHere
    rcases hHere with ⟨after, hAfter⟩
    have hData :
        data = data.take k ++ delimiter boundary ++ after := by
      rw [List.append_assoc, hAfter, List.take_append_drop]
    have hPast :
        data.drop (k + (delimiter boundary).length) = after := by
      rw [← List.drop_drop, ← hAfter, List.drop_left]
    rw [hPast]
    exact hClear _ _ hData
  · intro hClear front after hData
    have hHere := hClear front.length (by
      rw [hData, List.length_append, List.length_append]
      omega)
    rw [← List.drop_drop, hData, List.append_assoc,
      List.drop_left, List.drop_left] at hHere
    exact hHere (List.prefix_append _ _)

instance
    (boundary data : Bytes) :
    Decidable (ClearOf boundary data) :=
  decidable_of_iff _ (clearOf_iff boundary data).symm

instance
    (boundary : Bytes)
    (entry : Entry) :
    Decidable (Sendable boundary entry) :=
  decidable_of_iff
    ((∀ p ∈ entry.params, IsQuotable p.2 ∧ '\r' ∉ p.2) ∧
      (headerText entry.disposition).length ≤ maxHeaderSize ∧
      (∀ value ∈ entry.contentType,
        13 ∉ value ∧ value.head? ≠ some 32) ∧
      ClearOf boundary entry.data)
    ⟨fun ⟨hQuotable, hFits, hType, hClear⟩ =>
        ⟨hQuotable, hFits, hType, hClear⟩,
      fun hSend =>
        ⟨hSend.quotable, hSend.fits, hSend.contentType,
          hSend.clear⟩⟩

instance
    (entry : Entry) :
    Decidable (TypeFits entry) :=
  inferInstanceAs (Decidable (∀ header ∈ entry.headers, _))

instance
    (limits : Limits)
    (items : List Item) :
    Decidable (CountsFit limits items) :=
  decidable_of_iff
    ((items.countP isUpload ≠ 0 →
        (items.countP isUpload : Int) ≤ limits.maxFiles.val) ∧
      (items.countP isText ≠ 0 →
        (items.countP isText : Int) ≤ limits.maxFields.val))
    ⟨fun ⟨hFiles, hFields⟩ => ⟨hFiles, hFields⟩,
      fun hFits => ⟨hFits.files, hFits.fields⟩⟩

instance
    (limits : Limits)
    (entries : List Entry) :
    Decidable (Admits limits entries) :=
  decidable_of_iff
    (CountsFit limits (entries.map Entry.item) ∧
      ∀ entry ∈ entries, entry.data ≠ [] →
        isText entry.item = true →
          (entry.data.length : Int) ≤ limits.maxPartSize.val)
    ⟨fun ⟨hCounts, hSizes⟩ => ⟨hCounts, hSizes⟩,
      fun hAdmits => ⟨hAdmits.counts, hAdmits.sizes⟩⟩

end Form

end MailgunRelay

------------------------------------------------------------
-- Reading At An Index
------------------------------------------------------------

namespace MailgunRelay

namespace Form

/- What stands at an index, and after it. -/
theorem drop_past
    {body front after : Bytes}
    {i : Nat}
    (hHere : body.drop i = front ++ after) :
    body.drop (i + front.length) = after := by
  rw [← List.drop_drop, hHere, List.drop_left]

theorem getElem?_of_drop
    {body after : Bytes}
    {i : Nat}
    {b : UInt8}
    (hHere : body.drop i = b :: after) :
    body[i]? = some b := by
  rw [← List.head?_drop, hHere, List.head?_cons]

theorem slice_of_drop
    {body front after : Bytes}
    {i : Nat}
    (hHere : body.drop i = front ++ after) :
    slice body i (i + front.length) = front := by
  rw [slice, hHere, Nat.add_sub_cancel_left, List.take_left]

theorem findByte_of_drop
    {body front after : Bytes}
    {i : Nat}
    {byte : UInt8}
    (hHere : body.drop i = front ++ byte :: after)
    (hNone : byte ∉ front) :
    findByte body byte i = some (i + front.length) := by
  apply findByte_eq_some_iff.mpr
  refine ⟨Nat.le_add_right _ _, ?_, ?_⟩
  · exact getElem?_of_drop (drop_past hHere)
  · intro j hStart hBefore hByte
    rcases Nat.exists_eq_add_of_le hStart with ⟨k, rfl⟩
    rw [← List.getElem?_drop, hHere,
      List.getElem?_append_left (by omega)] at hByte
    exact hNone (List.mem_of_getElem? hByte)

end Form

end MailgunRelay

------------------------------------------------------------
-- Headers
------------------------------------------------------------

namespace MailgunRelay

namespace Form

/- A header that can be written as it is. -/
structure IsHeader (header : Bytes × Bytes) : Prop where
  named : header.1 ≠ []
  token : header.1.all isToken = true
  line : 13 ∉ header.2
  start : header.2.head? ≠ some 32
  fits : (headerText header).length ≤ maxHeaderSize

/- A name is read to its colon. -/
theorem headerName_written
    {body name after : Bytes}
    {i : Nat}
    (hNamed : name ≠ [])
    (hToken : name.all isToken = true)
    (hFits : name.length + 1 ≤ maxHeaderSize)
    (hHere : body.drop i = name ++ 58 :: after) :
    headerName body i =
      .ok (name, name.length + 1, i + name.length + 1) := by
  have hColon : 58 ∉ name := fun hMem => by
    have hChar := List.all_eq_true.mp hToken 58 hMem
    revert hChar
    decide
  unfold headerName
  rw [findByte_of_drop hHere hColon]
  simp only [Option.getD_some, Option.isSome_some,
    Bool.toNat_true, Nat.add_sub_cancel_left]
  rw [slice_of_drop hHere, hToken, if_neg,
    if_neg (by simpa using hNamed)]
  rw [Bool.or_eq_true, decide_eq_true_eq]
  rintro (hLong | hNot)
  · omega
  · cases hNot

/- One space is skipped when no other follows. -/
theorem skipSpaces_written
    {value rest : Bytes}
    {size i : Nat}
    (hStart : value.head? ≠ some 32)
    (hFits : size + 1 ≤ maxHeaderSize) :
    skipSpaces size i (32 :: (value ++ 13 :: rest)) =
      .ok (size + 1, i + 1) := by
  rw [skipSpaces, if_pos rfl, if_neg (by omega)]
  cases value with
  | nil => rfl
  | cons b value =>
      have hOther : b ≠ 32 := fun hB =>
        hStart (by rw [hB]; rfl)
      rw [List.cons_append, skipSpaces, if_neg hOther]

/- A value is read to the end of its line. -/
theorem headerValue_written
    {body value after : Bytes}
    {size i : Nat}
    (hLine : 13 ∉ value)
    (hFits : size + value.length ≤ maxHeaderSize)
    (hHere : body.drop i = value ++ 13 :: 10 :: after) :
    headerValue body size i =
      .ok (value, i + value.length + 2) := by
  have hLf : body[i + value.length + 1]? = some 10 := by
    apply getElem?_of_drop
    rw [← List.drop_drop, drop_past hHere]
    rfl
  unfold headerValue
  rw [findByte_of_drop hHere hLine]
  simp only [Option.getD_some]
  rw [Nat.add_sub_cancel_left, if_neg (by omega), hLf]
  simp only [if_true]
  rw [slice_of_drop hHere]

/- A written header line is read as its name and value. -/
theorem headerLine_written
    {body after : Bytes}
    {i : Nat}
    {header : Bytes × Bytes}
    (hHeader : IsHeader header)
    (hHere :
      body.drop i = headerText header ++ crlf ++ after) :
    headerLine body i =
      .ok (header.1, header.2,
        i + (headerText header ++ crlf).length) := by
  rcases header with ⟨name, value⟩
  have hFits := hHeader.fits
  simp only [headerText, List.length_append,
    List.length_cons] at hFits
  have hName :
      body.drop i =
        name ++ 58 :: (32 :: (value ++ 13 :: 10 :: after)) := by
    rw [hHere]
    simp [headerText, crlf]
  have hSpace :
      body.drop (i + name.length + 1) =
        32 :: (value ++ 13 :: 10 :: after) := by
    have hAt := drop_past hName
    rw [← List.drop_drop, hAt]
    rfl
  have hValue :
      body.drop (i + name.length + 1 + 1) =
        value ++ 13 :: 10 :: after := by
    rw [← List.drop_drop, hSpace]
    rfl
  have hFirst :=
    @headerName_written body name _ i hHeader.named
      hHeader.token (by omega) hName
  have hSkip :=
    @skipSpaces_written value (10 :: after) (name.length + 1)
      (i + name.length + 1) hHeader.start (by omega)
  have hLast :=
    @headerValue_written body value after
      (name.length + 1 + 1) (i + name.length + 1 + 1)
      hHeader.line (by omega) hValue
  unfold headerLine
  rw [hFirst, Lib.ok_bind]
  simp only
  rw [hSpace, hSkip, Lib.ok_bind]
  simp only
  rw [hLast, Lib.ok_bind]
  have hLength :
      (headerText (name, value) ++ crlf).length =
        name.length + 1 + 1 + value.length + 2 := by
    simp only [headerText, crlf, List.length_append,
      List.length_cons, List.length_nil]
    omega
  rw [hLength]
  simp only [← Nat.add_assoc]
  rfl

theorem headersEnd_written
    {body after : Bytes}
    {i : Nat}
    (hHere : body.drop i = crlf ++ after) :
    headersEnd body i = .ok (some (i + 2)) := by
  have hLf : body[i + 1]? = some 10 := by
    apply getElem?_of_drop
    rw [← List.drop_drop, hHere]
    rfl
  unfold headersEnd
  rw [getElem?_of_drop hHere, hLf]
  rfl

/- The headers of a part, read one after another. -/
theorem partHeaders_written
    {body after : Bytes}
    {left i : Nat}
    {headers : PartHeaders}
    {sent : List (Bytes × Bytes)}
    (hCount : sent.length ≤ left)
    (hHeaders : ∀ header ∈ sent, IsHeader header)
    (hHere :
      body.drop i =
        headerBytes (sent.map headerText) ++ crlf ++ after) :
    partHeaders body left headers i =
      .ok
        (sent.foldl (fun all h => all.record h.1 h.2) headers,
          i + (headerBytes (sent.map headerText) ++
            crlf).length) := by
  induction sent generalizing left headers i with
  | nil =>
      have hEnd := headersEnd_written hHere
      cases left with
      | zero =>
          rw [partHeaders, hEnd]
          rfl
      | succ left =>
          rw [partHeaders, hEnd]
          rfl
  | cons header sent ih =>
      cases left with
      | zero => cases hCount
      | succ left =>
          have hFirst := hHeaders header List.mem_cons_self
          have hLine :
              body.drop i =
                headerText header ++ crlf ++
                  (headerBytes (sent.map headerText) ++ crlf ++
                    after) := by
            rw [hHere]
            simp [headerBytes]
          rcases List.exists_cons_of_ne_nil hFirst.named with
            ⟨b, name, hName⟩
          have hCr : b ≠ 13 := fun hB => by
            apply not_mem_of_tokens hFirst.token
            rw [hName, hB]
            exact List.mem_cons_self
          have hMore : headersEnd body i = .ok none := by
            apply headersEnd_header _ hCr
            apply getElem?_of_drop
            rw [hLine, headerText, hName]
            rfl
          rw [partHeaders, hMore, Lib.ok_bind]
          simp only
          rw [headerLine_written hFirst hLine, Lib.ok_bind]
          simp only
          rw [ih (Nat.le_of_succ_le_succ hCount)
            (fun h hMem =>
              hHeaders h (List.mem_cons_of_mem header hMem))
            (drop_past hLine)]
          simp [headerBytes, Nat.add_assoc]

end Form

end MailgunRelay

------------------------------------------------------------
-- Data
------------------------------------------------------------

namespace MailgunRelay

namespace Form

/- The only CR of a delimiter is its first byte. -/
theorem delimiter_cr
    {boundary : Bytes}
    (hBoundary : 13 ∉ boundary)
    {k : Nat}
    (hCr : (delimiter boundary)[k]? = some 13) :
    k = 0 := by
  cases k with
  | zero => rfl
  | succ k =>
      have hMem : (13 : UInt8) ∈ [10, 45, 45] ++ boundary :=
        List.mem_of_getElem? hCr
      simp [hBoundary] at hMem

/- So no delimiter reaches into the next one. -/
theorem delimiter_apart
    {body boundary next : Bytes}
    {found stop : Nat}
    (hBoundary : 13 ∉ boundary)
    (hFound : delimiter boundary <+: body.drop found)
    (hStop : body.drop stop = delimiter boundary ++ next)
    (hBefore : found < stop) :
    found + (delimiter boundary).length ≤ stop := by
  by_contra hInside
  rcases Nat.exists_eq_add_of_lt hBefore with ⟨k, rfl⟩
  have hCr : body[found + k + 1]? = some 13 :=
    getElem?_of_drop hStop
  rcases hFound with ⟨after, hAfter⟩
  rw [Nat.add_assoc, ← List.getElem?_drop, ← hAfter,
    List.getElem?_append_left (by omega)] at hCr
  have hZero := delimiter_cr hBoundary hCr
  omega

/- A search finds the written delimiter, or one before it. -/
theorem findSeq_delimiter
    {body boundary next : Bytes}
    {search stop : Nat}
    (hStop : body.drop stop = delimiter boundary ++ next)
    (hSearch : search ≤ stop) :
    ∃ found,
      findSeq body (delimiter boundary) search = some found ∧
        search ≤ found ∧ found ≤ stop ∧
        delimiter boundary <+: body.drop found := by
  have hNeedle : delimiter boundary ≠ [] := by
    simp [delimiter]
  rcases Nat.exists_eq_add_of_le hSearch with ⟨j, rfl⟩
  have hSome :
      (findSeq body (delimiter boundary) search).isSome =
        true := by
    rw [findSeq, Option.isSome_map,
      Lib.Text.search_isSome_iff hNeedle]
    apply List.IsInfix.trans _ (List.drop_suffix j _).isInfix
    rw [List.drop_drop, hStop]
    exact (List.prefix_append _ _).isInfix
  rcases Option.isSome_iff_exists.mp hSome with
    ⟨found, hFound⟩
  rcases Option.map_eq_some_iff.mp hFound with
    ⟨k, hSearched, rfl⟩
  rcases (Lib.Text.search_eq_some_iff hNeedle k).mp hSearched
    with ⟨hHere, hFirst⟩
  rw [List.drop_drop] at hHere
  refine ⟨_, hFound, Nat.le_add_right _ _, ?_, hHere⟩
  by_contra hLate
  apply hFirst j (by omega)
  rw [List.drop_drop, hStop]
  exact List.prefix_append _ _

/- At the written delimiter its next bytes decide. -/
theorem partEnd_at_delimiter
    {body boundary next : Bytes}
    {search stop : Nat}
    {last : Bool}
    (hFound :
      findSeq body (delimiter boundary) search = some stop)
    (hStop : body.drop stop = delimiter boundary ++ next)
    (hNext : (if last then dashes else crlf) <+: next) :
    partEnd body boundary search = .ok (stop, last) := by
  rw [partEnd_of_found hFound]
  simp only
  have hAfter := drop_past hStop
  rcases hNext with ⟨rest, rfl⟩
  cases last with
  | true =>
      have hSecond :
          body[stop + (delimiter boundary).length + 1]? =
            some 45 := by
        apply getElem?_of_drop
        rw [← List.drop_drop, hAfter]
        rfl
      rw [getElem?_of_drop hAfter, hSecond]
      rfl
  | false =>
      have hSecond :
          body[stop + (delimiter boundary).length + 1]? =
            some 10 := by
        apply getElem?_of_drop
        rw [← List.drop_drop, hAfter]
        rfl
      rw [getElem?_of_drop hAfter, hSecond]
      rfl

/- Two bytes are there when there is space for them. -/
theorem exists_pair_of_length
    {bytes : Bytes}
    (hLength : 2 ≤ bytes.length) :
    ∃ a b more, bytes = a :: b :: more := by
  rcases bytes with _ | ⟨a, _ | ⟨b, more⟩⟩
  · cases hLength
  · simp at hLength
  · exact ⟨a, b, more, rfl⟩

/-
  The search goes on at every delimiter in the data and ends
  at the one that was written.
-/
theorem partEnd_found
    {body boundary next : Bytes}
    {search stop : Nat}
    {last : Bool}
    (hBoundary : 13 ∉ boundary)
    (hStop : body.drop stop = delimiter boundary ++ next)
    (hNext : (if last then dashes else crlf) <+: next)
    (hSearch : search ≤ stop)
    (hClear : ∀ found, search ≤ found → found < stop →
      delimiter boundary <+: body.drop found →
        ¬ crlf <+:
            body.drop (found + (delimiter boundary).length) ∧
          ¬ dashes <+:
            body.drop (found + (delimiter boundary).length)) :
    partEnd body boundary search = .ok (stop, last) := by
  induction hLeft : stop - search using Nat.strong_induction_on
    generalizing search with
  | _ left ih =>
      subst hLeft
      rcases findSeq_delimiter hStop hSearch with
        ⟨found, hFound, hFrom, hLe, hHere⟩
      rcases Nat.eq_or_lt_of_le hLe with rfl | hBefore
      · exact partEnd_at_delimiter hFound hStop hNext
      -- A delimiter in the data.
      have hApart :=
        delimiter_apart hBoundary hHere hStop hBefore
      rcases hClear found hFrom hBefore hHere with
        ⟨hNoLine, hNoEnd⟩
      have hLength : 4 ≤ (delimiter boundary).length := by
        simp [delimiter]
      have hInside := congrArg List.length hStop
      rw [List.length_drop, List.length_append] at hInside
      rw [partEnd_of_found hFound]
      simp only
      generalize hAfter :
        found + (delimiter boundary).length = after at *
      rcases
        by
        apply exists_pair_of_length
        rw [List.length_drop]
        omega with
        ⟨a, b, more, hRest⟩ : ∃ a b more, body.drop after = a
          :: b :: more
      have hSecond : body[after + 1]? = some b := by
        apply getElem?_of_drop
        rw [← List.drop_drop, hRest]
        rfl
      have hNotLine : ¬ (a = 13 ∧ b = 10) := by
        rintro ⟨rfl, rfl⟩
        apply hNoLine
        rw [hRest]
        exact List.prefix_append crlf more
      have hNotEnd : ¬ (a = 45 ∧ b = 45) := by
        rintro ⟨rfl, rfl⟩
        apply hNoEnd
        rw [hRest]
        exact List.prefix_append dashes more
      have hMoves (n : Nat) (hN : after ≤ n) (hMax : n ≤ stop) :
          partEnd body boundary n = .ok (stop, last) :=
        ih (stop - n) (by omega) hMax
          (fun other hOther =>
            hClear other (by omega)) rfl
      rw [getElem?_of_drop hRest, hSecond]
      simp only
      rw [if_neg hNotLine, if_neg hNotEnd]
      split
      case isFalse => exact hMoves after (Nat.le_refl _) hApart
      case isTrue =>
        apply hMoves (after + 1) (Nat.le_succ _)
        by_contra hPast
        have hSame : after = stop := by omega
        rw [hSame, hStop] at hRest
        cases hRest
        exact hNotLine ⟨rfl, rfl⟩

/- The data that was written, up to its delimiter. -/
theorem partEnd_written
    {body boundary data next : Bytes}
    {start : Nat}
    {last : Bool}
    (hBoundary : 13 ∉ boundary)
    (hClear : ClearOf boundary data)
    (hHere :
      body.drop start = data ++ (delimiter boundary ++ next))
    (hNext : (if last then dashes else crlf) <+: next) :
    partEnd body boundary start =
      .ok (start + data.length, last) := by
  have hStop := drop_past hHere
  apply partEnd_found hBoundary hStop hNext
  · exact Nat.le_add_right _ _
  · intro found hStart hBefore hFound
    have hApart :=
      delimiter_apart hBoundary hFound hStop hBefore
    rcases Nat.exists_eq_add_of_le hStart with ⟨k, rfl⟩
    rcases hFound with ⟨rest, hRest⟩
    rw [← List.drop_drop, hHere, List.drop_append_of_le_length
      (by omega)] at hRest
    have hPrefix : delimiter boundary <+: data.drop k := by
      apply List.prefix_of_prefix_length_le
        (List.prefix_append _ rest)
        (hRest ▸ List.prefix_append _ _)
      rw [List.length_drop]
      omega
    rcases hPrefix with ⟨after, hAfter⟩
    have hData :
        data = data.take k ++ delimiter boundary ++ after := by
      rw [List.append_assoc, hAfter, List.take_append_drop]
    rcases hClear _ _ hData with ⟨hNoLine, hNoEnd⟩
    have hBytes :
        body.drop (start + k + (delimiter boundary).length) =
          after ++ crlf ++ (dashes ++ boundary ++ next) := by
      have hMore : body.drop (start + k) =
          delimiter boundary ++
            (after ++ crlf ++ (dashes ++ boundary ++ next)) := by
        rw [← List.drop_drop, hHere,
          List.drop_append_of_le_length (by omega), ← hAfter]
        simp [delimiter, crlf, dashes]
      exact drop_past hMore
    have hTwo (two : Bytes) (hTwo : two.length = 2)
        (hIn : two <+:
          after ++ crlf ++ (dashes ++ boundary ++ next)) :
        two <+: after ++ crlf := by
      apply List.prefix_of_prefix_length_le hIn
        (List.prefix_append _ _)
      rw [hTwo, List.length_append]
      exact Nat.le_add_left 2 _
    rw [hBytes]
    exact
      ⟨fun hIn => hNoLine (hTwo crlf rfl hIn),
        fun hIn => hNoEnd (hTwo dashes rfl hIn)⟩

end Form

end MailgunRelay

------------------------------------------------------------
-- Parts
------------------------------------------------------------

namespace MailgunRelay

namespace Form

theorem latin1Bytes_latin1
    (bytes : Bytes) :
    latin1Bytes (latin1 bytes) = bytes := by
  unfold latin1Bytes latin1
  rw [List.map_map]
  apply (List.map_congr_left _).trans (List.map_id bytes)
  intro b _
  exact
    forall_byte
      (P := fun b =>
        (if (Char.ofNat b.toNat).toNat < 256 then
          UInt8.ofNat (Char.ofNat b.toNat).toNat else 63) = b)
      (by decide +kernel) b

/- A parameter as the parser sees it, in latin-1. -/
def latin1Param (p : Str × Str) : Str × Str :=
  (p.1, latin1 (utf8 p.2))

theorem isQuotable_latin1
    {value : Str}
    (hValue : IsQuotable value) :
    IsQuotable (latin1 (utf8 value)) := by
  have hChar (c : Char) (hAscii : c.toNat < 128)
      (hNone : c ∉ value) :
      c ∉ latin1 (utf8 value) := by
    intro hMem
    rcases List.mem_map.mp hMem with ⟨b, hByte, rfl⟩
    have hNat : ∀ n < 256, (Char.ofNat n).toNat = n := by
      decide +kernel
    rw [hNat b.toNat b.toNat_lt] at hAscii
    exact hNone (mem_of_mem_utf8 hAscii hByte)
  exact
    ⟨hChar '"' (by decide) hValue.1,
      hChar '\\' (by decide) hValue.2⟩

theorem latin1_withParams
    {essence : Str}
    {params : List (Str × Str)}
    (hEssence : ∀ c ∈ essence, isAsciiChar c = true)
    (hKeys : ∀ p ∈ params, p.1 ∈ paramKeys) :
    latin1 (utf8 (withParams essence params)) =
      withParams essence (params.map latin1Param) := by
  have hAppend (s t : Str) :
      latin1 (utf8 (s ++ t)) =
        latin1 (utf8 s) ++ latin1 (utf8 t) := by
    rw [utf8_append, latin1, List.map_append]
    rfl
  unfold withParams
  rw [hAppend, latin1_utf8 hEssence]
  congr 1
  induction params with
  | nil => rfl
  | cons p params ih =>
      have hKey := key_ascii (hKeys p List.mem_cons_self)
      have hQuoted :
          ';' :: ' ' :: quotedParam p.1 p.2 =
            [';', ' '] ++ (p.1 ++ (['=', '"'] ++
              (p.2 ++ ['"']))) := rfl
      rw [List.map_cons, List.flatMap_cons, List.flatMap_cons,
        hAppend, ih fun q hMem =>
          hKeys q (List.mem_cons_of_mem p hMem),
        hQuoted, hAppend, hAppend, hAppend, hAppend,
        latin1_utf8 hKey]
      rfl

theorem params_keys
    (entry : Entry) :
    ∀ p ∈ entry.params, p.1 ∈ paramKeys := by
  cases entry with
  | field name text => simp [Entry.params, paramKeys]
  | file name filename contentType data =>
      simp [Entry.params, paramKeys]

/- The header of the names has no CR. -/
theorem disposition_line
    {entry : Entry}
    (hParams : ∀ p ∈ entry.params,
      IsQuotable p.2 ∧ '\r' ∉ p.2) :
    13 ∉ entry.disposition.2 := by
  intro hMem
  have hText : '\r' ∈ withParams "form-data".toList entry.params :=
    mem_of_mem_utf8 (b := 13) (by decide) hMem
  unfold withParams at hText
  rcases List.mem_append.mp hText with hEssence | hText
  · revert hEssence
    decide
  · rcases List.mem_flatMap.mp hText with ⟨p, hP, hIn⟩
    have hKey : '\r' ∉ p.1 := by
      rcases List.mem_pair.mp (params_keys entry p hP)
        with hName | hName
      · rw [hName]
        decide
      · rw [hName]
        decide
    simp [quotedParam, hKey, (hParams p hP).2] at hIn

/- All headers of an entry can be written as they are. -/
theorem headers_isHeader
    {boundary : Bytes}
    {entry : Entry}
    (hSend : Sendable boundary entry)
    (hType : TypeFits entry) :
    ∀ header ∈ entry.headers, IsHeader header := by
  intro header hMem
  have hFits := hType header hMem
  have hName :
      utf8 "Content-Disposition".toList ≠ [] ∧
        (utf8 "Content-Disposition".toList).all isToken =
          true := by
    decide +kernel
  have hTypeName :
      utf8 "Content-Type".toList ≠ [] ∧
        (utf8 "Content-Type".toList).all isToken = true := by
    decide +kernel
  rcases List.mem_cons.mp hMem with rfl | hMem
  · exact
      { named := hName.1
        token := hName.2
        line := disposition_line hSend.quotable
        start := by
          have hHead :
              entry.disposition.2.head? = some 102 := rfl
          rw [hHead]
          decide
        fits := hFits }
  · rcases
      Option.map_eq_some_iff.mp (Option.mem_toList.mp hMem) with
      ⟨value, hValue, rfl⟩
    rcases hSend.contentType value hValue with ⟨hLine, hStart⟩
    exact
      { named := hTypeName.1
        token := hTypeName.2
        line := hLine
        start := hStart
        fits := hFits }

theorem headers_count
    (entry : Entry) :
    entry.headers.length ≤ maxHeaderCount := by
  unfold Entry.headers
  cases entry.contentType with
  | none => exact Nat.le_add_left 1 7
  | some value => exact Nat.le_add_left 2 6

/- What the parser keeps of the headers. -/
theorem headers_recorded
    (entry : Entry) :
    entry.headers.foldl
        (fun (all : PartHeaders) h => all.record h.1 h.2)
        { disposition := none, contentType := none } =
      ({ disposition := some entry.disposition.2
         contentType := entry.contentType } : PartHeaders) := by
  have hDisposition (headers : PartHeaders) (value : Bytes) :
      headers.record (utf8 "Content-Disposition".toList) value =
        { headers with disposition := some value } := by
    unfold PartHeaders.record
    simp only
    rw [if_pos (by decide +kernel)]
  have hType (headers : PartHeaders) (value : Bytes)
      (hNone : headers.contentType = none) :
      headers.record (utf8 "Content-Type".toList) value =
        { headers with contentType := some value } := by
    unfold PartHeaders.record
    simp only
    rw [if_neg (by decide +kernel),
      if_pos ⟨by decide +kernel, hNone⟩]
  unfold Entry.headers
  rw [List.foldl_cons, Entry.disposition, hDisposition]
  cases entry.contentType with
  | none => rfl
  | some value =>
      rw [Option.map_some, Option.toList_some, List.foldl_cons,
        hType _ _ rfl]
      rfl

variable [Unicode]

/- The parameters of the part are those of the entry. -/
theorem options_written
    {entry : Entry}
    (hParams : ∀ p ∈ entry.params,
      IsQuotable p.2 ∧ '\r' ∉ p.2) :
    (optionsHeader (some (latin1 entry.disposition.2))).2 =
      entry.params.map latin1Param := by
  have hSome : entry.params.map latin1Param ≠ [] := by
    cases entry with
    | field name text => exact List.cons_ne_nil _ _
    | file name filename contentType data =>
        exact List.cons_ne_nil _ _
  have hAscii : ("form-data".toList.all isAsciiChar) = true := by
    decide +kernel
  rw [Entry.disposition,
    latin1_withParams (List.all_eq_true.mp hAscii)
      (params_keys entry),
    optionsHeader_withParams (by decide) (by decide) hSome]
  intro p hMem
  rcases List.mem_map.mp hMem with ⟨q, hQ, rfl⟩
  exact
    ⟨params_keys entry q hQ, isQuotable_latin1 (hParams q hQ).1⟩

omit [Unicode] in
theorem decode_latin1
    (text : Str) :
    decode (latin1Bytes (latin1 (utf8 text))) .utf8 = text := by
  rw [latin1Bytes_latin1, decode, fromUtf8_utf8,
    Option.getD_some]

omit [Unicode] in
/- Text that fits is read as itself. -/
theorem partValue_text
    {limits : Limits}
    {text : Str}
    (headers : PartHeaders)
    (hFits : utf8 text ≠ [] →
      ((utf8 text).length : Int) ≤ limits.maxPartSize.val) :
    partValue limits .utf8 headers none (utf8 text) =
      .ok (.text text) := by
  unfold partValue
  simp only
  rw [if_neg, decode, fromUtf8_utf8, Option.getD_some]
  rw [Bool.and_eq_true, exceeds_iff]
  rintro ⟨hSome, hLong⟩
  have hSize := hFits (by simpa using hSome)
  omega

/- A part that was written is read as its entry. -/
theorem part_written
    {body boundary next : Bytes}
    {limits : Limits}
    {counts counts' : Counts}
    {i : Nat}
    {entry : Entry}
    {last : Bool}
    (hBoundary : 13 ∉ boundary)
    (hSend : Sendable boundary entry)
    (hType : TypeFits entry)
    (hSize : entry.data ≠ [] → isText entry.item = true →
      (entry.data.length : Int) ≤ limits.maxPartSize.val)
    (hCount :
      counts.add limits (isUpload entry.item) = .ok counts')
    (hHere :
      body.drop i =
        entry.raw.bytes ++ (delimiter boundary ++ next))
    (hNext : (if last then dashes else crlf) <+: next) :
    part body boundary .utf8 limits counts i =
      .ok
        { item := entry.item
          counts := counts'
          last := last
          next :=
            i + (entry.raw.bytes ++ delimiter boundary).length +
              2 } := by
  have hHeaders :
      body.drop i =
        headerBytes (entry.headers.map headerText) ++ crlf ++
          (entry.data ++ (delimiter boundary ++ next)) := by
    rw [hHere]
    simp [RawPart.bytes, Entry.raw]
  have hStart := drop_past hHeaders
  have hRead :
      partHeaders body maxHeaderCount
          { disposition := none, contentType := none } i =
        _ :=
    partHeaders_written (headers_count entry)
      (headers_isHeader hSend hType) hHeaders
  rw [headers_recorded] at hRead
  have hEnd := partEnd_written hBoundary hSend.clear hStart hNext
  have hData := slice_of_drop hStart
  have hLength :
      i + (entry.raw.bytes ++ delimiter boundary).length =
        i + (headerBytes (entry.headers.map headerText) ++
            crlf).length + entry.data.length +
          (delimiter boundary).length := by
    simp only [RawPart.bytes, Entry.raw, List.length_append]
    omega
  unfold part
  rw [hRead, Lib.ok_bind]
  simp only [Option.map_some]
  rw [options_written hSend.quotable, hLength]
  generalize i + (headerBytes (entry.headers.map headerText) ++
    crlf).length = start at hRead hEnd hData ⊢
  cases entry with
  | field name text =>
      have hName :
          param ([("name".toList, name)].map latin1Param)
              "name".toList =
            some (latin1 (utf8 name)) := rfl
      have hNoFile :
          param ([("name".toList, name)].map latin1Param)
              "filename".toList = none := rfl
      have hValue (headers : PartHeaders) :=
        partValue_text headers fun hSome => hSize hSome rfl
      rw [Entry.params, hName, hNoFile]
      simp only [Option.map_none, Option.isSome_none]
      have hAdd : counts.add limits false = .ok counts' := hCount
      rw [hAdd, Lib.ok_bind, hEnd, Lib.ok_bind]
      simp only
      rw [hData, Entry.data, hValue, Lib.ok_bind, decode_latin1]
      rfl
  | file name filename contentType data =>
      have hName :
          param
              ([("name".toList, name),
                ("filename".toList, filename)].map latin1Param)
              "name".toList =
            some (latin1 (utf8 name)) := rfl
      have hFile :
          param
              ([("name".toList, name),
                ("filename".toList, filename)].map latin1Param)
              "filename".toList =
            some (latin1 (utf8 filename)) := rfl
      rw [Entry.params, hName, hFile]
      simp only [Option.map_some, Option.isSome_some]
      have hAdd : counts.add limits true = .ok counts' := hCount
      rw [hAdd, Lib.ok_bind, hEnd, Lib.ok_bind]
      simp only
      rw [hData, partValue, Lib.ok_bind, decode_latin1,
        decode_latin1]
      rfl

end Form

end MailgunRelay

------------------------------------------------------------
-- Multipart Bodies
------------------------------------------------------------

namespace MailgunRelay

namespace Form

/- A count that the limits admit is added. -/
theorem Counted.admits
    {limits : Limits}
    {items later : List Item}
    {item : Item}
    {counts : Counts}
    (hCounted : Counted limits items counts)
    (hFits : CountsFit limits (items ++ item :: later)) :
    ∃ counts',
      counts.add limits (isUpload item) = .ok counts' ∧
        Counted limits (items ++ [item]) counts' := by
  have hAdd : ∃ counts',
      counts.add limits (isUpload item) = .ok counts' := by
    unfold Counts.add
    cases hUpload : isUpload item with
    | true =>
        have hFiles := hFits.files
        rw [List.countP_append, List.countP_cons,
          if_pos hUpload, ← hCounted.files] at hFiles
        have hMax := hFiles (by omega)
        rw [if_pos rfl]
        simp only
        rw [if_neg]
        · exact ⟨_, rfl⟩
        · rw [exceeds_iff]
          push_cast at hMax ⊢
          omega
    | false =>
        have hText : isText item = true := by
          rw [isText, hUpload]
          rfl
        have hFields := hFits.fields
        rw [List.countP_append, List.countP_cons,
          if_pos hText, ← hCounted.fields] at hFields
        have hMax := hFields (by omega)
        rw [if_neg (by decide)]
        simp only
        rw [if_neg]
        · exact ⟨_, rfl⟩
        · rw [exceeds_iff]
          push_cast at hMax ⊢
          omega
  rcases hAdd with ⟨counts', hAdd⟩
  exact ⟨counts', hAdd, hCounted.add hAdd⟩

/- After the first boundary, the parts and their boundaries. -/
def afterBoundary
    (boundary tail : Bytes) : List Entry → Bytes
| [] => dashes ++ tail
| entry :: rest =>
    crlf ++ entry.raw.bytes ++ delimiter boundary ++
      afterBoundary boundary tail rest

theorem multipartBody_eq
    (boundary tail : Bytes)
    (entries : List Entry) :
    multipartBody boundary entries tail =
      dashes ++ boundary ++
        afterBoundary boundary tail entries := by
  induction entries with
  | nil => simp [multipartBody, afterBoundary]
  | cons entry rest ih =>
      have hBody :
          multipartBody boundary (entry :: rest) tail =
            entry.bytes boundary ++
              multipartBody boundary rest tail := by
        simp [multipartBody]
      rw [hBody, ih]
      simp [Entry.bytes, afterBoundary, delimiter, crlf, dashes]

variable [Unicode]

/- The parts are read one after another. -/
theorem parts_written
    {body boundary tail : Bytes}
    {limits : Limits}
    {items : List Item}
    {counts : Counts}
    {i : Nat}
    {entry : Entry}
    {rest : List Entry}
    (hBoundary : 13 ∉ boundary)
    (hSend : ∀ e ∈ entry :: rest,
      Sendable boundary e ∧ TypeFits e)
    (hSizes : ∀ e ∈ entry :: rest, e.data ≠ [] →
      isText e.item = true →
        (e.data.length : Int) ≤ limits.maxPartSize.val)
    (hCounted : Counted limits items counts)
    (hFits : CountsFit limits
      (items ++ (entry :: rest).map Entry.item))
    (hHere :
      body.drop i =
        entry.raw.bytes ++ (delimiter boundary ++
          afterBoundary boundary tail rest)) :
    parts body boundary .utf8 limits items counts i =
      .ok (items ++ (entry :: rest).map Entry.item) := by
  induction rest generalizing entry items counts i with
  | nil =>
      rcases hSend entry List.mem_cons_self with ⟨hEntry, hType⟩
      rcases hCounted.admits hFits with ⟨counts', hAdd, -⟩
      have hPart :=
        @part_written _ body boundary _ limits counts counts' i
          entry true hBoundary hEntry hType
          (hSizes entry List.mem_cons_self) hAdd hHere (List.prefix_append dashes tail)
      rw [parts_of_part hPart]
      rfl
  | cons second rest ih =>
      rcases hSend entry List.mem_cons_self with ⟨hEntry, hType⟩
      rcases hCounted.admits hFits with ⟨counts', hAdd, hMore⟩
      have hNext :
          crlf <+: afterBoundary boundary tail (second :: rest) := by
        rw [afterBoundary, List.append_assoc, List.append_assoc]
        exact List.prefix_append _ _
      have hPart :=
        @part_written _ body boundary _ limits counts counts' i
          entry false hBoundary hEntry hType
          (hSizes entry List.mem_cons_self) hAdd hHere hNext
      rw [parts_of_part hPart, if_neg (by simp)]
      have hItems :
          items ++ (entry :: second :: rest).map Entry.item =
            items ++ [entry.item] ++
              (second :: rest).map Entry.item := by
        simp
      rw [hItems] at hFits ⊢
      apply ih _ _ hMore hFits
      · have hSplit :
            body.drop i =
              entry.raw.bytes ++ delimiter boundary ++ crlf ++
                (second.raw.bytes ++ (delimiter boundary ++
                  afterBoundary boundary tail rest)) := by
          rw [hHere, afterBoundary]
          simp
        have hPast := drop_past hSplit
        rw [List.length_append, ← Nat.add_assoc] at hPast
        exact hPast
      · intro e hMem
        exact hSend e (List.mem_cons_of_mem entry hMem)
      · intro e hMem
        exact hSizes e (List.mem_cons_of_mem entry hMem)

/- A multipart body is read as the entries written in it. -/
theorem multipart_written
    {boundary : Bytes}
    {entries : List Entry}
    {limits : Limits}
    (hBoundary : 13 ∉ boundary)
    (hSend : ∀ e ∈ entries, Sendable boundary e ∧ TypeFits e)
    (hAdmits : Admits limits entries)
    (tail : Bytes) :
    multipart (multipartBody boundary entries tail) boundary
        .utf8 limits =
      .ok (entries.map Entry.item) := by
  generalize hBody : multipartBody boundary entries tail = body
  rw [multipartBody_eq] at hBody
  have hAfter :
      body.drop (dashes ++ boundary).length =
        afterBoundary boundary tail entries := by
    rw [← hBody, List.drop_left]
  unfold multipart
  cases entries with
  | nil =>
      have hStart :=
        @multipartStart_closing body boundary [] nofun (by
          rw [← hBody, afterBoundary, ← List.append_assoc]
          exact List.prefix_append _ tail)
      rw [hStart]
      rfl
  | cons entry rest =>
      have hLead :
          (body.takeWhile fun b => b == 13 || b == 10) = [] := by
        rw [← hBody]
        rfl
      have hFirst :
          expect body ((delimiter boundary).drop 2) 0 =
            .ok (dashes ++ boundary).length := by
        have hExpect :=
          @expect_eq_ok body (dashes ++ boundary) 0 (by
            rw [← hBody]
            exact List.prefix_append _ _)
        rw [Nat.zero_add] at hExpect
        exact hExpect
      generalize (dashes ++ boundary).length = n
        at hFirst hAfter
      have hStart :
          multipartStart body boundary = .ok (n + 2) := by
        have hLf : body[n + 1]? = some 10 := by
          rw [← List.getElem?_drop, hAfter]
          rfl
        have hCr : body[n]? = some 13 := by
          rw [← List.head?_drop, hAfter]
          rfl
        unfold multipartStart
        rw [hLead]
        simp only [List.length_nil, Nat.lt_irrefl,
          decide_false, Bool.false_and, Bool.false_eq_true,
          if_false]
        rw [hFirst, Lib.ok_bind, hCr, hLf]
        rfl
      rw [hStart]
      simp only
      have hParts :=
        @parts_written _ body boundary tail limits []
          { files := 0, fields := 0 } (n + 2) entry rest hBoundary
          hSend hAdmits.sizes ⟨rfl, rfl, CountsFit.nil limits⟩
          hAdmits.counts (by
            rw [← List.drop_drop, hAfter, afterBoundary]
            simp [crlf])
      exact hParts

end Form

end MailgunRelay

------------------------------------------------------------
-- Urlencoded Bodies
------------------------------------------------------------

namespace MailgunRelay

namespace Form

/- A name, `=` and a value, quoted. -/
def urlencodeField (field : Str × Str) : Str :=
  quotePlus field.1 ++ '=' :: quotePlus field.2

/- `urllib.parse.urlencode`. -/
def urlencode (fields : List (Str × Str)) : Bytes :=
  utf8 (['&'].intercalate (fields.map urlencodeField))

/- The item of a text field. -/
def fieldItem (field : Str × Str) : Item :=
  (field.1, .text field.2)

/- The quoted name and value. -/
def quotedPair (field : Str × Str) : Bytes × Bytes :=
  (utf8 (quotePlus field.1), utf8 (quotePlus field.2))

/- The limits admit the count and the quoted sizes. -/
structure AdmitsQuoted
    (limits : Limits)
    (fields : List (Str × Str)) : Prop where
  counts : fields ≠ [] →
    (fields.length : Int) ≤ limits.maxFields.val
  sizes : ∀ field ∈ fields, field ≠ ([], []) →
    (pairSize (quotedPair field) : Int) ≤
      limits.maxPartSize.val

/- Quoted text separates nothing. -/
theorem quotePlus_chars
    {text : Str}
    {c : Char}
    (hMem : c ∈ quotePlus text) :
    isAsciiChar c = true ∧ c ≠ '&' ∧ c ≠ '=' := by
  rcases List.mem_flatMap.mp hMem with ⟨b, -, hByte⟩
  have hHere :=
    forall_byte
      (P := fun b =>
        ((quoteByte b).all fun c =>
          isAsciiChar c && c != '&' && c != '=') = true)
      (by decide +kernel) b
  rw [List.all_eq_true] at hHere
  have hChar := hHere c hByte
  rw [Bool.and_eq_true, Bool.and_eq_true, bne_iff_ne,
    bne_iff_ne] at hChar
  exact ⟨hChar.1.1, hChar.1.2, hChar.2⟩

/- A separator stands between the bytes of the parts. -/
theorem utf8_intercalate
    (parts : List Str) :
    utf8 (['&'].intercalate parts) =
      [38].intercalate (parts.map utf8) := by
  induction parts with
  | nil => rfl
  | cons part parts ih =>
      cases parts with
      | nil => simp
      | cons second rest =>
          rw [List.intercalate_cons_cons, utf8_append,
            utf8_append, ih, List.map_cons, List.map_cons,
            List.map_cons, List.intercalate_cons_cons]
          rfl

/- A written field is split into its name and its value. -/
theorem splitField_written
    (field : Str × Str) :
    splitField (utf8 (urlencodeField field)) =
      quotedPair field := by
  have hEq : 61 ∉ utf8 (quotePlus field.1) := fun hMem =>
    (quotePlus_chars (mem_of_mem_utf8 (by decide) hMem)).2.2 rfl
  have hSplit :
      Lib.Text.splitOnce 61 (utf8 (urlencodeField field)) =
        some (quotedPair field) := by
    apply (Lib.Text.splitOnce_eq_some_iff _ _ _ _).mpr
    refine ⟨?_, hEq⟩
    rw [urlencodeField, utf8_append]
    rfl
  rw [splitField, hSplit, Option.getD_some]

/- Quoted text is read as the text. -/
theorem unquote_written
    (text : Str) :
    unquotePlus (latin1 (utf8 (quotePlus text))) = text := by
  rw [latin1_utf8 fun c hMem => (quotePlus_chars hMem).1,
    unquotePlus_quotePlus]

/- The written fields are read one after another. -/
theorem urlencodedFields_written
    {limits : Limits}
    {items : List Item}
    {fields : List (Str × Str)}
    (hCount : fields ≠ [] →
      ((items.length + fields.length : Nat) : Int) ≤
        limits.maxFields.val)
    (hSizes : ∀ field ∈ fields, field ≠ ([], []) →
      (pairSize (quotedPair field) : Int) ≤
        limits.maxPartSize.val) :
    urlencodedFields limits items
        (fields.map fun field => utf8 (urlencodeField field)) =
      .ok (items ++ fields.map fieldItem) := by
  induction fields generalizing items with
  | nil =>
      rw [List.map_nil, List.map_nil, List.append_nil]
      rfl
  | cons field fields ih =>
      have hMax := hCount (List.cons_ne_nil _ _)
      rw [List.length_cons] at hMax
      have hShort := hSizes field List.mem_cons_self
      rw [List.map_cons, urlencodedFields, splitField_written]
      unfold pairSize quotedPair at hShort
      dsimp only at hShort
      unfold quotedPair
      simp only
      rw [if_neg, if_neg, unquote_written, unquote_written, ih]
      · simp [fieldItem]
      · intro _
        rw [List.length_append, List.length_singleton]
        omega
      · intro other hMem
        exact hSizes other (List.mem_cons_of_mem field hMem)
      · rw [exceeds_iff]
        omega
      · rw [Bool.or_eq_true, Bool.and_eq_true,
          Bool.and_eq_true, exceeds_iff, exceeds_iff]
        rintro (⟨hSome, hLong⟩ | ⟨hSome, hLong⟩)
        · have hFits := hShort fun hEmpty => by
            rw [hEmpty] at hSome
            cases hSome
          omega
        · have hFits := hShort fun hEmpty => by
            rw [hEmpty] at hSome
            cases hSome
          omega

theorem urlencoded_written
    {limits : Limits}
    {fields : List (Str × Str)}
    (hAdmits : AdmitsQuoted limits fields) :
    urlencoded (urlencode fields) limits =
      .ok (fields.map fieldItem) := by
  have hFields :
      ((urlencode fields).splitOn 38).filter
          (fun field => !field.isEmpty) =
        fields.map fun field => utf8 (urlencodeField field) := by
    have hAnd : ∀ part ∈ (fields.map urlencodeField).map utf8,
        38 ∉ part := by
      intro part hPart hMem
      rcases List.mem_map.mp hPart with ⟨text, hText, rfl⟩
      rcases List.mem_map.mp hText with ⟨field, -, rfl⟩
      have hChar := mem_of_mem_utf8 (by decide) hMem
      rcases List.mem_append.mp hChar with hName | hValue
      · exact (quotePlus_chars hName).2.1 rfl
      · rcases List.mem_cons.mp hValue with hEq | hValue
        · revert hEq
          decide
        · exact (quotePlus_chars hValue).2.1 rfl
    rw [urlencode, utf8_intercalate]
    cases fields with
    | nil => rfl
    | cons field fields =>
        rw [List.splitOn_intercalate _ hAnd
          (List.cons_ne_nil _ _), List.map_map]
        apply List.filter_eq_self.mpr
        intro part hPart
        rcases List.mem_map.mp hPart with ⟨other, -, rfl⟩
        rw [Function.comp_apply, urlencodeField, utf8_append,
          utf8_cons]
        simp
  rw [urlencoded, hFields]
  apply urlencodedFields_written
  · intro hSome
    rw [List.length_nil, Nat.zero_add]
    exact hAdmits.counts hSome
  · exact hAdmits.sizes

end Form

end MailgunRelay

------------------------------------------------------------
-- Both Encodings
------------------------------------------------------------

namespace MailgunRelay

namespace Form

/- A text field as an entry of a multipart body. -/
def fieldEntry (field : Str × Str) : Entry :=
  .field field.1 field.2

section

variable [Unicode]

/-
  What is written is read: the entries of a multipart body,
  the fields of an urlencoded one, and so the same form for
  fields in both encodings.
-/
theorem encodings_lossless :
    (∀ boundary entries tail limits,
      13 ∉ boundary →
      (∀ e ∈ entries, Sendable boundary e ∧ TypeFits e) →
      Admits limits entries →
      parse (.multipart boundary .utf8)
          (multipartBody boundary entries tail) limits =
        .ok (entries.map Entry.item)) ∧
    (∀ fields limits,
      AdmitsQuoted limits fields →
      parse .urlencoded (urlencode fields) limits =
        .ok (fields.map fieldItem)) ∧
    (∀ boundary fields tail limits,
      13 ∉ boundary →
      (∀ field ∈ fields,
        Sendable boundary (fieldEntry field)) →
      Admits limits (fields.map fieldEntry) →
      AdmitsQuoted limits fields →
      parse (.multipart boundary .utf8)
          (multipartBody boundary (fields.map fieldEntry) tail)
          limits =
        parse .urlencoded (urlencode fields) limits) := by
  refine ⟨?_, ?_, ?_⟩
  · intro boundary entries tail limits hBoundary hSend hAdmits
    exact multipart_written hBoundary hSend hAdmits tail
  · intro fields limits hAdmits
    exact urlencoded_written hAdmits
  · intro boundary fields tail limits hBoundary hSend hAdmits
      hQuoted
    have hAll : ∀ e ∈ fields.map fieldEntry,
        Sendable boundary e ∧ TypeFits e := by
      intro e hMem
      rcases List.mem_map.mp hMem with ⟨field, hField, rfl⟩
      refine ⟨hSend field hField, fun header hHeader => ?_⟩
      rw [List.mem_singleton.mp hHeader]
      exact (hSend field hField).fits
    have hItems :
        (fields.map fieldEntry).map Entry.item =
          fields.map fieldItem := by
      rw [List.map_map]
      rfl
    rw [parse, parse, multipart_written hBoundary hAll hAdmits,
      urlencoded_written hQuoted, hItems]

end

/- A file between two fields, with a false boundary in it. -/
theorem encodings_lossless_upload :
    let _ : Unicode := .ascii
    let limits : Limits :=
      { maxFiles := ⟨4, by decide⟩
        maxFields := ⟨110, by decide⟩
        maxPartSize := ⟨1048576, by decide⟩ }
    let boundary : Bytes := [98]
    let entries : List Entry :=
      [.field "to".toList "a; b=\"c\"".toList,
       .file "attachment".toList "é;=.txt".toList
        (some (utf8 "text/plain".toList))
        [13, 10, 45, 45, 98, 99, 255],
       .field "h:X".toList []]
    parse (.multipart boundary .utf8)
        (multipartBody boundary entries []) limits =
      .ok (entries.map Entry.item) := by
  intro _ limits boundary entries
  apply encodings_lossless.1 boundary entries [] limits
  · decide
  · decide +kernel
  · decide +kernel

/- The line of a content type that does not fit is refused. -/
theorem multipart_longType :
    ¬ ∀ [Unicode] (boundary : Bytes) (entries : List Entry)
        (limits : Limits),
      13 ∉ boundary → 10 ∉ boundary →
      (∀ e ∈ entries, Sendable boundary e) →
      Admits limits entries →
      parse (.multipart boundary .utf8)
          (multipartBody boundary entries []) limits =
        .ok (entries.map Entry.item) := by
  intro hAll
  have hRead :=
    @hAll Unicode.ascii [98]
      [.file "a".toList "b".toList (some (List.replicate 4300 97))
        []]
      { maxFiles := ⟨4, by decide⟩
        maxFields := ⟨110, by decide⟩
        maxPartSize := ⟨1048576, by decide⟩ }
      (by decide) (by decide) (by decide +kernel)
      (by decide +kernel)
  have hRefused := congrArg Lib.errorOf hRead
  revert hRefused
  decide +kernel

end Form

end MailgunRelay
