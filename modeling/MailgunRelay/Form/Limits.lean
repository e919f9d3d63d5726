import MailgunRelay.Form.Scanner

/-
  What an accepted body is made of.  A multipart body is
  read as a sequence of parts, each with its header lines and
  its data, and the limits hold for the parts as they were
  sent; an urlencoded body as a sequence of pairs.

  Key definitions include:
    * `MailgunRelay.Form.RawPart`
    * `MailgunRelay.Form.HeadersFit`
    * `MailgunRelay.Form.Layout`
    * `MailgunRelay.Form.Carries`
    * `MailgunRelay.Form.CountsFit`
    * `MailgunRelay.Form.pairs`

  Key theorems include:
    * `MailgunRelay.Form.partHeaders_lines`
    * `MailgunRelay.Form.part_layout`
    * `MailgunRelay.Form.parts_layout`
    * `MailgunRelay.Form.parse_limits`
-/

------------------------------------------------------------
-- Parts As They Were Sent
------------------------------------------------------------

namespace MailgunRelay

namespace Form

def crlf : Bytes := [13, 10]

/- The header lines and the data of a part. -/
structure RawPart where
  headers : List Bytes
  data : Bytes

/- Header lines, each with its line break. -/
def headerBytes (headers : List Bytes) : Bytes :=
  headers.flatMap (· ++ crlf)

def RawPart.bytes (raw : RawPart) : Bytes :=
  headerBytes raw.headers ++ crlf ++ raw.data

/- A header line, without its line break. -/
def LineFits (line : Bytes) : Prop :=
  line ≠ [] ∧ 13 ∉ line ∧ line.length ≤ maxHeaderSize

def HeadersFit (headers : List Bytes) : Prop :=
  headers.length ≤ maxHeaderCount ∧
    ∀ line ∈ headers, LineFits line

/- A part that the body ends in, from its headers on. -/
inductive Unfinished : Bytes → Prop where
  | line
      {headers : List Bytes} {line rest : Bytes}
      (hFits : HeadersFit (headers ++ [line]))
      (hRest : rest = line ∨ rest = line ++ [13]) :
      Unfinished (headerBytes headers ++ rest)
  | headers
      {headers : List Bytes} {rest : Bytes}
      (hFits : HeadersFit headers)
      (hRest : rest = [] ∨ rest = [13]) :
      Unfinished (headerBytes headers ++ rest)
  | data
      {raw : RawPart}
      (hFits : HeadersFit raw.headers) :
      Unfinished raw.bytes

/-
  The parts of a body from the first headers on: each one is
  followed by a delimiter, the last one by the closing one or
  by a part that is not finished.
-/
inductive Layout (boundary : Bytes) :
    List RawPart → Bytes → Prop where
  | unfinished
      {rest : Bytes}
      (hRest : Unfinished rest) :
      Layout boundary [] rest
  | last
      {raw : RawPart}
      (rest : Bytes) :
      Layout boundary [raw]
        (raw.bytes ++ (delimiter boundary ++ [45, 45] ++ rest))
  | more
      {raw : RawPart} {raws : List RawPart} {rest : Bytes}
      (hRest : Layout boundary raws rest) :
      Layout boundary (raw :: raws)
        (raw.bytes ++ (delimiter boundary ++ crlf ++ rest))

/- The data of the parts is in the body. -/
theorem Layout.sum_le
    {boundary rest : Bytes}
    {raws : List RawPart}
    (hLayout : Layout boundary raws rest) :
    (raws.map fun raw => raw.data.length).sum ≤ rest.length := by
  induction hLayout with
  | unfinished => exact Nat.zero_le _
  | last rest =>
      simp only [List.map_cons, List.map_nil, List.sum_cons,
        List.sum_nil, RawPart.bytes, List.length_append]
      omega
  | more _ ih =>
      simp only [List.map_cons, List.sum_cons, RawPart.bytes,
        List.length_append]
      omega

/- The item that a part is read as, within the limits. -/
def Carries
    (limits : Limits)
    (charset : Charset)
    (raw : RawPart)
    (item : Item) : Prop :=
  HeadersFit raw.headers ∧
    match item.2 with
    | .file upload => upload.data = raw.data
    | .text text =>
        text = decode raw.data charset ∧
          (raw.data ≠ [] →
            (raw.data.length : Int) ≤ limits.maxPartSize.val)

end Form

end MailgunRelay

------------------------------------------------------------
-- Slices
------------------------------------------------------------

namespace MailgunRelay

namespace Form

theorem slice_append
    (body : Bytes)
    {i j k : Nat}
    (hFirst : i ≤ j)
    (hSecond : j ≤ k) :
    slice body i j ++ slice body j k = slice body i k := by
  rcases Nat.exists_eq_add_of_le hFirst with ⟨m, rfl⟩
  rcases Nat.exists_eq_add_of_le hSecond with ⟨n, rfl⟩
  unfold slice
  rw [show i + m + n - i = m + n by omega, List.take_add,
    List.drop_drop]
  simp

theorem slice_append_drop
    (body : Bytes)
    {i j : Nat}
    (hLe : i ≤ j) :
    slice body i j ++ body.drop j = body.drop i := by
  rcases Nat.exists_eq_add_of_le hLe with ⟨m, rfl⟩
  unfold slice
  rw [← List.drop_drop, show i + m - i = m by omega,
    List.take_append_drop]

theorem length_slice
    {body : Bytes}
    {i j : Nat}
    (hInside : j ≤ body.length) :
    (slice body i j).length = j - i := by
  unfold slice
  rw [List.length_take, List.length_drop]
  omega

/- The byte at an index is the next slice. -/
theorem slice_one
    {body : Bytes}
    {i : Nat}
    {b : UInt8}
    (hHere : body[i]? = some b) :
    slice body i (i + 1) = [b] := by
  rcases List.getElem?_eq_some_iff.mp hHere with ⟨hInside, hEq⟩
  unfold slice
  rw [List.drop_eq_getElem_cons hInside, hEq,
    Nat.add_sub_cancel_left]
  rfl

theorem drop_of_getElem?
    {body : Bytes}
    {i : Nat}
    {b : UInt8}
    (hHere : body[i]? = some b) :
    body.drop i = b :: body.drop (i + 1) := by
  rw [← slice_append_drop body (Nat.le_succ i), slice_one hHere]
  rfl

/- Up to the first such byte there is none. -/
theorem not_mem_slice_findByte
    {body : Bytes}
    {byte : UInt8}
    {start found : Nat}
    (hFound : findByte body byte start = some found) :
    byte ∉ slice body start found := by
  rcases findByte_eq_some_iff.mp hFound with ⟨hLe, -, hNone⟩
  intro hMem
  rcases List.mem_take_iff_getElem.mp hMem with
    ⟨j, hLess, hHere⟩
  rw [List.getElem_drop] at hHere
  rw [List.length_drop] at hLess
  apply hNone (start + j) (Nat.le_add_right _ _) (by omega)
  rw [List.getElem?_eq_getElem (by omega), hHere]

/- A byte that is not found is not there. -/
theorem not_mem_drop_findByte
    {body : Bytes}
    {byte : UInt8}
    {start : Nat}
    (hNone : findByte body byte start = none) :
    byte ∉ body.drop start := by
  unfold findByte at hNone
  rw [Option.map_eq_none_iff, List.idxOf?_eq_none_iff] at hNone
  exact hNone

end Form

end MailgunRelay

------------------------------------------------------------
-- Header Lines
------------------------------------------------------------

namespace MailgunRelay

namespace Form

/- The headers end with an empty line. -/
theorem headersEnd_start
    {body : Bytes}
    {i start : Nat}
    (hEnd : headersEnd body i = .ok (some start)) :
    body.drop i = crlf ++ body.drop start := by
  unfold headersEnd at hEnd
  split at hEnd
  · cases hEnd
  · cases hEnd
  · rename_i hFirst hSecond
    cases hEnd
    rw [drop_of_getElem? hFirst, drop_of_getElem? hSecond]
    rfl
  · cases hEnd
  · cases hEnd

/- The body ends where a header may start. -/
theorem headersEnd_ended
    {body : Bytes}
    {i : Nat}
    (hEnd : headersEnd body i = .error .ended) :
    body.drop i = [] ∨ body.drop i = [13] := by
  unfold headersEnd at hEnd
  split at hEnd
  · rename_i hNone
    exact .inl
      (List.drop_of_length_le (List.getElem?_eq_none_iff.mp hNone))
  · rename_i hFirst hNone
    right
    rw [drop_of_getElem? hFirst,
      List.drop_of_length_le (List.getElem?_eq_none_iff.mp hNone)]
  · cases hEnd
  · cases hEnd
  · cases hEnd

/- A token has no line break. -/
theorem not_mem_of_tokens
    {name : Bytes}
    (hTokens : name.all isToken = true) :
    13 ∉ name := by
  intro hMem
  have hToken := List.all_eq_true.mp hTokens 13 hMem
  revert hToken
  decide

/- The name of a header and its colon. -/
theorem headerName_read
    {body name : Bytes}
    {i size next : Nat}
    (hName : headerName body i = .ok (name, size, next)) :
    i < next ∧ next ≤ body.length ∧ size = next - i ∧
      size ≤ maxHeaderSize ∧ 13 ∉ slice body i next := by
  rcases headerName_inside hName with ⟨hFits, hInside⟩
  unfold headerName at hName
  simp only at hName
  split at hName
  · cases hName
  rename_i hTokens
  rw [Bool.or_eq_true, not_or] at hTokens
  split at hName
  · cases hName
  rename_i colon hColon
  split at hName
  · cases hName
  rcases findByte_eq_some_iff.mp hColon with ⟨hLe, hHere, -⟩
  rw [hColon] at hTokens
  simp only [Except.ok.injEq, Prod.mk.injEq, hColon,
    Option.getD_some, Option.isSome_some,
    Bool.toNat_true] at hName hTokens
  rcases hName with ⟨-, rfl, rfl⟩
  refine ⟨by omega, hInside, by omega, hFits, ?_⟩
  rw [← slice_append body hLe (Nat.le_succ colon),
    slice_one hHere, List.mem_append, not_or]
  constructor
  · apply not_mem_of_tokens
    simpa using hTokens.2
  · decide

/- The body ends in the name of a header. -/
theorem headerName_ended
    {body : Bytes}
    {i : Nat}
    (hInside : i < body.length)
    (hName : headerName body i = .error .ended) :
    LineFits (body.drop i) := by
  unfold headerName at hName
  simp only at hName
  split at hName
  · cases hName
  rename_i hFits
  split at hName
  · rename_i hColon
    have hAll : slice body i body.length = body.drop i :=
      List.take_of_length_le (Nat.le_of_eq List.length_drop)
    rw [Bool.or_eq_true, not_or, hColon, Option.getD_none,
      hAll] at hFits
    simp only [Option.isSome_none, Bool.toNat_false,
      Nat.add_zero, decide_eq_true_eq] at hFits
    refine ⟨?_, ?_, ?_⟩
    · rw [Ne, List.drop_eq_nil_iff]
      omega
    · apply not_mem_of_tokens
      simpa using hFits.2
    · rw [List.length_drop]
      omega
  · split at hName <;> cases hName

/- The rest of a header line up to its line break. -/
theorem headerValue_read
    {body value : Bytes}
    {size i next : Nat}
    (hValue : headerValue body size i = .ok (value, next)) :
    ∃ cr, i ≤ cr ∧ cr ≤ body.length ∧
      size + (cr - i) ≤ maxHeaderSize ∧
      13 ∉ slice body i cr ∧
      body.drop cr = crlf ++ body.drop next := by
  unfold headerValue at hValue
  simp only at hValue
  split at hValue
  · cases hValue
  rename_i hFits
  split at hValue
  · cases hValue
  rename_i cr hCr
  split at hValue
  · cases hValue
  rename_i b hNext
  split at hValue
  · rename_i hLine
    cases hValue
    rcases findByte_eq_some_iff.mp hCr with ⟨hLe, hHere, -⟩
    rw [hCr, Option.getD_some] at hFits
    have hLess := (List.getElem?_eq_some_iff.mp hHere).1
    refine
      ⟨cr, hLe, Nat.le_of_lt hLess, by omega,
        not_mem_slice_findByte hCr, ?_⟩
    rw [drop_of_getElem? hHere, drop_of_getElem? hNext, hLine]
    rfl
  · cases hValue

/- The body ends in the value of a header. -/
theorem headerValue_ended
    {body : Bytes}
    {size i : Nat}
    (hValue : headerValue body size i = .error .ended) :
    ∃ rest, 13 ∉ rest ∧
      size + rest.length ≤ maxHeaderSize ∧
      (body.drop i = rest ∨ body.drop i = rest ++ [13]) := by
  unfold headerValue at hValue
  simp only at hValue
  split at hValue
  · cases hValue
  rename_i hFits
  split at hValue
  · rename_i hNone
    rw [hNone, Option.getD_none] at hFits
    refine
      ⟨body.drop i, not_mem_drop_findByte hNone, ?_, .inl rfl⟩
    rw [List.length_drop]
    omega
  · rename_i cr hCr
    rcases findByte_eq_some_iff.mp hCr with ⟨hLe, hHere, -⟩
    have hLess := (List.getElem?_eq_some_iff.mp hHere).1
    rw [hCr, Option.getD_some] at hFits
    split at hValue
    · rename_i hNext
      refine
        ⟨slice body i cr, not_mem_slice_findByte hCr, ?_, .inr ?_⟩
      · rw [length_slice (Nat.le_of_lt hLess)]
        omega
      · rw [← slice_append_drop body hLe, drop_of_getElem? hHere,
          List.drop_of_length_le
            (List.getElem?_eq_none_iff.mp hNext)]
    · split at hValue <;> cases hValue

/- Only spaces are skipped. -/
theorem skipSpaces_read
    {body : Bytes}
    {size i size' i' : Nat}
    (hInside : i ≤ body.length)
    (hSize : size ≤ maxHeaderSize)
    (hSkip :
      skipSpaces size i (body.drop i) = .ok (size', i')) :
    i ≤ i' ∧ i' ≤ body.length ∧ size' = size + (i' - i) ∧
      size' ≤ maxHeaderSize ∧ 13 ∉ slice body i i' := by
  rcases skipSpaces_spec hSkip with
    ⟨n, rfl, rfl, hLength, hSpaces, hFits⟩
  rw [List.length_drop] at hLength
  refine ⟨by omega, by omega, by omega, hFits hSize, ?_⟩
  unfold slice
  rw [Nat.add_sub_cancel_left]
  intro hMem
  have hSpace := hSpaces 13 hMem
  revert hSpace
  decide

/- Too many spaces are refused, wherever the body ends. -/
theorem skipSpaces_error
    {size i : Nat}
    {rest : Bytes}
    {stop : Stop}
    (hSkip : skipSpaces size i rest = .error stop) :
    stop = .refused .badRequest := by
  induction rest generalizing size i with
  | nil => cases hSkip
  | cons b rest ih =>
      unfold skipSpaces at hSkip
      split at hSkip
      · split at hSkip
        · cases hSkip
          rfl
        · exact ih hSkip
      · cases hSkip

/- A header that was read is a line of the body. -/
theorem headerLine_read
    {body name value : Bytes}
    {i next : Nat}
    (hLine : headerLine body i = .ok (name, value, next)) :
    ∃ line, LineFits line ∧
      body.drop i = line ++ crlf ++ body.drop next := by
  unfold headerLine at hLine
  simp only [Lib.bind_eq_ok_iff, Prod.exists] at hLine
  rcases hLine with
    ⟨name', size, j, hName, size', k, hSkip, value', l, hValue,
      hEnd⟩
  cases hEnd
  rcases headerName_read hName with
    ⟨hJ, hJInside, hSize, hSizeFits, hFirst⟩
  rcases skipSpaces_read hJInside hSizeFits hSkip with
    ⟨hK, hKInside, hSize', hSizeFits', hSecond⟩
  rcases headerValue_read hValue with
    ⟨cr, hLe, hCr, hFits, hThird, hBreak⟩
  have hParts :
      slice body i j ++ slice body j k ++ slice body k cr =
        slice body i cr := by
    rw [slice_append body (by omega) hK,
      slice_append body (by omega) hLe]
  refine ⟨slice body i cr, ⟨?_, ?_, ?_⟩, ?_⟩
  · apply List.ne_nil_of_length_pos
    rw [length_slice hCr]
    omega
  · rw [← hParts, List.mem_append, List.mem_append, not_or,
      not_or]
    exact ⟨⟨hFirst, hSecond⟩, hThird⟩
  · rw [length_slice hCr]
    omega
  · rw [List.append_assoc, ← hBreak,
      slice_append_drop body (by omega)]

/- The body ends in a header line. -/
theorem headerLine_ended
    {body : Bytes}
    {i : Nat}
    (hInside : i < body.length)
    (hLine : headerLine body i = .error .ended) :
    ∃ line, LineFits line ∧
      (body.drop i = line ∨ body.drop i = line ++ [13]) := by
  unfold headerLine at hLine
  cases hName : headerName body i with
  | error stop =>
      rw [hName] at hLine
      cases hLine
      exact ⟨_, headerName_ended hInside hName, .inl rfl⟩
  | ok header =>
      rcases header with ⟨name, size, j⟩
      rw [hName, Lib.ok_bind] at hLine
      rcases headerName_read hName with
        ⟨hJ, hJInside, hSize, hSizeFits, hFirst⟩
      cases hSkip : skipSpaces size j (body.drop j) with
      | error stop =>
          rw [skipSpaces_error hSkip] at hSkip
          simp only [hSkip] at hLine
          cases hLine
      | ok spaces =>
          rcases spaces with ⟨size', k⟩
          simp only [hSkip, Lib.ok_bind] at hLine
          rcases skipSpaces_read hJInside hSizeFits hSkip with
            ⟨hK, hKInside, hSize', hSizeFits', hSecond⟩
          cases hValue : headerValue body size' k with
          | ok value =>
              rw [hValue] at hLine
              cases hLine
          | error stop =>
              rw [hValue] at hLine
              cases hLine
              rcases headerValue_ended hValue with
                ⟨rest, hThird, hFits, hRest⟩
              have hBefore :
                  slice body i j ++ slice body j k =
                    slice body i k :=
                slice_append body (Nat.le_of_lt hJ) hK
              refine
                ⟨slice body i k ++ rest, ⟨?_, ?_, ?_⟩, ?_⟩
              · apply List.ne_nil_of_length_pos
                rw [List.length_append, length_slice hKInside]
                omega
              · rw [← hBefore, List.mem_append, List.mem_append,
                  not_or, not_or]
                exact ⟨⟨hFirst, hSecond⟩, hThird⟩
              · rw [List.length_append, length_slice hKInside]
                omega
              · rw [← slice_append_drop body
                  (show i ≤ k by omega)]
                rcases hRest with hEq | hEq
                · left
                  rw [hEq]
                · right
                  rw [hEq, List.append_assoc]

end Form

end MailgunRelay

------------------------------------------------------------
-- Headers And Data
------------------------------------------------------------

namespace MailgunRelay

namespace Form

/- The headers of a part are lines, and an empty line. -/
theorem partHeaders_lines
    {body : Bytes}
    {left i start : Nat}
    {headers headers' : PartHeaders}
    (hHeaders :
      partHeaders body left headers i =
        .ok (headers', start)) :
    ∃ lines : List Bytes, lines.length ≤ left ∧
      (∀ line ∈ lines, LineFits line) ∧
      body.drop i =
        headerBytes lines ++ crlf ++ body.drop start := by
  induction left generalizing headers i with
  | zero =>
      unfold partHeaders at hHeaders
      rcases Lib.bind_eq_ok_iff.mp hHeaders with
        ⟨stop, hEnd, hRest⟩
      cases stop with
      | none => cases hRest
      | some stop =>
          cases hRest
          exact ⟨[], Nat.le_refl _, List.forall_mem_nil _, headersEnd_start hEnd⟩
  | succ left ih =>
      unfold partHeaders at hHeaders
      rcases Lib.bind_eq_ok_iff.mp hHeaders with
        ⟨stop, hEnd, hRest⟩
      cases stop with
      | some stop =>
          cases hRest
          exact ⟨[], Nat.zero_le _, List.forall_mem_nil _, headersEnd_start hEnd⟩
      | none =>
          rcases Lib.bind_eq_ok_iff.mp hRest with
            ⟨⟨name, value, next⟩, hLine, hNext⟩
          rcases headerLine_read hLine with
            ⟨line, hFits, hBytes⟩
          rcases ih hNext with ⟨lines, hCount, hAll, hLater⟩
          refine
            ⟨line :: lines, Nat.succ_le_succ hCount,
              List.forall_mem_cons.mpr ⟨hFits, hAll⟩, ?_⟩
          rw [hBytes, hLater]
          simp only [headerBytes, List.flatMap_cons,
            List.append_assoc]

/- The body ends in the headers of a part. -/
theorem partHeaders_ended
    {body : Bytes}
    {left i : Nat}
    {headers : PartHeaders}
    (hHeaders :
      partHeaders body left headers i = .error .ended) :
    ∃ (lines : List Bytes) (rest : Bytes),
      lines.length ≤ left ∧ (∀ line ∈ lines, LineFits line) ∧
      body.drop i = headerBytes lines ++ rest ∧
      ((rest = [] ∨ rest = [13]) ∨
        ∃ line, LineFits line ∧ lines.length + 1 ≤ left ∧
          (rest = line ∨ rest = line ++ [13])) := by
  induction left generalizing headers i with
  | zero =>
      unfold partHeaders at hHeaders
      cases hEnd : headersEnd body i with
      | error stop =>
          rw [hEnd] at hHeaders
          cases hHeaders
          exact
            ⟨[], _, Nat.le_refl _, List.forall_mem_nil _, rfl,
              .inl (headersEnd_ended hEnd)⟩
      | ok start =>
          rw [hEnd] at hHeaders
          cases start <;> cases hHeaders
  | succ left ih =>
      unfold partHeaders at hHeaders
      cases hEnd : headersEnd body i with
      | error stop =>
          rw [hEnd] at hHeaders
          cases hHeaders
          exact
            ⟨[], _, Nat.zero_le _, List.forall_mem_nil _, rfl,
              .inl (headersEnd_ended hEnd)⟩
      | ok start =>
          rw [hEnd, Lib.ok_bind] at hHeaders
          cases start with
          | some start => cases hHeaders
          | none =>
              cases hLine : headerLine body i with
              | error stop =>
                  simp only [hLine] at hHeaders
                  cases hHeaders
                  rcases
                    headerLine_ended (headersEnd_inside hEnd)
                      hLine with
                    ⟨line, hFits, hRest⟩
                  exact
                    ⟨[], _, Nat.zero_le _, List.forall_mem_nil _, rfl,
                      .inr ⟨line, hFits, Nat.le_add_left _ _,
                        hRest⟩⟩
              | ok header =>
                  rcases header with ⟨name, value, next⟩
                  simp only [hLine, Lib.ok_bind] at hHeaders
                  rcases headerLine_read hLine with
                    ⟨line, hFits, hBytes⟩
                  rcases ih hHeaders with
                    ⟨lines, rest, hCount, hAll, hLater, hRest⟩
                  refine
                    ⟨line :: lines, rest,
                      Nat.succ_le_succ hCount,
                      List.forall_mem_cons.mpr ⟨hFits, hAll⟩,
                      ?_, ?_⟩
                  · rw [hBytes, hLater]
                    simp only [headerBytes, List.flatMap_cons,
                      List.append_assoc]
                  · rcases hRest with hRest | ⟨last, hLast,
                      hMore, hRest⟩
                    · exact .inl hRest
                    · right
                      exact
                        ⟨last, hLast, Nat.succ_le_succ hMore,
                          hRest⟩

/- A found delimiter stands in the body. -/
theorem drop_of_findSeq
    {body boundary : Bytes}
    {start found : Nat}
    (hFound :
      findSeq body (delimiter boundary) start =
        some found) :
    body.drop found =
      delimiter boundary ++
        body.drop (found + (delimiter boundary).length) := by
  unfold findSeq at hFound
  rcases Option.map_eq_some_iff.mp hFound with ⟨k, hSearch, rfl⟩
  rcases
    (Lib.Text.search_eq_some_iff (by simp [delimiter]) k).mp
      hSearch with
    ⟨⟨rest, hRest⟩, -⟩
  rw [List.drop_drop] at hRest
  rw [← hRest, ← List.drop_drop, ← hRest, List.drop_left]

/- The data ends at a delimiter, and a line break or `--`. -/
theorem partEnd_read
    {body boundary : Bytes}
    {search stop : Nat}
    {last : Bool}
    (hEnd : partEnd body boundary search = .ok (stop, last)) :
    body.drop stop =
      delimiter boundary ++
        ((if last then [45, 45] else crlf) ++
          body.drop
            (stop + (delimiter boundary).length + 2)) := by
  fun_induction partEnd body boundary search with
  | case1 | case2 | case3 => cases hEnd
  | case4 search found hFound after a hNone hByte hData ih =>
      exact ih hEnd
  | case5 search found hFound after a b hSecond hFirst hNext =>
      cases hEnd
      rw [drop_of_findSeq hFound, drop_of_getElem? hFirst,
        drop_of_getElem? hSecond, hNext.1, hNext.2]
      rfl
  | case6 search found hFound after a b hSecond hFirst hNext
      hLast =>
      cases hEnd
      rw [drop_of_findSeq hFound, drop_of_getElem? hFirst,
        drop_of_getElem? hSecond, hLast.1, hLast.2]
      rfl
  | case7 search found hFound after a b _ _ _ _ _ ih
  | case8 search found hFound after a b _ _ _ _ _ ih =>
      exact ih hEnd

variable [Unicode]

/-
  A part that was read stands in the body, and the item is
  what it carries.
-/
theorem part_layout
    {body boundary : Bytes}
    {charset : Charset}
    {limits : Limits}
    {counts : Counts}
    {i : Nat}
    {p : Part}
    (hPart :
      part body boundary charset limits counts i = .ok p) :
    ∃ raw : RawPart,
      Carries limits charset raw p.item ∧
      body.drop i =
        raw.bytes ++
          (delimiter boundary ++
            ((if p.last then [45, 45] else crlf) ++
              body.drop p.next)) := by
  unfold part at hPart
  rcases Lib.bind_eq_ok_iff.mp hPart with
    ⟨⟨headers, start⟩, hHeaders, hPart⟩
  simp only at hPart
  split at hPart
  · cases hPart
  rcases Lib.bind_eq_ok_iff.mp hPart with ⟨counts', -, hPart⟩
  rcases Lib.bind_eq_ok_iff.mp hPart with
    ⟨⟨stop, last⟩, hEnd, hPart⟩
  rcases Lib.bind_eq_ok_iff.mp hPart with ⟨value, hValue, hPart⟩
  cases hPart
  rcases partHeaders_lines hHeaders with
    ⟨lines, hCount, hAll, hLines⟩
  have hStart := (partEnd_bounds hEnd).1
  refine
    ⟨{ headers := lines, data := slice body start stop },
      ⟨⟨hCount, hAll⟩, ?_⟩, ?_⟩
  · unfold partValue at hValue
    split at hValue
    · cases hValue
      rfl
    · split at hValue
      · cases hValue
      rename_i hFits
      cases hValue
      refine ⟨rfl, fun hSome => ?_⟩
      rw [Bool.and_eq_true, not_and] at hFits
      by_contra hLong
      refine
        hFits ?_
          ((exceeds_iff _ _).mpr (Int.lt_of_not_ge hLong))
      simpa using hSome
  · rw [hLines, ← slice_append_drop body hStart,
      partEnd_read hEnd]
    simp only [RawPart.bytes, List.append_assoc]

/- A part that the body ends in. -/
theorem part_ended
    {body boundary : Bytes}
    {charset : Charset}
    {limits : Limits}
    {counts : Counts}
    {i : Nat}
    (hPart :
      part body boundary charset limits counts i =
        .error .ended) :
    Unfinished (body.drop i) := by
  unfold part at hPart
  cases hHeaders :
      partHeaders body maxHeaderCount
        { disposition := none, contentType := none } i with
  | error stop =>
      simp only [hHeaders] at hPart
      cases hPart
      rcases partHeaders_ended hHeaders with
        ⟨lines, rest, hCount, hAll, hBytes, hRest⟩
      rw [hBytes]
      rcases hRest with hRest | ⟨line, hFits, hMore, hRest⟩
      · exact .headers ⟨hCount, hAll⟩ hRest
      · refine @Unfinished.line lines line rest ⟨?_, ?_⟩ hRest
        · simpa using hMore
        · intro other hMem
          rcases List.mem_append.mp hMem with hMem | hMem
          · exact hAll other hMem
          · rw [List.mem_singleton.mp hMem]
            exact hFits
  | ok headers =>
      rcases partHeaders_lines hHeaders with
        ⟨lines, hCount, hAll, hLines⟩
      rw [hLines]
      exact
        @Unfinished.data ⟨lines, body.drop headers.2⟩
          ⟨hCount, hAll⟩

end Form

end MailgunRelay

------------------------------------------------------------
-- Counts
------------------------------------------------------------

namespace MailgunRelay

namespace Form

def isUpload (item : Item) : Bool :=
  match item.2 with
  | .file _ => true
  | .text _ => false

def isText (item : Item) : Bool :=
  !isUpload item

/- No more files and texts than the limits, if there are any. -/
structure CountsFit
    (limits : Limits)
    (items : List Item) : Prop where
  files :
    items.countP isUpload ≠ 0 →
      (items.countP isUpload : Int) ≤ limits.maxFiles.val
  fields :
    items.countP isText ≠ 0 →
      (items.countP isText : Int) ≤ limits.maxFields.val

theorem CountsFit.nil
    (limits : Limits) :
    CountsFit limits [] :=
  ⟨fun h => absurd rfl h, fun h => absurd rfl h⟩

/- The items so far, counted. -/
structure Counted
    (limits : Limits)
    (items : List Item)
    (counts : Counts) : Prop where
  files : counts.files = items.countP isUpload
  fields : counts.fields = items.countP isText
  fits : CountsFit limits items

/- Counting one more item keeps the counts. -/
theorem Counted.add
    {limits : Limits}
    {items : List Item}
    {counts counts' : Counts}
    {item : Item}
    (hCounted : Counted limits items counts)
    (hAdd :
      counts.add limits (isUpload item) = .ok counts') :
    Counted limits (items ++ [item]) counts' := by
  unfold Counts.add at hAdd
  split at hAdd
  · rename_i hUpload
    have hNot : isText item = false := by
      unfold isText
      rw [hUpload]
      rfl
    simp only at hAdd
    split at hAdd
    · cases hAdd
    rename_i hFits
    cases hAdd
    rw [exceeds_iff] at hFits
    refine ⟨?_, ?_, ?_, ?_⟩
    · simp [hCounted.files, hUpload]
    · simp [hCounted.fields, hNot]
    · intro _
      simp only [List.countP_append, List.countP_singleton,
        hUpload, if_true, ← hCounted.files]
      omega
    · simpa [hNot] using hCounted.fits.fields
  · rename_i hOther
    rw [Bool.not_eq_true] at hOther
    have hText : isText item = true := by
      unfold isText
      rw [hOther]
      rfl
    simp only at hAdd
    split at hAdd
    · cases hAdd
    rename_i hFits
    cases hAdd
    rw [exceeds_iff] at hFits
    refine ⟨?_, ?_, ?_, ?_⟩
    · simp [hCounted.files, hOther]
    · simp [hCounted.fields, hText]
    · simpa [hOther] using hCounted.fits.files
    · intro _
      simp only [List.countP_append, List.countP_singleton,
        hText, if_true, ← hCounted.fields]
      omega

variable [Unicode]

/- A part is counted as what it is. -/
theorem part_counted
    {body boundary : Bytes}
    {charset : Charset}
    {limits : Limits}
    {counts : Counts}
    {i : Nat}
    {p : Part}
    (hPart :
      part body boundary charset limits counts i = .ok p) :
    counts.add limits (isUpload p.item) = .ok p.counts := by
  unfold part at hPart
  rcases Lib.bind_eq_ok_iff.mp hPart with
    ⟨⟨headers, start⟩, -, hPart⟩
  simp only at hPart
  split at hPart
  · cases hPart
  rcases Lib.bind_eq_ok_iff.mp hPart with ⟨counts', hAdd, hPart⟩
  rcases Lib.bind_eq_ok_iff.mp hPart with
    ⟨⟨stop, last⟩, -, hPart⟩
  rcases Lib.bind_eq_ok_iff.mp hPart with ⟨value, hValue, hPart⟩
  cases hPart
  unfold partValue at hValue
  split at hValue
  · rename_i hName
    cases hValue
    rw [hName] at hAdd
    exact hAdd
  · rename_i hName
    split at hValue
    · cases hValue
    cases hValue
    rw [hName] at hAdd
    exact hAdd

/-
  The parts of an accepted body: they stand in the body one
  after the other, and each new item is carried by one.
-/
theorem parts_layout
    {body boundary : Bytes}
    {charset : Charset}
    {limits : Limits}
    {items items' : List Item}
    {counts : Counts}
    {i : Nat}
    (hCounted : Counted limits items counts)
    (hParts :
      parts body boundary charset limits items counts i =
        .ok items') :
    CountsFit limits items' ∧
      ∃ (raws : List RawPart) (read : List Item),
        items' = items ++ read ∧
        List.Forall₂ (Carries limits charset) raws read ∧
        Layout boundary raws (body.drop i) := by
  fun_induction parts body boundary charset limits items
    counts i with
  | case1 items counts i hEnded =>
      cases hParts
      exact
        ⟨hCounted.fits, [], [], (List.append_nil _).symm, .nil,
          .unfinished (part_ended hEnded)⟩
  | case2 => cases hParts
  | case3 items counts i p hPart hLast =>
      cases hParts
      have hAll := hCounted.add (part_counted hPart)
      rcases part_layout hPart with ⟨raw, hCarries, hBytes⟩
      rw [if_pos hLast] at hBytes
      refine
        ⟨hAll.fits, [raw], [p.item], rfl,
          .cons hCarries .nil, ?_⟩
      rw [hBytes, ← List.append_assoc (delimiter boundary)]
      exact .last _
  | case4 items counts i p hPart hLast ih =>
      have hAll := hCounted.add (part_counted hPart)
      rcases part_layout hPart with ⟨raw, hCarries, hBytes⟩
      rw [if_neg hLast] at hBytes
      rcases ih hAll hParts with
        ⟨hFits, raws, read, hItems, hRead, hLayout⟩
      refine
        ⟨hFits, raw :: raws, p.item :: read, ?_,
          .cons hCarries hRead, ?_⟩
      · rw [hItems, List.append_assoc]
        rfl
      · rw [hBytes, ← List.append_assoc (delimiter boundary)]
        exact .more hLayout

end Form

end MailgunRelay

------------------------------------------------------------
-- Pairs
------------------------------------------------------------

namespace MailgunRelay

namespace Form

/- The names and values of an urlencoded body, as sent. -/
def pairs (body : Bytes) : List (Bytes × Bytes) :=
  ((body.splitOn 38).filter fun field => !field.isEmpty).map
    splitField

def pairSize (pair : Bytes × Bytes) : Nat :=
  pair.1.length + pair.2.length

/- The item of a pair, which is not too long unless empty. -/
def CarriesPair
    (limits : Limits)
    (pair : Bytes × Bytes)
    (item : Item) : Prop :=
  item =
      (unquotePlus (latin1 pair.1),
        .text (unquotePlus (latin1 pair.2))) ∧
    (pair ≠ ([], []) →
      (pairSize pair : Int) ≤ limits.maxPartSize.val)

theorem pairSize_splitField
    (field : Bytes) :
    pairSize (splitField field) ≤ field.length := by
  unfold splitField
  cases hSplit : Lib.Text.splitOnce 61 field with
  | none => exact Nat.le_refl _
  | some pair =>
      rcases pair with ⟨name, value⟩
      have hField :=
        ((Lib.Text.splitOnce_eq_some_iff _ _ _ _).mp hSplit).1
      simp only [Option.getD_some, pairSize, hField,
        List.length_append, List.length_cons]
      omega

/- The parts of a split list are no longer than the list. -/
theorem sum_length_splitOn
    (sep : UInt8)
    (body : Bytes) :
    ((body.splitOn sep).map List.length).sum ≤ body.length := by
  have hJoin (parts : List Bytes) :
      (parts.map List.length).sum ≤
        ([sep].intercalate parts).length := by
    induction parts with
    | nil => exact Nat.zero_le _
    | cons part parts ih =>
        cases parts with
        | nil => simp
        | cons next parts =>
            rw [List.intercalate_cons_cons, List.map_cons,
              List.sum_cons, List.length_append,
              List.length_append]
            omega
  calc
    ((body.splitOn sep).map List.length).sum
      ≤ ([sep].intercalate (body.splitOn sep)).length :=
        hJoin _
    _ = body.length := by rw [List.intercalate_splitOn]

/- The pairs of a body are no longer than the body. -/
theorem sum_pairs
    (body : Bytes) :
    ((pairs body).map pairSize).sum ≤ body.length := by
  have hFields :
      ((pairs body).map pairSize).sum ≤
        ((body.splitOn 38).map List.length).sum := by
    unfold pairs
    induction body.splitOn 38 with
    | nil => exact Nat.le_refl _
    | cons field fields ih =>
        have hField := pairSize_splitField field
        rw [List.filter_cons]
        split
        · simp only [List.map_cons, List.sum_cons]
          omega
        · simp only [List.map_cons, List.sum_cons]
          omega
  exact hFields.trans (sum_length_splitOn 38 body)

/- Every field is an item, and they are counted. -/
theorem urlencodedFields_pairs
    {limits : Limits}
    {items items' : List Item}
    {fields : List Bytes}
    (hTexts : ∀ item ∈ items, isText item = true)
    (hFits : CountsFit limits items)
    (hFields :
      urlencodedFields limits items fields = .ok items') :
    CountsFit limits items' ∧
      (∀ item ∈ items', isText item = true) ∧
      ∃ read,
        items' = items ++ read ∧
        List.Forall₂ (CarriesPair limits)
          (fields.map splitField) read := by
  induction fields generalizing items with
  | nil =>
      cases hFields
      exact
        ⟨hFits, hTexts, [], (List.append_nil _).symm, .nil⟩
  | cons field fields ih =>
      unfold urlencodedFields at hFields
      simp only at hFields
      split at hFields
      · cases hFields
      rename_i hShort
      split at hFields
      · cases hFields
      rename_i hCount
      rw [exceeds_iff] at hCount
      generalize hPair : splitField field = pair
        at hShort hFields
      rcases pair with ⟨name, value⟩
      generalize hItem :
        ((unquotePlus (latin1 name),
          .text (unquotePlus (latin1 value))) : Item) = item
          at hFields
      have hText : isText item = true := by
        rw [← hItem]
        rfl
      have hAll :
          ∀ item' ∈ items ++ [item], isText item' = true := by
        intro item' hMem
        rcases List.mem_append.mp hMem with hMem | hMem
        · exact hTexts item' hMem
        · rw [List.mem_singleton.mp hMem]
          exact hText
      have hFits' : CountsFit limits (items ++ [item]) := by
        constructor
        · intro hSome
          exfalso
          apply hSome
          rw [List.countP_eq_zero]
          intro item' hMem
          simpa [isText] using hAll item' hMem
        · intro _
          rw [List.countP_eq_length.mpr hAll, List.length_append,
            List.length_singleton]
          omega
      rcases ih hAll hFits' hFields with
        ⟨hFitsAll, hTextsAll, read, hItems, hRead⟩
      refine
        ⟨hFitsAll, hTextsAll, item :: read, ?_, ?_⟩
      · rw [hItems, List.append_assoc]
        rfl
      · rw [List.map_cons, hPair]
        refine .cons ⟨hItem.symm, fun hSome => ?_⟩ hRead
        by_contra hLong
        apply hShort
        rw [Bool.or_eq_true, Bool.and_eq_true, Bool.and_eq_true,
          exceeds_iff, exceeds_iff]
        unfold pairSize at hLong
        cases value with
        | nil =>
            left
            constructor
            · simpa using hSome
            · exact Int.lt_of_not_ge hLong
        | cons b value =>
            right
            exact ⟨rfl, by omega⟩

end Form

end MailgunRelay

------------------------------------------------------------
-- Limits Of A Form
------------------------------------------------------------

namespace MailgunRelay

namespace Form

variable [Unicode]

/-
  The raw data of an accepted form, within the limits: the
  pairs of an urlencoded body, or the parts of a multipart
  body.
-/
def Within
    (limits : Limits)
    (body : Bytes)
    (items : List Item) : Encoding → Prop
| .urlencoded =>
    List.Forall₂ (CarriesPair limits) (pairs body) items ∧
      ((pairs body).map pairSize).sum ≤ body.length
| .multipart boundary charset =>
    ∃ raws : List RawPart,
      List.Forall₂ (Carries limits charset) raws items ∧
      (raws = [] ∨
        ∃ start rest,
          body = start ++ rest ∧ Layout boundary raws rest) ∧
      (raws.map fun raw => raw.data.length).sum ≤ body.length
| .none => items = []

/-
  On every body the parser returns without a fault, and what
  it accepts is within the limits.
-/
theorem parse_limits
    (encoding : Encoding)
    (body : Bytes)
    (limits : Limits) :
    scan encoding body limits =
        Lib.Checked.lift (parse encoding body limits) ∧
      ∀ items, parse encoding body limits = .ok items →
        CountsFit limits items ∧
          Within limits body items encoding := by
  refine ⟨scan_eq encoding body limits, fun items hParse => ?_⟩
  cases encoding with
  | none =>
      cases hParse
      exact ⟨CountsFit.nil limits, rfl⟩
  | urlencoded =>
      rcases
        @urlencodedFields_pairs limits [] items _ nofun
          (CountsFit.nil limits) hParse with
        ⟨hFits, -, read, hItems, hRead⟩
      rw [List.nil_append] at hItems
      subst hItems
      exact ⟨hFits, hRead, sum_pairs body⟩
  | multipart boundary charset =>
      unfold parse multipart at hParse
      simp only at hParse
      split at hParse
      · cases hParse
        exact
          ⟨CountsFit.nil limits, [], .nil, .inl rfl,
            Nat.zero_le _⟩
      · cases hParse
      · rename_i i hStart
        rcases
          parts_layout ⟨rfl, rfl, CountsFit.nil limits⟩ hParse
          with ⟨hFits, raws, read, hItems, hRead, hLayout⟩
        rw [List.nil_append] at hItems
        subst hItems
        refine
          ⟨hFits, raws, hRead,
            .inr ⟨body.take i, body.drop i,
              (List.take_append_drop i body).symm, hLayout⟩,
            ?_⟩
        have hSum := hLayout.sum_le
        rw [List.length_drop] at hSum
        omega

omit [Unicode] in
/-
  Where nothing is allowed, a field without a name and a
  value still is a pair.
-/
theorem parse_emptyPair :
    ¬ ∀ [Unicode] (limits : Limits) (body : Bytes)
        (items : List Item),
      parse .urlencoded body limits = .ok items →
        ∀ pair ∈ pairs body,
          (pairSize pair : Int) ≤ limits.maxPartSize.val := by
  intro hAll
  have hPair :=
    @hAll Unicode.ascii
      { maxFiles := ⟨0, by decide⟩
        maxFields := ⟨1, by decide⟩
        maxPartSize := ⟨-1, by decide⟩ }
      [61] [([], .text [])] (by decide +kernel) ([], [])
      (by decide +kernel)
  revert hPair
  decide

end Form

end MailgunRelay
