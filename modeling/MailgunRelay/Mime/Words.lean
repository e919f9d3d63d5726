import MailgunRelay.Lib.Sorted
import MailgunRelay.Mime.Head

/-
  Encoded words: the scan finds each one that occurs, and
  the line-break filter is complete.

  Key definitions include:
    * `MailgunRelay.Mime.IsWord`
    * `MailgunRelay.Mime.QDecodes`
    * `MailgunRelay.Mime.BreaksNoLine`

  Key theorems include:
    * `MailgunRelay.Mime.mem_encodedWords_iff`
    * `MailgunRelay.Mime.encodedWords_ordered`
    * `MailgunRelay.Mime.lineBreak_complete`
-/

------------------------------------------------------------
-- Slices
------------------------------------------------------------

namespace MailgunRelay

namespace Mime

/- A text from an index on, cut at a later one. -/
theorem drop_between
    (value : Str)
    {i j : Nat}
    (hLe : i ≤ j) :
    value.drop i = between value i j ++ value.drop j := by
  unfold between
  conv_lhs =>
    rw [← List.take_append_drop (j - i) (value.drop i)]
  rw [List.drop_drop, Nat.add_sub_of_le hLe]

/- A text from a known character on. -/
theorem drop_eq_cons
    {value : Str}
    {i : Nat}
    {c : Char}
    (hHere : value[i]? = some c) :
    value.drop i = c :: value.drop (i + 1) := by
  rcases List.getElem?_eq_some_iff.mp hHere with ⟨hLength, rfl⟩
  exact List.drop_eq_getElem_cons hLength

/- The character behind a known beginning. -/
theorem getElem?_of_split
    {value front after : Str}
    {c : Char}
    {i : Nat}
    (hSplit : value = front ++ c :: after)
    (hLength : front.length = i) :
    value[i]? = some c := by
  subst hSplit hLength
  simp

/- The slice behind it. -/
theorem between_of_split
    {value front text after : Str}
    {c : Char}
    {i j : Nat}
    (hSplit : value = front ++ c :: (text ++ after))
    (hLength : front.length = i)
    (hEnd : j = i + 1 + text.length) :
    between value (i + 1) j = text := by
  have hBehind :
      value = (front ++ [c]) ++ (text ++ after) := by
    simp [hSplit]
  have hDrop : value.drop (i + 1) = text ++ after := by
    rw [hBehind]
    exact List.drop_left' (by simp [hLength])
  unfold between
  rw [hDrop, hEnd, Nat.add_sub_cancel_left]
  exact List.take_left

/- A character of a slice stands between its ends. -/
theorem mem_between
    {value : Str}
    {i j : Nat}
    {c : Char}
    (hMem : c ∈ between value i j) :
    ∃ k, i ≤ k ∧ k < j ∧ value[k]? = some c := by
  rcases List.mem_iff_getElem.mp hMem with ⟨k, hK, hGet⟩
  unfold between at hK hGet
  rw [List.length_take, List.length_drop] at hK
  refine ⟨i + k, by omega, by omega, ?_⟩
  rw [List.getElem_take, List.getElem_drop] at hGet
  rw [List.getElem?_eq_some_iff]
  exact ⟨by omega, hGet⟩

/- A character between two indices is in the slice. -/
theorem mem_between_of
    {value : Str}
    {i j k : Nat}
    {c : Char}
    (hHere : value[k]? = some c)
    (hLow : i ≤ k)
    (hHigh : k < j) :
    c ∈ between value i j := by
  rcases List.getElem?_eq_some_iff.mp hHere with ⟨hLength, rfl⟩
  unfold between
  rw [List.mem_iff_getElem]
  refine ⟨k - i, ?_, ?_⟩
  · rw [List.length_take, List.length_drop]
    omega
  · simp [List.getElem_take, List.getElem_drop, hLow]

end Mime

end MailgunRelay

------------------------------------------------------------
-- The Scan
------------------------------------------------------------

namespace MailgunRelay

namespace Mime

/- The places of the question marks. -/
def marks (value : Str) : List Nat :=
  (List.range value.length).filter fun i =>
    value[i]? == some '?'

theorem mem_marks
    {value : Str}
    {i : Nat} :
    i ∈ marks value ↔ value[i]? = some '?' := by
  simp only [marks, List.mem_filter, List.mem_range,
    beq_iff_eq, and_iff_right_iff_imp]
  intro hHere
  exact (List.getElem?_eq_some_iff.mp hHere).1

theorem sorted_marks
    (value : Str) :
    Lib.Sorted (marks value) :=
  List.Pairwise.filter _ List.pairwise_lt_range

/- What the scan checks at four marks in a row. -/
structure Candidate
    (value : Str)
    (q0 q1 q2 q3 : Nat)
    (word : EncodedWord) : Prop where
  pos : q0 ≠ 0
  opening : value[q0 - 1]? = some '='
  closing : value[q3 + 1]? = some '='
  encoding :
    transferEncoding (between value (q1 + 1) q2) =
      some word.base64
  start : word.start = q0 - 1
  stop : word.stop = q3 + 2
  charset : word.charset = between value (q0 + 1) q1
  text : word.text = between value (q2 + 1) q3

/- A candidate is at four of the places in a row. -/
def Found
    (value : Str)
    (word : EncodedWord)
    (places : List Nat) : Prop :=
  ∃ front q0 q1 q2 q3 rest,
    places = front ++ q0 :: q1 :: q2 :: q3 :: rest ∧
      Candidate value q0 q1 q2 q3 word

/- It is at the first four places, or later. -/
theorem found_cons
    {value : Str}
    {word : EncodedWord}
    {q0 : Nat}
    {places : List Nat} :
    Found value word (q0 :: places) ↔
      (∃ q1 q2 q3 rest, places = q1 :: q2 :: q3 :: rest ∧
        Candidate value q0 q1 q2 q3 word) ∨
      Found value word places := by
  constructor
  · rintro ⟨front, q0', q1, q2, q3, rest, hSplit, hWord⟩
    cases front with
    | nil =>
        cases hSplit
        exact .inl ⟨q1, q2, q3, rest, rfl, hWord⟩
    | cons q front =>
        cases hSplit
        exact
          .inr ⟨front, q0', q1, q2, q3, rest, rfl, hWord⟩
  · rintro (⟨q1, q2, q3, rest, rfl, hWord⟩ |
      ⟨front, q0', q1, q2, q3, rest, rfl, hWord⟩)
    · exact ⟨[], q0, q1, q2, q3, rest, rfl, hWord⟩
    · exact
        ⟨q0 :: front, q0', q1, q2, q3, rest, rfl, hWord⟩

/- Where the first places have none, it is later. -/
theorem found_skip
    {value : Str}
    {word : EncodedWord}
    {q0 q1 q2 q3 : Nat}
    {rest : List Nat}
    (hNone : ¬ Candidate value q0 q1 q2 q3 word) :
    Found value word (q0 :: q1 :: q2 :: q3 :: rest) ↔
      Found value word (q1 :: q2 :: q3 :: rest) := by
  rw [found_cons]
  refine or_iff_right ?_
  rintro ⟨q1', q2', q3', rest', hEq, hWord⟩
  cases hEq
  exact hNone hWord

/- The scan finds the candidates among its marks. -/
theorem mem_encodedWordsAt
    {value : Str}
    {places : List Nat}
    {word : EncodedWord} :
    word ∈ encodedWordsAt value places ↔
      Found value word places := by
  fun_induction encodedWordsAt value places with
  | case1 q0 q1 q2 q3 rest later hSkip ih =>
      refine ih.trans (found_skip fun hWord => ?_).symm
      rcases hSkip with hZero | hOpening
      · exact hWord.pos hZero
      · exact hOpening hWord.opening
  | case2 q0 q1 q2 q3 rest later hOpen hSkip ih =>
      refine ih.trans (found_skip fun hWord => ?_).symm
      exact hSkip hWord.closing
  | case3 q0 q1 q2 q3 rest later hOpen hClose hSkip ih =>
      refine ih.trans (found_skip fun hWord => ?_).symm
      have hEncoding := hWord.encoding
      rw [hSkip] at hEncoding
      cases hEncoding
  | case4 q0 q1 q2 q3 rest later hOpen hClose base64 hFound
      ih =>
      rw [not_or, not_not] at hOpen
      rw [not_not] at hClose
      rw [List.mem_cons, found_cons]
      refine or_congr ⟨?_, ?_⟩ ih
      · rintro rfl
        exact
          ⟨q1, q2, q3, rest, rfl,
            { pos := hOpen.1
              opening := hOpen.2
              closing := hClose
              encoding := hFound
              start := rfl
              stop := rfl
              charset := rfl
              text := rfl }⟩
      · rintro ⟨q1', q2', q3', rest', hEq, hWord⟩
        cases hEq
        rcases word with ⟨start, stop, charset, base64', text⟩
        have hEncoding := hWord.encoding
        rw [hFound, Option.some.injEq] at hEncoding
        simp only [EncodedWord.mk.injEq]
        exact
          ⟨hWord.start, hWord.stop, hWord.charset,
            hEncoding.symm, hWord.text⟩
  | case5 places hShort =>
      refine iff_of_false List.not_mem_nil ?_
      rintro ⟨front, q0, q1, q2, q3, rest, hSplit, -⟩
      cases front with
      | nil => exact hShort q0 q1 q2 q3 rest hSplit
      | cons q front =>
          cases front with
          | nil => exact hShort _ _ _ _ _ hSplit
          | cons q' front =>
              cases front with
              | nil => exact hShort _ _ _ _ _ hSplit
              | cons q'' front =>
                  cases front with
                  | nil => exact hShort _ _ _ _ _ hSplit
                  | cons => exact hShort _ _ _ _ _ hSplit

/- The words come in the order of their starts. -/
theorem encodedWordsAt_ordered
    {value : Str}
    {places : List Nat}
    (hSorted : Lib.Sorted places) :
    (encodedWordsAt value places).Pairwise
      fun a b => a.start < b.start := by
  fun_induction encodedWordsAt value places with
  | case1 q0 q1 q2 q3 rest later hSkip ih =>
      exact ih (List.pairwise_cons.mp hSorted).2
  | case2 q0 q1 q2 q3 rest later hOpen hSkip ih =>
      exact ih (List.pairwise_cons.mp hSorted).2
  | case3 q0 q1 q2 q3 rest later hOpen hClose hSkip ih =>
      exact ih (List.pairwise_cons.mp hSorted).2
  | case4 q0 q1 q2 q3 rest later hOpen hClose base64 hFound
      ih =>
      rcases List.pairwise_cons.mp hSorted with ⟨hFirst, hRest⟩
      refine .cons ?_ (ih hRest)
      intro word hWord
      rcases mem_encodedWordsAt.mp hWord with
        ⟨front, q, _, _, _, _, hSplit, hCandidate⟩
      have hLess := hFirst q (by rw [hSplit]; simp)
      have hPos : q0 ≠ 0 := fun hZero => hOpen (.inl hZero)
      show q0 - 1 < word.start
      rw [hCandidate.start]
      omega
  | case5 => exact .nil

end Mime

end MailgunRelay

------------------------------------------------------------
-- The Words Of A Value
------------------------------------------------------------

namespace MailgunRelay

namespace Mime

/- A word as it is written, with its transfer encoding. -/
def EncodedWord.written
    (word : EncodedWord)
    (cte : Char) : Str :=
  '=' :: '?' ::
    (word.charset ++
      '?' :: cte :: '?' :: (word.text ++ ['?', '=']))

/-
  The value holds the word at its place: as
  `=?charset?cte?text?=`, with no question mark in the
  charset or the text.
-/
structure IsWord
    (value : Str)
    (word : EncodedWord) : Prop where
  stands : ∃ front cte after,
    value = front ++ word.written cte ++ after ∧
      word.start = front.length ∧
      word.stop =
        front.length + (word.written cte).length ∧
      transferEncoding [cte] = some word.base64
  charset : '?' ∉ word.charset
  text : '?' ∉ word.text

/- A transfer encoding is one character. -/
theorem transferEncoding_singleton
    {cte : Str}
    {base64 : Bool}
    (hSome : transferEncoding cte = some base64) :
    ∃ c, cte = [c] := by
  unfold transferEncoding at hSome
  split at hSome
  · rename_i hBase64
    rcases hBase64 with rfl | rfl <;> exact ⟨_, rfl⟩
  · split at hSome
    · rename_i hQ
      rcases hQ with rfl | rfl <;> exact ⟨_, rfl⟩
    · cases hSome

/- No question mark stands between two marks in a row. -/
theorem not_mem_between
    {value : Str}
    {front rest : List Nat}
    {q q' : Nat}
    (hSplit : marks value = front ++ q :: q' :: rest) :
    '?' ∉ between value (q + 1) q' := by
  intro hMem
  rcases mem_between hMem with ⟨k, hLow, hHigh, hHere⟩
  exact
    (sorted_marks value).not_between hSplit
      (mem_marks.mpr hHere) ⟨hLow, hHigh⟩

/- A candidate at four marks in a row is a word. -/
theorem isWord_of_candidate
    {value : Str}
    {word : EncodedWord}
    {front rest : List Nat}
    {q0 q1 q2 q3 : Nat}
    (hSplit :
      marks value = front ++ q0 :: q1 :: q2 :: q3 :: rest)
    (h : Candidate value q0 q1 q2 q3 word) :
    IsWord value word := by
  have hSorted := sorted_marks value
  have hMark (q : Nat) (hMem : q ∈ marks value) :
      value.drop q = '?' :: value.drop (q + 1) :=
    drop_eq_cons (mem_marks.mp hMem)
  have hSplit1 :
      marks value = (front ++ [q0]) ++ q1 :: q2 :: q3 :: rest := by
    simp [hSplit]
  have hSplit2 :
      marks value = (front ++ [q0, q1]) ++ q2 :: q3 :: rest := by
    simp [hSplit]
  have hOrder : q0 < q1 ∧ q1 < q2 ∧ q2 < q3 := by
    rw [hSplit] at hSorted
    have hTail := (List.pairwise_append.mp hSorted).2.1
    simp only [List.pairwise_cons] at hTail
    exact
      ⟨hTail.1 q1 (by simp), hTail.2.1 q2 (by simp),
        hTail.2.2.1 q3 (by simp)⟩
  rcases hOrder with ⟨h01, h12, h23⟩
  have hPos := h.pos
  rcases transferEncoding_singleton h.encoding with ⟨cte, hCte⟩
  -- The value piece by piece, from the last one on.
  have hEnd :
      value.drop q3 = '?' :: '=' :: value.drop (q3 + 2) := by
    rw [hMark q3 (by simp [hSplit]), drop_eq_cons h.closing]
  have hText :
      value.drop q2 =
        '?' :: (word.text ++ value.drop q3) := by
    rw [hMark q2 (by simp [hSplit]), h.text,
      ← drop_between value h23]
  have hEncoding :
      value.drop q1 = '?' :: cte :: value.drop q2 := by
    rw [hMark q1 (by simp [hSplit]),
      drop_between value h12, hCte]
    rfl
  have hCharset :
      value.drop q0 =
        '?' :: (word.charset ++ value.drop q1) := by
    rw [hMark q0 (by simp [hSplit]), h.charset,
      ← drop_between value h01]
  have hStart :
      value.drop (q0 - 1) = '=' :: value.drop q0 := by
    rw [drop_eq_cons h.opening, Nat.sub_add_cancel
      (Nat.one_le_iff_ne_zero.mpr hPos)]
  have hWhole :
      value =
        value.take (q0 - 1) ++ word.written cte ++
          value.drop (q3 + 2) := by
    conv_lhs =>
      rw [← List.take_append_drop (q0 - 1) value, hStart,
        hCharset, hEncoding, hText, hEnd]
    simp [EncodedWord.written]
  have hBefore : (value.take (q0 - 1)).length = q0 - 1 := by
    have hInside :=
      (List.getElem?_eq_some_iff.mp h.opening).1
    rw [List.length_take]
    omega
  have hAfter :
      (value.drop (q3 + 2)).length + (q3 + 2) =
        value.length := by
    have hInside :=
      (List.getElem?_eq_some_iff.mp h.closing).1
    rw [List.length_drop]
    omega
  have hLengths := congrArg List.length hWhole
  rw [List.length_append, List.length_append,
    hBefore] at hLengths
  exact
    { stands :=
        ⟨_, cte, _, hWhole, by rw [h.start, hBefore],
          by rw [h.stop, hBefore]; omega,
          by rw [← hCte]; exact h.encoding⟩
      charset := by
        rw [h.charset]
        exact not_mem_between hSplit
      text := by
        rw [h.text]
        exact not_mem_between hSplit2 }

/- No mark stands in a slice without a question mark. -/
theorem not_between_of
    {value : Str}
    {q q' : Nat}
    (hNone : '?' ∉ between value (q + 1) q')
    (x : Nat)
    (hMem : x ∈ marks value) :
    ¬ (q < x ∧ x < q') := by
  rintro ⟨hLow, hHigh⟩
  exact
    hNone (mem_between_of (mem_marks.mp hMem) hLow hHigh)

/- A transfer encoding is no question mark. -/
theorem transferEncoding_ne_mark
    {cte : Char}
    {base64 : Bool}
    (hSome : transferEncoding [cte] = some base64) :
    cte ≠ '?' := by
  rintro rfl
  cases hSome

/- A word of the value is found at its marks. -/
theorem found_of_isWord
    {value : Str}
    {word : EncodedWord}
    (h : IsWord value word) :
    Found value word (marks value) := by
  rcases h.stands with
    ⟨front, cte, after, hValue, hStart, hStop, hEncoding⟩
  rcases word with ⟨start, stop, charset, base64, text⟩
  dsimp only at hStart hStop hEncoding
  have hCharset : '?' ∉ charset := h.charset
  have hText : '?' ∉ text := h.text
  have hCte := transferEncoding_ne_mark hEncoding
  simp only [EncodedWord.written] at hValue hStop
  have hOpening :
      value =
        front ++ '=' :: ('?' ::
          (charset ++ '?' :: cte :: '?' ::
            (text ++ '?' :: '=' :: after))) := by
    simp [hValue]
  -- The four marks, and the pieces between them.
  have hSplit0 :
      value =
        (front ++ ['=']) ++ '?' ::
          (charset ++ '?' :: cte :: '?' ::
            (text ++ '?' :: '=' :: after)) := by
    simp [hValue]
  have hSplit1 :
      value =
        (front ++ ['=', '?'] ++ charset) ++ '?' ::
          ([cte] ++ '?' :: (text ++ '?' :: '=' :: after)) := by
    simp [hValue]
  have hSplit2 :
      value =
        (front ++ ['=', '?'] ++ charset ++ ['?', cte]) ++
          '?' :: (text ++ '?' :: '=' :: after) := by
    simp [hValue]
  have hSplit3 :
      value =
        (front ++ ['=', '?'] ++ charset ++ ['?', cte, '?'] ++
          text) ++ '?' :: '=' :: after := by
    simp [hValue]
  have hSplit4 :
      value =
        (front ++ ['=', '?'] ++ charset ++ ['?', cte, '?'] ++
          text ++ ['?']) ++ '=' :: after := by
    simp [hValue]
  let q0 := front.length + 1
  let q1 := q0 + 1 + charset.length
  let q2 := q1 + 2
  let q3 := q2 + 1 + text.length
  have hLength0 : (front ++ ['=']).length = q0 := by
    simp [q0]
  have hLength1 :
      (front ++ ['=', '?'] ++ charset).length = q1 := by
    simp [q0, q1]
    omega
  have hLength2 :
      (front ++ ['=', '?'] ++ charset ++
        ['?', cte]).length = q2 := by
    simp [q0, q1, q2]
    omega
  have hLength3 :
      (front ++ ['=', '?'] ++ charset ++ ['?', cte, '?'] ++
        text).length = q3 := by
    simp [q0, q1, q2, q3]
    omega
  have hMark0 := getElem?_of_split hSplit0 hLength0
  have hMark1 := getElem?_of_split hSplit1 hLength1
  have hMark2 := getElem?_of_split hSplit2 hLength2
  have hMark3 := getElem?_of_split hSplit3 hLength3
  have hPiece0 : between value (q0 + 1) q1 = charset :=
    between_of_split hSplit0 hLength0 rfl
  have hPiece1 : between value (q1 + 1) q2 = [cte] :=
    between_of_split hSplit1 hLength1 rfl
  have hPiece2 : between value (q2 + 1) q3 = text :=
    between_of_split hSplit2 hLength2 rfl
  have hSorted := sorted_marks value
  rcases List.append_of_mem (mem_marks.mpr hMark0) with
    ⟨before, rest0, hRest0⟩
  rcases
    hSorted.next hRest0 (mem_marks.mpr hMark1) (by omega)
      (not_between_of (by rwa [hPiece0])) with
    ⟨rest1, rfl⟩
  have hRest1 :
      marks value = (before ++ [q0]) ++ q1 :: rest1 := by
    simp [hRest0]
  rcases
    hSorted.next hRest1 (mem_marks.mpr hMark2) (by omega)
      (not_between_of (by simp [hPiece1, hCte.symm])) with
    ⟨rest2, rfl⟩
  have hRest2 :
      marks value = (before ++ [q0, q1]) ++ q2 :: rest2 := by
    simp [hRest0]
  rcases
    hSorted.next hRest2 (mem_marks.mpr hMark3) (by omega)
      (not_between_of (by rwa [hPiece2])) with
    ⟨rest3, rfl⟩
  refine ⟨before, q0, q1, q2, q3, rest3, hRest0, ?_⟩
  exact
    { pos := Nat.succ_ne_zero _
      opening :=
        getElem?_of_split hOpening rfl
      closing :=
        getElem?_of_split hSplit4 (by
          simp [q0, q1, q2, q3]
          omega)
      encoding := by rw [hPiece1]; exact hEncoding
      start := hStart
      stop := by
        rw [hStop]
        simp only [List.length_cons, List.length_append,
          List.length_nil, q0, q1, q2, q3]
        omega
      charset := hPiece0.symm
      text := hPiece2.symm }

/- The scan returns exactly the words of the value. -/
theorem mem_encodedWords_iff
    {value : Str}
    {word : EncodedWord} :
    word ∈ encodedWords value ↔ IsWord value word := by
  have hScan :
      word ∈ encodedWords value ↔
        Found value word (marks value) :=
    mem_encodedWordsAt
  rw [hScan]
  constructor
  · rintro ⟨front, q0, q1, q2, q3, rest, hSplit, hWord⟩
    exact isWord_of_candidate hSplit hWord
  · exact found_of_isWord

/- In the order of their places. -/
theorem encodedWords_ordered
    (value : Str) :
    (encodedWords value).Pairwise
      fun a b => a.start < b.start :=
  encodedWordsAt_ordered (sorted_marks value)

end Mime

end MailgunRelay

------------------------------------------------------------
-- Decoding
------------------------------------------------------------

namespace MailgunRelay

namespace Mime

/-
  The Q encoding: every `=XX` is a byte, `_` is a space, and
  all else is literal.
-/
inductive QDecodes : Bytes → Bytes → Prop where
  | nil : QDecodes [] []
  | escape
      {b c : UInt8} {high low : Nat} {rest out : Bytes}
      (hHigh : toDigit b = some high)
      (hLow : toDigit c = some low)
      (hRest : QDecodes rest out) :
      QDecodes (61 :: b :: c :: rest)
        (UInt8.ofNat (high * 16 + low) :: out)
  | underscore
      {rest out : Bytes}
      (hRest : QDecodes rest out) :
      QDecodes (95 :: rest) (32 :: out)
  | literal
      {a : UInt8} {rest out : Bytes}
      (hOther : a ≠ 95)
      (hNone : ∀ b c rest', a = 61 → rest = b :: c :: rest' →
        (toDigit b).isNone ∨ (toDigit c).isNone)
      (hRest : QDecodes rest out) :
      QDecodes (a :: rest) (a :: out)

/- A byte that starts no escape. -/
theorem qDecodes_plain
    {a : UInt8}
    {rest out : Bytes}
    (hNone : ∀ b c rest', a = 61 → rest = b :: c :: rest' →
      (toDigit b).isNone ∨ (toDigit c).isNone)
    (hRest : QDecodes rest out) :
    QDecodes (a :: rest) ((if a = 95 then 32 else a) :: out) := by
  by_cases hUnderscore : a = 95
  · subst hUnderscore
    exact .underscore hRest
  · rw [if_neg hUnderscore]
    exact .literal hUnderscore hNone hRest

/- The decoder reads by these rules. -/
theorem qDecodes_decodeQ
    (bytes : Bytes) :
    QDecodes bytes (decodeQ bytes) := by
  fun_induction decodeQ bytes with
  | case1 => exact .nil
  | case2 b c rest high low hLow hHigh ih =>
      exact .escape hHigh hLow ih
  | case3 b c rest high low hLow hHigh hOther ih =>
      exact .underscore ih
  | case4 a b c rest high low hLow hHigh hEscape hOther ih =>
      exact .literal hOther (fun _ _ _ h => absurd h hEscape) ih
  | case5 a b c rest hNone ih =>
      refine qDecodes_plain ?_ ih
      intro b' c' rest' _ hEq
      cases hEq
      cases hB : toDigit b with
      | none => exact .inl rfl
      | some high =>
          cases hC : toDigit c with
          | none => exact .inr rfl
          | some low => exact (hNone high low hB hC).elim
  | case6 a rest hShort ih =>
      refine qDecodes_plain ?_ ih
      intro b' c' rest' _ hEq
      exact (hShort b' c' rest' hEq).elim

/- The decoder at a byte that starts no escape. -/
theorem decodeQ_plain
    {a : UInt8}
    {rest : Bytes}
    (hNone : ∀ b c rest', a = 61 → rest = b :: c :: rest' →
      (toDigit b).isNone ∨ (toDigit c).isNone) :
    decodeQ (a :: rest) =
      (if a = 95 then 32 else a) :: decodeQ rest := by
  match rest with
  | [] => rfl
  | [b] => rfl
  | b :: c :: rest' =>
      conv_lhs => unfold decodeQ
      split
      · rename_i high low hHigh hLow
        split
        · rename_i hEscape
          rcases hNone b c rest' hEscape rfl with hB | hC
          · rw [hHigh] at hB
            cases hB
          · rw [hLow] at hC
            cases hC
        · split
          · rfl
          · rfl
      · rfl

/- And there is no other way to read the bytes. -/
theorem QDecodes.eq_decodeQ
    {bytes out : Bytes}
    (h : QDecodes bytes out) :
    out = decodeQ bytes := by
  induction h with
  | nil => rfl
  | escape hHigh hLow hRest ih =>
      unfold decodeQ
      simp only [hHigh, hLow, if_true, ih]
  | underscore hRest ih =>
      rw [decodeQ_plain (fun _ _ _ hEscape => by cases hEscape),
        ih]
      rfl
  | literal hOther hNone hRest ih =>
      rw [decodeQ_plain hNone, ih, if_neg hOther]

end Mime

end MailgunRelay

------------------------------------------------------------
-- Line Breaks
------------------------------------------------------------

namespace MailgunRelay

namespace Mime

variable [Base64]

/- The bytes of a word, by its transfer encoding. -/
def Decodes (word : EncodedWord) (bytes : Bytes) : Prop :=
  if word.base64 then
    Base64.decodeLenient (word.text.rdropWhile (· == '=')) =
      some bytes
  else
    QDecodes (utf8 word.text) bytes

/-
  The word is in an ASCII-compatible charset, and decodes to
  text on one line.
-/
def BreaksNoLine (word : EncodedWord) : Prop :=
  isAsciiCompatibleCharset (charsetName word.charset) =
      true ∧
    ∃ bytes, Decodes word bytes ∧ 13 ∉ bytes ∧ 10 ∉ bytes

theorem decodeWord_eq_some_iff
    {word : EncodedWord}
    {bytes : Bytes} :
    decodeWord word = some bytes ↔
      isAsciiCompatibleCharset (charsetName word.charset) =
          true ∧
        Decodes word bytes := by
  unfold decodeWord Decodes
  cases isAsciiCompatibleCharset (charsetName word.charset) with
  | false => simp
  | true =>
      cases word.base64 with
      | true => simp
      | false =>
          simp only [Bool.not_true, Bool.false_eq_true,
            if_false, Bool.not_false, if_true,
            Option.some.injEq, true_and]
          constructor
          · rintro rfl
            exact qDecodes_decodeQ _
          · exact fun h => h.eq_decodeQ.symm

/- A word has one decoding. -/
theorem Decodes.unique
    {word : EncodedWord}
    {bytes bytes' : Bytes}
    (h : Decodes word bytes)
    (h' : Decodes word bytes') :
    bytes = bytes' := by
  unfold Decodes at h h'
  split at h
  · rename_i hBase64
    rw [if_pos hBase64, h] at h'
    exact Option.some.inj h'
  · rename_i hQ
    rw [if_neg hQ] at h'
    exact h.eq_decodeQ.trans h'.eq_decodeQ.symm

/- The filter passes values whose words break no line. -/
theorem mayDecodeToLineBreak_eq_false_iff
    {value : Str} :
    mayDecodeToLineBreak value = false ↔
      ∀ word, IsWord value word → BreaksNoLine word := by
  unfold mayDecodeToLineBreak
  rw [List.any_eq_false]
  refine forall_congr' fun word => ?_
  rw [mem_encodedWords_iff]
  refine imp_congr_right fun _ => ?_
  unfold BreaksNoLine
  cases hDecode : decodeWord word with
  | none =>
      simp only [not_true_eq_false, false_iff]
      rintro ⟨hCharset, bytes, hBytes, -⟩
      rw [decodeWord_eq_some_iff.mpr ⟨hCharset, hBytes⟩]
        at hDecode
      cases hDecode
  | some bytes =>
      rcases decodeWord_eq_some_iff.mp hDecode with
        ⟨hCharset, hBytes⟩
      simp only [Bool.or_eq_true, List.contains_iff_mem,
        not_or, hCharset, true_and]
      constructor
      · exact fun hNone => ⟨bytes, hBytes, hNone⟩
      · rintro ⟨bytes', hBytes', hNone⟩
        rw [hBytes.unique hBytes']
        exact hNone

omit [Base64] in
theorem refuseIf_eq_ok_iff
    {refused : Bool}
    {u : Unit} :
    refuseIf refused = .ok u ↔ refused = false := by
  cases refused <;> simp [refuseIf]

variable [Unicode] [Idna] [Lettre]

/- Custom headers that are written passed their checks. -/
theorem customHeader_of_customHeaders
    {unique : List Str}
    {headers : List (Str × Str)}
    {fields : List Field}
    (hCustom : customHeaders unique headers = some fields)
    {name value : Str}
    (hMem : (name, value) ∈ headers) :
    ∃ field,
      customHeader (asciiLowercase name) name value =
        some field := by
  rcases
    Lib.Assoc.exists_of_mem_left
      (customHeaders_fields hCustom) hMem with
    ⟨field, -, hField⟩
  exact ⟨field, hField⟩

/- The values of a message that are read as address lists. -/
def addressValues (input : MessageInput) : List Str :=
  input.to ++ input.cc ++
    (input.headers.filter fun header =>
      asciiLowercase header.1 == "reply-to".toList).map
        Prod.snd

/- No address value of a built message may break a line. -/
theorem breaksNoLine_of_build
    {hex : Option Str}
    {date : Str}
    {input : MessageInput}
    {message : BuiltMessage}
    (hBuild : build hex date input = .ok message)
    {value : Str}
    (hValue : value ∈ addressValues input)
    {word : EncodedWord}
    (hWord : IsWord value word) :
    BreaksNoLine word := by
  refine mayDecodeToLineBreak_eq_false_iff.mp ?_ word hWord
  unfold addressValues at hValue
  rcases List.mem_append.mp hValue with hRecipient | hReply
  · unfold build at hBuild
    simp only [Lib.bind_eq_ok_iff, refuseIf_eq_ok_iff,
      List.any_eq_false] at hBuild
    rcases hBuild with
      ⟨_, -, «to», -, cc, -, bcc, -, _, hBreak, -⟩
    simpa using hBreak value hRecipient
  · rcases List.mem_map.mp hReply with
      ⟨⟨name, value'⟩, hHeader, rfl⟩
    rcases List.mem_filter.mp hHeader with ⟨hMem, hName⟩
    rcases fields_of_build hBuild with
      ⟨«to», cc, fields, tree, -, -, hHead, -⟩
    rcases hHead.parts with
      ⟨_, _, _, _, custom, -, -, -, -, hCustom, -⟩
    rcases customHeader_of_customHeaders hCustom hMem with
      ⟨field, hField⟩
    unfold customHeader at hField
    rw [if_pos (beq_iff_eq.mp hName)] at hField
    rcases Option.bind_eq_some_iff.mp hField with
      ⟨mailboxes, -, hField⟩
    split at hField
    · cases hField
    · rename_i hBreak
      exact Bool.eq_false_iff.mpr hBreak

omit [Unicode] [Idna] [Lettre] in
/- A word that decodes to CR or LF breaks a line. -/
theorem not_breaksNoLine
    {word : EncodedWord}
    {bytes : Bytes}
    (hBytes : Decodes word bytes)
    (hBreak : 13 ∈ bytes ∨ 10 ∈ bytes) :
    ¬ BreaksNoLine word := by
  rintro ⟨-, bytes', hBytes', hNoCr, hNoLf⟩
  rw [← hBytes.unique hBytes'] at hNoCr hNoLf
  exact hBreak.elim hNoCr hNoLf

/-
  The scan finds every word, the filter judges every word,
  and a message is refused for any word of an address value
  that decodes to CR or LF.
-/
theorem lineBreak_complete :
    (∀ value,
      (∀ word,
        word ∈ encodedWords value ↔ IsWord value word) ∧
      (encodedWords value).Pairwise
        fun a b => a.start < b.start) ∧
    (∀ value, mayDecodeToLineBreak value = false →
      ∀ word, IsWord value word → BreaksNoLine word) ∧
    ∀ hex date input value word bytes,
      value ∈ addressValues input →
      IsWord value word →
      Decodes word bytes →
      13 ∈ bytes ∨ 10 ∈ bytes →
        ∀ message, build hex date input ≠ .ok message := by
  refine ⟨?_, ?_, ?_⟩
  · exact fun value =>
      ⟨fun _ => mem_encodedWords_iff,
        encodedWords_ordered value⟩
  · exact fun value => mayDecodeToLineBreak_eq_false_iff.mp
  · intro hex date input value word bytes hValue hWord hBytes
      hBreak message hBuild
    exact
      not_breaksNoLine hBytes hBreak
        (breaksNoLine_of_build hBuild hValue hWord)

end Mime

end MailgunRelay
