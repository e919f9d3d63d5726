import MailgunRelay.Form

/-
  The two percent decoders.  One splits the text at `%`, the
  other walks over it with two bytes of look-ahead: both
  decode the same bytes.  A `%` that starts no escape stays,
  whatever stands around it, and quoted text is read back.

  Key definitions include:
    * `MailgunRelay.Http.percentDecode`
    * `MailgunRelay.Form.percentBytes`
    * `MailgunRelay.Form.quotePlus`

  Key theorems include:
    * `MailgunRelay.fromUtf8Lossy_append_ascii`
    * `MailgunRelay.Form.unquoteToBytes_eq`
    * `MailgunRelay.Http.percentBytesFrom_eq`
    * `MailgunRelay.Form.unquotePlus_quotePlus`
    * `MailgunRelay.Http.percentDecode_agrees`
-/

------------------------------------------------------------
-- Lossy Text
------------------------------------------------------------

namespace MailgunRelay

/- A character is decoded from its own bytes only. -/
theorem utf8DecodeChar?_eq_some_iff
    {bytes : Bytes}
    {c : Char} :
    bytes.toByteArray.utf8DecodeChar? 0 = some c ↔
      ∃ rest, bytes = String.utf8EncodeChar c ++ rest := by
  constructor
  · intro hSome
    rcases ByteArray.exists_of_utf8DecodeChar?_eq_some hSome with
      ⟨rest, hBytes⟩
    refine ⟨rest.data.toList, ?_⟩
    apply List.toByteArray_inj.mp
    rw [hBytes, List.toByteArray_append]
    apply congrArg
    apply ByteArray.ext
    rw [List.data_toByteArray, Array.toArray_toList]
  · rintro ⟨rest, rfl⟩
    rw [List.toByteArray_append]
    exact ByteArray.utf8DecodeChar?_utf8EncodeChar_append

theorem fromUtf8Lossy_char
    (c : Char)
    (rest : Bytes) :
    fromUtf8Lossy (String.utf8EncodeChar c ++ rest) =
      c :: fromUtf8Lossy rest := by
  have hDecode := utf8DecodeChar?_eq_some_iff.mpr
    ⟨rest, @rfl _ (String.utf8EncodeChar c ++ rest)⟩
  have hDrop :
      (String.utf8EncodeChar c ++ rest).drop c.utf8Size =
        rest :=
    List.drop_left' (String.length_utf8EncodeChar c)
  cases hBytes : String.utf8EncodeChar c ++ rest with
  | nil =>
      exact absurd (List.append_eq_nil_iff.mp hBytes).1
        String.utf8EncodeChar_ne_nil
  | cons b more =>
      rw [hBytes] at hDecode hDrop
      rw [fromUtf8Lossy, hDecode]
      dsimp only
      rw [hDrop]

/- Encoded text is read back, whatever follows it. -/
theorem fromUtf8Lossy_utf8_append
    (s : Str)
    (rest : Bytes) :
    fromUtf8Lossy (utf8 s ++ rest) = s ++ fromUtf8Lossy rest := by
  induction s with
  | nil => rfl
  | cons c s ih =>
      rw [utf8_cons, List.append_assoc, fromUtf8Lossy_char, ih]
      rfl

theorem fromUtf8Lossy_utf8
    (s : Str) :
    fromUtf8Lossy (utf8 s) = s := by
  have hText := fromUtf8Lossy_utf8_append s []
  rw [List.append_nil, fromUtf8Lossy, List.append_nil] at hText
  exact hText

/- An ASCII byte is no later byte of a character. -/
theorem not_mem_utf8EncodeChar
    {b : UInt8}
    (hAscii : b < 128)
    {c : Char}
    {front rest : Bytes}
    (hFront : front ≠ []) :
    String.utf8EncodeChar c ≠ front ++ b :: rest := by
  intro hChar
  have hFirst : b.IsUTF8FirstByte := by
    left
    exact
      forall_asciiByte (P := fun b => b &&& 0x80 = 0)
        (by decide +kernel) hAscii
  have hInside :
      front.length < (String.utf8EncodeChar c).length := by
    rw [hChar, List.length_append, List.length_cons]
    omega
  have hByte : (String.utf8EncodeChar c)[front.length] = b := by
    simp [hChar]
  rw [← hByte] at hFirst
  have hZero := UInt8.isUTF8FirstByte_getElem_utf8EncodeChar.mp hFirst
  exact hFront (List.length_eq_zero_iff.mp hZero)

theorem isContinuation_ascii
    {b : UInt8}
    (hAscii : b < 128) :
    isContinuation b = false := by
  unfold isContinuation
  have hNot : ¬ 0x80 ≤ b := UInt8.not_le.mpr hAscii
  simp [hNot]

/- No ASCII byte follows the first one of a character. -/
theorem secondOf_ascii
    {b : UInt8}
    (hAscii : b < 128)
    (a : UInt8) :
    secondOfThree a b = false ∧ secondOfFour a b = false := by
  have hNot : ∀ low : UInt8, 128 ≤ low → ¬ low ≤ b :=
    fun low hLow hLe =>
      absurd (UInt8.lt_of_le_of_lt (UInt8.le_trans hLow hLe)
        hAscii) (by decide)
  have hFirst := hNot 0xa0 (by decide)
  have hSecond := hNot 0x80 (by decide)
  have hThird := hNot 0x90 (by decide)
  unfold secondOfThree secondOfFour
  rw [isContinuation_ascii hAscii]
  simp [hFirst, hSecond, hThird]

/- What one replacement stands for is in the text. -/
theorem invalidLength_le
    {bytes : Bytes}
    (hBytes : bytes ≠ []) :
    invalidLength bytes ≤ bytes.length := by
  unfold invalidLength
  split
  · rename_i a b rest
    split
    · simp
    · split
      · cases rest with
        | nil => simp
        | cons c rest => split <;> simp
      · simp
  · exact List.length_pos_of_ne_nil hBytes

theorem invalidLength_append_ascii
    {b : UInt8}
    (hAscii : b < 128)
    {front : Bytes}
    (hFront : front ≠ [])
    (rest : Bytes) :
    invalidLength (front ++ b :: rest) =
      invalidLength front := by
  rcases front with _ | ⟨x, _ | ⟨y, _ | ⟨z, front⟩⟩⟩
  · exact absurd rfl hFront
  · have hSecond := secondOf_ascii hAscii x
    simp [invalidLength, hSecond]
  · simp [invalidLength, isContinuation_ascii hAscii]
  · rfl

/- Text is cut before an ASCII byte as its bytes are. -/
theorem fromUtf8Lossy_append_ascii
    {b : UInt8}
    (hAscii : b < 128)
    (front rest : Bytes) :
    fromUtf8Lossy (front ++ b :: rest) =
      fromUtf8Lossy front ++ fromUtf8Lossy (b :: rest) := by
  fun_induction fromUtf8Lossy front with
  | case1 => rfl
  | case2 x front c hSome ih =>
      rcases utf8DecodeChar?_eq_some_iff.mp hSome with
        ⟨more, hFront⟩
      rw [hFront,
        List.drop_left' (String.length_utf8EncodeChar c)] at ih
      rw [hFront, List.append_assoc, fromUtf8Lossy_char,
        List.drop_left' (String.length_utf8EncodeChar c), ih]
      rfl
  | case3 x front hNone ih =>
      have hNone' :
          ((x :: front) ++ b :: rest).toByteArray.utf8DecodeChar?
            0 = none := by
        apply Option.eq_none_iff_forall_ne_some.mpr
        intro c hSome
        rcases utf8DecodeChar?_eq_some_iff.mp hSome with
          ⟨more, hBytes⟩
        -- The character ends in the text or after it.
        rcases List.append_eq_append_iff.mp hBytes with
          ⟨t, hChar, hRest⟩ | ⟨t, hFront, -⟩
        · cases t with
          | nil =>
              rw [List.append_nil] at hChar
              have hSome := utf8DecodeChar?_eq_some_iff.mpr
                ⟨[], (hChar.symm.trans
                  (List.append_nil _).symm)⟩
              rw [hNone] at hSome
              cases hSome
          | cons y t =>
              cases hRest
              exact not_mem_utf8EncodeChar hAscii
                (List.cons_ne_nil x front) hChar
        · have hSome := utf8DecodeChar?_eq_some_iff.mpr
            ⟨t, hFront⟩
          rw [hNone] at hSome
          cases hSome
      have hLength :=
        invalidLength_append_ascii hAscii
          (List.cons_ne_nil x front) rest
      rw [List.cons_append] at hNone' hLength ⊢
      rw [fromUtf8Lossy, hNone']
      dsimp only
      rw [hLength, ← List.cons_append,
        List.drop_append_of_le_length
          (invalidLength_le (List.cons_ne_nil x front)), ih]
      rfl

/- ASCII bytes are characters. -/
theorem fromUtf8Lossy_ascii_cons
    {b : UInt8}
    (hAscii : b < 128)
    (rest : Bytes) :
    fromUtf8Lossy (b :: rest) =
      Char.ofNat b.toNat :: fromUtf8Lossy rest := by
  have hChar := fromUtf8Lossy_char (Char.ofNat b.toNat) rest
  rw [utf8EncodeChar_ofByte hAscii] at hChar
  exact hChar

/- Only an ASCII character starts with an ASCII byte. -/
theorem utf8EncodeChar_ascii
    {b : UInt8}
    (hAscii : b < 128)
    {c : Char}
    {more : Bytes}
    (hChar : String.utf8EncodeChar c = b :: more) :
    c = Char.ofNat b.toNat ∧ more = [] := by
  have hText := fromUtf8Lossy_char c []
  rw [List.append_nil, hChar,
    fromUtf8Lossy_ascii_cons hAscii] at hText
  have hHead := (List.cons.inj hText).1.symm
  refine ⟨hHead, ?_⟩
  rw [hHead, utf8EncodeChar_ofByte hAscii] at hChar
  exact (List.cons.inj hChar).2.symm

/- An ASCII byte of a text is one of its characters. -/
theorem mem_of_mem_utf8
    {b : UInt8}
    (hAscii : b < 128)
    {s : Str}
    (hMem : b ∈ utf8 s) :
    Char.ofNat b.toNat ∈ s := by
  rcases List.mem_flatMap.mp hMem with ⟨c, hChar, hByte⟩
  rcases List.append_of_mem hByte with ⟨front, rest, hSplit⟩
  cases front with
  | nil =>
      rw [← (utf8EncodeChar_ascii hAscii hSplit).1]
      exact hChar
  | cons x front =>
      exact absurd hSplit
        (not_mem_utf8EncodeChar hAscii (List.cons_ne_nil _ _))

end MailgunRelay

------------------------------------------------------------
-- Decoded Bytes
------------------------------------------------------------

namespace MailgunRelay

namespace Form

/- The byte that two hex digits stand for. -/
def hexByte (a b : UInt8) : Option UInt8 :=
  match toDigit a, toDigit b with
  | some high, some low => some (UInt8.ofNat (high * 16 + low))
  | _, _ => none

def escapedByte : Bytes → Option UInt8
| a :: b :: _ => hexByte a b
| _ => none

/- A `%` is no hex digit. -/
theorem hexByte_percent
    (a : UInt8) :
    hexByte a 37 = none := by
  unfold hexByte
  cases toDigit a with
  | none => rfl
  | some high => rfl

/-
  What percent decoding is for: a `%` and two hex digits are
  a byte, and every other byte is itself.
-/
def percentBytes : Bytes → Bytes
| [] => []
| b :: rest =>
    match if b = 37 then escapedByte rest else none with
    | some byte => byte :: percentBytes (rest.drop 2)
    | none => b :: percentBytes rest
termination_by bytes => bytes.length
decreasing_by
  · simp only [List.length_drop, List.length_cons]
    omega
  · exact Nat.lt_succ_self _

theorem percentBytes_escape
    {rest : Bytes}
    {byte : UInt8}
    (hEscape : escapedByte rest = some byte) :
    percentBytes (37 :: rest) =
      byte :: percentBytes (rest.drop 2) := by
  rw [percentBytes, if_pos rfl, hEscape]

theorem percentBytes_literal
    {b : UInt8}
    {rest : Bytes}
    (hLiteral : b = 37 → escapedByte rest = none) :
    percentBytes (b :: rest) = b :: percentBytes rest := by
  have hNone :
      (if b = 37 then escapedByte rest else none) = none := by
    split
    · rename_i hPercent
      exact hLiteral hPercent
    · rfl
  rw [percentBytes, hNone]

/- Bytes without a `%` are themselves. -/
theorem percentBytes_of_not_mem
    {bytes : Bytes}
    (hNone : 37 ∉ bytes) :
    percentBytes bytes = bytes := by
  induction bytes with
  | nil => rw [percentBytes]
  | cons b rest ih =>
      rw [List.mem_cons, not_or] at hNone
      rw [percentBytes_literal fun h => absurd h.symm hNone.1,
        ih hNone.2]

/- No escape reaches over a `%`. -/
theorem escapedByte_append
    (front rest : Bytes) :
    escapedByte (front ++ 37 :: rest) = escapedByte front := by
  rcases front with _ | ⟨x, _ | ⟨y, front⟩⟩
  · cases rest with
    | nil => rfl
    | cons y rest => rfl
  · exact hexByte_percent x
  · rfl

theorem exists_of_escapedByte
    {bytes : Bytes}
    {byte : UInt8}
    (hEscape : escapedByte bytes = some byte) :
    ∃ a b rest, bytes = a :: b :: rest ∧
      hexByte a b = some byte ∧ a ≠ 37 ∧ b ≠ 37 := by
  rcases bytes with _ | ⟨a, _ | ⟨b, rest⟩⟩
  · cases hEscape
  · cases hEscape
  · refine ⟨a, b, rest, rfl, hEscape, ?_, ?_⟩
    · rintro rfl
      cases hEscape
    · rintro rfl
      rw [escapedByte, hexByte_percent] at hEscape
      cases hEscape

/- A `%` that starts no escape stays where it stands. -/
theorem percentBytes_append
    {rest : Bytes}
    (hLiteral : escapedByte rest = none)
    (front : Bytes) :
    percentBytes (front ++ 37 :: rest) =
      percentBytes front ++ 37 :: percentBytes rest := by
  fun_induction percentBytes front with
  | case1 => exact percentBytes_literal fun _ => hLiteral
  | case2 b front byte hEscape ih =>
      have hPercent : b = 37 ∧ escapedByte front = some byte := by
        split at hEscape
        · rename_i hEq
          exact ⟨hEq, hEscape⟩
        · cases hEscape
      rcases hPercent with ⟨rfl, hFront⟩
      rcases exists_of_escapedByte hFront with
        ⟨x, y, more, rfl, -⟩
      rw [List.cons_append,
        percentBytes_escape
          ((escapedByte_append _ rest).trans hFront)]
      exact congrArg _ ih
  | case3 b front hNone ih =>
      rw [List.cons_append, percentBytes_literal, ih]
      · rfl
      · intro hPercent
        rw [dif_pos hPercent] at hNone
        rw [escapedByte_append]
        exact hNone

theorem unquoteBit_eq
    (bit : Bytes) :
    unquoteBit bit =
      match escapedByte bit with
      | some byte => byte :: bit.drop 2
      | none => 37 :: bit := by
  rcases bit with _ | ⟨a, _ | ⟨b, rest⟩⟩
  · rfl
  · rfl
  · unfold unquoteBit escapedByte hexByte
    dsimp only
    cases toDigit a with
    | none => rfl
    | some high =>
        cases toDigit b with
        | none => rfl
        | some low => rfl

/- The decoder that splits at `%`, on bytes. -/
def unquoteBytes (bytes : Bytes) : Bytes :=
  (bytes.splitOn 37).headD [] ++
    (bytes.splitOn 37).tail.flatMap unquoteBit

theorem unquoteBytes_cons
    {b : UInt8}
    (hLiteral : b ≠ 37)
    (rest : Bytes) :
    unquoteBytes (b :: rest) = b :: unquoteBytes rest := by
  rcases
    List.exists_cons_of_ne_nil (List.splitOn_ne_nil 37 rest) with
    ⟨first, others, hSplit⟩
  unfold unquoteBytes
  rw [List.splitOn_cons_eq_if_modifyHead,
    if_neg (by simpa using hLiteral), hSplit]
  rfl

/- The first bit after a `%` is what stands before the next. -/
theorem unquoteBytes_percent
    (rest : Bytes) :
    unquoteBytes (37 :: rest) =
      unquoteBit ((rest.splitOn 37).headD []) ++
        (rest.splitOn 37).tail.flatMap unquoteBit := by
  rcases
    List.exists_cons_of_ne_nil (List.splitOn_ne_nil 37 rest) with
    ⟨first, others, hSplit⟩
  unfold unquoteBytes
  rw [List.splitOn_cons_eq_if_modifyHead, if_pos (by rfl),
    hSplit]
  rfl

/- The bit is an escape if the whole rest is one. -/
theorem escapedByte_bit
    (rest : Bytes) :
    escapedByte ((rest.splitOn 37).headD []) =
      escapedByte rest := by
  rcases
    List.exists_cons_of_ne_nil (List.splitOn_ne_nil 37 rest) with
    ⟨first, others, hSplit⟩
  have hJoin := @List.intercalate_splitOn _ rest _ _ 37
  rw [hSplit] at hJoin ⊢
  rw [List.headD_cons]
  cases others with
  | nil =>
      rw [List.intercalate_singleton] at hJoin
      rw [hJoin]
  | cons second others =>
      rw [List.intercalate_cons_cons, List.append_assoc,
        List.singleton_append] at hJoin
      rw [← hJoin, escapedByte_append]

theorem unquoteBytes_eq
    (bytes : Bytes) :
    unquoteBytes bytes = percentBytes bytes := by
  fun_induction percentBytes bytes with
  | case1 => rfl
  | case2 b rest byte hEscape ih =>
      have hPercent : b = 37 ∧ escapedByte rest = some byte := by
        split at hEscape
        · rename_i hEq
          exact ⟨hEq, hEscape⟩
        · cases hEscape
      rcases hPercent with ⟨rfl, hRest⟩
      rcases exists_of_escapedByte hRest with
        ⟨x, y, more, rfl, -, hX, hY⟩
      rcases
        List.exists_cons_of_ne_nil (List.splitOn_ne_nil 37 more)
        with ⟨first, others, hSplit⟩
      have hSplit' : (x :: y :: more).splitOn 37 =
          (x :: y :: first) :: others := by
        rw [List.splitOn_cons_eq_if_modifyHead,
          if_neg (by simpa using hX),
          List.splitOn_cons_eq_if_modifyHead,
          if_neg (by simpa using hY), hSplit]
        rfl
      have hBit := escapedByte_bit (x :: y :: more)
      rw [hSplit', List.headD_cons, hRest] at hBit
      rw [unquoteBytes_percent, hSplit', List.headD_cons,
        unquoteBit_eq, hBit]
      dsimp only
      rw [List.cons_append, ← ih]
      unfold unquoteBytes
      rw [show (x :: y :: more).drop 2 = more from rfl, hSplit]
      rfl
  | case3 b rest hNone ih =>
      by_cases hPercent : b = 37
      · rw [dif_pos hPercent] at hNone
        rw [hPercent, unquoteBytes_percent, unquoteBit_eq,
          escapedByte_bit, hNone, ← ih]
        rfl
      · rw [unquoteBytes_cons hPercent, ih]

theorem unquoteToBytes_eq
    (ascii : Str) :
    unquoteToBytes ascii = percentBytes (utf8 ascii) :=
  unquoteBytes_eq (utf8 ascii)

end Form

end MailgunRelay

------------------------------------------------------------
-- The Walk Over A Path
------------------------------------------------------------

namespace MailgunRelay

namespace Http

open Form (escapedByte percentBytes percentBytes_escape
  percentBytes_literal)

/- The bytes from an index on. -/
def percentBytesFrom (bytes : Bytes) (i : Nat) : Bytes :=
  if hInside : i < bytes.length then
    let hex := fun b : Option UInt8 => b.bind toDigit
    match bytes[i], hex bytes[i + 1]?, hex bytes[i + 2]? with
    | 37, some high, some low =>
        UInt8.ofNat (high * 16 + low) ::
          percentBytesFrom bytes (i + 3)
    | byte, _, _ => byte :: percentBytesFrom bytes (i + 1)
  else
    []
termination_by bytes.length - i

/- `urllib.parse.unquote` of a path. -/
def percentDecode (path : Str) : Str :=
  fromUtf8Lossy (percentBytesFrom (utf8 path) 0)

/- Two bytes of look-ahead are the start of the rest. -/
theorem escapedByte_drop
    (bytes : Bytes)
    (i : Nat) :
    escapedByte (bytes.drop (i + 1)) =
      match bytes[i + 1]?.bind toDigit,
        bytes[i + 2]?.bind toDigit with
      | some high, some low =>
          some (UInt8.ofNat (high * 16 + low))
      | _, _ => none := by
  have hFirst : bytes[i + 1]? = (bytes.drop (i + 1))[0]? := by
    rw [List.getElem?_drop]
  have hSecond : bytes[i + 2]? = (bytes.drop (i + 1))[1]? := by
    rw [List.getElem?_drop]
  rw [hFirst, hSecond]
  generalize bytes.drop (i + 1) = rest
  rcases rest with _ | ⟨a, _ | ⟨b, rest⟩⟩
  · rfl
  · show none = match toDigit a, none with
      | some high, some low =>
          some (UInt8.ofNat (high * 16 + low))
      | _, _ => none
    cases toDigit a with
    | none => rfl
    | some high => rfl
  · rfl

theorem percentBytesFrom_eq
    (bytes : Bytes)
    (i : Nat) :
    percentBytesFrom bytes i = percentBytes (bytes.drop i) := by
  fun_induction percentBytesFrom bytes i with
  | case1 i hInside hex high low hLow hHigh hPercent ih =>
      have hEscape : escapedByte (bytes.drop (i + 1)) =
          some (UInt8.ofNat (high * 16 + low)) := by
        rw [escapedByte_drop]
        simp only [hex] at hHigh hLow
        rw [hHigh, hLow]
      rw [List.drop_eq_getElem_cons hInside, hPercent,
        percentBytes_escape hEscape, List.drop_drop, ih]
  | case2 i hInside hex hNot ih =>
      rw [List.drop_eq_getElem_cons hInside,
        percentBytes_literal, ih]
      intro hPercent
      rw [escapedByte_drop]
      cases hHigh : bytes[i + 1]?.bind toDigit with
      | none => rfl
      | some high =>
          cases hLow : bytes[i + 2]?.bind toDigit with
          | none => rfl
          | some low =>
              exact (hNot high low hPercent hHigh hLow).elim
  | case3 i hInside =>
      rw [List.drop_eq_nil_of_le (Nat.le_of_not_lt hInside),
        percentBytes]

theorem percentDecode_eq
    (path : Str) :
    percentDecode path =
      fromUtf8Lossy (percentBytes (utf8 path)) := by
  unfold percentDecode
  rw [percentBytesFrom_eq, List.drop_zero]

end Http

end MailgunRelay

------------------------------------------------------------
-- Runs Of ASCII
------------------------------------------------------------

namespace MailgunRelay

namespace Form

/- One run of ASCII, one of other characters, and the rest. -/
theorem unquoteRuns_eq
    (text : Str) :
    unquoteRuns text =
      fromUtf8Lossy
          (percentBytes (utf8 (text.takeWhile isAsciiChar))) ++
        ((text.dropWhile isAsciiChar).takeWhile
            (fun c => !isAsciiChar c) ++
          unquoteRuns
            ((text.dropWhile isAsciiChar).dropWhile
              fun c => !isAsciiChar c)) := by
  cases text with
  | nil =>
      have hNone : percentBytes (utf8 []) = [] := by
        rw [utf8, List.flatMap_nil, percentBytes]
      rw [List.takeWhile_nil, hNone, fromUtf8Lossy]
      rfl
  | cons c rest =>
      rw [unquoteRuns, unquoteToBytes_eq, List.append_assoc]

theorem unquoteRuns_ascii
    {text : Str}
    (hAscii : ∀ c ∈ text, isAsciiChar c = true) :
    unquoteRuns text =
      fromUtf8Lossy (percentBytes (utf8 text)) := by
  have hTake : text.takeWhile isAsciiChar = text :=
    List.takeWhile_eq_self_iff.mpr hAscii
  have hDrop : text.dropWhile isAsciiChar = [] :=
    List.dropWhile_eq_nil_iff.mpr hAscii
  rw [unquoteRuns_eq, hTake, hDrop, List.dropWhile_nil,
    List.takeWhile_nil, unquoteRuns, List.append_nil,
    List.append_nil]

/- Text without a `%` is itself. -/
theorem unquoteRuns_of_not_mem
    {text : Str}
    (hNone : '%' ∉ text) :
    unquoteRuns text = text := by
  fun_induction unquoteRuns text with
  | case1 => rfl
  | case2 c rest ascii other ih =>
      have hParts : ascii ++ other = c :: rest :=
        List.takeWhile_append_dropWhile
      rw [← hParts, List.mem_append, not_or] at hNone
      have hAscii : 37 ∉ utf8 ascii := fun hMem =>
        hNone.1 (mem_of_mem_utf8 (by decide) hMem)
      have hOther := ih fun hMem =>
        hNone.2 ((List.dropWhile_sublist _).mem hMem)
      rw [unquoteToBytes_eq, percentBytes_of_not_mem hAscii,
        fromUtf8Lossy_utf8, hOther, List.append_assoc,
        List.takeWhile_append_dropWhile, hParts]

/- `unquote_plus` decodes text without a `%` as well. -/
theorem unquotePlus_eq
    (text : Str) :
    unquotePlus text =
      unquoteRuns
        (text.map fun c => if c = '+' then ' ' else c) := by
  unfold unquotePlus
  simp only
  split
  · rename_i hNone
    symm
    apply unquoteRuns_of_not_mem
    simpa using hNone
  · rfl

end Form

end MailgunRelay

------------------------------------------------------------
-- A Percent That Starts No Escape
------------------------------------------------------------

namespace MailgunRelay

namespace Form

/- `0`..`9`, `A`..`F` and `a`..`f`. -/
def isHexDigit (c : Char) : Bool :=
  ('0' ≤ c && c ≤ '9') || ('A' ≤ c && c ≤ 'F') ||
    ('a' ≤ c && c ≤ 'f')

/- A `%` before this text is an escape. -/
def startsHex : Str → Bool
| a :: b :: _ => isHexDigit a && isHexDigit b
| _ => false

/- A byte that is a digit is a character that is one. -/
theorem isHexDigit_of_toDigit
    {c : Char}
    {b : UInt8}
    {more : Bytes}
    (hChar : String.utf8EncodeChar c = b :: more)
    (hDigit : toDigit b ≠ none) :
    isHexDigit c = true ∧ more = [] := by
  have hAscii : b < 128 := by
    exact
      forall_byte (P := fun b => toDigit b ≠ none → b < 128)
        (by decide +kernel) b hDigit
  rcases utf8EncodeChar_ascii hAscii hChar with ⟨rfl, rfl⟩
  have hHex :
      isHexDigit (Char.ofNat b.toNat) = true :=
    forall_byte
      (P := fun b => toDigit b ≠ none →
        isHexDigit (Char.ofNat b.toNat) = true)
      (by decide +kernel) b hDigit
  exact ⟨hHex, rfl⟩

theorem startsHex_of_escapedByte
    {text : Str}
    {byte : UInt8}
    (hEscape : escapedByte (utf8 text) = some byte) :
    startsHex text = true := by
  rcases exists_of_escapedByte hEscape with
    ⟨x, y, more, hBytes, hByte, -⟩
  have hDigits : toDigit x ≠ none ∧ toDigit y ≠ none := by
    unfold hexByte at hByte
    split at hByte
    · rename_i hHigh hLow
      simp [hHigh, hLow]
    · cases hByte
  cases text with
  | nil => cases hBytes
  | cons a text =>
      rcases
        List.exists_cons_of_ne_nil
          (@String.utf8EncodeChar_ne_nil a) with
        ⟨x', front, hA⟩
      rw [utf8_cons, hA, List.cons_append] at hBytes
      rcases List.cons.inj hBytes with ⟨rfl, hRest⟩
      rcases isHexDigit_of_toDigit hA hDigits.1 with
        ⟨hFirst, rfl⟩
      cases text with
      | nil => cases hRest
      | cons b text =>
          rcases
            List.exists_cons_of_ne_nil
              (@String.utf8EncodeChar_ne_nil b) with
            ⟨y', front, hB⟩
          rw [List.nil_append, utf8_cons, hB,
            List.cons_append] at hRest
          rcases List.cons.inj hRest with ⟨rfl, -⟩
          rcases isHexDigit_of_toDigit hB hDigits.2 with
            ⟨hSecond, -⟩
          rw [startsHex, hFirst, hSecond]
          rfl

theorem escapedByte_utf8
    {text : Str}
    (hLiteral : startsHex text = false) :
    escapedByte (utf8 text) = none := by
  cases hEscape : escapedByte (utf8 text) with
  | none => rfl
  | some byte =>
      rw [startsHex_of_escapedByte hEscape] at hLiteral
      cases hLiteral

/- The digits of an escape are in one run of ASCII. -/
theorem startsHex_takeWhile
    {text : Str}
    (hLiteral : startsHex text = false) :
    startsHex (text.takeWhile isAsciiChar) = false := by
  rcases text with _ | ⟨a, _ | ⟨b, text⟩⟩
  · rfl
  · rw [List.takeWhile_cons]
    split
    · rfl
    · rfl
  · rw [List.takeWhile_cons]
    split
    · rw [List.takeWhile_cons]
      split
      · exact hLiteral
      · rfl
    · rfl

theorem lossy_percent
    {front rest : Str}
    (hLiteral : startsHex rest = false) :
    fromUtf8Lossy
        (percentBytes (utf8 (front ++ '%' :: rest))) =
      fromUtf8Lossy (percentBytes (utf8 front)) ++
        '%' :: fromUtf8Lossy (percentBytes (utf8 rest)) := by
  have hPercent : utf8 ('%' :: rest) = 37 :: utf8 rest := rfl
  rw [utf8_append, hPercent,
    percentBytes_append (escapedByte_utf8 hLiteral),
    fromUtf8Lossy_append_ascii (by decide),
    fromUtf8Lossy_ascii_cons (by decide)]
  rfl

/- After a run of ASCII the next run goes on. -/
theorem unquoteRuns_percent_ascii
    {front rest : Str}
    (hAscii : ∀ c ∈ front, isAsciiChar c = true)
    (hLiteral : startsHex rest = false) :
    unquoteRuns (front ++ '%' :: rest) =
      unquoteRuns front ++ '%' :: unquoteRuns rest := by
  have hTake :
      (front ++ '%' :: rest).takeWhile isAsciiChar =
        front ++ '%' :: rest.takeWhile isAsciiChar := by
    rw [List.takeWhile_append_of_pos hAscii,
      List.takeWhile_cons_of_pos (by decide)]
  have hDrop :
      (front ++ '%' :: rest).dropWhile isAsciiChar =
        rest.dropWhile isAsciiChar := by
    rw [List.dropWhile_append_of_pos hAscii,
      List.dropWhile_cons_of_pos (by decide)]
  rw [unquoteRuns_eq, hTake, hDrop,
    lossy_percent (startsHex_takeWhile hLiteral),
    unquoteRuns_ascii hAscii, List.append_assoc,
    List.cons_append, ← unquoteRuns_eq]

theorem unquoteRuns_percent
    (front : Str)
    {rest : Str}
    (hLiteral : startsHex rest = false) :
    unquoteRuns (front ++ '%' :: rest) =
      unquoteRuns front ++ '%' :: unquoteRuns rest := by
  fun_induction unquoteRuns front with
  | case1 =>
      have hNone := @unquoteRuns_percent_ascii [] rest
        (fun c hMem => by cases hMem) hLiteral
      rwa [unquoteRuns] at hNone
  | case2 c front ascii other ih =>
      by_cases hOther : other = []
      · have hAscii := List.dropWhile_eq_nil_iff.mp hOther
        rw [unquoteRuns_percent_ascii hAscii hLiteral,
          unquoteRuns]
      · have hTake :
            (c :: front ++ '%' :: rest).takeWhile isAsciiChar =
              ascii := by
          rw [List.takeWhile_append, if_neg]
          intro hLength
          have hParts := congrArg List.length
            (@List.takeWhile_append_dropWhile _ isAsciiChar
              (c :: front))
          rw [List.length_append, hLength] at hParts
          have hLength' :
              ((c :: front).dropWhile isAsciiChar).length = 0 := by
            omega
          exact hOther (List.length_eq_zero_iff.mp hLength')
        have hDrop :
            (c :: front ++ '%' :: rest).dropWhile isAsciiChar =
              other ++ '%' :: rest := by
          rw [List.dropWhile_append, if_neg]
          intro hNone
          exact hOther (List.isEmpty_iff.mp hNone)
        -- The other characters end before the `%`.
        have hOtherTake :
            (other ++ '%' :: rest).takeWhile
                (fun c => !isAsciiChar c) =
              other.takeWhile fun c => !isAsciiChar c := by
          rw [List.takeWhile_append,
            List.takeWhile_cons_of_neg (by decide),
            List.append_nil]
          split
          · rename_i hLength
            exact ((List.takeWhile_prefix _).eq_of_length
              hLength).symm
          · rfl
        have hOtherDrop :
            (other ++ '%' :: rest).dropWhile
                (fun c => !isAsciiChar c) =
              other.dropWhile (fun c => !isAsciiChar c) ++
                '%' :: rest := by
          rw [List.dropWhile_append,
            List.dropWhile_cons_of_neg (by decide)]
          split
          · rename_i hNone
            rw [List.isEmpty_iff.mp hNone]
            rfl
          · rfl
        rw [unquoteRuns_eq, hTake, hDrop, hOtherTake,
          hOtherDrop, ih, unquoteToBytes_eq]
        simp only [List.append_assoc]

end Form

end MailgunRelay

------------------------------------------------------------
-- Quoted Text
------------------------------------------------------------

namespace MailgunRelay

namespace Form

/- A hexadecimal digit in uppercase. -/
def upperHexDigit (n : Nat) : Char :=
  if n < 10 then
    Char.ofNat (48 + n)
  else
    Char.ofNat (55 + n)

/- What `quote_plus` writes for a byte. -/
def quoteByte (b : UInt8) : Str :=
  let c := Char.ofNat b.toNat
  if c = ' ' then
    ['+']
  else if isAsciiAlphanumeric c ||
      ['_', '.', '-', '~'].contains c then
    [c]
  else
    ['%', upperHexDigit (b.toNat / 16),
      upperHexDigit (b.toNat % 16)]

/- `urllib.parse.quote_plus`. -/
def quotePlus (text : Str) : Str :=
  (utf8 text).flatMap quoteByte

/- A written byte, its `+` read as a space, is the byte. -/
def reads (b : UInt8) (bytes : Bytes) : Bool :=
  match bytes with
  | [x] => x = b && x ≠ 37
  | [x, high, low] => x = 37 && hexByte high low = some b
  | _ => false

theorem quoteByte_reads
    (b : UInt8) :
    reads b
        (utf8 ((quoteByte b).map fun c =>
          if c = '+' then ' ' else c)) = true ∧
      ∀ c ∈ quoteByte b, isAsciiChar c = true := by
  have hHere :=
    forall_byte
      (P := fun b =>
        (reads b
            (utf8 ((quoteByte b).map fun c =>
              if c = '+' then ' ' else c)) &&
          (quoteByte b).all isAsciiChar) = true)
      (by decide +kernel) b
  rw [Bool.and_eq_true, List.all_eq_true] at hHere
  exact hHere

theorem percentBytes_of_reads
    {b : UInt8}
    {bytes : Bytes}
    (hReads : reads b bytes = true)
    (rest : Bytes) :
    percentBytes (bytes ++ rest) = b :: percentBytes rest := by
  unfold reads at hReads
  split at hReads
  · rename_i x
    rw [Bool.and_eq_true, decide_eq_true_eq,
      decide_eq_true_eq] at hReads
    rcases hReads with ⟨rfl, hLiteral⟩
    exact percentBytes_literal fun h => absurd h hLiteral
  · rename_i x high low
    rw [Bool.and_eq_true, decide_eq_true_eq,
      decide_eq_true_eq] at hReads
    rcases hReads with ⟨rfl, hByte⟩
    exact percentBytes_escape hByte
  · cases hReads

theorem percentBytes_quoted
    (bytes : Bytes) :
    percentBytes
        (utf8 ((bytes.flatMap quoteByte).map fun c =>
          if c = '+' then ' ' else c)) =
      bytes := by
  induction bytes with
  | nil => exact percentBytes_of_not_mem (List.not_mem_nil)
  | cons b rest ih =>
      rw [List.flatMap_cons, List.map_append, utf8_append,
        percentBytes_of_reads (quoteByte_reads b).1, ih]

/- Quoted text is read back. -/
theorem unquotePlus_quotePlus
    (text : Str) :
    unquotePlus (quotePlus text) = text := by
  have hAscii : ∀ c ∈ (quotePlus text).map
      (fun c => if c = '+' then ' ' else c),
      isAsciiChar c = true := by
    intro c hMem
    rcases List.mem_map.mp hMem with ⟨d, hQuoted, rfl⟩
    split
    · rfl
    · rcases List.mem_flatMap.mp hQuoted with ⟨b, -, hByte⟩
      exact (quoteByte_reads b).2 d hByte
  rw [unquotePlus_eq, unquoteRuns_ascii hAscii]
  unfold quotePlus
  rw [percentBytes_quoted, fromUtf8Lossy_utf8]

end Form

end MailgunRelay

------------------------------------------------------------
-- Agreement
------------------------------------------------------------

namespace MailgunRelay

namespace Form

/- A space for a `+` makes no escape. -/
theorem startsHex_map
    (text : Str) :
    startsHex (text.map fun c => if c = '+' then ' ' else c) =
      startsHex text := by
  have hDigit (c : Char) :
      isHexDigit (if c = '+' then ' ' else c) =
        isHexDigit c := by
    split
    · rename_i hPlus
      rw [hPlus]
      rfl
    · rfl
  rcases text with _ | ⟨a, _ | ⟨b, text⟩⟩
  · rfl
  · rfl
  · simp only [List.map_cons, startsHex, hDigit]

theorem unquotePlus_percent
    (front : Str)
    {rest : Str}
    (hLiteral : startsHex rest = false) :
    unquotePlus (front ++ '%' :: rest) =
      unquotePlus front ++ '%' :: unquotePlus rest := by
  rw [← startsHex_map] at hLiteral
  simp only [unquotePlus_eq, List.map_append, List.map_cons]
  rw [if_neg (by decide)]
  exact unquoteRuns_percent _ hLiteral

end Form

namespace Http

open Form (unquotePlus quotePlus startsHex)

/-
  Both decoders do the same to ASCII without `+`, quoted
  text is read back, and in both a `%` that starts no escape
  stays, whatever stands before and after it.
-/
theorem percentDecode_agrees :
    (∀ text : Str,
      (∀ c ∈ text, isAsciiChar c = true ∧ c ≠ '+') →
        percentDecode text = unquotePlus text) ∧
      (∀ text : Str, unquotePlus (quotePlus text) = text) ∧
      ∀ front rest : Str, startsHex rest = false →
        unquotePlus (front ++ '%' :: rest) =
            unquotePlus front ++ '%' :: unquotePlus rest ∧
          percentDecode (front ++ '%' :: rest) =
            percentDecode front ++ '%' :: percentDecode rest := by
  refine ⟨?_, Form.unquotePlus_quotePlus, ?_⟩
  · intro text hText
    have hSame :
        text.map (fun c => if c = '+' then ' ' else c) =
          text := by
      conv_rhs => rw [← List.map_id text]
      exact List.map_congr_left fun c hMem =>
        if_neg (hText c hMem).2
    rw [percentDecode_eq, Form.unquotePlus_eq, hSame,
      Form.unquoteRuns_ascii fun c hMem => (hText c hMem).1]
  · intro front rest hLiteral
    refine ⟨Form.unquotePlus_percent front hLiteral, ?_⟩
    rw [percentDecode_eq, percentDecode_eq, percentDecode_eq]
    exact Form.lossy_percent hLiteral

end Http

end MailgunRelay
