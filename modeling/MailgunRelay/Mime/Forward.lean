import MailgunRelay.Mime.Split

/-
  Forwarding a header value: each long word is replaced by
  its pieces, and a receiver reads of them what it reads of
  the word.

  Key definitions include:
    * `MailgunRelay.Mime.Occurs`
    * `MailgunRelay.Mime.Forwarded`

  Key theorems include:
    * `MailgunRelay.Mime.forwarded_of_forwardFrom`
    * `MailgunRelay.Mime.read_pieces`
-/

------------------------------------------------------------
-- Words And Tokens
------------------------------------------------------------

namespace MailgunRelay

namespace Mime

/- A word is written in a text. -/
def Occurs (token : Token) (text : Str) : Prop :=
  token.WellFormed ∧
    ∃ front after, text = front ++ (token.written ++ after)

/- The words of a value, by what they are written with. -/
theorem isWord_iff
    {value : Str}
    {word : EncodedWord} :
    IsWord value word ↔
      ∃ (token : Token) (front after : Str),
        token.WellFormed ∧
          value = front ++ (token.written ++ after) ∧
          word = token.word front.length := by
  constructor
  · rintro ⟨⟨front, cte, after, hValue, hStart, hStop,
      hEncoding⟩, hCharset, hText⟩
    rcases word with ⟨start, stop, charset, base64, text⟩
    dsimp only at hStart hStop hEncoding hCharset hText
    refine
      ⟨{ charset := charset, cte := cte, text := text }, front,
        after,
        { charset := hCharset
          text := hText
          encoding := by rw [hEncoding]; rfl }, ?_, ?_⟩
    · rw [hValue, List.append_assoc]
      rfl
    · simp only [Token.word, hEncoding, Option.getD_some,
        EncodedWord.mk.injEq, and_true]
      exact ⟨hStart, hStop⟩
  · rintro ⟨token, front, after, hToken, rfl, rfl⟩
    rcases Option.isSome_iff_exists.mp hToken.encoding with
      ⟨base64, hBase64⟩
    refine
      { stands :=
          ⟨front, token.cte, after, ?_, rfl, rfl, ?_⟩
        charset := hToken.charset
        text := hToken.text }
    · rw [List.append_assoc]
      rfl
    · rw [hBase64]
      simp [Token.word, hBase64]

/- A word of the rest of a value is one of the value. -/
theorem isWord_of_drop
    {value front after : Str}
    {token : Token}
    {i : Nat}
    (hToken : token.WellFormed)
    (hSplit :
      value.drop i = front ++ (token.written ++ after)) :
    IsWord value (token.word (i + front.length)) := by
  have hInside : i ≤ value.length := by
    have hLength := congrArg List.length hSplit
    rw [List.length_append, List.length_append,
      List.length_drop, token.length_written] at hLength
    omega
  refine
    isWord_iff.mpr
      ⟨token, value.take i ++ front, after, hToken, ?_, ?_⟩
  · conv_lhs => rw [← List.take_append_drop i value, hSplit]
    rw [List.append_assoc]
  · rw [List.length_append, List.length_take,
      Nat.min_eq_left hInside]

end Mime

end MailgunRelay

------------------------------------------------------------
-- The Run
------------------------------------------------------------

namespace MailgunRelay

namespace Mime

/- White space is at the start, if anything. -/
def StartsWsp (text : Str) : Prop :=
  ∀ c ∈ text.head?, isWsp c = true

/- All words in a text are of the permitted length. -/
def AllShort (text : Str) : Prop :=
  ∀ token, Occurs token text →
    token.written.length ≤ maxEncodedWord

variable [Base64]

/- The pieces as they are written. -/
def writtenPieces
    (charset : Str)
    (chunks : List Bytes) : Str :=
  [' '].intercalate
    (chunks.map fun chunk => (piece charset chunk).written)

/-
  A value and what is forwarded of it: text with short words
  stays as it is, and each long word between white space is
  replaced by its pieces.
-/
inductive Forwarded : Str → Str → Prop where
  | rest
      {text : Str}
      (hShort : AllShort text) :
      Forwarded text text
  | split
      {text input output : Str}
      {token : Token}
      {bytes : Bytes}
      {chunks : List Bytes}
      (hShort : AllShort text)
      (hEnds : EndsWsp text)
      (hStarts : StartsWsp input)
      (hToken : token.WellFormed)
      (hLong : maxEncodedWord < token.written.length)
      (hDecode : token.decode = some bytes)
      (hChunks : IsSplit token.charset bytes chunks)
      (hRest : Forwarded input output) :
      Forwarded (text ++ (token.written ++ input))
        (text ++ (writtenPieces token.charset chunks ++ output))

omit [Base64] in
/- What a delimited word stands between. -/
theorem wsp_of_isDelimited
    {value front after : Str}
    {token : Token}
    {copied : Nat}
    (hSplit : value = front ++ (token.written ++ after))
    (hCopied : copied ≤ front.length)
    (hDelimited :
      isDelimited value (token.word front.length) = true) :
    EndsWsp (between value copied front.length) ∧
      StartsWsp after := by
  simp only [isDelimited, Token.word, Bool.and_eq_true,
    Bool.or_eq_true, beq_iff_eq] at hDelimited
  rcases hDelimited with ⟨hBefore, hAfter⟩
  have hPiece :
      between value copied front.length =
        front.drop copied := by
    rw [between, hSplit, List.drop_append_of_le_length hCopied,
      List.take_append_of_le_length (by simp)]
    exact List.take_of_length_le (by simp)
  constructor
  · rw [hPiece]
    intro c hLast
    rw [List.getLast?_drop] at hLast
    split at hLast
    · cases hLast
    rename_i hInside
    have hPos : front.length ≠ 0 := by omega
    have hWsp := hBefore.resolve_left hPos
    rw [hSplit, List.getElem?_append_left (by omega),
      ← List.getLast?_eq_getElem?, Option.mem_def.mp hLast]
      at hWsp
    exact hWsp
  · intro c hHead
    have hHere :
        value[front.length + token.written.length]? =
          some c := by
      rw [hSplit, ← List.append_assoc,
        List.getElem?_append_right (by simp),
        ← List.length_append, Nat.sub_self,
        ← List.head?_eq_getElem?]
      exact hHead
    rcases hAfter with hEnd | hWsp
    · rw [hEnd, List.getElem?_eq_none (Nat.le_refl _)]
        at hHere
      cases hHere
    · rw [hHere] at hWsp
      exact hWsp

omit [Base64] in
/- Words that were passed over are short. -/
theorem allShort_between
    {value : Str}
    {done words : List EncodedWord}
    {copied stop : Nat}
    (hWords : encodedWords value = done ++ words)
    (hDone :
      ∀ word ∈ done, copied ≤ word.start →
        word.stop - word.start ≤ maxEncodedWord)
    (hLater : ∀ word ∈ words, stop ≤ word.start) :
    AllShort (between value copied stop) := by
  rintro token ⟨hToken, front, after, hSplit⟩
  have hInside : copied + front.length < stop := by
    have hLength := congrArg List.length hSplit
    rw [between, List.length_take, List.length_append,
      List.length_append, token.length_written] at hLength
    omega
  have hDrop :
      value.drop copied =
        front ++ (token.written ++
          (after ++ value.drop stop)) := by
    rw [drop_between value (show copied ≤ stop by omega),
      hSplit, List.append_assoc, List.append_assoc]
  have hWord := isWord_of_drop hToken hDrop
  have hMem := mem_encodedWords_iff.mpr hWord
  rw [hWords] at hMem
  rcases List.mem_append.mp hMem with hBefore | hAfter
  · have hShort := hDone _ hBefore (Nat.le_add_right _ _)
    simp only [Token.word] at hShort
    omega
  · have hStart := hLater _ hAfter
    simp only [Token.word] at hStart
    omega

/- One run of the loop writes what is to be forwarded. -/
theorem forwarded_of_forwardFrom
    (hBase64 : Base64Laws)
    {value : Str}
    {phrase isQuoted : Bool}
    {done words : List EncodedWord}
    {copied : Nat}
    {out result : Str}
    (hForward :
      forwardFrom value phrase isQuoted copied out words =
        some result)
    (hWords : encodedWords value = done ++ words)
    (hDone :
      ∀ word ∈ done, copied ≤ word.start →
        word.stop - word.start ≤ maxEncodedWord) :
    ∃ tail, result = out ++ tail ∧
      Forwarded (value.drop copied) tail := by
  induction words generalizing done copied out with
  | nil =>
      cases hForward
      refine ⟨value.drop copied, rfl, .rest ?_⟩
      have hAll :
          between value copied (copied + value.length) =
            value.drop copied := by
        rw [between, Nat.add_sub_cancel_left]
        exact List.take_of_length_le (by simp)
      rw [← hAll]
      exact allShort_between hWords hDone nofun
  | cons word words ih =>
      have hMem : word ∈ encodedWords value := by
        rw [hWords]
        simp
      have hOrder := encodedWords_ordered value
      rw [hWords] at hOrder
      rcases List.pairwise_append.mp hOrder with
        ⟨-, hAfter, hAcross⟩
      have hNext :
          encodedWords value = (done ++ [word]) ++ words := by
        rw [hWords, List.append_assoc]
        rfl
      rcases isWord_iff.mp (mem_encodedWords_iff.mp hMem) with
        ⟨token, front, after, hToken, hSplit, rfl⟩
      rw [forwardFrom] at hForward
      rcases Option.bind_eq_some_iff.mp hForward with
        ⟨bytes, hDecode, hForward⟩
      split at hForward
      · cases hForward
      split at hForward
      · rename_i hShort
        refine ih hForward hNext ?_
        intro word' hMem' hStart
        rcases List.mem_append.mp hMem' with hBefore | hHere
        · exact hDone word' hBefore hStart
        · cases List.mem_singleton.mp hHere
          exact hShort
      rename_i hLong
      split at hForward
      · cases hForward
      rename_i hPlace
      simp only [Bool.or_eq_true, not_or, Bool.not_eq_true,
        Bool.not_eq_false', decide_eq_false_iff_not,
        Nat.not_lt] at hPlace
      rcases hPlace with ⟨⟨-, hDelimited⟩, hCopied⟩
      rcases Option.bind_eq_some_iff.mp hForward with
        ⟨pieces, hPieces, hForward⟩
      rcases splitWord_spec hBase64 hPieces with
        ⟨chunks, hChunks, rfl⟩
      have hPassed :
          ∀ word' ∈ done ++ [token.word front.length],
            (token.word front.length).stop ≤ word'.start →
              word'.stop - word'.start ≤ maxEncodedWord := by
        intro word' hMem' hStart
        exfalso
        simp only [Token.word] at hStart
        rcases List.mem_append.mp hMem' with hBefore | hHere
        · have hLess :=
            hAcross word' hBefore _ List.mem_cons_self
          simp only [Token.word] at hLess
          omega
        · cases List.mem_singleton.mp hHere
          rw [token.length_written] at hStart
          simp only [Token.word] at hStart
          omega
      rcases ih hForward hNext hPassed with ⟨tail, rfl, hTail⟩
      have hAfterDrop :
          value.drop (token.word front.length).stop = after := by
        rw [hSplit, ← List.append_assoc]
        exact List.drop_left' (by simp [Token.word])
      have hDrop :
          value.drop copied =
            between value copied front.length ++
              (token.written ++ after) := by
        rw [drop_between value hCopied]
        congr 1
        rw [hSplit]
        exact List.drop_left' rfl
      have hWsp := wsp_of_isDelimited hSplit hCopied hDelimited
      have hShort :
          AllShort (between value copied front.length) := by
        refine allShort_between hWords hDone ?_
        intro word' hMem'
        rcases List.mem_cons.mp hMem' with rfl | hLater
        · exact Nat.le_refl _
        · exact
            Nat.le_of_lt
              ((List.pairwise_cons.mp hAfter).1 word' hLater)
      have hLong' : maxEncodedWord < token.written.length := by
        simp only [Token.word] at hLong
        omega
      rw [hAfterDrop] at hTail
      refine
        ⟨between value copied front.length ++
          (writtenPieces token.charset chunks ++ tail), ?_, ?_⟩
      · simp only [List.append_assoc, writtenPieces]
        rfl
      · rw [hDrop]
        exact
          .split hShort hWsp.1 hWsp.2 hToken hLong' hDecode
            hChunks hTail

end Mime

end MailgunRelay

------------------------------------------------------------
-- What Is Read
------------------------------------------------------------

namespace MailgunRelay

namespace Mime

variable [Base64]

/- The pieces as a receiver finds them. -/
def pieceSegments (charset : Str) : List Bytes → List Segment
| [] => []
| [chunk] => [.word (piece charset chunk)]
| chunk :: chunks =>
    .word (piece charset chunk) :: .char ' ' ::
      pieceSegments charset chunks

/- The first piece, a space, and the others. -/
theorem writtenPieces_cons_cons
    (charset : Str)
    (chunk chunk' : Bytes)
    (chunks : List Bytes)
    (rest : Str) :
    writtenPieces charset (chunk :: chunk' :: chunks) ++ rest =
      (piece charset chunk).written ++
        ' ' :: (writtenPieces charset (chunk' :: chunks) ++
          rest) := by
  rw [writtenPieces, List.map_cons, List.map_cons,
    List.intercalate_cons_cons]
  simp [writtenPieces]

theorem writtenPieces_singleton
    (charset : Str)
    (chunk : Bytes) :
    writtenPieces charset [chunk] =
      (piece charset chunk).written :=
  List.intercalate_singleton

theorem segments_pieces
    (hBase64 : Base64Laws)
    {charset : Str}
    (hMark : '?' ∉ charset)
    {chunks : List Bytes}
    (hNonempty : chunks ≠ [])
    (rest : Str) :
    segments (writtenPieces charset chunks ++ rest) =
      pieceSegments charset chunks ++ segments rest := by
  induction chunks with
  | nil => exact absurd rfl hNonempty
  | cons chunk chunks ih =>
      have hPiece := piece_wellFormed hBase64 hMark chunk
      cases chunks with
      | nil =>
          rw [writtenPieces_singleton,
            segments_written hPiece]
          rfl
      | cons chunk' chunks =>
          rw [writtenPieces_cons_cons,
            segments_written hPiece, segments_char rfl,
            ih (List.cons_ne_nil _ _)]
          rfl

/- The space between two pieces is dropped. -/
theorem read_pieces
    (hBase64 : Base64Laws)
    {charset : Str}
    (hName :
      isAsciiCompatibleCharset (charsetName charset) = true)
    {chunks : List Bytes}
    (hNonempty : chunks ≠ [])
    (segs : List Segment)
    (gap : Option Str) :
    read gap (pieceSegments charset chunks ++ segs) =
      (read (some []) segs).map (chunks.flatten ++ ·) := by
  induction chunks generalizing gap with
  | nil => exact absurd rfl hNonempty
  | cons chunk chunks ih =>
      have hPiece := decode_piece hBase64 hName chunk
      cases chunks with
      | nil =>
          simp only [pieceSegments, List.cons_append,
            List.nil_append, read, hPiece,
            List.flatten_cons, List.flatten_nil,
            List.append_nil, Option.bind_eq_bind,
            Option.bind_some]
          cases read (some []) segs <;> rfl
      | cons chunk' chunks =>
          have hSpace : isWsp ' ' = true := rfl
          simp only [pieceSegments, List.cons_append, read,
            hPiece, hSpace, Option.isSome_some, Bool.and_self,
            if_true, Option.bind_eq_bind, Option.bind_some,
            ih (List.cons_ne_nil _ _)]
          cases read (some []) segs with
          | none => rfl
          | some bytes =>
              simp [List.flatten_cons]

theorem opening_pieces
    {charset : Str}
    (hCharset : IsCharset charset)
    {chunks : List Bytes}
    (hNonempty : chunks ≠ [])
    (rest : Str) :
    Opening (writtenPieces charset chunks ++ rest) := by
  match chunks with
  | [] => exact absurd rfl hNonempty
  | [chunk] =>
      rw [writtenPieces_singleton]
      exact Token.opening hCharset rest
  | chunk :: chunk' :: chunks =>
      rw [writtenPieces_cons_cons]
      exact Token.opening hCharset _

/- A readable word is in a charset of its own. -/
theorem charset_of_decode
    {token : Token}
    {bytes : Bytes}
    (hDecode : token.decode = some bytes) :
    isAsciiCompatibleCharset (charsetName token.charset) =
      true :=
  (decodeWord_eq_some_iff.mp hDecode).1

end Mime

end MailgunRelay
