import MailgunRelay.Mime.Dropped

/-
  The words that `encodedWords` finds in a forwarded value:
  the pieces, and what is found between them. The padding of
  a piece can begin a word with what is behind it.

  Key definitions include:
    * `MailgunRelay.Mime.runs`
    * `MailgunRelay.Mime.ShortRuns`

  Key theorems include:
    * `MailgunRelay.Mime.occurs_pieces`
    * `MailgunRelay.Mime.Forwarded.allShort_iff`
-/

------------------------------------------------------------
-- Words Inside Words
------------------------------------------------------------

namespace MailgunRelay

namespace Mime

/- An equals sign and a mark, inside a word. -/
theorem mark_inside
    {outer : Token}
    (hOuter : outer.WellFormed)
    {front q : Str}
    (hInner :
      outer.charset ++ '?' :: outer.cte :: '?' ::
          (outer.text ++ ['?', '=']) =
        front ++ '=' :: '?' :: q) :
    q = outer.cte :: '?' :: (outer.text ++ ['?', '=']) ∨
      (outer.text.getLast? = some '=' ∧ q = ['=']) := by
  rcases List.append_eq_append_iff.mp hInner with
    ⟨beyond, -, hBeyond⟩ | ⟨last, hCharset, hLast⟩
  · right
    match beyond with
    | [] => cases hBeyond
    | [_] =>
        injection hBeyond with _ hBeyond
        injection hBeyond with hCte
        have hEncoding := hOuter.encoding
        rw [hCte] at hEncoding
        cases hEncoding
    | [_, _] =>
        injection hBeyond with _ hBeyond
        injection hBeyond with _ hBeyond
        injection hBeyond with hWrong
        cases hWrong
    | _ :: _ :: _ :: beyond =>
        injection hBeyond with _ hBeyond
        injection hBeyond with _ hBeyond
        injection hBeyond with _ hBeyond
        rcases List.append_eq_append_iff.mp hBeyond with
          ⟨last, -, hLast⟩ | ⟨last, hText, hLast⟩
        · have hLength := congrArg List.length hLast
          simp only [List.length_append, List.length_cons,
            List.length_nil] at hLength
          have hNil : last = [] :=
            List.length_eq_zero_iff.mp (by omega)
          subst hNil
          cases hLast
        · match last with
          | [] => cases hLast
          | [_] =>
              injection hLast with hEquals hLast
              injection hLast with _ hLast
              subst hEquals
              exact
                ⟨by rw [hText, List.getLast?_concat], hLast⟩
          | _ :: d :: last =>
              injection hLast with _ hLast
              injection hLast with hMark
              subst hMark
              refine absurd ?_ hOuter.text
              rw [hText]
              simp
  · left
    match last with
    | [] => cases hLast
    | [_] =>
        injection hLast with _ hLast
        injection hLast with _ hLast
    | _ :: d :: last =>
        injection hLast with _ hLast
        injection hLast with hMark
        subst hMark
        refine absurd ?_ hOuter.charset
        rw [hCharset]
        simp

/- A word in two texts is in one of them. -/
theorem occurs_append
    {text next : Str}
    {token : Token}
    (hEnds : EndsWsp text)
    (hOpening : Opening next)
    (hOccurs : Occurs token (text ++ next)) :
    Occurs token text ∨ Occurs token next := by
  rcases hOccurs with ⟨hToken, front, after, hSplit⟩
  rcases List.append_eq_append_iff.mp hSplit with
    ⟨beyond, rfl, hBeyond⟩ | ⟨rest, rfl, hRest⟩
  · exact .inr ⟨hToken, beyond, after, hBeyond⟩
  by_cases hNil : rest = []
  · subst hNil
    exact .inr ⟨hToken, [], after, hRest.symm⟩
  · left
    have hWord := wordAt_written hToken after
    rw [hRest,
      wordAt_append hNil (.of_append front hEnds) hOpening]
      at hWord
    rcases Option.map_eq_some_iff.mp hWord with
      ⟨⟨token', after'⟩, hFound, hEq⟩
    cases hEq
    rcases wordAt_eq_some_iff.mp hFound with ⟨-, rfl⟩
    exact ⟨hToken, front, after', rfl⟩

theorem Occurs.append_left
    {token : Token}
    {text : Str}
    (hOccurs : Occurs token text)
    (front : Str) :
    Occurs token (front ++ text) := by
  rcases hOccurs with ⟨hToken, before, after, rfl⟩
  exact ⟨hToken, front ++ before, after, by simp⟩

theorem Occurs.append_right
    {token : Token}
    {text : Str}
    (hOccurs : Occurs token text)
    (rest : Str) :
    Occurs token (text ++ rest) := by
  rcases hOccurs with ⟨hToken, before, after, rfl⟩
  exact ⟨hToken, before, after ++ rest, by simp⟩

variable [Base64]

/- The second digit of a chunk is no mark. -/
theorem encode_second
    (hBase64 : Base64Laws)
    {chunk : Bytes}
    (hChunk : chunk ≠ [])
    {c : Char}
    {rest behind : Str}
    (hText : Base64.encode chunk ++ rest = c :: '?' :: behind) :
    False := by
  have hLength := hBase64.length chunk
  have hPos := List.length_pos_iff.mpr hChunk
  have hAlphabet := hBase64.alphabet chunk
  rcases hEncode : Base64.encode chunk with
    _ | ⟨a, _ | ⟨b, digits⟩⟩
  · rw [hEncode, List.length_nil] at hLength
    omega
  · rw [hEncode, List.length_singleton] at hLength
    omega
  · rw [hEncode] at hText hAlphabet
    injection hText with _ hText
    injection hText with hB
    subst hB
    rcases hAlphabet '?' (by simp) with h | h | h | h <;>
      revert h <;> decide

/-
  A word in what begins with a piece is the piece, or stands
  behind it, or begins with its padding.
-/
theorem occurs_piece
    (hBase64 : Base64Laws)
    {charset : Str}
    (hMark : '?' ∉ charset)
    {chunk : Bytes}
    (hChunk : chunk ≠ [])
    {more : Str}
    (hMore : StartsWsp more)
    {token : Token}
    (hOccurs :
      Occurs token ((piece charset chunk).written ++ more)) :
    token = piece charset chunk ∨
      Occurs token more ∨
        ((Base64.encode chunk).getLast? = some '=' ∧
          ∃ after,
            '=' :: '?' :: '=' :: more =
              token.written ++ after) := by
  rcases hOccurs with ⟨hToken, front, after, hSplit⟩
  have hPiece := piece_wellFormed hBase64 hMark chunk
  rcases List.append_eq_append_iff.mp hSplit with
    ⟨beyond, rfl, hBeyond⟩ | ⟨rest, hWritten, hRest⟩
  · exact .inr (.inl ⟨hToken, beyond, after, hBeyond⟩)
  rcases front with _ | ⟨e, front⟩
  · left
    have hHere := wordAt_written hPiece more
    rw [hSplit, List.nil_append, wordAt_written hToken]
      at hHere
    cases hHere
    rfl
  rcases rest with _ | ⟨c, _ | ⟨d, q⟩⟩
  · exact .inr (.inl ⟨hToken, [], after, hRest.symm⟩)
  · -- The last equals sign has a mark behind it.
    injection hRest with _ hHead
    cases hMore '?' (congrArg List.head? hHead.symm)
  injection hRest with hC hRest
  injection hRest with hD hRest
  subst hC hD
  rcases front with _ | ⟨f, front⟩
  · injection hWritten with _ hWritten
    injection hWritten with hWrong
    cases hWrong
  injection hWritten with _ hWritten
  injection hWritten with _ hInner
  rcases mark_inside hPiece hInner with rfl | ⟨hPad, rfl⟩
  · -- The charset would be `b`, and the text too short.
    exfalso
    have hEq :
        ['b'] ++ '?' ::
            (Base64.encode chunk ++ '?' :: '=' :: more) =
          token.charset ++ '?' ::
            (token.cte :: '?' ::
              (token.text ++ ['?', '='] ++ after)) := by
      simpa [piece] using hRest.symm
    rcases split_unique (by decide) hToken.charset hEq with
      ⟨-, hText⟩
    exact encode_second hBase64 hChunk hText
  · have hHere :
        ['='] ++ more =
          token.charset ++ '?' :: token.cte :: '?' ::
            (token.text ++ ['?', '=']) ++ after :=
      hRest.symm
    refine .inr (.inr ⟨hPad, after, ?_⟩)
    exact congrArg ('=' :: '?' :: ·) hHere

omit [Base64] in
/- Padding in front of a piece begins no word. -/
theorem not_padding
    {charset tail after : Str}
    (hCharset : IsCharset charset)
    {token : Token}
    (hToken : token.WellFormed)
    (hSplit :
      '=' :: '?' :: '=' :: ' ' ::
          ('=' :: '?' :: (charset ++ '?' :: tail)) =
        token.written ++ after) : False := by
  have hName :
      ['=', ' ', '='] ++ '?' :: (charset ++ '?' :: tail) =
        token.charset ++ '?' ::
          (token.cte :: '?' ::
            (token.text ++ ['?', '='] ++ after)) := by
    simpa [Token.written] using hSplit
  rcases split_unique (by decide) hToken.charset hName with
    ⟨-, hBehind⟩
  have hCte : '?' ∉ [token.cte] := by
    simpa using
      (transferEncoding_plain hToken.encoding).1.symm
  rcases split_unique hCharset.mark hCte hBehind with ⟨hSame, -⟩
  have hEncoding := hToken.encoding
  rw [hCharset.encoding token.cte hSame] at hEncoding
  cases hEncoding

/-
  Among the pieces there are only the pieces, and what the
  padding of the last one begins.
-/
theorem occurs_pieces
    (hBase64 : Base64Laws)
    {charset : Str}
    (hCharset : IsCharset charset)
    {chunks : List Bytes}
    (hChunks : ∀ chunk ∈ chunks, chunk ≠ [])
    (hNonempty : chunks ≠ [])
    {padding : Str}
    (hPadding :
      ∀ chunk ∈ chunks.getLast?,
        (Base64.encode chunk).getLast? = some '=' →
          padding = ['=', '?', '='])
    {output : Str}
    (hOutput : StartsWsp output)
    {token : Token}
    (hOccurs :
      Occurs token (writtenPieces charset chunks ++ output)) :
    (∃ chunk ∈ chunks, token = piece charset chunk) ∨
      Occurs token (padding ++ output) := by
  induction chunks with
  | nil => exact absurd rfl hNonempty
  | cons chunk chunks ih =>
      have hChunk := hChunks chunk List.mem_cons_self
      cases chunks with
      | nil =>
          rw [writtenPieces_singleton] at hOccurs
          have hToken := hOccurs.1
          rcases occurs_piece hBase64 hCharset.mark hChunk
              hOutput hOccurs with
            hEq | hLater | ⟨hPad, after, hHere⟩
          · exact .inl ⟨chunk, List.mem_cons_self, hEq⟩
          · exact .inr (hLater.append_left padding)
          · right
            rw [hPadding chunk rfl hPad]
            exact ⟨hToken, [], after, hHere⟩
      | cons chunk' chunks =>
          rw [writtenPieces_cons_cons] at hOccurs
          have hToken := hOccurs.1
          have hSpace :
              StartsWsp
                (' ' :: (writtenPieces charset
                  (chunk' :: chunks) ++ output)) := by
            intro c hHead
            cases hHead
            rfl
          rcases occurs_piece hBase64 hCharset.mark hChunk
              hSpace hOccurs with
            hEq | hLater | ⟨-, after, hHere⟩
          · exact .inl ⟨chunk, List.mem_cons_self, hEq⟩
          · rcases hLater with ⟨-, front, after, hSplit⟩
            cases front with
            | nil => cases hSplit
            | cons c front =>
                injection hSplit with _ hSplit
                refine
                  (ih
                    (fun chunk hMem =>
                      hChunks chunk
                        (List.mem_cons_of_mem _ hMem))
                    (List.cons_ne_nil _ _)
                    (by rwa [List.getLast?_cons_cons] at hPadding)
                    ⟨hToken, front, after, hSplit⟩).imp_left ?_
                rintro ⟨chunk'', hMem, hEq⟩
                exact
                  ⟨chunk'', List.mem_cons_of_mem _ hMem, hEq⟩
          · rcases
              opening_pieces hCharset
                (List.cons_ne_nil chunk' chunks) output with
              ⟨charset', tail, hCharset', hOpening⟩
            rw [hOpening] at hHere
            exact (not_padding hCharset' hToken hHere).elim

/- What starts with white space is forwarded so. -/
theorem Forwarded.startsWsp
    {input output : Str}
    (hForwarded : Forwarded input output)
    (hInput : StartsWsp input) :
    StartsWsp output := by
  cases hForwarded with
  | rest hShort => exact hInput
  | @split text input output token bytes chunks hShort hEnds
      hStarts hToken hLong hDecode hChunks hRest =>
      cases text with
      | nil => cases hInput '=' rfl
      | cons c text => exact hInput

end Mime

end MailgunRelay

------------------------------------------------------------
-- Runs
------------------------------------------------------------

namespace MailgunRelay

namespace Mime

variable [Base64]

/- The end of the last piece, where it is padded. -/
def Segment.padding (seg : Segment) : Str :=
  match seg with
  | .char _ => []
  | .word token =>
      match token.decode with
      | none => []
      | some bytes =>
          if lastSize token.charset bytes % 3 = 0 then
            []
          else
            ['=', '?', '=']

/-
  What stands between the words that are split, each with
  the padding in front of it.
-/
def runs (run : Str) : List Segment → List Str
| [] => [run]
| seg :: segs =>
    if seg.isLong then
      run :: runs seg.padding segs
    else
      runs (run ++ seg.written) segs

/- No word that is found there is too long. -/
def ShortRuns (value : Str) : Prop :=
  ∀ run ∈ runs [] (kept value),
    ∀ word ∈ encodedWords run,
      word.stop - word.start ≤ maxEncodedWord

omit [Base64] in
theorem allShort_iff
    {text : Str} :
    AllShort text ↔
      ∀ word ∈ encodedWords text,
        word.stop - word.start ≤ maxEncodedWord := by
  constructor
  · intro hShort word hMem
    rcases isWord_iff.mp (mem_encodedWords_iff.mp hMem) with
      ⟨token, front, after, hToken, hSplit, rfl⟩
    rw [Token.word, Nat.add_sub_cancel_left]
    exact hShort token ⟨hToken, front, after, hSplit⟩
  · rintro hWords token ⟨hToken, front, after, hSplit⟩
    have hShort :=
      hWords (token.word front.length)
        (mem_encodedWords_iff.mpr
          (isWord_iff.mpr
            ⟨token, front, after, hToken, hSplit, rfl⟩))
    rwa [Token.word, Nat.add_sub_cancel_left] at hShort

omit [Base64] in
theorem AllShort.of_append
    {front text : Str}
    (hShort : AllShort (front ++ text)) :
    AllShort front ∧ AllShort text :=
  ⟨fun token hOccurs => hShort token (hOccurs.append_right text),
    fun token hOccurs => hShort token (hOccurs.append_left front)⟩

theorem runs_short
    {front : List Segment}
    (hShort : ∀ seg ∈ front, seg.isLong = false)
    (run : Str)
    (segs : List Segment) :
    runs run (front ++ segs) =
      runs (run ++ spelled front) segs := by
  induction front generalizing run with
  | nil => rw [spelled, List.flatMap_nil, List.append_nil]; rfl
  | cons seg front ih =>
      have hHere := hShort seg List.mem_cons_self
      rw [List.cons_append, runs, hHere,
        if_neg Bool.false_ne_true,
        ih fun seg' hMem =>
          hShort seg' (List.mem_cons_of_mem _ hMem),
        List.append_assoc]
      rfl

theorem runs_text
    {text : Str}
    (hShort : AllShort text)
    (run : Str)
    (segs : List Segment) :
    runs run (segments text ++ segs) =
      runs (run ++ text) segs := by
  rw [runs_short (isLong_segments hShort), spelled_segments]

/- The padding of a word is the end of its pieces. -/
theorem padding_word
    (hPadding : PaddingLaws)
    {token : Token}
    {bytes : Bytes}
    {chunks : List Bytes}
    (hDecode : token.decode = some bytes)
    (hChunks : IsSplit token.charset bytes chunks)
    {chunk : Bytes}
    (hLast : chunk ∈ chunks.getLast?) :
    (Segment.word token).padding =
      if (Base64.encode chunk).getLast? = some '=' then
        ['=', '?', '=']
      else
        [] := by
  rw [Segment.padding, hDecode]
  dsimp only
  rw [← hChunks.last chunk hLast]
  have hPadded := hPadding.padded chunk
  by_cases hWhole : chunk.length % 3 = 0
  · rw [if_pos hWhole, if_neg fun hPad => hPadded.mp hPad hWhole]
  · rw [if_neg hWhole, if_pos (hPadded.mpr hWhole)]

/- Whatever pieces end with ends the text. -/
theorem writtenPieces_ends
    (charset : Str)
    {chunks : List Bytes}
    {chunk : Bytes}
    (hLast : chunk ∈ chunks.getLast?) :
    ∃ front,
      writtenPieces charset chunks =
        front ++ (piece charset chunk).written := by
  induction chunks with
  | nil => cases hLast
  | cons chunk' chunks ih =>
      cases chunks with
      | nil =>
          cases hLast
          exact ⟨[], writtenPieces_singleton charset chunk'⟩
      | cons chunk'' chunks =>
          rw [List.getLast?_cons_cons] at hLast
          rcases ih hLast with ⟨front, hFront⟩
          have hCons :=
            writtenPieces_cons_cons charset chunk' chunk''
              chunks []
          rw [List.append_nil, List.append_nil, hFront]
            at hCons
          refine
            ⟨(piece charset chunk').written ++ ' ' :: front, ?_⟩
          rw [hCons, List.append_assoc]
          rfl

theorem piece_ends
    {charset : Str}
    {chunk : Bytes}
    (hPad : (Base64.encode chunk).getLast? = some '=') :
    ∃ front,
      (piece charset chunk).written =
        front ++ ['=', '?', '='] := by
  rcases List.getLast?_eq_some_iff.mp hPad with
    ⟨digits, hDigits⟩
  exact
    ⟨'=' :: '?' ::
        (charset ++ '?' :: 'b' :: '?' :: digits), by
      simp [piece, Token.written, hDigits]⟩

/- So pieces end with it. -/
theorem padding_ends
    (hPadding : PaddingLaws)
    {token : Token}
    {bytes : Bytes}
    {chunks : List Bytes}
    (hDecode : token.decode = some bytes)
    (hChunks : IsSplit token.charset bytes chunks)
    {chunk : Bytes}
    (hLast : chunk ∈ chunks.getLast?) :
    ∃ front,
      writtenPieces token.charset chunks =
        front ++ (Segment.word token).padding := by
  rw [padding_word hPadding hDecode hChunks hLast]
  rcases writtenPieces_ends token.charset hLast with
    ⟨front, hFront⟩
  split
  · rename_i hPad
    rcases @piece_ends _ token.charset chunk hPad with
      ⟨before, hPiece⟩
    exact
      ⟨front ++ before, by
        rw [hFront, hPiece, List.append_assoc]⟩
  · exact
      ⟨writtenPieces token.charset chunks,
        (List.append_nil _).symm⟩

/-
  All words in what is forwarded are short when those in the
  runs are. The induction is on the words that are split;
  `run` is the text since the last one.
-/
theorem Forwarded.allShort_iff
    (hBase64 : Base64Laws)
    (hPadding : PaddingLaws)
    {input output : Str}
    (hForwarded : Forwarded input output)
    {run : Str}
    (hRun : EndsWsp run ∨ StartsWsp input) :
    AllShort (run ++ output) ↔
      ∀ text ∈ runs run (kept input), AllShort text := by
  induction hForwarded generalizing run with
  | @rest text hShort =>
      have hRuns :
          runs run (kept text) = [run ++ text] := by
        have hText := runs_text hShort run []
        rw [List.append_nil] at hText
        rw [kept_short hShort, hText]
        rfl
      rw [hRuns, List.forall_mem_singleton]
  | @split text input output token bytes chunks hShort hEnds
      hStarts hToken hLong hDecode hChunks hRest ih =>
      have hRun' : EndsWsp (run ++ text) := by
        rcases hRun with hRun | hInput
        · exact hRun.append hEnds
        · cases text with
          | nil => cases hInput '=' rfl
          | cons c text =>
              intro d hLast
              rw [List.getLast?_append] at hLast
              refine hEnds d ?_
              rw [Option.mem_def, ← hLast,
                List.getLast?_cons]
              rfl
      rw [kept_split hShort hEnds hToken hLong hDecode,
        runs_text hShort, ← List.append_assoc]
      split
      · rename_i hNil
        rw [hChunks.nil_iff.mpr hNil]
        exact ih (.inl hRun')
      · rename_i hSome
        have hNonempty : chunks ≠ [] :=
          fun hNil => hSome (hChunks.nil_iff.mp hNil)
        have hCharset :=
          isCharset_of_compatible hToken.charset
            (charset_of_decode hDecode)
        have hIsLong : (Segment.word token).isLong = true :=
          decide_eq_true hLong
        rw [runs, hIsLong, if_pos rfl, List.forall_mem_cons,
          ← ih (.inr hStarts)]
        rcases
          Option.ne_none_iff_exists'.mp
            (mt List.getLast?_eq_none_iff.mp hNonempty) with
          ⟨last, hLast⟩
        constructor
        · intro hAll
          rcases hAll.of_append with ⟨hText, hPieces⟩
          rcases padding_ends hPadding hDecode hChunks hLast with
            ⟨front, hFront⟩
          rw [hFront, List.append_assoc] at hPieces
          exact ⟨hText, hPieces.of_append.2⟩
        · rintro ⟨hText, hBehind⟩ found hOccurs
          rcases occurs_append hRun'
              (opening_pieces hCharset hNonempty output)
              hOccurs with
            hHere | hNext
          · exact hText found hHere
          have hPad :
              ∀ chunk ∈ chunks.getLast?,
                (Base64.encode chunk).getLast? = some '=' →
                  (Segment.word token).padding =
                    ['=', '?', '='] := by
            intro chunk hChunk hEquals
            rw [padding_word hPadding hDecode hChunks hChunk,
              if_pos hEquals]
          rcases occurs_pieces hBase64 hCharset
              hChunks.nonempty hNonempty hPad
              (hRest.startsWsp hStarts) hNext with
            ⟨chunk, hMem, rfl⟩ | hLater
          · exact hChunks.short chunk hMem
          · exact hBehind found hLater

end Mime

end MailgunRelay
