import MailgunRelay.Mime.Words

/-
  How a receiver reads a header value: encoded words are
  replaced by their bytes from left to right, and white
  space between two of them is dropped.

  Key definitions include:
    * `MailgunRelay.Mime.Token`
    * `MailgunRelay.Mime.wordAt`
    * `MailgunRelay.Mime.segments`
    * `MailgunRelay.Mime.received`

  Key theorems include:
    * `MailgunRelay.Mime.wordAt_eq_some_iff`
    * `MailgunRelay.Mime.segments_append`
    * `MailgunRelay.Mime.read_congr`
-/

------------------------------------------------------------
-- Words
------------------------------------------------------------

namespace MailgunRelay

namespace Mime

/- What an encoded word is written with. -/
structure Token where
  charset : Str
  cte : Char
  text : Str
  deriving DecidableEq

def Token.written (token : Token) : Str :=
  '=' :: '?' ::
    (token.charset ++ '?' :: token.cte :: '?' ::
      (token.text ++ ['?', '=']))

structure Token.WellFormed (token : Token) : Prop where
  charset : '?' ∉ token.charset
  text : '?' ∉ token.text
  encoding : (transferEncoding [token.cte]).isSome = true

/- The word at the beginning of a text, and the rest. -/
def wordAt : Str → Option (Token × Str)
| '=' :: '?' :: rest => do
    let (charset, rest) ← Lib.Text.splitOnce '?' rest
    match rest with
    | cte :: '?' :: rest =>
        if (transferEncoding [cte]).isSome then do
          let (text, rest) ← Lib.Text.splitOnce '?' rest
          match rest with
          | '=' :: after =>
              some
                ({ charset := charset
                   cte := cte
                   text := text }, after)
          | _ => none
        else
          none
    | _ => none
| _ => none

theorem wordAt_written
    {token : Token}
    (hToken : token.WellFormed)
    (after : Str) :
    wordAt (token.written ++ after) = some (token, after) := by
  have hCharset :
      Lib.Text.splitOnce '?'
          (token.charset ++ '?' :: (token.cte :: '?' ::
            (token.text ++ ['?', '=']) ++ after)) =
        some
          (token.charset, token.cte :: '?' ::
            (token.text ++ ['?', '=']) ++ after) :=
    (Lib.Text.splitOnce_eq_some_iff _ _ _ _).mpr
      ⟨rfl, hToken.charset⟩
  have hText :
      Lib.Text.splitOnce '?'
          (token.text ++ '?' :: ('=' :: after)) =
        some (token.text, '=' :: after) :=
    (Lib.Text.splitOnce_eq_some_iff _ _ _ _).mpr
      ⟨rfl, hToken.text⟩
  simp only [Token.written, wordAt, List.cons_append,
    List.append_assoc, List.nil_append] at hCharset hText ⊢
  simp only [hCharset, hText, hToken.encoding, if_true,
    Option.bind_eq_bind, Option.bind_some]

/- Whatever is found at the beginning is written there. -/
theorem wordAt_eq_some_iff
    {value after : Str}
    {token : Token} :
    wordAt value = some (token, after) ↔
      token.WellFormed ∧ value = token.written ++ after := by
  constructor
  · intro hSome
    unfold wordAt at hSome
    split at hSome
    · rename_i rest
      rcases Option.bind_eq_some_iff.mp hSome with
        ⟨⟨charset, rest₁⟩, hCharset, hSome⟩
      dsimp only at hSome
      split at hSome
      · rename_i cte rest₂
        split at hSome
        · rename_i hEncoding
          rcases Option.bind_eq_some_iff.mp hSome with
            ⟨⟨text, rest₃⟩, hText, hSome⟩
          dsimp only at hSome
          split at hSome
          · cases hSome
            rcases
              (Lib.Text.splitOnce_eq_some_iff _ _ _ _).mp
                hCharset with
              ⟨rfl, hNoMark⟩
            rcases
              (Lib.Text.splitOnce_eq_some_iff _ _ _ _).mp
                hText with
              ⟨rfl, hNoMark'⟩
            exact
              ⟨⟨hNoMark, hNoMark', hEncoding⟩, by
                simp [Token.written]⟩
          · cases hSome
        · cases hSome
      · cases hSome
    · cases hSome
  · rintro ⟨hToken, rfl⟩
    exact wordAt_written hToken after

/- A word is never empty. -/
theorem Token.length_written
    (token : Token) :
    token.written.length =
      token.charset.length + token.text.length + 7 := by
  simp only [Token.written, List.length_cons,
    List.length_append, List.length_nil]
  omega

theorem length_wordAt
    {value after : Str}
    {token : Token}
    (hSome : wordAt value = some (token, after)) :
    after.length < value.length := by
  rcases wordAt_eq_some_iff.mp hSome with ⟨-, rfl⟩
  rw [List.length_append, token.length_written]
  omega

end Mime

end MailgunRelay

------------------------------------------------------------
-- Reading
------------------------------------------------------------

namespace MailgunRelay

namespace Mime

/- A character of the text, or an encoded word. -/
inductive Segment where
  | char (c : Char)
  | word (token : Token)
  deriving DecidableEq

/- A value cut into its words and the text around them. -/
def segments (value : Str) : List Segment :=
  match _hWord : wordAt value with
  | some (token, after) => .word token :: segments after
  | none =>
      match value with
      | [] => []
      | c :: rest => .char c :: segments rest
termination_by value.length
decreasing_by
  · exact length_wordAt _hWord
  · simp

/- The word where it starts in a value. -/
def Token.word (token : Token) (start : Nat) : EncodedWord :=
  { start := start
    stop := start + token.written.length
    charset := token.charset
    base64 := (transferEncoding [token.cte]).getD false
    text := token.text }

variable [Base64]

/- The bytes of a word. -/
def Token.decode (token : Token) : Option Bytes :=
  decodeWord (token.word 0)

/-
  The bytes of a cut value; `gap` is the white space since
  the last word, if there is only that.
-/
def read (gap : Option Str) : List Segment → Option Bytes
| [] => some (utf8 (gap.getD []))
| .char c :: rest =>
    if gap.isSome && isWsp c then
      read (some (gap.getD [] ++ [c])) rest
    else do
      let bytes ← read none rest
      some (utf8 (gap.getD [] ++ [c]) ++ bytes)
| .word token :: rest => do
    let word ← token.decode
    let bytes ← read (some []) rest
    some (word ++ bytes)

/- What a receiver reads. -/
def received (value : Str) : Option Bytes :=
  read none (segments value)

/- What is read alike is read alike behind anything. -/
theorem read_congr
    {segs segs' : List Segment}
    (hAlike : ∀ gap, read gap segs = read gap segs')
    (front : List Segment) :
    ∀ gap, read gap (front ++ segs) =
      read gap (front ++ segs') := by
  induction front with
  | nil => exact hAlike
  | cons seg front ih =>
      intro gap
      cases seg with
      | char c => simp only [List.cons_append, read, ih]
      | word token => simp only [List.cons_append, read, ih]

/- A value is read when all its words are. -/
theorem isSome_read
    {segs : List Segment}
    (hWords :
      ∀ token, .word token ∈ segs →
        token.decode.isSome = true)
    (gap : Option Str) :
    (read gap segs).isSome = true := by
  induction segs generalizing gap with
  | nil => rfl
  | cons seg segs ih =>
      have hRest :=
        ih fun token hMem =>
          hWords token (List.mem_cons_of_mem _ hMem)
      cases seg with
      | char c =>
          rw [read]
          split
          · exact hRest _
          · rcases Option.isSome_iff_exists.mp (hRest none) with
              ⟨bytes, hBytes⟩
            rw [hBytes]
            rfl
      | word token =>
          rcases
            Option.isSome_iff_exists.mp
              (hWords token List.mem_cons_self) with
            ⟨word, hWord⟩
          rcases
            Option.isSome_iff_exists.mp (hRest (some [])) with
            ⟨bytes, hBytes⟩
          rw [read, hWord, hBytes]
          rfl

omit [Base64] in
theorem segments_written
    {token : Token}
    (hToken : token.WellFormed)
    (after : Str) :
    segments (token.written ++ after) =
      .word token :: segments after := by
  have hWord := wordAt_written hToken after
  conv_lhs => unfold segments
  split
  · rename_i hSome
    rw [hWord] at hSome
    cases hSome
    rfl
  · rename_i hNone
    rw [hWord] at hNone
    cases hNone

omit [Base64] in
theorem segments_char
    {c : Char}
    {rest : Str}
    (hNone : wordAt (c :: rest) = none) :
    segments (c :: rest) = .char c :: segments rest := by
  conv_lhs => unfold segments
  split
  · rename_i hSome
    rw [hNone] at hSome
    cases hSome
  · rfl

omit [Base64] in
theorem segments_nil : segments [] = [] := by
  unfold segments
  rfl

omit [Base64] in
/- The words of a cut value stand in it. -/
theorem mem_segments
    {value : Str}
    {token : Token}
    (hMem : .word token ∈ segments value) :
    token.WellFormed ∧
      ∃ front after,
        value = front ++ (token.written ++ after) := by
  fun_induction segments value with
  | case1 value token' after hWord ih =>
      rcases wordAt_eq_some_iff.mp hWord with ⟨hToken, rfl⟩
      rcases List.mem_cons.mp hMem with hHere | hLater
      · cases hHere
        exact ⟨hToken, [], after, rfl⟩
      · rcases ih hLater with ⟨hToken', front, after', hSplit⟩
        exact
          ⟨hToken', token'.written ++ front, after', by
            rw [hSplit, List.append_assoc]⟩
  | case2 => cases hMem
  | case3 c rest hNone ih =>
      rcases List.mem_cons.mp hMem with hHere | hLater
      · cases hHere
      · rcases ih hLater with ⟨hToken', front, after', hSplit⟩
        exact ⟨hToken', c :: front, after', by rw [hSplit]; rfl⟩

end Mime

end MailgunRelay

------------------------------------------------------------
-- Joining
------------------------------------------------------------

namespace MailgunRelay

namespace Mime

/- A charset that is no part of another word. -/
structure IsCharset (charset : Str) : Prop where
  mark : '?' ∉ charset
  nonempty : charset ≠ []
  equals : charset.head? ≠ some '='
  encoding :
    ∀ c, charset = [c] → transferEncoding [c] = none

/- A text that begins like a word in such a charset. -/
def Opening (text : Str) : Prop :=
  ∃ charset after,
    IsCharset charset ∧
      text = '=' :: '?' :: (charset ++ '?' :: after)

/- White space is at the end, if anything. -/
def EndsWsp (text : Str) : Prop :=
  ∀ c ∈ text.getLast?, isWsp c = true

theorem Token.opening
    {token : Token}
    (hCharset : IsCharset token.charset)
    (after : Str) :
    Opening (token.written ++ after) :=
  ⟨token.charset,
    token.cte :: '?' :: (token.text ++ ['?', '='] ++ after),
    hCharset, by simp [Token.written]⟩

/- The end of a longer text. -/
theorem EndsWsp.of_append
    (front : Str)
    {text : Str}
    (hEnds : EndsWsp (front ++ text)) :
    EndsWsp text := by
  intro c hLast
  refine hEnds c ?_
  rw [List.getLast?_append, Option.mem_def.mp hLast]
  rfl

/- A text that ends in something else. -/
theorem not_endsWsp
    {text : Str}
    {c : Char}
    (hLast : text.getLast? = some c)
    (hOther : isWsp c = false) :
    ¬ EndsWsp text := by
  intro hEnds
  have hWsp := hEnds c hLast
  rw [hOther] at hWsp
  cases hWsp

theorem transferEncoding_plain
    {cte : Char}
    (hSome : (transferEncoding [cte]).isSome = true) :
    cte ≠ '?' ∧ isWsp cte = false := by
  constructor
  · rintro rfl
    cases hSome
  · rw [Bool.eq_false_iff]
    intro hWsp
    simp only [isWsp, Bool.or_eq_true, beq_iff_eq] at hWsp
    rcases hWsp with rfl | rfl <;> cases hSome

/- Where a list splits at its first mark. -/
theorem split_unique
    {left left' right right' : Str}
    (hLeft : '?' ∉ left)
    (hLeft' : '?' ∉ left')
    (hEq : left ++ '?' :: right = left' ++ '?' :: right') :
    left = left' ∧ right = right' := by
  have hSplit :=
    (Lib.Text.splitOnce_eq_some_iff '?' _ left right).mpr
      ⟨rfl, hLeft⟩
  rw [hEq, (Lib.Text.splitOnce_eq_some_iff '?' _ left'
    right').mpr ⟨rfl, hLeft'⟩] at hSplit
  cases hSplit
  exact ⟨rfl, rfl⟩

/-
  White space inside a word is in its charset or its text.
-/
theorem written_split
    {token : Token}
    (hToken : token.WellFormed)
    {front rest : Str}
    (hNonempty : front ≠ [])
    (hEnds : EndsWsp front)
    (hSplit : token.written = front ++ rest) :
    (∃ more, '?' ∉ more ∧
      rest =
        more ++ '?' :: token.cte :: '?' ::
          (token.text ++ ['?', '='])) ∨
    (∃ more, '?' ∉ more ∧ rest = more ++ ['?', '=']) := by
  have hCte := transferEncoding_plain hToken.encoding
  match front with
  | [] => exact absurd rfl hNonempty
  | ['='] => exact absurd hEnds (not_endsWsp rfl (by decide))
  | c :: d :: tail =>
      rw [Token.written, List.cons_append,
        List.cons_append] at hSplit
      injection hSplit with hFirst hSplit
      injection hSplit with hSecond hSplit
      subst hFirst hSecond
      have hTail : EndsWsp tail :=
        .of_append ['=', '?'] hEnds
      rcases List.append_eq_append_iff.mp hSplit with
        ⟨beyond, rfl, hBeyond⟩ | ⟨more, hMore, rfl⟩
      · have hBeyondEnds : EndsWsp beyond := .of_append _ hTail
        match beyond with
        | [] => exact .inl ⟨[], nofun, hBeyond.symm⟩
        | [mark] =>
            cases hBeyond
            exact
              absurd hBeyondEnds (not_endsWsp rfl (by decide))
        | [mark, cte] =>
            cases hBeyond
            exact
              absurd hBeyondEnds (not_endsWsp rfl hCte.2)
        | mark :: cte :: mark' :: beyond =>
            injection hBeyond with hMark hBeyond
            injection hBeyond with hCteEq hBeyond
            injection hBeyond with hMark' hBeyond
            subst hMark hMark'
            right
            rcases List.append_eq_append_iff.mp hBeyond with
              ⟨last, rfl, hLast⟩ | ⟨more, hMore, rfl⟩
            · have hLastEnds : EndsWsp last :=
                .of_append ('?' :: cte :: '?' :: token.text)
                  hBeyondEnds
              match last with
              | [] => exact ⟨[], nofun, hLast.symm⟩
              | [mark] =>
                  cases hLast
                  exact
                    absurd hLastEnds
                      (not_endsWsp rfl (by decide))
              | [mark, equals] =>
                  cases hLast
                  exact
                    absurd hLastEnds
                      (not_endsWsp rfl (by decide))
              | _ :: _ :: _ :: _ => cases hLast
            · refine ⟨more, fun hMem => ?_, rfl⟩
              refine hToken.text ?_
              rw [hMore]
              exact List.mem_append_right _ hMem
      · refine .inl ⟨more, fun hMem => ?_, rfl⟩
        refine hToken.charset ?_
        rw [hMore]
        exact List.mem_append_right _ hMem

/- What begins like a word ends no word in front of it. -/
theorem not_straddles
    {token : Token}
    (hToken : token.WellFormed)
    {front rest after next : Str}
    (hNonempty : front ≠ [])
    (hEnds : EndsWsp front)
    (hSplit : token.written = front ++ rest)
    (hOpening : Opening next)
    (hNext : next = rest ++ after) : False := by
  rcases hOpening with ⟨charset, tail, hCharset, rfl⟩
  have hEquals : '?' ∉ ['='] := by decide
  rcases written_split hToken hNonempty hEnds hSplit with
    ⟨more, hMore, rfl⟩ | ⟨more, hMore, rfl⟩
  · -- The charset would be a transfer encoding.
    have hMark :
        ['='] ++ '?' :: (charset ++ '?' :: tail) =
          more ++ '?' :: (token.cte :: '?' ::
            (token.text ++ ['?', '=']) ++ after) := by
      simpa using hNext
    have hCte : '?' ∉ [token.cte] := by
      simpa using
        (transferEncoding_plain hToken.encoding).1.symm
    have hMark' :
        charset ++ '?' :: tail =
          [token.cte] ++ '?' ::
            (token.text ++ ['?', '='] ++ after) := by
      simpa using (split_unique hEquals hMore hMark).2
    have hName :=
      (split_unique hCharset.mark hCte hMark').1
    have hEncoding := hToken.encoding
    rw [hCharset.encoding token.cte hName] at hEncoding
    cases hEncoding
  · -- The charset would start with an equals sign.
    have hMark :
        ['='] ++ '?' :: (charset ++ '?' :: tail) =
          more ++ '?' :: ('=' :: after) := by
      simpa using hNext
    have hBehind := (split_unique hEquals hMore hMark).2
    cases charset with
    | nil => exact hCharset.nonempty rfl
    | cons c charset =>
        injection hBehind with hFirst
        exact hCharset.equals (by rw [hFirst]; rfl)

/- Words in front of a word are found as if it was not. -/
theorem wordAt_append
    {text next : Str}
    (hNonempty : text ≠ [])
    (hEnds : EndsWsp text)
    (hOpening : Opening next) :
    wordAt (text ++ next) =
      (wordAt text).map fun p => (p.1, p.2 ++ next) := by
  cases hWord : wordAt text with
  | some found =>
      rcases found with ⟨token, after⟩
      rcases wordAt_eq_some_iff.mp hWord with ⟨hToken, rfl⟩
      rw [List.append_assoc, wordAt_written hToken]
      rfl
  | none =>
      cases hBoth : wordAt (text ++ next) with
      | none => rfl
      | some found =>
          exfalso
          rcases found with ⟨token, after⟩
          rcases wordAt_eq_some_iff.mp hBoth with
            ⟨hToken, hSplit⟩
          rcases List.append_eq_append_iff.mp hSplit with
            ⟨rest, hWritten, hNext⟩ | ⟨rest, rfl, -⟩
          · exact
              not_straddles hToken hNonempty hEnds hWritten
                hOpening hNext
          · rw [wordAt_written hToken] at hWord
            cases hWord

/- A value is cut in front of a word. -/
theorem segments_append
    {text next : Str}
    (hEnds : EndsWsp text)
    (hOpening : Opening next) :
    segments (text ++ next) =
      segments text ++ segments next := by
  fun_induction segments text with
  | case1 text token after hWord ih =>
      rcases wordAt_eq_some_iff.mp hWord with ⟨hToken, rfl⟩
      rw [List.append_assoc, segments_written hToken,
        ih (.of_append _ hEnds)]
      rfl
  | case2 => rfl
  | case3 c rest hNone ih =>
      have hJoined :=
        wordAt_append (List.cons_ne_nil c rest) hEnds hOpening
      rw [hNone, List.cons_append] at hJoined
      rw [List.cons_append, segments_char hJoined,
        ih (.of_append [c] hEnds)]
      rfl

end Mime

end MailgunRelay
