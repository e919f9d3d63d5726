import MailgunRelay.Mime.Found

/-
  When a header value is forwarded as it should be: it is
  refused for words that cannot be forwarded, and what is
  forwarded reads the same and holds no word that is too
  long.

  Key definitions include:
    * `MailgunRelay.Mime.Accepts`
    * `MailgunRelay.Mime.ForwardsWell`

  Key theorems include:
    * `MailgunRelay.Mime.forwardable_isSome_iff`
    * `MailgunRelay.Mime.forwardable_received`
-/

------------------------------------------------------------
-- Refusals
------------------------------------------------------------

namespace MailgunRelay

namespace Mime

/-
  Bytes a receiver would not read back: they hold `=?`,
  start or end with white space, or are an ASCII phrase with
  a special.
-/
def Misread (phrase : Bool) (bytes : Bytes) : Prop :=
  [61, 63] <:+: bytes ∨
    (bytes.head? = some 32 ∨ bytes.head? = some 9) ∨
    (bytes.getLast? = some 32 ∨ bytes.getLast? = some 9) ∨
    (phrase = true ∧ (∀ b ∈ bytes, b < 128) ∧
      ∃ b ∈ bytes, b ∈ utf8 specials)

theorem isMisread_iff
    {phrase : Bool}
    {bytes : Bytes} :
    isMisread phrase bytes = true ↔ Misread phrase bytes := by
  unfold isMisread Misread
  simp only [Bool.or_eq_true, Bool.and_eq_true, beq_iff_eq,
    List.all_eq_true, List.any_eq_true, decide_eq_true_eq,
    List.contains_iff_mem,
    Lib.Text.search_isSome_iff (List.cons_ne_nil _ _),
    or_assoc, and_assoc]

/- A word between white space starts in no other word. -/
theorem stop_le_start
    {value : Str}
    {outer inner : EncodedWord}
    (hOuter : IsWord value outer)
    (hInner : IsWord value inner)
    (hName :
      isAsciiCompatibleCharset (charsetName inner.charset) =
        true)
    (hDelimited : isDelimited value inner = true)
    (hOrder : outer.start < inner.start) :
    outer.stop ≤ inner.start := by
  rcases isWord_iff.mp hOuter with
    ⟨token, front, after, hToken, hSplit, rfl⟩
  rcases isWord_iff.mp hInner with
    ⟨token', front', after', hToken', hSplit', rfl⟩
  have hBefore : front.length < front'.length := hOrder
  show front.length + token.written.length ≤ front'.length
  by_contra hInside
  rcases
    wsp_of_isDelimited hSplit' (Nat.le_of_lt hBefore) hDelimited
    with ⟨hEnds, -⟩
  have hSame := hSplit.symm.trans hSplit'
  rcases List.append_eq_append_iff.mp hSame with
    ⟨mid, hFront', hRest⟩ | ⟨mid, hFront, -⟩
  · have hMid :
        between value front.length front'.length = mid := by
      rw [hSplit', hFront', between, List.append_assoc,
        List.drop_left, List.length_append,
        Nat.add_sub_cancel_left, List.take_left]
    rw [hMid] at hEnds
    have hLength : front'.length = front.length + mid.length := by
      rw [hFront', List.length_append]
    rcases List.append_eq_append_iff.mp hRest with
      ⟨beyond, hBeyond, -⟩ | ⟨rest, hWritten, hNext⟩
    · have hLonger := congrArg List.length hBeyond
      rw [List.length_append] at hLonger
      omega
    · refine
        not_straddles hToken (fun hNil => ?_) hEnds hWritten
          (Token.opening
            (isCharset_of_compatible hToken'.charset hName)
            after') hNext
      rw [hNil, List.length_nil] at hLength
      omega
  · have hLength := congrArg List.length hFront
    rw [List.length_append] at hLength
    omega

variable [Base64]

/-
  A word that is forwarded: it can be read and is not
  misread, and if it is too long it is split, outside of
  quotes and between white space.
-/
structure Passes
    (value : Str)
    (phrase isQuoted : Bool)
    (word : EncodedWord)
    (bytes : Bytes) : Prop where
  decodes : decodeWord word = some bytes
  plain : ¬ Misread phrase bytes
  split :
    maxEncodedWord < word.stop - word.start →
      isQuoted = false ∧ isDelimited value word = true ∧
        CanSplit word.charset bytes

/- All words of a value are such words. -/
def Accepts (value : Str) (phrase isQuoted : Bool) : Prop :=
  ∀ word ∈ encodedWords value,
    ∃ bytes, Passes value phrase isQuoted word bytes

theorem passes_of_forwardFrom
    {value : Str}
    {phrase isQuoted : Bool}
    {words : List EncodedWord}
    {copied : Nat}
    {out result : Str}
    (hForward :
      forwardFrom value phrase isQuoted copied out words =
        some result) :
    ∀ word ∈ words,
      ∃ bytes, Passes value phrase isQuoted word bytes := by
  induction words generalizing copied out with
  | nil => exact nofun
  | cons word words ih =>
      rw [forwardFrom] at hForward
      rcases Option.bind_eq_some_iff.mp hForward with
        ⟨bytes, hDecode, hForward⟩
      split at hForward
      · cases hForward
      rename_i hPlain
      rw [isMisread_iff] at hPlain
      split at hForward
      · rename_i hShort
        refine List.forall_mem_cons.mpr ⟨⟨bytes, ?_⟩, ih hForward⟩
        exact
          { decodes := hDecode
            plain := hPlain
            split := fun hLong =>
              absurd hShort (Nat.not_le.mpr hLong) }
      rename_i hLong
      split at hForward
      · cases hForward
      rename_i hPlace
      simp only [Bool.or_eq_true, not_or, Bool.not_eq_true,
        Bool.not_eq_false', decide_eq_false_iff_not,
        Nat.not_lt] at hPlace
      rcases hPlace with ⟨⟨hQuoted, hDelimited⟩, -⟩
      rcases Option.bind_eq_some_iff.mp hForward with
        ⟨pieces, hPieces, hForward⟩
      refine List.forall_mem_cons.mpr ⟨⟨bytes, ?_⟩, ih hForward⟩
      exact
        { decodes := hDecode
          plain := hPlain
          split := fun _ =>
            ⟨hQuoted, hDelimited,
              splitWord_isSome_iff.mp (by rw [hPieces]; rfl)⟩ }

/-
  The loop refuses no such word: what was copied ends where
  a later long word starts, or before.
-/
theorem forwardFrom_isSome
    {value : Str}
    {phrase isQuoted : Bool}
    (hAccepts : Accepts value phrase isQuoted)
    {done words : List EncodedWord}
    (hWords : encodedWords value = done ++ words)
    {copied : Nat}
    (hCopied :
      ∀ word ∈ words,
        maxEncodedWord < word.stop - word.start →
          copied ≤ word.start)
    (out : Str) :
    (forwardFrom value phrase isQuoted copied out
      words).isSome = true := by
  induction words generalizing done copied out with
  | nil => rfl
  | cons word words ih =>
      have hWord : word ∈ encodedWords value := by
        rw [hWords]
        simp
      have hNext :
          encodedWords value = (done ++ [word]) ++ words := by
        rw [hWords, List.append_assoc]
        rfl
      rcases hAccepts word hWord with ⟨bytes, hPasses⟩
      have hPlain : isMisread phrase bytes = false := by
        rw [Bool.eq_false_iff, ne_eq, isMisread_iff]
        exact hPasses.plain
      rw [forwardFrom, hPasses.decodes]
      simp only [Option.bind_eq_bind, Option.bind_some]
      rw [hPlain, if_neg Bool.false_ne_true]
      split
      · exact
          ih hNext
            (fun word' hMem =>
              hCopied word' (List.mem_cons_of_mem _ hMem)) out
      rename_i hLong
      rw [Nat.not_le] at hLong
      rcases hPasses.split hLong with
        ⟨hQuoted, hDelimited, hSplit⟩
      have hHere := hCopied word List.mem_cons_self hLong
      rcases
        Option.isSome_iff_exists.mp
          (splitWord_isSome_iff.mpr hSplit) with
        ⟨pieces, hPieces⟩
      subst hQuoted
      rw [hDelimited, hPieces,
        decide_eq_false (Nat.not_lt.mpr hHere)]
      show
        (forwardFrom value phrase false word.stop
          (out ++ between value copied word.start ++ pieces)
          words).isSome = true
      refine ih hNext ?_ _
      intro word' hMem hLong'
      have hWord' : word' ∈ encodedWords value := by
        rw [hNext]
        exact List.mem_append_right _ hMem
      rcases hAccepts word' hWord' with ⟨bytes', hPasses'⟩
      have hOrder := encodedWords_ordered value
      rw [hWords] at hOrder
      rcases List.pairwise_append.mp hOrder with ⟨-, hAfter, -⟩
      exact
        stop_le_start (mem_encodedWords_iff.mp hWord)
          (mem_encodedWords_iff.mp hWord')
          (decodeWord_eq_some_iff.mp hPasses'.decodes).1
          (hPasses'.split hLong').2.1
          ((List.pairwise_cons.mp hAfter).1 word' hMem)

/- A value is forwarded when all its words pass. -/
theorem forwardable_isSome_iff
    {value : Str}
    {phrase isQuoted : Bool} :
    (forwardable value phrase isQuoted).isSome = true ↔
      Accepts value phrase isQuoted := by
  constructor
  · intro hSome
    rcases Option.isSome_iff_exists.mp hSome with ⟨out, hOut⟩
    exact passes_of_forwardFrom hOut
  · intro hAccepts
    exact
      forwardFrom_isSome hAccepts (List.nil_append _).symm
        (fun _ _ _ => Nat.zero_le _) []

/- All words of a value that is forwarded are readable. -/
theorem Accepts.readable
    {value : Str}
    {phrase isQuoted : Bool}
    (hAccepts : Accepts value phrase isQuoted)
    {token : Token}
    (hMem : .word token ∈ segments value) :
    token.decode.isSome = true := by
  rcases mem_segments hMem with ⟨hToken, front, after, hSplit⟩
  have hWord :
      token.word front.length ∈ encodedWords value :=
    mem_encodedWords_iff.mpr
      (isWord_iff.mpr
        ⟨token, front, after, hToken, hSplit, rfl⟩)
  rcases hAccepts _ hWord with ⟨bytes, hPasses⟩
  have hDecode : token.decode = some bytes := hPasses.decodes
  rw [hDecode]
  rfl

end Mime

end MailgunRelay

------------------------------------------------------------
-- Forwarding
------------------------------------------------------------

namespace MailgunRelay

namespace Mime

variable [Base64]

/-
  A value with a word that cannot be read, or would be
  misread, is refused. What is forwarded is the value with
  its long words replaced by their pieces; a receiver reads
  the same bytes, and no word found in it is too long.
-/
structure ForwardsWell
    (value : Str)
    (phrase isQuoted : Bool) : Prop where
  refuses :
    ∀ word,
      IsWord value word →
        (decodeWord word = none ∨
          ∃ bytes, decodeWord word = some bytes ∧
            Misread phrase bytes) →
          forwardable value phrase isQuoted = none
  replaces :
    ∀ out,
      forwardable value phrase isQuoted = some out →
        Forwarded value out
  reads :
    ∀ out,
      forwardable value phrase isQuoted = some out →
        ∃ bytes,
          received value = some bytes ∧
            received out = some bytes
  short :
    ∀ out,
      forwardable value phrase isQuoted = some out →
        ∀ word ∈ encodedWords out,
          word.stop - word.start ≤ maxEncodedWord

theorem forwarded_of_forwardable
    (hBase64 : Base64Laws)
    {value out : Str}
    {phrase isQuoted : Bool}
    (hOut : forwardable value phrase isQuoted = some out) :
    Forwarded value out := by
  rcases
    forwarded_of_forwardFrom hBase64 hOut
      (List.nil_append _).symm nofun with
    ⟨tail, rfl, hForwarded⟩
  rw [List.drop_zero] at hForwarded
  exact hForwarded

theorem forwardable_refuses
    {value : Str}
    {phrase isQuoted : Bool}
    {word : EncodedWord}
    (hWord : IsWord value word)
    (hRefused :
      decodeWord word = none ∨
        ∃ bytes, decodeWord word = some bytes ∧
          Misread phrase bytes) :
    forwardable value phrase isQuoted = none := by
  rw [← Option.not_isSome_iff_eq_none, forwardable_isSome_iff]
  intro hAccepts
  rcases hAccepts word (mem_encodedWords_iff.mpr hWord) with
    ⟨bytes, hPasses⟩
  rcases hRefused with hNone | ⟨bytes', hBytes', hMisread⟩
  · rw [hPasses.decodes] at hNone
    cases hNone
  · rw [hPasses.decodes] at hBytes'
    cases hBytes'
    exact hPasses.plain hMisread

/-
  A value is forwarded as it should be exactly when it is
  refused, or leaving out its long words without bytes
  changes nothing of what is read, and no word that is too
  long is found between the words that are split.
-/
theorem forwardable_received
    (hBase64 : Base64Laws)
    (hPadding : PaddingLaws)
    (value : Str)
    (phrase isQuoted : Bool) :
    ForwardsWell value phrase isQuoted ↔
      (Accepts value phrase isQuoted →
        Undisturbed value ∧ ShortRuns value) := by
  have hShort {out : Str} (hForwarded : Forwarded value out) :
      (∀ word ∈ encodedWords out,
        word.stop - word.start ≤ maxEncodedWord) ↔
        ShortRuns value := by
    have hRuns :=
      hForwarded.allShort_iff hBase64 hPadding
        (.inl endsWsp_nil)
    rw [List.nil_append, allShort_iff] at hRuns
    rw [hRuns]
    exact forall₂_congr fun run _ => allShort_iff
  constructor
  · intro hWell hAccepts
    rcases
      Option.isSome_iff_exists.mp
        (forwardable_isSome_iff.mpr hAccepts) with
      ⟨out, hOut⟩
    have hForwarded := hWell.replaces out hOut
    rcases hWell.reads out hOut with ⟨bytes, hValue, hBytes⟩
    refine ⟨?_, (hShort hForwarded).mp (hWell.short out hOut)⟩
    rw [undisturbed_iff hForwarded fun _ => hAccepts.readable,
      ← hForwarded.received_eq hBase64, hBytes, hValue]
  · intro hGood
    have hWhen
        {out : Str}
        (hOut : forwardable value phrase isQuoted = some out) :
        Accepts value phrase isQuoted :=
      forwardable_isSome_iff.mp (by rw [hOut]; rfl)
    exact
      { refuses := fun word => forwardable_refuses
        replaces := fun out => forwarded_of_forwardable hBase64
        reads := fun out hOut => by
          have hAccepts := hWhen hOut
          have hForwarded := forwarded_of_forwardable hBase64 hOut
          rcases
            Option.isSome_iff_exists.mp
              (isSome_read (fun token => hAccepts.readable) none)
            with ⟨bytes, hBytes⟩
          refine ⟨bytes, hBytes, ?_⟩
          rw [hForwarded.received_eq hBase64,
            (undisturbed_iff hForwarded
              fun _ => hAccepts.readable).mp
              (hGood hAccepts).1]
          exact hBytes
        short := fun out hOut =>
          (hShort (forwarded_of_forwardable hBase64 hOut)).mpr
            (hGood (hWhen hOut)).2 }

omit [Base64] in
/- A long word that is cut in two. -/
theorem forwardable_received_long :
    let _ : Base64 := .standard
    let value :=
      "a =?utf-8?q?".toList ++ List.replicate 70 'x' ++
        "?= b".toList
    (forwardable value false false).isSome = true ∧
      ForwardsWell value false false := by
  intro _ value
  have hSame : segments (keptText value) = kept value := by
    decide +kernel
  have hBalanced : balanced false (segments value) = true := by
    decide +kernel
  have hRuns :
      ∀ run ∈ runs [] (kept value),
        ∀ word ∈ encodedWords run,
          word.stop - word.start ≤ maxEncodedWord := by
    decide +kernel
  refine ⟨by decide +kernel, ?_⟩
  exact
    (forwardable_received base64Laws_standard
      paddingLaws_standard value false false).mpr
      fun _ => ⟨.inl ⟨hSame, hBalanced⟩, hRuns⟩

omit [Base64] in
/-
  A long word that decodes to nothing is left out with the
  spaces around it, and one of them is then read twice. And
  the padding of a piece begins a word of 92 characters.
-/
theorem forwardable_drops_word :
    let _ : Base64 := .standard
    let value :=
      "=?utf-8?q?x?= =?utf-8?b?".toList ++
        List.replicate 64 '=' ++ "?= y".toList
    let padded :=
      "=?utf-8?q?".toList ++ List.replicate 70 'x' ++
        "?= abc?q?".toList ++ List.replicate 80 'y' ++
        "?=".toList
    (¬ ForwardsWell value false false ∧
      ∃ out,
        forwardable value false false = some out ∧
          received value = some (utf8 "x y".toList) ∧
          received out = some (utf8 "x  y".toList) ∧
          received out ≠ received value) ∧
    ¬ ForwardsWell padded false false := by
  intro _ value padded
  have hOut :
      forwardable value false false =
        some "=?utf-8?q?x?=  y".toList := by
    decide +kernel
  have hValue :
      received value = some (utf8 "x y".toList) := by
    decide +kernel
  have hRead :
      received "=?utf-8?q?x?=  y".toList =
        some (utf8 "x  y".toList) := by
    decide +kernel
  have hDiffer :
      utf8 "x  y".toList ≠ utf8 "x y".toList := by
    decide +kernel
  have hFound :
      ((forwardable padded false false).any fun out =>
        (encodedWords out).any fun word =>
          word.stop - word.start == 92) = true := by
    decide +kernel
  refine
    ⟨⟨fun hWell => ?_, _, hOut, hValue, hRead, ?_⟩,
      fun hWell => ?_⟩
  · rcases hWell.reads _ hOut with ⟨bytes, hBytes, hBytes'⟩
    rw [hValue] at hBytes
    rw [hRead] at hBytes'
    exact
      hDiffer
        ((Option.some.inj hBytes').trans
          (Option.some.inj hBytes).symm)
  · rw [hRead, hValue]
    exact fun hSame => hDiffer (Option.some.inj hSame)
  · rw [Option.any_eq_true] at hFound
    rcases hFound with ⟨out, hPadded, hAny⟩
    rcases List.any_eq_true.mp hAny with ⟨word, hMem, hLength⟩
    have hShort := hWell.short out hPadded word hMem
    rw [beq_iff_eq.mp hLength] at hShort
    exact absurd hShort (by decide)

end Mime

end MailgunRelay
