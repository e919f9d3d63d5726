import MailgunRelay.Address.Lists
import MailgunRelay.Mime.Injection

/-
  What an address header says: the parser reads it, with its
  folds removed, as the mailboxes it was written for, with
  the same addresses in the same order, and a display name
  without encoded words as its text.

  Key definitions include:
    * `MailgunRelay.wordsOf`
    * `MailgunRelay.Mime.readDisplay`
    * `MailgunRelay.Mime.ReadsAs`
    * `MailgunRelay.Mime.SaysSame`

  Key theorems include:
    * `MailgunRelay.phrase_words`
    * `MailgunRelay.Mime.received_writtenWords`
    * `MailgunRelay.Mime.parseMailbox_written`
    * `MailgunRelay.Mime.addressHeader_says`
-/

------------------------------------------------------------
-- Words Between White Space
------------------------------------------------------------

namespace MailgunRelay

/- The words of a text. -/
def wordsOf (text : Str) : List Str :=
  (text.splitOnP isWsp).filter fun s => !s.isEmpty

theorem wordsOf_wsp
    {c : Char}
    (hWsp : isWsp c = true)
    (text : Str) :
    wordsOf (c :: text) = wordsOf text := by
  unfold wordsOf
  rw [List.splitOnP_cons_eq_if_modifyHead, if_pos hWsp]
  rfl

/- A word ends at white space or with the text. -/
theorem wordsOf_word
    {word rest : Str}
    (hNonempty : word ≠ [])
    (hWord : ∀ c ∈ word, isWsp c = false)
    (hRest : ∀ c ∈ rest.head?, isWsp c = true) :
    wordsOf (word ++ rest) = word :: wordsOf rest := by
  have hKept : (!word.isEmpty) = true := by
    simpa using hNonempty
  cases rest with
  | nil =>
      unfold wordsOf
      rw [List.append_nil, List.splitOnP_eq_singleton hWord,
        List.filter_cons, if_pos hKept]
      rfl
  | cons c rest =>
      have hWsp := hRest c rfl
      rw [wordsOf_wsp hWsp]
      unfold wordsOf
      rw [List.splitOnP_append_cons_of_forall_mem hWord c hWsp,
        List.filter_cons, if_pos hKept]

/- Words with single spaces between them. -/
theorem wordsOf_intercalate
    {words : List Str}
    (hWords : ∀ word ∈ words,
      word ≠ [] ∧ ∀ c ∈ word, isWsp c = false) :
    wordsOf ([' '].intercalate words) = words := by
  induction words with
  | nil => rfl
  | cons word words ih =>
      rcases hWords word List.mem_cons_self with
        ⟨hNonempty, hWord⟩
      have hRest := ih fun other hMem =>
        hWords other (List.mem_cons_of_mem word hMem)
      cases words with
      | nil =>
          have hOne :=
            @wordsOf_word word [] hNonempty hWord nofun
          rw [List.append_nil] at hOne
          rw [List.intercalate_singleton, hOne]
          rfl
      | cons second words =>
          rw [List.intercalate_cons_cons, List.append_assoc,
            wordsOf_word hNonempty hWord, List.singleton_append,
            wordsOf_wsp rfl, hRest]
          intro c hHead
          cases hHead
          rfl

theorem cfws_of_wsp
    {ws : Str}
    (hWsp : ws.all isWsp = true) :
    Cfws ws [] := by
  induction ws with
  | nil => exact .nil
  | cons c ws ih =>
      rw [List.all_cons, Bool.and_eq_true] at hWsp
      exact .wsp hWsp.1 (ih hWsp.2)

/- A character of an unquoted display name. -/
def isPhraseChar (c : Char) : Bool :=
  isWsp c || isWordChar c

/- A word in front of a phrase. -/
theorem phrase_cons_word
    {word after before inner : Str}
    {words : List Str}
    (hNonempty : word ≠ [])
    (hWord : word.all isWordChar = true)
    (hHead : ∀ c ∈ after.head?, isWsp c = true)
    (hSplit : after ++ [' '] = before ++ inner)
    (hBefore : before.all isWsp = true)
    (hPhrase : Phrase inner words []) :
    Phrase (word ++ (before ++ inner)) (word :: words) [] := by
  apply Phrase.word hNonempty hWord (cfws_of_wsp hBefore) _
    hPhrase
  rw [← hSplit]
  intro c hMem
  have hSpace : isWsp c = true := by
    cases after with
    | nil =>
        cases hMem
        rfl
    | cons d after => exact hHead c hMem
  unfold isWordChar
  rw [hSpace]
  rfl

/-
  Words between white space are a phrase, which starts after
  the white space in front of it.
-/
theorem phrase_words
    {text : Str}
    (hChars : text.all isPhraseChar = true) :
    ∃ before inner,
      text ++ [' '] = before ++ inner ∧
        before.all isWsp = true ∧
        Phrase inner (wordsOf text) [] := by
  induction hLength : text.length using Nat.strong_induction_on
    generalizing text with
  | _ n ih =>
      subst hLength
      cases text with
      | nil => exact ⟨[' '], [], rfl, rfl, .nil⟩
      | cons c rest =>
          rw [List.all_cons, Bool.and_eq_true] at hChars
          rcases hChars with ⟨hFirst, hRest⟩
          by_cases hWsp : isWsp c = true
          · rcases
              ih rest.length (Nat.lt_succ_self _) hRest rfl with
              ⟨before, inner, hSplit, hBefore, hPhrase⟩
            refine ⟨c :: before, inner, ?_, ?_, ?_⟩
            · rw [List.cons_append, hSplit, List.cons_append]
            · rw [List.all_cons, hWsp, hBefore]
              rfl
            · rw [wordsOf_wsp hWsp]
              exact hPhrase
          · -- A word, and then white space or the end.
            have hWord :
                (c :: rest.takeWhile isWordChar).all isWordChar =
                  true := by
              unfold isPhraseChar at hFirst
              rw [List.all_cons, List.all_takeWhile]
              simpa [hWsp] using hFirst
            have hSplit :
                c :: rest =
                  (c :: rest.takeWhile isWordChar) ++
                    rest.dropWhile isWordChar := by
              rw [List.cons_append,
                List.takeWhile_append_dropWhile]
            have hHead := List.head?_dropWhile_not isWordChar rest
            have hShort :=
              List.length_dropWhile_le isWordChar rest
            have hLater :
                (rest.dropWhile isWordChar).all isPhraseChar =
                  true := by
              rw [List.all_eq_true] at hRest ⊢
              exact fun d hMem =>
                hRest d ((List.dropWhile_sublist _).mem hMem)
            generalize rest.dropWhile isWordChar = after
              at hSplit hHead hShort hLater
            have hNonempty := List.cons_ne_nil c
              (rest.takeWhile isWordChar)
            generalize c :: rest.takeWhile isWordChar = word
              at hSplit hWord hNonempty
            have hSpace : ∀ d ∈ after.head?, isWsp d = true := by
              intro d hMem
              rw [Option.mem_def.mp hMem] at hHead
              have hChar := List.all_eq_true.mp hLater d
                (List.mem_of_mem_head? hMem)
              unfold isPhraseChar at hChar
              simpa [hHead] using hChar
            rcases
              ih after.length (Nat.lt_succ_of_le hShort) hLater rfl
              with ⟨before, inner, hAfter, hBefore, hPhrase⟩
            refine ⟨[], word ++ (before ++ inner), ?_, rfl, ?_⟩
            · rw [hSplit, List.append_assoc, hAfter,
                List.nil_append]
            · rw [hSplit, wordsOf_word hNonempty _ hSpace]
              · exact
                  phrase_cons_word hNonempty hWord hSpace hAfter
                    hBefore hPhrase
              · intro d hMem
                exact
                  (isWordChar_endsCfws
                    (List.all_eq_true.mp hWord d hMem)).1

/- A quoted text is a phrase of that text. -/
theorem quotedText_escaped
    (text : Str) :
    QuotedText
      (text.flatMap fun c =>
        if c = '\\' ∨ c = '"' then ['\\', c] else [c])
      text := by
  induction text with
  | nil => exact .nil
  | cons c text ih =>
      rw [List.flatMap_cons]
      by_cases hEscape : c = '\\' ∨ c = '"'
      · rw [if_pos hEscape]
        exact .escape ih
      · rw [if_neg hEscape]
        rw [not_or] at hEscape
        exact .plain hEscape.2 hEscape.1 ih

end MailgunRelay

------------------------------------------------------------
-- Display Names
------------------------------------------------------------

namespace MailgunRelay

namespace Mime

variable [Base64]

/- What a display name without encoded words is read as. -/
def readDisplay (display : Str) : Str :=
  if needsQuotes display then display else collapse display

/-
  A name that is read says a text: it is the text, or words
  of the writer that are decoded to it.
-/
inductive ReadsAs (text : Str) : Str → Prop where
  | same : ReadsAs text text
  | words
      {words : List (Token × Bytes)}
      (hWords : EncodesText text words)
      (hReceived :
        received (writtenWords words) = some (utf8 text)) :
      ReadsAs text (writtenWords words)

omit [Base64] in
/- A word of the writer stands for itself. -/
theorem OwnWord.wellFormed
    {token : Token}
    (hOwn : OwnWord token) :
    token.WellFormed := by
  constructor
  · rw [hOwn.charset]
    decide
  · intro hMem
    rcases hOwn.text _ hMem with hAlnum | hMark | hMark | hMark
    · cases hAlnum
    · cases hMark
    · cases hMark
    · cases hMark
  · rw [hOwn.encoding]
    rfl

/- What encoded words say is read back one word at a time, the
   spaces between them dropped. -/
theorem read_writtenWords
    {words : List (Token × Bytes)}
    (hOwn : ∀ word ∈ words, OwnWord word.1)
    (hDecoded : ∀ word ∈ words, word.1.decode = some word.2)
    (gap : Option Str)
    (hGap : words = [] → gap.getD [] = []) :
    read gap (segments (writtenWords words)) =
      some (words.map Prod.snd).flatten := by
  induction words generalizing gap with
  | nil =>
      show read gap (segments []) = some []
      rw [segments_nil, read, hGap rfl]
      rfl
  | cons word words ih =>
      have hRest :=
        ih (fun w hMem => hOwn w (List.mem_cons_of_mem _ hMem))
          fun w hMem => hDecoded w (List.mem_cons_of_mem _ hMem)
      have hForm :=
        (hOwn word List.mem_cons_self).wellFormed
      have hWord := hDecoded word List.mem_cons_self
      unfold writtenWords at hRest ⊢
      cases words with
      | nil =>
          have hSegments := segments_written hForm []
          rw [List.append_nil, segments_nil] at hSegments
          rw [List.map_cons, List.map_nil,
            List.intercalate_singleton, hSegments, read, hWord]
          simp [read, utf8]
      | cons second words =>
          -- The space between two words is dropped.
          rw [List.map_cons, List.map_cons,
            List.intercalate_cons_cons, List.append_assoc,
            segments_written hForm, List.singleton_append,
            segments_char rfl, read, hWord]
          have hSpace (segs : List Segment) :
              read (some []) (.char ' ' :: segs) =
                read (some [' ']) segs := by
            rw [read]
            rfl
          rw [hSpace]
          rw [List.map_cons] at hRest
          rw [hRest (some [' ']) (fun hNil => by cases hNil)]
          rfl

/- The words of the writer are read as their text. -/
theorem received_writtenWords
    {text : Str}
    {words : List (Token × Bytes)}
    (hWords : EncodesText text words) :
    received (writtenWords words) = some (utf8 text) := by
  rw [← hWords.whole]
  exact read_writtenWords hWords.own hWords.decoded none
    fun _ => rfl

end Mime

end MailgunRelay

------------------------------------------------------------
-- Written Mailboxes
------------------------------------------------------------

namespace MailgunRelay

namespace Mime

/- Printable text holds no forbidden characters. -/
theorem control_of_plain
    {text : Str}
    (hPlain : text.all isPlainChar = true) :
    containsForbiddenControlChars text = false := by
  unfold containsForbiddenControlChars
  rw [List.any_eq_false]
  intro c hMem hControl
  have hChar := List.all_eq_true.mp hPlain c hMem
  have hNot :=
    forall_ascii
      (P := fun c => isPlainChar c = true →
        isForbiddenControl c = false)
      (by decide +kernel) (isPlainChar_ascii hChar) hChar
  rw [hNot] at hControl
  cases hControl

/- Unquoted printable text consists of words. -/
theorem phraseChar_of_plain
    {c : Char}
    (hPlain : isPlainChar c = true)
    (hSpecial : specials.contains c = false) :
    isPhraseChar c = true := by
  exact
    forall_ascii
      (P := fun c => isPlainChar c = true →
        specials.contains c = false → isPhraseChar c = true)
      (by decide +kernel) (isPlainChar_ascii hPlain) hPlain
      hSpecial

/- An at sign is no part of a phrase. -/
theorem not_at_of_phrase
    {text : Str}
    (hChars : text.all isPhraseChar = true) :
    '@' ∉ text := by
  intro hMem
  have hAt := List.all_eq_true.mp hChars '@' hMem
  revert hAt
  decide

variable [Base64]

theorem writtenWords_phrase
    {text : Str}
    {words : List (Token × Bytes)}
    (hWords : EncodesText text words) :
    (writtenWords words).all isPhraseChar = true := by
  rw [List.all_eq_true]
  intro c hMem
  rcases hWords.chars hMem with hOwn | rfl
  · rcases isOwnChar_spec hOwn with ⟨hPlain, -, hSpecial⟩
    exact phraseChar_of_plain hPlain hSpecial
  · rfl

/- The words of the writer are the words that are read. -/
theorem wordsOf_writtenWords
    {text : Str}
    {words : List (Token × Bytes)}
    (hWords : EncodesText text words) :
    wordsOf (writtenWords words) =
      words.map fun word => word.1.written := by
  apply wordsOf_intercalate
  intro written hMem
  rcases List.mem_map.mp hMem with ⟨word, hWord, rfl⟩
  refine ⟨List.cons_ne_nil _ _, fun c hChar => ?_⟩
  exact
    (isWordChar_endsCfws
      (isOwnChar_spec
        ((hWords.own word hWord).chars hChar)).2.1).1

/- What is forwarded of an unquoted name is a phrase. -/
theorem forwardable_phrase
    (hBase64 : Base64Laws)
    {display text : Str}
    (hPlain : display.all isPlainChar = true)
    (hQuotes : needsQuotes display = false)
    (hForward :
      forwardable display true false = some text) :
    text.all isPhraseChar = true := by
  rw [List.all_eq_true]
  intro c hMem
  rcases forwardable_chars hBase64 hForward hMem with
    hChar | hOwn | rfl
  · apply phraseChar_of_plain
      (List.all_eq_true.mp hPlain c hChar)
    rw [needsQuotes, List.any_eq_false] at hQuotes
    simpa using hQuotes c hChar
  · rcases isOwnChar_spec hOwn with ⟨hOwnPlain, -, hSpecial⟩
    exact phraseChar_of_plain hOwnPlain hSpecial
  · rfl

omit [Base64] in
/- An unquoted text is a phrase of its words. -/
theorem phrase_of_text
    {text lead : Str}
    (hLead : lead.all isWsp = true)
    (hChars : text.all isPhraseChar = true) :
    ∃ before inner,
      lead ++ (text ++ [' ']) = before ++ inner ∧
        before.all isWsp = true ∧
        Phrase inner (wordsOf text) [] ∧
        '@' ∉ inner := by
  rcases phrase_words hChars with
    ⟨before, inner, hSplit, hBefore, hPhrase⟩
  refine ⟨lead ++ before, inner, ?_, ?_, hPhrase, ?_⟩
  · rw [hSplit, List.append_assoc]
  · rw [List.all_append, hLead, hBefore]
    rfl
  · intro hMem
    have hAt : '@' ∈ text ++ [' '] := by
      rw [hSplit]
      exact List.mem_append_right before hMem
    rcases List.mem_append.mp hAt with hText | hSpace
    · exact not_at_of_phrase hChars hText
    · revert hSpace
      decide

/-
  The phrase of a display name as it is written, behind
  white space, and the name it is read as.
-/
theorem phrase_of_written
    (hBase64 : Base64Laws)
    {display text lead : Str}
    (hLead : lead.all isWsp = true)
    (hWritten : WrittenDisplay display text) :
    ∃ before inner words,
      lead ++ (text ++ [' ']) = before ++ inner ∧
        before.all isWsp = true ∧
        Phrase inner words [] ∧
        (∀ rest, '@' ∉ (inner ++ '<' :: rest).takeWhile
          isAddrChar) ∧
        (encodedWords display = [] →
          ReadsAs (readDisplay display)
            ([' '].intercalate words)) := by
  have hRun {inner : Str} (hAt : '@' ∉ inner) (rest : Str) :
      '@' ∉ (inner ++ '<' :: rest).takeWhile isAddrChar := by
    have hEnd : ('<' :: rest).takeWhile isAddrChar = [] := rfl
    intro hMem
    rw [List.takeWhile_append, hEnd, List.append_nil] at hMem
    split at hMem
    · exact hAt hMem
    · exact hAt ((List.takeWhile_sublist _).mem hMem)
  cases hWritten with
  | @received text hPlain hForward =>
      cases hQuotes : needsQuotes display with
      | true =>
          rw [hQuotes] at hForward
          have hSame := forwardable_quoted hForward
          subst hSame
          have hQuoted :=
            Phrase.quoted (quotedText_escaped text)
              (@cfws_of_wsp [' '] rfl) Phrase.nil
          refine ⟨lead, _, _, ?_, hLead, hQuoted, ?_, ?_⟩
          · rw [shown, if_pos hQuotes, quote]
            simp
          · intro rest hMem
            cases hMem
          · intro _
            rw [List.intercalate_singleton, readDisplay,
              if_pos hQuotes]
            exact .same
      | false =>
          rw [hQuotes] at hForward
          have hChars :=
            forwardable_phrase hBase64 hPlain hQuotes hForward
          rcases phrase_of_text hLead hChars with
            ⟨before, inner, hSplit, hBefore, hPhrase, hAt⟩
          have hShown : shown display text = text := by
            rw [shown, hQuotes]
            rfl
          rw [hShown]
          refine ⟨before, inner, _, hSplit, hBefore, hPhrase,
            hRun hAt, fun hNone => ?_⟩
          rw [forwardable_of_noWords hNone] at hForward
          cases hForward
          rw [readDisplay, hQuotes]
          exact .same
  | @encoded words hNone hWords =>
      rcases
        phrase_of_text hLead (writtenWords_phrase hWords) with
        ⟨before, inner, hSplit, hBefore, hPhrase, hAt⟩
      refine ⟨before, inner, _, hSplit, hBefore, hPhrase,
        hRun hAt, fun _ => ?_⟩
      rw [wordsOf_writtenWords hWords]
      exact .words hWords (received_writtenWords hWords)

end Mime

end MailgunRelay

------------------------------------------------------------
-- Address Headers
------------------------------------------------------------

namespace MailgunRelay

namespace Mime

variable [Unicode] [Idna] [Base64]

/- A mailbox that was parsed, alone or in a list. -/
def Parsed (m : Mailbox) : Prop :=
  (∃ value, parseMailbox value = some m) ∨
    ∃ value ms, parseMailboxList value = some ms ∧ m ∈ ms

/- The same address, and the display name as it is read. -/
structure SaysSame (m m' : Mailbox) : Prop where
  «local» : m'.local = m.local
  domain : m'.domain = m.domain
  displayName : encodedWords m.displayName = [] →
    ReadsAs (readDisplay m.displayName) m'.displayName

omit [Base64] in
theorem mailbox_of_parsed
    {m : Mailbox}
    (hParsed : Parsed m) :
    ∃ chars, mailbox chars = some m := by
  rcases hParsed with ⟨value, hValue⟩ | ⟨value, ms, hList, hMem⟩
  · exact ⟨value, mailbox_of_parseMailbox hValue⟩
  · unfold parseMailboxList at hList
    split at hList
    · cases hList
    · exact mailbox_of_mem_mailboxes hList hMem

omit [Base64] in
/- An address is valid again, with any display name. -/
theorem validate_again
    (hStd3 : Std3Laws)
    {chars : Str}
    {m : Mailbox}
    (hMailbox : mailbox chars = some m)
    (display : Str) :
    m.addrSpec.all isAddrChar = true ∧
      validate m.addrSpec display =
        some { m with displayName := display } := by
  rcases validate_of_mailbox hMailbox with
    ⟨token, displayName, hValid⟩
  rcases validate_eq_some_iff.mp hValid with
    ⟨name, rawDomain, h⟩
  have hAgain := validates_addrSpec hStd3 h
  have hParsed := parseAddrSpec_addrSpec hStd3 h
  constructor
  · unfold parseAddrSpec at hParsed
    by_contra hNot
    rw [if_pos (by simpa using hNot)] at hParsed
    cases hParsed
  · apply validate_eq_some_iff.mpr
    exact
      ⟨m.local, m.domain,
        { split := hAgain.split
          dotAtom := hAgain.dotAtom
          domain := hAgain.domain
          short := hAgain.short
          «local» := hAgain.local
          displayName := rfl }⟩

/- A mailbox as it is written is read as it was. -/
theorem parseMailbox_written
    (hStd3 : Std3Laws)
    (hBase64 : Base64Laws)
    {lead text : Str}
    {m : Mailbox}
    (hParsed : Parsed m)
    (hLead : lead.all isWsp = true)
    (hWritten : WrittenMailbox m text) :
    ∃ m', parseMailbox (lead ++ text) = some m' ∧
      SaysSame m m' := by
  rcases mailbox_of_parsed hParsed with ⟨chars, hMailbox⟩
  have hPlain : (lead ++ text).all isPlainChar = true := by
    rw [List.all_append,
      hWritten.plain hStd3 hBase64 hMailbox, Bool.and_true]
    rw [List.all_eq_true] at hLead ⊢
    intro c hMem
    have hWsp := hLead c hMem
    unfold isWsp at hWsp
    rw [Bool.or_eq_true, beq_iff_eq, beq_iff_eq] at hWsp
    rcases hWsp with rfl | rfl
    · rfl
    · rfl
  have hControl := control_of_plain hPlain
  cases hWritten with
  | bare hNone =>
      rcases validate_again hStd3 hMailbox [] with
        ⟨hChars, hValid⟩
      have hAt : '@' ∈ m.addrSpec := by
        unfold Mailbox.addrSpec
        exact List.mem_append_right _ List.mem_cons_self
      have hGrammar :=
        Grammar.bare (cfws_of_wsp hLead) hChars hAt .nil
      rw [List.append_nil] at hGrammar
      refine ⟨{ m with displayName := [] }, ?_, rfl, rfl, ?_⟩
      · apply parseMailbox_eq_some_iff.mpr
        exact
          ⟨hControl,
            mailbox_eq_some_iff.mpr ⟨_, hGrammar, hValid⟩⟩
      · intro _
        rw [hNone]
        exact .same
  | @named text hName hDisplay =>
      rcases phrase_of_written hBase64 hLead hDisplay with
        ⟨before, inner, words, hSplit, hBefore, hPhrase, hRun,
          hReads⟩
      rcases
        validate_again hStd3 hMailbox ([' '].intercalate words)
        with ⟨hChars, hValid⟩
      have hText :
          lead ++ (text ++ ' ' :: '<' :: (m.addrSpec ++ ['>'])) =
            before ++ (inner ++ '<' ::
              ([] ++ (m.addrSpec ++ ([] ++ '>' :: [])))) := by
        rw [← List.append_assoc before, ← hSplit]
        simp
      have hGrammar :=
        Grammar.angle (cfws_of_wsp hBefore) hPhrase
          (hRun ([] ++ (m.addrSpec ++ ([] ++ '>' :: [])))) rfl
          hChars rfl .nil
      rw [← hText] at hGrammar
      refine
        ⟨{ m with displayName := [' '].intercalate words }, ?_,
          rfl, rfl, hReads⟩
      apply parseMailbox_eq_some_iff.mpr
      exact
        ⟨hControl,
          mailbox_eq_some_iff.mpr ⟨_, hGrammar, hValid⟩⟩

/- So are all of them, behind the same white space. -/
theorem parseMailboxes_written
    (hStd3 : Std3Laws)
    (hBase64 : Base64Laws)
    {lead : Str}
    {ms : List Mailbox}
    {written : List Str}
    (hParsed : ∀ m ∈ ms, Parsed m)
    (hLead : lead.all isWsp = true)
    (hWritten : List.Forall₂ WrittenMailbox ms written) :
    ∃ ms',
      (written.map (lead ++ ·)).map parseMailbox =
          ms'.map some ∧
        List.Forall₂ SaysSame ms ms' := by
  induction hWritten with
  | nil => exact ⟨[], rfl, .nil⟩
  | @cons m text ms written hHere hRest ih =>
      rcases
        parseMailbox_written hStd3 hBase64
          (hParsed m List.mem_cons_self) hLead hHere with
        ⟨m', hFirst, hSame⟩
      rcases
        ih fun x hMem => hParsed x (List.mem_cons_of_mem m hMem)
        with ⟨ms', hLater, hAll⟩
      refine ⟨m' :: ms', ?_, .cons hSame hAll⟩
      rw [List.map_cons, List.map_cons, hFirst, hLater,
        List.map_cons]

omit [Unicode] [Idna] [Base64] in
/- The space after a comma is in front of a mailbox. -/
theorem intercalate_comma
    (text : Str)
    (texts : List Str) :
    [',', ' '].intercalate (text :: texts) =
      [','].intercalate
        (text :: texts.map ([' '] ++ ·)) := by
  induction texts generalizing text with
  | nil => rfl
  | cons second texts ih =>
      have hSpace :
          [','].intercalate
              (([' '] ++ second) ::
                texts.map ([' '] ++ ·)) =
            [' '] ++ [','].intercalate
              (second :: texts.map ([' '] ++ ·)) := by
        cases texts with
        | nil => rfl
        | cons third texts =>
            rw [List.map_cons, List.intercalate_cons_cons,
              List.intercalate_cons_cons]
            simp
      rw [List.intercalate_cons_cons, ih, List.map_cons,
        List.intercalate_cons_cons, hSpace]
      simp

variable [Lettre]

/-
  An address header, without its folds, is the list of the
  mailboxes it was written for.
-/
theorem addressHeader_says
    (hStd3 : Std3Laws)
    (hBase64 : Base64Laws)
    (hWriter : WriterLaws)
    {name : Str}
    {ms : List Mailbox}
    {field : Field}
    (hSome : ms ≠ [])
    (hParsed : ∀ m ∈ ms, Parsed m)
    (hHeader : addressHeader name ms = some field) :
    ∃ ms',
      parseMailboxList (Lib.Folding.unfold field.value) =
          some ms' ∧
        List.Forall₂ SaysSame ms ms' := by
  rcases addressHeader_written hWriter hHeader with
    ⟨-, written, hWritten, hFolds⟩
  have hPlain :=
    writtenMailboxes_plain hStd3 hBase64
      (fun m hMem => mailbox_of_parsed (hParsed m hMem)) hWritten
  rw [hFolds.unfold_eq (unbroken_of_plain hPlain)]
  cases hWritten with
  | nil => exact absurd rfl hSome
  | @cons m text ms texts hHere hRest =>
      rcases
        parseMailbox_written hStd3 hBase64
          (hParsed m List.mem_cons_self) (rfl : [].all isWsp = true)
          hHere with
        ⟨m', hFirst, hSame⟩
      rcases
        parseMailboxes_written hStd3 hBase64
          (fun x hMem => hParsed x (List.mem_cons_of_mem m hMem))
          (rfl : [' '].all isWsp = true) hRest with
        ⟨ms', hLater, hAll⟩
      refine ⟨m' :: ms', ?_, .cons hSame hAll⟩
      rw [intercalate_comma]
      apply parseMailboxList_intercalate (List.cons_ne_nil _ _)
      rw [List.map_cons, List.map_cons, hLater, ← hFirst]
      rfl

omit [Unicode] [Idna] [Base64] [Lettre] in
/- A quoted name, an encoded one and none, on one line. -/
theorem addressHeader_says_three :
    let _ : Unicode := .ascii
    let _ : Idna := .aDe
    let _ : Base64 := .standard
    let _ : Lettre := .unfolded
    let ms : List Mailbox :=
      [{ displayName := "Doe, \"J\" <x@y>".toList
         «local» := "j".toList
         domain := "a.de".toList },
       { displayName := "Jörg  B".toList
         «local» := "s".toList
         domain := "a.de".toList },
       { displayName := []
         «local» := "c".toList
         domain := "a.de".toList }]
    let field : Field :=
      { name := "To".toList
        value :=
          ("\"Doe, \\\"J\\\" <x@y>\" <j@a.de>, " ++
            "=?utf-8?b?SsO2cmcgQg==?= <s@a.de>, " ++
            "c@a.de").toList }
    addressHeader "To".toList ms = some field ∧
      ∃ ms', parseMailboxList (Lib.Folding.unfold field.value) =
          some ms' ∧
        List.Forall₂ SaysSame ms ms' := by
  intro _ _ _ _ ms field
  have hHeader :
      addressHeader "To".toList ms = some field := by
    decide +kernel
  have hList :
      parseMailboxList
          ("\"Doe, \\\"J\\\" <x@y>\" <j@A.de>," ++
            "\"Jörg  B\" <s@A.de>, c@a.de").toList =
        some ms := by
    decide +kernel
  exact
    ⟨hHeader,
      addressHeader_says Smtp.aDe_std3Laws base64Laws_standard
        (unfolded_writerLaws base64Laws_standard)
        (List.cons_ne_nil _ _)
        (fun m hMem => .inr ⟨_, ms, hList, hMem⟩) hHeader⟩

end Mime

end MailgunRelay
