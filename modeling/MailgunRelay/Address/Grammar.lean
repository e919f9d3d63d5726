import MailgunRelay.Address

/-
  The grammar of a mailbox, and that the parser accepts
  exactly it.

  The grammar says what a text consists of; the parser is
  shown to read each of its parts, in both directions and
  with what is left behind it.

  Key definitions include:
    * `MailgunRelay.Cfws`
    * `MailgunRelay.QuotedText`
    * `MailgunRelay.Phrase`
    * `MailgunRelay.Grammar`

  Key theorems include:
    * `MailgunRelay.skipCfws_eq_some_iff`
    * `MailgunRelay.quoted_eq_some_iff`
    * `MailgunRelay.phrase_of_phrase`
    * `MailgunRelay.phrase_eq_some`
    * `MailgunRelay.parseMailbox_grammar`
-/

------------------------------------------------------------
-- Comments
------------------------------------------------------------

namespace MailgunRelay

/- Whitespace and closed comments, with the comment texts. -/
inductive Cfws : Str → List Str → Prop where
  | nil : Cfws [] []
  | wsp
      {c : Char} {ws : Str} {comments : List Str}
      (hWsp : isWsp c = true)
      (hRest : Cfws ws comments) :
      Cfws (c :: ws) comments
  | comment
      {text ws : Str} {comments : List Str}
      (hText : text.all isCommentChar = true)
      (hRest : Cfws ws comments) :
      Cfws ('(' :: (text ++ ')' :: ws)) (text :: comments)

/- What follows is neither whitespace nor a comment. -/
def EndsCfws (rest : Str) : Prop :=
  ∀ c ∈ rest.head?, isWsp c = false ∧ c ≠ '('

/- A text cut where a class of characters ends. -/
theorem takeWhile_append_cons
    {p : Char → Bool}
    {text : Str}
    {c : Char}
    (rest : Str)
    (hText : text.all p = true)
    (hEnd : p c = false) :
    (text ++ c :: rest).takeWhile p = text ∧
      (text ++ c :: rest).dropWhile p = c :: rest := by
  have hAll : ∀ d ∈ text, p d = true :=
    List.all_eq_true.mp hText
  rw [List.takeWhile_append_of_pos hAll,
    List.dropWhile_append_of_pos hAll]
  simp [hEnd]

/- Skipping takes all whitespace and comments in front. -/
theorem skipCfws_eq_some_iff
    {comments comments' : List Str}
    {cs rest : Str} :
    skipCfws comments cs = some (rest, comments') ↔
      ∃ ws skipped, cs = ws ++ rest ∧ Cfws ws skipped ∧
        comments' = comments ++ skipped ∧ EndsCfws rest := by
  constructor
  · intro hSkip
    fun_induction skipCfws comments cs with
    | case1 comments =>
        cases hSkip
        exact
          ⟨[], [], rfl, .nil, by simp, by simp [EndsCfws]⟩
    | case2 comments c cs hWsp ih =>
        rcases ih hSkip with
          ⟨ws, skipped, rfl, hCfws, hComments, hEnd⟩
        exact
          ⟨c :: ws, skipped, rfl, .wsp hWsp hCfws, hComments,
            hEnd⟩
    | case3 comments cs rest' hAfter hWsp ih =>
        rcases ih hSkip with
          ⟨ws, skipped, rfl, hCfws, hComments, hEnd⟩
        refine
          ⟨'(' :: (cs.takeWhile isCommentChar ++ ')' :: ws),
            cs.takeWhile isCommentChar :: skipped, ?_,
            .comment (by simp) hCfws, ?_, hEnd⟩
        · conv_lhs =>
            rw [← List.takeWhile_append_dropWhile
              (p := isCommentChar) (l := cs), hAfter]
          simp
        · rw [hComments, List.append_assoc]
          rfl
    | case4 => cases hSkip
    | case5 comments c cs hWsp hOpen =>
        cases hSkip
        exact
          ⟨[], [], rfl, .nil, by simp, by
            simp [EndsCfws, hWsp, hOpen]⟩
  · rintro ⟨ws, skipped, rfl, hCfws, rfl, hEnd⟩
    induction hCfws generalizing comments with
    | nil =>
        rw [List.append_nil, List.nil_append]
        cases rest with
        | nil =>
            unfold skipCfws
            rfl
        | cons c rest =>
            rcases hEnd c rfl with ⟨hWsp, hOpen⟩
            unfold skipCfws
            simp [hWsp, hOpen]
    | wsp hWsp hRest ih =>
        rw [List.cons_append]
        unfold skipCfws
        rw [if_pos hWsp]
        exact ih
    | @comment text ws skipped hText hRest ih =>
        have hEnd : isCommentChar ')' = false := by decide
        have hCut := takeWhile_append_cons (ws ++ rest) hText hEnd
        rw [List.cons_append, List.append_assoc,
          List.cons_append]
        unfold skipCfws
        rw [if_neg (by decide), if_pos rfl]
        split
        · rename_i rest' hAfter
          rw [hCut.2] at hAfter
          cases hAfter
          rw [hCut.1, ih, List.append_assoc]
          rfl
        · rename_i hNone
          exact absurd hCut.2 (hNone _)

end MailgunRelay

------------------------------------------------------------
-- Quoted Strings
------------------------------------------------------------

namespace MailgunRelay

/- The inside of a quoted string, and what it says. -/
inductive QuotedText : Str → Str → Prop where
  | nil : QuotedText [] []
  | escape
      {c : Char} {inner text : Str}
      (hRest : QuotedText inner text) :
      QuotedText ('\\' :: c :: inner) (c :: text)
  | plain
      {c : Char} {inner text : Str}
      (hQuote : c ≠ '"')
      (hEscape : c ≠ '\\')
      (hRest : QuotedText inner text) :
      QuotedText (c :: inner) (c :: text)

/- A quoted string is read up to its closing quote. -/
theorem quoted_eq_some_iff
    {cs text rest : Str} :
    quoted cs = some (text, rest) ↔
      ∃ inner, cs = inner ++ '"' :: rest ∧
        QuotedText inner text := by
  constructor
  · intro hQuoted
    fun_induction quoted cs generalizing text with
    | case1 => cases hQuoted
    | case2 cs =>
        cases hQuoted
        exact ⟨[], rfl, .nil⟩
    | case3 c cs ih =>
        rcases Option.map_eq_some_iff.mp hQuoted with
          ⟨⟨text', rest'⟩, hTail, hEq⟩
        cases hEq
        rcases ih hTail with ⟨inner, rfl, hInner⟩
        exact ⟨'\\' :: c :: inner, rfl, .escape hInner⟩
    | case4 => cases hQuoted
    | case5 c cs hQuote hEscape hEnd ih =>
        rcases Option.map_eq_some_iff.mp hQuoted with
          ⟨⟨text', rest'⟩, hTail, hEq⟩
        cases hEq
        rcases ih hTail with ⟨inner, rfl, hInner⟩
        refine ⟨c :: inner, rfl, .plain hQuote ?_ hInner⟩
        rintro rfl
        cases inner with
        | nil => exact hEscape _ _ rfl rfl
        | cons d inner => exact hEscape _ _ rfl rfl
  · rintro ⟨inner, rfl, hInner⟩
    induction hInner with
    | nil => rfl
    | escape hRest ih =>
        simp only [List.cons_append, quoted, ih,
          Option.map_some]
    | @plain c inner text hQuote hEscape hRest ih =>
        rw [List.cons_append, quoted]
        · rw [ih]
          rfl
        · exact hQuote
        · exact fun _ _ hBackslash _ => hEscape hBackslash
        · exact fun hBackslash _ => hEscape hBackslash

end MailgunRelay

------------------------------------------------------------
-- Phrases
------------------------------------------------------------

namespace MailgunRelay

/- A word ends here. -/
def EndsWord (rest : Str) : Prop :=
  ∀ c ∈ rest.head?, isWordChar c = false

/-
  Words and quoted strings, each with the whitespace and
  comments behind it: the texts and the comments.
-/
inductive Phrase : Str → List Str → List Str → Prop where
  | nil : Phrase [] [] []
  | word
      {word ws rest : Str} {comments words comments' : List Str}
      (hNonempty : word ≠ [])
      (hWord : word.all isWordChar = true)
      (hCfws : Cfws ws comments)
      (hEnd : EndsWord (ws ++ rest))
      (hRest : Phrase rest words comments') :
      Phrase (word ++ (ws ++ rest)) (word :: words)
        (comments ++ comments')
  | quoted
      {inner text ws rest : Str}
      {comments words comments' : List Str}
      (hInner : QuotedText inner text)
      (hCfws : Cfws ws comments)
      (hRest : Phrase rest words comments') :
      Phrase ('"' :: (inner ++ '"' :: (ws ++ rest)))
        (text :: words) (comments ++ comments')

/- A word starts with no whitespace and no comment. -/
theorem isWordChar_endsCfws
    {c : Char}
    (hWord : isWordChar c = true) :
    isWsp c = false ∧ c ≠ '(' ∧ c ≠ '"' ∧ c ≠ '<' := by
  simp only [isWordChar, Bool.and_eq_true,
    Bool.not_eq_true'] at hWord
  refine ⟨hWord.1, ?_, ?_, ?_⟩ <;>
    · rintro rfl
      have hListed := hWord.2
      revert hListed
      decide

/- The bracket or the phrase in front of it. -/
theorem Phrase.endsCfws
    {text : Str}
    {words comments : List Str}
    (hPhrase : Phrase text words comments)
    (rest : Str) :
    EndsCfws (text ++ '<' :: rest) := by
  intro c hHead
  cases hPhrase with
  | nil =>
      cases hHead
      decide
  | @word word ws rest' _ _ _ hNonempty hWord =>
      cases word with
      | nil => exact absurd rfl hNonempty
      | cons d word =>
          cases hHead
          rw [List.all_cons, Bool.and_eq_true] at hWord
          have hPlain := isWordChar_endsCfws hWord.1
          exact ⟨hPlain.1, hPlain.2.1⟩
  | quoted =>
      cases hHead
      decide

/- White space in front of a phrase is skipped. -/
theorem skipCfws_phrase
    {ws text : Str}
    {skipped words comments' : List Str}
    (hCfws : Cfws ws skipped)
    (hPhrase : Phrase text words comments')
    (comments : List Str)
    (rest : Str) :
    skipCfws comments (ws ++ (text ++ '<' :: rest)) =
      some (text ++ '<' :: rest, comments ++ skipped) :=
  skipCfws_eq_some_iff.mpr
    ⟨ws, skipped, rfl, hCfws, rfl, hPhrase.endsCfws rest⟩

/- The parser at the bracket. -/
theorem phrase_open
    {comments comments' words : List Str}
    {cs rest : Str}
    (hSkip :
      skipCfws comments cs = some ('<' :: rest, comments')) :
    phrase comments words cs = some (words, comments', rest) := by
  unfold phrase
  split
  · rename_i hNone
    rw [hSkip] at hNone
    cases hNone
  · rename_i hEmpty
    rw [hSkip] at hEmpty
    cases hEmpty
  · rename_i hSome
    rw [hSkip] at hSome
    cases hSome
    rw [if_neg (by decide), if_neg (by decide), if_pos rfl]

/- The parser at a word. -/
theorem phrase_word
    {comments comments' words : List Str}
    {c : Char}
    {cs rest : Str}
    (hSkip :
      skipCfws comments cs = some (c :: rest, comments'))
    (hWord : isWordChar c = true) :
    phrase comments words cs =
      phrase comments'
        (words ++ [(c :: rest).takeWhile isWordChar])
        (rest.dropWhile isWordChar) := by
  conv_lhs => unfold phrase
  split
  · rename_i hNone
    rw [hSkip] at hNone
    cases hNone
  · rename_i hEmpty
    rw [hSkip] at hEmpty
    cases hEmpty
  · rename_i hSome
    rw [hSkip] at hSome
    cases hSome
    rw [if_neg (isWordChar_endsCfws hWord).2.2.1,
      if_pos hWord]

/- The parser at a quoted string. -/
theorem phrase_quoted
    {comments comments' words : List Str}
    {cs rest rest' text : Str}
    (hSkip :
      skipCfws comments cs = some ('"' :: rest, comments'))
    (hQuoted : quoted rest = some (text, rest')) :
    phrase comments words cs =
      phrase comments' (words ++ [text]) rest' := by
  conv_lhs => unfold phrase
  split
  · rename_i hNone
    rw [hSkip] at hNone
    cases hNone
  · rename_i hEmpty
    rw [hSkip] at hEmpty
    cases hEmpty
  · rename_i hSome
    rw [hSkip] at hSome
    cases hSome
    rw [if_pos rfl]
    split
    · rename_i hNone
      rw [hQuoted] at hNone
      cases hNone
    · rename_i hText
      rw [hQuoted] at hText
      cases hText
      rfl

/- A phrase is read up to its bracket. -/
theorem phrase_of_phrase
    {text : Str}
    {words comments' : List Str}
    (hPhrase : Phrase text words comments')
    {ws : Str}
    {skipped : List Str}
    (hCfws : Cfws ws skipped)
    (comments before : List Str)
    (rest : Str) :
    phrase comments before (ws ++ (text ++ '<' :: rest)) =
      some
        (before ++ words, comments ++ skipped ++ comments',
          rest) := by
  induction hPhrase generalizing ws skipped comments before with
  | nil =>
      rw [phrase_open (skipCfws_phrase hCfws .nil comments rest)]
      simp
  | @word word ws' rest' comments₁ words comments₂ hNonempty
      hWord hWs hEnd hRest ih =>
      have hSkip :=
        skipCfws_phrase hCfws
          (.word hNonempty hWord hWs hEnd hRest) comments rest
      have hBehind :
          EndsWord (ws' ++ (rest' ++ '<' :: rest)) := by
        intro c hHead
        rw [← List.append_assoc] at hHead
        cases hTail : ws' ++ rest' with
        | nil =>
            rw [hTail] at hHead
            cases hHead
            decide
        | cons d tail =>
            rw [hTail] at hHead hEnd
            exact hEnd c hHead
      have hCut :
          (word ++ (ws' ++ (rest' ++ '<' :: rest))).takeWhile
                isWordChar = word ∧
            (word ++ (ws' ++ (rest' ++ '<' :: rest))).dropWhile
                isWordChar =
              ws' ++ (rest' ++ '<' :: rest) := by
        cases hTail : ws' ++ (rest' ++ '<' :: rest) with
        | nil => simp at hTail
        | cons d tail =>
            rw [hTail] at hBehind
            exact takeWhile_append_cons _ hWord (hBehind d rfl)
      cases word with
      | nil => exact absurd rfl hNonempty
      | cons c word =>
          have hFirst : isWordChar c = true := by
            rw [List.all_cons, Bool.and_eq_true] at hWord
            exact hWord.1
          simp only [List.append_assoc, List.cons_append]
            at hSkip hCut ⊢
          rw [List.dropWhile_cons_of_pos hFirst] at hCut
          rw [phrase_word hSkip hFirst, hCut.1, hCut.2,
            ih hWs]
          simp
  | @quoted inner text ws' rest' comments₁ words comments₂
      hInner hWs hRest ih =>
      have hSkip :=
        skipCfws_phrase hCfws (.quoted hInner hWs hRest)
          comments rest
      have hQuoted :
          MailgunRelay.quoted
              (inner ++ '"' :: (ws' ++ (rest' ++ '<' :: rest))) =
            some (text, ws' ++ (rest' ++ '<' :: rest)) :=
        quoted_eq_some_iff.mpr ⟨inner, rfl, hInner⟩
      simp only [List.append_assoc, List.cons_append]
        at hSkip ⊢
      rw [phrase_quoted hSkip hQuoted, ih hWs]
      simp

/- Whatever the parser reads as a phrase is one. -/
theorem phrase_eq_some
    {comments comments' words words' : List Str}
    {cs rest : Str}
    (hRead :
      phrase comments words cs =
        some (words', comments', rest)) :
    ∃ ws skipped text more comments₁,
      cs = ws ++ (text ++ '<' :: rest) ∧
        Cfws ws skipped ∧ Phrase text more comments₁ ∧
        words' = words ++ more ∧
        comments' = comments ++ skipped ++ comments₁ := by
  fun_induction phrase comments words cs with
  | case1 => cases hRead
  | case2 => cases hRead
  | case3 => cases hRead
  | case4 comments words cs rest₁ comments₁ text rest₂
      hQuoted hSkip ih =>
      rcases skipCfws_eq_some_iff.mp hSkip with
        ⟨ws, skipped, rfl, hCfws, rfl, -⟩
      rcases quoted_eq_some_iff.mp hQuoted with
        ⟨inner, rfl, hInner⟩
      rcases ih hRead with
        ⟨ws', skipped', text', more, comments₂, rfl, hCfws',
          hPhrase, rfl, rfl⟩
      exact
        ⟨ws, skipped, _, _, _, by simp, hCfws,
          .quoted hInner hCfws' hPhrase, by simp, by simp⟩
  | case5 comments words cs c rest₁ comments₁ hSkip hQuote
      hWord ih =>
      rcases skipCfws_eq_some_iff.mp hSkip with
        ⟨ws, skipped, rfl, hCfws, rfl, -⟩
      rcases ih hRead with
        ⟨ws', skipped', text', more, comments₂, hTail, hCfws',
          hPhrase, rfl, rfl⟩
      have hWhole :
          c :: rest₁ =
            (c :: rest₁).takeWhile isWordChar ++
              (ws' ++ (text' ++ '<' :: rest)) := by
        conv_lhs =>
          rw [← List.takeWhile_append_dropWhile
            (p := isWordChar) (l := c :: rest₁),
            List.dropWhile_cons_of_pos hWord, hTail]
      have hEnd : EndsWord (ws' ++ text') := by
        intro d hHead
        have hNot :
            ∀ e ∈ (rest₁.dropWhile isWordChar).head?,
              isWordChar e = false := by
          intro e hE
          have hFirst := List.head?_dropWhile_not isWordChar rest₁
          rw [Option.mem_def.mp hE] at hFirst
          simpa using hFirst
        refine hNot d ?_
        rw [hTail, ← List.append_assoc]
        cases hFront : ws' ++ text' with
        | nil =>
            rw [hFront] at hHead
            cases hHead
        | cons e tail =>
            rw [hFront] at hHead
            exact hHead
      refine
        ⟨ws, skipped,
          (c :: rest₁).takeWhile isWordChar ++ (ws' ++ text'),
          _, _, ?_, hCfws,
          .word ?_ (by simp) hCfws' hEnd hPhrase, by simp,
          by simp⟩
      · conv_lhs => rw [hWhole]
        simp
      · rw [List.takeWhile_cons_of_pos hWord]
        exact List.cons_ne_nil _ _
  | case6 comments words cs rest₁ comments₁ hSkip =>
      cases hRead
      rcases skipCfws_eq_some_iff.mp hSkip with
        ⟨ws, skipped, rfl, hCfws, rfl, -⟩
      exact
        ⟨ws, skipped, [], [], [], rfl, hCfws, .nil, by simp,
          by simp⟩
  | case7 => cases hRead

end MailgunRelay

------------------------------------------------------------
-- Mailboxes
------------------------------------------------------------

namespace MailgunRelay

/-
  The two forms of a mailbox: an address alone with its
  comments, or a phrase in front of an address in brackets
  with the comments before and behind the opening bracket.
-/
inductive MailboxForm where
  | bare
      (comments : List Str)
      (addr : Str)
  | angle
      (words comments : List Str)
      (addr : Str)
      (dropped : List Str)

/- The address, to be validated. -/
def MailboxForm.token : MailboxForm → Str
| .bare _ addr => addr
| .angle _ _ addr _ => addr

/-
  The comments joined by one space, or the phrase with the
  comments before the bracket.
-/
def MailboxForm.displayName : MailboxForm → Str
| .bare comments _ => [' '].intercalate comments
| .angle words comments _ _ => phraseName words comments

/- The text of a mailbox, and its form. -/
inductive Grammar : Str → MailboxForm → Prop where
  | bare
      {before addr after : Str}
      {comments comments' : List Str}
      (hBefore : Cfws before comments)
      (hAddr : addr.all isAddrChar = true)
      (hAt : '@' ∈ addr)
      (hAfter : Cfws after comments') :
      Grammar (before ++ (addr ++ after))
        (.bare (comments ++ comments') addr)
  | angle
      {before text wsp addr wsp' after : Str}
      {comments words comments' dropped : List Str}
      (hBefore : Cfws before comments)
      (hPhrase : Phrase text words comments')
      (hRun :
        '@' ∉ (text ++ '<' :: (wsp ++ (addr ++
          (wsp' ++ '>' :: after)))).takeWhile isAddrChar)
      (hWsp : wsp.all isWsp = true)
      (hAddr : addr.all isAddrChar = true)
      (hWsp' : wsp'.all isWsp = true)
      (hAfter : Cfws after dropped) :
      Grammar
        (before ++ (text ++ '<' :: (wsp ++ (addr ++
          (wsp' ++ '>' :: after)))))
        (.angle words (comments ++ comments') addr dropped)

/- The form of a text: `mailbox` before it validates. -/
def readMailbox (chars : Str) : Option MailboxForm := do
  let (rest, comments) ← skipCfws [] chars
  let addr := rest.takeWhile isAddrChar
  if addr.contains '@' then
    let comments ←
      onlyCfws comments (rest.dropWhile isAddrChar)
    some (.bare comments addr)
  else
    let (words, comments, rest) ← phrase comments [] rest
    let rest := rest.dropWhile isWsp
    let addr := rest.takeWhile isAddrChar
    match (rest.dropWhile isAddrChar).dropWhile isWsp with
    | '>' :: rest => do
        let dropped ← onlyCfws [] rest
        some (.angle words comments addr dropped)
    | _ => none

/- Nothing is left exactly of whitespace and comments. -/
theorem onlyCfws_eq_some_iff
    {comments comments' : List Str}
    {cs : Str} :
    onlyCfws comments cs = some comments' ↔
      ∃ skipped, Cfws cs skipped ∧
        comments' = comments ++ skipped := by
  have hSkip :
      onlyCfws comments cs = some comments' ↔
        skipCfws comments cs = some ([], comments') := by
    unfold onlyCfws
    split
    · rename_i hSome
      rw [hSome]
      simp
    · rename_i hOther
      constructor
      · nofun
      · exact fun hNil => absurd hNil (hOther _)
  rw [hSkip, skipCfws_eq_some_iff]
  constructor
  · rintro ⟨ws, skipped, rfl, hCfws, rfl, -⟩
    exact ⟨skipped, by simpa using hCfws, rfl⟩
  · rintro ⟨skipped, hCfws, rfl⟩
    exact
      ⟨cs, skipped, by simp, hCfws, rfl, by
        simp [EndsCfws]⟩

/- An address starts with no whitespace and no comment. -/
theorem isAddrChar_ne
    {c : Char}
    (hAddr : isAddrChar c = true) :
    isWsp c = false ∧ c ≠ '(' ∧ c ≠ '<' ∧ c ≠ '>' := by
  simp only [isAddrChar, Bool.and_eq_true,
    Bool.not_eq_true'] at hAddr
  refine ⟨hAddr.1, ?_, ?_, ?_⟩ <;>
    · rintro rfl
      have hListed := hAddr.2
      revert hListed
      decide

/- White space is no part of an address. -/
theorem isAddrChar_of_isWsp
    {c : Char}
    (hWsp : isWsp c = true) :
    isAddrChar c = false := by
  simp [isAddrChar, hWsp]

/- An address ends in front of whitespace and comments. -/
theorem Cfws.cut_addr
    {ws : Str}
    {comments : List Str}
    (hCfws : Cfws ws comments)
    {addr : Str}
    (hAddr : addr.all isAddrChar = true) :
    (addr ++ ws).takeWhile isAddrChar = addr ∧
      (addr ++ ws).dropWhile isAddrChar = ws := by
  cases hCfws with
  | nil =>
      have hAll := List.all_eq_true.mp hAddr
      rw [List.append_nil]
      exact
        ⟨List.takeWhile_eq_self_iff.mpr hAll,
          List.dropWhile_eq_nil_iff.mpr hAll⟩
  | wsp hWsp hRest =>
      exact
        takeWhile_append_cons _ hAddr (isAddrChar_of_isWsp hWsp)
  | comment hText hRest =>
      exact takeWhile_append_cons _ hAddr (by decide)

/- The address in brackets, with the spaces around it. -/
theorem cut_bracket
    {wsp addr wsp' : Str}
    (hWsp : wsp.all isWsp = true)
    (hAddr : addr.all isAddrChar = true)
    (hWsp' : wsp'.all isWsp = true)
    (after : Str) :
    let rest :=
      (wsp ++ (addr ++ (wsp' ++ '>' :: after))).dropWhile isWsp
    rest.takeWhile isAddrChar = addr ∧
      (rest.dropWhile isAddrChar).dropWhile isWsp =
        '>' :: after := by
  have hBehind :
      (wsp' ++ '>' :: after).dropWhile isWsp = '>' :: after :=
    (takeWhile_append_cons _ hWsp' (by decide)).2
  have hAll : ∀ c ∈ wsp, isWsp c = true :=
    List.all_eq_true.mp hWsp
  simp only
  rw [List.dropWhile_append_of_pos hAll]
  cases addr with
  | nil =>
      rw [List.nil_append, hBehind]
      exact ⟨rfl, rfl⟩
  | cons c addr =>
      have hKeep :
          (c :: addr ++ (wsp' ++ '>' :: after)).dropWhile
              isWsp = c :: addr ++ (wsp' ++ '>' :: after) := by
        rw [List.all_cons, Bool.and_eq_true] at hAddr
        rw [List.cons_append, List.dropWhile_cons_of_neg]
        rw [(isAddrChar_ne hAddr.1).1]
        exact Bool.false_ne_true
      have hCut :
          (c :: addr ++ (wsp' ++ '>' :: after)).takeWhile
                isAddrChar = c :: addr ∧
            (c :: addr ++ (wsp' ++ '>' :: after)).dropWhile
                isAddrChar = wsp' ++ '>' :: after := by
        cases wsp' with
        | nil => exact takeWhile_append_cons _ hAddr (by decide)
        | cons d wsp' =>
            rw [List.all_cons, Bool.and_eq_true] at hWsp'
            exact
              takeWhile_append_cons _ hAddr
                (isAddrChar_of_isWsp hWsp'.1)
      rw [hKeep, hCut.1, hCut.2]
      exact ⟨rfl, hBehind⟩

/- What stands in front of a closing bracket. -/
theorem bracket_of_close
    {cs after : Str}
    (hClose :
      ((cs.dropWhile isWsp).dropWhile isAddrChar).dropWhile
        isWsp = '>' :: after) :
    ∃ wsp wsp',
      wsp.all isWsp = true ∧ wsp'.all isWsp = true ∧
        cs =
          wsp ++ ((cs.dropWhile isWsp).takeWhile isAddrChar ++
            (wsp' ++ '>' :: after)) := by
  refine
    ⟨cs.takeWhile isWsp,
      ((cs.dropWhile isWsp).dropWhile isAddrChar).takeWhile
        isWsp, List.all_takeWhile, List.all_takeWhile, ?_⟩
  rw [← hClose, List.takeWhile_append_dropWhile,
    List.takeWhile_append_dropWhile,
    List.takeWhile_append_dropWhile]

/- The reader finds the form of a text of the grammar. -/
theorem readMailbox_of_grammar
    {chars : Str}
    {form : MailboxForm}
    (hGrammar : Grammar chars form) :
    readMailbox chars = some form := by
  cases hGrammar with
  | @bare before addr after comments comments' hBefore hAddr
      hAt hAfter =>
      have hSkip :
          skipCfws [] (before ++ (addr ++ after)) =
            some (addr ++ after, comments) := by
        refine
          skipCfws_eq_some_iff.mpr
            ⟨before, comments, rfl, hBefore, rfl, ?_⟩
        intro c hHead
        cases addr with
        | nil => cases hAt
        | cons d addr =>
            cases hHead
            rw [List.all_cons, Bool.and_eq_true] at hAddr
            have hFirst := isAddrChar_ne hAddr.1
            exact ⟨hFirst.1, hFirst.2.1⟩
      have hCut := hAfter.cut_addr hAddr
      have hOnly :
          onlyCfws comments after =
            some (comments ++ comments') :=
        onlyCfws_eq_some_iff.mpr ⟨comments', hAfter, rfl⟩
      simp only [readMailbox, hSkip, hCut, hOnly,
        Option.bind_eq_bind, Option.bind_some,
        List.contains_iff_mem.mpr hAt, if_true]
  | @angle before text wsp addr wsp' after comments words
      comments' dropped hBefore hPhrase hRun hWsp hAddr hWsp'
      hAfter =>
      have hSkip :=
        skipCfws_phrase hBefore hPhrase []
          (wsp ++ (addr ++ (wsp' ++ '>' :: after)))
      have hWords :=
        phrase_of_phrase hPhrase .nil comments []
          (wsp ++ (addr ++ (wsp' ++ '>' :: after)))
      rw [List.nil_append] at hSkip hWords
      have hNot :
          ((text ++ '<' :: (wsp ++ (addr ++
            (wsp' ++ '>' :: after)))).takeWhile
              isAddrChar).contains '@' = false := by
        rw [Bool.eq_false_iff]
        exact fun hAt => hRun (List.contains_iff_mem.mp hAt)
      have hCut := cut_bracket hWsp hAddr hWsp' after
      have hOnly : onlyCfws [] after = some dropped :=
        onlyCfws_eq_some_iff.mpr ⟨dropped, hAfter, rfl⟩
      simp only [readMailbox, hSkip, hWords, hCut, hOnly, hNot,
        Option.bind_eq_bind, Option.bind_some,
        Bool.false_eq_true, if_false, List.nil_append,
        List.append_nil]

/- Nothing is skipped twice. -/
theorem Cfws.eq_nil
    {ws rest : Str}
    {comments : List Str}
    (hCfws : Cfws ws comments)
    (hEnd : EndsCfws (ws ++ rest)) :
    ws = [] ∧ comments = [] := by
  cases hCfws with
  | nil => exact ⟨rfl, rfl⟩
  | wsp hWsp hRest =>
      have hFirst := (hEnd _ rfl).1
      rw [hWsp] at hFirst
      cases hFirst
  | comment hText hRest => exact absurd rfl (hEnd _ rfl).2

/- Whatever the reader finds is in the grammar. -/
theorem grammar_of_readMailbox
    {chars : Str}
    {form : MailboxForm}
    (hRead : readMailbox chars = some form) :
    Grammar chars form := by
  unfold readMailbox at hRead
  rcases Option.bind_eq_some_iff.mp hRead with
    ⟨⟨rest, comments⟩, hSkip, hForm⟩
  clear hRead
  rcases skipCfws_eq_some_iff.mp hSkip with
    ⟨before, skipped, rfl, hBefore, rfl, hEnd⟩
  dsimp only at hForm
  split at hForm
  · rename_i hAt
    rcases Option.bind_eq_some_iff.mp hForm with
      ⟨comments', hOnly, hEq⟩
    cases hEq
    rcases onlyCfws_eq_some_iff.mp hOnly with
      ⟨skipped', hAfter, rfl⟩
    have hBare :=
      Grammar.bare hBefore (List.all_takeWhile)
        (List.contains_iff_mem.mp hAt) hAfter
    rw [List.takeWhile_append_dropWhile] at hBare
    exact hBare
  · rename_i hAt
    rcases Option.bind_eq_some_iff.mp hForm with
      ⟨⟨words, comments', rest'⟩, hPhrase, hAngle⟩
    rcases phrase_eq_some hPhrase with
      ⟨ws, skipped', text, more, comments₁, rfl, hWs, hText,
        rfl, rfl⟩
    rcases hWs.eq_nil hEnd with ⟨rfl, rfl⟩
    dsimp only at hAngle
    split at hAngle
    · rename_i after hClose
      rcases Option.bind_eq_some_iff.mp hAngle with
        ⟨dropped, hOnly, hEq⟩
      cases hEq
      rcases onlyCfws_eq_some_iff.mp hOnly with
        ⟨skipped'', hAfter, rfl⟩
      rcases bracket_of_close hClose with
        ⟨wsp, wsp', hWsp, hWsp', hRuns⟩
      have hAddr :
          ((rest'.dropWhile isWsp).takeWhile isAddrChar).all
            isAddrChar = true :=
        List.all_takeWhile
      generalize hToken :
        (rest'.dropWhile isWsp).takeWhile isAddrChar = addr
          at hRuns hAddr ⊢
      have hRun :
          '@' ∉ (text ++ '<' :: (wsp ++ (addr ++
            (wsp' ++ '>' :: after)))).takeWhile isAddrChar := by
        rw [← hRuns]
        exact fun hMem => hAt (List.contains_iff_mem.mpr hMem)
      have hMade :=
        Grammar.angle hBefore hText hRun hWsp hAddr hWsp' hAfter
      rw [← hRuns] at hMade
      simpa using hMade
    · cases hAngle

theorem readMailbox_eq_some_iff
    {chars : Str}
    {form : MailboxForm} :
    readMailbox chars = some form ↔ Grammar chars form :=
  ⟨grammar_of_readMailbox, readMailbox_of_grammar⟩

variable [Unicode] [Idna]

/- Parsing is reading, then validating. -/
theorem mailbox_eq
    (chars : Str) :
    mailbox chars =
      (readMailbox chars).bind fun form =>
        validate form.token form.displayName := by
  unfold mailbox readMailbox
  cases skipCfws [] chars with
  | none => rfl
  | some skipped =>
      rcases skipped with ⟨rest, comments⟩
      simp only [Option.bind_eq_bind, Option.bind_some]
      split
      · cases onlyCfws comments (rest.dropWhile isAddrChar) with
        | none => rfl
        | some comments' => rfl
      · cases phrase comments [] rest with
        | none => rfl
        | some read =>
            rcases read with ⟨words, comments', rest'⟩
            simp only [Option.bind_some]
            generalize
              ((rest'.dropWhile isWsp).dropWhile
                isAddrChar).dropWhile isWsp = tail
            by_cases hBracket : ∃ after, tail = '>' :: after
            · rcases hBracket with ⟨after, rfl⟩
              show
                ((onlyCfws [] after).bind fun _ => _) =
                  ((onlyCfws [] after).bind fun _ => _).bind _
              cases onlyCfws [] after with
              | none => rfl
              | some dropped => rfl
            · have hNot (after : Str) : tail ≠ '>' :: after :=
                fun hTail => hBracket ⟨after, hTail⟩
              repeat' split
              all_goals
                first
                | rfl
                | exact (hNot _ rfl).elim

/- A mailbox is a text of the grammar with a valid address. -/
theorem mailbox_eq_some_iff
    {chars : Str}
    {m : Mailbox} :
    mailbox chars = some m ↔
      ∃ form, Grammar chars form ∧
        validate form.token form.displayName = some m := by
  rw [mailbox_eq, Option.bind_eq_some_iff]
  simp only [readMailbox_eq_some_iff]

end MailgunRelay

------------------------------------------------------------
-- The End Of The Text
------------------------------------------------------------

namespace MailgunRelay

/- What the parser leaves is an end of what it was given. -/
theorem skipCfws_suffix
    {comments comments' : List Str}
    {cs rest : Str}
    (hSkip : skipCfws comments cs = some (rest, comments')) :
    rest <:+ cs := by
  rcases skipCfws_eq_some_iff.mp hSkip with
    ⟨ws, skipped, hText, -⟩
  exact ⟨ws, hText.symm⟩

theorem quoted_suffix
    {cs text rest : Str}
    (hQuoted : quoted cs = some (text, rest)) :
    rest <:+ cs := by
  rcases quoted_eq_some_iff.mp hQuoted with ⟨inner, hText, -⟩
  exact ⟨inner ++ ['"'], by simp [hText]⟩

theorem phrase_suffix
    {comments comments' words words' : List Str}
    {cs rest : Str}
    (hRead :
      phrase comments words cs =
        some (words', comments', rest)) :
    rest <:+ cs := by
  rcases phrase_eq_some hRead with
    ⟨ws, skipped, text, more, comments₁, hText, -⟩
  exact ⟨ws ++ (text ++ ['<']), by simp [hText]⟩

/- An open comment is refused. -/
theorem skipCfws_open
    {comments : List Str}
    {text : Str}
    (hText : text.all isCommentChar = true) :
    skipCfws comments ('(' :: text) = none := by
  have hAll : text.dropWhile isCommentChar = [] :=
    List.dropWhile_eq_nil_iff.mpr (List.all_eq_true.mp hText)
  unfold skipCfws
  rw [if_neg (by decide), if_pos rfl]
  split
  · rename_i rest hAfter
    rw [hAll] at hAfter
    cases hAfter
  · rfl

/- An open quote is refused, and so is a last backslash. -/
theorem quoted_open
    {inner text : Str}
    (hInner : QuotedText inner text) :
    quoted inner = none ∧ quoted (inner ++ ['\\']) = none := by
  induction hInner with
  | nil => exact ⟨rfl, rfl⟩
  | escape hRest ih =>
      simp only [List.cons_append, quoted, ih.1, ih.2,
        Option.map_none, and_self]
  | @plain c inner text hQuote hEscape hRest ih =>
      have hStep :
          ∀ cs, quoted cs = none → quoted (c :: cs) = none := by
        intro cs hNone
        rw [quoted, hNone]
        · rfl
        · exact hQuote
        · exact fun _ _ hBackslash _ => hEscape hBackslash
        · exact fun hBackslash _ => hEscape hBackslash
      exact ⟨hStep _ ih.1, hStep _ ih.2⟩

end MailgunRelay

------------------------------------------------------------
-- The Grammar
------------------------------------------------------------

namespace MailgunRelay

/- A text has one form at most. -/
theorem Grammar.unique
    {chars : Str}
    {form form' : MailboxForm}
    (hGrammar : Grammar chars form)
    (hGrammar' : Grammar chars form') :
    form = form' := by
  have hRead := readMailbox_of_grammar hGrammar
  rw [readMailbox_of_grammar hGrammar'] at hRead
  exact (Option.some.inj hRead).symm

variable [Unicode] [Idna]

/-
  A value is accepted exactly when it is of the grammar and
  its address is valid, and then the mailbox is the valid
  address with the display name of the form. The form is
  unique. Every part of the parser leaves an end of the text
  it was given, and an open comment, an open quote and a
  backslash at the end are refused.
-/
theorem parseMailbox_grammar
    (value : Str)
    (hControl : containsForbiddenControlChars value = false) :
    (∀ m,
      parseMailbox value = some m ↔
        ∃ form, Grammar value form ∧
          m.displayName = form.displayName ∧
          validate form.token form.displayName = some m) ∧
    (∀ form form',
      Grammar value form → Grammar value form' →
        form = form') ∧
    (∀ comments cs rest comments',
      skipCfws comments cs = some (rest, comments') →
        rest <:+ cs) ∧
    (∀ cs text rest,
      quoted cs = some (text, rest) → rest <:+ cs) ∧
    (∀ comments words cs words' comments' rest,
      phrase comments words cs =
          some (words', comments', rest) →
        rest <:+ cs) ∧
    (∀ comments text,
      text.all isCommentChar = true →
        skipCfws comments ('(' :: text) = none) ∧
    (∀ inner text,
      QuotedText inner text →
        quoted inner = none ∧
          quoted (inner ++ ['\\']) = none) := by
  have hMailbox : parseMailbox value = mailbox value := by
    rw [parseMailbox, hControl]
    rfl
  refine
    ⟨fun m => ?_, fun _ _ => Grammar.unique,
      fun _ _ _ _ => skipCfws_suffix,
      fun _ _ _ => quoted_suffix,
      fun _ _ _ _ _ _ => phrase_suffix,
      fun _ _ => skipCfws_open, fun _ _ => quoted_open⟩
  rw [hMailbox, mailbox_eq_some_iff]
  constructor
  · rintro ⟨form, hGrammar, hValid⟩
    rcases validate_eq_some_iff.mp hValid with
      ⟨name, rawDomain, hValidates⟩
    exact ⟨form, hGrammar, hValidates.displayName, hValid⟩
  · rintro ⟨form, hGrammar, -, hValid⟩
    exact ⟨form, hGrammar, hValid⟩

omit [Unicode] [Idna] in
/- A quoted comma, an escaped quote and two comments. -/
theorem parseMailbox_grammar_comments :
    let _ : Unicode := .ascii
    let _ : Idna := .ascii
    let value := "(A)\"b\\\", c\" d < a@x.de >(B)".toList
    let m : Mailbox :=
      { displayName := "b\", c d (A)".toList
        «local» := "a".toList
        domain := "x.de".toList }
    containsForbiddenControlChars value = false ∧
      parseMailbox value = some m ∧
      ∃ form, Grammar value form ∧
        m.displayName = form.displayName ∧
        validate form.token form.displayName = some m := by
  intro _ _ value m
  have hControl :
      containsForbiddenControlChars value = false := by
    decide +kernel
  have hParsed : parseMailbox value = some m := by
    decide +kernel
  exact
    ⟨hControl, hParsed,
      ((parseMailbox_grammar value hControl).1 m).mp hParsed⟩

end MailgunRelay
