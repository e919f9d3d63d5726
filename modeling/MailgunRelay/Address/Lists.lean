import MailgunRelay.Address.Grammar

/-
  The commas of an address list.

  The list is split by two flags that know neither comments
  nor brackets, and each element is then parsed. Scanning a
  mailbox leaves the flags as they were and meets no comma
  outside quotes, so the splitter cuts a list where its
  mailboxes end.

  Key definitions include:
    * `MailgunRelay.scanQuotes`
    * `MailgunRelay.elements`

  Key theorems include:
    * `MailgunRelay.Grammar.scanQuotes`
    * `MailgunRelay.elements_intercalate`
    * `MailgunRelay.parseMailboxList_split`
-/

------------------------------------------------------------
-- Splitting
------------------------------------------------------------

namespace MailgunRelay

/-
  The flags behind a text, or nothing when it has a comma
  outside quotes.
-/
def scanQuotes
    (quoted escaped : Bool) : Str → Option (Bool × Bool)
| [] => some (quoted, escaped)
| c :: rest =>
    if escaped then
      scanQuotes quoted false rest
    else if c = '\\' && quoted then
      scanQuotes quoted true rest
    else if c = '"' then
      scanQuotes (!quoted) false rest
    else if c = ',' && !quoted then
      none
    else
      scanQuotes quoted false rest

/- The elements that `mailboxes` parses. -/
def elements
    (quoted escaped : Bool)
    (element : Str) : Str → List Str
| [] => [element]
| c :: rest =>
    if escaped then
      elements quoted false (element ++ [c]) rest
    else if c = '\\' && quoted then
      elements quoted true (element ++ [c]) rest
    else if c = '"' then
      elements (!quoted) false (element ++ [c]) rest
    else if c = ',' && !quoted then
      element :: elements quoted false [] rest
    else
      elements quoted false (element ++ [c]) rest

/- Scanning goes on where it stopped. -/
theorem scanQuotes_append
    {quoted escaped : Bool}
    {text : Str}
    (rest : Str) :
    scanQuotes quoted escaped (text ++ rest) =
      (scanQuotes quoted escaped text).bind fun flags =>
        scanQuotes flags.1 flags.2 rest := by
  fun_induction scanQuotes quoted escaped text with
  | case1 => rfl
  | case2 quoted c text ih =>
      rw [List.cons_append, scanQuotes, if_pos rfl]
      exact ih
  | case3 quoted escaped c text hEscaped hEscape ih =>
      rw [List.cons_append, scanQuotes, if_neg hEscaped,
        if_pos hEscape]
      exact ih
  | case4 quoted escaped text hEscaped hEscape ih =>
      rw [List.cons_append, scanQuotes, if_neg hEscaped,
        if_neg hEscape, if_pos rfl]
      exact ih
  | case5 quoted escaped c text hEscaped hEscape hQuote
      hComma =>
      rw [List.cons_append, scanQuotes, if_neg hEscaped,
        if_neg hEscape, if_neg hQuote, if_pos hComma]
      rfl
  | case6 quoted escaped c text hEscaped hEscape hQuote
      hComma ih =>
      rw [List.cons_append, scanQuotes, if_neg hEscaped,
        if_neg hEscape, if_neg hQuote, if_neg hComma]
      exact ih

/- Nothing is escaped outside quotes. -/
theorem scanQuotes_escaped
    {quoted escaped : Bool}
    {text : Str}
    {flags : Bool × Bool}
    (hScan : scanQuotes quoted escaped text = some flags)
    (hBefore : escaped = true → quoted = true) :
    flags.2 = true → flags.1 = true := by
  fun_induction scanQuotes quoted escaped text with
  | case1 =>
      cases hScan
      exact hBefore
  | case2 quoted c text ih => exact ih hScan nofun
  | case3 quoted escaped c text hEscaped hEscape ih =>
      refine ih hScan fun _ => ?_
      rw [Bool.and_eq_true] at hEscape
      exact hEscape.2
  | case4 quoted escaped text hEscaped hEscape ih =>
      exact ih hScan nofun
  | case5 => cases hScan
  | case6 quoted escaped c text hEscaped hEscape hQuote
      hComma ih =>
      exact ih hScan nofun

/- What has no comma outside quotes is not split. -/
theorem elements_append
    {quoted escaped : Bool}
    {text : Str}
    {flags : Bool × Bool}
    (hScan : scanQuotes quoted escaped text = some flags)
    (element rest : Str) :
    elements quoted escaped element (text ++ rest) =
      elements flags.1 flags.2 (element ++ text) rest := by
  fun_induction scanQuotes quoted escaped text
    generalizing element with
  | case1 =>
      cases hScan
      rw [List.nil_append, List.append_nil]
  | case2 quoted c text ih =>
      rw [List.cons_append, elements, if_pos rfl, ih hScan]
      simp
  | case3 quoted escaped c text hEscaped hEscape ih =>
      rw [List.cons_append, elements, if_neg hEscaped,
        if_pos hEscape, ih hScan]
      simp
  | case4 quoted escaped text hEscaped hEscape ih =>
      rw [List.cons_append, elements, if_neg hEscaped,
        if_neg hEscape, if_pos rfl, ih hScan]
      simp
  | case5 => cases hScan
  | case6 quoted escaped c text hEscaped hEscape hQuote
      hComma ih =>
      rw [List.cons_append, elements, if_neg hEscaped,
        if_neg hEscape, if_neg hQuote, if_neg hComma,
        ih hScan]
      simp

/- A comma outside quotes splits. -/
theorem elements_comma
    (element rest : Str) :
    elements false false element (',' :: rest) =
      element :: elements false false [] rest := by
  simp [elements]

/- Values with no comma outside quotes are split again. -/
theorem elements_intercalate
    {values : List Str}
    (hNonempty : values ≠ [])
    (hScan :
      ∀ value ∈ values,
        scanQuotes false false value = some (false, false)) :
    elements false false [] ([','].intercalate values) =
      values := by
  induction values with
  | nil => exact absurd rfl hNonempty
  | cons value values ih =>
      have hValue := hScan value List.mem_cons_self
      cases values with
      | nil =>
          have hEnd := elements_append hValue [] []
          rw [List.append_nil, List.nil_append] at hEnd
          rw [List.intercalate_singleton, hEnd]
          rfl
      | cons value' values =>
          rw [List.intercalate_cons_cons, List.append_assoc,
            elements_append hValue, List.singleton_append,
            elements_comma, List.nil_append,
            ih (List.cons_ne_nil _ _) fun v hMem =>
              hScan v (List.mem_cons_of_mem _ hMem)]

/- The elements make up the text. -/
theorem intercalate_elements
    {quoted escaped : Bool}
    {element rest : Str} :
    [','].intercalate (elements quoted escaped element rest) =
        element ++ rest ∧
      elements quoted escaped element rest ≠ [] := by
  fun_induction elements quoted escaped element rest with
  | case1 element => simp
  | case2 quoted element c rest ih => simpa using ih
  | case3 quoted escaped element c rest hEscaped hEscape ih =>
      simpa using ih
  | case4 quoted escaped element rest hEscaped hEscape ih =>
      simpa using ih
  | case5 quoted escaped element c rest hEscaped hEscape
      hQuote hComma ih =>
      have hChar : c = ',' := by
        simp only [Bool.and_eq_true, decide_eq_true_eq]
          at hComma
        exact hComma.1
      refine ⟨?_, List.cons_ne_nil _ _⟩
      rcases List.exists_cons_of_ne_nil ih.2 with
        ⟨next, more, hElements⟩
      have hJoin := ih.1
      rw [hElements] at hJoin ⊢
      rw [List.intercalate_cons_cons, hJoin, hChar]
      simp
  | case6 quoted escaped element c rest hEscaped hEscape
      hQuote hComma ih =>
      simpa using ih

end MailgunRelay

------------------------------------------------------------
-- Scanning A Mailbox
------------------------------------------------------------

namespace MailgunRelay

/- Text without quotes and commas. -/
theorem scanQuotes_plain
    {text : Str}
    (hPlain : ∀ c ∈ text, c ≠ '"' ∧ c ≠ ',') :
    scanQuotes false false text = some (false, false) := by
  induction text with
  | nil => rfl
  | cons c text ih =>
      have hFirst := hPlain c List.mem_cons_self
      simpa [scanQuotes, hFirst.1, hFirst.2] using
        ih fun d hMem => hPlain d (List.mem_cons_of_mem _ hMem)

/- Such a text changes nothing for what follows it. -/
theorem scanQuotes_plain_append
    {text : Str}
    (hPlain : ∀ c ∈ text, c ≠ '"' ∧ c ≠ ',')
    (rest : Str) :
    scanQuotes false false (text ++ rest) =
      scanQuotes false false rest := by
  rw [scanQuotes_append, scanQuotes_plain hPlain]
  rfl

/- A class of characters without quotes and commas. -/
theorem plain_of_all
    {p : Char → Bool}
    (hQuote : p '"' = false)
    (hComma : p ',' = false)
    {text : Str}
    (hText : text.all p = true) :
    ∀ c ∈ text, c ≠ '"' ∧ c ≠ ',' := by
  intro c hMem
  have hClass := List.all_eq_true.mp hText c hMem
  constructor
  · rintro rfl
    rw [hQuote] at hClass
    cases hClass
  · rintro rfl
    rw [hComma] at hClass
    cases hClass

theorem Cfws.plain
    {ws : Str}
    {comments : List Str}
    (hCfws : Cfws ws comments) :
    ∀ c ∈ ws, c ≠ '"' ∧ c ≠ ',' := by
  induction hCfws with
  | nil => nofun
  | @wsp c ws comments hWsp hRest ih =>
      have hOne : [c].all isWsp = true := by simp [hWsp]
      intro d hMem
      rcases List.mem_cons.mp hMem with rfl | hLater
      · exact
          plain_of_all (by decide) (by decide) hOne d
            List.mem_cons_self
      · exact ih d hLater
  | @comment text ws comments hText hRest ih =>
      have hPlain :=
        plain_of_all (by decide) (by decide) hText
      intro d hMem
      simp only [List.mem_cons, List.mem_append] at hMem
      rcases hMem with rfl | hInside | rfl | hLater
      · decide
      · exact hPlain d hInside
      · decide
      · exact ih d hLater

/- A quoted string ends with the flags it started with. -/
theorem QuotedText.scanQuotes
    {inner text : Str}
    (hInner : QuotedText inner text)
    (rest : Str) :
    MailgunRelay.scanQuotes true false (inner ++ '"' :: rest) =
      MailgunRelay.scanQuotes false false rest := by
  induction hInner with
  | nil => simp [MailgunRelay.scanQuotes]
  | escape hRest ih =>
      simpa [MailgunRelay.scanQuotes] using ih
  | plain hQuote hEscape hRest ih =>
      simpa [MailgunRelay.scanQuotes, hQuote, hEscape] using ih

/- So does a phrase. -/
theorem Phrase.scanQuotes
    {text : Str}
    {words comments : List Str}
    (hPhrase : Phrase text words comments)
    (rest : Str) :
    MailgunRelay.scanQuotes false false (text ++ rest) =
      MailgunRelay.scanQuotes false false rest := by
  induction hPhrase with
  | nil => rfl
  | word hNonempty hWord hCfws hEnd hRest ih =>
      have hPlain :=
        plain_of_all (by decide) (by decide) hWord
      rw [List.append_assoc, List.append_assoc,
        scanQuotes_plain_append hPlain,
        scanQuotes_plain_append hCfws.plain, ih]
  | @quoted inner text ws rest' comments words comments'
      hInner hCfws hRest ih =>
      have hOpen :
          MailgunRelay.scanQuotes false false
              ('"' :: (inner ++ '"' :: (ws ++ rest')) ++ rest) =
            MailgunRelay.scanQuotes true false
              (inner ++ '"' :: (ws ++ (rest' ++ rest))) := by
        simp [MailgunRelay.scanQuotes]
      rw [hOpen, hInner.scanQuotes,
        scanQuotes_plain_append hCfws.plain, ih]

/- A mailbox has no comma outside quotes and closes them. -/
theorem Grammar.scanQuotes
    {chars : Str}
    {form : MailboxForm}
    (hGrammar : Grammar chars form) :
    MailgunRelay.scanQuotes false false chars =
      some (false, false) := by
  cases hGrammar with
  | bare hBefore hAddr hAt hAfter =>
      rw [scanQuotes_plain_append hBefore.plain,
        scanQuotes_plain_append
          (plain_of_all (by decide) (by decide) hAddr)]
      exact scanQuotes_plain hAfter.plain
  | angle hBefore hPhrase hRun hWsp hAddr hWsp' hAfter =>
      have hOpen :
          ∀ c ∈ ['<'], c ≠ '"' ∧ c ≠ ',' := by
        simp
      have hClose :
          ∀ c ∈ ['>'], c ≠ '"' ∧ c ≠ ',' := by
        simp
      rw [scanQuotes_plain_append hBefore.plain,
        hPhrase.scanQuotes,
        ← List.singleton_append,
        scanQuotes_plain_append hOpen,
        scanQuotes_plain_append
          (plain_of_all (by decide) (by decide) hWsp),
        scanQuotes_plain_append
          (plain_of_all (by decide) (by decide) hAddr),
        scanQuotes_plain_append
          (plain_of_all (by decide) (by decide) hWsp'),
        ← List.singleton_append,
        scanQuotes_plain_append hClose]
      exact scanQuotes_plain hAfter.plain

end MailgunRelay

------------------------------------------------------------
-- Lists
------------------------------------------------------------

namespace MailgunRelay

/- A list is free of control characters with its values. -/
theorem control_intercalate
    {values : List Str} :
    containsForbiddenControlChars
        ([','].intercalate values) =
      values.any containsForbiddenControlChars := by
  have hComma : isForbiddenControl ',' = false := by decide
  induction values with
  | nil => simp [containsForbiddenControlChars]
  | cons value values ih =>
      cases values with
      | nil => simp
      | cons value' values =>
          have hSplit :
              containsForbiddenControlChars
                  ([','].intercalate
                    (value :: value' :: values)) =
                (containsForbiddenControlChars value ||
                  containsForbiddenControlChars
                    ([','].intercalate
                      (value' :: values))) := by
            rw [List.intercalate_cons_cons]
            simp [containsForbiddenControlChars, hComma]
          rw [hSplit, ih]
          rfl

variable [Unicode] [Idna]

theorem parseMailbox_eq_some_iff
    {value : Str}
    {m : Mailbox} :
    parseMailbox value = some m ↔
      containsForbiddenControlChars value = false ∧
        mailbox value = some m := by
  unfold parseMailbox
  split
  · rename_i hControl
    simp [hControl]
  · rename_i hControl
    simp [hControl]

/- An accepted value leaves the splitter where it was. -/
theorem scanQuotes_of_parseMailbox
    {value : Str}
    {m : Mailbox}
    (hParsed : parseMailbox value = some m) :
    scanQuotes false false value = some (false, false) := by
  rcases
    mailbox_eq_some_iff.mp (mailbox_of_parseMailbox hParsed) with
    ⟨form, hGrammar, -⟩
  exact hGrammar.scanQuotes

/- The parser reads the elements one after another. -/
theorem mailboxes_eq_some_iff
    {quoted escaped : Bool}
    {element rest : Str}
    {ms : List Mailbox} :
    mailboxes quoted escaped element rest = some ms ↔
      (elements quoted escaped element rest).map mailbox =
        ms.map some := by
  fun_induction elements quoted escaped element rest
    generalizing ms with
  | case1 quoted escaped element =>
      rw [mailboxes, Option.map_eq_some_iff]
      constructor
      · rintro ⟨m, hElement, rfl⟩
        simp [hElement]
      · intro hMap
        cases ms with
        | nil => cases hMap
        | cons m ms =>
            simp only [List.map_cons, List.map_nil,
              List.cons.injEq, List.nil_eq,
              List.map_eq_nil_iff] at hMap
            exact ⟨m, hMap.1, by rw [hMap.2]⟩
  | case2 quoted element c rest ih =>
      rw [mailboxes, if_pos rfl]
      exact ih
  | case3 quoted escaped element c rest hEscaped hEscape ih =>
      rw [mailboxes, if_neg hEscaped, if_pos hEscape]
      exact ih
  | case4 quoted escaped element rest hEscaped hEscape ih =>
      rw [mailboxes, if_neg hEscaped, if_neg hEscape,
        if_pos rfl]
      exact ih
  | case5 quoted escaped element c rest hEscaped hEscape
      hQuote hComma ih =>
      rw [mailboxes, if_neg hEscaped, if_neg hEscape,
        if_neg hQuote, if_pos hComma]
      simp only [Option.bind_eq_bind,
        Option.bind_eq_some_iff, Option.some.injEq]
      constructor
      · rintro ⟨m, hElement, ms', hRest, rfl⟩
        rw [List.map_cons, List.map_cons, hElement,
          ih.mp hRest]
      · intro hMap
        cases ms with
        | nil => cases hMap
        | cons m ms =>
            rw [List.map_cons, List.map_cons,
              List.cons.injEq] at hMap
            exact ⟨m, hMap.1, ms, ih.mpr hMap.2, rfl⟩
  | case6 quoted escaped element c rest hEscaped hEscape
      hQuote hComma ih =>
      rw [mailboxes, if_neg hEscaped, if_neg hEscape,
        if_neg hQuote, if_neg hComma]
      exact ih

/- Values that are accepted are read from their list. -/
theorem parseMailboxList_intercalate
    {values : List Str}
    {ms : List Mailbox}
    (hNonempty : values ≠ [])
    (hParsed : values.map parseMailbox = ms.map some) :
    parseMailboxList ([','].intercalate values) = some ms := by
  have hAccepted :
      ∀ value ∈ values, ∃ m, parseMailbox value = some m := by
    intro value hMem
    have hIn := List.mem_map_of_mem (f := parseMailbox) hMem
    rw [hParsed] at hIn
    rcases List.mem_map.mp hIn with ⟨m, -, hValue⟩
    exact ⟨m, hValue.symm⟩
  have hControl :
      containsForbiddenControlChars
        ([','].intercalate values) = false := by
    rw [control_intercalate, List.any_eq_false]
    intro value hMem
    rcases hAccepted value hMem with ⟨m, hValue⟩
    rw [(parseMailbox_eq_some_iff.mp hValue).1]
    exact Bool.false_ne_true
  have hMailboxes : values.map mailbox = ms.map some := by
    rw [← hParsed]
    refine List.map_congr_left fun value hMem => ?_
    rcases hAccepted value hMem with ⟨m, hValue⟩
    rw [hValue, mailbox_of_parseMailbox hValue]
  rw [parseMailboxList, hControl, if_neg Bool.false_ne_true,
    mailboxes_eq_some_iff,
    elements_intercalate hNonempty fun value hMem =>
      (hAccepted value hMem).elim fun _ =>
        scanQuotes_of_parseMailbox]
  exact hMailboxes

/- An accepted list is made of accepted values. -/
theorem parseMailboxList_elements
    {value : Str}
    {ms : List Mailbox}
    (hParsed : parseMailboxList value = some ms) :
    (elements false false [] value).map parseMailbox =
      ms.map some := by
  unfold parseMailboxList at hParsed
  split at hParsed
  · cases hParsed
  rename_i hControl
  rw [← mailboxes_eq_some_iff.mp hParsed]
  have hJoin :
      [','].intercalate (elements false false [] value) =
        value :=
    intercalate_elements.1
  rw [← hJoin, control_intercalate, Bool.not_eq_true,
    List.any_eq_false] at hControl
  refine List.map_congr_left fun element hMem => ?_
  rw [parseMailbox, if_neg (hControl element hMem)]

/-
  Accepted values joined by commas are the list of their
  mailboxes. An accepted list comes apart in one way into
  accepted values, and they give its mailboxes. A comma in
  an accepted value is inside quotes.
-/
theorem parseMailboxList_split :
    (∀ (values : List Str) (ms : List Mailbox),
      values ≠ [] →
        values.map parseMailbox = ms.map some →
          parseMailboxList ([','].intercalate values) =
            some ms) ∧
    (∀ (text : Str) (ms : List Mailbox),
      parseMailboxList text = some ms →
        ∃ values : List Str,
          values ≠ [] ∧
            [','].intercalate values = text ∧
            values.map parseMailbox = ms.map some ∧
            ∀ values' : List Str,
              values' ≠ [] →
                [','].intercalate values' = text →
                (∀ value ∈ values',
                  (parseMailbox value).isSome = true) →
                values' = values) ∧
    (∀ (before after : Str) (m : Mailbox),
      parseMailbox (before ++ ',' :: after) = some m →
        ∃ escaped,
          scanQuotes false false before =
            some (true, escaped)) := by
  refine
    ⟨fun values ms => parseMailboxList_intercalate, ?_, ?_⟩
  · intro text ms hParsed
    refine
      ⟨elements false false [] text, intercalate_elements.2,
        intercalate_elements.1, parseMailboxList_elements hParsed, ?_⟩
    rintro values' hNonempty rfl hAccepted
    refine
      (elements_intercalate hNonempty fun value hMem => ?_).symm
    rcases Option.isSome_iff_exists.mp (hAccepted value hMem) with
      ⟨m, hValue⟩
    exact scanQuotes_of_parseMailbox hValue
  · intro before after m hParsed
    have hScan := scanQuotes_of_parseMailbox hParsed
    rw [scanQuotes_append] at hScan
    rcases Option.bind_eq_some_iff.mp hScan with
      ⟨⟨quoted, escaped⟩, hBefore, hComma⟩
    cases quoted with
    | true => exact ⟨escaped, hBefore⟩
    | false =>
        have hPlain : escaped = false := by
          rw [Bool.eq_false_iff]
          intro hEscaped
          cases scanQuotes_escaped hBefore nofun hEscaped
        cases hPlain
        cases hComma

omit [Unicode] [Idna] in
/- A comma in quotes, and one between the values. -/
theorem parseMailboxList_split_quoted :
    let _ : Unicode := .ascii
    let _ : Idna := .ascii
    let values :=
      ["\"a,\\\"b\" <a@x.de>".toList, "c@x.de (d)".toList]
    let ms : List Mailbox :=
      [{ displayName := "a,\"b".toList
         «local» := "a".toList
         domain := "x.de".toList },
       { displayName := "d".toList
         «local» := "c".toList
         domain := "x.de".toList }]
    parseMailboxList ([','].intercalate values) = some ms := by
  intro _ _ values ms
  have hParsed : values.map parseMailbox = ms.map some := by
    decide +kernel
  exact parseMailboxList_split.1 values ms nofun hParsed

end MailgunRelay
