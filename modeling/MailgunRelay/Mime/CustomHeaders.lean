import MailgunRelay.Mime.AddressHeader
import MailgunRelay.Mime.Head
import MailgunRelay.Mime.LineBudget

/-
  Which custom headers a message may have, and how they are
  written; the message ids of a thread arrive as they came.

  Key definitions include:
    * `MailgunRelay.Mime.Spaced`
    * `MailgunRelay.Mime.IsMessageId`
    * `MailgunRelay.Mime.Sends`
    * `MailgunRelay.Mime.idField`
    * `MailgunRelay.Mime.FoldingLaws`
    * `MailgunRelay.Mime.Threads`

  Key theorems include:
    * `MailgunRelay.Mime.spaced_iff`
    * `MailgunRelay.Mime.isMessageIdList_iff`
    * `MailgunRelay.Mime.customHeaders_eq_some_iff`
    * `MailgunRelay.Mime.build_threads`
-/

------------------------------------------------------------
-- Words
------------------------------------------------------------

namespace MailgunRelay

namespace Mime

/- Words with white space between them, and around. -/
inductive Spaced : List Str → Str → Prop where
  | none
      {blank : Str}
      (hBlank : ∀ c ∈ blank, isWsp c = true) :
      Spaced [] blank
  | word
      {blank word rest : Str}
      {words : List Str}
      (hBlank : ∀ c ∈ blank, isWsp c = true)
      (hNonempty : word ≠ [])
      (hWord : ∀ c ∈ word, isWsp c = false)
      (hGap : ∀ c ∈ rest.head?, isWsp c = true)
      (hRest : Spaced words rest) :
      Spaced (word :: words) (blank ++ (word ++ rest))

/- White space in front changes no words. -/
theorem Spaced.wsp
    {c : Char}
    {words : List Str}
    {text : Str}
    (hWsp : isWsp c = true)
    (hSpaced : Spaced words text) :
    Spaced words (c :: text) := by
  have hFront {blank : Str}
      (hBlank : ∀ d ∈ blank, isWsp d = true) :
      ∀ d ∈ c :: blank, isWsp d = true := by
    rw [List.forall_mem_cons]
    exact ⟨hWsp, hBlank⟩
  cases hSpaced with
  | none hBlank => exact .none (hFront hBlank)
  | word hBlank hNonempty hWord hGap hRest =>
      rw [← List.cons_append]
      exact .word (hFront hBlank) hNonempty hWord hGap hRest

theorem wordsOf_blank
    {blank : Str}
    (hBlank : ∀ c ∈ blank, isWsp c = true)
    (rest : Str) :
    wordsOf (blank ++ rest) = wordsOf rest := by
  induction blank with
  | nil => rfl
  | cons c blank ih =>
      rw [List.forall_mem_cons] at hBlank
      rw [List.cons_append, wordsOf_wsp hBlank.1,
        ih hBlank.2]

/- The words of a text, as they are found in it. -/
theorem spaced_wordsOf
    (text : Str) :
    Spaced (wordsOf text) text := by
  match text with
  | [] =>
      apply Spaced.none
      intro c hMem
      cases hMem
  | c :: rest =>
      by_cases hWsp : isWsp c = true
      · rw [wordsOf_wsp hWsp]
        exact (spaced_wordsOf rest).wsp hWsp
      · -- The word is the longest beginning without space.
        have hSplit :=
          List.takeWhile_append_dropWhile
            (p := fun d => !isWsp d) (l := c :: rest)
        have hFirst :
            (c :: rest).takeWhile (fun d => !isWsp d) =
              c :: rest.takeWhile fun d => !isWsp d := by
          rw [List.takeWhile_cons, if_pos (by simp [hWsp])]
        have hNonempty :
            (c :: rest).takeWhile (fun d => !isWsp d) ≠
              [] := by
          rw [hFirst]
          exact List.cons_ne_nil _ _
        have hWord :
            ∀ d ∈ (c :: rest).takeWhile fun d => !isWsp d,
              isWsp d = false := by
          intro d hMem
          have hHere := List.mem_takeWhile_imp hMem
          rwa [Bool.not_eq_true'] at hHere
        have hGap :
            ∀ d ∈
              ((c :: rest).dropWhile fun d =>
                !isWsp d).head?,
              isWsp d = true := by
          intro d hHead
          have hNot :=
            List.head?_dropWhile_not (fun d => !isWsp d)
              (c :: rest)
          rw [Option.mem_def.mp hHead] at hNot
          simpa using hNot
        have hShorter :
            ((c :: rest).dropWhile fun d =>
                !isWsp d).length <
              (c :: rest).length := by
          have hLength := congrArg List.length hSplit
          rw [List.length_append, hFirst, List.length_cons]
            at hLength
          omega
        have hRest :=
          spaced_wordsOf
            ((c :: rest).dropWhile fun d => !isWsp d)
        have hWords := wordsOf_word hNonempty hWord hGap
        rw [hSplit] at hWords
        rw [hWords]
        have hSpaced :=
          @Spaced.word [] _ _ _ (by simp) hNonempty hWord hGap
            hRest
        rwa [List.nil_append, hSplit] at hSpaced
termination_by text.length
decreasing_by
  · exact Nat.lt_succ_self _
  · exact hShorter

/- A text has one list of words. -/
theorem spaced_iff
    {words : List Str}
    {text : Str} :
    Spaced words text ↔ wordsOf text = words := by
  constructor
  · intro hSpaced
    induction hSpaced with
    | none hBlank =>
        have hWords := wordsOf_blank hBlank []
        rw [List.append_nil] at hWords
        exact hWords
    | word hBlank hNonempty hWord hGap hRest ih =>
        rw [wordsOf_blank hBlank,
          wordsOf_word hNonempty hWord hGap, ih]
  · rintro rfl
    exact spaced_wordsOf text

end Mime

end MailgunRelay

------------------------------------------------------------
-- Message Ids
------------------------------------------------------------

namespace MailgunRelay

namespace Mime

/- Atoms with single dots between them. -/
def IsDotAtomText (text : Str) : Prop :=
  ∃ atoms : List Str, atoms ≠ [] ∧
    (∀ atom ∈ atoms,
      atom ≠ [] ∧ ∀ c ∈ atom, isAtext c = true) ∧
    text = ['.'].intercalate atoms

/- `<left@right>`. -/
def IsMessageId (id : Str) : Prop :=
  ∃ left right, IsDotAtomText left ∧ IsDotAtomText right ∧
    id = '<' :: (left ++ '@' :: right) ++ ['>']

theorem isDotAtomText_iff
    {text : Str} :
    isDotAtomText text = true ↔ IsDotAtomText text := by
  have hAtom (atom : Str) :
      (!atom.isEmpty && atom.all isAtext) = true ↔
        atom ≠ [] ∧ ∀ c ∈ atom, isAtext c = true := by
    rw [Bool.and_eq_true, Bool.not_eq_true',
      List.isEmpty_eq_false_iff, List.all_eq_true]
  unfold isDotAtomText
  simp only [List.all_eq_true, hAtom]
  constructor
  · intro hAtoms
    exact
      ⟨text.splitOn '.', List.splitOnP_ne_nil _ _, hAtoms,
        (List.intercalate_splitOn '.').symm⟩
  · rintro ⟨atoms, hNonempty, hAtoms, rfl⟩
    have hDots : ∀ atom ∈ atoms, '.' ∉ atom := by
      intro atom hMem hDot
      have hChar := (hAtoms atom hMem).2 '.' hDot
      have hNot : isAtext '.' = false := by decide +kernel
      rw [hNot] at hChar
      cases hChar
    rw [List.splitOn_intercalate '.' hDots hNonempty]
    exact hAtoms

/- There is no `@` in an atom. -/
theorem IsDotAtomText.at_notMem
    {text : Str}
    (hText : IsDotAtomText text) :
    '@' ∉ text := by
  rcases hText with ⟨atoms, -, hAtoms, rfl⟩
  intro hMem
  rcases Lib.Text.mem_intercalate hMem with hDot | hAtom
  · cases List.mem_singleton.mp hDot
  · rcases hAtom with ⟨atom, hAtom, hIn⟩
    have hChar := (hAtoms atom hAtom).2 '@' hIn
    have hNot : isAtext '@' = false := by decide +kernel
    rw [hNot] at hChar
    cases hChar

theorem isMessageId_iff
    {id : Str} :
    isMessageId id = true ↔ IsMessageId id := by
  unfold isMessageId
  rw [Bool.and_eq_true, Bool.and_eq_true, Bool.and_eq_true,
    beq_iff_eq, beq_iff_eq, decide_eq_true_eq]
  constructor
  · rintro ⟨⟨⟨hFirst, hLength⟩, hLast⟩, hSides⟩
    cases id with
    | nil => cases hFirst
    | cons first rest =>
        cases hFirst
        have hRest : rest ≠ [] := by
          rintro rfl
          rw [List.length_singleton] at hLength
          omega
        have hEnd : rest.getLast? = some '>' := by
          rw [← hLast, List.getLast?_cons_of_ne_nil hRest]
        rcases List.getLast?_eq_some_iff.mp hEnd with
          ⟨inner, rfl⟩
        rw [List.tail_cons, List.dropLast_concat] at hSides
        cases hSplit : Lib.Text.splitOnce '@' inner with
        | none =>
            rw [hSplit] at hSides
            cases hSides
        | some sides =>
            rw [hSplit, Option.any_some, Bool.and_eq_true]
              at hSides
            rcases
              (Lib.Text.splitOnce_eq_some_iff ..).mp
                hSplit with
              ⟨rfl, -⟩
            exact
              ⟨sides.1, sides.2,
                isDotAtomText_iff.mp hSides.1,
                isDotAtomText_iff.mp hSides.2, rfl⟩
  · rintro ⟨left, right, hLeft, hRight, rfl⟩
    have hSplit :
        Lib.Text.splitOnce '@' (left ++ '@' :: right) =
          some (left, right) :=
      (Lib.Text.splitOnce_eq_some_iff ..).mpr
        ⟨rfl, hLeft.at_notMem⟩
    refine ⟨⟨⟨rfl, ?_⟩, ?_⟩, ?_⟩
    · rw [List.length_append, List.length_cons,
        List.length_singleton]
      omega
    · exact List.getLast?_concat
    · rw [List.cons_append, List.tail_cons,
        List.dropLast_concat, hSplit, Option.any_some,
        Bool.and_eq_true]
      exact
        ⟨isDotAtomText_iff.mpr hLeft,
          isDotAtomText_iff.mpr hRight⟩

/- What `is_message_id_list` accepts. -/
theorem isMessageIdList_iff
    {value : Str} :
    isMessageIdList value = true ↔
      ∃ ids, ids ≠ [] ∧ Spaced ids value ∧
        ∀ id ∈ ids, IsMessageId id := by
  have hWords :
      isMessageIdList value =
        (!(wordsOf value).isEmpty &&
          (wordsOf value).all isMessageId) :=
    rfl
  rw [hWords, Bool.and_eq_true, Bool.not_eq_true',
    List.isEmpty_eq_false_iff, List.all_eq_true]
  simp only [isMessageId_iff]
  constructor
  · rintro ⟨hSome, hIds⟩
    exact ⟨wordsOf value, hSome, spaced_wordsOf value, hIds⟩
  · rintro ⟨ids, hSome, hSpaced, hIds⟩
    rw [spaced_iff.mp hSpaced]
    exact ⟨hSome, hIds⟩

end Mime

end MailgunRelay

------------------------------------------------------------
-- Accepted Headers
------------------------------------------------------------

namespace MailgunRelay

namespace Mime

/- The names of a thread's headers, in lowercase. -/
def threadNames : List Str :=
  ["in-reply-to", "references"].map String.toList

/- Names of `uniqueNames` are left to occur at most so often. -/
def Left (unique names : List Str) : Prop :=
  ∀ name ∈ uniqueNames,
    names.count name ≤
      if unique.contains name then 0 else 1

/- A first name uses up its only occurrence. -/
theorem left_cons_iff
    {unique names : List Str}
    {lower : Str} :
    Left unique (lower :: names) ↔
      ¬ (lower ∈ uniqueNames ∧ lower ∈ unique) ∧
        Left
          (if lower ∈ uniqueNames then lower :: unique
            else unique)
          names := by
  unfold Left
  simp only [List.contains_iff_mem]
  by_cases hUnique : lower ∈ uniqueNames
  · rw [if_pos hUnique]
    constructor
    · intro hLeft
      have hHere := hLeft lower hUnique
      rw [List.count_cons_self] at hHere
      have hNew : lower ∉ unique := by
        intro hMem
        rw [if_pos hMem] at hHere
        omega
      rw [if_neg hNew] at hHere
      refine ⟨fun hBoth => hNew hBoth.2, ?_⟩
      intro name hName
      by_cases hSame : name = lower
      · rw [hSame, if_pos List.mem_cons_self]
        omega
      · have hCount := hLeft name hName
        rw [List.count_cons_of_ne (Ne.symm hSame)] at hCount
        have hMem :
            name ∈ lower :: unique ↔ name ∈ unique := by
          rw [List.mem_cons]
          exact or_iff_right hSame
        simp only [hMem]
        exact hCount
    · rintro ⟨hNew, hLeft⟩ name hName
      by_cases hSame : name = lower
      · have hCount := hLeft name hName
        rw [hSame, if_pos List.mem_cons_self] at hCount
        rw [hSame, List.count_cons_self,
          if_neg fun hMem => hNew ⟨hUnique, hMem⟩]
        omega
      · have hCount := hLeft name hName
        have hMem :
            name ∈ lower :: unique ↔ name ∈ unique := by
          rw [List.mem_cons]
          exact or_iff_right hSame
        simp only [hMem] at hCount
        rw [List.count_cons_of_ne (Ne.symm hSame)]
        exact hCount
  · rw [if_neg hUnique]
    have hCounts :
        ∀ name ∈ uniqueNames,
          (lower :: names).count name = names.count name := by
      intro name hName
      apply List.count_cons_of_ne
      rintro rfl
      exact hUnique hName
    constructor
    · intro hLeft
      refine ⟨fun hBoth => hUnique hBoth.1, ?_⟩
      intro name hName
      rw [← hCounts name hName]
      exact hLeft name hName
    · rintro ⟨-, hLeft⟩ name hName
      rw [hCounts name hName]
      exact hLeft name hName

variable [Base64] [Lettre]

/- A list of message ids is written as it is if it fits. -/
def idField (name value : Str) : Field :=
  { name := name
    value :=
      if isPlain value (byteLen name + 2) then
        Lettre.headerValue name value
      else
        render name [.encode (value.dropWhile isWsp)] }

theorem unstructuredHeader_of_nil
    {value : Str}
    (hWords : encodedWords value = [])
    (name : Str)
    (field : Field) :
    unstructuredHeader name value = some field ↔
      Lettre.headerName name = true ∧
        field = idField name value := by
  unfold unstructuredHeader idField forwardable
  rw [hWords, forwardFrom, List.isEmpty_nil, Bool.not_true,
    if_neg Bool.false_ne_true, List.nil_append,
    List.drop_zero]
  cases Lettre.headerName name with
  | false =>
      constructor
      · intro hNone
        cases hNone
      · intro hBoth
        cases hBoth.1
  | true =>
      rw [Bool.not_true, if_neg Bool.false_ne_true]
      cases isPlain value (byteLen name + 2) with
      | true =>
          constructor
          · intro hSome
            cases hSome
            exact ⟨rfl, rfl⟩
          · rintro ⟨-, rfl⟩
            rfl
      | false =>
          constructor
          · intro hSome
            cases hSome
            exact ⟨rfl, rfl⟩
          · rintro ⟨-, rfl⟩
            rfl

variable [Unicode] [Idna]

/- The field a custom header is sent as. -/
inductive Sends : Str × Str → Field → Prop where
  | replyTo
      {name value : Str}
      {mailboxes : List Mailbox}
      {field : Field}
      (hName : asciiLowercase name = "reply-to".toList)
      (hList : parseMailboxList value = some mailboxes)
      (hBreak : mayDecodeToLineBreak value = false)
      (hField :
        addressHeader "Reply-To".toList mailboxes =
          some field) :
      Sends (name, value) field
  | thread
      {name value : Str}
      {ids : List Str}
      (hName : asciiLowercase name ∈ threadNames)
      (hSome : ids ≠ [])
      (hSpaced : Spaced ids value)
      (hIds : ∀ id ∈ ids, IsMessageId id)
      (hWords : encodedWords value = [])
      (hHeader : Lettre.headerName name = true) :
      Sends (name, value) (idField name value)
  | other
      {name value : Str}
      {field : Field}
      (hName : asciiLowercase name ∉ uniqueNames)
      (hDate : asciiLowercase name ≠ "orig-date".toList)
      (hField : unstructuredHeader name value = some field) :
      Sends (name, value) field

/- The checks of one header. -/
theorem sends_iff
    {name value : Str}
    {field : Field} :
    Sends (name, value) field ↔
      asciiLowercase name ≠ "orig-date".toList ∧
        ¬ ((asciiLowercase name = "in-reply-to".toList ∨
              asciiLowercase name = "references".toList) ∧
            (!(isMessageIdList value &&
              (encodedWords value).isEmpty)) = true) ∧
        customHeader (asciiLowercase name) name value =
          some field := by
  have hThread (lower : Str) :
      lower ∈ threadNames ↔
        lower = "in-reply-to".toList ∨
          lower = "references".toList :=
    List.mem_pair
  have hUnique (lower : Str) :
      lower ∈ uniqueNames ↔
        lower = "reply-to".toList ∨ lower ∈ threadNames := by
    rw [hThread]
    exact List.mem_cons.trans (or_congr_right List.mem_pair)
  have hChecked :
      (!(isMessageIdList value &&
          (encodedWords value).isEmpty)) = true ↔
        ¬ (isMessageIdList value = true ∧
          encodedWords value = []) := by
    rw [Bool.not_eq_true', ← Bool.not_eq_true,
      Bool.and_eq_true, List.isEmpty_iff]
  rw [← hThread, hChecked]
  generalize hLower : asciiLowercase name = lower
  constructor
  · intro hSends
    cases hSends with
    | replyTo hName hList hBreak hField =>
        rw [hLower] at hName
        subst hName
        refine ⟨by decide +kernel, ?_, ?_⟩
        · rintro ⟨hIn, -⟩
          exact absurd hIn (by decide +kernel)
        · unfold customHeader
          rw [if_pos rfl, hList]
          dsimp only [Option.bind_eq_bind, Option.bind_some]
          rw [hBreak]
          exact hField
    | thread hName hSome hSpaced hIds hWords hHeader =>
        rw [hLower] at hName
        have hList : isMessageIdList value = true :=
          isMessageIdList_iff.mpr ⟨_, hSome, hSpaced, hIds⟩
        have hNames :
            (threadNames.all fun lower =>
              lower != "orig-date".toList &&
                lower != "reply-to".toList) = true := by
          decide +kernel
        have hOther := List.all_eq_true.mp hNames lower hName
        rw [Bool.and_eq_true, bne_iff_ne, bne_iff_ne]
          at hOther
        refine ⟨hOther.1, ?_, ?_⟩
        · rintro ⟨-, hNot⟩
          exact hNot ⟨hList, hWords⟩
        · unfold customHeader
          rw [if_neg hOther.2]
          exact
            (unstructuredHeader_of_nil hWords ..).mpr
              ⟨hHeader, rfl⟩
    | other hName hDate hField =>
        rw [hLower] at hName hDate
        rw [hUnique, not_or] at hName
        refine ⟨hDate, fun hBoth => hName.2 hBoth.1, ?_⟩
        unfold customHeader
        rw [if_neg hName.1]
        exact hField
  · rintro ⟨hDate, hCheck, hHeader⟩
    unfold customHeader at hHeader
    by_cases hReply : lower = "reply-to".toList
    · rw [if_pos hReply] at hHeader
      rcases Option.bind_eq_some_iff.mp hHeader with
        ⟨mailboxes, hList, hHeader⟩
      cases hBreak : mayDecodeToLineBreak value with
      | true =>
          rw [hBreak] at hHeader
          cases hHeader
      | false =>
          rw [hBreak] at hHeader
          exact
            .replyTo (hLower.trans hReply) hList hBreak
              hHeader
    · rw [if_neg hReply] at hHeader
      by_cases hName : lower ∈ threadNames
      · rcases not_and_not_right.mp hCheck hName with
          ⟨hList, hWords⟩
        rcases isMessageIdList_iff.mp hList with
          ⟨ids, hSome, hSpaced, hIds⟩
        rcases
          (unstructuredHeader_of_nil hWords ..).mp hHeader with
          ⟨hOk, rfl⟩
        rw [← hLower] at hName
        exact .thread hName hSome hSpaced hIds hWords hOk
      · rw [← hLower] at hReply hName hDate
        refine .other ?_ hDate hHeader
        rw [hUnique, not_or]
        exact ⟨hReply, hName⟩

/- The checks of a list, header by header. -/
theorem customHeaders_cons_iff
    {unique : List Str}
    {name value : Str}
    {headers : List (Str × Str)}
    {fields : List Field} :
    customHeaders unique ((name, value) :: headers) =
        some fields ↔
      ∃ field later,
        fields = field :: later ∧
          ¬ (asciiLowercase name ∈ uniqueNames ∧
            asciiLowercase name ∈ unique) ∧
          Sends (name, value) field ∧
          customHeaders
              (if asciiLowercase name ∈ uniqueNames then
                asciiLowercase name :: unique
              else
                unique)
              headers =
            some later := by
  rw [customHeaders]
  constructor
  · intro hCustom
    by_cases hDate : asciiLowercase name = "orig-date".toList
    · rw [if_pos hDate] at hCustom
      cases hCustom
    rw [if_neg hDate] at hCustom
    by_cases hTaken :
        asciiLowercase name ∈ uniqueNames ∧
          asciiLowercase name ∈ unique
    · rw [if_pos hTaken] at hCustom
      cases hCustom
    rw [if_neg hTaken] at hCustom
    by_cases hIds :
        (asciiLowercase name = "in-reply-to".toList ∨
            asciiLowercase name = "references".toList) ∧
          (!(isMessageIdList value &&
            (encodedWords value).isEmpty)) = true
    · rw [if_pos hIds] at hCustom
      cases hCustom
    rw [if_neg hIds] at hCustom
    rcases Option.bind_eq_some_iff.mp hCustom with
      ⟨field, hField, hCustom⟩
    rcases Option.bind_eq_some_iff.mp hCustom with
      ⟨later, hLater, hEnd⟩
    cases hEnd
    exact
      ⟨field, later, rfl, hTaken,
        sends_iff.mpr ⟨hDate, hIds, hField⟩, hLater⟩
  · rintro ⟨field, later, rfl, hTaken, hSends, hLater⟩
    rcases sends_iff.mp hSends with ⟨hDate, hIds, hField⟩
    rw [if_neg hDate, if_neg hTaken, if_neg hIds, hField]
    dsimp only [Option.bind_eq_bind, Option.bind_some]
    rw [hLater]
    rfl

/- With the names that may not occur again. -/
theorem customHeaders_iff_left
    {unique : List Str}
    {headers : List (Str × Str)}
    {fields : List Field} :
    customHeaders unique headers = some fields ↔
      List.Forall₂ Sends headers fields ∧
        Left unique
          (headers.map fun header =>
            asciiLowercase header.1) := by
  induction headers generalizing unique fields with
  | nil =>
      constructor
      · intro hCustom
        cases hCustom
        exact ⟨.nil, fun name _ => Nat.zero_le _⟩
      · rintro ⟨hAll, -⟩
        cases hAll
        rfl
  | cons header headers ih =>
      rw [List.map_cons, left_cons_iff]
      refine customHeaders_cons_iff.trans ?_
      constructor
      · rintro ⟨field, later, rfl, hTaken, hSends, hLater⟩
        rcases ih.mp hLater with ⟨hAll, hLeft⟩
        exact ⟨.cons hSends hAll, hTaken, hLeft⟩
      · rintro ⟨hAll, hTaken, hLeft⟩
        cases hAll with
        | @cons _ field _ later hSends hAll =>
            exact
              ⟨field, later, rfl, hTaken, hSends,
                ih.mpr ⟨hAll, hLeft⟩⟩

/-
  The custom headers that are sent: each by its own rules,
  in their order, and no name of a thread or Reply-To twice
  in any case.
-/
theorem customHeaders_eq_some_iff
    {headers : List (Str × Str)}
    {fields : List Field} :
    customHeaders [] headers = some fields ↔
      List.Forall₂ Sends headers fields ∧
        ∀ name ∈ uniqueNames,
          (headers.map fun header =>
            asciiLowercase header.1).count name ≤ 1 := by
  rw [customHeaders_iff_left]
  rfl

end Mime

end MailgunRelay

------------------------------------------------------------
-- Threads
------------------------------------------------------------

namespace MailgunRelay

namespace Mime

/- Where a name occurs once, its field is the only one. -/
theorem filter_eq_singleton
    {fields : List Field}
    {field : Field}
    {lower : Str}
    (hMem : field ∈ fields)
    (hName : asciiLowercase field.name = lower)
    (hOnce :
      (fields.map fun field =>
        asciiLowercase field.name).count lower ≤ 1) :
    (fields.filter fun field =>
        asciiLowercase field.name == lower) =
      [field] := by
  have hFound :
      field ∈ fields.filter fun field =>
        asciiLowercase field.name == lower :=
    List.mem_filter.mpr ⟨hMem, beq_iff_eq.mpr hName⟩
  have hLength :
      (fields.filter fun field =>
        asciiLowercase field.name == lower).length ≤ 1 := by
    rw [← List.countP_eq_length_filter]
    rw [List.count_eq_countP, List.countP_map] at hOnce
    exact hOnce
  generalize
    (fields.filter fun field =>
      asciiLowercase field.name == lower) = found
    at hFound hLength
  cases found with
  | nil => cases hFound
  | cons first later =>
      have hLater : later = [] := by
        apply List.length_eq_zero_iff.mp
        rw [List.length_cons] at hLength
        omega
      rw [hLater] at hFound ⊢
      rw [List.mem_singleton.mp hFound]

variable [Base64] [Lettre]

theorem addressHeader_name
    {name : Str}
    {mailboxes : List Mailbox}
    {field : Field}
    (hField : addressHeader name mailboxes = some field) :
    field.name = name := by
  unfold addressHeader at hField
  rcases Option.bind_eq_some_iff.mp hField with
    ⟨ops, -, hEnd⟩
  cases hEnd
  rfl

theorem recipientHeader_name
    {name : Str}
    {mailboxes : List Mailbox}
    {fields : List Field}
    (hFields : recipientHeader name mailboxes = some fields)
    {field : Field}
    (hMem : field ∈ fields) :
    field.name = name := by
  unfold recipientHeader at hFields
  split at hFields
  · cases hFields
    cases hMem
  · rcases Option.bind_eq_some_iff.mp hFields with
      ⟨only, hField, hEnd⟩
    cases hEnd
    rw [List.mem_singleton.mp hMem]
    exact addressHeader_name hField

theorem unstructuredHeader_name
    {name value : Str}
    {field : Field}
    (hField : unstructuredHeader name value = some field) :
    field.name = name := by
  unfold unstructuredHeader at hField
  split at hField
  · cases hField
  split at hField
  · rcases Option.bind_eq_some_iff.mp hField with
      ⟨text, -, hEnd⟩
    cases hEnd
    rfl
  split at hField
  · cases hField
  · cases hField
    rfl

/-
  What is assumed of `HeaderValue::new` here: a plain value
  is written as it came, with breaks in front of spaces.
-/
structure FoldingLaws [Lettre] : Prop where
  folds : ∀ name value, value.all isPlainChar = true →
    Lib.Folding.Folds (Lettre.headerValue name value) value

omit [Base64] in
/- A writer of lines in bounds folds. -/
theorem LineLaws.foldingLaws
    (hLaws : LineLaws) :
    FoldingLaws := by
  constructor
  intro name value hPlain
  have hFolds := (hLaws.value name value hPlain).folds
  have hText :
      (pieceChunks false value).flatMap
          Lib.Layout.Chunk.text =
        value := by
    have hPieces := flatten_pieces value
    unfold pieceChunks
    generalize pieces value = parts at hPieces ⊢
    cases parts with
    | nil => exact hPieces
    | cons first later =>
        dsimp only
        rw [List.flatMap_cons, List.flatMap_map,
          List.flatMap_id']
        exact hPieces
  rw [hText] at hFolds
  exact hFolds

omit [Base64] in
/- A value that fits is read as it came. -/
theorem unfold_idField
    (hLaws : FoldingLaws)
    {name value : Str}
    (hFits : isPlain value (byteLen name + 2) = true) :
    Lib.Folding.unfold (idField name value).value = value := by
  have hPlain := ((isPlain_iff ..).mp hFits).1
  unfold idField
  rw [if_pos hFits]
  exact
    (hLaws.folds name value hPlain).unfold_eq
      (unbroken_of_plain hPlain)

variable [Unicode] [Idna]

/- A custom header keeps its name, up to its case. -/
theorem Sends.name_eq
    {header : Str × Str}
    {field : Field}
    (hSends : Sends header field) :
    asciiLowercase field.name = asciiLowercase header.1 := by
  cases hSends with
  | replyTo hName hList hBreak hField =>
      rw [addressHeader_name hField, hName]
      decide +kernel
  | thread => rfl
  | other hName hDate hField =>
      rw [unstructuredHeader_name hField]

theorem sends_names
    {headers : List (Str × Str)}
    {fields : List Field}
    (hAll : List.Forall₂ Sends headers fields) :
    (fields.map fun field => asciiLowercase field.name) =
      headers.map fun header => asciiLowercase header.1 := by
  induction hAll with
  | nil => rfl
  | cons hFirst hRest ih =>
      rw [List.map_cons, List.map_cons, hFirst.name_eq, ih]

/- The other fields of a head name no thread. -/
theorem Head.count_thread
    {date : Str}
    {input : MessageInput}
    {«to» cc : List Mailbox}
    {messageId : Str}
    {fields : List Field}
    (hHead : Head date input «to» cc messageId fields)
    {lower : Str}
    (hLower : lower ∈ threadNames) :
    ∃ front custom,
      customHeaders [] input.headers = some custom ∧
        fields = front ++ custom ∧
        lower ∉ front.map fun field =>
          asciiLowercase field.name := by
  rcases hHead.parts with
    ⟨fromField, toFields, ccFields, subject, custom, hFrom,
      hTo, hCc, hSubject, hCustom, rfl⟩
  refine ⟨_, custom, hCustom, rfl, ?_⟩
  have hFixed :
      (threadNames.all fun lower =>
        ["From", "To", "Cc", "Subject", "Message-ID", "Date",
          "MIME-Version"].all fun name =>
            asciiLowercase name.toList != lower) = true := by
    decide +kernel
  have hOther (name : String)
      (hMem :
        name ∈ ["From", "To", "Cc", "Subject", "Message-ID",
          "Date", "MIME-Version"]) :
      asciiLowercase name.toList ≠ lower :=
    bne_iff_ne.mp
      (List.all_eq_true.mp
        (List.all_eq_true.mp hFixed lower hLower) name hMem)
  intro hMem
  rcases List.mem_map.mp hMem with ⟨field, hField, hName⟩
  simp only [List.cons_append, List.mem_cons,
    List.mem_append, List.not_mem_nil, or_false] at hField
  rcases hField with
    rfl | (hField | hField) | rfl | rfl | rfl | rfl
  · rw [addressHeader_name hFrom] at hName
    exact hOther "From" (by decide) hName
  · rw [recipientHeader_name hTo hField] at hName
    exact hOther "To" (by decide) hName
  · rw [recipientHeader_name hCc hField] at hName
    exact hOther "Cc" (by decide) hName
  · rw [unstructuredHeader_name hSubject] at hName
    exact hOther "Subject" (by decide) hName
  · exact hOther "Message-ID" (by decide) hName
  · exact hOther "Date" (by decide) hName
  · exact hOther "MIME-Version" (by decide) hName

/-
  The only field of a head with a name, in any case, and the
  message ids a reader finds in it.
-/
structure Threads
    (name value : Str)
    (fields : List Field)
    (field : Field)
    (ids : List Str) : Prop where
  only :
    (fields.filter fun field =>
        asciiLowercase field.name == asciiLowercase name) =
      [field]
  named : field.name = name
  unfolded : Lib.Folding.unfold field.value = value
  nonempty : ids ≠ []
  spaced : Spaced ids value
  messageIds : ∀ id ∈ ids, IsMessageId id

/-
  A message belongs to its thread: the In-Reply-To and the
  References it was given are each its only ones, and are
  read as they came, lists of message ids.
-/
theorem build_threads
    (hLaws : FoldingLaws)
    {hex : Option Str}
    {date : Str}
    {input : MessageInput}
    {message : BuiltMessage}
    (hBuild : build hex date input = .ok message)
    {name value : Str}
    (hHeader : (name, value) ∈ input.headers)
    (hName : asciiLowercase name ∈ threadNames)
    (hFits : isPlain value (byteLen name + 2) = true) :
    ∃ fields tree field ids,
      message.formatted =
          utf8 (List.flatMap Field.render fields) ++
            Tree.formatted tree ∧
        Threads name value fields field ids := by
  rcases fields_of_build hBuild with
    ⟨«to», cc, fields, tree, -, -, hHead, hFormatted⟩
  rcases hHead.count_thread hName with
    ⟨front, custom, hCustom, rfl, hFront⟩
  rcases customHeaders_iff_left.mp hCustom with
    ⟨hAll, hLeft⟩
  rcases Lib.Assoc.exists_of_mem_left hAll hHeader with
    ⟨field, hField, hSends⟩
  have hUnique : asciiLowercase name ∈ uniqueNames :=
    List.mem_cons_of_mem _ hName
  have hOnce := hLeft _ hUnique
  rw [List.contains_nil, if_neg Bool.false_ne_true,
    ← sends_names hAll] at hOnce
  have hFilter :
      ((front ++ custom).filter fun field =>
          asciiLowercase field.name ==
            asciiLowercase name) =
        [field] := by
    apply filter_eq_singleton
      (List.mem_append_right front hField) hSends.name_eq
    rw [List.map_append, List.count_append,
      List.count_eq_zero_of_not_mem hFront, Nat.zero_add]
    exact hOnce
  cases hSends with
  | replyTo hReply =>
      have hNot :
          (threadNames.all fun lower =>
            lower != "reply-to".toList) = true := by
        decide +kernel
      exact
        absurd hReply
          (bne_iff_ne.mp (List.all_eq_true.mp hNot _ hName))
  | other hOther => exact absurd hUnique hOther
  | @thread _ _ ids _ hSome hSpaced hIds hWords hOk =>
      exact
        ⟨front ++ custom, tree, idField name value, ids,
          hFormatted,
          { only := hFilter
            named := rfl
            unfolded := unfold_idField hLaws hFits
            nonempty := hSome
            spaced := hSpaced
            messageIds := hIds }⟩

omit [Base64] [Lettre] [Unicode] [Idna] in
theorem build_threads_reply :
    let _ : Unicode := .ascii
    let _ : Idna := .ascii
    let _ : Base64 := .standard
    let _ : Lettre := .folding
    let mailbox : Mailbox :=
      { displayName := []
        «local» := "a".toList
        domain := "b.de".toList }
    let input : MessageInput :=
      { «from» := mailbox
        «to» := ["c@d.de".toList]
        cc := []
        bcc := []
        subject := "Re: x".toList
        text := some "y".toList
        html := none
        ampHtml := none
        headers :=
          [("References".toList, "<1@a.de> <2@a.de>".toList),
            ("In-Reply-To".toList, "<2@a.de>".toList)]
        inline := []
        attachments := []
        publicHost := "b.de".toList }
    ∃ message field,
      build (some "0f".toList) "now".toList input =
          .ok message ∧
        Lib.Folding.unfold (field : Field).value =
          "<2@a.de>".toList := by
  intro _ _ _ _ mailbox input
  have hOk :
      (build (some "0f".toList) "now".toList
        input).isOk = true := by
    decide +kernel
  rcases Lib.exists_of_isOk hOk with ⟨message, hBuild⟩
  rcases
    build_threads folding_lineLaws.foldingLaws hBuild
      (List.mem_cons_of_mem _ List.mem_cons_self)
      (by decide +kernel) (by decide +kernel) with
    ⟨fields, tree, field, ids, -, hThreads⟩
  exact ⟨message, field, hBuild, hThreads.unfolded⟩

end Mime

end MailgunRelay
