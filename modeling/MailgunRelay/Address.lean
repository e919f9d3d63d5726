import MailgunRelay.Lib.Text
import MailgunRelay.Domain
import MailgunRelay.Headers

/-
  Mailbox parsing and address validation (`address.rs`).

  A parser takes the characters that are left and returns
  those it leaves; every failure is the same
  `InvalidAddress`, so it is `none`.

  Key definitions include:
    * `MailgunRelay.Mailbox`
    * `MailgunRelay.skipCfws`
    * `MailgunRelay.quoted`
    * `MailgunRelay.mailbox`
    * `MailgunRelay.parseMailbox`
    * `MailgunRelay.parseMailboxList`
    * `MailgunRelay.validate`

  Key theorems include:
    * `MailgunRelay.validate_eq_some_iff`
    * `MailgunRelay.mailbox_of_parseMailbox`
    * `MailgunRelay.mailbox_of_mem_mailboxes`
-/

------------------------------------------------------------
-- Mailboxes
------------------------------------------------------------

namespace MailgunRelay

/-
  One mailbox: the display name and the addr-spec with an
  A-label domain.
-/
structure Mailbox where
  displayName : Str
  «local» : Str
  domain : Str
  deriving DecidableEq

/- The addr-spec for headers and the envelope. -/
def Mailbox.addrSpec (m : Mailbox) : Str :=
  m.local ++ '@' :: m.domain

/- The form compared with `allowed_from_addresses`. -/
def Mailbox.policyAddress (m : Mailbox) : Str :=
  asciiLowercase m.local ++ '@' :: m.domain

end MailgunRelay

------------------------------------------------------------
-- Characters
------------------------------------------------------------

namespace MailgunRelay

def isWsp (c : Char) : Bool :=
  c == ' ' || c == '\t'

/- Characters of an unquoted display-name word. -/
def isWordChar (c : Char) : Bool :=
  !isWsp c && !"()<>@,:;\"[]\\".toList.contains c

/- Characters of an addr-spec token. -/
def isAddrChar (c : Char) : Bool :=
  !isWsp c && !"()<>,:;\"[]\\".toList.contains c

/- Characters of a comment. -/
def isCommentChar (c : Char) : Bool :=
  !"()\\\",".toList.contains c

/- Characters of an unquoted local part. -/
def isAtext (c : Char) : Bool :=
  c.isAlphanum || "!#$%&'*+-/=?^_`{|}~".toList.contains c

end MailgunRelay

------------------------------------------------------------
-- The Addr-Spec
------------------------------------------------------------

namespace MailgunRelay

/- Role names that are lowercased. -/
def caseInsensitiveMailboxNames : List Str :=
  ["info", "marketing", "sales", "support", "abuse", "noc",
    "security", "postmaster", "hostmaster", "usenet",
    "news", "webmaster", "www", "uucp", "ftp"].map
    String.toList

/- Atoms separated by single dots. -/
def isDotAtom (s : Str) : Bool :=
  !s.isEmpty && (s.splitOn '.').all fun atom =>
    !atom.isEmpty && atom.all isAtext

/- The local part as sent. -/
def sentLocal (s : Str) : Str :=
  if caseInsensitiveMailboxNames.contains
      (asciiLowercase s) then
    asciiLowercase s
  else
    s

/- Lowering forgets the role names. -/
theorem asciiLowercase_sentLocal
    (name : Str) :
    asciiLowercase (sentLocal name) = asciiLowercase name := by
  unfold sentLocal
  split
  · exact asciiLowercase_idem name
  · rfl

/- The characters of a dot-atom. -/
theorem isDotAtom_char
    {name : Str}
    (hAtom : isDotAtom name = true)
    {c : Char}
    (hMem : c ∈ name) :
    c = '.' ∨ isAtext c = true := by
  by_cases hDot : c = '.'
  · exact .inl hDot
  · rcases Lib.Text.mem_splitOn hMem hDot with
      ⟨atom, hAtomMem, hIn⟩
    simp only [isDotAtom, Bool.and_eq_true,
      List.all_eq_true] at hAtom
    exact .inr ((hAtom.2 atom hAtomMem).2 c hIn)

/- Letters and digits are ASCII and no white space. -/
theorem isAlphanum_plain
    {c : Char}
    (hAlnum : c.isAlphanum = true) :
    isAsciiChar c = true ∧ isPySpace c = false ∧ c ≠ '@' := by
  have hVal : c.toNat = c.val.toNat := rfl
  have hRange :
      48 ≤ c.toNat ∧ c.toNat ≤ 57 ∨
        65 ≤ c.toNat ∧ c.toNat ≤ 90 ∨
          97 ≤ c.toNat ∧ c.toNat ≤ 122 := by
    delta Char.isAlphanum Char.isAlpha Char.isUpper
      Char.isLower Char.isDigit at hAlnum
    simp only [Bool.or_eq_true, Bool.and_eq_true,
      decide_eq_true_eq, ge_iff_le, UInt32.le_iff_toNat_le,
      ← hVal] at hAlnum
    simp at hAlnum
    omega
  refine ⟨?_, ?_, ?_⟩
  · simp only [isAsciiChar, decide_eq_true_eq]
    omega
  · rw [Bool.eq_false_iff]
    intro hSpace
    simp only [isPySpace, Bool.or_eq_true, Bool.and_eq_true,
      decide_eq_true_eq, beq_iff_eq] at hSpace
    omega
  · rintro rfl
    simp at hRange

/- They are ASCII, and none is white space or an at sign. -/
theorem isDotAtom_plain
    {name : Str}
    (hAtom : isDotAtom name = true)
    {c : Char}
    (hMem : c ∈ name) :
    isAsciiChar c = true ∧ isPySpace c = false ∧ c ≠ '@' := by
  rcases isDotAtom_char hAtom hMem with rfl | hAtext
  · decide
  · simp only [isAtext, Bool.or_eq_true] at hAtext
    rcases hAtext with hAlnum | hListed
    · exact isAlphanum_plain hAlnum
    · have hAll :
          ("!#$%&'*+-/=?^_`{|}~".toList.all fun c =>
            isAsciiChar c && !isPySpace c && c != '@') =
              true := by
        decide +kernel
      simpa [and_assoc] using
        List.all_eq_true.mp hAll c
          (List.contains_iff_mem.mp hListed)

variable [Unicode] [Idna]

/-
  The addr-spec rules: a dot-atom local part, the domain
  rules, and at most 254 bytes in each form.
-/
def validate
    (token displayName : Str) : Option Mailbox := do
  let (name, rawDomain) ← Lib.Text.splitOnce '@' token
  if !isDotAtom name then
    none
  let domain ← addressDomain rawDomain
  let unicode := (Idna.domainToUnicode domain).1
  let longest :=
    max (max (byteLen rawDomain) (byteLen unicode))
      (byteLen domain)
  if byteLen name + 1 + longest > 254 then
    none
  some
    { displayName := displayName
      «local» := sentLocal name
      domain := domain }

/- What a valid token consists of. -/
structure Validates
    (token displayName name rawDomain : Str)
    (m : Mailbox) : Prop where
  split :
    Lib.Text.splitOnce '@' token = some (name, rawDomain)
  dotAtom : isDotAtom name = true
  domain : addressDomain rawDomain = some m.domain
  short :
    byteLen name + 1 +
        max
          (max (byteLen rawDomain)
            (byteLen (Idna.domainToUnicode m.domain).1))
          (byteLen m.domain) ≤ 254
  «local» : m.local = sentLocal name
  displayName : m.displayName = displayName

theorem validate_eq_some_iff
    {token displayName : Str}
    {m : Mailbox} :
    validate token displayName = some m ↔
      ∃ name rawDomain,
        Validates token displayName name rawDomain m := by
  unfold validate
  constructor
  · intro hSome
    cases hSplit : Lib.Text.splitOnce '@' token with
    | none => simp [hSplit] at hSome
    | some sides =>
        rcases sides with ⟨name, rawDomain⟩
        simp only [hSplit, Option.bind_eq_bind,
          Option.bind_some] at hSome
        split at hSome
        · simp at hSome
        rename_i hAtom
        cases hDomain : addressDomain rawDomain with
        | none => simp [hDomain] at hSome
        | some domain =>
            simp only [hDomain, Option.bind_some] at hSome
            split at hSome
            · simp at hSome
            rename_i hShort
            cases hSome
            exact
              ⟨name, rawDomain,
                { split := hSplit
                  dotAtom := by simpa using hAtom
                  domain := hDomain
                  short := Nat.le_of_not_lt hShort
                  «local» := rfl
                  displayName := rfl }⟩
  · rintro ⟨name, rawDomain, h⟩
    have hShort := Nat.not_lt.mpr h.short
    have hMailbox :
        { displayName := displayName
          «local» := sentLocal name
          domain := m.domain } = m := by
      rw [← h.local, ← h.displayName]
    simp only [h.split, h.dotAtom, h.domain,
      Option.bind_eq_bind, Option.bind_some, Bool.not_true,
      Bool.false_eq_true, if_false, gt_iff_lt, hShort]
    exact congrArg some hMailbox

end MailgunRelay

------------------------------------------------------------
-- Comments And Quoted Strings
------------------------------------------------------------

namespace MailgunRelay

/-
  Whitespace and comments; comment texts are appended to
  `comments`.
-/
def skipCfws
    (comments : List Str) :
    Str → Option (Str × List Str)
| [] => some ([], comments)
| c :: rest =>
    if isWsp c then
      skipCfws comments rest
    else if c = '(' then
      match _hAfter : rest.dropWhile isCommentChar with
      | ')' :: rest' =>
          skipCfws
            (comments ++ [rest.takeWhile isCommentChar])
            rest'
      | _ => none
    else
      some (c :: rest, comments)
termination_by cs => cs.length
decreasing_by
  · simp
  · have hLength :=
      List.length_dropWhile_le isCommentChar rest
    rw [_hAfter] at hLength
    simp only [List.length_cons] at hLength ⊢
    omega

/-
  The rest of a quoted string after its opening quote,
  unescaped.
-/
def quoted : Str → Option (Str × Str)
| [] => none
| '"' :: rest => some ([], rest)
| '\\' :: c :: rest =>
    (quoted rest).map fun p => (c :: p.1, p.2)
| '\\' :: [] => none
| c :: rest => (quoted rest).map fun p => (c :: p.1, p.2)

/- Skipping leaves no more than there was. -/
theorem length_skipCfws
    {comments comments' : List Str}
    {cs rest : Str}
    (hSkip : skipCfws comments cs = some (rest, comments')) :
    rest.length ≤ cs.length := by
  fun_induction skipCfws comments cs with
  | case1 comments =>
      simp only [Option.some.injEq, Prod.mk.injEq] at hSkip
      simp [← hSkip.1]
  | case2 comments c cs hWsp ih =>
      have h := ih hSkip
      simp only [List.length_cons]
      omega
  | case3 comments cs rest' hAfter hWsp ih =>
      have h := ih hSkip
      have hLength :=
        List.length_dropWhile_le isCommentChar cs
      rw [hAfter] at hLength
      simp only [List.length_cons] at hLength ⊢
      omega
  | case4 => simp at hSkip
  | case5 comments c cs hWsp hOpen =>
      simp only [Option.some.injEq, Prod.mk.injEq] at hSkip
      simp [← hSkip.1]

/- The closing quote is consumed. -/
theorem length_quoted
    {cs text rest : Str}
    (hQuoted : quoted cs = some (text, rest)) :
    rest.length < cs.length := by
  fun_induction quoted cs generalizing text with
  | case1 => simp at hQuoted
  | case2 cs =>
      simp only [Option.some.injEq, Prod.mk.injEq] at hQuoted
      simp [← hQuoted.2]
  | case3 c cs ih =>
      simp only [Option.map_eq_some_iff, Prod.exists,
        Prod.mk.injEq] at hQuoted
      rcases hQuoted with ⟨text', rest', hTail, -, rfl⟩
      have h := ih hTail
      simp only [List.length_cons]
      omega
  | case4 => simp at hQuoted
  | case5 c cs hQuote hEscape hEnd ih =>
      simp only [Option.map_eq_some_iff, Prod.exists,
        Prod.mk.injEq] at hQuoted
      rcases hQuoted with ⟨text', rest', hTail, -, rfl⟩
      have h := ih hTail
      simp only [List.length_cons]
      omega

end MailgunRelay

------------------------------------------------------------
-- Parsing
------------------------------------------------------------

namespace MailgunRelay

/-
  `[phrase] <`: the words, the comments, and what follows
  the bracket.
-/
def phrase
    (comments words : List Str)
    (cs : Str) : Option (List Str × List Str × Str) :=
  match _hSkip : skipCfws comments cs with
  | none => none
  | some ([], _) => none
  | some (c :: rest, comments') =>
      if c = '"' then
        match _hQuoted : quoted rest with
        | none => none
        | some (text, rest') =>
            phrase comments' (words ++ [text]) rest'
      else if isWordChar c then
        phrase comments'
          (words ++ [(c :: rest).takeWhile isWordChar])
          (rest.dropWhile isWordChar)
      else if c = '<' then
        some (words, comments', rest)
      else
        none
termination_by cs.length
decreasing_by
  · have hSkipped := length_skipCfws _hSkip
    have hClosed := length_quoted _hQuoted
    simp only [List.length_cons] at hSkipped
    omega
  · have hSkipped := length_skipCfws _hSkip
    have hLength :=
      List.length_dropWhile_le isWordChar rest
    simp only [List.length_cons] at hSkipped
    omega

/-
  The words joined by one space, then the comments before
  the bracket in parentheses.
-/
def phraseName (words comments : List Str) : Str :=
  let joined := [' '].intercalate words
  if comments.isEmpty then
    joined
  else
    joined ++ " (".toList ++ [' '].intercalate comments ++
      [')']

/- Nothing but whitespace and comments is left. -/
def onlyCfws
    (comments : List Str)
    (cs : Str) : Option (List Str) :=
  match skipCfws comments cs with
  | some ([], comments') => some comments'
  | _ => none

variable [Unicode] [Idna]

/- `addr [CFWS]` or `[phrase] < addr > [CFWS]`. -/
def mailbox (chars : Str) : Option Mailbox := do
  let (rest, comments) ← skipCfws [] chars
  let token := rest.takeWhile isAddrChar
  if token.contains '@' then
    -- The display name is the comments, joined.
    let comments ←
      onlyCfws comments (rest.dropWhile isAddrChar)
    validate token ([' '].intercalate comments)
  else
    let (words, comments, rest) ← phrase comments [] rest
    let rest := rest.dropWhile isWsp
    let token := rest.takeWhile isAddrChar
    match (rest.dropWhile isAddrChar).dropWhile isWsp with
    | '>' :: rest => do
        -- Comments after the bracket are dropped.
        let _ ← onlyCfws [] rest
        validate token (phraseName words comments)
    | _ => none

/- One mailbox per value (`from`, `to`, `cc`, `bcc`). -/
def parseMailbox (value : Str) : Option Mailbox :=
  if containsForbiddenControlChars value then
    none
  else
    mailbox value

/-
  The mailboxes of a list, separated by commas outside
  quoted strings; `element` is the one being read.
-/
def mailboxes
    (quoted escaped : Bool)
    (element : Str) : Str → Option (List Mailbox)
| [] => (mailbox element).map fun m => [m]
| c :: rest =>
    if escaped then
      mailboxes quoted false (element ++ [c]) rest
    else if c = '\\' && quoted then
      mailboxes quoted true (element ++ [c]) rest
    else if c = '"' then
      mailboxes (!quoted) false (element ++ [c]) rest
    else if c = ',' && !quoted then do
      let m ← mailbox element
      let ms ← mailboxes quoted false [] rest
      some (m :: ms)
    else
      mailboxes quoted false (element ++ [c]) rest

/- An address list (`h:Reply-To`). -/
def parseMailboxList
    (value : Str) : Option (List Mailbox) :=
  if containsForbiddenControlChars value then
    none
  else
    mailboxes false false [] value

/- A bare addr-spec (`ENVELOPE_SENDER`). -/
def parseAddrSpec (value : Str) : Option Mailbox :=
  if !value.all isAddrChar then
    none
  else
    validate value []

/- A mailbox has an addr-spec that was validated. -/
theorem validate_of_mailbox
    {chars : Str}
    {m : Mailbox}
    (hMailbox : mailbox chars = some m) :
    ∃ token displayName,
      validate token displayName = some m := by
  unfold mailbox at hMailbox
  simp only [Option.bind_eq_bind,
    Option.bind_eq_some_iff] at hMailbox
  rcases hMailbox with ⟨⟨rest, comments⟩, -, hMailbox⟩
  dsimp only at hMailbox
  split at hMailbox
  · rcases Option.bind_eq_some_iff.mp hMailbox with
      ⟨comments', -, hValid⟩
    exact ⟨_, _, hValid⟩
  · rcases Option.bind_eq_some_iff.mp hMailbox with
      ⟨⟨words, comments', rest'⟩, -, hMailbox⟩
    dsimp only at hMailbox
    split at hMailbox
    · rcases Option.bind_eq_some_iff.mp hMailbox with
        ⟨_, -, hValid⟩
      exact ⟨_, _, hValid⟩
    · cases hMailbox

theorem mailbox_of_parseMailbox
    {value : Str}
    {m : Mailbox}
    (hParsed : parseMailbox value = some m) :
    mailbox value = some m := by
  unfold parseMailbox at hParsed
  split at hParsed
  · cases hParsed
  · exact hParsed

/- The mailboxes of a list are read from its elements. -/
theorem mailbox_of_mem_mailboxes
    {inQuotes escaped : Bool}
    {element rest : Str}
    {ms : List Mailbox}
    (hParsed :
      mailboxes inQuotes escaped element rest = some ms)
    {m : Mailbox}
    (hMem : m ∈ ms) :
    ∃ element', mailbox element' = some m := by
  fun_induction mailboxes inQuotes escaped element rest
    generalizing ms with
  | case1 inQuotes escaped element =>
      rcases Option.map_eq_some_iff.mp hParsed with
        ⟨m', hElement, rfl⟩
      cases List.mem_singleton.mp hMem
      exact ⟨element, hElement⟩
  | case2 => rename_i ih; exact ih hParsed hMem
  | case3 => rename_i ih; exact ih hParsed hMem
  | case4 => rename_i ih; exact ih hParsed hMem
  | case5 =>
      rename_i ih
      rcases Option.bind_eq_some_iff.mp hParsed with
        ⟨m', hElement, hParsed⟩
      rcases Option.bind_eq_some_iff.mp hParsed with
        ⟨ms', hRest, hEnd⟩
      cases hEnd
      rcases List.mem_cons.mp hMem with rfl | hLater
      · exact ⟨_, hElement⟩
      · exact ih hRest hLater
  | case6 => rename_i ih; exact ih hParsed hMem

end MailgunRelay
