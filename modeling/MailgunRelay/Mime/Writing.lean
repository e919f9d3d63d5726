import MailgunRelay.Lib.Folding
import MailgunRelay.Mime.Forward

/-
  What the header writers write: the text that is handed to
  them in its order, with text to be encoded as words, and
  with folds.

  Key definitions include:
    * `MailgunRelay.Mime.EncodesText`
    * `MailgunRelay.Mime.Writes`
    * `MailgunRelay.Mime.WriterLaws`
    * `MailgunRelay.Mime.WrittenMailbox`
    * `MailgunRelay.Lettre.unfolded`

  Key theorems include:
    * `MailgunRelay.Mime.isPlainChar_ascii`
    * `MailgunRelay.Mime.forwardable_chars`
    * `MailgunRelay.Mime.addressHeader_written`
-/

------------------------------------------------------------
-- Characters
------------------------------------------------------------

namespace MailgunRelay

namespace Mime

theorem isPlainChar_ascii
    {c : Char}
    (hPlain : isPlainChar c = true) :
    isAsciiChar c = true := by
  simp only [isPlainChar, Bool.or_eq_true, beq_iff_eq,
    Bool.and_eq_true, decide_eq_true_eq] at hPlain
  rcases hPlain with rfl | ⟨-, hLast⟩
  · decide
  · have hLe : c.toNat ≤ '~'.toNat := hLast
    have hTilde : '~'.toNat = 126 := rfl
    apply decide_eq_true
    omega

/- The characters a written word has besides its charset. -/
def isOwnChar (c : Char) : Bool :=
  c.isAlphanum || "+/=?-".toList.contains c

theorem isOwnChar_ascii
    {c : Char}
    (hOwn : isOwnChar c = true) :
    isAsciiChar c = true := by
  unfold isOwnChar at hOwn
  rw [Bool.or_eq_true] at hOwn
  rcases hOwn with hAlnum | hListed
  · exact (isAlphanum_plain hAlnum).1
  · have hAll :
        ("+/=?-".toList.all isAsciiChar) = true := by
      decide
    exact
      List.all_eq_true.mp hAll c
        (List.contains_iff_mem.mp hListed)

/- They are printable and have no meaning to a parser. -/
theorem isOwnChar_spec
    {c : Char}
    (hOwn : isOwnChar c = true) :
    isPlainChar c = true ∧ isWordChar c = true ∧
      specials.contains c = false := by
  have hAscii := isOwnChar_ascii hOwn
  revert hOwn
  exact
    forall_ascii
      (P := fun c => isOwnChar c = true →
        isPlainChar c = true ∧ isWordChar c = true ∧
          specials.contains c = false)
      (by decide +kernel) hAscii

variable [Base64]

theorem piece_chars
    (hBase64 : Base64Laws)
    {charset : Str}
    {chunk : Bytes}
    {c : Char}
    (hMem : c ∈ (piece charset chunk).written) :
    c ∈ charset ∨ isOwnChar c = true := by
  simp only [piece, Token.written, List.mem_cons,
    List.mem_append, List.not_mem_nil, or_false] at hMem
  rcases hMem with rfl | rfl | hCharset | rfl | rfl | rfl |
    hText | rfl | rfl
  case inr.inr.inl => exact .inl hCharset
  case inr.inr.inr.inr.inr.inr.inl =>
    right
    unfold isOwnChar
    rcases hBase64.alphabet chunk c hText with
      hAlnum | rfl | rfl | rfl
    · rw [hAlnum]
      rfl
    · decide
    · decide
    · decide
  all_goals
    right
    decide

theorem writtenPieces_chars
    (hBase64 : Base64Laws)
    {charset : Str}
    {chunks : List Bytes}
    {c : Char}
    (hMem : c ∈ writtenPieces charset chunks) :
    c ∈ charset ∨ isOwnChar c = true ∨ c = ' ' := by
  rcases Lib.Text.mem_intercalate hMem with
    hSpace | ⟨part, hPart, hIn⟩
  · exact .inr (.inr (List.mem_singleton.mp hSpace))
  · rcases List.mem_map.mp hPart with ⟨chunk, -, rfl⟩
    rcases piece_chars hBase64 hIn with hCharset | hOwn
    · exact .inl hCharset
    · exact .inr (.inl hOwn)

/- Forwarding adds only words and spaces. -/
theorem Forwarded.chars
    (hBase64 : Base64Laws)
    {input output : Str}
    (hForwarded : Forwarded input output)
    {c : Char}
    (hMem : c ∈ output) :
    c ∈ input ∨ isOwnChar c = true ∨ c = ' ' := by
  induction hForwarded with
  | rest hShort => exact .inl hMem
  | @split text input output token bytes chunks hShort hEnds
      hStarts hToken hLong hDecode hChunks hRest ih =>
      rw [List.mem_append, List.mem_append] at hMem
      rcases hMem with hText | hPieces | hOutput
      · exact .inl (List.mem_append_left _ hText)
      · rcases writtenPieces_chars hBase64 hPieces with
          hCharset | hOther
        · left
          simp [Token.written, hCharset]
        · exact .inr hOther
      · rcases ih hOutput with hInput | hOther
        · left
          simp [hInput]
        · exact .inr hOther

theorem forwardable_chars
    (hBase64 : Base64Laws)
    {value text : Str}
    {phrase isQuoted : Bool}
    (hForward :
      forwardable value phrase isQuoted = some text)
    {c : Char}
    (hMem : c ∈ text) :
    c ∈ value ∨ isOwnChar c = true ∨ c = ' ' := by
  have hAll : encodedWords value = [] ++ encodedWords value :=
    rfl
  rcases forwarded_of_forwardFrom hBase64 hForward hAll nofun
    with ⟨tail, rfl, hForwarded⟩
  exact hForwarded.chars hBase64 hMem

/- Without encoded words a value is forwarded as it is. -/
theorem forwardable_of_noWords
    {value : Str}
    (hWords : encodedWords value = [])
    (phrase isQuoted : Bool) :
    forwardable value phrase isQuoted = some value := by
  rw [forwardable, hWords]
  rfl

/- A quoted value is never split. -/
theorem forwardFrom_quoted
    {value out text : Str}
    {phrase : Bool}
    {copied : Nat}
    {words : List EncodedWord}
    (hForward :
      forwardFrom value phrase true copied out words =
        some text) :
    text = out ++ value.drop copied := by
  induction words with
  | nil =>
      cases hForward
      rfl
  | cons word words ih =>
      rw [forwardFrom] at hForward
      rcases Option.bind_eq_some_iff.mp hForward with
        ⟨bytes, -, hForward⟩
      split at hForward
      · cases hForward
      split at hForward
      · exact ih hForward
      · rw [Bool.true_or, Bool.true_or, if_pos rfl] at hForward
        cases hForward

theorem forwardable_quoted
    {value text : Str}
    {phrase : Bool}
    (hForward : forwardable value phrase true = some text) :
    text = value :=
  forwardFrom_quoted hForward

end Mime

end MailgunRelay

------------------------------------------------------------
-- Writers
------------------------------------------------------------

namespace MailgunRelay

namespace Mime

variable [Base64]

/- A word as `email_encoding` writes it. -/
structure OwnWord (token : Token) : Prop where
  charset : token.charset = "utf-8".toList
  encoding : token.cte = 'b'
  text : ∀ c ∈ token.text,
    c.isAlphanum = true ∨ c = '+' ∨ c = '/' ∨ c = '='

/-
  `rfc2047::encode`: words between spaces that are decoded
  to the text, one after another.
-/
structure EncodesText
    (text : Str)
    (words : List (Token × Bytes)) : Prop where
  own : ∀ word ∈ words, OwnWord word.1
  decoded : ∀ word ∈ words, word.1.decode = some word.2
  whole : (words.map Prod.snd).flatten = utf8 text

/- The words as they are written. -/
def writtenWords (words : List (Token × Bytes)) : Str :=
  [' '].intercalate (words.map fun word => word.1.written)

/- The text that is written, in the order of the writer. -/
inductive Writes : List WriterOp → Str → Prop where
  | nil : Writes [] []
  | text
      {s written : Str} {ops : List WriterOp}
      (hRest : Writes ops written) :
      Writes (.text s :: ops) (s ++ written)
  | folding
      {s written : Str} {ops : List WriterOp}
      (hRest : Writes ops written) :
      Writes (.folding s :: ops) (s ++ written)
  | space
      {written : Str} {ops : List WriterOp}
      (hRest : Writes ops written) :
      Writes (.space :: ops) (' ' :: written)
  | encode
      {s written : Str} {ops : List WriterOp}
      {words : List (Token × Bytes)}
      (hWords : EncodesText s words)
      (hRest : Writes ops written) :
      Writes (.encode s :: ops)
        (writtenWords words ++ written)

/- What is assumed of the header writer. -/
structure WriterLaws [Lettre] : Prop where
  folds : ∀ room ops, ∃ text,
    Writes ops text ∧
      Lib.Folding.Folds (Lettre.emailWriter room ops) text

/- Writing is writing one part after another. -/
theorem writes_append
    {ops ops' : List WriterOp}
    {text : Str}
    (hWrites : Writes (ops ++ ops') text) :
    ∃ front back,
      Writes ops front ∧ Writes ops' back ∧
        text = front ++ back := by
  induction ops generalizing text with
  | nil => exact ⟨[], text, .nil, hWrites, rfl⟩
  | cons op ops ih =>
      cases hWrites with
      | text hRest =>
          rcases ih hRest with ⟨front, back, hF, hB, rfl⟩
          exact ⟨_, back, .text hF, hB, by simp⟩
      | folding hRest =>
          rcases ih hRest with ⟨front, back, hF, hB, rfl⟩
          exact ⟨_, back, .folding hF, hB, by simp⟩
      | space hRest =>
          rcases ih hRest with ⟨front, back, hF, hB, rfl⟩
          exact ⟨_, back, .space hF, hB, by simp⟩
      | encode hWords hRest =>
          rcases ih hRest with ⟨front, back, hF, hB, rfl⟩
          exact ⟨_, back, .encode hWords hF, hB, by simp⟩

omit [Base64] in
theorem OwnWord.chars
    {token : Token}
    (hOwn : OwnWord token)
    {c : Char}
    (hMem : c ∈ token.written) :
    isOwnChar c = true := by
  have hCharset : ("utf-8".toList.all isOwnChar) = true := by
    decide
  simp only [Token.written, hOwn.charset, hOwn.encoding,
    List.mem_cons, List.mem_append, List.not_mem_nil,
    or_false] at hMem
  rcases hMem with rfl | rfl | hName | rfl | rfl | rfl |
    hText | rfl | rfl
  case inr.inr.inl =>
    exact List.all_eq_true.mp hCharset c hName
  case inr.inr.inr.inr.inr.inr.inl =>
    unfold isOwnChar
    rcases hOwn.text c hText with hAlnum | rfl | rfl | rfl
    · rw [hAlnum]
      rfl
    · decide
    · decide
    · decide
  all_goals decide

theorem EncodesText.chars
    {text : Str}
    {words : List (Token × Bytes)}
    (hWords : EncodesText text words)
    {c : Char}
    (hMem : c ∈ writtenWords words) :
    isOwnChar c = true ∨ c = ' ' := by
  rcases Lib.Text.mem_intercalate hMem with
    hSpace | ⟨part, hPart, hIn⟩
  · exact .inr (List.mem_singleton.mp hSpace)
  · rcases List.mem_map.mp hPart with ⟨word, hWord, rfl⟩
    exact .inl ((hWords.own word hWord).chars hIn)

end Mime

end MailgunRelay

------------------------------------------------------------
-- Mailboxes
------------------------------------------------------------

namespace MailgunRelay

namespace Mime

variable [Base64]

/-
  A display name as it is written: as received, with quotes
  where it needs them, or as words.
-/
inductive WrittenDisplay (display : Str) : Str → Prop where
  | received
      {text : Str}
      (hPlain : display.all isPlainChar = true)
      (hForward :
        forwardable display true (needsQuotes display) =
          some text) :
      WrittenDisplay display (shown display text)
  | encoded
      {words : List (Token × Bytes)}
      (hNone : encodedWords display = [])
      (hWords :
        EncodesText
          (if needsQuotes display then display
            else collapse display)
          words) :
      WrittenDisplay display (writtenWords words)

/- A mailbox as it is written. -/
inductive WrittenMailbox (m : Mailbox) : Str → Prop where
  | bare
      (hNone : m.displayName = []) :
      WrittenMailbox m m.addrSpec
  | named
      {text : Str}
      (hName : m.displayName ≠ [])
      (hDisplay : WrittenDisplay m.displayName text) :
      WrittenMailbox m
        (text ++ ' ' :: '<' :: (m.addrSpec ++ ['>']))

omit [Base64] in
/- Quoting adds characters and keeps all. -/
theorem mem_quote_of_mem
    {text : Str}
    {c : Char}
    (hMem : c ∈ text) :
    c ∈ quote text := by
  unfold quote
  apply List.mem_cons_of_mem
  apply List.mem_append_left
  apply List.mem_flatMap.mpr
  refine ⟨c, hMem, ?_⟩
  split
  · simp
  · simp

omit [Base64] in
theorem mem_of_mem_quote
    {text : Str}
    {c : Char}
    (hMem : c ∈ quote text) :
    c = '"' ∨ c = '\\' ∨ c ∈ text := by
  unfold quote at hMem
  rw [List.mem_append, List.mem_cons, List.mem_singleton]
    at hMem
  rcases hMem with (rfl | hIn) | rfl
  · exact .inl rfl
  · rcases List.mem_flatMap.mp hIn with ⟨d, hD, hChar⟩
    split at hChar
    · rcases List.mem_cons.mp hChar with rfl | hLast
      · exact .inr (.inl rfl)
      · rw [List.mem_singleton.mp hLast]
        exact .inr (.inr hD)
    · rw [List.mem_singleton.mp hChar]
      exact .inr (.inr hD)
  · exact .inl rfl

omit [Base64] in
/- A plain form has a plain text. -/
theorem plain_of_isPlain_shown
    {display text : Str}
    {reserve : Nat}
    (hPlain : isPlain (shown display text) reserve = true) :
    text.all isPlainChar = true := by
  unfold isPlain at hPlain
  rw [Bool.and_eq_true, List.all_eq_true] at hPlain
  rw [List.all_eq_true]
  intro c hMem
  apply hPlain.1 c
  unfold shown
  split
  · exact mem_quote_of_mem hMem
  · exact hMem

theorem writtenDisplay_of_write
    {prefixLen : Nat}
    {display text : Str}
    {op : WriterOp}
    (hWrite : writeDisplay prefixLen display = some op)
    (hWrites : Writes [op] text) :
    WrittenDisplay display text := by
  unfold writeDisplay at hWrite
  split at hWrite
  · rename_i hPlain
    rcases Option.map_eq_some_iff.mp hWrite with
      ⟨received, hForward, rfl⟩
    cases hWrites with
    | folding hRest =>
        cases hRest
        rw [List.append_nil]
        exact
          .received (plain_of_isPlain_shown hPlain) hForward
  split at hWrite
  · cases hWrite
  rename_i hWords
  have hNone : encodedWords display = [] := by
    simpa using hWords
  split at hWrite
  · rename_i hQuotes
    cases hWrite
    cases hWrites with
    | encode hEncodes hRest =>
        cases hRest
        rw [List.append_nil]
        apply WrittenDisplay.encoded hNone
        rw [if_pos hQuotes]
        exact hEncodes
  · rename_i hQuotes
    cases hWrite
    cases hWrites with
    | encode hEncodes hRest =>
        cases hRest
        rw [List.append_nil]
        apply WrittenDisplay.encoded hNone
        rw [if_neg hQuotes]
        exact hEncodes

theorem writtenMailbox_of_write
    {prefixLen : Nat}
    {m : Mailbox}
    {ops : List WriterOp}
    {text : Str}
    (hWrite : writeMailbox prefixLen m = some ops)
    (hWrites : Writes ops text) :
    WrittenMailbox m text := by
  unfold writeMailbox at hWrite
  split at hWrite
  · cases hWrite
  split at hWrite
  · rename_i hEmpty
    cases hWrite
    cases hWrites with
    | folding hRest =>
        cases hRest
        rw [List.append_nil]
        exact .bare (List.isEmpty_iff.mp hEmpty)
  · rename_i hName
    rcases Option.bind_eq_some_iff.mp hWrite with
      ⟨op, hDisplay, hOps⟩
    cases hOps
    have hSplit :
        Writes
          ([op] ++
            [.space, .text ['<'], .text m.addrSpec,
              .text ['>']])
          text := hWrites
    rcases writes_append hSplit with
      ⟨shownText, address, hShown, hAddress, rfl⟩
    have hBehind :
        address = ' ' :: '<' :: (m.addrSpec ++ ['>']) := by
      cases hAddress with
      | space hRest =>
          cases hRest with
          | text hRest =>
              cases hRest with
              | text hRest =>
                  cases hRest with
                  | text hRest =>
                      cases hRest
                      rfl
    rw [hBehind]
    exact
      .named (by simpa using hName)
        (writtenDisplay_of_write hDisplay hShown)

/- Mailboxes are written between a comma and a space. -/
theorem writtenMailboxes_of_write
    {prefixLen : Nat}
    {ms : List Mailbox}
    {ops : List WriterOp}
    {text : Str}
    (hWrite : writeMailboxes prefixLen ms = some ops)
    (hWrites : Writes ops text) :
    ∃ written,
      List.Forall₂ WrittenMailbox ms written ∧
        text = [',', ' '].intercalate written := by
  induction ms generalizing ops text with
  | nil =>
      cases hWrite
      cases hWrites
      exact ⟨[], .nil, rfl⟩
  | cons m ms ih =>
      cases ms with
      | nil =>
          have hOne := writtenMailbox_of_write hWrite hWrites
          exact ⟨[text], .cons hOne .nil, by simp⟩
      | cons m' ms =>
          rcases Option.bind_eq_some_iff.mp hWrite with
            ⟨first, hFirst, hOthers⟩
          rcases Option.bind_eq_some_iff.mp hOthers with
            ⟨others, hRest, hOps⟩
          cases hOps
          rw [List.append_assoc] at hWrites
          rcases writes_append hWrites with
            ⟨here, later, hHere, hLater, rfl⟩
          cases hLater with
          | text hLater =>
              cases hLater with
              | @space later _ hLater =>
                  rcases ih hRest hLater with
                    ⟨written, hWritten, rfl⟩
                  have hOne :=
                    writtenMailbox_of_write hFirst hHere
                  refine
                    ⟨here :: written, .cons hOne hWritten, ?_⟩
                  cases hWritten with
                  | cons hNext hWritten =>
                      simp

variable [Lettre]

/- An address header folds its written mailboxes. -/
theorem addressHeader_written
    (hWriter : WriterLaws)
    {name : Str}
    {ms : List Mailbox}
    {field : Field}
    (hHeader : addressHeader name ms = some field) :
    field.name = name ∧
      ∃ written,
        List.Forall₂ WrittenMailbox ms written ∧
          Lib.Folding.Folds field.value
            ([',', ' '].intercalate written) := by
  rcases Option.bind_eq_some_iff.mp hHeader with
    ⟨ops, hOps, hField⟩
  cases hField
  rcases hWriter.folds (byteLen name + 2) ops with
    ⟨text, hWrites, hFolds⟩
  rcases writtenMailboxes_of_write hOps hWrites with
    ⟨written, hWritten, rfl⟩
  exact ⟨rfl, written, hWritten, hFolds⟩

end Mime

end MailgunRelay

------------------------------------------------------------
-- A Writer Without Folds
------------------------------------------------------------

namespace MailgunRelay

variable [Base64]

/- What one step writes; a text is encoded as one word. -/
def WriterOp.written : WriterOp → Str
| .text s => s
| .folding s => s
| .space => [' ']
| .encode s =>
    (Mime.piece "utf-8".toList (utf8 s)).written

/-
  The fields of a part: an upload says its disposition in
  front of its type.
-/
def SinglePart.headers (part : SinglePart) : Str :=
  let contentId :=
    match part.contentId with
    | none => []
    | some id => "Content-ID: ".toList ++ id ++ ['\r', '\n']
  let disposition :=
    match part.disposition with
    | .none => []
    | .inline name =>
        "Content-Disposition: inline; filename=\"".toList ++
          name ++ "\"\r\n".toList
    | .attachment name =>
        "Content-Disposition: attachment; filename=\"".toList ++
          name ++ "\"\r\n".toList
  contentId ++ disposition ++ "Content-Type: ".toList ++
    part.contentType.text ++ ['\r', '\n']

/- The body of a part with its encoding, and a final CRLF. -/
def SinglePart.encoded (part : SinglePart) : Str :=
  match part.body with
  | .auto text =>
      "Content-Transfer-Encoding: 7bit\r\n\r\n".toList ++
        text ++ ['\r', '\n']
  | .base64 data =>
      "Content-Transfer-Encoding: base64\r\n\r\n".toList ++
        Base64.encode data ++ ['\r', '\n']

def MultiKind.name : MultiKind → Str
| .alternative => "alternative".toList
| .related => "related".toList
| .mixed => "mixed".toList

/-
  Forty letters and digits, as lettre draws them.  No tree
  holds a part of its own kind, so the kind may choose them.
-/
def MultiKind.boundary (kind : MultiKind) : Str :=
  kind.name ++ List.replicate (40 - kind.name.length) '0'

/- The parts, each behind a boundary. -/
def MultiKind.joined
    (kind : MultiKind)
    (parts : List Bytes) : Bytes :=
  let boundary := "--".toList ++ kind.boundary
  utf8
      ("Content-Type: multipart/".toList ++ kind.name ++
        "; boundary=\"".toList ++ kind.boundary ++
        "\"\r\n\r\n".toList) ++
    parts.flatMap (fun part =>
      utf8 (boundary ++ ['\r', '\n']) ++ part) ++
    utf8 (boundary ++ "--\r\n".toList)

/-
  A writer for short lines, ASCII texts and short uploads,
  none of which it has to break.
-/
@[reducible] def Lettre.unfolded : Lettre :=
  { emailWriter := fun _ ops => ops.flatMap WriterOp.written
    headerName := fun name =>
      !name.isEmpty && name.all fun c => c.isAlphanum || c == '-'
    headerValue := fun _ value => value
    contentType := fun text => some { text := text }
    singlePart := fun part =>
      utf8 (part.headers ++ part.encoded)
    multiPart := MultiKind.joined }

namespace Mime

theorem unfolded_writes
    (hBase64 : Base64Laws)
    (ops : List WriterOp) :
    Writes ops (ops.flatMap WriterOp.written) := by
  induction ops with
  | nil => exact .nil
  | cons op ops ih =>
      rw [List.flatMap_cons]
      cases op with
      | text s => exact .text ih
      | folding s => exact .folding ih
      | space => exact .space ih
      | encode s =>
          have hWords :
              EncodesText s
                [(piece "utf-8".toList (utf8 s), utf8 s)] := by
            constructor
            · intro word hMem
              rw [List.mem_singleton.mp hMem]
              exact
                { charset := rfl
                  encoding := rfl
                  text := hBase64.alphabet _ }
            · intro word hMem
              rw [List.mem_singleton.mp hMem]
              exact decode_piece hBase64 (by decide +kernel) _
            · simp
          have hWrites := Writes.encode hWords ih
          simpa [writtenWords, WriterOp.written] using hWrites

theorem unfolded_writerLaws
    (hBase64 : Base64Laws) :
    let _ : Lettre := .unfolded
    WriterLaws := by
  intro _
  exact
    { folds := fun _ ops =>
        ⟨_, unfolded_writes hBase64 ops,
          Lib.Folding.Folds.refl _⟩ }

end Mime

end MailgunRelay
