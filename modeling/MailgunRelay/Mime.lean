import MailgunRelay.Address
import MailgunRelay.Headers

/-
  Message construction (`mime.rs`).

  lettre's part is a parameter: what the relay hands to a
  header writer or to a MIME part is recorded, and how lettre
  writes it is not looked into.  Every refusal is the same
  `InvalidMessage`.

  Key definitions include:
    * `MailgunRelay.Mime.MessageInput`
    * `MailgunRelay.Mime.Field`
    * `MailgunRelay.Mime.encodedWords`
    * `MailgunRelay.Mime.forwardable`
    * `MailgunRelay.Mime.addressHeader`
    * `MailgunRelay.Mime.unstructuredHeader`
    * `MailgunRelay.Mime.customHeaders`
    * `MailgunRelay.Mime.bodyTree`
    * `MailgunRelay.Mime.build`
-/

------------------------------------------------------------
-- Inputs
------------------------------------------------------------

namespace MailgunRelay

namespace Mime

/- An uploaded `attachment` or `inline` file. -/
structure Attachment where
  filename : Str
  contentType : Str
  data : Bytes
  deriving DecidableEq

/-
  The validated request: the mailbox the policy returned,
  the raw `to`, `cc` and `bcc` values, the stripped subject
  and the custom headers in map order.
-/
structure MessageInput where
  «from» : Mailbox
  «to» : List Str
  cc : List Str
  bcc : List Str
  subject : Str
  text : Option Str
  html : Option Str
  ampHtml : Option Str
  headers : List (Str × Str)
  attachments : List Attachment
  inline : List Attachment
  publicHost : Str
  deriving DecidableEq

/-
  Why no message is built: it is invalid (always 400), or
  the code panics.
-/
inductive BuildError where
  | invalidMessage
  | panic
  deriving DecidableEq

/- A refusal of the message. -/
def orInvalid {α : Type} : Option α → Except BuildError α
| some a => .ok a
| none => .error .invalidMessage

/- A condition under which the message is refused. -/
def refuseIf (refused : Bool) : Except BuildError Unit :=
  if refused then .error .invalidMessage else .ok ()

/- `expect`. -/
def orPanic {α : Type} : Option α → Except BuildError α
| some a => .ok a
| none => .error .panic

end Mime

end MailgunRelay

------------------------------------------------------------
-- Plain Values
------------------------------------------------------------

namespace MailgunRelay

namespace Mime

/- The line limit without CRLF. -/
def maxLine : Nat := 998

/- Room an address may take on a line. -/
def addressRoom : Nat := 260

/- Python quotes a display name holding one of these. -/
def specials : Str :=
  "()<>@,:;.\"[]\\".toList

/- TAB or printable ASCII. -/
def isPlainChar (c : Char) : Bool :=
  c == '\t' || (' ' ≤ c && c ≤ '~')

/-
  Every run of spaces plus the following word fits a line;
  `run` characters of the current one are behind.
-/
def fitsLine
    (reserve : Nat) :
    Nat → Bool → Str → Bool
| _, _, [] => true
| run, inWord, c :: rest =>
    let ends := c == ' ' && inWord
    let run := (if ends then 0 else run) + 1
    if reserve + run > maxLine then
      false
    else
      fitsLine reserve run
        ((!ends && inWord) || c != ' ') rest

/- Whether `value` can be written as received. -/
def isPlain (value : Str) (reserve : Nat) : Bool :=
  value.all isPlainChar && fitsLine reserve 0 false value

end Mime

end MailgunRelay

------------------------------------------------------------
-- Encoded Words
------------------------------------------------------------

namespace MailgunRelay

namespace Mime

/-
  One `=?charset?cte?text?=` and where it stands in its
  value.
-/
structure EncodedWord where
  start : Nat
  stop : Nat
  charset : Str
  base64 : Bool
  text : Str
  deriving DecidableEq

/- The characters of a value between two indices. -/
def between (value : Str) (start stop : Nat) : Str :=
  (value.drop start).take (stop - start)

/- The transfer encoding of a word: is it base64? -/
def transferEncoding (cte : Str) : Option Bool :=
  if cte = ['b'] ∨ cte = ['B'] then
    some true
  else if cte = ['q'] ∨ cte = ['Q'] then
    some false
  else
    none

/- The words that start at one of these `?` marks. -/
def encodedWordsAt (value : Str) :
    List Nat → List EncodedWord
| q0 :: q1 :: q2 :: q3 :: rest =>
    let later := encodedWordsAt value (q1 :: q2 :: q3 :: rest)
    if q0 = 0 ∨ value[q0 - 1]? ≠ some '=' then
      later
    else if value[q3 + 1]? ≠ some '=' then
      later
    else
      match transferEncoding (between value (q1 + 1) q2) with
      | none => later
      | some base64 =>
          { start := q0 - 1
            stop := q3 + 2
            charset := between value (q0 + 1) q1
            base64 := base64
            text := between value (q2 + 1) q3 } :: later
| _ => []

/- The encoded words of a value, wherever they occur. -/
def encodedWords (value : Str) : List EncodedWord :=
  encodedWordsAt value
    ((List.range value.length).filter fun i =>
      value[i]? == some '?')

/- The charset of a word, normalised. -/
def charsetName (charset : Str) : Str :=
  (asciiLowercase ((charset.splitOn '*').headD [])).map
    fun c => if c.isAlphanum || c == '.' then c else '_'

/- Charsets whose decoders keep ASCII bytes as they are. -/
def isAsciiCompatibleCharset (name : Str) : Bool :=
  let numbered (lead : String) (low high : Nat) : Bool :=
    (List.range' low (high + 1 - low)).any fun n =>
      lead.toList ++ (toString n).toList == name
  (["utf_8", "utf8", "us_ascii", "ascii", "latin_1",
      "latin1", "l1"].map String.toList).contains name ||
    numbered "iso_8859_" 1 16 || numbered "iso8859_" 1 16 ||
    numbered "windows_" 1250 1258 ||
    numbered "cp" 1250 1258

/- `_` is a space, `=XX` a byte. -/
def decodeQ : Bytes → Bytes
| [] => []
| a :: b :: c :: rest =>
    match toDigit b, toDigit c with
    | some high, some low =>
        if a = 61 then
          UInt8.ofNat (high * 16 + low) :: decodeQ rest
        else if a = 95 then
          32 :: decodeQ (b :: c :: rest)
        else
          a :: decodeQ (b :: c :: rest)
    | _, _ =>
        (if a = 95 then 32 else a) :: decodeQ (b :: c :: rest)
| a :: rest => (if a = 95 then 32 else a) :: decodeQ rest

variable [Base64]

/- The bytes of a word, if they can be told. -/
def decodeWord (word : EncodedWord) : Option Bytes :=
  if !isAsciiCompatibleCharset (charsetName word.charset) then
    none
  else if !word.base64 then
    some (decodeQ (utf8 word.text))
  else
    Base64.decodeLenient (word.text.rdropWhile (· == '='))

/- Whether a word could be decoded to CR or LF. -/
def mayDecodeToLineBreak (value : Str) : Bool :=
  (encodedWords value).any fun word =>
    match decodeWord word with
    | none => true
    | some bytes => bytes.contains 13 || bytes.contains 10

end Mime

end MailgunRelay

------------------------------------------------------------
-- Forwarded Values
------------------------------------------------------------

namespace MailgunRelay

namespace Mime

/- The limit for one encoded word. -/
def maxEncodedWord : Nat := 75

/- `str::is_char_boundary` of an index into UTF-8. -/
def isCharBoundary (bytes : Bytes) (i : Nat) : Bool :=
  i == 0 || i == bytes.length ||
    bytes[i]?.any fun b => !isContinuation b

/- The largest cut up to one that ends at a boundary. -/
def cutBefore (bytes : Bytes) (offset : Nat) : Nat → Nat
| 0 => 0
| cut + 1 =>
    if isCharBoundary bytes (offset + (cut + 1)) then
      cut + 1
    else
      cutBefore bytes offset cut

/- The size of the next word, at most `most` bytes. -/
def cutSize
    (bytes : Bytes)
    (onBoundaries : Bool)
    (offset most : Nat) : Nat :=
  if onBoundaries then
    cutBefore bytes offset most
  else
    most

variable [Base64]

/- The encoded words of `bytes` from an offset on. -/
def splitFrom
    (charset : Str)
    (bytes : Bytes)
    (onBoundaries : Bool)
    (room offset : Nat) : Option (List Str) :=
  if bytes.length ≤ offset then
    some []
  else
    let cut :=
      cutSize bytes onBoundaries offset
        (min (bytes.length - offset) room)
    if _hCut : cut = 0 then
      none
    else do
      let encoded :=
        Base64.encode ((bytes.drop offset).take cut)
      let rest ←
        splitFrom charset bytes onBoundaries room
          (offset + cut)
      some
        (("=?".toList ++ charset ++ "?b?".toList ++ encoded ++
          "?=".toList) :: rest)
termination_by bytes.length - offset
decreasing_by omega

/-
  `bytes` as base64 encoded words of at most
  `maxEncodedWord` characters.
-/
def splitWord
    (charset : Str)
    (bytes : Bytes) : Option Str := do
  let overhead := charset.length + "=???b?=".length
  if maxEncodedWord < overhead then
    none
  let room := (maxEncodedWord - overhead) / 4 * 3
  let name := charsetName charset
  let isUtf8 :=
    name == "utf_8".toList || name == "utf8".toList
  if isUtf8 && (fromUtf8 bytes).isNone then
    none
  let words ← splitFrom charset bytes isUtf8 room 0
  some ([' '].intercalate words)

/- An encoded word a receiver would read differently. -/
def isMisread (phrase : Bool) (bytes : Bytes) : Bool :=
  let blank (b : Option UInt8) :=
    b == some 32 || b == some 9
  (Lib.Text.search [61, 63] bytes).isSome ||
    blank bytes.head? || blank bytes.getLast? ||
    (phrase && bytes.all (fun b => b < 128) &&
      bytes.any fun b => (utf8 specials).contains b)

/- Whitespace delimits the word on both sides. -/
def isDelimited (value : Str) (word : EncodedWord) : Bool :=
  (word.start == 0 ||
    value[word.start - 1]?.any isWsp) &&
  (word.stop == value.length ||
    value[word.stop]?.any isWsp)

/- The value from `copied` on, after `out`. -/
def forwardFrom
    (value : Str)
    (phrase isQuoted : Bool)
    (copied : Nat)
    (out : Str) :
    List EncodedWord → Option Str
| [] => some (out ++ value.drop copied)
| word :: rest => do
    let bytes ← decodeWord word
    if isMisread phrase bytes then
      none
    else if word.stop - word.start ≤ maxEncodedWord then
      forwardFrom value phrase isQuoted copied out rest
    else if isQuoted || !isDelimited value word ||
        word.start < copied then
      none
    else
      let words ← splitWord word.charset bytes
      forwardFrom value phrase isQuoted word.stop
        (out ++ between value copied word.start ++ words)
        rest

/- A printable value as it can be forwarded. -/
def forwardable
    (value : Str)
    (phrase isQuoted : Bool) : Option Str :=
  forwardFrom value phrase isQuoted 0 [] (encodedWords value)

end Mime

end MailgunRelay

------------------------------------------------------------
-- Header Fields
------------------------------------------------------------

namespace MailgunRelay

namespace Mime

/- A header field with its value as it is written. -/
structure Field where
  name : Str
  value : Str
  deriving DecidableEq

/- lettre's `Display` of a header. -/
def Field.render (field : Field) : Str :=
  field.name ++ ": ".toList ++ field.value ++ "\r\n".toList

variable [Lettre]

/- Run a header writer positioned after `Name: `. -/
def render (name : Str) (ops : List WriterOp) : Str :=
  Lettre.emailWriter (byteLen name + 2) ops

/- A display name holding a special is quoted. -/
def needsQuotes (display : Str) : Bool :=
  display.any fun c => specials.contains c

/- Backslashes and quotes escaped, between quotes. -/
def quote (text : Str) : Str :=
  '"' ::
    text.flatMap (fun c =>
      if c = '\\' ∨ c = '"' then ['\\', c] else [c]) ++
    ['"']

/- The text of a display name between its brackets. -/
def shown (display text : Str) : Str :=
  if needsQuotes display then quote text else text

/- Runs of whitespace collapsed, ends stripped. -/
def collapse (text : Str) : Str :=
  [' '].intercalate
    ((text.splitOnP isWsp).filter fun s => !s.isEmpty)

variable [Base64]

/- How a display name is written. -/
def writeDisplay
    (prefixLen : Nat)
    (display : Str) : Option WriterOp :=
  if isPlain (shown display display)
      (prefixLen + addressRoom) then
    (forwardable display true (needsQuotes display)).map
      fun text => .folding (shown display text)
  else if !(encodedWords display).isEmpty then
    none
  else if needsQuotes display then
    some (.encode display)
  else
    some (.encode (collapse display))

/- `Name <addr>` or `addr`. -/
def writeMailbox
    (prefixLen : Nat)
    (m : Mailbox) : Option (List WriterOp) :=
  if !(encodedWords m.local).isEmpty then
    none
  else if m.displayName.isEmpty then
    some [.folding m.addrSpec]
  else do
    let op ← writeDisplay prefixLen m.displayName
    some
      [op, .space, .text ['<'], .text m.addrSpec,
        .text ['>']]

/- Mailboxes separated by a comma and a space. -/
def writeMailboxes
    (prefixLen : Nat) :
    List Mailbox → Option (List WriterOp)
| [] => some []
| [m] => writeMailbox prefixLen m
| m :: rest => do
    let first ← writeMailbox prefixLen m
    let others ← writeMailboxes prefixLen rest
    some (first ++ [.text [','], .space] ++ others)

/- From, To, Cc, Reply-To. -/
def addressHeader
    (name : Str)
    (mailboxes : List Mailbox) : Option Field := do
  let ops ← writeMailboxes (byteLen name + 2) mailboxes
  some { name := name, value := render name ops }

/- Subject and the unstructured `h:*` headers. -/
def unstructuredHeader
    (name value : Str) : Option Field :=
  if !Lettre.headerName name then
    none
  else if isPlain value (byteLen name + 2) then do
    let text ← forwardable value false false
    some { name := name, value := Lettre.headerValue name text }
  else if !(encodedWords value).isEmpty then
    none
  else
    some
      { name := name
        value := render name [.encode (value.dropWhile isWsp)] }

end Mime

end MailgunRelay

------------------------------------------------------------
-- Custom Headers
------------------------------------------------------------

namespace MailgunRelay

namespace Mime

/- Dot-atom text. -/
def isDotAtomText (s : Str) : Bool :=
  (s.splitOn '.').all fun atom =>
    !atom.isEmpty && atom.all isAtext

/- `<left@right>`. -/
def isMessageId (id : Str) : Bool :=
  id.head? == some '<' && 2 ≤ id.length &&
    id.getLast? == some '>' &&
    (Lib.Text.splitOnce '@' id.tail.dropLast).any fun sides =>
      isDotAtomText sides.1 && isDotAtomText sides.2

/- Message ids separated by spaces or TABs. -/
def isMessageIdList (value : Str) : Bool :=
  let ids :=
    (value.splitOnP isWsp).filter fun s => !s.isEmpty
  !ids.isEmpty && ids.all isMessageId

/- Headers that may occur once. -/
def uniqueNames : List Str :=
  ["reply-to", "in-reply-to", "references"].map
    String.toList

variable [Unicode] [Idna] [Base64] [Lettre]

/- One custom header; `lower` is its name in lowercase. -/
def customHeader
    (lower name value : Str) : Option Field :=
  if lower = "reply-to".toList then do
    let mailboxes ← parseMailboxList value
    if mayDecodeToLineBreak value then
      none
    else
      addressHeader "Reply-To".toList mailboxes
  else
    unstructuredHeader name value

/-
  The `h:*` headers in map order; `unique` are the headers
  that may not occur again.
-/
def customHeaders
    (unique : List Str) :
    List (Str × Str) → Option (List Field)
| [] => some []
| (name, value) :: rest =>
    let lower := asciiLowercase name
    if lower = "orig-date".toList then
      none
    else if lower ∈ uniqueNames ∧ lower ∈ unique then
      none
    else if (lower = "in-reply-to".toList ∨
          lower = "references".toList) ∧
        !(isMessageIdList value &&
          (encodedWords value).isEmpty) then
      none
    else do
      let field ← customHeader lower name value
      let fields ←
        customHeaders
          (if lower ∈ uniqueNames then lower :: unique
            else unique)
          rest
      some (field :: fields)

end Mime

end MailgunRelay

------------------------------------------------------------
-- Parts
------------------------------------------------------------

namespace MailgunRelay

namespace Mime

/- The MIME tree before lettre renders it. -/
inductive Tree where
  | leaf (part : SinglePart)
  | alternative (children : List Tree)
  | related (children : List Tree)
  | mixed (children : List Tree)

section Rendering

variable [Lettre]

mutual

/- A tree as a part of another one. -/
def Tree.rendered : Tree → Bytes
| .leaf part => Lettre.singlePart part
| .alternative children =>
    Lettre.multiPart .alternative (Tree.renderedAll children)
| .related children =>
    Lettre.multiPart .related (Tree.renderedAll children)
| .mixed children =>
    Lettre.multiPart .mixed (Tree.renderedAll children)

def Tree.renderedAll : List Tree → List Bytes
| [] => []
| child :: rest =>
    Tree.rendered child :: Tree.renderedAll rest

end

/-
  A tree as a message.  lettre ends a part with the CRLF of
  the next boundary, which a single part does not have.
-/
def Tree.formatted : Tree → Bytes
| .leaf part =>
    let bytes := Lettre.singlePart part
    if [13, 10, 13, 10].isSuffixOf bytes then
      bytes.take (bytes.length - 2)
    else
      bytes
| tree => tree.rendered

end Rendering

/- CRLF, CR and LF become CRLF. -/
def normaliseLines : Str → Str
| [] => []
| '\r' :: '\n' :: rest => '\r' :: '\n' :: normaliseLines rest
| '\r' :: rest => '\r' :: '\n' :: normaliseLines rest
| '\n' :: rest => '\r' :: '\n' :: normaliseLines rest
| c :: rest => c :: normaliseLines rest

/- A control character other than TAB, CR and LF. -/
def isTextControl (c : Char) : Bool :=
  (c.toNat < 32 || c.toNat == 127) &&
    !(c == '\t' || c == '\r' || c == '\n')

/- A text body; control characters force base64. -/
def textPart
    (contentType : ContentType)
    (text : Str) : SinglePart :=
  let lines := normaliseLines text
  let lines :=
    if ['\r', '\n'].isSuffixOf lines then
      lines
    else
      lines ++ ['\r', '\n']
  { contentType := contentType
    contentId := none
    disposition := .none
    body :=
      if lines.any isTextControl then
        .base64 (utf8 lines)
      else
        .auto lines }

/- Line boundaries of Python's `str.splitlines`. -/
def hasLineBoundary (value : Str) (inline : Bool) : Bool :=
  (inline || value.all isAsciiChar) &&
    value.any fun c =>
      ([10, 13, 11, 12, 28, 29, 30].contains c.toNat) ||
        (inline && [0x85, 0x2028, 0x2029].contains c.toNat)

/- An RFC 7230 token of at most 127 characters. -/
def isTypeToken (s : Str) : Bool :=
  !s.isEmpty && byteLen s ≤ 127 &&
    s.all fun c =>
      c.isAlphanum ||
        "!#$%&'*+-.^_`|~".toList.contains c

section ContentTypes

variable [Unicode] [Lettre]

def octetStream : Except BuildError ContentType :=
  orPanic
    (Lettre.contentType "application/octet-stream".toList)

/- `main/sub`, lowercased, parameters dropped. -/
def leafContentType
    (raw : Str) : Except BuildError ContentType :=
  let (main, rest) :=
    (Lib.Text.splitOnce '/' raw).getD (raw, [])
  let main := lowercase (pyStrip main)
  let sub :=
    lowercase (pyStrip ((rest.splitOn ';').headD []))
  if !isTypeToken main || !isTypeToken sub ||
      main = "multipart".toList ||
      main = "message".toList then
    octetStream
  else
    match Lettre.contentType (main ++ '/' :: sub) with
    | some contentType => .ok contentType
    | none => octetStream

end ContentTypes

variable [Unicode] [Idna] [Base64] [Lettre]

/- The filename is the Content-ID of an inline part. -/
def isMalformedId (filename : Str) : Bool :=
  pyStrip filename != filename ||
    filename.any fun c =>
      c == '<' || c == '>' || c.toNat < 32 || c.toNat == 127

/- An attachment or inline part. -/
def uploadPart
    (upload : Attachment)
    (inline : Bool) : Except BuildError Tree := do
  let filename := upload.filename
  refuseIf (hasLineBoundary filename inline)
  let contentType ← leafContentType upload.contentType
  if inline then
    refuseIf (isMalformedId filename)
    let contentId ←
      orInvalid
        (unstructuredHeader "Content-ID".toList
          ('<' :: filename ++ ['>']))
    return .leaf
      { contentType := contentType
        contentId := some contentId.value
        disposition := .inline filename
        body := .base64 upload.data }
  else
    return .leaf
      { contentType := contentType
        contentId := none
        disposition := .attachment filename
        body := .base64 upload.data }

/- The upload parts in order. -/
def uploadParts
    (inline : Bool) :
    List Attachment → Except BuildError (List Tree)
| [] => .ok []
| upload :: rest => do
    let part ← uploadPart upload inline
    let parts ← uploadParts inline rest
    return part :: parts

def textPlain : ContentType :=
  { text := "text/plain; charset=utf-8".toList }

def textHtml : ContentType :=
  { text := "text/html; charset=utf-8".toList }

/- The html part, with the inline parts related to it. -/
def htmlPart
    (html : Str)
    (inlineParts : List Tree) : Tree :=
  let part := Tree.leaf (textPart textHtml html)
  if inlineParts.isEmpty then
    part
  else
    .related (part :: inlineParts)

/- One alternative stands alone. -/
def ofAlternatives : List Tree → Tree
| [tree] => tree
| alternatives => .alternative alternatives

/- Add parts to a mixed tree. -/
def addMixed (tree : Tree) (parts : List Tree) : Tree :=
  match tree with
  | .mixed children => .mixed (children ++ parts)
  | other => .mixed (other :: parts)

/-
  The bodies as alternatives; inline parts with the html
  part, or in the top-level mixed part without html;
  attachments after them.
-/
def bodyTree
    (text html ampHtml : Option Str)
    (inline attachments : List Attachment) :
    Except BuildError Tree := do
  let inlineParts ← uploadParts true inline
  let texts :=
    text.toList.map fun t => Tree.leaf (textPart textPlain t)
  let htmls := html.toList.map fun h => htmlPart h inlineParts
  let amps ←
    match ampHtml with
    | none => pure []
    | some amp => do
        let ampType ←
          orPanic
            (Lettre.contentType
              "text/x-amp-html; charset=utf-8".toList)
        pure [Tree.leaf (textPart ampType amp)]
  let tree := ofAlternatives (texts ++ htmls ++ amps)
  let tree :=
    if html.isNone && !inlineParts.isEmpty then
      Tree.mixed (tree :: inlineParts)
    else
      tree
  if attachments.isEmpty then
    return tree
  else
    let parts ← uploadParts false attachments
    return addMixed tree parts

end Mime

end MailgunRelay

------------------------------------------------------------
-- Messages
------------------------------------------------------------

namespace MailgunRelay

namespace Mime

variable [Unicode] [Idna] [Base64] [Lettre]

/- One mailbox per value. -/
def parseRecipients :
    List Str → Option (List Mailbox)
| [] => some []
| value :: rest => do
    let m ← parseMailbox value
    let others ← parseRecipients rest
    some (m :: others)

/- The first occurrences of the addresses not yet seen. -/
def distinct (seen : List Str) : List Str → List Str
| [] => []
| address :: rest =>
    if address ∈ seen then
      distinct seen rest
    else
      address :: distinct (address :: seen) rest

/- An address header that is left out without mailboxes. -/
def recipientHeader
    (name : Str)
    (mailboxes : List Mailbox) : Option (List Field) :=
  if mailboxes.isEmpty then
    some []
  else do
    let field ← addressHeader name mailboxes
    some [field]

/- A body that is not empty. -/
def nonEmpty (text : Option Str) : Option Str :=
  text.filter fun t => !t.isEmpty

/-
  The Message-Id and the top-level header fields.  `hex` is
  what the operating system's randomness gave, `date` the
  current date as it is written.
-/
def headFields
    (hex : Option Str)
    (date : Str)
    (input : MessageInput)
    («to» cc : List Mailbox) :
    Except BuildError (Str × List Field) := do
  let fromField ←
    orInvalid (addressHeader "From".toList [input.from])
  let toFields ←
    orInvalid (recipientHeader "To".toList «to»)
  let ccFields ← orInvalid (recipientHeader "Cc".toList cc)
  let subject ←
    orInvalid
      (unstructuredHeader "Subject".toList input.subject)
  let hex ← orPanic hex
  let messageId :=
    '<' :: hex ++ '@' :: input.publicHost ++ ['>']
  let idField : Field :=
    { name := "Message-ID".toList
      value :=
        Lettre.headerValue "Message-ID".toList messageId }
  let dateField : Field :=
    { name := "Date".toList, value := date }
  let versionField : Field :=
    { name := "MIME-Version".toList, value := "1.0".toList }
  -- Names that differ in case only are two headers, so the
  -- custom headers are rendered one by one.
  let custom ← orInvalid (customHeaders [] input.headers)
  pure
    (messageId,
      fromField :: toFields ++ ccFields ++
        [subject, idField, dateField, versionField] ++
        custom)

/- Build the message. -/
def build
    (hex : Option Str)
    (date : Str)
    (input : MessageInput) :
    Except BuildError BuiltMessage := do
  let text := nonEmpty input.text
  let html := nonEmpty input.html
  let ampHtml := nonEmpty input.ampHtml
  refuseIf (text.isNone && html.isNone)
  let «to» ← orInvalid (parseRecipients input.to)
  let cc ← orInvalid (parseRecipients input.cc)
  let bcc ← orInvalid (parseRecipients input.bcc)
  refuseIf ((input.to ++ input.cc).any mayDecodeToLineBreak)
  let (messageId, fields) ←
    headFields hex date input «to» cc
  let tree ←
    bodyTree text html ampHtml input.inline input.attachments
  pure
    { messageId := messageId
      envelope :=
        distinct [] ((«to» ++ cc ++ bcc).map Mailbox.addrSpec)
      formatted :=
        utf8 (fields.flatMap Field.render) ++
          tree.formatted }

end Mime

end MailgunRelay
