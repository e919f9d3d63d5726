import MailgunRelay.Lib.Result
import MailgunRelay.Lib.Text
import MailgunRelay.PyStr

/-
  Request body parsing (`form.rs`).

  The multipart parser works on the whole body and an index
  into it, as the source does.  A body that ends early stops
  the parser without an error: the parts completed so far
  are the form.

  Key definitions include:
    * `MailgunRelay.Form.Value`
    * `MailgunRelay.Form.Limits`
    * `MailgunRelay.Form.encoding`
    * `MailgunRelay.Form.parse`
    * `MailgunRelay.Form.urlencoded`
    * `MailgunRelay.Form.unquotePlus`
    * `MailgunRelay.Form.optionsHeader`
    * `MailgunRelay.Form.parseparam`
    * `MailgunRelay.Form.multipart`
-/

------------------------------------------------------------
-- Items And Limits
------------------------------------------------------------

namespace MailgunRelay

namespace Form

/- A malformed body (400), or one over a limit (413). -/
inductive FormError where
  | badRequest
  | tooLarge
  deriving DecidableEq

/-
  A file: its name as sent, the first `Content-Type` of its
  part as latin-1, and its bytes.
-/
structure Upload where
  filename : Str
  contentType : Option Str
  data : Bytes
  deriving DecidableEq

inductive Value where
  | text (text : Str)
  | file (upload : Upload)
  deriving DecidableEq

/- A named field of the form. -/
abbrev Item := Str × Value

/- The parser limits as the route passes them. -/
structure Limits where
  maxFiles : I64
  maxFields : I64
  maxPartSize : I64

inductive Charset where
  | utf8
  | latin1
  deriving DecidableEq

/-
  How a body is parsed; `none` is any other content type: an
  empty form, the body is not read.
-/
inductive Encoding where
  | urlencoded
  | multipart (boundary : Bytes) (charset : Charset)
  | none
  deriving DecidableEq

def maxBoundaryLength : Nat := 256

def maxHeaderCount : Nat := 8

def maxHeaderSize : Nat := 4096 + 128

end Form

end MailgunRelay

------------------------------------------------------------
-- Character Sets
------------------------------------------------------------

namespace MailgunRelay

namespace Form

/- The bytes of a string whose characters are bytes. -/
def latin1Bytes (text : Str) : Bytes :=
  text.map fun c =>
    if c.toNat < 256 then UInt8.ofNat c.toNat else 63

/- The request charsets; every other name is refused. -/
def charset (name : Str) : Option Charset :=
  let lowered := asciiLowercase name
  if (["utf-8", "utf8", "utf_8"].map String.toList).contains
      lowered then
    some .utf8
  else if (["latin-1", "latin1", "iso-8859-1", "iso8859-1",
      "iso_8859_1", "l1", "ascii", "us-ascii"].map
        String.toList).contains lowered then
    some .latin1
  else
    none

/- The charset, latin-1 on a decoding error. -/
def decode (bytes : Bytes) : Charset → Str
| .utf8 => (fromUtf8 bytes).getD (latin1 bytes)
| .latin1 => latin1 bytes

end Form

end MailgunRelay

------------------------------------------------------------
-- Parameters Of A Header
------------------------------------------------------------

namespace MailgunRelay

namespace Form

/- A Python slice index into `n` characters. -/
def clamp (n i : Int) : Nat :=
  if i < 0 then
    (max (i + n) 0).toNat
  else
    (min i n).toNat

/- The characters between two Python slice indices. -/
def segment (s : Str) (a b : Int) : Str :=
  let n : Int := s.length
  (s.take (clamp n b)).drop (clamp n a)

/- `str.find` of one character in a slice. -/
def find (s : Str) (c : Char) (start stop : Int) : Int :=
  let n : Int := s.length
  if clamp n start > clamp n stop then
    -1
  else
    match (segment s start stop).idxOf? c with
    | none => -1
    | some p => clamp n start + p

/-
  `str.count` of a non-empty pattern, without overlaps;
  `skip` characters belong to the last match.
-/
def countFrom (pattern : Str) : Nat → Str → Nat
| _, [] => 0
| skip + 1, _ :: rest => countFrom pattern skip rest
| 0, c :: rest =>
    if pattern.isPrefixOf (c :: rest) then
      1 + countFrom pattern (pattern.length - 1) rest
    else
      countFrom pattern 0 rest

/- `str.count` in a slice. -/
def count
    (s pattern : Str)
    (start stop : Int) : Int :=
  countFrom pattern 0 (segment s start stop)

/-
  The `;` that ends a segment, or a negative index: `stop`
  and `ind` change places while the quotes up to `stop` are
  unbalanced.  `fuel` bounds the turns.
-/
def segmentEnd
    (s : Str) : Nat → Int → Int → Int → Int
| 0, stop, _, _ => stop
| fuel + 1, stop, ind, diff =>
    if 0 < stop then
      let diff :=
        diff + (count s ['"'] ind stop -
          count s ['\\', '"'] ind stop)
      if diff % 2 = 0 then
        stop
      else
        segmentEnd s fuel ind
          (find s ';' (stop + 1) s.length) diff
    else
      stop

variable [Unicode]

/- One segment: its key lowercased, spaces around `=` cut. -/
def parameter (s : Str) (start stop : Int) : Str :=
  let i := find s '=' start stop
  let f :=
    if i = -1 then
      segment s start stop
    else
      lowercase ((segment s start i).rdropWhile isPySpace) ++
        '=' :: (segment s (i + 1) stop).dropWhile isPySpace
  pyStrip f

/-
  The segments of `s` from `start`, where a `;` stands.
  `fuel` bounds their number.
-/
def segments (s : Str) : Nat → Int → List Str
| 0, _ => []
| fuel + 1, start =>
    if find s ';' start s.length = start then
      let start := start + 1
      let stop :=
        segmentEnd s (2 * s.length + 2)
          (find s ';' start s.length) start 0
      let stop := if stop < 0 then (s.length : Int) else stop
      parameter s start stop :: segments s fuel stop
    else
      []

/- Split at `;` outside double quotes. -/
def parseparam (text : Str) : List Str :=
  segments (';' :: text) (text.length + 2) 0

/- `str::replace` of a two-character pattern by one. -/
def replacePair (a b «to» : Char) : Str → Str
| [] => []
| [c] => [c]
| c :: d :: rest =>
    if c = a ∧ d = b then
      «to» :: replacePair a b «to» rest
    else
      c :: replacePair a b «to» (d :: rest)

/- One level of quotes removed from a value. -/
def unquoteValue (value : Str) : Str :=
  if 2 ≤ value.length ∧ value.head? = some '"' ∧
      value.getLast? = some '"' then
    replacePair '\\' '"' '"'
      (replacePair '\\' '\\' '\\' value.tail.dropLast)
  else
    value

/- The last component of a path an old browser sent. -/
def lastComponent (value : Str) : Str :=
  (value.splitOn '\\').getLastD []

/-
  The type, and the parameters: a key with `*` is skipped,
  the path of a `filename` is cut.
-/
def optionsHeader
    (value : Option Str) : Str × List (Str × Str) :=
  match value with
  | none => ([], [])
  | some [] => ([], [])
  | some value =>
      if !value.contains ';' then
        (pyStrip (lowercase value), [])
      else
        let parts := parseparam value
        let params := parts.tail.filterMap fun part =>
          let (key, value) :=
            (Lib.Text.splitOnce '=' part).getD (part, [])
          if key.contains '*' then
            none
          else
            let value := unquoteValue value
            if key = "filename".toList ∧
                ((value.drop 1).take 2 = [':', '\\'] ∨
                  "\\\\".toList.isPrefixOf value) then
              some (key, lastComponent value)
            else
              some (key, value)
        (parts.headD [], params)

/- A parameter as a dict holds it: the last one wins. -/
def param
    (params : List (Str × Str))
    (key : Str) : Option Str :=
  (params.reverse.find? fun p => p.1 == key).map Prod.snd

/- How a body with this `Content-Type` is parsed. -/
def encoding
    (contentType : Option Bytes) : Except FormError Encoding :=
  let (essence, params) :=
    optionsHeader (contentType.map latin1)
  if essence =
      "application/x-www-form-urlencoded".toList then
    .ok .urlencoded
  else if essence = "multipart/form-data".toList then do
    let charset ←
      match param params "charset".toList with
      | none => .ok .utf8
      | some name =>
          match charset name with
          | none => .error .badRequest
          | some charset => .ok charset
    match param params "boundary".toList with
    | none => .error .badRequest
    | some boundary =>
        let boundary := latin1Bytes boundary
        if boundary.length > maxBoundaryLength then
          .error .badRequest
        else
          .ok (.multipart boundary charset)
  else
    .ok .none

end Form

end MailgunRelay

------------------------------------------------------------
-- Urlencoded Bodies
------------------------------------------------------------

namespace MailgunRelay

namespace Form

/- What follows a `%`: a byte in hex, or literal text. -/
def unquoteBit (bit : Bytes) : Bytes :=
  match bit with
  | a :: b :: rest =>
      match toDigit a, toDigit b with
      | some high, some low =>
          UInt8.ofNat (high * 16 + low) :: rest
      | _, _ => 37 :: bit
  | _ => 37 :: bit

def unquoteToBytes (ascii : Str) : Bytes :=
  let bits := (utf8 ascii).splitOn 37
  bits.headD [] ++ bits.tail.flatMap unquoteBit

/- Runs of ASCII are decoded, other runs stay. -/
def unquoteRuns : Str → Str
| [] => []
| c :: rest =>
    let ascii := (c :: rest).takeWhile isAsciiChar
    let other := (c :: rest).dropWhile isAsciiChar
    fromUtf8Lossy (unquoteToBytes ascii) ++
      other.takeWhile (fun c => !isAsciiChar c) ++
      unquoteRuns (other.dropWhile fun c => !isAsciiChar c)
termination_by text => text.length
decreasing_by
  simp only [List.dropWhile_cons]
  split
  · have hAscii := List.length_dropWhile_le isAsciiChar rest
    have hOther :=
      List.length_dropWhile_le (fun c => !isAsciiChar c)
        (rest.dropWhile isAsciiChar)
    simp only [List.length_cons]
    omega
  · rename_i hFirst
    have hOther :=
      List.length_dropWhile_le (fun c => !isAsciiChar c) rest
    simp only [List.dropWhile_cons, hFirst, List.length_cons]
    simp only [Bool.not_eq_true] at hFirst
    simp only [Bool.not_false, if_true]
    omega

/- `urllib.parse.unquote_plus`. -/
def unquotePlus (text : Str) : Str :=
  let text := text.map fun c => if c = '+' then ' ' else c
  if !text.contains '%' then
    text
  else
    unquoteRuns text

/- The name and the value of a field. -/
def splitField (field : Bytes) : Bytes × Bytes :=
  (Lib.Text.splitOnce 61 field).getD (field, [])

/-
  `&`-separated fields after `items`, empty ones skipped,
  the name up to the first `=`.
-/
def urlencodedFields
    (limits : Limits)
    (items : List Item) :
    List Bytes → Except FormError (List Item)
| [] => .ok items
| field :: rest =>
    let (name, value) := splitField field
    -- The size callbacks only run for non-empty data.
    if (!name.isEmpty &&
          exceeds name.length limits.maxPartSize) ||
        (!value.isEmpty &&
          exceeds (name.length + value.length)
            limits.maxPartSize) then
      .error .tooLarge
    else if exceeds (items.length + 1) limits.maxFields then
      .error .tooLarge
    else
      urlencodedFields limits
        (items ++
          [(unquotePlus (latin1 name),
            .text (unquotePlus (latin1 value)))])
        rest

/- `application/x-www-form-urlencoded`. -/
def urlencoded
    (body : Bytes)
    (limits : Limits) : Except FormError (List Item) :=
  urlencodedFields limits []
    ((body.splitOn 38).filter fun field => !field.isEmpty)

end Form

end MailgunRelay

------------------------------------------------------------
-- Multipart Bodies
------------------------------------------------------------

namespace MailgunRelay

namespace Form

/-
  Why a multipart body is not read further: it ended early,
  or it is refused.
-/
inductive Stop where
  | ended
  | refused (error : FormError)
  deriving DecidableEq

/- The first index of a byte from `start` on. -/
def findByte
    (body : Bytes)
    (byte : UInt8)
    (start : Nat) : Option Nat :=
  ((body.drop start).idxOf? byte).map (start + ·)

/- The first index of a needle from `start` on. -/
def findSeq
    (body needle : Bytes)
    (start : Nat) : Option Nat :=
  (Lib.Text.search needle (body.drop start)).map (start + ·)

/- Token characters of a header name. -/
def isToken (b : UInt8) : Bool :=
  (Char.ofNat b.toNat).isAlphanum ||
    "!#$%&'*+-.^_`|~".toList.contains (Char.ofNat b.toNat)

/- The bytes of a body between two indices. -/
def slice (body : Bytes) (start stop : Nat) : Bytes :=
  (body.drop start).take (stop - start)

/- The headers of a part that the form depends on. -/
structure PartHeaders where
  disposition : Option Bytes
  contentType : Option Bytes

/-
  The last `Content-Disposition` is kept, and the first
  `Content-Type`.
-/
def PartHeaders.record
    (headers : PartHeaders)
    (name value : Bytes) : PartHeaders :=
  let lowered := asciiLowercase (latin1 name)
  if lowered = "content-disposition".toList then
    { headers with disposition := some value }
  else if lowered = "content-type".toList ∧
      headers.contentType = none then
    { headers with contentType := some value }
  else
    headers

/-
  The spaces after a colon: the index after them and the
  size of the header with them.
-/
def skipSpaces
    (size i : Nat) : Bytes → Except Stop (Nat × Nat)
| [] => .ok (size, i)
| b :: rest =>
    if b = 32 then
      if size + 1 > maxHeaderSize then
        .error (.refused .badRequest)
      else
        skipSpaces (size + 1) (i + 1) rest
    else
      .ok (size, i)

/-
  The name of a header: the name, the size of the header so
  far, and the index after the colon.
-/
def headerName
    (body : Bytes)
    (i : Nat) : Except Stop (Bytes × Nat × Nat) :=
  let colon := findByte body 58 i
  let stop := colon.getD body.length
  let size := stop - i + colon.isSome.toNat
  let name := slice body i stop
  if size > maxHeaderSize || !name.all isToken then
    .error (.refused .badRequest)
  else
    match colon with
    | none => .error .ended
    | some colon =>
        if name.isEmpty then
          .error (.refused .badRequest)
        else
          .ok (name, size, colon + 1)

/-
  The value of a header from `i` on, and the index after its
  line.
-/
def headerValue
    (body : Bytes)
    (size i : Nat) : Except Stop (Bytes × Nat) :=
  let cr := findByte body 13 i
  if size + (cr.getD body.length - i) > maxHeaderSize then
    .error (.refused .badRequest)
  else
    match cr with
    | none => .error .ended
    | some cr =>
        match body[cr + 1]? with
        | none => .error .ended
        | some b =>
            if b = 10 then
              .ok (slice body i cr, cr + 2)
            else
              .error (.refused .badRequest)

/- One header line: its name, its value, the next index. -/
def headerLine
    (body : Bytes)
    (i : Nat) : Except Stop (Bytes × Bytes × Nat) := do
  let (name, size, i) ← headerName body i
  let (size, i) ← skipSpaces size i (body.drop i)
  let (value, i) ← headerValue body size i
  return (name, value, i)

/-
  Whether the headers end here: the index after the empty
  line, or `none` where another header stands.
-/
def headersEnd
    (body : Bytes)
    (i : Nat) : Except Stop (Option Nat) :=
  match body[i]?, body[i + 1]? with
  | none, _ => .error .ended
  | some 13, none => .error .ended
  | some 13, some 10 => .ok (some (i + 2))
  | some 13, some _ => .error (.refused .badRequest)
  | some _, _ => .ok none

/-
  The headers of a part up to the empty line, at most `left`
  more, and the index after it.
-/
def partHeaders
    (body : Bytes) :
    Nat → PartHeaders → Nat →
      Except Stop (PartHeaders × Nat)
| 0, headers, i => do
    match ← headersEnd body i with
    | some start => return (headers, start)
    | none => throw (.refused .badRequest)
| left + 1, headers, i => do
    match ← headersEnd body i with
    | some start => return (headers, start)
    | none =>
        let (name, value, i) ← headerLine body i
        partHeaders body left (headers.record name value) i

/- What stands before every part but the first. -/
def delimiter (boundary : Bytes) : Bytes :=
  [13, 10, 45, 45] ++ boundary

/- A found delimiter lies inside the body. -/
theorem findSeq_delimiter_bounds
    {body boundary : Bytes}
    {start found : Nat}
    (hFound :
      findSeq body (delimiter boundary) start =
        some found) :
    start ≤ found ∧
      found + (delimiter boundary).length ≤ body.length ∧
      4 ≤ (delimiter boundary).length := by
  unfold findSeq at hFound
  rcases Option.map_eq_some_iff.mp hFound with ⟨k, hk, rfl⟩
  have hBounds :=
    Lib.Text.search_bounds (by simp [delimiter]) hk
  have hLength : 4 ≤ (delimiter boundary).length := by
    simp [delimiter]
  rw [List.length_drop] at hBounds
  omega

/-
  The data of a part: where its delimiter stands, searched
  from `search`, and whether it is the last one.
-/
def partEnd
    (body boundary : Bytes)
    (search : Nat) : Except Stop (Nat × Bool) :=
  match _hFound : findSeq body (delimiter boundary) search with
  | none => .error .ended
  | some found =>
      let after := found + (delimiter boundary).length
      match body[after]?, body[after + 1]? with
      | none, _ => .error .ended
      | some a, none =>
          if a = 13 ∨ a = 45 then
            .error .ended
          else
            partEnd body boundary after
      | some a, some b =>
          if a = 13 ∧ b = 10 then
            .ok (found, false)
          else if a = 45 ∧ b = 45 then
            .ok (found, true)
          else if a = 13 ∨ a = 45 then
            partEnd body boundary (after + 1)
          else
            partEnd body boundary after
termination_by body.length - search
decreasing_by
  all_goals
    have hBounds := findSeq_delimiter_bounds _hFound
    omega

/- How many files and fields the parts so far were. -/
structure Counts where
  files : Nat
  fields : Nat

/- Count a part; over its limit the form is too large. -/
def Counts.add
    (counts : Counts)
    (limits : Limits)
    (isFile : Bool) : Except Stop Counts :=
  if isFile then
    let files := counts.files + 1
    if exceeds files limits.maxFiles then
      .error (.refused .tooLarge)
    else
      .ok { counts with files := files }
  else
    let fields := counts.fields + 1
    if exceeds fields limits.maxFields then
      .error (.refused .tooLarge)
    else
      .ok { counts with fields := fields }

/- The value of a part with so much data. -/
def partValue
    (limits : Limits)
    (charset : Charset)
    (headers : PartHeaders)
    (filename : Option Str)
    (data : Bytes) : Except Stop Value :=
  match filename with
  | some filename =>
      .ok (.file
        { filename := filename
          contentType := headers.contentType.map latin1
          data := data })
  | none =>
      if !data.isEmpty &&
          exceeds data.length limits.maxPartSize then
        .error (.refused .tooLarge)
      else
        .ok (.text (decode data charset))

/- A part that was read: the next one starts at `next`. -/
structure Part where
  item : Item
  counts : Counts
  last : Bool
  next : Nat

/- Reading the headers only moves forward. -/
theorem headersEnd_bounds
    {body : Bytes}
    {i start : Nat}
    (hEnd : headersEnd body i = .ok (some start)) :
    i < start ∧ start ≤ body.length := by
  unfold headersEnd at hEnd
  split at hEnd <;> simp at hEnd
  rename_i hNext
  have hInside := (List.getElem?_eq_some_iff.mp hNext).1
  omega

theorem skipSpaces_bounds
    {size i size' i' : Nat}
    {rest : Bytes}
    (hSkip : skipSpaces size i rest = .ok (size', i')) :
    i ≤ i' := by
  induction rest generalizing size i with
  | nil =>
      simp only [skipSpaces, Except.ok.injEq,
        Prod.mk.injEq] at hSkip
      omega
  | cons b rest ih =>
      unfold skipSpaces at hSkip
      split at hSkip
      · split at hSkip
        · simp at hSkip
        · have h := ih hSkip
          omega
      · simp only [Except.ok.injEq, Prod.mk.injEq] at hSkip
        omega

/- A found byte is not before the start of the search. -/
theorem le_of_findByte
    {body : Bytes}
    {byte : UInt8}
    {start found : Nat}
    (hFound : findByte body byte start = some found) :
    start ≤ found := by
  unfold findByte at hFound
  rcases Option.map_eq_some_iff.mp hFound with ⟨k, -, rfl⟩
  omega

theorem headerName_bounds
    {body name : Bytes}
    {i size next : Nat}
    (hName : headerName body i = .ok (name, size, next)) :
    i < next := by
  unfold headerName at hName
  simp only at hName
  split at hName
  · simp at hName
  split at hName
  · simp at hName
  rename_i colon hColon
  split at hName
  · simp at hName
  · simp only [Except.ok.injEq, Prod.mk.injEq] at hName
    have hLe := le_of_findByte hColon
    omega

theorem headerValue_bounds
    {body value : Bytes}
    {i size next : Nat}
    (hValue : headerValue body size i = .ok (value, next)) :
    i < next := by
  unfold headerValue at hValue
  simp only at hValue
  split at hValue
  · simp at hValue
  split at hValue
  · simp at hValue
  rename_i cr hCr
  split at hValue
  · simp at hValue
  split at hValue
  · simp only [Except.ok.injEq, Prod.mk.injEq] at hValue
    have hLe := le_of_findByte hCr
    omega
  · simp at hValue

theorem headerLine_bounds
    {body name value : Bytes}
    {i next : Nat}
    (hLine : headerLine body i = .ok (name, value, next)) :
    i < next := by
  unfold headerLine at hLine
  simp only [Lib.bind_eq_ok_iff, Prod.exists] at hLine
  rcases hLine with
    ⟨name', size, j, hName, size', k, hSkip, value', l, hValue,
      hEnd⟩
  cases hEnd
  have hFirst := headerName_bounds hName
  have hSecond := skipSpaces_bounds hSkip
  have hThird := headerValue_bounds hValue
  omega

theorem partHeaders_bounds
    {body : Bytes}
    {left i start : Nat}
    {headers headers' : PartHeaders}
    (hHeaders :
      partHeaders body left headers i =
        .ok (headers', start)) :
    i < start ∧ start ≤ body.length := by
  induction left generalizing headers i with
  | zero =>
      unfold partHeaders at hHeaders
      rcases Lib.bind_eq_ok_iff.mp hHeaders with
        ⟨stop, hEnd, hRest⟩
      cases stop with
      | none => cases hRest
      | some stop =>
          cases hRest
          exact headersEnd_bounds hEnd
  | succ left ih =>
      unfold partHeaders at hHeaders
      rcases Lib.bind_eq_ok_iff.mp hHeaders with
        ⟨stop, hEnd, hRest⟩
      cases stop with
      | none =>
          rcases Lib.bind_eq_ok_iff.mp hRest with
            ⟨line, hLine, hNext⟩
          have hFirst := headerLine_bounds hLine
          have hLater := ih hNext
          omega
      | some stop =>
          cases hRest
          exact headersEnd_bounds hEnd

theorem partEnd_bounds
    {body boundary : Bytes}
    {search stop : Nat}
    {last : Bool}
    (hEnd : partEnd body boundary search = .ok (stop, last)) :
    search ≤ stop ∧
      stop + (delimiter boundary).length + 2 ≤
        body.length := by
  fun_induction partEnd body boundary search with
  | case1 | case2 | case3 => cases hEnd
  | case4 search found hFound after a hNone hByte hData ih =>
      have hBounds := findSeq_delimiter_bounds hFound
      have hLater := ih hEnd
      exact ⟨by omega, hLater.2⟩
  | case5 search found hFound after a b hSecond hFirst _
  | case6 search found hFound after a b hSecond hFirst _ _ =>
      -- Two more bytes stand after the delimiter.
      have hBounds := findSeq_delimiter_bounds hFound
      have hInside :=
        (List.getElem?_eq_some_iff.mp hSecond).1
      simp only [Except.ok.injEq, Prod.mk.injEq] at hEnd
      omega
  | case7 search found hFound after a b _ _ _ _ _ ih
  | case8 search found hFound after a b _ _ _ _ _ ih =>
      have hBounds := findSeq_delimiter_bounds hFound
      have hLater := ih hEnd
      exact ⟨by omega, hLater.2⟩

variable [Unicode]

/- Read the part whose headers start at `i`. -/
def part
    (body boundary : Bytes)
    (charset : Charset)
    (limits : Limits)
    (counts : Counts)
    (i : Nat) : Except Stop Part := do
  let (headers, start) ←
    partHeaders body maxHeaderCount
      { disposition := none, contentType := none } i
  -- The name is required, then the count is checked.
  let (_, params) :=
    optionsHeader (headers.disposition.map latin1)
  match param params "name".toList with
  | none => throw (.refused .badRequest)
  | some name =>
      let filename :=
        (param params "filename".toList).map fun f =>
          decode (latin1Bytes f) charset
      let counts ← counts.add limits filename.isSome
      let (stop, last) ← partEnd body boundary start
      let value ←
        partValue limits charset headers filename
          (slice body start stop)
      pure
        { item := (decode (latin1Bytes name) charset, value)
          counts := counts
          last := last
          next := stop + (delimiter boundary).length + 2 }

/- The next part starts later, inside the body. -/
theorem part_bounds
    {body boundary : Bytes}
    {charset : Charset}
    {limits : Limits}
    {counts : Counts}
    {i : Nat}
    {p : Part}
    (hPart :
      part body boundary charset limits counts i = .ok p) :
    i < p.next ∧ p.next ≤ body.length := by
  unfold part at hPart
  rcases Lib.bind_eq_ok_iff.mp hPart with
    ⟨⟨headers, start⟩, hHeaders, hPart⟩
  simp only at hPart
  split at hPart
  · cases hPart
  rcases Lib.bind_eq_ok_iff.mp hPart with ⟨counts', -, hPart⟩
  rcases Lib.bind_eq_ok_iff.mp hPart with
    ⟨⟨stop, last⟩, hEnd, hPart⟩
  rcases Lib.bind_eq_ok_iff.mp hPart with ⟨value, -, hPart⟩
  cases hPart
  have hStart := partHeaders_bounds hHeaders
  have hStop := partEnd_bounds hEnd
  simp only
  omega

/- The parts from `i` on, after `items`. -/
def parts
    (body boundary : Bytes)
    (charset : Charset)
    (limits : Limits)
    (items : List Item)
    (counts : Counts)
    (i : Nat) : Except FormError (List Item) :=
  match _hPart :
      part body boundary charset limits counts i with
  | .error .ended => .ok items
  | .error (.refused error) => .error error
  | .ok p =>
      if p.last then
        .ok (items ++ [p.item])
      else
        parts body boundary charset limits
          (items ++ [p.item]) p.counts p.next
termination_by body.length - i
decreasing_by
  have hBounds := part_bounds _hPart
  omega

/- The expected bytes at an index: the index after them. -/
def expect
    (body : Bytes) :
    Bytes → Nat → Except Stop Nat
| [], i => .ok i
| expected :: rest, i =>
    match body[i]? with
    | none => .error .ended
    | some b =>
        if b = expected then
          expect body rest (i + 1)
        else
          .error (.refused .badRequest)

/-
  The start of a multipart body: leading CR and LF, the
  first boundary, and whether it is the only one.
-/
def multipartStart
    (body boundary : Bytes) : Except Stop Nat := do
  let i :=
    (body.takeWhile fun b => b == 13 || b == 10).length
  if 0 < i && i < body.length && body[i]? != some 45 then
    throw (.refused .badRequest)
  let i ← expect body ((delimiter boundary).drop 2) i
  match body[i]?, body[i + 1]? with
  | none, _ => throw .ended
  | some 45, none => throw .ended
  | some 13, none => throw .ended
  | some 45, some 45 => throw .ended
  | some 13, some 10 => return i + 2
  | _, _ => throw (.refused .badRequest)

/- `multipart/form-data`. -/
def multipart
    (body boundary : Bytes)
    (charset : Charset)
    (limits : Limits) : Except FormError (List Item) :=
  match multipartStart body boundary with
  | .error .ended => .ok []
  | .error (.refused error) => .error error
  | .ok i =>
      parts body boundary charset limits []
        { files := 0, fields := 0 } i

/- Parse the buffered body into the ordered form items. -/
def parse
    (encoding : Encoding)
    (body : Bytes)
    (limits : Limits) : Except FormError (List Item) :=
  match encoding with
  | .urlencoded => urlencoded body limits
  | .multipart boundary charset =>
      multipart body boundary charset limits
  | .none => .ok []

end Form

end MailgunRelay
