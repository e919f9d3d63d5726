import MailgunRelay.Address
import MailgunRelay.Config

/-
  The values of environment variables (`config.rs`): how a
  text is read as a number, a boolean, a level or a sender.
  The error of a value is the reason it was refused for.

  An `f64` is what `f64::from_str` makes of a decimal: the
  nearest number of 53 bits, ties to even.

  Key definitions include:
    * `MailgunRelay.Environment.F64`
    * `MailgunRelay.Environment.F64.fromStr`
    * `MailgunRelay.Environment.parseIntStrict`
    * `MailgunRelay.Environment.parseInt`
    * `MailgunRelay.Environment.parseTimeout`
    * `MailgunRelay.Environment.envelopeSender`
-/

------------------------------------------------------------
-- Text
------------------------------------------------------------

namespace MailgunRelay

namespace Environment

/- `u8::to_ascii_lowercase`. -/
def lowerByte (b : UInt8) : UInt8 :=
  if 65 ≤ b && b ≤ 90 then b + 32 else b

/- `<[u8]>::eq_ignore_ascii_case`. -/
def eqIgnoreAsciiCase (a b : Bytes) : Bool :=
  a.map lowerByte == b.map lowerByte

/- `char::is_whitespace`: the property `White_Space`. -/
def isWhitespace (c : Char) : Bool :=
  (9 ≤ c.toNat && c.toNat ≤ 13) ||
    c.toNat == 0x20 || c.toNat == 0x85 ||
    c.toNat == 0xa0 || c.toNat == 0x1680 ||
    (0x2000 ≤ c.toNat && c.toNat ≤ 0x200a) ||
    c.toNat == 0x2028 || c.toNat == 0x2029 ||
    c.toNat == 0x202f || c.toNat == 0x205f ||
    c.toNat == 0x3000

/- `str::trim`. -/
def trim (value : Str) : Str :=
  (value.dropWhile isWhitespace).rdropWhile isWhitespace

/- The number that digits write. -/
def digitsValue (digits : Str) : Nat :=
  digits.foldl (fun n c => 10 * n + (c.toNat - 48)) 0

/- A sign and what follows it; no sign is a plus. -/
def splitSign : Str → Bool × Str
| '-' :: rest => (true, rest)
| '+' :: rest => (false, rest)
| text => (false, text)

end Environment

end MailgunRelay

------------------------------------------------------------
-- Binary64
------------------------------------------------------------

namespace MailgunRelay

namespace Environment

/-
  A number of type `f64`; a finite one is its mantissa times
  a power of two.
-/
inductive F64 where
  | nan
  | infinite (negative : Bool)
  | finite (negative : Bool) (mantissa : Nat) (exponent : Int)
  deriving DecidableEq

namespace F64

/- A power with a negative exponent is a divisor. -/
def scaled (base num den : Nat) (exponent : Int) : Nat × Nat :=
  (num * base ^ exponent.toNat,
    den * base ^ (-exponent).toNat)

/- The nearest natural number to a fraction, or the even. -/
def roundHalfEven (num den : Nat) : Nat :=
  let whole := num / den
  let twice := 2 * (num % den)
  if den < twice ∨ (twice = den ∧ whole % 2 = 1) then
    whole + 1
  else
    whole

/- The exponent of the first bit of a positive fraction. -/
def firstBit (num den : Nat) : Int :=
  let guess : Int := num.log2 - den.log2
  let (n, d) := scaled 2 num den (-guess)
  if n < d then guess - 1 else guess

/- A fraction with 53 bits, or fewer near zero. -/
def ofFraction (negative : Bool) (num den : Nat) : F64 :=
  if num = 0 then
    finite negative 0 (-1074)
  else
    let exponent := max (firstBit num den - 52) (-1074)
    let (n, d) := scaled 2 num den (-exponent)
    let mantissa := roundHalfEven n d
    -- Rounding up may carry into another bit.
    let (mantissa, exponent) :=
      if mantissa = 2 ^ 53 then
        (2 ^ 52, exponent + 1)
      else
        (mantissa, exponent)
    if 971 < exponent then
      infinite negative
    else
      finite negative mantissa exponent

/- The exponent after the digits of a number. -/
def exponentOf : Str → Option Int
| [] => some 0
| c :: rest =>
    if c = 'e' ∨ c = 'E' then
      let (negative, digits) := splitSign rest
      if digits.isEmpty || !digits.all Char.isDigit then
        none
      else if negative then
        some (-(digitsValue digits : Int))
      else
        some (digitsValue digits)
    else
      none

/- The digits after a decimal point, and what follows. -/
def fractionOf : Str → Str × Str
| '.' :: rest =>
    (rest.takeWhile Char.isDigit,
      rest.dropWhile Char.isDigit)
| rest => ([], rest)

/- `f64::from_str`. -/
def fromStr (text : Str) : Option F64 :=
  let (negative, rest) := splitSign text
  let word := asciiLowercase rest
  if word = "nan".toList then
    some nan
  else if word = "inf".toList ∨ word = "infinity".toList then
    some (infinite negative)
  else
    let whole := rest.takeWhile Char.isDigit
    let (fraction, rest) :=
      fractionOf (rest.dropWhile Char.isDigit)
    if whole.isEmpty && fraction.isEmpty then
      none
    else
      (exponentOf rest).map fun exponent =>
        let (num, den) :=
          scaled 10 (digitsValue (whole ++ fraction)) 1
            (exponent - fraction.length)
        ofFraction negative num den

/- `(0.0..=max).contains` for a natural number `max`. -/
def between (max : Nat) : F64 → Bool
| nan => false
| infinite _ => false
| finite negative mantissa exponent =>
    let (n, d) := scaled 2 mantissa 1 exponent
    mantissa == 0 || (!negative && n ≤ max * d)

end F64

end Environment

end MailgunRelay

------------------------------------------------------------
-- Integers
------------------------------------------------------------

namespace MailgunRelay

namespace Environment

/- `i64::try_from`. -/
def toI64 (n : Int) : Option I64 :=
  if h : -2 ^ 63 ≤ n ∧ n < 2 ^ 63 then some ⟨n, h⟩ else none

def toU16 (n : Int) : Option UInt16 :=
  if 0 ≤ n ∧ n < 2 ^ 16 then
    some (UInt16.ofNat n.toNat)
  else
    none

def toU32 (n : Int) : Option UInt32 :=
  if 0 ≤ n ∧ n < 2 ^ 32 then
    some (UInt32.ofNat n.toNat)
  else
    none

/-
  pydantic's integer from a string, without the decimal-zero
  form.
-/
def parseIntStrict (value : Str) : Except Str I64 :=
  let (negative, digits) := splitSign (trim value)
  let wellFormed :=
    !digits.isEmpty &&
      (digits.splitOn '_').all fun group =>
        !group.isEmpty && group.all Char.isDigit
  if !wellFormed then
    .error "not a valid integer".toList
  else
    let digits := digits.filter fun c => c != '_'
    let significant := digits.dropWhile fun c => c == '0'
    if 19 < significant.length then
      .error "integer out of range (PLAN.md D-18)".toList
    else
      let magnitude : Int := digitsValue significant
      let signed := if negative then -magnitude else magnitude
      match toI64 signed with
      | some n => .ok n
      | none =>
          .error "integer out of range (PLAN.md D-18)".toList

/- pydantic's integer from a string: also `"8085.0"`. -/
def parseInt (value : Str) : Except Str I64 :=
  match parseIntStrict value with
  | .ok n => .ok n
  | .error reason =>
      match Lib.Text.rsplitOnce '.' (trim value) with
      | some (int, zeros) =>
          -- No white space between the digits and the point.
          if !zeros.isEmpty && zeros.all (fun c => c == '0') &&
              trim int == int then
            parseIntStrict int
          else
            .error reason
      | none => .error reason

/- A number between two others, as a narrower type. -/
def range
    {T : Type}
    (tryFrom : Int → Option T)
    (value : I64)
    (min max : Int) : Except Str T :=
  if !(min ≤ value.val && value.val ≤ max) then
    .error
      ("must be between ".toList ++ (toString min).toList ++
        " and ".toList ++ (toString max).toList)
  else
    match tryFrom value.val with
    | some n => .ok n
    | none => .error "out of range".toList

/- `BIND_PORT`: no decimal form. -/
def parsePortStrict (value : Str) : Except Str UInt16 := do
  range toU16 (← parseIntStrict value) 0 65535

/- `SMTP_PORT`. -/
def parsePort (value : Str) : Except Str UInt16 := do
  range toU16 (← parseInt value) 0 65535

/- `SMTP_MAX_CONCURRENCY`. -/
def parseConcurrency (value : Str) : Except Str UInt32 := do
  range toU32 (← parseInt value) 1 (2 ^ 32 - 1)

end Environment

end MailgunRelay

------------------------------------------------------------
-- Other Values
------------------------------------------------------------

namespace MailgunRelay

namespace Environment

/- The names of the levels. -/
def levels : List (Level × Str) :=
  [(.trace, "TRACE".toList), (.debug, "DEBUG".toList),
    (.info, "INFO".toList), (.warning, "WARNING".toList),
    (.error, "ERROR".toList),
    (.critical, "CRITICAL".toList)]

/- `Level::from_name`. -/
def fromName (name : Str) : Option Level :=
  (levels.find? fun entry =>
    eqIgnoreAsciiCase (utf8 entry.2) (utf8 name)).map
      Prod.fst

/- `LOG_LEVEL`. -/
def parseLevel (value : Str) : Except Str Level :=
  match fromName value with
  | some level => .ok level
  | none =>
      .error
        ("one of CRITICAL ERROR WARNING INFO DEBUG " ++
          "TRACE").toList

/- pydantic's boolean from a string: no trimming. -/
def parseBool (value : Str) : Except Str Bool :=
  let isOneOf := fun (words : List String) =>
    words.any fun word =>
      eqIgnoreAsciiCase (utf8 value) (utf8 word.toList)
  if isOneOf ["1", "on", "t", "true", "y", "yes"] then
    .ok true
  else if isOneOf ["0", "off", "f", "false", "n", "no"] then
    .ok false
  else
    .error "not a valid boolean".toList

/- `str::contains` with two underscores. -/
def hasDoubleUnderscore (text : Str) : Bool :=
  (Lib.Text.search ['_', '_'] text).isSome

/-
  pydantic's float from a string, then finite and at most
  `1e9` seconds.
-/
def parseTimeout (value : Str) : Except Str F64 :=
  let trimmed := trim value
  if trimmed.head? == some '_' ||
      trimmed.getLast? == some '_' ||
      hasDoubleUnderscore trimmed then
    .error "not a valid number".toList
  else
    match F64.fromStr (trimmed.filter fun c => c != '_') with
    | none => .error "not a valid number".toList
    | some seconds =>
        if !seconds.between 1000000000 then
          .error
            ("must be between 0 and 1000000000 seconds " ++
              "(PLAN.md D-18)").toList
        else
          .ok seconds

variable [Unicode] [Idna]

/- The sender as it is written, or with an A-label. -/
def asciiSender (value : Str) : Except Str Str :=
  if value.all isAsciiChar then
    .ok value
  else
    match Lib.Text.rsplitOnce '@' value with
    | some (name, domain) =>
        if !name.isEmpty && name.all isAsciiChar then
          (normalizeConfigDomain domain).map fun ascii =>
            name ++ '@' :: ascii
        else
          .error
            ("only the domain may be non-ASCII " ++
              "(SMTPUTF8 is not used)").toList
    | none =>
        .error
          ("only the domain may be non-ASCII " ++
            "(SMTPUTF8 is not used)").toList

/- `ENVELOPE_SENDER`: empty is the null sender. -/
def envelopeSender (value : Str) : Except Str Str :=
  if value.isEmpty then
    .ok []
  else do
    let sender ← asciiSender value
    match parseAddrSpec sender with
    | some _ => .ok sender
    | none =>
        .error
          "not a valid email address (PLAN.md D-15)".toList

end Environment

end MailgunRelay
