import Mathlib.Computability.RegularExpressions
import MailgunRelay.Secrets

/-
  The YAML 1.1 subset of the secrets file (`yaml.rs`).

  `yaml-rust2` scans the text; what it reports is a
  parameter.  The types of plain scalars and the builder
  that turns its events into a document are here.

  Key definitions include:
    * `MailgunRelay.Yaml.resolvePlain`
    * `MailgunRelay.Yaml.Event`
    * `MailgunRelay.Yaml.State.step`
    * `MailgunRelay.Yaml.run`
    * `MailgunRelay.Yaml.parse`
    * `MailgunRelay.Secrets.fromYaml`
-/

------------------------------------------------------------
-- Patterns
------------------------------------------------------------

namespace MailgunRelay

namespace Yaml

/- A pattern for a whole scalar. -/
abbrev Pattern := RegularExpression Char

def word (s : String) : Pattern :=
  s.toList.foldr (fun c rest => .char c * rest) 1

def oneOf (s : String) : Pattern :=
  s.toList.foldr (fun c rest => .char c + rest) 0

def anyOf (patterns : List Pattern) : Pattern :=
  patterns.foldr (· + ·) 0

def maybe (p : Pattern) : Pattern :=
  1 + p

def many (p : Pattern) : Pattern :=
  .star p

def many1 (p : Pattern) : Pattern :=
  p * .star p

def sign : Pattern := maybe (oneOf "-+")

def digit : Pattern := oneOf "0123456789"

def digitOrUnderscore : Pattern := oneOf "0123456789_"

/- A part of a base 60 number. -/
def sexagesimal : Pattern :=
  word ":" * maybe (oneOf "012345") * digit

def boolPattern : Pattern :=
  anyOf
    (["yes", "Yes", "YES", "no", "No", "NO", "true", "True",
      "TRUE", "false", "False", "FALSE", "on", "On", "ON",
      "off", "Off", "OFF"].map word)

def floatPattern : Pattern :=
  let exponent := oneOf "eE" * oneOf "-+" * many1 digit
  anyOf
    [sign * digit * many digitOrUnderscore * word "." *
        many digitOrUnderscore * maybe exponent,
      word "." * digit * many digitOrUnderscore *
        maybe exponent,
      sign * digit * many digitOrUnderscore *
        many1 sexagesimal * word "." * many digitOrUnderscore,
      sign * word "." * anyOf (["inf", "Inf", "INF"].map word),
      word "." * anyOf (["nan", "NaN", "NAN"].map word)]

def intPattern : Pattern :=
  anyOf
    [sign * word "0b" * many1 (oneOf "01_"),
      sign * word "0" * many1 (oneOf "01234567_"),
      sign *
        (word "0" +
          oneOf "123456789" * many digitOrUnderscore),
      sign * word "0x" *
        many1 (oneOf "0123456789abcdefABCDEF_"),
      sign * oneOf "123456789" * many digitOrUnderscore *
        many1 sexagesimal]

def nullPattern : Pattern :=
  anyOf (["~", "null", "Null", "NULL", ""].map word)

/- A date, or a date and a time with one-digit parts. -/
def timestampPattern : Pattern :=
  let year := digit * digit * digit * digit
  let short := digit * maybe digit
  anyOf
    [year * word "-" * digit * digit * word "-" * digit *
        digit,
      year * word "-" * short * word "-" * short *
        (oneOf "Tt" + many1 (oneOf " \t")) * short *
        word ":" * digit * digit * word ":" * digit * digit *
        maybe (word "." * many digit) *
        maybe
          (many (oneOf " \t") *
            (word "Z" +
              oneOf "-+" * short *
                maybe (word ":" * digit * digit)))]

end Yaml

end MailgunRelay

------------------------------------------------------------
-- Timestamps
------------------------------------------------------------

namespace MailgunRelay

namespace Yaml

/- A number of so many digits, and what follows it. -/
def number
    (least most : Nat)
    (text : Str) : Option (Nat × Str) :=
  let digits := (text.take most).takeWhile Char.isDigit
  if least ≤ digits.length then
    some
      (digits.foldl (fun n c => n * 10 + (c.toNat - 48)) 0,
        text.drop digits.length)
  else
    none

/- What follows an expected character. -/
def skip (expected : Char) : Str → Option Str
| c :: rest => if c = expected then some rest else none
| [] => none

def isBlank (c : Char) : Bool :=
  c == ' ' || c == '\t'

/- The fields of a timestamp; what is missing is zero. -/
structure Timestamp where
  year : Nat
  month : Nat
  day : Nat
  hour : Nat
  minute : Nat
  second : Nat
  zoneHours : Nat
  zoneMinutes : Nat

/- The hours and minutes of a time zone. -/
def zone (text : Str) : Option (Nat × Nat) :=
  match text.dropWhile isBlank with
  | [] => if text.isEmpty then some (0, 0) else none
  | ['Z'] => some (0, 0)
  | c :: rest =>
      if c = '-' ∨ c = '+' then do
        let (hours, rest) ← number 1 2 rest
        if rest.isEmpty then
          some (hours, 0)
        else
          let rest ← skip ':' rest
          let (minutes, rest) ← number 2 2 rest
          if rest.isEmpty then some (hours, minutes) else none
      else
        none

/- The parts of a timestamp. -/
def timestampParts (value : Str) : Option Timestamp := do
  let (year, rest) ← number 4 4 value
  let rest ← skip '-' rest
  let (month, rest) ← number 1 2 rest
  let rest ← skip '-' rest
  let (day, rest) ← number 1 2 rest
  match rest with
  | [] =>
      some
        { year := year, month := month, day := day
          hour := 0, minute := 0, second := 0
          zoneHours := 0, zoneMinutes := 0 }
  | c :: tail =>
      let rest ←
        if c = 'T' ∨ c = 't' then
          some tail
        else if isBlank c then
          some (tail.dropWhile isBlank)
        else
          none
      let (hour, rest) ← number 1 2 rest
      let rest ← skip ':' rest
      let (minute, rest) ← number 2 2 rest
      let rest ← skip ':' rest
      let (second, rest) ← number 2 2 rest
      let rest :=
        match rest with
        | '.' :: fraction => fraction.dropWhile Char.isDigit
        | other => other
      let (zoneHours, zoneMinutes) ← zone rest
      some
        { year := year, month := month, day := day
          hour := hour, minute := minute, second := second
          zoneHours := zoneHours, zoneMinutes := zoneMinutes }

def daysOf (year month : Nat) : Option Nat :=
  let leap :=
    year % 4 = 0 ∧ (year % 100 ≠ 0 ∨ year % 400 = 0)
  if [1, 3, 5, 7, 8, 10, 12].contains month then
    some 31
  else if [4, 6, 9, 11].contains month then
    some 30
  else if month = 2 then
    if leap then some 29 else some 28
  else
    none

/- Whether Python's `datetime` accepts the fields. -/
def timestampIsValid (value : Str) : Bool :=
  match timestampParts value with
  | none => false
  | some t =>
      match daysOf t.year t.month with
      | none => false
      | some days =>
          decide
            (1 ≤ t.year ∧ t.year ≤ 9999 ∧ 1 ≤ t.day ∧
              t.day ≤ days ∧ t.hour ≤ 23 ∧ t.minute ≤ 59 ∧
              t.second ≤ 59 ∧
              t.zoneHours * 60 + t.zoneMinutes < 24 * 60)

end Yaml

end MailgunRelay

------------------------------------------------------------
-- Scalars
------------------------------------------------------------

namespace MailgunRelay

namespace Yaml

open Secrets (Node)

/-
  The type PyYAML gives a plain scalar, or the error its
  constructor raises.
-/
def resolvePlain (value : Str) : Except Str Node :=
  if nullPattern.rmatch value then
    .ok .null
  else if boolPattern.rmatch value then
    .ok (.other "bool".toList)
  else if floatPattern.rmatch value then
    .ok (.other "float".toList)
  else if intPattern.rmatch value then
    let digits :=
      (value.dropWhile fun c => c == '-' || c == '+').filter
        (· != '_')
    if digits = "0b".toList ∨ digits = "0x".toList then
      .error "unconstructible int scalar".toList
    else
      let powerOfTwoBase :=
        "0b".toList.isPrefixOf digits ||
          "0x".toList.isPrefixOf digits ||
          ("0".toList.isPrefixOf digits &&
            1 < digits.length && !digits.contains ':')
      if !powerOfTwoBase &&
          (digits.splitOn ':').any
            (fun part => 4300 < part.length) then
        .error
          ("int scalar exceeds Python's 4300-digit " ++
            "limit").toList
      else
        .ok (.other "int".toList)
  else if timestampPattern.rmatch value then
    if timestampIsValid value then
      .ok (.other "timestamp".toList)
    else
      .error "invalid timestamp scalar".toList
  else if value = "<<".toList then
    .error
      "merge keys are not supported (PLAN.md D-6)".toList
  else if value = "=".toList then
    .error
      ("the YAML 1.1 value type \x60=\x60 cannot be " ++
        "constructed").toList
  else
    .ok (.str value)

end Yaml

end MailgunRelay

------------------------------------------------------------
-- Events
------------------------------------------------------------

namespace MailgunRelay

namespace Yaml

open Secrets (Node)

/- A place in the text. -/
structure Mark where
  line : Nat
  col : Nat

inductive ScalarStyle where
  | plain
  | singleQuoted
  | doubleQuoted
  | literal
  | folded
  deriving DecidableEq

structure Tag where
  handle : Str
  suffix : Str

/- What `yaml-rust2` reports; an anchor `0` is none. -/
inductive Event where
  | nothing
  | streamStart
  | streamEnd
  | documentStart
  | documentEnd
  | «alias» (id : Nat)
  | scalar
      (value : Str) (style : ScalarStyle) (anchor : Nat)
      (tag : Option Tag)
  | sequenceStart (anchor : Nat) (tag : Option Tag)
  | sequenceEnd
  | mappingStart (anchor : Nat) (tag : Option Tag)
  | mappingEnd

/- A token of its scanner, as far as it is looked at. -/
inductive Token where
  | anchor (name : Str)
  | versionDirective
  | tagDirective
  | other

/- A step of the parser: an event, or where it failed. -/
abbrev Report := Except Mark (Event × Mark)

def isStrTag (tag : Tag) : Bool :=
  tag.handle ++ tag.suffix = "tag:yaml.org,2002:str".toList

/- A collection that is not finished. -/
inductive Frame where
  | seq (anchor : Nat) (items : List Node)
  /- The pending key waits for its value. -/
  | map
      (anchor : Nat) (entries : List (Option Str × Node))
      (pending : Option (Option Str))

/- The local variables of `parse`. -/
structure State where
  anchors : List (Nat × Node)
  stack : List Frame
  documents : Nat
  root : Option Node

def maxDepth : Nat := 64

def atLine (message : String) (mark : Mark) : Str :=
  message.toList ++ " at line ".toList ++
    (toString mark.line).toList

/- The anchored nodes, the latest first. -/
def register
    (anchors : List (Nat × Node))
    (anchor : Nat)
    (node : Node) : List (Nat × Node) :=
  if anchor ≠ 0 then
    (anchor, node) :: anchors
  else
    anchors

/- A node as a key. -/
def keyOf : Node → Except Str (Option Str)
| .str key => .ok (some key)
| .null => .ok none
| .other _ => .ok none
| .seq _ =>
    .error "collection used as a mapping key".toList
| .map _ =>
    .error "collection used as a mapping key".toList

/- Put a finished node where it belongs. -/
def State.place
    (s : State)
    (node : Node)
    (anchor : Nat) : Except Str State :=
  let s := { s with anchors := register s.anchors anchor node }
  match s.stack with
  | [] => .ok { s with root := some node }
  | .seq a items :: stack =>
      .ok { s with stack := .seq a (items ++ [node]) :: stack }
  | .map a entries (some key) :: stack =>
      .ok
        { s with
          stack :=
            .map a (entries ++ [(key, node)]) none :: stack }
  | .map a entries none :: stack => do
      let key ← keyOf node
      return {
        s with stack := .map a entries (some key) :: stack }

/- Whether the next node is a key. -/
def isKey : List Frame → Bool
| .map _ _ none :: _ => true
| _ => false

/- The node of a scalar. -/
def scalarNode
    (value : Str)
    (style : ScalarStyle)
    (tag : Option Tag)
    (mark : Mark) : Except Str Node :=
  match tag with
  | some tag =>
      if isStrTag tag then
        .ok (.str value)
      else
        .error (atLine "unsupported tag" mark)
  | none =>
      if style = .plain then
        resolvePlain value
      else
        .ok (.str value)

/- Open a collection. -/
def State.push
    (s : State)
    (frame : Frame)
    (tag : Option Tag)
    (mark : Mark) : Except Str State :=
  if tag.isSome then
    .error (atLine "unsupported tag" mark)
  else if maxDepth ≤ s.stack.length then
    .error "nesting too deep".toList
  else
    .ok { s with stack := frame :: s.stack }

/- Close the innermost collection. -/
def State.pop (s : State) : Except Str State :=
  match s.stack with
  | .seq anchor items :: stack =>
      { s with stack := stack }.place (.seq items) anchor
  | .map anchor entries none :: stack =>
      { s with stack := stack }.place (.map entries) anchor
  | _ => .error "unbalanced YAML events".toList

/- One event, other than the last one. -/
def State.step
    (s : State)
    (event : Event)
    (mark : Mark) : Except Str State :=
  match event with
  | .documentStart =>
      if s.documents + 1 > 1 then
        .error "expected a single document".toList
      else
        .ok { s with documents := s.documents + 1 }
  | .sequenceStart anchor tag => s.push (.seq anchor []) tag mark
  | .mappingStart anchor tag =>
      s.push (.map anchor [] none) tag mark
  | .sequenceEnd => s.pop
  | .mappingEnd => s.pop
  | .scalar value style anchor tag =>
      -- An empty implicit key is an error in PyYAML.
      if isKey s.stack && value.isEmpty &&
          decide (style = .plain) && tag.isNone then
        .error (atLine "empty mapping key" mark)
      else do
        let node ← scalarNode value style tag mark
        s.place node anchor
  | .alias id =>
      match s.anchors.lookup id with
      | some node => s.place node 0
      -- The anchored node is still open.
      | none => .error "alias to an unfinished node".toList
  | .nothing | .streamStart | .streamEnd | .documentEnd => .ok s

/-
  The loop over the events, up to the end of the stream; the
  parser always reports one.
-/
def run (s : State) : List Report → Except Str Node
| [] => .ok (s.root.getD .null)
| .error place :: _ =>
    .error
      ("not valid YAML at line ".toList ++
        (toString place.line).toList ++ " column ".toList ++
        (toString (place.col + 1)).toList)
| .ok (.streamEnd, _) :: _ => .ok (s.root.getD .null)
| .ok (event, mark) :: rest => do
    let s ← s.step event mark
    run s rest

def State.start : State :=
  { anchors := [], stack := [], documents := 0, root := none }

end Yaml

end MailgunRelay

------------------------------------------------------------
-- Documents
------------------------------------------------------------

namespace MailgunRelay

namespace Yaml

open Secrets (Node)

/- The `yaml-rust2` crate. -/
class YamlRust where
  /- `Scanner::new`. -/
  tokens : Str → List Token
  /- `Parser::next_token`, up to the end of the stream. -/
  reports : Str → List Report

/- `\r\n` and `\r` as `\n`. -/
def unixLines : Str → Str
| '\r' :: '\n' :: rest => '\n' :: unixLines rest
| '\r' :: rest => '\n' :: unixLines rest
| c :: rest => c :: unixLines rest
| [] => []

/- A character PyYAML reads, without TAB, NEL, LS and PS. -/
def isPrintable (c : Char) : Bool :=
  c == '\n' || c == '\r' ||
    (0x20 ≤ c.toNat && c.toNat ≤ 0x7e) ||
    (0xa0 ≤ c.toNat && c.toNat ≤ 0x2027) ||
    (0x202a ≤ c.toNat && c.toNat ≤ 0xd7ff) ||
    (0xe000 ≤ c.toNat && c.toNat ≤ 0xfffd) ||
    0x10000 ≤ c.toNat

/- The text from a byte index on has only such characters. -/
def checkCharacters : Nat → Str → Except Str Unit
| _, [] => .ok ()
| index, c :: rest =>
    if !isPrintable c || (c.toNat == 0xfeff && 0 < index) then
      .error
        ("unsupported character at byte ".toList ++
          (toString index).toList ++ " (PLAN.md D-6)".toList)
    else
      checkCharacters (index + c.utf8Size) rest

/- No anchor twice, and no directive. -/
def checkTokens (seen : List Str) :
    List Token → Except Str Unit
| [] => .ok ()
| .anchor name :: rest =>
    if seen.contains name then
      .error "duplicate anchor".toList
    else
      checkTokens (name :: seen) rest
| .versionDirective :: _ | .tagDirective :: _ =>
    .error
      ("YAML directives are not supported " ++
        "(PLAN.md D-6)").toList
| .other :: rest => checkTokens seen rest

variable [YamlRust]

/- Parse one document. -/
def parse (text : Str) : Except Str Node := do
  let text := unixLines text
  let text :=
    match text with
    | c :: rest => if c.toNat = 0xfeff then rest else text
    | [] => text
  checkCharacters 0 text
  checkTokens [] (YamlRust.tokens text)
  run State.start (YamlRust.reports text)

end Yaml

namespace Secrets

open Smtp (SmtpCredentials)

variable [Unicode] [Idna] [Yaml.YamlRust]

/- Parse and validate the text of the file. -/
def fromYaml
    (text : Str) :
    Except Str (SmtpCredentials × List TokenPolicy) :=
  match Yaml.parse text with
  | .error reason => .error ("secrets file: ".toList ++ reason)
  | .ok data => fromNode data

end Secrets

end MailgunRelay
