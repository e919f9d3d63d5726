import Mathlib.Data.List.DropRight
import MailgunRelay.Environment.Values
import MailgunRelay.Percent
import MailgunRelay.Pipeline
import MailgunRelay.Yaml

/-
  The HTTP surface (`http.rs`): the limit on a declared
  length, the routes of a decoded path, and the answers to
  what is no route.

  Axum calls `dispatch` for every path, behind `bodyLimit`.
  The answer to a request of the route is the pipeline's.

  Key definitions include:
    * `MailgunRelay.Http.Request`
    * `MailgunRelay.Http.Answer`
    * `MailgunRelay.Http.declaredLength`
    * `MailgunRelay.Http.matchRoute`
    * `MailgunRelay.Http.quote`
    * `MailgunRelay.Http.redirect`
    * `MailgunRelay.Http.dispatch`
    * `MailgunRelay.Http.router`
-/

------------------------------------------------------------
-- Addresses Of Connections
------------------------------------------------------------

namespace MailgunRelay

namespace Http

/- `std::net::IpAddr`. -/
inductive IpAddr where
  | v4 (octets : Vector UInt8 4)
  | v6 (segments : Vector UInt16 8)
  deriving DecidableEq

def IpAddr.localhost : IpAddr :=
  .v4 #v[127, 0, 0, 1]

structure SocketAddr where
  ip : IpAddr
  port : UInt16

/- Both ends of a TCP connection. -/
structure Connection where
  remote : SocketAddr
  «local» : Option SocketAddr

/- `Display` of an IPv4 address. -/
def displayV4 (octets : List UInt8) : Str :=
  ['.'].intercalate
    (octets.map fun octet => Nat.toDigits 10 octet.toNat)

/- Segments of an IPv6 address between colons. -/
def displaySegments (segments : List UInt16) : Str :=
  [':'].intercalate
    (segments.map fun segment => Nat.toDigits 16 segment.toNat)

/- A run of zero segments. -/
structure Span where
  start : Nat
  len : Nat

/- The first longest run of zero segments. -/
def longestZeros (segments : List UInt16) : Span :=
  (segments.zipIdx.foldl
    (fun (longest, current) (segment, i) =>
      if segment = 0 then
        let current : Span :=
          { start := if current.len = 0 then i else current.start
            len := current.len + 1 }
        (if longest.len < current.len then current else longest,
          current)
      else
        (longest, { start := 0, len := 0 }))
    (({ start := 0, len := 0 } : Span),
      ({ start := 0, len := 0 } : Span))).1

/- `Display` of an IPv6 address. -/
def displayV6 (segments : List UInt16) : Str :=
  let zeros := longestZeros segments
  if 1 < zeros.len then
    displaySegments (segments.take zeros.start) ++
      "::".toList ++
        displaySegments
          (segments.drop (zeros.start + zeros.len))
  else
    displaySegments segments

/- The octets of an IPv4-mapped address. -/
def mappedOctets : List UInt16 → Option (List UInt8)
| [0, 0, 0, 0, 0, 0xffff, ab, cd] =>
    some
      [UInt8.ofNat (ab.toNat / 256),
        UInt8.ofNat (ab.toNat % 256),
        UInt8.ofNat (cd.toNat / 256),
        UInt8.ofNat (cd.toNat % 256)]
| _ => none

/- `IpAddr::to_string`. -/
def IpAddr.display : IpAddr → Str
| .v4 octets => displayV4 octets.toList
| .v6 segments =>
    match mappedOctets segments.toList with
    | some octets => "::ffff:".toList ++ displayV4 octets
    | none => displayV6 segments.toList

end Http

end MailgunRelay

------------------------------------------------------------
-- Requests And Answers
------------------------------------------------------------

namespace MailgunRelay

namespace Http

/-
  A request as axum hands it over: the raw path and query,
  header names in lowercase.  The connection is an extension
  that a test may leave out.
-/
structure Request where
  method : Str
  path : Str
  query : Option Str
  headers : List (Str × Bytes)
  connection : Option Connection
  body : List Pipeline.Frame

/- The first value of a header. -/
def Request.header
    (request : Request)
    (name : Str) : Option Bytes :=
  (request.headers.find? fun h => h.1 == name).map Prod.snd

/-
  An answer: JSON, a wrong method with `Allow`, a redirect
  with its `Location` if that is a header value, or what the
  pipeline answers.
-/
inductive Answer where
  | json (status : Nat) (body : Str)
  | notAllowed (allow : Str)
  | redirect (location : Option Str)
  | messages (domain : Str)
  deriving DecidableEq

/- The bytes `HeaderValue::to_str` accepts. -/
def isVisible (b : UInt8) : Bool :=
  (32 ≤ b && b < 127) || b == 9

/- `HeaderValue::to_str`. -/
def headerStr (value : Bytes) : Option Str :=
  if value.all isVisible then some (latin1 value) else none

/- `HeaderValue::from_str`. -/
def headerValue (text : Str) : Option Str :=
  if (utf8 text).all fun b => (32 ≤ b && b != 127) || b == 9
  then
    some text
  else
    none

end Http

end MailgunRelay

------------------------------------------------------------
-- The Limit On A Declared Length
------------------------------------------------------------

namespace MailgunRelay

namespace Http

open Environment (digitsValue trim)

/- `u64::from_str`. -/
def parseU64 (text : Str) : Option Nat :=
  let digits :=
    match text with
    | '+' :: rest => rest
    | _ => text
  if digits.isEmpty || !digits.all Char.isDigit then
    none
  else
    let n := digitsValue digits
    if n < 2 ^ 64 then some n else none

/- The length a `Content-Length` declares. -/
def declaredLength (value : Bytes) : Option Nat :=
  (headerStr value).bind fun text => parseU64 (trim text)

/- What is no length counts as too long. -/
def declaresTooMuch
    (maxBodyBytes : I64)
    (request : Request) : Bool :=
  match request.header "content-length".toList with
  | none => false
  | some value =>
      match declaredLength value with
      | none => true
      | some n => maxBodyBytes.val < n

end Http

end MailgunRelay

------------------------------------------------------------
-- Routes
------------------------------------------------------------

namespace MailgunRelay

namespace Http

inductive Route where
  | health
  | messages (domain : Str)
  deriving DecidableEq

/- The methods of a route. -/
def Route.allowed : Route → List Str
| .health => ["GET".toList]
| .messages _ => ["POST".toList]

/- A route, before one final newline. -/
def matchRoute (path : Str) : Option Route :=
  let path := (path.dropSuffix? ['\n']).getD path
  if path = "/health".toList then
    some .health
  else do
    let rest ← path.dropPrefix? "/v3/".toList
    let domain ← rest.dropSuffix? "/messages".toList
    if domain ≠ [] ∧ '/' ∉ domain then
      some (.messages domain)
    else
      none

end Http

end MailgunRelay

------------------------------------------------------------
-- Redirects
------------------------------------------------------------

namespace MailgunRelay

namespace Http

open Yaml (Pattern oneOf word maybe many many1)

def letters : String :=
  "abcdefghijklmnopqrstuvwxyzABCDEFGHIJKLMNOPQRSTUVWXYZ"

/- `HOST_RE`: a name or an IPv6 address, and a port. -/
def hostPattern : Pattern :=
  (many1 (oneOf (letters ++ "0123456789.-")) +
      word "[" * many (oneOf "abcdefABCDEF0123456789") *
        word ":" *
        many1 (oneOf "abcdefABCDEF0123456789.:") *
        word "]") *
    maybe (word ":" * many1 (oneOf "0123456789"))

/- The bytes `urllib.parse.quote` leaves as they are. -/
def isSafe (b : UInt8) : Bool :=
  let c := Char.ofNat b.toNat
  isAsciiAlphanumeric c ||
    ":/%#?=@[]!$&'()*+,;_.-~".toList.contains c

/- A byte, or its escape. -/
def quoteByte (b : UInt8) : Str :=
  if isSafe b then
    [Char.ofNat b.toNat]
  else
    ['%', Form.upperHexDigit (b.toNat / 16),
      Form.upperHexDigit (b.toNat % 16)]

/- `urllib.parse.quote` of a URL. -/
def quote (url : Str) : Str :=
  (utf8 url).flatMap quoteByte

def schemes : List Str :=
  ["http", "https", "ws", "wss"].map String.toList

/- The scheme, which only a local proxy may say. -/
def scheme (request : Request) : Str :=
  let forwarded :=
    request.headers.filter fun h =>
      h.1 == "x-forwarded-proto".toList
  match request.connection, forwarded with
  | some connection, [(_, value)] =>
      let value := pyStrip (latin1 value)
      if connection.remote.ip = .localhost ∧
          schemes.contains value then
        value
      else
        "http".toList
  | _, _ => "http".toList

/- The `Host` of the request, if it is well-formed. -/
def host (request : Request) : Option Str := do
  let value ← request.header "host".toList
  let text ← headerStr value
  if hostPattern.rmatch text then some text else none

/- The port that a URL of the scheme does not say. -/
def defaultPort (request : Request) : UInt16 :=
  if scheme request = "https".toList ∨
      scheme request = "wss".toList then
    443
  else
    80

/- The host, or the local address of the connection. -/
def netloc (request : Request) : Option Str :=
  match host request,
    request.connection.bind Connection.local with
  | some host, _ => some host
  | none, some «local» =>
      if «local».port = defaultPort request then
        some «local».ip.display
      else
        some
          («local».ip.display ++
            ':' :: Nat.toDigits 10 «local».port.toNat)
  | none, none => none

/- The query of a URL, with its `?`. -/
def querySuffix : Option Str → Str
| none => []
| some query => if query.isEmpty then [] else '?' :: query

/- The URL of a path, before it is quoted. -/
def redirectUrl (request : Request) (path : Str) : Str :=
  let url :=
    match netloc request with
    | some netloc =>
        scheme request ++ "://".toList ++ netloc ++ path
    | none => path
  url ++ querySuffix request.query

/- The `Location` of a redirect to a path. -/
def redirect (request : Request) (path : Str) : Option Str :=
  headerValue (quote (redirectUrl request path))

end Http

end MailgunRelay

------------------------------------------------------------
-- The Router
------------------------------------------------------------

namespace MailgunRelay

namespace Http

/- The answer behind the limit. -/
def dispatch (request : Request) : Answer :=
  let path := percentDecode request.path
  match matchRoute path with
  | some route =>
      if route.allowed.contains request.method then
        match route with
        | .health => .json 200 "\x7b\"status\":\"ok\"\x7d".toList
        | .messages domain => .messages domain
      else
        .notAllowed (", ".toList.intercalate route.allowed)
  | none =>
      -- Slashes at the end of any route, with any method.
      let stripped := path.rdropWhile (· == '/')
      if path ≠ ['/'] ∧ byteLen path ≠ byteLen stripped ∧
          (matchRoute stripped).isSome then
        .redirect (redirect request stripped)
      else
        .json 404 "\x7b\"detail\":\"Not Found\"\x7d".toList

/- The answer to every request. -/
def router
    (maxBodyBytes : I64)
    (request : Request) : Answer :=
  if declaresTooMuch maxBodyBytes request then
    .json 413 "\x7b\"message\":\"Payload Too Large\"\x7d".toList
  else
    dispatch request

end Http

end MailgunRelay
