import MailgunRelay.Data

/-
  What the relay takes from crates whose source is not in
  the repository.

  Every function here is a parameter: the model is the same
  for all of them.  What a result needs to know about one is
  a law of its own, stated where it is used.

  Key definitions include:
    * `MailgunRelay.Unicode`
    * `MailgunRelay.Idna`
    * `MailgunRelay.Base64`
    * `MailgunRelay.Sha256`
    * `MailgunRelay.Lettre`
-/

------------------------------------------------------------
-- Text
------------------------------------------------------------

namespace MailgunRelay

/-
  The Unicode tables of the standard library, which
  `str::to_lowercase` reads for non-ASCII characters.
-/
class Unicode where
  toLower : Char → Str
  cased : Char → Bool
  caseIgnorable : Char → Bool

/- `DnsLength` of the `idna` crate. -/
inductive DnsLength where
  | verify
  | verifyAllowRootDot
  deriving DecidableEq

/- The `idna` crate. -/
class Idna where
  /- `Uts46::to_ascii` with STD3 and checked hyphens. -/
  toAscii : DnsLength → Str → Option Str
  /- `domain_to_unicode`, and whether it was valid. -/
  domainToUnicode : Str → Str × Bool

/- The tables for ASCII text, where they are not read. -/
@[reducible] def Unicode.ascii : Unicode :=
  { toLower := fun c => [c]
    cased := Char.isAlpha
    caseIgnorable := fun _ => false }

/- Names of short plain labels: letters and digits. -/
@[reducible] def Idna.ascii : Idna :=
  { toAscii := fun _ domain =>
      if (domain.splitOn '.').all fun label =>
          !label.isEmpty && label.all Char.isAlphanum then
        some (domain.map Char.toLower)
      else
        none
    domainToUnicode := fun domain => (domain, true) }

end MailgunRelay

------------------------------------------------------------
-- Bytes
------------------------------------------------------------

namespace MailgunRelay

/- The engines of the `base64` crate the relay uses. -/
class Base64 where
  /- `STANDARD.encode`. -/
  encode : Bytes → Str
  /- Canonical padding, trailing bits allowed. -/
  decodeStrict : Str → Option Bytes
  /- Any padding, trailing bits allowed. -/
  decodeLenient : Str → Option Bytes

/- The `sha2` crate. -/
class Sha256 where
  digest : Bytes → Bytes

end MailgunRelay

------------------------------------------------------------
-- Mail
------------------------------------------------------------

namespace MailgunRelay

/-
  What is written to an `EmailWriter`: text as it stands,
  text through its folding writer, a space that may become a
  line break, and text as RFC 2047 encoded words.
-/
inductive WriterOp where
  | text (s : Str)
  | folding (s : Str)
  | space
  | encode (s : Str)
  deriving DecidableEq

/- A parsed `ContentType`, as it is written. -/
structure ContentType where
  text : Str
  deriving DecidableEq

/- The bytes of a part: lettre's choice, or base64. -/
inductive PartBody where
  | auto (text : Str)
  | base64 (data : Bytes)
  deriving DecidableEq

/- The `Content-Disposition` of a part. -/
inductive Disposition where
  | none
  | inline (filename : Str)
  | attachment (filename : Str)
  deriving DecidableEq

/- A `SinglePart`; the Content-ID is an encoded value. -/
structure SinglePart where
  contentType : ContentType
  contentId : Option Str
  disposition : Disposition
  body : PartBody
  deriving DecidableEq

/- The kinds of `MultiPart`. -/
inductive MultiKind where
  | alternative
  | related
  | mixed
  deriving DecidableEq

/- lettre and `email_encoding`. -/
class Lettre where
  /- `EmailWriter` on a line that holds so many bytes. -/
  emailWriter : Nat → List WriterOp → Str
  /- `HeaderName::new_from_ascii` accepts the name. -/
  headerName : Str → Bool
  /- `HeaderValue::new`: the encoded value. -/
  headerValue : Str → Str → Str
  /- `ContentType::parse`. -/
  contentType : Str → Option ContentType
  /- `SinglePart::formatted`. -/
  singlePart : SinglePart → Bytes
  /- `MultiPart::formatted`, of the formatted children. -/
  multiPart : MultiKind → List Bytes → Bytes

end MailgunRelay
