import MailgunRelay.Lib.Text
import MailgunRelay.PyStr

/-
  Domain normalisation (`domain.rs`): the path domain of a
  request, the domain of an address, and the domains and
  addresses of the configuration.

  Key definitions include:
    * `MailgunRelay.normalizeDomain`
    * `MailgunRelay.isConfigDomainChar`
    * `MailgunRelay.addressDomain`
    * `MailgunRelay.normalizeConfigDomain`
    * `MailgunRelay.normalizeConfigAddress`
    * `MailgunRelay.DomainRules`

  Key theorems include:
    * `MailgunRelay.normalizeConfigDomain_eq_ok_iff`
    * `MailgunRelay.addressDomain_eq_some_iff`
-/

------------------------------------------------------------
-- The Path Domain
------------------------------------------------------------

namespace MailgunRelay

variable [Unicode] [Idna]

/- The A-label of a domain; the error is its text. -/
def normalizeDomain (value : Str) : Except Str Str :=
  let lowered := lowercase (pyStrip value)
  if lowered.isEmpty then
    .error "empty domain".toList
  else
    match Idna.toAscii .verifyAllowRootDot lowered with
    | some ascii => .ok ascii
    | none => .error "invalid domain".toList

end MailgunRelay

------------------------------------------------------------
-- Address Domains
------------------------------------------------------------

namespace MailgunRelay

/-
  The supported domain characters: ASCII letters, digits,
  `-`, `.`, the Latin letters and the combining marks.
-/
def isConfigDomainChar (c : Char) : Bool :=
  ('a' ≤ c && c ≤ 'z') || ('0' ≤ c && c ≤ '9') ||
    c == '-' || c == '.' ||
    (0xc0 ≤ c.toNat && c.toNat ≤ 0xd6) ||
    (0xd8 ≤ c.toNat && c.toNat ≤ 0xf6) ||
    (0xf8 ≤ c.toNat && c.toNat ≤ 0x24f) ||
    (0x250 ≤ c.toNat && c.toNat ≤ 0x2af) ||
    (0x300 ≤ c.toNat && c.toNat ≤ 0x36f) ||
    (0x1e00 ≤ c.toNat && c.toNat ≤ 0x1eff)

/- The combining marks of the set. -/
def isCombiningMark (c : Char) : Bool :=
  0x300 ≤ c.toNat && c.toNat ≤ 0x36f

/- Special-use names `email_validator` refuses. -/
def specialUse : List Str :=
  ["arpa", "invalid", "local", "localhost", "onion"].map
    String.toList

/- A label without hyphens at its ends or at 3 and 4. -/
def isHostLabel (label : Str) : Bool :=
  label.head? != some '-' && label.getLast? != some '-' &&
    !(label[2]? == some '-' && label[3]? == some '-')

variable [Unicode] [Idna]

/-
  The domain of an address as `email_validator` decides it,
  restricted to the supported characters: the lowercase
  A-label.
-/
def addressDomain (domain : Str) : Option Str :=
  if domain.isEmpty ||
      !(lowercase domain).all isConfigDomainChar then
    none
  else if domain.head?.any isCombiningMark then
    none
  else
    match Idna.toAscii .verify domain with
    | none => none
    | some ascii =>
        -- An A-label input must already be canonical.
        if domain.all isAsciiChar &&
            ascii != asciiLowercase domain then
          none
        else
          let (unicode, valid) := Idna.domainToUnicode ascii
          if !valid || !unicode.all isConfigDomainChar then
            none
          else
            let labelsOk :=
              (unicode.splitOn '.').all isHostLabel
            let endsWithLetter :=
              ascii.getLast?.any Char.isAlpha
            let special :=
              specialUse.any fun name =>
                ascii == name ||
                  ('.' :: name).isSuffixOf ascii
            let dotted :=
              ascii.contains '.' || ascii == "test".toList
            if labelsOk && endsWithLetter && dotted &&
                !special then
              some ascii
            else
              none

end MailgunRelay

------------------------------------------------------------
-- The Configuration
------------------------------------------------------------

namespace MailgunRelay

def outsideSupportedSet : Str :=
  ("domain contains characters outside the supported set " ++
    "(PLAN.md D-10)").toList

variable [Unicode] [Idna]

/-
  A domain from the configuration: the supported characters
  in the input and in the Unicode form of the result.
-/
def normalizeConfigDomain
    (value : Str) : Except Str Str :=
  if !(lowercase (pyStrip value)).all isConfigDomainChar then
    .error outsideSupportedSet
  else
    match normalizeDomain value with
    | .error reason => .error reason
    | .ok ascii =>
        let (unicode, valid) := Idna.domainToUnicode ascii
        if !valid || !unicode.all isConfigDomainChar then
          .error outsideSupportedSet
        else
          .ok ascii

/-
  `normalize_address` for `allowed_from_addresses`: split at
  the last `@`, the local part in lowercase.
-/
def normalizeConfigAddress
    (value : Str) : Except Str Str :=
  match Lib.Text.rsplitOnce '@' (pyStrip value) with
  | none => .error "address missing '@'".toList
  | some (name, domain) =>
      if name.isEmpty then
        .error "address missing local part".toList
      else if !name.all isAsciiChar then
        .error
          ("address has a non-ASCII local part, which " ++
            "never matches (PLAN.md D-17)").toList
      else
        match normalizeConfigDomain domain with
        | .error reason => .error reason
        | .ok normal =>
            .ok (asciiLowercase name ++ '@' :: normal)

/- When a domain of a request is accepted. -/
theorem normalizeDomain_eq_ok_iff
    {value ascii : Str} :
    normalizeDomain value = .ok ascii ↔
      lowercase (pyStrip value) ≠ [] ∧
        Idna.toAscii .verifyAllowRootDot
            (lowercase (pyStrip value)) =
          some ascii := by
  unfold normalizeDomain
  dsimp only
  by_cases hEmpty : (lowercase (pyStrip value)).isEmpty = true
  · rw [if_pos hEmpty]
    exact
      ⟨nofun, fun h => absurd (List.isEmpty_iff.mp hEmpty) h.1⟩
  rw [if_neg hEmpty]
  rw [List.isEmpty_iff] at hEmpty
  cases Idna.toAscii .verifyAllowRootDot
      (lowercase (pyStrip value)) with
  | none => exact ⟨nofun, fun h => nomatch h.2⟩
  | some other =>
      simp only [Except.ok.injEq, Option.some.injEq]
      exact ⟨fun hSame => ⟨hEmpty, hSame⟩, fun h => h.2⟩

/- When a domain of the configuration is accepted. -/
theorem normalizeConfigDomain_eq_ok_iff
    {value ascii : Str} :
    normalizeConfigDomain value = .ok ascii ↔
      (lowercase (pyStrip value)).all isConfigDomainChar =
          true ∧
        normalizeDomain value = .ok ascii ∧
        (Idna.domainToUnicode ascii).2 = true ∧
        (Idna.domainToUnicode ascii).1.all
            isConfigDomainChar =
          true := by
  unfold normalizeConfigDomain
  cases (lowercase (pyStrip value)).all
      isConfigDomainChar with
  | false => exact ⟨nofun, fun h => nomatch h.1⟩
  | true =>
      rw [if_neg (by decide)]
      cases normalizeDomain value with
      | error reason => exact ⟨nofun, fun h => nomatch h.2.1⟩
      | ok other =>
          dsimp only
          by_cases hUnicode :
              (!(Idna.domainToUnicode other).2 ||
                !(Idna.domainToUnicode other).1.all
                  isConfigDomainChar) = true
          · rw [if_pos hUnicode]
            refine ⟨nofun, ?_⟩
            rintro ⟨-, hSame, hValid, hChars⟩
            cases hSame
            rw [hValid, hChars] at hUnicode
            cases hUnicode
          · rw [if_neg hUnicode]
            simp only [Bool.or_eq_true, Bool.not_eq_true',
              not_or, Bool.not_eq_false] at hUnicode
            constructor
            · intro hSame
              cases hSame
              exact ⟨rfl, rfl, hUnicode⟩
            · exact fun h => h.2.1

end MailgunRelay

------------------------------------------------------------
-- The Domain Rules
------------------------------------------------------------

namespace MailgunRelay

variable [Unicode] [Idna]

/- When a domain is accepted with its A-label form. -/
structure DomainRules (domain ascii : Str) : Prop where
  nonempty : domain ≠ []
  chars :
    (lowercase domain).all isConfigDomainChar = true
  noLeadingMark : domain.head?.any isCombiningMark = false
  toAscii : Idna.toAscii .verify domain = some ascii
  /- An A-label input is already canonical. -/
  canonical :
    domain.all isAsciiChar = true →
      ascii = asciiLowercase domain
  valid : (Idna.domainToUnicode ascii).2 = true
  unicodeChars :
    (Idna.domainToUnicode ascii).1.all isConfigDomainChar =
      true
  labels :
    ((Idna.domainToUnicode ascii).1.splitOn '.').all
        isHostLabel = true
  endsWithLetter : ascii.getLast?.any Char.isAlpha = true
  dotted : ascii.contains '.' = true ∨ ascii = "test".toList
  notSpecial : ∀ name ∈ specialUse,
    ascii ≠ name ∧ ('.' :: name).isSuffixOf ascii = false

/- The function accepts by these rules. -/
theorem addressDomain_eq_some_iff
    {domain ascii : Str} :
    addressDomain domain = some ascii ↔
      DomainRules domain ascii := by
  unfold addressDomain
  constructor
  · intro hSome
    split at hSome
    · cases hSome
    rename_i hChars
    split at hSome
    · cases hSome
    rename_i hMark
    split at hSome
    · cases hSome
    rename_i ascii' hAscii
    split at hSome
    · cases hSome
    rename_i hCanonical
    dsimp only at hSome
    split at hSome
    · cases hSome
    rename_i hUnicode
    split at hSome
    case isFalse => cases hSome
    rename_i hRest
    cases hSome
    simp only [Bool.or_eq_true, List.isEmpty_iff,
      Bool.not_eq_true', not_or, Bool.not_eq_false,
      Bool.and_eq_true, bne_iff_ne, ne_eq, not_and,
      not_not, Bool.not_eq_true]
      at hChars hMark hCanonical hUnicode
    simp only [Bool.and_eq_true, Bool.or_eq_true,
      beq_iff_eq, Bool.not_eq_true', List.any_eq_false,
      not_or, Bool.not_eq_true] at hRest
    rcases hRest with ⟨⟨⟨hLabels, hLetter⟩, hDotted⟩, hSpecial⟩
    exact
      { nonempty := hChars.1
        chars := hChars.2
        noLeadingMark := hMark
        toAscii := hAscii
        canonical := hCanonical
        valid := hUnicode.1
        unicodeChars := hUnicode.2
        labels := hLabels
        endsWithLetter := hLetter
        dotted := hDotted
        notSpecial := hSpecial }
  · intro h
    have hEmpty : domain.isEmpty = false :=
      List.isEmpty_eq_false_iff.mpr h.nonempty
    have hCanonical :
        (domain.all isAsciiChar &&
          ascii != asciiLowercase domain) = false := by
      cases hAscii : domain.all isAsciiChar with
      | false => rfl
      | true => simp [h.canonical hAscii]
    have hDotted :
        (ascii.contains '.' || ascii == "test".toList) =
          true := by
      simpa only [Bool.or_eq_true, beq_iff_eq] using h.dotted
    have hSpecial :
        (specialUse.any fun name =>
          ascii == name || ('.' :: name).isSuffixOf ascii) =
            false := by
      rw [List.any_eq_false]
      intro name hName
      simp [h.notSpecial name hName]
    simp only [hEmpty, h.chars, h.noLeadingMark, h.toAscii,
      hCanonical, h.valid, h.unicodeChars, h.labels,
      h.endsWithLetter, hDotted, hSpecial, Bool.not_true,
      Bool.not_false, Bool.or_false, Bool.and_true,
      Bool.false_eq_true, if_false, if_true]

end MailgunRelay
