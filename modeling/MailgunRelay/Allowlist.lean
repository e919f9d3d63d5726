import MailgunRelay.Policy
import MailgunRelay.Secrets.Spec

/-
  The allowlist and the sender use one normal form.

  The configuration and the requests have a normaliser each.
  Where a request's normaliser accepts an address, the other
  one gives the same domain and the same policy address; so
  a token lists a sender exactly when its entry normalises
  to the sender's policy address.

  Key definitions include:
    * `MailgunRelay.CaseLaws`
    * `MailgunRelay.IdnaLaws`
    * `MailgunRelay.Spelling`
    * `MailgunRelay.Lists`

  Key theorems include:
    * `MailgunRelay.normalizeConfigDomain_of_rules`
    * `MailgunRelay.normalizeConfigAddress_of_validates`
    * `MailgunRelay.Spelling.toAscii_eq`
    * `MailgunRelay.allowlist_normalForm`
-/

------------------------------------------------------------
-- Case
------------------------------------------------------------

namespace MailgunRelay

/- What `char::to_lowercase` does with any character. -/
structure CaseLaws [Unicode] : Prop where
  nonempty : ∀ c, Unicode.toLower c ≠ []
  space : ∀ c, isPySpace c = true → Unicode.toLower c = [c]

variable [Unicode]

/- A property of all lowered characters holds of each one. -/
theorem lowerBetween_of_lowercase
    {s : Str}
    {P : Char → Prop}
    (hAll : ∀ d ∈ lowercase s, P d)
    {c : Char}
    (hMem : c ∈ s) :
    ∃ before after, ∀ d ∈ lowerBetween before c after, P d := by
  suffices hFrom : ∀ before,
      (∀ d ∈ lowerFrom before s, P d) →
        ∃ before after,
          ∀ d ∈ lowerBetween before c after, P d from
    hFrom [] hAll
  clear hAll
  induction s with
  | nil => cases hMem
  | cons x rest ih =>
      intro before hAll
      unfold lowerFrom at hAll
      rcases List.mem_cons.mp hMem with rfl | hRest
      · exact
          ⟨before, rest, fun d hd =>
            hAll d (List.mem_append_left _ hd)⟩
      · exact
          ih hRest _ fun d hd =>
            hAll d (List.mem_append_right _ hd)

theorem lowerBetween_ne_nil
    (hCase : CaseLaws)
    (before : Str)
    (c : Char)
    (after : Str) :
    lowerBetween before c after ≠ [] := by
  unfold lowerBetween
  split
  · simp
  · split
    · split <;> simp
    · exact hCase.nonempty c

theorem lowercase_ne_nil
    (hCase : CaseLaws)
    {s : Str}
    (hNonempty : s ≠ []) :
    lowercase s ≠ [] := by
  cases s with
  | nil => exact absurd rfl hNonempty
  | cons c rest =>
      intro hNil
      exact
        lowerBetween_ne_nil hCase [] c rest
          (List.append_eq_nil_iff.mp hNil).1

/- White space is its own lowercase. -/
theorem lowerBetween_space
    (hCase : CaseLaws)
    {c : Char}
    (hSpace : isPySpace c = true)
    (before after : Str) :
    lowerBetween before c after = [c] := by
  unfold lowerBetween
  split
  · rw [toLower_of_space hSpace]
  · split
    · rename_i hSigma
      rw [hSigma] at hSpace
      cases hSpace
    · exact hCase.space c hSpace

end MailgunRelay

------------------------------------------------------------
-- Domains
------------------------------------------------------------

namespace MailgunRelay

/- A supported domain character is no white space. -/
theorem isPySpace_of_configDomainChar
    {c : Char}
    (hChar : isConfigDomainChar c = true) :
    isPySpace c = false := by
  rw [Bool.eq_false_iff]
  intro hSpace
  simp only [isConfigDomainChar, Bool.or_eq_true,
    Bool.and_eq_true, decide_eq_true_eq, beq_iff_eq,
    Char.le_def, UInt32.le_iff_toNat_le] at hChar
  simp only [isPySpace, Bool.or_eq_true, Bool.and_eq_true,
    decide_eq_true_eq, beq_iff_eq] at hSpace
  have hVal : c.toNat = c.val.toNat := rfl
  rcases hChar with
    ((((((((hChar | hChar) | rfl) | rfl) | hChar) | hChar) |
      hChar) | hChar) | hChar) | hChar
  all_goals first
    | omega
    | simp at hChar hSpace; omega
    | simp at hSpace

/- A text of no white space is stripped already. -/
theorem pyStrip_eq_self
    {s : Str}
    (hSpaces : ∀ c ∈ s, isPySpace c = false) :
    pyStrip s = s := by
  unfold pyStrip
  rw [List.dropWhile_eq_self_iff.mpr,
    List.rdropWhile_eq_self_iff.mpr]
  · intro hNonempty
    simp [hSpaces _ (List.getLast_mem hNonempty)]
  · intro hLength
    simp [hSpaces _ (List.getElem_mem hLength)]

variable [Unicode] [Idna]

/- The characters of an accepted domain. -/
theorem DomainRules.char
    (hCase : CaseLaws)
    {domain ascii : Str}
    (h : DomainRules domain ascii)
    {c : Char}
    (hMem : c ∈ domain) :
    isPySpace c = false ∧ c ≠ '@' := by
  rcases
    lowerBetween_of_lowercase
      (List.all_eq_true.mp h.chars) hMem with
    ⟨before, after, hLowered⟩
  constructor
  · rw [Bool.eq_false_iff]
    intro hSpace
    rw [lowerBetween_space hCase hSpace] at hLowered
    have hNot :=
      isPySpace_of_configDomainChar
        (hLowered c List.mem_cons_self)
    rw [hSpace] at hNot
    cases hNot
  · rintro rfl
    have hNot := hLowered '@' List.mem_cons_self
    cases hNot

/-
  What is assumed of the `idna` crate.  Only names of
  supported characters count: a final sigma, say, is mapped
  as it stands.
-/
structure IdnaLaws : Prop where
  idempotent : ∀ dns domain ascii,
    Idna.toAscii dns domain = some ascii →
      Idna.toAscii dns ascii = some ascii
  lowercase : ∀ dns domain,
    (lowercase domain).all isConfigDomainChar = true →
      Idna.toAscii dns (lowercase domain) =
        Idna.toAscii dns domain
  rootDot : ∀ domain ascii,
    Idna.toAscii .verify domain = some ascii →
      Idna.toAscii .verifyAllowRootDot domain = some ascii

/-
  A domain of an address is a domain of the configuration,
  with the same A-label.
-/
theorem normalizeConfigDomain_of_rules
    (hCase : CaseLaws)
    (hIdna : IdnaLaws)
    {domain ascii : Str}
    (h : DomainRules domain ascii) :
    normalizeConfigDomain domain = .ok ascii := by
  have hStrip : pyStrip domain = domain :=
    pyStrip_eq_self fun c hMem => (h.char hCase hMem).1
  have hLowered :
      Idna.toAscii .verifyAllowRootDot (lowercase domain) =
        some ascii := by
    rw [hIdna.lowercase _ _ h.chars]
    exact hIdna.rootDot domain ascii h.toAscii
  rw [normalizeConfigDomain_eq_ok_iff,
    normalizeDomain_eq_ok_iff, hStrip]
  have hNonempty := lowercase_ne_nil hCase h.nonempty
  exact
    ⟨h.chars, ⟨hNonempty, hLowered⟩, h.valid, h.unicodeChars⟩

/-
  Two spellings of one name: with supported letters in any
  case, or as its A-label.
-/
inductive Spelling : Str → Str → Prop where
  | cased
      {domain domain' : Str}
      (hChars :
        (lowercase domain).all isConfigDomainChar = true)
      (hSame : lowercase domain = lowercase domain') :
      Spelling domain domain'
  | aLabel
      {domain ascii : Str}
      (hAscii : Idna.toAscii .verify domain = some ascii) :
      Spelling domain ascii
  | symm
      {domain domain' : Str} :
      Spelling domain domain' → Spelling domain' domain
  | trans
      {domain domain' domain'' : Str} :
      Spelling domain domain' → Spelling domain' domain'' →
        Spelling domain domain''

/- Spellings of one name have one A-label. -/
theorem Spelling.toAscii_eq
    (hIdna : IdnaLaws)
    {domain domain' : Str}
    (hSpelling : Spelling domain domain') :
    Idna.toAscii .verify domain =
      Idna.toAscii .verify domain' := by
  induction hSpelling with
  | cased hChars hSame =>
      rw [← hIdna.lowercase _ _ hChars, hSame,
        hIdna.lowercase]
      rw [← hSame]
      exact hChars
  | aLabel hAscii =>
      rw [hAscii, hIdna.idempotent _ _ _ hAscii]
  | symm _ ih => exact ih.symm
  | trans _ _ ih ih' => exact ih.trans ih'

/- Accepted spellings of one name are one domain. -/
theorem Spelling.domain_eq
    (hIdna : IdnaLaws)
    {domain domain' ascii ascii' : Str}
    (hSpelling : Spelling domain domain')
    (h : addressDomain domain = some ascii)
    (h' : addressDomain domain' = some ascii') :
    ascii' = ascii := by
  have hAscii := (addressDomain_eq_some_iff.mp h).toAscii
  have hAscii' := (addressDomain_eq_some_iff.mp h').toAscii
  rw [← hSpelling.toAscii_eq hIdna, hAscii] at hAscii'
  exact (Option.some.inj hAscii').symm

end MailgunRelay

------------------------------------------------------------
-- Addresses
------------------------------------------------------------

namespace MailgunRelay

variable [Unicode] [Idna]

/-
  An address of a request is an address of the
  configuration, normalised to its policy address.
-/
theorem normalizeConfigAddress_of_validates
    (hCase : CaseLaws)
    (hIdna : IdnaLaws)
    {token displayName name rawDomain : Str}
    {m : Mailbox}
    (h : Validates token displayName name rawDomain m) :
    normalizeConfigAddress token = .ok m.policyAddress := by
  rcases (Lib.Text.splitOnce_eq_some_iff ..).mp h.split with
    ⟨hToken, hFirst⟩
  have hRules := addressDomain_eq_some_iff.mp h.domain
  have hNoAt : '@' ∉ rawDomain := fun hMem =>
    (hRules.char hCase hMem).2 rfl
  have hStrip : pyStrip token = token := by
    refine pyStrip_eq_self fun c hMem => ?_
    rw [hToken, List.mem_append, List.mem_cons] at hMem
    rcases hMem with hName | rfl | hDomain
    · exact (isDotAtom_plain h.dotAtom hName).2.1
    · rfl
    · exact (hRules.char hCase hDomain).1
  have hSplit :
      Lib.Text.rsplitOnce '@' token = some (name, rawDomain) :=
    (Lib.Text.rsplitOnce_eq_some_iff ..).mpr ⟨hToken, hNoAt⟩
  have hNonempty : name.isEmpty = false := by
    have hAtom := h.dotAtom
    simp only [isDotAtom, Bool.and_eq_true,
      Bool.not_eq_true'] at hAtom
    exact hAtom.1
  have hAscii : name.all isAsciiChar = true :=
    List.all_eq_true.mpr fun c hMem =>
      (isDotAtom_plain h.dotAtom hMem).1
  unfold normalizeConfigAddress Mailbox.policyAddress
  simp only [hStrip, hSplit, hNonempty, hAscii,
    normalizeConfigDomain_of_rules hCase hIdna hRules,
    h.local, asciiLowercase_sentLocal, Bool.not_true,
    Bool.false_eq_true, if_false]

end MailgunRelay

------------------------------------------------------------
-- Loaded Policies
------------------------------------------------------------

namespace MailgunRelay

open Secrets (Node loadPolicy)

variable [Unicode] [Idna]

/-
  The policy lists an address: as an allowed address, and
  its domain as an allowed domain.
-/
structure Lists
    (raw : Node)
    (address domain : Str) : Prop where
  address :
    address ∈ raw.entries "allowed_from_addresses"
  domain : domain ∈ raw.entries "allowed_from_domains"

/- What an allowlist entry that is an address amounts to. -/
structure NormalForm
    (address : Str)
    (m : Mailbox)
    (domain : Str) : Prop where
  written : ∃ name, address = name ++ '@' :: domain ∧
    '@' ∉ name ∧ '@' ∉ domain
  normalAddress :
    normalizeConfigAddress address = .ok m.policyAddress
  normalDomain : normalizeConfigDomain domain = .ok m.domain
  /- Every accepted spelling of the domain is the domain. -/
  spelling : ∀ token displayName name domain' m',
    Validates token displayName name domain' m' →
      Spelling domain domain' → m'.domain = m.domain
  /- A listed sender passes on an allowed path. -/
  accepts : ∀ raw field policy,
    loadPolicy raw field = .ok policy →
      Lists raw address domain →
        ∀ pathDomain path «from» m',
          normalizeDomain pathDomain = .ok path →
          path ∈ policy.mailgunDomains →
          parseMailbox «from» = some m' →
          asciiLowercase m'.local = asciiLowercase m.local →
          m'.domain = m.domain →
            enforcePolicy policy pathDomain «from» = .ok m'
  /- Nobody else passes. -/
  onlyListed : ∀ raw field policy,
    loadPolicy raw field = .ok policy →
      Lists raw address domain →
        ∀ pathDomain «from» m',
          enforcePolicy policy pathDomain «from» = .ok m' →
            ∃ entry ∈ raw.entries "allowed_from_addresses",
              normalizeConfigAddress entry =
                .ok m'.policyAddress

/- The allowlist and the sender use one normal form. -/
theorem allowlist_normalForm
    (hCase : CaseLaws)
    (hIdna : IdnaLaws)
    {address : Str}
    {m : Mailbox}
    (hParsed : parseAddrSpec address = some m) :
    ∃ domain, NormalForm address m domain := by
  unfold parseAddrSpec at hParsed
  split at hParsed
  · cases hParsed
  rcases validate_eq_some_iff.mp hParsed with
    ⟨name, domain, hValid⟩
  have hAddress :=
    normalizeConfigAddress_of_validates hCase hIdna hValid
  have hRules := addressDomain_eq_some_iff.mp hValid.domain
  have hDomain :=
    normalizeConfigDomain_of_rules hCase hIdna hRules
  rcases (Lib.Text.splitOnce_eq_some_iff ..).mp hValid.split with
    ⟨hWritten, hFirst⟩
  refine ⟨domain, ?_⟩
  constructor
  · exact
      ⟨name, hWritten, hFirst, fun hMem =>
        (hRules.char hCase hMem).2 rfl⟩
  · exact hAddress
  · exact hDomain
  · intro token displayName name' domain' m' hValid' hSpelling
    exact hSpelling.domain_eq hIdna hValid.domain hValid'.domain
  · intro raw field policy hLoaded hLists pathDomain path
      «from» m' hPath hAllowed hFrom hLocal hSame
    rcases Secrets.loadPolicy_loaded hLoaded with
      ⟨hDomains, hAddresses⟩
    refine
      (enforceWith_eq_ok_iff ..).mpr
        ⟨⟨path, hPath, hAllowed⟩, hFrom, ?_, ?_⟩
    · rw [hSame]
      exact
        (hDomains _).mpr ⟨domain, hLists.domain, hDomain⟩
    · intro allowed hSome
      rw [hSome] at hAddresses
      have hPolicy : m'.policyAddress = m.policyAddress := by
        unfold Mailbox.policyAddress
        rw [hLocal, hSame]
      rw [hPolicy]
      exact
        (hAddresses _).mpr ⟨address, hLists.address, hAddress⟩
  · intro raw field policy hLoaded hLists pathDomain «from» m'
      hPass
    rcases Secrets.loadPolicy_loaded hLoaded with
      ⟨-, hAddresses⟩
    rcases (enforceWith_eq_ok_iff ..).mp hPass with
      ⟨-, -, -, hListed⟩
    cases hSome : policy.allowedFromAddresses with
    | none =>
        rw [hSome] at hAddresses
        have hMem := hLists.address
        rw [show raw.entries _ = [] from hAddresses] at hMem
        cases hMem
    | some allowed =>
        rw [hSome] at hAddresses
        exact (hAddresses _).mp (hListed allowed hSome)

/- `to_ascii` where it is asked for one domain only. -/
@[reducible] def Idna.aDe : Idna :=
  { toAscii := fun _ domain =>
      if asciiLowercase domain = "a.de".toList then
        some "a.de".toList
      else
        none
    domainToUnicode := fun domain => (domain, true) }

omit [Unicode] [Idna] in
theorem ascii_caseLaws :
    @CaseLaws Unicode.ascii :=
  let _ : Unicode := .ascii
  { nonempty := fun c => List.cons_ne_nil c []
    space := fun _ _ => rfl }

/- `to_ascii` of one name with an umlaut. -/
@[reducible] def Idna.umlaut : Idna :=
  { toAscii := fun _ domain =>
      if asciiLowercase domain = "jörg.de".toList ∨
          asciiLowercase domain = "xn--jrg-sna.de".toList then
        some "xn--jrg-sna.de".toList
      else
        none
    domainToUnicode := fun domain =>
      if domain = "xn--jrg-sna.de".toList then
        ("jörg.de".toList, true)
      else
        (domain, true) }

omit [Unicode] [Idna] in
/- The tables for ASCII text lower no other letter. -/
theorem ascii_lowercase
    {s : Str}
    (hChars :
      (@lowercase .ascii s).all isConfigDomainChar = true) :
    @lowercase .ascii s = asciiLowercase s := by
  let _ : Unicode := .ascii
  suffices hFrom : ∀ before,
      (lowerFrom before s).all isConfigDomainChar = true →
        lowerFrom before s = s.map Char.toLower from
    hFrom [] hChars
  clear hChars
  induction s with
  | nil => exact fun _ _ => rfl
  | cons c rest ih =>
      intro before hAll
      unfold lowerFrom at hAll ⊢
      rw [List.all_append, Bool.and_eq_true] at hAll
      rw [ih _ hAll.2, List.map_cons, ← List.singleton_append]
      congr 1
      have hHere := hAll.1
      unfold lowerBetween at hHere ⊢
      split
      · rfl
      · rename_i hAscii
        rw [if_neg hAscii] at hHere
        split
        · rename_i hSigma
          rw [if_pos hSigma] at hHere
          split at hHere
          · exact absurd hHere (by decide)
          · exact absurd hHere (by decide)
        · rw [toLower_of_beyondAscii
            (Bool.eq_false_iff.mpr hAscii)]
          rfl

omit [Unicode] [Idna] in
theorem umlaut_laws :
    @IdnaLaws .ascii .umlaut := by
  let _ : Unicode := .ascii
  let _ : Idna := .umlaut
  constructor
  · intro dns domain ascii hSome
    simp only [Idna.toAscii, Option.ite_none_right_eq_some,
      Option.some.injEq] at hSome
    rw [← hSome.2]
    exact if_pos (.inr (by decide +kernel))
  · intro dns domain hChars
    simp only [Idna.toAscii]
    rw [ascii_lowercase hChars, asciiLowercase_idem]
  · exact fun _ _ hSome => hSome

omit [Unicode] [Idna] in
/- A role name at a U-label, which has an A-label. -/
theorem allowlist_normalForm_role :
    let _ : Unicode := .ascii
    let _ : Idna := .umlaut
    let mailbox : Mailbox :=
      { displayName := []
        «local» := "info".toList
        domain := "xn--jrg-sna.de".toList }
    ∃ domain,
      NormalForm "Info@JöRG.de".toList mailbox domain ∧
        Spelling domain "xn--jrg-sna.de".toList ∧
        parseAddrSpec "info@xn--jrg-sna.de".toList =
          some mailbox := by
  intro _ _ mailbox
  have hParsed :
      parseAddrSpec "Info@JöRG.de".toList = some mailbox := by
    decide +kernel
  rcases
    allowlist_normalForm ascii_caseLaws umlaut_laws hParsed with
    ⟨domain, hForm⟩
  rcases hForm.written with ⟨name, hWritten, -, hNoAt⟩
  have hSplit :=
    (Lib.Text.rsplitOnce_eq_some_iff ..).mpr
      ⟨hWritten, hNoAt⟩
  have hHere :
      Lib.Text.rsplitOnce '@' "Info@JöRG.de".toList =
        some ("Info".toList, "JöRG.de".toList) := by
    decide +kernel
  rw [hHere] at hSplit
  cases hSplit
  exact
    ⟨_, hForm, .aLabel (by decide +kernel),
      by decide +kernel⟩

end MailgunRelay
