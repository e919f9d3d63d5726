import MailgunRelay.Allowlist
import MailgunRelay.Mime.Envelope
import MailgunRelay.Smtp.Session

/-
  Every address that was accepted is one the SMTP session
  can send.

  The addresses come from the mailbox parser or from the
  `ENVELOPE_SENDER` reader (`config.rs`).  They are ASCII
  without anything that ends or extends a command, so the
  check of the session never fails on them.

  Key definitions include:
    * `MailgunRelay.envelopeSender`
    * `MailgunRelay.Smtp.loadSender`
    * `MailgunRelay.Smtp.SafeAddress`

  Key theorems include:
    * `MailgunRelay.validates_addrSpec`
    * `MailgunRelay.Smtp.safeAddress_of_chars`
    * `MailgunRelay.Smtp.addresses_safe`
-/

------------------------------------------------------------
-- The Envelope Sender
------------------------------------------------------------

namespace MailgunRelay

variable [Unicode] [Idna]

/-
  The text of the sender: ASCII is used unchanged, otherwise
  only the domain may be non-ASCII.
-/
def senderText (value : Str) : Except Str Str :=
  if value.all isAsciiChar then
    .ok value
  else
    match Lib.Text.rsplitOnce '@' value with
    | some (name, domain) =>
        if !name.isEmpty && name.all isAsciiChar then
          (normalizeConfigDomain domain).map fun normal =>
            name ++ '@' :: normal
        else
          .error
            ("only the domain may be non-ASCII " ++
              "(SMTPUTF8 is not used)").toList
    | none =>
        .error
          ("only the domain may be non-ASCII " ++
            "(SMTPUTF8 is not used)").toList

/- `ENVELOPE_SENDER`: empty is the null sender. -/
def envelopeSender (value : Str) : Except Str Str :=
  if value.isEmpty then
    .ok []
  else
    match senderText value with
    | .error reason => .error reason
    | .ok sender =>
        match parseAddrSpec sender with
        | some _ => .ok sender
        | none =>
            .error
              ("not a valid email address " ++
                "(PLAN.md D-15)").toList

namespace Smtp

omit [Unicode] [Idna] in
/- The sender in `SmtpConfig::load`. -/
def loadSender
    (sender : Str) : Except Str (Option Address) :=
  match sender with
  | [] => .ok none
  | sender =>
      match envelopeAddress sender with
      | some address => .ok (some address)
      | none =>
          .error
            ("MAILGUN_RELAY_ENVELOPE_SENDER: not an ASCII " ++
              "address").toList

end Smtp

end MailgunRelay

------------------------------------------------------------
-- Host Characters
------------------------------------------------------------

namespace MailgunRelay

/- The characters of an A-label domain. -/
def isHostChar (c : Char) : Bool :=
  ('a' ≤ c && c ≤ 'z') || ('0' ≤ c && c ≤ '9') ||
    c == '-' || c == '.'

/- What a host character is, and is not. -/
theorem isHostChar_plain
    {c : Char}
    (hChar : isHostChar c = true) :
    isAsciiChar c = true ∧ c.toLower = c ∧
      isConfigDomainChar c = true ∧ isAddrChar c = true ∧
      isCombiningMark c = false ∧ c ≠ '@' := by
  have hAscii : isAsciiChar c = true := by
    simp only [isHostChar, Bool.or_eq_true, Bool.and_eq_true,
      decide_eq_true_eq, beq_iff_eq, Char.le_def,
      UInt32.le_iff_toNat_le] at hChar
    have hVal : c.toNat = c.val.toNat := rfl
    simp only [isAsciiChar, decide_eq_true_eq]
    rcases hChar with ((hChar | hChar) | rfl) | rfl
    · simp at hChar
      omega
    · simp at hChar
      omega
    · decide
    · decide
  refine ⟨hAscii, ?_⟩
  revert hChar
  exact
    forall_ascii
      (P := fun c => isHostChar c = true → c.toLower = c ∧
        isConfigDomainChar c = true ∧ isAddrChar c = true ∧
        isCombiningMark c = false ∧ c ≠ '@')
      (by decide) hAscii

variable [Unicode] [Idna]

/- What is assumed of `to_ascii` with the STD3 deny list. -/
structure Std3Laws : Prop where
  chars : ∀ dns domain ascii,
    Idna.toAscii dns domain = some ascii →
      ∀ c ∈ ascii, isHostChar c = true
  idempotent : ∀ dns domain ascii,
    Idna.toAscii dns domain = some ascii →
      Idna.toAscii dns ascii = some ascii

/- The A-label of an accepted domain is accepted as it is. -/
theorem DomainRules.again
    (hStd3 : Std3Laws)
    {domain ascii : Str}
    (h : DomainRules domain ascii) :
    DomainRules ascii ascii := by
  have hChars := hStd3.chars _ _ _ h.toAscii
  have hAscii : ∀ c ∈ ascii, isAsciiChar c = true :=
    fun c hMem => (isHostChar_plain (hChars c hMem)).1
  have hLower : asciiLowercase ascii = ascii := by
    unfold asciiLowercase
    conv_rhs => rw [← List.map_id ascii]
    exact
      List.map_congr_left fun c hMem =>
        (isHostChar_plain (hChars c hMem)).2.1
  have hNonempty : ascii ≠ [] := by
    rintro rfl
    have hLetter := h.endsWithLetter
    cases hLetter
  refine
    { h with
      nonempty := hNonempty
      chars := ?_
      noLeadingMark := ?_
      toAscii := hStd3.idempotent _ _ _ h.toAscii
      canonical := fun _ => hLower.symm }
  · rw [lowercase_of_ascii hAscii, hLower, List.all_eq_true]
    exact fun c hMem =>
      (isHostChar_plain (hChars c hMem)).2.2.1
  · cases ascii with
    | nil => rfl
    | cons c rest =>
        exact
          (isHostChar_plain
            (hChars c List.mem_cons_self)).2.2.2.2.1

end MailgunRelay

------------------------------------------------------------
-- Addresses
------------------------------------------------------------

namespace MailgunRelay

/- The local part as sent is a dot-atom too. -/
theorem isDotAtom_sentLocal
    {name : Str}
    (hAtom : isDotAtom name = true) :
    isDotAtom (sentLocal name) = true := by
  unfold sentLocal
  split
  · rename_i hRole
    have hAll :
        ∀ role ∈ caseInsensitiveMailboxNames,
          isDotAtom role = true := by
      decide +kernel
    exact hAll _ (List.contains_iff_mem.mp hRole)
  · exact hAtom

theorem sentLocal_sentLocal
    (name : Str) :
    sentLocal (sentLocal name) = sentLocal name := by
  by_cases hRole :
      caseInsensitiveMailboxNames.contains
        (asciiLowercase name) = true
  · have hSent : sentLocal name = asciiLowercase name :=
      if_pos hRole
    unfold sentLocal at hSent ⊢
    rw [hSent, asciiLowercase_idem, if_pos hRole]
  · have hSent : sentLocal name = name := if_neg hRole
    rw [hSent, hSent]

theorem length_sentLocal
    (name : Str) :
    (sentLocal name).length = name.length := by
  unfold sentLocal
  split
  · exact List.length_map _
  · rfl

/- The characters of a dot-atom may stand in a token. -/
theorem isAddrChar_of_dotAtom
    {name : Str}
    (hAtom : isDotAtom name = true)
    {c : Char}
    (hMem : c ∈ name) :
    isAddrChar c = true ∧
      (Smtp.isAsciiGraphic c && c != '<' && c != '>') =
        true := by
  have hChar := isDotAtom_char hAtom hMem
  revert hChar
  exact
    forall_ascii
      (P := fun c => c = '.' ∨ isAtext c = true →
        isAddrChar c = true ∧
          (Smtp.isAsciiGraphic c && c != '<' && c != '>') =
            true)
      (by decide +kernel) (isDotAtom_plain hAtom hMem).1

variable [Unicode] [Idna]

/- An accepted address is accepted as it is sent. -/
theorem validates_addrSpec
    (hStd3 : Std3Laws)
    {token displayName name rawDomain : Str}
    {m : Mailbox}
    (h : Validates token displayName name rawDomain m) :
    Validates m.addrSpec [] m.local m.domain
      { m with displayName := [] } := by
  have hRules := addressDomain_eq_some_iff.mp h.domain
  have hAtom : isDotAtom m.local = true := by
    rw [h.local]
    exact isDotAtom_sentLocal h.dotAtom
  have hNoAt : '@' ∉ m.local := fun hMem =>
    (isDotAtom_plain hAtom hMem).2.2 rfl
  have hLength : byteLen m.local = byteLen name := by
    rw [byteLen_of_ascii fun c hMem =>
        (isDotAtom_plain hAtom hMem).1,
      byteLen_of_ascii fun c hMem =>
        (isDotAtom_plain h.dotAtom hMem).1,
      h.local, length_sentLocal]
  constructor
  · exact (Lib.Text.splitOnce_eq_some_iff ..).mpr ⟨rfl, hNoAt⟩
  · exact hAtom
  · exact addressDomain_eq_some_iff.mpr (hRules.again hStd3)
  · have hShort := h.short
    rw [hLength]
    dsimp only
    omega
  · rw [h.local, sentLocal_sentLocal]
  · rfl

/- A bare address is read again as it is sent. -/
theorem parseAddrSpec_addrSpec
    (hStd3 : Std3Laws)
    {token displayName name rawDomain : Str}
    {m : Mailbox}
    (h : Validates token displayName name rawDomain m) :
    parseAddrSpec m.addrSpec =
      some { m with displayName := [] } := by
  have hAgain := validates_addrSpec hStd3 h
  have hRules := addressDomain_eq_some_iff.mp h.domain
  have hChars : m.addrSpec.all isAddrChar = true := by
    rw [List.all_eq_true]
    intro c hMem
    rw [Mailbox.addrSpec, List.mem_append,
      List.mem_cons] at hMem
    rcases hMem with hName | rfl | hDomain
    · exact (isAddrChar_of_dotAtom hAgain.dotAtom hName).1
    · rfl
    · exact
        (isHostChar_plain
          (hStd3.chars _ _ _ hRules.toAscii c
            hDomain)).2.2.2.1
  unfold parseAddrSpec
  rw [hChars]
  exact validate_eq_some_iff.mpr ⟨_, _, hAgain⟩

end MailgunRelay

------------------------------------------------------------
-- Safe Addresses
------------------------------------------------------------

namespace MailgunRelay

namespace Smtp

/-
  An address the session can send: nothing in it ends or
  extends a command, and it splits in one way.
-/
structure SafeAddress (address name domain : Str) : Prop where
  text : address = name ++ '@' :: domain
  once : '@' ∉ name ∧ '@' ∉ domain
  dotAtom : isDotAtom name = true
  ascii : ∀ c ∈ address, isAsciiChar c = true
  plain : ∀ c ∈ address,
    0x20 < c.toNat ∧ c.toNat < 0x7f ∧ c ≠ '<' ∧ c ≠ '>'
  short : byteLen address ≤ 254
  sendable :
    ∃ a, envelopeAddress address = some a ∧
      a.user = name ∧ a.domain = domain

/- A domain of host characters in any case is printable. -/
theorem isHostChar_printable
    {c : Char}
    (hChar : isHostChar c.toLower = true) :
    isAsciiChar c = true ∧ c ≠ '@' ∧
      (isAsciiGraphic c && c != '<' && c != '>') = true := by
  have hAscii : isAsciiChar c = true := by
    by_contra hNot
    have hBeyond := Bool.eq_false_iff.mpr hNot
    rw [toLower_of_beyondAscii hBeyond] at hChar
    exact hNot (isHostChar_plain hChar).1
  refine ⟨hAscii, ?_⟩
  revert hChar
  exact
    forall_ascii
      (P := fun c => isHostChar c.toLower = true →
        c ≠ '@' ∧
          (isAsciiGraphic c && c != '<' && c != '>') = true)
      (by decide) hAscii

/- The sides of a safe address. -/
theorem safeAddress_of_chars
    {name domain : Str}
    (hAtom : isDotAtom name = true)
    (hDomain : domain ≠ [])
    (hChars : ∀ c ∈ domain, isHostChar c.toLower = true)
    (hShort : byteLen name + 1 + byteLen domain ≤ 254) :
    SafeAddress (name ++ '@' :: domain) name domain := by
  have hNameAt : '@' ∉ name := fun hMem =>
    (isDotAtom_plain hAtom hMem).2.2 rfl
  have hDomainAt : '@' ∉ domain := fun hMem =>
    (isHostChar_printable (hChars _ hMem)).2.1 rfl
  have hAll (c : Char) (hMem : c ∈ name ++ '@' :: domain) :
      isAsciiChar c = true ∧
        (isAsciiGraphic c && c != '<' && c != '>') = true := by
    rw [List.mem_append, List.mem_cons] at hMem
    rcases hMem with hName | rfl | hHost
    · exact
        ⟨(isDotAtom_plain hAtom hName).1,
          (isAddrChar_of_dotAtom hAtom hName).2⟩
    · decide
    · have hPlain := isHostChar_printable (hChars c hHost)
      exact ⟨hPlain.1, hPlain.2.2⟩
  constructor
  · rfl
  · exact ⟨hNameAt, hDomainAt⟩
  · exact hAtom
  · exact fun c hMem => (hAll c hMem).1
  · intro c hMem
    have hGraphic := (hAll c hMem).2
    simp only [isAsciiGraphic, Bool.and_eq_true,
      decide_eq_true_eq, bne_iff_ne, Char.le_def,
      UInt32.le_iff_toNat_le] at hGraphic
    have hVal : c.toNat = c.val.toNat := rfl
    rcases hGraphic with ⟨⟨⟨hLow, hHigh⟩, hOpen⟩, hClose⟩
    simp at hLow hHigh
    exact ⟨by omega, by omega, hOpen, hClose⟩
  · have hLength :
        byteLen (name ++ '@' :: domain) =
          byteLen name + 1 + byteLen domain := by
      simp only [byteLen, List.map_append, List.map_cons,
        List.sum_append, List.sum_cons]
      rw [show '@'.utf8Size = 1 from rfl, Nat.add_assoc]
    rw [hLength]
    exact hShort
  · have hSplit :
        Lib.Text.rsplitOnce '@' (name ++ '@' :: domain) =
          some (name, domain) :=
      (Lib.Text.rsplitOnce_eq_some_iff ..).mpr
        ⟨rfl, hDomainAt⟩
    have hNonempty : name ≠ [] := by
      rintro rfl
      cases hAtom
    have hPrintable :
        printable name = true ∧ printable domain = true := by
      simp only [printable, Bool.and_eq_true,
        Bool.not_eq_true', List.isEmpty_eq_false_iff,
        List.all_eq_true]
      refine ⟨⟨hNonempty, fun c hMem => ?_⟩,
        hDomain, fun c hMem => ?_⟩
      · simpa using
          (hAll c (List.mem_append_left _ hMem)).2
      · simpa using
          (hAll c
            (List.mem_append_right _
              (List.mem_cons_of_mem _ hMem))).2
    unfold envelopeAddress
    simp only [hSplit, hPrintable, and_self, dite_true]
    exact ⟨_, rfl, rfl, rfl⟩

end Smtp

end MailgunRelay

------------------------------------------------------------
-- Every Accepted Address
------------------------------------------------------------

namespace MailgunRelay

namespace Smtp

variable [Unicode] [Idna]

/- An address that is read again as what it is. -/
structure StableAddress
    (address name domain : Str) : Prop
    extends SafeAddress address name domain where
  reparsed :
    ∃ m, parseAddrSpec address = some m ∧
      m.local = name ∧ m.domain = domain

/- The address of a mailbox is safe and stable. -/
theorem mailbox_stable
    (hStd3 : Std3Laws)
    {chars : Str}
    {m : Mailbox}
    (hMailbox : mailbox chars = some m) :
    StableAddress m.addrSpec m.local m.domain := by
  rcases validate_of_mailbox hMailbox with
    ⟨token, displayName, hToken⟩
  rcases validate_eq_some_iff.mp hToken with
    ⟨name, rawDomain, hValid⟩
  have hAgain := validates_addrSpec hStd3 hValid
  have hRules := addressDomain_eq_some_iff.mp hAgain.domain
  have hChars := hStd3.chars _ _ _ hRules.toAscii
  have hShort := hAgain.short
  dsimp only at hShort hChars
  have hSafe : SafeAddress m.addrSpec m.local m.domain := by
    refine
      safeAddress_of_chars hAgain.dotAtom hRules.nonempty
        ?_ (by omega)
    intro c hMem
    rw [(isHostChar_plain (hChars c hMem)).2.1]
    exact hChars c hMem
  exact
    { hSafe with
      reparsed :=
        ⟨_, parseAddrSpec_addrSpec hStd3 hValid, rfl, rfl⟩ }

/- A configured domain is written in host characters. -/
theorem normalizeConfigDomain_chars
    (hStd3 : Std3Laws)
    {value ascii : Str}
    (hNormal : normalizeConfigDomain value = .ok ascii)
    {c : Char}
    (hMem : c ∈ ascii) :
    isHostChar c = true := by
  unfold normalizeConfigDomain at hNormal
  split at hNormal
  · cases hNormal
  cases hDomain : normalizeDomain value with
  | error reason =>
      rw [hDomain] at hNormal
      cases hNormal
  | ok ascii' =>
      rw [hDomain] at hNormal
      dsimp only at hNormal
      split at hNormal
      · cases hNormal
      cases hNormal
      unfold normalizeDomain at hDomain
      dsimp only at hDomain
      split at hDomain
      · cases hDomain
      split at hDomain
      · rename_i hAscii
        cases hDomain
        exact hStd3.chars _ _ _ hAscii c hMem
      · cases hDomain

/- The sender is ASCII, whatever was configured. -/
theorem senderText_ascii
    (hStd3 : Std3Laws)
    {value sender : Str}
    (hText : senderText value = .ok sender)
    {c : Char}
    (hMem : c ∈ sender) :
    isAsciiChar c = true := by
  unfold senderText at hText
  split at hText
  · rename_i hAscii
    cases hText
    exact List.all_eq_true.mp hAscii c hMem
  split at hText
  · rename_i name domain hSplit
    split at hText
    · rename_i hName
      cases hNormal : normalizeConfigDomain domain with
      | error reason =>
          rw [hNormal] at hText
          cases hText
      | ok ascii =>
          rw [hNormal] at hText
          cases hText
          rw [Bool.and_eq_true, List.all_eq_true] at hName
          rcases List.mem_append.mp hMem with hIn | hIn
          · exact hName.2 c hIn
          · rcases List.mem_cons.mp hIn with rfl | hHost
            · rfl
            · exact
                (isHostChar_plain
                  (normalizeConfigDomain_chars hStd3 hNormal
                    hHost)).1
    · cases hText
  · cases hText

/-
  The configured sender is null, or safe; read again, it is
  the same address up to case.
-/
structure SafeSender (sender : Str) : Prop where
  safe : sender = [] ∨ ∃ name domain m,
    SafeAddress sender name domain ∧
      parseAddrSpec sender = some m ∧
      m.local = sentLocal name ∧
      m.domain = asciiLowercase domain

theorem envelopeSender_safe
    (hStd3 : Std3Laws)
    {value sender : Str}
    (hSender : envelopeSender value = .ok sender) :
    SafeSender sender := by
  unfold envelopeSender at hSender
  split at hSender
  · cases hSender
    exact ⟨.inl rfl⟩
  cases hText : senderText value with
  | error reason =>
      rw [hText] at hSender
      cases hSender
  | ok sender' =>
      rw [hText] at hSender
      dsimp only at hSender
      split at hSender
      · rename_i m hParsed
        cases hSender
        have hAscii (c : Char) (hMem : c ∈ sender) :=
          senderText_ascii hStd3 hText hMem
        have hToken := hParsed
        unfold parseAddrSpec at hToken
        split at hToken
        · cases hToken
        rcases validate_eq_some_iff.mp hToken with
          ⟨name, domain, hValid⟩
        rcases
          (Lib.Text.splitOnce_eq_some_iff ..).mp hValid.split with
          ⟨rfl, -⟩
        have hRules :=
          addressDomain_eq_some_iff.mp hValid.domain
        have hDomainAscii (c : Char) (hMem : c ∈ domain) :
            isAsciiChar c = true :=
          hAscii c
            (List.mem_append_right _
              (List.mem_cons_of_mem _ hMem))
        have hLower :=
          hRules.canonical (List.all_eq_true.mpr hDomainAscii)
        have hHost := hStd3.chars _ _ _ hRules.toAscii
        have hShort := hValid.short
        refine
          ⟨.inr ⟨name, domain, m, ?_, hParsed, hValid.local,
            hLower⟩⟩
        refine
          safeAddress_of_chars hValid.dotAtom hRules.nonempty
            ?_ (by omega)
        intro c hMem
        refine hHost _ ?_
        rw [hLower]
        exact List.mem_map_of_mem hMem
      · cases hSender

/- Every sender that was read is loaded. -/
theorem loadSender_isOk
    (hStd3 : Std3Laws)
    {value sender : Str}
    (hSender : envelopeSender value = .ok sender) :
    (loadSender sender).isOk = true := by
  unfold loadSender
  split
  · rfl
  · rename_i hNonempty
    rcases (envelopeSender_safe hStd3 hSender).safe with
      hNull | ⟨name, domain, m, hSafe, -⟩
    · exact absurd hNull hNonempty
    · rcases hSafe.sendable with ⟨address, hAddress, -⟩
      rw [hAddress]
      rfl

omit [Unicode] [Idna] in
/- All recipients of a list of safe addresses can be sent. -/
theorem recipientsOf_isSome
    {envelope : List Str}
    (hSafe : ∀ address ∈ envelope,
      (envelopeAddress address).isSome = true) :
    (recipientsOf envelope).isSome = true := by
  unfold recipientsOf
  induction envelope with
  | nil => rfl
  | cons address rest ih =>
      rcases
        Option.isSome_iff_exists.mp
          (hSafe address List.mem_cons_self) with
        ⟨a, hFirst⟩
      rcases
        Option.isSome_iff_exists.mp
          (ih fun other hOther =>
            hSafe other (List.mem_cons_of_mem _ hOther)) with
        ⟨recipients, hRest⟩
      rw [List.mapM_cons, hFirst, hRest]
      rfl

/- The mailbox of each parsed recipient was parsed. -/
theorem parseMailbox_of_mem_recipients
    {values : List Str}
    {ms : List Mailbox}
    (hParsed : Mime.parseRecipients values = some ms)
    {m : Mailbox}
    (hMem : m ∈ ms) :
    ∃ value ∈ values, parseMailbox value = some m := by
  induction values generalizing ms with
  | nil =>
      cases hParsed
      cases hMem
  | cons value rest ih =>
      unfold Mime.parseRecipients at hParsed
      rcases Option.bind_eq_some_iff.mp hParsed with
        ⟨first, hFirst, hParsed⟩
      rcases Option.bind_eq_some_iff.mp hParsed with
        ⟨others, hOthers, hEnd⟩
      cases hEnd
      rcases List.mem_cons.mp hMem with rfl | hLater
      · exact ⟨value, List.mem_cons_self, hFirst⟩
      · rcases ih hOthers hLater with ⟨other, hOther, hValue⟩
        exact ⟨other, List.mem_cons_of_mem _ hOther, hValue⟩

variable [Base64] [Lettre]

/- The envelope of every built message can be sent. -/
theorem recipientsOf_build
    (hStd3 : Std3Laws)
    {hex : Option Str}
    {date : Str}
    {input : Mime.MessageInput}
    {message : BuiltMessage}
    (hBuild : Mime.build hex date input = .ok message) :
    (recipientsOf message.envelope).isSome = true := by
  rcases Mime.envelope_of_build hBuild with
    ⟨«to», cc, bcc, hTo, hCc, hBcc, hEnvelope⟩
  refine recipientsOf_isSome fun address hMem => ?_
  rw [hEnvelope, Mime.mem_distinct] at hMem
  rcases List.mem_map.mp hMem.1 with ⟨m, hMailbox, rfl⟩
  have hParsed : ∃ value, parseMailbox value = some m := by
    rw [List.mem_append, List.mem_append] at hMailbox
    rcases hMailbox with (hIn | hIn) | hIn
    · rcases parseMailbox_of_mem_recipients hTo hIn with
        ⟨value, -, hValue⟩
      exact ⟨value, hValue⟩
    · rcases parseMailbox_of_mem_recipients hCc hIn with
        ⟨value, -, hValue⟩
      exact ⟨value, hValue⟩
    · rcases parseMailbox_of_mem_recipients hBcc hIn with
        ⟨value, -, hValue⟩
      exact ⟨value, hValue⟩
  rcases hParsed with ⟨value, hValue⟩
  rcases
    (mailbox_stable hStd3
      (mailbox_of_parseMailbox hValue)).sendable with
    ⟨a, hAddress, -⟩
  rw [hAddress]
  rfl

/-
  Every accepted address can be sent, and the check of the
  session never fires.
-/
theorem addresses_safe
    (hStd3 : Std3Laws) :
    (∀ value m, parseMailbox value = some m →
      StableAddress m.addrSpec m.local m.domain) ∧
    (∀ value ms, parseMailboxList value = some ms →
      ∀ m ∈ ms, StableAddress m.addrSpec m.local m.domain) ∧
    (∀ value sender, envelopeSender value = .ok sender →
      SafeSender sender ∧ (loadSender sender).isOk = true) ∧
    ∀ hex date input message,
      Mime.build hex date input = .ok message →
        (recipientsOf message.envelope).isSome = true := by
  refine ⟨?_, ?_, ?_, ?_⟩
  · intro value m hParsed
    exact
      mailbox_stable hStd3 (mailbox_of_parseMailbox hParsed)
  · intro value ms hParsed m hMem
    unfold parseMailboxList at hParsed
    split at hParsed
    · cases hParsed
    rcases mailbox_of_mem_mailboxes hParsed hMem with
      ⟨element, hElement⟩
    exact mailbox_stable hStd3 hElement
  · intro value sender hSender
    exact
      ⟨envelopeSender_safe hStd3 hSender,
        loadSender_isOk hStd3 hSender⟩
  · intro hex date input message hBuild
    exact recipientsOf_build hStd3 hBuild

omit [Unicode] [Idna] [Base64] [Lettre] in
theorem aDe_std3Laws :
    @Std3Laws .aDe := by
  let _ : Idna := .aDe
  constructor
  · intro dns domain ascii hSome c hMem
    simp only [Idna.toAscii, Option.ite_none_right_eq_some,
      Option.some.injEq] at hSome
    rw [← hSome.2] at hMem
    have hAll : "a.de".toList.all isHostChar = true := by
      decide +kernel
    exact List.all_eq_true.mp hAll c hMem
  · intro dns domain ascii hSome
    simp only [Idna.toAscii, Option.ite_none_right_eq_some,
      Option.some.injEq] at hSome
    rw [← hSome.2]
    rfl

omit [Unicode] [Idna] [Base64] [Lettre] in
theorem addresses_safe_role :
    let _ : Unicode := .ascii
    let _ : Idna := .aDe
    StableAddress "info@a.de".toList "info".toList
        "a.de".toList ∧
      SafeSender "Info@A.de".toList := by
  intro _ _
  let _ : Base64 :=
    { encode := fun _ => []
      decodeStrict := fun _ => none
      decodeLenient := fun _ => none }
  let _ : Lettre :=
    { emailWriter := fun _ _ => []
      headerName := fun _ => true
      headerValue := fun _ value => value
      contentType := fun _ => none
      singlePart := fun _ => []
      multiPart := fun _ _ => [] }
  rcases addresses_safe aDe_std3Laws with
    ⟨hMailbox, -, hSender, -⟩
  exact
    ⟨hMailbox "Role (x) <Info@A.de>".toList
        { displayName := "Role (x)".toList
          «local» := "info".toList
          domain := "a.de".toList }
        (by decide +kernel),
      (hSender "Info@A.de".toList _ (by decide +kernel)).1⟩

omit [Unicode] [Idna] [Base64] [Lettre] in
/- Two senders that are no stable address: null, and cased. -/
theorem envelopeSender_unstable :
    let _ : Unicode := .ascii
    let _ : Idna := .aDe
    ¬ (∀ value sender, envelopeSender value = .ok sender →
        '@' ∈ sender) ∧
      ¬ ∀ value sender, envelopeSender value = .ok sender →
        '@' ∈ sender →
          ∃ name domain, StableAddress sender name domain := by
  intro _ _
  constructor
  · intro hAll
    have hAt := hAll [] [] rfl
    cases hAt
  · intro hAll
    rcases
      hAll "Info@A.de".toList "Info@A.de".toList
        (by decide +kernel) (by decide) with
      ⟨name, domain, hStable⟩
    rcases hStable.reparsed with ⟨m, hParsed, hLocal, -⟩
    have hRole :
        parseAddrSpec "Info@A.de".toList =
          some
            { displayName := []
              «local» := "info".toList
              domain := "a.de".toList } := by
      decide +kernel
    rw [hRole] at hParsed
    cases hParsed
    have hText := hStable.text
    rw [← hLocal] at hText
    have hFirst := congrArg List.head? hText
    simp at hFirst

end Smtp

end MailgunRelay
