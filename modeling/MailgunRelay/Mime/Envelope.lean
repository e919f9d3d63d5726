import MailgunRelay.Lib.Distinct
import MailgunRelay.Mime.Head

/-
  The envelope of a message, and what `bcc` does to it.

  The recipients are listed once each in form order.  Of a
  message, `bcc` decides the envelope and nothing else.

  Key definitions include:
    * `MailgunRelay.Mime.content`
    * `MailgunRelay.Mime.BccSecret`

  Key theorems include:
    * `MailgunRelay.Mime.distinct_firstOccurrences`
    * `MailgunRelay.Mime.build_eq_ok_iff`
    * `MailgunRelay.Mime.envelope_lawful`
-/

------------------------------------------------------------
-- Distinct Addresses
------------------------------------------------------------

namespace MailgunRelay

namespace Mime

/- An address is kept unless it was seen before. -/
theorem mem_distinct
    {seen addresses : List Str}
    {a : Str} :
    a ∈ distinct seen addresses ↔
      a ∈ addresses ∧ a ∉ seen := by
  induction addresses generalizing seen with
  | nil => simp [distinct]
  | cons address rest ih =>
      unfold distinct
      by_cases hSeen : address ∈ seen
      · have hNew : a ∉ seen → a ≠ address :=
          fun hNot hEq => hNot (hEq ▸ hSeen)
        rw [if_pos hSeen, ih]
        grind
      · rw [if_neg hSeen, List.mem_cons, ih]
        grind

/- The kept addresses stand in the order they came. -/
theorem distinct_order
    (seen addresses : List Str) :
    (distinct seen addresses).Pairwise fun a b =>
      addresses.idxOf a < addresses.idxOf b := by
  induction addresses generalizing seen with
  | nil => exact .nil
  | cons address rest ih =>
      -- What is kept of the rest is not the first address.
      have hShift : ∀ seen', address ∈ seen' →
          (distinct seen' rest).Pairwise fun a b =>
            (address :: rest).idxOf a <
              (address :: rest).idxOf b := by
        intro seen' hSeen
        refine (ih seen').imp_of_mem ?_
        intro a b hA hB hLess
        have hNeA : address ≠ a := by
          rintro rfl
          exact (mem_distinct.mp hA).2 hSeen
        have hNeB : address ≠ b := by
          rintro rfl
          exact (mem_distinct.mp hB).2 hSeen
        rw [List.idxOf_cons_ne _ hNeA,
          List.idxOf_cons_ne _ hNeB]
        omega
      unfold distinct
      by_cases hSeen : address ∈ seen
      · rw [if_pos hSeen]
        exact hShift seen hSeen
      · rw [if_neg hSeen]
        refine .cons ?_ (hShift _ List.mem_cons_self)
        intro b hB
        have hNe : address ≠ b := by
          rintro rfl
          exact (mem_distinct.mp hB).2 List.mem_cons_self
        rw [List.idxOf_cons_self, List.idxOf_cons_ne _ hNe]
        omega

theorem distinct_firstOccurrences
    (addresses : List Str) :
    Lib.FirstOccurrences addresses
      (distinct [] addresses) :=
  { mem := fun _ => by simp [mem_distinct]
    order := distinct_order [] addresses }

end Mime

end MailgunRelay

------------------------------------------------------------
-- The Part Without Bcc
------------------------------------------------------------

namespace MailgunRelay

namespace Mime

variable [Unicode] [Idna] [Base64] [Lettre]

/- The Message-Id and the bytes, which `bcc` is no part of. -/
def content
    (hex : Option Str)
    (date : Str)
    (input : MessageInput) :
    Except BuildError (List Mailbox × Str × Bytes) := do
  let text := nonEmpty input.text
  let html := nonEmpty input.html
  let ampHtml := nonEmpty input.ampHtml
  refuseIf (text.isNone && html.isNone)
  let «to» ← orInvalid (parseRecipients input.to)
  let cc ← orInvalid (parseRecipients input.cc)
  refuseIf ((input.to ++ input.cc).any mayDecodeToLineBreak)
  let (messageId, fields) ←
    headFields hex date input «to» cc
  let tree ←
    bodyTree text html ampHtml input.inline input.attachments
  pure
    («to» ++ cc, messageId,
      utf8 (fields.flatMap Field.render) ++ tree.formatted)

/- A change of `bcc` is no change of the content. -/
theorem content_bcc
    (hex : Option Str)
    (date : Str)
    (input : MessageInput)
    (bcc : List Str) :
    content hex date { input with bcc := bcc } =
      content hex date input :=
  rfl

/- A message is built if its content and its `bcc` are. -/
theorem build_eq_ok_iff
    {hex : Option Str}
    {date : Str}
    {input : MessageInput}
    {message : BuiltMessage} :
    build hex date input = .ok message ↔
      ∃ visible bcc,
        content hex date input =
            .ok (visible, message.messageId,
              message.formatted) ∧
          parseRecipients input.bcc = some bcc ∧
          message.envelope =
            distinct []
              ((visible ++ bcc).map Mailbox.addrSpec) := by
  unfold build content
  simp only [Lib.bind_eq_ok_iff, orInvalid_eq_ok_iff]
  constructor
  · rintro ⟨_, hBody, «to», hTo, cc, hCc, bcc, hBcc, _,
      hBreak, ⟨messageId, fields⟩, hHead, tree, hTree, hEnd⟩
    cases hEnd
    exact
      ⟨«to» ++ cc, bcc,
        ⟨_, hBody, «to», hTo, cc, hCc, _, hBreak,
          ⟨messageId, fields⟩, hHead, tree, hTree, rfl⟩,
        hBcc, rfl⟩
  · rintro ⟨visible, bcc,
      ⟨_, hBody, «to», hTo, cc, hCc, _, hBreak,
        ⟨messageId, fields⟩, hHead, tree, hTree, hEnd⟩,
      hBcc, hEnvelope⟩
    refine
      ⟨_, hBody, «to», hTo, cc, hCc, bcc, hBcc, _, hBreak,
        ⟨messageId, fields⟩, hHead, tree, hTree, ?_⟩
    rcases message with ⟨id, envelope, formatted⟩
    cases hEnd
    cases hEnvelope
    rfl

omit [Base64] [Lettre] in
/- The values are one valid mailbox each. -/
theorem parseRecipients_isSome
    (values : List Str) :
    (parseRecipients values).isSome =
      values.all fun value => (parseMailbox value).isSome := by
  induction values with
  | nil => rfl
  | cons value rest ih =>
      rw [List.all_cons, ← ih, parseRecipients]
      cases parseMailbox value with
      | none => rfl
      | some m => cases parseRecipients rest <;> rfl

omit [Base64] [Lettre] in
/- Two spellings of one domain give one address. -/
theorem addrSpec_of_spellings
    {token token' display display' name raw raw' : Str}
    {m m' : Mailbox}
    (hValid : Validates token display name raw m)
    (hValid' : Validates token' display' name raw' m')
    (hDomain :
      Idna.toAscii .verify raw = Idna.toAscii .verify raw') :
    m.addrSpec = m'.addrSpec := by
  have hRules := addressDomain_eq_some_iff.mp hValid.domain
  have hRules' := addressDomain_eq_some_iff.mp hValid'.domain
  rw [hRules.toAscii, hRules'.toAscii,
    Option.some.injEq] at hDomain
  unfold Mailbox.addrSpec
  rw [hValid.local, hValid'.local, hDomain]

/- The mailboxes of a message and its envelope. -/
theorem envelope_of_build
    {hex : Option Str}
    {date : Str}
    {input : MessageInput}
    {message : BuiltMessage}
    (hBuild : build hex date input = .ok message) :
    ∃ «to» cc bcc,
      parseRecipients input.to = some «to» ∧
        parseRecipients input.cc = some cc ∧
        parseRecipients input.bcc = some bcc ∧
        message.envelope =
          distinct []
            ((«to» ++ cc ++ bcc).map Mailbox.addrSpec) := by
  unfold build at hBuild
  simp only [Lib.bind_eq_ok_iff, orInvalid_eq_ok_iff]
    at hBuild
  rcases hBuild with
    ⟨_, -, «to», hTo, cc, hCc, bcc, hBcc, _, -, ⟨messageId,
      fields⟩, -, tree, -, hEnd⟩
  cases hEnd
  exact ⟨«to», cc, bcc, hTo, hCc, hBcc, rfl⟩

/- Whether a message is built. -/
theorem build_isOk
    (hex : Option Str)
    (date : Str)
    (input : MessageInput) :
    (build hex date input).isOk =
      ((content hex date input).isOk &&
        input.bcc.all fun value =>
          (parseMailbox value).isSome) := by
  rw [← parseRecipients_isSome]
  cases hBuild : build hex date input with
  | ok message =>
      rcases build_eq_ok_iff.mp hBuild with
        ⟨visible, bcc, hContent, hBcc, -⟩
      rw [hContent, hBcc]
      rfl
  | error error =>
      cases hContent : content hex date input with
      | error error => rfl
      | ok triple =>
          rcases triple with ⟨visible, messageId, formatted⟩
          cases hBcc : parseRecipients input.bcc with
          | none => rfl
          | some bcc =>
              have hBuilt :
                  build hex date input =
                    .ok
                      { messageId := messageId
                        envelope :=
                          distinct []
                            ((visible ++ bcc).map
                              Mailbox.addrSpec)
                        formatted := formatted } :=
                build_eq_ok_iff.mpr
                  ⟨visible, bcc, hContent, hBcc, rfl⟩
              rw [hBuild] at hBuilt
              cases hBuilt

/-
  The envelope lists the recipients in form order, each
  once.
-/
structure EnvelopeLaw
    (input : MessageInput)
    (message : BuiltMessage) : Prop where
  recipients :
    ∃ «to» cc bcc,
      parseRecipients input.to = some «to» ∧
        parseRecipients input.cc = some cc ∧
        parseRecipients input.bcc = some bcc ∧
        Lib.FirstOccurrences
          ((«to» ++ cc ++ bcc).map Mailbox.addrSpec)
          message.envelope
  /- However the domain is spelled. -/
  spellings : ∀ value value' m m' token token' name raw raw',
    value ∈ input.to ++ input.cc ++ input.bcc →
    value' ∈ input.to ++ input.cc ++ input.bcc →
    parseMailbox value = some m →
    parseMailbox value' = some m' →
    Validates token m.displayName name raw m →
    Validates token' m'.displayName name raw' m' →
    Idna.toAscii .verify raw = Idna.toAscii .verify raw' →
      m.addrSpec = m'.addrSpec ∧
        message.envelope.count m.addrSpec = 1

/- Nothing but the envelope depends on `bcc`. -/
structure BccSecret
    (hex : Option Str)
    (date : Str)
    (input : MessageInput) : Prop where
  same : ∀ bcc message message',
    build hex date input = .ok message →
    build hex date { input with bcc := bcc } =
        .ok message' →
      message.messageId = message'.messageId ∧
        message.formatted = message'.formatted
  success :
    (build hex date input).isOk =
      ((build hex date { input with bcc := [] }).isOk &&
        input.bcc.all fun value =>
          (parseMailbox value).isSome)

omit [Base64] [Lettre] in
/- A parsed value is among the parsed recipients. -/
theorem mem_of_parseRecipients
    {values : List Str}
    {mailboxes : List Mailbox}
    {value : Str}
    {m : Mailbox}
    (hParsed : parseRecipients values = some mailboxes)
    (hValue : value ∈ values)
    (hMailbox : parseMailbox value = some m) :
    m ∈ mailboxes := by
  induction values generalizing mailboxes with
  | nil => cases hValue
  | cons first rest ih =>
      unfold parseRecipients at hParsed
      cases hFirst : parseMailbox first with
      | none => simp [hFirst] at hParsed
      | some m' =>
          cases hRest : parseRecipients rest with
          | none => simp [hFirst, hRest] at hParsed
          | some others =>
              simp only [hFirst, hRest, Option.bind_eq_bind,
                Option.bind_some, Option.some.injEq] at hParsed
              subst hParsed
              rcases List.mem_cons.mp hValue with rfl | hLater
              · rw [hMailbox] at hFirst
                cases hFirst
                exact List.mem_cons_self
              · exact List.mem_cons_of_mem _ (ih hRest hLater)

/- The envelope of every built message is lawful. -/
theorem envelopeLaw_of_build
    {hex : Option Str}
    {date : Str}
    {input : MessageInput}
    {message : BuiltMessage}
    (hBuild : build hex date input = .ok message) :
    EnvelopeLaw input message := by
  rcases envelope_of_build hBuild with
    ⟨«to», cc, bcc, hTo, hCc, hBcc, hEnvelope⟩
  have hFirst :=
    distinct_firstOccurrences
      ((«to» ++ cc ++ bcc).map Mailbox.addrSpec)
  rw [← hEnvelope] at hFirst
  refine
    { recipients := ⟨«to», cc, bcc, hTo, hCc, hBcc, hFirst⟩
      spellings := ?_ }
  intro value value' m m' token token' name raw raw'
    hValue _ hParsed _ hValid hValid' hDomain
  refine
    ⟨addrSpec_of_spellings hValid hValid' hDomain,
      hFirst.count_eq_one (List.mem_map_of_mem ?_)⟩
  simp only [List.mem_append] at hValue ⊢
  rcases hValue with (hValue | hValue) | hValue
  · exact .inl (.inl (mem_of_parseRecipients hTo hValue hParsed))
  · exact .inl (.inr (mem_of_parseRecipients hCc hValue hParsed))
  · exact .inr (mem_of_parseRecipients hBcc hValue hParsed)

/-
  The envelope law, and the secrecy of `bcc`: the bytes and
  the success of a message do not tell its values.
-/
theorem envelope_lawful
    (hex : Option Str)
    (date : Str)
    (input : MessageInput) :
    (∀ message, build hex date input = .ok message →
        EnvelopeLaw input message) ∧
      BccSecret hex date input := by
  refine ⟨fun message => envelopeLaw_of_build, ?_, ?_⟩
  · intro bcc message message' hBuild hBuild'
    rcases build_eq_ok_iff.mp hBuild with
      ⟨visible, _, hContent, -, -⟩
    rcases build_eq_ok_iff.mp hBuild' with
      ⟨visible', _, hContent', -, -⟩
    rw [content_bcc, hContent, Except.ok.injEq,
      Prod.mk.injEq, Prod.mk.injEq] at hContent'
    exact hContent'.2
  · rw [build_isOk, build_isOk hex date { input with bcc := [] },
      content_bcc hex date input [], List.all_nil,
      Bool.and_true]

end Mime

end MailgunRelay
