import MailgunRelay.Secrets.Spec
import MailgunRelay.Smtp.Sender
import MailgunRelay.Yaml.Strings

/-
  What holds of every secrets file that loads, and what of
  the file does not matter: keys that are not known, and the
  order of the domains and addresses.

  Key definitions include:
    * `MailgunRelay.Secrets.SoundPolicy`
    * `MailgunRelay.Secrets.SoundSmtp`
    * `MailgunRelay.Secrets.SameMap`
    * `MailgunRelay.Secrets.SameDocument`

  Key theorems include:
    * `MailgunRelay.normalizeConfigDomain_again`
    * `MailgunRelay.normalizeConfigAddress_again`
    * `MailgunRelay.Secrets.Describes.same`
    * `MailgunRelay.Secrets.fromYaml_sound`
-/

------------------------------------------------------------
-- Normal Forms
------------------------------------------------------------

namespace MailgunRelay

variable [Unicode] [Idna]

/- A loaded domain is its own A-label. -/
theorem normalizeConfigDomain_again
    (hStd3 : Std3Laws)
    (hEmpty : ∀ dns, Idna.toAscii dns [] = none)
    {value ascii : Str}
    (hNormal : normalizeConfigDomain value = .ok ascii) :
    normalizeConfigDomain ascii = .ok ascii ∧
      ∀ c ∈ ascii, isHostChar c = true := by
  rw [normalizeConfigDomain_eq_ok_iff,
    normalizeDomain_eq_ok_iff] at hNormal ⊢
  rcases hNormal with ⟨-, ⟨-, hAscii⟩, hValid, hUnicode⟩
  have hChars := hStd3.chars _ _ _ hAscii
  have hAgain := hStd3.idempotent _ _ _ hAscii
  have hLower : lowercase (pyStrip ascii) = ascii := by
    rw [pyStrip_eq_self, lowercase_of_ascii]
    · unfold asciiLowercase
      conv_rhs => rw [← List.map_id ascii]
      exact
        List.map_congr_left fun c hMem =>
          (isHostChar_plain (hChars c hMem)).2.1
    · exact fun c hMem =>
        (isHostChar_plain (hChars c hMem)).1
    · exact fun c hMem =>
        isPySpace_of_configDomainChar
          (isHostChar_plain (hChars c hMem)).2.2.1
  rw [hLower]
  refine ⟨⟨?_, ⟨?_, hAgain⟩, hValid, hUnicode⟩, hChars⟩
  · rw [List.all_eq_true]
    exact fun c hMem =>
      (isHostChar_plain (hChars c hMem)).2.2.1
  · rintro rfl
    rw [hEmpty] at hAgain
    cases hAgain

omit [Unicode] [Idna] in
/- Text between two characters is stripped of nothing. -/
theorem pyStrip_of_ends
    {s : Str}
    (hHead : ∀ c, s.head? = some c → isPySpace c = false)
    (hLast : ∀ c, s.getLast? = some c → isPySpace c = false) :
    pyStrip s = s := by
  have hDrop : s.dropWhile isPySpace = s := by
    cases s with
    | nil => rfl
    | cons c rest =>
        rw [List.dropWhile_cons, hHead c rfl]
        rfl
  unfold pyStrip
  rw [hDrop, List.rdropWhile_eq_self_iff]
  intro hNonempty
  rw [hLast _ (List.getLast?_eq_some_getLast hNonempty)]
  exact Bool.false_ne_true

omit [Unicode] [Idna] in
theorem head_pyStrip
    {value : Str}
    {c : Char}
    (hHead : (pyStrip value).head? = some c) :
    isPySpace c = false := by
  rcases
    List.rdropWhile_prefix isPySpace
      (value.dropWhile isPySpace) with
    ⟨rest, hPrefix⟩
  have hDropped :
      (value.dropWhile isPySpace).head? = some c := by
    rw [← hPrefix, List.head?_append]
    unfold pyStrip at hHead
    rw [hHead]
    rfl
  have hNot := List.head?_dropWhile_not isPySpace value
  rw [hDropped] at hNot
  exact hNot

omit [Unicode] [Idna] in
/- Only white space is white space in lowercase. -/
theorem isPySpace_toLower
    {c : Char}
    (hAscii : isAsciiChar c = true) :
    isPySpace c.toLower = isPySpace c :=
  @forall_ascii
    (fun c => isPySpace c.toLower = isPySpace c)
    (by decide) _ hAscii

/- A loaded address is its own normal form. -/
theorem normalizeConfigAddress_again
    (hStd3 : Std3Laws)
    (hEmpty : ∀ dns, Idna.toAscii dns [] = none)
    {value address : Str}
    (hNormal : normalizeConfigAddress value = .ok address) :
    normalizeConfigAddress address = .ok address ∧
      ∃ name domain,
        address = name ++ '@' :: domain ∧ '@' ∉ domain ∧
          name ≠ [] ∧ (∀ c ∈ name, isAsciiChar c = true) ∧
          asciiLowercase name = name := by
  unfold normalizeConfigAddress at hNormal
  cases hSplit : Lib.Text.rsplitOnce '@' (pyStrip value) with
  | none =>
      rw [hSplit] at hNormal
      cases hNormal
  | some parts =>
      rcases parts with ⟨name, domain⟩
      rw [hSplit] at hNormal
      dsimp only at hNormal
      by_cases hName : name.isEmpty = true
      · rw [if_pos hName] at hNormal
        cases hNormal
      rw [if_neg hName] at hNormal
      by_cases hAscii : (!name.all isAsciiChar) = true
      · rw [if_pos hAscii] at hNormal
        cases hNormal
      rw [if_neg hAscii] at hNormal
      cases hDomain : normalizeConfigDomain domain with
      | error reason =>
          rw [hDomain] at hNormal
          cases hNormal
      | ok normal =>
          rw [hDomain] at hNormal
          cases hNormal
          rw [List.isEmpty_iff] at hName
          rw [Bool.not_eq_true', Bool.not_eq_false,
            List.all_eq_true] at hAscii
          rcases
            normalizeConfigDomain_again hStd3 hEmpty hDomain with
            ⟨hAgain, hHost⟩
          rcases
            (Lib.Text.rsplitOnce_eq_some_iff ..).mp hSplit with
            ⟨hValue, -⟩
          have hNoAt : '@' ∉ normal := fun hMem =>
            (isHostChar_plain (hHost _ hMem)).2.2.2.2.2 rfl
          have hLowerAscii :
              ∀ c ∈ asciiLowercase name,
                isAsciiChar c = true := by
            intro c hMem
            rcases List.mem_map.mp hMem with ⟨d, hLetter, rfl⟩
            exact
              @forall_ascii
                (fun d => isAsciiChar d.toLower = true)
                (by decide) _ (hAscii d hLetter)
          have hStrip :
              pyStrip (asciiLowercase name ++ '@' :: normal) =
                asciiLowercase name ++ '@' :: normal := by
            apply pyStrip_of_ends
            · intro c hHead
              cases name with
              | nil => exact absurd rfl hName
              | cons first rest =>
                  cases hHead
                  rw [isPySpace_toLower
                    (hAscii first List.mem_cons_self)]
                  apply @head_pyStrip value
                  rw [hValue]
                  rfl
            · intro c hLast
              rw [List.getLast?_append,
                List.getLast?_cons] at hLast
              have hMem : c ∈ '@' :: normal := by
                rw [Option.some_or] at hLast
                cases hLast
                rw [← List.getLastD_eq_getLast?]
                exact List.getLastD_mem_cons
              rcases List.mem_cons.mp hMem with rfl | hMem
              · rfl
              · exact
                  isPySpace_of_configDomainChar
                    (isHostChar_plain (hHost c hMem)).2.2.1
          have hNonempty : asciiLowercase name ≠ [] := by
            intro hNil
            exact hName (List.map_eq_nil_iff.mp hNil)
          refine ⟨?_, asciiLowercase name, normal, rfl, hNoAt,
            hNonempty, hLowerAscii, asciiLowercase_idem name⟩
          unfold normalizeConfigAddress
          rw [hStrip,
            (Lib.Text.rsplitOnce_eq_some_iff ..).mpr
              ⟨rfl, hNoAt⟩]
          dsimp only
          rw [if_neg (by simpa using hNonempty), if_neg,
            hAgain, asciiLowercase_idem]
          rw [Bool.not_eq_true', Bool.not_eq_false,
            List.all_eq_true]
          exact hLowerAscii

end MailgunRelay

------------------------------------------------------------
-- What Does Not Matter
------------------------------------------------------------

namespace MailgunRelay

namespace Secrets

open Smtp (SmtpCredentials)

/- The keys that are looked up, and when values are alike. -/
abbrev Fields := List (String × (Node → Node → Prop))

/- Whether an entry has one of the keys. -/
def isField
    (fields : Fields)
    (entry : Option Str × Node) : Bool :=
  fields.any fun field => entry.1 == some field.1.toList

/-
  Entries that correspond once all entries with other keys
  are removed.
-/
def SameEntries
    (fields : Fields)
    (entries entries' : List (Option Str × Node)) : Prop :=
  List.Forall₂
    (fun e e' => e'.1 = e.1 ∧
      ∀ field ∈ fields, e.1 = some field.1.toList →
        field.2 e.2 e'.2)
    (entries.filter (isField fields))
    (entries'.filter (isField fields))

/- One node, or mappings with corresponding entries. -/
def SameMap (fields : Fields) (node node' : Node) : Prop :=
  node' = node ∨ ∃ entries entries',
    node = .map entries ∧ node' = .map entries' ∧
      SameEntries fields entries entries'

/- One node, or lists in different orders. -/
def SameItems (node node' : Node) : Prop :=
  node' = node ∨ ∃ items items',
    node = .seq items ∧ node' = .seq items' ∧
      items.Perm items'

def SameSmtp : Node → Node → Prop :=
  SameMap [("username", Eq), ("password", Eq)]

def SameToken : Node → Node → Prop :=
  SameMap
    [("label", Eq), ("token_sha256", Eq),
      ("mailgun_domains", SameItems),
      ("allowed_from_domains", SameItems),
      ("allowed_from_addresses", SameItems)]

/- One node, or lists of corresponding tokens. -/
def SameTokens (node node' : Node) : Prop :=
  node' = node ∨ ∃ items items',
    node = .seq items ∧ node' = .seq items' ∧
      List.Forall₂ SameToken items items'

/-
  Documents that differ in the entries with other keys, at
  every level, and in the order of domains and addresses.
-/
def SameDocument : Node → Node → Prop :=
  SameMap [("smtp", SameSmtp), ("tokens", SameTokens)]

variable {fields : Fields}
variable {node node' : Node}

theorem SameMap.isMap
    (hSame : SameMap fields node node') :
    node'.isMap = node.isMap := by
  rcases hSame with rfl | ⟨entries, entries', rfl, rfl, -⟩
  · rfl
  · rfl

/- Entries with another key are not looked at. -/
theorem find?_filter_isField
    {name : String}
    {relate : Node → Node → Prop}
    (hField : (name, relate) ∈ fields)
    (entries : List (Option Str × Node)) :
    (entries.filter (isField fields)).find?
        (fun entry => entry.1 == some name.toList) =
      entries.find? fun entry =>
        entry.1 == some name.toList := by
  rw [List.find?_filter]
  congr 1
  funext entry
  by_cases hName : entry.1 = some name.toList
  · have hHere : isField fields entry = true :=
      List.any_eq_true.mpr
        ⟨(name, relate), hField, beq_iff_eq.mpr hName⟩
    simp [hHere, hName]
  · simp [hName]

/- The value of a key is alike in both. -/
theorem SameMap.get
    (hSame : SameMap fields node node')
    (name : String)
    {relate : Node → Node → Prop}
    (hField : (name, relate) ∈ fields)
    (hRefl : ∀ value, relate value value) :
    Option.Rel relate (node.get name.toList)
      (node'.get name.toList) := by
  rcases hSame with rfl | ⟨entries, entries', rfl, rfl, hSame⟩
  · cases node'.get name.toList with
    | none => exact .none
    | some value => exact .some (hRefl value)
  · have hFound :=
      Lib.Assoc.find?_rel
        (p := fun entry => entry.1 == some name.toList)
        (q := fun entry => entry.1 == some name.toList)
        (List.forall₂_reverse_iff.mpr hSame)
        (fun e e' hEntry => by rw [hEntry.1])
    rw [← List.filter_reverse, ← List.filter_reverse,
      find?_filter_isField hField,
      find?_filter_isField hField] at hFound
    rw [Node.get, Node.get]
    generalize hFirst :
      (entries.reverse.find? fun entry =>
        entry.1 == some name.toList) = found at hFound ⊢
    generalize (entries'.reverse.find? fun entry =>
        entry.1 == some name.toList) = found' at hFound ⊢
    cases hFound with
    | none => exact .none
    | @some entry entry' hEntry =>
        have hKey := List.find?_some hFirst
        rw [beq_iff_eq] at hKey
        exact .some (hEntry.2 _ hField hKey)

/- A value that must be the same is. -/
theorem SameMap.get_eq
    (hSame : SameMap fields node node')
    (name : String)
    (hField : (name, Eq) ∈ fields) :
    node'.get name.toList = node.get name.toList := by
  have hGet := hSame.get name hField fun _ => rfl
  generalize node.get name.toList = found at hGet ⊢
  generalize node'.get name.toList = found' at hGet ⊢
  cases hGet with
  | none => rfl
  | some hValue => rw [hValue]

theorem SameItems.refl
    (value : Node) :
    SameItems value value :=
  .inl rfl

theorem SameSmtp.refl
    (value : Node) :
    SameSmtp value value :=
  .inl rfl

theorem SameTokens.refl
    (value : Node) :
    SameTokens value value :=
  .inl rfl

theorem DescribesItems.perm
    {normalize : Str → Except Str Str}
    {items items' : List Node}
    {values : Finset Str}
    (h : DescribesItems normalize items values)
    (hPerm : items.Perm items') :
    DescribesItems normalize items' values := by
  constructor
  · intro item hMem
    exact h.strings item (hPerm.mem_iff.mpr hMem)
  · intro x
    simp only [h.members x, hPerm.mem_iff]

/- The order of a list does not matter. -/
theorem DescribesList.same
    {normalize : Str → Except Str Str}
    {found found' : Option Node}
    {values : Finset Str}
    (h : DescribesList normalize found values)
    (hSame : Option.Rel SameItems found found') :
    DescribesList normalize found' values := by
  rcases h with ⟨items, rfl, hItems, hValues⟩
  cases hSame with
  | some hSame =>
      rcases hSame with rfl | ⟨before, after, hBefore, rfl, hPerm⟩
      · exact ⟨items, rfl, hItems, hValues⟩
      · cases hBefore
        refine ⟨after, rfl, ?_, hValues.perm hPerm⟩
        rintro rfl
        exact hItems hPerm.eq_nil

theorem DescribesOptional.same
    {normalize : Str → Except Str Str}
    {found found' : Option Node}
    {values : Option (Finset Str)}
    (h : DescribesOptional normalize found values)
    (hSame : Option.Rel SameItems found found') :
    DescribesOptional normalize found' values := by
  cases values with
  | some values => exact DescribesList.same h hSame
  | none =>
      cases hSame with
      | none => exact .inl rfl
      | some hSame =>
          rcases hSame with
            rfl | ⟨before, after, rfl, rfl, hPerm⟩
          · exact h
          · rcases h with hNode | hNode | hNode
            · cases hNode
            · cases hNode
            · cases hNode
              rw [hPerm.symm.eq_nil]
              exact .inr (.inr rfl)

theorem DescribesSmtp.same
    {smtp : SmtpCredentials}
    (h : DescribesSmtp node smtp)
    (hSame : SameSmtp node node') :
    DescribesSmtp node' smtp :=
  { h with
    isMap := hSame.isMap.trans h.isMap
    username := by
      rw [hSame.get_eq "username" (by simp)]
      exact h.username
    password := by
      rw [hSame.get_eq "password" (by simp)]
      exact h.password }

variable [Unicode] [Idna]

theorem DescribesPolicy.same
    {policy : TokenPolicy}
    (h : DescribesPolicy node policy)
    (hSame : SameToken node node') :
    DescribesPolicy node' policy :=
  { isMap := hSame.isMap.trans h.isMap
    label := by
      rw [hSame.get_eq "label" (by simp)]
      exact h.label
    notBlank := h.notBlank
    labelReal := h.labelReal
    hash := by
      rw [hSame.get_eq "token_sha256" (by simp)]
      exact h.hash
    isHash := h.isHash
    mailgunDomains :=
      h.mailgunDomains.same
        (hSame.get "mailgun_domains" (by simp) SameItems.refl)
    allowedFromDomains :=
      h.allowedFromDomains.same
        (hSame.get "allowed_from_domains" (by simp)
          SameItems.refl)
    allowedFromAddresses :=
      h.allowedFromAddresses.same
        (hSame.get "allowed_from_addresses" (by simp)
          SameItems.refl) }

theorem DescribesPolicy.sameTokens
    {entries entries' : List Node}
    {policies : List TokenPolicy}
    (h : List.Forall₂ DescribesPolicy entries policies)
    (hSame : List.Forall₂ SameToken entries entries') :
    List.Forall₂ DescribesPolicy entries' policies := by
  induction h generalizing entries' with
  | nil =>
      cases hSame
      exact .nil
  | cons hFirst hRest ih =>
      cases hSame with
      | cons hToken hTokens =>
          exact .cons (hFirst.same hToken) (ih hTokens)

/- A document loads like every other that is the same. -/
theorem Describes.same
    {smtp : SmtpCredentials}
    {tokens : List TokenPolicy}
    (h : Describes node smtp tokens)
    (hSame : SameDocument node node') :
    Describes node' smtp tokens := by
  refine
    { isMap := hSame.isMap.trans h.isMap
      credentials := ?_
      policies := ?_
      labels := h.labels }
  · rcases h.credentials with ⟨raw, hRaw, hSmtp⟩
    have hGet :=
      hSame.get "smtp" (by simp) SameSmtp.refl
    rw [hRaw] at hGet
    generalize node'.get "smtp".toList = found at hGet ⊢
    cases hGet with
    | some hValue => exact ⟨_, rfl, hSmtp.same hValue⟩
  · rcases h.policies with
      ⟨entries, hEntries, hNonempty, hPolicies⟩
    have hGet :=
      hSame.get "tokens" (by simp) SameTokens.refl
    rw [hEntries] at hGet
    generalize node'.get "tokens".toList = found at hGet ⊢
    cases hGet with
    | some hValue =>
        rcases hValue with
          rfl | ⟨items, items', hItems, rfl, hTokens⟩
        · exact ⟨entries, rfl, hNonempty, hPolicies⟩
        · cases hItems
          refine
            ⟨items', rfl, ?_,
              DescribesPolicy.sameTokens hPolicies hTokens⟩
          rintro rfl
          cases hTokens
          exact hNonempty rfl

end Secrets

end MailgunRelay

------------------------------------------------------------
-- What Is Loaded Is Sound
------------------------------------------------------------

namespace MailgunRelay

namespace Secrets

open Smtp (SmtpCredentials)

/- Loaded names: not none, in normal form, from strings. -/
structure SoundSet
    (written : Str → Prop)
    (normalize : Str → Except Str Str)
    (values : Finset Str) : Prop where
  nonempty : values.Nonempty
  normal : ∀ x ∈ values, normalize x = .ok x
  origin : ∀ x ∈ values, ∃ value,
    written value ∧ normalize value = .ok x

structure SoundSmtp
    (written : Str → Prop)
    (smtp : SmtpCredentials) : Prop where
  username :
    written smtp.username ∧ smtp.username ≠ [] ∧
      smtp.username ∉ forbiddenValues
  password :
    written smtp.password ∧ smtp.password ≠ [] ∧
      smtp.password ∉ forbiddenValues

variable [Unicode] [Idna]

/- A policy, and the mapping it was loaded from. -/
structure SoundPolicy
    (written : Str → Prop)
    (raw : Node)
    (policy : TokenPolicy) : Prop where
  label :
    written policy.label ∧ pyStrip policy.label ≠ [] ∧
      policy.label ∉ forbiddenValues
  hashOrigin : ∃ value,
    written value ∧
      policy.tokenSha256 = lowercase (pyStrip value)
  hashLength : policy.tokenSha256.length = 64
  hashDigits : ∀ c ∈ policy.tokenSha256,
    ('0' ≤ c ∧ c ≤ '9') ∨ ('a' ≤ c ∧ c ≤ 'f')
  mailgunDomains :
    SoundSet written normalizeConfigDomain
      policy.mailgunDomains
  allowedFromDomains :
    SoundSet written normalizeConfigDomain
      policy.allowedFromDomains
  noAddresses :
    policy.allowedFromAddresses = none ↔
      Absent (raw.get "allowed_from_addresses".toList)
  addresses : ∀ values,
    policy.allowedFromAddresses = some values →
      SoundSet written normalizeConfigAddress values ∧
        ∀ x ∈ values, ∃ name domain,
          x = name ++ '@' :: domain ∧ '@' ∉ domain ∧
            name ≠ [] ∧
            (∀ c ∈ name, isAsciiChar c = true) ∧
            asciiLowercase name = name

omit [Unicode] [Idna] in
theorem isHash_digits
    {sha : Str}
    (hHash : isHash sha = true) :
    sha.length = 64 ∧
      ∀ c ∈ sha,
        ('0' ≤ c ∧ c ≤ '9') ∨ ('a' ≤ c ∧ c ≤ 'f') := by
  simp only [isHash, Bool.and_eq_true, beq_iff_eq,
    List.all_eq_true, Bool.or_eq_true,
    decide_eq_true_eq] at hHash
  refine ⟨?_, hHash.2⟩
  rw [← hHash.1]
  symm
  apply byteLen_of_ascii
  intro c hMem
  have hDigit := hHash.2 c hMem
  simp only [Char.le_def, UInt32.le_iff_toNat_le] at hDigit
  have hVal : c.toNat = c.val.toNat := rfl
  simp only [isAsciiChar, decide_eq_true_eq]
  rcases hDigit with hDigit | hDigit
  · simp at hDigit
    omega
  · simp at hDigit
    omega

omit [Unicode] [Idna] in
/- Described lists are sound. -/
theorem DescribesList.sound
    {written : Str → Prop}
    {normalize : Str → Except Str Str}
    {found : Option Node}
    {values : Finset Str}
    (h : DescribesList normalize found values)
    (hWritten :
      ∀ node, found = some node → node.All written)
    (hAgain :
      ∀ value x, normalize value = .ok x →
        normalize x = .ok x) :
    SoundSet written normalize values := by
  rcases h with ⟨items, rfl, hItems, hValues⟩
  have hAll := allItems_iff.mp (hWritten _ rfl)
  refine ⟨?_, ?_, ?_⟩
  · cases items with
    | nil => exact absurd rfl hItems
    | cons item items =>
        rcases hValues.strings item List.mem_cons_self with
          ⟨value, normal, rfl, -, hNormal⟩
        exact
          ⟨normal,
            (hValues.members normal).mpr
              ⟨value, List.mem_cons_self, hNormal⟩⟩
  · intro x hMem
    rcases (hValues.members x).mp hMem with ⟨value, -, hNormal⟩
    exact hAgain value x hNormal
  · intro x hMem
    rcases (hValues.members x).mp hMem with
      ⟨value, hItem, hNormal⟩
    exact ⟨value, hAll _ hItem, hNormal⟩

theorem DescribesPolicy.sound
    (hStd3 : Std3Laws)
    (hEmpty : ∀ dns, Idna.toAscii dns [] = none)
    {written : Str → Prop}
    {raw : Node}
    {policy : TokenPolicy}
    (h : DescribesPolicy raw policy)
    (hWritten : raw.All written) :
    SoundPolicy written raw policy := by
  have hFound :
      ∀ (key : Str) (node : Node),
        raw.get key = some node → node.All written :=
    fun key node hGet => hWritten.get hGet
  rcases isHash_digits h.isHash with ⟨hLength, hDigits⟩
  have hDomain :
      ∀ value x, normalizeConfigDomain value = .ok x →
        normalizeConfigDomain x = .ok x :=
    fun value x hNormal =>
      (normalizeConfigDomain_again hStd3 hEmpty hNormal).1
  refine
    { label := ⟨hFound _ _ h.label, h.notBlank, h.labelReal⟩
      hashOrigin := ?_
      hashLength := hLength
      hashDigits := hDigits
      mailgunDomains :=
        h.mailgunDomains.sound (hFound _) hDomain
      allowedFromDomains :=
        h.allowedFromDomains.sound (hFound _) hDomain
      noAddresses := ?_
      addresses := ?_ }
  · rcases h.hash with ⟨value, hGet, -, hSha⟩
    exact ⟨value, hFound _ _ hGet, hSha⟩
  · have hAddresses := h.allowedFromAddresses
    cases hCase : policy.allowedFromAddresses with
    | none =>
        rw [hCase] at hAddresses
        exact ⟨fun _ => hAddresses, fun _ => rfl⟩
    | some values =>
        rw [hCase] at hAddresses
        refine ⟨nofun, ?_⟩
        rcases hAddresses with ⟨items, hGet, hItems, -⟩
        rw [hGet]
        rintro (hNode | hNode | hNode)
        · cases hNode
        · cases hNode
        · cases hNode
          exact absurd rfl hItems
  · intro values hValues
    have hAddresses := h.allowedFromAddresses
    rw [hValues] at hAddresses
    have hSound :=
      DescribesList.sound hAddresses (hFound _)
        fun value x hNormal =>
          (normalizeConfigAddress_again hStd3 hEmpty
            hNormal).1
    refine ⟨hSound, ?_⟩
    intro x hMem
    exact
      (normalizeConfigAddress_again hStd3 hEmpty
        (hSound.normal x hMem)).2

omit [Unicode] [Idna] in
theorem DescribesSmtp.sound
    {written : Str → Prop}
    {raw : Node}
    {smtp : SmtpCredentials}
    (h : DescribesSmtp raw smtp)
    (hWritten : raw.All written) :
    SoundSmtp written smtp := by
  have hNonempty :
      ∀ value, value ∉ forbiddenValues → value ≠ [] := by
    rintro value hReal rfl
    exact hReal (by decide)
  exact
    { username :=
        ⟨hWritten.get h.username, hNonempty _ h.usernameReal,
          h.usernameReal⟩
      password :=
        ⟨hWritten.get h.password, hNonempty _ h.passwordReal,
          h.passwordReal⟩ }

variable [Yaml.YamlRust]

/-
  Every file that loads has tokens with distinct labels, and
  credentials and policies that are sound.  Its strings are
  written as strings, and it loads the same with other keys
  and with its domains and addresses in another order.
-/
theorem fromYaml_sound
    (hStd3 : Std3Laws)
    (hEmpty : ∀ dns, Idna.toAscii dns [] = none)
    {text : Str}
    {smtp : SmtpCredentials}
    {tokens : List TokenPolicy}
    (hLoad : fromYaml text = .ok (smtp, tokens)) :
    let written :=
      Yaml.Written (Yaml.YamlRust.reports (Yaml.scanned text))
    ∃ data entries,
      Yaml.parse text = .ok data ∧
        data.get "tokens".toList = some (.seq entries) ∧
        tokens ≠ [] ∧
        (tokens.map TokenPolicy.label).Nodup ∧
        List.Forall₂ (SoundPolicy written) entries tokens ∧
        SoundSmtp written smtp ∧
        ∀ data', SameDocument data data' →
          fromNode data' = .ok (smtp, tokens) := by
  intro written
  unfold fromYaml at hLoad
  cases hParse : Yaml.parse text with
  | error reason =>
      rw [hParse] at hLoad
      cases hLoad
  | ok data =>
      rw [hParse] at hLoad
      have hDescribes := fromNode_eq_ok_iff.mp hLoad
      have hWritten : data.All written := Yaml.parse_all hParse
      rcases hDescribes.credentials with ⟨raw, hRaw, hSmtp⟩
      rcases hDescribes.policies with
        ⟨entries, hEntries, hNonempty, hPolicies⟩
      have hItems : ∀ entry ∈ entries, entry.All written :=
        allItems_iff.mp (hWritten.get hEntries)
      refine
        ⟨data, entries, rfl, hEntries, ?_, hDescribes.labels,
          ?_, hSmtp.sound (hWritten.get hRaw), ?_⟩
      · rintro rfl
        cases hPolicies
        exact hNonempty rfl
      · refine
          ((List.forall₂_and_left ..).mpr
            ⟨hItems, hPolicies⟩).imp ?_
        rintro entry policy ⟨hEntry, hPolicy⟩
        exact hPolicy.sound hStd3 hEmpty hEntry
      · intro data' hSame
        exact
          fromNode_eq_ok_iff.mpr (hDescribes.same hSame)

end Secrets

end MailgunRelay

------------------------------------------------------------
-- A Small File
------------------------------------------------------------

namespace MailgunRelay

namespace Secrets

def smallFile : Str :=
  ("\x7b\"smtp\": \x7b\"username\": \"u\", " ++
    "\"password\": \"p\"\x7d, " ++
    "\"tokens\": [\x7b\"label\": \"a\", " ++
    "\"token_sha256\": \"" ++
    "00000000000000000000000000000000" ++
    "00000000000000000000000000000000" ++
    "\", \"mailgun_domains\": [\"a.de\"], " ++
    "\"allowed_from_domains\": [\"a.de\"]\x7d]\x7d").toList

def quoted (value : String) : Yaml.Event :=
  .scalar value.toList .doubleQuoted 0 none

/- What the parser reports of it, with the columns. -/
def smallReports : List Yaml.Report :=
  List.map (fun p => .ok (p.1, { line := 1, col := p.2 }))
      [(.streamStart, 0), (.documentStart, 0),
        (.mappingStart 0 none, 0), (quoted "smtp", 1),
        (.mappingStart 0 none, 9), (quoted "username", 10),
        (quoted "u", 22), (quoted "password", 27),
        (quoted "p", 39), (.mappingEnd, 42),
        (quoted "tokens", 45), (.sequenceStart 0 none, 55),
        (.mappingStart 0 none, 56), (quoted "label", 57),
        (quoted "a", 66), (quoted "token_sha256", 71),
        (quoted (String.ofList (List.replicate 64 '0')), 87),
        (quoted "mailgun_domains", 155),
        (.sequenceStart 0 none, 174), (quoted "a.de", 175),
        (.sequenceEnd, 181),
        (quoted "allowed_from_domains", 184),
        (.sequenceStart 0 none, 208), (quoted "a.de", 209),
        (.sequenceEnd, 215), (.mappingEnd, 216),
        (.sequenceEnd, 217), (.mappingEnd, 218),
        (.documentEnd, 219), (.streamEnd, 219)]

@[reducible] def smallYaml : Yaml.YamlRust :=
  { tokens := fun _ => List.replicate 49 .other
    reports := fun _ => smallReports }

theorem fromYaml_sound_small :
    let _ : Unicode := .ascii
    let _ : Idna := .aDe
    let _ : Yaml.YamlRust := smallYaml
    ∃ smtp tokens,
      fromYaml smallFile = .ok (smtp, tokens) ∧
        tokens ≠ [] ∧
        (tokens.map TokenPolicy.label).Nodup := by
  intro unicode idna yaml
  have hOk : (fromYaml smallFile).isOk = true := by
    decide +kernel
  rcases Lib.exists_of_isOk hOk with ⟨⟨smtp, tokens⟩, hLoad⟩
  rcases
    fromYaml_sound Smtp.aDe_std3Laws (fun _ => rfl) hLoad with
    ⟨data, entries, -, -, hTokens, hLabels, -⟩
  exact ⟨smtp, tokens, hLoad, hTokens, hLabels⟩

end Secrets

end MailgunRelay
