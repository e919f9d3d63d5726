import MailgunRelay.Allowlist
import MailgunRelay.Secrets.Spec
import MailgunRelay.Python.Secrets

/-
  The two loaders of the secrets file beside each other: the
  relay is Python's loader, made narrower by the kinds it
  wants quoted and by its supported domains.

  Key definitions include:
    * `MailgunRelay.Python.LoaderLaws`
    * `MailgunRelay.Python.StrictToken`
    * `MailgunRelay.Python.Strict`

  Key theorems include:
    * `MailgunRelay.Python.matchesHash_lowercase`
    * `MailgunRelay.Python.normalizeAddress_of_config`
    * `MailgunRelay.Python.loadPolicy_narrows`
    * `MailgunRelay.Python.fromNode_iff_loadSecrets`
-/

------------------------------------------------------------
-- Laws
------------------------------------------------------------

namespace MailgunRelay

namespace Python

/-
  What is assumed of the tables: no letter has a line end in
  its lowercase, and IDNA2008 encodes the supported names
  wherever UTS46 does, in the same way (`domain.rs`).
-/
structure LoaderLaws
    [Unicode]
    [Idna]
    [IdnaPackage] : Prop where
  lineEnd : ∀ c, isPySpace c = false →
    '\n' ∉ Unicode.toLower c
  encode : ∀ domain ascii,
    domain.all isConfigDomainChar = true →
    Idna.toAscii .verifyAllowRootDot domain = some ascii →
    (Idna.domainToUnicode ascii).2 = true →
    (Idna.domainToUnicode ascii).1.all isConfigDomainChar =
      true →
    ∃ encoded, IdnaPackage.encode domain = some encoded ∧
      lowercase encoded = ascii

end Python

end MailgunRelay

------------------------------------------------------------
-- Nodes
------------------------------------------------------------

namespace MailgunRelay

namespace Python

open Secrets (Node asStr)

theorem itemNodes_eq_map
    (items : List Document) :
    itemNodes items = items.map Document.node := by
  induction items with
  | nil => rfl
  | cons item rest ih => rw [itemNodes, ih, List.map_cons]

theorem entryNodes_eq_map
    (entries : List (Option Str × Document)) :
    entryNodes entries =
      entries.map fun entry => (entry.1, entry.2.node) := by
  induction entries with
  | nil => rfl
  | cons entry rest ih =>
      rw [entryNodes, ih, List.map_cons]

/- The node of a value is the value of the node. -/
theorem get_node
    (raw : Document)
    (key : Str) :
    raw.node.get key = (raw.get key).map Document.node := by
  cases raw with
  | str | none | bool | int | other | list => rfl
  | dict entries =>
      rw [Document.node, Node.get, Document.get,
        entryNodes_eq_map, ← List.map_reverse,
        List.find?_map, Option.map_map, Option.map_map]
      rfl

theorem isMap_node
    (raw : Document) :
    raw.node.isMap = raw.isDict := by
  cases raw <;> rfl

/- A string is the node of a string only. -/
theorem asStr_node
    (raw : Option Document) :
    asStr (raw.map Document.node) =
      match raw with
      | some (.str value) => some value
      | _ => none := by
  cases raw with
  | none => rfl
  | some raw => cases raw <;> rfl

end Python

end MailgunRelay

------------------------------------------------------------
-- Checks
------------------------------------------------------------

namespace MailgunRelay

namespace Python

open Secrets (Node nonBlank rejectPlaceholder requireMap)

theorem rejectPlaceholder_narrows
    (field fieldName value : Str) :
    Lib.Narrows True (rejectPlaceholder field value)
      (rejectChangeme fieldName value) := by
  unfold rejectPlaceholder rejectChangeme
  by_cases hForbidden :
      Secrets.forbiddenValues.contains value = true
  · rw [if_pos hForbidden, if_pos hForbidden]
    exact Lib.Narrows.error _ _
  · rw [if_neg hForbidden, if_neg hForbidden]
    exact Lib.Narrows.ok trivial ()

theorem nonBlank_narrows
    (raw : Option Document)
    (message text : Str) :
    Lib.Narrows True
      (nonBlank (raw.map Document.node) message)
      (nonEmptyString raw text) := by
  unfold nonBlank nonEmptyString
  rw [asStr_node]
  cases raw with
  | none => exact Lib.Narrows.error _ _
  | some raw =>
      cases raw with
      | none | bool | int | other | list | dict =>
          exact Lib.Narrows.error _ _
      | str value =>
          dsimp only
          by_cases hBlank : (pyStrip value).isEmpty = true
          · rw [if_pos hBlank, if_pos hBlank]
            exact Lib.Narrows.error _ _
          · rw [if_neg hBlank, if_neg hBlank]
            exact Lib.Narrows.ok trivial value

theorem requireMap_narrows
    (raw : Document)
    (message text : Str) :
    Lib.Narrows True (requireMap raw.node message)
      (requireDict raw text) := by
  unfold requireMap requireDict
  rw [isMap_node]
  by_cases hDict : raw.isDict = true
  · rw [if_pos hDict, if_pos hDict]
    exact Lib.Narrows.ok trivial ()
  · rw [if_neg hDict, if_neg hDict]
    exact Lib.Narrows.error _ _

/- The credentials are loaded alike. -/
theorem loadSmtp_narrows
    (raw : Option Document) :
    Lib.Narrows True
      (Secrets.loadSmtp (raw.map Document.node))
      (loadSmtp raw) := by
  cases raw with
  | none => exact Lib.Narrows.error _ _
  | some raw =>
      cases raw with
      | str | none | bool | int | other | list =>
          exact Lib.Narrows.error _ _
      | dict entries =>
          have hGet := get_node (.dict entries)
          unfold Secrets.loadSmtp loadSmtp
          simp only [Option.map_some, Document.node]
            at hGet ⊢
          apply Lib.Narrows.bind_same
          · rw [hGet]
            exact nonBlank_narrows _ _ _
          · intro username _
            rw [hGet, asStr_node]
            cases (Document.dict entries).get
                "password".toList with
            | none => exact Lib.Narrows.error _ _
            | some raw =>
                cases raw with
                | none | bool | int | other | list | dict =>
                    exact Lib.Narrows.error _ _
                | str password =>
                    apply Lib.Narrows.bind_same
                      (Lib.Narrows.ok trivial password)
                    intro password _
                    apply Lib.Narrows.bind_same
                      (rejectPlaceholder_narrows _ _ _)
                    intro _ _
                    apply Lib.Narrows.bind_same
                      (rejectPlaceholder_narrows _ _ _)
                    intro _ _
                    exact Lib.Narrows.ok trivial _

end Python

end MailgunRelay

------------------------------------------------------------
-- Hashes
------------------------------------------------------------

namespace MailgunRelay

namespace Python

open Secrets (Node isHash loadHash dotted rejectPlaceholder)

variable [Unicode] [Idna] [IdnaPackage]

omit [Idna] [IdnaPackage] in
/- The last characters in lowercase are of the last one. -/
theorem lowerFrom_last
    (front : Str)
    (c : Char)
    (before : Str) :
    ∃ lowered middle,
      lowerFrom before (front ++ [c]) =
        lowered ++ lowerBetween middle c [] := by
  induction front generalizing before with
  | nil =>
      refine ⟨[], before, ?_⟩
      rw [List.nil_append, lowerFrom, lowerFrom,
        List.append_nil, List.nil_append]
  | cons x front ih =>
      rcases ih (before ++ [x]) with
        ⟨lowered, middle, hLowered⟩
      refine
        ⟨lowerBetween before x (front ++ [c]) ++ lowered,
          middle, ?_⟩
      rw [List.cons_append, lowerFrom, hLowered,
        List.append_assoc]

/- No line end comes from another character. -/
theorem lineEnd_notMem_lowerBetween
    (hLaws : LoaderLaws)
    {c : Char}
    (hSpace : isPySpace c = false)
    (before after : Str) :
    '\n' ∉ lowerBetween before c after := by
  intro hMem
  unfold lowerBetween at hMem
  by_cases hAscii : isAsciiChar c = true
  · rw [if_pos hAscii, List.mem_singleton] at hMem
    have hLower :
        isPySpace c.toLower = isPySpace c :=
      @forall_ascii
        (fun c => isPySpace c.toLower = isPySpace c)
        (by decide +kernel) _ hAscii
    rw [← hMem, hSpace] at hLower
    cases hLower
  · rw [if_neg hAscii] at hMem
    by_cases hSigma : c = 'Σ'
    · rw [if_pos hSigma] at hMem
      split at hMem
      · cases List.mem_singleton.mp hMem
      · cases List.mem_singleton.mp hMem
    · rw [if_neg hSigma] at hMem
      exact hLaws.lineEnd c hSpace hMem

/- A stripped text has no line end last, in lowercase too. -/
theorem getLast?_lowercase
    (hCase : CaseLaws)
    (hLaws : LoaderLaws)
    (value : Str) :
    (lowercase (pyStrip value)).getLast? ≠ some '\n' := by
  intro hLast
  have hStrip :
      ∀ hNonempty : pyStrip value ≠ [],
        isPySpace ((pyStrip value).getLast hNonempty) =
          false := by
    intro hNonempty
    exact Bool.eq_false_iff.mpr
      (List.rdropWhile_last_not isPySpace _ hNonempty)
  generalize pyStrip value = stripped at hLast hStrip
  by_cases hNonempty : stripped = []
  · rw [hNonempty] at hLast
    cases hLast
  · have hSpace := hStrip hNonempty
    have hSplit :=
      List.dropLast_append_getLast hNonempty
    generalize stripped.getLast hNonempty = c
      at hSpace hSplit
    rcases lowerFrom_last stripped.dropLast c [] with
      ⟨lowered, middle, hLowered⟩
    rw [hSplit] at hLowered
    have hSome := lowerBetween_ne_nil hCase middle c []
    unfold lowercase at hLast
    rw [hLowered, List.getLast?_append_of_ne_nil _ hSome]
      at hLast
    exact
      lineEnd_notMem_lowerBetween hLaws hSpace middle []
        (List.mem_of_getLast? hLast)

omit [Unicode] [Idna] [IdnaPackage] in
/- Texts of hexadecimal digits are as long as their bytes. -/
theorem byteLen_of_digits
    {sha : Str}
    (hDigits : sha.all isHexDigit = true) :
    byteLen sha = sha.length := by
  apply byteLen_of_ascii
  intro c hMem
  have hDigit := List.all_eq_true.mp hDigits c hMem
  simp only [isHexDigit, Bool.or_eq_true, Bool.and_eq_true,
    decide_eq_true_eq, Char.le_def,
    UInt32.le_iff_toNat_le] at hDigit
  have hVal : c.toNat = c.val.toNat := rfl
  simp only [isAsciiChar, decide_eq_true_eq]
  rcases hDigit with hDigit | hDigit
  · simp at hDigit
    omega
  · simp at hDigit
    omega

/- Both ask the same of a stripped hash in lowercase. -/
theorem matchesHash_lowercase
    (hCase : CaseLaws)
    (hLaws : LoaderLaws)
    (value : Str) :
    matchesHash (lowercase (pyStrip value)) =
      isHash (lowercase (pyStrip value)) := by
  have hLast := getLast?_lowercase hCase hLaws value
  unfold matchesHash isHash
  dsimp only
  rw [if_neg hLast]
  generalize lowercase (pyStrip value) = sha
  change (sha.length == 64 && sha.all isHexDigit) =
    (byteLen sha == 64 && sha.all isHexDigit)
  cases hDigits : sha.all isHexDigit with
  | false => rw [Bool.and_false, Bool.and_false]
  | true => rw [byteLen_of_digits hDigits]

/- The relay loads a hash that is a string, as Python does. -/
theorem loadHash_narrows
    (hCase : CaseLaws)
    (hLaws : LoaderLaws)
    (raw : Document)
    (field label : Str) :
    Lib.Narrows
      (∃ value,
        raw.get "token_sha256".toList = some (.str value))
      (loadHash raw.node field)
      (loadSha256 label (raw.get "token_sha256".toList)) := by
  unfold loadHash
  rw [get_node]
  cases hRaw : raw.get "token_sha256".toList with
  | none => exact Lib.Narrows.error _ _
  | some found =>
      cases found with
      | str value =>
          refine Lib.Narrows.congr ?_
            (iff_of_true trivial ⟨value, rfl⟩)
          unfold loadSha256 hashText
          apply Lib.Narrows.bind_same
            (Lib.Narrows.ok trivial value)
          intro value _
          apply Lib.Narrows.bind_same
            (rejectPlaceholder_narrows _ _ _)
          intro _ _
          unfold validateSha256Hex
          dsimp only
          rw [matchesHash_lowercase hCase hLaws]
          cases isHash (lowercase (pyStrip value)) with
          | false => exact Lib.Narrows.error _ _
          | true => exact Lib.Narrows.ok trivial _
      | none | bool | int | other | list | dict =>
          apply Lib.Narrows.refused
          rintro ⟨value, hValue⟩
          cases hValue

end Python

end MailgunRelay

------------------------------------------------------------
-- Domains And Addresses
------------------------------------------------------------

namespace MailgunRelay

namespace Python

variable [Unicode] [Idna] [IdnaPackage] [Repr]

/- A supported domain is one for Python, as the same name. -/
theorem normalizeDomain_of_config
    (hLaws : LoaderLaws)
    (value ascii : Str)
    (hOk : normalizeConfigDomain value = .ok ascii) :
    normalizeDomain value = .ok ascii := by
  rcases normalizeConfigDomain_eq_ok_iff.mp hOk with
    ⟨hChars, hNormal, hValid, hShown⟩
  rcases normalizeDomain_eq_ok_iff.mp hNormal with
    ⟨hSome, hAscii⟩
  rcases hLaws.encode _ _ hChars hAscii hValid hShown with
    ⟨encoded, hEncoded, rfl⟩
  unfold normalizeDomain
  dsimp only
  rw [if_neg (mt List.isEmpty_iff.mp hSome), hEncoded]

/- An address the relay can match is one for Python. -/
theorem normalizeAddress_of_config
    (hLaws : LoaderLaws)
    (value address : Str)
    (hOk : normalizeConfigAddress value = .ok address) :
    normalizeAddress value = .ok address := by
  unfold normalizeConfigAddress at hOk
  unfold normalizeAddress
  cases hSplit : Lib.Text.rsplitOnce '@' (pyStrip value) with
  | none =>
      rw [hSplit] at hOk
      cases hOk
  | some parts =>
      rcases parts with ⟨name, domain⟩
      rw [hSplit] at hOk
      dsimp only at hOk ⊢
      by_cases hEmpty : name.isEmpty = true
      · rw [if_pos hEmpty] at hOk
        cases hOk
      rw [if_neg hEmpty] at hOk ⊢
      cases hAscii : name.all isAsciiChar with
      | false =>
          rw [hAscii] at hOk
          cases hOk
      | true =>
          rw [hAscii] at hOk
          cases hNormal : normalizeConfigDomain domain with
          | error reason =>
              rw [hNormal] at hOk
              cases hOk
          | ok normal =>
              rw [hNormal] at hOk
              cases hOk
              rw [normalizeDomain_of_config hLaws _ _ hNormal,
                lowercase_of_ascii
                  (List.all_eq_true.mp hAscii)]
              rfl

end Python

end MailgunRelay

------------------------------------------------------------
-- Lists
------------------------------------------------------------

namespace MailgunRelay

namespace Python

open Secrets (Node stringValues stringList requiredList
  loadAddresses indexed dotted)

/- The strings a normaliser of the relay accepts. -/
def Accepted
    (normalize : Str → Except Str Str)
    (values : List Str) : Prop :=
  ∀ value ∈ values, ∃ normal, normalize value = .ok normal

/- The strings among some items. -/
def strings (items : List Document) : List Str :=
  items.filterMap fun item =>
    Secrets.asStr (some item.node)

variable {accept : Str → Except Str Str}
variable {normalize : Str → Except Exc Str}

/- Items are normalised alike where the relay accepts them. -/
theorem stringValues_narrows
    (hAgree : ∀ value normal,
      accept value = .ok normal →
        normalize value = .ok normal)
    (items : List Document)
    (field fieldName : Str)
    (index : Nat)
    (values : Finset Str) :
    Lib.Narrows (Accepted accept (strings items))
      (stringValues accept field index values
        (itemNodes items))
      (addItems normalize fieldName values items) := by
  induction items generalizing index values with
  | nil =>
      refine Lib.Narrows.ok ?_ values
      intro value hMem
      cases hMem
  | cons item rest ih =>
      cases item with
      | none | bool | int | other | list | dict =>
          exact Lib.Narrows.error _ _
      | str value =>
          rw [itemNodes, Document.node, stringValues, addItems]
          unfold nonEmptyString
          dsimp only
          by_cases hBlank : (pyStrip value).isEmpty = true
          · rw [if_pos hBlank, if_pos hBlank]
            exact Lib.Narrows.error _ _
          rw [if_neg hBlank, if_neg hBlank, Lib.ok_bind]
          have hStrings :
              strings (.str value :: rest) =
                value :: strings rest :=
            rfl
          cases hAccept : accept value with
          | error reason =>
              apply Lib.Narrows.refused
              intro hAll
              rw [hStrings] at hAll
              rcases hAll value List.mem_cons_self with
                ⟨normal, hNormal⟩
              rw [hAccept] at hNormal
              cases hNormal
          | ok normal =>
              rw [hAgree value normal hAccept, Lib.ok_bind]
              dsimp only
              apply (ih (index + 1) _).congr
              unfold Accepted
              rw [hStrings, List.forall_mem_cons]
              constructor
              · intro hRest
                exact ⟨⟨normal, hAccept⟩, hRest⟩
              · intro hAll
                exact hAll.2

variable [Unicode] [Idna] [IdnaPackage] [Repr]
variable (raw : Document) (key : String)

omit [Unicode] [Idna] [IdnaPackage] [Repr] in
/- The strings of a list, as the node has them. -/
theorem entries_node
    {items : List Document}
    (hGet : raw.get key.toList = some (.list items)) :
    raw.node.entries key = strings items := by
  unfold Node.entries strings
  rw [get_node, hGet, Option.map_some, Document.node,
    itemNodes_eq_map]
  dsimp only
  rw [List.filterMap_map]
  rfl

/- A list that must be there, with its strings accepted. -/
theorem requiredList_narrows
    (hLaws : LoaderLaws)
    (field fieldName : Str) :
    Lib.Narrows
      (Accepted normalizeConfigDomain (raw.node.entries key))
      (requiredList raw.node field key normalizeConfigDomain)
      (coerceDomainSet fieldName (raw.get key.toList)) := by
  unfold requiredList stringList coerceDomainSet
  rw [get_node]
  cases hGet : raw.get key.toList with
  | none => exact Lib.Narrows.error _ _
  | some found =>
      cases found with
      | str | none | bool | int | other | dict =>
          exact Lib.Narrows.error _ _
      | list items =>
          cases items with
          | nil => exact Lib.Narrows.error _ _
          | cons item rest =>
              rw [entries_node raw key hGet]
              have hItems :=
                stringValues_narrows
                  (normalizeDomain_of_config hLaws)
                  (item :: rest) (dotted field key) fieldName
                  0 ∅
              rw [itemNodes] at hItems
              rw [Option.map_some, Document.node, itemNodes]
              dsimp only
              cases hValues :
                  stringValues normalizeConfigDomain
                    (dotted field key) 0 ∅
                    (item.node :: itemNodes rest) with
              | error reason =>
                  rw [hValues] at hItems
                  exact hItems
              | ok values =>
                  rw [hValues] at hItems
                  exact hItems

/- The addresses of a token may be absent on both sides. -/
theorem loadAddresses_narrows
    (hLaws : LoaderLaws)
    (field : Str) :
    Lib.Narrows
      (Accepted normalizeConfigAddress
        (raw.node.entries "allowed_from_addresses"))
      (loadAddresses raw.node field)
      (coerceOptionalAddressSet
        (raw.get "allowed_from_addresses".toList)) := by
  unfold loadAddresses stringList coerceOptionalAddressSet
  rw [get_node]
  cases hGet : raw.get "allowed_from_addresses".toList with
  | none =>
      apply Lib.Narrows.ok
      unfold Node.entries
      rw [get_node, hGet]
      intro value hMem
      cases hMem
  | some found =>
      cases found with
      | str | bool | int | other | dict =>
          exact Lib.Narrows.error _ _
      | none =>
          apply Lib.Narrows.ok
          unfold Node.entries
          rw [get_node, hGet]
          intro value hMem
          cases hMem
      | list items =>
          rw [entries_node raw _ hGet]
          cases items with
          | nil =>
              apply Lib.Narrows.ok
              intro value hMem
              cases hMem
          | cons item rest =>
              exact
                (stringValues_narrows
                  (normalizeAddress_of_config hLaws)
                  (item :: rest)
                  (dotted field "allowed_from_addresses")
                  "allowed_from_addresses".toList 0 ∅).map some

end Python

end MailgunRelay

------------------------------------------------------------
-- Loaders
------------------------------------------------------------

namespace MailgunRelay

namespace Python

open Secrets (loadPolicy loadTokens fromNode indexed)

variable [Unicode] [Idna] [IdnaPackage] [Repr]

/-
  What the relay asks of a token beyond Python: a hash that
  is a string, and domains and addresses it supports.
-/
structure StrictToken (raw : Document) : Prop where
  hash : ∃ value,
    raw.get "token_sha256".toList = some (.str value)
  mailgunDomains :
    Accepted normalizeConfigDomain
      (raw.node.entries "mailgun_domains")
  allowedFromDomains :
    Accepted normalizeConfigDomain
      (raw.node.entries "allowed_from_domains")
  allowedFromAddresses :
    Accepted normalizeConfigAddress
      (raw.node.entries "allowed_from_addresses")

/- The entries of the token list. -/
def Document.tokens (data : Document) : List Document :=
  match data.get "tokens".toList with
  | some (.list entries) => entries
  | _ => []

def Strict (data : Document) : Prop :=
  ∀ raw ∈ data.tokens, StrictToken raw

/- A token of the relay is one of Python's. -/
theorem loadPolicy_narrows
    (hCase : CaseLaws)
    (hLaws : LoaderLaws)
    (raw : Document)
    (field : Str) :
    Lib.Narrows (StrictToken raw)
      (loadPolicy raw.node field)
      (loadPolicyEntry raw) := by
  unfold loadPolicy loadPolicyEntry
  apply Lib.Narrows.bind_same (requireMap_narrows raw _ _)
  intro _ _
  rw [get_node]
  apply Lib.Narrows.bind_same (nonBlank_narrows _ _ _)
  intro label _
  apply Lib.Narrows.bind_same
    (rejectPlaceholder_narrows _ _ _)
  intro _ _
  have hParts :
      (∃ value,
          raw.get "token_sha256".toList = some (.str value)) ∧
        Accepted normalizeConfigDomain
          (raw.node.entries "mailgun_domains") ∧
        Accepted normalizeConfigDomain
          (raw.node.entries "allowed_from_domains") ∧
        Accepted normalizeConfigAddress
          (raw.node.entries "allowed_from_addresses") ↔
      StrictToken raw := by
    constructor
    · rintro ⟨hHash, hMailgun, hFrom, hAddresses⟩
      exact
        { hash := hHash
          mailgunDomains := hMailgun
          allowedFromDomains := hFrom
          allowedFromAddresses := hAddresses }
    · intro hStrict
      exact
        ⟨hStrict.hash, hStrict.mailgunDomains,
          hStrict.allowedFromDomains,
          hStrict.allowedFromAddresses⟩
  refine Lib.Narrows.congr ?_ hParts
  apply Lib.Narrows.bind
    (loadHash_narrows hCase hLaws raw field label)
  intro sha _
  apply Lib.Narrows.bind
    (requiredList_narrows raw "mailgun_domains" hLaws _ _)
  intro mailgunDomains _
  apply Lib.Narrows.bind
    (requiredList_narrows raw "allowed_from_domains" hLaws
      _ _)
  intro allowedFromDomains _
  apply Lib.Narrows.congr _ (Iff.of_eq (and_true _))
  apply Lib.Narrows.bind
    (loadAddresses_narrows raw hLaws field)
  intro allowedFromAddresses _
  exact Lib.Narrows.ok trivial _

/- The tokens are loaded in their order, labels once. -/
theorem loadTokens_narrows
    (hCase : CaseLaws)
    (hLaws : LoaderLaws)
    (entries : List Document)
    (index : Nat)
    (tokens : List TokenPolicy)
    (seenLabels : Finset Str)
    (hSeen : ∀ label, label ∈ seenLabels ↔
      ∃ token ∈ tokens, token.label = label) :
    Lib.Narrows (∀ raw ∈ entries, StrictToken raw)
      (loadTokens index tokens (itemNodes entries))
      (loadEntries seenLabels tokens entries) := by
  induction entries generalizing index tokens seenLabels with
  | nil =>
      refine Lib.Narrows.ok ?_ tokens
      intro raw hMem
      cases hMem
  | cons entry rest ih =>
      have hStep :
          loadTokens index tokens
              (itemNodes (entry :: rest)) =
            loadPolicy entry.node
                (indexed "tokens".toList index) >>=
              fun policy =>
                if tokens.any fun t =>
                    t.label == policy.label then
                  .error
                    (indexed "tokens".toList index ++
                      ": duplicate token label".toList)
                else
                  loadTokens (index + 1) (tokens ++ [policy])
                    (itemNodes rest) := by
        rw [itemNodes, loadTokens]
        cases loadPolicy entry.node
            (indexed "tokens".toList index) with
        | error reason => rfl
        | ok policy => rfl
      rw [hStep, loadEntries]
      refine Lib.Narrows.congr ?_
        (List.forall_mem_cons).symm
      apply Lib.Narrows.bind
        (loadPolicy_narrows hCase hLaws entry _)
      intro policy _
      have hTaken :
          (tokens.any fun t => t.label == policy.label) =
              true ↔
            policy.label ∈ seenLabels := by
        rw [hSeen, List.any_eq_true]
        constructor
        · rintro ⟨token, hMem, hSame⟩
          exact ⟨token, hMem, beq_iff_eq.mp hSame⟩
        · rintro ⟨token, hMem, hSame⟩
          exact ⟨token, hMem, beq_iff_eq.mpr hSame⟩
      by_cases hDuplicate : policy.label ∈ seenLabels
      · rw [if_pos (hTaken.mpr hDuplicate),
          if_pos hDuplicate]
        exact Lib.Narrows.error _ _
      · rw [if_neg (mt hTaken.mp hDuplicate),
          if_neg hDuplicate]
        apply ih
        intro label
        rw [Finset.mem_insert, hSeen]
        constructor
        · rintro (rfl | ⟨token, hMem, hLabel⟩)
          · exact
              ⟨policy,
                List.mem_append_right _ List.mem_cons_self,
                rfl⟩
          · exact
              ⟨token, List.mem_append_left _ hMem, hLabel⟩
        · rintro ⟨token, hMem, hLabel⟩
          rcases List.mem_append.mp hMem with hOld | hNew
          · exact .inr ⟨token, hOld, hLabel⟩
          · rw [List.mem_singleton.mp hNew] at hLabel
            exact .inl hLabel.symm

/- The relay is the Python loader, for strict documents. -/
theorem fromNode_narrows
    (hCase : CaseLaws)
    (hLaws : LoaderLaws)
    (data : Document) :
    Lib.Narrows (Strict data) (fromNode data.node)
      (loadSecrets data) := by
  unfold fromNode loadSecrets
  apply Lib.Narrows.bind_same (requireMap_narrows data _ _)
  intro _ _
  rw [get_node, get_node]
  apply Lib.Narrows.bind_same (loadSmtp_narrows _)
  intro smtp _
  unfold Strict Document.tokens
  cases hTokens : data.get "tokens".toList with
  | none => exact Lib.Narrows.error _ _
  | some found =>
      cases found with
      | str | none | bool | int | other | dict =>
          exact Lib.Narrows.error _ _
      | list entries =>
          cases entries with
          | nil => exact Lib.Narrows.error _ _
          | cons entry rest =>
              rw [Option.map_some, Document.node]
              apply Lib.Narrows.congr _
                (Iff.of_eq (and_true _))
              apply Lib.Narrows.bind
                (loadTokens_narrows hCase hLaws
                  (entry :: rest) 0 [] ∅ _)
              · intro tokens _
                exact Lib.Narrows.ok trivial _
              · intro label
                constructor
                · intro hMem
                  cases hMem
                · rintro ⟨token, hMem, -⟩
                  cases hMem

/-
  The relay loads what Python loads, if every hash is a
  string and every domain and address is supported.
-/
theorem fromNode_iff_loadSecrets
    (hCase : CaseLaws)
    (hLaws : LoaderLaws)
    (data : Document)
    (smtp : Smtp.SmtpCredentials)
    (tokens : List TokenPolicy) :
    fromNode data.node = .ok (smtp, tokens) ↔
      Strict data ∧ loadSecrets data = .ok (smtp, tokens) :=
  fromNode_narrows hCase hLaws data (smtp, tokens)

/- `idna.encode` where it is asked for one domain only. -/
@[reducible] def IdnaPackage.aDe : IdnaPackage :=
  { encode := fun domain =>
      if asciiLowercase domain = "a.de".toList then
        some "a.de".toList
      else
        none }

omit [Unicode] [Idna] [IdnaPackage] [Repr] in
theorem aDe_loaderLaws :
    @LoaderLaws .ascii .aDe .aDe := by
  let _ : Unicode := .ascii
  let _ : Idna := .aDe
  let _ : IdnaPackage := .aDe
  constructor
  · intro c hSpace hMem
    have hSame : '\n' = c := List.mem_singleton.mp hMem
    rw [← hSame] at hSpace
    cases hSpace
  · intro domain ascii _ hAscii _ _
    simp only [Idna.toAscii, Option.ite_none_right_eq_some,
      Option.some.injEq] at hAscii
    refine ⟨"a.de".toList, if_pos hAscii.1, ?_⟩
    rw [← hAscii.2]
    decide +kernel

/- A small document, with a hash in quotes. -/
def quotedDocument : Document :=
  .dict
    [(some "smtp".toList,
      .dict
        [(some "username".toList, .str "u".toList),
          (some "password".toList, .str "p".toList)]),
      (some "tokens".toList,
        .list
          [.dict
            [(some "label".toList, .str "a".toList),
              (some "token_sha256".toList,
                .str (List.replicate 64 'A')),
              (some "mailgun_domains".toList,
                .list [.str " A.de".toList]),
              (some "allowed_from_domains".toList,
                .list [.str "a.DE".toList])]])]

omit [Unicode] [Idna] [IdnaPackage] [Repr] in
theorem fromNode_iff_loadSecrets_quoted :
    let _ : Unicode := .ascii
    let _ : Idna := .aDe
    let _ : IdnaPackage := .aDe
    let _ : Repr := ⟨id⟩
    ∃ smtp tokens,
      fromNode quotedDocument.node = .ok (smtp, tokens) ∧
        Strict quotedDocument ∧
        loadSecrets quotedDocument = .ok (smtp, tokens) := by
  intro _ _ _ _
  have hOk : (fromNode quotedDocument.node).isOk = true := by
    decide +kernel
  rcases Lib.exists_of_isOk hOk with ⟨⟨smtp, tokens⟩, hLoad⟩
  exact
    ⟨smtp, tokens, hLoad,
      (fromNode_iff_loadSecrets ascii_caseLaws aDe_loaderLaws
        quotedDocument smtp tokens).mp hLoad⟩

end Python

end MailgunRelay
