import MailgunRelay.Secrets

/-
  What a document must be to load, without the order of its
  checks: a load succeeds exactly with the credentials and
  the policies that a document describes.

  Key definitions include:
    * `MailgunRelay.Secrets.Describes`
    * `MailgunRelay.Secrets.DescribesList`
    * `MailgunRelay.Secrets.DescribesPolicy`

  Key theorems include:
    * `MailgunRelay.Secrets.stringValues_eq_ok_iff`
    * `MailgunRelay.Secrets.loadPolicy_eq_ok_iff`
    * `MailgunRelay.Secrets.fromNode_eq_ok_iff`
    * `MailgunRelay.Secrets.loadPolicy_loaded`
-/

------------------------------------------------------------
-- Descriptions
------------------------------------------------------------

namespace MailgunRelay

namespace Secrets

open Smtp (SmtpCredentials)

/- A list of strings, and its normalised strings. -/
structure DescribesItems
    (normalize : Str → Except Str Str)
    (items : List Node)
    (values : Finset Str) : Prop where
  strings : ∀ item ∈ items, ∃ value normal,
    item = .str value ∧ pyStrip value ≠ [] ∧
      normalize value = .ok normal
  members : ∀ x, x ∈ values ↔ ∃ value,
    .str value ∈ items ∧ normalize value = .ok x

/- A list that is there and not empty. -/
def DescribesList
    (normalize : Str → Except Str Str)
    (node : Option Node)
    (values : Finset Str) : Prop :=
  ∃ items, node = some (.seq items) ∧ items ≠ [] ∧
    DescribesItems normalize items values

/- The value of an optional list that says nothing. -/
def Absent (node : Option Node) : Prop :=
  node = none ∨ node = some .null ∨ node = some (.seq [])

/- An optional list. -/
def DescribesOptional
    (normalize : Str → Except Str Str)
    (node : Option Node) : Option (Finset Str) → Prop
| none => Absent node
| some values => DescribesList normalize node values

/- The mapping of the credentials. -/
structure DescribesSmtp
    (raw : Node)
    (smtp : SmtpCredentials) : Prop where
  isMap : raw.isMap = true
  username :
    raw.get "username".toList = some (.str smtp.username)
  notBlank : pyStrip smtp.username ≠ []
  usernameReal : smtp.username ∉ forbiddenValues
  password :
    raw.get "password".toList = some (.str smtp.password)
  passwordReal : smtp.password ∉ forbiddenValues

variable [Unicode] [Idna]

/- The mapping of a token. -/
structure DescribesPolicy
    (raw : Node)
    (policy : TokenPolicy) : Prop where
  isMap : raw.isMap = true
  label : raw.get "label".toList = some (.str policy.label)
  notBlank : pyStrip policy.label ≠ []
  labelReal : policy.label ∉ forbiddenValues
  hash : ∃ value,
    raw.get "token_sha256".toList = some (.str value) ∧
      value ∉ forbiddenValues ∧
      policy.tokenSha256 = lowercase (pyStrip value)
  isHash : isHash policy.tokenSha256 = true
  mailgunDomains :
    DescribesList normalizeConfigDomain
      (raw.get "mailgun_domains".toList) policy.mailgunDomains
  allowedFromDomains :
    DescribesList normalizeConfigDomain
      (raw.get "allowed_from_domains".toList)
      policy.allowedFromDomains
  allowedFromAddresses :
    DescribesOptional normalizeConfigAddress
      (raw.get "allowed_from_addresses".toList)
      policy.allowedFromAddresses

/- A whole document. -/
structure Describes
    (data : Node)
    (smtp : SmtpCredentials)
    (tokens : List TokenPolicy) : Prop where
  isMap : data.isMap = true
  credentials : ∃ raw,
    data.get "smtp".toList = some raw ∧ DescribesSmtp raw smtp
  policies : ∃ entries,
    data.get "tokens".toList = some (.seq entries) ∧
      entries ≠ [] ∧
      List.Forall₂ DescribesPolicy entries tokens
  labels : (tokens.map TokenPolicy.label).Nodup

end Secrets

end MailgunRelay

------------------------------------------------------------
-- Fields
------------------------------------------------------------

namespace MailgunRelay

namespace Secrets

open Smtp (SmtpCredentials)

theorem asStr_eq_some_iff
    {node : Option Node}
    {value : Str} :
    asStr node = some value ↔ node = some (.str value) := by
  cases node with
  | none => simp [asStr]
  | some node => cases node <;> simp [asStr]

theorem rejectPlaceholder_eq_ok_iff
    {field value : Str}
    {u : Unit} :
    rejectPlaceholder field value = .ok u ↔
      value ∉ forbiddenValues := by
  unfold rejectPlaceholder
  by_cases hForbidden : forbiddenValues.contains value = true
  · rw [if_pos hForbidden]
    simpa using List.contains_iff_mem.mp hForbidden
  · rw [if_neg hForbidden]
    simpa using hForbidden

theorem nonBlank_eq_ok_iff
    {node : Option Node}
    {message value : Str} :
    nonBlank node message = .ok value ↔
      node = some (.str value) ∧ pyStrip value ≠ [] := by
  unfold nonBlank
  cases hString : asStr node with
  | none =>
      constructor
      · nofun
      · rintro ⟨hNode, -⟩
        rw [asStr_eq_some_iff.mpr hNode] at hString
        cases hString
  | some other =>
      rw [asStr_eq_some_iff] at hString
      subst hString
      simp only [List.isEmpty_iff]
      by_cases hBlank : pyStrip other = []
      · rw [if_pos hBlank]
        constructor
        · nofun
        · rintro ⟨hNode, hNot⟩
          cases hNode
          exact absurd hBlank hNot
      · rw [if_neg hBlank]
        constructor
        · intro hValue
          cases hValue
          exact ⟨rfl, hBlank⟩
        · rintro ⟨hNode, -⟩
          cases hNode
          rfl

theorem requireMap_eq_ok_iff
    {raw : Node}
    {message : Str}
    {u : Unit} :
    requireMap raw message = .ok u ↔ raw.isMap = true := by
  unfold requireMap
  cases raw.isMap <;> simp

/- A list loads if its items are strings that normalise. -/
theorem stringValues_eq_ok_iff
    {normalize : Str → Except Str Str}
    {field : Str}
    {index : Nat}
    {values loaded : Finset Str}
    {items : List Node} :
    stringValues normalize field index values items =
        .ok loaded ↔
      (∀ item ∈ items, ∃ value normal,
        item = .str value ∧ pyStrip value ≠ [] ∧
          normalize value = .ok normal) ∧
      ∀ x, x ∈ loaded ↔ x ∈ values ∨ ∃ value,
        .str value ∈ items ∧ normalize value = .ok x := by
  induction items generalizing index values with
  | nil =>
      rw [stringValues]
      constructor
      · intro hLoaded
        cases hLoaded
        simp
      · rintro ⟨-, hMembers⟩
        congr 1
        ext x
        simp [hMembers x]
  | cons item items ih =>
      cases item with
      | null | other | seq | map =>
          rw [stringValues]
          constructor
          · nofun
          · rintro ⟨hStrings, -⟩
            rcases hStrings _ List.mem_cons_self with
              ⟨value, normal, hItem, -⟩
            cases hItem
          all_goals nofun
      | str value =>
          rw [stringValues]
          by_cases hBlank : pyStrip value = []
          · rw [if_pos (List.isEmpty_iff.mpr hBlank)]
            constructor
            · nofun
            · rintro ⟨hStrings, -⟩
              rcases hStrings _ List.mem_cons_self with
                ⟨other, normal, hItem, hNot, -⟩
              cases hItem
              exact absurd hBlank hNot
          rw [if_neg (by simpa using hBlank)]
          cases hNormal : normalize value with
          | error reason =>
              constructor
              · nofun
              · rintro ⟨hStrings, -⟩
                rcases hStrings _ List.mem_cons_self with
                  ⟨other, normal, hItem, -, hOther⟩
                cases hItem
                rw [hNormal] at hOther
                cases hOther
          | ok normal =>
              simp only
              rw [ih]
              apply and_congr
              · rw [List.forall_mem_cons]
                constructor
                · intro hRest
                  exact
                    ⟨⟨value, normal, rfl, hBlank, hNormal⟩,
                      hRest⟩
                · exact fun hAll => hAll.2
              · apply forall_congr'
                intro x
                apply iff_congr Iff.rfl
                rw [Finset.mem_insert]
                constructor
                · rintro ((rfl | hOld) | ⟨other, hMem, hOther⟩)
                  · exact
                      .inr ⟨value, List.mem_cons_self, hNormal⟩
                  · exact .inl hOld
                  · exact
                      .inr
                        ⟨other, List.mem_cons_of_mem _ hMem,
                          hOther⟩
                · rintro (hOld | ⟨other, hMem, hOther⟩)
                  · exact .inl (.inr hOld)
                  · rcases List.mem_cons.mp hMem with
                      hHere | hMem
                    · cases hHere
                      rw [hNormal] at hOther
                      cases hOther
                      exact .inl (.inl rfl)
                    · exact .inr ⟨other, hMem, hOther⟩

theorem stringValues_eq_ok_iff_describes
    {normalize : Str → Except Str Str}
    {field : Str}
    {values : Finset Str}
    {items : List Node} :
    stringValues normalize field 0 ∅ items = .ok values ↔
      DescribesItems normalize items values := by
  rw [stringValues_eq_ok_iff]
  constructor
  · rintro ⟨hStrings, hMembers⟩
    exact ⟨hStrings, fun x => by simpa using hMembers x⟩
  · intro h
    exact ⟨h.strings, fun x => by simpa using h.members x⟩

theorem describesList_seq_iff
    {normalize : Str → Except Str Str}
    {items : List Node}
    {values : Finset Str} :
    DescribesList normalize (some (.seq items)) values ↔
      items ≠ [] ∧ DescribesItems normalize items values := by
  constructor
  · rintro ⟨items', hNode, hItems⟩
    cases hNode
    exact hItems
  · exact fun hItems => ⟨items, rfl, hItems⟩

theorem stringList_eq_some_iff
    {raw : Node}
    {field : Str}
    {key : String}
    {normalize : Str → Except Str Str}
    {values : Finset Str} :
    stringList raw field key normalize = .ok (some values) ↔
      DescribesList normalize (raw.get key.toList) values := by
  unfold stringList
  cases raw.get key.toList with
  | none => exact ⟨nofun, fun ⟨_, hNode, _⟩ => nomatch hNode⟩
  | some node =>
      cases node with
      | str | null | other | map =>
          exact ⟨nofun, fun ⟨_, hNode, _⟩ => nomatch hNode⟩
      | seq items =>
          rw [describesList_seq_iff]
          cases items with
          | nil => exact ⟨nofun, fun hItems => absurd rfl hItems.1⟩
          | cons item items =>
              rw [← @stringValues_eq_ok_iff_describes _
                (dotted field key)]
              simp only
              cases stringValues normalize (dotted field key) 0
                  ∅ (item :: items) <;> simp [Except.map]

/- An empty list counts as no list. -/
theorem stringList_eq_none_iff
    {raw : Node}
    {field : Str}
    {key : String}
    {normalize : Str → Except Str Str}
    {items : List Node}
    (hGet : raw.get key.toList = some (.seq items)) :
    stringList raw field key normalize = .ok none ↔
      items = [] := by
  unfold stringList
  rw [hGet]
  cases items with
  | nil => exact ⟨fun _ => rfl, fun _ => rfl⟩
  | cons item items =>
      simp only
      cases stringValues normalize (dotted field key) 0 ∅
          (item :: items) <;> simp [Except.map]

theorem requiredList_eq_ok_iff
    {raw : Node}
    {field : Str}
    {key : String}
    {normalize : Str → Except Str Str}
    {values : Finset Str} :
    requiredList raw field key normalize = .ok values ↔
      DescribesList normalize (raw.get key.toList) values := by
  rw [← @stringList_eq_some_iff _ field]
  unfold requiredList
  rw [Lib.bind_eq_ok_iff]
  constructor
  · rintro ⟨loaded, hLoaded, hValues⟩
    cases loaded with
    | none => cases hValues
    | some values' =>
        cases hValues
        exact hLoaded
  · exact fun hLoaded => ⟨some values, hLoaded, rfl⟩

theorem loadSmtp_eq_ok_iff
    {raw : Node}
    {smtp : SmtpCredentials} :
    loadSmtp (some raw) = .ok smtp ↔ DescribesSmtp raw smtp := by
  cases raw with
  | str | null | other | seq =>
      exact ⟨nofun, fun h => nomatch h.isMap⟩
  | map entries =>
      unfold loadSmtp
      dsimp only
      rw [Lib.bind_eq_ok_iff]
      simp only [nonBlank_eq_ok_iff]
      cases hPassword :
          asStr ((Node.map entries).get "password".toList) with
      | none =>
          constructor
          · rintro ⟨username, -, hRest⟩
            cases hRest
          · intro h
            rw [asStr_eq_some_iff.mpr h.password] at hPassword
            cases hPassword
      | some password =>
          have hGet := asStr_eq_some_iff.mp hPassword
          simp only [pure_bind, Lib.bind_eq_ok_iff,
            rejectPlaceholder_eq_ok_iff]
          constructor
          · rintro ⟨username, hUsername, -, hReal, -, hOther,
              hSmtp⟩
            cases hSmtp
            exact
              { isMap := rfl
                username := hUsername.1
                notBlank := hUsername.2
                usernameReal := hReal
                password := hGet
                passwordReal := hOther }
          · intro h
            have hSame : smtp.password = password := by
              have hTwice := h.password
              rw [hGet] at hTwice
              cases hTwice
              rfl
            subst hSame
            exact
              ⟨smtp.username, ⟨h.username, h.notBlank⟩, (),
                h.usernameReal, (), h.passwordReal, rfl⟩

variable [Unicode] [Idna]

omit [Idna] in
theorem loadHash_eq_ok_iff
    {raw : Node}
    {field sha : Str} :
    loadHash raw field = .ok sha ↔
      (∃ value,
        raw.get "token_sha256".toList = some (.str value) ∧
          value ∉ forbiddenValues ∧
          sha = lowercase (pyStrip value)) ∧
        isHash sha = true := by
  unfold loadHash
  cases hGet : raw.get "token_sha256".toList with
  | none => exact ⟨nofun, fun ⟨⟨_, hNode, _⟩, _⟩ => nomatch hNode⟩
  | some node =>
      cases node with
      | null | other | seq | map =>
          exact
            ⟨nofun, fun ⟨⟨_, hNode, _⟩, _⟩ => nomatch hNode⟩
      | str value =>
          simp only [pure_bind, Lib.bind_eq_ok_iff,
            rejectPlaceholder_eq_ok_iff]
          constructor
          · rintro ⟨-, hReal, hSha⟩
            by_cases hDigits :
                isHash (lowercase (pyStrip value)) = true
            · rw [if_pos hDigits] at hSha
              cases hSha
              exact ⟨⟨value, rfl, hReal, rfl⟩, hDigits⟩
            · rw [if_neg hDigits] at hSha
              cases hSha
          · rintro ⟨⟨other, hNode, hReal, rfl⟩, hDigits⟩
            cases hNode
            refine ⟨(), hReal, ?_⟩
            rw [if_pos hDigits]
            rfl

theorem loadAddresses_eq_ok_iff
    {raw : Node}
    {field : Str}
    {values : Option (Finset Str)} :
    loadAddresses raw field = .ok values ↔
      DescribesOptional normalizeConfigAddress
        (raw.get "allowed_from_addresses".toList) values := by
  unfold loadAddresses
  cases hGet : raw.get "allowed_from_addresses".toList with
  | none =>
      cases values with
      | none => exact ⟨fun _ => .inl rfl, fun _ => rfl⟩
      | some values =>
          exact ⟨nofun, fun ⟨_, hNode, _⟩ => nomatch hNode⟩
  | some node =>
      cases node with
      | str | other | map =>
          cases values with
          | none =>
              constructor
              · nofun
              · rintro (hNode | hNode | hNode) <;> cases hNode
          | some values =>
              exact ⟨nofun, fun ⟨_, hNode, _⟩ => nomatch hNode⟩
      | null =>
          cases values with
          | none =>
              exact ⟨fun _ => .inr (.inl rfl), fun _ => rfl⟩
          | some values =>
              exact ⟨nofun, fun ⟨_, hNode, _⟩ => nomatch hNode⟩
      | seq items =>
          cases values with
          | some values =>
              have hList :=
                @stringList_eq_some_iff raw field
                  "allowed_from_addresses"
                  normalizeConfigAddress values
              rw [hGet] at hList
              exact hList
          | none =>
              simp only
              rw [stringList_eq_none_iff hGet]
              constructor
              · rintro rfl
                exact .inr (.inr rfl)
              · rintro (hNode | hNode | hNode)
                · cases hNode
                · cases hNode
                · cases hNode
                  rfl

theorem loadPolicy_eq_ok_iff
    {raw : Node}
    {field : Str}
    {policy : TokenPolicy} :
    loadPolicy raw field = .ok policy ↔
      DescribesPolicy raw policy := by
  unfold loadPolicy
  simp only [Lib.bind_eq_ok_iff, requireMap_eq_ok_iff,
    nonBlank_eq_ok_iff, rejectPlaceholder_eq_ok_iff,
    loadHash_eq_ok_iff, requiredList_eq_ok_iff,
    loadAddresses_eq_ok_iff]
  constructor
  · rintro ⟨-, hMap, label, hLabel, -, hReal, sha, hSha,
      mailgunDomains, hMailgun, allowedFromDomains, hDomains,
      allowedFromAddresses, hAddresses, hPolicy⟩
    cases hPolicy
    exact
      { isMap := hMap
        label := hLabel.1
        notBlank := hLabel.2
        labelReal := hReal
        hash := hSha.1
        isHash := hSha.2
        mailgunDomains := hMailgun
        allowedFromDomains := hDomains
        allowedFromAddresses := hAddresses }
  · intro h
    exact
      ⟨(), h.isMap, policy.label, ⟨h.label, h.notBlank⟩, (),
        h.labelReal, policy.tokenSha256, ⟨h.hash, h.isHash⟩,
        policy.mailgunDomains, h.mailgunDomains,
        policy.allowedFromDomains, h.allowedFromDomains,
        policy.allowedFromAddresses, h.allowedFromAddresses,
        rfl⟩

/- The tokens from a position on, with those before it. -/
theorem loadTokens_eq_ok_iff
    {index : Nat}
    {tokens loaded : List TokenPolicy}
    {entries : List Node}
    (hNodup : (tokens.map TokenPolicy.label).Nodup) :
    loadTokens index tokens entries = .ok loaded ↔
      ∃ policies,
        loaded = tokens ++ policies ∧
          List.Forall₂ DescribesPolicy entries policies ∧
          (loaded.map TokenPolicy.label).Nodup := by
  induction entries generalizing index tokens with
  | nil =>
      rw [loadTokens]
      constructor
      · intro hLoaded
        cases hLoaded
        exact ⟨[], (List.append_nil _).symm, .nil, hNodup⟩
      · rintro ⟨policies, rfl, hPolicies, -⟩
        cases hPolicies
        rw [List.append_nil]
  | cons entry entries ih =>
      rw [loadTokens]
      cases hPolicy :
          loadPolicy entry (indexed "tokens".toList index) with
      | error reason =>
          constructor
          · nofun
          · rintro ⟨policies, -, hPolicies, -⟩
            cases hPolicies with
            | cons hFirst hRest =>
                rw [loadPolicy_eq_ok_iff.mpr hFirst] at hPolicy
                cases hPolicy
      | ok policy =>
          have hSame :
              ∀ other, DescribesPolicy entry other →
                other = policy := by
            intro other hOther
            rw [loadPolicy_eq_ok_iff.mpr hOther] at hPolicy
            exact Except.ok.inj hPolicy
          simp only
          by_cases hTwice :
              (tokens.any fun t => t.label == policy.label) =
                true
          · rw [if_pos hTwice]
            constructor
            · nofun
            · rintro ⟨policies, rfl, hPolicies, hLabels⟩
              cases hPolicies with
              | cons hFirst hRest =>
                  rcases List.any_eq_true.mp hTwice with
                    ⟨t, hMem, hLabel⟩
                  rw [List.map_append,
                    List.nodup_append'] at hLabels
                  exfalso
                  apply hLabels.2.2 (List.mem_map_of_mem hMem)
                  rw [beq_iff_eq.mp hLabel, ← hSame _ hFirst]
                  exact List.mem_cons_self
          · have hNew :
                ((tokens ++ [policy]).map
                  TokenPolicy.label).Nodup := by
              rw [List.map_append, List.nodup_append']
              refine ⟨hNodup, List.nodup_singleton _, ?_⟩
              intro label hMem hHere
              rcases List.mem_map.mp hMem with ⟨t, hToken, rfl⟩
              apply hTwice
              exact
                List.any_eq_true.mpr
                  ⟨t, hToken,
                    beq_iff_eq.mpr
                      (List.mem_singleton.mp hHere)⟩
            rw [if_neg hTwice, ih hNew]
            constructor
            · rintro ⟨policies, rfl, hPolicies, hLabels⟩
              exact
                ⟨policy :: policies, by simp,
                  .cons (loadPolicy_eq_ok_iff.mp hPolicy)
                    hPolicies,
                  hLabels⟩
            · rintro ⟨policies, rfl, hPolicies, hLabels⟩
              cases hPolicies with
              | cons hFirst hRest =>
                  rw [hSame _ hFirst] at hLabels ⊢
                  exact ⟨_, by simp, hRest, hLabels⟩

/- A document loads exactly as it describes. -/
theorem fromNode_eq_ok_iff
    {data : Node}
    {smtp : SmtpCredentials}
    {tokens : List TokenPolicy} :
    fromNode data = .ok (smtp, tokens) ↔
      Describes data smtp tokens := by
  unfold fromNode
  simp only [Lib.bind_eq_ok_iff, requireMap_eq_ok_iff]
  constructor
  · rintro ⟨-, hMap, smtp', hSmtp, hRest⟩
    cases hEntries : data.get "tokens".toList with
    | none =>
        rw [hEntries] at hRest
        cases hRest
    | some node =>
        rw [hEntries] at hRest
        cases node with
        | str | null | other | map => cases hRest
        | seq entries =>
            cases entries with
            | nil => cases hRest
            | cons entry entries =>
                simp only [pure_bind,
                  Lib.bind_eq_ok_iff] at hRest
                rcases hRest with ⟨tokens', hTokens, hResult⟩
                cases hResult
                rcases
                  (@loadTokens_eq_ok_iff _ _ 0 [] tokens
                    (entry :: entries) List.nodup_nil).mp
                    hTokens with
                  ⟨policies, hEq, hPolicies, hLabels⟩
                rw [List.nil_append] at hEq
                subst hEq
                refine
                  { isMap := hMap
                    credentials := ?_
                    policies :=
                      ⟨entry :: entries, hEntries,
                        List.cons_ne_nil _ _, hPolicies⟩
                    labels := hLabels }
                cases hRaw : data.get "smtp".toList with
                | none =>
                    rw [hRaw] at hSmtp
                    cases hSmtp
                | some raw =>
                    rw [hRaw] at hSmtp
                    exact
                      ⟨raw, rfl, loadSmtp_eq_ok_iff.mp hSmtp⟩
  · rintro ⟨hMap, ⟨raw, hRaw, hSmtp⟩,
      ⟨entries, hEntries, hNonempty, hPolicies⟩, hLabels⟩
    refine ⟨(), hMap, smtp, ?_, ?_⟩
    · rw [hRaw]
      exact loadSmtp_eq_ok_iff.mpr hSmtp
    · rw [hEntries]
      cases entries with
      | nil => exact absurd rfl hNonempty
      | cons entry entries =>
          have hTokens :
              loadTokens 0 [] (entry :: entries) =
                .ok tokens :=
            (@loadTokens_eq_ok_iff _ _ 0 [] tokens
              (entry :: entries) List.nodup_nil).mpr
              ⟨tokens, rfl, hPolicies, hLabels⟩
          simp only [pure_bind, Lib.bind_eq_ok_iff]
          exact ⟨tokens, hTokens, rfl⟩

end Secrets

end MailgunRelay

------------------------------------------------------------
-- What Is Loaded
------------------------------------------------------------

namespace MailgunRelay

namespace Secrets

/- The strings a list of a mapping holds. -/
def Node.entries (raw : Node) (key : String) : List Str :=
  match raw.get key.toList with
  | some (.seq items) =>
      items.filterMap fun item => asStr (some item)
  | _ => []

/- The normalised strings; no list at all if there are none. -/
def Loaded
    (normalize : Str → Except Str Str)
    (entries : List Str) : Option (Finset Str) → Prop
| none => entries = []
| some values => ∀ x,
    x ∈ values ↔ ∃ entry ∈ entries, normalize entry = .ok x

variable {normalize : Str → Except Str Str}

theorem mem_entries
    {raw : Node}
    {key : String}
    {items : List Node}
    (hGet : raw.get key.toList = some (.seq items))
    {value : Str} :
    value ∈ raw.entries key ↔ .str value ∈ items := by
  unfold Node.entries
  simp only [hGet, List.mem_filterMap, asStr_eq_some_iff,
    Option.some.injEq]
  exact
    ⟨fun ⟨_, hMem, hEq⟩ => hEq ▸ hMem,
      fun hMem => ⟨_, hMem, rfl⟩⟩

/- A list holds its normalised strings. -/
theorem DescribesList.loaded
    {raw : Node}
    {key : String}
    {values : Finset Str}
    (hList :
      DescribesList normalize (raw.get key.toList) values) :
    Loaded normalize (raw.entries key) (some values) := by
  rcases hList with ⟨items, hGet, -, hItems⟩
  intro x
  rw [hItems.members x]
  simp only [mem_entries hGet]

/- An optional list is there if it has entries. -/
theorem DescribesOptional.loaded
    {raw : Node}
    {key : String}
    {loaded : Option (Finset Str)}
    (hOptional :
      DescribesOptional normalize (raw.get key.toList)
        loaded) :
    Loaded normalize (raw.entries key) loaded := by
  cases loaded with
  | some values => exact DescribesList.loaded hOptional
  | none =>
      unfold Loaded Node.entries
      rcases hOptional with hGet | hGet | hGet
      · rw [hGet]
      · rw [hGet]
      · rw [hGet]
        rfl

variable [Unicode] [Idna]

/- The senders a loaded policy allows. -/
theorem loadPolicy_loaded
    {raw : Node}
    {field : Str}
    {policy : TokenPolicy}
    (hLoaded : loadPolicy raw field = .ok policy) :
    Loaded normalizeConfigDomain
        (raw.entries "allowed_from_domains")
        (some policy.allowedFromDomains) ∧
    Loaded normalizeConfigAddress
      (raw.entries "allowed_from_addresses")
      policy.allowedFromAddresses := by
  have hDescribes := loadPolicy_eq_ok_iff.mp hLoaded
  exact
    ⟨hDescribes.allowedFromDomains.loaded,
      hDescribes.allowedFromAddresses.loaded⟩

end Secrets

end MailgunRelay
