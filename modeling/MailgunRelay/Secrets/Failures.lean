import MailgunRelay.Secrets

/-
  What the errors of the secrets file say: a load fails at a
  check of a field, and its error is made from that and from
  the shape of the document, never from a value.

  Key definitions include:
    * `MailgunRelay.Secrets.Node.shape`
    * `MailgunRelay.Secrets.Failure`
    * `MailgunRelay.Secrets.Failure.text`
    * `MailgunRelay.Secrets.check`

  Key theorems include:
    * `MailgunRelay.Secrets.fromNode_eq_check`
    * `MailgunRelay.Secrets.fromNode_discloses`
-/

------------------------------------------------------------
-- Shapes
------------------------------------------------------------

namespace MailgunRelay

namespace Secrets

mutual

/- The node without the contents of its strings. -/
def Node.shape : Node → Node
| .str _ => .str []
| .null => .null
| .other name => .other name
| .seq items => .seq (itemShapes items)
| .map entries => .map (entryShapes entries)

def itemShapes : List Node → List Node
| [] => []
| item :: items => item.shape :: itemShapes items

def entryShapes :
    List (Option Str × Node) → List (Option Str × Node)
| [] => []
| (key, value) :: entries =>
    (key, value.shape) :: entryShapes entries

end

theorem itemShapes_eq_map
    (items : List Node) :
    itemShapes items = items.map Node.shape := by
  induction items with
  | nil => rfl
  | cons item items ih => rw [itemShapes, ih, List.map_cons]

theorem entryShapes_eq_map
    (entries : List (Option Str × Node)) :
    entryShapes entries =
      entries.map fun entry => (entry.1, entry.2.shape) := by
  induction entries with
  | nil => rfl
  | cons entry entries ih =>
      rw [entryShapes, ih, List.map_cons]

/- The shape of a value is the value of the shape. -/
theorem Node.get_shape
    (node : Node)
    (key : Str) :
    node.shape.get key = (node.get key).map Node.shape := by
  cases node with
  | str | null | other | seq => rfl
  | map entries =>
      rw [Node.shape, Node.get, Node.get, entryShapes_eq_map,
        ← List.map_reverse, List.find?_map, Option.map_map,
        Option.map_map]
      rfl

theorem Node.typeName_shape
    (node : Node) :
    node.shape.typeName = node.typeName := by
  cases node <;> rfl

end Secrets

end MailgunRelay

------------------------------------------------------------
-- Failures
------------------------------------------------------------

namespace MailgunRelay

namespace Secrets

/- Why a domain or an address is refused. -/
inductive Reason where
  | outsideSupportedSet
  | emptyDomain
  | invalidDomain
  | missingAt
  | missingLocal
  | nonAsciiLocal
  deriving DecidableEq

def Reason.text : Reason → Str
| .outsideSupportedSet => MailgunRelay.outsideSupportedSet
| .emptyDomain => "empty domain".toList
| .invalidDomain => "invalid domain".toList
| .missingAt => "address missing '@'".toList
| .missingLocal => "address missing local part".toList
| .nonAsciiLocal =>
    ("address has a non-ASCII local part, which " ++
      "never matches (PLAN.md D-17)").toList

/- The lists of a token. -/
inductive ListKey where
  | mailgunDomains
  | allowedFromDomains
  | allowedFromAddresses
  deriving DecidableEq

def ListKey.name : ListKey → String
| .mailgunDomains => "mailgun_domains"
| .allowedFromDomains => "allowed_from_domains"
| .allowedFromAddresses => "allowed_from_addresses"

/-
  A check of a field that fails.  Tokens and the items of
  their lists have positions; there is no text here.
-/
inductive Failure where
  | file
  | smtp
  | username
  | password
  | usernamePlaceholder
  | passwordPlaceholder
  | tokens
  | token (index : Nat)
  | label (index : Nat)
  | labelPlaceholder (index : Nat)
  | hash (index : Nat)
  | hashPlaceholder (index : Nat)
  | hashDigits (index : Nat)
  | list (index : Nat) (key : ListKey)
  | item (index : Nat) (key : ListKey) (position : Nat)
  | value
      (index : Nat) (key : ListKey) (position : Nat)
      (reason : Reason)
  | duplicate (index : Nat)
  deriving DecidableEq

/- The name of a token. -/
def tokenField (index : Nat) : Str :=
  indexed "tokens".toList index

/- The name of an item of a list of a token. -/
def itemField (index : Nat) (key : ListKey) (position : Nat) :
    Str :=
  indexed (dotted (tokenField index) key.name) position

/- The kind of the node where the hash of a token is. -/
def hashKind (raw : Node) : Str :=
  ((raw.get "token_sha256".toList).map
    Node.typeName).getD "nothing".toList

def foundKind (shape : Node) (index : Nat) : Str :=
  match shape.get "tokens".toList with
  | some (.seq items) =>
      (items[index]?.map hashKind).getD "nothing".toList
  | _ => "nothing".toList

/- A placeholder in a field. -/
def placeholderText (field : Str) : Str :=
  field ++ ": refuses placeholder/empty value".toList

/- The error of a failure, in a document of some shape. -/
def Failure.text (shape : Node) : Failure → Str
| .file => "secrets file must be a top-level mapping".toList
| .smtp => "smtp section must be a mapping".toList
| .username =>
    ("smtp.username must be a non-empty " ++
      "string").toList
| .password => "smtp.password must be a string".toList
| .usernamePlaceholder =>
    placeholderText "smtp.username".toList
| .passwordPlaceholder =>
    placeholderText "smtp.password".toList
| .tokens => "tokens must be a non-empty list".toList
| .token index =>
    tokenField index ++
      ": each token entry must be a mapping".toList
| .label index =>
    dotted (tokenField index) "label" ++
      " must be a non-empty string".toList
| .labelPlaceholder index =>
    placeholderText (dotted (tokenField index) "label")
| .hash index =>
    dotted (tokenField index) "token_sha256" ++
      " must be a quoted hex string, found ".toList ++
      foundKind shape index ++ " (PLAN.md D-5)".toList
| .hashPlaceholder index =>
    placeholderText (dotted (tokenField index) "token_sha256")
| .hashDigits index =>
    dotted (tokenField index) "token_sha256" ++
      " must be 64 lowercase hex chars (sha256)".toList
| .list index .allowedFromAddresses =>
    dotted (tokenField index) "allowed_from_addresses" ++
      " must be a list when present".toList
| .list index key =>
    dotted (tokenField index) key.name ++
      " must be a non-empty list".toList
| .item index key position =>
    itemField index key position ++
      " must be a non-empty string".toList
| .value index key position reason =>
    itemField index key position ++ ": ".toList ++ reason.text
| .duplicate index =>
    tokenField index ++ ": duplicate token label".toList

end Secrets

end MailgunRelay

------------------------------------------------------------
-- The Checks
------------------------------------------------------------

namespace MailgunRelay

namespace Secrets

open Smtp (SmtpCredentials)

def checkPlaceholder
    (failure : Failure)
    (value : Str) : Except Failure Unit :=
  if forbiddenValues.contains value then
    .error failure
  else
    .ok ()

def checkString
    (failure : Failure)
    (node : Option Node) : Except Failure Str :=
  match asStr node with
  | some value =>
      if (pyStrip value).isEmpty then
        .error failure
      else
        .ok value
  | none => .error failure

def checkValues
    (normalize : Str → Except Reason Str)
    (index : Nat)
    (key : ListKey)
    (position : Nat)
    (values : Finset Str) :
    List Node → Except Failure (Finset Str)
| [] => .ok values
| .str value :: rest =>
    if (pyStrip value).isEmpty then
      .error (.item index key position)
    else
      match normalize value with
      | .error reason =>
          .error (.value index key position reason)
      | .ok normalized =>
          checkValues normalize index key (position + 1)
            (insert normalized values) rest
| _ :: _ => .error (.item index key position)

def checkList
    (normalize : Str → Except Reason Str)
    (raw : Node)
    (index : Nat)
    (key : ListKey) : Except Failure (Option (Finset Str)) :=
  match raw.get key.name.toList with
  | some (.seq []) => .ok none
  | some (.seq items) =>
      (checkValues normalize index key 0 ∅ items).map some
  | _ => .ok none

def checkRequired
    (normalize : Str → Except Reason Str)
    (raw : Node)
    (index : Nat)
    (key : ListKey) : Except Failure (Finset Str) := do
  match ← checkList normalize raw index key with
  | some values => pure values
  | none => throw (.list index key)

def checkSmtp
    (raw : Option Node) : Except Failure SmtpCredentials :=
  match raw with
  | some (.map entries) => do
      let raw := Node.map entries
      let username ←
        checkString .username (raw.get "username".toList)
      let password ←
        match asStr (raw.get "password".toList) with
        | some password => pure password
        | none => throw .password
      checkPlaceholder .usernamePlaceholder username
      checkPlaceholder .passwordPlaceholder password
      pure { username := username, password := password }
  | _ => .error .smtp

def checkMap
    (failure : Failure)
    (raw : Node) : Except Failure Unit :=
  if raw.isMap then .ok () else .error failure

variable [Unicode] [Idna]

def checkDomain (value : Str) : Except Reason Str :=
  if !(lowercase (pyStrip value)).all isConfigDomainChar then
    .error .outsideSupportedSet
  else
    let lowered := lowercase (pyStrip value)
    if lowered.isEmpty then
      .error .emptyDomain
    else
      match Idna.toAscii .verifyAllowRootDot lowered with
      | none => .error .invalidDomain
      | some ascii =>
          let (unicode, valid) := Idna.domainToUnicode ascii
          if !valid || !unicode.all isConfigDomainChar then
            .error .outsideSupportedSet
          else
            .ok ascii

def checkAddress (value : Str) : Except Reason Str :=
  match Lib.Text.rsplitOnce '@' (pyStrip value) with
  | none => .error .missingAt
  | some (name, domain) =>
      if name.isEmpty then
        .error .missingLocal
      else if !name.all isAsciiChar then
        .error .nonAsciiLocal
      else
        match checkDomain domain with
        | .error reason => .error reason
        | .ok normal =>
            .ok (asciiLowercase name ++ '@' :: normal)

def checkHash
    (raw : Node)
    (index : Nat) : Except Failure Str := do
  let sha ←
    match raw.get "token_sha256".toList with
    | some (.str value) => pure value
    | _ => throw (.hash index)
  checkPlaceholder (.hashPlaceholder index) sha
  let sha := lowercase (pyStrip sha)
  if isHash sha then
    pure sha
  else
    throw (.hashDigits index)

def checkAddresses
    (raw : Node)
    (index : Nat) : Except Failure (Option (Finset Str)) :=
  match raw.get "allowed_from_addresses".toList with
  | none | some .null => .ok none
  | some (.seq _) =>
      checkList checkAddress raw index .allowedFromAddresses
  | some _ => .error (.list index .allowedFromAddresses)

def checkPolicy
    (raw : Node)
    (index : Nat) : Except Failure TokenPolicy := do
  checkMap (.token index) raw
  let label ← checkString (.label index) (raw.get "label".toList)
  checkPlaceholder (.labelPlaceholder index) label
  let sha ← checkHash raw index
  let mailgunDomains ←
    checkRequired checkDomain raw index .mailgunDomains
  let allowedFromDomains ←
    checkRequired checkDomain raw index .allowedFromDomains
  let allowedFromAddresses ← checkAddresses raw index
  pure
    { label := label
      tokenSha256 := sha
      mailgunDomains := mailgunDomains
      allowedFromDomains := allowedFromDomains
      allowedFromAddresses := allowedFromAddresses }

def checkTokens
    (index : Nat)
    (tokens : List TokenPolicy) :
    List Node → Except Failure (List TokenPolicy)
| [] => .ok tokens
| entry :: rest =>
    match checkPolicy entry index with
    | .error failure => .error failure
    | .ok policy =>
        if tokens.any fun t => t.label == policy.label then
          .error (.duplicate index)
        else
          checkTokens (index + 1) (tokens ++ [policy]) rest

/- The load of a document, with the check that fails. -/
def check
    (data : Node) :
    Except Failure (SmtpCredentials × List TokenPolicy) := do
  checkMap .file data
  let smtp ← checkSmtp (data.get "smtp".toList)
  let entries ←
    match data.get "tokens".toList with
    | some (.seq (item :: items)) => pure (item :: items)
    | _ => throw .tokens
  let tokens ← checkTokens 0 [] entries
  pure (smtp, tokens)

end Secrets

end MailgunRelay

------------------------------------------------------------
-- The Load Reports The Checks
------------------------------------------------------------

namespace MailgunRelay

namespace Secrets

open Smtp (SmtpCredentials)

variable {shape : Node}

theorem rejectPlaceholder_eq
    {failure : Failure}
    {field : Str}
    (hText : failure.text shape = placeholderText field)
    (value : Str) :
    rejectPlaceholder field value =
      (checkPlaceholder failure value).mapError
        (Failure.text shape) := by
  unfold rejectPlaceholder checkPlaceholder
  by_cases hForbidden : forbiddenValues.contains value = true
  · rw [if_pos hForbidden, if_pos hForbidden,
      Except.mapError, hText]
    rfl
  · rw [if_neg hForbidden, if_neg hForbidden]
    rfl

theorem nonBlank_eq
    {failure : Failure}
    {message : Str}
    (hText : failure.text shape = message)
    (node : Option Node) :
    nonBlank node message =
      (checkString failure node).mapError
        (Failure.text shape) := by
  unfold nonBlank checkString
  cases asStr node with
  | none => rw [Except.mapError, hText]
  | some value =>
      simp only
      by_cases hBlank : (pyStrip value).isEmpty = true
      · rw [if_pos hBlank, if_pos hBlank, Except.mapError,
          hText]
      · rw [if_neg hBlank, if_neg hBlank]
        rfl

theorem requireMap_eq
    {failure : Failure}
    {message : Str}
    (hText : failure.text shape = message)
    (raw : Node) :
    requireMap raw message =
      (checkMap failure raw).mapError (Failure.text shape) := by
  unfold requireMap checkMap
  cases raw.isMap with
  | true => rfl
  | false => rw [← hText]; rfl

/- The items of a list, from a position on. -/
theorem stringValues_eq
    {normalize : Str → Except Str Str}
    {reasons : Str → Except Reason Str}
    (hNormal :
      ∀ value,
        normalize value = (reasons value).mapError Reason.text)
    (index : Nat)
    (key : ListKey)
    (position : Nat)
    (values : Finset Str)
    (items : List Node) :
    stringValues normalize (dotted (tokenField index) key.name)
        position values items =
      (checkValues reasons index key position values
        items).mapError (Failure.text shape) := by
  induction items generalizing position values with
  | nil => rfl
  | cons item items ih =>
      cases item with
      | null | other | seq | map => rfl
      | str value =>
          rw [stringValues, checkValues]
          by_cases hBlank : (pyStrip value).isEmpty = true
          · rw [if_pos hBlank, if_pos hBlank]
            rfl
          rw [if_neg hBlank, if_neg hBlank, hNormal]
          cases reasons value with
          | error reason => rfl
          | ok normalized => exact ih _ _

theorem stringList_eq
    {normalize : Str → Except Str Str}
    {reasons : Str → Except Reason Str}
    (hNormal :
      ∀ value,
        normalize value = (reasons value).mapError Reason.text)
    (raw : Node)
    (index : Nat)
    (key : ListKey) :
    stringList raw (tokenField index) key.name normalize =
      (checkList reasons raw index key).mapError
        (Failure.text shape) := by
  unfold stringList checkList
  cases raw.get key.name.toList with
  | none => rfl
  | some node =>
      cases node with
      | str | null | other | map => rfl
      | seq items =>
          cases items with
          | nil => rfl
          | cons item items =>
              simp only
              rw [stringValues_eq hNormal]
              cases checkValues reasons index key 0 ∅
                  (item :: items) <;> rfl

theorem requiredList_eq
    {normalize : Str → Except Str Str}
    {reasons : Str → Except Reason Str}
    (hNormal :
      ∀ value,
        normalize value = (reasons value).mapError Reason.text)
    (raw : Node)
    (index : Nat)
    {key : ListKey}
    (hKey : key ≠ .allowedFromAddresses) :
    requiredList raw (tokenField index) key.name normalize =
      (checkRequired reasons raw index key).mapError
        (Failure.text shape) := by
  apply Lib.bind_eq_mapError
    (stringList_eq hNormal raw index key)
  intro loaded
  cases loaded with
  | some values => rfl
  | none =>
      cases key with
      | allowedFromAddresses => exact absurd rfl hKey
      | mailgunDomains | allowedFromDomains => rfl

theorem loadSmtp_eq
    (raw : Option Node) :
    loadSmtp raw =
      (checkSmtp raw).mapError (Failure.text shape) := by
  unfold loadSmtp checkSmtp
  cases raw with
  | none => rfl
  | some node =>
      cases node with
      | str | null | other | seq => rfl
      | map entries =>
          dsimp only
          apply Lib.bind_eq_mapError
            (@nonBlank_eq shape .username _ rfl _)
          intro username
          cases asStr ((Node.map entries).get
              "password".toList) with
          | none => rfl
          | some password =>
              apply Lib.bind_eq_mapError
                (@rejectPlaceholder_eq shape
                  .usernamePlaceholder _ rfl username)
              intro _
              apply Lib.bind_eq_mapError
                (@rejectPlaceholder_eq shape
                  .passwordPlaceholder _ rfl password)
              intro _
              rfl

/- The kind of the node is in the shape. -/
theorem hashKind_shape
    (raw : Node) :
    hashKind raw.shape = hashKind raw := by
  unfold hashKind
  rw [Node.get_shape, Option.map_map]
  congr 2
  funext node
  exact node.typeName_shape

variable [Unicode] [Idna]

theorem normalizeConfigDomain_eq
    (value : Str) :
    normalizeConfigDomain value =
      (checkDomain value).mapError Reason.text := by
  unfold normalizeConfigDomain checkDomain normalizeDomain
  by_cases hChars :
      (!(lowercase (pyStrip value)).all
        isConfigDomainChar) = true
  · rw [if_pos hChars, if_pos hChars]
    rfl
  rw [if_neg hChars, if_neg hChars]
  dsimp only
  by_cases hEmpty :
      (lowercase (pyStrip value)).isEmpty = true
  · rw [if_pos hEmpty, if_pos hEmpty]
    rfl
  rw [if_neg hEmpty, if_neg hEmpty]
  cases Idna.toAscii .verifyAllowRootDot
      (lowercase (pyStrip value)) with
  | none => rfl
  | some ascii =>
      dsimp only
      cases !(Idna.domainToUnicode ascii).2 ||
          !(Idna.domainToUnicode ascii).1.all
            isConfigDomainChar <;> rfl

theorem normalizeConfigAddress_eq
    (value : Str) :
    normalizeConfigAddress value =
      (checkAddress value).mapError Reason.text := by
  unfold normalizeConfigAddress checkAddress
  cases Lib.Text.rsplitOnce '@' (pyStrip value) with
  | none => rfl
  | some parts =>
      rcases parts with ⟨name, domain⟩
      simp only
      by_cases hEmpty : name.isEmpty = true
      · rw [if_pos hEmpty, if_pos hEmpty]
        rfl
      rw [if_neg hEmpty, if_neg hEmpty]
      by_cases hAscii : (!name.all isAsciiChar) = true
      · rw [if_pos hAscii, if_pos hAscii]
        rfl
      rw [if_neg hAscii, if_neg hAscii,
        normalizeConfigDomain_eq]
      cases checkDomain domain <;> rfl

omit [Idna] in
theorem loadHash_eq
    {raw : Node}
    {index : Nat}
    (hFound : foundKind shape index = hashKind raw) :
    loadHash raw (tokenField index) =
      (checkHash raw index).mapError (Failure.text shape) := by
  have hText :
      Failure.text shape (.hash index) =
        dotted (tokenField index) "token_sha256" ++
          " must be a quoted hex string, found ".toList ++
          hashKind raw ++ " (PLAN.md D-5)".toList := by
    rw [← hFound]
    rfl
  unfold hashKind at hText
  unfold loadHash checkHash
  cases hGet : raw.get "token_sha256".toList with
  | none =>
      rw [hGet] at hText
      exact congrArg Except.error hText.symm
  | some node =>
      rw [hGet] at hText
      cases node with
      | null | other | seq | map =>
          exact congrArg Except.error hText.symm
      | str value =>
          apply Lib.bind_eq_mapError
            (@rejectPlaceholder_eq shape
              (.hashPlaceholder index) _ rfl value)
          intro _
          dsimp only
          cases isHash (lowercase (pyStrip value)) with
          | true => rfl
          | false => rfl

theorem loadAddresses_eq
    (raw : Node)
    (index : Nat) :
    loadAddresses raw (tokenField index) =
      (checkAddresses raw index).mapError
        (Failure.text shape) := by
  unfold loadAddresses checkAddresses
  cases raw.get "allowed_from_addresses".toList with
  | none => rfl
  | some node =>
      cases node with
      | str | null | other | map => rfl
      | seq items =>
          exact
            stringList_eq normalizeConfigAddress_eq raw index
              .allowedFromAddresses

theorem loadPolicy_eq
    {raw : Node}
    {index : Nat}
    (hFound : foundKind shape index = hashKind raw) :
    loadPolicy raw (tokenField index) =
      (checkPolicy raw index).mapError
        (Failure.text shape) := by
  apply Lib.bind_eq_mapError
    (@requireMap_eq shape (.token index) _ rfl raw)
  intro _
  apply Lib.bind_eq_mapError
    (@nonBlank_eq shape (.label index) _ rfl _)
  intro label
  apply Lib.bind_eq_mapError
    (@rejectPlaceholder_eq shape (.labelPlaceholder index) _
      rfl label)
  intro _
  apply Lib.bind_eq_mapError (loadHash_eq hFound)
  intro sha
  apply Lib.bind_eq_mapError
    (@requiredList_eq shape _ _ normalizeConfigDomain_eq raw
      index .mailgunDomains nofun)
  intro mailgunDomains
  apply Lib.bind_eq_mapError
    (@requiredList_eq shape _ _ normalizeConfigDomain_eq raw
      index .allowedFromDomains nofun)
  intro allowedFromDomains
  apply Lib.bind_eq_mapError (loadAddresses_eq raw index)
  intro allowedFromAddresses
  rfl

/- The tokens from a position on. -/
theorem loadTokens_eq
    (index : Nat)
    (tokens : List TokenPolicy)
    (entries : List Node)
    (hFound :
      ∀ i entry, entries[i]? = some entry →
        foundKind shape (index + i) = hashKind entry) :
    loadTokens index tokens entries =
      (checkTokens index tokens entries).mapError
        (Failure.text shape) := by
  induction entries generalizing index tokens with
  | nil => rfl
  | cons entry entries ih =>
      have hRest :
          ∀ i entry, entries[i]? = some entry →
            foundKind shape (index + 1 + i) =
              hashKind entry := by
        intro i entry hEntry
        rw [Nat.add_assoc, Nat.add_comm 1 i]
        exact hFound (i + 1) entry hEntry
      rw [loadTokens, checkTokens]
      rw [show loadPolicy entry (indexed "tokens".toList index) =
          _ from loadPolicy_eq (hFound 0 entry rfl)]
      cases checkPolicy entry index with
      | error failure => rfl
      | ok policy =>
          simp only [Except.mapError]
          by_cases hTwice :
              (tokens.any fun t => t.label == policy.label) =
                true
          · rw [if_pos hTwice, if_pos hTwice]
            rfl
          · rw [if_neg hTwice, if_neg hTwice]
            exact ih (index + 1) (tokens ++ [policy]) hRest

/- The error is that of the check that fails. -/
theorem fromNode_eq_check
    (data : Node) :
    fromNode data =
      (check data).mapError (Failure.text data.shape) := by
  unfold fromNode check
  apply Lib.bind_eq_mapError
    (@requireMap_eq data.shape .file _ rfl data)
  intro _
  apply Lib.bind_eq_mapError (loadSmtp_eq _)
  intro smtp
  dsimp only
  cases hGet : data.get "tokens".toList with
  | none => rfl
  | some node =>
      cases node with
      | str | null | other | map => rfl
      | seq items =>
          cases items with
          | nil => rfl
          | cons item items =>
              apply @Lib.bind_eq_mapError _ _ _ _ _
                (checkTokens 0 [] (item :: items))
                (fun tokens => .ok (smtp, tokens))
                (loadTokens 0 [] (item :: items))
                (fun tokens => .ok (smtp, tokens))
              · apply loadTokens_eq
                intro i entry hEntry
                rw [Nat.zero_add, foundKind, Node.get_shape,
                  hGet]
                simp only [Option.map_some, Node.shape,
                  itemShapes_eq_map, List.getElem?_map, hEntry,
                  Option.getD_some, hashKind_shape]
              · exact fun _ => rfl

/-
  The errors of a load are made from the check that fails
  and from the shape of the document: two documents that
  differ in the contents of strings only, and fail at one
  check of one field, have one error.
-/
theorem fromNode_discloses :
    (∀ data,
      fromNode data =
        (check data).mapError (Failure.text data.shape)) ∧
    ∀ (data data' : Node) (failure : Failure),
      data.shape = data'.shape →
        check data = .error failure →
          check data' = .error failure →
            ∃ message,
              fromNode data = .error message ∧
                fromNode data' = .error message := by
  refine ⟨fromNode_eq_check, ?_⟩
  intro data data' failure hShape hCheck hCheck'
  refine ⟨failure.text data.shape, ?_, ?_⟩
  · rw [fromNode_eq_check, hCheck]
    rfl
  · rw [fromNode_eq_check, hCheck', hShape]
    rfl

end Secrets

end MailgunRelay

------------------------------------------------------------
-- An Aliased Password
------------------------------------------------------------

namespace MailgunRelay

namespace Secrets

/- A document with a value as password and as domain. -/
def aliased (value : Str) : Node :=
  .map
    [(some "smtp".toList,
      .map
        [(some "username".toList, .str "relay".toList),
          (some "password".toList, .str value)]),
    (some "tokens".toList,
      .seq
        [.map
          [(some "label".toList, .str "a".toList),
            (some "token_sha256".toList,
              .str (List.replicate 64 '0')),
            (some "mailgun_domains".toList,
              .seq [.str value])]])]

theorem aliased_shape
    (value value' : Str) :
    (aliased value).shape = (aliased value').shape :=
  rfl

theorem fromNode_discloses_aliased :
    let _ : Unicode := .ascii
    let _ : Idna := .ascii
    ∃ message,
      fromNode (aliased "hunter2_secret!".toList) =
          .error message ∧
        fromNode (aliased "another_secret!".toList) =
          .error message := by
  intro unicode idna
  apply fromNode_discloses.2 _ _
    (.value 0 .mailgunDomains 0 .outsideSupportedSet)
  · exact aliased_shape _ _
  · apply Lib.eq_error_of_errorOf
    decide +kernel
  · apply Lib.eq_error_of_errorOf
    decide +kernel

/- One shape may have several errors, one for each check. -/
theorem fromNode_not_shape :
    ¬ ∀ [Unicode] [Idna], ∃ text : Node → Str,
      ∀ data message,
        fromNode data = .error message →
          message = text data.shape := by
  intro hAll
  let _ : Unicode := .ascii
  let _ : Idna := .ascii
  rcases hAll with ⟨text, hText⟩
  have hPlaceholder :=
    hText (aliased "changeme".toList)
      "smtp.password: refuses placeholder/empty value".toList
      (Lib.eq_error_of_errorOf (by decide +kernel))
  have hDomain :=
    hText (aliased "hunter2_secret!".toList)
      ("tokens[0].mailgun_domains[0]: domain contains " ++
        "characters outside the supported set " ++
        "(PLAN.md D-10)").toList
      (Lib.eq_error_of_errorOf (by decide +kernel))
  rw [aliased_shape _ "hunter2_secret!".toList, ← hDomain]
    at hPlaceholder
  revert hPlaceholder
  decide +kernel

end Secrets

end MailgunRelay
