import MailgunRelay.Lib.Reads
import MailgunRelay.Environment

/-
  The settings do not depend on the order of the environment
  nor on other variables.

  Key definitions include:
    * `MailgunRelay.Environment.Reads`

  Key theorems include:
    * `MailgunRelay.Environment.variants_collect`
    * `MailgunRelay.Environment.lookup_of_perm`
    * `MailgunRelay.Environment.reads_readSettings`
    * `MailgunRelay.Environment.fromEnv_canonical`
-/

------------------------------------------------------------
-- Names
------------------------------------------------------------

namespace MailgunRelay

namespace Environment

theorem lt_of_lowerByte_lt
    {b : UInt8}
    (hLower : lowerByte b < 128) :
    b < 128 := by
  unfold lowerByte at hLower
  split at hLower
  · rename_i hUpper
    simp only [Bool.and_eq_true, decide_eq_true_eq] at hUpper
    exact UInt8.lt_of_le_of_lt hUpper.2 (by decide)
  · exact hLower

/- What a byte string is equal to in any case. -/
theorem map_lowerByte
    {a b : Bytes}
    (hSame : eqIgnoreAsciiCase a b = true) :
    a.map lowerByte = b.map lowerByte :=
  beq_iff_eq.mp hSame

/- The variable names are ASCII and longer than the prefix. -/
theorem utf8_exact
    {field : String}
    (hField : field ∈ fieldNames) :
    (∀ b ∈ utf8 (exact field), lowerByte b < 128) ∧
      (utf8 lead).length < (utf8 (exact field)).length := by
  have hAll : fieldNames.all (fun field =>
      (utf8 (exact field)).all (fun b => lowerByte b < 128) &&
        decide ((utf8 lead).length <
          (utf8 (exact field)).length)) = true := by
    decide +kernel
  have hHere := List.all_eq_true.mp hAll field hField
  simpa using hHere

variable {field : String} {var : Bytes × Bytes}

/- A variable that sets a field has a name that is text. -/
theorem named_of_sets
    (hField : field ∈ fieldNames)
    (hSets : sets field var = true) :
    named var = some (latin1 var.1, var.2) := by
  have hAscii : ∀ b ∈ var.1, b < 128 := fun b hMem => by
    have hLower :
        lowerByte b ∈ (utf8 (exact field)).map lowerByte := by
      rw [← map_lowerByte hSets]
      exact List.mem_map_of_mem hMem
    rcases List.mem_map.mp hLower with ⟨b', hMem', hEq⟩
    apply lt_of_lowerByte_lt
    rw [← hEq]
    exact (utf8_exact hField).1 b' hMem'
  have hText : fromUtf8 var.1 = some (latin1 var.1) :=
    fromUtf8_eq_some_iff.mpr (utf8_latin1 hAscii).symm
  unfold named
  rw [hText]
  rfl

/- And it is one of those that are looked at. -/
theorem hasLead_of_exact
    {name : Str}
    (hField : field ∈ fieldNames)
    (hName :
      eqIgnoreAsciiCase (utf8 name) (utf8 (exact field)) =
        true) :
    hasLead name = true := by
  have hSame := map_lowerByte hName
  have hLength : (utf8 name).length =
      (utf8 (exact field)).length := by
    simpa using congrArg List.length hSame
  have hTake :
      ((utf8 name).take (utf8 lead).length).map lowerByte =
        (utf8 lead).map lowerByte := by
    rw [List.map_take, hSame, exact, utf8_append,
      ← List.map_take, List.take_left]
  unfold hasLead
  rw [hLength, Bool.and_eq_true]
  exact
    ⟨decide_eq_true (utf8_exact hField).2,
      beq_iff_eq.mpr hTake⟩

/- A named variable is a variant if it sets the field. -/
theorem variant_eq_sets
    {name : Str}
    {value : Bytes}
    (hField : field ∈ fieldNames)
    (hNamed : named var = some (name, value)) :
    (eqIgnoreAsciiCase (utf8 name) (utf8 (exact field)) &&
        hasLead name) =
      sets field var := by
  rcases Option.map_eq_some_iff.mp hNamed with
    ⟨name', hText, hPair⟩
  cases hPair
  have hBytes := fromUtf8_eq_some_iff.mp hText
  unfold sets
  rw [hBytes]
  cases hSame :
      eqIgnoreAsciiCase (utf8 name) (utf8 (exact field)) with
  | true => exact hasLead_of_exact hField hSame
  | false => rfl

/- The variants of a field are the variables that set it. -/
theorem variants_collect
    (vars : Vars)
    (hField : field ∈ fieldNames) :
    variants (collect vars) field =
      (vars.filter (sets field)).filterMap named := by
  unfold variants collect
  rw [List.filter_filter, List.filter_filterMap,
    List.filterMap_filter]
  apply List.filterMap_congr
  intro var _
  cases hNamed : named var with
  | none =>
      -- A name that is no text sets no field.
      rw [ite_self]
      rfl
  | some pair =>
      have hSets := variant_eq_sets hField hNamed
      rw [← hSets]
      rfl

/- Each of them is one variant. -/
theorem length_variants
    (vars : Vars)
    (hField : field ∈ fieldNames) :
    (variants (collect vars) field).length =
      vars.countP (sets field) := by
  have hNamed : ∀ var ∈ vars.filter (sets field),
      (named var).isSome = true := fun var hMem => by
    rw [named_of_sets hField (List.mem_filter.mp hMem).2]
    rfl
  rw [variants_collect vars hField,
    List.length_filterMap_eq_countP,
    List.countP_eq_length.mpr hNamed,
    List.countP_eq_length_filter]

end Environment

end MailgunRelay

------------------------------------------------------------
-- Lookups
------------------------------------------------------------

namespace MailgunRelay

namespace Environment

/- The order of the variants does not matter. -/
theorem lookup_of_perm
    {env env' : Env}
    {field : String}
    (hPerm :
      (variants env field).Perm (variants env' field)) :
    lookup env field = lookup env' field := by
  unfold lookup
  match hVariants : variants env field with
  | [] =>
      rw [hVariants] at hPerm
      rw [List.nil_perm.mp hPerm]
  | [found] =>
      rw [hVariants] at hPerm
      rw [List.singleton_perm.mp hPerm]
  | first :: second :: rest =>
      -- Two or more are refused without a look at them.
      have hLength := hPerm.length_eq
      rw [hVariants] at hLength
      match hOther : variants env' field with
      | [] =>
          rw [hOther] at hLength
          cases hLength
      | [found] =>
          rw [hOther] at hLength
          cases hLength
      | first' :: second' :: rest' => rfl

/- Only the variables that set a field are looked at. -/
theorem lookup_of_perm_known
    {vars vars' : Vars}
    {field : String}
    (hField : field ∈ fieldNames)
    (hPerm :
      (vars.filter isKnown).Perm (vars'.filter isKnown)) :
    lookup (collect vars) field =
      lookup (collect vars') field := by
  have hKnown : ∀ vars : Vars,
      vars.filter (sets field) =
        (vars.filter isKnown).filter (sets field) := by
    intro vars
    rw [List.filter_filter]
    apply List.filter_congr
    intro var _
    cases hSets : sets field var with
    | false => rfl
    | true =>
        have hHere : isKnown var = true :=
          List.any_eq_true.mpr ⟨field, hField, hSets⟩
        rw [hHere]
        rfl
  apply lookup_of_perm
  rw [variants_collect vars hField,
    variants_collect vars' hField, hKnown vars, hKnown vars']
  exact (hPerm.filter _).filterMap named

/- Two variables of one field are an error. -/
theorem lookup_of_twice
    {vars : Vars}
    {field : String}
    (hField : field ∈ fieldNames)
    (hTwice : 1 < vars.countP (sets field)) :
    lookup (collect vars) field =
      .error
        (exact field ++
          ": several case variants are set (PLAN.md D-7)".toList) := by
  rw [← length_variants vars hField] at hTwice
  unfold lookup
  match hVariants : variants (collect vars) field with
  | [] =>
      rw [hVariants] at hTwice
      cases hTwice
  | [found] =>
      rw [hVariants] at hTwice
      exact absurd hTwice (Nat.lt_irrefl 1)
  | first :: second :: rest => rfl

end Environment

end MailgunRelay

------------------------------------------------------------
-- Reading The Fields
------------------------------------------------------------

namespace MailgunRelay

namespace Environment

variable {T : Type}

/- A computation that reads some fields. -/
abbrev Reads
    (fields : List String)
    (m : Env → Lib.Checked Str T) : Prop :=
  Lib.Reads lookup fields m

/- A text reads its field. -/
theorem reads_str
    (field default : String) :
    Reads [field] fun env => str env field default := by
  apply (Lib.Reads.lookup field).bind
  intro found
  cases found with
  | none => exact Lib.Reads.const (.ok default.toList)
  | some pair => exact Lib.Reads.const (.ok pair.2)

/- So does a parsed value, if its default can be parsed. -/
theorem reads_parsed
    {parse : Str → Except Str T}
    (field : String)
    {default : String}
    (hDefault : (parse default.toList).isOk = true) :
    Reads [field] fun env =>
      parsed env field default parse := by
  apply (Lib.Reads.lookup field).bind
  intro found
  cases found with
  | none =>
      rcases Lib.exists_of_isOk hDefault with ⟨value, hValue⟩
      dsimp only
      rw [hValue]
      exact Lib.Reads.const (.ok value)
  | some pair => exact Lib.Reads.const _

variable [Unicode] [Idna]

/- The settings read every field, in this order. -/
theorem reads_readSettings :
    Reads fieldNames readSettings := by
  apply (reads_str "BIND_HOST" _).bind
  intro bindHost
  apply (reads_parsed "BIND_PORT" (by decide +kernel)).bind
  intro bindPort
  apply (reads_str "PUBLIC_HOST" _).bind
  intro publicHost
  apply (reads_str "SECRETS_PATH" _).bind
  intro secretsPath
  apply (reads_str "SMTP_HOST" _).bind
  intro smtpHost
  apply (reads_parsed "SMTP_PORT" (by decide +kernel)).bind
  intro smtpPort
  apply (reads_parsed "SMTP_STARTTLS" (by decide +kernel)).bind
  intro smtpStarttls
  apply (reads_parsed "SMTP_TIMEOUT_S" (by decide +kernel)).bind
  intro smtpTimeoutS
  apply (reads_str "SMTP_CA_FILE" _).bind
  intro smtpCaFile
  apply (reads_parsed "SMTP_MAX_CONCURRENCY" (by decide +kernel)).bind
  intro smtpMaxConcurrency
  apply (reads_parsed "ENVELOPE_SENDER" rfl).bind
  intro envelopeSender
  apply (reads_parsed "FAIL_ON_PARTIAL_REFUSAL" (by decide +kernel)).bind
  intro failOnPartialRefusal
  apply (reads_parsed "MAX_BODY_BYTES" (by decide +kernel)).bind
  intro maxBodyBytes
  apply (reads_parsed "MAX_ATTACHMENTS" (by decide +kernel)).bind
  intro maxAttachments
  apply (reads_parsed "MAX_ATTACHMENT_BYTES" (by decide +kernel)).bind
  intro maxAttachmentBytes
  apply (reads_parsed "MAX_RECIPIENTS" (by decide +kernel)).bind
  intro maxRecipients
  apply (reads_parsed "MAX_HEADER_VALUE_LENGTH" (by decide +kernel)).bind
  intro maxHeaderValueLength
  apply (reads_parsed "LOG_LEVEL" (by decide +kernel)).bind
  intro logLevel
  exact Lib.Reads.const (.ok _)

/- The host is checked after every field was read. -/
theorem reads_fromEnv :
    Reads fieldNames fun env =>
      readSettings env >>= checkBindHost := by
  apply reads_readSettings.bind
  intro settings
  unfold checkBindHost
  by_cases hEmpty : settings.bindHost.isEmpty = true
  · simp only [if_pos hEmpty]
    exact Lib.Reads.const (.error _)
  · simp only [if_neg hEmpty]
    exact Lib.Reads.const (.ok settings)

end Environment

end MailgunRelay

------------------------------------------------------------
-- The Settings
------------------------------------------------------------

namespace MailgunRelay

namespace Environment

variable [Unicode] [Idna]

/- The variables of the fields decide, in any order. -/
theorem fromEnv_of_perm_known
    {vars vars' : Vars}
    (hPerm :
      (vars.filter isKnown).Perm (vars'.filter isKnown)) :
    fromEnv vars = fromEnv vars' :=
  reads_fromEnv.same (collect vars) (collect vars')
    fun _ hField => lookup_of_perm_known hField hPerm

/-
  The result, its error text included, does not depend on
  the order of the variables, nor on variables that set no
  field; two variables that set one field are an error.
-/
theorem fromEnv_canonical :
    (∀ vars vars' : Vars, vars.Perm vars' →
      fromEnv vars = fromEnv vars') ∧
    (∀ vars vars' : Vars,
      vars.filter isKnown = vars'.filter isKnown →
        fromEnv vars = fromEnv vars') ∧
    (∀ (vars : Vars), ∀ field ∈ fieldNames,
      1 < vars.countP (sets field) →
        ∃ text, fromEnv vars = .error (.error text)) := by
  refine ⟨?_, ?_, ?_⟩
  · intro vars vars' hPerm
    exact fromEnv_of_perm_known (hPerm.filter isKnown)
  · intro vars vars' hSame
    apply fromEnv_of_perm_known
    rw [hSame]
  · intro vars field hField hTwice
    exact reads_fromEnv.fails hField
      (lookup_of_twice hField hTwice)

end Environment

end MailgunRelay

------------------------------------------------------------
-- An Environment
------------------------------------------------------------

namespace MailgunRelay

namespace Environment

/- A name in lower case counts, but not next to another. -/
example :
    let _ : Unicode := .ascii
    let _ : Idna := .ascii
    let lower :=
      (utf8 "mailgun_relay_smtp_port".toList,
        utf8 "25".toList)
    let upper :=
      (utf8 "MAILGUN_RELAY_SMTP_PORT".toList,
        utf8 "25".toList)
    (fromEnv [(utf8 "PATH".toList, [0xff]), lower]).toOption.map
        Settings.smtpPort =
      some 25 ∧
    (fromEnv [lower, upper]).toOption.map
        Settings.smtpPort =
      none := by
  decide +kernel

end Environment

end MailgunRelay
