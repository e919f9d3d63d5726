import MailgunRelay.Form.Segments

/-
  The parameters of a part as a client writes them: quoted
  values without quotes and backslashes, after a type.  The
  parser reads each value as it was written.

  Key definitions include:
    * `MailgunRelay.Form.quotedParam`
    * `MailgunRelay.Form.withParams`
    * `MailgunRelay.Form.IsQuotable`

  Key theorems include:
    * `MailgunRelay.Form.rawSegmentsFrom_params`
    * `MailgunRelay.Form.readSegment_quoted`
    * `MailgunRelay.Form.optionsHeader_withParams`
-/

------------------------------------------------------------
-- Quoted Values
------------------------------------------------------------

namespace MailgunRelay

namespace Form

def quotedParam (key value : Str) : Str :=
  key ++ '=' :: '"' :: (value ++ ['"'])

/- A type and its parameters. -/
def withParams
    (essence : Str)
    (params : List (Str × Str)) : Str :=
  essence ++
    params.flatMap fun p => ';' :: ' ' :: quotedParam p.1 p.2

/- A value that needs no escapes. -/
def IsQuotable (value : Str) : Prop :=
  '"' ∉ value ∧ '\\' ∉ value

/- The parameters of a part. -/
def paramKeys : List Str :=
  ["name".toList, "filename".toList]

theorem escapedQuotes_eq_zero
    {text : Str}
    (hNone : '\\' ∉ text) :
    escapedQuotes text = 0 := by
  fun_induction escapedQuotes text with
  | case1 => rfl
  | case2 c => rfl
  | case3 c d rest hEscape ih =>
      rw [hEscape.1] at hNone
      exact absurd List.mem_cons_self hNone
  | case4 c d rest hOther ih =>
      exact ih fun hMem => hNone (List.mem_cons_of_mem c hMem)

/- Without escapes all quotes count. -/
theorem isBalanced_plain
    {text : Str}
    (hNone : '\\' ∉ text) :
    isBalanced text = (text.count '"' % 2 == 0) := by
  unfold isBalanced quotes
  rw [escapedQuotes_eq_zero hNone, Int.natCast_zero,
    Int.sub_zero]
  have hCast :
      (text.count '"' : Int) % 2 =
        ((text.count '"' % 2 : Nat) : Int) := by
    rw [Int.natCast_mod]
    rfl
  rw [hCast, Bool.eq_iff_iff, beq_iff_eq, beq_iff_eq]
  omega

/- A key has no character that means anything. -/
theorem key_chars
    {key : Str}
    (hKey : key ∈ paramKeys) :
    ';' ∉ key ∧ '"' ∉ key ∧ '\\' ∉ key ∧ '=' ∉ key ∧
      '*' ∉ key := by
  rcases List.mem_pair.mp hKey with rfl | rfl
  · decide
  · decide

theorem key_ascii
    {key : Str}
    (hKey : key ∈ paramKeys) :
    ∀ c ∈ key, isAsciiChar c = true := by
  have hAll :
      (paramKeys.all fun key => key.all isAsciiChar) = true := by
    decide +kernel
  exact List.all_eq_true.mp (List.all_eq_true.mp hAll key hKey)

/- A `;` in a quoted value ends no segment. -/
theorem rawSegmentsFrom_quoted
    {key value : Str}
    (hKey : key ∈ paramKeys)
    (hValue : IsQuotable value)
    (rest : Str) :
    rawSegmentsFrom [] (' ' :: quotedParam key value ++ rest) =
      rawSegmentsFrom (' ' :: quotedParam key value) rest := by
  rcases key_chars hKey with ⟨hSemi, hQuote, hSlash, -, -⟩
  apply rawSegmentsFrom_open
  intro front after hSplit
  have hParts :
      (' ' :: key ++ ['=', '"']) ++ (value ++ ['"']) =
        front ++ ';' :: after := by
    rw [← hSplit, quotedParam]
    simp
  have hHead : ';' ∉ ' ' :: key ++ ['=', '"'] := by
    simp [hSemi]
  rw [List.nil_append]
  have hFront : ∃ inside,
      front = ' ' :: key ++ ['=', '"'] ++ inside ∧
        value ++ ['"'] = inside ++ ';' :: after := by
    rcases List.append_eq_append_iff.mp hParts with
      ⟨inside, hFront, hTail⟩ | ⟨more, hMore, hTail⟩
    · exact ⟨inside, hFront, hTail⟩
    · cases more with
      | nil =>
          refine ⟨[], ?_, hTail.symm⟩
          rw [hMore, List.append_nil, List.append_nil]
      | cons c more =>
          cases hTail
          rw [hMore] at hHead
          simp at hHead
  rcases hFront with ⟨inside, rfl, hInside⟩
  have hPrefix : inside <+: value := by
    apply List.prefix_of_prefix_length_le
      (hInside ▸ List.prefix_append inside (';' :: after))
      (List.prefix_append value ['"'])
    have hLength := congrArg List.length hInside
    simp only [List.length_append, List.length_cons,
      List.length_nil] at hLength
    omega
  have hNone : '"' ∉ inside := fun hMem =>
    hValue.1 (hPrefix.subset hMem)
  have hPlain : '\\' ∉ inside := fun hMem =>
    hValue.2 (hPrefix.subset hMem)
  rw [isBalanced_plain (by simp [hSlash, hPlain])]
  simp [List.count_eq_zero_of_not_mem hNone,
    List.count_eq_zero_of_not_mem hQuote]

theorem isBalanced_quoted
    {key value : Str}
    (hKey : key ∈ paramKeys)
    (hValue : IsQuotable value) :
    isBalanced (' ' :: quotedParam key value) = true := by
  rcases key_chars hKey with ⟨-, hQuote, hSlash, -, -⟩
  unfold quotedParam
  rw [isBalanced_plain (by simp [hSlash, hValue.2])]
  simp [List.count_eq_zero_of_not_mem hValue.1,
    List.count_eq_zero_of_not_mem hQuote]

/- The segments are the type and the parameters. -/
theorem rawSegmentsFrom_params
    {current : Str}
    {params : List (Str × Str)}
    (hBalanced : isBalanced current = true)
    (hParams : ∀ p ∈ params,
      p.1 ∈ paramKeys ∧ IsQuotable p.2) :
    rawSegmentsFrom current
        (params.flatMap fun p =>
          ';' :: ' ' :: quotedParam p.1 p.2) =
      current ::
        params.map fun p => ' ' :: quotedParam p.1 p.2 := by
  induction params generalizing current with
  | nil => rfl
  | cons p params ih =>
      rcases hParams p List.mem_cons_self with ⟨hKey, hValue⟩
      rw [List.flatMap_cons, List.cons_append,
        rawSegmentsFrom_end hBalanced, rawSegments,
        rawSegmentsFrom_quoted hKey hValue,
        ih (isBalanced_quoted hKey hValue), List.map_cons]
      intro q hMem
      exact hParams q (List.mem_cons_of_mem p hMem)

end Form

end MailgunRelay

------------------------------------------------------------
-- Parameters
------------------------------------------------------------

namespace MailgunRelay

namespace Form

variable [Unicode]

/- A key and a quoted value are kept as they are. -/
theorem readSegment_quoted
    {key : Str}
    (hKey : key ∈ paramKeys)
    (value : Str) :
    readSegment (' ' :: quotedParam key value) =
      quotedParam key value := by
  have hSplit :
      Lib.Text.splitOnce '=' (' ' :: quotedParam key value) =
        some (' ' :: key, '"' :: (value ++ ['"'])) := by
    apply (Lib.Text.splitOnce_eq_some_iff _ _ _ _).mpr
    constructor
    · rfl
    · simp [(key_chars hKey).2.2.2.1]
  have hLower :
      lowercase ((' ' :: key).rdropWhile isPySpace) =
        ' ' :: key := by
    have hAscii := key_ascii hKey
    rcases List.mem_pair.mp hKey with rfl | rfl
    · rw [lowercase_of_ascii]
      · decide
      · exact List.forall_mem_cons.mpr ⟨rfl, hAscii⟩
    · rw [lowercase_of_ascii]
      · decide
      · exact List.forall_mem_cons.mpr ⟨rfl, hAscii⟩
  have hFirst (rest : Str) :
      (' ' :: (key ++ rest)).dropWhile isPySpace =
        key ++ rest := by
    rcases List.mem_pair.mp hKey with rfl | rfl
    · rfl
    · rfl
  have hQuote (rest : Str) :
      ('"' :: rest).dropWhile isPySpace = '"' :: rest := rfl
  unfold readSegment
  rw [hSplit]
  simp only
  rw [hLower, hQuote, pyStrip, List.cons_append, hFirst,
    quotedParam]
  have hConcat :
      key ++ '=' :: '"' :: (value ++ ['"']) =
        (key ++ '=' :: '"' :: value) ++ ['"'] := by
    simp
  rw [hConcat]
  apply List.rdropWhile_concat_neg
  decide

omit [Unicode] in
/- `replace` without an occurrence changes nothing. -/
theorem replacePair_of_not_mem
    {a b c : Char}
    {text : Str}
    (hNone : a ∉ text) :
    replacePair a b c text = text := by
  fun_induction replacePair a b c text with
  | case1 => rfl
  | case2 d => rfl
  | case3 d e rest hPair ih =>
      rw [hPair.1] at hNone
      exact absurd List.mem_cons_self hNone
  | case4 d e rest hOther ih =>
      rw [ih fun hMem => hNone (List.mem_cons_of_mem d hMem)]

omit [Unicode] in
/- The quotes around a value are removed. -/
theorem unquoteValue_quoted
    {value : Str}
    (hValue : IsQuotable value) :
    unquoteValue ('"' :: (value ++ ['"'])) = value := by
  unfold unquoteValue
  rw [if_pos]
  · rw [List.tail_cons, List.dropLast_concat,
      replacePair_of_not_mem hValue.2,
      replacePair_of_not_mem hValue.2]
  · refine ⟨by simp, rfl, ?_⟩
    rw [← List.cons_append, List.getLast?_append]
    rfl

/- Such parameters are read as they were written. -/
theorem optionsHeader_withParams
    {essence : Str}
    {params : List (Str × Str)}
    (hEssence : ';' ∉ essence)
    (hBalanced : isBalanced essence = true)
    (hSome : params ≠ [])
    (hParams : ∀ p ∈ params,
      p.1 ∈ paramKeys ∧ IsQuotable p.2) :
    optionsHeader (some (withParams essence params)) =
      (readSegment essence, params) := by
  rcases List.exists_cons_of_ne_nil hSome with
    ⟨first, later, rfl⟩
  have hSegments :
      rawSegments (withParams essence (first :: later)) =
        essence :: (first :: later).map fun p =>
          ' ' :: quotedParam p.1 p.2 := by
    rw [rawSegments, withParams, rawSegmentsFrom_open,
      List.nil_append, rawSegmentsFrom_params hBalanced hParams]
    intro front rest hSplit
    rw [hSplit] at hEssence
    simp at hEssence
  have hContains :
      (withParams essence (first :: later)).contains ';' =
        true := by
    simp [withParams]
  rcases
    by
    apply List.exists_cons_of_ne_nil
    simp [withParams] with
    ⟨c, rest, hText⟩ : ∃ c rest, withParams essence (first ::
      later) = c :: rest
  rw [hText] at hContains hSegments ⊢
  unfold optionsHeader
  simp only
  rw [hContains, if_neg (by decide), parseparam_eq, hSegments,
    List.map_cons, List.map_map]
  simp only [List.headD_cons, List.tail_cons, Prod.mk.injEq,
    true_and]
  rw [List.filterMap_map]
  refine
    (List.filterMap_congr (g := some) fun p hMem => ?_).trans
      List.filterMap_some
  rcases hParams p hMem with ⟨hKey, hValue⟩
  have hSplit :
      Lib.Text.splitOnce '=' (quotedParam p.1 p.2) =
        some (p.1, '"' :: (p.2 ++ ['"'])) := by
    apply (Lib.Text.splitOnce_eq_some_iff _ _ _ _).mpr
    exact ⟨rfl, (key_chars hKey).2.2.2.1⟩
  have hStar : p.1.contains '*' = false := by
    simp [(key_chars hKey).2.2.2.2]
  simp only [Function.comp_apply]
  rw [readSegment_quoted hKey, hSplit]
  simp only [Option.getD_some]
  rw [hStar, if_neg (by decide), unquoteValue_quoted hValue,
    if_neg]
  -- Without a backslash it is no path.
  rintro ⟨-, hColon | hSlashes⟩
  · apply hValue.2
    apply List.mem_of_mem_drop (i := 1)
    apply List.mem_of_mem_take (i := 2)
    rw [hColon]
    exact List.mem_cons_of_mem _ List.mem_cons_self
  · apply hValue.2
    apply (List.isPrefixOf_iff_prefix.mp hSlashes).subset
    exact List.mem_cons_self

end Form

end MailgunRelay
