import Mathlib.Tactic.Ring
import MailgunRelay.Environment.Values
import MailgunRelay.Lib.Checked
import MailgunRelay.Lib.Result

/-
  The integers of the settings: what a text denotes is said
  by a grammar, digit by digit with its place value.  The
  parser accepts just the texts of this grammar that denote
  an `i64`, and none of its own numbers overflows.

  Key definitions include:
    * `MailgunRelay.Environment.Digits`
    * `MailgunRelay.Environment.Denotes`
    * `MailgunRelay.Environment.Spells`
    * `MailgunRelay.Environment.checkedParseInt`

  Key theorems include:
    * `MailgunRelay.Environment.wellFormed_iff`
    * `MailgunRelay.Environment.parseIntStrict_eq_ok_iff`
    * `MailgunRelay.Environment.checkedParseInt_eq`
    * `MailgunRelay.Environment.parseInt_denotes`
-/

------------------------------------------------------------
-- The Grammar Of Integers
------------------------------------------------------------

namespace MailgunRelay

namespace Environment

/- The value of one digit. -/
def digit (c : Char) : Nat :=
  c.toNat - 48

/-
  `D (_? D)*`: how many digits there are, and the number
  they stand for.
-/
inductive Digits : Str → Nat → Nat → Prop where
  | one
      {d : Char}
      (hDigit : d.isDigit = true) :
      Digits [d] 1 (digit d)
  | next
      {d : Char}
      {rest : Str}
      {places n : Nat}
      (hDigit : d.isDigit = true)
      (hRest : Digits rest places n) :
      Digits (d :: rest) (places + 1)
        (digit d * 10 ^ places + n)
  | score
      {d : Char}
      {rest : Str}
      {places n : Nat}
      (hDigit : d.isDigit = true)
      (hRest : Digits rest places n) :
      Digits (d :: '_' :: rest) (places + 1)
        (digit d * 10 ^ places + n)

/- `[+-]? D (_? D)*`. -/
inductive Denotes : Str → Int → Prop where
  | plain
      {text : Str}
      {places n : Nat}
      (hDigits : Digits text places n) :
      Denotes text n
  | plus
      {text : Str}
      {places n : Nat}
      (hDigits : Digits text places n) :
      Denotes ('+' :: text) n
  | minus
      {text : Str}
      {places n : Nat}
      (hDigits : Digits text places n) :
      Denotes ('-' :: text) (-n)

/- An integer, or one with a point and zeros after it. -/
inductive Spells : Str → Int → Prop where
  | whole
      {text : Str}
      {n : Int}
      (hText : Denotes text n) :
      Spells text n
  | point
      {text zeros : Str}
      {n : Int}
      (hText : Denotes text n)
      (hSome : zeros ≠ [])
      (hZeros : ∀ c ∈ zeros, c = '0') :
      Spells (text ++ '.' :: zeros) n

end Environment

end MailgunRelay

------------------------------------------------------------
-- Groups Of Digits
------------------------------------------------------------

namespace MailgunRelay

namespace Environment

/- The groups between underscores are digits. -/
def wellFormed (digits : Str) : Bool :=
  (digits.splitOn '_').all fun group =>
    !group.isEmpty && group.all Char.isDigit

theorem ne_score_of_isDigit
    {d : Char}
    (hDigit : d.isDigit = true) :
    d ≠ '_' := by
  rintro rfl
  cases hDigit

/- The first digit is in the first group. -/
theorem splitOn_digit
    {d : Char}
    (hDigit : d.isDigit = true)
    (rest : Str) :
    (d :: rest).splitOn '_' =
      (rest.splitOn '_').modifyHead (d :: ·) := by
  rw [List.splitOn_cons_eq_if_modifyHead,
    if_neg (by simpa using ne_score_of_isDigit hDigit)]

theorem splitOn_score
    (rest : Str) :
    ('_' :: rest).splitOn '_' = [] :: rest.splitOn '_' := by
  rw [List.splitOn_cons_eq_if_modifyHead, if_pos (by rfl)]

theorem wellFormed_of_digits
    {text : Str}
    {places n : Nat}
    (hDigits : Digits text places n) :
    wellFormed text = true := by
  unfold wellFormed
  induction hDigits with
  | one hDigit =>
      rw [splitOn_digit hDigit, List.splitOn_nil]
      simp [hDigit]
  | @next d rest places n hDigit hRest ih =>
      rcases
        List.exists_cons_of_ne_nil (List.splitOn_ne_nil '_' rest)
        with ⟨first, others, hSplit⟩
      rw [hSplit] at ih
      rw [splitOn_digit hDigit, hSplit]
      simp only [List.modifyHead_cons, List.all_cons,
        Bool.and_eq_true] at ih ⊢
      exact ⟨⟨rfl, hDigit, ih.1.2⟩, ih.2⟩
  | @score d rest places n hDigit hRest ih =>
      rw [splitOn_digit hDigit, splitOn_score]
      simp only [List.modifyHead_cons, List.all_cons,
        Bool.and_eq_true]
      exact ⟨⟨rfl, hDigit, rfl⟩, ih⟩

/- The first group starts with a digit. -/
theorem isDigit_of_wellFormed
    {d : Char}
    {rest : Str}
    (hGroups : wellFormed (d :: rest) = true) :
    d.isDigit = true := by
  unfold wellFormed at hGroups
  rcases
    List.exists_cons_of_ne_nil (List.splitOn_ne_nil '_' rest) with
    ⟨first, others, hSplit⟩
  by_cases hScore : d = '_'
  · rw [hScore, splitOn_score, List.all_cons] at hGroups
    cases hGroups
  · rw [List.splitOn_cons_eq_if_modifyHead,
      if_neg (by simpa using hScore), hSplit] at hGroups
    simp only [List.modifyHead_cons, List.all_cons,
      Bool.and_eq_true] at hGroups
    exact hGroups.1.2.1

/- After a digit stands nothing, a score or a digit. -/
theorem wellFormed_tail
    {d c : Char}
    {rest : Str}
    (hGroups : wellFormed (d :: c :: rest) = true) :
    (c = '_' ∧ wellFormed rest = true) ∨
      wellFormed (c :: rest) = true := by
  have hDigit := isDigit_of_wellFormed hGroups
  unfold wellFormed at hGroups ⊢
  rw [splitOn_digit hDigit] at hGroups
  by_cases hScore : c = '_'
  · rw [hScore, splitOn_score] at hGroups
    simp only [List.modifyHead_cons, List.all_cons,
      Bool.and_eq_true] at hGroups
    exact .inl ⟨hScore, hGroups.2⟩
  · right
    rw [List.splitOn_cons_eq_if_modifyHead,
      if_neg (by simpa using hScore)] at hGroups ⊢
    rcases
      List.exists_cons_of_ne_nil (List.splitOn_ne_nil '_' rest)
      with ⟨first, others, hSplit⟩
    rw [hSplit] at hGroups ⊢
    simp only [List.modifyHead_cons, List.all_cons,
      Bool.and_eq_true] at hGroups ⊢
    exact ⟨⟨rfl, hGroups.1.2.2⟩, hGroups.2⟩

/- Groups of digits are a text of the grammar. -/
theorem digits_of_wellFormed
    {text : Str}
    (hGroups : wellFormed text = true) :
    ∃ places n, Digits text places n := by
  induction hLength : text.length using Nat.strong_induction_on
    generalizing text with
  | _ length ih =>
      subst hLength
      rcases text with _ | ⟨d, _ | ⟨c, rest⟩⟩
      · cases hGroups
      · exact ⟨1, _, .one (isDigit_of_wellFormed hGroups)⟩
      · have hDigit := isDigit_of_wellFormed hGroups
        rcases wellFormed_tail hGroups with
          ⟨rfl, hRest⟩ | hRest
        · rcases
            ih rest.length
              (by simp only [List.length_cons]; omega) hRest rfl
            with ⟨places, n, hDigits⟩
          exact ⟨_, _, .score hDigit hDigits⟩
        · rcases ih (c :: rest).length (by simp) hRest rfl with
            ⟨places, n, hDigits⟩
          exact ⟨_, _, .next hDigit hDigits⟩

/- Digits in groups are what the grammar of digits has. -/
theorem wellFormed_iff
    (text : Str) :
    wellFormed text = true ↔ ∃ places n, Digits text places n :=
  ⟨digits_of_wellFormed,
    fun ⟨_, _, hDigits⟩ => wellFormed_of_digits hDigits⟩

end Environment

end MailgunRelay

------------------------------------------------------------
-- The Value Of Digits
------------------------------------------------------------

namespace MailgunRelay

namespace Environment

theorem foldl_digits
    (digits : Str)
    (n : Nat) :
    digits.foldl (fun n c => 10 * n + (c.toNat - 48)) n =
      n * 10 ^ digits.length + digitsValue digits := by
  unfold digitsValue
  induction digits generalizing n with
  | nil => simp
  | cons d rest ih =>
      rw [List.foldl_cons, List.foldl_cons, ih, ih (10 * 0 + _),
        List.length_cons, Nat.pow_succ]
      ring

/- A digit counts as often as its place says. -/
theorem digitsValue_cons
    (d : Char)
    (rest : Str) :
    digitsValue (d :: rest) =
      digit d * 10 ^ rest.length + digitsValue rest := by
  have hFold := foldl_digits rest (10 * 0 + (d.toNat - 48))
  unfold digitsValue at hFold ⊢
  rw [List.foldl_cons, hFold]
  unfold digit
  simp

/- Without underscores the digits are read as a number. -/
theorem digitsValue_of_digits
    {text : Str}
    {places n : Nat}
    (hDigits : Digits text places n) :
    digitsValue (text.filter fun c => c != '_') = n ∧
      (text.filter fun c => c != '_').length = places ∧
      ∀ c ∈ text.filter fun c => c != '_',
        c.isDigit = true := by
  induction hDigits with
  | @one d hDigit =>
      have hKeep : (d != '_') = true := by
        simpa using ne_score_of_isDigit hDigit
      rw [List.filter_cons_of_pos (by exact hKeep),
        List.filter_nil]
      refine ⟨?_, rfl, ?_⟩
      · rw [digitsValue_cons]
        simp [digitsValue]
      · intro c hMem
        rw [List.mem_singleton.mp hMem]
        exact hDigit
  | @next d rest places n hDigit hRest ih =>
      have hKeep : (d != '_') = true := by
        simpa using ne_score_of_isDigit hDigit
      rcases ih with ⟨hValue, hLength, hAll⟩
      rw [List.filter_cons_of_pos (by exact hKeep),
        digitsValue_cons, hValue, hLength, List.length_cons,
        hLength]
      refine ⟨rfl, rfl, ?_⟩
      intro c hMem
      rcases List.mem_cons.mp hMem with rfl | hMem
      · exact hDigit
      · exact hAll c hMem
  | @score d rest places n hDigit hRest ih =>
      have hKeep : (d != '_') = true := by
        simpa using ne_score_of_isDigit hDigit
      rcases ih with ⟨hValue, hLength, hAll⟩
      rw [List.filter_cons_of_pos (by exact hKeep),
        List.filter_cons_of_neg (by decide),
        digitsValue_cons, hValue, hLength, List.length_cons,
        hLength]
      refine ⟨rfl, rfl, ?_⟩
      intro c hMem
      rcases List.mem_cons.mp hMem with rfl | hMem
      · exact hDigit
      · exact hAll c hMem

theorem digit_lt
    {d : Char}
    (hDigit : d.isDigit = true) :
    digit d < 10 := by
  have hBounds := Char.isDigit_iff_toNat.mp hDigit
  have hNine : '9'.toNat = 57 := rfl
  unfold digit
  omega

theorem digitsValue_lt
    {digits : Str}
    (hDigits : ∀ c ∈ digits, c.isDigit = true) :
    digitsValue digits < 10 ^ digits.length := by
  induction digits with
  | nil => decide
  | cons d rest ih =>
      have hFirst := digit_lt (hDigits d List.mem_cons_self)
      have hRest := ih fun c hMem =>
        hDigits c (List.mem_cons_of_mem d hMem)
      rw [digitsValue_cons, List.length_cons, Nat.pow_succ]
      calc digit d * 10 ^ rest.length + digitsValue rest
          < digit d * 10 ^ rest.length + 10 ^ rest.length :=
            Nat.add_lt_add_left hRest _
        _ = (digit d + 1) * 10 ^ rest.length := by ring
        _ ≤ 10 * 10 ^ rest.length :=
            Nat.mul_le_mul_right _ hFirst
        _ = 10 ^ rest.length * 10 := Nat.mul_comm _ _

/- Leading zeros do not count. -/
theorem digitsValue_dropZeros
    (digits : Str) :
    digitsValue (digits.dropWhile fun c => c == '0') =
      digitsValue digits := by
  induction digits with
  | nil => rfl
  | cons d rest ih =>
      rw [List.dropWhile_cons]
      split
      · rename_i hZero
        rw [beq_iff_eq] at hZero
        rw [ih, digitsValue_cons, hZero]
        simp [digit]
      · rfl

/- With more than 19 digits a number is beyond every bound. -/
theorem le_digitsValue
    {digits : Str}
    (hDigits : ∀ c ∈ digits, c.isDigit = true)
    (hLong : 19 <
      (digits.dropWhile fun c => c == '0').length) :
    10 ^ 19 ≤ digitsValue digits := by
  rw [← digitsValue_dropZeros]
  have hSub : ∀ c ∈ digits.dropWhile (fun c => c == '0'),
      c.isDigit = true := fun c hMem =>
    hDigits c ((List.dropWhile_sublist _).mem hMem)
  have hHead := List.head?_dropWhile_not (fun c => c == '0')
    digits
  cases hSplit : digits.dropWhile (fun c => c == '0') with
  | nil =>
      rw [hSplit] at hLong
      exact absurd hLong (by decide)
  | cons d rest =>
      rw [hSplit] at hLong hSub hHead
      have hFirst : 1 ≤ digit d := by
        have hBounds := Char.isDigit_iff_toNat.mp
          (hSub d List.mem_cons_self)
        have hNot : d.toNat ≠ 48 := by
          intro hZero
          have hChar := Char.ofNat_toNat d
          rw [hZero] at hChar
          rw [← hChar] at hHead
          cases hHead
        have hZero : '0'.toNat = 48 := rfl
        unfold digit
        omega
      rw [digitsValue_cons]
      calc 10 ^ 19
          ≤ 10 ^ rest.length :=
            Nat.pow_le_pow_right (by decide)
              (Nat.le_of_lt_succ hLong)
        _ ≤ digit d * 10 ^ rest.length :=
            Nat.le_mul_of_pos_left _ hFirst
        _ ≤ digit d * 10 ^ rest.length + digitsValue rest :=
            Nat.le_add_right _ _

end Environment

end MailgunRelay

------------------------------------------------------------
-- Signed Integers
------------------------------------------------------------

namespace MailgunRelay

namespace Environment

theorem splitSign_of_digits
    {text : Str}
    {places n : Nat}
    (hDigits : Digits text places n) :
    splitSign text = (false, text) := by
  have hFirst : ∃ d rest, text = d :: rest ∧
      d.isDigit = true := by
    cases hDigits with
    | one hDigit => exact ⟨_, _, rfl, hDigit⟩
    | next hDigit hRest => exact ⟨_, _, rfl, hDigit⟩
    | score hDigit hRest => exact ⟨_, _, rfl, hDigit⟩
  rcases hFirst with ⟨d, rest, rfl, hDigit⟩
  unfold splitSign
  split
  · rename_i hMinus
    cases hMinus
    cases hDigit
  · rename_i hPlus
    cases hPlus
    cases hDigit
  · rfl

/- A sign and digits. -/
theorem denotes_iff
    {text : Str}
    {m : Int} :
    Denotes text m ↔
      ∃ places n : Nat, Digits (splitSign text).2 places n ∧
        m = if (splitSign text).1 = true then -(n : Int) else n := by
  constructor
  · intro hText
    cases hText with
    | plain hDigits =>
        rw [splitSign_of_digits hDigits]
        exact ⟨_, _, hDigits, rfl⟩
    | plus hDigits => exact ⟨_, _, hDigits, rfl⟩
    | minus hDigits => exact ⟨_, _, hDigits, rfl⟩
  · rintro ⟨places, n, hDigits, rfl⟩
    unfold splitSign at hDigits ⊢
    split at hDigits
    · exact .minus hDigits
    · exact .plus hDigits
    · exact .plain hDigits

/- A text denotes one number only. -/
theorem denotes_unique
    {text : Str}
    {m n : Int}
    (hM : Denotes text m)
    (hN : Denotes text n) :
    m = n := by
  rcases denotes_iff.mp hM with ⟨_, a, hA, rfl⟩
  rcases denotes_iff.mp hN with ⟨_, b, hB, rfl⟩
  rw [← (digitsValue_of_digits hA).1,
    ← (digitsValue_of_digits hB).1]

/- An empty text has an empty group. -/
theorem wellFormed_eq
    (digits : Str) :
    (!digits.isEmpty &&
        (digits.splitOn '_').all fun group =>
          !group.isEmpty && group.all Char.isDigit) =
      wellFormed digits := by
  cases digits with
  | nil => rfl
  | cons d rest => rfl

/- What the strict parser does with an integer. -/
theorem parseIntStrict_of_denotes
    {value : Str}
    {m : Int}
    (hText : Denotes (trim value) m) :
    parseIntStrict value =
      match toI64 m with
      | some n => .ok n
      | none =>
          .error "integer out of range (PLAN.md D-18)".toList := by
  rcases denotes_iff.mp hText with ⟨places, n, hDigits, hM⟩
  rcases digitsValue_of_digits hDigits with ⟨hValue, -, hAll⟩
  unfold parseIntStrict
  dsimp only
  rw [wellFormed_eq,
    (wellFormed_iff _).mpr ⟨places, n, hDigits⟩,
    if_neg (by decide)]
  by_cases hLong : 19 <
      (((splitSign (trim value)).2.filter fun c =>
        c != '_').dropWhile fun c => c == '0').length
  · have hBound := le_digitsValue hAll hLong
    rw [hValue] at hBound
    have hNone : toI64 m = none := by
      apply dif_neg
      rw [hM]
      split
      · omega
      · omega
    rw [if_pos hLong, hNone]
  · rw [if_neg hLong]
    cases hRange : toI64 m with
    | none => rw [digitsValue_dropZeros, hValue, ← hM, hRange]
    | some n => rw [digitsValue_dropZeros, hValue, ← hM, hRange]

/- And with anything else. -/
theorem parseIntStrict_of_not_denotes
    {value : Str}
    (hText : ∀ m, ¬ Denotes (trim value) m) :
    parseIntStrict value =
      .error "not a valid integer".toList := by
  have hNot : wellFormed (splitSign (trim value)).2 = false := by
    rw [← Bool.not_eq_true]
    intro hGroups
    rcases (wellFormed_iff _).mp hGroups with
      ⟨places, n, hDigits⟩
    exact hText _ (denotes_iff.mpr ⟨places, n, hDigits, rfl⟩)
  unfold parseIntStrict
  dsimp only
  rw [wellFormed_eq, hNot, if_pos (by decide)]

theorem toI64_eq_some_iff
    {m : Int}
    {n : I64} :
    toI64 m = some n ↔ n.val = m := by
  unfold toI64
  split
  · rename_i hRange
    constructor
    · intro hSome
      cases hSome
      rfl
    · intro hValue
      subst hValue
      rfl
  · rename_i hRange
    constructor
    · intro hSome
      cases hSome
    · intro hValue
      rw [← hValue] at hRange
      exact absurd n.property hRange

theorem parseIntStrict_eq_ok_iff
    {value : Str}
    {n : I64} :
    parseIntStrict value = .ok n ↔
      Denotes (trim value) n.val := by
  constructor
  · intro hOk
    by_cases hText : ∃ m, Denotes (trim value) m
    · rcases hText with ⟨m, hText⟩
      rw [parseIntStrict_of_denotes hText] at hOk
      cases hRange : toI64 m with
      | none =>
          rw [hRange] at hOk
          cases hOk
      | some k =>
          rw [hRange] at hOk
          cases hOk
          rw [toI64_eq_some_iff.mp hRange]
          exact hText
    · rw [parseIntStrict_of_not_denotes fun m hM =>
        hText ⟨m, hM⟩] at hOk
      cases hOk
  · intro hText
    rw [parseIntStrict_of_denotes hText,
      toI64_eq_some_iff.mpr rfl]

end Environment

end MailgunRelay

------------------------------------------------------------
-- Zeros After A Point
------------------------------------------------------------

namespace MailgunRelay

namespace Environment

/- No character of an integer is a space or a point. -/
theorem char_of_digits
    {text : Str}
    {places n : Nat}
    (hDigits : Digits text places n) :
    ∀ c ∈ text, c.isDigit = true ∨ c = '_' := by
  induction hDigits with
  | one hDigit =>
      intro c hMem
      rw [List.mem_singleton.mp hMem]
      exact .inl hDigit
  | next hDigit hRest ih =>
      intro c hMem
      rcases List.mem_cons.mp hMem with rfl | hMem
      · exact .inl hDigit
      · exact ih c hMem
  | score hDigit hRest ih =>
      intro c hMem
      rcases List.mem_cons.mp hMem with rfl | hMem
      · exact .inl hDigit
      · rcases List.mem_cons.mp hMem with rfl | hMem
        · exact .inr rfl
        · exact ih c hMem

theorem char_of_denotes
    {text : Str}
    {m : Int}
    (hText : Denotes text m) :
    ∀ c ∈ text, isWhitespace c = false ∧ c ≠ '.' := by
  have hChar (c : Char)
      (hC : c.isDigit = true ∨ c = '_') :
      isWhitespace c = false ∧ c ≠ '.' := by
    rcases hC with hDigit | rfl
    · have hBounds := Char.isDigit_iff_toNat.mp hDigit
      have hZero : '0'.toNat = 48 := rfl
      have hNine : '9'.toNat = 57 := rfl
      constructor
      · unfold isWhitespace
        simp
        omega
      · rintro rfl
        cases hDigit
    · decide
  intro c hMem
  cases hText with
  | plain hDigits => exact hChar c (char_of_digits hDigits c hMem)
  | plus hDigits =>
      rcases List.mem_cons.mp hMem with rfl | hMem
      · decide
      · exact hChar c (char_of_digits hDigits c hMem)
  | minus hDigits =>
      rcases List.mem_cons.mp hMem with rfl | hMem
      · decide
      · exact hChar c (char_of_digits hDigits c hMem)

theorem trim_eq_self
    {text : Str}
    (hText : ∀ c ∈ text, isWhitespace c = false) :
    trim text = text := by
  unfold trim
  rw [List.dropWhile_eq_self_iff.mpr,
    List.rdropWhile_eq_self_iff.mpr]
  · intro hNil
    rw [hText _ (List.getLast_mem hNil)]
    decide
  · intro hLength
    rw [hText _ (List.getElem_mem hLength)]
    decide

/- A text with a point is no integer without one. -/
theorem not_denotes_point
    {text zeros : Str}
    {m : Int} :
    ¬ Denotes (text ++ '.' :: zeros) m := by
  intro hText
  exact (char_of_denotes hText '.' (by simp)).2 rfl

/- What stands before the last point and its zeros. -/
theorem spells_point_iff
    {text zeros : Str}
    {m : Int}
    (hPoint : '.' ∉ zeros) :
    Spells (text ++ '.' :: zeros) m ↔
      Denotes text m ∧ zeros ≠ [] ∧ ∀ c ∈ zeros, c = '0' := by
  constructor
  · intro hSpells
    generalize hWhole : text ++ '.' :: zeros = whole at hSpells
    cases hSpells with
    | whole hText =>
        rw [← hWhole] at hText
        exact absurd hText not_denotes_point
    | @point text' zeros' n hText hSome hZeros =>
        have hNone : '.' ∉ zeros' := by
          intro hMem
          cases hZeros '.' hMem
        have hLeft := (Lib.Text.rsplitOnce_eq_some_iff '.'
          (text ++ '.' :: zeros) text zeros).mpr ⟨rfl, hPoint⟩
        have hRight := (Lib.Text.rsplitOnce_eq_some_iff '.'
          (text ++ '.' :: zeros) text' zeros').mpr
            ⟨hWhole, hNone⟩
        rw [hLeft] at hRight
        cases hRight
        exact ⟨hText, hSome, hZeros⟩
  · rintro ⟨hText, hSome, hZeros⟩
    exact .point hText hSome hZeros

theorem spells_of_not_mem
    {text : Str}
    {m : Int}
    (hPoint : '.' ∉ text) :
    Spells text m ↔ Denotes text m := by
  constructor
  · intro hSpells
    cases hSpells with
    | whole hText => exact hText
    | point hText hSome hZeros => simp at hPoint
  · exact .whole

theorem spells_unique
    {text : Str}
    {m n : Int}
    (hM : Spells text m)
    (hN : Spells text n) :
    m = n := by
  cases hSplit : Lib.Text.rsplitOnce '.' text with
  | none =>
      have hPoint :=
        (Lib.Text.rsplitOnce_eq_none_iff '.' text).mp hSplit
      exact denotes_unique ((spells_of_not_mem hPoint).mp hM)
        ((spells_of_not_mem hPoint).mp hN)
  | some p =>
      rcases
        (Lib.Text.rsplitOnce_eq_some_iff '.' text p.1 p.2).mp
          hSplit with
        ⟨rfl, hPoint⟩
      exact denotes_unique ((spells_point_iff hPoint).mp hM).1
        ((spells_point_iff hPoint).mp hN).1

/- The parser accepts what the grammar says, in 64 bits. -/
theorem parseInt_eq_ok_iff
    {value : Str}
    {n : I64} :
    parseInt value = .ok n ↔ Spells (trim value) n.val := by
  unfold parseInt
  cases hStrict : parseIntStrict value with
  | ok k =>
      have hText := parseIntStrict_eq_ok_iff.mp hStrict
      constructor
      · intro hOk
        cases hOk
        exact .whole hText
      · intro hSpells
        have hValue := spells_unique (.whole hText) hSpells
        exact congrArg Except.ok (Subtype.ext hValue)
  | error reason =>
      have hNot : ¬ Denotes (trim value) n.val := by
        intro hText
        rw [parseIntStrict_eq_ok_iff.mpr hText] at hStrict
        cases hStrict
      dsimp only
      cases hSplit : Lib.Text.rsplitOnce '.' (trim value) with
      | none =>
          have hPoint :=
            (Lib.Text.rsplitOnce_eq_none_iff '.' _).mp hSplit
          rw [spells_of_not_mem hPoint]
          constructor
          · intro hOk
            cases hOk
          · intro hText
            exact absurd hText hNot
      | some p =>
          rcases p with ⟨int, zeros⟩
          rcases
            (Lib.Text.rsplitOnce_eq_some_iff ..).mp hSplit with
            ⟨hText, hPoint⟩
          rw [hText, spells_point_iff hPoint]
          dsimp only
          split
          · rename_i hForm
            simp only [Bool.and_eq_true, Bool.not_eq_true',
              List.isEmpty_eq_false_iff, List.all_eq_true,
              beq_iff_eq] at hForm
            rw [parseIntStrict_eq_ok_iff, hForm.2]
            constructor
            · intro hInt
              exact ⟨hInt, hForm.1.1, hForm.1.2⟩
            · intro hAll
              exact hAll.1
          · rename_i hForm
            constructor
            · intro hOk
              cases hOk
            · rintro ⟨hInt, hSome, hZeros⟩
              have hTrim := trim_eq_self fun c hMem =>
                (char_of_denotes hInt c hMem).1
              apply absurd _ hForm
              simp only [Bool.and_eq_true, Bool.not_eq_true',
                List.isEmpty_eq_false_iff, List.all_eq_true,
                beq_iff_eq]
              exact ⟨⟨hSome, hZeros⟩, hTrim⟩

end Environment

end MailgunRelay

------------------------------------------------------------
-- Numbers Of 128 Bits
------------------------------------------------------------

namespace MailgunRelay

namespace Environment

open Lib (Checked)

variable {ε : Type}

/- A result of type `i128`. -/
def i128 (n : Int) : Checked ε Int :=
  if -2 ^ 127 ≤ n ∧ n < 2 ^ 127 then
    .ok n
  else
    .error .panics

/-
  `i128::from_str` of digits, after those of `n`; the empty
  text, which is no number, stands for zero.
-/
def i128Digits : Str → Int → Checked ε Int
| [], n => .ok n
| c :: rest, n => do
    let n ← i128 (n * 10)
    let n ← i128 (n + digit c)
    i128Digits rest n

/- `parseIntStrict`, where an overflow is a fault. -/
def checkedParseIntStrict (value : Str) : Checked Str I64 :=
  let (negative, digits) := splitSign (trim value)
  let wellFormed :=
    !digits.isEmpty &&
      (digits.splitOn '_').all fun group =>
        !group.isEmpty && group.all Char.isDigit
  if !wellFormed then
    .error (.error "not a valid integer".toList)
  else
    let digits := digits.filter fun c => c != '_'
    let significant := digits.dropWhile fun c => c == '0'
    if 19 < significant.length then
      .error (.error
        "integer out of range (PLAN.md D-18)".toList)
    else do
      let magnitude ← i128Digits significant 0
      let signed ←
        i128 (if negative then -magnitude else magnitude)
      match toI64 signed with
      | some n => .ok n
      | none =>
          .error (.error
            "integer out of range (PLAN.md D-18)".toList)

/- `parseInt`, where an overflow is a fault. -/
def checkedParseInt (value : Str) : Checked Str I64 :=
  match checkedParseIntStrict value with
  | .error (.error reason) =>
      match Lib.Text.rsplitOnce '.' (trim value) with
      | some (int, zeros) =>
          if !zeros.isEmpty && zeros.all (fun c => c == '0') &&
              trim int == int then
            checkedParseIntStrict int
          else
            .error (.error reason)
      | none => .error (.error reason)
  | result => result

/- Nineteen digits fit. -/
theorem i128Digits_eq
    {digits : Str}
    (hDigits : ∀ c ∈ digits, c.isDigit = true)
    {n k : Nat}
    (hLess : n < 10 ^ k)
    (hFits : k + digits.length ≤ 19) :
    (i128Digits digits n : Checked ε Int) =
      .ok ((n * 10 ^ digits.length + digitsValue digits : Nat) :
        Int) := by
  induction digits generalizing n k with
  | nil => simp [i128Digits, digitsValue]
  | cons d rest ih =>
      have hDigit := digit_lt (hDigits d List.mem_cons_self)
      have hNext : n * 10 + digit d < 10 ^ (k + 1) := by
        rw [Nat.pow_succ]
        omega
      have hPower : 10 ^ (k + 1) ≤ 10 ^ 19 :=
        Nat.pow_le_pow_right (by decide) (by
          rw [List.length_cons] at hFits
          omega)
      have hTimes :
          (i128 ((n : Int) * 10) : Checked ε Int) =
            .ok ((n * 10 : Nat) : Int) := by
        rw [i128, if_pos (by omega)]
        rfl
      have hPlus :
          (i128 (((n * 10 : Nat) : Int) + digit d) :
              Checked ε Int) =
            .ok ((n * 10 + digit d : Nat) : Int) := by
        rw [i128, if_pos (by omega)]
        rfl
      have hValue :
          (n * 10 + digit d) * 10 ^ rest.length +
              digitsValue rest =
            n * 10 ^ (d :: rest).length +
              digitsValue (d :: rest) := by
        rw [digitsValue_cons, List.length_cons, Nat.pow_succ]
        ring
      rw [i128Digits, hTimes, Lib.ok_bind, hPlus, Lib.ok_bind,
        ih (fun c hMem => hDigits c (List.mem_cons_of_mem d hMem))
          hNext (by rw [List.length_cons] at hFits; omega),
        hValue]

/- The strict parser has no overflow. -/
theorem checkedParseIntStrict_eq
    (value : Str) :
    checkedParseIntStrict value =
      Checked.lift (parseIntStrict value) := by
  unfold checkedParseIntStrict parseIntStrict
  dsimp only
  generalize splitSign (trim value) = signed
  rcases signed with ⟨negative, digits⟩
  dsimp only
  rw [wellFormed_eq]
  cases hGroups : wellFormed digits with
  | false => rfl
  | true =>
      rcases (wellFormed_iff _).mp hGroups with
        ⟨places, n, hDigits⟩
      rcases digitsValue_of_digits hDigits with ⟨-, -, hAll⟩
      have hNot : ¬ (!true) = true := by
        decide
      rw [if_neg hNot, if_neg hNot]
      generalize digits.filter (fun c => c != '_') = plain at hAll
      have hSub : ∀ c ∈ plain.dropWhile (fun c => c == '0'),
          c.isDigit = true := fun c hMem =>
        hAll c ((List.dropWhile_sublist _).mem hMem)
      generalize plain.dropWhile (fun c => c == '0') =
        significant at hSub
      by_cases hLong : 19 < significant.length
      · rw [if_pos hLong, if_pos hLong]
        rfl
      · rw [if_neg hLong, if_neg hLong]
        have hRead := @i128Digits_eq Str significant hSub 0 0
          (by decide) (by omega)
        have hLess := digitsValue_lt hSub
        have hPower : 10 ^ significant.length ≤ 10 ^ 19 :=
          Nat.pow_le_pow_right (by decide) (by omega)
        rw [Nat.zero_mul, Nat.zero_add] at hRead
        have hSigned :
            (i128 (if negative then
                -(digitsValue significant : Int)
              else digitsValue significant) :
              Checked Str Int) =
              .ok (if negative then
                -(digitsValue significant : Int)
              else digitsValue significant) := by
          rw [i128, if_pos]
          split
          · omega
          · omega
        rw [show ((0 : Nat) : Int) = 0 from rfl] at hRead
        rw [hRead, Lib.ok_bind, hSigned, Lib.ok_bind]
        cases toI64 (if negative then
          -(digitsValue significant : Int)
          else digitsValue significant) with
        | none => rfl
        | some n => rfl

theorem checkedParseInt_eq
    (value : Str) :
    checkedParseInt value = Checked.lift (parseInt value) := by
  unfold checkedParseInt parseInt
  rw [checkedParseIntStrict_eq]
  cases parseIntStrict value with
  | ok n => rfl
  | error reason =>
      dsimp only [Checked.lift]
      cases Lib.Text.rsplitOnce '.' (trim value) with
      | none => rfl
      | some p =>
          dsimp only
          split
          · exact checkedParseIntStrict_eq p.1
          · rfl

end Environment

end MailgunRelay

------------------------------------------------------------
-- Integer Settings
------------------------------------------------------------

namespace MailgunRelay

namespace Environment

open Lib (Checked)

/-
  An integer setting is accepted with the number it spells,
  and refused if it spells none of 64 bits; on the way to
  it nothing overflows.
-/
theorem parseInt_denotes
    (value : Str) :
    checkedParseInt value = Checked.lift (parseInt value) ∧
      (∀ n : I64,
        parseInt value = .ok n ↔ Spells (trim value) n.val) ∧
      ∀ m : Int, Spells (trim value) m →
        ((∃ n : I64, n.val = m ∧ parseInt value = .ok n) ↔
          -2 ^ 63 ≤ m ∧ m < 2 ^ 63) := by
  refine
    ⟨checkedParseInt_eq value,
      fun n => parseInt_eq_ok_iff, ?_⟩
  intro m hSpells
  constructor
  · rintro ⟨n, rfl, -⟩
    exact n.property
  · intro hRange
    exact ⟨⟨m, hRange⟩, rfl, parseInt_eq_ok_iff.mpr hSpells⟩

end Environment

end MailgunRelay
