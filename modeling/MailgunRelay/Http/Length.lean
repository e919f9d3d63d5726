import MailgunRelay.Http
import MailgunRelay.Environment.Integers
import MailgunRelay.Pipeline.Body

/-
  The limit on a declared length.

  A `Content-Length` is admitted if it is an optional plus
  and digits between blanks, for a number of 64 bits that is
  not above the limit.  A length that is the length of the
  body is refused when the body would be.

  Key definitions include:
    * `MailgunRelay.Http.Declares`

  Key theorems include:
    * `MailgunRelay.Http.parseU64_eq_some_iff`
    * `MailgunRelay.Http.declaredLength_eq_some_iff`
    * `MailgunRelay.Http.declaresTooMuch_iff`
-/

------------------------------------------------------------
-- Numbers
------------------------------------------------------------

namespace MailgunRelay

namespace Http

open Environment (digitsValue)

theorem parseU64_eq_some_iff
    {text : Str}
    {n : Nat} :
    parseU64 text = some n ↔
      ∃ plus digits, text = plus ++ digits ∧
        (plus = [] ∨ plus = ['+']) ∧ digits ≠ [] ∧
          (∀ c ∈ digits, c.isDigit = true) ∧
            digitsValue digits = n ∧ n < 2 ^ 64 := by
  have hRead (digits : Str) :
      (if digits.isEmpty || !digits.all Char.isDigit then
          none
        else if digitsValue digits < 2 ^ 64 then
          some (digitsValue digits)
        else
          none) =
          some n ↔
        digits ≠ [] ∧ (∀ c ∈ digits, c.isDigit = true) ∧
          digitsValue digits = n ∧ n < 2 ^ 64 := by
    by_cases hEmpty : digits = []
    · simp [hEmpty]
    by_cases hAll : ∀ c ∈ digits, c.isDigit = true
    · rw [if_neg (by simpa [hEmpty] using hAll)]
      simp only [ne_eq, hEmpty, not_false_eq_true, true_and,
        Option.ite_none_right_eq_some, Option.some.injEq]
      constructor
      · rintro ⟨hSmall, rfl⟩
        exact ⟨hAll, rfl, hSmall⟩
      · rintro ⟨-, rfl, hSmall⟩
        exact ⟨hSmall, rfl⟩
    · rw [if_pos (by simpa [hEmpty] using hAll)]
      simp [hAll]
  by_cases hPlus : ∃ rest, text = '+' :: rest
  · rcases hPlus with ⟨rest, rfl⟩
    unfold parseU64
    rw [hRead]
    constructor
    · intro hDigits
      exact ⟨['+'], rest, rfl, .inr rfl, hDigits⟩
    · rintro ⟨plus, digits, hText, hSign, hDigits⟩
      rcases hSign with rfl | rfl
      · rw [List.nil_append] at hText
        rw [← hText] at hDigits
        cases hDigits.2.1 '+' List.mem_cons_self
      · rw [(List.cons.inj hText).2]
        exact hDigits
  · have hSelf : parseU64 text =
        (if text.isEmpty || !text.all Char.isDigit then
          none
        else if digitsValue text < 2 ^ 64 then
          some (digitsValue text)
        else
          none) := by
      unfold parseU64
      split
      · exact absurd ⟨_, rfl⟩ hPlus
      · rfl
    rw [hSelf, hRead]
    constructor
    · intro hDigits
      exact ⟨[], text, rfl, .inl rfl, hDigits⟩
    · rintro ⟨plus, digits, rfl, hSign, hDigits⟩
      rcases hSign with rfl | rfl
      · exact hDigits
      · exact absurd ⟨digits, rfl⟩ hPlus

end Http

end MailgunRelay

------------------------------------------------------------
-- Declared Lengths
------------------------------------------------------------

namespace MailgunRelay

namespace Http

open Environment (digitsValue trim isWhitespace)

/- A space or a tab. -/
def isBlank (b : UInt8) : Bool :=
  b == 32 || b == 9

def isDigitByte (b : UInt8) : Bool :=
  48 ≤ b && b ≤ 57

/- What a `Content-Length` that is a number looks like. -/
inductive Declares : Bytes → Nat → Prop where
  | length
      {front plus digits back : Bytes}
      (hFront : ∀ b ∈ front, isBlank b = true)
      (hPlus : plus = [] ∨ plus = [43])
      (hSome : digits ≠ [])
      (hDigits : ∀ b ∈ digits, isDigitByte b = true)
      (hBack : ∀ b ∈ back, isBlank b = true)
      (hSmall : digitsValue (latin1 digits) < 2 ^ 64) :
      Declares (front ++ (plus ++ digits) ++ back)
        (digitsValue (latin1 digits))

/- The kinds of a byte are those of its character. -/
theorem byte_kinds
    (b : UInt8) :
    (isVisible b = true →
      isWhitespace (Char.ofNat b.toNat) = isBlank b) ∧
      (Char.ofNat b.toNat).isDigit = isDigitByte b ∧
        (isDigitByte b = true →
          isVisible b = true ∧
            isWhitespace (Char.ofNat b.toNat) = false) ∧
          (isBlank b = true → isVisible b = true) ∧
            (Char.ofNat b.toNat = '+' ↔ b = 43) := by
  revert b
  apply forall_byte
  decide +kernel

theorem latin1_append
    (front back : Bytes) :
    latin1 (front ++ back) = latin1 front ++ latin1 back :=
  List.map_append

/- The parts of a latin-1 text are the text of parts. -/
theorem exists_latin1
    {value : Bytes}
    {front back : Str}
    (hValue : latin1 value = front ++ back) :
    ∃ left right, value = left ++ right ∧
      latin1 left = front ∧ latin1 right = back :=
  List.map_eq_append_iff.mp hValue

theorem declares_of_length
    {value : Bytes}
    {n : Nat}
    (hLength : declaredLength value = some n) :
    Declares value n := by
  unfold declaredLength headerStr at hLength
  by_cases hAll : value.all isVisible = true
  · rw [if_pos hAll, Option.bind_some] at hLength
    rw [List.all_eq_true] at hAll
    rcases parseU64_eq_some_iff.mp hLength with
      ⟨plus, digits, hText, hPlus, hSome, hDigits, rfl,
        hSmall⟩
    rcases Lib.Text.exists_strip isWhitespace (latin1 value)
      with ⟨front, back, hStrip, hFront, hBack⟩
    rw [show ((latin1 value).dropWhile isWhitespace).rdropWhile
      isWhitespace = plus ++ digits from hText] at hStrip
    rcases exists_latin1 hStrip with
      ⟨left, backBytes, rfl, hLeft, rfl⟩
    rcases exists_latin1 hLeft with
      ⟨frontBytes, middle, rfl, rfl, hMiddle⟩
    rcases exists_latin1 hMiddle with
      ⟨plusBytes, digitBytes, rfl, rfl, rfl⟩
    apply Declares.length
    · intro b hMem
      have hByte := hFront _ (List.mem_map_of_mem hMem)
      rwa [(byte_kinds b).1 (hAll b (by simp [hMem]))] at hByte
    · rcases hPlus with hPlus | hPlus
      · left
        exact List.map_eq_nil_iff.mp hPlus
      · right
        rcases List.map_eq_singleton_iff.mp hPlus with
          ⟨b, rfl, hByte⟩
        rw [(byte_kinds b).2.2.2.2.mp hByte]
    · rintro rfl
      exact hSome rfl
    · intro b hMem
      have hByte := hDigits _ (List.mem_map_of_mem hMem)
      rwa [(byte_kinds b).2.1] at hByte
    · intro b hMem
      have hByte := hBack _ (List.mem_map_of_mem hMem)
      rwa [(byte_kinds b).1 (hAll b (by simp [hMem]))] at hByte
    · exact hSmall
  · rw [if_neg hAll] at hLength
    cases hLength

/- The blanks around a number are stripped. -/
theorem trim_latin1
    {front plus digits back : Bytes}
    (hFront : ∀ b ∈ front, isBlank b = true)
    (hPlus : plus = [] ∨ plus = [43])
    (hDigits : ∀ b ∈ digits, isDigitByte b = true)
    (hBack : ∀ b ∈ back, isBlank b = true) :
    trim (latin1 (front ++ (plus ++ digits) ++ back)) =
      latin1 plus ++ latin1 digits := by
  have hBlank {blanks : Bytes}
      (hBlanks : ∀ b ∈ blanks, isBlank b = true) :
      ∀ c ∈ latin1 blanks, isWhitespace c = true := by
    intro c hMem
    rcases List.mem_map.mp hMem with ⟨b, hByte, rfl⟩
    have hHere := hBlanks b hByte
    rw [(byte_kinds b).1 ((byte_kinds b).2.2.2.1 hHere), hHere]
  unfold trim
  rw [latin1_append, latin1_append, latin1_append]
  apply Lib.Text.strip_append (hBlank hFront)
  · intro c hMem
    rcases List.mem_append.mp hMem with hMem | hMem
    · rcases hPlus with rfl | rfl
      · cases hMem
      · rw [List.mem_singleton.mp hMem]
        decide
    · rcases List.mem_map.mp hMem with ⟨b, hByte, rfl⟩
      exact ((byte_kinds b).2.2.1 (hDigits b hByte)).2
  · exact hBlank hBack

theorem length_of_declares
    {value : Bytes}
    {n : Nat}
    (hDeclares : Declares value n) :
    declaredLength value = some n := by
  cases hDeclares with
  | @length front plus digits back hFront hPlus hSome hDigits
      hBack hSmall =>
      have hVisible :
          (front ++ (plus ++ digits) ++ back).all isVisible =
            true := by
        rw [List.all_eq_true]
        intro b hMem
        simp only [List.mem_append] at hMem
        rcases hMem with (hMem | hMem | hMem) | hMem
        · exact (byte_kinds b).2.2.2.1 (hFront b hMem)
        · rcases hPlus with rfl | rfl
          · cases hMem
          · rw [List.mem_singleton.mp hMem]
            rfl
        · exact ((byte_kinds b).2.2.1 (hDigits b hMem)).1
        · exact (byte_kinds b).2.2.2.1 (hBack b hMem)
      unfold declaredLength headerStr
      rw [if_pos hVisible, Option.bind_some,
        trim_latin1 hFront hPlus hDigits hBack]
      apply parseU64_eq_some_iff.mpr
      refine ⟨_, _, rfl, ?_, ?_, ?_, rfl, hSmall⟩
      · rcases hPlus with rfl | rfl
        · left
          rfl
        · right
          rfl
      · intro hNil
        exact hSome (List.map_eq_nil_iff.mp hNil)
      · intro c hMem
        rcases List.mem_map.mp hMem with ⟨b, hByte, rfl⟩
        rw [(byte_kinds b).2.1]
        exact hDigits b hByte

theorem declaredLength_eq_some_iff
    {value : Bytes}
    {n : Nat} :
    declaredLength value = some n ↔ Declares value n :=
  ⟨declares_of_length, length_of_declares⟩

/- Refused is what declares no length within the limit. -/
theorem declaresTooMuch_iff
    (maxBodyBytes : I64)
    (request : Request) :
    declaresTooMuch maxBodyBytes request = true ↔
      ∃ value, request.header "content-length".toList =
          some value ∧
        ∀ n : Nat, Declares value n → maxBodyBytes.val < n := by
  unfold declaresTooMuch
  cases request.header "content-length".toList with
  | none => simp
  | some value =>
      simp only [← declaredLength_eq_some_iff,
        Option.some.injEq, exists_eq_left']
      cases declaredLength value with
      | none => simp
      | some n => simp

end Http

end MailgunRelay
