import MailgunRelay.Http.Length
import MailgunRelay.Python.Errors

/-
  The body limit of the Python service (`app.py`,
  `BodySizeLimitMiddleware`) beside the one of the relay.

  The relay reads a declared length only if Python does, and
  both read the same number.  What Python reads beyond it has
  an underscore, a minus or a character that is not ASCII.
  Streamed bytes are counted alike.

  Key definitions include:
    * `MailgunRelay.Python.int`
    * `MailgunRelay.Python.rejects`
    * `MailgunRelay.Python.limitedReceive`

  Key theorems include:
    * `MailgunRelay.Python.int_of_declares`
    * `MailgunRelay.Python.declares_of_int`
    * `MailgunRelay.Python.bodyLimit_agrees`
-/

------------------------------------------------------------
-- The Middleware
------------------------------------------------------------

namespace MailgunRelay

namespace Python

open Environment
  (digitsValue splitSign trim wellFormed)

/- `sys.int_info.default_max_str_digits`. -/
def maxStrDigits : Nat := 4300

/-
  `int()` of Latin-1 text, which has no decimal digits but
  those of ASCII.
-/
def int (text : Str) : Option Int :=
  let (negative, digits) := splitSign (trim text)
  let plain := digits.filter fun c => c != '_'
  if wellFormed digits && plain.length ≤ maxStrDigits then
    if negative then
      some (-(digitsValue plain : Int))
    else
      some (digitsValue plain)
  else
    none

/- The check of the declared length. -/
def rejects
    (maxBytes : Int)
    (contentLength : Option Bytes) : Bool :=
  match contentLength with
  | none => false
  | some value =>
      match int (latin1 value) with
      | none => true
      | some declared => declared < 0 || maxBytes < declared

/- `limited_receive`, for all messages of a request. -/
def limitedReceive
    (maxBytes : Int)
    (seen : Nat) : List Bytes → Except Exc Bytes
| [] => .ok []
| body :: messages =>
    let seen := seen + body.length
    if maxBytes < seen then
      .error (payloadTooLargeError
        ("request body exceeds ".toList ++
          Pipeline.display maxBytes ++ " bytes".toList))
    else do
      let rest ← limitedReceive maxBytes seen messages
      return body ++ rest

end Python

end MailgunRelay

------------------------------------------------------------
-- Declared Lengths
------------------------------------------------------------

namespace MailgunRelay

namespace Python

open Environment
  (digitsValue splitSign trim wellFormed)

open Http (Declares declaredLength)

/- Without underscores there is one group. -/
theorem wellFormed_of_not_mem
    {digits : Str}
    (hNone : '_' ∉ digits) :
    wellFormed digits = true ↔
      digits ≠ [] ∧ ∀ c ∈ digits, c.isDigit = true := by
  have hSplit : digits.splitOn '_' = [digits] := by
    apply List.splitOnP_eq_singleton
    intro c hMem
    apply beq_false_of_ne
    rintro rfl
    exact hNone hMem
  unfold wellFormed
  rw [hSplit]
  simp

theorem filter_of_not_mem
    {digits : Str}
    (hNone : '_' ∉ digits) :
    (digits.filter fun c => c != '_') = digits := by
  rw [List.filter_eq_self]
  intro c hMem
  rw [bne_iff_ne]
  rintro rfl
  exact hNone hMem

theorem splitSign_plus
    {plus digits : Str}
    (hPlus : plus = [] ∨ plus = ['+'])
    (hSome : digits ≠ [])
    (hDigits : ∀ c ∈ digits, c.isDigit = true) :
    splitSign (plus ++ digits) = (false, digits) := by
  rcases hPlus with rfl | rfl
  · cases digits with
    | nil => exact absurd rfl hSome
    | cons d rest =>
        have hDigit := hDigits d List.mem_cons_self
        rw [List.nil_append]
        unfold splitSign
        split
        · rename_i hMinus
          cases hMinus
          cases hDigit
        · rename_i hSign
          cases hSign
          cases hDigit
        · rfl
  · rfl

/- What the relay reads, Python reads too. -/
theorem int_of_declares
    {value : Bytes}
    {n : Nat}
    (hDeclares : Declares value n)
    (hShort : value.length ≤ maxStrDigits) :
    int (latin1 value) = some (n : Int) := by
  cases hDeclares with
  | @length front plus digits back hFront hPlus hSome hDigits
      hBack hSmall =>
      have hChars : ∀ c ∈ latin1 digits, c.isDigit = true := by
        intro c hMem
        rcases List.mem_map.mp hMem with ⟨b, hByte, rfl⟩
        rw [(Http.byte_kinds b).2.1]
        exact hDigits b hByte
      have hScore : '_' ∉ latin1 digits := by
        intro hMem
        cases hChars _ hMem
      have hNonempty : latin1 digits ≠ [] := by
        intro hNil
        exact hSome (List.map_eq_nil_iff.mp hNil)
      have hSign : latin1 plus = [] ∨ latin1 plus = ['+'] := by
        rcases hPlus with rfl | rfl
        · left
          rfl
        · right
          rfl
      have hLength : (latin1 digits).length ≤ maxStrDigits := by
        simp only [List.length_append] at hShort
        rw [latin1, List.length_map]
        omega
      unfold int
      rw [Http.trim_latin1 hFront hPlus hDigits hBack,
        splitSign_plus hSign hNonempty hChars]
      dsimp only
      rw [filter_of_not_mem hScore,
        (wellFormed_of_not_mem hScore).mpr ⟨hNonempty, hChars⟩,
        if_pos (by simpa using hLength)]
      rfl

theorem splitSign_of_not_mem
    {text : Str}
    (hMinus : '-' ∉ text) :
    ∃ plus, (plus = [] ∨ plus = ['+']) ∧
      text = plus ++ (splitSign text).2 ∧
        (splitSign text).1 = false := by
  unfold splitSign
  split
  · exact absurd List.mem_cons_self hMinus
  · exact ⟨['+'], .inr rfl, rfl, rfl⟩
  · exact ⟨[], .inl rfl, rfl, rfl⟩

/- What only Python reads has another character. -/
theorem declares_of_int
    {value : Bytes}
    {m : Int}
    (hInt : int (latin1 value) = some m)
    (hPlain : ∀ b ∈ value,
      Http.isVisible b = true ∧ b ≠ 95 ∧ b ≠ 45)
    (hSmall : m < 2 ^ 64) :
    ∃ n : Nat, Declares value n ∧ m = n := by
  rcases Lib.Text.exists_strip Environment.isWhitespace
    (latin1 value) with ⟨front, back, hStrip, -, -⟩
  have hChars : ∀ c ∈ trim (latin1 value),
      c ≠ '_' ∧ c ≠ '-' := by
    intro c hMem
    have hIn : c ∈ latin1 value := by
      rw [hStrip]
      apply List.mem_append_left
      exact List.mem_append_right _ hMem
    rcases List.mem_map.mp hIn with ⟨b, hByte, rfl⟩
    exact
      forall_byte
        (P := fun b => b ≠ 95 ∧ b ≠ 45 →
          Char.ofNat b.toNat ≠ '_' ∧ Char.ofNat b.toNat ≠ '-')
        (by decide +kernel) b (hPlain b hByte).2
  rcases splitSign_of_not_mem fun h => (hChars _ h).2 rfl with
    ⟨plus, hPlus, hText, hSign⟩
  have hScore : '_' ∉ (splitSign (trim (latin1 value))).2 := by
    intro hMem
    refine (hChars '_' ?_).1 rfl
    rw [hText]
    exact List.mem_append_right _ hMem
  unfold int at hInt
  dsimp only at hInt
  rw [hSign, filter_of_not_mem hScore] at hInt
  by_cases hRead : (wellFormed (splitSign
      (trim (latin1 value))).2 &&
      decide ((splitSign (trim (latin1 value))).2.length ≤
        maxStrDigits)) = true
  · rw [if_pos hRead] at hInt
    rcases Bool.and_eq_true_iff.mp hRead with ⟨hFormed, -⟩
    rcases (wellFormed_of_not_mem hScore).mp hFormed with
      ⟨hSome, hDigits⟩
    cases hInt
    refine ⟨_, ?_, rfl⟩
    rw [← Http.declaredLength_eq_some_iff]
    unfold declaredLength Http.headerStr
    rw [if_pos (List.all_eq_true.mpr fun b hMem =>
      (hPlain b hMem).1), Option.bind_some]
    apply Http.parseU64_eq_some_iff.mpr
    refine ⟨plus, _, hText, hPlus, hSome, hDigits, rfl, ?_⟩
    omega
  · rw [if_neg hRead] at hInt
    cases hInt

end Python

end MailgunRelay

------------------------------------------------------------
-- Both Limits
------------------------------------------------------------

namespace MailgunRelay

namespace Python

open Environment (digitsValue)

open Http (Declares declaresTooMuch)

open Pipeline (content readBody bodyTooLarge)

/- All messages count, whatever they carry. -/
theorem limitedReceive_eq
    {messages : List Bytes}
    (hSome : messages ≠ [])
    (maxBytes : Int)
    (seen : Nat) :
    limitedReceive maxBytes seen messages =
      if maxBytes < (seen + messages.flatten.length : Nat) then
        .error (payloadTooLargeError
          ("request body exceeds ".toList ++
            Pipeline.display maxBytes ++ " bytes".toList))
      else
        .ok messages.flatten := by
  induction messages generalizing seen with
  | nil => exact absurd rfl hSome
  | cons body messages ih =>
      unfold limitedReceive
      dsimp only
      rw [List.flatten_cons, List.length_append]
      by_cases hFirst : maxBytes < ((seen + body.length : Nat) : Int)
      · rw [if_pos hFirst, if_pos (by omega)]
      · rw [if_neg hFirst]
        by_cases hLast : messages = []
        · subst hLast
          rw [List.flatten_nil, List.length_nil, Nat.add_zero,
            if_neg hFirst]
          rfl
        · rw [ih hLast, Nat.add_assoc]
          by_cases hTotal : maxBytes <
              ((seen + (body.length + messages.flatten.length) :
                Nat) : Int)
          · rw [if_pos hTotal, if_pos hTotal]
            rfl
          · rw [if_neg hTotal, if_neg hTotal]
            rfl

/- The length of a body as clients declare it. -/
def written (n : Nat) : Bytes :=
  utf8 (Nat.toDigits 10 n)

theorem latin1_written
    (n : Nat) :
    latin1 (written n) = Nat.toDigits 10 n := by
  apply latin1_utf8
  intro c hMem
  have hDigit := Nat.isDigit_of_mem_toDigits (by decide)
    (by decide) hMem
  have hBounds := Char.isDigit_iff_toNat.mp hDigit
  have hNine : '9'.toNat = 57 := rfl
  unfold isAsciiChar
  rw [decide_eq_true_iff]
  omega

theorem digitsValue_written
    (n : Nat) :
    digitsValue (latin1 (written n)) = n := by
  rw [latin1_written]
  exact Nat.ofDigitChars_ten_toDigits

/- A declared length is the one that was written. -/
theorem declares_written
    {n m : Nat} :
    Declares (written n) m ↔ m = n ∧ n < 2 ^ 64 := by
  have hChars : ∀ c ∈ latin1 (written n),
      c.isDigit = true := by
    rw [latin1_written]
    intro c hMem
    exact Nat.isDigit_of_mem_toDigits (by decide) (by decide)
      hMem
  have hBytes : ∀ b ∈ written n, Http.isDigitByte b = true := by
    intro b hMem
    rw [← (Http.byte_kinds b).2.1]
    exact hChars _ (List.mem_map_of_mem hMem)
  have hTrim : Environment.trim (latin1 (written n)) =
      latin1 (written n) := by
    have hStripped := @Http.trim_latin1 [] [] (written n) []
      (by simp) (.inl rfl) hBytes (by simp)
    rwa [List.append_nil] at hStripped
  have hVisible : (written n).all Http.isVisible = true := by
    rw [List.all_eq_true]
    intro b hMem
    exact ((Http.byte_kinds b).2.2.1 (hBytes b hMem)).1
  rw [← Http.declaredLength_eq_some_iff]
  unfold Http.declaredLength Http.headerStr
  rw [if_pos hVisible, Option.bind_some, hTrim,
    Http.parseU64_eq_some_iff]
  constructor
  · rintro ⟨plus, digits, hText, hPlus, -, -, hValue, hSmall⟩
    rcases hPlus with rfl | rfl
    · rw [List.nil_append] at hText
      rw [← hText, digitsValue_written] at hValue
      subst hValue
      exact ⟨rfl, hSmall⟩
    · rw [hText] at hChars
      cases hChars '+' List.mem_cons_self
  · rintro ⟨rfl, hSmall⟩
    refine ⟨[], _, rfl, .inl rfl, ?_, hChars,
      digitsValue_written m, hSmall⟩
    show latin1 (written m) ≠ []
    rw [latin1_written]
    exact Nat.toDigits_ne_nil

/- What Python refuses declares nothing within the limit. -/
theorem declares_of_rejects
    {value : Bytes}
    (hShort : value.length ≤ maxStrDigits)
    (maxBytes : I64)
    (hRejects : rejects maxBytes.val (some value) = true) :
    ∀ n : Nat, Declares value n → maxBytes.val < n := by
  intro n hDeclares
  unfold rejects at hRejects
  dsimp only at hRejects
  rw [int_of_declares hDeclares hShort] at hRejects
  dsimp only at hRejects
  rw [Bool.or_eq_true, decide_eq_true_iff,
    decide_eq_true_iff] at hRejects
  omega

/-
  The relay lets no declared length pass that Python
  refuses, and both refuse the same unless there is an
  underscore, a minus or a character that is not visible
  ASCII.  A body whose length is declared as it is meets the
  same verdict there as when it is read, and Python counts
  the bytes of the body as the relay does, in whatever
  messages they come.
-/
theorem bodyLimit_agrees
    (maxBytes : I64)
    (request : Http.Request) :
    (∀ value, request.header "content-length".toList =
          some value →
        value.length ≤ maxStrDigits →
          (declaresTooMuch maxBytes request = false →
              rejects maxBytes.val (some value) = false) ∧
            ((∀ b ∈ value, Http.isVisible b = true ∧
                b ≠ 95 ∧ b ≠ 45) →
              rejects maxBytes.val (some value) =
                declaresTooMuch maxBytes request)) ∧
      (.failed ∉ request.body →
        (request.header "content-length".toList =
              some (written (content request.body).length) →
            (declaresTooMuch maxBytes request = true ↔
              readBody request.body maxBytes =
                .error (bodyTooLarge maxBytes))) ∧
          ∀ messages : List Bytes, messages ≠ [] →
            messages.flatten = content request.body →
              limitedReceive maxBytes.val 0 messages =
                (readBody request.body maxBytes).mapError
                  fun _ => payloadTooLargeError
                    ("request body exceeds ".toList ++
                      Pipeline.display maxBytes.val ++
                        " bytes".toList)) := by
  constructor
  · intro value hValue hShort
    have hRelay : declaresTooMuch maxBytes request = true ↔
        ∀ n : Nat, Declares value n → maxBytes.val < n := by
      rw [Http.declaresTooMuch_iff, hValue]
      simp
    constructor
    · intro hAdmits
      rw [← Bool.not_eq_true] at hAdmits ⊢
      intro hRejects
      exact hAdmits
        (hRelay.mpr (declares_of_rejects hShort maxBytes hRejects))
    · intro hPlain
      rw [Bool.eq_iff_iff, hRelay]
      refine ⟨declares_of_rejects hShort maxBytes, ?_⟩
      intro hAll
      unfold rejects
      dsimp only
      cases hInt : int (latin1 value) with
      | none => rfl
      | some m =>
          have hMax := maxBytes.property.2
          by_cases hSmall : m < 2 ^ 64
          · rcases declares_of_int hInt hPlain hSmall with
              ⟨n, hDeclares, rfl⟩
            have hLarge := hAll n hDeclares
            simp [hLarge]
          · have hLarge : maxBytes.val < m := by omega
            simp [hLarge]
  · intro hFrames
    have hRead : readBody request.body maxBytes =
        if maxBytes.val < ((content request.body).length : Int)
          then
          .error (bodyTooLarge maxBytes)
        else
          .ok (content request.body) := by
      rw [readBody, Pipeline.readFrames_complete hFrames,
        List.nil_append]
      simp only [exceeds_iff]
    rw [hRead]
    constructor
    · intro hLength
      rw [Http.declaresTooMuch_iff, hLength]
      have hMax := maxBytes.property.2
      by_cases hLarge :
          maxBytes.val < ((content request.body).length : Int)
      · rw [if_pos hLarge]
        simp only [Option.some.injEq, exists_eq_left',
          declares_written, iff_true]
        rintro n ⟨rfl, -⟩
        exact hLarge
      · rw [if_neg hLarge]
        simp only [Option.some.injEq, exists_eq_left',
          declares_written, reduceCtorEq, iff_false]
        intro hAll
        exact hLarge (hAll _ ⟨rfl, by omega⟩)
    · intro messages hSome hContent
      rw [limitedReceive_eq hSome, Nat.zero_add, hContent]
      split
      · rfl
      · rfl

/- Ten bytes in two messages, with a limit of nine. -/
theorem bodyLimit_agrees_ten :
    let body : Bytes := List.replicate 10 0
    let request : Http.Request :=
      { method := "POST".toList
        path := "/v3/mg.example/messages".toList
        query := none
        headers := [("content-length".toList, written 10)]
        connection := none
        body := [.data body] }
    declaresTooMuch ⟨9, by decide⟩ request = true ∧
      rejects 9 (some (written 10)) = true ∧
        limitedReceive 9 0 [body.take 4, body.drop 4] =
          .error (payloadTooLargeError
            "request body exceeds 9 bytes".toList) := by
  intro body request
  have hHeader : request.header "content-length".toList =
      some (written 10) := rfl
  have hAgrees := bodyLimit_agrees ⟨9, by decide⟩ request
  have hFirst := hAgrees.1 _ hHeader (by decide +kernel)
  have hSecond := hAgrees.2 (by decide)
  have hTooMuch := (hSecond.1 hHeader).mpr rfl
  refine ⟨hTooMuch, ?_, ?_⟩
  · rw [← hTooMuch]
    exact hFirst.2 (by decide +kernel)
  · exact hSecond.2 [body.take 4, body.drop 4] (by decide)
      (by decide)

end Python

end MailgunRelay
