import MailgunRelay.Http

/-
  The quoting of a redirect.

  A quoted URL is decoded to what the URL itself is decoded
  to, because `quote` leaves a `%` as it is.  Quoting twice
  is quoting once, and what is quoted is a header value.

  Key definitions include:
    * `MailgunRelay.Http.quoted`
    * `MailgunRelay.Http.isUrlChar`

  Key theorems include:
    * `MailgunRelay.Http.escapedByte_quoted`
    * `MailgunRelay.Http.percentBytes_quoted`
    * `MailgunRelay.Http.quote_eq_self`
    * `MailgunRelay.Http.percentDecode_quote`
-/

------------------------------------------------------------
-- Quoted Bytes
------------------------------------------------------------

namespace MailgunRelay

namespace Http

open Form
  (escapedByte hexByte hexByte_percent percentBytes reads)

/- A character that is quoted as itself. -/
def isUrlChar (c : Char) : Bool :=
  isAsciiChar c && isSafe (UInt8.ofNat c.toNat)

/- The bytes of quoted bytes. -/
def quoted (bytes : Bytes) : Bytes :=
  utf8 (bytes.flatMap quoteByte)

theorem quoted_cons
    (b : UInt8)
    (rest : Bytes) :
    quoted (b :: rest) = utf8 (quoteByte b) ++ quoted rest := by
  unfold quoted
  rw [List.flatMap_cons, utf8_append]

/- A byte is quoted as itself, or as an escape of it. -/
theorem quoteByte_cases
    (b : UInt8) :
    (isSafe b = true → utf8 (quoteByte b) = [b]) ∧
      (isSafe b = false → toDigit b = none ∧
        ∃ digits, utf8 (quoteByte b) = 37 :: digits) ∧
        (b ≠ 37 → reads b (utf8 (quoteByte b)) = true) ∧
          ∀ c ∈ quoteByte b, isUrlChar c = true := by
  have hSafe := forall_byte
    (P := fun b => isSafe b = true → utf8 (quoteByte b) = [b])
    (by decide +kernel) b
  have hDigit := forall_byte
    (P := fun b => isSafe b = false → toDigit b = none)
    (by decide +kernel) b
  have hReads := forall_byte
    (P := fun b => b ≠ 37 → reads b (utf8 (quoteByte b)) = true)
    (by decide +kernel) b
  have hChars := forall_byte
    (P := fun b => (quoteByte b).all isUrlChar = true)
    (by decide +kernel) b
  refine ⟨hSafe, ?_, hReads, List.all_eq_true.mp hChars⟩
  intro hUnsafe
  refine ⟨hDigit hUnsafe, ?_⟩
  unfold quoteByte
  rw [if_neg (Bool.eq_false_iff.mp hUnsafe), utf8_cons]
  exact ⟨_, rfl⟩

/- An escape starts with a digit, and so it goes on. -/
theorem escapedByte_of_first
    {a : UInt8}
    (hNone : toDigit a = none)
    (rest : Bytes) :
    escapedByte (a :: rest) = none := by
  cases rest with
  | nil => rfl
  | cons b rest =>
      show hexByte a b = none
      unfold hexByte
      rw [hNone]

theorem hexByte_of_second
    {b : UInt8}
    (hNone : toDigit b = none)
    (a : UInt8) :
    hexByte a b = none := by
  unfold hexByte
  rw [hNone]
  cases toDigit a with
  | none => rfl
  | some high => rfl

/- Quoting makes no escape and takes none away. -/
theorem escapedByte_quoted
    (bytes : Bytes) :
    escapedByte (quoted bytes) = escapedByte bytes := by
  cases bytes with
  | nil => rfl
  | cons a rest =>
      rw [quoted_cons]
      by_cases hFirst : isSafe a = true
      · rw [(quoteByte_cases a).1 hFirst]
        cases rest with
        | nil => rfl
        | cons b rest =>
            rw [quoted_cons]
            by_cases hSecond : isSafe b = true
            · rw [(quoteByte_cases b).1 hSecond]
              rfl
            · rw [Bool.not_eq_true] at hSecond
              rcases (quoteByte_cases b).2.1 hSecond with
                ⟨hNone, digits, hBytes⟩
              rw [hBytes]
              show hexByte a 37 = hexByte a b
              rw [hexByte_percent, hexByte_of_second hNone]
      · rw [Bool.not_eq_true] at hFirst
        rcases (quoteByte_cases a).2.1 hFirst with
          ⟨hNone, digits, hBytes⟩
        rw [hBytes, List.cons_append,
          escapedByte_of_first (by decide),
          escapedByte_of_first hNone]

theorem isSafe_of_hexByte
    {a b byte : UInt8}
    (hByte : hexByte a b = some byte) :
    isSafe a = true ∧ isSafe b = true := by
  constructor
  · rw [← Bool.not_eq_false]
    intro hUnsafe
    unfold hexByte at hByte
    rw [((quoteByte_cases a).2.1 hUnsafe).1] at hByte
    cases hByte
  · rw [← Bool.not_eq_false]
    intro hUnsafe
    rw [hexByte_of_second
      ((quoteByte_cases b).2.1 hUnsafe).1] at hByte
    cases hByte

/- Quoted bytes are decoded as the bytes themselves. -/
theorem percentBytes_quoted
    (bytes : Bytes) :
    percentBytes (quoted bytes) = percentBytes bytes := by
  fun_induction percentBytes bytes with
  | case1 => rw [quoted, List.flatMap_nil, utf8, List.flatMap_nil,
      percentBytes]
  | case2 b rest byte hEscape ih =>
      have hPercent : b = 37 ∧ escapedByte rest = some byte := by
        split at hEscape
        · rename_i hEq
          exact ⟨hEq, hEscape⟩
        · cases hEscape
      rcases hPercent with ⟨rfl, hRest⟩
      rcases Form.exists_of_escapedByte hRest with
        ⟨x, y, more, rfl, hByte, -⟩
      have hSafe := isSafe_of_hexByte hByte
      rw [List.drop_succ_cons, List.drop_succ_cons,
        List.drop_zero] at ih ⊢
      rw [quoted_cons, (quoteByte_cases 37).1 (by decide),
        List.singleton_append,
        Form.percentBytes_escape
          ((escapedByte_quoted _).trans hRest),
        quoted_cons, (quoteByte_cases x).1 hSafe.1,
        quoted_cons, (quoteByte_cases y).1 hSafe.2]
      exact congrArg _ ih
  | case3 b rest hNone ih =>
      rw [quoted_cons]
      by_cases hPercent : b = 37
      · rw [dif_pos hPercent] at hNone
        subst hPercent
        rw [(quoteByte_cases 37).1 (by decide),
          List.singleton_append, Form.percentBytes_literal, ih]
        intro _
        rw [escapedByte_quoted, hNone]
      · rw [Form.percentBytes_of_reads
          ((quoteByte_cases b).2.2.1 hPercent), ih]

end Http

end MailgunRelay

------------------------------------------------------------
-- Quoted Text
------------------------------------------------------------

namespace MailgunRelay

namespace Http

open Form (percentBytes)

theorem quote_append
    (front back : Str) :
    quote (front ++ back) = quote front ++ quote back := by
  unfold quote
  rw [utf8_append, List.flatMap_append]

theorem isUrlChar_of_mem_quote
    {url : Str}
    {c : Char}
    (hMem : c ∈ quote url) :
    isUrlChar c = true := by
  rcases List.mem_flatMap.mp hMem with ⟨b, -, hByte⟩
  exact (quoteByte_cases b).2.2.2 c hByte

/- Text of such characters needs no quoting. -/
theorem quote_eq_self
    {url : Str}
    (hChars : ∀ c ∈ url, isUrlChar c = true) :
    quote url = url := by
  induction url with
  | nil => rfl
  | cons c rest ih =>
      have hChar : quote [c] = [c] := by
        have hHere := hChars c List.mem_cons_self
        rcases Bool.and_eq_true_iff.mp hHere with ⟨hAscii, -⟩
        exact
          forall_ascii
            (P := fun c => isUrlChar c = true → quote [c] = [c])
            (by decide +kernel) hAscii hHere
      have hRest := ih fun d hMem =>
        hChars d (List.mem_cons_of_mem c hMem)
      rw [← List.singleton_append, quote_append, hChar, hRest]

/- Such characters may stand in a header. -/
theorem headerValue_of_url
    {text : Str}
    (hChars : ∀ c ∈ text, isUrlChar c = true) :
    headerValue text = some text := by
  unfold headerValue
  rw [if_pos]
  rw [List.all_eq_true]
  intro b hMem
  rcases List.mem_flatMap.mp hMem with ⟨c, hChar, hByte⟩
  have hHere := hChars c hChar
  rcases Bool.and_eq_true_iff.mp hHere with ⟨hAscii, -⟩
  have hBytes := forall_ascii
    (P := fun c => isUrlChar c = true →
      (String.utf8EncodeChar c).all
        (fun b => (32 ≤ b && b != 127) || b == 9) = true)
    (by decide +kernel) hAscii hHere
  exact List.all_eq_true.mp hBytes b hByte

theorem decode_quote
    (url : Str) :
    percentDecode (quote url) = percentDecode url := by
  rw [percentDecode_eq, percentDecode_eq]
  show fromUtf8Lossy (percentBytes (quoted (utf8 url))) = _
  rw [percentBytes_quoted]

/-
  A quoted URL is decoded as the URL is, quoting it again
  changes nothing, and it can always be sent in a header:
  no redirect is without its `Location`.
-/
theorem percentDecode_quote
    (url : Str) :
    percentDecode (quote url) = percentDecode url ∧
      quote (quote url) = quote url ∧
        headerValue (quote url) = some (quote url) ∧
          ∀ c ∈ quote url, isUrlChar c = true := by
  have hChars : ∀ c ∈ quote url, isUrlChar c = true :=
    fun c hMem => isUrlChar_of_mem_quote hMem
  exact
    ⟨decode_quote url, quote_eq_self hChars,
      headerValue_of_url hChars, hChars⟩

end Http

end MailgunRelay
