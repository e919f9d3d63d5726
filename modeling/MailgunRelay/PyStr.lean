import Mathlib.Data.List.DropRight
import MailgunRelay.External

/-
  Python `str` semantics the relay depends on
  (`pystr.rs`), and the string functions of Rust the
  modules share.

  Key definitions include:
    * `MailgunRelay.isPySpace`
    * `MailgunRelay.pyStrip`
    * `MailgunRelay.lowercase`
    * `MailgunRelay.utf8`
    * `MailgunRelay.fromUtf8`
    * `MailgunRelay.exceeds`

  Key theorems include:
    * `MailgunRelay.forall_ascii`
    * `MailgunRelay.forall_byte`
    * `MailgunRelay.lowercase_of_ascii`
    * `MailgunRelay.fromUtf8_eq_some_iff`
    * `MailgunRelay.exceeds_iff`
-/

------------------------------------------------------------
-- Whitespace
------------------------------------------------------------

namespace MailgunRelay

/- Python's `str.isspace()`. -/
def isPySpace (c : Char) : Bool :=
  (9 ≤ c.toNat && c.toNat ≤ 13) ||
    (0x1c ≤ c.toNat && c.toNat ≤ 0x20) ||
    c.toNat == 0x85 || c.toNat == 0xa0 ||
    c.toNat == 0x1680 ||
    (0x2000 ≤ c.toNat && c.toNat ≤ 0x200a) ||
    c.toNat == 0x2028 || c.toNat == 0x2029 ||
    c.toNat == 0x202f || c.toNat == 0x205f ||
    c.toNat == 0x3000

/- Python's `str.strip()` without arguments. -/
def pyStrip (value : Str) : Str :=
  (value.dropWhile isPySpace).rdropWhile isPySpace

end MailgunRelay

------------------------------------------------------------
-- Characters And Bytes
------------------------------------------------------------

namespace MailgunRelay

/- `char::is_ascii`. -/
def isAsciiChar (c : Char) : Bool :=
  c.toNat < 128

/- A fact about ASCII characters is one about 128 of them. -/
theorem forall_ascii
    {P : Char → Prop}
    (hAll : ∀ n < 128, P (Char.ofNat n))
    {c : Char}
    (hAscii : isAsciiChar c = true) :
    P c := by
  have hHere := hAll c.toNat (of_decide_eq_true hAscii)
  rwa [Char.ofNat_toNat] at hHere

/- A fact about bytes is one about 256 of them. -/
theorem forall_byte
    {P : UInt8 → Prop}
    (hAll : ∀ n < 256, P (UInt8.ofNat n))
    (b : UInt8) :
    P b := by
  have hHere := hAll b.toNat b.toNat_lt
  rwa [UInt8.ofNat_toNat] at hHere

/- A fact about ASCII bytes is one about 128 of them. -/
theorem forall_asciiByte
    {P : UInt8 → Prop}
    (hAll : ∀ n < 128, P (UInt8.ofNat n))
    {b : UInt8}
    (hAscii : b < 128) :
    P b := by
  have hHere := hAll b.toNat hAscii
  rwa [UInt8.ofNat_toNat] at hHere

/- `char::is_ascii_alphanumeric`. -/
def isAsciiAlphanumeric (c : Char) : Bool :=
  c.isAlphanum

/- `str::to_ascii_lowercase`. -/
def asciiLowercase (s : Str) : Str :=
  s.map Char.toLower

/- Some case-ignorable characters, then a cased one. -/
def caseIgnorableThenCased [Unicode] (s : Str) : Bool :=
  (s.dropWhile Unicode.caseIgnorable).head?.any
    Unicode.cased

/-
  The lowercase of one character between others; a sigma at
  the end of a word is the final one.
-/
def lowerBetween
    [Unicode]
    (before : Str)
    (c : Char)
    (after : Str) : Str :=
  if isAsciiChar c then
    [c.toLower]
  else if c = 'Σ' then
    if caseIgnorableThenCased before.reverse &&
        !caseIgnorableThenCased after then
      ['ς']
    else
      ['σ']
  else
    Unicode.toLower c

/- Lowercase the rest of a text, after some of it. -/
def lowerFrom
    [Unicode]
    (before : Str) : Str → Str
| [] => []
| c :: rest =>
    lowerBetween before c rest ++
      lowerFrom (before ++ [c]) rest

/- `str::to_lowercase`. -/
def lowercase [Unicode] (s : Str) : Str :=
  lowerFrom [] s

/- The Unicode tables do not matter for ASCII text. -/
theorem lowercase_of_ascii
    [Unicode]
    {s : Str}
    (hAscii : ∀ c ∈ s, isAsciiChar c = true) :
    lowercase s = asciiLowercase s := by
  suffices hFrom : ∀ before,
      lowerFrom before s = s.map Char.toLower from hFrom []
  induction s with
  | nil => exact fun _ => rfl
  | cons c rest ih =>
      intro before
      have hFirst := hAscii c List.mem_cons_self
      have hRest := ih fun d hd =>
        hAscii d (List.mem_cons_of_mem c hd)
      simp [lowerFrom, lowerBetween, hFirst, hRest]

theorem toLower_toLower
    (c : Char) :
    c.toLower.toLower = c.toLower := by
  unfold Char.toLower
  split
  · rename_i hUpper
    rw [dif_neg]
    rintro ⟨hLow, hHigh⟩
    simp only [UInt32.le_iff_toNat_le, ge_iff_le,
      UInt32.toNat_add] at hUpper hLow hHigh
    simp at hUpper hLow hHigh
    omega
  · rfl

/- Lowering twice is lowering once. -/
theorem asciiLowercase_idem
    (s : Str) :
    asciiLowercase (asciiLowercase s) = asciiLowercase s := by
  unfold asciiLowercase
  rw [List.map_map]
  exact List.map_congr_left fun c _ => toLower_toLower c

/- White space is no letter. -/
theorem toLower_of_space
    {c : Char}
    (hSpace : isPySpace c = true) :
    c.toLower = c := by
  unfold Char.toLower
  rw [dif_neg]
  rintro ⟨hLow, hHigh⟩
  simp only [UInt32.le_iff_toNat_le, ge_iff_le] at hLow hHigh
  simp only [isPySpace, Bool.or_eq_true, Bool.and_eq_true,
    decide_eq_true_eq, beq_iff_eq] at hSpace
  simp at hLow hHigh
  omega

theorem toLower_of_beyondAscii
    {c : Char}
    (hBeyond : isAsciiChar c = false) :
    c.toLower = c := by
  unfold Char.toLower
  rw [dif_neg]
  rintro ⟨-, hHigh⟩
  simp only [UInt32.le_iff_toNat_le] at hHigh
  simp only [isAsciiChar, decide_eq_false_iff_not] at hBeyond
  simp at hHigh
  omega

/- `str::as_bytes`. -/
def utf8 (s : Str) : Bytes :=
  s.flatMap String.utf8EncodeChar

/- `String::from_utf8`. -/
def fromUtf8 (bytes : Bytes) : Option Str :=
  bytes.toByteArray.utf8Decode?.map Array.toList

theorem utf8_cons
    (c : Char)
    (s : Str) :
    utf8 (c :: s) = String.utf8EncodeChar c ++ utf8 s :=
  rfl

theorem utf8_append
    (s t : Str) :
    utf8 (s ++ t) = utf8 s ++ utf8 t :=
  List.flatMap_append

/- An ASCII byte is the encoding of its character. -/
theorem utf8EncodeChar_ofByte
    {b : UInt8}
    (hAscii : b < 128) :
    String.utf8EncodeChar (Char.ofNat b.toNat) = [b] :=
  forall_asciiByte
    (P := fun b =>
      String.utf8EncodeChar (Char.ofNat b.toNat) = [b])
    (by decide +kernel) hAscii

/- Encoded text is decoded. -/
theorem fromUtf8_utf8
    (s : Str) :
    fromUtf8 (utf8 s) = some s := by
  have hDecode : (utf8 s).toByteArray.utf8Decode? = some s.toArray :=
    List.utf8Decode?_utf8Encode
  rw [fromUtf8, hDecode]
  rfl

/- And nothing else is. -/
theorem utf8_of_fromUtf8
    {bytes : Bytes}
    (hSome : (fromUtf8 bytes).isSome = true) :
    ∃ s, bytes = utf8 s := by
  rw [fromUtf8, Option.isSome_map] at hSome
  rcases ByteArray.isSome_utf8Decode?_iff.mp hSome with
    ⟨s, hBytes⟩
  exact ⟨s, List.toByteArray_inj.mp hBytes⟩

theorem fromUtf8_eq_some_iff
    {bytes : Bytes}
    {s : Str} :
    fromUtf8 bytes = some s ↔ bytes = utf8 s := by
  constructor
  · intro hSome
    rcases utf8_of_fromUtf8 (Option.isSome_of_mem hSome) with
      ⟨t, rfl⟩
    rw [fromUtf8_utf8] at hSome
    cases hSome
    rfl
  · rintro rfl
    exact fromUtf8_utf8 s

/- `char::to_digit(16)`. -/
def toDigit (b : UInt8) : Option Nat :=
  let n := b.toNat
  if 48 ≤ n ∧ n ≤ 57 then
    some (n - 48)
  else if 65 ≤ n ∧ n ≤ 70 then
    some (n - 55)
  else if 97 ≤ n ∧ n ≤ 102 then
    some (n - 87)
  else
    none

/- A continuation byte. -/
def isContinuation (b : UInt8) : Bool :=
  0x80 ≤ b && b ≤ 0xbf

/- What may follow the first byte of three. -/
def secondOfThree (a b : UInt8) : Bool :=
  if a = 0xe0 then
    0xa0 ≤ b && b ≤ 0xbf
  else if a = 0xed then
    0x80 ≤ b && b ≤ 0x9f
  else
    isContinuation b

/- What may follow the first byte of four. -/
def secondOfFour (a b : UInt8) : Bool :=
  if a = 0xf0 then
    0x90 ≤ b && b ≤ 0xbf
  else if a = 0xf4 then
    0x80 ≤ b && b ≤ 0x8f
  else
    isContinuation b

/- How many bytes one replacement character stands for. -/
def invalidLength : Bytes → Nat
| a :: b :: rest =>
    if 0xe0 ≤ a ∧ a ≤ 0xef ∧ secondOfThree a b = true then
      2
    else if
        0xf0 ≤ a ∧ a ≤ 0xf4 ∧ secondOfFour a b = true then
      if rest.head?.any isContinuation then 3 else 2
    else
      1
| _ => 1

theorem invalidLength_pos
    (bytes : Bytes) :
    0 < invalidLength bytes := by
  unfold invalidLength
  split
  · split
    · simp
    · split
      · split <;> simp
      · simp
  · simp

/- `String::from_utf8_lossy`. -/
def fromUtf8Lossy : Bytes → Str
| [] => []
| b :: rest =>
    match (b :: rest).toByteArray.utf8DecodeChar? 0 with
    | some c =>
        c :: fromUtf8Lossy ((b :: rest).drop c.utf8Size)
    | none =>
        Char.ofNat 0xfffd ::
          fromUtf8Lossy
            ((b :: rest).drop (invalidLength (b :: rest)))
termination_by bytes => bytes.length
decreasing_by
  · have hSize := c.utf8Size_pos
    simp only [List.length_drop, List.length_cons]
    omega
  · have hPos := invalidLength_pos (b :: rest)
    simp only [List.length_drop, List.length_cons]
    omega

/- One char per byte, as latin-1 decodes. -/
def latin1 (bytes : Bytes) : Str :=
  bytes.map fun b => Char.ofNat b.toNat

/- Bytes of ASCII characters are text. -/
theorem utf8_latin1
    {bytes : Bytes}
    (hAscii : ∀ b ∈ bytes, b < 128) :
    utf8 (latin1 bytes) = bytes := by
  induction bytes with
  | nil => rfl
  | cons b rest ih =>
      have hHere :=
        utf8EncodeChar_ofByte (hAscii b List.mem_cons_self)
      have hRest := ih fun c hc =>
        hAscii c (List.mem_cons_of_mem b hc)
      show utf8 (Char.ofNat b.toNat :: latin1 rest) = b :: rest
      rw [utf8_cons, hHere, hRest]
      rfl

/- ASCII text is its own latin-1 text. -/
theorem latin1_utf8
    {s : Str}
    (hAscii : ∀ c ∈ s, isAsciiChar c = true) :
    latin1 (utf8 s) = s := by
  induction s with
  | nil => rfl
  | cons c s ih =>
      have hChar :
          latin1 (String.utf8EncodeChar c) = [c] := by
        apply forall_ascii
          (P := fun c => latin1 (String.utf8EncodeChar c) = [c])
          (by decide +kernel)
          (hAscii c List.mem_cons_self)
      have hRest := ih fun d hMem =>
        hAscii d (List.mem_cons_of_mem c hMem)
      rw [utf8_cons, latin1, List.map_append]
      exact congrArg₂ (· ++ ·) hChar hRest

/- `str::len`: the number of UTF-8 bytes. -/
def byteLen (s : Str) : Nat :=
  (s.map Char.utf8Size).sum

@[simp] theorem length_utf8
    (s : Str) :
    (utf8 s).length = byteLen s := by
  simp [utf8, byteLen, List.length_flatMap,
    String.length_utf8EncodeChar]

/- ASCII text has one byte for each character. -/
theorem byteLen_of_ascii
    {s : Str}
    (hAscii : ∀ c ∈ s, isAsciiChar c = true) :
    byteLen s = s.length := by
  induction s with
  | nil => rfl
  | cons c rest ih =>
      have hSmall :=
        of_decide_eq_true (hAscii c List.mem_cons_self)
      have hSize : c.utf8Size = 1 := by
        rw [Char.utf8Size_eq_one_iff,
          UInt32.le_iff_toNat_le]
        exact Nat.le_of_lt_succ hSmall
      have hRest := ih fun d hd =>
        hAscii d (List.mem_cons_of_mem c hd)
      unfold byteLen at hRest ⊢
      rw [List.map_cons, List.sum_cons, hSize, hRest,
        List.length_cons, Nat.add_comm]

end MailgunRelay

------------------------------------------------------------
-- Sizes And Limits
------------------------------------------------------------

namespace MailgunRelay

/- A limit of the settings: any `i64`. -/
abbrev I64 := { n : Int // -2 ^ 63 ≤ n ∧ n < 2 ^ 63 }

/-
  `i64::try_from(len).map_or(true, |len| len > max)`, for a
  `len` that need not fit.
-/
def exceeds (len : Nat) (max : I64) : Bool :=
  if len < 2 ^ 63 then max.val < (len : Int) else true

/- The conversion never matters: a limit is an `i64`. -/
theorem exceeds_iff
    (len : Nat)
    (max : I64) :
    exceeds len max = true ↔ max.val < (len : Int) := by
  have hMax := max.property.2
  unfold exceeds
  split
  · simp
  · simp only [true_iff]
    omega

end MailgunRelay
