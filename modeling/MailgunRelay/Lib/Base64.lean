import Mathlib.Data.List.DropRight

/-
  The standard base64 alphabet: encoding with padding, and
  decoding of unpadded text with its trailing bits ignored.
  `Encodes` says which padded text stands for which bytes.

  Key definitions include:
    * `Lib.Base64.encode`
    * `Lib.Base64.decode`
    * `Lib.Base64.Encodes`
    * `Lib.Base64.decodePadded`

  Key theorems include:
    * `Lib.Base64.decode_digits`
    * `Lib.Base64.decode_encode`
    * `Lib.Base64.length_encode`
    * `Lib.Base64.encodes_quad_iff`
    * `Lib.Base64.encodes_pad_iff`
    * `Lib.Base64.decodePadded_eq_some_iff`
-/

------------------------------------------------------------
-- The Alphabet
------------------------------------------------------------

namespace Lib

namespace Base64

def alphabet : List Char :=
  "ABCDEFGHIJKLMNOPQRSTUVWXYZ".toList ++
    "abcdefghijklmnopqrstuvwxyz".toList ++
    "0123456789+/".toList

/- The character of six bits. -/
def digit (n : Nat) : Char :=
  alphabet.getD n 'A'

/- The six bits of a character. -/
def value (c : Char) : Option Nat :=
  alphabet.idxOf? c

theorem digit_mem
    (n : Nat) :
    digit n ∈ alphabet := by
  unfold digit
  rw [List.getD_eq_getElem?_getD]
  cases hGet : alphabet[n]? with
  | none => decide
  | some c => exact List.mem_of_getElem? hGet

theorem value_digit
    {n : Nat}
    (hLess : n < 64) :
    value (digit n) = some n := by
  have hAll : ∀ n < 64, value (digit n) = some n := by
    decide +kernel
  exact hAll n hLess

end Base64

end Lib

------------------------------------------------------------
-- Coding
------------------------------------------------------------

namespace Lib

namespace Base64

/- Three bytes are four digits; the rest has its bits. -/
def digits : List UInt8 → List Char
| [] => []
| [a] =>
    [digit (a.toNat / 4), digit (a.toNat % 4 * 16)]
| [a, b] =>
    [digit (a.toNat / 4),
      digit (a.toNat % 4 * 16 + b.toNat / 16),
      digit (b.toNat % 16 * 4)]
| a :: b :: c :: rest =>
    digit (a.toNat / 4) ::
      digit (a.toNat % 4 * 16 + b.toNat / 16) ::
      digit (b.toNat % 16 * 4 + c.toNat / 64) ::
      digit (c.toNat % 64) :: digits rest

/- The digits, padded to a multiple of four. -/
def encode (bytes : List UInt8) : List Char :=
  digits bytes ++
    List.replicate ((3 - bytes.length % 3) % 3) '='

/- The bytes of unpadded text. -/
def decode : List Char → Option (List UInt8)
| [] => some []
| [_] => none
| [c, d] => do
    let x ← value c
    let y ← value d
    some [UInt8.ofNat (x * 4 + y / 16)]
| [c, d, e] => do
    let x ← value c
    let y ← value d
    let z ← value e
    some
      [UInt8.ofNat (x * 4 + y / 16),
        UInt8.ofNat (y % 16 * 16 + z / 4)]
| c :: d :: e :: f :: text => do
    let x ← value c
    let y ← value d
    let z ← value e
    let w ← value f
    let rest ← decode text
    some
      (UInt8.ofNat (x * 4 + y / 16) ::
        UInt8.ofNat (y % 16 * 16 + z / 4) ::
        UInt8.ofNat (z % 4 * 64 + w) :: rest)

/- Text padded to a multiple of four. -/
def decodePadded (text : List Char) : Option (List UInt8) :=
  let body := text.rdropWhile (· == '=')
  if text.length % 4 = 0 ∧ text.length < body.length + 3 then
    decode body
  else
    none

theorem digits_mem
    {bytes : List UInt8}
    {c : Char}
    (hMem : c ∈ digits bytes) :
    c ∈ alphabet := by
  fun_induction digits bytes with
  | case1 => cases hMem
  | case2 a =>
      simp only [List.mem_cons, List.not_mem_nil,
        or_false] at hMem
      rcases hMem with rfl | rfl <;> exact digit_mem _
  | case3 a b =>
      simp only [List.mem_cons, List.not_mem_nil,
        or_false] at hMem
      rcases hMem with rfl | rfl | rfl <;> exact digit_mem _
  | case4 a b c' rest ih =>
      simp only [List.mem_cons] at hMem
      rcases hMem with rfl | rfl | rfl | rfl | hLater
      · exact digit_mem _
      · exact digit_mem _
      · exact digit_mem _
      · exact digit_mem _
      · exact ih hLater

theorem encode_mem
    {bytes : List UInt8}
    {c : Char}
    (hMem : c ∈ encode bytes) :
    c ∈ alphabet ∨ c = '=' := by
  rcases List.mem_append.mp hMem with hDigit | hPad
  · exact .inl (digits_mem hDigit)
  · exact .inr (List.eq_of_mem_replicate hPad)

/- The first byte is in the first two digits. -/
theorem byte_of_digits
    {a b : Nat}
    (hA : a < 256)
    (hB : b < 256) :
    a / 4 < 64 ∧ a % 4 * 16 + b / 16 < 64 ∧
      a / 4 * 4 + (a % 4 * 16 + b / 16) / 16 = a := by
  omega

/- The digits say the bytes. -/
theorem decode_digits
    (bytes : List UInt8) :
    decode (digits bytes) = some bytes := by
  fun_induction digits bytes with
  | case1 => rfl
  | case2 a =>
      have hA := a.toNat_lt
      have hByte :
          a.toNat / 4 * 4 + a.toNat % 4 * 16 / 16 =
            a.toNat := by
        omega
      simp only [decode,
        value_digit (show a.toNat / 4 < 64 by omega),
        value_digit (show a.toNat % 4 * 16 < 64 by omega),
        Option.bind_eq_bind, Option.bind_some, hByte,
        UInt8.ofNat_toNat]
  | case3 a b =>
      have hA := a.toNat_lt
      have hB := b.toNat_lt
      rcases byte_of_digits hA hB with ⟨hX, hY, hFirst⟩
      have hSecond :
          (a.toNat % 4 * 16 + b.toNat / 16) % 16 * 16 +
              b.toNat % 16 * 4 / 4 =
            b.toNat := by
        omega
      simp only [decode, value_digit hX, value_digit hY,
        value_digit (show b.toNat % 16 * 4 < 64 by omega),
        Option.bind_eq_bind, Option.bind_some, hFirst,
        hSecond, UInt8.ofNat_toNat]
  | case4 a b c rest ih =>
      have hA := a.toNat_lt
      have hB := b.toNat_lt
      have hC := c.toNat_lt
      rcases byte_of_digits hA hB with ⟨hX, hY, hFirst⟩
      have hZ : b.toNat % 16 * 4 + c.toNat / 64 < 64 := by
        omega
      have hSecond :
          (a.toNat % 4 * 16 + b.toNat / 16) % 16 * 16 +
              (b.toNat % 16 * 4 + c.toNat / 64) / 4 =
            b.toNat := by
        omega
      have hThird :
          (b.toNat % 16 * 4 + c.toNat / 64) % 4 * 64 +
              c.toNat % 64 =
            c.toNat := by
        omega
      simp only [decode, value_digit hX, value_digit hY,
        value_digit hZ,
        value_digit (show c.toNat % 64 < 64 by omega),
        ih, Option.bind_eq_bind, Option.bind_some, hFirst,
        hSecond, hThird, UInt8.ofNat_toNat]

theorem decode_encode
    (bytes : List UInt8) :
    decode ((encode bytes).rdropWhile (· == '=')) =
      some bytes := by
  have hStrip :
      (encode bytes).rdropWhile (· == '=') = digits bytes := by
    have hNone : '=' ∉ digits bytes := fun hMem =>
      absurd (digits_mem hMem) (by decide)
    unfold encode List.rdropWhile
    rw [List.reverse_append, List.reverse_replicate,
      List.dropWhile_append_of_pos (by simp)]
    rw [List.dropWhile_eq_self_iff.mpr, List.reverse_reverse]
    intro hLength hPad
    have hMem :
        (digits bytes).reverse[0] ∈ (digits bytes).reverse :=
      List.getElem_mem hLength
    rw [beq_iff_eq.mp hPad] at hMem
    exact hNone (List.mem_reverse.mp hMem)
  rw [hStrip, decode_digits]

theorem length_encode
    (bytes : List UInt8) :
    (encode bytes).length = 4 * ((bytes.length + 2) / 3) := by
  have hDigits :
      (digits bytes).length = (4 * bytes.length + 2) / 3 := by
    fun_induction digits bytes with
    | case1 => rfl
    | case2 => simp
    | case3 => simp
    | case4 a b c rest ih =>
        simp only [List.length_cons, ih]
        omega
  have hRest :
      bytes.length % 3 = 0 ∨ bytes.length % 3 = 1 ∨
        bytes.length % 3 = 2 := by
    omega
  unfold encode
  rw [List.length_append, List.length_replicate, hDigits]
  rcases hRest with h | h | h
  · rw [h]
    omega
  · rw [h]
    omega
  · rw [h]
    omega

end Base64

end Lib

------------------------------------------------------------
-- Padded Text
------------------------------------------------------------

namespace Lib

namespace Base64

/-
  Canonically padded text of the alphabet, and the bytes it
  stands for.  The bits of the last digit that no byte needs
  may be any bits.
-/
inductive Encodes : List Char → List UInt8 → Prop where
  | nil : Encodes [] []
  | one
      {c d : Char} {x y : Nat} {a : UInt8}
      (hC : value c = some x)
      (hD : value d = some y)
      (hA : a.toNat = x * 4 + y / 16) :
      Encodes [c, d, '=', '='] [a]
  | two
      {c d e : Char} {x y z : Nat} {a b : UInt8}
      (hC : value c = some x)
      (hD : value d = some y)
      (hE : value e = some z)
      (hA : a.toNat = x * 4 + y / 16)
      (hB : b.toNat = y % 16 * 16 + z / 4) :
      Encodes [c, d, e, '='] [a, b]
  | quad
      {c d e f : Char} {x y z w : Nat} {a b g : UInt8}
      {text : List Char} {bytes : List UInt8}
      (hC : value c = some x)
      (hD : value d = some y)
      (hE : value e = some z)
      (hF : value f = some w)
      (hA : a.toNat = x * 4 + y / 16)
      (hB : b.toNat = y % 16 * 16 + z / 4)
      (hG : g.toNat = z % 4 * 64 + w)
      (hRest : Encodes text bytes) :
      Encodes (c :: d :: e :: f :: text)
        (a :: b :: g :: bytes)

theorem value_lt
    {c : Char}
    {n : Nat}
    (hValue : value c = some n) :
    n < 64 := by
  have hLength : alphabet.length = 64 := by decide
  rcases List.idxOf?_eq_some_iff.mp hValue with ⟨hLess, -, -⟩
  omega

/- The padding is no digit. -/
@[simp] theorem value_pad : value '=' = none := by
  decide

theorem toNat_ofNat
    {n : Nat}
    (hByte : n < 256) :
    (UInt8.ofNat n).toNat = n :=
  UInt8.toNat_ofNat_of_lt' hByte

/- What the first quad of a longer text stands for. -/
theorem encodes_quad_iff
    {c d e f : Char}
    {text : List Char}
    {bytes : List UInt8}
    (hText : text ≠ [] ∨ f ≠ '=') :
    Encodes (c :: d :: e :: f :: text) bytes ↔
      ∃ x y z w rest,
        value c = some x ∧ value d = some y ∧
        value e = some z ∧ value f = some w ∧
        Encodes text rest ∧
        bytes =
          UInt8.ofNat (x * 4 + y / 16) ::
            UInt8.ofNat (y % 16 * 16 + z / 4) ::
            UInt8.ofNat (z % 4 * 64 + w) :: rest := by
  constructor
  · intro hEncodes
    cases hEncodes with
    | one => simp at hText
    | two => simp at hText
    | @quad _ _ _ _ x y z w a b g _ rest hC hD hE hF hA hB hG
        hRest =>
        refine
          ⟨x, y, z, w, rest, hC, hD, hE, hF, hRest, ?_⟩
        rw [← hA, ← hB, ← hG, UInt8.ofNat_toNat,
          UInt8.ofNat_toNat, UInt8.ofNat_toNat]
  · rintro ⟨x, y, z, w, rest, hC, hD, hE, hF, hRest, rfl⟩
    have hX := value_lt hC
    have hY := value_lt hD
    have hZ := value_lt hE
    have hW := value_lt hF
    exact
      .quad hC hD hE hF
        (toNat_ofNat (by omega))
        (toNat_ofNat (by omega))
        (toNat_ofNat (by omega)) hRest

/- The last quad, with padding. -/
theorem encodes_pad_iff
    {c d e : Char}
    {bytes : List UInt8} :
    Encodes [c, d, e, '='] bytes ↔
      ∃ x y,
        value c = some x ∧ value d = some y ∧
        ((e = '=' ∧ bytes = [UInt8.ofNat (x * 4 + y / 16)]) ∨
          ∃ z, value e = some z ∧
            bytes =
              [UInt8.ofNat (x * 4 + y / 16),
                UInt8.ofNat (y % 16 * 16 + z / 4)]) := by
  constructor
  · intro hEncodes
    cases hEncodes with
    | @one _ _ x y a hC hD hA =>
        refine ⟨x, y, hC, hD, .inl ⟨rfl, ?_⟩⟩
        rw [← hA, UInt8.ofNat_toNat]
    | @two _ _ _ x y z a b hC hD hE hA hB =>
        refine ⟨x, y, hC, hD, .inr ⟨z, hE, ?_⟩⟩
        rw [← hA, ← hB, UInt8.ofNat_toNat, UInt8.ofNat_toNat]
    | quad _ _ _ hF =>
        rw [value_pad] at hF
        cases hF
  · rintro ⟨x, y, hC, hD, ⟨rfl, rfl⟩ | ⟨z, hE, rfl⟩⟩
    · have hX := value_lt hC
      have hY := value_lt hD
      exact .one hC hD (toNat_ofNat (by omega))
    · have hX := value_lt hC
      have hY := value_lt hD
      have hZ := value_lt hE
      exact
        .two hC hD hE (toNat_ofNat (by omega))
          (toNat_ofNat (by omega))

theorem encodes_nil_iff
    {bytes : List UInt8} :
    Encodes [] bytes ↔ bytes = [] := by
  constructor
  · intro hEncodes
    cases hEncodes
    rfl
  · rintro rfl
    exact .nil

/- The text of some bytes has whole quads. -/
theorem Encodes.length_mod
    {text : List Char}
    {bytes : List UInt8}
    (hEncodes : Encodes text bytes) :
    text.length % 4 = 0 := by
  induction hEncodes with
  | nil => rfl
  | one => simp
  | two => simp
  | quad _ _ _ _ _ _ _ _ ih =>
      simp only [List.length_cons]
      omega

/- Only whole quads are decoded. -/
theorem decodePadded_mod
    {text : List Char}
    (hMod : text.length % 4 ≠ 0) :
    decodePadded text = none := by
  unfold decodePadded
  exact if_neg fun hAll => hMod hAll.1

/- The first quad of a longer text. -/
theorem decodePadded_quad
    {c d e f : Char}
    {text : List Char}
    (hText : text ≠ []) :
    decodePadded (c :: d :: e :: f :: text) = (do
      let x ← value c
      let y ← value d
      let z ← value e
      let w ← value f
      let rest ← decodePadded text
      some
        (UInt8.ofNat (x * 4 + y / 16) ::
          UInt8.ofNat (y % 16 * 16 + z / 4) ::
          UInt8.ofNat (z % 4 * 64 + w) :: rest)) := by
  by_cases hMod : text.length % 4 = 0
  · have hLength := List.length_pos_of_ne_nil hText
    cases hBody : text.rdropWhile (· == '=') with
    | nil =>
        -- Nothing but padding: too much of it.
        have hNone : decodePadded text = none := by
          unfold decodePadded
          rw [hBody]
          apply if_neg
          rintro ⟨-, hFew⟩
          rw [List.length_nil] at hFew
          omega
        have hAll : ∀ p ∈ text, (p == '=') = true :=
          List.rdropWhile_eq_nil_iff.mp hBody
        have hFront :
            (c :: d :: e :: f :: text).rdropWhile (· == '=') =
              [c, d, e, f].rdropWhile (· == '=') := by
          unfold List.rdropWhile
          rw [show c :: d :: e :: f :: text =
              [c, d, e, f] ++ text from rfl,
            List.reverse_append,
            List.dropWhile_append_of_pos]
          intro p hMem
          exact hAll p (List.mem_reverse.mp hMem)
        have hShort :=
          (List.rdropWhile_prefix (· == '=')
            [c, d, e, f]).length_le
        rw [hNone]
        unfold decodePadded
        simp only [hFront]
        rw [if_neg]
        · cases value c <;> cases value d <;> cases value e <;>
            cases value f <;> rfl
        · rintro ⟨-, hFew⟩
          simp only [List.length_cons, List.length_nil] at *
          omega
    | cons g body =>
        have hFront :
            (c :: d :: e :: f :: text).rdropWhile (· == '=') =
              c :: d :: e :: f :: g :: body := by
          unfold List.rdropWhile at hBody ⊢
          rw [List.reverse_eq_iff] at hBody
          rw [show c :: d :: e :: f :: text =
              [c, d, e, f] ++ text from rfl,
            List.reverse_append, List.dropWhile_append, hBody]
          simp
        unfold decodePadded
        simp only [hFront, hBody, List.length_cons]
        by_cases hFew : text.length < body.length + 1 + 3
        · rw [if_pos ⟨by omega, by omega⟩,
            if_pos ⟨hMod, hFew⟩, decode]
        · rw [if_neg (by omega), if_neg (by omega)]
          cases value c <;> cases value d <;> cases value e <;>
            cases value f <;> rfl
  · rw [decodePadded_mod hMod, decodePadded_mod]
    · cases value c <;> cases value d <;> cases value e <;>
        cases value f <;> rfl
    · simp only [List.length_cons]
      omega

/- A last quad without padding. -/
theorem decodePadded_none
    {c d e f : Char}
    (hF : f ≠ '=') :
    decodePadded [c, d, e, f] = decode [c, d, e, f] := by
  simp [decodePadded, List.rdropWhile, hF]

/- A last quad of three digits. -/
theorem decodePadded_two
    {c d e : Char}
    (hE : e ≠ '=') :
    decodePadded [c, d, e, '='] = decode [c, d, e] := by
  simp [decodePadded, List.rdropWhile, hE]

/- A last quad of two digits. -/
theorem decodePadded_one
    {c d : Char}
    (hD : d ≠ '=') :
    decodePadded [c, d, '=', '='] = decode [c, d] := by
  simp [decodePadded, List.rdropWhile, hD]

/- One digit is not enough. -/
theorem decodePadded_pads
    {c : Char} :
    decodePadded [c, '=', '=', '='] = none := by
  by_cases hC : c = '='
  · simp [decodePadded, List.rdropWhile, hC]
  · simp [decodePadded, List.rdropWhile, hC]

/- The decoder reads just the text of some bytes. -/
theorem decodePadded_eq_some_iff
    (text : List Char)
    (bytes : List UInt8) :
    decodePadded text = some bytes ↔ Encodes text bytes := by
  match text with
  | [] =>
      rw [encodes_nil_iff]
      constructor
      · intro hNil
        cases hNil
        rfl
      · rintro rfl
        rfl
  | [_] | [_, _] | [_, _, _] =>
      constructor
      · rw [decodePadded_mod (by simp)]
        nofun
      · intro hEncodes
        cases hEncodes.length_mod
  | [c, d, e, f] =>
      by_cases hF : f = '='
      · subst hF
        rw [encodes_pad_iff]
        by_cases hE : e = '='
        · subst hE
          by_cases hD : d = '='
          · subst hD
            simp [decodePadded_pads]
          · rw [decodePadded_one hD]
            simp [decode, Option.bind_eq_some_iff,
              @eq_comm _ _ bytes]
        · rw [decodePadded_two hE]
          simp [decode, hE, Option.bind_eq_some_iff,
            @eq_comm _ _ bytes]
      · rw [encodes_quad_iff (.inr hF), decodePadded_none hF]
        simp [decode, encodes_nil_iff,
          Option.bind_eq_some_iff, @eq_comm _ _ bytes]
  | c :: d :: e :: f :: g :: text =>
      rw [encodes_quad_iff (.inl (List.cons_ne_nil g text)),
        decodePadded_quad (List.cons_ne_nil g text)]
      simp only [Option.bind_eq_bind, Option.bind_eq_some_iff,
        Option.some.injEq, decodePadded_eq_some_iff (g :: text)]
      constructor
      · rintro ⟨x, hC, y, hD, z, hE, w, hF, rest, hRest, hBytes⟩
        exact
          ⟨x, y, z, w, rest, hC, hD, hE, hF, hRest, hBytes.symm⟩
      · rintro ⟨x, y, z, w, rest, hC, hD, hE, hF, hRest, hBytes⟩
        exact
          ⟨x, hC, y, hD, z, hE, w, hF, rest, hRest, hBytes.symm⟩
termination_by text.length

end Base64

end Lib
