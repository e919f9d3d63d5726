import MailgunRelay.Lib.Pattern
import MailgunRelay.Secrets.Invariants

/-
  The hash of a token written without quotes.

  A hash is text only when it is no number in YAML 1.1: one
  of decimal digits, of octal digits after a zero, or of
  binary digits after `0b` is an integer.  The loader refuses
  it and does not convert it.

  Key definitions include:
    * `MailgunRelay.Yaml.readsAsInt`

  Key theorems include:
    * `MailgunRelay.Yaml.intPattern_hash`
    * `MailgunRelay.Yaml.resolvePlain_hash`
    * `MailgunRelay.Secrets.loadHash_scalar`
-/

------------------------------------------------------------
-- Words Of The Patterns
------------------------------------------------------------

namespace MailgunRelay

namespace Yaml

theorem word_rmatch_iff
    (s : String)
    (text : Str) :
    (word s).rmatch text = true ↔ text = s.toList := by
  unfold word
  generalize s.toList = letters
  induction letters generalizing text with
  | nil => exact RegularExpression.one_rmatch_iff text
  | cons c letters ih =>
      rw [List.foldr_cons, RegularExpression.mul_rmatch_iff]
      constructor
      · intro hText
        rcases hText with ⟨first, rest, rfl, hFirst, hRest⟩
        rw [(RegularExpression.char_rmatch_iff c first).mp
          hFirst, (ih rest).mp hRest]
        rfl
      · intro hText
        exact
          ⟨[c], letters, hText,
            (RegularExpression.char_rmatch_iff c [c]).mpr rfl,
            (ih letters).mpr rfl⟩

theorem oneOf_rmatch_iff
    (s : String)
    (text : Str) :
    (oneOf s).rmatch text = true ↔
      ∃ c ∈ s.toList, text = [c] := by
  unfold oneOf
  generalize s.toList = letters
  induction letters with
  | nil =>
      rw [List.foldr_nil, RegularExpression.zero_rmatch]
      simp
  | cons c letters ih =>
      rw [List.foldr_cons, RegularExpression.add_rmatch_iff,
        RegularExpression.char_rmatch_iff, ih,
        List.exists_mem_cons_iff]

theorem anyOf_rmatch_iff
    (patterns : List Pattern)
    (text : Str) :
    (anyOf patterns).rmatch text = true ↔
      ∃ p ∈ patterns, p.rmatch text = true := by
  unfold anyOf
  induction patterns with
  | nil =>
      rw [List.foldr_nil, RegularExpression.zero_rmatch]
      simp
  | cons p patterns ih =>
      rw [List.foldr_cons, RegularExpression.add_rmatch_iff,
        ih, List.exists_mem_cons_iff]

/- Any text of the letters. -/
theorem many_oneOf_rmatch_iff
    (s : String)
    (text : Str) :
    (many (oneOf s)).rmatch text = true ↔
      ∀ c ∈ text, c ∈ s.toList := by
  unfold many
  rw [RegularExpression.star_rmatch_iff]
  constructor
  · intro hText c hMem
    rcases hText with ⟨parts, rfl, hParts⟩
    rcases List.mem_flatten.mp hMem with ⟨part, hPart, hMem⟩
    rcases (oneOf_rmatch_iff s part).mp (hParts part hPart).2
      with ⟨letter, hLetter, rfl⟩
    rw [List.mem_singleton.mp hMem]
    exact hLetter
  · intro hLetters
    refine ⟨text.map fun c => [c], ?_, ?_⟩
    · rw [← List.flatMap_def, List.flatMap_singleton']
    · intro part hPart
      rcases List.mem_map.mp hPart with ⟨c, hMem, rfl⟩
      exact
        ⟨List.cons_ne_nil c [],
          (oneOf_rmatch_iff s [c]).mpr
            ⟨c, hLetters c hMem, rfl⟩⟩

/- The same of at least one letter. -/
theorem many1_oneOf_rmatch_iff
    (s : String)
    (text : Str) :
    (many1 (oneOf s)).rmatch text = true ↔
      text ≠ [] ∧ ∀ c ∈ text, c ∈ s.toList := by
  unfold many1
  rw [RegularExpression.mul_rmatch_iff]
  constructor
  · intro hText
    rcases hText with ⟨first, rest, rfl, hFirst, hRest⟩
    rcases (oneOf_rmatch_iff s first).mp hFirst with
      ⟨c, hLetter, rfl⟩
    refine ⟨List.cons_ne_nil c rest, ?_⟩
    exact
      List.forall_mem_cons.mpr
        ⟨hLetter, (many_oneOf_rmatch_iff s rest).mp hRest⟩
  · intro hText
    rcases hText with ⟨hNonempty, hLetters⟩
    cases text with
    | nil => exact absurd rfl hNonempty
    | cons c rest =>
        rcases List.forall_mem_cons.mp hLetters with
          ⟨hLetter, hRest⟩
        exact
          ⟨[c], rest, rfl,
            (oneOf_rmatch_iff s [c]).mpr ⟨c, hLetter, rfl⟩,
            (many_oneOf_rmatch_iff s rest).mpr hRest⟩

/- No sign stands before text that has none. -/
theorem sign_mul_rmatch_iff
    (p : Pattern)
    {text : Str}
    (hSigns : ∀ c ∈ text, c ≠ '-' ∧ c ≠ '+') :
    (sign * p).rmatch text = true ↔ p.rmatch text = true := by
  unfold sign maybe
  rw [RegularExpression.mul_rmatch_iff]
  constructor
  · intro hText
    rcases hText with ⟨first, rest, rfl, hFirst, hRest⟩
    rcases (RegularExpression.add_rmatch_iff _ _ first).mp
      hFirst with hEmpty | hSign
    · rw [(RegularExpression.one_rmatch_iff first).mp hEmpty]
      exact hRest
    · rcases (oneOf_rmatch_iff "-+" first).mp hSign with
        ⟨c, hLetter, rfl⟩
      have hNone := hSigns c List.mem_cons_self
      simp at hLetter
      rcases hLetter with rfl | rfl
      · exact absurd rfl hNone.1
      · exact absurd rfl hNone.2
  · intro hText
    exact
      ⟨[], text, rfl,
        (RegularExpression.add_rmatch_iff _ _ []).mpr
          (.inl ((RegularExpression.one_rmatch_iff []).mpr
            rfl)),
        hText⟩

theorem mul_mul_rmatch_iff
    (p q r : Pattern)
    (text : Str) :
    (p * q * r).rmatch text = true ↔
      (p * (q * r)).rmatch text = true := by
  rw [RegularExpression.rmatch_iff_matches',
    RegularExpression.rmatch_iff_matches']
  simp only [RegularExpression.matches'_mul, mul_assoc]

end Yaml

end MailgunRelay

------------------------------------------------------------
-- Numbers In Hex Digits
------------------------------------------------------------

namespace MailgunRelay

namespace Yaml

/- The characters of a hash. -/
def hexLetters : Str := "0123456789abcdef".toList

/-
  A hash that is an integer in YAML 1.1: binary after `0b`,
  octal after `0`, or decimal.
-/
def readsAsInt : Str → Bool
| '0' :: 'b' :: rest =>
    rest.all fun c => "01".toList.contains c
| '0' :: rest =>
    rest.all fun c => "01234567".toList.contains c
| sha => sha.all fun c => "0123456789".toList.contains c

/- The letters of a class are those of a smaller one. -/
theorem class_iff
    {s t : String}
    (hClass :
      (hexLetters.all fun c =>
        s.toList.contains c == t.toList.contains c) = true)
    {text : Str}
    (hHex : ∀ c ∈ text, c ∈ hexLetters) :
    (∀ c ∈ text, c ∈ s.toList) ↔
      (text.all fun c => t.toList.contains c) = true := by
  have hSame : ∀ c ∈ text, c ∈ s.toList ↔ c ∈ t.toList := by
    intro c hMem
    have hHere :=
      beq_iff_eq.mp
        (List.all_eq_true.mp hClass c (hHex c hMem))
    rw [← List.contains_iff_mem, ← List.contains_iff_mem,
      hHere]
  rw [List.all_eq_true]
  constructor
  · intro hText c hMem
    exact List.contains_iff_mem.mpr
      ((hSame c hMem).mp (hText c hMem))
  · intro hText c hMem
    exact (hSame c hMem).mpr
      (List.contains_iff_mem.mp (hText c hMem))

theorem hex_noSign
    {text : Str}
    (hHex : ∀ c ∈ text, c ∈ hexLetters) :
    ∀ c ∈ text, c ≠ '-' ∧ c ≠ '+' := by
  have hAll :
      (hexLetters.all fun c => c != '-' && c != '+') =
        true := by
    decide +kernel
  intro c hMem
  have hHere := List.all_eq_true.mp hAll c (hHex c hMem)
  simpa using hHere

/- A pattern that needs another letter matches no hash. -/
theorem hex_noMatch
    {p : Pattern}
    {c : Char}
    (hNeeds : Lib.Pattern.needs (· == c) p = true)
    (hLetter : c ∉ hexLetters)
    {text : Str}
    (hHex : ∀ c ∈ text, c ∈ hexLetters) :
    ¬ p.rmatch text = true := by
  intro hText
  rcases Lib.Pattern.exists_of_needs hNeeds hText with
    ⟨d, hMem, hEq⟩
  rw [beq_iff_eq.mp hEq] at hMem
  exact hLetter (hHex c hMem)

theorem base_rmatch_iff
    (s : String)
    (p : Pattern)
    {text : Str}
    (hHex : ∀ c ∈ text, c ∈ hexLetters) :
    (sign * word s * p).rmatch text = true ↔
      ∃ rest, text = s.toList ++ rest ∧
        p.rmatch rest = true := by
  rw [mul_mul_rmatch_iff,
    sign_mul_rmatch_iff _ (hex_noSign hHex),
    RegularExpression.mul_rmatch_iff]
  constructor
  · intro hText
    rcases hText with ⟨first, rest, rfl, hFirst, hRest⟩
    rw [(word_rmatch_iff s first).mp hFirst]
    exact ⟨rest, rfl, hRest⟩
  · intro hText
    rcases hText with ⟨rest, rfl, hRest⟩
    exact
      ⟨s.toList, rest, rfl, (word_rmatch_iff s _).mpr rfl,
        hRest⟩

/- A decimal number that is not just a zero. -/
theorem decimal_rmatch_iff
    {text : Str}
    (hHex : ∀ c ∈ text, c ∈ hexLetters)
    (hLong : 1 < text.length) :
    (sign *
        (word "0" +
          oneOf "123456789" * many digitOrUnderscore)).rmatch
        text = true ↔
      ∃ c rest, text = c :: rest ∧ c ≠ '0' ∧
        (text.all fun c => "0123456789".toList.contains c) =
          true := by
  rw [sign_mul_rmatch_iff _ (hex_noSign hHex),
    RegularExpression.add_rmatch_iff, word_rmatch_iff,
    RegularExpression.mul_rmatch_iff]
  constructor
  · intro hText
    rcases hText with hZero | hText
    · rw [hZero] at hLong
      exact absurd hLong (by decide)
    rcases hText with ⟨first, rest, rfl, hFirst, hRest⟩
    rcases (oneOf_rmatch_iff _ first).mp hFirst with
      ⟨c, hLetter, rfl⟩
    rw [List.singleton_append] at hHex ⊢
    rcases List.forall_mem_cons.mp hHex with ⟨hC, hRestHex⟩
    refine ⟨c, rest, rfl, ?_, ?_⟩
    · intro hZero
      rw [hZero] at hLetter
      exact absurd hLetter (by decide)
    · have hDigits :=
        (class_iff (t := "0123456789") (by decide +kernel)
          hRestHex).mp
          ((many_oneOf_rmatch_iff _ rest).mp hRest)
      rw [List.all_cons, hDigits, Bool.and_true,
        List.contains_iff_mem]
      exact List.mem_cons_of_mem _ hLetter
  · intro hText
    rcases hText with ⟨c, rest, rfl, hZero, hDigits⟩
    rcases List.forall_mem_cons.mp hHex with ⟨hC, hRestHex⟩
    rw [List.all_cons, Bool.and_eq_true] at hDigits
    have hLetter :=
      List.mem_cons.mp (List.contains_iff_mem.mp hDigits.1)
    refine .inr ⟨[c], rest, rfl, ?_, ?_⟩
    · exact
        (oneOf_rmatch_iff _ [c]).mpr
          ⟨c, hLetter.resolve_left hZero, rfl⟩
    · exact
        (many_oneOf_rmatch_iff _ rest).mpr
          ((class_iff (by decide +kernel) hRestHex).mpr
            hDigits.2)

end Yaml

end MailgunRelay

------------------------------------------------------------
-- Plain Hashes
------------------------------------------------------------

namespace MailgunRelay

namespace Yaml

open Secrets (Node isHash isHash_digits)

theorem hash_letters
    {sha : Str}
    (hHash : isHash sha = true) :
    sha.length = 64 ∧ ∀ c ∈ sha, c ∈ hexLetters := by
  rcases isHash_digits hHash with ⟨hLength, hDigits⟩
  refine ⟨hLength, ?_⟩
  intro c hMem
  have hAll :
      ((List.range 128).all fun n =>
        !(('0' ≤ Char.ofNat n && Char.ofNat n ≤ '9') ||
          ('a' ≤ Char.ofNat n && Char.ofNat n ≤ 'f')) ||
        hexLetters.contains (Char.ofNat n)) = true := by
    decide +kernel
  have hDigit := hDigits c hMem
  have hAscii : isAsciiChar c = true := by
    simp only [Char.le_def, UInt32.le_iff_toNat_le] at hDigit
    have hVal : c.toNat = c.val.toNat := rfl
    simp only [isAsciiChar, decide_eq_true_eq]
    rcases hDigit with hDigit | hDigit
    · simp at hDigit
      omega
    · simp at hDigit
      omega
  have hHere :=
    @forall_ascii
      (fun c =>
        (!(('0' ≤ c && c ≤ '9') || ('a' ≤ c && c ≤ 'f')) ||
          hexLetters.contains c) = true)
      (fun n hSmall =>
        List.all_eq_true.mp hAll n (List.mem_range.mpr hSmall))
      c hAscii
  rcases Bool.or_eq_true_iff.mp hHere with hNone | hLetter
  · simp only [Bool.not_eq_true', Bool.or_eq_false_iff,
      Bool.and_eq_false_iff, decide_eq_false_iff_not]
      at hNone
    rcases hDigit with hDigit | hDigit
    · rcases hNone.1 with hLow | hHigh
      · exact absurd hDigit.1 hLow
      · exact absurd hDigit.2 hHigh
    · rcases hNone.2 with hLow | hHigh
      · exact absurd hDigit.1 hLow
      · exact absurd hDigit.2 hHigh
  · exact List.contains_iff_mem.mp hLetter

/- The integers among the hashes. -/
theorem intPattern_hash
    {sha : Str}
    (hHash : isHash sha = true) :
    intPattern.rmatch sha = readsAsInt sha := by
  rcases hash_letters hHash with ⟨hLength, hHex⟩
  have hLong : 1 < sha.length := by
    omega
  rw [Bool.eq_iff_iff]
  unfold intPattern
  rw [anyOf_rmatch_iff]
  simp only [List.exists_mem_cons_iff, List.not_mem_nil,
    false_and, exists_false, or_false]
  rw [base_rmatch_iff "0b" _ hHex, base_rmatch_iff "0" _ hHex,
    decimal_rmatch_iff hHex hLong]
  constructor
  · intro hText
    rcases hText with hBinary | hOctal | hDecimal | hHexa |
      hSixty
    · rcases hBinary with ⟨rest, rfl, hRest⟩
      exact
        (class_iff (by decide +kernel) fun c hMem =>
          hHex c (List.mem_append_right _ hMem)).mp
          ((many1_oneOf_rmatch_iff _ rest).mp hRest).2
    · rcases hOctal with ⟨rest, rfl, hRest⟩
      have hDigits :=
        (class_iff (t := "01234567") (by decide +kernel)
          fun c hMem =>
            hHex c (List.mem_append_right _ hMem)).mp
          ((many1_oneOf_rmatch_iff _ rest).mp hRest).2
      -- The letter `b` is no octal digit.
      unfold readsAsInt
      split
      · rename_i tail hText
        have hRest : rest = 'b' :: tail :=
          (List.cons.inj hText).2
        rw [hRest] at hDigits
        exact absurd hDigits Bool.false_ne_true
      · rename_i tail hNotBinary hText
        have hRest : rest = tail := (List.cons.inj hText).2
        rw [← hRest]
        exact hDigits
      · rename_i hNotOctal
        exact absurd rfl (hNotOctal rest)
    · rcases hDecimal with ⟨c, rest, rfl, hZero, hDigits⟩
      unfold readsAsInt
      split
      · rename_i tail hText
        exact absurd (List.cons.inj hText).1 hZero
      · rename_i tail hNotBinary hText
        exact absurd (List.cons.inj hText).1 hZero
      · exact hDigits
    · exact
        absurd hHexa
          (@hex_noMatch _ 'x' (by decide +kernel)
            (by decide +kernel) _ hHex)
    · exact
        absurd hSixty
          (@hex_noMatch _ ':' (by decide +kernel)
            (by decide +kernel) _ hHex)
  · intro hText
    unfold readsAsInt at hText
    split at hText
    · rename_i rest
      refine .inl ⟨rest, rfl, ?_⟩
      refine (many1_oneOf_rmatch_iff _ rest).mpr ⟨?_, ?_⟩
      · intro hNil
        rw [hNil] at hLength
        exact absurd hLength (by decide)
      · exact
          (class_iff (by decide +kernel) fun c hMem =>
            hHex c
              (List.mem_cons_of_mem _
                (List.mem_cons_of_mem _ hMem))).mpr
            hText
    · rename_i rest hNotBinary
      refine .inr (.inl ⟨rest, rfl, ?_⟩)
      refine (many1_oneOf_rmatch_iff _ rest).mpr ⟨?_, ?_⟩
      · intro hNil
        rw [hNil] at hLength
        exact absurd hLength (by decide)
      · exact
          (class_iff (by decide +kernel) fun c hMem =>
            hHex c (List.mem_cons_of_mem _ hMem)).mpr
            hText
    · rename_i hNotOctal
      refine .inr (.inr (.inl ?_))
      cases sha with
      | nil => exact absurd hLength (by decide)
      | cons c rest =>
          refine ⟨c, rest, rfl, ?_, hText⟩
          intro hZero
          exact hNotOctal rest (congrArg (· :: rest) hZero)

/- No hash is one of a few short words. -/
theorem hash_noWord
    {words : List String}
    (hShort :
      (words.all fun w => w.toList.length != 64) = true)
    {sha : Str}
    (hHash : isHash sha = true) :
    ¬ (anyOf (words.map word)).rmatch sha = true := by
  intro hText
  rcases (anyOf_rmatch_iff _ sha).mp hText with
    ⟨p, hMem, hMatch⟩
  rcases List.mem_map.mp hMem with ⟨w, hWord, rfl⟩
  have hHere := List.all_eq_true.mp hShort w hWord
  rw [← (word_rmatch_iff w sha).mp hMatch,
    (hash_letters hHash).1] at hHere
  exact absurd hHere (by decide)

/- A plain hash is an integer, or the text as it stands. -/
theorem resolvePlain_hash
    {sha : Str}
    (hHash : isHash sha = true) :
    resolvePlain sha =
      .ok (if readsAsInt sha then .other "int".toList
        else .str sha) := by
  rcases hash_letters hHash with ⟨hLength, hHex⟩
  have hNever
      (c : Char)
      (hLetter : c ∉ hexLetters) :
      c ∉ sha :=
    fun hMem => hLetter (hHex c hMem)
  have hDigits :
      ((sha.dropWhile fun c => c == '-' || c == '+').filter
        (· != '_')) = sha := by
    rw [List.dropWhile_eq_self_iff.mpr]
    · apply List.filter_eq_self.mpr
      intro c hMem
      rw [bne_iff_ne]
      intro hEq
      rw [hEq] at hMem
      exact hNever '_' (by decide +kernel) hMem
    · intro hPositive hSign
      have hNone :=
        hex_noSign hHex sha[0]
          (List.getElem_mem hPositive)
      rcases Bool.or_eq_true_iff.mp hSign with hSign | hSign
      · exact hNone.1 (beq_iff_eq.mp hSign)
      · exact hNone.2 (beq_iff_eq.mp hSign)
  have hOther
      (text : String)
      (hShort : text.toList.length ≠ 64) :
      sha ≠ text.toList := by
    intro hEq
    rw [hEq] at hLength
    exact hShort hLength
  have hNull : ¬ nullPattern.rmatch sha = true := by
    unfold nullPattern
    exact hash_noWord (by decide +kernel) hHash
  have hBool : ¬ boolPattern.rmatch sha = true := by
    unfold boolPattern
    exact hash_noWord (by decide +kernel) hHash
  unfold resolvePlain
  rw [if_neg hNull, if_neg hBool,
    if_neg
      (@hex_noMatch floatPattern '.' (by decide +kernel)
        (by decide +kernel) _ hHex),
    intPattern_hash hHash]
  by_cases hInt : readsAsInt sha = true
  · rw [if_pos hInt, if_pos hInt]
    dsimp only
    rw [hDigits, if_neg, if_neg]
    · rw [List.splitOn_eq_singleton
        (hNever ':' (by decide +kernel))]
      simp [hLength]
    · intro hBare
      rcases hBare with hBare | hBare
      · exact hOther "0b" (by decide) hBare
      · exact hOther "0x" (by decide) hBare
  · rw [if_neg hInt, if_neg hInt,
      if_neg
        (@hex_noMatch timestampPattern '-' (by decide +kernel)
          (by decide +kernel) _ hHex),
      if_neg (hOther "<<" (by decide)),
      if_neg (hOther "=" (by decide))]

end Yaml

end MailgunRelay

------------------------------------------------------------
-- The Hash Of A Token
------------------------------------------------------------

namespace MailgunRelay

namespace Secrets

open Yaml

variable [Unicode]

/- A hash of text is taken as it stands. -/
theorem loadHash_str
    {raw : Node}
    {sha : Str}
    (hHash : isHash sha = true)
    (hRaw : raw.get "token_sha256".toList = some (.str sha))
    (field : Str) :
    loadHash raw field = .ok sha := by
  rcases hash_letters hHash with ⟨hLength, hHex⟩
  have hPlain :
      (hexLetters.all fun c =>
        isAsciiChar c && !isPySpace c && c.toLower == c) =
        true := by
    decide +kernel
  have hChar :
      ∀ c ∈ sha, isAsciiChar c = true ∧
        isPySpace c = false ∧ c.toLower = c := by
    intro c hMem
    have hHere := List.all_eq_true.mp hPlain c (hHex c hMem)
    simp only [Bool.and_eq_true, Bool.not_eq_true',
      beq_iff_eq] at hHere
    exact ⟨hHere.1.1, hHere.1.2, hHere.2⟩
  have hLower : lowercase (pyStrip sha) = sha := by
    rw [pyStrip_eq_self fun c hMem => (hChar c hMem).2.1,
      lowercase_of_ascii fun c hMem => (hChar c hMem).1]
    unfold asciiLowercase
    rw [List.map_congr_left fun c hMem => (hChar c hMem).2.2,
      List.map_id']
  have hReal : ¬ forbiddenValues.contains sha = true := by
    intro hMem
    have hShort :
        (forbiddenValues.all fun value =>
          value.length != 64) = true := by
      decide +kernel
    have hHere :=
      List.all_eq_true.mp hShort sha
        (List.contains_iff_mem.mp hMem)
    rw [hLength] at hHere
    exact absurd hHere (by decide)
  unfold loadHash rejectPlaceholder
  rw [hRaw]
  dsimp only [bind, Except.bind, pure, Except.pure]
  rw [if_neg hReal]
  dsimp only
  rw [hLower, if_pos hHash]

/- A scalar of another type is named, and not converted. -/
theorem loadHash_other
    {raw : Node}
    {name : Str}
    (hRaw :
      raw.get "token_sha256".toList = some (.other name))
    (field : Str) :
    loadHash raw field =
      .error
        (dotted field "token_sha256" ++
          " must be a quoted hex string, found ".toList ++
          name ++ " (PLAN.md D-5)".toList) := by
  unfold loadHash
  rw [hRaw]
  rfl

/-
  A hash in a scalar without a tag: it is taken as it is
  written, or refused as an integer when it is plain and
  reads as one.  It is never taken as another hash.
-/
theorem loadHash_scalar
    {sha : Str}
    (hHash : isHash sha = true)
    (style : ScalarStyle)
    (mark : Mark) :
    ∃ node, scalarNode sha style none mark = .ok node ∧
      ∀ raw field,
        raw.get "token_sha256".toList = some node →
          loadHash raw field =
            if style = .plain ∧ readsAsInt sha = true then
              .error
                (dotted field "token_sha256" ++
                  " must be a quoted hex string, found ".toList ++
                  "int (PLAN.md D-5)".toList)
            else
              .ok sha := by
  unfold scalarNode
  dsimp only
  by_cases hInt : style = .plain ∧ readsAsInt sha = true
  · rw [if_pos hInt.1, resolvePlain_hash hHash,
      if_pos hInt.2]
    refine ⟨_, rfl, ?_⟩
    intro raw field hRaw
    rw [if_pos hInt, loadHash_other hRaw]
    simp only [List.append_assoc]
    rfl
  · refine ⟨.str sha, ?_, ?_⟩
    · by_cases hPlain : style = .plain
      · rw [if_pos hPlain, resolvePlain_hash hHash,
          if_neg fun hRead => hInt ⟨hPlain, hRead⟩]
      · rw [if_neg hPlain]
    · intro raw field hRaw
      rw [if_neg hInt, loadHash_str hHash hRaw]

omit [Unicode] in
/- Sixty-four digits are refused when they are plain. -/
theorem loadHash_scalar_digits :
    ∃ node,
      scalarNode (List.replicate 64 '1') .plain none ⟨1, 1⟩ =
          .ok node ∧
        ∀ raw field,
          raw.get "token_sha256".toList = some node →
            (@loadHash Unicode.ascii raw field).isOk =
              false := by
  rcases
    @loadHash_scalar Unicode.ascii (List.replicate 64 '1')
      (by decide +kernel) .plain ⟨1, 1⟩ with
    ⟨node, hNode, hLoad⟩
  refine ⟨node, hNode, ?_⟩
  intro raw field hRaw
  rw [hLoad raw field hRaw,
    if_pos ⟨rfl, by decide +kernel⟩]
  rfl

end Secrets

end MailgunRelay
