import MailgunRelay.Lib.Gregorian
import MailgunRelay.Yaml.Hashes

/-
  Timestamps without quotes.

  What YAML 1.1 reads as a timestamp is always cut into its
  numbers, and is refused exactly if these are no date of the
  calendar, no time of the day or no time zone.

  Key definitions include:
    * `MailgunRelay.Yaml.IsDigits`
    * `MailgunRelay.Yaml.WrittenTimestamp`
    * `MailgunRelay.Yaml.Timestamp.Real`

  Key theorems include:
    * `MailgunRelay.Yaml.timestampPattern_iff`
    * `MailgunRelay.Yaml.timestampParts_written`
    * `MailgunRelay.Yaml.timestampIsValid_iff`
    * `MailgunRelay.Yaml.resolvePlain_timestamp`
-/

------------------------------------------------------------
-- Digits
------------------------------------------------------------

namespace MailgunRelay

namespace Yaml

/- So many digits. -/
structure IsDigits
    (least most : Nat)
    (text : Str) : Prop where
  least : least ≤ text.length
  most : text.length ≤ most
  digits : ∀ c ∈ text, c.isDigit = true

theorem mem_digits_iff
    (c : Char) :
    c ∈ "0123456789".toList ↔ c.isDigit = true := by
  constructor
  · intro hMem
    have hAll :
        ("0123456789".toList.all Char.isDigit) = true := by
      decide +kernel
    exact List.all_eq_true.mp hAll c hMem
  · intro hDigit
    have hAscii : isAsciiChar c = true := by
      have hVal : c.toNat = c.val.toNat := rfl
      simp only [Char.isDigit, Bool.and_eq_true,
        decide_eq_true_eq, UInt32.le_iff_toNat_le] at hDigit
      simp only [isAsciiChar, decide_eq_true_eq]
      have hLast := hDigit.2
      simp at hLast
      omega
    have hListed :
        (!c.isDigit || "0123456789".toList.contains c) =
          true :=
      forall_ascii
        (P := fun c =>
          (!c.isDigit || "0123456789".toList.contains c) =
            true)
        (by decide +kernel) hAscii
    rw [hDigit] at hListed
    exact List.contains_iff_mem.mp hListed

theorem digit_rmatch_iff
    (text : Str) :
    digit.rmatch text = true ↔ IsDigits 1 1 text := by
  unfold digit
  rw [oneOf_rmatch_iff]
  simp only [mem_digits_iff]
  constructor
  · rintro ⟨c, hDigit, rfl⟩
    refine ⟨Nat.le_refl _, Nat.le_refl _, ?_⟩
    intro d hMem
    rw [List.mem_singleton.mp hMem]
    exact hDigit
  · intro hText
    rcases List.length_eq_one_iff.mp
      (Nat.le_antisymm hText.most hText.least) with
      ⟨c, rfl⟩
    exact ⟨c, hText.digits c List.mem_cons_self, rfl⟩

theorem maybe_rmatch_iff
    (p : Pattern)
    (text : Str) :
    (maybe p).rmatch text = true ↔
      text = [] ∨ p.rmatch text = true := by
  unfold maybe
  rw [RegularExpression.add_rmatch_iff,
    RegularExpression.one_rmatch_iff]

/- Digits after digits. -/
theorem mul_digits_rmatch_iff
    {p q : Pattern}
    {a b c d : Nat}
    (hP : ∀ text, p.rmatch text = true ↔ IsDigits a b text)
    (hQ : ∀ text, q.rmatch text = true ↔ IsDigits c d text)
    (hAB : a ≤ b)
    (hCD : c ≤ d)
    (text : Str) :
    (p * q).rmatch text = true ↔
      IsDigits (a + c) (b + d) text := by
  rw [RegularExpression.mul_rmatch_iff]
  simp only [hP, hQ]
  constructor
  · rintro ⟨front, back, rfl, hFront, hBack⟩
    have hLeast := hFront.least
    have hMost := hFront.most
    refine ⟨?_, ?_, ?_⟩
    · rw [List.length_append]
      exact Nat.add_le_add hLeast hBack.least
    · rw [List.length_append]
      exact Nat.add_le_add hMost hBack.most
    · rw [List.forall_mem_append]
      exact ⟨hFront.digits, hBack.digits⟩
  · intro hText
    -- As many digits go to the front as the back has no room for.
    have hLeast := hText.least
    have hMost := hText.most
    refine
      ⟨text.take (max a (text.length - d)),
        text.drop (max a (text.length - d)),
        (List.take_append_drop ..).symm, ?_, ?_⟩
    · refine ⟨?_, ?_, ?_⟩
      · rw [List.length_take]
        omega
      · rw [List.length_take]
        omega
      · intro e hMem
        exact hText.digits e (List.mem_of_mem_take hMem)
    · refine ⟨?_, ?_, ?_⟩
      · rw [List.length_drop]
        omega
      · rw [List.length_drop]
        omega
      · intro e hMem
        exact hText.digits e (List.mem_of_mem_drop hMem)

theorem maybe_digit_rmatch_iff
    (text : Str) :
    (maybe digit).rmatch text = true ↔ IsDigits 0 1 text := by
  rw [maybe_rmatch_iff, digit_rmatch_iff]
  constructor
  · rintro (rfl | hText)
    · exact
        ⟨Nat.le_refl _, Nat.zero_le _, by simp⟩
    · exact ⟨Nat.zero_le _, hText.most, hText.digits⟩
  · intro hText
    by_cases hNil : text = []
    · exact .inl hNil
    · have hLength := List.length_pos_iff.mpr hNil
      exact .inr ⟨hLength, hText.most, hText.digits⟩

def shortPattern : Pattern := digit * maybe digit

def twoPattern : Pattern := digit * digit

def yearPattern : Pattern := digit * digit * digit * digit

theorem short_rmatch_iff :
    ∀ text, shortPattern.rmatch text = true ↔
      IsDigits 1 2 text :=
  mul_digits_rmatch_iff digit_rmatch_iff
    maybe_digit_rmatch_iff (Nat.le_refl _) (Nat.zero_le _)

theorem two_rmatch_iff :
    ∀ text, twoPattern.rmatch text = true ↔
      IsDigits 2 2 text :=
  mul_digits_rmatch_iff digit_rmatch_iff digit_rmatch_iff
    (Nat.le_refl _) (Nat.le_refl _)

theorem year_rmatch_iff :
    ∀ text, yearPattern.rmatch text = true ↔
      IsDigits 4 4 text :=
  mul_digits_rmatch_iff
    (mul_digits_rmatch_iff two_rmatch_iff digit_rmatch_iff
      (Nat.le_refl _) (Nat.le_refl _))
    digit_rmatch_iff (Nat.le_refl _) (Nat.le_refl _)

/- A character in front. -/
theorem lit_mul_rmatch_iff
    (s : String)
    (c : Char)
    (hWord : s.toList = [c])
    (p : Pattern)
    (text : Str) :
    (word s * p).rmatch text = true ↔
      ∃ rest, text = c :: rest ∧ p.rmatch rest = true := by
  rw [RegularExpression.mul_rmatch_iff]
  simp only [word_rmatch_iff, hWord]
  constructor
  · rintro ⟨front, rest, rfl, rfl, hRest⟩
    exact ⟨rest, rfl, hRest⟩
  · rintro ⟨rest, rfl, hRest⟩
    exact ⟨[c], rest, rfl, rfl, hRest⟩

/- A character behind one pattern, in front of another. -/
theorem mul_lit_mul_rmatch_iff
    (s : String)
    (c : Char)
    (hWord : s.toList = [c])
    (p q : Pattern)
    (text : Str) :
    (p * (word s * q)).rmatch text = true ↔
      ∃ front rest, text = front ++ c :: rest ∧
        p.rmatch front = true ∧ q.rmatch rest = true := by
  rw [RegularExpression.mul_rmatch_iff]
  simp only [lit_mul_rmatch_iff s c hWord]
  constructor
  · rintro ⟨front, _, rfl, hFront, rest, rfl, hRest⟩
    exact ⟨front, rest, rfl, hFront, hRest⟩
  · rintro ⟨front, rest, rfl, hFront, hRest⟩
    exact ⟨front, c :: rest, rfl, hFront, rest, rfl, hRest⟩

/- Patterns of one language match alike. -/
theorem rmatch_congr
    {p q : Pattern}
    (hSame : p.matches' = q.matches')
    (text : Str) :
    p.rmatch text = true ↔ q.rmatch text = true := by
  rw [RegularExpression.rmatch_iff_matches',
    RegularExpression.rmatch_iff_matches', hSame]

end Yaml

end MailgunRelay

------------------------------------------------------------
-- Written Timestamps
------------------------------------------------------------

namespace MailgunRelay

namespace Yaml

/- The number some digits write. -/
def decimal (text : Str) : Nat :=
  text.foldl (fun n c => n * 10 + (c.toNat - 48)) 0

def AllBlank (text : Str) : Prop :=
  ∀ c ∈ text, isBlank c = true

/- A time zone, in hours and minutes without their sign. -/
inductive WrittenZone : Str → Nat → Nat → Prop where
  | absent : WrittenZone [] 0 0
  | utc
      {blanks : Str}
      (hBlanks : AllBlank blanks) :
      WrittenZone (blanks ++ ['Z']) 0 0
  | hours
      {blanks hours : Str}
      {sign : Char}
      (hBlanks : AllBlank blanks)
      (hSign : sign = '-' ∨ sign = '+')
      (hHours : IsDigits 1 2 hours) :
      WrittenZone (blanks ++ sign :: hours) (decimal hours) 0
  | minutes
      {blanks hours minutes : Str}
      {sign : Char}
      (hBlanks : AllBlank blanks)
      (hSign : sign = '-' ∨ sign = '+')
      (hHours : IsDigits 1 2 hours)
      (hMinutes : IsDigits 2 2 minutes) :
      WrittenZone (blanks ++ sign :: (hours ++ ':' :: minutes))
        (decimal hours) (decimal minutes)

/- What stands between a date and its time. -/
def IsGap (text : Str) : Prop :=
  text = ['T'] ∨ text = ['t'] ∨ text ≠ [] ∧ AllBlank text

/- A part of a second. -/
def IsFraction (text : Str) : Prop :=
  text = [] ∨
    ∃ digits, text = '.' :: digits ∧
      ∀ c ∈ digits, c.isDigit = true

/-
  A date with all its digits, or a date and a time where
  some numbers may have one digit.
-/
inductive WrittenTimestamp : Str → Timestamp → Prop where
  | date
      {year month day : Str}
      (hYear : IsDigits 4 4 year)
      (hMonth : IsDigits 2 2 month)
      (hDay : IsDigits 2 2 day) :
      WrittenTimestamp
        (year ++ '-' :: (month ++ '-' :: day))
        { year := decimal year
          month := decimal month
          day := decimal day
          hour := 0
          minute := 0
          second := 0
          zoneHours := 0
          zoneMinutes := 0 }
  | time
      {year month day gap hour minute second : Str}
      {fraction zone : Str}
      {zoneHours zoneMinutes : Nat}
      (hYear : IsDigits 4 4 year)
      (hMonth : IsDigits 1 2 month)
      (hDay : IsDigits 1 2 day)
      (hGap : IsGap gap)
      (hHour : IsDigits 1 2 hour)
      (hMinute : IsDigits 2 2 minute)
      (hSecond : IsDigits 2 2 second)
      (hFraction : IsFraction fraction)
      (hZone : WrittenZone zone zoneHours zoneMinutes) :
      WrittenTimestamp
        (year ++ '-' :: (month ++ '-' :: (day ++ (gap ++
          (hour ++ ':' :: (minute ++ ':' :: (second ++
            (fraction ++ zone))))))))
        { year := decimal year
          month := decimal month
          day := decimal day
          hour := decimal hour
          minute := decimal minute
          second := decimal second
          zoneHours := zoneHours
          zoneMinutes := zoneMinutes }

theorem blanks_rmatch_iff
    (text : Str) :
    (many (oneOf " \t")).rmatch text = true ↔
      AllBlank text := by
  rw [many_oneOf_rmatch_iff]
  apply forall₂_congr
  intro c _
  rw [isBlank, Bool.or_eq_true, beq_iff_eq, beq_iff_eq]
  exact List.mem_pair

theorem gap_rmatch_iff
    (text : Str) :
    (oneOf "Tt" + many1 (oneOf " \t")).rmatch text = true ↔
      IsGap text := by
  have hBlanks := blanks_rmatch_iff text
  rw [many_oneOf_rmatch_iff] at hBlanks
  rw [RegularExpression.add_rmatch_iff, oneOf_rmatch_iff,
    many1_oneOf_rmatch_iff, hBlanks]
  unfold IsGap
  have hLetters :
      (∃ c ∈ "Tt".toList, text = [c]) ↔
        text = ['T'] ∨ text = ['t'] := by
    have hList : "Tt".toList = ['T', 't'] := by
      decide +kernel
    rw [hList]
    simp
  rw [hLetters, or_assoc]

theorem fraction_rmatch_iff
    (text : Str) :
    (maybe (word "." * many digit)).rmatch text = true ↔
      IsFraction text := by
  rw [maybe_rmatch_iff, lit_mul_rmatch_iff "." '.' rfl]
  unfold IsFraction digit
  simp only [many_oneOf_rmatch_iff, mem_digits_iff]

/- The time zone of the pattern. -/
def zonePattern : Pattern :=
  maybe
    (many (oneOf " \t") *
      (word "Z" +
        oneOf "-+" * shortPattern *
          maybe (word ":" * digit * digit)))

theorem zone_rmatch_iff
    (text : Str) :
    zonePattern.rmatch text = true ↔
      ∃ hours minutes, WrittenZone text hours minutes := by
  have hSigns (front : Str) :
      (oneOf "-+").rmatch front = true ↔
        ∃ sign, (sign = '-' ∨ sign = '+') ∧
          front = [sign] := by
    have hList : "-+".toList = ['-', '+'] := by
      decide +kernel
    rw [oneOf_rmatch_iff, hList]
    simp only [List.mem_pair]
  have hMinutes (text : Str) :
      (maybe (word ":" * digit * digit)).rmatch text = true ↔
        text = [] ∨
          ∃ minutes, text = ':' :: minutes ∧
            IsDigits 2 2 minutes := by
    rw [maybe_rmatch_iff, mul_mul_rmatch_iff,
      lit_mul_rmatch_iff ":" ':' rfl]
    have hTwo := two_rmatch_iff
    unfold twoPattern at hTwo
    simp only [hTwo]
  unfold zonePattern
  rw [maybe_rmatch_iff, RegularExpression.mul_rmatch_iff]
  simp only [blanks_rmatch_iff,
    RegularExpression.add_rmatch_iff, word_rmatch_iff]
  constructor
  · rintro (rfl | ⟨blanks, rest, rfl, hBlanks, hRest⟩)
    · exact ⟨0, 0, .absent⟩
    rcases hRest with hUtc | hOffset
    · rw [hUtc]
      exact ⟨0, 0, .utc hBlanks⟩
    rcases (RegularExpression.mul_rmatch_iff ..).mp hOffset
      with ⟨front, tail, rfl, hFront, hTail⟩
    rcases (RegularExpression.mul_rmatch_iff ..).mp hFront
      with ⟨lead, hours, rfl, hLead, hHours⟩
    rcases (hSigns lead).mp hLead with ⟨sign, hSign, rfl⟩
    rw [short_rmatch_iff] at hHours
    rcases (hMinutes tail).mp hTail with
      rfl | ⟨minutes, rfl, hDigits⟩
    · rw [List.append_nil]
      exact ⟨_, _, .hours hBlanks hSign hHours⟩
    · have hZone :=
        WrittenZone.minutes hBlanks hSign hHours hDigits
      rw [List.append_assoc]
      exact ⟨_, _, hZone⟩
  · rintro ⟨hours, minutes, hZone⟩
    cases hZone with
    | absent => exact .inl rfl
    | @utc blanks hBlanks =>
        exact .inr ⟨blanks, ['Z'], rfl, hBlanks, .inl rfl⟩
    | @hours blanks hours sign hBlanks hSign hHours =>
        refine
          .inr ⟨blanks, sign :: hours, rfl, hBlanks, .inr ?_⟩
        rw [RegularExpression.mul_rmatch_iff]
        refine
          ⟨sign :: hours, [], (List.append_nil _).symm, ?_,
            (hMinutes []).mpr (.inl rfl)⟩
        rw [RegularExpression.mul_rmatch_iff]
        exact
          ⟨[sign], hours, rfl,
            (hSigns _).mpr ⟨sign, hSign, rfl⟩,
            (short_rmatch_iff _).mpr hHours⟩
    | @minutes blanks hours minutes sign hBlanks hSign hHours
        hDigits =>
        refine
          .inr
            ⟨blanks, sign :: (hours ++ ':' :: minutes), rfl,
              hBlanks, .inr ?_⟩
        rw [RegularExpression.mul_rmatch_iff]
        refine
          ⟨sign :: hours, ':' :: minutes, rfl, ?_,
            (hMinutes _).mpr (.inr ⟨minutes, rfl, hDigits⟩)⟩
        rw [RegularExpression.mul_rmatch_iff]
        exact
          ⟨[sign], hours, rfl,
            (hSigns _).mpr ⟨sign, hSign, rfl⟩,
            (short_rmatch_iff _).mpr hHours⟩

/- The two alternatives of the pattern, read from the left. -/
def datePattern : Pattern :=
  yearPattern *
    (word "-" * (twoPattern * (word "-" * twoPattern)))

def timePattern : Pattern :=
  yearPattern *
    (word "-" * (shortPattern * (word "-" * (shortPattern *
      ((oneOf "Tt" + many1 (oneOf " \t")) * (shortPattern *
        (word ":" * (twoPattern * (word ":" * (twoPattern *
          (maybe (word "." * many digit) *
            zonePattern)))))))))))

theorem timestampPattern_parts
    (text : Str) :
    timestampPattern.rmatch text = true ↔
      datePattern.rmatch text = true ∨
        timePattern.rmatch text = true := by
  have hDate :
      (yearPattern * word "-" * digit * digit * word "-" *
        digit * digit).matches' = datePattern.matches' := by
    unfold datePattern twoPattern
    simp only [RegularExpression.matches'_mul, mul_assoc]
  have hTime :
      (yearPattern * word "-" * shortPattern * word "-" *
          shortPattern *
          (oneOf "Tt" + many1 (oneOf " \t")) * shortPattern *
          word ":" * digit * digit * word ":" * digit *
          digit * maybe (word "." * many digit) *
          zonePattern).matches' =
        timePattern.matches' := by
    unfold timePattern twoPattern
    simp only [RegularExpression.matches'_mul, mul_assoc]
  rw [← rmatch_congr hDate, ← rmatch_congr hTime]
  unfold timestampPattern
  rw [anyOf_rmatch_iff]
  simp only [List.mem_cons, List.not_mem_nil, or_false,
    exists_eq_or_imp, exists_eq_left]
  rfl

/- What the resolver takes for a timestamp. -/
theorem timestampPattern_iff
    (text : Str) :
    timestampPattern.rmatch text = true ↔
      ∃ t, WrittenTimestamp text t := by
  rw [timestampPattern_parts]
  unfold datePattern timePattern
  constructor
  · rintro (hText | hText)
    · rcases (mul_lit_mul_rmatch_iff "-" '-' rfl ..).mp hText
        with ⟨year, afterYear, rfl, hYear, hAfterYear⟩
      rcases
        (mul_lit_mul_rmatch_iff "-" '-' rfl ..).mp hAfterYear
        with ⟨month, day, rfl, hMonth, hDay⟩
      rw [year_rmatch_iff] at hYear
      rw [two_rmatch_iff] at hMonth hDay
      exact ⟨_, .date hYear hMonth hDay⟩
    · rcases (mul_lit_mul_rmatch_iff "-" '-' rfl ..).mp hText
        with ⟨year, afterYear, rfl, hYear, hAfterYear⟩
      rcases
        (mul_lit_mul_rmatch_iff "-" '-' rfl ..).mp hAfterYear
        with ⟨month, afterMonth, rfl, hMonth, hAfterMonth⟩
      rcases
        (RegularExpression.mul_rmatch_iff ..).mp hAfterMonth
        with ⟨day, afterDay, rfl, hDay, hAfterDay⟩
      rcases
        (RegularExpression.mul_rmatch_iff ..).mp hAfterDay
        with ⟨gap, afterGap, rfl, hGap, hAfterGap⟩
      rcases
        (mul_lit_mul_rmatch_iff ":" ':' rfl ..).mp hAfterGap
        with ⟨hour, afterHour, rfl, hHour, hAfterHour⟩
      rcases
        (mul_lit_mul_rmatch_iff ":" ':' rfl ..).mp hAfterHour
        with ⟨minute, afterMinute, rfl, hMinute, hAfterMinute⟩
      rcases
        (RegularExpression.mul_rmatch_iff ..).mp hAfterMinute
        with ⟨second, afterSecond, rfl, hSecond, hAfterSecond⟩
      rcases
        (RegularExpression.mul_rmatch_iff ..).mp hAfterSecond
        with ⟨fraction, zone, rfl, hFraction, hZone⟩
      rw [year_rmatch_iff] at hYear
      rw [short_rmatch_iff] at hMonth hDay hHour
      rw [two_rmatch_iff] at hMinute hSecond
      rw [gap_rmatch_iff] at hGap
      rw [fraction_rmatch_iff] at hFraction
      rcases (zone_rmatch_iff zone).mp hZone with
        ⟨hours, minutes, hWritten⟩
      exact
        ⟨_, .time hYear hMonth hDay hGap hHour hMinute hSecond
          hFraction hWritten⟩
  · rintro ⟨t, hWritten⟩
    cases hWritten with
    | date hYear hMonth hDay =>
        rw [← year_rmatch_iff] at hYear
        rw [← two_rmatch_iff] at hMonth hDay
        left
        rw [mul_lit_mul_rmatch_iff "-" '-' rfl]
        refine ⟨_, _, rfl, hYear, ?_⟩
        rw [mul_lit_mul_rmatch_iff "-" '-' rfl]
        exact ⟨_, _, rfl, hMonth, hDay⟩
    | @time _ _ _ _ _ _ _ _ zone _ _ hYear hMonth hDay hGap
        hHour hMinute hSecond hFraction hZone =>
        rw [← year_rmatch_iff] at hYear
        rw [← short_rmatch_iff] at hMonth hDay hHour
        rw [← two_rmatch_iff] at hMinute hSecond
        rw [← gap_rmatch_iff] at hGap
        rw [← fraction_rmatch_iff] at hFraction
        right
        rw [mul_lit_mul_rmatch_iff "-" '-' rfl]
        refine ⟨_, _, rfl, hYear, ?_⟩
        rw [mul_lit_mul_rmatch_iff "-" '-' rfl]
        refine ⟨_, _, rfl, hMonth, ?_⟩
        rw [RegularExpression.mul_rmatch_iff]
        refine ⟨_, _, rfl, hDay, ?_⟩
        rw [RegularExpression.mul_rmatch_iff]
        refine ⟨_, _, rfl, hGap, ?_⟩
        rw [mul_lit_mul_rmatch_iff ":" ':' rfl]
        refine ⟨_, _, rfl, hHour, ?_⟩
        rw [mul_lit_mul_rmatch_iff ":" ':' rfl]
        refine ⟨_, _, rfl, hMinute, ?_⟩
        rw [RegularExpression.mul_rmatch_iff]
        refine ⟨_, _, rfl, hSecond, ?_⟩
        rw [RegularExpression.mul_rmatch_iff]
        exact
          ⟨_, _, rfl, hFraction,
            (zone_rmatch_iff zone).mpr ⟨_, _, hZone⟩⟩

end Yaml

end MailgunRelay

------------------------------------------------------------
-- The Parts
------------------------------------------------------------

namespace MailgunRelay

namespace Yaml

/- Digits are read up to the most there may be. -/
theorem number_append
    {least most : Nat}
    {digits rest : Str}
    (hDigits : IsDigits least most digits)
    (hEnd : digits.length = most ∨
      ∀ c ∈ rest.head?, c.isDigit = false) :
    number least most (digits ++ rest) =
      some (decimal digits, rest) := by
  have hTake :
      ((digits ++ rest).take most).takeWhile Char.isDigit =
        digits := by
    rw [List.take_append,
      List.take_of_length_le hDigits.most]
    rw [List.takeWhile_append_of_pos hDigits.digits]
    rcases hEnd with hMost | hHead
    · rw [hMost, Nat.sub_self, List.take_zero,
        List.takeWhile_nil, List.append_nil]
    · have hNone :
          (rest.take (most - digits.length)).takeWhile
              Char.isDigit =
            [] := by
        cases rest with
        | nil => rw [List.take_nil, List.takeWhile_nil]
        | cons c rest =>
            have hNot := hHead c rfl
            cases most - digits.length with
            | zero => rfl
            | succ n =>
                rw [List.take_succ_cons, List.takeWhile_cons,
                  hNot]
                rfl
      rw [hNone, List.append_nil]
  unfold number
  dsimp only
  rw [hTake, if_pos hDigits.least, List.drop_left]
  rfl

theorem skip_cons
    (c : Char)
    (rest : Str) :
    skip c (c :: rest) = some rest := by
  rw [skip, if_pos rfl]

theorem dropWhile_blanks
    {blanks rest : Str}
    {c : Char}
    (hBlanks : AllBlank blanks)
    (hOther : isBlank c = false) :
    (blanks ++ c :: rest).dropWhile isBlank = c :: rest := by
  rw [List.dropWhile_append_of_pos hBlanks,
    List.dropWhile_cons, hOther]
  rfl

/- A zone with a sign, behind its blanks. -/
theorem zone_sign
    {blanks rest : Str}
    {sign : Char}
    (hBlanks : AllBlank blanks)
    (hSign : sign = '-' ∨ sign = '+') :
    zone (blanks ++ sign :: rest) =
      (number 1 2 rest).bind fun hours =>
        if hours.2.isEmpty then
          some (hours.1, 0)
        else
          (skip ':' hours.2).bind fun rest =>
            (number 2 2 rest).bind fun minutes =>
              if minutes.2.isEmpty then
                some (hours.1, minutes.1)
              else
                none := by
  unfold zone
  rcases hSign with rfl | rfl
  · rw [dropWhile_blanks hBlanks (by decide)]
    rfl
  · rw [dropWhile_blanks hBlanks (by decide)]
    rfl

/- The zone of a written timestamp. -/
theorem zone_written
    {text : Str}
    {hours minutes : Nat}
    (hZone : WrittenZone text hours minutes) :
    zone text = some (hours, minutes) := by
  cases hZone with
  | absent => rfl
  | utc hBlanks =>
      unfold zone
      rw [dropWhile_blanks hBlanks (by decide)]
      rfl
  | @hours blanks hours sign hBlanks hSign hHours =>
      have hNumber :=
        @number_append 1 2 hours [] hHours (by simp)
      rw [List.append_nil] at hNumber
      rw [zone_sign hBlanks hSign, hNumber]
      rfl
  | @minutes blanks hours minutes sign hBlanks hSign hHours
      hMinutes =>
      have hColon :
          ∀ c ∈ (':' :: minutes).head?,
            c.isDigit = false := by
        intro c hHead
        cases hHead
        decide
      have hFirst :=
        @number_append 1 2 hours (':' :: minutes) hHours
          (.inr hColon)
      have hSecond :=
        @number_append 2 2 minutes [] hMinutes (by simp)
      rw [List.append_nil] at hSecond
      rw [zone_sign hBlanks hSign, hFirst, Option.bind_some,
        List.isEmpty_cons, if_neg Bool.false_ne_true,
        skip_cons, Option.bind_some, hSecond]
      rfl

/- What may stand in front of a character behind blanks. -/
theorem head_blanks
    {blanks rest : Str}
    {c d : Char}
    (hBlanks : AllBlank blanks)
    (hHead : c ∈ (blanks ++ d :: rest).head?) :
    isBlank c = true ∨ c = d := by
  cases blanks with
  | nil =>
      rw [List.nil_append, List.head?_cons,
        Option.mem_some_iff] at hHead
      exact .inr hHead.symm
  | cons b blanks =>
      rw [List.cons_append, List.head?_cons,
        Option.mem_some_iff] at hHead
      rw [← hHead]
      exact .inl (hBlanks b List.mem_cons_self)

theorem blank_of_isBlank
    {c : Char}
    (hBlank : isBlank c = true) :
    c = ' ' ∨ c = '\t' := by
  unfold isBlank at hBlank
  rcases Bool.or_eq_true_iff.mp hBlank with hSpace | hTab
  · exact .inl (beq_iff_eq.mp hSpace)
  · exact .inr (beq_iff_eq.mp hTab)

/- A zone continues neither the digits nor a fraction. -/
theorem head_zone
    {text : Str}
    {hours minutes : Nat}
    (hZone : WrittenZone text hours minutes)
    {c : Char}
    (hHead : c ∈ text.head?) :
    c.isDigit = false ∧ c ≠ '.' := by
  have hStart :
      c = ' ' ∨ c = '\t' ∨ c = 'Z' ∨ c = '-' ∨ c = '+' := by
    cases hZone with
    | absent => exact absurd hHead (by simp)
    | utc hBlanks =>
        rcases head_blanks hBlanks hHead with hBlank | hZ
        · rcases blank_of_isBlank hBlank with hC | hC
          · exact .inl hC
          · exact .inr (.inl hC)
        · exact .inr (.inr (.inl hZ))
    | hours hBlanks hSign hHours =>
        rcases head_blanks hBlanks hHead with hBlank | rfl
        · rcases blank_of_isBlank hBlank with hC | hC
          · exact .inl hC
          · exact .inr (.inl hC)
        · exact .inr (.inr (.inr hSign))
    | minutes hBlanks hSign hHours hMinutes =>
        rcases head_blanks hBlanks hHead with hBlank | rfl
        · rcases blank_of_isBlank hBlank with hC | hC
          · exact .inl hC
          · exact .inr (.inl hC)
        · exact .inr (.inr (.inr hSign))
  rcases hStart with rfl | rfl | rfl | rfl | rfl
  all_goals exact ⟨by decide, by decide⟩

/- The gap is skipped up to the hour. -/
theorem gap_written
    {gap rest : Str}
    (hGap : IsGap gap)
    (hRest : ∀ c ∈ rest.head?, isBlank c = false) :
    ∃ c tail, gap ++ rest = c :: tail ∧
      c.isDigit = false ∧
      (if c = 'T' ∨ c = 't' then
          some tail
        else if isBlank c then
          some (tail.dropWhile isBlank)
        else
          none) =
        some rest := by
  rcases hGap with rfl | rfl | ⟨hNil, hBlanks⟩
  · exact
      ⟨'T', rest, rfl, by decide, by rw [if_pos (.inl rfl)]⟩
  · exact
      ⟨'t', rest, rfl, by decide, by rw [if_pos (.inr rfl)]⟩
  · rcases List.exists_cons_of_ne_nil hNil with
      ⟨c, blanks, rfl⟩
    rcases List.forall_mem_cons.mp hBlanks with
      ⟨hBlank, hMore⟩
    have hDrop :
        (blanks ++ rest).dropWhile isBlank = rest := by
      rw [List.dropWhile_append_of_pos hMore]
      cases rest with
      | nil => rfl
      | cons d rest =>
          rw [List.dropWhile_cons, hRest d rfl]
          rfl
    refine ⟨c, blanks ++ rest, rfl, ?_, ?_⟩
    · rcases blank_of_isBlank hBlank with rfl | rfl
      all_goals decide
    · rw [if_neg, if_pos hBlank, hDrop]
      rcases blank_of_isBlank hBlank with rfl | rfl
      all_goals decide

theorem digit_not_blank
    {c : Char}
    (hDigit : c.isDigit = true) :
    isBlank c = false := by
  rw [Bool.eq_false_iff]
  intro hBlank
  rcases blank_of_isBlank hBlank with rfl | rfl
  · exact absurd hDigit (by decide)
  · exact absurd hDigit (by decide)

/- The first of some digits. -/
theorem IsDigits.head
    {least most : Nat}
    {digits : Str}
    (hDigits : IsDigits (least + 1) most digits) :
    ∃ c rest, digits = c :: rest ∧ c.isDigit = true := by
  cases digits with
  | nil => exact absurd hDigits.least (by simp)
  | cons c rest =>
      exact
        ⟨c, rest, rfl, hDigits.digits c List.mem_cons_self⟩

theorem number_before
    {least most : Nat}
    {digits rest : Str}
    {c : Char}
    (hDigits : IsDigits least most digits)
    (hOther : c.isDigit = false) :
    number least most (digits ++ c :: rest) =
      some (decimal digits, c :: rest) := by
  apply number_append hDigits
  right
  intro d hHead
  rw [List.head?_cons, Option.mem_some_iff] at hHead
  rw [← hHead]
  exact hOther

theorem number_end
    {least most : Nat}
    {digits : Str}
    (hDigits : IsDigits least most digits) :
    number least most digits = some (decimal digits, []) := by
  have hNumber :=
    @number_append least most digits [] hDigits (by simp)
  rw [List.append_nil] at hNumber
  exact hNumber

/- The fraction of a second is dropped. -/
def afterFraction : Str → Str
| '.' :: fraction => fraction.dropWhile Char.isDigit
| other => other

/- What follows the date, read from the left. -/
def timeParts
    (year month day : Nat) : Str → Option Timestamp
| [] =>
    some
      { year := year
        month := month
        day := day
        hour := 0
        minute := 0
        second := 0
        zoneHours := 0
        zoneMinutes := 0 }
| c :: tail =>
    (if c = 'T' ∨ c = 't' then
        some tail
      else if isBlank c then
        some (tail.dropWhile isBlank)
      else
        none).bind fun rest =>
    (number 1 2 rest).bind fun hour =>
    (skip ':' hour.2).bind fun rest =>
    (number 2 2 rest).bind fun minute =>
    (skip ':' minute.2).bind fun rest =>
    (number 2 2 rest).bind fun second =>
    (zone (afterFraction second.2)).bind fun offset =>
    some
      { year := year
        month := month
        day := day
        hour := hour.1
        minute := minute.1
        second := second.1
        zoneHours := offset.1
        zoneMinutes := offset.2 }

theorem timestampParts_eq
    (text : Str) :
    timestampParts text =
      (number 4 4 text).bind fun year =>
      (skip '-' year.2).bind fun rest =>
      (number 1 2 rest).bind fun month =>
      (skip '-' month.2).bind fun rest =>
      (number 1 2 rest).bind fun day =>
      timeParts year.1 month.1 day.1 day.2 := by
  unfold timestampParts
  apply Option.bind_congr
  intro year _
  apply Option.bind_congr
  intro afterYear _
  apply Option.bind_congr
  intro month _
  apply Option.bind_congr
  intro afterMonth _
  apply Option.bind_congr
  intro day _
  rcases day with ⟨day, rest⟩
  cases rest with
  | nil => rfl
  | cons c tail =>
      unfold timeParts
      dsimp only
      by_cases hLetter : c = 'T' ∨ c = 't'
      · rw [if_pos hLetter, if_pos hLetter]
        rfl
      · rw [if_neg hLetter, if_neg hLetter]
        by_cases hBlank : isBlank c = true
        · rw [if_pos hBlank, if_pos hBlank]
          rfl
        · rw [if_neg hBlank, if_neg hBlank]
          rfl

theorem afterFraction_written
    {fraction zone : Str}
    {hours minutes : Nat}
    (hFraction : IsFraction fraction)
    (hZone : WrittenZone zone hours minutes) :
    afterFraction (fraction ++ zone) = zone := by
  rcases hFraction with rfl | ⟨digits, rfl, hDigits⟩
  · rw [List.nil_append]
    unfold afterFraction
    split
    · exact absurd rfl (head_zone hZone rfl).2
    · rfl
  · have hEnd : zone.dropWhile Char.isDigit = zone := by
      cases zone with
      | nil => rfl
      | cons c rest =>
          rw [List.dropWhile_cons, (head_zone hZone rfl).1]
          rfl
    rw [List.cons_append, afterFraction,
      List.dropWhile_append_of_pos hDigits, hEnd]

/- Every written timestamp is cut into its numbers. -/
theorem timestampParts_written
    {text : Str}
    {t : Timestamp}
    (hText : WrittenTimestamp text t) :
    timestampParts text = some t := by
  rw [timestampParts_eq]
  cases hText with
  | date hYear hMonth hDay =>
      have hShortMonth : IsDigits 1 2 _ :=
        ⟨Nat.le_of_succ_le hMonth.least, hMonth.most,
          hMonth.digits⟩
      have hShortDay : IsDigits 1 2 _ :=
        ⟨Nat.le_of_succ_le hDay.least, hDay.most,
          hDay.digits⟩
      rw [number_before hYear (by decide), Option.bind_some,
        skip_cons, Option.bind_some,
        number_before hShortMonth (by decide),
        Option.bind_some, skip_cons, Option.bind_some,
        number_end hShortDay]
      rfl
  | @time year month day gap hour minute second fraction
      zoneText zoneHours zoneMinutes hYear hMonth hDay hGap
      hHour hMinute hSecond hFraction hZone =>
      rcases hHour.head with ⟨first, hours, hFirst, hDigit⟩
      have hStart :
          ∀ c ∈ (hour ++ ':' :: (minute ++ ':' :: (second ++
              (fraction ++ zoneText)))).head?,
            isBlank c = false := by
        intro c hHead
        rw [hFirst, List.cons_append, List.head?_cons,
          Option.mem_some_iff] at hHead
        rw [← hHead]
        exact digit_not_blank hDigit
      rcases gap_written hGap hStart with
        ⟨c, tail, hTail, hOther, hSkip⟩
      have hLast :=
        Nat.le_antisymm hSecond.most hSecond.least
      rw [hTail, number_before hYear (by decide),
        Option.bind_some, skip_cons, Option.bind_some,
        number_before hMonth (by decide), Option.bind_some,
        skip_cons, Option.bind_some,
        number_before hDay hOther, Option.bind_some, timeParts,
        hSkip, Option.bind_some,
        number_before hHour (by decide), Option.bind_some,
        skip_cons, Option.bind_some,
        number_before hMinute (by decide), Option.bind_some,
        skip_cons, Option.bind_some,
        number_append hSecond (.inl hLast), Option.bind_some,
        afterFraction_written hFraction hZone,
        zone_written hZone]
      rfl

end Yaml

end MailgunRelay

------------------------------------------------------------
-- The Calendar
------------------------------------------------------------

namespace MailgunRelay

namespace Yaml

open Lib.Gregorian (Date isLeap_iff monthLength)

namespace Timestamp

/- A date of the calendar, a time of the day and a zone. -/
structure Real (t : Timestamp) : Prop where
  date : ∃ date : Date, date.year = t.year ∧
    date.month = t.month ∧ date.day = t.day
  year : 1 ≤ t.year ∧ t.year ≤ 9999
  hour : t.hour < 24
  minute : t.minute < 60
  second : t.second < 60
  zone : t.zoneHours * 60 + t.zoneMinutes < 24 * 60

end Timestamp

/- The months have the lengths of the calendar. -/
theorem daysOf_eq_some_iff
    {year month days : Nat} :
    daysOf year month = some days ↔
      (1 ≤ month ∧ month ≤ 12) ∧
        monthLength year month = days := by
  by_cases hMonth : 1 ≤ month ∧ month ≤ 12
  · have hDays :
        daysOf year month = some (monthLength year month) := by
      rcases hMonth with ⟨hFirst, hLast⟩
      by_cases hFebruary : month = 2
      · rw [hFebruary]
        unfold daysOf monthLength
        simp only [← isLeap_iff]
        by_cases hLeap : Lib.Gregorian.isLeap year = true
        · simp [hLeap]
        · simp [hLeap]
      · have hOther :
            month = 1 ∨ month = 3 ∨ month = 4 ∨ month = 5 ∨
              month = 6 ∨ month = 7 ∨ month = 8 ∨ month = 9 ∨
              month = 10 ∨ month = 11 ∨ month = 12 := by
          omega
        rcases hOther with
          rfl | rfl | rfl | rfl | rfl | rfl | rfl | rfl | rfl |
            rfl | rfl
        all_goals rfl
    rw [hDays, Option.some_inj]
    simp only [hMonth, and_self, true_and]
  · constructor
    · intro hDays
      unfold daysOf at hDays
      dsimp only at hDays
      exfalso
      apply hMonth
      split at hDays
      · rename_i hLong
        rw [List.contains_iff_mem] at hLong
        simp only [List.mem_cons, List.not_mem_nil, or_false]
          at hLong
        omega
      · split at hDays
        · rename_i hShort
          rw [List.contains_iff_mem] at hShort
          simp only [List.mem_cons, List.not_mem_nil, or_false]
            at hShort
          omega
        · split at hDays
          · omega
          · exact absurd hDays (by simp)
    · intro hDays
      exact absurd hDays.1 hMonth

/- Python takes the real dates and times. -/
theorem timestampIsValid_iff
    {text : Str}
    {t : Timestamp}
    (hText : WrittenTimestamp text t) :
    timestampIsValid text = true ↔ t.Real := by
  unfold timestampIsValid
  rw [timestampParts_written hText]
  dsimp only
  constructor
  · intro hValid
    split at hValid
    · exact absurd hValid Bool.false_ne_true
    · rename_i days hDays
      rcases daysOf_eq_some_iff.mp hDays with
        ⟨hMonth, hLength⟩
      rcases of_decide_eq_true hValid with
        ⟨hFirst, hLast, hDay, hDays, hHour, hMinute, hSecond,
          hZone⟩
      rw [← hLength] at hDays
      exact
        { date :=
            ⟨⟨t.year, t.month, t.day, hMonth, hDay, hDays⟩, rfl,
              rfl, rfl⟩
          year := ⟨hFirst, hLast⟩
          hour := Nat.lt_succ_of_le hHour
          minute := Nat.lt_succ_of_le hMinute
          second := Nat.lt_succ_of_le hSecond
          zone := hZone }
  · intro hReal
    rcases hReal.date with ⟨date, hYear, hMonth, hDay⟩
    have hInYear := date.hMonth
    have hInMonth := date.hDay
    rw [hMonth] at hInYear
    rw [hYear, hMonth, hDay] at hInMonth
    rw [daysOf_eq_some_iff.mpr ⟨hInYear, rfl⟩]
    exact
      decide_eq_true
        ⟨hReal.year.1, hReal.year.2, hInMonth.1, hInMonth.2,
          Nat.le_of_lt_succ hReal.hour,
          Nat.le_of_lt_succ hReal.minute,
          Nat.le_of_lt_succ hReal.second, hReal.zone⟩

end Yaml

end MailgunRelay

------------------------------------------------------------
-- No Other Type
------------------------------------------------------------

namespace MailgunRelay

namespace Yaml

open Lib.Pattern (allows needs forall_of_allows
  exists_of_needs)

theorem digit_noSign
    {c : Char}
    (hDigit : c.isDigit = true) :
    c ≠ '-' ∧ c ≠ '+' := by
  constructor
  · intro hEq
    rw [hEq] at hDigit
    exact absurd hDigit (by decide)
  · intro hEq
    rw [hEq] at hDigit
    exact absurd hDigit (by decide)

/- No sign stands before a digit. -/
theorem sign_mul_digit
    {p : Pattern}
    {c : Char}
    {rest : Str}
    (hDigit : c.isDigit = true)
    (hText : (sign * p).rmatch (c :: rest) = true) :
    p.rmatch (c :: rest) = true := by
  unfold sign at hText
  rcases (RegularExpression.mul_rmatch_iff ..).mp hText with
    ⟨front, back, hEq, hFront, hBack⟩
  rcases (maybe_rmatch_iff ..).mp hFront with rfl | hSign
  · rw [hEq]
    exact hBack
  · rcases (oneOf_rmatch_iff ..).mp hSign with
      ⟨d, hMem, rfl⟩
    have hSigns : "-+".toList = ['-', '+'] := by
      decide +kernel
    rw [hSigns, List.mem_pair] at hMem
    have hHead : c = d := (List.cons.inj hEq).1
    rw [← hHead] at hMem
    rcases hMem with hMinus | hPlus
    · exact absurd hMinus (digit_noSign hDigit).1
    · exact absurd hPlus (digit_noSign hDigit).2

/-
  A pattern whose words have a dash only as their sign or
  before an exponent.
-/
def NoDash (p : Pattern) : Prop :=
  ∀ text, p.rmatch text = true →
    (∃ c ∈ text, c = 'e' ∨ c = 'E') ∨ ∀ c ∈ text, c ≠ '-'

theorem noDash_of_allows
    {p : Pattern}
    (hAllows : allows (fun c => c != '-') p = true) :
    NoDash p := by
  intro text hText
  right
  intro c hMem
  exact bne_iff_ne.mp (forall_of_allows hAllows hText c hMem)

theorem noDash_exponent
    {p : Pattern}
    (hAllows : allows (fun c => c != '-') p = true) :
    NoDash
      (p *
        maybe (oneOf "eE" * oneOf "-+" * many1 digit)) := by
  intro text hText
  rcases (RegularExpression.mul_rmatch_iff ..).mp hText with
    ⟨front, back, rfl, hFront, hBack⟩
  rcases (maybe_rmatch_iff ..).mp hBack with rfl | hExponent
  · rw [List.append_nil]
    exact noDash_of_allows hAllows front hFront
  · left
    have hNeeds :
        needs (fun c => c == 'e' || c == 'E')
          (oneOf "eE" * oneOf "-+" * many1 digit) = true := by
      decide +kernel
    rcases exists_of_needs hNeeds hExponent with
      ⟨c, hMem, hLetter⟩
    refine ⟨c, List.mem_append_right _ hMem, ?_⟩
    rcases Bool.or_eq_true_iff.mp hLetter with hE | hE
    · exact .inl (beq_iff_eq.mp hE)
    · exact .inr (beq_iff_eq.mp hE)

theorem noDash_sign
    {p : Pattern}
    {c : Char}
    {rest : Str}
    (hPattern : NoDash p)
    (hDigit : c.isDigit = true)
    (hText : (sign * p).rmatch (c :: rest) = true) :
    (∃ d ∈ c :: rest, d = 'e' ∨ d = 'E') ∨
      ∀ d ∈ c :: rest, d ≠ '-' :=
  hPattern (c :: rest) (sign_mul_digit hDigit hText)

/- A number from its first digit on. -/
theorem noDash_float
    {c : Char}
    {rest : Str}
    (hDigit : c.isDigit = true)
    (hText : floatPattern.rmatch (c :: rest) = true) :
    (∃ d ∈ c :: rest, d = 'e' ∨ d = 'E') ∨
      ∀ d ∈ c :: rest, d ≠ '-' := by
  unfold floatPattern at hText
  dsimp only at hText
  rw [anyOf_rmatch_iff] at hText
  simp only [List.exists_mem_cons_iff, List.not_mem_nil,
    false_and, exists_false, or_false] at hText
  rcases hText with hPoint | hPart | hSixty | hInf | hNan
  · have hSame :
        (sign * digit * many digitOrUnderscore * word "." *
            many digitOrUnderscore *
            maybe
              (oneOf "eE" * oneOf "-+" *
                many1 digit)).matches' =
          (sign *
            (digit * many digitOrUnderscore * word "." *
              many digitOrUnderscore *
              maybe
                (oneOf "eE" * oneOf "-+" *
                  many1 digit))).matches' := by
      simp only [RegularExpression.matches'_mul, mul_assoc]
    exact
      noDash_sign (noDash_exponent (by decide +kernel)) hDigit
        ((rmatch_congr hSame _).mp hPoint)
  · exact noDash_exponent (by decide +kernel) _ hPart
  · have hSame :
        (sign * digit * many digitOrUnderscore *
            many1 sexagesimal * word "." *
            many digitOrUnderscore).matches' =
          (sign *
            (digit * many digitOrUnderscore *
              many1 sexagesimal * word "." *
              many digitOrUnderscore)).matches' := by
      simp only [RegularExpression.matches'_mul, mul_assoc]
    exact
      noDash_sign (noDash_of_allows (by decide +kernel)) hDigit
        ((rmatch_congr hSame _).mp hSixty)
  · have hSame :
        (sign * word "." *
            anyOf (["inf", "Inf", "INF"].map word)).matches' =
          (sign *
            (word "." *
              anyOf
                (["inf", "Inf", "INF"].map word))).matches' := by
      simp only [RegularExpression.matches'_mul, mul_assoc]
    exact
      noDash_sign (noDash_of_allows (by decide +kernel)) hDigit
        ((rmatch_congr hSame _).mp hInf)
  · exact noDash_of_allows (by decide +kernel) _ hNan

theorem noDash_int
    {c : Char}
    {rest : Str}
    (hDigit : c.isDigit = true)
    (hText : intPattern.rmatch (c :: rest) = true) :
    (∃ d ∈ c :: rest, d = 'e' ∨ d = 'E') ∨
      ∀ d ∈ c :: rest, d ≠ '-' := by
  have hNoDash :
      ∀ q,
        allows (fun c => c != '-') q = true →
          (sign * q).rmatch (c :: rest) = true →
            (∃ d ∈ c :: rest, d = 'e' ∨ d = 'E') ∨
              ∀ d ∈ c :: rest, d ≠ '-' :=
    fun q hAllows =>
      noDash_sign (noDash_of_allows hAllows) hDigit
  unfold intPattern at hText
  rw [anyOf_rmatch_iff] at hText
  simp only [List.exists_mem_cons_iff, List.not_mem_nil,
    false_and, exists_false, or_false] at hText
  rcases hText with hBinary | hOctal | hDecimal | hHexa |
    hSixty
  · rw [mul_mul_rmatch_iff] at hBinary
    exact hNoDash _ (by decide +kernel) hBinary
  · rw [mul_mul_rmatch_iff] at hOctal
    exact hNoDash _ (by decide +kernel) hOctal
  · exact hNoDash _ (by decide +kernel) hDecimal
  · rw [mul_mul_rmatch_iff] at hHexa
    exact hNoDash _ (by decide +kernel) hHexa
  · have hSame :
        (sign * oneOf "123456789" * many digitOrUnderscore *
            many1 sexagesimal).matches' =
          (sign *
            (oneOf "123456789" * many digitOrUnderscore *
              many1 sexagesimal)).matches' := by
      simp only [RegularExpression.matches'_mul, mul_assoc]
    exact
      hNoDash _ (by decide +kernel)
        ((rmatch_congr hSame _).mp hSixty)

/- A timestamp is of no other type. -/
theorem timestamp_apart
    {text : Str}
    (hText : timestampPattern.rmatch text = true) :
    nullPattern.rmatch text = false ∧
      boolPattern.rmatch text = false ∧
        floatPattern.rmatch text = false ∧
          intPattern.rmatch text = false := by
  have hLetters :
      ∀ c ∈ text, (c != 'e' && c != 'E') = true :=
    forall_of_allows (by decide +kernel) hText
  have hDash : ∃ c ∈ text, (c == '-') = true :=
    exists_of_needs (by decide +kernel) hText
  have hNever :
      ¬ ((∃ c ∈ text, c = 'e' ∨ c = 'E') ∨
        ∀ c ∈ text, c ≠ '-') := by
    rintro (⟨c, hMem, hLetter⟩ | hNone)
    · have hOther := hLetters c hMem
      rw [Bool.and_eq_true, bne_iff_ne, bne_iff_ne] at hOther
      rcases hLetter with hE | hE
      · exact hOther.1 hE
      · exact hOther.2 hE
    · rcases hDash with ⟨c, hMem, hEq⟩
      exact hNone c hMem (beq_iff_eq.mp hEq)
  have hHead :
      ∃ c rest, text = c :: rest ∧ c.isDigit = true := by
    rcases (timestampPattern_iff text).mp hText with
      ⟨t, hWritten⟩
    cases hWritten with
    | date hYear hMonth hDay =>
        rcases hYear.head with ⟨c, year, rfl, hDigit⟩
        exact ⟨c, _, rfl, hDigit⟩
    | time hYear hMonth hDay hGap hHour hMinute hSecond
        hFraction hZone =>
        rcases hYear.head with ⟨c, year, rfl, hDigit⟩
        exact ⟨c, _, rfl, hDigit⟩
  rcases hHead with ⟨c, rest, rfl, hDigit⟩
  refine ⟨?_, ?_, ?_, ?_⟩
  · rw [Bool.eq_false_iff]
    intro hNull
    exact
      hNever (noDash_of_allows (by decide +kernel) _ hNull)
  · rw [Bool.eq_false_iff]
    intro hBool
    exact
      hNever (noDash_of_allows (by decide +kernel) _ hBool)
  · rw [Bool.eq_false_iff]
    intro hFloat
    exact hNever (noDash_float hDigit hFloat)
  · rw [Bool.eq_false_iff]
    intro hInt
    exact hNever (noDash_int hDigit hInt)

end Yaml

end MailgunRelay

------------------------------------------------------------
-- Timestamps
------------------------------------------------------------

namespace MailgunRelay

namespace Yaml

/- The resolver's answer to a timestamp. -/
theorem resolvePlain_of_timestamp
    {value : Str}
    (hTime : timestampPattern.rmatch value = true) :
    resolvePlain value =
      if timestampIsValid value then
        .ok (.other "timestamp".toList)
      else
        .error "invalid timestamp scalar".toList := by
  rcases timestamp_apart hTime with
    ⟨hNull, hBool, hFloat, hInt⟩
  unfold resolvePlain
  rw [hNull, hBool, hFloat, hInt, hTime,
    if_neg Bool.false_ne_true, if_neg Bool.false_ne_true,
    if_neg Bool.false_ne_true, if_neg Bool.false_ne_true,
    if_pos rfl]

/- Nothing else is answered like that. -/
theorem timestamp_of_resolvePlain
    {value : Str}
    (hAnswer :
      resolvePlain value =
          .ok (.other "timestamp".toList) ∨
        resolvePlain value =
          .error "invalid timestamp scalar".toList) :
    timestampPattern.rmatch value = true := by
  by_contra hTime
  unfold resolvePlain at hAnswer
  rw [if_neg hTime] at hAnswer
  by_cases hNull : nullPattern.rmatch value = true
  · rw [if_pos hNull] at hAnswer
    simp at hAnswer
  rw [if_neg hNull] at hAnswer
  by_cases hBool : boolPattern.rmatch value = true
  · rw [if_pos hBool] at hAnswer
    simp at hAnswer
  rw [if_neg hBool] at hAnswer
  by_cases hFloat : floatPattern.rmatch value = true
  · rw [if_pos hFloat] at hAnswer
    simp at hAnswer
  rw [if_neg hFloat] at hAnswer
  by_cases hInt : intPattern.rmatch value = true
  · rw [if_pos hInt] at hAnswer
    dsimp only at hAnswer
    repeat' split at hAnswer
    all_goals simp at hAnswer
  rw [if_neg hInt] at hAnswer
  repeat' split at hAnswer
  all_goals simp at hAnswer

/-
  A plain scalar is a timestamp exactly if it writes a real
  date and time, and is refused as one exactly if what it
  writes is not real.
-/
theorem resolvePlain_timestamp
    (value : Str) :
    (resolvePlain value = .ok (.other "timestamp".toList) ↔
        ∃ t, WrittenTimestamp value t ∧ t.Real) ∧
      (resolvePlain value =
          .error "invalid timestamp scalar".toList ↔
        ∃ t, WrittenTimestamp value t ∧ ¬ t.Real) := by
  have hTimes :
      ∀ {t}, WrittenTimestamp value t →
        timestampPattern.rmatch value = true :=
    fun hWritten =>
      (timestampPattern_iff value).mpr ⟨_, hWritten⟩
  constructor
  · constructor
    · intro hAnswer
      have hTime := timestamp_of_resolvePlain (.inl hAnswer)
      rcases (timestampPattern_iff value).mp hTime with
        ⟨t, hWritten⟩
      refine ⟨t, hWritten, ?_⟩
      rw [resolvePlain_of_timestamp hTime] at hAnswer
      rw [← timestampIsValid_iff hWritten]
      by_contra hInvalid
      rw [if_neg hInvalid] at hAnswer
      simp at hAnswer
    · rintro ⟨t, hWritten, hReal⟩
      rw [resolvePlain_of_timestamp (hTimes hWritten),
        if_pos ((timestampIsValid_iff hWritten).mpr hReal)]
  · constructor
    · intro hAnswer
      have hTime := timestamp_of_resolvePlain (.inr hAnswer)
      rcases (timestampPattern_iff value).mp hTime with
        ⟨t, hWritten⟩
      refine ⟨t, hWritten, ?_⟩
      rw [resolvePlain_of_timestamp hTime] at hAnswer
      rw [← timestampIsValid_iff hWritten]
      intro hValid
      rw [if_pos hValid] at hAnswer
      simp at hAnswer
    · rintro ⟨t, hWritten, hUnreal⟩
      rw [← timestampIsValid_iff hWritten] at hUnreal
      rw [resolvePlain_of_timestamp (hTimes hWritten),
        if_neg hUnreal]

end Yaml

end MailgunRelay
