import Mathlib.Data.List.Chain
import MailgunRelay.Mime.Forward

/-
  The long words of a value that decode to nothing: they have
  no pieces, so the forwarded value is the value without
  them. It reads the same when the words around them do not
  stand on one side only.

  Key definitions include:
    * `MailgunRelay.Mime.kept`
    * `MailgunRelay.Mime.balanced`
    * `MailgunRelay.Mime.Undisturbed`

  Key theorems include:
    * `MailgunRelay.Mime.read_kept`
    * `MailgunRelay.Mime.Forwarded.received_eq`
    * `MailgunRelay.Mime.undisturbed_iff`
-/

------------------------------------------------------------
-- Cut Values
------------------------------------------------------------

namespace MailgunRelay

namespace Mime

/- What a character or a word is written as. -/
def Segment.written : Segment → Str
| .char c => [c]
| .word token => token.written

/- The value that was cut. -/
def spelled (segs : List Segment) : Str :=
  segs.flatMap Segment.written

def Segment.isBlank : Segment → Bool
| .char c => isWsp c
| .word _ => false

/- A word that has to be split. -/
def Segment.isLong (seg : Segment) : Bool :=
  maxEncodedWord < seg.written.length

theorem spelled_append
    (segs segs' : List Segment) :
    spelled (segs ++ segs') = spelled segs ++ spelled segs' :=
  List.flatMap_append

theorem spelled_segments
    (value : Str) :
    spelled (segments value) = value := by
  fun_induction segments value with
  | case1 value token after hWord ih =>
      rcases wordAt_eq_some_iff.mp hWord with ⟨-, rfl⟩
      show token.written ++ spelled (segments after) = _
      rw [ih]
  | case2 => rfl
  | case3 c rest hNone ih =>
      show c :: spelled (segments rest) = _
      rw [ih]

theorem Token.getLast?_written
    (token : Token) :
    token.written.getLast? = some '=' := by
  have hWritten :
      token.written =
        ('=' :: '?' ::
          (token.charset ++ '?' :: token.cte :: '?' ::
            (token.text ++ ['?']))) ++ ['='] := by
    simp [Token.written]
  rw [hWritten, List.getLast?_concat]

/- White space in front is a character of its own. -/
theorem isBlank_head
    {text : Str}
    (hStarts : StartsWsp text) :
    ∀ seg ∈ (segments text).head?, seg.isBlank = true := by
  intro seg hHead
  rcases List.head?_eq_some_iff.mp hHead with ⟨segs, hSegs⟩
  have hText := spelled_segments text
  rw [hSegs] at hText
  cases seg with
  | char c =>
      refine hStarts c ?_
      rw [← hText]
      rfl
  | word token =>
      exfalso
      have hEquals : isWsp '=' = true := by
        refine hStarts '=' ?_
        rw [← hText]
        rfl
      cases hEquals

/- And white space at the end. -/
theorem isBlank_getLast
    {text : Str}
    (hEnds : EndsWsp text) :
    ∀ seg ∈ (segments text).getLast?, seg.isBlank = true := by
  intro seg hLast
  rcases List.getLast?_eq_some_iff.mp hLast with ⟨segs, hSegs⟩
  have hText := spelled_segments text
  rw [hSegs, spelled_append] at hText
  have hSeg : spelled [seg] = seg.written :=
    List.append_nil seg.written
  rw [hSeg] at hText
  cases seg with
  | char c =>
      refine hEnds c ?_
      rw [← hText]
      exact List.getLast?_concat
  | word token =>
      exfalso
      have hEquals : isWsp '=' = true := by
        refine hEnds '=' ?_
        rw [← hText, List.getLast?_append]
        show token.written.getLast?.or _ = some '='
        rw [token.getLast?_written]
        rfl
      cases hEquals

/- A text of short words is cut into short ones. -/
theorem isLong_segments
    {text : Str}
    (hShort : AllShort text) :
    ∀ seg ∈ segments text, seg.isLong = false := by
  intro seg hMem
  rw [Segment.isLong, decide_eq_false_iff_not, Nat.not_lt]
  cases seg with
  | char c =>
      show 1 ≤ maxEncodedWord
      decide
  | word token => exact hShort token (mem_segments hMem)

end Mime

end MailgunRelay

------------------------------------------------------------
-- Dropped Words
------------------------------------------------------------

namespace MailgunRelay

namespace Mime

variable [Base64]

/- A long word without a byte to write. -/
def Segment.isDropped (seg : Segment) : Bool :=
  match seg with
  | .char _ => false
  | .word token => seg.isLong && token.decode == some []

/- What of a value is not dropped. -/
def kept (value : Str) : List Segment :=
  (segments value).filter fun seg => !seg.isDropped

def keptText (value : Str) : Str :=
  spelled (kept value)

theorem isDropped_of_short
    {seg : Segment}
    (hShort : seg.isLong = false) :
    seg.isDropped = false := by
  cases seg with
  | char c => rfl
  | word token =>
      rw [Segment.isDropped, hShort, Bool.false_and]

/- A long word is dropped if it has no pieces. -/
theorem isDropped_word
    {token : Token}
    {bytes : Bytes}
    (hLong : maxEncodedWord < token.written.length)
    (hDecode : token.decode = some bytes) :
    (Segment.word token).isDropped = true ↔ bytes = [] := by
  have hLong' : (Segment.word token).isLong = true :=
    decide_eq_true hLong
  rw [Segment.isDropped, hLong', hDecode, Bool.true_and,
    beq_iff_eq, Option.some.injEq]

/- Nothing of a text of short words is dropped. -/
theorem kept_short
    {text : Str}
    (hShort : AllShort text) :
    kept text = segments text := by
  rw [kept, List.filter_eq_self]
  intro seg hMem
  rw [isDropped_of_short (isLong_segments hShort seg hMem)]
  rfl

/- A long word between white space, and what is around it. -/
theorem segments_split
    {text input : Str}
    {token : Token}
    {bytes : Bytes}
    (hEnds : EndsWsp text)
    (hToken : token.WellFormed)
    (hDecode : token.decode = some bytes) :
    segments (text ++ (token.written ++ input)) =
      segments text ++ .word token :: segments input := by
  have hCharset :=
    isCharset_of_compatible hToken.charset
      (charset_of_decode hDecode)
  rw [segments_append hEnds (Token.opening hCharset input),
    segments_written hToken]

theorem kept_split
    {text input : Str}
    {token : Token}
    {bytes : Bytes}
    (hShort : AllShort text)
    (hEnds : EndsWsp text)
    (hToken : token.WellFormed)
    (hLong : maxEncodedWord < token.written.length)
    (hDecode : token.decode = some bytes) :
    kept (text ++ (token.written ++ input)) =
      segments text ++
        if bytes = [] then
          kept input
        else
          .word token :: kept input := by
  have hText := kept_short hShort
  unfold kept at hText ⊢
  rw [segments_split hEnds hToken hDecode,
    List.filter_append, hText, List.filter_cons]
  have hDropped := isDropped_word hLong hDecode
  split
  · rename_i hKept
    rw [Bool.not_eq_true', ← Bool.not_eq_true, hDropped]
      at hKept
    rw [if_neg hKept]
  · rename_i hGone
    rw [Bool.not_eq_true', Bool.not_eq_false, hDropped]
      at hGone
    rw [if_pos hGone]

theorem keptText_short
    {text : Str}
    (hShort : AllShort text) :
    keptText text = text := by
  rw [keptText, kept_short hShort, spelled_segments]

theorem keptText_split
    {text input : Str}
    {token : Token}
    {bytes : Bytes}
    (hShort : AllShort text)
    (hEnds : EndsWsp text)
    (hToken : token.WellFormed)
    (hLong : maxEncodedWord < token.written.length)
    (hDecode : token.decode = some bytes) :
    keptText (text ++ (token.written ++ input)) =
      text ++
        if bytes = [] then
          keptText input
        else
          token.written ++ keptText input := by
  rw [keptText,
    kept_split hShort hEnds hToken hLong hDecode,
    spelled_append, spelled_segments]
  split <;> rfl

end Mime

end MailgunRelay

------------------------------------------------------------
-- Words On Both Sides
------------------------------------------------------------

namespace MailgunRelay

namespace Mime

/- The first thing, white space aside, is a word. -/
def wordFirst : List Segment → Bool
| [] => false
| .char c :: rest => isWsp c && wordFirst rest
| .word _ :: _ => true

variable [Base64]

/-
  Next to a dropped word, white space aside, there is a word
  on both sides or on neither; `before` is whether there is
  one in front.
-/
def balanced (before : Bool) : List Segment → Bool
| [] => true
| .char c :: rest => balanced (before && isWsp c) rest
| .word token :: rest =>
    (!(Segment.word token).isDropped ||
      before == wordFirst rest) && balanced true rest

/- Around a dropped word there is white space. -/
def Apart (seg seg' : Segment) : Prop :=
  (seg.isDropped = true → seg'.isBlank = true) ∧
    (seg'.isDropped = true → seg.isBlank = true)

/- White space in front of a word is not read. -/
theorem read_gap_word
    {segs : List Segment}
    (hFirst : wordFirst segs = true)
    (gap : Str) :
    read (some gap) segs = read (some []) segs := by
  induction segs generalizing gap with
  | nil => cases hFirst
  | cons seg segs ih =>
      cases seg with
      | char c =>
          rcases Bool.and_eq_true_iff.mp hFirst with
            ⟨hBlank, hRest⟩
          simp only [read, Option.isSome_some, hBlank,
            Bool.and_self, if_true]
          rw [ih hRest,
            ih hRest (Option.getD (some []) [] ++ [c])]
      | word token => rfl

/- In front of anything else it is. -/
theorem read_gap_char
    {segs : List Segment}
    (hFirst : wordFirst segs = false)
    (gap : Str) :
    read (some gap) segs =
      (read none segs).map (utf8 gap ++ ·) := by
  induction segs generalizing gap with
  | nil =>
      show some (utf8 gap) = some (utf8 gap ++ [])
      rw [List.append_nil]
  | cons seg segs ih =>
      cases seg with
      | char c =>
          cases hBlank : isWsp c with
          | true =>
              rw [wordFirst, hBlank, Bool.true_and] at hFirst
              simp only [read, Option.isSome_some, hBlank,
                Bool.and_self, if_true, Option.isSome_none,
                Bool.false_and, Bool.false_eq_true, if_false,
                Option.getD_some, Option.getD_none,
                List.nil_append, ih hFirst, utf8_append]
              cases read none segs with
              | none => rfl
              | some bytes => simp
          | false =>
              simp only [read, hBlank, Bool.and_false,
                Bool.false_eq_true, if_false,
                Option.getD_some, Option.getD_none,
                List.nil_append, utf8_append]
              cases read none segs with
              | none => rfl
              | some bytes => simp
      | word token => cases hFirst

/- The white space in front of a word is read behind text. -/
theorem read_none_word
    {segs : List Segment}
    (hFirst : wordFirst segs = true) :
    ∃ gap,
      read none segs =
          (read (some []) segs).map (utf8 gap ++ ·) ∧
        (gap = [] →
          ∃ token, segs.head? = some (.word token)) := by
  induction segs with
  | nil => cases hFirst
  | cons seg segs ih =>
      cases seg with
      | char c =>
          rcases Bool.and_eq_true_iff.mp hFirst with
            ⟨hBlank, hRest⟩
          rcases ih hRest with ⟨gap, hGap, -⟩
          refine ⟨c :: gap, ?_, nofun⟩
          simp only [read, Option.isSome_some, hBlank,
            Bool.and_self, if_true, Option.isSome_none,
            Bool.false_and, Bool.false_eq_true, if_false,
            Option.getD_none, Option.getD_some,
            List.nil_append, hGap]
          rw [read_gap_word hRest [c], utf8_cons]
          cases read (some []) segs with
          | none => rfl
          | some bytes => simp [utf8]
      | word token =>
          refine ⟨[], ?_, fun _ => ⟨token, rfl⟩⟩
          show read none (.word token :: segs) =
            (read none (.word token :: segs)).map ([] ++ ·)
          cases read none (.word token :: segs) <;> rfl

/-
  What is read behind a word that is left out: the white
  space around it as well, unless there is a word on both
  sides or on neither.
-/
theorem read_behind
    {segs : List Segment}
    {gap : Option Str}
    (hGap : gap ≠ some [])
    (hHead : ∀ token, segs.head? ≠ some (.word token)) :
    ∃ more,
      read gap segs =
          (read (some []) segs).map (utf8 more ++ ·) ∧
        (more = [] ↔ gap.isSome = wordFirst segs) := by
  cases hFirst : wordFirst segs with
  | true =>
      cases gap with
      | none =>
          rcases read_none_word hFirst with
            ⟨more, hMore, hNonempty⟩
          refine ⟨more, hMore, iff_of_false ?_ nofun⟩
          intro hNil
          rcases hNonempty hNil with ⟨token, hToken⟩
          exact hHead token hToken
      | some gap =>
          refine ⟨[], ?_, iff_of_true rfl rfl⟩
          rw [read_gap_word hFirst]
          cases read (some []) segs <;> rfl
  | false =>
      cases gap with
      | none =>
          refine ⟨[], ?_, iff_of_true rfl rfl⟩
          rw [read_gap_char hFirst]
          cases read none segs <;> rfl
      | some gap =>
          refine ⟨gap, ?_, iff_of_false ?_ nofun⟩
          · rw [read_gap_char hFirst gap,
              read_gap_char hFirst []]
            cases read none segs <;> rfl
          · rintro rfl
            exact hGap rfl

/- More is read of one value than of another. -/
def Longer (more bytes : Option Bytes) : Prop :=
  ∃ long short,
    more = some long ∧ bytes = some short ∧
      short.length < long.length

omit [Base64] in
theorem Longer.map
    {more bytes : Option Bytes}
    (hLonger : Longer more bytes)
    {front front' : Bytes}
    (hFront : front'.length ≤ front.length) :
    Longer (more.map (front ++ ·)) (bytes.map (front' ++ ·)) := by
  rcases hLonger with ⟨long, short, rfl, rfl, hLength⟩
  refine ⟨front ++ long, front' ++ short, rfl, rfl, ?_⟩
  rw [List.length_append, List.length_append]
  omega

/- The same is read, or more, as a flag tells. -/
structure SameOrLonger
    (isSame : Bool)
    (more bytes : Option Bytes) : Prop where
  same : isSame = true → more = bytes
  longer : isSame = false → Longer more bytes

omit [Base64] in
theorem SameOrLonger.map
    {isSame : Bool}
    {more bytes : Option Bytes}
    (hReads : SameOrLonger isSame more bytes)
    (front : Bytes) :
    SameOrLonger isSame (more.map (front ++ ·))
      (bytes.map (front ++ ·)) := by
  constructor
  · intro hSame
    rw [hReads.same hSame]
  · intro hLonger
    exact (hReads.longer hLonger).map (Nat.le_refl _)

/- What is first stays so when words are dropped. -/
theorem wordFirst_kept
    {segs : List Segment}
    (hBalanced : balanced true segs = true) :
    wordFirst (segs.filter fun seg => !seg.isDropped) =
      wordFirst segs := by
  induction segs with
  | nil => rfl
  | cons seg segs ih =>
      cases seg with
      | char c =>
          show (isWsp c && wordFirst _) = (isWsp c && _)
          cases hBlank : isWsp c with
          | true =>
              rw [balanced, hBlank] at hBalanced
              rw [ih hBalanced]
          | false => rfl
      | word token =>
          rcases Bool.and_eq_true_iff.mp hBalanced with
            ⟨hHere, hRest⟩
          rw [List.filter_cons]
          split
          · rfl
          · rename_i hDropped
            rw [Bool.not_eq_true', Bool.not_eq_false]
              at hDropped
            rw [hDropped, Bool.not_true, Bool.false_or,
              beq_iff_eq] at hHere
            rw [ih hRest, ← hHere]
            rfl

/- A word that is not first has white space in front. -/
theorem head_filter
    {segs : List Segment}
    (hBlank : ∀ seg ∈ segs.head?, seg.isBlank = true)
    (token : Token) :
    (segs.filter fun seg => !seg.isDropped).head? ≠
      some (.word token) := by
  cases segs with
  | nil => nofun
  | cons seg segs =>
      cases seg with
      | char c => nofun
      | word token' => cases hBlank (.word token') rfl

/- What is read when a word in front is dropped as well. -/
theorem read_dropped
    {segs : List Segment}
    (hSome : (read (some []) segs).isSome = true)
    {gap : Option Str}
    (hGap : gap ≠ some [])
    (hBlank : ∀ seg ∈ segs.head?, seg.isBlank = true)
    (hReads :
      SameOrLonger (balanced true segs)
        (read (some [])
          (segs.filter fun seg => !seg.isDropped))
        (read (some []) segs)) :
    SameOrLonger
      (gap.isSome == wordFirst segs && balanced true segs)
      (read gap (segs.filter fun seg => !seg.isDropped))
      (read (some []) segs) := by
  rcases read_behind hGap (head_filter hBlank) with
    ⟨more, hMore, hEven⟩
  rw [hMore]
  constructor
  · intro hBalanced
    rcases Bool.and_eq_true_iff.mp hBalanced with
      ⟨hHere, hLater⟩
    have hBoth :
        gap.isSome =
          wordFirst
            (segs.filter fun seg => !seg.isDropped) := by
      rw [wordFirst_kept hLater]
      exact beq_iff_eq.mp hHere
    rw [hEven.mpr hBoth, hReads.same hLater]
    rcases Option.isSome_iff_exists.mp hSome with
      ⟨bytes, hBytes⟩
    rw [hBytes]
    rfl
  · intro hOff
    cases hLater : balanced true segs with
    | false =>
        have hLonger :
            Longer
              ((read (some []) (segs.filter fun seg =>
                !seg.isDropped)).map (utf8 more ++ ·))
              ((read (some []) segs).map ([] ++ ·)) :=
          (hReads.longer hLater).map (Nat.zero_le _)
        cases hBytes : read (some []) segs with
        | none =>
            rw [hBytes] at hSome
            cases hSome
        | some bytes =>
            rw [hBytes] at hLonger
            exact hLonger
    | true =>
        rw [hLater, Bool.and_true, ← wordFirst_kept hLater,
          beq_eq_false_iff_ne, ne_eq, ← hEven] at hOff
        rcases Option.isSome_iff_exists.mp hSome with
          ⟨bytes, hBytes⟩
        rw [hReads.same hLater, hBytes]
        refine ⟨utf8 more ++ bytes, bytes, rfl, rfl, ?_⟩
        cases more with
        | nil => exact absurd rfl hOff
        | cons c more =>
            have hSize := Char.utf8Size_pos c
            rw [utf8_cons, List.length_append,
              List.length_append,
              String.length_utf8EncodeChar]
            omega

/-
  Dropping words changes what is read exactly where it
  leaves a word on one side only; then more is read. The
  induction is on the cut value; `gap` tells what is in
  front.
-/
theorem read_kept
    {segs : List Segment}
    (hWords :
      ∀ token, .word token ∈ segs →
        token.decode.isSome = true)
    (hApart : segs.IsChain Apart)
    {gap : Option Str}
    (hGap :
      gap = some [] →
        ∀ seg ∈ segs.head?, seg.isDropped = false) :
    SameOrLonger (balanced gap.isSome segs)
      (read gap (segs.filter fun seg => !seg.isDropped))
      (read gap segs) := by
  induction segs generalizing gap with
  | nil =>
      refine ⟨fun _ => rfl, fun hOff => ?_⟩
      cases hOff
  | cons seg segs ih =>
      rcases List.isChain_cons.mp hApart with ⟨hHead, hChain⟩
      have hLater :
          ∀ token, .word token ∈ segs →
            token.decode.isSome = true :=
        fun token hMem =>
          hWords token (List.mem_cons_of_mem _ hMem)
      have hRest
          {gap : Option Str}
          (hGap :
            gap = some [] →
              ∀ seg ∈ segs.head?, seg.isDropped = false) :=
        ih hLater hChain hGap
      cases seg with
      | char c =>
          show
            SameOrLonger (balanced (gap.isSome && isWsp c) segs)
              (read gap (.char c :: segs.filter _)) _
          simp only [read]
          split
          · rename_i hBlank
            rw [hBlank]
            refine @hRest (some (gap.getD [] ++ [c])) ?_
            simp
          · rename_i hChar
            rw [Bool.not_eq_true] at hChar
            rw [hChar]
            have hReads :=
              (@hRest none fun hNone => by cases hNone).map
                (utf8 (gap.getD [] ++ [c]))
            rw [Option.map_eq_bind, Option.map_eq_bind]
              at hReads
            exact hReads
      | word token =>
          rcases
            Option.isSome_iff_exists.mp
              (hWords token List.mem_cons_self) with
            ⟨bytes, hDecode⟩
          have hRead (segs : List Segment) :
              read gap (.word token :: segs) =
                (read (some []) segs).map (bytes ++ ·) := by
            rw [read, hDecode, Option.map_eq_bind]
            rfl
          have hNext :
              ∀ seg ∈ segs.head?, seg.isDropped = false := by
            intro seg hSeg
            rw [← Bool.not_eq_true]
            intro hDropped
            cases (hHead seg hSeg).2 hDropped
          have hReads := @hRest (some []) fun _ => hNext
          rw [balanced, hRead, List.filter_cons]
          cases hDropped : (Segment.word token).isDropped with
          | false =>
              rw [Bool.not_false, Bool.true_or,
                Bool.true_and, if_pos rfl, hRead]
              exact hReads.map bytes
          | true =>
              have hNil : bytes = [] := by
                rw [Segment.isDropped, hDecode,
                  Bool.and_eq_true, beq_iff_eq] at hDropped
                exact Option.some.inj hDropped.2
              have hFront : gap ≠ some [] := by
                intro hEmpty
                have hNot := hGap hEmpty _ rfl
                rw [hDropped] at hNot
                cases hNot
              rw [Bool.not_true, Bool.false_or,
                if_neg Bool.false_ne_true, hNil]
              simp only [List.nil_append, Option.map_id']
              exact
                read_dropped (isSome_read hLater (some []))
                  hFront
                  (fun seg hSeg => (hHead seg hSeg).1 hDropped)
                  hReads

end Mime

end MailgunRelay

------------------------------------------------------------
-- What A Receiver Reads
------------------------------------------------------------

namespace MailgunRelay

namespace Mime

theorem endsWsp_nil : EndsWsp [] := by
  intro c hLast
  cases hLast

theorem EndsWsp.append
    {front text : Str}
    (hFront : EndsWsp front)
    (hText : EndsWsp text) :
    EndsWsp (front ++ text) := by
  intro c hLast
  rw [List.getLast?_append] at hLast
  cases hOwn : text.getLast? with
  | none =>
      rw [hOwn] at hLast
      exact hFront c hLast
  | some d =>
      rw [hOwn] at hLast
      cases hLast
      exact hText c hOwn

variable [Base64]

/- A word without bytes has no pieces, and no other word. -/
theorem IsSplit.nil_iff
    {charset : Str}
    {bytes : Bytes}
    {chunks : List Bytes}
    (hChunks : IsSplit charset bytes chunks) :
    chunks = [] ↔ bytes = [] := by
  rw [← hChunks.whole, List.flatten_eq_nil_iff]
  constructor
  · rintro rfl
    exact nofun
  · intro hAll
    refine List.eq_nil_iff_forall_not_mem.mpr ?_
    intro chunk hMem
    exact hChunks.nonempty chunk hMem (hAll chunk hMem)

theorem apart_of_kept
    {segs : List Segment}
    (hKept : ∀ seg ∈ segs, seg.isDropped = false) :
    segs.IsChain Apart := by
  induction segs with
  | nil => exact .nil
  | cons seg segs ih =>
      refine
        List.isChain_cons.mpr
          ⟨fun seg' hHead => ?_, ih fun seg' hMem => ?_⟩
      · have hHere := hKept seg List.mem_cons_self
        have hNext :=
          hKept seg'
            (List.mem_cons_of_mem _ (List.mem_of_head? hHead))
        constructor
        · rw [hHere]
          exact nofun
        · rw [hNext]
          exact nofun
      · exact hKept seg' (List.mem_cons_of_mem _ hMem)

/- Words that are dropped have white space around them. -/
theorem Forwarded.apart
    {input output : Str}
    (hForwarded : Forwarded input output) :
    (segments input).IsChain Apart := by
  have hText
      {text : Str}
      (hShort : AllShort text) :
      ∀ seg ∈ segments text, seg.isDropped = false :=
    fun seg hMem =>
      isDropped_of_short (isLong_segments hShort seg hMem)
  induction hForwarded with
  | rest hShort => exact apart_of_kept (hText hShort)
  | @split text input output token bytes chunks hShort hEnds
      hStarts hToken hLong hDecode hChunks hRest ih =>
      rw [segments_split hEnds hToken hDecode,
        List.isChain_append]
      refine
        ⟨apart_of_kept (hText hShort),
          List.isChain_cons.mpr ⟨?_, ih⟩, ?_⟩
      · intro seg hHead
        have hBlank := isBlank_head hStarts seg hHead
        refine ⟨fun _ => hBlank, fun hDropped => ?_⟩
        cases seg with
        | char c => cases hDropped
        | word token => cases hBlank
      · intro seg hLast seg' hHead
        cases hHead
        refine ⟨fun hDropped => ?_, fun _ => ?_⟩
        · rw [hText hShort seg (List.mem_of_getLast? hLast)]
            at hDropped
          cases hDropped
        · exact isBlank_getLast hEnds seg hLast

/-
  What is forwarded reads like the text that is kept, also
  behind words that stood in front.
-/
theorem Forwarded.read_eq
    (hBase64 : Base64Laws)
    {input output : Str}
    (hForwarded : Forwarded input output)
    {run : Str}
    (hRun : EndsWsp run)
    (gap : Option Str) :
    read gap (segments (run ++ output)) =
      read gap (segments (run ++ keptText input)) := by
  induction hForwarded generalizing run gap with
  | rest hShort => rw [keptText_short hShort]
  | @split text input output token bytes chunks hShort hEnds
      hStarts hToken hLong hDecode hChunks hRest ih =>
      have hRun' := hRun.append hEnds
      rw [keptText_split hShort hEnds hToken hLong hDecode,
        ← List.append_assoc run, ← List.append_assoc run]
      split
      · rename_i hNil
        rw [hChunks.nil_iff.mpr hNil]
        exact ih hRun' gap
      · rename_i hSome
        have hNonempty : chunks ≠ [] :=
          fun hNil => hSome (hChunks.nil_iff.mp hNil)
        have hName := charset_of_decode hDecode
        have hCharset :=
          isCharset_of_compatible hToken.charset hName
        rw [segments_append hRun'
            (opening_pieces hCharset hNonempty output),
          segments_split hRun' hToken hDecode,
          segments_pieces hBase64 hToken.charset hNonempty]
        refine read_congr (fun gap' => ?_) _ gap
        have hBehind :
            read (some []) (segments output) =
              read (some []) (segments (keptText input)) :=
          ih endsWsp_nil (some [])
        rw [read_pieces hBase64 hName hNonempty, hBehind,
          read, hDecode, hChunks.whole, Option.map_eq_bind]
        rfl

theorem Forwarded.received_eq
    (hBase64 : Base64Laws)
    {value out : Str}
    (hForwarded : Forwarded value out) :
    received out = received (keptText value) :=
  hForwarded.read_eq hBase64 endsWsp_nil none

/-
  Leaving words out changes nothing of what is read: where
  no new word is read in their place, those next to them
  stand on both sides or on neither. Where one is, there is
  nothing to say but that it reads the same.
-/
def Undisturbed (value : Str) : Prop :=
  (segments (keptText value) = kept value ∧
    balanced false (segments value) = true) ∨
  (segments (keptText value) ≠ kept value ∧
    received (keptText value) = received value)

theorem undisturbed_iff
    {value out : Str}
    (hForwarded : Forwarded value out)
    (hWords :
      ∀ token, .word token ∈ segments value →
        token.decode.isSome = true) :
    Undisturbed value ↔
      received (keptText value) = received value := by
  have hReads :=
    @read_kept _ _ hWords hForwarded.apart none nofun
  unfold Undisturbed
  by_cases hKept : segments (keptText value) = kept value
  · have hReceived :
        received (keptText value) = read none (kept value) := by
      rw [received, hKept]
    rw [hReceived]
    constructor
    · rintro (⟨-, hBalanced⟩ | ⟨hNot, -⟩)
      · exact hReads.same hBalanced
      · exact absurd hKept hNot
    · intro hRead
      cases hBalanced : balanced false (segments value) with
      | true => exact .inl ⟨hKept, rfl⟩
      | false =>
          rcases hReads.longer hBalanced with
            ⟨long, short, hLong, hShort, hLess⟩
          have hBoth : some long = some short :=
            hLong.symm.trans (hRead.trans hShort)
          cases hBoth
          exact absurd hLess (Nat.lt_irrefl _)
  · constructor
    · rintro (⟨hHere, -⟩ | ⟨-, hRead⟩)
      · exact absurd hHere hKept
      · exact hRead
    · exact fun hRead => .inr ⟨hKept, hRead⟩

end Mime

end MailgunRelay
