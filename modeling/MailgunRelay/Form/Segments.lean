import MailgunRelay.Form.Scanner

/-
  The parameters of a header are split in one pass: a `;`
  ends a segment when the quotes before it are balanced.
  The search for it, with its swapped indices and negative
  slice bounds, finds just this `;`, and no slice it takes
  leaves the text.

  Key definitions include:
    * `MailgunRelay.Form.quotes`
    * `MailgunRelay.Form.rawSegments`
    * `MailgunRelay.Form.readSegment`
    * `MailgunRelay.Form.sliceParseparam`

  Key theorems include:
    * `MailgunRelay.Form.segmentEnd_spec`
    * `MailgunRelay.Form.segments_eq`
    * `MailgunRelay.Form.sliceParseparam_eq`
    * `MailgunRelay.Form.parseparam_splits`
-/

------------------------------------------------------------
-- The One-Pass Splitter
------------------------------------------------------------

namespace MailgunRelay

namespace Form

/- The quotes of a text after a backslash. -/
def escapedQuotes : Str → Nat
| [] => 0
| [_] => 0
| c :: d :: rest =>
    if c = '\\' ∧ d = '"' then
      1 + escapedQuotes rest
    else
      escapedQuotes (d :: rest)

/- The quotes of a text, without the escaped ones. -/
def quotes (text : Str) : Int :=
  text.count '"' - escapedQuotes text

/- A `;` after this text ends its segment. -/
def isBalanced (text : Str) : Bool :=
  quotes text % 2 == 0

/- The segments, of which `current` has been read. -/
def rawSegmentsFrom (current : Str) : Str → List Str
| [] => [current]
| c :: rest =>
    if c = ';' ∧ isBalanced current = true then
      current :: rawSegmentsFrom [] rest
    else
      rawSegmentsFrom (current ++ [c]) rest

def rawSegments (text : Str) : List Str :=
  rawSegmentsFrom [] text

variable [Unicode]

/- A segment, its key lowercased and spaces removed. -/
def readSegment (raw : Str) : Str :=
  match Lib.Text.splitOnce '=' raw with
  | none => pyStrip raw
  | some (key, value) =>
      pyStrip
        (lowercase (key.rdropWhile isPySpace) ++
          '=' :: value.dropWhile isPySpace)

end Form

end MailgunRelay

------------------------------------------------------------
-- Raw Segments
------------------------------------------------------------

namespace MailgunRelay

namespace Form

/- Text that ends no segment is added to the current one. -/
theorem rawSegmentsFrom_open
    {current text : Str}
    (hOpen : ∀ front rest, text = front ++ ';' :: rest →
      isBalanced (current ++ front) = false)
    (rest : Str) :
    rawSegmentsFrom current (text ++ rest) =
      rawSegmentsFrom (current ++ text) rest := by
  induction text generalizing current with
  | nil => rw [List.append_nil, List.nil_append]
  | cons c text ih =>
      have hHere :
          ¬ (c = ';' ∧ isBalanced current = true) := by
        rintro ⟨rfl, hBalanced⟩
        have hNot := hOpen [] text rfl
        rw [List.append_nil, hBalanced] at hNot
        cases hNot
      rw [List.cons_append, rawSegmentsFrom, if_neg hHere, ih]
      · rw [List.append_assoc, List.singleton_append]
      · intro front rest hText
        rw [List.append_assoc, List.singleton_append]
        exact hOpen (c :: front) rest (by rw [hText]; rfl)

/- A `;` after balanced quotes ends the segment. -/
theorem rawSegmentsFrom_end
    {current : Str}
    (hBalanced : isBalanced current = true)
    (rest : Str) :
    rawSegmentsFrom current (';' :: rest) =
      current :: rawSegments rest := by
  rw [rawSegmentsFrom, if_pos ⟨rfl, hBalanced⟩]
  rfl

/- The segments, each after a `;`, are the text. -/
theorem flatMap_rawSegmentsFrom
    (current text : Str) :
    (rawSegmentsFrom current text).flatMap (';' :: ·) =
      ';' :: (current ++ text) := by
  induction text generalizing current with
  | nil => simp [rawSegmentsFrom]
  | cons c text ih =>
      rw [rawSegmentsFrom]
      split
      · rename_i hEnd
        rw [List.flatMap_cons, ih, hEnd.1]
        simp
      · rw [ih]
        simp

end Form

end MailgunRelay

------------------------------------------------------------
-- Counting Quotes
------------------------------------------------------------

namespace MailgunRelay

namespace Form

/- The characters of the last match are skipped. -/
theorem countFrom_skip
    (pattern : Str)
    (skip : Nat)
    (text : Str) :
    countFrom pattern skip text =
      countFrom pattern 0 (text.drop skip) := by
  induction text generalizing skip with
  | nil =>
      cases skip with
      | zero => rfl
      | succ skip => rfl
  | cons c rest ih =>
      cases skip with
      | zero => rfl
      | succ skip =>
          rw [countFrom, ih]
          rfl

theorem countFrom_quote
    (text : Str) :
    countFrom ['"'] 0 text = text.count '"' := by
  induction text with
  | nil => rfl
  | cons c rest ih =>
      rw [countFrom, List.count_cons]
      by_cases hQuote : c = '"'
      · subst hQuote
        have hPrefix :
            ['"'].isPrefixOf ('"' :: rest) = true := by
          simp
        rw [if_pos hPrefix]
        show 1 + countFrom ['"'] 0 rest = _
        rw [ih]
        simp [Nat.add_comm]
      · have hPrefix :
            ¬ ['"'].isPrefixOf (c :: rest) = true := by
          simpa using fun h => hQuote h.symm
        rw [if_neg hPrefix, ih]
        simp [hQuote]

theorem countFrom_escaped
    (text : Str) :
    countFrom ['\\', '"'] 0 text = escapedQuotes text := by
  fun_induction escapedQuotes text with
  | case1 => rfl
  | case2 c =>
      have hPrefix :
          ¬ ['\\', '"'].isPrefixOf [c] = true := by
        simp
      rw [countFrom, if_neg hPrefix]
      rfl
  | case3 c d rest hBoth ih =>
      rcases hBoth with ⟨rfl, rfl⟩
      have hPrefix :
          ['\\', '"'].isPrefixOf ('\\' :: '"' :: rest) =
            true := by
        simp
      rw [countFrom, if_pos hPrefix, countFrom_skip]
      rw [← ih]
      rfl
  | case4 c d rest hNot ih =>
      have hPrefix :
          ¬ ['\\', '"'].isPrefixOf (c :: d :: rest) =
            true := by
        intro hBoth
        apply hNot
        simp only [List.isPrefixOf_cons_cons, Bool.and_eq_true,
          beq_iff_eq] at hBoth
        exact ⟨hBoth.1.symm, hBoth.2.1.symm⟩
      rw [countFrom, if_neg hPrefix, ih]

/- No escaped quote stands across a cut before a `;`. -/
theorem escapedQuotes_append
    (front rest : Str) :
    escapedQuotes (front ++ ';' :: rest) =
      escapedQuotes front + escapedQuotes (';' :: rest) := by
  fun_induction escapedQuotes front with
  | case1 => simp
  | case2 c =>
      rw [List.singleton_append, escapedQuotes, if_neg]
      · rw [Nat.zero_add]
      · rintro ⟨-, hQuote⟩
        exact absurd hQuote (by decide)
  | case3 c d front hBoth ih =>
      rw [List.cons_append, List.cons_append, escapedQuotes,
        if_pos hBoth, ih, Nat.add_assoc]
  | case4 c d front hNot ih =>
      rw [List.cons_append, List.cons_append, escapedQuotes,
        if_neg hNot, ← List.cons_append, ih]

theorem quotes_append
    (front rest : Str) :
    quotes (front ++ ';' :: rest) =
      quotes front + quotes (';' :: rest) := by
  unfold quotes
  rw [escapedQuotes_append, List.count_append]
  omega

end Form

end MailgunRelay

------------------------------------------------------------
-- Cuts Of The Text
------------------------------------------------------------

namespace MailgunRelay

namespace Form

/- The characters between two indices. -/
def cut (s : Str) (start stop : Nat) : Str :=
  (s.take stop).drop start

variable {s : Str} {start mid stop : Nat}

theorem length_cut
    (hStop : stop ≤ s.length) :
    (cut s start stop).length = stop - start := by
  unfold cut
  rw [List.length_drop, List.length_take, min_eq_left hStop]

theorem cut_self :
    cut s mid mid = [] := by
  unfold cut
  apply List.drop_eq_nil_iff.mpr
  rw [List.length_take]
  omega

/- A slice with indices inside the text is a cut. -/
theorem segment_eq_cut
    (hStart : start ≤ s.length)
    (hStop : stop ≤ s.length) :
    segment s start stop = cut s start stop := by
  unfold segment
  simp only
  rw [clamp_of_le (by omega) (by omega),
    clamp_of_le (by omega) (by omega)]
  rfl

theorem cut_append_drop
    (hStop : start ≤ stop) :
    cut s start stop ++ s.drop stop = s.drop start := by
  unfold cut
  rw [List.drop_take]
  have hStop' : s.drop stop = (s.drop start).drop (stop - start) := by
    rw [List.drop_drop, Nat.add_sub_cancel' hStop]
  rw [hStop', List.take_append_drop]

theorem cut_append_cut
    (hFirst : start ≤ mid)
    (hSecond : mid ≤ stop) :
    cut s start mid ++ cut s mid stop = cut s start stop := by
  unfold cut
  have hTake : s.take mid = (s.take stop).take mid := by
    rw [List.take_take, min_eq_left hSecond]
  rw [hTake]
  exact cut_append_drop hFirst

theorem getElem?_cut
    {k : Nat}
    (hInside : start + k < stop) :
    (cut s start stop)[k]? = s[start + k]? := by
  unfold cut
  rw [List.getElem?_drop, List.getElem?_take_of_lt hInside]

/- A cut from a `;` on starts with it. -/
theorem cut_of_semi
    (hSemi : s[start]? = some ';')
    (hLess : start < stop) :
    ∃ rest, cut s start stop = ';' :: rest := by
  have hHere : (cut s start stop)[0]? = some ';' := by
    rw [getElem?_cut hLess]
    exact hSemi
  cases hCut : cut s start stop with
  | nil =>
      rw [hCut] at hHere
      cases hHere
  | cons c rest =>
      rw [hCut] at hHere
      cases hHere
      exact ⟨rest, rfl⟩

/- What is counted in a slice are its quotes. -/
theorem count_eq_quotes
    (hStart : start ≤ s.length)
    (hStop : stop ≤ s.length) :
    count s ['"'] start stop - count s ['\\', '"'] start stop =
      quotes (cut s start stop) := by
  unfold count quotes
  rw [segment_eq_cut hStart hStop, countFrom_quote,
    countFrom_escaped]

/- Quotes are counted from `;` to `;`. -/
theorem quotes_cut_append
    (hFirst : start ≤ mid)
    (hSecond : mid ≤ stop)
    (hCut : mid = start ∨ s[mid]? = some ';') :
    quotes (cut s start mid) + quotes (cut s mid stop) =
      quotes (cut s start stop) := by
  rcases hCut with rfl | hSemi
  · rw [cut_self]
    exact Int.zero_add _
  · rcases Nat.lt_or_eq_of_le hSecond with hLess | rfl
    · rcases cut_of_semi hSemi hLess with ⟨rest, hRest⟩
      rw [← cut_append_cut hFirst hSecond, hRest,
        quotes_append]
    · rw [cut_self]
      exact Int.add_zero _

end Form

end MailgunRelay

------------------------------------------------------------
-- The End Of A Segment
------------------------------------------------------------

namespace MailgunRelay

namespace Form

variable {s : Str} {start : Nat}

/- A `;` at an index does not end the segment. -/
def IsOpen (s : Str) (start j : Nat) : Prop :=
  s[j]? = some ';' → isBalanced (cut s start j) = false

theorem isBalanced_iff
    (text : Str) :
    isBalanced text = true ↔ quotes text % 2 = 0 :=
  beq_iff_eq

/- The first `;` after an index, or `-1`. -/
structure NextSemi (s : Str) (q : Nat) (p : Int) : Prop where
  none : p = -1 ∨ (q ≤ p ∧ p < s.length)
  here : p ≠ -1 → s[p.toNat]? = some ';'
  first : ∀ j, q ≤ j → (p = -1 ∨ (j : Int) < p) →
    s[j]? ≠ some ';'

/- `find` of a `;` in the rest of the text. -/
theorem nextSemi_find
    {q : Nat}
    (hInside : q ≤ s.length) :
    NextSemi s q (find s ';' q s.length) := by
  rcases @find_spec s ';' q (by omega) (by omega) with
    ⟨hNone, hFirst⟩ | ⟨p, hFind, hLe, hHere, hFirst⟩
  · rw [hNone]
    exact
      ⟨.inl rfl, fun h => absurd rfl h,
        fun j hLe _ => hFirst j (by omega)⟩
  · have hBound := (List.getElem?_eq_some_iff.mp hHere).1
    rw [hFind]
    refine ⟨.inr ⟨hLe, by omega⟩, fun _ => hHere, ?_⟩
    intro j hLe' hBefore
    exact hFirst j (by omega) (by omega)

/-
  The search finds the first `;` after balanced quotes, or
  none.  `q` is where the quotes were counted up to, and `p`
  the next `;` after it, as for its end.
-/
theorem segmentEnd_spec
    (hStart : 1 ≤ start)
    (spare k : Nat)
    {p : Int}
    {q : Nat}
    {diff : Int}
    (hTurns : s.length ≤ q + k)
    (hInd : start ≤ q)
    (hInside : q ≤ s.length)
    (hCut : q = start ∨ s[q]? = some ';')
    (hDiff : diff = quotes (cut s start q))
    (hOpen : ∀ j, start ≤ j → (p = -1 ∨ (j : Int) < p) →
      IsOpen s start j)
    (hNext : NextSemi s (q + 1) p ∨
      (p = q ∧ s[q]? = some ';' ∧ diff % 2 = 0)) :
    (segmentEnd s (spare + (2 * k + 1)) p q diff = -1 ∧
        ∀ j, start ≤ j → IsOpen s start j) ∨
      ∃ m : Nat,
        segmentEnd s (spare + (2 * k + 1)) p q diff = m ∧
          start ≤ m ∧ s[m]? = some ';' ∧
          isBalanced (cut s start m) = true ∧
          ∀ j, start ≤ j → j < m → IsOpen s start j := by
  induction k generalizing p q diff with
  | zero =>
      rcases hNext with hNext | ⟨-, hHere, -⟩
      · rcases hNext.none with rfl | ⟨hLe, hLess⟩
        · exact .inl ⟨rfl, fun j hj => hOpen j hj (.inl rfl)⟩
        · omega
      · have hBound := (List.getElem?_eq_some_iff.mp hHere).1
        omega
  | succ k ih =>
      have hFuel :
          spare + (2 * (k + 1) + 1) =
            spare + (2 * k + 1) + 1 + 1 := by
        omega
      by_cases hNone : p = -1
      · subst hNone
        exact .inl ⟨rfl, fun j hj => hOpen j hj (.inl rfl)⟩
      have hHere : q ≤ p ∧ p < s.length ∧
          s[p.toNat]? = some ';' := by
        rcases hNext with hNext | ⟨rfl, hSemi, -⟩
        · rcases hNext.none with hEq | ⟨hLe, hLess⟩
          · exact absurd hEq hNone
          · exact ⟨by omega, hLess, hNext.here hNone⟩
        · have hBound := (List.getElem?_eq_some_iff.mp hSemi).1
          exact ⟨Int.le_refl _, by omega, hSemi⟩
      rcases hHere with ⟨hLe, hLess, hSemi⟩
      rcases Int.eq_ofNat_of_zero_le (show 0 ≤ p by omega) with
        ⟨m, rfl⟩
      rw [hFuel, segmentEnd, if_pos (by omega)]
      simp only
      -- The quotes up to `m` are counted.
      have hCount :
          diff + (count s ['"'] q m -
            count s ['\\', '"'] q m) =
              quotes (cut s start m) := by
        rw [count_eq_quotes hInside (by omega), hDiff]
        exact quotes_cut_append hInd (by omega) hCut
      rw [hCount]
      by_cases hEven : quotes (cut s start m) % 2 = 0
      · rw [if_pos hEven]
        refine
          .inr ⟨m, rfl, by omega, hSemi,
            (isBalanced_iff _).mpr hEven, ?_⟩
        intro j hj hBefore
        exact hOpen j hj (.inr (by omega))
      rw [if_neg hEven]
      have hOdd : isBalanced (cut s start m) = false :=
        Bool.eq_false_iff.mpr fun hBalanced =>
          hEven ((isBalanced_iff _).mp hBalanced)
      have hNext' : NextSemi s (q + 1) m := by
        rcases hNext with hNext | ⟨hEq, -, hBalanced⟩
        · exact hNext
        · -- Nothing stands between `q` and itself.
          have hSame : m = q := by omega
          rw [hDiff, ← hSame] at hBalanced
          exact absurd hBalanced hEven
      have hAfter : q + 1 ≤ m := by
        rcases hNext'.none with hEq | ⟨hLe', -⟩
        · exact absurd hEq hNone
        · omega
      -- Back at `q`, with the `;` after `m` for the next turn.
      have hLater : NextSemi s (m + 1)
          (find s ';' ((m : Int) + 1) s.length) :=
        nextSemi_find (by omega)
      generalize
        find s ';' ((m : Int) + 1) s.length = p' at hLater
      have hClamp : clamp s.length q ≤ clamp s.length p' := by
        apply clamp_le_of_found (by omega)
        rcases hLater.none with hNone | ⟨hAt, hLess'⟩
        · exact .inl hNone
        · exact .inr ⟨by omega, hLess'⟩
      rw [segmentEnd, if_pos (by omega)]
      simp only
      rw [count_of_clamp_le hClamp, count_of_clamp_le hClamp,
        Int.sub_zero, Int.add_zero, if_neg hEven]
      -- The first `;` after `q` is the one at `m`.
      have hAgain : find s ';' ((q : Int) + 1) s.length = m := by
        have hFound : NextSemi s (q + 1)
            (find s ';' ((q : Int) + 1) s.length) :=
          nextSemi_find (by omega)
        generalize
          find s ';' ((q : Int) + 1) s.length = p'' at hFound
        rcases hFound.none with rfl | ⟨hAt, hLess'⟩
        · exact absurd hSemi
            (hFound.first m hAfter (.inl rfl))
        · have hFirst : ¬ (m : Int) < p'' := fun hLt =>
            hFound.first m hAfter (.inr hLt) hSemi
          have hFirst' : ¬ p'' < (m : Int) := fun hLt =>
            hNext'.first p''.toNat (by omega)
              (.inr (by omega)) (hFound.here (by omega))
          omega
      rw [hAgain]
      apply ih (by omega) (by omega) (by omega)
        (.inr hSemi) rfl
      · intro j hj hBefore hHere
        rcases Nat.lt_trichotomy j m with hLt | rfl | hGt
        · exact hOpen j hj (.inr (by omega)) hHere
        · exact hOdd
        · exact absurd hHere (hLater.first j hGt hBefore)
      · exact .inl hLater

end Form

end MailgunRelay

------------------------------------------------------------
-- Segments
------------------------------------------------------------

namespace MailgunRelay

namespace Form

variable [Unicode]

variable {s : Str} {start stop : Nat}

omit [Unicode] in
/- The first `=` of a cut, as an index into the text. -/
theorem find_cut
    (hLe : start ≤ stop)
    (hStop : stop ≤ s.length)
    (c : Char) :
    find s c start stop =
      match (cut s start stop).idxOf? c with
      | none => -1
      | some k => ((start + k : Nat) : Int) := by
  unfold find
  simp only
  rw [clamp_of_le (by omega) (by omega),
    clamp_of_le (by omega) (by omega),
    segment_eq_cut (by omega) hStop, if_neg (by omega)]
  cases (cut s start stop).idxOf? c with
  | none => rfl
  | some k => simp

omit [Unicode] in
/- A list around the first element that is looked for. -/
theorem splitOnce_idxOf?
    {c : Char}
    {text : Str} :
    Lib.Text.splitOnce c text =
      (text.idxOf? c).map fun k =>
        (text.take k, text.drop (k + 1)) := by
  cases hFound : text.idxOf? c with
  | none =>
      rw [Option.map_none]
      exact (Lib.Text.splitOnce_eq_none_iff c text).mpr
        (List.idxOf?_eq_none_iff.mp hFound)
  | some k =>
      rcases List.idxOf?_eq_some_iff.mp hFound with
        ⟨hLess, hHere, hNone⟩
      rw [Option.map_some]
      apply (Lib.Text.splitOnce_eq_some_iff ..).mpr
      constructor
      · rw [← hHere, ← List.drop_eq_getElem_cons hLess,
          List.take_append_drop]
      · intro hMem
        rcases List.mem_take_iff_getElem.mp hMem with
          ⟨j, hBefore, hEq⟩
        exact hNone j (by omega) hEq

/- The segment between two indices is read from its cut. -/
theorem parameter_eq
    (hLe : start ≤ stop)
    (hStop : stop ≤ s.length) :
    parameter s start stop =
      readSegment (cut s start stop) := by
  unfold parameter readSegment
  simp only
  rw [find_cut hLe hStop, splitOnce_idxOf?]
  cases hFound : (cut s start stop).idxOf? '=' with
  | none =>
      simp only [if_true, Option.map_none]
      rw [segment_eq_cut (by omega) hStop]
  | some k =>
      have hInside := (List.idxOf?_eq_some_iff.mp hFound).1
      rw [length_cut hStop] at hInside
      simp only [Option.map_some]
      rw [if_neg (by omega)]
      have hKey :
          segment s start ((start + k : Nat) : Int) =
            (cut s start stop).take k := by
        rw [segment_eq_cut (by omega) (by omega),
          ← cut_append_cut (show start ≤ start + k by omega)
            (show start + k ≤ stop by omega)]
        exact (List.take_left'
          (by rw [length_cut (by omega)]; omega)).symm
      have hValue :
          segment s (((start + k : Nat) : Int) + 1) stop =
            (cut s start stop).drop (k + 1) := by
        show segment s ((start + k + 1 : Nat) : Int) stop = _
        rw [segment_eq_cut (by omega) hStop,
          ← cut_append_cut
            (show start ≤ start + k + 1 by omega)
            (show start + k + 1 ≤ stop by omega)]
        exact (List.drop_left'
          (by rw [length_cut (by omega)]; omega)).symm
      rw [hKey, hValue]

omit [Unicode] in
/- Without an end the rest of the text is one segment. -/
theorem rawSegments_of_open
    (hOpen : ∀ j, start ≤ j → IsOpen s start j) :
    rawSegments (s.drop start) = [s.drop start] := by
  have hAll := @rawSegmentsFrom_open [] (s.drop start)
    (fun front rest hText => by
      have hHere : s[start + front.length]? = some ';' := by
        rw [← List.getElem?_drop, hText]
        simp
      have hCut : cut s start (start + front.length) = front := by
        unfold cut
        rw [List.drop_take, Nat.add_sub_cancel_left, hText,
          List.take_left]
      have hFront :=
        hOpen (start + front.length) (by omega) hHere
      rwa [hCut] at hFront) []
  rw [List.append_nil] at hAll
  exact hAll

omit [Unicode] in
/- The first end is where the one-pass splitter cuts. -/
theorem rawSegments_of_end
    (hLe : start ≤ stop)
    (hSemi : s[stop]? = some ';')
    (hBalanced : isBalanced (cut s start stop) = true)
    (hOpen : ∀ j, start ≤ j → j < stop → IsOpen s start j) :
    rawSegments (s.drop start) =
      cut s start stop :: rawSegments (s.drop (stop + 1)) := by
  rcases List.getElem?_eq_some_iff.mp hSemi with
    ⟨hInside, hHere⟩
  have hRest : s.drop stop = ';' :: s.drop (stop + 1) := by
    rw [List.drop_eq_getElem_cons hInside, hHere]
  unfold rawSegments
  rw [← cut_append_drop hLe, hRest, rawSegmentsFrom_open]
  · rw [List.nil_append, rawSegmentsFrom_end hBalanced]
    rfl
  · intro front rest hText
    have hLength := @length_cut s start stop
      (Nat.le_of_lt hInside)
    have hSize := congrArg List.length hText
    rw [hLength, List.length_append, List.length_cons] at hSize
    have hCutHere : s[start + front.length]? = some ';' := by
      rw [← getElem?_cut (show start + front.length < stop by
        omega), hText]
      simp
    have hCut : cut s start (start + front.length) = front := by
      have hBoth := cut_append_cut (s := s)
        (show start ≤ start + front.length by omega)
        (show start + front.length ≤ stop by omega)
      rw [hText] at hBoth
      exact (List.append_inj hBoth (by
        rw [length_cut (by omega)]
        omega)).1
    have hFront :=
      hOpen (start + front.length) (by omega) (by omega) hCutHere
    rwa [hCut] at hFront

omit [Unicode] in
/- The search starts with the first `;` and no quotes. -/
theorem segmentEnd_start
    (hStart : 1 ≤ start)
    (hInside : start ≤ s.length) :
    (segmentEnd s (2 * s.length + 2)
          (find s ';' start s.length) start 0 = -1 ∧
        ∀ j, start ≤ j → IsOpen s start j) ∨
      ∃ m : Nat,
        segmentEnd s (2 * s.length + 2)
            (find s ';' start s.length) start 0 = m ∧
          start ≤ m ∧ s[m]? = some ';' ∧
          isBalanced (cut s start m) = true ∧
          ∀ j, start ≤ j → j < m → IsOpen s start j := by
  have hFuel : 2 * s.length + 2 = 1 + (2 * s.length + 1) := by
    omega
  have hFound := nextSemi_find hInside
  generalize find s ';' start s.length = p at hFound
  rw [hFuel]
  apply segmentEnd_spec hStart 1 s.length (by omega)
    (Nat.le_refl _) hInside (.inl rfl)
  · rw [cut_self]
    rfl
  · exact fun j hj hBefore hAt =>
      absurd hAt (hFound.first j hj hBefore)
  · by_cases hFirst : p = start
    · right
      have hAt := hFound.here (by omega)
      rw [hFirst] at hAt
      exact ⟨hFirst, hAt, rfl⟩
    · left
      refine ⟨?_, hFound.here, ?_⟩
      · rcases hFound.none with hNone | ⟨hLe, hLess⟩
        · exact .inl hNone
        · exact .inr ⟨by omega, hLess⟩
      · exact fun j hj hBefore =>
          hFound.first j (by omega) hBefore

/- No segment starts at the end of the text. -/
theorem segments_length
    {fuel : Nat} :
    segments s fuel s.length = [] := by
  cases fuel with
  | zero => rfl
  | succ fuel =>
      rw [segments, if_neg]
      intro hFind
      have hFinal := nextSemi_find (Nat.le_refl s.length)
      rw [hFind] at hFinal
      rcases hFinal.none with hNone | ⟨-, hLess⟩
      · omega
      · omega

/- From a `;` on, the text is split in one pass. -/
theorem segments_eq
    {fuel : Nat}
    (hSemi : s[start]? = some ';')
    (hFuel : s.length < start + fuel) :
    segments s fuel start =
      (rawSegments (s.drop (start + 1))).map readSegment := by
  induction fuel generalizing start with
  | zero =>
      have hInside := (List.getElem?_eq_some_iff.mp hSemi).1
      omega
  | succ fuel ih =>
      have hInside := (List.getElem?_eq_some_iff.mp hSemi).1
      have hHere : find s ';' start s.length = start := by
        have hFound := nextSemi_find (Nat.le_of_lt hInside)
        generalize find s ';' start s.length = p at hFound
        have hNot : ¬ (p = -1 ∨ (start : Int) < p) := fun hLater =>
          hFound.first start (Nat.le_refl _) hLater hSemi
        rcases hFound.none with hNone | ⟨hLe, -⟩
        · exact absurd (.inl hNone) hNot
        · omega
      rw [segments, if_pos hHere]
      simp only
      have hEnd :=
        @segmentEnd_start s (start + 1) (by omega) hInside
      push_cast at hEnd
      rcases hEnd with ⟨hEq, hOpen⟩ |
        ⟨m, hEq, hLe, hAt, hBalanced, hOpen⟩
      · rw [hEq, if_pos (by decide), rawSegments_of_open hOpen]
        have hCut : cut s (start + 1) s.length =
            s.drop (start + 1) := by
          unfold cut
          rw [List.take_length]
        have hParameter := parameter_eq (s := s) hInside
          (Nat.le_refl _)
        rw [hCut] at hParameter
        push_cast at hParameter
        rw [hParameter]
        rw [segments_length]
        rfl
      · have hBound := (List.getElem?_eq_some_iff.mp hAt).1
        rw [hEq, if_neg (by omega),
          rawSegments_of_end hLe hAt hBalanced hOpen]
        have hParameter := parameter_eq (s := s) hLe
          (Nat.le_of_lt hBound)
        push_cast at hParameter
        rw [hParameter, ih hAt (by omega)]
        rfl

/- The parameters are the segments of one pass over the text. -/
theorem parseparam_eq
    (text : Str) :
    parseparam text = (rawSegments text).map readSegment := by
  unfold parseparam
  apply @segments_eq _ (';' :: text) 0 _ rfl
  rw [List.length_cons]
  omega

end Form

end MailgunRelay

------------------------------------------------------------
-- Slices With Checks
------------------------------------------------------------

namespace MailgunRelay

namespace Form

open Lib (Checked Fault)

variable {ε : Type}

/- The closure `find`: `s[a..b]` panics outside the text. -/
def sliceFind
    (s : Str)
    (c : Char)
    (start stop : Int) : Checked ε Int :=
  let n : Int := s.length
  if clamp n start > clamp n stop then
    .ok (-1)
  else do
    let part ← Checked.slice s (clamp n start) (clamp n stop)
    return match part.idxOf? c with
      | none => -1
      | some p => clamp n start + p

/- `while i + pattern.len() <= b`. -/
def sliceCountFrom
    (s pattern : Str)
    (b : Nat) : Nat → Nat → Int → Checked ε Int
| 0, _, _ => .error .loops
| fuel + 1, i, total =>
    if i + pattern.length ≤ b then do
      let window ← Checked.slice s i (i + pattern.length)
      if window = pattern then
        sliceCountFrom s pattern b fuel
          (i + pattern.length) (total + 1)
      else
        sliceCountFrom s pattern b fuel (i + 1) total
    else
      .ok total

/- The closure `count`. -/
def sliceCount
    (s pattern : Str)
    (start stop : Int) : Checked ε Int :=
  let n : Int := s.length
  sliceCountFrom s pattern (clamp n stop) (s.length + 1)
    (clamp n start) 0

/- The closure `segment`. -/
def sliceSegment
    (s : Str)
    (a b : Int) : Checked ε Str :=
  let n : Int := s.length
  Checked.slice s (clamp n a) (max (clamp n b) (clamp n a))

/- `while end > 0`. -/
def sliceSegmentEnd
    (s : Str) : Nat → Int → Int → Int → Checked ε Int
| 0, _, _, _ => .error .loops
| fuel + 1, stop, ind, diff =>
    if 0 < stop then do
      let all ← sliceCount s ['"'] ind stop
      let escaped ← sliceCount s ['\\', '"'] ind stop
      let diff := diff + (all - escaped)
      if diff % 2 = 0 then
        .ok stop
      else do
        let next ← sliceFind s ';' (stop + 1) s.length
        sliceSegmentEnd s fuel ind next diff
    else
      .ok stop

variable [Unicode]

def sliceParameter
    (s : Str)
    (start stop : Int) : Checked ε Str := do
  let i ← sliceFind s '=' start stop
  if i = -1 then do
    let f ← sliceSegment s start stop
    return pyStrip f
  else do
    let key ← sliceSegment s start i
    let value ← sliceSegment s (i + 1) stop
    return pyStrip
      (lowercase (key.rdropWhile isPySpace) ++
        '=' :: value.dropWhile isPySpace)

/- `while find(';', start, n) == start`. -/
def sliceSegments
    (s : Str) : Nat → Int → Checked ε (List Str)
| 0, _ => .error .loops
| fuel + 1, start => do
    let here ← sliceFind s ';' start s.length
    if here = start then do
      let start := start + 1
      let first ← sliceFind s ';' start s.length
      let stop ←
        sliceSegmentEnd s (2 * s.length + 2) first start 0
      let stop := if stop < 0 then (s.length : Int) else stop
      let part ← sliceParameter s start stop
      let rest ← sliceSegments s fuel stop
      return part :: rest
    else
      .ok []

/- `parseparam`, where every slice is checked. -/
def sliceParseparam (text : Str) : Checked ε (List Str) :=
  sliceSegments (';' :: text) (text.length + 2) 0

end Form

end MailgunRelay

------------------------------------------------------------
-- Slices Inside The Text
------------------------------------------------------------

namespace MailgunRelay

namespace Form

open Lib (Checked Fault)

variable {ε : Type}

/- A Python slice index never leaves the text. -/
theorem clamp_le
    (n : Nat)
    (i : Int) :
    clamp n i ≤ n := by
  unfold clamp
  split
  · omega
  · omega

theorem slice_clamp
    {s : Str}
    {start stop : Int}
    (hLe : clamp s.length start ≤ clamp s.length stop) :
    (Checked.slice s (clamp s.length start)
        (clamp s.length stop) : Checked ε Str) =
      .ok (segment s start stop) := by
  rw [Checked.slice_of_le hLe (clamp_le _ _)]
  unfold segment
  rw [List.drop_take]

theorem sliceFind_eq
    (s : Str)
    (c : Char)
    (start stop : Int) :
    (sliceFind s c start stop : Checked ε Int) =
      .ok (find s c start stop) := by
  unfold sliceFind find
  simp only
  by_cases hOut :
      clamp s.length start > clamp s.length stop
  · rw [if_pos hOut, if_pos hOut]
  · rw [if_neg hOut, if_neg hOut,
      slice_clamp (Nat.le_of_not_lt hOut)]
    rfl

theorem sliceSegment_eq
    (s : Str)
    (a b : Int) :
    (sliceSegment s a b : Checked ε Str) =
      .ok (segment s a b) := by
  unfold sliceSegment
  simp only
  rcases Nat.le_total (clamp s.length a) (clamp s.length b) with
    hLe | hLe
  · rw [max_eq_left hLe]
    exact slice_clamp hLe
  · rw [max_eq_right hLe,
      Checked.slice_of_le (Nat.le_refl _) (clamp_le _ _)]
    have hNone : segment s a b = [] := by
      unfold segment
      apply List.drop_eq_nil_iff.mpr
      rw [List.length_take]
      omega
    rw [hNone, Nat.sub_self, List.take_zero]

/- A text shorter than the pattern holds none of it. -/
theorem countFrom_of_short
    {pattern text : Str}
    (hShort : text.length < pattern.length) :
    countFrom pattern 0 text = 0 := by
  induction text with
  | nil => rfl
  | cons c rest ih =>
      have hPrefix :
          ¬ pattern.isPrefixOf (c :: rest) = true := by
        intro hPrefix
        have hLe :=
          (List.isPrefixOf_iff_prefix.mp hPrefix).length_le
        omega
      rw [countFrom, if_neg hPrefix]
      apply ih
      rw [List.length_cons] at hShort
      omega

/- The match at the start of a text is skipped as a whole. -/
theorem countFrom_of_window
    {pattern text : Str}
    (hPattern : pattern ≠ [])
    (hWindow : text.take pattern.length = pattern) :
    countFrom pattern 0 text =
      1 + countFrom pattern 0 (text.drop pattern.length) := by
  have hPrefix : pattern <+: text :=
    List.prefix_iff_eq_take.mpr hWindow.symm
  cases text with
  | nil => exact absurd (List.prefix_nil.mp hPrefix) hPattern
  | cons c rest =>
      have hLength := List.length_pos_of_ne_nil hPattern
      rw [countFrom,
        if_pos (List.isPrefixOf_iff_prefix.mpr hPrefix),
        countFrom_skip]
      rw [← List.drop_succ_cons, Nat.sub_add_cancel hLength]

theorem countFrom_of_not_window
    {pattern text : Str}
    (hText : text ≠ [])
    (hWindow : text.take pattern.length ≠ pattern) :
    countFrom pattern 0 text =
      countFrom pattern 0 (text.drop 1) := by
  cases text with
  | nil => exact absurd rfl hText
  | cons c rest =>
      rw [countFrom, if_neg]
      · rfl
      · intro hPrefix
        exact hWindow
          (List.prefix_iff_eq_take.mp
            (List.isPrefixOf_iff_prefix.mp hPrefix)).symm

theorem drop_cut
    (s : Str)
    (start stop k : Nat) :
    (cut s start stop).drop k = cut s (start + k) stop :=
  List.drop_drop

/- Every window stands before the end of the slice. -/
theorem sliceCountFrom_eq
    {s pattern : Str}
    {b fuel i : Nat}
    {total : Int}
    (hPattern : pattern ≠ [])
    (hStop : b ≤ s.length)
    (hFuel : b - i < fuel) :
    (sliceCountFrom s pattern b fuel i total : Checked ε Int) =
      .ok (total + countFrom pattern 0 (cut s i b)) := by
  have hLength := List.length_pos_of_ne_nil hPattern
  have hCut := @length_cut s i b hStop
  induction fuel generalizing i total with
  | zero => omega
  | succ fuel ih =>
      rw [sliceCountFrom]
      by_cases hInside : i + pattern.length ≤ b
      · have hWindow :
            (s.drop i).take pattern.length =
              (cut s i b).take pattern.length := by
          unfold cut
          rw [List.drop_take, List.take_take,
            min_eq_left (by omega)]
        rw [if_pos hInside,
          Checked.slice_of_le (by omega) (by omega),
          Lib.ok_bind, Nat.add_sub_cancel_left, hWindow]
        by_cases hMatch :
            (cut s i b).take pattern.length = pattern
        · rw [if_pos hMatch, ih (by omega) (length_cut hStop),
            countFrom_of_window hPattern hMatch, drop_cut]
          push_cast
          rw [Int.add_assoc]
        · have hSome : cut s i b ≠ [] := by
            apply List.ne_nil_of_length_pos
            omega
          rw [if_neg hMatch, ih (by omega) (length_cut hStop),
            countFrom_of_not_window hSome hMatch, drop_cut]
      · rw [if_neg hInside, countFrom_of_short (by omega)]
        exact congrArg Except.ok (Int.add_zero total).symm

theorem sliceCount_eq
    {s pattern : Str}
    (hPattern : pattern ≠ [])
    (start stop : Int) :
    (sliceCount s pattern start stop : Checked ε Int) =
      .ok (count s pattern start stop) := by
  have hStop := clamp_le s.length stop
  unfold sliceCount
  simp only
  rw [sliceCountFrom_eq hPattern hStop (by omega),
    Int.zero_add]
  rfl

theorem sliceSegmentEnd_eq
    (s : Str)
    (fuel : Nat)
    (stop ind diff : Int) :
    (sliceSegmentEnd s fuel stop ind diff : Checked ε Int) =
      scanSegmentEnd s fuel stop ind diff := by
  induction fuel generalizing stop ind diff with
  | zero => rfl
  | succ fuel ih =>
      rw [sliceSegmentEnd, scanSegmentEnd]
      by_cases hPos : 0 < stop
      · rw [if_pos hPos, if_pos hPos,
          sliceCount_eq (List.cons_ne_nil _ _), Lib.ok_bind,
          sliceCount_eq (List.cons_ne_nil _ _), Lib.ok_bind]
        simp only
        split
        · rfl
        · rw [sliceFind_eq, Lib.ok_bind, ih]
      · rw [if_neg hPos, if_neg hPos]

variable [Unicode]

theorem sliceParameter_eq
    (s : Str)
    (start stop : Int) :
    (sliceParameter s start stop : Checked ε Str) =
      .ok (parameter s start stop) := by
  unfold sliceParameter parameter
  rw [sliceFind_eq, Lib.ok_bind]
  simp only
  split
  · rw [sliceSegment_eq]
    rfl
  · rw [sliceSegment_eq, Lib.ok_bind, sliceSegment_eq]
    rfl

theorem sliceSegments_eq
    (s : Str)
    (fuel : Nat)
    (start : Int) :
    (sliceSegments s fuel start : Checked ε (List Str)) =
      scanSegments s fuel start := by
  induction fuel generalizing start with
  | zero => rfl
  | succ fuel ih =>
      rw [sliceSegments, scanSegments, sliceFind_eq,
        Lib.ok_bind]
      split
      · simp only
        rw [sliceFind_eq, Lib.ok_bind, sliceSegmentEnd_eq]
        apply bind_congr
        intro stop
        rw [sliceParameter_eq, Lib.ok_bind, ih]
      · rfl

/- No slice leaves the text and every loop ends. -/
theorem sliceParseparam_eq
    (text : Str) :
    (sliceParseparam text : Checked ε (List Str)) =
      .ok (parseparam text) := by
  unfold sliceParseparam
  rw [sliceSegments_eq]
  exact scanParseparam_eq text

end Form

end MailgunRelay

------------------------------------------------------------
-- The Splitter Is The One-Pass Splitter
------------------------------------------------------------

namespace MailgunRelay

namespace Form

open Lib (Checked Fault)

variable [Unicode] {ε : Type}

/-
  The splitter ends on every text without leaving it.  Its
  result is read from the segments of one pass over the
  text, and these restore the text.
-/
theorem parseparam_splits
    (text : Str) :
    (sliceParseparam text : Checked ε (List Str)) =
        .ok (parseparam text) ∧
      parseparam text = (rawSegments text).map readSegment ∧
      (rawSegments text).flatMap (';' :: ·) = ';' :: text :=
  ⟨sliceParseparam_eq text, parseparam_eq text,
    flatMap_rawSegmentsFrom [] text⟩

end Form

end MailgunRelay
