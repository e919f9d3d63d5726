import MailgunRelay.Form
import MailgunRelay.Form.Beginnings
import MailgunRelay.Lib.Checked

/-
  The parser with the checks the language makes: a slice or
  a subtraction out of range panics, and every loop is given
  a number of turns.  On every body the checked parser
  returns what the parser returns: it never panics, and no
  loop takes more turns than the body has bytes.

  Key definitions include:
    * `MailgunRelay.Form.scan`
    * `MailgunRelay.Form.scanUrlencoded`
    * `MailgunRelay.Form.scanMultipart`
    * `MailgunRelay.Form.scanParseparam`

  Key theorems include:
    * `MailgunRelay.Form.scanParseparam_eq`
    * `MailgunRelay.Form.scanHeader_eq`
    * `MailgunRelay.Form.scanData_eq`
    * `MailgunRelay.Form.scan_eq`
-/

------------------------------------------------------------
-- Parameters Of A Header
------------------------------------------------------------

namespace MailgunRelay

namespace Form

open Lib (Checked Fault)

variable {ε : Type}

/- `while end > 0`. -/
def scanSegmentEnd
    (s : Str) : Nat → Int → Int → Int → Checked ε Int
| 0, _, _, _ => .error .loops
| fuel + 1, stop, ind, diff =>
    if 0 < stop then
      let diff :=
        diff + (count s ['"'] ind stop -
          count s ['\\', '"'] ind stop)
      if diff % 2 = 0 then
        .ok stop
      else
        scanSegmentEnd s fuel ind
          (find s ';' (stop + 1) s.length) diff
    else
      .ok stop

variable [Unicode]

/- `while find(';', start, n) == start`. -/
def scanSegments
    (s : Str) : Nat → Int → Checked ε (List Str)
| 0, _ => .error .loops
| fuel + 1, start =>
    if find s ';' start s.length = start then do
      let start := start + 1
      let stop ←
        scanSegmentEnd s (2 * s.length + 2)
          (find s ';' start s.length) start 0
      let stop := if stop < 0 then (s.length : Int) else stop
      let rest ← scanSegments s fuel stop
      return parameter s start stop :: rest
    else
      .ok []

def scanParseparam (text : Str) : Checked ε (List Str) :=
  scanSegments (';' :: text) (text.length + 2) 0

/- The parameters of a value with a `;`. -/
def scanOptions
    (value : Option Str) :
    Checked ε (Str × List (Str × Str)) :=
  match value with
  | none => .ok ([], [])
  | some [] => .ok ([], [])
  | some value =>
      if !value.contains ';' then
        .ok (pyStrip (lowercase value), [])
      else do
        let parts ← scanParseparam value
        let params := parts.tail.filterMap fun part =>
          let (key, value) :=
            (Lib.Text.splitOnce '=' part).getD (part, [])
          if key.contains '*' then
            none
          else
            let value := unquoteValue value
            if key = "filename".toList ∧
                ((value.drop 1).take 2 = [':', '\\'] ∨
                  "\\\\".toList.isPrefixOf value) then
              some (key, lastComponent value)
            else
              some (key, value)
        return (parts.headD [], params)

end Form

end MailgunRelay

------------------------------------------------------------
-- Parameters Are Read To The End
------------------------------------------------------------

namespace MailgunRelay

namespace Form

open Lib (Checked Fault)

/- A slice index inside the text stands for itself. -/
theorem clamp_of_le
    {n : Nat}
    {i : Int}
    (hStart : 0 ≤ i)
    (hStop : i ≤ n) :
    clamp n i = i.toNat := by
  unfold clamp
  rw [if_neg (by omega), min_eq_left hStop]

/- What is found later, or nowhere, is a later index. -/
theorem clamp_le_of_found
    {n q : Nat}
    {p : Int}
    (hInside : q < n)
    (hFound : p = -1 ∨ (q ≤ p ∧ p < n)) :
    clamp n q ≤ clamp n p := by
  rw [clamp_of_le (by omega) (by omega)]
  rcases hFound with rfl | ⟨hAfter, hLess⟩
  · unfold clamp
    rw [if_pos (by decide)]
    omega
  · rw [clamp_of_le (by omega) (by omega)]
    omega

/- Where `str.find` stands, or `-1`. -/
theorem find_spec
    {s : Str}
    {c : Char}
    {start : Int}
    (hStart : 0 ≤ start)
    (hInside : start ≤ s.length) :
    (find s c start s.length = -1 ∧
        ∀ k, start.toNat ≤ k → s[k]? ≠ some c) ∨
      ∃ p : Nat,
        find s c start s.length = p ∧ start ≤ p ∧
          s[p]? = some c ∧
          ∀ k, start.toNat ≤ k → k < p → s[k]? ≠ some c := by
  have hFirst := clamp_of_le hStart hInside
  have hLast : clamp s.length s.length = s.length :=
    clamp_of_le (by omega) (by omega)
  unfold find
  simp only [hFirst, hLast, segment]
  rw [if_neg (by omega), List.take_length]
  cases hFound : (s.drop start.toNat).idxOf? c with
  | none =>
      left
      refine ⟨rfl, fun k hLe hHere => ?_⟩
      rcases Nat.exists_eq_add_of_le hLe with ⟨j, rfl⟩
      rw [← List.getElem?_drop] at hHere
      exact List.idxOf?_eq_none_iff.mp hFound
        (List.mem_of_getElem? hHere)
  | some p =>
      right
      rcases List.idxOf?_eq_some_iff.mp hFound with
        ⟨hLength, hHere, hNone⟩
      refine ⟨start.toNat + p, by simp, by omega, ?_, ?_⟩
      · rw [← List.getElem?_drop,
          List.getElem?_eq_getElem hLength, hHere]
      · intro k hLe hBefore hByte
        rcases Nat.exists_eq_add_of_le hLe with ⟨j, rfl⟩
        rw [← List.getElem?_drop] at hByte
        rcases List.getElem?_eq_some_iff.mp hByte with ⟨_, hEq⟩
        exact hNone j (by omega) hEq

/- Nothing is counted in a slice that ends before it starts. -/
theorem count_of_clamp_le
    {s pattern : Str}
    {start stop : Int}
    (hLe : clamp s.length stop ≤ clamp s.length start) :
    count s pattern start stop = 0 := by
  have hNone : segment s start stop = [] := by
    unfold segment
    apply List.drop_eq_nil_iff.mpr
    rw [List.length_take]
    omega
  unfold count
  rw [hNone]
  rfl

variable {ε : Type}

theorem segmentEnd_of_scan
    {s : Str}
    {fuel : Nat}
    {stop ind diff r : Int}
    (hScan :
      (scanSegmentEnd s fuel stop ind diff : Checked ε Int) =
        .ok r) :
    segmentEnd s fuel stop ind diff = r := by
  induction fuel generalizing stop ind diff with
  | zero => cases hScan
  | succ fuel ih =>
      unfold scanSegmentEnd at hScan
      unfold segmentEnd
      split at hScan
      · rename_i hPos
        rw [if_pos hPos]
        simp only at hScan ⊢
        split at hScan
        · rename_i hEven
          rw [if_pos hEven]
          exact Except.ok.inj hScan
        · rename_i hOdd
          rw [if_neg hOdd]
          exact ih hScan
      · rename_i hNot
        rw [if_neg hNot]
        exact Except.ok.inj hScan

/-
  The search for the end of a segment ends.  `q` is where
  the quotes were counted up to, and `p` the next `;` after
  it: two turns move both to the right, the second of them
  counts nothing.
-/
theorem scanSegmentEnd_ends
    {s : Str}
    {start : Int}
    (hStart : 1 ≤ start)
    (spare k : Nat)
    {p : Int}
    {q : Nat}
    {diff : Int}
    (hTurns : s.length ≤ q + k)
    (hInd : start ≤ q)
    (hStop :
      p = -1 ∨
        (q ≤ p ∧ p < s.length ∧ (p = q → diff % 2 = 0) ∧
          s[p.toNat]? = some ';')) :
    ∃ r,
      (scanSegmentEnd s (spare + (2 * k + 1)) p q diff :
          Checked ε Int) =
          .ok r ∧
        (r < 0 ∨ (start ≤ r ∧ r ≤ s.length)) := by
  induction k generalizing p q diff with
  | zero =>
      rcases hStop with rfl | ⟨hLe, hLess, -, -⟩
      · exact ⟨-1, rfl, .inl (by decide)⟩
      · omega
  | succ k ih =>
      rcases hStop with rfl | ⟨hLe, hLess, hSame, hHere⟩
      · exact ⟨-1, rfl, .inl (by decide)⟩
      have hFuel :
          spare + (2 * (k + 1) + 1) =
            spare + (2 * k + 1) + 1 + 1 := by
        omega
      rw [hFuel, scanSegmentEnd, if_pos (by omega)]
      simp only
      -- The quotes up to `p` are counted.
      generalize hDiff :
        diff + (count s ['"'] q p - count s ['\\', '"'] q p) =
          diff'
      by_cases hEven : diff' % 2 = 0
      · rw [if_pos hEven]
        exact ⟨p, rfl, .inr ⟨by omega, by omega⟩⟩
      rw [if_neg hEven]
      have hAfter : (q : Int) < p := by
        rcases Int.lt_or_eq_of_le hLe with hLt | hEq
        · exact hLt
        · -- Nothing stands between `q` and itself.
          rw [← hEq, count_of_clamp_le (Nat.le_refl _),
            count_of_clamp_le (Nat.le_refl _)] at hDiff
          have hBalanced := hSame hEq.symm
          omega
      -- Back at `q`, with the `;` after `p` for the next turn.
      have hNext :=
        @find_spec s ';' (p + 1) (by omega) (by omega)
      have hLater :
          find s ';' (p + 1) s.length = -1 ∨
            (p + 1 ≤ find s ';' (p + 1) s.length ∧
              find s ';' (p + 1) s.length < s.length ∧
              s[(find s ';' (p + 1) s.length).toNat]? =
                some ';') := by
        rcases hNext with ⟨hNone, -⟩ | ⟨m, hFind, hAt, hSemi, -⟩
        · exact .inl hNone
        · right
          have hInside := (List.getElem?_eq_some_iff.mp hSemi).1
          rw [hFind]
          exact ⟨hAt, by omega, hSemi⟩
      generalize find s ';' (p + 1) s.length = p' at hLater
      have hClamp : clamp s.length q ≤ clamp s.length p' := by
        apply clamp_le_of_found (by omega)
        rcases hLater with hNone | ⟨hAt, hLess', -⟩
        · exact .inl hNone
        · exact .inr ⟨by omega, hLess'⟩
      rw [scanSegmentEnd, if_pos (by omega)]
      simp only
      rw [count_of_clamp_le hClamp, count_of_clamp_le hClamp,
        Int.sub_zero, Int.add_zero, if_neg hEven]
      -- The `;` at `p` is after `q`.
      rcases @find_spec s ';' (q + 1) (by omega) (by omega) with
        ⟨-, hNone⟩ | ⟨q', hFind, hAt, hSemi, hFirst⟩
      · exact absurd hHere (hNone p.toNat (by omega))
      have hBefore : (q' : Int) ≤ p := by
        by_contra hNot
        exact hFirst p.toNat (by omega) (by omega) hHere
      rw [hFind]
      apply ih (by omega) (by omega)
      rcases hLater with hNone | ⟨hAt', hLess', hSemi'⟩
      · exact .inl hNone
      · exact .inr ⟨by omega, hLess', by omega, hSemi'⟩

variable [Unicode]

theorem segments_of_scan
    {s : Str}
    {fuel : Nat}
    {start : Int}
    {parts : List Str}
    (hScan :
      (scanSegments s fuel start : Checked ε (List Str)) =
        .ok parts) :
    segments s fuel start = parts := by
  induction fuel generalizing start parts with
  | zero => cases hScan
  | succ fuel ih =>
      unfold scanSegments at hScan
      unfold segments
      split at hScan
      · rename_i hHere
        rw [if_pos hHere]
        rcases Lib.bind_eq_ok_iff.mp hScan with
          ⟨stop, hStop, hScan⟩
        rcases Lib.bind_eq_ok_iff.mp hScan with
          ⟨rest, hRest, hScan⟩
        cases hScan
        simp only
        rw [segmentEnd_of_scan hStop, ih hRest]
      · rename_i hNot
        rw [if_neg hNot]
        exact Except.ok.inj hScan

/- Every segment starts later than the one before it. -/
theorem scanSegments_ends
    {s : Str}
    {fuel : Nat}
    {start : Int}
    (hStart : 0 ≤ start)
    (hInside : start ≤ s.length)
    (hFuel : s.length < start + fuel) :
    ∃ parts,
      (scanSegments s fuel start : Checked ε (List Str)) =
        .ok parts := by
  induction fuel generalizing start with
  | zero => omega
  | succ fuel ih =>
      unfold scanSegments
      by_cases hHere : find s ';' start s.length = start
      · rw [if_pos hHere]
        have hLess : start < s.length := by
          rcases find_spec (c := ';') hStart hInside with
            ⟨hNone, -⟩ | ⟨p, hFind, -, hSemi, -⟩
          · omega
          · have hBound :=
              (List.getElem?_eq_some_iff.mp hSemi).1
            omega
        rcases
          Int.eq_ofNat_of_zero_le (show 0 ≤ start + 1 by omega)
          with ⟨q, hQ⟩
        have hFirst :
            find s ';' (start + 1) s.length = -1 ∨
              ((q : Int) ≤ find s ';' (start + 1) s.length ∧
                find s ';' (start + 1) s.length < s.length ∧
                (find s ';' (start + 1) s.length = q →
                  (0 : Int) % 2 = 0) ∧
                s[(find s ';' (start + 1) s.length).toNat]? =
                  some ';') := by
          rcases @find_spec s ';' (start + 1)
              (by omega) (by omega) with
            ⟨hNone, -⟩ | ⟨p, hFind, hAt, hSemi, -⟩
          · exact .inl hNone
          · right
            have hBound :=
              (List.getElem?_eq_some_iff.mp hSemi).1
            rw [hFind]
            exact ⟨by omega, by omega, fun _ => rfl, hSemi⟩
        rcases
          @scanSegmentEnd_ends ε s (start + 1)
            (by omega) 1 s.length _ _ _
            (by omega) (by omega) hFirst with
          ⟨r, hEnd, hBounds⟩
        rw [← hQ, show 1 + (2 * s.length + 1) =
          2 * s.length + 2 by omega] at hEnd
        simp only
        rw [hEnd, Lib.ok_bind]
        rcases
          @ih (if r < 0 then (s.length : Int) else r)
            (by split <;> omega) (by split <;> omega)
            (by split <;> omega) with
          ⟨rest, hRest⟩
        rw [hRest, Lib.ok_bind]
        exact ⟨_, rfl⟩
      · rw [if_neg hHere]
        exact ⟨[], rfl⟩

/- The loops over a header value end. -/
theorem scanParseparam_eq
    (text : Str) :
    (scanParseparam text : Checked ε (List Str)) =
      .ok (parseparam text) := by
  rcases
    @scanSegments_ends ε _ (';' :: text) (text.length + 2) 0
      (by omega) (by omega)
      (by rw [List.length_cons]; omega) with
    ⟨parts, hParts⟩
  unfold scanParseparam parseparam
  rw [hParts, segments_of_scan hParts]

theorem scanOptions_eq
    (value : Option Str) :
    (scanOptions value : Checked ε _) =
      .ok (optionsHeader value) := by
  unfold scanOptions optionsHeader
  rcases value with _ | _ | ⟨c, rest⟩
  · rfl
  · rfl
  · simp only [scanParseparam_eq]
    split <;> rfl

end Form

end MailgunRelay

------------------------------------------------------------
-- Urlencoded Bodies
------------------------------------------------------------

namespace MailgunRelay

namespace Form

open Lib (Checked Fault)

variable {ε : Type}

/- The name and the value of a field, cut at an index. -/
def scanField (field : Bytes) : Checked ε (Bytes × Bytes) :=
  match field.idxOf? 61 with
  | some eq => do
      let name ← Checked.slice field 0 eq
      let value ← Checked.slice field (eq + 1) field.length
      return (name, value)
  | none => do
      let value ←
        Checked.slice field field.length field.length
      return (field, value)

/- The fields of a body, after `items`. -/
def scanFields
    (limits : Limits)
    (items : List Item) :
    List Bytes → Checked FormError (List Item)
| [] => .ok items
| field :: rest => do
    let (name, value) ← scanField field
    if (!name.isEmpty &&
          exceeds name.length limits.maxPartSize) ||
        (!value.isEmpty &&
          exceeds (name.length + value.length)
            limits.maxPartSize) then
      .error (.error .tooLarge)
    else if exceeds (items.length + 1) limits.maxFields then
      .error (.error .tooLarge)
    else
      scanFields limits
        (items ++
          [(unquotePlus (latin1 name),
            .text (unquotePlus (latin1 value)))])
        rest

def scanUrlencoded
    (body : Bytes)
    (limits : Limits) : Checked FormError (List Item) :=
  scanFields limits []
    ((body.splitOn 38).filter fun field => !field.isEmpty)

/- The cut is inside the field. -/
theorem scanField_eq
    (field : Bytes) :
    (scanField field : Checked ε (Bytes × Bytes)) =
      .ok (splitField field) := by
  unfold scanField splitField
  cases hEq : field.idxOf? 61 with
  | none =>
      have hNone : Lib.Text.splitOnce 61 field = none :=
        (Lib.Text.splitOnce_eq_none_iff 61 field).mpr
          (List.idxOf?_eq_none_iff.mp hEq)
      simp only
      rw [Checked.slice_of_le (Nat.le_refl _) (Nat.le_refl _),
        Nat.sub_self, List.take_zero, hNone]
      rfl
  | some eq =>
      rcases List.idxOf?_eq_some_iff.mp hEq with
        ⟨hInside, hHere, hBefore⟩
      have hSplit :
          Lib.Text.splitOnce 61 field =
            some (field.take eq, field.drop (eq + 1)) := by
        apply (Lib.Text.splitOnce_eq_some_iff _ _ _ _).mpr
        constructor
        · rw [← hHere, ← List.drop_eq_getElem_cons hInside,
            List.take_append_drop]
        · intro hMem
          rcases List.mem_take_iff_getElem.mp hMem with
            ⟨j, hLess, hByte⟩
          exact hBefore j (by omega) hByte
      simp only
      rw [Checked.slice_of_le (Nat.zero_le _)
          (Nat.le_of_lt hInside),
        Checked.slice_of_le hInside (Nat.le_refl _), hSplit,
        List.drop_zero, Nat.sub_zero,
        List.take_of_length_le (Nat.le_of_eq List.length_drop)]
      rfl

theorem scanUrlencoded_eq
    (body : Bytes)
    (limits : Limits) :
    scanUrlencoded body limits =
      Checked.lift (urlencoded body limits) := by
  unfold scanUrlencoded urlencoded
  generalize (body.splitOn 38).filter
    (fun field => !field.isEmpty) = fields
  generalize ([] : List Item) = items
  induction fields generalizing items with
  | nil => rfl
  | cons field rest ih =>
      unfold scanFields urlencodedFields
      rw [scanField_eq, Lib.ok_bind]
      simp only
      split
      · rfl
      split
      · rfl
      · exact ih _

end Form

end MailgunRelay

------------------------------------------------------------
-- Headers Of A Part
------------------------------------------------------------

namespace MailgunRelay

namespace Form

open Lib (Checked Fault)

/- A stop of the multipart parser, and no fault. -/
def stopped {α : Type} (stop : Stop) : Checked Stop α :=
  .error (.error stop)

/- `while body.get(i) == Some(&b' ')`. -/
def scanSpaces
    (body : Bytes) :
    Nat → Nat → Nat → Checked Stop (Nat × Nat)
| 0, _, _ => .error .loops
| fuel + 1, size, i =>
    if body[i]? = some 32 then
      if size + 1 > maxHeaderSize then
        stopped (.refused .badRequest)
      else
        scanSpaces body fuel (size + 1) (i + 1)
    else
      .ok (size, i)

def scanName
    (body : Bytes)
    (i : Nat) : Checked Stop (Bytes × Nat × Nat) := do
  let colon := findByte body 58 i
  let stop := colon.getD body.length
  let size ← Checked.sub stop i
  let size := size + colon.isSome.toNat
  let name ← Checked.slice body i stop
  if size > maxHeaderSize || !name.all isToken then
    stopped (.refused .badRequest)
  else
    match colon with
    | none => stopped .ended
    | some colon =>
        if name.isEmpty then
          stopped (.refused .badRequest)
        else
          .ok (name, size, colon + 1)

def scanValue
    (body : Bytes)
    (size i : Nat) : Checked Stop (Bytes × Nat) := do
  let cr := findByte body 13 i
  let more ← Checked.sub (cr.getD body.length) i
  if size + more > maxHeaderSize then
    stopped (.refused .badRequest)
  else
    match cr with
    | none => stopped .ended
    | some cr => do
        let value ← Checked.slice body i cr
        match body[cr + 1]? with
        | none => stopped .ended
        | some b =>
            if b = 10 then
              .ok (value, cr + 2)
            else
              stopped (.refused .badRequest)

def scanHeader
    (body : Bytes)
    (fuel i : Nat) : Checked Stop (Bytes × Bytes × Nat) := do
  let (name, size, i) ← scanName body i
  let (size, i) ← scanSpaces body fuel size i
  let (value, i) ← scanValue body size i
  return (name, value, i)

/- The loop over the headers; `seen` are counted. -/
def scanHeaders
    (body : Bytes) :
    Nat → Nat → PartHeaders → Nat →
      Checked Stop (PartHeaders × Nat)
| 0, _, _, _ => .error .loops
| fuel + 1, seen, headers, i => do
    match ← Checked.lift (headersEnd body i) with
    | some start => return (headers, start)
    | none =>
        let seen := seen + 1
        if seen > maxHeaderCount then
          stopped (.refused .badRequest)
        else do
          let (name, value, i) ←
            scanHeader body (body.length + 1) i
          scanHeaders body fuel seen
            (headers.record name value) i

/- The loop over the spaces ends inside the body. -/
theorem scanSpaces_eq
    {body : Bytes}
    {fuel size i : Nat}
    (hFuel : body.length - i < fuel) :
    scanSpaces body fuel size i =
      Checked.lift (skipSpaces size i (body.drop i)) := by
  induction fuel generalizing size i with
  | zero => omega
  | succ fuel ih =>
      unfold scanSpaces
      by_cases hInside : i < body.length
      · rw [List.drop_eq_getElem_cons hInside, skipSpaces,
          List.getElem?_eq_getElem hInside]
        simp only [Option.some.injEq]
        split
        · split
          · rfl
          · exact ih (by omega)
        · rfl
      · rw [List.drop_of_length_le (by omega), skipSpaces,
          List.getElem?_eq_none (by omega), if_neg (by simp)]
        rfl

theorem findByte_inside
    {body : Bytes}
    {i : Nat}
    (byte : UInt8)
    (hInside : i ≤ body.length) :
    i ≤ (findByte body byte i).getD body.length ∧
      (findByte body byte i).getD body.length ≤
        body.length := by
  cases hFound : findByte body byte i with
  | none => exact ⟨hInside, Nat.le_refl _⟩
  | some found =>
      rcases findByte_eq_some_iff.mp hFound with ⟨hLe, hHere, -⟩
      have hLess := (List.getElem?_eq_some_iff.mp hHere).1
      exact ⟨hLe, Nat.le_of_lt hLess⟩

theorem scanName_eq
    {body : Bytes}
    {i : Nat}
    (hInside : i ≤ body.length) :
    scanName body i = Checked.lift (headerName body i) := by
  rcases findByte_inside 58 hInside with ⟨hStart, hStop⟩
  unfold scanName headerName
  simp only
  rw [Checked.sub_of_le hStart, Lib.ok_bind,
    Checked.slice_of_le hStart hStop, Lib.ok_bind]
  unfold slice
  split
  · rfl
  · cases findByte body 58 i with
    | none => rfl
    | some colon =>
        simp only
        split <;> rfl

theorem scanValue_eq
    {body : Bytes}
    {size i : Nat}
    (hInside : i ≤ body.length) :
    scanValue body size i =
      Checked.lift (headerValue body size i) := by
  rcases findByte_inside 13 hInside with ⟨hStart, hStop⟩
  unfold scanValue headerValue
  simp only
  rw [Checked.sub_of_le hStart, Lib.ok_bind]
  split
  · rfl
  · cases hCr : findByte body 13 i with
    | none => rfl
    | some cr =>
        rw [hCr] at hStart hStop
        simp only [Option.getD_some] at hStart hStop ⊢
        rw [Checked.slice_of_le hStart hStop, Lib.ok_bind]
        cases body[cr + 1]? with
        | none => rfl
        | some b =>
            simp only
            split <;> rfl

/- What is skipped are spaces, and all of it is counted. -/
theorem skipSpaces_spec
    {size i size' i' : Nat}
    {rest : Bytes}
    (hSkip : skipSpaces size i rest = .ok (size', i')) :
    ∃ n, size' = size + n ∧ i' = i + n ∧ n ≤ rest.length ∧
      (∀ b ∈ rest.take n, b = 32) ∧
      (size ≤ maxHeaderSize → size' ≤ maxHeaderSize) := by
  induction rest generalizing size i with
  | nil =>
      cases hSkip
      exact ⟨0, rfl, rfl, Nat.le_refl _, by simp, id⟩
  | cons b rest ih =>
      unfold skipSpaces at hSkip
      split at hSkip
      · rename_i hSpace
        split at hSkip
        · cases hSkip
        rename_i hShort
        rcases ih hSkip with
          ⟨n, hSize, hNext, hLength, hSpaces, hFits⟩
        refine ⟨n + 1, by omega, by omega, ?_, ?_, ?_⟩
        · rw [List.length_cons]
          omega
        · intro c hMem
          rw [List.take_succ_cons, List.mem_cons] at hMem
          rcases hMem with rfl | hMem
          · exact hSpace
          · exact hSpaces c hMem
        · exact fun _ => hFits (by omega)
      · cases hSkip
        exact ⟨0, rfl, rfl, Nat.zero_le _, by simp, id⟩

theorem scanHeader_eq
    {body : Bytes}
    {fuel i : Nat}
    (hInside : i ≤ body.length)
    (hFuel : body.length < fuel) :
    scanHeader body fuel i =
      Checked.lift (headerLine body i) := by
  unfold scanHeader headerLine
  refine Checked.lift_bind (scanName_eq hInside) ?_
  rintro ⟨name, size, j⟩ hName
  have hJ := (headerName_inside hName).2
  refine Checked.lift_bind (scanSpaces_eq (by omega)) ?_
  rintro ⟨size', k⟩ hSkip
  rcases skipSpaces_spec hSkip with ⟨n, -, hNext, hLength, -, -⟩
  have hK : k ≤ body.length := by
    rw [List.length_drop] at hLength
    omega
  refine Checked.lift_bind (scanValue_eq hK) ?_
  rintro ⟨value, l⟩ -
  rfl

/- Every turn reads a header, and eight are allowed. -/
theorem scanHeaders_eq
    {body : Bytes}
    {fuel seen i : Nat}
    {headers : PartHeaders}
    (hSeen : seen ≤ maxHeaderCount)
    (hFuel : maxHeaderCount - seen < fuel) :
    scanHeaders body fuel seen headers i =
      Checked.lift
        (partHeaders body (maxHeaderCount - seen) headers i) := by
  induction fuel generalizing seen headers i with
  | zero => omega
  | succ fuel ih =>
      unfold scanHeaders
      by_cases hFull : seen = maxHeaderCount
      · rw [hFull, Nat.sub_self, partHeaders]
        refine Checked.lift_bind rfl ?_
        rintro (_ | start) -
        · rfl
        · rfl
      · rcases
          Nat.exists_eq_add_of_lt
            (Nat.lt_of_le_of_ne hSeen hFull) with
          ⟨left, hLeft⟩
        have hMore : maxHeaderCount - seen = left + 1 := by
          omega
        rw [hMore, partHeaders]
        refine Checked.lift_bind rfl ?_
        rintro (_ | start) hEnd
        · have hInside := headersEnd_inside hEnd
          simp only
          rw [if_neg (by omega)]
          refine
            Checked.lift_bind
              (scanHeader_eq (by omega) (by omega)) ?_
          rintro ⟨name, value, next⟩ -
          have hRest :=
            @ih (seen + 1) next (headers.record name value)
              (by omega) (by omega)
          rw [show maxHeaderCount - (seen + 1) = left by omega]
            at hRest
          exact hRest
        · rfl

end Form

end MailgunRelay

------------------------------------------------------------
-- Parts
------------------------------------------------------------

namespace MailgunRelay

namespace Form

open Lib (Checked Fault)

/- `windows` panics for a size of zero. -/
def scanSeq
    (body needle : Bytes)
    (start : Nat) : Checked Stop (Option Nat) :=
  if needle.isEmpty then
    .error .panics
  else
    .ok (findSeq body needle start)

/- The loop that looks for the end of the data. -/
def scanData
    (body boundary : Bytes) :
    Nat → Nat → Checked Stop (Nat × Bool)
| 0, _ => .error .loops
| fuel + 1, search => do
    match ← scanSeq body (delimiter boundary) search with
    | none => stopped .ended
    | some found =>
        let after := found + (delimiter boundary).length
        match body[after]?, body[after + 1]? with
        | none, _ => stopped .ended
        | some a, none =>
            if a = 13 ∨ a = 45 then
              stopped .ended
            else
              scanData body boundary fuel after
        | some a, some b =>
            if a = 13 ∧ b = 10 then
              .ok (found, false)
            else if a = 45 ∧ b = 45 then
              .ok (found, true)
            else if a = 13 ∨ a = 45 then
              scanData body boundary fuel (after + 1)
            else
              scanData body boundary fuel after

/- One turn, where a delimiter stands. -/
theorem scanData_found
    {body boundary : Bytes}
    {fuel search found : Nat}
    (hFuel : body.length - search < fuel)
    (hFound :
      findSeq body (delimiter boundary) search = some found) :
    scanData body boundary fuel search =
      match body[found + (delimiter boundary).length]?,
        body[found + (delimiter boundary).length + 1]? with
      | none, _ => stopped .ended
      | some a, none =>
          if a = 13 ∨ a = 45 then
            stopped .ended
          else
            scanData body boundary (fuel - 1)
              (found + (delimiter boundary).length)
      | some a, some b =>
          if a = 13 ∧ b = 10 then
            .ok (found, false)
          else if a = 45 ∧ b = 45 then
            .ok (found, true)
          else if a = 13 ∨ a = 45 then
            scanData body boundary (fuel - 1)
              (found + (delimiter boundary).length + 1)
          else
            scanData body boundary (fuel - 1)
              (found + (delimiter boundary).length) := by
  rcases
    Nat.exists_eq_succ_of_ne_zero (Nat.ne_zero_of_lt hFuel) with
    ⟨fuel, rfl⟩
  rw [scanData, scanSeq, if_neg (by simp [delimiter]), hFound]
  rfl

/- Every turn looks further to the right. -/
theorem scanData_eq
    {body boundary : Bytes}
    {fuel search : Nat}
    (hFuel : body.length - search < fuel) :
    scanData body boundary fuel search =
      Checked.lift (partEnd body boundary search) := by
  fun_induction partEnd body boundary search
    generalizing fuel with
  | case1 search hFound =>
      rcases
        Nat.exists_eq_succ_of_ne_zero (Nat.ne_zero_of_lt hFuel)
        with ⟨fuel, rfl⟩
      rw [scanData, scanSeq, if_neg (by simp [delimiter]),
        hFound]
      rfl
  | case2 search found hFound after =>
      rename_i hNone
      rw [scanData_found hFuel hFound, hNone]
      rfl
  | case3 search found hFound after a hNone hByte =>
      rename_i hData
      rw [scanData_found hFuel hFound, hByte, hNone]
      exact if_pos hData
  | case4 search found hFound after a hNone hByte hData =>
      rename_i ih
      have hBounds := findSeq_delimiter_bounds hFound
      rw [scanData_found hFuel hFound, hByte, hNone]
      exact (if_neg hData).trans (ih (by omega))
  | case5 search found hFound after a b hSecond hFirst =>
      rename_i hLine
      rw [scanData_found hFuel hFound, hFirst, hSecond]
      exact if_pos hLine
  | case6 search found hFound after a b hSecond hFirst hLine =>
      rename_i hLast
      rw [scanData_found hFuel hFound, hFirst, hSecond]
      exact (if_neg hLine).trans (if_pos hLast)
  | case7 search found hFound after a b hSecond hFirst hLine
      hLast hSkip =>
      rename_i ih
      have hBounds := findSeq_delimiter_bounds hFound
      rw [scanData_found hFuel hFound, hFirst, hSecond]
      exact
        (if_neg hLine).trans
          ((if_neg hLast).trans
            ((if_pos hSkip).trans (ih (by omega))))
  | case8 search found hFound after a b hSecond hFirst hLine
      hLast hSkip =>
      rename_i ih
      have hBounds := findSeq_delimiter_bounds hFound
      rw [scanData_found hFuel hFound, hFirst, hSecond]
      exact
        (if_neg hLine).trans
          ((if_neg hLast).trans
            ((if_neg hSkip).trans (ih (by omega))))

variable [Unicode]

def scanPart
    (body boundary : Bytes)
    (charset : Charset)
    (limits : Limits)
    (counts : Counts)
    (i : Nat) : Checked Stop Part := do
  let (headers, start) ←
    scanHeaders body (maxHeaderCount + 1) 0
      { disposition := none, contentType := none } i
  let (_, params) ←
    scanOptions (headers.disposition.map latin1)
  match param params "name".toList with
  | none => stopped (.refused .badRequest)
  | some name =>
      let filename :=
        (param params "filename".toList).map fun f =>
          decode (latin1Bytes f) charset
      let counts ←
        Checked.lift (counts.add limits filename.isSome)
      let (stop, last) ←
        scanData body boundary (body.length + 1) start
      let data ← Checked.slice body start stop
      let value ←
        Checked.lift
          (partValue limits charset headers filename data)
      return {
        item := (decode (latin1Bytes name) charset, value)
        counts := counts
        last := last
        next := stop + (delimiter boundary).length + 2 }

theorem scanPart_eq
    (body boundary : Bytes)
    (charset : Charset)
    (limits : Limits)
    (counts : Counts)
    (i : Nat) :
    scanPart body boundary charset limits counts i =
      Checked.lift
        (part body boundary charset limits counts i) := by
  unfold scanPart part
  refine
    Checked.lift_bind
      (scanHeaders_eq (Nat.zero_le _) (Nat.lt_succ_self _)) ?_
  rintro ⟨headers, start⟩ hHeaders
  simp only
  rw [scanOptions_eq, Lib.ok_bind]
  cases param
      (optionsHeader (headers.disposition.map latin1)).2
      "name".toList with
  | none => rfl
  | some name =>
      refine Checked.lift_bind rfl ?_
      rintro counts' -
      refine Checked.lift_bind (scanData_eq (by omega)) ?_
      rintro ⟨stop, last⟩ hEnd
      -- The data is inside the body.
      have hBounds := partEnd_bounds hEnd
      simp only
      rw [Checked.slice_of_le hBounds.1 (by omega), Lib.ok_bind]
      refine Checked.lift_bind rfl ?_
      rintro value -
      rfl

/- The loop over the parts. -/
def scanParts
    (body boundary : Bytes)
    (charset : Charset)
    (limits : Limits) :
    Nat → List Item → Counts → Nat →
      Checked FormError (List Item)
| 0, _, _, _ => .error .loops
| fuel + 1, items, counts, i =>
    match scanPart body boundary charset limits counts i with
    | .error .panics => .error .panics
    | .error .loops => .error .loops
    | .error (.error .ended) => .ok items
    | .error (.error (.refused error)) => .error (.error error)
    | .ok p =>
        if p.last then
          .ok (items ++ [p.item])
        else
          scanParts body boundary charset limits fuel
            (items ++ [p.item]) p.counts p.next

theorem scanParts_eq
    {body boundary : Bytes}
    {charset : Charset}
    {limits : Limits}
    {fuel : Nat}
    {items : List Item}
    {counts : Counts}
    {i : Nat}
    (hFuel : body.length - i < fuel) :
    scanParts body boundary charset limits fuel items
        counts i =
      Checked.lift
        (parts body boundary charset limits items
          counts i) := by
  induction fuel generalizing items counts i with
  | zero => omega
  | succ fuel ih =>
      unfold scanParts parts
      rw [scanPart_eq]
      cases hPart :
          part body boundary charset limits counts i with
      | error stop => cases stop <;> rfl
      | ok p =>
          have hBounds := part_bounds hPart
          simp only [Checked.lift_ok]
          split
          · rfl
          · exact ih (by omega)

end Form

end MailgunRelay

------------------------------------------------------------
-- Bodies
------------------------------------------------------------

namespace MailgunRelay

namespace Form

open Lib (Checked Fault)

/- The first boundary, and what stands after it. -/
def scanBoundary
    (body boundary : Bytes)
    (i : Nat) : Checked Stop Nat := do
  let expected ←
    Checked.slice (delimiter boundary) 2
      (delimiter boundary).length
  let i ← Checked.lift (expect body expected i)
  match body[i]?, body[i + 1]? with
  | none, _ => stopped .ended
  | some 45, none => stopped .ended
  | some 13, none => stopped .ended
  | some 45, some 45 => stopped .ended
  | some 13, some 10 => return i + 2
  | _, _ => stopped (.refused .badRequest)

def scanStart
    (body boundary : Bytes) : Checked Stop Nat :=
  let i :=
    (body.takeWhile fun b => b == 13 || b == 10).length
  if 0 < i && i < body.length then do
    let b ← Checked.index body i
    if b != 45 then
      stopped (.refused .badRequest)
    else
      scanBoundary body boundary i
  else
    scanBoundary body boundary i

theorem scanStart_eq
    (body boundary : Bytes) :
    scanStart body boundary =
      Checked.lift (multipartStart body boundary) := by
  have hBoundary (i : Nat) :
      scanBoundary body boundary i =
        Checked.lift (do
          let i ← expect body ((delimiter boundary).drop 2) i
          match body[i]?, body[i + 1]? with
          | none, _ => throw .ended
          | some 45, none => throw .ended
          | some 13, none => throw .ended
          | some 45, some 45 => throw .ended
          | some 13, some 10 => return i + 2
          | _, _ => throw (.refused .badRequest)) := by
    unfold scanBoundary
    rw [Checked.slice_of_le (by simp [delimiter])
        (Nat.le_refl _), Lib.ok_bind,
      List.take_of_length_le (Nat.le_of_eq List.length_drop)]
    refine Checked.lift_bind rfl ?_
    rintro j -
    split <;> rfl
  unfold scanStart multipartStart
  simp only
  generalize (body.takeWhile fun b => b == 13 || b == 10).length
    = i
  by_cases hLeading : (0 < i && i < body.length) = true
  · have hInside : i < body.length := by
      rw [Bool.and_eq_true, decide_eq_true_eq,
        decide_eq_true_eq] at hLeading
      exact hLeading.2
    rw [if_pos hLeading, Checked.index_of_lt hInside,
      Lib.ok_bind, hLeading, Bool.true_and,
      List.getElem?_eq_getElem hInside]
    by_cases hDash : body[i] = 45
    · rw [if_neg (by simp [hDash]), if_neg (by simp [hDash])]
      exact hBoundary i
    · rw [if_pos (by simpa using hDash),
        if_pos (by simpa using hDash)]
      rfl
  · rw [if_neg hLeading, if_neg (by simp_all)]
    exact hBoundary i

variable [Unicode]

def scanMultipart
    (body boundary : Bytes)
    (charset : Charset)
    (limits : Limits) : Checked FormError (List Item) :=
  match scanStart body boundary with
  | .error .panics => .error .panics
  | .error .loops => .error .loops
  | .error (.error .ended) => .ok []
  | .error (.error (.refused error)) => .error (.error error)
  | .ok i =>
      scanParts body boundary charset limits
        (body.length + 1) [] { files := 0, fields := 0 } i

/- `parse`, with its checks. -/
def scan
    (encoding : Encoding)
    (body : Bytes)
    (limits : Limits) : Checked FormError (List Item) :=
  match encoding with
  | .urlencoded => scanUrlencoded body limits
  | .multipart boundary charset =>
      scanMultipart body boundary charset limits
  | .none => .ok []

/- The parser never panics and always returns. -/
theorem scan_eq
    (encoding : Encoding)
    (body : Bytes)
    (limits : Limits) :
    scan encoding body limits =
      Checked.lift (parse encoding body limits) := by
  cases encoding with
  | none => rfl
  | urlencoded => exact scanUrlencoded_eq body limits
  | multipart boundary charset =>
      unfold scan parse scanMultipart multipart
      simp only
      rw [scanStart_eq]
      cases multipartStart body boundary with
      | error stop => cases stop <;> rfl
      | ok i => exact scanParts_eq (by omega)

end Form

end MailgunRelay
