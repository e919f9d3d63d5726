import MailgunRelay.Form

/-
  Bodies that end early: what the multipart parser decides
  on a beginning of a body it decides on the whole, and
  where a beginning is too short to decide it just stops.

  Key definitions include:
    * `MailgunRelay.Form.Settled`
    * `MailgunRelay.Form.Closes`
    * `MailgunRelay.Form.Closed`

  Key theorems include:
    * `MailgunRelay.Form.part_settled`
    * `MailgunRelay.Form.parts_beginning`
    * `MailgunRelay.Form.multipart_beginning`
-/

------------------------------------------------------------
-- Searching
------------------------------------------------------------

namespace MailgunRelay

namespace Form

/- Decided on the beginning, or stopped at its end. -/
abbrev Settled {α : Type} (x y : Except Stop α) : Prop :=
  Lib.Settles (· = Stop.ended) x y

/- A byte of a beginning is a byte of the whole. -/
theorem getElem?_more
    {body : Bytes}
    {i : Nat}
    {b : UInt8}
    (hHere : body[i]? = some b)
    (more : Bytes) :
    (body ++ more)[i]? = some b := by
  rw [List.getElem?_append_left
    (List.getElem?_eq_some_iff.mp hHere).1]
  exact hHere

/- A slice of a beginning is one of the whole. -/
theorem slice_more
    {body : Bytes}
    {i stop : Nat}
    (hStop : stop ≤ body.length)
    (more : Bytes) :
    slice (body ++ more) i stop = slice body i stop := by
  unfold slice
  rcases Nat.le_total i body.length with hLe | hLe
  · rw [List.drop_append_of_le_length hLe,
      List.take_append_of_le_length]
    rw [List.length_drop]
    omega
  · have hNone : stop - i = 0 := by omega
    rw [hNone, List.take_zero, List.take_zero]

/- A slice to the end is the start of a longer one. -/
theorem slice_end
    {body : Bytes}
    {i stop : Nat}
    (hInside : i ≤ body.length)
    (hStop : body.length ≤ stop)
    (more : Bytes) :
    slice body i body.length <+: slice (body ++ more) i stop := by
  have hLeft : slice body i body.length = body.drop i :=
    List.take_of_length_le (by rw [List.length_drop])
  have hRight :
      slice (body ++ more) i stop =
        body.drop i ++
          more.take (stop - i - (body.drop i).length) := by
    unfold slice
    rw [List.drop_append_of_le_length hInside,
      List.take_append, List.take_of_length_le]
    rw [List.length_drop]
    omega
  rw [hLeft, hRight]
  exact List.prefix_append _ _

/- Where the first such byte stands. -/
theorem findByte_eq_some_iff
    {body : Bytes}
    {byte : UInt8}
    {start found : Nat} :
    findByte body byte start = some found ↔
      start ≤ found ∧ body[found]? = some byte ∧
        ∀ j, start ≤ j → j < found →
          body[j]? ≠ some byte := by
  unfold findByte
  rw [Option.map_eq_some_iff]
  constructor
  · rintro ⟨k, hFound, rfl⟩
    rcases List.idxOf?_eq_some_iff.mp hFound with
      ⟨hLength, hHere, hNone⟩
    refine ⟨Nat.le_add_right _ _, ?_, ?_⟩
    · rw [← List.getElem?_drop,
        List.getElem?_eq_getElem hLength, hHere]
    · intro j hStart hBefore hByte
      rcases Nat.exists_eq_add_of_le hStart with ⟨m, rfl⟩
      rw [← List.getElem?_drop] at hByte
      rcases List.getElem?_eq_some_iff.mp hByte with ⟨_, hEq⟩
      exact hNone m (by omega) hEq
  · rintro ⟨hLe, hHere, hNone⟩
    rcases Nat.exists_eq_add_of_le hLe with ⟨k, rfl⟩
    rw [← List.getElem?_drop] at hHere
    rcases List.getElem?_eq_some_iff.mp hHere with
      ⟨hLength, hEq⟩
    refine
      ⟨k, List.idxOf?_eq_some_iff.mpr ⟨hLength, hEq, ?_⟩, rfl⟩
    intro j hBefore hByte
    apply hNone (start + j) (Nat.le_add_right _ _) (by omega)
    rw [← List.getElem?_drop,
      List.getElem?_eq_getElem (by omega), hByte]

theorem findByte_more
    {body : Bytes}
    {byte : UInt8}
    {start found : Nat}
    (hFound : findByte body byte start = some found)
    (more : Bytes) :
    findByte (body ++ more) byte start = some found := by
  rcases findByte_eq_some_iff.mp hFound with ⟨hLe, hHere, hNone⟩
  refine
    findByte_eq_some_iff.mpr
      ⟨hLe, getElem?_more hHere more, fun j hStart hBefore => ?_⟩
  have hInside := (List.getElem?_eq_some_iff.mp hHere).1
  rw [List.getElem?_append_left (by omega)]
  exact hNone j hStart hBefore

/- A byte that a beginning does not have comes later. -/
theorem length_le_findByte
    {body : Bytes}
    {byte : UInt8}
    {start : Nat}
    (hNone : findByte body byte start = none)
    (more : Bytes) :
    body.length ≤
      (findByte (body ++ more) byte start).getD
        (body ++ more).length := by
  cases hFound : findByte (body ++ more) byte start with
  | none => simp
  | some found =>
      rcases findByte_eq_some_iff.mp hFound with ⟨hLe, hHere, -⟩
      rw [Option.getD_some]
      by_contra hInside
      rcases Nat.exists_eq_add_of_le hLe with ⟨k, rfl⟩
      rw [List.getElem?_append_left (by omega),
        ← List.getElem?_drop] at hHere
      rw [findByte, Option.map_eq_none_iff,
        List.idxOf?_eq_none_iff] at hNone
      exact hNone (List.mem_of_getElem? hHere)

/- A delimiter of a beginning is the first of the whole. -/
theorem findSeq_more
    {body needle : Bytes}
    {start found : Nat}
    (hNeedle : needle ≠ [])
    (hFound : findSeq body needle start = some found)
    (more : Bytes) :
    findSeq (body ++ more) needle start = some found := by
  unfold findSeq at hFound ⊢
  rcases Option.map_eq_some_iff.mp hFound with ⟨k, hSearch, rfl⟩
  have hBounds := Lib.Text.search_bounds hNeedle hSearch
  have hPos := List.length_pos_of_ne_nil hNeedle
  rw [List.length_drop] at hBounds
  rw [List.drop_append_of_le_length (by omega),
    Lib.Text.search_append hNeedle hSearch]
  rfl

end Form

end MailgunRelay

------------------------------------------------------------
-- Headers
------------------------------------------------------------

namespace MailgunRelay

namespace Form

/- A line that does not start with CR is a header. -/
theorem headersEnd_header
    {body : Bytes}
    {i : Nat}
    {a : UInt8}
    (hHere : body[i]? = some a)
    (hOther : a ≠ 13) :
    headersEnd body i = .ok none := by
  unfold headersEnd
  rw [hHere]
  split
  · rename_i hNone
    cases hNone
  · rename_i hCr _
    cases hCr
    exact absurd rfl hOther
  · rename_i hCr _
    cases hCr
    exact absurd rfl hOther
  · rename_i hCr _
    cases hCr
    exact absurd rfl hOther
  · rfl

theorem headersEnd_settled
    (body more : Bytes)
    (i : Nat) :
    Settled (headersEnd body i)
      (headersEnd (body ++ more) i) := by
  cases hFirst : body[i]? with
  | none =>
      have hEnded : headersEnd body i = .error .ended := by
        unfold headersEnd
        rw [hFirst]
      rw [hEnded]
      exact .inl rfl
  | some a =>
      by_cases hCr : a = 13
      · subst hCr
        cases hSecond : body[i + 1]? with
        | none =>
            have hEnded : headersEnd body i = .error .ended := by
              unfold headersEnd
              rw [hFirst, hSecond]
              rfl
            rw [hEnded]
            exact .inl rfl
        | some b =>
            have hSame :
                headersEnd (body ++ more) i =
                  headersEnd body i := by
              unfold headersEnd
              rw [hFirst, hSecond, getElem?_more hFirst more,
                getElem?_more hSecond more]
            rw [hSame]
            exact .refl _
      · rw [headersEnd_header hFirst hCr,
          headersEnd_header (getElem?_more hFirst more) hCr]
        exact .refl _

/- Another header starts inside the body. -/
theorem headersEnd_inside
    {body : Bytes}
    {i : Nat}
    (hEnd : headersEnd body i = .ok none) :
    i < body.length := by
  cases hFirst : body[i]? with
  | none =>
      unfold headersEnd at hEnd
      rw [hFirst] at hEnd
      cases hEnd
  | some a => exact (List.getElem?_eq_some_iff.mp hFirst).1

theorem headerName_settled
    {body : Bytes}
    {i : Nat}
    (hInside : i ≤ body.length)
    (more : Bytes) :
    Settled (headerName body i)
      (headerName (body ++ more) i) := by
  cases hColon : findByte body 58 i with
  | some colon =>
      have hHere := (findByte_eq_some_iff.mp hColon).2.1
      have hLess := (List.getElem?_eq_some_iff.mp hHere).1
      have hSame :
          headerName (body ++ more) i = headerName body i := by
        unfold headerName
        rw [hColon, findByte_more hColon more]
        simp only [Option.getD_some,
          slice_more (Nat.le_of_lt hLess)]
      rw [hSame]
      exact .refl _
  | none =>
      have hStop := length_le_findByte hColon more
      have hSlice := slice_end hInside hStop more
      unfold headerName
      rw [hColon]
      simp only [Option.getD_none, Option.isSome_none,
        Bool.toNat_false, Nat.add_zero]
      split
      · rename_i hBad
        -- A longer name is no shorter, and has all its bytes.
        have hWorse :
            (decide
              ((findByte (body ++ more) 58 i).getD
                    (body ++ more).length - i +
                  (findByte (body ++ more) 58 i).isSome.toNat >
                maxHeaderSize) ||
              !(slice (body ++ more) i
                ((findByte (body ++ more) 58 i).getD
                  (body ++ more).length)).all isToken) =
                true := by
          rw [Bool.or_eq_true] at hBad ⊢
          rcases hBad with hLong | hToken
          · left
            rw [decide_eq_true_eq] at hLong ⊢
            omega
          · right
            rw [Bool.not_eq_true', List.all_eq_false] at hToken ⊢
            rcases hToken with ⟨b, hMem, hNot⟩
            exact ⟨b, hSlice.subset hMem, hNot⟩
        rw [if_pos hWorse]
        exact .refused nofun
      · exact .inl rfl

theorem headerValue_settled
    {body : Bytes}
    {size i : Nat}
    (more : Bytes) :
    Settled (headerValue body size i)
      (headerValue (body ++ more) size i) := by
  cases hCr : findByte body 13 i with
  | some cr =>
      have hHere := (findByte_eq_some_iff.mp hCr).2.1
      have hLess := (List.getElem?_eq_some_iff.mp hHere).1
      unfold headerValue
      rw [hCr, findByte_more hCr more]
      simp only [Option.getD_some]
      split
      · exact .refl _
      cases hNext : body[cr + 1]? with
      | none => exact .inl rfl
      | some b =>
          rw [getElem?_more hNext more,
            slice_more (Nat.le_of_lt hLess)]
          exact .refl _
  | none =>
      have hStop := length_le_findByte hCr more
      unfold headerValue
      rw [hCr]
      simp only [Option.getD_none]
      split
      · rename_i hLong
        rw [if_pos (by omega)]
        exact .refused nofun
      · exact .inl rfl

/- The size that was read and the next index. -/
theorem headerName_inside
    {body name : Bytes}
    {i size next : Nat}
    (hName : headerName body i = .ok (name, size, next)) :
    size ≤ maxHeaderSize ∧ next ≤ body.length := by
  unfold headerName at hName
  simp only at hName
  split at hName
  · simp at hName
  rename_i hFits
  split at hName
  · simp at hName
  rename_i colon hColon
  split at hName
  · simp at hName
  simp only [Except.ok.injEq, Prod.mk.injEq] at hName
  rcases hName with ⟨-, rfl, rfl⟩
  have hHere := (findByte_eq_some_iff.mp hColon).2.1
  have hLess := (List.getElem?_eq_some_iff.mp hHere).1
  rw [Bool.or_eq_true, decide_eq_true_eq, not_or] at hFits
  exact ⟨Nat.le_of_not_lt hFits.1, hLess⟩

/-
  What follows the spaces is settled, when it is settled
  where bytes are left and stops where none are.
-/
theorem skipSpaces_settled
    {α : Type}
    {body rest : Bytes}
    {f g : Nat × Nat → Except Stop α}
    {size i : Nat}
    (hRest : body.drop i = rest)
    (hInside : i ≤ body.length)
    (hSize : size ≤ maxHeaderSize)
    (hEnd :
      ∀ size, size ≤ maxHeaderSize →
        f (size, body.length) = .error .ended)
    (hSame : ∀ a, Settled (f a) (g a))
    (more : Bytes) :
    Settled (skipSpaces size i rest >>= f)
      (skipSpaces size i (rest ++ more) >>= g) := by
  induction rest generalizing size i with
  | nil =>
      have hLast : i = body.length := by
        have hLe := List.drop_eq_nil_iff.mp hRest
        omega
      rw [skipSpaces, Lib.ok_bind, hLast, hEnd size hSize]
      exact .inl rfl
  | cons b rest ih =>
      have hLess : i < body.length := by
        by_contra hNot
        rw [List.drop_of_length_le (by omega)] at hRest
        cases hRest
      have hNext : body.drop (i + 1) = rest := by
        rw [← List.drop_drop, hRest, List.drop_one,
          List.tail_cons]
      rw [List.cons_append, skipSpaces, skipSpaces]
      by_cases hSpace : b = 32
      · rw [if_pos hSpace, if_pos hSpace]
        by_cases hLong : size + 1 > maxHeaderSize
        · rw [if_pos hLong, if_pos hLong]
          apply Lib.Settles.refused
          intro hEq
          cases hEq
        · rw [if_neg hLong, if_neg hLong]
          exact ih hNext hLess (by omega)
      · rw [if_neg hSpace, if_neg hSpace]
        exact hSame (size, i)

/- A header that fits has no value at the end of a body. -/
theorem headerValue_end
    {body : Bytes}
    {size : Nat}
    (hSize : size ≤ maxHeaderSize) :
    headerValue body size body.length = .error .ended := by
  have hNone : findByte body 13 body.length = none := by
    rw [findByte, List.drop_length]
    rfl
  unfold headerValue
  rw [hNone]
  simp only [Option.getD_none]
  rw [if_neg (by omega)]

theorem headerLine_settled
    {body : Bytes}
    {i : Nat}
    (hInside : i ≤ body.length)
    (more : Bytes) :
    Settled (headerLine body i)
      (headerLine (body ++ more) i) := by
  unfold headerLine
  apply (headerName_settled hInside more).bind
  rintro ⟨name, size, next⟩ hName
  rcases headerName_inside hName with ⟨hSize, hNext⟩
  simp only
  rw [List.drop_append_of_le_length hNext]
  apply skipSpaces_settled rfl hNext hSize
  · intro size hSize
    rw [headerValue_end hSize, Lib.error_bind]
  · rintro ⟨size, start⟩
    apply (headerValue_settled more).bind
    rintro ⟨value, stop⟩ -
    exact .refl _

theorem partHeaders_settled
    (body more : Bytes)
    (left : Nat)
    (headers : PartHeaders)
    (i : Nat) :
    Settled (partHeaders body left headers i)
      (partHeaders (body ++ more) left headers i) := by
  induction left generalizing headers i with
  | zero =>
      unfold partHeaders
      apply (headersEnd_settled body more i).bind
      intro stop hEnd
      cases stop with
      | none => exact .refl _
      | some stop => exact .refl _
  | succ left ih =>
      unfold partHeaders
      apply (headersEnd_settled body more i).bind
      intro stop hEnd
      cases stop with
      | none =>
          have hInside := Nat.le_of_lt (headersEnd_inside hEnd)
          apply (headerLine_settled hInside more).bind
          rintro ⟨name, value, next⟩ -
          exact ih _ _
      | some stop => exact .refl _

end Form

end MailgunRelay

------------------------------------------------------------
-- The First Boundary
------------------------------------------------------------

namespace MailgunRelay

namespace Form

theorem expect_settled
    (body expected more : Bytes)
    (i : Nat) :
    Settled (expect body expected i)
      (expect (body ++ more) expected i) := by
  induction expected generalizing i with
  | nil => exact .refl _
  | cons b rest ih =>
      cases hHere : body[i]? with
      | none =>
          rw [expect, hHere]
          exact .inl rfl
      | some c =>
          rw [expect, expect, hHere, getElem?_more hHere more]
          simp only
          by_cases hSame : c = b
          · rw [if_pos hSame, if_pos hSame]
            exact ih (i + 1)
          · rw [if_neg hSame, if_neg hSame]
            exact .refused nofun

/- All expected bytes are there. -/
theorem expect_eq_ok
    {body expected : Bytes}
    {i : Nat}
    (hHere : expected <+: body.drop i) :
    expect body expected i = .ok (i + expected.length) := by
  induction expected generalizing i with
  | nil => rfl
  | cons b rest ih =>
      rcases hHere with ⟨after, hAfter⟩
      have hByte : body[i]? = some b := by
        rw [← List.head?_drop, ← hAfter]
        rfl
      have hRest : rest <+: body.drop (i + 1) := by
        rw [← List.tail_drop, ← hAfter]
        exact List.prefix_append _ _
      rw [expect, hByte]
      simp only [if_true]
      rw [ih hRest, List.length_cons]
      congr 1
      omega

/- The bytes before the first boundary, when more follows. -/
theorem takeWhile_more
    {body : Bytes}
    {isLead : UInt8 → Bool}
    (hInside : (body.takeWhile isLead).length < body.length)
    (more : Bytes) :
    (body ++ more).takeWhile isLead =
      body.takeWhile isLead := by
  rw [List.takeWhile_append, if_neg (by omega)]

theorem multipartStart_settled
    (body boundary more : Bytes) :
    Settled (multipartStart body boundary)
      (multipartStart (body ++ more) boundary) := by
  unfold multipartStart
  by_cases hInside :
      (body.takeWhile fun b => b == 13 || b == 10).length <
        body.length
  · rw [takeWhile_more hInside]
    generalize body.takeWhile _ = lead at hInside ⊢
    have hLonger : lead.length < (body ++ more).length := by
      rw [List.length_append]
      omega
    simp only [hInside, hLonger, decide_true, Bool.and_true]
    rw [List.getElem?_append_left hInside]
    split
    · exact .refused nofun
    apply (expect_settled body _ more _).bind
    intro i _
    cases hFirst : body[i]? with
    | none => exact .inl rfl
    | some a =>
        rw [getElem?_more hFirst more]
        cases hSecond : body[i + 1]? with
        | some b =>
            rw [getElem?_more hSecond more]
            exact .refl _
        | none =>
            by_cases hDash : a = 45
            · subst hDash
              exact .inl rfl
            by_cases hCr : a = 13
            · subst hCr
              exact .inl rfl
            -- Another byte is an error, whatever follows it.
            split <;> split <;>
              first
              | exact .refl _
              | simp_all
  · -- Only CR and LF so far: the boundary is not reached.
    have hAll :
        (body.takeWhile fun b => b == 13 || b == 10).length =
          body.length := by
      have hLe := (body.takeWhile_prefix
        fun b => b == 13 || b == 10).length_le
      omega
    rw [hAll]
    simp only [Nat.lt_irrefl, decide_false, Bool.and_false,
      Bool.false_and, Bool.false_eq_true, if_false]
    have hEnd :
        expect body ((delimiter boundary).drop 2) body.length =
          .error .ended := by
      simp [delimiter, expect]
    rw [hEnd, Lib.error_bind]
    exact .inl rfl

/- A body whose first boundary is the closing one. -/
theorem multipartStart_closing
    {body boundary lead : Bytes}
    (hLead : ∀ b ∈ lead, b = 13 ∨ b = 10)
    (hClosing :
      lead ++ [45, 45] ++ boundary ++ [45, 45] <+: body) :
    multipartStart body boundary = .error .ended := by
  rcases hClosing with ⟨rest, rfl⟩
  have hTake :
      (lead ++ [45, 45] ++ boundary ++ [45, 45] ++
          rest).takeWhile (fun b => b == 13 || b == 10) =
        lead := by
    simp only [List.append_assoc]
    rw [List.takeWhile_append_of_pos]
    · simp
    · simpa using hLead
  have hExpect :
      expect (lead ++ [45, 45] ++ boundary ++ [45, 45] ++ rest)
          ((delimiter boundary).drop 2) lead.length =
        .ok (lead.length + (2 + boundary.length)) := by
    rw [expect_eq_ok]
    · simp [delimiter]
      omega
    · simp [delimiter]
  have hDash :
      (lead ++ [45, 45] ++ boundary ++ [45, 45] ++
        rest)[lead.length]? = some 45 := by
    simp
  have hAfter :
      (lead ++ [45, 45] ++ boundary ++ [45, 45] ++ rest).drop
          (lead.length + (2 + boundary.length)) =
        45 :: 45 :: rest := by
    rw [List.append_assoc]
    apply List.drop_left'
    simp only [List.length_append, List.length_cons,
      List.length_nil]
    omega
  have hFirst :
      (lead ++ [45, 45] ++ boundary ++ [45, 45] ++ rest)[
        lead.length + (2 + boundary.length)]? = some 45 := by
    rw [← List.head?_drop, hAfter]
    rfl
  have hSecond :
      (lead ++ [45, 45] ++ boundary ++ [45, 45] ++ rest)[
        lead.length + (2 + boundary.length) + 1]? =
          some 45 := by
    rw [← List.getElem?_drop, hAfter]
    rfl
  unfold multipartStart
  rw [hTake]
  simp only [hDash, bne_self_eq_false, Bool.and_false,
    Bool.false_eq_true, if_false]
  rw [hExpect, Lib.ok_bind, hFirst, hSecond]
  rfl

end Form

end MailgunRelay

------------------------------------------------------------
-- Parts
------------------------------------------------------------

namespace MailgunRelay

namespace Form

/- What the two bytes after a found delimiter decide. -/
theorem partEnd_of_found
    {body boundary : Bytes}
    {search found : Nat}
    (hFound :
      findSeq body (delimiter boundary) search =
        some found) :
    partEnd body boundary search =
      (let after := found + (delimiter boundary).length
      match body[after]?, body[after + 1]? with
      | none, _ => .error .ended
      | some a, none =>
          if a = 13 ∨ a = 45 then
            .error .ended
          else
            partEnd body boundary after
      | some a, some b =>
          if a = 13 ∧ b = 10 then
            .ok (found, false)
          else if a = 45 ∧ b = 45 then
            .ok (found, true)
          else if a = 13 ∨ a = 45 then
            partEnd body boundary (after + 1)
          else
            partEnd body boundary after) := by
  rw [partEnd]
  split
  · rename_i hNone
    rw [hFound] at hNone
    cases hNone
  · rename_i other hOther
    rw [hFound] at hOther
    cases hOther
    rfl

theorem partEnd_settled
    (body boundary more : Bytes)
    (search : Nat) :
    Settled (partEnd body boundary search)
      (partEnd (body ++ more) boundary search) := by
  have hNeedle : delimiter boundary ≠ [] := by
    simp [delimiter]
  fun_induction partEnd body boundary search with
  | case1 search hNone => exact .inl rfl
  | case2 search found hFound after hNone => exact .inl rfl
  | case3 search found hFound after a hNone hByte hData =>
      exact .inl rfl
  | case4 search found hFound after a hSecond hFirst hData ih =>
      -- Whatever byte comes next, the search goes on here.
      rw [partEnd_of_found (findSeq_more hNeedle hFound more)]
      simp only
      rw [getElem?_more hFirst more]
      rw [not_or] at hData
      cases (body ++ more)[after + 1]? with
      | none => simpa only [hData, or_self, if_false] using ih
      | some b =>
          simpa only [hData, false_and, or_self,
            if_false] using ih
  | case5 search found hFound after a b hSecond hFirst hNext =>
      rw [partEnd_of_found (findSeq_more hNeedle hFound more)]
      simp only
      rw [getElem?_more hFirst more, getElem?_more hSecond more]
      simp only
      rw [if_pos hNext]
      exact .refl _
  | case6 search found hFound after a b hSecond hFirst hNext
      hLast =>
      rw [partEnd_of_found (findSeq_more hNeedle hFound more)]
      simp only
      rw [getElem?_more hFirst more, getElem?_more hSecond more]
      simp only
      rw [if_neg hNext, if_pos hLast]
      exact .refl _
  | case7 search found hFound after a b hSecond hFirst hNext
      hLast hData ih =>
      rw [partEnd_of_found (findSeq_more hNeedle hFound more)]
      simp only
      rw [getElem?_more hFirst more, getElem?_more hSecond more]
      simp only
      rw [if_neg hNext, if_neg hLast, if_pos hData]
      exact ih
  | case8 search found hFound after a b hSecond hFirst hNext
      hLast hData ih =>
      rw [partEnd_of_found (findSeq_more hNeedle hFound more)]
      simp only
      rw [getElem?_more hFirst more, getElem?_more hSecond more]
      simp only
      rw [if_neg hNext, if_neg hLast, if_neg hData]
      exact ih

variable [Unicode]

/- A part of a beginning is that part of the whole. -/
theorem part_settled
    (body boundary more : Bytes)
    (charset : Charset)
    (limits : Limits)
    (counts : Counts)
    (i : Nat) :
    Settled
      (part body boundary charset limits counts i)
      (part (body ++ more) boundary charset limits counts
        i) := by
  unfold part
  apply (partHeaders_settled body more _ _ i).bind
  rintro ⟨headers, start⟩ -
  simp only
  split
  · exact .refl _
  apply (Lib.Settles.refl _).bind
  rintro counts' -
  apply (partEnd_settled body boundary more start).bind
  rintro ⟨stop, last⟩ hEnd
  have hInside := (partEnd_bounds hEnd).2
  simp only
  rw [slice_more (by omega)]
  exact .refl _

theorem part_more
    {body boundary : Bytes}
    {charset : Charset}
    {limits : Limits}
    {counts : Counts}
    {i : Nat}
    {p : Part}
    (hPart :
      part body boundary charset limits counts i = .ok p)
    (more : Bytes) :
    part (body ++ more) boundary charset limits counts i =
      .ok p := by
  have hSettled :=
    part_settled body boundary more charset limits counts i
  rw [hPart] at hSettled
  exact hSettled

end Form

end MailgunRelay

------------------------------------------------------------
-- Beginnings of a Body
------------------------------------------------------------

namespace MailgunRelay

namespace Form

variable [Unicode]

variable
  {body boundary : Bytes}
  {charset : Charset}
  {limits : Limits}
  {items all : List Item}
  {counts : Counts}
  {i : Nat}
  {p : Part}
  {error : FormError}

theorem parts_of_refused
    (hPart :
      part body boundary charset limits counts i =
        .error (.refused error)) :
    parts body boundary charset limits items counts i =
      .error error := by
  rw [parts]
  split
  · rename_i hOther
    rw [hPart] at hOther
    cases hOther
  · rename_i hOther
    rw [hPart] at hOther
    cases hOther
    rfl
  · rename_i hOther
    rw [hPart] at hOther
    cases hOther

theorem parts_of_part
    (hPart :
      part body boundary charset limits counts i = .ok p) :
    parts body boundary charset limits items counts i =
      if p.last then
        .ok (items ++ [p.item])
      else
        parts body boundary charset limits
          (items ++ [p.item]) p.counts p.next := by
  rw [parts]
  split
  · rename_i hOther
    rw [hPart] at hOther
    cases hOther
  · rename_i hOther
    rw [hPart] at hOther
    cases hOther
  · rename_i hOther
    rw [hPart] at hOther
    cases hOther
    rfl

/- The items so far are the first items of the form. -/
theorem parts_extends
    (hParts :
      parts body boundary charset limits items counts i =
        .ok all) :
    items <+: all := by
  fun_induction parts body boundary charset limits items
    counts i with
  | case1 items counts i hPart =>
      cases hParts
      exact List.prefix_refl _
  | case2 items counts i error hPart => cases hParts
  | case3 items counts i p hPart hLast =>
      cases hParts
      exact List.prefix_append _ _
  | case4 items counts i p hPart hLast ih =>
      exact (List.prefix_append _ _).trans (ih hParts)

/- The parts of a beginning are the first of the whole. -/
theorem parts_beginning
    {more : Bytes}
    (hParts :
      parts (body ++ more) boundary charset limits items counts
        i = .ok all) :
    ∃ first,
      parts body boundary charset limits items counts i =
          .ok first ∧
        first <+: all := by
  fun_induction parts body boundary charset limits items
    counts i with
  | case1 items counts i hPart =>
      exact ⟨items, rfl, parts_extends hParts⟩
  | case2 items counts i error hPart =>
      have hSettled :=
        part_settled body boundary more charset limits counts i
      rw [hPart] at hSettled
      rcases hSettled with hEnded | ⟨stop, hStop, hWhole⟩
      · cases hEnded
      · cases stop with
        | ended => exact absurd rfl hStop
        | refused error' =>
            rw [parts_of_refused hWhole] at hParts
            cases hParts
  | case3 items counts i p hPart hLast =>
      rw [parts_of_part (part_more hPart more),
        if_pos hLast] at hParts
      cases hParts
      exact ⟨items ++ [p.item], rfl, List.prefix_refl _⟩
  | case4 items counts i p hPart hLast ih =>
      rw [parts_of_part (part_more hPart more),
        if_neg hLast] at hParts
      exact ih hParts

/- The parts from an index on end at a closing delimiter. -/
inductive Closes
    (body boundary : Bytes)
    (charset : Charset)
    (limits : Limits) : Counts → Nat → Prop
| last
    {counts : Counts}
    {i : Nat}
    {p : Part}
    (hPart :
      part body boundary charset limits counts i = .ok p)
    (hLast : p.last = true) :
    Closes body boundary charset limits counts i
| next
    {counts : Counts}
    {i : Nat}
    {p : Part}
    (hPart :
      part body boundary charset limits counts i = .ok p)
    (hNext : p.last = false)
    (hCloses :
      Closes body boundary charset limits p.counts p.next) :
    Closes body boundary charset limits counts i

/- Nothing after a closing delimiter is read. -/
theorem parts_of_closes
    (hCloses : Closes body boundary charset limits counts i)
    (more : Bytes) :
    parts (body ++ more) boundary charset limits items counts
        i =
      parts body boundary charset limits items counts i := by
  induction hCloses generalizing items with
  | last hPart hLast =>
      rw [parts_of_part (part_more hPart more),
        parts_of_part hPart,
        if_pos hLast, if_pos hLast]
  | next hPart hNext hCloses ih =>
      rw [parts_of_part (part_more hPart more),
        parts_of_part hPart, hNext,
        if_neg Bool.false_ne_true, if_neg Bool.false_ne_true]
      exact ih

/- The parse of a body ended at a closing delimiter. -/
def Closed
    (body boundary : Bytes)
    (charset : Charset)
    (limits : Limits) : Prop :=
  (∃ lead,
    (∀ b ∈ lead, b = 13 ∨ b = 10) ∧
      lead ++ [45, 45] ++ boundary ++ [45, 45] <+: body) ∨
    ∃ i,
      multipartStart body boundary = .ok i ∧
        Closes body boundary charset limits
          { files := 0, fields := 0 } i

/-
  A body that was read: what ends early has its first parts,
  and what goes on after the closing delimiter is the same
  form.
-/
theorem multipart_beginning
    (boundary : Bytes)
    (charset : Charset)
    (limits : Limits) :
    (∀ start body items,
      start <+: body →
      multipart body boundary charset limits = .ok items →
        ∃ first,
          multipart start boundary charset limits =
              .ok first ∧
            first <+: items) ∧
      ∀ body items,
        multipart body boundary charset limits = .ok items →
        Closed body boundary charset limits →
          ∀ more,
            multipart (body ++ more) boundary charset limits =
              .ok items := by
  constructor
  · rintro start - items ⟨more, rfl⟩ hWhole
    have hSettled :=
      multipartStart_settled start boundary more
    unfold multipart at hWhole ⊢
    cases hStart : multipartStart start boundary with
    | ok i =>
        rw [hStart] at hSettled
        rw [hSettled] at hWhole
        exact parts_beginning hWhole
    | error stop =>
        rw [hStart] at hSettled
        rcases hSettled with rfl | ⟨stop', hStop, hSame⟩
        · exact ⟨[], rfl, List.nil_prefix⟩
        · rw [hSame] at hWhole
          cases stop' with
          | ended => exact absurd rfl hStop
          | refused error => cases hWhole
  · intro body items hBody hClosed more
    rcases hClosed with ⟨lead, hLead, hClosing⟩ | hClosed
    · have hLonger :=
        hClosing.trans (List.prefix_append body more)
      unfold multipart at hBody ⊢
      rw [multipartStart_closing hLead hClosing] at hBody
      rw [multipartStart_closing hLead hLonger]
      exact hBody
    · rcases hClosed with ⟨i, hStart, hCloses⟩
      have hSettled :=
        multipartStart_settled body boundary more
      rw [hStart] at hSettled
      unfold multipart at hBody ⊢
      rw [hStart] at hBody
      rw [hSettled]
      simp only
      rw [parts_of_closes hCloses more]
      exact hBody

end Form

end MailgunRelay
