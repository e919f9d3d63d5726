import Mathlib.Data.List.Basic
import Mathlib.Data.List.DropRight

/-
  Splitting and searching of lists, as string libraries do
  it on text and bytes.

  Key definitions include:
    * `Lib.Text.splitOnce`
    * `Lib.Text.rsplitOnce`
    * `Lib.Text.search`

  Key theorems include:
    * `Lib.Text.splitOnce_eq_some_iff`
    * `Lib.Text.rsplitOnce_eq_some_iff`
    * `Lib.Text.search_eq_some_iff`
    * `Lib.Text.search_isSome_iff`
    * `Lib.Text.mem_intercalate`
    * `Lib.Text.mem_splitOn`
    * `Lib.Text.strip_append`
    * `Lib.Text.exists_strip`
-/

------------------------------------------------------------
-- Splitting Once
------------------------------------------------------------

namespace Lib

namespace Text

variable {α : Type} [DecidableEq α]

/- The parts around the first `sep`. -/
def splitOnce
    (sep : α) : List α → Option (List α × List α)
| [] => none
| x :: xs =>
    if x = sep then
      some ([], xs)
    else
      (splitOnce sep xs).map fun p => (x :: p.1, p.2)

/- The parts around the last `sep`. -/
def rsplitOnce
    (sep : α) : List α → Option (List α × List α)
| [] => none
| x :: xs =>
    match rsplitOnce sep xs with
    | some p => some (x :: p.1, p.2)
    | none => if x = sep then some ([], xs) else none

/-
  The first split is the decomposition whose first part is
  free of the separator.
-/
theorem splitOnce_eq_some_iff
    (sep : α)
    (xs left right : List α) :
    splitOnce sep xs = some (left, right) ↔
      xs = left ++ sep :: right ∧ sep ∉ left := by
  induction xs generalizing left with
  | nil => simp [splitOnce]
  | cons x xs ih =>
      by_cases hx : x = sep
      · subst hx
        cases left with
        | nil => simp [splitOnce]
        | cons y left =>
            simp only [splitOnce, if_true]
            constructor
            · intro h
              simp at h
            · rintro ⟨hEq, hNot⟩
              simp at hEq hNot
              exact absurd hEq.1 hNot.1
      · cases left with
        | nil => simp [splitOnce, hx]
        | cons y left =>
            have hTail := ih left
            simp only [splitOnce, hx, if_false,
              Option.map_eq_some_iff, Prod.exists,
              Prod.mk.injEq, List.cons.injEq,
              List.cons_append, List.mem_cons, not_or]
            constructor
            · rintro ⟨l, r, hSplit, ⟨hxy, hl⟩, hr⟩
              subst hxy hl hr
              have h := hTail.mp hSplit
              exact ⟨⟨rfl, h.1⟩, fun h' => hx h'.symm, h.2⟩
            · rintro ⟨⟨hxy, hEq⟩, -, hNot⟩
              exact
                ⟨left, right, hTail.mpr ⟨hEq, hNot⟩,
                  ⟨hxy, rfl⟩, rfl⟩

/- A list without the separator does not split. -/
theorem splitOnce_eq_none_iff
    (sep : α)
    (xs : List α) :
    splitOnce sep xs = none ↔ sep ∉ xs := by
  induction xs with
  | nil => simp [splitOnce]
  | cons x xs ih =>
      by_cases hx : x = sep
      · simp [splitOnce, hx]
      · simp [splitOnce, hx, ih, Ne.symm hx]

/- A list without the separator does not split at the end. -/
theorem rsplitOnce_eq_none_iff
    (sep : α)
    (xs : List α) :
    rsplitOnce sep xs = none ↔ sep ∉ xs := by
  induction xs with
  | nil => simp [rsplitOnce]
  | cons x xs ih =>
      cases hTail : rsplitOnce sep xs with
      | some p =>
          have hMem : sep ∈ xs := by
            by_contra hNot
            rw [ih.mpr hNot] at hTail
            simp at hTail
          simp [rsplitOnce, hTail, hMem]
      | none =>
          have hNot := ih.mp hTail
          by_cases hx : x = sep
          · simp [rsplitOnce, hTail, hx]
          · simp [rsplitOnce, hTail, hx, hNot, Ne.symm hx]

/-
  The last split is the decomposition whose second part is
  free of the separator.
-/
theorem rsplitOnce_eq_some_iff
    (sep : α)
    (xs left right : List α) :
    rsplitOnce sep xs = some (left, right) ↔
      xs = left ++ sep :: right ∧ sep ∉ right := by
  induction xs generalizing left with
  | nil => simp [rsplitOnce]
  | cons x xs ih =>
      cases hTail : rsplitOnce sep xs with
      | some p =>
          have hp := (ih p.1).mp
          constructor
          · intro h
            simp only [rsplitOnce, hTail, Option.some.injEq,
              Prod.mk.injEq] at h
            rcases h with ⟨rfl, rfl⟩
            have h' := hp hTail
            exact ⟨by rw [h'.1]; rfl, h'.2⟩
          · rintro ⟨hEq, hNot⟩
            cases left with
            | nil =>
                simp only [List.nil_append,
                  List.cons.injEq] at hEq
                rw [hEq.2,
                  (rsplitOnce_eq_none_iff sep right).mpr
                    hNot] at hTail
                simp at hTail
            | cons y left =>
                simp only [List.cons_append,
                  List.cons.injEq] at hEq
                have h' := (ih left).mpr ⟨hEq.2, hNot⟩
                simp [rsplitOnce, h', hEq.1]
      | none =>
          have hNone :=
            (rsplitOnce_eq_none_iff sep xs).mp hTail
          by_cases hx : x = sep
          · subst hx
            cases left with
            | nil =>
                simp only [rsplitOnce, hTail, if_true,
                  List.nil_append, List.cons.injEq,
                  true_and, Option.some.injEq,
                  Prod.mk.injEq]
                constructor
                · rintro rfl
                  exact ⟨rfl, hNone⟩
                · exact fun h => h.1
            | cons y left =>
                simp only [rsplitOnce, hTail, if_true,
                  List.cons_append, List.cons.injEq]
                constructor
                · intro h
                  simp at h
                · rintro ⟨⟨-, hEq⟩, -⟩
                  rw [hEq] at hNone
                  simp at hNone
          · simp only [rsplitOnce, hTail, hx, if_false]
            constructor
            · intro h
              simp at h
            · rintro ⟨hEq, -⟩
              cases left with
              | nil =>
                  simp only [List.nil_append,
                    List.cons.injEq] at hEq
                  exact absurd hEq.1 hx
              | cons y left =>
                  simp only [List.cons_append,
                    List.cons.injEq] at hEq
                  rw [hEq.2] at hNone
                  simp at hNone

end Text

end Lib

------------------------------------------------------------
-- Searching
------------------------------------------------------------

namespace Lib

namespace Text

variable {α : Type} [BEq α] [LawfulBEq α]

/- The first index at which a non-empty needle stands. -/
def search
    (needle : List α) : List α → Option Nat
| [] => none
| x :: xs =>
    if needle.isPrefixOf (x :: xs) then
      some 0
    else
      (search needle xs).map (· + 1)

/-
  The found index is the first one from which the needle can
  be read.
-/
theorem search_eq_some_iff
    {needle xs : List α}
    (hNeedle : needle ≠ [])
    (k : Nat) :
    search needle xs = some k ↔
      needle <+: xs.drop k ∧
        ∀ j < k, ¬ needle <+: xs.drop j := by
  induction xs generalizing k with
  | nil => simp [search, hNeedle]
  | cons x xs ih =>
      by_cases hFirst : needle <+: x :: xs
      · have hTrue := List.isPrefixOf_iff_prefix.mpr hFirst
        simp only [search, hTrue, if_true, Option.some.injEq]
        constructor
        · rintro rfl
          exact ⟨hFirst, by simp⟩
        · rintro ⟨-, hNone⟩
          cases k with
          | zero => rfl
          | succ k => exact absurd hFirst (hNone 0 (by simp))
      · have hFalse : needle.isPrefixOf (x :: xs) = false := by
          rw [← Bool.not_eq_true,
            List.isPrefixOf_iff_prefix]
          exact hFirst
        simp only [search, hFalse, Bool.false_eq_true,
          if_false, Option.map_eq_some_iff]
        constructor
        · rintro ⟨m, hm, rfl⟩
          rcases (ih m).mp hm with ⟨hHere, hBefore⟩
          refine ⟨hHere, ?_⟩
          intro j hj
          cases j with
          | zero => exact hFirst
          | succ j => exact hBefore j (by omega)
        · rintro ⟨hHere, hBefore⟩
          cases k with
          | zero => exact absurd hHere hFirst
          | succ k =>
              refine ⟨k, (ih k).mpr ⟨hHere, ?_⟩, rfl⟩
              intro j hj
              exact hBefore (j + 1) (by omega)

/- Something is found when the needle is in the list. -/
theorem search_isSome_iff
    {needle xs : List α}
    (hNeedle : needle ≠ []) :
    (search needle xs).isSome = true ↔ needle <:+: xs := by
  induction xs with
  | nil => simp [search, hNeedle]
  | cons x xs ih =>
      rw [List.infix_cons_iff, ← List.isPrefixOf_iff_prefix]
      unfold search
      split
      · rename_i hHere
        simp [hHere]
      · rename_i hLater
        rw [Option.isSome_map, ih]
        simp [hLater]

/- A found needle lies inside the list. -/
theorem search_bounds
    {needle xs : List α}
    {k : Nat}
    (hNeedle : needle ≠ [])
    (hFound : search needle xs = some k) :
    k + needle.length ≤ xs.length := by
  have hHere := ((search_eq_some_iff hNeedle k).mp hFound).1
  have hLength := hHere.length_le
  have hPos := List.length_pos_of_ne_nil hNeedle
  rw [List.length_drop] at hLength
  omega

/- A found needle stays the first one of a longer list. -/
theorem search_append
    {needle xs : List α}
    {k : Nat}
    (hNeedle : needle ≠ [])
    (hFound : search needle xs = some k)
    (ys : List α) :
    search needle (xs ++ ys) = some k := by
  have hBounds := search_bounds hNeedle hFound
  have hPos := List.length_pos_of_ne_nil hNeedle
  rcases (search_eq_some_iff hNeedle k).mp hFound with
    ⟨hHere, hBefore⟩
  apply (search_eq_some_iff hNeedle k).mpr
  constructor
  · rw [List.drop_append_of_le_length (by omega)]
    exact hHere.trans (List.prefix_append _ _)
  · intro j hj hEarlier
    apply hBefore j hj
    rw [List.drop_append_of_le_length (by omega)] at hEarlier
    apply List.prefix_of_prefix_length_le hEarlier
      (List.prefix_append _ _)
    rw [List.length_drop]
    omega

omit [BEq α] [LawfulBEq α] in
/- What is in a joined list is in the separator or a part. -/
theorem mem_intercalate
    {sep : List α}
    {parts : List (List α)}
    {x : α}
    (hMem : x ∈ sep.intercalate parts) :
    x ∈ sep ∨ ∃ part ∈ parts, x ∈ part := by
  induction parts with
  | nil => cases hMem
  | cons part parts ih =>
      cases parts with
      | nil =>
          rw [List.intercalate_singleton] at hMem
          exact .inr ⟨part, List.mem_cons_self, hMem⟩
      | cons next parts =>
          rw [List.intercalate_cons_cons, List.mem_append,
            List.mem_append] at hMem
          rcases hMem with (hHere | hSep) | hLater
          · exact .inr ⟨part, List.mem_cons_self, hHere⟩
          · exact .inl hSep
          · rcases ih hLater with hSep | ⟨part', hPart, hIn⟩
            · exact .inl hSep
            · exact
                .inr
                  ⟨part', List.mem_cons_of_mem _ hPart, hIn⟩

/- A member other than the separator is in a part. -/
theorem mem_splitOn
    {xs : List α}
    {sep x : α}
    (hMem : x ∈ xs)
    (hOther : x ≠ sep) :
    ∃ part ∈ xs.splitOn sep, x ∈ part := by
  induction xs with
  | nil => cases hMem
  | cons y ys ih =>
      rw [List.splitOn_cons_eq_if_modifyHead]
      by_cases hSep : y = sep
      · subst hSep
        have hRest := (List.mem_cons.mp hMem).resolve_left hOther
        rcases ih hRest with ⟨part, hPart, hIn⟩
        exact ⟨part, by simp [hPart], hIn⟩
      · simp only [beq_iff_eq, hSep, if_false]
        cases hSplit : ys.splitOn sep with
        | nil => exact absurd hSplit (by simp)
        | cons part parts =>
            rw [hSplit] at ih
            rcases List.mem_cons.mp hMem with rfl | hRest
            · exact
                ⟨x :: part, by simp, List.mem_cons_self⟩
            · rcases ih hRest with ⟨part', hPart, hIn⟩
              rcases List.mem_cons.mp hPart with rfl | hLater
              · exact
                  ⟨y :: part', by simp,
                    List.mem_cons_of_mem y hIn⟩
              · exact ⟨part', by simp [hLater], hIn⟩

end Text

end Lib

------------------------------------------------------------
-- Stripped Ends
------------------------------------------------------------

namespace Lib

namespace Text

variable {α : Type}

/- What is taken from both ends of a list. -/
theorem strip_append
    {p : α → Bool}
    {front middle back : List α}
    (hFront : ∀ a ∈ front, p a = true)
    (hMiddle : ∀ a ∈ middle, p a = false)
    (hBack : ∀ a ∈ back, p a = true) :
    ((front ++ middle ++ back).dropWhile p).rdropWhile p =
      middle := by
  have hEnd : (middle ++ back).rdropWhile p = middle := by
    unfold List.rdropWhile
    rw [List.reverse_append,
      List.dropWhile_append_of_pos fun a hMem =>
        hBack a (List.mem_reverse.mp hMem)]
    show List.rdropWhile p middle = middle
    rw [List.rdropWhile_eq_self_iff]
    intro hNonempty
    rw [hMiddle _ (List.getLast_mem hNonempty)]
    exact Bool.false_ne_true
  rw [List.append_assoc, List.dropWhile_append_of_pos hFront]
  cases middle with
  | nil =>
      rw [List.nil_append, List.rdropWhile_eq_nil_iff]
      intro a hMem
      exact hBack a (List.dropWhile_suffix p |>.subset hMem)
  | cons a middle =>
      rw [List.cons_append, List.dropWhile_cons_of_neg]
      · exact hEnd
      · rw [hMiddle a List.mem_cons_self]
        exact Bool.false_ne_true

/- A list is what is stripped of it and what is left. -/
theorem exists_strip
    (p : α → Bool)
    (xs : List α) :
    ∃ front back,
      xs = front ++ (xs.dropWhile p).rdropWhile p ++ back ∧
        (∀ a ∈ front, p a = true) ∧
          ∀ a ∈ back, p a = true := by
  refine
    ⟨xs.takeWhile p, (xs.dropWhile p).rtakeWhile p, ?_, ?_, ?_⟩
  · rw [List.append_assoc, List.rdropWhile_append_rtakeWhile,
      List.takeWhile_append_dropWhile]
  · intro a hMem
    exact List.mem_takeWhile_imp hMem
  · intro a hMem
    exact List.mem_rtakeWhile_imp hMem

end Text

end Lib
