import Mathlib.Data.List.Sort

/-
  The canonical list of a set: sorted, and without repeated
  neighbours.

  Key theorems include:
    * `Lib.Canonical.mem_eraseReps`
    * `Lib.Canonical.pairwise_eraseReps`
    * `Lib.Canonical.pairwise_sorted`
    * `Lib.Canonical.eq_of_mem_iff`
-/

------------------------------------------------------------
-- Repeated Neighbours
------------------------------------------------------------

namespace Lib

namespace Canonical

variable {α : Type} [DecidableEq α]

/- One turn of the loop. -/
theorem loop_cons
    (a b : α)
    (as kept : List α) :
    List.eraseRepsBy.loop (· == ·) a (b :: as) kept =
      if a = b then
        List.eraseRepsBy.loop (· == ·) a as kept
      else
        List.eraseRepsBy.loop (· == ·) b as (a :: kept) := by
  rw [List.eraseRepsBy.loop]
  by_cases hSame : a = b
  · rw [if_pos hSame, beq_iff_eq.mpr hSame]
  · rw [if_neg hSame, beq_false_of_ne hSame]

/- What was kept before stands in front. -/
theorem loop_eq_append
    (a : α)
    (as kept : List α) :
    List.eraseRepsBy.loop (· == ·) a as kept =
      kept.reverse ++ (a :: as).eraseReps := by
  show List.eraseRepsBy.loop (· == ·) a as kept =
    kept.reverse ++ List.eraseRepsBy.loop (· == ·) a as []
  induction as generalizing a kept with
  | nil => simp [List.eraseRepsBy.loop]
  | cons b as ih =>
      rw [loop_cons, loop_cons]
      by_cases hSame : a = b
      · rw [if_pos hSame, if_pos hSame, ih a kept]
      · rw [if_neg hSame, if_neg hSame, ih b (a :: kept),
          ih b [a]]
        simp

/- An element that is repeated is left out. -/
theorem eraseReps_repeat
    (a : α)
    (as : List α) :
    (a :: a :: as).eraseReps = (a :: as).eraseReps := by
  show List.eraseRepsBy.loop (· == ·) a (a :: as) [] = _
  rw [loop_cons, if_pos rfl]
  rfl

/- An element with another one after it is kept. -/
theorem eraseReps_cons_of_ne
    {a b : α}
    (as : List α)
    (hOther : a ≠ b) :
    (a :: b :: as).eraseReps = a :: (b :: as).eraseReps := by
  show List.eraseRepsBy.loop (· == ·) a (b :: as) [] = _
  rw [loop_cons, if_neg hOther]
  exact loop_eq_append b as [a]

/- The elements are the same. -/
theorem mem_eraseReps
    {x : α}
    {as : List α} :
    x ∈ as.eraseReps ↔ x ∈ as := by
  induction as with
  | nil => exact Iff.rfl
  | cons a as ih =>
      cases as with
      | nil => exact Iff.rfl
      | cons b as =>
          by_cases hSame : a = b
          · subst hSame
            rw [eraseReps_repeat, ih]
            simp
          · rw [eraseReps_cons_of_ne as hSame,
              List.mem_cons, ih]
            exact List.mem_cons.symm

/- Of a sorted list, only different elements are left. -/
theorem pairwise_eraseReps
    {r : α → α → Prop}
    [Std.Antisymm r]
    {as : List α}
    (hSorted : as.Pairwise r) :
    as.eraseReps.Pairwise fun a b => r a b ∧ a ≠ b := by
  induction as with
  | nil => exact .nil
  | cons a as ih =>
      cases as with
      | nil => exact List.pairwise_singleton _ a
      | cons b as =>
          have hRest := ih hSorted.of_cons
          by_cases hSame : a = b
          · subst hSame
            rw [eraseReps_repeat]
            exact hRest
          · rw [eraseReps_cons_of_ne as hSame]
            apply List.Pairwise.cons _ hRest
            intro c hMem
            have hIn := mem_eraseReps.mp hMem
            have hFirst := (List.pairwise_cons.mp hSorted).1
            refine ⟨hFirst c hIn, ?_⟩
            -- `a` again, after `b`, would be below `b`.
            intro hAgain
            subst hAgain
            rcases List.mem_cons.mp hIn with hHere | hLater
            · exact hSame hHere
            · have hBelow := (List.pairwise_cons.mp
                hSorted.of_cons).1 a hLater
              have hAbove := hFirst b List.mem_cons_self
              exact hSame
                (Std.Antisymm.antisymm a b hAbove hBelow)

end Canonical

end Lib

------------------------------------------------------------
-- Sorted By A Key
------------------------------------------------------------

namespace Lib

namespace Canonical

variable {α κ : Type} [LinearOrder κ] {key : α → κ}

/- A list that was sorted by a key. -/
theorem pairwise_sorted
    (key : α → κ)
    (as : List α) :
    (as.mergeSort fun a b => key a ≤ key b).Pairwise
      fun a b => key a ≤ key b := by
  have hSorted :
      (as.mergeSort fun a b => key a ≤ key b).Pairwise
        fun a b => decide (key a ≤ key b) = true := by
    apply List.pairwise_mergeSort
    · intro a b c hFirst hSecond
      rw [decide_eq_true_iff] at hFirst hSecond ⊢
      exact hFirst.trans hSecond
    · intro a b
      rw [Bool.or_eq_true, decide_eq_true_iff,
        decide_eq_true_iff]
      exact le_total (key a) (key b)
  exact hSorted.imp of_decide_eq_true

/- Two lists in strict order are equal if their sets are. -/
theorem eq_of_mem_iff
    {as bs : List α}
    (hFirst : as.Pairwise fun a b => key a < key b)
    (hSecond : bs.Pairwise fun a b => key a < key b)
    (hMem : ∀ a, a ∈ as ↔ a ∈ bs) :
    as = bs := by
  have : Std.Irrefl fun a b : α => key a < key b :=
    ⟨fun a => lt_irrefl (key a)⟩
  have : Std.Antisymm fun a b : α => key a < key b :=
    ⟨fun _ _ hLess hMore => absurd hMore (lt_asymm hLess)⟩
  exact hFirst.eq_of_mem_iff hSecond hMem

end Canonical

end Lib
