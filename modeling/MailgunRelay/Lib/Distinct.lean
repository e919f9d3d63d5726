import Mathlib.Data.List.Basic

/-
  The distinct elements of a list by first occurrence.

  Key definitions include:
    * `Lib.FirstOccurrences`

  Key theorems include:
    * `Lib.FirstOccurrences.nodup`
    * `Lib.FirstOccurrences.count_eq_one`
-/

------------------------------------------------------------
-- First Occurrences
------------------------------------------------------------

namespace Lib

variable {α : Type} [BEq α] [LawfulBEq α]

/-
  `ys` lists the elements of `xs`, each once, in the order
  of their first occurrences.
-/
structure FirstOccurrences (xs ys : List α) : Prop where
  mem : ∀ a, a ∈ ys ↔ a ∈ xs
  order :
    ys.Pairwise fun a b => xs.idxOf a < xs.idxOf b

omit [LawfulBEq α] in
/- Each element is listed once. -/
theorem FirstOccurrences.nodup
    {xs ys : List α}
    (h : FirstOccurrences xs ys) :
    ys.Nodup :=
  h.order.imp fun hLess hEq => by
    rw [hEq] at hLess
    exact Nat.lt_irrefl _ hLess

/- An element is counted once, however often it occurs. -/
theorem FirstOccurrences.count_eq_one
    {xs ys : List α}
    {a : α}
    (h : FirstOccurrences xs ys)
    (hMem : a ∈ xs) :
    ys.count a = 1 := by
  rw [h.nodup.count, if_pos ((h.mem a).mpr hMem)]

end Lib
