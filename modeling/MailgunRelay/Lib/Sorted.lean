import Mathlib.Data.List.Basic

/-
  Neighbours in strictly sorted lists of numbers, such as
  the places where something occurs.

  Key theorems include:
    * `Lib.Sorted.side`
    * `Lib.Sorted.next`
-/

------------------------------------------------------------
-- Neighbours
------------------------------------------------------------

namespace Lib

/- Strictly sorted numbers. -/
abbrev Sorted (l : List Nat) : Prop :=
  l.Pairwise (· < ·)

namespace Sorted

variable {l front rest : List Nat} {a b x : Nat}

/- The side of a member on which another one stands. -/
theorem side
    (hSorted : Sorted l)
    (hSplit : l = front ++ a :: rest)
    (hMem : x ∈ l) :
    (x < a ∧ x ∈ front) ∨ x = a ∨ (a < x ∧ x ∈ rest) := by
  subst hSplit
  rcases List.pairwise_append.mp hSorted with
    ⟨-, hAfter, hAcross⟩
  rcases List.mem_append.mp hMem with hFront | hHere
  · exact
      .inl
        ⟨hAcross x hFront a List.mem_cons_self, hFront⟩
  · rcases List.mem_cons.mp hHere with rfl | hRest
    · exact .inr (.inl rfl)
    · exact
        .inr
          (.inr ⟨(List.pairwise_cons.mp hAfter).1 x hRest,
            hRest⟩)

/- Nothing stands between neighbours. -/
theorem not_between
    (hSorted : Sorted l)
    (hSplit : l = front ++ a :: b :: rest)
    (hMem : x ∈ l) :
    ¬ (a < x ∧ x < b) := by
  rintro ⟨hAbove, hBelow⟩
  rcases hSorted.side hSplit hMem with h | h | h
  · omega
  · omega
  · rcases h with ⟨-, hRest⟩
    subst hSplit
    have hAfter := (List.pairwise_append.mp hSorted).2.1
    have hFromB :=
      (List.pairwise_cons.mp
        (List.pairwise_cons.mp hAfter).2).1
    rcases List.mem_cons.mp hRest with rfl | hLater
    · omega
    · have hLess := hFromB x hLater
      omega

/- Two members with nothing between them are neighbours. -/
theorem next
    (hSorted : Sorted l)
    (hSplit : l = front ++ a :: rest)
    (hMem : b ∈ l)
    (hLess : a < b)
    (hNone : ∀ x ∈ l, ¬ (a < x ∧ x < b)) :
    ∃ rest', rest = b :: rest' := by
  rcases hSorted.side hSplit hMem with h | h | h
  · omega
  · omega
  · rcases h with ⟨-, hRest⟩
    subst hSplit
    have hAfter := (List.pairwise_append.mp hSorted).2.1
    cases rest with
    | nil => cases hRest
    | cons c rest' =>
        have hFromA := (List.pairwise_cons.mp hAfter).1
        have hFromC :=
          (List.pairwise_cons.mp
            (List.pairwise_cons.mp hAfter).2).1
        rcases List.mem_cons.mp hRest with rfl | hLater
        · exact ⟨rest', rfl⟩
        · have hAbove := hFromA c List.mem_cons_self
          have hBelow := hFromC b hLater
          exact absurd ⟨hAbove, hBelow⟩ (hNone c (by simp))

end Sorted

end Lib
