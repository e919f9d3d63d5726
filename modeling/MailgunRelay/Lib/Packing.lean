import Mathlib.Algebra.Ring.Nat

/-
  Things of given sizes put into boxes of one room, in order
  and each box as full as it can be.

  Key definitions include:
    * `Lib.Packing.Packs`
    * `Lib.Packing.fill`

  Key theorems include:
    * `Lib.Packing.Packs.fits`
    * `Lib.Packing.Packs.sum_last`
    * `Lib.Packing.prefix_of_sum_le`
-/

------------------------------------------------------------
-- Boxes
------------------------------------------------------------

namespace Lib

namespace Packing

variable {room : Nat}

/- No thing in a box that is closed would still fit. -/
inductive Packs (room : Nat) :
    List Nat → List (List Nat) → Prop where
  | nil : Packs room [] []
  | box
      {box rest : List Nat}
      {boxes : List (List Nat)}
      (hNonempty : box ≠ [])
      (hFits : box.sum ≤ room)
      (hFull : ∀ k ∈ rest.head?, room < box.sum + k)
      (hRest : Packs room rest boxes) :
      Packs room (box ++ rest) (box :: boxes)

/- How full the last box is, from one that holds so much. -/
def fill (room : Nat) (held : Nat) : List Nat → Nat
| [] => held
| k :: rest =>
    fill room (if room < held + k then k else held + k) rest

/- A size is at most a sum it is in. -/
theorem le_sum
    {sizes : List Nat}
    {k : Nat}
    (hMem : k ∈ sizes) :
    k ≤ sizes.sum := by
  rcases List.append_of_mem hMem with ⟨front, rest, rfl⟩
  rw [List.sum_append, List.sum_cons]
  omega

/- Everything that is packed fits a box. -/
theorem Packs.fits
    {sizes : List Nat}
    {boxes : List (List Nat)}
    (hPacks : Packs room sizes boxes) :
    ∀ k ∈ sizes, k ≤ room := by
  induction hPacks with
  | nil =>
      intro k hMem
      cases hMem
  | box hNonempty hFits hFull hRest ih =>
      intro k hMem
      rcases List.mem_append.mp hMem with hHere | hLater
      · exact Nat.le_trans (le_sum hHere) hFits
      · exact ih k hLater

/- What fits goes into the box. -/
theorem fill_append
    {held : Nat}
    {box : List Nat}
    (hFits : held + box.sum ≤ room)
    (rest : List Nat) :
    fill room held (box ++ rest) =
      fill room (held + box.sum) rest := by
  induction box generalizing held with
  | nil => rfl
  | cons k box ih =>
      rw [List.sum_cons] at hFits ⊢
      have hHere : ¬ room < held + k := by omega
      rw [List.cons_append, fill, if_neg hHere,
        ih (by omega), Nat.add_assoc]

/- What does not fit goes into a box of its own. -/
theorem fill_full
    {held : Nat}
    {rest : List Nat}
    (hNonempty : rest ≠ [])
    (hFull : ∀ k ∈ rest.head?, room < held + k) :
    fill room held rest = fill room 0 rest := by
  cases rest with
  | nil => exact absurd rfl hNonempty
  | cons k rest =>
      rw [fill, fill, if_pos (hFull k rfl), Nat.zero_add,
        ite_self]

/- The last box is as full as they say. -/
theorem Packs.sum_last
    {sizes : List Nat}
    {boxes : List (List Nat)}
    (hPacks : Packs room sizes boxes) :
    ∀ box ∈ boxes.getLast?, box.sum = fill room 0 sizes := by
  induction hPacks with
  | nil =>
      intro box hLast
      cases hLast
  | @box box rest boxes hNonempty hFits hFull hRest ih =>
      intro last hLast
      have hHere :
          fill room 0 (box ++ rest) =
            fill room box.sum rest := by
        rw [fill_append (by omega), Nat.zero_add]
      rw [hHere]
      cases hRest with
      | nil =>
          cases hLast
          rfl
      | @box next later boxes hNext hNextFits hNextFull hLater =>
          have hMore : next ++ later ≠ [] := by
            intro hNil
            exact hNext (List.append_eq_nil_iff.mp hNil).1
          rw [List.getLast?_cons_cons] at hLast
          rw [fill_full hMore hFull]
          exact ih last hLast

end Packing

end Lib

------------------------------------------------------------
-- Cuts Between Things
------------------------------------------------------------

namespace Lib

namespace Packing

/- A longer sum is one of more things. -/
theorem prefix_of_sum_le
    {front rest front' rest' : List Nat}
    (hPositive : ∀ k ∈ front ++ rest, 0 < k)
    (hSame : front ++ rest = front' ++ rest')
    (hLe : front.sum ≤ front'.sum) :
    ∃ box, front' = front ++ box ∧ rest = box ++ rest' := by
  rcases List.append_eq_append_iff.mp hSame with
    ⟨box, hFront, hRest⟩ | ⟨box, hFront, hRest⟩
  · exact ⟨box, hFront, hRest⟩
  · rw [hFront, List.sum_append] at hLe
    have hZero : box.sum = 0 := by omega
    cases box with
    | nil =>
        rw [List.append_nil] at hFront
        exact
          ⟨[], by rw [hFront, List.append_nil],
            by rw [hRest]; rfl⟩
    | cons k box =>
        have hHere : 0 < k := by
          apply hPositive
          rw [hFront]
          simp
        rw [List.sum_cons] at hZero
        omega

end Packing

end Lib
