/-
  Computations that may go wrong: an index outside a list, a
  natural subtraction below zero, or a loop that does not
  end in the turns it is given.  A computation that is shown
  to be the lift of a plain one does none of these.

  Key definitions include:
    * `Lib.Fault`
    * `Lib.Checked`
    * `Lib.Checked.lift`
    * `Lib.Checked.sub`
    * `Lib.Checked.index`
    * `Lib.Checked.slice`

  Key theorems include:
    * `Lib.Checked.lift_bind`
    * `Lib.Checked.sub_of_le`
    * `Lib.Checked.slice_of_le`
-/

------------------------------------------------------------
-- Faults
------------------------------------------------------------

namespace Lib

/-
  An error that is returned, or a panic, or no end: `loops`
  is what a loop without turns left fails with.
-/
inductive Fault (ε : Type) where
  | error (e : ε)
  | panics
  | loops

abbrev Checked (ε α : Type) :=
  Except (Fault ε) α

namespace Checked

variable {ε α β : Type}

/- A result that was computed without a fault. -/
def lift : Except ε α → Checked ε α
| .ok a => .ok a
| .error e => .error (.error e)

@[simp] theorem lift_ok
    (a : α) :
    lift (.ok a : Except ε α) = .ok a :=
  rfl

/- A sequence has no fault if its parts have none. -/
theorem lift_bind
    {x : Checked ε α}
    {f : α → Checked ε β}
    {y : Except ε α}
    {g : α → Except ε β}
    (hFirst : x = lift y)
    (hNext : ∀ a, y = .ok a → f a = lift (g a)) :
    x >>= f = lift (y >>= g) := by
  subst hFirst
  cases y with
  | error e => rfl
  | ok a => exact hNext a rfl

end Checked

end Lib

------------------------------------------------------------
-- Indices
------------------------------------------------------------

namespace Lib

namespace Checked

variable {ε α : Type}

/- A subtraction of unsigned numbers. -/
def sub (a b : Nat) : Checked ε Nat :=
  if b ≤ a then
    .ok (a - b)
  else
    .error .panics

theorem sub_of_le
    {a b : Nat}
    (hLe : b ≤ a) :
    (sub a b : Checked ε Nat) = .ok (a - b) :=
  if_pos hLe

/- The element at an index. -/
def index (xs : List α) (i : Nat) : Checked ε α :=
  match xs[i]? with
  | some x => .ok x
  | none => .error .panics

theorem index_of_lt
    {xs : List α}
    {i : Nat}
    (hInside : i < xs.length) :
    (index xs i : Checked ε α) = .ok xs[i] := by
  unfold index
  rw [List.getElem?_eq_getElem hInside]

/- The elements between two indices. -/
def slice
    (xs : List α)
    (start stop : Nat) : Checked ε (List α) :=
  if start ≤ stop ∧ stop ≤ xs.length then
    .ok ((xs.drop start).take (stop - start))
  else
    .error .panics

theorem slice_of_le
    {xs : List α}
    {start stop : Nat}
    (hStart : start ≤ stop)
    (hStop : stop ≤ xs.length) :
    (slice xs start stop : Checked ε (List α)) =
      .ok ((xs.drop start).take (stop - start)) :=
  if_pos ⟨hStart, hStop⟩

end Checked

end Lib
