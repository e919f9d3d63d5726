/-
  Sequencing of results that may be errors, and results of
  two computations that are alike: both return related
  values, or both fail with related errors.  A result for a
  beginning of some input may settle the one for the whole.
  One computation may be another one, made narrower by a
  condition.

  Key definitions include:
    * `Lib.Alike`
    * `Lib.Settles`
    * `Lib.Narrows`

  Key theorems include:
    * `Lib.bind_eq_ok_iff`
    * `Lib.bind_eq_error_iff`
    * `Lib.bind_eq_mapError`
    * `Lib.Alike.bind`
    * `Lib.Settles.bind`
    * `Lib.Narrows.bind`
-/

------------------------------------------------------------
-- Results
------------------------------------------------------------

namespace Lib

variable {ε α β : Type}

@[simp] theorem ok_bind
    (a : α)
    (f : α → Except ε β) :
    ((Except.ok a : Except ε α) >>= f) = f a :=
  rfl

@[simp] theorem error_bind
    (e : ε)
    (f : α → Except ε β) :
    ((Except.error e : Except ε α) >>= f) = .error e :=
  rfl

/- A sequence succeeds if both of its parts do. -/
theorem bind_eq_ok_iff
    {x : Except ε α}
    {f : α → Except ε β}
    {b : β} :
    (x >>= f) = .ok b ↔ ∃ a, x = .ok a ∧ f a = .ok b := by
  cases x with
  | error e => simp
  | ok a => simp

/- A sequence fails where its first part or its second does. -/
theorem bind_eq_error_iff
    {x : Except ε α}
    {f : α → Except ε β}
    {e : ε} :
    (x >>= f) = .error e ↔
      x = .error e ∨ ∃ a, x = .ok a ∧ f a = .error e := by
  cases x with
  | error e' => simp
  | ok a => simp

/- A sequence whose errors are renamed step by step. -/
theorem bind_eq_mapError
    {ε' : Type}
    {g : ε → ε'}
    {x : Except ε α}
    {f : α → Except ε β}
    {x' : Except ε' α}
    {f' : α → Except ε' β}
    (hFirst : x' = x.mapError g)
    (hNext : ∀ a, f' a = (f a).mapError g) :
    (x' >>= f') = (x >>= f).mapError g := by
  rw [hFirst]
  cases x with
  | error e => rfl
  | ok a => exact hNext a

/- The error of a result, to be compared. -/
def errorOf : Except ε α → Option ε
| .error e => some e
| .ok _ => none

theorem eq_error_of_errorOf
    {x : Except ε α}
    {e : ε}
    (hError : errorOf x = some e) :
    x = .error e := by
  cases x with
  | error e' => rw [Option.some.inj hError]
  | ok a => cases hError

theorem exists_of_isOk
    {x : Except ε α}
    (hOk : x.isOk = true) :
    ∃ a, x = .ok a := by
  cases x with
  | error e => cases hOk
  | ok a => exact ⟨a, rfl⟩

end Lib

------------------------------------------------------------
-- Alike Results
------------------------------------------------------------

namespace Lib

variable {ε ε' α α' β β' : Type}

/- Both return into `R`, or both fail into `E`. -/
def Alike
    (E : ε → ε' → Prop)
    (R : α → α' → Prop) :
    Except ε α → Except ε' α' → Prop
| .ok a, .ok a' => R a a'
| .error e, .error e' => E e e'
| .ok _, .error _ => False
| .error _, .ok _ => False

/- Alike results, continued alike. -/
theorem Alike.bind
    {E : ε → ε' → Prop}
    {R : α → α' → Prop}
    {S : β → β' → Prop}
    {x : Except ε α}
    {x' : Except ε' α'}
    {f : α → Except ε β}
    {f' : α' → Except ε' β'}
    (hFirst : Alike E R x x')
    (hNext : ∀ a a', R a a' → Alike E S (f a) (f' a')) :
    Alike E S (x >>= f) (x' >>= f') := by
  cases x with
  | error e =>
      cases x' with
      | error e' => exact hFirst
      | ok a' => exact hFirst.elim
  | ok a =>
      cases x' with
      | error e' => exact hFirst.elim
      | ok a' => exact hNext a a' hFirst

/- The left result may become another value. -/
theorem Alike.map_left
    {E : ε → ε' → Prop}
    {R : α → α' → Prop}
    {S : β → α' → Prop}
    {x : Except ε α}
    {x' : Except ε' α'}
    {f : α → β}
    (h : Alike E R x x')
    (hValue : ∀ a a', R a a' → S (f a) a') :
    Alike E S (x >>= fun a => .ok (f a)) x' := by
  cases x with
  | error e => cases x' <;> exact h
  | ok a =>
      cases x' with
      | error e' => exact h
      | ok a' => exact hValue a a' h

end Lib

------------------------------------------------------------
-- Settled Results
------------------------------------------------------------

namespace Lib

variable {ε α β : Type} {stillOpen : ε → Prop}

/-
  The first result is final for the second one, or still
  open: a value is the same value, and an error that is not
  open is one.
-/
def Settles
    (stillOpen : ε → Prop) :
    Except ε α → Except ε α → Prop
| .ok a, y => y = .ok a
| .error e, y =>
    stillOpen e ∨ ∃ e', ¬ stillOpen e' ∧ y = .error e'

theorem Settles.refl
    (x : Except ε α) :
    Settles stillOpen x x := by
  cases x with
  | ok a => rfl
  | error e =>
      by_cases hOpen : stillOpen e
      · exact .inl hOpen
      · exact .inr ⟨e, hOpen, rfl⟩

theorem Settles.refused
    {e e' : ε}
    (hRefused : ¬ stillOpen e') :
    Settles (α := α) stillOpen (.error e) (.error e') :=
  .inr ⟨e', hRefused, rfl⟩

/- Settled results, continued. -/
theorem Settles.bind
    {x y : Except ε α}
    {f g : α → Except ε β}
    (hFirst : Settles stillOpen x y)
    (hNext :
      ∀ a, x = .ok a → Settles stillOpen (f a) (g a)) :
    Settles stillOpen (x >>= f) (y >>= g) := by
  cases x with
  | error e =>
      rcases hFirst with hOpen | ⟨e', hRefused, rfl⟩
      · exact .inl hOpen
      · exact .inr ⟨e', hRefused, rfl⟩
  | ok a =>
      have hSame : y = .ok a := hFirst
      rw [hSame]
      exact hNext a rfl

end Lib

------------------------------------------------------------
-- Narrower Results
------------------------------------------------------------

namespace Lib

variable {ε ε' α β : Type} {P Q : Prop}

/-
  The first succeeds where `P` holds and the second does,
  with the same value.
-/
def Narrows
    (P : Prop)
    (x : Except ε α)
    (y : Except ε' α) : Prop :=
  ∀ a, x = .ok a ↔ P ∧ y = .ok a

theorem Narrows.ok
    (hHolds : P)
    (a : α) :
    Narrows P (.ok a : Except ε α) (.ok a : Except ε' α) := by
  intro b
  constructor
  · intro hSame
    cases hSame
    exact ⟨hHolds, rfl⟩
  · rintro ⟨-, hSame⟩
    cases hSame
    rfl

theorem Narrows.error
    (e : ε)
    (e' : ε') :
    Narrows P (.error e : Except ε α)
      (.error e' : Except ε' α) := by
  intro b
  constructor
  · intro hSame
    cases hSame
  · rintro ⟨-, hSame⟩
    cases hSame

/- Where `P` fails, the second may do anything. -/
theorem Narrows.refused
    (hFails : ¬ P)
    (e : ε)
    (y : Except ε' α) :
    Narrows P (.error e : Except ε α) y := by
  intro b
  constructor
  · intro hSame
    cases hSame
  · rintro ⟨hHolds, -⟩
    exact absurd hHolds hFails

/- The condition may be stated in another way. -/
theorem Narrows.congr
    {x : Except ε α}
    {y : Except ε' α}
    (h : Narrows P x y)
    (hSame : P ↔ Q) :
    Narrows Q x y := by
  intro a
  rw [h a, hSame]

/- Narrower computations, continued more narrowly. -/
theorem Narrows.bind
    {x : Except ε α}
    {y : Except ε' α}
    {f : α → Except ε β}
    {g : α → Except ε' β}
    (hFirst : Narrows P x y)
    (hNext : ∀ a, y = .ok a → Narrows Q (f a) (g a)) :
    Narrows (P ∧ Q) (x >>= f) (y >>= g) := by
  intro b
  rw [bind_eq_ok_iff, bind_eq_ok_iff]
  constructor
  · rintro ⟨a, hHere, hThen⟩
    rcases (hFirst a).mp hHere with ⟨hP, hOther⟩
    rcases (hNext a hOther b).mp hThen with ⟨hQ, hAfter⟩
    exact ⟨⟨hP, hQ⟩, a, hOther, hAfter⟩
  · rintro ⟨⟨hP, hQ⟩, a, hOther, hAfter⟩
    exact
      ⟨a, (hFirst a).mpr ⟨hP, hOther⟩,
        (hNext a hOther b).mpr ⟨hQ, hAfter⟩⟩

/- A step that narrows nothing. -/
theorem Narrows.bind_same
    {x : Except ε α}
    {y : Except ε' α}
    {f : α → Except ε β}
    {g : α → Except ε' β}
    (hFirst : Narrows True x y)
    (hNext : ∀ a, y = .ok a → Narrows Q (f a) (g a)) :
    Narrows Q (x >>= f) (y >>= g) :=
  (hFirst.bind hNext).congr (Iff.of_eq (true_and Q))

/- The same function of both values. -/
theorem Narrows.map
    {x : Except ε α}
    {y : Except ε' α}
    (h : Narrows P x y)
    (f : α → β) :
    Narrows P (x.map f) (y.map f) := by
  intro b
  cases x with
  | error e =>
      cases y with
      | error e' => exact Narrows.error e e' b
      | ok a =>
          have hFails : ¬ P := by
            intro hHolds
            cases (h a).mpr ⟨hHolds, rfl⟩
          exact Narrows.refused hFails e _ b
  | ok a =>
      rcases (h a).mp rfl with ⟨hHolds, rfl⟩
      exact Narrows.ok hHolds (f a) b

end Lib
