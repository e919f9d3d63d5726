import Mathlib.Data.List.Basic

/-
  Histories of events, oldest first.

  A discipline says which event may follow which history.
  `Lib.Trace.Lawful` lifts it to whole histories: every event
  was allowed by the events before it.  A component that
  appends one event at a time keeps the discipline as long
  as each event it appends is allowed, which is
  `Lib.Trace.Lawful.snoc`.

  Key definitions include:
    * `Lib.Trace.Lawful`

  Key theorems include:
    * `Lib.Trace.Lawful.snoc`
-/

------------------------------------------------------------
-- Lawful Histories
------------------------------------------------------------

namespace Lib

namespace Trace

variable {ε : Type}

/- Every event of the history was allowed when it happened. -/
def Lawful
    (allowed : List ε → ε → Prop)
    (history : List ε) : Prop :=
  ∀ before event after,
    history = before ++ event :: after →
      allowed before event

/- The empty history follows every discipline. -/
theorem lawful_nil
    (allowed : List ε → ε → Prop) :
    Lawful allowed [] := by
  intro before event after hSplit
  simp at hSplit

/- An allowed event extends a lawful history. -/
theorem Lawful.snoc
    {allowed : List ε → ε → Prop}
    {history : List ε}
    {event : ε}
    (hLawful : Lawful allowed history)
    (hAllowed : allowed history event) :
    Lawful allowed (history ++ [event]) := by
  intro before e after hSplit
  rcases List.eq_nil_or_concat after with hNil | ⟨init, last, hAfter⟩
  · subst hNil
    have hEq := List.append_inj' hSplit rfl
    have hEvent : event = e := by
      simpa using hEq.2
    rw [← hEq.1, ← hEvent]
    exact hAllowed
  · subst hAfter
    apply hLawful before e init
    have hShape :
        history ++ [event] =
          (before ++ e :: init) ++ [last] := by
      simpa using hSplit
    exact (List.append_inj' hShape rfl).1

end Trace

end Lib
