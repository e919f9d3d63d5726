import Mathlib.Algebra.Ring.Nat
import MailgunRelay.Lib.Run

/-
  Runs of steps that use something up.

  A step of some kind lessens what is left to do.  Then a
  run of such steps is no longer than what was left, and
  from each state there is one after which none is possible.

  Key theorems include:
    * `Lib.run_append`
    * `Lib.run_length_le`
    * `Lib.exists_exhausting_run`
    * `Lib.sum_map_set`
-/

------------------------------------------------------------
-- Runs That Come To An End
------------------------------------------------------------

namespace Lib

variable {σ ε : Type}
variable {step : σ → ε → Option σ}

/- One run after another. -/
theorem run_append
    (s : σ)
    (first second : List ε) :
    run step s (first ++ second) =
      (run step s first).bind fun s' => run step s' second := by
  induction first generalizing s with
  | nil => rfl
  | cons e rest ih =>
      rw [List.cons_append, run, run]
      cases step s e with
      | none => rfl
      | some s' => exact ih s'

/- A run is no longer than what is left. -/
theorem run_length_le
    {kind : ε → Prop}
    {left : σ → Nat}
    (hLess : ∀ s e s', kind e → step s e = some s' →
      left s' < left s)
    {events : List ε}
    (hKind : ∀ e ∈ events, kind e)
    {s s' : σ}
    (hRun : run step s events = some s') :
    events.length + left s' ≤ left s := by
  induction events generalizing s with
  | nil =>
      cases hRun
      exact Nat.le_of_eq (Nat.zero_add _)
  | cons e rest ih =>
      unfold run at hRun
      rcases Option.bind_eq_some_iff.mp hRun with
        ⟨s₁, hFirst, hRest⟩
      have hTail := ih
        (fun e' hMem => hKind e' (List.mem_cons_of_mem e hMem))
        hRest
      have hHead :=
        hLess s e s₁ (hKind e List.mem_cons_self) hFirst
      rw [List.length_cons]
      omega

/- From each state a run leads to where nothing is left. -/
theorem exists_exhausting_run
    {kind : ε → Prop}
    {left : σ → Nat}
    (hLess : ∀ s e s', kind e → step s e = some s' →
      left s' < left s)
    (s : σ) :
    ∃ events s', (∀ e ∈ events, kind e) ∧
      run step s events = some s' ∧
        ∀ e, kind e → step s' e = none := by
  induction hLeft : left s using Nat.strong_induction_on
    generalizing s with
  | _ n ih =>
      by_cases hStuck : ∀ e, kind e → step s e = none
      · refine ⟨[], s, ?_, rfl, hStuck⟩
        intro e hMem
        cases hMem
      · rcases not_forall.mp hStuck with ⟨e, hStep⟩
        rcases Classical.not_imp.mp hStep with ⟨hKind, hSome⟩
        rcases Option.ne_none_iff_exists'.mp hSome with
          ⟨s₁, hFirst⟩
        have hHead := hLess s e s₁ hKind hFirst
        rw [hLeft] at hHead
        rcases ih (left s₁) hHead s₁ rfl with
          ⟨events, s', hAll, hRun, hEnd⟩
        refine ⟨e :: events, s', ?_, ?_, hEnd⟩
        · intro e' hMem
          rcases List.mem_cons.mp hMem with rfl | hRest
          · exact hKind
          · exact hAll e' hRest
        · unfold run
          rw [hFirst, Option.bind_some, hRun]

end Lib

------------------------------------------------------------
-- Sums
------------------------------------------------------------

namespace Lib

variable {α : Type}

/- Replacing an element changes a sum by its share. -/
theorem sum_map_set
    (f : α → Nat)
    {xs : List α}
    {i : Nat}
    {x : α}
    (hAt : xs[i]? = some x)
    (y : α) :
    ((xs.set i y).map f).sum + f x = (xs.map f).sum + f y := by
  induction xs generalizing i with
  | nil => cases hAt
  | cons z xs ih =>
      cases i with
      | zero =>
          cases hAt
          rw [List.set_cons_zero, List.map_cons, List.map_cons,
            List.sum_cons, List.sum_cons]
          omega
      | succ i =>
          have hRest := ih hAt
          rw [List.set_cons_succ, List.map_cons, List.map_cons,
            List.sum_cons, List.sum_cons]
          omega

end Lib
