/-
  Runs of a system that makes one step for each event, where
  a step may be impossible.

  Key definitions include:
    * `Lib.run`

  Key theorems include:
    * `Lib.run_invariant`
    * `Lib.run_map`
    * `Lib.run_filter`
-/

------------------------------------------------------------
-- Runs
------------------------------------------------------------

namespace Lib

variable {σ ε : Type}

/- The state after some events, if all were possible. -/
def run
    (step : σ → ε → Option σ)
    (s : σ) : List ε → Option σ
| [] => some s
| e :: rest => (step s e).bind fun s' => run step s' rest

variable {step : σ → ε → Option σ}

/-
  What a step keeps, a run keeps.  The invariant may speak of
  the events that led to a state.
-/
theorem run_invariant
    {Inv : List ε → σ → Prop}
    (hStep : ∀ past s e s',
      Inv past s → step s e = some s' → Inv (past ++ [e]) s')
    {past events : List ε}
    {s s' : σ}
    (hInv : Inv past s)
    (hRun : run step s events = some s') :
    Inv (past ++ events) s' := by
  induction events generalizing past s with
  | nil =>
      cases hRun
      rw [List.append_nil]
      exact hInv
  | cons e rest ih =>
      unfold run at hRun
      rcases Option.bind_eq_some_iff.mp hRun with
        ⟨s₁, hFirst, hRest⟩
      have hAll := ih (hStep past s e s₁ hInv hFirst) hRest
      rwa [List.append_assoc] at hAll

/-
  A run seen through a map of the states that the steps
  respect.
-/
theorem run_map
    {f : σ → σ}
    {events : List ε}
    (hStep : ∀ e ∈ events, ∀ s,
      step (f s) e = (step s e).map f)
    (s : σ) :
    run step (f s) events = (run step s events).map f := by
  induction events generalizing s with
  | nil => rfl
  | cons e rest ih =>
      unfold run
      rw [hStep e List.mem_cons_self]
      cases step s e with
      | none => rfl
      | some s' =>
          exact
            ih
              (fun e' hRest =>
                hStep e' (List.mem_cons_of_mem e hRest))
              s'

/-
  The same without the events that the map does not see.
-/
theorem run_filter
    {f : σ → σ}
    {keep : ε → Bool}
    (hKept : ∀ s e, keep e = true →
      step (f s) e = (step s e).map f)
    (hDropped : ∀ s e s', keep e = false →
      step s e = some s' → f s' = f s)
    {events : List ε}
    {s s' : σ}
    (hRun : run step s events = some s') :
    run step (f s) (events.filter keep) = some (f s') := by
  induction events generalizing s with
  | nil =>
      cases hRun
      rfl
  | cons e rest ih =>
      unfold run at hRun
      rcases Option.bind_eq_some_iff.mp hRun with
        ⟨s₁, hFirst, hRest⟩
      have hTail := ih hRest
      cases hKeep : keep e with
      | true =>
          rw [List.filter_cons_of_pos hKeep]
          unfold run
          rw [hKept s e hKeep, hFirst]
          exact hTail
      | false =>
          rw [List.filter_cons_of_neg (by simp [hKeep]),
            ← hDropped s e s₁ hKeep hFirst]
          exact hTail

end Lib
