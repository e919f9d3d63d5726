import MailgunRelay.Lib.Wp

/-
  Computations in stages, judged by what goes wrong first.

  Each stage comes with the list of its faults.  It returns
  if the list is empty and throws what the first fault is
  blamed with otherwise; in sequence the lists append, so a
  whole computation is judged by the first fault of all.
  Two computations with the same list end alike, whatever
  their states and errors are.

  Key definitions include:
    * `Lib.Judged`
    * `Lib.judgement`

  Key theorems include:
    * `Lib.Judged.bind`
    * `Lib.Judged.verdict`
-/

------------------------------------------------------------
-- Judged Computations
------------------------------------------------------------

namespace Lib

variable {ε σ α β φ κ : Type}

/-
  `m` returns from `s` into `P` if there are no faults, and
  throws an error that reads as the blame of the first one.
-/
def Judged
    (blame : φ → κ)
    (reads : ε → κ)
    (faults : List φ)
    (P : α → σ → Prop)
    (m : EStateM ε σ α)
    (s : σ) : Prop :=
  Wp m
    (fun a s' => faults = [] ∧ P a s')
    (fun e _ => faults.head?.map blame = some (reads e))
    s

variable {blame : φ → κ} {reads : ε → κ}

/- The first fault of the first faulty stage decides. -/
theorem Judged.bind
    {faults faults' : List φ}
    {P : α → σ → Prop}
    {Q : β → σ → Prop}
    {m : EStateM ε σ α}
    {f : α → EStateM ε σ β}
    {s : σ}
    (hFirst : Judged blame reads faults P m s)
    (hNext : ∀ a s', P a s' →
      Judged blame reads faults' Q (f a) s') :
    Judged blame reads (faults ++ faults') Q (m >>= f) s := by
  unfold Judged
  rw [wp_bind]
  refine hFirst.mono ?_ ?_
  · rintro a s' ⟨hNone, hP⟩
    rw [hNone, List.nil_append]
    exact hNext a s' hP
  · intro e s' hBlame
    cases faults with
    | nil => simp at hBlame
    | cons fault rest => exact hBlame

/- Weaken what is known after a stage. -/
theorem Judged.mono
    {faults : List φ}
    {P Q : α → σ → Prop}
    {m : EStateM ε σ α}
    {s : σ}
    (h : Judged blame reads faults P m s)
    (hPQ : ∀ a s', P a s' → Q a s') :
    Judged blame reads faults Q m s :=
  Wp.mono h (fun a s' hP => ⟨hP.1, hPQ a s' hP.2⟩)
    (fun _ _ hE => hE)

/- A stage that returns had no faults. -/
theorem Judged.known
    {faults : List φ}
    {P : α → σ → Prop}
    {m : EStateM ε σ α}
    {s : σ}
    (h : Judged blame reads faults P m s) :
    Judged blame reads faults
      (fun a s' => faults = [] ∧ P a s') m s :=
  Wp.mono h (fun _ _ hP => ⟨hP.1, hP⟩) (fun _ _ hE => hE)

/- A judgement read less closely. -/
theorem Judged.map
    {κ' : Type}
    {faults : List φ}
    {P : α → σ → Prop}
    {m : EStateM ε σ α}
    {s : σ}
    (f : κ → κ')
    (h : Judged blame reads faults P m s) :
    Judged (f ∘ blame) (f ∘ reads) faults P m s := by
  refine Wp.mono h (fun _ _ hP => hP) fun e _ hBlame => ?_
  rw [← Option.map_map, hBlame]
  rfl

/- A stage that returns at once. -/
theorem Judged.pure
    {P : α → σ → Prop}
    {a : α}
    {s : σ}
    (h : P a s) :
    Judged blame reads ([] : List φ) P
      (Pure.pure a : EStateM ε σ α) s :=
  ⟨rfl, h⟩

end Lib

------------------------------------------------------------
-- Judgements
------------------------------------------------------------

namespace Lib

variable {ε σ α φ κ : Type}

/- What a list of faults says about a computation. -/
def judgement
    (blame : φ → κ)
    (faults : List φ)
    (value : α) : Except κ α :=
  match faults.head? with
  | none => .ok value
  | some fault => .error (blame fault)

/- The exit of a run, with its error read. -/
def exitOf
    (reads : ε → κ) :
    EStateM.Result ε σ α → Except κ α
| .ok a _ => .ok a
| .error e _ => .error (reads e)

/- A judged computation ends with its verdict. -/
theorem Judged.verdict
    {blame : φ → κ}
    {reads : ε → κ}
    {faults : List φ}
    {value : α}
    {P : α → σ → Prop}
    {m : EStateM ε σ α}
    {s : σ}
    (h : Judged blame reads faults P m s)
    (hValue : ∀ a s', P a s' → a = value) :
    exitOf reads (m s) = judgement blame faults value := by
  cases hRun : m s with
  | ok a s' =>
      rcases h.of_ok hRun with ⟨hNone, hP⟩
      simp [exitOf, judgement, hNone, hValue a s' hP]
  | error e s' =>
      have hBlame := h.of_error hRun
      cases faults with
      | nil => simp at hBlame
      | cons fault rest =>
          simp only [List.head?_cons, Option.map_some,
            Option.some.injEq] at hBlame
          simp [exitOf, judgement, hBlame]

end Lib
