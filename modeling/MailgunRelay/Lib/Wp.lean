/-
  Weakest preconditions of stateful computations that may
  stop with an error.

  A computation of `EStateM ε σ` keeps the state it reached
  when it throws, so a run has two kinds of exit and a
  postcondition for each: `Q` for a returned value, `E` for
  an error.  A specification of a computation is one
  `Lib.Wp` fact; `Lib.Wp.mono` weakens it where it is used.

  Where the first part of a computation is a chain of pure
  checks, `Lib.Reaches` says that it stops at the first
  failed check or gets to the rest.

  Key definitions include:
    * `Lib.Wp`
    * `Lib.attempt`
    * `Lib.Reaches`
    * `Lib.Leads`

  Key theorems include:
    * `Lib.wp_bind`
    * `Lib.Wp.mono`
    * `Lib.Wp.bind`
    * `Lib.Reaches.check`
    * `Lib.Leads.bind`
-/

------------------------------------------------------------
-- Exits
------------------------------------------------------------

namespace Lib

variable {ε σ α β : Type}

/- A run of `m` from `s` returns into `Q` or throws into `E`. -/
def Wp
    (m : EStateM ε σ α)
    (Q : α → σ → Prop)
    (E : ε → σ → Prop)
    (s : σ) : Prop :=
  match m s with
  | .ok a s' => Q a s'
  | .error e s' => E e s'

/- Run a total state transformer inside `EStateM`. -/
def attempt
    (call : σ → α × σ) : EStateM ε σ α :=
  fun s => .ok (call s).1 (call s).2

/- A pure result as a computation that throws its error. -/
def liftExcept
    (r : Except ε α) : EStateM ε σ α :=
  match r with
  | .ok a => pure a
  | .error e => throw e

end Lib

------------------------------------------------------------
-- Rules
------------------------------------------------------------

namespace Lib

variable {ε σ α β : Type}
variable {Q : α → σ → Prop} {E : ε → σ → Prop} {s : σ}

@[simp] theorem wp_pure
    (a : α) :
    Wp (pure a : EStateM ε σ α) Q E s ↔ Q a s :=
  Iff.rfl

@[simp] theorem wp_throw
    (e : ε) :
    Wp (throw e : EStateM ε σ α) Q E s ↔ E e s :=
  Iff.rfl

@[simp] theorem wp_attempt
    (call : σ → α × σ) :
    Wp (attempt call : EStateM ε σ α) Q E s ↔
      Q (call s).1 (call s).2 :=
  Iff.rfl

@[simp] theorem wp_modify
    (f : σ → σ)
    {Q : PUnit → σ → Prop} :
    Wp (modify f : EStateM ε σ PUnit) Q E s ↔
      Q ⟨⟩ (f s) :=
  Iff.rfl

@[simp] theorem wp_get
    {Q : σ → σ → Prop} :
    Wp (get : EStateM ε σ σ) Q E s ↔ Q s s :=
  Iff.rfl

/- Sequencing composes the preconditions. -/
@[simp] theorem wp_bind
    (m : EStateM ε σ α)
    (f : α → EStateM ε σ β)
    {Q : β → σ → Prop} :
    Wp (m >>= f) Q E s ↔
      Wp m (fun a => Wp (f a) Q E) E s := by
  show Wp (EStateM.bind m f) Q E s ↔ _
  simp only [Wp, EStateM.bind]
  cases m s <;> rfl

/- A handler continues from the state of the error. -/
@[simp] theorem wp_tryCatch
    (m : EStateM ε σ α)
    (handler : ε → EStateM ε σ α) :
    Wp (tryCatch m handler) Q E s ↔
      Wp m Q (fun e => Wp (handler e) Q E) s := by
  cases hRun : m s with
  | ok a s' =>
      have hAll : (tryCatch m handler) s = .ok a s' := by
        show EStateM.tryCatch m handler s = .ok a s'
        delta EStateM.tryCatch
        dsimp only
        rw [hRun]
      simp only [Wp, hAll, hRun]
  | error e s' =>
      have hAll : (tryCatch m handler) s = handler e s' := by
        show EStateM.tryCatch m handler s = handler e s'
        delta EStateM.tryCatch
        dsimp only
        rw [hRun]
        rfl
      simp only [Wp, hAll, hRun]

@[simp] theorem wp_liftExcept_ok
    (a : α) :
    Wp (liftExcept (.ok a) : EStateM ε σ α) Q E s ↔
      Q a s :=
  Iff.rfl

@[simp] theorem wp_liftExcept_error
    (e : ε) :
    Wp (liftExcept (.error e) : EStateM ε σ α) Q E s ↔
      E e s :=
  Iff.rfl

/- Weaker postconditions have a weaker precondition. -/
theorem Wp.mono
    {m : EStateM ε σ α}
    {Q Q' : α → σ → Prop}
    {E E' : ε → σ → Prop}
    (h : Wp m Q E s)
    (hQ : ∀ a s', Q a s' → Q' a s')
    (hE : ∀ e s', E e s' → E' e s') :
    Wp m Q' E' s := by
  unfold Wp at h ⊢
  cases hRun : m s with
  | ok a s' =>
      rw [hRun] at h
      exact hQ a s' h
  | error e s' =>
      rw [hRun] at h
      exact hE e s' h

/- Continue from the returned states of a specification. -/
theorem Wp.bind
    {m : EStateM ε σ α}
    {f : α → EStateM ε σ β}
    {P : α → σ → Prop}
    {Q : β → σ → Prop}
    (h : Wp m P E s)
    (hNext : ∀ a s', P a s' → Wp (f a) Q E s') :
    Wp (m >>= f) Q E s :=
  wp_bind m f |>.mpr
    (h.mono hNext (fun _ _ hE => hE))

/- A specification read off a finished run. -/
theorem Wp.of_ok
    {m : EStateM ε σ α}
    {a : α} {s' : σ}
    (h : Wp m Q E s)
    (hRun : m s = .ok a s') :
    Q a s' := by
  simpa only [Wp, hRun] using h

/- A specification read off a run that threw. -/
theorem Wp.of_error
    {m : EStateM ε σ α}
    {e : ε} {s' : σ}
    (h : Wp m Q E s)
    (hRun : m s = .error e s') :
    E e s' := by
  simpa only [Wp, hRun] using h

end Lib

------------------------------------------------------------
-- Pure Checks
------------------------------------------------------------

namespace Lib

/-
  From `s` on, `m` stops with the error of a result, or goes
  on with its value; up to there only quiet changes happen.
-/
def Reaches
    {σ ε ε' α β : Type}
    (quiet : σ → σ → Prop)
    (raise : ε → ε')
    (m : EStateM ε' σ β)
    (result : Except ε α)
    (next : α → EStateM ε' σ β)
    (s : σ) : Prop :=
  ∃ s', quiet s s' ∧
    m s =
      match result with
      | .error e => .error (raise e) s'
      | .ok a => next a s'

variable {σ ε ε' α β γ : Type}
variable {quiet : σ → σ → Prop} {raise : ε → ε'}
variable {result : Except ε α}
variable {next : α → EStateM ε' σ β}
variable {s : σ}

theorem Reaches.here
    (hQuiet : ∀ s, quiet s s)
    (a : α) :
    Reaches quiet raise (next a) (.ok a) next s :=
  ⟨s, hQuiet s, rfl⟩

theorem Reaches.stop
    (hQuiet : ∀ s, quiet s s)
    (e : ε) :
    Reaches quiet raise (throw (raise e)) (.error e) next s :=
  ⟨s, hQuiet s, rfl⟩

/- A check stops, or the rest decides. -/
theorem Reaches.check
    {check : Except ε γ → EStateM ε' σ γ}
    {checked : Except ε γ}
    {m : γ → EStateM ε' σ β}
    {rest : γ → Except ε α}
    (hQuiet : ∀ s, quiet s s)
    (hOk : ∀ a, check (.ok a) = pure a)
    (hError : ∀ e, check (.error e) = throw (raise e))
    (hRest : ∀ a, checked = .ok a →
      Reaches quiet raise (m a) (rest a) next s) :
    Reaches quiet raise (check checked >>= m)
      (checked >>= rest) next s := by
  cases hChecked : checked with
  | error e =>
      rw [hError]
      exact .stop hQuiet e
  | ok a =>
      rw [hOk]
      exact hRest a hChecked

/- A quiet change before the rest. -/
theorem Reaches.modify
    {f : σ → σ}
    {m : EStateM ε' σ β}
    (hTrans : ∀ {s s' s''},
      quiet s s' → quiet s' s'' → quiet s s'')
    (hChange : quiet s (f s))
    (hRest : Reaches quiet raise m result next (f s)) :
    Reaches quiet raise (modify f >>= fun _ => m) result
      next s := by
  rcases hRest with ⟨s', hQuiet, hRun⟩
  exact ⟨s', hTrans hChange hQuiet, hRun⟩

end Lib

------------------------------------------------------------
-- Both Exits
------------------------------------------------------------

namespace Lib

variable {ε σ α β : Type}
variable {R : σ → σ → Prop}

/- Each run of `m` leads to a state related to its start. -/
def Leads
    (R : σ → σ → Prop)
    (m : EStateM ε σ α) : Prop :=
  ∀ s, Wp m (fun _ s' => R s s') (fun _ s' => R s s') s

theorem Leads.of_pure
    (hRefl : ∀ s, R s s)
    (a : α) :
    Leads R (pure a : EStateM ε σ α) :=
  fun s => hRefl s

theorem Leads.of_throw
    (hRefl : ∀ s, R s s)
    (e : ε) :
    Leads R (throw e : EStateM ε σ α) :=
  fun s => hRefl s

theorem Leads.of_modify
    {f : σ → σ}
    (hChange : ∀ s, R s (f s)) :
    Leads R (modify f : EStateM ε σ PUnit) :=
  fun s => hChange s

theorem Leads.bind
    {m : EStateM ε σ α}
    {f : α → EStateM ε σ β}
    (hTrans : ∀ {s s' s''}, R s s' → R s' s'' → R s s'')
    (hFirst : Leads R m)
    (hRest : ∀ a, Leads R (f a)) :
    Leads R (m >>= f) := by
  intro s
  have hHere := hFirst s
  rw [wp_bind]
  unfold Wp at hHere ⊢
  cases hRun : m s with
  | error e s' =>
      rw [hRun] at hHere
      exact hHere
  | ok a s' =>
      rw [hRun] at hHere
      exact
        (hRest a s').mono (fun _ _ => hTrans hHere)
          (fun _ _ => hTrans hHere)

end Lib
