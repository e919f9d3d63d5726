import MailgunRelay.Lib.Checked

/-
  Computations that read an environment through lookups of
  named fields: what they look up decides their result, and
  a lookup that fails makes them fail.

  Key definitions include:
    * `Lib.Reads`

  Key theorems include:
    * `Lib.Reads.lookup`
    * `Lib.Reads.bind`
    * `Lib.Reads.fails`
-/

------------------------------------------------------------
-- Reads
------------------------------------------------------------

namespace Lib

variable {E F V ε α β : Type}

/-
  The computation `m` looks up `fields` and nothing else, it
  has no fault, and it needs every lookup to succeed.
-/
structure Reads
    (look : E → F → Except ε V)
    (fields : List F)
    (m : E → Checked ε α) : Prop where
  same : ∀ env env',
    (∀ f ∈ fields, look env f = look env' f) →
      m env = m env'
  plain : ∀ env, ∃ result, m env = Checked.lift result
  needs : ∀ env a, m env = .ok a →
    ∀ f ∈ fields, ∃ v, look env f = .ok v

namespace Reads

variable {look : E → F → Except ε V}

/- A result that does not depend on the environment. -/
theorem const
    (result : Except ε α) :
    Reads look [] fun _ => Checked.lift result where
  same := fun _ _ _ => rfl
  plain := fun _ => ⟨result, rfl⟩
  needs := fun _ _ _ _ hMem => by cases hMem

/- One lookup. -/
theorem lookup
    (f : F) :
    Reads look [f] fun env => Checked.lift (look env f) where
  same := fun env env' hSame => by
    rw [hSame f List.mem_cons_self]
  plain := fun env => ⟨look env f, rfl⟩
  needs := fun env a hOk f' hMem => by
    cases List.mem_singleton.mp hMem
    cases hLook : look env f with
    | error e =>
        rw [hLook] at hOk
        cases hOk
    | ok v => exact ⟨v, rfl⟩

/- A computation and one that goes on with its result. -/
theorem bind
    {first rest : List F}
    {m : E → Checked ε α}
    {k : α → E → Checked ε β}
    (hFirst : Reads look first m)
    (hNext : ∀ a, Reads look rest (k a)) :
    Reads look (first ++ rest) fun env =>
      m env >>= fun a => k a env where
  same := fun env env' hSame => by
    have hHere : m env = m env' :=
      hFirst.same env env' fun f hMem =>
        hSame f (List.mem_append_left rest hMem)
    have hThen : ∀ a, k a env = k a env' := fun a =>
      (hNext a).same env env' fun f hMem =>
        hSame f (List.mem_append_right first hMem)
    rw [hHere]
    exact congrArg (m env' >>= ·) (funext hThen)
  plain := fun env => by
    rcases hFirst.plain env with ⟨result, hResult⟩
    rw [hResult]
    cases result with
    | error e => exact ⟨.error e, rfl⟩
    | ok a => exact (hNext a).plain env
  needs := fun env b hOk f hMem => by
    cases hResult : m env with
    | error e =>
        rw [hResult] at hOk
        cases hOk
    | ok a =>
        rw [hResult] at hOk
        rcases List.mem_append.mp hMem with hHere | hThen
        · exact hFirst.needs env a hResult f hHere
        · exact (hNext a).needs env b hOk f hThen

/- A lookup that fails is an error, maybe an earlier one. -/
theorem fails
    {fields : List F}
    {m : E → Checked ε α}
    {env : E}
    {f : F}
    {e : ε}
    (hReads : Reads look fields m)
    (hMem : f ∈ fields)
    (hFails : look env f = .error e) :
    ∃ e', m env = .error (.error e') := by
  rcases hReads.plain env with ⟨result, hResult⟩
  cases result with
  | error e' => exact ⟨e', hResult⟩
  | ok a =>
      rcases hReads.needs env a hResult f hMem with ⟨v, hLook⟩
      rw [hFails] at hLook
      cases hLook

end Reads

end Lib
