import Mathlib.Data.List.Basic

/-
  Folding of header text: a line break may stand in front of
  a space, and unfolding drops it again.

  Key definitions include:
    * `Lib.Folding.Folds`
    * `Lib.Folding.unfold`
    * `Lib.Folding.OnlyFolds`

  Key theorems include:
    * `Lib.Folding.Folds.unfold_eq`
    * `Lib.Folding.Folds.onlyFolds`
-/

------------------------------------------------------------
-- Folds
------------------------------------------------------------

namespace Lib

namespace Folding

/- A text with line breaks in front of some spaces. -/
inductive Folds : List Char → List Char → Prop where
  | nil : Folds [] []
  | keep
      {c : Char} {folded text : List Char}
      (hRest : Folds folded text) :
      Folds (c :: folded) (c :: text)
  | fold
      {folded text : List Char}
      (hRest : Folds folded text) :
      Folds ('\r' :: '\n' :: ' ' :: folded) (' ' :: text)

/- A text without line breaks. -/
def Unbroken (text : List Char) : Prop :=
  ∀ c ∈ text, c ≠ '\r' ∧ c ≠ '\n'

/- Drop the line breaks in front of white space. -/
def unfold : List Char → List Char
| '\r' :: '\n' :: ' ' :: rest => ' ' :: unfold rest
| '\r' :: '\n' :: '\t' :: rest => '\t' :: unfold rest
| c :: rest => c :: unfold rest
| [] => []

/-
  Every CR is followed by LF and a space, and every LF
  stands between a CR and a space.
-/
structure OnlyFolds (text : List Char) : Prop where
  cr :
    ∀ front rest, text = front ++ '\r' :: rest →
      ∃ after, rest = '\n' :: ' ' :: after
  lf :
    ∀ front rest, text = front ++ '\n' :: rest →
      ∃ before after,
        front = before ++ ['\r'] ∧ rest = ' ' :: after

/- Text that is not broken is its own folding. -/
theorem Folds.refl
    (text : List Char) :
    Folds text text := by
  induction text with
  | nil => exact .nil
  | cons c text ih => exact .keep ih

/- The same text in front of both. -/
theorem Folds.append_left
    {folded text : List Char}
    (hRest : Folds folded text)
    (front : List Char) :
    Folds (front ++ folded) (front ++ text) := by
  induction front with
  | nil => exact hRest
  | cons c front ih => exact .keep ih

/- A character that breaks no line is kept. -/
theorem unfold_cons
    {c : Char}
    (hPlain : c ≠ '\r')
    (rest : List Char) :
    unfold (c :: rest) = c :: unfold rest := by
  rw [unfold.eq_def]
  split
  · rename_i hCons
    cases hCons
    exact absurd rfl hPlain
  · rename_i hCons
    cases hCons
    exact absurd rfl hPlain
  · rename_i hCons
    cases hCons
    rfl
  · rename_i hCons
    cases hCons

/- Unfolding gives the text back. -/
theorem Folds.unfold_eq
    {folded text : List Char}
    (hFolds : Folds folded text)
    (hUnbroken : Unbroken text) :
    unfold folded = text := by
  induction hFolds with
  | nil => rfl
  | @keep c folded text hRest ih =>
      have hFirst := hUnbroken c List.mem_cons_self
      rw [unfold_cons hFirst.1, ih fun d hMem =>
        hUnbroken d (List.mem_cons_of_mem _ hMem)]
  | fold hRest ih =>
      rw [unfold, ih fun d hMem =>
        hUnbroken d (List.mem_cons_of_mem _ hMem)]

theorem OnlyFolds.nil : OnlyFolds [] := by
  constructor
  · intro front rest hSplit
    simp at hSplit
  · intro front rest hSplit
    simp at hSplit

/- A character that breaks no line, and more. -/
theorem OnlyFolds.keep
    {c : Char}
    {text : List Char}
    (hPlain : c ≠ '\r' ∧ c ≠ '\n')
    (hRest : OnlyFolds text) :
    OnlyFolds (c :: text) := by
  constructor
  · intro front rest hSplit
    cases front with
    | nil =>
        cases hSplit
        exact absurd rfl hPlain.1
    | cons d front =>
        cases hSplit
        exact hRest.cr front rest rfl
  · intro front rest hSplit
    cases front with
    | nil =>
        cases hSplit
        exact absurd rfl hPlain.2
    | cons d front =>
        cases hSplit
        rcases hRest.lf front rest rfl with
          ⟨before, after, rfl, hAfter⟩
        exact ⟨c :: before, after, rfl, hAfter⟩

/- A line break in front of a space, and more. -/
theorem OnlyFolds.fold
    {text : List Char}
    (hRest : OnlyFolds text) :
    OnlyFolds ('\r' :: '\n' :: ' ' :: text) := by
  have hSpace : OnlyFolds (' ' :: text) :=
    .keep (by decide) hRest
  constructor
  · intro front rest hSplit
    match front with
    | [] =>
        cases hSplit
        exact ⟨text, rfl⟩
    | [_] => cases hSplit
    | c :: d :: front =>
        injection hSplit with hFirst hSplit
        injection hSplit with hSecond hSplit
        exact hSpace.cr front rest hSplit
  · intro front rest hSplit
    match front with
    | [] => cases hSplit
    | [_] =>
        cases hSplit
        exact ⟨[], text, rfl, rfl⟩
    | c :: d :: front =>
        injection hSplit with hFirst hSplit
        injection hSplit with hSecond hSplit
        rcases hSpace.lf front rest hSplit with
          ⟨before, after, rfl, hAfter⟩
        exact ⟨c :: d :: before, after, rfl, hAfter⟩

/- Folded text has no line breaks but its folds. -/
theorem Folds.onlyFolds
    {folded text : List Char}
    (hFolds : Folds folded text)
    (hUnbroken : Unbroken text) :
    OnlyFolds folded := by
  induction hFolds with
  | nil => exact .nil
  | @keep c folded text hRest ih =>
      exact
        .keep (hUnbroken c List.mem_cons_self)
          (ih fun d hMem =>
            hUnbroken d (List.mem_cons_of_mem _ hMem))
  | fold hRest ih =>
      exact
        .fold (ih fun d hMem =>
          hUnbroken d (List.mem_cons_of_mem _ hMem))

end Folding

end Lib
