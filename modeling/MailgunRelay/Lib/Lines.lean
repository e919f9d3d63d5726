import Mathlib.Data.List.Basic
import MailgunRelay.Lib.Folding

/-
  The lines of a text: CRLF, a CR that no LF follows and an
  LF on its own end a line each.

  Key definitions include:
    * `Lib.Lines.split`
    * `Lib.Lines.joined`
    * `Lib.Lines.every`
    * `Lib.Lines.EndsInBreak`
    * `Lib.Lines.Paired`

  Key theorems include:
    * `Lib.Lines.split_break`
    * `Lib.Lines.split_last_iff`
    * `Lib.Lines.split_joined`
    * `Lib.Lines.joined_paired`
-/

------------------------------------------------------------
-- Lines
------------------------------------------------------------

namespace Lib

namespace Lines

open Folding (Unbroken)

/- The lines that are ended, and what follows the last. -/
def split : List Char → List (List Char) × List Char
| [] => ([], [])
| '\r' :: '\n' :: rest => ([] :: (split rest).1, (split rest).2)
| '\r' :: rest => ([] :: (split rest).1, (split rest).2)
| '\n' :: rest => ([] :: (split rest).1, (split rest).2)
| c :: rest =>
    match split rest with
    | ([], last) => ([], c :: last)
    | (line :: lines, last) => ((c :: line) :: lines, last)

/- The ways a line may end in front of a text. -/
inductive Break (rest : List Char) : List Char → Prop where
  | crlf : Break rest ['\r', '\n']
  | cr
      (hRest : rest.head? ≠ some '\n') :
      Break rest ['\r']
  | lf : Break rest ['\n']

/- Lines that are each ended with CRLF. -/
def joined (lines : List (List Char)) : List Char :=
  lines.flatMap (· ++ ['\r', '\n'])

/- Every line, also the last one if it is not ended. -/
def every (text : List Char) : List (List Char) :=
  (split text).1 ++
    if (split text).2 = [] then [] else [(split text).2]

theorem Unbroken.cons
    {c : Char}
    {text : List Char}
    (hText : Unbroken (c :: text)) :
    c ≠ '\r' ∧ c ≠ '\n' ∧ Unbroken text :=
  ⟨(hText c List.mem_cons_self).1,
    (hText c List.mem_cons_self).2,
    fun d hMem => hText d (List.mem_cons_of_mem _ hMem)⟩

theorem split_cons
    {c : Char}
    (hCr : c ≠ '\r')
    (hLf : c ≠ '\n')
    (rest : List Char) :
    split (c :: rest) =
      match split rest with
      | ([], last) => ([], c :: last)
      | (line :: lines, last) =>
          ((c :: line) :: lines, last) := by
  rw [split]
  · exact fun tail hEq _ => hCr hEq
  · exact hCr
  · exact hLf

/- A break ends the line in front of it. -/
theorem split_break
    {line brk rest : List Char}
    (hLine : Unbroken line)
    (hBreak : Break rest brk) :
    split (line ++ (brk ++ rest)) =
      (line :: (split rest).1, (split rest).2) := by
  induction line with
  | nil =>
      cases hBreak with
      | crlf => rfl
      | lf => rfl
      | cr hRest =>
          cases rest with
          | nil => rfl
          | cons d rest =>
              rw [List.nil_append, List.singleton_append,
                split]
              rintro tail hEq
              cases hEq
              exact hRest rfl
  | cons c line ih =>
      rcases Unbroken.cons hLine with ⟨hCr, hLf, hRest⟩
      rw [List.cons_append, split_cons hCr hLf, ih hRest]

/- The lines have no breaks in them. -/
theorem split_lines
    (text : List Char) :
    (∀ line ∈ (split text).1, Unbroken line) ∧
      Unbroken (split text).2 := by
  fun_induction split text with
  | case1 => exact ⟨nofun, nofun⟩
  | case2 rest ih =>
      exact ⟨List.forall_mem_cons.mpr ⟨nofun, ih.1⟩, ih.2⟩
  | case3 rest hNext ih =>
      exact ⟨List.forall_mem_cons.mpr ⟨nofun, ih.1⟩, ih.2⟩
  | case4 rest ih =>
      exact ⟨List.forall_mem_cons.mpr ⟨nofun, ih.1⟩, ih.2⟩
  | case5 c rest hPair hCr hLf last hSplit ih =>
      rw [hSplit] at ih
      exact
        ⟨nofun,
          List.forall_mem_cons.mpr ⟨⟨hCr, hLf⟩, ih.2⟩⟩
  | case6 c rest hPair hCr hLf line lines last hSplit ih =>
      rw [hSplit] at ih
      have hLines := List.forall_mem_cons.mp ih.1
      exact
        ⟨List.forall_mem_cons.mpr
            ⟨List.forall_mem_cons.mpr
                ⟨⟨hCr, hLf⟩, hLines.1⟩,
              hLines.2⟩,
          ih.2⟩

theorem eq_nil_of_split
    {text : List Char}
    (hSplit : split text = ([], [])) :
    text = [] := by
  fun_induction split text with
  | case1 => rfl
  | case2 => cases hSplit
  | case3 => cases hSplit
  | case4 => cases hSplit
  | case5 => cases hSplit
  | case6 => cases hSplit

/- The last character belongs to a line break. -/
def EndsInBreak (text : List Char) : Prop :=
  text.getLast? = some '\r' ∨ text.getLast? = some '\n'

theorem endsInBreak_cons_iff
    {c : Char}
    {text : List Char}
    (hText : text ≠ []) :
    EndsInBreak (c :: text) ↔ EndsInBreak text := by
  cases text with
  | nil => exact absurd rfl hText
  | cons d text =>
      unfold EndsInBreak
      rw [List.getLast?_cons_cons]

/- After a break, the rest decides what is left open. -/
theorem split_break_last
    {brk : Char}
    {rest : List Char}
    (hBreak : brk = '\r' ∨ brk = '\n')
    (hRest :
      rest ≠ [] → ((split rest).2 = [] ↔ EndsInBreak rest)) :
    (split rest).2 = [] ↔ EndsInBreak (brk :: rest) := by
  by_cases hNil : rest = []
  · subst hNil
    refine ⟨fun _ => ?_, fun _ => rfl⟩
    rcases hBreak with rfl | rfl
    · exact .inl rfl
    · exact .inr rfl
  · rw [endsInBreak_cons_iff hNil]
    exact hRest hNil

/- No line is open if the text ends in a break. -/
theorem split_last_iff
    {text : List Char}
    (hText : text ≠ []) :
    (split text).2 = [] ↔ EndsInBreak text := by
  fun_induction split text with
  | case1 => exact absurd rfl hText
  | case2 rest ih =>
      rw [endsInBreak_cons_iff (List.cons_ne_nil _ _)]
      exact split_break_last (.inr rfl) ih
  | case3 rest hNext ih => exact split_break_last (.inl rfl) ih
  | case4 rest ih => exact split_break_last (.inr rfl) ih
  | case5 c rest hPair hCr hLf last hSplit ih =>
      refine ⟨nofun, fun hEnds => ?_⟩
      exfalso
      by_cases hNil : rest = []
      · subst hNil
        rcases hEnds with hEnds | hEnds
        · exact hCr (Option.some.inj hEnds)
        · exact hLf (Option.some.inj hEnds)
      · rw [endsInBreak_cons_iff hNil, ← ih hNil] at hEnds
        rw [hSplit] at hEnds
        apply hNil (eq_nil_of_split _)
        rw [hSplit]
        exact congrArg _ hEnds
  | case6 c rest hPair hCr hLf line lines last hSplit ih =>
      have hNil : rest ≠ [] := by
        rintro rfl
        cases hSplit
      rw [endsInBreak_cons_iff hNil, ← ih hNil, hSplit]

/- Ended lines are split as they were joined. -/
theorem split_joined
    {lines : List (List Char)}
    (hLines : ∀ line ∈ lines, Unbroken line) :
    split (joined lines) = (lines, []) := by
  induction lines with
  | nil => rfl
  | cons line lines ih =>
      rw [List.forall_mem_cons] at hLines
      have hHead :
          joined (line :: lines) =
            line ++ (['\r', '\n'] ++ joined lines) := by
        rw [joined, List.flatMap_cons, List.append_assoc]
        rfl
      rw [hHead, split_break hLines.1 .crlf, ih hLines.2]

end Lines

end Lib

------------------------------------------------------------
-- Pairs
------------------------------------------------------------

namespace Lib

namespace Lines

open Folding (Unbroken)

/- Every CR is followed by LF, and every LF follows a CR. -/
structure Paired (text : List Char) : Prop where
  cr :
    ∀ front rest, text = front ++ '\r' :: rest →
      ∃ after, rest = '\n' :: after
  lf :
    ∀ front rest, text = front ++ '\n' :: rest →
      ∃ before, front = before ++ ['\r']

theorem Paired.append
    {a b : List Char}
    (hA : Paired a)
    (hB : Paired b) :
    Paired (a ++ b) := by
  constructor
  · intro front rest hText
    rcases List.append_eq_append_iff.mp hText with
      ⟨skipped, -, hRest⟩ | ⟨middle, hFront, hRest⟩
    · exact hB.cr skipped rest hRest
    · cases middle with
      | nil =>
          rw [List.nil_append] at hRest
          exact hB.cr [] rest hRest.symm
      | cons c middle =>
          rcases List.cons.inj hRest with ⟨rfl, rfl⟩
          rcases hA.cr front middle hFront with ⟨after, rfl⟩
          exact ⟨after ++ b, rfl⟩
  · intro front rest hText
    rcases List.append_eq_append_iff.mp hText with
      ⟨skipped, hFront, hRest⟩ | ⟨middle, hFront, hRest⟩
    · rcases hB.lf skipped rest hRest with ⟨before, rfl⟩
      exact ⟨a ++ before, by rw [hFront, List.append_assoc]⟩
    · cases middle with
      | nil =>
          rw [List.nil_append] at hRest
          rcases hB.lf [] rest hRest.symm with ⟨before, hEmpty⟩
          cases before <;> cases hEmpty
      | cons c middle =>
          rcases List.cons.inj hRest with ⟨rfl, rfl⟩
          exact hA.lf front middle hFront

theorem Unbroken.paired
    {text : List Char}
    (hText : Unbroken text) :
    Paired text := by
  constructor
  · rintro front rest rfl
    exact absurd rfl (hText '\r' (by simp)).1
  · rintro front rest rfl
    exact absurd rfl (hText '\n' (by simp)).2

theorem crlf_paired :
    Paired ['\r', '\n'] := by
  constructor
  · intro front rest hText
    cases front with
    | nil =>
        cases hText
        exact ⟨[], rfl⟩
    | cons a front =>
        cases front with
        | nil => cases hText
        | cons b front =>
            have hLength := congrArg List.length hText
            simp at hLength
  · intro front rest hText
    cases front with
    | nil => cases hText
    | cons a front =>
        cases front with
        | nil =>
            cases hText
            exact ⟨[], rfl⟩
        | cons b front =>
            have hLength := congrArg List.length hText
            simp at hLength

/- Ended lines have no other break. -/
theorem joined_paired
    {lines : List (List Char)}
    (hLines : ∀ line ∈ lines, Unbroken line) :
    Paired (joined lines) := by
  induction lines with
  | nil => exact Unbroken.paired nofun
  | cons line lines ih =>
      rw [List.forall_mem_cons] at hLines
      rw [joined, List.flatMap_cons]
      exact
        ((Unbroken.paired hLines.1).append crlf_paired).append
          (ih hLines.2)

end Lines

end Lib
