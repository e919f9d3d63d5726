import Mathlib.Algebra.Ring.Nat
import MailgunRelay.Lib.Folding

/-
  Text written in lines by a writer of which only two things
  are known: a line break stands in front of a space, and
  where a chunk may be moved to the next line it is, unless
  the line stays within a width.  `Ends` is the weakest
  condition under which no line grows beyond a limit.

  Key definitions include:
    * `Lib.Layout.lines`
    * `Lib.Layout.Chunk`
    * `Lib.Layout.Written`
    * `Lib.Layout.Ends`
    * `Lib.Layout.layout`

  Key theorems include:
    * `Lib.Layout.lines_append`
    * `Lib.Layout.Ends.append`
    * `Lib.Layout.Ends.folding`
    * `Lib.Layout.lines_le_of_ends`
    * `Lib.Layout.Written.folds`
-/

------------------------------------------------------------
-- Physical Lines
------------------------------------------------------------

namespace Lib

namespace Layout

/- What stands between the line breaks of a text. -/
def lines : List Char → List (List Char)
| [] => [[]]
| '\r' :: '\n' :: rest => [] :: lines rest
| c :: rest => (lines rest).modifyHead (c :: ·)

theorem lines_ne_nil
    (text : List Char) :
    lines text ≠ [] := by
  fun_induction lines text with
  | case1 => exact List.cons_ne_nil _ _
  | case2 rest ih => exact List.cons_ne_nil _ _
  | case3 c rest hBreak ih =>
      rcases List.exists_cons_of_ne_nil ih with
        ⟨first, others, hLines⟩
      rw [hLines]
      exact List.cons_ne_nil _ _

/- A line break ends a line, whatever stands before it. -/
theorem lines_append
    (front rest : List Char) :
    lines (front ++ '\r' :: '\n' :: rest) =
      lines front ++ lines rest := by
  fun_induction lines front with
  | case1 => rfl
  | case2 front ih =>
      rw [List.cons_append, List.cons_append, lines, ih]
      rfl
  | case3 c front hBreak ih =>
      rcases List.exists_cons_of_ne_nil (lines_ne_nil front) with
        ⟨first, others, hLines⟩
      rw [List.cons_append, lines, ih, hLines]
      · rfl
      · intro more hCr hLf
        cases front with
        | nil => cases hLf
        | cons d front =>
            cases hLf
            exact hBreak front hCr rfl

variable (weight : Char → Nat)

def size (text : List Char) : Nat :=
  (text.map weight).sum

theorem size_append
    (s t : List Char) :
    size weight (s ++ t) = size weight s + size weight t := by
  unfold size
  rw [List.map_append, List.sum_append]

/- A line is no longer than its text. -/
theorem size_le_of_mem_lines
    {text line : List Char}
    (hLine : line ∈ lines text) :
    size weight line ≤ size weight text := by
  fun_induction lines text generalizing line with
  | case1 =>
      rcases List.mem_singleton.mp hLine with rfl
      exact Nat.le_refl _
  | case2 rest ih =>
      rcases List.mem_cons.mp hLine with rfl | hLine
      · exact Nat.zero_le _
      · have hLe := ih hLine
        simp only [size, List.map_cons, List.sum_cons] at hLe ⊢
        omega
  | case3 c rest hBreak ih =>
      rcases List.exists_cons_of_ne_nil (lines_ne_nil rest) with
        ⟨first, others, hLines⟩
      rw [hLines] at hLine ih
      rcases List.mem_cons.mp hLine with rfl | hLine
      · have hLe := ih List.mem_cons_self
        simp only [size, List.map_cons, List.sum_cons] at hLe ⊢
        omega
      · have hLe := ih (List.mem_cons_of_mem first hLine)
        simp only [size, List.map_cons, List.sum_cons] at hLe ⊢
        omega

end Layout

end Lib

------------------------------------------------------------
-- Chunks
------------------------------------------------------------

namespace Lib

namespace Layout

/- A text that is not broken, and whether it moves. -/
structure Chunk where
  text : List Char
  folds : Bool

/- The chunk stays on a line that has grown to `n`. -/
def Chunk.Stays
    (chunk : Chunk)
    (weight : Char → Nat)
    (width n : Nat) : Prop :=
  chunk.folds = true → chunk.text.head? = some ' ' →
    n + size weight chunk.text ≤ width

/-
  What a writer may write for chunks, on a line that has
  grown to some size.
-/
inductive Written
    (weight : Char → Nat)
    (width : Nat) :
    Nat → List Chunk → List Char → Prop where
  | done
      {n : Nat} :
      Written weight width n [] []
  | stay
      {n : Nat}
      {chunk : Chunk}
      {chunks : List Chunk}
      {text : List Char}
      (hStays : chunk.Stays weight width n)
      (hRest : Written weight width
        (n + size weight chunk.text) chunks text) :
      Written weight width n (chunk :: chunks)
        (chunk.text ++ text)
  | fold
      {n : Nat}
      {chunk : Chunk}
      {chunks : List Chunk}
      {text : List Char}
      (hSpace : chunk.text.head? = some ' ')
      (hRest : Written weight width
        (size weight chunk.text) chunks text) :
      Written weight width n (chunk :: chunks)
        ('\r' :: '\n' :: chunk.text ++ text)

variable (weight : Char → Nat) (width most : Nat)

/-
  However the chunks are written, no line that is ended is
  longer than `most`, and the last one is as `Q` says.
-/
def Ends : List Chunk → (Nat → Prop) → Nat → Prop
| [], Q, n => Q n
| chunk :: chunks, Q, n =>
    (chunk.Stays weight width n →
      Ends chunks Q (n + size weight chunk.text)) ∧
    (chunk.text.head? = some ' ' →
      n ≤ most ∧ Ends chunks Q (size weight chunk.text))

variable {weight width most}

theorem Ends.mono
    {chunks : List Chunk}
    {P Q : Nat → Prop}
    {n : Nat}
    (hEnds : Ends weight width most chunks P n)
    (hMono : ∀ m, P m → Q m) :
    Ends weight width most chunks Q n := by
  induction chunks generalizing n with
  | nil => exact hMono n hEnds
  | cons chunk chunks ih =>
      exact
        ⟨fun hStays => ih (hEnds.1 hStays),
          fun hSpace =>
            ⟨(hEnds.2 hSpace).1, ih (hEnds.2 hSpace).2⟩⟩

/- One list of chunks after another. -/
theorem Ends.append
    {first second : List Chunk}
    {Q : Nat → Prop}
    {n : Nat}
    (hEnds : Ends weight width most first
      (Ends weight width most second Q) n) :
    Ends weight width most (first ++ second) Q n := by
  induction first generalizing n with
  | nil => exact hEnds
  | cons chunk chunks ih =>
      exact
        ⟨fun hStays => ih (hEnds.1 hStays),
          fun hSpace =>
            ⟨(hEnds.2 hSpace).1, ih (hEnds.2 hSpace).2⟩⟩

/- A chunk that fits the line, or else the next one. -/
theorem Ends.chunk
    {chunk : Chunk}
    {n k : Nat}
    (hLine : n ≤ most)
    (hFits : n + size weight chunk.text ≤ k) :
    Ends weight width most [chunk] (· ≤ k) n :=
  ⟨fun _ => hFits,
    fun _ => ⟨hLine, Nat.le_trans (Nat.le_add_left _ _) hFits⟩⟩

/- Chunks that fold keep the line within their own size. -/
theorem Ends.folding
    {chunks : List Chunk}
    {n k : Nat}
    (hLine : n ≤ k)
    (hWidth : width ≤ k)
    (hMost : k ≤ most)
    (hChunks : ∀ chunk ∈ chunks,
      chunk.folds = true ∧ chunk.text.head? = some ' ' ∧
        size weight chunk.text ≤ k) :
    Ends weight width most chunks (· ≤ k) n := by
  induction chunks generalizing n with
  | nil => exact hLine
  | cons chunk chunks ih =>
      rcases hChunks chunk List.mem_cons_self with
        ⟨hFold, hSpace, hSize⟩
      have hRest := fun c hMem =>
        hChunks c (List.mem_cons_of_mem chunk hMem)
      refine ⟨fun hStays => ?_, fun _ => ⟨?_, ?_⟩⟩
      · have hFits := hStays hFold hSpace
        exact ih (by omega) hRest
      · exact Nat.le_trans hLine hMost
      · exact ih hSize hRest

/- And so no line is longer than the limit. -/
theorem lines_le_of_ends
    {chunks : List Chunk}
    {n : Nat}
    {text front : List Char}
    (hWritten : Written weight width n chunks text)
    (hFront : size weight front = n)
    (hEnds : Ends weight width most chunks (· ≤ most) n)
    {line : List Char}
    (hLine : line ∈ lines (front ++ text)) :
    size weight line ≤ most := by
  induction hWritten generalizing front with
  | done =>
      rw [List.append_nil] at hLine
      have hLe := size_le_of_mem_lines weight hLine
      rw [hFront] at hLe
      exact Nat.le_trans hLe hEnds
  | stay hStays hRest ih =>
      rw [← List.append_assoc] at hLine
      apply ih _ (hEnds.1 hStays) hLine
      rw [size_append, hFront]
  | fold hSpace hRest ih =>
      rw [List.cons_append, List.cons_append, lines_append,
        List.mem_append] at hLine
      rcases hLine with hLine | hLine
      · have hLe := size_le_of_mem_lines weight hLine
        rw [hFront] at hLe
        exact Nat.le_trans hLe (hEnds.2 hSpace).1
      · exact ih rfl (hEnds.2 hSpace).2 hLine

/- What is written is the text of the chunks, folded. -/
theorem Written.folds
    {chunks : List Chunk}
    {n : Nat}
    {text : List Char}
    (hWritten : Written weight width n chunks text) :
    Folding.Folds text (chunks.flatMap Chunk.text) := by
  induction hWritten with
  | done => exact .nil
  | stay hStays hRest ih =>
      rw [List.flatMap_cons]
      exact ih.append_left _
  | @fold n chunk chunks text hSpace hRest ih =>
      rw [List.flatMap_cons]
      cases hText : chunk.text with
      | nil =>
          rw [hText] at hSpace
          cases hSpace
      | cons c later =>
          rw [hText] at hSpace
          cases hSpace
          exact .fold (ih.append_left later)

end Layout

end Lib

------------------------------------------------------------
-- A Writer
------------------------------------------------------------

namespace Lib

namespace Layout

variable (weight : Char → Nat) (width : Nat)

instance
    (chunk : Chunk)
    (n : Nat) :
    Decidable (chunk.Stays weight width n) :=
  inferInstanceAs (Decidable (_ → _ → _))

/- It breaks a line only where it has to. -/
def layout : Nat → List Chunk → List Char
| _, [] => []
| n, chunk :: chunks =>
    if chunk.Stays weight width n then
      chunk.text ++
        layout (n + size weight chunk.text) chunks
    else
      '\r' :: '\n' :: chunk.text ++
        layout (size weight chunk.text) chunks

theorem layout_written
    (n : Nat)
    (chunks : List Chunk) :
    Written weight width n chunks
      (layout weight width n chunks) := by
  induction chunks generalizing n with
  | nil => exact .done
  | cons chunk chunks ih =>
      rw [layout]
      split
      case isTrue hStays => exact .stay hStays (ih _)
      case isFalse hMoves =>
        apply Written.fold _ (ih _)
        by_contra hSpace
        exact hMoves fun _ hHead => absurd hHead hSpace

end Layout

end Lib
