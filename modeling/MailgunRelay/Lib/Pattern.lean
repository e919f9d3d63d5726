import Mathlib.Computability.RegularExpressions

/-
  What all words of a regular expression have in common,
  read off its letters: which letters may stand in a word,
  and which must.

  Key definitions include:
    * `Lib.Pattern.allows`
    * `Lib.Pattern.needs`

  Key theorems include:
    * `Lib.Pattern.forall_of_allows`
    * `Lib.Pattern.exists_of_needs`
-/

------------------------------------------------------------
-- Letters Of Words
------------------------------------------------------------

namespace Lib

namespace Pattern

variable {α : Type}

/- All letters of the pattern satisfy `p`. -/
def allows
    (p : α → Bool) : RegularExpression α → Bool
| .zero => true
| .epsilon => true
| .char a => p a
| .plus r s => allows p r && allows p s
| .comp r s => allows p r && allows p s
| .star r => allows p r

/- No word is without a letter that satisfies `p`. -/
def needs
    (p : α → Bool) : RegularExpression α → Bool
| .zero => true
| .epsilon => false
| .char a => p a
| .plus r s => needs p r && needs p s
| .comp r s => needs p r || needs p s
| .star _ => false

theorem forall_of_matches
    {p : α → Bool}
    {r : RegularExpression α}
    (hAllows : allows p r = true)
    {word : List α}
    (hWord : word ∈ r.matches') :
    ∀ a ∈ word, p a = true := by
  induction r generalizing word with
  | zero => exact False.elim hWord
  | epsilon =>
      intro a hMem
      rw [show word = [] from hWord] at hMem
      exact absurd hMem List.not_mem_nil
  | char b =>
      intro a hMem
      rw [show word = [b] from hWord,
        List.mem_singleton] at hMem
      rw [hMem]
      exact hAllows
  | plus r s ihR ihS =>
      rcases Bool.and_eq_true_iff.mp hAllows with ⟨hR, hS⟩
      rcases hWord with hLeft | hRight
      · exact ihR hR hLeft
      · exact ihS hS hRight
  | comp r s ihR ihS =>
      rcases Bool.and_eq_true_iff.mp hAllows with ⟨hR, hS⟩
      rcases Language.mem_mul.mp hWord with
        ⟨left, hLeft, right, hRight, rfl⟩
      intro a hMem
      rcases List.mem_append.mp hMem with hMem | hMem
      · exact ihR hR hLeft a hMem
      · exact ihS hS hRight a hMem
  | star r ih =>
      rcases Language.mem_kstar.mp hWord with
        ⟨words, rfl, hWords⟩
      intro a hMem
      rcases List.mem_flatten.mp hMem with ⟨part, hPart, hMem⟩
      exact ih hAllows (hWords part hPart) a hMem

theorem exists_of_matches
    {p : α → Bool}
    {r : RegularExpression α}
    (hNeeds : needs p r = true)
    {word : List α}
    (hWord : word ∈ r.matches') :
    ∃ a ∈ word, p a = true := by
  induction r generalizing word with
  | zero => exact False.elim hWord
  | epsilon => cases hNeeds
  | char b =>
      rw [show word = [b] from hWord]
      exact ⟨b, List.mem_singleton_self b, hNeeds⟩
  | plus r s ihR ihS =>
      rcases Bool.and_eq_true_iff.mp hNeeds with ⟨hR, hS⟩
      rcases hWord with hLeft | hRight
      · exact ihR hR hLeft
      · exact ihS hS hRight
  | comp r s ihR ihS =>
      rcases Language.mem_mul.mp hWord with
        ⟨left, hLeft, right, hRight, rfl⟩
      rcases Bool.or_eq_true_iff.mp hNeeds with hR | hS
      · rcases ihR hR hLeft with ⟨a, hMem, hA⟩
        exact ⟨a, List.mem_append_left _ hMem, hA⟩
      · rcases ihS hS hRight with ⟨a, hMem, hA⟩
        exact ⟨a, List.mem_append_right _ hMem, hA⟩
  | star r ih => cases hNeeds

end Pattern

end Lib

------------------------------------------------------------
-- Letters Of Matched Text
------------------------------------------------------------

namespace Lib

namespace Pattern

variable {α : Type} [DecidableEq α]

theorem forall_of_allows
    {p : α → Bool}
    {r : RegularExpression α}
    (hAllows : allows p r = true)
    {text : List α}
    (hText : r.rmatch text = true) :
    ∀ a ∈ text, p a = true :=
  forall_of_matches hAllows
    ((RegularExpression.rmatch_iff_matches' r text).mp hText)

theorem exists_of_needs
    {p : α → Bool}
    {r : RegularExpression α}
    (hNeeds : needs p r = true)
    {text : List α}
    (hText : r.rmatch text = true) :
    ∃ a ∈ text, p a = true :=
  exists_of_matches hNeeds
    ((RegularExpression.rmatch_iff_matches' r text).mp hText)

end Pattern

end Lib
