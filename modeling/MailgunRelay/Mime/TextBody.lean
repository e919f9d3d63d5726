import MailgunRelay.Lib.Lines
import MailgunRelay.Mime.Writing
import MailgunRelay.Smtp.Session

/-
  Text bodies: a text part holds the lines of its text, each
  ended with CRLF, and a single part is received with just
  these lines.

  Key definitions include:
    * `MailgunRelay.Mime.stored`
    * `MailgunRelay.Mime.delivered`

  Key theorems include:
    * `MailgunRelay.Mime.normaliseLines_eq`
    * `MailgunRelay.Mime.stored_eq`
    * `MailgunRelay.Mime.delivered_leaf`
    * `MailgunRelay.Mime.textPart_lines`
-/

------------------------------------------------------------
-- Stored Lines
------------------------------------------------------------

namespace MailgunRelay

namespace Mime

open Lib.Folding (Unbroken)

/- The text a text part stores. -/
def stored (text : Str) : Str :=
  let lines := normaliseLines text
  if ['\r', '\n'].isSuffixOf lines then
    lines
  else
    lines ++ ['\r', '\n']

/- It is the body, unless control characters are in it. -/
theorem textPart_body
    (contentType : ContentType)
    (text : Str) :
    (textPart contentType text).body =
      if (stored text).any isTextControl then
        .base64 (utf8 (stored text))
      else
        .auto (stored text) := by
  rfl

/- The lines keep their characters, and their number. -/
theorem normaliseLines_eq
    (text : Str) :
    normaliseLines text =
      Lib.Lines.joined (Lib.Lines.split text).1 ++
        (Lib.Lines.split text).2 := by
  fun_induction Lib.Lines.split text with
  | case1 => rfl
  | case2 rest ih =>
      rw [normaliseLines, ih]
      rfl
  | case3 rest hNext ih =>
      rw [normaliseLines, ih]
      · rfl
      · exact hNext
  | case4 rest ih =>
      rw [normaliseLines, ih]
      rfl
  | case5 c rest hPair hCr hLf last hSplit ih =>
      rw [normaliseLines, ih, hSplit]
      · rfl
      · exact hPair
      · exact hCr
      · exact hLf
  | case6 c rest hPair hCr hLf line lines last hSplit ih =>
      rw [normaliseLines, ih, hSplit]
      · rfl
      · exact hPair
      · exact hCr
      · exact hLf

/- An open line does not end like a line break. -/
theorem not_isSuffix_of_unbroken
    {front last : Str}
    (hLast : Unbroken last)
    (hOpen : last ≠ []) :
    ¬ ['\r', '\n'] <:+ front ++ last := by
  rintro ⟨before, hText⟩
  have hEnd :
      (front ++ last).getLast? = some (last.getLast hOpen) := by
    rw [List.getLast?_append,
      List.getLast?_eq_some_getLast hOpen, Option.some_or]
  have hBreak : (front ++ last).getLast? = some '\n' := by
    rw [← hText]
    simp
  rw [hEnd] at hBreak
  exact
    (hLast _ (List.getLast_mem hOpen)).2
      (Option.some.inj hBreak)

theorem joined_append
    (lines lines' : List Str) :
    Lib.Lines.joined (lines ++ lines') =
      Lib.Lines.joined lines ++ Lib.Lines.joined lines' :=
  List.flatMap_append

/- Some lines that are ended end with CRLF. -/
theorem isSuffix_joined
    {lines : List Str}
    (hLines : lines ≠ []) :
    ['\r', '\n'] <:+ Lib.Lines.joined lines := by
  rw [← List.dropLast_append_getLast hLines, joined_append]
  refine
    ⟨Lib.Lines.joined lines.dropLast ++ lines.getLast hLines,
      ?_⟩
  rw [List.append_assoc]
  congr 1
  exact (List.append_nil _).symm

/- What is stored are the lines, each of them ended. -/
theorem stored_eq
    {text : Str}
    (hText : text ≠ []) :
    stored text = Lib.Lines.joined (Lib.Lines.every text) := by
  have hLines := Lib.Lines.split_lines text
  unfold stored Lib.Lines.every
  rw [normaliseLines_eq, joined_append]
  dsimp only
  by_cases hLast : (Lib.Lines.split text).2 = []
  · rw [hLast, if_pos rfl, List.append_nil]
    have hSome : (Lib.Lines.split text).1 ≠ [] := by
      intro hNone
      exact
        hText
          (Lib.Lines.eq_nil_of_split (Prod.ext hNone hLast))
    rw [if_pos
      (List.isSuffixOf_iff_suffix.mpr (isSuffix_joined hSome))]
    exact (List.append_nil _).symm
  · rw [if_neg hLast, if_neg]
    · rw [List.append_assoc]
      congr 1
      exact (List.append_nil _).symm
    · rw [List.isSuffixOf_iff_suffix]
      exact not_isSuffix_of_unbroken hLines.2 hLast

/- Every line of a text is unbroken. -/
theorem every_unbroken
    (text : Str) :
    ∀ line ∈ Lib.Lines.every text, Unbroken line := by
  have hLines := Lib.Lines.split_lines text
  unfold Lib.Lines.every
  rw [List.forall_mem_append]
  refine ⟨hLines.1, ?_⟩
  split
  · nofun
  · exact List.forall_mem_singleton.mpr hLines.2

theorem every_ne_nil
    {text : Str}
    (hText : text ≠ []) :
    Lib.Lines.every text ≠ [] := by
  intro hNone
  unfold Lib.Lines.every at hNone
  rcases List.append_eq_nil_iff.mp hNone with ⟨hLines, hLast⟩
  apply hText
  apply Lib.Lines.eq_nil_of_split
  by_cases hEmpty : (Lib.Lines.split text).2 = []
  · exact Prod.ext hLines hEmpty
  · rw [if_neg hEmpty] at hLast
    cases hLast

/- Stored lines are stored as they are. -/
theorem stored_stored
    {text : Str}
    (hText : text ≠ []) :
    stored (stored text) = stored text := by
  have hSplit :=
    Lib.Lines.split_joined (every_unbroken text)
  have hAgain :
      Lib.Lines.every (stored text) = Lib.Lines.every text := by
    rw [stored_eq hText]
    conv_lhs => rw [Lib.Lines.every, hSplit]
    exact List.append_nil _
  have hStored : stored text ≠ [] := by
    rcases isSuffix_joined (every_ne_nil hText) with
      ⟨front, hFront⟩
    rw [stored_eq hText, ← hFront]
    simp
  rw [stored_eq hStored, hAgain, ← stored_eq hText]

end Mime

end MailgunRelay

------------------------------------------------------------
-- Received Lines
------------------------------------------------------------

namespace MailgunRelay

namespace Mime

/-
  What the server has when the end of the data is taken off:
  lettre sends CRLF "." CRLF after what it is given.
-/
def delivered (sent : Bytes) : Bytes :=
  sent ++ [13, 10]

/- A final CRLF that is left out is sent again. -/
theorem delivered_stripFinalCrlf
    {formatted : Bytes}
    (hEnd : [13, 10] <:+ formatted) :
    delivered (Smtp.stripFinalCrlf formatted) = formatted := by
  unfold delivered Smtp.stripFinalCrlf
  rw [if_pos (List.isSuffixOf_iff_suffix.mpr hEnd)]
  rcases hEnd with ⟨front, rfl⟩
  rw [List.length_append]
  simp

/- Stored text ends with CRLF, also as bytes. -/
theorem utf8_stored
    (text : Str) :
    [13, 10] <:+ utf8 (stored text) := by
  have hCrlf : utf8 ['\r', '\n'] = [13, 10] := by
    decide +kernel
  have hSuffix : ['\r', '\n'] <:+ stored text := by
    unfold stored
    dsimp only
    by_cases hEnd :
        ['\r', '\n'].isSuffixOf (normaliseLines text) = true
    · rw [if_pos hEnd]
      exact List.isSuffixOf_iff_suffix.mp hEnd
    · rw [if_neg hEnd]
      exact List.suffix_append _ _
  rcases hSuffix with ⟨front, hFront⟩
  exact ⟨utf8 front, by rw [← hFront, utf8_append, hCrlf]⟩

variable [Lettre]

/- The extra CRLF of a part is taken off a single part. -/
theorem formatted_leaf
    {part : SinglePart}
    {head body : Bytes}
    (hBody : [13, 10] <:+ body)
    (hPart :
      Lettre.singlePart part = head ++ (body ++ [13, 10])) :
    (Tree.leaf part).formatted = head ++ body := by
  rcases hBody with ⟨front, rfl⟩
  have hEnd :
      [13, 10, 13, 10] <:+
        head ++ (front ++ [13, 10] ++ [13, 10]) :=
    ⟨head ++ front, by simp⟩
  unfold Tree.formatted
  dsimp only
  rw [hPart, if_pos (List.isSuffixOf_iff_suffix.mpr hEnd),
    ← List.append_assoc head, List.length_append]
  exact List.take_left' rfl

/- A single text part is received with its lines. -/
theorem delivered_leaf
    {part : SinglePart}
    {text : Str}
    {head : Bytes}
    (hPart :
      Lettre.singlePart part =
        head ++ (utf8 (stored text) ++ [13, 10]))
    (fields : Bytes) :
    delivered
        (Smtp.stripFinalCrlf
          (fields ++ (Tree.leaf part).formatted)) =
      fields ++ (head ++ utf8 (stored text)) := by
  have hStored := utf8_stored text
  rw [formatted_leaf hStored hPart]
  apply delivered_stripFinalCrlf
  exact
    (hStored.trans (List.suffix_append _ _)).trans
      (List.suffix_append _ _)

end Mime

end MailgunRelay

------------------------------------------------------------
-- Text Parts
------------------------------------------------------------

namespace MailgunRelay

namespace Mime

open Lib.Lines (Paired split every EndsInBreak)

/-
  A text part holds the lines of its text: every break is
  CRLF, the last line is ended if it was not, and control
  characters force base64.  Normalising again changes
  nothing.  A single part whose rendering ends in the body
  and one CRLF is received with just the stored text.
-/
theorem textPart_lines :
    (∀ (contentType : ContentType) (text : Str), text ≠ [] →
      let body := (textPart contentType text).body
      (body = .auto (stored text) ∨
          body = .base64 (utf8 (stored text))) ∧
        ((∃ c ∈ stored text, isTextControl c = true) →
          body = .base64 (utf8 (stored text))) ∧
        Paired (stored text) ∧
        ['\r', '\n'] <:+ stored text ∧
        split (stored text) = (every text, []) ∧
        (EndsInBreak text → every text = (split text).1) ∧
        (¬ EndsInBreak text →
          every text = (split text).1 ++ [(split text).2]) ∧
        stored (stored text) = stored text) ∧
    ∀ [Lettre] (part : SinglePart) (text : Str)
        (head fields : Bytes),
      Lettre.singlePart part =
          head ++ (utf8 (stored text) ++ [13, 10]) →
        delivered
            (Smtp.stripFinalCrlf
              (fields ++ (Tree.leaf part).formatted)) =
          fields ++ (head ++ utf8 (stored text)) := by
  refine ⟨?_, ?_⟩
  · intro contentType text hText body
    have hBody : body = _ := textPart_body contentType text
    have hUnbroken := every_unbroken text
    have hLast := Lib.Lines.split_last_iff hText
    refine ⟨?_, ?_, ?_, ?_, ?_, ?_, ?_, stored_stored hText⟩
    · rw [hBody]
      by_cases hControl :
          (stored text).any isTextControl = true
      · rw [if_pos hControl]
        exact .inr rfl
      · rw [if_neg hControl]
        exact .inl rfl
    · intro hControl
      rw [hBody, if_pos (List.any_eq_true.mpr hControl)]
    · rw [stored_eq hText]
      exact Lib.Lines.joined_paired hUnbroken
    · rw [stored_eq hText]
      exact isSuffix_joined (every_ne_nil hText)
    · rw [stored_eq hText]
      exact Lib.Lines.split_joined hUnbroken
    · intro hEnds
      unfold Lib.Lines.every
      rw [if_pos (hLast.mpr hEnds), List.append_nil]
    · intro hEnds
      unfold Lib.Lines.every
      rw [if_neg fun hNil => hEnds (hLast.mp hNil)]
  · intro lettre part text head fields hPart
    exact delivered_leaf hPart fields

theorem textPart_lines_mixed :
    let _ : Base64 := .standard
    let _ : Lettre := .unfolded
    split (stored "a\rb\n\r\n".toList) =
        (["a", "b", ""].map String.toList, []) ∧
      delivered
          (Smtp.stripFinalCrlf
            (Tree.leaf
              (textPart { text := "text/plain".toList }
                "a\rb".toList)).formatted) =
        utf8
          ("Content-Type: text/plain\r\n" ++
            "Content-Transfer-Encoding: 7bit\r\n\r\n" ++
            "a\r\nb\r\n").toList := by
  intro _ _
  constructor
  · have hLines :=
      (textPart_lines.1 { text := [] } "a\rb\n\r\n".toList
        (by decide)).2.2.2.2.1
    exact hLines
  · exact
      textPart_lines.2
        (textPart { text := "text/plain".toList }
          "a\rb".toList)
        "a\rb".toList
        (utf8
          ("Content-Type: text/plain\r\n" ++
            "Content-Transfer-Encoding: 7bit\r\n\r\n").toList)
        []
        (by decide +kernel)

end Mime

end MailgunRelay
