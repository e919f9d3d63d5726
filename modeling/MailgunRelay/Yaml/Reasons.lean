import MailgunRelay.Lib.Lines
import MailgunRelay.Lib.Result
import MailgunRelay.Yaml.Strings

/-
  What the reader of the secrets file makes of a text, and
  what its errors say.

  The document depends on the lines only, however they end.
  An error is a fixed text, with a place at most: the byte of
  a character, or a mark that the scanner reported.  So no
  error shows what is written in the file.

  Key definitions include:
    * `MailgunRelay.Yaml.Clean`
    * `MailgunRelay.Yaml.Reason`

  Key theorems include:
    * `MailgunRelay.Yaml.checkCharacters_cases`
    * `MailgunRelay.Yaml.run_reason`
    * `MailgunRelay.Yaml.parse_reads`
-/

------------------------------------------------------------
-- Lines
------------------------------------------------------------

namespace MailgunRelay

namespace Yaml

/- The lines are kept, each with one line feed. -/
theorem unixLines_eq
    (text : Str) :
    unixLines text =
      (Lib.Lines.split text).1.flatMap (· ++ ['\n']) ++
        (Lib.Lines.split text).2 := by
  fun_induction Lib.Lines.split text with
  | case1 => rfl
  | case2 rest ih =>
      rw [unixLines, ih]
      rfl
  | case3 rest hNext ih =>
      rw [unixLines, ih]
      · rfl
      · exact hNext
  | case4 rest ih =>
      rw [unixLines, ih]
      · rfl
      · simp
      · simp
  | case5 c rest hPair hCr hLf last hSplit ih =>
      rw [unixLines, ih, hSplit]
      · rfl
      · exact hPair
      · exact hCr
  | case6 c rest hPair hCr hLf line lines last hSplit ih =>
      rw [unixLines, ih, hSplit]
      · rfl
      · exact hPair
      · exact hCr

end Yaml

end MailgunRelay

------------------------------------------------------------
-- Characters
------------------------------------------------------------

namespace MailgunRelay

namespace Yaml

/- A character that may stand at a byte of the text. -/
def isAccepted (index : Nat) (c : Char) : Bool :=
  isPrintable c && !(c.toNat == 0xfeff && 0 < index)

theorem isAccepted_eq
    (index : Nat)
    (c : Char) :
    isAccepted index c =
      !(!isPrintable c ||
        (c.toNat == 0xfeff && decide (0 < index))) := by
  unfold isAccepted
  rw [Bool.not_or, Bool.not_not]

/- Every character may stand where it stands. -/
def CleanFrom (index : Nat) (text : Str) : Prop :=
  ∀ front c rest, text = front ++ c :: rest →
    isAccepted (index + byteLen front) c = true

/- A text of characters that may be there. -/
def Clean (text : Str) : Prop :=
  CleanFrom 0 text

def badCharacter (index : Nat) : Str :=
  "unsupported character at byte ".toList ++
    (toString index).toList ++ " (PLAN.md D-6)".toList

/- The first character of a text, and the others. -/
theorem cleanFrom_cons_iff
    {index : Nat}
    {c : Char}
    {rest : Str} :
    CleanFrom index (c :: rest) ↔
      isAccepted index c = true ∧
        CleanFrom (index + c.utf8Size) rest := by
  constructor
  · intro hClean
    refine ⟨hClean [] c rest rfl, ?_⟩
    intro front d after hSplit
    have hHere :=
      hClean (c :: front) d after (congrArg (c :: ·) hSplit)
    unfold byteLen at hHere ⊢
    rw [List.map_cons, List.sum_cons, ← Nat.add_assoc] at hHere
    exact hHere
  · rintro ⟨hFirst, hRest⟩
    intro front d after hSplit
    cases front with
    | nil =>
        cases hSplit
        exact hFirst
    | cons e front =>
        cases hSplit
        have hHere := hRest front d after rfl
        unfold byteLen at hHere ⊢
        rw [List.map_cons, List.sum_cons, ← Nat.add_assoc]
        exact hHere

/- The check names the byte of the first bad character. -/
theorem checkCharacters_cases
    (index : Nat)
    (text : Str) :
    (checkCharacters index text = .ok () ∧
        CleanFrom index text) ∨
      ∃ front c rest,
        text = front ++ c :: rest ∧ CleanFrom index front ∧
          isAccepted (index + byteLen front) c = false ∧
          checkCharacters index text =
            .error (badCharacter (index + byteLen front)) := by
  induction text generalizing index with
  | nil =>
      left
      refine ⟨rfl, ?_⟩
      intro front c rest hSplit
      exact absurd hSplit.symm (by simp)
  | cons c rest ih =>
      rw [checkCharacters]
      by_cases hBad :
          (!isPrintable c || (c.toNat == 0xfeff &&
            decide (0 < index))) = true
      · right
        rw [if_pos hBad]
        refine ⟨[], c, rest, rfl, ?_, ?_, rfl⟩
        · intro front d after hSplit
          exact absurd hSplit.symm (by simp)
        · show isAccepted index c = false
          rw [isAccepted_eq, hBad]
          rfl
      · rw [if_neg hBad]
        have hFirst : isAccepted index c = true := by
          rw [isAccepted_eq, Bool.eq_false_iff.mpr hBad]
          rfl
        rcases ih (index + c.utf8Size) with
          ⟨hOk, hClean⟩ | ⟨front, d, after, rfl, hFront, hD,
            hError⟩
        · exact .inl ⟨hOk, cleanFrom_cons_iff.mpr
            ⟨hFirst, hClean⟩⟩
        · right
          have hLength :
              index + byteLen (c :: front) =
                index + c.utf8Size + byteLen front := by
            unfold byteLen
            rw [List.map_cons, List.sum_cons, Nat.add_assoc]
          refine ⟨c :: front, d, after, rfl, ?_, ?_, ?_⟩
          · exact cleanFrom_cons_iff.mpr ⟨hFirst, hFront⟩
          · rw [hLength]
            exact hD
          · rw [hLength]
            exact hError

end Yaml

end MailgunRelay

------------------------------------------------------------
-- Reasons
------------------------------------------------------------

namespace MailgunRelay

namespace Yaml

open Secrets (Node)

/- The texts of errors that have no place. -/
def fixedReasons : List Str :=
  ["unconstructible int scalar",
    "int scalar exceeds Python's 4300-digit limit",
    "invalid timestamp scalar",
    "merge keys are not supported (PLAN.md D-6)",
    "the YAML 1.1 value type \x60=\x60 cannot be constructed",
    "collection used as a mapping key", "nesting too deep",
    "unbalanced YAML events", "expected a single document",
    "alias to an unfinished node", "duplicate anchor",
    "YAML directives are not supported (PLAN.md D-6)"].map
    String.toList

/- The texts of errors that have a line. -/
def lineReasons : List String :=
  ["unsupported tag", "empty mapping key"]

/- An error of the builder at an event. -/
inductive StepReason (mark : Mark) : Str → Prop where
  | fixed
      {reason : Str}
      (hFixed : reason ∈ fixedReasons) :
      StepReason mark reason
  | line
      {message : String}
      (hLine : message ∈ lineReasons) :
      StepReason mark (atLine message mark)

theorem resolvePlain_reason
    {value reason : Str}
    (hError : resolvePlain value = .error reason) :
    reason ∈ fixedReasons := by
  unfold resolvePlain at hError
  dsimp only at hError
  repeat' split at hError
  all_goals cases hError
  all_goals decide +kernel

theorem scalarNode_reason
    {value reason : Str}
    {style : ScalarStyle}
    {tag : Option Tag}
    {mark : Mark}
    (hError : scalarNode value style tag mark = .error reason) :
    StepReason mark reason := by
  unfold scalarNode at hError
  cases tag with
  | none =>
      dsimp only at hError
      by_cases hPlain : style = .plain
      · rw [if_pos hPlain] at hError
        exact .fixed (resolvePlain_reason hError)
      · rw [if_neg hPlain] at hError
        cases hError
  | some tag =>
      dsimp only at hError
      by_cases hTag : isStrTag tag = true
      · rw [if_pos hTag] at hError
        cases hError
      · rw [if_neg hTag] at hError
        cases hError
        exact .line (by decide +kernel)

theorem keyOf_reason
    {node : Node}
    {reason : Str}
    (hError : keyOf node = .error reason) :
    reason ∈ fixedReasons := by
  cases node with
  | str | null | other => cases hError
  | seq | map =>
      cases hError
      decide +kernel

theorem place_reason
    {s : State}
    {node : Node}
    {anchor : Nat}
    {reason : Str}
    (hError : s.place node anchor = .error reason) :
    reason ∈ fixedReasons := by
  unfold State.place at hError
  dsimp only at hError
  split at hError
  · cases hError
  · cases hError
  · cases hError
  · rcases Lib.bind_eq_error_iff.mp hError with
      hKey | ⟨key, -, hEnd⟩
    · exact keyOf_reason hKey
    · cases hEnd

theorem pop_reason
    {s : State}
    {reason : Str}
    (hError : s.pop = .error reason) :
    reason ∈ fixedReasons := by
  unfold State.pop at hError
  split at hError
  · exact place_reason hError
  · exact place_reason hError
  · cases hError
    decide +kernel

theorem push_reason
    {s : State}
    {frame : Frame}
    {tag : Option Tag}
    {mark : Mark}
    {reason : Str}
    (hError : s.push frame tag mark = .error reason) :
    StepReason mark reason := by
  unfold State.push at hError
  by_cases hTag : tag.isSome = true
  · rw [if_pos hTag] at hError
    cases hError
    exact .line (by decide +kernel)
  rw [if_neg hTag] at hError
  by_cases hDeep : maxDepth ≤ s.stack.length
  · rw [if_pos hDeep] at hError
    cases hError
    exact .fixed (by decide +kernel)
  · rw [if_neg hDeep] at hError
    cases hError

/- What one event can fail with. -/
theorem step_reason
    {s : State}
    {event : Event}
    {mark : Mark}
    {reason : Str}
    (hError : s.step event mark = .error reason) :
    StepReason mark reason := by
  cases event with
  | nothing | streamStart | streamEnd | documentEnd =>
      cases hError
  | documentStart =>
      unfold State.step at hError
      dsimp only at hError
      split at hError
      · cases hError
        exact .fixed (by decide +kernel)
      · cases hError
  | «alias» id =>
      unfold State.step at hError
      dsimp only at hError
      split at hError
      · exact .fixed (place_reason hError)
      · cases hError
        exact .fixed (by decide +kernel)
  | scalar value style anchor tag =>
      unfold State.step at hError
      dsimp only at hError
      split at hError
      · cases hError
        exact .line (by decide +kernel)
      · rcases Lib.bind_eq_error_iff.mp hError with
          hNode | ⟨node, -, hPlace⟩
        · exact scalarNode_reason hNode
        · exact .fixed (place_reason hPlace)
  | sequenceStart anchor tag => exact push_reason hError
  | mappingStart anchor tag => exact push_reason hError
  | sequenceEnd => exact .fixed (pop_reason hError)
  | mappingEnd => exact .fixed (pop_reason hError)

end Yaml

end MailgunRelay

------------------------------------------------------------
-- Texts
------------------------------------------------------------

namespace MailgunRelay

namespace Yaml

open Secrets (Node)

/- The error where the scanner failed. -/
def notValid (place : Mark) : Str :=
  "not valid YAML at line ".toList ++
    (toString place.line).toList ++ " column ".toList ++
    (toString (place.col + 1)).toList

/- An error of the loop, at a mark that was reported. -/
inductive RunReason (reports : List Report) : Str → Prop where
  | event
      {event : Event} {mark : Mark} {reason : Str}
      (hEvent : .ok (event, mark) ∈ reports)
      (hStep : StepReason mark reason) :
      RunReason reports reason
  | malformed
      {place : Mark}
      (hPlace : .error place ∈ reports) :
      RunReason reports (notValid place)

theorem RunReason.cons
    {report : Report}
    {reports : List Report}
    {reason : Str}
    (hReason : RunReason reports reason) :
    RunReason (report :: reports) reason := by
  cases hReason with
  | event hEvent hStep =>
      exact .event (List.mem_cons_of_mem report hEvent) hStep
  | malformed hPlace =>
      exact .malformed (List.mem_cons_of_mem report hPlace)

/- What the loop can fail with, event by event. -/
theorem run_reason
    {s : State}
    {reports : List Report}
    {reason : Str}
    (hError : run s reports = .error reason) :
    RunReason reports reason := by
  induction reports generalizing s with
  | nil => cases hError
  | cons report rest ih =>
      cases report with
      | error place =>
          cases hError
          exact .malformed List.mem_cons_self
      | ok report =>
          rcases report with ⟨event, mark⟩
          by_cases hEnd : event = .streamEnd
          · rw [hEnd] at hError
            cases hError
          · rw [run] at hError
            · rcases Lib.bind_eq_error_iff.mp hError with
                hStep | ⟨s', -, hRest⟩
              · exact
                  .event List.mem_cons_self
                    (step_reason hStep)
              · exact (ih hRest).cons
            · exact hEnd

theorem checkTokens_reason
    {seen : List Str}
    {tokens : List Token}
    {reason : Str}
    (hError : checkTokens seen tokens = .error reason) :
    reason ∈ fixedReasons := by
  induction tokens generalizing seen with
  | nil => cases hError
  | cons token rest ih =>
      cases token with
      | anchor name =>
          rw [checkTokens] at hError
          split at hError
          · cases hError
            decide +kernel
          · exact ih hError
      | versionDirective =>
          cases hError
          decide +kernel
      | tagDirective =>
          cases hError
          decide +kernel
      | other => exact ih hError

variable [YamlRust]

/-
  An error of the reader of a text: a byte of a character, a
  fixed text, or one of the loop over what was reported.
-/
inductive Reason (text : Str) : Str → Prop where
  | character
      {front : Str} {c : Char} {rest : Str}
      (hText : text = front ++ c :: rest)
      (hFront : Clean front)
      (hBad : isAccepted (byteLen front) c = false) :
      Reason text (badCharacter (byteLen front))
  | token
      {reason : Str}
      (hClean : Clean text)
      (hFixed : reason ∈ fixedReasons) :
      Reason text reason
  | run
      {reason : Str}
      (hClean : Clean text)
      (hRun : RunReason (YamlRust.reports text) reason) :
      Reason text reason

theorem parse_eq
    (text : Str) :
    parse text =
      (do
        checkCharacters 0 (scanned text)
        checkTokens [] (YamlRust.tokens (scanned text))
        run State.start (YamlRust.reports (scanned text))) :=
  rfl

omit [YamlRust] in
/- Only a clean text is handed to the scanner. -/
theorem clean_of_checkCharacters
    {text : Str}
    (hCheck : checkCharacters 0 text = .ok ()) :
    Clean text := by
  rcases checkCharacters_cases 0 text with
    ⟨-, hClean⟩ | ⟨front, c, rest, -, -, -, hError⟩
  · exact hClean
  · rw [hCheck] at hError
    cases hError

/- The check of the characters names the first bad one. -/
theorem checkCharacters_reason
    {text reason : Str}
    (hCheck : checkCharacters 0 text = .error reason) :
    Reason text reason := by
  rcases checkCharacters_cases 0 text with
    ⟨hOk, -⟩ | ⟨front, c, rest, hText, hFront, hBad, hError⟩
  · rw [hCheck] at hOk
    cases hOk
  · rw [hCheck] at hError
    cases hError
    rw [Nat.zero_add] at hBad ⊢
    exact .character hText hFront hBad

/-
  The document depends only on the lines of the text; what
  is scanned is clean, whether it loads or fails later; and
  an error is one of the reasons that show nothing of the
  text but a place in it.
-/
theorem parse_reads :
    (∀ text text',
      Lib.Lines.split text = Lib.Lines.split text' →
        parse text = parse text') ∧
    (∀ text node,
      parse text = .ok node → Clean (scanned text)) ∧
    ∀ text reason,
      parse text = .error reason →
        Reason (scanned text) reason := by
  refine ⟨?_, ?_, ?_⟩
  · intro text text' hLines
    have hScanned : scanned text = scanned text' := by
      unfold scanned
      rw [unixLines_eq text, unixLines_eq text', hLines]
    rw [parse_eq, parse_eq, hScanned]
  · intro text node hParse
    rw [parse_eq] at hParse
    rcases Lib.bind_eq_ok_iff.mp hParse with ⟨_, hCheck, -⟩
    exact clean_of_checkCharacters hCheck
  · intro text reason hParse
    rw [parse_eq] at hParse
    rcases Lib.bind_eq_error_iff.mp hParse with
      hCheck | ⟨_, hCheck, hParse⟩
    · exact checkCharacters_reason hCheck
    · have hClean := clean_of_checkCharacters hCheck
      rcases Lib.bind_eq_error_iff.mp hParse with
        hTokens | ⟨_, -, hRun⟩
      · exact .token hClean (checkTokens_reason hTokens)
      · exact .run hClean (run_reason hRun)

end Yaml

end MailgunRelay
