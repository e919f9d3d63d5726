import MailgunRelay.Lib.Layout
import MailgunRelay.Mime.Writing

/-
  The line budget of plain header values: a value is plain
  when every piece of it, a run of spaces and the word after
  it, fits a line.  A writer that moves such a piece to the
  next line when the line would pass 76 characters then
  writes no line of more than 998 octets.

  Key definitions include:
    * `MailgunRelay.Mime.pieces`
    * `MailgunRelay.Mime.opChunks`
    * `MailgunRelay.Mime.LineLaws`
    * `MailgunRelay.Mime.AsReceived`
    * `MailgunRelay.Lettre.folding`

  Key theorems include:
    * `MailgunRelay.Mime.isPlain_iff`
    * `MailgunRelay.Mime.ends_mailbox`
    * `MailgunRelay.Mime.ends_mailboxes`
    * `MailgunRelay.Mime.plain_budget`
-/

------------------------------------------------------------
-- Pieces
------------------------------------------------------------

namespace MailgunRelay

namespace Mime

def isSpace (c : Char) : Bool :=
  c == ' '

/-
  A value cut before every run of spaces after a word; the
  first piece may have no spaces, the last no word.
-/
def pieces : Str → List Str
| [] => []
| c :: rest =>
    let words := (c :: rest).dropWhile isSpace
    ((c :: rest).takeWhile isSpace ++
        words.takeWhile fun c => !isSpace c) ::
      pieces (words.dropWhile fun c => !isSpace c)
termination_by value => value.length
decreasing_by
  simp only [List.dropWhile_cons]
  split
  · have hSpaces := List.length_dropWhile_le isSpace rest
    have hWord :=
      List.length_dropWhile_le (fun c => !isSpace c)
        (rest.dropWhile isSpace)
    simp only [List.length_cons]
    omega
  · rename_i hFirst
    have hWord :=
      List.length_dropWhile_le (fun c => !isSpace c) rest
    simp only [List.dropWhile_cons, hFirst, List.length_cons]
    simp only [Bool.not_eq_true] at hFirst
    simp only [Bool.not_false, if_true]
    omega

/- The pieces are the value. -/
theorem flatten_pieces
    (value : Str) :
    (pieces value).flatten = value := by
  fun_induction pieces value with
  | case1 => rfl
  | case2 c rest words ih =>
      rw [List.flatten_cons, ih, List.append_assoc,
        List.takeWhile_append_dropWhile,
        List.takeWhile_append_dropWhile]

/- What is left after a word starts with a space. -/
theorem head_dropWord
    (text : Str) :
    ∀ c ∈ (text.dropWhile fun c => !isSpace c).head?,
      c = ' ' := by
  intro c hHead
  have hNot := List.head?_dropWhile_not
    (fun c => !isSpace c) text
  rw [Option.mem_def.mp hHead] at hNot
  simpa [isSpace] using hNot

/- Every piece but the first starts with a space. -/
theorem head_piece
    {value piece : Str}
    (hPiece : piece ∈ (pieces value).tail) :
    piece.head? = some ' ' := by
  fun_induction pieces value with
  | case1 => cases hPiece
  | case2 c rest words ih =>
      rw [List.tail_cons] at hPiece
      have hHead := head_dropWord words
      generalize words.dropWhile (fun c => !isSpace c) = later
        at ih hPiece hHead
      cases later with
      | nil =>
          rw [pieces] at hPiece
          cases hPiece
      | cons d more =>
          have hSpace := hHead d rfl
          rw [pieces] at hPiece
          rcases List.mem_cons.mp hPiece with rfl | hLater
          · rw [hSpace]
            rfl
          · apply ih
            rw [pieces]
            exact hLater

/- A space in front belongs to the first piece. -/
theorem pieces_space
    (value : Str) :
    pieces (' ' :: value) =
      (' ' :: (pieces value).headD []) ::
        (pieces value).tail := by
  rw [pieces]
  have hTake :
      (' ' :: value).takeWhile isSpace =
        ' ' :: value.takeWhile isSpace := rfl
  have hDrop :
      (' ' :: value).dropWhile isSpace =
        value.dropWhile isSpace := rfl
  rw [hTake, hDrop]
  cases value with
  | nil =>
      rw [List.dropWhile_nil, List.dropWhile_nil, pieces]
      rfl
  | cons c rest =>
      rw [pieces.eq_def (c :: rest)]
      rfl

end Mime

end MailgunRelay

------------------------------------------------------------
-- Plain Values
------------------------------------------------------------

namespace MailgunRelay

namespace Mime

/- Every piece leaves room for what is reserved. -/
def PiecesFit (reserve : Nat) (value : Str) : Prop :=
  ∀ piece ∈ pieces value, reserve + piece.length ≤ maxLine

theorem pieces_word
    {c : Char}
    (hWord : isSpace c = false)
    (rest : Str) :
    pieces (c :: rest) =
      (c :: rest.takeWhile fun c => !isSpace c) ::
        pieces (rest.dropWhile fun c => !isSpace c) := by
  have hSpaces : (c :: rest).takeWhile isSpace = [] := by
    rw [List.takeWhile_cons, hWord]
    rfl
  have hWords :
      (c :: rest).dropWhile isSpace = c :: rest := by
    rw [List.dropWhile_cons, hWord]
    rfl
  rw [pieces, hSpaces, hWords, List.takeWhile_cons,
    List.dropWhile_cons, hWord]
  rfl

theorem piecesFit_space
    (reserve : Nat)
    (value : Str) :
    PiecesFit reserve (' ' :: value) ↔
      reserve + 1 + ((pieces value).headD []).length ≤
          maxLine ∧
        ∀ piece ∈ (pieces value).tail,
          reserve + piece.length ≤ maxLine := by
  unfold PiecesFit
  rw [pieces_space, List.forall_mem_cons, List.length_cons]
  constructor
  · rintro ⟨hFirst, hRest⟩
    exact ⟨by omega, hRest⟩
  · rintro ⟨hFirst, hRest⟩
    exact ⟨by omega, hRest⟩

/-
  The counter inside a piece: `run` characters of it are
  behind, and the rest of its word, or of its spaces and its
  word, is in front.
-/
theorem fitsLine_iff
    {reserve run : Nat}
    (hRun : reserve + run ≤ maxLine)
    (value : Str) :
    (fitsLine reserve run true value = true ↔
        reserve + run +
            (value.takeWhile fun c => !isSpace c).length ≤
          maxLine ∧
        PiecesFit reserve
          (value.dropWhile fun c => !isSpace c)) ∧
      (fitsLine reserve run false value = true ↔
        reserve + run + ((pieces value).headD []).length ≤
            maxLine ∧
          ∀ piece ∈ (pieces value).tail,
            reserve + piece.length ≤ maxLine) := by
  induction value generalizing run with
  | nil => simp [fitsLine, PiecesFit, pieces, hRun]
  | cons c rest ih =>
      cases hSpace : isSpace c with
      | true =>
          have hChar : c = ' ' := by
            simpa [isSpace] using hSpace
          subst hChar
          constructor
          · -- A new piece starts with this space.
            have hStep : fitsLine reserve run true (' ' :: rest) =
                if reserve + 1 > maxLine then false
                else fitsLine reserve 1 false rest := rfl
            have hTake :
                (' ' :: rest).takeWhile (fun c => !isSpace c) =
                  [] := rfl
            have hDrop :
                (' ' :: rest).dropWhile (fun c => !isSpace c) =
                  ' ' :: rest := rfl
            rw [hStep, hTake, hDrop, piecesFit_space]
            split
            · simp only [Bool.false_eq_true, false_iff]
              omega
            · rename_i hUnder
              rw [(@ih 1 (by omega)).2, List.length_nil,
                Nat.add_zero]
              exact (and_iff_right hRun).symm
          · have hStep : fitsLine reserve run false (' ' :: rest) =
                if reserve + (run + 1) > maxLine then false
                else fitsLine reserve (run + 1) false rest := rfl
            rw [hStep, pieces_space, List.headD_cons,
              List.tail_cons, List.length_cons]
            split
            · simp only [Bool.false_eq_true, false_iff]
              omega
            · rename_i hUnder
              rw [(@ih (run + 1) (by omega)).2]
              apply and_congr_left'
              omega
      | false =>
          have hStep (inWord : Bool) :
              fitsLine reserve run inWord (c :: rest) =
                if reserve + (run + 1) > maxLine then false
                else fitsLine reserve (run + 1) true rest := by
            unfold isSpace at hSpace
            rw [fitsLine]
            simp [hSpace, bne]
          constructor
          · have hTake :
                (c :: rest).takeWhile (fun c => !isSpace c) =
                  c :: rest.takeWhile fun c => !isSpace c := by
              rw [List.takeWhile_cons, hSpace]
              rfl
            have hDrop :
                (c :: rest).dropWhile (fun c => !isSpace c) =
                  rest.dropWhile fun c => !isSpace c := by
              rw [List.dropWhile_cons, hSpace]
              rfl
            rw [hStep, hTake, hDrop, List.length_cons]
            split
            · simp only [Bool.false_eq_true, false_iff]
              omega
            · rename_i hUnder
              rw [(@ih (run + 1) (by omega)).1]
              apply and_congr_left'
              omega
          · rw [hStep, pieces_word hSpace, List.headD_cons,
              List.tail_cons, List.length_cons]
            split
            · simp only [Bool.false_eq_true, false_iff]
              omega
            · rename_i hUnder
              rw [(@ih (run + 1) (by omega)).1]
              apply and_congr_left'
              omega

/- A value is plain when all its pieces fit. -/
theorem isPlain_iff
    (value : Str)
    (reserve : Nat) :
    isPlain value reserve = true ↔
      value.all isPlainChar = true ∧
        PiecesFit reserve value := by
  unfold isPlain
  rw [Bool.and_eq_true]
  apply and_congr_right
  intro hPlain
  by_cases hReserve : reserve ≤ maxLine
  · rw [(@fitsLine_iff reserve 0 hReserve value).2]
    unfold PiecesFit
    cases pieces value with
    | nil => simpa using hReserve
    | cons first later =>
        rw [List.forall_mem_cons, List.headD_cons,
          List.tail_cons, Nat.add_zero]
  · cases value with
    | nil => simp [fitsLine, PiecesFit, pieces]
    | cons c rest =>
        have hFalse : fitsLine reserve 0 false (c :: rest) =
            false := by
          rw [fitsLine, if_pos]
          simp only [Bool.and_false, Bool.false_eq_true, if_false]
          omega
        rw [hFalse]
        simp only [Bool.false_eq_true, false_iff]
        intro hFit
        rcases
          by
          rw [pieces]
          exact ⟨_, _, rfl⟩ with
          ⟨first, later, hPieces⟩ : ∃ first later, pieces (c ::
            rest) = first :: later
        have hLess := hFit first (by
          rw [hPieces]
          exact List.mem_cons_self)
        omega

end Mime

end MailgunRelay

------------------------------------------------------------
-- What The Writer Does
------------------------------------------------------------

namespace MailgunRelay

namespace Mime

open Lib.Layout

/- The width a line is kept within. -/
def foldWidth : Nat := 76

/- The pieces of a text; `cut` says if the first may move. -/
def pieceChunks (cut : Bool) (text : Str) : List Chunk :=
  match pieces text with
  | [] => []
  | first :: later =>
      { text := first, folds := cut } ::
        later.map fun piece => { text := piece, folds := true }

/-
  What the writer is given, in chunks: text through the
  folding writer may move piece by piece, other text may
  not, and spaces belong to the text after them.
-/
def opChunks
    (cut : Bool)
    (pending : Str) : List WriterOp → List Chunk
| [] =>
    if pending.isEmpty then
      []
    else
      [{ text := pending, folds := false }]
| .space :: ops => opChunks cut (pending ++ [' ']) ops
| .folding text :: ops =>
    pieceChunks cut (pending ++ text) ++ opChunks true [] ops
| .text text :: ops =>
    { text := pending ++ text, folds := false } ::
      opChunks true [] ops
| .encode text :: ops =>
    { text := pending ++ text, folds := false } ::
      opChunks true [] ops

/- Nothing is written as encoded words. -/
def NoEncode (ops : List WriterOp) : Prop :=
  ∀ text, WriterOp.encode text ∉ ops

/-
  The writers the bound is about: in front of a piece that
  may move stands a line break if the line would pass the
  width with it.  The name of a header is a short one.

  This is a writer that breaks at every such piece.  lettre
  leaves out one kind: it never breaks a line in front of
  the blanks that end a value, so that the bound is not
  about lettre for a value that ends in a blank.
-/
structure LineLaws [Lettre] : Prop where
  name : ∀ name, Lettre.headerName name = true →
    byteLen name ≤ 76
  writer : ∀ room ops, NoEncode ops →
    Written Char.utf8Size foldWidth room
      (opChunks false [] ops) (Lettre.emailWriter room ops)
  value : ∀ name text, text.all isPlainChar = true →
    Written Char.utf8Size foldWidth (byteLen name + 2)
      (pieceChunks false text) (Lettre.headerValue name text)

/- The lines of a header field fit. -/
def LinesFit (field : Field) : Prop :=
  ∀ line ∈ lines field.render, byteLen line ≤ maxLine

/- A field is within the limit if its chunks are. -/
theorem linesFit_of_ends
    {name value : Str}
    {chunks : List Chunk}
    (hWritten :
      Written Char.utf8Size foldWidth (byteLen name + 2) chunks
        value)
    (hEnds :
      Ends Char.utf8Size foldWidth maxLine chunks (· ≤ maxLine)
        (byteLen name + 2)) :
    LinesFit { name := name, value := value } := by
  intro line hLine
  have hSize : size Char.utf8Size (name ++ ": ".toList) =
      byteLen name + 2 :=
    size_append Char.utf8Size name ": ".toList
  have hRender :
      Field.render { name := name, value := value } =
        (name ++ ": ".toList ++ value) ++ '\r' :: '\n' :: [] :=
    rfl
  rw [hRender, lines_append, List.mem_append] at hLine
  rcases hLine with hLine | hLast
  · exact lines_le_of_ends hWritten hSize hEnds hLine
  · rw [lines, List.mem_singleton] at hLast
    rw [hLast]
    exact Nat.zero_le _

/- The pieces of a text leave the line within a bound. -/
theorem ends_pieceChunks
    {cut : Bool}
    {text : Str}
    {n k : Nat}
    (hLine : n ≤ maxLine)
    (hWidth : foldWidth ≤ k)
    (hMost : k ≤ maxLine)
    (hPieces : ∀ piece ∈ pieces text, byteLen piece ≤ k)
    (hFirst :
      (cut = true ∧ text.head? = some ' ') ∨
        n + byteLen ((pieces text).headD []) ≤ k) :
    Ends Char.utf8Size foldWidth maxLine
      (pieceChunks cut text) (· ≤ k) n := by
  unfold pieceChunks
  have hLater : ∀ piece ∈ (pieces text).tail,
      piece.head? = some ' ' := fun piece => head_piece
  cases hSplit : pieces text with
  | nil =>
      rcases hFirst with ⟨-, hHead⟩ | hFirst
      · cases text with
        | nil => cases hHead
        | cons c rest =>
            rw [pieces] at hSplit
            cases hSplit
      · exact Nat.le_trans (Nat.le_add_right _ _) hFirst
  | cons first later =>
      rw [hSplit] at hPieces hFirst hLater
      have hSize := hPieces first List.mem_cons_self
      have hRest (m : Nat) (hM : m ≤ k) :
          Ends Char.utf8Size foldWidth maxLine
            (later.map fun piece =>
              { text := piece, folds := true }) (· ≤ k) m := by
        apply Ends.folding hM hWidth hMost
        intro chunk hMem
        rcases List.mem_map.mp hMem with ⟨piece, hPiece, rfl⟩
        exact
          ⟨rfl, hLater piece hPiece,
            hPieces piece (List.mem_cons_of_mem first hPiece)⟩
      refine ⟨fun hStays => hRest _ ?_, fun _ =>
        ⟨hLine, hRest _ hSize⟩⟩
      rcases hFirst with ⟨hCut, hHead⟩ | hFirst
      · -- A piece that may move stays within the width.
        have hSpace : first.head? = some ' ' := by
          cases text with
          | nil => cases hHead
          | cons c rest =>
              cases hHead
              rw [pieces_space] at hSplit
              cases hSplit
              rfl
        exact Nat.le_trans (hStays hCut hSpace) hWidth
      · exact hFirst

end Mime

end MailgunRelay

------------------------------------------------------------
-- Mailboxes And Values As Received
------------------------------------------------------------

namespace MailgunRelay

namespace Mime

open Lib.Layout

variable [Base64]

/- A mailbox without or with a name that is kept. -/
def AsReceived (prefixLen : Nat) (m : Mailbox) : Prop :=
  m.displayName = [] ∨
    isPlain (shown m.displayName m.displayName)
        (prefixLen + addressRoom) = true ∧
      forwardable m.displayName true
          (needsQuotes m.displayName) =
        some m.displayName

/- What is written for it, its name between its brackets. -/
theorem writeMailbox_asReceived
    {prefixLen : Nat}
    {m : Mailbox}
    {ops : List WriterOp}
    (hWrite : writeMailbox prefixLen m = some ops)
    (hReceived : AsReceived prefixLen m) :
    ops = [.folding m.addrSpec] ∨
      isPlain (shown m.displayName m.displayName)
          (prefixLen + addressRoom) = true ∧
        ops =
          [.folding (shown m.displayName m.displayName),
            .space, .text ['<'], .text m.addrSpec,
            .text ['>']] := by
  unfold writeMailbox at hWrite
  split at hWrite
  · cases hWrite
  split at hWrite
  · cases hWrite
    exact .inl rfl
  · rename_i hName
    rcases hReceived with hEmpty | ⟨hPlain, hForward⟩
    · rw [hEmpty] at hName
      exact absurd rfl hName
    · rcases Option.bind_eq_some_iff.mp hWrite with
        ⟨op, hDisplay, hOps⟩
      rw [writeDisplay, if_pos hPlain, hForward,
        Option.map_some] at hDisplay
      cases hDisplay
      cases hOps
      exact .inr ⟨hPlain, rfl⟩

omit [Base64] in
/- Printable text has one octet for each character. -/
theorem byteLen_piece
    {text piece : Str}
    (hPlain : text.all isPlainChar = true)
    (hPiece : piece ∈ pieces text) :
    byteLen piece = piece.length := by
  apply byteLen_of_ascii
  intro c hMem
  have hText : c ∈ text := by
    rw [← flatten_pieces text]
    exact List.mem_flatten_of_mem hPiece hMem
  exact isPlainChar_ascii (List.all_eq_true.mp hPlain c hText)

omit [Base64] in
/- A piece is no longer than the text. -/
theorem byteLen_piece_le
    {text piece : Str}
    (hPiece : piece ∈ pieces text) :
    byteLen piece ≤ byteLen text := by
  rcases List.append_of_mem hPiece with ⟨front, later, hSplit⟩
  have hText := flatten_pieces text
  rw [hSplit, List.flatten_append, List.flatten_cons] at hText
  have hSize := size_append Char.utf8Size front.flatten
    (piece ++ later.flatten)
  have hSize' := size_append Char.utf8Size piece later.flatten
  rw [hText] at hSize
  show size Char.utf8Size piece ≤ size Char.utf8Size text
  omega

/-
  Where a mailbox starts: behind the name of the header, or
  with a space to come behind the mailbox before it.
-/
inductive AtStart
    (prefixLen : Nat) :
    Bool → Str → Nat → Prop where
  | first : AtStart prefixLen false [] prefixLen
  | next
      {n : Nat}
      (hLine : n ≤ maxLine) :
      AtStart prefixLen true [' '] n

omit [Base64] in
/- Text at the start of a mailbox leaves the line in bounds. -/
theorem ends_start
    {prefixLen k n : Nat}
    {cut : Bool}
    {pending text : Str}
    (hStart : AtStart prefixLen cut pending n)
    (hPrefix : 1 ≤ prefixLen)
    (hSelf : prefixLen ≤ k)
    (hWidth : foldWidth ≤ k)
    (hMost : k ≤ maxLine)
    (hPieces : ∀ piece ∈ pieces text,
      prefixLen + byteLen piece ≤ k) :
    Ends Char.utf8Size foldWidth maxLine
      (pieceChunks cut (pending ++ text)) (· ≤ k) n := by
  have hFirst : prefixLen + byteLen ((pieces text).headD []) ≤ k := by
    cases hSplit : pieces text with
    | nil => exact hSelf
    | cons first later =>
        apply hPieces
        rw [hSplit]
        exact List.mem_cons_self
  cases hStart with
  | first =>
      apply ends_pieceChunks (by omega) hWidth hMost
      · intro piece hMem
        have hLe := hPieces piece hMem
        omega
      · exact .inr hFirst
  | next hLine =>
      apply ends_pieceChunks hLine hWidth hMost
      · intro piece hMem
        rw [List.singleton_append, pieces_space] at hMem
        rcases List.mem_cons.mp hMem with rfl | hLater
        · have hSize := size_append Char.utf8Size [' ']
            ((pieces text).headD [])
          have hOne : size Char.utf8Size [' '] = 1 := rfl
          show size Char.utf8Size
            ([' '] ++ (pieces text).headD []) ≤ k
          rw [hSize, hOne]
          have hBytes :
              size Char.utf8Size ((pieces text).headD []) =
                byteLen ((pieces text).headD []) := rfl
          omega
        · have hLe := hPieces piece (List.mem_of_mem_tail hLater)
          omega
      · exact .inl ⟨rfl, rfl⟩

omit [Base64] in
/- The address after a name is in the reserve. -/
theorem ends_addrSpec
    {n : Nat}
    {addrSpec : Str}
    (hAddress : byteLen addrSpec ≤ 254)
    (hName : n ≤ maxLine - addressRoom) :
    Ends Char.utf8Size foldWidth maxLine
      [{ text := [' ', '<'], folds := false },
        { text := addrSpec, folds := false },
        { text := ['>'], folds := false }]
      (· ≤ maxLine - 1) n := by
  have hMaxLine : maxLine = 998 := rfl
  have hAddressRoom : addressRoom = 260 := rfl
  have hOpen :
      Ends Char.utf8Size foldWidth maxLine
        [{ text := [' ', '<'], folds := false }]
        (· ≤ maxLine - addressRoom + 2) n := by
    apply Ends.chunk
    · omega
    · exact Nat.add_le_add_right hName 2
  have hSpec (k : Nat)
      (hK : k ≤ maxLine - addressRoom + 2) :
      Ends Char.utf8Size foldWidth maxLine
        [{ text := addrSpec, folds := false }]
        (· ≤ maxLine - 4) k := by
    apply Ends.chunk
    · omega
    · apply Nat.le_trans (Nat.add_le_add hK hAddress)
      decide
  have hClose (k : Nat)
      (hK : k ≤ maxLine - 4) :
      Ends Char.utf8Size foldWidth maxLine
        [{ text := ['>'], folds := false }]
        (· ≤ maxLine - 1) k := by
    apply Ends.chunk
    · omega
    · apply Nat.le_trans (Nat.add_le_add_right hK 1)
      decide
  apply Ends.append (hOpen.mono fun k hK => ?_)
  exact Ends.append ((hSpec k hK).mono hClose)

/- A mailbox leaves room for a comma. -/
theorem ends_mailbox
    {prefixLen n : Nat}
    {cut : Bool}
    {pending : Str}
    {m : Mailbox}
    {ops : List WriterOp}
    (hStart : AtStart prefixLen cut pending n)
    (hPrefix : 1 ≤ prefixLen)
    (hRoom : prefixLen + addressRoom ≤ maxLine)
    (hAddress : byteLen m.addrSpec ≤ 254)
    (hWrite : writeMailbox prefixLen m = some ops)
    (hReceived : AsReceived prefixLen m) :
    Ends Char.utf8Size foldWidth maxLine
      (opChunks cut pending ops) (· ≤ maxLine - 1) n := by
  have hMaxLine : maxLine = 998 := rfl
  have hAddressRoom : addressRoom = 260 := rfl
  have hFoldWidth : foldWidth = 76 := rfl
  rcases writeMailbox_asReceived hWrite hReceived with
    rfl | ⟨hPlain, rfl⟩
  · -- An address alone, within the room for the name.
    apply Ends.append
    apply ends_start hStart hPrefix
    · omega
    · omega
    · omega
    · intro piece hMem
      have hLe := byteLen_piece_le hMem
      omega
  · rcases (isPlain_iff _ _).mp hPlain with ⟨hChars, hFit⟩
    apply Ends.append
    have hName :
        Ends Char.utf8Size foldWidth maxLine
          (pieceChunks cut
            (pending ++ shown m.displayName m.displayName))
          (· ≤ maxLine - addressRoom) n := by
      apply ends_start hStart hPrefix
      · omega
      · omega
      · omega
      · intro piece hMem
        rw [byteLen_piece hChars hMem]
        have hLe := hFit piece hMem
        omega
    apply hName.mono
    intro afterName hAfter
    exact ends_addrSpec hAddress hAfter

/- What follows a mailbox is in chunks of its own. -/
theorem opChunks_mailbox
    {prefixLen : Nat}
    {m : Mailbox}
    {ops : List WriterOp}
    (hWrite : writeMailbox prefixLen m = some ops)
    (hReceived : AsReceived prefixLen m)
    (cut : Bool)
    (pending : Str)
    (rest : List WriterOp) :
    opChunks cut pending (ops ++ rest) =
      opChunks cut pending ops ++ opChunks true [] rest := by
  rcases writeMailbox_asReceived hWrite hReceived with
    rfl | ⟨-, rfl⟩
  · simp [opChunks]
  · simp [opChunks]

theorem noEncode_mailbox
    {prefixLen : Nat}
    {m : Mailbox}
    {ops : List WriterOp}
    (hWrite : writeMailbox prefixLen m = some ops)
    (hReceived : AsReceived prefixLen m) :
    NoEncode ops := by
  intro text hMem
  rcases writeMailbox_asReceived hWrite hReceived with
    rfl | ⟨-, rfl⟩
  · simp at hMem
  · simp at hMem

/- Mailboxes one after another leave every line in bounds. -/
theorem ends_mailboxes
    {prefixLen n : Nat}
    {cut : Bool}
    {pending : Str}
    {ms : List Mailbox}
    {ops : List WriterOp}
    (hStart : AtStart prefixLen cut pending n)
    (hPrefix : 1 ≤ prefixLen)
    (hRoom : prefixLen + addressRoom ≤ maxLine)
    (hNone : ms ≠ [])
    (hMailboxes : ∀ m ∈ ms,
      byteLen m.addrSpec ≤ 254 ∧ AsReceived prefixLen m)
    (hWrite : writeMailboxes prefixLen ms = some ops) :
    NoEncode ops ∧
      Ends Char.utf8Size foldWidth maxLine
        (opChunks cut pending ops) (· ≤ maxLine) n := by
  induction ms generalizing n cut pending ops with
  | nil => exact absurd rfl hNone
  | cons m rest ih =>
      rcases hMailboxes m List.mem_cons_self with
        ⟨hAddress, hReceived⟩
      cases rest with
      | nil =>
          rw [writeMailboxes] at hWrite
          have hEnds :=
            ends_mailbox hStart hPrefix hRoom hAddress hWrite
              hReceived
          exact
            ⟨noEncode_mailbox hWrite hReceived,
              hEnds.mono fun k hK =>
                Nat.le_trans hK (Nat.sub_le _ _)⟩
      | cons second later =>
          rw [writeMailboxes] at hWrite
          · rcases Option.bind_eq_some_iff.mp hWrite with
              ⟨first, hFirst, hRest⟩
            rcases Option.bind_eq_some_iff.mp hRest with
              ⟨others, hOthers, hOps⟩
            cases hOps
            have hEnds :=
              ends_mailbox hStart hPrefix hRoom hAddress hFirst
                hReceived
            have hLater := fun k (hK : k ≤ maxLine) =>
              @ih k true [' '] others (.next hK)
                (List.cons_ne_nil second later)
                (fun x hMem =>
                  hMailboxes x (List.mem_cons_of_mem m hMem))
                hOthers
            constructor
            · intro text hMem
              rw [List.append_assoc, List.mem_append] at hMem
              rcases hMem with hMem | hMem
              · exact noEncode_mailbox hFirst hReceived text hMem
              · simp only [List.cons_append, List.nil_append,
                  List.mem_cons, reduceCtorEq, false_or] at hMem
                exact (hLater 0 (Nat.zero_le _)).1 text hMem
            · rw [List.append_assoc,
                opChunks_mailbox hFirst hReceived]
              apply Ends.append (hEnds.mono fun k hK => ?_)
              -- The comma, and a space for the next mailbox.
              have hComma :
                  Ends Char.utf8Size foldWidth maxLine
                    [{ text := [','], folds := false }]
                    (· ≤ maxLine) k := by
                have hMaxLine : maxLine = 998 := rfl
                have hSize : size Char.utf8Size [','] = 1 := rfl
                apply Ends.chunk
                · omega
                · dsimp only
                  omega
              exact
                Ends.append
                  (hComma.mono fun j hJ => (hLater j hJ).2)
          · intro hNil
            cases hNil

/-
  A value is plain exactly when all its pieces fit, and the
  fields that are written as received have no line over the
  limit.
-/
theorem plain_budget
    [Lettre]
    (hLaws : LineLaws) :
    (∀ value reserve,
      isPlain value reserve = true ↔
        value.all isPlainChar = true ∧
          PiecesFit reserve value) ∧
    (∀ name value field,
      isPlain value (byteLen name + 2) = true →
      forwardable value false false = some value →
      unstructuredHeader name value = some field →
      LinesFit field) ∧
    (∀ name ms field,
      byteLen name + 2 + addressRoom ≤ maxLine →
      (∀ m ∈ ms, byteLen m.addrSpec ≤ 254 ∧
        AsReceived (byteLen name + 2) m) →
      addressHeader name ms = some field →
      LinesFit field) := by
  refine ⟨isPlain_iff, ?_, ?_⟩
  · intro name value field hPlain hForward hHeader
    have hName : Lettre.headerName name = true := by
      by_contra hNot
      rw [unstructuredHeader, if_pos (by simpa using hNot)]
        at hHeader
      cases hHeader
    rw [unstructuredHeader, if_neg (by simp [hName]),
      if_pos hPlain, hForward] at hHeader
    cases hHeader
    rcases (isPlain_iff _ _).mp hPlain with ⟨hChars, hFit⟩
    have hShort := hLaws.name name hName
    have hMaxLine : maxLine = 998 := rfl
    have hPieces (piece : Str) (hMem : piece ∈ pieces value) :
        byteLen name + 2 + byteLen piece ≤ maxLine := by
      rw [byteLen_piece hChars hMem]
      exact hFit piece hMem
    apply linesFit_of_ends (hLaws.value name value hChars)
    exact
      ends_start (.first) (Nat.le_add_left 1 _) (by omega)
        (by decide) (Nat.le_refl _) hPieces
  · intro name ms field hRoom hMailboxes hHeader
    rcases Option.bind_eq_some_iff.mp hHeader with
      ⟨ops, hWrite, hField⟩
    cases hField
    cases ms with
    | nil =>
        cases hWrite
        have hNone : NoEncode [] := fun text => List.not_mem_nil
        apply linesFit_of_ends (hLaws.writer _ [] hNone)
        exact Nat.le_trans (Nat.le_add_right _ _) hRoom
    | cons m rest =>
        rcases
          ends_mailboxes .first (Nat.le_add_left 1 _) hRoom
            (List.cons_ne_nil m rest) hMailboxes hWrite with
          ⟨hNone, hEnds⟩
        exact
          linesFit_of_ends (hLaws.writer _ ops hNone) hEnds

end Mime

end MailgunRelay

------------------------------------------------------------
-- A Writer That Folds
------------------------------------------------------------

namespace MailgunRelay

open Lib.Layout

variable [Base64]

/- A step with its words, if it has some, as text. -/
def WriterOp.asText : WriterOp → WriterOp
| .encode s => .text (WriterOp.encode s).written
| op => op

/- A writer that breaks a line of more than the width. -/
@[reducible] def Lettre.folding : Lettre :=
  { Lettre.unfolded with
    emailWriter := fun room ops =>
      layout Char.utf8Size Mime.foldWidth room
        (Mime.opChunks false [] (ops.map WriterOp.asText))
    headerName := fun name =>
      !name.isEmpty && Decidable.decide (byteLen name ≤ 76) &&
        name.all fun c => c.isAlphanum || c == '-'
    headerValue := fun name text =>
      layout Char.utf8Size Mime.foldWidth (byteLen name + 2)
        (Mime.pieceChunks false text) }

namespace Mime

theorem folding_lineLaws :
    let _ : Lettre := .folding
    LineLaws := by
  intro _
  constructor
  · intro name hName
    have hAll :
        (!name.isEmpty && decide (byteLen name ≤ 76) &&
          name.all fun c => c.isAlphanum || c == '-') = true :=
      hName
    rw [Bool.and_eq_true, Bool.and_eq_true,
      decide_eq_true_eq] at hAll
    exact hAll.1.2
  · intro room ops hNone
    have hSame : ops.map WriterOp.asText = ops :=
      calc
        ops.map WriterOp.asText = ops.map id := by
          apply List.map_congr_left
          intro op hMem
          cases op with
          | encode s => exact absurd hMem (hNone s)
          | text s => rfl
          | folding s => rfl
          | space => rfl
        _ = ops := List.map_id ops
    have hWritten :
        Written Char.utf8Size foldWidth room
          (opChunks false [] (ops.map WriterOp.asText))
          (Lettre.emailWriter room ops) :=
      layout_written Char.utf8Size foldWidth room _
    rwa [hSame] at hWritten
  · intro name text hPlain
    exact layout_written Char.utf8Size foldWidth _ _

omit [Base64] in
/- Two mailboxes, folded after the comma. -/
theorem plain_budget_reply_to :
    let _ : Base64 := .standard
    let _ : Lettre := .folding
    let ms : List Mailbox :=
      [{ displayName := "Support (daytime)".toList
         «local» := "support".toList
         domain := "example.org".toList },
       { displayName := []
         «local» := "second-level-support".toList
         domain := "mail.example.org".toList }]
    let field : Field :=
      { name := "Reply-To".toList
        value :=
          ("\"Support (daytime)\" <support@example.org>,\r\n" ++
            " second-level-support@mail.example.org").toList }
    addressHeader "Reply-To".toList ms = some field ∧
      LinesFit field := by
  intro _ _ ms field
  have hHeader :
      addressHeader "Reply-To".toList ms = some field := by
    decide +kernel
  refine ⟨hHeader, ?_⟩
  apply (plain_budget folding_lineLaws).2.2 _ _ _ _ _ hHeader
  · decide +kernel
  · intro m hMem
    rcases List.mem_pair.mp hMem with rfl | rfl
    · exact
        ⟨by decide +kernel,
          .inr ⟨by decide +kernel, by decide +kernel⟩⟩
    · exact ⟨by decide +kernel, .inl rfl⟩

end Mime

end MailgunRelay
