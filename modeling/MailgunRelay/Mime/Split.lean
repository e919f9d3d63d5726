import MailgunRelay.Lib.Base64
import MailgunRelay.Lib.Packing
import MailgunRelay.Mime.Reading

/-
  A long encoded word as several short ones: the pieces are
  words a receiver reads, they hold the same bytes, and a
  UTF-8 word is cut between characters.

  Key definitions include:
    * `MailgunRelay.Mime.CanSplit`
    * `MailgunRelay.Mime.Base64Laws`
    * `MailgunRelay.Mime.piece`
    * `MailgunRelay.Mime.IsSplit`

  Key theorems include:
    * `MailgunRelay.Mime.isCharset_of_compatible`
    * `MailgunRelay.Mime.split_of_isCharBoundary`
    * `MailgunRelay.Mime.cutSize_box`
    * `MailgunRelay.Mime.splitWord_spec`
    * `MailgunRelay.Mime.splitWord_isSome_iff`
-/

------------------------------------------------------------
-- Charsets
------------------------------------------------------------

namespace MailgunRelay

namespace Mime

/- A compatible name has two characters, `_` not first. -/
theorem compatible_name
    {name : Str}
    (hName : isAsciiCompatibleCharset name = true) :
    ∃ c d rest, name = c :: d :: rest ∧ c ≠ '_' := by
  unfold isAsciiCompatibleCharset at hName
  simp only [Bool.or_eq_true, List.contains_iff_mem,
    List.any_eq_true, beq_iff_eq, List.mem_map] at hName
  rcases hName with (((⟨s, hMem, rfl⟩ | ⟨n, -, rfl⟩) |
    ⟨n, -, rfl⟩) | ⟨n, -, rfl⟩) | ⟨n, -, rfl⟩
  · have hAll :
        ∀ s ∈ ["utf_8", "utf8", "us_ascii", "ascii",
            "latin_1", "latin1", "l1"],
          ∃ c d rest, s.toList = c :: d :: rest ∧
            c ≠ '_' := by
      simp
    exact hAll s hMem
  · exact ⟨'i', 's', _, rfl, by decide⟩
  · exact ⟨'i', 's', _, rfl, by decide⟩
  · exact ⟨'w', 'i', _, rfl, by decide⟩
  · exact ⟨'c', 'p', _, rfl, by decide⟩

/- The first part of a text at a separator. -/
theorem headD_splitOn_cons
    {sep c : Char}
    {text : Str}
    (hOther : c ≠ sep) :
    ((c :: text).splitOn sep).headD [] =
      c :: (text.splitOn sep).headD [] := by
  have hNot : (c == sep) = false := beq_eq_false_iff_ne.mpr hOther
  have hNonempty : text.splitOn sep ≠ [] :=
    List.splitOn_ne_nil sep text
  rcases List.exists_cons_of_ne_nil hNonempty with
    ⟨part, parts, hParts⟩
  unfold List.splitOn at hParts ⊢
  rw [List.splitOnP_cons_eq_if_modifyHead, hNot, hParts]
  rfl

theorem isCharset_of_compatible
    {charset : Str}
    (hMark : '?' ∉ charset)
    (hName :
      isAsciiCompatibleCharset (charsetName charset) = true) :
    IsCharset charset := by
  rcases compatible_name hName with ⟨c, d, rest, hSplit, hFirst⟩
  match charset with
  | [] => cases hSplit
  | [e] =>
      exfalso
      by_cases hStar : e = '*'
      · subst hStar
        cases hSplit
      · unfold charsetName asciiLowercase at hSplit
        rw [headD_splitOn_cons hStar] at hSplit
        cases hSplit
  | e :: f :: charset =>
      refine
        { mark := hMark
          nonempty := nofun
          equals := ?_
          encoding := nofun }
      intro hHead
      injection hHead with hEquals
      subst hEquals
      unfold charsetName asciiLowercase at hSplit
      rw [headD_splitOn_cons (by decide)] at hSplit
      injection hSplit with hUnderscore
      exact hFirst hUnderscore.symm

end Mime

end MailgunRelay

------------------------------------------------------------
-- Character Boundaries
------------------------------------------------------------

namespace MailgunRelay

namespace Mime

/- All but the first byte of a character continue it. -/
theorem isContinuation_encodeChar
    {c : Char}
    {b : UInt8}
    (hMem : b ∈ (String.utf8EncodeChar c).tail) :
    isContinuation b = true := by
  have hByte (n : Nat) :
      isContinuation (UInt8.ofNat (n % 64 + 128)) = true := by
    have hSmall : n % 64 + 128 < 256 := by omega
    simp only [isContinuation, Bool.and_eq_true,
      decide_eq_true_eq, UInt8.le_iff_toNat_le,
      UInt8.toNat_ofNat_of_lt' hSmall]
    simp
    omega
  unfold String.utf8EncodeChar at hMem
  simp only at hMem
  split at hMem
  · cases hMem
  split at hMem
  · simp only [List.tail_cons, List.mem_cons,
      List.not_mem_nil, or_false] at hMem
    rw [hMem]
    exact hByte _
  split at hMem
  · simp only [List.tail_cons, List.mem_cons,
      List.not_mem_nil, or_false] at hMem
    rcases hMem with rfl | rfl <;> exact hByte _
  · simp only [List.tail_cons, List.mem_cons,
      List.not_mem_nil, or_false] at hMem
    rcases hMem with rfl | rfl | rfl <;> exact hByte _

/- The first byte of a character continues none. -/
theorem isContinuation_first
    {c : Char}
    {b : UInt8}
    (hFirst : (String.utf8EncodeChar c).head? = some b) :
    isContinuation b = false := by
  have hByte
      {n : Nat}
      (hSmall : n < 256)
      (hRange : n < 128 ∨ 192 ≤ n) :
      isContinuation (UInt8.ofNat n) = false := by
    rw [isContinuation, Bool.and_eq_false_iff]
    simp only [decide_eq_false_iff_not,
      UInt8.le_iff_toNat_le, UInt8.toNat_ofNat_of_lt' hSmall]
    simp
    omega
  unfold String.utf8EncodeChar at hFirst
  simp only at hFirst
  split at hFirst
  · cases hFirst
    exact hByte (by omega) (by omega)
  split at hFirst
  · cases hFirst
    exact hByte (by omega) (by omega)
  split at hFirst
  · cases hFirst
    exact hByte (by omega) (by omega)
  · cases hFirst
    exact hByte (by omega) (by omega)

/- Between two characters there is a boundary. -/
theorem isCharBoundary_between
    (a b : Str) :
    isCharBoundary (utf8 (a ++ b)) (utf8 a).length = true := by
  rw [utf8_append]
  cases b with
  | nil =>
      have hNil : utf8 [] = [] := rfl
      rw [isCharBoundary, hNil, List.append_nil,
        beq_self_eq_true, Bool.or_true, Bool.true_or]
  | cons c b =>
      have hSome : String.utf8EncodeChar c ≠ [] := by
        intro hNil
        have hLength := String.length_utf8EncodeChar c
        rw [hNil] at hLength
        exact
          absurd hLength (Nat.ne_of_lt (Char.utf8Size_pos c))
      rcases List.exists_cons_of_ne_nil hSome with
        ⟨first, more, hFirst⟩
      have hPlain : isContinuation first = false :=
        isContinuation_first (by rw [hFirst]; rfl)
      rw [isCharBoundary, utf8_cons, hFirst,
        List.getElem?_append_right (Nat.le_refl _),
        Nat.sub_self]
      simp [hPlain]

/- A boundary behind some text is one of the rest. -/
theorem isCharBoundary_append
    {front bytes : Bytes}
    {i : Nat}
    (hBoundary :
      isCharBoundary (front ++ bytes) (front.length + i) =
        true) :
    i = 0 ∨ isCharBoundary bytes i = true := by
  rcases Nat.eq_zero_or_pos i with hZero | hPos
  · exact .inl hZero
  · right
    have hNot : (front.length + i == 0) = false := by
      rw [beq_eq_false_iff_ne]
      omega
    have hLength :
        (front.length + i == (front ++ bytes).length) =
          (i == bytes.length) := by
      rw [List.length_append, Bool.eq_iff_iff, beq_iff_eq,
        beq_iff_eq]
      omega
    rw [isCharBoundary, hNot, Bool.false_or, hLength,
      List.getElem?_append_right (by omega),
      Nat.add_sub_cancel_left] at hBoundary
    rw [isCharBoundary, Bool.or_assoc, hBoundary,
      Bool.or_true]

/- A boundary is between two characters. -/
theorem split_of_isCharBoundary
    {s : Str}
    {i : Nat}
    (hLe : i ≤ (utf8 s).length)
    (hBoundary : isCharBoundary (utf8 s) i = true) :
    ∃ a b, s = a ++ b ∧ (utf8 a).length = i := by
  induction s generalizing i with
  | nil =>
      exact ⟨[], [], rfl, (Nat.le_zero.mp hLe).symm⟩
  | cons c s ih =>
      rcases Nat.eq_zero_or_pos i with rfl | hPos
      · exact ⟨[], c :: s, rfl, rfl⟩
      rw [utf8_cons] at hLe hBoundary
      rw [List.length_append] at hLe
      by_cases hInside : i < (String.utf8EncodeChar c).length
      · exfalso
        have hByte :
            (String.utf8EncodeChar c)[i] ∈
              (String.utf8EncodeChar c).tail := by
          rcases Nat.exists_eq_add_of_lt hPos with ⟨k, rfl⟩
          rw [List.mem_iff_getElem]
          refine ⟨k, ?_, ?_⟩
          · rw [List.length_tail]
            omega
          · rw [List.getElem_tail]
            congr 1
            omega
        have hNotZero : (i == 0) = false := by
          rw [beq_eq_false_iff_ne]
          omega
        have hNotEnd :
            (i == (String.utf8EncodeChar c ++
              utf8 s).length) = false := by
          rw [beq_eq_false_iff_ne, List.length_append]
          omega
        rw [isCharBoundary, hNotZero, hNotEnd,
          List.getElem?_append_left hInside,
          List.getElem?_eq_getElem hInside] at hBoundary
        simp [isContinuation_encodeChar hByte] at hBoundary
      · rcases
          Nat.exists_eq_add_of_le (Nat.not_lt.mp hInside) with
          ⟨j, rfl⟩
        rcases isCharBoundary_append hBoundary with
          rfl | hRest
        · exact ⟨[c], s, rfl, by simp [utf8]⟩
        · rcases ih (by omega) hRest with ⟨a, b, rfl, hLength⟩
          exact
            ⟨c :: a, b, rfl, by
              rw [utf8_cons, List.length_append, hLength]⟩

/- The cut is no longer than asked, and at a boundary. -/
theorem cutBefore_spec
    (bytes : Bytes)
    (offset most : Nat) :
    cutBefore bytes offset most ≤ most ∧
      (cutBefore bytes offset most ≠ 0 →
        isCharBoundary bytes
          (offset + cutBefore bytes offset most) = true) := by
  induction most with
  | zero => exact ⟨Nat.le_refl 0, fun hNot => absurd rfl hNot⟩
  | succ most ih =>
      rw [cutBefore]
      split
      · rename_i hBoundary
        exact ⟨Nat.le_refl _, fun _ => hBoundary⟩
      · exact ⟨Nat.le_succ_of_le ih.1, ih.2⟩

/- And no later boundary is as near as asked. -/
theorem cutBefore_last
    {bytes : Bytes}
    {offset most i : Nat}
    (hLater : cutBefore bytes offset most < i)
    (hLe : i ≤ most) :
    isCharBoundary bytes (offset + i) = false := by
  induction most with
  | zero =>
      exfalso
      omega
  | succ most ih =>
      rw [cutBefore] at hLater
      split at hLater
      · exfalso
        omega
      · rename_i hNone
        rcases Nat.lt_or_eq_of_le hLe with hLess | hHere
        · exact ih hLater (Nat.le_of_lt_succ hLess)
        · rw [hHere]
          exact Bool.eq_false_iff.mpr hNone

end Mime

end MailgunRelay

------------------------------------------------------------
-- Sizes
------------------------------------------------------------

namespace MailgunRelay

namespace Mime

/- A charset whose words are cut between characters. -/
def isUtf8Charset (charset : Str) : Bool :=
  charsetName charset == "utf_8".toList ||
    charsetName charset == "utf8".toList

/- The bytes a word of the permitted length has room for. -/
def pieceRoom (charset : Str) : Nat :=
  (maxEncodedWord - (charset.length + 7)) / 4 * 3

/-
  The sizes of what a word is not cut inside of: characters
  of UTF-8, or single bytes.
-/
def units (charset : Str) (bytes : Bytes) : List Nat :=
  if isUtf8Charset charset then
    ((fromUtf8 bytes).getD []).map Char.utf8Size
  else
    List.replicate bytes.length 1

/- The bytes of the last word, when each is as full as can be. -/
def lastSize (charset : Str) (bytes : Bytes) : Nat :=
  Lib.Packing.fill (pieceRoom charset) 0 (units charset bytes)

/- Words of the permitted length have room for the bytes. -/
structure CanSplit
    (charset : Str)
    (bytes : Bytes) : Prop where
  fits : charset.length + 7 ≤ maxEncodedWord
  valid :
    isUtf8Charset charset = true →
      (fromUtf8 bytes).isSome = true
  room : ∀ k ∈ units charset bytes, k ≤ pieceRoom charset

/- Bytes are cut between things of these sizes. -/
structure Units
    (bytes : Bytes)
    (onBoundaries : Bool)
    (sizes : List Nat) : Prop where
  total : sizes.sum = bytes.length
  positive : ∀ k ∈ sizes, 0 < k
  cut :
    ∀ i ≤ bytes.length,
      (onBoundaries = true → isCharBoundary bytes i = true) ↔
        ∃ front rest, sizes = front ++ rest ∧ front.sum = i

theorem sum_utf8Size
    (s : Str) :
    (s.map Char.utf8Size).sum = (utf8 s).length := by
  induction s with
  | nil => rfl
  | cons c s ih =>
      rw [List.map_cons, List.sum_cons, ih, utf8_cons,
        List.length_append, String.length_utf8EncodeChar]

/- The characters of UTF-8. -/
theorem units_utf8
    (s : Str) :
    Units (utf8 s) true (s.map Char.utf8Size) := by
  refine
    { total := sum_utf8Size s
      positive := ?_
      cut := fun i hLe => ?_ }
  · intro k hMem
    rcases List.mem_map.mp hMem with ⟨c, -, rfl⟩
    exact Char.utf8Size_pos c
  · constructor
    · intro hBoundary
      rcases split_of_isCharBoundary hLe (hBoundary rfl) with
        ⟨a, b, rfl, hLength⟩
      exact
        ⟨a.map Char.utf8Size, b.map Char.utf8Size,
          List.map_append, by rw [sum_utf8Size, hLength]⟩
    · rintro ⟨front, rest, hSplit, rfl⟩ -
      rcases List.map_eq_append_iff.mp hSplit with
        ⟨a, b, rfl, rfl, rfl⟩
      rw [sum_utf8Size]
      exact isCharBoundary_between a b

/- Single bytes. -/
theorem units_each
    (bytes : Bytes) :
    Units bytes false (List.replicate bytes.length 1) := by
  refine
    { total := by simp
      positive := fun k hMem => ?_
      cut := fun i hLe => ?_ }
  · rw [List.eq_of_mem_replicate hMem]
    exact Nat.one_pos
  · constructor
    · intro _
      refine
        ⟨List.replicate i 1,
          List.replicate (bytes.length - i) 1, ?_, by simp⟩
      rw [List.replicate_append_replicate]
      congr 1
      omega
    · intro _ hOn
      cases hOn

theorem units_spec
    {charset : Str}
    {bytes : Bytes}
    (hValid :
      isUtf8Charset charset = true →
        (fromUtf8 bytes).isSome = true) :
    Units bytes (isUtf8Charset charset)
      (units charset bytes) := by
  unfold units
  cases hUtf8 : isUtf8Charset charset with
  | false =>
      rw [if_neg Bool.false_ne_true]
      exact units_each bytes
  | true =>
      rcases utf8_of_fromUtf8 (hValid hUtf8) with ⟨s, rfl⟩
      rw [if_pos rfl, fromUtf8_utf8]
      exact units_utf8 s

theorem cutSize_le
    (bytes : Bytes)
    (onBoundaries : Bool)
    (offset most : Nat) :
    cutSize bytes onBoundaries offset most ≤ most := by
  unfold cutSize
  split
  · exact (cutBefore_spec bytes offset most).1
  · exact Nat.le_refl most

theorem cutSize_isCharBoundary
    {bytes : Bytes}
    {onBoundaries : Bool}
    {offset most : Nat}
    (hOn : onBoundaries = true)
    (hCut : cutSize bytes onBoundaries offset most ≠ 0) :
    isCharBoundary bytes
      (offset + cutSize bytes onBoundaries offset most) =
        true := by
  rw [cutSize, if_pos hOn] at hCut ⊢
  exact (cutBefore_spec bytes offset most).2 hCut

theorem cutSize_last
    {bytes : Bytes}
    {onBoundaries : Bool}
    {offset most i : Nat}
    (hLater : cutSize bytes onBoundaries offset most < i)
    (hLe : i ≤ most) :
    onBoundaries = true ∧
      isCharBoundary bytes (offset + i) = false := by
  unfold cutSize at hLater
  split at hLater
  · rename_i hOn
    exact ⟨hOn, cutBefore_last hLater hLe⟩
  · exfalso
    omega

/- A cut takes as many things as there is room for. -/
theorem cutSize_box
    {bytes : Bytes}
    {onBoundaries : Bool}
    {front rest : List Nat}
    (hUnits : Units bytes onBoundaries (front ++ rest))
    (room : Nat) :
    ∃ box later,
      rest = box ++ later ∧
        cutSize bytes onBoundaries front.sum
            (min (bytes.length - front.sum) room) =
          box.sum ∧
        box.sum ≤ room ∧
        ∀ k ∈ later.head?, room < box.sum + k := by
  have hTotal := hUnits.total
  rw [List.sum_append] at hTotal
  have hLe :=
    cutSize_le bytes onBoundaries front.sum
      (min (bytes.length - front.sum) room)
  have hLast
      {i : Nat}
      (hLater :
        cutSize bytes onBoundaries front.sum
          (min (bytes.length - front.sum) room) < i)
      (hMost : i ≤ min (bytes.length - front.sum) room) :=
    cutSize_last hLater hMost
  have hBoundary :
      onBoundaries = true →
        cutSize bytes onBoundaries front.sum
            (min (bytes.length - front.sum) room) ≠ 0 →
          isCharBoundary bytes
            (front.sum +
              cutSize bytes onBoundaries front.sum
                (min (bytes.length - front.sum) room)) =
            true :=
    cutSize_isCharBoundary
  generalize
    cutSize bytes onBoundaries front.sum
      (min (bytes.length - front.sum) room) = cut
      at hLe hLast hBoundary ⊢
  -- The cut ends where things of these sizes end.
  have hCut :
      ∃ before after,
        front ++ rest = before ++ after ∧
          before.sum = front.sum + cut := by
    by_cases hZero : cut = 0
    · exact ⟨front, rest, rfl, by rw [hZero, Nat.add_zero]⟩
    · exact
        (hUnits.cut (front.sum + cut) (by omega)).mp
          fun hOn => hBoundary hOn hZero
  rcases hCut with ⟨before, later, hSame, hSum⟩
  rcases
    Lib.Packing.prefix_of_sum_le hUnits.positive hSame
      (by omega) with
    ⟨box, rfl, rfl⟩
  rw [List.sum_append] at hSum hTotal
  have hBox : cut = box.sum := by omega
  subst hBox
  refine ⟨box, later, rfl, rfl, by omega, ?_⟩
  intro k hHead
  cases later with
  | nil => cases hHead
  | cons k' later =>
      cases hHead
      have hPositive : 0 < k :=
        hUnits.positive k (by simp)
      rw [List.sum_cons] at hTotal
      by_contra hFits
      have hEnd :=
        (hUnits.cut (front.sum + (box.sum + k))
          (by omega)).mpr
          ⟨front ++ (box ++ [k]), later, by simp, by
            simp only [List.sum_append, List.sum_singleton]⟩
      rcases @hLast (box.sum + k) (by omega) (by omega) with
        ⟨hOn, hNone⟩
      rw [hEnd hOn] at hNone
      cases hNone

end Mime

end MailgunRelay

------------------------------------------------------------
-- Pieces
------------------------------------------------------------

namespace MailgunRelay

namespace Mime

variable [Base64]

/- What is used of the standard engine and its alphabet. -/
structure Base64Laws : Prop where
  alphabet :
    ∀ bytes, ∀ c ∈ Base64.encode bytes,
      c.isAlphanum = true ∨ c = '+' ∨ c = '/' ∨ c = '='
  length :
    ∀ bytes, (Base64.encode bytes).length =
      4 * ((bytes.length + 2) / 3)
  decode :
    ∀ bytes,
      Base64.decodeLenient
          ((Base64.encode bytes).rdropWhile (· == '=')) =
        some bytes

/- Only a group of one or two bytes is padded. -/
structure PaddingLaws : Prop where
  padded :
    ∀ bytes,
      (Base64.encode bytes).getLast? = some '=' ↔
        bytes.length % 3 ≠ 0

/- The word a chunk of bytes is written as. -/
def piece (charset : Str) (chunk : Bytes) : Token :=
  { charset := charset
    cte := 'b'
    text := Base64.encode chunk }

/-
  The chunks of a word that is split: its bytes in order, in
  pieces that are words of the permitted length, and between
  characters where they are UTF-8. All but the last are as
  full as can be.
-/
structure IsSplit
    (charset : Str)
    (bytes : Bytes)
    (chunks : List Bytes) : Prop where
  whole : chunks.flatten = bytes
  nonempty : ∀ chunk ∈ chunks, chunk ≠ []
  short :
    ∀ chunk ∈ chunks,
      (piece charset chunk).written.length ≤ maxEncodedWord
  utf8 :
    isUtf8Charset charset = true →
      ∀ chunk ∈ chunks, (fromUtf8 chunk).isSome = true
  last :
    ∀ chunk ∈ chunks.getLast?,
      chunk.length = lastSize charset bytes

/- A piece is a word. -/
theorem piece_wellFormed
    (hBase64 : Base64Laws)
    {charset : Str}
    (hMark : '?' ∉ charset)
    (chunk : Bytes) :
    (piece charset chunk).WellFormed := by
  refine { charset := hMark, text := ?_, encoding := rfl }
  intro hMem
  rcases hBase64.alphabet chunk '?' hMem with h | h | h | h <;>
    revert h <;> decide

/- It says its chunk. -/
theorem decode_piece
    (hBase64 : Base64Laws)
    {charset : Str}
    (hName :
      isAsciiCompatibleCharset (charsetName charset) = true)
    (chunk : Bytes) :
    (piece charset chunk).decode = some chunk := by
  have hDecode := hBase64.decode chunk
  have hEncoding : transferEncoding ['b'] = some true := rfl
  simp only [Token.decode, Token.word, decodeWord, piece,
    hName, hEncoding, Option.getD_some, Bool.not_true,
    Bool.false_eq_true, if_false]
  exact hDecode

/- A chunk that fits the room makes a short piece. -/
theorem length_piece
    (hBase64 : Base64Laws)
    {charset : Str}
    {chunk : Bytes}
    (hFits : charset.length + 7 ≤ maxEncodedWord)
    (hRoom : chunk.length ≤ pieceRoom charset) :
    (piece charset chunk).written.length ≤
      maxEncodedWord := by
  have hLength := hBase64.length chunk
  rw [pieceRoom] at hRoom
  rw [Token.length_written]
  simp only [piece, hLength]
  omega

/- The cuts of `splitFrom`, and what it writes. -/
theorem splitFrom_spec
    {charset : Str}
    {bytes : Bytes}
    {onBoundaries : Bool}
    {room offset : Nat}
    {words : List Str}
    {front rest : List Nat}
    (hUnits : Units bytes onBoundaries (front ++ rest))
    (hOffset : offset = front.sum)
    (hSplit :
      splitFrom charset bytes onBoundaries room offset =
        some words) :
    ∃ (chunks : List Bytes) (boxes : List (List Nat)),
      words =
          chunks.map (fun chunk =>
            (piece charset chunk).written) ∧
        chunks.flatten = bytes.drop offset ∧
        (∀ chunk ∈ chunks,
          chunk ≠ [] ∧ chunk.length ≤ room) ∧
        (onBoundaries = true →
          ∀ s t, bytes = utf8 s ++ utf8 t →
            offset = (utf8 s).length →
            ∀ chunk ∈ chunks, ∃ u, chunk = utf8 u) ∧
        Lib.Packing.Packs room rest boxes ∧
        chunks.map List.length = boxes.map List.sum := by
  fun_induction splitFrom charset bytes onBoundaries room
    offset generalizing words front rest with
  | case1 offset hEnd =>
      cases hSplit
      have hNil : rest = [] := by
        have hTotal := hUnits.total
        rw [List.sum_append] at hTotal
        cases rest with
        | nil => rfl
        | cons k rest =>
            have hPositive := hUnits.positive k (by simp)
            rw [List.sum_cons] at hTotal
            omega
      subst hNil
      exact
        ⟨[], [], rfl, (List.drop_eq_nil_of_le hEnd).symm,
          nofun, fun _ _ _ _ _ => nofun, .nil, rfl⟩
  | case2 => cases hSplit
  | case3 offset hEnd cut hCut =>
      rename_i encoded ih
      rcases Option.bind_eq_some_iff.mp hSplit with
        ⟨others, hRest, hWords⟩
      cases hWords
      rcases cutSize_box hUnits room with
        ⟨box, later, rfl, hBox, hFits, hFull⟩
      rw [← hOffset] at hBox
      have hBox' : cut = box.sum := hBox
      have hUnits' :
          Units bytes onBoundaries
            ((front ++ box) ++ later) := by
        rw [List.append_assoc]
        exact hUnits
      rcases
        ih hUnits'
          (by rw [List.sum_append, hOffset, hBox']) hRest with
        ⟨chunks, boxes, rfl, hWhole, hSizes, hUtf8, hPacks,
          hSums⟩
      have hLe : cut ≤ min (bytes.length - offset) room :=
        cutSize_le bytes onBoundaries offset _
      have hLength :
          ((bytes.drop offset).take cut).length = cut := by
        rw [List.length_take, List.length_drop]
        omega
      have hNonempty : box ≠ [] := by
        rintro rfl
        exact hCut hBox'
      refine
        ⟨(bytes.drop offset).take cut :: chunks,
          box :: boxes, ?_, ?_, ?_, ?_,
          .box hNonempty hFits hFull hPacks, ?_⟩
      · simp [piece, Token.written, encoded]
      · rw [List.flatten_cons, hWhole, ← List.drop_drop,
          List.take_append_drop]
      · intro chunk hMem
        rcases List.mem_cons.mp hMem with rfl | hLater
        · refine ⟨?_, by omega⟩
          rw [← List.length_pos_iff, hLength]
          exact Nat.pos_of_ne_zero hCut
        · exact hSizes chunk hLater
      · intro hOn s t hBytes hOffset
        have hBoundary :
            isCharBoundary (utf8 s ++ utf8 t)
              ((utf8 s).length + cut) = true := by
          rw [← hBytes, ← hOffset]
          exact cutSize_isCharBoundary hOn hCut
        have hRest : isCharBoundary (utf8 t) cut = true :=
          (isCharBoundary_append hBoundary).resolve_left hCut
        have hInside : cut ≤ (utf8 t).length := by
          rw [hBytes, List.length_append, ← hOffset] at hLe
          omega
        rcases split_of_isCharBoundary hInside hRest with
          ⟨a, b, rfl, hA⟩
        have hDrop : bytes.drop offset = utf8 a ++ utf8 b := by
          rw [hBytes, hOffset, List.drop_left, utf8_append]
        intro chunk hMem
        rcases List.mem_cons.mp hMem with rfl | hLater
        · exact ⟨a, by rw [hDrop, ← hA, List.take_left]⟩
        · refine hUtf8 hOn (s ++ a) b ?_ ?_ chunk hLater
          · rw [hBytes, utf8_append, utf8_append,
              List.append_assoc]
          · rw [utf8_append, List.length_append, hA, hOffset]
      · rw [List.map_cons, List.map_cons, hSums, hLength,
          hBox']

/- All bytes are written when every thing fits. -/
theorem splitFrom_isSome_iff
    {charset : Str}
    {bytes : Bytes}
    {onBoundaries : Bool}
    {room offset : Nat}
    {front rest : List Nat}
    (hUnits : Units bytes onBoundaries (front ++ rest))
    (hOffset : offset = front.sum) :
    (splitFrom charset bytes onBoundaries room
        offset).isSome = true ↔
      ∀ k ∈ rest, k ≤ room := by
  constructor
  · intro hSome
    rcases Option.isSome_iff_exists.mp hSome with
      ⟨words, hSplit⟩
    rcases splitFrom_spec hUnits hOffset hSplit with
      ⟨_, _, -, -, -, -, hPacks, -⟩
    exact hPacks.fits
  intro hRoom
  fun_induction splitFrom charset bytes onBoundaries room
    offset generalizing front rest with
  | case1 => rfl
  | case2 offset hEnd cut =>
      exfalso
      rename_i hCut
      rcases cutSize_box hUnits room with
        ⟨box, later, rfl, hBox, -, hFull⟩
      rw [← hOffset] at hBox
      have hZero : box.sum = 0 := hBox.symm.trans hCut
      have hNil : box = [] := by
        cases box with
        | nil => rfl
        | cons k box =>
            have hPositive := hUnits.positive k (by simp)
            rw [List.sum_cons] at hZero
            omega
      subst hNil
      have hTotal := hUnits.total
      rw [List.nil_append, List.sum_append] at hTotal
      cases later with
      | nil =>
          rw [List.sum_nil] at hTotal
          omega
      | cons k later =>
          have hOver := hFull k rfl
          have hFits := hRoom k (by simp)
          rw [hZero] at hOver
          omega
  | case3 offset hEnd cut hCut =>
      rename_i encoded ih
      rcases cutSize_box hUnits room with
        ⟨box, later, rfl, hBox, -, -⟩
      rw [← hOffset] at hBox
      have hBox' : cut = box.sum := hBox
      have hUnits' :
          Units bytes onBoundaries
            ((front ++ box) ++ later) := by
        rw [List.append_assoc]
        exact hUnits
      rcases
        Option.isSome_iff_exists.mp
          (ih hUnits'
            (by rw [List.sum_append, hOffset, hBox'])
            fun k hMem =>
              hRoom k (List.mem_append_right _ hMem)) with
        ⟨others, hRest⟩
      rw [hRest]
      rfl

/- The room of `splitWord`, and the checks before it. -/
theorem splitWord_eq
    (charset : Str)
    (bytes : Bytes) :
    splitWord charset bytes =
      if maxEncodedWord < charset.length + 7 then
        none
      else if
          (isUtf8Charset charset && (fromUtf8 bytes).isNone) =
            true then
        none
      else
        (splitFrom charset bytes (isUtf8Charset charset)
          (pieceRoom charset) 0).map ([' '].intercalate ·) := by
  unfold splitWord
  have hOverhead : "=???b?=".length = 7 := rfl
  simp only [Option.bind_eq_bind, hOverhead]
  split
  · rfl
  show
    (if
        (isUtf8Charset charset && (fromUtf8 bytes).isNone) =
          true then _ else _) = _
  split
  · rfl
  · rw [Option.map_eq_bind]
    rfl

omit [Base64] in
theorem isSome_of_valid
    {charset : Str}
    {bytes : Bytes}
    (hValid :
      ¬ (isUtf8Charset charset && (fromUtf8 bytes).isNone) =
        true)
    (hOn : isUtf8Charset charset = true) :
    (fromUtf8 bytes).isSome = true := by
  rw [Bool.and_eq_true, not_and] at hValid
  have hSome := hValid hOn
  rw [Option.isNone_iff_eq_none] at hSome
  exact Option.isSome_iff_ne_none.mpr hSome

/- Every word is split into its pieces. -/
theorem splitWord_spec
    (hBase64 : Base64Laws)
    {charset : Str}
    {bytes : Bytes}
    {words : Str}
    (hSplit : splitWord charset bytes = some words) :
    ∃ chunks : List Bytes,
      IsSplit charset bytes chunks ∧
        words =
          [' '].intercalate
            (chunks.map fun chunk =>
              (piece charset chunk).written) := by
  rw [splitWord_eq] at hSplit
  split at hSplit
  · cases hSplit
  rename_i hOverhead
  split at hSplit
  · cases hSplit
  rename_i hValid
  rcases Option.map_eq_some_iff.mp hSplit with
    ⟨parts, hParts, rfl⟩
  have hBytes := isSome_of_valid hValid
  have hUnits :
      Units bytes (isUtf8Charset charset)
        ([] ++ units charset bytes) :=
    units_spec hBytes
  rcases splitFrom_spec hUnits rfl hParts with
    ⟨chunks, boxes, rfl, hWhole, hSizes, hUtf8, hPacks,
      hSums⟩
  refine ⟨chunks, ?_, rfl⟩
  have hFits : charset.length + 7 ≤ maxEncodedWord :=
    Nat.not_lt.mp hOverhead
  refine
    { whole := hWhole
      nonempty := fun chunk hMem => (hSizes chunk hMem).1
      short := fun chunk hMem =>
        length_piece hBase64 hFits (hSizes chunk hMem).2
      utf8 := fun hOn chunk hMem => ?_
      last := fun chunk hLast => ?_ }
  · rcases utf8_of_fromUtf8 (hBytes hOn) with ⟨s, rfl⟩
    rcases hUtf8 hOn [] s rfl rfl chunk hMem with ⟨u, rfl⟩
    rw [fromUtf8_utf8]
    rfl
  · have hSame := congrArg List.getLast? hSums
    rw [List.getLast?_map, List.getLast?_map,
      Option.mem_def.mp hLast] at hSame
    rcases Option.map_eq_some_iff.mp hSame.symm with
      ⟨box, hBox, hSum⟩
    rw [← hSum]
    exact hPacks.sum_last box hBox

/- And there are pieces exactly where there is room. -/
theorem splitWord_isSome_iff
    {charset : Str}
    {bytes : Bytes} :
    (splitWord charset bytes).isSome = true ↔
      CanSplit charset bytes := by
  rw [splitWord_eq]
  split
  · rename_i hOverhead
    refine iff_of_false Bool.false_ne_true fun hSplit => ?_
    exact absurd hSplit.fits (Nat.not_le.mpr hOverhead)
  rename_i hOverhead
  split
  · rename_i hInvalid
    refine iff_of_false Bool.false_ne_true fun hSplit => ?_
    rcases Bool.and_eq_true_iff.mp hInvalid with ⟨hOn, hNone⟩
    have hSome := hSplit.valid hOn
    rw [Option.isNone_iff_eq_none.mp hNone] at hSome
    cases hSome
  rename_i hValid
  have hBytes := isSome_of_valid hValid
  have hUnits :
      Units bytes (isUtf8Charset charset)
        ([] ++ units charset bytes) :=
    units_spec hBytes
  have hParts :
      (splitFrom charset bytes (isUtf8Charset charset)
          (pieceRoom charset) 0).isSome = true ↔
        ∀ k ∈ units charset bytes, k ≤ pieceRoom charset :=
    splitFrom_isSome_iff hUnits rfl
  rw [Option.isSome_map, hParts]
  constructor
  · exact fun hRoom =>
      { fits := Nat.not_lt.mp hOverhead
        valid := hBytes
        room := hRoom }
  · exact fun hSplit => hSplit.room

end Mime

end MailgunRelay

------------------------------------------------------------
-- The Standard Engine
------------------------------------------------------------

namespace MailgunRelay

/- The engines of the crate, on the standard alphabet. -/
@[reducible] def Base64.standard : Base64 :=
  { encode := Lib.Base64.encode
    decodeStrict := Lib.Base64.decodePadded
    decodeLenient := fun text =>
      (Lib.Base64.decodePadded text).or
        (Lib.Base64.decode text) }

namespace Mime

theorem base64Laws_standard :
    let _ : Base64 := .standard
    Base64Laws := by
  intro _
  have hAlphabet :
      (Lib.Base64.alphabet.all fun c =>
        c.isAlphanum || c == '+' || c == '/') = true := by
    decide +kernel
  refine
    { alphabet := fun bytes c hMem => ?_
      length := Lib.Base64.length_encode
      decode := fun bytes => ?_ }
  · rcases Lib.Base64.encode_mem hMem with hDigit | hPad
    · have hPlain := List.all_eq_true.mp hAlphabet c hDigit
      simp only [Bool.or_eq_true, beq_iff_eq] at hPlain
      rcases hPlain with (hAlnum | hPlus) | hSlash
      · exact .inl hAlnum
      · exact .inr (.inl hPlus)
      · exact .inr (.inr (.inl hSlash))
    · exact .inr (.inr (.inr hPad))
  · have hDecode := Lib.Base64.decode_encode bytes
    show
      (Lib.Base64.decodePadded
        ((Lib.Base64.encode bytes).rdropWhile (· == '='))).or
          (Lib.Base64.decode
            ((Lib.Base64.encode bytes).rdropWhile
              (· == '='))) = some bytes
    rw [hDecode, Lib.Base64.decodePadded,
      List.rdropWhile_idempotent]
    split
    · rw [hDecode]
      rfl
    · rfl

theorem paddingLaws_standard :
    let _ : Base64 := .standard
    PaddingLaws := by
  intro _
  refine { padded := fun bytes => ?_ }
  show (Lib.Base64.encode bytes).getLast? = some '=' ↔ _
  unfold Lib.Base64.encode
  by_cases hWhole : bytes.length % 3 = 0
  · rw [hWhole, List.replicate_zero, List.append_nil]
    refine iff_of_false (fun hLast => ?_) (fun hNot => hNot rfl)
    have hPlain : Lib.Base64.alphabet.contains '=' = false := by
      decide +kernel
    have hMem :=
      Lib.Base64.digits_mem (List.mem_of_getLast? hLast)
    rw [List.contains_iff_mem.mpr hMem] at hPlain
    cases hPlain
  · have hPads : (3 - bytes.length % 3) % 3 ≠ 0 := by omega
    refine iff_of_true ?_ hWhole
    rw [List.getLast?_append, List.getLast?_replicate,
      if_neg hPads]
    rfl

end Mime

end MailgunRelay
