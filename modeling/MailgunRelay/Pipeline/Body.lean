import MailgunRelay.Pipeline

/-
  The body limit: what is read of a body depends on its
  bytes, and not on the frames they arrive in.

  Key definitions include:
    * `MailgunRelay.Pipeline.chunks`
    * `MailgunRelay.Pipeline.content`

  Key theorems include:
    * `MailgunRelay.Pipeline.readFrames_complete`
    * `MailgunRelay.Pipeline.readFrames_failed`
    * `MailgunRelay.Pipeline.readBody_segments`
-/

------------------------------------------------------------
-- Frames
------------------------------------------------------------

namespace MailgunRelay

namespace Pipeline

/- The data of a frame. -/
def Frame.chunk : Frame → Option Bytes
| .data bytes => some bytes
| .trailers => none
| .failed => none

/- The data frames, in order. -/
def chunks (frames : List Frame) : List Bytes :=
  frames.filterMap Frame.chunk

/- The bytes of a body. -/
def content (frames : List Frame) : Bytes :=
  (chunks frames).flatten

/- A body that is too long for its beginning is too long. -/
theorem exceeds_append
    {bytes : Bytes}
    {maxBodyBytes : I64}
    (hExceeds : exceeds bytes.length maxBodyBytes = true)
    (rest : Bytes) :
    exceeds (bytes ++ rest).length maxBodyBytes = true := by
  rw [exceeds_iff] at hExceeds ⊢
  rw [List.length_append]
  omega

/- Without a read error only the whole content counts. -/
theorem readFrames_complete
    {frames : List Frame}
    (hComplete : .failed ∉ frames)
    (maxBodyBytes : I64)
    (bytes : Bytes) :
    readFrames maxBodyBytes bytes frames =
      if exceeds (bytes ++ content frames).length
          maxBodyBytes then
        .error (bodyTooLarge maxBodyBytes)
      else
        .ok (bytes ++ content frames) := by
  induction frames generalizing bytes with
  | nil =>
      have hContent : content [] = [] := rfl
      rw [readFrames, hContent, List.append_nil]
  | cons frame frames ih =>
      rw [List.mem_cons, not_or] at hComplete
      cases frame with
      | failed => exact absurd rfl hComplete.1
      | trailers => exact ih hComplete.2 bytes
      | data data =>
          have hContent :
              content (.data data :: frames) =
                data ++ content frames := rfl
          rw [readFrames, hContent, ← List.append_assoc]
          by_cases hExceeds :
              exceeds (bytes ++ data).length maxBodyBytes =
                true
          · rw [if_pos hExceeds,
              if_pos (exceeds_append hExceeds _)]
          · rw [if_neg hExceeds]
            exact ih hComplete.2 (bytes ++ data)

/-
  At a read error the body is too large if a data frame came
  before it and the content so far exceeds the limit.
-/
theorem readFrames_failed
    {before rest : List Frame}
    (hBefore : .failed ∉ before)
    (maxBodyBytes : I64)
    (bytes : Bytes) :
    readFrames maxBodyBytes bytes (before ++ .failed :: rest) =
      .error
        (if chunks before ≠ [] ∧
            exceeds (bytes ++ content before).length
              maxBodyBytes = true then
          bodyTooLarge maxBodyBytes
        else
          malformed "malformed form".toList) := by
  induction before generalizing bytes with
  | nil => rfl
  | cons frame frames ih =>
      rw [List.mem_cons, not_or] at hBefore
      cases frame with
      | failed => exact absurd rfl hBefore.1
      | trailers => exact ih hBefore.2 bytes
      | data data =>
          have hChunks :
              chunks (.data data :: frames) ≠ [] :=
            List.cons_ne_nil _ _
          have hContent :
              content (.data data :: frames) =
                data ++ content frames := rfl
          rw [List.cons_append, readFrames, hContent,
            ← List.append_assoc]
          by_cases hExceeds :
              exceeds (bytes ++ data).length maxBodyBytes =
                true
          · rw [if_pos hExceeds,
              if_pos ⟨hChunks, exceeds_append hExceeds _⟩]
          · rw [if_neg hExceeds, ih hBefore.2 (bytes ++ data)]
            by_cases hMore : chunks frames = []
            · have hNothing : content frames = [] := by
                rw [content, hMore, List.flatten_nil]
              rw [hNothing, List.append_nil,
                if_neg (fun h => h.1 hMore),
                if_neg (fun h => hExceeds h.2)]
            · simp only [ne_eq, hMore, hChunks,
                not_false_eq_true, true_and]

end Pipeline

end MailgunRelay

------------------------------------------------------------
-- Segmentation
------------------------------------------------------------

namespace MailgunRelay

namespace Pipeline

variable [Unicode]

/-
  A body is read by its content: too large exactly when the
  content exceeds the limit, and otherwise just the content.
  A read error is too large when a data frame came before it
  and the content so far exceeds the limit, and malformed
  otherwise.  So the step that reads the form does not
  depend on the frames of a body.
-/
theorem readBody_segments :
    (∀ (frames : List Frame) (maxBodyBytes : I64),
      .failed ∉ frames →
        readBody frames maxBodyBytes =
          if maxBodyBytes.val < ((content frames).length : Int)
            then
            .error (bodyTooLarge maxBodyBytes)
          else
            .ok (content frames)) ∧
    (∀ (before rest : List Frame) (maxBodyBytes : I64),
      .failed ∉ before →
        readBody (before ++ .failed :: rest) maxBodyBytes =
          .error
            (if chunks before ≠ [] ∧
                maxBodyBytes.val <
                  ((content before).length : Int) then
              bodyTooLarge maxBodyBytes
            else
              malformed "malformed form".toList)) ∧
    ∀ (settings : Settings) (request : Request)
        (frames frames' : List Frame),
      .failed ∉ frames → .failed ∉ frames' →
        content frames = content frames' →
          readForm settings { request with body := frames } =
            readForm settings
              { request with body := frames' } := by
  have hComplete (frames : List Frame) (maxBodyBytes : I64)
      (hFrames : .failed ∉ frames) :
      readBody frames maxBodyBytes =
        if maxBodyBytes.val < ((content frames).length : Int)
          then
          .error (bodyTooLarge maxBodyBytes)
        else
          .ok (content frames) := by
    rw [readBody, readFrames_complete hFrames, List.nil_append]
    simp only [exceeds_iff]
  refine ⟨hComplete, ?_, ?_⟩
  · intro before rest maxBodyBytes hBefore
    rw [readBody, readFrames_failed hBefore, List.nil_append]
    simp only [exceeds_iff]
  · intro settings request frames frames' hFrames hFrames'
      hContent
    have hRead :
        readBody frames settings.maxBodyBytes =
          readBody frames' settings.maxBodyBytes := by
      rw [hComplete frames _ hFrames,
        hComplete frames' _ hFrames', hContent]
    unfold readForm
    rw [hRead]
    rfl

end Pipeline

end MailgunRelay

------------------------------------------------------------
-- Two Bodies
------------------------------------------------------------

namespace MailgunRelay

namespace Pipeline

/- Empty frames and trailers do not count. -/
theorem readBody_segments_three :
    let _ : Unicode := .ascii
    readBody
        [.data [1], .trailers, .data [], .data [2, 3]]
        ⟨3, by decide⟩ =
      .ok [1, 2, 3] := by
  intro unicode
  exact readBody_segments.1 _ _ (by decide)

/- No limit is exceeded before the first data frame. -/
theorem readBody_failed_at_once :
    ¬ ∀ (before rest : List Frame) (maxBodyBytes : I64),
      .failed ∉ before →
        readBody (before ++ .failed :: rest) maxBodyBytes =
          .error
            (if maxBodyBytes.val <
                ((content before).length : Int) then
              bodyTooLarge maxBodyBytes
            else
              malformed "malformed form".toList) := by
  intro hAll
  have hFailed := hAll [] [] ⟨-1, by decide⟩ (by decide)
  cases hFailed

end Pipeline

end MailgunRelay
