import MailgunRelay.Pipeline.Visible
import MailgunRelay.Smtp.Answered
import MailgunRelay.Smtp.Cleanup

/-
  What the log shows of a request and its session.

  The submitter calls the logger too: for a `QUIT` that is
  not answered 221.  So all that one request writes is a
  function of what the pipeline shows of it and of the reply
  to `QUIT`.

  Key definitions include:
    * `MailgunRelay.Smtp.calls`
    * `MailgunRelay.Smtp.Seen`
    * `MailgunRelay.Smtp.Seen.log`

  Key theorems include:
    * `MailgunRelay.Smtp.cleanup_eq`
    * `MailgunRelay.Smtp.calls_seen`
-/

------------------------------------------------------------
-- The Records Of A Session
------------------------------------------------------------

namespace MailgunRelay

namespace Smtp

/- The records of a `QUIT`, by its reply. -/
def Reply.cleanup (reply : Reply) : List CleanupFailed :=
  match reply.result with
  | .ok n => if n = 221 then [] else [.unexpectedReply]
  | .error error =>
      if error.status.isSome then [.negativeReply]
      else if error.isTimeout then [.timeout]
      else [.disconnected]

/- The reply to a `QUIT`. -/
def Event.quitReply : Event → Option Reply
| .sent _ .quit reply => some reply
| _ => none

/- The replies to the `QUIT`s of a history. -/
def quitReplies (trace : List Event) : List Reply :=
  trace.filterMap Event.quitReply

theorem quit_cleanup
    (script : Script)
    (w : Wire) :
    (quit script w).1 = script.quit.cleanup := by
  unfold quit Reply.cleanup Wire.command
  cases script.quit.result with
  | ok code => rfl
  | error error => rfl

theorem cleanup_length
    (script : Script) :
    script.quit.cleanup.length =
      if script.quit ≠ .code 221 then 1 else 0 := by
  rw [← quit_cleanup script .opened]
  exact length_quit script .opened

/- A session writes nothing, or what its `QUIT` amounts to. -/
theorem cleanup_cases
    (config : SmtpConfig)
    (script : Script)
    (message : BuiltMessage) :
    (session config script message).cleanup = [] ∨
      (session config script message).cleanup =
        script.quit.cleanup := by
  have hFinish
      (result : EStateM.Result Failure Wire (List Refusal)) :
      (finish script result).cleanup = [] ∨
        (finish script result).cleanup =
          script.quit.cleanup := by
    cases result with
    | ok refused w =>
        dsimp only [finish]
        split
        · exact .inr (quit_cleanup script w)
        · exact .inl rfl
    | error fault w =>
        dsimp only [finish]
        split
        · exact .inr (quit_cleanup script w)
        · exact .inl rfl
  unfold session
  split
  · exact .inl rfl
  · split
    · exact .inl rfl
    · split
      · exact hFinish _
      · exact .inl rfl

/- No `QUIT`, no reply to one. -/
theorem quitReplies_of_unquit
    {trace : List Event}
    (hUnquit : Unquit trace) :
    quitReplies trace = [] := by
  apply List.filterMap_eq_nil_iff.mpr
  intro event hEvent
  have hNot := hUnquit event hEvent
  unfold Event.quitReply
  split
  · cases hNot
  · rfl

/- A session has one `QUIT` at most. -/
theorem quitReplies_session
    (config : SmtpConfig)
    (script : Script)
    (message : BuiltMessage) :
    quitReplies (session config script message).trace =
      if quits config script message.envelope then
        [script.quit]
      else
        [] := by
  rcases (session_cleanup config script message).history with
    ⟨before, encrypted, hUnquit, -, hTrace⟩
  rw [hTrace]
  unfold quitReplies
  rw [List.filterMap_append]
  rw [show before.filterMap Event.quitReply = [] from
    quitReplies_of_unquit hUnquit, List.nil_append]
  split
  · rfl
  · rfl

/- The replies to `QUIT` say what a session writes. -/
theorem cleanup_eq
    (config : SmtpConfig)
    (script : Script)
    (message : BuiltMessage) :
    (session config script message).cleanup =
      (quitReplies
        (session config script message).trace).flatMap
          Reply.cleanup := by
  have hLength :=
    (session_cleanup config script message).cleanup
  have hReply := cleanup_length script
  rw [quitReplies_session]
  by_cases hQuits :
      quits config script message.envelope = true
  · simp only [hQuits, true_and] at hLength
    rw [if_pos hQuits, List.flatMap_singleton]
    rcases cleanup_cases config script message with
      hNone | hSome
    · rw [hNone, List.length_nil] at hLength
      rw [← hLength] at hReply
      rw [hNone, List.length_eq_zero_iff.mp hReply]
    · exact hSome
  · rw [if_neg hQuits, List.flatMap_nil]
    rw [if_neg fun h => hQuits h.1] at hLength
    exact List.length_eq_zero_iff.mp hLength

end Smtp

end MailgunRelay

------------------------------------------------------------
-- The Log Of A Request
------------------------------------------------------------

namespace MailgunRelay

namespace Smtp

open Pipeline

variable [Unicode] [Idna]

/- The `error_class` of a record. -/
def CleanupFailed.errorClass : CleanupFailed → Str
| .unexpectedReply => "UnexpectedReply".toList
| .negativeReply => "NegativeReply".toList
| .timeout => "Timeout".toList
| .disconnected => "Disconnected".toList

/- The submitter's call of the logger. -/
def cleanupCall
    (failed : CleanupFailed) : LogCall Pipeline.Event :=
  { level := .warning
    logger := serviceLogger
    event := .smtpCleanupFailed failed.errorClass }

/- The pipeline in front of a mail server. -/
def componentsVia
    (config : SmtpConfig)
    (script : Script)
    (c : Components) : Components :=
  { c with submit := submitVia config script }

/-
  All calls of the logger that one request causes.  The
  session is over, its `QUIT` included, before the pipeline
  writes anything.
-/
def calls
    (config : SmtpConfig)
    (script : Script)
    (c : Components)
    (relay : Relay)
    (request : Pipeline.Request) :
    List (LogCall Pipeline.Event) :=
  let w :=
    (postMessages (componentsVia config script c)
      relay request).1
  w.submitted.flatMap (fun message =>
      (session config script message).cleanup.map
        cleanupCall) ++
    w.emitted

/- All that the log shows of a request and its session. -/
structure Seen where
  request : Visible
  quits : List Reply

/- The calls of the logger. -/
def Seen.log (seen : Seen) : List (LogCall Pipeline.Event) :=
  (seen.quits.flatMap Reply.cleanup).map cleanupCall ++
    seen.request.log

/- What the log shows of a request and its session. -/
def seen
    (config : SmtpConfig)
    (script : Script)
    (c : Components)
    (relay : Relay)
    (request : Pipeline.Request) : Seen :=
  let c := componentsVia config script c
  { request := visible c relay request
    quits :=
      (postMessages c relay
          request).1.submitted.flatMap
        fun message =>
          quitReplies (traceOf config script message) }

/-
  All that one request writes is in what the log shows of
  it and of its session, which has one `QUIT` at most.  So
  requests that agree on it have the same log, and subjects,
  bodies, uploads, headers, recipients and credentials are
  not in it.
-/
theorem calls_seen
    (config : SmtpConfig)
    (script : Script)
    (c : Components)
    (relay : Relay)
    (request : Pipeline.Request) :
    calls config script c relay request =
        (seen config script c relay request).log ∧
      (seen config script c relay request).quits.length ≤ 1 := by
  have hMessages :=
    (postMessages_follows (componentsVia config script c)
      relay request).submitted
  constructor
  · unfold calls Seen.log seen
    dsimp only
    rw [emitted_visible, List.flatMap_assoc,
      List.map_flatMap]
    congr 2
    funext message
    rw [cleanup_eq]
    rfl
  · unfold seen
    dsimp only
    rw [hMessages]
    cases course (componentsVia config script c) relay
        request with
    | refused failure => exact Nat.zero_le 1
    | submitted message submission =>
        unfold Course.messages traceOf
        rw [List.flatMap_singleton, quitReplies_session]
        split
        · exact Nat.le_refl 1
        · exact Nat.zero_le 1

end Smtp

end MailgunRelay
