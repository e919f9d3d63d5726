import MailgunRelay.Service

/-
  The steps of one request task: what they do to the free
  slots, what the task has put out at each stage, and that
  an ended task did what `process` does.

  Key definitions include:
    * `MailgunRelay.Service.Moves`
    * `MailgunRelay.Service.Ended`
    * `MailgunRelay.Service.Stage.Valid`

  Key theorems include:
    * `MailgunRelay.Service.Moves.slots`
    * `MailgunRelay.Service.Moves.submissions`
    * `MailgunRelay.Service.Moves.valid`
-/

------------------------------------------------------------
-- The Output Of A Decision
------------------------------------------------------------

namespace MailgunRelay

namespace Pipeline

/- The request records a world holds. -/
def World.requests (w : World) : List (LogCall Event) :=
  w.emitted.filter LogCall.isRequest

/- The same submissions and request records. -/
structure SameOutput (w w' : World) : Prop where
  submitted : w'.submitted = w.submitted
  requests : w'.requests = w.requests

theorem SameOutput.refl
    (w : World) :
    SameOutput w w :=
  { submitted := rfl
    requests := rfl }

theorem SameOutput.trans
    {w w' w'' : World}
    (hFirst : SameOutput w w')
    (hSecond : SameOutput w' w'') :
    SameOutput w w'' :=
  { submitted := hSecond.submitted.trans hFirst.submitted
    requests := hSecond.requests.trans hFirst.requests }

/- A computation without output. -/
abbrev Silent
    {α : Type}
    (m : Decision α) : Prop :=
  Lib.Leads SameOutput m

theorem Silent.bind
    {α β : Type}
    {m : Decision α}
    {f : α → Decision β}
    (hFirst : Silent m)
    (hRest : ∀ a, Silent (f a)) :
    Silent (m >>= f) :=
  Lib.Leads.bind SameOutput.trans hFirst hRest

theorem silent_pure
    {α : Type}
    (a : α) :
    Silent (pure a) :=
  .of_pure .refl a

theorem silent_check
    {α : Type}
    (result : Except Failure α) :
    Silent (check result) := by
  cases result with
  | ok a => exact .of_pure .refl a
  | error failure => exact .of_throw .refl _

theorem silent_setRecord
    (f : Record → Record) :
    Silent (setRecord f) :=
  .of_modify fun _ => ⟨rfl, rfl⟩

theorem silent_untilSlot
    (c : Components)
    (relay : Relay)
    (request : Request) :
    Silent (untilSlot c relay request) := by
  unfold untilSlot
  refine (silent_check _).bind fun policy => ?_
  refine (silent_setRecord _).bind fun _ => ?_
  refine (silent_check _).bind fun items => ?_
  refine (silent_check _).bind fun parsed => ?_
  refine (silent_setRecord _).bind fun _ => ?_
  refine (silent_check _).bind fun mailbox => ?_
  refine (silent_check _).bind fun subject => ?_
  refine (silent_check _).bind fun _ => ?_
  refine (silent_check _).bind fun _ => ?_
  refine (silent_check _).bind fun message => ?_
  exact (silent_setRecord _).bind fun _ => silent_pure message

variable [Unicode]

/- A warning is no request record. -/
theorem silent_logPartialRefusal
    (messageId : Str)
    (refused : List Refusal) :
    Silent (logPartialRefusal messageId refused) := by
  intro w
  refine ⟨rfl, ?_⟩
  show List.filter _ (w.emitted ++ [_]) = _
  rw [List.filter_append]
  exact List.append_nil _

theorem silent_answer
    (settings : Settings)
    (messageId : Str)
    (refused : List Refusal) :
    Silent (answer settings messageId refused) := by
  unfold answer
  refine (silent_setRecord _).bind fun _ => ?_
  dsimp only
  split
  · exact silent_pure _
  · refine (silent_setRecord _).bind fun _ => ?_
    refine (silent_logPartialRefusal _ _).bind fun _ => ?_
    refine (silent_setRecord _).bind fun _ => ?_
    split
    · exact fun w => .refl w
    · exact silent_pure _

/- With a slot, the message is submitted once. -/
theorem withSlot_output
    (submit : BuiltMessage → Submission)
    (settings : Settings)
    (message : BuiltMessage)
    (w : World) :
    Lib.Wp (withSlot submit settings message)
      (fun _ => SameOutput
        { w with submitted := w.submitted ++ [message] })
      (fun _ => SameOutput
        { w with submitted := w.submitted ++ [message] })
      w := by
  unfold withSlot submitMessage
  simp only [Lib.wp_bind, Lib.wp_modify]
  cases submit message with
  | ok refused => exact silent_answer settings _ refused _
  | panic => exact .refl _
  | error error => cases error <;> exact .refl _

end Pipeline

end MailgunRelay

------------------------------------------------------------
-- Steps Of A Task
------------------------------------------------------------

namespace MailgunRelay

namespace Service

open Pipeline

variable [Unicode]

/- All a task may do, with the free slots. -/
inductive Moves (job : Job) :
    Stage → Nat → TaskAction → Stage → Nat → Prop where
  | prepared
      {w w' : World} {message : BuiltMessage} {free : Nat}
      (hReady :
        untilSlot job.components job.relay job.request w =
          .ok message w') :
      Moves job (.running w) free .prepared
        (.queued message w') free
  | refused
      {w w' : World} {abort : Abort} {free : Nat}
      (hStop :
        untilSlot job.components job.relay job.request w =
          .error abort w') :
      Moves job (.running w) free .prepared
        (.end job (.error abort w')) free
  | acquired
      {w : World} {message : BuiltMessage} {free : Nat} :
      Moves job (.queued message w) (free + 1) .acquired
        (.submitting message w) free
  | returned
      {w : World} {message : BuiltMessage} {free : Nat}
      {submission : Submission} :
      Moves job (.submitting message w) free
        (.returned submission)
        (.submitted message submission w) (free + 1)
  | finished
      {w : World} {message : BuiltMessage} {free : Nat}
      {submission : Submission} :
      Moves job (.submitted message submission w) free
        .finished
        (.end job
          (withSlot (fun _ => submission) job.relay.settings
            message w)) free
  | unwound
      {stage : Stage} {w : World} {free : Nat}
      (hSubmitted : w.submitted = stage.world.submitted)
      (hRequests : w.requests = []) :
      Moves job stage free (.panicked w)
        (.end job (.error .panic w))
        (free + stage.inFlight.toNat)

/- Every step is one of these moves. -/
theorem Stage.step_moves
    {job : Job}
    {free free' : Nat}
    {stage stage' : Stage}
    {action : TaskAction}
    (hStep :
      stage.step job free action = some (stage', free')) :
    Moves job stage free action stage' free' := by
  unfold Stage.step at hStep
  split at hStep
  · split at hStep
    · rename_i hReady
      cases hStep
      exact .prepared hReady
    · rename_i hStop
      cases hStep
      exact .refused hStop
  · split at hStep
    · rename_i hFree
      cases hStep
      rcases Nat.exists_eq_add_of_lt hFree with ⟨k, rfl⟩
      simp only [Nat.zero_add, Nat.add_sub_cancel]
      exact .acquired
    · cases hStep
  · cases hStep
    exact .returned
  · cases hStep
    exact .finished
  · cases hStep
  · rcases Option.map_eq_some_iff.mp hStep with
      ⟨ended, hUnwind, hEq⟩
    unfold Stage.unwind at hUnwind
    split at hUnwind
    · rename_i hLeft
      cases hUnwind
      cases hEq
      have hMove :
          Moves job stage free (.panicked _) _
            (free + stage.inFlight.toNat) :=
        .unwound hLeft.1 hLeft.2
      cases hFlight : stage.inFlight <;>
        simpa [hFlight] using hMove
    · cases hUnwind
  · cases hStep

/- A slot in use is a slot that is not free. -/
theorem Moves.slots
    {job : Job}
    {free free' : Nat}
    {stage stage' : Stage}
    {action : TaskAction}
    (hMove : Moves job stage free action stage' free') :
    stage'.inFlight.toNat + free' =
      stage.inFlight.toNat + free := by
  cases hMove with
  | unwound hSubmitted hRequests =>
      simp [Stage.end, Stage.inFlight, Nat.add_comm]
  | _ => simp [Stage.end, Stage.inFlight, Nat.add_comm]

end Service

end MailgunRelay

------------------------------------------------------------
-- What A Task Keeps
------------------------------------------------------------

namespace MailgunRelay

namespace Service

open Pipeline

/- The end of a task writes its record, and nothing else. -/
theorem endTask_output
    (relay : Relay)
    (m : Decision Response)
    (w : World)
    {w₀ : World}
    (hOutput :
      Lib.Wp m (fun _ => SameOutput w₀)
        (fun _ => SameOutput w₀) w) :
    (endTask relay (m w)).1.submitted = w₀.submitted ∧
      (endTask relay (m w)).1.requests =
        w₀.requests ++
          [requestCall relay (endTask relay (m w)).1.record] := by
  unfold Lib.Wp at hOutput
  cases hRun : m w with
  | ok response w' =>
      rw [hRun] at hOutput
      refine ⟨hOutput.submitted, ?_⟩
      rw [← hOutput.requests]
      exact List.filter_append _ _
  | error abort w' =>
      rw [hRun] at hOutput
      cases abort with
      | failure failure =>
          refine ⟨hOutput.submitted, ?_⟩
          rw [← hOutput.requests]
          exact List.filter_append _ _
      | panic =>
          refine ⟨hOutput.submitted, ?_⟩
          rw [← hOutput.requests]
          exact List.filter_append _ _

/- The number of submissions a task has entered. -/
def Stage.submissions (stage : Stage) : Nat :=
  stage.world.submitted.length

variable [Unicode]

/- Only a granted slot adds a submission. -/
theorem Moves.submissions
    {job : Job}
    {free free' : Nat}
    {stage stage' : Stage}
    {action : TaskAction}
    (hMove : Moves job stage free action stage' free') :
    stage'.submissions =
      stage.submissions + action.isAcquired.toNat := by
  unfold Stage.submissions
  cases hMove with
  | @prepared w w' message free hReady =>
      have hSame :=
        (silent_untilSlot job.components job.relay
          job.request w).of_ok hReady
      exact congrArg List.length hSame.submitted
  | @refused w w' abort free hStop =>
      have hSame :=
        (silent_untilSlot job.components job.relay
          job.request w).of_error hStop
      have hEnd :=
        endTask_output job.relay (fun _ => .error abort w') w
          hSame
      exact congrArg List.length hEnd.1
  | acquired =>
      exact List.length_append
  | returned => rfl
  | @finished w message free submission =>
      have hEnd :=
        endTask_output job.relay _ _
          (withSlot_output (fun _ => submission)
            job.relay.settings message w)
      exact congrArg List.length hEnd.1
  | unwound hSubmitted hRequests =>
      exact congrArg List.length hSubmitted

variable [Idna]

/-
  How a task ended: with one record, at most one submission,
  and what the request task does with the result of its
  submission, unless it panicked.
-/
structure Ended
    (job : Job)
    (w : World)
    (response : Option Response) : Prop where
  recorded :
    w.requests = [requestCall job.relay w.record]
  submitted : w.submitted.length ≤ 1
  processed :
    response = none ∨
      ∃ submission,
        process (job.components.submitting submission)
            job.relay job.request =
          (w, response)

/- What holds of a task at each of its stages. -/
def Stage.Valid (job : Job) : Stage → Prop
| .running w => w = initialWorld job.relay job.request
| .queued message w | .submitting message w
| .submitted message _ w =>
    untilSlot job.components job.relay job.request
        (initialWorld job.relay job.request) =
      .ok message w
| .ended w response => Ended job w response

/- A prepared task has put out nothing. -/
theorem untilSlot_output
    {job : Job}
    {message : BuiltMessage}
    {w : World}
    (hReady :
      untilSlot job.components job.relay job.request
          (initialWorld job.relay job.request) =
        .ok message w) :
    w.submitted = [] ∧ w.requests = [] := by
  have hSame :=
    (silent_untilSlot job.components job.relay job.request
      _).of_ok hReady
  exact ⟨hSame.submitted, hSame.requests⟩

/- A task submits at most once. -/
theorem Stage.Valid.submissions_le
    {job : Job}
    {stage : Stage}
    (hValid : stage.Valid job) :
    stage.submissions ≤ 1 := by
  unfold Stage.submissions
  cases stage with
  | running w =>
      rw [show w = _ from hValid]
      exact Nat.zero_le 1
  | queued message w =>
      rw [show (Stage.queued message w).world = w from rfl,
        (untilSlot_output hValid).1]
      exact Nat.zero_le 1
  | submitting message w =>
      have hNone := (untilSlot_output hValid).1
      simp [Stage.world, hNone]
  | submitted message submission w =>
      have hNone := (untilSlot_output hValid).1
      simp [Stage.world, hNone]
  | ended w response =>
      exact (show Ended job w response from hValid).submitted

/- What a step of a task keeps. -/
theorem Moves.valid
    {job : Job}
    {free free' : Nat}
    {stage stage' : Stage}
    {action : TaskAction}
    (hMove : Moves job stage free action stage' free')
    (hValid : stage.Valid job) :
    stage'.Valid job := by
  have hCount := hValid.submissions_le
  have hSubmissions := hMove.submissions
  cases hMove with
  | @prepared w w' message free hReady =>
      rw [show w = _ from hValid] at hReady
      exact hReady
  | @refused w w' abort free hStop =>
      cases (show w = _ from hValid)
      have hSame :=
        (silent_untilSlot job.components job.relay
          job.request _).of_error hStop
      have hEnd :=
        endTask_output job.relay (fun _ => .error abort w')
          (initialWorld job.relay job.request) hSame
      refine ⟨hEnd.2, ?_, .inr ⟨.panic, ?_⟩⟩
      · rw [hEnd.1]
        exact Nat.zero_le 1
      · exact process_stopped hStop .panic
  | acquired => exact hValid
  | returned => exact hValid
  | @finished w message free submission =>
      have hOutput := untilSlot_output hValid
      have hEnd :=
        endTask_output job.relay _ _
          (withSlot_output (fun _ => submission)
            job.relay.settings message w)
      refine ⟨?_, ?_, .inr ⟨submission, ?_⟩⟩
      · refine hEnd.2.trans ?_
        rw [show World.requests
              { w with submitted := w.submitted ++ [message] } =
            [] from hOutput.2]
        rfl
      · rw [hEnd.1, hOutput.1]
        exact Nat.le_refl 1
      · exact process_submitted hValid submission
  | @unwound stage w free hSubmitted hRequests =>
      refine ⟨?_, ?_, .inl rfl⟩
      · show List.filter _ (w.emitted ++ [_]) = _
        rw [List.filter_append,
          show List.filter _ w.emitted = [] from hRequests]
        rfl
      · exact hSubmissions.trans_le hCount

end Service

end MailgunRelay
