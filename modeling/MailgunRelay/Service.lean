import MailgunRelay.Lib.Run
import MailgunRelay.Pipeline.Audit

/-
  The running service (`main.rs`, `run`; `Relay::new` and
  the request tasks of `pipeline.rs`).

  Each request is a task of its own.  A task pauses where
  the source awaits the semaphore and where it awaits the
  submitter.  What happens in the service is a list of
  actions in any order; `step` says what each one does and
  when it is possible.

  Tokio's part is in the guards: a permit comes back when
  its holder drops it (also while it unwinds), a task does
  not depend on who awaits it, and the wait for the tasks
  ends once all of them have ended.

  Key definitions include:
    * `MailgunRelay.Service.Stage`
    * `MailgunRelay.Service.Stage.step`
    * `MailgunRelay.Service.State`
    * `MailgunRelay.Service.step`

  Key theorems include:
    * `MailgunRelay.Pipeline.decide_eq`
    * `MailgunRelay.Pipeline.process_submitted`
-/

------------------------------------------------------------
-- The Two Halves Of A Decision
------------------------------------------------------------

namespace MailgunRelay

namespace Pipeline

variable [Unicode]

/- Steps 2 to 9: up to the wait for a slot. -/
def untilSlot
    (c : Components)
    (relay : Relay)
    (request : Request) : Decision BuiltMessage := do
  let policy ←
    check (orUnauthorized
      (c.authenticate
        (request.header "authorization".toList)
        relay.tokens))
  setRecord fun r => { r with tokenLabel := policy.label }
  let items ← check (c.readForm request)
  let parsed ← check (c.parseForm items)
  let «from» := parsed.from.headD []
  setRecord fun r =>
    { r with «from» := «from».take fromLogMaxLen }
  let mailbox ←
    check ((enforceWith c.normalizeDomain c.parseMailbox
      policy request.domain «from»)
        |>.mapError policyFailure)
  let subject ←
    check ((c.validateSubject (parsed.subject.getD []))
      |>.mapError headerFailure)
  check ((c.validateCustomHeaders parsed.headers)
    |>.mapError headerFailure)
  check (checkCount relay.settings parsed)
  let message ←
    check
      ((c.build
        (messageInput relay.settings parsed mailbox
          subject)).mapError buildFailure)
  setRecord fun r =>
    { r with
      messageId := some message.messageId
      recipientCount := message.envelope.length }
  pure message

/- Steps 10 and 11: with a slot. -/
def withSlot
    (submit : BuiltMessage → Submission)
    (settings : Settings)
    (message : BuiltMessage) : Decision Response := do
  let refused ← submitMessage submit message
  answer settings message.messageId refused

/- The decision is its two halves. -/
theorem decide_eq
    (c : Components)
    (relay : Relay)
    (request : Request) :
    decide c relay request =
      untilSlot c relay request >>=
        withSlot c.submit relay.settings := by
  unfold decide untilSlot send deliver withSlot
  simp only [bind_assoc, pure_bind]

/- The same checks with another submitter. -/
def Components.submitting
    (c : Components)
    (submission : Submission) : Components :=
  { c with submit := fun _ => submission }

variable [Idna]

/- A request whose decision ends before it has a slot. -/
theorem process_stopped
    {c : Components}
    {relay : Relay}
    {request : Request}
    {abort : Abort}
    {w : World}
    (hStop :
      untilSlot c relay request (initialWorld relay request) =
        .error abort w)
    (submission : Submission) :
    process (c.submitting submission) relay request =
      endTask relay (.error abort w) := by
  have hSame :
      untilSlot (c.submitting submission) relay request
          (initialWorld relay request) =
        .error abort w :=
    hStop
  unfold process
  rw [decide_eq]
  show endTask relay (EStateM.bind _ _ _) = _
  simp only [EStateM.bind, hSame]

/- A request that gets a slot and a submission's result. -/
theorem process_submitted
    {c : Components}
    {relay : Relay}
    {request : Request}
    {message : BuiltMessage}
    {w : World}
    (hReady :
      untilSlot c relay request (initialWorld relay request) =
        .ok message w)
    (submission : Submission) :
    process (c.submitting submission) relay request =
      endTask relay
        (withSlot (fun _ => submission) relay.settings
          message w) := by
  have hSame :
      untilSlot (c.submitting submission) relay request
          (initialWorld relay request) =
        .ok message w :=
    hReady
  unfold process
  rw [decide_eq]
  show endTask relay (EStateM.bind _ _ _) = _
  simp only [EStateM.bind, hSame]
  rfl

end Pipeline

end MailgunRelay

------------------------------------------------------------
-- Tasks
------------------------------------------------------------

namespace MailgunRelay

namespace Service

open Pipeline

/- `smtp_max_concurrency`: a `u32` that is at least 1. -/
abbrev Concurrency := {n : Nat // 1 ≤ n ∧ n < 2 ^ 32}

/- `Semaphore::MAX_PERMITS` for a 64-bit `usize`. -/
def maxPermits : Nat := 2 ^ 61 - 1

/- The permits of the semaphore (`Relay::new`). -/
def slots (n : Concurrency) : Nat := min n.val maxPermits

/- What a request task works on. -/
structure Job where
  components : Components
  relay : Relay
  request : Request

/-
  Where a request task is.  A queued task has left its
  message and the world before the submission; an ended one
  has dropped its record.
-/
inductive Stage where
  | running (w : World)
  | queued (message : BuiltMessage) (w : World)
  | submitting (message : BuiltMessage) (w : World)
  | submitted
      (message : BuiltMessage)
      (submission : Submission)
      (w : World)
  | ended (w : World) (response : Option Response)

/- The world a task has left so far. -/
def Stage.world : Stage → World
| .running w => w
| .queued _ w => w
| .submitting message w =>
    { w with submitted := w.submitted ++ [message] }
| .submitted message _ w =>
    { w with submitted := w.submitted ++ [message] }
| .ended w _ => w

/- A submission is in flight: the task holds a slot. -/
def Stage.inFlight : Stage → Bool
| .submitting .. => true
| _ => false

def Stage.isEnded : Stage → Bool
| .ended .. => true
| _ => false

/-
  What may happen in a task: the message is ready or the
  decision fails, a slot is granted, the submitter returns,
  the response is there, or the task panics.  A panic leaves
  the world the task had reached.
-/
inductive TaskAction where
  | prepared
  | acquired
  | returned (submission : Submission)
  | finished
  | panicked (w : World)

def TaskAction.isAcquired : TaskAction → Bool
| .acquired => true
| _ => false

variable [Unicode] [Idna]

/- The task of a new request. -/
def Stage.start (job : Job) : Stage :=
  .running (initialWorld job.relay job.request)

/- The end of a task, with its world and response. -/
def Stage.end
    (job : Job)
    (result : EStateM.Result Abort World Response) : Stage :=
  .ended (endTask job.relay result).1
    (endTask job.relay result).2

/-
  The end of a task that panicked in a world of its own: the
  same submissions, and no request record yet.
-/
def Stage.unwind
    (job : Job)
    (stage : Stage)
    (w : World) : Option Stage :=
  if w.submitted = stage.world.submitted ∧
      w.emitted.filter LogCall.isRequest = [] then
    some (.end job (.error .panic w))
  else
    none

/- What an action does to a task and the free slots. -/
def Stage.step
    (job : Job)
    (free : Nat) :
    Stage → TaskAction → Option (Stage × Nat)
| .running w, .prepared =>
    match untilSlot job.components job.relay job.request w with
    | .ok message w => some (.queued message w, free)
    | .error abort w =>
        some (.end job (.error abort w), free)
| .queued message w, .acquired =>
    if 0 < free then
      some (.submitting message w, free - 1)
    else
      none
| .submitting message w, .returned submission =>
    some (.submitted message submission w, free + 1)
| .submitted message submission w, .finished =>
    some
      (.end job
        (withSlot (fun _ => submission) job.relay.settings
          message w),
        free)
| .ended .., .panicked _ => none
| stage, .panicked w =>
    -- Unwinding drops the permit of a task that has one.
    (stage.unwind job w).map fun stage' =>
      (stage', if stage.inFlight then free + 1 else free)
| _, _ => none

end Service

end MailgunRelay

------------------------------------------------------------
-- The Service
------------------------------------------------------------

namespace MailgunRelay

namespace Service

open Pipeline

/- The client of a request, in the route handler. -/
inductive Client where
  | waiting
  | gone
  | answered (response : Response)
  deriving DecidableEq

/- A tracked task and its client. -/
structure Task where
  job : Job
  stage : Stage
  client : Client

/-
  The phases of `run`: it serves until a signal, stops its
  servers, waits for the tasks and returns.
-/
inductive Phase where
  | serving
  | stopping
  | draining
  | returned
  | failed
  deriving DecidableEq

/- The tasks in the order of their start. -/
structure State where
  tasks : List Task
  free : Nat
  phase : Phase

/- What may happen in the service. -/
inductive Action where
  | spawned (job : Job)
  | task (id : Nat) (action : TaskAction)
  | disconnected (id : Nat)
  | answered (id : Nat)
  | signalled
  | stopped
  | waited
  | failed

/- The task with the number enters its submission. -/
def Action.enters (id : Nat) : Action → Bool
| .task id' action => id' == id && action.isAcquired
| _ => false

/- The action is one of a client. -/
def Action.ofClient : Action → Bool
| .disconnected _ => true
| .answered _ => true
| _ => false

def initial (n : Concurrency) : State :=
  { tasks := []
    free := slots n
    phase := .serving }

def State.inFlight (s : State) : Nat :=
  s.tasks.countP fun task => task.stage.inFlight

/- Change the client of a task. -/
def State.setClient
    (s : State)
    (id : Nat)
    (f : Task → Option Client) : Option State := do
  let task ← s.tasks[id]?
  let client ← f task
  pure
    { s with
      tasks := s.tasks.set id { task with client := client } }

/- A client that waits may go away. -/
def Task.disconnect (task : Task) : Option Client :=
  match task.client with
  | .waiting => some .gone
  | _ => none

/- A client that waits is answered when its task ended. -/
def Task.answer (task : Task) : Option Client :=
  match task.client, task.stage with
  | .waiting, .ended w response =>
      some (.answered (joinTask (w, response)).2)
  | _, _ => none

/- Go from one of the phases to another. -/
def State.goto
    (s : State)
    (phases : List Phase)
    (phase : Phase) : Option State :=
  if s.phase ∈ phases then
    some { s with phase := phase }
  else
    none

variable [Unicode] [Idna]

def Task.start (job : Job) : Task :=
  { job := job
    stage := .start job
    client := .waiting }

/- What an action of a task does. -/
def State.stepTask
    (s : State)
    (id : Nat)
    (action : TaskAction) : Option State := do
  let task ← s.tasks[id]?
  let (stage, free) ← task.stage.step task.job s.free action
  pure
    { s with
      tasks := s.tasks.set id { task with stage := stage }
      free := free }

/- What an action does; nothing happens after the return. -/
def step (s : State) (action : Action) : Option State :=
  if s.phase = .returned ∨ s.phase = .failed then
    none
  else
    match action with
    | .spawned job =>
        some { s with tasks := s.tasks ++ [Task.start job] }
    | .task id action => s.stepTask id action
    | .disconnected id => s.setClient id Task.disconnect
    | .answered id => s.setClient id Task.answer
    | .signalled => s.goto [.serving] .stopping
    | .stopped => s.goto [.stopping] .draining
    | .failed => s.goto [.serving, .stopping] .failed
    | .waited =>
        if s.tasks.all fun task => task.stage.isEnded then
          s.goto [.draining] .returned
        else
          none

end Service

end MailgunRelay
