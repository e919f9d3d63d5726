import MailgunRelay.Lib.Progress
import MailgunRelay.Service.Sound

/-
  What the service gets done.

  A task has at most four actions to make.  As long as a task
  has not ended, one of them can make its next action: who
  waits for a slot waits for submissions in flight, and those
  can return.  So there is no deadlock, in whatever order
  things happen, each request ends as `process` says, and the
  service can return after a signal.

  Key definitions include:
    * `MailgunRelay.Service.Stage.remaining`
    * `MailgunRelay.Service.Action.isWork`
    * `MailgunRelay.Service.Stage.Done`

  Key theorems include:
    * `MailgunRelay.Service.Moves.remaining`
    * `MailgunRelay.Service.exists_work`
    * `MailgunRelay.Service.service_completes`
-/

------------------------------------------------------------
-- What Is Left To Do
------------------------------------------------------------

namespace MailgunRelay

namespace Service

open Pipeline

/- The actions a task has still to make. -/
def Stage.remaining : Stage → Nat
| .running .. => 4
| .queued .. => 3
| .submitting .. => 2
| .submitted .. => 1
| .ended .. => 0

def State.remaining (s : State) : Nat :=
  (s.tasks.map fun task => task.stage.remaining).sum

/- The action is one of a task, and no panic. -/
def Action.isWork : Action → Bool
| .task _ (.panicked _) => false
| .task _ _ => true
| _ => false

variable [Unicode]

/- Each action but a panic leaves less to do. -/
theorem Moves.remaining
    {job : Job}
    {free free' : Nat}
    {stage stage' : Stage}
    {id : Nat}
    {action : TaskAction}
    (hMove : Moves job stage free action stage' free')
    (hWork : (Action.task id action).isWork = true) :
    stage'.remaining < stage.remaining := by
  cases hMove with
  | prepared => exact Nat.lt_succ_self 3
  | refused => exact Nat.succ_pos 3
  | acquired => exact Nat.lt_succ_self 2
  | returned => exact Nat.lt_succ_self 1
  | finished => exact Nat.lt_succ_self 0
  | unwound => cases hWork

variable [Idna]

/- A work action is a move of one task. -/
theorem step_isWork
    {s s' : State}
    {action : Action}
    (hWork : action.isWork = true)
    (hStep : step s action = some s') :
    ∃ id taskAction task stage free,
      action = .task id taskAction ∧
        s.tasks[id]? = some task ∧
          Moves task.job task.stage s.free taskAction stage free ∧
            s' =
              { s with
                tasks := s.tasks.set id { task with stage := stage }
                free := free } := by
  unfold step at hStep
  split at hStep
  · cases hStep
  cases action with
  | task id taskAction =>
      rcases State.stepTask_eq hStep with
        ⟨task, stage, free, hTask, hMove, hNext⟩
      exact
        ⟨id, taskAction, task, stage, free, rfl, hTask, hMove,
          hNext⟩
  | _ => cases hWork

theorem remaining_step
    {s s' : State}
    {action : Action}
    (hWork : action.isWork = true)
    (hStep : step s action = some s') :
    s'.remaining < s.remaining := by
  rcases step_isWork hWork hStep with
    ⟨id, taskAction, task, stage, free, rfl, hTask, hMove, rfl⟩
  have hSum :=
    Lib.sum_map_set (fun task => task.stage.remaining) hTask
      { task with stage := stage }
  have hLess := hMove.remaining hWork
  unfold State.remaining
  dsimp only at hSum ⊢
  omega

end Service

end MailgunRelay

------------------------------------------------------------
-- No Deadlock
------------------------------------------------------------

namespace MailgunRelay

namespace Service

open Pipeline

variable [Unicode] [Idna]

omit [Idna] in
/- Only the wait for a slot can hold a task up. -/
theorem Stage.exists_step
    {job : Job}
    {free : Nat}
    {stage : Stage}
    (hNot : stage.isEnded = false)
    (hFree : 0 < free ∨ stage.inFlight = true) :
    ∃ action next,
      (∀ id, (Action.task id action).isWork = true) ∧
        stage.step job free action = some next := by
  cases stage with
  | running w =>
      cases hHalf :
          untilSlot job.components job.relay job.request w with
      | ok message w' =>
          refine
            ⟨.prepared, (.queued message w', free),
              fun _ => rfl, ?_⟩
          unfold Stage.step
          dsimp only
          rw [hHalf]
      | error abort w' =>
          refine
            ⟨.prepared, (.end job (.error abort w'), free),
              fun _ => rfl, ?_⟩
          unfold Stage.step
          dsimp only
          rw [hHalf]
  | queued message w =>
      rcases hFree with hFree | hFlight
      · exact
          ⟨.acquired, (.submitting message w, free - 1),
            fun _ => rfl, if_pos hFree⟩
      · cases hFlight
  | submitting message w =>
      exact ⟨.returned .panic, _, fun _ => rfl, rfl⟩
  | submitted message submission w =>
      exact ⟨.finished, _, fun _ => rfl, rfl⟩
  | ended w response => cases hNot

/- What a task can do, the service can do. -/
theorem exists_work_of_step
    {s : State}
    (hOpen : s.phase ≠ .returned ∧ s.phase ≠ .failed)
    {task : Task}
    (hTask : task ∈ s.tasks)
    (hStep : ∃ action next,
      (∀ id, (Action.task id action).isWork = true) ∧
        task.stage.step task.job s.free action = some next) :
    ∃ action, action.isWork = true ∧ step s action ≠ none := by
  rcases hStep with ⟨action, ⟨stage, free⟩, hWork, hNext⟩
  rcases List.getElem?_of_mem hTask with ⟨id, hAt⟩
  refine ⟨.task id action, hWork id, ?_⟩
  unfold step
  rw [if_neg (not_or.mpr hOpen)]
  dsimp only
  unfold State.stepTask
  rw [hAt, Option.bind_eq_bind, Option.bind_some, hNext]
  exact Option.some_ne_none _

/- Who waits for a slot waits for a submission in flight. -/
theorem exists_work
    {n : Concurrency}
    {past : List Action}
    {s : State}
    (hValid : s.Valid n past)
    (hOpen : s.phase ≠ .returned ∧ s.phase ≠ .failed)
    {task : Task}
    (hTask : task ∈ s.tasks)
    (hNot : task.stage.isEnded = false) :
    ∃ action, action.isWork = true ∧ step s action ≠ none := by
  by_cases hFree : 0 < s.free
  · exact exists_work_of_step hOpen hTask
      (Stage.exists_step hNot (.inl hFree))
  · have hSlots := hValid.slots
    have hSome := n.property.1
    rw [slots_eq] at hSlots
    have hFlight : 0 < s.inFlight := by omega
    rcases List.countP_pos_iff.mp hFlight with
      ⟨holder, hHolder, hHolds⟩
    apply exists_work_of_step hOpen hHolder
    apply Stage.exists_step _ (.inr hHolds)
    cases hStage : holder.stage with
    | ended w response =>
        rw [hStage] at hHolds
        cases hHolds
    | _ => rfl

end Service

end MailgunRelay

------------------------------------------------------------
-- What Work Leads To
------------------------------------------------------------

namespace MailgunRelay

namespace Service

open Pipeline

variable [Unicode] [Idna]

/- A task that no panic has ended. -/
def Stage.Done (job : Job) : Stage → Prop
| .ended w response =>
    ∃ submission,
      process (job.components.submitting submission) job.relay
          job.request =
        (w, response)
| stage => stage.Valid job

/- Without a panic, a task ends as `process` says. -/
theorem Moves.done
    {job : Job}
    {free free' : Nat}
    {stage stage' : Stage}
    {id : Nat}
    {action : TaskAction}
    (hMove : Moves job stage free action stage' free')
    (hWork : (Action.task id action).isWork = true)
    (hDone : stage.Done job) :
    stage'.Done job := by
  cases hMove with
  | prepared hReady =>
      rw [show _ = _ from hDone] at hReady
      exact hReady
  | refused hStop =>
      rw [show _ = _ from hDone] at hStop
      exact ⟨.panic, process_stopped hStop .panic⟩
  | acquired => exact hDone
  | returned => exact hDone
  | @finished w message free submission =>
      exact ⟨submission, process_submitted hDone submission⟩
  | unwound => cases hWork

/- Later, with the same tasks, ended by no panic since. -/
structure Worked (s s' : State) : Prop where
  jobs : s'.tasks.map Task.job = s.tasks.map Task.job
  phase : s'.phase = s.phase
  done :
    ∀ (id : Nat) (task task' : Task),
      s.tasks[id]? = some task →
        task.stage.isEnded = false →
          s'.tasks[id]? = some task' →
            task'.stage.Done task'.job

theorem Worked.refl
    {n : Concurrency}
    {past : List Action}
    {s : State}
    (hValid : s.Valid n past) :
    Worked s s := by
  constructor
  · rfl
  · rfl
  · intro id task task' hTask hNot hTask'
    rw [hTask] at hTask'
    cases hTask'
    have hStage := hValid.tasks task (List.mem_of_getElem? hTask)
    cases hEnded : task.stage with
    | ended w response =>
        rw [hEnded] at hNot
        cases hNot
    | _ =>
        rw [hEnded] at hStage
        exact hStage

theorem Worked.step
    {s s' s'' : State}
    {action : Action}
    (hPast : Worked s s')
    (hWork : action.isWork = true)
    (hStep : step s' action = some s'') :
    Worked s s'' := by
  rcases step_isWork hWork hStep with
    ⟨id, taskAction, current, stage, free, rfl, hCurrent, hMove,
      rfl⟩
  rcases List.getElem?_eq_some_iff.mp hCurrent with ⟨hId, hGet⟩
  constructor
  · have hJob : id < (s'.tasks.map Task.job).length := by
      rw [List.length_map]
      exact hId
    subst hGet
    dsimp only
    rw [List.map_set, ← @List.getElem_map _ _ Task.job _ _ hJob,
      List.set_getElem_self]
    exact hPast.jobs
  · exact hPast.phase
  · intro id' task task' hTask hNot hTask'
    dsimp only at hTask'
    by_cases hSame : id = id'
    · subst hSame
      rw [List.getElem?_set_self hId] at hTask'
      cases hTask'
      exact hMove.done hWork
        (hPast.done id task current hTask hNot hCurrent)
    · rw [List.getElem?_set_ne hSame] at hTask'
      exact hPast.done id' task task' hTask hNot hTask'

theorem Worked.run
    {s s' s'' : State}
    {work : List Action}
    (hPast : Worked s s')
    (hWork : ∀ action ∈ work, action.isWork = true)
    (hRun : Lib.run Service.step s' work = some s'') :
    Worked s s'' := by
  induction work generalizing s' with
  | nil =>
      cases hRun
      exact hPast
  | cons action work ih =>
      unfold Lib.run at hRun
      rcases Option.bind_eq_some_iff.mp hRun with
        ⟨next, hFirst, hRest⟩
      have hNext :=
        hPast.step (hWork action List.mem_cons_self) hFirst
      exact
        ih hNext
          (fun other hMem =>
            hWork other (List.mem_cons_of_mem action hMem))
          hRest

end Service

end MailgunRelay

------------------------------------------------------------
-- Completion
------------------------------------------------------------

namespace MailgunRelay

namespace Service

open Pipeline

variable [Unicode] [Idna]

/-
  All requests of a state have been served, each task that
  had not ended did what `process` does, and the service can
  return.
-/
structure Completed (s s' : State) : Prop where
  jobs : s'.tasks.map Task.job = s.tasks.map Task.job
  ended :
    ∀ task ∈ s'.tasks, ∃ w response,
      task.stage = .ended w response ∧
        Ended task.job w response
  processed :
    ∀ (id : Nat) (task task' : Task),
      s.tasks[id]? = some task →
        task.stage.isEnded = false →
          s'.tasks[id]? = some task' →
            ∃ w response submission,
              task'.stage = .ended w response ∧
                process
                    (task'.job.components.submitting submission)
                    task'.job.relay task'.job.request =
                  (w, response)
  returns :
    ∃ actions s'', Lib.run step s' actions = some s'' ∧
      s''.phase = .returned ∧ s''.tasks = s'.tasks

/- After the last task, nothing holds the return up. -/
theorem exists_return
    {s : State}
    (hOpen : s.phase ≠ .failed)
    (hEnded :
      ∀ task ∈ s.tasks, task.stage.isEnded = true) :
    ∃ actions s', Lib.run step s actions = some s' ∧
      s'.phase = .returned ∧ s'.tasks = s.tasks := by
  rcases s with ⟨tasks, free, phase⟩
  have hAll :
      (tasks.all fun task => task.stage.isEnded) = true :=
    List.all_eq_true.mpr hEnded
  have hWaited :
      step ⟨tasks, free, .draining⟩ .waited =
        some ⟨tasks, free, .returned⟩ := by
    unfold step
    dsimp only
    rw [if_neg (by decide), if_pos hAll]
    rfl
  have hDrained :
      Lib.run step ⟨tasks, free, .draining⟩ [.waited] =
        some ⟨tasks, free, .returned⟩ := by
    unfold Lib.run
    rw [hWaited]
    rfl
  cases phase with
  | serving =>
      exact
        ⟨[.signalled, .stopped, .waited], _, hDrained, rfl, rfl⟩
  | stopping =>
      exact ⟨[.stopped, .waited], _, hDrained, rfl, rfl⟩
  | draining => exact ⟨[.waited], _, hDrained, rfl, rfl⟩
  | returned => exact ⟨[], _, rfl, rfl, rfl⟩
  | failed => exact absurd rfl hOpen

/- Where no work is possible, all is done. -/
theorem completed_of_exhausted
    {n : Concurrency}
    {past : List Action}
    {s s' : State}
    (hWorked : Worked s s')
    (hValid : s'.Valid n past)
    (hOpen : s'.phase ≠ .failed)
    (hNone : ∀ action, action.isWork = true →
      step s' action = none) :
    Completed s s' := by
  have hEnded :
      ∀ task ∈ s'.tasks, task.stage.isEnded = true := by
    intro task hTask
    by_cases hReturned : s'.phase = .returned
    · exact hValid.returned hReturned task hTask
    · rw [← Bool.not_eq_false]
      intro hNot
      rcases exists_work hValid ⟨hReturned, hOpen⟩ hTask hNot
        with ⟨action, hWork, hStep⟩
      exact hStep (hNone action hWork)
  constructor
  · exact hWorked.jobs
  · intro task hTask
    have hStage := hValid.tasks task hTask
    have hEnd := hEnded task hTask
    cases hCase : task.stage with
    | ended w response =>
        rw [hCase] at hStage
        exact ⟨w, response, rfl, hStage⟩
    | _ =>
        rw [hCase] at hEnd
        cases hEnd
  · intro id task task' hTask hNot hTask'
    have hDone := hWorked.done id task task' hTask hNot hTask'
    have hEnd := hEnded task' (List.mem_of_getElem? hTask')
    cases hCase : task'.stage with
    | ended w response =>
        rw [hCase] at hDone
        rcases hDone with ⟨submission, hProcess⟩
        exact ⟨w, response, submission, rfl, hProcess⟩
    | _ =>
        rw [hCase] at hEnd
        cases hEnd
  · exact exists_return hOpen hEnded

omit [Unicode] [Idna] in
theorem remaining_le
    (s : State) :
    s.remaining ≤ 4 * s.tasks.length := by
  unfold State.remaining
  induction s.tasks with
  | nil => exact Nat.le_refl 0
  | cons task tasks ih =>
      have hTask : task.stage.remaining ≤ 4 := by
        cases task.stage with
        | running w => exact Nat.le_refl 4
        | queued message w => exact Nat.le_succ 3
        | submitting message w => exact Nat.le_add_left 2 2
        | submitted message submission w =>
            exact Nat.le_add_left 1 3
        | ended w response => exact Nat.zero_le 4
      rw [List.map_cons, List.sum_cons, List.length_cons]
      omega

/-
  From any state the service can be in, unless it failed:
  the tasks have at most four actions each to make, whoever
  makes one next; when none is left to make, all requests
  are completed; and so they can be completed from there.
-/
theorem service_completes
    (n : Concurrency)
    (past : List Action)
    (s : State)
    (hRun : Lib.run step (initial n) past = some s)
    (hOpen : s.phase ≠ .failed) :
    (∀ work s', (∀ action ∈ work, action.isWork = true) →
        Lib.run step s work = some s' →
          work.length ≤ 4 * s.tasks.length ∧
            ((∀ action, action.isWork = true →
                step s' action = none) →
              Completed s s')) ∧
      ∃ work s', (∀ action ∈ work, action.isWork = true) ∧
        Lib.run step s work = some s' ∧ Completed s s' := by
  have hLess := fun s action s' hWork hStep =>
    @remaining_step _ _ s s' action hWork hStep
  have hEnd :
      ∀ work s', (∀ action ∈ work, action.isWork = true) →
        Lib.run step s work = some s' →
          (∀ action, action.isWork = true →
            step s' action = none) →
            Completed s s' := by
    intro work s' hWork hLater hNone
    have hWorked :=
      (Worked.refl (run_valid hRun)).run hWork hLater
    have hAll :
        Lib.run step (initial n) (past ++ work) = some s' := by
      rw [Lib.run_append, hRun, Option.bind_some, hLater]
    exact
      completed_of_exhausted hWorked (run_valid hAll)
        (hWorked.phase.trans_ne hOpen) hNone
  constructor
  · intro work s' hWork hLater
    refine ⟨?_, hEnd work s' hWork hLater⟩
    have hLength := Lib.run_length_le hLess hWork hLater
    have hBound := remaining_le s
    omega
  · rcases Lib.exists_exhausting_run hLess s with
      ⟨work, s', hWork, hLater, hNone⟩
    exact
      ⟨work, s', hWork, hLater,
        hEnd work s' hWork hLater hNone⟩

/- Two requests and one slot, which the first one has. -/
def contended : List Action :=
  let job : Job :=
    { components := Constant.components Constant.partlyRefused
      relay := Constant.relay Constant.partlyRefused
      request := Constant.request }
  [.spawned job, .spawned job, .task 0 .prepared,
    .task 1 .prepared, .task 0 .acquired, .disconnected 0]

omit [Unicode] [Idna] in
theorem service_completes_contended :
    let _ : Unicode := .ascii
    let _ : Idna := .ascii
    let n : Concurrency := ⟨1, by decide⟩
    ∃ s, Lib.run step (initial n) contended = some s ∧
      ∃ work s', (∀ action ∈ work, action.isWork = true) ∧
        Lib.run step s work = some s' ∧ Completed s s' := by
  intro _ _ n
  have hRun :
      (Lib.run step (initial n) contended).isSome = true := by
    decide
  have hPhase :
      (Lib.run step (initial n) contended).map State.phase =
        some .serving := by
    decide
  rcases Option.isSome_iff_exists.mp hRun with ⟨s, hSome⟩
  rw [hSome] at hPhase
  have hOpen : s.phase ≠ .failed := by
    rw [Option.some.inj hPhase]
    decide
  exact
    ⟨s, hSome,
      (service_completes n contended s hSome hOpen).2⟩

end Service

end MailgunRelay
