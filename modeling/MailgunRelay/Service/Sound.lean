import MailgunRelay.Pipeline.Agreement
import MailgunRelay.Service.Moves

/-
  Slots, submissions and records in every run of the
  service.

  The slots in use and the free ones are the configured
  number in each state, every task keeps the invariant of
  its stage, and what the clients do changes nothing else.

  Key definitions include:
    * `MailgunRelay.Service.State.work`
    * `MailgunRelay.Service.State.Valid`
    * `MailgunRelay.Service.Sound`

  Key theorems include:
    * `MailgunRelay.Service.State.Valid.step`
    * `MailgunRelay.Service.step_work`
    * `MailgunRelay.Service.service_sound`
-/

------------------------------------------------------------
-- Steps Of The Service
------------------------------------------------------------

namespace MailgunRelay

namespace Service

open Pipeline

/- The submissions the task with a number has entered. -/
def State.submissions (s : State) (id : Nat) : Nat :=
  (s.tasks[id]?.map fun task => task.stage.submissions).getD 0

variable [Unicode] [Idna]

/- All that may happen in the service. -/
inductive Changes (s : State) : Action → State → Prop where
  | spawned
      {job : Job} :
      Changes s (.spawned job)
        { s with tasks := s.tasks ++ [Task.start job] }
  | task
      {id free : Nat}
      {task : Task}
      {stage : Stage}
      {action : TaskAction}
      (hTask : s.tasks[id]? = some task)
      (hMove :
        Moves task.job task.stage s.free action stage free) :
      Changes s (.task id action)
        { s with
          tasks := s.tasks.set id { task with stage := stage }
          free := free }
  | client
      {id : Nat}
      {task : Task}
      {client : Client}
      {action : Action}
      (hTask : s.tasks[id]? = some task)
      (hAction : action.ofClient = true) :
      Changes s action
        { s with
          tasks :=
            s.tasks.set id { task with client := client } }
  | phase
      {action : Action}
      {phase : Phase}
      (hAction : ∀ id, action.enters id = false)
      (hReturned :
        phase = .returned →
          ∀ task ∈ s.tasks, task.stage.isEnded = true) :
      Changes s action { s with phase := phase }

omit [Unicode] [Idna] in
theorem State.goto_eq
    {s s' : State}
    {phases : List Phase}
    {phase : Phase}
    (hGoto : s.goto phases phase = some s') :
    s' = { s with phase := phase } := by
  unfold State.goto at hGoto
  split at hGoto
  · exact (Option.some.inj hGoto).symm
  · cases hGoto

omit [Unicode] [Idna] in
theorem State.setClient_eq
    {s s' : State}
    {id : Nat}
    {f : Task → Option Client}
    (hSet : s.setClient id f = some s') :
    ∃ task client, s.tasks[id]? = some task ∧
      s' =
        { s with
          tasks :=
            s.tasks.set id { task with client := client } } := by
  unfold State.setClient at hSet
  rcases Option.bind_eq_some_iff.mp hSet with
    ⟨task, hTask, hSet⟩
  rcases Option.bind_eq_some_iff.mp hSet with
    ⟨client, hClient, hSet⟩
  exact ⟨task, client, hTask, (Option.some.inj hSet).symm⟩

omit [Idna] in
theorem State.stepTask_eq
    {s s' : State}
    {id : Nat}
    {action : TaskAction}
    (hStep : s.stepTask id action = some s') :
    ∃ task stage free, s.tasks[id]? = some task ∧
      Moves task.job task.stage s.free action stage free ∧
      s' =
        { s with
          tasks := s.tasks.set id { task with stage := stage }
          free := free } := by
  unfold State.stepTask at hStep
  rcases Option.bind_eq_some_iff.mp hStep with
    ⟨task, hTask, hStep⟩
  rcases Option.bind_eq_some_iff.mp hStep with
    ⟨⟨stage, free⟩, hMove, hStep⟩
  exact
    ⟨task, stage, free, hTask, Stage.step_moves hMove,
      (Option.some.inj hStep).symm⟩

/- Every step is one of these changes. -/
theorem step_changes
    {s s' : State}
    {action : Action}
    (hStep : step s action = some s') :
    Changes s action s' := by
  unfold step at hStep
  split at hStep
  · cases hStep
  cases action with
  | spawned job =>
      cases hStep
      exact .spawned
  | task id action =>
      rcases State.stepTask_eq hStep with
        ⟨task, stage, free, hTask, hMove, rfl⟩
      exact .task hTask hMove
  | disconnected id =>
      rcases State.setClient_eq hStep with
        ⟨task, client, hTask, rfl⟩
      exact .client hTask rfl
  | answered id =>
      rcases State.setClient_eq hStep with
        ⟨task, client, hTask, rfl⟩
      exact .client hTask rfl
  | signalled =>
      cases State.goto_eq hStep
      exact .phase (fun _ => rfl) nofun
  | stopped =>
      cases State.goto_eq hStep
      exact .phase (fun _ => rfl) nofun
  | failed =>
      cases State.goto_eq hStep
      exact .phase (fun _ => rfl) nofun
  | waited =>
      dsimp only at hStep
      split at hStep
      · rename_i hEnded
        cases State.goto_eq hStep
        exact
          .phase (fun _ => rfl)
            (fun _ => List.all_eq_true.mp hEnded)
      · cases hStep

end Service

end MailgunRelay

------------------------------------------------------------
-- The Invariant
------------------------------------------------------------

namespace MailgunRelay

namespace Service

open Pipeline

/- Replacing a task changes a count by what it counts. -/
theorem countP_set_add
    {tasks : List Task}
    {id : Nat}
    {task : Task}
    (p : Task → Bool)
    (hTask : tasks[id]? = some task)
    (task' : Task) :
    (tasks.set id task').countP p + (p task).toNat =
      tasks.countP p + (p task').toNat := by
  rcases List.getElem?_eq_some_iff.mp hTask with ⟨hId, hGet⟩
  have hLe : (if p tasks[id] then 1 else 0) ≤ _ :=
    List.boole_getElem_le_countP hId
  rw [List.countP_set hId]
  rw [hGet] at hLe ⊢
  cases hTask' : p task' <;> cases hOld : p task <;>
    simp_all

/- The same on the submissions of each task. -/
theorem submissions_set
    {s : State}
    {id : Nat}
    {task task' : Task}
    {free : Nat}
    (hTask : s.tasks[id]? = some task)
    (id' : Nat) :
    State.submissions
        { s with tasks := s.tasks.set id task', free := free }
        id' =
      if id = id' then task'.stage.submissions
      else s.submissions id' := by
  rcases List.getElem?_eq_some_iff.mp hTask with ⟨hId, hGet⟩
  unfold State.submissions
  by_cases hSame : id = id'
  · rw [if_pos hSame, ← hSame, List.getElem?_set_self hId]
    rfl
  · rw [if_neg hSame, List.getElem?_set_ne hSame]

variable [Unicode] [Idna]

/- What holds in each state after some actions. -/
structure State.Valid
    (n : Concurrency)
    (past : List Action)
    (s : State) : Prop where
  slots : s.inFlight + s.free = slots n
  tasks : ∀ task ∈ s.tasks, task.stage.Valid task.job
  entered :
    ∀ id, past.countP (Action.enters id) = s.submissions id
  returned :
    s.phase = .returned →
      ∀ task ∈ s.tasks, task.stage.isEnded = true

theorem initial_valid
    (n : Concurrency) :
    State.Valid n [] (initial n) := by
  constructor
  · exact Nat.zero_add _
  · intro task hTask
    cases hTask
  · intro id
    rfl
  · nofun

/- A step keeps the invariant. -/
theorem State.Valid.step
    {n : Concurrency}
    {past : List Action}
    {s s' : State}
    {action : Action}
    (hValid : s.Valid n past)
    (hChange : Changes s action s')
    (hOpen : s.phase ≠ .returned) :
    s'.Valid n (past ++ [action]) := by
  rcases hValid with ⟨hSlots, hTasks, hEntered, -⟩
  have hPast (id : Nat) :
      (past ++ [action]).countP (Action.enters id) =
        s.submissions id + (action.enters id).toNat := by
    rw [List.countP_append, hEntered id,
      List.countP_singleton]
    cases action.enters id <;> rfl
  cases hChange with
  | @spawned job =>
      constructor
      · rw [← hSlots]
        show List.countP _ (s.tasks ++ [_]) + _ = _
        rw [List.countP_append]
        rfl
      · intro task hTask
        rcases List.mem_append.mp hTask with hOld | hNew
        · exact hTasks task hOld
        · cases List.mem_singleton.mp hNew
          rfl
      · intro id
        rw [hPast id]
        unfold State.submissions
        rw [List.getElem?_append]
        split
        · rfl
        · rename_i hNew
          rw [List.getElem?_eq_none (Nat.not_lt.mp hNew)]
          cases hIndex : id - s.tasks.length <;> rfl
      · intro hPhase
        exact absurd hPhase hOpen
  | @task id free task stage action hTask hMove =>
      have hMem := List.mem_of_getElem? hTask
      constructor
      · have hCount :=
          countP_set_add (fun task => task.stage.inFlight)
            hTask { task with stage := stage }
        have hBalance := hMove.slots
        unfold State.inFlight at hSlots ⊢
        dsimp only at hCount hSlots ⊢
        omega
      · intro other hOther
        rcases List.mem_or_eq_of_mem_set hOther with hOld | rfl
        · exact hTasks other hOld
        · exact hMove.valid (hTasks task hMem)
      · intro id'
        rw [hPast id', submissions_set hTask id']
        by_cases hSame : id = id'
        · subst hSame
          rw [if_pos rfl, hMove.submissions]
          simp [Action.enters, State.submissions, hTask]
        · simp [Action.enters, hSame]
      · intro hPhase
        exact absurd hPhase hOpen
  | @client id task client action hTask hAction =>
      have hMem := List.mem_of_getElem? hTask
      constructor
      · have hCount :=
          countP_set_add (fun task => task.stage.inFlight)
            hTask { task with client := client }
        unfold State.inFlight at hSlots ⊢
        dsimp only at hCount hSlots ⊢
        omega
      · intro other hOther
        rcases List.mem_or_eq_of_mem_set hOther with hOld | rfl
        · exact hTasks other hOld
        · exact hTasks task hMem
      · intro id'
        rw [hPast id', submissions_set hTask id']
        have hNone : action.enters id' = false := by
          cases action <;> first | rfl | cases hAction
        by_cases hSame : id = id'
        · subst hSame
          simp [hNone, State.submissions, hTask]
        · simp [hNone, hSame]
      · intro hPhase
        exact absurd hPhase hOpen
  | phase hAction hReturned =>
      constructor
      · exact hSlots
      · exact hTasks
      · intro id
        rw [hPast id, hAction id]
        rfl
      · exact hReturned

/- No step is possible after the return. -/
theorem phase_ne_returned
    {s s' : State}
    {action : Action}
    (hStep : step s action = some s') :
    s.phase ≠ .returned := by
  intro hPhase
  unfold step at hStep
  rw [if_pos (.inl hPhase)] at hStep
  cases hStep

theorem run_valid
    {n : Concurrency}
    {actions : List Action}
    {s : State}
    (hRun : Lib.run step (initial n) actions = some s) :
    s.Valid n actions :=
  Lib.run_invariant
    (fun _ _ _ _ hValid hStep =>
      State.Valid.step hValid (step_changes hStep)
        (phase_ne_returned hStep))
    (initial_valid n) hRun

end Service

end MailgunRelay

------------------------------------------------------------
-- Clients
------------------------------------------------------------

namespace MailgunRelay

namespace Service

/- A state without what its clients do. -/
def State.work (s : State) : State :=
  { s with
    tasks :=
      s.tasks.map fun task => { task with client := .waiting } }

/- What a client does is not seen by the tasks. -/
theorem State.setClient_work
    {s s' : State}
    {id : Nat}
    {f : Task → Option Client}
    (hSet : s.setClient id f = some s') :
    s'.work = s.work := by
  rcases State.setClient_eq hSet with ⟨task, client, hTask, rfl⟩
  rcases List.getElem?_eq_some_iff.mp hTask with ⟨hId, rfl⟩
  unfold State.work
  simp only [List.map_set, State.mk.injEq, and_true]
  exact
    List.ext_getElem (by simp) fun i _ _ => by
      by_cases hSame : id = i <;>
        simp [hSame]

variable [Unicode] [Idna]

theorem step_ofClient
    {s s' : State}
    {action : Action}
    (hClient : action.ofClient = true)
    (hStep : step s action = some s') :
    s'.work = s.work := by
  unfold step at hStep
  split at hStep
  · cases hStep
  cases action with
  | disconnected id => exact State.setClient_work hStep
  | answered id => exact State.setClient_work hStep
  | _ => cases hClient

/- The other steps do not depend on the clients. -/
theorem step_work
    {s : State}
    {action : Action}
    (hOther : action.ofClient = false) :
    step s.work action = (step s action).map State.work := by
  unfold step
  rw [show s.work.phase = s.phase from rfl]
  split
  · rfl
  have hGoto (phases : List Phase) (phase : Phase) :
      s.work.goto phases phase =
        (s.goto phases phase).map State.work := by
    unfold State.goto
    rw [show s.work.phase = s.phase from rfl]
    split <;> rfl
  cases action with
  | spawned job => simp [State.work, Task.start]
  | task id action =>
      simp only [State.stepTask, State.work, List.getElem?_map]
      cases s.tasks[id]? with
      | none => rfl
      | some task =>
          simp only [Option.map_some, Option.bind_eq_bind,
            Option.bind_some]
          cases task.stage.step task.job s.free action with
          | none => rfl
          | some next => simp [State.work, List.map_set]
  | disconnected id => cases hOther
  | answered id => cases hOther
  | signalled => exact hGoto _ _
  | stopped => exact hGoto _ _
  | failed => exact hGoto _ _
  | waited =>
      have hAll :
          (s.work.tasks.all fun task => task.stage.isEnded) =
            s.tasks.all fun task => task.stage.isEnded := by
        simp [State.work, Function.comp_def]
      dsimp only
      rw [hAll]
      split
      · exact hGoto _ _
      · rfl

end Service

end MailgunRelay

------------------------------------------------------------
-- The Running Service
------------------------------------------------------------

namespace MailgunRelay

namespace Service

open Pipeline

/- The semaphore has the configured permits. -/
theorem slots_eq
    (n : Concurrency) :
    slots n = n.val := by
  have hBound := n.property.2
  unfold slots maxPermits
  omega

variable [Unicode] [Idna]

/-
  What holds after some actions of a service with `n` slots,
  in any order.
-/
structure Sound
    (n : Concurrency)
    (actions : List Action)
    (s : State) : Prop where
  capped : s.inFlight ≤ n.val
  conserved : s.inFlight + s.free = n.val
  restored : s.inFlight = 0 → s.free = n.val
  once :
    ∀ id, actions.countP (Action.enters id) ≤ 1
  /- An ended task has written its record. -/
  ended :
    ∀ task ∈ s.tasks, ∀ w response,
      task.stage = .ended w response →
        Ended task.job w response
  /- Without its clients, the service does the same. -/
  clients :
    Lib.run step (initial n)
        (actions.filter fun action => !action.ofClient) =
      some s.work
  /- A disconnect changes nothing that follows. -/
  disconnect :
    ∀ id s', step s (.disconnected id) = some s' →
      ∀ rest : List Action,
        (∀ action ∈ rest, action.ofClient = false) →
          (Lib.run step s' rest).map State.work =
            (Lib.run step s rest).map State.work
  returned :
    s.phase = .returned →
      ∀ task ∈ s.tasks, ∃ w response,
        task.stage = .ended w response ∧
          w.requests = [requestCall task.job.relay w.record]

/- The service is sound after any actions. -/
theorem service_sound
    (n : Concurrency)
    (actions : List Action)
    (s : State)
    (hRun : Lib.run step (initial n) actions = some s) :
    Sound n actions s := by
  rcases run_valid hRun with
    ⟨hSlots, hTasks, hEntered, hReturned⟩
  rw [slots_eq] at hSlots
  have hEnded :
      ∀ task ∈ s.tasks, ∀ w response,
        task.stage = .ended w response →
          Ended task.job w response := by
    intro task hTask w response hStage
    have hValid := hTasks task hTask
    rw [hStage] at hValid
    exact hValid
  constructor
  · omega
  · exact hSlots
  · omega
  · intro id
    rw [hEntered id]
    unfold State.submissions
    cases hTask : s.tasks[id]? with
    | none => exact Nat.zero_le 1
    | some task =>
        exact
          (hTasks task
            (List.mem_of_getElem? hTask)).submissions_le
  · exact hEnded
  · exact
      Lib.run_filter
        (f := State.work)
        (fun s action hKeep =>
          step_work (by simpa using hKeep))
        (fun s action s' hDrop hStep =>
          step_ofClient (by simpa using hDrop) hStep)
        hRun
  · intro id s' hStep rest hRest
    rw [← Lib.run_map fun action hAction s =>
        step_work (hRest action hAction),
      ← Lib.run_map fun action hAction s =>
        step_work (hRest action hAction),
      step_ofClient rfl hStep]
  · intro hPhase task hTask
    have hEnd := hReturned hPhase task hTask
    cases hStage : task.stage with
    | ended w response =>
        exact
          ⟨w, response, rfl,
            (hEnded task hTask w response hStage).recorded⟩
    | _ =>
        rw [hStage] at hEnd
        cases hEnd

/-
  One slot and two requests: the first one's client goes
  away and its submission panics, and the signal comes while
  the second one waits for the slot.
-/
def shutdown : List Action :=
  let job : Job :=
    { components := Constant.components Constant.partlyRefused
      relay := Constant.relay Constant.partlyRefused
      request := Constant.request }
  [.spawned job, .spawned job, .task 0 .prepared,
    .task 1 .prepared, .task 0 .acquired, .disconnected 0,
    .signalled, .task 0 (.returned .panic),
    .task 0 .finished, .task 1 .acquired,
    .task 1 (.returned (.ok [])), .task 1 .finished,
    .answered 1, .stopped, .waited]

omit [Unicode] [Idna] in
theorem service_sound_shutdown :
    let _ : Unicode := .ascii
    let _ : Idna := .ascii
    let n : Concurrency := ⟨1, by decide⟩
    ∃ s, Lib.run step (initial n) shutdown = some s ∧
      s.phase = .returned ∧ Sound n shutdown s := by
  intro _ _ n
  have hRun :
      (Lib.run step (initial n) shutdown).isSome = true := by
    decide
  rcases Option.isSome_iff_exists.mp hRun with ⟨s, hSome⟩
  have hPhase :
      (Lib.run step (initial n) shutdown).map State.phase =
        some .returned := by
    decide
  rw [hSome] at hPhase
  exact
    ⟨s, hSome, Option.some.inj hPhase,
      service_sound n shutdown s hSome⟩

end Service

end MailgunRelay
