import MailgunRelay.Smtp.Faults

/-
  The cleanup after a session.

  The relay sends its `QUIT` last and at most once: after a
  transaction that left the channel open, on a connection
  lettre did not give up.  What comes of it changes nothing
  but one log record.

  Key definitions include:
    * `MailgunRelay.Smtp.Clean`
    * `MailgunRelay.Smtp.leftOpen`
    * `MailgunRelay.Smtp.CleanedUp`

  Key theorems include:
    * `MailgunRelay.Smtp.transaction_clean`
    * `MailgunRelay.Smtp.session_cleaned_up`
-/

------------------------------------------------------------
-- Histories
------------------------------------------------------------

namespace MailgunRelay

namespace Smtp

def Event.isQuit : Event → Bool
| .sent _ .quit _ => true
| _ => false

/- A reply with a code that leaves the channel open. -/
def Reply.keepsOpen (reply : Reply) : Bool :=
  reply.replyCode.any (· != 421)

/- The server answered, and not with 421. -/
def Event.isAnswered : Event → Bool
| .sent _ _ reply => reply.keepsOpen
| _ => true

/- No `QUIT` yet. -/
def Unquit (trace : List Event) : Prop :=
  ∀ event ∈ trace, event.isQuit = false

/- No `QUIT` yet, and all commands were answered. -/
def Clean (trace : List Event) : Prop :=
  ∀ event ∈ trace,
    event.isQuit = false ∧ event.isAnswered = true

theorem Clean.unquit
    {trace : List Event}
    (hClean : Clean trace) :
    Unquit trace :=
  fun event hEvent => (hClean event hEvent).1

theorem Clean.snoc
    {trace : List Event}
    {event : Event}
    (hClean : Clean trace)
    (hQuit : event.isQuit = false)
    (hAnswered : event.isAnswered = true) :
    Clean (trace ++ [event]) := by
  intro e he
  rcases List.mem_append.mp he with hOld | hNew
  · exact hClean e hOld
  · rw [List.mem_singleton.mp hNew]
    exact ⟨hQuit, hAnswered⟩

theorem Unquit.snoc
    {trace : List Event}
    {event : Event}
    (hUnquit : Unquit trace)
    (hQuit : event.isQuit = false) :
    Unquit (trace ++ [event]) := by
  intro e he
  rcases List.mem_append.mp he with hOld | hNew
  · exact hUnquit e hOld
  · rw [List.mem_singleton.mp hNew]
    exact hQuit

/- A positive reply keeps the channel open. -/
theorem Reply.keepsOpen_of_ok
    {reply : Reply}
    {n : Nat}
    (hResult : reply.result = .ok n) :
    reply.keepsOpen = true := by
  have hReply := (reply.result_eq_ok_iff n).mp hResult
  have hOpen : n ≠ 421 := by omega
  simp [Reply.keepsOpen, Reply.replyCode, hResult, hOpen]

/- The flag of a failed step tells whether it does. -/
theorem Reply.keepsOpen_of_error
    {reply : Reply}
    {e : Error}
    (hResult : reply.result = .error e) :
    (failure e).isOpen = reply.keepsOpen := by
  rw [failure_of_error true hResult]
  rfl

end Smtp

end MailgunRelay

------------------------------------------------------------
-- Clean Steps
------------------------------------------------------------

namespace MailgunRelay

namespace Smtp

/-
  A step that returns on a clean history, or fails on a
  history without `QUIT` that is clean if the failure says
  that the channel is open.
-/
abbrev RunsClean
    {α : Type}
    (m : Step α)
    (w : Wire) : Prop :=
  Lib.Wp m
    (fun _ w' => Clean w'.trace)
    (fun fault w' =>
      Unquit w'.trace ∧
        (fault.isOpen = true → Clean w'.trace))
    w

theorem RunsClean.throw
    {α : Type}
    {fault : Failure}
    {w : Wire}
    (hClean : Clean w.trace) :
    RunsClean (throw fault : Step α) w :=
  ⟨hClean.unquit, fun _ => hClean⟩

/- One command other than `QUIT`, however it is answered. -/
theorem exchange_clean
    (cmd : Command)
    (reply : Reply)
    (wanted : List Nat)
    {w : Wire}
    (hCommand : cmd ≠ .quit)
    (hClean : Clean w.trace) :
    RunsClean (exchange cmd reply wanted) w := by
  have hQuit :
      (Event.sent w.encrypted cmd reply).isQuit = false := by
    cases cmd <;> simp_all [Event.isQuit]
  have hSent : reply.keepsOpen = true →
      Clean (w.trace ++ [.sent w.encrypted cmd reply]) :=
    hClean.snoc hQuit
  unfold RunsClean exchange
  rw [Lib.wp_bind, Lib.wp_attempt, Wire.command_result]
  cases hResult : reply.result with
  | ok n =>
      have hKeeps := hSent (Reply.keepsOpen_of_ok hResult)
      simp only [require]
      split
      · exact hKeeps
      · exact ⟨hKeeps.unquit, fun _ => hKeeps⟩
  | error e =>
      refine ⟨hClean.unquit.snoc hQuit, fun hOpen => ?_⟩
      rw [Reply.keepsOpen_of_error hResult] at hOpen
      exact hSent hOpen

/-
  The `STARTTLS` exchange.  An error on the plain channel
  tells whether that is still open.
-/
theorem starttls_clean
    (script : Script)
    {w : Wire}
    (hClean : Clean w.trace) :
    ((w.starttls script).1 = .ok () →
        Clean (w.starttls script).2.trace) ∧
      ∀ e, (w.starttls script).1 = .error e →
        Unquit (w.starttls script).2.trace ∧
          ((w.starttls script).2.encrypted = false →
            (failure e).isOpen = true →
              Clean (w.starttls script).2.trace) := by
  unfold Wire.starttls
  by_cases hOffer : w.serverInfo.starttls = true
  case neg =>
    simp only [hOffer]
    exact
      ⟨fun _ => hClean,
        fun _ _ => ⟨hClean.unquit, fun _ _ => hClean⟩⟩
  simp only [hOffer, if_true]
  cases hReply : script.starttls.result with
  | error e =>
      simp only [Wire.command, hReply]
      refine ⟨fun hOk => (by cases hOk), ?_⟩
      rintro _ ⟨⟩
      refine ⟨hClean.unquit.snoc rfl, fun _ hOpen => ?_⟩
      rw [Reply.keepsOpen_of_error hReply] at hOpen
      exact hClean.snoc rfl hOpen
  | ok n =>
      have hSent :
          Clean
            (w.trace ++
              [.sent w.encrypted .starttls
                script.starttls]) :=
        hClean.snoc rfl (Reply.keepsOpen_of_ok hReply)
      simp only [Wire.command, hReply]
      by_cases hShake : script.handshake = true
      case neg =>
        simp only [hShake]
        refine ⟨fun hOk => (by cases hOk), ?_⟩
        rintro _ ⟨⟩
        exact ⟨hSent.unquit, fun _ _ => hSent⟩
      simp only [hShake, if_true, Wire.ehlo]
      have hShaken :
          Clean
            (w.trace ++
              [.sent w.encrypted .starttls script.starttls] ++
              [.handshake]) :=
        hSent.snoc rfl rfl
      cases hAgain : script.ehloTls.result with
      | ok k =>
          simp only [Wire.command, hAgain]
          refine ⟨fun _ => ?_, fun _ hError => (by cases hError)⟩
          have hEhlo :
              (Event.sent true .ehlo
                script.ehloTls).isAnswered = true :=
            Reply.keepsOpen_of_ok hAgain
          exact (hShaken.snoc rfl hEhlo).snoc rfl rfl
      | error e =>
          simp only [Wire.command, hAgain]
          refine ⟨fun hOk => (by cases hOk), ?_⟩
          rintro _ ⟨⟩
          refine ⟨hShaken.unquit.snoc rfl, fun hPlain => ?_⟩
          cases hPlain

theorem upgrade_clean
    (config : SmtpConfig)
    (script : Script)
    {w : Wire}
    (hClean : Clean w.trace) :
    RunsClean (upgrade config script) w := by
  unfold RunsClean upgrade
  by_cases hTls : config.tls = true
  case neg =>
    simp only [hTls]
    exact hClean
  rcases starttls_clean script hClean with ⟨hOk, hError⟩
  simp only [hTls, if_true, Lib.wp_bind, Lib.wp_attempt]
  cases hResult : (w.starttls script).1 with
  | ok u => exact hOk hResult
  | error e =>
      rcases hError e hResult with ⟨hUnquit, hOpen⟩
      simp only [Lib.wp_bind, Lib.wp_get]
      split
      · exact ⟨hUnquit, fun hOpen => by cases hOpen⟩
      · rename_i hPlain
        exact ⟨hUnquit, hOpen (by simpa using hPlain)⟩

/- The mechanisms that are left, one after the other. -/
theorem tryMechanisms_clean
    (config : SmtpConfig)
    (script : Script)
    (mechanisms : List Mechanism)
    {w : Wire}
    (hOffered : ∀ m ∈ mechanisms,
      w.serverInfo.supportsAuthMechanism m = true)
    (hClean : Clean w.trace) :
    RunsClean (tryMechanisms config script mechanisms) w := by
  induction mechanisms generalizing w with
  | nil => exact .throw hClean
  | cons mechanism rest ih =>
      have hThis := hOffered mechanism List.mem_cons_self
      have hRest :
          (script.auth mechanism).keepsOpen = true →
            RunsClean (tryMechanisms config script rest)
              (w.command (.auth mechanism config.credentials)
                (script.auth mechanism)).2 :=
        fun hKeeps =>
          ih
            (fun m hm =>
              hOffered m (List.mem_cons_of_mem _ hm))
            (hClean.snoc rfl hKeeps)
      unfold RunsClean at hRest ⊢
      simp only [tryMechanisms, Lib.wp_bind, Lib.wp_attempt,
        Wire.auth, hThis, if_true]
      cases hReply : (script.auth mechanism).result with
      | ok n =>
          have hKeeps := Reply.keepsOpen_of_ok hReply
          simp only [Wire.command, hReply]
          by_cases hEndless : n = 334
          · simp only [hEndless, if_true, Error.status,
              Option.all_none]
            have hSent :
                Clean
                  (w.trace ++
                    [.sent w.encrypted
                      (.auth mechanism config.credentials)
                      (script.auth mechanism)]) :=
              hClean.snoc rfl hKeeps
            exact ⟨hSent.unquit, fun _ => hSent⟩
          · simp only [hEndless, if_false]
            split
            · exact hClean.snoc rfl hKeeps
            · exact hRest hKeeps
      | error e =>
          have hFlag := Reply.keepsOpen_of_error hReply
          simp only [Wire.command, hReply]
          split
          · refine ⟨hClean.unquit.snoc rfl, fun hOpen => ?_⟩
            rw [hFlag] at hOpen
            exact hClean.snoc rfl hOpen
          · rename_i hGoesOn
            refine hRest ?_
            rw [← hFlag]
            cases hStatus : e.status with
            | none => simp [hStatus] at hGoesOn
            | some n =>
                simpa [hStatus, failure] using hGoesOn

theorem login_clean
    (config : SmtpConfig)
    (script : Script)
    {w : Wire}
    (hClean : Clean w.trace) :
    RunsClean (login config script) w := by
  unfold RunsClean login
  rw [Lib.wp_bind, Lib.wp_get]
  dsimp only
  split
  · exact RunsClean.throw hClean
  · refine tryMechanisms_clean config script _ ?_ hClean
    intro m hm
    exact (List.mem_filter.mp hm).2

/- The loop ends with a 421 or with all asked. -/
theorem rcptTo_clean
    (script : Script)
    (i : Nat)
    (recipients : List (Address × Str))
    (acc : Rcpts)
    {w : Wire}
    (hClean : Clean w.trace) :
    Lib.Wp (rcptTo script i recipients acc)
      (fun acc' w' =>
        Unquit w'.trace ∧
          (acc'.closed = false → Clean w'.trace))
      (fun fault w' =>
        Unquit w'.trace ∧ fault.isOpen = false)
      w := by
  induction recipients generalizing i acc w with
  | nil => exact ⟨hClean.unquit, fun _ => hClean⟩
  | cons recipient rest ih =>
      rcases recipient with ⟨address, raw⟩
      rw [wp_rcptTo_cons]
      have hUnquit :
          Unquit
            (w.command (.rcpt address)
              (script.rcpt i)).2.trace :=
        hClean.unquit.snoc rfl
      cases hCode : (script.rcpt i).replyCode with
      | none => exact ⟨hUnquit, rfl⟩
      | some n =>
          have hSent : n ≠ 421 →
              Clean
                (w.command (.rcpt address)
                  (script.rcpt i)).2.trace := by
            intro hOpen
            refine hClean.snoc rfl ?_
            simp [Event.isAnswered, Reply.keepsOpen, hCode,
              hOpen]
          simp only
          by_cases hAccepted : n = 250 ∨ n = 251
          · simp only [hAccepted, if_true]
            exact ih (i + 1) _ (hSent (by omega))
          · simp only [hAccepted, if_false]
            by_cases hClosed : n = 421
            · simp only [hClosed, if_true]
              exact ⟨hUnquit, nofun⟩
            · simp only [hClosed, if_false]
              exact ih (i + 1) _ (hSent hClosed)

/- A transaction that may be followed by `QUIT` is clean. -/
theorem transaction_clean
    (config : SmtpConfig)
    (script : Script)
    (recipients : List (Address × Str))
    (message : BuiltMessage)
    {w : Wire}
    (hClean : Clean w.trace) :
    RunsClean (transaction config script recipients message)
      w := by
  unfold transaction
  refine (upgrade_clean config script hClean).bind ?_
  intro _ w hClean
  have hSecure : RunsClean requireEncrypted w := by
    unfold RunsClean requireEncrypted
    rw [Lib.wp_bind, Lib.wp_get]
    split
    · exact hClean
    · exact RunsClean.throw hClean
  refine hSecure.bind ?_
  intro _ w hClean
  refine (login_clean config script hClean).bind ?_
  intro _ w hClean
  refine
    (exchange_clean _ script.mail _ (by simp) hClean).bind ?_
  intro _ w hClean
  refine
    ((rcptTo_clean script 0 recipients _ hClean).mono
      (fun _ _ h => h) ?_).bind ?_
  · rintro fault w ⟨hUnquit, hShut⟩
    exact ⟨hUnquit, fun hOpen => by simp [hShut] at hOpen⟩
  rintro rcpts w ⟨hUnquit, hRcpts⟩
  have hAccepted : RunsClean (requireAccepted rcpts) w := by
    unfold RunsClean requireAccepted
    split
    · refine ⟨hUnquit, fun hOpen => hRcpts ?_⟩
      simpa using hOpen
    · rename_i hNot
      exact hRcpts (by simpa using (not_or.mp hNot).2)
  refine hAccepted.bind ?_
  intro _ w hClean
  refine
    (exchange_clean _ script.data _ (by simp) hClean).bind ?_
  intro _ w hClean
  refine
    (exchange_clean _ script.dataEnd _ (by simp) hClean).bind
      ?_
  intro _ w hClean
  exact hClean

end Smtp

end MailgunRelay

------------------------------------------------------------
-- The Cleanup
------------------------------------------------------------

namespace MailgunRelay

namespace Smtp

/-
  Whether the relay still has an open channel when the
  outcome is decided: a transaction took place, and nothing
  went wrong or the deciding event left the channel open.
-/
def leftOpen
    (config : SmtpConfig)
    (script : Script)
    (envelope : List Str) : Bool :=
  (recipientsOf envelope).isSome &&
    (connectFaults script).isEmpty &&
    script.ehlo.isPositive &&
    (transactionFaults config script envelope.length).head?.all
      Fault.leavesOpen

/- Whether the relay sends `QUIT`. -/
def quits
    (config : SmtpConfig)
    (script : Script)
    (envelope : List Str) : Bool :=
  leftOpen config script envelope && !script.broken

/-
  How a session ends: `before` is what happened until the
  outcome was decided.
-/
structure CleanedUp
    (config : SmtpConfig)
    (script : Script)
    (envelope : List Str)
    (run : SessionRun) : Prop where
  /- `QUIT` is last, and follows answered commands only. -/
  history :
    ∃ before encrypted,
      Unquit before ∧
        (quits config script envelope = true →
          Clean before) ∧
        run.trace =
          before ++
            if quits config script envelope then
              [.sent encrypted .quit script.quit]
            else
              []
  /- One record if `QUIT` is not answered 221. -/
  cleanup :
    run.cleanup.length =
      if quits config script envelope ∧
          script.quit ≠ .code 221 then
        1
      else
        0

/- No channel, no cleanup. -/
theorem CleanedUp.of_not_quits
    {config : SmtpConfig}
    {script : Script}
    {envelope : List Str}
    {run : SessionRun}
    (hQuits : quits config script envelope = false)
    (hUnquit : Unquit run.trace)
    (hCleanup : run.cleanup = []) :
    CleanedUp config script envelope run := by
  constructor
  · exact ⟨run.trace, false, hUnquit, by simp [hQuits]⟩
  · simp [hQuits, hCleanup]

/- The record of the cleanup, by the reply to `QUIT`. -/
theorem length_quit
    (script : Script)
    (w : Wire) :
    (quit script w).1.length =
      if script.quit ≠ .code 221 then 1 else 0 := by
  unfold quit
  cases hResult : script.quit.result with
  | ok n =>
      have hReply := (Reply.result_eq_ok_iff _ n).mp hResult
      have hIs : script.quit = .code 221 ↔ n = 221 := by
        simp [hReply.1]
      simp only [Wire.command, hResult, ne_eq, hIs]
      by_cases hGood : n = 221
      · simp [hGood]
      · simp [hGood]
  | error e =>
      have hNot : script.quit ≠ .code 221 := by
        intro hEq
        have hOk :=
          (Reply.result_eq_ok_iff _ 221).mpr ⟨hEq, by omega⟩
        rw [hResult] at hOk
        cases hOk
      simp only [Wire.command, hResult, hNot, ne_eq,
        not_false_iff, if_true]
      split
      · rfl
      · split <;> rfl

/- `QUIT` on an open channel that lettre did not give up. -/
theorem cleanedUp_of_channel
    {config : SmtpConfig}
    {script : Script}
    {envelope : List Str}
    {w : Wire}
    (outcome : Except SubmitError (List Refusal))
    (isOpen : Bool)
    (hLeft : leftOpen config script envelope = isOpen)
    (hUnquit : Unquit w.trace)
    (hClean : isOpen = true → Clean w.trace) :
    let done :=
      if isOpen && !script.broken then
        quit script w
      else
        ([], w)
    CleanedUp config script envelope
      { outcome := outcome
        trace := done.2.trace
        cleanup := done.1 } := by
  have hQuits :
      quits config script envelope =
        (isOpen && !script.broken) := by
    rw [quits, hLeft]
  intro done
  constructor
  · refine ⟨w.trace, w.encrypted, hUnquit, ?_, ?_⟩
    · intro hSent
      rw [hQuits, Bool.and_eq_true] at hSent
      exact hClean hSent.1
    · rw [hQuits]
      simp only [done]
      split
      · exact quit_trace script w
      · simp
  · rw [hQuits]
    simp only [done]
    cases isOpen && !script.broken with
    | true => simpa using length_quit script w
    | false => simp

/- The end of a session with a transaction. -/
theorem finish_cleanedUp
    {config : SmtpConfig}
    {script : Script}
    {envelope : List Str}
    {m : Step (List Refusal)}
    {w : Wire}
    (hClean : RunsClean m w)
    (hLeft :
      Lib.Wp m
        (fun _ _ => leftOpen config script envelope = true)
        (fun fault _ =>
          leftOpen config script envelope = fault.isOpen)
        w) :
    CleanedUp config script envelope
      (finish script (m w)) := by
  cases hResult : m w with
  | ok refused w' =>
      have hEnd := hClean.of_ok hResult
      exact
        cleanedUp_of_channel (.ok refused) true
          (hLeft.of_ok hResult) hEnd.unquit fun _ => hEnd
  | error fault w' =>
      have hEnd := hClean.of_error hResult
      exact
        cleanedUp_of_channel (.error fault.error) fault.isOpen
          (hLeft.of_error hResult) hEnd.1 hEnd.2

/- Every session is cleaned up. -/
theorem session_cleanup
    (config : SmtpConfig)
    (script : Script)
    (message : BuiltMessage) :
    CleanedUp config script message.envelope
      (session config script message) := by
  unfold session
  cases hRecipients : recipientsOf message.envelope with
  | none =>
      refine .of_not_quits ?_ (by simp [Unquit]) rfl
      simp [quits, leftOpen, hRecipients]
  | some recipients =>
      have hRaws := (recipientsOf_spec hRecipients).1
      by_cases hConnect : script.connect = true
      case neg =>
        simp only [hConnect, Bool.not_false, if_true]
        refine .of_not_quits ?_ (by simp [Unquit]) rfl
        simp [quits, leftOpen, connectFaults, hConnect]
      simp only [hConnect, Bool.not_true, Bool.false_eq_true,
        if_false]
      unfold Wire.connectWithTransport
      cases hBanner : script.banner.result with
      | error e =>
          have hNot := Reply.isPositive_of_error hBanner
          refine .of_not_quits ?_ (by simp [Unquit, Wire.opened]) rfl
          simp [quits, leftOpen, connectFaults, hNot]
      | ok n =>
          have hYes := Reply.isPositive_of_ok hBanner
          simp only [Wire.ehlo, Wire.command]
          cases hEhlo : script.ehlo.result with
          | error e =>
              have hNot := Reply.isPositive_of_error hEhlo
              refine .of_not_quits ?_ ?_ rfl
              · simp [quits, leftOpen, hNot]
              · simp [Unquit, Wire.opened, Event.isQuit]
          | ok k =>
              have hOk := Reply.isPositive_of_ok hEhlo
              have hReached :
                  leftOpen config script message.envelope =
                    (transactionFaults config script
                      recipients.length).head?.all
                        Fault.leavesOpen := by
                have hLength :
                    message.envelope.length =
                      recipients.length := by
                  rw [← hRaws, List.length_map]
                simp [leftOpen, connectFaults, hRecipients,
                  hConnect, hYes, hOk, hLength]
              refine
                finish_cleanedUp
                  (transaction_clean config script recipients
                    message ?_) ?_
              · intro event hEvent
                simp only [Wire.opened, Wire.log_trace,
                  List.nil_append, List.mem_append,
                  List.mem_singleton] at hEvent
                rcases hEvent with rfl | rfl
                · exact ⟨rfl, Reply.keepsOpen_of_ok hEhlo⟩
                · exact ⟨rfl, rfl⟩
              · rw [hReached]
                refine
                  Lib.Wp.mono
                    (transaction_judged config script
                      recipients message ?_ ?_) ?_ ?_
                · rfl
                · rfl
                · rintro refused w ⟨hNone, -⟩
                  rw [hNone]
                  rfl
                · intro fault w hFault
                  cases hHead :
                      (transactionFaults config script
                        recipients.length).head? with
                  | none => simp [hHead] at hFault
                  | some first =>
                      simp only [hHead, Option.map_some,
                        Option.some.injEq, id] at hFault
                      rw [← hFault]
                      rfl

/-
  The relay's `QUIT` is last, follows exactly the outcomes
  that leave the channel open, and changes none of them.
-/
theorem session_cleaned_up
    (config : SmtpConfig)
    (script : Script)
    (message : BuiltMessage) :
    CleanedUp config script message.envelope
        (session config script message) ∧
      ∀ reply,
        (session config { script with quit := reply }
            message).outcome =
          (session config script message).outcome := by
  refine ⟨session_cleanup config script message, ?_⟩
  intro reply
  rw [session_judged, session_judged]
  rfl

end Smtp

end MailgunRelay
