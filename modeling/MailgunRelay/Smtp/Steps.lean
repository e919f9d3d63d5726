import MailgunRelay.Smtp.Session

/-
  What single steps of a session can do.

  Every result about sessions is assembled from these
  facts, so no later proof opens a step again.

  Key definitions include:
    * `MailgunRelay.Smtp.Reply.replyCode`
    * `MailgunRelay.Smtp.Reply.isAccepted`

  Key theorems include:
    * `MailgunRelay.Smtp.Reply.result_eq_ok_iff`
    * `MailgunRelay.Smtp.exchange_spec`
    * `MailgunRelay.Smtp.ehlo_spec`
    * `MailgunRelay.Smtp.auth_spec`
    * `MailgunRelay.Smtp.wp_rcptTo_cons`
    * `MailgunRelay.Smtp.recipientsOf_spec`
    * `MailgunRelay.Smtp.session_run`
-/

------------------------------------------------------------
-- Replies
------------------------------------------------------------

namespace MailgunRelay

namespace Smtp

/- lettre returns exactly the positive replies. -/
theorem Reply.result_eq_ok_iff
    (reply : Reply)
    (n : Nat) :
    reply.result = .ok n ↔
      reply = .code n ∧ ParsesCode n ∧ n < 400 := by
  cases reply with
  | code k =>
      simp only [Reply.result, Reply.code.injEq]
      split
      · split
        · simp only [Except.ok.injEq]
          omega
        · simp only [reduceCtorEq, false_iff]
          omega
      · simp only [reduceCtorEq, false_iff]
        omega
  | garbled => simp [Reply.result]
  | timeout => simp [Reply.result]
  | lost => simp [Reply.result]

/- An error with a code is a 4xx or 5xx reply. -/
theorem Reply.eq_of_result_status
    {reply : Reply}
    {error : Error}
    {n : Nat}
    (hResult : reply.result = .error error)
    (hStatus : error.status = some n) :
    reply = .code n ∧ ParsesCode n ∧ 400 ≤ n := by
  cases reply with
  | code k =>
      simp only [Reply.result] at hResult
      split at hResult
      · split at hResult
        · simp at hResult
        · simp only [Except.error.injEq] at hResult
          subst hResult
          simp only [Error.status, Option.some.injEq]
            at hStatus
          subst hStatus
          exact ⟨rfl, by assumption, by omega⟩
      · simp only [Except.error.injEq] at hResult
        subst hResult
        simp [Error.status] at hStatus
  | garbled =>
      simp only [Reply.result, Except.error.injEq] at hResult
      subst hResult
      simp [Error.status] at hStatus
  | timeout =>
      simp only [Reply.result, Except.error.injEq] at hResult
      subst hResult
      simp [Error.status] at hStatus
  | lost =>
      simp only [Reply.result, Except.error.injEq] at hResult
      subst hResult
      simp [Error.status] at hStatus

end Smtp

end MailgunRelay

------------------------------------------------------------
-- Wire Fields
------------------------------------------------------------

namespace MailgunRelay

namespace Smtp

namespace Wire

@[simp] theorem log_trace (event : Event) (w : Wire) :
    (w.log event).trace = w.trace ++ [event] := rfl

@[simp] theorem log_encrypted (event : Event) (w : Wire) :
    (w.log event).encrypted = w.encrypted := rfl

@[simp] theorem log_serverInfo (event : Event) (w : Wire) :
    (w.log event).serverInfo = w.serverInfo := rfl

@[simp] theorem command_result
    (cmd : Command) (reply : Reply) (w : Wire) :
    (w.command cmd reply).1 = reply.result := rfl

@[simp] theorem command_trace
    (cmd : Command) (reply : Reply) (w : Wire) :
    (w.command cmd reply).2.trace =
      w.trace ++ [.sent w.encrypted cmd reply] := rfl

@[simp] theorem command_encrypted
    (cmd : Command) (reply : Reply) (w : Wire) :
    (w.command cmd reply).2.encrypted = w.encrypted := rfl

@[simp] theorem command_serverInfo
    (cmd : Command) (reply : Reply) (w : Wire) :
    (w.command cmd reply).2.serverInfo = w.serverInfo := rfl

@[simp] theorem command_written
    (cmd : Command) (reply : Reply) (w : Wire) :
    (w.command cmd reply).2.written = true := rfl

end Wire

end Smtp

end MailgunRelay

------------------------------------------------------------
-- Exchanges
------------------------------------------------------------

namespace MailgunRelay

namespace Smtp

/-
  An exchange sends its command once.  It passes exactly on
  a wanted code.
-/
theorem exchange_spec
    (cmd : Command)
    (reply : Reply)
    (wanted : List Nat)
    (hWanted : ∀ n ∈ wanted, ParsesCode n ∧ n < 400)
    (w : Wire) :
    Lib.Wp (exchange cmd reply wanted)
      (fun _ w' =>
        w' = (w.command cmd reply).2 ∧
          ∃ n ∈ wanted, reply = .code n)
      (fun _ w' =>
        w' = (w.command cmd reply).2 ∧
          ∀ n ∈ wanted, reply ≠ .code n)
      w := by
  unfold exchange
  rw [Lib.wp_bind, Lib.wp_attempt, Wire.command_result]
  cases hResult : reply.result with
  | ok n =>
      have hReply := (reply.result_eq_ok_iff n).mp hResult
      by_cases hMem : n ∈ wanted
      · simp only [require, hMem, if_true,
          Lib.wp_liftExcept_ok, true_and]
        exact ⟨n, hMem, hReply.1⟩
      · simp only [require, hMem, if_false,
          Lib.wp_liftExcept_error, true_and]
        intro k hk hEq
        rw [hReply.1, Reply.code.injEq] at hEq
        exact hMem (hEq ▸ hk)
  | error e =>
      simp only [Lib.wp_throw, true_and]
      intro k hk hEq
      have hOk :=
        (reply.result_eq_ok_iff k).mpr ⟨hEq, hWanted k hk⟩
      rw [hResult] at hOk
      simp at hOk

/-
  `EHLO` is one command; an accepted reply adds its
  extension list to the history and puts it in force.
-/
theorem ehlo_spec
    (reply : Reply)
    (info : ServerInfo)
    (w : Wire) :
    let sent := w.log (.sent w.encrypted .ehlo reply)
    (∃ n, reply = .code n ∧
        w.ehlo reply info =
          (.ok (),
            { (sent.log (.offers info)) with
              serverInfo := info, written := true })) ∨
      ∃ error, w.ehlo reply info =
        (.error error, { sent with written := true }) := by
  unfold Wire.ehlo
  cases hResult : reply.result with
  | ok n =>
      left
      have hReply := (reply.result_eq_ok_iff n).mp hResult
      refine ⟨n, hReply.1, ?_⟩
      simp [Wire.command, hResult, Wire.log]
  | error e =>
      right
      exact ⟨e, by simp [Wire.command, hResult]⟩

/-
  An offered mechanism is one `AUTH`.  The exchange returns
  235 only if the server said so, and it ends the login
  only on 421 or without a code.
-/
theorem auth_spec
    (script : Script)
    (mechanism : Mechanism)
    (credentials : SmtpCredentials)
    (w : Wire)
    (hOffered :
      w.serverInfo.supportsAuthMechanism mechanism = true) :
    let sent := w.command (.auth mechanism credentials)
      (script.auth mechanism)
    (w.auth script mechanism credentials).2 = sent.2 ∧
      ((w.auth script mechanism credentials).1 = .ok 235 →
        script.auth mechanism = .code 235) := by
  unfold Wire.auth
  simp only [hOffered, if_true]
  cases hResult : (script.auth mechanism).result with
  | ok n =>
      have hReply :=
        (Reply.result_eq_ok_iff _ n).mp hResult
      simp only [Wire.command, hResult, true_and]
      split
      · simp
      · intro h
        rw [hReply.1, Except.ok.inj h]
  | error e =>
      simp [Wire.command, hResult]

end Smtp

end MailgunRelay

------------------------------------------------------------
-- Recipients
------------------------------------------------------------

namespace MailgunRelay

namespace Smtp

/- The code the relay sees, of a positive or negative reply. -/
def Reply.replyCode (reply : Reply) : Option Nat :=
  match reply.result with
  | .ok n => some n
  | .error e => e.status

/- The reply accepts a recipient. -/
def Reply.isAccepted (reply : Reply) : Bool :=
  reply = .code 250 || reply = .code 251

/- The relay sees the codes lettre parses. -/
theorem Reply.replyCode_eq_some_iff
    (reply : Reply)
    (n : Nat) :
    reply.replyCode = some n ↔
      reply = .code n ∧ ParsesCode n := by
  cases reply with
  | code k =>
      simp only [Reply.replyCode, Reply.result,
        Reply.code.injEq]
      by_cases hParses : ParsesCode k
      · rw [if_pos hParses]
        by_cases hPositive : k < 400
        · simp only [hPositive, if_true, Option.some.injEq]
          omega
        · simp only [hPositive, if_false, Error.status,
            Option.some.injEq]
          omega
      · rw [if_neg hParses]
        simp only [Error.status, reduceCtorEq, false_iff]
        omega
  | garbled => simp [Reply.replyCode, Reply.result, Error.status]
  | timeout => simp [Reply.replyCode, Reply.result, Error.status]
  | lost => simp [Reply.replyCode, Reply.result, Error.status]

/- Without a code the channel counts as gone. -/
theorem Reply.failure_of_replyCode_none
    {reply : Reply}
    {error : Error}
    (hResult : reply.result = .error error)
    (hCode : reply.replyCode = none) :
    failure error = { error := .temporary, isOpen := false } := by
  cases reply with
  | code k =>
      simp only [Reply.replyCode, hResult] at hCode
      simp only [Reply.result] at hResult
      split at hResult
      · split at hResult
        · simp at hResult
        · simp only [Except.error.injEq] at hResult
          subst hResult
          simp [Error.status] at hCode
      · simp only [Except.error.injEq] at hResult
        subst hResult
        rfl
  | garbled =>
      simp only [Reply.result, Except.error.injEq] at hResult
      subst hResult
      rfl
  | timeout =>
      simp only [Reply.result, Except.error.injEq] at hResult
      subst hResult
      rfl
  | lost =>
      simp only [Reply.result, Except.error.injEq] at hResult
      subst hResult
      rfl

/- One turn of the `RCPT` loop, by the code of its reply. -/
theorem wp_rcptTo_cons
    (script : Script)
    (i : Nat)
    (address : Address)
    (raw : Str)
    (rest : List (Address × Str))
    (acc : Rcpts)
    (Q : Rcpts → Wire → Prop)
    (E : Failure → Wire → Prop)
    (w : Wire) :
    Lib.Wp (rcptTo script i ((address, raw) :: rest) acc)
        Q E w ↔
      let sent :=
        (w.command (.rcpt address) (script.rcpt i)).2
      match (script.rcpt i).replyCode with
      | none =>
          E { error := .temporary, isOpen := false } sent
      | some n =>
          if n = 250 ∨ n = 251 then
            Lib.Wp
              (rcptTo script (i + 1) rest
                { acc with accepted := acc.accepted + 1 })
              Q E sent
          else if n = 421 then
            Q { acc with
                refused := acc.refused ++
                  [{ address := raw, code := some n }]
                closed := true } sent
          else
            Lib.Wp
              (rcptTo script (i + 1) rest
                { acc with
                  refused := acc.refused ++
                    [{ address := raw, code := some n }] })
              Q E sent := by
  simp only [rcptTo, Lib.wp_bind, Lib.wp_attempt,
    Wire.command_result]
  cases hResult : (script.rcpt i).result with
  | ok n =>
      have hCode : (script.rcpt i).replyCode = some n := by
        simp [Reply.replyCode, hResult]
      simp only [hCode, Lib.wp_bind, Lib.wp_pure]
      split
      · rfl
      · split <;> rfl
  | error e =>
      cases hStatus : e.status with
      | some n =>
          have hCode : (script.rcpt i).replyCode = some n := by
            simp [Reply.replyCode, hResult, hStatus]
          simp only [hCode, hStatus, Lib.wp_bind,
            Lib.wp_pure]
          split
          · rfl
          · split <;> rfl
      | none =>
          have hCode : (script.rcpt i).replyCode = none := by
            simp [Reply.replyCode, hResult, hStatus]
          simp only [hCode, hStatus, Lib.wp_bind,
            Lib.wp_throw,
            Reply.failure_of_replyCode_none hResult hCode]

end Smtp

end MailgunRelay

------------------------------------------------------------
-- The Envelope
------------------------------------------------------------

namespace MailgunRelay

namespace Smtp

/- lettre's address writes the text it was made of. -/
theorem envelopeAddress_text
    {raw : Str}
    {address : Address}
    (hAddress : envelopeAddress raw = some address) :
    address.text = raw := by
  unfold envelopeAddress at hAddress
  cases hSplit : Lib.Text.rsplitOnce '@' raw with
  | none => simp [hSplit] at hAddress
  | some p =>
      rcases p with ⟨user, domain⟩
      simp only [hSplit, Option.dite_none_right_eq_some,
        Option.some.injEq] at hAddress
      rcases hAddress with ⟨_, rfl⟩
      have hText :=
        (Lib.Text.rsplitOnce_eq_some_iff '@' raw user
          domain).mp hSplit
      rw [hText.1, Address.text]

/- The recipients are those of the envelope, in order. -/
theorem recipientsOf_spec
    {envelope : List Str}
    {recipients : List (Address × Str)}
    (hRecipients : recipientsOf envelope = some recipients) :
    recipients.map Prod.snd = envelope ∧
      ∀ p ∈ recipients, p.1.text = p.2 := by
  induction envelope generalizing recipients with
  | nil =>
      simp [recipientsOf] at hRecipients
      subst hRecipients
      simp
  | cons raw rest ih =>
      simp only [recipientsOf, List.mapM_cons,
        Option.bind_eq_bind, Option.bind_eq_some_iff,
        Option.map_eq_some_iff, Option.pure_def,
        Option.some.injEq] at hRecipients
      rcases hRecipients with
        ⟨_, ⟨address, hAddress, rfl⟩, tail, hTail, rfl⟩
      rcases ih hTail with ⟨hMap, hAll⟩
      refine ⟨by simp [hMap], ?_⟩
      intro p hp
      rcases List.mem_cons.mp hp with rfl | hp
      · exact envelopeAddress_text hAddress
      · exact hAll p hp

end Smtp

end MailgunRelay

------------------------------------------------------------
-- Whole Sessions
------------------------------------------------------------

namespace MailgunRelay

namespace Smtp

/- `QUIT` is one more command. -/
theorem quit_trace
    (script : Script)
    (w : Wire) :
    (quit script w).2.trace =
      w.trace ++ [.sent w.encrypted .quit script.quit] := by
  unfold quit
  cases hResult : script.quit.result <;>
    simp [Wire.command, hResult]

/- The cleanup adds at most a `QUIT`. -/
theorem finish_run
    (script : Script)
    (m : Step (List Refusal))
    (w : Wire)
    (P : Except SubmitError (List Refusal) →
      List Event → Prop)
    (hQuit : ∀ outcome trace encrypted reply,
      P outcome trace →
        P outcome (trace ++ [.sent encrypted .quit reply]))
    (hRun : Lib.Wp m
      (fun refused w' => P (.ok refused) w'.trace)
      (fun fault w' => P (.error fault.error) w'.trace)
      w) :
    P (finish script (m w)).outcome
      (finish script (m w)).trace := by
  cases hResult : m w with
  | ok refused w' =>
      have hTrace := hRun.of_ok hResult
      simp only [finish]
      split
      · rw [quit_trace]
        exact hQuit _ _ _ _ hTrace
      · exact hTrace
  | error fault w' =>
      have hTrace := hRun.of_error hResult
      simp only [finish]
      split
      · rw [quit_trace]
        exact hQuit _ _ _ _ hTrace
      · exact hTrace

/-
  A property of outcomes and traces holds of every session
  if it holds where nothing was sent, survives a `QUIT`, and
  the opening and the transaction establish it.
-/
theorem session_run
    (config : SmtpConfig)
    (script : Script)
    (message : BuiltMessage)
    (P : Except SubmitError (List Refusal) →
      List Event → Prop)
    (hNil : P (.error .temporary) [])
    (hQuit : ∀ outcome trace encrypted reply,
      P outcome trace →
        P outcome (trace ++ [.sent encrypted .quit reply]))
    (hConnect : ∀ error w,
      Wire.opened.connectWithTransport script =
          (.error error, w) →
        P (.error
          (if w.written then ehloFailure config error
            else (failure error).error)) w.trace)
    (hRun : ∀ recipients w,
      recipientsOf message.envelope = some recipients →
      Wire.opened.connectWithTransport script = (.ok (), w) →
        Lib.Wp (transaction config script recipients message)
          (fun refused w' => P (.ok refused) w'.trace)
          (fun fault w' => P (.error fault.error) w'.trace)
          w) :
    P (session config script message).outcome
      (session config script message).trace := by
  unfold session
  cases hRecipients : recipientsOf message.envelope with
  | none => exact hNil
  | some recipients =>
      by_cases hOpen : script.connect = true
      · simp only [hOpen, Bool.not_true, Bool.false_eq_true,
          if_false]
        cases hStart :
            Wire.opened.connectWithTransport script with
        | mk answer w =>
            cases answer with
            | error e => exact hConnect e w hStart
            | ok u =>
                exact finish_run script _ w P hQuit
                  (hRun recipients w hRecipients hStart)
      · simp only [hOpen, Bool.not_false, if_true]
        exact hNil

end Smtp

end MailgunRelay
