import MailgunRelay.Smtp.Order

/-
  What the outcome of a session says about the server.

  A trace is read by the answers it holds: to MAIL, to each
  RCPT, to DATA and to the message.  `Delivered` says that
  they accept the message; the outcome of a session is `Ok`
  exactly then, with the refusals of its recipients.

  Key definitions include:
    * `MailgunRelay.Smtp.answersTo`
    * `MailgunRelay.Smtp.Delivered`
    * `MailgunRelay.Smtp.refusals`

  Key theorems include:
    * `MailgunRelay.Smtp.rcptTo_answers`
    * `MailgunRelay.Smtp.transaction_delivers`
    * `MailgunRelay.Smtp.session_truthful`
-/

------------------------------------------------------------
-- Answers
------------------------------------------------------------

namespace MailgunRelay

namespace Smtp

/- The answers to the commands a reading selects, in order. -/
def answersTo
    {α : Type}
    (select : Command → Option α)
    (trace : List Event) : List (α × Reply) :=
  trace.filterMap fun
    | .sent _ cmd reply => (select cmd).map (·, reply)
    | _ => none

def Command.mailSender : Command → Option (Option Address)
| .mail sender => some sender
| _ => none

def Command.rcptAddress : Command → Option Address
| .rcpt address => some address
| _ => none

def Command.isData : Command → Option Unit
| .data => some ()
| _ => none

def Command.messageBody : Command → Option Bytes
| .message body => some body
| _ => none

/- The recipients the server refused, with its codes. -/
def refusals
    (answers : List (Address × Reply)) : List Refusal :=
  answers.filterMap fun p =>
    if p.2.isAccepted then
      none
    else
      some { address := p.1.text, code := p.2.replyCode }

/- The recipients the server took. -/
def acceptances
    (answers : List (Address × Reply)) : List Str :=
  answers.filterMap fun p =>
    if p.2.isAccepted then some p.1.text else none

/-
  The server took responsibility for the message: it
  accepted the sender, was asked for every recipient in
  order, took one and closed at none, and accepted the data.
-/
structure Delivered
    (config : SmtpConfig)
    (message : BuiltMessage)
    (trace : List Event) : Prop where
  mail :
    answersTo Command.mailSender trace =
      [(config.sender, .code 250)]
  asked :
    (answersTo Command.rcptAddress trace).map
        (fun p => p.1.text) =
      message.envelope
  accepted :
    ∃ p ∈ answersTo Command.rcptAddress trace,
      p.2.isAccepted = true
  stayed :
    ∀ p ∈ answersTo Command.rcptAddress trace,
      p.2 ≠ .code 421
  data :
    answersTo Command.isData trace = [((), .code 354)]
  message :
    answersTo Command.messageBody trace =
      [(stripFinalCrlf message.formatted, .code 250)]

/- The server answered 250 to the end of the data. -/
def MessageAccepted (trace : List Event) : Prop :=
  ∃ p ∈ answersTo Command.messageBody trace,
    p.2 = .code 250

/- Refused and taken recipients together are all of them. -/
theorem refusals_acceptances_perm
    (answers : List (Address × Reply)) :
    ((refusals answers).map Refusal.address ++
        acceptances answers).Perm
      (answers.map fun p => p.1.text) := by
  induction answers with
  | nil => simp [refusals, acceptances]
  | cons p rest ih =>
      by_cases hp : p.2.isAccepted = true
      · have hRefused : refusals (p :: rest) = refusals rest := by
          simp [refusals, hp]
        have hTaken :
            acceptances (p :: rest) =
              p.1.text :: acceptances rest := by
          simp [acceptances, hp]
        rw [hRefused, hTaken, List.map_cons]
        exact List.perm_middle.trans (ih.cons _)
      · have hRefused :
            refusals (p :: rest) =
              { address := p.1.text, code := p.2.replyCode } ::
                refusals rest := by
          simp [refusals, hp]
        have hTaken :
            acceptances (p :: rest) = acceptances rest := by
          simp [acceptances, hp]
        rw [hRefused, hTaken]
        exact ih.cons _

end Smtp

end MailgunRelay

------------------------------------------------------------
-- Answers Along A Trace
------------------------------------------------------------

namespace MailgunRelay

namespace Smtp

variable {α : Type} (select : Command → Option α)

@[simp] theorem answersTo_nil :
    answersTo select [] = [] := rfl

@[simp] theorem answersTo_append
    (trace trace' : List Event) :
    answersTo select (trace ++ trace') =
      answersTo select trace ++ answersTo select trace' := by
  simp [answersTo]

/- One command is answered once, if it is selected. -/
@[simp] theorem answersTo_sent
    (encrypted : Bool)
    (cmd : Command)
    (reply : Reply)
    (trace : List Event) :
    answersTo select (.sent encrypted cmd reply :: trace) =
      ((select cmd).map (·, reply)).toList ++
        answersTo select trace := by
  cases hCmd : select cmd <;> simp [answersTo, hCmd]

/- Events before the mail: an opening and a login. -/
def Event.isPrelude : Event → Bool
| .sent _ (.auth _ _) _ => true
| event => event.isOpening

/- A trace without a mail transaction. -/
def Prelude (trace : List Event) : Prop :=
  ∀ e ∈ trace, e.isPrelude = true

theorem Prelude.of_opening
    {trace : List Event}
    (hOpening : ∀ e ∈ trace, e.isOpening = true) :
    Prelude trace := by
  intro e he
  have hEvent := hOpening e he
  match e with
  | .sent _ (.auth _ _) _ => rfl
  | .sent _ .ehlo _ => exact hEvent
  | .sent _ .starttls _ => exact hEvent
  | .handshake => rfl
  | .offers _ => rfl

/- A prelude answers nothing but opening and login. -/
theorem Prelude.answers_eq_nil
    {trace : List Event}
    (hPrelude : Prelude trace)
    (hEhlo : select .ehlo = none)
    (hStarttls : select .starttls = none)
    (hAuth : ∀ mechanism credentials,
      select (.auth mechanism credentials) = none) :
    answersTo select trace = [] := by
  rw [answersTo, List.filterMap_eq_nil_iff]
  intro e he
  have hEvent := hPrelude e he
  match e with
  | .sent _ (.auth _ _) _ => simp [hAuth]
  | .sent _ .ehlo _ => simp [hEhlo]
  | .sent _ .starttls _ => simp [hStarttls]
  | .handshake => rfl
  | .offers _ => rfl

end Smtp

end MailgunRelay

------------------------------------------------------------
-- The Recipient Loop
------------------------------------------------------------

namespace MailgunRelay

namespace Smtp

/- The events of a list of answered recipients. -/
def rcptEvents
    (encrypted : Bool)
    (answers : List (Address × Reply)) : List Event :=
  answers.map fun p => .sent encrypted (.rcpt p.1) p.2

theorem answersTo_rcptEvents
    (encrypted : Bool)
    (answers : List (Address × Reply)) :
    answersTo Command.rcptAddress
        (rcptEvents encrypted answers) = answers := by
  induction answers with
  | nil => rfl
  | cons p rest ih =>
      simpa [rcptEvents, Command.rcptAddress] using ih

theorem answersTo_rcptEvents_of_none
    {α : Type}
    (select : Command → Option α)
    (encrypted : Bool)
    (answers : List (Address × Reply))
    (hSelect : ∀ address, select (.rcpt address) = none) :
    answersTo select (rcptEvents encrypted answers) = [] := by
  induction answers with
  | nil => rfl
  | cons p rest ih =>
      simpa [rcptEvents, hSelect] using ih

/-
  What the loop did when it ended open: every recipient was
  asked, none of the answers was 421, and the counters are
  those of the answers.
-/
structure Asked
    (recipients : List (Address × Str))
    (acc acc' : Rcpts)
    (answers : List (Address × Reply)) : Prop where
  asked : answers.map Prod.fst = recipients.map Prod.fst
  stayed : ∀ p ∈ answers, p.2 ≠ .code 421
  coded : ∀ p ∈ answers, p.2.replyCode.isSome = true
  accepted :
    acc'.accepted =
      acc.accepted + (acceptances answers).length
  refused : acc'.refused = acc.refused ++ refusals answers

/- One answered recipient before the others. -/
theorem Asked.cons
    {address : Address}
    {raw : Str}
    {reply : Reply}
    {rest : List (Address × Str)}
    {acc acc₁ acc' : Rcpts}
    {answers : List (Address × Reply)}
    (hRest : Asked rest acc₁ acc' answers)
    (hStayed : reply ≠ .code 421)
    (hCoded : reply.replyCode.isSome = true)
    (hAccepted :
      acc₁.accepted =
        acc.accepted +
          (acceptances [(address, reply)]).length)
    (hRefused :
      acc₁.refused =
        acc.refused ++ refusals [(address, reply)]) :
    Asked ((address, raw) :: rest) acc acc'
      ((address, reply) :: answers) := by
  have hTaken :
      acceptances ((address, reply) :: answers) =
        acceptances [(address, reply)] ++
          acceptances answers := by
    rw [acceptances, acceptances, acceptances,
      ← List.filterMap_append]
    rfl
  have hOthers :
      refusals ((address, reply) :: answers) =
        refusals [(address, reply)] ++ refusals answers := by
    rw [refusals, refusals, refusals,
      ← List.filterMap_append]
    rfl
  refine ⟨by simp [hRest.asked], ?_, ?_, ?_, ?_⟩
  · intro p hp
    rcases List.mem_cons.mp hp with rfl | hp
    · exact hStayed
    · exact hRest.stayed p hp
  · intro p hp
    rcases List.mem_cons.mp hp with rfl | hp
    · exact hCoded
    · exact hRest.coded p hp
  · rw [hRest.accepted, hAccepted, hTaken,
      List.length_append]
    omega
  · rw [hRest.refused, hRefused, hOthers,
      List.append_assoc]

/-
  The loop adds one `RCPT` for each recipient it reaches.
  The induction is over the recipients still to ask.
-/
theorem rcptTo_answers
    (script : Script)
    (i : Nat)
    (recipients : List (Address × Str))
    (hText : ∀ p ∈ recipients, p.1.text = p.2)
    (acc : Rcpts)
    (w : Wire) :
    Lib.Wp (rcptTo script i recipients acc)
      (fun acc' w' => ∃ answers,
        w'.trace =
            w.trace ++ rcptEvents w.encrypted answers ∧
          w'.encrypted = w.encrypted ∧
          (acc'.closed = false →
            Asked recipients acc acc' answers))
      (fun _ w' => ∃ answers,
        w'.trace = w.trace ++ rcptEvents w.encrypted answers)
      w := by
  induction recipients generalizing i acc w with
  | nil =>
      refine ⟨[], by simp [rcptEvents], rfl, fun _ => ?_⟩
      exact ⟨rfl, by simp, by simp, by simp [acceptances],
        by simp [refusals]⟩
  | cons recipient rest ih =>
      rcases recipient with ⟨address, raw⟩
      have hRaw : address.text = raw :=
        hText (address, raw) (by simp)
      have hRest : ∀ p ∈ rest, p.1.text = p.2 :=
        fun p hp => hText p (List.mem_cons_of_mem _ hp)
      have hEvents :
          ∀ answers,
            (w.command (.rcpt address)
                (script.rcpt i)).2.trace ++
                rcptEvents w.encrypted answers =
              w.trace ++ rcptEvents w.encrypted
                ((address, script.rcpt i) :: answers) := by
        simp [rcptEvents]
      have hLast :
          (w.command (.rcpt address)
              (script.rcpt i)).2.trace =
            w.trace ++ rcptEvents w.encrypted
              [(address, script.rcpt i)] := by
        simp [rcptEvents]
      rw [wp_rcptTo_cons]
      cases hCode : (script.rcpt i).replyCode with
      | none => exact ⟨_, hLast⟩
      | some n =>
          have hReply :=
            (Reply.replyCode_eq_some_iff _ n).mp hCode
          simp only
          by_cases hAccepted : n = 250 ∨ n = 251
          · have hIs :
                (script.rcpt i).isAccepted = true := by
              simpa [Reply.isAccepted, hReply.1] using hAccepted
            simp only [hAccepted, if_true]
            refine (ih (i + 1) hRest _ _).mono ?_ ?_
            · rintro acc' w' ⟨answers, hTrace, hEnc, hAsked⟩
              refine
                ⟨_, hTrace.trans (hEvents answers), hEnc,
                  fun hOpen =>
                  (hAsked hOpen).cons ?_ (by simp [hCode])
                    ?_ ?_⟩
              · rw [hReply.1]
                simp only [ne_eq, Reply.code.injEq]
                omega
              · simp [acceptances, hIs]
              · simp [refusals, hIs]
            · rintro _ w' ⟨answers, hTrace⟩
              exact ⟨_, hTrace.trans (hEvents answers)⟩
          · have hIs :
                (script.rcpt i).isAccepted = false := by
              simpa [Reply.isAccepted, hReply.1] using hAccepted
            simp only [hAccepted, if_false]
            by_cases hClosed : n = 421
            · simp only [hClosed, if_true]
              exact ⟨_, hLast, rfl, by simp⟩
            · simp only [hClosed, if_false]
              refine (ih (i + 1) hRest _ _).mono ?_ ?_
              · rintro acc' w' ⟨answers, hTrace, hEnc, hAsked⟩
                refine
                  ⟨_, hTrace.trans (hEvents answers), hEnc,
                    fun hOpen =>
                  (hAsked hOpen).cons ?_ (by simp [hCode])
                    ?_ ?_⟩
                · rw [hReply.1]
                  simpa using hClosed
                · simp [acceptances, hIs]
                · simp [refusals, hIs, hRaw, hCode]
              · rintro _ w' ⟨answers, hTrace⟩
                exact ⟨_, hTrace.trans (hEvents answers)⟩

end Smtp

end MailgunRelay

------------------------------------------------------------
-- The Transaction
------------------------------------------------------------

namespace MailgunRelay

namespace Smtp

/- The message was not accepted. -/
theorem not_messageAccepted_of_nil
    {trace : List Event}
    (hNil : answersTo Command.messageBody trace = []) :
    ¬ MessageAccepted trace := by
  rintro ⟨p, hp, -⟩
  simp [hNil] at hp

/- The login adds `AUTH` commands only. -/
theorem tryMechanisms_prelude
    (config : SmtpConfig)
    (script : Script)
    (mechanisms : List Mechanism)
    {w : Wire}
    (hPrelude : Prelude w.trace) :
    Lib.Wp (tryMechanisms config script mechanisms)
      (fun _ w' =>
        Prelude w'.trace ∧ w'.encrypted = w.encrypted)
      (fun _ w' => Prelude w'.trace)
      w := by
  induction mechanisms generalizing w with
  | nil => exact hPrelude
  | cons mechanism rest ih =>
      have hSent :
          Prelude
              (w.auth script mechanism
                config.credentials).2.trace ∧
            (w.auth script mechanism
                config.credentials).2.encrypted =
              w.encrypted := by
        by_cases hOffered :
            w.serverInfo.supportsAuthMechanism mechanism = true
        · rw [(auth_spec script mechanism config.credentials w
            hOffered).1]
          refine ⟨?_, rfl⟩
          intro e he
          rw [Wire.command_trace] at he
          rcases List.mem_append.mp he with he | he
          · exact hPrelude e he
          · rw [List.mem_singleton.mp he]
            rfl
        · simp only [Wire.auth, hOffered]
          exact ⟨hPrelude, rfl⟩
      have hRest := ih hSent.1
      rw [hSent.2] at hRest
      simp only [tryMechanisms, Lib.wp_bind, Lib.wp_attempt]
      split
      · split
        · exact hSent
        · exact hRest
      · split
        · exact hSent.1
        · exact hRest

/- Up to the login the trace is a prelude. -/
theorem login_prelude
    (config : SmtpConfig)
    (script : Script)
    {w : Wire}
    (hPrelude : Prelude w.trace) :
    Lib.Wp (login config script)
      (fun _ w' =>
        Prelude w'.trace ∧ w'.encrypted = w.encrypted)
      (fun _ w' => Prelude w'.trace)
      w := by
  unfold login
  simp only [Lib.wp_bind, Lib.wp_get]
  split
  · exact hPrelude
  · exact tryMechanisms_prelude config script _ hPrelude

/- `DATA` and the message: accepted by 354 and 250. -/
theorem data_delivers
    (script : Script)
    (body : Bytes)
    (refused : List Refusal)
    {w : Wire}
    (hUnsent : answersTo Command.messageBody w.trace = []) :
    Lib.Wp
      (do
        exchange .data script.data [354]
        exchange (.message body) script.dataEnd [250]
        pure refused)
      (fun refused' w' =>
        refused' = refused ∧
          w'.trace =
            w.trace ++
              [.sent w.encrypted .data (.code 354),
                .sent w.encrypted (.message body)
                  (.code 250)])
      (fun _ w' => ¬ MessageAccepted w'.trace)
      w := by
  rw [Lib.wp_bind]
  refine (exchange_spec _ script.data [354] (by decide)
    w).mono ?_ ?_
  · rintro _ w' ⟨rfl, n, hn, hData⟩
    rw [List.mem_singleton] at hn
    subst hn
    rw [Lib.wp_bind]
    refine (exchange_spec _ script.dataEnd [250]
      (by decide) _).mono ?_ ?_
    · rintro _ w' ⟨rfl, n, hn, hEnd⟩
      rw [List.mem_singleton] at hn
      subst hn
      simp [hData, hEnd]
    · rintro _ w' ⟨rfl, hEnd⟩ ⟨p, hp, hCode⟩
      simp [hUnsent, Command.messageBody] at hp
      subst hp
      exact hEnd 250 (by simp) hCode
  · rintro _ w' ⟨rfl, -⟩
    apply not_messageAccepted_of_nil
    simp [hUnsent, Command.messageBody]

/- The trace of a transaction that went through. -/
theorem Asked.delivered
    {config : SmtpConfig}
    {message : BuiltMessage}
    {recipients : List (Address × Str)}
    {acc' : Rcpts}
    {answers : List (Address × Reply)}
    {early trace : List Event}
    {encrypted encrypted' : Bool}
    (hAsked : Asked recipients
      { accepted := 0, refused := [], closed := false }
      acc' answers)
    (hPrelude : Prelude early)
    (hTrace :
      trace =
        early ++
          .sent encrypted (.mail config.sender) (.code 250) ::
          (rcptEvents encrypted answers ++
            [.sent encrypted' .data (.code 354),
              .sent encrypted'
                (.message (stripFinalCrlf message.formatted))
                (.code 250)]))
    (hEnvelope :
      recipients.map (fun p => p.1.text) = message.envelope)
    (hAccepted : acc'.accepted ≠ 0) :
    Delivered config message trace ∧
      answersTo Command.rcptAddress trace = answers := by
  have hAnswers :
      answersTo Command.rcptAddress trace = answers := by
    rw [hTrace, answersTo_append,
      hPrelude.answers_eq_nil _ rfl rfl (fun _ _ => rfl)]
    simp [Command.rcptAddress, answersTo_rcptEvents]
  have hRead :
      ∀ {α : Type} (select : Command → Option α),
        (∀ address, select (.rcpt address) = none) →
        answersTo select early = [] →
        answersTo select trace =
          ((select (.mail config.sender)).map
              (·, Reply.code 250)).toList ++
            (((select .data).map (·, Reply.code 354)).toList ++
              ((select (.message (stripFinalCrlf
                message.formatted))).map
                (·, Reply.code 250)).toList) := by
    intro α select hRcpt hEarly
    rw [hTrace, answersTo_append, hEarly]
    simp [answersTo_rcptEvents_of_none select _ _ hRcpt]
  refine ⟨⟨?_, ?_, ?_, ?_, ?_, ?_⟩, hAnswers⟩
  · exact hRead _ (fun _ => rfl)
      (hPrelude.answers_eq_nil _ rfl rfl (fun _ _ => rfl))
  · rw [hAnswers, ← hEnvelope]
    have hMap := congrArg (List.map Address.text) hAsked.asked
    simpa [List.map_map, Function.comp_def] using hMap
  · rw [hAnswers]
    have hLength : 0 < (acceptances answers).length := by
      have := hAsked.accepted
      simp only [Nat.zero_add] at this
      omega
    rcases List.exists_mem_of_length_pos hLength with
      ⟨text, hText⟩
    rcases List.mem_filterMap.mp hText with ⟨p, hp, hTaken⟩
    refine ⟨p, hp, ?_⟩
    by_contra hNot
    simp [hNot] at hTaken
  · rw [hAnswers]
    exact hAsked.stayed
  · exact hRead _ (fun _ => rfl)
      (hPrelude.answers_eq_nil _ rfl rfl (fun _ _ => rfl))
  · exact hRead _ (fun _ => rfl)
      (hPrelude.answers_eq_nil _ rfl rfl (fun _ _ => rfl))

/- The refusals of an answered envelope carry codes. -/
theorem Asked.refusals_coded
    {recipients : List (Address × Str)}
    {acc acc' : Rcpts}
    {answers : List (Address × Reply)}
    (hAsked : Asked recipients acc acc' answers) :
    ∀ refusal ∈ refusals answers,
      refusal.code.isSome = true := by
  intro refusal hMem
  rcases List.mem_filterMap.mp hMem with ⟨p, hp, hRefusal⟩
  split at hRefusal
  · simp at hRefusal
  · rw [← Option.some.inj hRefusal]
    exact hAsked.coded p hp

/-
  The mail transaction behind an opening.  It returns only
  with the message delivered, and every failure is before
  the 250 to the message.
-/
theorem transaction_delivers
    (config : SmtpConfig)
    (script : Script)
    (recipients : List (Address × Str))
    (message : BuiltMessage)
    (hRecipients :
      recipientsOf message.envelope = some recipients)
    {w : Wire}
    (hOpening : Opening config w) :
    Lib.Wp (transaction config script recipients message)
      (fun refused w' =>
        Delivered config message w'.trace ∧
          refused =
            refusals
              (answersTo Command.rcptAddress w'.trace) ∧
          ∀ refusal ∈ refused, refusal.code.isSome = true)
      (fun _ w' => ¬ MessageAccepted w'.trace)
      w := by
  rcases recipientsOf_spec hRecipients with ⟨hEnvelope, hText⟩
  have hTexts :
      recipients.map (fun p => p.1.text) =
        message.envelope := by
    rw [← hEnvelope]
    exact List.map_congr_left hText
  have hUnsent :
      ∀ trace, Prelude trace →
        answersTo Command.messageBody trace = [] :=
    fun _ hPrelude =>
      hPrelude.answers_eq_nil _ rfl rfl (fun _ _ => rfl)
  unfold transaction
  rw [Lib.wp_bind]
  refine (upgrade_opening config script hOpening).mono ?_ ?_
  · intro _ w₁ hOpening₁
    have hPrelude₁ := Prelude.of_opening hOpening₁.opening
    simp only [requireEncrypted, Lib.wp_bind, Lib.wp_get]
    split
    · rw [Lib.wp_pure, Lib.wp_bind]
      refine (login_prelude config script hPrelude₁).mono
        ?_ ?_
      · rintro _ w₂ ⟨hPrelude₂, -⟩
        have hUnsent₂ := hUnsent _ hPrelude₂
        rw [Lib.wp_bind]
        refine (exchange_spec _ script.mail [250] (by decide)
          w₂).mono ?_ ?_
        · rintro _ w₃ ⟨rfl, n, hn, hMail⟩
          rw [List.mem_singleton] at hn
          subst hn
          rw [Lib.wp_bind]
          refine (rcptTo_answers script 0 recipients hText _
            _).mono ?_ ?_
          · rintro rcpts w₄ ⟨answers, hTrace, hEnc, hAsked⟩
            have hUnsent₄ :
                answersTo Command.messageBody w₄.trace =
                  [] := by
              rw [hTrace, answersTo_append,
                answersTo_rcptEvents_of_none _ _ _
                  (fun _ => rfl)]
              simp [hUnsent₂, Command.messageBody]
            rw [Lib.wp_bind]
            unfold requireAccepted
            split
            · exact not_messageAccepted_of_nil hUnsent₄
            · rename_i hGo
              rw [not_or] at hGo
              have hSeen := hAsked (by simpa using hGo.2)
              rw [Lib.wp_pure]
              refine (data_delivers script _ _
                hUnsent₄).mono ?_ (fun _ _ h => h)
              rintro refused w' ⟨rfl, hDone⟩
              have hShape :
                  w'.trace =
                    w₂.trace ++
                      .sent w₂.encrypted
                        (.mail config.sender) (.code 250) ::
                      (rcptEvents w₂.encrypted answers ++
                        [.sent w₄.encrypted .data (.code 354),
                          .sent w₄.encrypted
                            (.message (stripFinalCrlf
                              message.formatted))
                            (.code 250)]) := by
                rw [hDone, hTrace, Wire.command_trace, hMail]
                simp
              rcases
                hSeen.delivered hPrelude₂ hShape
                  hTexts (by omega) with
                ⟨hDelivered, hAnswers⟩
              refine ⟨hDelivered, ?_, ?_⟩
              · rw [hAnswers, hSeen.refused, List.nil_append]
              · rw [hSeen.refused, List.nil_append]
                exact hSeen.refusals_coded
          · rintro _ w₄ ⟨answers, hTrace⟩
            apply not_messageAccepted_of_nil
            rw [hTrace, answersTo_append,
              answersTo_rcptEvents_of_none _ _ _
                (fun _ => rfl)]
            simp [hUnsent₂, Command.messageBody]
        · rintro _ w₃ ⟨rfl, -⟩
          apply not_messageAccepted_of_nil
          simp [hUnsent₂, Command.messageBody]
      · exact fun _ _ h =>
          not_messageAccepted_of_nil (hUnsent _ h)
    · exact not_messageAccepted_of_nil (hUnsent _ hPrelude₁)
  · exact fun _ _ h =>
      not_messageAccepted_of_nil
        (hUnsent _ (Prelude.of_opening h))

end Smtp

end MailgunRelay

------------------------------------------------------------
-- The Session
------------------------------------------------------------

namespace MailgunRelay

namespace Smtp

/- What an outcome must say about the trace. -/
def Truthful
    (config : SmtpConfig)
    (message : BuiltMessage)
    (trace : List Event) :
    Except SubmitError (List Refusal) → Prop
| .ok refused =>
    Delivered config message trace ∧
      refused =
        refusals (answersTo Command.rcptAddress trace) ∧
      ∀ refusal ∈ refused, refusal.code.isSome = true
| .error _ => ¬ MessageAccepted trace

/- A `QUIT` does not change what a trace says. -/
theorem Truthful.quit
    {config : SmtpConfig}
    {message : BuiltMessage}
    {trace : List Event}
    {outcome : Except SubmitError (List Refusal)}
    (hTruthful : Truthful config message trace outcome)
    (encrypted : Bool)
    (reply : Reply) :
    Truthful config message
      (trace ++ [.sent encrypted .quit reply]) outcome := by
  have hRead :
      ∀ {α : Type} (select : Command → Option α),
        select .quit = none →
        answersTo select
            (trace ++ [.sent encrypted .quit reply]) =
          answersTo select trace := by
    intro α select hQuit
    simp [hQuit]
  have hMail := hRead Command.mailSender rfl
  have hRcpt := hRead Command.rcptAddress rfl
  have hData := hRead Command.isData rfl
  have hBody := hRead Command.messageBody rfl
  cases outcome with
  | ok refused =>
      rcases hTruthful with ⟨hDelivered, hRefused, hCoded⟩
      refine ⟨?_, by rw [hRcpt]; exact hRefused, hCoded⟩
      exact
        ⟨hMail.trans hDelivered.mail,
          by rw [hRcpt]; exact hDelivered.asked,
          by rw [hRcpt]; exact hDelivered.accepted,
          by rw [hRcpt]; exact hDelivered.stayed,
          hData.trans hDelivered.data,
          hBody.trans hDelivered.message⟩
  | error e =>
      simp only [Truthful, MessageAccepted, hBody]
      exact hTruthful

/- An opening has nothing accepted. -/
theorem not_messageAccepted_of_opening
    {trace : List Event}
    (hOpening : ∀ e ∈ trace, e.isOpening = true) :
    ¬ MessageAccepted trace :=
  not_messageAccepted_of_nil
    ((Prelude.of_opening hOpening).answers_eq_nil _ rfl rfl
      (fun _ _ => rfl))

/- Every session tells the truth about its trace. -/
theorem session_outcome
    (config : SmtpConfig)
    (script : Script)
    (message : BuiltMessage) :
    Truthful config message
      (session config script message).trace
      (session config script message).outcome := by
  have hOpening := (connect_opening config script).1
  refine session_run config script message
    (fun outcome trace =>
      Truthful config message trace outcome)
    (not_messageAccepted_of_opening (by simp))
    (fun _ _ encrypted reply h => h.quit encrypted reply)
    ?_ ?_
  · intro error w hStart
    rw [hStart] at hOpening
    exact not_messageAccepted_of_opening hOpening.opening
  · intro recipients w hRecipients hStart
    rw [hStart] at hOpening
    exact transaction_delivers config script recipients
      message hRecipients hOpening

/- A delivered message was accepted. -/
theorem Delivered.messageAccepted
    {config : SmtpConfig}
    {message : BuiltMessage}
    {trace : List Event}
    (hDelivered : Delivered config message trace) :
    MessageAccepted trace := by
  refine
    ⟨(stripFinalCrlf message.formatted, .code 250), ?_, rfl⟩
  rw [hDelivered.message]
  exact List.mem_singleton_self _

/-
  The outcome of a session is truthful.  It is `Ok` exactly
  when the server took the message, with the refused
  recipients and their codes; refused and taken recipients
  make up the envelope.  After the 250 to the message it is
  never a failure, and `DATA` is sent only with a recipient
  accepted.
-/
theorem session_truthful
    (config : SmtpConfig)
    (script : Script)
    (message : BuiltMessage) :
    let run := session config script message
    let answers := answersTo Command.rcptAddress run.trace
    (∀ refused,
        run.outcome = .ok refused ↔
          Delivered config message run.trace ∧
            refused = refusals answers) ∧
      (∀ refused,
        run.outcome = .ok refused →
          (refused.map Refusal.address ++
              acceptances answers).Perm message.envelope ∧
            ∀ refusal ∈ refused,
              refusal.code.isSome = true) ∧
      (MessageAccepted run.trace →
        ∃ refused, run.outcome = .ok refused) ∧
      (∀ before encrypted reply after,
        run.trace =
            before ++ .sent encrypted .data reply :: after →
          RcptAccepted before) := by
  intro run answers
  have hTruth : Truthful config message run.trace run.outcome :=
    session_outcome config script message
  have hOk :
      ∀ refused, run.outcome = .ok refused →
        Truthful config message run.trace (.ok refused) :=
    fun _ h => h ▸ hTruth
  have hAccepted :
      MessageAccepted run.trace →
        ∃ refused, run.outcome = .ok refused := by
    intro hMessage
    cases hOutcome : run.outcome with
    | ok refused => exact ⟨refused, rfl⟩
    | error e =>
        rw [hOutcome] at hTruth
        exact absurd hMessage hTruth
  refine ⟨fun refused => ⟨?_, ?_⟩, ?_, hAccepted, ?_⟩
  · intro h
    exact ⟨(hOk refused h).1, (hOk refused h).2.1⟩
  · rintro ⟨hDelivered, rfl⟩
    rcases hAccepted hDelivered.messageAccepted with
      ⟨refused, h⟩
    rw [h, (hOk refused h).2.1]
  · intro refused h
    rcases hOk refused h with ⟨hDelivered, hRefused, hCoded⟩
    refine ⟨?_, hCoded⟩
    rw [← hDelivered.asked, hRefused]
    exact refusals_acceptances_perm answers
  · intro before encrypted reply after hSplit
    have hAllowed :=
      session_lawful config script message before _ after
        hSplit
    exact hAllowed.2.2.1

end Smtp

end MailgunRelay
