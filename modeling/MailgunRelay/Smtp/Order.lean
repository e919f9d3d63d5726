import MailgunRelay.Lib.Trace
import MailgunRelay.Smtp.Steps

/-
  The order of the commands of a session.

  `allowed` says what must have happened before a command
  may be sent; `session_ordered` is that every session
  against every peer follows it, and that without STARTTLS
  neither credentials nor mail are ever written.

  Key definitions include:
    * `MailgunRelay.Smtp.allowed`
    * `MailgunRelay.Smtp.NothingConfidential`

  Key theorems include:
    * `MailgunRelay.Smtp.transaction_lawful`
    * `MailgunRelay.Smtp.session_ordered`
-/

------------------------------------------------------------
-- The Discipline
------------------------------------------------------------

namespace MailgunRelay

namespace Smtp

/- The mechanism was offered after a handshake. -/
def Offered
    (before : List Event)
    (mechanism : Mechanism) : Prop :=
  ∃ early late info,
    before = early ++ .handshake :: late ∧
      .offers info ∈ late ∧
      info.supportsAuthMechanism mechanism = true

/- An `AUTH` with the mechanism was sent. -/
def Tried
    (before : List Event)
    (mechanism : Mechanism) : Prop :=
  ∃ encrypted credentials reply,
    .sent encrypted (.auth mechanism credentials) reply ∈
      before

/- An `AUTH` was answered 235 on the encrypted channel. -/
def LoggedIn (before : List Event) : Prop :=
  ∃ mechanism credentials,
    .sent true (.auth mechanism credentials) (.code 235) ∈
      before

/- `MAIL` was answered 250. -/
def MailAccepted (before : List Event) : Prop :=
  ∃ sender, .sent true (.mail sender) (.code 250) ∈ before

/- A `RCPT` was answered 250 or 251. -/
def RcptAccepted (before : List Event) : Prop :=
  ∃ address n, (n = 250 ∨ n = 251) ∧
    .sent true (.rcpt address) (.code n) ∈ before

/- A `RCPT` was answered 421. -/
def RcptClosed (before : List Event) : Prop :=
  ∃ encrypted address,
    .sent encrypted (.rcpt address) (.code 421) ∈ before

/- What must have happened before an event. -/
def allowed
    (before : List Event) : Event → Prop
| .sent encrypted (.auth mechanism _) _ =>
    encrypted = true ∧ Offered before mechanism ∧
      ¬ Tried before mechanism ∧
      (mechanism = .plain → ¬ Tried before .login)
| .sent encrypted (.mail _) _ =>
    encrypted = true ∧ LoggedIn before
| .sent encrypted (.rcpt _) _ =>
    encrypted = true ∧ LoggedIn before ∧
      MailAccepted before
| .sent encrypted .data _ =>
    encrypted = true ∧ LoggedIn before ∧
      RcptAccepted before ∧ ¬ RcptClosed before
| .sent encrypted (.message _) _ =>
    encrypted = true ∧ LoggedIn before ∧
      .sent true .data (.code 354) ∈ before
| _ => True

end Smtp

end MailgunRelay

------------------------------------------------------------
-- Opening
------------------------------------------------------------

namespace MailgunRelay

namespace Smtp

/- Events before a login. -/
def Event.isOpening : Event → Bool
| .sent _ .ehlo _ => true
| .sent _ .starttls _ => true
| .handshake => true
| .offers _ => true
| _ => false

/- A history of opening events follows the discipline. -/
theorem lawful_of_opening
    {trace : List Event}
    (hOpening : ∀ e ∈ trace, e.isOpening = true) :
    Lib.Trace.Lawful allowed trace := by
  intro before event after hSplit
  have hEvent := hOpening event (by simp [hSplit])
  cases event with
  | sent encrypted cmd reply =>
      cases cmd <;> simp [Event.isOpening] at hEvent <;>
        trivial
  | handshake => trivial
  | offers info => trivial

/-
  A connection before the login: nothing but opening events,
  and the extensions of an encrypted channel were offered
  after its handshake.
-/
structure Opening
    (config : SmtpConfig)
    (w : Wire) : Prop where
  opening : ∀ e ∈ w.trace, e.isOpening = true
  offered :
    w.encrypted = true →
      ∀ mechanism,
        w.serverInfo.supportsAuthMechanism mechanism = true →
          Offered w.trace mechanism
  configured : w.encrypted = true → config.tls = true

/- Connecting leaves a cleartext channel. -/
theorem connect_opening
    (config : SmtpConfig)
    (script : Script) :
    Opening config
        (Wire.opened.connectWithTransport script).2 ∧
      (Wire.opened.connectWithTransport script).2.encrypted =
        false := by
  unfold Wire.connectWithTransport
  cases script.banner.result with
  | error e =>
      refine ⟨⟨?_, ?_, ?_⟩, rfl⟩ <;> simp [Wire.opened]
  | ok n =>
      rcases ehlo_spec script.ehlo script.ehloInfo
          Wire.opened with ⟨_, -, hRun⟩ | ⟨_, hRun⟩ <;>
        · simp only [hRun]
          refine ⟨⟨?_, ?_, ?_⟩, rfl⟩ <;>
            simp [Wire.opened, Event.isOpening]

/-
  STARTTLS adds opening events only.  If the channel is
  encrypted afterwards, the extensions in force were offered
  after the handshake.
-/
theorem starttls_opening
    (config : SmtpConfig)
    (script : Script)
    {w : Wire}
    (hTls : config.tls = true)
    (hOpening : Opening config w) :
    (∀ e ∈ (w.starttls script).2.trace,
        e.isOpening = true) ∧
      ((w.starttls script).1 = .ok () →
        Opening config (w.starttls script).2) := by
  have hOld := hOpening.opening
  unfold Wire.starttls
  by_cases hOffer : w.serverInfo.starttls = true
  · simp only [hOffer, if_true]
    cases hReply : script.starttls.result with
    | error e =>
        simp only [Wire.command, hReply]
        refine ⟨?_, by simp⟩
        intro event hEvent
        simp only [Wire.log_trace, List.mem_append,
          List.mem_singleton] at hEvent
        rcases hEvent with hEvent | rfl
        · exact hOld event hEvent
        · rfl
    | ok n =>
        simp only [Wire.command, hReply]
        by_cases hShake : script.handshake = true
        · simp only [hShake, if_true]
          rcases ehlo_spec script.ehloTls script.ehloTlsInfo
              { (Wire.log .handshake
                  { w.log (.sent w.encrypted .starttls
                      script.starttls) with
                    written := true }) with
                encrypted := true } with
            ⟨_, -, hRun⟩ | ⟨_, hRun⟩
          · rw [hRun]
            refine ⟨?_, fun _ => ⟨?_, ?_, fun _ => hTls⟩⟩
            · intro event hEvent
              simp only [Wire.log_trace, List.mem_append,
                List.mem_singleton] at hEvent
              rcases hEvent with
                (((hEvent | rfl) | rfl) | rfl) | rfl
              · exact hOld event hEvent
              all_goals rfl
            · intro event hEvent
              simp only [Wire.log_trace, List.mem_append,
                List.mem_singleton] at hEvent
              rcases hEvent with
                (((hEvent | rfl) | rfl) | rfl) | rfl
              · exact hOld event hEvent
              all_goals rfl
            · intro _ mechanism hSupports
              refine
                ⟨w.trace ++ [.sent w.encrypted .starttls
                    script.starttls],
                  [.sent true .ehlo script.ehloTls,
                    .offers script.ehloTlsInfo],
                  script.ehloTlsInfo, ?_, by simp,
                  hSupports⟩
              simp
          · rw [hRun]
            refine ⟨?_, by simp⟩
            intro event hEvent
            simp only [Wire.log_trace, List.mem_append,
              List.mem_singleton] at hEvent
            rcases hEvent with ((hEvent | rfl) | rfl) | rfl
            · exact hOld event hEvent
            all_goals rfl
        · simp only [hShake]
          refine ⟨?_, by simp⟩
          intro event hEvent
          simp only [Bool.false_eq_true, if_false,
            Wire.log_trace, List.mem_append,
            List.mem_singleton] at hEvent
          rcases hEvent with hEvent | rfl
          · exact hOld event hEvent
          · rfl
  · simp only [hOffer]
    exact ⟨hOld, by simp⟩

/- The upgrade adds opening events only. -/
theorem upgrade_opening
    (config : SmtpConfig)
    (script : Script)
    {w : Wire}
    (hOpening : Opening config w) :
    Lib.Wp (upgrade config script)
      (fun _ w' => Opening config w')
      (fun _ w' => ∀ e ∈ w'.trace, e.isOpening = true)
      w := by
  unfold upgrade
  by_cases hTls : config.tls = true
  · have hSpec := starttls_opening config script hTls hOpening
    simp only [hTls, if_true, Lib.wp_bind, Lib.wp_attempt]
    cases hResult : (w.starttls script).1 with
    | ok u => exact hSpec.2 hResult
    | error e =>
        simp only [Lib.wp_bind, Lib.wp_get]
        split <;> exact hSpec.1
  · simp only [hTls]
    exact hOpening

end Smtp

end MailgunRelay

------------------------------------------------------------
-- Sending
------------------------------------------------------------

namespace MailgunRelay

namespace Smtp

/- A connection that followed the discipline, encrypted. -/
structure Secured (w : Wire) : Prop where
  lawful : Lib.Trace.Lawful allowed w.trace
  encrypted : w.encrypted = true

/- An allowed command keeps a connection secured. -/
theorem Secured.command
    {w : Wire}
    (hSecured : Secured w)
    (cmd : Command)
    (reply : Reply)
    (hAllowed : allowed w.trace (.sent true cmd reply)) :
    Secured (w.command cmd reply).2 := by
  refine ⟨?_, hSecured.encrypted⟩
  rw [Wire.command_trace, hSecured.encrypted]
  exact hSecured.lawful.snoc hAllowed

/- A login stays in the history. -/
theorem LoggedIn.snoc
    {trace : List Event}
    (hLogged : LoggedIn trace)
    (event : Event) :
    LoggedIn (trace ++ [event]) := by
  rcases hLogged with ⟨mechanism, credentials, hMem⟩
  exact
    ⟨mechanism, credentials, List.mem_append_left _ hMem⟩

/- An offer stays in the history. -/
theorem Offered.snoc
    {trace : List Event}
    {mechanism : Mechanism}
    (hOffered : Offered trace mechanism)
    (event : Event) :
    Offered (trace ++ [event]) mechanism := by
  rcases hOffered with ⟨early, late, info, hSplit, hMem, hInfo⟩
  refine
    ⟨early, late ++ [event], info, ?_,
      List.mem_append_left _ hMem, hInfo⟩
  simp [hSplit]

/- Only an `AUTH` with the mechanism tries it. -/
theorem tried_snoc_iff
    (trace : List Event)
    (encrypted : Bool)
    (tried mechanism : Mechanism)
    (credentials : SmtpCredentials)
    (reply : Reply) :
    Tried
        (trace ++
          [.sent encrypted (.auth tried credentials) reply])
        mechanism ↔
      Tried trace mechanism ∨ mechanism = tried := by
  constructor
  · rintro ⟨e, c, r, hMem⟩
    rcases List.mem_append.mp hMem with hMem | hMem
    · exact .inl ⟨e, c, r, hMem⟩
    · simp only [List.mem_singleton, Event.sent.injEq,
        Command.auth.injEq] at hMem
      exact .inr hMem.2.1.1
  · rintro (⟨e, c, r, hMem⟩ | rfl)
    · exact ⟨e, c, r, List.mem_append_left _ hMem⟩
    · exact ⟨encrypted, credentials, reply, by simp⟩

/- Only a `RCPT` answered 421 closes. -/
theorem rcptClosed_snoc_iff
    (trace : List Event)
    (encrypted : Bool)
    (cmd : Command)
    (reply : Reply) :
    RcptClosed (trace ++ [.sent encrypted cmd reply]) ↔
      RcptClosed trace ∨
        (∃ address, cmd = .rcpt address) ∧
          reply = .code 421 := by
  constructor
  · rintro ⟨e, address, hMem⟩
    rcases List.mem_append.mp hMem with hMem | hMem
    · exact .inl ⟨e, address, hMem⟩
    · simp only [List.mem_singleton, Event.sent.injEq]
        at hMem
      exact .inr ⟨⟨address, hMem.2.1.symm⟩, hMem.2.2.symm⟩
  · rintro (⟨e, address, hMem⟩ | ⟨⟨address, rfl⟩, rfl⟩)
    · exact ⟨e, address, List.mem_append_left _ hMem⟩
    · exact ⟨encrypted, address, by simp⟩

end Smtp

end MailgunRelay

------------------------------------------------------------
-- The Login
------------------------------------------------------------

namespace MailgunRelay

namespace Smtp

/-
  What a login may still try: mechanisms that were offered
  after the handshake and not tried yet, PLAIN before LOGIN.
-/
structure Remaining
    (w : Wire)
    (mechanisms : List Mechanism) : Prop where
  supported :
    ∀ m ∈ mechanisms,
      w.serverInfo.supportsAuthMechanism m = true
  offered : ∀ m ∈ mechanisms, Offered w.trace m
  untried : ∀ m ∈ mechanisms, ¬ Tried w.trace m
  plainFirst :
    .plain ∈ mechanisms → ¬ Tried w.trace .login
  order :
    mechanisms.Pairwise fun a b => a = .plain ∧ b = .login

/- Trying the first mechanism leaves the others. -/
theorem Remaining.tail
    {w : Wire}
    {mechanism : Mechanism}
    {rest : List Mechanism}
    (hRemaining : Remaining w (mechanism :: rest))
    (credentials : SmtpCredentials)
    (reply : Reply) :
    Remaining
      (w.command (.auth mechanism credentials) reply).2
      rest := by
  have hOrder := List.pairwise_cons.mp hRemaining.order
  refine ⟨?_, ?_, ?_, ?_, hOrder.2⟩
  · intro m hm
    exact hRemaining.supported m (List.mem_cons_of_mem _ hm)
  · intro m hm
    exact
      (hRemaining.offered m (List.mem_cons_of_mem _ hm)).snoc _
  · intro m hm hTried
    rw [Wire.command_trace, tried_snoc_iff] at hTried
    rcases hTried with hTried | rfl
    · exact
        hRemaining.untried m (List.mem_cons_of_mem _ hm) hTried
    · have hBoth := hOrder.1 m hm
      rw [hBoth.1] at hBoth
      simp at hBoth
  · intro hPlain
    have hBoth := hOrder.1 .plain hPlain
    simp at hBoth

/-
  The login follows the discipline and succeeds only after a
  235.  The induction is over the mechanisms that are left.
-/
theorem tryMechanisms_lawful
    (config : SmtpConfig)
    (script : Script)
    (mechanisms : List Mechanism)
    {w : Wire}
    (hSecured : Secured w)
    (hRemaining : Remaining w mechanisms)
    (hOpen : ¬ RcptClosed w.trace) :
    Lib.Wp (tryMechanisms config script mechanisms)
      (fun _ w' =>
        Secured w' ∧ LoggedIn w'.trace ∧
          ¬ RcptClosed w'.trace)
      (fun _ w' => Secured w')
      w := by
  induction mechanisms generalizing w with
  | nil => exact hSecured
  | cons mechanism rest ih =>
      have hMem : mechanism ∈ mechanism :: rest := by simp
      rcases
        auth_spec script mechanism config.credentials w
          (hRemaining.supported mechanism hMem) with
        ⟨hWire, hAccepted⟩
      have hSent :
          Secured
            (w.command (.auth mechanism config.credentials)
              (script.auth mechanism)).2 := by
        apply hSecured.command
        refine
          ⟨rfl, hRemaining.offered mechanism hMem,
            hRemaining.untried mechanism hMem, ?_⟩
        rintro rfl
        exact hRemaining.plainFirst hMem
      have hStillOpen :
          ¬ RcptClosed
            (w.command (.auth mechanism config.credentials)
              (script.auth mechanism)).2.trace := by
        rw [Wire.command_trace, rcptClosed_snoc_iff]
        simp [hOpen]
      have hRest :=
        ih hSent (hRemaining.tail config.credentials _)
          hStillOpen
      simp only [tryMechanisms, Lib.wp_bind, Lib.wp_attempt,
        hWire]
      cases hResult :
          (w.auth script mechanism config.credentials).1 with
      | ok n =>
          by_cases hCode : n = 235
          · subst hCode
            simp only [if_true]
            refine ⟨hSent, ?_, hStillOpen⟩
            refine ⟨mechanism, config.credentials, ?_⟩
            rw [Wire.command_trace, hAccepted hResult,
              hSecured.encrypted]
            simp
          · simp only [hCode, if_false]
            exact hRest
      | error e =>
          simp only
          split
          · exact hSent
          · exact hRest

end Smtp

end MailgunRelay

------------------------------------------------------------
-- The Transaction
------------------------------------------------------------

namespace MailgunRelay

namespace Smtp

/- A login over a secured channel. -/
structure Authenticated (w : Wire) : Prop where
  secured : Secured w
  loggedIn : LoggedIn w.trace

/- An allowed command keeps the login. -/
theorem Authenticated.command
    {w : Wire}
    (hAuth : Authenticated w)
    (cmd : Command)
    (reply : Reply)
    (hAllowed : allowed w.trace (.sent true cmd reply)) :
    Authenticated (w.command cmd reply).2 :=
  ⟨hAuth.secured.command cmd reply hAllowed,
    hAuth.loggedIn.snoc _⟩

/- No event of an opening is a `RCPT`. -/
theorem not_rcptClosed_of_opening
    {trace : List Event}
    (hOpening : ∀ e ∈ trace, e.isOpening = true) :
    ¬ RcptClosed trace := by
  rintro ⟨encrypted, address, hMem⟩
  simpa [Event.isOpening] using hOpening _ hMem

/- The login of an encrypted opening. -/
theorem login_lawful
    (config : SmtpConfig)
    (script : Script)
    {w : Wire}
    (hOpening : Opening config w)
    (hEncrypted : w.encrypted = true) :
    Lib.Wp (login config script)
      (fun _ w' => Authenticated w' ∧ ¬ RcptClosed w'.trace)
      (fun _ w' => Secured w')
      w := by
  have hSecured : Secured w :=
    ⟨lawful_of_opening hOpening.opening, hEncrypted⟩
  have hUntried : ∀ m, ¬ Tried w.trace m := by
    rintro m ⟨encrypted, credentials, reply, hMem⟩
    simpa [Event.isOpening] using hOpening.opening _ hMem
  have hRemaining :
      Remaining w
        ([Mechanism.plain, .login].filter
          w.serverInfo.supportsAuthMechanism) := by
    refine ⟨?_, ?_, ?_, fun _ => hUntried _, ?_⟩
    · exact fun m hm => (List.mem_filter.mp hm).2
    · exact fun m hm =>
        hOpening.offered hEncrypted m (List.mem_filter.mp hm).2
    · exact fun m _ => hUntried m
    · exact List.Pairwise.filter _ (by simp)
  unfold login
  simp only [Lib.wp_bind, Lib.wp_get]
  split
  · exact hSecured
  · refine
      (tryMechanisms_lawful config script _ hSecured
        hRemaining
        (not_rcptClosed_of_opening hOpening.opening)).mono
        ?_ (fun _ _ h => h)
    rintro _ w' ⟨hSecured', hLogged, hOpen⟩
    exact ⟨⟨hSecured', hLogged⟩, hOpen⟩

/- What a finished `RCPT` loop has seen. -/
structure RcptsSeen
    (w : Wire)
    (acc : Rcpts) : Prop where
  auth : Authenticated w
  mail : MailAccepted w.trace
  accepted : 0 < acc.accepted → RcptAccepted w.trace
  closed : RcptClosed w.trace → acc.closed = true

/-
  The `RCPT` loop follows the discipline; its counters say
  what the server answered.
-/
theorem rcptTo_lawful
    (script : Script)
    (i : Nat)
    (recipients : List (Address × Str))
    {acc : Rcpts}
    {w : Wire}
    (hSeen : RcptsSeen w acc)
    (hOpen : ¬ RcptClosed w.trace) :
    Lib.Wp (rcptTo script i recipients acc)
      (fun acc' w' => RcptsSeen w' acc')
      (fun _ w' => Authenticated w')
      w := by
  induction recipients generalizing i acc w with
  | nil => exact hSeen
  | cons recipient rest ih =>
      rcases recipient with ⟨address, raw⟩
      have hEncrypted := hSeen.auth.secured.encrypted
      have hSent :
          Authenticated
            (w.command (.rcpt address) (script.rcpt i)).2 :=
        hSeen.auth.command _ _
          ⟨rfl, hSeen.auth.loggedIn, hSeen.mail⟩
      have hMail :
          MailAccepted
            (w.command (.rcpt address)
              (script.rcpt i)).2.trace := by
        rcases hSeen.mail with ⟨sender, hMem⟩
        exact ⟨sender, List.mem_append_left _ hMem⟩
      have hAccepted :
          0 < acc.accepted →
            RcptAccepted
              (w.command (.rcpt address)
                (script.rcpt i)).2.trace := by
        intro h
        rcases hSeen.accepted h with ⟨a, n, hn, hMem⟩
        exact ⟨a, n, hn, List.mem_append_left _ hMem⟩
      rw [wp_rcptTo_cons]
      cases hCode : (script.rcpt i).replyCode with
      | none => exact hSent
      | some n =>
          have hReply :=
            (Reply.replyCode_eq_some_iff _ n).mp hCode
          -- Only a 421 closes, so the loop goes on open.
          have hStillOpen :
              n ≠ 421 →
                ¬ RcptClosed
                  (w.command (.rcpt address)
                    (script.rcpt i)).2.trace := by
            intro hn
            rw [Wire.command_trace, rcptClosed_snoc_iff,
              hReply.1]
            simp [hOpen, hn]
          simp only
          split
          · rename_i hn
            have hOpen' := hStillOpen (by omega)
            refine ih (i + 1)
              ⟨hSent, hMail, fun _ => ?_,
                fun h => absurd h hOpen'⟩ hOpen'
            refine ⟨address, n, hn, ?_⟩
            rw [Wire.command_trace, hReply.1, hEncrypted]
            simp
          · split
            · exact ⟨hSent, hMail, hAccepted, fun _ => rfl⟩
            · rename_i hn
              have hOpen' := hStillOpen hn
              exact ih (i + 1)
                ⟨hSent, hMail, hAccepted,
                  fun h => absurd h hOpen'⟩ hOpen'

/- `DATA` and the message after an open `RCPT` loop. -/
theorem data_lawful
    (script : Script)
    (body : Bytes)
    {acc : Rcpts}
    {w : Wire}
    (hSeen : RcptsSeen w acc)
    (hAccepted : 0 < acc.accepted)
    (hOpen : acc.closed = false) :
    Lib.Wp
      (do
        exchange .data script.data [354]
        exchange (.message body) script.dataEnd [250]
        pure acc.refused)
      (fun _ w' => Lib.Trace.Lawful allowed w'.trace)
      (fun _ w' => Lib.Trace.Lawful allowed w'.trace)
      w := by
  have hDataSent :=
    hSeen.auth.command .data script.data
      ⟨rfl, hSeen.auth.loggedIn, hSeen.accepted hAccepted,
        fun h => by simp [hSeen.closed h] at hOpen⟩
  rw [Lib.wp_bind]
  refine (exchange_spec _ script.data [354] (by decide)
    w).mono ?_ ?_
  · rintro _ w' ⟨rfl, n, hn, hReply⟩
    simp only [List.mem_singleton] at hn
    subst hn
    have hBodySent :=
      hDataSent.command (.message body) script.dataEnd
        ⟨rfl, hDataSent.loggedIn, by
          rw [Wire.command_trace, hReply,
            hSeen.auth.secured.encrypted]
          simp⟩
    rw [Lib.wp_bind]
    refine (exchange_spec _ script.dataEnd [250]
      (by decide) _).mono ?_ ?_
    · rintro _ w' ⟨rfl, -⟩
      exact hBodySent.secured.lawful
    · rintro _ w' ⟨rfl, -⟩
      exact hBodySent.secured.lawful
  · rintro _ w' ⟨rfl, -⟩
    exact hDataSent.secured.lawful

/- From STARTTLS to the message, every step is allowed. -/
theorem transaction_lawful
    (config : SmtpConfig)
    (script : Script)
    (recipients : List (Address × Str))
    (message : BuiltMessage)
    {w : Wire}
    (hOpening : Opening config w) :
    Lib.Wp (transaction config script recipients message)
      (fun _ w' => Lib.Trace.Lawful allowed w'.trace)
      (fun _ w' => Lib.Trace.Lawful allowed w'.trace)
      w := by
  unfold transaction
  rw [Lib.wp_bind]
  refine (upgrade_opening config script hOpening).mono ?_
    (fun _ _ h => lawful_of_opening h)
  intro _ w₁ hOpening₁
  simp only [requireEncrypted, Lib.wp_bind, Lib.wp_get]
  by_cases hEncrypted : w₁.encrypted = true
  · simp only [hEncrypted, if_true, Lib.wp_pure]
    rw [Lib.wp_bind]
    refine (login_lawful config script hOpening₁
      hEncrypted).mono ?_ (fun _ _ h => h.lawful)
    rintro _ w₂ ⟨hAuth₂, hOpen₂⟩
    have hMailSent :=
      hAuth₂.command (.mail config.sender) script.mail
        ⟨rfl, hAuth₂.loggedIn⟩
    rw [Lib.wp_bind]
    refine (exchange_spec _ script.mail [250] (by decide)
      w₂).mono ?_ ?_
    · rintro _ w₃ ⟨rfl, n, hn, hReply⟩
      simp only [List.mem_singleton] at hn
      subst hn
      have hOpen₃ :
          ¬ RcptClosed
            (w₂.command (.mail config.sender)
              script.mail).2.trace := by
        rw [Wire.command_trace, rcptClosed_snoc_iff]
        simp [hOpen₂]
      have hMail :
          MailAccepted
            (w₂.command (.mail config.sender)
              script.mail).2.trace := by
        refine ⟨config.sender, ?_⟩
        rw [Wire.command_trace, hReply,
          hAuth₂.secured.encrypted]
        simp
      rw [Lib.wp_bind]
      refine (rcptTo_lawful script 0 recipients
        ⟨hMailSent, hMail, by simp,
          fun h => absurd h hOpen₃⟩ hOpen₃).mono
        ?_ (fun _ _ h => h.secured.lawful)
      intro rcpts w₄ hSeen₄
      rw [Lib.wp_bind]
      unfold requireAccepted
      split
      · exact hSeen₄.auth.secured.lawful
      · rename_i hGo
        rw [not_or] at hGo
        exact data_lawful script _ hSeen₄ (by omega)
          (by simpa using hGo.2)
    · rintro _ w₃ ⟨rfl, -⟩
      exact hMailSent.secured.lawful
  · simp only [hEncrypted]
    exact lawful_of_opening hOpening₁.opening

/- Without STARTTLS nothing but opening events happens. -/
theorem transaction_cleartext
    (config : SmtpConfig)
    (script : Script)
    (recipients : List (Address × Str))
    (message : BuiltMessage)
    {w : Wire}
    (hTls : config.tls = false)
    (hOpening : Opening config w)
    (hPlain : w.encrypted = false) :
    Lib.Wp (transaction config script recipients message)
      (fun _ _ => False)
      (fun _ w' => ∀ e ∈ w'.trace, e.isOpening = true)
      w := by
  simp only [transaction, upgrade, requireEncrypted, hTls,
    Bool.false_eq_true, if_false, Lib.wp_bind, Lib.wp_pure,
    Lib.wp_get, hPlain, Lib.wp_throw]
  exact hOpening.opening

end Smtp

end MailgunRelay

------------------------------------------------------------
-- The Session
------------------------------------------------------------

namespace MailgunRelay

namespace Smtp

/- Commands that carry credentials or mail. -/
def Command.isConfidential : Command → Bool
| .auth _ _ => true
| .mail _ => true
| .rcpt _ => true
| .data => true
| .message _ => true
| _ => false

/- No command of the history carries credentials or mail. -/
def NothingConfidential (trace : List Event) : Prop :=
  ∀ encrypted cmd reply,
    .sent encrypted cmd reply ∈ trace →
      cmd.isConfidential = false

/- An opening carries nothing confidential. -/
theorem nothingConfidential_of_opening
    {trace : List Event}
    (hOpening : ∀ e ∈ trace, e.isOpening = true) :
    NothingConfidential trace := by
  intro encrypted cmd reply hMem
  have hEvent := hOpening _ hMem
  cases cmd <;>
    simp_all [Event.isOpening, Command.isConfidential]

/- Every session follows the discipline. -/
theorem session_lawful
    (config : SmtpConfig)
    (script : Script)
    (message : BuiltMessage) :
    Lib.Trace.Lawful allowed
      (session config script message).trace := by
  have hOpening := (connect_opening config script).1
  refine session_run config script message
    (fun _ trace => Lib.Trace.Lawful allowed trace)
    (Lib.Trace.lawful_nil allowed)
    (fun _ _ _ _ h => h.snoc trivial) ?_ ?_
  · intro error w hStart
    rw [hStart] at hOpening
    exact lawful_of_opening hOpening.opening
  · intro recipients w _ hStart
    rw [hStart] at hOpening
    exact transaction_lawful config script recipients message
      hOpening

/- Without STARTTLS a session carries nothing confidential. -/
theorem session_cleartext
    (config : SmtpConfig)
    (script : Script)
    (message : BuiltMessage)
    (hTls : config.tls = false) :
    NothingConfidential
      (session config script message).trace := by
  rcases connect_opening config script with ⟨hOpening, hPlain⟩
  refine session_run config script message
    (fun _ trace => NothingConfidential trace)
    (nothingConfidential_of_opening (by simp)) ?_ ?_ ?_
  · intro _ trace encrypted reply h e cmd r hMem
    rcases List.mem_append.mp hMem with hMem | hMem
    · exact h e cmd r hMem
    · simp only [List.mem_singleton, Event.sent.injEq]
        at hMem
      simp [hMem.2.1, Command.isConfidential]
  · intro error w hStart
    rw [hStart] at hOpening
    exact nothingConfidential_of_opening hOpening.opening
  · intro recipients w _ hStart
    rw [hStart] at hOpening hPlain
    exact
      (transaction_cleartext config script recipients message
        hTls hOpening hPlain).mono
        (fun _ _ h => h.elim)
        (fun _ _ h => nothingConfidential_of_opening h)

/-
  Every session follows the discipline against every peer.
  Without STARTTLS it writes neither credentials nor mail.
-/
theorem session_ordered
    (config : SmtpConfig)
    (script : Script)
    (message : BuiltMessage) :
    Lib.Trace.Lawful allowed
        (session config script message).trace ∧
      (config.tls = false →
        NothingConfidential
          (session config script message).trace) :=
  ⟨session_lawful config script message,
    session_cleartext config script message⟩

end Smtp

end MailgunRelay
