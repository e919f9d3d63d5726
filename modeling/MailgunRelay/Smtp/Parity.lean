import MailgunRelay.Python.SmtpClient
import MailgunRelay.Smtp.Faults

/-
  The Rust and the Python submission fail alike.

  Both are judged by the same list of faults, so they end
  with the same status wherever the two SMTP clients treat
  the server alike, which is `Comparable`.

  Key definitions include:
    * `MailgunRelay.Smtp.Comparable`

  Key theorems include:
    * `MailgunRelay.Smtp.secure_judged`
    * `MailgunRelay.Smtp.rcpts_judged`
    * `MailgunRelay.Smtp.session_failure_category`
-/

------------------------------------------------------------
-- Comparable Servers
------------------------------------------------------------

namespace MailgunRelay

namespace Smtp

open Python

/- A reply with a code lettre parses, or none at all. -/
def Reply.Parsable : Reply → Prop
| .code n => ParsesCode n
| .garbled => False
| .timeout => True
| .lost => True

instance (reply : Reply) : Decidable reply.Parsable :=
  match reply with
  | .code n =>
      inferInstanceAs (Decidable (ParsesCode n))
  | .garbled => inferInstanceAs (Decidable False)
  | .timeout => inferInstanceAs (Decidable True)
  | .lost => inferInstanceAs (Decidable True)

/- The one positive reply a step may get. -/
def OnlyPositive
    (code : Nat)
    (reply : Reply) : Prop :=
  reply.isPositive = true → reply = .code code

/-
  A server without the documented divergences: replies that
  both clients can parse, no positive banner or STARTTLS
  reply but 220, no 503 for an `AUTH`, no CRAM-MD5.
-/
structure Documented (script : Script) : Prop where
  banner : script.banner.Parsable
  ehlo : script.ehlo.Parsable
  starttls : script.starttls.Parsable
  ehloTls : script.ehloTls.Parsable
  auth : ∀ m, (script.auth m).Parsable
  mail : script.mail.Parsable
  rcpt : ∀ i, (script.rcpt i).Parsable
  data : script.data.Parsable
  dataEnd : script.dataEnd.Parsable
  bannerCode : OnlyPositive 220 script.banner
  starttlsCode : OnlyPositive 220 script.starttls
  authCode : ∀ m, script.auth m ≠ .code 503
  noCramMd5 : script.ehloTlsInfo.authCramMd5 = false

/- Credentials `smtplib` can encode. -/
def IsAscii (credentials : SmtpCredentials) : Prop :=
  isAscii credentials.username = true ∧
    isAscii credentials.password = true

instance (credentials : SmtpCredentials) :
    Decidable (IsAscii credentials) :=
  inferInstanceAs (Decidable (_ ∧ _))

/-
  What else the clients treat differently: with STARTTLS, a
  positive reply to an `EHLO` other than 250, credentials
  that are not ASCII, which `smtplib` does not send, and a
  421 to the last mechanism there is.
-/
structure Comparable
    (config : SmtpConfig)
    (script : Script) : Prop extends Documented script where
  ehloCode :
    config.tls = true → OnlyPositive 250 script.ehlo
  ehloTlsCode :
    config.tls = true → OnlyPositive 250 script.ehloTls
  credentials :
    config.tls = true → IsAscii config.credentials
  lastAuth : ∀ m,
    (offered script).getLast? = some m →
      script.auth m ≠ .code 421

end Smtp

end MailgunRelay

------------------------------------------------------------
-- Python Steps
------------------------------------------------------------

namespace MailgunRelay

namespace Smtp

open Python

/- The status a fault leads to. -/
def Fault.status (tls : Bool) (fault : Fault) : Nat :=
  SubmitError.status (fault.category tls)

theorem Fault.status_eq (tls : Bool) (fault : Fault) :
    fault.status tls =
      if fault.isTemporary tls then 503 else 502 := by
  unfold Fault.status Fault.category
  split <;> rfl

/- A step of `smtplib`, judged by faults. -/
abbrev PyDecided
    {α : Type}
    (config : SmtpConfig)
    (list : List Fault)
    (P : α → Client → Prop)
    (m : Py α)
    (client : Client) : Prop :=
  Lib.Judged (Fault.status config.tls)
    (fun e => (categoryFor e).status) list P m client

/- A command on an open channel. -/
theorem wp_docmd
    {reply : Reply}
    {Q : Int → Client → Prop}
    {E : SmtpException → Client → Prop}
    {client : Client}
    (hOpen : client.gone = false) :
    Lib.Wp (docmd reply) Q E client ↔
      match reply with
      | .code n => Q n { client with gone := n == 421 }
      | .garbled => Q (-1) client
      | .timeout => E .serverDisconnected client
      | .lost => E .serverDisconnected client := by
  unfold docmd
  rw [Lib.wp_bind, Lib.wp_get, hOpen]
  cases reply <;> rfl

/- On a closed channel nothing is answered. -/
theorem wp_docmd_gone
    {reply : Reply}
    {Q : Int → Client → Prop}
    {E : SmtpException → Client → Prop}
    {client : Client}
    (hGone : client.gone = true) :
    Lib.Wp (docmd reply) Q E client ↔
      E .serverDisconnected client := by
  unfold docmd
  rw [Lib.wp_bind, Lib.wp_get, hGone]
  rfl

/- The category of an exception that carries a reply. -/
theorem categoryFor_smtpCode
    {e : SmtpException}
    {n : Nat}
    (hCode : e.smtpCode = some (n : Int))
    (hOther : ∀ code, e ≠ .authenticationError code) :
    (categoryFor e).status =
      if isTransient n then 503 else 502 := by
  have hRange :
      (400 ≤ (n : Int) ∧ (n : Int) ≤ 499) ↔
        isTransient n = true := by
    simp only [isTransient, Bool.and_eq_true,
      decide_eq_true_eq]
    omega
  cases e with
  | authenticationError code => exact absurd rfl (hOther code)
  | connectError code | responseException code
  | senderRefused code | dataError code =>
      rw [SmtpException.smtpCode, Option.some.injEq] at hCode
      subst hCode
      simp only [categoryFor, SmtpException.smtpCode]
      by_cases hIs : isTransient n = true
      · rw [if_pos (hRange.mpr hIs), if_pos hIs]
        rfl
      · rw [if_neg (mt hRange.mp hIs), if_neg hIs]
        rfl
  | recipientsRefused _ | serverDisconnected | notSupported
  | smtpException | osError | unicodeEncodeError =>
      simp [SmtpException.smtpCode] at hCode

/- The status of a step that got another reply. -/
theorem reply_status
    (tls : Bool)
    {reply : Reply}
    {n : Nat}
    (hReply : reply = .code n)
    (hRange : ParsesCode n) :
    (Fault.reply reply).status tls =
      if isTransient n then 503 else 502 := by
  have hCode := (reply.replyCode_eq_some_iff n).mpr ⟨hReply, hRange⟩
  rw [Fault.status_eq]
  simp [Fault.isTemporary, hCode]

/-
  A command that needs one code and raises its reply
  otherwise, in front of the stages that follow.
-/
theorem docmd_judged
    {α : Type}
    (config : SmtpConfig)
    (code : Nat)
    {reply : Reply}
    {good : Bool}
    {list : List Fault}
    {P : α → Client → Prop}
    {next : Int → Py α}
    {raised : Int → SmtpException}
    {client : Client}
    (hParsable : reply.Parsable)
    (hGood : good = true ↔ reply = .code code)
    (hStays : code ≠ 421)
    (hOpen : client.gone = false)
    (hRaised : ∀ n, (raised n).smtpCode = some n)
    (hOther : ∀ n k, raised n ≠ .authenticationError k)
    (hNext : PyDecided config list P (next code) client) :
    PyDecided config (need good (.reply reply) ++ list) P
      (do
        let n ← docmd reply
        if n = code then next n else throw (raised n))
      client := by
  unfold PyDecided Lib.Judged at hNext ⊢
  rw [Lib.wp_bind, wp_docmd hOpen]
  cases reply with
  | code n =>
      by_cases hn : n = code
      · subst hn
        have hSame :
            { client with gone := n == 421 } = client := by
          rw [beq_eq_false_iff_ne.mpr hStays, ← hOpen]
        rw [hGood.mpr rfl]
        simpa [hSame] using hNext
      · have hBad : good = false := by
          rw [Bool.eq_false_iff, ne_eq, hGood]
          simpa using hn
        have hNe : (n : Int) ≠ code := by omega
        simp only [hBad, need_false, hNe, if_false,
          Lib.wp_throw, List.cons_append, List.nil_append,
          List.head?_cons, Option.map_some,
          reply_status config.tls rfl hParsable,
          categoryFor_smtpCode (hRaised n) (hOther n)]
  | garbled => exact hParsable.elim
  | timeout =>
      have hBad : good = false := by
        rw [Bool.eq_false_iff, ne_eq, hGood]
        simp
      simp [hBad, Fault.status_eq, Fault.isTemporary,
        Reply.replyCode, Reply.result, Error.status,
        categoryFor, SmtpException.smtpCode,
        FailureCategory.status]
  | lost =>
      have hBad : good = false := by
        rw [Bool.eq_false_iff, ne_eq, hGood]
        simp
      simp [hBad, Fault.status_eq, Fault.isTemporary,
        Reply.replyCode, Reply.result, Error.status,
        categoryFor, SmtpException.smtpCode,
        FailureCategory.status]

/- Connecting and the banner. -/
theorem connect_judged
    (config : SmtpConfig)
    {script : Script}
    (hScript : Documented script) :
    PyDecided config (connectFaults script)
      (fun _ client => client = .fresh)
      (connect script) .fresh := by
  unfold connectFaults connect
  by_cases hConnect : script.connect = true
  · simp only [hConnect, need_true, List.nil_append, if_true]
    rw [← List.append_nil (need _ _)]
    refine docmd_judged config 220 hScript.banner ?_
      (by omega) rfl (fun _ => rfl) (by simp) ?_
    · constructor
      · exact hScript.bannerCode
      · intro h
        simp [h, Reply.isPositive]
    · exact Lib.Judged.pure rfl
  · simp [hConnect, PyDecided, Lib.Judged, Fault.status_eq,
      Fault.isTemporary, categoryFor,
      SmtpException.smtpCode, FailureCategory.status]

end Smtp

end MailgunRelay

------------------------------------------------------------
-- The Python Login
------------------------------------------------------------

namespace MailgunRelay

namespace Smtp

open Python

/- ASCII texts are encoded. -/
theorem encodeAscii_of_all
    {texts : List Str}
    (hTexts : texts.all isAscii = true) :
    encodeAscii texts = pure () := by
  unfold encodeAscii
  rw [if_pos hTexts]

/- ASCII credentials are encoded by every mechanism. -/
theorem initialResponse_isAscii
    {credentials : SmtpCredentials}
    (hAscii : IsAscii credentials)
    (method : AuthMethod) :
    (method.initialResponse credentials).toList.all
      isAscii = true := by
  rcases hAscii with ⟨hUser, hPassword⟩
  simp only [isAscii] at hUser hPassword
  rcases method with _ | (_ | _) <;>
    simp [AuthMethod.initialResponse, isAscii, hUser,
      hPassword]

theorem answer_isAscii
    {credentials : SmtpCredentials}
    (hAscii : IsAscii credentials)
    (method : AuthMethod) :
    (method.answer credentials).all isAscii = true := by
  rcases hAscii with ⟨hUser, hPassword⟩
  simp only [isAscii] at hUser hPassword
  rcases method with _ | (_ | _) <;>
    simp [AuthMethod.answer, isAscii, hUser, hPassword]

/-
  With ASCII credentials an exchange is its last reply: a
  challenge leaves an open channel open.
-/
theorem wp_auth
    {script : Script}
    {credentials : SmtpCredentials}
    (hAscii : IsAscii credentials)
    (method : AuthMethod)
    {Q : Int → Client → Prop}
    {E : SmtpException → Client → Prop}
    {client : Client}
    (hOpen : client.gone = false) :
    Lib.Wp (auth script credentials method) Q E client ↔
      Lib.Wp (docmd (method.reply script))
        (fun code client' =>
          if code = 334 then
            E .smtpException client'
          else if code = 235 ∨ code = 503 then
            Q code client'
          else
            E (.authenticationError code) client')
        E client := by
  have hSame :
      { client with gone := (334 : Nat) == 421 } = client := by
    rw [beq_eq_false_iff_ne.mpr (by omega), ← hOpen]
  have hChallenge :
      ∀ R : Unit → Client → Prop,
        Lib.Wp (challenge script credentials method) R E
            client ↔
          R () client := by
    intro R
    unfold challenge
    rw [encodeAscii_of_all (answer_isAscii hAscii method)]
    split
    · rw [Lib.wp_bind, wp_docmd hOpen]
      simp only [Lib.wp_pure]
      rw [hSame]
    · exact Lib.wp_pure ()
  unfold auth
  rw [encodeAscii_of_all
      (initialResponse_isAscii hAscii method),
    Lib.wp_bind, Lib.wp_pure, Lib.wp_bind, hChallenge,
    Lib.wp_bind]
  apply iff_of_eq
  congr 1
  funext code client'
  apply propext
  split
  · exact Lib.wp_throw _
  · split
    · exact Lib.wp_pure _
    · exact Lib.wp_throw _

/- On a closed channel no exchange begins. -/
theorem wp_auth_gone
    {script : Script}
    {credentials : SmtpCredentials}
    (hAscii : IsAscii credentials)
    (method : AuthMethod)
    {Q : Int → Client → Prop}
    {E : SmtpException → Client → Prop}
    {client : Client}
    (hGone : client.gone = true) :
    Lib.Wp (auth script credentials method) Q E client ↔
      E .serverDisconnected client := by
  unfold auth challenge
  rw [encodeAscii_of_all
      (initialResponse_isAscii hAscii method),
    Lib.wp_bind, Lib.wp_pure, Lib.wp_bind]
  split
  · rw [Lib.wp_bind, wp_docmd_gone hGone]
  · rw [Lib.wp_pure, Lib.wp_bind, wp_docmd_gone hGone]

/-
  The methods are tried as the mechanisms are.  The
  induction is over the mechanisms that are left; when they
  run out, an authentication error was raised before.
-/
theorem tryMethods_judged
    (config : SmtpConfig)
    {script : Script}
    (hScript : Documented script)
    {credentials : SmtpCredentials}
    (hAscii : IsAscii credentials)
    (mechanisms : List Mechanism)
    (last : SmtpException)
    {client : Client}
    (hOpen : client.gone = false)
    (hLast : ∀ m,
      mechanisms.getLast? = some m →
        script.auth m ≠ .code 421)
    (hTried :
      mechanisms = [] →
        ∃ code, last = .authenticationError code) :
    PyDecided config (mechanismFaults script mechanisms)
      (fun _ client' => client' = client)
      (tryMethods script credentials last
        (mechanisms.map AuthMethod.shared)) client := by
  induction mechanisms generalizing last with
  | nil =>
      rcases hTried rfl with ⟨code, rfl⟩
      simp [PyDecided, Lib.Judged, tryMethods,
        mechanismFaults, Fault.status_eq, Fault.isTemporary,
        categoryFor, FailureCategory.status]
  | cons mechanism rest ih =>
      have hCode := hScript.authCode mechanism
      have hParsable := hScript.auth mechanism
      have hRest :
          rest ≠ [] → ∀ m,
            rest.getLast? = some m →
              script.auth m ≠ .code 421 := by
        intro hMore m hm
        apply hLast m
        cases rest with
        | nil => exact absurd rfl hMore
        | cons next others =>
            rw [List.getLast?_cons_cons]
            exact hm
      rw [mechanismFaults_cons]
      unfold PyDecided Lib.Judged at ih ⊢
      simp only [List.map_cons, tryMethods, Lib.wp_tryCatch,
        Lib.wp_bind, wp_auth hAscii _ hOpen,
        AuthMethod.reply, wp_docmd hOpen]
      cases hReply : script.auth mechanism with
      | garbled => simp [hReply, Reply.Parsable] at hParsable
      | timeout =>
          simp [Reply.endsLogin, Reply.replyCode,
            Reply.result, Error.status, Fault.status_eq,
            Fault.isTemporary, categoryFor,
            SmtpException.smtpCode, FailureCategory.status]
      | lost =>
          simp [Reply.endsLogin, Reply.replyCode,
            Reply.result, Error.status, Fault.status_eq,
            Fault.isTemporary, categoryFor,
            SmtpException.smtpCode, FailureCategory.status]
      | code n =>
          have hRange : ParsesCode n := by
            rw [hReply] at hParsable
            exact hParsable
          have hEnds :=
            Reply.endsLogin_of_code
              (((Reply.code n).replyCode_eq_some_iff n).mpr
                ⟨rfl, hRange⟩)
          have hNot503 : n ≠ 503 := by
            rintro rfl
            exact hCode hReply
          by_cases hEndless : n = 334
          · subst hEndless
            simp [hEnds, Fault.status_eq, Fault.isTemporary,
              categoryFor, SmtpException.smtpCode,
              FailureCategory.status]
          · have hEndless' : (n : Int) ≠ 334 := by omega
            by_cases hIn : n = 235
            · subst hIn
              simp [hEnds, hOpen.symm]
            · have hIn' : ¬ ((n : Int) = 235 ∨ (n : Int) = 503) := by
                omega
              simp only [hEndless', if_false, hIn']
              by_cases hClosed : n = 421
              · subst hClosed
                cases rest with
                | nil => exact absurd hReply (hLast _ rfl)
                | cons next others =>
                    simp only [List.map_cons, tryMethods,
                      Lib.wp_tryCatch, Lib.wp_bind,
                      beq_self_eq_true]
                    rw [wp_auth_gone hAscii _ rfl]
                    simp [hEnds, Fault.status_eq,
                      Fault.isTemporary, categoryFor,
                      SmtpException.smtpCode,
                      FailureCategory.status]
              · have hGoesOn :
                    (Reply.code n).endsLogin = false := by
                  simp [hEnds, hIn, hEndless, hClosed]
                have hSame :
                    { client with gone := n == 421 } =
                      client := by
                  rw [beq_eq_false_iff_ne.mpr hClosed,
                    ← hOpen]
                simp only [hGoesOn, Bool.false_eq_true,
                  if_false, hSame]
                by_cases hMore : rest = []
                · subst hMore
                  exact ih _ (by simp) (fun _ => ⟨_, rfl⟩)
                · exact ih _ (hRest hMore)
                    (fun _ => ⟨_, rfl⟩)

/- The shared mechanisms are what `smtplib` tries. -/
theorem preferredAuths_filter
    {script : Script}
    (hNoCram : script.ehloTlsInfo.authCramMd5 = false) :
    preferredAuths.filter
        (AuthMethod.offeredBy script.ehloTlsInfo) =
      (offered script).map AuthMethod.shared := by
  unfold preferredAuths offered
  cases hPlain : script.ehloTlsInfo.authPlain <;>
    cases hLogin : script.ehloTlsInfo.authLogin <;>
    simp [AuthMethod.offeredBy,
      ServerInfo.supportsAuthMechanism, hNoCram, hPlain,
      hLogin]

/- The login on an encrypted channel. -/
theorem pyLogin_judged
    (config : SmtpConfig)
    {script : Script}
    (hScript : Comparable config script)
    (hTls : config.tls = true)
    {client : Client}
    (hOpen : client.gone = false)
    (hFeatures : client.features = script.ehloTlsInfo) :
    PyDecided config (loginFaults script)
      (fun _ client' => client' = client)
      (Python.login script config.credentials) client := by
  have hNoCram := hScript.noCramMd5
  have hAny :
      (script.ehloTlsInfo.authPlain ||
          script.ehloTlsInfo.authLogin ||
          script.ehloTlsInfo.authCramMd5) =
        !(offered script).isEmpty := by
    unfold offered
    cases hPlain : script.ehloTlsInfo.authPlain <;>
      cases hLogin : script.ehloTlsInfo.authLogin <;>
      simp [ServerInfo.supportsAuthMechanism, hNoCram,
        hPlain, hLogin]
  unfold PyDecided Lib.Judged Python.login loginFaults
  rw [Lib.wp_bind, Lib.wp_get]
  simp only [hFeatures, hAny,
    preferredAuths_filter hNoCram]
  by_cases hNone : (offered script).isEmpty = true
  · simp [hNone, Fault.status_eq, Fault.isTemporary,
      categoryFor, SmtpException.smtpCode,
      FailureCategory.status]
  · simp only [hNone, Bool.not_false, if_true,
      Bool.false_eq_true, if_false]
    exact tryMethods_judged config hScript.toDocumented
      (hScript.credentials hTls) _ _ hOpen hScript.lastAuth
      (fun h => absurd (by simp [h]) hNone)

end Smtp

end MailgunRelay

------------------------------------------------------------
-- Securing The Channel
------------------------------------------------------------

namespace MailgunRelay

namespace Smtp

open Python

/- A step of `submit`, judged by faults. -/
abbrev SubDecided
    {α : Type}
    (config : SmtpConfig)
    (list : List Fault)
    (P : α → Client → Prop)
    (m : EStateM Raised Client α)
    (client : Client) : Prop :=
  Lib.Judged (Fault.status config.tls)
    (fun e => e.category.status) list P m client

@[simp] theorem wp_call
    {α : Type}
    (m : Py α)
    (Q : α → Client → Prop)
    (E : Raised → Client → Prop)
    (client : Client) :
    Lib.Wp (call m) Q E client ↔
      Lib.Wp m Q (fun e => E (.smtp e)) client := by
  simp only [Lib.Wp, call]
  cases m client <;> rfl

/- `submit` reads the exceptions of `smtplib`. -/
theorem call_judged
    {α : Type}
    {config : SmtpConfig}
    {list : List Fault}
    {P : α → Client → Prop}
    {m : Py α}
    {client : Client}
    (h : PyDecided config list P m client) :
    SubDecided config list P (call m) client :=
  (wp_call m _ _ client).mpr h

/- `EHLO` is answered, and only 250 leaves features. -/
theorem wp_ehlo
    {reply : Reply}
    {info : ServerInfo}
    {Q : Unit → Client → Prop}
    {E : SmtpException → Client → Prop}
    {client : Client}
    (hOpen : client.gone = false) :
    Lib.Wp (ehlo reply info) Q E client ↔
      match reply with
      | .code n =>
          Q ()
            { features := if n = 250 then info else .none
              gone := n == 421 }
      | .garbled => Q () { client with features := .none }
      | _ => E .serverDisconnected
          { client with features := .none } := by
  have hStill :
      { client with features := .none }.gone = false := hOpen
  unfold ehlo
  rw [Lib.wp_bind, Lib.wp_modify, Lib.wp_bind,
    wp_docmd hStill]
  cases reply with
  | code n =>
      by_cases hn : n = 250
      · simp [hn]
      · have hn' : (n : Int) ≠ 250 := by omega
        simp [hn, hn']
  | garbled => rfl
  | timeout => rfl
  | lost => rfl

/- A negative reply leaves no features. -/
theorem code_ne_of_not_positive
    {n : Nat}
    (hNot : (Reply.code n).isPositive = false) :
    n ≠ 250 := by
  rintro rfl
  simp [Reply.isPositive] at hNot

/- The second `EHLO` and the login. -/
theorem relogin_judged
    {config : SmtpConfig}
    {script : Script}
    (hScript : Comparable config script)
    (hTls : config.tls = true)
    {client : Client}
    (hOpen : client.gone = false) :
    SubDecided config
      (need script.ehloTls.isPositive
          (.ehloTls script.ehloTls) ++
        loginFaults script)
      (fun _ client' =>
        client'.gone = false ∧
          client'.features = script.ehloTlsInfo)
      (do
        call (ehlo script.ehloTls script.ehloTlsInfo)
        call (Python.login script config.credentials))
      client := by
  have hParsable := hScript.ehloTls
  have hPositive := hScript.ehloTlsCode hTls
  unfold SubDecided Lib.Judged
  rw [Lib.wp_bind, wp_call, wp_ehlo hOpen]
  cases hReply : script.ehloTls with
  | garbled => simp [hReply, Reply.Parsable] at hParsable
  | timeout =>
      simp [Reply.isPositive, Fault.status_eq,
        Fault.isTemporary, Raised.category, categoryFor,
        SmtpException.smtpCode, FailureCategory.status]
  | lost =>
      simp [Reply.isPositive, Fault.status_eq,
        Fault.isTemporary, Raised.category, categoryFor,
        SmtpException.smtpCode, FailureCategory.status]
  | code n =>
      rw [hReply] at hPositive
      cases hIs : (Reply.code n).isPositive with
      | true =>
          have hn : n = 250 := by
            simpa using hPositive hIs
          subst hn
          simp only [if_true, need_true, List.nil_append]
          refine Lib.Judged.mono
            (call_judged (pyLogin_judged config hScript hTls ?_ ?_))
            ?_
          · rfl
          · rfl
          · rintro _ _ rfl
            exact ⟨rfl, rfl⟩
      | false =>
          have hn := code_ne_of_not_positive hIs
          simp [hn, Python.login, ServerInfo.none,
            Fault.status_eq, Fault.isTemporary,
            Raised.category, categoryFor,
            SmtpException.smtpCode, FailureCategory.status]

/- STARTTLS and the handshake. -/
theorem starttls_judged
    (config : SmtpConfig)
    {script : Script}
    (hScript : Documented script)
    {client : Client}
    (hOpen : client.gone = false)
    (hFeatures : client.features = script.ehloInfo) :
    PyDecided config
      (need script.ehloInfo.starttls .notOffered ++
        (need script.starttls.isPositive
            (.reply script.starttls) ++
          need script.handshake .handshake))
      (fun _ client' => client'.gone = false)
      (starttls script) client := by
  have hHandshake :
      PyDecided config (need script.handshake .handshake)
        (fun _ client' => client'.gone = false)
        (if script.handshake then
          modify fun c => { c with features := .none }
        else
          throw .osError) client := by
    unfold PyDecided Lib.Judged
    by_cases hShake : script.handshake = true
    · simp [hShake, hOpen]
    · simp [hShake, Fault.status_eq, Fault.isTemporary,
        categoryFor, SmtpException.smtpCode,
        FailureCategory.status]
  unfold PyDecided Lib.Judged starttls
  rw [Lib.wp_bind, Lib.wp_get, hFeatures]
  by_cases hOffer : script.ehloInfo.starttls = true
  · simp only [hOffer, if_true, need_true, List.nil_append]
    refine docmd_judged config 220 hScript.starttls ?_
      (by omega) hOpen (fun _ => rfl) (by simp) hHandshake
    constructor
    · exact hScript.starttlsCode
    · intro h
      simp [h, Reply.isPositive]
  · simp [hOffer, Fault.status_eq, Fault.isTemporary,
      categoryFor, SmtpException.smtpCode,
      FailureCategory.status]

/- From the first `EHLO` to the login. -/
theorem secure_judged
    {config : SmtpConfig}
    {script : Script}
    (hScript : Comparable config script) :
    SubDecided config
      (need script.ehlo.isPositive (.ehlo script.ehlo) ++
        (starttlsFaults config script ++
          (need config.tls .cleartext ++
            loginFaults script)))
      (fun _ client' =>
        client'.gone = false ∧
          client'.features = script.ehloTlsInfo)
      (secure config script) .fresh := by
  have hParsable := hScript.ehlo
  have hPositive := hScript.ehloCode
  unfold secure starttlsFaults
  by_cases hTls : config.tls = true
  · simp only [hTls, if_true, need_true, List.nil_append]
    unfold SubDecided Lib.Judged
    rw [Lib.wp_bind, wp_call, wp_ehlo rfl]
    have hPositive := hPositive hTls
    cases hReply : script.ehlo with
    | garbled => simp [hReply, Reply.Parsable] at hParsable
    | timeout =>
        simp [Reply.isPositive, Fault.status_eq,
          Fault.isTemporary, Raised.category, categoryFor,
          SmtpException.smtpCode, FailureCategory.status,
          hTls]
    | lost =>
        simp [Reply.isPositive, Fault.status_eq,
          Fault.isTemporary, Raised.category, categoryFor,
          SmtpException.smtpCode, FailureCategory.status,
          hTls]
    | code n =>
        rw [hReply] at hPositive
        cases hIs : (Reply.code n).isPositive with
        | true =>
            have hn : n = 250 := by
              simpa using hPositive hIs
            subst hn
            simp only [if_true, need_true, List.nil_append]
            have hStart :
                SubDecided config _ _ (call (starttls script))
                  { features := script.ehloInfo
                    gone := false } :=
              call_judged (starttls_judged config
                hScript.toDocumented rfl rfl)
            have hBoth :=
              hStart.bind fun _ _ h =>
                relogin_judged hScript hTls h
            simp only [List.append_assoc] at hBoth ⊢
            exact hBoth
        | false =>
            have hn := code_ne_of_not_positive hIs
            simp [hn, starttls, ServerInfo.none,
              Fault.status_eq, Fault.isTemporary,
              Raised.category, categoryFor, hTls,
              SmtpException.smtpCode, FailureCategory.status]
  · -- The reply to `EHLO` does not matter here: without TLS
    -- the credentials are refused.
    simp only [hTls, Bool.false_eq_true, if_false,
      need_false, List.nil_append]
    unfold SubDecided Lib.Judged
    rw [Lib.wp_bind, wp_call, wp_ehlo rfl]
    cases hReply : script.ehlo with
    | garbled => simp [hReply, Reply.Parsable] at hParsable
    | timeout =>
        simp [Reply.isPositive, Fault.status_eq,
          Fault.isTemporary, Raised.category, categoryFor,
          SmtpException.smtpCode, FailureCategory.status,
          Reply.replyCode, Reply.result, Error.status]
    | lost =>
        simp [Reply.isPositive, Fault.status_eq,
          Fault.isTemporary, Raised.category, categoryFor,
          SmtpException.smtpCode, FailureCategory.status,
          Reply.replyCode, Reply.result, Error.status]
    | code n =>
        have hCode :=
          ((Reply.code n).replyCode_eq_some_iff n).mpr
            ⟨rfl, by rw [hReply] at hParsable; exact hParsable⟩
        cases hIs : (Reply.code n).isPositive with
        | true =>
            simp [Fault.status_eq, Fault.isTemporary,
              Raised.category, FailureCategory.status]
        | false =>
            simp [Fault.status_eq, Fault.isTemporary, hCode,
              hTls, Raised.category, FailureCategory.status]

end Smtp

end MailgunRelay

------------------------------------------------------------
-- Sending
------------------------------------------------------------

namespace MailgunRelay

namespace Smtp

open Python

/- An address of the relay is ASCII. -/
theorem Address.isAscii_text
    (address : Address) :
    isAscii address.text = true := by
  have hSide :
      ∀ side, printable side = true →
        isAscii side = true := by
    intro side hSide
    simp only [printable, isAsciiGraphic, Bool.and_eq_true,
      List.all_eq_true, decide_eq_true_eq] at hSide
    simp only [isAscii, List.all_eq_true, decide_eq_true_eq]
    intro c hc
    have hTop : c ≤ '~' := (hSide.2 c hc).1.1.2
    have hLe : c.toNat ≤ '~'.toNat := hTop
    have hTilde : '~'.toNat = 126 := by decide
    omega
  have hUser := hSide _ address.valid.1
  have hDomain := hSide _ address.valid.2
  simp only [isAscii] at hUser hDomain ⊢
  simp [Address.text, hUser, hDomain]

/- The refusals as the dict of `smtplib`. -/
def senderrsOf (refused : List Refusal) : List (Str × Int) :=
  refused.map fun r => (r.address, (r.code.getD 0 : Nat))

/- Both sides look for a 4xx among the refusals. -/
theorem senderrsOf_any
    (refused : List Refusal) :
    ((senderrsOf refused).any fun r =>
        400 ≤ r.2 && r.2 ≤ 499) =
      refused.any Refusal.isTemporary := by
  unfold senderrsOf
  rw [List.any_map]
  congr 1
  funext r
  cases hCode : r.code with
  | none => simp [Refusal.isTemporary, hCode]
  | some n =>
      simp only [Function.comp, Refusal.isTemporary, hCode,
        Option.getD_some, Option.any_some]
      rw [Bool.eq_iff_iff]
      simp only [Bool.and_eq_true, decide_eq_true_eq]
      omega

/- The status of refused recipients. -/
theorem recipientsRefused_status
    (tls : Bool)
    (raws : List Str)
    (replies : List Reply)
    (hLength : replies.length ≤ raws.length) :
    (categoryFor
        (.recipientsRefused
          (senderrsOf (refusedBy raws replies)))).status =
      (Fault.refused (refusedCodes replies)).status tls := by
  rw [Fault.status_eq]
  simp only [categoryFor, Fault.isTemporary, senderrsOf_any,
    refusedBy_any_isTemporary replies raws hLength]
  by_cases hAny : (refusedCodes replies).any isTransient = true <;>
    simp [hAny, FailureCategory.status]

/- Every refused recipient stands in the envelope once. -/
theorem refusedBy_length
    (replies : List Reply)
    (raws : List Str)
    (hLength : replies.length ≤ raws.length) :
    (refusedBy raws replies).length =
      (replies.filter fun r => !r.isAccepted).length := by
  induction replies generalizing raws with
  | nil => simp [refusedBy]
  | cons reply rest ih =>
      cases raws with
      | nil => simp at hLength
      | cons raw raws =>
          have hRest := ih raws (by simpa using hLength)
          simp only [refusedBy] at hRest
          by_cases hIs : reply.isAccepted = true <;>
            simp [refusedBy, hIs, hRest]

/- Everybody is refused exactly when nobody is accepted. -/
theorem refusedBy_length_eq_iff
    (replies : List Reply)
    (raws : List Str)
    (hLength : replies.length = raws.length) :
    (refusedBy raws replies).length = raws.length ↔
      replies.any Reply.isAccepted = false := by
  rw [refusedBy_length replies raws (by omega), ← hLength,
    List.length_filter_eq_length_iff]
  simp

/-
  The loop of `smtplib` reads the replies as the relay does.
  The induction is over the recipients to ask; distinct ones
  are distinct keys of the dict.
-/
theorem rcptLoop_reads
    {script : Script}
    (hParsable : ∀ i, (script.rcpt i).Parsable)
    (i : Nat)
    (toAddrs : List Str)
    (senderrs : List (Str × Int))
    (hDistinct :
      (Lib.Assoc.keys senderrs ++ toAddrs).Nodup)
    {client : Client}
    (hOpen : client.gone = false) :
    Lib.Wp (rcptLoop script i toAddrs senderrs)
      (fun errs client' =>
        (rcptReplies script i toAddrs.length).find?
            Reply.endsRcpts = none ∧
          client' = client ∧
          errs = senderrs ++ senderrsOf
            (refusedBy toAddrs
              (rcptReplies script i toAddrs.length)))
      (fun e _ => ∃ r,
        (rcptReplies script i toAddrs.length).find?
            Reply.endsRcpts = some r ∧
          e = if r.replyCode.isNone then
              .serverDisconnected
            else
              .recipientsRefused
                (senderrs ++ senderrsOf
                  (refusedBy toAddrs
                    (askedReplies
                      (rcptReplies script i
                        toAddrs.length)))))
      client := by
  induction toAddrs generalizing i senderrs with
  | nil =>
      simp [rcptLoop, rcptReplies, refusedBy, senderrsOf]
  | cons each rest ih =>
      have hRange := hParsable i
      have hNew : each ∉ Lib.Assoc.keys senderrs := by
        intro hMem
        rw [List.nodup_append] at hDistinct
        exact hDistinct.2.2 each hMem each (by simp) rfl
      have hRest :
          (Lib.Assoc.keys senderrs ++ rest).Nodup :=
        hDistinct.sublist (by simp)
      simp only [List.length_cons, rcptReplies_succ,
        List.find?_cons, askedReplies_cons, rcptLoop]
      rw [Lib.wp_bind, wp_docmd hOpen]
      cases hReply : script.rcpt i with
      | garbled => simp [hReply, Reply.Parsable] at hRange
      | timeout =>
          have hEnds : Reply.endsRcpts .timeout = true := by
            decide
          simp [hEnds, Reply.replyCode, Reply.result,
            Error.status]
      | lost =>
          have hEnds : Reply.endsRcpts .lost = true := by
            decide
          simp [hEnds, Reply.replyCode, Reply.result,
            Error.status]
      | code n =>
          rw [hReply] at hRange
          have hCode :=
            ((Reply.code n).replyCode_eq_some_iff n).mpr
              ⟨rfl, hRange⟩
          have hEnds :
              (Reply.code n).endsRcpts =
                decide (n = 421) := by
            simp [Reply.endsRcpts, hCode]
          have hIs :
              (Reply.code n).isAccepted =
                decide (n = 250 ∨ n = 251) := by
            simp [Reply.isAccepted]
          have hCast :
              ((n : Int) ≠ 250 ∧ (n : Int) ≠ 251) ↔
                ¬ (n = 250 ∨ n = 251) := by
            omega
          have hCast' : (n : Int) = 421 ↔ n = 421 := by
            omega
          have hSame :
              n ≠ 421 →
                { client with gone := n == 421 } = client := by
            intro hn
            rw [beq_eq_false_iff_ne.mpr hn, ← hOpen]
          simp only [hCast, hCast']
          by_cases hAccepted : n = 250 ∨ n = 251
          · have hStays : n ≠ 421 := by omega
            have hSkip :
                ∀ replies,
                  refusedBy (each :: rest)
                      (.code n :: replies) =
                    refusedBy rest replies := by
              simp [refusedBy, hIs, hAccepted]
            simp only [hEnds, hStays, hAccepted, not_true,
              if_false, decide_false, hSkip, hSame hStays,
              Bool.false_eq_true]
            exact ih (i + 1) senderrs hRest
          · have hSet :=
              Lib.Assoc.set_of_not_mem (n : Int) hNew
            have hTake :
                ∀ replies,
                  senderrsOf
                      (refusedBy (each :: rest)
                        (.code n :: replies)) =
                    (each, (n : Int)) ::
                      senderrsOf (refusedBy rest replies) := by
              simp [refusedBy, senderrsOf, hIs, hAccepted,
                hCode]
            simp only [hAccepted, not_false_iff, if_true,
              hSet]
            by_cases hClosed : n = 421
            · subst hClosed
              simp only [hEnds, decide_true, if_true, hTake]
              exact ⟨.code 421, rfl, by simp [hCode,
                refusedBy, senderrsOf]⟩
            · simp only [hEnds, hClosed, decide_false,
                if_false, hSame hClosed, hTake,
                Bool.false_eq_true]
              have hNext :=
                ih (i + 1) (senderrs ++ [(each, (n : Int))])
                  (by simpa [Lib.Assoc.keys] using hDistinct)
              simpa only [List.append_assoc,
                List.cons_append, List.nil_append]
                using hNext

/- The recipients: lost, refused or asked. -/
theorem rcpts_judged
    (config : SmtpConfig)
    {script : Script}
    (hParsable : ∀ i, (script.rcpt i).Parsable)
    {toAddrs : List Str}
    (hDistinct : toAddrs.Nodup)
    {client : Client}
    (hOpen : client.gone = false) :
    PyDecided config
      (lostFaults (rcptReplies script 0 toAddrs.length) ++
        refusedFaults
          (rcptReplies script 0 toAddrs.length))
      (fun errs client' =>
        client' = client ∧
          errs = senderrsOf
            (refusedBy toAddrs
              (rcptReplies script 0 toAddrs.length)))
      (rcpts script toAddrs) client := by
  have hLength :
      (rcptReplies script 0 toAddrs.length).length =
        toAddrs.length := by
    simp [rcptReplies]
  unfold PyDecided Lib.Judged rcpts
  rw [Lib.wp_bind]
  refine (rcptLoop_reads hParsable 0 toAddrs []
    (by simpa [Lib.Assoc.keys] using hDistinct)
    hOpen).mono ?_ ?_
  · rintro errs client' ⟨hEnd, rfl, rfl⟩
    have hAll := askedReplies_of_open hEnd
    have hCount :=
      refusedBy_length_eq_iff _ toAddrs hLength
    simp only [List.nil_append, senderrsOf,
      List.length_map, lostFaults, refusedFaults, hEnd,
      Option.isSome_none, Bool.not_false, Bool.true_and]
    rw [hAll]
    by_cases hNobody :
        (refusedBy toAddrs
          (rcptReplies script 0 toAddrs.length)).length =
            toAddrs.length
    · rw [if_pos hNobody, hCount.mp hNobody]
      have hStatus :=
        recipientsRefused_status config.tls toAddrs
          (rcptReplies script 0 toAddrs.length)
          (by omega)
      simpa [senderrsOf] using hStatus.symm
    · have hSomebody :
          (rcptReplies script 0 toAddrs.length).any
            Reply.isAccepted = true := by
        rw [← Bool.not_eq_false]
        exact mt hCount.mpr hNobody
      rw [if_neg hNobody, hSomebody]
      simp
  · rintro e client' ⟨r, hEnd, rfl⟩
    simp only [lostFaults, refusedFaults, hEnd,
      Option.isSome_some, Bool.not_true, Bool.false_and,
      need_false]
    cases hCode : r.replyCode with
    | none =>
        simp [Fault.status_eq, Fault.isTemporary,
          categoryFor, SmtpException.smtpCode,
          FailureCategory.status]
    | some n =>
        have hLe :=
          askedReplies_length_le
            (rcptReplies script 0 toAddrs.length)
        have hStatus :=
          recipientsRefused_status config.tls toAddrs
            (askedReplies
              (rcptReplies script 0 toAddrs.length))
            (by omega)
        simpa using hStatus.symm

/- `DATA` and the reply to the end of the message. -/
theorem data_judged
    (config : SmtpConfig)
    {script : Script}
    (hScript : Documented script)
    (senderrs : List (Str × Int))
    {client : Client}
    (hOpen : client.gone = false) :
    PyDecided config
      (wants 354 script.data ++ wants 250 script.dataEnd)
      (fun errs _ => errs = senderrs)
      (do
        let code ← data script
        if code = 250 then
          pure senderrs
        else
          throw (.dataError code))
      client := by
  have hSteps :
      (do
        let code ← data script
        if code = 250 then
          pure senderrs
        else
          throw (.dataError code) : Py (List (Str × Int))) =
        (do
          let n ← docmd script.data
          if n = 354 then do
            let n ← docmd script.dataEnd
            if n = 250 then
              pure senderrs
            else
              throw (.dataError n)
          else
            throw (.dataError n)) := by
    simp only [data, bind_assoc]
    congr 1
    funext n
    split <;> rfl
  have hEnd :
      PyDecided config (wants 250 script.dataEnd ++ [])
        (fun errs _ => errs = senderrs)
        (do
          let n ← docmd script.dataEnd
          if n = 250 then
            pure senderrs
          else
            throw (.dataError n))
        client :=
    docmd_judged config 250 hScript.dataEnd (by simp)
      (by omega) hOpen (fun _ => rfl) (by simp)
      (Lib.Judged.pure rfl)
  rw [List.append_nil] at hEnd
  rw [hSteps]
  exact docmd_judged config 354 hScript.data (by simp)
    (by omega) hOpen (fun _ => rfl) (by simp) hEnd

/- The envelope of the relay is ASCII. -/
theorem isAscii_of_recipientsOf
    {envelope : List Str}
    {recipients : List (Address × Str)}
    (hRecipients : recipientsOf envelope = some recipients) :
    envelope.all isAscii = true := by
  rcases recipientsOf_spec hRecipients with ⟨hRaws, hText⟩
  rw [List.all_eq_true]
  intro raw hRaw
  rw [← hRaws, List.mem_map] at hRaw
  rcases hRaw with ⟨p, hp, rfl⟩
  rw [← hText p hp]
  exact p.1.isAscii_text

/- What is wrong with the mail transaction itself. -/
def mailFaults
    (script : Script)
    (count : Nat) : List Fault :=
  wants 250 script.mail ++
    (lostFaults (rcptReplies script 0 count) ++
    (refusedFaults (rcptReplies script 0 count) ++
    (wants 354 script.data ++
    wants 250 script.dataEnd)))

/- The mail transaction, to distinct recipients. -/
theorem sendmail_judged
    (config : SmtpConfig)
    {script : Script}
    (hScript : Documented script)
    {toAddrs : List Str}
    (hDistinct : toAddrs.Nodup)
    {client : Client}
    (hOpen : client.gone = false) :
    PyDecided config (mailFaults script toAddrs.length)
      (fun errs _ =>
        errs = senderrsOf
          (refusedBy toAddrs
            (rcptReplies script 0 toAddrs.length)))
      (sendmail script toAddrs) client := by
  have hAfterMail :=
    (rcpts_judged config hScript.rcpt hDistinct hOpen).bind
      (fun errs client' h =>
        (data_judged config hScript errs
          (show client'.gone = false by rw [h.1, hOpen])).mono
          (fun _ _ hErrs => hErrs.trans h.2))
  simp only [List.append_assoc] at hAfterMail
  unfold sendmail
  exact docmd_judged config 250 hScript.mail (by simp)
    (by omega) hOpen (fun _ => rfl) (by simp) hAfterMail

/- An ASCII envelope needs no SMTPUTF8. -/
theorem sendMessage_judged
    (config : SmtpConfig)
    {script : Script}
    (hScript : Documented script)
    {toAddrs : List Str}
    (hAscii : toAddrs.all isAscii = true)
    (hDistinct : toAddrs.Nodup)
    {client : Client}
    (hOpen : client.gone = false) :
    PyDecided config (mailFaults script toAddrs.length)
      (fun errs _ =>
        errs = senderrsOf
          (refusedBy toAddrs
            (rcptReplies script 0 toAddrs.length)))
      (sendMessage script (Python.envelopeSender config)
        toAddrs)
      client := by
  have hSender :
      isAscii (Python.envelopeSender config) = true := by
    unfold Python.envelopeSender
    cases config.sender with
    | none => rfl
    | some address => exact address.isAscii_text
  have hMail :=
    sendmail_judged config hScript hDistinct hOpen
  unfold PyDecided Lib.Judged sendMessage
  rw [Lib.wp_bind, Lib.wp_get]
  simp only [List.all_cons, hSender, hAscii, Bool.true_and,
    Bool.true_or, if_true]
  exact hMail

end Smtp

end MailgunRelay

------------------------------------------------------------
-- Submissions
------------------------------------------------------------

namespace MailgunRelay

namespace Smtp

open Python

/- The Python submission stage by stage. -/
theorem pySession_judged
    {config : SmtpConfig}
    {script : Script}
    (hScript : Comparable config script)
    {envelope : List Str}
    {recipients : List (Address × Str)}
    (hRecipients : recipientsOf envelope = some recipients)
    (hDistinct : envelope.Nodup) :
    SubDecided config (faults config script envelope)
      (fun errs _ =>
        errs = senderrsOf
          (refusedBy envelope
            (rcptReplies script 0 envelope.length)))
      (Python.session config script envelope) .fresh := by
  have hAscii := isAscii_of_recipientsOf hRecipients
  have hAll :=
    (call_judged
      (connect_judged config hScript.toDocumented)).bind
      (f := fun _ => do
        secure config script
        call (sendMessage script (Python.envelopeSender config)
          envelope))
      (fun _ client h =>
        (show SubDecided config _ _ _ client by
          rw [h]
          exact (secure_judged hScript).bind
            (fun _ _ hSecure =>
              call_judged
                (sendMessage_judged config
                  hScript.toDocumented hAscii hDistinct
                  hSecure.1))))
  unfold faults transactionFaults
  simp only [hRecipients, Option.isSome_some, need_true,
    List.nil_append]
  simp only [List.append_assoc] at hAll
  exact hAll

/- The Python submission has the verdict of the faults. -/
theorem submit_judged
    {config : SmtpConfig}
    {script : Script}
    (hScript : Comparable config script)
    {envelope : List Str}
    {recipients : List (Address × Str)}
    (hRecipients : recipientsOf envelope = some recipients)
    (hDistinct : envelope.Nodup) :
    (submit config script envelope).mapError
        FailureCategory.status =
      Lib.judgement (Fault.status config.tls)
        (faults config script envelope)
        (senderrsOf
          (refusedBy envelope
            (rcptReplies script 0 envelope.length))) := by
  rw [← (pySession_judged hScript hRecipients
    hDistinct).verdict (fun _ _ h => h)]
  unfold submit
  cases Python.session config script envelope .fresh <;> rfl

end Smtp

end MailgunRelay

------------------------------------------------------------
-- Where The Clients Differ
------------------------------------------------------------

namespace MailgunRelay

namespace Smtp

open Python

/- A server that accepts everything and offers PLAIN. -/
def plainServer : Script :=
  { connect := true
    banner := .code 220
    ehlo := .code 250
    ehloInfo := { ServerInfo.none with starttls := true }
    starttls := .code 220
    handshake := true
    ehloTls := .code 250
    ehloTlsInfo := { ServerInfo.none with authPlain := true }
    auth := fun _ => .code 235
    authCramMd5 := .code 535
    challenged := fun _ => false
    challengedCramMd5 := true
    mail := .code 250
    rcpt := fun _ => .code 250
    data := .code 354
    dataEnd := .code 250
    quit := .code 221
    broken := false }

/- The production settings with a null sender. -/
def plainConfig : SmtpConfig :=
  { tls := true
    credentials := { username := [], password := [] }
    sender := none }

/- The same with a password that is not ASCII. -/
def umlautConfig : SmtpConfig :=
  { plainConfig with
    credentials :=
      { username := ['a']
        password := ['p', 'ä', 's', 's'] } }

/- A message to `a@b`. -/
def plainMessage : BuiltMessage :=
  { messageId := []
    envelope := [['a', '@', 'b']]
    formatted := [] }

/- `plainServer` is outside the documented divergences. -/
theorem plainServer_documented : Documented plainServer :=
  { banner := by decide
    ehlo := by decide
    starttls := by decide
    ehloTls := by decide
    auth := fun _ => (by decide : (Reply.code 235).Parsable)
    mail := by decide
    rcpt := fun _ => (by decide : (Reply.code 250).Parsable)
    data := by decide
    dataEnd := by decide
    bannerCode := fun _ => rfl
    starttlsCode := fun _ => rfl
    authCode := fun _ =>
      (by decide : Reply.code 235 ≠ .code 503)
    noCramMd5 := rfl }

end Smtp

end MailgunRelay
