import MailgunRelay.Lib.Stages
import MailgunRelay.Smtp.Steps

/-
  Why a session fails.

  `faults` lists what is wrong with a server's behaviour, in
  the order of a session.  The first fault is the deciding
  event: `session_judged` is that a session fails exactly
  when there is one, with the category `Fault.category`
  gives it, and returns the refused recipients otherwise.

  Key definitions include:
    * `MailgunRelay.Smtp.Fault`
    * `MailgunRelay.Smtp.Fault.isTemporary`
    * `MailgunRelay.Smtp.faults`

  Key theorems include:
    * `MailgunRelay.Smtp.login_judged`
    * `MailgunRelay.Smtp.rcptTo_judged`
    * `MailgunRelay.Smtp.session_judged`
-/

------------------------------------------------------------
-- Faults
------------------------------------------------------------

namespace MailgunRelay

namespace Smtp

/-
  The deciding event of a failed session.  `reply` is any
  step that needs one certain reply and got another one.
-/
inductive Fault where
  | address
  | connect
  | reply (reply : Reply)
  | ehlo (reply : Reply)
  | notOffered
  | handshake
  | ehloTls (reply : Reply)
  | cleartext
  | noMechanism
  | auth (reply : Reply)
  | authRefused
  | rcpt (reply : Reply)
  | refused (codes : List Nat)
  deriving DecidableEq

/- A code that asks to try again later. -/
def isTransient (code : Nat) : Bool :=
  400 ≤ code && code < 500

/-
  Whether trying again may help.  No address, no connection
  and no reply are temporary; a reply goes by its code; a
  refused `EHLO` by what the configuration needs next.
-/
def Fault.isTemporary (tls : Bool) : Fault → Bool
| .address => true
| .connect => true
| .reply r => r.replyCode.all isTransient
| .ehlo r => tls || r.replyCode.isNone
| .notOffered => true
| .handshake => true
| .ehloTls _ => true
| .cleartext => false
| .noMechanism => true
| .auth _ => true
| .authRefused => false
| .rcpt _ => true
| .refused codes => codes.any isTransient

def Fault.category
    (tls : Bool)
    (fault : Fault) : SubmitError :=
  if fault.isTemporary tls then .temporary else .permanent

/-
  Whether the server still listens after the deciding event:
  it answered with a code other than 421, or nothing was
  sent.  lettre gives up a connection whose second `EHLO`
  failed, and an `AUTH` without an end.
-/
def Fault.leavesOpen : Fault → Bool
| .reply r => r.replyCode.any (· != 421)
| .notOffered => true
| .cleartext => true
| .noMechanism => true
| .authRefused => true
| .refused codes => !codes.contains 421
| _ => false

/- What a step throws at the event. -/
def Fault.failure (tls : Bool) (fault : Fault) : Failure :=
  { error := fault.category tls
    isOpen := fault.leavesOpen }

end Smtp

end MailgunRelay

------------------------------------------------------------
-- The Faults Of A Script
------------------------------------------------------------

namespace MailgunRelay

namespace Smtp

/- No fault if all is well. -/
def need (good : Bool) (fault : Fault) : List Fault :=
  if good then [] else [fault]

def Reply.isPositive : Reply → Bool
| .code n => decide (ParsesCode n ∧ n < 400)
| _ => false

def connectFaults (script : Script) : List Fault :=
  need script.connect .connect ++
    need script.banner.isPositive (.reply script.banner)

def starttlsFaults
    (config : SmtpConfig)
    (script : Script) : List Fault :=
  if config.tls then
    need script.ehloInfo.starttls .notOffered ++
      (need script.starttls.isPositive
        (.reply script.starttls) ++
      (need script.handshake .handshake ++
      need script.ehloTls.isPositive
        (.ehloTls script.ehloTls)))
  else
    []

/- A login ends with this reply: accepted, 421 or no code. -/
def Reply.endsLogin (reply : Reply) : Bool :=
  reply = .code 235 || reply = .code 421 ||
    reply = .code 334 || reply.replyCode.isNone

/- The mechanisms of the encrypted channel, in order. -/
def offered (script : Script) : List Mechanism :=
  [Mechanism.plain, .login].filter
    script.ehloTlsInfo.supportsAuthMechanism

/-
  The first mechanism that is not merely refused decides;
  334 stands for an exchange without an end.
-/
def mechanismFaults
    (script : Script)
    (mechanisms : List Mechanism) : List Fault :=
  match mechanisms.find?
      (fun m => (script.auth m).endsLogin) with
  | none => [.authRefused]
  | some m =>
      need (script.auth m = .code 235)
        (.auth (script.auth m))

def loginFaults (script : Script) : List Fault :=
  if (offered script).isEmpty then
    [.noMechanism]
  else
    mechanismFaults script (offered script)

/- The recipients end with this reply: 421 or no code. -/
def Reply.endsRcpts (reply : Reply) : Bool :=
  reply = .code 421 || reply.replyCode.isNone

/- The codes of the refusals among some replies. -/
def refusedCodes (replies : List Reply) : List Nat :=
  (replies.filter fun r => !r.isAccepted).filterMap
    Reply.replyCode

/- The replies that are read, up to one that ends. -/
def askedReplies (replies : List Reply) : List Reply :=
  (replies.takeWhile fun r => !r.endsRcpts) ++
    (replies.find? Reply.endsRcpts).toList

/- A reply without a code decides alone. -/
def lostFaults (replies : List Reply) : List Fault :=
  match replies.find? Reply.endsRcpts with
  | some r => need r.replyCode.isSome (.rcpt r)
  | none => []

/- No 421, and a recipient taken: else all refusals decide. -/
def refusedFaults (replies : List Reply) : List Fault :=
  need
    (!(replies.find? Reply.endsRcpts).isSome &&
      replies.any Reply.isAccepted)
    (.refused (refusedCodes (askedReplies replies)))

/- The replies to `count` recipients from the `i`th on. -/
def rcptReplies
    (script : Script)
    (i count : Nat) : List Reply :=
  (List.range' i count).map script.rcpt

/- A step that needs the code. -/
def wants (code : Nat) (reply : Reply) : List Fault :=
  need (reply = .code code) (.reply reply)

/- What is wrong from STARTTLS to the end of the data. -/
def transactionFaults
    (config : SmtpConfig)
    (script : Script)
    (count : Nat) : List Fault :=
  starttlsFaults config script ++
    (need config.tls .cleartext ++
    (loginFaults script ++
    (wants 250 script.mail ++
    (lostFaults (rcptReplies script 0 count) ++
    (refusedFaults (rcptReplies script 0 count) ++
    (wants 354 script.data ++
    wants 250 script.dataEnd))))))

/- Everything that is wrong, in the order of a session. -/
def faults
    (config : SmtpConfig)
    (script : Script)
    (envelope : List Str) : List Fault :=
  need (recipientsOf envelope).isSome .address ++
    (connectFaults script ++
    (need script.ehlo.isPositive (.ehlo script.ehlo) ++
    transactionFaults config script envelope.length))

/- The refused recipients of a session that goes through. -/
def refusedBy
    (envelope : List Str)
    (replies : List Reply) : List Refusal :=
  (envelope.zip replies).filterMap fun p =>
    if p.2.isAccepted then
      none
    else
      some { address := p.1, code := p.2.replyCode }

end Smtp

end MailgunRelay

------------------------------------------------------------
-- Single Steps
------------------------------------------------------------

namespace MailgunRelay

namespace Smtp

@[simp] theorem need_true (fault : Fault) :
    need true fault = [] := rfl

@[simp] theorem need_false (fault : Fault) :
    need false fault = [fault] := rfl

/- A step of the relay, judged by faults. -/
abbrev Decided
    {α : Type}
    (config : SmtpConfig)
    (list : List Fault)
    (P : α → Wire → Prop)
    (m : Step α)
    (w : Wire) : Prop :=
  Lib.Judged (Fault.failure config.tls) id list P m w

/- lettre's positive replies. -/
theorem Reply.isPositive_iff
    (reply : Reply) :
    reply.isPositive = true ↔
      ∃ n, reply.result = .ok n := by
  cases reply with
  | code n =>
      simp only [Reply.isPositive, Reply.result,
        decide_eq_true_eq]
      by_cases hParses : ParsesCode n
      · rw [if_pos hParses, and_iff_right hParses]
        by_cases hPositive : n < 400 <;> simp [hPositive]
      · rw [if_neg hParses]
        simp only [hParses, false_and, reduceCtorEq,
          exists_false]
  | garbled => simp [Reply.isPositive, Reply.result]
  | timeout => simp [Reply.isPositive, Reply.result]
  | lost => simp [Reply.isPositive, Reply.result]

theorem Reply.isPositive_of_ok
    {reply : Reply}
    {n : Nat}
    (hResult : reply.result = .ok n) :
    reply.isPositive = true :=
  reply.isPositive_iff.mpr ⟨n, hResult⟩

theorem Reply.isPositive_of_error
    {reply : Reply}
    {e : Error}
    (hResult : reply.result = .error e) :
    reply.isPositive = false := by
  rw [Bool.eq_false_iff]
  intro hPositive
  rcases reply.isPositive_iff.mp hPositive with ⟨n, hOk⟩
  rw [hResult] at hOk
  simp at hOk

/- The code of an error is the code of its reply. -/
theorem Reply.replyCode_of_error
    {reply : Reply}
    {e : Error}
    (hResult : reply.result = .error e) :
    reply.replyCode = e.status := by
  simp [Reply.replyCode, hResult]

/- A reply is no refusal of lettre's own. -/
theorem Reply.isClient_of_error
    {reply : Reply}
    {e : Error}
    (hResult : reply.result = .error e) :
    e.isClient = false := by
  unfold Reply.result at hResult
  split at hResult
  · split at hResult
    · split at hResult <;> cases hResult
      rfl
    · cases hResult
      rfl
  all_goals
    cases hResult
    rfl

/- The relay blames a negative reply by its code. -/
theorem failure_of_error
    (tls : Bool)
    {reply : Reply}
    {e : Error}
    (hResult : reply.result = .error e) :
    failure e = (Fault.reply reply).failure tls := by
  have hCode := Reply.replyCode_of_error hResult
  have hClient := Reply.isClient_of_error hResult
  simp only [Fault.failure, Fault.category,
    Fault.isTemporary, Fault.leavesOpen, failure, byCode,
    hCode]
  cases e.status with
  | none => simp [hClient]
  | some n => simp [isTransient]

/- A positive reply is no reason to try again. -/
theorem failure_of_positive
    (tls : Bool)
    {reply : Reply}
    {n : Nat}
    (hResult : reply.result = .ok n) :
    (Fault.reply reply).failure tls =
      { error := .permanent, isOpen := true } := by
  have hReply := (reply.result_eq_ok_iff n).mp hResult
  have hCode : reply.replyCode = some n := by
    simp [Reply.replyCode, hResult]
  have hLow : isTransient n = false := by
    simp only [isTransient, Bool.and_eq_false_iff,
      decide_eq_false_iff_not]
    omega
  have hOpen : n ≠ 421 := by omega
  simp [Fault.failure, Fault.category, Fault.isTemporary,
    Fault.leavesOpen, hCode, hLow, hOpen]

/- An exchange that needs one code. -/
theorem exchange_judged
    (config : SmtpConfig)
    (cmd : Command)
    (reply : Reply)
    (code : Nat)
    (hCode : ParsesCode code ∧ code < 400)
    (w : Wire) :
    Decided config (wants code reply)
      (fun _ w' => w' = (w.command cmd reply).2)
      (exchange cmd reply [code]) w := by
  unfold Decided Lib.Judged exchange
  rw [Lib.wp_bind, Lib.wp_attempt, Wire.command_result]
  cases hResult : reply.result with
  | ok n =>
      have hReply := (reply.result_eq_ok_iff n).mp hResult
      by_cases hn : n = code
      · subst hn
        simp [require, wants, hReply.1]
      · have hNot : reply ≠ .code code := by
          rw [hReply.1]
          simpa using hn
        simp [require, wants, hn, hNot,
          failure_of_positive _ hResult]
  | error e =>
      have hNot : reply ≠ .code code := by
        intro hEq
        have hOk :=
          (reply.result_eq_ok_iff code).mpr ⟨hEq, hCode⟩
        rw [hResult] at hOk
        simp at hOk
      simp [wants, hNot,
        failure_of_error config.tls hResult]

end Smtp

end MailgunRelay

------------------------------------------------------------
-- STARTTLS And Login
------------------------------------------------------------

namespace MailgunRelay

namespace Smtp

/- STARTTLS, if configured, leads to an encrypted channel. -/
theorem upgrade_judged
    (config : SmtpConfig)
    (script : Script)
    {w : Wire}
    (hPlain : w.encrypted = false)
    (hInfo : w.serverInfo = script.ehloInfo) :
    Decided config (starttlsFaults config script)
      (fun _ w' =>
        w'.encrypted = config.tls ∧
          (config.tls = true →
            w'.serverInfo = script.ehloTlsInfo))
      (upgrade config script) w := by
  unfold Decided Lib.Judged upgrade starttlsFaults
  by_cases hTls : config.tls = true
  · simp only [hTls, if_true, Lib.wp_bind, Lib.wp_attempt]
    by_cases hOffer : script.ehloInfo.starttls = true
    · cases hReply : script.starttls.result with
      | error e =>
          have hNot := Reply.isPositive_of_error hReply
          simp [Wire.starttls, hInfo, hOffer, Wire.command,
            hReply, hPlain, hNot,
            failure_of_error true hReply]
      | ok n =>
          have hYes := Reply.isPositive_of_ok hReply
          by_cases hShake : script.handshake = true
          · cases hAgain : script.ehloTls.result with
            | error e =>
                have hNot := Reply.isPositive_of_error hAgain
                simp [Wire.starttls, hInfo, hOffer,
                  Wire.command, hReply, hYes, hShake,
                  Wire.ehlo, hAgain, hNot, Fault.failure, Fault.category,
                  Fault.isTemporary, Fault.leavesOpen]
            | ok k =>
                have hOk := Reply.isPositive_of_ok hAgain
                simp [Wire.starttls, hInfo, hOffer,
                  Wire.command, hReply, hYes, hShake,
                  Wire.ehlo, hAgain, hOk]
          · simp [Wire.starttls, hInfo, hOffer, Wire.command,
              hReply, hYes, hShake, hPlain, failure,
              Error.status, Fault.failure, Fault.category,
              Fault.isTemporary, Fault.leavesOpen, Error.isClient]
    · simp [Wire.starttls, hInfo, hOffer, hPlain, failure,
        Error.status, Error.isClient, Fault.failure,
        Fault.category, Fault.isTemporary, Fault.leavesOpen]
  · simp [hTls, hPlain]

/- Without encryption the credentials stay here. -/
theorem requireEncrypted_judged
    (config : SmtpConfig)
    {w : Wire}
    (hEncrypted : w.encrypted = config.tls) :
    Decided config (need config.tls .cleartext)
      (fun _ w' => w' = w ∧ config.tls = true)
      requireEncrypted w := by
  unfold Decided Lib.Judged requireEncrypted
  by_cases hTls : config.tls = true
  · simp [hEncrypted, hTls]
  · simp [hEncrypted, hTls, Fault.failure, Fault.category,
      Fault.isTemporary, Fault.leavesOpen]

/- With a code, only 235, 421 and 334 end a login. -/
theorem Reply.endsLogin_of_code
    {reply : Reply}
    {n : Nat}
    (hCode : reply.replyCode = some n) :
    reply.endsLogin =
      (decide (n = 235) || decide (n = 421) ||
        decide (n = 334)) := by
  have hReply := (reply.replyCode_eq_some_iff n).mp hCode
  simp only [Reply.endsLogin, hCode, Option.isNone_some,
    Bool.or_false]
  simp [hReply.1]

/- An `AUTH` that does not end the login was refused. -/
theorem mechanismFaults_cons
    (script : Script)
    (mechanism : Mechanism)
    (rest : List Mechanism) :
    mechanismFaults script (mechanism :: rest) =
      if (script.auth mechanism).endsLogin then
        need (script.auth mechanism = .code 235)
          (.auth (script.auth mechanism))
      else
        mechanismFaults script rest := by
  unfold mechanismFaults
  by_cases hEnds : (script.auth mechanism).endsLogin = true
  · simp [hEnds]
  · simp [hEnds]

/-
  The mechanisms are tried until one decides.  The induction
  is over the mechanisms that are left.
-/
theorem tryMechanisms_judged
    (config : SmtpConfig)
    (script : Script)
    (mechanisms : List Mechanism)
    {w : Wire}
    (hOffered : ∀ m ∈ mechanisms,
      w.serverInfo.supportsAuthMechanism m = true) :
    Decided config (mechanismFaults script mechanisms)
      (fun _ _ => True)
      (tryMechanisms config script mechanisms) w := by
  induction mechanisms generalizing w with
  | nil =>
      simp [Decided, Lib.Judged, tryMechanisms,
        mechanismFaults, Fault.failure, Fault.category,
                Fault.isTemporary, Fault.leavesOpen]
  | cons mechanism rest ih =>
      have hThis :=
        hOffered mechanism List.mem_cons_self
      have hRest :
          Decided config (mechanismFaults script rest)
            (fun _ _ => True)
            (tryMechanisms config script rest)
            (w.command (.auth mechanism config.credentials)
              (script.auth mechanism)).2 :=
        ih fun m hm =>
          hOffered m (List.mem_cons_of_mem _ hm)
      rw [mechanismFaults_cons]
      unfold Decided Lib.Judged at hRest ⊢
      simp only [tryMechanisms, Lib.wp_bind, Lib.wp_attempt,
        Wire.auth, hThis, if_true]
      cases hReply : (script.auth mechanism).result with
      | ok n =>
          have hIs := (Reply.result_eq_ok_iff _ n).mp hReply
          have hEnds :=
            Reply.endsLogin_of_code
              (show (script.auth mechanism).replyCode =
                some n by simp [Reply.replyCode, hReply])
          simp only [Wire.command, hReply]
          by_cases hEndless : n = 334
          · subst hEndless
            have hNot :
                script.auth mechanism ≠ .code 235 := by
              simp [hIs.1]
            simp [hEnds, Error.status, Error.isClient,
              failure, hNot, Fault.failure, Fault.category,
              Fault.isTemporary, Fault.leavesOpen]
          · by_cases hIn : n = 235
            · subst hIn
              simp [hEnds, decide_eq_true hIs.1]
            · have hGoesOn :
                  (script.auth mechanism).endsLogin =
                    false := by
                have hLow : n ≠ 421 := by omega
                simp [hEnds, hIn, hEndless, hLow]
              simp only [hEndless, hIn, if_false, hGoesOn]
              exact hRest
      | error e =>
          have hCode := Reply.replyCode_of_error hReply
          have hNot :
              script.auth mechanism ≠ .code 235 := by
            intro hEq
            have hOk :=
              (Reply.result_eq_ok_iff _ 235).mpr
                ⟨hEq, by omega⟩
            rw [hReply] at hOk
            simp at hOk
          simp only [Wire.command, hReply]
          cases hStatus : e.status with
          | none =>
              have hEnds :
                  (script.auth mechanism).endsLogin =
                    true := by
                simp [Reply.endsLogin, hCode, hStatus]
              have hClient := Reply.isClient_of_error hReply
              simp [hEnds, hNot, failure, hStatus, hClient,
                Fault.failure, Fault.category,
                Fault.isTemporary, Fault.leavesOpen]
          | some n =>
              have hIs :=
                Reply.eq_of_result_status hReply hStatus
              have hEnds :=
                Reply.endsLogin_of_code
                  (hCode.trans hStatus)
              by_cases hClosed : n = 421
              · subst hClosed
                simp [hEnds, hNot, failure, hStatus, byCode,
                  Fault.failure, Fault.category,
                Fault.isTemporary, Fault.leavesOpen]
              · have hGoesOn :
                    (script.auth mechanism).endsLogin =
                      false := by
                  have hIn : n ≠ 235 := by omega
                  have hEndless : n ≠ 334 := by omega
                  simp [hEnds, hIn, hEndless, hClosed]
                simp only [hGoesOn, Option.all_some, hClosed,
                  beq_iff_eq, if_false, Bool.false_eq_true]
                exact hRest

/- The login on an encrypted channel. -/
theorem login_judged
    (config : SmtpConfig)
    (script : Script)
    {w : Wire}
    (hInfo : w.serverInfo = script.ehloTlsInfo) :
    Decided config (loginFaults script)
      (fun _ _ => True)
      (login config script) w := by
  have hTry :=
    tryMechanisms_judged config script (offered script)
      (w := w) (by
        intro m hm
        rw [hInfo]
        exact (List.mem_filter.mp hm).2)
  unfold Decided Lib.Judged at hTry ⊢
  unfold login loginFaults
  rw [Lib.wp_bind, Lib.wp_get]
  simp only [hInfo]
  show Lib.Wp (if (offered script).isEmpty = true then _ else _)
    _ _ _
  by_cases hNone : (offered script).isEmpty = true
  · simp [hNone, Fault.failure, Fault.category,
                Fault.isTemporary, Fault.leavesOpen]
  · simp only [hNone]
    exact hTry

end Smtp

end MailgunRelay

------------------------------------------------------------
-- Recipients
------------------------------------------------------------

namespace MailgunRelay

namespace Smtp

/- The next reply is that of the next recipient. -/
theorem rcptReplies_succ
    (script : Script)
    (i count : Nat) :
    rcptReplies script i (count + 1) =
      script.rcpt i :: rcptReplies script (i + 1) count := by
  simp [rcptReplies, List.range'_succ]

theorem askedReplies_cons
    (reply : Reply)
    (rest : List Reply) :
    askedReplies (reply :: rest) =
      if reply.endsRcpts then
        [reply]
      else
        reply :: askedReplies rest := by
  by_cases hEnds : reply.endsRcpts = true <;>
    simp [askedReplies, hEnds]

theorem lostFaults_cons
    (reply : Reply)
    (rest : List Reply) :
    lostFaults (reply :: rest) =
      if reply.endsRcpts then
        need reply.replyCode.isSome (.rcpt reply)
      else
        lostFaults rest := by
  by_cases hEnds : reply.endsRcpts = true <;>
    simp [lostFaults, hEnds]

/- At most all replies are read. -/
theorem askedReplies_length_le
    (replies : List Reply) :
    (askedReplies replies).length ≤ replies.length := by
  induction replies with
  | nil => simp [askedReplies]
  | cons reply rest ih =>
      rw [askedReplies_cons]
      split
      · simp
      · simpa using ih

/- Without an end all replies are read. -/
theorem askedReplies_of_open
    {replies : List Reply}
    (hOpen : replies.find? Reply.endsRcpts = none) :
    askedReplies replies = replies := by
  induction replies with
  | nil => rfl
  | cons reply rest ih =>
      rw [List.find?_cons] at hOpen
      split at hOpen
      · simp at hOpen
      · rename_i hEnds
        simp [askedReplies_cons, hEnds, ih hOpen]

/- A refusal is temporary by the code of its reply. -/
theorem refusedBy_any_isTemporary
    (replies : List Reply)
    (raws : List Str)
    (hLength : replies.length ≤ raws.length) :
    (refusedBy raws replies).any Refusal.isTemporary =
      (refusedCodes replies).any isTransient := by
  induction replies generalizing raws with
  | nil => simp [refusedBy, refusedCodes]
  | cons reply rest ih =>
      cases raws with
      | nil => simp at hLength
      | cons raw raws =>
          have hRest :=
            ih raws (by simpa using hLength)
          by_cases hAccepted : reply.isAccepted = true
          · have hSame :
                refusedBy (raw :: raws) (reply :: rest) =
                  refusedBy raws rest := by
              simp [refusedBy, hAccepted]
            rw [hSame, hRest]
            simp [refusedCodes, hAccepted]
          · have hMore :
                refusedBy (raw :: raws) (reply :: rest) =
                  { address := raw, code := reply.replyCode } ::
                    refusedBy raws rest := by
              simp [refusedBy, hAccepted]
            rw [hMore, List.any_cons, hRest]
            cases hCode : reply.replyCode with
            | none =>
                simp [refusedCodes, hAccepted, hCode,
                  Refusal.isTemporary]
            | some n =>
                simp [refusedCodes, hAccepted, hCode,
                  Refusal.isTemporary, isTransient]

/- What the counters of the loop say about the replies. -/
structure Counted
    (raws : List Str)
    (replies : List Reply)
    (acc acc' : Rcpts) : Prop where
  refused :
    acc'.refused =
      acc.refused ++ refusedBy raws (askedReplies replies)
  accepted :
    0 < acc'.accepted ↔
      0 < acc.accepted ∨
        (askedReplies replies).any Reply.isAccepted = true
  closed :
    acc'.closed =
      (acc.closed ||
        (replies.find? Reply.endsRcpts).isSome)

/- One reply before the others that does not end the loop. -/
theorem Counted.cons
    {raw : Str}
    {reply : Reply}
    {raws : List Str}
    {replies : List Reply}
    {acc acc₁ acc' : Rcpts}
    (hRest : Counted raws replies acc₁ acc')
    (hGoesOn : reply.endsRcpts = false)
    (hRefused :
      acc₁.refused = acc.refused ++ refusedBy [raw] [reply])
    (hAccepted :
      0 < acc₁.accepted ↔
        0 < acc.accepted ∨ reply.isAccepted = true)
    (hClosed : acc₁.closed = acc.closed) :
    Counted (raw :: raws) (reply :: replies) acc acc' := by
  refine ⟨?_, ?_, ?_⟩
  · rw [hRest.refused, hRefused, askedReplies_cons, hGoesOn,
      List.append_assoc]
    congr 1
    by_cases hIs : reply.isAccepted = true <;>
      simp [refusedBy, hIs]
  · rw [hRest.accepted, hAccepted, askedReplies_cons,
      hGoesOn]
    simp [or_assoc]
  · rw [hRest.closed, hClosed, List.find?_cons, hGoesOn]

/-
  The loop stops at a reply without a code and counts the
  others.  The induction is over the recipients to ask.
-/
theorem rcptTo_judged
    (config : SmtpConfig)
    (script : Script)
    (i : Nat)
    (recipients : List (Address × Str))
    (acc : Rcpts)
    (w : Wire) :
    Decided config
      (lostFaults (rcptReplies script i recipients.length))
      (fun acc' _ =>
        Counted (recipients.map Prod.snd)
          (rcptReplies script i recipients.length) acc acc')
      (rcptTo script i recipients acc) w := by
  induction recipients generalizing i acc w with
  | nil =>
      refine ⟨rfl, ?_, ?_, ?_⟩ <;>
        simp [refusedBy, rcptReplies, askedReplies]
  | cons recipient rest ih =>
      rcases recipient with ⟨address, raw⟩
      simp only [List.length_cons, List.map_cons,
        rcptReplies_succ]
      unfold Decided Lib.Judged at ih ⊢
      rw [wp_rcptTo_cons, lostFaults_cons]
      cases hCode : (script.rcpt i).replyCode with
      | none =>
          have hEnds : (script.rcpt i).endsRcpts = true := by
            simp [Reply.endsRcpts, hCode]
          simp [hEnds, Fault.failure, Fault.category,
                Fault.isTemporary, Fault.leavesOpen]
      | some n =>
          have hReply :=
            (Reply.replyCode_eq_some_iff _ n).mp hCode
          have hEnds :
              (script.rcpt i).endsRcpts =
                decide (n = 421) := by
            simp only [Reply.endsRcpts, hCode,
              Option.isNone_some, Bool.or_false]
            simp [hReply.1]
          have hIs :
              (script.rcpt i).isAccepted =
                decide (n = 250 ∨ n = 251) := by
            simp [Reply.isAccepted, hReply.1]
          simp only
          by_cases hAccepted : n = 250 ∨ n = 251
          · have hGoesOn :
                (script.rcpt i).endsRcpts = false := by
              rw [hEnds]
              simp
              omega
            simp only [hAccepted, if_true, hGoesOn]
            refine (ih (i + 1) _ _).mono ?_ (fun _ _ h => h)
            rintro acc' w' ⟨hNone, hCounted⟩
            refine ⟨hNone, hCounted.cons hGoesOn ?_ ?_ rfl⟩
            · simp [refusedBy, hIs, hAccepted]
            · simp [hIs, hAccepted]
          · have hRefused :
                refusedBy [raw] [script.rcpt i] =
                  [{ address := raw, code := some n }] := by
              simp [refusedBy, hIs, hAccepted, hCode]
            simp only [hAccepted, if_false]
            by_cases hClosed : n = 421
            · subst hClosed
              have hStop :
                  (script.rcpt i).endsRcpts = true := by
                simp [hEnds]
              simp only [if_true, hStop, Option.isSome_some,
                need_true]
              refine ⟨trivial, ?_, ?_, ?_⟩
              · rw [askedReplies_cons, if_pos hStop]
                simp [refusedBy, hIs, hCode]
              · rw [askedReplies_cons, if_pos hStop]
                simp [hIs]
              · simp [hStop]
            · have hGoesOn :
                  (script.rcpt i).endsRcpts = false := by
                rw [hEnds]
                simpa using hClosed
              simp only [hClosed, if_false, hGoesOn]
              refine
                (ih (i + 1) _ _).mono ?_ (fun _ _ h => h)
              rintro acc' w' ⟨hNone, hCounted⟩
              refine ⟨hNone, hCounted.cons hGoesOn ?_ ?_ rfl⟩
              · simp [hRefused]
              · simp [hIs, hAccepted]

end Smtp

end MailgunRelay

------------------------------------------------------------
-- Sessions
------------------------------------------------------------

namespace MailgunRelay

namespace Smtp

/- Among the refusals is a 421 if one closed the channel. -/
theorem contains_refusedCodes
    {replies : List Reply}
    (hLost : lostFaults replies = []) :
    (refusedCodes (askedReplies replies)).contains 421 =
      (replies.find? Reply.endsRcpts).isSome := by
  unfold lostFaults at hLost
  cases hEnd : replies.find? Reply.endsRcpts with
  | some r =>
      simp only [hEnd] at hLost
      have hEnds := List.find?_some hEnd
      have hIs : r = .code 421 := by
        cases hCode : r.replyCode with
        | none => simp [hCode] at hLost
        | some n =>
            simpa [Reply.endsRcpts, hCode] using hEnds
      have hRefused : r.isAccepted = false := by
        simp [Reply.isAccepted, hIs]
      have hCode : r.replyCode = some 421 :=
        (r.replyCode_eq_some_iff 421).mpr ⟨hIs, by decide⟩
      have hAsked : r ∈ askedReplies replies := by
        simp [askedReplies, hEnd]
      rw [Option.isSome_some, List.contains_iff_mem]
      refine List.mem_filterMap.mpr ⟨r, ?_, hCode⟩
      exact List.mem_filter.mpr ⟨hAsked, by simp [hRefused]⟩
  | none =>
      rw [askedReplies_of_open hEnd, Option.isSome_none,
        List.contains_eq_mem, decide_eq_false_iff_not]
      intro hMem
      simp only [refusedCodes, List.mem_filterMap,
        List.mem_filter] at hMem
      rcases hMem with ⟨r, ⟨hReply, -⟩, hCode⟩
      have hIs := (Reply.replyCode_eq_some_iff r _).mp hCode
      have hNot := List.find?_eq_none.mp hEnd r hReply
      exact hNot (by simp [Reply.endsRcpts, hIs.1])

/- A closed channel or no recipient taken: the refusals. -/
theorem requireAccepted_judged
    (config : SmtpConfig)
    {raws : List Str}
    {replies : List Reply}
    {rcpts : Rcpts}
    (hLength : replies.length ≤ raws.length)
    (hLost : lostFaults replies = [])
    (hCounted :
      Counted raws replies
        { accepted := 0, refused := [], closed := false }
        rcpts)
    (w : Wire) :
    Decided config (refusedFaults replies)
      (fun _ _ =>
        rcpts.refused = refusedBy raws replies)
      (requireAccepted rcpts) w := by
  have hTemporary :
      rcpts.refused.any Refusal.isTemporary =
        (refusedCodes (askedReplies replies)).any
          isTransient := by
    rw [hCounted.refused, List.nil_append]
    apply refusedBy_any_isTemporary
    have := askedReplies_length_le replies
    omega
  have hTaken := hCounted.accepted
  have hClosed := hCounted.closed
  simp only [Nat.lt_irrefl, false_or] at hTaken
  rw [Bool.false_or] at hClosed
  have hFail :
      Decided config
        [.refused (refusedCodes (askedReplies replies))]
        (fun _ _ =>
          rcpts.refused = refusedBy raws replies)
        (throw
          { error :=
              if rcpts.refused.any Refusal.isTemporary then
                .temporary
              else
                .permanent
            isOpen := !rcpts.closed } : Step Unit) w := by
    simp only [Decided, Lib.Judged, Lib.wp_throw,
      List.head?_cons, Option.map_some, Fault.failure,
      Fault.category, Fault.isTemporary, Fault.leavesOpen,
      contains_refusedCodes hLost, hClosed, hTemporary]
    rfl
  unfold requireAccepted refusedFaults
  cases hEnd : replies.find? Reply.endsRcpts with
  | some r =>
      simp only [hEnd, Option.isSome_some] at hClosed
      simp only [hClosed, or_true, if_true,
        Option.isSome_some, Bool.not_true, Bool.false_and,
        need_false]
      rw [hClosed] at hFail
      exact hFail
  | none =>
      have hAll := askedReplies_of_open hEnd
      simp only [hEnd, Option.isSome_none] at hClosed
      rw [hAll] at hTaken hFail ⊢
      by_cases hNone : rcpts.accepted = 0
      · have hNobody :
            replies.any Reply.isAccepted = false := by
          rw [Bool.eq_false_iff]
          intro hAny
          have := hTaken.mpr hAny
          omega
        simp only [hNone, true_or, if_true, hNobody,
          Bool.and_false, need_false]
        exact hFail
      · have hSome :
            replies.any Reply.isAccepted = true :=
          hTaken.mp (by omega)
        simp only [hNone, hClosed, false_or,
          Bool.false_eq_true, if_false, hSome,
          Option.isSome_none, Bool.not_false, Bool.and_true,
          need_true]
        refine Lib.Judged.pure ?_
        rw [hCounted.refused, List.nil_append, hAll]

/- The transaction stage by stage. -/
theorem transaction_judged
    (config : SmtpConfig)
    (script : Script)
    (recipients : List (Address × Str))
    (message : BuiltMessage)
    {w : Wire}
    (hPlain : w.encrypted = false)
    (hInfo : w.serverInfo = script.ehloInfo) :
    Decided config
      (transactionFaults config script recipients.length)
      (fun refused _ =>
        refused =
          refusedBy (recipients.map Prod.snd)
            (rcptReplies script 0 recipients.length))
      (transaction config script recipients message) w := by
  unfold Decided transactionFaults transaction
  refine (upgrade_judged config script hPlain hInfo).bind ?_
  rintro _ w₁ ⟨hEncrypted, hInfo₁⟩
  refine (requireEncrypted_judged config hEncrypted).bind ?_
  rintro _ w₂ ⟨rfl, hTls⟩
  refine (login_judged config script (hInfo₁ hTls)).bind ?_
  intro _ w₃ _
  refine (exchange_judged config _ script.mail 250
    (by omega) w₃).bind ?_
  intro _ w₄ _
  refine (rcptTo_judged config script 0 recipients _
    w₄).known.bind ?_
  rintro rcpts w₅ ⟨hLost, hCounted⟩
  refine (requireAccepted_judged config
    (by simp [rcptReplies]) hLost hCounted w₅).bind ?_
  intro _ w₆ hRefused
  refine (exchange_judged config _ script.data 354
    (by omega) w₆).bind ?_
  intro _ w₇ _
  rw [← List.append_nil (wants 250 script.dataEnd)]
  refine (exchange_judged config _ script.dataEnd 250
    (by omega) w₇).bind ?_
  intro _ w₈ _
  exact Lib.Judged.pure hRefused

/- The cleanup does not touch the outcome. -/
theorem finish_outcome
    (script : Script)
    (result : EStateM.Result Failure Wire (List Refusal)) :
    (finish script result).outcome =
      Lib.exitOf Failure.error result := by
  cases result <;> rfl

/-
  A session fails exactly when something is wrong, with the
  category of what is wrong first.
-/
theorem session_judged
    (config : SmtpConfig)
    (script : Script)
    (message : BuiltMessage) :
    (session config script message).outcome =
      Lib.judgement (Fault.category config.tls)
        (faults config script message.envelope)
        (refusedBy message.envelope
          (rcptReplies script 0 message.envelope.length)) := by
  unfold session faults connectFaults
  cases hRecipients : recipientsOf message.envelope with
  | none =>
      simp [Lib.judgement, Fault.category, Fault.isTemporary]
  | some recipients =>
      have hRaws := (recipientsOf_spec hRecipients).1
      by_cases hConnect : script.connect = true
      · simp only [hConnect, Bool.not_true,
          Bool.false_eq_true, if_false, Option.isSome_some,
          need_true, List.nil_append]
        unfold Wire.connectWithTransport
        cases hBanner : script.banner.result with
        | error e =>
            have hNot := Reply.isPositive_of_error hBanner
            simp [Wire.opened, hNot, Lib.judgement,
              failure_of_error config.tls hBanner,
              Fault.failure]
        | ok n =>
            have hYes := Reply.isPositive_of_ok hBanner
            simp only [Wire.ehlo, Wire.command, hYes,
              need_true, List.nil_append]
            cases hEhlo : script.ehlo.result with
            | error e =>
                have hNot := Reply.isPositive_of_error hEhlo
                have hCode := Reply.replyCode_of_error hEhlo
                simp only [hNot, need_false, if_true,
                  Lib.judgement, List.cons_append,
                  List.nil_append, List.head?_cons,
                  ehloFailure, Fault.category,
                  Fault.isTemporary, hCode]
                cases hStatus : e.status with
                | none => simp
                | some k => simp
            | ok k =>
                have hOk := Reply.isPositive_of_ok hEhlo
                simp only [hOk, need_true, List.nil_append]
                rw [finish_outcome, ← hRaws, List.length_map]
                refine ((transaction_judged config script
                  recipients message ?_ ?_).map
                    Failure.error).verdict ?_
                · rfl
                · rfl
                · exact fun _ _ h => h
      · simp [hConnect, Lib.judgement, Fault.category,
          Fault.isTemporary]

end Smtp

end MailgunRelay
