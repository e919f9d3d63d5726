import MailgunRelay.Config

/-
  The JSON line logger (`log.rs`): which calls are written.

  Key definitions include:
    * `MailgunRelay.Logger`
    * `MailgunRelay.LogCall`
    * `MailgunRelay.Logger.lines`
-/

------------------------------------------------------------
-- The Logger
------------------------------------------------------------

namespace MailgunRelay

/- A logger writes records from its threshold on. -/
structure Logger where
  threshold : Level

/- A call of `Logger::emit` with the fields of an event. -/
structure LogCall (Event : Type) where
  level : Level
  logger : Str
  event : Event

variable {Event : Type}

/- Whether a call is below the threshold. -/
def Logger.renders
    (logger : Logger)
    (call : LogCall Event) : Bool :=
  !(call.level < logger.threshold)

/- The records that are written, one line each. -/
def Logger.lines
    (logger : Logger)
    (calls : List (LogCall Event)) : List (LogCall Event) :=
  calls.filter logger.renders

end MailgunRelay
