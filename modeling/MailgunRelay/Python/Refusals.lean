import Mathlib.Data.Char
import Mathlib.Data.Int.Order.Basic
import Mathlib.Data.List.Lex
import Mathlib.Data.Prod.Lex
import MailgunRelay.Lib.Text
import MailgunRelay.PyStr

/-
  The record of a partial refusal as the Python route writes
  it (`routes.py`).

  Key definitions include:
    * `MailgunRelay.Python.Obj`
    * `MailgunRelay.Python.refusedDomain`
    * `MailgunRelay.Python.replyCode`
    * `MailgunRelay.Python.Drawn`
    * `MailgunRelay.Python.sortedEntries`
-/

------------------------------------------------------------
-- Replies
------------------------------------------------------------

namespace MailgunRelay

namespace Python

/- What the values of a refusal dictionary may be. -/
inductive Obj where
  | none
  | int (n : Int)
  | str (s : Str)
  | bytes (b : Bytes)
  | tuple (items : List Obj)

/- `_reply_code`. -/
def replyCode : Obj → Option Int
| .tuple (.int n :: _) => some n
| _ => none

variable [Unicode]

/- `_refused_domain`. -/
def refusedDomain (address : Str) : Str :=
  match Lib.Text.rsplitOnce '@' address with
  | none => ['-']
  | some (_, domain) =>
      if domain.isEmpty then ['-'] else lowercase domain

end Python

end MailgunRelay

------------------------------------------------------------
-- Entries
------------------------------------------------------------

namespace MailgunRelay

namespace Python

/- A domain and a code, as the set holds them. -/
abbrev Entry := Str × Option Int

variable [Unicode]

/- The items of the dictionary, in its order. -/
def entriesOf (refused : List (Str × Obj)) : List Entry :=
  refused.map fun item =>
    (refusedDomain item.1, replyCode item.2)

/- A set gives its elements once each, in some order. -/
structure Drawn (entries drawn : List Entry) : Prop where
  once : drawn.Nodup
  all : ∀ entry, entry ∈ drawn ↔ entry ∈ entries

/- The key of `sorted`: no code is `-1`. -/
def entryKey (entry : Entry) : Str ×ₗ Int :=
  toLex (entry.1, entry.2.getD (-1))

/- `sorted`, of a set as it was drawn. -/
def sortedEntries (drawn : List Entry) : List Entry :=
  drawn.mergeSort fun a b => entryKey a ≤ entryKey b

end Python

end MailgunRelay
