import MailgunRelay.Lib.Canonical
import MailgunRelay.Pipeline
import MailgunRelay.Python.Refusals

/-
  The record of a partial refusal: the domains and codes of
  the refusals as a set, in one order.

  Key definitions include:
    * `MailgunRelay.Pipeline.RefusedEntry.key`
    * `MailgunRelay.Pipeline.ShowsDomain`
    * `MailgunRelay.Pipeline.ShowsEntry`

  Key theorems include:
    * `MailgunRelay.Pipeline.refusedEntries_sorted`
    * `MailgunRelay.Pipeline.showsDomain_iff`
    * `MailgunRelay.Pipeline.refusedEntries_of_shows`
    * `MailgunRelay.Pipeline.sortedEntries_drawn`
    * `MailgunRelay.Pipeline.logPartialRefusal_canonical`
-/

------------------------------------------------------------
-- Entries
------------------------------------------------------------

namespace MailgunRelay

namespace Pipeline

/- The key of `sort_by_key`: no code is `-1`. -/
def RefusedEntry.key (entry : RefusedEntry) : Str ×ₗ Int :=
  toLex
    (entry.domain, (entry.code.map Int.ofNat).getD (-1))

/- No code of a reply is `-1`. -/
theorem RefusedEntry.key_injective :
    Function.Injective RefusedEntry.key := by
  intro a b hKey
  have hPair := toLex.injective hKey
  have hDomain : a.domain = b.domain :=
    congrArg Prod.fst hPair
  have hCode :
      (a.code.map Int.ofNat).getD (-1) =
        (b.code.map Int.ofNat).getD (-1) :=
    congrArg Prod.snd hPair
  rcases a with ⟨domain, code⟩
  rcases b with ⟨domain', code'⟩
  dsimp only at hDomain hCode
  subst hDomain
  cases code with
  | none =>
      cases code' with
      | none => rfl
      | some n => cases hCode
  | some m =>
      cases code' with
      | none => cases hCode
      | some n =>
          cases Int.ofNat.inj hCode
          rfl

/- The order of the entries is the order of their keys. -/
theorem RefusedEntry.le_iff_key
    (a b : RefusedEntry) :
    a.le b = true ↔ a.key ≤ b.key := by
  unfold RefusedEntry.le RefusedEntry.key
  rw [Prod.Lex.toLex_le_toLex]
  by_cases hDomain : a.domain = b.domain
  · rw [if_pos hDomain]
    simp only [hDomain, lt_irrefl, true_and, false_or]
    cases a.code with
    | none =>
        cases b.code with
        | none => simp
        | some n => simp
    | some m =>
        cases b.code with
        | none =>
            simp
            omega
        | some n => simp
  · rw [if_neg hDomain, List.lex_eq_true_iff_lt]
    simp [hDomain]

variable [Unicode]

/- The entry of a refusal. -/
def entryOf (refusal : Refusal) : RefusedEntry :=
  { domain := refusedDomain refusal.address
    code := refusal.code }

/- The entries are sorted by their keys, then deduplicated. -/
theorem refusedEntries_eq
    (refused : List Refusal) :
    refusedEntries refused =
      ((refused.map entryOf).mergeSort
        fun a b => a.key ≤ b.key).eraseReps := by
  have hOrder :
      RefusedEntry.le = fun a b : RefusedEntry =>
        Decidable.decide (a.key ≤ b.key) := by
    funext a b
    rw [Bool.eq_iff_iff, a.le_iff_key b, decide_eq_true_iff]
  unfold refusedEntries
  rw [hOrder]
  rfl

/- The entries of a refusal record, as a set. -/
theorem mem_refusedEntries
    {refused : List Refusal}
    {entry : RefusedEntry} :
    entry ∈ refusedEntries refused ↔
      ∃ refusal ∈ refused, entryOf refusal = entry := by
  rw [refusedEntries_eq, Lib.Canonical.mem_eraseReps,
    List.mem_mergeSort, List.mem_map]

/- Each entry is above the one before it. -/
theorem refusedEntries_sorted
    (refused : List Refusal) :
    (refusedEntries refused).Pairwise
      fun a b => a.key < b.key := by
  have : Std.Antisymm
      fun a b : RefusedEntry => a.key ≤ b.key :=
    ⟨fun a b hLe hGe =>
      RefusedEntry.key_injective (le_antisymm hLe hGe)⟩
  rw [refusedEntries_eq]
  have hKept := Lib.Canonical.pairwise_eraseReps
    (Lib.Canonical.pairwise_sorted RefusedEntry.key
      (refused.map entryOf))
  exact hKept.imp fun ⟨hLe, hOther⟩ =>
    lt_of_le_of_ne hLe fun hKey =>
      hOther (RefusedEntry.key_injective hKey)

end Pipeline

end MailgunRelay

------------------------------------------------------------
-- What Is Shown
------------------------------------------------------------

namespace MailgunRelay

namespace Pipeline

variable [Unicode]

/-
  What is shown of an address: the text after its last `@`,
  or `-` if there is none or nothing after it.
-/
inductive ShowsDomain : Str → Str → Prop where
  | domain
      (front domain : Str)
      (hLast : '@' ∉ domain)
      (hNonempty : domain ≠ []) :
      ShowsDomain (front ++ '@' :: domain) (lowercase domain)
  | noAt
      (address : Str)
      (hNone : '@' ∉ address) :
      ShowsDomain address ['-']
  | nothing
      (front : Str) :
      ShowsDomain (front ++ ['@']) ['-']

/- The shown domain is the logged one. -/
theorem showsDomain_iff
    {address shown : Str} :
    ShowsDomain address shown ↔
      refusedDomain address = shown := by
  unfold refusedDomain
  constructor
  · intro hShows
    cases hShows with
    | domain front domain hLast hNonempty =>
        rw [(Lib.Text.rsplitOnce_eq_some_iff '@' _ front
          domain).mpr ⟨rfl, hLast⟩]
        exact if_neg (by simpa using hNonempty)
    | noAt address hNone =>
        rw [(Lib.Text.rsplitOnce_eq_none_iff '@' _).mpr hNone]
    | nothing front =>
        rw [(Lib.Text.rsplitOnce_eq_some_iff '@' _ front
          []).mpr ⟨rfl, List.not_mem_nil⟩]
        rfl
  · rintro rfl
    cases hSplit : Lib.Text.rsplitOnce '@' address with
    | none =>
        exact .noAt address
          ((Lib.Text.rsplitOnce_eq_none_iff '@' address).mp
            hSplit)
    | some parts =>
        rcases parts with ⟨front, domain⟩
        rcases (Lib.Text.rsplitOnce_eq_some_iff ..).mp hSplit
          with ⟨rfl, hLast⟩
        cases domain with
        | nil => exact .nothing front
        | cons c rest =>
            exact .domain front (c :: rest) hLast nofun

/- A refusal shows its domain and its code. -/
structure ShowsEntry
    (refusal : Refusal)
    (entry : RefusedEntry) : Prop where
  domain : ShowsDomain refusal.address entry.domain
  code : entry.code = refusal.code

theorem showsEntry_iff
    {refusal : Refusal}
    {entry : RefusedEntry} :
    ShowsEntry refusal entry ↔ entryOf refusal = entry := by
  constructor
  · rintro ⟨hDomain, hCode⟩
    rcases entry with ⟨domain, code⟩
    dsimp only at hDomain hCode
    unfold entryOf
    rw [showsDomain_iff.mp hDomain, hCode]
  · rintro rfl
    exact ⟨showsDomain_iff.mpr rfl, rfl⟩

/- The entries are what the refusals show. -/
theorem mem_refusedEntries_iff_shows
    {refused : List Refusal}
    {entry : RefusedEntry} :
    entry ∈ refusedEntries refused ↔
      ∃ refusal ∈ refused, ShowsEntry refusal entry := by
  simp only [mem_refusedEntries, showsEntry_iff]

/- The entries are decided by what is shown. -/
theorem refusedEntries_of_shows
    {refused refused' : List Refusal}
    (hSame : ∀ entry,
      (∃ refusal ∈ refused, ShowsEntry refusal entry) ↔
        ∃ refusal ∈ refused', ShowsEntry refusal entry) :
    refusedEntries refused = refusedEntries refused' := by
  apply Lib.Canonical.eq_of_mem_iff
    (refusedEntries_sorted refused)
    (refusedEntries_sorted refused')
  intro entry
  rw [mem_refusedEntries_iff_shows,
    mem_refusedEntries_iff_shows]
  exact hSame entry

end Pipeline

end MailgunRelay

------------------------------------------------------------
-- The Python Record
------------------------------------------------------------

namespace MailgunRelay

namespace Pipeline

variable [Unicode]

/- An entry as Python holds it. -/
def RefusedEntry.toPython
    (entry : RefusedEntry) : Python.Entry :=
  (entry.domain, entry.code.map Int.ofNat)

/- The domain of an address is the same. -/
theorem refusedDomain_python
    (address : Str) :
    Python.refusedDomain address = refusedDomain address := by
  unfold Python.refusedDomain refusedDomain
  cases Lib.Text.rsplitOnce '@' address with
  | none => rfl
  | some parts => rfl

/-
  A refusal dictionary holds a list of refusals: the same
  addresses, with replies of the same codes.
-/
def Holds
    (items : List (Str × Python.Obj))
    (refused : List Refusal) : Prop :=
  items.map (fun item => (item.1, Python.replyCode item.2)) =
    refused.map fun refusal =>
      (refusal.address, refusal.code.map Int.ofNat)

/- Python makes the same entries of it. -/
theorem entriesOf_holds
    {items : List (Str × Python.Obj)}
    {refused : List Refusal}
    (hHolds : Holds items refused) :
    Python.entriesOf items =
      (refused.map entryOf).map RefusedEntry.toPython := by
  have hEntries := congrArg
    (List.map fun pair : Str × Option Int =>
      ((refusedDomain pair.1, pair.2) : Python.Entry)) hHolds
  rw [List.map_map, List.map_map] at hEntries
  unfold Python.entriesOf
  simp only [refusedDomain_python]
  rw [List.map_map]
  exact hEntries

/- However the set is drawn, its sorted list is the same. -/
theorem sortedEntries_drawn
    {items : List (Str × Python.Obj)}
    {refused : List Refusal}
    {drawn : List Python.Entry}
    (hHolds : Holds items refused)
    (hDrawn : Python.Drawn (Python.entriesOf items) drawn) :
    Python.sortedEntries drawn =
      (refusedEntries refused).map RefusedEntry.toPython := by
  have hMem : ∀ entry, entry ∈ drawn ↔
      ∃ refusal ∈ refused,
        (entryOf refusal).toPython = entry := fun entry => by
    rw [hDrawn.all entry, entriesOf_holds hHolds,
      List.map_map, List.mem_map]
    rfl
  have hSorted := Lib.Canonical.pairwise_sorted
    Python.entryKey drawn
  -- The drawn entries differ, and so do their keys.
  have hStrict : (Python.sortedEntries drawn).Pairwise
      fun a b => Python.entryKey a < Python.entryKey b := by
    have hOnce : (Python.sortedEntries drawn).Nodup :=
      (List.mergeSort_perm drawn _).nodup_iff.mpr hDrawn.once
    apply List.Pairwise.imp_of_mem _ (hSorted.and hOnce)
    intro a b hA hB ⟨hLe, hOther⟩
    rcases (hMem a).mp (List.mem_mergeSort.mp hA) with
      ⟨r, -, rfl⟩
    rcases (hMem b).mp (List.mem_mergeSort.mp hB) with
      ⟨r', -, rfl⟩
    apply lt_of_le_of_ne hLe
    intro hKey
    apply hOther
    rw [RefusedEntry.key_injective hKey]
  apply Lib.Canonical.eq_of_mem_iff hStrict
  · exact List.pairwise_map.mpr (refusedEntries_sorted refused)
  · intro entry
    rw [Python.sortedEntries, List.mem_mergeSort, hMem,
      List.mem_map]
    simp only [mem_refusedEntries]
    constructor
    · rintro ⟨refusal, hRefusal, rfl⟩
      exact ⟨_, ⟨refusal, hRefusal, rfl⟩, rfl⟩
    · rintro ⟨_, ⟨refusal, hRefusal, rfl⟩, rfl⟩
      exact ⟨refusal, hRefusal, rfl⟩

end Pipeline

end MailgunRelay

------------------------------------------------------------
-- The Record
------------------------------------------------------------

namespace MailgunRelay

namespace Pipeline

variable [Unicode]

/-
  The entries are strictly sorted by domain and code, and
  they are the domains and codes of the refusals as a set.
  Repetitions and order do not matter; two lists of one
  length that show the same leave the same record.  Python
  lists the same entries, whatever order its set has.
-/
theorem logPartialRefusal_canonical :
    (∀ refused,
      (refusedEntries refused).Pairwise
          (fun a b => a.key < b.key) ∧
        (refusedEntries refused).Nodup ∧
        ∀ entry, entry ∈ refusedEntries refused ↔
          ∃ refusal ∈ refused, ShowsEntry refusal entry) ∧
    (∀ refused refused' : List Refusal,
      (∀ refusal, refusal ∈ refused ↔ refusal ∈ refused') →
        refusedEntries refused = refusedEntries refused') ∧
    (∀ messageId refused refused',
      refused.length = refused'.length →
        (∀ entry,
          (∃ refusal ∈ refused, ShowsEntry refusal entry) ↔
            ∃ refusal ∈ refused', ShowsEntry refusal entry) →
          logPartialRefusal messageId refused =
            logPartialRefusal messageId refused') ∧
    (∀ items refused drawn, Holds items refused →
      Python.Drawn (Python.entriesOf items) drawn →
        Python.sortedEntries drawn =
          (refusedEntries refused).map
            RefusedEntry.toPython) := by
  refine ⟨?_, ?_, ?_, ?_⟩
  · intro refused
    have hSorted := refusedEntries_sorted refused
    refine ⟨hSorted, ?_, fun _ => mem_refusedEntries_iff_shows⟩
    exact hSorted.imp fun hLess hSame => by
      rw [hSame] at hLess
      exact lt_irrefl _ hLess
  · intro refused refused' hSame
    apply refusedEntries_of_shows
    intro entry
    simp only [hSame]
  · intro messageId refused refused' hLength hSame
    unfold logPartialRefusal
    rw [hLength, refusedEntries_of_shows hSame]
  · intro items refused drawn hHolds hDrawn
    exact sortedEntries_drawn hHolds hDrawn

end Pipeline

end MailgunRelay
