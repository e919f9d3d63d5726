import Mathlib.Data.List.Forall2
import Mathlib.Data.List.Nodup

/-
  Association lists as insertion-ordered maps.

  Setting a key that is there replaces its value in place;
  a new key goes to the end.

  Key definitions include:
    * `Lib.Assoc.set`
    * `Lib.Assoc.keys`
    * `Lib.Assoc.LastWith`

  Key theorems include:
    * `Lib.Assoc.set_of_not_mem`
    * `Lib.Assoc.find?_rel`
    * `Lib.Assoc.LastWith.left`
-/

------------------------------------------------------------
-- Ordered Maps
------------------------------------------------------------

namespace Lib

namespace Assoc

variable {κ ν : Type} [DecidableEq κ]

/- Replace the value of a key, or add the key at the end. -/
def set
    (key : κ)
    (value : ν) : List (κ × ν) → List (κ × ν)
| [] => [(key, value)]
| (k, v) :: rest =>
    if k = key then
      (k, value) :: rest
    else
      (k, v) :: set key value rest

/- The keys in order. -/
def keys (entries : List (κ × ν)) : List κ :=
  entries.map Prod.fst

/- A new key goes to the end. -/
theorem set_of_not_mem
    {key : κ}
    {entries : List (κ × ν)}
    (value : ν)
    (hNew : key ∉ keys entries) :
    set key value entries = entries ++ [(key, value)] := by
  induction entries with
  | nil => rfl
  | cons entry rest ih =>
      rcases entry with ⟨k, v⟩
      simp only [keys, List.map_cons, List.mem_cons, not_or]
        at hNew
      have hTail := ih hNew.2
      simp [set, Ne.symm hNew.1, hTail]

/- What is looked up is an entry. -/
theorem mem_of_lookup
    {entries : List (κ × ν)}
    {key : κ}
    {value : ν}
    (hLookup : entries.lookup key = some value) :
    (key, value) ∈ entries := by
  rcases List.lookup_eq_some_iff.mp hLookup with
    ⟨before, after, rfl, -⟩
  exact List.mem_append_right _ List.mem_cons_self

/- What is found in corresponding lists corresponds. -/
theorem find?_rel
    {α β : Type}
    {R : α → β → Prop}
    {p : α → Bool}
    {q : β → Bool}
    {as : List α}
    {bs : List β}
    (hLists : List.Forall₂ R as bs)
    (hSame : ∀ a b, R a b → p a = q b) :
    Option.Rel R (as.find? p) (bs.find? q) := by
  induction hLists with
  | nil => exact .none
  | @cons a b as bs hHead hTail ih =>
      rw [List.find?_cons, List.find?_cons, ← hSame a b hHead]
      cases p a with
      | true => exact .some hHead
      | false => exact ih

/- What stands in a list corresponds to something. -/
theorem exists_of_mem_left
    {α β : Type}
    {R : α → β → Prop}
    {as : List α}
    {bs : List β}
    (hPairs : List.Forall₂ R as bs)
    {a : α}
    (hMem : a ∈ as) :
    ∃ b ∈ bs, R a b := by
  induction hPairs with
  | nil => cases hMem
  | cons hFirst hRest ih =>
      rcases List.mem_cons.mp hMem with rfl | hLater
      · exact ⟨_, List.mem_cons_self, hFirst⟩
      · rcases ih hLater with ⟨b, hB, hRelated⟩
        exact ⟨b, List.mem_cons_of_mem _ hB, hRelated⟩

/- And on the other side as well. -/
theorem exists_of_mem_right
    {α β : Type}
    {R : α → β → Prop}
    {as : List α}
    {bs : List β}
    (hPairs : List.Forall₂ R as bs)
    {b : β}
    (hMem : b ∈ bs) :
    ∃ a ∈ as, R a b :=
  exists_of_mem_left hPairs.flip hMem

end Assoc

end Lib

------------------------------------------------------------
-- Last Elements
------------------------------------------------------------

namespace Lib

namespace Assoc

variable {α β : Type}

/- The last element of a list with a property. -/
def LastWith
    (p : α → Prop)
    (as : List α)
    (a : α) : Prop :=
  ∃ before after, as = before ++ a :: after ∧ p a ∧
    ∀ other ∈ after, ¬ p other

/- It corresponds to the last one with the same property. -/
theorem LastWith.left
    {R : α → β → Prop}
    {p : α → Prop}
    {q : β → Prop}
    {as : List α}
    {bs : List β}
    (hPairs : List.Forall₂ R as bs)
    (hSame : ∀ a b, R a b → (p a ↔ q b))
    {b : β}
    (hLast : LastWith q bs b) :
    ∃ a, LastWith p as a ∧ R a b := by
  rcases hLast with ⟨before, after, hList, hB, hAfter⟩
  induction hPairs generalizing before with
  | nil => exact absurd hList (by simp)
  | @cons first first' rest rest' hFirst hRest ih =>
      cases before with
      | nil =>
          rcases List.cons.inj hList with ⟨rfl, rfl⟩
          refine
            ⟨first,
              ⟨[], rest, rfl, (hSame _ _ hFirst).mpr hB, ?_⟩,
              hFirst⟩
          intro other hMem hOther
          rcases exists_of_mem_left hRest hMem with
            ⟨other', hMem', hRelated⟩
          exact
            hAfter other' hMem'
              ((hSame _ _ hRelated).mp hOther)
      | cons c before =>
          rcases ih before (List.cons.inj hList).2 with
            ⟨a, ⟨front, back, rfl, hA, hBack⟩, hRelated⟩
          exact
            ⟨a, ⟨first :: front, back, rfl, hA, hBack⟩,
              hRelated⟩

/- And on the other side as well. -/
theorem LastWith.right
    {R : α → β → Prop}
    {p : α → Prop}
    {q : β → Prop}
    {as : List α}
    {bs : List β}
    (hPairs : List.Forall₂ R as bs)
    (hSame : ∀ a b, R a b → (p a ↔ q b))
    {a : α}
    (hLast : LastWith p as a) :
    ∃ b, LastWith q bs b ∧ R a b :=
  hLast.left hPairs.flip fun b a hRelated =>
    (hSame a b hRelated).symm

end Assoc

end Lib
