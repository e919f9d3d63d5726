import MailgunRelay.Lib.Assoc
import MailgunRelay.Yaml.Builder

/-
  What the builder refuses: aliases to open nodes,
  collections as keys, empty keys, tags, nodes too deep, and
  a second document.  A balanced stream never makes it lose
  track of the open collections.

  Key definitions include:
    * `MailgunRelay.Yaml.Tree.Fault`
    * `MailgunRelay.Yaml.Ahead`

  Key theorems include:
    * `MailgunRelay.Yaml.Tree.load_completes`
    * `MailgunRelay.Yaml.Tree.Fault.not_loaded`
    * `MailgunRelay.Yaml.run_builds`
-/

------------------------------------------------------------
-- What A Load Does
------------------------------------------------------------

namespace MailgunRelay

namespace Yaml

open Secrets (Node)

variable {depth : Nat} {key : Bool}
variable {anchors anchors' : List (Nat × Node)}
variable {node : Node}

theorem load_scalar
    {value : Str}
    {style : ScalarStyle}
    {anchor : Nat}
    {tag : Option Tag}
    {mark : Mark}
    (hLoad :
      Tree.load depth key anchors
          (.scalar value style anchor tag mark) =
        .ok (node, anchors')) :
    ¬ (key = true ∧ value = [] ∧ style = .plain ∧
        tag = none) ∧
      scalarNode value style tag mark = .ok node ∧
      anchors' = register anchors anchor node := by
  rw [Tree.load] at hLoad
  by_cases hEmpty :
      (key && value.isEmpty && decide (style = .plain) &&
        tag.isNone) = true
  · rw [if_pos hEmpty] at hLoad
    cases hLoad
  · rw [if_neg hEmpty] at hLoad
    rcases Lib.bind_eq_ok_iff.mp hLoad with
      ⟨other, hScalar, hRest⟩
    cases hRest
    refine ⟨?_, hScalar, rfl⟩
    rintro ⟨rfl, rfl, rfl, rfl⟩
    exact hEmpty rfl

theorem load_alias
    {id : Nat}
    {mark : Mark}
    (hLoad :
      Tree.load depth key anchors (.alias id mark) =
        .ok (node, anchors')) :
    anchors.lookup id = some node ∧ anchors' = anchors := by
  rw [Tree.load] at hLoad
  cases hLookup : anchors.lookup id with
  | none =>
      rw [hLookup] at hLoad
      cases hLoad
  | some other =>
      rw [hLookup] at hLoad
      cases hLoad
      exact ⟨rfl, rfl⟩

theorem load_seq
    {anchor : Nat}
    {tag : Option Tag}
    {items : List Tree}
    {start stop : Mark}
    (hLoad :
      Tree.load depth key anchors
          (.seq anchor tag items start stop) =
        .ok (node, anchors')) :
    tag = none ∧ depth < maxDepth ∧
      ∃ nodes inner,
        loadItems (depth + 1) anchors items =
            .ok (nodes, inner) ∧
          node = .seq nodes ∧
          anchors' = register inner anchor node := by
  rw [Tree.load] at hLoad
  by_cases hTag : tag.isSome = true
  · rw [if_pos hTag] at hLoad
    cases hLoad
  by_cases hDepth : maxDepth ≤ depth
  · rw [if_neg hTag, if_pos hDepth] at hLoad
    cases hLoad
  rw [if_neg hTag, if_neg hDepth] at hLoad
  rcases Lib.bind_eq_ok_iff.mp hLoad with
    ⟨⟨nodes, inner⟩, hItems, hRest⟩
  cases hRest
  exact
    ⟨by simpa using hTag, by omega, nodes, inner, hItems, rfl,
      rfl⟩

theorem load_map
    {anchor : Nat}
    {tag : Option Tag}
    {entries : List (Tree × Tree)}
    {start stop : Mark}
    (hLoad :
      Tree.load depth key anchors
          (.map anchor tag entries start stop) =
        .ok (node, anchors')) :
    tag = none ∧ depth < maxDepth ∧
      ∃ nodes inner,
        loadEntries (depth + 1) anchors entries =
            .ok (nodes, inner) ∧
          node = .map nodes ∧
          anchors' = register inner anchor node := by
  rw [Tree.load] at hLoad
  by_cases hTag : tag.isSome = true
  · rw [if_pos hTag] at hLoad
    cases hLoad
  by_cases hDepth : maxDepth ≤ depth
  · rw [if_neg hTag, if_pos hDepth] at hLoad
    cases hLoad
  rw [if_neg hTag, if_neg hDepth] at hLoad
  rcases Lib.bind_eq_ok_iff.mp hLoad with
    ⟨⟨nodes, inner⟩, hEntries, hRest⟩
  cases hRest
  exact
    ⟨by simpa using hTag, by omega, nodes, inner, hEntries,
      rfl, rfl⟩

theorem load_item
    {item : Tree}
    {items : List Tree}
    {nodes : List Node}
    (hLoad :
      loadItems depth anchors (item :: items) =
        .ok (nodes, anchors')) :
    ∃ node inner rest,
      item.load depth false anchors = .ok (node, inner) ∧
        loadItems depth inner items = .ok (rest, anchors') := by
  rw [loadItems] at hLoad
  rcases Lib.bind_eq_ok_iff.mp hLoad with
    ⟨⟨node, inner⟩, hItem, hLoad⟩
  rcases Lib.bind_eq_ok_iff.mp hLoad with
    ⟨⟨rest, last⟩, hItems, hRest⟩
  cases hRest
  exact ⟨node, inner, rest, hItem, hItems⟩

theorem load_entry
    {name value : Tree}
    {entries : List (Tree × Tree)}
    {nodes : List (Option Str × Node)}
    (hLoad :
      loadEntries depth anchors ((name, value) :: entries) =
        .ok (nodes, anchors')) :
    ∃ first second between inner rest,
      name.load depth true anchors = .ok (first, between) ∧
        (∃ key, keyOf first = .ok key) ∧
        value.load depth false between = .ok (second, inner) ∧
        loadEntries depth inner entries =
          .ok (rest, anchors') := by
  rw [loadEntries] at hLoad
  rcases Lib.bind_eq_ok_iff.mp hLoad with
    ⟨⟨first, between⟩, hName, hLoad⟩
  rcases Lib.bind_eq_ok_iff.mp hLoad with ⟨key, hKey, hLoad⟩
  rcases Lib.bind_eq_ok_iff.mp hLoad with
    ⟨⟨second, inner⟩, hValue, hLoad⟩
  rcases Lib.bind_eq_ok_iff.mp hLoad with
    ⟨⟨rest, last⟩, hEntries, hRest⟩
  cases hRest
  exact
    ⟨first, second, between, inner, rest, hName, ⟨key, hKey⟩,
      hValue, hEntries⟩

end Yaml

end MailgunRelay

------------------------------------------------------------
-- What A Load Completes
------------------------------------------------------------

namespace MailgunRelay

namespace Yaml

open Secrets (Node)

/- A sequence or a mapping. -/
def Tree.isCollection : Tree → Bool
| .scalar _ _ _ _ _ => false
| .alias _ _ => false
| .seq _ _ _ _ _ => true
| .map _ _ _ _ _ => true

/- What the anchors of collections hold is no key. -/
def Unhashable
    (collections : Nat → Prop)
    (anchors : List (Nat × Node)) : Prop :=
  ∀ p ∈ anchors, collections p.1 →
    ¬ ∃ name, keyOf p.2 = .ok name

/- The anchors that `collections` names are collections. -/
def Kinds
    (collections : Nat → Prop)
    (nodes : List (Nat × Tree)) : Prop :=
  ∀ p ∈ nodes, collections p.1 → p.2.isCollection = true

variable {collections : Nat → Prop}
variable {depth : Nat} {key : Bool}
variable {anchors anchors' : List (Nat × Node)}
variable {node : Node}

theorem unhashable_register
    (t : Tree)
    (hUnhashable : Unhashable collections anchors)
    (hKinds : Kinds collections (named t.anchor t))
    (hNode :
      t.isCollection = true → ¬ ∃ name, keyOf node = .ok name) :
    Unhashable collections
      (register anchors t.anchor node) := by
  unfold register
  unfold named at hKinds
  split
  · rename_i hAnchor
    rw [if_pos hAnchor] at hKinds
    intro p hMem hCollection
    rcases List.mem_cons.mp hMem with rfl | hMem
    · exact hNode (hKinds _ List.mem_cons_self hCollection)
    · exact hUnhashable p hMem hCollection
  · exact hUnhashable

mutual

/- A load completes exactly the anchored nodes. -/
theorem Tree.load_completes
    (t : Tree)
    (depth : Nat)
    (key : Bool)
    (anchors anchors' : List (Nat × Node))
    (node : Node)
    (hUnhashable : Unhashable collections anchors)
    (hKinds : Kinds collections t.anchored)
    (hLoad : t.load depth key anchors = .ok (node, anchors')) :
    Unhashable collections anchors' ∧
      Done anchors' = fun id =>
        Done anchors id ∨ id ∈ t.ids := by
  match t with
  | .scalar value style anchor tag mark =>
      rcases load_scalar hLoad with ⟨hKey, hScalar, rfl⟩
      exact
        ⟨unhashable_register
            (.scalar value style anchor tag mark) hUnhashable
            hKinds nofun,
          done_register anchors anchor node _⟩
  | .alias id mark =>
      rcases load_alias hLoad with ⟨hLookup, rfl⟩
      refine ⟨hUnhashable, ?_⟩
      funext id'
      simp [Tree.ids, Tree.anchored]
  | .seq anchor tag items start stop =>
      rcases load_seq hLoad with
        ⟨hTag, hDepth, nodes, inner, hItems, rfl, rfl⟩
      rcases
        loadItems_completes items (depth + 1) anchors inner
          nodes hUnhashable
          (fun p hMem => hKinds p (List.mem_append_left _ hMem))
          hItems with
        ⟨hInner, hDone⟩
      constructor
      · apply unhashable_register
          (.seq anchor tag items start stop) hInner
        · exact fun p hMem =>
            hKinds p (List.mem_append_right _ hMem)
        · rintro - ⟨name, hName⟩
          cases hName
      · rw [done_register inner anchor _
          (.seq anchor tag items start stop), hDone]
        funext id
        simp only [Tree.ids, Tree.anchored, List.map_append,
          List.mem_append, or_assoc]
  | .map anchor tag entries start stop =>
      rcases load_map hLoad with
        ⟨hTag, hDepth, nodes, inner, hEntries, rfl, rfl⟩
      rcases
        loadEntries_completes entries (depth + 1) anchors inner
          nodes hUnhashable
          (fun p hMem => hKinds p (List.mem_append_left _ hMem))
          hEntries with
        ⟨hInner, hDone⟩
      constructor
      · apply unhashable_register
          (.map anchor tag entries start stop) hInner
        · exact fun p hMem =>
            hKinds p (List.mem_append_right _ hMem)
        · rintro - ⟨name, hName⟩
          cases hName
      · rw [done_register inner anchor _
          (.map anchor tag entries start stop), hDone]
        funext id
        simp only [Tree.ids, Tree.anchored, List.map_append,
          List.mem_append, or_assoc]

theorem loadItems_completes
    (items : List Tree)
    (depth : Nat)
    (anchors anchors' : List (Nat × Node))
    (nodes : List Node)
    (hUnhashable : Unhashable collections anchors)
    (hKinds : Kinds collections (anchoredItems items))
    (hLoad :
      loadItems depth anchors items = .ok (nodes, anchors')) :
    Unhashable collections anchors' ∧
      Done anchors' = fun id =>
        Done anchors id ∨
          id ∈ (anchoredItems items).map Prod.fst := by
  match items with
  | [] =>
      cases hLoad
      refine ⟨hUnhashable, ?_⟩
      funext id
      simp [anchoredItems]
  | item :: items =>
      rcases load_item hLoad with
        ⟨node, inner, rest, hItem, hItems⟩
      rcases
        Tree.load_completes item depth false anchors inner node
          hUnhashable
          (fun p hMem => hKinds p (List.mem_append_left _ hMem))
          hItem with
        ⟨hInner, hDone⟩
      rcases
        loadItems_completes items depth inner anchors' rest
          hInner
          (fun p hMem =>
            hKinds p (List.mem_append_right _ hMem))
          hItems with
        ⟨hLast, hDone'⟩
      refine ⟨hLast, ?_⟩
      rw [hDone', hDone]
      funext id
      simp only [Tree.ids, anchoredItems, List.map_append,
        List.mem_append, or_assoc]

theorem loadEntries_completes
    (entries : List (Tree × Tree))
    (depth : Nat)
    (anchors anchors' : List (Nat × Node))
    (nodes : List (Option Str × Node))
    (hUnhashable : Unhashable collections anchors)
    (hKinds : Kinds collections (anchoredEntries entries))
    (hLoad :
      loadEntries depth anchors entries =
        .ok (nodes, anchors')) :
    Unhashable collections anchors' ∧
      Done anchors' = fun id =>
        Done anchors id ∨
          id ∈ (anchoredEntries entries).map Prod.fst := by
  match entries with
  | [] =>
      cases hLoad
      refine ⟨hUnhashable, ?_⟩
      funext id
      simp [anchoredEntries]
  | (name, value) :: entries =>
      rcases load_entry hLoad with
        ⟨first, second, between, inner, rest, hName, -, hValue,
          hEntries⟩
      rcases
        Tree.load_completes name depth true anchors between
          first hUnhashable
          (fun p hMem => hKinds p (List.mem_append_left _ hMem))
          hName with
        ⟨hBetween, hDone⟩
      rcases
        Tree.load_completes value depth false between inner
          second hBetween
          (fun p hMem =>
            hKinds p
              (List.mem_append_right _
                (List.mem_append_left _ hMem)))
          hValue with
        ⟨hInner, hDone'⟩
      rcases
        loadEntries_completes entries depth inner anchors' rest
          hInner
          (fun p hMem =>
            hKinds p
              (List.mem_append_right _
                (List.mem_append_right _ hMem)))
          hEntries with
        ⟨hLast, hDone''⟩
      refine ⟨hLast, ?_⟩
      rw [hDone'', hDone', hDone]
      funext id
      simp only [Tree.ids, anchoredEntries, List.map_append,
        List.mem_append, or_assoc]

end

end Yaml

end MailgunRelay

------------------------------------------------------------
-- Faults
------------------------------------------------------------

namespace MailgunRelay

namespace Yaml

open Secrets (Node)

def Tree.tag : Tree → Option Tag
| .scalar _ _ _ tag _ => tag
| .alias _ _ => none
| .seq _ tag _ _ _ => tag
| .map _ tag _ _ _ => tag

/- The anchor of a node, if it has one. -/
def Tree.own (t : Tree) : List Nat :=
  (named t.anchor t).map Prod.fst

/-
  Something that must be refused in a node inside so many
  collections, of which `opened` are the anchors; the
  anchors in `collections` are those of collections.
-/
inductive Tree.Fault (collections : Nat → Prop) :
    Nat → Bool → List Nat → Tree → Prop where
  | emptyKey
      {depth : Nat} {opened : List Nat}
      {anchor : Nat} {mark : Mark} :
      Fault collections depth true opened
        (.scalar [] .plain anchor none mark)
  | scalarTag
      {depth : Nat} {key : Bool} {opened : List Nat}
      {value : Str} {style : ScalarStyle} {anchor : Nat}
      {tag : Tag} {mark : Mark}
      (hTag : isStrTag tag = false) :
      Fault collections depth key opened
        (.scalar value style anchor (some tag) mark)
  | openAlias
      {depth : Nat} {key : Bool} {opened : List Nat}
      {id : Nat} {mark : Mark}
      (hOpen : id ∈ opened) :
      Fault collections depth key opened (.alias id mark)
  | aliasKey
      {depth : Nat} {opened : List Nat}
      {id : Nat} {mark : Mark}
      (hCollection : collections id) :
      Fault collections depth true opened (.alias id mark)
  | collectionKey
      {depth : Nat} {opened : List Nat} {t : Tree}
      (hCollection : t.isCollection = true) :
      Fault collections depth true opened t
  | collectionTag
      {depth : Nat} {key : Bool} {opened : List Nat}
      {t : Tree}
      (hCollection : t.isCollection = true)
      (hTag : t.tag ≠ none) :
      Fault collections depth key opened t
  | tooDeep
      {depth : Nat} {key : Bool} {opened : List Nat}
      {t : Tree}
      (hCollection : t.isCollection = true)
      (hDepth : maxDepth ≤ depth) :
      Fault collections depth key opened t
  | child
      {depth : Nat} {key : Bool} {opened : List Nat}
      {anchor : Nat} {tag : Option Tag} {items : List Tree}
      {start stop : Mark} {c : Tree}
      (hChild : c ∈ items)
      (hFault :
        Fault collections (depth + 1) false
          (Tree.own (.seq anchor tag items start stop) ++
            opened)
          c) :
      Fault collections depth key opened
        (.seq anchor tag items start stop)
  | name
      {depth : Nat} {key : Bool} {opened : List Nat}
      {anchor : Nat} {tag : Option Tag}
      {entries : List (Tree × Tree)} {start stop : Mark}
      {entry : Tree × Tree}
      (hEntry : entry ∈ entries)
      (hFault :
        Fault collections (depth + 1) true
          (Tree.own (.map anchor tag entries start stop) ++
            opened)
          entry.1) :
      Fault collections depth key opened
        (.map anchor tag entries start stop)
  | value
      {depth : Nat} {key : Bool} {opened : List Nat}
      {anchor : Nat} {tag : Option Tag}
      {entries : List (Tree × Tree)} {start stop : Mark}
      {entry : Tree × Tree}
      (hEntry : entry ∈ entries)
      (hFault :
        Fault collections (depth + 1) false
          (Tree.own (.map anchor tag entries start stop) ++
            opened)
          entry.2) :
      Fault collections depth key opened
        (.map anchor tag entries start stop)

/- The anchors of the collections of a tree. -/
def Tree.collections (t : Tree) (id : Nat) : Prop :=
  ∃ p ∈ t.anchored, p.1 = id ∧ p.2.isCollection = true

/- A tree with something that must be refused. -/
def Tree.HasFault (t : Tree) : Prop :=
  Tree.Fault t.collections 0 false [] t

end Yaml

end MailgunRelay

------------------------------------------------------------
-- Faults Are Refused
------------------------------------------------------------

namespace MailgunRelay

namespace Yaml

open Secrets (Node)

/-
  The nodes that are still to be completed, where `opened`
  are the anchors of the open collections.
-/
structure Ahead
    (collections : Nat → Prop)
    (opened : List Nat)
    (anchors : List (Nat × Node))
    (nodes : List (Nat × Tree)) : Prop where
  nodup : (nodes.map Prod.fst).Nodup
  fresh :
    ∀ id ∈ nodes.map Prod.fst,
      ¬ Done anchors id ∧ id ∉ opened
  unfinished : ∀ id ∈ opened, ¬ Done anchors id
  kinds : Kinds collections nodes
  unhashable : Unhashable collections anchors

variable {collections : Nat → Prop}
variable {opened : List Nat}
variable {anchors anchors' : List (Nat × Node)}
variable {nodes later : List (Nat × Tree)}

theorem Ahead.first
    (hAhead :
      Ahead collections opened anchors (nodes ++ later)) :
    Ahead collections opened anchors nodes := by
  have hNodup := hAhead.nodup
  rw [List.map_append, List.nodup_append'] at hNodup
  constructor
  · exact hNodup.1
  · intro id hMem
    apply hAhead.fresh
    rw [List.map_append]
    exact List.mem_append_left _ hMem
  · exact hAhead.unfinished
  · exact fun p hMem =>
      hAhead.kinds p (List.mem_append_left _ hMem)
  · exact hAhead.unhashable

/- After the first nodes, the others are ahead. -/
theorem Ahead.second
    (hAhead :
      Ahead collections opened anchors (nodes ++ later))
    (hUnhashable : Unhashable collections anchors')
    (hDone :
      Done anchors' = fun id =>
        Done anchors id ∨ id ∈ nodes.map Prod.fst) :
    Ahead collections opened anchors' later := by
  have hNodup := hAhead.nodup
  have hFresh := hAhead.fresh
  rw [List.map_append, List.nodup_append'] at hNodup
  simp only [List.map_append, List.mem_append] at hFresh
  constructor
  · exact hNodup.2.1
  · intro id hMem
    refine ⟨?_, (hFresh id (.inr hMem)).2⟩
    rw [hDone]
    rintro (hOld | hNew)
    · exact (hFresh id (.inr hMem)).1 hOld
    · exact hNodup.2.2 hNew hMem
  · intro id hOpen
    rw [hDone]
    rintro (hOld | hNew)
    · exact hAhead.unfinished id hOpen hOld
    · exact (hFresh id (.inl hNew)).2 hOpen
  · exact fun p hMem =>
      hAhead.kinds p (List.mem_append_right _ hMem)
  · exact hUnhashable

/- The children of an open node. -/
theorem Ahead.inside
    {t : Tree}
    (hAhead : Ahead collections opened anchors t.anchored) :
    Ahead collections (t.own ++ opened) anchors
      (anchoredItems t.children) := by
  have hNodup := hAhead.nodup
  have hFresh := hAhead.fresh
  rw [Tree.anchored_eq] at hAhead
  rw [Tree.anchored_eq, List.map_append,
    List.nodup_append'] at hNodup
  simp only [Tree.anchored_eq, List.map_append,
    List.mem_append] at hFresh
  constructor
  · exact hNodup.1
  · intro id hMem
    refine ⟨(hFresh id (.inl hMem)).1, ?_⟩
    rw [List.mem_append]
    rintro (hOwn | hOpen)
    · exact hNodup.2.2 hMem hOwn
    · exact (hFresh id (.inl hMem)).2 hOpen
  · intro id hOpen
    rcases List.mem_append.mp hOpen with hOwn | hOpen
    · exact (hFresh id (.inr hOwn)).1
    · exact hAhead.unfinished id hOpen
  · exact hAhead.first.kinds
  · exact hAhead.unhashable

/- An item is loaded while it is ahead. -/
theorem load_of_mem_items
    {depth : Nat}
    {items : List Tree}
    {loaded : List Node}
    {c : Tree}
    (hAhead :
      Ahead collections opened anchors (anchoredItems items))
    (hLoad :
      loadItems depth anchors items = .ok (loaded, anchors'))
    (hChild : c ∈ items) :
    ∃ before after node,
      c.load depth false before = .ok (node, after) ∧
        Ahead collections opened before c.anchored := by
  induction items generalizing anchors loaded with
  | nil => cases hChild
  | cons item items ih =>
      rcases load_item hLoad with
        ⟨node, inner, rest, hItem, hItems⟩
      rcases List.mem_cons.mp hChild with rfl | hChild
      · exact ⟨anchors, inner, node, hItem, hAhead.first⟩
      · rcases
          item.load_completes depth false anchors inner node
            hAhead.unhashable hAhead.first.kinds hItem with
          ⟨hInner, hDone⟩
        exact ih (hAhead.second hInner hDone) hItems hChild

/- A key and its value are loaded while they are ahead. -/
theorem load_of_mem_entries
    {depth : Nat}
    {entries : List (Tree × Tree)}
    {loaded : List (Option Str × Node)}
    {entry : Tree × Tree}
    (hAhead :
      Ahead collections opened anchors
        (anchoredEntries entries))
    (hLoad :
      loadEntries depth anchors entries =
        .ok (loaded, anchors'))
    (hEntry : entry ∈ entries) :
    (∃ before after node,
      entry.1.load depth true before = .ok (node, after) ∧
        (∃ name, keyOf node = .ok name) ∧
        Ahead collections opened before entry.1.anchored) ∧
      ∃ before after node,
        entry.2.load depth false before = .ok (node, after) ∧
          Ahead collections opened before
            entry.2.anchored := by
  induction entries generalizing anchors loaded with
  | nil => cases hEntry
  | cons head entries ih =>
      rcases load_entry hLoad with
        ⟨first, second, between, inner, rest, hName, hKey,
          hValue, hEntries⟩
      rcases
        head.1.load_completes depth true anchors between first
          hAhead.unhashable hAhead.first.kinds hName with
        ⟨hBetween, hDone⟩
      have hSecond := hAhead.second hBetween hDone
      rcases List.mem_cons.mp hEntry with rfl | hEntry
      · exact
          ⟨⟨anchors, between, first, hName, hKey,
              hAhead.first⟩,
            between, inner, second, hValue, hSecond.first⟩
      · rcases
          head.2.load_completes depth false between inner
            second hSecond.unhashable hSecond.first.kinds hValue
          with ⟨hInner, hDone'⟩
        exact
          ih (hSecond.second hInner hDone') hEntries hEntry

/- A loaded collection has no tag, and is no key. -/
theorem load_collection
    {depth : Nat}
    {key : Bool}
    {t : Tree}
    {node : Node}
    (hCollection : t.isCollection = true)
    (hLoad : t.load depth key anchors = .ok (node, anchors')) :
    t.tag = none ∧ depth < maxDepth ∧
      ¬ ∃ name, keyOf node = .ok name := by
  cases t with
  | scalar => cases hCollection
  | «alias» => cases hCollection
  | seq anchor tag items start stop =>
      rcases load_seq hLoad with
        ⟨hTag, hDepth, nodes, inner, -, rfl, -⟩
      exact ⟨hTag, hDepth, nofun⟩
  | map anchor tag entries start stop =>
      rcases load_map hLoad with
        ⟨hTag, hDepth, nodes, inner, -, rfl, -⟩
      exact ⟨hTag, hDepth, nofun⟩

/- What is loaded, also as a key, has no fault. -/
theorem Tree.Fault.not_loaded
    {depth : Nat}
    {key : Bool}
    {t : Tree}
    (hFault : Tree.Fault collections depth key opened t)
    {anchors anchors' : List (Nat × Node)}
    {node : Node}
    (hAhead : Ahead collections opened anchors t.anchored)
    (hLoad : t.load depth key anchors = .ok (node, anchors'))
    (hKey : key = true → ∃ name, keyOf node = .ok name) :
    False := by
  induction hFault generalizing anchors anchors' node with
  | emptyKey =>
      exact (load_scalar hLoad).1 ⟨rfl, rfl, rfl, rfl⟩
  | scalarTag hTag =>
      have hScalar := (load_scalar hLoad).2.1
      unfold scalarNode at hScalar
      simp only at hScalar
      rw [hTag] at hScalar
      cases hScalar
  | openAlias hOpen =>
      have hMem :=
        Lib.Assoc.mem_of_lookup (load_alias hLoad).1
      exact
        hAhead.unfinished _ hOpen (List.mem_map_of_mem hMem)
  | aliasKey hCollection =>
      have hMem :=
        Lib.Assoc.mem_of_lookup (load_alias hLoad).1
      exact hAhead.unhashable _ hMem hCollection (hKey rfl)
  | collectionKey hCollection =>
      exact (load_collection hCollection hLoad).2.2 (hKey rfl)
  | collectionTag hCollection hTag =>
      exact hTag (load_collection hCollection hLoad).1
  | tooDeep hCollection hDepth =>
      have hShallow := (load_collection hCollection hLoad).2.1
      omega
  | child hChild hFault ih =>
      rcases load_seq hLoad with
        ⟨-, -, nodes, inner, hItems, -, -⟩
      rcases load_of_mem_items hAhead.inside hItems hChild with
        ⟨before, after, node, hLoaded, hBefore⟩
      exact ih hBefore hLoaded nofun
  | name hEntry hFault ih =>
      rcases load_map hLoad with
        ⟨-, -, nodes, inner, hEntries, -, -⟩
      have hInside := hAhead.inside
      rw [Tree.children, ← anchoredEntries_eq] at hInside
      rcases load_of_mem_entries hInside hEntries hEntry with
        ⟨⟨before, after, node, hLoaded, hName, hBefore⟩, -⟩
      exact ih hBefore hLoaded fun _ => hName
  | value hEntry hFault ih =>
      rcases load_map hLoad with
        ⟨-, -, nodes, inner, hEntries, -, -⟩
      have hInside := hAhead.inside
      rw [Tree.children, ← anchoredEntries_eq] at hInside
      rcases load_of_mem_entries hInside hEntries hEntry with
        ⟨-, before, after, node, hLoaded, hBefore⟩
      exact ih hBefore hLoaded nofun

end Yaml

end MailgunRelay

------------------------------------------------------------
-- The Open Collections Are Not Lost
------------------------------------------------------------

namespace MailgunRelay

namespace Yaml

open Secrets (Node)

/- The error for events that do not match. -/
def unbalanced : Str := "unbalanced YAML events".toList

theorem resolvePlain_error
    {value : Str}
    {reason : Str}
    (hError : resolvePlain value = .error reason) :
    reason ≠ unbalanced := by
  unfold resolvePlain at hError
  dsimp only at hError
  repeat' split at hError
  all_goals cases hError
  all_goals decide +kernel

/- A message with a line number is another one. -/
theorem atLine_ne
    {message : String}
    {mark : Mark}
    (hStart :
      ¬ message.toList <+: unbalanced) :
    atLine message mark ≠ unbalanced := by
  intro hSame
  apply hStart
  rw [← hSame, atLine, List.append_assoc]
  exact List.prefix_append _ _

theorem scalarNode_error
    {value : Str}
    {style : ScalarStyle}
    {tag : Option Tag}
    {mark : Mark}
    {reason : Str}
    (hError : scalarNode value style tag mark = .error reason) :
    reason ≠ unbalanced := by
  unfold scalarNode at hError
  cases tag with
  | none =>
      simp only at hError
      by_cases hPlain : style = .plain
      · rw [if_pos hPlain] at hError
        exact resolvePlain_error hError
      · rw [if_neg hPlain] at hError
        cases hError
  | some tag =>
      simp only at hError
      by_cases hTag : isStrTag tag = true
      · rw [if_pos hTag] at hError
        cases hError
      · rw [if_neg hTag] at hError
        cases hError
        exact atLine_ne (by decide +kernel)

theorem keyOf_error
    {node : Node}
    {reason : Str}
    (hError : keyOf node = .error reason) :
    reason ≠ unbalanced := by
  cases node with
  | str | null | other => cases hError
  | seq | map =>
      cases hError
      decide +kernel

mutual

/- No node is refused for unbalanced events. -/
theorem Tree.load_error
    (t : Tree)
    (depth : Nat)
    (key : Bool)
    (anchors : List (Nat × Node))
    (reason : Str)
    (hError : t.load depth key anchors = .error reason) :
    reason ≠ unbalanced := by
  match t with
  | .scalar value style anchor tag mark =>
      rw [Tree.load] at hError
      by_cases hEmpty :
          (key && value.isEmpty && decide (style = .plain) &&
            tag.isNone) = true
      · rw [if_pos hEmpty] at hError
        cases hError
        exact atLine_ne (by decide +kernel)
      · rw [if_neg hEmpty] at hError
        rcases Lib.bind_eq_error_iff.mp hError with
          hScalar | ⟨node, -, hRest⟩
        · exact scalarNode_error hScalar
        · cases hRest
  | .alias id mark =>
      rw [Tree.load] at hError
      cases hLookup : anchors.lookup id with
      | some node =>
          rw [hLookup] at hError
          cases hError
      | none =>
          rw [hLookup] at hError
          cases hError
          decide +kernel
  | .seq anchor tag items start stop =>
      rw [Tree.load] at hError
      by_cases hTag : tag.isSome = true
      · rw [if_pos hTag] at hError
        cases hError
        exact atLine_ne (by decide +kernel)
      by_cases hDepth : maxDepth ≤ depth
      · rw [if_neg hTag, if_pos hDepth] at hError
        cases hError
        decide +kernel
      rw [if_neg hTag, if_neg hDepth] at hError
      rcases Lib.bind_eq_error_iff.mp hError with
        hItems | ⟨loaded, -, hRest⟩
      · exact
          loadItems_error items (depth + 1) anchors reason
            hItems
      · cases hRest
  | .map anchor tag entries start stop =>
      rw [Tree.load] at hError
      by_cases hTag : tag.isSome = true
      · rw [if_pos hTag] at hError
        cases hError
        exact atLine_ne (by decide +kernel)
      by_cases hDepth : maxDepth ≤ depth
      · rw [if_neg hTag, if_pos hDepth] at hError
        cases hError
        decide +kernel
      rw [if_neg hTag, if_neg hDepth] at hError
      rcases Lib.bind_eq_error_iff.mp hError with
        hEntries | ⟨loaded, -, hRest⟩
      · exact
          loadEntries_error entries (depth + 1) anchors reason
            hEntries
      · cases hRest

theorem loadItems_error
    (items : List Tree)
    (depth : Nat)
    (anchors : List (Nat × Node))
    (reason : Str)
    (hError :
      loadItems depth anchors items = .error reason) :
    reason ≠ unbalanced := by
  match items with
  | [] => cases hError
  | item :: items =>
      rw [loadItems] at hError
      rcases Lib.bind_eq_error_iff.mp hError with
        hItem | ⟨loaded, -, hError⟩
      · exact
          Tree.load_error item depth false anchors reason hItem
      rcases Lib.bind_eq_error_iff.mp hError with
        hItems | ⟨rest, -, hRest⟩
      · exact
          loadItems_error items depth loaded.2 reason hItems
      · cases hRest

theorem loadEntries_error
    (entries : List (Tree × Tree))
    (depth : Nat)
    (anchors : List (Nat × Node))
    (reason : Str)
    (hError :
      loadEntries depth anchors entries = .error reason) :
    reason ≠ unbalanced := by
  match entries with
  | [] => cases hError
  | (name, value) :: entries =>
      rw [loadEntries] at hError
      rcases Lib.bind_eq_error_iff.mp hError with
        hName | ⟨first, -, hError⟩
      · exact
          Tree.load_error name depth true anchors reason hName
      rcases Lib.bind_eq_error_iff.mp hError with
        hKey | ⟨key, -, hError⟩
      · exact keyOf_error hKey
      rcases Lib.bind_eq_error_iff.mp hError with
        hValue | ⟨second, -, hError⟩
      · exact
          Tree.load_error value depth false first.2 reason
            hValue
      rcases Lib.bind_eq_error_iff.mp hError with
        hEntries | ⟨rest, -, hRest⟩
      · exact
          loadEntries_error entries depth second.2 reason
            hEntries
      · cases hRest

end

end Yaml

end MailgunRelay

------------------------------------------------------------
-- Streams
------------------------------------------------------------

namespace MailgunRelay

namespace Yaml

open Secrets (Node)

/- The events of a document: only one may be loaded. -/
theorem run_document
    (d : Document)
    {s : State}
    (hStack : s.stack = [])
    (rest : List Report) :
    run s (d.events.map .ok ++ rest) =
      if s.documents + 1 > 1 then
        .error "expected a single document".toList
      else
        d.body.load 0 false s.anchors >>= fun p =>
          run
            { s with
              anchors := p.2
              documents := s.documents + 1
              root := some p.1 }
            rest := by
  rw [Document.events, List.map_cons, List.cons_append,
    run_step (by nofun), State.step]
  by_cases hSecond : s.documents + 1 > 1
  · rw [if_pos hSecond, if_pos hSecond]
    rfl
  rw [if_neg hSecond, if_neg hSecond, Lib.ok_bind,
    List.map_append, List.append_assoc, run_tree]
  simp only [hStack, List.length_nil, isKey]
  cases d.body.load 0 false s.anchors with
  | error reason => rfl
  | ok loaded =>
      rw [Lib.ok_bind, Lib.ok_bind, State.place]
      simp only
      rw [Lib.ok_bind, List.map_singleton,
        List.singleton_append, run_step (by nofun)]
      rfl

/- A stream of one document is the load of its node. -/
theorem run_one
    (start stop : Mark)
    (d : Document) :
    run State.start (stream start stop [d]) =
      d.body.load 0 false [] >>= fun p => .ok p.1 := by
  rw [stream, List.map_cons, run_step (by nofun), State.step,
    Lib.ok_bind, List.flatMap_singleton, List.map_append,
    run_document d rfl]
  rfl

/- A second document is refused. -/
theorem run_more
    (start stop : Mark)
    (d second : Document)
    (documents : List Document) :
    run State.start
        (stream start stop (d :: second :: documents)) =
      d.body.load 0 false [] >>= fun _ =>
        .error "expected a single document".toList := by
  rw [stream, List.map_cons, run_step (by nofun), State.step,
    Lib.ok_bind, List.flatMap_cons, List.append_assoc,
    List.map_append, run_document d rfl]
  rfl

end Yaml

end MailgunRelay

------------------------------------------------------------
-- The Builder
------------------------------------------------------------

namespace MailgunRelay

namespace Yaml

open Secrets (Node)

theorem expandEntries_append
    (env : Nat → Node)
    (before after : List (Tree × Tree)) :
    expandEntries env (before ++ after) =
      expandEntries env before ++ expandEntries env after := by
  induction before with
  | nil => rfl
  | cons entry before ih =>
      rw [List.cons_append, expandEntries, expandEntries, ih,
        List.cons_append]

/- The value of a key is that of its last entry. -/
theorem get_last
    (env : Nat → Node)
    {name : Str}
    {key value : Tree}
    {before after : List (Tree × Tree)}
    (hKey : keyName (key.expand env) = some name)
    (hLast :
      ∀ entry ∈ after,
        keyName (entry.1.expand env) ≠ some name) :
    (Node.map
        (expandEntries env
          (before ++ (key, value) :: after))).get name =
      some (value.expand env) := by
  have hAfter :
      (expandEntries env after).reverse.find?
          (fun entry => entry.1 == some name) = none := by
    rw [List.find?_eq_none]
    intro entry hMem
    rw [List.mem_reverse] at hMem
    induction after with
    | nil => cases hMem
    | cons head after ih =>
        rw [List.forall_mem_cons] at hLast
        rcases List.mem_cons.mp hMem with rfl | hMem
        · simpa using hLast.1
        · exact ih hLast.2 hMem
  rw [Node.get, expandEntries_append, expandEntries,
    List.reverse_append, List.reverse_cons,
    List.append_assoc, List.find?_append, hAfter,
    Option.none_or, List.singleton_append, List.find?_cons,
    hKey]
  simp

/- A document without faults is expanded. -/
theorem run_expands
    (start stop : Mark)
    (d : Document)
    (env : Nat → Node)
    (hReady : d.body.Ready fun _ => False)
    (hConsistent : d.body.Consistent env)
    (hValid : d.body.Valid env 0 false) :
    run State.start (stream start stop [d]) =
      .ok (d.body.expand env) := by
  have hNone : Done [] = fun _ => False := by
    funext id
    simp [Done]
  rw [← hNone] at hReady
  rcases
    d.body.load_eq_expand env 0 false [] nofun hReady
      hConsistent hValid with
    ⟨anchors, hLoad, -, -⟩
  rw [run_one, hLoad]
  rfl

/- A document with a fault is not loaded. -/
theorem load_of_hasFault
    (t : Tree)
    (hNodup : t.ids.Nodup)
    (hFault : t.HasFault) :
    ∃ reason, t.load 0 false [] = .error reason := by
  cases hLoad : t.load 0 false [] with
  | error reason => exact ⟨reason, rfl⟩
  | ok loaded =>
      exfalso
      apply hFault.not_loaded _ hLoad nofun
      refine ⟨hNodup, ?_, nofun, ?_, nofun⟩
      · intro id _
        exact ⟨nofun, nofun⟩
      · rintro p hMem ⟨q, hOther, hSame, hCollection⟩
        have hEq : q = p :=
          List.inj_on_of_nodup_map hNodup hOther hMem hSame
        rw [← hEq]
        exact hCollection

/-
  A stream with a second document, or with a fault, is
  refused.
-/
theorem run_refuses
    (start stop : Mark)
    (documents : List Document)
    (hNodup :
      ∀ d ∈ documents, d.body.ids.Nodup)
    (hFault :
      2 ≤ documents.length ∨
        ∃ d ∈ documents, d.body.HasFault) :
    ∃ reason,
      run State.start (stream start stop documents) =
        .error reason := by
  match documents with
  | [] =>
      rcases hFault with hTwo | ⟨d, hMem, -⟩
      · cases hTwo
      · cases hMem
  | [d] =>
      rcases hFault with hTwo | ⟨other, hMem, hFault⟩
      · simp at hTwo
      · rw [List.mem_singleton.mp hMem] at hFault
        rcases
          load_of_hasFault d.body
            (hNodup d List.mem_cons_self) hFault with
          ⟨reason, hLoad⟩
        rw [run_one, hLoad]
        exact ⟨reason, rfl⟩
  | d :: second :: rest =>
      rw [run_more]
      cases d.body.load 0 false [] with
      | error reason => exact ⟨reason, rfl⟩
      | ok loaded => exact ⟨_, rfl⟩

/- The builder does not lose the open collections. -/
theorem run_balanced
    (start stop : Mark)
    (documents : List Document) :
    run State.start (stream start stop documents) ≠
      .error unbalanced := by
  intro hError
  match documents with
  | [] => cases hError
  | [d] =>
      rw [run_one] at hError
      rcases Lib.bind_eq_error_iff.mp hError with
        hLoad | ⟨loaded, -, hRest⟩
      · exact d.body.load_error 0 false [] _ hLoad rfl
      · cases hRest
  | d :: second :: rest =>
      rw [run_more] at hError
      rcases Lib.bind_eq_error_iff.mp hError with
        hLoad | ⟨loaded, -, hRest⟩
      · exact d.body.load_error 0 false [] _ hLoad rfl
      · apply absurd (Except.error.inj hRest)
        decide +kernel

/-
  The builder computes the expanded document: for a document
  of valid nodes, with distinct anchors and with aliases to
  completed nodes, every alias is replaced by the node with
  its anchor, and the last value of a key is the one that is
  found.  It refuses a second document and every fault, and
  no balanced stream is unbalanced for it.
-/
theorem run_builds :
    (∀ (start stop : Mark) (d : Document),
      d.body.ids.Nodup → (d.body.Ready fun _ => False) →
        (∃ env, d.body.Consistent env) ∧
        ∀ env, d.body.Consistent env →
          d.body.Valid env 0 false →
            run State.start (stream start stop [d]) =
              .ok (d.body.expand env)) ∧
    (∀ (env : Nat → Node) (anchor : Nat) (tag : Option Tag)
        (before after : List (Tree × Tree)) (key value : Tree)
        (start stop : Mark) (name : Str),
      keyName (key.expand env) = some name →
        (∀ entry ∈ after,
          keyName (entry.1.expand env) ≠ some name) →
        (Tree.expand env
            (.map anchor tag (before ++ (key, value) :: after)
              start stop)).get name =
          some (value.expand env)) ∧
    (∀ (start stop : Mark) (documents : List Document),
      (∀ d ∈ documents, d.body.ids.Nodup) →
        (2 ≤ documents.length ∨
          ∃ d ∈ documents, d.body.HasFault) →
        ∃ reason,
          run State.start (stream start stop documents) =
            .error reason) ∧
    ∀ (start stop : Mark) (documents : List Document),
      run State.start (stream start stop documents) ≠
        .error "unbalanced YAML events".toList := by
  refine ⟨?_, ?_, run_refuses, run_balanced⟩
  · intro start stop d hNodup hReady
    refine ⟨?_, ?_⟩
    · rcases
        d.body.exists_consistent (fun _ => .null)
          (fun _ => False) hReady hNodup (fun _ _ => not_false)
        with ⟨env, -, hConsistent⟩
      exact ⟨env, hConsistent⟩
    · intro env hConsistent hValid
      exact run_expands start stop d env hReady hConsistent
        hValid
  · intro env anchor tag before after key value start stop
      name hKey hLast
    exact get_last env hKey hLast

/- Two keys with one node, the second by its alias. -/
theorem run_builds_alias :
    run State.start
        (stream ⟨1, 0⟩ ⟨3, 0⟩
          [{ start := ⟨1, 0⟩
             body :=
              .map 0 none
                [(.scalar "a".toList .doubleQuoted 0 none
                    ⟨1, 0⟩,
                  .seq 1 none
                    [.scalar "x".toList .plain 2 none ⟨1, 9⟩]
                    ⟨1, 5⟩ ⟨1, 12⟩),
                  (.scalar "b".toList .doubleQuoted 0 none
                    ⟨2, 0⟩,
                  .alias 1 ⟨2, 5⟩)]
                ⟨1, 0⟩ ⟨3, 0⟩
             stop := ⟨3, 0⟩ }]) =
      .ok
        (.map
          [(some "a".toList, .seq [.str "x".toList]),
            (some "b".toList, .seq [.str "x".toList])]) := by
  let env (id : Nat) : Node :=
    if id = 1 then .seq [.str "x".toList] else .str "x".toList
  have hPlain :
      resolvePlain "x".toList = .ok (.str "x".toList) := rfl
  refine (run_builds.1 _ _ _ ?_ ?_).2 env ?_ ?_
  · decide
  · exact
      ⟨trivial, ⟨trivial, trivial⟩, trivial,
        .inl (.inr (by decide)), trivial⟩
  · exact
      List.forall_mem_cons.mpr
        ⟨rfl, List.forall_mem_cons.mpr ⟨rfl, nofun⟩⟩
  · refine ⟨rfl, by decide, ?_⟩
    refine
      ⟨⟨⟨_, rfl⟩, nofun⟩, ⟨_, rfl⟩,
        ⟨rfl, by decide, ⟨⟨_, hPlain⟩, nofun⟩, trivial⟩, ?_⟩
    exact
      ⟨⟨⟨_, rfl⟩, nofun⟩, ⟨_, rfl⟩, trivial, trivial⟩

end Yaml

end MailgunRelay
