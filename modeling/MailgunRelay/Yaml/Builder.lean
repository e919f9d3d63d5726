import MailgunRelay.Yaml

/-
  The builder undoes the events: run on the events of a tree
  it returns the tree, with every alias replaced by the node
  it stands for.

  Key definitions include:
    * `MailgunRelay.Yaml.Tree`
    * `MailgunRelay.Yaml.Tree.events`
    * `MailgunRelay.Yaml.Tree.load`
    * `MailgunRelay.Yaml.Tree.expand`
    * `MailgunRelay.Yaml.Tree.Ready`
    * `MailgunRelay.Yaml.Tree.Valid`

  Key theorems include:
    * `MailgunRelay.Yaml.run_tree`
    * `MailgunRelay.Yaml.Tree.load_eq_expand`
    * `MailgunRelay.Yaml.Tree.exists_consistent`
-/

------------------------------------------------------------
-- Trees
------------------------------------------------------------

namespace MailgunRelay

namespace Yaml

open Secrets (Node)

/-
  A node as it is written, with its anchors, tags and
  aliases, and with the places of its events.
-/
inductive Tree where
  | scalar
      (value : Str) (style : ScalarStyle) (anchor : Nat)
      (tag : Option Tag) (mark : Mark)
  | «alias» (id : Nat) (mark : Mark)
  | seq
      (anchor : Nat) (tag : Option Tag) (items : List Tree)
      (start stop : Mark)
  | map
      (anchor : Nat) (tag : Option Tag)
      (entries : List (Tree × Tree)) (start stop : Mark)

mutual

/- The events of a node. -/
def Tree.events : Tree → List (Event × Mark)
| .scalar value style anchor tag mark =>
    [(.scalar value style anchor tag, mark)]
| .alias id mark => [(.alias id, mark)]
| .seq anchor tag items start stop =>
    (.sequenceStart anchor tag, start) ::
      (itemEvents items ++ [(.sequenceEnd, stop)])
| .map anchor tag entries start stop =>
    (.mappingStart anchor tag, start) ::
      (entryEvents entries ++ [(.mappingEnd, stop)])

def itemEvents : List Tree → List (Event × Mark)
| [] => []
| item :: items => item.events ++ itemEvents items

def entryEvents : List (Tree × Tree) → List (Event × Mark)
| [] => []
| (key, value) :: entries =>
    key.events ++ (value.events ++ entryEvents entries)

end

/- A document, and its place in the text. -/
structure Document where
  start : Mark
  body : Tree
  stop : Mark

def Document.events (d : Document) : List (Event × Mark) :=
  (.documentStart, d.start) ::
    (d.body.events ++ [(.documentEnd, d.stop)])

/- A balanced stream of events. -/
def stream
    (start stop : Mark)
    (documents : List Document) : List Report :=
  ((.streamStart, start) ::
    (documents.flatMap Document.events ++
      [(.streamEnd, stop)])).map .ok

end Yaml

end MailgunRelay

------------------------------------------------------------
-- Loading
------------------------------------------------------------

namespace MailgunRelay

namespace Yaml

open Secrets (Node)

mutual

/-
  What the builder makes of a node inside so many open
  collections, and the anchors after it.
-/
def Tree.load
    (depth : Nat)
    (key : Bool)
    (anchors : List (Nat × Node)) :
    Tree → Except Str (Node × List (Nat × Node))
| .scalar value style anchor tag mark =>
    if key && value.isEmpty && decide (style = .plain) &&
        tag.isNone then
      .error (atLine "empty mapping key" mark)
    else do
      let node ← scalarNode value style tag mark
      return (node, register anchors anchor node)
| .alias id _ =>
    match anchors.lookup id with
    | some node => .ok (node, anchors)
    | none => .error "alias to an unfinished node".toList
| .seq anchor tag items start _ =>
    if tag.isSome then
      .error (atLine "unsupported tag" start)
    else if maxDepth ≤ depth then
      .error "nesting too deep".toList
    else do
      let (nodes, anchors) ←
        loadItems (depth + 1) anchors items
      return (.seq nodes, register anchors anchor (.seq nodes))
| .map anchor tag entries start _ =>
    if tag.isSome then
      .error (atLine "unsupported tag" start)
    else if maxDepth ≤ depth then
      .error "nesting too deep".toList
    else do
      let (nodes, anchors) ←
        loadEntries (depth + 1) anchors entries
      return (.map nodes, register anchors anchor (.map nodes))

def loadItems
    (depth : Nat)
    (anchors : List (Nat × Node)) :
    List Tree →
      Except Str (List Node × List (Nat × Node))
| [] => .ok ([], anchors)
| item :: items => do
    let (node, anchors) ← item.load depth false anchors
    let (nodes, anchors) ← loadItems depth anchors items
    return (node :: nodes, anchors)

def loadEntries
    (depth : Nat)
    (anchors : List (Nat × Node)) :
    List (Tree × Tree) →
      Except Str
        (List (Option Str × Node) × List (Nat × Node))
| [] => .ok ([], anchors)
| (key, value) :: entries => do
    let (node, anchors) ← key.load depth true anchors
    let name ← keyOf node
    let (node, anchors) ← value.load depth false anchors
    let (nodes, anchors) ← loadEntries depth anchors entries
    return ((name, node) :: nodes, anchors)

end

/- An event other than the end of the stream. -/
theorem run_step
    {s : State}
    {event : Event}
    {mark : Mark}
    {rest : List Report}
    (hEvent : event ≠ .streamEnd) :
    run s (.ok (event, mark) :: rest) =
      s.step event mark >>= fun s => run s rest := by
  rw [run]
  exact hEvent

mutual

/- The events of a node are its load, put in its place. -/
theorem run_tree
    (t : Tree)
    (s : State)
    (rest : List Report) :
    run s (t.events.map .ok ++ rest) =
      t.load s.stack.length (isKey s.stack) s.anchors >>=
        fun p =>
          { s with anchors := p.2 }.place p.1 0 >>= fun s =>
            run s rest := by
  match t with
  | .scalar value style anchor tag mark =>
      rw [Tree.events, List.map_singleton,
        List.singleton_append, run_step (by nofun), State.step,
        Tree.load]
      split
      · rfl
      · cases scalarNode value style tag mark with
        | error reason => rfl
        | ok node => rfl
  | .alias id mark =>
      rw [Tree.events, List.map_singleton,
        List.singleton_append, run_step (by nofun), State.step,
        Tree.load]
      cases s.anchors.lookup id <;> rfl
  | .seq anchor tag items start stop =>
      rw [Tree.events, List.map_cons, List.cons_append,
        run_step (by nofun), State.step, State.push, Tree.load]
      split
      · rfl
      split
      · rfl
      rw [Lib.ok_bind, List.map_append, List.append_assoc,
        run_items items
          { s with stack := .seq anchor [] :: s.stack }
          anchor [] s.stack rfl]
      simp only [List.length_cons]
      cases loadItems (s.stack.length + 1) s.anchors items with
      | error reason => rfl
      | ok loaded => rfl
  | .map anchor tag entries start stop =>
      rw [Tree.events, List.map_cons, List.cons_append,
        run_step (by nofun), State.step, State.push, Tree.load]
      split
      · rfl
      split
      · rfl
      rw [Lib.ok_bind, List.map_append, List.append_assoc,
        run_entries entries
          { s with stack := .map anchor [] none :: s.stack }
          anchor [] s.stack rfl]
      simp only [List.length_cons]
      cases loadEntries (s.stack.length + 1) s.anchors
          entries with
      | error reason => rfl
      | ok loaded => rfl

theorem run_items
    (items : List Tree)
    (s : State)
    (anchor : Nat)
    (before : List Node)
    (stack : List Frame)
    (hStack : s.stack = .seq anchor before :: stack)
    (rest : List Report) :
    run s ((itemEvents items).map .ok ++ rest) =
      loadItems s.stack.length s.anchors items >>= fun p =>
        run
          { s with
            anchors := p.2
            stack := .seq anchor (before ++ p.1) :: stack }
          rest := by
  match items with
  | [] =>
      rw [itemEvents, loadItems, Lib.ok_bind, List.append_nil,
        ← hStack]
      rfl
  | item :: items =>
      have hKey : isKey s.stack = false := by
        rw [hStack]
        rfl
      rw [itemEvents, List.map_append, List.append_assoc,
        run_tree item s, loadItems, hKey]
      cases item.load s.stack.length false s.anchors with
      | error reason => rfl
      | ok loaded =>
          have hPlace :
              { s with anchors := loaded.2 }.place loaded.1 0 =
                .ok
                  { s with
                    anchors := loaded.2
                    stack :=
                      .seq anchor (before ++ [loaded.1]) ::
                        stack } := by
            unfold State.place
            simp only [hStack]
            rfl
          rw [Lib.ok_bind, Lib.ok_bind, hPlace, Lib.ok_bind,
            run_items items
              { s with
                anchors := loaded.2
                stack :=
                  .seq anchor (before ++ [loaded.1]) :: stack }
              anchor (before ++ [loaded.1]) stack rfl]
          simp only [hStack, List.length_cons]
          cases loadItems (stack.length + 1) loaded.2
              items with
          | error reason => rfl
          | ok later =>
              simp only [Lib.ok_bind, List.append_assoc,
                List.singleton_append]
              rfl

theorem run_entries
    (entries : List (Tree × Tree))
    (s : State)
    (anchor : Nat)
    (before : List (Option Str × Node))
    (stack : List Frame)
    (hStack : s.stack = .map anchor before none :: stack)
    (rest : List Report) :
    run s ((entryEvents entries).map .ok ++ rest) =
      loadEntries s.stack.length s.anchors entries >>= fun p =>
        run
          { s with
            anchors := p.2
            stack := .map anchor (before ++ p.1) none :: stack }
          rest := by
  match entries with
  | [] =>
      rw [entryEvents, loadEntries, Lib.ok_bind,
        List.append_nil, ← hStack]
      rfl
  | (key, value) :: entries =>
      have hKey : isKey s.stack = true := by
        rw [hStack]
        rfl
      rw [entryEvents, List.map_append, List.append_assoc,
        run_tree key s, loadEntries, hKey]
      cases key.load s.stack.length true s.anchors with
      | error reason => rfl
      | ok loaded =>
          rw [Lib.ok_bind, Lib.ok_bind]
          have hPlace :
              { s with anchors := loaded.2 }.place loaded.1 0 =
                keyOf loaded.1 >>= fun name =>
                  .ok
                    { s with
                      anchors := loaded.2
                      stack :=
                        .map anchor before (some name) ::
                          stack } := by
            unfold State.place
            simp only [hStack]
            rfl
          rw [hPlace]
          simp only
          cases keyOf loaded.1 with
          | error reason => rfl
          | ok name =>
              rw [Lib.ok_bind, Lib.ok_bind, Lib.ok_bind,
                List.map_append, List.append_assoc,
                run_tree value
                  { s with
                    anchors := loaded.2
                    stack :=
                      .map anchor before (some name) :: stack }]
              simp only [hStack, List.length_cons, isKey]
              cases value.load (stack.length + 1) false
                  loaded.2 with
              | error reason => rfl
              | ok held =>
                  have hHeld :
                      { s with
                        anchors := held.2
                        stack :=
                          .map anchor before (some name) ::
                            stack }.place held.1 0 =
                        .ok
                          { s with
                            anchors := held.2
                            stack :=
                              .map anchor
                                (before ++ [(name, held.1)])
                                none :: stack } := by
                    rfl
                  rw [Lib.ok_bind, Lib.ok_bind, hHeld,
                    Lib.ok_bind,
                    run_entries entries
                      { s with
                        anchors := held.2
                        stack :=
                          .map anchor
                            (before ++ [(name, held.1)])
                            none :: stack }
                      anchor (before ++ [(name, held.1)])
                      stack rfl]
                  simp only [List.length_cons]
                  cases loadEntries (stack.length + 1) held.2
                      entries with
                  | error reason => rfl
                  | ok later =>
                      simp only [Lib.ok_bind,
                        List.append_assoc,
                        List.singleton_append]
                      rfl

end

end Yaml

end MailgunRelay

------------------------------------------------------------
-- Expansion
------------------------------------------------------------

namespace MailgunRelay

namespace Yaml

open Secrets (Node)

/- A node under its anchor, if it has one. -/
def named (anchor : Nat) (t : Tree) : List (Nat × Tree) :=
  if anchor ≠ 0 then [(anchor, t)] else []

mutual

/- The anchored nodes, in the order they are completed. -/
def Tree.anchored : Tree → List (Nat × Tree)
| .scalar value style anchor tag mark =>
    named anchor (.scalar value style anchor tag mark)
| .alias _ _ => []
| .seq anchor tag items start stop =>
    anchoredItems items ++
      named anchor (.seq anchor tag items start stop)
| .map anchor tag entries start stop =>
    anchoredEntries entries ++
      named anchor (.map anchor tag entries start stop)

def anchoredItems : List Tree → List (Nat × Tree)
| [] => []
| item :: items => item.anchored ++ anchoredItems items

def anchoredEntries :
    List (Tree × Tree) → List (Nat × Tree)
| [] => []
| (key, value) :: entries =>
    key.anchored ++ (value.anchored ++ anchoredEntries entries)

end

def Tree.ids (t : Tree) : List Nat :=
  t.anchored.map Prod.fst

mutual

/- The aliases of a node. -/
def Tree.aliases : Tree → List Nat
| .scalar _ _ _ _ _ => []
| .alias id _ => [id]
| .seq _ _ items _ _ => aliasesItems items
| .map _ _ entries _ _ => aliasesEntries entries

def aliasesItems : List Tree → List Nat
| [] => []
| item :: items => item.aliases ++ aliasesItems items

def aliasesEntries : List (Tree × Tree) → List Nat
| [] => []
| (key, value) :: entries =>
    key.aliases ++ (value.aliases ++ aliasesEntries entries)

end

/- The key of an entry; a collection is none. -/
def keyName (node : Node) : Option Str :=
  match keyOf node with
  | .ok name => name
  | .error _ => none

mutual

/- The node, where an alias is what `env` says. -/
def Tree.expand (env : Nat → Node) : Tree → Node
| .scalar value style _ tag mark =>
    match scalarNode value style tag mark with
    | .ok node => node
    | .error _ => .null
| .alias id _ => env id
| .seq _ _ items _ _ => .seq (expandItems env items)
| .map _ _ entries _ _ => .map (expandEntries env entries)

def expandItems (env : Nat → Node) : List Tree → List Node
| [] => []
| item :: items => item.expand env :: expandItems env items

def expandEntries
    (env : Nat → Node) :
    List (Tree × Tree) → List (Option Str × Node)
| [] => []
| (key, value) :: entries =>
    (keyName (key.expand env), value.expand env) ::
      expandEntries env entries

end

/- An alias stands for the node with that anchor. -/
def Tree.Consistent (env : Nat → Node) (t : Tree) : Prop :=
  ∀ p ∈ t.anchored, env p.1 = p.2.expand env

mutual

/-
  Every alias is one of a completed node: of those in `done`
  or of one that was completed since.
-/
def Tree.Ready (done : Nat → Prop) : Tree → Prop
| .scalar _ _ _ _ _ => True
| .alias id _ => done id
| .seq _ _ items _ _ => ReadyItems done items
| .map _ _ entries _ _ => ReadyEntries done entries

def ReadyItems (done : Nat → Prop) : List Tree → Prop
| [] => True
| item :: items =>
    item.Ready done ∧
      ReadyItems (fun id => done id ∨ id ∈ item.ids) items

def ReadyEntries
    (done : Nat → Prop) : List (Tree × Tree) → Prop
| [] => True
| (key, value) :: entries =>
    key.Ready done ∧
      value.Ready (fun id => done id ∨ id ∈ key.ids) ∧
      ReadyEntries
        (fun id =>
          (done id ∨ id ∈ key.ids) ∨ id ∈ value.ids)
        entries

end

mutual

/-
  A node of scalars that have a type, without other tags,
  with scalar keys, and not too deep.
-/
def Tree.Valid
    (env : Nat → Node)
    (depth : Nat)
    (key : Bool) : Tree → Prop
| .scalar value style _ tag mark =>
    (∃ node, scalarNode value style tag mark = .ok node) ∧
      ¬ (key = true ∧ value = [] ∧ style = .plain ∧
        tag.isNone = true)
| .alias _ _ => True
| .seq _ tag items _ _ =>
    tag.isNone = true ∧ depth < maxDepth ∧
      ValidItems env (depth + 1) items
| .map _ tag entries _ _ =>
    tag.isNone = true ∧ depth < maxDepth ∧
      ValidEntries env (depth + 1) entries

def ValidItems
    (env : Nat → Node)
    (depth : Nat) : List Tree → Prop
| [] => True
| item :: items =>
    item.Valid env depth false ∧ ValidItems env depth items

def ValidEntries
    (env : Nat → Node)
    (depth : Nat) : List (Tree × Tree) → Prop
| [] => True
| (key, value) :: entries =>
    key.Valid env depth true ∧
      (∃ name, keyOf (key.expand env) = .ok name) ∧
      value.Valid env depth false ∧
      ValidEntries env depth entries

end

end Yaml

end MailgunRelay

------------------------------------------------------------
-- Valid Trees Are Expanded
------------------------------------------------------------

namespace MailgunRelay

namespace Yaml

open Secrets (Node)

/- The anchors hold what `env` says. -/
def Known
    (env : Nat → Node)
    (anchors : List (Nat × Node)) : Prop :=
  ∀ p ∈ anchors, env p.1 = p.2

/- The completed nodes. -/
def Done (anchors : List (Nat × Node)) (id : Nat) : Prop :=
  id ∈ anchors.map Prod.fst

theorem lookup_of_done
    {env : Nat → Node}
    {anchors : List (Nat × Node)}
    {id : Nat}
    (hKnown : Known env anchors)
    (hDone : Done anchors id) :
    anchors.lookup id = some (env id) := by
  induction anchors with
  | nil => cases hDone
  | cons p rest ih =>
      rcases p with ⟨other, node⟩
      by_cases hSame : id = other
      · subst hSame
        rw [List.lookup_cons_self,
          hKnown (id, node) List.mem_cons_self]
      · rw [List.lookup_cons, beq_false_of_ne hSame]
        apply ih
        · intro p hMem
          exact hKnown p (List.mem_cons_of_mem _ hMem)
        · rcases List.mem_cons.mp hDone with hHere | hLater
          · exact absurd hHere hSame
          · exact hLater

theorem done_register
    (anchors : List (Nat × Node))
    (anchor : Nat)
    (node : Node)
    (t : Tree) :
    Done (register anchors anchor node) = fun id =>
      Done anchors id ∨ id ∈ (named anchor t).map Prod.fst := by
  funext id
  unfold register named Done
  split
  · simp only [List.map_cons, List.mem_cons, List.map_nil,
      List.not_mem_nil, or_false, eq_iff_iff]
    exact Or.comm
  · simp

theorem known_register
    {env : Nat → Node}
    {anchors : List (Nat × Node)}
    {anchor : Nat}
    {t : Tree}
    (hKnown : Known env anchors)
    (hNamed : ∀ p ∈ named anchor t, env p.1 = p.2.expand env) :
    Known env (register anchors anchor (t.expand env)) := by
  unfold register
  unfold named at hNamed
  split
  · rename_i hAnchor
    rw [if_pos hAnchor] at hNamed
    intro p hMem
    rcases List.mem_cons.mp hMem with rfl | hMem
    · exact hNamed _ List.mem_cons_self
    · exact hKnown p hMem
  · exact hKnown

mutual

/- A valid node is loaded as its expansion. -/
theorem Tree.load_eq_expand
    (env : Nat → Node)
    (t : Tree)
    (depth : Nat)
    (key : Bool)
    (anchors : List (Nat × Node))
    (hKnown : Known env anchors)
    (hReady : t.Ready (Done anchors))
    (hConsistent : t.Consistent env)
    (hValid : t.Valid env depth key) :
    ∃ anchors',
      t.load depth key anchors =
          .ok (t.expand env, anchors') ∧
        Known env anchors' ∧
        Done anchors' = fun id =>
          Done anchors id ∨ id ∈ t.ids := by
  match t with
  | .scalar value style anchor tag mark =>
      rcases hValid with ⟨⟨node, hNode⟩, hKey⟩
      have hExpand :
          Tree.expand env
              (.scalar value style anchor tag mark) =
            node := by
        rw [Tree.expand, hNode]
      refine
        ⟨register anchors anchor node, ?_, ?_,
          done_register anchors anchor node _⟩
      · rw [Tree.load, if_neg, hNode, hExpand]
        · rfl
        · simp only [Bool.and_eq_true, decide_eq_true_eq,
            List.isEmpty_iff]
          rintro ⟨⟨⟨hHere, hEmpty⟩, hPlain⟩, hTag⟩
          exact hKey ⟨hHere, hEmpty, hPlain, hTag⟩
      · rw [← hExpand]
        exact known_register hKnown hConsistent
  | .alias id mark =>
      refine ⟨anchors, ?_, hKnown, ?_⟩
      · rw [Tree.load, lookup_of_done hKnown hReady]
        rfl
      · funext id'
        simp [Tree.ids, Tree.anchored]
  | .seq anchor tag items start stop =>
      rcases hValid with ⟨hTag, hDepth, hItems⟩
      rcases
        loadItems_eq_expand env items (depth + 1) anchors
          hKnown hReady
          (fun p hMem =>
            hConsistent p (List.mem_append_left _ hMem))
          hItems with
        ⟨anchors', hLoad, hKnown', hDone⟩
      refine
        ⟨register anchors' anchor (.seq (expandItems env items)),
          ?_, ?_, ?_⟩
      · rw [Tree.load, if_neg, if_neg (by omega), hLoad]
        · rfl
        · simpa using hTag
      · exact
          known_register hKnown' fun p hMem =>
            hConsistent p (List.mem_append_right _ hMem)
      · rw [done_register anchors' anchor _
          (.seq anchor tag items start stop), hDone]
        funext id
        simp only [Tree.ids, Tree.anchored, List.map_append,
          List.mem_append, or_assoc]
  | .map anchor tag entries start stop =>
      rcases hValid with ⟨hTag, hDepth, hEntries⟩
      rcases
        loadEntries_eq_expand env entries (depth + 1) anchors
          hKnown hReady
          (fun p hMem =>
            hConsistent p (List.mem_append_left _ hMem))
          hEntries with
        ⟨anchors', hLoad, hKnown', hDone⟩
      refine
        ⟨register anchors' anchor
            (.map (expandEntries env entries)),
          ?_, ?_, ?_⟩
      · rw [Tree.load, if_neg, if_neg (by omega), hLoad]
        · rfl
        · simpa using hTag
      · exact
          known_register hKnown' fun p hMem =>
            hConsistent p (List.mem_append_right _ hMem)
      · rw [done_register anchors' anchor _
          (.map anchor tag entries start stop), hDone]
        funext id
        simp only [Tree.ids, Tree.anchored, List.map_append,
          List.mem_append, or_assoc]

theorem loadItems_eq_expand
    (env : Nat → Node)
    (items : List Tree)
    (depth : Nat)
    (anchors : List (Nat × Node))
    (hKnown : Known env anchors)
    (hReady : ReadyItems (Done anchors) items)
    (hConsistent :
      ∀ p ∈ anchoredItems items, env p.1 = p.2.expand env)
    (hValid : ValidItems env depth items) :
    ∃ anchors',
      loadItems depth anchors items =
          .ok (expandItems env items, anchors') ∧
        Known env anchors' ∧
        Done anchors' = fun id =>
          Done anchors id ∨
            id ∈ (anchoredItems items).map Prod.fst := by
  match items with
  | [] =>
      refine ⟨anchors, rfl, hKnown, ?_⟩
      funext id
      simp [anchoredItems]
  | item :: items =>
      rcases
        Tree.load_eq_expand env item depth false anchors hKnown
          hReady.1
          (fun p hMem =>
            hConsistent p (List.mem_append_left _ hMem))
          hValid.1 with
        ⟨anchors', hItem, hKnown', hDone⟩
      have hReady' : ReadyItems (Done anchors') items := by
        rw [hDone]
        exact hReady.2
      rcases
        loadItems_eq_expand env items depth anchors' hKnown'
          hReady'
          (fun p hMem =>
            hConsistent p (List.mem_append_right _ hMem))
          hValid.2 with
        ⟨anchors'', hItems, hKnown'', hDone'⟩
      refine ⟨anchors'', ?_, hKnown'', ?_⟩
      · rw [loadItems, hItem, Lib.ok_bind]
        simp only
        rw [hItems]
        rfl
      · rw [hDone', hDone]
        funext id
        simp only [Tree.ids, anchoredItems, List.map_append,
          List.mem_append, or_assoc]

theorem loadEntries_eq_expand
    (env : Nat → Node)
    (entries : List (Tree × Tree))
    (depth : Nat)
    (anchors : List (Nat × Node))
    (hKnown : Known env anchors)
    (hReady : ReadyEntries (Done anchors) entries)
    (hConsistent :
      ∀ p ∈ anchoredEntries entries, env p.1 = p.2.expand env)
    (hValid : ValidEntries env depth entries) :
    ∃ anchors',
      loadEntries depth anchors entries =
          .ok (expandEntries env entries, anchors') ∧
        Known env anchors' ∧
        Done anchors' = fun id =>
          Done anchors id ∨
            id ∈ (anchoredEntries entries).map Prod.fst := by
  match entries with
  | [] =>
      refine ⟨anchors, rfl, hKnown, ?_⟩
      funext id
      simp [anchoredEntries]
  | (key, value) :: entries =>
      rcases hValid with ⟨hKey, ⟨name, hName⟩, hValue, hEntries⟩
      rcases
        Tree.load_eq_expand env key depth true anchors hKnown
          hReady.1
          (fun p hMem =>
            hConsistent p (List.mem_append_left _ hMem))
          hKey with
        ⟨anchors', hLoad, hKnown', hDone⟩
      have hReady' : value.Ready (Done anchors') := by
        rw [hDone]
        exact hReady.2.1
      rcases
        Tree.load_eq_expand env value depth false anchors'
          hKnown' hReady'
          (fun p hMem =>
            hConsistent p
              (List.mem_append_right _
                (List.mem_append_left _ hMem)))
          hValue with
        ⟨anchors'', hLoad', hKnown'', hDone'⟩
      have hReady'' : ReadyEntries (Done anchors'') entries := by
        rw [hDone', hDone]
        exact hReady.2.2
      rcases
        loadEntries_eq_expand env entries depth anchors''
          hKnown'' hReady''
          (fun p hMem =>
            hConsistent p
              (List.mem_append_right _
                (List.mem_append_right _ hMem)))
          hEntries with
        ⟨last, hLast, hKnownLast, hDoneLast⟩
      refine ⟨last, ?_, hKnownLast, ?_⟩
      · have hKeyName :
            keyName (key.expand env) = name := by
          unfold keyName
          rw [hName]
        rw [loadEntries, hLoad, Lib.ok_bind]
        simp only
        rw [hName, Lib.ok_bind, hLoad', Lib.ok_bind]
        simp only
        rw [hLast, Lib.ok_bind, expandEntries, hKeyName]
        rfl
      · rw [hDoneLast, hDone', hDone]
        funext id
        simp only [Tree.ids, anchoredEntries, List.map_append,
          List.mem_append, or_assoc]

end

end Yaml

end MailgunRelay

------------------------------------------------------------
-- Aliases Have A Meaning
------------------------------------------------------------

namespace MailgunRelay

namespace Yaml

open Secrets (Node)

/- The keys and values of a mapping, as they are written. -/
def flat : List (Tree × Tree) → List Tree
| [] => []
| (key, value) :: entries => key :: value :: flat entries

def Tree.children : Tree → List Tree
| .scalar _ _ _ _ _ => []
| .alias _ _ => []
| .seq _ _ items _ _ => items
| .map _ _ entries _ _ => flat entries

def Tree.anchor : Tree → Nat
| .scalar _ _ anchor _ _ => anchor
| .alias _ _ => 0
| .seq anchor _ _ _ _ => anchor
| .map anchor _ _ _ _ => anchor

mutual

/- Induction on the nodes of a tree. -/
theorem Tree.inductOn
    {P : Tree → Prop}
    (hNode : ∀ t, (∀ c ∈ t.children, P c) → P t)
    (t : Tree) :
    P t := by
  match t with
  | .scalar value style anchor tag mark => exact hNode _ nofun
  | .alias id mark => exact hNode _ nofun
  | .seq anchor tag items start stop =>
      exact hNode _ (inductItems hNode items)
  | .map anchor tag entries start stop =>
      exact hNode _ (inductEntries hNode entries)

theorem inductItems
    {P : Tree → Prop}
    (hNode : ∀ t, (∀ c ∈ t.children, P c) → P t)
    (items : List Tree) :
    ∀ c ∈ items, P c := by
  match items with
  | [] => exact nofun
  | item :: items =>
      exact
        List.forall_mem_cons.mpr
          ⟨Tree.inductOn hNode item, inductItems hNode items⟩

theorem inductEntries
    {P : Tree → Prop}
    (hNode : ∀ t, (∀ c ∈ t.children, P c) → P t)
    (entries : List (Tree × Tree)) :
    ∀ c ∈ flat entries, P c := by
  match entries with
  | [] => exact nofun
  | (key, value) :: entries =>
      exact
        List.forall_mem_cons.mpr
          ⟨Tree.inductOn hNode key,
            List.forall_mem_cons.mpr
              ⟨Tree.inductOn hNode value,
                inductEntries hNode entries⟩⟩

end

theorem anchoredEntries_eq
    (entries : List (Tree × Tree)) :
    anchoredEntries entries = anchoredItems (flat entries) := by
  induction entries with
  | nil => rfl
  | cons entry entries ih =>
      rw [anchoredEntries, flat, anchoredItems, anchoredItems,
        ih]

theorem aliasesEntries_eq
    (entries : List (Tree × Tree)) :
    aliasesEntries entries = aliasesItems (flat entries) := by
  induction entries with
  | nil => rfl
  | cons entry entries ih =>
      rw [aliasesEntries, flat, aliasesItems, aliasesItems, ih]

theorem readyEntries_iff
    {done : Nat → Prop}
    {entries : List (Tree × Tree)} :
    ReadyEntries done entries ↔
      ReadyItems done (flat entries) := by
  induction entries generalizing done with
  | nil => rfl
  | cons entry entries ih =>
      rw [ReadyEntries, flat, ReadyItems, ReadyItems, ih]

/- The anchors of the children, and then the own one. -/
theorem Tree.anchored_eq
    (t : Tree) :
    t.anchored = anchoredItems t.children ++ named t.anchor t := by
  cases t with
  | scalar | «alias» | seq => rfl
  | map anchor tag entries start stop =>
      rw [Tree.anchored, anchoredEntries_eq]
      rfl

/- The aliases of a child are aliases of the node. -/
theorem Tree.aliases_children
    {t : Tree}
    {id : Nat}
    (hMem : id ∈ aliasesItems t.children) :
    id ∈ t.aliases := by
  cases t with
  | scalar | «alias» => cases hMem
  | seq => exact hMem
  | map anchor tag entries start stop =>
      rw [Tree.aliases, aliasesEntries_eq]
      exact hMem

/- An anchored node is no alias itself. -/
theorem Tree.aliases_eq
    {t : Tree}
    (hAnchor : t.anchor ≠ 0) :
    t.aliases = aliasesItems t.children := by
  cases t with
  | «alias» => exact absurd rfl hAnchor
  | scalar | seq => rfl
  | map anchor tag entries start stop =>
      exact aliasesEntries_eq entries

theorem Tree.ready_children
    {t : Tree}
    {done : Nat → Prop}
    (hReady : t.Ready done) :
    ReadyItems done t.children := by
  cases t with
  | scalar | «alias» => exact trivial
  | seq => exact hReady
  | map anchor tag entries start stop =>
      exact readyEntries_iff.mp hReady

theorem mem_aliasesItems
    {items : List Tree}
    {id : Nat} :
    id ∈ aliasesItems items ↔ ∃ c ∈ items, id ∈ c.aliases := by
  induction items with
  | nil => simp [aliasesItems]
  | cons item items ih => simp [aliasesItems, ih]

theorem mem_anchoredItems
    {items : List Tree}
    {p : Nat × Tree} :
    p ∈ anchoredItems items ↔ ∃ c ∈ items, p ∈ c.anchored := by
  induction items with
  | nil => simp [anchoredItems]
  | cons item items ih => simp [anchoredItems, ih]

/- The aliases of an anchored node are aliases of the tree. -/
theorem Tree.aliases_of_anchored
    (t : Tree) :
    ∀ p ∈ t.anchored, ∀ id ∈ p.2.aliases, id ∈ t.aliases := by
  induction t using Tree.inductOn with
  | hNode t ih =>
      intro p hMem id hAlias
      rw [Tree.anchored_eq, List.mem_append] at hMem
      rcases hMem with hMem | hMem
      · rcases mem_anchoredItems.mp hMem with ⟨c, hChild, hMem⟩
        exact
          Tree.aliases_children
            (mem_aliasesItems.mpr
              ⟨c, hChild, ih c hChild p hMem id hAlias⟩)
      · unfold named at hMem
        split at hMem
        · rw [List.mem_singleton.mp hMem] at hAlias
          exact hAlias
        · cases hMem

/- What the environment says of other ids does not matter. -/
theorem Tree.expand_congr
    {env env' : Nat → Node}
    (t : Tree)
    (hSame : ∀ id ∈ t.aliases, env id = env' id) :
    t.expand env = t.expand env' := by
  induction t using Tree.inductOn with
  | hNode t ih =>
      have hChildren :
          ∀ c ∈ t.children, c.expand env = c.expand env' :=
        fun c hChild =>
          ih c hChild fun id hAlias =>
            hSame id
              (Tree.aliases_children
                (mem_aliasesItems.mpr ⟨c, hChild, hAlias⟩))
      cases t with
      | scalar => rfl
      | «alias» id mark => exact hSame id List.mem_cons_self
      | seq anchor tag items start stop =>
          have hItems (items : List Tree)
              (hAll : ∀ c ∈ items,
                c.expand env = c.expand env') :
              expandItems env items = expandItems env' items := by
            induction items with
            | nil => rfl
            | cons item items ih' =>
                rw [List.forall_mem_cons] at hAll
                rw [expandItems, expandItems, hAll.1,
                  ih' hAll.2]
          rw [Tree.expand, Tree.expand, hItems items hChildren]
      | map anchor tag entries start stop =>
          have hEntries (entries : List (Tree × Tree))
              (hAll : ∀ c ∈ flat entries,
                c.expand env = c.expand env') :
              expandEntries env entries =
                expandEntries env' entries := by
            induction entries with
            | nil => rfl
            | cons entry entries ih' =>
                rw [flat, List.forall_mem_cons,
                  List.forall_mem_cons] at hAll
                rw [expandEntries, expandEntries, hAll.1,
                  hAll.2.1, ih' hAll.2.2]
          rw [Tree.expand, Tree.expand,
            hEntries entries hChildren]

theorem doneItems_of_alias
    {items : List Tree}
    (hAll :
      ∀ c ∈ items, ∀ done : Nat → Prop, c.Ready done →
        ∀ id ∈ c.aliases, done id ∨ id ∈ c.ids) :
    ∀ done : Nat → Prop, ReadyItems done items →
      ∀ id ∈ aliasesItems items,
        done id ∨ id ∈ (anchoredItems items).map Prod.fst := by
  induction items with
  | nil =>
      intro done _ id hAlias
      cases hAlias
  | cons item items ih =>
      intro done hReady id hAlias
      rw [List.forall_mem_cons] at hAll
      rw [anchoredItems, List.map_append, List.mem_append]
      rcases List.mem_append.mp hAlias with hAlias | hAlias
      · rcases hAll.1 done hReady.1 id hAlias with
          hDone | hHere
        · exact .inl hDone
        · exact .inr (.inl hHere)
      · rcases ih hAll.2 _ hReady.2 id hAlias with
          (hDone | hHere) | hLater
        · exact .inl hDone
        · exact .inr (.inl hHere)
        · exact .inr (.inr hLater)

/- The anchors of the children are among those of the node. -/
theorem Tree.ids_eq
    (t : Tree) :
    t.ids =
      (anchoredItems t.children).map Prod.fst ++
        (named t.anchor t).map Prod.fst := by
  rw [Tree.ids, Tree.anchored_eq, List.map_append]

/- An alias of a ready tree has a completed node. -/
theorem Tree.done_of_alias
    (t : Tree) :
    ∀ done : Nat → Prop, t.Ready done →
      ∀ id ∈ t.aliases, done id ∨ id ∈ t.ids := by
  induction t using Tree.inductOn with
  | hNode t ih =>
      intro done hReady id hAlias
      have hItems :=
        doneItems_of_alias ih done (Tree.ready_children hReady)
      have hIds :
          ∀ id ∈ aliasesItems t.children,
            done id ∨ id ∈ t.ids := by
        intro id hMem
        rw [Tree.ids_eq, List.mem_append]
        rcases hItems id hMem with hDone | hHere
        · exact .inl hDone
        · exact .inr (.inl hHere)
      cases t with
      | scalar => cases hAlias
      | «alias» other mark =>
          rw [List.mem_singleton.mp hAlias]
          exact .inl hReady
      | seq => exact hIds id hAlias
      | map anchor tag entries start stop =>
          rw [Tree.aliases, aliasesEntries_eq] at hAlias
          exact hIds id hAlias

/-
  A consistent environment may be changed where no alias of
  the list looks.
-/
theorem consistentItems_congr
    {env env' : Nat → Node}
    {done : Nat → Prop}
    {items : List Tree}
    (hReady : ReadyItems done items)
    (hConsistent : ∀ c ∈ items, c.Consistent env)
    (hSame :
      ∀ id,
        done id ∨ id ∈ (anchoredItems items).map Prod.fst →
          env' id = env id) :
    ∀ c ∈ items, c.Consistent env' := by
  intro c hChild p hMem
  have hAnchored : p ∈ anchoredItems items :=
    mem_anchoredItems.mpr ⟨c, hChild, hMem⟩
  rw [hSame p.1 (.inr (List.mem_map_of_mem hAnchored)),
    hConsistent c hChild p hMem]
  apply Tree.expand_congr
  intro id hAlias
  have hHere : id ∈ aliasesItems items :=
    mem_aliasesItems.mpr
      ⟨c, hChild, c.aliases_of_anchored p hMem id hAlias⟩
  exact
    (hSame id
      (doneItems_of_alias
        (fun c _ => c.done_of_alias) done hReady id hHere)).symm

/-
  Children that each have a meaning have one together: what a
  later child adds, the earlier ones do not look at.
-/
theorem exists_consistentItems
    {items : List Tree}
    (hAll :
      ∀ c ∈ items, ∀ (env : Nat → Node) (done : Nat → Prop),
        c.Ready done → c.ids.Nodup →
          (∀ id ∈ c.ids, ¬ done id) →
            ∃ env', (∀ id, id ∉ c.ids → env' id = env id) ∧
              c.Consistent env') :
    ∀ (env : Nat → Node) (done : Nat → Prop),
      ReadyItems done items →
        ((anchoredItems items).map Prod.fst).Nodup →
          (∀ id ∈ (anchoredItems items).map Prod.fst,
            ¬ done id) →
            ∃ env',
              (∀ id,
                id ∉ (anchoredItems items).map Prod.fst →
                  env' id = env id) ∧
                ∀ c ∈ items, c.Consistent env' := by
  induction items with
  | nil =>
      intro env done _ _ _
      exact ⟨env, fun _ _ => rfl, nofun⟩
  | cons item items ih =>
      intro env done hReady hNodup hNew
      rw [List.forall_mem_cons] at hAll
      rw [anchoredItems, List.map_append,
        List.nodup_append'] at hNodup
      simp only [anchoredItems, List.map_append,
        List.mem_append, not_or] at hNew ⊢
      rcases
        hAll.1 env done hReady.1 hNodup.1
          (fun id hMem => hNew id (.inl hMem)) with
        ⟨env₁, hOff₁, hItem⟩
      rcases
        ih hAll.2 env₁ (fun id => done id ∨ id ∈ item.ids)
          hReady.2 hNodup.2.1
          (by
            rintro id hMem (hDone | hHere)
            · exact hNew id (.inr hMem) hDone
            · exact hNodup.2.2 hHere hMem) with
        ⟨env₂, hOff₂, hItems⟩
      refine ⟨env₂, ?_, ?_⟩
      · intro id hFree
        rw [hOff₂ id hFree.2, hOff₁ id hFree.1]
      · rw [List.forall_mem_cons]
        refine ⟨?_, hItems⟩
        have hHead :
            ∀ c ∈ [item], c.Consistent env₂ := by
          apply @consistentItems_congr env₁ env₂ done [item]
            ⟨hReady.1, trivial⟩
          · simpa using hItem
          · simp only [anchoredItems, List.append_nil]
            rintro id (hDone | hHere)
            · apply hOff₂
              intro hMem
              exact hNew id (.inr hMem) hDone
            · apply hOff₂
              intro hMem
              exact hNodup.2.2 hHere hMem
        exact hHead item List.mem_cons_self

/-
  Distinct anchors and aliases to completed nodes: there is
  an environment in which every alias stands for the node
  with its anchor.
-/
theorem Tree.exists_consistent
    (t : Tree) :
    ∀ (env : Nat → Node) (done : Nat → Prop),
      t.Ready done → t.ids.Nodup →
        (∀ id ∈ t.ids, ¬ done id) →
          ∃ env', (∀ id, id ∉ t.ids → env' id = env id) ∧
            t.Consistent env' := by
  induction t using Tree.inductOn with
  | hNode t ih =>
      intro env done hReady hNodup hNew
      rw [Tree.ids_eq, List.nodup_append'] at hNodup
      simp only [Tree.ids_eq, List.mem_append,
        not_or] at hNew ⊢
      have hChildren := Tree.ready_children hReady
      rcases
        exists_consistentItems ih env done hChildren hNodup.1
          (fun id hMem => hNew id (.inl hMem)) with
        ⟨env', hOff, hItems⟩
      by_cases hAnchor : t.anchor = 0
      · -- Nothing refers to the node itself.
        refine ⟨env', fun id hFree => hOff id hFree.1, ?_⟩
        intro p hMem
        rw [Tree.anchored_eq, named, if_neg (by simpa),
          List.append_nil] at hMem
        rcases mem_anchoredItems.mp hMem with ⟨c, hChild, hMem⟩
        exact hItems c hChild p hMem
      · rw [named, if_pos hAnchor] at hNodup hNew
        rw [named, if_pos hAnchor]
        have hFresh :
            t.anchor ∉ (anchoredItems t.children).map Prod.fst :=
          fun hMem =>
            hNodup.2.2 hMem List.mem_cons_self
        have hSame :
            ∀ id,
              done id ∨
                id ∈ (anchoredItems t.children).map Prod.fst →
              Function.update env' t.anchor (t.expand env') id =
                env' id := by
          intro id hMem
          apply Function.update_of_ne
          rintro rfl
          rcases hMem with hDone | hMem
          · exact
              hNew t.anchor (.inr List.mem_cons_self) hDone
          · exact hFresh hMem
        refine
          ⟨Function.update env' t.anchor (t.expand env'),
            ?_, ?_⟩
        · rintro id ⟨hFree, hOther⟩
          rw [Function.update_of_ne, hOff id hFree]
          rintro rfl
          exact hOther List.mem_cons_self
        · intro p hMem
          rw [Tree.anchored_eq, named, if_pos hAnchor,
            List.mem_append] at hMem
          rcases hMem with hMem | hMem
          · rcases mem_anchoredItems.mp hMem with
              ⟨c, hChild, hMem⟩
            exact
              consistentItems_congr hChildren hItems hSame c
                hChild p hMem
          · rw [List.mem_singleton.mp hMem,
              Function.update_self]
            apply Tree.expand_congr
            intro id hAlias
            symm
            apply hSame
            rw [Tree.aliases_eq hAnchor] at hAlias
            exact
              doneItems_of_alias (fun c _ => c.done_of_alias)
                done hChildren id hAlias

end Yaml

end MailgunRelay
