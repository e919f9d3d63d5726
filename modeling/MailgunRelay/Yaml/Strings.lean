import MailgunRelay.Lib.Assoc
import MailgunRelay.Yaml

/-
  Where the strings of a document come from: each is the
  value of a scalar that is quoted, tagged as a string, or
  plain and of no other YAML 1.1 type.

  Key definitions include:
    * `MailgunRelay.Yaml.hasOtherType`
    * `MailgunRelay.Yaml.IsString`
    * `MailgunRelay.Yaml.Written`
    * `MailgunRelay.Secrets.Node.All`

  Key theorems include:
    * `MailgunRelay.Yaml.scalarNode_eq_str_iff`
    * `MailgunRelay.Yaml.State.All.step`
    * `MailgunRelay.Yaml.run_all`
    * `MailgunRelay.Yaml.parse_all`
-/

------------------------------------------------------------
-- The Strings Of A Node
------------------------------------------------------------

namespace MailgunRelay

namespace Secrets

mutual

/- Every string of the node, also as a key, is in `P`. -/
def Node.All (P : Str → Prop) : Node → Prop
| .str value => P value
| .null => True
| .other _ => True
| .seq items => AllItems P items
| .map entries => AllEntries P entries

def AllItems (P : Str → Prop) : List Node → Prop
| [] => True
| item :: items => item.All P ∧ AllItems P items

def AllEntries
    (P : Str → Prop) : List (Option Str × Node) → Prop
| [] => True
| (key, value) :: entries =>
    (∀ name, key = some name → P name) ∧ value.All P ∧
      AllEntries P entries

end

variable {P : Str → Prop}

theorem allItems_iff
    {items : List Node} :
    AllItems P items ↔ ∀ item ∈ items, item.All P := by
  induction items with
  | nil => simp [AllItems]
  | cons item items ih =>
      rw [AllItems, List.forall_mem_cons, ih]

theorem allEntries_iff
    {entries : List (Option Str × Node)} :
    AllEntries P entries ↔
      ∀ entry ∈ entries,
        (∀ name, entry.1 = some name → P name) ∧
          entry.2.All P := by
  induction entries with
  | nil => simp [AllEntries]
  | cons entry entries ih =>
      rw [AllEntries, List.forall_mem_cons, ih, and_assoc]

/- The strings of a value are strings of the mapping. -/
theorem Node.All.get
    {node value : Node}
    {key : Str}
    (hAll : node.All P)
    (hGet : node.get key = some value) :
    value.All P := by
  cases node with
  | str | null | other | seq => cases hGet
  | map entries =>
      rcases Option.map_eq_some_iff.mp hGet with
        ⟨entry, hFind, rfl⟩
      have hMem := List.mem_of_find?_eq_some hFind
      exact
        (allEntries_iff.mp hAll entry
          (List.mem_reverse.mp hMem)).2

end Secrets

end MailgunRelay

------------------------------------------------------------
-- String Scalars
------------------------------------------------------------

namespace MailgunRelay

namespace Yaml

open Secrets (Node)

/- A plain scalar of another type, or of none. -/
def hasOtherType (value : Str) : Bool :=
  nullPattern.rmatch value || boolPattern.rmatch value ||
    floatPattern.rmatch value || intPattern.rmatch value ||
    timestampPattern.rmatch value || value = "<<".toList ||
    value = "=".toList

/- A scalar that is a string. -/
def IsString
    (value : Str)
    (style : ScalarStyle) : Option Tag → Prop
| some tag => isStrTag tag = true
| none => style ≠ .plain ∨ hasOtherType value = false

/- A string among the reports. -/
def Written (reports : List Report) (value : Str) : Prop :=
  ∃ style anchor tag mark,
    .ok (.scalar value style anchor tag, mark) ∈ reports ∧
      IsString value style tag

theorem resolvePlain_eq_str_iff
    {value text : Str} :
    resolvePlain value = .ok (.str text) ↔
      text = value ∧ hasOtherType value = false := by
  unfold resolvePlain hasOtherType
  by_cases hNull : nullPattern.rmatch value = true
  · rw [if_pos hNull]
    simp [hNull]
  rw [if_neg hNull]
  by_cases hBool : boolPattern.rmatch value = true
  · rw [if_pos hBool]
    simp [hBool]
  rw [if_neg hBool]
  by_cases hFloat : floatPattern.rmatch value = true
  · rw [if_pos hFloat]
    simp [hFloat]
  rw [if_neg hFloat]
  by_cases hInt : intPattern.rmatch value = true
  · rw [if_pos hInt]
    dsimp only
    -- An integer is another type, or an error.
    repeat' split
    all_goals simp [hInt]
  rw [if_neg hInt]
  by_cases hTime : timestampPattern.rmatch value = true
  · rw [if_pos hTime]
    by_cases hValid : timestampIsValid value = true
    · rw [if_pos hValid]
      simp [hTime]
    · rw [if_neg hValid]
      simp [hTime]
  rw [if_neg hTime]
  by_cases hMerge : value = "<<".toList
  · rw [if_pos hMerge]
    simp [hMerge]
  rw [if_neg hMerge]
  by_cases hValue : value = "=".toList
  · rw [if_pos hValue]
    simp [hValue]
  rw [if_neg hValue]
  simp only [hNull, hBool, hFloat, hInt, hTime, hMerge,
    hValue, Except.ok.injEq, Node.str.injEq]
  simp only [Bool.or_self, decide_false, and_true]
  exact eq_comm

theorem scalarNode_eq_str_iff
    {value text : Str}
    {style : ScalarStyle}
    {tag : Option Tag}
    {mark : Mark} :
    scalarNode value style tag mark = .ok (.str text) ↔
      text = value ∧ IsString value style tag := by
  unfold scalarNode IsString
  cases tag with
  | some tag =>
      simp only
      by_cases hTag : isStrTag tag = true
      · rw [if_pos hTag, Except.ok.injEq, Node.str.injEq]
        simp only [hTag, and_true]
        exact eq_comm
      · rw [if_neg hTag]
        simp [hTag]
  | none =>
      simp only
      by_cases hPlain : style = .plain
      · rw [if_pos hPlain, resolvePlain_eq_str_iff]
        simp [hPlain]
      · rw [if_neg hPlain, Except.ok.injEq, Node.str.injEq]
        simp only [ne_eq, hPlain, not_false_eq_true, true_or,
          and_true]
        exact eq_comm

/- A plain scalar is no collection, and so it is a key. -/
theorem keyOf_resolvePlain
    {value : Str}
    {node : Node}
    (hNode : resolvePlain value = .ok node) :
    ∃ name, keyOf node = .ok name := by
  unfold resolvePlain at hNode
  dsimp only at hNode
  repeat' split at hNode
  all_goals cases hNode
  all_goals exact ⟨_, rfl⟩

theorem keyOf_scalarNode
    {value : Str}
    {style : ScalarStyle}
    {tag : Option Tag}
    {mark : Mark}
    {node : Node}
    (hNode : scalarNode value style tag mark = .ok node) :
    ∃ name, keyOf node = .ok name := by
  unfold scalarNode at hNode
  cases tag with
  | some tag =>
      simp only at hNode
      by_cases hTag : isStrTag tag = true
      · rw [if_pos hTag] at hNode
        cases hNode
        exact ⟨_, rfl⟩
      · rw [if_neg hTag] at hNode
        cases hNode
  | none =>
      simp only at hNode
      by_cases hPlain : style = .plain
      · rw [if_pos hPlain] at hNode
        exact keyOf_resolvePlain hNode
      · rw [if_neg hPlain] at hNode
        cases hNode
        exact ⟨_, rfl⟩

theorem scalarNode_all
    {P : Str → Prop}
    {value : Str}
    {style : ScalarStyle}
    {tag : Option Tag}
    {mark : Mark}
    {node : Node}
    (hString : IsString value style tag → P value)
    (hNode : scalarNode value style tag mark = .ok node) :
    node.All P := by
  cases node with
  | null | other => trivial
  | str text =>
      rcases scalarNode_eq_str_iff.mp hNode with ⟨rfl, hIs⟩
      exact hString hIs
  | seq items =>
      rcases keyOf_scalarNode hNode with ⟨name, hName⟩
      cases hName
  | map entries =>
      rcases keyOf_scalarNode hNode with ⟨name, hName⟩
      cases hName

end Yaml

end MailgunRelay

------------------------------------------------------------
-- The Strings Of A Run
------------------------------------------------------------

namespace MailgunRelay

namespace Yaml

open Secrets (Node)

def Frame.All (P : Str → Prop) : Frame → Prop
| .seq _ items => Secrets.AllItems P items
| .map _ entries pending =>
    Secrets.AllEntries P entries ∧
      ∀ name, pending = some (some name) → P name

/- Every string the builder holds is in `P`. -/
structure State.All (P : Str → Prop) (s : State) : Prop where
  anchors : ∀ p ∈ s.anchors, p.2.All P
  stack : ∀ frame ∈ s.stack, frame.All P
  root : ∀ node, s.root = some node → node.All P

variable {P : Str → Prop}
variable {s s' : State}

theorem keyOf_all
    {node : Node}
    {name : Str}
    (hAll : node.All P)
    (hKey : keyOf node = .ok (some name)) :
    P name := by
  cases node with
  | null | other | seq | map => cases hKey
  | str value =>
      cases hKey
      exact hAll

theorem register_all
    {anchors : List (Nat × Node)}
    (anchor : Nat)
    {node : Node}
    (hAnchors : ∀ p ∈ anchors, p.2.All P)
    (hNode : node.All P) :
    ∀ p ∈ register anchors anchor node, p.2.All P := by
  unfold register
  split
  · exact List.forall_mem_cons.mpr ⟨hNode, hAnchors⟩
  · exact hAnchors

theorem State.All.place
    {node : Node}
    {anchor : Nat}
    (hAll : s.All P)
    (hNode : node.All P)
    (hPlace : s.place node anchor = .ok s') :
    s'.All P := by
  have hAnchors := register_all anchor hAll.anchors hNode
  have hFrames := hAll.stack
  unfold State.place at hPlace
  dsimp only at hPlace
  cases hStack : s.stack with
  | nil =>
      rw [hStack] at hPlace
      cases hPlace
      refine ⟨hAnchors, nofun, ?_⟩
      intro root hRoot
      cases hRoot
      exact hNode
  | cons frame stack =>
      rw [hStack, List.forall_mem_cons] at hFrames
      rw [hStack] at hPlace
      cases frame with
      | seq a items =>
          cases hPlace
          refine ⟨hAnchors, ?_, hAll.root⟩
          refine List.forall_mem_cons.mpr ⟨?_, hFrames.2⟩
          rw [Frame.All, Secrets.allItems_iff,
            List.forall_mem_append]
          exact
            ⟨Secrets.allItems_iff.mp hFrames.1,
              List.forall_mem_singleton.mpr hNode⟩
      | map a entries pending =>
          cases pending with
          | some key =>
              cases hPlace
              refine ⟨hAnchors, ?_, hAll.root⟩
              refine List.forall_mem_cons.mpr ⟨?_, hFrames.2⟩
              refine ⟨?_, nofun⟩
              rw [Secrets.allEntries_iff,
                List.forall_mem_append,
                List.forall_mem_singleton]
              refine
                ⟨Secrets.allEntries_iff.mp hFrames.1.1, ?_,
                  hNode⟩
              rintro name rfl
              exact hFrames.1.2 name rfl
          | none =>
              rcases Lib.bind_eq_ok_iff.mp hPlace with
                ⟨key, hKey, hPlace⟩
              cases hPlace
              refine ⟨hAnchors, ?_, hAll.root⟩
              refine List.forall_mem_cons.mpr ⟨?_, hFrames.2⟩
              refine ⟨hFrames.1.1, ?_⟩
              intro name hName
              cases hName
              exact keyOf_all hNode hKey

theorem State.All.push
    {frame : Frame}
    {tag : Option Tag}
    {mark : Mark}
    (hAll : s.All P)
    (hFrame : frame.All P)
    (hPush : s.push frame tag mark = .ok s') :
    s'.All P := by
  unfold State.push at hPush
  by_cases hTag : tag.isSome = true
  · rw [if_pos hTag] at hPush
    cases hPush
  by_cases hDepth : maxDepth ≤ s.stack.length
  · rw [if_neg hTag, if_pos hDepth] at hPush
    cases hPush
  rw [if_neg hTag, if_neg hDepth] at hPush
  cases hPush
  exact
    ⟨hAll.anchors,
      List.forall_mem_cons.mpr ⟨hFrame, hAll.stack⟩,
      hAll.root⟩

theorem State.All.pop
    (hAll : s.All P)
    (hPop : s.pop = .ok s') :
    s'.All P := by
  have hFrames := hAll.stack
  unfold State.pop at hPop
  cases hStack : s.stack with
  | nil =>
      rw [hStack] at hPop
      cases hPop
  | cons frame stack =>
      rw [hStack, List.forall_mem_cons] at hFrames
      rw [hStack] at hPop
      have hRest : State.All P { s with stack := stack } :=
        ⟨hAll.anchors, hFrames.2, hAll.root⟩
      cases frame with
      | seq anchor items =>
          have hNode : (Node.seq items).All P := hFrames.1
          exact hRest.place hNode hPop
      | map anchor entries pending =>
          cases pending with
          | some key => cases hPop
          | none =>
              have hNode : (Node.map entries).All P :=
                hFrames.1.1
              exact hRest.place hNode hPop

/- One event adds its own string at most. -/
theorem State.All.step
    {event : Event}
    {mark : Mark}
    (hAll : s.All P)
    (hString :
      ∀ value style anchor tag,
        event = .scalar value style anchor tag →
          IsString value style tag → P value)
    (hStep : s.step event mark = .ok s') :
    s'.All P := by
  cases event with
  | nothing | streamStart | streamEnd | documentEnd =>
      cases hStep
      exact hAll
  | documentStart =>
      rw [State.step] at hStep
      by_cases hSecond : s.documents + 1 > 1
      · rw [if_pos hSecond] at hStep
        cases hStep
      · rw [if_neg hSecond] at hStep
        cases hStep
        exact ⟨hAll.anchors, hAll.stack, hAll.root⟩
  | sequenceStart anchor tag =>
      have hFrame : (Frame.seq anchor []).All P := trivial
      exact hAll.push hFrame hStep
  | mappingStart anchor tag =>
      have hFrame : (Frame.map anchor [] none).All P :=
        ⟨trivial, fun _ hKey => by cases hKey⟩
      exact hAll.push hFrame hStep
  | sequenceEnd => exact hAll.pop hStep
  | mappingEnd => exact hAll.pop hStep
  | «alias» id =>
      rw [State.step] at hStep
      cases hLookup : s.anchors.lookup id with
      | none =>
          rw [hLookup] at hStep
          cases hStep
      | some node =>
          rw [hLookup] at hStep
          have hMem := Lib.Assoc.mem_of_lookup hLookup
          exact hAll.place (hAll.anchors _ hMem) hStep
  | scalar value style anchor tag =>
      rw [State.step] at hStep
      by_cases hEmpty :
          (isKey s.stack && value.isEmpty &&
            decide (style = .plain) && tag.isNone) = true
      · rw [if_pos hEmpty] at hStep
        cases hStep
      · rw [if_neg hEmpty] at hStep
        rcases Lib.bind_eq_ok_iff.mp hStep with
          ⟨node, hScalar, hPlace⟩
        have hNode :=
          scalarNode_all (hString value style anchor tag rfl)
            hScalar
        exact hAll.place hNode hPlace

/- The strings of the result are among the reports. -/
theorem run_all
    {reports : List Report}
    {node : Node}
    (hAll : s.All P)
    (hString :
      ∀ value style anchor tag mark,
        .ok (.scalar value style anchor tag, mark) ∈ reports →
          IsString value style tag → P value)
    (hRun : run s reports = .ok node) :
    node.All P := by
  have hRoot (s : State) (hAll : s.All P) :
      (s.root.getD .null).All P := by
    cases hRoot : s.root with
    | none => trivial
    | some root => exact hAll.root root hRoot
  induction reports generalizing s with
  | nil =>
      cases hRun
      exact hRoot s hAll
  | cons report reports ih =>
      have hRest :
          ∀ value style anchor tag mark,
            .ok (.scalar value style anchor tag, mark) ∈
                reports →
              IsString value style tag → P value :=
        fun value style anchor tag mark hMem =>
          hString value style anchor tag mark
            (List.mem_cons_of_mem _ hMem)
      cases report with
      | error place => cases hRun
      | ok report =>
          rcases report with ⟨event, mark⟩
          by_cases hEnd : event = .streamEnd
          · subst hEnd
            cases hRun
            exact hRoot s hAll
          rw [run] at hRun
          · rcases Lib.bind_eq_ok_iff.mp hRun with
              ⟨s', hStep, hRun⟩
            refine ih (hAll.step ?_ hStep) hRest hRun
            rintro value style anchor tag rfl
            exact
              hString value style anchor tag mark
                List.mem_cons_self
          · exact hEnd

variable [YamlRust]

/- The text that is scanned. -/
def scanned (text : Str) : Str :=
  let text := unixLines text
  match text with
  | c :: rest => if c.toNat = 0xfeff then rest else text
  | [] => text

/- The strings of a document are written in its text. -/
theorem parse_all
    {text : Str}
    {node : Node}
    (hParse : parse text = .ok node) :
    node.All (Written (YamlRust.reports (scanned text))) := by
  unfold parse at hParse
  simp only [Lib.bind_eq_ok_iff] at hParse
  rcases hParse with ⟨-, -, -, -, hRun⟩
  apply run_all _ _ hRun
  · exact ⟨nofun, nofun, nofun⟩
  · exact fun value style anchor tag mark hMem hString =>
      ⟨style, anchor, tag, mark, hMem, hString⟩

end Yaml

end MailgunRelay
