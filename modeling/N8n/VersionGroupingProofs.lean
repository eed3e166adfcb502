import Mathlib.Data.List.Infix
import N8n.ConnectionsDiffProofs

/-! # Grouping versions — a removed version lives on in the next one

    `groupWorkflows` walks a history from its end.  A version that a rule
    merges is taken out, and the version behind it stays in its place, to be
    compared with the next one to the left.  What lies behind the place of
    the walk is never touched again, so a removed version was compared with
    the very version that remains next to it (`groupWorkflows_grouping`), and
    what a rule says of a pair holds of the two without any chain of merges
    between them.

    The removed versions are listed as they were taken out, newest first. -/

namespace N8nVersionGrouping

open N8nOrderedMap N8nJsonText N8nConnectionTable N8nConnectionsDiff List OrderedMap
open N8nDirectedGraph (mem_propertyOrder objectPrototype)

/-! ## Nodes and their parameters -/

/-- A parameter value.  Dates, arrays and objects have an identity, which is
    all that `===` looks at. -/
inductive ParameterValue (R N : Type) where
  | undefined
  | null
  | bool (b : Bool)
  | number (n : N)
  | string (s : JsString)
  | date (ref : R)
  | array (ref : R) (elements : List (ParameterValue R N))
  | object (ref : R) (members : List (String × ParameterValue R N))

abbrev INodeParameters (R N : Type) := OrderedMap String (ParameterValue R N)

structure DiffableNode (R N : Type) where
  id : String
  name : String
  parameters : INodeParameters R N
  type : Option (ParameterValue R N)
  typeVersion : Option (ParameterValue R N)
  webhookId : Option (ParameterValue R N)
  credentials : Option (ParameterValue R N)

structure DiffableWorkflow (R N : Type) where
  nodes : List (DiffableNode R N)
  connections : IConnections N
  createdAt : Int
  authors : Option String

variable {W R N : Type}

/-- `left === right`; a number need not be equal to itself. -/
def strictEquals [DecidableEq R] [BEq N] :
    ParameterValue R N → ParameterValue R N → Bool
  | .undefined, .undefined => true
  | .null, .null => true
  | .bool b, .bool c => b = c
  | .number n, .number m => n == m
  | .string s, .string t => s = t
  | .date r, .date q => r = q
  | .array r _, .array q _ => r = q
  | .object r _, .object q _ => r = q
  | _, _ => false

mutual

def determineNodeSize : ParameterValue R N → Nat
  | .string s => if s = [] then 1 else s.length
  | .array _ elements => 1 + elementsSize elements
  | .object _ members => 1 + membersSize members
  | _ => 1

def elementsSize : List (ParameterValue R N) → Nat
  | [] => 0
  | e :: rest => determineNodeSize e + elementsSize rest

def membersSize : List (String × ParameterValue R N) → Nat
  | [] => 0
  | (_, v) :: rest => determineNodeSize v + membersSize rest

end

def determineNodeParametersSize (workflow : DiffableWorkflow R N) : Nat :=
  workflow.nodes.foldl (fun acc node => acc + (1 + membersSize node.parameters.entries)) 0

/-! ## Change sets -/

inductive NodeDiffStatus where
  | eq | modified | added | deleted
deriving DecidableEq

structure NodeDiff (R N : Type) where
  status : NodeDiffStatus
  node : DiffableNode R N

abbrev WorkflowDiff (R N : Type) := OrderedMap String (NodeDiff R N)

structure WorkflowChangeSet (R N : Type) where
  nodes : WorkflowDiff R N
  connections : ConnectionsDiff N

inductive GroupError where
  /-- the connections cannot be compared -/
  | diff (error : DiffError)
  /-- an error that a rule throws -/
  | thrown (message : String)

structure DiffMetaData where
  workflowSizeScore : Option Nat

/-- What `pick(node, propsToCompare)` gives. -/
structure ComparedProps (R N : Type) where
  name : String
  type : Option (ParameterValue R N)
  typeVersion : Option (ParameterValue R N)
  webhookId : Option (ParameterValue R N)
  credentials : Option (ParameterValue R N)
  parameters : INodeParameters R N

def pickCompared (node : DiffableNode R N) : ComparedProps R N :=
  { node with }

def nodesById (nodes : List (DiffableNode R N)) : OrderedMap String (DiffableNode R N) :=
  nodes.foldl (fun acc node => acc.set node.id node) .empty

section

variable [DecidableEq W] [DecidableEq R] [BEq N]
  -- `isEqual` of lodash
  (isEqual : ComparedProps R N → ComparedProps R N → Bool)
  (num : NumberText N)
  -- what is stored for a version, which is itself a reference
  (read : W → DiffableWorkflow R N)

def compareNodes (base target : DiffableNode R N) : Bool :=
  isEqual (pickCompared base) (pickCompared target)

/-- The entry of a node of the base, against the node of its id in the
    target. -/
def classified (target : Option (DiffableNode R N)) (node : DiffableNode R N) :
    NodeDiff R N where
  status :=
    match target with
    | none => .deleted
    | some target => if compareNodes isEqual node target then .eq else .modified
  node := node

def compareWorkflowsNodes (base target : List (DiffableNode R N)) : WorkflowDiff R N :=
  let baseNodes := nodesById base
  let targetNodes := nodesById target
  let diff : WorkflowDiff R N := baseNodes.entries.foldl (fun diff p =>
    diff.set p.1 (classified isEqual (targetNodes.get? p.1) p.2)) .empty
  targetNodes.entries.foldl (fun diff p =>
    if baseNodes.has p.1 then diff
    else diff.set p.1 { status := .added, node := p.2 }) diff

/-- `new WorkflowChangeSet(base, target)` -/
def workflowChangeSet (base target : W) : Except GroupError (WorkflowChangeSet R N) :=
  if base = target then
    .ok
      { nodes := (read base).nodes.foldl (fun nodes node =>
          nodes.set node.id { status := .eq, node }) .empty
        connections := { added := .empty, removed := .empty } }
  else
    match compareConnections num (read base).connections (read target).connections with
    | .error error => .error (.diff error)
    | .ok connections =>
      .ok
        { nodes :=
            compareWorkflowsNodes isEqual (read base).nodes (read target).nodes
          connections }

/-- Whether a parameter's value is not lost: a string is contained. -/
def keepsValue (left right : ParameterValue R N) : Bool :=
  match left, right with
  | .string left, .string right => left <:+: right
  | _, _ => strictEquals left right

def nodeIsSuperset (prevNode nextNode : DiffableNode R N) : Bool :=
  compareNodes isEqual { prevNode with parameters := .empty }
      { nextNode with parameters := .empty }
    && prevNode.parameters.keys.all (nextNode.parameters.has ·)
    && nextNode.parameters.keys.all (prevNode.parameters.has ·)
    && prevNode.parameters.entries.all fun p =>
        keepsValue p.2 ((nextNode.parameters.get? p.1).getD .undefined)

/-- The loop over `diff.nodes.values()`. -/
def checkNodes (next : DiffableWorkflow R N) :
    List (NodeDiff R N) → Except GroupError Bool
  | [] => .ok true
  | d :: rest =>
    if d.status = .deleted then .ok false
    else if d.status = .added then checkNodes next rest
    else
      match next.nodes.find? fun x => x.id = d.node.id with
      | none => .error (.thrown "invariant broken - no next node")
      | some nextNode =>
        if d.status = .modified ∧ ¬ nodeIsSuperset isEqual d.node nextNode
        then .ok false else checkNodes next rest

abbrev DiffRule (W R N : Type) :=
  W → W → WorkflowChangeSet R N → DiffMetaData → Except GroupError Bool

def mergeAdditiveChanges : DiffRule W R N := fun _prev next diff _metaData => do
  if ← checkNodes isEqual (read next) (diff.nodes.entries.map Prod.snd) then
    .ok diff.connections.removed.entries.isEmpty
  else .ok false

def timeDifference (prev next : W) : Nat := ((read next).createdAt - (read prev).createdAt).natAbs

def makeSkipTimeDifference (timeDiffMs : Nat) : DiffRule W R N :=
  fun prev next _ _ => .ok (timeDiffMs < timeDifference read prev next)

def makeMergeShortTimeSpan (timeDiffMs : Nat) : DiffRule W R N :=
  fun prev next _ _ => .ok (timeDifference read prev next < timeDiffMs)

/-- The largest size that the score exceeds decides the time span. -/
def makeMergeDependingOnSizeRule (mapping : OrderedMap Nat Nat) :
    DiffRule W R N := fun prev next wcs metaData =>
  match metaData.workflowSizeScore with
  | none => .ok false
  | some workflowSizeScore =>
    let pairs := mapping.entries.mergeSort fun a b => b.1 ≤ a.1
    match pairs.find? fun p => p.1 < workflowSizeScore with
    | some (_, time) => makeMergeShortTimeSpan read time prev next wcs metaData
    | none => .ok false

def skipDifferentUsers : DiffRule W R N := fun prev next _ _ =>
  .ok ((read next).authors ≠ (read prev).authors)

/-! ## The walk -/

/-- Whether one of the rules answers `true`, in order. -/
def anyHolds (prev next : W) (wcs : WorkflowChangeSet R N)
    (metaData : DiffMetaData) : List (DiffRule W R N) → Except GroupError Bool
  | [] => .ok false
  | rule :: rest => do
      if ← rule prev next wcs metaData then .ok true
      else anyHolds prev next wcs metaData rest

section

variable (build : W → W → Except GroupError (WorkflowChangeSet R N))
  (rules skipRules : List (DiffRule W R N))

/-- `diffLoop`, from `i` down; the index is one less than the source's. -/
def diffLoop (metaData : DiffMetaData) :
    Nat → List W → List W → Except GroupError (List W × List W)
  | 0, remaining, removed => .ok (removed, remaining)
  | i + 1, remaining, removed =>
    match remaining[i]?, remaining[i + 1]? with
    | some prev, some next => do
        let wcs ← build prev next
        if ← anyHolds prev next wcs metaData skipRules then
          diffLoop metaData i remaining removed
        else if ← anyHolds prev next wcs metaData rules then
          diffLoop metaData i (remaining.eraseIdx i) (removed ++ [prev])
        else diffLoop metaData i remaining removed
    | _, _ => .ok (removed, remaining)

/-- The larger of two versions, one in the middle and the last. -/
def metaDataOf (workflows : List W) (sizeScoreRequested : Bool) :
    DiffMetaData where
  workflowSizeScore :=
    if sizeScoreRequested then
      let size := fun i : Nat =>
        (workflows[i]?.map fun w => determineNodeParametersSize (read w)).getD 0
      some (max (size (workflows.length / 2)) (size (workflows.length - 1)))
    else none

/-- The removed and the remaining versions.  `build` makes a change set. -/
def groupWorkflows (workflows : List W) (sizeScoreRequested : Bool) :
    Except GroupError (List W × List W) :=
  if workflows.length = 0 then .ok ([], [])
  else if workflows.length = 1 then .ok ([], workflows)
  else
    diffLoop build rules skipRules (metaDataOf read workflows sizeScoreRequested)
      (workflows.length - 1) workflows []

end

end

/-! ## What is taken out, and for what -/

/-- The versions of a marked list that stay. -/
def stay (marked : List (W × Bool)) : List W := (marked.filter Prod.snd).map Prod.fst

/-- The versions that go. -/
def gone (marked : List (W × Bool)) : List W := (marked.filter fun p => !p.2).map Prod.fst

/-- Every version that goes is covered by the next one that stays. -/
def Covered (covers : W → W → Prop) : List (W × Bool) → Prop
  | [] => True
  | (w, stays) :: rest =>
    (stays = false → ∃ next, (stay rest).head? = some next ∧ covers w next) ∧ Covered covers rest

theorem Covered.mono {covers covers' : W → W → Prop} (h : ∀ w next, covers w next → covers' w next)
    {marked : List (W × Bool)} (hc : Covered covers marked) :
    Covered covers' marked := by
  induction marked with
  | nil => trivial
  | cons p rest ih =>
    refine ⟨fun hgo => ?_, ih hc.2⟩
    obtain ⟨next, hnext, hcovers⟩ := hc.1 hgo
    exact ⟨next, hnext, h _ _ hcovers⟩

/-- A way to read a result: the versions in order, each with whether it
    stays. -/
structure Grouping (covers : W → W → Prop)
    (workflows removed remaining : List W) (marked : List (W × Bool)) :
    Prop where
  versions : marked.map Prod.fst = workflows
  remaining_eq : remaining = stay marked
  removed_eq : removed = (gone marked).reverse
  last : remaining.getLast? = workflows.getLast?
  covered : Covered covers marked

namespace Grouping

variable {covers : W → W → Prop} {workflows removed remaining : List W}
  {marked : List (W × Bool)}

theorem refl (covers : W → W → Prop) (workflows : List W) :
    Grouping covers workflows [] workflows (workflows.map fun w => (w, true)) where
  versions := by rw [map_map]; exact map_id workflows
  remaining_eq := by
    rw [stay, filter_eq_self.mpr, map_map]
    · exact (map_id workflows).symm
    · intro p hp
      obtain ⟨w, -, rfl⟩ := mem_map.mp hp
      rfl
  removed_eq := by
    rw [gone, filter_eq_nil_iff.mpr]
    · rfl
    · intro p hp
      obtain ⟨w, -, rfl⟩ := mem_map.mp hp
      exact Bool.false_ne_true
  last := rfl
  covered := by
    induction workflows with
    | nil => trivial
    | cons w rest ih => exact ⟨fun h => (by cases h), ih⟩

theorem keep (h : Grouping covers workflows removed remaining marked)
    (hne : remaining ≠ []) (w : W) :
    Grouping covers (w :: workflows) removed (w :: remaining) ((w, true) :: marked) where
  versions := congrArg (w :: ·) h.versions
  remaining_eq := congrArg (w :: ·) h.remaining_eq
  removed_eq := h.removed_eq
  last := by
    have hlast := h.last
    obtain ⟨v, rest, rfl⟩ := exists_cons_of_ne_nil hne
    cases workflows with
    | nil => cases hlast
    | cons u workflows => rw [getLast?_cons_cons, getLast?_cons_cons, hlast]
  covered := ⟨fun hgo => (by cases hgo), h.covered⟩

theorem drop (h : Grouping covers workflows removed remaining marked)
    {w next : W} (hnext : remaining.head? = some next)
    (hcovers : covers w next) :
    Grouping covers (w :: workflows) (removed ++ [w]) remaining ((w, false) :: marked) where
  versions := congrArg (w :: ·) h.versions
  remaining_eq := h.remaining_eq
  removed_eq := by
    rw [h.removed_eq]
    exact (reverse_cons ..).symm
  last := by
    have hlast := h.last
    cases workflows with
    | nil =>
      rw [getLast?_nil, getLast?_eq_none_iff] at hlast
      rw [hlast] at hnext
      cases hnext
    | cons u workflows => rw [getLast?_cons_cons, hlast]
  covered := ⟨fun _ => ⟨next, h.remaining_eq ▸ hnext, hcovers⟩, h.covered⟩

end Grouping

section

variable {build : W → W → Except GroupError (WorkflowChangeSet R N)}
  {rules skipRules : List (DiffRule W R N)} {metaData : DiffMetaData}

/-- A rule answers on every change set of two of the versions. -/
def Answers (build : W → W → Except GroupError (WorkflowChangeSet R N))
    (versions : List W) (metaData : DiffMetaData) (rule : DiffRule W R N) :
    Prop :=
  ∀ prev ∈ versions, ∀ next ∈ versions, ∀ wcs, build prev next = .ok wcs →
    ∃ b, rule prev next wcs metaData = .ok b

/-- One of the rules merges the first version into the second. -/
def Merges (build : W → W → Except GroupError (WorkflowChangeSet R N))
    (rules : List (DiffRule W R N)) (metaData : DiffMetaData) (prev next : W) : Prop :=
  ∃ wcs, build prev next = .ok wcs ∧ ∃ rule ∈ rules, rule prev next wcs metaData = .ok true

theorem anyHolds_ok {versions : List W} {prev next : W}
    (hprev : prev ∈ versions) (hnext : next ∈ versions)
    {wcs : WorkflowChangeSet R N} (hbuild : build prev next = .ok wcs)
    (hanswers : ∀ rule ∈ rules, Answers build versions metaData rule) :
    ∃ b, anyHolds prev next wcs metaData rules = .ok b := by
  induction rules with
  | nil => exact ⟨false, rfl⟩
  | cons rule rest ih =>
    rw [forall_mem_cons] at hanswers
    obtain ⟨b, hb⟩ := hanswers.1 prev hprev next hnext wcs hbuild
    rw [anyHolds, hb]
    cases b with
    | true => exact ⟨true, rfl⟩
    | false => exact ih hanswers.2

theorem anyHolds_true {prev next : W} {wcs : WorkflowChangeSet R N}
    (h : anyHolds prev next wcs metaData rules = .ok true) :
    ∃ rule ∈ rules, rule prev next wcs metaData = .ok true := by
  induction rules with
  | nil => cases h
  | cons rule rest ih =>
    rw [anyHolds] at h
    cases hrule : rule prev next wcs metaData with
    | error e => rw [hrule] at h; cases h
    | ok b =>
      rw [hrule] at h
      cases b with
      | true => exact ⟨rule, mem_cons_self .., hrule⟩
      | false =>
        obtain ⟨rule', hmem, hholds⟩ := ih h
        exact ⟨rule', mem_cons_of_mem _ hmem, hholds⟩

/-- The walk keeps a grouping of what lies behind it, and carries it to the
    front. -/
theorem diffLoop_grouping {versions : List W}
    (hbuild : ∀ prev ∈ versions, ∀ next ∈ versions, ∃ wcs, build prev next = .ok wcs)
    (hskip : ∀ rule ∈ skipRules, Answers build versions metaData rule)
    (hrules : ∀ rule ∈ rules, Answers build versions metaData rule) (pre : List W) :
    ∀ {behind removed remaining : List W} {marked : List (W × Bool)},
      pre ++ remaining ⊆ versions → remaining ≠ [] →
      Grouping (Merges build rules metaData) behind removed remaining marked →
      ∃ removed' remaining' marked', diffLoop build rules skipRules metaData pre.length
            (pre ++ remaining) removed = .ok (removed', remaining')
          ∧ Grouping (Merges build rules metaData) (pre ++ behind) removed' remaining' marked' := by
  induction pre using List.reverseRecOn with
  | nil =>
    intro behind removed remaining marked _ _ h
    exact ⟨removed, remaining, marked, rfl, h⟩
  | append_singleton pre prev ih =>
    intro behind removed remaining marked hsub hne h
    obtain ⟨next, rest, rfl⟩ := exists_cons_of_ne_nil hne
    have hprev : (pre ++ [prev] ++ next :: rest)[pre.length]? = some prev := by simp
    have hnext : (pre ++ [prev] ++ next :: rest)[pre.length + 1]? = some next := by simp
    have herase : (pre ++ [prev] ++ next :: rest).eraseIdx pre.length = pre ++ next :: rest := by
      rw [append_assoc, eraseIdx_append_of_length_le (Nat.le_refl _), Nat.sub_self]
      rfl
    have hmemPrev : prev ∈ versions := hsub (by simp)
    have hmemNext : next ∈ versions := hsub (by simp)
    obtain ⟨wcs, hwcs⟩ := hbuild prev hmemPrev next hmemNext
    obtain ⟨skips, hskips⟩ := anyHolds_ok hmemPrev hmemNext hwcs hskip
    obtain ⟨merges, hmerges⟩ := anyHolds_ok hmemPrev hmemNext hwcs hrules
    rw [append_assoc] at hsub
    -- the version stays when it is skipped and when no rule merges it
    have hkept := ih hsub (cons_ne_nil _ _) (h.keep (cons_ne_nil _ _) prev)
    rw [length_append, length_singleton, diffLoop, hprev, hnext]
    simp only [hwcs, hskips, hmerges, herase, Except.bind, bind]
    rw [append_assoc, append_assoc]
    cases skips with
    | true => exact hkept
    | false =>
      cases merges with
      | false => exact hkept
      | true =>
        have hsub' : pre ++ next :: rest ⊆ versions :=
          fun w hw => hsub ((mem_append.mp hw).elim (mem_append_left _)
            fun hin => mem_append_right _ (mem_cons_of_mem _ hin))
        exact ih hsub' (cons_ne_nil _ _) (h.drop rfl ⟨wcs, hwcs, anyHolds_true hmerges⟩)

theorem groupWorkflows_merges [DecidableEq W] [DecidableEq R] [BEq N]
    (read : W → DiffableWorkflow R N) {workflows : List W}
    {sizeScoreRequested : Bool}
    (hbuild : ∀ prev ∈ workflows, ∀ next ∈ workflows, ∃ wcs, build prev next = .ok wcs)
    (hanswers : ∀ rule ∈ skipRules ++ rules, Answers build workflows
      (metaDataOf read workflows sizeScoreRequested) rule) :
    ∃ removed remaining marked,
      groupWorkflows read build rules skipRules workflows sizeScoreRequested
          = .ok (removed, remaining)
        ∧ Grouping (Merges build rules
            (metaDataOf read workflows sizeScoreRequested)) workflows removed remaining marked := by
  rw [groupWorkflows]
  split_ifs with hzero hone
  · rw [length_eq_zero_iff] at hzero
    subst hzero
    exact ⟨_, _, _, rfl, .refl _ _⟩
  · exact ⟨_, _, _, rfl, .refl _ _⟩
  · obtain ⟨pre, last, rfl⟩ := eq_nil_or_concat'
      workflows |>.resolve_left fun hnil => hzero (by rw [hnil]; rfl)
    rw [forall_mem_append] at hanswers
    have hgrouping := diffLoop_grouping hbuild hanswers.1 hanswers.2 pre
      (List.Subset.refl _) (cons_ne_nil _ _)
      (.refl (Merges build rules (metaDataOf read (pre ++ [last]) sizeScoreRequested)) [last])
    rwa [length_append, length_singleton, Nat.add_sub_cancel]

end

/-! ## Maps filled by a loop -/

theorem get?_foldl {κ ν μ : Type} [DecidableEq κ]
    {g : OrderedMap κ μ → κ × ν → OrderedMap κ μ} {f : κ × ν → Option μ}
    (hg : ∀ m p k, (g m p).get? k = if p.1 = k then (f p).or (m.get? k) else m.get? k)
    {l : List (κ × ν)} (hl : (l.map Prod.fst).Nodup) (m : OrderedMap κ μ)
    (k : κ) :
    (l.foldl g m).get? k = ((findKey k l).bind fun v => f (k, v)).or (m.get? k) := by
  induction l generalizing m with
  | nil => rfl
  | cons p rest ih =>
    obtain ⟨a, v⟩ := p
    rw [map_cons, nodup_cons] at hl
    rw [foldl_cons, ih hl.2, hg, findKey_cons]
    by_cases hak : a = k
    · subst hak
      rw [findKey_eq_none.mpr hl.1, if_pos rfl, if_pos rfl]
      rfl
    · rw [if_neg hak, if_neg hak]

theorem get?_foldl_set {κ ν μ : Type} [DecidableEq κ] (f : κ × ν → μ) (m : OrderedMap κ ν) (k : κ) :
    (m.entries.foldl (fun (acc : OrderedMap κ μ) p => acc.set p.1 (f p)) .empty).get? k
      = (m.get? k).map fun v => f (k, v) := by
  rw [get?_foldl (f := fun p => some (f p)) _ m.nodup]
  · rw [OrderedMap.get?, ← OrderedMap.get?]
    cases m.get? k <;> rfl
  · intro acc p k
    rw [get?_set]
    grind

theorem get?_of_foldl_set {α κ ν : Type} [DecidableEq κ] (key : α → κ) (f : α → ν) {l : List α}
    {m : OrderedMap κ ν} {k : κ} {v : ν}
    (h : (l.foldl (fun (acc : OrderedMap κ ν) a => acc.set (key a) (f a)) m).get? k = some v) :
    m.get? k = some v ∨ ∃ a ∈ l, key a = k ∧ f a = v := by
  induction l generalizing m with
  | nil => exact .inl h
  | cons x rest ih =>
    rcases ih h with hset | ⟨a, ha, hkey, hval⟩
    · rw [get?_set] at hset
      split_ifs at hset with hx
      · exact .inr ⟨x, mem_cons_self .., hx, Option.some.inj hset⟩
      · exact .inl hset
    · exact .inr ⟨a, mem_cons_of_mem _ ha, hkey, hval⟩

theorem mem_nodesById {nodes : List (DiffableNode R N)} {id : String}
    {node : DiffableNode R N} (h : (nodesById nodes).get? id = some node) :
    node ∈ nodes ∧ node.id = id := by
  rcases get?_of_foldl_set DiffableNode.id (fun node => node) h with
    hempty | ⟨x, hx, hid, rfl⟩
  · cases hempty
  · exact ⟨hx, hid⟩

theorem mem_eqNodes {nodes : List (DiffableNode R N)} {id : String} {d : NodeDiff R N}
    (h : OrderedMap.get? (nodes.foldl (fun acc node =>
      OrderedMap.set acc node.id { status := .eq, node }) .empty) id = some d) :
    d.node ∈ nodes := by
  rcases get?_of_foldl_set DiffableNode.id
      (fun node => NodeDiff.mk .eq node) h with hempty | ⟨x, hx, -, rfl⟩
  · cases hempty
  · exact hx

theorem edges_of_removed_empty {num : NumberText N}
    {prev next : IConnections N} {diff : ConnectionsDiff N}
    (h : compareConnections num prev next = .ok diff)
    (hremoved : diff.removed.entries = []) {e : Edge N}
    (he : e ∈ edges prev) (hplain : Plain e.outer e.inner) :
    e ∈ edges next := by
  obtain ⟨-, htidy, hhas⟩ := compareConnections_spec h
  obtain ⟨p, hp, rfl⟩ := mem_map.mp he
  refine mem_map_of_mem ?_
  by_contra hnot
  have hno : ¬ HasChange diff (false, p) := htidy.2.entries_eq_nil.mp hremoved p
  exact hno ((hhas (false, p)).mpr ⟨⟨hp, hnot⟩, _, _, input_of_plain hplain, input_of_plain hplain⟩)

theorem get?_compareWorkflowsNodes (isEqual : ComparedProps R N → ComparedProps R N → Bool)
    (base target : List (DiffableNode R N)) (id : String) :
    (compareWorkflowsNodes isEqual base target).get? id
      = match (nodesById base).get? id with
        | some node => some (classified isEqual ((nodesById target).get? id) node)
        | none =>
          ((nodesById target).get? id).map fun node =>
            { status := .added, node } := by
  rw [compareWorkflowsNodes]
  rw [get?_foldl (f := fun p => if (nodesById base).has p.1 then none
      else some { status := .added, node := p.2 }) _ (nodesById target).nodup,
    get?_foldl_set (fun p => classified isEqual ((nodesById target).get? p.1) p.2)]
  · rw [← OrderedMap.get?]
    cases hbase : (nodesById base).get? id with
    | none =>
      simp only [OrderedMap.has, hbase]
      cases (nodesById target).get? id <;> rfl
    | some node =>
      simp only [OrderedMap.has, hbase]
      cases (nodesById target).get? id <;> rfl
  · intro acc p k
    split_ifs <;> grind [get?_set]

/-! ## What the additive rule lets pass -/

section

variable [DecidableEq W] [DecidableEq R] [BEq N]
  {isEqual : ComparedProps R N → ComparedProps R N → Bool}
  {num : NumberText N} {read : W → DiffableWorkflow R N}

/-- A node that is kept by another: the same but for its parameters, which
    have the same keys and values that are kept. -/
structure Extends (isEqual : ComparedProps R N → ComparedProps R N → Bool)
    (node nextNode : DiffableNode R N) : Prop where
  others : compareNodes isEqual { node with parameters := .empty }
    { nextNode with parameters := .empty } = true
  keys : ∀ key, key ∈ node.parameters.keys ↔ key ∈ nextNode.parameters.keys
  values : ∀ key left right, node.parameters.get? key = some left →
    nextNode.parameters.get? key = some right → keepsValue left right = true

theorem extends_of_nodeIsSuperset {node nextNode : DiffableNode R N}
    (h : nodeIsSuperset isEqual node nextNode = true) :
    Extends isEqual node nextNode := by
  simp only [nodeIsSuperset, Bool.and_eq_true, all_eq_true] at h
  obtain ⟨⟨⟨hothers, hforth⟩, hback⟩, hvalues⟩ := h
  refine ⟨hothers, fun key => ⟨fun hkey => ?_, fun hkey => ?_⟩, ?_⟩
  · exact has_iff.mp (hforth key hkey)
  · exact has_iff.mp (hback key hkey)
  · intro key left right hleft hright
    have hkeeps := hvalues (key, left) (get?_eq_some.mp hleft)
    rwa [hright] at hkeeps

/-- The node is the same one, equal in all that is compared, or extended. -/
def Kept (isEqual : ComparedProps R N → ComparedProps R N → Bool)
    (node nextNode : DiffableNode R N) : Prop :=
  node = nextNode ∨ compareNodes isEqual node nextNode = true ∨ Extends isEqual node nextNode

/-- Each node of the first version, by its id, and each of its connections
    is in the second.  Connections under names that every object inherits
    are not spoken of. -/
structure Contained (isEqual : ComparedProps R N → ComparedProps R N → Bool)
    (prev next : DiffableWorkflow R N) : Prop where
  nodes : ∀ id node, (nodesById prev.nodes).get? id = some node →
    ∃ nextNode ∈ next.nodes, nextNode.id = id ∧ Kept isEqual node nextNode
  connections : ∀ e ∈ edges prev.connections, Plain e.outer e.inner → e ∈ edges next.connections

theorem not_deleted_of_checkNodes {next : DiffableWorkflow R N}
    {l : List (NodeDiff R N)} (h : checkNodes isEqual next l = .ok true) :
    ∀ d ∈ l, d.status ≠ .deleted
      ∧ (d.status = .modified → ∃ nextNode ∈ next.nodes,
        nextNode.id = d.node.id ∧ nodeIsSuperset isEqual d.node nextNode) := by
  induction l with
  | nil => exact fun d hd => by cases hd
  | cons d rest ih =>
    rw [checkNodes] at h
    split at h
    · cases h
    · next hdeleted =>
        split at h
        · next hadded =>
            refine forall_mem_cons.mpr ⟨⟨hdeleted, ?_⟩, ih h⟩
            rw [hadded]
            exact fun hmodified => by cases hmodified
        · split at h
          · cases h
          · next nextNode hfind =>
              split at h
              · cases h
              · next hsuperset =>
                  refine forall_mem_cons.mpr ⟨⟨hdeleted, fun hmodified => ?_⟩, ih h⟩
                  exact ⟨nextNode, mem_of_find?_eq_some hfind, by simpa using find?_some hfind,
                    not_not.mp fun hnot => hsuperset ⟨hmodified, hnot⟩⟩

variable (isEqual) in
theorem checkNodes_ok {next : DiffableWorkflow R N} {l : List (NodeDiff R N)}
    (h : ∀ d ∈ l, d.status = .deleted ∨ d.status = .added
      ∨ ∃ nextNode ∈ next.nodes, nextNode.id = d.node.id) :
    ∃ b, checkNodes isEqual next l = .ok b := by
  induction l with
  | nil => exact ⟨true, rfl⟩
  | cons d rest ih =>
    rw [forall_mem_cons] at h
    obtain ⟨b, hb⟩ := ih h.2
    rw [checkNodes]
    split_ifs with hdeleted hadded
    · exact ⟨false, rfl⟩
    · exact ⟨b, hb⟩
    · obtain ⟨x, hx, hid⟩ := (h.1.resolve_left hdeleted).resolve_left hadded
      cases hfind : next.nodes.find? fun x => x.id = d.node.id with
      | none =>
        exact absurd (decide_eq_true hid) (by simpa using find?_eq_none.mp hfind x hx)
      | some nextNode =>
        dsimp only
        split
        · exact ⟨false, rfl⟩
        · exact ⟨b, hb⟩

variable {next prev : W}

omit [DecidableEq R] [BEq N] in
theorem entry_of_workflowChangeSet {wcs : WorkflowChangeSet R N}
    (h : workflowChangeSet isEqual num read prev next = .ok wcs) {id : String}
    {d : NodeDiff R N} (hd : wcs.nodes.get? id = some d) :
    d.status = .deleted ∨ d.status = .added
      ∨ ∃ nextNode ∈ (read next).nodes, nextNode.id = d.node.id := by
  rw [workflowChangeSet] at h
  split at h
  · next heq =>
      subst heq
      cases h
      exact .inr (.inr ⟨d.node, mem_eqNodes hd, rfl⟩)
  · split at h
    · cases h
    · cases h
      rw [get?_compareWorkflowsNodes] at hd
      split at hd
      · next node hnode =>
          cases hd
          cases htarget : (nodesById (read next).nodes).get? id with
          | none => exact .inl rfl
          | some target =>
            obtain ⟨hmem, hid⟩ := mem_nodesById htarget
            exact .inr (.inr ⟨target, hmem, hid.trans (mem_nodesById hnode).2.symm⟩)
      · obtain ⟨node, -, rfl⟩ := Option.map_eq_some_iff.mp hd
        exact .inr (.inl rfl)

variable (isEqual num read) in
theorem answers_mergeAdditiveChanges (versions : List W) (metaData : DiffMetaData) :
    Answers (workflowChangeSet isEqual num read) versions metaData
      (mergeAdditiveChanges isEqual read) := by
  intro prev _ next _ wcs hwcs
  have hnodes : ∀ d ∈ wcs.nodes.entries.map Prod.snd, d.status = .deleted
      ∨ d.status = .added
      ∨ ∃ nextNode ∈ (read next).nodes, nextNode.id = d.node.id := by
    intro d hd
    obtain ⟨p, hp, rfl⟩ := mem_map.mp hd
    exact entry_of_workflowChangeSet hwcs (get?_eq_some.mpr hp)
  obtain ⟨b, hb⟩ := checkNodes_ok isEqual hnodes
  rw [mergeAdditiveChanges, hb]
  cases b
  · exact ⟨false, rfl⟩
  · exact ⟨_, rfl⟩

/-- **ADDITIONS**: where the additive rule merges, the first version is
    contained in the second. -/
theorem contained_of_mergeAdditiveChanges {wcs : WorkflowChangeSet R N} {metaData : DiffMetaData}
    (hwcs : workflowChangeSet isEqual num read prev next = .ok wcs)
    (h : mergeAdditiveChanges isEqual read prev next wcs metaData = .ok true) :
    Contained isEqual (read prev) (read next) := by
  rw [mergeAdditiveChanges] at h
  cases hcheck : checkNodes isEqual (read next) (wcs.nodes.entries.map Prod.snd) with
  | error e => rw [hcheck] at h; cases h
  | ok b =>
    rw [hcheck] at h
    cases b with
    | false => cases h
    | true =>
      have hremoved : wcs.connections.removed.entries = [] := isEmpty_iff.mp (Except.ok.inj h)
      have hentry := not_deleted_of_checkNodes hcheck
      rw [workflowChangeSet] at hwcs
      split at hwcs
      · next heq =>
          subst heq
          exact
            { nodes := fun id node hnode =>
                ⟨node, (mem_nodesById hnode).1, (mem_nodesById hnode).2, .inl rfl⟩
              connections := fun e he _ => he }
      · split at hwcs
        · cases hwcs
        · next connections hconnections =>
            cases hwcs
            refine ⟨fun id node hnode => ?_, fun e he hplain =>
              edges_of_removed_empty hconnections hremoved he hplain⟩
            have hget := get?_compareWorkflowsNodes isEqual (read prev).nodes (read next).nodes id
            simp only [hnode] at hget
            obtain ⟨hkept, hmodified⟩ := hentry _ (mem_map_of_mem (get?_eq_some.mp hget))
            have hid := (mem_nodesById hnode).2
            cases htarget : (nodesById (read next).nodes).get? id with
            | none => exact absurd (by rw [htarget]; rfl) hkept
            | some target =>
              rw [htarget] at hmodified
              cases hsame : compareNodes isEqual node target with
              | true =>
                exact ⟨target, (mem_nodesById htarget).1,
                  (mem_nodesById htarget).2, .inr (.inl hsame)⟩
              | false =>
                obtain ⟨nextNode, hmem, hnext, hsuperset⟩ := hmodified (by simp [classified, hsame])
                exact ⟨nextNode, hmem, hnext.trans hid,
                  .inr (.inr (extends_of_nodeIsSuperset hsuperset))⟩

/-- No node and no input of a table has a name that every object
    inherits. -/
structure PlainNames (table : IConnections N) : Prop where
  node : ∀ n ∈ table.keys, n ∉ objectPrototype
  input : ∀ n, ∀ i ∈ (innerOf table n).keys, i ∉ objectPrototype

omit [DecidableEq R] [BEq N] in
theorem workflowChangeSet_ok (hprev : PlainNames (read prev).connections)
    (hnext : PlainNames (read next).connections) :
    ∃ wcs, workflowChangeSet isEqual num read prev next = .ok wcs := by
  rw [workflowChangeSet]
  split
  · exact ⟨_, rfl⟩
  · obtain ⟨connections, hconnections⟩ : ∃ connections, compareConnections num
        (read prev).connections (read next).connections = .ok connections := by
      refine (reports_compareConnections num _ _).succeeds _ tidyDiff_empty fun n hn i hi => ?_
      have hnode : n ∉ objectPrototype := by
        rcases mem_nodeNames.mp hn with hkey | hkey
        · exact hprev.node n hkey
        · exact hnext.node n hkey
      have hinput : i ∉ objectPrototype := by
        rw [mem_inputNames, nodeObject_own (.inr hnode), nodeObject_own (.inr hnode),
          NodeObject.keys, NodeObject.keys, mem_propertyOrder, mem_propertyOrder] at hi
        rcases hi with hkey | hkey
        · exact hprev.input n i hkey
        · exact hnext.input n i hkey
      have hplain : Plain n i := ⟨hnode, hinput⟩
      exact ⟨⟨_, input_of_plain hplain⟩, ⟨_, input_of_plain hplain⟩, fun _ _ _ _ _ _ _ => hplain⟩
    rw [hconnections]
    exact ⟨_, rfl⟩

variable (isEqual num read) in
/-- **GROUPING**: the versions that stay are in order, with the last among
    them, and those that go are the others, newest first.  Each of them was
    merged by a rule into the next version that stays, and by the additive
    rule only if it is contained there. -/
theorem groupWorkflows_grouping (build : W → W → Except GroupError (WorkflowChangeSet R N))
    (rules skipRules : List (DiffRule W R N)) (workflows : List W) (sizeScoreRequested : Bool)
    (hbuild : ∀ prev ∈ workflows, ∀ next ∈ workflows, ∃ wcs, build prev next = .ok wcs)
    (hanswers : ∀ rule ∈ skipRules ++ rules, Answers build workflows
      (metaDataOf read workflows sizeScoreRequested) rule) :
    ∃ removed remaining marked,
      groupWorkflows read build rules skipRules workflows sizeScoreRequested
          = .ok (removed, remaining)
        ∧ Grouping (fun prev next =>
            Merges build rules (metaDataOf read workflows sizeScoreRequested) prev next
              ∧ (build = workflowChangeSet isEqual num read →
                (∀ rule ∈ rules, rule = mergeAdditiveChanges isEqual read) →
                Contained isEqual (read prev) (read next)))
            workflows removed remaining marked := by
  obtain ⟨removed, remaining, marked, hresult, hgrouping⟩ :=
    groupWorkflows_merges read hbuild hanswers
  refine ⟨removed, remaining, marked, hresult, { hgrouping with
    covered := hgrouping.covered.mono fun prev next hmerges =>
      ⟨hmerges, ?_⟩ }⟩
  rintro rfl hadditive
  obtain ⟨wcs, hwcs, rule, hrule, hholds⟩ := hmerges
  rw [hadditive rule hrule] at hholds
  exact contained_of_mergeAdditiveChanges hwcs hholds

end

/-! ## Two histories -/

/-- A version with one node, whose text grows. -/
def growing (version : Nat) : DiffableWorkflow Nat (Fin 10) where
  nodes :=
    [{ id := "1", name := "n"
       parameters := OrderedMap.set .empty "a" (.string (List.replicate version 97))
       type := none, typeVersion := none, webhookId := none
       credentials := none }]
  connections := .empty
  createdAt := 0
  authors := none

theorem plainNames_growing (version : Nat) :
    PlainNames (growing version).connections where
  node n hn := by cases hn
  input n i hi := by cases hi

/-- A history under the additive rule. -/
theorem groupWorkflows_grouping_growing :
    ∃ removed remaining marked, groupWorkflows growing
          (workflowChangeSet (fun p q => p.name = q.name) digitText growing)
          [mergeAdditiveChanges (fun p q => p.name = q.name) growing] [] [1, 2, 3] true
        = .ok (removed, remaining)
        ∧ Grouping (fun prev next =>
            Merges (workflowChangeSet (fun p q => p.name = q.name) digitText growing)
                [mergeAdditiveChanges (fun p q => p.name = q.name) growing]
                (metaDataOf growing [1, 2, 3] true) prev next
              ∧ Contained (fun p q => p.name = q.name) (growing prev) (growing next))
            [1, 2, 3] removed remaining marked := by
  obtain ⟨removed, remaining, marked, hresult, hgrouping⟩ :=
    groupWorkflows_grouping (fun p q => p.name = q.name) digitText growing _ _ [] [1, 2, 3] true
      (fun prev _ next _ => workflowChangeSet_ok (plainNames_growing prev)
        (plainNames_growing next))
      (forall_mem_singleton.mpr (answers_mergeAdditiveChanges _ digitText growing _ _))
  exact ⟨removed, remaining, marked, hresult, { hgrouping with
    covered := hgrouping.covered.mono fun prev next h =>
      ⟨h.1, h.2 rfl (forall_mem_singleton.mpr rfl)⟩ }⟩

/-- The removed versions are not in the order of the history. -/
theorem not_removed_inOrder :
    ∃ removed remaining, groupWorkflows growing
          (workflowChangeSet (fun p q => p.name = q.name) digitText growing)
          [fun _ _ _ _ => .ok true] [] [1, 2, 3] false
        = .ok (removed, remaining)
        ∧ ¬ List.Sublist removed [1, 2, 3] := by
  have hbuild : ∀ prev next, ∃ wcs, workflowChangeSet
      (fun p q => p.name = q.name) digitText growing prev next = .ok wcs :=
    fun prev next => workflowChangeSet_ok (plainNames_growing prev) (plainNames_growing next)
  obtain ⟨wcs, hwcs⟩ := hbuild 2 3
  obtain ⟨wcs', hwcs'⟩ := hbuild 1 3
  refine ⟨[2, 1], [3], ?_, by decide⟩
  show diffLoop _ _ _ _ 2 [1, 2, 3] [] = _
  simp only [diffLoop, getElem?_cons_succ, getElem?_cons_zero, hwcs, bind, Except.bind, anyHolds,
    List.eraseIdx, hwcs', nil_append, if_true, Bool.false_eq_true, if_false, cons_append]

end N8nVersionGrouping
