import N8n.WorkflowProofs
import N8n.GraphSearchProofs

/-! # Extractable selections — one way in, one way out

    The nodes of a selection that connections enter or leave are computed by
    set algebra over the whole graph, and so are its roots and leaves.  Each
    set is read here as a predicate on nodes, and the errors are those of
    the predicates.

    The connectivity test ignores the selection.  That its path can be taken
    inside rests on the other checks: a path leaves the selection first at
    an output node, and the only one is the end of the path
    (`path_inside`). -/

namespace N8nExtractableSelection

open N8nOrderedMap N8nGraphSearch List OrderedMap
open N8nWorkflow (IConnection NodeConnectionType)

/-! ## Sets in insertion order -/

abbrev JsSet (α : Type) := OrderedMap α Unit

section

variable {α : Type}

variable {s : JsSet α} {x : α}

theorem mem_keys_filter {p : α → Bool} :
    x ∈ (s.filter fun q => p q.1).keys ↔ x ∈ s.keys ∧ p x = true := by
  constructor
  · intro h
    obtain ⟨q, hq, rfl⟩ := mem_map.mp h
    obtain ⟨hmem, hp⟩ := mem_filter.mp hq
    exact ⟨mem_map_of_mem hmem, hp⟩
  · rintro ⟨h, hp⟩
    obtain ⟨q, hq, rfl⟩ := mem_map.mp h
    exact mem_map_of_mem (mem_filter.mpr ⟨hq, hp⟩)

theorem size_le_one : s.size ≤ 1 ↔ ∀ x ∈ s.keys, ∀ y ∈ s.keys, x = y := by
  have hlength : s.size = s.keys.length := by
    rw [OrderedMap.size, OrderedMap.keys, length_map]
  have hnodup : s.keys.Nodup := s.nodup
  rw [hlength]
  generalize s.keys = l at hnodup ⊢
  rcases l with _ | ⟨x, _ | ⟨y, rest⟩⟩
  · exact iff_of_true (Nat.zero_le 1) fun x hx => by cases hx
  · refine iff_of_true (Nat.le_refl 1) fun a ha b hb => ?_
    rw [mem_singleton.mp ha, mem_singleton.mp hb]
  · refine iff_of_false (by simp) fun h => ?_
    have hxy := h x (mem_cons_self ..) y (mem_cons_of_mem _ (mem_cons_self ..))
    subst hxy
    exact (nodup_cons.mp hnodup).1 (mem_cons_self ..)

variable [DecidableEq α]

def newSet (l : List α) : JsSet α := l.foldl (fun result x => result.set x ()) .empty

def intersection (a b : JsSet α) : JsSet α := a.filter fun p => b.has p.1

def union (a b : JsSet α) : JsSet α := b.keys.foldl (fun result x => result.set x ()) a

def difference (minuend subtrahend : JsSet α) : JsSet α :=
  minuend.filter fun p => !subtrahend.has p.1

theorem mem_foldl_set {l : List α} :
    x ∈ (l.foldl (fun result x => result.set x ()) s).keys
      ↔ x ∈ s.keys ∨ x ∈ l := by
  induction l generalizing s with
  | nil => simp
  | cons y rest ih =>
    rw [foldl_cons, ih, mem_keys_set, mem_cons]
    tauto

@[simp] theorem mem_newSet {l : List α} : x ∈ (newSet l).keys ↔ x ∈ l := by
  rw [newSet, mem_foldl_set]
  exact or_iff_right fun h => by cases h

variable {a b : JsSet α}

@[simp] theorem mem_union : x ∈ (union a b).keys ↔ x ∈ a.keys ∨ x ∈ b.keys := mem_foldl_set

@[simp] theorem mem_intersection : x ∈ (intersection a b).keys ↔ x ∈ a.keys ∧ x ∈ b.keys := by
  rw [intersection, mem_keys_filter, has_iff]

@[simp] theorem mem_difference : x ∈ (difference a b).keys ↔ x ∈ a.keys ∧ x ∉ b.keys := by
  rw [difference, mem_keys_filter (p := fun y => !b.has y),
    Bool.not_eq_true', ← Bool.not_eq_true, has_iff]

end

/-! ## The graph and its checks -/

abbrev IConnectionAdjacencyList := OrderedMap String (List IConnection)

inductive ExtractableErrorResult where
  | multipleInputNodes (nodes : JsSet String)
  | multipleOutputNodes (nodes : JsSet String)
  | inputEdgeToNonRootNode (node : String)
  | outputEdgeFromNonLeafNode (node : String)
  | noContinuousPathFromRootToLeaf (start finish : String)
deriving DecidableEq

structure ExtractableSubgraphData where
  start : Option String
  finish : Option String
deriving DecidableEq

/-- The edges that lead into the selection. -/
def getInputEdges (graphIds : JsSet String) (adjacencyList : IConnectionAdjacencyList) :
    List (String × IConnection) :=
  adjacencyList.entries.flatMap fun (source, tos) =>
    if graphIds.has source then []
    else (tos.filter fun x => graphIds.has x.node).map fun x => (source, x)

def getOutputEdges (graphIds : JsSet String) (adjacencyList : IConnectionAdjacencyList) :
    List (String × IConnection) :=
  adjacencyList.entries.flatMap fun (source, tos) =>
    if graphIds.has source then
      (tos.filter fun x => !graphIds.has x.node).map fun x => (source, x)
    else []

def mainTargets (adjacencyList : IConnectionAdjacencyList) (nodeId : String) : List String :=
  (((adjacencyList.get? nodeId).getD []).filter fun x =>
    x.type = .main).map (·.node)

/-- The `main` targets of a node other than itself. -/
def otherTargets (adjacencyList : IConnectionAdjacencyList) (nodeId : String) : JsSet String :=
  newSet ((((adjacencyList.get? nodeId).getD []).filter fun x =>
    x.type = .main && x.node ≠ nodeId).map (·.node))

def getRootNodes (graphIds : JsSet String)
    (adjacencyList : IConnectionAdjacencyList) : JsSet String :=
  -- Inner nodes are entered from another node of the selection.
  difference graphIds (graphIds.keys.foldl (fun innerNodes nodeId =>
    union innerNodes (otherTargets adjacencyList nodeId)) .empty)

def getLeafNodes (graphIds : JsSet String)
    (adjacencyList : IConnectionAdjacencyList) : JsSet String :=
  newSet (graphIds.keys.filter fun nodeId =>
    (intersection (otherTargets adjacencyList nodeId) graphIds).size = 0)

/-- What `hasPath` pushes for a node, seen or not. -/
def pathTargets (adjacencyList : IConnectionAdjacencyList) (nodeId : String) : List String :=
  (newSet (mainTargets adjacencyList nodeId)).keys

theorem pathTargets_mem (adjacencyList : IConnectionAdjacencyList) :
    ∀ a, ∀ b ∈ pathTargets adjacencyList a,
      b ∈ adjacencyList.entries.flatMap fun p => p.2.map (·.node) := by
  intro a b hb
  obtain ⟨c, hc, rfl⟩ := mem_map.mp (mem_newSet.mp hb)
  rcases hget : adjacencyList.get? a with _ | tos
  · rw [hget] at hc
    cases hc
  · rw [hget] at hc
    exact mem_flatMap.mpr ⟨(a, tos), get?_eq_some.mp hget, mem_map_of_mem (mem_filter.mp hc).1⟩

/-- The loop pops a node, and pushes its targets that are not yet seen. -/
def hasPath (start finish : String) (adjacencyList : IConnectionAdjacencyList) : Bool :=
  search (pathTargets adjacencyList) _ (pathTargets_mem adjacencyList) finish [start] []

/-- The last check, for a start and an end that are truthy. -/
def pathErrors (start finish : Option String) (adjacencyList : IConnectionAdjacencyList) :
    List ExtractableErrorResult :=
  match start, finish with
  | some s, some f =>
    if s ≠ "" ∧ f ≠ "" ∧ hasPath s f adjacencyList = false
    then [.noContinuousPathFromRootToLeaf s f] else []
  | _, _ => []

/-- The nodes entered from outside, without what only a sub-node enters. -/
def inputNodes (graphIds : JsSet String)
    (adjacencyList : IConnectionAdjacencyList) : JsSet String :=
  newSet (((getInputEdges graphIds adjacencyList).filter fun x =>
    x.2.type = .main).map fun x => x.2.node)

def outputNodes (graphIds : JsSet String)
    (adjacencyList : IConnectionAdjacencyList) : JsSet String :=
  newSet (((getOutputEdges graphIds adjacencyList).filter fun x =>
    x.2.type = .main).map fun x => x.1)

def parseExtractableSubgraphSelection (graphIds : JsSet String)
    (adjacencyList : IConnectionAdjacencyList) :
    Except (List ExtractableErrorResult) ExtractableSubgraphData :=
  let inputNodes := inputNodes graphIds adjacencyList
  let rootNodes := getRootNodes graphIds adjacencyList
  -- One input and a loop back to it from within the selection.
  let rootNodes :=
    if rootNodes.size = 0 ∧ inputNodes.size = 1 then inputNodes else rootNodes
  let rootInputNodes := intersection rootNodes inputNodes
  let outputNodes := outputNodes graphIds adjacencyList
  let leafNodes := getLeafNodes graphIds adjacencyList
  let leafNodes :=
    if leafNodes.size = 0 ∧ outputNodes.size = 1 then outputNodes
    else leafNodes
  let leafOutputNodes := intersection leafNodes outputNodes
  let start := rootInputNodes.keys.head?
  let finish := leafOutputNodes.keys.head?
  let errors :=
    (difference inputNodes rootNodes).keys.map .inputEdgeToNonRootNode
    ++ (if 1 < rootInputNodes.size then [.multipleInputNodes rootInputNodes]
        else [])
    ++ (difference outputNodes leafNodes).keys.map .outputEdgeFromNonLeafNode
    ++ (if 1 < leafOutputNodes.size
        then [.multipleOutputNodes leafOutputNodes] else [])
    ++ pathErrors start finish adjacencyList
  if errors = [] then .ok { start, finish } else .error errors

/-! ## One side of the check -/

theorem size_eq_zero {s : JsSet String} : s.size = 0 ↔ ∀ x, x ∉ s.keys := by
  rw [OrderedMap.size, OrderedMap.keys, length_eq_zero_iff,
    ← map_eq_nil_iff (f := Prod.fst), eq_nil_iff_forall_not_mem]

/-- What is accepted of the touched nodes: with no end node, a single one
    counts as an end. -/
def accepted (ends touched : JsSet String) : JsSet String :=
  if ends.size = 0 ∧ touched.size = 1 then touched else ends

/-- No touched node is refused, and not more than one is accepted. -/
def Passes (ends touched : JsSet String) : Prop :=
  (difference touched (accepted ends touched)).keys = []
    ∧ ¬ 1 < (intersection (accepted ends touched) touched).size

section

variable {ends touched : JsSet String}

theorem Passes.subset (h : Passes ends touched) :
    ∀ n ∈ touched.keys, n ∈ (accepted ends touched).keys := by
  intro n hn
  by_contra hno
  have hmem := mem_difference.mpr ⟨hn, hno⟩
  rw [h.1] at hmem
  cases hmem

theorem passes_iff : Passes ends touched
    ↔ (∀ a ∈ touched.keys, ∀ b ∈ touched.keys, a = b)
      ∧ ∀ n ∈ touched.keys, n ∈ ends.keys ∨ ∀ m, m ∉ ends.keys := by
  constructor
  · intro h
    have hunique : ∀ a ∈ touched.keys, ∀ b ∈ touched.keys, a = b :=
      fun a ha b hb => size_le_one.mp (Nat.not_lt.mp h.2)
        a (mem_intersection.mpr ⟨h.subset a ha, ha⟩) b (mem_intersection.mpr ⟨h.subset b hb, hb⟩)
    refine ⟨hunique, fun n hn => ?_⟩
    have hin := h.subset n hn
    rw [accepted] at hin
    split at hin
    · next hsingle => exact .inr (size_eq_zero.mp hsingle.1)
    · exact .inl hin
  · rintro ⟨hunique, hends⟩
    have hsubset : ∀ n ∈ touched.keys, n ∈ (accepted ends touched).keys := by
      intro n hn
      rw [accepted]
      split
      · exact hn
      · next hsingle =>
          rcases hends n hn with hin | hempty
          · exact hin
          · have hle := size_le_one.mpr hunique
            have hpos : touched.size ≠ 0 := fun hzero =>
              size_eq_zero.mp hzero n hn
            exact absurd ⟨size_eq_zero.mpr hempty,
              Nat.le_antisymm hle (Nat.pos_of_ne_zero hpos)⟩ hsingle
    constructor
    · refine eq_nil_iff_forall_not_mem.mpr fun n hn => ?_
      obtain ⟨hin, hout⟩ := mem_difference.mp hn
      exact hout (hsubset n hin)
    · refine Nat.not_lt.mpr (size_le_one.mpr fun a ha b hb => ?_)
      exact hunique a (mem_intersection.mp ha).2 b (mem_intersection.mp hb).2

theorem Passes.head_iff (h : Passes ends touched) {n : String} :
    (intersection (accepted ends touched) touched).keys.head? = some n ↔ n ∈ touched.keys := by
  constructor
  · intro hhead
    exact (mem_intersection.mp (mem_of_head? hhead)).2
  · intro hn
    have hmem : n ∈ (intersection (accepted ends touched) touched).keys :=
      mem_intersection.mpr ⟨h.subset n hn, hn⟩
    rcases hkeys : (intersection (accepted ends touched) touched).keys with _ | ⟨a, rest⟩
    · rw [hkeys] at hmem
      cases hmem
    · have ha : a ∈ (intersection (accepted ends touched) touched).keys := by
        rw [hkeys]
        exact mem_cons_self ..
      rw [head?_cons, (passes_iff.mp h).1 a (mem_intersection.mp ha).2 n hn]

end

/-! ## The sets as predicates -/

section

variable (graphIds : JsSet String) (adjacencyList : IConnectionAdjacencyList)

/-- A `main` connection from one node to another. -/
def MainEdge (a b : String) : Prop := b ∈ mainTargets adjacencyList a

/-- A selected node that a `main` connection from outside enters. -/
def InputNode (n : String) : Prop :=
  n ∈ graphIds.keys ∧ ∃ m, m ∉ graphIds.keys ∧ MainEdge adjacencyList m n

/-- A selected node that a `main` connection to the outside leaves. -/
def OutputNode (n : String) : Prop :=
  n ∈ graphIds.keys ∧ ∃ m, m ∉ graphIds.keys ∧ MainEdge adjacencyList n m

/-- A selected node that no other selected node leads to. -/
def RootNode (n : String) : Prop :=
  n ∈ graphIds.keys ∧ ∀ m ∈ graphIds.keys, m ≠ n → ¬ MainEdge adjacencyList m n

/-- A selected node that leads to no other selected node. -/
def LeafNode (n : String) : Prop :=
  n ∈ graphIds.keys ∧ ∀ m ∈ graphIds.keys, m ≠ n → ¬ MainEdge adjacencyList n m

variable {graphIds adjacencyList}

theorem mem_mainTargets {a b : String} :
    b ∈ mainTargets adjacencyList a ↔ ∃ tos, (a, tos) ∈ adjacencyList.entries
      ∧ ∃ x ∈ tos, x.type = .main ∧ x.node = b := by
  rw [mainTargets, mem_map]
  constructor
  · rintro ⟨x, hx, rfl⟩
    rcases hget : adjacencyList.get? a with _ | tos
    · rw [hget] at hx
      cases hx
    · rw [hget] at hx
      obtain ⟨hmem, htype⟩ := mem_filter.mp hx
      exact ⟨tos, get?_eq_some.mp hget, x, hmem, of_decide_eq_true htype, rfl⟩
  · rintro ⟨tos, htos, x, hx, htype, rfl⟩
    rw [get?_eq_some.mpr htos]
    exact ⟨x, mem_filter.mpr ⟨hx, decide_eq_true htype⟩, rfl⟩

theorem mem_otherTargets {a b : String} :
    b ∈ (otherTargets adjacencyList a).keys ↔ MainEdge adjacencyList a b ∧ b ≠ a := by
  rw [otherTargets, mem_newSet, MainEdge, mainTargets]
  simp only [mem_map, mem_filter, Bool.and_eq_true, decide_eq_true_eq]
  constructor
  · rintro ⟨x, ⟨hx, htype, hne⟩, rfl⟩
    exact ⟨⟨x, ⟨hx, htype⟩, rfl⟩, hne⟩
  · rintro ⟨⟨x, ⟨hx, htype⟩, rfl⟩, hne⟩
    exact ⟨x, ⟨hx, htype, hne⟩, rfl⟩

variable {n : String}

theorem mem_inputNodes :
    n ∈ (inputNodes graphIds adjacencyList).keys ↔ InputNode graphIds adjacencyList n := by
  rw [inputNodes, mem_newSet, InputNode]
  simp only [MainEdge, mem_mainTargets, mem_map, mem_filter,
    getInputEdges, mem_flatMap, decide_eq_true_eq]
  constructor
  · rintro ⟨e, ⟨⟨p, hp, he⟩, htype⟩, rfl⟩
    split at he
    · cases he
    · next hno =>
        obtain ⟨x, hx, rfl⟩ := mem_map.mp he
        obtain ⟨hmem, hin⟩ := mem_filter.mp hx
        exact ⟨has_iff.mp hin, p.1,
          fun hkey => hno (has_iff.mpr hkey), p.2, hp, x, hmem, htype, rfl⟩
  · rintro ⟨hin, m, hm, tos, htos, x, hx, htype, rfl⟩
    refine ⟨(m, x), ⟨⟨(m, tos), htos, ?_⟩, htype⟩, rfl⟩
    rw [if_neg fun hhas => hm (has_iff.mp hhas)]
    exact mem_map_of_mem (mem_filter.mpr ⟨hx, has_iff.mpr hin⟩)

theorem mem_outputNodes :
    n ∈ (outputNodes graphIds adjacencyList).keys ↔ OutputNode graphIds adjacencyList n := by
  rw [outputNodes, mem_newSet, OutputNode]
  simp only [MainEdge, mem_mainTargets, mem_map, mem_filter,
    getOutputEdges, mem_flatMap, decide_eq_true_eq]
  constructor
  · rintro ⟨e, ⟨⟨p, hp, he⟩, htype⟩, rfl⟩
    split at he
    · next hin =>
        obtain ⟨x, hx, rfl⟩ := mem_map.mp he
        obtain ⟨hmem, hout⟩ := mem_filter.mp hx
        refine ⟨has_iff.mp hin, x.node, fun hkey => ?_, p.2, hp, x, hmem, htype, rfl⟩
        rw [has_iff.mpr hkey] at hout
        cases hout
    · cases he
  · rintro ⟨hin, m, hm, tos, htos, x, hx, htype, rfl⟩
    refine ⟨(n, x), ⟨⟨(n, tos), htos, ?_⟩, htype⟩, rfl⟩
    rw [if_pos (has_iff.mpr hin)]
    refine mem_map_of_mem (mem_filter.mpr ⟨hx, ?_⟩)
    rw [Bool.not_eq_true', ← Bool.not_eq_true]
    exact fun hhas => hm (has_iff.mp hhas)

theorem mem_getRootNodes :
    n ∈ (getRootNodes graphIds adjacencyList).keys ↔ RootNode graphIds adjacencyList n := by
  have hinner : ∀ (l : List String) (s : JsSet String),
      n ∈ (l.foldl (fun innerNodes nodeId =>
          union innerNodes (otherTargets adjacencyList nodeId)) s).keys
        ↔ n ∈ s.keys ∨ ∃ m ∈ l, MainEdge adjacencyList m n ∧ n ≠ m := by
    intro l
    induction l with
    | nil => simp
    | cons a rest ih =>
      intro s
      rw [foldl_cons, ih, mem_union, mem_otherTargets, or_assoc]
      simp
  rw [getRootNodes, mem_difference, hinner, RootNode]
  refine and_congr_right fun _ => ?_
  constructor
  · intro h m hm hne hedge
    exact h (.inr ⟨m, hm, hedge, hne.symm⟩)
  · rintro h (hempty | ⟨m, hm, hedge, hne⟩)
    · cases hempty
    · exact h m hm hne.symm hedge

theorem mem_getLeafNodes :
    n ∈ (getLeafNodes graphIds adjacencyList).keys ↔ LeafNode graphIds adjacencyList n := by
  rw [getLeafNodes, mem_newSet, mem_filter, LeafNode]
  refine and_congr_right fun _ => ?_
  rw [decide_eq_true_eq, OrderedMap.size, length_eq_zero_iff]
  constructor
  · intro h m hm hne hedge
    have hmem : m ∈ (intersection (otherTargets adjacencyList n) graphIds).keys :=
      mem_intersection.mpr ⟨mem_otherTargets.mpr ⟨hedge, hne⟩, hm⟩
    rw [OrderedMap.keys, h] at hmem
    cases hmem
  · intro h
    refine eq_nil_iff_forall_not_mem.mpr fun p hp => ?_
    obtain ⟨htarget, hin⟩ := mem_intersection.mp (mem_map_of_mem (f := Prod.fst) hp)
    obtain ⟨hedge, hne⟩ := mem_otherTargets.mp htarget
    exact h p.1 hin hne hedge

theorem hasPath_iff {start finish : String} :
    hasPath start finish adjacencyList = true
      ↔ Relation.ReflTransGen (MainEdge adjacencyList) start finish := by
  rw [hasPath, search_iff]
  have hstep : (fun a b => b ∈ pathTargets adjacencyList a)
      = MainEdge adjacencyList := by
    funext a b
    exact propext mem_newSet
  rw [Leads, hstep]

end

/-! ## The selection -/

/-- What the check requires of the two sides and of the path. -/
structure Extractable (graphIds : JsSet String)
    (adjacencyList : IConnectionAdjacencyList) : Prop where
  oneInput : ∀ a b, InputNode graphIds adjacencyList a → InputNode graphIds adjacencyList b → a = b
  inputRoot : ∀ n, InputNode graphIds adjacencyList n → RootNode graphIds adjacencyList n
      ∨ ∀ m, ¬ RootNode graphIds adjacencyList m
  oneOutput : ∀ a b, OutputNode graphIds adjacencyList a →
    OutputNode graphIds adjacencyList b → a = b
  outputLeaf : ∀ n, OutputNode graphIds adjacencyList n → LeafNode graphIds adjacencyList n
      ∨ ∀ m, ¬ LeafNode graphIds adjacencyList m
  path : ∀ s f, InputNode graphIds adjacencyList s → OutputNode graphIds adjacencyList f →
    Relation.ReflTransGen (MainEdge adjacencyList) s f

/-- A `main` connection between selected nodes. -/
def InnerEdge (graphIds : JsSet String)
    (adjacencyList : IConnectionAdjacencyList) (a b : String) : Prop :=
  a ∈ graphIds.keys ∧ b ∈ graphIds.keys ∧ MainEdge adjacencyList a b

/-- **STAYING INSIDE**: a path to the only output node does not leave the
    selection before its end. -/
theorem path_inside {graphIds : JsSet String}
    {adjacencyList : IConnectionAdjacencyList} {f : String}
    (honly : ∀ n, OutputNode graphIds adjacencyList n → n = f)
    {s : String} (hs : s ∈ graphIds.keys)
    (hpath : Relation.ReflTransGen (MainEdge adjacencyList) s f) :
    Relation.ReflTransGen (InnerEdge graphIds adjacencyList) s f := by
  induction hpath using Relation.ReflTransGen.head_induction_on with
  | refl => exact .refl
  | @head a b hstep hrest ih =>
    by_cases hb : b ∈ graphIds.keys
    · exact .head ⟨hs, hb, hstep⟩ (ih hb)
    · -- The path leaves here, so this is its end.
      rw [honly a ⟨hs, b, hb, hstep⟩]

section

variable {graphIds : JsSet String}
  {adjacencyList : IConnectionAdjacencyList}

theorem parse_eq_ok {data : ExtractableSubgraphData} :
    parseExtractableSubgraphSelection graphIds adjacencyList = .ok data
      ↔ Passes (getRootNodes graphIds adjacencyList) (inputNodes graphIds adjacencyList)
        ∧ Passes (getLeafNodes graphIds adjacencyList) (outputNodes graphIds adjacencyList)
        ∧ data =
          { start := (intersection
              (accepted (getRootNodes graphIds adjacencyList) (inputNodes graphIds adjacencyList))
              (inputNodes graphIds adjacencyList)).keys.head?
            finish := (intersection
              (accepted (getLeafNodes graphIds adjacencyList) (outputNodes graphIds adjacencyList))
              (outputNodes graphIds adjacencyList)).keys.head? }
        ∧ pathErrors data.start data.finish adjacencyList = [] := by
  have herrors : ∀ {l : List ExtractableErrorResult}
      {d : ExtractableSubgraphData},
      (if l = [] then Except.ok d else .error l) = .ok data ↔ l = [] ∧ d = data := by
    intro l d
    by_cases hl : l = []
    · simp [hl]
    · simp [hl]
  refine herrors.trans ?_
  rw [append_eq_nil_iff, append_eq_nil_iff, append_eq_nil_iff, append_eq_nil_iff,
    map_eq_nil_iff, map_eq_nil_iff, ite_eq_right_iff, ite_eq_right_iff]
  simp only [cons_ne_nil, imp_false]
  constructor
  · rintro ⟨⟨⟨⟨⟨hin, hone⟩, hout⟩, hlast⟩, hpath⟩, rfl⟩
    exact ⟨⟨hin, hone⟩, ⟨hout, hlast⟩, rfl, hpath⟩
  · rintro ⟨⟨hin, hone⟩, ⟨hout, hlast⟩, rfl, hpath⟩
    exact ⟨⟨⟨⟨⟨hin, hone⟩, hout⟩, hlast⟩, hpath⟩, rfl⟩

theorem passes_inputs :
    Passes (getRootNodes graphIds adjacencyList) (inputNodes graphIds adjacencyList)
      ↔ (∀ a b, InputNode graphIds adjacencyList a → InputNode graphIds adjacencyList b → a = b)
        ∧ ∀ n, InputNode graphIds adjacencyList n → RootNode graphIds adjacencyList n
            ∨ ∀ m, ¬ RootNode graphIds adjacencyList m := by
  rw [passes_iff]
  simp only [mem_inputNodes, mem_getRootNodes]
  exact and_congr_left' ⟨fun h a b ha hb => h a ha b hb, fun h a ha b hb => h a b ha hb⟩

theorem passes_outputs :
    Passes (getLeafNodes graphIds adjacencyList) (outputNodes graphIds adjacencyList)
      ↔ (∀ a b, OutputNode graphIds adjacencyList a → OutputNode graphIds adjacencyList b → a = b)
        ∧ ∀ n, OutputNode graphIds adjacencyList n → LeafNode graphIds adjacencyList n
            ∨ ∀ m, ¬ LeafNode graphIds adjacencyList m := by
  rw [passes_iff]
  simp only [mem_outputNodes, mem_getLeafNodes]
  exact and_congr_left' ⟨fun h a b ha hb => h a ha b hb, fun h a ha b hb => h a b ha hb⟩

theorem ends_of_parse {data : ExtractableSubgraphData}
    (h : parseExtractableSubgraphSelection graphIds adjacencyList = .ok data) :
    (∀ n, data.start = some n ↔ InputNode graphIds adjacencyList n)
      ∧ ∀ n, data.finish = some n ↔ OutputNode graphIds adjacencyList n := by
  obtain ⟨hin, hout, rfl, -⟩ := parse_eq_ok.mp h
  exact ⟨fun n => hin.head_iff.trans mem_inputNodes, fun n => hout.head_iff.trans mem_outputNodes⟩

theorem pathErrors_eq_nil {s f : String} (hs : s ≠ "") (hf : f ≠ "") :
    pathErrors (some s) (some f) adjacencyList = []
      ↔ Relation.ReflTransGen (MainEdge adjacencyList) s f := by
  rw [← hasPath_iff, pathErrors]
  cases hasPath s f adjacencyList
  · rw [if_pos ⟨hs, hf, rfl⟩]
    exact ⟨fun h => (by cases h), fun h => by cases h⟩
  · rw [if_neg fun h => Bool.noConfusion h.2.2]
    exact iff_of_true rfl rfl

theorem ne_empty_of_mem (hnames : "" ∉ graphIds.keys) {n : String}
    (hn : n ∈ graphIds.keys) : n ≠ "" := by
  rintro rfl
  exact hnames hn

theorem parse_ok_iff (hnames : "" ∉ graphIds.keys) :
    (∃ data, parseExtractableSubgraphSelection graphIds adjacencyList
        = .ok data)
      ↔ Extractable graphIds adjacencyList := by
  constructor
  · rintro ⟨data, hok⟩
    obtain ⟨hstart, hfinish⟩ := ends_of_parse hok
    obtain ⟨hin, hout, -, hpath⟩ := parse_eq_ok.mp hok
    obtain ⟨hone, hroot⟩ := passes_inputs.mp hin
    obtain ⟨hlast, hleaf⟩ := passes_outputs.mp hout
    refine ⟨hone, hroot, hlast, hleaf, fun s f hs hf => ?_⟩
    rw [(hstart s).mpr hs, (hfinish f).mpr hf] at hpath
    exact (pathErrors_eq_nil (ne_empty_of_mem hnames hs.1) (ne_empty_of_mem hnames hf.1)).mp hpath
  · intro h
    have hin := passes_inputs.mpr ⟨h.oneInput, h.inputRoot⟩
    have hout := passes_outputs.mpr ⟨h.oneOutput, h.outputLeaf⟩
    have hpath : ∀ start finish : Option String,
        (∀ n, start = some n → InputNode graphIds adjacencyList n) →
        (∀ n, finish = some n → OutputNode graphIds adjacencyList n) →
        pathErrors start finish adjacencyList = [] := by
      rintro (_ | s) (_ | f) hs hf
      · rfl
      · rfl
      · rfl
      · exact (pathErrors_eq_nil (ne_empty_of_mem hnames (hs s rfl).1)
          (ne_empty_of_mem hnames (hf f rfl).1)).mpr (h.path s f (hs s rfl) (hf f rfl))
    exact ⟨_, parse_eq_ok.mpr ⟨hin, hout, rfl, hpath _ _
      (fun n hn => mem_inputNodes.mp (hin.head_iff.mp hn))
      (fun n hn => mem_outputNodes.mp (hout.head_iff.mp hn))⟩⟩

/-- **EXTRACTABLE SELECTIONS**: of named nodes, exactly those with one way
    in at a root and one way out at a leaf are accepted, and a path from the
    reported start to the reported end stays inside. -/
theorem parse_extractable (graphIds : JsSet String)
    (adjacencyList : IConnectionAdjacencyList) (hnames : "" ∉ graphIds.keys) :
    ((∃ data, parseExtractableSubgraphSelection graphIds adjacencyList
        = .ok data)
      ↔ Extractable graphIds adjacencyList)
    ∧ ∀ data s f, parseExtractableSubgraphSelection graphIds adjacencyList
        = .ok data → data.start = some s → data.finish = some f →
      Relation.ReflTransGen (InnerEdge graphIds adjacencyList) s f := by
  refine ⟨parse_ok_iff hnames, fun data s f hok hs hf => ?_⟩
  obtain ⟨hstart, hfinish⟩ := ends_of_parse hok
  have hin := (hstart s).mp hs
  have hout := (hfinish f).mp hf
  have h := (parse_ok_iff hnames).mp ⟨data, hok⟩
  exact path_inside (fun n hn => h.oneOutput n f hn hout) hin.1 (h.path s f hin hout)

/-- What the check would require if an end had to be the only one. -/
structure OnlyEnds (graphIds : JsSet String)
    (adjacencyList : IConnectionAdjacencyList) : Prop where
  oneInput : ∀ a b, InputNode graphIds adjacencyList a → InputNode graphIds adjacencyList b → a = b
  onlyRoot : ∀ n, InputNode graphIds adjacencyList n →
    ∀ m, RootNode graphIds adjacencyList m → m = n
  oneOutput : ∀ a b, OutputNode graphIds adjacencyList a →
    OutputNode graphIds adjacencyList b → a = b
  onlyLeaf : ∀ n, OutputNode graphIds adjacencyList n →
    ∀ m, LeafNode graphIds adjacencyList m → m = n
  path : ∀ s f, InputNode graphIds adjacencyList s → OutputNode graphIds adjacencyList f →
    Relation.ReflTransGen (MainEdge adjacencyList) s f

/-- `main` connections by their source and their targets. -/
def mainList (l : List (String × List String)) : IConnectionAdjacencyList :=
  l.foldl (fun m p => m.set p.1 (p.2.map fun n => ⟨n, .main, 0⟩)) .empty

/-- Two nodes that lead to a third, and one of them entered from outside. -/
def twoRoots : IConnectionAdjacencyList := mainList [("A", ["C"]), ("B", ["C"]), ("X", ["A"])]

theorem parse_extractable_twoRoots :
    (∃ data, parseExtractableSubgraphSelection (newSet ["A", "B", "C"]) twoRoots = .ok data)
      ↔ Extractable (newSet ["A", "B", "C"]) twoRoots :=
  (parse_extractable (newSet ["A", "B", "C"]) twoRoots (by decide)).1

theorem not_onlyEnds_twoRoots :
    ¬ ((∃ data, parseExtractableSubgraphSelection (newSet ["A", "B", "C"]) twoRoots = .ok data)
        ↔ OnlyEnds (newSet ["A", "B", "C"]) twoRoots) := by
  intro h
  have hok : parseExtractableSubgraphSelection (newSet ["A", "B", "C"]) twoRoots
        = .ok { start := some "A", finish := none } := by decide
  have hA : InputNode (newSet ["A", "B", "C"]) twoRoots "A" := mem_inputNodes.mp (by decide)
  have hB : RootNode (newSet ["A", "B", "C"]) twoRoots "B" := mem_getRootNodes.mp (by decide)
  have hBA := (h.mp ⟨_, hok⟩).onlyRoot "A" hA "B" hB
  revert hBA
  decide

end

end N8nExtractableSelection
