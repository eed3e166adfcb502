import Mathlib.Data.List.TakeWhile
import N8n.MutualReachProofs
import N8n.PartialGraphProofs

/-! # The strongly connected components of a graph

    `getStronglyConnectedComponents` is Tarjan's algorithm, except for the
    condition under which a node is popped: where Tarjan pops down to the
    entry of the component, this pops nodes whose low link value is the id of
    the entry.  A low link value is passed on when a connection is left, so
    a node has the id of the entry only if a chain of connections leads from
    it to the entry that were left one after the other, the last of them
    first.

    The result is right exactly if there is such a chain from every node
    (`areComponents_iff`).  Otherwise a node stays on the stack for good, and
    is in no component. -/

namespace N8nStrongComponents

open Relation N8nExcept N8nOrderedMap N8nDirectedGraph N8nDepthFirst
  N8nMutualReach N8nPartialGraph

/-! ## The algorithm -/

/-- The variables of `getStronglyConnectedComponents`; the stack with its
    top first. -/
structure Tarjan where
  id : Nat
  visited : List INode
  ids : OrderedMap INode Nat
  lowLinkValues : OrderedMap INode Nat
  stack : List INode
  stronglyConnectedComponents : List (List INode)

namespace Tarjan

def start : Tarjan :=
  { id := 0, visited := [], ids := .empty, lowLinkValues := .empty
    stack := [], stronglyConnectedComponents := [] }

/-- What is done with a node that is visited. -/
def push (node : INode) (t : Tarjan) : Tarjan :=
  { t with
    id := t.id + 1
    visited := addTo t.visited node
    ids := t.ids.set node t.id
    lowLinkValues := t.lowLinkValues.set node t.id
    stack := node :: t.stack }

/-- If the child is on the stack, the low id of the node is the lower of the
    two. -/
def minLowLink (node child : INode) (t : Tarjan) : Except GraphError Tarjan :=
  if child ∈ t.stack then
    match t.lowLinkValues.get? child, t.lowLinkValues.get? node with
    | some childLowLinkValue, some ownLowLinkValue =>
      let lowestLowLinkValue := min childLowLinkValue ownLowLinkValue
      .ok { t with
        lowLinkValues := t.lowLinkValues.set node lowestLowLinkValue }
    | _, _ => .error .assertionError
  else .ok t

/-- The component, and what stays on the stack. -/
def popWhile (lowLinkValues : OrderedMap INode Nat) (ownId : Nat) :
    List INode → List INode → List INode × List INode
  | scc, [] => (scc, [])
  | scc, next :: stack =>
    if lowLinkValues.get? next = some ownId then
      popWhile lowLinkValues ownId (addTo scc next) stack
    else (scc, next :: stack)

/-- What is done with a node when all children were visited. -/
def popComponent (node : INode) (t : Tarjan) : Except GraphError Tarjan :=
  match t.ids.get? node, t.lowLinkValues.get? node with
  | some ownId, some ownLowLinkValue =>
    if ownId = ownLowLinkValue then
      let (scc, stack) := popWhile t.lowLinkValues ownId [] t.stack
      if scc.length > 0 then
        .ok { t with
          stack
          stronglyConnectedComponents :=
            t.stronglyConnectedComponents ++ [scc] }
      else .ok { t with stack }
    else .ok t
  | _, _ => .error .assertionError

end Tarjan

def followNode (g : DirectedGraph) : Nat → Tarjan → INode → Except GraphError Tarjan
  | 0, _, _ => .error .rangeError
  | fuel + 1, t, node =>
    if node ∈ t.visited then .ok t
    else do
      let childConnections ← getDirectChildConnections g node
      let t ← (childConnections.map (·.toNode)).foldlM (fun t child => do
        let t ← followNode g fuel t child
        t.minLowLink node child) (t.push node)
      t.popComponent node

def getStronglyConnectedComponents (g : DirectedGraph) :
    Except GraphError (List (List INode)) := do
  let t ← g.getNodes.foldlM (followNode g (depth g)) .start
  return t.stronglyConnectedComponents

/-! ## The algorithm as hooks of a search -/

namespace Tarjan

/-- What the algorithm does at each event; an error stays. -/
def hooks : Hooks INode (Except GraphError Tarjan) :=
  { enter := fun v a => a.map (push v)
    leave := fun v c a => a >>= minLowLink v c
    exit := fun v a => a >>= popComponent v }

theorem push_visited {t : Tarjan} {node : INode} (h : node ∉ t.visited) :
    (t.push node).visited = t.visited ++ [node] := if_neg h

theorem minLowLink_visited {t t' : Tarjan} {node child : INode}
    (h : t.minLowLink node child = .ok t') : t'.visited = t.visited := by
  rw [minLowLink] at h
  split at h
  · split at h
    · cases h
      rfl
    · cases h
  · cases h
    rfl

theorem popComponent_visited {t t' : Tarjan} {node : INode}
    (h : t.popComponent node = .ok t') : t'.visited = t.visited := by
  rw [popComponent] at h
  split at h
  · split at h
    · dsimp only at h
      split at h
      · cases h
        rfl
      · cases h
        rfl
    · cases h
      rfl
  · cases h

end Tarjan

section

variable {g : Graph}

/-- One child of a node, in the search. -/
def step (g : Graph) (fuel : Nat) (node : INode)
    (s : Search INode × Except GraphError Tarjan) (child : INode) :
    Search INode × Except GraphError Tarjan :=
  let u := search g.children Tarjan.hooks fuel s child
  (u.1.leave node child, u.2 >>= Tarjan.minLowLink node child)

variable {fuel : Nat}

theorem search_error {e : GraphError} {s : Search INode × Except GraphError Tarjan} {node : INode}
    (h : s.2 = .error e) :
    (search g.children Tarjan.hooks fuel s node).2 = .error e := by
  induction fuel generalizing s node with
  | zero => exact h
  | succ fuel ih =>
    rw [search]
    split
    · exact h
    · have hfold : ∀ (rest : List INode) (s : Search INode × Except GraphError Tarjan),
          s.2 = .error e → (rest.foldl (step g fuel node) s).2 = .error e := by
        intro rest
        induction rest with
        | nil => exact fun s hs => hs
        | cons c rest ihRest =>
          refine fun s hs => ihRest _ ?_
          show (search g.children Tarjan.hooks fuel s c).2 >>= _ = _
          rw [ih hs]
          rfl
      have hentered : (Tarjan.hooks.enter node s.2) = .error e := by
        rw [h]
        rfl
      show (List.foldl (step g fuel node) _ _).2 >>= _ = _
      rw [hfold (g.children node) _ hentered]
      rfl

/-- What the algorithm has visited is what the search has seen. -/
def InStep (s : Search INode × Except GraphError Tarjan) : Prop :=
  ∀ t, s.2 = .ok t → t.visited = s.1.seen

theorem foldlM_followNode (node : INode)
    (hcall : ∀ (s : Search INode) (t : Tarjan), ∀ child ∈ g.nodes,
      t.visited = s.seen → (unseen g.nodes s.seen).length < fuel → followNode g.graph fuel t child
            = (search g.children Tarjan.hooks fuel (s, .ok t) child).2
          ∧ InStep (search g.children Tarjan.hooks fuel (s, .ok t) child))
    {rest : List INode} (hrest : rest ⊆ g.nodes)
    (s : Search INode × Except GraphError Tarjan) (hs : InStep s)
    (hfuel : (unseen g.nodes s.1.seen).length < fuel) :
    (s.2 >>= rest.foldlM fun t child => do
        let t ← followNode g.graph fuel t child
        t.minLowLink node child)
      = (rest.foldl (step g fuel node) s).2
      ∧ InStep (rest.foldl (step g fuel node) s) := by
  induction rest generalizing s with
  | nil =>
    refine ⟨?_, hs⟩
    rcases s with ⟨s, e | t⟩ <;> rfl
  | cons c rest ih =>
    obtain ⟨hc, hrest⟩ := List.cons_subset.mp hrest
    have hle : (unseen g.nodes (step g fuel node s c).1.seen).length
        ≤ (unseen g.nodes s.1.seen).length := by
      refine length_unseen_le g.nodes ?_
      show s.1.seen <+: (search g.children Tarjan.hooks fuel s c).1.seen
      rw [search_seen]
      exact prefix_visit g.children fuel s.1.seen c
    obtain ⟨s, e | t⟩ := s
    · have hstep : (step g fuel node (s, .error e) c).2 = .error e := by
        show (search g.children Tarjan.hooks fuel _ c).2 >>= _ = _
        rw [search_error rfl]
        rfl
      have hnext := ih hrest (step g fuel node (s, .error e) c)
        (fun t ht => by rw [hstep] at ht; cases ht) (Nat.lt_of_le_of_lt hle hfuel)
      rw [hstep] at hnext
      exact hnext
    · obtain ⟨heq, hsame⟩ := hcall s t c hc (hs t rfl) hfuel
      have hnext := ih hrest (step g fuel node (s, .ok t) c)
        (fun t' ht' => by
          obtain ⟨u, hu, hmin⟩ := bind_eq_ok.mp ht'
          exact (Tarjan.minLowLink_visited hmin).trans (hsame u hu))
        (Nat.lt_of_le_of_lt hle hfuel)
      refine ⟨?_, hnext.2⟩
      rw [List.foldl_cons, ← hnext.1]
      show (followNode g.graph fuel t c >>= _) >>= _ = _
      rw [heq]
      rfl

/-- **THE ALGORITHM IS A SEARCH** with its hooks. -/
theorem followNode_eq (s : Search INode) (t : Tarjan)
    {node : INode} (hnode : node ∈ g.nodes) (hvisited : t.visited = s.seen)
    (hfuel : (unseen g.nodes s.seen).length < fuel) :
    followNode g.graph fuel t node
        = (search g.children Tarjan.hooks fuel (s, .ok t) node).2
      ∧ InStep (search g.children Tarjan.hooks fuel (s, .ok t) node) := by
  induction fuel generalizing s t node with
  | zero => omega
  | succ fuel ih =>
    rw [followNode, search, hvisited]
    by_cases hseen : node ∈ s.seen
    · rw [if_pos hseen, if_pos hseen]
      exact ⟨rfl, fun t' ht' => by cases ht'; exact hvisited⟩
    · have hlt := length_unseen_lt hnode hseen List.prefix_rfl
      have hpush : (t.push node).visited = s.seen ++ [node] := by
        rw [Tarjan.push_visited (hvisited ▸ hseen), hvisited]
      obtain ⟨heq, hsame⟩ := foldlM_followNode node
        (fun s t child hchild hvisited hfuel =>
          ih s t hchild hvisited hfuel)
        (Graph.closed_children node hnode)
        (s.enter node, .ok (t.push node))
        (fun t' ht' => by cases ht'; exact hpush)
        (Nat.lt_of_lt_of_le hlt (Nat.le_of_lt_succ hfuel))
      rw [if_neg hseen, if_neg hseen, Graph.getDirectChildConnections_ok hnode]
      refine ⟨?_, fun t' ht' => ?_⟩
      · exact congrArg (· >>= Tarjan.popComponent node) heq
      · obtain ⟨u, hu, hpop⟩ := bind_eq_ok.mp ht'
        exact (Tarjan.popComponent_visited hpop).trans (hsame u hu)

theorem foldlM_roots (hfuel : g.nodes.length < fuel) {rest : List INode} (hrest : rest ⊆ g.nodes)
    (s : Search INode × Except GraphError Tarjan) (hs : InStep s) :
    (s.2 >>= rest.foldlM (followNode g.graph fuel))
      = (searchAll g.children Tarjan.hooks fuel s rest).2 := by
  induction rest generalizing s with
  | nil => rcases s with ⟨s, e | t⟩ <;> rfl
  | cons r rest ih =>
    obtain ⟨hr, hrest⟩ := List.cons_subset.mp hrest
    obtain ⟨s, e | t⟩ := s
    · have herror : (search g.children Tarjan.hooks fuel (s, .error e) r).2
          = .error e := search_error rfl
      have hnext := ih hrest _ (fun t ht => by rw [herror] at ht; cases ht)
      rw [herror] at hnext
      exact hnext
    · obtain ⟨heq, hsame⟩ := followNode_eq s t hr (hs t rfl)
        (Nat.lt_of_le_of_lt (List.length_filter_le ..) hfuel)
      have hnext := ih hrest _ hsame
      rw [← heq] at hnext
      exact hnext

theorem nodes_lt_depth : g.nodes.length < depth g.graph := Nat.lt_succ_of_lt (Nat.lt_succ_self _)

theorem getStronglyConnectedComponents_eq :
    getStronglyConnectedComponents g.graph
      = (searchAll g.children Tarjan.hooks (depth g.graph)
          (Search.start, .ok .start) g.nodes).2.map Tarjan.stronglyConnectedComponents := by
  have hroots : g.graph.getNodes.foldlM (followNode g.graph (depth g.graph)) .start
      = (searchAll g.children Tarjan.hooks (depth g.graph) (Search.start, .ok .start) g.nodes).2 :=
    foldlM_roots nodes_lt_depth (List.Subset.refl _) (Search.start, .ok .start)
      (fun t ht => by cases ht; rfl)
  rw [getStronglyConnectedComponents, hroots]
  cases (searchAll g.children Tarjan.hooks (depth g.graph)
    (Search.start, .ok .start) g.nodes).2 <;> rfl

end

/-! ## What is popped -/

theorem mem_dropWhile_of_not {α : Type} {p : α → Bool} {l : List α} {x : α}
    (hx : x ∈ l) (hp : ¬ p x = true) : x ∈ l.dropWhile p := by
  rw [← List.takeWhile_append_dropWhile (p := p) (l := l)] at hx
  exact (List.mem_append.mp hx).resolve_left fun htake => hp (List.mem_takeWhile_imp htake)

namespace Tarjan

/-- Whether the low link value of a node is the id. -/
def hasLow (t : Tarjan) (ownId : Nat) (node : INode) : Bool :=
  t.lowLinkValues.get? node = some ownId

/-- What the stack holds on top with this low link value is a component. -/
def pop (t : Tarjan) (ownId : Nat) : Tarjan :=
  let scc := t.stack.takeWhile (t.hasLow ownId)
  { t with
    stack := t.stack.dropWhile (t.hasLow ownId)
    stronglyConnectedComponents := t.stronglyConnectedComponents
      ++ if scc.length > 0 then [scc] else [] }

theorem popWhile_eq (t : Tarjan) (ownId : Nat) {scc stack : List INode} (h : (scc ++ stack).Nodup) :
    popWhile t.lowLinkValues ownId scc stack
      = (scc ++ stack.takeWhile (t.hasLow ownId), stack.dropWhile (t.hasLow ownId)) := by
  induction stack generalizing scc with
  | nil => rw [popWhile, List.takeWhile_nil, List.dropWhile_nil, List.append_nil]
  | cons next stack ih =>
    rw [popWhile]
    by_cases hlow : t.lowLinkValues.get? next = some ownId
    · have hnew : next ∉ scc := fun hmem =>
        (List.nodup_append.mp h).2.2 next hmem next (List.mem_cons_self ..) rfl
      have hadd : addTo scc next = scc ++ [next] := if_neg hnew
      have hnodup : ((scc ++ [next]) ++ stack).Nodup := by
        rw [List.append_assoc]
        exact h
      have hown : t.hasLow ownId next = true := decide_eq_true hlow
      rw [if_pos hlow, hadd, ih hnodup, List.takeWhile_cons_of_pos hown,
        List.dropWhile_cons_of_pos hown, List.append_assoc, List.singleton_append]
    · have hown : ¬ t.hasLow ownId next = true :=
        fun h => hlow (of_decide_eq_true h)
      rw [if_neg hlow, List.takeWhile_cons_of_neg hown,
        List.dropWhile_cons_of_neg hown, List.append_nil]

theorem popComponent_eq {t : Tarjan} {node : INode} {ownId low : Nat}
    (hid : t.ids.get? node = some ownId)
    (hlow : t.lowLinkValues.get? node = some low) (h : t.stack.Nodup) :
    t.popComponent node = .ok (if t.hasLow ownId node then t.pop ownId else t) := by
  have hpop : popWhile t.lowLinkValues ownId [] t.stack = _ := popWhile_eq t ownId h
  rw [popComponent, hid, hlow]
  dsimp only
  by_cases heq : ownId = low
  · subst heq
    have hown : t.hasLow ownId node = true := decide_eq_true hlow
    rw [if_pos rfl, if_pos hown, hpop, List.nil_append, pop]
    split
    · rfl
    · rw [List.append_nil]
  · have hown : ¬ t.hasLow ownId node = true := fun h =>
      heq (Option.some.inj ((of_decide_eq_true h).symm.trans hlow))
    rw [if_neg heq, if_neg hown]

theorem flatten_pop (t : Tarjan) (ownId : Nat) : (t.pop ownId).stronglyConnectedComponents.flatten
      = t.stronglyConnectedComponents.flatten ++ t.stack.takeWhile (t.hasLow ownId) := by
  show (_ ++ if _ then [_] else []).flatten = _
  rw [List.flatten_append]
  split
  · rw [List.flatten_singleton]
  · next h =>
      rw [List.eq_nil_of_length_eq_zero (Nat.eq_zero_of_not_pos h)]
      rfl

theorem mem_pop {t : Tarjan} {ownId : Nat} {scc : List INode} :
    scc ∈ (t.pop ownId).stronglyConnectedComponents
      ↔ scc ∈ t.stronglyConnectedComponents
        ∨ (scc ≠ [] ∧ scc = t.stack.takeWhile (t.hasLow ownId)) := by
  show scc ∈ _ ++ (if _ then [_] else []) ↔ _
  rw [List.mem_append]
  refine or_congr_right ?_
  split
  · next h =>
      rw [List.mem_singleton]
      exact ⟨fun heq => ⟨heq ▸ List.length_pos_iff.mp h, heq⟩, And.right⟩
  · next h =>
      rw [List.eq_nil_of_length_eq_zero (Nat.eq_zero_of_not_pos h)]
      exact ⟨fun hmem => (by cases hmem), fun hne => absurd hne.2 hne.1⟩

theorem perm_pop (t : Tarjan) (ownId : Nat) :
    ((t.pop ownId).stack ++ (t.pop ownId).stronglyConnectedComponents.flatten).Perm
      (t.stack ++ t.stronglyConnectedComponents.flatten) := by
  have hstack : t.stack.takeWhile (t.hasLow ownId) ++ (t.pop ownId).stack
      = t.stack := List.takeWhile_append_dropWhile
  conv_rhs => rw [← hstack]
  rw [flatten_pop, ← List.append_assoc]
  refine List.perm_append_comm.trans ?_
  rw [← List.append_assoc]

end Tarjan

/-! ## What holds in any case -/

/-- Ids are the positions in the order of the visits, low link values are
    ids of nodes that can be reached, a node that was visited is on the stack
    or in a component, and what is in one component is mutually
    reachable. -/
structure Base (g : Graph) (s : Search INode) (t : Tarjan) : Prop where
  id : t.id = s.seen.length
  ids : ∀ v ∈ s.seen, t.ids.get? v = some (s.seen.idxOf v)
  low : ∀ v ∈ s.seen, ∃ w ∈ s.seen, t.lowLinkValues.get? v = some (s.seen.idxOf w)
      ∧ s.seen.idxOf w ≤ s.seen.idxOf v ∧ Reach g.children v w
  order : t.stack.Pairwise fun a b => s.seen.idxOf b < s.seen.idxOf a
  nodup : (t.stack ++ t.stronglyConnectedComponents.flatten).Nodup
  mem : ∀ v, v ∈ t.stack ++ t.stronglyConnectedComponents.flatten ↔ v ∈ s.seen
  components : ∀ scc ∈ t.stronglyConnectedComponents, scc ≠ []
    ∧ ∀ x ∈ scc, ∀ y ∈ scc, Mutual g.children x y

/-- What leaving a connection does to the low link values. -/
structure Lowered (v c : INode) (t t' : Tarjan) : Prop where
  stack : t'.stack = t.stack
  components : t'.stronglyConnectedComponents = t.stronglyConnectedComponents
  other : ∀ x, x ≠ v → t'.lowLinkValues.get? x = t.lowLinkValues.get? x
  own : ∀ lowC lowV, t.lowLinkValues.get? c = some lowC →
    t.lowLinkValues.get? v = some lowV → t'.lowLinkValues.get? v
        = some (if c ∈ t.stack then min lowC lowV else lowV)

section

variable {g : Graph} {gray : List INode} {s : Search INode} {t : Tarjan}
  {v c y : INode}

theorem base_start : Base g .start .start :=
  ⟨rfl, (by simp [Search.start]), (by simp [Search.start]), List.Pairwise.nil, List.nodup_nil,
    (by simp [Tarjan.start, Search.start]), (by simp [Tarjan.start])⟩

theorem Base.of_stack (h : Base g s t) (hy : y ∈ t.stack) : y ∈ s.seen :=
  (h.mem y).mp (List.mem_append_left _ hy)

theorem idxOf_enter_self (hv : v ∉ s.seen) : (s.enter v).seen.idxOf v = s.seen.length := by
  show (s.seen ++ [v]).idxOf v = _
  rw [List.idxOf_append_of_notMem hv, List.idxOf_cons_self, Nat.add_zero]

section

variable (h : Base g s t)
include h

theorem Base.low_push (hv : v ∉ s.seen) (x : INode) : (t.push v).lowLinkValues.get? x
      = if v = x then some ((s.enter v).seen.idxOf v)
        else t.lowLinkValues.get? x := by
  rw [idxOf_enter_self hv, ← h.id]
  exact OrderedMap.get?_set ..

theorem Base.push (hv : v ∉ s.seen) : Base g (s.enter v) (t.push v) := by
  have hkeep := fun {y} (hy : y ∈ s.seen) => (Extends.enter s v).idxOf hy
  have hne : ∀ {y}, y ∈ s.seen → v ≠ y := fun hy heq => hv (heq ▸ hy)
  refine ⟨?_, ?_, ?_, ?_, ?_, ?_, h.components⟩
  · show t.id + 1 = (s.seen ++ [v]).length
    rw [h.id, List.length_append, List.length_singleton]
  · intro x hx
    show (t.ids.set v t.id).get? x = _
    rw [OrderedMap.get?_set]
    rcases mem_enter.mp hx with hx | rfl
    · rw [if_neg (hne hx), h.ids x hx, hkeep hx]
    · rw [if_pos rfl, idxOf_enter_self hv, h.id]
  · intro x hx
    rw [h.low_push hv]
    rcases mem_enter.mp hx with hx | rfl
    · obtain ⟨w, hw, hlow, hle, hreach⟩ := h.low x hx
      refine ⟨w, mem_enter.mpr (.inl hw), ?_, ?_, hreach⟩
      · rw [if_neg (hne hx), hlow, hkeep hw]
      · rw [hkeep hw, hkeep hx]
        exact hle
    · exact ⟨x, hx, if_pos rfl, Nat.le_refl _, .refl⟩
  · refine List.pairwise_cons.mpr ⟨fun b hb => idxOf_enter (h.of_stack hb) hv, ?_⟩
    refine h.order.imp_of_mem fun {a b} ha hb hab => ?_
    rw [hkeep (h.of_stack ha), hkeep (h.of_stack hb)]
    exact hab
  · exact List.nodup_cons.mpr ⟨fun hmem => hv ((h.mem v).mp hmem), h.nodup⟩
  · intro x
    show x ∈ v :: (t.stack ++ t.stronglyConnectedComponents.flatten) ↔ _
    rw [List.mem_cons, h.mem x, mem_enter]
    exact or_comm

theorem Base.minLowLink (hv : v ∈ s.seen) (hc : c ∈ s.seen) (hvc : c ∈ g.children v) :
    ∃ t', t.minLowLink v c = .ok t' ∧ Base g (s.leave v c) t' ∧ Lowered v c t t' := by
  obtain ⟨wc, hwc, hlowC, -, hreachC⟩ := h.low c hc
  obtain ⟨wv, hwv, hlowV, hleV, hreachV⟩ := h.low v hv
  by_cases hstack : c ∈ t.stack
  · let lowest := min (s.seen.idxOf wc) (s.seen.idxOf wv)
    have hset : ∀ x, (t.lowLinkValues.set v lowest).get? x
        = if v = x then some lowest else t.lowLinkValues.get? x :=
      fun x => OrderedMap.get?_set ..
    refine ⟨{ t with lowLinkValues := t.lowLinkValues.set v lowest }, ?_, ?_,
      rfl, rfl, fun x hx => ?_, fun lowC lowV hC hV => ?_⟩
    · rw [Tarjan.minLowLink, if_pos hstack, hlowC, hlowV]
    · refine ⟨h.id, h.ids, fun x hx => ?_, h.order, h.nodup, h.mem, h.components⟩
      show ∃ w ∈ s.seen, (t.lowLinkValues.set v lowest).get? x = _ ∧ _
      rw [hset x]
      by_cases hvx : v = x
      · subst hvx
        rw [if_pos rfl]
        rcases Nat.le_total (s.seen.idxOf wc) (s.seen.idxOf wv) with hle | hle
        · exact ⟨wc, hwc, congrArg some (Nat.min_eq_left hle),
            Nat.le_trans hle hleV, .head hvc hreachC⟩
        · exact ⟨wv, hwv, congrArg some (Nat.min_eq_right hle), hleV, hreachV⟩
      · rw [if_neg hvx]
        exact h.low x hx
    · exact (hset x).trans (if_neg (Ne.symm hx))
    · cases hlowC.symm.trans hC
      cases hlowV.symm.trans hV
      rw [if_pos hstack]
      exact (hset v).trans (if_pos rfl)
  · refine ⟨t, if_neg hstack, ⟨h.id, h.ids, h.low, h.order, h.nodup, h.mem,
      h.components⟩, rfl, rfl, fun x _ => rfl, fun lowC lowV _ hV => ?_⟩
    rw [if_neg hstack]
    exact hV

theorem Base.popComponent (hv : v ∈ s.seen) :
    t.popComponent v = .ok (if t.hasLow (s.seen.idxOf v) v
      then t.pop (s.seen.idxOf v) else t) := by
  obtain ⟨w, -, hlow, -⟩ := h.low v hv
  exact Tarjan.popComponent_eq (h.ids v hv) hlow (List.nodup_append.mp h.nodup).1

theorem Base.mutual_of_hasLow (hs : Invariant g.children (v :: gray) s)
    (hy : y ∈ s.seen) (hlow : t.hasLow (s.seen.idxOf v) y) : Mutual g.children v y := by
  have hgray : v ∈ v :: gray := List.mem_cons_self ..
  obtain ⟨w, hw, hget, hle, hreach⟩ := h.low y hy
  have hidx := Option.some.inj (hget.symm.trans (of_decide_eq_true hlow))
  rw [hidx] at hle
  rw [eq_of_idxOf hw hidx] at hreach
  exact ⟨hs.reached v hgray y hy hle, hreach⟩

theorem Base.pop (hs : Invariant g.children (v :: gray) s) : Base g s (t.pop (s.seen.idxOf v)) := by
  have hperm := t.perm_pop (s.seen.idxOf v)
  refine ⟨h.id, h.ids, h.low,
    h.order.sublist (List.dropWhile_sublist _), hperm.nodup_iff.mpr h.nodup,
    fun x => hperm.mem_iff.trans (h.mem x), fun scc hscc => ?_⟩
  rcases Tarjan.mem_pop.mp hscc with hscc | ⟨hne, rfl⟩
  · exact h.components scc hscc
  · have hclass : ∀ x ∈ t.stack.takeWhile (t.hasLow (s.seen.idxOf v)),
        Mutual g.children v x := fun x hx =>
      h.mutual_of_hasLow hs (h.of_stack ((List.takeWhile_sublist _).subset hx))
        (List.mem_takeWhile_imp hx)
    exact ⟨hne, fun x hx y hy => (hclass x hx).symm.trans (hclass y hy)⟩

end

end

end N8nStrongComponents
