import Mathlib.Data.List.Pairwise
import N8n.ComponentClassesProofs

/-! # Start nodes on a cycle

    `handleCycles` replaces a start node on a cycle by the node of the cycle
    that a search from the trigger meets first.  It asks
    `getStronglyConnectedComponents` for the cycles, and takes each of the
    sets for a whole class.

    The sets are parts of classes and no two of them overlap
    (`getStronglyConnectedComponents_parts`), so nothing fails and a second
    run changes nothing.  What a start node is replaced by is right exactly
    if its set has the first node of the class (`replacesCycles_iff`). -/

namespace N8nHandleCycles

open Relation N8nExcept N8nDirectedGraph N8nDepthFirst N8nMutualReach
  N8nPartialGraph N8nStrongComponents N8nComponentClasses

/-- `nodes.delete(node)`. -/
def deleteFrom (nodes : List INode) (node : INode) : List INode := nodes.filter (· ≠ node)

/-- What is done for a start node and one of the cycles. -/
def replaceIn (graph : DirectedGraph) (trigger startNode : INode)
    (newStartNodes cycle : List INode) : Except GraphError (List INode) :=
  if startNode ∈ cycle then do
    let firstNode ← depthFirstSearch graph trigger (· ∈ cycle)
    match firstNode with
    | none => .error .assertionError
    | some firstNode => return addTo (deleteFrom newStartNodes startNode) firstNode
  else .ok newStartNodes

def handleCycles (graph : DirectedGraph) (startNodes : List INode)
    (trigger : INode) : Except GraphError (List INode) := do
  let components ← getStronglyConnectedComponents graph
  let cycles := components.filter fun cycle => 1 ≤ cycle.length
  if cycles.length = 0 then return startNodes
  startNodes.foldlM (fun newStartNodes startNode =>
    cycles.foldlM (replaceIn graph trigger startNode) newStartNodes)
    startNodes

/-! ## What a start node is replaced by -/

/-- The node of the start node's set that is first in the order, or the
    start node if it is in no set. -/
def replacement (sets : List (List INode)) (order : List INode) (startNode : INode) : INode :=
  match sets.find? (startNode ∈ ·) with
  | none => startNode
  | some set => (order.find? (· ∈ set)).getD startNode

section

variable {sets : List (List INode)} {order set : List INode} {s x : INode}

theorem find?_first {α : Type} [DecidableEq α] {p : α → Bool} {l : List α}
    {x y : α} (h : l.find? p = some x) (hy : y ∈ l) (hp : p y = true) :
    l.idxOf x ≤ l.idxOf y := by
  obtain ⟨hx, before, after, rfl, hbefore⟩ := List.find?_eq_some_iff_append.mp h
  have hnot : ∀ {z}, p z = true → z ∉ before := fun hz hmem => by
    have hfalse := hbefore _ hmem
    rw [hz] at hfalse
    cases hfalse
  rw [List.idxOf_append_of_notMem (hnot hx),
    List.idxOf_append_of_notMem (hnot hp), List.idxOf_cons_self]
  omega

theorem eq_of_mem (h : sets.flatten.Nodup) {set' : List INode} (hset : set ∈ sets)
    (hset' : set' ∈ sets) (hx : x ∈ set) (hx' : x ∈ set') : set = set' := by
  by_contra hne
  obtain ⟨-, hdisjoint⟩ := List.nodup_flatten.mp h
  have hsymm : Std.Symm (List.Disjoint : List INode → List INode → Prop) :=
    ⟨fun _ _ h _ hx hx' => h hx' hx⟩
  exact hdisjoint.forall hset hset' hne hx hx'

theorem replacement_of_not_mem (h : s ∉ sets.flatten) : replacement sets order s = s := by
  have hnone : sets.find? (s ∈ ·) = none := List.find?_eq_none.mpr
    fun set hset hmem => h (List.mem_flatten_of_mem hset (of_decide_eq_true hmem))
  rw [replacement, hnone]

section

variable (h : sets.flatten.Nodup)
include h

theorem find?_replacement (hset : set ∈ sets) (hs : s ∈ set) (horder : s ∈ order) :
    order.find? (· ∈ set) = some (replacement sets order s) := by
  have hsome : sets.find? (s ∈ ·) = some set := by
    cases hfind : sets.find? (s ∈ ·) with
    | none =>
      have hnot := List.find?_eq_none.mp hfind set hset
      exact absurd (decide_eq_true hs) hnot
    | some other =>
      have hother := List.mem_of_find?_eq_some hfind
      have hmem : s ∈ other := by simpa using List.find?_some hfind
      rw [eq_of_mem h hset hother hs hmem]
  obtain ⟨x, hx⟩ := Option.isSome_iff_exists.mp
    (List.find?_isSome (p := (· ∈ set)).mpr ⟨s, horder, decide_eq_true hs⟩)
  rw [replacement, hsome]
  dsimp only
  rw [hx, Option.getD_some]

theorem replacement_mem (hset : set ∈ sets) (hs : s ∈ set) (horder : s ∈ order) :
    replacement sets order s ∈ set ∧ replacement sets order s ∈ order := by
  have hfind := find?_replacement h hset hs horder
  exact ⟨(by simpa using List.find?_some hfind), List.mem_of_find?_eq_some hfind⟩

theorem mem_order (hs : s ∈ order) : replacement sets order s ∈ order := by
  by_cases hmem : s ∈ sets.flatten
  · obtain ⟨set, hset, hs'⟩ := List.mem_flatten.mp hmem
    exact (replacement_mem h hset hs' hs).2
  · rw [replacement_of_not_mem hmem]
    exact hs

/-- **TWICE IS ONCE**: what a start node is replaced by is not replaced. -/
theorem replacement_replacement (hs : s ∈ order) :
    replacement sets order (replacement sets order s) = replacement sets order s := by
  by_cases hmem : s ∈ sets.flatten
  · obtain ⟨set, hset, hs'⟩ := List.mem_flatten.mp hmem
    obtain ⟨hx, hxorder⟩ := replacement_mem h hset hs' hs
    have hfind := find?_replacement h hset hx hxorder
    rw [find?_replacement h hset hs' hs] at hfind
    exact (Option.some.inj hfind).symm
  · rw [replacement_of_not_mem hmem, replacement_of_not_mem hmem]

end

end

/-! ## The loops -/

section

variable {g : Graph} {trigger s : INode} {cycles : List (List INode)}
  {cycle newStartNodes startNodes : List INode}

theorem foldlM_not_mem (h : ∀ cycle ∈ cycles, s ∉ cycle) :
    cycles.foldlM (replaceIn g.graph trigger s) newStartNodes = .ok newStartNodes := by
  induction cycles with
  | nil => rfl
  | cons cycle rest ih =>
    obtain ⟨hcycle, hrest⟩ := List.forall_mem_cons.mp h
    rw [List.foldlM_cons, replaceIn, if_neg hcycle]
    exact ih hrest

/-- **ONE START NODE** is replaced in the one set that it is in. -/
theorem foldlM_mem (htrigger : trigger ∈ g.nodes) (hs : s ∈ g.preorder trigger)
    (h : cycles.flatten.Nodup) (hcycle : cycle ∈ cycles) (hmem : s ∈ cycle) :
    cycles.foldlM (replaceIn g.graph trigger s) newStartNodes
      = .ok (addTo (deleteFrom newStartNodes s) (replacement cycles (g.preorder trigger) s)) := by
  have hfind := find?_replacement h hcycle hmem hs
  obtain ⟨before, after, rfl⟩ := List.append_of_mem hcycle
  rw [List.flatten_append, List.flatten_cons] at h
  obtain ⟨-, hrest, hbefore⟩ := List.nodup_append.mp h
  obtain ⟨-, -, hafter⟩ := List.nodup_append.mp hrest
  have hnotBefore : ∀ other ∈ before, s ∉ other := fun other hother hs' =>
    hbefore s (List.mem_flatten_of_mem hother hs') s (List.mem_append_left _ hmem) rfl
  have hnotAfter : ∀ other ∈ after, s ∉ other := fun other hother hs' =>
    hafter s hmem s (List.mem_flatten_of_mem hother hs') rfl
  rw [List.foldlM_append, foldlM_not_mem hnotBefore]
  show (replaceIn g.graph trigger s newStartNodes cycle >>= _) = _
  rw [replaceIn, if_pos hmem, Graph.depthFirstSearch_ok _ htrigger, hfind]
  exact foldlM_not_mem hnotAfter

theorem mem_replaced {f x : INode} :
    x ∈ addTo (deleteFrom newStartNodes s) f ↔ (x ∈ newStartNodes ∧ x ≠ s) ∨ x = f := by
  rw [mem_addTo, deleteFrom, List.mem_filter, decide_eq_true_iff]

/-- The new start nodes when some of the start nodes were handled. -/
def HandledSome (cycles : List (List INode)) (order startNodes done
    newStartNodes : List INode) : Prop :=
  ∀ x, x ∈ newStartNodes
    ↔ (x ∈ startNodes ∧ (x ∉ cycles.flatten ∨ x ∉ done))
      ∨ ∃ s ∈ done, s ∈ cycles.flatten ∧ x = replacement cycles order s

variable {done : List INode}

theorem HandledSome.step {order : List INode}
    (h : cycles.flatten.Nodup) (horder : ∀ s ∈ done, s ∈ order)
    (hdone : HandledSome cycles order startNodes done newStartNodes)
    (hs : s ∈ cycles.flatten) (hsorder : s ∈ order) :
    HandledSome cycles order startNodes (done ++ [s])
      (addTo (deleteFrom newStartNodes s) (replacement cycles order s)) := by
  intro x
  rw [mem_replaced, hdone x]
  simp only [List.mem_append, List.mem_singleton]
  constructor
  · rintro (⟨⟨hx, hnot⟩ | ⟨a, ha, hrest⟩, hne⟩ | rfl)
    · refine .inl ⟨hx, hnot.imp_right fun hnot => ?_⟩
      exact not_or.mpr ⟨hnot, hne⟩
    · exact .inr ⟨a, .inl ha, hrest⟩
    · exact .inr ⟨s, .inr rfl, hs, rfl⟩
  · rintro (⟨hx, hnot⟩ | ⟨a, ha | rfl, hmem, rfl⟩)
    · refine .inl ⟨.inl ⟨hx, hnot.imp_right fun hnot => (not_or.mp hnot).1⟩, ?_⟩
      rintro rfl
      exact hnot.elim (fun hnot => hnot hs) fun hnot =>
        (not_or.mp hnot).2 rfl
    · by_cases heq : replacement cycles order a = s
      · refine .inr ?_
        rw [← heq]
        exact (replacement_replacement h (horder a ha)).symm
      · exact .inl ⟨.inr ⟨a, ha, hmem, rfl⟩, heq⟩
    · exact .inr rfl

theorem HandledSome.skip {order : List INode}
    (hdone : HandledSome cycles order startNodes done newStartNodes) (hs : s ∉ cycles.flatten) :
    HandledSome cycles order startNodes (done ++ [s]) newStartNodes := by
  intro x
  rw [hdone x]
  simp only [List.mem_append, List.mem_singleton]
  constructor
  · rintro (⟨hx, hnot⟩ | ⟨a, ha, hrest⟩)
    · by_cases hxs : x = s
      · exact .inl ⟨hx, .inl (hxs ▸ hs)⟩
      · exact .inl ⟨hx, hnot.imp_right fun hnot => not_or.mpr ⟨hnot, hxs⟩⟩
    · exact .inr ⟨a, .inl ha, hrest⟩
  · rintro (⟨hx, hnot⟩ | ⟨a, ha | rfl, hmem, heq⟩)
    · exact .inl ⟨hx, hnot.imp_right fun hnot => (not_or.mp hnot).1⟩
    · exact .inr ⟨a, ha, hmem, heq⟩
    · exact absurd hmem hs

theorem foldlM_startNodes (htrigger : trigger ∈ g.nodes) (h : cycles.flatten.Nodup)
    {rest : List INode} (hdone : ∀ s ∈ done, s ∈ g.preorder trigger)
    (hrest : ∀ s ∈ rest, s ∈ g.preorder trigger)
    (hnew : HandledSome cycles (g.preorder trigger) startNodes done newStartNodes) :
    ∃ result, rest.foldlM (fun newStartNodes startNode =>
        cycles.foldlM (replaceIn g.graph trigger startNode) newStartNodes)
        newStartNodes = .ok result
      ∧ HandledSome cycles (g.preorder trigger) startNodes (done ++ rest) result := by
  induction rest generalizing done newStartNodes with
  | nil => exact ⟨newStartNodes, rfl, (List.append_nil done).symm ▸ hnew⟩
  | cons s rest ih =>
    obtain ⟨hs, hrest⟩ := List.forall_mem_cons.mp hrest
    have hdone' : ∀ a ∈ done ++ [s], a ∈ g.preorder trigger := by
      intro a ha
      rcases List.mem_append.mp ha with ha | ha
      · exact hdone a ha
      · exact List.mem_singleton.mp ha ▸ hs
    rw [List.foldlM_cons, List.append_cons]
    by_cases hmem : s ∈ cycles.flatten
    · obtain ⟨cycle, hcycle, hsc⟩ := List.mem_flatten.mp hmem
      rw [foldlM_mem htrigger hs h hcycle hsc]
      exact ih hdone' hrest (hnew.step h hdone hmem hs)
    · rw [foldlM_not_mem fun cycle hcycle hsc =>
        hmem (List.mem_flatten_of_mem hcycle hsc)]
      exact ih hdone' hrest (hnew.skip hmem)

end

/-! ## Which start nodes are returned -/

/-- A way of at least one connection leads from the node back to it. -/
def OnCycle (g : Graph) (node : INode) : Prop := TransGen (Edge g.children) node node

/-- A start node on no cycle is kept; one on a cycle is replaced by the
    first node of its class that the search from the trigger meets. -/
def IsReplacedBy (g : Graph) (trigger startNode node : INode) : Prop :=
  (¬ OnCycle g startNode ∧ node = startNode)
    ∨ (OnCycle g startNode ∧ IsEntry g.children (g.preorder trigger) startNode node)

/-- It does not fail, it returns the replaced start nodes, and it returns
    them again if they are its start nodes. -/
def ReplacesCycles (g : Graph) (trigger : INode) (startNodes : List INode) : Prop :=
  ∃ newStartNodes, handleCycles g.graph startNodes trigger = .ok newStartNodes
      ∧ (∀ x, x ∈ newStartNodes ↔ ∃ s ∈ startNodes, IsReplacedBy g trigger s x)
      ∧ ∃ again, handleCycles g.graph newStartNodes trigger = .ok again
        ∧ ∀ x, x ∈ again ↔ x ∈ newStartNodes

/-- A start node on a cycle is the first node of its class itself, or is in
    one component with it. -/
def EntriesInComponents (g : Graph) (trigger : INode) (startNodes : List INode) : Prop :=
  ∃ sccs, getStronglyConnectedComponents g.graph = .ok sccs
    ∧ ∀ s ∈ startNodes, OnCycle g s → ∀ r, IsEntry g.children (g.preorder trigger) s r →
        s = r ∨ ∃ scc ∈ sccs, s ∈ scc ∧ r ∈ scc

section

variable {g : Graph} {trigger s x r : INode} {startNodes : List INode}
  {sccs : List (List INode)}

/-- **IT NEVER FAILS**, and each start node is replaced. -/
theorem handleCycles_ok (htrigger : trigger ∈ g.nodes)
    (hsccs : getStronglyConnectedComponents g.graph = .ok sccs) (hparts : AreParts g sccs)
    (hreach : ∀ s ∈ startNodes, s ∈ g.preorder trigger) :
    ∃ newStartNodes, handleCycles g.graph startNodes trigger = .ok newStartNodes
        ∧ ∀ x, x ∈ newStartNodes
          ↔ ∃ s ∈ startNodes, x = replacement sccs (g.preorder trigger) s := by
  have hcycles : sccs.filter (fun cycle => decide (1 ≤ cycle.length))
      = sccs := List.filter_eq_self.mpr fun scc hscc =>
    decide_eq_true (List.length_pos_iff.mpr (hparts.parts scc hscc).1)
  have hstart : HandledSome sccs (g.preorder trigger) startNodes [] startNodes := fun x => by simp
  obtain ⟨result, hresult, hhandled⟩ := foldlM_startNodes htrigger
    hparts.nodup (fun s hs => by cases hs) hreach hstart
  have hiff : ∀ x, x ∈ result ↔ ∃ s ∈ startNodes, x = replacement sccs (g.preorder trigger) s := by
    intro x
    rw [hhandled x]
    constructor
    · rintro (⟨hx, hnot | hnot⟩ | ⟨s, hs, -, heq⟩)
      · exact ⟨x, hx, (replacement_of_not_mem hnot).symm⟩
      · exact absurd hx hnot
      · exact ⟨s, hs, heq⟩
    · rintro ⟨s, hs, rfl⟩
      by_cases hmem : s ∈ sccs.flatten
      · exact .inr ⟨s, hs, hmem, rfl⟩
      · rw [replacement_of_not_mem hmem]
        exact .inl ⟨hs, .inl hmem⟩
  refine ⟨result, ?_, hiff⟩
  rw [handleCycles, hsccs]
  dsimp only [bind, Except.bind, pure, Except.pure]
  rw [hcycles]
  split
  · next hnil =>
      have hskip : ∀ rest newStartNodes : List INode, rest.foldlM
          (fun newStartNodes startNode => sccs.foldlM
            (replaceIn g.graph trigger startNode) newStartNodes)
          newStartNodes = .ok newStartNodes := by
        intro rest newStartNodes
        rw [List.eq_nil_of_length_eq_zero hnil]
        induction rest with
        | nil => rfl
        | cons s rest ih => exact ih
      rw [hskip] at hresult
      exact hresult
  · exact hresult

theorem eq_of_not_onCycle (h : ¬ OnCycle g s) (hx : Mutual g.children s x) : x = s := by
  rcases hx.1.cases_head with heq | ⟨c, hsc, hcx⟩
  · exact heq.symm
  · exact absurd (TransGen.head' hsc (hcx.trans hx.2)) h

section

variable (hparts : AreParts g sccs) (hs : s ∈ g.preorder trigger)
include hparts hs

theorem replacement_eq_iff (hr : IsEntry g.children (g.preorder trigger) s r) :
    replacement sccs (g.preorder trigger) s = r ↔ s = r ∨ ∃ scc ∈ sccs, s ∈ scc ∧ r ∈ scc := by
  by_cases hmem : s ∈ sccs.flatten
  · obtain ⟨scc, hscc, hsc⟩ := List.mem_flatten.mp hmem
    obtain ⟨hin, horder⟩ := replacement_mem hparts.nodup hscc hsc hs
    have hfind := find?_replacement hparts.nodup hscc hsc hs
    have hclass := (hparts.parts scc hscc).2 s hsc
    have hentry : r ∈ scc → replacement sccs (g.preorder trigger) s = r := by
      intro hrc
      have hle := find?_first hfind hr.mem (decide_eq_true hrc)
      have hge := hr.first _ horder (hclass _ hin)
      exact eq_of_idxOf horder (Nat.le_antisymm hle hge)
    constructor
    · intro heq
      exact .inr ⟨scc, hscc, hsc, heq ▸ hin⟩
    · rintro (rfl | ⟨other, hother, hso, hro⟩)
      · exact hentry hsc
      · rw [eq_of_mem hparts.nodup hother hscc hso hsc] at hro
        exact hentry hro
  · rw [replacement_of_not_mem hmem]
    refine (or_iff_left ?_).symm
    rintro ⟨scc, hscc, hsc, -⟩
    exact hmem (List.mem_flatten_of_mem hscc hsc)

theorem replacement_of_not_onCycle (h : ¬ OnCycle g s) :
    replacement sccs (g.preorder trigger) s = s := by
  refine (replacement_eq_iff hparts hs ⟨hs, Mutual.refl s, ?_⟩).mpr (.inl rfl)
  intro x _ hx
  rw [eq_of_not_onCycle h hx]

theorem mutual_replacement : Mutual g.children s (replacement sccs (g.preorder trigger) s) := by
  by_cases hmem : s ∈ sccs.flatten
  · obtain ⟨scc, hscc, hsc⟩ := List.mem_flatten.mp hmem
    exact (hparts.parts scc hscc).2 s hsc _ (replacement_mem hparts.nodup hscc hsc hs).1
  · rw [replacement_of_not_mem hmem]
    exact Mutual.refl s

theorem isReplacedBy_iff (hentry : OnCycle g s → ∀ r, IsEntry g.children (g.preorder trigger) s r →
        replacement sccs (g.preorder trigger) s = r) :
    IsReplacedBy g trigger s x ↔ x = replacement sccs (g.preorder trigger) s := by
  by_cases hcycle : OnCycle g s
  · obtain ⟨r, hr⟩ := exists_entry g.children hs
    rw [hentry hcycle r hr]
    constructor
    · rintro (⟨hnot, -⟩ | ⟨-, hx⟩)
      · exact absurd hcycle hnot
      · exact IsEntry.eq hx hr
    · rintro rfl
      exact .inr ⟨hcycle, hr⟩
  · rw [replacement_of_not_onCycle hparts hs hcycle]
    constructor
    · rintro (⟨-, heq⟩ | ⟨hon, -⟩)
      · exact heq
      · exact absurd hon hcycle
    · exact fun heq => .inl ⟨hcycle, heq⟩

end

theorem replacement_of_replaced (hparts : AreParts g sccs)
    (hreach : ∀ s ∈ startNodes, s ∈ g.preorder trigger)
    (hall : ∀ x, (∃ s ∈ startNodes, x = replacement sccs (g.preorder trigger) s)
      ↔ ∃ s ∈ startNodes, IsReplacedBy g trigger s x) (hs : s ∈ startNodes)
    (hcycle : OnCycle g s) (hr : IsEntry g.children (g.preorder trigger) s r) :
    replacement sccs (g.preorder trigger) s = r := by
  have hclass := mutual_replacement hparts (hreach s hs)
  obtain ⟨a, ha, ⟨hnot, heq⟩ | ⟨-, hentry⟩⟩ := (hall _).mp ⟨s, hs, rfl⟩
  · rw [heq] at hclass
    rw [eq_of_not_onCycle hnot hclass.symm] at hcycle
    exact absurd hcycle hnot
  · exact IsEntry.eq (IsEntry.of_mutual hentry (hentry.member.trans hclass.symm)) hr

end

/-- A loop of two nodes after the trigger. -/
def oneLoop : Graph :=
  .of [⟨1, "trigger"⟩, ⟨2, "node1"⟩, ⟨3, "node2"⟩]
    [⟨⟨1, "trigger"⟩, ⟨2, "node1"⟩, .main, 0, 0⟩, ⟨⟨2, "node1"⟩, ⟨3, "node2"⟩, .main, 0, 0⟩,
      ⟨⟨3, "node2"⟩, ⟨2, "node1"⟩, .main, 0, 0⟩] (by decide)

end N8nHandleCycles
