import N8n.PartialGraphProofs

/-! # Cleaning run data — what is stale after a node changes

    `cleanRunData` deletes the run data of the nodes to clean, of all that
    follows them, and of the sub-nodes of these.  It looks for sub-nodes
    among all parent connections, and skips the Main ones; but the parents
    beyond a Main connection are among them as well.

    So the sub-nodes of a node upstream lose their run data, too, and the
    result is right exactly if no such sub-node has any
    (`cleansStale_iff`). -/

namespace N8nCleanRunData

open Relation N8nExcept N8nOrderedMap N8nDirectedGraph N8nDepthFirst
  N8nPartialGraph
open N8nWorkflow (NodeConnectionType)

variable {V : Type}

abbrev IRunData (V : Type) := OrderedMap String V

/-- The run data of the sub nodes is deleted; Main connections go
    upstream. -/
def deleteSubNodes (newRunData : IRunData V)
    (subNodeConnections : List GraphConnection) : IRunData V :=
  subNodeConnections.foldl (fun newRunData subNodeConnection =>
    if subNodeConnection.type = .main then newRunData
    else newRunData.delete subNodeConnection.fromNode.name) newRunData

def cleanNode (graph : DirectedGraph) (newRunData : IRunData V)
    (node : INode) : Except GraphError (IRunData V) := do
  let subNodeConnections ← getParentConnections graph node
  return deleteSubNodes (newRunData.delete node.name) subNodeConnections

def cleanFrom (graph : DirectedGraph) (newRunData : IRunData V)
    (nodeToClean : INode) : Except GraphError (IRunData V) := do
  let children ← getChildren graph nodeToClean
  (nodeToClean :: children).foldlM (cleanNode graph) (newRunData.delete nodeToClean.name)

def deleteOthers (graph : DirectedGraph) (newRunData : IRunData V) : IRunData V :=
  newRunData.keys.foldl (fun newRunData nodeName =>
    if graph.nodes.has nodeName then newRunData
    else newRunData.delete nodeName) newRunData

def cleanRunData (runData : IRunData V) (graph : DirectedGraph)
    (nodesToClean : List INode) : Except GraphError (IRunData V) := do
  let newRunData ← nodesToClean.foldlM (cleanFrom graph) runData
  return deleteOthers graph newRunData

/-! ## What is gone -/

/-- The data of these names is gone, all other data is as it was. -/
def Without (runData newRunData : IRunData V) (gone : String → Prop) : Prop :=
  ∀ name, (gone name → newRunData.get? name = none)
    ∧ (¬ gone name → newRunData.get? name = runData.get? name)

section

variable {runData newRunData : IRunData V} {gone gone' : String → Prop}
  {α : Type} {goes : α → String → Prop}

theorem Without.refl (runData : IRunData V) : Without runData runData fun _ => False :=
  fun _ => ⟨False.elim, fun _ => rfl⟩

section

variable (h : Without runData newRunData gone)
include h

theorem Without.congr (hsame : ∀ name, gone name ↔ gone' name) : Without runData newRunData gone' :=
  fun name => ⟨fun hgone => (h name).1 ((hsame name).mpr hgone),
    fun hkept => (h name).2 (mt (hsame name).mp hkept)⟩

theorem Without.congr_has (hsame : ∀ name, runData.has name → (gone name ↔ gone' name)) :
    Without runData newRunData gone' := by
  intro name
  obtain ⟨hgone, hkept⟩ := h name
  cases hdata : runData.get? name with
  | none =>
    have hnone : newRunData.get? name = none := by
      by_cases hname : gone name
      · exact hgone hname
      · rw [hkept hname, hdata]
    exact ⟨fun _ => hnone, fun _ => hnone⟩
  | some data =>
    have hsame := hsame name (by rw [OrderedMap.has, hdata]; rfl)
    exact ⟨fun hname => hgone (hsame.mpr hname), fun hname => hdata ▸ hkept (mt hsame.mp hname)⟩

theorem Without.delete (k : String) :
    Without runData (newRunData.delete k) fun name =>
      gone name ∨ name = k := by
  intro name
  rw [OrderedMap.get?_delete]
  by_cases hk : name = k
  · rw [if_pos hk]
    exact ⟨fun _ => rfl, fun hnot => absurd (.inr hk) hnot⟩
  · rw [if_neg hk]
    exact ⟨fun hgone => (h name).1 (hgone.resolve_right hk),
      fun hnot => (h name).2 fun hgone => hnot (.inl hgone)⟩

end

theorem Without.foldl {step : IRunData V → α → IRunData V} {l : List α}
    (hstep : ∀ a newRunData gone, Without runData newRunData gone →
      Without runData (step newRunData a) fun name => gone name ∨ goes a name)
    (h : Without runData newRunData gone) :
    Without runData (l.foldl step newRunData) fun name =>
      gone name ∨ ∃ a ∈ l, goes a name := by
  induction l generalizing newRunData gone with
  | nil => exact h.congr fun name => by simp
  | cons a rest ih =>
    refine (ih (hstep a _ _ h)).congr fun name => ?_
    simp [or_assoc]

theorem Without.foldlM {step : IRunData V → α → Except GraphError (IRunData V)} {l : List α}
    (hstep : ∀ a ∈ l, ∀ newRunData gone, Without runData newRunData gone →
      ∃ next, step newRunData a = .ok next
        ∧ Without runData next fun name => gone name ∨ goes a name)
    (h : Without runData newRunData gone) :
    ∃ result, l.foldlM step newRunData = .ok result
      ∧ Without runData result fun name =>
        gone name ∨ ∃ a ∈ l, goes a name := by
  induction l generalizing newRunData gone with
  | nil => exact ⟨newRunData, rfl, h.congr fun name => by simp⟩
  | cons a rest ih =>
    obtain ⟨hfirst, hrest⟩ := List.forall_mem_cons.mp hstep
    obtain ⟨next, hnext, hwithout⟩ := hfirst _ _ h
    obtain ⟨result, hresult, hwithout'⟩ := ih hrest hwithout
    refine ⟨result, ?_, hwithout'.congr fun name => ?_⟩
    · rw [List.foldlM_cons, hnext]
      exact hresult
    · simp [or_assoc]

end

/-! ## What the function deletes -/

section

variable {g : Graph} {runData newRunData : IRunData V}
  {gone : String → Prop} {node : INode}

/-- The node itself, and what has another than a Main connection to a node
    that leads to it. -/
def GoesWith (g : Graph) (node : INode) (name : String) : Prop :=
  name = node.name ∨ ∃ c ∈ g.connections, c.type ≠ .main
    ∧ Reach g.children c.toNode node ∧ name = c.fromNode.name

theorem Without.deleteSubNodes (h : Without runData newRunData gone)
    (subNodeConnections : List GraphConnection) :
    Without runData (deleteSubNodes newRunData subNodeConnections)
      fun name => gone name ∨ ∃ c ∈ subNodeConnections,
        c.type ≠ .main ∧ name = c.fromNode.name := by
  refine Without.foldl (fun c newRunData gone h => ?_) h
  by_cases hmain : c.type = .main
  · rw [if_pos hmain]
    exact h.congr fun name => by simp [hmain]
  · rw [if_neg hmain]
    exact (h.delete _).congr fun name => by simp [hmain]

section

variable (hnode : node ∈ g.nodes) (h : Without runData newRunData gone)
include hnode h

theorem cleanNode_without :
    ∃ next, cleanNode g.graph newRunData node = .ok next
      ∧ Without runData next fun name => gone name ∨ GoesWith g node name := by
  obtain ⟨connections, hconnections, hmem⟩ := Graph.getParentConnections_ok hnode
  refine ⟨deleteSubNodes (newRunData.delete node.name) connections, ?_,
    ((h.delete node.name).deleteSubNodes connections).congr fun name => ?_⟩
  · rw [cleanNode, hconnections]
    rfl
  · rw [or_assoc, GoesWith]
    refine or_congr_right (or_congr_right ?_)
    simp [hmem, and_assoc, and_left_comm]

theorem cleanFrom_without :
    ∃ next, cleanFrom g.graph newRunData node = .ok next
      ∧ Without runData next fun name => gone name
        ∨ ∃ n, Reach g.children node n ∧ GoesWith g n name := by
  obtain ⟨children, hchildren, hmem⟩ := Graph.getChildren_ok hnode
  have hreach : ∀ n, n ∈ node :: children ↔ Reach g.children node n := by
    intro n
    rw [List.mem_cons, hmem]
    exact reflTransGen_iff_eq_or_transGen.symm
  have hclean : ∀ n ∈ node :: children, ∀ newRunData gone,
      Without runData newRunData gone → ∃ next, cleanNode g.graph newRunData n = .ok next
          ∧ Without runData next fun name =>
            gone name ∨ GoesWith g n name := by
    intro n hn newRunData gone h
    exact cleanNode_without (Graph.closed_children.mem_of_reach hnode ((hreach n).mp hn)) h
  obtain ⟨next, hnext, hwithout⟩ := Without.foldlM hclean (h.delete node.name)
  refine ⟨next, ?_, hwithout.congr fun name => ?_⟩
  · rw [cleanFrom, hchildren]
    exact hnext
  · simp only [hreach]
    rw [or_assoc]
    refine or_congr_right (or_iff_right_of_imp ?_)
    exact fun heq => ⟨node, .refl, .inl heq⟩

end

theorem has_iff_mem {name : String} :
    g.graph.nodes.has name = true ↔ ∃ node ∈ g.nodes, node.name = name := by
  rw [OrderedMap.has, Option.isSome_iff_exists]
  constructor
  · rintro ⟨node, hnode⟩
    have hname := g.keyed.nodes name node hnode
    exact ⟨node, g.keyed.mem_getNodes.mpr (hname.symm ▸ hnode), hname⟩
  · rintro ⟨node, hnode, rfl⟩
    exact ⟨node, g.keyed.mem_getNodes.mp hnode⟩

theorem deleteOthers_without (h : Without runData newRunData gone) :
    Without runData (deleteOthers g.graph newRunData) fun name =>
      gone name ∨ ¬ ∃ node ∈ g.nodes, node.name = name := by
  have hdelete : Without newRunData (deleteOthers g.graph newRunData)
      fun name => False ∨ ∃ a ∈ newRunData.keys, g.graph.nodes.has a = false ∧ name = a := by
    refine Without.foldl (fun a next gone h => ?_) (Without.refl newRunData)
    cases hhas : g.graph.nodes.has a with
    | true => exact h.congr fun name => by simp
    | false => exact (h.delete a).congr fun name => by simp
  have hothers : Without runData (deleteOthers g.graph newRunData)
      fun name => gone name ∨ g.graph.nodes.has name = false := by
    intro name
    obtain ⟨hgone, hkept⟩ := hdelete name
    by_cases hdeleted : name ∈ newRunData.keys ∧ g.graph.nodes.has name = false
    · obtain ⟨hkey, hhas⟩ := hdeleted
      exact ⟨fun _ => hgone (.inr ⟨name, hkey, hhas, rfl⟩), fun hnot => absurd (.inr hhas) hnot⟩
    · rw [hkept (by
        rintro (hfalse | ⟨a, ha, hhas, rfl⟩)
        · exact hfalse
        · exact hdeleted ⟨ha, hhas⟩)]
      refine ⟨?_, fun hnot => (h name).2 fun hname => hnot (.inl hname)⟩
      rintro (hname | hhas)
      · exact (h name).1 hname
      · exact OrderedMap.get?_eq_none.mpr fun hkey => hdeleted ⟨hkey, hhas⟩
  exact hothers.congr fun name => by rw [← has_iff_mem, Bool.not_eq_true]

/-- **WHAT GOES**: a node that follows a cleaned one, the sub-nodes of all
    nodes that lead to it, and what is not in the graph. -/
theorem cleanRunData_without {nodesToClean : List INode}
    (hnodes : nodesToClean ⊆ g.nodes) (runData : IRunData V) :
    ∃ newRunData, cleanRunData runData g.graph nodesToClean = .ok newRunData
      ∧ Without runData newRunData fun name =>
        (∃ node ∈ nodesToClean, ∃ n, Reach g.children node n ∧ GoesWith g n name)
        ∨ ¬ ∃ node ∈ g.nodes, node.name = name := by
  have hclean : ∀ node ∈ nodesToClean, ∀ newRunData gone, Without runData newRunData gone →
        ∃ next, cleanFrom g.graph newRunData node = .ok next
          ∧ Without runData next fun name => gone name
            ∨ ∃ n, Reach g.children node n ∧ GoesWith g n name :=
    fun node hnode _ _ h => cleanFrom_without (hnodes hnode) h
  obtain ⟨next, hnext, hwithout⟩ := Without.foldlM hclean (Without.refl runData)
  refine ⟨deleteOthers g.graph next, ?_,
    (deleteOthers_without hwithout).congr fun name => by rw [false_or]⟩
  rw [cleanRunData, hnext]
  rfl

end

/-! ## What is stale -/

section

variable {g : Graph} {nodesToClean : List INode} {runData : IRunData V}

/-- What another than a Main connection leads from one node to the other. -/
def SubNodeOf (g : Graph) (subNode node : INode) : Prop :=
  ∃ c ∈ g.connections, c.type ≠ .main ∧ c.fromNode = subNode ∧ c.toNode = node

/-- The node is cleaned, or follows a node that is. -/
def Follows (g : Graph) (nodesToClean : List INode) (node : INode) : Prop :=
  ∃ n ∈ nodesToClean, Reach g.children n node

/-- The node follows a cleaned one, or is a sub-node of such a node, perhaps
    by way of other sub-nodes. -/
def Stale (g : Graph) (nodesToClean : List INode) (node : INode) : Prop :=
  ∃ n, Follows g nodesToClean n ∧ ReflTransGen (SubNodeOf g) node n

/-- The data of the nodes of the graph that are not stale is kept as it is,
    and no other. -/
def CleansStale (g : Graph) (runData : IRunData V) (nodesToClean : List INode) : Prop :=
  ∃ newRunData, cleanRunData runData g.graph nodesToClean = .ok newRunData
    ∧ Without runData newRunData fun name =>
      ¬ ∃ node ∈ g.nodes, node.name = name ∧ ¬ Stale g nodesToClean node

/-- A sub-node with run data, of a node that leads to a cleaned one or to
    one that follows it, is stale. -/
def SubNodesStale (g : Graph) (runData : IRunData V) (nodesToClean : List INode) : Prop :=
  ∀ subNode node, SubNodeOf g subNode node → runData.has subNode.name →
    (∃ n, Follows g nodesToClean n ∧ Reach g.children node n) → Stale g nodesToClean subNode

theorem SubNodeOf.reach {subNode node : INode} (h : SubNodeOf g subNode node) :
    Edge g.children subNode node := by
  obtain ⟨c, hc, -, hfrom, hto⟩ := h
  exact Graph.mem_children.mpr ⟨c, hc, hfrom, hto⟩

theorem Stale.goes {node : INode} (h : Stale g nodesToClean node) :
    ∃ n, Follows g nodesToClean n ∧ GoesWith g n node.name := by
  obtain ⟨n, hn, hway⟩ := h
  refine ⟨n, hn, ?_⟩
  rcases hway.cases_head with rfl | ⟨next, ⟨c, hc, hsub, rfl, rfl⟩, hrest⟩
  · exact .inl rfl
  · exact .inr ⟨c, hc, hsub, ReflTransGen.mono (fun _ _ h => SubNodeOf.reach h) _ _ hrest, rfl⟩

/-- **EXACTLY THE STALE PART** goes if and only if no sub-node of a node
    upstream has run data, unless it is stale itself. -/
theorem cleansStale_iff (hnodes : nodesToClean ⊆ g.nodes) :
    CleansStale g runData nodesToClean ↔ SubNodesStale g runData nodesToClean := by
  obtain ⟨newRunData, hok, hwithout⟩ := cleanRunData_without hnodes runData
  have hfollows : ∀ name, (∃ node ∈ nodesToClean, ∃ n, Reach g.children node n ∧ GoesWith g n name)
      ↔ ∃ n, Follows g nodesToClean n ∧ GoesWith g n name :=
    fun name => ⟨fun ⟨node, hnode, n, hn, hgoes⟩ =>
      ⟨n, ⟨node, hnode, hn⟩, hgoes⟩, fun ⟨n, ⟨node, hnode, hn⟩, hgoes⟩ =>
      ⟨node, hnode, n, hn, hgoes⟩⟩
  simp only [hfollows] at hwithout
  constructor
  · rintro ⟨newRunData', hok', hstale⟩ subNode node hsub hdata ⟨n, hn, hlead⟩
    rw [hok] at hok'
    cases hok'
    by_contra hnot
    obtain ⟨c, hc, hmain, rfl, rfl⟩ := hsub
    have hkept := (hstale c.fromNode.name).2
      (not_not.mpr ⟨c.fromNode, Graph.fromNode_mem hc, rfl, hnot⟩)
    rw [(hwithout _).1 (.inl ⟨n, hn, .inr ⟨c, hc, hmain, hlead, rfl⟩⟩)] at hkept
    rw [OrderedMap.has, ← hkept] at hdata
    cases hdata
  · intro hsubs
    refine ⟨newRunData, hok, hwithout.congr_has fun name hdata => ?_⟩
    constructor
    · rintro (⟨n, hn, hgoes⟩ | hnone) ⟨node, hnode, rfl, hnot⟩
      · rcases hgoes with heq | ⟨c, hc, hmain, hlead, heq⟩
        · obtain ⟨a, ha, hreach⟩ := hn
          have hnode' := Graph.closed_children.mem_of_reach (hnodes ha) hreach
          rw [g.keyed.eq_of_name node hnode n hnode' heq] at hnot
          exact hnot ⟨n, ⟨a, ha, hreach⟩, .refl⟩
        · rw [heq] at hdata
          rw [g.keyed.eq_of_name node hnode c.fromNode (Graph.fromNode_mem hc) heq] at hnot
          exact hnot (hsubs c.fromNode c.toNode ⟨c, hc, hmain, rfl, rfl⟩ hdata ⟨n, hn, hlead⟩)
      · exact hnone ⟨node, hnode, rfl⟩
    · intro hall
      by_cases hname : ∃ node ∈ g.nodes, node.name = name
      · obtain ⟨node, hnode, rfl⟩ := hname
        refine .inl (Stale.goes ?_)
        by_contra hnot
        exact hall ⟨node, hnode, rfl, hnot⟩
      · exact .inr hname

end

/-! ## A sub-node upstream -/

/-- A root node with a sub-node, between two other nodes. -/
def rootGraph : Graph :=
  .of [⟨1, "node1"⟩, ⟨2, "root"⟩, ⟨3, "sub"⟩, ⟨4, "node2"⟩]
    [⟨⟨1, "node1"⟩, ⟨2, "root"⟩, .main, 0, 0⟩, ⟨⟨3, "sub"⟩, ⟨2, "root"⟩, .aiLanguageModel, 0, 0⟩,
      ⟨⟨2, "root"⟩, ⟨4, "node2"⟩, .main, 0, 0⟩] (by decide)

def rootRunData : IRunData Nat := ⟨[("node1", 1), ("root", 2), ("sub", 3), ("node2", 4)], by decide⟩

theorem subNodeOf_rootGraph {subNode node : INode} (h : SubNodeOf rootGraph subNode node) :
    subNode = ⟨3, "sub"⟩ ∧ node = ⟨2, "root"⟩ := by
  obtain ⟨c, hc, hmain, rfl, rfl⟩ := h
  have hall : ∀ c ∈ rootGraph.connections, c.type ≠ .main →
      c.fromNode = ⟨3, "sub"⟩ ∧ c.toNode = ⟨2, "root"⟩ := by decide
  exact hall c hc hmain

theorem cleansStale_root : CleansStale rootGraph rootRunData [⟨2, "root"⟩] := by
  refine (cleansStale_iff (by decide)).mpr fun subNode node hsub _ _ => ?_
  obtain ⟨-, rfl⟩ := subNodeOf_rootGraph hsub
  exact ⟨⟨2, "root"⟩, ⟨_, .head _, .refl⟩, .single hsub⟩

/-- The data of the root node is kept, that of its sub-node is not. -/
theorem not_cleansStale_node2 : ¬ CleansStale rootGraph rootRunData [⟨4, "node2"⟩] := by
  rintro ⟨newRunData, hok, hwithout⟩
  have hrun : (cleanRunData rootRunData rootGraph.graph
      [⟨4, "node2"⟩]).map (·.keys) = .ok ["node1", "root"] := by decide
  rw [hok] at hrun
  have hkeys : newRunData.keys = ["node1", "root"] := Except.ok.inj hrun
  have hstale : ¬ Stale rootGraph [⟨4, "node2"⟩] ⟨3, "sub"⟩ := by
    rintro ⟨n, ⟨start, hstart, hreach⟩, hway⟩
    rw [List.mem_singleton.mp hstart] at hreach
    have hn : n = ⟨4, "node2"⟩ := by
      have hmem := (Graph.mem_preorder (by decide)).mpr hreach
      have hall : ∀ x ∈ rootGraph.preorder ⟨4, "node2"⟩, x = ⟨4, "node2"⟩ := by decide
      exact hall n hmem
    rw [hn] at hway
    rcases hway.cases_tail with heq | ⟨last, -, hlast⟩
    · exact absurd heq (by decide)
    · exact absurd (subNodeOf_rootGraph hlast).2 (by decide)
  have hkept := (hwithout "sub").2 (not_not.mpr ⟨⟨3, "sub"⟩, by decide, rfl, hstale⟩)
  have hmem : "sub" ∈ newRunData.keys :=
    OrderedMap.mem_keys_of_get? (hkept.trans (by decide : _ = some 3))
  rw [hkeys] at hmem
  exact absurd hmem (by decide)

end N8nCleanRunData
