import N8n.FindSubgraphProofs
import N8n.FilterDisabledProofs
import N8n.StartNodesProofs
import N8n.HandleCyclesProofs
import N8n.CleanRunDataProofs

/-! # A partial execution — its steps one after the other

    `runPartialWorkflow2` removes the disabled nodes, keeps what lies between
    trigger and destination, and looks for the start nodes in what is left.
    Each step takes what the one before returns, so each must leave a graph
    (`subgraph_ok`), and run data that can be read (`prepare_ok`).

    The engine is `reaches_enabled`: a way over disabled nodes is a way along
    their bypasses. -/

namespace N8nRunPartialWorkflow

open N8nCleanRunData (cleanRunData cleanRunData_without Without)
open N8nStartNodes (findStartNodes findStartNodesRecursive_ok splitInBatches runsOf HasEntry
  HaveEntries IsReached Readable)
open N8nHandleCycles (handleCycles handleCycles_ok mem_order)
open N8nComponentClasses (getStronglyConnectedComponents_parts)
open N8nPartialExecution (IPinData)
open N8nWorkflowExecute (IRunData ITaskData)
open Relation N8nExcept N8nOrderedMap N8nDirectedPaths N8nDirectedGraph N8nDepthFirst
  N8nPartialGraph N8nFilterDisabled List
open N8nFindSubgraph hiding lineGraph

/-- Step 2 of `runPartialWorkflow2`. -/
def subgraphOf (graph : DirectedGraph) (disabled : INode → Bool) (destination trigger : INode) :
    Except GraphError DirectedGraph := do
  let graph ← filterDisabledNodes graph disabled
  findSubgraph graph destination trigger

section

variable {g f : Graph} {disabled : INode → Bool} {destination trigger a b : INode}
  {c : GraphConnection}

/-! ## Over the disabled nodes -/

abbrev Bypasses (g : Graph) (disabled : INode → Bool) : GraphConnection → Prop :=
  Bypass g.connections fun n => disabled n = true

theorem reaches_of_bypass (h : Bypasses g disabled c) :
    ReflTransGen (MainStep g.connections) c.fromNode c.toNode := by
  induction h with
  | base hc hmain => exact .single ⟨_, mem_mainOut.mpr ⟨hc, rfl, hmain⟩, rfl⟩
  | join _ _ hends _ ihc ihd => exact ihc.trans (hends ▸ ihd)

/-- The graph without the disabled nodes. -/
structure Filtered (g : Graph) (disabled : INode → Bool) (f : Graph) : Prop where
  nodes : ∀ n, n ∈ f.nodes ↔ n ∈ g.nodes ∧ disabled n = false
  main : ∀ c, c.type = .main → disabled c.fromNode = false → disabled c.toNode = false →
    (c ∈ f.connections ↔ Bypasses g disabled c)
  other : ∀ c ∈ f.connections, c.type ≠ .main → c ∈ g.connections

theorem exists_filtered (hapart : KeysApart g.connections disabled)
    (hno : NoDisabledCycle g.connections disabled) :
    ∃ f, filterDisabledNodes g.graph disabled = .ok f.graph ∧ Filtered g disabled f := by
  obtain ⟨removed, hremoved, filtered, hok, hstage⟩ :=
    filterDisabledNodes_ok (bypassesApart_iff.mpr hapart)
  obtain ⟨filtered', hok', -, hown, -⟩ := (filtersDisabled_of_keysApart hapart).mpr hno
  cases hok.symm.trans hok'
  have hkept : ∀ {n}, n ∈ g.nodes → (n ∉ removed ↔ disabled n = false) := fun {n} hn => by
    rw [hremoved, ← Bool.not_eq_true]
    exact not_congr (and_iff_right hn)
  refine ⟨⟨filtered, hstage.keyed, hown⟩, hok, fun n => ?_, fun c hmain hfrom hto => ?_,
    fun c hc hmain => (hstage.other c hc hmain).1⟩
  · refine (hstage.nodes n).trans (and_congr_right fun hn => hkept hn)
  · refine Iff.trans ?_ (bypass_removed_iff hremoved)
    refine ⟨fun hc => hstage.sound c hc hmain, fun hc => ?_⟩
    obtain ⟨hu, hv⟩ := hc.mem_nodes
    exact hstage.complete c hc ((hkept hu).mpr hfrom) ((hkept hv).mpr hto)

theorem Filtered.enabled (h : Filtered g disabled f) (hc : c ∈ f.connections) :
    disabled c.fromNode = false ∧ disabled c.toNode = false :=
  ⟨((h.nodes _).mp (Graph.fromNode_mem hc)).2, ((h.nodes _).mp (Graph.toNode_mem hc)).2⟩

theorem Filtered.bypass (h : Filtered g disabled f) (hc : c ∈ f.connections)
    (hmain : c.type = .main) : Bypasses g disabled c :=
  (h.main c hmain (h.enabled hc).1 (h.enabled hc).2).mp hc

/-- What a bypass leads to a node of a way is led on along the way, over its
    enabled nodes. -/
theorem Filtered.leads (h : Filtered g disabled f) (hb : disabled b = false)
    (hway : ReflTransGen (MainStep g.connections) a b) (hc : Bypasses g disabled c)
    (hfrom : disabled c.fromNode = false) (hto : c.toNode = a) :
    ReflTransGen (MainStep f.connections) c.fromNode b := by
  have hstep : ∀ {c}, Bypasses g disabled c → disabled c.fromNode = false →
      disabled c.toNode = false → MainStep f.connections c.fromNode c.toNode :=
    fun {c} hc hfrom hto =>
      ⟨c, mem_mainOut.mpr ⟨(h.main c hc.main hfrom hto).mpr hc, rfl, hc.main⟩, rfl⟩
  induction hway using ReflTransGen.head_induction_on generalizing c with
  | refl => exact .single (hto ▸ hstep hc hfrom (hto ▸ hb))
  | head hab _ ih =>
    obtain ⟨d, hd, rfl⟩ := hab
    obtain ⟨hd, hends, hmain⟩ := mem_mainOut.mp hd
    replace hends := hto.trans hends.symm
    cases hdisabled : disabled c.toNode with
    | true =>
      have hjoin : Bypasses g disabled (rewire c d) := .join hc (.base hd hmain) hends hdisabled
      have hrest := ih hjoin hfrom rfl
      exact hrest
    | false =>
      refine .head (hstep hc hfrom hdisabled) ?_
      rw [hends] at hdisabled ⊢
      exact ih (.base hd hmain) hdisabled rfl

theorem Filtered.reaches_iff (h : Filtered g disabled f) (ha : disabled a = false)
    (hb : disabled b = false) : ReflTransGen (MainStep f.connections) a b
      ↔ ReflTransGen (MainStep g.connections) a b := by
  constructor
  · intro hway
    refine ReflTransGen.lift' id (fun x y hxy => ?_) _ _ hway
    obtain ⟨c, hout, rfl⟩ := hxy
    obtain ⟨hc, rfl, hmain⟩ := mem_mainOut.mp hout
    exact reaches_of_bypass (h.bypass hc hmain)
  · intro hway
    rcases hway.cases_head with rfl | ⟨x, ⟨c, hout, rfl⟩, hrest⟩
    · exact .refl
    · obtain ⟨hc, rfl, hmain⟩ := mem_mainOut.mp hout
      exact h.leads hb hrest (.base hc hmain) ha rfl

/-! ## Between trigger and destination -/

/-- The first way that comes by the destination only at its end, after its
    last visit to the trigger. -/
theorem exists_outOf (hne : trigger ≠ destination)
    (hway : ReflTransGen (MainStep g.connections) trigger destination) :
    ∃ c ∈ mainOut g.connections trigger,
      ReflTransGen (StepOutOf g.connections destination trigger) c.toNode destination := by
  have hfirst : ReflTransGen (fun a b => MainStep g.connections a b ∧ a ≠ destination)
      trigger destination := by
    clear hne
    induction hway using ReflTransGen.head_induction_on with
    | refl => exact .refl
    | @head a b hab _ ih =>
      by_cases ha : a = destination
      · exact ha ▸ .refl
      · exact .head ⟨hab, ha⟩ ih
  have hmono : ∀ {c}, ReflTransGen (fun a b => (MainStep g.connections a b ∧ a ≠ destination)
      ∧ a ≠ trigger) c destination →
        ReflTransGen (StepOutOf g.connections destination trigger) c destination := fun {_} h =>
    ReflTransGen.mono (fun _ _ hab => ⟨⟨hab.2, hab.1.2⟩, hab.1.1⟩) _ _ h
  rcases exists_last_visit trigger hfirst with hnever | ⟨_, ⟨⟨c, hc, rfl⟩, -⟩, hrest⟩
  · rcases hnever.cases_head with heq | ⟨_, ⟨-, hself⟩, -⟩
    · exact absurd heq hne
    · exact absurd rfl hself
  · exact ⟨c, hc, hmono hrest⟩

/-- The nodes and connections of the subgraph are the graph's, and trigger
    and destination are connected in it if they are. -/
theorem findSubgraph_reaches (hne : trigger ≠ destination) (hdestination : destination ∈ g.nodes)
    (hway : ReflTransGen (MainStep g.connections) trigger destination) :
    ∃ h, findSubgraph g.graph destination trigger = .ok h ∧ IsPart g h ∧ trigger ∈ h.getNodes
      ∧ ReflTransGen (MainStep h.getConnections) trigger destination := by
  obtain ⟨h, hok, hkept⟩ := findSubgraph_ok trigger hdestination
  have hpart : IsPart g h := by
    have hfuel : (unseen g.nodes (been [])).length < depth g.graph :=
      Nat.lt_succ_of_lt (Nat.lt_succ_of_le (length_filter_le ..))
    obtain ⟨first, hfirst, hpart, -⟩ := findSubgraphRecursive_ok
      trigger isPart_empty hdestination (nil_subset _) hfuel
    obtain ⟨last, hlast, hpart, -⟩ := foldlM_addParents hpart.nodes hpart
    rw [findSubgraph, hfirst] at hok
    cases hlast.symm.trans hok
    exact hpart
  have hwalk : ∀ {c}, c ∈ mainOut g.connections c.fromNode →
      ReflTransGen (StepInto g.connections destination trigger) trigger c.fromNode →
      ReflTransGen (StepOutOf g.connections destination trigger) c.toNode destination →
      c ∈ mainOut h.getConnections c.fromNode := fun {c} hc hfrom hto => by
    obtain ⟨hmem, hmain⟩ := (hkept c).mpr
      (isKept_of_onMainWalk hne (onMainWalk_iff.mpr ⟨hc, hfrom, hto⟩))
    exact mem_mainOut.mpr ⟨hmem, rfl, hmain⟩
  have hinside : ∀ {x}, ReflTransGen (StepOutOf g.connections destination trigger) x destination →
      ∀ {c}, c ∈ mainOut g.connections c.fromNode → c.toNode = x →
        ReflTransGen (StepInto g.connections destination trigger) trigger c.fromNode →
        ReflTransGen (MainStep h.getConnections) c.fromNode destination := by
    intro x hto
    induction hto using ReflTransGen.head_induction_on with
    | refl =>
      rintro c hc rfl hfrom
      exact .single ⟨c, hwalk hc hfrom .refl, rfl⟩
    | head hstep hrest ih =>
      rintro c hc rfl hfrom
      obtain ⟨hinner, d, hd, rfl⟩ := hstep
      have hdfrom := (mem_mainOut.mp hd).2.1
      have hthere := ih (hdfrom.symm ▸ hd) rfl (hdfrom ▸ hfrom.tail ⟨⟨c, hc, rfl⟩, hinner⟩)
      exact .head ⟨c, hwalk hc hfrom (.head ⟨hinner, d, hd, rfl⟩ hrest), rfl⟩ (hdfrom ▸ hthere)
  obtain ⟨c, hc, hto⟩ := exists_outOf hne hway
  obtain ⟨-, rfl, -⟩ := mem_mainOut.mp hc
  have hown := (hpart.own c (mem_mainOut.mp (hwalk hc .refl hto)).1).1
  exact ⟨h, hok, hpart, hpart.keyed.mem_getNodes.mpr (of_decide_eq_true hown),
    hinside hto hc rfl .refl⟩

end

/-! ## From the trigger to the start nodes -/

def getNodesByNames (graph : DirectedGraph) (names : List String) : List INode :=
  names.foldl (fun nodes name =>
    match graph.nodes.get? name with
    | some node => addTo nodes node
    | none => nodes) []

section

variable {V : Type}

/-- Steps 2 to 6 of `runPartialWorkflow2`. -/
def prepare (graph : DirectedGraph) (disabled : INode → Bool) (type : INode → String)
    (runData : IRunData V) (pinData : IPinData V) (dirtyNodeNames : List String)
    (destination trigger : INode) :
    Except GraphError (DirectedGraph × List INode × IRunData V) := do
  let graph ← subgraphOf graph disabled destination trigger
  let runData ← cleanRunData runData graph (getNodesByNames graph dirtyNodeNames)
  let startNodes ← findStartNodes graph type runData pinData trigger destination
  let startNodes ← handleCycles graph startNodes trigger
  let runData ← cleanRunData runData graph startNodes
  return (graph, startNodes, runData)

/-- The runs have entries for the connections out of their nodes. -/
structure HaveRun (g : Graph) (type : INode → String) (runData : IRunData V) : Prop where
  last : ∀ n ∈ g.nodes, type n = splitInBatches → ∀ run,
    (runsOf runData n.name).getLast? = some run → HasEntry .main run
  all : ∀ c ∈ g.connections, HaveEntries c.type c.outputIndex (runsOf runData c.fromNode.name)

/-- What is executed: a part of the workflow without its disabled nodes, in
    which the trigger leads to the destination; no data is left of the start
    nodes and of what they lead to, and no other data than before. -/
structure Prepared (g : Graph) (disabled : INode → Bool) (runData : IRunData V)
    (destination trigger : INode) (h : Graph) (startNodes : List INode)
    (newRunData : IRunData V) : Prop where
  nodes : ∀ n ∈ h.nodes, n ∈ g.nodes ∧ disabled n = false
  main : ∀ c ∈ h.connections, c.type = .main → StandsForPath g.connections disabled c
  reaches : ReflTransGen (MainStep h.connections) trigger destination
  starts : startNodes ⊆ h.nodes
  fresh : ∀ s ∈ startNodes, ∀ n, Reach h.children s n → newRunData.get? n.name = none
  kept : ∀ name data, newRunData.get? name = some data →
    runData.get? name = some data ∧ ∃ n ∈ h.nodes, n.name = name

variable {g : Graph} {disabled : INode → Bool} {type : INode → String} {runData : IRunData V}
  {destination trigger : INode}

theorem Bypass.first {c : GraphConnection} (h : Bypasses g disabled c) :
    ∃ d ∈ g.connections, d.fromNode = c.fromNode ∧ d.type = c.type
      ∧ d.outputIndex = c.outputIndex := by
  induction h with
  | base hc _ => exact ⟨_, hc, rfl, rfl, rfl⟩
  | join _ _ _ _ ih _ => exact ih

theorem mem_getNodesByNames (h : Graph) (names : List String) :
    getNodesByNames h.graph names ⊆ h.nodes := by
  rw [getNodesByNames]
  induction names using List.reverseRecOn with
  | nil => exact nil_subset _
  | append_singleton names name ih =>
    rw [foldl_append, foldl_cons, foldl_nil]
    split
    · next node hnode =>
      intro x hx
      rcases mem_addTo.mp hx with hx | rfl
      · exact ih hx
      · exact h.keyed.mem_getNodes.mpr ((h.keyed.nodes _ _ hnode) ▸ hnode)
    · exact ih

theorem get?_of_without {old new : IRunData V} {gone : String → Prop} {name : String}
    {data : List (ITaskData V)} (h : Without old new gone) (hdata : new.get? name = some data) :
    ¬ gone name ∧ old.get? name = some data := by
  have hnot : ¬ gone name := fun hgone => by
    rw [(h name).1 hgone] at hdata
    cases hdata
  exact ⟨hnot, (h name).2 hnot ▸ hdata⟩

theorem runsOf_of_without {old new : IRunData V} {gone : String → Prop} (h : Without old new gone)
    (name : String) : runsOf new name = [] ∨ runsOf new name = runsOf old name := by
  rw [runsOf, runsOf]
  by_cases hgone : gone name
  · rw [(h name).1 hgone]
    exact .inl rfl
  · rw [(h name).2 hgone]
    exact .inr rfl

theorem HaveRun.of_part {f : Graph} {h : DirectedGraph} {new : IRunData V}
    {gone : String → Prop} (hrun : HaveRun g type runData) (hfiltered : Filtered g disabled f)
    (hpart : IsPart f h) (hwithout : Without runData new gone) :
    HaveRun ⟨h, hpart.keyed, hpart.own⟩ type new := by
  constructor
  · intro n hn hbatches run hlast
    rcases runsOf_of_without hwithout n.name with hnil | hsame
    · rw [hnil] at hlast
      cases hlast
    · exact hrun.last n ((hfiltered.nodes n).mp (hpart.nodes hn)).1 hbatches run (hsame ▸ hlast)
  · intro c hc
    obtain ⟨d, hd, hfrom, htype, houtput⟩ : ∃ d ∈ g.connections, d.fromNode = c.fromNode
        ∧ d.type = c.type ∧ d.outputIndex = c.outputIndex := by
      by_cases hmain : c.type = .main
      · exact Bypass.first (hfiltered.bypass (hpart.connections hc) hmain)
      · exact ⟨c, hfiltered.other c (hpart.connections hc) hmain, rfl, rfl, rfl⟩
    rw [← hfrom, ← htype, ← houtput]
    rcases runsOf_of_without hwithout d.fromNode.name with hnil | hsame
    · rw [hnil]
      trivial
    · rw [hsame]
      exact hrun.all d hd

theorem HaveRun.readable {h : Graph} (hrun : HaveRun h type runData) (pinData : IPinData V)
    (htrigger : trigger ∈ h.nodes) (n : INode)
    (hn : IsReached h type runData pinData destination trigger n) :
    Readable h type runData pinData destination n := by
  refine ⟨fun _ _ hbatches => hrun.last n ?_ hbatches, fun _ c hc hfrom => hfrom ▸ hrun.all c hc⟩
  rcases hn.cases_tail with rfl | ⟨_, -, -, c, hc, -, rfl, -⟩
  · exact htrigger
  · exact Graph.toNode_mem hc

end

theorem bypasses_lineGraph : KeysApart lineGraph.connections isDisabledNode
    ∧ NoDisabledCycle lineGraph.connections isDisabledNode := by
  constructor
  · refine bypassesApart_iff.mp fun c d hc hd => ?_
    have hall : ∀ c ∈ lineBypasses, ∀ d ∈ lineBypasses, makeKey c = makeKey d → c = d := by decide
    exact hall c (bypass_lineGraph hc) d (bypass_lineGraph hd)
  · refine noDisabledCycle_iff.mpr fun c hc hself => ?_
    have hall : ∀ c ∈ lineBypasses, c.fromNode ≠ c.toNode := by decide
    exact absurd hself (hall c (bypass_lineGraph hc))

end N8nRunPartialWorkflow
