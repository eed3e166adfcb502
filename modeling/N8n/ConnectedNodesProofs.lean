import N8n.WorkflowProofs

/-! # Connected nodes — the search behind `getParentNodes`

    `getConnectedNodes` walks a connection table depth first.  The nodes of
    the current path are its checked nodes; the results of a branch are moved
    to the front of what was found before, so that a node stands before
    everything that is connected to it.

    The search has no bound of its own.  Here it runs on fuel, and
    `getConnectedNodes_fuel` shows that the number of nodes of the table that
    are not on the path is enough: every call puts one of them on it. -/

namespace N8nConnectedNodes

open N8nOrderedMap N8nWorkflow

/-- The loop over `addNodes`, from its last node to its first: a node found
    before is taken out, and the node is put in front. -/
def moveToFront (addNodes returnNodes : List String) : List String :=
  addNodes.foldr (fun parentNodeName nodes =>
    parentNodeName :: nodes.erase parentNodeName) returnNodes

def getConnectedNodes (connections : IConnections) (connectionType : NodeConnectionType) :
    Nat → String → List String → List String
  | 0, _, _ => []
  | fuel + 1, nodeName, checkedNodes =>
    match (connections.get? nodeName).bind (·.get? connectionType) with
    | none => []
    | some connectionsByIndex =>
      if nodeName ∈ checkedNodes then []
      else
        (connectionsByIndex.flatMap (·.getD [])).foldl
          (fun returnNodes connection =>
            if connection.node ∈ nodeName :: checkedNodes then returnNodes
            else
              moveToFront
                (getConnectedNodes connections connectionType fuel
                  connection.node (nodeName :: checkedNodes)) (connection.node :: returnNodes)) []

/-- The nodes of the table that are not on the path. -/
def unchecked (connections : IConnections) (checkedNodes : List String) : List String :=
  connections.keys.filter (fun name => name ∉ checkedNodes)

/-- All nodes before the given one along main connections. -/
def getParentNodes {P : Type} (workflow : Workflow P) (nodeName : String) : List String :=
  getConnectedNodes workflow.connectionsByDestinationNode .main
    (workflow.connectionsByDestinationNode.keys.length + 1) nodeName []

/-! ## The fuel suffices -/

theorem unchecked_cons_lt {connections : IConnections} {nodeName : String}
    {checkedNodes : List String} (hkey : nodeName ∈ connections.keys)
    (hnew : nodeName ∉ checkedNodes) :
    (unchecked connections (nodeName :: checkedNodes)).length
      < (unchecked connections checkedNodes).length := by
  have hsplit : unchecked connections (nodeName :: checkedNodes)
      = (unchecked connections checkedNodes).filter (· ≠ nodeName) := by
    rw [unchecked, unchecked, List.filter_filter]
    refine List.filter_congr fun name _ => ?_
    simp
  have hmem : nodeName ∈ unchecked connections checkedNodes :=
    List.mem_filter.mpr ⟨hkey, decide_eq_true hnew⟩
  rw [hsplit]
  exact List.length_filter_lt_length_iff_exists.mpr ⟨nodeName, hmem, by simp⟩

/-- **FUEL**: two searches with more fuel than there are nodes left to put
    on the path find the same nodes. -/
theorem getConnectedNodes_fuel (connections : IConnections)
    (connectionType : NodeConnectionType) {fuel fuel' : Nat} (nodeName : String)
    (checkedNodes : List String) (h : (unchecked connections checkedNodes).length < fuel)
    (h' : (unchecked connections checkedNodes).length < fuel') :
    getConnectedNodes connections connectionType fuel nodeName checkedNodes
      = getConnectedNodes connections connectionType fuel' nodeName checkedNodes := by
  induction fuel generalizing fuel' nodeName checkedNodes with
  | zero => exact absurd h (Nat.not_lt_zero _)
  | succ fuel ih =>
    obtain ⟨more, rfl⟩ : ∃ more, fuel' = more + 1 := ⟨fuel' - 1, by omega⟩
    rw [getConnectedNodes, getConnectedNodes]
    rcases hnode : connections.get? nodeName with _ | byType
    · rfl
    · have hkey := OrderedMap.mem_keys_of_get? hnode
      rw [Option.bind_some]
      rcases byType.get? connectionType with _ | connectionsByIndex
      · rfl
      · show (if nodeName ∈ checkedNodes then _ else _)
          = if nodeName ∈ checkedNodes then _ else _
        by_cases hchecked : nodeName ∈ checkedNodes
        · rw [if_pos hchecked, if_pos hchecked]
        · rw [if_neg hchecked, if_neg hchecked]
          have hlt := unchecked_cons_lt hkey hchecked
          congr 1
          funext returnNodes connection
          by_cases hseen : connection.node ∈ nodeName :: checkedNodes
          · rw [if_pos hseen, if_pos hseen]
          · rw [@ih more connection.node (nodeName :: checkedNodes) (by omega) (by omega)]

end N8nConnectedNodes
