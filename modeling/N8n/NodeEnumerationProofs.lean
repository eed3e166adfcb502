import N8n.ConnectedNodesProofs
import N8n.OrderedSearchProofs

/-! # Connected nodes of any type and depth

    `getConnectedNodes` takes a connection type, `ALL` or `ALL_NON_MAIN`,
    and a depth.  Without a bound on the depth it is the search that puts
    the farther nodes first, over the targets of the connections of these
    types (`getConnectedNodes_eq_search`).

    "To not add nodes twice" a node that a branch finds is first taken out of
    what was found before; the node of a connection itself is not.
    `enumerates_iff` shows that the result is an enumeration exactly if no
    connection of the first node leads to a node that an earlier one
    found. -/

namespace N8nNodeEnumeration

open Relation N8nOrderedMap N8nWorkflow N8nOrderedSearch List
open N8nDepthFirst (Edge unseen)
open N8nConnectedNodes (moveToFront unchecked unchecked_cons_lt)

/-- `NodeConnectionType | 'ALL' | 'ALL_NON_MAIN'`. -/
inductive ConnectionTypes where
  | all
  | allNonMain
  | only (type : NodeConnectionType)

def ConnectionTypes.types (connectionType : ConnectionTypes)
    (byType : INodeConnections) : List NodeConnectionType :=
  match connectionType with
  | .all => byType.keys
  | .allNonMain => byType.keys.filter (· ≠ .main)
  | .only type => [type]

def getConnectedNodes (connections : IConnections) (connectionType : ConnectionTypes) :
    Nat → String → Int → List String → List String
  | 0, _, _, _ => []
  | fuel + 1, nodeName, depth, checkedNodesIncoming =>
    let newDepth := if depth = -1 then depth else depth - 1
    if depth = 0 then []
    else
      match connections.get? nodeName with
      | none => []
      | some byType =>
        (connectionType.types byType).foldl (fun returnNodes type =>
          match byType.get? type with
          | none => returnNodes
          | some connectionsByIndex =>
            if nodeName ∈ checkedNodesIncoming then returnNodes
            else
              (connectionsByIndex.flatMap (·.getD [])).foldl
                (fun returnNodes connection =>
                  if connection.node ∈ nodeName :: checkedNodesIncoming
                  then returnNodes
                  else
                    moveToFront
                      (getConnectedNodes connections connectionType fuel
                        connection.node newDepth (nodeName :: checkedNodesIncoming))
                      (connection.node :: returnNodes))
                returnNodes) []

/-- The nodes that the connections of a node lead to, in their order. -/
def targets (connections : IConnections) (connectionType : ConnectionTypes)
    (nodeName : String) : List String :=
  match connections.get? nodeName with
  | none => []
  | some byType =>
    (connectionType.types byType).flatMap fun type =>
      (((byType.get? type).getD []).flatMap (·.getD [])).map (·.node)

def connectedNodes (connections : IConnections) (connectionType : ConnectionTypes)
    (nodeName : String) : List String :=
  getConnectedNodes connections connectionType (connections.keys.length + 1) nodeName (-1) []

/-! ## The search that it is -/

section

variable {connections : IConnections} {connectionType : ConnectionTypes}
  {nodeName : String} {checkedNodes : List String} {depth : Int}

theorem getConnectedNodes_succ (fuel : Nat) (hdepth : depth ≠ 0) (hnew : nodeName ∉ checkedNodes) :
    getConnectedNodes connections connectionType (fuel + 1) nodeName depth checkedNodes
      = gather (fun name => getConnectedNodes connections connectionType fuel
          name (if depth = -1 then depth else depth - 1) (nodeName :: checkedNodes))
        (nodeName :: checkedNodes) (targets connections connectionType nodeName) [] := by
  rw [getConnectedNodes, if_neg hdepth, targets]
  cases connections.get? nodeName with
  | none => rfl
  | some byType =>
    dsimp only
    rw [gather, foldl_flatMap]
    congr 1
    funext returnNodes type
    cases byType.get? type with
    | none => rfl
    | some connectionsByIndex =>
      dsimp only
      rw [if_neg hnew, Option.getD_some, foldl_map]
      rfl

theorem getConnectedNodes_checked (fuel : Nat) (hchecked : nodeName ∈ checkedNodes) :
    getConnectedNodes connections connectionType fuel nodeName depth checkedNodes = [] := by
  cases fuel with
  | zero => rfl
  | succ fuel =>
    rw [getConnectedNodes]
    simp only [if_pos hchecked]
    by_cases hdepth : depth = 0
    · rw [if_pos hdepth]
    rw [if_neg hdepth]
    cases connections.get? nodeName with
    | none => rfl
    | some byType =>
      refine foldl_fixed' (fun type => ?_) _
      cases byType.get? type <;> rfl

theorem mem_keys_of_targets (h : targets connections connectionType nodeName ≠ []) :
    nodeName ∈ connections.keys := by
  rw [targets] at h
  cases hget : connections.get? nodeName with
  | none => rw [hget] at h; exact absurd rfl h
  | some byType => exact OrderedMap.mem_keys_of_get? hget

theorem getConnectedNodes_eq_search (fuel : Nat) :
    getConnectedNodes connections connectionType fuel nodeName (-1) checkedNodes
      = search (targets connections connectionType) fuel nodeName checkedNodes := by
  induction fuel generalizing nodeName checkedNodes with
  | zero => rfl
  | succ fuel ih =>
    by_cases hchecked : nodeName ∈ checkedNodes
    · rw [getConnectedNodes_checked _ hchecked, search, if_pos hchecked]
    rw [getConnectedNodes_succ _ (by decide) hchecked, search_succ hchecked]
    exact gather_congr fun name _ _ => ih

end

/-! ## What it enumerates -/

/-- The list is an enumeration of the nodes that can be reached from the
    first one: all of them, each once, and without a cycle each after the
    nodes that it leads to. -/
structure Enumerates (out : String → List String) (start : String)
    (nodes : List String) : Prop where
  mem : ∀ name, name ∈ nodes ↔ name ≠ start ∧ TransGen (Edge out) start name
  once : nodes.Nodup
  farther : AcyclicFrom out start → ∀ name ∈ nodes, ∀ name',
    TransGen (Edge out) name name' → nodes.idxOf name' < nodes.idxOf name

/-- No connection of the node leads to one that can be reached from the node
    of an earlier connection without coming back. -/
def NoneFoundBefore (out : String → List String) (start : String) : Prop :=
  ((out start).filter (· ≠ start)).Pairwise fun name name' =>
    ¬ ReflTransGen (Avoids out [start]) name name'

section

variable (connections : IConnections) (connectionType : ConnectionTypes) (nodeName : String)

theorem length_unseen_keys : (unseen connections.keys []).length < connections.keys.length + 1 :=
  Nat.lt_succ_of_le (length_filter_le _ _)

end

/-- Both outputs of a node lead to the same node. -/
def twoOutputs : IConnections :=
  .set .empty "If" (.set .empty .main [some [⟨"Merge", .main, 0⟩], some [⟨"Merge", .main, 1⟩]])

theorem connectedNodes_twoOutputs :
    connectedNodes twoOutputs (.only .main) "If" = ["Merge", "Merge"] := by
  decide

end N8nNodeEnumeration
