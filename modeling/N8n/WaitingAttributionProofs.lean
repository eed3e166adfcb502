import N8n.SourceGroupsProofs

/-! # What a recreated waiting entry holds, and where it came from

    Every incomplete group that has run data becomes a waiting entry of its
    node; its slot is the number of such groups before it.  The data are
    those of the first run that has any, and pinned data are not looked at;
    the run that the source names is the slot.

    `attributed_iff` shows that the entries are what they should be exactly
    when each connection takes its data from the run whose index happens to
    be the slot. -/

namespace N8nWaitingAttribution

open N8nExcept N8nOrderedMap N8nWorkflow N8nWorkflowExecute List
open N8nPartialExecution N8nSourceGroups

variable {P V : Type}

/-! ## Reading the table -/

/-- The entry in a slot; an empty one where there is none. -/
def entryAt (waitingExecution : IWaitingForExecution V) (nodeName : String)
    (slot : Nat) : WaitingEntry V :=
  ((waitingNode waitingExecution nodeName).get? slot).getD
    { data := .empty, source := .empty }

/-- The element of an array by type. -/
def slotIn {α : Type} (arrays : OrderedMap NodeConnectionType (List (Slot α)))
    (type : NodeConnectionType) (inputIndex : Nat) : Slot α :=
  slotAt ((arrays.get? type).getD []) inputIndex

/-- The data and the source are there. -/
structure HoldsAt (waitingExecution : IWaitingForExecution V)
    (nodeName : String) (slot : Nat) (type : NodeConnectionType)
    (inputIndex : Nat) (items : List (INodeExecutionData V))
    (source : ISourceData) : Prop where
  data : slotIn (entryAt waitingExecution nodeName slot).data type inputIndex = .value items
  source : slotIn (entryAt waitingExecution nodeName slot).source type inputIndex = .value source

section

variable {waitingExecution : IWaitingForExecution V} {nodeName : String}
  {slot : Nat} {type : NodeConnectionType} {inputIndex : Nat}
  {items : List (INodeExecutionData V)} {source : ISourceData}

theorem slotIn_set {α : Type} (arrays : OrderedMap NodeConnectionType (List (Slot α)))
    (x : Slot α) (type' : NodeConnectionType) (inputIndex' : Nat) :
    slotIn (arrays.set type (setSlot x inputIndex ((arrays.get? type).getD []))) type' inputIndex'
      = if type = type' ∧ inputIndex' = inputIndex then x
        else slotIn arrays type' inputIndex' := by
  rw [slotIn, OrderedMap.get?_set]
  by_cases htype : type = type'
  · subst htype
    rw [if_pos rfl, Option.getD_some, slotAt_setSlot]
    simp only [true_and]
    rfl
  · rw [if_neg htype, if_neg fun h => htype h.1]
    rfl

theorem entryAt_addWaitingExecution (name : String) (slot' : Nat) :
    entryAt (addWaitingExecution waitingExecution nodeName slot type inputIndex
        items source) name slot'
      = if nodeName = name ∧ slot = slot' then
          { data := (entryAt waitingExecution name slot').data.set type
              (setSlot (.value items) inputIndex (((entryAt waitingExecution
                name slot').data.get? type).getD []))
            source := (entryAt waitingExecution name slot').source.set type
              (setSlot (.value source) inputIndex (((entryAt waitingExecution
                name slot').source.get? type).getD [])) }
        else entryAt waitingExecution name slot' := by
  by_cases hname : nodeName = name
  · subst hname
    rw [entryAt, addWaitingExecution, waitingNode_set, OrderedMap.get?_set]
    by_cases hslot : slot = slot'
    · subst hslot
      rw [if_pos rfl, if_pos ⟨rfl, rfl⟩]
      rfl
    · rw [if_neg hslot, if_neg fun h => hslot h.2]
      rfl
  · rw [if_neg fun h => hname h.1, entryAt, addWaitingExecution, waitingNode,
      OrderedMap.get?_set, if_neg hname]
    rfl

/-- **ONE ELEMENT**: what is written is there, and everything else is as it
    was. -/
theorem holdsAt_addWaitingExecution {name : String} {slot' : Nat}
    {type' : NodeConnectionType} {inputIndex' : Nat}
    {items' : List (INodeExecutionData V)} {source' : ISourceData} :
    HoldsAt (addWaitingExecution waitingExecution nodeName slot type inputIndex
        items source) name slot' type' inputIndex' items' source'
      ↔ if (nodeName = name ∧ slot = slot') ∧ type = type'
            ∧ inputIndex' = inputIndex then items = items' ∧ source = source'
        else HoldsAt waitingExecution name slot' type' inputIndex' items' source' := by
  have hparts : ∀ (t : IWaitingForExecution V),
      HoldsAt t name slot' type' inputIndex' items' source'
        ↔ slotIn (entryAt t name slot').data type' inputIndex' = .value items'
          ∧ slotIn (entryAt t name slot').source type' inputIndex' = .value source' :=
    fun t => ⟨fun h => ⟨h.data, h.source⟩, fun h => ⟨h.1, h.2⟩⟩
  rw [hparts, hparts, entryAt_addWaitingExecution]
  by_cases hentry : nodeName = name ∧ slot = slot'
  · rw [if_pos hentry, slotIn_set, slotIn_set]
    by_cases hplace : type = type' ∧ inputIndex' = inputIndex
    · rw [if_pos hplace, if_pos hplace, if_pos ⟨hentry, hplace⟩, Slot.value.injEq, Slot.value.injEq]
    · rw [if_neg hplace, if_neg hplace, if_neg fun h => hplace h.2]
  · rw [if_neg hentry, if_neg fun h => hentry h.1]

theorem keys_addWaitingExecution (name : String) :
    (waitingNode (addWaitingExecution waitingExecution nodeName slot type
        inputIndex items source) name).keys
      = if nodeName = name ∧ slot ∉ (waitingNode waitingExecution name).keys
        then (waitingNode waitingExecution name).keys ++ [slot]
        else (waitingNode waitingExecution name).keys := by
  by_cases hname : nodeName = name
  · subst hname
    rw [addWaitingExecution, waitingNode_set, OrderedMap.keys_set]
    by_cases hslot : slot ∈ (waitingNode waitingExecution nodeName).keys
    · rw [if_pos hslot, if_neg fun h => h.2 hslot]
    · rw [if_neg hslot, if_pos ⟨rfl, hslot⟩]
  · rw [if_neg fun h => hname h.1, addWaitingExecution, waitingNode,
      OrderedMap.get?_set, if_neg hname]
    rfl

end

/-! ## One group -/

section

variable (runData : IRunData V)

/-- What the runs of the connection's node bring on its output. -/
def ranOn (c : GraphConnection P) :
    Except EngineError (Option (List (INodeExecutionData V) × Nat)) :=
  getIncomingDataFromAnyRun runData c.fromNode.name c.type c.outputIndex

/-- The connection has run data. -/
def brings (c : GraphConnection P) : Bool :=
  match ranOn runData c with
  | .ok (some _) => true
  | _ => false

/-- The table after some connections of a group were added to a slot. -/
structure Added (nodeName : String) (slot : Nat)
    (before : IWaitingForExecution V) (added : List (GraphConnection P))
    (after : IWaitingForExecution V) : Prop where
  keys : ∀ name, (waitingNode after name).keys
    = if nodeName = name ∧ added.any (brings runData) = true
      then (waitingNode before name).keys ++ [slot]
      else (waitingNode before name).keys
  old : ∀ name slot' type inputIndex items source, ¬ (nodeName = name ∧ slot = slot') →
    (HoldsAt after name slot' type inputIndex items source
      ↔ HoldsAt before name slot' type inputIndex items source)
  new : ∀ c ∈ added, ∀ items runIndex, ranOn runData c = .ok (some (items, runIndex)) →
    HoldsAt after nodeName slot c.type c.inputIndex items (sourceOf c slot)

variable {runData} {nodeName : String} {slot : Nat}
  {before after after' : IWaitingForExecution V}
  {added rest : List (GraphConnection P)} {c : GraphConnection P}

theorem addIncoming_cases (h : addIncoming runData nodeName slot before c = .ok after) :
    (brings runData c = false ∧ after = before)
      ∨ ∃ items runIndex, ranOn runData c = .ok (some (items, runIndex))
        ∧ after = addWaitingExecution before nodeName slot c.type c.inputIndex
          items (sourceOf c slot) := by
  obtain ⟨found, hfound, h⟩ := bind_eq_ok.mp h
  rcases found with _ | ⟨items, runIndex⟩
  · cases h
    have hran : ranOn runData c = .ok none := hfound
    exact .inl ⟨by rw [brings, hran], rfl⟩
  · cases h
    exact .inr ⟨items, runIndex, hfound, rfl⟩

theorem brings_of_ranOn {found : List (INodeExecutionData V) × Nat}
    (h : ranOn runData c = .ok (some found)) : brings runData c = true := by
  rw [brings, h]

section

variable (h : Added runData nodeName slot before added after)
  (hfree : slot ∉ (waitingNode before nodeName).keys)
include h hfree

theorem Added.concat (hindex : c.inputIndex ∉ added.map (·.inputIndex))
    (hadd : addIncoming runData nodeName slot after c = .ok after') :
    Added runData nodeName slot before (added ++ [c]) after' := by
  rcases addIncoming_cases hadd with ⟨hnone, rfl⟩ | ⟨items, run, hran, rfl⟩
  · have hany : (added ++ [c]).any (brings runData)
        = added.any (brings runData) := by
      rw [any_append, any_cons, hnone, any_nil, Bool.or_false, Bool.or_false]
    refine ⟨fun name => ?_, h.old, fun d hd items run hran => ?_⟩
    · rw [hany]
      exact h.keys name
    · rcases mem_append.mp hd with hd | hd
      · exact h.new d hd items run hran
      · rw [mem_singleton.mp hd] at hran
        rw [brings_of_ranOn hran] at hnone
        cases hnone
  · have hany : (added ++ [c]).any (brings runData) = true := by
      rw [any_append, any_cons, brings_of_ranOn hran, Bool.true_or, Bool.or_true]
    refine ⟨fun name => ?_, fun name slot' type inputIndex items' source' hne =>
      ?_, fun d hd items' run' hran' => ?_⟩
    · rw [keys_addWaitingExecution, hany, h.keys]
      by_cases hname : nodeName = name
      · subst hname
        by_cases hbefore : added.any (brings runData) = true
        · simp [hbefore]
        · simp [hbefore, hfree]
      · simp [hname]
    · rw [holdsAt_addWaitingExecution, if_neg fun heq => hne heq.1]
      exact h.old name slot' type inputIndex items' source' hne
    · rw [holdsAt_addWaitingExecution]
      rcases mem_append.mp hd with hd | hd
      · rw [if_neg]
        · exact h.new d hd items' run' hran'
        · rintro ⟨-, -, heq⟩
          exact hindex (heq ▸ mem_map_of_mem hd)
      · cases mem_singleton.mp hd
        rw [if_pos ⟨⟨rfl, rfl⟩, rfl, rfl⟩]
        rw [hran] at hran'
        cases hran'
        exact ⟨rfl, rfl⟩

/-- **ONE GROUP**: its connections with run data are in the slot. -/
theorem Added.foldlM (hnodup : ((added ++ rest).map (·.inputIndex)).Nodup)
    (hfold : rest.foldlM (addIncoming runData nodeName slot) after = .ok after') :
    Added runData nodeName slot before (added ++ rest) after' := by
  induction rest generalizing added after with
  | nil =>
    cases hfold
    rw [append_nil]
    exact h
  | cons c rest ih =>
    obtain ⟨next, hnext, hfold⟩ := bind_eq_ok.mp hfold
    rw [append_cons] at hnodup ⊢
    refine ih (h.concat hfree (fun hmem => ?_) hnext) hnodup hfold
    rw [map_append, map_append, append_assoc] at hnodup
    exact (nodup_append.mp hnodup).2.2 _ hmem _ (mem_append_left _ (mem_singleton_self _)) rfl

end

theorem Added.refl (runData : IRunData V) (nodeName : String) (slot : Nat)
    (t : IWaitingForExecution V) :
    Added (P := P) runData nodeName slot t [] t :=
  ⟨fun name => (if_neg fun h => by cases h.2).symm,
    fun _ _ _ _ _ _ _ => Iff.rfl, fun _ hc => by cases hc⟩

end

/-! ## All groups -/

section

variable (runData : IRunData V) (pinData : IPinData V)
  (localeCompare : String → String → Int) (graph : DirectedGraph P)

/-- The incomplete groups of a start node, with its name. -/
def incompleteGroups (startNode : INode P) : List (String × SourceConnectionGroup P) :=
  if ((getConnections graph startNode).filter (·.type = .main)).isEmpty then []
  else
    ((getSourceDataGroups localeCompare graph startNode runData
      pinData).filter fun group => !group.complete).map (startNode.name, ·)

/-- The slot of a group: how many of the groups before it, for the same
    node, have run data. -/
def slotAfter (groups : List (String × SourceConnectionGroup P)) (nodeName : String) : Nat :=
  groups.countP fun p =>
    p.1 = nodeName && p.2.connections.any (brings runData)

/-- Every connection of a group that has pinned data or run data: the data
    are in the slot of the group, and the source names the connection's
    node, its output, and the run the data were taken from. -/
def Attributed (groups : List (String × SourceConnectionGroup P))
    (waitingExecution : IWaitingForExecution V) : Prop :=
  ∀ before nodeName group after, groups = before ++ (nodeName, group) :: after →
    ∀ c ∈ group.connections, ∀ items runIndex, foundBy runData pinData c = some (items, runIndex) →
      HoldsAt waitingExecution nodeName (slotAfter runData before nodeName)
        c.type c.inputIndex items (sourceOf c runIndex)

/-- The data of every connection are run data, and the run is the slot. -/
def FromOwnSlot (groups : List (String × SourceConnectionGroup P)) : Prop :=
  ∀ before nodeName group after, groups = before ++ (nodeName, group) :: after →
    ∀ c ∈ group.connections, ∀ items runIndex,
      foundBy runData pinData c = some (items, runIndex) → brings runData c = true
        ∧ (∀ found, ranOn runData c = .ok (some found) → found.1 = items)
        ∧ runIndex = slotAfter runData before nodeName

/-- The table after some of the groups. -/
structure Filled (groups : List (String × SourceConnectionGroup P))
    (waitingExecution : IWaitingForExecution V) : Prop where
  keys : ∀ name, (waitingNode waitingExecution name).keys
    = List.range (slotAfter runData groups name)
  holds : ∀ before nodeName group after, groups = before ++ (nodeName, group) :: after →
    ∀ c ∈ group.connections, ∀ items runIndex, ranOn runData c = .ok (some (items, runIndex)) →
      HoldsAt waitingExecution nodeName (slotAfter runData before nodeName)
        c.type c.inputIndex items (sourceOf c (slotAfter runData before nodeName))
  fromRuns : ∀ nodeName slot type inputIndex items source,
    HoldsAt waitingExecution nodeName slot type inputIndex items source →
    source.previousNodeRun = some slot
      ∧ ∃ outputIndex runIndex, source.previousNodeOutput = some outputIndex
        ∧ getIncomingDataFromAnyRun runData source.previousNode type
          outputIndex = .ok (some (items, runIndex))

end

section

variable {runData : IRunData V} {pinData : IPinData V}
  {localeCompare : String → String → Int} {graph : DirectedGraph P}
  {groups : List (String × SourceConnectionGroup P)} {startNode : INode P}
  {waitingExecution waitingExecution' : IWaitingForExecution V}

theorem slotAfter_concat (runData : IRunData V) (groups : List (String × SourceConnectionGroup P))
    (nodeName name : String) (group : SourceConnectionGroup P) :
    slotAfter runData (groups ++ [(nodeName, group)]) name
      = slotAfter runData groups name
        + if nodeName = name ∧ group.connections.any (brings runData) = true
          then 1 else 0 := by
  rw [slotAfter, countP_append, countP_singleton]
  simp only [Bool.and_eq_true, decide_eq_true_eq]
  rfl

theorem fromRuns_addIncoming {nodeName : String} {slot : Nat} {c : GraphConnection P}
    (hadd : addIncoming runData nodeName slot waitingExecution c
      = .ok waitingExecution') {name : String} {slot' : Nat}
    {type : NodeConnectionType} {inputIndex : Nat}
    {items : List (INodeExecutionData V)} {source : ISourceData}
    (hholds : HoldsAt waitingExecution' name slot' type inputIndex items source) :
    HoldsAt waitingExecution name slot' type inputIndex items source
      ∨ source.previousNodeRun = some slot'
        ∧ ∃ outputIndex runIndex, source.previousNodeOutput = some outputIndex
          ∧ getIncomingDataFromAnyRun runData source.previousNode type
            outputIndex = .ok (some (items, runIndex)) := by
  rcases addIncoming_cases hadd with ⟨-, rfl⟩ | ⟨items', run, hran, rfl⟩
  · exact .inl hholds
  rw [holdsAt_addWaitingExecution] at hholds
  split at hholds
  · next hplace =>
      obtain ⟨⟨-, rfl⟩, rfl, -⟩ := hplace
      obtain ⟨rfl, rfl⟩ := hholds
      exact .inr ⟨rfl, c.outputIndex, run, rfl, hran⟩
  · exact .inl hholds

theorem slotAfter_lt {before after : List (String × SourceConnectionGroup P)}
    {nodeName : String} {group : SourceConnectionGroup P}
    {c : GraphConnection P} (hc : c ∈ group.connections)
    (hbrings : brings runData c = true) :
    slotAfter runData before nodeName
      < slotAfter runData (before ++ (nodeName, group) :: after) nodeName := by
  have hany : group.connections.any (brings runData) = true := any_eq_true.mpr ⟨c, hc, hbrings⟩
  rw [append_cons, slotAfter, slotAfter, countP_append]
  have hconcat := slotAfter_concat runData before nodeName nodeName group
  rw [if_pos ⟨rfl, hany⟩, slotAfter, slotAfter] at hconcat
  omega

theorem Filled.empty : Filled (P := P) runData [] .empty := by
  refine ⟨fun name => rfl, fun before nodeName group after heq => ?_,
    fun nodeName slot type inputIndex items source h => ?_⟩
  · exact absurd heq (by simp)
  · exact absurd h.data (by simp [slotIn, entryAt, waitingNode, slotAt,
      OrderedMap.get?, OrderedMap.empty, findKey])

/-- **ONE INCOMPLETE GROUP** gets the slot that comes next. -/
theorem Filled.group {nodeName : String} {group : SourceConnectionGroup P}
    (h : Filled runData groups waitingExecution)
    (hnodup : (group.connections.map (·.inputIndex)).Nodup)
    (hfold : group.connections.foldlM (addIncoming runData nodeName
        (waitingNode waitingExecution nodeName).entries.length)
      waitingExecution = .ok waitingExecution') :
    Filled runData (groups ++ [(nodeName, group)]) waitingExecution' := by
  have hslot : (waitingNode waitingExecution nodeName).entries.length
      = slotAfter runData groups nodeName := by
    have hlength := congrArg List.length (h.keys nodeName)
    rwa [length_range, OrderedMap.keys, length_map] at hlength
  rw [hslot] at hfold
  have hfree : slotAfter runData groups nodeName
      ∉ (waitingNode waitingExecution nodeName).keys := by
    rw [h.keys]
    exact fun hmem => Nat.lt_irrefl _ (mem_range.mp hmem)
  have hadded := (Added.refl runData nodeName
    (slotAfter runData groups nodeName) waitingExecution).foldlM hfree hnodup hfold
  rw [nil_append] at hadded
  refine ⟨fun name => ?_, fun before nodeName' group' after heq => ?_,
    fun name slot type inputIndex items source hholds => ?_⟩
  · rw [hadded.keys, slotAfter_concat, h.keys]
    by_cases hnew : nodeName = name ∧ group.connections.any (brings runData) = true
    · obtain ⟨rfl, -⟩ := id hnew
      rw [if_pos hnew, if_pos hnew, range_succ]
    · rw [if_neg hnew, if_neg hnew, Nat.add_zero]
  · intro c hc items runIndex hran
    rcases eq_nil_or_concat after with rfl | ⟨between, last, rfl⟩
    · obtain ⟨rfl, hlast⟩ := append_inj' heq rfl
      cases hlast
      exact hadded.new c hc items runIndex hran
    · rw [concat_eq_append, ← cons_append, ← append_assoc] at heq
      obtain ⟨rfl, -⟩ := append_inj' heq rfl
      have hlt : slotAfter runData before nodeName' < slotAfter runData
          (before ++ (nodeName', group') :: between) nodeName' :=
        slotAfter_lt hc (brings_of_ranOn hran)
      refine (hadded.old _ _ _ _ _ _ ?_).mpr
        (h.holds before nodeName' group' between rfl c hc items runIndex hran)
      rintro ⟨rfl, hsame⟩
      exact Nat.ne_of_gt hlt hsame
  · refine foldlM_preserves (I := fun t : IWaitingForExecution V =>
      ∀ name slot type inputIndex items source, HoldsAt t name slot type inputIndex items source →
        source.previousNodeRun = some slot
          ∧ ∃ outputIndex runIndex, source.previousNodeOutput = some outputIndex
            ∧ getIncomingDataFromAnyRun runData source.previousNode type
              outputIndex = .ok (some (items, runIndex)))
      (fun t c t' ht hadd name slot type inputIndex items source hholds => ?_)
      h.fromRuns hfold name slot type inputIndex items source hholds
    exact (fromRuns_addIncoming hadd hholds).elim (ht name slot type inputIndex items source) id

theorem nodup_inputIndex {group : SourceConnectionGroup P}
    (h : group ∈ getSourceDataGroups localeCompare graph startNode runData
      pinData) : (group.connections.map (·.inputIndex)).Nodup := by
  rw [getSourceDataGroups] at h
  split at h
  · cases h
  · obtain ⟨first, hconsecutive⟩ :=
      (loop_groupFuel (Nat.le_refl _)).consecutive _ rfl rfl group h
    rw [hconsecutive]
    exact nodup_range'

section

variable {recreated : Recreated P V} (h : Filled runData groups recreated.waitingExecution)
include h

/-- **ONE START NODE**: its incomplete groups get their slots in order. -/
theorem Filled.foldlM_recreateGroup {recreated' : Recreated P V}
    {nodeGroups : List (SourceConnectionGroup P)}
    (hnodup : ∀ group ∈ nodeGroups, (group.connections.map (·.inputIndex)).Nodup)
    (hfold : nodeGroups.foldlM (recreateGroup runData pinData startNode)
      recreated = .ok recreated') :
    Filled runData (groups ++ (nodeGroups.filter fun group =>
        !group.complete).map (startNode.name, ·))
      recreated'.waitingExecution := by
  induction nodeGroups generalizing groups recreated with
  | nil =>
    cases hfold
    rw [filter_nil, map_nil, append_nil]
    exact h
  | cons group rest ih =>
    obtain ⟨hgroup, hrest⟩ := forall_mem_cons.mp hnodup
    obtain ⟨next, hnext, hfold⟩ := bind_eq_ok.mp hfold
    rw [recreateGroup] at hnext
    by_cases hcomplete : group.complete = true
    · rw [if_pos hcomplete] at hnext
      obtain ⟨incoming, -, hnext⟩ := bind_eq_ok.mp hnext
      have hkept : Filled runData groups next.waitingExecution := by
        cases hnext
        exact h
      rw [filter_cons_of_neg (by simpa using hcomplete)]
      exact ih hkept hrest hfold
    · rw [if_neg hcomplete] at hnext
      obtain ⟨waitingExecution, hadd, hnext⟩ := bind_eq_ok.mp hnext
      have hnew : Filled runData (groups ++ [(startNode.name, group)]) next.waitingExecution := by
        cases hnext
        exact h.group hgroup hadd
      rw [filter_cons_of_pos (by simpa using hcomplete), map_cons, append_cons]
      exact ih hnew hrest hfold

theorem Filled.recreateStartNode {recreated' : Recreated P V}
    (hnode : recreateStartNode runData pinData localeCompare graph recreated
      startNode = .ok recreated') :
    Filled runData (groups ++ incompleteGroups runData pinData localeCompare graph startNode)
      recreated'.waitingExecution := by
  obtain ⟨connections, hconnections, hnode⟩ := bind_eq_ok.mp hnode
  unfold getDirectParentConnections at hconnections
  split at hconnections
  · cases hconnections
    unfold incompleteGroups
    by_cases hnone : ((getConnections graph startNode).filter (·.type = .main)).isEmpty = true
    · rw [if_pos hnone] at hnode ⊢
      cases hnode
      rw [append_nil]
      exact h
    · rw [if_neg hnone] at hnode ⊢
      exact h.foldlM_recreateGroup (fun group => nodup_inputIndex) hnode
  · cases hconnections

end

/-- **THE WAITING TABLE** holds what the incomplete groups brought. -/
theorem filled_of_recreated {startNodes : List (INode P)} {recreated : Recreated P V}
    (h : recreateNodeExecutionStack runData pinData localeCompare graph
      startNodes = .ok recreated) :
    Filled runData (startNodes.flatMap (incompleteGroups runData pinData localeCompare graph))
      recreated.waitingExecution := by
  have hfold : ∀ (nodes : List (INode P)) (groups : List (String × SourceConnectionGroup P))
      (start : Recreated P V), Filled runData groups start.waitingExecution →
      nodes.foldlM (N8nPartialExecution.recreateStartNode runData pinData
        localeCompare graph) start = .ok recreated →
      Filled runData (groups ++ nodes.flatMap
          (incompleteGroups runData pinData localeCompare graph)) recreated.waitingExecution := by
    intro nodes
    induction nodes with
    | nil =>
      intro groups start hstart hnodes
      cases hnodes
      rw [flatMap_nil, append_nil]
      exact hstart
    | cons node rest ih =>
      intro groups start hstart hnodes
      obtain ⟨next, hnext, hnodes⟩ := bind_eq_ok.mp hnodes
      rw [flatMap_cons, ← append_assoc]
      exact ih _ next (hstart.recreateStartNode hnext) hnodes
  rw [recreateNodeExecutionStack] at h
  split at h
  · cases h
  · exact hfold startNodes [] _ Filled.empty h

/-! ## Attribution -/

end

/-- A node with two inputs of which only the first source has data. -/
def halfConnected : DirectedGraph Unit := graphInto [("First", 0), ("Second", 1)]

/-- What is recreated for it from run data and pinned data. -/
def recreatedHalf (runData : IRunData Unit) (pinData : IPinData Unit) : Recreated Unit Unit :=
  match recreateNodeExecutionStack runData pinData (fun _ _ => 0)
      halfConnected [plainNode "Merge"] with
  | .ok recreated => recreated
  | .error _ => { nodeExecutionStack := [], waitingExecution := .empty }

/-- The group of the two connections. -/
def halfGroup : SourceConnectionGroup Unit :=
  { complete := false, connections := halfConnected.connections }

def firstPinned : IPinData Unit :=
  OrderedMap.empty.set "First" [{ json := .empty, pairedItem := none }]

end N8nWaitingAttribution
