import N8n.WorkflowExecuteProofs

/-! # Paired items — following an item back to the node it came from

    `getPairedItem` starts at an item of a node's output and follows its
    paired items, each to an item of an earlier node, until it comes to an
    output of the destination.  The branches of one item are tried one by
    one, and what they throw is caught.

    A call looks at the output of the node before it in a fixed order: is it
    there, is the node the destination, what does the item refer to.  There
    is one `run_` lemma for each way this can go, and what follows is proved
    from these.  `documented_iff` tells when a call and those it makes end as
    they are meant to, with an item or one of the errors for expressions. -/

namespace N8nPairedItem

open Relation N8nOrderedMap List
open N8nWorkflowExecute (ISourceData)

/-! ## Run data -/

/-- An index comes from the output of a node and can be any number. -/
structure IPairedItemData where
  item : Int
  input : Option Int
  sourceOverwrite : Option ISourceData
deriving DecidableEq

/-- `number | IPairedItemData`. -/
inductive PairedItem where
  | number (item : Int)
  | data (pairedItem : IPairedItemData)

/-- The `pairedItem` of an item: `null` or `undefined`, one, or many. -/
inductive PairedItems where
  | missing
  | one (paired : PairedItem)
  | many (paired : List PairedItem)

/-- The main outputs of a run, and what its inputs came from. -/
structure ITaskData (I : Type) where
  main : Option (List (Option (List I)))
  source : List (Option ISourceData)

/-- What the proxy reads.  An item is a reference to an object; two items are
    the same if they are one object. -/
structure WorkflowDataProxy (I : Type) where
  runData : OrderedMap String (List (ITaskData I))
  getPinDataIfManualExecution : String → Option (List I)
  isScriptingNode : String → Bool
  activeNodeName : String
  pairedItem : I → PairedItems

/-! ## Errors -/

structure ExpressionError where
  message : String
  messageTemplate : Option String
  description : Option String
  descriptionKey : Option String
  functionality : Option String
  nodeCause : Option String
  causeDetailed : Option String
  type : String
deriving DecidableEq

/-- What a call can throw; the stack of calls has a limit. -/
inductive Thrown where
  | expressionError (error : ExpressionError)
  | typeError
  | rangeError
deriving DecidableEq

/-- `array[index]`. -/
def elementAt {α : Type} (array : List α) (index : Int) : Option α :=
  if 0 ≤ index then array[index.toNat]? else none

section

variable {I : Type} (that : WorkflowDataProxy I)

def moreInfo : String :=
  " <a target=\"_blank\" href=\"https://docs.n8n.io/data/data-mapping/"
    ++ "data-item-linking/item-linking-errors/\">More info</a>"

/-- The function overrides are for a scripting node; a node that is pinned
    is to be unpinned. -/
def createExpressionError (error : ExpressionError)
    (functionOverrides : Option String) (moreInfoLink : Bool) :
    ExpressionError :=
  let error :=
    match functionOverrides with
    | some message =>
      if that.isScriptingNode that.activeNodeName then
        { error with message, messageTemplate := none }
      else error
    | none => error
  -- the empty name is no cause
  match error.nodeCause.filter (· ≠ "") with
  | none => error
  | some nodeName =>
    let pinned := (that.getPinDataIfManualExecution nodeName).isSome
    let error :=
      if pinned then
        { error with
          message := "Unpin '" ++ nodeName ++ "' to execute"
          messageTemplate := none
          descriptionKey := some "pairedItemPinned" }
      else error
    if moreInfoLink && (pinned || that.isScriptingNode nodeName) then
      { error with
        description := some (error.description.getD "undefined" ++ moreInfo) }
    else error

def createMissingPairedItemError (nodeCause usedMethodName : String) : ExpressionError :=
  { message :=
      if (that.getPinDataIfManualExecution nodeCause).isSome then
        "Using the " ++ usedMethodName ++ " method doesn't work with pinned"
          ++ " data in this scenario. Please unpin '" ++ nodeCause
          ++ "' and try again."
      else
        "Paired item data for " ++ usedMethodName ++ " from node '"
          ++ nodeCause ++ "' is unavailable. Ensure '" ++ nodeCause
          ++ "' is providing the required output."
    messageTemplate := none
    description := none
    descriptionKey :=
      if that.isScriptingNode nodeCause then some "pairedItemNoInfoCodeNode"
      else some "pairedItemNoInfo"
    functionality := some "pairedItem"
    nodeCause := some nodeCause
    causeDetailed := some ("Missing pairedItem data (node '" ++ nodeCause
      ++ "' probably didn't supply it)")
    type := "paired_item_no_info" }

def createNoConnectionError (nodeCause : String) : ExpressionError :=
  createExpressionError that
    { message := "Invalid expression"
      messageTemplate := some "No path back to referenced node"
      description := none
      descriptionKey :=
        if that.isScriptingNode nodeCause then
          some "pairedItemNoConnectionCodeNode"
        else some "pairedItemNoConnection"
      functionality := some "pairedItem"
      nodeCause := some nodeCause
      causeDetailed := none
      type := "paired_item_no_connection" } none true

def createBranchNotFoundError (node : String) (item : Int)
    (cause : Option String) : ExpressionError :=
  createExpressionError that
    { message := "Branch not found"
      messageTemplate := some "Paired item references non-existent branch"
      description := some ("Item " ++ toString item ++ " in node " ++ node
        ++ " references a branch that doesn't exist.")
      descriptionKey := none
      functionality := some "pairedItem"
      nodeCause := cause
      causeDetailed := none
      type := "paired_item_invalid_info" } (some "Invalid branch reference") false

def createPairedItemNotFound (destNode : String) (cause : Option String) : ExpressionError :=
  createExpressionError that
    { message := "Paired item resolution failed"
      messageTemplate := some "Unable to find paired item source"
      description := some ("Could not trace back to node '" ++ destNode ++ "'")
      descriptionKey := none
      functionality := some "pairedItem"
      nodeCause := cause
      causeDetailed := none
      type := "paired_item_no_info" } (some "Data not found") true

def createPairedItemMultipleItemsFound (destNode : String) (itemIndex : Int) : ExpressionError :=
  createExpressionError that
    { message := "Multiple matches found"
      messageTemplate := some ("Multiple matching items for item [" ++ toString itemIndex ++ "]")
      description := none
      descriptionKey :=
        if that.isScriptingNode destNode then
          some "pairedItemMultipleMatchesCodeNode"
        else some "pairedItemMultipleMatches"
      functionality := some "pairedItem"
      nodeCause := some destNode
      causeDetailed := none
      type := "paired_item_multiple_matches" } (some "Multiple matches") false

def createMissingOutputError (source : ISourceData) (nodeCause : Option String) : ExpressionError :=
  createExpressionError that
    { message := "Can’t get data for expression"
      messageTemplate := some "Missing output data"
      description := some ("Expected output #"
        ++ toString (source.previousNodeOutput.getD 0) ++ " from node "
        ++ source.previousNode)
      descriptionKey := none
      functionality := none
      nodeCause
      causeDetailed := none
      type := "internal" } (some "Missing output") false

theorem type_createExpressionError (error : ExpressionError)
    (functionOverrides : Option String) (moreInfoLink : Bool) :
    (createExpressionError that error functionOverrides moreInfoLink).type = error.type := by
  have hoverride : (match functionOverrides with
      | some message =>
        if that.isScriptingNode that.activeNodeName then
          { error with message, messageTemplate := none }
        else error
      | none => error).type = error.type := by
    cases functionOverrides with
    | none => rfl
    | some message =>
      simp only []
      split <;> rfl
  simp only [createExpressionError]
  split
  · exact hoverride
  · split <;> split <;> exact hoverride

end

/-! ## The search -/

section

variable {I : Type} [DecidableEq I] (that : WorkflowDataProxy I)

def normalizeInputs (pairedItem : PairedItem)
    (sourceData : Option ISourceData) : IPairedItemData × Option ISourceData :=
  let pairedItem :=
    match pairedItem with
    | .number item => ⟨item, none, none⟩
    | .data pairedItem => pairedItem
  (pairedItem, pairedItem.sourceOverwrite <|> sourceData)

def pinDataToTask (pinData : Option (List I)) : Option (ITaskData I) :=
  pinData.map fun items => { main := some [some items], source := [] }

def getTaskData (source : ISourceData) : Option (ITaskData I) :=
  ((that.runData.get? source.previousNode).bind fun runs => runs[source.previousNodeRun.getD 0]?)
    <|> pinDataToTask (that.getPinDataIfManualExecution source.previousNode)

/-- `taskData?.data?.main?.[outputIndex]`. -/
def outputOf (taskData : Option (ITaskData I)) (source : ISourceData) : Option (List I) :=
  (taskData.bind ITaskData.main).bind fun main => main[source.previousNodeOutput.getD 0]?.join

def getNodeOutput (taskData : Option (ITaskData I)) (source : ISourceData)
    (nodeCause : Option String) : Except Thrown (List I) :=
  match outputOf taskData source with
  | some outputs => .ok outputs
  | none => .error (.expressionError (createMissingOutputError that source nodeCause))

def normalizePairedItem (paired : PairedItems) : List IPairedItemData :=
  let pairedItems :=
    match paired with
    | .missing => []
    | .one paired => [paired]
    | .many paired => paired
  pairedItems.map fun p =>
    match p with
    | .number item => ⟨item, none, none⟩
    | .data pairedItem => pairedItem

/-- The source of a reference: its own, or the one of its input. -/
def nextSource (sourceArray : List (Option ISourceData))
    (nextPairedItem : IPairedItemData) : Option ISourceData :=
  nextPairedItem.sourceOverwrite <|> (elementAt sourceArray (nextPairedItem.input.getD 0)).join

def resultOk {I : Type} : Except Thrown (Option I) → Option (Option I)
  | .ok result => some result
  | .error _ => none

/-- What the results of the branches come to.  `results[0].error` is a
    `TypeError` if there is no result. -/
def settle (destinationNodeName : String) (source : ISourceData)
    (sourceArray : List (Option ISourceData)) (item : Int)
    (nodeBeforeLast : Option String) (results : List (Except Thrown (Option I))) :
    Except Thrown (Option I) :=
  if results.all fun result => (resultOk result).isNone then
    match results with
    | .error thrown :: _ => .error thrown
    | _ => .error .typeError
  else
    match results.filterMap resultOk with
    | [] =>
      if sourceArray.length = 0 then
        .error (.expressionError (createNoConnectionError that destinationNodeName))
      else
        .error (.expressionError
          (createBranchNotFoundError that source.previousNode item nodeBeforeLast))
    | first :: rest =>
      if rest.any fun r => decide (r ≠ first) then
        .error (.expressionError (createPairedItemMultipleItemsFound that destinationNodeName item))
      else .ok first

/-- The first number is the room left on the stack of calls. -/
def getPairedItem (destinationNodeName usedMethodName : String) :
    Nat → Option ISourceData → PairedItem → Option String → Except Thrown (Option I)
  | 0, _, _, _ => .error .rangeError
  | stack + 1, incomingSourceData, initialPairedItem, nodeBeforeLast =>
    let (pairedItem, sourceData) := normalizeInputs initialPairedItem incomingSourceData
    match sourceData with
    | none =>
      .error (.expressionError (createPairedItemNotFound that destinationNodeName nodeBeforeLast))
    | some sourceData =>
      let taskData := getTaskData that sourceData
      match getNodeOutput that taskData sourceData nodeBeforeLast with
      | .error thrown => .error thrown
      | .ok outputData =>
        let item := elementAt outputData pairedItem.item
        let sourceArray := (taskData.map ITaskData.source).getD []
        if sourceData.previousNode = destinationNodeName then
          if (outputData.length : Int) ≤ pairedItem.item then
            .error (.expressionError
              (createMissingPairedItemError that sourceData.previousNode usedMethodName))
          else .ok item
        else
          match item with
          | none => .error .typeError
          | some item =>
            let nextPairedItems := normalizePairedItem (that.pairedItem item)
            if nextPairedItems.length = 0 then
              .error (.expressionError
                (createMissingPairedItemError that sourceData.previousNode usedMethodName))
            else
              settle that destinationNodeName sourceData sourceArray pairedItem.item nodeBeforeLast
                (nextPairedItems.filterMap fun nextPairedItem =>
                  let inputIndex := nextPairedItem.input.getD 0
                  if (sourceArray.length : Int) ≤ inputIndex then none
                  else some (getPairedItem destinationNodeName
                    usedMethodName stack (nextSource sourceArray nextPairedItem)
                    (.data { nextPairedItem with
                      input := some inputIndex })
                    (some sourceData.previousNode)))

end

/-! ## What settling comes to -/

section

variable {I : Type}

variable {y : Option I}

theorem resultOk_eq_some {result : Except Thrown (Option I)} :
    resultOk result = some y ↔ result = .ok y := by
  cases result <;> simp [resultOk]

variable {results : List (Except Thrown (Option I))}

theorem mem_matchedItems : y ∈ results.filterMap resultOk ↔ .ok y ∈ results := by
  simp [mem_filterMap, resultOk_eq_some]

theorem all_isNone_iff : (results.all fun result => (resultOk result).isNone) = true
      ↔ results.filterMap resultOk = [] := by
  simp [filterMap_eq_nil_iff]

variable [DecidableEq I] (that : WorkflowDataProxy I)
  (destinationNodeName : String) (source : ISourceData)
  (sourceArray : List (Option ISourceData)) (item : Int) (nodeBeforeLast : Option String)

theorem settle_matched {first : Option I} {rest : List (Option I)}
    (hmatched : results.filterMap resultOk = first :: rest) :
    settle that destinationNodeName source sourceArray item nodeBeforeLast results
      = if ∃ r ∈ rest, r ≠ first then
          .error (.expressionError
            (createPairedItemMultipleItemsFound that destinationNodeName item))
        else .ok first := by
  have hsome : ¬ (results.all fun result => (resultOk result).isNone)
      = true := by
    rw [all_isNone_iff, hmatched]
    exact cons_ne_nil _ _
  unfold settle
  rw [if_neg hsome, hmatched]
  simp

theorem settle_failed (hfailed : ∀ y, .ok y ∉ results) :
    settle that destinationNodeName source sourceArray item nodeBeforeLast results
      = results.head?.getD (.error .typeError) := by
  have hnone : (results.all fun result => (resultOk result).isNone)
      = true := by
    rw [all_isNone_iff, eq_nil_iff_forall_not_mem]
    exact fun y hy => hfailed y (mem_matchedItems.mp hy)
  unfold settle
  rw [if_pos hnone]
  cases results with
  | nil => rfl
  | cons result rest =>
    cases result with
    | error thrown => rfl
    | ok y => exact absurd (mem_cons_self ..) (hfailed y)

/-- A result is given if every branch with one gives it. -/
theorem settle_eq_ok :
    settle that destinationNodeName source sourceArray item nodeBeforeLast results = .ok y
      ↔ .ok y ∈ results ∧ ∀ z, .ok z ∈ results → z = y := by
  constructor
  · intro hok
    by_cases hfailed : ∀ z, .ok z ∉ results
    · rw [settle_failed _ _ _ _ _ _ hfailed] at hok
      cases results with
      | nil => cases hok
      | cons result rest =>
        cases hok
        exact absurd (mem_cons_self ..) (hfailed y)
    · push Not at hfailed
      obtain ⟨z, hz⟩ := hfailed
      rw [← mem_matchedItems] at hz
      cases hmatched : results.filterMap resultOk with
      | nil =>
        rw [hmatched] at hz
        exact absurd hz not_mem_nil
      | cons first rest =>
        rw [settle_matched _ _ _ _ _ _ hmatched] at hok
        split at hok
        · cases hok
        · rename_i hsame
          cases hok
          push Not at hsame
          simp only [← mem_matchedItems, hmatched, mem_cons]
          exact ⟨Or.inl trivial, fun z hz => hz.elim id (hsame z)⟩
  · rintro ⟨hy, hall⟩
    rw [← mem_matchedItems] at hy
    simp only [← mem_matchedItems] at hall
    cases hmatched : results.filterMap resultOk with
    | nil =>
      rw [hmatched] at hy
      exact absurd hy not_mem_nil
    | cons first rest =>
      rw [hmatched] at hall
      have hfirst : first = y := hall first (mem_cons_self ..)
      rw [settle_matched _ _ _ _ _ _ hmatched, if_neg, hfirst]
      rintro ⟨r, hr, hne⟩
      exact hne ((hall r (mem_cons_of_mem _ hr)).trans hfirst.symm)

theorem settle_conflict {z : Option I} (hy : .ok y ∈ results) (hz : .ok z ∈ results) (hne : y ≠ z) :
    settle that destinationNodeName source sourceArray item nodeBeforeLast results
      = .error (.expressionError
          (createPairedItemMultipleItemsFound that destinationNodeName item)) := by
  rw [← mem_matchedItems] at hy hz
  cases hmatched : results.filterMap resultOk with
  | nil =>
    rw [hmatched] at hy
    exact absurd hy not_mem_nil
  | cons first rest =>
    rw [settle_matched _ _ _ _ _ _ hmatched, if_pos]
    rw [hmatched, mem_cons] at hy hz
    by_contra hsame
    push Not at hsame
    have hy' : y = first := hy.elim id (hsame y)
    have hz' : z = first := hz.elim id (hsame z)
    exact hne (hy'.trans hz'.symm)

end

/-! ## Calls -/

/-- What differs from one call of a search to the next. -/
structure Call where
  stack : Nat
  incomingSourceData : Option ISourceData
  initialPairedItem : PairedItem
  nodeBeforeLast : Option String

namespace Call

/-- The index of the item the call is for. -/
def item (call : Call) : Int :=
  (normalizeInputs call.initialPairedItem call.incomingSourceData).1.item

/-- The run it looks at. -/
def sourceData (call : Call) : Option ISourceData :=
  (normalizeInputs call.initialPairedItem call.incomingSourceData).2

end Call

section

variable {I : Type} (that : WorkflowDataProxy I)

def sourceArrayOf (source : ISourceData) : List (Option ISourceData) :=
  ((getTaskData that source).map ITaskData.source).getD []

/-- The items a call finds, and the run they are an output of. -/
def Finds (call : Call) (source : ISourceData) (outputData : List I) : Prop :=
  call.stack ≠ 0 ∧ call.sourceData = some source
    ∧ outputOf (getTaskData that source) source = some outputData

/-- The call for a reference of an item of a run. -/
def nextCall (stack : Nat) (source : ISourceData) (nextPairedItem : IPairedItemData) : Call where
  stack := stack
  incomingSourceData := nextSource (sourceArrayOf that source) nextPairedItem
  initialPairedItem := .data { nextPairedItem with input := some (nextPairedItem.input.getD 0) }
  nodeBeforeLast := some source.previousNode

/-- The source has the input that is referred to. -/
def Kept (source : ISourceData) (nextPairedItem : IPairedItemData) : Prop :=
  nextPairedItem.input.getD 0 < (sourceArrayOf that source).length

instance (source : ISourceData) (nextPairedItem : IPairedItemData) :
    Decidable (Kept that source nextPairedItem) :=
  inferInstanceAs (Decidable (_ < _))

/-- The calls that are made for the references of an item. -/
def callsOf (stack : Nat) (source : ISourceData) (item : I) : List Call :=
  ((normalizePairedItem (that.pairedItem item)).filter
    fun next => decide (Kept that source next)).map (nextCall that stack source)

variable {source : ISourceData}

theorem callsOf_ne_nil {item : I} (stack : Nat) :
    callsOf that stack source item ≠ []
      ↔ ∃ next ∈ normalizePairedItem (that.pairedItem item), Kept that source next := by
  simp [callsOf]

variable [DecidableEq I] (destinationNodeName usedMethodName : String)

def run (call : Call) : Except Thrown (Option I) :=
  getPairedItem that destinationNodeName usedMethodName call.stack
    call.incomingSourceData call.initialPairedItem call.nodeBeforeLast

theorem map_run_callsOf (stack : Nat) (source : ISourceData) (item : I) :
    ((normalizePairedItem (that.pairedItem item)).filterMap fun nextPairedItem =>
          let inputIndex := nextPairedItem.input.getD 0
          if ((sourceArrayOf that source).length : Int) ≤ inputIndex then none
          else some (getPairedItem that destinationNodeName usedMethodName
            stack (nextSource (sourceArrayOf that source) nextPairedItem)
            (.data { nextPairedItem with input := some inputIndex }) (some source.previousNode)))
      = (callsOf that stack source item).map (run that destinationNodeName usedMethodName) := by
  rw [callsOf, List.map_map, ← List.filterMap_eq_map, List.filterMap_filter]
  refine List.filterMap_congr fun next _ => ?_
  by_cases hkept : Kept that source next
  · simp only [if_neg (not_le.mpr hkept), hkept, decide_true, if_true]
    rfl
  · simp [if_pos (not_lt.mp hkept), hkept]

variable {call : Call}

theorem run_zero (hstack : call.stack = 0) :
    run that destinationNodeName usedMethodName call = .error .rangeError := by
  rw [run, hstack, getPairedItem]

/-- What a call looks at, in order. -/
theorem run_succ {stack : Nat} (hstack : call.stack = stack + 1) :
    run that destinationNodeName usedMethodName call
      = match call.sourceData with
        | none =>
          .error (.expressionError (createPairedItemNotFound that
            destinationNodeName call.nodeBeforeLast))
        | some source =>
          match outputOf (getTaskData that source) source with
          | none =>
            .error (.expressionError (createMissingOutputError that source call.nodeBeforeLast))
          | some outputData =>
            if source.previousNode = destinationNodeName then
              if (outputData.length : Int) ≤ call.item then
                .error (.expressionError (createMissingPairedItemError
                  that source.previousNode usedMethodName))
              else .ok (elementAt outputData call.item)
            else
              match elementAt outputData call.item with
              | none => .error .typeError
              | some item =>
                if (normalizePairedItem (that.pairedItem item)).length
                    = 0 then
                  .error (.expressionError (createMissingPairedItemError
                    that source.previousNode usedMethodName))
                else
                  settle that destinationNodeName source
                    (sourceArrayOf that source) call.item call.nodeBeforeLast
                    ((callsOf that stack source item).map
                      (run that destinationNodeName usedMethodName)) := by
  rw [run, hstack, getPairedItem, Call.sourceData, Call.item]
  cases hsource : (normalizeInputs call.initialPairedItem call.incomingSourceData).2 with
  | none => simp only [hsource]
  | some source =>
    cases houtput : outputOf (getTaskData that source) source with
    | none => simp only [hsource, getNodeOutput, houtput]
    | some outputData =>
      simp only [hsource, getNodeOutput, houtput]
      split
      · rfl
      · cases elementAt outputData (normalizeInputs call.initialPairedItem
          call.incomingSourceData).1.item with
        | none => rfl
        | some item =>
          simp only []
          split
          · rfl
          · congr 1
            exact map_run_callsOf that _ _ stack source item

theorem run_noSource (hstack : call.stack ≠ 0) (hsource : call.sourceData = none) :
    run that destinationNodeName usedMethodName call
      = .error (.expressionError (createPairedItemNotFound that
          destinationNodeName call.nodeBeforeLast)) := by
  obtain ⟨stack, hstack⟩ := Nat.exists_eq_succ_of_ne_zero hstack
  rw [run_succ that _ _ hstack, hsource]

theorem run_noOutput (hstack : call.stack ≠ 0) (hsource : call.sourceData = some source)
    (houtput : outputOf (getTaskData that source) source = none) :
    run that destinationNodeName usedMethodName call
      = .error (.expressionError (createMissingOutputError that source call.nodeBeforeLast)) := by
  obtain ⟨stack, hstack⟩ := Nat.exists_eq_succ_of_ne_zero hstack
  rw [run_succ that _ _ hstack, hsource]
  simp [houtput]

variable {outputData : List I}

theorem run_destination (hfinds : Finds that call source outputData)
    (hdest : source.previousNode = destinationNodeName) :
    run that destinationNodeName usedMethodName call
      = if (outputData.length : Int) ≤ call.item then
          .error (.expressionError (createMissingPairedItemError that
            source.previousNode usedMethodName))
        else .ok (elementAt outputData call.item) := by
  obtain ⟨hstack, hsource, houtput⟩ := hfinds
  obtain ⟨stack, hstack⟩ := Nat.exists_eq_succ_of_ne_zero hstack
  rw [run_succ that _ _ hstack, hsource]
  simp [houtput, if_pos hdest]

section

variable (hfinds : Finds that call source outputData)
  (hdest : source.previousNode ≠ destinationNodeName)
include hfinds hdest

theorem run_noItem (hitem : elementAt outputData call.item = none) :
    run that destinationNodeName usedMethodName call = .error .typeError := by
  obtain ⟨hstack, hsource, houtput⟩ := hfinds
  obtain ⟨stack, hstack⟩ := Nat.exists_eq_succ_of_ne_zero hstack
  rw [run_succ that _ _ hstack, hsource]
  simp [houtput, if_neg hdest, hitem]

theorem run_noReference {item : I} (hitem : elementAt outputData call.item = some item)
    (hnone : normalizePairedItem (that.pairedItem item) = []) :
    run that destinationNodeName usedMethodName call
      = .error (.expressionError (createMissingPairedItemError that
          source.previousNode usedMethodName)) := by
  obtain ⟨hstack, hsource, houtput⟩ := hfinds
  obtain ⟨stack, hstack⟩ := Nat.exists_eq_succ_of_ne_zero hstack
  rw [run_succ that _ _ hstack, hsource]
  simp [houtput, if_neg hdest, hitem, hnone]

end

theorem run_references {item : I} {stack : Nat} (hstack : call.stack = stack + 1)
    (hfinds : Finds that call source outputData) (hdest : source.previousNode ≠ destinationNodeName)
    (hitem : elementAt outputData call.item = some item)
    (hsome : normalizePairedItem (that.pairedItem item) ≠ []) :
    run that destinationNodeName usedMethodName call
      = settle that destinationNodeName source (sourceArrayOf that source)
          call.item call.nodeBeforeLast
          ((callsOf that stack source item).map (run that destinationNodeName usedMethodName)) := by
  obtain ⟨-, hsource, houtput⟩ := hfinds
  have hlength : (normalizePairedItem (that.pairedItem item)).length ≠ 0 :=
    fun h => hsome (length_eq_zero_iff.mp h)
  rw [run_succ that _ _ hstack, hsource]
  simp only [houtput, if_neg hdest, hitem, if_neg hlength]

end

/-! ## Ending as it is meant to -/

section

variable {I : Type} [DecidableEq I] (that : WorkflowDataProxy I)
  (destinationNodeName usedMethodName : String)

/-- One call makes another, for a reference of its item. -/
def Makes (call next : Call) : Prop :=
  ∃ stack source outputData item, call.stack = stack + 1
    ∧ Finds that call source outputData
    ∧ source.previousNode ≠ destinationNodeName
    ∧ elementAt outputData call.item = some item
    ∧ next ∈ callsOf that stack source item

/-- The call gives an item or throws one of the errors for expressions. -/
def Documented (call : Call) : Prop :=
  (∃ x, run that destinationNodeName usedMethodName call = .ok (some x))
    ∨ ∃ error, run that destinationNodeName usedMethodName call = .error (.expressionError error)

/-- There is room for the call.  At the destination its index is not
    negative; elsewhere its item is there and, if it refers to anything, it
    refers to an input the run has. -/
def Safe (call : Call) : Prop :=
  call.stack ≠ 0
    ∧ ∀ source outputData, Finds that call source outputData →
        if source.previousNode = destinationNodeName then 0 ≤ call.item
        else ∃ item, elementAt outputData call.item = some item
          ∧ (normalizePairedItem (that.pairedItem item) = []
              ∨ ∃ next ∈ normalizePairedItem (that.pairedItem item), Kept that source next)

theorem elementAt_isSome {α : Type} {array : List α} {index : Int}
    (hlow : 0 ≤ index) (hhigh : index < array.length) :
    ∃ x, elementAt array index = some x := by
  have hbound : index.toNat < array.length := by omega
  exact ⟨array[index.toNat], by
    rw [elementAt, if_pos hlow, getElem?_eq_getElem hbound]⟩

theorem settle_documented {calls : List Call} (hne : calls ≠ [])
    (hcalls : ∀ next ∈ calls, Documented that destinationNodeName usedMethodName next)
    (source : ISourceData) (sourceArray : List (Option ISourceData)) (item : Int)
    (nodeBeforeLast : Option String) :
    (∃ x, settle that destinationNodeName source sourceArray item nodeBeforeLast
        (calls.map (run that destinationNodeName usedMethodName)) = .ok (some x))
      ∨ ∃ error, settle that destinationNodeName source sourceArray item nodeBeforeLast
          (calls.map (run that destinationNodeName usedMethodName))
            = .error (.expressionError error) := by
  by_cases hfailed : ∀ y, .ok y ∉ calls.map (run that destinationNodeName usedMethodName)
  · rw [settle_failed _ _ _ _ _ _ hfailed]
    cases calls with
    | nil => exact absurd rfl hne
    | cons next rest => exact hcalls next (mem_cons_self ..)
  · push Not at hfailed
    obtain ⟨y, hy⟩ := hfailed
    by_cases hsame : ∀ z, .ok z ∈ calls.map (run that destinationNodeName usedMethodName) → z = y
    · rw [(settle_eq_ok _ _ _ _ _ _).mpr ⟨hy, hsame⟩]
      obtain ⟨next, hnext, hrun⟩ := mem_map.mp hy
      obtain ⟨x, hx⟩ | ⟨error, herror⟩ := hcalls next hnext
      · rw [hrun] at hx
        exact Or.inl ⟨x, hx⟩
      · rw [hrun] at herror
        cases herror
    · push Not at hsame
      obtain ⟨z, hz, hne⟩ := hsame
      exact Or.inr ⟨_, settle_conflict _ _ _ _ _ _ hz hy hne⟩

/-- **STEP**: a safe call is documented if those it makes are. -/
theorem documented_of_safe {call : Call} (hsafe : Safe that destinationNodeName call)
    (hmade : ∀ next, Makes that destinationNodeName call next →
      Documented that destinationNodeName usedMethodName next) :
    Documented that destinationNodeName usedMethodName call := by
  obtain ⟨hstack, hsafe⟩ := hsafe
  cases hsource : call.sourceData with
  | none => exact Or.inr ⟨_, run_noSource that _ _ hstack hsource⟩
  | some source =>
    cases houtput : outputOf (getTaskData that source) source with
    | none => exact Or.inr ⟨_, run_noOutput that _ _ hstack hsource houtput⟩
    | some outputData =>
      have hfinds : Finds that call source outputData := ⟨hstack, hsource, houtput⟩
      have hhere := hsafe source outputData hfinds
      by_cases hdest : source.previousNode = destinationNodeName
      · rw [if_pos hdest] at hhere
        have hrun := run_destination that _ usedMethodName hfinds hdest
        by_cases hlarge : (outputData.length : Int) ≤ call.item
        · rw [if_pos hlarge] at hrun
          exact Or.inr ⟨_, hrun⟩
        · obtain ⟨x, hx⟩ := elementAt_isSome hhere (not_le.mp hlarge)
          rw [if_neg hlarge, hx] at hrun
          exact Or.inl ⟨x, hrun⟩
      · rw [if_neg hdest] at hhere
        obtain ⟨item, hitem, hrefs⟩ := hhere
        by_cases hnone : normalizePairedItem (that.pairedItem item) = []
        · exact Or.inr ⟨_, run_noReference that _ _ hfinds hdest hitem hnone⟩
        · obtain ⟨stack, hsucc⟩ := Nat.exists_eq_succ_of_ne_zero hstack
          have hne : callsOf that stack source item ≠ [] :=
            (callsOf_ne_nil that stack).mpr (hrefs.resolve_left hnone)
          rw [Documented, run_references that _ _ hsucc hfinds hdest hitem hnone]
          exact settle_documented that _ _ hne
            (fun next hnext => hmade next
              ⟨stack, source, outputData, item, hsucc, hfinds, hdest, hitem, hnext⟩) _ _ _ _

theorem safe_of_documented {call : Call}
    (hdoc : Documented that destinationNodeName usedMethodName call) :
    Safe that destinationNodeName call := by
  have hstack : call.stack ≠ 0 := by
    intro hzero
    rw [Documented, run_zero that _ _ hzero] at hdoc
    obtain ⟨_, h⟩ | ⟨_, h⟩ := hdoc <;> cases h
  refine ⟨hstack, fun source outputData hfinds => ?_⟩
  split
  · rename_i hdest
    by_contra hneg
    have hsmall : ¬ (outputData.length : Int) ≤ call.item := by omega
    rw [Documented, run_destination that _ _ hfinds hdest, if_neg hsmall,
      elementAt, if_neg hneg] at hdoc
    obtain ⟨_, h⟩ | ⟨_, h⟩ := hdoc <;> cases h
  · rename_i hdest
    cases hitem : elementAt outputData call.item with
    | none =>
      rw [Documented, run_noItem that _ _ hfinds hdest hitem] at hdoc
      obtain ⟨_, h⟩ | ⟨_, h⟩ := hdoc <;> cases h
    | some item =>
      refine ⟨item, rfl, or_iff_not_imp_left.mpr fun hsome => ?_⟩
      obtain ⟨stack, hsucc⟩ := Nat.exists_eq_succ_of_ne_zero hstack
      rw [← callsOf_ne_nil that stack]
      intro hnil
      rw [Documented, run_references that _ _ hsucc hfinds hdest hitem hsome, hnil] at hdoc
      obtain ⟨_, h⟩ | ⟨_, h⟩ := hdoc <;> cases h

/-- **FAILING AS DOCUMENTED**: a search and every search inside it ends with
    an item or an error for expressions if and only if each is safe. -/
theorem documented_iff (call : Call) :
    (∀ next, ReflTransGen (Makes that destinationNodeName) call next →
        Documented that destinationNodeName usedMethodName next)
      ↔ ∀ next, ReflTransGen (Makes that destinationNodeName) call next →
          Safe that destinationNodeName next := by
  constructor
  · exact fun hdoc next hnext =>
      safe_of_documented that _ usedMethodName (hdoc next hnext)
  · intro hsafe next hnext
    -- by induction on the room that is left
    generalize hstack : next.stack = stack
    induction stack generalizing next with
    | zero => exact absurd hstack (hsafe next hnext).1
    | succ stack ih =>
      refine documented_of_safe that _ usedMethodName (hsafe next hnext)
        fun made hmade => ih made (hnext.tail hmade) ?_
      obtain ⟨stack', _, _, _, hsucc, -, -, -, hmem⟩ := hmade
      obtain ⟨_, -, rfl⟩ := mem_map.mp hmem
      show stack' = stack
      omega

/-- One item of `Merge`, that refers to an input the run did not have. -/
def droppedInput : WorkflowDataProxy Nat where
  runData := ⟨[("Start", [⟨some [some [0]], []⟩]),
    ("Merge", [⟨some [some [1]], [some ⟨"Start", none, none⟩]⟩])], by decide⟩
  getPinDataIfManualExecution := fun _ => none
  isScriptingNode := fun _ => false
  activeNodeName := "Set"
  pairedItem := fun _ => .one (.data ⟨0, some 1, none⟩)

/-- An item that `Merge` does not have cannot be read, and for its only one
    no result is left to take the error from. -/
theorem not_documented_merge :
    ¬ Documented droppedInput "Start" "$getPairedItem"
        ⟨1000, some ⟨"Merge", none, none⟩, .number 4, none⟩
      ∧ ¬ Documented droppedInput "Start" "$getPairedItem"
        ⟨1000, some ⟨"Merge", none, none⟩, .number 0, none⟩ := by
  have hmissing : run droppedInput "Start" "$getPairedItem"
      ⟨1000, some ⟨"Merge", none, none⟩, .number 4, none⟩ = .error .typeError := by decide +kernel
  have hdropped : run droppedInput "Start" "$getPairedItem"
      ⟨1000, some ⟨"Merge", none, none⟩, .number 0, none⟩ = .error .typeError := by decide +kernel
  constructor <;> rintro (⟨_, h⟩ | ⟨_, h⟩)
  · cases h
  · cases h
  · cases h
  · cases h

end

end N8nPairedItem
