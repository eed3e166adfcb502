import Mathlib.Data.Multiset.Bind
import Mathlib.Tactic.Abel
import N8n.RunProofs
import N8n.WorkflowExecuteProofs

/-! # The waiting table — what is delivered is held or handed on

    Every piece of data delivered to an input of a node with several inputs
    should be found again, either in a waiting entry of the node or in a
    stack entry of the node.  One call satisfies an exact balance
    (`balance_record`):

      delivered before + delivered now + started from nothing
        = held after + handed on + overwritten

    Two things unsettle the account.  The key of a new waiting entry is the
    number of entries, which is taken as soon as an entry in front of
    another one has been completed and deleted.  And in the legacy order the
    search for an input node that nothing will run can come back to the node
    itself.  A run keeps the account exactly when neither happens. -/

namespace N8nWaitingTable

open N8nRun N8nOrderedMap N8nWorkflow N8nWorkflowExecute List

variable {P V : Type}

/-! ## Pieces of data -/

/-- Data at an input, with its source. -/
structure Piece (V : Type) where
  input : Nat
  data : List (INodeExecutionData V)
  source : Slot ISourceData

/-- The pieces in two arrays, the first elements of which are at `input`. -/
def piecesFrom (input : Nat) :
    List (Slot (List (INodeExecutionData V))) → List (Slot ISourceData) → List (Piece V)
  | [], _ => []
  | .value data :: main, source =>
    ⟨input, data, source.headD .undefined⟩ :: piecesFrom (input + 1) main source.tail
  | _ :: main, source => piecesFrom (input + 1) main source.tail

def entryPieces (entry : WaitingEntry V) : List (Piece V) :=
  piecesFrom 0 entry.main entry.mainSource

/-- The pieces a stack entry carries. -/
def carried (executionData : IExecuteData P V) : List (Piece V) :=
  piecesFrom 0 ((executionData.data.get? .main).getD [])
    ((executionData.source.bind (·.get? .main)).getD [])

/-- The piece a delivery brings, if it brings data. -/
def broughtBy (d : Delivery V) : List (Piece V) :=
  match d.data with
  | .value data => [⟨d.connectionData.index, data, d.source⟩]
  | _ => []

theorem piecesFrom_null (input n : Nat) (source : List (Slot ISourceData)) :
    piecesFrom (V := V) input (List.replicate n .null) source = [] := by
  induction n generalizing input source with
  | zero => rfl
  | succ n ih =>
    rw [replicate_succ, piecesFrom]
    · exact ih ..
    · exact fun _ h => by cases h

theorem entryPieces_prepareWaitingToExecution (numberOfConnections : Nat) :
    entryPieces (V := V) (prepareWaitingToExecution numberOfConnections) = [] := by
  rw [entryPieces, main_prepareWaitingToExecution, piecesFrom_null]

theorem piecesFrom_ne_nil {input index : Nat} {main : List (Slot (List (INodeExecutionData V)))}
    (source : List (Slot ISourceData)) (h : (slotAt main index).present = true) :
    piecesFrom input main source ≠ [] := by
  induction main generalizing input index source with
  | nil => cases h
  | cons x rest ih =>
    cases index with
    | zero =>
      cases x with
      | value data => exact cons_ne_nil _ _
      | null => cases h
      | undefined => cases h
    | succ index =>
      cases x with
      | value data => exact cons_ne_nil _ _
      | null => exact ih source.tail h
      | undefined => exact ih source.tail h

theorem piecesFrom_setSlot (x : Slot (List (INodeExecutionData V)))
    (y : Slot ISourceData) (input index : Nat)
    {main : List (Slot (List (INodeExecutionData V)))}
    (source : List (Slot ISourceData))
    (h : (slotAt main index).present = false) :
    (piecesFrom input (setSlot x index main) (setSlot y index source)).Perm
      ((match x with
        | .value data => [⟨input + index, data, y⟩]
        | _ => []) ++ piecesFrom input main source) := by
  induction index generalizing input main source with
  | zero =>
    have hrest : piecesFrom input main source = piecesFrom (input + 1) main.tail source.tail := by
      cases main with
      | nil => rfl
      | cons z rest =>
        cases z with
        | value data => cases h
        | null => rfl
        | undefined => rfl
    rw [hrest]
    cases x <;> exact List.Perm.refl _
  | succ index ih =>
    rw [slotAt_succ] at h
    have hindex : input + (index + 1) = input + 1 + index := by omega
    have htail := ih (input + 1) source.tail h
    rw [hindex]
    cases main with
    | nil => exact htail
    | cons z rest =>
      cases z with
      | value data => exact (htail.cons _).trans perm_middle.symm
      | null => exact htail
      | undefined => exact htail

variable {entry : WaitingEntry V}

/-- **RECEIVING**: an entry that lacked the input holds what it held and
    what the delivery brings. -/
theorem entryPieces_receive (d : Delivery V) (hready : entry.Ready)
    (h : (slotAt entry.main d.connectionData.index).present = false) :
    (entryPieces (entry.receive d).1).Perm (broughtBy d ++ entryPieces entry) := by
  have hset := piecesFrom_setSlot d.data d.source 0 d.connectionData.index entry.mainSource h
  rw [Nat.zero_add] at hset
  rw [entryPieces, main_receive d hready, mainSource_receive d hready]
  exact hset

/-! ## The account of a node -/

/-- What was delivered to the node so far, what of it waits, and the stack
    entries of the node that were enqueued. -/
structure Ledger (P V : Type) where
  waitingExecution : IWaitingForExecution V
  delivered : List (Piece V)
  pushed : List (IExecuteData P V)

def heldPieces (waiting : WaitingNode V) : List (Piece V) :=
  waiting.entries.flatMap fun p => entryPieces p.2

namespace Ledger

/-- Nothing waits and nothing was delivered. -/
def start : Ledger P V :=
  { waitingExecution := .empty, delivered := [], pushed := [] }

/-- The waiting entries of the node. -/
def waiting (l : Ledger P V) (nodeName : String) : WaitingNode V :=
  waitingNode l.waitingExecution nodeName

/-- The ledger after the call. -/
def record (workflow : Workflow P) (nodeName : String) (l : Ledger P V)
    (a : Arrival P V) : Ledger P V :=
  let added := a.call workflow l.waitingExecution
  { waitingExecution := added.waitingExecution
    delivered := l.delivered ++ broughtBy a.delivery
    pushed := l.pushed ++ added.enqueued.filter (runs nodeName) }

/-- **THE ACCOUNT**: what was delivered is what waits and what the stack
    entries of the node carry. -/
def Accounted (nodeName : String) (l : Ledger P V) : Prop :=
  (l.delivered : Multiset (Piece V)) = heldPieces (l.waiting nodeName) + l.pushed.flatMap carried

end Ledger

/-- The steps: a delivery to the node. -/
def Delivers (workflow : Workflow P) (nodeName : String) (l : Ledger P V)
    (a : Arrival P V) (t : Ledger P V) : Prop :=
  a.delivery.connectionData.node = nodeName ∧ t = l.record workflow nodeName a

/-- No waiting entry lacks the input. -/
def AllHave (index : Nat) (waiting : WaitingNode V) : Prop :=
  ∀ p ∈ waiting.entries, (slotAt p.2.main index).present = true

instance (index : Nat) (waiting : WaitingNode V) :
    Decidable (AllHave index waiting) :=
  inferInstanceAs (Decidable (∀ p ∈ waiting.entries, _))

/-- The entries the delivery starts because the node begins to wait. -/
def started (workflow : Workflow P) (nodeName : String) (l : Ledger P V)
    (a : Arrival P V) : List (IExecuteData P V) :=
  if l.waitingExecution.has nodeName then []
  else
    (forcedStarts workflow a.runData a.delivery a.nodeExecutionStack).1.filter (runs nodeName)

/-- The entry that a new entry is written over. -/
def overwritten (index : Nat) (waiting : WaitingNode V) : Option (WaitingEntry V) :=
  if AllHave index waiting then waiting.get? waiting.entries.length else none

/-- The condition on a delivery: if a new entry is made for it, the key of
    that entry is free; and if the node begins to wait, the search for
    something to start does not start the node itself. -/
structure KeepsEntries (workflow : Workflow P) (nodeName : String)
    (l : Ledger P V) (a : Arrival P V) : Prop where
  free : AllHave a.delivery.connectionData.index (l.waiting nodeName) →
    (l.waiting nodeName).get? (l.waiting nodeName).entries.length = none
  elsewhere : l.waitingExecution.has nodeName = false →
    ∀ executionData ∈ (forcedStarts workflow a.runData a.delivery
      a.nodeExecutionStack).1, runs nodeName executionData = false

/-! ## The balance of one call -/

theorem heldPieces_split {numberOfConnections index key : Nat} {waiting : WaitingNode V}
    (h : waitingTarget numberOfConnections index waiting = .ok (key, entry)) :
    (heldPieces waiting : Multiset (Piece V))
      = entryPieces entry + ((overwritten index waiting).elim [] entryPieces)
        + waiting.rest key (fun p => entryPieces p.2) := by
  rcases waitingTarget_cases h with ⟨hget, hlacks⟩ | ⟨rfl, rfl, hall⟩
  · have hnot : ¬ AllHave index waiting := by
      intro hall
      have hpresent := hall _ (mem_of_findKey hget)
      rw [hlacks] at hpresent
      cases hpresent
    rw [overwritten, if_neg hnot, Option.elim_none, Multiset.coe_nil, add_zero, Multiset.coe_add]
    exact Multiset.coe_eq_coe.mpr (OrderedMap.flatMap_of_get? hget _)
  · have hhave : AllHave index waiting := hall
    rw [overwritten, if_pos hhave, entryPieces_prepareWaitingToExecution,
      Multiset.coe_nil, zero_add]
    rcases hget : waiting.get? waiting.entries.length with _ | old
    · rw [Option.elim_none, Multiset.coe_nil, zero_add, heldPieces,
        OrderedMap.flatMap_of_get?_none hget]
    · exact Multiset.coe_eq_coe.mpr (OrderedMap.flatMap_of_get? hget _)

theorem heldPieces_set (waiting : WaitingNode V) (key : Nat) (entry : WaitingEntry V) :
    (heldPieces (waiting.set key entry) : Multiset (Piece V))
      = entryPieces entry
        + waiting.rest key (fun p => entryPieces p.2) := by
  exact Multiset.coe_eq_coe.mpr (OrderedMap.flatMap_set ..)

variable {a : Arrival P V} {l : Ledger P V} {workflow : Workflow P}

/-- What is held of the node after the call, and what was enqueued for
    it. -/
theorem settle_balance (hw : workflow.Consistent)
    (hN : workflow.nodes.has a.delivery.connectionData.node = true)
    (hk : 1 < numberOfInputs workflow a.delivery.connectionData.node)
    {key : Nat}
    (htarget : waitingTarget (numberOfInputs workflow a.delivery.connectionData.node)
      a.delivery.connectionData.index (l.waiting a.delivery.connectionData.node) = .ok (key, entry))
    (hready : entry.Ready) :
    (heldPieces (waitingNode (a.call workflow
          l.waitingExecution).waitingExecution a.delivery.connectionData.node) : Multiset (Piece V))
      + ((a.call workflow l.waitingExecution).enqueued.filter
          (runs a.delivery.connectionData.node)).flatMap carried
      = entryPieces (entry.receive a.delivery).1
        + (l.waiting a.delivery.connectionData.node).rest key (fun p => entryPieces p.2)
        + (started workflow a.delivery.connectionData.node l a).flatMap carried := by
  obtain ⟨node, hnode⟩ := Option.isSome_iff_exists.mp hN
  have hname : node.name = a.delivery.connectionData.node := hw.named _ (mem_of_findKey hnode)
  by_cases hfound : (entry.receive a.delivery).1.allDataFound = true
  · have hhas : l.waitingExecution.has a.delivery.connectionData.node
        = true := by
      rcases hh : l.waitingExecution.has a.delivery.connectionData.node
      · rw [waits_of_not_has hk a.delivery hh htarget] at hfound
        cases hfound
      · rfl
    have hcarried : carried (P := P)
          { node := workflow.nodes.get? a.delivery.connectionData.node
            data := (entry.receive a.delivery).1.data
            source := some (entry.receive a.delivery).1.source
            runIndex := none
            metadata := none }
        = entryPieces (entry.receive a.delivery).1 := rfl
    rw [Arrival.call_found hk htarget hready hfound, heldPieces, entries_setWaiting,
      filter_cons_of_pos (by simp [runs, hnode, hname]), filter_nil, flatMap_cons, flatMap_nil,
      append_nil, hcarried, started, if_pos hhas, flatMap_nil, Multiset.coe_nil, add_zero, add_comm]
    rfl
  · obtain ⟨henqueued, kept, -, hmain, hsource, htable⟩ :=
      Arrival.call_waits hk htarget hready (Bool.eq_false_iff.mpr hfound)
    have hkept : entryPieces kept = entryPieces (entry.receive a.delivery).1 := by
      rw [entryPieces, entryPieces, hmain, hsource]
    have hstarted : (a.call workflow l.waitingExecution).enqueued.filter
          (runs a.delivery.connectionData.node)
        = started workflow a.delivery.connectionData.node l a := by
      rw [henqueued, started]
      by_cases hhas : l.waitingExecution.has a.delivery.connectionData.node = true
      · rw [if_pos hhas, if_pos hhas, filter_nil]
      · rw [if_neg hhas, if_neg hhas]
    rw [htable, waitingNode_set, heldPieces_set, hkept, hstarted, Ledger.waiting]

variable {nodeName : String}

/-- **THE BALANCE** of one call: what was held and what is brought, with
    what is started from nothing, is what is held then and handed on, with
    what was written over. -/
theorem balance_record (hw : workflow.Consistent) (hN : workflow.nodes.has nodeName = true)
    (hk : 1 < numberOfInputs workflow nodeName) (ha : a.delivery.connectionData.node = nodeName)
    (hready : ∀ p ∈ (l.waiting nodeName).entries, p.2.Ready) :
    (broughtBy a.delivery : Multiset (Piece V))
        + heldPieces (l.waiting nodeName)
        + (started workflow nodeName l a).flatMap carried
      = heldPieces ((l.record workflow nodeName a).waiting nodeName)
        + ((a.call workflow l.waitingExecution).enqueued.filter (runs nodeName)).flatMap carried
        + ((overwritten a.delivery.connectionData.index
            (l.waiting nodeName)).elim [] entryPieces) := by
  subst ha
  obtain ⟨key, entry, htarget, hentry⟩ := waitingTarget_ready
    (numberOfInputs workflow a.delivery.connectionData.node) a.delivery.connectionData.index hready
  have hsettle := settle_balance hw hN hk htarget hentry
  have hreceived := Multiset.coe_eq_coe.mpr (entryPieces_receive a.delivery
    hentry (waitingTarget_lacks htarget))
  have hwaiting : (l.record workflow a.delivery.connectionData.node
        a).waiting a.delivery.connectionData.node
      = waitingNode (a.call workflow l.waitingExecution).waitingExecution
        a.delivery.connectionData.node := rfl
  rw [hwaiting, hsettle, heldPieces_split htarget, hreceived, ← Multiset.coe_add]
  abel

/-! ## Runs -/

/-- Both halves of every waiting entry of the node have a `main`. -/
def Ledger.AllReady (nodeName : String) (l : Ledger P V) : Prop :=
  ∀ p ∈ (l.waiting nodeName).entries, p.2.Ready

theorem AllReady.record (hk : 1 < numberOfInputs workflow nodeName)
    (ha : a.delivery.connectionData.node = nodeName) (hready : l.AllReady nodeName) :
    (l.record workflow nodeName a).AllReady nodeName := by
  subst ha
  obtain ⟨key, entry, htarget, hentry⟩ := waitingTarget_ready
    (numberOfInputs workflow a.delivery.connectionData.node) a.delivery.connectionData.index hready
  show ∀ p ∈ (waitingNode (a.call workflow
    l.waitingExecution).waitingExecution _).entries, p.2.Ready
  by_cases hfound : (entry.receive a.delivery).1.allDataFound = true
  · rw [Arrival.call_found hk htarget hentry hfound, entries_setWaiting]
    exact fun p hp => hready p (mem_dropKey.mp hp).1
  · obtain ⟨-, kept, hkept, -, -, htable⟩ :=
      Arrival.call_waits hk htarget hentry (Bool.eq_false_iff.mpr hfound)
    rw [htable, waitingNode_set]
    intro p hp
    rcases OrderedMap.mem_entries_set.mp hp with rfl | ⟨hmem, -⟩
    · exact hkept
    · exact hready p hmem

section

variable (workflow : Workflow P) (nodeName : String) (l : Ledger P V) (a : Arrival P V)

theorem overwritten_or_started :
    overwritten a.delivery.connectionData.index (l.waiting nodeName) = none
      ∨ started workflow nodeName l a = [] := by
  rcases hget : l.waitingExecution.get? nodeName with _ | waiting
  · refine .inl ?_
    rw [Ledger.waiting, waitingNode, hget, Option.getD_none, overwritten]
    split <;> rfl
  · refine .inr ?_
    rw [started, if_pos]
    rw [OrderedMap.has, hget]
    rfl

theorem keepsEntries_iff :
    KeepsEntries workflow nodeName l a ↔
      overwritten a.delivery.connectionData.index (l.waiting nodeName) = none
        ∧ started workflow nodeName l a = [] := by
  have hfree : overwritten a.delivery.connectionData.index (l.waiting nodeName) = none ↔
        (AllHave a.delivery.connectionData.index (l.waiting nodeName) →
          (l.waiting nodeName).get? (l.waiting nodeName).entries.length = none) := by
    rw [overwritten]
    by_cases hall : AllHave a.delivery.connectionData.index (l.waiting nodeName)
    · rw [if_pos hall]
      exact ⟨fun h _ => h, fun h => h hall⟩
    · rw [if_neg hall]
      exact ⟨fun _ h => absurd h hall, fun _ => rfl⟩
  have helsewhere : started workflow nodeName l a = [] ↔
      (l.waitingExecution.has nodeName = false →
        ∀ executionData ∈ (forcedStarts workflow a.runData a.delivery
          a.nodeExecutionStack).1, runs nodeName executionData = false) := by
    rw [started]
    by_cases hhas : l.waitingExecution.has nodeName = true
    · rw [if_pos hhas]
      exact ⟨fun _ h => absurd (hhas.symm.trans h) (by simp), fun _ => rfl⟩
    · rw [if_neg hhas, filter_eq_nil_iff]
      simp only [Bool.not_eq_true] at hhas ⊢
      exact ⟨fun h _ => h, fun h => h hhas⟩
  rw [hfree, helsewhere]
  exact ⟨fun h => ⟨h.free, h.elsewhere⟩, fun h => ⟨h.1, h.2⟩⟩

end

theorem entryPieces_overwritten {index : Nat} {waiting : WaitingNode V}
    {old : WaitingEntry V} (h : overwritten index waiting = some old) :
    entryPieces old ≠ [] := by
  rw [overwritten] at h
  by_cases hall : AllHave index waiting
  · rw [if_pos hall] at h
    exact piecesFrom_ne_nil _ (hall _ (mem_of_findKey h))
  · rw [if_neg hall] at h
    cases h

theorem carried_started (h : started workflow nodeName l a ≠ []) :
    (started workflow nodeName l a).flatMap carried ≠ [] := by
  obtain ⟨executionData, hmem⟩ := exists_mem_of_ne_nil _ h
  intro hnil
  have hcarried := flatMap_eq_nil_iff.mp hnil _ hmem
  rw [started] at hmem
  by_cases hhas : l.waitingExecution.has nodeName = true
  · rw [if_pos hhas] at hmem
    cases hmem
  · rw [if_neg hhas] at hmem
    obtain ⟨name, rfl⟩ := forcedStarts_mem _ (mem_of_mem_filter hmem)
    cases hcarried

theorem settled_iff {brought held heldAfter enqueued started lost :
      Multiset (Piece V)} (pushed : Multiset (Piece V))
    (h : brought + held + started = heldAfter + enqueued + lost) :
    held + pushed + brought = heldAfter + (pushed + enqueued) ↔ started = lost := by
  constructor
  · intro hsettled
    refine add_left_cancel (a := heldAfter + (pushed + enqueued)) ?_
    calc heldAfter + (pushed + enqueued) + started
        = brought + held + started + pushed := by rw [← hsettled]; abel
      _ = heldAfter + (pushed + enqueued) + lost := by rw [h]; abel
  · rintro rfl
    refine add_right_cancel (b := started) ?_
    calc held + pushed + brought + started = brought + held + started + pushed := by abel
      _ = heldAfter + (pushed + enqueued) + started := by rw [h]; abel

/-- **ONE STEP**: a settled account stays settled exactly when the delivery
    meets the condition. -/
theorem accounted_record (hw : workflow.Consistent) (hN : workflow.nodes.has nodeName = true)
    (hk : 1 < numberOfInputs workflow nodeName) (ha : a.delivery.connectionData.node = nodeName)
    (hready : l.AllReady nodeName) (hl : l.Accounted nodeName) :
    (l.record workflow nodeName a).Accounted nodeName ↔ KeepsEntries workflow nodeName l a := by
  have hsettled : (l.record workflow nodeName a).Accounted nodeName ↔
      ((started workflow nodeName l a).flatMap carried : Multiset (Piece V))
        = (overwritten a.delivery.connectionData.index
            (l.waiting nodeName)).elim [] entryPieces := by
    rw [← settled_iff (l.pushed.flatMap carried) (balance_record hw hN hk ha hready),
      ← show _ = _ from hl, Multiset.coe_add, Multiset.coe_add, ← flatMap_append]
    exact Iff.rfl
  rw [hsettled, keepsEntries_iff]
  rcases overwritten_or_started workflow nodeName l a with hnone | hnil
  · rw [hnone]
    refine ⟨fun h => ⟨rfl, ?_⟩, fun h => by rw [h.2]; rfl⟩
    exact Decidable.not_not.mp fun hne =>
      carried_started hne ((Multiset.coe_eq_zero _).mp h)
  · rw [hnil]
    refine ⟨fun h => ⟨?_, rfl⟩, fun h => by rw [h.1]; rfl⟩
    rcases hover : overwritten a.delivery.connectionData.index (l.waiting nodeName) with _ | old
    · rfl
    · rw [hover, Option.elim_some] at h
      exact absurd ((Multiset.coe_eq_zero _).mp h.symm) (entryPieces_overwritten hover)

/-- Two triggers, each connected to one input of a merge node. -/
def twoToMerge : Workflow Unit :=
  let node (name : String) : INode Unit :=
    { name, type := name, typeVersion := 1, position := (0, 0)
      disabled := false, parameters := (), rewireOutputLogTo := none }
  let toInput (index : Nat) : INodeConnections :=
    OrderedMap.empty.set .main [some [⟨"Merge", .main, index⟩]]
  .new [node "Left", node "Right", node "Merge"]
    ((OrderedMap.empty.set "Left" (toInput 0)).set "Right" (toInput 1)) (some .v1)

/-- One item, delivered to an input of the merge node by a run of the
    trigger in front of it. -/
def mergeArrival (input run : Nat) : Arrival Unit Unit :=
  { runData := .empty
    nodeExecutionStack := []
    delivery :=
      { connectionData := ⟨"Merge", .main, input⟩
        outputIndex := 0
        parentNodeName := if input = 0 then "Left" else "Right"
        nodeSuccessData := some [.value [{ json := .empty, pairedItem := none }]]
        runIndex := run
        newRunIndex := none
        metadata := none } }

/-- The run in which the inputs get their data in the given order. -/
def mergeRun (arrivals : List (Arrival Unit Unit)) : List (Arrival Unit Unit × Ledger Unit Unit) :=
  pathOf (Ledger.record twoToMerge "Merge") Ledger.start arrivals

end N8nWaitingTable
