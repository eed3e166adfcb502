import Mathlib.Data.List.Induction
import N8n.OrderedMapProofs

/-! # The event log — which executions it leaves unfinished

    At startup the log files are read line by line, and a table of the
    unfinished executions is built: an execution enters it when it is started
    or when one of its nodes starts or finishes, and leaves it when it ends.

    The engine is `holds_foldl_iff`: a fact that some elements of a list set,
    others reset and the rest leave alone holds at the end exactly when one
    that sets it has no later one that resets it.  So an execution is listed
    exactly when one of its opening events has no later closing event, and
    `listed_only_unended_iff` compares that with what "unfinished" means:
    a cancelled execution does not leave the table. -/

namespace N8nEventLog

open N8nOrderedMap List

/-! ## Latches -/

section

variable {α σ : Type}

/-- Some element sets the latch and no later one resets it. -/
def StaysSet (sets resets : α → Prop) (l : List α) : Prop :=
  ∃ pre a post, l = pre ++ a :: post ∧ sets a ∧ ∀ b ∈ post, ¬ resets b

variable {resets sets : α → Prop}

theorem not_staysSet_nil : ¬ StaysSet sets resets [] := by
  rintro ⟨pre, a, post, heq, -⟩
  simp at heq

theorem staysSet_concat {l : List α} {a : α} :
    StaysSet sets resets (l ++ [a]) ↔ sets a ∨ StaysSet sets resets l ∧ ¬ resets a := by
  constructor
  · rintro ⟨pre, b, post, heq, hb, hpost⟩
    rcases eq_nil_or_concat post with rfl | ⟨post, c, rfl⟩
    · obtain ⟨-, hlast⟩ := append_inj' heq rfl
      cases hlast
      exact .inl hb
    · rw [concat_eq_append] at heq hpost
      rw [← cons_append, ← append_assoc] at heq
      obtain ⟨rfl, hlast⟩ := append_inj' heq rfl
      cases hlast
      refine .inr ⟨⟨pre, b, post, rfl, hb, fun d hd => ?_⟩, ?_⟩
      · exact hpost d (mem_append_left _ hd)
      · exact hpost a (mem_append_right _ (mem_singleton.mpr rfl))
  · rintro (ha | ⟨⟨pre, b, post, rfl, hb, hpost⟩, ha⟩)
    · exact ⟨l, a, [], rfl, ha, fun b hb => by cases hb⟩
    · refine ⟨pre, b, post ++ [a], by simp, hb, fun d hd => ?_⟩
      rcases mem_append.mp hd with hd | hd
      · exact hpost d hd
      · rw [mem_singleton.mp hd]
        exact ha

/-- **LATCH RULE**: a fact about a state that some elements set, some reset
    and the others keep. -/
theorem holds_foldl_iff {P : σ → Prop} {f : σ → α → σ} (hset : ∀ s a, sets a → P (f s a))
    (hreset : ∀ s a, resets a → ¬ P (f s a))
    (hkeep : ∀ s a, ¬ sets a → ¬ resets a → (P (f s a) ↔ P s)) {s : σ} (h : ¬ P s) (l : List α) :
    P (l.foldl f s) ↔ StaysSet sets resets l := by
  induction l using List.reverseRecOn with
  | nil => exact iff_of_false h not_staysSet_nil
  | append_singleton l a ih =>
    rw [foldl_append, foldl_cons, foldl_nil, staysSet_concat]
    by_cases hsets : sets a
    · exact iff_of_true (hset _ a hsets) (.inl hsets)
    · by_cases hresets : resets a
      · refine iff_of_false (hreset _ a hresets) ?_
        rintro (h' | ⟨-, h'⟩)
        · exact hsets h'
        · exact h' hresets
      · rw [hkeep _ a hsets hresets, ih]
        exact ⟨fun h' => .inr ⟨h', hresets⟩, fun h' => (h'.resolve_left hsets).1⟩

theorem staysSet_iff_last {l : List α} :
    StaysSet sets resets l ↔ ∃ pre a post, l = pre ++ a :: post ∧ sets a
      ∧ (∀ b ∈ post, ¬ sets b) ∧ ∀ b ∈ post, ¬ resets b := by
  constructor
  · intro h
    induction l using List.reverseRecOn with
    | nil => exact absurd h not_staysSet_nil
    | append_singleton l a ih =>
      by_cases ha : sets a
      · have hnone : ∀ P : α → Prop, ∀ b ∈ ([] : List α), ¬ P b :=
          fun P b hb => by cases hb
        exact ⟨l, a, [], rfl, ha, hnone sets, hnone resets⟩
      · obtain ⟨hl, hresets⟩ := (staysSet_concat.mp h).resolve_left ha
        obtain ⟨pre, b, post, rfl, hb, hsets, hpost⟩ := ih hl
        refine ⟨pre, b, post ++ [a], by simp, hb, ?_, ?_⟩
        · intro c hc
          rcases mem_append.mp hc with hc | hc
          · exact hsets c hc
          · rw [mem_singleton.mp hc]
            exact ha
        · intro c hc
          rcases mem_append.mp hc with hc | hc
          · exact hpost c hc
          · rw [mem_singleton.mp hc]
            exact hresets
  · rintro ⟨pre, a, post, heq, ha, -, hpost⟩
    exact ⟨pre, a, post, heq, ha, hpost⟩

theorem staysSet_imp_iff {resets' : α → Prop} {l : List α} :
    (StaysSet sets resets l → StaysSet sets resets' l)
      ↔ ∀ pre a post, l = pre ++ a :: post → sets a →
        (∀ b ∈ post, ¬ sets b) → (∃ b ∈ post, resets' b) → ∃ b ∈ post, resets b := by
  constructor
  · rintro himp pre a post rfl ha hlast ⟨b, hb, hresets'⟩
    by_contra hnone
    obtain ⟨pre', c, post', heq, hc, hpost'⟩ := himp ⟨pre, a, post, rfl, ha,
      fun d hd hresets => hnone ⟨d, hd, hresets⟩⟩
    -- What is set last comes first in what follows any setting element.
    rcases append_eq_append_iff.mp heq with
      ⟨mid, rfl, hmid⟩ | ⟨mid, rfl, hmid⟩
    · cases mid with
      | nil =>
        obtain ⟨rfl, rfl⟩ := List.cons.inj hmid
        exact hpost' b hb hresets'
      | cons d mid =>
        obtain ⟨rfl, rfl⟩ := List.cons.inj hmid
        exact hlast c (by simp) hc
    · cases mid with
      | nil =>
        obtain ⟨rfl, rfl⟩ := List.cons.inj hmid
        exact hpost' b hb hresets'
      | cons d mid =>
        obtain ⟨rfl, rfl⟩ := List.cons.inj hmid
        exact hpost' b (by simp [hb]) hresets'
  · intro hcond h
    obtain ⟨pre, a, post, rfl, ha, hlast, hpost⟩ := staysSet_iff_last.mp h
    refine ⟨pre, a, post, rfl, ha, fun b hb hresets' => ?_⟩
    obtain ⟨c, hc, hresets⟩ := hcond pre a post rfl ha hlast ⟨b, hb, hresets'⟩
    exact hpost c hc hresets

end

/-! ## Messages -/

abbrev ExecutionId := String

/-- `EventMessageTypeNames`. -/
inductive EventMessageTypeName where
  | generic | audit | confirm | workflow | node | execution | aiNode
  | runner | queue
deriving DecidableEq

/-- A message, with the two fields of its payload that are read here.  The
    time stamp is in milliseconds. -/
structure EventMessage where
  id : String
  type : EventMessageTypeName
  eventName : String
  ts : Int
  executionId : Option ExecutionId
  nodeName : Option String
deriving DecidableEq

/-- A line of a log file: it can be a message, a confirmation, or neither. -/
structure Line where
  message : Option EventMessage
  confirm : Option String

/-- `[\w\s]`. -/
def isWordOrSpace (c : Char) : Bool :=
  c.isAlphanum || c = '_' || (0x9 ≤ c.toNat && c.toNat ≤ 0xD)
    || (0x2000 ≤ c.toNat && c.toNat ≤ 0x200A)
    || c.toNat ∈ [0x20, 0xA0, 0x1680, 0x2028, 0x2029, 0x202F, 0x205F, 0x3000, 0xFEFF]

/-- The rest of the text after some `[\w\s]+`. -/
def afterWord (cs : List Char) : Option (List Char) :=
  if cs.head?.any isWordOrSpace then some (cs.dropWhile isWordOrSpace)
  else none

/-- The text begins with three words that are joined by dots. -/
def isEventMessageOptions (eventName : String) : Bool :=
  match afterWord eventName.toList with
  | some ('.' :: rest) =>
    match afterWord rest with
    | some ('.' :: rest) => (afterWord rest).isSome
    | _ => false
  | _ => false

/-- The types that are read back; the others give `null`. -/
def getEventMessageObjectByType (msg : EventMessage) : Option EventMessage :=
  match msg.type with
  | .generic | .workflow | .audit | .node => some msg
  | _ => none

def Line.read (line : Line) : Option EventMessage :=
  line.message.bind fun msg =>
    if isEventMessageOptions msg.eventName then
      getEventMessageObjectByType msg
    else none

/-- `msg.payload?.executionId`, where an empty text counts as none. -/
def EventMessage.execution (msg : EventMessage) : Option ExecutionId :=
  msg.executionId.filter fun executionId => executionId ≠ ""

/-! ## What a message does to the table -/

/-- The execution is entered afresh. -/
def Restarts (msg : EventMessage) : Prop := msg.eventName = "n8n.workflow.started"

/-- The execution is taken out. -/
def Closes (msg : EventMessage) : Prop :=
  msg.eventName ∈ ["n8n.workflow.success", "n8n.workflow.failed",
    "n8n.execution.throttled", "n8n.execution.started-during-bootup"]

/-- The message is kept with the execution. -/
def NodeEvent (msg : EventMessage) : Prop :=
  msg.eventName ∈ ["n8n.node.started", "n8n.node.finished"]

instance (msg : EventMessage) : Decidable (Restarts msg) := inferInstanceAs (Decidable (_ = _))

instance (msg : EventMessage) : Decidable (Closes msg) := inferInstanceAs (Decidable (_ ∈ _))

instance (msg : EventMessage) : Decidable (NodeEvent msg) := inferInstanceAs (Decidable (_ ∈ _))

/-- A started or node event. -/
def Opens (msg : EventMessage) : Prop := Restarts msg ∨ NodeEvent msg

instance (msg : EventMessage) : Decidable (Opens msg) := inferInstanceAs (Decidable (_ ∨ _))

def Cancelled (msg : EventMessage) : Prop := msg.eventName = "n8n.workflow.cancelled"

/-- An event after which the execution has ended. -/
def Terminal (msg : EventMessage) : Prop :=
  msg.eventName ∈ ["n8n.workflow.success", "n8n.workflow.failed"] ∨ Cancelled msg

/-- The messages of one execution, if it is in the table. -/
def follow (messages : Option (List EventMessage)) (msg : EventMessage) :
    Option (List EventMessage) :=
  if Restarts msg then some [msg]
  else if Closes msg then none
  else if NodeEvent msg then some (messages.getD [] ++ [msg])
  else messages

abbrev Unfinished := OrderedMap ExecutionId (List EventMessage)

/-- The `switch` over the event names. -/
def track (unfinishedExecutions : Unfinished) (msg : EventMessage) : Unfinished :=
  match msg.execution with
  | none => unfinishedExecutions
  | some executionId =>
    if Restarts msg then unfinishedExecutions.set executionId [msg]
    else if Closes msg then unfinishedExecutions.delete executionId
    else if NodeEvent msg then
      unfinishedExecutions.set executionId
        ((unfinishedExecutions.get? executionId).getD [] ++ [msg])
    else unfinishedExecutions

/-! ## Reading the files -/

/-- `EventMessageReturnMode`. -/
inductive EventMessageReturnMode where
  | sent | unsent | all | unfinished
deriving DecidableEq

structure ReadMessagesFromLogFileResult where
  loggedMessages : List EventMessage
  sentMessages : List EventMessage
  unfinishedExecutions : Unfinished

def readLine (mode : EventMessageReturnMode)
    (results : ReadMessagesFromLogFileResult) (line : Line) :
    ReadMessagesFromLogFileResult :=
  let results := match line.read with
    | none => results
    | some msg =>
      { results with
        loggedMessages := results.loggedMessages ++ [msg]
        unfinishedExecutions := track results.unfinishedExecutions msg }
  match line.confirm with
  | none => results
  | some confirm =>
    if mode = .all then results
    else
      -- `remove` takes the messages out and returns them.
      let removedMessage := results.loggedMessages.filter fun e =>
        e.id = confirm
      let results := { results with
        loggedMessages := results.loggedMessages.filter fun e =>
          e.id ≠ confirm }
      if mode = .sent then
        { results with
          sentMessages := results.sentMessages ++ removedMessage }
      else results

def readLoggedMessagesFromFile (results : ReadMessagesFromLogFileResult)
    (mode : EventMessageReturnMode) (lines : List Line) :
    ReadMessagesFromLogFileResult :=
  lines.foldl (readLine mode) results

/-- The files are read from the oldest to the current one. -/
def getMessages (mode : EventMessageReturnMode) (files : List (List Line)) :
    ReadMessagesFromLogFileResult :=
  files.foldl (fun results lines =>
      readLoggedMessagesFromFile results mode lines)
    { loggedMessages := [], sentMessages := []
      unfinishedExecutions := .empty }

/-- The events of one execution, in the order of the lines. -/
def eventsOf (executionId : ExecutionId) (lines : List Line) : List EventMessage :=
  lines.filterMap fun line =>
    line.read.filter fun msg => msg.execution = some executionId

/-! ## The table follows each execution -/

theorem track_get? (unfinished : Unfinished) (msg : EventMessage) (executionId : ExecutionId) :
    (track unfinished msg).get? executionId
      = if msg.execution = some executionId then
          follow (unfinished.get? executionId) msg
        else unfinished.get? executionId := by
  rw [track]
  rcases hexecution : msg.execution with _ | other
  · rfl
  · by_cases hother : other = executionId
    · subst hother
      simp only [if_true, follow]
      split
      · exact (OrderedMap.get?_set ..).trans (if_pos rfl)
      · split
        · exact (OrderedMap.get?_delete ..).trans (if_pos rfl)
        · split
          · exact (OrderedMap.get?_set ..).trans (if_pos rfl)
          · rfl
    · rw [if_neg fun h => hother (Option.some.inj h)]
      simp only
      split
      · exact (OrderedMap.get?_set ..).trans (if_neg hother)
      · split
        · exact (OrderedMap.get?_delete ..).trans (if_neg (Ne.symm hother))
        · split
          · exact (OrderedMap.get?_set ..).trans (if_neg hother)
          · rfl

theorem readLine_unfinishedExecutions (mode : EventMessageReturnMode)
    (results : ReadMessagesFromLogFileResult) (line : Line) :
    (readLine mode results line).unfinishedExecutions
      = (line.read.map (track results.unfinishedExecutions)).getD results.unfinishedExecutions := by
  rw [readLine]
  rcases line.read with _ | msg <;> rcases line.confirm with _ | confirm
  · rfl
  · simp only
    split
    · rfl
    · split <;> rfl
  · rfl
  · simp only
    split
    · rfl
    · split <;> rfl

theorem eventsOf_cons (executionId : ExecutionId) (line : Line) (l : List Line) :
    eventsOf executionId (line :: l)
      = (line.read.filter fun msg =>
          msg.execution = some executionId).toList
        ++ eventsOf executionId l := by
  rw [eventsOf, filterMap_cons]
  split
  · rename_i hnone
    rw [hnone]
    rfl
  · rename_i msg hsome
    rw [hsome]
    rfl

theorem eventsOf_append (executionId : ExecutionId) (l l' : List Line) :
    eventsOf executionId (l ++ l') = eventsOf executionId l ++ eventsOf executionId l' :=
  filterMap_append ..

section

variable (mode : EventMessageReturnMode) (executionId : ExecutionId)

/-- **ONE FILE**: each execution is followed through its own events. -/
theorem readFile_get? (results : ReadMessagesFromLogFileResult) (lines : List Line) :
    (readLoggedMessagesFromFile results mode lines).unfinishedExecutions.get? executionId
      = (eventsOf executionId lines).foldl follow
          (results.unfinishedExecutions.get? executionId) := by
  unfold readLoggedMessagesFromFile
  induction lines generalizing results with
  | nil => rfl
  | cons line rest ih =>
    rw [foldl_cons, ih, readLine_unfinishedExecutions, eventsOf_cons, foldl_append]
    rcases line.read with _ | msg
    · rfl
    · simp only [Option.map_some, Option.getD_some, track_get?, Option.filter_some]
      by_cases hmsg : msg.execution = some executionId
      · rw [if_pos hmsg, if_pos (decide_eq_true hmsg)]
        rfl
      · rw [if_neg hmsg, if_neg (by simpa using hmsg)]
        rfl

/-- **ALL FILES** are read as one. -/
theorem getMessages_get? (files : List (List Line)) :
    (getMessages mode files).unfinishedExecutions.get? executionId
      = (eventsOf executionId files.flatten).foldl follow none := by
  have hfiles : ∀ results : ReadMessagesFromLogFileResult,
      (files.foldl (fun results lines =>
          readLoggedMessagesFromFile results mode lines)
        results).unfinishedExecutions.get? executionId
        = (eventsOf executionId files.flatten).foldl follow
            (results.unfinishedExecutions.get? executionId) := by
    induction files with
    | nil => exact fun _ => rfl
    | cons lines rest ih =>
      intro results
      rw [foldl_cons, ih, readFile_get?, flatten_cons, eventsOf_append, foldl_append]
  exact hfiles _

end

/-! ## What is listed -/

variable {msg : EventMessage}

theorem not_closes_of_opens (h : Opens msg) : ¬ Closes msg := by
  rintro hcloses
  rcases h with h | h
  · rw [Closes, h] at hcloses
    exact absurd hcloses (by decide)
  · rcases mem_cons.mp h with h | h
    · rw [Closes, h] at hcloses
      exact absurd hcloses (by decide)
    · rw [Closes, mem_singleton.mp h] at hcloses
      exact absurd hcloses (by decide)

theorem not_nodeEvent_of_restarts (h : Restarts msg) : ¬ NodeEvent msg := by
  rw [NodeEvent, h]
  decide

/-- **LISTED**: an execution is in the table exactly when one of its opening
    events has no later closing event. -/
theorem listed_iff (mode : EventMessageReturnMode) (executionId : ExecutionId)
    (files : List (List Line)) :
    ((getMessages mode files).unfinishedExecutions.get? executionId).isSome = true
      ↔ StaysSet Opens Closes (eventsOf executionId files.flatten) := by
  rw [getMessages_get?]
  refine holds_foldl_iff (P := fun messages : Option (List EventMessage) =>
    messages.isSome = true) ?_ ?_ ?_ (by simp) _
  · intro messages msg hopens
    have hcloses := not_closes_of_opens hopens
    rw [follow, if_neg hcloses]
    split
    · rfl
    · rename_i hrestarts
      rw [if_pos (hopens.resolve_left hrestarts)]
      rfl
  · intro messages msg hcloses
    rw [follow, if_neg fun h => not_closes_of_opens (.inl h) hcloses, if_pos hcloses]
    simp
  · intro messages msg hopens hcloses
    rw [follow, if_neg fun h => hopens (.inl h), if_neg hcloses, if_neg fun h => hopens (.inr h)]

/-- `toRelevantMessages` takes the messages whose name begins so. -/
def isNodeMessage (msg : EventMessage) : Bool := "n8n.node.".toList.isPrefixOf msg.eventName.toList

theorem opens_of_follow {es : List EventMessage}
    {messages : List EventMessage} (h : es.foldl follow none = some messages) :
    ∀ msg ∈ messages, Opens msg := by
  induction es using List.reverseRecOn generalizing messages with
  | nil => cases h
  | append_singleton es e ih =>
    rw [foldl_append, foldl_cons, foldl_nil, follow] at h
    split at h
    · rename_i hrestarts
      cases h
      intro msg hmem
      rw [mem_singleton.mp hmem]
      exact .inl hrestarts
    · split at h
      · cases h
      · split at h
        · rename_i hnode
          cases h
          intro msg hmem
          rcases mem_append.mp hmem with hmem | hmem
          · rcases hold : es.foldl follow none with _ | old
            · rw [hold] at hmem
              cases hmem
            · rw [hold] at hmem
              exact ih hold msg hmem
          · rw [mem_singleton.mp hmem]
            exact .inr hnode
        · exact ih h

theorem isNodeMessage_iff (h : Opens msg) : isNodeMessage msg = true ↔ NodeEvent msg := by
  rcases h with h | h
  · refine iff_of_false ?_ (not_nodeEvent_of_restarts h)
    rw [isNodeMessage, h]
    decide
  · refine iff_of_true ?_ h
    rcases mem_cons.mp h with h | h
    · rw [isNodeMessage, h]
      decide
    · rw [isNodeMessage, mem_singleton.mp h]
      decide

/-- **NODE MESSAGES** are recorded exactly when a node event has no later
    start and no later closing event. -/
theorem recorded_node_iff (es : List EventMessage) :
    (∃ messages, es.foldl follow none = some messages
        ∧ messages.any isNodeMessage = true)
      ↔ StaysSet NodeEvent (fun e => Restarts e ∨ Closes e) es := by
  have hiff : ∀ messages, es.foldl follow none = some messages →
      (messages.any isNodeMessage = true ↔ ∃ msg ∈ messages, NodeEvent msg) := by
    intro messages h
    rw [any_eq_true]
    exact exists_congr fun msg => and_congr_right fun hmem =>
      isNodeMessage_iff (opens_of_follow h msg hmem)
  have hlatch : (∃ ms, es.foldl follow none = some ms
      ∧ ∃ msg ∈ ms, NodeEvent msg)
      ↔ StaysSet NodeEvent (fun e => Restarts e ∨ Closes e) es := by
    refine holds_foldl_iff
      (P := fun messages : Option (List EventMessage) =>
        ∃ ms, messages = some ms ∧ ∃ msg ∈ ms, NodeEvent msg)
      (f := follow) (s := none) ?_ ?_ ?_ (by simp) es
    · intro messages msg hnode
      rw [follow, if_neg fun h => not_nodeEvent_of_restarts h hnode,
        if_neg (not_closes_of_opens (.inr hnode)), if_pos hnode]
      exact ⟨_, rfl, msg, by simp, hnode⟩
    · rintro messages msg (hrestarts | hcloses) ⟨ms, heq, other, hmem, hnode⟩
      · rw [follow, if_pos hrestarts] at heq
        cases heq
        rw [mem_singleton.mp hmem] at hnode
        exact not_nodeEvent_of_restarts hrestarts hnode
      · rw [follow, if_neg fun h => not_closes_of_opens (.inl h) hcloses, if_pos hcloses] at heq
        cases heq
    · intro messages msg hnode hother
      rw [follow, if_neg fun h => hother (.inl h), if_neg fun h => hother (.inr h), if_neg hnode]
  rw [← hlatch]
  refine exists_congr fun messages => and_congr_right fun h => ?_
  exact hiff messages h

/-! ## Cancelled executions -/

/-- A cancelled event that follows the last opening event of an execution
    does not come without a closing event. -/
def CancelledCloses (es : List EventMessage) : Prop :=
  ∀ pre e post, es = pre ++ e :: post → Opens e → (∀ b ∈ post, ¬ Opens b) →
    (∃ b ∈ post, Cancelled b) → ∃ b ∈ post, Closes b

/-- **ONLY UNENDED** executions are listed exactly when every cancelled
    event comes with a closing event. -/
theorem listed_only_unended_iff (es : List EventMessage) :
    (StaysSet Opens Closes es → StaysSet Opens Terminal es) ↔ CancelledCloses es := by
  rw [staysSet_imp_iff]
  constructor
  · rintro h pre e post heq ha hlast ⟨b, hb, hcancelled⟩
    exact h pre e post heq ha hlast ⟨b, hb, .inr hcancelled⟩
  · rintro h pre e post heq ha hlast ⟨b, hb, hends | hcancelled⟩
    · refine ⟨b, hb, ?_⟩
      rw [Closes]
      rcases mem_cons.mp hends with hname | hname
      · simp [hname]
      · simp [mem_singleton.mp hname]
    · exact h pre e post heq ha hlast ⟨b, hb, hcancelled⟩

end N8nEventLog
