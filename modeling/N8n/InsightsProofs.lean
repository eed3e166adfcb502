import Mathlib.Tactic.IntervalCases
import N8n.InfiniteRunProofs
import N8n.ConcurrencyQueueProofs
import N8n.CrashRecoveryProofs

/-! # Insights — events in the buffer, in flight and in the database

    A flush takes the whole buffer, looks up the projects of the workflows,
    writes metadata for them, reads it back and inserts all events at once.
    It is suspended at each of these four queries, so a flush that is in
    progress is part of the state, with the query it waits for.  When one of
    them fails, or an event has no metadata, all its events go back.

    No event is lost or doubled, whatever fails.  Once the database works,
    the events are saved as long as each of them has an owning project or
    cached metadata (`delivers_of_saveable`); a single event that has neither
    keeps the others from being saved. -/

namespace N8nInsights

open N8nInfiniteRun N8nOrderedMap List OrderedMap
open N8nCrashRecovery (ExecutionStatus)

abbrev WorkflowId := String

abbrev WorkflowExecuteMode := N8nConcurrencyQueue.ExecutionMode

/-- Flushes are numbered in the order they start. -/
abbrev FlushId := Nat

/-! ## Data -/

inductive InsightType where
  | success | failure | runtime_ms | time_saved_min
deriving DecidableEq

/-- An event; `id` is the identity of the object. -/
structure BufferedInsight where
  id : Nat
  workflowId : WorkflowId
  workflowName : String
  type : InsightType
  value : Int
  timestamp : Int
deriving DecidableEq

structure Project where
  id : String
  name : String
deriving DecidableEq

/-- `InsightsMetadata` without its key. -/
structure MetadataFields where
  workflowId : WorkflowId
  projectId : String
  projectName : String
  workflowName : String
deriving DecidableEq

structure InsightsMetadata where
  metaId : Nat
  fields : MetadataFields
deriving DecidableEq

/-- The query a flush waits for, with what it goes on with. -/
inductive Stage where
  /-- `sharedWorkflowRepository.find` -/
  | finding
  /-- `insightsMetadataRepository.upsert` -/
  | upserting (metadataToUpsert : List MetadataFields)
  /-- `insightsMetadataRepository.findBy` -/
  | fetching (workflowIds : List WorkflowId)
  /-- `insightsRawRepository.insert`; a row is an event and its `metaId` -/
  | inserting (events : List (Nat × BufferedInsight))
deriving DecidableEq

structure Flush where
  bufferedInsightsToFlush : List BufferedInsight
  stage : Stage
deriving DecidableEq

/-- The tables the flushes use.  `owners` is the project of the
    `workflow:owner` row of a workflow, `raw` all rows there have been. -/
structure Database where
  owners : OrderedMap WorkflowId Project
  metadata : OrderedMap WorkflowId InsightsMetadata
  nextMetaId : Nat
  raw : List (Nat × BufferedInsight)
deriving DecidableEq

/-- The service.  `awaited` are the flushes that `shutdown` waits for, and
    `collected` all events there have been. -/
structure Insights where
  cachedMetadata : OrderedMap WorkflowId InsightsMetadata
  bufferedInsights : List BufferedInsight
  flushInsightsRawBufferTimer : Bool
  isAsynchronouslySavingInsights : Bool
  flushesInProgress : OrderedMap FlushId Flush
  isInitialized : Bool
  awaited : Option (List FlushId)
  nextFlush : FlushId
  collected : List BufferedInsight
  database : Database
deriving DecidableEq

/-! ## Collecting -/

/-- What is read of a finished execution; the times saved by its nodes are
    `nodeTimeSaved`. -/
structure WorkflowExecuteAfterContext where
  workflowId : WorkflowId
  workflowName : String
  status : ExecutionStatus
  mode : WorkflowExecuteMode
  startedAt : Int
  stoppedAt : Option Int
  now : Int
  timeSavedPerExecution : Option Int
  timeSavedIsDynamic : Bool
  nodeTimeSaved : List Int
deriving DecidableEq

def shouldSkipStatus : ExecutionStatus → Bool
  | .success => false
  | .crashed => false
  | .error => false
  | .canceled => true
  | .new => true
  | .running => true
  | .unknown => true
  | .waiting => true

def shouldSkipMode : WorkflowExecuteMode → Bool
  | .cli => false
  | .error => false
  | .retry => false
  | .trigger => false
  | .webhook => false
  | .evaluation => false
  | .integrated => true
  | .internal => true
  | .manual => true
  | .chat => true

def MIN_RUNTIME : Int := 0

def MAX_RUNTIME : Int := 2 ^ 31 - 1

def calculateTimeSaved (ctx : WorkflowExecuteAfterContext) : Int :=
  if ctx.timeSavedIsDynamic then ctx.nodeTimeSaved.sum
  else ctx.timeSavedPerExecution.getD 0

/-- The types and values of the events of an execution. -/
def insightsOf (ctx : WorkflowExecuteAfterContext) : List (InsightType × Int) :=
  let status : InsightType :=
    if ctx.status = .success then .success else .failure
  let runtime := ctx.stoppedAt.map fun stoppedAt =>
    (InsightType.runtime_ms, min (max (stoppedAt - ctx.startedAt) MIN_RUNTIME) MAX_RUNTIME)
  let timeSaved :=
    if status = .success then
      [(InsightType.time_saved_min, calculateTimeSaved ctx)]
    else []
  (status, 1) :: (runtime.toList ++ timeSaved)

/-- The events themselves, numbered from `next` on. -/
def eventsOf (ctx : WorkflowExecuteAfterContext) (next : Nat) : List BufferedInsight :=
  ((insightsOf ctx).zipIdx next).map fun ((type, value), id) =>
    { id
      workflowId := ctx.workflowId
      workflowName := ctx.workflowName
      type
      value
      timestamp := ctx.now }

namespace Insights

/-! ## Flushing -/

def cancelScheduledFlushing (s : Insights) : Insights :=
  { s with flushInsightsRawBufferTimer := false }

def scheduleFlushing (s : Insights) : Insights :=
  if s.isInitialized then { s with flushInsightsRawBufferTimer := true }
  else s

def init (s : Insights) : Insights :=
  scheduleFlushing { s with
    isInitialized := true
    isAsynchronouslySavingInsights := true }

/-- `flushEvents` up to its first query. -/
def flushEvents (s : Insights) : Insights :=
  if !s.isInitialized then s
  else if s.bufferedInsights.length = 0 then s.scheduleFlushing
  else
    { s.cancelScheduledFlushing with
      bufferedInsights := []
      flushesInProgress := s.flushesInProgress.set s.nextFlush
        { bufferedInsightsToFlush := s.bufferedInsights, stage := .finding }
      nextFlush := s.nextFlush + 1 }

/-- `handleWorkflowExecuteAfter` up to the flush it waits for in a shutdown;
    after that it flushes once more if the buffer is full again. -/
def handleWorkflowExecuteAfter (flushBatchSize : Nat) (s : Insights)
    (ctx : WorkflowExecuteAfterContext) : Insights :=
  if !s.isInitialized then s
  else if shouldSkipStatus ctx.status || shouldSkipMode ctx.mode then s
  else
    let events := eventsOf ctx s.collected.length
    let s := { s with
      bufferedInsights := s.bufferedInsights ++ events
      collected := s.collected ++ events }
    if !s.isAsynchronouslySavingInsights then s.flushEvents
    else if s.bufferedInsights.length ≥ flushBatchSize then s.flushEvents
    else s

def add (buffer : List BufferedInsight) (event : BufferedInsight) : List BufferedInsight :=
  if event ∈ buffer then buffer else buffer ++ [event]

/-- The `finally` block. -/
def endFlush (s : Insights) (id : FlushId) : Insights :=
  { s.scheduleFlushing with
    flushesInProgress := s.flushesInProgress.delete id }

/-- The `catch` block: the events go back to the buffer. -/
def failFlush (s : Insights) (id : FlushId) (f : Flush) : Insights :=
  endFlush { s with
    bufferedInsights := f.bufferedInsightsToFlush.foldl add
      s.bufferedInsights } id

def setStage (s : Insights) (id : FlushId) (f : Flush) (stage : Stage) : Insights :=
  { s with
    flushesInProgress := s.flushesInProgress.set id { f with stage } }

/-- The names of the workflows; the last event counts. -/
def workflowIdNames (events : List BufferedInsight) : OrderedMap WorkflowId String :=
  events.foldl (fun names event =>
    names.set event.workflowId event.workflowName) .empty

/-- The metadata that is new or has changed, of the workflows that have an
    owning project. -/
def metadataToUpsert (s : Insights) (events : List BufferedInsight) : List MetadataFields :=
  (workflowIdNames events).entries.filterMap fun (workflowId, workflowName) =>
    match s.database.owners.get? workflowId with
    | none => none
    | some project =>
      let fields : MetadataFields :=
        { workflowId
          projectId := project.id
          projectName := project.name
          workflowName }
      if (s.cachedMetadata.get? workflowId).map (·.fields) = some fields
      then none
      else some fields

/-- A row is inserted, or updated and keeps its key. -/
def upsert (d : Database) (fields : MetadataFields) : Database :=
  match d.metadata.get? fields.workflowId with
  | some row =>
    { d with
      metadata := d.metadata.set fields.workflowId { row with fields } }
  | none =>
    { d with
      metadata := d.metadata.set fields.workflowId
        { metaId := d.nextMetaId, fields }
      nextMetaId := d.nextMetaId + 1 }

/-- The rows that are read back go to the cache. -/
def cacheMetadata (s : Insights) (workflowIds : List WorkflowId) : Insights :=
  { s with
    cachedMetadata := workflowIds.foldl (fun cache workflowId =>
      match s.database.metadata.get? workflowId with
      | none => cache
      | some row => cache.set workflowId row) s.cachedMetadata }

/-- The rows for the events; `none` when one has no metadata. -/
def rowsOf (s : Insights) (events : List BufferedInsight) : Option (List (Nat × BufferedInsight)) :=
  events.mapM fun event =>
    (s.cachedMetadata.get? event.workflowId).map fun row =>
      (row.metaId, event)

/-- The query that the flush waits for has an answer, or fails. -/
def advance (s : Insights) (id : FlushId) (f : Flush) (ok : Bool) : Insights :=
  if !ok then s.failFlush id f
  else
    match f.stage with
    | .finding =>
      s.setStage id f (.upserting (s.metadataToUpsert f.bufferedInsightsToFlush))
    | .upserting metadata =>
      { s with database := metadata.foldl upsert s.database }.setStage
        id f (.fetching (metadata.map MetadataFields.workflowId))
    | .fetching workflowIds =>
      let s := s.cacheMetadata workflowIds
      match s.rowsOf f.bufferedInsightsToFlush with
      | none => s.failFlush id f
      | some events => s.setStage id f (.inserting events)
    | .inserting events =>
      endFlush { s with
        database := { s.database with
          raw := s.database.raw ++ events } } id

/-! ## Shutting down -/

/-- `shutdown` up to its `await`. -/
def shutdown (s : Insights) : Insights :=
  let s := { s.cancelScheduledFlushing with
    isAsynchronouslySavingInsights := false }
  let s := s.flushEvents
  { s with awaited := some s.flushesInProgress.keys }

def shutdownDone (s : Insights) : Insights :=
  { s with isInitialized := false, awaited := none }

end Insights

/-! ## Runs -/

inductive Event where
  | init
  | handleWorkflowExecuteAfter (ctx : WorkflowExecuteAfterContext)
  /-- A flush, whoever calls for it. -/
  | flushEvents
  | timer
  | advance (id : FlushId) (ok : Bool)
  | shutdown
  | shutdownDone
  /-- A workflow gets an owning project, or another one. -/
  | share (workflowId : WorkflowId) (project : Project)
  /-- A workflow is deleted, and its metadata loses the id. -/
  | deleteWorkflow (workflowId : WorkflowId)
deriving DecidableEq

namespace Insights

def next (flushBatchSize : Nat) (s : Insights) : Event → Insights
  | .init => s.init
  | .handleWorkflowExecuteAfter ctx => s.handleWorkflowExecuteAfter flushBatchSize ctx
  | .flushEvents => s.flushEvents
  | .timer => s.cancelScheduledFlushing.flushEvents
  | .advance id ok =>
    match s.flushesInProgress.get? id with
    | none => s
    | some f => s.advance id f ok
  | .shutdown => s.shutdown
  | .shutdownDone => s.shutdownDone
  | .share workflowId project =>
    { s with
      database := { s.database with
        owners := s.database.owners.set workflowId project } }
  | .deleteWorkflow workflowId =>
    { s with
      database := { s.database with
        owners := s.database.owners.delete workflowId
        metadata := s.database.metadata.delete workflowId } }

/-- A query has an answer when it was asked, a timer fires when it runs, and
    `shutdown` goes on when the flushes it waits for are over. -/
def Enabled (s : Insights) : Event → Prop
  | .timer => s.flushInsightsRawBufferTimer = true
  | .advance id _ => s.flushesInProgress.has id = true
  | .shutdownDone => ∃ ids, s.awaited = some ids ∧ ∀ id ∈ ids, s.flushesInProgress.has id = false
  | _ => True

def Step (flushBatchSize : Nat) (s : Insights) (e : Event) (s' : Insights) : Prop :=
  s.Enabled e ∧ s' = s.next flushBatchSize e

/-- The service before `init`, with an empty database. -/
def start : Insights :=
  { cachedMetadata := .empty
    bufferedInsights := []
    flushInsightsRawBufferTimer := false
    isAsynchronouslySavingInsights := true
    flushesInProgress := .empty
    isInitialized := false
    awaited := none
    nextFlush := 0
    collected := []
    database :=
      { owners := .empty, metadata := .empty, nextMetaId := 1, raw := [] } }

/-! ## The property and the condition -/

def inFlight (s : Insights) : List BufferedInsight :=
  s.flushesInProgress.entries.flatMap fun p => p.2.bufferedInsightsToFlush

def unsaved (s : Insights) : List BufferedInsight := s.bufferedInsights ++ s.inFlight

def saved (s : Insights) : List BufferedInsight := s.database.raw.map Prod.snd

/-- Each event that was collected is in one place, once. -/
def InOnePlace (s : Insights) : Prop := s.collected.Nodup ∧ (s.unsaved ++ s.saved).Perm s.collected

def HasOwner (s : Insights) (event : BufferedInsight) : Prop :=
  s.database.owners.has event.workflowId = true

/-- Every event that is not saved has an owning project, or metadata in the
    cache. -/
def Saveable (s : Insights) : Prop :=
  ∀ event ∈ s.unsaved, s.HasOwner event ∨ s.cachedMetadata.has event.workflowId = true

end Insights

open Insights

variable {flushBatchSize : Nat}

/-- What "the next flushes" takes, from time `n` on: the database works, a
    query has an answer at last, a timer that is not stopped fires at last,
    and the service is not stopped while the event is in the buffer. -/
structure NextFlushes (run : InfiniteRun (Step flushBatchSize)) (n : Nat)
    (event : BufferedInsight) : Prop where
  works : ∀ m, n ≤ m → ∀ id ok, run.event m = .advance id ok → ok = true
  answered : ∀ m, n ≤ m → ∀ id, (run.state m).flushesInProgress.has id = true →
      ∃ k, m ≤ k ∧ ∃ ok, run.event k = .advance id ok
  fires : ∀ m, n ≤ m → ∃ k, m ≤ k
    ∧ ((run.state k).flushInsightsRawBufferTimer = false ∨ run.event k = .timer)
  running : ∀ m, n ≤ m → event ∈ (run.state m).bufferedInsights → (run.state m).isInitialized = true

/-- Once the database works, the events of workflows that have an owning
    project are saved at last. -/
def Delivers (run : InfiniteRun (Step flushBatchSize)) (n : Nat) : Prop :=
  ∀ event ∈ (run.state n).unsaved, (∀ m, n ≤ m → (run.state m).HasOwner event) →
    NextFlushes run n event → ∃ m, n ≤ m ∧ event ∈ (run.state m).saved

namespace Insights

/-! ## No event is lost or doubled -/

section

variable {s : Insights} {id : FlushId} {f : Flush}

theorem foldl_add {buffer batch : List BufferedInsight} (h : (buffer ++ batch).Nodup) :
    batch.foldl add buffer = buffer ++ batch := by
  induction batch generalizing buffer with
  | nil => exact (append_nil buffer).symm
  | cons event batch ih =>
    have hnew : event ∉ buffer := by
      intro hmem
      exact (nodup_append.mp h).2.2 event hmem event (mem_cons_self ..) rfl
    rw [append_cons] at h
    rw [foldl_cons, add, if_neg hnew, ih h, ← append_cons]

theorem ids_eventsOf (ctx : WorkflowExecuteAfterContext) (next : Nat) :
    (eventsOf ctx next).map BufferedInsight.id = List.range' next (eventsOf ctx next).length := by
  rw [eventsOf, map_map, length_map, length_zipIdx]
  exact zipIdx_map_snd ..

theorem inFlight_of_get? (hget : s.flushesInProgress.get? id = some f) :
    s.inFlight.Perm (f.bufferedInsightsToFlush
      ++ s.flushesInProgress.rest id fun p => p.2.bufferedInsightsToFlush) :=
  flatMap_of_get? hget _

theorem inFlight_setStage (hget : s.flushesInProgress.get? id = some f)
    (stage : Stage) : (s.setStage id f stage).inFlight.Perm s.inFlight :=
  (flatMap_set ..).trans (inFlight_of_get? hget).symm

theorem raw_upsert (d : Database) (fields : MetadataFields) : (upsert d fields).raw = d.raw := by
  rw [upsert]
  split
  · rfl
  · rfl

theorem raw_foldl_upsert (d : Database) (metadata : List MetadataFields) :
    (metadata.foldl upsert d).raw = d.raw := by
  induction metadata generalizing d with
  | nil => rfl
  | cons fields metadata ih => exact (ih _).trans (raw_upsert d fields)

theorem map_snd_rowsOf {events : List BufferedInsight}
    {rows : List (Nat × BufferedInsight)} (h : s.rowsOf events = some rows) :
    rows.map Prod.snd = events := by
  induction events generalizing rows with
  | nil =>
    cases h
    rfl
  | cons event events ih =>
    rw [rowsOf, mapM_cons] at h
    obtain ⟨row, hrow, h⟩ := Option.bind_eq_some_iff.mp h
    obtain ⟨rest, hrest, h⟩ := Option.bind_eq_some_iff.mp h
    cases h
    obtain ⟨metadata, -, rfl⟩ := Option.map_eq_some_iff.mp hrow
    rw [map_cons, ih hrest]

/-- The invariant.  Events are numbered as they come; a flush has a number
    of its own, and its rows are those of its events. -/
structure Placed (s : Insights) : Prop where
  ids : s.collected.map BufferedInsight.id = List.range s.collected.length
  place : (s.unsaved ++ s.saved).Perm s.collected
  fresh : ∀ id, s.flushesInProgress.has id = true → id < s.nextFlush
  rows : ∀ id f events, s.flushesInProgress.get? id = some f →
    f.stage = .inserting events → events.map Prod.snd = f.bufferedInsightsToFlush

theorem Placed.nodup (h : Placed s) : s.collected.Nodup := by
  refine List.Nodup.of_map BufferedInsight.id ?_
  rw [h.ids]
  exact nodup_range

theorem Placed.inOnePlace (h : Placed s) : s.InOnePlace := ⟨h.nodup, h.place⟩

theorem placed_start : Placed start where
  ids := rfl
  place := List.Perm.refl _
  fresh := fun _ h => by cases h
  rows := fun _ _ _ h => by cases h

theorem Placed.scheduleFlushing (h : Placed s) : Placed s.scheduleFlushing := by
  rw [Insights.scheduleFlushing]
  split
  · exact ⟨h.ids, h.place, h.fresh, h.rows⟩
  · exact h

theorem Placed.flushEvents (h : Placed s) : Placed s.flushEvents := by
  rw [Insights.flushEvents]
  split
  · exact h
  split
  · exact h.scheduleFlushing
  have hnew : s.flushesInProgress.get? s.nextFlush = none := by
    rw [← Option.not_isSome_iff_eq_none]
    exact fun hhas => Nat.lt_irrefl _ (h.fresh _ hhas)
  refine ⟨h.ids, ?_, fun id hid => ?_, fun id f events hid hstage => ?_⟩
  · refine List.Perm.trans (List.Perm.append_right _ ?_) h.place
    refine (flatMap_set ..).trans ?_
    rw [unsaved, inFlight, flatMap_of_get?_none hnew]
  · rw [OrderedMap.has, get?_set] at hid
    split at hid
    · next heq =>
        subst heq
        exact Nat.lt_succ_self _
    · exact Nat.lt_succ_of_lt (h.fresh id hid)
  · rw [get?_set] at hid
    split at hid
    · cases hid
      cases hstage
    · exact h.rows id f events hid hstage

theorem Placed.handleWorkflowExecuteAfter (h : Placed s)
    (flushBatchSize : Nat) (ctx : WorkflowExecuteAfterContext) :
    Placed (s.handleWorkflowExecuteAfter flushBatchSize ctx) := by
  rw [Insights.handleWorkflowExecuteAfter]
  split
  · exact h
  split
  · exact h
  have hcollect : Placed { s with
      bufferedInsights := s.bufferedInsights ++ eventsOf ctx s.collected.length
      collected := s.collected ++ eventsOf ctx s.collected.length } := by
    refine ⟨?_, ?_, h.fresh, h.rows⟩
    · rw [map_append, h.ids, ids_eventsOf, length_append, range_eq_range',
        range_eq_range', ← range'_append_1, Nat.zero_add]
    · refine List.Perm.trans ?_ (h.place.append_right _)
      simp only [unsaved, inFlight, saved, append_assoc]
      refine List.Perm.append_left _ ?_
      refine perm_append_comm.trans ?_
      rw [append_assoc]
  dsimp only
  split
  · exact hcollect.flushEvents
  split
  · exact hcollect.flushEvents
  · exact hcollect

theorem Placed.setStage (h : Placed s) (hget : s.flushesInProgress.get? id = some f) {stage : Stage}
    (hrows : ∀ events, stage = .inserting events →
      events.map Prod.snd = f.bufferedInsightsToFlush) :
    Placed (s.setStage id f stage) := by
  refine ⟨h.ids, ?_, fun id' hid => ?_, fun id' f' events hid hstage => ?_⟩
  · refine List.Perm.trans ?_ h.place
    exact ((inFlight_setStage hget stage).append_left _).append_right _
  · rw [Insights.setStage, OrderedMap.has, get?_set] at hid
    split at hid
    · next heq =>
        subst heq
        exact h.fresh id (by rw [OrderedMap.has, hget]; rfl)
    · exact h.fresh id' hid
  · rw [Insights.setStage, get?_set] at hid
    split at hid
    · cases hid
      exact hrows events hstage
    · exact h.rows id' f' events hid hstage

theorem Placed.endFlush {t : Insights} (h : Placed s) (hcollected : t.collected = s.collected)
    (hflushes : t.flushesInProgress = s.flushesInProgress) (hnext : t.nextFlush = s.nextFlush)
    (hplace : (t.bufferedInsights
      ++ s.flushesInProgress.rest id (fun p => p.2.bufferedInsightsToFlush)
      ++ t.saved).Perm s.collected) : Placed (t.endFlush id) := by
  have hdelete : (t.endFlush id).flushesInProgress = s.flushesInProgress.delete id := by
    rw [← hflushes]
    rfl
  have hfields : (t.endFlush id).collected = s.collected
      ∧ (t.endFlush id).nextFlush = s.nextFlush
      ∧ (t.endFlush id).bufferedInsights = t.bufferedInsights
      ∧ (t.endFlush id).saved = t.saved := by
    rw [← hcollected, ← hnext, Insights.endFlush, saved, saved, Insights.scheduleFlushing]
    split
    · exact ⟨rfl, rfl, rfl, rfl⟩
    · exact ⟨rfl, rfl, rfl, rfl⟩
  obtain ⟨hcollected, hnext, hbuffer, hsaved⟩ := hfields
  refine ⟨hcollected ▸ h.ids, ?_, fun id' hid => ?_, fun id' f' events hid hstage => ?_⟩
  · rw [unsaved, inFlight, hdelete, hbuffer, hsaved, hcollected]
    exact hplace
  · rw [hdelete, OrderedMap.has, get?_delete] at hid
    rw [hnext]
    split at hid
    · cases hid
    · exact h.fresh id' hid
  · rw [hdelete, get?_delete] at hid
    split at hid
    · cases hid
    · exact h.rows id' f' events hid hstage

section

variable (h : Placed s) (hget : s.flushesInProgress.get? id = some f)
include h hget

theorem Placed.place_of_get? : (s.bufferedInsights ++ f.bufferedInsightsToFlush
      ++ s.flushesInProgress.rest id (fun p => p.2.bufferedInsightsToFlush)
      ++ s.saved).Perm s.collected := by
  refine List.Perm.trans (List.Perm.append_right _ ?_) h.place
  rw [append_assoc, unsaved]
  exact (inFlight_of_get? hget).symm.append_left _

theorem Placed.failFlush : Placed (s.failFlush id f) := by
  have hplace := h.place_of_get? hget
  have hnodup := (hplace.nodup_iff.mpr h.nodup).of_append_left.of_append_left
  refine h.endFlush rfl rfl rfl ?_
  rw [foldl_add hnodup]
  exact hplace

theorem Placed.saveFlush {events : List (Nat × BufferedInsight)}
    (hstage : f.stage = .inserting events) :
    Placed (Insights.endFlush { s with
      database := { s.database with
        raw := s.database.raw ++ events } } id) := by
  refine h.endFlush rfl rfl rfl ?_
  refine List.Perm.trans ?_ (h.place_of_get? hget)
  rw [saved, map_append, h.rows id f events hget hstage]
  simp only [append_assoc]
  refine List.Perm.append_left _ ?_
  rw [← append_assoc]
  exact perm_append_comm

theorem Placed.advance (ok : Bool) : Placed (s.advance id f ok) := by
  rw [Insights.advance]
  split
  · exact h.failFlush hget
  split
  · exact h.setStage hget fun events heq => by cases heq
  · next metadata hstage =>
      have hupserted : Placed { s with
          database := metadata.foldl upsert s.database } := by
        refine ⟨h.ids, ?_, h.fresh, h.rows⟩
        rw [saved, raw_foldl_upsert]
        exact h.place
      exact hupserted.setStage hget fun events heq => by cases heq
  · next workflowIds hstage =>
      have hcached : Placed (s.cacheMetadata workflowIds) := ⟨h.ids, h.place, h.fresh, h.rows⟩
      dsimp only
      split
      · exact hcached.failFlush hget
      · next events hrows =>
          refine hcached.setStage hget fun events' heq => ?_
          cases heq
          exact map_snd_rowsOf hrows
  · next events hstage => exact h.saveFlush hget hstage

end

/-- **STEP**: no step loses or doubles an event, whatever fails. -/
theorem Placed.next (h : Placed s) (flushBatchSize : Nat) (e : Event) :
    Placed (s.next flushBatchSize e) := by
  cases e with
  | init =>
    have hinit : Placed { s with
        isInitialized := true
        isAsynchronouslySavingInsights := true } :=
      ⟨h.ids, h.place, h.fresh, h.rows⟩
    exact hinit.scheduleFlushing
  | handleWorkflowExecuteAfter ctx =>
    exact h.handleWorkflowExecuteAfter flushBatchSize ctx
  | flushEvents => exact h.flushEvents
  | timer =>
    have hcancel : Placed s.cancelScheduledFlushing := ⟨h.ids, h.place, h.fresh, h.rows⟩
    exact hcancel.flushEvents
  | advance id ok =>
    rw [Insights.next]
    split
    · exact h
    · next f hget => exact h.advance hget ok
  | shutdown =>
    have hcancel : Placed { s.cancelScheduledFlushing with
        isAsynchronouslySavingInsights := false } :=
      ⟨h.ids, h.place, h.fresh, h.rows⟩
    obtain ⟨hids, hplace, hfresh, hrows⟩ := hcancel.flushEvents
    exact ⟨hids, hplace, hfresh, hrows⟩
  | shutdownDone => exact ⟨h.ids, h.place, h.fresh, h.rows⟩
  | share workflowId project => exact ⟨h.ids, h.place, h.fresh, h.rows⟩
  | deleteWorkflow workflowId => exact ⟨h.ids, h.place, h.fresh, h.rows⟩

end

end Insights

namespace Insights

/-! ## What a step does to a flush and to the buffer -/

section

variable {s : Insights} {id : FlushId} {f : Flush} {event : BufferedInsight}

theorem mem_foldl_add {buffer batch : List BufferedInsight} :
    event ∈ batch.foldl add buffer ↔ event ∈ buffer ∨ event ∈ batch := by
  induction batch generalizing buffer with
  | nil => simp
  | cons x batch ih =>
    rw [foldl_cons, ih, mem_cons, add]
    split
    · next hx =>
        constructor
        · rintro (h | h)
          · exact .inl h
          · exact .inr (.inr h)
        · rintro (h | rfl | h)
          · exact .inl h
          · exact .inl hx
          · exact .inr h
    · rw [mem_append, mem_singleton, or_assoc]

theorem flushesInProgress_scheduleFlushing (s : Insights) :
    s.scheduleFlushing.flushesInProgress = s.flushesInProgress := by
  rw [scheduleFlushing]
  split
  · rfl
  · rfl

theorem bufferedInsights_scheduleFlushing (s : Insights) :
    s.scheduleFlushing.bufferedInsights = s.bufferedInsights := by
  rw [scheduleFlushing]
  split
  · rfl
  · rfl

theorem nextFlush_scheduleFlushing (s : Insights) : s.scheduleFlushing.nextFlush = s.nextFlush := by
  rw [scheduleFlushing]
  split
  · rfl
  · rfl

/-- The timer runs when no flush is in progress. -/
def Timed (s : Insights) : Prop :=
  s.isInitialized = true → s.flushInsightsRawBufferTimer = true
    ∨ ∃ id, s.flushesInProgress.has id = true

section

variable (s : Insights)

theorem timed_scheduleFlushing : Timed s.scheduleFlushing := by
  intro hinit
  rw [scheduleFlushing] at hinit ⊢
  split at hinit
  · next h =>
      rw [if_pos h]
      exact .inl rfl
  · next h => exact absurd hinit h

theorem timed_flushEvents : Timed s.flushEvents := by
  rw [flushEvents]
  split
  · next hinit =>
      intro h
      rw [h] at hinit
      cases hinit
  split
  · exact timed_scheduleFlushing s
  · intro _
    refine .inr ⟨s.nextFlush, ?_⟩
    rw [OrderedMap.has, get?_set, if_pos rfl]
    rfl

theorem timed_endFlush (id : FlushId) : Timed (s.endFlush id) := by
  intro hinit
  rw [endFlush, scheduleFlushing] at hinit ⊢
  split at hinit
  · next h =>
      rw [if_pos h]
      exact .inl rfl
  · next h => exact absurd hinit h

theorem timed_setStage (id : FlushId) (f : Flush)
    (stage : Stage) : Timed (s.setStage id f stage) := by
  intro _
  refine .inr ⟨id, ?_⟩
  rw [setStage, OrderedMap.has, get?_set, if_pos rfl]
  rfl

theorem timed_advance (id : FlushId) (f : Flush) (ok : Bool) : Timed (s.advance id f ok) := by
  rw [advance]
  split
  · exact timed_endFlush _ id
  split
  · exact timed_setStage _ _ _ _
  · exact timed_setStage _ _ _ _
  · dsimp only
    split
    · exact timed_endFlush _ id
    · exact timed_setStage _ _ _ _
  · exact timed_endFlush _ id

end

theorem Timed.next (h : Timed s) (flushBatchSize : Nat) (e : Event) :
    Timed (s.next flushBatchSize e) := by
  cases e with
  | init => exact timed_scheduleFlushing _
  | handleWorkflowExecuteAfter ctx =>
    rw [Insights.next, handleWorkflowExecuteAfter]
    split
    · exact h
    split
    · exact h
    dsimp only
    split
    · exact timed_flushEvents _
    split
    · exact timed_flushEvents _
    · exact h
  | flushEvents => exact timed_flushEvents s
  | timer => exact timed_flushEvents _
  | advance id ok =>
    rw [Insights.next]
    split
    · exact h
    · exact timed_advance _ _ _ _
  | shutdown => exact timed_flushEvents _
  | shutdownDone => exact fun hinit => by cases hinit
  | share workflowId project => exact h
  | deleteWorkflow workflowId => exact h

/-! ### Starting a flush -/

theorem flushEvents_cases (s : Insights) : (s.flushEvents.bufferedInsights = s.bufferedInsights
        ∧ s.flushEvents.flushesInProgress = s.flushesInProgress
        ∧ s.flushEvents.nextFlush = s.nextFlush
        ∧ (s.isInitialized = true → s.bufferedInsights = []))
      ∨ (s.flushEvents.bufferedInsights = []
        ∧ s.flushEvents.flushesInProgress = s.flushesInProgress.set
            s.nextFlush { bufferedInsightsToFlush := s.bufferedInsights
                          stage := .finding }
        ∧ s.flushEvents.nextFlush = s.nextFlush + 1) := by
  rw [flushEvents]
  split
  · next hinit =>
      refine .inl ⟨rfl, rfl, rfl, fun h => ?_⟩
      rw [h] at hinit
      cases hinit
  split
  · next hempty =>
      exact .inl ⟨bufferedInsights_scheduleFlushing s,
        flushesInProgress_scheduleFlushing s, nextFlush_scheduleFlushing s,
        fun _ => eq_nil_of_length_eq_zero hempty⟩
  · exact .inr ⟨rfl, rfl, rfl⟩

/-- Whatever happens except an answer to a query: the buffer may grow, and
    then it may become a flush. -/
def Buffers (s s' : Insights) : Prop :=
  (s.bufferedInsights ⊆ s'.bufferedInsights
      ∧ s'.flushesInProgress = s.flushesInProgress
      ∧ s'.nextFlush = s.nextFlush)
    ∨ ∃ batch, s.bufferedInsights ⊆ batch ∧ s'.bufferedInsights = []
      ∧ s'.flushesInProgress = s.flushesInProgress.set s.nextFlush
        { bufferedInsightsToFlush := batch, stage := .finding }
      ∧ s'.nextFlush = s.nextFlush + 1

theorem buffers_flushEvents {s t : Insights} (hbuffer : s.bufferedInsights ⊆ t.bufferedInsights)
    (hflushes : t.flushesInProgress = s.flushesInProgress)
    (hnext : t.nextFlush = s.nextFlush) : Buffers s t.flushEvents := by
  rcases flushEvents_cases t with ⟨hb, hf, hn, -⟩ | ⟨hb, hf, hn⟩
  · exact .inl ⟨hb ▸ hbuffer, hf.trans hflushes, hn.trans hnext⟩
  · refine .inr ⟨t.bufferedInsights, hbuffer, hb, ?_, ?_⟩
    · rw [hf, hflushes, hnext]
    · rw [hn, hnext]

/-- **EVERY STEP**: a query of a flush is answered, or else the buffer may
    grow and then become a flush. -/
theorem next_cases (s : Insights) (flushBatchSize : Nat) (e : Event) :
    (∃ id ok f, e = .advance id ok
        ∧ s.flushesInProgress.get? id = some f
        ∧ s.next flushBatchSize e = s.advance id f ok)
      ∨ Buffers s (s.next flushBatchSize e) := by
  have hsame : ∀ {s' : Insights}, s'.bufferedInsights = s.bufferedInsights →
      s'.flushesInProgress = s.flushesInProgress → s'.nextFlush = s.nextFlush → Buffers s s' :=
    fun hb hf hn => .inl ⟨hb ▸ List.Subset.refl _, hf, hn⟩
  cases e with
  | advance id ok =>
    rw [next]
    rcases hget : s.flushesInProgress.get? id with _ | f
    · exact .inr (hsame rfl rfl rfl)
    · exact .inl ⟨id, ok, f, rfl, hget, rfl⟩
  | init =>
    exact .inr (hsame (bufferedInsights_scheduleFlushing _)
      (flushesInProgress_scheduleFlushing _) (nextFlush_scheduleFlushing _))
  | handleWorkflowExecuteAfter ctx =>
    right
    rw [next, handleWorkflowExecuteAfter]
    split
    · exact hsame rfl rfl rfl
    split
    · exact hsame rfl rfl rfl
    dsimp only
    have hsub := subset_append_left s.bufferedInsights (eventsOf ctx s.collected.length)
    split
    · exact buffers_flushEvents hsub rfl rfl
    split
    · exact buffers_flushEvents hsub rfl rfl
    · exact .inl ⟨hsub, rfl, rfl⟩
  | flushEvents => exact .inr (buffers_flushEvents (List.Subset.refl _) rfl rfl)
  | timer => exact .inr (buffers_flushEvents (List.Subset.refl _) rfl rfl)
  | shutdown =>
    exact .inr (buffers_flushEvents (s := s)
      (t := { s.cancelScheduledFlushing with
        isAsynchronouslySavingInsights := false })
      (List.Subset.refl _) rfl rfl)
  | shutdownDone => exact .inr (hsame rfl rfl rfl)
  | share workflowId project => exact .inr (hsame rfl rfl rfl)
  | deleteWorkflow workflowId => exact .inr (hsame rfl rfl rfl)

/-! ### The end of a flush -/

def rank : Stage → Nat
  | .finding => 3
  | .upserting _ => 2
  | .fetching _ => 1
  | .inserting _ => 0

/-- A flush that goes on to its next query. -/
def Closer (f f' : Flush) : Prop :=
  f'.bufferedInsightsToFlush = f.bufferedInsightsToFlush ∧ rank f'.stage < rank f.stage

section

variable (s : Insights) (id : FlushId)

theorem get?_setStage (f : Flush) (stage : Stage) :
    (s.setStage id f stage).flushesInProgress.get? id = some { f with stage } := by
  rw [setStage, get?_set, if_pos rfl]

theorem get?_endFlush : (s.endFlush id).flushesInProgress.get? id = none := by
  rw [endFlush, get?_delete, if_pos rfl]

theorem saved_endFlush : (s.endFlush id).saved = s.saved := by
  rw [endFlush, scheduleFlushing]
  split
  · rfl
  · rfl

end

theorem subset_saved_endFlush (h : Placed s) (hget : s.flushesInProgress.get? id = some f)
    {events : List (Nat × BufferedInsight)}
    (hstage : f.stage = .inserting events) :
    f.bufferedInsightsToFlush ⊆ (endFlush { s with
      database := { s.database with
        raw := s.database.raw ++ events } } id).saved := by
  intro event hevent
  rw [← h.rows id f events hget hstage] at hevent
  rw [saved_endFlush, saved, map_append]
  exact mem_append_right _ hevent

theorem advance_cases (h : Placed s) (hget : s.flushesInProgress.get? id = some f) (ok : Bool) :
    (∃ f', (s.advance id f ok).flushesInProgress.get? id = some f'
        ∧ Closer f f')
      ∨ (s.advance id f ok).flushesInProgress.get? id = none
        ∧ (f.bufferedInsightsToFlush ⊆ (s.advance id f ok).bufferedInsights
          ∨ f.bufferedInsightsToFlush ⊆ (s.advance id f ok).saved) := by
  have hfail : ∀ t : Insights, (t.failFlush id f).flushesInProgress.get? id
      = none ∧ f.bufferedInsightsToFlush ⊆ (t.failFlush id f).bufferedInsights := by
    intro t
    refine ⟨get?_endFlush _ id, fun event hevent => ?_⟩
    rw [failFlush, endFlush, bufferedInsights_scheduleFlushing]
    exact mem_foldl_add.mpr (.inr hevent)
  rw [advance]
  split
  · exact .inr ⟨(hfail s).1, .inl (hfail s).2⟩
  split
  · next hstage =>
      refine .inl ⟨_, get?_setStage .., rfl, ?_⟩
      rw [hstage]
      exact Nat.lt_succ_self 2
  · next metadata hstage =>
      refine .inl ⟨_, get?_setStage .., rfl, ?_⟩
      rw [hstage]
      exact Nat.lt_succ_self 1
  · next workflowIds hstage =>
      dsimp only
      split
      · exact .inr ⟨(hfail _).1, .inl (hfail _).2⟩
      · refine .inl ⟨_, get?_setStage .., rfl, ?_⟩
        rw [hstage]
        exact Nat.lt_succ_self 0
  · next events hstage =>
      refine .inr ⟨get?_endFlush _ id, .inr ?_⟩
      exact subset_saved_endFlush h hget hstage

theorem get?_advance_of_ne {id' : FlushId} (hne : id ≠ id') (f : Flush)
    (ok : Bool) : (s.advance id f ok).flushesInProgress.get? id'
      = s.flushesInProgress.get? id' := by
  have hend : ∀ t : Insights, (t.endFlush id).flushesInProgress.get? id'
      = t.flushesInProgress.get? id' := by
    intro t
    rw [endFlush, get?_delete, if_neg (Ne.symm hne)]
  have hset : ∀ (t : Insights) stage, (t.setStage id f stage).flushesInProgress.get? id'
        = t.flushesInProgress.get? id' := by
    intro t stage
    rw [setStage, get?_set, if_neg hne]
  rw [advance]
  split
  · exact hend _
  split
  · exact hset _ _
  · exact hset _ _
  · dsimp only
    split
    · exact hend _
    · exact hset _ _
  · exact hend _

section

variable (s : Insights) (id : FlushId) (f : Flush) (ok : Bool)

theorem nextFlush_advance : (s.advance id f ok).nextFlush = s.nextFlush := by
  rw [advance]
  split
  · exact nextFlush_scheduleFlushing _
  split
  · rfl
  · rfl
  · dsimp only
    split
    · exact nextFlush_scheduleFlushing _
    · rfl
  · exact nextFlush_scheduleFlushing _

theorem subset_bufferedInsights_advance :
    s.bufferedInsights ⊆ (s.advance id f ok).bufferedInsights := by
  have hfail : ∀ t : Insights, t.bufferedInsights ⊆ (t.failFlush id f).bufferedInsights := by
    intro t event hevent
    rw [failFlush, endFlush, bufferedInsights_scheduleFlushing]
    exact mem_foldl_add.mpr (.inl hevent)
  rw [advance]
  split
  · exact hfail s
  split
  · exact List.Subset.refl _
  · exact List.Subset.refl _
  · next workflowIds _ =>
      dsimp only
      split
      · exact hfail (s.cacheMetadata workflowIds)
      · exact List.Subset.refl _
  · rw [endFlush, bufferedInsights_scheduleFlushing]
    exact List.Subset.refl _

end

theorem get?_next (flushBatchSize : Nat) {e : Event}
    (hid : id < s.nextFlush) (he : ∀ ok, e ≠ .advance id ok) :
    (s.next flushBatchSize e).flushesInProgress.get? id = s.flushesInProgress.get? id := by
  rcases next_cases s flushBatchSize e with ⟨id', ok, f, rfl, -, hnext⟩ | ⟨-, hflushes, -⟩
      | ⟨batch, -, -, hflushes, -⟩
  · have hne : id' ≠ id := by
      rintro rfl
      exact he ok rfl
    rw [hnext, get?_advance_of_ne hne]
  · rw [hflushes]
  · rw [hflushes, get?_set, if_neg (Nat.ne_of_gt hid)]

theorem over_next (flushBatchSize : Nat) {e : Event}
    (hid : id < s.nextFlush) (hover : s.flushesInProgress.get? id = none) :
    id < (s.next flushBatchSize e).nextFlush
      ∧ (s.next flushBatchSize e).flushesInProgress.get? id = none := by
  rcases next_cases s flushBatchSize e with ⟨id', ok, f, rfl, hget, hstep⟩ | ⟨-, hflushes, hnext⟩
      | ⟨batch, -, -, hflushes, hnext⟩
  · have hne : id' ≠ id := by
      rintro rfl
      cases hover.symm.trans hget
    rw [hstep, nextFlush_advance, get?_advance_of_ne hne]
    exact ⟨hid, hover⟩
  · rw [hflushes, hnext]
    exact ⟨hid, hover⟩
  · rw [hflushes, hnext, get?_set, if_neg (Nat.ne_of_gt hid)]
    exact ⟨Nat.lt_succ_of_lt hid, hover⟩

/-! ### A flush that cannot fail -/

/-- The metadata of the event is in the cache. -/
def IsCached (s : Insights) (event : BufferedInsight) : Prop :=
  s.cachedMetadata.has event.workflowId = true

/-- The flush finds metadata for each of its events. -/
def Ready (s : Insights) (f : Flush) : Prop :=
  match f.stage with
  | .finding => True
  | .upserting metadata => ∀ event ∈ f.bufferedInsightsToFlush, s.IsCached event
        ∨ event.workflowId ∈ metadata.map MetadataFields.workflowId
  | .fetching workflowIds => ∀ event ∈ f.bufferedInsightsToFlush,
      s.IsCached event ∨ (event.workflowId ∈ workflowIds
        ∧ s.database.metadata.has event.workflowId = true)
  | .inserting _ => True

variable {events : List BufferedInsight}

theorem mem_workflowIdNames (hevent : event ∈ events) :
    event.workflowId ∈ (workflowIdNames events).keys := by
  have hfold : ∀ names : OrderedMap WorkflowId String,
      (event.workflowId ∈ names.keys ∨ event ∈ events) →
      event.workflowId ∈ (events.foldl (fun names event =>
        names.set event.workflowId event.workflowName) names).keys := by
    clear hevent
    induction events with
    | nil =>
      rintro names (h | h)
      · exact h
      · cases h
    | cons x events ih =>
      rintro names h
      refine ih _ ?_
      rw [mem_keys_set]
      rcases h with h | h
      · exact .inl (.inr h)
      · rcases mem_cons.mp h with rfl | h
        · exact .inl (.inl rfl)
        · exact .inr h
  exact hfold .empty (.inr hevent)

theorem cached_or_upserted (hevent : event ∈ events) (howner : s.HasOwner event) :
    s.IsCached event ∨ event.workflowId
      ∈ (s.metadataToUpsert events).map MetadataFields.workflowId := by
  obtain ⟨workflowName, hname⟩ := exists_get? (mem_workflowIdNames hevent)
  obtain ⟨project, hproject⟩ := Option.isSome_iff_exists.mp howner
  by_cases hcached : s.IsCached event
  · exact .inl hcached
  · refine .inr (mem_map.mpr ⟨{
        workflowId := event.workflowId
        projectId := project.id
        projectName := project.name
        workflowName }, ?_, rfl⟩)
    refine mem_filterMap.mpr ⟨(event.workflowId, workflowName), get?_eq_some.mp hname, ?_⟩
    have hnone : s.cachedMetadata.get? event.workflowId = none :=
      Option.not_isSome_iff_eq_none.mp hcached
    simp [hproject, hnone, reduceCtorEq]

theorem has_upsert (d : Database) (fields : MetadataFields) (workflowId : WorkflowId) :
    (upsert d fields).metadata.has workflowId = true
      ↔ workflowId = fields.workflowId ∨ d.metadata.has workflowId = true := by
  rw [has_iff, has_iff, upsert]
  split
  · exact mem_keys_set
  · exact mem_keys_set

theorem has_foldl_upsert (metadata : List MetadataFields) (d : Database) (workflowId : WorkflowId) :
    (metadata.foldl upsert d).metadata.has workflowId = true
      ↔ workflowId ∈ metadata.map MetadataFields.workflowId ∨ d.metadata.has workflowId = true := by
  induction metadata generalizing d with
  | nil => simp
  | cons fields metadata ih =>
    rw [foldl_cons, ih, has_upsert, map_cons, mem_cons, or_left_comm, or_assoc]

theorem has_cacheMetadata (workflowIds : List WorkflowId) (workflowId : WorkflowId) :
    (s.cacheMetadata workflowIds).cachedMetadata.has workflowId = true
      ↔ s.cachedMetadata.has workflowId = true
        ∨ (workflowId ∈ workflowIds ∧ s.database.metadata.has workflowId = true) := by
  rw [cacheMetadata]
  generalize s.cachedMetadata = cache
  induction workflowIds generalizing cache with
  | nil => simp
  | cons x workflowIds ih =>
    rw [foldl_cons]
    refine (ih _).trans ?_
    rcases hx : s.database.metadata.get? x with _ | row
    · have hnone : x = workflowId → ¬ s.database.metadata.has workflowId = true := by
        rintro rfl
        rw [OrderedMap.has, hx]
        exact Bool.false_ne_true
      grind
    · have hset : (cache.set x row).has workflowId = true
          ↔ workflowId = x ∨ cache.has workflowId = true := by
        rw [has_iff, has_iff]
        exact mem_keys_set
      have hhas : s.database.metadata.has x = true := by
        rw [OrderedMap.has, hx]
        rfl
      grind

theorem exists_rowsOf (h : ∀ event ∈ events, s.IsCached event) :
    ∃ rows, s.rowsOf events = some rows := by
  induction events with
  | nil => exact ⟨[], rfl⟩
  | cons event events ih =>
    obtain ⟨hevent, hevents⟩ := forall_mem_cons.mp h
    obtain ⟨rows, hrows⟩ := ih hevents
    obtain ⟨row, hrow⟩ := Option.isSome_iff_exists.mp hevent
    rw [rowsOf] at hrows
    rw [rowsOf, mapM_cons, hrow, hrows]
    exact ⟨_, rfl⟩

theorem Ready.advance (h : Placed s) (hready : Ready s f)
    (hget : s.flushesInProgress.get? id = some f)
    (hover : (s.advance id f true).flushesInProgress.get? id = none) :
    f.bufferedInsightsToFlush ⊆ (s.advance id f true).saved := by
  rcases hstage : f.stage with _ | metadata | workflowIds | events
  · rw [Insights.advance, hstage] at hover
    cases (get?_setStage ..).symm.trans hover
  · rw [Insights.advance, hstage] at hover
    cases (get?_setStage ..).symm.trans hover
  · rw [Ready, hstage] at hready
    have hcached : ∀ event ∈ f.bufferedInsightsToFlush,
        (s.cacheMetadata workflowIds).IsCached event :=
      fun event hevent =>
        (has_cacheMetadata workflowIds _).mpr (hready event hevent)
    obtain ⟨rows, hrows⟩ := exists_rowsOf hcached
    rw [Insights.advance, hstage] at hover
    simp only [hrows] at hover
    cases (get?_setStage ..).symm.trans hover
  · rw [Insights.advance, hstage]
    exact subset_saved_endFlush h hget hstage

end

end Insights

namespace Insights

section

variable {s : Insights} {id : FlushId} {f : Flush}

theorem metadata_scheduleFlushing (s : Insights) :
    s.scheduleFlushing.cachedMetadata = s.cachedMetadata
      ∧ s.scheduleFlushing.database = s.database := by
  rw [scheduleFlushing]
  split
  · exact ⟨rfl, rfl⟩
  · exact ⟨rfl, rfl⟩

theorem metadata_flushEvents (s : Insights) :
    s.flushEvents.cachedMetadata = s.cachedMetadata ∧ s.flushEvents.database = s.database := by
  rw [flushEvents]
  split
  · exact ⟨rfl, rfl⟩
  split
  · exact metadata_scheduleFlushing s
  · exact ⟨rfl, rfl⟩

/-- What is known of the metadata stays known: the cache only grows, and a
    row is lost with the workflow. -/
structure Knows (s s' : Insights) : Prop where
  cached : ∀ workflowId, s.cachedMetadata.has workflowId = true →
    s'.cachedMetadata.has workflowId = true
  stored : ∀ workflowId, s.database.metadata.has workflowId = true →
    s'.database.metadata.has workflowId = true ∨ ¬ s'.database.owners.has workflowId = true

theorem Knows.of_eq {s' : Insights}
    (h : s'.cachedMetadata = s.cachedMetadata ∧ s'.database = s.database) :
    Knows s s' :=
  ⟨fun _ hhas => h.1 ▸ hhas, fun _ hhas => .inl (h.2 ▸ hhas)⟩

theorem knows_advance (s : Insights) (id : FlushId) (f : Flush)
    (ok : Bool) : Knows s (s.advance id f ok) := by
  rw [advance]
  split
  · exact .of_eq (metadata_scheduleFlushing _)
  split
  · exact .of_eq ⟨rfl, rfl⟩
  · next metadata hstage =>
      exact ⟨fun _ hhas => hhas, fun workflowId hhas =>
        .inl ((has_foldl_upsert metadata _ workflowId).mpr (.inr hhas))⟩
  · next workflowIds hstage =>
      have hcache : ∀ workflowId, s.cachedMetadata.has workflowId = true →
          (s.cacheMetadata workflowIds).cachedMetadata.has workflowId = true :=
        fun workflowId hhas =>
          (has_cacheMetadata workflowIds workflowId).mpr (.inl hhas)
      dsimp only
      split
      · obtain ⟨hcached, hdatabase⟩ := metadata_scheduleFlushing
          { s.cacheMetadata workflowIds with
            bufferedInsights := f.bufferedInsightsToFlush.foldl add
              (s.cacheMetadata workflowIds).bufferedInsights }
        refine ⟨fun workflowId hhas => ?_, fun workflowId hhas => .inl ?_⟩
        · show OrderedMap.has (scheduleFlushing _).cachedMetadata _ = true
          rw [hcached]
          exact hcache workflowId hhas
        · show OrderedMap.has (scheduleFlushing _).database.metadata _ = true
          rw [hdatabase]
          exact hhas
      · exact ⟨hcache, fun _ hhas => .inl hhas⟩
  · next events hstage =>
      obtain ⟨hcached, hdatabase⟩ := metadata_scheduleFlushing { s with
        database := { s.database with raw := s.database.raw ++ events } }
      refine ⟨fun workflowId hhas => ?_, fun workflowId hhas => .inl ?_⟩
      · show OrderedMap.has (scheduleFlushing _).cachedMetadata _ = true
        rw [hcached]
        exact hhas
      · show OrderedMap.has (scheduleFlushing _).database.metadata _ = true
        rw [hdatabase]
        exact hhas

theorem knows_next (s : Insights) (flushBatchSize : Nat) (e : Event) :
    Knows s (s.next flushBatchSize e) := by
  cases e with
  | init => exact .of_eq (metadata_scheduleFlushing _)
  | handleWorkflowExecuteAfter ctx =>
    rw [next, handleWorkflowExecuteAfter]
    split
    · exact .of_eq ⟨rfl, rfl⟩
    split
    · exact .of_eq ⟨rfl, rfl⟩
    dsimp only
    split
    · exact .of_eq (metadata_flushEvents _)
    split
    · exact .of_eq (metadata_flushEvents _)
    · exact .of_eq ⟨rfl, rfl⟩
  | flushEvents => exact .of_eq (metadata_flushEvents s)
  | timer => exact .of_eq (metadata_flushEvents _)
  | advance id ok =>
    rw [next]
    split
    · exact .of_eq ⟨rfl, rfl⟩
    · exact knows_advance s id _ ok
  | shutdown => exact .of_eq (metadata_flushEvents _)
  | shutdownDone => exact .of_eq ⟨rfl, rfl⟩
  | share workflowId project => exact ⟨fun _ hhas => hhas, fun _ hhas => .inl hhas⟩
  | deleteWorkflow workflowId =>
    refine ⟨fun _ hhas => hhas, fun other hhas => ?_⟩
    rw [next, has_iff, has_iff, mem_keys_delete, mem_keys_delete]
    by_cases hother : other = workflowId
    · exact .inr fun h => h.1 hother
    · exact .inl ⟨hother, has_iff.mp hhas⟩

theorem mem_unsaved_of_get? (hget : s.flushesInProgress.get? id = some f)
    {event : BufferedInsight} (hevent : event ∈ f.bufferedInsightsToFlush) :
    event ∈ s.unsaved :=
  mem_append_right _ (mem_flatMap.mpr ⟨(id, f), get?_eq_some.mp hget, hevent⟩)

theorem Ready.mono {s' : Insights} (hready : Ready s f) (h : Knows s s') (hsaveable : Saveable s')
    (hget : s'.flushesInProgress.get? id = some f) : Ready s' f := by
  rw [Ready] at hready ⊢
  split
  · trivial
  · next metadata hstage =>
      rw [hstage] at hready
      intro event hevent
      exact (hready event hevent).imp_left (h.cached _)
  · next workflowIds hstage =>
      rw [hstage] at hready
      intro event hevent
      rcases hready event hevent with hcached | ⟨hmem, hstored⟩
      · exact .inl (h.cached _ hcached)
      · rcases h.stored _ hstored with hstored | hlost
        · exact .inr ⟨hmem, hstored⟩
        · rcases hsaveable event (mem_unsaved_of_get? hget hevent) with howner | hcached
          · exact absurd howner hlost
          · exact .inl hcached
  · trivial

theorem Ready.next_stage (hready : Ready s f) (hsaveable : Saveable s)
    (hget : s.flushesInProgress.get? id = some f) {f' : Flush}
    (hget' : (s.advance id f true).flushesInProgress.get? id = some f') :
    Ready (s.advance id f true) f' := by
  rcases hstage : f.stage with _ | metadata | workflowIds | events
  · rw [Insights.advance, hstage] at hget' ⊢
    cases (get?_setStage ..).symm.trans hget'
    intro event hevent
    rcases hsaveable event (mem_unsaved_of_get? hget hevent) with howner | hcached
    · exact cached_or_upserted hevent howner
    · exact .inl hcached
  · rw [Insights.advance, hstage] at hget' ⊢
    cases (get?_setStage ..).symm.trans hget'
    rw [Ready, hstage] at hready
    intro event hevent
    refine (hready event hevent).imp (fun hcached => hcached) fun hmem => ?_
    exact ⟨hmem, (has_foldl_upsert metadata _ _).mpr (.inl hmem)⟩
  · rw [Insights.advance, hstage] at hget' ⊢
    rcases hrows : (s.cacheMetadata workflowIds).rowsOf f.bufferedInsightsToFlush with _ | rows
    · simp only [hrows] at hget'
      cases (get?_endFlush ..).symm.trans hget'
    · simp only [hrows] at hget'
      cases (get?_setStage ..).symm.trans hget'
      trivial
  · rw [Insights.advance, hstage] at hget'
    cases (get?_endFlush ..).symm.trans hget'

theorem stage_of_new (flushBatchSize : Nat) {e : Event} (hnone : s.flushesInProgress.get? id = none)
    (hget : (s.next flushBatchSize e).flushesInProgress.get? id = some f) :
    f.stage = .finding := by
  rcases next_cases s flushBatchSize e with ⟨id', ok, f', rfl, hget', hnext⟩ | ⟨-, hflushes, -⟩
      | ⟨batch, -, -, hflushes, -⟩
  · have hne : id' ≠ id := by
      rintro rfl
      cases hnone.symm.trans hget'
    rw [hnext, get?_advance_of_ne hne, hnone] at hget
    cases hget
  · rw [hflushes, hnone] at hget
    cases hget
  · rw [hflushes, get?_set, hnone] at hget
    split at hget
    · cases hget
      rfl
    · cases hget

/-- The flushes from `k` on are ready. -/
def ReadyFrom (k : FlushId) (s : Insights) : Prop :=
  ∀ id f, k ≤ id → s.flushesInProgress.get? id = some f → Ready s f

/-- **STEP**: as long as the events can be saved and the database works, no
    flush gets stuck. -/
theorem ReadyFrom.next {k : FlushId} (hfrom : ReadyFrom k s) (h : Placed s) (flushBatchSize : Nat)
    {e : Event} (hsaveable : Saveable s) (hsaveable' : Saveable (s.next flushBatchSize e))
    (hworks : ∀ id ok, e = .advance id ok → ok = true) :
    ReadyFrom k (s.next flushBatchSize e) := by
  intro id f' hk hget'
  have hknows := knows_next s flushBatchSize e
  by_cases hadvance : ∃ ok, e = .advance id ok
  · obtain ⟨ok, rfl⟩ := hadvance
    obtain rfl := hworks id ok rfl
    rw [Insights.next] at hget' hsaveable' hknows ⊢
    rcases hget : s.flushesInProgress.get? id with _ | f
    · rw [hget] at hget'
      cases hget.symm.trans hget'
    · rw [hget] at hget'
      exact (hfrom id f hk hget).next_stage hsaveable hget hget'
  · by_cases hid : id < s.nextFlush
    · have hget : s.flushesInProgress.get? id = some f' := by
        rw [← hget', get?_next flushBatchSize hid]
        exact fun ok heq => hadvance ⟨ok, heq⟩
      exact (hfrom id f' hk hget).mono hknows hsaveable' hget'
    · have hnone : s.flushesInProgress.get? id = none := by
        rw [← Option.not_isSome_iff_eq_none]
        exact fun hhas => hid (h.fresh id hhas)
      rw [Ready, stage_of_new flushBatchSize hnone hget']
      trivial

end

end Insights

/-! ## What is saved at last -/

namespace Insights

section

variable {run : InfiniteRun (Step flushBatchSize)}

theorem placed_run (hstart : run.state 0 = start) (n : Nat) : Placed (run.state n) := by
  refine run.invariant_from (Nat.zero_le n) (hstart ▸ placed_start) fun k _ hk => ?_
  rw [(run.isStep k).2]
  exact hk.next flushBatchSize (run.event k)

theorem timed_run (hstart : run.state 0 = start) (n : Nat) : Timed (run.state n) := by
  refine run.invariant_from (Nat.zero_le n) ?_ fun k _ hk => ?_
  · rw [hstart]
    exact fun hinit => by cases hinit
  · rw [(run.isStep k).2]
    exact hk.next flushBatchSize (run.event k)

variable {n m : Nat} {id : FlushId} {f : Flush} {event : BufferedInsight}

section

variable (hstart : run.state 0 = start) (hnext : NextFlushes run n event) (hnm : n ≤ m)
  (hget : (run.state m).flushesInProgress.get? id = some f)
include hstart hnext hnm hget

theorem exists_advance :
    ∃ k, m ≤ k ∧ (run.state k).flushesInProgress.get? id = some f
      ∧ run.event k = .advance id true := by
  have hok : ∀ k ok, m ≤ k → run.event k = .advance id ok → run.event k = .advance id true := by
    intro k ok hk hevent
    rw [hevent, hnext.works k (Nat.le_trans hnm hk) id ok hevent]
  rcases run.always_or_leaves (n := m) (P := fun s => s.flushesInProgress.get? id = some f) hget
    with hall | ⟨k, hk, hk_get, hleaves⟩
  · obtain ⟨k, hk, ok, hevent⟩ := hnext.answered m hnm id (by
      rw [OrderedMap.has, hget]
      rfl)
    exact ⟨k, hk, hall k hk, hok k ok hk hevent⟩
  · have hid : id < (run.state k).nextFlush :=
      (placed_run hstart k).fresh id (by
        rw [OrderedMap.has, hk_get]
        rfl)
    by_cases hadvance : ∃ ok, run.event k = .advance id ok
    · obtain ⟨ok, hevent⟩ := hadvance
      exact ⟨k, hk, hk_get, hok k ok hk hevent⟩
    · refine absurd ?_ hleaves
      rw [(run.isStep k).2, get?_next flushBatchSize hid]
      · exact hk_get
      · exact fun ok heq => hadvance ⟨ok, heq⟩

/-- **THE END OF A FLUSH**: its queries have answers, so it is over at last;
    that is after its last answer. -/
theorem flush_over :
    ∃ k f', m ≤ k ∧ (run.state k).flushesInProgress.get? id = some f'
      ∧ f'.bufferedInsightsToFlush = f.bufferedInsightsToFlush
      ∧ run.state (k + 1) = (run.state k).advance id f' true
      ∧ (run.state (k + 1)).flushesInProgress.get? id = none := by
  induction hrank : rank f.stage using Nat.strongRecOn generalizing m f with
  | ind r ih =>
    obtain ⟨k, hmk, hk, hevent⟩ := exists_advance hstart hnext hnm hget
    have hstep : run.state (k + 1) = (run.state k).advance id f true := by
      rw [(run.isStep k).2, hevent, next, hk]
    rcases advance_cases (placed_run hstart k) hk true with ⟨f', hget', hbatch, hless⟩ | ⟨hover, -⟩
    · rw [← hstep] at hget'
      obtain ⟨k', f'', hk', hget'', hbatch', hlast⟩ :=
        ih _ (hrank ▸ hless) (Nat.le_trans hnm (Nat.le_succ_of_le hmk)) hget' rfl
      exact ⟨k', f'', Nat.le_trans (Nat.le_succ_of_le hmk) hk', hget'', hbatch'.trans hbatch, hlast⟩
    · exact ⟨k, f, hmk, hk, rfl, hstep, hstep ▸ hover⟩

end

theorem over_forever (hid : id < (run.state m).nextFlush)
    (hover : (run.state m).flushesInProgress.get? id = none) {k : Nat}
    (hmk : m ≤ k) : (run.state k).flushesInProgress.get? id = none := by
  refine (run.invariant_from (I := fun s => id < s.nextFlush
    ∧ s.flushesInProgress.get? id = none) hmk ⟨hid, hover⟩ fun j _ hj => ?_).2
  rw [(run.isStep j).2]
  exact over_next flushBatchSize hj.1 hj.2

theorem nextFlush_eq_of_buffered (hall : ∀ k, m ≤ k → event ∈ (run.state k).bufferedInsights)
    {k : Nat} (hmk : m ≤ k) : (run.state k).nextFlush = (run.state m).nextFlush := by
  refine run.invariant_from (I := fun s => s.nextFlush
    = (run.state m).nextFlush) hmk rfl fun j hj heq => ?_
  have hbuffer := hall (j + 1) (Nat.le_succ_of_le hj)
  rw [(run.isStep j).2] at hbuffer ⊢
  rcases next_cases (run.state j) flushBatchSize (run.event j)
    with ⟨id, ok, f, -, -, hstep⟩ | ⟨-, -, hnext⟩ | ⟨batch, -, hempty, -⟩
  · rw [hstep, nextFlush_advance, heq]
  · rw [hnext, heq]
  · rw [hempty] at hbuffer
    cases hbuffer

section

variable (hstart : run.state 0 = start) (hnext : NextFlushes run n event) (hnm : n ≤ m)
include hstart hnext hnm

theorem eventually_none (hall : ∀ k, m ≤ k → event ∈ (run.state k).bufferedInsights) :
    ∃ j, ∀ k, j ≤ k → ∀ id ∈ List.range (run.state m).nextFlush,
      (run.state k).flushesInProgress.get? id = none := by
  refine InfiniteRun.eventually_forall_mem fun id hid => ?_
  rw [mem_range] at hid
  rcases hget : (run.state m).flushesInProgress.get? id with _ | f
  · exact ⟨m, fun k hk => over_forever hid hget hk⟩
  · obtain ⟨k, f', hmk, -, -, -, hover⟩ := flush_over hstart hnext hnm hget
    refine ⟨k + 1, fun j hj => over_forever ?_ hover hj⟩
    rw [nextFlush_eq_of_buffered hall (Nat.le_succ_of_le hmk)]
    exact hid

/-- **THE NEXT FLUSH**: an event in the buffer is taken by a flush at last;
    else the flushes in progress would end, and then the timer fires. -/
theorem buffer_flushed (hbuffer : event ∈ (run.state m).bufferedInsights) :
    ∃ k f, m ≤ k ∧ (run.state (k + 1)).flushesInProgress.get? (run.state k).nextFlush = some f
      ∧ event ∈ f.bufferedInsightsToFlush := by
  rcases run.always_or_leaves (P := fun s => event ∈ s.bufferedInsights) hbuffer
    with hall | ⟨k, hk, hin, hout⟩
  · exfalso
    obtain ⟨j, hnone⟩ := eventually_none hstart hnext hnm hall
    obtain ⟨k, hk, hfires⟩ := hnext.fires (max j m) (Nat.le_trans hnm (Nat.le_max_right ..))
    have hmk := Nat.le_trans (Nat.le_max_right j m) hk
    have hinit := hnext.running k (Nat.le_trans hnm hmk) (hall k hmk)
    have htimer : (run.state k).flushInsightsRawBufferTimer = true := by
      rcases timed_run hstart k hinit with htimer | ⟨id, hid⟩
      · exact htimer
      · have hlt := (placed_run hstart k).fresh id hid
        rw [nextFlush_eq_of_buffered hall hmk] at hlt
        rw [OrderedMap.has, hnone k (Nat.le_trans (Nat.le_max_left ..) hk) id
          (mem_range.mpr hlt)] at hid
        cases hid
    rcases hfires with hoff | hevent
    · rw [hoff] at htimer
      cases htimer
    · have hlater := hall (k + 1) (Nat.le_succ_of_le hmk)
      rw [(run.isStep k).2, hevent, next] at hlater
      rcases flushEvents_cases (run.state k).cancelScheduledFlushing
        with ⟨-, -, -, hempty⟩ | ⟨hempty, -⟩
      · have hnow := hall k hmk
        rw [show (run.state k).bufferedInsights = [] from hempty hinit] at hnow
        cases hnow
      · rw [hempty] at hlater
        cases hlater
  · rw [(run.isStep k).2] at hout
    rcases next_cases (run.state k) flushBatchSize (run.event k)
      with ⟨id, ok, f, -, -, hstep⟩ | ⟨hsub, -⟩ | ⟨batch, hsub, -, hset, -⟩
    · rw [hstep] at hout
      exact absurd (subset_bufferedInsights_advance _ id f ok hin) hout
    · exact absurd (hsub hin) hout
    · refine ⟨k, { bufferedInsightsToFlush := batch, stage := .finding }, hk, ?_, hsub hin⟩
      rw [(run.isStep k).2, hset, get?_set, if_pos rfl]

theorem flush_saved (hsaveable : ∀ k, n ≤ k → Saveable (run.state k))
    (hget : (run.state (m + 1)).flushesInProgress.get? (run.state m).nextFlush = some f) :
    ∃ k, m ≤ k ∧ f.bufferedInsightsToFlush ⊆ (run.state k).saved := by
  have hready : ∀ k, m ≤ k → ReadyFrom (run.state m).nextFlush (run.state k) := by
    intro k hmk
    refine run.invariant_from hmk (fun id f hid hget => ?_) fun j hj hfrom => ?_
    · refine absurd ((placed_run hstart m).fresh id ?_) (Nat.not_lt.mpr hid)
      rw [OrderedMap.has, hget]
      rfl
    · have hnj := Nat.le_trans hnm hj
      have hlater := hsaveable (j + 1) (Nat.le_succ_of_le hnj)
      rw [(run.isStep j).2] at hlater ⊢
      exact hfrom.next (placed_run hstart j) flushBatchSize
        (hsaveable j hnj) hlater (hnext.works j hnj)
  obtain ⟨k, f', hmk, hk, hbatch, hstep, hover⟩ :=
    flush_over hstart hnext (Nat.le_succ_of_le hnm) hget
  have hmk := Nat.le_of_succ_le hmk
  have hf' := hready k hmk _ f' (Nat.le_refl _) hk
  rw [hstep] at hover
  refine ⟨k + 1, Nat.le_succ_of_le hmk, ?_⟩
  rw [hstep, ← hbatch]
  exact hf'.advance (placed_run hstart k) hk hover

end

/-- **SAVED AT LAST**: while all events can be saved, those in the buffer
    and those in flight are. -/
theorem delivers_of_saveable (hstart : run.state 0 = start)
    (hsaveable : ∀ m, n ≤ m → Saveable (run.state m)) :
    Delivers run n := by
  intro event hevent _ hnext
  have hbuffer : ∀ m, n ≤ m → event ∈ (run.state m).bufferedInsights →
      ∃ k, n ≤ k ∧ event ∈ (run.state k).saved := by
    intro m hnm hmem
    obtain ⟨j, f, hmj, hget, hf⟩ := buffer_flushed hstart hnext hnm hmem
    have hnj := Nat.le_trans hnm hmj
    obtain ⟨k, hjk, hsaved⟩ := flush_saved hstart hnext hnj hsaveable hget
    exact ⟨k, Nat.le_trans hnj hjk, hsaved hf⟩
  rcases mem_append.mp hevent with hmem | hmem
  · exact hbuffer n (Nat.le_refl n) hmem
  -- A flush that is in progress may fail once.
  · obtain ⟨⟨id, f⟩, hflush, hf⟩ := mem_flatMap.mp hmem
    obtain ⟨k, f', hnk, hk, hbatch, hstep, hover⟩ := flush_over hstart hnext
      (Nat.le_refl n) (get?_eq_some.mpr hflush)
    have hf' : event ∈ f'.bufferedInsightsToFlush := hbatch ▸ hf
    rcases advance_cases (placed_run hstart k) hk true with ⟨f'', hget, -⟩ | ⟨-, hfailed | hsaved⟩
    · rw [hstep, hget] at hover
      cases hover
    · refine hbuffer (k + 1) (Nat.le_succ_of_le hnk) ?_
      rw [hstep]
      exact hfailed hf'
    · refine ⟨k + 1, Nat.le_succ_of_le hnk, ?_⟩
      rw [hstep]
      exact hsaved hf'

/-- **INSIGHTS**: at any time each event is in the buffer, in one flush or
    in the database, and from any time on those that are not saved yet are
    saved at last if all of them can be. -/
theorem insights_kept (run : InfiniteRun (Step flushBatchSize)) (hstart : run.state 0 = start) :
    (∀ n, (run.state n).InOnePlace) ∧ ∀ n, (∀ m, n ≤ m → Saveable (run.state m)) → Delivers run n :=
  ⟨fun n => (placed_run hstart n).inOnePlace,
    fun _ hsaveable => delivers_of_saveable hstart hsaveable⟩

end

/-! ## Runs with a workflow that is deleted, and without -/

section

/-- An execution of the workflow that fails. -/
def failed (workflowId : WorkflowId) : Event :=
  .handleWorkflowExecuteAfter
    { workflowId
      workflowName := "Workflow"
      status := .error
      mode := .trigger
      startedAt := 0
      stoppedAt := none
      now := 0
      timeSavedPerExecution := none
      timeSavedIsDynamic := false
      nodeTimeSaved := [] }

def failure (workflowId : WorkflowId) (id : Nat) : BufferedInsight :=
  { id
    workflowId
    workflowName := "Workflow"
    type := .failure
    value := 1
    timestamp := 0 }

def project : Project := { id := "P", name := "Project" }

def metadata : OrderedMap WorkflowId InsightsMetadata :=
  OrderedMap.empty.set "1"
    { metaId := 1
      fields :=
        { workflowId := "1"
          projectId := "P"
          projectName := "Project"
          workflowName := "Workflow" } }

/-- A workflow fails once, and its event is flushed. -/
def firstFlush : List Event :=
  [.init, .share "1" project, failed "1", .timer, .advance 0 true,
    .advance 0 true, .advance 0 true, .advance 0 true]

/-- After that the timer fires in vain. -/
def quietEvent (n : Nat) : Event := firstFlush[n]?.getD .timer

/-- The service with one event saved. -/
def quiet : Insights :=
  { start with
    isInitialized := true
    flushInsightsRawBufferTimer := true
    nextFlush := 1
    cachedMetadata := metadata
    collected := [failure "1" 0]
    database :=
      { owners := OrderedMap.empty.set "1" project
        metadata
        nextMetaId := 2
        raw := [(1, failure "1" 0)] } }

def quietState (n : Nat) : Insights := InfiniteRun.stateOf (next 1000) start quietEvent n

theorem quietState_add (n : Nat) : quietState (8 + n) = quiet := by
  induction n with
  | zero => decide +kernel
  | succ n ih =>
    have hevent : quietEvent (8 + n) = .timer := by
      rw [quietEvent, getElem?_eq_none (Nat.le_add_right 8 n)]
      rfl
    show next 1000 (quietState (8 + n)) (quietEvent (8 + n)) = quiet
    rw [ih, hevent]
    decide +kernel

theorem quietEvent_add (n : Nat) : quietEvent (8 + n) = .timer := by
  rw [quietEvent, getElem?_eq_none (Nat.le_add_right 8 n)]
  rfl

def quietRun : InfiniteRun (Step 1000) where
  state := quietState
  event := quietEvent
  isStep n := by
    refine ⟨?_, rfl⟩
    rcases Nat.lt_or_ge n 8 with hn | hn
    · interval_cases n
      all_goals trivial
    · obtain ⟨k, rfl⟩ := Nat.exists_eq_add_of_le hn
      rw [quietState_add, quietEvent_add]
      rfl

/-- All is well: the queries are answered and the events can be saved. -/
def AllWell (s : Insights) (e : Event) : Prop :=
  s.isInitialized = true ∧ Saveable s ∧ s.HasOwner (failure "1" 0)
    ∧ (∀ id ∈ s.flushesInProgress.keys, e = .advance id true)
    ∧ (match e with
      | .advance _ ok => ok
      | _ => true) = true

instance (s : Insights) (e : Event) : Decidable (AllWell s e) :=
  inferInstanceAs (Decidable (_ ∧ (∀ event ∈ s.unsaved,
    s.database.owners.has event.workflowId = true ∨ s.cachedMetadata.has event.workflowId = true)
    ∧ s.database.owners.has "1" = true ∧ _ ∧ _))

theorem allWell_quiet {n : Nat} (hn : 3 ≤ n) : AllWell (quietState n) (quietEvent n) := by
  rcases Nat.lt_or_ge n 8 with hlt | hge
  · interval_cases n
    all_goals decide +kernel
  · obtain ⟨k, rfl⟩ := Nat.exists_eq_add_of_le hge
    rw [quietState_add, quietEvent_add]
    decide +kernel

theorem nextFlushes_quiet : NextFlushes quietRun 3 (failure "1" 0) where
  works m hm id ok hevent := by
    obtain ⟨-, -, -, -, hok⟩ := allWell_quiet hm
    rw [show quietEvent m = .advance id ok from hevent] at hok
    exact hok
  answered m hm id hid := by
    obtain ⟨-, -, -, hanswered, -⟩ := allWell_quiet hm
    exact ⟨m, Nat.le_refl m, true, hanswered id (has_iff.mp hid)⟩
  fires m _ := ⟨8 + m, Nat.le_add_left m 8, .inr (quietEvent_add m)⟩
  running m hm _ := (allWell_quiet hm).1

/-- The event of a workflow with an owning project is saved. -/
theorem insights_kept_quiet : (∀ n, (quietRun.state n).InOnePlace)
      ∧ ∃ m, 3 ≤ m ∧ failure "1" 0 ∈ (quietRun.state m).saved := by
  obtain ⟨hplace, hdelivers⟩ := insights_kept quietRun rfl
  exact ⟨hplace, hdelivers 3 (fun m hm => (allWell_quiet hm).2.1)
    (failure "1" 0) (by decide +kernel) (fun m hm => (allWell_quiet hm).2.2.1) nextFlushes_quiet⟩

/-- After it a second workflow fails and is deleted. -/
def twoFailures : List Event :=
  firstFlush ++ [failed "1", .share "2" project, failed "2", .deleteWorkflow "2"]

/-- Then the timer fires again and again, and no query fails. -/
def poisonedEvent (n : Nat) : Event :=
  twoFailures[n]?.getD (if n % 4 = 0 then .timer
    else .advance (n / 4 - 2) true)

/-- The events of both workflows are in the buffer. -/
def poisoned (k : FlushId) : Insights :=
  { quiet with
    bufferedInsights := [failure "1" 1, failure "2" 2]
    nextFlush := k
    collected := [failure "1" 0, failure "1" 1, failure "2" 2] }

def poisonedFlush (k : FlushId) (stage : Stage) : Insights :=
  { poisoned (k + 1) with
    bufferedInsights := []
    flushInsightsRawBufferTimer := false
    flushesInProgress := OrderedMap.empty.set k
      { bufferedInsightsToFlush := [failure "1" 1, failure "2" 2], stage } }

section

variable (k : FlushId)

theorem next_poisoned :
    next 1000 (poisoned k) .timer = poisonedFlush k .finding := rfl

theorem next_poisonedFlush (stage : Stage) :
    next 1000 (poisonedFlush k stage) (.advance k true)
      = (poisonedFlush k stage).advance k
        { bufferedInsightsToFlush := [failure "1" 1, failure "2" 2], stage }
        true := by
  have hget : (poisonedFlush k stage).flushesInProgress.get? k
      = some { bufferedInsightsToFlush :=
          [failure "1" 1, failure "2" 2], stage } := by
    rw [poisonedFlush, get?_set, if_pos rfl]
  rw [next, hget]

theorem setStage_poisonedFlush (stage stage' : Stage) : (poisonedFlush k stage).setStage k
      { bufferedInsightsToFlush := [failure "1" 1, failure "2" 2], stage }
        stage' = poisonedFlush k stage' := by
  rw [setStage, poisonedFlush, OrderedMap.set_set]
  rfl

theorem next_finding :
    next 1000 (poisonedFlush k .finding) (.advance k true) = poisonedFlush k (.upserting []) := by
  rw [next_poisonedFlush]
  exact setStage_poisonedFlush k .finding (.upserting [])

theorem next_upserting :
    next 1000 (poisonedFlush k (.upserting [])) (.advance k true)
      = poisonedFlush k (.fetching []) := by
  rw [next_poisonedFlush]
  exact setStage_poisonedFlush k (.upserting []) (.fetching [])

theorem next_fetching :
    next 1000 (poisonedFlush k (.fetching [])) (.advance k true) = poisoned (k + 1) := by
  rw [next_poisonedFlush]
  have hdelete : (poisonedFlush k (.fetching [])).flushesInProgress.delete k = .empty := by
    rw [poisonedFlush, delete_set]
    rfl
  show { poisoned (k + 1) with
    flushesInProgress := (poisonedFlush k
      (.fetching [])).flushesInProgress.delete k } = _
  rw [hdelete]
  rfl

end

def poisonedState (n : Nat) : Insights := InfiniteRun.stateOf (next 1000) start poisonedEvent n

theorem poisonedEvent_round (k : Nat) :
    poisonedEvent (12 + 4 * k) = .timer
      ∧ poisonedEvent (12 + 4 * k + 1) = .advance (k + 1) true
      ∧ poisonedEvent (12 + 4 * k + 2) = .advance (k + 1) true
      ∧ poisonedEvent (12 + 4 * k + 3) = .advance (k + 1) true := by
  have hlate : ∀ n, poisonedEvent (12 + n) = if (12 + n) % 4 = 0 then .timer
      else .advance ((12 + n) / 4 - 2) true := by
    intro n
    rw [poisonedEvent, getElem?_eq_none (Nat.le_add_right 12 n)]
    rfl
  have hquot : ∀ j, j < 4 → (12 + (4 * k + j)) / 4 - 2 = k + 1 := by
    intro j hj
    omega
  refine ⟨?_, ?_, ?_, ?_⟩
  · rw [hlate, if_pos (by omega)]
  · rw [Nat.add_assoc, hlate, if_neg (by omega), hquot 1 (by decide)]
  · rw [Nat.add_assoc, hlate, if_neg (by omega), hquot 2 (by decide)]
  · rw [Nat.add_assoc, hlate, if_neg (by omega), hquot 3 (by decide)]

theorem poisonedState_succ (n : Nat) : poisonedState (n + 1)
    = next 1000 (poisonedState n) (poisonedEvent n) := rfl

/-- **A ROUND**: the events go from the buffer to a flush, and back. -/
theorem poisonedState_round {k : Nat} (h : poisonedState (12 + 4 * k) = poisoned (k + 1)) :
    poisonedState (12 + 4 * k + 1) = poisonedFlush (k + 1) .finding
      ∧ poisonedState (12 + 4 * k + 2) = poisonedFlush (k + 1) (.upserting [])
      ∧ poisonedState (12 + 4 * k + 3) = poisonedFlush (k + 1) (.fetching [])
      ∧ poisonedState (12 + 4 * (k + 1)) = poisoned (k + 2) := by
  obtain ⟨h0, h1, h2, h3⟩ := poisonedEvent_round k
  have hfinding : poisonedState (12 + 4 * k + 1) = poisonedFlush (k + 1) .finding := by
    rw [poisonedState_succ, h, h0, next_poisoned]
  have hupserting : poisonedState (12 + 4 * k + 2) = poisonedFlush (k + 1) (.upserting []) := by
    rw [poisonedState_succ, hfinding, h1, next_finding]
  have hfetching : poisonedState (12 + 4 * k + 3) = poisonedFlush (k + 1) (.fetching []) := by
    rw [poisonedState_succ, hupserting, h2, next_upserting]
  refine ⟨hfinding, hupserting, hfetching, ?_⟩
  rw [Nat.mul_succ, ← Nat.add_assoc, poisonedState_succ, hfetching, h3, next_fetching]

theorem poisonedState_buffer (k : Nat) : poisonedState (12 + 4 * k) = poisoned (k + 1) := by
  induction k with
  | zero => decide +kernel
  | succ k ih => exact (poisonedState_round ih).2.2.2

theorem poisoned_cases {n : Nat} (hn : 12 ≤ n) : ∃ k,
    (poisonedState n = poisoned (k + 1) ∧ poisonedEvent n = .timer)
      ∨ ∃ stage, poisonedState n = poisonedFlush (k + 1) stage
        ∧ poisonedEvent n = .advance (k + 1) true := by
  obtain ⟨m, rfl⟩ := Nat.exists_eq_add_of_le hn
  refine ⟨m / 4, ?_⟩
  have hbuffer := poisonedState_buffer (m / 4)
  obtain ⟨hfinding, hupserting, hfetching, -⟩ := poisonedState_round hbuffer
  obtain ⟨h0, h1, h2, h3⟩ := poisonedEvent_round (m / 4)
  have hm : 12 + m = 12 + 4 * (m / 4) ∨ 12 + m = 12 + 4 * (m / 4) + 1
      ∨ 12 + m = 12 + 4 * (m / 4) + 2 ∨ 12 + m = 12 + 4 * (m / 4) + 3 := by
    omega
  rcases hm with heq | heq | heq | heq
  · rw [heq]
    exact .inl ⟨hbuffer, h0⟩
  · rw [heq]
    exact .inr ⟨_, hfinding, h1⟩
  · rw [heq]
    exact .inr ⟨_, hupserting, h2⟩
  · rw [heq]
    exact .inr ⟨_, hfetching, h3⟩

theorem has_poisonedFlush (k id : FlushId) (stage : Stage) :
    (poisonedFlush k stage).flushesInProgress.has id = true ↔ id = k := by
  rw [has_iff, poisonedFlush, mem_keys_set]
  exact or_iff_left not_mem_nil

def poisonedRun : InfiniteRun (Step 1000) where
  state := poisonedState
  event := poisonedEvent
  isStep n := by
    refine ⟨?_, rfl⟩
    rcases Nat.lt_or_ge n 12 with hn | hn
    · interval_cases n
      all_goals trivial
    · obtain ⟨k, ⟨hstate, hevent⟩ | ⟨stage, hstate, hevent⟩⟩ :=
        poisoned_cases hn
      · rw [hstate, hevent]
        rfl
      · rw [hstate, hevent]
        exact (has_poisonedFlush _ _ stage).mpr rfl

theorem nextFlushes_poisoned :
    NextFlushes poisonedRun 12 (failure "1" 1) where
  works m hm id ok hevent := by
    have hevent : poisonedEvent m = .advance id ok := hevent
    obtain ⟨k, ⟨-, h⟩ | ⟨stage, -, h⟩⟩ := poisoned_cases hm
    · cases h.symm.trans hevent
    · cases h.symm.trans hevent
      rfl
  answered m hm id hid := by
    refine ⟨m, Nat.le_refl m, true, ?_⟩
    have hid : (poisonedState m).flushesInProgress.has id = true := hid
    obtain ⟨k, ⟨hstate, -⟩ | ⟨stage, hstate, hevent⟩⟩ := poisoned_cases hm
    · rw [hstate] at hid
      cases hid
    · rw [hstate, has_poisonedFlush] at hid
      rw [hid]
      exact hevent
  fires m _ := by
    exact ⟨12 + 4 * m, by omega, .inr (poisonedEvent_round m).1⟩
  running m hm _ := by
    show (poisonedState m).isInitialized = true
    obtain ⟨k, ⟨hstate, -⟩ | ⟨stage, hstate, -⟩⟩ := poisoned_cases hm
    · rw [hstate]
      rfl
    · rw [hstate]
      rfl

/-- An event whose workflow is deleted before the flush keeps that of
    another workflow from being saved, though no query fails. -/
theorem not_delivers_poisoned : poisonedRun.state 0 = start ∧ ¬ Delivers poisonedRun 12 := by
  refine ⟨rfl, fun hdelivers => ?_⟩
  have howner : ∀ m, 12 ≤ m → (poisonedRun.state m).HasOwner (failure "1" 1) := by
    intro m hm
    show (poisonedState m).HasOwner _
    obtain ⟨k, ⟨hstate, -⟩ | ⟨stage, hstate, -⟩⟩ := poisoned_cases hm
    · rw [hstate]
      rfl
    · rw [hstate]
      rfl
  have hunsaved : failure "1" 1 ∈ (poisonedRun.state 12).unsaved := by
    show _ ∈ (poisonedState (12 + 4 * 0)).unsaved
    rw [poisonedState_buffer]
    exact mem_append_left _ (mem_cons_self ..)
  obtain ⟨m, hm, hsaved⟩ := hdelivers _ hunsaved howner nextFlushes_poisoned
  have hfirst : (poisonedState m).saved = [failure "1" 0] := by
    obtain ⟨k, ⟨hstate, -⟩ | ⟨stage, hstate, -⟩⟩ := poisoned_cases hm
    · rw [hstate]
      rfl
    · rw [hstate]
      rfl
  have hsaved : failure "1" 1 ∈ (poisonedState m).saved := hsaved
  rw [hfirst] at hsaved
  exact absurd hsaved (by decide)

end

end Insights

end N8nInsights
