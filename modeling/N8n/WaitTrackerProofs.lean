import N8n.RunProofs
import N8n.OrderedMapProofs

/-! # The wait tracker — a timer for every waiting execution

    `WaitTracker` keeps a table of the executions it will resume, each with
    the timer that resumes it.  A poll adds an entry and a timer for every
    execution that is not in the table yet, so the table must never hold an
    execution without a timer: later polls would skip it for good.

    Entries and timers are made together, and `stopExecution` and
    `startExecution` take an entry out as its timer goes.  `stopTracking`
    clears all timers and leaves the entries.  `scheduled_iff_stepsDownEmpty`
    says that this is the only thing that goes wrong. -/

namespace N8nWaitTracker

open N8nRun N8nOrderedMap List

abbrev ExecutionId := String

/-! ## Timers -/

/-- What a timer does when it fires. -/
inductive Callback where
  | getWaitingExecutions
  | startExecution (executionId : ExecutionId)
deriving DecidableEq

/-- An armed timer of the event loop. -/
structure Timer where
  id : Nat
  callback : Callback
  delay : Int
deriving DecidableEq

/-- An entry of `waitingExecutions`. -/
structure WaitingExecution where
  executionId : ExecutionId
  timer : Nat

/-- What the poll selects of a waiting execution. -/
structure ExecutionRow where
  id : ExecutionId
  waitTill : Option Int

/-- The tracker, with the armed timers and the number of polls whose query
    has not returned yet. -/
structure WaitTracker where
  waitingExecutions : OrderedMap ExecutionId WaitingExecution
  mainTimer : Option Nat
  timers : List Timer
  nextTimer : Nat
  queries : Nat

namespace WaitTracker

def new : WaitTracker :=
  { waitingExecutions := .empty
    mainTimer := none
    timers := []
    nextTimer := 0
    queries := 0 }

/-- `setTimeout` and `setInterval`: the new timer is `nextTimer`. -/
def setTimer (w : WaitTracker) (callback : Callback) (delay : Int) : WaitTracker :=
  { w with
    timers := w.timers ++ [{ id := w.nextTimer, callback, delay }]
    nextTimer := w.nextTimer + 1 }

/-- `clearTimeout` and `clearInterval`; a timer that is not armed is
    ignored. -/
def clearTimer (w : WaitTracker) (timer : Nat) : WaitTracker :=
  { w with timers := w.timers.filter fun t => t.id ≠ timer }

/-! ## The tracker's functions -/

def has (w : WaitTracker) (executionId : ExecutionId) : Bool := w.waitingExecutions.has executionId

/-- The query is sent; `addTimers` is what follows it. -/
def getWaitingExecutions (w : WaitTracker) : WaitTracker :=
  { w with queries := w.queries + 1 }

/-- A new entry and its timer. -/
def addTimer (w : WaitTracker) (executionId : ExecutionId) (triggerTime : Int) : WaitTracker :=
  { w.setTimer (.startExecution executionId) triggerTime with
    waitingExecutions := w.waitingExecutions.set executionId
      { executionId, timer := w.nextTimer } }

/-- The loop over the executions found; one without `waitTill` ends it with
    an error. -/
def addTimers (now : Int) : List ExecutionRow → WaitTracker → WaitTracker
  | [], w => w
  | execution :: rest, w =>
    if w.has execution.id then addTimers now rest w
    else
      match execution.waitTill with
      | none => w
      | some waitTill => addTimers now rest (w.addTimer execution.id (waitTill - now))

def startTracking (w : WaitTracker) : WaitTracker :=
  { w.setTimer .getWaitingExecutions 60000 with
    mainTimer := some w.nextTimer }.getWaitingExecutions

def init (w : WaitTracker) (isLeader : Bool) : WaitTracker :=
  if isLeader then w.startTracking else w

def stopExecution (w : WaitTracker) (executionId : ExecutionId) : WaitTracker :=
  match w.waitingExecutions.get? executionId with
  | none => w
  | some waiting =>
    { w.clearTimer waiting.timer with
      waitingExecutions := w.waitingExecutions.delete executionId }

/-- The part of `startExecution` that concerns the tracker: the entry is
    taken out before the execution is looked up and run. -/
def startExecution (w : WaitTracker) (executionId : ExecutionId) : WaitTracker :=
  { w with waitingExecutions := w.waitingExecutions.delete executionId }

/-- The interval is not reset, so a second call clears the timers again. -/
def stopTracking (w : WaitTracker) : WaitTracker :=
  match w.mainTimer with
  | none => w
  | some mainTimer =>
    (w.waitingExecutions.entries.map fun p => p.2.timer).foldl clearTimer (w.clearTimer mainTimer)

end WaitTracker

/-! ## Runs -/

/-- What can happen to the tracker.  `startExecution` is also called from
    outside, for the parent of an execution that has ended. -/
inductive Event where
  | init (isLeader : Bool)
  | startTracking
  | stopTracking
  | getWaitingExecutions
  | queryReturned (now : Int) (executions : List ExecutionRow)
  | timerFired (timer : Timer)
  | stopExecution (executionId : ExecutionId)
  | startExecution (executionId : ExecutionId)

/-- A query returns only when one is out, and an armed timer fires. -/
def Enabled (w : WaitTracker) : Event → Prop
  | .queryReturned _ _ => 0 < w.queries
  | .timerFired timer => timer ∈ w.timers
  | _ => True

instance (w : WaitTracker) (e : Event) : Decidable (Enabled w e) := by
  cases e <;> unfold Enabled <;> infer_instance

def next (w : WaitTracker) : Event → WaitTracker
  | .init isLeader => w.init isLeader
  | .startTracking => w.startTracking
  | .stopTracking => w.stopTracking
  | .getWaitingExecutions => w.getWaitingExecutions
  | .queryReturned now executions =>
    WaitTracker.addTimers now executions
      { w with queries := w.queries - 1 }
  | .timerFired timer =>
    match timer.callback with
    -- An interval stays armed, a timeout fires once.
    | .getWaitingExecutions => w.getWaitingExecutions
    | .startExecution executionId => (w.clearTimer timer.id).startExecution executionId
  | .stopExecution executionId => w.stopExecution executionId
  | .startExecution executionId => w.startExecution executionId

def Step (w : WaitTracker) (e : Event) (w' : WaitTracker) : Prop := Enabled w e ∧ w' = next w e

/-- The execution is in the table, and the timer of its entry is armed to
    resume it. -/
def Armed (w : WaitTracker) (executionId : ExecutionId) : Prop :=
  ∃ waiting, w.waitingExecutions.get? executionId = some waiting
    ∧ ∃ timer ∈ w.timers, timer.id = waiting.timer ∧ timer.callback = .startExecution executionId

/-- Every waiting execution stays scheduled. -/
structure Scheduled (w : WaitTracker) : Prop where
  /-- whatever is in the table has an armed timer; -/
  present : ∀ executionId ∈ w.waitingExecutions.keys, Armed w executionId
  /-- so does, after a poll, every execution the poll found. -/
  polled : ∀ now executions, (∀ execution ∈ executions, execution.waitTill.isSome = true) →
    ∀ execution ∈ executions, Armed (WaitTracker.addTimers now executions w) execution.id

/-- The condition: the timers are only cleared together when no execution
    waits. -/
def StepsDownEmpty (w : WaitTracker) : Event → Prop
  | .stopTracking => w.mainTimer.isSome = true → w.waitingExecutions.entries = []
  | _ => True

/-! ## The timers of a tracker -/

/-- Timers are told apart by their numbers. -/
structure Sound (w : WaitTracker) : Prop where
  fresh : ∀ timer ∈ w.timers, timer.id < w.nextTimer
  distinct : ∀ timer ∈ w.timers, ∀ other ∈ w.timers,
    timer.id = other.id → timer.callback = other.callback

theorem Sound.new : Sound .new := by
  constructor
  · intro timer hmem
    cases hmem
  · intro timer hmem
    cases hmem

section

variable {w w' : WaitTracker}

theorem mem_setTimer {callback : Callback} {delay : Int} {timer : Timer} :
    timer ∈ (w.setTimer callback delay).timers
      ↔ timer ∈ w.timers ∨ timer = ⟨w.nextTimer, callback, delay⟩ := by
  rw [WaitTracker.setTimer, mem_append, mem_singleton]

theorem mem_clearTimer {cleared : Nat} {timer : Timer} :
    timer ∈ (w.clearTimer cleared).timers ↔ timer ∈ w.timers ∧ timer.id ≠ cleared := by
  rw [WaitTracker.clearTimer, mem_filter, decide_eq_true_eq]

theorem Sound.setTimer (h : Sound w) (callback : Callback) (delay : Int) :
    Sound (w.setTimer callback delay) := by
  have hold : ∀ timer ∈ w.timers, timer.id ≠ w.nextTimer := fun timer hmem =>
    Nat.ne_of_lt (h.fresh timer hmem)
  constructor
  · intro timer hmem
    rcases mem_setTimer.mp hmem with hmem | rfl
    · exact Nat.lt_succ_of_lt (h.fresh timer hmem)
    · exact Nat.lt_succ_self _
  · intro timer hmem other hother heq
    rcases mem_setTimer.mp hmem with hmem | rfl <;>
      rcases mem_setTimer.mp hother with hother | rfl
    · exact h.distinct timer hmem other hother heq
    · exact absurd heq (hold timer hmem)
    · exact absurd heq.symm (hold other hother)
    · rfl

theorem Sound.fewer (h : Sound w) (hnext : w'.nextTimer = w.nextTimer)
    (htimers : ∀ timer ∈ w'.timers, timer ∈ w.timers) : Sound w' := by
  constructor
  · intro timer hmem
    rw [hnext]
    exact h.fresh timer (htimers timer hmem)
  · intro timer hmem other hother
    exact h.distinct timer (htimers timer hmem) other (htimers other hother)

theorem Armed.mono {executionId : ExecutionId} (h : Armed w executionId)
    (hentry : w'.waitingExecutions.get? executionId = w.waitingExecutions.get? executionId)
    (htimers : ∀ timer ∈ w.timers,
      timer.callback = .startExecution executionId → timer ∈ w'.timers) :
    Armed w' executionId := by
  obtain ⟨waiting, hget, timer, hmem, hid, hcallback⟩ := h
  exact ⟨waiting, hentry.trans hget, timer, htimers timer hmem hcallback, hid, hcallback⟩

end

/-! ## What each function keeps -/

/-- The invariant: the timers are sound, and the table has a timer for
    every entry. -/
structure Tracks (w : WaitTracker) : Prop where
  sound : Sound w
  present : ∀ executionId ∈ w.waitingExecutions.keys, Armed w executionId

section

variable {w : WaitTracker}

theorem Tracks.new : Tracks .new :=
  ⟨Sound.new, fun executionId hmem => absurd hmem (by
    simp [WaitTracker.new, OrderedMap.keys, OrderedMap.empty])⟩

section

variable (h : Tracks w)
include h

theorem Tracks.getWaitingExecutions : Tracks w.getWaitingExecutions :=
  ⟨h.sound.fewer rfl fun _ hmem => hmem,
    fun executionId hmem => (h.present executionId hmem).mono rfl fun _ hmem _ => hmem⟩

theorem Tracks.startTracking : Tracks w.startTracking := by
  have hset := h.sound.setTimer .getWaitingExecutions 60000
  refine ⟨hset.fewer rfl fun _ hmem => hmem, fun executionId hmem => ?_⟩
  exact (h.present executionId hmem).mono rfl fun timer hmem _ =>
    mem_setTimer.mpr (.inl hmem)

theorem Tracks.addTimer (executionId : ExecutionId) (triggerTime : Int) :
    Tracks (w.addTimer executionId triggerTime)
      ∧ Armed (w.addTimer executionId triggerTime) executionId
      ∧ ∀ other, Armed w other → Armed (w.addTimer executionId triggerTime) other := by
  have hnew : Armed (w.addTimer executionId triggerTime) executionId :=
    ⟨⟨executionId, w.nextTimer⟩, (OrderedMap.get?_set ..).trans (if_pos rfl),
      ⟨w.nextTimer, .startExecution executionId, triggerTime⟩,
      mem_setTimer.mpr (.inr rfl), rfl, rfl⟩
  have hold : ∀ other, Armed w other → Armed (w.addTimer executionId triggerTime) other := by
    intro other harmed
    by_cases heq : executionId = other
    · exact heq ▸ hnew
    · exact harmed.mono ((OrderedMap.get?_set ..).trans (if_neg heq))
        fun timer hmem _ => mem_setTimer.mpr (.inl hmem)
  have hsound := h.sound.setTimer (.startExecution executionId) triggerTime
  refine ⟨⟨hsound.fewer rfl fun _ hmem => hmem, ?_⟩, hnew, hold⟩
  intro other hmem
  rcases OrderedMap.mem_keys_set.mp hmem with rfl | hmem
  · exact hnew
  · exact hold other (h.present other hmem)

/-- **A POLL**: everything found is armed afterwards, new or not. -/
theorem Tracks.addTimers (now : Int) (executions : List ExecutionRow) :
    Tracks (WaitTracker.addTimers now executions w)
      ∧ (∀ other, Armed w other → Armed (WaitTracker.addTimers now executions w) other)
      ∧ ((∀ execution ∈ executions, execution.waitTill.isSome = true) → ∀ execution ∈ executions,
            Armed (WaitTracker.addTimers now executions w) execution.id) := by
  induction executions generalizing w with
  | nil =>
    refine ⟨h, fun _ harmed => harmed, fun _ execution hmem => ?_⟩
    cases hmem
  | cons execution rest ih =>
    rw [WaitTracker.addTimers]
    by_cases hhas : w.has execution.id = true
    · obtain ⟨htracks, hkeeps, hfound⟩ := ih h
      rw [if_pos hhas]
      refine ⟨htracks, hkeeps, fun hall => ?_⟩
      obtain ⟨-, hrest⟩ := forall_mem_cons.mp hall
      refine forall_mem_cons.mpr ⟨?_, hfound hrest⟩
      exact hkeeps _ (h.present _ (OrderedMap.has_iff.mp hhas))
    · rw [if_neg hhas]
      rcases hwait : execution.waitTill with _ | waitTill
      · refine ⟨h, fun _ harmed => harmed, fun hall => ?_⟩
        have hsome := hall execution (mem_cons_self ..)
        rw [hwait] at hsome
        cases hsome
      · obtain ⟨hadd, hnew, hold⟩ :=
          h.addTimer execution.id (waitTill - now)
        obtain ⟨htracks, hkeeps, hfound⟩ := ih hadd
        refine ⟨htracks, fun other harmed => hkeeps _ (hold _ harmed), fun hall => ?_⟩
        obtain ⟨-, hrest⟩ := forall_mem_cons.mp hall
        exact forall_mem_cons.mpr ⟨hkeeps _ hnew, hfound hrest⟩

theorem Tracks.takeOut {w' : WaitTracker} {executionId : ExecutionId} (hsound : Sound w')
    (hentries : w'.waitingExecutions = w.waitingExecutions.delete executionId)
    (htimers : ∀ timer ∈ w.timers,
      timer.callback ≠ .startExecution executionId → timer ∈ w'.timers) :
    Tracks w' := by
  refine ⟨hsound, fun other hmem => ?_⟩
  rw [hentries] at hmem
  obtain ⟨hne, hmem⟩ := OrderedMap.mem_keys_delete.mp hmem
  refine (h.present other hmem).mono ?_ fun timer hin hcallback => ?_
  · rw [hentries, OrderedMap.get?_delete, if_neg hne]
  · refine htimers timer hin ?_
    rw [hcallback]
    rintro heq
    cases heq
    exact hne rfl

theorem Tracks.startExecution (executionId : ExecutionId) : Tracks (w.startExecution executionId) :=
  h.takeOut (h.sound.fewer rfl fun _ hmem => hmem) rfl fun _ hmem _ => hmem

theorem Tracks.clearOut {timer : Timer} {executionId : ExecutionId}
    (hmem : timer ∈ w.timers) (hcallback : timer.callback = .startExecution executionId) :
    Tracks ((w.clearTimer timer.id).startExecution executionId) := by
  refine h.takeOut (h.sound.fewer rfl fun other hother =>
    (mem_clearTimer.mp hother).1) rfl fun other hother hne => ?_
  refine mem_clearTimer.mpr ⟨hother, fun heq => hne ?_⟩
  rw [h.sound.distinct other hother timer hmem heq, hcallback]

theorem Tracks.stopExecution (executionId : ExecutionId) :
    Tracks (w.stopExecution executionId) := by
  rw [WaitTracker.stopExecution]
  rcases hget : w.waitingExecutions.get? executionId with _ | waiting
  · exact h
  · obtain ⟨waiting', hget', timer, hmem, hid, hcallback⟩ :=
      h.present executionId (OrderedMap.mem_keys_of_get? hget)
    cases hget.symm.trans hget'
    have hclear := h.clearOut hmem hcallback
    rw [hid] at hclear
    exact hclear

end

theorem clearTimers_timers (cleared : List Nat) (w : WaitTracker) :
    (cleared.foldl WaitTracker.clearTimer w).waitingExecutions
        = w.waitingExecutions
      ∧ ∀ timer, timer ∈ (cleared.foldl WaitTracker.clearTimer w).timers
        ↔ timer ∈ w.timers ∧ timer.id ∉ cleared := by
  induction cleared generalizing w with
  | nil => simp
  | cons t rest ih =>
    obtain ⟨hentries, htimers⟩ := ih (w.clearTimer t)
    refine ⟨hentries, fun timer => ?_⟩
    rw [foldl_cons, htimers, mem_clearTimer, mem_cons, not_or, and_assoc]

/-- **STEPPING DOWN** with nothing in the table only stops the interval. -/
theorem Tracks.stopTracking (h : Tracks w)
    (hempty : w.mainTimer.isSome = true → w.waitingExecutions.entries = []) :
    Tracks w.stopTracking := by
  rw [WaitTracker.stopTracking]
  rcases hmain : w.mainTimer with _ | mainTimer
  · exact h
  · have hnone := hempty (by rw [hmain]; rfl)
    rw [hnone]
    refine ⟨h.sound.fewer rfl fun timer hmem =>
      (mem_clearTimer.mp hmem).1, fun executionId hmem => ?_⟩
    have hkeys : executionId ∈ w.waitingExecutions.entries.map Prod.fst := hmem
    rw [hnone] at hkeys
    cases hkeys

theorem not_scheduled_stopTracking (hmain : w.mainTimer.isSome = true)
    (hne : w.waitingExecutions.entries ≠ []) :
    ¬ Scheduled w.stopTracking := by
  intro hscheduled
  obtain ⟨mainTimer, hsome⟩ := Option.isSome_iff_exists.mp hmain
  obtain ⟨⟨executionId, waiting⟩, hmem⟩ := exists_mem_of_ne_nil _ hne
  have hstop : w.stopTracking
      = (w.waitingExecutions.entries.map fun p => p.2.timer).foldl
          WaitTracker.clearTimer (w.clearTimer mainTimer) := by
    rw [WaitTracker.stopTracking, hsome]
  obtain ⟨hentries, htimers⟩ := clearTimers_timers
    (w.waitingExecutions.entries.map fun p => p.2.timer) (w.clearTimer mainTimer)
  rw [← hstop] at hentries htimers
  have hkey : executionId ∈ w.stopTracking.waitingExecutions.keys := by
    rw [hentries]
    exact mem_map_of_mem hmem
  obtain ⟨waiting', hget, timer, harmed, hid, -⟩ := hscheduled.present executionId hkey
  -- The timer of the entry is one of those that were cleared.
  rw [hentries] at hget
  refine ((htimers timer).mp harmed).2 ?_
  rw [hid]
  exact mem_map.mpr ⟨_, mem_of_findKey hget, rfl⟩

end

/-! ## Every run -/

theorem Tracks.scheduled {w : WaitTracker} (h : Tracks w) : Scheduled w :=
  ⟨h.present, fun now executions => (h.addTimers now executions).2.2⟩

/-- **ONE STEP** that meets the condition keeps the invariant. -/
theorem Tracks.next {w : WaitTracker} {e : Event} (h : Tracks w)
    (henabled : Enabled w e) (hcond : StepsDownEmpty w e) :
    Tracks (next w e) := by
  cases e with
  | init isLeader =>
    cases isLeader with
    | false => exact h
    | true => exact h.startTracking
  | startTracking => exact h.startTracking
  | stopTracking => exact h.stopTracking hcond
  | getWaitingExecutions => exact h.getWaitingExecutions
  | queryReturned now executions =>
    have hreturned : Tracks { w with queries := w.queries - 1 } :=
      ⟨h.sound.fewer rfl fun _ hmem => hmem,
        fun executionId hmem => (h.present executionId hmem).mono rfl fun _ hmem _ => hmem⟩
    exact (hreturned.addTimers now executions).1
  | timerFired timer =>
    rw [N8nWaitTracker.next]
    rcases hcallback : timer.callback with _ | executionId
    · exact h.getWaitingExecutions
    · exact h.clearOut henabled hcallback
  | stopExecution executionId => exact h.stopExecution executionId
  | startExecution executionId => exact h.startExecution executionId

/-- **EVERY RUN**: every waiting execution stays scheduled exactly when
    tracking is only stopped while no execution waits. -/
theorem scheduled_iff_stepsDownEmpty {path : List (Event × WaitTracker)}
    (hrun : IsRun Step .new path) :
    EveryState Scheduled .new path ↔ EveryStep StepsDownEmpty .new path := by
  refine everyState_iff_everyStep (I := Tracks) hrun Tracks.new (fun w h => h.scheduled) ?_ ?_
  · rintro w e w' h ⟨henabled, rfl⟩ hcond
    exact h.next henabled hcond
  · rintro w e w' h ⟨-, rfl⟩ hcond
    cases e with
    | stopTracking =>
      rw [StepsDownEmpty, Classical.not_imp] at hcond
      exact not_scheduled_stopTracking hcond.1 hcond.2
    | _ => exact absurd trivial hcond

/-! ## Two runs -/

/-- The leader polls and finds one execution that waits for a second. -/
def pollEvents : List Event := [.init true, .queryReturned 0 [{ id := "1", waitTill := some 1000 }]]

/-- Its timer fires, and then the leader steps down. -/
def firedEvents : List Event :=
  pollEvents ++
    [.timerFired { id := 1, callback := .startExecution "1", delay := 1000 }, .stopTracking]

theorem scheduled_until_fired : EveryState Scheduled .new (pathOf next .new firedEvents) :=
  have hrun : IsRun Step .new (pathOf next .new firedEvents) :=
    ⟨⟨trivial, rfl⟩, ⟨by decide, rfl⟩, ⟨by decide, rfl⟩, ⟨trivial, rfl⟩,
      trivial⟩
  (scheduled_iff_stepsDownEmpty hrun).mpr ⟨trivial, trivial, trivial, fun _ => rfl, trivial⟩

/-- The leader steps down while the execution waits and takes over again:
    the next poll skips it, and no timer is left for it. -/
theorem takeover_skips_execution :
    let path := pathOf next .new (pollEvents ++
      [.stopTracking, .startTracking, .queryReturned 1 [{ id := "1", waitTill := some 1000 }]])
    IsRun Step .new path ∧ ¬ EveryState Scheduled .new path := by
  refine ⟨⟨⟨trivial, rfl⟩, ⟨by decide, rfl⟩, ⟨trivial, rfl⟩, ⟨trivial, rfl⟩,
    ⟨by decide, rfl⟩, trivial⟩, fun hall => ?_⟩
  obtain ⟨waiting, hget, timer, hmem, -, hcallback⟩ := hall.last.present "1" (by decide)
  have htimers : ∀ timer ∈ (lastState WaitTracker.new (pathOf next .new
      (pollEvents ++ [.stopTracking, .startTracking, .queryReturned 1
        [{ id := "1", waitTill := some 1000 }]]))).timers,
      timer.callback ≠ .startExecution "1" := by decide
  exact htimers timer hmem hcallback

end N8nWaitTracker
