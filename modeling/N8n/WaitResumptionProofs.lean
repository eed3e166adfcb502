import N8n.WaitTrackerProofs
import N8n.ExecutionRepositoryProofs

/-! # Resuming a waiting execution — once for each wait, and not too early

    A waiting execution is resumed by a timer of the wait tracker, by a
    webhook call or by a child execution that has finished.  All of them read
    the execution, and then `ActiveExecutions.add` stores it as running, on
    condition that it is still stored as waiting.  So each wait ends in at
    most one of them.

    The condition does not tell one wait from the next.  A timer is armed for
    the wait that a poll has found and knows only the id: when a webhook ends
    that wait and the execution waits again, the timer stays and ends the new
    wait at the time of the old one.  `resumedOnce_of_timely` shows that this
    is the only way to resume too early. -/

namespace N8nWaitResumption

open N8nRun N8nOrderedMap N8nEventLog N8nCrashRecovery N8nWaitTracker List
open N8nExecutionRepository

variable {D : Type}

/-! ## The system -/

/-- What makes an execution be resumed. -/
inductive Source where
  | timer | webhook | child
deriving DecidableEq

/-- A resumption at one of its awaits: the execution is being read, or it has
    been read and `ActiveExecutions.add` has the data to go on with. -/
structure Resumption (D : Type) where
  executionId : String
  source : Source
  data : Option D

/-- A successful `ActiveExecutions.add`: which wait of the execution it has
    ended, what `waitTill` was stored for it, and when this was. -/
structure Added where
  executionId : String
  source : Source
  wait : Nat
  waitTill : Option Int
  time : Int
deriving DecidableEq

/-- The tracker with its clock, the stored executions, and the polls and
    resumptions under way.  `armedAt` gives the time at which a timer was
    armed, `waits` the number of waits of an execution so far, and `added`
    the resumptions that have succeeded. -/
structure System (D : Type) where
  now : Int
  tracker : WaitTracker
  armedAt : Nat → Int
  executions : Executions D
  found : List (List ExecutionRow)
  resumptions : List (Resumption D)
  waits : String → Nat
  added : List Added

namespace System

def start : System D :=
  { now := 0
    tracker := .new
    armedAt := fun _ => 0
    executions := .empty
    found := []
    resumptions := []
    waits := fun _ => 0
    added := [] }

/-- Timers armed by `f` are armed now; the numbers tell them from the
    others. -/
def arm (s : System D) (f : WaitTracker → WaitTracker) : System D :=
  { s with
    tracker := f s.tracker
    armedAt := fun timer =>
      if timer < s.tracker.nextTimer then s.armedAt timer else s.now }

/-- `ExecutionRepository.getWaitingExecutions`: the executions to be
    triggered in the next 70 seconds.  Only the crashed ones are left out. -/
def waitingRows (s : System D) : List ExecutionRow :=
  (s.executions.entries.filter fun p =>
      p.2.waitTill.any (· ≤ s.now + 70000) && p.2.status ≠ .crashed).map
    fun p => { id := p.1, waitTill := p.2.waitTill }

def isWaiting (s : System D) (executionId : String) : Bool :=
  (s.executions.get? executionId).any fun execution =>
    execution.status = .waiting

/-- A row is written by whoever runs, stops or marks the execution.  A wait
    begins when it is stored as waiting and was not. -/
def store (s : System D) (executionId : String) (execution : Execution D) : System D :=
  { s with
    executions := s.executions.set executionId execution
    waits := fun id =>
      if id = executionId && execution.status = .waiting && !s.isWaiting id
      then s.waits id + 1
      else s.waits id }

/-- A resumption begins; `startExecution` takes the entry out first. -/
def resume (s : System D) (executionId : String) (source : Source) : System D :=
  { s with
    tracker := if source = .webhook then s.tracker
      else s.tracker.startExecution executionId
    resumptions := s.resumptions ++ [{ executionId, source, data := none }] }

/-- The execution has been read.  One that is missing, finished or, for a
    webhook, running ends the resumption with an error.  `prepare` is what a
    webhook makes of the data. -/
def read (s : System D) (n : Nat) (resumption : Resumption D) (prepare : D → D) : System D :=
  match s.executions.get? resumption.executionId with
  | none => { s with resumptions := s.resumptions.eraseIdx n }
  | some execution =>
    if execution.finished
        || (resumption.source = .webhook && execution.status = .running)
    then { s with resumptions := s.resumptions.eraseIdx n }
    else
      { s with
        resumptions := s.resumptions.set n
          { resumption with
            data := some (if resumption.source = .webhook
              then prepare execution.data else execution.data) } }

/-- The update of `ActiveExecutions.add`.  Where it does not succeed the
    execution is being resumed already. -/
def add (s : System D) (n : Nat) (resumption : Resumption D) (data : D) : System D :=
  let updated := updateExistingExecution s.executions resumption.executionId
    { status := some .running, waitTill := some none, data := some data }
    (some .waiting)
  if updated.2 then
    { s with
      executions := updated.1
      resumptions := s.resumptions.eraseIdx n
      added := s.added ++
        [{ executionId := resumption.executionId
           source := resumption.source
           wait := s.waits resumption.executionId
           waitTill := (s.executions.get? resumption.executionId).bind (·.waitTill)
           time := s.now }] }
  else { s with resumptions := s.resumptions.eraseIdx n }

/-- A timer fires: the poll's, or that of an execution. -/
def fire (s : System D) (timer : Timer) : System D :=
  match timer.callback with
  | .getWaitingExecutions => { s with tracker := s.tracker.getWaitingExecutions }
  | .startExecution executionId =>
    { s with tracker := s.tracker.clearTimer timer.id }.resume executionId .timer

end System

/-! ## Runs -/

/-- `polls` is the query of a poll, `handles` the loop over what it has
    found.  The n-th resumption reads and adds, or fails at an await. -/
inductive Event (D : Type) where
  | ticks (duration : Nat)
  | init (isLeader : Bool)
  | startTracking
  | stopTracking
  | stopExecution (executionId : String)
  | getWaitingExecutions
  | polls
  | handles (n : Nat)
  | timerFires (timer : Timer)
  | webhookCalled (executionId : String)
  | childFinished (executionId : String)
  | reads (n : Nat) (prepare : D → D)
  | adds (n : Nat)
  | fails (n : Nat)
  | stores (executionId : String) (execution : Execution D)
  | deletes (executionId : String)

/-- A timer fires when its delay has passed, or later. -/
def System.next (s : System D) : Event D → Option (System D)
  | .ticks duration => some { s with now := s.now + duration }
  | .init isLeader => some (s.arm (·.init isLeader))
  | .startTracking => some (s.arm (·.startTracking))
  | .stopTracking => some { s with tracker := s.tracker.stopTracking }
  | .stopExecution executionId =>
    some { s with tracker := s.tracker.stopExecution executionId }
  | .getWaitingExecutions => some { s with tracker := s.tracker.getWaitingExecutions }
  | .polls =>
    if 0 < s.tracker.queries then
      some { s with
        tracker := { s.tracker with queries := s.tracker.queries - 1 }
        found := s.found ++ [s.waitingRows] }
    else none
  | .handles n =>
    (s.found[n]?).map fun rows =>
      { s.arm (.addTimers s.now rows) with found := s.found.eraseIdx n }
  | .timerFires timer =>
    if timer ∈ s.tracker.timers ∧ s.armedAt timer.id + timer.delay ≤ s.now
    then some (s.fire timer)
    else none
  | .webhookCalled executionId => some (s.resume executionId .webhook)
  | .childFinished executionId => some (s.resume executionId .child)
  | .reads n prepare =>
    (s.resumptions[n]?).bind fun resumption =>
      if resumption.data.isNone then some (s.read n resumption prepare)
      else none
  | .adds n =>
    (s.resumptions[n]?).bind fun resumption =>
      resumption.data.map (s.add n resumption)
  | .fails n =>
    if n < s.resumptions.length then
      some { s with resumptions := s.resumptions.eraseIdx n }
    else none
  | .stores executionId execution => some (s.store executionId execution)
  | .deletes executionId => some { s with executions := s.executions.delete executionId }

def Step (s : System D) (e : Event D) (t : System D) : Prop := s.next e = some t

/-- A wait is ended by one resumption, and by a timer only when its time has
    come. -/
structure ResumedOnce (s : System D) : Prop where
  once : (s.added.map fun a => (a.executionId, a.wait)).Nodup
  due : ∀ a ∈ s.added, a.source = .timer →
    ∀ waitTill, a.waitTill = some waitTill → waitTill ≤ a.time

/-- Nothing that the tracker has begun for the execution ends before
    `waitTill`: no timer, no poll whose result is not handled yet, and no
    resumption that a timer has started. -/
structure NoneEarlier (s : System D) (executionId : String) (waitTill : Int) :
    Prop where
  timers : ∀ timer ∈ s.tracker.timers, timer.callback = .startExecution executionId →
    waitTill ≤ s.armedAt timer.id + timer.delay
  found : ∀ rows ∈ s.found, ∀ row ∈ rows, row.id = executionId →
    ∀ earlier, row.waitTill = some earlier → waitTill ≤ earlier
  resumptions : ∀ resumption ∈ s.resumptions,
    resumption.executionId = executionId → resumption.source ≠ .timer

/-- The condition: when an execution is stored as waiting, its time has come
    already or the tracker has begun nothing for it that ends earlier. -/
def Timely (s : System D) : Event D → Prop
  | .stores executionId execution =>
    execution.status = .waiting → ∀ waitTill, execution.waitTill = some waitTill →
        waitTill ≤ s.now ∨ NoneEarlier s executionId waitTill
  | _ => True

/-! ## The timers that a call arms -/

/-- Timers that are there after a call were there before it, or are new and
    satisfy `P`. -/
structure Arms (P : Timer → Prop) (w w' : WaitTracker) : Prop where
  next : w.nextTimer ≤ w'.nextTimer
  timers : ∀ timer ∈ w'.timers, timer ∈ w.timers
    ∨ w.nextTimer ≤ timer.id ∧ timer.id < w'.nextTimer ∧ P timer

section

variable {P : Timer → Prop} {w w' w'' : WaitTracker}

theorem Arms.fewer (hnext : w'.nextTimer = w.nextTimer)
    (htimers : ∀ timer ∈ w'.timers, timer ∈ w.timers) : Arms P w w' :=
  ⟨Nat.le_of_eq hnext.symm, fun timer hmem => .inl (htimers timer hmem)⟩

theorem Arms.trans (h : Arms P w w') (h' : Arms P w' w'') : Arms P w w'' := by
  refine ⟨Nat.le_trans h.next h'.next, fun timer hmem => ?_⟩
  rcases h'.timers timer hmem with hmem | ⟨hge, hlt, hP⟩
  · rcases h.timers timer hmem with hmem | ⟨hge, hlt, hP⟩
    · exact .inl hmem
    · exact .inr ⟨hge, Nat.lt_of_lt_of_le hlt h'.next, hP⟩
  · exact .inr ⟨Nat.le_trans h.next hge, hlt, hP⟩

theorem Arms.setTimer {callback : Callback} {delay : Int} (hP : P ⟨w.nextTimer, callback, delay⟩) :
    Arms P w (w.setTimer callback delay) := by
  refine ⟨Nat.le_succ _, fun timer hmem => ?_⟩
  rcases mem_setTimer.mp hmem with hmem | rfl
  · exact .inl hmem
  · exact .inr ⟨Nat.le_refl _, Nat.lt_succ_self _, hP⟩

theorem Arms.startTracking (hP : P ⟨w.nextTimer, .getWaitingExecutions, 60000⟩) :
    Arms P w w.startTracking :=
  (Arms.setTimer hP).trans (Arms.fewer rfl fun _ hmem => hmem)

theorem Arms.init (isLeader : Bool) (hP : P ⟨w.nextTimer, .getWaitingExecutions, 60000⟩) :
    Arms P w (w.init isLeader) := by
  cases isLeader with
  | false => exact Arms.fewer rfl fun _ hmem => hmem
  | true => exact Arms.startTracking hP

/-- A timer for one of the rows, to fire when its wait is over. -/
def ForRow (now : Int) (rows : List ExecutionRow) (timer : Timer) : Prop :=
  ∃ row ∈ rows, timer.callback = .startExecution row.id ∧ row.waitTill = some (now + timer.delay)

/-- **A POLL** arms timers for what it has found; the loop goes through the
    rows that are left. -/
theorem Arms.addTimers {now : Int} {rows rest : List ExecutionRow}
    (hrows : ∀ row ∈ rest, row ∈ rows) :
    Arms (ForRow now rows) w (WaitTracker.addTimers now rest w) := by
  induction rest generalizing w with
  | nil => exact Arms.fewer rfl fun _ hmem => hmem
  | cons row rest ih =>
    obtain ⟨hrow, hrest⟩ := forall_mem_cons.mp hrows
    rw [WaitTracker.addTimers]
    by_cases hhas : w.has row.id = true
    · rw [if_pos hhas]
      exact ih hrest
    · rw [if_neg hhas]
      rcases hwait : row.waitTill with _ | waitTill
      · exact Arms.fewer rfl fun _ hmem => hmem
      · have hdelay : row.waitTill = some (now + (waitTill - now)) := by
          rw [hwait]
          congr 1
          omega
        have hadd : Arms (ForRow now rows) w (w.addTimer row.id (waitTill - now)) :=
          (Arms.setTimer ⟨row, hrow, rfl, hdelay⟩).trans (Arms.fewer rfl fun _ hmem => hmem)
        exact hadd.trans (ih hrest)

theorem nextTimer_clearTimers (cleared : List Nat) (w : WaitTracker) :
    (cleared.foldl WaitTracker.clearTimer w).nextTimer = w.nextTimer := by
  induction cleared generalizing w with
  | nil => rfl
  | cons timer rest ih => exact (ih _).trans rfl

theorem Arms.stopTracking : Arms P w w.stopTracking := by
  rw [WaitTracker.stopTracking]
  rcases w.mainTimer with _ | mainTimer
  · exact Arms.fewer rfl fun _ hmem => hmem
  · refine Arms.fewer (nextTimer_clearTimers ..) fun timer hmem => ?_
    exact (mem_clearTimer.mp (((clearTimers_timers _ _).2 timer).mp hmem).1).1

theorem Arms.stopExecution (executionId : String) : Arms P w (w.stopExecution executionId) := by
  rw [WaitTracker.stopExecution]
  rcases w.waitingExecutions.get? executionId with _ | waiting
  · exact Arms.fewer rfl fun _ hmem => hmem
  · exact Arms.fewer rfl fun timer hmem => (mem_clearTimer.mp hmem).1

end

/-! ## What each step keeps -/

/-- The execution is stored as waiting until `waitTill`. -/
def Waits (s : System D) (executionId : String) (waitTill : Int) : Prop :=
  ∃ execution, s.executions.get? executionId = some execution
    ∧ execution.status = .waiting ∧ execution.waitTill = some waitTill

/-- The invariant: timers are told apart by their numbers, nothing the
    tracker has begun ends a stored wait too early, and a wait that is not
    over has not been ended. -/
structure Good (s : System D) : Prop where
  fresh : ∀ timer ∈ s.tracker.timers, timer.id < s.tracker.nextTimer
  timely : ∀ executionId waitTill, Waits s executionId waitTill →
    waitTill ≤ s.now ∨ NoneEarlier s executionId waitTill
  begun : ∀ a ∈ s.added, a.wait ≤ s.waits a.executionId
    ∧ (s.isWaiting a.executionId = true → a.wait < s.waits a.executionId)
  resumedOnce : ResumedOnce s

theorem Good.start : Good (System.start : System D) := by
  refine ⟨?_, ?_, ?_, ?_, ?_⟩
  · intro timer hmem
    cases hmem
  · rintro executionId waitTill ⟨execution, hget, -⟩
    cases hget
  · intro a hmem
    cases hmem
  · exact nodup_nil
  · intro a hmem
    cases hmem

section

variable {s t : System D}

theorem Good.keep (hs : Good s) (hnow : s.now ≤ t.now) (hexecutions : t.executions = s.executions)
    (hwaits : t.waits = s.waits) (hadded : t.added = s.added)
    (hfresh : ∀ timer ∈ t.tracker.timers, timer.id < t.tracker.nextTimer)
    (hearlier : ∀ executionId waitTill, Waits s executionId waitTill →
      NoneEarlier s executionId waitTill → waitTill ≤ t.now ∨ NoneEarlier t executionId waitTill) :
    Good t := by
  refine ⟨hfresh, fun executionId waitTill hw => ?_, fun a hmem => ?_, ?_⟩
  · rw [Waits, hexecutions] at hw
    rcases hs.timely executionId waitTill hw with hle | hnone
    · exact .inl (Int.le_trans hle hnow)
    · exact hearlier executionId waitTill hw hnone
  · rw [hadded] at hmem
    rw [hwaits, System.isWaiting, hexecutions]
    exact hs.begun a hmem
  · constructor
    · rw [hadded]
      exact hs.resumedOnce.once
    · rw [hadded]
      exact hs.resumedOnce.due

variable {executionId : String}

theorem NoneEarlier.arm {P : Timer → Prop} {f : WaitTracker → WaitTracker}
    {waitTill : Int} (harms : Arms P s.tracker (f s.tracker)) (hs : Good s)
    (hP : ∀ timer, P timer → timer.callback = .startExecution executionId →
      waitTill ≤ s.now + timer.delay)
    (h : NoneEarlier s executionId waitTill) :
    NoneEarlier (s.arm f) executionId waitTill := by
  refine ⟨fun timer hmem hcallback => ?_, h.found, h.resumptions⟩
  rcases harms.timers timer hmem with hmem | ⟨hge, -, hPtimer⟩
  · have hold := h.timers timer hmem hcallback
    rw [System.arm]
    dsimp only
    rwa [if_pos (hs.fresh timer hmem)]
  · rw [System.arm]
    dsimp only
    rw [if_neg (Nat.not_lt_of_le hge)]
    exact hP timer hPtimer hcallback

theorem Arms.fresh {P : Timer → Prop} {w w' : WaitTracker}
    (h : Arms P w w') (hfresh : ∀ timer ∈ w.timers, timer.id < w.nextTimer) :
    ∀ timer ∈ w'.timers, timer.id < w'.nextTimer := by
  intro timer hmem
  rcases h.timers timer hmem with hmem | ⟨-, hlt, -⟩
  · exact Nat.lt_of_lt_of_le (hfresh timer hmem) h.next
  · exact hlt

section

variable (hs : Good s)
include hs

theorem Good.track {w : WaitTracker} (harms : Arms (fun _ => False) s.tracker w) :
    Good { s with tracker := w } := by
  refine hs.keep (Int.le_refl _) rfl rfl rfl (harms.fresh hs.fresh) ?_
  intro executionId waitTill _ hnone
  refine .inr ⟨fun timer hmem => ?_, hnone.found, hnone.resumptions⟩
  rcases harms.timers timer hmem with hmem | ⟨-, -, hfalse⟩
  · exact hnone.timers timer hmem
  · cases hfalse

theorem Good.arm {f : WaitTracker → WaitTracker}
    (harms : Arms (fun timer => timer.callback = .getWaitingExecutions) s.tracker (f s.tracker)) :
    Good (s.arm f) := by
  refine hs.keep (Int.le_refl _) rfl rfl rfl (harms.fresh hs.fresh) ?_
  intro executionId waitTill _ hnone
  refine .inr (hnone.arm harms hs fun timer hpoll hcallback => ?_)
  rw [hpoll] at hcallback
  cases hcallback

/-- **THE QUERY OF A POLL** finds the waits that are stored. -/
theorem Good.poll (queries : Nat) :
    Good { s with
      tracker := { s.tracker with queries := queries }
      found := s.found ++ [s.waitingRows] } := by
  refine hs.keep (Int.le_refl _) rfl rfl rfl hs.fresh ?_
  rintro executionId waitTill ⟨execution, hget, -, hwait⟩ hnone
  refine .inr ⟨hnone.timers, fun rows hmem => ?_, hnone.resumptions⟩
  rcases mem_append.mp hmem with hmem | hmem
  · exact hnone.found rows hmem
  · rw [mem_singleton.mp hmem]
    rintro row hrow rfl earlier hearlier
    obtain ⟨⟨id, stored⟩, hfilter, rfl⟩ := mem_map.mp hrow
    have hstored := OrderedMap.get?_eq_some.mpr (mem_filter.mp hfilter).1
    cases hget.symm.trans hstored
    cases hwait.symm.trans hearlier
    exact Int.le_refl _

/-- **THE LOOP OF A POLL** arms timers for the waits that its query has
    found. -/
theorem Good.handle {n : Nat} {rows : List ExecutionRow} (hfound : s.found[n]? = some rows) :
    Good { s.arm (.addTimers s.now rows) with
      found := s.found.eraseIdx n } := by
  have harms : Arms (ForRow s.now rows) s.tracker (WaitTracker.addTimers s.now rows s.tracker) :=
    Arms.addTimers fun _ hmem => hmem
  refine hs.keep (Int.le_refl _) rfl rfl rfl (harms.fresh hs.fresh) ?_
  intro executionId waitTill _ hnone
  have harmed : NoneEarlier (s.arm (.addTimers s.now rows)) executionId waitTill := by
    refine hnone.arm harms hs ?_
    rintro timer ⟨row, hrow, hfor, hwait⟩ hcallback
    cases hfor.symm.trans hcallback
    exact hnone.found rows (mem_of_getElem? hfound) row hrow rfl _ hwait
  exact .inr ⟨harmed.timers,
    fun rows hmem => hnone.found rows (mem_of_mem_eraseIdx hmem), hnone.resumptions⟩

theorem Good.tick (duration : Nat) : Good { s with now := s.now + duration } := by
  refine hs.keep (Int.le_add_of_nonneg_right (Int.natCast_nonneg _)) rfl rfl
    rfl hs.fresh ?_
  intro executionId waitTill _ hnone
  exact .inr ⟨hnone.timers, hnone.found, hnone.resumptions⟩

theorem Good.resume (executionId : String) {source : Source}
    (hsource : source ≠ .timer) : Good (s.resume executionId source) := by
  have htimers : (s.resume executionId source).tracker.timers = s.tracker.timers := by
    rw [System.resume]
    split <;> rfl
  have hnext : (s.resume executionId source).tracker.nextTimer = s.tracker.nextTimer := by
    rw [System.resume]
    split <;> rfl
  refine hs.keep (Int.le_refl _) rfl rfl rfl ?_ ?_
  · rw [htimers, hnext]
    exact hs.fresh
  · intro id waitTill _ hnone
    refine .inr ⟨?_, hnone.found, fun resumption hmem heq => ?_⟩
    · rw [htimers]
      exact hnone.timers
    · rcases mem_append.mp hmem with hmem | hmem
      · exact hnone.resumptions resumption hmem heq
      · rw [mem_singleton.mp hmem]
        exact hsource

/-- **A TIMER FIRES**: the wait that it may end is over. -/
theorem Good.fire {timer : Timer} (hmem : timer ∈ s.tracker.timers)
    (hdue : s.armedAt timer.id + timer.delay ≤ s.now) : Good (s.fire timer) := by
  rw [System.fire]
  rcases hcallback : timer.callback with _ | fired
  · exact hs.track (Arms.fewer rfl fun _ hmem => hmem)
  · refine hs.keep (Int.le_refl _) rfl rfl rfl ?_ ?_
    · intro other hother
      exact hs.fresh other (mem_clearTimer.mp hother).1
    · intro executionId waitTill _ hnone
      by_cases heq : fired = executionId
      · subst heq
        exact .inl (Int.le_trans (hnone.timers timer hmem hcallback) hdue)
      · refine .inr ⟨fun other hother => ?_, hnone.found, fun resumption hresumption hid => ?_⟩
        · exact hnone.timers other (mem_clearTimer.mp hother).1
        · rcases mem_append.mp hresumption with hold | hnew
          · exact hnone.resumptions resumption hold hid
          · rw [mem_singleton.mp hnew] at hid
            exact absurd hid heq

theorem Good.proceed {resumptions : List (Resumption D)}
    (hold : ∀ resumption ∈ resumptions, ∃ old ∈ s.resumptions,
      old.executionId = resumption.executionId ∧ old.source = resumption.source) :
    Good { s with resumptions := resumptions } := by
  refine hs.keep (Int.le_refl _) rfl rfl rfl hs.fresh ?_
  intro executionId waitTill _ hnone
  refine .inr ⟨hnone.timers, hnone.found, fun resumption hmem hid => ?_⟩
  obtain ⟨old, hmem, holdId, holdSource⟩ := hold resumption hmem
  rw [← holdSource]
  exact hnone.resumptions old hmem (holdId.trans hid)

theorem Good.endResumption (n : Nat) : Good { s with resumptions := s.resumptions.eraseIdx n } :=
  hs.proceed fun resumption hmem =>
    ⟨resumption, mem_of_mem_eraseIdx hmem, rfl, rfl⟩

end

variable {resumption : Resumption D}

theorem Good.read (hs : Good s) {n : Nat}
    (hget : s.resumptions[n]? = some resumption) (prepare : D → D) :
    Good (s.read n resumption prepare) := by
  rw [System.read]
  rcases s.executions.get? resumption.executionId with _ | execution
  · exact hs.endResumption n
  · dsimp only
    split
    · exact hs.endResumption n
    · refine hs.proceed fun other hmem => ?_
      rcases mem_or_eq_of_mem_set hmem with hmem | rfl
      · exact ⟨other, hmem, rfl, rfl⟩
      · exact ⟨resumption, mem_of_getElem? hget, rfl, rfl⟩

variable {execution : Execution D}

theorem isWaiting_of_get? (hget : s.executions.get? executionId = some execution) :
    s.isWaiting executionId = decide (execution.status = .waiting) := by
  rw [System.isWaiting, hget]
  rfl

theorem waiting_of_set {other : String} (hstatus : execution.status ≠ .waiting)
    (h : ((s.executions.set executionId execution).get? other).any (·.status = .waiting) = true) :
    other ≠ executionId ∧ s.isWaiting other = true := by
  rw [OrderedMap.get?_set] at h
  by_cases heq : executionId = other
  · rw [if_pos heq, Option.any_some] at h
    exact absurd (of_decide_eq_true h) hstatus
  · rw [if_neg heq] at h
    exact ⟨Ne.symm heq, h⟩

section

variable {n : Nat} (hs : Good s) (hmem : s.resumptions[n]? = some resumption)
include hs hmem

/-- **A SUCCESSFUL ADD** ends a wait that nothing has ended before, and one
    whose time has come if a timer makes it. -/
theorem Good.succeed {data : D} (hget : s.executions.get? resumption.executionId = some execution)
    (hstatus : execution.status = .waiting) :
    Good { s with
      executions := s.executions.set resumption.executionId
        { execution with status := .running, waitTill := none, data := data }
      resumptions := s.resumptions.eraseIdx n
      added := s.added ++
        [{ executionId := resumption.executionId
           source := resumption.source
           wait := s.waits resumption.executionId
           waitTill := execution.waitTill
           time := s.now }] } := by
  have hwaiting : s.isWaiting resumption.executionId = true := by
    rw [isWaiting_of_get? hget]
    exact decide_eq_true hstatus
  refine ⟨hs.fresh, ?_, ?_, ?_, ?_⟩
  · rintro executionId waitTill ⟨stored, hstored, hwaits, hwaitTill⟩
    rw [OrderedMap.get?_set] at hstored
    by_cases heq : resumption.executionId = executionId
    · rw [if_pos heq] at hstored
      cases hstored
      cases hwaits
    · rw [if_neg heq] at hstored
      rcases hs.timely executionId waitTill ⟨stored, hstored, hwaits, hwaitTill⟩ with hle | hnone
      · exact .inl hle
      · exact .inr ⟨hnone.timers, hnone.found, fun other hother =>
          hnone.resumptions other (mem_of_mem_eraseIdx hother)⟩
  · intro a ha
    have hrunning : ExecutionStatus.running ≠ .waiting := by decide
    rcases mem_append.mp ha with hold | hnew
    · refine ⟨(hs.begun a hold).1, fun hstill => ?_⟩
      exact (hs.begun a hold).2 (waiting_of_set hrunning hstill).2
    · rw [mem_singleton.mp hnew]
      refine ⟨Nat.le_refl _, fun hstill => ?_⟩
      exact absurd rfl (waiting_of_set hrunning hstill).1
  · rw [map_append]
    refine nodup_append.mpr ⟨hs.resumedOnce.once, nodup_singleton _, fun p hp q hq heq => ?_⟩
    obtain ⟨a, ha, rfl⟩ := mem_map.mp hp
    rw [map_singleton, mem_singleton] at hq
    obtain ⟨hid, hwait⟩ := Prod.mk.inj (heq.trans hq)
    have hlt := (hs.begun a ha).2 (hid ▸ hwaiting)
    rw [hwait, hid] at hlt
    exact Nat.lt_irrefl _ hlt
  · intro a ha hsource waitTill hwaitTill
    rcases mem_append.mp ha with hold | hnew
    · exact hs.resumedOnce.due a hold hsource waitTill hwaitTill
    · rw [mem_singleton.mp hnew] at hsource hwaitTill ⊢
      rcases hs.timely resumption.executionId waitTill
        ⟨execution, hget, hstatus, hwaitTill⟩ with hle | hnone
      · exact hle
      · exact absurd hsource (hnone.resumptions resumption (mem_of_getElem? hmem) rfl)

theorem Good.add (data : D) : Good (s.add n resumption data) := by
  rw [System.add]
  rcases hget : s.executions.get? resumption.executionId with _ | execution
  · rw [updateExistingExecution_missing hget]
    exact hs.endResumption n
  · rw [updateExistingExecution_required rfl hget]
    by_cases hstatus : execution.status = .waiting
    · rw [if_pos hstatus]
      exact hs.succeed hmem hget hstatus
    · rw [if_neg hstatus]
      exact hs.endResumption n

end

/-- **A WRITE** that meets the condition. -/
theorem Good.store (hs : Good s) (htimely : Timely s (.stores executionId execution)) :
    Good (s.store executionId execution) := by
  refine ⟨hs.fresh, ?_, ?_, hs.resumedOnce.once, hs.resumedOnce.due⟩
  · rintro id waitTill ⟨stored, hstored, hwaits, hwaitTill⟩
    have hfound := (OrderedMap.get?_set ..).symm.trans hstored
    by_cases heq : executionId = id
    · subst heq
      rw [if_pos rfl] at hfound
      cases hfound
      rcases htimely hwaits waitTill hwaitTill with hle | hnone
      · exact .inl hle
      · exact .inr ⟨hnone.timers, hnone.found, hnone.resumptions⟩
    · rw [if_neg heq] at hfound
      rcases hs.timely id waitTill ⟨stored, hfound, hwaits, hwaitTill⟩ with hle | hnone
      · exact .inl hle
      · exact .inr ⟨hnone.timers, hnone.found, hnone.resumptions⟩
  · intro a ha
    obtain ⟨hle, hlt⟩ := hs.begun a ha
    have hget : (s.store executionId execution).isWaiting a.executionId
        = if executionId = a.executionId
          then decide (execution.status = .waiting)
          else s.isWaiting a.executionId := by
      rw [System.isWaiting, System.isWaiting, System.store]
      rw [OrderedMap.get?_set]
      split <;> rfl
    have hwaits : (s.store executionId execution).waits a.executionId
        = if a.executionId = executionId && execution.status = .waiting
              && !s.isWaiting a.executionId
          then s.waits a.executionId + 1 else s.waits a.executionId := rfl
    rw [hget, hwaits]
    by_cases heq : executionId = a.executionId
    · subst heq
      -- The number grows when a wait begins, and only then.
      cases hwait : decide (execution.status = .waiting) <;>
        cases hbefore : s.isWaiting a.executionId
      · simpa using hle
      · simpa using hle
      · simp
        omega
      · simpa using ⟨hle, hlt hbefore⟩
    · simpa [heq, Ne.symm heq] using hs.begun a ha

theorem Good.delete (hs : Good s) (executionId : String) :
    Good { s with executions := s.executions.delete executionId } := by
  refine ⟨hs.fresh, ?_, ?_, hs.resumedOnce.once, hs.resumedOnce.due⟩
  · rintro id waitTill ⟨stored, hstored, hwaits, hwaitTill⟩
    rw [OrderedMap.get?_delete] at hstored
    by_cases heq : id = executionId
    · rw [if_pos heq] at hstored
      cases hstored
    · rw [if_neg heq] at hstored
      rcases hs.timely id waitTill ⟨stored, hstored, hwaits, hwaitTill⟩ with hle | hnone
      · exact .inl hle
      · exact .inr ⟨hnone.timers, hnone.found, hnone.resumptions⟩
  · intro a ha
    refine ⟨(hs.begun a ha).1, fun hstill => (hs.begun a ha).2 ?_⟩
    rw [System.isWaiting] at hstill ⊢
    rw [OrderedMap.get?_delete] at hstill
    by_cases heq : a.executionId = executionId
    · rw [if_pos heq] at hstill
      cases hstill
    · rwa [if_neg heq] at hstill

end

/-! ## Every run -/

/-- **ONE STEP** that meets the condition keeps the invariant. -/
theorem Good.step {s t : System D} {e : Event D} (hs : Good s)
    (hstep : Step s e t) (htimely : Timely s e) : Good t := by
  rw [Step] at hstep
  cases e with
  | ticks duration =>
    cases hstep
    exact hs.tick duration
  | init isLeader =>
    cases hstep
    exact hs.arm (Arms.init isLeader rfl)
  | startTracking =>
    cases hstep
    exact hs.arm (Arms.startTracking rfl)
  | stopTracking =>
    cases hstep
    exact hs.track Arms.stopTracking
  | stopExecution executionId =>
    cases hstep
    exact hs.track (Arms.stopExecution executionId)
  | getWaitingExecutions =>
    cases hstep
    exact hs.track (Arms.fewer rfl fun _ hmem => hmem)
  | polls =>
    rw [System.next] at hstep
    split at hstep
    · cases hstep
      exact hs.poll _
    · cases hstep
  | handles n =>
    obtain ⟨rows, hrows, rfl⟩ := Option.map_eq_some_iff.mp hstep
    exact hs.handle hrows
  | timerFires timer =>
    rw [System.next] at hstep
    split at hstep
    · next hdue =>
        cases hstep
        exact hs.fire hdue.1 hdue.2
    · cases hstep
  | webhookCalled executionId =>
    cases hstep
    exact hs.resume executionId (by decide)
  | childFinished executionId =>
    cases hstep
    exact hs.resume executionId (by decide)
  | reads n prepare =>
    obtain ⟨resumption, hget, hread⟩ := Option.bind_eq_some_iff.mp hstep
    split at hread
    · cases hread
      exact hs.read hget prepare
    · cases hread
  | adds n =>
    obtain ⟨resumption, hget, hadd⟩ := Option.bind_eq_some_iff.mp hstep
    obtain ⟨data, -, rfl⟩ := Option.map_eq_some_iff.mp hadd
    exact hs.add hget data
  | fails n =>
    rw [System.next] at hstep
    split at hstep
    · cases hstep
      exact hs.endResumption n
    · cases hstep
  | stores executionId execution =>
    cases hstep
    exact hs.store htimely
  | deletes executionId =>
    cases hstep
    exact hs.delete executionId

/-- **EVERY RUN**: each wait is ended once, and by a timer only when its time
    has come, if nothing that the tracker has begun ends before a wait that
    is stored. -/
theorem resumedOnce_of_timely {path : List (Event D × System D)}
    (hrun : IsRun Step System.start path) (htimely : EveryStep Timely System.start path) :
    EveryState ResumedOnce System.start path :=
  (everyState_of_everyStep hrun Good.start
    (fun _ _ _ hs hstep hc => hs.step hstep hc) htimely).mono fun _ hs => hs.resumedOnce

/-! ## Two runs -/

def after (s : System Nat) (e : Event Nat) : System Nat := (s.next e).getD s

def waiting (waitTill : Int) : Event Nat :=
  .stores "1" { status := .waiting, finished := false,
                waitTill := some waitTill, data := 0 }

/-- It waits until 1000, and a poll arms a timer for it. -/
def armedRun : List (Event Nat) := [.init true, waiting 1000, .polls, .handles 0]

/-- The timer fires and resumes it. -/
def dueRun : List (Event Nat) :=
  armedRun ++
    [.ticks 1000, .timerFires { id := 1, callback := .startExecution "1", delay := 1000 },
     .reads 0 id, .adds 0]

theorem resumedOnce_dueRun : EveryState ResumedOnce System.start (pathOf after .start dueRun) :=
  have hrun : IsRun Step System.start (pathOf after .start dueRun) :=
    ⟨rfl, rfl, rfl, rfl, rfl, rfl, rfl, rfl, trivial⟩
  have hnone : NoneEarlier ((System.start : System Nat).arm (·.init true)) "1" 1000 := by
    refine ⟨fun timer hmem hcallback => ?_, fun _ hmem => ?_, fun _ hmem => ?_⟩
    · rw [mem_singleton.mp hmem] at hcallback
      cases hcallback
    · cases hmem
    · cases hmem
  resumedOnce_of_timely hrun
    ⟨trivial, fun _ waitTill h => .inr (Option.some.inj h ▸ hnone), trivial,
      trivial, trivial, trivial, trivial, trivial, trivial⟩

/-- A webhook ends the first wait, and the execution waits until 5000: the
    timer of the first wait ends the second one at 1000. -/
theorem timer_outlives_wait :
    ¬ ∀ path : List (Event Nat × System Nat), IsRun Step System.start path →
      EveryState ResumedOnce System.start path := by
  intro hall
  have hdue := (hall (pathOf after .start (armedRun ++
    [.webhookCalled "1", .reads 0 id, .adds 0, waiting 5000, .ticks 1000,
     .timerFires { id := 1, callback := .startExecution "1", delay := 1000 },
     .reads 0 id, .adds 0]))
    ⟨rfl, rfl, rfl, rfl, rfl, rfl, rfl, rfl, rfl, rfl, rfl, rfl,
      trivial⟩).last.due
  have hlate := hdue
    { executionId := "1", source := .timer, wait := 2, waitTill := some 5000,
      time := 1000 } (by decide) rfl 5000 rfl
  exact absurd hlate (by decide)

end N8nWaitResumption
