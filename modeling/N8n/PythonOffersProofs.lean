import Mathlib.Algebra.Order.Ring.Nat
import N8n.PythonRunnerProofs

/-! # Offers of the Python runner — open offers and running tasks against the limit

    `_send_offers` takes the number of offers to send once and then waits for
    the socket after each of them.  An offer that is accepted in between, a
    task that ends and an offer that expires all leave room; what they do not
    leave is room for a second `_send_offers`, which takes its number from
    the slots that the first one is still to fill.

    `withinConcurrency_of_sendsAlone` gives the condition on the steps under
    which the limit holds in every state of a run. -/

namespace N8nPythonOffers

open N8nRun N8nOrderedMap N8nPythonRunner List

/-! ## The property and the condition -/

/-- Open offers and running tasks together. -/
def committed (s : TaskRunner) : Nat := s.openOffers.size + s.runningTasks.size

def WithinConcurrency (s : TaskRunner) : Prop := committed s ≤ s.maxConcurrency

/-- The offers that a coroutine is still to open. -/
def loopRemaining : Loop → Nat
  | .sending _ remaining => remaining
  | _ => 0

/-- The offers that the handler is still to open. -/
def handlerRemaining : Option Handler → Nat
  | some (.sending _ remaining) => remaining
  | _ => 0

/-- The offers that are still to be opened. -/
def pending (s : TaskRunner) : Nat := (s.loops.map loopRemaining).sum + handlerRemaining s.handler

/-- The condition on a step: when a call of `_send_offers` begins, no other
    one has offers left to open. -/
def SendsAlone (s : TaskRunner) : Event → Prop
  | .loopRound _ _ => s.canSendOffers = true → pending s = 0
  | .received (.taskCancel taskId _) =>
    s.statusOf taskId = some .waitingForSettings → s.canSendOffers = true → pending s = 0
  | _ => True

/-! ## The load -/

/-- What is taken and what will be. -/
def load (s : TaskRunner) : Nat := committed s + pending s

/-- The invariant. -/
def Bounded (s : TaskRunner) : Prop := load s ≤ s.maxConcurrency

/-- The load did not grow, and the limit is the same. -/
structure Lighter (s t : TaskRunner) : Prop where
  limit : t.maxConcurrency = s.maxConcurrency
  load : load t ≤ load s

variable {s t : TaskRunner}

theorem Lighter.bounded (h : Lighter s t) (hs : Bounded s) : Bounded t := by
  rw [Bounded, h.limit]
  exact Nat.le_trans h.load hs

theorem Lighter.refl (s : TaskRunner) : Lighter s s := ⟨rfl, Nat.le_refl _⟩

variable {i : Nat}

theorem sum_map_set {l : List Loop} {old : Loop} (h : l[i]? = some old) (new : Loop) :
    ((l.set i new).map loopRemaining).sum + loopRemaining old
      = (l.map loopRemaining).sum + loopRemaining new := by
  induction l generalizing i with
  | nil => cases h
  | cons loop rest ih =>
    cases i with
    | zero =>
      cases h
      simp only [set_cons_zero, map_cons, sum_cons]
      omega
    | succ i =>
      have hrest := ih (i := i) (by simpa using h)
      simp only [set_cons_succ, map_cons, sum_cons]
      omega

theorem pending_setLoop {old : Loop} (h : s.loops[i]? = some old) (new : Loop) :
    pending (s.setLoop i new) + loopRemaining old = pending s + loopRemaining new := by
  have hsum := sum_map_set h new
  rw [pending, pending]
  show ((s.loops.set i new).map loopRemaining).sum + _ + _ = _
  have hhandler : (s.setLoop i new).handler = s.handler := rfl
  rw [hhandler]
  omega

theorem pending_setHandler (s : TaskRunner) (handler : Option Handler) :
    pending (s.setHandler handler) + handlerRemaining s.handler
      = pending s + handlerRemaining handler := by
  rw [pending, pending]
  show (s.loops.map loopRemaining).sum + handlerRemaining handler + _ = _
  omega

theorem sum_map_set_le (l : List Loop) (i : Nat) {new : Loop} (hnew : loopRemaining new = 0) :
    ((l.set i new).map loopRemaining).sum ≤ (l.map loopRemaining).sum := by
  rcases h : l[i]? with _ | old
  · rw [set_eq_of_length_le (getElem?_eq_none_iff.mp h)]
  · have hsum := sum_map_set h new
    omega

theorem lighter_setLoop (s : TaskRunner) (i : Nat) {new : Loop}
    (hnew : loopRemaining new = 0) : Lighter s (s.setLoop i new) := by
  refine ⟨rfl, ?_⟩
  have hsum := sum_map_set_le s.loops i hnew
  exact Nat.add_le_add_left (Nat.add_le_add_right hsum _) _

theorem lighter_setHandler (s : TaskRunner) {handler : Option Handler}
    (h : handlerRemaining handler = 0) : Lighter s (s.setHandler handler) := by
  refine ⟨rfl, ?_⟩
  have hpending := pending_setHandler s handler
  have hcommitted : committed (s.setHandler handler) = committed s := rfl
  rw [load, load, hcommitted]
  omega

theorem lighter_popTask (s : TaskRunner) (taskId : TaskId) : Lighter s (s.popTask taskId) := by
  refine ⟨rfl, ?_⟩
  have hsize := OrderedMap.size_delete_le s.runningTasks taskId
  exact Nat.add_le_add_right (Nat.add_le_add_left hsize _) _

theorem Lighter.trans {u : TaskRunner} (h : Lighter s t) (h' : Lighter t u) : Lighter s u :=
  ⟨h'.limit.trans h.limit, Nat.le_trans h'.load h.load⟩

variable {taskId : TaskId}

theorem lighter_setStatus {old : TaskStatus} (h : s.statusOf taskId = some old)
    (status : TaskStatus) : Lighter s (s.setStatus taskId status) := by
  refine ⟨rfl, ?_⟩
  obtain ⟨task, htask, -⟩ := Option.map_eq_some_iff.mp h
  have hset := (OrderedMap.entries_set s.runningTasks taskId
    { taskId := taskId, status := status }).length_eq
  have hget := (OrderedMap.entries_of_get? htask).length_eq
  have hsize : (s.setStatus taskId status).runningTasks.size
      = s.runningTasks.size := hset.trans hget.symm
  have hload : load (s.setStatus taskId status) = s.openOffers.size
      + (s.setStatus taskId status).runningTasks.size + pending s := rfl
  rw [hload, hsize]
  exact Nat.le_refl _

theorem lighter_acceptTask {offerId : OfferId}
    {offer : TaskOffer} (h : s.openOffers.get? offerId = some offer)
    (taskId : TaskId) : Lighter s (s.acceptTask taskId offerId) := by
  refine ⟨rfl, ?_⟩
  have hdelete := OrderedMap.size_delete_of_mem h
  have hset := OrderedMap.size_set_le s.runningTasks taskId
    { taskId := taskId, status := .waitingForSettings }
  have hload : load (s.acceptTask taskId offerId)
      = (s.openOffers.delete offerId).size
        + (s.runningTasks.set taskId
          { taskId := taskId, status := .waitingForSettings }).size
        + pending s := rfl
  rw [hload, load, committed]
  omega

theorem lighter_send (s : TaskRunner) (message : RunnerMessage) :
    Lighter s (s.send message) := ⟨rfl, Nat.le_refl _⟩

/-! ## Opening offers -/

theorem committed_openOffer_le (s : TaskRunner) (seed : OfferSeed) :
    committed (s.openOffer seed).1 ≤ committed s + 1 := by
  have hset := OrderedMap.size_set_le s.openOffers seed.offerId
    { offerId := seed.offerId
      validUntil := s.now + (OFFER_VALIDITY + seed.jitter)
        + OFFER_VALIDITY_LATENCY_BUFFER }
  have hrunning : (s.openOffer seed).1.runningTasks = s.runningTasks := rfl
  rw [committed, committed, hrunning, Nat.add_right_comm]
  exact Nat.add_le_add_right hset _

theorem committed_dropExpired_le (s : TaskRunner) : committed s.dropExpired ≤ committed s :=
  Nat.add_le_add_right (OrderedMap.size_filter_le ..) _

/-- What a call of `_send_offers` does up to its first offer. -/
structure Sends (s t : TaskRunner) (remaining : Nat) : Prop where
  limit : t.maxConcurrency = s.maxConcurrency
  loops : t.loops = s.loops
  handler : t.handler = s.handler
  /-- nothing to send, or not more than there is room for -/
  room : committed t ≤ committed s ∧ remaining = 0
    ∨ s.canSendOffers = true ∧ committed t + remaining ≤ s.maxConcurrency

variable {seed : OfferSeed}

theorem sendOffers_none (h : s.sendOffers seed = (t, none)) : Sends s t 0 := by
  rw [TaskRunner.sendOffers] at h
  split at h
  · cases h
    exact ⟨rfl, rfl, rfl, .inl ⟨Nat.le_refl _, rfl⟩⟩
  · split at h
    · cases h
      exact ⟨rfl, rfl, rfl, .inl ⟨committed_dropExpired_le s, rfl⟩⟩
    · cases h

variable {remaining : Nat} {message : RunnerMessage}

theorem sendOffers_some (h : s.sendOffers seed = (t, some (message, remaining))) :
    Sends s t remaining := by
  rw [TaskRunner.sendOffers] at h
  split at h
  · cases h
  · rename_i hcan
    split at h
    · cases h
    · rename_i n hn
      cases h
      refine ⟨rfl, rfl, rfl, .inr ⟨by simpa using hcan, ?_⟩⟩
      have hopen := committed_openOffer_le s.dropExpired seed
      show committed (s.dropExpired.openOffer seed).1 + remaining ≤ _
      have hroom : s.maxConcurrency - committed s.dropExpired = remaining + 1 := hn
      omega

theorem Sends.bounded {u : TaskRunner} (h : Sends s t remaining) (hs : Bounded s)
    (halone : s.canSendOffers = true → pending s = 0)
    (hlimit : u.maxConcurrency = t.maxConcurrency) (hcommitted : committed u = committed t)
    (hpending : pending u = pending t + remaining) : Bounded u := by
  have hsame : pending t = pending s := by
    rw [pending, pending, h.loops, h.handler]
  rw [Bounded, load, hlimit, h.limit, hcommitted, hpending, hsame]
  rw [Bounded, load] at hs
  rcases h.room with ⟨hle, hzero⟩ | ⟨hcan, hroom⟩
  · omega
  · have hnone := halone hcan
    omega

/-! ## Steps -/

theorem bounded_loopRound (hs : Bounded s)
    (hidle : s.loops[i]? = some .idle) (halone : s.canSendOffers = true → pending s = 0) :
    Bounded (s.loopRound i seed) := by
  rw [TaskRunner.loopRound]
  split
  · exact (lighter_setLoop s i rfl).bounded hs
  · split
    · rename_i t hsend
      have hsends := sendOffers_none hsend
      have hloop : t.loops[i]? = some .idle := by rw [hsends.loops, hidle]
      exact hsends.bounded hs halone rfl rfl (pending_setLoop hloop .idle)
    · rename_i t message remaining hsend
      have hsends := sendOffers_some hsend
      have hloop : t.loops[i]? = some .idle := by rw [hsends.loops, hidle]
      exact hsends.bounded hs halone rfl rfl (pending_setLoop hloop (.sending message remaining))

theorem lighter_loopSent (h : s.loops[i]? = some (.sending message remaining))
    (seed : OfferSeed) : Lighter s (s.loopSent i message remaining seed) := by
  cases remaining with
  | zero => exact (lighter_send s message).trans (lighter_setLoop _ i rfl)
  | succ remaining =>
    refine ⟨rfl, ?_⟩
    have hopen := committed_openOffer_le (s.send message) seed
    have hpending := pending_setLoop (s := ((s.send message).openOffer seed).1) h
      (.sending ((s.send message).openOffer seed).2 remaining)
    have hsame : committed (s.send message) = committed s := rfl
    have hload : load (s.loopSent i message (remaining + 1) seed)
        = committed ((s.send message).openOffer seed).1
          + pending (((s.send message).openOffer seed).1.setLoop i
            (.sending ((s.send message).openOffer seed).2 remaining)) := rfl
    have hbefore : pending ((s.send message).openOffer seed).1 = pending s := rfl
    simp only [loopRemaining] at hpending
    rw [hload, load]
    omega

theorem lighter_handlerSent (h : s.handler = some (.sending message remaining))
    (seed : OfferSeed) : Lighter s (s.handlerSent message remaining seed) := by
  cases remaining with
  | zero => exact (lighter_send s message).trans (lighter_setHandler _ rfl)
  | succ remaining =>
    refine ⟨rfl, ?_⟩
    have hopen := committed_openOffer_le (s.send message) seed
    have hpending := pending_setHandler ((s.send message).openOffer seed).1
      (some (.sending ((s.send message).openOffer seed).2 remaining))
    have hhandler : handlerRemaining
        ((s.send message).openOffer seed).1.handler = remaining + 1 := by
      show handlerRemaining s.handler = remaining + 1
      rw [h]
      rfl
    have hsame : committed (s.send message) = committed s := rfl
    have hload : load (s.handlerSent message (remaining + 1) seed)
        = committed ((s.send message).openOffer seed).1
          + pending (((s.send message).openOffer seed).1.setHandler
            (some (.sending ((s.send message).openOffer seed).2 remaining))) := rfl
    have hbefore : pending ((s.send message).openOffer seed).1 = pending s := rfl
    rw [hhandler] at hpending
    simp only [handlerRemaining] at hpending
    rw [hload, load]
    omega

theorem lighter_finishTask (s : TaskRunner) (taskId : TaskId)
    (x : Execution) : Lighter s (s.finishTask taskId x) :=
  (lighter_popTask s taskId).trans ⟨rfl, Nat.le_refl _⟩

theorem lighter_taskSent {x : Execution} (h : s.taskSent taskId x = some t) : Lighter s t := by
  rw [TaskRunner.taskSent] at h
  split at h
  · cases h
    exact (lighter_send s _).trans (lighter_finishTask _ taskId x)
  · cases h
    exact ⟨rfl, Nat.le_refl _⟩
  · cases h
    exact (lighter_send s _).trans (lighter_finishTask _ taskId x)
  · cases h

theorem lighter_taskNotSent
    {x : Execution} (h : s.taskNotSent taskId x = some t) : Lighter s t := by
  rw [TaskRunner.taskNotSent] at h
  split at h
  · cases h
    exact ⟨rfl, Nat.le_refl _⟩
  · cases h
    exact lighter_finishTask s taskId x
  · cases h

theorem lighter_offerAccept (s : TaskRunner) (taskId : TaskId) (offerId : OfferId) :
    Lighter s (s.handleTaskOfferAccept taskId offerId) := by
  rw [TaskRunner.handleTaskOfferAccept]
  split
  · exact lighter_setHandler s rfl
  · rename_i hoffer
    split
    · exact lighter_setHandler s rfl
    · rcases hget : s.openOffers.get? offerId with _ | offer
      · simp [hget] at hoffer
      · exact (lighter_acceptTask hget taskId).trans (lighter_setHandler _ rfl)

theorem bounded_taskCancel (hs : Bounded s) (hnone : s.handler = none)
    (halone : s.statusOf taskId = some .waitingForSettings →
      s.canSendOffers = true → pending s = 0) :
    Bounded (s.handleTaskCancel taskId seed) := by
  rw [TaskRunner.handleTaskCancel]
  split
  · rename_i hstatus
    have hpop := (lighter_popTask s taskId).bounded hs
    split
    · rename_i t hsend
      exact (sendOffers_none hsend).bounded hpop (halone hstatus) rfl rfl rfl
    · rename_i t message remaining hsend
      have hsends := sendOffers_some hsend
      have hhandler : t.handler = none := hsends.handler.trans hnone
      have hpending := pending_setHandler t (some (.sending message remaining))
      rw [hhandler] at hpending
      exact hsends.bounded hpop (halone hstatus) rfl rfl hpending
  · rename_i hstatus
    have hset := lighter_setStatus hstatus .aborting
    have hhandler : Lighter (s.setStatus taskId .aborting)
        ((s.setStatus taskId .aborting).setHandler
          (some (.stopping taskId (s.processOf taskId).isSome))) :=
      lighter_setHandler _ rfl
    exact Lighter.bounded (hset.trans (hhandler.trans ⟨rfl, Nat.le_refl _⟩)) hs
  · exact hs

theorem lighter_settings (s : TaskRunner) (taskId : TaskId) (continueOnFail : Bool) :
    Lighter s (s.handleTaskSettings taskId continueOnFail) := by
  rw [TaskRunner.handleTaskSettings]
  split
  · rename_i hstatus
    exact (lighter_setStatus hstatus .running).trans ⟨rfl, Nat.le_refl _⟩
  · exact Lighter.refl s

theorem lighter_registered (s : TaskRunner) : Lighter s s.handleRunnerRegistered := by
  refine ⟨rfl, ?_⟩
  have hpending : pending s.handleRunnerRegistered = pending s := by
    show ((s.loops ++ [Loop.idle]).map loopRemaining).sum + _ = _
    rw [map_append, sum_append]
    rfl
  rw [load, load, hpending]
  exact Nat.le_refl _

theorem bounded_received {message : BrokerMessage} (hs : Bounded s)
    (hnone : s.handler = none) (hc : SendsAlone s (.received message)) :
    Bounded (s.handleMessage message) := by
  cases message with
  | infoRequest => exact (lighter_setHandler s rfl).bounded hs
  | runnerRegistered => exact (lighter_registered s).bounded hs
  | taskOfferAccept taskId offerId =>
    exact (lighter_offerAccept s taskId offerId).bounded hs
  | taskSettings taskId continueOnFail =>
    exact (lighter_settings s taskId continueOnFail).bounded hs
  | taskCancel taskId seed => exact bounded_taskCancel hs hnone hc

/-- **ONE STEP**: the invariant survives every step that meets the
    condition. -/
theorem Bounded.step {e : Event} (hs : Bounded s)
    (h : Step s e t) (hc : SendsAlone s e) : Bounded t := by
  cases e with
  | tick millis =>
    cases h
    exact hs
  | connected =>
    obtain ⟨-, heq⟩ := Option.ite_none_left_eq_some.mp h
    cases heq
    exact hs
  | disconnected =>
    obtain ⟨-, rfl⟩ := Option.ite_some_none_eq_some.mp h
    exact (lighter_setLoop s (s.loops.length - 1) rfl).bounded hs
  | received message =>
    obtain ⟨⟨-, hready, -⟩, rfl⟩ := Option.ite_some_none_eq_some.mp h
    exact bounded_received hs hready hc
  | handlerSent seed =>
    rw [Step, TaskRunner.next] at h
    split at h
    · rename_i hhandler
      cases h
      exact (lighter_handlerSent hhandler seed).bounded hs
    · cases h
  | handlerFailed =>
    rw [Step, TaskRunner.next] at h
    split at h <;> cases h
    exact (lighter_setHandler s rfl).bounded hs
  | handlerLooks =>
    rw [Step, TaskRunner.next] at h
    split at h
    · cases h
      rw [TaskRunner.lookAtProcess]
      split <;> exact (lighter_setHandler s rfl).bounded hs
    · cases h
  | handlerStopped =>
    rw [Step, TaskRunner.next] at h
    split at h
    · split at h <;> cases h
      exact (lighter_setHandler s rfl).bounded hs
    · cases h
  | loopRound i seed =>
    rw [Step, TaskRunner.next] at h
    split at h
    · rename_i hidle
      cases h
      exact bounded_loopRound hs hidle hc
    · cases h
  | loopSent i seed =>
    rw [Step, TaskRunner.next] at h
    split at h
    · rename_i hloop
      cases h
      exact (lighter_loopSent hloop seed).bounded hs
    · cases h
  | loopFailed i =>
    rw [Step, TaskRunner.next] at h
    split at h <;> cases h
    exact (lighter_setLoop s i rfl).bounded hs
  | process taskId event =>
    obtain ⟨x, -, hx⟩ := Option.bind_eq_some_iff.mp h
    obtain ⟨x', -, rfl⟩ := Option.map_eq_some_iff.mp hx
    exact hs
  | taskSent taskId =>
    rw [Step, TaskRunner.next] at h
    split at h
    · obtain ⟨x, -, hx⟩ := Option.bind_eq_some_iff.mp h
      exact (lighter_taskSent hx).bounded hs
    · cases h
  | taskNotSent taskId =>
    obtain ⟨x, -, hx⟩ := Option.bind_eq_some_iff.mp h
    exact (lighter_taskNotSent hx).bounded hs

/-! ## Runs -/

theorem bounded_start (maxConcurrency now : Nat) :
    Bounded (.start maxConcurrency now) := Nat.zero_le _

/-- **WITHIN CONCURRENCY**: in a run in which no call of `_send_offers`
    begins while another one has offers left to open, open offers and running
    tasks never exceed the limit. -/
theorem withinConcurrency_of_sendsAlone {maxConcurrency now : Nat}
    {path : List (Event × TaskRunner)}
    (hrun : IsRun Step (.start maxConcurrency now) path)
    (halone : EveryStep SendsAlone (.start maxConcurrency now) path) :
    EveryState WithinConcurrency (.start maxConcurrency now) path := by
  have hall : EveryState Bounded (.start maxConcurrency now) path :=
    everyState_of_everyStep hrun (bounded_start maxConcurrency now)
      (fun _ _ _ hs hstep hc => hs.step hstep hc) halone
  refine hall.mono ?_
  intro s hs
  exact Nat.le_trans (Nat.le_add_right _ _) hs

/-! ## Two runs -/

/-- The broker accepts the first offer while the loop is at the second. -/
def acceptsFirst : List Event :=
  [.connected, .received .runnerRegistered, .loopRound 0 (offer "1"),
    .loopSent 0 (offer "2"), .received (.taskOfferAccept "task" "1"), .handlerSent (offer "3")]

/-- The task is cancelled once the loop has sent all its offers. -/
def cancelsAfter : List Event :=
  acceptsFirst ++ [.loopSent 0 (offer "3"), .loopSent 0 (offer "4"),
    .received (.taskCancel "task" (offer "5"))]

/-- The task is cancelled while the loop has one offer left to send. -/
def cancelsBetween : List Event :=
  acceptsFirst ++ [.received (.taskCancel "task" (offer "3")),
    .loopSent 0 (offer "4"), .handlerSent (offer "5")]

theorem cancelsAfter_withinConcurrency :
    EveryState WithinConcurrency (.start 3 0) (pathOf after (.start 3 0) cancelsAfter) := by
  have hrun : IsRun Step (.start 3 0) (pathOf after (.start 3 0) cancelsAfter) :=
    ⟨rfl, rfl, rfl, rfl, rfl, rfl, rfl, rfl, rfl, trivial⟩
  refine withinConcurrency_of_sendsAlone hrun ?_
  exact ⟨trivial, trivial, fun _ => rfl, trivial, trivial, trivial, trivial,
    trivial, fun _ _ => rfl, trivial⟩

/-- Four offers are open, where three tasks may run. -/
theorem cancelsBetween_exceeds :
    ¬ ∀ maxConcurrency now (path : List (Event × TaskRunner)),
      IsRun Step (.start maxConcurrency now) path →
        EveryState WithinConcurrency (.start maxConcurrency now) path := by
  intro hall
  have hrun : IsRun Step (.start 3 0) (pathOf after (.start 3 0) cancelsBetween) :=
    ⟨rfl, rfl, rfl, rfl, rfl, rfl, rfl, rfl, rfl, trivial⟩
  have hlast : committed (lastState (.start 3 0) (pathOf after (.start 3 0) cancelsBetween)) ≤ 3 :=
    (hall 3 0 _ hrun).last
  have hfour : committed (lastState (.start 3 0)
      (pathOf after (.start 3 0) cancelsBetween)) = 4 := rfl
  omega

end N8nPythonOffers
