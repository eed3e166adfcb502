import N8n.TaskBrokerProofs

/-! # Accepting an offer — no task is left behind

    When `acceptOffer` returns after the runner has accepted, the task is
    either served (the requester was told it is ready, the runner got its
    settings) or gone (out of the map, and the runner was sent a
    cancellation or has disconnected).

    Each suspended call has its own part of the invariant, by the `await` it
    is suspended at (`Tracked`).  A call that waits for settings needs its
    task in the map or gone; two steps break that: the acceptance of a task
    whose request has expired, and a done or error handler that deletes a
    task before its settings are out. -/

namespace N8nTaskAccept

open N8nOrderedMap N8nRun N8nTaskBroker List OrderedMap

/-! ## Served or gone -/

/-- The requester was told that the task is ready. -/
def ReadySent (b : Broker) (t : TaskId) (a : AcceptOffer) : Prop :=
  .toRequester a.requesterId (.taskReady a.requestId t) ∈ b.log

def SettingsSent (b : Broker) (t : TaskId) (a : AcceptOffer) : Prop :=
  ∃ settings, .toRunner a.offer.runnerId (.taskSettings t settings) ∈ b.log

/-- The runner was sent a cancellation, or has been deregistered. -/
def Released (b : Broker) (t : TaskId) (a : AcceptOffer) : Prop :=
  a.disconnected = true ∨ ∃ reason, .toRunner a.offer.runnerId (.taskCancel t reason) ∈ b.log

def Served (b : Broker) (t : TaskId) (a : AcceptOffer) : Prop :=
  ReadySent b t a ∧ SettingsSent b t a

def Gone (b : Broker) (t : TaskId) (a : AcceptOffer) : Prop :=
  b.tasks.get? t = none ∧ Released b t a

/-- No `acceptOffer` call has returned after the runner's acceptance and
    left its task neither served nor gone. -/
def NoOrphan (b : Broker) : Prop :=
  ∀ t a, b.acceptOffers t = some a → a.stage = .returned →
    a.acceptedByRunner = true → Served b t a ∨ Gone b t a

/-! ## The invariant -/

/-- What is known about a call suspended at an `await`; the tasks in
    `leaving` are about to be failed because their runner has gone. -/
def Tracked (leaving : List TaskId) (b : Broker) (t : TaskId) (a : AcceptOffer) : Prop :=
  match a.stage with
  | .offering => True
  | .ready => b.tasks.get? t = none → Released b t a
  | .preparing _ =>
    ReadySent b t a ∧ (b.tasks.get? t = none → Released b t a)
      ∧ (b.tasks.get? t ≠ none → a.offer.runnerId ∈ b.knownRunners ∨ t ∈ leaving)
  | .sending => Served b t a
  | .failing => Gone b t a
  | .cancelling => Served b t a ∨ Gone b t a
  | .returned => a.acceptedByRunner = true → Served b t a ∨ Gone b t a

structure Tidy (leaving : List TaskId) (b : Broker) : Prop where
  tracked : ∀ t a, b.acceptOffers t = some a → Tracked leaving b t a
  answered : ∀ t a settings, b.acceptOffers t = some a →
    a.requesterReply = some (.settings settings) → ReadySent b t a
  readyOf : ∀ q r t, .toRequester q (.taskReady r t) ∈ b.log →
    ∃ a, b.acceptOffers t = some a ∧ a.requesterId = q ∧ a.requestId = r
  connected : ∀ t a, b.acceptOffers t = some a →
    a.offer.runnerId ∈ b.knownRunners ∨ a.disconnected = true
  offered : ∀ o ∈ b.pendingTaskOffers, o.runnerId ∈ b.knownRunners
  owned : ∀ t task, b.tasks.get? t = some task →
    ∃ a, b.acceptOffers t = some a ∧ a.offer.runnerId = task.runnerId ∧ a.stage ≠ .offering
  issued : ∀ t, b.acceptOffers t ≠ none → t < b.nextTaskId
  left : ∀ t ∈ leaving, ∀ a, b.acceptOffers t = some a → a.disconnected = true

theorem start_tidy : Tidy [] .start :=
  { tracked := fun _ _ h => by cases h
    answered := fun _ _ _ h => by cases h
    readyOf := fun _ _ _ h => by cases h
    connected := fun _ _ h => by cases h
    offered := fun _ h => by cases h
    owned := fun _ _ h => by cases h
    issued := fun _ h => absurd rfl h
    left := fun _ h => by cases h }

theorem Tidy.noOrphan {b : Broker} (h : Tidy [] b) : NoOrphan b := by
  intro t a ha hstage haccepted
  have htracked := h.tracked t a ha
  rw [Tracked, hstage] at htracked
  exact htracked haccepted

/-! ## Steps that leave the calls alone -/

/-- A call that needs its task in the map, or gone. -/
def Waiting (a : AcceptOffer) : Prop := a.stage = .ready ∨ ∃ settings, a.stage = .preparing settings

/-- Messages are added, a task is said to be ready only to the requester of
    its call, runners stay known, and a task a call waits with is only
    deleted when its runner is released. -/
structure Evolves (b b' : Broker) : Prop where
  log : ∀ sent ∈ b.log, sent ∈ b'.log
  ready : ∀ q r t, .toRequester q (.taskReady r t) ∈ b'.log →
    .toRequester q (.taskReady r t) ∈ b.log
      ∨ ∃ a, b.acceptOffers t = some a ∧ a.requesterId = q ∧ a.requestId = r
  known : ∀ r ∈ b.knownRunners, r ∈ b'.knownRunners
  offered : ∀ o ∈ b'.pendingTaskOffers, o ∈ b.pendingTaskOffers ∨ o.runnerId ∈ b'.knownRunners
  accepts : b'.acceptOffers = b.acceptOffers
  next : b'.nextTaskId = b.nextTaskId
  kept : ∀ t task', b'.tasks.get? t = some task' →
    ∃ task, b.tasks.get? t = some task ∧ task.runnerId = task'.runnerId
  dropped : ∀ t a, b.acceptOffers t = some a → Waiting a →
    b.tasks.get? t ≠ none → b'.tasks.get? t = none → Released b' t a

namespace Evolves

variable {b b' : Broker} {t : TaskId} {a : AcceptOffer}

section

variable (h : Evolves b b')
include h

theorem stays_none (hnone : b.tasks.get? t = none) : b'.tasks.get? t = none := by
  rcases hnew : b'.tasks.get? t with _ | task'
  · rfl
  · obtain ⟨task, htask, -⟩ := h.kept t task' hnew
    rw [hnone] at htask
    cases htask

theorem readySent (hsent : ReadySent b t a) : ReadySent b' t a := h.log _ hsent

theorem released (hreleased : Released b t a) : Released b' t a := by
  rcases hreleased with hgone | ⟨reason, hsent⟩
  · exact Or.inl hgone
  · exact Or.inr ⟨reason, h.log _ hsent⟩

theorem served (hserved : Served b t a) : Served b' t a := by
  obtain ⟨hready, settings, hsent⟩ := hserved
  exact ⟨h.readySent hready, settings, h.log _ hsent⟩

theorem gone (hgone : Gone b t a) : Gone b' t a := ⟨h.stays_none hgone.1, h.released hgone.2⟩

theorem settled (hsettled : Served b t a ∨ Gone b t a) :
    Served b' t a ∨ Gone b' t a := hsettled.imp h.served h.gone

theorem stillReleased (ha : b.acceptOffers t = some a)
    (hwaiting : Waiting a) (hreleased : b.tasks.get? t = none → Released b t a)
    (hnone : b'.tasks.get? t = none) : Released b' t a := by
  by_cases hin : b.tasks.get? t = none
  · exact h.released (hreleased hin)
  · exact h.dropped t a ha hwaiting hin hnone

end

variable {leaving : List TaskId}

theorem tracked (h : Evolves b b')
    (ha : b.acceptOffers t = some a) (htracked : Tracked leaving b t a) :
    Tracked leaving b' t a := by
  unfold Tracked at htracked ⊢
  rcases hstage : a.stage with _ | _ | settings | _ | _ | _ | _ <;>
    rw [hstage] at htracked
  case offering => exact trivial
  case ready => exact h.stillReleased ha (Or.inl hstage) htracked
  case preparing =>
    obtain ⟨hready, hreleased, hknown⟩ := htracked
    refine ⟨h.readySent hready, h.stillReleased ha (Or.inr ⟨settings, hstage⟩) hreleased, ?_⟩
    intro hin
    exact (hknown (mt h.stays_none hin)).imp_left (h.known _)
  case sending => exact h.served htracked
  case failing => exact h.gone htracked
  case cancelling => exact h.settled htracked
  case returned => exact fun haccepted => h.settled (htracked haccepted)

theorem tidy (h : Evolves b b') (hb : Tidy leaving b) : Tidy leaving b' := by
  refine ⟨?_, ?_, ?_, ?_, ?_, ?_, ?_, ?_⟩
  · intro t a ha
    rw [h.accepts] at ha
    exact h.tracked ha (hb.tracked t a ha)
  · intro t a settings ha hreply
    rw [h.accepts] at ha
    exact h.readySent (hb.answered t a settings ha hreply)
  · intro q r t hsent
    rw [h.accepts]
    rcases h.ready q r t hsent with hold | hcall
    · exact hb.readyOf q r t hold
    · exact hcall
  · intro t a ha
    rw [h.accepts] at ha
    exact (hb.connected t a ha).imp_left (h.known _)
  · intro o ho
    rcases h.offered o ho with hold | hknown
    · exact h.known _ (hb.offered o hold)
    · exact hknown
  · intro t task' htask'
    obtain ⟨task, htask, hrunner⟩ := h.kept t task' htask'
    rw [h.accepts, ← hrunner]
    exact hb.owned t task htask
  · intro t ht
    rw [h.accepts] at ht
    rw [h.next]
    exact hb.issued t ht
  · intro t ht a ha
    rw [h.accepts] at ha
    exact hb.left t ht a ha

theorem refl (b : Broker) : Evolves b b :=
  ⟨fun _ h => h, fun _ _ _ h => Or.inl h, fun _ h => h, fun _ h => Or.inl h, rfl,
    rfl, fun _ task h => ⟨task, h, rfl⟩, fun _ _ _ _ h hnone => absurd hnone h⟩

theorem of_eq (hlog : b'.log = b.log) (hknown : b'.knownRunners = b.knownRunners)
    (hoffers : b'.pendingTaskOffers ⊆ b.pendingTaskOffers)
    (haccepts : b'.acceptOffers = b.acceptOffers)
    (hnext : b'.nextTaskId = b.nextTaskId) (htasks : b'.tasks = b.tasks) :
    Evolves b b' := by
  refine ⟨?_, ?_, ?_, fun o ho => Or.inl (hoffers ho), haccepts, hnext, ?_, ?_⟩
  · intro sent hsent
    rwa [hlog]
  · intro q r t hsent
    rw [hlog] at hsent
    exact Or.inl hsent
  · intro r hr
    rwa [hknown]
  · intro t task htask
    rw [htasks] at htask
    exact ⟨task, htask, rfl⟩
  · intro t a _ _ hin hnone
    rw [htasks] at hnone
    exact absurd hnone hin

theorem messageRunner (b : Broker) (runnerId : RunnerId) (m : ToRunner) :
    Evolves b (b.messageRunner runnerId m) := by
  unfold Broker.messageRunner
  split
  · refine { refl b with log := ?_, ready := ?_, dropped := ?_ }
    · intro sent hsent
      exact mem_append_left _ hsent
    · intro q r t hsent
      rcases mem_append.mp hsent with hold | hnew
      · exact Or.inl hold
      · cases mem_singleton.mp hnew
    · exact fun t a _ _ hin hnone => absurd hnone hin
  · exact refl b

theorem messageRequester (b : Broker) (q : RequesterId) {m : ToRequester}
    (hm : ∀ r t, m = .taskReady r t →
      ∃ a, b.acceptOffers t = some a ∧ a.requesterId = q ∧ a.requestId = r) :
    Evolves b (b.messageRequester q m) := by
  unfold Broker.messageRequester
  split
  · refine { refl b with log := ?_, ready := ?_, dropped := ?_ }
    · intro sent hsent
      exact mem_append_left _ hsent
    · intro q' r t hsent
      rcases mem_append.mp hsent with hold | hnew
      · exact Or.inl hold
      · obtain ⟨rfl, hready⟩ := Sent.toRequester.inj (mem_singleton.mp hnew)
        exact Or.inr (hm r t hready.symm)
    · exact fun t a _ _ hin hnone => absurd hnone hin
  · exact refl b

theorem setTask {task : Task} (htask : b.tasks.get? t = some task)
    (new : Task) (hrunner : new.runnerId = task.runnerId) :
    Evolves b { b with tasks := b.tasks.set t new } := by
  refine { refl b with kept := ?_, dropped := ?_ }
  · intro x task' htask'
    rw [get?_set] at htask'
    split at htask'
    · next heq =>
      cases htask'
      exact ⟨task, heq ▸ htask, hrunner.symm⟩
    · exact ⟨task', htask', rfl⟩
  · intro x a _ _ hin hnone
    rw [get?_set] at hnone
    split at hnone
    · cases hnone
    · exact absurd hnone hin

theorem of_delete (h : Evolves { b with tasks := b.tasks.delete t } b')
    (hreleased : ∀ a, b.acceptOffers t = some a → Waiting a →
      b.tasks.get? t ≠ none → Released b' t a) : Evolves b b' := by
  have hdelete : ∀ x, (b.tasks.delete t).get? x = if x = t then none else b.tasks.get? x :=
    get?_delete b.tasks t
  refine { h with kept := ?_, dropped := ?_ }
  · intro x task' htask'
    obtain ⟨task, htask, hrunner⟩ := h.kept x task' htask'
    rw [hdelete] at htask
    split at htask
    · cases htask
    · exact ⟨task, htask, hrunner⟩
  · intro x a ha hwaiting hin hnone
    by_cases hxt : x = t
    · subst hxt
      exact hreleased a ha hwaiting hin
    · refine h.dropped x a ha hwaiting ?_ hnone
      show (b.tasks.delete t).get? x ≠ none
      rwa [hdelete, if_neg hxt]

/-! ### The operations -/

theorem cancelTask (hb : Tidy leaving b)
    (t : TaskId) (reason : String) : Evolves b (b.cancelTask t reason) := by
  unfold Broker.cancelTask
  split
  · exact refl b
  · next task htask =>
    refine of_delete (messageRunner _ _ _) ?_
    intro a ha _ _
    obtain ⟨a', ha', hrunner, -⟩ := hb.owned t task htask
    rw [ha] at ha'
    cases ha'
    rcases hb.connected t a ha with hknown | hgone
    · right
      refine ⟨reason, ?_⟩
      rw [hrunner] at hknown ⊢
      simp only [Broker.messageRunner, if_pos hknown]
      exact mem_append_right _ (mem_singleton_self _)
    · exact Or.inl hgone

theorem failTask (b : Broker) (t : TaskId) (error : String)
    (hgone : ∀ a, b.acceptOffers t = some a → b.tasks.get? t ≠ none →
      a.disconnected = true) : Evolves b (b.failTask t error) := by
  unfold Broker.failTask
  split
  · exact refl b
  · refine of_delete (messageRequester _ _ fun _ _ h => by cases h) ?_
    intro a ha _ hin
    exact Or.inl (hgone a ha hin)

theorem disconnected_of_unknown (hb : Tidy leaving b) {task : Task}
    (htask : b.tasks.get? t = some task) (hunknown : task.runnerId ∉ b.knownRunners)
    (ha : b.acceptOffers t = some a) : a.disconnected = true := by
  obtain ⟨a', ha', hrunner, -⟩ := hb.owned t task htask
  rw [ha] at ha'
  cases ha'
  rw [← hrunner] at hunknown
  exact (hb.connected t a ha).resolve_left hunknown

theorem getRunnerOrFailTask (hb : Tidy leaving b)
    (t : TaskId) : Evolves b (b.getRunnerOrFailTask t).1 := by
  unfold Broker.getRunnerOrFailTask
  split
  · exact refl b
  · next task htask =>
    by_cases hknown : task.runnerId ∈ b.knownRunners
    · rw [if_pos hknown]
      exact refl b
    · rw [if_neg hknown]
      exact failTask b t _ fun a ha _ =>
        disconnected_of_unknown hb htask hknown ha

theorem trans {c : Broker} (h₁ : Evolves b c) (h₂ : Evolves c b') : Evolves b b' := by
  refine ⟨fun x hx => h₂.log x (h₁.log x hx),
    fun q r t hx => ?_, fun r hr => h₂.known r (h₁.known r hr),
    fun o ho => ?_, h₂.accepts.trans h₁.accepts, h₂.next.trans h₁.next, ?_, ?_⟩
  · rcases h₂.ready q r t hx with hmid | hcall
    · exact h₁.ready q r t hmid
    · rw [h₁.accepts] at hcall
      exact Or.inr hcall
  · rcases h₂.offered o ho with hold | hknown
    · exact (h₁.offered o hold).imp_right (h₂.known _)
    · exact Or.inr hknown
  · intro t task' htask'
    obtain ⟨task, htask, hrunner⟩ := h₂.kept t task' htask'
    obtain ⟨first, hfirst, hsame⟩ := h₁.kept t task htask
    exact ⟨first, hfirst, hsame.trans hrunner⟩
  · intro t a ha hwaiting hin hnone
    by_cases hmid : c.tasks.get? t = none
    · exact h₂.released (h₁.dropped t a ha hwaiting hin hmid)
    · rw [← h₁.accepts] at ha
      exact h₂.dropped t a ha hwaiting hmid hnone

theorem finishTask (b : Broker) (t : TaskId) {m : ToRequester}
    (hm : ∀ r x, m ≠ .taskReady r x) : Evolves b (b.finishTask t m) := by
  unfold Broker.finishTask
  split
  · exact refl b
  · next task htask =>
    refine trans (trans (setTask htask { task with timeout := false } rfl) ?_)
      (messageRequester _ _ fun r x h => absurd h (hm r x))
    exact of_eq rfl rfl (List.Subset.refl _) rfl rfl rfl

theorem handleTaskTimeout (config : TaskRunnersConfig) (b : Broker)
    (t : TaskId) : Evolves b (b.handleTaskTimeout config t) := by
  unfold Broker.handleTaskTimeout
  split
  · exact refl b
  · next task htask =>
    have hset := setTask htask { task with timeout := false } rfl
    cases config.mode with
    | internal =>
      have hlogged : Evolves { b with
          tasks := b.tasks.set t { task with timeout := false } }
          { b with
            tasks := b.tasks.set t { task with timeout := false }
            log := b.log ++ [Sent.runnerTimedOutDuringTask] } := by
        refine { refl _ with log := ?_, ready := ?_, dropped := ?_ }
        · intro sent hsent
          exact mem_append_left _ hsent
        · intro q r x hsent
          rcases mem_append.mp hsent with hold | hnew
          · exact Or.inl hold
          · cases mem_singleton.mp hnew
        · exact fun x a _ _ hin hnone => absurd hnone hin
      exact trans (trans hset hlogged) (finishTask _ t fun _ _ h => by cases h)
    | external =>
      refine trans (trans hset ?_) (messageRunner _ _ _)
      exact of_eq rfl rfl (List.Subset.refl _) rfl rfl rfl

theorem handleQuestion (b : Broker) (kind : QuestionKind) (t : TaskId)
    (id : String) : Evolves b (b.handleQuestion kind t id) := by
  unfold Broker.handleQuestion
  split
  · exact refl b
  · exact messageRequester b _ fun _ _ h => by cases h

theorem handleRequesterResponse (hb : Tidy leaving b)
    (kind : QuestionKind) (t : TaskId) (id data : String) :
    Evolves b (b.handleRequesterResponse kind t id data) := by
  have hget := getRunnerOrFailTask hb t
  unfold Broker.handleRequesterResponse
  split
  · next heq =>
    rw [heq] at hget
    exact hget
  · next heq =>
    rw [heq] at hget
    refine trans hget ?_
    exact of_eq rfl rfl (List.Subset.refl _) rfl rfl rfl

theorem handleRequestTimeout (b : Broker) (r : RequestId) :
    Evolves b (b.handleRequestTimeout r) := by
  unfold Broker.handleRequestTimeout
  split
  · exact refl b
  · show Evolves b (if r ∈ b.pendingTaskRequests then _ else _)
    split
    · refine trans ?_ (messageRequester _ _ fun _ _ h => by cases h)
      exact of_eq rfl rfl (List.Subset.refl _) rfl rfl rfl
    · exact of_eq rfl rfl (List.Subset.refl _) rfl rfl rfl

theorem registerRunner (b : Broker) (runnerId : RunnerId) :
    Evolves b (b.registerRunner runnerId) := by
  refine trans ?_ (messageRunner _ _ _)
  have hknown : ∀ r ∈ b.knownRunners, r ∈ runnerId :: b.knownRunners.erase runnerId := by
    intro r hr
    by_cases heq : r = runnerId
    · rw [heq]
      exact mem_cons_self ..
    · exact mem_cons_of_mem _ ((mem_erase_of_ne heq).mpr hr)
  exact { refl b with
    known := hknown
    offered := fun o ho => Or.inl ho
    dropped := fun t a _ _ hin hnone => absurd hnone hin }

end Evolves

/-! ## Steps of the calls -/

section

variable {leaving : List TaskId} {b : Broker} {t : TaskId} {a : AcceptOffer}

/-- Recording an answer leaves the call where it is. -/
structure SameCall (a a' : AcceptOffer) : Prop where
  offer : a'.offer = a.offer
  requestId : a'.requestId = a.requestId
  requesterId : a'.requesterId = a.requesterId
  stage : a'.stage = a.stage
  disconnected : a.disconnected = true → a'.disconnected = true
  accepted : a.stage = .returned → a'.acceptedByRunner = a.acceptedByRunner

variable {a' : AcceptOffer}

section

variable (h : SameCall a a')
include h

theorem SameCall.readySent (hsent : ReadySent b t a) : ReadySent b t a' := by
  rwa [ReadySent, h.requesterId, h.requestId]

theorem SameCall.released (hreleased : Released b t a) : Released b t a' := by
  rw [Released, h.offer]
  exact hreleased.imp_left h.disconnected

theorem SameCall.served (hserved : Served b t a) : Served b t a' := by
  refine ⟨h.readySent hserved.1, ?_⟩
  rw [SettingsSent, h.offer]
  exact hserved.2

theorem SameCall.settled (hsettled : Served b t a ∨ Gone b t a) : Served b t a' ∨ Gone b t a' :=
  hsettled.imp h.served fun hgone => ⟨hgone.1, h.released hgone.2⟩

theorem SameCall.tracked (htracked : Tracked leaving b t a) : Tracked leaving b t a' := by
  unfold Tracked at htracked ⊢
  rw [h.stage]
  rcases hstage : a.stage with _ | _ | settings | _ | _ | _ | _ <;>
    rw [hstage] at htracked
  case offering => exact trivial
  case ready => exact fun hnone => h.released (htracked hnone)
  case preparing =>
    obtain ⟨hready, hreleased, hknown⟩ := htracked
    refine ⟨h.readySent hready, fun hnone => h.released (hreleased hnone), ?_⟩
    rw [h.offer]
    exact hknown
  case sending => exact h.served htracked
  case failing => exact ⟨htracked.1, h.released htracked.2⟩
  case cancelling => exact h.settled htracked
  case returned =>
    intro haccepted
    rw [h.accepted hstage] at haccepted
    exact h.settled (htracked haccepted)

end

variable {f : AcceptOffer → AcceptOffer}

theorem acceptOffers_update {x : TaskId} (h : (b.updateAccept t f).acceptOffers x = some a') :
    ∃ a, b.acceptOffers x = some a ∧ a' = if x = t then f a else a := by
  change Function.update b.acceptOffers t _ x = some a' at h
  by_cases hxt : x = t
  · subst hxt
    rw [Function.update_self] at h
    obtain ⟨a, ha, rfl⟩ := Option.map_eq_some_iff.mp h
    exact ⟨a, ha, (if_pos rfl).symm⟩
  · rw [Function.update_of_ne hxt] at h
    exact ⟨a', h, (if_neg hxt).symm⟩

theorem acceptOffers_updated {x : TaskId} (h : b.acceptOffers x = some a) :
    (b.updateAccept t f).acceptOffers x = some (if x = t then f a else a) := by
  show Function.update b.acceptOffers t _ x = _
  by_cases hxt : x = t
  · subst hxt
    rw [Function.update_self, h, if_pos rfl]
    rfl
  · rw [Function.update_of_ne hxt, h, if_neg hxt]

/-- Updating one call, given what the update makes of it. -/
theorem Tidy.updateAccept (h : Tidy leaving b)
    (htracked : ∀ a, b.acceptOffers t = some a → Tracked leaving b t (f a))
    (hanswered : ∀ a settings, b.acceptOffers t = some a →
      (f a).requesterReply = some (.settings settings) → ReadySent b t (f a))
    (hoffer : ∀ a, (f a).offer = a.offer)
    (hrequest : ∀ a, (f a).requestId = a.requestId ∧ (f a).requesterId = a.requesterId)
    (hleft : ∀ a, a.disconnected = true → (f a).disconnected = true)
    (hstage : ∀ a, a.stage ≠ .offering → (f a).stage ≠ .offering) :
    Tidy leaving (b.updateAccept t f) := by
  refine ⟨?_, ?_, ?_, ?_, h.offered, ?_, ?_, ?_⟩
  · intro x a' ha'
    obtain ⟨a, ha, rfl⟩ := acceptOffers_update ha'
    split
    · next heq =>
      subst heq
      exact htracked a ha
    · exact h.tracked x a ha
  · intro x a' settings ha' hreply
    obtain ⟨a, ha, rfl⟩ := acceptOffers_update ha'
    by_cases hxt : x = t
    · subst hxt
      rw [if_pos rfl] at hreply ⊢
      exact hanswered a settings ha hreply
    · rw [if_neg hxt] at hreply ⊢
      exact h.answered x a settings ha hreply
  · intro q r x hsent
    obtain ⟨a, ha, hq, hr⟩ := h.readyOf q r x hsent
    refine ⟨_, acceptOffers_updated ha, ?_⟩
    split
    · exact ⟨(hrequest a).2.trans hq, (hrequest a).1.trans hr⟩
    · exact ⟨hq, hr⟩
  · intro x a' ha'
    obtain ⟨a, ha, rfl⟩ := acceptOffers_update ha'
    split
    · rw [hoffer]
      exact (h.connected x a ha).imp_right (hleft a)
    · exact h.connected x a ha
  · intro x task htask
    obtain ⟨a, ha, hrunner, hpast⟩ := h.owned x task htask
    refine ⟨_, acceptOffers_updated ha, ?_⟩
    split
    · exact ⟨(congrArg TaskOffer.runnerId (hoffer a)).trans hrunner, hstage a hpast⟩
    · exact ⟨hrunner, hpast⟩
  · intro x hx
    obtain ⟨a', ha'⟩ := Option.ne_none_iff_exists'.mp hx
    obtain ⟨a, ha, -⟩ := acceptOffers_update ha'
    exact h.issued x (by rw [ha]; exact Option.some_ne_none _)
  · intro x hx a' ha'
    obtain ⟨a, ha, rfl⟩ := acceptOffers_update ha'
    split
    · exact hleft a (h.left x hx a ha)
    · exact h.left x hx a ha

theorem Tidy.recordAnswer (h : Tidy leaving b) (hf : ∀ a, SameCall a (f a))
    (hreply : ∀ a settings, b.acceptOffers t = some a →
      (f a).requesterReply = some (.settings settings) →
      a.requesterReply = some (.settings settings) ∨ ReadySent b t a) :
    Tidy leaving (b.updateAccept t f) := by
  refine h.updateAccept (fun a ha => (hf a).tracked (h.tracked t a ha)) ?_
    (fun a => (hf a).offer) (fun a => ⟨(hf a).requestId, (hf a).requesterId⟩)
    (fun a => (hf a).disconnected) ?_
  · intro a settings ha hsettings
    refine (hf a).readySent ?_
    rcases hreply a settings ha hsettings with hold | hready
    · exact h.answered t a settings ha hold
    · exact hready
  · intro a hstage
    rw [(hf a).stage]
    exact hstage

theorem Tidy.setStage (h : Tidy leaving b) {stage : Stage} (hstage : stage ≠ .offering)
    (htracked : ∀ a, b.acceptOffers t = some a → Tracked leaving b t { a with stage }) :
    Tidy leaving (b.setStage t stage) :=
  h.updateAccept htracked (fun a settings ha hreply => h.answered t a settings ha hreply)
    (fun _ => rfl) (fun _ => ⟨rfl, rfl⟩) (fun _ hleft => hleft) (fun _ _ => hstage)

/-! ### Taking an offer -/

/-- A new call of `acceptOffer` for an offer of a known runner. -/
theorem Tidy.acceptOffer (h : Tidy [] b) {offer : TaskOffer}
    (hknown : offer.runnerId ∈ b.knownRunners) (requestId : RequestId) (requesterId : RequesterId) :
    Tidy [] (b.acceptOffer offer requestId requesterId) := by
  refine (Evolves.messageRunner _ _ _).tidy ?_
  let new : AcceptOffer :=
    { offer, requestId, requesterId, runnerReply := none
      requesterReply := none, stage := .offering, acceptedByRunner := false
      disconnected := false }
  have hcases : ∀ x a, Function.update b.acceptOffers b.nextTaskId
      (some new) x = some a → a = new ∨ b.acceptOffers x = some a := by
    intro x a ha
    by_cases hx : x = b.nextTaskId
    · subst hx
      rw [Function.update_self] at ha
      exact Or.inl (Option.some.inj ha).symm
    · rw [Function.update_of_ne hx] at ha
      exact Or.inr ha
  have hkeep : ∀ x a, b.acceptOffers x = some a →
      Function.update b.acceptOffers b.nextTaskId (some new) x = some a := by
    intro x a ha
    have hlt := h.issued x (by rw [ha]; exact Option.some_ne_none _)
    rw [Function.update_of_ne (Nat.ne_of_lt hlt)]
    exact ha
  refine ⟨?_, ?_, ?_, ?_, h.offered, ?_, ?_, fun _ hx => by cases hx⟩
  · intro x a ha
    rcases hcases x a ha with rfl | hold
    · exact trivial
    · exact h.tracked x a hold
  · intro x a settings ha hreply
    rcases hcases x a ha with rfl | hold
    · cases hreply
    · exact h.answered x a settings hold hreply
  · intro q r x hsent
    obtain ⟨a, ha, hcall⟩ := h.readyOf q r x hsent
    exact ⟨a, hkeep x a ha, hcall⟩
  · intro x a ha
    rcases hcases x a ha with rfl | hold
    · exact Or.inl hknown
    · exact h.connected x a hold
  · intro x task htask
    obtain ⟨a, ha, howner⟩ := h.owned x task htask
    exact ⟨a, hkeep x a ha, howner⟩
  · intro x hx
    by_cases hnew : x = b.nextTaskId
    · exact hnew ▸ Nat.lt_succ_self _
    · change Function.update b.acceptOffers b.nextTaskId _ x ≠ none at hx
      rw [Function.update_of_ne hnew] at hx
      exact Nat.lt_succ_of_lt (h.issued x hx)

theorem Tidy.settleRequest (h : Tidy [] b) (requestId : RequestId) :
    Tidy [] (b.settleRequest requestId) := by
  unfold Broker.settleRequest
  split
  · exact h
  · next request _ =>
    split
    · exact h
    · split
      · exact h
      · next offer hfind =>
        have htaken : Evolves b
            { b.updateRequest requestId
                (fun request => { request with acceptInProgress := true }) with
              pendingTaskOffers := b.pendingTaskOffers.eraseP
                fun o => o.taskType = request.taskType } :=
          Evolves.of_eq rfl rfl eraseP_subset rfl rfl rfl
        exact (htaken.tidy h).acceptOffer (h.offered offer (mem_of_find?_eq_some hfind)) _ _

theorem Tidy.settleTasks (h : Tidy [] b) (now : Nat) : Tidy [] (b.settleTasks now) := by
  have hexpired : Evolves b (b.expireTasks now) :=
    Evolves.of_eq rfl rfl (fun _ ho => mem_of_mem_filter ho) rfl rfl rfl
  exact List.foldlRecOn (motive := Tidy []) _ _ (hexpired.tidy h) fun c hc r _ => hc.settleRequest r

theorem Tidy.taskOffered (h : Tidy [] b) (now : Nat) {offer : TaskOffer}
    (hknown : offer.runnerId ∈ b.knownRunners) :
    Tidy [] (b.taskOffered now offer) := by
  have hstored : Tidy [] { b with
      pendingTaskOffers := b.pendingTaskOffers ++ [offer] } := by
    refine { h with offered := ?_ }
    intro o ho
    rcases mem_append.mp ho with hold | hnew
    · exact h.offered o hold
    · rw [mem_singleton.mp hnew]
      exact hknown
  exact hstored.settleTasks now

/-! ### Going on with a call -/

theorem tracked_congr {b' : Broker} (hlog : b'.log = b.log)
    (hknown : b'.knownRunners = b.knownRunners) (htask : b'.tasks.get? t = b.tasks.get? t)
    (h : Tracked leaving b t a) : Tracked leaving b' t a := by
  unfold Tracked Served Gone ReadySent SettingsSent Released at h ⊢
  rw [hlog, hknown, htask]
  exact h

/-- The acceptance creates the task and moves its call on. -/
theorem Tidy.createTask (h : Tidy [] b) (ha : b.acceptOffers t = some a)
    {task : Task} (hrunner : a.offer.runnerId = task.runnerId)
    {stage : Stage} (hpast : stage ≠ .offering)
    (htracked : Tracked [] { b with tasks := b.tasks.set t task } t
      { a with stage }) :
    Tidy [] ({ b with tasks := b.tasks.set t task }.setStage t stage) := by
  have hnew : ({ b with tasks := b.tasks.set t task }.setStage t
      stage).acceptOffers t = some { a with stage } := by
    show Function.update b.acceptOffers t _ t = _
    rw [Function.update_self, ha]
    rfl
  have hother : ∀ x, x ≠ t → ({ b with tasks := b.tasks.set t task }.setStage
      t stage).acceptOffers x = b.acceptOffers x :=
    fun x hx => Function.update_of_ne hx _ _
  have htasks : ∀ x, x ≠ t → (b.tasks.set t task).get? x = b.tasks.get? x := by
    intro x hx
    rw [get?_set, if_neg (Ne.symm hx)]
  refine ⟨?_, ?_, ?_, ?_, h.offered, ?_, ?_, fun _ hx => by cases hx⟩
  · intro x a' ha'
    by_cases hx : x = t
    · subst hx
      rw [hnew] at ha'
      cases ha'
      exact htracked
    · rw [hother x hx] at ha'
      exact tracked_congr (b := b) rfl rfl (htasks x hx) (h.tracked x a' ha')
  · intro x a' settings ha' hreply
    by_cases hx : x = t
    · subst hx
      rw [hnew] at ha'
      cases ha'
      exact h.answered x a settings ha hreply
    · rw [hother x hx] at ha'
      exact h.answered x a' settings ha' hreply
  · intro q r x hsent
    obtain ⟨a', ha', hcall⟩ := h.readyOf q r x hsent
    by_cases hx : x = t
    · subst hx
      rw [ha] at ha'
      cases ha'
      exact ⟨_, hnew, hcall⟩
    · exact ⟨a', (hother x hx).trans ha', hcall⟩
  · intro x a' ha'
    by_cases hx : x = t
    · subst hx
      rw [hnew] at ha'
      cases ha'
      exact h.connected x a ha
    · rw [hother x hx] at ha'
      exact h.connected x a' ha'
  · intro x task' htask'
    by_cases hx : x = t
    · subst hx
      change (b.tasks.set x task).get? x = some task' at htask'
      rw [get?_set, if_pos rfl] at htask'
      cases htask'
      exact ⟨_, hnew, hrunner, hpast⟩
    · change (b.tasks.set t task).get? x = some task' at htask'
      rw [htasks x hx] at htask'
      obtain ⟨a', ha', howner⟩ := h.owned x task' htask'
      exact ⟨a', (hother x hx).trans ha', howner⟩
  · intro x hx
    by_cases hxt : x = t
    · subst hxt
      exact h.issued x (by rw [ha]; exact Option.some_ne_none _)
    · rw [hother x hxt] at hx
      exact h.issued x hx

theorem Tidy.offerAccepted (h : Tidy [] b) (ha : b.acceptOffers t = some a)
    (hpending : a.acceptedByRunner = true → a.requestId ∈ b.pendingTaskRequests) :
    Tidy [] (b.offerAccepted t a) := by
  let task : Task :=
    { runnerId := a.offer.runnerId, requesterId := a.requesterId
      timeout := false }
  have hin : (b.tasks.set t task).get? t = some task := by
    rw [get?_set, if_pos rfl]
  show Tidy [] (if a.requestId ∈ b.pendingTaskRequests then _ else _)
  split
  · have hcreated : Tidy [] ({ b with tasks := b.tasks.set t task }.setStage t .ready) := by
      refine h.createTask ha rfl (by decide) ?_
      intro hnone
      rw [hin] at hnone
      cases hnone
    refine (Evolves.messageRequester _ _ ?_).tidy (Evolves.tidy ?_ hcreated)
    · rintro r x heq
      cases heq
      refine ⟨{ a with stage := .ready }, ?_, rfl, rfl⟩
      show Function.update b.acceptOffers t _ t = _
      rw [Function.update_self]
      exact congrArg (Option.map _) ha
    · exact Evolves.of_eq rfl rfl (List.Subset.refl _) rfl rfl rfl
  · next hgone =>
    have hcreated : Tidy [] ({ b with tasks := b.tasks.set t task }.setStage t .returned) := by
      refine h.createTask ha rfl (by decide) ?_
      intro haccepted
      exact absurd (hpending haccepted) hgone
    refine Evolves.tidy ?_ hcreated
    exact Evolves.of_eq rfl rfl (List.Subset.refl _) rfl rfl rfl

section

variable (h : Tidy leaving b) (ha : b.acceptOffers t = some a) (hnot : a.acceptedByRunner ≠ true)
include h ha hnot

theorem Tidy.offerFailed : Tidy leaving (b.offerFailed t a) := by
  have hupdate : Evolves b (b.updateRequest a.requestId
      fun request => { request with acceptInProgress := false }) :=
    Evolves.of_eq rfl rfl (List.Subset.refl _) rfl rfl rfl
  refine (hupdate.tidy h).setStage (by decide) ?_
  intro a' ha' haccepted
  change b.acceptOffers t = some a' at ha'
  rw [ha] at ha'
  cases ha'
  exact absurd haccepted hnot

theorem Tidy.offerDeferred : Tidy leaving (b.offerDeferred t a) := by
  have hupdate : Evolves b { b.updateRequest a.requestId (fun request =>
      { request with acceptInProgress := false, timeout := true }) with
      pendingTaskRequests := b.pendingTaskRequests ++ [a.requestId] } :=
    Evolves.of_eq rfl rfl (List.Subset.refl _) rfl rfl rfl
  refine (hupdate.tidy h).setStage (by decide) ?_
  intro a' ha' haccepted
  change b.acceptOffers t = some a' at ha'
  rw [ha] at ha'
  cases ha'
  exact absurd haccepted hnot

end

theorem cancelTask_none (b : Broker) (t : TaskId) (reason : String) :
    (b.cancelTask t reason).tasks.get? t = none := by
  unfold Broker.cancelTask
  split
  · next hnone => exact hnone
  · rw [Broker.messageRunner_tasks, get?_delete, if_pos rfl]

theorem Tidy.cancelAccepted (h : Tidy leaving b) (ha : b.acceptOffers t = some a) (reason : String)
    (hcase : Served b t a ∨ Gone b t a ∨ Waiting a ∧ (b.tasks.get? t = none → Released b t a)) :
    Tidy leaving (b.cancelAccepted t reason) := by
  have hcancel := Evolves.cancelTask h t reason
  refine (hcancel.tidy h).setStage (by decide) ?_
  intro a' ha'
  rw [hcancel.accepts, ha] at ha'
  cases ha'
  rcases hcase with hserved | hgone | ⟨hwaiting, hreleased⟩
  · exact Or.inl (hcancel.served hserved)
  · exact Or.inr (hcancel.gone hgone)
  · have hnone := cancelTask_none b t reason
    have hafter : Released (b.cancelTask t reason) t a :=
      hcancel.stillReleased ha hwaiting hreleased hnone
    exact Or.inr ⟨hnone, hafter⟩

theorem getRunnerOrFailTask_some {b' : Broker} {r : RunnerId}
    (h : b.getRunnerOrFailTask t = (b', some r)) :
    b' = b ∧ ∃ task, b.tasks.get? t = some task ∧ task.runnerId = r ∧ r ∈ b.knownRunners := by
  unfold Broker.getRunnerOrFailTask at h
  split at h
  · cases h
  · next task htask =>
    by_cases hknown : task.runnerId ∈ b.knownRunners
    · rw [if_pos hknown] at h
      cases h
      exact ⟨rfl, task, htask, rfl, hknown⟩
    · rw [if_neg hknown] at h
      cases h

theorem getRunnerOrFailTask_none {b' : Broker} (h : b.getRunnerOrFailTask t = (b', none)) :
    b'.tasks.get? t = none := by
  unfold Broker.getRunnerOrFailTask at h
  split at h
  · next hnone =>
    cases h
    exact hnone
  · next task htask =>
    by_cases hknown : task.runnerId ∈ b.knownRunners
    · rw [if_pos hknown] at h
      cases h
    · rw [if_neg hknown] at h
      cases h
      simp [Broker.failTask, htask, Broker.messageRequester_tasks, get?_delete]

theorem Tidy.prepareSettings (h : Tidy leaving b)
    (ha : b.acceptOffers t = some a) (hstage : a.stage = .ready)
    {settings : String}
    (hreply : a.requesterReply = some (.settings settings)) :
    Tidy leaving (b.prepareSettings t settings) := by
  have hget := Evolves.getRunnerOrFailTask h t
  have htracked := h.tracked t a ha
  rw [Tracked, hstage] at htracked
  unfold Broker.prepareSettings
  split
  · next heq =>
    obtain ⟨rfl, task, htask, rfl, hknown⟩ := getRunnerOrFailTask_some heq
    refine h.setStage (by simp) ?_
    intro a' ha'
    obtain ⟨owner, howner, hrunner, -⟩ := h.owned t task htask
    rw [ha] at ha' howner
    cases ha'
    cases howner
    exact ⟨h.answered t a settings ha hreply, htracked, fun _ => Or.inl (hrunner ▸ hknown)⟩
  · next heq =>
    rw [heq] at hget
    refine (hget.tidy h).setStage (by decide) ?_
    intro a' ha'
    rw [hget.accepts, ha] at ha'
    cases ha'
    have hnone := getRunnerOrFailTask_none heq
    have hafter : Released _ t a := hget.stillReleased ha (Or.inl hstage) htracked hnone
    exact ⟨hnone, hafter⟩

theorem Tidy.sendTaskSettings (h : Tidy [] b) (ha : b.acceptOffers t = some a)
    {settings : String} (hstage : a.stage = .preparing settings) :
    Tidy [] (b.sendTaskSettings t a settings) := by
  have htracked := h.tracked t a ha
  rw [Tracked, hstage] at htracked
  obtain ⟨hready, hreleased, hknown⟩ := htracked
  unfold Broker.sendTaskSettings
  split
  · next hnone =>
    refine h.setStage (by decide) ?_
    intro a' ha' _
    rw [ha] at ha'
    cases ha'
    exact Or.inr ⟨hnone, hreleased hnone⟩
  · next task htask =>
    have hset := Evolves.setTask htask { task with timeout := true } rfl
    have hrunner : a.offer.runnerId ∈ b.knownRunners := by
      refine (hknown ?_).resolve_right (fun hin => by cases hin)
      rw [htask]
      exact Option.some_ne_none _
    have hsent := Evolves.trans hset
      (Evolves.messageRunner _ a.offer.runnerId (.taskSettings t settings))
    rw [Broker.messageRunner_setStage]
    refine (hsent.tidy h).setStage (by decide) ?_
    intro a' ha'
    rw [hsent.accepts, ha] at ha'
    cases ha'
    refine ⟨hsent.readySent hready, settings, ?_⟩
    simp only [Broker.messageRunner, if_pos hrunner]
    exact mem_append_right _ (mem_singleton_self _)

end

/-! ## A runner that disconnects -/

section

variable {b : Broker} {runnerId : RunnerId}

theorem sameCall_noteDisconnect (a : AcceptOffer) : SameCall a (a.noteDisconnect runnerId) := by
  refine ⟨rfl, rfl, rfl, rfl, fun h => ?_, fun _ => rfl⟩
  show (a.disconnected || _) = true
  rw [h, Bool.true_or]

theorem noteDisconnect_own {a : AcceptOffer} (h : a.offer.runnerId = runnerId) :
    (a.noteDisconnect runnerId).disconnected = true := by
  show (a.disconnected || a.offer.runnerId == runnerId) = true
  rw [beq_iff_eq.mpr h, Bool.or_true]

/-- The runner is forgotten; its tasks are still to be failed. -/
theorem Tidy.forgetRunner (h : Tidy [] b) (runnerId : RunnerId) :
    Tidy (b.tasksOf runnerId) (b.forgetRunner runnerId) := by
  have hknown : ∀ r ∈ b.knownRunners, r ≠ runnerId →
      r ∈ (b.forgetRunner runnerId).knownRunners := by
    intro r hr hne
    exact mem_filter.mpr ⟨hr, decide_eq_true hne⟩
  have haccepts : ∀ t a, b.acceptOffers t = some a →
      (b.forgetRunner runnerId).acceptOffers t = some (a.noteDisconnect runnerId) := by
    intro t a ha
    show (b.acceptOffers t).map _ = _
    rw [ha]
    rfl
  refine ⟨?_, ?_, ?_, ?_, ?_, ?_, ?_, ?_⟩
  · intro t a' ha'
    obtain ⟨a, ha, rfl⟩ := Option.map_eq_some_iff.mp ha'
    refine (sameCall_noteDisconnect a).tracked ?_
    have htracked := h.tracked t a ha
    unfold Tracked at htracked ⊢
    rcases hstage : a.stage with _ | _ | settings | _ | _ | _ | _ <;>
      rw [hstage] at htracked
    case preparing =>
      obtain ⟨hready, hreleased, hrunner⟩ := htracked
      refine ⟨hready, hreleased, fun hin => ?_⟩
      by_cases hown : a.offer.runnerId = runnerId
      · right
        obtain ⟨task, htask⟩ := Option.ne_none_iff_exists'.mp hin
        obtain ⟨owner, howner, hsame, -⟩ := h.owned t task htask
        rw [ha] at howner
        cases howner
        exact Broker.mem_tasksOf.mpr ⟨_, htask, hsame.symm.trans hown⟩
      · left
        refine hknown _ ((hrunner hin).resolve_right ?_) hown
        exact fun hnil => by cases hnil
    all_goals exact htracked
  · intro t a' settings ha' hreply
    obtain ⟨a, ha, rfl⟩ := Option.map_eq_some_iff.mp ha'
    exact h.answered t a settings ha hreply
  · intro q r t hsent
    obtain ⟨a, ha, hcall⟩ := h.readyOf q r t hsent
    exact ⟨_, haccepts t a ha, hcall⟩
  · intro t a' ha'
    obtain ⟨a, ha, rfl⟩ := Option.map_eq_some_iff.mp ha'
    by_cases hown : a.offer.runnerId = runnerId
    · exact Or.inr (noteDisconnect_own hown)
    · rcases h.connected t a ha with hr | hgone
      · exact Or.inl (hknown _ hr hown)
      · exact Or.inr ((sameCall_noteDisconnect a).disconnected hgone)
  · intro o ho
    obtain ⟨hin, hne⟩ := mem_filter.mp ho
    exact hknown _ (h.offered o hin) (of_decide_eq_true hne)
  · intro t task htask
    obtain ⟨a, ha, howner⟩ := h.owned t task htask
    exact ⟨_, haccepts t a ha, howner⟩
  · intro t ht
    exact h.issued t fun hnone => ht (Option.map_eq_none_iff.mpr hnone)
  · intro t ht a' ha'
    obtain ⟨a, ha, rfl⟩ := Option.map_eq_some_iff.mp ha'
    obtain ⟨task, htask, hrunner⟩ := Broker.mem_tasksOf.mp ht
    obtain ⟨owner, howner, hsame, -⟩ := h.owned t task htask
    rw [ha] at howner
    cases howner
    exact noteDisconnect_own (hsame.trans hrunner)

theorem Tidy.forgetTask {t : TaskId} {rest : List TaskId}
    (h : Tidy (t :: rest) b) (hnone : b.tasks.get? t = none) :
    Tidy rest b := by
  refine { h with tracked := ?_, left := ?_ }
  · intro x a ha
    have htracked := h.tracked x a ha
    unfold Tracked at htracked ⊢
    rcases hstage : a.stage with _ | _ | settings | _ | _ | _ | _ <;>
      rw [hstage] at htracked
    case preparing =>
      obtain ⟨hready, hreleased, hrunner⟩ := htracked
      refine ⟨hready, hreleased, fun hin => (hrunner hin).imp_right ?_⟩
      intro hmem
      refine (mem_cons.mp hmem).resolve_left ?_
      rintro rfl
      exact hin hnone
    all_goals exact htracked
  · exact fun x hx => h.left x (mem_cons_of_mem _ hx)

theorem failTask_none (b : Broker) (t : TaskId) (error : String) :
    (b.failTask t error).tasks.get? t = none := by
  unfold Broker.failTask
  split
  · next hnone => exact hnone
  · rw [Broker.messageRequester_tasks, get?_delete, if_pos rfl]

theorem Tidy.answerRunnerPromise {leaving : List TaskId} (h : Tidy leaving b) (t : TaskId)
    {f : AcceptOffer → AcceptOffer} (hf : ∀ a, SameCall a (f a))
    (hreply : ∀ a, (f a).requesterReply = a.requesterReply) :
    Tidy leaving (b.answerRunnerPromise t f) := by
  unfold Broker.answerRunnerPromise
  split
  · have hcallbacks : Evolves b { b with
        runnerAcceptRejects := b.runnerAcceptRejects.erase t } :=
      Evolves.of_eq rfl rfl (List.Subset.refl _) rfl rfl rfl
    refine (hcallbacks.tidy h).recordAnswer hf ?_
    intro a settings _ hsettings
    rw [hreply] at hsettings
    exact Or.inl hsettings
  · exact h

theorem Tidy.dropTask {t : TaskId} {rest : List TaskId}
    (h : Tidy (t :: rest) b) (runnerId : RunnerId) (error : String) :
    Tidy rest (b.dropTask runnerId error t) := by
  have hfail := Evolves.failTask b t error fun a ha _ =>
    h.left t (mem_cons_self ..) a ha
  have hgone := (hfail.tidy h).forgetTask (failTask_none b t error)
  refine hgone.answerRunnerPromise t (fun a => ?_) fun _ => rfl
  exact ⟨rfl, rfl, rfl, rfl, fun hleft => hleft, fun _ => rfl⟩

theorem Tidy.deregisterRunner (h : Tidy [] b) (runnerId : RunnerId)
    (error : String) : Tidy [] (b.deregisterRunner runnerId error) := by
  have hfold : ∀ (l : List TaskId) {c : Broker}, Tidy l c →
      Tidy [] (l.foldl (Broker.dropTask runnerId error) c) := by
    intro l
    induction l with
    | nil => exact fun hc => hc
    | cons t rest ih => exact fun hc => ih (hc.dropTask runnerId error)
  exact hfold _ (h.forgetRunner runnerId)

end

/-! ## Runs -/

/-- A call that goes on after the runner's acceptance finds the acceptance
    in effect and its request still pending; a done or error handler does
    not delete a task that waits for its settings. -/
def CompletesCleanly (b : Broker) : Event → Prop
  | .resumeAcceptOffer t rejected =>
    ∀ a, b.acceptOffers t = some a → a.stage = .offering → a.acceptedByRunner = true →
      rejected = false ∧ a.runnerReply = some .accepted ∧ a.requestId ∈ b.pendingTaskRequests
  | .resumeHandler f =>
    ∀ a, b.acceptOffers f.taskId = some a → Waiting a → b.tasks.get? f.taskId = none
  | _ => True

section

variable {config : TaskRunnersConfig} {b b' : Broker} {e : Event}

theorem sameCall_settleRunner (a : AcceptOffer) (reply : RunnerReply) :
    SameCall a (a.settleRunner reply) :=
  ⟨rfl, rfl, rfl, rfl, fun h => h, fun _ => rfl⟩

theorem sameCall_noteAccept (a : AcceptOffer) (reply : RunnerReply) :
    SameCall a (a.settleRunner reply).noteAccept := by
  refine ⟨rfl, rfl, rfl, rfl, fun h => h, fun hstage => ?_⟩
  show (a.acceptedByRunner || a.stage != .returned) = a.acceptedByRunner
  rw [hstage]
  exact Bool.or_false _

theorem sameCall_settleRequester (a : AcceptOffer) (reply : RequesterReply) :
    SameCall a (a.settleRequester reply) :=
  ⟨rfl, rfl, rfl, rfl, fun h => h, fun _ => rfl⟩

theorem settings_of_settleRequester {a : AcceptOffer} {reply : RequesterReply} {settings : String}
    (h : (a.settleRequester reply).requesterReply = some (.settings settings)) :
    a.requesterReply = some (.settings settings) ∨ reply = .settings settings := by
  rcases hreply : a.requesterReply with _ | first
  · right
    simp only [AcceptOffer.settleRequester, hreply] at h
    exact Option.some.inj h
  · left
    simp only [AcceptOffer.settleRequester, hreply] at h
    exact h

theorem Tidy.answerRequesterPromise (h : Tidy [] b) {t : TaskId} {reply : RequesterReply}
    (hready : ∀ settings, reply = .settings settings →
      ∀ a, b.acceptOffers t = some a → ReadySent b t a) :
    Tidy [] (b.answerRequesterPromise t reply) := by
  unfold Broker.answerRequesterPromise
  split
  · have hcallbacks : Evolves b { b with
        requesterAcceptRejects := b.requesterAcceptRejects.erase t } :=
      Evolves.of_eq rfl rfl (List.Subset.refl _) rfl rfl rfl
    refine (hcallbacks.tidy h).recordAnswer (fun a => sameCall_settleRequester a reply) ?_
    intro a settings ha hsettings
    rcases settings_of_settleRequester hsettings with hold | hnew
    · exact Or.inl hold
    · exact Or.inr (hready settings hnew a ha)
  · exact h

theorem Tidy.resumeAcceptOffer (h : Tidy [] b) {t : TaskId} {rejected : Bool}
    (hclean : CompletesCleanly b (.resumeAcceptOffer t rejected)) :
    Tidy [] (b.resumeAcceptOffer t rejected) := by
  unfold Broker.resumeAcceptOffer
  split
  · exact h
  · next a ha =>
    have htracked := h.tracked t a ha
    have hclean := hclean a ha
    split
    · next hstage =>
      have hclean := hclean hstage
      split
      · next hrejected =>
        refine h.offerFailed ha fun haccepted => ?_
        rw [(hclean haccepted).1] at hrejected
        cases hrejected
      · have hother : ∀ {reply}, a.runnerReply = some reply →
            reply ≠ .accepted → a.acceptedByRunner ≠ true := by
          intro reply hreply hne haccepted
          rw [(hclean haccepted).2.1] at hreply
          exact hne (Option.some.inj hreply).symm
        split
        · exact h
        · exact h.offerAccepted ha fun haccepted => (hclean haccepted).2.2
        · next hreply =>
          exact h.offerFailed ha (hother hreply fun h => by cases h)
        · next hreply =>
          exact h.offerDeferred ha (hother hreply fun h => by cases h)
        · next hreply =>
          exact h.offerFailed ha (hother hreply fun h => by cases h)
    · next hstage =>
      rw [Tracked, hstage] at htracked
      have hcase : Served b t a ∨ Gone b t a
          ∨ Waiting a ∧ (b.tasks.get? t = none → Released b t a) :=
        Or.inr (Or.inr ⟨Or.inl hstage, htracked⟩)
      split
      · exact h.cancelAccepted ha _ hcase
      · split
        · exact h
        · next hreply => exact h.prepareSettings ha hstage hreply
        · exact h.cancelAccepted ha _ hcase
        · exact h.cancelAccepted ha _ hcase
    · next settings hstage => exact h.sendTaskSettings ha hstage
    · next hstage =>
      rw [Tracked, hstage] at htracked
      split
      · exact h.cancelAccepted ha _ (Or.inl htracked)
      · refine h.setStage (by decide) ?_
        intro a' ha' _
        rw [ha] at ha'
        cases ha'
        exact Or.inl htracked
    · next hstage =>
      rw [Tracked, hstage] at htracked
      exact h.cancelAccepted ha _ (Or.inr (Or.inl htracked))
    · next hstage =>
      rw [Tracked, hstage] at htracked
      refine h.setStage (by decide) ?_
      intro a' ha' _
      rw [ha] at ha'
      cases ha'
      exact htracked
    · exact h

/-- One step keeps the calls tidy, as long as they complete cleanly. -/
theorem step_tidy (h : Tidy [] b) (hst : Step config b e b')
    (hclean : CompletesCleanly b e) : Tidy [] b' := by
  obtain ⟨hpossible, rfl⟩ := hst
  cases e with
  | registerRunner runnerId => exact (Evolves.registerRunner b runnerId).tidy h
  | deregisterRunner runnerId error => exact h.deregisterRunner runnerId error
  | registerRequester _ =>
    refine Evolves.tidy ?_ h
    exact Evolves.of_eq rfl rfl (List.Subset.refl _) rfl rfl rfl
  | deregisterRequester _ =>
    refine Evolves.tidy ?_ h
    exact Evolves.of_eq rfl rfl (List.Subset.refl _) rfl rfl rfl
  | runnerMessage now runnerId m =>
    show Tidy [] (b.onRunnerMessage now runnerId m)
    unfold Broker.onRunnerMessage
    split
    · next hknown =>
      cases m with
      | taskAccepted t =>
        exact h.answerRunnerPromise t (fun a => sameCall_noteAccept a _) fun _ => rfl
      | taskRejected t reason =>
        exact h.answerRunnerPromise t (fun a => sameCall_settleRunner a _) fun _ => rfl
      | taskDeferred t =>
        exact h.answerRunnerPromise t (fun a => sameCall_settleRunner a _) fun _ => rfl
      | taskOffer offerId taskType validFor => exact h.taskOffered now hknown
      | taskDone t data =>
        exact (Evolves.finishTask b t (m := .taskDone t data) fun _ _ h => by cases h).tidy h
      | taskError t error =>
        exact (Evolves.finishTask b t (m := .taskError t error) fun _ _ h => by cases h).tidy h
      | question kind t id => exact (Evolves.handleQuestion b kind t id).tidy h
    · exact h
  | requesterMessage now q m =>
    cases m with
    | taskSettings t settings =>
      refine h.answerRequesterPromise fun _ _ a ha => ?_
      obtain ⟨r, hsent⟩ := hpossible
      obtain ⟨call, hcall, rfl, rfl⟩ := h.readyOf q r t hsent
      rw [ha] at hcall
      cases hcall
      exact hsent
    | taskCancel t reason => exact (Evolves.cancelTask h t reason).tidy h
    | taskRequest r taskType =>
      have hstored : Tidy [] { b with
          requests := Function.update b.requests r (some
            { requesterId := q, taskType, acceptInProgress := false
              timeout := true })
          pendingTaskRequests := b.pendingTaskRequests ++ [r] } := by
        refine Evolves.tidy ?_ h
        exact Evolves.of_eq rfl rfl (List.Subset.refl _) rfl rfl rfl
      exact hstored.settleTasks now
    | response kind t id data =>
      exact (Evolves.handleRequesterResponse h kind t id data).tidy h
  | requesterReject t reason =>
    exact h.answerRequesterPromise fun _ hreply => by cases hreply
  | requestTimeout r => exact (Evolves.handleRequestTimeout b r).tidy h
  | runnerAcceptTimeout t =>
    exact h.recordAnswer (fun a => sameCall_settleRunner a _) fun _ _ _ hreply => Or.inl hreply
  | requesterAcceptTimeout t =>
    refine h.recordAnswer (fun a => sameCall_settleRequester a _) ?_
    intro a settings _ hsettings
    rcases settings_of_settleRequester hsettings with hold | hnew
    · exact Or.inl hold
    · cases hnew
  | taskTimeout t => exact (Evolves.handleTaskTimeout config b t).tidy h
  | resumeAcceptOffer t rejected => exact h.resumeAcceptOffer hclean
  | resumeHandler f =>
    refine Evolves.tidy (Evolves.of_delete (t := f.taskId) ?_ ?_) h
    · exact Evolves.of_eq rfl rfl (List.Subset.refl _) rfl rfl rfl
    · intro a ha hwaiting hin
      exact absurd (hclean a ha hwaiting) hin
  | resumeTaskTimeout t =>
    refine (Evolves.trans ?_ (Evolves.finishTask _ t ?_)).tidy h
    · exact Evolves.of_eq rfl rfl (List.Subset.refl _) rfl rfl rfl
    · exact fun _ _ h => by cases h
  | resumeResponse r =>
    refine (Evolves.trans ?_ (Evolves.messageRunner _ _ _)).tidy h
    exact Evolves.of_eq rfl rfl (List.Subset.refl _) rfl rfl rfl

/-- **NO ORPHANED TASK**: in a run whose calls complete cleanly, every
    accepted task whose call has returned is served or gone. -/
theorem noOrphan_of_completesCleanly (config : TaskRunnersConfig) {path : List (Event × Broker)}
    (hrun : IsRun (Step config) .start path) (hclean : EveryStep CompletesCleanly .start path) :
    EveryState NoOrphan .start path :=
  (everyState_of_everyStep hrun start_tidy
    (fun _ _ _ h hst hc => step_tidy h hst hc) hclean).mono fun _ h => h.noOrphan

end

/-! ## Two runs -/

/-- The task is served, and deleted when its handler is through. -/
theorem noOrphan_of_served :
    EveryState NoOrphan .start
      (pathOf (Broker.perform internalRunners) .start
        (doneTask ++ [.resumeHandler ⟨0, true⟩])) := by
  refine noOrphan_of_completesCleanly internalRunners (doneTask_isRun _ ?_) ?_
  · refine ⟨⟨?_, rfl⟩, trivial⟩
    exact mem_singleton_self _
  · refine ⟨trivial, trivial, trivial, trivial, trivial, ?_, trivial, ?_, ?_,
      ?_, trivial, ?_, trivial⟩
    · intro a ha _ _
      cases ha
      exact ⟨rfl, rfl, mem_singleton_self _⟩
    iterate 3
      intro a ha hstage
      cases ha
      cases hstage
    · intro a ha hwaiting
      cases ha
      rcases hwaiting with hstage | ⟨settings, hstage⟩ <;> cases hstage

/-- The request expires while the runner makes up its mind: the accepted
    task stays in the map, and nobody is told about it. -/
theorem expiry_orphans :
    ∃ path, path = pathOf (Broker.perform internalRunners) .start
        (requestAndOffer ++
          [.requestTimeout "request", .runnerMessage 0 "runner" (.taskAccepted 0),
            .resumeAcceptOffer 0 false])
      ∧ IsRun (Step internalRunners) .start path
      ∧ (lastState .start path).tasks.get? 0
        = some { runnerId := "runner", requesterId := "requester"
                 timeout := false }
      ∧ (lastState .start path).log
        = [.toRunner "runner" .runnerRegistered, .toRunner "runner" (.taskOfferAccept "offer1" 0),
            .toRequester "requester" (.requestExpired "request" "timeout")]
      ∧ ¬ EveryState NoOrphan .start path := by
  refine ⟨_, rfl, ?_, by decide, by decide, ?_⟩
  · refine ⟨⟨trivial, rfl⟩, ⟨trivial, rfl⟩, ⟨rfl, rfl⟩, ⟨trivial, rfl⟩,
      ⟨⟨_, rfl, rfl⟩, rfl⟩, ⟨trivial, rfl⟩, ⟨⟨_, rfl, ?_, ?_⟩, rfl⟩,
      trivial⟩ <;> decide
  · intro hall
    rcases hall.last 0 _ rfl rfl rfl with ⟨hready, -⟩ | ⟨hnone, -⟩
    · exact absurd (show Sent.toRequester "requester"
        (.taskReady "request" 0) ∈ _ from hready) (by decide)
    · cases hnone

end N8nTaskAccept
