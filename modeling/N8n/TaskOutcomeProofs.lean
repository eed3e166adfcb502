import N8n.TaskBrokerProofs

/-! # Ending a task — at most one terminal message

    A task ends with one message to its requester.  `failTask` deletes the
    task before it sends; the done and error handlers send first and delete
    the task when the requester's callback is through.  Until then the task
    looks alive, and a second terminal event finds it.

    The invariant ties the two together: a task that is still there although
    its requester has been told belongs to a handler that is suspended. -/

namespace N8nTaskOutcome

open N8nOrderedMap N8nRun N8nTaskBroker List OrderedMap

/-! ## Terminal messages -/

/-- The messages that end a task. -/
def isTerminal (t : TaskId) : Sent → Bool
  | .toRequester _ (.taskDone taskId _) => taskId == t
  | .toRequester _ (.taskError taskId _) => taskId == t
  | _ => false

/-- The terminal messages sent for a task. -/
def terminals (b : Broker) (t : TaskId) : List Sent := b.log.filter (isTerminal t)

/-- No requester is told the end of a task twice. -/
def EndsOnce (b : Broker) : Prop := ∀ t, (terminals b t).length ≤ 1

/-- The task of this id has yet to be created. -/
def Fresh (b : Broker) (t : TaskId) : Prop :=
  b.nextTaskId ≤ t ∨ ∃ a, b.acceptOffers t = some a ∧ a.stage = .offering

/-- No suspended handler has told the requester the end of the task. -/
def Untold (b : Broker) (t : TaskId) : Prop := ∀ f ∈ b.finishing, f.taskId = t → f.told = false

/-- Ending the task now would be the first its requester hears of it. -/
def FirstEnd (b : Broker) (t : TaskId) : Prop :=
  ∀ task, b.tasks.get? t = some task → task.requesterId ∈ b.requesters → Untold b t

structure Accounted (b : Broker) : Prop where
  once : EndsOnce b
  suspended : ∀ t, terminals b t ≠ [] → b.tasks.get? t ≠ none → ¬ Untold b t
  told : ∀ f ∈ b.finishing, f.told = true → terminals b f.taskId ≠ []
  fresh : ∀ t, Fresh b t → terminals b t = [] ∧ b.tasks.get? t = none
  issued : ∀ t, b.acceptOffers t ≠ none → t < b.nextTaskId

theorem start_accounted : Accounted .start :=
  { once := fun _ => Nat.zero_le 1
    suspended := fun _ h => absurd rfl h
    told := fun _ h => by cases h
    fresh := fun _ _ => ⟨rfl, rfl⟩
    issued := fun _ h => absurd rfl h }

variable {b : Broker} {t : TaskId}

theorem Accounted.none_told (h : Accounted b)
    {task : Task} (htask : b.tasks.get? t = some task) (huntold : Untold b t) :
    terminals b t = [] := by
  by_contra hne
  refine h.suspended t hne ?_ huntold
  rw [htask]
  exact Option.some_ne_none _

/-! ## Steps that end nothing -/

/-- No terminal message, no new task, the same suspended handlers, and no
    task id becomes fresh again. -/
structure Quiet (b b' : Broker) : Prop where
  terminals : ∀ t, terminals b' t = terminals b t
  tasks : ∀ t, b.tasks.get? t = none → b'.tasks.get? t = none
  finishing : b'.finishing = b.finishing
  fresh : ∀ t, Fresh b' t → Fresh b t
  issued : ∀ t, b'.acceptOffers t ≠ none → b.acceptOffers t ≠ none ∨ t < b'.nextTaskId
  next : b.nextTaskId ≤ b'.nextTaskId

theorem Accounted.quiet {b' : Broker} (h : Accounted b) (hquiet : Quiet b b') : Accounted b' := by
  have huntold : ∀ t, Untold b' t ↔ Untold b t := by
    intro t
    rw [Untold, hquiet.finishing]
    rfl
  refine ⟨fun t => ?_, fun t hne htask => ?_, fun f hf hft => ?_, fun t ht => ?_, fun t ht => ?_⟩
  · rw [hquiet.terminals]
    exact h.once t
  · rw [hquiet.terminals] at hne
    rw [huntold]
    exact h.suspended t hne (mt (hquiet.tasks t) htask)
  · rw [hquiet.terminals]
    rw [hquiet.finishing] at hf
    exact h.told f hf hft
  · obtain ⟨hnone, htask⟩ := h.fresh t (hquiet.fresh t ht)
    rw [hquiet.terminals]
    exact ⟨hnone, hquiet.tasks t htask⟩
  · rcases hquiet.issued t ht with hold | hlt
    · exact Nat.lt_of_lt_of_le (h.issued t hold) hquiet.next
    · exact hlt

namespace Quiet

theorem refl (b : Broker) : Quiet b b :=
  ⟨fun _ => rfl, fun _ h => h, rfl, fun _ h => h, fun _ h => Or.inl h, Nat.le_refl _⟩

variable {b : Broker}

theorem trans {c d : Broker} (h₁ : Quiet b c) (h₂ : Quiet c d) : Quiet b d := by
  refine ⟨fun t => (h₂.terminals t).trans (h₁.terminals t),
    fun t ht => h₂.tasks t (h₁.tasks t ht), h₂.finishing.trans h₁.finishing,
    fun t ht => h₁.fresh t (h₂.fresh t ht), fun t ht => ?_, Nat.le_trans h₁.next h₂.next⟩
  rcases h₂.issued t ht with hc | hlt
  · rcases h₁.issued t hc with hb | hlt
    · exact Or.inl hb
    · exact Or.inr (Nat.lt_of_lt_of_le hlt h₂.next)
  · exact Or.inr hlt

theorem of_log {b' : Broker} (sent : List Sent) (hlog : b'.log = b.log ++ sent)
    (hsent : ∀ t, sent.filter (isTerminal t) = [])
    (htasks : ∀ t, b.tasks.get? t = none → b'.tasks.get? t = none)
    (hfinishing : b'.finishing = b.finishing) (hoffers : b'.acceptOffers = b.acceptOffers)
    (hnext : b'.nextTaskId = b.nextTaskId) : Quiet b b' := by
  refine ⟨fun t => ?_, htasks, hfinishing, fun t ht => ?_, fun t ht => ?_, Nat.le_of_eq hnext.symm⟩
  · rw [N8nTaskOutcome.terminals, N8nTaskOutcome.terminals, hlog, filter_append, hsent, append_nil]
  · rwa [Fresh, hnext, hoffers] at ht
  · rw [hoffers] at ht
    exact Or.inl ht

theorem of_eq {b' : Broker} (hlog : b'.log = b.log) (htasks : b'.tasks = b.tasks)
    (hfinishing : b'.finishing = b.finishing) (hoffers : b'.acceptOffers = b.acceptOffers)
    (hnext : b'.nextTaskId = b.nextTaskId) : Quiet b b' :=
  of_log [] (by rw [hlog, append_nil]) (fun _ => rfl)
    (fun _ h => by rwa [htasks]) hfinishing hoffers hnext

section

variable (b : Broker)

theorem messageRunner (runnerId : RunnerId) (m : ToRunner) :
    Quiet b (b.messageRunner runnerId m) := by
  unfold Broker.messageRunner
  split
  · exact of_log _ rfl (fun _ => rfl) (fun _ h => h) rfl rfl rfl
  · exact refl b

theorem messageRequester (q : RequesterId) {m : ToRequester}
    (hm : ∀ t, isTerminal t (.toRequester q m) = false) :
    Quiet b (b.messageRequester q m) := by
  unfold Broker.messageRequester
  split
  · refine of_log _ rfl (fun t => ?_) (fun _ h => h) rfl rfl rfl
    rw [filter_cons_of_neg (by simp [hm t]), filter_nil]
  · exact refl b

theorem updateAccept (taskId : TaskId) {f : AcceptOffer → AcceptOffer}
    (hf : ∀ a, (f a).stage = .offering → a.stage = .offering) :
    Quiet b (b.updateAccept taskId f) := by
  refine ⟨fun _ => rfl, fun _ h => h, rfl, fun t ht => ?_, fun t ht => ?_, Nat.le_refl _⟩
  · rcases ht with hle | ⟨a', ha', hstage⟩
    · exact Or.inl hle
    · right
      change Function.update b.acceptOffers taskId _ t = some a' at ha'
      by_cases htid : t = taskId
      · subst htid
        rw [Function.update_self] at ha'
        obtain ⟨a, ha, rfl⟩ := Option.map_eq_some_iff.mp ha'
        exact ⟨a, ha, hf a hstage⟩
      · rw [Function.update_of_ne htid] at ha'
        exact ⟨a', ha', hstage⟩
  · left
    change Function.update b.acceptOffers taskId _ t ≠ none at ht
    by_cases htid : t = taskId
    · subst htid
      rw [Function.update_self] at ht
      exact fun hnone => ht (Option.map_eq_none_iff.mpr hnone)
    · rwa [Function.update_of_ne htid] at ht

theorem setStage (taskId : TaskId) {stage : Stage}
    (hstage : stage ≠ .offering) : Quiet b (b.setStage taskId stage) :=
  updateAccept b taskId fun _ h => absurd h hstage

theorem deleteTask (t : TaskId) : Quiet b { b with tasks := b.tasks.delete t } := by
  refine of_log [] (append_nil _).symm (fun _ => rfl) (fun x hx => ?_) rfl rfl rfl
  show (b.tasks.delete t).get? x = none
  rw [get?_delete]
  split
  · rfl
  · exact hx

end

theorem setTask {t : TaskId} {old : Task} (hold : b.tasks.get? t = some old) (new : Task) :
    Quiet b { b with tasks := b.tasks.set t new } := by
  refine of_log [] (append_nil _).symm (fun _ => rfl) (fun x hx => ?_) rfl rfl rfl
  show (b.tasks.set t new).get? x = none
  rw [get?_set, if_neg]
  · exact hx
  · rintro rfl
    rw [hold] at hx
    cases hx

/-! ### The operations -/

theorem acceptOffer (b : Broker) (offer : TaskOffer) (requestId : RequestId)
    (requesterId : RequesterId) :
    Quiet b (b.acceptOffer offer requestId requesterId) := by
  refine trans ?_ (messageRunner _ _ _)
  refine ⟨fun _ => rfl, fun _ h => h, rfl, fun t ht => ?_, fun t ht => ?_, Nat.le_succ _⟩
  · rcases ht with hle | ⟨a, ha, hstage⟩
    · exact Or.inl (Nat.le_of_succ_le hle)
    · change Function.update b.acceptOffers b.nextTaskId _ t = some a at ha
      by_cases htid : t = b.nextTaskId
      · exact Or.inl (Nat.le_of_eq htid.symm)
      · rw [Function.update_of_ne htid] at ha
        exact Or.inr ⟨a, ha, hstage⟩
  · change Function.update b.acceptOffers b.nextTaskId _ t ≠ none at ht
    by_cases htid : t = b.nextTaskId
    · right
      subst htid
      exact Nat.lt_succ_self _
    · rw [Function.update_of_ne htid] at ht
      exact Or.inl ht

theorem settleRequest (b : Broker) (requestId : RequestId) :
    Quiet b (b.settleRequest requestId) := by
  unfold Broker.settleRequest
  split
  · exact refl b
  · split
    · exact refl b
    · split
      · exact refl b
      · refine trans ?_ (acceptOffer _ _ _ _)
        exact of_eq rfl rfl rfl rfl rfl

theorem settleTasks (b : Broker) (now : Nat) : Quiet b (b.settleTasks now) := by
  have hexpired : Quiet b (b.expireTasks now) := of_eq rfl rfl rfl rfl rfl
  exact List.foldlRecOn (motive := fun c => Quiet b c) _ _ hexpired
    fun c hc r _ => trans hc (settleRequest c r)

section

variable (b : Broker) (t : TaskId)

theorem cancelTask (reason : String) : Quiet b (b.cancelTask t reason) := by
  unfold Broker.cancelTask
  split
  · exact refl b
  · exact trans (deleteTask b t) (messageRunner _ _ _)

theorem answerRunnerPromise {f : AcceptOffer → AcceptOffer} (hf : ∀ a, (f a).stage = a.stage) :
    Quiet b (b.answerRunnerPromise t f) := by
  unfold Broker.answerRunnerPromise
  split
  · refine trans ?_ (updateAccept _ t fun a h => (hf a) ▸ h)
    exact of_eq rfl rfl rfl rfl rfl
  · exact refl b

theorem answerRequesterPromise (reply : RequesterReply) :
    Quiet b (b.answerRequesterPromise t reply) := by
  unfold Broker.answerRequesterPromise
  split
  · refine trans ?_ (updateAccept _ t fun _ h => h)
    exact of_eq rfl rfl rfl rfl rfl
  · exact refl b

theorem offerFailed (a : AcceptOffer) : Quiet b (b.offerFailed t a) := by
  refine trans ?_ (setStage _ t (by decide))
  exact of_eq rfl rfl rfl rfl rfl

theorem offerDeferred (a : AcceptOffer) : Quiet b (b.offerDeferred t a) := by
  refine trans ?_ (setStage _ t (by decide))
  exact of_eq rfl rfl rfl rfl rfl

theorem cancelAccepted (reason : String) : Quiet b (b.cancelAccepted t reason) :=
  trans (cancelTask b t reason) (setStage _ t (by decide))

theorem sendTaskSettings (a : AcceptOffer)
    (settings : String) : Quiet b (b.sendTaskSettings t a settings) := by
  unfold Broker.sendTaskSettings
  split
  · exact setStage b t (by decide)
  · next task htask =>
    exact trans (trans (setTask htask _) (setStage _ t (by decide))) (messageRunner _ _ _)

end

theorem handleQuestion (b : Broker) (kind : QuestionKind) (t : TaskId)
    (id : String) : Quiet b (b.handleQuestion kind t id) := by
  unfold Broker.handleQuestion
  split
  · exact refl b
  · exact messageRequester b _ fun _ => rfl

theorem handleRequestTimeout (b : Broker) (r : RequestId) : Quiet b (b.handleRequestTimeout r) := by
  unfold Broker.handleRequestTimeout
  split
  · exact refl b
  · show Quiet b (if r ∈ b.pendingTaskRequests then _ else _)
    split
    · refine trans ?_ (messageRequester _ _ fun _ => rfl)
      exact of_eq rfl rfl rfl rfl rfl
    · exact of_eq rfl rfl rfl rfl rfl

end Quiet

/-! ## Steps that end a task -/

theorem terminals_messageRequester (b : Broker) {q : RequesterId} {m : ToRequester}
    (hm : ∀ x, isTerminal x (.toRequester q m) = (t == x)) (x : TaskId) :
    terminals (b.messageRequester q m) x
      = if q ∈ b.requesters ∧ t = x then
          terminals b x ++ [.toRequester q m]
        else terminals b x := by
  unfold Broker.messageRequester
  by_cases hq : q ∈ b.requesters
  · rw [if_pos hq, terminals, filter_append]
    by_cases hx : t = x
    · rw [if_pos ⟨hq, hx⟩, filter_cons_of_pos (by rw [hm]; simpa using hx)]
      rfl
    · rw [if_neg (fun h => hx h.2), filter_cons_of_neg (by rw [hm]; simpa using hx),
        filter_nil, append_nil]
      rfl
  · rw [if_neg hq, if_neg (fun h => hq h.1)]

theorem tells_twice {b' : Broker} (htold : terminals b t ≠ [])
    (hmore : (terminals b t).length < (terminals b' t).length) :
    ¬ EndsOnce b' := by
  intro honce
  have hpos := length_pos_of_ne_nil htold
  have hle := honce t
  omega

theorem Accounted.told_of_not_firstEnd (h : Accounted b) (hnot : ¬ FirstEnd b t) :
    ∃ task, b.tasks.get? t = some task ∧ task.requesterId ∈ b.requesters ∧ terminals b t ≠ [] := by
  simp only [FirstEnd, Untold, Classical.not_forall] at hnot
  obtain ⟨task, htask, hmem, f, hf, hft, htold⟩ := hnot
  refine ⟨task, htask, hmem, ?_⟩
  rw [← hft]
  exact h.told f hf (Bool.not_eq_false _ |>.mp htold)

/-- The step told the requester of a task its end, and nobody else. -/
def TellsEnd (b b' : Broker) (t : TaskId) (task : Task) (m : ToRequester) : Prop :=
  ∀ x, terminals b' x
    = if task.requesterId ∈ b.requesters ∧ t = x then
        terminals b x ++ [.toRequester task.requesterId m]
      else terminals b x

section

variable {b b' : Broker} {t x : TaskId} {task : Task} {m : ToRequester}

section

variable (htells : TellsEnd b b' t task m)
include htells

theorem TellsEnd.other (hne : x ≠ t) : terminals b' x = terminals b x := by
  rw [htells, if_neg fun hsent => hne hsent.2.symm]

theorem TellsEnd.told (htold : terminals b x ≠ []) : terminals b' x ≠ [] := by
  rw [htells]
  split
  · exact append_ne_nil_of_right_ne_nil _ (cons_ne_nil _ _)
  · exact htold

theorem TellsEnd.length_le (x : TaskId) : (terminals b x).length ≤ (terminals b' x).length := by
  rw [htells]
  split
  · rw [length_append]
    exact Nat.le_add_right _ _
  · exact Nat.le_refl _

theorem TellsEnd.length_lt (hmem : task.requesterId ∈ b.requesters) :
    (terminals b t).length < (terminals b' t).length := by
  rw [htells, if_pos ⟨hmem, rfl⟩, length_append]
  exact Nat.lt_succ_self _

end

theorem Accounted.once_of_tells (h : Accounted b) (htask : b.tasks.get? t = some task)
    (hfirst : FirstEnd b t) (htells : TellsEnd b b' t task m) : EndsOnce b' := by
  intro x
  rw [htells]
  split
  · next hsent =>
    obtain ⟨hmem, rfl⟩ := hsent
    rw [h.none_told htask (hfirst task htask hmem)]
    exact Nat.le_refl 1
  · exact h.once x

theorem Accounted.breaks_of_tells (h : Accounted b) (hnot : ¬ FirstEnd b t)
    (htells : ∀ task, b.tasks.get? t = some task → TellsEnd b b' t task m) :
    ¬ EndsOnce b' := by
  obtain ⟨task, htask, hmem, htold⟩ := h.told_of_not_firstEnd hnot
  exact tells_twice htold ((htells task htask).length_lt hmem)

theorem Accounted.ne_of_fresh (h : Accounted b)
    (htask : b.tasks.get? t = some task) (hx : Fresh b x) : x ≠ t := by
  rintro rfl
  rw [(h.fresh x hx).2] at htask
  cases htask

end

section

variable {b : Broker} {t : TaskId} {m : ToRequester}
  (hm : ∀ q x, isTerminal x (.toRequester q m) = (t == x))

include hm

theorem tellsEnd_finishTask {task : Task} (htask : b.tasks.get? t = some task) :
    TellsEnd b (b.finishTask t m) t task m := by
  intro x
  simp only [Broker.finishTask, htask]
  exact terminals_messageRequester _ (hm _) x

theorem Accounted.finishTask (h : Accounted b) (hfirst : FirstEnd b t) :
    Accounted (b.finishTask t m) := by
  rcases htask : b.tasks.get? t with _ | task
  · have hsame : b.finishTask t m = b := by
      simp [Broker.finishTask, htask]
    rwa [hsame]
  have htells := tellsEnd_finishTask hm htask
  have hfields : (b.finishTask t m).finishing = b.finishing
        ++ [⟨t, decide (task.requesterId ∈ b.requesters)⟩]
      ∧ (b.finishTask t m).tasks = b.tasks.set t { task with timeout := false }
      ∧ (b.finishTask t m).acceptOffers = b.acceptOffers
      ∧ (b.finishTask t m).nextTaskId = b.nextTaskId := by
    simp only [Broker.finishTask, htask, Broker.messageRequester]
    split <;> exact ⟨rfl, rfl, rfl, rfl⟩
  obtain ⟨hfinishing, htasks, hoffers, hnext⟩ := hfields
  have hother : ∀ x, x ≠ t → (b.finishTask t m).tasks.get? x = b.tasks.get? x := by
    intro x hx
    rw [htasks, get?_set, if_neg (Ne.symm hx)]
  refine ⟨h.once_of_tells htask hfirst htells, fun x hne hin huntold => ?_,
    fun f hf hft => ?_, fun x hx => ?_, fun x hx => ?_⟩
  · have hold : Untold b x := fun f hf hfx => huntold f (by
      rw [hfinishing]
      exact mem_append_left _ hf) hfx
    by_cases hxt : x = t
    · subst hxt
      by_cases hmem : task.requesterId ∈ b.requesters
      · have hnew := huntold ⟨x, _⟩ (by
          rw [hfinishing]
          exact mem_append_right _ (mem_singleton_self _)) rfl
        exact absurd hmem (of_decide_eq_false hnew)
      · rw [htells, if_neg (fun hsent => hmem hsent.1)] at hne
        exact hne (h.none_told htask hold)
    · rw [htells.other hxt] at hne
      rw [hother x hxt] at hin
      exact h.suspended x hne hin hold
  · rw [hfinishing] at hf
    rcases mem_append.mp hf with hold | hnew
    · exact htells.told (h.told f hold hft)
    · rw [mem_singleton.mp hnew] at hft ⊢
      rw [htells, if_pos ⟨of_decide_eq_true hft, rfl⟩]
      exact append_ne_nil_of_right_ne_nil _ (cons_ne_nil _ _)
  · rw [Fresh, hnext, hoffers] at hx
    have hxt := h.ne_of_fresh htask hx
    rw [htells.other hxt, hother x hxt]
    exact h.fresh x hx
  · rw [hoffers] at hx
    rw [hnext]
    exact h.issued x hx

theorem finishTask_breaks (h : Accounted b) (hnot : ¬ FirstEnd b t) :
    ¬ EndsOnce (b.finishTask t m) :=
  h.breaks_of_tells hnot fun _ htask => tellsEnd_finishTask hm htask

end

section

variable {b : Broker} {t : TaskId} (error : String)

theorem tellsEnd_failTask {task : Task} (htask : b.tasks.get? t = some task) :
    TellsEnd b (b.failTask t error) t task (.taskError t error) := by
  intro x
  simp only [Broker.failTask, htask]
  exact terminals_messageRequester _ (fun _ => rfl) x

theorem failTask_of_none (h : b.tasks.get? t = none) : b.failTask t error = b := by
  simp [Broker.failTask, h]

theorem failTask_fields (b : Broker) (t : TaskId) (error : String) :
    (b.failTask t error).finishing = b.finishing
      ∧ (b.failTask t error).requesters = b.requesters
      ∧ (b.failTask t error).acceptOffers = b.acceptOffers
      ∧ (b.failTask t error).nextTaskId = b.nextTaskId
      ∧ ∀ x, (b.failTask t error).tasks.get? x = if x = t then none else b.tasks.get? x := by
  rcases htask : b.tasks.get? t with _ | task
  · rw [failTask_of_none _ htask]
    refine ⟨rfl, rfl, rfl, rfl, fun x => ?_⟩
    split
    · next heq => rw [heq, htask]
    · rfl
  · simp only [Broker.failTask, htask, Broker.messageRequester]
    split <;> exact ⟨rfl, rfl, rfl, rfl, get?_delete b.tasks t⟩

theorem Accounted.failTask (h : Accounted b) (hfirst : FirstEnd b t) :
    Accounted (b.failTask t error) := by
  rcases htask : b.tasks.get? t with _ | task
  · rwa [failTask_of_none _ htask]
  have htells := tellsEnd_failTask error htask
  obtain ⟨hfinishing, -, hoffers, hnext, htasks⟩ := failTask_fields b t error
  refine ⟨h.once_of_tells htask hfirst htells, fun x hne hin huntold => ?_,
    fun f hf hft => ?_, fun x hx => ?_, fun x hx => ?_⟩
  · rw [htasks] at hin
    by_cases hxt : x = t
    · exact hin (if_pos hxt)
    · rw [if_neg hxt] at hin
      rw [htells.other hxt] at hne
      rw [Untold, hfinishing] at huntold
      exact h.suspended x hne hin huntold
  · rw [hfinishing] at hf
    exact htells.told (h.told f hf hft)
  · rw [Fresh, hnext, hoffers] at hx
    have hxt := h.ne_of_fresh htask hx
    rw [htells.other hxt, htasks, if_neg hxt]
    exact h.fresh x hx
  · rw [hoffers] at hx
    rw [hnext]
    exact h.issued x hx

theorem failTask_breaks (h : Accounted b) (hnot : ¬ FirstEnd b t) :
    ¬ EndsOnce (b.failTask t error) :=
  h.breaks_of_tells hnot fun _ htask => tellsEnd_failTask error htask

end

theorem Accounted.resumeHandler (h : Accounted b)
    (f : Finishing) : Accounted (b.resumeHandler f) := by
  have htasks : ∀ x, (b.resumeHandler f).tasks.get? x
      = if x = f.taskId then none else b.tasks.get? x :=
    get?_delete b.tasks f.taskId
  refine ⟨h.once, fun x hne hin huntold => ?_,
    fun g hg hgt => h.told g (mem_of_mem_erase hg) hgt, fun x hx => ?_, h.issued⟩
  · rw [htasks] at hin
    by_cases hxf : x = f.taskId
    · exact hin (if_pos hxf)
    · rw [if_neg hxf] at hin
      refine h.suspended x hne hin ?_
      intro g hg hgx
      refine huntold g ((mem_erase_of_ne ?_).mpr hg) hgx
      rintro rfl
      exact hxf hgx.symm
  · obtain ⟨hnone, hin⟩ := h.fresh x hx
    refine ⟨hnone, ?_⟩
    rw [htasks]
    split
    · rfl
    · exact hin

/-- The runner's acceptance creates the task, which nobody has heard of. -/
theorem Accounted.offerAccepted (h : Accounted b) {a : AcceptOffer} (ha : b.acceptOffers t = some a)
    (hstage : a.stage = .offering) : Accounted (b.offerAccepted t a) := by
  obtain ⟨hnone, -⟩ := h.fresh t (Or.inr ⟨a, ha, hstage⟩)
  have hissued := h.issued t (by rw [ha]; exact Option.some_ne_none _)
  -- creating the task and leaving the first `await` come together
  have hcreated : ∀ (task : Task) (stage : Stage), stage ≠ .offering →
      Accounted ({ b with tasks := b.tasks.set t task }.setStage t stage) := by
    intro task stage hleft
    have hquiet := Quiet.setStage { b with tasks := b.tasks.set t task } t hleft
    refine ⟨h.once, fun x hne hin huntold => ?_, h.told, fun x hx => ?_, fun x hx => ?_⟩
    · by_cases hxt : x = t
      · subst hxt
        exact hne hnone
      · refine h.suspended x hne ?_ huntold
        change (b.tasks.set t task).get? x ≠ none at hin
        rwa [get?_set, if_neg (Ne.symm hxt)] at hin
    · have hxt : x ≠ t := by
        rintro rfl
        rcases hx with hle | ⟨a', ha', hstage'⟩
        · exact absurd hissued (Nat.not_lt.mpr hle)
        · change Function.update b.acceptOffers x _ x = some a' at ha'
          rw [Function.update_self, ha] at ha'
          cases ha'
          exact hleft hstage'
      obtain ⟨hxnone, hxin⟩ := h.fresh x (hquiet.fresh x hx)
      refine ⟨hxnone, ?_⟩
      show (b.tasks.set t task).get? x = none
      rw [get?_set, if_neg (Ne.symm hxt)]
      exact hxin
    · rcases hquiet.issued x hx with hold | hlt
      · exact h.issued x hold
      · exact hlt
  let task : Task :=
    { runnerId := a.offer.runnerId, requesterId := a.requesterId
      timeout := false }
  show Accounted (if a.requestId ∈ b.pendingTaskRequests then _ else _)
  split
  · refine ((hcreated task .ready (by decide)).quiet ?_).quiet
      (Quiet.messageRequester _ _ fun _ => rfl)
    exact Quiet.of_eq rfl rfl rfl rfl rfl
  · refine (hcreated task .returned (by decide)).quiet ?_
    exact Quiet.of_eq rfl rfl rfl rfl rfl

/-! ## Failing through a lost runner -/

/-- A task whose runner is unknown is told its end for the first time. -/
def FailsFirst (b : Broker) (t : TaskId) : Prop :=
  ∀ task, b.tasks.get? t = some task → task.runnerId ∉ b.knownRunners → FirstEnd b t

theorem getRunnerOrFailTask_cases (b : Broker) (t : TaskId) : (b.getRunnerOrFailTask t).1 = b
      ∨ ∃ task, b.tasks.get? t = some task
          ∧ task.runnerId ∉ b.knownRunners
          ∧ ∃ error, b.getRunnerOrFailTask t = (b.failTask t error, none) := by
  unfold Broker.getRunnerOrFailTask
  split
  · exact Or.inl rfl
  · next task htask =>
    by_cases hknown : task.runnerId ∈ b.knownRunners
    · rw [if_pos hknown]
      exact Or.inl rfl
    · rw [if_neg hknown]
      exact Or.inr ⟨task, htask, hknown, _, rfl⟩

section

variable {b : Broker} {t : TaskId}

theorem Accounted.getRunnerOrFailTask (h : Accounted b)
    (hfirst : FailsFirst b t) : Accounted (b.getRunnerOrFailTask t).1 := by
  rcases getRunnerOrFailTask_cases b t with
    hsame | ⟨task, htask, hunknown, error, heq⟩
  · rwa [hsame]
  · rw [heq]
    exact h.failTask error (hfirst task htask hunknown)

theorem getRunnerOrFailTask_breaks (h : Accounted b) (hnot : ¬ FailsFirst b t) : ∃ error,
      b.getRunnerOrFailTask t = (b.failTask t error, none) ∧ ¬ EndsOnce (b.failTask t error) := by
  simp only [FailsFirst, Classical.not_forall] at hnot
  obtain ⟨task, htask, hunknown, hnot⟩ := hnot
  have heq : b.getRunnerOrFailTask t = (b.failTask t
      ("Cannot find runner, failed to find runner (" ++ task.runnerId ++ ")"), none) := by
    simp [Broker.getRunnerOrFailTask, htask, if_neg hunknown]
  exact ⟨_, heq, failTask_breaks _ h hnot⟩

theorem Accounted.handleRequesterResponse (h : Accounted b)
    (hfirst : FailsFirst b t) (kind : QuestionKind) (id data : String) :
    Accounted (b.handleRequesterResponse kind t id data) := by
  have hget := h.getRunnerOrFailTask hfirst
  unfold Broker.handleRequesterResponse
  split
  · next heq =>
    rw [heq] at hget
    exact hget
  · next heq =>
    rw [heq] at hget
    exact hget.quiet (Quiet.of_eq rfl rfl rfl rfl rfl)

theorem Accounted.prepareSettings (h : Accounted b) (hfirst : FailsFirst b t) (settings : String) :
    Accounted (b.prepareSettings t settings) := by
  have hget := h.getRunnerOrFailTask hfirst
  unfold Broker.prepareSettings
  split
  · next heq =>
    rw [heq] at hget
    exact hget.quiet (Quiet.setStage _ t (by simp))
  · next heq =>
    rw [heq] at hget
    exact hget.quiet (Quiet.setStage _ t (by decide))

end

/-! ## A runner that disconnects -/

section

variable (runnerId : RunnerId) (error : String)

section

variable (b : Broker) (t : TaskId)

theorem dropTask_quiet : Quiet (b.failTask t error) (b.dropTask runnerId error t) :=
  Quiet.answerRunnerPromise _ t fun _ => rfl

theorem answerRunnerPromise_fields (f : AcceptOffer → AcceptOffer) :
    (b.answerRunnerPromise t f).tasks = b.tasks
      ∧ (b.answerRunnerPromise t f).requesters = b.requesters := by
  unfold Broker.answerRunnerPromise
  split <;> exact ⟨rfl, rfl⟩

theorem dropTask_fields : (∀ x, (b.dropTask runnerId error t).tasks.get? x
        = if x = t then none else b.tasks.get? x)
      ∧ (b.dropTask runnerId error t).requesters = b.requesters
      ∧ (b.dropTask runnerId error t).finishing = b.finishing := by
  obtain ⟨hfinishing, hrequesters, -, -, htasks⟩ := failTask_fields b t error
  obtain ⟨hsame, hcallbacks⟩ := answerRunnerPromise_fields
    (b.failTask t error) t fun a => a.settleRunner
      (.rejected ("The Task Runner (" ++ runnerId ++ ") has disconnected: " ++ error))
  refine ⟨fun x => ?_, hcallbacks.trans hrequesters,
    (dropTask_quiet runnerId error b t).finishing.trans hfinishing⟩
  rw [← htasks x]
  exact congrArg (fun m => m.get? x) hsame

end

variable {b : Broker}

theorem firstEnd_dropTask {x : TaskId} (h : FirstEnd b x)
    (t : TaskId) : FirstEnd (b.dropTask runnerId error t) x := by
  obtain ⟨htasks, hrequesters, hfinishing⟩ := dropTask_fields runnerId error b t
  intro task htask hmem
  rw [htasks] at htask
  rw [hrequesters] at hmem
  rw [Untold, hfinishing]
  split at htask
  · cases htask
  · exact h task htask hmem

theorem Accounted.dropTasks (l : List TaskId) (h : Accounted b) (hfirst : ∀ t ∈ l, FirstEnd b t) :
    Accounted (l.foldl (Broker.dropTask runnerId error) b) := by
  induction l generalizing b with
  | nil => exact h
  | cons t rest ih =>
    have hdrop : Accounted (b.dropTask runnerId error t) :=
      (h.failTask error (hfirst t (mem_cons_self ..))).quiet (dropTask_quiet runnerId error b t)
    exact ih hdrop fun x hx =>
      firstEnd_dropTask runnerId error (hfirst x (mem_cons_of_mem _ hx)) t

theorem terminals_dropTask_le (b : Broker) (t x : TaskId) :
    (terminals b x).length ≤ (terminals (b.dropTask runnerId error t) x).length := by
  rw [(dropTask_quiet runnerId error b t).terminals]
  rcases htask : b.tasks.get? t with _ | task
  · exact Nat.le_of_eq (by rw [failTask_of_none _ htask])
  · exact (tellsEnd_failTask error htask).length_le x

theorem terminals_dropTasks_le (l : List TaskId) (b : Broker) (x : TaskId) :
    (terminals b x).length ≤ (terminals (l.foldl (Broker.dropTask runnerId error) b) x).length := by
  induction l generalizing b with
  | nil => exact Nat.le_refl _
  | cons t rest ih => exact Nat.le_trans (terminals_dropTask_le runnerId error b t x) (ih _)

theorem terminals_dropTasks_lt {l : List TaskId} {x : TaskId}
    {task : Task} (hx : x ∈ l) (htask : b.tasks.get? x = some task)
    (hmem : task.requesterId ∈ b.requesters) :
    (terminals b x).length < (terminals (l.foldl (Broker.dropTask runnerId error) b) x).length := by
  induction l generalizing b with
  | nil => cases hx
  | cons t rest ih =>
    by_cases hxt : x = t
    · subst hxt
      refine Nat.lt_of_lt_of_le ?_ (terminals_dropTasks_le runnerId error rest _ x)
      rw [(dropTask_quiet runnerId error b x).terminals]
      exact (tellsEnd_failTask error htask).length_lt hmem
    · obtain ⟨htasks, hrequesters, -⟩ :=
        dropTask_fields runnerId error b t
      have hrest : x ∈ rest := (mem_cons.mp hx).resolve_left hxt
      refine Nat.lt_of_le_of_lt (terminals_dropTask_le runnerId error b t x) ?_
      refine ih hrest ?_ ?_
      · rw [htasks, if_neg hxt]
        exact htask
      · rw [hrequesters]
        exact hmem

theorem forgetRunner_quiet (b : Broker) : Quiet b (b.forgetRunner runnerId) := by
  refine ⟨fun _ => rfl, fun _ h => h, rfl, fun t ht => ?_, fun t ht => ?_, Nat.le_refl _⟩
  · rcases ht with hle | ⟨a', ha', hstage⟩
    · exact Or.inl hle
    · obtain ⟨a, ha, rfl⟩ := Option.map_eq_some_iff.mp ha'
      exact Or.inr ⟨a, ha, hstage⟩
  · left
    intro hnone
    exact ht (Option.map_eq_none_iff.mpr hnone)

theorem Accounted.deregisterRunner (h : Accounted b)
    (hfirst : ∀ t task, b.tasks.get? t = some task → task.runnerId = runnerId → FirstEnd b t) :
    Accounted (b.deregisterRunner runnerId error) := by
  refine Accounted.dropTasks runnerId error _ (h.quiet (forgetRunner_quiet runnerId b)) ?_
  intro t ht
  obtain ⟨task, htask, hrunner⟩ := Broker.mem_tasksOf.mp ht
  exact hfirst t task htask hrunner

theorem deregisterRunner_breaks (h : Accounted b)
    (hnot : ¬ ∀ t task, b.tasks.get? t = some task → task.runnerId = runnerId → FirstEnd b t) :
    ¬ EndsOnce (b.deregisterRunner runnerId error) := by
  simp only [Classical.not_forall] at hnot
  obtain ⟨t, task, htask, hrunner, hnot⟩ := hnot
  obtain ⟨same, hsame, hmem, htold⟩ := h.told_of_not_firstEnd hnot
  rw [htask] at hsame
  cases hsame
  exact tells_twice htold (terminals_dropTasks_lt runnerId error (b := b.forgetRunner runnerId)
    (Broker.mem_tasksOf.mpr ⟨task, htask, hrunner⟩) htask hmem)

end

/-! ## Runs -/

/-- An event that ends a task finds no suspended handler that has already
    told the requester so. -/
def EndsFirst (config : TaskRunnersConfig) (b : Broker) : Event → Prop
  | .deregisterRunner runnerId _ =>
    ∀ t task, b.tasks.get? t = some task → task.runnerId = runnerId → FirstEnd b t
  | .runnerMessage _ runnerId (.taskDone t _) => runnerId ∈ b.knownRunners → FirstEnd b t
  | .runnerMessage _ runnerId (.taskError t _) => runnerId ∈ b.knownRunners → FirstEnd b t
  | .requesterMessage _ _ (.response _ t _ _) => FailsFirst b t
  | .taskTimeout t => config.mode = .internal → FirstEnd b t
  | .resumeTaskTimeout t => FirstEnd b t
  | .resumeAcceptOffer t false =>
    ∀ a settings, b.acceptOffers t = some a → a.stage = .ready →
      a.requesterReply = some (.settings settings) → FailsFirst b t
  | _ => True

section

variable {config : TaskRunnersConfig} {b b' : Broker} {e : Event}

section

variable (h : Accounted b)
include h

theorem Accounted.handleTaskTimeout {t : TaskId} (hfirst : config.mode = .internal → FirstEnd b t) :
    Accounted (b.handleTaskTimeout config t) := by
  unfold Broker.handleTaskTimeout
  split
  · exact h
  · next task htask =>
    have hset := Quiet.setTask htask { task with timeout := false }
    cases hmode : config.mode with
    | internal =>
      have hlogged : Accounted { b with
          tasks := b.tasks.set t { task with timeout := false }
          log := b.log ++ [Sent.runnerTimedOutDuringTask] } :=
        (h.quiet hset).quiet (Quiet.of_log _ rfl (fun _ => rfl) (fun _ h => h) rfl rfl rfl)
      refine hlogged.finishTask (fun _ _ => rfl) ?_
      intro stored hstored hmem
      rw [get?_set, if_pos rfl] at hstored
      cases hstored
      exact hfirst hmode task htask hmem
    | external =>
      refine ((h.quiet hset).quiet ?_).quiet (Quiet.messageRunner _ _ _)
      exact Quiet.of_eq rfl rfl rfl rfl rfl

theorem handleTaskTimeout_breaks {t : TaskId}
    (hmode : config.mode = .internal) (hnot : ¬ FirstEnd b t) :
    ¬ EndsOnce (b.handleTaskTimeout config t) := by
  obtain ⟨task, htask, hmem, htold⟩ := h.told_of_not_firstEnd hnot
  refine tells_twice htold ?_
  simp only [Broker.handleTaskTimeout, htask, hmode]
  have hstored : (b.tasks.set t { task with timeout := false }).get? t
      = some { task with timeout := false } := by
    rw [get?_set, if_pos rfl]
  -- The requester is told after the timeout has been logged.
  refine Nat.lt_of_le_of_lt ?_ (@TellsEnd.length_lt _ _ t
    { task with timeout := false } _
    (tellsEnd_finishTask (fun _ _ => rfl) hstored) hmem)
  rw [terminals, terminals, filter_append, length_append]
  exact Nat.le_add_right _ _

theorem Accounted.resumeAcceptOffer {t : TaskId} {rejected : Bool}
    (hfirst : EndsFirst config b (.resumeAcceptOffer t rejected)) :
    Accounted (b.resumeAcceptOffer t rejected) := by
  unfold Broker.resumeAcceptOffer
  split
  · exact h
  · next a ha =>
    split
    · next hstage =>
      split
      · exact h.quiet (Quiet.offerFailed b t a)
      · split
        · exact h
        · exact h.offerAccepted ha hstage
        · exact h.quiet (Quiet.offerFailed b t a)
        · exact h.quiet (Quiet.offerDeferred b t a)
        · exact h.quiet (Quiet.offerFailed b t a)
    · next hstage =>
      split
      · exact h.quiet (Quiet.cancelAccepted b t _)
      · next hresolved =>
        split
        · exact h
        · next settings hreply =>
          cases rejected with
          | true => exact absurd rfl hresolved
          | false => exact h.prepareSettings (hfirst a settings ha hstage hreply) settings
        · exact h.quiet (Quiet.cancelAccepted b t _)
        · exact h.quiet (Quiet.cancelAccepted b t _)
    · exact h.quiet (Quiet.sendTaskSettings b t a _)
    · split
      · exact h.quiet (Quiet.cancelAccepted b t _)
      · exact h.quiet (Quiet.setStage b t (by decide))
    · exact h.quiet (Quiet.cancelAccepted b t _)
    · exact h.quiet (Quiet.setStage b t (by decide))
    · exact h

/-- One step keeps the account when it ends no task a second time. -/
theorem step_accounted (hst : Step config b e b')
    (hfirst : EndsFirst config b e) : Accounted b' := by
  obtain ⟨-, rfl⟩ := hst
  cases e with
  | registerRunner runnerId =>
    refine h.quiet (Quiet.trans ?_ (Quiet.messageRunner _ _ _))
    exact Quiet.of_eq rfl rfl rfl rfl rfl
  | deregisterRunner runnerId error => exact h.deregisterRunner runnerId error hfirst
  | registerRequester _ => exact h.quiet (Quiet.of_eq rfl rfl rfl rfl rfl)
  | deregisterRequester _ => exact h.quiet (Quiet.of_eq rfl rfl rfl rfl rfl)
  | runnerMessage now runnerId m =>
    show Accounted (b.onRunnerMessage now runnerId m)
    unfold Broker.onRunnerMessage
    split
    · next hknown =>
      cases m with
      | taskAccepted t => exact h.quiet (Quiet.answerRunnerPromise b t fun _ => rfl)
      | taskRejected t _ => exact h.quiet (Quiet.answerRunnerPromise b t fun _ => rfl)
      | taskDeferred t => exact h.quiet (Quiet.answerRunnerPromise b t fun _ => rfl)
      | taskOffer offerId taskType validFor =>
        refine h.quiet (Quiet.trans ?_ (Quiet.settleTasks _ now))
        exact Quiet.of_eq rfl rfl rfl rfl rfl
      | taskDone t data => exact h.finishTask (fun _ _ => rfl) (hfirst hknown)
      | taskError t _ => exact h.finishTask (fun _ _ => rfl) (hfirst hknown)
      | question kind t id => exact h.quiet (Quiet.handleQuestion b kind t id)
    · exact h
  | requesterMessage now q m =>
    cases m with
    | taskSettings t settings => exact h.quiet (Quiet.answerRequesterPromise b t _)
    | taskCancel t reason => exact h.quiet (Quiet.cancelTask b t reason)
    | taskRequest r taskType =>
      refine h.quiet (Quiet.trans ?_ (Quiet.settleTasks _ now))
      exact Quiet.of_eq rfl rfl rfl rfl rfl
    | response kind t id data => exact h.handleRequesterResponse hfirst kind id data
  | requesterReject t reason => exact h.quiet (Quiet.answerRequesterPromise b t _)
  | requestTimeout r => exact h.quiet (Quiet.handleRequestTimeout b r)
  | runnerAcceptTimeout t => exact h.quiet (Quiet.updateAccept b t fun _ hstage => hstage)
  | requesterAcceptTimeout t =>
    exact h.quiet (Quiet.updateAccept b t fun _ hstage => hstage)
  | taskTimeout t => exact h.handleTaskTimeout hfirst
  | resumeAcceptOffer t rejected => exact h.resumeAcceptOffer hfirst
  | resumeHandler f => exact h.resumeHandler f
  | resumeTaskTimeout t =>
    have hbefore : Accounted { b with
        timingOut := b.timingOut.erase t } :=
      h.quiet (Quiet.of_eq rfl rfl rfl rfl rfl)
    exact hbefore.finishTask (fun _ _ => rfl) hfirst
  | resumeResponse r =>
    refine h.quiet (Quiet.trans ?_ (Quiet.messageRunner _ _ _))
    exact Quiet.of_eq rfl rfl rfl rfl rfl

/-- Any other step tells a requester the end of a task again. -/
theorem step_tells_twice (hst : Step config b e b')
    (hnot : ¬ EndsFirst config b e) : ¬ EndsOnce b' := by
  obtain ⟨-, rfl⟩ := hst
  cases e with
  | deregisterRunner runnerId error => exact deregisterRunner_breaks runnerId error h hnot
  | runnerMessage now runnerId m =>
    cases m with
    | taskDone t data =>
      simp only [EndsFirst, Classical.not_imp] at hnot
      simp only [Broker.perform, Broker.onRunnerMessage, if_pos hnot.1]
      exact finishTask_breaks (fun _ _ => rfl) h hnot.2
    | taskError t error =>
      simp only [EndsFirst, Classical.not_imp] at hnot
      simp only [Broker.perform, Broker.onRunnerMessage, if_pos hnot.1]
      exact finishTask_breaks (fun _ _ => rfl) h hnot.2
    | _ => exact absurd trivial hnot
  | requesterMessage now q m =>
    cases m with
    | response kind t id data =>
      obtain ⟨error, heq, hbreaks⟩ := getRunnerOrFailTask_breaks h hnot
      simp only [Broker.perform, Broker.onRequesterMessage, Broker.handleRequesterResponse, heq]
      exact hbreaks
    | _ => exact absurd trivial hnot
  | taskTimeout t =>
    simp only [EndsFirst, Classical.not_imp] at hnot
    exact handleTaskTimeout_breaks h hnot.1 hnot.2
  | resumeTaskTimeout t =>
    have hbefore : Accounted { b with
        timingOut := b.timingOut.erase t } :=
      h.quiet (Quiet.of_eq rfl rfl rfl rfl rfl)
    exact finishTask_breaks (fun _ _ => rfl) hbefore hnot
  | resumeAcceptOffer t rejected =>
    cases rejected with
    | true => exact absurd trivial hnot
    | false =>
      simp only [EndsFirst, Classical.not_forall] at hnot
      obtain ⟨a, settings, ha, hstage, hreply, hnot⟩ := hnot
      obtain ⟨error, heq, hbreaks⟩ := getRunnerOrFailTask_breaks h hnot
      simp only [Broker.perform, Broker.resumeAcceptOffer, ha, hstage,
        hreply, Broker.prepareSettings, heq]
      intro honce
      exact hbreaks fun x => honce x
  | _ => exact absurd trivial hnot

end

/-- **ONE END FOR EACH TASK**: along a run no requester is told twice that
    its task has ended exactly when no terminal event finds a handler
    suspended that has already said so. -/
theorem endsOnce_iff_endsFirst (config : TaskRunnersConfig) {path : List (Event × Broker)}
    (hrun : IsRun (Step config) .start path) :
    EveryState EndsOnce .start path ↔ EveryStep (EndsFirst config) .start path :=
  everyState_iff_everyStep hrun start_accounted (fun _ h => h.once)
    (fun _ _ _ h hst hfirst => step_accounted h hst hfirst)
    (fun _ _ _ h hst hnot => step_tells_twice h hst hnot)

end

/-! ## Two runs -/

/-- The requester's callback is through before the runner disconnects. -/
theorem endsOnce_of_handled :
    EveryState EndsOnce .start
      (pathOf (Broker.perform internalRunners) .start
        (doneTask ++ [.resumeHandler ⟨0, true⟩, .deregisterRunner "runner" "closed"])) := by
  refine (endsOnce_iff_endsFirst internalRunners (doneTask_isRun _ ?_)).mpr ?_
  · refine ⟨⟨?_, rfl⟩, ⟨trivial, rfl⟩, trivial⟩
    exact mem_singleton_self _
  · refine ⟨trivial, trivial, trivial, trivial, trivial, ?_, trivial, ?_, ?_,
      ?_, ?_, trivial, ?_, trivial⟩
    iterate 4
      intro a settings _ _ _ task _ _ same _ _ f hf
      cases hf
    · intro _ task _ _ f hf
      cases hf
    · intro t task _ _ same _ _ f hf
      cases hf

/-- The runner disconnects while the requester's callback for the finished
    task is still running: the requester is told a second time. -/
theorem disconnect_tells_twice :
    ∃ path, path = pathOf (Broker.perform internalRunners) .start
        (doneTask ++ [.deregisterRunner "runner" "closed"])
      ∧ IsRun (Step internalRunners) .start path
      ∧ terminals (lastState .start path) 0
        = [.toRequester "requester" (.taskDone 0 "result"),
            .toRequester "requester" (.taskError 0 "closed")]
      ∧ ¬ EveryState EndsOnce .start path := by
  refine ⟨_, rfl, doneTask_isRun _ ?_, by decide, ?_⟩
  · exact ⟨⟨trivial, rfl⟩, trivial⟩
  intro hall
  exact absurd (hall.last 0) (by decide)

end N8nTaskOutcome
