import Mathlib.Data.List.Nodup
import N8n.TaskBrokerProofs

/-! # A runner that disconnects

    What a runner has to do with is spread over three collections: its
    pending offers, the callbacks of the offers it was asked about, and its
    tasks.  `deregisterRunner` goes through the first and the last, and looks
    for callbacks under the ids of the tasks only.

    A task enters the map after the runner's promise was settled
    (`Matched.accepted`), so there are no callbacks under the id of a task,
    and `deregisterRunner` rejects nothing.  Whatever the runner has not
    answered stays: `deregisterRunner_clears_iff`. -/

namespace N8nRunnerDisconnect

open N8nOrderedMap N8nRun N8nTaskBroker List

/-! ## What should be left of a runner -/

/-- The call can go on, and when it does its request is available for other
    runners: nobody accepts it, and it is still pending if it was. -/
structure Freed (b : Broker) (t : TaskId) (a : AcceptOffer) : Prop where
  settled : a.runnerReply ≠ none
  available : ∃ request, (b.resumeAcceptOffer t false).requests a.requestId = some request
      ∧ request.acceptInProgress = false
  pending : a.requestId ∈ b.pendingTaskRequests →
    a.requestId ∈ (b.resumeAcceptOffer t false).pendingTaskRequests

/-- Nothing that waits on the runner is left. -/
structure Cleared (runnerId : RunnerId) (b : Broker) : Prop where
  offers : ∀ offer ∈ b.pendingTaskOffers, offer.runnerId ≠ runnerId
  tasks : ∀ t task, b.tasks.get? t = some task → task.runnerId ≠ runnerId
  callbacks : ∀ t a, b.acceptOffers t = some a →
    a.offer.runnerId = runnerId → t ∉ b.runnerAcceptRejects
  requests : ∀ t a, b.acceptOffers t = some a →
    a.offer.runnerId = runnerId → a.stage = .offering → Freed b t a

/-- The condition: the runner has answered whatever it was asked, and no
    acceptance of it still waits for its call to go on. -/
def HasAnswered (runnerId : RunnerId) (b : Broker) : Prop :=
  ∀ t a, b.acceptOffers t = some a → a.offer.runnerId = runnerId → t ∉ b.runnerAcceptRejects
      ∧ (a.stage = .offering → a.runnerReply ≠ some .accepted)

/-! ## The invariant -/

/-- Callbacks belong to calls that were not accepted, tasks to calls that
    were, and a request is being accepted by one call at a time. -/
structure Matched (b : Broker) : Prop where
  nodup : b.runnerAcceptRejects.Nodup
  asked : ∀ t ∈ b.runnerAcceptRejects,
    ∃ a, b.acceptOffers t = some a ∧ a.runnerReply ≠ some .accepted
  waiting : ∀ t a, b.acceptOffers t = some a → a.stage = .offering →
    a.runnerReply = none → t ∈ b.runnerAcceptRejects
  fresh : ∀ t, b.acceptOffers t ≠ none → t < b.nextTaskId
  accepted : ∀ t, b.tasks.get? t ≠ none →
    ∃ a, b.acceptOffers t = some a ∧ a.runnerReply = some .accepted
  inProgress : ∀ t a, b.acceptOffers t = some a → a.stage = .offering →
    ∃ request, b.requests a.requestId = some request ∧ request.acceptInProgress = true
  single : ∀ t t' a a', b.acceptOffers t = some a → a.stage = .offering →
    b.acceptOffers t' = some a' → a'.stage = .offering → a.requestId = a'.requestId → t = t'

theorem Matched.start : Matched .start := by
  constructor
  · exact nodup_nil
  · intro t ht
    cases ht
  · intro t a ha
    cases ha
  · intro t hne
    exact absurd rfl hne
  · intro t hne
    exact absurd rfl hne
  · intro t a ha
    cases ha
  · intro t t' a a' ha
    cases ha

theorem Matched.no_callbacks {b : Broker} (h : Matched b) {t : TaskId}
    (ht : b.tasks.get? t ≠ none) : t ∉ b.runnerAcceptRejects := by
  intro hmem
  obtain ⟨a, ha, haccepted⟩ := h.accepted t ht
  obtain ⟨a', ha', hnot⟩ := h.asked t hmem
  rw [ha] at ha'
  cases ha'
  exact hnot haccepted

/-! ## Steps that leave the matching alone -/

/-- The call is the same to its runner; it may leave the first `await`. -/
structure Moves (a a' : AcceptOffer) : Prop where
  requestId : a'.requestId = a.requestId
  reply : a'.runnerReply = a.runnerReply
  stage : a'.stage = .offering → a.stage = .offering

theorem Moves.refl (a : AcceptOffer) : Moves a a := ⟨rfl, rfl, id⟩

/-- Calls, callbacks and requests in progress stay, and no task is added. -/
structure Keeps (b b' : Broker) : Prop where
  calls : ∀ t, Option.Rel Moves (b.acceptOffers t) (b'.acceptOffers t)
  callbacks : b'.runnerAcceptRejects = b.runnerAcceptRejects
  next : b'.nextTaskId = b.nextTaskId
  requests : ∀ id request, b.requests id = some request →
    request.acceptInProgress = true → ∃ request',
      b'.requests id = some request' ∧ request'.acceptInProgress = true
  tasks : ∀ t, b'.tasks.get? t ≠ none → b.tasks.get? t ≠ none

namespace Keeps

variable {b b' b'' : Broker}

theorem back (h : Keeps b b') {t : TaskId} {a' : AcceptOffer} (ha' : b'.acceptOffers t = some a') :
    ∃ a, b.acceptOffers t = some a ∧ Moves a a' := by
  have hrel := h.calls t
  rw [ha'] at hrel
  rcases ha : b.acceptOffers t with _ | a
  · rw [ha] at hrel
    cases hrel
  · rw [ha] at hrel
    cases hrel with
    | some hmoves => exact ⟨a, rfl, hmoves⟩

theorem forth (h : Keeps b b') {t : TaskId} {a : AcceptOffer} (ha : b.acceptOffers t = some a) :
    ∃ a', b'.acceptOffers t = some a' ∧ Moves a a' := by
  have hrel := h.calls t
  rw [ha] at hrel
  rcases ha' : b'.acceptOffers t with _ | a'
  · rw [ha'] at hrel
    cases hrel
  · rw [ha'] at hrel
    cases hrel with
    | some hmoves => exact ⟨a', rfl, hmoves⟩

theorem matched (h : Keeps b b') (hb : Matched b) : Matched b' := by
  constructor
  · rw [h.callbacks]
    exact hb.nodup
  · intro t ht
    rw [h.callbacks] at ht
    obtain ⟨a, ha, hnot⟩ := hb.asked t ht
    obtain ⟨a', ha', hmoves⟩ := h.forth ha
    exact ⟨a', ha', hmoves.reply ▸ hnot⟩
  · intro t a' ha' hstage hnone
    obtain ⟨a, ha, hmoves⟩ := h.back ha'
    rw [h.callbacks]
    exact hb.waiting t a ha (hmoves.stage hstage) (hmoves.reply ▸ hnone)
  · intro t hne
    obtain ⟨a', ha'⟩ := Option.ne_none_iff_exists'.mp hne
    obtain ⟨a, ha, -⟩ := h.back ha'
    rw [h.next]
    exact hb.fresh t (by rw [ha]; exact Option.some_ne_none a)
  · intro t hne
    obtain ⟨a, ha, haccepted⟩ := hb.accepted t (h.tasks t hne)
    obtain ⟨a', ha', hmoves⟩ := h.forth ha
    exact ⟨a', ha', hmoves.reply.trans haccepted⟩
  · intro t a' ha' hstage
    obtain ⟨a, ha, hmoves⟩ := h.back ha'
    obtain ⟨request, hrequest, hprogress⟩ := hb.inProgress t a ha (hmoves.stage hstage)
    rw [hmoves.requestId]
    exact h.requests _ request hrequest hprogress
  · intro t t' a₁' a₂' h₁ hstage₁ h₂ hstage₂ hsame
    obtain ⟨a₁, ha₁, hmoves₁⟩ := h.back h₁
    obtain ⟨a₂, ha₂, hmoves₂⟩ := h.back h₂
    refine hb.single t t' a₁ a₂ ha₁ (hmoves₁.stage hstage₁) ha₂ (hmoves₂.stage hstage₂) ?_
    rw [← hmoves₁.requestId, hsame, hmoves₂.requestId]

theorem of_eq (hcalls : b'.acceptOffers = b.acceptOffers)
    (hcallbacks : b'.runnerAcceptRejects = b.runnerAcceptRejects)
    (hnext : b'.nextTaskId = b.nextTaskId) (hrequests : b'.requests = b.requests)
    (htasks : ∀ t, b'.tasks.get? t ≠ none → b.tasks.get? t ≠ none) :
    Keeps b b' := by
  refine ⟨fun t => ?_, hcallbacks, hnext, ?_, htasks⟩
  · rw [hcalls]
    rcases b.acceptOffers t with _ | a
    · exact .none
    · exact .some (Moves.refl a)
  · intro id request hrequest hprogress
    rw [hrequests]
    exact ⟨request, hrequest, hprogress⟩

theorem refl (b : Broker) : Keeps b b := of_eq rfl rfl rfl rfl fun _ ht => ht

theorem trans (h : Keeps b b') (h' : Keeps b' b'') : Keeps b b'' := by
  refine ⟨fun t => ?_, h'.callbacks.trans h.callbacks, h'.next.trans h.next,
    ?_, fun t ht => h.tasks t (h'.tasks t ht)⟩
  · rcases ha : b.acceptOffers t with _ | a
    · rcases ha'' : b''.acceptOffers t with _ | a''
      · exact .none
      · obtain ⟨a', ha', -⟩ := h'.back ha''
        obtain ⟨a, hsome, -⟩ := h.back ha'
        rw [ha] at hsome
        cases hsome
    · obtain ⟨a', ha', hmoves⟩ := h.forth ha
      obtain ⟨a'', ha'', hmoves'⟩ := h'.forth ha'
      rw [ha'']
      exact .some ⟨hmoves'.requestId.trans hmoves.requestId,
        hmoves'.reply.trans hmoves.reply, fun hstage => hmoves.stage (hmoves'.stage hstage)⟩
  · intro id request hrequest hprogress
    obtain ⟨request', hrequest', hprogress'⟩ := h.requests id request hrequest hprogress
    exact h'.requests id request' hrequest' hprogress'

/-! ### Messages, calls and requests -/

section

variable (b : Broker)

theorem messageRunner (runnerId : RunnerId)
    (message : ToRunner) : Keeps b (b.messageRunner runnerId message) := by
  rw [Broker.messageRunner]
  split
  · exact of_eq rfl rfl rfl rfl fun _ ht => ht
  · exact refl b

theorem messageRequester (requesterId : RequesterId) (message : ToRequester) :
    Keeps b (b.messageRequester requesterId message) := by
  rw [Broker.messageRequester]
  split
  · exact of_eq rfl rfl rfl rfl fun _ ht => ht
  · exact refl b

theorem updateAccept (t : TaskId) {f : AcceptOffer → AcceptOffer}
    (hf : ∀ a, b.acceptOffers t = some a → Moves a (f a)) :
    Keeps b (b.updateAccept t f) := by
  refine ⟨fun x => ?_, rfl, rfl, ?_, fun _ hx => hx⟩
  · show Option.Rel Moves (b.acceptOffers x)
      (Function.update b.acceptOffers t ((b.acceptOffers t).map f) x)
    by_cases hx : x = t
    · subst hx
      rw [Function.update_self]
      rcases ha : b.acceptOffers x with _ | a
      · exact .none
      · exact .some (hf a ha)
    · rw [Function.update_of_ne hx]
      rcases b.acceptOffers x with _ | a
      · exact .none
      · exact .some (Moves.refl a)
  · intro id request hrequest hprogress
    exact ⟨request, hrequest, hprogress⟩

theorem setStage (t : TaskId) {stage : Stage}
    (hstage : stage ≠ .offering) : Keeps b (b.setStage t stage) :=
  updateAccept b t fun _ _ => ⟨rfl, rfl, fun heq => absurd heq hstage⟩

theorem updateRequest (requestId : RequestId) {f : TaskRequest → TaskRequest}
    (hf : ∀ request, request.acceptInProgress = true → (f request).acceptInProgress = true) :
    Keeps b (b.updateRequest requestId f) := by
  refine ⟨fun t => ?_, rfl, rfl, ?_, fun _ ht => ht⟩
  · show Option.Rel Moves (b.acceptOffers t) (b.acceptOffers t)
    rcases b.acceptOffers t with _ | a
    · exact .none
    · exact .some (Moves.refl a)
  · intro id request hrequest hprogress
    show ∃ request', Function.update b.requests requestId
      ((b.requests requestId).map f) id = some request' ∧ _
    by_cases hid : id = requestId
    · subst hid
      rw [Function.update_self, hrequest]
      exact ⟨f request, rfl, hf request hprogress⟩
    · rw [Function.update_of_ne hid]
      exact ⟨request, hrequest, hprogress⟩

end

/-! ### Tasks -/

section

variable (b : Broker) (t : TaskId)

theorem setTask (ht : b.tasks.get? t ≠ none)
    (task : Task) : Keeps b { b with tasks := b.tasks.set t task } := by
  refine of_eq rfl rfl rfl rfl fun x hx => ?_
  by_cases heq : t = x
  · subst heq
    exact ht
  · rw [OrderedMap.get?_set, if_neg heq] at hx
    exact hx

theorem deleteTask : Keeps b { b with tasks := b.tasks.delete t } := by
  refine of_eq rfl rfl rfl rfl fun x hx => ?_
  rw [OrderedMap.get?_delete] at hx
  split at hx
  · exact absurd rfl hx
  · exact hx

theorem cancelTask (reason : String) : Keeps b (b.cancelTask t reason) := by
  rw [Broker.cancelTask]
  rcases b.tasks.get? t with _ | task
  · exact refl b
  · exact (deleteTask b t).trans (messageRunner _ _ _)

theorem failTask (error : String) : Keeps b (b.failTask t error) := by
  rw [Broker.failTask]
  rcases b.tasks.get? t with _ | task
  · exact refl b
  · exact (deleteTask b t).trans (messageRequester _ _ _)

theorem getRunnerOrFailTask : Keeps b (b.getRunnerOrFailTask t).1 := by
  rw [Broker.getRunnerOrFailTask]
  rcases b.tasks.get? t with _ | task
  · exact refl b
  · dsimp only
    split
    · exact refl b
    · exact failTask b t _

theorem finishTask (message : ToRequester) : Keeps b (b.finishTask t message) := by
  rw [Broker.finishTask]
  rcases htask : b.tasks.get? t with _ | task
  · exact refl b
  · have hset := setTask b t (by simp [htask]) { task with timeout := false }
    refine trans ?_ (messageRequester _ _ _)
    exact hset.trans (of_eq rfl rfl rfl rfl fun _ hx => hx)

end

theorem handleTaskTimeout (config : TaskRunnersConfig) (b : Broker)
    (t : TaskId) : Keeps b (b.handleTaskTimeout config t) := by
  rw [Broker.handleTaskTimeout]
  rcases htask : b.tasks.get? t with _ | task
  · exact refl b
  · have hset := setTask b t (by simp [htask]) { task with timeout := false }
    rcases config.mode with _ | _
    · refine trans ?_ (finishTask _ _ _)
      exact hset.trans (of_eq rfl rfl rfl rfl fun _ hx => hx)
    · refine trans ?_ (messageRunner _ _ _)
      exact hset.trans (of_eq rfl rfl rfl rfl fun _ hx => hx)

/-! ### Calls past their first `await` -/

section

variable (b : Broker) (t : TaskId)

theorem cancelAccepted (reason : String) : Keeps b (b.cancelAccepted t reason) :=
  (cancelTask b t reason).trans (setStage _ t (by simp))

theorem prepareSettings (settings : String) : Keeps b (b.prepareSettings t settings) := by
  have hget := getRunnerOrFailTask b t
  rw [Broker.prepareSettings]
  rcases hrunner : b.getRunnerOrFailTask t with ⟨c, _ | runnerId⟩ <;>
    rw [hrunner] at hget
  · exact hget.trans (setStage _ t (by simp))
  · exact hget.trans (setStage _ t (by simp))

theorem sendTaskSettings (a : AcceptOffer)
    (settings : String) : Keeps b (b.sendTaskSettings t a settings) := by
  rw [Broker.sendTaskSettings]
  rcases htask : b.tasks.get? t with _ | task
  · exact setStage b t (by simp)
  · have hset := setTask b t (by simp [htask]) { task with timeout := true }
    exact (hset.trans (setStage _ t (by simp))).trans (messageRunner _ _ _)

theorem settleRequester (reply : RequesterReply) :
    Keeps b (b.updateAccept t fun a => a.settleRequester reply) :=
  updateAccept b t fun _ _ => ⟨rfl, rfl, id⟩

theorem answerRequesterPromise (reply : RequesterReply) :
    Keeps b (b.answerRequesterPromise t reply) := by
  rw [Broker.answerRequesterPromise]
  split
  · let c : Broker := { b with
      requesterAcceptRejects := b.requesterAcceptRejects.erase t }
    have hc : Keeps b c := of_eq rfl rfl rfl rfl fun _ hx => hx
    exact hc.trans (settleRequester c t reply)
  · exact refl b

end

/-! ### Everything else -/

section

variable (b : Broker) (kind : QuestionKind) (t : TaskId) (id : String)

theorem handleRequesterResponse (data : String) :
    Keeps b (b.handleRequesterResponse kind t id data) := by
  have hget := getRunnerOrFailTask b t
  rw [Broker.handleRequesterResponse]
  rcases hrunner : b.getRunnerOrFailTask t with ⟨c, _ | runnerId⟩ <;>
    rw [hrunner] at hget
  · exact hget
  · exact hget.trans (of_eq rfl rfl rfl rfl fun _ hx => hx)

theorem handleQuestion : Keeps b (b.handleQuestion kind t id) := by
  rw [Broker.handleQuestion]
  rcases b.tasks.get? t with _ | task
  · exact refl b
  · exact messageRequester b _ _

end

theorem handleRequestTimeout (b : Broker) (requestId : RequestId) :
    Keeps b (b.handleRequestTimeout requestId) := by
  rw [Broker.handleRequestTimeout]
  rcases b.requests requestId with _ | request
  · exact refl b
  · have hupdate := updateRequest b requestId
      (f := fun request => { request with timeout := false }) fun _ hprogress => hprogress
    dsimp only
    split
    · refine trans ?_ (messageRequester _ _ _)
      exact hupdate.trans (of_eq rfl rfl rfl rfl fun _ hx => hx)
    · exact hupdate

theorem registerRunner (b : Broker) (runnerId : RunnerId) :
    Keeps b (b.registerRunner runnerId) := by
  let c : Broker := { b with
    knownRunners := runnerId :: b.knownRunners.erase runnerId }
  have hc : Keeps b c := of_eq rfl rfl rfl rfl fun _ hx => hx
  exact hc.trans (messageRunner c runnerId _)

theorem forgetRunner (b : Broker) (runnerId : RunnerId) : Keeps b (b.forgetRunner runnerId) := by
  refine ⟨fun t => ?_, rfl, rfl, ?_, fun _ ht => ht⟩
  · show Option.Rel Moves (b.acceptOffers t)
      ((b.acceptOffers t).map (AcceptOffer.noteDisconnect runnerId))
    rcases b.acceptOffers t with _ | a
    · exact .none
    · exact .some ⟨rfl, rfl, id⟩
  · intro id request hrequest hprogress
    exact ⟨request, hrequest, hprogress⟩

end Keeps

/-! ## Steps that change the matching -/

section

variable {b : Broker} {t : TaskId} {a : AcceptOffer}

variable {f : AcceptOffer → AcceptOffer}

theorem updateAccept_back {x : TaskId}
    {a' : AcceptOffer} (ha' : (b.updateAccept t f).acceptOffers x = some a') :
    ∃ a, b.acceptOffers x = some a ∧ a' = if x = t then f a else a := by
  replace ha' : Function.update b.acceptOffers t ((b.acceptOffers t).map f) x = some a' := ha'
  by_cases hx : x = t
  · subst hx
    rw [Function.update_self] at ha'
    obtain ⟨a, ha, rfl⟩ := Option.map_eq_some_iff.mp ha'
    exact ⟨a, ha, (if_pos rfl).symm⟩
  · rw [Function.update_of_ne hx] at ha'
    exact ⟨a', ha', (if_neg hx).symm⟩

theorem updateAccept_forth {x : TaskId} (ha : b.acceptOffers x = some a) :
    (b.updateAccept t f).acceptOffers x = some (if x = t then f a else a) := by
  show Function.update b.acceptOffers t ((b.acceptOffers t).map f) x = _
  by_cases hx : x = t
  · subst hx
    rw [Function.update_self, ha, if_pos rfl]
    rfl
  · rw [Function.update_of_ne hx, ha, if_neg hx]

section

variable {reply : RunnerReply} (h : Matched b) (t : TaskId)
  (hid : ∀ a, (f a).requestId = a.requestId) (hstage : ∀ a, (f a).stage = a.stage)
  (hreply : ∀ a, (f a).runnerReply = (a.runnerReply <|> some reply))
include h hid hstage hreply

/-- The promise of the runner is settled.  The callbacks go, unless it was
    the time limit that settled it. -/
theorem Matched.settle {callbacks : List TaskId} (hnodup : callbacks.Nodup)
    (hasked : ∀ x ∈ callbacks, x ∈ b.runnerAcceptRejects ∧ (x = t → reply ≠ .accepted))
    (hwaiting : ∀ x ∈ b.runnerAcceptRejects, x ≠ t → x ∈ callbacks) :
    Matched ({ b with runnerAcceptRejects := callbacks }.updateAccept t f) := by
  have hids : ∀ x (a : AcceptOffer), (if x = t then f a else a).requestId = a.requestId := by
    intro x a
    split
    · exact hid a
    · rfl
  have hstages : ∀ x (a : AcceptOffer), (if x = t then f a else a).stage = a.stage := by
    intro x a
    split
    · exact hstage a
    · rfl
  constructor
  · exact hnodup
  · intro x hx
    obtain ⟨hmem, hne⟩ := hasked x hx
    obtain ⟨a, ha, hnot⟩ := h.asked x hmem
    refine ⟨_, updateAccept_forth ha, ?_⟩
    split
    · next heq =>
        rw [hreply]
        rcases hnone : a.runnerReply with _ | old
        · simpa using hne heq
        · rw [hnone] at hnot
          exact hnot
    · exact hnot
  · intro x a' ha' hoffering hnone
    obtain ⟨a, ha, rfl⟩ := updateAccept_back ha'
    rw [hstages] at hoffering
    by_cases hx : x = t
    · rw [if_pos hx, hreply] at hnone
      rcases hold : a.runnerReply with _ | old <;> simp [hold] at hnone
    · rw [if_neg hx] at hnone
      exact hwaiting x (h.waiting x a ha hoffering hnone) hx
  · intro x hne
    obtain ⟨a', ha'⟩ := Option.ne_none_iff_exists'.mp hne
    obtain ⟨a, ha, -⟩ := updateAccept_back ha'
    exact h.fresh x (by
      rw [show b.acceptOffers x = some a from ha]
      exact Option.some_ne_none a)
  · intro x hne
    obtain ⟨a, ha, haccepted⟩ := h.accepted x hne
    refine ⟨_, updateAccept_forth ha, ?_⟩
    split
    · rw [hreply, haccepted]
      rfl
    · exact haccepted
  · intro x a' ha' hoffering
    obtain ⟨a, ha, rfl⟩ := updateAccept_back ha'
    rw [hstages] at hoffering
    rw [hids]
    exact h.inProgress x a ha hoffering
  · intro x y a' c' ha' hoffering hc' hoffering' hsame
    obtain ⟨a, ha, rfl⟩ := updateAccept_back ha'
    obtain ⟨c, hc, rfl⟩ := updateAccept_back hc'
    rw [hstages] at hoffering hoffering'
    rw [hids, hids] at hsame
    exact h.single x y a c ha hoffering hc hoffering' hsame

theorem Matched.answerRunnerPromise : Matched (b.answerRunnerPromise t f) := by
  rw [Broker.answerRunnerPromise]
  split
  · refine h.settle t hid hstage hreply (h.nodup.erase t) ?_ ?_
    · intro x hx
      obtain ⟨hne, hmem⟩ := (h.nodup.mem_erase_iff).mp hx
      exact ⟨hmem, fun heq => absurd heq hne⟩
    · intro x hmem hne
      exact (h.nodup.mem_erase_iff).mpr ⟨hne, hmem⟩
  · exact h

end

theorem Matched.acceptTimeout (h : Matched b) (t : TaskId) :
    Matched (b.updateAccept t fun a => a.settleRunner .timedOut) := by
  have hreply : ∀ a : AcceptOffer, (a.settleRunner .timedOut).runnerReply
      = (a.runnerReply <|> some RunnerReply.timedOut) := fun _ => rfl
  refine h.settle (f := fun a => a.settleRunner .timedOut) t (fun _ => rfl)
    (fun _ => rfl) hreply h.nodup ?_ fun _ hmem _ => hmem
  intro x hmem
  exact ⟨hmem, fun _ => by simp⟩

section

variable (h : Matched b) (ha : b.acceptOffers t = some a)
include h ha

theorem Matched.leaveOffering (hoffering : a.stage = .offering)
    (f : TaskRequest → TaskRequest) {stage : Stage} (hstage : stage ≠ .offering) :
    Matched ((b.updateRequest a.requestId f).setStage t stage) := by
  have hkeeps := Keeps.setStage b t hstage
  have hmatched := hkeeps.matched h
  refine { hmatched with inProgress := ?_ }
  intro x c' hc' hoffering'
  obtain ⟨c, hc, rfl⟩ := updateAccept_back hc'
  by_cases hx : x = t
  · rw [if_pos hx] at hoffering'
    exact absurd hoffering' hstage
  · rw [if_neg hx] at hoffering' ⊢
    have hne : c.requestId ≠ a.requestId := fun heq =>
      hx (h.single x t c a hc hoffering' ha hoffering heq)
    show ∃ request, Function.update b.requests a.requestId
      ((b.requests a.requestId).map f) c.requestId = some request ∧ _
    rw [Function.update_of_ne hne]
    exact h.inProgress x c hc hoffering'

theorem Matched.offerFailed (hoffering : a.stage = .offering) : Matched (b.offerFailed t a) :=
  h.leaveOffering ha hoffering _ (by simp)

theorem Matched.offerDeferred (hoffering : a.stage = .offering) :
    Matched (b.offerDeferred t a) := by
  have hreturned : Stage.returned ≠ .offering := by simp
  have hleft := h.leaveOffering ha hoffering (fun request =>
    { request with acceptInProgress := false, timeout := true }) hreturned
  refine Keeps.matched ?_ hleft
  exact Keeps.of_eq rfl rfl rfl rfl fun _ hx => hx

theorem Matched.addTask (haccepted : a.runnerReply = some .accepted) (task : Task) :
    Matched { b with tasks := b.tasks.set t task } := by
  refine { h with accepted := ?_ }
  intro x hx
  by_cases heq : t = x
  · subst heq
    exact ⟨a, ha, haccepted⟩
  · rw [OrderedMap.get?_set, if_neg heq] at hx
    exact h.accepted x hx

theorem Matched.offerAccepted (haccepted : a.runnerReply = some .accepted) :
    Matched (b.offerAccepted t a) := by
  have hrequest := (Keeps.updateRequest b a.requestId
    (f := fun request => { request with timeout := false }) fun _ hprogress => hprogress).matched h
  have htask := hrequest.addTask ha haccepted
    { runnerId := a.offer.runnerId, requesterId := a.requesterId
      timeout := false }
  rw [Broker.offerAccepted]
  split
  · refine (Keeps.messageRequester _ _ _).matched ?_
    refine (Keeps.setStage _ t (by simp)).matched ?_
    refine Keeps.matched ?_ htask
    exact Keeps.of_eq rfl rfl rfl rfl fun _ hx => hx
  · exact (Keeps.setStage _ t (by simp)).matched htask

end

/-! ### Going on after an `await` -/

theorem Matched.resumeAcceptOffer (h : Matched b) (t : TaskId)
    (rejected : Bool) : Matched (b.resumeAcceptOffer t rejected) := by
  rw [Broker.resumeAcceptOffer]
  rcases ha : b.acceptOffers t with _ | a
  · exact h
  · dsimp only
    rcases hstage : a.stage with _ | _ | settings | _ | _ | _ | _ <;>
      dsimp only
    · split
      · exact h.offerFailed ha hstage
      · rcases hreply : a.runnerReply with _ | (_ | reason | _ | _) <;>
          dsimp only
        · exact h
        · exact h.offerAccepted ha hreply
        · exact h.offerFailed ha hstage
        · exact h.offerDeferred ha hstage
        · exact h.offerFailed ha hstage
    · split
      · exact (Keeps.cancelAccepted b t _).matched h
      · rcases a.requesterReply with _ | (settings | reason | _) <;>
          dsimp only
        · exact h
        · exact (Keeps.prepareSettings b t settings).matched h
        · exact (Keeps.cancelAccepted b t reason).matched h
        · exact (Keeps.cancelAccepted b t _).matched h
    · exact (Keeps.sendTaskSettings b t a settings).matched h
    · split
      · exact (Keeps.cancelAccepted b t _).matched h
      · exact (Keeps.setStage b t (by simp)).matched h
    · exact (Keeps.cancelAccepted b t _).matched h
    · exact (Keeps.setStage b t (by simp)).matched h
    · exact h

/-! ### Matching requests and offers -/

variable {requestId : RequestId}

section

variable (h : Matched b)
include h

/-- A new call, for a request that is being accepted by no other. -/
theorem Matched.acceptOffer (offer : TaskOffer) (requesterId : RequesterId)
    (hnone : ∀ x a, b.acceptOffers x = some a → a.stage = .offering → a.requestId ≠ requestId)
    (request : TaskRequest) (hrequest : b.requests requestId = some request)
    (hprogress : request.acceptInProgress = true) :
    Matched (b.acceptOffer offer requestId requesterId) := by
  have hnew : b.acceptOffers b.nextTaskId = none := by
    by_contra hne
    exact Nat.lt_irrefl _ (h.fresh _ hne)
  have hold : b.nextTaskId ∉ b.runnerAcceptRejects := by
    intro hmem
    obtain ⟨a, ha, -⟩ := h.asked _ hmem
    rw [hnew] at ha
    cases ha
  refine (Keeps.messageRunner _ _ _).matched ?_
  constructor
  · show (b.runnerAcceptRejects ++ [b.nextTaskId]).Nodup
    exact nodup_append.mpr ⟨h.nodup, nodup_singleton _, by
      rintro x hx y hy rfl
      exact hold (mem_singleton.mp hy ▸ hx)⟩
  · intro x hx
    dsimp only at hx ⊢
    rcases mem_append.mp hx with hx | hx
    · have hne : x ≠ b.nextTaskId := fun heq => hold (heq ▸ hx)
      rw [Function.update_of_ne hne]
      exact h.asked x hx
    · rw [mem_singleton.mp hx, Function.update_self]
      exact ⟨_, rfl, by simp⟩
  · intro x a ha hoffering hreply
    dsimp only at ha ⊢
    by_cases hx : x = b.nextTaskId
    · exact mem_append_right _ (mem_singleton.mpr hx)
    · rw [Function.update_of_ne hx] at ha
      exact mem_append_left _ (h.waiting x a ha hoffering hreply)
  · intro x hx
    dsimp only at hx ⊢
    by_cases heq : x = b.nextTaskId
    · rw [heq]
      exact Nat.lt_succ_self _
    · rw [Function.update_of_ne heq] at hx
      exact Nat.lt_succ_of_lt (h.fresh x hx)
  · intro x hx
    obtain ⟨a, ha, haccepted⟩ := h.accepted x hx
    refine ⟨a, ?_, haccepted⟩
    dsimp only
    rw [Function.update_of_ne]
    · exact ha
    · rintro rfl
      rw [hnew] at ha
      cases ha
  · intro x a ha hoffering
    dsimp only at ha ⊢
    by_cases hx : x = b.nextTaskId
    · rw [hx, Function.update_self] at ha
      cases ha
      exact ⟨request, hrequest, hprogress⟩
    · rw [Function.update_of_ne hx] at ha
      exact h.inProgress x a ha hoffering
  · intro x y a c ha hoffering hc hoffering' hsame
    dsimp only at ha hc
    by_cases hx : x = b.nextTaskId
    · by_cases hy : y = b.nextTaskId
      · rw [hx, hy]
      · rw [hx, Function.update_self] at ha
        rw [Function.update_of_ne hy] at hc
        cases ha
        exact absurd hsame.symm (hnone y c hc hoffering')
    · rw [Function.update_of_ne hx] at ha
      by_cases hy : y = b.nextTaskId
      · rw [hy, Function.update_self] at hc
        cases hc
        exact absurd hsame (hnone x a ha hoffering)
      · rw [Function.update_of_ne hy] at hc
        exact h.single x y a c ha hoffering hc hoffering' hsame

theorem Matched.matchRequest
    {request : TaskRequest} (hrequest : b.requests requestId = some request)
    (hfree : ¬ request.acceptInProgress = true) (offer : TaskOffer)
    {offers : List TaskOffer} :
    Matched (Broker.acceptOffer
      { b.updateRequest requestId fun request =>
          { request with acceptInProgress := true } with
        pendingTaskOffers := offers } offer requestId request.requesterId) := by
  have hmatched := (Keeps.updateRequest b requestId
    (f := fun request => { request with acceptInProgress := true }) fun _ _ => rfl).matched h
  refine Matched.acceptOffer (Keeps.matched ?_ hmatched) offer request.requesterId ?_
    { request with acceptInProgress := true } ?_ rfl
  · exact Keeps.of_eq rfl rfl rfl rfl fun _ hx => hx
  · -- Nobody accepts a request that is free.
    rintro x a ha hoffering rfl
    obtain ⟨request', hsome, hprogress⟩ := h.inProgress x a ha hoffering
    rw [hrequest] at hsome
    cases hsome
    exact hfree hprogress
  · show Function.update b.requests requestId ((b.requests requestId).map _) requestId = _
    rw [Function.update_self, hrequest]
    rfl

theorem Matched.settleRequest (requestId : RequestId) : Matched (b.settleRequest requestId) := by
  rw [Broker.settleRequest]
  rcases hrequest : b.requests requestId with _ | request
  · exact h
  · dsimp only
    split
    · exact h
    · next hfree =>
        split
        · exact h
        · next offer hfind => exact h.matchRequest hrequest hfree offer

theorem Matched.settleTasks (now : Nat) : Matched (b.settleTasks now) := by
  have hexpired : Keeps b (b.expireTasks now) := Keeps.of_eq rfl rfl rfl rfl fun _ hx => hx
  exact List.foldlRecOn (motive := Matched) _ _ (hexpired.matched h)
    fun c hc requestId _ => hc.settleRequest requestId

theorem Matched.taskOffered (now : Nat)
    (offer : TaskOffer) : Matched (b.taskOffered now offer) := by
  refine Matched.settleTasks (Keeps.matched ?_ h) now
  exact Keeps.of_eq rfl rfl rfl rfl fun _ hx => hx

theorem Matched.taskRequested (now : Nat)
    (hnew : b.requests requestId = none) (request : TaskRequest) :
    Matched (b.taskRequested now requestId request) := by
  refine Matched.settleTasks (Keeps.matched ?_ h) now
  refine ⟨fun x => ?_, rfl, rfl, ?_, fun _ hx => hx⟩
  · show Option.Rel Moves (b.acceptOffers x) (b.acceptOffers x)
    rcases b.acceptOffers x with _ | a
    · exact .none
    · exact .some (Moves.refl a)
  · intro id old hold hprogress
    refine ⟨old, ?_, hprogress⟩
    show Function.update b.requests requestId (some request) id = some old
    rw [Function.update_of_ne]
    · exact hold
    · rintro rfl
      rw [hnew] at hold
      cases hold

end

/-! ### The runner goes -/

section

variable (h : Matched b) (runnerId : RunnerId) (error : String)
include h

theorem Matched.dropTask (t : TaskId) : Matched (b.dropTask runnerId error t) :=
  ((Keeps.failTask b t error).matched h).answerRunnerPromise t (fun _ => rfl)
  (fun _ => rfl) fun _ => rfl

theorem Matched.dropTasks (l : List TaskId) :
    Matched (l.foldl (Broker.dropTask runnerId error) b) := by
  induction l generalizing b with
  | nil => exact h
  | cons t rest ih => exact ih (h.dropTask runnerId error t)

theorem Matched.deregisterRunner : Matched (b.deregisterRunner runnerId error) :=
  ((Keeps.forgetRunner b runnerId).matched h).dropTasks runnerId error _

end

/-- **ONE STEP** keeps the matching. -/
theorem Matched.perform (h : Matched b) (config : TaskRunnersConfig)
    {e : Event} (hpossible : b.Possible e) :
    Matched (b.perform config e) := by
  have hsame : ∀ {b' : Broker}, Keeps b b' → Matched b' := fun hkeeps =>
    hkeeps.matched h
  cases e with
  | registerRunner runnerId => exact hsame (Keeps.registerRunner b runnerId)
  | deregisterRunner runnerId error => exact h.deregisterRunner runnerId error
  | registerRequester requesterId =>
    exact hsame (Keeps.of_eq rfl rfl rfl rfl fun _ hx => hx)
  | deregisterRequester requesterId =>
    exact hsame (Keeps.of_eq rfl rfl rfl rfl fun _ hx => hx)
  | runnerMessage now runnerId message =>
    show Matched (b.onRunnerMessage now runnerId message)
    unfold Broker.onRunnerMessage
    split
    · cases message with
      | taskAccepted t =>
        exact h.answerRunnerPromise t (fun _ => rfl) (fun _ => rfl) fun _ => rfl
      | taskRejected t reason =>
        exact h.answerRunnerPromise t (fun _ => rfl) (fun _ => rfl) fun _ => rfl
      | taskDeferred t =>
        exact h.answerRunnerPromise t (fun _ => rfl) (fun _ => rfl) fun _ => rfl
      | taskOffer offerId taskType validFor => exact h.taskOffered now _
      | taskDone t data => exact hsame (Keeps.finishTask b t _)
      | taskError t error => exact hsame (Keeps.finishTask b t _)
      | question kind t id => exact hsame (Keeps.handleQuestion b kind t id)
    · exact h
  | requesterMessage now requesterId message =>
    cases message with
    | taskSettings t settings => exact hsame (Keeps.answerRequesterPromise b t _)
    | taskCancel t reason => exact hsame (Keeps.cancelTask b t reason)
    | taskRequest requestId taskType => exact h.taskRequested now hpossible _
    | response kind t id data =>
      exact hsame (Keeps.handleRequesterResponse b kind t id data)
  | requesterReject t reason => exact hsame (Keeps.answerRequesterPromise b t _)
  | requestTimeout requestId => exact hsame (Keeps.handleRequestTimeout b requestId)
  | runnerAcceptTimeout t => exact h.acceptTimeout t
  | requesterAcceptTimeout t => exact hsame (Keeps.settleRequester b t _)
  | taskTimeout t => exact hsame (Keeps.handleTaskTimeout config b t)
  | resumeAcceptOffer t rejected => exact h.resumeAcceptOffer t rejected
  | resumeHandler f =>
    refine hsame ((Keeps.deleteTask b f.taskId).trans ?_)
    exact Keeps.of_eq rfl rfl rfl rfl fun _ hx => hx
  | resumeTaskTimeout t =>
    refine hsame (Keeps.trans ?_ (Keeps.finishTask _ t _))
    exact Keeps.of_eq rfl rfl rfl rfl fun _ hx => hx
  | resumeResponse r =>
    refine hsame (Keeps.trans ?_ (Keeps.messageRunner _ _ _))
    exact Keeps.of_eq rfl rfl rfl rfl fun _ hx => hx

end

theorem Matched.of_run {config : TaskRunnersConfig} {path : List (Event × Broker)}
    (hrun : IsRun (Step config) .start path) :
    Matched (lastState .start path) := by
  have hall : EveryState Matched .start path := by
    refine everyState_of_preserved hrun Matched.start ?_
    rintro b e b' h ⟨hpossible, rfl⟩
    exact h.perform config hpossible
  exact hall.last

/-! ## What `deregisterRunner` leaves -/

section

variable {b b' : Broker} {t : TaskId} {a : AcceptOffer}

/-- Only tasks and messages are different. -/
structure SameQueues (b b' : Broker) : Prop where
  offers : b'.pendingTaskOffers = b.pendingTaskOffers
  calls : b'.acceptOffers = b.acceptOffers
  callbacks : b'.runnerAcceptRejects = b.runnerAcceptRejects

theorem failTask_queues (b : Broker) (t : TaskId) (error : String) :
    SameQueues b (b.failTask t error) := by
  rw [Broker.failTask]
  rcases b.tasks.get? t with _ | task
  · exact ⟨rfl, rfl, rfl⟩
  · dsimp only
    rw [Broker.messageRequester]
    split <;> exact ⟨rfl, rfl, rfl⟩

theorem failTask_tasks (b : Broker) (t x : TaskId) (error : String) :
    (b.failTask t error).tasks.get? x = if x = t then none else b.tasks.get? x := by
  rw [Broker.failTask]
  rcases htask : b.tasks.get? t with _ | task <;> dsimp only
  · by_cases hx : x = t
    · rw [if_pos hx, hx, htask]
    · rw [if_neg hx]
  · rw [Broker.messageRequester_tasks, OrderedMap.get?_delete]

theorem dropTask_eq {runnerId : RunnerId} {error : String} (hnone : t ∉ b.runnerAcceptRejects) :
    b.dropTask runnerId error t = b.failTask t error := by
  have hqueues := failTask_queues b t error
  rw [Broker.dropTask, Broker.handleRunnerReject, Broker.answerRunnerPromise, if_neg]
  rw [hqueues.callbacks]
  exact hnone

theorem dropTasks_leaves (runnerId : RunnerId) (error : String) (l : List TaskId)
    {b : Broker} (hnone : ∀ t ∈ l, t ∉ b.runnerAcceptRejects) :
    SameQueues b (l.foldl (Broker.dropTask runnerId error) b)
      ∧ ∀ x, (l.foldl (Broker.dropTask runnerId error) b).tasks.get? x
          = if x ∈ l then none else b.tasks.get? x := by
  induction l generalizing b with
  | nil => exact ⟨⟨rfl, rfl, rfl⟩, fun x => by simp⟩
  | cons t rest ih =>
    rw [foldl_cons, dropTask_eq (hnone t (mem_cons_self ..))]
    have hfail := failTask_queues b t error
    obtain ⟨hqueues, htasks⟩ := ih (b := b.failTask t error) (by
      intro x hx
      rw [hfail.callbacks]
      exact hnone x (mem_cons_of_mem _ hx))
    refine ⟨⟨hqueues.offers.trans hfail.offers, hqueues.calls.trans hfail.calls,
      hqueues.callbacks.trans hfail.callbacks⟩, fun x => ?_⟩
    rw [htasks, failTask_tasks]
    by_cases hx : x = t <;> by_cases hrest : x ∈ rest <;> simp [hx, hrest]

theorem offerAccepted_requests (b : Broker) (t : TaskId) (a : AcceptOffer) :
    (b.offerAccepted t a).requests = (b.updateRequest a.requestId
      fun request => { request with timeout := false }).requests := by
  rw [Broker.offerAccepted]
  split
  · rw [Broker.messageRequester]
    split <;> rfl
  · rfl

/-- A call in front of its first `await` frees its request unless its
    promise is open or the runner has accepted. -/
theorem Matched.freed_iff (h : Matched b) (ha : b.acceptOffers t = some a)
    (hoffering : a.stage = .offering) :
    Freed b t a ↔ a.runnerReply ≠ none ∧ a.runnerReply ≠ some .accepted := by
  obtain ⟨request, hrequest, hprogress⟩ := h.inProgress t a ha hoffering
  have hupdate : ∀ f : TaskRequest → TaskRequest,
      (b.updateRequest a.requestId f).requests a.requestId = some (f request) := by
    intro f
    show Function.update b.requests a.requestId ((b.requests a.requestId).map f) a.requestId = _
    rw [Function.update_self, hrequest]
    rfl
  have hfailed : (b.offerFailed t a).requests a.requestId
      = some { request with acceptInProgress := false } := hupdate _
  constructor
  · rintro ⟨hsettled, ⟨request', havailable, hfree⟩, -⟩
    refine ⟨hsettled, fun haccepted => ?_⟩
    have hresume : b.resumeAcceptOffer t false = b.offerAccepted t a := by
      rw [Broker.resumeAcceptOffer, ha]
      simp [hoffering, haccepted]
    rw [hresume, offerAccepted_requests, hupdate] at havailable
    cases havailable
    rw [hprogress] at hfree
    cases hfree
  · rintro ⟨hsettled, hnot⟩
    by_cases hdeferred : a.runnerReply = some .deferred
    · have hresume : b.resumeAcceptOffer t false = b.offerDeferred t a := by
        rw [Broker.resumeAcceptOffer, ha]
        simp [hoffering, hdeferred]
      refine ⟨hsettled, ?_, ?_⟩ <;> rw [hresume]
      · exact ⟨_, hupdate _, rfl⟩
      · exact fun hmem => mem_append_left _ hmem
    · have hresume : b.resumeAcceptOffer t false = b.offerFailed t a := by
        rw [Broker.resumeAcceptOffer, ha]
        rcases hreply : a.runnerReply with _ | (_ | reason | _ | _)
        · exact absurd hreply hsettled
        · exact absurd hreply hnot
        · simp [hoffering, hreply]
        · exact absurd hreply hdeferred
        · simp [hoffering, hreply]
      refine ⟨hsettled, ?_, ?_⟩ <;> rw [hresume]
      · exact ⟨_, hfailed, rfl⟩
      · exact id

theorem Matched.cleared_iff (h : Matched b) {runnerId : RunnerId}
    (hoffers : ∀ offer ∈ b.pendingTaskOffers, offer.runnerId ≠ runnerId)
    (htasks : ∀ t task, b.tasks.get? t = some task → task.runnerId ≠ runnerId) :
    Cleared runnerId b ↔ HasAnswered runnerId b := by
  constructor
  · intro hcleared t a ha hown
    refine ⟨hcleared.callbacks t a ha hown, fun hoffering => ?_⟩
    have hfreed := hcleared.requests t a ha hown hoffering
    exact ((h.freed_iff ha hoffering).mp hfreed).2
  · intro hanswered
    refine ⟨hoffers, htasks, fun t a ha hown => (hanswered t a ha hown).1, ?_⟩
    intro t a ha hown hoffering
    obtain ⟨hnone, hnot⟩ := hanswered t a ha hown
    refine (h.freed_iff ha hoffering).mpr ⟨fun hopen => ?_, hnot hoffering⟩
    exact hnone (h.waiting t a ha hoffering hopen)

/-- **ONE STEP**: `deregisterRunner` clears a runner exactly when it has
    answered everything before. -/
theorem Matched.clears_iff (h : Matched b) (runnerId : RunnerId) (error : String) :
    Cleared runnerId (b.deregisterRunner runnerId error) ↔ HasAnswered runnerId b := by
  obtain ⟨hqueues, htasks⟩ := dropTasks_leaves runnerId error
    (b.tasksOf runnerId) (b := b.forgetRunner runnerId) (by
      intro t ht
      obtain ⟨task, htask, -⟩ := Broker.mem_tasksOf.mp ht
      exact h.no_callbacks (by simp [htask]))
  refine ((h.deregisterRunner runnerId error).cleared_iff ?_ ?_).trans ?_
  · intro offer hoffer
    rw [Broker.deregisterRunner, hqueues.offers] at hoffer
    exact of_decide_eq_true (mem_filter.mp hoffer).2
  · intro t task htask hown
    rw [Broker.deregisterRunner, htasks] at htask
    split at htask
    · cases htask
    · next hnot => exact hnot (Broker.mem_tasksOf.mpr ⟨task, htask, hown⟩)
  · -- The calls of the runner and its callbacks are as they were.
    rw [Broker.deregisterRunner]
    constructor
    · intro hanswered t a ha hown
      have hcall := hanswered t (a.noteDisconnect runnerId) (by
        rw [hqueues.calls]
        show (b.acceptOffers t).map _ = _
        rw [ha]
        rfl) hown
      rw [hqueues.callbacks] at hcall
      exact hcall
    · intro hanswered t a' ha' hown
      rw [hqueues.calls] at ha'
      obtain ⟨a, ha, rfl⟩ := Option.map_eq_some_iff.mp ha'
      rw [hqueues.callbacks]
      exact hanswered t a ha hown

end

/-- **EVERY RUN**: in every state a broker comes to, `deregisterRunner`
    leaves nothing that waits on the runner exactly when the runner has
    answered every offer of its that was accepted, and its acceptances have
    taken effect. -/
theorem deregisterRunner_clears_iff {config : TaskRunnersConfig}
    {path : List (Event × Broker)} (hrun : IsRun (Step config) .start path)
    (runnerId : RunnerId) (error : String) :
    Cleared runnerId ((lastState .start path).deregisterRunner runnerId error)
      ↔ HasAnswered runnerId (lastState .start path) :=
  (Matched.of_run hrun).clears_iff runnerId error

/-! ## Two runs -/

/-- The runner has taken the task and is done with it. -/
theorem cleared_after_doneTask :
    Cleared "runner" ((lastState .start (pathOf
      (Broker.perform internalRunners) .start doneTask)).deregisterRunner "runner" "closed") := by
  have hrun := doneTask_isRun [] trivial
  rw [append_nil] at hrun
  refine (deregisterRunner_clears_iff hrun "runner" "closed").mpr ?_
  rintro t a ha -
  have hfirst : t < 1 := (Matched.of_run hrun).fresh t (by simp [ha])
  obtain rfl : t = 0 := Nat.lt_one_iff.mp hfirst
  refine ⟨by decide, fun hoffering => ?_⟩
  cases ha
  cases hoffering

/-- The runner disconnects while it is asked about its offer: nobody rejects
    the promise, and the request stays in progress. -/
theorem asked_runner_leaves_request :
    let path := pathOf (Broker.perform internalRunners) .start requestAndOffer
    IsRun (Step internalRunners) .start path
      ∧ ¬ Cleared "runner" ((lastState .start path).deregisterRunner "runner" "closed") := by
  refine ⟨⟨⟨trivial, rfl⟩, ⟨trivial, rfl⟩, ⟨rfl, rfl⟩, ⟨trivial, rfl⟩,
    trivial⟩, fun hcleared => ?_⟩
  exact hcleared.callbacks 0 _ rfl rfl (by decide)

end N8nRunnerDisconnect
