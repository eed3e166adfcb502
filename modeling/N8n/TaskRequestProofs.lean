import Mathlib.Data.List.Nodup
import N8n.TaskBrokerProofs

/-! # Matching requests — at most one outcome for each

    A request is pending until its requester is told that the task is ready
    or that the request has expired.  It stays in the list while an offer
    for it is being accepted; a rejection or a timeout of the acceptance
    leaves it there, but a deferral pushes it *again*.

    Almost every step leaves the list and the outcomes alone
    (`SameRequests`); the four that do not are listed in `RequestStep`, and
    the invariant survives all of them but the deferral of a request that is
    still pending or already has its outcome. -/

namespace N8nTaskRequest

open N8nOrderedMap N8nRun N8nTaskBroker List

/-! ## Outcomes -/

/-- The messages that close a request. -/
def isOutcome (r : RequestId) : Sent → Bool
  | .toRequester _ (.taskReady requestId _) => requestId == r
  | .toRequester _ (.requestExpired requestId _) => requestId == r
  | _ => false

/-- What the requester has been told about a request. -/
def outcomes (b : Broker) (r : RequestId) : List Sent := b.log.filter (isOutcome r)

/-- At most one entry for each request, none for a request that has been
    accepted or has expired, and no second outcome for any. -/
structure MatchedOnce (b : Broker) : Prop where
  nodup : b.pendingTaskRequests.Nodup
  opened : ∀ r ∈ b.pendingTaskRequests, outcomes b r = []
  once : ∀ r, (outcomes b r).length ≤ 1

/-- Everything the broker deals with has been requested. -/
structure Requested (b : Broker) : Prop where
  pending : ∀ r ∈ b.pendingTaskRequests, b.requests r ≠ none
  told : ∀ r, outcomes b r ≠ [] → b.requests r ≠ none
  offered : ∀ t a, b.acceptOffers t = some a → b.requests a.requestId ≠ none

/-! ## Steps that leave the requests alone -/

/-- The same pending requests, outcomes and known requests, and calls of
    `acceptOffer` only for known requests. -/
structure SameRequests (b b' : Broker) : Prop where
  pending : b'.pendingTaskRequests = b.pendingTaskRequests
  outcomes : ∀ r, outcomes b' r = outcomes b r
  requests : ∀ r, b'.requests r = none ↔ b.requests r = none
  offered : ∀ t a', b'.acceptOffers t = some a' → b.requests a'.requestId ≠ none
      ∨ ∃ a, b.acceptOffers t = some a ∧ a.requestId = a'.requestId

namespace SameRequests

theorem refl (b : Broker) : SameRequests b b :=
  ⟨rfl, fun _ => rfl, fun _ => Iff.rfl, fun _ a h => Or.inr ⟨a, h, rfl⟩⟩

theorem trans {b c d : Broker} (h₁ : SameRequests b c)
    (h₂ : SameRequests c d) : SameRequests b d := by
  refine ⟨h₂.pending.trans h₁.pending, fun r => ?_, fun r => ?_, ?_⟩
  · exact (h₂.outcomes r).trans (h₁.outcomes r)
  · exact (h₂.requests r).trans (h₁.requests r)
  · intro t a' ha'
    rcases h₂.offered t a' ha' with hknown | ⟨a, ha, hreq⟩
    · exact Or.inl (mt (h₁.requests _).mpr hknown)
    · rw [← hreq]
      exact h₁.offered t a ha

section

variable {b b' : Broker} (hpending : b'.pendingTaskRequests = b.pendingTaskRequests)
include hpending

theorem of_eq (hlog : b'.log = b.log) (hrequests : b'.requests = b.requests)
    (hoffers : b'.acceptOffers = b.acceptOffers) : SameRequests b b' := by
  refine ⟨hpending, fun r => ?_, fun r => ?_, fun t a' ha' => ?_⟩
  · rw [N8nTaskRequest.outcomes, N8nTaskRequest.outcomes, hlog]
  · rw [hrequests]
  · rw [hoffers] at ha'
    exact Or.inr ⟨a', ha', rfl⟩

theorem of_log {sent : Sent} (hlog : b'.log = b.log ++ [sent])
    (hsent : ∀ r, isOutcome r sent = false) (hrequests : b'.requests = b.requests)
    (hoffers : b'.acceptOffers = b.acceptOffers) : SameRequests b b' := by
  refine ⟨hpending, fun r => ?_, fun r => ?_, fun t a' ha' => ?_⟩
  · rw [N8nTaskRequest.outcomes, N8nTaskRequest.outcomes, hlog, filter_append,
      filter_cons_of_neg (by simp [hsent r]), filter_nil, append_nil]
  · rw [hrequests]
  · rw [hoffers] at ha'
    exact Or.inr ⟨a', ha', rfl⟩

end

section

variable (b : Broker)

theorem messageRunner (runnerId : RunnerId) (m : ToRunner) :
    SameRequests b (b.messageRunner runnerId m) := by
  unfold Broker.messageRunner
  split
  · exact of_log rfl rfl (fun _ => rfl) rfl rfl
  · exact refl b

theorem messageRequester (requesterId : RequesterId) {m : ToRequester}
    (hm : ∀ r, isOutcome r (.toRequester requesterId m) = false) :
    SameRequests b (b.messageRequester requesterId m) := by
  unfold Broker.messageRequester
  split
  · exact of_log rfl rfl hm rfl rfl
  · exact refl b

theorem updateAccept (taskId : TaskId) {f : AcceptOffer → AcceptOffer}
    (hf : ∀ a, (f a).requestId = a.requestId) :
    SameRequests b (b.updateAccept taskId f) := by
  refine ⟨rfl, fun _ => rfl, fun _ => Iff.rfl, fun t a' ha' => ?_⟩
  right
  change Function.update b.acceptOffers taskId _ t = some a' at ha'
  by_cases ht : t = taskId
  · subst ht
    rw [Function.update_self] at ha'
    obtain ⟨a, ha, rfl⟩ := Option.map_eq_some_iff.mp ha'
    exact ⟨a, ha, (hf a).symm⟩
  · rw [Function.update_of_ne ht] at ha'
    exact ⟨a', ha', rfl⟩

theorem setStage (taskId : TaskId) (stage : Stage) : SameRequests b (b.setStage taskId stage) :=
  updateAccept b taskId fun _ => rfl

theorem updateRequest (requestId : RequestId) (f : TaskRequest → TaskRequest) :
    SameRequests b (b.updateRequest requestId f) := by
  refine ⟨rfl, fun _ => rfl, fun r => ?_, fun _ a h => Or.inr ⟨a, h, rfl⟩⟩
  change Function.update b.requests requestId _ r = none ↔ _
  by_cases hr : r = requestId
  · subst hr
    rw [Function.update_self, Option.map_eq_none_iff]
  · rw [Function.update_of_ne hr]

end

/-! ### The operations -/

theorem acceptOffer (b : Broker) (offer : TaskOffer) (requestId : RequestId)
    (requesterId : RequesterId) (h : b.requests requestId ≠ none) :
    SameRequests b (b.acceptOffer offer requestId requesterId) := by
  refine trans ?_ (messageRunner _ _ _)
  refine ⟨rfl, fun _ => rfl, fun _ => Iff.rfl, fun t a' ha' => ?_⟩
  change Function.update b.acceptOffers b.nextTaskId _ t = some a' at ha'
  by_cases ht : t = b.nextTaskId
  · subst ht
    rw [Function.update_self] at ha'
    cases ha'
    exact Or.inl h
  · rw [Function.update_of_ne ht] at ha'
    exact Or.inr ⟨a', ha', rfl⟩

theorem settleRequest (b : Broker) (requestId : RequestId) :
    SameRequests b (b.settleRequest requestId) := by
  unfold Broker.settleRequest
  split
  · exact refl b
  · next request hrequest =>
    split
    · exact refl b
    · split
      · exact refl b
      · next offer _ =>
        have hupdate := updateRequest b requestId
          fun request => { request with acceptInProgress := true }
        have hknown : b.requests requestId ≠ none := by
          rw [hrequest]
          exact Option.some_ne_none _
        refine trans (trans hupdate ?_)
          (acceptOffer _ offer requestId request.requesterId
            (mt (hupdate.requests requestId).mp hknown))
        exact of_eq rfl rfl rfl rfl

theorem settleTasks (b : Broker) (now : Nat) : SameRequests b (b.settleTasks now) := by
  have hexpired : SameRequests b (b.expireTasks now) := of_eq rfl rfl rfl rfl
  exact List.foldlRecOn (motive := fun c => SameRequests b c) _ _ hexpired
    fun c hc r _ => trans hc (settleRequest c r)

theorem taskOffered (b : Broker) (now : Nat) (offer : TaskOffer) :
    SameRequests b (b.taskOffered now offer) := by
  refine trans ?_ (settleTasks _ now)
  exact of_eq rfl rfl rfl rfl

section

variable (b : Broker) (taskId : TaskId)

theorem cancelTask (reason : String) : SameRequests b (b.cancelTask taskId reason) := by
  unfold Broker.cancelTask
  split
  · exact refl b
  · refine trans ?_ (messageRunner _ _ _)
    exact of_eq rfl rfl rfl rfl

theorem failTask (error : String) : SameRequests b (b.failTask taskId error) := by
  unfold Broker.failTask
  split
  · exact refl b
  · refine trans ?_ (messageRequester _ _ fun _ => rfl)
    exact of_eq rfl rfl rfl rfl

theorem getRunnerOrFailTask : SameRequests b (b.getRunnerOrFailTask taskId).1 := by
  unfold Broker.getRunnerOrFailTask
  split
  · exact refl b
  · split
    · exact refl b
    · exact failTask b taskId _

theorem finishTask {m : ToRequester} (hm : ∀ q r, isOutcome r (.toRequester q m) = false) :
    SameRequests b (b.finishTask taskId m) := by
  unfold Broker.finishTask
  split
  · exact refl b
  · refine trans ?_ (messageRequester _ _ (hm _))
    exact of_eq rfl rfl rfl rfl

end

theorem handleTaskTimeout (config : TaskRunnersConfig) (b : Broker) (taskId : TaskId) :
    SameRequests b (b.handleTaskTimeout config taskId) := by
  unfold Broker.handleTaskTimeout
  split
  · exact refl b
  · next task _ =>
    cases config.mode with
    | internal =>
      refine trans (c := { b with
        tasks := b.tasks.set taskId { task with timeout := false }
        log := b.log ++ [Sent.runnerTimedOutDuringTask] }) ?_ ?_
      · exact of_log rfl rfl (fun _ => rfl) rfl rfl
      · exact finishTask _ taskId fun _ _ => rfl
    | external =>
      refine trans ?_ (messageRunner _ _ _)
      exact of_eq rfl rfl rfl rfl

section

variable (b : Broker)

theorem answerRunnerPromise (taskId : TaskId) {f : AcceptOffer → AcceptOffer}
    (hf : ∀ a, (f a).requestId = a.requestId) :
    SameRequests b (b.answerRunnerPromise taskId f) := by
  unfold Broker.answerRunnerPromise
  split
  · refine trans ?_ (updateAccept _ taskId hf)
    exact of_eq rfl rfl rfl rfl
  · exact refl b

theorem answerRequesterPromise (taskId : TaskId) (reply : RequesterReply) :
    SameRequests b (b.answerRequesterPromise taskId reply) := by
  unfold Broker.answerRequesterPromise
  split
  · refine trans ?_ (updateAccept _ taskId fun _ => rfl)
    exact of_eq rfl rfl rfl rfl
  · exact refl b

theorem deregisterRunner (runnerId : RunnerId) (error : String) :
    SameRequests b (b.deregisterRunner runnerId error) := by
  have hdrop : ∀ (c : Broker) (taskId : TaskId),
      SameRequests c (Broker.dropTask runnerId error c taskId) :=
    fun c taskId => trans (failTask c taskId error) (answerRunnerPromise _ taskId fun _ => rfl)
  refine List.foldlRecOn (motive := fun c => SameRequests b c) _ _ ?_
    fun c hc taskId _ => trans hc (hdrop c taskId)
  refine ⟨rfl, fun _ => rfl, fun _ => Iff.rfl, fun t a' ha' => ?_⟩
  obtain ⟨a, ha, rfl⟩ := Option.map_eq_some_iff.mp ha'
  exact Or.inr ⟨a, ha, rfl⟩

section

variable (kind : QuestionKind) (taskId : TaskId) (id : String)

theorem handleQuestion : SameRequests b (b.handleQuestion kind taskId id) := by
  unfold Broker.handleQuestion
  split
  · exact refl b
  · exact messageRequester _ _ fun _ => rfl

theorem handleRequesterResponse (data : String) :
    SameRequests b (b.handleRequesterResponse kind taskId id data) := by
  have hget := getRunnerOrFailTask b taskId
  unfold Broker.handleRequesterResponse
  split
  · next heq =>
    rw [heq] at hget
    exact hget
  · next heq =>
    rw [heq] at hget
    exact trans hget (of_eq rfl rfl rfl rfl)

end

section

variable (taskId : TaskId)

theorem offerFailed (a : AcceptOffer) : SameRequests b (b.offerFailed taskId a) :=
  trans (updateRequest b _ _) (setStage _ taskId _)

theorem cancelAccepted (reason : String) : SameRequests b (b.cancelAccepted taskId reason) :=
  trans (cancelTask b taskId reason) (setStage _ taskId _)

theorem prepareSettings (settings : String) :
    SameRequests b (b.prepareSettings taskId settings) := by
  have hget := getRunnerOrFailTask b taskId
  unfold Broker.prepareSettings
  split
  · next heq =>
    rw [heq] at hget
    exact trans hget (setStage _ taskId _)
  · next heq =>
    rw [heq] at hget
    exact trans hget (setStage _ taskId _)

theorem sendTaskSettings (a : AcceptOffer) (settings : String) :
    SameRequests b (b.sendTaskSettings taskId a settings) := by
  unfold Broker.sendTaskSettings
  split
  · exact setStage b taskId _
  · refine trans (trans ?_ (setStage _ taskId _)) (messageRunner _ _ _)
    exact of_eq rfl rfl rfl rfl

end

end

end SameRequests

/-! ## The invariant -/

/-- Requests are matched once, and only known ones are dealt with. -/
structure Orderly (b : Broker) : Prop extends MatchedOnce b, Requested b

theorem start_orderly : Orderly .start :=
  { nodup := nodup_nil
    opened := fun _ h => by cases h
    once := fun _ => Nat.zero_le 1
    pending := fun _ h => by cases h
    told := fun _ h => absurd rfl h
    offered := fun _ _ h => by cases h }

variable {b : Broker}

theorem Orderly.same {b' : Broker} (h : Orderly b) (hsame : SameRequests b b') : Orderly b' := by
  have hknown : ∀ r, b.requests r ≠ none → b'.requests r ≠ none := fun r => mt (hsame.requests r).mp
  refine ⟨⟨?_, ?_, ?_⟩, ?_, ?_, ?_⟩
  · rw [hsame.pending]
    exact h.nodup
  · intro r hr
    rw [hsame.pending] at hr
    rw [hsame.outcomes]
    exact h.opened r hr
  · intro r
    rw [hsame.outcomes]
    exact h.once r
  · intro r hr
    rw [hsame.pending] at hr
    exact hknown r (h.pending r hr)
  · intro r hr
    rw [hsame.outcomes] at hr
    exact hknown r (h.told r hr)
  · intro t a' ha'
    rcases hsame.offered t a' ha' with hreq | ⟨a, ha, hreq⟩
    · exact hknown _ hreq
    · rw [← hreq]
      exact hknown _ (h.offered t a ha)

variable {r : RequestId}

theorem Orderly.push (h : Orderly b) (hknown : b.requests r ≠ none)
    (hpending : r ∉ b.pendingTaskRequests) (hopen : outcomes b r = []) :
    Orderly { b with pendingTaskRequests := b.pendingTaskRequests ++ [r] } := by
  refine ⟨⟨?_, ?_, h.once⟩, ?_, h.told, h.offered⟩
  · exact nodup_append.mpr ⟨h.nodup, nodup_singleton r, fun a ha b hb => by
        rintro rfl
        exact hpending (mem_singleton.mp hb ▸ ha)⟩
  · intro x hx
    rcases mem_append.mp hx with hx | hx
    · exact h.opened x hx
    · rw [mem_singleton.mp hx]
      exact hopen
  · intro x hx
    rcases mem_append.mp hx with hx | hx
    · exact h.pending x hx
    · rw [mem_singleton.mp hx]
      exact hknown

theorem Orderly.erase (h : Orderly b) (r : RequestId) (callbacks : List TaskId) :
    Orderly { b with
      pendingTaskRequests := b.pendingTaskRequests.erase r
      requesterAcceptRejects := callbacks } :=
  { nodup := h.nodup.erase r
    opened := fun x hx => h.opened x (mem_of_mem_erase hx)
    once := h.once
    pending := fun x hx => h.pending x (mem_of_mem_erase hx)
    told := h.told
    offered := h.offered }

theorem Orderly.tell (h : Orderly b) {q : RequesterId} {m : ToRequester}
    (hm : ∀ x, isOutcome x (.toRequester q m) = (r == x))
    (hknown : b.requests r ≠ none) (hgone : r ∉ b.pendingTaskRequests)
    (hopen : outcomes b r = []) : Orderly (b.messageRequester q m) := by
  unfold Broker.messageRequester
  split
  · have hout : ∀ x, outcomes
        { b with log := b.log ++ [.toRequester q m] } x
          = if r = x then outcomes b x ++ [.toRequester q m]
            else outcomes b x := by
      intro x
      rw [outcomes, filter_append]
      by_cases hx : r = x
      · rw [if_pos hx, filter_cons_of_pos (by rw [hm]; simpa using hx)]
        rfl
      · rw [if_neg hx, filter_cons_of_neg (by rw [hm]; simpa using hx), filter_nil, append_nil]
        rfl
    refine ⟨⟨h.nodup, ?_, ?_⟩, h.pending, ?_, h.offered⟩
    · intro x hx
      have hne : r ≠ x := by
        rintro rfl
        exact hgone hx
      rw [hout, if_neg hne]
      exact h.opened x hx
    · intro x
      rw [hout]
      split
      · next heq =>
        subst heq
        rw [hopen]
        exact Nat.le_refl 1
      · exact h.once x
    · intro x hx
      by_cases hrx : r = x
      · subst hrx
        exact hknown
      · rw [hout, if_neg hrx] at hx
        exact h.told x hx
  · exact h

theorem Orderly.close {c d : Broker} (h : Orderly b)
    (hmem : r ∈ b.pendingTaskRequests) (hsame : SameRequests b c)
    {callbacks : List TaskId}
    (hrest : SameRequests { c with
      pendingTaskRequests := c.pendingTaskRequests.erase r
      requesterAcceptRejects := callbacks } d)
    {q : RequesterId} {m : ToRequester}
    (hm : ∀ x, isOutcome x (.toRequester q m) = (r == x)) :
    Orderly (d.messageRequester q m) := by
  have hc := h.same hsame
  have hmemc : r ∈ c.pendingTaskRequests := by
    rw [hsame.pending]
    exact hmem
  have hd := (hc.erase r callbacks).same hrest
  refine hd.tell hm ?_ ?_ ?_
  · exact mt (hrest.requests r).mp (hc.pending r hmemc)
  · rw [hrest.pending]
    exact fun hin => (hc.nodup.mem_erase_iff.mp hin).1 rfl
  · rw [hrest.outcomes]
    exact hc.opened r hmemc

/-! ## The steps that touch the requests -/

theorem Orderly.taskRequested (h : Orderly b) (now : Nat)
    (request : TaskRequest) (hnew : b.requests r = none) :
    Orderly (b.taskRequested now r request) := by
  have hupdate : ∀ x, x ≠ r → Function.update b.requests r (some request) x = b.requests x :=
    fun x hx => Function.update_of_ne hx _ _
  have hknown : ∀ x, b.requests x ≠ none →
      Function.update b.requests r (some request) x ≠ none := by
    intro x hx
    by_cases hxr : x = r
    · subst hxr
      exact absurd hnew hx
    · rw [hupdate x hxr]
      exact hx
  have hstored : Orderly { b with
      requests := Function.update b.requests r (some request) } :=
    { h with
      pending := fun x hx => hknown x (h.pending x hx)
      told := fun x hx => hknown x (h.told x hx)
      offered := fun t a ha => hknown _ (h.offered t a ha) }
  have hpush := hstored.push (r := r)
    (by
      show Function.update b.requests r (some request) r ≠ none
      rw [Function.update_self]
      exact Option.some_ne_none _)
    (fun hmem => h.pending r hmem hnew)
    (by
      by_contra hout
      exact h.told r hout hnew)
  exact hpush.same (SameRequests.settleTasks _ now)

theorem Orderly.requestTimeout (h : Orderly b)
    (r : RequestId) : Orderly (b.handleRequestTimeout r) := by
  unfold Broker.handleRequestTimeout
  split
  · exact h
  · next request _ =>
    have hupdate := SameRequests.updateRequest b r fun request => { request with timeout := false }
    show Orderly (if r ∈ b.pendingTaskRequests then _ else _)
    split
    · next hmem =>
      exact h.close hmem hupdate (SameRequests.refl _) fun _ => rfl
    · exact h.same hupdate

theorem Orderly.offerAccepted (h : Orderly b) (t : TaskId)
    (a : AcceptOffer) : Orderly (b.offerAccepted t a) := by
  have hupdate := SameRequests.updateRequest b a.requestId
    fun request => { request with timeout := false }
  show Orderly (if a.requestId ∈ b.pendingTaskRequests then _ else _)
  split
  · next hmem =>
    refine h.close hmem (c := { b.updateRequest a.requestId
      (fun request => { request with timeout := false }) with
        tasks := b.tasks.set t
          { runnerId := a.offer.runnerId, requesterId := a.requesterId
            timeout := false } })
      (SameRequests.trans hupdate (SameRequests.of_eq rfl rfl rfl rfl))
      (SameRequests.setStage _ t .ready) fun _ => rfl
  · refine h.same (SameRequests.trans ?_ (SameRequests.setStage _ t _))
    refine SameRequests.trans hupdate ?_
    exact SameRequests.of_eq rfl rfl rfl rfl

theorem Orderly.offerDeferred (h : Orderly b) {t : TaskId}
    {a : AcceptOffer} (ha : b.acceptOffers t = some a)
    (hpending : a.requestId ∉ b.pendingTaskRequests)
    (hopen : outcomes b a.requestId = []) :
    Orderly (b.offerDeferred t a) := by
  have hupdate := SameRequests.updateRequest b a.requestId fun request =>
    { request with acceptInProgress := false, timeout := true }
  have hpush := (h.same hupdate).push (r := a.requestId)
    (mt (hupdate.requests _).mp (h.offered t a ha)) hpending hopen
  exact hpush.same (SameRequests.setStage _ t _)

theorem offerDeferred_breaks {t : TaskId} {a : AcceptOffer}
    (h : ¬ (a.requestId ∉ b.pendingTaskRequests ∧ outcomes b a.requestId = [])) :
    ¬ MatchedOnce (b.offerDeferred t a) := by
  intro hmatched
  refine h ⟨?_, ?_⟩
  · intro hmem
    have hnodup := hmatched.nodup
    exact (nodup_append.mp hnodup).2.2 _ hmem _ (mem_singleton_self _) rfl
  · exact hmatched.opened a.requestId (mem_append_right _ (mem_singleton_self _))

/-! ## Runs -/

/-- A deferral only takes effect for a request that is neither pending nor
    closed. -/
def DefersOpen (b : Broker) : Event → Prop
  | .resumeAcceptOffer t false =>
    ∀ a, b.acceptOffers t = some a → a.stage = .offering → a.runnerReply = some .deferred →
      a.requestId ∉ b.pendingTaskRequests ∧ outcomes b a.requestId = []
  | _ => True

section

variable {config : TaskRunnersConfig} {b b' : Broker} {e : Event}

/-- Letting an `acceptOffer` call go on leaves the requests alone, unless
    the runner has just accepted or deferred the task. -/
theorem resumeAcceptOffer_cases (b : Broker) (t : TaskId) (rejected : Bool) :
    SameRequests b (b.resumeAcceptOffer t rejected)
      ∨ ∃ a, b.acceptOffers t = some a ∧ a.stage = .offering
          ∧ rejected = false
          ∧ ((a.runnerReply = some .accepted
              ∧ b.resumeAcceptOffer t rejected = b.offerAccepted t a)
            ∨ (a.runnerReply = some .deferred
              ∧ b.resumeAcceptOffer t rejected = b.offerDeferred t a)) := by
  rcases ha : b.acceptOffers t with _ | a
  · left
    rw [Broker.resumeAcceptOffer, ha]
    exact SameRequests.refl b
  rcases hstage : a.stage with _ | _ | settings | _ | _ | _ | _
  · -- the offer: only two of the answers change the list of requests
    cases rejected with
    | true =>
      left
      simp only [Broker.resumeAcceptOffer, ha, hstage, if_true]
      exact SameRequests.offerFailed b t a
    | false =>
      rcases hreply : a.runnerReply with _ | reply
      · left
        simp only [Broker.resumeAcceptOffer, ha, hstage, hreply]
        exact SameRequests.refl b
      · cases reply with
        | accepted =>
          refine Or.inr ⟨a, rfl, hstage, rfl, Or.inl ⟨hreply, ?_⟩⟩
          simp only [Broker.resumeAcceptOffer, ha, hstage, hreply]
          rfl
        | deferred =>
          refine Or.inr ⟨a, rfl, hstage, rfl, Or.inr ⟨hreply, ?_⟩⟩
          simp only [Broker.resumeAcceptOffer, ha, hstage, hreply]
          rfl
        | rejected reason =>
          left
          simp only [Broker.resumeAcceptOffer, ha, hstage, hreply]
          exact SameRequests.offerFailed b t a
        | timedOut =>
          left
          simp only [Broker.resumeAcceptOffer, ha, hstage, hreply]
          exact SameRequests.offerFailed b t a
  all_goals left
  · simp only [Broker.resumeAcceptOffer, ha, hstage]
    split
    · exact SameRequests.cancelAccepted b t _
    · split
      · exact SameRequests.refl b
      · exact SameRequests.prepareSettings b t _
      · exact SameRequests.cancelAccepted b t _
      · exact SameRequests.cancelAccepted b t _
  · simp only [Broker.resumeAcceptOffer, ha, hstage]
    exact SameRequests.sendTaskSettings b t a settings
  · simp only [Broker.resumeAcceptOffer, ha, hstage]
    split
    · exact SameRequests.cancelAccepted b t _
    · exact SameRequests.setStage b t _
  · simp only [Broker.resumeAcceptOffer, ha, hstage]
    exact SameRequests.cancelAccepted b t _
  · simp only [Broker.resumeAcceptOffer, ha, hstage]
    exact SameRequests.setStage b t _
  · simp only [Broker.resumeAcceptOffer, ha, hstage]
    exact SameRequests.refl b

theorem runnerMessage_same (now : Nat) (runnerId : RunnerId) (m : FromRunner) :
    SameRequests b (b.onRunnerMessage now runnerId m) := by
  unfold Broker.onRunnerMessage
  split
  · cases m with
    | taskAccepted t => exact SameRequests.answerRunnerPromise b t fun _ => rfl
    | taskRejected t _ => exact SameRequests.answerRunnerPromise b t fun _ => rfl
    | taskDeferred t => exact SameRequests.answerRunnerPromise b t fun _ => rfl
    | taskOffer _ _ _ => exact SameRequests.taskOffered b now _
    | taskDone t _ => exact SameRequests.finishTask b t fun _ _ => rfl
    | taskError t _ => exact SameRequests.finishTask b t fun _ _ => rfl
    | question kind t id => exact SameRequests.handleQuestion b kind t id
  · exact SameRequests.refl b

/-- One step keeps the requests in order unless it defers wrongly. -/
theorem step_orderly (h : Orderly b) (hst : Step config b e b')
    (hdefers : DefersOpen b e) : Orderly b' := by
  obtain ⟨hpossible, rfl⟩ := hst
  cases e with
  | registerRunner runnerId =>
    refine h.same (SameRequests.trans ?_ (SameRequests.messageRunner _ _ _))
    exact SameRequests.of_eq rfl rfl rfl rfl
  | deregisterRunner runnerId error =>
    exact h.same (SameRequests.deregisterRunner b runnerId error)
  | registerRequester _ => exact h.same (SameRequests.of_eq rfl rfl rfl rfl)
  | deregisterRequester _ => exact h.same (SameRequests.of_eq rfl rfl rfl rfl)
  | runnerMessage now runnerId m => exact h.same (runnerMessage_same now runnerId m)
  | requesterMessage now q m =>
    cases m with
    | taskSettings t settings => exact h.same (SameRequests.answerRequesterPromise b t _)
    | taskCancel t reason => exact h.same (SameRequests.cancelTask b t reason)
    | taskRequest r taskType => exact h.taskRequested now _ hpossible
    | response kind t id data =>
      exact h.same (SameRequests.handleRequesterResponse b kind t id data)
  | requesterReject t reason => exact h.same (SameRequests.answerRequesterPromise b t _)
  | requestTimeout r => exact h.requestTimeout r
  | runnerAcceptTimeout t => exact h.same (SameRequests.updateAccept b t fun _ => rfl)
  | requesterAcceptTimeout t => exact h.same (SameRequests.updateAccept b t fun _ => rfl)
  | taskTimeout t => exact h.same (SameRequests.handleTaskTimeout config b t)
  | resumeAcceptOffer t rejected =>
    show Orderly (b.resumeAcceptOffer t rejected)
    rcases resumeAcceptOffer_cases b t rejected with
      hsame | ⟨a, ha, hstage, rfl, ⟨hreply, heq⟩ | ⟨hreply, heq⟩⟩
    · exact h.same hsame
    · rw [heq]
      exact h.offerAccepted t a
    · rw [heq]
      obtain ⟨hpending, hopen⟩ := hdefers a ha hstage hreply
      exact h.offerDeferred ha hpending hopen
  | resumeHandler f => exact h.same (SameRequests.of_eq rfl rfl rfl rfl)
  | resumeTaskTimeout t =>
    refine h.same (SameRequests.trans ?_ (SameRequests.finishTask _ t fun _ _ => rfl))
    exact SameRequests.of_eq rfl rfl rfl rfl
  | resumeResponse r =>
    refine h.same (SameRequests.trans ?_ (SameRequests.messageRunner _ _ _))
    exact SameRequests.of_eq rfl rfl rfl rfl

theorem step_breaks (hst : Step config b e b') (hdefers : ¬ DefersOpen b e) : ¬ MatchedOnce b' := by
  obtain ⟨-, rfl⟩ := hst
  cases e with
  | resumeAcceptOffer t rejected =>
    cases rejected with
    | true => exact absurd trivial hdefers
    | false =>
      simp only [DefersOpen, Classical.not_forall] at hdefers
      obtain ⟨a, ha, hstage, hreply, hbad⟩ := hdefers
      have heq : b.resumeAcceptOffer t false = b.offerDeferred t a := by
        simp only [Broker.resumeAcceptOffer, ha, hstage, hreply]
        rfl
      show ¬ MatchedOnce (b.resumeAcceptOffer t false)
      rw [heq]
      exact offerDeferred_breaks hbad
  | _ => exact absurd trivial hdefers

/-- **EXACTLY ONE MATCH**: along a run the requests are matched once exactly
    when no deferral takes effect for a request that is still pending or
    already closed. -/
theorem matchedOnce_iff_defersOpen (config : TaskRunnersConfig) {path : List (Event × Broker)}
    (hrun : IsRun (Step config) .start path) :
    EveryState MatchedOnce .start path ↔ EveryStep DefersOpen .start path :=
  everyState_iff_everyStep hrun start_orderly (fun _ h => h.toMatchedOnce)
    (fun _ _ _ h hst hdefers => step_orderly h hst hdefers)
    (fun _ _ _ _ hst hdefers => step_breaks hst hdefers)

end

/-! ## Two runs -/

/-- The runner rejects the task first and accepts it with its next offer. -/
theorem matchedOnce_of_reject :
    EveryState MatchedOnce .start
      (pathOf (Broker.perform internalRunners) .start
        (requestAndOffer ++
          [.runnerMessage 0 "runner" (.taskRejected 0 "at capacity"), .resumeAcceptOffer 0 false,
            .runnerMessage 0 "runner" (.taskOffer "offer2" "javascript" none),
            .runnerMessage 0 "runner" (.taskAccepted 1), .resumeAcceptOffer 1 false])) := by
  refine (matchedOnce_iff_defersOpen internalRunners ?_).mpr ?_
  · refine ⟨⟨trivial, rfl⟩, ⟨trivial, rfl⟩, ⟨rfl, rfl⟩, ⟨trivial, rfl⟩,
      ⟨trivial, rfl⟩, ⟨⟨_, rfl, ?_, ?_⟩, rfl⟩, ⟨trivial, rfl⟩,
      ⟨trivial, rfl⟩, ⟨⟨_, rfl, ?_, ?_⟩, rfl⟩, trivial⟩ <;> decide
  · refine ⟨trivial, trivial, trivial, trivial, trivial, ?_, trivial,
      trivial, ?_, trivial⟩
    · rintro a ha - hreply
      cases ha
      cases hreply
    · rintro a ha - hreply
      cases ha
      cases hreply

/-- The runner defers the task and accepts it with its next offer: the
    request is pending twice, and once more after its task is ready. -/
theorem deferral_duplicates :
    ∃ path, path = pathOf (Broker.perform internalRunners) .start
        (requestAndOffer ++
          [.runnerMessage 0 "runner" (.taskDeferred 0), .resumeAcceptOffer 0 false,
            .runnerMessage 0 "runner" (.taskOffer "offer2" "javascript" none),
            .runnerMessage 0 "runner" (.taskAccepted 1), .resumeAcceptOffer 1 false])
      ∧ IsRun (Step internalRunners) .start path
      ∧ (lastState .start (path.take 6)).pendingTaskRequests = ["request", "request"]
      ∧ (lastState .start path).pendingTaskRequests = ["request"]
      ∧ outcomes (lastState .start path) "request"
        = [.toRequester "requester" (.taskReady "request" 1)]
      ∧ ¬ EveryState MatchedOnce .start path := by
  refine ⟨_, rfl, ?_, by decide, by decide, by decide, ?_⟩
  · refine ⟨⟨trivial, rfl⟩, ⟨trivial, rfl⟩, ⟨rfl, rfl⟩, ⟨trivial, rfl⟩,
      ⟨trivial, rfl⟩, ⟨⟨_, rfl, ?_, ?_⟩, rfl⟩, ⟨trivial, rfl⟩,
      ⟨trivial, rfl⟩, ⟨⟨_, rfl, ?_, ?_⟩, rfl⟩, trivial⟩ <;> decide
  · intro hall
    have hopened := hall.last.opened "request" (by decide)
    exact absurd hopened (by decide)

end N8nTaskRequest
