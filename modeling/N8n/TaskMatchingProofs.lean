import N8n.FirstOfEachProofs
import N8n.TaskBrokerProofs

/-! # Task matching — first come, first served, and nothing left over

    `settleTasks` goes through the pending requests in their order and hands
    each the first offer of its type.  For the offers and the requests of one
    type this is a zip of the two lists (`filter_serve`), whatever the other
    types do; everything the matching is to be follows from that.

    A request object may stand in the list twice.  It is served at its first
    place, or at none: where no offer was left for it there is none left
    later. -/

namespace N8nTaskMatching

open N8nTaskBroker N8nFirstOfEach List

/-! ## Serving requests of several types -/

section

variable {O Q T : Type} [DecidableEq T] (offerType : O → T) (requestType : Q → T)

/-- Who got which offer, and the offers that are left. -/
def serve : List Q → List O → List (O × Q) × List O
  | [], offers => ([], offers)
  | q :: qs, offers =>
    match offers.find? fun o => offerType o = requestType q with
    | none => serve qs offers
    | some offer =>
      let rest := offers.eraseP fun o => offerType o = requestType q
      ((offer, q) :: (serve qs rest).1, (serve qs rest).2)

attribute [local simp] serve

variable {offers : List O}

theorem filter_of_find? {p : O → Bool} {offer : O} (h : offers.find? p = some offer) :
    offers.filter p = offer :: (offers.eraseP p).filter p := by
  induction offers with
  | nil => cases h
  | cons o offers ih =>
    by_cases ho : p o
    · rw [find?_cons_of_pos ho] at h
      cases h
      rw [filter_cons_of_pos ho, eraseP_cons_of_pos ho]
    · rw [find?_cons_of_neg ho] at h
      rw [filter_cons_of_neg ho, eraseP_cons_of_neg ho, filter_cons_of_neg ho, ih h]

theorem filter_eraseP_of_disjoint {p p' : O → Bool} (h : ∀ o, p' o = true → ¬ p o = true) :
    (offers.eraseP p).filter p' = offers.filter p' := by
  induction offers with
  | nil => rfl
  | cons o offers ih =>
    by_cases ho : p o
    · rw [eraseP_cons_of_pos ho, filter_cons_of_neg fun ho' => h o ho' ho]
    · rw [eraseP_cons_of_neg ho, filter_cons, filter_cons, ih]

theorem perm_of_find? {p : O → Bool} {offer : O} (h : offers.find? p = some offer) :
    offers.Perm (offer :: offers.eraseP p) := by
  induction offers with
  | nil => cases h
  | cons o offers ih =>
    by_cases ho : p o
    · rw [find?_cons_of_pos ho] at h
      cases h
      rw [eraseP_cons_of_pos ho]
    · rw [find?_cons_of_neg ho] at h
      rw [eraseP_cons_of_neg ho]
      exact ((ih h).cons o).trans (List.Perm.swap ..)

/-- **TYPE BY TYPE**: the offers of a type are handed out in their order to
    the requests of the type in theirs. -/
theorem filter_serve (t : T) (qs : List Q) (offers : List O) :
    (serve offerType requestType qs offers).1.filter (fun p => offerType p.1 = t)
      = List.zip (offers.filter fun o => offerType o = t)
          (qs.filter fun q => requestType q = t) := by
  induction qs generalizing offers with
  | nil => rw [serve, filter_nil, filter_nil, zip_nil_right]
  | cons q qs ih =>
    rw [serve]
    rcases hfind : offers.find? fun o => offerType o = requestType q with _ | offer
    · rw [ih]
      by_cases hq : requestType q = t
      · have hnone : offers.filter (fun o => offerType o = t) = [] := by
          rw [← hq]
          exact filter_eq_nil_iff.mpr (find?_eq_none.mp hfind)
        rw [hnone, zip_nil_left, zip_nil_left]
      · rw [filter_cons_of_neg (by simpa using hq)]
    · have hoffer : offerType offer = requestType q := by
        simpa using find?_some hfind
      by_cases hq : requestType q = t
      · subst hq
        rw [filter_cons_of_pos (by simpa using hoffer), filter_of_find? hfind,
          filter_cons_of_pos (by simp), zip_cons_cons, ih]
      · have hdisjoint : ∀ o, (decide (offerType o = t)) = true →
            ¬ (decide (offerType o = requestType q)) = true := by
          intro o ho ho'
          exact hq ((of_decide_eq_true ho').symm.trans (of_decide_eq_true ho))
        rw [filter_cons_of_neg (by rw [hoffer]; simpa using hq),
          filter_cons_of_neg (by simpa using hq), ih, filter_eraseP_of_disjoint hdisjoint]

theorem serve_perm (qs : List Q) (offers : List O) :
    offers.Perm ((serve offerType requestType qs offers).1.map Prod.fst
      ++ (serve offerType requestType qs offers).2) := by
  induction qs generalizing offers with
  | nil => exact List.Perm.refl _
  | cons q qs ih =>
    rw [serve]
    rcases hfind : offers.find? fun o => offerType o = requestType q with _ | offer
    · exact ih offers
    · exact (perm_of_find? hfind).trans ((ih _).cons offer)

theorem serve_types {qs : List Q} :
    ∀ p ∈ (serve offerType requestType qs offers).1, offerType p.1 = requestType p.2 := by
  induction qs generalizing offers with
  | nil => exact fun p hp => absurd hp not_mem_nil
  | cons q qs ih =>
    rw [serve]
    rcases hfind : offers.find? fun o => offerType o = requestType q with _ | offer
    · exact ih
    · intro p hp
      rcases mem_cons.mp hp with rfl | hp
      · simpa using find?_some hfind
      · exact ih p hp

theorem serve_sublist (qs : List Q) (offers : List O) :
    ((serve offerType requestType qs offers).1.map Prod.snd).Sublist qs := by
  induction qs generalizing offers with
  | nil => exact List.Sublist.refl _
  | cons q qs ih =>
    rw [serve]
    rcases hfind : offers.find? fun o => offerType o = requestType q with _ | offer
    · exact (ih offers).cons q
    · exact (ih _).cons_cons q

/-- **NOTHING LEFT OVER**: a request whose type still has an offer was
    served. -/
theorem mem_serve {qs : List Q} {q : Q} (hq : q ∈ qs)
    {o : O} (ho : o ∈ (serve offerType requestType qs offers).2)
    (htype : offerType o = requestType q) :
    q ∈ (serve offerType requestType qs offers).1.map Prod.snd := by
  induction qs generalizing offers with
  | nil => cases hq
  | cons r qs ih =>
    rw [serve] at ho ⊢
    rcases hfind : offers.find? fun o => offerType o = requestType r with _ | offer
    · rw [hfind] at ho
      rcases mem_cons.mp hq with rfl | hq
      · -- what is left was there before
        have hold : o ∈ offers :=
          (serve_perm offerType requestType qs offers).mem_iff.mpr (mem_append_right _ ho)
        have hnot := find?_eq_none.mp hfind o hold
        exact absurd (decide_eq_true htype) hnot
      · exact ih hq ho
    · rw [hfind] at ho
      rcases mem_cons.mp hq with rfl | hq
      · exact mem_cons_self ..
      · exact mem_cons_of_mem _ (ih hq ho)

theorem serve_filter {qs : List Q} {p : Q → Bool}
    (h : ∀ q ∈ qs, p q = false → ∀ o ∈ offers, offerType o ≠ requestType q) :
    serve offerType requestType (qs.filter p) offers = serve offerType requestType qs offers := by
  induction qs generalizing offers with
  | nil => rfl
  | cons q qs ih =>
    have hrest : ∀ q ∈ qs, p q = false → ∀ o ∈ offers, offerType o ≠ requestType q :=
      fun q hq => h q (mem_cons_of_mem _ hq)
    by_cases hp : p q
    · rw [filter_cons_of_pos hp, serve, serve]
      rcases hfind : offers.find? fun o => offerType o = requestType q with _ | offer
      · exact ih hrest
      · have hfewer : serve offerType requestType (qs.filter p)
              (offers.eraseP fun o => offerType o = requestType q)
            = serve offerType requestType qs (offers.eraseP fun o => offerType o = requestType q) :=
          ih fun r hr hpr o ho =>
            hrest r hr hpr o (mem_of_mem_eraseP ho)
        dsimp only
        rw [hfewer]
    · have hnone : (offers.find? fun o => offerType o = requestType q)
          = none := by
        refine find?_eq_none.mpr fun o ho heq => ?_
        exact h q (mem_cons_self ..) (Bool.eq_false_iff.mpr hp) o ho (of_decide_eq_true heq)
      rw [filter_cons_of_neg hp, serve, hnone]
      exact ih hrest

end

/-! ## The requests that wait -/

/-- `!request.acceptInProgress` -/
def waiting (b : Broker) (requestId : RequestId) : Bool :=
  match b.requests requestId with
  | none => false
  | some request => !request.acceptInProgress

def requestType (b : Broker) (requestId : RequestId) : Option String :=
  (b.requests requestId).map TaskRequest.taskType

def offerType (offer : TaskOffer) : Option String := some offer.taskType

/-- Those of `requestIds` that may be matched, each once. -/
def eligible (b : Broker) (requestIds : List RequestId) : List RequestId :=
  (requestIds.filter (waiting b)).eraseDups

/-- What the loop over `requestIds` matches. -/
def matching (b : Broker) (requestIds : List RequestId) :
    List (TaskOffer × RequestId) × List TaskOffer :=
  serve offerType (requestType b) (eligible b requestIds) b.pendingTaskOffers

/-- The `acceptOffer` calls that were made between `b` and `b'`. -/
def callsMade (b b' : Broker) : List AcceptOffer :=
  (List.range' b.nextTaskId (b'.nextTaskId - b.nextTaskId)).filterMap b'.acceptOffers

/-- An offer `expireTasks` throws out. -/
def expired (now : Nat) (offer : TaskOffer) : Bool :=
  match offer.validUntil with
  | some validUntil => validUntil < now
  | none => false

/-! ## The loop refines the matching -/

/-- `b'` is `b` after `matched` were taken out, with `rest` left over. -/
structure Settled (b b' : Broker) (matched : List (TaskOffer × RequestId))
    (rest : List TaskOffer) : Prop where
  offers : b'.pendingTaskOffers = rest
  pending : b'.pendingTaskRequests = b.pendingTaskRequests
  nextTaskId : b'.nextTaskId = b.nextTaskId + matched.length
  calls : (callsMade b b').map (fun a => (a.offer, a.requestId)) = matched
  earlier : ∀ t < b.nextTaskId, b'.acceptOffers t = b.acceptOffers t
  types : requestType b' = requestType b
  waits : ∀ r, waiting b' r = (waiting b r && !decide (r ∈ matched.map Prod.snd))

theorem Settled.refl (b : Broker) : Settled b b [] b.pendingTaskOffers where
  offers := rfl
  pending := rfl
  nextTaskId := rfl
  calls := by
    rw [callsMade, Nat.sub_self]
    rfl
  earlier := fun _ _ => rfl
  types := rfl
  waits := fun r => (Bool.and_true _).symm

theorem range'_sub_append {i j k m n : Nat} (hj : j = i + m) (hk : k = j + n) :
    List.range' i (k - i) = List.range' i (j - i) ++ List.range' j (k - j) := by
  have hlength : k - i = j - i + (k - j) := by omega
  have hstart : i + (j - i) = j := by omega
  rw [hlength, ← range'_append_1, hstart]

theorem lt_of_mem_range'_sub {i j m t : Nat} (hj : j = i + m)
    (h : t ∈ List.range' i (j - i)) : t < j := by
  rw [mem_range'_1] at h
  omega

variable {b : Broker}

theorem Settled.trans {b₁ b' : Broker} {m m' : List (TaskOffer × RequestId)}
    {rest rest' : List TaskOffer} (h₁ : Settled b b₁ m rest)
    (h : Settled b₁ b' m' rest') : Settled b b' (m ++ m') rest' where
  offers := h.offers
  pending := h.pending.trans h₁.pending
  nextTaskId := by
    rw [h.nextTaskId, h₁.nextTaskId, length_append, Nat.add_assoc]
  calls := by
    have hsplit := range'_sub_append h₁.nextTaskId h.nextTaskId
    have hkept : (List.range' b.nextTaskId (b₁.nextTaskId - b.nextTaskId)).filterMap b'.acceptOffers
        = callsMade b b₁ := by
      refine filterMap_congr fun t ht => h.earlier t ?_
      exact lt_of_mem_range'_sub h₁.nextTaskId ht
    rw [callsMade, hsplit, filterMap_append, hkept, map_append, h₁.calls]
    exact congrArg _ h.calls
  earlier := fun t ht => by
    have ht₁ : t < b₁.nextTaskId := by
      rw [h₁.nextTaskId]
      exact Nat.lt_add_right _ ht
    rw [h.earlier t ht₁, h₁.earlier t ht]
  types := h.types.trans h₁.types
  waits := fun r => by
    rw [h.waits r, h₁.waits r, map_append]
    simp only [mem_append, Bool.decide_or, Bool.not_or, Bool.and_assoc]

variable {r : RequestId}

theorem waiting_eq_true (h : waiting b r = true) :
    ∃ request, b.requests r = some request ∧ request.acceptInProgress = false := by
  unfold waiting at h
  rcases hr : b.requests r with _ | request
  · rw [hr] at h
    cases h
  · rw [hr] at h
    exact ⟨request, rfl, by simpa using h⟩

theorem settleRequest_of_not_waiting (h : waiting b r = false) : b.settleRequest r = b := by
  unfold waiting at h
  rw [Broker.settleRequest]
  rcases hr : b.requests r with _ | request
  · rfl
  · rw [hr] at h
    exact if_pos (by simpa using h)

theorem settleRequest_of_no_offer
    (hnone : (b.pendingTaskOffers.find? fun o => offerType o = requestType b r) = none) :
    b.settleRequest r = b := by
  rw [Broker.settleRequest]
  rcases hr : b.requests r with _ | request
  · rfl
  · dsimp only
    split
    · rfl
    · have hfind : (b.pendingTaskOffers.find? fun o => o.taskType = request.taskType) = none := by
        simpa [offerType, requestType, hr] using hnone
      rw [hfind]

theorem messageRunner_eq (runnerId : RunnerId) (message : ToRunner) :
    ∃ log, b.messageRunner runnerId message = { b with log } := by
  by_cases hknown : runnerId ∈ b.knownRunners
  · exact ⟨_, if_pos hknown⟩
  · exact ⟨b.log, if_neg hknown⟩

/-- A waiting request takes the first offer of its type. -/
theorem settleRequest_of_offer {offer : TaskOffer} (hwaiting : waiting b r = true)
    (hfind : (b.pendingTaskOffers.find? fun o => offerType o = requestType b r) = some offer) :
    Settled b (b.settleRequest r) [(offer, r)]
      (b.pendingTaskOffers.eraseP fun o => offerType o = requestType b r) := by
  obtain ⟨request, hr, hidle⟩ := waiting_eq_true hwaiting
  have htype : ∀ o : TaskOffer, (offerType o = requestType b r)
      ↔ o.taskType = request.taskType := by
    intro o
    rw [offerType, requestType, hr]
    exact Option.some_inj
  simp only [htype] at hfind ⊢
  have hstep : b.settleRequest r
      = Broker.acceptOffer
          { b.updateRequest r
              fun request => { request with acceptInProgress := true } with
            pendingTaskOffers := b.pendingTaskOffers.eraseP
              fun o => o.taskType = request.taskType }
          offer r request.requesterId := by
    rw [Broker.settleRequest, hr]
    dsimp only
    rw [hidle, hfind]
    rfl
  rw [hstep, Broker.acceptOffer]
  obtain ⟨log, hlog⟩ := messageRunner_eq offer.runnerId _
  rw [hlog]
  exact
    { offers := rfl
      pending := rfl
      nextTaskId := rfl
      calls := by
        have hone : List.range' b.nextTaskId
            (b.nextTaskId + 1 - b.nextTaskId) = [b.nextTaskId] := by
          rw [Nat.add_sub_cancel_left]
          rfl
        rw [callsMade]
        dsimp only [Broker.updateRequest]
        rw [hone, filterMap_cons, Function.update_self]
        rfl
      earlier := fun t ht =>
        Function.update_of_ne (Nat.ne_of_lt ht) ..
      types := by
        funext x
        by_cases hx : x = r
        · subst hx
          simp [requestType, Broker.updateRequest, hr]
        · simp [requestType, Broker.updateRequest, hx]
      waits := fun x => by
        by_cases hx : x = r
        · subst hx
          simp [waiting, Broker.updateRequest, hr]
        · simp [waiting, Broker.updateRequest, hx] }

/-- **THE LOOP REFINES THE MATCHING**: it calls `acceptOffer` for the pairs
    of `matching`, in their order. -/
theorem foldl_settleRequest (l : List RequestId) (b : Broker) :
    Settled b (l.foldl Broker.settleRequest b) (matching b l).1 (matching b l).2 := by
  induction l generalizing b with
  | nil => exact Settled.refl b
  | cons r l ih =>
    rw [foldl_cons]
    by_cases hwaiting : waiting b r
    · have hcons : eligible b (r :: l)
          = r :: (eligible b l).filter fun x => !x == r := by
        rw [eligible, filter_cons_of_pos hwaiting, eraseDups_cons, eraseDups_filter, eligible]
      rcases hfind : b.pendingTaskOffers.find?
          (fun o => offerType o = requestType b r) with _ | offer
      · -- no offer now, and none when the request comes up again
        have hsame : matching b (r :: l) = matching b l := by
          rw [matching, hcons, serve, hfind]
          refine serve_filter _ _ fun x _ hx o ho heq => ?_
          have hxr : x = r := by simpa using hx
          rw [hxr] at heq
          exact find?_eq_none.mp hfind o ho (decide_eq_true heq)
        rw [hsame, settleRequest_of_no_offer hfind]
        exact ih b
      · have hstep := settleRequest_of_offer hwaiting hfind
        have heligible : eligible (b.settleRequest r) l
            = (eligible b l).filter fun x => !x == r := by
          rw [eligible, eligible, ← eraseDups_filter, filter_filter]
          congr 1
          refine filter_congr fun x _ => ?_
          rw [hstep.waits x, Bool.and_comm]
          by_cases hx : x = r
          · simp [hx]
          · simp [hx]
        have hmatching : matching b (r :: l)
            = ((offer, r) :: (matching (b.settleRequest r) l).1,
              (matching (b.settleRequest r) l).2) := by
          rw [matching, hcons, serve, hfind, matching, heligible, hstep.types, hstep.offers]
        rw [hmatching]
        exact hstep.trans (ih (b.settleRequest r))
    · have hnot : waiting b r = false := Bool.eq_false_iff.mpr hwaiting
      have hsame : matching b (r :: l) = matching b l := by
        rw [matching, eligible, filter_cons_of_neg hwaiting]
        rfl
      rw [hsame, settleRequest_of_not_waiting hnot]
      exact ih b

/-! ## `settleTasks` -/

theorem pendingTaskOffers_expireTasks (b : Broker) (now : Nat) :
    (b.expireTasks now).pendingTaskOffers
      = b.pendingTaskOffers.filter fun offer => !expired now offer := by
  refine filter_congr fun offer _ => ?_
  unfold expired
  rcases offer.validUntil with _ | validUntil
  · rfl
  · rfl

theorem matching_nodup (b : Broker) (l : List RequestId) : ((matching b l).1.map Prod.snd).Nodup :=
  (serve_sublist ..).nodup (nodup_eraseDups _)

theorem map_snd_zip_prefix {O Q : Type} (l : List O) (l' : List Q) :
    (l.zip l').map Prod.snd <+: l' := by
  induction l generalizing l' with
  | nil =>
    exact List.nil_prefix
  | cons a l ih =>
    cases l' with
    | nil => exact prefix_rfl
    | cons b l' =>
      exact prefix_cons_inj b |>.mpr (ih l')

theorem matching_prefix (b : Broker) (l : List RequestId) (taskType : String) :
    (((matching b l).1.filter fun p => offerType p.1 = some taskType).map Prod.snd)
      <+: (l.filter fun r =>
        requestType b r = some taskType && waiting b r).eraseDups := by
  rw [matching, filter_serve, eligible, ← eraseDups_filter, filter_filter]
  exact map_snd_zip_prefix ..

/-- **NOTHING MATCHABLE IS LEFT**: after `settleTasks` no offer is left that
    has expired or is of the type of a request that waits; the offers that
    had not expired are those handed out and those left; the requests served
    are different ones, of their offers' types, and the first ones among
    those that wait for the type.  The others wait on. -/
theorem settleTasks_maximal (b : Broker) (now : Nat) :
    let b' := b.settleTasks now
    let made := callsMade b b'
    (∀ offer ∈ b'.pendingTaskOffers, expired now offer = false
      ∧ ∀ r ∈ b'.pendingTaskRequests, waiting b' r = true → requestType b' r ≠ some offer.taskType)
      ∧ (b.pendingTaskOffers.filter fun offer => !expired now offer).Perm
          (made.map AcceptOffer.offer ++ b'.pendingTaskOffers)
      ∧ (∀ a ∈ made, expired now a.offer = false
          ∧ requestType b a.requestId = some a.offer.taskType)
      ∧ (made.map AcceptOffer.requestId).Nodup
      ∧ (∀ taskType, ((made.filter fun a => a.offer.taskType = taskType).map AcceptOffer.requestId)
          <+: (b.pendingTaskRequests.filter fun r =>
            requestType b r = some taskType && waiting b r).eraseDups)
      ∧ b'.pendingTaskRequests = b.pendingTaskRequests
      ∧ ∀ r, waiting b' r = (waiting b r && !decide (r ∈ made.map AcceptOffer.requestId)) := by
  intro b' made
  have h : Settled (b.expireTasks now) b' (matching (b.expireTasks now) b.pendingTaskRequests).1
      (matching (b.expireTasks now) b.pendingTaskRequests).2 :=
    foldl_settleRequest b.pendingTaskRequests (b.expireTasks now)
  have hmade : made.map (fun a => (a.offer, a.requestId))
      = (matching (b.expireTasks now) b.pendingTaskRequests).1 := h.calls
  have hoffers : made.map AcceptOffer.offer
      = (matching (b.expireTasks now) b.pendingTaskRequests).1.map Prod.fst := by
    rw [← hmade, map_map]
    rfl
  have hids : made.map AcceptOffer.requestId
      = (matching (b.expireTasks now) b.pendingTaskRequests).1.map Prod.snd := by
    rw [← hmade, map_map]
    rfl
  have hperm : (b.pendingTaskOffers.filter fun offer =>
      !expired now offer).Perm (made.map AcceptOffer.offer ++ b'.pendingTaskOffers) := by
    rw [← pendingTaskOffers_expireTasks, hoffers, h.offers]
    exact serve_perm ..
  have hfresh : ∀ offer ∈ made.map AcceptOffer.offer ++ b'.pendingTaskOffers,
      expired now offer = false := by
    intro offer hoffer
    have hmem := (mem_filter.mp (hperm.mem_iff.mpr hoffer)).2
    simpa using hmem
  refine ⟨fun offer hoffer => ⟨hfresh offer (mem_append_right _ hoffer),
      fun r hr hwaiting htype => ?_⟩, hperm, fun a ha => ⟨?_, ?_⟩, ?_,
    fun taskType => ?_, h.pending, fun r => ?_⟩
  · -- a request that waits was eligible, and so it was served
    have hwas := h.waits r
    rw [hwaiting] at hwas
    obtain ⟨hold, hunserved⟩ := Bool.and_eq_true_iff.mp hwas.symm
    have heligible : r ∈ eligible (b.expireTasks now) b.pendingTaskRequests := by
      rw [eligible, mem_eraseDups, mem_filter]
      exact ⟨h.pending ▸ hr, hold⟩
    have hoffer' : offer ∈ (matching (b.expireTasks now) b.pendingTaskRequests).2 :=
      h.offers ▸ hoffer
    have htype' : offerType offer = requestType (b.expireTasks now) r := by
      rw [← h.types, htype]
      rfl
    have hserved : r ∈ (matching (b.expireTasks now) b.pendingTaskRequests).1.map Prod.snd :=
      mem_serve _ _ heligible hoffer' htype'
    rw [decide_eq_true hserved] at hunserved
    cases hunserved
  · exact hfresh a.offer (mem_append_left _ (mem_map_of_mem ha))
  · have hpair : (a.offer, a.requestId) ∈ (matching (b.expireTasks now) b.pendingTaskRequests).1 :=
      hmade ▸ mem_map_of_mem (f := fun a => (a.offer, a.requestId)) ha
    exact (serve_types _ _ _ hpair).symm
  · rw [hids]
    exact matching_nodup ..
  · have hprefix := matching_prefix (b.expireTasks now) b.pendingTaskRequests taskType
    rw [← hmade, filter_map, map_map] at hprefix
    have hsame : (made.filter ((fun p : TaskOffer × RequestId =>
          decide (offerType p.1 = some taskType))
          ∘ fun a => (a.offer, a.requestId)))
        = made.filter fun a => a.offer.taskType = taskType := by
      refine filter_congr fun a _ => ?_
      simp [offerType]
    rw [hsame] at hprefix
    exact hprefix
  · rw [hids]
    exact h.waits r

end N8nTaskMatching
