import N8n.WebhookOwnershipProofs

/-! # Webhook routing — the best match, and its methods

    `findDynamicWebhook` asks for webhooks all of whose static segments occur
    in the path of the request, at whatever place, and takes the first of
    those with the most static segments (`findDynamicWebhook_bestOf`).  The
    parameters are read by position afterwards.  So the route is right
    unless a webhook whose segments occur at other places gets in front of
    those that match (`routesByPosition_iff`).

    `getWebhookMethods` asks the same question for all methods at once: it
    returns one method where the requests have several answers
    (`sameMethods_iff`). -/

namespace N8nWebhookRouting

open N8nOrderedMap N8nRun N8nWebhookService N8nWebhookOwnership List

/-! ## The source -/

/-- `webhookId` of a request: the first segment of the path. -/
def uuidSegment (path : String) : String := String.ofList ((split path).headD [])

def otherSegments (path : String) : List (List Char) := (split path).tail

/-- The rows of the table. -/
def webhooks (s : Webhooks) : List WebhookEntity := s.rows.entries.map Prod.snd

/-- The question to the table; without a method it is for all methods. -/
def isCandidate (path : String) (method : Option Method) (w : WebhookEntity) : Bool :=
  w.webhookId = some (uuidSegment path) && method.all (fun m => w.method = m)
    && w.pathLength = some (otherSegments path).length

/-- `findDynamicWebhook(path, method?)`. -/
def findDynamicWebhook (s : Webhooks) (path : String)
    (method : Option Method) : Option WebhookEntity :=
  let dynamicWebhooks := (webhooks s).filter (isCandidate path method)
  (dynamicWebhooks.foldl (Webhooks.bestMatch (otherSegments path)) (none, 0)).1

theorem findDynamicWebhook_some (s : Webhooks) (path : String) (method : Method) :
    findDynamicWebhook s path (some method) = s.findDynamicWebhook path method := rfl

/-- `getWebhookMethods`: the static webhooks of the path, or else one dynamic
    webhook. -/
def getWebhookMethods (s : Webhooks) (rawPath : String) : List Method :=
  let staticMethods := (s.rows.entries.filter fun p =>
    p.1.2 = rawPath).map fun p => p.1.1
  if staticMethods.length > 0 then staticMethods
  else
    match findDynamicWebhook s rawPath none with
    | some dynamicWebhook => [dynamicWebhook.method]
    | none => []

/-! ## The fold finds the first of the best -/

/-- Every static segment of the webhook occurs in the path. -/
def allStaticSegmentsMatch (path : String) (w : WebhookEntity) : Bool :=
  w.staticSegments.all ((otherSegments path).contains ·)

/-- The webhooks the fold chooses from. -/
def eligible (path : String) (method : Option Method) (w : WebhookEntity) : Bool :=
  isCandidate path method w && allStaticSegmentsMatch path w

/-- What the fold has after a list: nothing, or the first of the webhooks
    with the most static segments, and their number. -/
inductive BestOf (p : WebhookEntity → Bool) :
    List WebhookEntity → Option WebhookEntity × Nat → Prop where
  | nothing {l : List WebhookEntity} (hnone : ∀ w ∈ l, p w = false) : BestOf p l (none, 0)
  | first {before after : List WebhookEntity} {a : WebhookEntity} (hbest : p a = true)
      (hbefore : ∀ w ∈ before, p w = true → w.staticSegments.length < a.staticSegments.length)
      (hafter : ∀ w ∈ after, p w = true → w.staticSegments.length ≤ a.staticSegments.length) :
      BestOf p (before ++ a :: after) (some a, a.staticSegments.length)

variable {l : List WebhookEntity} {w : WebhookEntity}

theorem forall_mem_concat {P : WebhookEntity → Prop} (h : ∀ x ∈ l, P x)
    (hw : P w) : ∀ x ∈ l ++ [w], P x := by
  intro x hx
  rcases mem_append.mp hx with hx | hx
  · exact h x hx
  · rw [mem_singleton] at hx
    exact hx ▸ hw

variable {acc : Option WebhookEntity × Nat}

theorem BestOf.skip {p : WebhookEntity → Bool} (h : BestOf p l acc)
    (hw : p w = false) : BestOf p (l ++ [w]) acc := by
  cases h with
  | nothing hnone => exact .nothing (forall_mem_concat hnone hw)
  | @first before after a hbest hbefore hafter =>
    rw [append_assoc, cons_append]
    refine .first hbest hbefore (forall_mem_concat hafter fun hp => ?_)
    rw [hw] at hp
    cases hp

theorem BestOf.step {path : String} {p : WebhookEntity → Bool} (h : BestOf p l acc)
    (hw : p w = true) (hmatch : allStaticSegmentsMatch path w = true) :
    BestOf p (l ++ [w]) (Webhooks.bestMatch (otherSegments path) acc w) := by
  have hall : (w.staticSegments.all ((otherSegments path).contains ·)) = true := hmatch
  cases h with
  | nothing hnone =>
    have hnew : BestOf p (l ++ [w]) (some w, w.staticSegments.length) := by
      refine .first hw (fun x hx hp => ?_) fun x hx => absurd hx not_mem_nil
      rw [hnone x hx] at hp
      cases hp
    rw [Webhooks.bestMatch, hall, Bool.true_and]
    by_cases hpos : 0 < w.staticSegments.length
    · rw [if_pos (decide_eq_true hpos)]
      exact hnew
    · have hzero : w.staticSegments.length = 0 := by omega
      rw [if_neg (by simpa using hzero), if_pos ⟨hzero, rfl⟩]
      rw [hzero] at hnew
      exact hnew
  | @first before after a hbest hbefore hafter =>
    rw [Webhooks.bestMatch, hall, Bool.true_and]
    by_cases hmore : a.staticSegments.length < w.staticSegments.length
    · rw [if_pos (decide_eq_true hmore)]
      refine .first hw (fun x hx hp => ?_) fun x hx => absurd hx not_mem_nil
      rcases mem_append.mp hx with hx | hx
      · exact (hbefore x hx hp).trans hmore
      · rcases mem_cons.mp hx with rfl | hx
        · exact hmore
        · exact (hafter x hx hp).trans_lt hmore
    · rw [if_neg (by simpa using hmore), if_neg (by simp)]
      rw [append_assoc, cons_append]
      exact .first hbest hbefore (forall_mem_concat hafter fun _ => Nat.le_of_not_lt hmore)

theorem bestMatch_of_not_match {path : String} (h : allStaticSegmentsMatch path w = false) :
    Webhooks.bestMatch (otherSegments path) acc w = acc := by
  have hall : (w.staticSegments.all ((otherSegments path).contains ·)) = false := h
  have hsome : ¬ w.staticSegments.length = 0 := by
    intro hzero
    rw [eq_nil_of_length_eq_zero hzero] at hall
    cases hall
  rw [Webhooks.bestMatch, hall, Bool.false_and, if_neg Bool.false_ne_true,
    if_neg fun hno => hsome hno.1]

theorem BestOf.foldl {path : String} {method : Option Method} (l : List WebhookEntity)
    {done : List WebhookEntity} (h : BestOf (eligible path method) done acc) :
    BestOf (eligible path method) (done ++ l)
      ((l.filter (isCandidate path method)).foldl
        (Webhooks.bestMatch (otherSegments path)) acc) := by
  induction l generalizing done acc with
  | nil =>
    rw [append_nil]
    exact h
  | cons w l ih =>
    rw [append_cons]
    by_cases hcandidate : isCandidate path method w
    · rw [filter_cons_of_pos hcandidate, foldl_cons]
      refine ih ?_
      rcases hmatch : allStaticSegmentsMatch path w with _ | _
      · rw [bestMatch_of_not_match hmatch]
        exact h.skip (by rw [eligible, hmatch, Bool.and_false])
      · exact h.step (by rw [eligible, hmatch, hcandidate]; rfl) hmatch
    · rw [filter_cons_of_neg hcandidate]
      exact ih (h.skip (by rw [eligible, Bool.eq_false_iff.mpr hcandidate]
                           rfl))

/-- **THE FIRST OF THE BEST**: of the webhooks whose static segments all
    occur, the first one with the most of them. -/
theorem findDynamicWebhook_bestOf (s : Webhooks) (path : String) (method : Option Method) :
    ∃ n, BestOf (eligible path method) (webhooks s) (findDynamicWebhook s path method, n) :=
  ⟨_, BestOf.foldl (webhooks s) (.nothing fun _ hw =>
    absurd hw not_mem_nil)⟩

/-! ## Matching by position -/

def isParameter (segment : List Char) : Bool := segment.head?.any (· = ':')

/-- The webhook's id comes first, and then its segments, each at its place;
    a parameter is any segment. -/
def MatchesByPosition (path : String) (w : WebhookEntity) : Prop :=
  w.webhookId = some (uuidSegment path)
    ∧ List.Forall₂ (fun own requested =>
        isParameter own = true ∨ own = requested)
      (split w.webhookPath) (otherSegments path)

instance (path : String) : DecidablePred (MatchesByPosition path) :=
  fun _ => inferInstanceAs (Decidable (_ ∧ _))

/-- `pathLength` is the number of segments: `addWebhooks` counts them. -/
def Aligned (s : Webhooks) : Prop :=
  ∀ w ∈ webhooks s, w.webhookId.isSome = true → w.pathLength = some (split w.webhookPath).length

/-- Only webhooks that match by position are found, one is found whenever
    there is one, and it has the most static segments of them. -/
structure RoutesByPosition (s : Webhooks) (path : String)
    (method : Option Method) : Prop where
  sound : ∀ w, findDynamicWebhook s path method = some w →
    w ∈ webhooks s ∧ method.all (fun m => w.method = m) = true
      ∧ MatchesByPosition path w
  complete : ∀ w ∈ webhooks s, method.all (fun m => w.method = m) = true →
    MatchesByPosition path w → (findDynamicWebhook s path method).isSome = true
  best : ∀ w ∈ webhooks s, method.all (fun m => w.method = m) = true →
    MatchesByPosition path w → ∀ w', findDynamicWebhook s path method = some w' →
      w.staticSegments.length ≤ w'.staticSegments.length

/-- The condition: a webhook whose static segments all occur in the path, but
    not at their places, is outdone by one that has more of them, or as many
    and an earlier row. -/
def MisplacedOutdone (s : Webhooks) (path : String) (method : Option Method) : Prop :=
  ∀ before w after, webhooks s = before ++ w :: after →
    eligible path method w = true → ¬ MatchesByPosition path w →
    (∃ w' ∈ before, eligible path method w' = true
        ∧ w.staticSegments.length ≤ w'.staticSegments.length)
      ∨ ∃ w' ∈ after, eligible path method w' = true
        ∧ w.staticSegments.length < w'.staticSegments.length

section

variable {s : Webhooks} {path : String} {method : Option Method}

theorem mem_of_forall₂ {own requested : List (List Char)} (h : List.Forall₂ (fun own requested =>
      isParameter own = true ∨ own = requested) own requested) :
    ∀ segment ∈ own, isParameter segment = false → segment ∈ requested := by
  induction h with
  | nil => exact fun _ hmem => absurd hmem not_mem_nil
  | cons hhead _ ih =>
    intro segment hmem hstatic
    rcases mem_cons.mp hmem with rfl | hmem
    · rcases hhead with hparameter | rfl
      · rw [hparameter] at hstatic
        cases hstatic
      · exact mem_cons_self ..
    · exact mem_cons_of_mem _ (ih segment hmem hstatic)

theorem MatchesByPosition.eligible (haligned : Aligned s) {w : WebhookEntity} (hw : w ∈ webhooks s)
    (hmethod : method.all (fun m => w.method = m) = true) (h : MatchesByPosition path w) :
    N8nWebhookRouting.eligible path method w = true := by
  obtain ⟨hid, hsegments⟩ := h
  have hlength : w.pathLength = some (otherSegments path).length := by
    rw [haligned w hw (by rw [hid]; rfl), hsegments.length_eq]
  have hall : allStaticSegmentsMatch path w = true := by
    refine all_eq_true.mpr fun segment hmem => ?_
    obtain ⟨hown, hstatic⟩ := mem_filter.mp hmem
    exact contains_iff_mem.mpr
      (mem_of_forall₂ hsegments segment hown (by simpa [isParameter] using hstatic))
  rw [N8nWebhookRouting.eligible, hall, isCandidate, hid, hmethod, hlength]
  simp

theorem isCandidate_iff {w : WebhookEntity} :
    isCandidate path method w = true ↔ w.webhookId = some (uuidSegment path)
      ∧ method.all (fun m => w.method = m) = true
      ∧ w.pathLength = some (otherSegments path).length := by
  rw [isCandidate, Bool.and_eq_true, Bool.and_eq_true, decide_eq_true_iff,
    decide_eq_true_iff, and_assoc]

theorem RoutesByPosition.outdone (h : RoutesByPosition s path method) :
    MisplacedOutdone s path method := by
  intro before w after hrows heligible hmisplaced
  obtain ⟨n, hbest⟩ := findDynamicWebhook_bestOf s path method
  generalize hl : webhooks s = l at hbest
  rw [hrows] at hl
  rcases hfound : findDynamicWebhook s path method with _ | a
  · rw [hfound] at hbest
    cases hbest with
    | nothing hnone =>
      have hno := hnone w (hl ▸ mem_append_right _ (mem_cons_self ..))
      rw [heligible] at hno
      cases hno
  · have hplaced := (h.sound a hfound).2.2
    have hne : a ≠ w := fun heq => hmisplaced (heq ▸ hplaced)
    rw [hfound] at hbest
    cases hbest with
    | @first before' after' _ hp hbefore hafter =>
      rcases append_eq_append_iff.mp hl with
        ⟨c, hc, hrest⟩ | ⟨c, hc, hrest⟩
      · -- the row of `w` comes first
        cases c with
        | nil => exact absurd (List.cons.inj hrest).1.symm hne
        | cons x c =>
          obtain ⟨rfl, hafterw⟩ := List.cons.inj hrest
          have hin : w ∈ before' := hc ▸ mem_append_right _ (mem_cons_self ..)
          refine .inr ⟨a, ?_, hp, hbefore w hin heligible⟩
          rw [hafterw]
          exact mem_append_right _ (mem_cons_self ..)
      · cases c with
        | nil => exact absurd (List.cons.inj hrest).1 hne
        | cons x c =>
          obtain ⟨rfl, hafterw⟩ := List.cons.inj hrest
          have hin : w ∈ after' := by
            rw [hafterw]
            exact mem_append_right _ (mem_cons_self ..)
          refine .inl ⟨a, ?_, hp, hafter w hin heligible⟩
          rw [hc]
          exact mem_append_right _ (mem_cons_self ..)

theorem MisplacedOutdone.routes (haligned : Aligned s) (h : MisplacedOutdone s path method) :
    RoutesByPosition s path method := by
  obtain ⟨n, hbest⟩ := findDynamicWebhook_bestOf s path method
  generalize hfound : findDynamicWebhook s path method = found at hbest
  generalize hrows : webhooks s = l at hbest
  cases hbest with
  | nothing hnone =>
    constructor
    · intro w hw
      rw [hfound] at hw
      cases hw
    · intro w hw hmethod hplaced
      have hno := hnone w (hrows ▸ hw)
      rw [hplaced.eligible haligned hw hmethod] at hno
      cases hno
    · intro w _ _ _ w' hw'
      rw [hfound] at hw'
      cases hw'
  | @first before after a hp hbefore hafter =>
    constructor
    · intro w hw
      rw [hfound] at hw
      cases hw
      have hcandidate := (Bool.and_eq_true_iff.mp hp).1
      refine ⟨?_, (isCandidate_iff.mp hcandidate).2.1, ?_⟩
      · rw [hrows]
        exact mem_append_right _ (mem_cons_self ..)
      · by_contra hmisplaced
        rcases h before a after hrows hp hmisplaced with
          ⟨w', hw', hp', hle⟩ | ⟨w', hw', hp', hlt⟩
        · exact absurd (hbefore w' hw' hp') (Nat.not_lt_of_le hle)
        · exact absurd (hafter w' hw' hp') (Nat.not_le_of_lt hlt)
    · intro w _ _ _
      rw [hfound]
      rfl
    · intro w hw hmethod hplaced w' hw'
      rw [hfound] at hw'
      cases hw'
      have hpw := hplaced.eligible haligned hw hmethod
      rw [hrows] at hw
      rcases mem_append.mp hw with hw | hw
      · exact (hbefore w hw hpw).le
      · rcases mem_cons.mp hw with rfl | hw
        · exact le_rfl
        · exact hafter w hw hpw

/-- **ROUTED BY POSITION**: exactly as long as each webhook whose segments
    occur at other places is outdone. -/
theorem routesByPosition_iff (haligned : Aligned s) (path : String) (method : Option Method) :
    RoutesByPosition s path method ↔ MisplacedOutdone s path method :=
  ⟨RoutesByPosition.outdone, MisplacedOutdone.routes haligned⟩

end

/-- A webhook under the id `a`. -/
def dynamicWebhook (method : Method) (webhookPath : String) : WebhookEntity :=
  { workflowId := "1", webhookPath, method, node := "Webhook"
    webhookId := some "a", pathLength := some (split webhookPath).length }

def userById : Webhooks := Webhooks.start.upsert (dynamicWebhook .GET "user/:id")

theorem aligned_userById : Aligned userById := by
  unfold Aligned
  decide

/-- A webhook that is found at its place. -/
theorem routesByPosition_user_first :
    Aligned userById ∧ RoutesByPosition userById "a/user/1" (some .GET) := by
  refine ⟨aligned_userById, (routesByPosition_iff aligned_userById _ _).mpr ?_⟩
  intro before w after hrows _ hmisplaced
  have hw : w ∈ webhooks userById := by
    rw [hrows]
    exact mem_append_right _ (mem_cons_self ..)
  have hplaced : ∀ w ∈ webhooks userById, MatchesByPosition "a/user/1" w := by
    decide
  exact absurd (hplaced w hw) hmisplaced

/-- A request for `1/user` gets the webhook of `user/:id`, and `id` is then
    `user`. -/
theorem not_routesByPosition_user_last :
    Aligned userById ∧ ¬ RoutesByPosition userById "a/1/user" (some .GET) := by
  refine ⟨aligned_userById, fun h => ?_⟩
  have hfound : findDynamicWebhook userById "a/1/user" (some .GET)
      = some (dynamicWebhook .GET "user/:id") := by
    decide
  have hmisplaced : ¬ MatchesByPosition "a/1/user" (dynamicWebhook .GET "user/:id") := by
    decide
  exact hmisplaced (h.sound _ hfound).2.2

/-! ## Every table is aligned -/

/-! ## Methods -/

section

variable (s : Webhooks) (path : String)

/-- The cache holds a webhook for the method and the path. -/
def IsCached (method : Method) : Prop := (s.cache.get? (lookupKey (method, path))).isSome = true

def HasStatic (method : Method) : Prop := (s.findStaticWebhook method path).isSome = true

/-- There is a dynamic webhook of the method all of whose static segments
    occur in the path. -/
def HasDynamic (method : Method) : Prop := ∃ w ∈ webhooks s, eligible path (some method) w = true

/-- The condition: where there are static webhooks, they have all methods of
    the path; where there is none, the dynamic ones have one method. -/
structure OneKind : Prop where
  static : (∃ method, HasStatic s path method) → ∀ method,
    IsCached s path method ∨ HasDynamic s path method → HasStatic s path method
  cached : (∀ method, ¬ HasStatic s path method) → ∀ method,
    IsCached s path method → HasDynamic s path method
  dynamic : (∀ method, ¬ HasStatic s path method) → ∀ method method',
    HasDynamic s path method → HasDynamic s path method' → method = method'

variable {s : Webhooks} {path : String}

theorem findDynamicWebhook_isSome_iff {method : Option Method} :
    (findDynamicWebhook s path method).isSome = true
      ↔ ∃ w ∈ webhooks s, eligible path method w = true := by
  obtain ⟨n, hbest⟩ := findDynamicWebhook_bestOf s path method
  generalize findDynamicWebhook s path method = found at hbest
  generalize webhooks s = l at hbest ⊢
  cases hbest with
  | nothing hnone =>
    constructor
    · intro h
      cases h
    · rintro ⟨w, hw, hp⟩
      rw [hnone w hw] at hp
      cases hp
  | @first before after a hp =>
    exact ⟨fun _ => ⟨a, mem_append_right _ (mem_cons_self ..), hp⟩, fun _ => rfl⟩

variable {method : Method}

theorem findWebhook_isSome_iff : (s.findWebhook method path).isSome = true
      ↔ IsCached s path method ∨ HasStatic s path method ∨ HasDynamic s path method := by
  rw [HasDynamic, ← findDynamicWebhook_isSome_iff, findDynamicWebhook_some,
    IsCached, HasStatic, Webhooks.findWebhook]
  cases s.cache.get? (lookupKey (method, path)) with
  | some w => exact ⟨fun _ => .inl rfl, fun _ => rfl⟩
  | none =>
    cases s.findStaticWebhook method path with
    | some w => exact ⟨fun _ => .inr (.inl rfl), fun _ => rfl⟩
    | none => simp

theorem eligible_none_iff {w : WebhookEntity} :
    eligible path none w = true ↔ eligible path (some w.method) w = true := by
  simp [eligible, isCandidate]

theorem method_of_eligible {w : WebhookEntity}
    (h : eligible path (some method) w = true) : w.method = method := by
  simp only [eligible, isCandidate, Option.all_some, Bool.and_eq_true, decide_eq_true_eq] at h
  exact h.1.1.2

theorem hasStatic_iff : HasStatic s path method
    ↔ method ∈ (s.rows.entries.filter fun p =>
        p.1.2 = path).map fun p => p.1.1 := by
  rw [HasStatic, Webhooks.findStaticWebhook, Option.isSome_iff_exists]
  constructor
  · rintro ⟨w, hget⟩
    refine mem_map.mpr ⟨((method, path), w), ?_, rfl⟩
    exact mem_filter.mpr ⟨OrderedMap.get?_eq_some.mp hget, by simp⟩
  · intro hmem
    obtain ⟨⟨⟨m, p⟩, w⟩, hrow, rfl⟩ := mem_map.mp hmem
    obtain ⟨hin, hpath⟩ := mem_filter.mp hrow
    have hp : p = path := by simpa using hpath
    subst hp
    exact ⟨w, OrderedMap.get?_eq_some.mpr hin⟩

theorem mem_getWebhookMethods_of_static (h : ∃ method, HasStatic s path method) :
    method ∈ getWebhookMethods s path ↔ HasStatic s path method := by
  obtain ⟨m, hm⟩ := h
  rw [getWebhookMethods, if_pos (length_pos_of_mem (hasStatic_iff.mp hm)), hasStatic_iff]

section

variable (h : ∀ method, ¬ HasStatic s path method)
include h

theorem getWebhookMethods_of_not_static :
    getWebhookMethods s path
      = (findDynamicWebhook s path none).toList.map WebhookEntity.method := by
  have hnil : ((s.rows.entries.filter fun p => p.1.2 = path).map fun p => p.1.1) = [] := by
    refine eq_nil_iff_forall_not_mem.mpr fun m hm => ?_
    exact h m (hasStatic_iff.mpr hm)
  rw [getWebhookMethods, hnil]
  rcases findDynamicWebhook s path none with _ | w
  · rfl
  · rfl

theorem mem_getWebhookMethods_of_dynamic (hm : HasDynamic s path method) :
    ∃ method', HasDynamic s path method' ∧ ∀ m, m ∈ getWebhookMethods s path ↔ m = method' := by
  obtain ⟨n, hbest⟩ := findDynamicWebhook_bestOf s path none
  obtain ⟨w, hw, hp⟩ := hm
  have hpw : eligible path none w = true := by
    rw [eligible_none_iff, method_of_eligible hp]
    exact hp
  obtain ⟨a, hfound⟩ := Option.isSome_iff_exists.mp (findDynamicWebhook_isSome_iff.mpr ⟨w, hw, hpw⟩)
  rw [getWebhookMethods_of_not_static h, hfound]
  rw [hfound] at hbest
  generalize hl : webhooks s = l at hbest
  cases hbest with
  | @first before after _ ha =>
    refine ⟨a.method, ⟨a, ?_, eligible_none_iff.mp ha⟩, fun m => ?_⟩
    · rw [hl]
      exact mem_append_right _ (mem_cons_self ..)
    · simp

theorem getWebhookMethods_eq_nil (hnone : ∀ method, ¬ HasDynamic s path method) :
    getWebhookMethods s path = [] := by
  rw [getWebhookMethods_of_not_static h]
  rcases hfound : findDynamicWebhook s path none with _ | w
  · rfl
  · obtain ⟨a, ha, hp⟩ := findDynamicWebhook_isSome_iff.mp (Option.isSome_of_eq_some hfound)
    exact absurd ⟨a, ha, eligible_none_iff.mp hp⟩ (hnone a.method)

end

/-- **THE SAME METHODS**: `getWebhookMethods` returns those for which a
    request finds a webhook exactly where all of them are of one kind. -/
theorem sameMethods_iff (s : Webhooks) (path : String) :
    (∀ method, method ∈ getWebhookMethods s path
        ↔ (s.findWebhook method path).isSome = true)
      ↔ OneKind s path := by
  constructor
  · intro h
    have hfound : ∀ method, method ∈ getWebhookMethods s path
        ↔ IsCached s path method ∨ HasStatic s path method ∨ HasDynamic s path method :=
      fun method => (h method).trans findWebhook_isSome_iff
    constructor
    · intro hstatic method hother
      refine (mem_getWebhookMethods_of_static hstatic).mp ((hfound method).mpr ?_)
      exact hother.imp_right .inr
    · intro hno method hcached
      have hmem := (hfound method).mpr (.inl hcached)
      by_contra hdynamic
      by_cases hany : ∃ m, HasDynamic s path m
      · obtain ⟨m, hm⟩ := hany
        obtain ⟨m', hm', hmethods⟩ := mem_getWebhookMethods_of_dynamic hno hm
        rw [hmethods] at hmem
        exact hdynamic (hmem ▸ hm')
      · rw [getWebhookMethods_eq_nil hno (not_exists.mp hany)] at hmem
        cases hmem
    · intro hno method method' hm hm'
      obtain ⟨m, -, hmethods⟩ := mem_getWebhookMethods_of_dynamic hno hm
      have hmem := (hfound method).mpr (.inr (.inr hm))
      have hmem' := (hfound method').mpr (.inr (.inr hm'))
      rw [hmethods] at hmem hmem'
      rw [hmem, hmem']
  · intro h method
    rw [findWebhook_isSome_iff]
    by_cases hstatic : ∃ m, HasStatic s path m
    · rw [mem_getWebhookMethods_of_static hstatic]
      constructor
      · exact fun hm => .inr (.inl hm)
      · rintro (hm | hm | hm)
        · exact h.static hstatic method (.inl hm)
        · exact hm
        · exact h.static hstatic method (.inr hm)
    · have hno := not_exists.mp hstatic
      have hdynamic : (IsCached s path method ∨ HasStatic s path method
          ∨ HasDynamic s path method) ↔ HasDynamic s path method := by
        constructor
        · rintro (hm | hm | hm)
          · exact h.cached hno method hm
          · exact absurd hm (hno method)
          · exact hm
        · exact fun hm => .inr (.inr hm)
      rw [hdynamic]
      by_cases hany : ∃ m, HasDynamic s path m
      · obtain ⟨m, hm⟩ := hany
        obtain ⟨m', hm', hmethods⟩ := mem_getWebhookMethods_of_dynamic hno hm
        rw [hmethods]
        exact ⟨fun heq => heq ▸ hm', fun hmethod =>
          h.dynamic hno method m' hmethod hm'⟩
      · have hnone := not_exists.mp hany
        rw [getWebhookMethods_eq_nil hno hnone]
        exact ⟨fun hm => absurd hm not_mem_nil, fun hm => absurd hm (hnone method)⟩

/-- One node with two methods. -/
def userByGetOrPost : Webhooks := userById.upsert (dynamicWebhook .POST "user/:id")

/-- A `POST` finds the webhook, and only `GET` is returned. -/
theorem not_sameMethods_two_methods :
    ¬ ∀ method, method ∈ getWebhookMethods userByGetOrPost "a/user/1"
        ↔ (userByGetOrPost.findWebhook method "a/user/1").isSome = true := by
  intro h
  have hfound : (userByGetOrPost.findWebhook .POST "a/user/1").isSome = true := by
    decide
  have hmissing :
      Method.POST ∉ getWebhookMethods userByGetOrPost "a/user/1" := by
    decide
  exact hmissing ((h .POST).mpr hfound)

end

end N8nWebhookRouting
