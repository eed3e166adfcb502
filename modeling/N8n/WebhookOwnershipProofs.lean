import N8n.RunProofs
import N8n.WebhookServiceProofs

/-! # Registering webhooks — one path, one workflow

    `addWebhooks` stores the webhooks of a workflow one by one.  A row that
    is there already is meant to show as a conflict: the `catch` takes back
    what was stored and throws a `WebhookPathTakenError`.  But the rows are
    upserted, so there is no conflict to catch, and the row of the other
    workflow is overwritten.

    The engine is `Sound.perform`: whatever the workflows do, a cache entry
    for a path without a colon is the row of that path.  So the rows decide,
    and `belongs_iff_takesNoPath` says that a path stays with its workflow as
    long as nobody else registers it, and no longer. -/

namespace N8nWebhookOwnership

open N8nRun N8nOrderedMap N8nWebhookService List

/-- `WorkflowActivateMode`. -/
inductive WorkflowActivateMode where
  | init | create | update | activate | manual | leadershipChange
deriving DecidableEq

/-- What the webhook methods of a node throw. -/
structure WebhookMethodError where
  message : String
  detail : Option String

/-- What storing a webhook and setting it up can throw. -/
inductive StoreError where
  | queryFailed (message : String)
  | webhookMethod (error : WebhookMethodError)

/-- A webhook of a workflow, with the id of its node, and what checking for
    it and creating it at the service throws. -/
structure IWebhookData where
  node : String
  path : String
  httpMethod : Method
  webhookId : Option String
  createWebhookIfNotExists : Option WebhookMethodError

/-- What `addWebhooks` and `clearWebhooks` throw. -/
inductive ActivationError where
  | webhookPathTaken (nodeName : String)
  | other (message : String)
deriving DecidableEq

def ActivationError.message : ActivationError → String
  | .webhookPathTaken nodeName =>
    "The URL path that the \"" ++ nodeName ++ "\" node uses is already "
      ++ "taken. Please change it to something else."
  | .other message => message

/-! ## The webhook of a node -/

/-- One slash at each end is dropped. -/
def stripSlashes (path : String) : String :=
  let cs := path.toList
  let cs := if cs.head? = some '/' then cs.tail else cs
  String.ofList (if cs.getLast? = some '/' then cs.dropLast else cs)

/-- `path.startsWith(':') || path.includes('/:')`. -/
def hasParameter (path : String) : Bool :=
  path.toList.head? = some ':' || decide (['/', ':'] <:+: path.toList)

def createWebhook (workflowId : WorkflowId) (data : IWebhookData) : WebhookEntity :=
  let webhookPath := stripSlashes data.path
  -- An empty id counts as none.
  let webhookId := if hasParameter data.path then
      data.webhookId.filter fun webhookId => webhookId ≠ ""
    else none
  { workflowId
    webhookPath
    method := data.httpMethod
    node := data.node
    webhookId
    pathLength := webhookId.map fun _ => (split webhookPath).length }

/-! ## The two functions -/

/-- The cache first, then the table.  An upsert meets no conflict, so this
    throws no `QueryFailedError`. -/
def storeWebhook (s : Webhooks) (w : WebhookEntity) : Webhooks × Option StoreError :=
  ((s.setCache w.cacheKey w).upsert w, none)

def deleteWorkflowWebhooks (s : Webhooks) (workflowId : WorkflowId) : Webhooks :=
  let webhooks := s.findBy workflowId
  (s.clearCache (webhooks.map WebhookEntity.cacheKey)).remove webhooks

/-- The `try` block of `addWebhooks`. -/
def tryStore (s : Webhooks) (w : WebhookEntity) (data : IWebhookData) :
    Webhooks × Option StoreError :=
  match storeWebhook s w with
  | (s, some error) => (s, some error)
  | (s, none) => (s, data.createWebhookIfNotExists.map .webhookMethod)

/-- Webhooks of an earlier start of the instance are left alone. -/
def isIgnored (activation : WorkflowActivateMode) : StoreError → Bool
  | .queryFailed _ => activation = .init || activation = .leadershipChange
  | .webhookMethod _ => false

def toActivationError (w : WebhookEntity) : StoreError → ActivationError
  | .queryFailed _ => .webhookPathTaken w.node
  | .webhookMethod error =>
    .other ((error.detail.filter fun detail => detail ≠ "").getD error.message)

/-- The loop of `addWebhooks`.  `clearFails` says that taking the webhooks
    back throws before a row is deleted, which is only reported. -/
def storeAll (workflowId : WorkflowId) (activation : WorkflowActivateMode) (clearFails : Bool) :
    List IWebhookData → Webhooks → Webhooks × Option ActivationError
  | [], s => (s, none)
  | data :: rest, s =>
    let w := createWebhook workflowId data
    match tryStore s w data with
    | (s, none) => storeAll workflowId activation clearFails rest s
    | (s, some error) =>
      if isIgnored activation error then
        storeAll workflowId activation clearFails rest s
      else
        (if clearFails then s else deleteWorkflowWebhooks s workflowId,
          some (toActivationError w error))

/-- `cacheService.setMany` with the webhooks that have no id. -/
def populateCache (s : Webhooks) : Webhooks :=
  ((s.rows.entries.map Prod.snd).filter fun w => w.webhookId = none).foldl
    (fun s w => s.setCache w.cacheKey w) s

def addWebhooks (s : Webhooks) (workflowId : WorkflowId) (activation : WorkflowActivateMode)
    (webhooks : List IWebhookData) (clearFails : Bool) : Webhooks × Except ActivationError Bool :=
  if webhooks.length = 0 then (s, .ok false)
  else
    match storeAll workflowId activation clearFails webhooks s with
    | (s, some error) => (s, .error error)
    | (s, none) => (populateCache s, .ok true)

/-- What throws before the rows are deleted leaves them there. -/
def clearWebhooks (s : Webhooks) (workflowId : WorkflowId)
    (failure : Option String) : Webhooks × Except ActivationError Bool :=
  match failure with
  | some message => (s, .error (.other message))
  | none => (deleteWorkflowWebhooks s workflowId, .ok true)

/-! ## Runs -/

inductive Event where
  | addWebhooks (workflowId : WorkflowId)
      (activation : WorkflowActivateMode) (webhooks : List IWebhookData) (clearFails : Bool)
  | clearWebhooks (workflowId : WorkflowId) (failure : Option String)

def Event.workflowId : Event → WorkflowId
  | .addWebhooks workflowId _ _ _ => workflowId
  | .clearWebhooks workflowId _ => workflowId

/-- The methods and paths a workflow is activated with. -/
def Event.keys : Event → List Key
  | .addWebhooks workflowId _ webhooks _ =>
    webhooks.map fun data => (createWebhook workflowId data).key
  | .clearWebhooks _ _ => []

def perform (s : Webhooks) :
    Event → Webhooks × Except ActivationError Bool
  | .addWebhooks workflowId activation webhooks clearFails =>
    addWebhooks s workflowId activation webhooks clearFails
  | .clearWebhooks workflowId failure => clearWebhooks s workflowId failure

def Step (s : Webhooks) (e : Event) (s' : Webhooks) : Prop := s' = (perform s e).1

/-- The rows of other workflows stay, and a request for a path without a
    colon gets them.  A workflow that comes with the method and path of such
    a row fails, and nothing is different for the webhook it wanted. -/
def Belongs (s : Webhooks) (e : Event) : Prop :=
  ∀ k a, s.rows.get? k = some a → a.workflowId ≠ e.workflowId → (perform s e).1.rows.get? k = some a
      ∧ (hasColon k.2 = false → (perform s e).1.findWebhook k.1 k.2 = some a)
      ∧ (k ∈ e.keys → (∃ nodeName, (perform s e).2 = .error (.webhookPathTaken nodeName))
            ∧ (perform s e).1.cache.get? a.cacheKey = s.cache.get? a.cacheKey
            ∧ ∀ method path, s.findWebhook method path = some a →
              (perform s e).1.findWebhook method path = some a)

/-- The condition: no webhook has the method and path of a row that belongs
    to another workflow. -/
def TakesNoPath (s : Webhooks) (e : Event) : Prop :=
  ∀ k ∈ e.keys, ∀ a, s.rows.get? k = some a → a.workflowId = e.workflowId

/-! ## What is kept in any case -/

/-- Rows are stored under their keys, and a cache entry that is looked up
    by a path without a colon is the row of that path. -/
structure Sound (s : Webhooks) : Prop where
  keyed : ∀ k w, s.rows.get? k = some w → w.key = k
  cached : ∀ k, hasColon k.2 = false → ∀ w,
    s.cache.get? (lookupKey k) = some w → s.rows.get? k = some w

theorem Sound.start : Sound Webhooks.start := by
  constructor
  · intro k w h
    cases h
  · intro k _ w h
    cases h

section

variable {s : Webhooks}

theorem Sound.setCache (h : Sound s) {w : WebhookEntity} (hrow : s.rows.get? w.key = some w) :
    Sound (s.setCache w.cacheKey w) := by
  constructor
  · exact h.keyed
  · intro k hcolon w' hget
    rw [setCache_get?] at hget
    split at hget
    · rename_i hkey
      cases hget
      rw [cacheKey_eq_of_not_hasColon hcolon] at hkey
      rw [setCache_rows, ← hkey]
      exact hrow
    · exact h.cached k hcolon w' hget

theorem Sound.storeWebhook (h : Sound s) (w : WebhookEntity) : Sound (storeWebhook s w).1 := by
  constructor
  · intro k w' hget
    rw [N8nWebhookOwnership.storeWebhook, upsert_get?] at hget
    split at hget
    · rename_i hkey
      cases hget
      exact hkey
    · exact h.keyed k w' hget
  · intro k hcolon w' hget
    rw [N8nWebhookOwnership.storeWebhook, upsert_cache, setCache_get?] at hget
    rw [N8nWebhookOwnership.storeWebhook, upsert_get?]
    by_cases hkey : w.key = k
    · rw [if_pos ((cacheKey_eq_of_not_hasColon hcolon).mpr hkey)] at hget
      rw [if_pos hkey]
      exact hget
    · rw [if_neg (mt (cacheKey_eq_of_not_hasColon hcolon).mp hkey)] at hget
      rw [if_neg hkey]
      exact h.cached k hcolon w' hget

theorem deleteWorkflowWebhooks_rows (workflowId : WorkflowId) (k : Key) :
    (deleteWorkflowWebhooks s workflowId).rows.get? k
      = if k ∈ (s.findBy workflowId).map WebhookEntity.key then none
        else s.rows.get? k :=
  remove_get? ..

theorem Sound.deleteWorkflowWebhooks (h : Sound s) (workflowId : WorkflowId) :
    Sound (deleteWorkflowWebhooks s workflowId) := by
  constructor
  · intro k w hget
    rw [deleteWorkflowWebhooks_rows] at hget
    split at hget
    · cases hget
    · exact h.keyed k w hget
  · intro k hcolon w hget
    rw [N8nWebhookOwnership.deleteWorkflowWebhooks, remove_cache, clearCache_get?] at hget
    rw [deleteWorkflowWebhooks_rows]
    split at hget
    · cases hget
    · rename_i hkept
      rw [if_neg]
      · exact h.cached k hcolon w hget
      · intro hmem
        obtain ⟨b, hb, hkey⟩ := mem_map.mp hmem
        exact hkept (mem_map.mpr ⟨b, hb, (cacheKey_eq_of_not_hasColon hcolon).mpr hkey⟩)

theorem Sound.setMany {ws : List WebhookEntity} (h : Sound s)
    (hrows : ∀ w ∈ ws, s.rows.get? w.key = some w) :
    Sound (ws.foldl (fun s w => s.setCache w.cacheKey w) s) := by
  induction ws generalizing s with
  | nil => exact h
  | cons w rest ih =>
    obtain ⟨hw, hrest⟩ := forall_mem_cons.mp hrows
    exact ih (h.setCache hw) hrest

theorem Sound.populateCache (h : Sound s) : Sound (populateCache s) := by
  refine h.setMany fun w hmem => ?_
  obtain ⟨hmem, -⟩ := mem_filter.mp hmem
  obtain ⟨⟨k, w⟩, hin, rfl⟩ := mem_map.mp hmem
  have hget := OrderedMap.get?_eq_some.mpr hin
  rw [h.keyed k w hget]
  exact hget

theorem setMany_rows (ws : List WebhookEntity) :
    (ws.foldl (fun s w => s.setCache w.cacheKey w) s).rows = s.rows := by
  induction ws generalizing s with
  | nil => rfl
  | cons w rest ih => exact ih

theorem tryStore_eq (w : WebhookEntity) (data : IWebhookData) :
    tryStore s w data = ((storeWebhook s w).1,
      data.createWebhookIfNotExists.map .webhookMethod) := rfl

variable {workflowId : WorkflowId}

theorem storeAll_induction {P : Webhooks → Prop}
    {activation : WorkflowActivateMode} {clearFails : Bool}
    {webhooks : List IWebhookData}
    (hstore : ∀ data ∈ webhooks, ∀ s, P s → P (storeWebhook s (createWebhook workflowId data)).1)
    (hdelete : ∀ s, P s → P (deleteWorkflowWebhooks s workflowId))
    (h : P s) :
    P (storeAll workflowId activation clearFails webhooks s).1 := by
  induction webhooks generalizing s with
  | nil => exact h
  | cons data rest ih =>
    have hstored := hstore data (mem_cons_self ..) s h
    have hrest := fun s => ih (s := s) fun data hmem =>
      hstore data (mem_cons_of_mem _ hmem)
    rw [storeAll, tryStore_eq]
    rcases data.createWebhookIfNotExists with _ | error
    · exact hrest _ hstored
    · cases clearFails with
      | true => exact hstored
      | false => exact hdelete _ hstored

theorem storeAll_error {activation : WorkflowActivateMode} {clearFails : Bool}
    {webhooks : List IWebhookData} {error : ActivationError}
    (h : (storeAll workflowId activation clearFails webhooks s).2
      = some error) (nodeName : String) :
    error ≠ .webhookPathTaken nodeName := by
  induction webhooks generalizing s with
  | nil => cases h
  | cons data rest ih =>
    rw [storeAll, tryStore_eq] at h
    rcases hsetup : data.createWebhookIfNotExists with _ | thrown
    · rw [hsetup] at h
      exact ih h
    · rw [hsetup] at h
      cases h
      rintro heq
      cases heq

/-- **NO ACTIVATION FAILS** with a path that is taken. -/
theorem perform_ne_webhookPathTaken (e : Event) (nodeName : String) :
    (perform s e).2 ≠ .error (.webhookPathTaken nodeName) := by
  cases e with
  | addWebhooks workflowId activation webhooks clearFails =>
    rw [perform, addWebhooks]
    split
    · rintro heq
      cases heq
    · split
      · rename_i hall
        rintro heq
        cases heq
        exact storeAll_error (congrArg Prod.snd hall) nodeName rfl
      · rintro heq
        cases heq
  | clearWebhooks workflowId failure =>
    rcases failure with _ | message <;>
    · rintro heq
      cases heq

/-- **EVERY STEP** is sound. -/
theorem Sound.perform (h : Sound s) (e : Event) : Sound (perform s e).1 := by
  cases e with
  | addWebhooks workflowId activation webhooks clearFails =>
    have hall : Sound (storeAll workflowId activation clearFails webhooks s).1 :=
      storeAll_induction (fun data _ s hs => hs.storeWebhook _)
        (fun s hs => hs.deleteWorkflowWebhooks workflowId) h
    rw [N8nWebhookOwnership.perform, addWebhooks]
    split
    · exact h
    · split
      · rename_i heq
        rw [heq] at hall
        exact hall
      · rename_i heq
        rw [heq] at hall
        exact hall.populateCache
  | clearWebhooks workflowId failure =>
    rcases failure with _ | message
    · exact h.deleteWorkflowWebhooks workflowId
    · exact h

/-! ## The rows of the others -/

variable {a : WebhookEntity}

theorem Sound.findWebhook (h : Sound s) {k : Key}
    (hcolon : hasColon k.2 = false) (hrow : s.rows.get? k = some a) :
    s.findWebhook k.1 k.2 = some a := by
  rw [Webhooks.findWebhook]
  rcases hcache : s.cache.get? (lookupKey (k.1, k.2)) with _ | w
  · rw [Webhooks.findStaticWebhook]
    simp [hrow]
  · exact (h.cached k hcolon w hcache).symm.trans hrow

theorem other_deleteWorkflowWebhooks (h : Sound s) {k : Key} (hrow : s.rows.get? k = some a)
    (hother : a.workflowId ≠ workflowId) :
    (deleteWorkflowWebhooks s workflowId).rows.get? k = some a := by
  rw [deleteWorkflowWebhooks_rows, if_neg]
  · exact hrow
  · intro hmem
    obtain ⟨b, hb, rfl⟩ := mem_map.mp hmem
    obtain ⟨howner, k', hget⟩ := mem_findBy.mp hb
    rw [h.keyed k' b hget, hget] at hrow
    cases hrow
    exact hother howner

/-- **A ROW STAYS** while the others register other paths. -/
theorem other_perform (h : Sound s) {e : Event} (hcond : TakesNoPath s e)
    {k : Key} (hrow : s.rows.get? k = some a)
    (hother : a.workflowId ≠ e.workflowId) :
    (perform s e).1.rows.get? k = some a := by
  cases e with
  | addWebhooks workflowId activation webhooks clearFails =>
    have hkeeps : ∀ data ∈ webhooks, ∀ s, Sound s ∧ s.rows.get? k = some a →
        Sound (storeWebhook s (createWebhook workflowId data)).1
          ∧ (storeWebhook s (createWebhook workflowId data)).1.rows.get? k = some a := by
      rintro data hmem s' ⟨hs', hrow'⟩
      refine ⟨hs'.storeWebhook _, ?_⟩
      rw [storeWebhook, upsert_get?, if_neg]
      · exact hrow'
      · rintro rfl
        exact hother (hcond _ (mem_map_of_mem hmem) a hrow)
    have hall : Sound (storeAll workflowId activation clearFails webhooks s).1
        ∧ (storeAll workflowId activation clearFails webhooks s).1.rows.get? k = some a :=
      storeAll_induction (P := fun s => Sound s ∧ s.rows.get? k = some a)
        hkeeps (fun s hs => ⟨hs.1.deleteWorkflowWebhooks workflowId,
          other_deleteWorkflowWebhooks hs.1 hs.2 hother⟩) ⟨h, hrow⟩
    rw [perform, addWebhooks]
    split
    · exact hrow
    · split
      · rename_i heq
        rw [heq] at hall
        exact hall.2
      · rename_i heq
        rw [heq] at hall
        rw [populateCache, setMany_rows]
        exact hall.2
  | clearWebhooks workflowId failure =>
    rcases failure with _ | message
    · exact other_deleteWorkflowWebhooks h hrow hother
    · exact hrow

/-- **ONE STEP** leaves every path to its workflow exactly when it takes
    none. -/
theorem belongs_iff (h : Sound s) {e : Event} : Belongs s e ↔ TakesNoPath s e := by
  constructor
  · intro hbelongs k hmem a hrow
    by_contra hother
    obtain ⟨-, -, htaken⟩ := hbelongs k a hrow hother
    obtain ⟨⟨nodeName, herror⟩, -⟩ := htaken hmem
    exact perform_ne_webhookPathTaken e nodeName herror
  · intro hcond k a hrow hother
    have hkept := other_perform h hcond hrow hother
    refine ⟨hkept, fun hcolon => (h.perform e).findWebhook hcolon hkept, fun hmem => ?_⟩
    exact absurd (hcond k hmem a hrow) hother

end

/-! ## Every run -/

/-- **EVERY RUN**: a webhook path belongs to one workflow exactly when no
    workflow is activated with the path of another one's row. -/
theorem belongs_iff_takesNoPath {path : List (Event × Webhooks)} (hrun : IsRun Step .start path) :
    EveryStep Belongs .start path ↔ EveryStep TakesNoPath .start path := by
  refine everyStep_congr hrun Sound.start ?_ ?_
  · rintro s e s' h rfl
    exact h.perform e
  · rintro s e s' h -
    exact belongs_iff h

/-! ## Two workflows -/

/-- A webhook of a node without webhook methods. -/
def getWebhook (path : String) : IWebhookData :=
  { node := "Webhook"
    path
    httpMethod := .GET
    webhookId := none
    createWebhookIfNotExists := none }

def activate (workflowId : WorkflowId) (path : String) : Event :=
  .addWebhooks workflowId .activate [getWebhook path] false

/-- Two workflows with a path each; the first one is deactivated. -/
def twoPaths : List (Event × Webhooks) :=
  pathOf (fun s e => (perform s e).1) .start
    [activate "A" "/orders", activate "B" "invoices", .clearWebhooks "A" none]

theorem belongs_two_paths : EveryStep Belongs .start twoPaths := by
  have hrun : IsRun Step .start twoPaths := ⟨rfl, rfl, rfl, trivial⟩
  refine (belongs_iff_takesNoPath hrun).mpr ⟨?_, ?_, ?_, trivial⟩
  · intro k _ a hrow
    cases hrow
  · intro k hmem a hrow
    obtain rfl := mem_singleton.mp hmem
    cases hrow
  · intro k hmem
    cases hmem

/-- The second workflow comes with the path of the first.  It is activated,
    and the row, the cache entry and the requests are its own from then on;
    when it is deactivated, nobody has the path. -/
theorem second_workflow_takes_path :
    let both := [activate "A" "orders", activate "B" "orders"]
    let path := pathOf (fun s e => (perform s e).1) Webhooks.start both
    let last := lastState Webhooks.start path
    let webhook := createWebhook "B" (getWebhook "orders")
    IsRun Step .start path ∧ ¬ EveryStep Belongs .start path
      ∧ (perform (perform .start (activate "A" "orders")).1 (activate "B" "orders")).2 = .ok true
      ∧ last.rows.get? (.GET, "orders") = some webhook
      ∧ last.cache.get? "webhook:GET-orders" = some webhook
      ∧ last.findWebhook .GET "orders" = some webhook
      ∧ (perform last (.clearWebhooks "B" none)).1.rows = .empty := by
  refine ⟨⟨rfl, rfl, trivial⟩, fun hall => ?_, by decide +kernel,
    by decide +kernel, by decide +kernel, by decide +kernel, by decide +kernel⟩
  obtain ⟨-, hbelongs, -⟩ := hall
  have hkept := hbelongs (.GET, "orders")
    (createWebhook "A" (getWebhook "orders")) (by decide +kernel) (by decide +kernel)
  exact absurd hkept.1 (by decide +kernel)

end N8nWebhookOwnership
