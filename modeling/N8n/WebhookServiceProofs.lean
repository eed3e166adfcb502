import Mathlib.Data.List.Infix
import N8n.OrderedMapProofs

/-! # Webhooks — the table, the cache and their keys

    A webhook is a row of a table whose primary key is the method and the
    path, and it is also kept in a cache, under a text.  `findCached` builds
    that text from the path of a request, `storeWebhook` and `deleteWebhooks`
    take it from the webhook, where a path with a colon gets the webhook's id
    in front.  `lookupKey_eq_cacheKey_iff` says when the two agree. -/

namespace N8nWebhookService

open N8nOrderedMap List

abbrev WorkflowId := String

/-- `IHttpRequestMethods`. -/
inductive Method where
  | DELETE | GET | HEAD | PATCH | POST | PUT
deriving DecidableEq

def Method.name : Method → String
  | .DELETE => "DELETE"
  | .GET => "GET"
  | .HEAD => "HEAD"
  | .PATCH => "PATCH"
  | .POST => "POST"
  | .PUT => "PUT"

def split (path : String) : List (List Char) := path.toList.splitOn '/'

/-- `path.includes(':')`. -/
def hasColon (path : String) : Bool := path.toList.contains ':'

structure WebhookEntity where
  workflowId : WorkflowId
  webhookPath : String
  method : Method
  node : String
  webhookId : Option String
  pathLength : Option Nat
deriving DecidableEq

/-- The primary key of the table. -/
abbrev Key := Method × String

namespace WebhookEntity

def key (w : WebhookEntity) : Key := (w.method, w.webhookPath)

def uniquePath (w : WebhookEntity) : String :=
  if hasColon w.webhookPath then
    w.webhookId.getD "" ++ "/" ++ w.webhookPath
  else w.webhookPath

def cacheKey (w : WebhookEntity) : String := "webhook:" ++ w.method.name ++ "-" ++ w.uniquePath

def staticSegments (w : WebhookEntity) : List (List Char) :=
  (split w.webhookPath).filter fun s => !s.head?.any (· = ':')

def isDynamic (w : WebhookEntity) : Bool := (split w.webhookPath).any fun s => s.head?.any (· = ':')

end WebhookEntity

/-- The text under which `findCached` looks in the cache. -/
def lookupKey (key : Key) : String := "webhook:" ++ key.1.name ++ "-" ++ key.2

/-- The table and the cache, each a key-value store. -/
structure Webhooks where
  rows : OrderedMap Key WebhookEntity
  cache : OrderedMap String WebhookEntity

/-! ## Finding a webhook -/

namespace Webhooks

def start : Webhooks := { rows := .empty, cache := .empty }

def findStaticWebhook (s : Webhooks) (method : Method) (path : String) : Option WebhookEntity :=
  s.rows.get? (method, path)

/-- The best match so far, with its number of static segments. -/
def bestMatch (requestSegments : List (List Char))
    (acc : Option WebhookEntity × Nat) (dw : WebhookEntity) :
    Option WebhookEntity × Nat :=
  if dw.staticSegments.all (requestSegments.contains ·) && acc.2 < dw.staticSegments.length then
    (some dw, dw.staticSegments.length)
  else if dw.staticSegments.length = 0 ∧ acc.1 = none then (some dw, acc.2)
  else acc

/-- The first segment of the path is the webhook's id. -/
def findDynamicWebhook (s : Webhooks) (path : String) (method : Method) : Option WebhookEntity :=
  let uuidSegment := String.ofList ((split path).headD [])
  let otherSegments := (split path).tail
  let dynamicWebhooks := (s.rows.entries.map Prod.snd).filter fun w =>
    w.webhookId = some uuidSegment && w.method = method && w.pathLength = some otherSegments.length
  (dynamicWebhooks.foldl (bestMatch otherSegments) (none, 0)).1

/-- What a request gets that is served on its own. -/
def findWebhook (s : Webhooks) (method : Method) (path : String) : Option WebhookEntity :=
  match s.cache.get? (lookupKey (method, path)) with
  | some cached => some cached
  | none =>
    match s.findStaticWebhook method path with
    | some w => some w
    | none => s.findDynamicWebhook path method

/-! ## Storing and deleting -/

def setCache (s : Webhooks) (cacheKey : String) (w : WebhookEntity) : Webhooks :=
  { s with cache := s.cache.set cacheKey w }

/-- `cacheService.deleteMany`. -/
def clearCache (s : Webhooks) (cacheKeys : List String) : Webhooks :=
  { s with cache := s.cache.filter fun p => !cacheKeys.contains p.1 }

/-- `webhookRepository.upsert`: a row that is there is overwritten. -/
def upsert (s : Webhooks) (w : WebhookEntity) : Webhooks :=
  { s with rows := s.rows.set w.key w }

/-- `webhookRepository.findBy({ workflowId })`. -/
def findBy (s : Webhooks) (workflowId : WorkflowId) : List WebhookEntity :=
  (s.rows.entries.map Prod.snd).filter fun w => w.workflowId = workflowId

/-- `webhookRepository.remove`: rows go by their primary key. -/
def remove (s : Webhooks) (webhooks : List WebhookEntity) : Webhooks :=
  { s with rows := s.rows.filter fun p =>
      !(webhooks.map WebhookEntity.key).contains p.1 }

end Webhooks

/-! ## Lookups after an operation -/

section

variable {κ ν : Type} [DecidableEq κ]

theorem get?_filter_key {m : OrderedMap κ ν} {p : κ → Bool} (k : κ) :
    (m.filter fun e => p e.1).get? k
      = if p k then m.get? k else none := by
  have hget : ∀ v, (m.filter fun e => p e.1).get? k = some v
      ↔ (if p k then m.get? k else none) = some v := by
    intro v
    rw [OrderedMap.get?_filter_eq_some]
    cases hk : p k <;> simp
  cases h : (if p k then m.get? k else none) with
  | some v => exact (hget v).mpr h
  | none =>
    cases h' : (m.filter fun e => p e.1).get? k with
    | none => rfl
    | some v =>
      rw [(hget v).mp h'] at h
      cases h

end

section

variable {s : Webhooks}

@[simp] theorem setCache_rows (c : String) (w : WebhookEntity) :
    (s.setCache c w).rows = s.rows := rfl

theorem setCache_get? (c c' : String) (w : WebhookEntity) :
    (s.setCache c w).cache.get? c' = if c = c' then some w else s.cache.get? c' :=
  OrderedMap.get?_set ..

theorem clearCache_get? (cs : List String) (c : String) :
    (s.clearCache cs).cache.get? c = if c ∈ cs then none else s.cache.get? c := by
  refine (get?_filter_key (p := fun c => !cs.contains c) c).trans ?_
  by_cases hmem : c ∈ cs <;> simp [hmem]

@[simp] theorem upsert_cache (w : WebhookEntity) : (s.upsert w).cache = s.cache := rfl

theorem upsert_get? (w : WebhookEntity) (k : Key) :
    (s.upsert w).rows.get? k = if w.key = k then some w else s.rows.get? k :=
  OrderedMap.get?_set ..

@[simp] theorem remove_cache (ws : List WebhookEntity) : (s.remove ws).cache = s.cache := rfl

theorem remove_get? (ws : List WebhookEntity) (k : Key) :
    (s.remove ws).rows.get? k = if k ∈ ws.map WebhookEntity.key then none else s.rows.get? k := by
  refine (get?_filter_key (p := fun k => !(ws.map WebhookEntity.key).contains k) k).trans ?_
  by_cases hmem : k ∈ ws.map WebhookEntity.key
  · rw [if_pos hmem, contains_iff_mem.mpr hmem]
    rfl
  · rw [if_neg hmem, if_pos (by simpa using hmem)]

variable {w : WebhookEntity}

theorem mem_findBy {workflowId : WorkflowId} :
    w ∈ s.findBy workflowId ↔ w.workflowId = workflowId ∧ ∃ k, s.rows.get? k = some w := by
  rw [Webhooks.findBy, mem_filter, decide_eq_true_eq, and_comm, mem_map]
  refine and_congr_right fun _ => ⟨?_, ?_⟩
  · rintro ⟨⟨k, w'⟩, hmem, rfl⟩
    exact ⟨k, OrderedMap.get?_eq_some.mpr hmem⟩
  · rintro ⟨k, hget⟩
    exact ⟨(k, w), OrderedMap.get?_eq_some.mp hget, rfl⟩

theorem mem_of_bestMatch {segments : List (List Char)}
    {ws : List WebhookEntity} {acc : Option WebhookEntity × Nat}
    (h : (ws.foldl (Webhooks.bestMatch segments) acc).1 = some w) :
    acc.1 = some w ∨ w ∈ ws := by
  induction ws generalizing acc with
  | nil => exact .inl h
  | cons dw rest ih =>
    rcases ih h with hacc | hmem
    · rw [Webhooks.bestMatch] at hacc
      split at hacc
      · cases hacc
        exact .inr (mem_cons_self ..)
      · split at hacc
        · cases hacc
          exact .inr (mem_cons_self ..)
        · exact .inl hacc
    · exact .inr (mem_cons_of_mem _ hmem)

theorem findDynamicWebhook_row {path : String} {method : Method}
    (h : s.findDynamicWebhook path method = some w) :
    ∃ k, s.rows.get? k = some w := by
  rcases mem_of_bestMatch h with hnone | hmem
  · cases hnone
  · obtain ⟨hmem, -⟩ := mem_filter.mp hmem
    obtain ⟨⟨k, w'⟩, hin, rfl⟩ := mem_map.mp hmem
    exact ⟨k, OrderedMap.get?_eq_some.mpr hin⟩

end

/-! ## The keys of the cache -/

theorem method_name_inj {m m' : Method} {p p' : String}
    (h : m.name ++ "-" ++ p = m'.name ++ "-" ++ p') : m = m' ∧ p = p' := by
  have hlist := congrArg String.toList h
  cases m <;> cases m' <;>
    simp [Method.name, String.ext_iff] at hlist ⊢ <;> exact hlist

theorem lookupKey_inj {k k' : Key} : lookupKey k = lookupKey k' ↔ k = k' := by
  constructor
  · intro h
    obtain ⟨m, p⟩ := k
    obtain ⟨m', p'⟩ := k'
    have hlist := congrArg String.toList h
    simp only [lookupKey, String.toList_append, append_assoc, append_cancel_left_eq] at hlist
    have htext : m.name ++ "-" ++ p = m'.name ++ "-" ++ p' := String.ext (by simpa using hlist)
    obtain ⟨hm, hp⟩ := method_name_inj htext
    rw [hm, hp]
  · exact congrArg lookupKey

theorem cacheKey_eq_lookupKey (w : WebhookEntity) :
    w.cacheKey = lookupKey (w.method, w.uniquePath) := rfl

theorem uniquePath_of_not_hasColon {w : WebhookEntity}
    (h : hasColon w.webhookPath = false) : w.uniquePath = w.webhookPath := by
  simp [WebhookEntity.uniquePath, h]

theorem hasColon_uniquePath (w : WebhookEntity) :
    hasColon w.uniquePath = hasColon w.webhookPath := by
  by_cases h : hasColon w.webhookPath = true
  · rw [h, WebhookEntity.uniquePath, if_pos h]
    simp only [hasColon, contains_iff_mem] at h ⊢
    simp [h]
  · rw [uniquePath_of_not_hasColon (Bool.eq_false_iff.mpr h)]

theorem cacheKey_eq_of_not_hasColon {w : WebhookEntity} {k : Key} (hcolon : hasColon k.2 = false) :
    w.cacheKey = lookupKey k ↔ w.key = k := by
  rw [cacheKey_eq_lookupKey, lookupKey_inj]
  constructor
  · rintro rfl
    rw [hasColon_uniquePath] at hcolon
    rw [uniquePath_of_not_hasColon hcolon]
    rfl
  · rintro rfl
    rw [uniquePath_of_not_hasColon (w := w) hcolon]
    rfl

end N8nWebhookService
