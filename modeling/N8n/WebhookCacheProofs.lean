import N8n.RunProofs
import N8n.WebhookServiceProofs

/-! # The webhook cache — requests, stores and deletions

    A request looks in the cache, reads the table when it finds nothing, and
    writes what it read back to the cache.  A store writes the cache and then
    the table.  A deletion reads the rows of the workflow, has the cache
    cleared without waiting for it, and removes the rows.  Any of these can
    wait between two steps while the others go on.

    `coherent_iff_undisturbed` names the steps that make the cache differ
    from the table: a request that writes back a row which is no longer
    there, a deletion that ends while the cache still has one of its
    webhooks, and stores whose texts or whose order do not fit. -/

namespace N8nWebhookCache

open N8nRun N8nOrderedMap N8nWebhookService List

/-! ## State -/

/-- How far a request got. -/
inductive Find where
  /-- the cache is asked; -/
  | looking (key : Key)
  /-- it had nothing, the row of the path is read; -/
  | reading (key : Key)
  /-- the row is written to the cache; -/
  | filling (key : Key) (webhook : WebhookEntity)
  /-- there is no row, the dynamic webhooks are searched. -/
  | searching (key : Key)

/-- The table and the cache, and what is in progress: requests, stores whose
    row is not written yet, deletions with the webhooks they found, and the
    texts that the cache is still to be cleared of.  `deleted` lists the
    webhooks that completed deletions took away and that were not stored
    again, `returned` the answers to the requests. -/
structure Service where
  webhooks : Webhooks
  finds : List Find
  stores : List WebhookEntity
  deletions : List (List WebhookEntity)
  clears : List (List String)
  deleted : List WebhookEntity
  returned : List (Key × Option WebhookEntity)

namespace Service

def start : Service :=
  { webhooks := .start
    finds := []
    stores := []
    deletions := []
    clears := []
    deleted := []
    returned := [] }

def answer (s : Service) (find : Nat) (key : Key) (webhook : Option WebhookEntity) : Service :=
  { s with
    finds := s.finds.eraseIdx find
    returned := s.returned ++ [(key, webhook)] }

/-- A store or a deletion of the method and path is in progress. -/
def InProgress (s : Service) (key : Key) : Prop :=
  (∃ w ∈ s.stores, w.key = key) ∨ ∃ ws ∈ s.deletions, ∃ w ∈ ws, w.key = key

/-- The webhook is the row of a static path, and nothing else is about to
    happen to that row. -/
def Settled (s : Service) (key : Key) (w : WebhookEntity) : Prop :=
  s.webhooks.rows.get? key = some w ∧ w.isDynamic = false ∧ ¬ s.InProgress key

end Service

/-! ## Steps -/

/-- What can happen.  Requests, stores, deletions and the clearing of the
    cache are given by their place among those in progress. -/
inductive Event where
  | findStarted (key : Key)
  | findLooked (find : Nat)
  | findRead (find : Nat)
  | findFilled (find : Nat)
  | findSearched (find : Nat)
  /-- `storeWebhook` has written the cache; -/
  | storeCached (webhook : WebhookEntity)
  | storeUpserted (store : Nat)
  /-- `deleteWorkflowWebhooks` has found the rows; -/
  | deleteFound (workflowId : WorkflowId)
  | cacheCleared (clear : Nat)
  | rowsRemoved (deletion : Nat)

def Enabled (s : Service) : Event → Prop
  | .findLooked find => ∃ key, s.finds[find]? = some (.looking key)
  | .findRead find => ∃ key, s.finds[find]? = some (.reading key)
  | .findFilled find => ∃ key w, s.finds[find]? = some (.filling key w)
  | .findSearched find => ∃ key, s.finds[find]? = some (.searching key)
  | .storeUpserted store => store < s.stores.length
  | .cacheCleared clear => clear < s.clears.length
  | .rowsRemoved deletion => deletion < s.deletions.length
  | _ => True

@[grind =] def next (s : Service) : Event → Service
  | .findStarted key => { s with finds := s.finds ++ [.looking key] }
  | .findLooked find =>
    match s.finds[find]? with
    | some (.looking key) =>
      match s.webhooks.cache.get? (lookupKey key) with
      | some cached => s.answer find key (some cached)
      | none => { s with finds := s.finds.set find (.reading key) }
    | _ => s
  | .findRead find =>
    match s.finds[find]? with
    | some (.reading key) =>
      match s.webhooks.findStaticWebhook key.1 key.2 with
      | some w => { s with finds := s.finds.set find (.filling key w) }
      | none => { s with finds := s.finds.set find (.searching key) }
    | _ => s
  | .findFilled find =>
    match s.finds[find]? with
    | some (.filling key w) =>
      { s.answer find key (some w) with
        webhooks := s.webhooks.setCache (lookupKey key) w }
    | _ => s
  | .findSearched find =>
    match s.finds[find]? with
    | some (.searching key) =>
      s.answer find key (s.webhooks.findDynamicWebhook key.2 key.1)
    | _ => s
  | .storeCached w =>
    { s with
      webhooks := s.webhooks.setCache w.cacheKey w
      stores := s.stores ++ [w]
      deleted := s.deleted.filter fun w' => w' ≠ w }
  | .storeUpserted store =>
    match s.stores[store]? with
    | some w =>
      { s with
        webhooks := s.webhooks.upsert w
        stores := s.stores.eraseIdx store }
    | none => s
  | .deleteFound workflowId =>
    let webhooks := s.webhooks.findBy workflowId
    { s with
      deletions := s.deletions ++ [webhooks]
      clears := s.clears ++ [webhooks.map WebhookEntity.cacheKey] }
  | .cacheCleared clear =>
    match s.clears[clear]? with
    | some cacheKeys =>
      { s with
        webhooks := s.webhooks.clearCache cacheKeys
        clears := s.clears.eraseIdx clear }
    | none => s
  | .rowsRemoved deletion =>
    match s.deletions[deletion]? with
    | some webhooks =>
      -- One that is just being stored again does not count as deleted.
      { s with
        webhooks := s.webhooks.remove webhooks
        deletions := s.deletions.eraseIdx deletion
        deleted := s.deleted ++ webhooks.filter (· ∉ s.stores) }
    | none => s

def Step (s : Service) (e : Event) (s' : Service) : Prop := Enabled s e ∧ s' = next s e

/-! ## The property and the condition -/

/-- A request that is served from here never gets a deleted webhook, and one
    for a stored static path gets the webhook that is stored. -/
structure Coherent (s : Service) : Prop where
  noDeleted : ∀ method path w, s.webhooks.findWebhook method path = some w → w ∉ s.deleted
  stored : ∀ key w, s.Settled key w → s.webhooks.findWebhook key.1 key.2 = some w

/-- The condition, on the state a step is taken from. -/
def Undisturbed (s : Service) : Event → Prop
  | .findFilled find => ∀ key w, s.finds[find]? = some (.filling key w) →
      -- What was read from the table is still what the table has.
      w ∉ s.deleted ∧ ∀ a, s.Settled key a → a = w
  | .storeCached w =>
    -- The text of the webhook is not what requests for another one use.
    ∀ key a, s.Settled key a → key ≠ w.key → lookupKey key ≠ w.cacheKey
  | .storeUpserted store => ∀ w, s.stores[store]? = some w →
      -- Unless the path is busy, the cache has nothing else for it.
      w.isDynamic = false →
      ¬ Service.InProgress
        { s with stores := s.stores.eraseIdx store } w.key →
      ∀ e, s.webhooks.cache.get? (lookupKey w.key) = some e → e = w
  | .rowsRemoved deletion => ∀ ws, s.deletions[deletion]? = some ws →
      -- The cache has none of the webhooks, under any text.
      ∀ key w, s.webhooks.cache.get? (lookupKey key) = some w → w ∈ ws → w ∈ s.stores
  | _ => True

/-! ## Requests -/

section

variable {w : Webhooks}

theorem findWebhook_cases {method : Method} {path : String}
    {found : WebhookEntity} (h : w.findWebhook method path = some found) :
    w.cache.get? (lookupKey (method, path)) = some found ∨ ∃ key, w.rows.get? key = some found := by
  rw [Webhooks.findWebhook] at h
  rcases hcache : w.cache.get? (lookupKey (method, path)) with _ | cached
  · rw [hcache] at h
    rcases hrow : w.findStaticWebhook method path with _ | row
    · rw [hrow] at h
      exact .inr (findDynamicWebhook_row h)
    · rw [hrow] at h
      cases h
      exact .inr ⟨_, hrow⟩
  · rw [hcache] at h
    cases h
    exact .inl rfl

theorem findWebhook_of_cached {key : Key} {cached : WebhookEntity}
    (h : w.cache.get? (lookupKey key) = some cached) :
    w.findWebhook key.1 key.2 = some cached := by
  rw [Webhooks.findWebhook, h]

theorem findWebhook_of_row {key : Key} {row : WebhookEntity} (hrow : w.rows.get? key = some row)
    (hcache : ∀ cached, w.cache.get? (lookupKey key) = some cached → cached = row) :
    w.findWebhook key.1 key.2 = some row := by
  rcases h : w.cache.get? (lookupKey key) with _ | cached
  · rw [Webhooks.findWebhook, h, Webhooks.findStaticWebhook]
    simp [hrow]
  · rw [findWebhook_of_cached h, hcache cached h]

end

/-! ## The table and what is in progress -/

/-- What holds in any case: rows have their keys, and neither a row nor a
    webhook that is being stored counts as deleted. -/
structure Sound (s : Service) : Prop where
  keyed : ∀ key w, s.webhooks.rows.get? key = some w → w.key = key
  rows : ∀ key w, s.webhooks.rows.get? key = some w → w ∉ s.deleted
  stores : ∀ w ∈ s.stores, w ∉ s.deleted

theorem Sound.start : Sound .start := by
  constructor
  · rintro key w h
    cases h
  · rintro key w h
    cases h
  · rintro w hmem
    cases hmem

variable {s : Service}

theorem Sound.frame {s' : Service} (h : Sound s) (hrows : s'.webhooks.rows = s.webhooks.rows)
    (hstores : s'.stores = s.stores) (hdeleted : s'.deleted = s.deleted) :
    Sound s' := by
  constructor
  · rw [hrows]
    exact h.keyed
  · rw [hrows, hdeleted]
    exact h.rows
  · rw [hstores, hdeleted]
    exact h.stores

theorem Sound.storeCached (h : Sound s) (w : WebhookEntity) : Sound (next s (.storeCached w)) := by
  have hfewer : ∀ w', w' ∉ s.deleted → w' ∉ s.deleted.filter fun w' => w' ≠ w := fun w' hnot hmem =>
    hnot (mem_filter.mp hmem).1
  constructor
  · exact h.keyed
  · intro key w' hget
    exact hfewer w' (h.rows key w' hget)
  · intro w' hmem
    rcases mem_append.mp hmem with hmem | hmem
    · exact hfewer w' (h.stores w' hmem)
    · obtain rfl := mem_singleton.mp hmem
      simp [next]

theorem Sound.storeUpserted (h : Sound s) (store : Nat) :
    Sound (next s (.storeUpserted store)) := by
  rw [next]
  rcases hstore : s.stores[store]? with _ | w
  · exact h
  · have hw : w ∈ s.stores := mem_of_getElem? hstore
    constructor
    · intro key w' hget
      rw [upsert_get?] at hget
      split at hget
      · rename_i hkey
        cases hget
        exact hkey
      · exact h.keyed key w' hget
    · intro key w' hget
      rw [upsert_get?] at hget
      split at hget
      · cases hget
        exact h.stores w hw
      · exact h.rows key w' hget
    · intro w' hmem
      exact h.stores w' (mem_of_mem_eraseIdx hmem)

theorem Sound.rowsRemoved (h : Sound s) (deletion : Nat) :
    Sound (next s (.rowsRemoved deletion)) := by
  rw [next]
  rcases hdeletion : s.deletions[deletion]? with _ | ws
  · exact h
  · constructor
    · intro key w hget
      rw [remove_get?] at hget
      split at hget
      · cases hget
      · exact h.keyed key w hget
    · intro key w hget hmem
      rw [remove_get?] at hget
      split at hget
      · cases hget
      · rename_i hkept
        rcases mem_append.mp hmem with hmem | hmem
        · exact h.rows key w hget hmem
        · obtain ⟨hmem, -⟩ := mem_filter.mp hmem
          rw [← h.keyed key w hget] at hkept
          exact hkept (mem_map_of_mem hmem)
    · intro w hstore hmem
      rcases mem_append.mp hmem with hmem | hmem
      · exact h.stores w hstore hmem
      · obtain ⟨-, hnot⟩ := mem_filter.mp hmem
        exact of_decide_eq_true hnot hstore

theorem Sound.next {e : Event} (h : Sound s) (henabled : Enabled s e) : Sound (next s e) := by
  cases e with
  | findStarted key => exact h.frame rfl rfl rfl
  | findLooked find =>
    obtain ⟨key, hfind⟩ := henabled
    simp only [N8nWebhookCache.next, hfind]
    split
    · exact h.frame rfl rfl rfl
    · exact h.frame rfl rfl rfl
  | findRead find =>
    obtain ⟨key, hfind⟩ := henabled
    simp only [N8nWebhookCache.next, hfind]
    split
    · exact h.frame rfl rfl rfl
    · exact h.frame rfl rfl rfl
  | findFilled find =>
    obtain ⟨key, w, hfind⟩ := henabled
    simp only [N8nWebhookCache.next, hfind]
    exact h.frame rfl rfl rfl
  | findSearched find =>
    obtain ⟨key, hfind⟩ := henabled
    simp only [N8nWebhookCache.next, hfind]
    exact h.frame rfl rfl rfl
  | storeCached w => exact h.storeCached w
  | storeUpserted store => exact h.storeUpserted store
  | deleteFound workflowId => exact h.frame rfl rfl rfl
  | cacheCleared clear =>
    rw [N8nWebhookCache.next]
    rcases s.clears[clear]? with _ | cacheKeys
    · exact h
    · exact h.frame rfl rfl rfl
  | rowsRemoved deletion => exact h.rowsRemoved deletion

/-! ## What has completed -/

/-! ## The cache and the table -/

/-- What the property comes to for the entries of the cache. -/
structure Agrees (s : Service) : Prop where
  fresh : ∀ key w, s.webhooks.cache.get? (lookupKey key) = some w → w ∉ s.deleted
  settled : ∀ key a, s.Settled key a → ∀ w, s.webhooks.cache.get? (lookupKey key) = some w → w = a

theorem coherent_iff_agrees (h : Sound s) : Coherent s ↔ Agrees s := by
  constructor
  · intro hcoherent
    constructor
    · intro key w hcached
      exact hcoherent.noDeleted key.1 key.2 w (findWebhook_of_cached hcached)
    · intro key a hsettled w hcached
      have hfound := hcoherent.stored key a hsettled
      rw [findWebhook_of_cached hcached] at hfound
      exact Option.some.inj hfound
  · intro hagrees
    constructor
    · intro method path w hfound
      rcases findWebhook_cases hfound with hcached | ⟨key, hrow⟩
      · exact hagrees.fresh (method, path) w hcached
      · exact h.rows key w hrow
    · intro key a hsettled
      exact findWebhook_of_row hsettled.1 (hagrees.settled key a hsettled)

section

variable {s : Service}

theorem Agrees.frame {s' : Service} (h : Agrees s) (hcache : s'.webhooks.cache = s.webhooks.cache)
    (hdeleted : s'.deleted = s.deleted) (hsettled : ∀ key a, s'.Settled key a → s.Settled key a) :
    Agrees s' := by
  constructor
  · rw [hcache, hdeleted]
    exact h.fresh
  · rw [hcache]
    intro key a ha
    exact h.settled key a (hsettled key a ha)

/-- **WRITING BACK** what a request has read. -/
theorem agrees_findFilled {find : Nat} {key : Key} {w : WebhookEntity}
    (h : Agrees s) (hfind : s.finds[find]? = some (.filling key w)) :
    Agrees (next s (.findFilled find)) ↔ Undisturbed s (.findFilled find) := by
  simp only [next, Undisturbed, hfind]
  have hget : ∀ key', (s.webhooks.setCache (lookupKey key) w).cache.get? (lookupKey key')
        = if key = key' then some w
          else s.webhooks.cache.get? (lookupKey key') := by
    intro key'
    rw [setCache_get?]
    by_cases hkey : key = key'
    · rw [if_pos hkey, if_pos (congrArg lookupKey hkey)]
    · rw [if_neg hkey, if_neg (mt lookupKey_inj.mp hkey)]
  constructor
  · intro hagrees key' w' hsame
    cases hsame
    have hself := (hget key).trans (if_pos rfl)
    exact ⟨hagrees.fresh key w hself, fun a ha => (hagrees.settled key a ha w hself).symm⟩
  · intro hcond
    obtain ⟨hfresh, hsame⟩ := hcond key w rfl
    constructor
    · intro key' w' hcached
      rw [hget] at hcached
      split at hcached
      · cases hcached
        exact hfresh
      · exact h.fresh key' w' hcached
    · intro key' a ha w' hcached
      rw [hget] at hcached
      split at hcached
      · rename_i hkey
        cases hcached
        subst hkey
        exact (hsame a ha).symm
      · exact h.settled key' a ha w' hcached

/-- **STORING**: the cache entry is written under the webhook's own text. -/
theorem agrees_storeCached (hsound : Sound s) (h : Agrees s) (w : WebhookEntity) :
    Agrees (next s (.storeCached w)) ↔ Undisturbed s (.storeCached w) := by
  -- The path of the webhook itself is busy from now on.
  have hbusy : ∀ key a, (next s (.storeCached w)).Settled key a →
      s.Settled key a ∧ key ≠ w.key := by
    rintro key a ⟨hrow, hstatic, hfree⟩
    refine ⟨⟨hrow, hstatic, fun hprogress => hfree ?_⟩, ?_⟩
    · rcases hprogress with ⟨w', hmem, hkey⟩ | hdeletion
      · exact .inl ⟨w', mem_append_left _ hmem, hkey⟩
      · exact .inr hdeletion
    · rintro rfl
      exact hfree (.inl ⟨w, by simp [next], rfl⟩)
  have hsettled : ∀ key a, s.Settled key a → key ≠ w.key →
      (next s (.storeCached w)).Settled key a := by
    rintro key a ⟨hrow, hstatic, hfree⟩ hne
    refine ⟨hrow, hstatic, ?_⟩
    rintro (⟨w', hmem, hkey⟩ | hdeletion)
    · rcases mem_append.mp hmem with hmem | hmem
      · exact hfree (.inl ⟨w', hmem, hkey⟩)
      · obtain rfl := mem_singleton.mp hmem
        exact hne hkey.symm
    · exact hfree (.inr hdeletion)
  have hget : ∀ c, (next s (.storeCached w)).webhooks.cache.get? c
      = if w.cacheKey = c then some w else s.webhooks.cache.get? c :=
    fun c => setCache_get? ..
  constructor
  · intro hagrees key a ha hne htext
    have hcached := (hget (lookupKey key)).trans (if_pos htext.symm)
    have hsame := hagrees.settled key a (hsettled key a ha hne) w hcached
    rw [← hsound.keyed key a ha.1, ← hsame] at hne
    exact hne rfl
  · intro hcond
    constructor
    · intro key w' hcached hmem
      obtain ⟨hmem, hne⟩ := mem_filter.mp hmem
      rw [hget] at hcached
      split at hcached
      · cases hcached
        exact of_decide_eq_true hne rfl
      · exact h.fresh key w' hcached hmem
    · intro key a ha w' hcached
      obtain ⟨ha, hne⟩ := hbusy key a ha
      rw [hget, if_neg (Ne.symm (hcond key a ha hne))] at hcached
      exact h.settled key a ha w' hcached

/-- **THE ROW** of a store: the cache must have nothing else for it. -/
theorem agrees_storeUpserted (h : Agrees s) (store : Nat) :
    Agrees (next s (.storeUpserted store)) ↔ Undisturbed s (.storeUpserted store) := by
  simp only [next, Undisturbed]
  rcases hstore : s.stores[store]? with _ | w
  · exact iff_of_true h fun w hw => by cases hw
  · have hprogress : ∀ key, key ≠ w.key → s.InProgress key →
        Service.InProgress { s with stores := s.stores.eraseIdx store } key := by
      rintro key hne (⟨w', hmem, hkey⟩ | hdeletion)
      · refine .inl ⟨w', ?_, hkey⟩
        obtain ⟨i, hi⟩ := mem_iff_getElem?.mp hmem
        refine mem_eraseIdx_iff_getElem?.mpr ⟨i, ?_, hi⟩
        rintro rfl
        rw [hstore] at hi
        cases hi
        exact hne hkey.symm
      · exact .inr hdeletion
    constructor
    · intro hagrees w' hw' hstatic hfree e hcached
      cases hw'
      refine hagrees.settled w.key w ⟨?_, hstatic, hfree⟩ e hcached
      exact (upsert_get? ..).trans (if_pos rfl)
    · intro hcond
      constructor
      · exact h.fresh
      · rintro key a ⟨hrow, hstatic, hfree⟩ e hcached
        by_cases hkey : w.key = key
        · subst hkey
          have ha := hrow.symm.trans ((upsert_get? ..).trans (if_pos rfl))
          cases ha
          exact hcond w rfl hstatic hfree e hcached
        · have ha := hrow.symm.trans ((upsert_get? ..).trans (if_neg hkey))
          refine h.settled key a ⟨ha.symm, hstatic, fun hbusy => ?_⟩ e hcached
          exact hfree (hprogress key (Ne.symm hkey) hbusy)

/-- **CLEARING** the cache leaves less to disagree. -/
theorem Agrees.cacheCleared (h : Agrees s) (clear : Nat) :
    Agrees (next s (.cacheCleared clear)) := by
  rw [next]
  rcases hclear : s.clears[clear]? with _ | cacheKeys
  · exact h
  · have hless : ∀ c w, (s.webhooks.clearCache cacheKeys).cache.get? c
        = some w → s.webhooks.cache.get? c = some w := by
      intro c w hcached
      rw [clearCache_get?] at hcached
      split at hcached
      · cases hcached
      · exact hcached
    constructor
    · intro key w hcached
      exact h.fresh key w (hless _ w hcached)
    · intro key a ha w hcached
      exact h.settled key a ha w (hless _ w hcached)

/-- **REMOVING** rows: the cache must have none of them left. -/
theorem agrees_rowsRemoved (h : Agrees s) (deletion : Nat) :
    Agrees (next s (.rowsRemoved deletion)) ↔ Undisturbed s (.rowsRemoved deletion) := by
  simp only [next, Undisturbed]
  rcases hdeletion : s.deletions[deletion]? with _ | ws
  · exact iff_of_true h fun ws hws => by cases hws
  · constructor
    · intro hagrees ws' hws key w hcached hmem
      cases hws
      by_contra hnot
      refine hagrees.fresh key w hcached (mem_append_right _ ?_)
      exact mem_filter.mpr ⟨hmem, decide_eq_true hnot⟩
    · intro hcond
      constructor
      · intro key w hcached hmem
        rcases mem_append.mp hmem with hmem | hmem
        · exact h.fresh key w hcached hmem
        · obtain ⟨hmem, hnot⟩ := mem_filter.mp hmem
          exact of_decide_eq_true hnot (hcond ws rfl key w hcached hmem)
      · rintro key a ⟨hrow, hstatic, hfree⟩
        rw [remove_get?] at hrow
        split at hrow
        · cases hrow
        · rename_i hkept
          refine h.settled key a ⟨hrow, hstatic, fun hbusy => hfree ?_⟩
          rcases hbusy with hstore | ⟨ws', hmem, w, hw, hkey⟩
          · exact .inl hstore
          · refine .inr ⟨ws', ?_, w, hw, hkey⟩
            -- The deletion that ends has no webhook of this path.
            obtain ⟨i, hi⟩ := mem_iff_getElem?.mp hmem
            refine mem_eraseIdx_iff_getElem?.mpr ⟨i, ?_, hi⟩
            rintro rfl
            rw [hdeletion] at hi
            cases hi
            exact hkept (hkey ▸ mem_map_of_mem hw)

/-- **ONE STEP** keeps the agreement exactly when it is undisturbed. -/
theorem agrees_next_iff {e : Event} (hsound : Sound s) (h : Agrees s)
    (henabled : Enabled s e) : Agrees (next s e) ↔ Undisturbed s e := by
  cases e with
  | findStarted key => exact iff_of_true (h.frame rfl rfl fun _ _ ha => ha) trivial
  | findLooked find =>
    refine iff_of_true ?_ trivial
    obtain ⟨key, hfind⟩ := henabled
    simp only [next, hfind]
    split
    · exact h.frame rfl rfl fun _ _ ha => ha
    · exact h.frame rfl rfl fun _ _ ha => ha
  | findRead find =>
    refine iff_of_true ?_ trivial
    obtain ⟨key, hfind⟩ := henabled
    simp only [next, hfind]
    split
    · exact h.frame rfl rfl fun _ _ ha => ha
    · exact h.frame rfl rfl fun _ _ ha => ha
  | findFilled find =>
    obtain ⟨key, w, hfind⟩ := henabled
    exact agrees_findFilled h hfind
  | findSearched find =>
    refine iff_of_true ?_ trivial
    obtain ⟨key, hfind⟩ := henabled
    simp only [next, hfind]
    exact h.frame rfl rfl fun _ _ ha => ha
  | storeCached w => exact agrees_storeCached hsound h w
  | storeUpserted store => exact agrees_storeUpserted h store
  | deleteFound workflowId =>
    refine iff_of_true (h.frame rfl rfl ?_) trivial
    rintro key a ⟨hrow, hstatic, hfree⟩
    refine ⟨hrow, hstatic, ?_⟩
    rintro (hstore | ⟨ws, hmem, hws⟩)
    · exact hfree (.inl hstore)
    · exact hfree (.inr ⟨ws, mem_append_left _ hmem, hws⟩)
  | cacheCleared clear => exact iff_of_true (h.cacheCleared clear) trivial
  | rowsRemoved deletion => exact agrees_rowsRemoved h deletion

end

/-! ## Every run -/

/-- **EVERY RUN**: the cache is coherent with the table in every state
    exactly when every step is undisturbed. -/
theorem coherent_iff_undisturbed {path : List (Event × Service)} (hrun : IsRun Step .start path) :
    EveryState Coherent .start path ↔ EveryStep Undisturbed .start path := by
  have hstart : Agrees .start := by
    constructor
    · rintro key w hcached
      cases hcached
    · rintro key a - w hcached
      cases hcached
  refine everyState_iff_everyStep (I := fun s => Sound s ∧ Agrees s) hrun
    ⟨Sound.start, hstart⟩ (fun s h => (coherent_iff_agrees h.1).mpr h.2) ?_ ?_
  · rintro s e s' ⟨hsound, h⟩ ⟨henabled, rfl⟩ hcond
    exact ⟨hsound.next henabled, (agrees_next_iff hsound h henabled).mpr hcond⟩
  · rintro s e s' ⟨hsound, h⟩ ⟨henabled, rfl⟩ hcond hcoherent
    rw [coherent_iff_agrees (hsound.next henabled)] at hcoherent
    exact hcond ((agrees_next_iff hsound h henabled).mp hcoherent)

/-! ## Runs of one webhook -/

/-- A static webhook of workflow `"A"`. -/
def getWebhook (webhookPath : String) : WebhookEntity :=
  { workflowId := "A"
    webhookPath
    method := .GET
    node := "Webhook"
    webhookId := none
    pathLength := none }

/-- It is stored, a request gets it from the cache, and it is deleted. -/
def storeAndDelete : List (Event × Service) :=
  pathOf next .start
    [.storeCached (getWebhook "orders"), .storeUpserted 0,
     .findStarted (.GET, "orders"), .findLooked 0, .deleteFound "A",
     .cacheCleared 0, .rowsRemoved 0]

theorem coherent_storeAndDelete : EveryState Coherent .start storeAndDelete := by
  have hrun : IsRun Step .start storeAndDelete :=
    ⟨⟨trivial, rfl⟩, ⟨Nat.zero_lt_one, rfl⟩, ⟨trivial, rfl⟩,
      ⟨⟨(.GET, "orders"), rfl⟩, rfl⟩, ⟨trivial, rfl⟩,
      ⟨Nat.zero_lt_one, rfl⟩, ⟨Nat.zero_lt_one, rfl⟩, trivial⟩
  refine (coherent_iff_undisturbed hrun).mpr
    ⟨?_, ?_, trivial, trivial, trivial, trivial, ?_, trivial⟩
  · rintro key a ⟨hrow, -⟩
    cases hrow
  · rintro w hw - - e hcached
    cases hw
    exact (Option.some.inj hcached).symm
  · rintro ws - key w hcached
    cases hcached

/-- A request for a static path with a colon writes the webhook to the cache
    under a text that the deletion does not clear.  Without a colon the same
    happens when the deletion comes between reading and writing. -/
theorem deleted_webhook_returned :
    let colon := getWebhook "a:b"
    let race := getWebhook "orders"
    let colonPath := pathOf next .start
      [.storeCached colon, .storeUpserted 0, .findStarted colon.key,
       .findLooked 0, .findRead 0, .findFilled 0, .deleteFound "A", .cacheCleared 0, .rowsRemoved 0]
    let racePath := pathOf next .start
      [.storeCached race, .storeUpserted 0, .deleteFound "A",
       .cacheCleared 0, .findStarted race.key, .findLooked 0, .findRead 0,
       .rowsRemoved 0, .findFilled 0]
    (IsRun Step .start colonPath
        ∧ (lastState .start colonPath).webhooks.findWebhook .GET "a:b" = some colon
        ∧ ¬ EveryState Coherent .start colonPath)
      ∧ (IsRun Step .start racePath
        ∧ (lastState .start racePath).webhooks.findWebhook .GET "orders" = some race
        ∧ ¬ EveryState Coherent .start racePath) := by
  refine ⟨⟨⟨⟨trivial, rfl⟩, ⟨Nat.zero_lt_one, rfl⟩, ⟨trivial, rfl⟩,
      ⟨⟨_, rfl⟩, rfl⟩, ⟨⟨_, rfl⟩, rfl⟩, ⟨⟨_, _, rfl⟩, rfl⟩,
      ⟨trivial, rfl⟩, ⟨Nat.zero_lt_one, rfl⟩, ⟨Nat.zero_lt_one, rfl⟩,
      trivial⟩, by decide +kernel, fun hall => ?_⟩,
    ⟨⟨⟨trivial, rfl⟩, ⟨Nat.zero_lt_one, rfl⟩, ⟨trivial, rfl⟩,
      ⟨Nat.zero_lt_one, rfl⟩, ⟨trivial, rfl⟩, ⟨⟨_, rfl⟩, rfl⟩,
      ⟨⟨_, rfl⟩, rfl⟩, ⟨Nat.zero_lt_one, rfl⟩, ⟨⟨_, _, rfl⟩, rfl⟩,
      trivial⟩, by decide +kernel, fun hall => ?_⟩⟩
  · exact hall.last.noDeleted .GET "a:b" (getWebhook "a:b") (by decide +kernel) (by decide +kernel)
  · exact hall.last.noDeleted .GET "orders" (getWebhook "orders")
      (by decide +kernel) (by decide +kernel)

end N8nWebhookCache
