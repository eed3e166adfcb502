import N8n.RunProofs
import N8n.ExceptProofs
import N8n.OrderedMapProofs

/-! # The cache — one service, two back ends

    The cache service keeps plain values and hashes, in memory or in Redis.
    In memory a hash is an object under its key; in Redis it is a value of
    its own kind, and a command of the wrong kind fails.  Nothing expires,
    and nothing is evicted from memory.

    `contents` is what was written last and not deleted.
    `agree_of_safe` shows that both back ends answer from it, in every run
    whose steps write no value that a guard drops, use every key as the kind
    it was written as, and refresh no hash. -/

namespace N8nCacheService

open N8nRun N8nExcept N8nOrderedMap List

/-! ## Values -/

inductive Json where
  | null
  | boolean (value : Bool)
  | number (value : Rat)
  | string (value : String)
  | array (items : List Json)
  | object (fields : List (String × Json))

abbrev Hash := List (String × Json)

def Json.isNull : Json → Bool
  | .null => true
  | _ => false

/-- `undefined` is nothing. -/
def isTruthy : Option Json → Bool
  | none | some .null => false
  | some (.boolean value) => value
  | some (.number value) => value ≠ 0
  | some (.string value) => value ≠ ""
  | some (.array _) | some (.object _) => true

/-- What a read gives; what a prototype has is no JSON value. -/
inductive Read where
  | undefined
  | json (value : Json)
  | native (name : String)

def Read.ofOption : Option Json → Read
  | none => .undefined
  | some value => .json value

inductive Failure where
  | uncacheableValueError (key : String)
  | noCacheableError
  | wrongType
  | wrongNumberOfArguments (command : String)
  | typeError

/-- What the language does with values that are no plain objects, and with
    members that an object does not have itself. -/
structure Engine where
  inherited : Json → String → Read
  assign : Json → Hash → Except Failure Json
  deleteMember : Json → String → Except Failure Json

/-- `value?.[name]` -/
def Engine.member (engine : Engine) (value : Json) (name : String) : Read :=
  match value with
  | .null => .undefined
  | .object fields =>
    match findKey name fields with
    | some field => .json field
    | none => engine.inherited (.object fields) name
  | value => engine.inherited value name

/-- The fields of a hash written one by one. -/
def writeFields {V : Type} (fields written : List (String × V)) : List (String × V) :=
  written.foldl (fun fields field => setEntry field.1 field.2 fields) fields

/-- `Object.assign`; writing `__proto__` makes no field. -/
def Engine.assignTo (engine : Engine) (value : Json) (hash : Hash) : Except Failure Json :=
  match value with
  | .object fields =>
    .ok (.object (writeFields fields (hash.filter fun field => field.1 ≠ "__proto__")))
  | value => engine.assign value hash

/-- `delete value[name]` -/
def Engine.delete (engine : Engine) (value : Json) (name : String) : Except Failure Json :=
  match value with
  | .object fields => .ok (.object (dropKey name fields))
  | value => engine.deleteMember value name

/-! ## Redis -/

/-- The text of a JSON value, which is read back as the value. -/
structure JsonText where
  value : Json

def jsonParse (text : JsonText) : Json := text.value

inductive RedisValue where
  | string (text : JsonText)
  | hash (fields : List (String × JsonText))

/-- The commands of Redis. -/
abbrev Redis := OrderedMap String RedisValue

namespace Redis

def get (redis : Redis) (key : String) : Except Failure (Option JsonText) :=
  match redis.get? key with
  | none => .ok none
  | some (.string text) => .ok (some text)
  | some (.hash _) => .error .wrongType

def mset (redis : Redis) (args : List (String × JsonText)) : Except Failure Redis :=
  if args = [] then .error (.wrongNumberOfArguments "mset")
  else .ok (args.foldl (fun redis p => redis.set p.1 (.string p.2)) redis)

/-- The fields of a hash; a missing one has none. -/
def fieldsOf (redis : Redis) (key : String) : Except Failure (Option (List (String × JsonText))) :=
  match redis.get? key with
  | none => .ok none
  | some (.hash fields) => .ok (some fields)
  | some (.string _) => .error .wrongType

def hset (redis : Redis) (key : String) (written : List (String × JsonText)) :
    Except Failure Redis := do
  if written = [] then throw (.wrongNumberOfArguments "hset")
  let fields ← redis.fieldsOf key
  return redis.set key (.hash (writeFields (fields.getD []) written))

/-- A hash that has lost its last field is gone. -/
def hdel (redis : Redis) (key field : String) : Except Failure Redis := do
  match ← redis.fieldsOf key with
  | none => return redis
  | some fields =>
    match dropKey field fields with
    | [] => return redis.delete key
    | left => return redis.set key (.hash left)

end Redis

/-! ## The stores -/

/-- The default of both stores; a value that is not there is `undefined`. -/
def isCacheable : Option Json → Bool
  | none => false
  | some value => !value.isNull

/-- `JSON.stringify(value) || '"undefined"'` -/
def getVal : Option Json → JsonText
  | none => { value := .string "undefined" }
  | some value => { value }

namespace RedisStore

def get (redis : Redis) (key : String) : Except Failure (Option Json) := do
  let val ← redis.get key
  return val.map jsonParse

def set (redis : Redis) (key : String) (value : Option Json) : Except Failure Redis :=
  if !isCacheable value then .error .noCacheableError
  else .ok (redis.set key (.string (getVal value)))

def mset (redis : Redis) (args : List (String × Option Json)) : Except Failure Redis :=
  if args.any fun p => !isCacheable p.2 then .error .noCacheableError
  else redis.mset (args.map fun p => (p.1, getVal p.2))

def hget (redis : Redis) (key field : String) :
    Except Failure (Option Json) := do
  let fields ← redis.fieldsOf key
  return (fields.bind (findKey field)).map jsonParse

def hgetall (redis : Redis) (key : String) :
    Except Failure (Option Hash) := do
  let fields ← redis.fieldsOf key
  return fields.map fun fields => fields.map fun p => (p.1, jsonParse p.2)

def hset (redis : Redis) (key : String) (hash : Hash) : Except Failure Redis :=
  if hash.any fun p => !isCacheable (some p.2) then .error .noCacheableError
  else redis.hset key (hash.map fun p => (p.1, getVal (some p.2)))

end RedisStore

/-- The memory store holds copies of the values it is given. -/
abbrev MemoryStore := OrderedMap String Json

namespace MemoryStore

def set (memory : MemoryStore) (key : String) :
    Option Json → Except Failure MemoryStore
  | none => .error .noCacheableError
  | some value => .ok (OrderedMap.set memory key value)

def mset (memory : MemoryStore) (args : List (String × Option Json)) : Except Failure MemoryStore :=
  args.foldlM (fun memory p => MemoryStore.set memory p.1 p.2) memory

end MemoryStore

/-! ## The service -/

inductive Cache where
  | redis (store : Redis)
  | memory (store : MemoryStore)

namespace Cache

def storeGet : Cache → String → Except Failure (Option Json)
  | .redis store, key => RedisStore.get store key
  | .memory store, key => .ok (store.get? key)

def storeSet (cache : Cache) (key : String) (value : Option Json) : Except Failure Cache :=
  match cache with
  | .redis store => .redis <$> RedisStore.set store key value
  | .memory store => .memory <$> MemoryStore.set store key value

def storeMset (cache : Cache) (args : List (String × Option Json)) : Except Failure Cache :=
  match cache with
  | .redis store => .redis <$> RedisStore.mset store args
  | .memory store => .memory <$> MemoryStore.mset store args

def storeDel : Cache → String → Cache
  | .redis store, key => .redis (store.delete key)
  | .memory store, key => .memory (store.delete key)

def isRedis : Cache → Bool
  | .redis _ => true
  | .memory _ => false

end Cache

namespace CacheService

def set (cache : Cache) (key : String) (value : Option Json) :
    Except Failure Cache := do
  if key = "" || !isTruthy value then return cache
  if cache.isRedis && !isCacheable value then
    throw (.uncacheableValueError key)
  cache.storeSet key value

def setMany (cache : Cache) (keysValues : List (String × Option Json)) :
    Except Failure Cache := do
  if keysValues = [] then return cache
  let truthyKeysValues := keysValues.filter fun p =>
    p.1 ≠ "" && isCacheable p.2
  if cache.isRedis then
    if let some p := truthyKeysValues.find? fun p => !isCacheable p.2 then
      throw (.uncacheableValueError p.1)
  cache.storeMset truthyKeysValues

/-- What a read that has missed returns, and the cache it leaves. -/
def missed (cache : Cache) (key : String) (fallbackValue : Option Json) :
    Option (Option Json) → Except Failure (Cache × Read)
  | none => .ok (cache, .ofOption fallbackValue)
  | some refreshValue => do
      let cache ← set cache key refreshValue
      return (cache, .ofOption refreshValue)

def get (cache : Cache) (key : String) (fallbackValue : Option Json)
    (refreshFn : Option (Option Json)) : Except Failure (Cache × Read) := do
  if key = "" then return (cache, .undefined)
  match ← cache.storeGet key with
  | some value => return (cache, .json value)
  | none => missed cache key fallbackValue refreshFn

def setHash (engine : Engine) (cache : Cache) (key : String) (hash : Hash) :
    Except Failure Cache := do
  if key = "" then return cache
  if hash.any fun p => p.2.isNull then return cache
  match cache with
  | .redis store => .redis <$> RedisStore.hset store key hash
  | .memory store =>
    let hashObject := match store.get? key with
      | none | some .null => .object []
      | some hashObject => hashObject
    let hashObject ← engine.assignTo hashObject hash
    set (.memory store) key (some hashObject)

/-- The hash that `getHash` finds. -/
def storedHash (cache : Cache) (key : String) : Except Failure (Option Json) :=
  match cache with
  | .redis store => (·.map Json.object) <$> RedisStore.hgetall store key
  | .memory store => .ok (if key = "" then none else store.get? key)

def getHash (cache : Cache) (key : String) (fallbackValue : Option Json)
    (refreshFn : Option (Option Hash)) :
    Except Failure (Cache × Read) := do
  match ← storedHash cache key with
  | some hash => return (cache, .json hash)
  | none => missed cache key fallbackValue (refreshFn.map (·.map Json.object))

/-- The value that `getHashValue` finds. -/
def storedHashValue (engine : Engine) (cache : Cache)
    (cacheKey hashKey : String) : Except Failure Read :=
  match cache with
  | .redis store => Read.ofOption <$> RedisStore.hget store cacheKey hashKey
  | .memory store =>
    match store.get? cacheKey with
    | none => .ok .undefined
    | some hashObject => .ok (engine.member hashObject hashKey)

def getHashValue (engine : Engine) (cache : Cache) (cacheKey hashKey : String)
    (fallbackValue : Option Json) (refreshFn : Option (Option Json)) :
    Except Failure (Cache × Read) := do
  match ← storedHashValue engine cache cacheKey hashKey with
  | .undefined => missed cache cacheKey fallbackValue refreshFn
  | hashValue => return (cache, hashValue)

def delete (cache : Cache) (key : String) : Except Failure Cache :=
  if key = "" then .ok cache else .ok (cache.storeDel key)

def deleteFromHash (engine : Engine) (cache : Cache)
    (cacheKey hashKey : String) : Except Failure Cache := do
  if cacheKey = "" || hashKey = "" then return cache
  match cache with
  | .redis store => .redis <$> store.hdel cacheKey hashKey
  | .memory store =>
    match store.get? cacheKey with
    | none => return cache
    | some hashObject =>
      if !isTruthy (some hashObject) then return cache
      let hashObject ← engine.delete hashObject hashKey
      (Cache.memory store).storeSet cacheKey (some hashObject)

end CacheService

/-! ## Operations -/

abbrev Key := { key : String // key ≠ "" }

inductive Operation where
  | set (key : Key) (value : Json)
  | setMany (keysValues : List (Key × Json))
  | setHash (key : Key) (hash : Hash)
  | get (key : Key) (fallbackValue : Option Json) (refreshFn : Option (Option Json))
  | getHash (key : Key) (fallbackValue : Option Json) (refreshFn : Option (Option Hash))
  | getHashValue (cacheKey : Key) (hashKey : String)
      (fallbackValue : Option Json) (refreshFn : Option (Option Json))
  | deleteFromHash (cacheKey : Key) (hashKey : String)
  | delete (key : Key)

/-- What an operation does to a cache, and what it returns. -/
def CacheService.run (engine : Engine) (cache : Cache) :
    Operation → Except Failure (Cache × Read)
  | .set key value => (·, .undefined) <$> set cache key (some value)
  | .setMany keysValues => (·, .undefined) <$>
      setMany cache (keysValues.map fun p => (p.1.val, some p.2))
  | .setHash key hash => (·, .undefined) <$> setHash engine cache key hash
  | .get key fallbackValue refreshFn => get cache key fallbackValue refreshFn
  | .getHash key fallbackValue refreshFn => getHash cache key fallbackValue refreshFn
  | .getHashValue cacheKey hashKey fallbackValue refreshFn =>
    getHashValue engine cache cacheKey hashKey fallbackValue refreshFn
  | .deleteFromHash cacheKey hashKey =>
    (·, .undefined) <$> deleteFromHash engine cache cacheKey hashKey
  | .delete key => (·, .undefined) <$> delete cache key

/-- An operation that fails leaves the cache as it is. -/
def CacheService.answer (engine : Engine) (cache : Cache)
    (operation : Operation) : Cache × Except Failure Read :=
  match run engine cache operation with
  | .ok (cache, read) => (cache, .ok read)
  | .error e => (cache, .error e)

/-! ## What was written last -/

inductive Entry where
  | plain (value : Json)
  | hash (fields : Hash)

def Entry.value : Entry → Json
  | .plain value => value
  | .hash fields => .object fields

/-- What was written last and not deleted. -/
abbrev Contents := String → Option Entry

namespace Contents

def write (contents : Contents) (key : String) (entry : Option Entry) : Contents :=
  fun k => if k = key then entry else contents k

/-- The fields under a key, unless it is a plain value. -/
def fields (contents : Contents) (key : String) : Except Failure (Option Hash) :=
  match contents key with
  | none => .ok none
  | some (.hash fields) => .ok (some fields)
  | some (.plain _) => .error .wrongType

/-- A read that misses takes the refreshed value for the last one written. -/
def missed {V : Type} (contents : Contents) (fallbackValue : Option Json)
    (json : V → Json) (written : V → Contents) :
    Option (Option V) → Contents × Read
  | none => (contents, .ofOption fallbackValue)
  | some none => (contents, .undefined)
  | some (some value) => (written value, .json (json value))

/-- What an operation does to the contents, and what it should return. -/
def run (contents : Contents) : Operation → Except Failure (Contents × Read)
  | .set key value => .ok (contents.write key (some (.plain value)), .undefined)
  | .setMany keysValues =>
    .ok (keysValues.foldl (fun contents p =>
      contents.write p.1 (some (.plain p.2))) contents, .undefined)
  | .setHash key hash => do
      let fields ← contents.fields key
      let fields := writeFields (fields.getD []) hash
      return (contents.write key (some (.hash fields)), .undefined)
  | .get key fallbackValue refreshFn =>
    match contents key with
    | some entry => .ok (contents, .json entry.value)
    | none => .ok (contents.missed fallbackValue id
        (fun value => contents.write key (some (.plain value))) refreshFn)
  | .getHash key fallbackValue refreshFn => do
      match ← contents.fields key with
      | some fields => return (contents, .json (.object fields))
      | none => return (contents.missed fallbackValue Json.object
          (fun fields => contents.write key (some (.hash fields))) refreshFn)
  | .getHashValue cacheKey hashKey fallbackValue refreshFn => do
      let fields ← contents.fields cacheKey
      match findKey hashKey (fields.getD []) with
      | some value => return (contents, .json value)
      | none => return (contents.missed fallbackValue id
          (fun value => contents.write cacheKey
            (some (.hash (setEntry hashKey value (fields.getD []))))) refreshFn)
  | .deleteFromHash cacheKey hashKey => do
      match ← contents.fields cacheKey with
      | none => return (contents, .undefined)
      | some fields =>
        return (contents.write cacheKey
          (match dropKey hashKey fields with
          | [] => none
          | left => some (.hash left)), .undefined)
  | .delete key => .ok (contents.write key none, .undefined)

def answer (contents : Contents) (operation : Operation) : Contents × Except Failure Read :=
  match contents.run operation with
  | .ok (contents, read) => (contents, .ok read)
  | .error e => (contents, .error e)

end Contents

/-- What the two back ends answered, and what was to be answered. -/
structure Answer where
  memory : Except Failure Read
  redis : Except Failure Read
  expected : Except Failure Read

structure Caches where
  memory : Cache
  redis : Cache
  contents : Contents
  answers : List Answer

def Caches.start : Caches :=
  { memory := .memory .empty, redis := .redis .empty
    contents := fun _ => none, answers := [] }

def next (engine : Engine) (s : Caches) (operation : Operation) : Caches :=
  let memory := CacheService.answer engine s.memory operation
  let redis := CacheService.answer engine s.redis operation
  let expected := s.contents.answer operation
  { memory := memory.1, redis := redis.1, contents := expected.1
    answers := s.answers ++
      [{ memory := memory.2, redis := redis.2, expected := expected.2 }] }

def Step (engine : Engine) (s : Caches) (operation : Operation) (s' : Caches) : Prop :=
  s' = next engine s operation

/-- Both back ends returned the same, and every read what was written last
    and not deleted. -/
def Agree (s : Caches) : Prop := ∀ a ∈ s.answers, a.memory = a.expected ∧ a.redis = a.expected

/-- The condition on an operation, given what was written last. -/
def Safe (engine : Engine) (contents : Contents) : Operation → Prop
  | .set key value => isTruthy (some value) ∨ contents key = some (.plain value)
  | .setMany keysValues => ∀ p ∈ keysValues, p.2.isNull = false
  | .setHash key hash => (∃ fields, contents.fields key = .ok fields)
      ∧ hash ≠ [] ∧ ∀ p ∈ hash, p.1 ≠ "__proto__" ∧ p.2.isNull = false
  | .get key _ refreshFn => (∀ fields, contents key ≠ some (.hash fields))
      ∧ (contents key = none → ∀ value, refreshFn = some (some value) → isTruthy (some value))
  | .getHash key _ refreshFn => ∃ fields, contents.fields key = .ok fields
      ∧ (fields = none → ∀ fields, refreshFn ≠ some (some fields))
  | .getHashValue cacheKey hashKey _ refreshFn =>
    ∃ fields, contents.fields cacheKey = .ok fields
      ∧ (findKey hashKey (fields.getD []) = none → (∀ value, refreshFn ≠ some (some value))
        ∧ ∀ hash, fields = some hash → engine.inherited (.object hash) hashKey = .undefined)
  | .deleteFromHash cacheKey hashKey =>
    ∃ fields, contents.fields cacheKey = .ok fields
      ∧ ∀ hash, fields = some hash → dropKey hashKey hash ≠ []
        ∧ (hashKey = "" → findKey hashKey hash = none)
  | .delete _ => True

/-! ## What a store holds -/

/-- What Redis holds of an entry. -/
def Entry.stored : Entry → RedisValue
  | .plain value => .string { value }
  | .hash fields => .hash (fields.map fun p => (p.1, { value := p.2 }))

/-- The store holds the contents, each entry in its own form. -/
def Holds {V : Type} (form : Entry → V) (store : OrderedMap String V)
    (contents : Contents) : Prop :=
  ∀ key, store.get? key = (contents key).map form

section

variable {V : Type} {form : Entry → V} {store : OrderedMap String V}
  {contents : Contents} {key : String}

theorem Holds.set (h : Holds form store contents) (key : String) (entry : Entry) :
    Holds form (store.set key (form entry)) (contents.write key (some entry)) := by
  intro k
  rw [OrderedMap.get?_set, Contents.write]
  by_cases hk : key = k
  · rw [if_pos hk, if_pos hk.symm, Option.map_some]
  · rw [if_neg hk, if_neg (Ne.symm hk)]
    exact h k

theorem Holds.delete (h : Holds form store contents) (key : String) :
    Holds form (store.delete key) (contents.write key none) := by
  intro k
  rw [OrderedMap.get?_delete, Contents.write]
  by_cases hk : k = key
  · rw [if_pos hk, if_pos hk, Option.map_none]
  · rw [if_neg hk, if_neg hk]
    exact h k

theorem write_same {entry : Option Entry} (h : contents key = entry) :
    contents.write key entry = contents := by
  funext k
  rw [Contents.write]
  by_cases hk : k = key
  · rw [if_pos hk, hk, h]
  · rw [if_neg hk]

theorem Holds.foldl (h : Holds form store contents) (keysValues : List (Key × Json)) :
    Holds form (keysValues.foldl (fun store p =>
      store.set p.1.val (form (.plain p.2))) store)
      (keysValues.foldl (fun contents p =>
        contents.write p.1.val (some (.plain p.2))) contents) := by
  induction keysValues generalizing store contents with
  | nil => exact h
  | cons p rest ih => exact ih (h.set p.1.val (.plain p.2))

end

/-! ## Fields in either form -/

section

variable {V W : Type} {f : V → W}

theorem findKey_map (name : String) (fields : List (String × V)) :
    findKey name (fields.map fun p => (p.1, f p.2))
      = (findKey name fields).map f := by
  induction fields with
  | nil => rfl
  | cons p rest ih =>
    obtain ⟨a, x⟩ := p
    rw [map_cons, findKey, findKey]
    by_cases ha : a = name
    · rw [if_pos ha, if_pos ha, Option.map_some]
    · rw [if_neg ha, if_neg ha, ih]

theorem dropKey_map (name : String) (fields : List (String × V)) :
    dropKey name (fields.map fun p => (p.1, f p.2))
      = (dropKey name fields).map fun p => (p.1, f p.2) := by
  rw [dropKey, dropKey, filter_map]
  rfl

theorem setEntry_map (name : String) (v : V) (fields : List (String × V)) :
    setEntry name (f v) (fields.map fun p => (p.1, f p.2))
      = (setEntry name v fields).map fun p => (p.1, f p.2) := by
  induction fields with
  | nil => rfl
  | cons p rest ih =>
    obtain ⟨a, x⟩ := p
    rw [map_cons, setEntry, setEntry]
    by_cases ha : a = name
    · rw [if_pos ha, if_pos ha, map_cons]
    · rw [if_neg ha, if_neg ha, map_cons, ih]

theorem writeFields_map (fields written : List (String × V)) :
    writeFields (fields.map fun p => (p.1, f p.2)) (written.map fun p => (p.1, f p.2))
      = (writeFields fields written).map fun p => (p.1, f p.2) := by
  induction written generalizing fields with
  | nil => rfl
  | cons p rest ih =>
    have hset := setEntry_map (f := f) p.1 p.2 fields
    rw [map_cons, writeFields, foldl_cons, hset]
    exact ih (setEntry p.1 p.2 fields)

end

/-! ## The operations -/

/-- Whichever the back end is, it holds the contents. -/
def CacheHolds : Cache → Contents → Prop
  | .redis store, contents => Holds Entry.stored store contents
  | .memory store, contents => Holds Entry.value store contents

section

variable {engine : Engine} {cache : Cache} {contents : Contents}

theorem isCacheable_of_isTruthy {value : Json}
    (h : isTruthy (some value)) : isCacheable (some value) := by
  cases value with
  | null => cases h
  | _ => rfl

section

variable (h : CacheHolds cache contents)
include h

theorem set_ok (key : Key) {value : Json} (hvalue : isTruthy (some value)
      ∨ contents key = some (.plain value)) :
    ∃ cache', CacheService.set cache key (some value) = .ok cache'
      ∧ CacheHolds cache' (contents.write key (some (.plain value))) := by
  unfold CacheService.set
  cases htruthy : isTruthy (some value) with
  | true =>
    have hcacheable := isCacheable_of_isTruthy htruthy
    rw [if_neg (by simp [key.2]), if_neg (by simp [hcacheable])]
    cases cache with
    | redis store =>
      refine ⟨.redis (store.set key (.string { value })), ?_, Holds.set h key (.plain value)⟩
      simp only [Cache.storeSet, RedisStore.set, hcacheable]
      rfl
    | memory store =>
      exact ⟨.memory (OrderedMap.set store key value), rfl, Holds.set h key (.plain value)⟩
  | false =>
    rw [htruthy] at hvalue
    have hsame := write_same (hvalue.resolve_left (by simp))
    refine ⟨cache, ?_, hsame.symm ▸ h⟩
    rw [if_pos (by simp)]
    rfl

theorem missed_ok {V : Type} (key : Key) (fallbackValue : Option Json) (json : V → Json)
    (written : V → Contents) (refreshFn : Option (Option V))
    (hwritten : ∀ value, refreshFn = some (some value) → isTruthy (some (json value))
        ∧ written value = contents.write key (some (.plain (json value)))) :
    ∃ cache', CacheService.missed cache key fallbackValue
        (refreshFn.map (·.map json)) = .ok (cache',
          (contents.missed fallbackValue json written refreshFn).2)
      ∧ CacheHolds cache' (contents.missed fallbackValue json written refreshFn).1 := by
  cases refreshFn with
  | none => exact ⟨cache, rfl, h⟩
  | some refreshValue =>
    cases refreshValue with
    | none =>
      refine ⟨cache, ?_, h⟩
      simp [CacheService.missed, CacheService.set, isTruthy]
      rfl
    | some value =>
      obtain ⟨htruthy, hwritten⟩ := hwritten value rfl
      obtain ⟨cache', hset, hholds⟩ := set_ok h key (.inl htruthy)
      refine ⟨cache', ?_, ?_⟩
      · simp only [CacheService.missed, Option.map_some, hset]
        rfl
      · rw [Contents.missed, hwritten]
        exact hholds

theorem storeMset_ok {keysValues : List (Key × Json)} (hne : keysValues ≠ [])
    (hvalues : ∀ p ∈ keysValues, p.2.isNull = false) :
    ∃ cache', cache.storeMset (keysValues.map fun p => (p.1.val, some p.2))
        = .ok cache'
      ∧ CacheHolds cache' (keysValues.foldl (fun contents p =>
        contents.write p.1.val (some (.plain p.2))) contents) := by
  cases cache with
  | redis store =>
    have hcacheable : (keysValues.map fun p => ((p.1.val, some p.2) : String × Option Json)).any
        (fun p => !isCacheable p.2) = false := by
      rw [any_map, any_eq_false]
      intro p hp
      simp [isCacheable, hvalues p hp]
    have hholds := Holds.foldl h keysValues
    refine ⟨.redis _, ?_, hholds⟩
    simp only [Cache.storeMset, RedisStore.mset, hcacheable, Redis.mset]
    rw [if_neg (by simp), if_neg (by simp [hne]), map_map, foldl_map]
    rfl
  | memory store =>
    have hholds := Holds.foldl h keysValues
    refine ⟨.memory _, ?_, hholds⟩
    have hfold : ∀ memory : MemoryStore, MemoryStore.mset memory
        (keysValues.map fun p => (p.1.val, some p.2))
        = .ok (keysValues.foldl (fun store p =>
          OrderedMap.set store p.1.val p.2) memory) := by
      clear hne hvalues hholds
      induction keysValues with
      | nil => exact fun _ => rfl
      | cons p rest ih => exact fun memory => ih (OrderedMap.set ..)
    rw [Cache.storeMset, hfold store]
    rfl

theorem setMany_ok {keysValues : List (Key × Json)}
    (hvalues : ∀ p ∈ keysValues, p.2.isNull = false) :
    ∃ cache', CacheService.setMany cache (keysValues.map fun p => (p.1.val, some p.2)) = .ok cache'
      ∧ CacheHolds cache' (keysValues.foldl (fun contents p =>
        contents.write p.1.val (some (.plain p.2))) contents) := by
  by_cases hne : keysValues = []
  · subst hne
    exact ⟨cache, rfl, h⟩
  · obtain ⟨cache', hmset, hholds⟩ := storeMset_ok h hne hvalues
    refine ⟨cache', ?_, hholds⟩
    have hfilter : ((keysValues.map fun p => ((p.1.val, some p.2) : String × Option Json)).filter
        fun p => p.1 ≠ "" && isCacheable p.2)
        = keysValues.map fun p => (p.1.val, some p.2) := by
      refine filter_eq_self.mpr fun q hq => ?_
      obtain ⟨p, hp, rfl⟩ := mem_map.mp hq
      simp [p.1.2, isCacheable, hvalues p hp]
    have hfind : (keysValues.map fun p => ((p.1.val, some p.2) : String × Option Json)).find?
        (fun p => !isCacheable p.2) = none := by
      refine find?_eq_none.mpr fun q hq => ?_
      obtain ⟨p, hp, rfl⟩ := mem_map.mp hq
      simp [isCacheable, hvalues p hp]
    unfold CacheService.setMany
    rw [if_neg (by simp [hne])]
    simp only [hfilter, hfind]
    rw [← hmset]
    cases cache with
    | redis store => rfl
    | memory store => rfl

end

variable {fallbackValue : Option Json}

theorem get_ok (h : CacheHolds cache contents) (key : Key) {refreshFn : Option (Option Json)}
    (hsafe : Safe engine contents (.get key fallbackValue refreshFn)) :
    ∃ cache' contents' read, CacheService.get cache key fallbackValue refreshFn = .ok (cache', read)
      ∧ contents.run (.get key fallbackValue refreshFn) = .ok (contents', read)
      ∧ CacheHolds cache' contents' := by
  obtain ⟨hplain, hrefresh⟩ := hsafe
  have hstore : cache.storeGet key = .ok ((contents key).map Entry.value) := by
    cases cache with
    | redis store =>
      have hget : store.get? key = _ := h key
      simp only [Cache.storeGet, RedisStore.get, Redis.get, hget]
      cases hentry : contents key with
      | none => rfl
      | some entry =>
        cases entry with
        | plain value => rfl
        | hash fields => exact absurd hentry (hplain fields)
    | memory store => exact congrArg Except.ok (h key)
  unfold CacheService.get
  rw [if_neg key.2, hstore, Contents.run]
  cases hentry : contents key with
  | some entry => exact ⟨cache, contents, _, rfl, rfl, h⟩
  | none =>
    obtain ⟨cache', hmissed, hholds⟩ := missed_ok h key fallbackValue id
      (fun value => contents.write key (some (.plain value))) refreshFn
      fun value hvalue => ⟨hrefresh hentry value hvalue, rfl⟩
    have hid : refreshFn.map (·.map id) = refreshFn := by
      simp
    rw [hid] at hmissed
    exact ⟨cache', _, _, hmissed, rfl, hholds⟩

variable {fields : Option Hash} {key : String}

theorem entry_of_fields (hfields : contents.fields key = .ok fields) :
    contents key = fields.map Entry.hash := by
  unfold Contents.fields at hfields
  cases hentry : contents key with
  | none =>
    rw [hentry] at hfields
    cases hfields
    rfl
  | some entry =>
    rw [hentry] at hfields
    cases entry with
    | plain value => cases hfields
    | hash hash =>
      cases hfields
      rfl

theorem fieldsOf_eq {store : Redis} (h : Holds Entry.stored store contents)
    (hfields : contents.fields key = .ok fields) :
    store.fieldsOf key = .ok (fields.map fun hash => hash.map fun p => (p.1, ⟨p.2⟩)) := by
  unfold Redis.fieldsOf
  rw [h key, entry_of_fields hfields]
  cases fields <;> rfl

theorem get?_eq_object {store : MemoryStore} (h : Holds Entry.value store contents)
    (hfields : contents.fields key = .ok fields) :
    store.get? key = fields.map Json.object := by
  rw [h key, entry_of_fields hfields]
  cases fields <;> rfl

theorem hset_eq {store : Redis} {hash : Hash}
    {fields : Option (List (String × JsonText))} (hne : hash ≠ [])
    (hnull : ∀ p ∈ hash, p.2.isNull = false)
    (hfields : store.fieldsOf key = .ok fields) :
    RedisStore.hset store key hash = .ok (store.set key (.hash
      (writeFields (fields.getD []) (hash.map fun p => (p.1, ⟨p.2⟩))))) := by
  have hcacheable : (hash.any fun p => !isCacheable (some p.2)) = false := by
    rw [any_eq_false]
    intro p hp
    simp [isCacheable, hnull p hp]
  unfold RedisStore.hset Redis.hset
  rw [if_neg (by simp [hcacheable]), if_neg (by simp [hne]), hfields]
  rfl

section

variable (h : CacheHolds cache contents)
include h

theorem setHash_ok (key : Key) {hash : Hash} (hsafe : Safe engine contents (.setHash key hash)) :
    ∃ cache' contents', CacheService.setHash engine cache key hash
        = .ok cache'
      ∧ contents.run (.setHash key hash) = .ok (contents', .undefined)
      ∧ CacheHolds cache' contents' := by
  obtain ⟨⟨fields, hfields⟩, hne, hall⟩ := hsafe
  have hnull : (hash.any fun p => p.2.isNull) = false := by
    rw [any_eq_false]
    intro p hp
    simp [(hall p hp).2]
  let entry : Entry := .hash (writeFields (fields.getD []) hash)
  have hrun : contents.run (.setHash key hash)
      = .ok (contents.write key (some entry), .undefined) := by
    rw [Contents.run, hfields]
    rfl
  unfold CacheService.setHash
  rw [if_neg key.2, if_neg (by simp [hnull])]
  cases cache with
  | redis store =>
    have hholds := Holds.set h key entry
    refine ⟨.redis _, _, ?_, hrun, hholds⟩
    have hwritten := writeFields_map (f := JsonText.mk) (fields.getD []) hash
    have hgetD : (fields.map fun hash =>
        hash.map fun p => (p.1, JsonText.mk p.2)).getD []
        = (fields.getD []).map fun p => (p.1, JsonText.mk p.2) := by
      cases fields with
      | none => rfl
      | some fields => rfl
    simp only [hset_eq hne (fun p hp => (hall p hp).2) (fieldsOf_eq h hfields), hgetD, hwritten]
    rfl
  | memory store =>
    have hholds := Holds.set h key entry
    refine ⟨.memory _, _, ?_, hrun, hholds⟩
    have hfilter : (hash.filter fun field => field.1 ≠ "__proto__")
        = hash := by
      refine filter_eq_self.mpr fun p hp => ?_
      simp [(hall p hp).1]
    have hassign : engine.assignTo (.object (fields.getD [])) hash = .ok entry.value := by
      simp only [Engine.assignTo, hfilter]
      rfl
    have htarget : (match store.get? key with
        | none | some .null => Json.object []
        | some hashObject => hashObject) = .object (fields.getD []) := by
      rw [get?_eq_object h hfields]
      cases fields with
      | none => rfl
      | some fields => rfl
    simp only [htarget, hassign]
    show CacheService.set (.memory store) key (some entry.value) = _
    unfold CacheService.set
    rw [if_neg (by simp [key.2]; rfl)]
    rfl

theorem getHash_ok (key : Key) {refreshFn : Option (Option Hash)}
    (hsafe : Safe engine contents (.getHash key fallbackValue refreshFn)) :
    ∃ cache' contents' read, CacheService.getHash cache key fallbackValue refreshFn
        = .ok (cache', read)
      ∧ contents.run (.getHash key fallbackValue refreshFn) = .ok (contents', read)
      ∧ CacheHolds cache' contents' := by
  obtain ⟨fields, hfields, hrefresh⟩ := hsafe
  have hstored : CacheService.storedHash cache key = .ok (fields.map Json.object) := by
    unfold CacheService.storedHash
    cases cache with
    | redis store =>
      simp only [RedisStore.hgetall, fieldsOf_eq h hfields]
      cases fields with
      | none => rfl
      | some hash =>
        have hid : (hash.map fun p => (p.1, JsonText.mk p.2)).map
            (fun p => (p.1, jsonParse p.2)) = hash := by
          rw [map_map]
          exact map_id hash
        exact congrArg (fun hash => Except.ok (some (Json.object hash))) hid
    | memory store => simp [if_neg key.2, get?_eq_object h hfields]
  unfold CacheService.getHash
  rw [hstored, Contents.run, hfields]
  cases fields with
  | some hash => exact ⟨cache, contents, _, rfl, rfl, h⟩
  | none =>
    obtain ⟨cache', hmissed, hholds⟩ := missed_ok h key fallbackValue Json.object
      (fun fields => contents.write key (some (.hash fields))) refreshFn
      fun value hvalue => absurd hvalue (hrefresh rfl value)
    exact ⟨cache', _, _, hmissed, rfl, hholds⟩

theorem getHashValue_ok (cacheKey : Key) {hashKey : String} {refreshFn : Option (Option Json)}
    (hsafe : Safe engine contents (.getHashValue cacheKey hashKey fallbackValue refreshFn)) :
    ∃ cache' contents' read, CacheService.getHashValue engine cache cacheKey hashKey fallbackValue
        refreshFn = .ok (cache', read)
      ∧ contents.run (.getHashValue cacheKey hashKey fallbackValue refreshFn)
        = .ok (contents', read)
      ∧ CacheHolds cache' contents' := by
  obtain ⟨fields, hfields, hmiss⟩ := hsafe
  have hstored : CacheService.storedHashValue engine cache cacheKey hashKey
      = .ok (.ofOption (findKey hashKey (fields.getD []))) := by
    unfold CacheService.storedHashValue
    cases cache with
    | redis store =>
      simp only [RedisStore.hget, fieldsOf_eq h hfields]
      cases fields with
      | none => rfl
      | some hash =>
        have hid : ((findKey hashKey (hash.map fun p =>
            (p.1, JsonText.mk p.2))).map jsonParse)
            = findKey hashKey hash := by
          rw [findKey_map, Option.map_map]
          exact Option.map_id'
        exact congrArg (fun value => Except.ok (Read.ofOption value)) hid
    | memory store =>
      simp only [get?_eq_object h hfields]
      cases fields with
      | none => rfl
      | some hash =>
        simp only [Option.map_some, Engine.member, Option.getD_some]
        cases hfind : findKey hashKey hash with
        | some value => rfl
        | none => rw [(hmiss hfind).2 hash rfl]; rfl
  unfold CacheService.getHashValue
  rw [hstored, Contents.run, hfields]
  cases hfind : findKey hashKey (fields.getD []) with
  | some value =>
    refine ⟨cache, contents, .json value, rfl, ?_, h⟩
    show (match findKey hashKey (fields.getD []) with
      | some value => _
      | none => _) = _
    rw [hfind]
    rfl
  | none =>
    obtain ⟨cache', hmissed, hholds⟩ := missed_ok h cacheKey fallbackValue
      id (fun value => contents.write cacheKey
        (some (.hash (setEntry hashKey value (fields.getD []))))) refreshFn
      fun value hvalue => absurd hvalue ((hmiss hfind).1 value)
    have hid : refreshFn.map (·.map id) = refreshFn := by
      simp
    rw [hid] at hmissed
    refine ⟨cache', _, _, hmissed, ?_, hholds⟩
    show (match findKey hashKey (fields.getD []) with
      | some value => _
      | none => _) = _
    rw [hfind]
    rfl

theorem delete_ok (key : Key) :
    ∃ cache', CacheService.delete cache key = .ok cache'
      ∧ CacheHolds cache' (contents.write key none) := by
  refine ⟨cache.storeDel key, if_neg key.2, ?_⟩
  cases cache with
  | redis store => exact Holds.delete h key
  | memory store => exact Holds.delete h key

theorem deleteFromHash_ok (cacheKey : Key) {hashKey : String}
    (hsafe : Safe engine contents (.deleteFromHash cacheKey hashKey)) :
    ∃ cache' contents', CacheService.deleteFromHash engine cache cacheKey hashKey = .ok cache'
      ∧ contents.run (.deleteFromHash cacheKey hashKey) = .ok (contents', .undefined)
      ∧ CacheHolds cache' contents' := by
  obtain ⟨fields, hfields, hleft⟩ := hsafe
  cases fields with
  | none =>
    refine ⟨cache, contents, ?_, by rw [Contents.run, hfields]; rfl, h⟩
    unfold CacheService.deleteFromHash
    by_cases hname : hashKey = ""
    · rw [if_pos (by simp [hname])]
      rfl
    · rw [if_neg (by simp [cacheKey.2, hname])]
      cases cache with
      | redis store => simp [Redis.hdel, fieldsOf_eq h hfields]; rfl
      | memory store => simp [get?_eq_object h hfields]; rfl
  | some hash =>
    obtain ⟨hdrop, hempty⟩ := hleft hash rfl
    obtain ⟨p, left, hcons⟩ := exists_cons_of_ne_nil hdrop
    have hrun : contents.run (.deleteFromHash cacheKey hashKey)
        = .ok (contents.write cacheKey (some (.hash (dropKey hashKey hash))), .undefined) := by
      rw [Contents.run, hfields]
      show Except.ok (contents.write cacheKey
        (match dropKey hashKey hash with
        | [] => none
        | left => some (.hash left)), Read.undefined) = _
      rw [hcons]
    unfold CacheService.deleteFromHash
    by_cases hname : hashKey = ""
    · rw [if_pos (by simp [hname])]
      have hsame : dropKey hashKey hash = hash :=
        dropKey_of_not_mem (findKey_eq_none.mp (hempty hname))
      refine ⟨cache, _, rfl, hrun, ?_⟩
      have hkept : contents cacheKey = some (.hash hash) := entry_of_fields hfields
      rw [hsame, write_same hkept]
      exact h
    · rw [if_neg (by simp [cacheKey.2, hname])]
      cases cache with
      | redis store =>
        have hholds := Holds.set h cacheKey (.hash (dropKey hashKey hash))
        refine ⟨.redis _, _, ?_, hrun, hholds⟩
        have hstored := dropKey_map (f := JsonText.mk) hashKey hash
        simp only [Redis.hdel, fieldsOf_eq h hfields]
        show Cache.redis <$> (match dropKey hashKey (hash.map fun p => (p.1, JsonText.mk p.2)) with
          | [] => Except.ok (store.delete cacheKey)
          | left => Except.ok (store.set cacheKey (.hash left))) = _
        rw [hstored, hcons]
        rfl
      | memory store =>
        have hholds := Holds.set h cacheKey (.hash (dropKey hashKey hash))
        refine ⟨.memory _, _, ?_, hrun, hholds⟩
        simp only [get?_eq_object h hfields]
        rfl

/-- **OPERATION**: a safe operation returns what it should, and leaves the
    cache holding what it should. -/
theorem run_ok {operation : Operation} (hsafe : Safe engine contents operation) :
    ∃ cache' contents' read, CacheService.run engine cache operation = .ok (cache', read)
      ∧ contents.run operation = .ok (contents', read)
      ∧ CacheHolds cache' contents' := by
  cases operation with
  | set key value =>
    obtain ⟨cache', hset, hholds⟩ := set_ok h key hsafe
    refine ⟨cache', _, .undefined, ?_, rfl, hholds⟩
    rw [CacheService.run, hset]
    rfl
  | setMany keysValues =>
    obtain ⟨cache', hset, hholds⟩ := setMany_ok h hsafe
    refine ⟨cache', _, .undefined, ?_, rfl, hholds⟩
    rw [CacheService.run, hset]
    rfl
  | setHash key hash =>
    obtain ⟨cache', contents', hset, hrun, hholds⟩ := setHash_ok h key hsafe
    refine ⟨cache', contents', .undefined, ?_, hrun, hholds⟩
    rw [CacheService.run, hset]
    rfl
  | get key fallbackValue refreshFn => exact get_ok h key hsafe
  | getHash key fallbackValue refreshFn => exact getHash_ok h key hsafe
  | getHashValue cacheKey hashKey fallbackValue refreshFn =>
    exact getHashValue_ok h cacheKey hsafe
  | deleteFromHash cacheKey hashKey =>
    obtain ⟨cache', contents', hset, hrun, hholds⟩ := deleteFromHash_ok h cacheKey hsafe
    refine ⟨cache', contents', .undefined, ?_, hrun, hholds⟩
    rw [CacheService.run, hset]
    rfl
  | delete key =>
    obtain ⟨cache', hset, hholds⟩ := delete_ok h key
    refine ⟨cache', _, .undefined, ?_, rfl, hholds⟩
    rw [CacheService.run, hset]
    rfl

end

end

/-! ## Runs -/

section

variable {engine : Engine}

/-- Both caches hold the contents, and have answered alike. -/
structure InStep (s : Caches) : Prop where
  memory : CacheHolds s.memory s.contents
  redis : CacheHolds s.redis s.contents
  agree : Agree s

theorem inStep_start : InStep Caches.start := ⟨fun _ => rfl, fun _ => rfl, fun _ ha => nomatch ha⟩

theorem answer_ok {cache : Cache} {contents : Contents}
    {operation : Operation} (h : CacheHolds cache contents)
    (hsafe : Safe engine contents operation) :
    (CacheService.answer engine cache operation).2
        = (contents.answer operation).2
      ∧ CacheHolds (CacheService.answer engine cache operation).1
        (contents.answer operation).1 := by
  obtain ⟨cache', contents', read, hcache, hcontents, hholds⟩ := run_ok h hsafe
  rw [CacheService.answer, Contents.answer, hcache, hcontents]
  exact ⟨rfl, hholds⟩

/-- **STEP** -/
theorem inStep_step {s s' : Caches} {operation : Operation} (h : InStep s)
    (hstep : Step engine s operation s')
    (hsafe : Safe engine s.contents operation) : InStep s' := by
  subst hstep
  obtain ⟨hmemory, hmholds⟩ := answer_ok h.memory hsafe
  obtain ⟨hredis, hrholds⟩ := answer_ok h.redis hsafe
  refine ⟨hmholds, hrholds, fun a ha => ?_⟩
  rcases mem_append.mp ha with hold | hnew
  · exact h.agree a hold
  · rw [mem_singleton.mp hnew]
    exact ⟨hmemory, hredis⟩

/-- **BACK ENDS AGREE**: in a run of safe operations both back ends return
    the same, and every read what was written last and not deleted. -/
theorem agree_of_safe (engine : Engine) {path : List (Operation × Caches)}
    (hrun : IsRun (Step engine) Caches.start path)
    (hsafe : EveryStep (fun s operation => Safe engine s.contents operation)
      Caches.start path) : EveryState Agree Caches.start path := by
  have hinStep : EveryState InStep Caches.start path :=
    everyState_of_everyStep hrun inStep_start
      (fun _ _ _ hs hstep hc => inStep_step hs hstep hc) hsafe
  exact hinStep.mono fun _ => InStep.agree

end

/-! ## Two runs -/

def objectPrototype : List String :=
  ["constructor", "__defineGetter__", "__defineSetter__", "hasOwnProperty",
    "__lookupGetter__", "__lookupSetter__", "isPrototypeOf",
    "propertyIsEnumerable", "toString", "valueOf", "__proto__", "toLocaleString"]

/-- Values that take no members and have none but those of objects. -/
def plainEngine : Engine :=
  { inherited := fun _ name =>
      if name ∈ objectPrototype then .native name else .undefined
    assign := fun value _ => .ok value
    deleteMember := fun value _ => .ok value }

def keyA : Key := ⟨"a", by decide⟩

def keyH : Key := ⟨"h", by decide⟩

def safeOperations : List Operation :=
  [.set keyA (.string "x"), .setMany [(keyA, .boolean false)],
    .setHash keyH [("p", .number 1), ("q", .number 0)],
    .get keyA none none, .getHashValue keyH "q" none none,
    .deleteFromHash keyH "p", .getHash keyH none none, .delete keyA,
    .get keyA none (some (some (.number 7)))]

theorem safeOperations_agree : EveryState Agree Caches.start
    (pathOf (next plainEngine) Caches.start safeOperations) := by
  refine agree_of_safe plainEngine ⟨rfl, rfl, rfl, rfl, rfl, rfl, rfl, rfl, rfl, trivial⟩
    ⟨?_, ?_, ?_, ?_, ?_, ?_, ?_, ?_, ?_, trivial⟩
  · exact .inl rfl
  · intro p hp
    rw [mem_singleton.mp hp]
    rfl
  · refine ⟨⟨_, rfl⟩, nofun, fun p hp => ?_⟩
    rcases mem_pair.mp hp with rfl | rfl
    · exact ⟨by decide, rfl⟩
    · exact ⟨by decide, rfl⟩
  · exact ⟨nofun, nofun⟩
  · exact ⟨_, rfl, nofun⟩
  · refine ⟨_, rfl, fun hash hhash => ?_⟩
    cases hhash
    exact ⟨nofun, nofun⟩
  · exact ⟨_, rfl, nofun⟩
  · exact trivial
  · refine ⟨nofun, fun _ value hvalue => ?_⟩
    cases hvalue
    rfl

def refreshedField : List Operation :=
  [.setHash keyH [("p", .number 1), ("q", .number 0)],
    .getHashValue keyH "r" none (some (some (.number 3))), .getHashValue keyH "p" none none]

theorem refreshedField_disagrees :
    ∃ path, IsRun (Step plainEngine) Caches.start path ∧ ¬ EveryState Agree Caches.start path := by
  refine ⟨pathOf (next plainEngine) Caches.start refreshedField,
    ⟨rfl, rfl, rfl, trivial⟩, fun hagree => ?_⟩
  have hlast := hagree.last
  have hanswer := hlast
    { memory := .ok .undefined, redis := .error .wrongType
      expected := .ok (.json (.number 1)) }
    (mem_of_getElem? (i := 2) rfl)
  cases hanswer.1

end N8nCacheService
