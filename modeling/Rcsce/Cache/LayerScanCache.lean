import Rcsce.Lib.Json
import Rcsce.Cache.LRUCache

/-!
# The two-level cache of a node: LRU and Redis

`LayerScanCache` of `cache/cache_common.py`.  The Redis keyspace is a second
dictionary, passed in and out, because several nodes may share it; every call
carries the clock readings it makes and, for each Redis command it may issue,
whether that command raises.

## The dictionary

* `CacheRedis` holds the keys `rcsce:cache:*` with the texts that SETEX stored.
* `GetCall` and `PutCall` are what the surroundings decide about one call: the
  clock readings, in the order the code makes them, and the failing commands.
* A method returns what it returns to the caller, the node after it and the
  Redis keyspace after it.  `None` is the value `Json.null`; an exception that
  leaves the method is an `Except.error`.

The payloads that `put` writes are `payload d c e`; `get_of_fresh`,
`get_of_expired` and `get_of_absent` are the three ways a `get` can go on a node
that holds only such payloads.
-/

namespace Rcsce

/-- The cache entries in Redis, by their full keys. -/
abbrev CacheRedis := OrderedDict String JsonText

/-- `REDIS_KEY_PREFIX`. -/
def redisKeyPrefix : String := "rcsce:cache:"

/-- `REDIS_KEY_PREFIX + layer_hash`. -/
def redisKey (layerHash : String) : String := redisKeyPrefix ++ layerHash

/-- `full_key[len(REDIS_KEY_PREFIX):]`. -/
def stripPrefix (fullKey : String) : String :=
  String.ofList (fullKey.toList.drop redisKeyPrefix.length)

@[simp] theorem stripPrefix_redisKey (layerHash : String) :
    stripPrefix (redisKey layerHash) = layerHash := by
  have hlen : redisKeyPrefix.length = redisKeyPrefix.toList.length := rfl
  rw [stripPrefix, redisKey, String.toList_append, hlen, List.drop_left, String.ofList_toList]

theorem redisKey_inj {h h' : String} (heq : redisKey h = redisKey h') : h = h' := by
  rw [← stripPrefix_redisKey h, heq, stripPrefix_redisKey]

/-- `LayerScanCache`.  `redis` says whether `self._redis` is a client. -/
structure LayerScanCache where
  lru : LRUCache Json
  ttlSeconds : ℤ
  redis : Bool
  lruHits : ℕ
  redisHits : ℕ
  misses : ℕ

/-- What the surroundings decide about one `get`. -/
structure GetCall where
  /-- The clock at the expiry check of the LRU item. -/
  now : Time
  /-- The clock at the expiry check of the Redis payload. -/
  redisNow : Time
  /-- The DEL that cleans up an expired LRU item raises. -/
  lruDelRaises : Bool := false
  /-- The GET raises. -/
  getRaises : Bool := false
  /-- The DEL that cleans up an expired Redis payload raises. -/
  redisDelRaises : Bool := false

/-- What the surroundings decide about one `put`. -/
structure PutCall where
  /-- The clock at `created_at`. -/
  createdAt : Time
  /-- The clock at `expires_at`. -/
  now : Time
  /-- The SETEX raises. -/
  setexRaises : Bool := false
  /-- The DEL of the evicted key raises. -/
  delRaises : Bool := false

/-- What the surroundings decide about one warm-up. -/
structure WarmCall where
  /-- The clock, read once before the loop. -/
  now : Time
  /-- The matching keys, in the order in which KEYS lists them. -/
  keys : List String
  /-- The KEYS command raises. -/
  keysRaises : Bool := false
  /-- The GET of a key raises. -/
  getRaises : String → Bool := fun _ => false
  /-- The DEL of an expired key raises. -/
  delRaises : String → Bool := fun _ => false

/-- The payload that `put` stores at both levels. -/
def payload (scanResult : Json) (createdAt expiresAt : Time) : Json :=
  .obj [("data", scanResult), ("created_at", .num createdAt), ("expires_at", .num expiresAt)]

theorem payload_inj {d d' : Json} {c c' e e' : Time} (h : payload d c e = payload d' c' e') :
    d = d' ∧ c = c' ∧ e = e' := by
  simp only [payload, Json.obj.injEq, List.cons.injEq, Prod.mk.injEq, Json.num.injEq] at h
  exact ⟨h.1.2, h.2.1.2, h.2.2.1.2⟩

@[simp] theorem getItem_data_payload (d : Json) (c e : Time) :
    (payload d c e).getItem "data" = .ok d := rfl

/-- The expiry check of `get` on an LRU item. -/
@[simp] theorem itemFresh_payload (d : Json) (c e now : Time) :
    ((payload d c e).getItem "expires_at" >>= Json.clockLe now) = .ok (decide (now ≤ e)) := rfl

/-- The expiry check of `get` on a Redis payload. -/
@[simp] theorem storedFresh_payload (d : Json) (c e now : Time) :
    ((payload d c e).getD "expires_at" (.num 0) >>= Json.clockLe now) =
      .ok (decide (now ≤ e)) := rfl

/-- The expiry check of the warm-up. -/
@[simp] theorem storedExpired_payload (d : Json) (c e now : Time) :
    ((payload d c e).getD "expires_at" (.num 0) >>= Json.clockGt now) =
      .ok (decide (e < now)) := rfl

namespace LayerScanCache

/-- `LayerScanCache.__init__` up to the warm-up. -/
def new (capacity : ℕ) (ttlSeconds : ℤ) (redis : Bool) : LayerScanCache :=
  ⟨LRUCache.new capacity, ttlSeconds, redis, 0, 0, 0⟩

/-- `LayerScanCache._delete_from_redis`; a command that raises is swallowed. -/
def deleteFromRedis (c : LayerScanCache) (db : CacheRedis) (raises : Bool) (layerHash : String) :
    CacheRedis :=
  if c.redis && !raises then db.erase (redisKey layerHash) else db

/-- `self._misses += 1; return None`. -/
def miss (c : LayerScanCache) : Except PyError Json × LayerScanCache :=
  (.ok .null, { c with misses := c.misses + 1 })

/-- The second half of `LayerScanCache.get`: the Redis fallback and the miss.
Every exception in it is caught and ends as a miss. -/
def redisFallback (c : LayerScanCache) (db : CacheRedis) (call : GetCall) (layerHash : String) :
    Except PyError Json × LayerScanCache × CacheRedis :=
  if c.redis && !call.getRaises then
    match db.get? (redisKey layerHash) with
    | none => (c.miss.1, c.miss.2, db)
    | some raw =>
      if raw.truthy then
        match raw.loads with
        | .error _ => (c.miss.1, c.miss.2, db)
        | .ok stored =>
          match stored.getD "expires_at" (.num 0) >>= Json.clockLe call.redisNow with
          | .error _ => (c.miss.1, c.miss.2, db)
          | .ok true =>
            -- the node is re-hydrated and the hit counted before `payload["data"]` is read
            let c := { c with lru := (c.lru.put layerHash stored).2, redisHits := c.redisHits + 1 }
            match stored.getItem "data" with
            | .ok data => (.ok data, c, db)
            | .error _ => (c.miss.1, c.miss.2, db)
          | .ok false => (c.miss.1, c.miss.2, c.deleteFromRedis db call.redisDelRaises layerHash)
      else (c.miss.1, c.miss.2, db)
  else (c.miss.1, c.miss.2, db)

/-- `LayerScanCache.get`. -/
def get (c : LayerScanCache) (db : CacheRedis) (call : GetCall) (layerHash : String) :
    Except PyError Json × LayerScanCache × CacheRedis :=
  let c' := { c with lru := (c.lru.get layerHash).2 }
  match (c.lru.get layerHash).1 with
  | none => c'.redisFallback db call layerHash
  | some item =>
    match item.getItem "expires_at" >>= Json.clockLe call.now with
    | .error e => (.error e, c', db)
    | .ok true => (item.getItem "data", { c' with lruHits := c'.lruHits + 1 }, db)
    | .ok false =>
      { c' with lru := c'.lru.delete layerHash }.redisFallback
        (c'.deleteFromRedis db call.lruDelRaises layerHash) call layerHash

/-- `LayerScanCache.put`.  SETEX refuses a time to live that is not positive. -/
def put (c : LayerScanCache) (db : CacheRedis) (call : PutCall) (layerHash : String)
    (scanResult : Json) : LayerScanCache × CacheRedis :=
  let stored := payload scanResult call.createdAt (call.now + c.ttlSeconds)
  let c' := { c with lru := (c.lru.put layerHash stored).2 }
  let db' :=
    if c.redis && !call.setexRaises && 0 < c.ttlSeconds then
      db.set (redisKey layerHash) (.dumps stored)
    else db
  match (c.lru.put layerHash stored).1 with
  | none => (c', db')
  | some evicted =>
    (c', if evicted ≠ "" then c'.deleteFromRedis db' call.delRaises evicted else db')

/-- `LayerScanCache.delete`. -/
def delete (c : LayerScanCache) (db : CacheRedis) (delRaises : Bool) (layerHash : String) :
    LayerScanCache × CacheRedis :=
  ({ c with lru := c.lru.delete layerHash }, c.deleteFromRedis db delRaises layerHash)

/-- One round of the loop in `LayerScanCache._warm_from_redis`. -/
def warmKey (call : WarmCall) (state : LayerScanCache × CacheRedis) (fullKey : String) :
    LayerScanCache × CacheRedis :=
  let (c, db) := state
  if call.getRaises fullKey then (c, db)
  else
    match db.get? fullKey with
    | none => (c, db)
    | some raw =>
      if raw.truthy then
        match raw.loads with
        | .error _ => (c, db)
        | .ok stored =>
          match stored.getD "expires_at" (.num 0) >>= Json.clockGt call.now with
          | .error _ => (c, db)
          | .ok true => (c, if call.delRaises fullKey then db else db.erase fullKey)
          | .ok false => ({ c with lru := (c.lru.put (stripPrefix fullKey) stored).2 }, db)
      else (c, db)

/-- `LayerScanCache._warm_from_redis`. -/
def warmFromRedis (c : LayerScanCache) (db : CacheRedis) (call : WarmCall) :
    LayerScanCache × CacheRedis :=
  if call.keysRaises then (c, db) else call.keys.foldl (warmKey call) (c, db)

/-- `LayerScanCache.__init__` of a process that reaches Redis. -/
def start (capacity : ℕ) (ttlSeconds : ℤ) (db : CacheRedis) (call : WarmCall) :
    LayerScanCache × CacheRedis :=
  (new capacity ttlSeconds true).warmFromRedis db call

/-! ## The three ways of a `get` -/

/-- A fresh LRU item is answered from memory, whatever Redis does. -/
theorem get_of_fresh {c : LayerScanCache} {layerHash : String} {d : Json} {ct et : Time}
    (hitem : c.lru.cache.get? layerHash = some (payload d ct et)) (db : CacheRedis)
    {call : GetCall} (hfresh : call.now ≤ et) :
    c.get db call layerHash =
      (.ok d, { c with lru := (c.lru.get layerHash).2, lruHits := c.lruHits + 1 }, db) := by
  rw [get]
  simp only [LRUCache.get_fst, hitem, itemFresh_payload, decide_eq_true hfresh,
    getItem_data_payload]

/-- An expired LRU item is removed at both levels, and the lookup goes on to Redis. -/
theorem get_of_expired {c : LayerScanCache} {layerHash : String} {d : Json} {ct et : Time}
    (hitem : c.lru.cache.get? layerHash = some (payload d ct et)) (db : CacheRedis)
    {call : GetCall} (hexpired : et < call.now) :
    c.get db call layerHash =
      { c with lru := (c.lru.get layerHash).2.delete layerHash }.redisFallback
        (c.deleteFromRedis db call.lruDelRaises layerHash) call layerHash := by
  rw [get]
  simp only [LRUCache.get_fst, hitem, itemFresh_payload, decide_eq_false (not_le.mpr hexpired)]
  rfl

/-- Without an LRU item the lookup goes to Redis. -/
theorem get_of_absent {c : LayerScanCache} {layerHash : String}
    (hitem : c.lru.cache.get? layerHash = none) (db : CacheRedis) (call : GetCall) :
    c.get db call layerHash =
      { c with lru := (c.lru.get layerHash).2 }.redisFallback db call layerHash := by
  rw [get]
  simp only [LRUCache.get_fst, hitem]

/-- The fallback is a miss when Redis does not have the key. -/
theorem redisFallback_of_absent {c : LayerScanCache} {db : CacheRedis} {layerHash : String}
    (h : c.redis = true → db.get? (redisKey layerHash) = none) (call : GetCall) :
    c.redisFallback db call layerHash = (.ok .null, { c with misses := c.misses + 1 }, db) := by
  rw [redisFallback]
  split_ifs with hr
  · rw [Bool.and_eq_true] at hr
    rw [h hr.1]
    rfl
  · rfl

/-- The fallback finds a payload in Redis that has not expired. -/
theorem redisFallback_of_fresh {c : LayerScanCache} {db : CacheRedis} {layerHash : String}
    {d : Json} {ct et : Time} {call : GetCall} (hredis : c.redis = true)
    (hget : call.getRaises = false)
    (hraw : db.get? (redisKey layerHash) = some (.dumps (payload d ct et)))
    (hfresh : call.redisNow ≤ et) :
    c.redisFallback db call layerHash =
      (.ok d, { c with
        lru := (c.lru.put layerHash (payload d ct et)).2
        redisHits := c.redisHits + 1 }, db) := by
  rw [redisFallback, if_pos (by rw [hredis, hget]; rfl)]
  simp only [hraw, JsonText.truthy_dumps, if_true, JsonText.loads_dumps, storedFresh_payload,
    decide_eq_true hfresh, getItem_data_payload]

/-- The fallback finds an expired payload in Redis, and removes it. -/
theorem redisFallback_of_expired {c : LayerScanCache} {db : CacheRedis} {layerHash : String}
    {d : Json} {ct et : Time} {call : GetCall} (hredis : c.redis = true)
    (hget : call.getRaises = false)
    (hraw : db.get? (redisKey layerHash) = some (.dumps (payload d ct et)))
    (hexpired : et < call.redisNow) :
    c.redisFallback db call layerHash =
      (.ok .null, { c with misses := c.misses + 1 },
        c.deleteFromRedis db call.redisDelRaises layerHash) := by
  rw [redisFallback, if_pos (by rw [hredis, hget]; rfl)]
  simp only [hraw, JsonText.truthy_dumps, if_true, JsonText.loads_dumps, storedFresh_payload,
    decide_eq_false (not_le.mpr hexpired)]
  rfl

/-! ## What no `get` changes -/

theorem redisFallback_config (c : LayerScanCache) (db : CacheRedis) (call : GetCall)
    (layerHash : String) :
    (c.redisFallback db call layerHash).2.1.redis = c.redis ∧
      (c.redisFallback db call layerHash).2.1.ttlSeconds = c.ttlSeconds := by
  rw [redisFallback]
  repeat' split
  all_goals exact ⟨rfl, rfl⟩

/-- The client and the time to live are fixed at construction. -/
theorem get_config (c : LayerScanCache) (db : CacheRedis) (call : GetCall) (layerHash : String) :
    (c.get db call layerHash).2.1.redis = c.redis ∧
      (c.get db call layerHash).2.1.ttlSeconds = c.ttlSeconds := by
  rw [get]
  split
  · exact redisFallback_config _ _ _ _
  · split
    · exact ⟨rfl, rfl⟩
    · exact ⟨rfl, rfl⟩
    · exact redisFallback_config _ _ _ _

end LayerScanCache
end Rcsce
