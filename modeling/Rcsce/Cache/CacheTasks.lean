import Rcsce.Lib.Machine
import Rcsce.Cache.LayerScanCache

/-!
# The requests of a cache node, cut at their atomic steps

The endpoints of a cache node run in a thread pool.  A method of the LRU holds its lock,
a Redis command is atomic at the server, and a clock reading is one step too; between two
of these anything can happen.  `CacheTask` says where in `LayerScanCache.get`, `put`,
`delete` or the warm-up a thread is, with the local variables it has there, and
`CacheTask.run` is its next atomic step on the node and on Redis.

A task that runs without interruption computes the method: `get_solo`, `put_solo`,
`delete_solo` and `warm_solo`.  So the methods of `LayerScanCache` are what a single
request does, and the tasks are what many requests do at once.
-/

namespace Rcsce

/-- What the surroundings decide about one step: the clock it may read, whether the Redis
command that it may issue raises, and the keys that KEYS may list. -/
structure Surroundings where
  now : Time := 0
  raises : Bool := false
  keys : List String := []

/-- Where a request is.  `admitted` is the clock reading of the expiry check that let
the data through. -/
inductive CacheTask where
  -- `get`
  | lruGet (h : String)
  | lruCheck (h : String) (item : Json)
  | lruClean (h : String)
  | lruDel (h : String)
  | redisGet (h : String)
  | redisCheck (h : String) (stored : Json)
  | rehydrate (h : String) (stored : Json) (admitted : Time)
  | redisDel (h : String)
  | returned (h : String) (answer : Except PyError Json) (admitted : Option Time)
  -- `put`
  | putCreated (h : String) (v : Json)
  | putExpires (h : String) (v : Json) (createdAt : Time)
  | putLru (h : String) (v : Json) (createdAt expiresAt : Time)
  | putSetex (h : String) (v : Json) (createdAt expiresAt : Time) (evicted : Option String)
  | putDel (h : String) (v : Json) (createdAt expiresAt : Time) (evicted : String)
  | putReturned (h : String) (v : Json) (createdAt expiresAt : Time)
  -- `delete`
  | deleteLru (h : String)
  | deleteDel (h : String)
  | deleted (h : String)
  -- the warm-up
  | warmKeys
  | warmTime (keys : List String)
  | warmGet (now : Time) (keys : List String)
  | warmDel (now : Time) (fullKey : String) (keys : List String)
  | warmPut (now : Time) (fullKey : String) (stored : Json) (keys : List String)
  | warmed

/-- A task, the node that it runs on and Redis. -/
abbrev TaskState := CacheTask × LayerScanCache × CacheRedis

namespace CacheTask

/-- `self._misses += 1; return None`. -/
def miss (h : String) (c : LayerScanCache) (db : CacheRedis) : TaskState :=
  (.returned h (.ok .null) none, { c with misses := c.misses + 1 }, db)

/-- The next atomic step, unless the request has returned. -/
def run (e : Surroundings) (c : LayerScanCache) (db : CacheRedis) :
    CacheTask → Option TaskState
  | .lruGet h =>
      let c' := { c with lru := (c.lru.get h).2 }
      match (c.lru.get h).1 with
      | none => some (.redisGet h, c', db)
      | some item => some (.lruCheck h item, c', db)
  | .lruCheck h item =>
      match item.getItem "expires_at" >>= Json.clockLe e.now with
      | .error err => some (.returned h (.error err) none, c, db)
      | .ok true => some (.returned h (item.getItem "data") (some e.now),
          { c with lruHits := c.lruHits + 1 }, db)
      | .ok false => some (.lruClean h, c, db)
  | .lruClean h => some (.lruDel h, { c with lru := c.lru.delete h }, db)
  | .lruDel h => some (.redisGet h, c, c.deleteFromRedis db e.raises h)
  | .redisGet h =>
      if c.redis && !e.raises then
        match db.get? (redisKey h) with
        | none => some (miss h c db)
        | some raw =>
          if raw.truthy then
            match raw.loads with
            | .error _ => some (miss h c db)
            | .ok stored => some (.redisCheck h stored, c, db)
          else some (miss h c db)
      else some (miss h c db)
  | .redisCheck h stored =>
      match stored.getD "expires_at" (.num 0) >>= Json.clockLe e.now with
      | .error _ => some (miss h c db)
      | .ok true => some (.rehydrate h stored e.now, c, db)
      | .ok false => some (.redisDel h, c, db)
  | .rehydrate h stored admitted =>
      let c' := { c with lru := (c.lru.put h stored).2, redisHits := c.redisHits + 1 }
      match stored.getItem "data" with
      | .ok data => some (.returned h (.ok data) (some admitted), c', db)
      | .error _ => some (miss h c' db)
  | .redisDel h => some (miss h c (c.deleteFromRedis db e.raises h))
  | .putCreated h v => some (.putExpires h v e.now, c, db)
  | .putExpires h v createdAt => some (.putLru h v createdAt (e.now + c.ttlSeconds), c, db)
  | .putLru h v createdAt expiresAt =>
      let r := c.lru.put h (payload v createdAt expiresAt)
      some (.putSetex h v createdAt expiresAt r.1, { c with lru := r.2 }, db)
  | .putSetex h v createdAt expiresAt evicted =>
      let db' := if c.redis && !e.raises && 0 < c.ttlSeconds then
        db.set (redisKey h) (.dumps (payload v createdAt expiresAt)) else db
      match evicted with
      | none => some (.putReturned h v createdAt expiresAt, c, db')
      | some k =>
        if k ≠ "" then some (.putDel h v createdAt expiresAt k, c, db')
        else some (.putReturned h v createdAt expiresAt, c, db')
  | .putDel h v createdAt expiresAt evicted =>
      some (.putReturned h v createdAt expiresAt, c, c.deleteFromRedis db e.raises evicted)
  | .deleteLru h => some (.deleteDel h, { c with lru := c.lru.delete h }, db)
  | .deleteDel h => some (.deleted h, c, c.deleteFromRedis db e.raises h)
  | .warmKeys => if e.raises then some (.warmed, c, db) else some (.warmTime e.keys, c, db)
  | .warmTime keys => some (.warmGet e.now keys, c, db)
  | .warmGet _ [] => some (.warmed, c, db)
  | .warmGet now (fullKey :: keys) =>
      if e.raises then some (.warmGet now keys, c, db)
      else
        match db.get? fullKey with
        | none => some (.warmGet now keys, c, db)
        | some raw =>
          if raw.truthy then
            match raw.loads with
            | .error _ => some (.warmGet now keys, c, db)
            | .ok stored =>
              match stored.getD "expires_at" (.num 0) >>= Json.clockGt now with
              | .error _ => some (.warmGet now keys, c, db)
              | .ok true => some (.warmDel now fullKey keys, c, db)
              | .ok false => some (.warmPut now fullKey stored keys, c, db)
          else some (.warmGet now keys, c, db)
  | .warmDel now fullKey keys =>
      some (.warmGet now keys, c, if e.raises then db else db.erase fullKey)
  | .warmPut now fullKey stored keys =>
      some (.warmGet now keys, { c with lru := (c.lru.put (stripPrefix fullKey) stored).2 }, db)
  | .returned .. | .putReturned .. | .deleted .. | .warmed => none

/-! ## Running without interruption -/

/-- The task goes on, and nothing else happens. -/
def solo (s : TaskState) (e : Surroundings) : Option TaskState := s.1.run e s.2.1 s.2.2

open Machine

variable {c c' : LayerScanCache} {db db' : CacheRedis}

theorem exec_solo_cons {s s' : TaskState} {e : Surroundings} (hstep : solo s e = some s')
    (es : List Surroundings) : exec solo s (e :: es) = exec solo s' es :=
  exec_cons_of_step solo hstep es

/-- The second half of a `get`, from the GET to Redis on. -/
theorem redisFallback_solo (c : LayerScanCache) (db : CacheRedis) (call : GetCall) (h : String) :
    ∃ es admitted, exec solo (.redisGet h, c, db) es =
      some (.returned h (c.redisFallback db call h).1 admitted,
        (c.redisFallback db call h).2.1, (c.redisFallback db call h).2.2) := by
  -- the steps that issue the GET, read the clock and issue the DEL
  let get : Surroundings := { raises := call.getRaises }
  let check : Surroundings := { now := call.redisNow }
  let del : Surroundings := { raises := call.redisDelRaises }
  rw [LayerScanCache.redisFallback]
  by_cases hredis : (c.redis && !call.getRaises) = true
  · have hget : solo (.redisGet h, c, db) get = match db.get? (redisKey h) with
        | none => some (miss h c db)
        | some raw =>
          if raw.truthy then
            match raw.loads with
            | .error _ => some (miss h c db)
            | .ok stored => some (.redisCheck h stored, c, db)
          else some (miss h c db) := if_pos hredis
    rw [if_pos hredis]
    cases hraw : db.get? (redisKey h) with
    | none => exact ⟨[get], none, by rw [exec_cons, hget, hraw]; rfl⟩
    | some raw =>
      simp only [hraw] at hget
      by_cases htruthy : raw.truthy = true
      · simp only [htruthy, if_true] at hget ⊢
        cases hload : raw.loads with
        | error err => exact ⟨[get], none, by rw [exec_cons, hget, hload]; rfl⟩
        | ok stored =>
          simp only [hload] at hget
          dsimp only
          have hcheck : solo (.redisCheck h stored, c, db) check =
              match stored.getD "expires_at" (.num 0) >>= Json.clockLe call.redisNow with
              | .error _ => some (miss h c db)
              | .ok true => some (.rehydrate h stored call.redisNow, c, db)
              | .ok false => some (.redisDel h, c, db) := rfl
          cases hfresh : stored.getD "expires_at" (.num 0) >>= Json.clockLe call.redisNow with
          | error err =>
            exact ⟨[get, check], none, by rw [exec_solo_cons hget, exec_cons, hcheck, hfresh]; rfl⟩
          | ok fresh =>
            simp only [hfresh] at hcheck
            cases fresh with
            | true =>
              cases hdata : stored.getItem "data" with
              | ok data =>
                refine ⟨[get, check, {}], some call.redisNow, ?_⟩
                rw [exec_solo_cons hget, exec_solo_cons hcheck, exec_cons, solo, run]
                simp only [hdata]
                rfl
              | error err =>
                refine ⟨[get, check, {}], none, ?_⟩
                rw [exec_solo_cons hget, exec_solo_cons hcheck, exec_cons, solo, run]
                simp only [hdata]
                rfl
            | false =>
              exact ⟨[get, check, del], none, by
                rw [exec_solo_cons hget, exec_solo_cons hcheck]; rfl⟩
      · simp only [htruthy] at hget ⊢
        exact ⟨[get], none, by rw [exec_cons, hget]; rfl⟩
  · have hget : solo (.redisGet h, c, db) get = some (miss h c db) := if_neg hredis
    rw [if_neg hredis]
    exact ⟨[get], none, by rw [exec_cons, hget]; rfl⟩

/-- **A `get` alone** computes `LayerScanCache.get`. -/
theorem get_solo (c : LayerScanCache) (db : CacheRedis) (call : GetCall) (h : String) :
    ∃ es admitted, exec solo (.lruGet h, c, db) es =
      some (.returned h (c.get db call h).1 admitted,
        (c.get db call h).2.1, (c.get db call h).2.2) := by
  have hlru : solo (.lruGet h, c, db) {} = match (c.lru.get h).1 with
      | none => some (.redisGet h, { c with lru := (c.lru.get h).2 }, db)
      | some item => some (.lruCheck h item, { c with lru := (c.lru.get h).2 }, db) := rfl
  rw [LayerScanCache.get]
  cases hitem : (c.lru.get h).1 with
  | none =>
    simp only [hitem] at hlru
    obtain ⟨es, admitted, hes⟩ :=
      redisFallback_solo { c with lru := (c.lru.get h).2 } db call h
    exact ⟨{} :: es, admitted, by rw [exec_solo_cons hlru, hes]⟩
  | some item =>
    simp only [hitem] at hlru
    dsimp only
    let check : Surroundings := { now := call.now }
    have hcheck : solo (.lruCheck h item, { c with lru := (c.lru.get h).2 }, db) check =
        match item.getItem "expires_at" >>= Json.clockLe call.now with
        | .error err => some (.returned h (.error err) none,
            { c with lru := (c.lru.get h).2 }, db)
        | .ok true => some (.returned h (item.getItem "data") (some call.now),
            { c with lru := (c.lru.get h).2, lruHits := c.lruHits + 1 }, db)
        | .ok false => some (.lruClean h, { c with lru := (c.lru.get h).2 }, db) := rfl
    cases hfresh : item.getItem "expires_at" >>= Json.clockLe call.now with
    | error err =>
      exact ⟨[{}, check], none, by rw [exec_solo_cons hlru, exec_cons, hcheck, hfresh]; rfl⟩
    | ok fresh =>
      simp only [hfresh] at hcheck
      cases fresh with
      | true => exact ⟨[{}, check], _, by rw [exec_solo_cons hlru, exec_solo_cons hcheck]; rfl⟩
      | false =>
        obtain ⟨es, admitted, hes⟩ :=
          redisFallback_solo { c with lru := (c.lru.get h).2.delete h }
            (c.deleteFromRedis db call.lruDelRaises h) call h
        refine ⟨{} :: check :: {} :: { raises := call.lruDelRaises } :: es, admitted, ?_⟩
        rw [exec_solo_cons hlru, exec_solo_cons hcheck]
        exact hes

/-- **A `put` alone** computes `LayerScanCache.put`. -/
theorem put_solo (c : LayerScanCache) (db : CacheRedis) (call : PutCall) (h : String)
    (v : Json) :
    ∃ es, exec solo (.putCreated h v, c, db) es =
      some (.putReturned h v call.createdAt (call.now + c.ttlSeconds),
        (c.put db call h v).1, (c.put db call h v).2) := by
  let stored := payload v call.createdAt (call.now + c.ttlSeconds)
  let after : LayerScanCache := { c with lru := (c.lru.put h stored).2 }
  have hsetex : solo (.putSetex h v call.createdAt (call.now + c.ttlSeconds)
        (c.lru.put h stored).1, after, db) { raises := call.setexRaises } =
      match (c.lru.put h stored).1 with
      | none => some (.putReturned h v call.createdAt (call.now + c.ttlSeconds), after,
          if c.redis && !call.setexRaises && 0 < c.ttlSeconds then
            db.set (redisKey h) (.dumps stored) else db)
      | some k =>
        if k ≠ "" then some (.putDel h v call.createdAt (call.now + c.ttlSeconds) k, after,
          if c.redis && !call.setexRaises && 0 < c.ttlSeconds then
            db.set (redisKey h) (.dumps stored) else db)
        else some (.putReturned h v call.createdAt (call.now + c.ttlSeconds), after,
          if c.redis && !call.setexRaises && 0 < c.ttlSeconds then
            db.set (redisKey h) (.dumps stored) else db) := rfl
  have hbegin : ∀ es, exec solo (.putCreated h v, c, db)
        ({ now := call.createdAt } :: { now := call.now } :: {} ::
          { raises := call.setexRaises } :: es) =
      (solo (.putSetex h v call.createdAt (call.now + c.ttlSeconds)
        (c.lru.put h stored).1, after, db) { raises := call.setexRaises }).bind
          fun s => exec solo s es := fun _ => rfl
  rw [LayerScanCache.put]
  cases hev : (c.lru.put h stored).1 with
  | none =>
    refine ⟨[{ now := call.createdAt }, { now := call.now }, {}, { raises := call.setexRaises }],
      ?_⟩
    rw [hbegin, hsetex, hev]
    rfl
  | some k =>
    by_cases hk : k ≠ ""
    · refine ⟨[{ now := call.createdAt }, { now := call.now }, {}, { raises := call.setexRaises },
        { raises := call.delRaises }], ?_⟩
      rw [hbegin, hsetex, hev]
      simp only [if_pos hk, Option.bind_some]
      rfl
    · refine ⟨[{ now := call.createdAt }, { now := call.now }, {}, { raises := call.setexRaises }],
        ?_⟩
      rw [hbegin, hsetex, hev]
      simp only [if_neg hk, Option.bind_some]
      rfl

/-- **A `delete` alone** computes `LayerScanCache.delete`. -/
theorem delete_solo (c : LayerScanCache) (db : CacheRedis) (delRaises : Bool) (h : String) :
    exec solo (.deleteLru h, c, db) [{}, { raises := delRaises }] =
      some (.deleted h, (c.delete db delRaises h).1, (c.delete db delRaises h).2) := rfl

/-- One key of the warm-up. -/
theorem warmKey_solo (c : LayerScanCache) (db : CacheRedis) (call : WarmCall) (fullKey : String)
    (keys : List String) :
    ∃ es, exec solo (.warmGet call.now (fullKey :: keys), c, db) es =
      some (.warmGet call.now keys, LayerScanCache.warmKey call (c, db) fullKey) := by
  let get : Surroundings := { raises := call.getRaises fullKey }
  rw [LayerScanCache.warmKey]
  by_cases hraises : call.getRaises fullKey = true
  · have hget : solo (.warmGet call.now (fullKey :: keys), c, db) get =
        some (.warmGet call.now keys, c, db) := if_pos hraises
    exact ⟨[get], by rw [exec_solo_cons hget, if_pos hraises]; rfl⟩
  · have hget : solo (.warmGet call.now (fullKey :: keys), c, db) get =
        match db.get? fullKey with
        | none => some (.warmGet call.now keys, c, db)
        | some raw =>
          if raw.truthy then
            match raw.loads with
            | .error _ => some (.warmGet call.now keys, c, db)
            | .ok stored =>
              match stored.getD "expires_at" (.num 0) >>= Json.clockGt call.now with
              | .error _ => some (.warmGet call.now keys, c, db)
              | .ok true => some (.warmDel call.now fullKey keys, c, db)
              | .ok false => some (.warmPut call.now fullKey stored keys, c, db)
          else some (.warmGet call.now keys, c, db) := if_neg hraises
    rw [if_neg hraises]
    cases hraw : db.get? fullKey with
    | none => exact ⟨[get], by rw [exec_cons, hget, hraw]; rfl⟩
    | some raw =>
      simp only [hraw] at hget
      by_cases htruthy : raw.truthy = true
      · simp only [htruthy, if_true] at hget ⊢
        cases hload : raw.loads with
        | error err => exact ⟨[get], by rw [exec_cons, hget, hload]; rfl⟩
        | ok stored =>
          simp only [hload] at hget
          dsimp only
          cases hexp : stored.getD "expires_at" (.num 0) >>= Json.clockGt call.now with
          | error err => exact ⟨[get], by rw [exec_cons, hget, hexp]; rfl⟩
          | ok expired =>
            simp only [hexp] at hget
            cases expired with
            | true =>
              exact ⟨[get, { raises := call.delRaises fullKey }], by
                rw [exec_solo_cons hget]; rfl⟩
            | false => exact ⟨[get, {}], by rw [exec_solo_cons hget]; rfl⟩
      · simp only [htruthy] at hget ⊢
        exact ⟨[get], by rw [exec_cons, hget]; rfl⟩

/-- **A warm-up alone** computes `_warm_from_redis`. -/
theorem warm_solo (c : LayerScanCache) (db : CacheRedis) (call : WarmCall) :
    ∃ es, exec solo (.warmKeys, c, db) es = some (.warmed, c.warmFromRedis db call) := by
  rw [LayerScanCache.warmFromRedis]
  by_cases hraises : call.keysRaises = true
  · refine ⟨[{ raises := true }], ?_⟩
    rw [if_pos hraises]
    rfl
  · have hloop : ∀ (keys : List String) (s : LayerScanCache × CacheRedis),
        ∃ es, exec solo (.warmGet call.now keys, s) es =
          some (.warmed, keys.foldl (LayerScanCache.warmKey call) s) := by
      intro keys
      induction keys with
      | nil => exact fun s => ⟨[{}], rfl⟩
      | cons k keys ih =>
        intro s
        obtain ⟨first, hfirst⟩ := warmKey_solo s.1 s.2 call k keys
        obtain ⟨rest, hrest⟩ := ih (LayerScanCache.warmKey call s k)
        exact ⟨first ++ rest, by rw [exec_append, hfirst]; exact hrest⟩
    obtain ⟨es, hes⟩ := hloop call.keys (c, db)
    refine ⟨{ keys := call.keys } :: { now := call.now } :: es, ?_⟩
    rw [if_neg hraises]
    exact hes

end CacheTask
end Rcsce
