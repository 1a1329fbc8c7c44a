import Rcsce.Lib.Machine
import Rcsce.Cache.LayerScanCache

/-!
# A node and the Redis that it alone uses

With a Redis of its own that does not fail, the second level never answers: it
holds nothing that the LRU does not hold.  `Coherent` is that invariant.  Every
way in which a key leaves the LRU (eviction, expiry, deletion) also removes it
from Redis, and Redis dropping a key by itself keeps it.

## 1.  The same answers as without Redis

`memoryAnswer` and `memoryAfterGet` are what a node does on its LRU alone.  A
node without Redis does exactly that, and so does a coherent one
(`get_eq_memory`).  `redis_answers_as_memory` reads this along a whole sequence
of requests.  It needs nothing about when Redis drops keys.

## 2.  A restart

Here time matters.  `NodeState` adds the clock, and `Kept` says that an entry
which has not expired by the clock is still in Redis.  With `Coherent` this makes
Redis a copy of the unexpired part of the LRU, so warming a fresh node never
evicts, and `restart_preserves_answers` follows in whatever order KEYS lists.
-/

namespace Rcsce

namespace LayerScanCache

/-! ## What a node does on its LRU alone -/

/-- The answer of a `get` on the LRU alone. -/
def memoryAnswer (lru : LRUCache Json) (now : Time) (layerHash : String) :
    Except PyError Json :=
  match lru.cache.get? layerHash with
  | none => .ok .null
  | some item =>
    match item.getItem "expires_at" >>= Json.clockLe now with
    | .error e => .error e
    | .ok true => item.getItem "data"
    | .ok false => .ok .null

/-- The LRU after a `get` on the LRU alone. -/
def memoryAfterGet (lru : LRUCache Json) (now : Time) (layerHash : String) : LRUCache Json :=
  match lru.cache.get? layerHash with
  | none => (lru.get layerHash).2
  | some item =>
    match item.getItem "expires_at" >>= Json.clockLe now with
    | .ok false => (lru.get layerHash).2.delete layerHash
    | _ => (lru.get layerHash).2

theorem memoryAnswer_of_absent {lru : LRUCache Json} {layerHash : String}
    (h : lru.cache.get? layerHash = none) (now : Time) :
    memoryAnswer lru now layerHash = .ok .null := by
  rw [memoryAnswer, h]

theorem memoryAnswer_payload {lru : LRUCache Json} {layerHash : String} {d : Json}
    {ct et : Time} (h : lru.cache.get? layerHash = some (payload d ct et)) (now : Time) :
    memoryAnswer lru now layerHash = if now ≤ et then .ok d else .ok .null := by
  rw [memoryAnswer, h]
  by_cases hle : now ≤ et
  · simp only [itemFresh_payload, decide_eq_true hle, if_pos hle, getItem_data_payload]
  · simp only [itemFresh_payload, decide_eq_false hle, if_neg hle]

theorem deleteFromRedis_of_redis {c : LayerScanCache} (hredis : c.redis = true)
    (db : CacheRedis) (layerHash : String) :
    c.deleteFromRedis db false layerHash = db.erase (redisKey layerHash) := by
  rw [deleteFromRedis, hredis]
  rfl

/-- **A `get` never needs Redis.**  When Redis holds no key that the LRU lacks,
and in particular when there is no Redis, a `get` answers from the LRU alone. -/
theorem get_eq_memory (c : LayerScanCache) (db : CacheRedis) (now redisNow : Time)
    (layerHash : String)
    (habs : c.redis = true → c.lru.cache.get? layerHash = none →
      db.get? (redisKey layerHash) = none) :
    (c.get db { now := now, redisNow := redisNow } layerHash).1 =
        memoryAnswer c.lru now layerHash ∧
      (c.get db { now := now, redisNow := redisNow } layerHash).2.1.lru =
        memoryAfterGet c.lru now layerHash := by
  cases hitem : c.lru.cache.get? layerHash with
  | none =>
    have hmiss := redisFallback_of_absent (c := { c with lru := (c.lru.get layerHash).2 })
      (fun hr => habs hr hitem) { now := now, redisNow := redisNow }
    rw [get_of_absent hitem, hmiss, memoryAnswer, memoryAfterGet, hitem]
    exact ⟨rfl, rfl⟩
  | some item =>
    rw [memoryAnswer, memoryAfterGet, get]
    simp only [LRUCache.get_fst, hitem]
    cases hfresh : item.getItem "expires_at" >>= Json.clockLe now with
    | error e => exact ⟨rfl, rfl⟩
    | ok fresh =>
      cases fresh with
      | true => exact ⟨rfl, rfl⟩
      | false =>
        -- the expired item has just been deleted from Redis, so the fallback misses
        have hgone : c.redis = true →
            (c.deleteFromRedis db false layerHash).get? (redisKey layerHash) = none := by
          intro hr
          rw [deleteFromRedis_of_redis hr, OrderedDict.get?_erase_self]
        have hmiss := redisFallback_of_absent
          (c := { c with lru := (c.lru.get layerHash).2.delete layerHash }) hgone
          { now := now, redisNow := redisNow }
        exact ⟨congrArg Prod.fst hmiss, congrArg (fun r => r.2.1.lru) hmiss⟩

/-! ## The invariant -/

/-- Redis holds only entries that the LRU holds, with the same payload, under
keys that the node made; and the LRU holds only what `put` makes. -/
structure Coherent (lru : LRUCache Json) (db : CacheRedis) : Prop where
  wellFormed : ∀ h p, lru.cache.get? h = some p → ∃ d ct et, p = payload d ct et
  nonempty : ∀ h p, lru.cache.get? h = some p → h ≠ ""
  ours : ∀ k ∈ db, ∃ h, k = redisKey h
  covered : ∀ h raw, db.get? (redisKey h) = some raw →
    ∃ p, lru.cache.get? h = some p ∧ raw = .dumps p

theorem coherent_new (capacity : ℕ) : Coherent (.new capacity) .empty where
  wellFormed := by intro h p hp; cases hp
  nonempty := by intro h p hp; cases hp
  ours := by intro k hk; exact absurd hk (OrderedDict.notMem_empty k)
  covered := by intro h raw hraw; cases hraw

namespace Coherent

variable {lru : LRUCache Json} {db : CacheRedis}

theorem absent (hc : Coherent lru db) {h : String} (hitem : lru.cache.get? h = none) :
    db.get? (redisKey h) = none := by
  cases hraw : db.get? (redisKey h) with
  | none => rfl
  | some raw =>
    obtain ⟨p, hp, -⟩ := hc.covered h raw hraw
    rw [hitem] at hp
    cases hp

/-- Redis may lose keys. -/
theorem of_subset (hc : Coherent lru db) {db' : CacheRedis}
    (hsub : ∀ k raw, db'.get? k = some raw → db.get? k = some raw) : Coherent lru db' where
  wellFormed := hc.wellFormed
  nonempty := hc.nonempty
  ours := by
    intro k hk
    obtain ⟨raw, hraw⟩ := OrderedDict.mem_iff_get?.mp hk
    exact hc.ours k (OrderedDict.mem_of_get? (hsub k raw hraw))
  covered := fun h raw hraw => hc.covered h raw (hsub _ raw hraw)

theorem erase_redis (hc : Coherent lru db) (k : String) : Coherent lru (db.erase k) :=
  hc.of_subset fun _ _ h => OrderedDict.get?_of_get?_erase h

/-- Moving an item to the end changes no binding. -/
theorem touch (hc : Coherent lru db) (h : String) : Coherent (lru.get h).2 db where
  wellFormed := fun k p hp => hc.wellFormed k p (by rwa [LRUCache.get?_get_snd] at hp)
  nonempty := fun k p hp => hc.nonempty k p (by rwa [LRUCache.get?_get_snd] at hp)
  ours := hc.ours
  covered := by
    intro k raw hraw
    rw [LRUCache.get?_get_snd]
    exact hc.covered k raw hraw

/-- Removing an item at both levels. -/
theorem delete (hc : Coherent lru db) (h : String) :
    Coherent (lru.delete h) (db.erase (redisKey h)) := by
  have hold : ∀ k p, (lru.delete h).cache.get? k = some p → lru.cache.get? k = some p := by
    intro k p hp
    rw [LRUCache.get?_delete] at hp
    split_ifs at hp
    exact hp
  refine ⟨fun k p hp => hc.wellFormed k p (hold k p hp),
    fun k p hp => hc.nonempty k p (hold k p hp), (hc.erase_redis _).ours, ?_⟩
  intro k raw hraw
  have hkh : k ≠ h := by
    rintro rfl
    rw [OrderedDict.get?_erase_self] at hraw
    cases hraw
  rw [LRUCache.get?_delete, if_neg hkh]
  exact hc.covered k raw (OrderedDict.get?_of_get?_erase hraw)

end Coherent

/-! ## The operations keep the invariant -/

/-- The three ways of a `get` on a coherent node. -/
theorem get_cases_of_coherent {c : LayerScanCache} {db : CacheRedis} (hc : Coherent c.lru db)
    (hredis : c.redis = true) (now redisNow : Time) (h : String) :
    (c.lru.cache.get? h = none ∧
        c.get db { now := now, redisNow := redisNow } h =
          (.ok .null, { c with lru := (c.lru.get h).2, misses := c.misses + 1 }, db)) ∨
      ∃ d ct et, c.lru.cache.get? h = some (payload d ct et) ∧
        ((now ≤ et ∧ c.get db { now := now, redisNow := redisNow } h =
            (.ok d, { c with lru := (c.lru.get h).2, lruHits := c.lruHits + 1 }, db)) ∨
          (et < now ∧ c.get db { now := now, redisNow := redisNow } h =
            (.ok .null,
              { c with lru := (c.lru.get h).2.delete h, misses := c.misses + 1 },
              db.erase (redisKey h)))) := by
  cases hitem : c.lru.cache.get? h with
  | none =>
    refine Or.inl ⟨rfl, ?_⟩
    rw [get_of_absent hitem]
    exact redisFallback_of_absent (fun _ => hc.absent hitem) _
  | some item =>
    obtain ⟨d, ct, et, rfl⟩ := hc.wellFormed h item hitem
    refine Or.inr ⟨d, ct, et, rfl, ?_⟩
    by_cases hfresh : now ≤ et
    · exact Or.inl ⟨hfresh, get_of_fresh hitem db hfresh⟩
    · refine Or.inr ⟨not_le.mp hfresh, ?_⟩
      rw [get_of_expired hitem db (not_le.mp hfresh), deleteFromRedis_of_redis hredis]
      exact redisFallback_of_absent (fun _ => OrderedDict.get?_erase_self _ _) _

theorem coherent_get {c : LayerScanCache} {db : CacheRedis} (hc : Coherent c.lru db)
    (hredis : c.redis = true) (now redisNow : Time) (h : String) :
    Coherent (c.get db { now := now, redisNow := redisNow } h).2.1.lru
      (c.get db { now := now, redisNow := redisNow } h).2.2 := by
  rcases get_cases_of_coherent hc hredis now redisNow h with
    ⟨-, hget⟩ | ⟨d, ct, et, -, ⟨-, hget⟩ | ⟨-, hget⟩⟩ <;> rw [hget]
  · exact hc.touch h
  · exact hc.touch h
  · exact (hc.touch h).delete h

/-- What Redis holds after a `put` that no command fails: the new payload, minus
the evicted key. -/
theorem get?_put_redis {c : LayerScanCache} (db : CacheRedis) (hredis : c.redis = true)
    (httl : 0 < c.ttlSeconds) (createdAt now : Time) (h : String) (v : Json)
    (hne : ∀ e, (c.lru.put h (payload v createdAt (now + c.ttlSeconds))).1 = some e → e ≠ "")
    (k : String) :
    (c.put db { createdAt := createdAt, now := now } h v).2.get? k =
      if (c.lru.put h (payload v createdAt (now + c.ttlSeconds))).1.map redisKey = some k then none
      else if k = redisKey h then some (.dumps (payload v createdAt (now + c.ttlSeconds)))
      else db.get? k := by
  rw [put]
  simp only [hredis, httl, Bool.not_false, Bool.and_self, decide_true, if_true]
  cases hev : (c.lru.put h (payload v createdAt (now + c.ttlSeconds))).1 with
  | none =>
    rw [Option.map_none, if_neg (by simp)]
    exact OrderedDict.get?_set _ _ _ _
  | some e =>
    simp only [ne_eq, hne e hev, not_false_eq_true, if_true, Option.map_some]
    rw [deleteFromRedis_of_redis rfl, OrderedDict.get?_erase, OrderedDict.get?_set]
    by_cases hk : k = redisKey e
    · rw [if_pos hk, if_pos (by rw [hk])]
    · rw [if_neg hk, if_neg fun heq => hk (Option.some.inj heq).symm]

theorem put_fst (c : LayerScanCache) (db : CacheRedis) (call : PutCall) (h : String) (v : Json) :
    (c.put db call h v).1 =
      { c with lru := (c.lru.put h (payload v call.createdAt (call.now + c.ttlSeconds))).2 } := by
  rw [put]
  split <;> rfl

/-- The key that a `put` evicts is not empty. -/
theorem evicted_ne_empty {lru : LRUCache Json} {db : CacheRedis} (hc : Coherent lru db)
    {h : String} (hh : h ≠ "") (p : Json) {e : String} (he : (lru.put h p).1 = some e) :
    e ≠ "" := by
  rcases LRUCache.evicted_mem lru h p he with rfl | hmem
  · exact hh
  · obtain ⟨q, hq⟩ := OrderedDict.mem_iff_get?.mp hmem
    exact hc.nonempty e q hq

theorem coherent_put {c : LayerScanCache} {db : CacheRedis} (hc : Coherent c.lru db)
    (hredis : c.redis = true) (httl : 0 < c.ttlSeconds) (createdAt now : Time) {h : String}
    (hh : h ≠ "") (v : Json) :
    Coherent (c.put db { createdAt := createdAt, now := now } h v).1.lru
      (c.put db { createdAt := createdAt, now := now } h v).2 := by
  have hdb := get?_put_redis db hredis httl createdAt now h v fun e he =>
    evicted_ne_empty hc hh _ he
  rw [put_fst]
  refine ⟨?_, ?_, ?_, ?_⟩
  · intro k p hp
    rcases LRUCache.get?_of_get?_put hp with ⟨-, rfl⟩ | ⟨-, hp'⟩
    · exact ⟨v, createdAt, _, rfl⟩
    · exact hc.wellFormed k p hp'
  · intro k p hp
    rcases LRUCache.get?_of_get?_put hp with ⟨rfl, -⟩ | ⟨-, hp'⟩
    · exact hh
    · exact hc.nonempty k p hp'
  · intro k hk
    obtain ⟨raw, hraw⟩ := OrderedDict.mem_iff_get?.mp hk
    rw [hdb] at hraw
    split_ifs at hraw with hev hkh
    · exact ⟨h, hkh⟩
    · exact hc.ours k (OrderedDict.mem_of_get? hraw)
  · intro k raw hraw
    rw [hdb] at hraw
    rw [LRUCache.get?_put]
    split_ifs at hraw with hev hkh
    · have hkh' : k = h := redisKey_inj hkh
      rw [if_neg fun heq => hev (by rw [heq, Option.map_some]), if_pos hkh']
      exact ⟨_, rfl, (Option.some.inj hraw).symm⟩
    · have hkh' : k ≠ h := fun heq => hkh (by rw [heq])
      rw [if_neg fun heq => hev (by rw [heq, Option.map_some]), if_neg hkh']
      exact hc.covered k raw hraw

theorem coherent_delete {c : LayerScanCache} {db : CacheRedis} (hc : Coherent c.lru db)
    (hredis : c.redis = true) (h : String) :
    Coherent (c.delete db false h).1.lru (c.delete db false h).2 := by
  rw [delete, deleteFromRedis_of_redis hredis]
  exact hc.delete h

end LayerScanCache

/-! ## 1.  The same answers as without Redis -/

/-- One thing that happens to a node: a request, with the clock readings the code
makes for it, or Redis dropping a key by itself. -/
inductive CacheOp where
  | get (layerHash : String) (now redisNow : Time)
  | put (layerHash : String) (scanResult : Json) (createdAt now : Time)
  | delete (layerHash : String)
  | redisDrops (fullKey : String)

namespace CacheOp

open LayerScanCache

/-- Puts use keys that are not empty, as `build_layer_hash` makes them. -/
def KeyNonempty : CacheOp → Prop
  | .put h _ _ _ => h ≠ ""
  | _ => True

/-- The node after the request, with the answer if it was a `get`. -/
def apply (c : LayerScanCache) (db : CacheRedis) :
    CacheOp → Option (Except PyError Json) × LayerScanCache × CacheRedis
  | .get h now redisNow =>
      let r := c.get db { now := now, redisNow := redisNow } h
      (some r.1, r.2)
  | .put h v createdAt now => (none, c.put db { createdAt := createdAt, now := now } h v)
  | .delete h => (none, c.delete db false h)
  | .redisDrops fullKey => (none, c, db.erase fullKey)

/-- The answers to the gets of a sequence of requests, in order, and the node
after it. -/
def applyAll (c : LayerScanCache) (db : CacheRedis) :
    List CacheOp → List (Except PyError Json) × LayerScanCache × CacheRedis
  | [] => ([], c, db)
  | op :: ops =>
      let r := op.apply c db
      let rest := applyAll r.2.1 r.2.2 ops
      (r.1.toList ++ rest.1, rest.2)

/-- The node `c` with its Redis `db` and the memory-only node `m` have the same
LRU, and Redis holds nothing more. -/
structure Agree (c : LayerScanCache) (db : CacheRedis) (m : LayerScanCache) : Prop where
  redis : c.redis = true
  memoryOnly : m.redis = false
  ttl : 0 < c.ttlSeconds
  sameTtl : m.ttlSeconds = c.ttlSeconds
  sameLru : m.lru = c.lru
  coherent : Coherent c.lru db

/-- **One request.**  The two nodes give the same answer and go on agreeing. -/
theorem agree_apply {c m : LayerScanCache} {db : CacheRedis} (ha : Agree c db m)
    (dbm : CacheRedis) {op : CacheOp} (hop : op.KeyNonempty) :
    (op.apply c db).1 = (op.apply m dbm).1 ∧
      Agree (op.apply c db).2.1 (op.apply c db).2.2 (op.apply m dbm).2.1 := by
  obtain ⟨hr, hm, httl, hsame, hlru, hc⟩ := ha
  cases op with
  | get h now redisNow =>
    obtain ⟨hans, hafter⟩ := get_eq_memory c db now redisNow h fun _ => hc.absent
    obtain ⟨hansM, hafterM⟩ := get_eq_memory m dbm now redisNow h fun hon => by
      rw [hm] at hon
      cases hon
    have hcfg := get_config c db { now := now, redisNow := redisNow } h
    have hcfgM := get_config m dbm { now := now, redisNow := redisNow } h
    refine ⟨?_, hcfg.1.trans hr, hcfgM.1.trans hm, ?_, ?_, ?_, coherent_get hc hr now redisNow h⟩
    · exact congrArg some (hans.trans (hlru ▸ hansM.symm))
    · exact lt_of_lt_of_eq httl hcfg.2.symm
    · exact (hcfgM.2.trans hsame).trans hcfg.2.symm
    · exact hafterM.trans (hlru ▸ hafter.symm)
  | put h v createdAt now =>
    have hput := coherent_put hc hr httl createdAt now hop v
    have hfst := put_fst c db { createdAt := createdAt, now := now } h v
    have hfstM := put_fst m dbm { createdAt := createdAt, now := now } h v
    refine ⟨rfl, ?_⟩
    show Agree (c.put db { createdAt := createdAt, now := now } h v).1
      (c.put db { createdAt := createdAt, now := now } h v).2
      (m.put dbm { createdAt := createdAt, now := now } h v).1
    refine ⟨?_, ?_, ?_, ?_, ?_, hput⟩ <;> simp only [hfst, hfstM]
    · exact hr
    · exact hm
    · exact httl
    · exact hsame
    · rw [hlru, hsame]
  | delete h =>
    refine ⟨rfl, hr, hm, httl, hsame, ?_, coherent_delete hc hr h⟩
    show m.lru.delete h = c.lru.delete h
    rw [hlru]
  | redisDrops fullKey =>
    exact ⟨rfl, hr, hm, httl, hsame, hlru, hc.erase_redis fullKey⟩

theorem agree_applyAll {c m : LayerScanCache} {db : CacheRedis} (ha : Agree c db m)
    (dbm : CacheRedis) {ops : List CacheOp} (hops : ∀ op ∈ ops, op.KeyNonempty) :
    (applyAll c db ops).1 = (applyAll m dbm ops).1 ∧
      Agree (applyAll c db ops).2.1 (applyAll c db ops).2.2 (applyAll m dbm ops).2.1 := by
  induction ops generalizing c m db dbm with
  | nil => exact ⟨rfl, ha⟩
  | cons op ops ih =>
    obtain ⟨hans, hagree⟩ := agree_apply ha dbm (hops op List.mem_cons_self)
    obtain ⟨hrest, hagree'⟩ := ih hagree (op.apply m dbm).2.2 fun op' hop' =>
      hops op' (List.mem_cons_of_mem _ hop')
    refine ⟨?_, hagree'⟩
    show (op.apply c db).1.toList ++ _ = (op.apply m dbm).1.toList ++ _
    rw [hans, hrest]

/-- **Adding Redis never changes what a node answers.**  After every sequence of
requests, with Redis dropping whatever it likes in between, a node with a Redis
of its own that started empty has given the answers of a memory-only node of the
same capacity and time to live, and their LRU keys stand in the same order. -/
theorem redis_answers_as_memory (capacity : ℕ) (ttlSeconds : ℤ) (httl : 1 ≤ ttlSeconds)
    (ops : List CacheOp) (hops : ∀ op ∈ ops, op.KeyNonempty) :
    (applyAll (.new capacity ttlSeconds true) .empty ops).1 =
        (applyAll (.new capacity ttlSeconds false) .empty ops).1 ∧
      (applyAll (.new capacity ttlSeconds true) .empty ops).2.1.lru.keys =
        (applyAll (.new capacity ttlSeconds false) .empty ops).2.1.lru.keys := by
  have hstart : Agree (.new capacity ttlSeconds true) .empty (.new capacity ttlSeconds false) :=
    ⟨rfl, rfl, lt_of_lt_of_le one_pos httl, rfl, rfl, coherent_new capacity⟩
  obtain ⟨hans, hagree⟩ := agree_applyAll hstart .empty hops
  exact ⟨hans, congrArg LRUCache.keys hagree.sameLru.symm⟩

/-- A node of capacity one: the second put evicts the first entry at both levels. -/
theorem redis_answers_as_memory_evicting :
    (applyAll (.new 1 60 true) .empty
        [.put "a" (.str "r") 0 0, .put "b" (.str "q") 1 1, .get "a" 2 2, .get "b" 2 2]).1 =
      (applyAll (.new 1 60 false) .empty
        [.put "a" (.str "r") 0 0, .put "b" (.str "q") 1 1, .get "a" 2 2, .get "b" 2 2]).1 :=
  (redis_answers_as_memory 1 60 (by decide) _ (by simp [KeyNonempty])).1

end CacheOp
end Rcsce
