import Rcsce.Cache.LayerScanCache

/-!
# Where the answers of a cache node come from

`HoldsOnly P` says that every payload of a node, in its LRU or in Redis, holds data
with the property `P`.  Any operation keeps it, whichever Redis commands raise, as long
as `put` is given such data: a `get` and a warm-up only move payloads between the two
levels, and Redis dropping a key by itself only loses one.  So whatever a `get` answers
has `P` (`HoldsOnly.get`), and with the data that were ever put for `P`, a node answers
nothing but what was put.
-/

namespace Rcsce
namespace LayerScanCache

/-- The payload of data with `P`. -/
def PayloadOf (P : Json → Prop) (item : Json) : Prop := ∃ d ct et, item = payload d ct et ∧ P d

/-- Every payload of the node and of its Redis holds data with `P`. -/
structure HoldsOnly (P : Json → Prop) (c : LayerScanCache) (db : CacheRedis) : Prop where
  lru : ∀ h item, c.lru.cache.get? h = some item → PayloadOf P item
  redis : ∀ k raw, db.get? k = some raw → ∃ item, raw = .dumps item ∧ PayloadOf P item

variable {P Q : Json → Prop} {c c' : LayerScanCache} {db db' : CacheRedis}

theorem PayloadOf.mono {item : Json} (hPQ : ∀ d, P d → Q d) (h : PayloadOf P item) :
    PayloadOf Q item := by
  obtain ⟨d, ct, et, rfl, hd⟩ := h
  exact ⟨d, ct, et, rfl, hPQ d hd⟩

namespace HoldsOnly

theorem new (capacity : ℕ) (ttlSeconds : ℤ) (redis : Bool) :
    HoldsOnly P (.new capacity ttlSeconds redis) .empty :=
  ⟨(fun _ _ h => nomatch h), fun _ _ h => nomatch h⟩

theorem mono (hc : HoldsOnly P c db) (hPQ : ∀ d, P d → Q d) : HoldsOnly Q c db := by
  refine ⟨fun h item hitem => (hc.lru h item hitem).mono hPQ, fun k raw hraw => ?_⟩
  obtain ⟨item, rfl, hitem⟩ := hc.redis k raw hraw
  exact ⟨item, rfl, hitem.mono hPQ⟩

/-- Only the bindings matter, and losing some of them keeps the property. -/
theorem of_subset (hc : HoldsOnly P c db)
    (hlru : ∀ h item, c'.lru.cache.get? h = some item → c.lru.cache.get? h = some item)
    (hredis : ∀ k raw, db'.get? k = some raw → db.get? k = some raw) : HoldsOnly P c' db' :=
  ⟨fun h item hitem => hc.lru h item (hlru h item hitem),
    fun k raw hraw => hc.redis k raw (hredis k raw hraw)⟩

/-- Redis drops a key. -/
theorem drop (hc : HoldsOnly P c db) (k : String) : HoldsOnly P c (db.erase k) :=
  hc.of_subset (fun _ _ h => h) fun _ _ h => OrderedDict.get?_of_get?_erase h

theorem deleteFromRedis (hc : HoldsOnly P c db) (c' : LayerScanCache) (raises : Bool)
    (layerHash : String) : HoldsOnly P c (c'.deleteFromRedis db raises layerHash) := by
  rw [LayerScanCache.deleteFromRedis]
  split_ifs
  · exact hc.drop _
  · exact hc

/-- A `get` of the LRU changes no binding. -/
theorem touch (hc : HoldsOnly P c db) (layerHash : String) :
    HoldsOnly P { c with lru := (c.lru.get layerHash).2 } db :=
  hc.of_subset (fun h item hitem => by rwa [LRUCache.get?_get_snd] at hitem) fun _ _ h => h

theorem deleteLru (hc : HoldsOnly P c db) (layerHash : String) :
    HoldsOnly P { c with lru := c.lru.delete layerHash } db := by
  refine hc.of_subset (fun h item hitem => ?_) fun _ _ h => h
  rw [LRUCache.get?_delete] at hitem
  split_ifs at hitem
  exact hitem

/-- A payload of data with `P` enters the LRU. -/
theorem putLru (hc : HoldsOnly P c db) {item : Json} (hitem : PayloadOf P item)
    (layerHash : String) : HoldsOnly P { c with lru := (c.lru.put layerHash item).2 } db := by
  refine ⟨fun h old hold => ?_, hc.redis⟩
  rcases LRUCache.get?_of_get?_put hold with ⟨-, rfl⟩ | ⟨-, hold'⟩
  · exact hitem
  · exact hc.lru h old hold'

/-- A payload of data with `P` enters Redis. -/
theorem setex (hc : HoldsOnly P c db) {item : Json} (hitem : PayloadOf P item) (k : String) :
    HoldsOnly P c (db.set k (.dumps item)) := by
  refine ⟨hc.lru, fun k' raw hraw => ?_⟩
  rw [OrderedDict.get?_set] at hraw
  split_ifs at hraw
  · exact ⟨item, (Option.some.inj hraw).symm, hitem⟩
  · exact hc.redis k' raw hraw

/-- The counters do not matter. -/
theorem counted (hc : HoldsOnly P c db) (lruHits redisHits misses : ℕ) :
    HoldsOnly P { c with lruHits, redisHits, misses } db :=
  ⟨hc.lru, hc.redis⟩

/-! ## Looking up -/

theorem redisFallback (hc : HoldsOnly P c db) (call : GetCall) (layerHash : String) :
    HoldsOnly P (c.redisFallback db call layerHash).2.1 (c.redisFallback db call layerHash).2.2 ∧
      ∀ d, (c.redisFallback db call layerHash).1 = .ok d → d = .null ∨ P d := by
  have hmiss : HoldsOnly P c.miss.2 db ∧ ∀ d, c.miss.1 = .ok d → d = .null ∨ P d :=
    ⟨hc.counted _ _ _, fun d hd => Or.inl (Except.ok.inj hd).symm⟩
  rw [LayerScanCache.redisFallback]
  split_ifs
  · cases hraw : db.get? (redisKey layerHash) with
    | none => exact hmiss
    | some raw =>
      obtain ⟨item, rfl, hitem⟩ := hc.redis _ raw hraw
      obtain ⟨d, ct, et, rfl, hd⟩ := id hitem
      simp only [JsonText.truthy_dumps, if_true, JsonText.loads_dumps, storedFresh_payload,
        getItem_data_payload]
      cases decide (call.redisNow ≤ et) with
      | true =>
        refine ⟨(hc.putLru hitem layerHash).counted _ _ _, fun d' hd' => ?_⟩
        exact Or.inr (Except.ok.inj hd' ▸ hd)
      | false => exact ⟨hmiss.1.deleteFromRedis _ _ _, hmiss.2⟩
  · exact hmiss

theorem get (hc : HoldsOnly P c db) (call : GetCall) (layerHash : String) :
    HoldsOnly P (c.get db call layerHash).2.1 (c.get db call layerHash).2.2 ∧
      ∀ d, (c.get db call layerHash).1 = .ok d → d = .null ∨ P d := by
  have htouch := hc.touch layerHash
  rw [LayerScanCache.get]
  simp only [LRUCache.get_fst]
  cases hitem : c.lru.cache.get? layerHash with
  | none => exact htouch.redisFallback call layerHash
  | some item =>
    obtain ⟨d, ct, et, rfl, hd⟩ := hc.lru _ item hitem
    simp only [itemFresh_payload, getItem_data_payload]
    cases decide (call.now ≤ et) with
    | true =>
      refine ⟨htouch.counted _ _ _, fun d' hd' => ?_⟩
      exact Or.inr (Except.ok.inj hd' ▸ hd)
    | false =>
      exact ((htouch.deleteLru layerHash).deleteFromRedis _ _ _).redisFallback call layerHash

/-! ## The other operations -/

theorem put (hc : HoldsOnly P c db) (call : PutCall) (layerHash : String) {scanResult : Json}
    (h : P scanResult) :
    HoldsOnly P (c.put db call layerHash scanResult).1 (c.put db call layerHash scanResult).2 := by
  have hitem : PayloadOf P (payload scanResult call.createdAt (call.now + c.ttlSeconds)) :=
    ⟨_, _, _, rfl, h⟩
  have hlru := hc.putLru hitem layerHash
  have hwritten : HoldsOnly P
      { c with lru := (c.lru.put layerHash (payload scanResult call.createdAt
        (call.now + c.ttlSeconds))).2 }
      (if c.redis && !call.setexRaises && 0 < c.ttlSeconds then db.set (redisKey layerHash)
        (.dumps (payload scanResult call.createdAt (call.now + c.ttlSeconds))) else db) := by
    split
    · exact hlru.setex hitem _
    · exact hlru
  rw [LayerScanCache.put]
  split
  · exact hwritten
  · dsimp only
    split
    · exact hwritten.deleteFromRedis _ _ _
    · exact hwritten

theorem warmKey (hc : HoldsOnly P c db) (call : WarmCall) (fullKey : String) :
    HoldsOnly P (LayerScanCache.warmKey call (c, db) fullKey).1
      (LayerScanCache.warmKey call (c, db) fullKey).2 := by
  rw [LayerScanCache.warmKey]
  split
  · exact hc
  · cases hraw : db.get? fullKey with
    | none => exact hc
    | some raw =>
      obtain ⟨item, rfl, hitem⟩ := hc.redis _ raw hraw
      obtain ⟨d, ct, et, rfl, hd⟩ := id hitem
      simp only [JsonText.truthy_dumps, if_true, JsonText.loads_dumps, storedExpired_payload]
      cases decide (et < call.now) with
      | true =>
        dsimp only
        split
        · exact hc
        · exact hc.drop _
      | false => exact hc.putLru hitem _

theorem warmFromRedis (hc : HoldsOnly P c db) (call : WarmCall) :
    HoldsOnly P (c.warmFromRedis db call).1 (c.warmFromRedis db call).2 := by
  rw [LayerScanCache.warmFromRedis]
  split_ifs
  · exact hc
  · induction call.keys generalizing c db with
    | nil => exact hc
    | cons k keys ih => exact ih (hc.warmKey call k)

end HoldsOnly
end LayerScanCache
end Rcsce
