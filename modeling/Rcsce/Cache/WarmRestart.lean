import Rcsce.Cache.RedisCoherence

/-!
# A restarted cache node is not cold

`NodeState` is a node, its Redis and the clock; a run is any sequence of requests
and of keys that Redis drops once their payload has expired, at times that never
go back.  `Kept` adds to coherence that Redis still has every entry which the
clock has not passed: SETEX stores the payload with the time to live that its
`expires_at` was computed from.

So when the process is replaced, Redis lists exactly the unexpired entries of the
old LRU, and possibly some expired ones, at most `capacity` in all.
`warm_fold_spec` follows the loop of `_warm_from_redis` over such a list:
nothing is evicted, in whatever order the keys come.
-/

namespace Rcsce

/-- The stored payload has expired, by its own `expires_at`. -/
def JsonText.expiredAt (raw : JsonText) (now : Time) : Bool :=
  match raw.loads >>= fun stored => stored.getD "expires_at" (.num 0) >>= Json.clockGt now with
  | .ok true => true
  | _ => false

theorem JsonText.expiredAt_payload (d : Json) (ct et now : Time) :
    (JsonText.dumps (payload d ct et)).expiredAt now = decide (et < now) := by
  rw [expiredAt, loads_dumps]
  show (match Except.ok (decide (et < now)) with
    | .ok true => true
    | (_ : Except PyError Bool) => false) = _
  cases decide (et < now) <;> rfl

/-- A node, its Redis and the clock. -/
structure NodeState where
  cache : LayerScanCache
  redis : CacheRedis
  clock : Time

/-- What can happen next, and the clock readings it makes. -/
inductive NodeLabel where
  | get (layerHash : String) (now redisNow : Time)
  | put (layerHash : String) (scanResult : Json) (createdAt now : Time)
  | delete (layerHash : String)
  | redisExpires (fullKey : String) (now : Time)

namespace NodeState

open LayerScanCache

/-- A node that has just been started on an empty Redis. -/
def init (capacity : ℕ) (ttlSeconds : ℤ) (clock : Time) : NodeState :=
  ⟨.new capacity ttlSeconds true, .empty, clock⟩

/-- One step.  The clock never goes back, no Redis command fails (SETEX refuses a
time to live that is not positive), and Redis drops a key only once the payload
stored under it has expired. -/
def step (s : NodeState) : NodeLabel → Option NodeState
  | .get h now redisNow =>
      if s.clock ≤ now ∧ now ≤ redisNow then
        let r := s.cache.get s.redis { now := now, redisNow := redisNow } h
        some ⟨r.2.1, r.2.2, redisNow⟩
      else none
  | .put h v createdAt now =>
      if h ≠ "" ∧ s.clock ≤ createdAt ∧ createdAt ≤ now ∧ 0 < s.cache.ttlSeconds then
        let r := s.cache.put s.redis { createdAt := createdAt, now := now } h v
        some ⟨r.1, r.2, now⟩
      else none
  | .delete h =>
      let r := s.cache.delete s.redis false h
      some ⟨r.1, r.2, s.clock⟩
  | .redisExpires fullKey now =>
      match s.redis.get? fullKey with
      | none => none
      | some raw =>
        if s.clock ≤ now ∧ raw.expiredAt now then some ⟨s.cache, s.redis.erase fullKey, now⟩
        else none

/-- An entry that the clock has not passed is in Redis. -/
def Kept (lru : LRUCache Json) (db : CacheRedis) (clock : Time) : Prop :=
  ∀ h d ct et, lru.cache.get? h = some (payload d ct et) → clock ≤ et →
    db.get? (redisKey h) = some (.dumps (payload d ct et))

/-- What holds in every state of a run of a node of the given capacity. -/
structure Inv (capacity : ℕ) (s : NodeState) : Prop where
  connected : s.cache.redis = true
  coherent : Coherent s.cache.lru s.redis
  kept : Kept s.cache.lru s.redis s.clock
  capacity_eq : s.cache.lru.capacity = capacity
  bounded : s.cache.lru.size ≤ capacity

theorem inv_init (capacity : ℕ) (ttlSeconds : ℤ) (clock : Time) :
    Inv capacity (init capacity ttlSeconds clock) where
  connected := rfl
  coherent := coherent_new capacity
  kept := by intro h d ct et hitem; cases hitem
  capacity_eq := rfl
  bounded := Nat.zero_le capacity

theorem Kept.later {lru : LRUCache Json} {db : CacheRedis} {clock clock' : Time}
    (hk : Kept lru db clock) (h : clock ≤ clock') : Kept lru db clock' :=
  fun k d ct et hitem hle => hk k d ct et hitem (h.trans hle)

theorem Kept.touch {lru : LRUCache Json} {db : CacheRedis} {clock : Time}
    (hk : Kept lru db clock) (h : String) : Kept (lru.get h).2 db clock := by
  intro k d ct et hitem
  rw [LRUCache.get?_get_snd] at hitem
  exact hk k d ct et hitem

theorem Kept.delete {lru : LRUCache Json} {db : CacheRedis} {clock : Time}
    (hk : Kept lru db clock) (h : String) :
    Kept (lru.delete h) (db.erase (redisKey h)) clock := by
  intro k d ct et hitem hle
  rw [LRUCache.get?_delete] at hitem
  split_ifs at hitem with hkh
  rw [OrderedDict.get?_erase_of_ne _ fun heq => hkh (redisKey_inj heq)]
  exact hk k d ct et hitem hle

theorem inv_get {capacity : ℕ} {s : NodeState} (hs : Inv capacity s) {now redisNow : Time}
    (hnow : s.clock ≤ now) (hredisNow : now ≤ redisNow) (h : String) :
    Inv capacity ⟨(s.cache.get s.redis { now := now, redisNow := redisNow } h).2.1,
      (s.cache.get s.redis { now := now, redisNow := redisNow } h).2.2, redisNow⟩ := by
  obtain ⟨hconn, hcoh, hkept, hcap, hbound⟩ := hs
  have hcoh' := coherent_get hcoh hconn now redisNow h
  have hclock : s.clock ≤ redisNow := hnow.trans hredisNow
  have hcap' : (s.cache.lru.get h).2.capacity = capacity := by
    rw [LRUCache.capacity_get_snd, hcap]
  have hsize : (s.cache.lru.get h).2.size ≤ capacity := by
    rwa [LRUCache.size_get_snd]
  rcases get_cases_of_coherent hcoh hconn now redisNow h with
    ⟨-, hget⟩ | ⟨d, ct, et, -, ⟨-, hget⟩ | ⟨-, hget⟩⟩ <;> rw [hget] at hcoh' ⊢
  · exact ⟨hconn, hcoh', (hkept.later hclock).touch h, hcap', hsize⟩
  · exact ⟨hconn, hcoh', (hkept.later hclock).touch h, hcap', hsize⟩
  · exact ⟨hconn, hcoh', ((hkept.later hclock).touch h).delete h, hcap',
      (LRUCache.size_delete_le _ h).trans hsize⟩

theorem inv_put {capacity : ℕ} {s : NodeState} (hs : Inv capacity s) {createdAt now : Time}
    (hcreated : s.clock ≤ createdAt) (hnow : createdAt ≤ now) (httl : 0 < s.cache.ttlSeconds)
    {h : String} (hh : h ≠ "") (v : Json) :
    Inv capacity ⟨(s.cache.put s.redis { createdAt := createdAt, now := now } h v).1,
      (s.cache.put s.redis { createdAt := createdAt, now := now } h v).2, now⟩ := by
  obtain ⟨hconn, hcoh, hkept, hcap, hbound⟩ := hs
  have hcoh' := coherent_put hcoh hconn httl createdAt now hh v
  have hdb := get?_put_redis s.redis hconn httl createdAt now h v fun e he =>
    evicted_ne_empty hcoh hh _ he
  refine ⟨?_, hcoh', ?_, ?_, ?_⟩
  · rw [put_fst]
    exact hconn
  · intro k d ct et hitem hle
    rw [put_fst] at hitem
    simp only [LRUCache.get?_put] at hitem
    rw [hdb]
    split_ifs at hitem with hev hkh
    · rw [if_neg, if_pos (by rw [hkh])]
      · rw [Option.some.inj hitem]
      · rw [Option.map_eq_some_iff]
        rintro ⟨e, he, heq⟩
        exact hev (by rw [he, redisKey_inj heq])
    · rw [if_neg, if_neg fun heq => hkh (redisKey_inj heq)]
      · exact hkept k d ct et hitem (hcreated.trans (hnow.trans hle))
      · rw [Option.map_eq_some_iff]
        rintro ⟨e, he, heq⟩
        exact hev (by rw [he, redisKey_inj heq])
  · rw [put_fst]
    exact (LRUCache.capacity_put _ _ _).trans hcap
  · rw [put_fst, ← hcap]
    exact LRUCache.size_put_le _ _ _ (hcap ▸ hbound)

theorem inv_redisExpires {capacity : ℕ} {s : NodeState} (hs : Inv capacity s)
    {fullKey : String} {raw : JsonText} (hraw : s.redis.get? fullKey = some raw) {now : Time}
    (hnow : s.clock ≤ now) (hexp : raw.expiredAt now = true) :
    Inv capacity ⟨s.cache, s.redis.erase fullKey, now⟩ := by
  obtain ⟨hconn, hcoh, hkept, hcap, hbound⟩ := hs
  refine ⟨hconn, hcoh.erase_redis fullKey, ?_, hcap, hbound⟩
  intro k d ct et hitem hle
  have hin := hkept k d ct et hitem (hnow.trans hle)
  by_cases hkey : redisKey k = fullKey
  · -- the payload that Redis drops is the one in the LRU, and it has not expired
    rw [← hkey, hin] at hraw
    rw [← Option.some.inj hraw, JsonText.expiredAt_payload, decide_eq_true_iff] at hexp
    exact absurd hle (not_le.mpr hexp)
  · rw [OrderedDict.get?_erase_of_ne _ hkey]
    exact hin

/-- **One step keeps the invariant.** -/
theorem inv_step {capacity : ℕ} (s : NodeState) (l : NodeLabel) (s' : NodeState)
    (hs : Inv capacity s) (hstep : s.step l = some s') : Inv capacity s' := by
  cases l with
  | get h now redisNow =>
    rw [step] at hstep
    split_ifs at hstep with hguard
    exact Option.some.inj hstep ▸ inv_get hs hguard.1 hguard.2 h
  | put h v createdAt now =>
    rw [step] at hstep
    split_ifs at hstep with hguard
    obtain ⟨hh, hcreated, hnow, httl⟩ := hguard
    exact Option.some.inj hstep ▸ inv_put hs hcreated hnow httl hh v
  | delete h =>
    rw [← Option.some.inj hstep]
    refine ⟨hs.connected, coherent_delete hs.coherent hs.connected h, ?_, hs.capacity_eq,
      (LRUCache.size_delete_le _ h).trans hs.bounded⟩
    rw [LayerScanCache.delete, deleteFromRedis_of_redis hs.connected]
    exact hs.kept.delete h
  | redisExpires fullKey now =>
    rw [step] at hstep
    split at hstep
    · cases hstep
    · rename_i raw hraw
      split_ifs at hstep with hguard
      exact Option.some.inj hstep ▸ inv_redisExpires hs hraw hguard.1 hguard.2

/-- Redis never holds more keys than the node may. -/
theorem Inv.redis_size_le {capacity : ℕ} {s : NodeState} (hs : Inv capacity s) :
    s.redis.keys.length ≤ capacity := by
  have hsub : s.redis.keys ⊆ s.cache.lru.cache.keys.map redisKey := by
    intro k hk
    obtain ⟨h, rfl⟩ := hs.coherent.ours k hk
    obtain ⟨raw, hraw⟩ := OrderedDict.mem_iff_get?.mp hk
    obtain ⟨p, hp, -⟩ := hs.coherent.covered h raw hraw
    exact List.mem_map_of_mem (OrderedDict.mem_of_get? hp)
  have hlen := (List.subperm_of_subset s.redis.nodup_keys hsub).length_le
  rw [List.length_map] at hlen
  exact hlen.trans ((OrderedDict.length_keys _).trans_le hs.bounded)

end NodeState

namespace LayerScanCache

/-! ## The warm-up loop -/

/-- One round of the loop on a stored payload that fits: an expired one is
removed from Redis, any other is put into the LRU and evicts nothing. -/
theorem warmKey_spec (c : LayerScanCache) {db : CacheRedis} {h : String} {d : Json}
    {ct et : Time} (now : Time) (keys : List String)
    (hraw : db.get? (redisKey h) = some (.dumps (payload d ct et)))
    (hroom : c.lru.size + 1 ≤ c.lru.capacity) :
    (et < now ∧ warmKey { now := now, keys := keys } (c, db) (redisKey h) =
        (c, db.erase (redisKey h))) ∨
      (now ≤ et ∧ ∃ lru, warmKey { now := now, keys := keys } (c, db) (redisKey h) =
          ({ c with lru := lru }, db) ∧
        (∀ k, lru.cache.get? k =
          if k = h then some (payload d ct et) else c.lru.cache.get? k) ∧
        lru.size ≤ c.lru.size + 1 ∧ lru.capacity = c.lru.capacity) := by
  have hsize := LRUCache.size_assigned_le c.lru h (payload d ct et)
  rcases LRUCache.put_cases c.lru h (payload d ct et) with ⟨-, hput⟩ | ⟨hlt, -⟩
  · by_cases hexp : et < now
    · refine Or.inl ⟨hexp, ?_⟩
      rw [warmKey]
      simp only [hraw, JsonText.truthy_dumps, JsonText.loads_dumps, storedExpired_payload,
        decide_eq_true hexp, if_true, Bool.false_eq_true, if_false]
    · refine Or.inr ⟨not_lt.mp hexp, (c.lru.put h (payload d ct et)).2, ?_, ?_, ?_, ?_⟩
      · rw [warmKey]
        simp only [hraw, JsonText.truthy_dumps, JsonText.loads_dumps, storedExpired_payload,
          decide_eq_false hexp, if_true, Bool.false_eq_true, if_false, stripPrefix_redisKey]
      · intro k
        rw [hput]
        exact LRUCache.get?_assigned c.lru h _ k
      · rw [hput]
        exact hsize
      · exact LRUCache.capacity_put _ _ _
  · omega

/-- What the loop of `_warm_from_redis` has done after the keys `todo`, from the
LRU `old` and the Redis `db`: the LRU has gained exactly the entries that had not
expired, and what Redis still holds under these keys is in the LRU. -/
structure Warmed (now : Time) (todo : List String) (old : LRUCache Json) (db : CacheRedis)
    (lru : LRUCache Json) (db' : CacheRedis) : Prop where
  items : ∀ h p, lru.cache.get? h = some p ↔ old.cache.get? h = some p ∨
    redisKey h ∈ todo ∧ db.get? (redisKey h) = some (.dumps p) ∧
      ∃ d ct et, p = payload d ct et ∧ now ≤ et
  size_le : lru.size ≤ old.size + todo.length
  redis : ∀ k raw, db'.get? k = some raw → db.get? k = some raw ∧
    (k ∈ todo → ∃ h p, k = redisKey h ∧ raw = .dumps p ∧ lru.cache.get? h = some p)

theorem warmed_nil (now : Time) (old : LRUCache Json) (db : CacheRedis) :
    Warmed now [] old db old db where
  items := by simp
  size_le := Nat.le_refl _
  redis := fun k raw hraw => ⟨hraw, fun hk => nomatch hk⟩

/-- A round that finds the payload expired: Redis loses the key. -/
theorem Warmed.cons_expired {now : Time} {todo : List String} {old lru : LRUCache Json}
    {db db' : CacheRedis} {h : String} {d : Json} {ct et : Time}
    (hraw : db.get? (redisKey h) = some (.dumps (payload d ct et))) (hexp : et < now)
    (hw : Warmed now todo old (db.erase (redisKey h)) lru db') :
    Warmed now (redisKey h :: todo) old db lru db' := by
  refine ⟨fun k p => ?_, ?_, fun k raw hk => ?_⟩
  · rw [hw.items]
    refine or_congr_right ?_
    by_cases hkh : redisKey k = redisKey h
    · rw [hkh, OrderedDict.get?_erase_self, hraw]
      constructor
      · rintro ⟨-, hnone, -⟩
        cases hnone
      · rintro ⟨-, hsome, d', ct', et', rfl, hle⟩
        have het := (payload_inj (JsonText.dumps.inj (Option.some.inj hsome))).2.2
        exact absurd hexp (not_lt.mpr (het ▸ hle))
    · rw [OrderedDict.get?_erase_of_ne _ hkh, List.mem_cons]
      simp only [hkh, false_or]
  · have hsize := hw.size_le
    rw [List.length_cons]
    omega
  · obtain ⟨hold, hin⟩ := hw.redis k raw hk
    refine ⟨OrderedDict.get?_of_get?_erase hold, fun hmem => ?_⟩
    rcases List.mem_cons.mp hmem with rfl | hmem
    · rw [OrderedDict.get?_erase_self] at hold
      cases hold
    · exact hin hmem

/-- A round that puts the payload into the LRU. -/
theorem Warmed.cons_fresh {now : Time} {todo : List String} {old lru₁ lru : LRUCache Json}
    {db db' : CacheRedis} {h : String} {d : Json} {ct et : Time}
    (hraw : db.get? (redisKey h) = some (.dumps (payload d ct et))) (hfresh : now ≤ et)
    (habs : old.cache.get? h = none) (hnot : redisKey h ∉ todo)
    (hget : ∀ k, lru₁.cache.get? k =
      if k = h then some (payload d ct et) else old.cache.get? k)
    (hsize : lru₁.size ≤ old.size + 1) (hw : Warmed now todo lru₁ db lru db') :
    Warmed now (redisKey h :: todo) old db lru db' := by
  have hnew : lru.cache.get? h = some (payload d ct et) :=
    (hw.items h _).mpr (Or.inl (by rw [hget, if_pos rfl]))
  refine ⟨fun k p => ?_, ?_, fun k raw hk => ?_⟩
  · rw [hw.items, hget]
    by_cases hkh : k = h
    · subst hkh
      rw [if_pos rfl, habs, hraw]
      constructor
      · rintro (hp | ⟨hmem, -⟩)
        · rw [← Option.some.inj hp]
          exact Or.inr ⟨List.mem_cons_self, rfl, d, ct, et, rfl, hfresh⟩
        · exact absurd hmem hnot
      · rintro (hnone | ⟨-, hsome, -⟩)
        · cases hnone
        · rw [JsonText.dumps.inj (Option.some.inj hsome)]
          exact Or.inl rfl
    · have hne : redisKey k ≠ redisKey h := fun heq => hkh (redisKey_inj heq)
      rw [if_neg hkh, List.mem_cons]
      simp only [hne, false_or]
  · have hsize' := hw.size_le
    rw [List.length_cons]
    omega
  · obtain ⟨hold, hin⟩ := hw.redis k raw hk
    refine ⟨hold, fun hmem => ?_⟩
    rcases List.mem_cons.mp hmem with rfl | hmem
    · rw [hraw] at hold
      exact ⟨h, _, rfl, (Option.some.inj hold).symm, hnew⟩
    · exact hin hmem

/-- **The warm-up loop**, over any list of distinct keys for which there is room. -/
theorem warm_fold_spec {now : Time} {keys : List String} :
    ∀ (todo : List String), todo.Nodup → ∀ (c : LayerScanCache) (db : CacheRedis),
      (∀ k ∈ todo, ∃ h d ct et, k = redisKey h ∧
        db.get? k = some (.dumps (payload d ct et))) →
      c.lru.size + todo.length ≤ c.lru.capacity →
      (∀ h, redisKey h ∈ todo → c.lru.cache.get? h = none) →
      ∃ lru db', todo.foldl (warmKey { now := now, keys := keys }) (c, db) =
          ({ c with lru := lru }, db') ∧ Warmed now todo c.lru db lru db'
  | [], _, c, db, _, _, _ => ⟨c.lru, db, rfl, warmed_nil now c.lru db⟩
  | k :: todo, hnodup, c, db, hkeys, hroom, habs => by
    rw [List.nodup_cons] at hnodup
    rw [List.length_cons] at hroom
    obtain ⟨h, d, ct, et, rfl, hraw⟩ := hkeys _ List.mem_cons_self
    have hne : ∀ k ∈ todo, k ≠ redisKey h := fun k hk heq => hnodup.1 (heq ▸ hk)
    rw [List.foldl_cons]
    rcases warmKey_spec c now keys hraw (by omega) with
      ⟨hexp, hstep⟩ | ⟨hfresh, lru₁, hstep, hget, hsize, hcap⟩
    · rw [hstep]
      obtain ⟨lru, db', hfold, hw⟩ := warm_fold_spec todo hnodup.2 c (db.erase (redisKey h))
        (fun k hk => by
          rw [OrderedDict.get?_erase_of_ne _ (hne k hk)]
          exact hkeys k (List.mem_cons_of_mem _ hk))
        (by omega) (fun k hk => habs k (List.mem_cons_of_mem _ hk))
      exact ⟨lru, db', hfold, hw.cons_expired hraw hexp⟩
    · rw [hstep]
      have hroom₁ : lru₁.size + todo.length ≤ lru₁.capacity := by
        rw [hcap]
        omega
      obtain ⟨lru, db', hfold, hw⟩ := warm_fold_spec todo hnodup.2 { c with lru := lru₁ } db
        (fun k hk => hkeys k (List.mem_cons_of_mem _ hk)) hroom₁
        (fun k hk => by
          rw [hget, if_neg fun heq => hne _ hk (by rw [heq])]
          exact habs k (List.mem_cons_of_mem _ hk))
      exact ⟨lru, db', hfold,
        hw.cons_fresh hraw hfresh (habs h List.mem_cons_self) hnodup.1 hget hsize⟩

end LayerScanCache

namespace NodeState

open LayerScanCache

/-! ## 2.  The restart -/

/-- The node that a restart leaves, on the Redis of a state of a run. -/
theorem start_spec {capacity : ℕ} {s : NodeState} (hs : Inv capacity s) (ttlSeconds : ℤ)
    (now : Time) {keys : List String} (hkeys : keys.Perm s.redis.keys) :
    ∃ lru db', LayerScanCache.start capacity ttlSeconds s.redis { now := now, keys := keys } =
        ({ LayerScanCache.new capacity ttlSeconds true with lru := lru }, db') ∧
      Warmed now keys (.new capacity) s.redis lru db' := by
  refine warm_fold_spec keys (hkeys.nodup_iff.mpr s.redis.nodup_keys) _ _ ?_ ?_ ?_
  · intro k hk
    have hmem : k ∈ s.redis := hkeys.subset hk
    obtain ⟨h, rfl⟩ := hs.coherent.ours k hmem
    obtain ⟨raw, hraw⟩ := OrderedDict.mem_iff_get?.mp hmem
    obtain ⟨p, hp, rfl⟩ := hs.coherent.covered h raw hraw
    obtain ⟨d, ct, et, rfl⟩ := hs.coherent.wellFormed h p hp
    exact ⟨h, d, ct, et, rfl, hraw⟩
  · show 0 + keys.length ≤ capacity
    rw [Nat.zero_add, hkeys.length_eq]
    exact hs.redis_size_le
  · intro h _
    rfl

/-- After a restart the LRU answers every later lookup as the old LRU does. -/
theorem memoryAnswer_of_warmed {capacity : ℕ} {s : NodeState} (hs : Inv capacity s)
    {now : Time} (hnow : s.clock ≤ now) {keys : List String} (hkeys : keys.Perm s.redis.keys)
    {lru : LRUCache Json} {db' : CacheRedis}
    (hw : Warmed now keys (.new capacity) s.redis lru db') {t : Time} (ht : now ≤ t)
    (h : String) : memoryAnswer lru t h = memoryAnswer s.cache.lru t h := by
  have hitems : ∀ p, lru.cache.get? h = some p ↔
      redisKey h ∈ keys ∧ s.redis.get? (redisKey h) = some (.dumps p) ∧
        ∃ d ct et, p = payload d ct et ∧ now ≤ et := by
    intro p
    rw [hw.items]
    exact or_iff_right (fun hnone => nomatch hnone)
  cases hold : s.cache.lru.cache.get? h with
  | none =>
    have hnew : lru.cache.get? h = none := by
      refine Option.eq_none_iff_forall_ne_some.mpr fun p hp => ?_
      obtain ⟨-, hraw, -⟩ := (hitems p).mp hp
      rw [hs.coherent.absent hold] at hraw
      cases hraw
    rw [memoryAnswer_of_absent hold, memoryAnswer_of_absent hnew]
  | some p =>
    obtain ⟨d, ct, et, rfl⟩ := hs.coherent.wellFormed h p hold
    rw [memoryAnswer_payload hold]
    by_cases hfresh : now ≤ et
    · -- not expired at the restart: Redis had it, so the new LRU has it
      have hraw := hs.kept h d ct et hold (hnow.trans hfresh)
      have hmem : redisKey h ∈ keys := hkeys.mem_iff.mpr (OrderedDict.mem_of_get? hraw)
      have hnew := (hitems _).mpr ⟨hmem, hraw, d, ct, et, rfl, hfresh⟩
      rw [memoryAnswer_payload hnew]
    · -- expired at the restart: it is not warmed, and the old node would find it expired
      have hnew : lru.cache.get? h = none := by
        refine Option.eq_none_iff_forall_ne_some.mpr fun p hp => ?_
        obtain ⟨-, hraw, d', ct', et', rfl, hle⟩ := (hitems p).mp hp
        obtain ⟨q, hq, heq⟩ := hs.coherent.covered h _ hraw
        rw [hold] at hq
        have hpay := (JsonText.dumps.inj heq).trans (Option.some.inj hq).symm
        exact hfresh ((payload_inj hpay).2.2 ▸ hle)
      rw [memoryAnswer_of_absent hnew, if_neg fun hle => hfresh (ht.trans hle)]

/-- **A restart is not a cold start.**  From every state of a run, a fresh node of
the same capacity on the same Redis, warmed at a later time in whatever order
KEYS lists, answers every later first `get` as the old node would have, whatever
Redis drops meanwhile; it is within its capacity and holds nothing that had
already expired. -/
theorem restart_preserves_answers (capacity : ℕ) (ttlSeconds : ℤ) (clock : Time)
    (ls : List NodeLabel) (s : NodeState)
    (hrun : Machine.exec step (init capacity ttlSeconds clock) ls = some s)
    (now : Time) (hnow : s.clock ≤ now) (keys : List String)
    (hkeys : keys.Perm s.redis.keys) :
    let s' := LayerScanCache.start capacity ttlSeconds s.redis { now := now, keys := keys }
    (∀ (h : String) (t t' : Time), now ≤ t → ∀ db db' : CacheRedis,
        (∀ k raw, db.get? k = some raw → s.redis.get? k = some raw) →
        (∀ k raw, db'.get? k = some raw → s'.2.get? k = some raw) →
        (s'.1.get db' { now := t, redisNow := t' } h).1 =
          (s.cache.get db { now := t, redisNow := t' } h).1) ∧
      s'.1.lru.size ≤ capacity ∧
      ∀ h p, s'.1.lru.cache.get? h = some p →
        ∃ d ct et, p = payload d ct et ∧ now ≤ et := by
  have hs : Inv capacity s :=
    Machine.exec_invariant inv_step (inv_init capacity ttlSeconds clock) hrun
  obtain ⟨lru, db₁, hstart, hw⟩ := start_spec hs ttlSeconds now hkeys
  simp only [hstart]
  refine ⟨fun h t t' ht db db' hdb hdb' => ?_, ?_, fun h p hp => ?_⟩
  · have hcold : lru.cache.get? h = none → db'.get? (redisKey h) = none := by
      intro hnone
      refine Option.eq_none_iff_forall_ne_some.mpr fun raw hraw => ?_
      obtain ⟨hold, hin⟩ := hw.redis _ raw (hdb' _ raw hraw)
      obtain ⟨h', p, heq, -, hp⟩ := hin (hkeys.mem_iff.mpr (OrderedDict.mem_of_get? hold))
      rw [← redisKey_inj heq, hnone] at hp
      cases hp
    have hnew := get_eq_memory { LayerScanCache.new capacity ttlSeconds true with lru := lru }
      db' t t' h fun _ => hcold
    have hold := get_eq_memory s.cache db t t' h fun _ => (hs.coherent.of_subset hdb).absent
    rw [hnew.1, hold.1]
    exact memoryAnswer_of_warmed hs hnow hkeys hw ht h
  · have hsize := hw.size_le
    have hlen := hs.redis_size_le
    rw [hkeys.length_eq] at hsize
    exact hsize.trans ((Nat.zero_add _).trans_le hlen)
  · rcases (hw.items h p).mp hp with hnone | ⟨-, -, hfresh⟩
    · cases hnone
    · exact hfresh

/-- Two results are stored, half a minute apart. -/
def twoResults : List NodeLabel := [.put "a" (.str "r") 1 1, .put "b" (.str "q") 31 31]

/-- The node is restarted when the first has expired, and KEYS lists the second before it. -/
theorem restart_preserves_answers_one_expired :
    ∃ s, Machine.exec step (init 2 60 0) twoResults = some s ∧
      let s' := LayerScanCache.start 2 60 s.redis
        { now := 62, keys := [redisKey "b", redisKey "a"] }
      (∀ h ∈ ["a", "b"], (s'.1.get s'.2 { now := 63, redisNow := 63 } h).1 =
        (s.cache.get s.redis { now := 63, redisNow := 63 } h).1) ∧
      s'.1.lru.cache.keys = ["b"] := by
  obtain ⟨s, hrun, hclock, hkeys, hwarm⟩ :
      ∃ s, Machine.exec step (init 2 60 0) twoResults = some s ∧ s.clock ≤ 62 ∧
        s.redis.keys = [redisKey "a", redisKey "b"] ∧
        (LayerScanCache.start 2 60 s.redis
          { now := 62, keys := [redisKey "b", redisKey "a"] }).1.lru.cache.keys = ["b"] :=
    ⟨_, by with_unfolding_all rfl, by decide, by with_unfolding_all rfl,
      by with_unfolding_all rfl⟩
  have hperm : [redisKey "b", redisKey "a"].Perm s.redis.keys := hkeys ▸ List.Perm.swap _ _ []
  exact ⟨s, hrun, fun h _ => (restart_preserves_answers 2 60 0 twoResults s hrun 62 hclock _
    hperm).1 h 63 63 (by decide) _ _ (fun _ _ h => h) (fun _ _ h => h), hwarm⟩

end NodeState
end Rcsce
