import Rcsce.Cache.LayerScanCache

/-!
# What is said of the copies that a cache node holds

A payload can be at two levels, under a hash in the LRU and under the full key in Redis.
`Copies L R` says of every copy what a judgement on the hash, the data and the expiry
says: `L` of those in the LRU and `R` of those in Redis.

Each operation comes with what it asks of the judgements to keep them.  A `get` and a
warm-up load payloads that have not expired from Redis into the LRU, so they ask that `R`
gives `L` there.  A `put` and a `delete` change what is to be said of one hash, so they go
from one pair of judgements to another, and ask something of an old copy in Redis only
when the command that would replace or remove it was not made.
-/

namespace Rcsce

/-- What is said of a copy: of its hash, its data and its expiry. -/
abbrev Judgement := String → Json → Time → Prop

/-- Every copy is the payload of a `put`, with `L` in the LRU and with `R` in Redis. -/
structure Copies (L R : Judgement) (lru : LRUCache Json) (db : CacheRedis) : Prop where
  lru : ∀ k item, lru.cache.get? k = some item → ∃ d ct et, item = payload d ct et ∧ L k d et
  redis : ∀ fullKey raw, db.get? fullKey = some raw →
    ∃ k d ct et, fullKey = redisKey k ∧ raw = .dumps (payload d ct et) ∧ R k d et

namespace Copies

variable {L L' R R' : Judgement} {lru lru' : LRUCache Json} {db db' : CacheRedis}

theorem new (capacity : ℕ) : Copies L R (.new capacity) .empty :=
  ⟨(fun _ _ h => nomatch h), fun _ _ h => nomatch h⟩

theorem mono (hc : Copies L R lru db) (hL : ∀ k d et, L k d et → L' k d et)
    (hR : ∀ k d et, R k d et → R' k d et) : Copies L' R' lru db := by
  refine ⟨fun k item hitem => ?_, fun fullKey raw hraw => ?_⟩
  · obtain ⟨d, ct, et, rfl, hd⟩ := hc.lru k item hitem
    exact ⟨d, ct, et, rfl, hL k d et hd⟩
  · obtain ⟨k, d, ct, et, rfl, rfl, hd⟩ := hc.redis fullKey raw hraw
    exact ⟨k, d, ct, et, rfl, rfl, hR k d et hd⟩

/-- Copies may be lost. -/
theorem of_subset (hc : Copies L R lru db)
    (hlru : ∀ k item, lru'.cache.get? k = some item → lru.cache.get? k = some item)
    (hredis : ∀ k raw, db'.get? k = some raw → db.get? k = some raw) : Copies L R lru' db' :=
  ⟨fun k item hitem => hc.lru k item (hlru k item hitem),
    fun k raw hraw => hc.redis k raw (hredis k raw hraw)⟩

/-- What is said of the copy in the LRU. -/
theorem of_lru (hc : Copies L R lru db) {k : String} {d : Json} {ct et : Time}
    (h : lru.cache.get? k = some (payload d ct et)) : L k d et := by
  obtain ⟨d', ct', et', heq, hd⟩ := hc.lru k _ h
  obtain ⟨rfl, -, rfl⟩ := payload_inj heq
  exact hd

/-- What is said of the copy in Redis. -/
theorem of_redis (hc : Copies L R lru db) {k : String} {d : Json} {ct et : Time}
    (h : db.get? (redisKey k) = some (.dumps (payload d ct et))) : R k d et := by
  obtain ⟨k', d', ct', et', hkey, heq, hd⟩ := hc.redis _ _ h
  obtain ⟨rfl, -, rfl⟩ := payload_inj (JsonText.dumps.inj heq)
  exact redisKey_inj hkey ▸ hd

/-- What Redis holds under the key of a hash. -/
theorem redis_of_get? (hc : Copies L R lru db) {k : String} {raw : JsonText}
    (h : db.get? (redisKey k) = some raw) :
    ∃ d ct et, raw = .dumps (payload d ct et) ∧ R k d et := by
  obtain ⟨k', d, ct, et, hkey, rfl, hd⟩ := hc.redis _ _ h
  exact ⟨d, ct, et, rfl, redisKey_inj hkey ▸ hd⟩

theorem touch (hc : Copies L R lru db) (h : String) : Copies L R (lru.get h).2 db :=
  hc.of_subset (fun k item hitem => by rwa [LRUCache.get?_get_snd] at hitem) fun _ _ h => h

/-- A copy leaves the LRU. -/
theorem deleteLru (hc : Copies L R lru db) (h : String) :
    Copies (fun k d et => k ≠ h ∧ L k d et) R (lru.delete h) db := by
  refine ⟨fun k item hitem => ?_, hc.redis⟩
  rw [LRUCache.get?_delete] at hitem
  split_ifs at hitem with hk
  obtain ⟨d, ct, et, rfl, hd⟩ := hc.lru k item hitem
  exact ⟨d, ct, et, rfl, hk, hd⟩

/-- A copy leaves Redis. -/
theorem eraseRedis (hc : Copies L R lru db) (h : String) :
    Copies L (fun k d et => k ≠ h ∧ R k d et) lru (db.erase (redisKey h)) := by
  refine ⟨hc.lru, fun fullKey raw hraw => ?_⟩
  rw [OrderedDict.get?_erase] at hraw
  split_ifs at hraw with hk
  obtain ⟨k, d, ct, et, rfl, rfl, hd⟩ := hc.redis fullKey raw hraw
  exact ⟨k, d, ct, et, rfl, rfl, fun heq => hk (by rw [heq]), hd⟩

/-- Redis drops a key. -/
theorem drop (hc : Copies L R lru db) (fullKey : String) : Copies L R lru (db.erase fullKey) :=
  hc.of_subset (fun _ _ h => h) fun _ _ h => OrderedDict.get?_of_get?_erase h

/-- A payload enters the LRU. -/
theorem putLru (hc : Copies L R lru db) {h : String} {d : Json} {ct et : Time}
    (hother : ∀ k d et, k ≠ h → L k d et → L' k d et) (hnew : L' h d et) :
    Copies L' R (lru.put h (payload d ct et)).2 db := by
  refine ⟨fun k item hitem => ?_, hc.redis⟩
  rcases LRUCache.get?_of_get?_put hitem with ⟨rfl, rfl⟩ | ⟨hk, hitem'⟩
  · exact ⟨d, ct, et, rfl, hnew⟩
  · obtain ⟨d', ct', et', rfl, hd⟩ := hc.lru k item hitem'
    exact ⟨d', ct', et', rfl, hother k d' et' hk hd⟩

/-- A payload enters Redis. -/
theorem setex (hc : Copies L R lru db) {h : String} {d : Json} {ct et : Time}
    (hother : ∀ k d et, k ≠ h → R k d et → R' k d et) (hnew : R' h d et) :
    Copies L R' lru (db.set (redisKey h) (.dumps (payload d ct et))) := by
  refine ⟨hc.lru, fun fullKey raw hraw => ?_⟩
  rw [OrderedDict.get?_set] at hraw
  split_ifs at hraw with hk
  · exact ⟨h, d, ct, et, hk, (Option.some.inj hraw).symm, hnew⟩
  · obtain ⟨k, d', ct', et', rfl, rfl, hd⟩ := hc.redis fullKey raw hraw
    exact ⟨k, d', ct', et', rfl, rfl, hother k d' et' (fun heq => hk (by rw [heq])) hd⟩

/-- The judgement on Redis changes for one hash, of which Redis may hold an old copy. -/
theorem rejudgeRedis (hc : Copies L R lru db) {h : String}
    (hother : ∀ k d et, k ≠ h → R k d et → R' k d et)
    (hold : ∀ d ct et, db.get? (redisKey h) = some (.dumps (payload d ct et)) → R' h d et) :
    Copies L R' lru db := by
  refine ⟨hc.lru, fun fullKey raw hraw => ?_⟩
  obtain ⟨k, d, ct, et, rfl, rfl, hd⟩ := hc.redis fullKey raw hraw
  by_cases hk : k = h
  · subst hk
    exact ⟨k, d, ct, et, rfl, rfl, hold d ct et hraw⟩
  · exact ⟨k, d, ct, et, rfl, rfl, hother k d et hk hd⟩

end Copies

namespace LayerScanCache

variable {L L' R R' : Judgement} {c : LayerScanCache} {db : CacheRedis}

/-! ## The operations -/

theorem copies_deleteFromRedis {lru : LRUCache Json} (hc : Copies L R lru db) (raises : Bool)
    (h : String) : Copies L R lru (c.deleteFromRedis db raises h) := by
  rw [deleteFromRedis]
  split_ifs
  · exact hc.drop _
  · exact hc

/-- The fallback of a `get` answers with nothing, or with a copy that Redis holds and that
has not expired. -/
theorem copies_redisFallback (hc : Copies L R c.lru db) (call : GetCall) (h : String)
    (hload : ∀ d et, R h d et → call.redisNow ≤ et → L h d et) :
    Copies L R (c.redisFallback db call h).2.1.lru (c.redisFallback db call h).2.2 ∧
      ∃ d, (c.redisFallback db call h).1 = .ok d ∧ (d = .null ∨ ∃ et, L h d et) := by
  have hmiss : Copies L R c.miss.2.lru db ∧
      ∃ d, c.miss.1 = .ok d ∧ (d = .null ∨ ∃ et, L h d et) := ⟨hc, .null, rfl, Or.inl rfl⟩
  rw [redisFallback]
  split_ifs
  · cases hraw : db.get? (redisKey h) with
    | none => exact hmiss
    | some raw =>
      obtain ⟨d, ct, et, rfl, hd⟩ := hc.redis_of_get? hraw
      simp only [JsonText.truthy_dumps, if_true, JsonText.loads_dumps, storedFresh_payload,
        getItem_data_payload]
      by_cases hfresh : call.redisNow ≤ et
      · rw [decide_eq_true hfresh]
        have hnew := hload d et hd hfresh
        exact ⟨hc.putLru (fun _ _ _ _ h => h) hnew, d, rfl, Or.inr ⟨et, hnew⟩⟩
      · rw [decide_eq_false hfresh]
        exact ⟨copies_deleteFromRedis hmiss.1 _ _, hmiss.2⟩
  · exact hmiss

/-- A `get` answers with nothing or with a copy of which `L` holds. -/
theorem copies_get (hc : Copies L R c.lru db) (call : GetCall) (h : String)
    (hload : ∀ d et, R h d et → call.redisNow ≤ et → L h d et) :
    Copies L R (c.get db call h).2.1.lru (c.get db call h).2.2 ∧
      ∃ d, (c.get db call h).1 = .ok d ∧ (d = .null ∨ ∃ et, L h d et) := by
  have htouch := hc.touch h
  cases hitem : c.lru.cache.get? h with
  | none =>
    rw [get_of_absent hitem]
    exact copies_redisFallback htouch call h hload
  | some item =>
    obtain ⟨d, ct, et, rfl, hd⟩ := hc.lru h item hitem
    by_cases hfresh : call.now ≤ et
    · rw [get_of_fresh hitem db hfresh]
      exact ⟨htouch, d, rfl, Or.inr ⟨et, hd⟩⟩
    · rw [get_of_expired hitem db (not_le.mp hfresh)]
      have hdel := (htouch.deleteLru h).mono (fun _ _ _ hl => hl.2) fun _ _ _ hr => hr
      exact copies_redisFallback (copies_deleteFromRedis hdel _ _) call h hload

/-- The SETEX of a `put` is made. -/
def writesRedis (c : LayerScanCache) (call : PutCall) : Prop :=
  c.redis = true ∧ call.setexRaises = false ∧ 0 < c.ttlSeconds

theorem writesRedis_iff {call : PutCall} :
    (c.redis && !call.setexRaises && 0 < c.ttlSeconds) = true ↔ c.writesRedis call := by
  simp [writesRedis, and_assoc]

/-- A `put` that does not write to Redis leaves nothing new there. -/
theorem get?_of_get?_put {call : PutCall} {h : String} {v : Json} (hw : ¬ c.writesRedis call)
    {fullKey : String} {raw : JsonText} (hraw : (c.put db call h v).2.get? fullKey = some raw) :
    db.get? fullKey = some raw := by
  rw [put, if_neg fun hb => hw (writesRedis_iff.mp hb)] at hraw
  split at hraw
  · exact hraw
  · dsimp only at hraw
    split_ifs at hraw
    · rw [deleteFromRedis] at hraw
      split_ifs at hraw
      · exact OrderedDict.get?_of_get?_erase hraw
      · exact hraw
    · exact hraw

/-- The `put` evicts its own entry and removes it from Redis. -/
def EvictsItself (c : LayerScanCache) (call : PutCall) (h : String) (v : Json) : Prop :=
  (c.lru.put h (payload v call.createdAt (call.now + c.ttlSeconds))).1 = some h ∧ h ≠ "" ∧
    c.redis = true ∧ call.delRaises = false

/-- What a `put` that does not write to Redis leaves there of its own hash. -/
theorem get?_put_of_not_writes {call : PutCall} {h : String} {v : Json}
    (hw : ¬ c.writesRedis call) (hev : ¬ c.EvictsItself call h v) :
    (c.put db call h v).2.get? (redisKey h) = db.get? (redisKey h) := by
  rw [put, if_neg fun hb => hw (writesRedis_iff.mp hb)]
  split
  · rfl
  · rename_i evicted hput
    dsimp only
    split_ifs with hne
    · rw [deleteFromRedis]
      split_ifs with hdel
      · rw [Bool.and_eq_true, Bool.not_eq_true'] at hdel
        refine OrderedDict.get?_erase_of_ne _ fun heq => hev ?_
        obtain rfl := redisKey_inj heq
        exact ⟨hput, hne, hdel.1, hdel.2⟩
      · rfl
    · rfl

theorem get?_put_of_evictsItself {call : PutCall} {h : String} {v : Json}
    (hev : c.EvictsItself call h v) : (c.put db call h v).2.get? (redisKey h) = none := by
  obtain ⟨hput, hne, hredis, hraises⟩ := hev
  rw [put, hput]
  dsimp only
  rw [if_pos hne, deleteFromRedis, hredis, hraises]
  exact OrderedDict.get?_erase_self _ _

/-- After a `put`, what is said of the other hashes carries over, and what is to be said
of the new payload must hold of an old copy that Redis keeps. -/
theorem copies_put (hc : Copies L R c.lru db) (call : PutCall) {h : String} {v : Json}
    (hL : ∀ k d et, k ≠ h → L k d et → L' k d et) (hLnew : L' h v (call.now + c.ttlSeconds))
    (hR : ∀ k d et, k ≠ h → R k d et → R' k d et)
    (hRnew : c.writesRedis call → R' h v (call.now + c.ttlSeconds))
    (hRold : ¬ c.writesRedis call →
      ∀ d ct et, (c.put db call h v).2.get? (redisKey h) = some (.dumps (payload d ct et)) →
        R' h d et) :
    Copies L' R' (c.put db call h v).1.lru (c.put db call h v).2 := by
  have hlru : Copies L' R
      (c.lru.put h (payload v call.createdAt (call.now + c.ttlSeconds))).2 db :=
    hc.putLru hL hLnew
  by_cases hw : c.writesRedis call
  · have hset : Copies L' R' (c.lru.put h (payload v call.createdAt (call.now + c.ttlSeconds))).2
        (db.set (redisKey h) (.dumps (payload v call.createdAt (call.now + c.ttlSeconds)))) :=
      hlru.setex hR (hRnew hw)
    rw [put, if_pos (writesRedis_iff.mpr hw)]
    split
    · exact hset
    · dsimp only
      split
      · exact copies_deleteFromRedis hset _ _
      · exact hset
  · rw [put, if_neg fun hb => hw (writesRedis_iff.mp hb)] at hRold ⊢
    split at hRold
    · exact hlru.rejudgeRedis hR (hRold hw)
    · dsimp only at hRold ⊢
      split_ifs at hRold ⊢
      · exact (copies_deleteFromRedis hlru _ _).rejudgeRedis hR (hRold hw)
      · exact hlru.rejudgeRedis hR (hRold hw)

/-- The DEL of a `delete` is made. -/
def deletesRedis (c : LayerScanCache) (raises : Bool) : Prop := c.redis = true ∧ raises = false

/-- After a `delete`, the LRU has no copy, and Redis only if the DEL was not made. -/
theorem copies_delete (hc : Copies L R c.lru db) (raises : Bool) (h : String) :
    Copies (fun k d et => k ≠ h ∧ L k d et)
      (fun k d et => (c.deletesRedis raises → k ≠ h) ∧ R k d et)
      (c.delete db raises h).1.lru (c.delete db raises h).2 := by
  have hlru := hc.deleteLru h
  have hdel : (c.redis && !raises) = true ↔ c.deletesRedis raises := by simp [deletesRedis]
  rw [delete, deleteFromRedis]
  by_cases hd : c.deletesRedis raises
  · rw [if_pos (hdel.mpr hd)]
    exact (hlru.eraseRedis h).mono (fun _ _ _ hl => hl) fun _ _ _ hr => ⟨fun _ => hr.1, hr.2⟩
  · rw [if_neg fun hb => hd (hdel.mp hb)]
    exact hlru.mono (fun _ _ _ hl => hl) fun _ _ _ hr => ⟨fun h => absurd h hd, hr⟩

theorem copies_warmKey (hc : Copies L R c.lru db) (call : WarmCall) (fullKey : String)
    (hload : ∀ k d et, R k d et → call.now ≤ et → L k d et) :
    Copies L R (warmKey call (c, db) fullKey).1.lru (warmKey call (c, db) fullKey).2 := by
  rw [warmKey]
  split
  · exact hc
  · cases hraw : db.get? fullKey with
    | none => exact hc
    | some raw =>
      obtain ⟨k, d, ct, et, rfl, rfl, hd⟩ := hc.redis _ raw hraw
      simp only [JsonText.truthy_dumps, if_true, JsonText.loads_dumps, storedExpired_payload]
      by_cases hexp : et < call.now
      · rw [decide_eq_true hexp]
        dsimp only
        split
        · exact hc
        · exact hc.drop _
      · rw [decide_eq_false hexp]
        dsimp only
        rw [stripPrefix_redisKey]
        exact hc.putLru (fun _ _ _ _ h => h) (hload k d et hd (not_lt.mp hexp))

/-- A warm-up loads only copies that have not expired. -/
theorem copies_warmFromRedis (hc : Copies L R c.lru db) (call : WarmCall)
    (hload : ∀ k d et, R k d et → call.now ≤ et → L k d et) :
    Copies L R (c.warmFromRedis db call).1.lru (c.warmFromRedis db call).2 := by
  rw [warmFromRedis]
  split_ifs
  · exact hc
  · induction call.keys generalizing c db with
    | nil => exact hc
    | cons k keys ih => exact ih (copies_warmKey hc call k hload)

/-! ## What a warm-up finds again -/

@[simp] theorem warmKey_redis (call : WarmCall) (state : LayerScanCache × CacheRedis)
    (fullKey : String) : (warmKey call state fullKey).1.redis = state.1.redis := by
  rw [warmKey]
  repeat' split
  all_goals rfl

/-- The client is fixed at construction. -/
theorem warmFromRedis_redis (c : LayerScanCache) (db : CacheRedis) (call : WarmCall) :
    (c.warmFromRedis db call).1.redis = c.redis := by
  rw [warmFromRedis]
  split_ifs
  · rfl
  · induction call.keys generalizing c db with
    | nil => rfl
    | cons k keys ih =>
      rw [List.foldl_cons]
      exact (ih _ _).trans (warmKey_redis call (c, db) k)

/-- One round of the warm-up keeps a copy in Redis that has not expired, and puts no other
payload of its hash into the LRU. -/
theorem warmKey_keeps (hc : Copies L R c.lru db) {h : String} {d : Json} {ct et : Time}
    (hraw : db.get? (redisKey h) = some (.dumps (payload d ct et)))
    (hlru : c.lru.cache.get? h = none ∨ c.lru.cache.get? h = some (payload d ct et))
    (call : WarmCall) (hfresh : call.now ≤ et) (fullKey : String) :
    (warmKey call (c, db) fullKey).2.get? (redisKey h) = some (.dumps (payload d ct et)) ∧
      ((warmKey call (c, db) fullKey).1.lru.cache.get? h = none ∨
        (warmKey call (c, db) fullKey).1.lru.cache.get? h = some (payload d ct et)) := by
  rw [warmKey]
  split
  · exact ⟨hraw, hlru⟩
  cases hkey : db.get? fullKey with
  | none => exact ⟨hraw, hlru⟩
  | some raw =>
    obtain ⟨k, d', ct', et', rfl, rfl, -⟩ := hc.redis _ raw hkey
    simp only [JsonText.truthy_dumps, if_true, JsonText.loads_dumps, storedExpired_payload]
    -- a key of another hash changes nothing for `h`, and the key of `h` has this payload
    have hsame : k = h → payload d' ct' et' = payload d ct et := by
      rintro rfl
      rw [hkey] at hraw
      exact JsonText.dumps.inj (Option.some.inj hraw)
    by_cases hexp : et' < call.now
    · have hk : h ≠ k := by
        rintro rfl
        obtain ⟨-, -, rfl⟩ := payload_inj (hsame rfl)
        exact absurd hfresh (not_le.mpr hexp)
      rw [decide_eq_true hexp]
      dsimp only
      split
      · exact ⟨hraw, hlru⟩
      · refine ⟨?_, hlru⟩
        rw [OrderedDict.get?_erase_of_ne _ fun heq => hk (redisKey_inj heq)]
        exact hraw
    · rw [decide_eq_false hexp]
      dsimp only
      rw [stripPrefix_redisKey, LRUCache.get?_put]
      refine ⟨hraw, ?_⟩
      split_ifs with hev hk
      · exact Or.inl rfl
      · exact Or.inr (congrArg some (hsame hk.symm))
      · exact hlru

/-- The warm-up keeps a copy in Redis that has not expired, and the LRU ends up with that
copy or with none. -/
theorem warmFromRedis_keeps (hc : Copies L L c.lru db) {h : String} {d : Json} {ct et : Time}
    (hraw : db.get? (redisKey h) = some (.dumps (payload d ct et)))
    (hlru : c.lru.cache.get? h = none ∨ c.lru.cache.get? h = some (payload d ct et))
    (call : WarmCall) (hfresh : call.now ≤ et) :
    (c.warmFromRedis db call).2.get? (redisKey h) = some (.dumps (payload d ct et)) ∧
      ((c.warmFromRedis db call).1.lru.cache.get? h = none ∨
        (c.warmFromRedis db call).1.lru.cache.get? h = some (payload d ct et)) := by
  rw [warmFromRedis]
  split_ifs
  · exact ⟨hraw, hlru⟩
  · induction call.keys generalizing c db with
    | nil => exact ⟨hraw, hlru⟩
    | cons k keys ih =>
      obtain ⟨hraw', hlru'⟩ := warmKey_keeps hc hraw hlru call hfresh k
      exact ih (copies_warmKey hc call k fun _ _ _ hd _ => hd) hraw' hlru'

end LayerScanCache
end Rcsce
