import Rcsce.Lib.Machine
import Rcsce.Cache.Copies

/-!
# The endpoints of a cache node, and what a deletion leaves behind

`cache/cache_node.py` over `LayerScanCache`.  A node is run with a Redis that may refuse
any single command, drop keys, and be out of reach when the process starts.

## The machine

`FlakyNode` is a node with its Redis.  Its labels are the requests, the calls of
`LayerScanCache.delete`, Redis dropping a key, and a restart: the new process reaches
Redis or not, and warms its LRU from it when it does.  Nothing is said about the clock;
each call carries its own readings.

## Deleting an entry

DELETE `/cache/{layer_hash}` removes the entry from the LRU and not from Redis, so the
copy in Redis is what counts: `deleted_stays_deleted_iff` says that no later `GET` finds
the entry if and only if Redis holds no copy that has not expired.
-/

namespace Rcsce

/-- What GET `/cache/{layer_hash}` answers. -/
inductive CacheGetResponse where
  | hit (scanResult : List (String × Json))
  | miss
  /-- The handler raises, or the response model refuses the value. -/
  | serverError

/-- The answer for what `cache.get` returns. -/
def cacheGetResponse : Except PyError Json → CacheGetResponse
  | .ok .null => .miss
  | .ok (.obj members) => .hit members
  | _ => .serverError

theorem cacheGetResponse_eq_hit {answer : Except PyError Json} {members : List (String × Json)}
    (h : cacheGetResponse answer = .hit members) : answer = .ok (.obj members) := by
  unfold cacheGetResponse at h
  split at h
  · cases h
  · rw [CacheGetResponse.hit.inj h]
  · cases h

/-- A cache node and its Redis. -/
structure FlakyNode where
  cache : LayerScanCache
  redis : CacheRedis

/-- What can happen to a cache node. -/
inductive FlakyLabel where
  /-- GET `/cache/{layer_hash}`. -/
  | get (layerHash : String) (call : GetCall)
  /-- POST `/cache`. -/
  | put (layerHash : String) (scanResult : List (String × Json)) (call : PutCall)
  /-- DELETE `/cache/{layer_hash}`. -/
  | deleteCache (layerHash : String)
  /-- `LayerScanCache.delete`; its DEL may raise. -/
  | delete (layerHash : String) (delRaises : Bool)
  | redisDrops (fullKey : String)
  /-- A new process, which reaches Redis or not. -/
  | restart (reaches : Bool) (call : WarmCall)

namespace FlakyLabel

/-- The label is no POST of the hash. -/
def NoPost (h : String) : FlakyLabel → Prop
  | .put k _ _ => k ≠ h
  | _ => True

/-- The clock readings of the label are not before `t`. -/
def From (t : Time) : FlakyLabel → Prop
  | .get _ call => t ≤ call.now ∧ t ≤ call.redisNow
  | .restart _ call => t ≤ call.now
  | _ => True

end FlakyLabel

namespace FlakyNode

open LayerScanCache

/-- `get_cache`: what it answers. -/
def getCache (s : FlakyNode) (call : GetCall) (layerHash : String) : CacheGetResponse :=
  cacheGetResponse (s.cache.get s.redis call layerHash).1

/-- `put_cache`. -/
def putCache (s : FlakyNode) (call : PutCall) (layerHash : String)
    (scanResult : List (String × Json)) : FlakyNode :=
  ⟨(s.cache.put s.redis call layerHash (.obj scanResult)).1,
    (s.cache.put s.redis call layerHash (.obj scanResult)).2⟩

/-- `delete_cache`. -/
def deleteCache (s : FlakyNode) (layerHash : String) : FlakyNode :=
  { s with cache := { s.cache with lru := s.cache.lru.delete layerHash } }

/-- The new process, before its warm-up. -/
def fresh (s : FlakyNode) (reaches : Bool) : LayerScanCache :=
  .new s.cache.lru.capacity s.cache.ttlSeconds reaches

/-- One step.  KEYS lists the keys of Redis, in some order. -/
def step (s : FlakyNode) : FlakyLabel → Option FlakyNode
  | .get layerHash call =>
      some ⟨(s.cache.get s.redis call layerHash).2.1, (s.cache.get s.redis call layerHash).2.2⟩
  | .put layerHash scanResult call => some (s.putCache call layerHash scanResult)
  | .deleteCache layerHash => some (s.deleteCache layerHash)
  | .delete layerHash delRaises =>
      some ⟨(s.cache.delete s.redis delRaises layerHash).1,
        (s.cache.delete s.redis delRaises layerHash).2⟩
  | .redisDrops fullKey => some { s with redis := s.redis.erase fullKey }
  | .restart reaches call =>
      if reaches then
        if call.keysRaises ∨ call.keys.Perm s.redis.keys then
          some ⟨((s.fresh true).warmFromRedis s.redis call).1,
            ((s.fresh true).warmFromRedis s.redis call).2⟩
        else none
      else some { s with cache := s.fresh false }

/-- A node that has just been started, with an empty Redis if it reaches one. -/
def start (capacity : ℕ) (ttlSeconds : ℤ) (redis : Bool) : FlakyNode :=
  ⟨.new capacity ttlSeconds redis, .empty⟩

/-! ## Judgements along a run -/

/-- What a label asks of two judgements so that its step keeps them. -/
def Keeps (L R : Judgement) (s : FlakyNode) : FlakyLabel → Prop
  | .get h call => ∀ d et, R h d et → call.redisNow ≤ et → L h d et
  | .put h v call => L h (.obj v) (call.now + s.cache.ttlSeconds) ∧
      R h (.obj v) (call.now + s.cache.ttlSeconds)
  | .restart _ call => ∀ k d et, R k d et → call.now ≤ et → L k d et
  | _ => True

/-- A step keeps the judgements that its label allows. -/
theorem step_copies {L R : Judgement} {s s' : FlakyNode} {l : FlakyLabel}
    (hc : Copies L R s.cache.lru s.redis) (hl : s.Keeps L R l) (h : s.step l = some s') :
    Copies L R s'.cache.lru s'.redis := by
  cases l with
  | get layerHash call =>
    cases h
    exact (copies_get hc call layerHash hl).1
  | put layerHash v call =>
    cases h
    refine copies_put hc call (fun _ _ _ _ h => h) hl.1 (fun _ _ _ _ h => h) (fun _ => hl.2) ?_
    intro hwrites d ct et hget
    exact hc.of_redis (get?_of_get?_put hwrites hget)
  | deleteCache layerHash =>
    cases h
    exact (hc.deleteLru layerHash).mono (fun _ _ _ hl => hl.2) fun _ _ _ hr => hr
  | delete layerHash delRaises =>
    cases h
    exact (copies_delete hc delRaises layerHash).mono (fun _ _ _ hl => hl.2) fun _ _ _ hr => hr.2
  | redisDrops fullKey =>
    cases h
    exact hc.drop fullKey
  | restart reaches call =>
    have hempty : Copies L R (s.fresh reaches).lru s.redis := ⟨(fun _ _ h => nomatch h), hc.redis⟩
    rw [step] at h
    split_ifs at h with hreaches hkeys
    · cases h
      subst hreaches
      exact copies_warmFromRedis hempty call hl
    · cases h
      rw [Bool.not_eq_true] at hreaches
      subst hreaches
      exact hempty

/-- The data of a copy are a dictionary, as `put_cache` takes them. -/
def IsDict : Judgement := fun _ d _ => ∃ members, d = .obj members

/-- Whatever happens, a node holds dictionaries. -/
theorem reachable_isDict {capacity : ℕ} {ttlSeconds : ℤ} {redis : Bool} {ls : List FlakyLabel}
    {s : FlakyNode} (h : Machine.exec step (start capacity ttlSeconds redis) ls = some s) :
    Copies IsDict IsDict s.cache.lru s.redis := by
  refine Machine.exec_invariant (I := fun s => Copies IsDict IsDict s.cache.lru s.redis)
    (fun s l s' hs hstep => step_copies hs ?_ hstep) (.new capacity) h
  cases l with
  | put h v call => exact ⟨⟨v, rfl⟩, ⟨v, rfl⟩⟩
  | get h call => exact fun _ _ hd _ => hd
  | restart reaches call => exact fun _ _ _ hd _ => hd
  | _ => trivial

/-! ## Deleting an entry -/

section Deleting

variable {s : FlakyNode} {h : String} {t : Time}

/-- What a node may hold when `h` has been deleted and every copy of it in Redis has
expired at `t`: no copy of `h` in the LRU, and only expired ones in Redis. -/
def GoneFrom (h : String) (t : Time) (s : FlakyNode) : Prop :=
  Copies (fun k d et => IsDict k d et ∧ k ≠ h) (fun k d et => IsDict k d et ∧ (k = h → et < t))
    s.cache.lru s.redis

/-- The entry stays away, as long as it is not posted again and the clock does not go back
before `t`. -/
theorem step_goneFrom {s' : FlakyNode} {l : FlakyLabel} (hs : GoneFrom h t s)
    (hpost : l.NoPost h) (hfrom : l.From t) (hstep : s.step l = some s') : GoneFrom h t s' := by
  refine step_copies hs ?_ hstep
  cases l with
  | put k v call => exact ⟨⟨⟨v, rfl⟩, hpost⟩, ⟨v, rfl⟩, fun hk => absurd hk hpost⟩
  | get k call =>
    rintro d et ⟨hdict, hexp⟩ hle
    exact ⟨hdict, fun hk => absurd (hfrom.2.trans hle) (not_le.mpr (hexp hk))⟩
  | restart reaches call =>
    rintro k d et ⟨hdict, hexp⟩ hle
    exact ⟨hdict, fun hk => absurd (le_trans hfrom hle) (not_le.mpr (hexp hk))⟩
  | _ => trivial

theorem exec_goneFrom {s' : FlakyNode} {ls : List FlakyLabel} (hs : GoneFrom h t s)
    (hls : ∀ l ∈ ls, l.NoPost h ∧ l.From t) (hexec : Machine.exec step s ls = some s') :
    GoneFrom h t s' := by
  induction ls generalizing s with
  | nil => exact Option.some.inj hexec ▸ hs
  | cons l ls ih =>
    obtain ⟨s₁, hstep, hrest⟩ := (Machine.exec_cons_eq_some step).mp hexec
    obtain ⟨hpost, hfrom⟩ := hls l List.mem_cons_self
    exact ih (step_goneFrom hs hpost hfrom hstep)
      (fun l' hl' => hls l' (List.mem_cons_of_mem _ hl')) hrest

/-- A `GET` of an entry that is gone is a miss. -/
theorem getCache_of_goneFrom (hs : GoneFrom h t s) {call : GetCall} (hcall : t ≤ call.redisNow) :
    s.getCache call h = .miss := by
  obtain ⟨-, d, hget, hd⟩ := copies_get hs call h fun d et hR hle =>
    ⟨hR.1, fun hk => absurd (hcall.trans hle) (not_le.mpr (hR.2 hk))⟩
  rw [getCache, hget]
  rcases hd with rfl | ⟨et, -, hne⟩
  · rfl
  · exact absurd rfl hne

/-- A `GET` finds the copy in Redis, unless the LRU has another one. -/
theorem getCache_of_redis {members : List (String × Json)} {ct et : Time}
    (hredis : s.cache.redis = true)
    (hraw : s.redis.get? (redisKey h) = some (.dumps (payload (.obj members) ct et)))
    (hlru : s.cache.lru.cache.get? h = none ∨
      s.cache.lru.cache.get? h = some (payload (.obj members) ct et)) (hfresh : t ≤ et) :
    s.getCache { now := t, redisNow := t } h = .hit members := by
  rw [getCache]
  rcases hlru with hitem | hitem
  · rw [get_of_absent hitem, redisFallback]
    simp only [hredis, hraw, Bool.not_false, Bool.and_self, if_true, JsonText.truthy_dumps,
      JsonText.loads_dumps, storedFresh_payload, decide_eq_true hfresh, getItem_data_payload]
    rfl
  · rw [get_of_fresh hitem]
    · rfl
    · exact hfresh

/-- A new process that reaches Redis finds a copy there again. -/
theorem getCache_of_restart {members : List (String × Json)} {ct et : Time}
    (hs : Copies IsDict IsDict s.cache.lru s.redis)
    (hraw : s.redis.get? (redisKey h) = some (.dumps (payload (.obj members) ct et)))
    (hfresh : t ≤ et) :
    ∃ s', s.step (.restart true { now := t, keys := s.redis.keys }) = some s' ∧
      s'.getCache { now := t, redisNow := t } h = .hit members := by
  have hguard : ({ now := t, keys := s.redis.keys } : WarmCall).keysRaises = true ∨
      s.redis.keys.Perm s.redis.keys := Or.inr (List.Perm.refl _)
  have hempty : Copies IsDict IsDict (s.fresh true).lru s.redis :=
    ⟨(fun _ _ h => nomatch h), hs.redis⟩
  obtain ⟨hraw', hlru'⟩ := warmFromRedis_keeps hempty hraw (Or.inl rfl)
    { now := t, keys := s.redis.keys } hfresh
  have hstep : s.step (.restart true { now := t, keys := s.redis.keys }) =
      some ⟨((s.fresh true).warmFromRedis s.redis { now := t, keys := s.redis.keys }).1,
        ((s.fresh true).warmFromRedis s.redis { now := t, keys := s.redis.keys }).2⟩ := by
    rw [step, if_pos rfl, if_pos hguard]
  refine ⟨_, hstep, getCache_of_redis ?_ hraw' hlru' hfresh⟩
  exact warmFromRedis_redis _ _ _

/-- **When a deleted entry stays deleted.**  After DELETE `/cache/{h}` in any reachable
state of a node, with or without Redis, no later run without a POST of `h` leads to a `GET`
of `h` that is not a miss, as far as no clock reading is before `t`, if and only if every
copy of `h` that Redis holds at the deletion has expired at `t`. -/
theorem deleted_stays_deleted_iff (capacity : ℕ) (ttlSeconds : ℤ) (redis : Bool)
    (before : List FlakyLabel) (s : FlakyNode)
    (hs : Machine.exec step (start capacity ttlSeconds redis) before = some s) (h : String)
    (t : Time) :
    (∀ ls s' call, (∀ l ∈ ls, l.NoPost h ∧ l.From t) →
        Machine.exec step (s.deleteCache h) ls = some s' → t ≤ call.now → t ≤ call.redisNow →
        s'.getCache call h = .miss) ↔
      ∀ d ct et, s.redis.get? (redisKey h) = some (.dumps (payload d ct et)) → et < t := by
  have hdict := reachable_isDict hs
  have hdeleted := hdict.deleteLru h
  constructor
  · intro hmiss d ct et hraw
    by_contra hfresh
    obtain ⟨members, rfl⟩ := hdict.of_redis hraw
    have hcopies : Copies IsDict IsDict (s.deleteCache h).cache.lru (s.deleteCache h).redis :=
      hdeleted.mono (fun _ _ _ hl => hl.2) fun _ _ _ hr => hr
    obtain ⟨s', hstep, hhit⟩ := getCache_of_restart hcopies hraw (not_lt.mp hfresh)
    have hnot := hmiss [.restart true { now := t, keys := (s.deleteCache h).redis.keys }] s'
      { now := t, redisNow := t } (by simp [FlakyLabel.NoPost, FlakyLabel.From])
      (by rw [Machine.exec_cons_of_step step hstep, Machine.exec_nil]) le_rfl le_rfl
    rw [hhit] at hnot
    cases hnot
  · intro hexp ls s' call hls hexec hnow hredisNow
    have hgone : GoneFrom h t (s.deleteCache h) := by
      refine (hdeleted.mono (fun _ _ _ hl => ⟨hl.2, hl.1⟩) fun _ _ _ hr => hr).rejudgeRedis
        (h := h) (fun k d et hk hr => ⟨hr, fun heq => absurd heq hk⟩) fun d ct et hraw => ?_
      exact ⟨hdict.of_redis hraw, fun _ => hexp d ct et hraw⟩
    exact getCache_of_goneFrom (exec_goneFrom hgone hls hexec) hredisNow

/-- The LRU alone forgets the entry: the next `GET` re-hydrates it from Redis. -/
theorem deleted_entry_served :
    ∃ s, Machine.exec step (start 10 3600 true)
        [.put "653bc09e" [("status", .str "clean")] { createdAt := 0, now := 0 },
          .deleteCache "653bc09e"] = some s ∧
      s.getCache { now := 1, redisNow := 1 } "653bc09e" = .hit [("status", .str "clean")] :=
  ⟨_, rfl, by with_unfolding_all rfl⟩

/-- An entry that Redis has dropped stays deleted, over a restart too. -/
theorem deleted_stays_deleted_dropped :
    ∃ s s', Machine.exec step (start 10 3600 true)
        [.put "653bc09e" [("status", .str "clean")] { createdAt := 0, now := 0 },
          .redisDrops "rcsce:cache:653bc09e"] = some s ∧
      Machine.exec step (s.deleteCache "653bc09e")
        [.get "653bc09e" { now := 1, redisNow := 1 }, .restart true { now := 2, keys := [] }] =
          some s' ∧
      s'.getCache { now := 3, redisNow := 3 } "653bc09e" = .miss := by
  have hs : Machine.exec step (start 10 3600 true)
      [.put "653bc09e" [("status", .str "clean")] { createdAt := 0, now := 0 },
        .redisDrops "rcsce:cache:653bc09e"] = some _ := rfl
  refine ⟨_, _, hs, rfl, ?_⟩
  refine (deleted_stays_deleted_iff 10 3600 true _ _ hs "653bc09e" 0).mpr ?_
    [.get "653bc09e" { now := 1, redisNow := 1 }, .restart true { now := 2, keys := [] }] _ _ ?_ rfl
    (by decide) (by decide)
  · intro d ct et hraw
    rw [OrderedDict.get?_erase] at hraw
    cases hraw
  · simp [FlakyLabel.NoPost, FlakyLabel.From]

end Deleting

end FlakyNode
end Rcsce
