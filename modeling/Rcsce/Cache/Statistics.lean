import Rcsce.Cache.ForeignWrites

/-!
# The statistics that a cache node publishes

A lookup is counted at two levels.  `LRUCache.get` counts a hit when it finds the key, and
`LayerScanCache.get` counts one when the item that it was given has not expired.  Both are
published as `lru_hits`, the first by GET `/stats` and the second by GET `/health`.

`CacheLabel` is what can happen to a node whose Redis holds only what cache nodes write.  The
floats that are published are functions of the counters, `ratio a b` for `round(a / b, 3)` and
`percent a b` for `round(a / b * 100, 1)`, and nothing is assumed of them.

* `LayerScanCache.get_cases`: what a `get` does to the counters of both levels.
* `statistics_agree_iff`: every `get` is counted once at the upper level, and exactly when the
  two levels agree.
-/

namespace Rcsce

/-- `stats()["redis_entries"]`. -/
inductive RedisEntries where
  | count (entries : ℕ)
  | unavailable
  deriving DecidableEq

/-- What `LayerScanCache.stats` returns. -/
structure CacheStats where
  entries : ℕ
  capacity : ℕ
  ttlSeconds : ℤ
  lruHits : ℕ
  redisHits : ℕ
  misses : ℕ
  hitRatio : ℚ
  backend : String
  /-- The key is there only with a Redis client. -/
  redisEntries : Option RedisEntries

/-- What GET `/health` answers. -/
structure HealthResponse where
  status : String
  nodeId : String
  cacheStats : CacheStats

/-- What GET `/stats` answers. -/
structure StatsResponse where
  nodeId : String
  entries : ℕ
  capacity : ℕ
  fillPct : ℚ
  ttlSeconds : ℤ
  lruHits : ℕ
  lruMisses : ℕ
  lruHitRatio : ℚ
  keys : List String

/-- What can happen to a cache node when only cache nodes write to its Redis. -/
inductive CacheLabel where
  /-- What happens to the node itself. -/
  | own (l : FlakyLabel)
  /-- The payload that another node stores in a `put`. -/
  | written (layerHash : String) (scanResult : List (String × Json)) (createdAt expiresAt : Time)

namespace CacheLabel

def toForeign : CacheLabel → ForeignLabel
  | .own l => .own l
  | .written layerHash scanResult createdAt expiresAt =>
      .foreign layerHash (.dumps (payload (.obj scanResult) createdAt expiresAt))

/-- The property of the `get`, if the label is one. -/
def OfGet (P : GetCall → String → Prop) (l : CacheLabel) : Prop := l.toForeign.OfGet P

end CacheLabel

section Published

variable (ratio percent : ℕ → ℕ → ℚ) (nodeId : String)

/-- The share of the hits, as `_hit_ratio` and `/stats` compute it. -/
def hitShare (hits total : ℕ) : ℚ := if 0 < total then ratio hits total else 0

namespace LayerScanCache

/-- `LayerScanCache._hit_ratio`. -/
def hitRatio (c : LayerScanCache) : ℚ :=
  hitShare ratio (c.lruHits + c.redisHits) (c.lruHits + c.redisHits + c.misses)

/-- `LayerScanCache.stats`; its KEYS may raise. -/
def stats (c : LayerScanCache) (db : CacheRedis) (keysRaises : Bool) : CacheStats where
  entries := c.lru.size
  capacity := c.lru.capacity
  ttlSeconds := c.ttlSeconds
  lruHits := c.lruHits
  redisHits := c.redisHits
  misses := c.misses
  hitRatio := c.hitRatio ratio
  backend := if c.redis then "redis+lru" else "lru-only"
  redisEntries :=
    if c.redis then some (if keysRaises then .unavailable else .count db.size) else none

end LayerScanCache

namespace FlakyNode

/-- `health`. -/
def health (s : FlakyNode) (keysRaises : Bool) : HealthResponse :=
  ⟨"ok", nodeId, s.cache.stats ratio s.redis keysRaises⟩

/-- `stats`.  It divides by the capacity, and raises when that is zero. -/
def stats (s : FlakyNode) (keysRaises : Bool) : Option StatsResponse :=
  let base := s.cache.stats ratio s.redis keysRaises
  if base.capacity = 0 then none
  else some {
    nodeId := nodeId
    entries := base.entries
    capacity := base.capacity
    fillPct := percent base.entries base.capacity
    ttlSeconds := base.ttlSeconds
    lruHits := s.cache.lru.hits
    lruMisses := s.cache.lru.misses
    lruHitRatio := hitShare ratio s.cache.lru.hits (s.cache.lru.hits + s.cache.lru.misses)
    keys := s.cache.lru.keys }

/-- GET `/stats`, when it answers, and GET `/health` give the same LRU hits. -/
def HitsAgree (s : FlakyNode) : Prop :=
  ∀ keysRaises keysRaises' response, s.stats ratio percent nodeId keysRaises = some response →
    response.lruHits = (s.health ratio nodeId keysRaises').cacheStats.lruHits

theorem hitsAgree_iff {s : FlakyNode} :
    s.HitsAgree ratio percent nodeId ↔
      s.cache.lru.capacity ≠ 0 → s.cache.lru.hits = s.cache.lruHits := by
  constructor
  · intro h hcap
    exact h false false _ (by rw [stats]; exact if_neg hcap)
  · intro h keysRaises keysRaises' response hresponse
    rw [stats] at hresponse
    split_ifs at hresponse with hcap
    cases hresponse
    exact h hcap

end FlakyNode

end Published

/-! ## What a `get` counts -/

namespace LayerScanCache

variable {L R : Judgement} {c : LayerScanCache} {db : CacheRedis} {call : GetCall} {h : String}

/-- The `get` is answered from memory. -/
def FromMemory (c : LayerScanCache) (call : GetCall) (h : String) : Prop :=
  ∃ d ct et, c.lru.cache.get? h = some (payload d ct et) ∧ call.now ≤ et

/-- The LRU item that the `get` finds, if any, has not expired. -/
def FindsFresh (c : LayerScanCache) (call : GetCall) (h : String) : Prop :=
  ∀ d ct et, c.lru.cache.get? h = some (payload d ct et) → call.now ≤ et

theorem findsFresh_of_absent (hitem : c.lru.cache.get? h = none) : c.FindsFresh call h := by
  intro d ct et hitem'
  cases hitem.symm.trans hitem'

theorem not_fromMemory_of_absent (hitem : c.lru.cache.get? h = none) : ¬ c.FromMemory call h := by
  rintro ⟨d, ct, et, hitem', -⟩
  cases hitem.symm.trans hitem'

theorem findsFresh_iff {d : Json} {ct et : Time}
    (hitem : c.lru.cache.get? h = some (payload d ct et)) :
    c.FindsFresh call h ↔ call.now ≤ et := by
  refine ⟨fun hall => hall d ct et hitem, fun hle d' ct' et' hitem' => ?_⟩
  obtain ⟨-, -, rfl⟩ := payload_inj (Option.some.inj (hitem.symm.trans hitem'))
  exact hle

theorem fromMemory_iff {d : Json} {ct et : Time}
    (hitem : c.lru.cache.get? h = some (payload d ct et)) :
    c.FromMemory call h ↔ call.now ≤ et := by
  constructor
  · rintro ⟨d', ct', et', hitem', hle⟩
    obtain ⟨-, -, rfl⟩ := payload_inj (Option.some.inj (hitem.symm.trans hitem'))
    exact hle
  · exact fun hle => ⟨d, ct, et, hitem, hle⟩

/-- A fallback is counted at neither place as an LRU hit. -/
theorem redisFallback_hits (c : LayerScanCache) (db : CacheRedis) (call : GetCall) (h : String) :
    (c.redisFallback db call h).2.1.lru.hits = c.lru.hits ∧
      (c.redisFallback db call h).2.1.lruHits = c.lruHits := by
  rw [redisFallback_eq]
  repeat' split
  all_goals exact ⟨by simp [miss], rfl⟩

/-- What a `get` does to the LRU hits of the two levels, on a node that holds payloads. -/
theorem get_cases (hc : Copies L R c.lru db) (call : GetCall) (h : String) :
    (c.lru.cache.get? h = none ∧ (c.get db call h).2.1.lru.hits = c.lru.hits ∧
        (c.get db call h).2.1.lruHits = c.lruHits) ∨
      (∃ d ct et, c.lru.cache.get? h = some (payload d ct et) ∧
        (c.get db call h).2.1.lru.hits = c.lru.hits + 1 ∧
        (c.get db call h).2.1.lruHits = c.lruHits + if call.now ≤ et then 1 else 0) := by
  cases hitem : c.lru.cache.get? h with
  | none =>
    obtain ⟨hhits, hlruHits⟩ :=
      redisFallback_hits { c with lru := (c.lru.get h).2 } db call h
    have hlru : (c.lru.get h).2.hits = c.lru.hits := by rw [LRUCache.get, hitem]
    rw [get_of_absent hitem]
    exact Or.inl ⟨rfl, hhits.trans hlru, hlruHits⟩
  | some item =>
    obtain ⟨d, ct, et, rfl, -⟩ := hc.lru h item hitem
    have hlru : (c.lru.get h).2.hits = c.lru.hits + 1 := by rw [LRUCache.get, hitem]
    refine Or.inr ⟨d, ct, et, rfl, ?_⟩
    by_cases hfresh : call.now ≤ et
    · rw [get_of_fresh hitem db hfresh, if_pos hfresh]
      exact ⟨hlru, rfl⟩
    · obtain ⟨hhits, hlruHits⟩ := redisFallback_hits
        { c with lru := (c.lru.get h).2.delete h } (c.deleteFromRedis db call.lruDelRaises h) call h
      rw [get_of_expired hitem db (not_le.mp hfresh), if_neg hfresh]
      exact ⟨hhits.trans hlru, hlruHits⟩

theorem put_hits (c : LayerScanCache) (db : CacheRedis) (call : PutCall) (h : String) (v : Json) :
    (c.put db call h v).1.lru.hits = c.lru.hits ∧ (c.put db call h v).1.lruHits = c.lruHits := by
  rw [put]
  split
  all_goals exact ⟨LRUCache.hits_put _ _ _, rfl⟩

theorem warmFromRedis_hits (c : LayerScanCache) (db : CacheRedis) (call : WarmCall) :
    (c.warmFromRedis db call).1.lru.hits = c.lru.hits ∧
      (c.warmFromRedis db call).1.lruHits = c.lruHits := by
  rw [warmFromRedis]
  split_ifs
  · exact ⟨rfl, rfl⟩
  · refine List.foldlRecOn (motive := fun (state : LayerScanCache × CacheRedis) =>
      state.1.lru.hits = c.lru.hits ∧ state.1.lruHits = c.lruHits) call.keys _ ⟨rfl, rfl⟩ ?_
    rintro ⟨c', db'⟩ hstate k -
    rw [warmKey]
    repeat' split
    all_goals simpa using hstate

/-! ## Payloads only -/

theorem fetched_of_copies (hc : Copies L R c.lru db) {p : Json}
    (h : c.fetched db call h = some p) : ∃ d ct et, p = payload d ct et := by
  rw [fetched] at h
  split_ifs at h
  obtain ⟨raw, hraw, hp⟩ := Option.bind_eq_some_iff.mp h
  obtain ⟨d, ct, et, rfl, -⟩ := hc.redis_of_get? hraw
  cases hp
  exact ⟨d, ct, et, rfl⟩

/-- On a node that holds payloads, every `get` meets what it needs. -/
theorem sound_of_copies (hc : Copies L R c.lru db) (call : GetCall) (h : String) :
    c.Sound db call h where
  expiry := by
    intro item hitem
    obtain ⟨d, ct, et, rfl, -⟩ := hc.lru h item hitem
    exact ⟨.num et, rfl⟩
  data := by
    intro p now hp _
    suffices hpayload : ∃ d ct et, p = payload d ct et by
      obtain ⟨d, ct, et, rfl⟩ := hpayload
      exact ⟨d, rfl⟩
    rw [met] at hp
    split at hp
    · obtain ⟨p', hp', heq⟩ := Option.map_eq_some_iff.mp hp
      cases heq
      exact fetched_of_copies hc hp'
    · rename_i item hitem
      split at hp
      · obtain ⟨p', hp', heq⟩ := Option.map_eq_some_iff.mp hp
        cases heq
        exact fetched_of_copies (copies_deleteFromRedis hc call.lruDelRaises h) hp'
      · cases hp
        obtain ⟨d, ct, et, rfl, -⟩ := hc.lru h p hitem
        exact ⟨d, ct, et, rfl⟩

/-- So every `get` is counted once. -/
theorem countsOne_of_copies (hc : Copies L R c.lru db) (call : GetCall) (h : String) :
    CountsOne c (c.get db call h).2.1 := by
  refine ((degrades_iff_sound ?_).mpr (sound_of_copies hc call h)).countsOne
  intro k item hitem
  obtain ⟨d, ct, et, rfl, -⟩ := hc.lru k item hitem
  exact Json.expiryComparable_payload d ct et

end LayerScanCache

namespace FlakyNode

/-- One step. -/
def stepCache (s : FlakyNode) (l : CacheLabel) : Option FlakyNode := s.stepForeign l.toForeign

/-- Nothing more is said of a copy. -/
def AnyCopy : Judgement := fun _ _ _ => True

/-- The LRU has this capacity and is within it. -/
def Fits (capacity : ℕ) (lru : LRUCache Json) : Prop :=
  lru.capacity = capacity ∧ lru.size ≤ capacity

theorem keeps_fits (capacity : ℕ) : LRUCache.Keeps (fun _ => True) (Fits capacity) where
  get := fun lru key h => ⟨by simpa using h.1, by simpa using h.2⟩
  put := by
    rintro lru key value - ⟨rfl, hsize⟩
    exact ⟨LRUCache.capacity_put _ _ _, LRUCache.size_put_le lru key value hsize⟩
  delete := fun lru key h => ⟨h.1, (LRUCache.size_delete_le lru key).trans h.2⟩
  new := fun lru h => ⟨h.1, Nat.zero_le _⟩

/-- What holds of a node of this capacity in every state. -/
structure Stocked (capacity : ℕ) (s : FlakyNode) : Prop where
  copies : Copies AnyCopy AnyCopy s.cache.lru s.redis
  fits : Fits capacity s.cache.lru

theorem stocked_start (capacity : ℕ) (ttlSeconds : ℤ) (redis : Bool) :
    Stocked capacity (start capacity ttlSeconds redis) := ⟨.new capacity, rfl, Nat.zero_le _⟩

theorem stocked_stepCache {capacity : ℕ} {s s' : FlakyNode} {l : CacheLabel}
    (hs : Stocked capacity s) (hstep : s.stepCache l = some s') : Stocked capacity s' := by
  refine ⟨?_, keeps_stepForeign (keeps_fits capacity) (fun _ _ _ => trivial)
    (fun _ _ _ _ _ => trivial) (fun _ _ _ _ _ => trivial) hs.fits hstep⟩
  cases l with
  | written h v createdAt expiresAt =>
    cases hstep
    exact hs.copies.setex (fun _ _ _ _ _ => trivial) trivial
  | own l =>
    refine step_copies hs.copies ?_ hstep
    cases l with
    | get => exact fun _ _ _ _ => trivial
    | restart => exact fun _ _ _ _ _ => trivial
    | put => exact ⟨trivial, trivial⟩
    | _ => trivial

/-- A step that is no `get` leaves the LRU hits of the two levels as equal as they were. -/
theorem hits_stepCache {s s' : FlakyNode} {l : CacheLabel}
    (hget : ∀ h call, l ≠ .own (.get h call)) (hs : s.cache.lru.hits = s.cache.lruHits)
    (hstep : s.stepCache l = some s') : s'.cache.lru.hits = s'.cache.lruHits := by
  cases l with
  | written h v createdAt expiresAt =>
    cases hstep
    exact hs
  | own l =>
    cases l with
    | get h call => exact absurd rfl (hget h call)
    | put h v call =>
      cases hstep
      obtain ⟨hhits, hlruHits⟩ := LayerScanCache.put_hits s.cache s.redis call h (.obj v)
      exact (hhits.trans hs).trans hlruHits.symm
    | deleteCache h | delete h raises | redisDrops k =>
      cases hstep
      exact hs
    | restart reaches call =>
      change s.step (.restart reaches call) = some s' at hstep
      rw [step] at hstep
      split_ifs at hstep
      · cases hstep
        obtain ⟨hhits, hlruHits⟩ :=
          LayerScanCache.warmFromRedis_hits (s.fresh true) s.redis call
        exact hhits.trans hlruHits.symm
      · cases hstep
        rfl

/-- A `get` leaves the two counters equal exactly when it finds no expired item. -/
theorem hits_get_iff {s : FlakyNode} (hs : Copies AnyCopy AnyCopy s.cache.lru s.redis)
    (heq : s.cache.lru.hits = s.cache.lruHits) (call : GetCall) (h : String) :
    (s.cache.get s.redis call h).2.1.lru.hits = (s.cache.get s.redis call h).2.1.lruHits ↔
      s.cache.FindsFresh call h := by
  rcases LayerScanCache.get_cases hs call h with
    ⟨hitem, hhits, hlruHits⟩ | ⟨d, ct, et, hitem, hhits, hlruHits⟩
  · exact iff_of_true (by rw [hhits, hlruHits, heq]) (LayerScanCache.findsFresh_of_absent hitem)
  · rw [LayerScanCache.findsFresh_iff hitem, hhits, hlruHits, heq]
    split_ifs with hle
    · exact iff_of_true rfl hle
    · exact iff_of_false (Nat.succ_ne_self _) hle

/-- A `get` is counted as a hit of the LRU exactly when it is answered from memory, exactly when
it finds no expired item. -/
theorem counts_memory_iff {s : FlakyNode} (hs : Copies AnyCopy AnyCopy s.cache.lru s.redis)
    (call : GetCall) (h : String) :
    ((s.cache.get s.redis call h).2.1.lru.hits = s.cache.lru.hits + 1 ↔
        s.cache.FromMemory call h) ↔ s.cache.FindsFresh call h := by
  rcases LayerScanCache.get_cases hs call h with
    ⟨hitem, hhits, -⟩ | ⟨d, ct, et, hitem, hhits, -⟩
  · refine iff_of_true (iff_of_false ?_ ?_) (LayerScanCache.findsFresh_of_absent hitem)
    · omega
    · exact LayerScanCache.not_fromMemory_of_absent hitem
  · rw [iff_true_left hhits, LayerScanCache.fromMemory_iff hitem,
      LayerScanCache.findsFresh_iff hitem]

section Published

variable (ratio percent : ℕ → ℕ → ℚ) (nodeId : String)

theorem hitsAgree_step_iff {capacity : ℕ} {s s' : FlakyNode} {l : CacheLabel}
    (hs : Stocked capacity s) (hagree : s.HitsAgree ratio percent nodeId)
    (hstep : s.stepCache l = some s') :
    s'.HitsAgree ratio percent nodeId ↔ l.OfGet s.cache.FindsFresh := by
  have hcap : s'.cache.lru.capacity = s.cache.lru.capacity :=
    (stocked_stepCache hs hstep).fits.1.trans hs.fits.1.symm
  rw [hitsAgree_iff] at hagree ⊢
  rw [hcap]
  by_cases hget : ∃ h call, l = .own (.get h call)
  · obtain ⟨h, call, rfl⟩ := hget
    cases hstep
    by_cases hzero : s.cache.lru.capacity = 0
    · -- nothing is ever found in the LRU
      refine iff_of_true (fun hne => absurd hzero hne) fun d ct et hitem => ?_
      have hpos : 0 < s.cache.lru.cache.keys.length :=
        List.length_pos_of_mem (OrderedDict.mem_of_get? hitem)
      have hsize := hs.fits.2.trans_eq (hs.fits.1.symm.trans hzero)
      rw [OrderedDict.length_keys] at hpos
      exact absurd hsize (Nat.not_le_of_lt hpos)
    · exact (imp_iff_right hzero).trans (hits_get_iff hs.copies (hagree hzero) call h)
  · have hget' : ∀ h call, l ≠ .own (.get h call) := fun h call heq => hget ⟨h, call, heq⟩
    refine iff_of_true (fun hne => hits_stepCache hget' (hagree hne) hstep) ?_
    rcases l with (_ | _ | _ | _ | _ | _) | _
    · exact absurd rfl (hget' _ _)
    all_goals trivial

/-- **When the statistics agree.**  In every run of a cache node, every `get` adds one to exactly
one of the three counters.  GET `/stats` and GET `/health` give the same LRU hits in every state
if and only if no `get` finds an expired item in the LRU; and the LRU counts exactly the `get`s
that are answered from memory if and only if the same holds. -/
theorem statistics_agree_iff (capacity : ℕ) (ttlSeconds : ℤ) (redis : Bool)
    (ls : List CacheLabel) :
    Machine.Meets stepCache (fun s l s' => l.OfGet fun _ _ =>
        LayerScanCache.CountsOne s.cache s'.cache) (start capacity ttlSeconds redis) ls ∧
      (Machine.Visits stepCache (HitsAgree ratio percent nodeId)
          (start capacity ttlSeconds redis) ls ↔
        Machine.Meets stepCache (fun s l _ => l.OfGet s.cache.FindsFresh)
          (start capacity ttlSeconds redis) ls) ∧
      (Machine.Meets stepCache (fun s l s' => l.OfGet fun call h =>
          (s'.cache.lru.hits = s.cache.lru.hits + 1 ↔ s.cache.FromMemory call h))
          (start capacity ttlSeconds redis) ls ↔
        Machine.Meets stepCache (fun s l _ => l.OfGet s.cache.FindsFresh)
          (start capacity ttlSeconds redis) ls) := by
  have hstart := stocked_start capacity ttlSeconds redis
  refine ⟨?_, ?_, ?_⟩
  · refine Machine.Meets.of_invariant (I := Stocked capacity) (C := fun _ _ _ => True)
      (fun s l s' hs _ hstep => stocked_stepCache hs hstep) (fun s l s' hs _ hstep => ?_) hstart
      fun _ _ _ _ _ _ _ => trivial
    rcases l with (_ | _ | _ | _ | _ | _) | _
    · cases hstep
      exact LayerScanCache.countsOne_of_copies hs.copies _ _
    all_goals trivial
  · exact Machine.visits_iff_meets (I := Stocked capacity)
      (fun s l s' hs hstep => stocked_stepCache hs hstep)
      (fun s l s' hs hagree hstep => hitsAgree_step_iff ratio percent nodeId hs hagree hstep)
      hstart ((hitsAgree_iff ratio percent nodeId).mpr fun _ => rfl) ls
  · refine Machine.meets_iff_meets (I := Stocked capacity)
      (fun s l s' hs _ hstep => stocked_stepCache hs hstep) (fun s l s' hs hstep => ?_) hstart ls
    rcases l with (_ | _ | _ | _ | _ | _) | _
    · cases hstep
      exact counts_memory_iff hs.copies _ _
    all_goals exact Iff.rfl

/-- An entry expires and is looked up: the LRU counts a hit, the node a miss. -/
theorem expired_counts_as_hit :
    (∃ s, Machine.exec stepCache (start 10 60 false)
        [.own (.put "653bc09e" [("status", .str "clean")] { createdAt := 0, now := 0 }),
          .own (.get "653bc09e" { now := 61, redisNow := 61 })] = some s ∧
      (s.cache.lru.capacity, s.cache.lru.hits, s.cache.lruHits, s.cache.misses) =
        (10, 1, 0, 1)) ∧
    ¬ ∀ (ratio percent : ℕ → ℕ → ℚ) nodeId capacity ttlSeconds redis ls,
      Machine.Visits stepCache (HitsAgree ratio percent nodeId)
        (start capacity ttlSeconds redis) ls := by
  have hexpired : ∃ s, Machine.exec stepCache (start 10 60 false)
      [.own (.put "653bc09e" [("status", .str "clean")] { createdAt := 0, now := 0 }),
        .own (.get "653bc09e" { now := 61, redisNow := 61 })] = some s ∧
      (s.cache.lru.capacity, s.cache.lru.hits, s.cache.lruHits, s.cache.misses) =
        (10, 1, 0, 1) := ⟨_, rfl, by with_unfolding_all rfl⟩
  refine ⟨hexpired, fun h => ?_⟩
  obtain ⟨s, hs, hcounts⟩ := hexpired
  simp only [Prod.mk.injEq] at hcounts
  obtain ⟨hcapacity, hhits, hlruHits, -⟩ := hcounts
  have hagree := h (fun _ _ => 0) (fun _ _ => 0) "cache-node-1" 10 60 false _ _
    (List.prefix_refl _) s hs
  have heq := (hitsAgree_iff _ _ _).mp hagree (by rw [hcapacity]; decide)
  rw [hhits, hlruHits] at heq
  cases heq

end Published

end FlakyNode
end Rcsce
