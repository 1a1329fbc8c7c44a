import Rcsce.Cache.CacheNode

/-!
# A cache node whose Redis is written to by others

Any program can store any text under a key `rcsce:cache:*`.  `ForeignLabel` adds such a write
to what can happen to a cache node, and the texts reach the LRU in two ways, through the
fallback of a `get` and through the warm-up of a new process.  Both check `expires_at` before
they insert a payload, and neither checks `data`.

* `LayerScanCache.met`: the payload that a `get` meets, the LRU item or what Redis has.
* `LayerScanCache.redisFallback_eq`: the fallback by the payload that it fetches.
* `LayerScanCache.degrades_iff_sound`: what a `get` needs so as not to raise, to answer nothing
  when there is no data, and to be counted once.
* `malformed_degrades_iff`: the same for all the `get`s of a run.
* `held_expires`: after the epoch, only the data can be missing.
-/

namespace Rcsce

namespace Json

/-- `value` can be compared with the clock. -/
def Comparable (value : Json) : Prop := ∀ now, ∃ b, value.clockLe now = .ok b

theorem comparable_num (q : ℚ) : (num q).Comparable := fun _ => ⟨_, rfl⟩

theorem comparable_of_clockLe {value : Json} {now : Time} {b : Bool}
    (h : value.clockLe now = .ok b) : value.Comparable := by
  intro t
  rcases value with _ | _ | _ | ⟨_ | _ | _⟩ | _ | _ | _
  all_goals first | exact ⟨_, rfl⟩ | cases h

theorem comparable_of_clockGt {value : Json} {now : Time} {b : Bool}
    (h : value.clockGt now = .ok b) : value.Comparable := by
  intro t
  rcases value with _ | _ | _ | ⟨_ | _ | _⟩ | _ | _ | _
  all_goals first | exact ⟨_, rfl⟩ | cases h

/-- A member that is there needs no default. -/
theorem getD_of_getItem {value v : Json} {key : String} (h : value.getItem key = .ok v)
    (default : Json) : value.getD key default = .ok v := by
  cases value with
  | obj members =>
    rw [getItem] at h
    rw [getD]
    cases hlookup : members.lookup key with
    | none => rw [hlookup] at h; cases h
    | some v' => rw [hlookup] at h; cases h; rfl
  | _ => cases h

/-- The payload has data. -/
def HasData (p : Json) : Prop := ∃ d, p.getItem "data" = .ok d

/-- The payload has not expired. -/
def Unexpired (p : Json) (now : Time) : Prop :=
  (p.getD "expires_at" (.num 0) >>= clockLe now) = .ok true

/-- The member `expires_at`, when there is one, can be compared with the clock. -/
def ExpiryComparable (p : Json) : Prop := ∀ e, p.getItem "expires_at" = .ok e → e.Comparable

theorem expiryComparable_payload (d : Json) (c e : Time) : (payload d c e).ExpiryComparable := by
  rintro e' he
  cases he
  exact comparable_num e

/-- The payload has the member `expires_at`. -/
def Expires (p : Json) : Prop := ∃ e, p.getItem "expires_at" = .ok e

theorem expires_payload (d : Json) (c e : Time) : (payload d c e).Expires := ⟨.num e, rfl⟩

/-- A check that the default does not pass is not passed without the member. -/
theorem expires_of_check {p : Json} {check : Json → Except PyError Bool} {b : Bool}
    (hdefault : check (.num 0) ≠ .ok b)
    (h : (p.getD "expires_at" (.num 0) >>= check) = .ok b) : p.Expires := by
  cases p with
  | obj members =>
    cases hlookup : members.lookup "expires_at" with
    | some e => exact ⟨e, by rw [getItem, hlookup]⟩
    | none =>
      rw [getD, hlookup] at h
      exact absurd h hdefault
  | _ => cases h

theorem expiryComparable_of_check {p : Json} {check : Json → Except PyError Bool} {b : Bool}
    (hcheck : ∀ e b, check e = .ok b → e.Comparable)
    (h : (p.getD "expires_at" (.num 0) >>= check) = .ok b) : p.ExpiryComparable := by
  intro e he
  rw [getD_of_getItem he] at h
  exact hcheck e b h

end Json

namespace LRUCache

/-- The operations of the LRU keep `I`, as long as every value that is put has `P`. -/
structure Keeps (P : Json → Prop) (I : LRUCache Json → Prop) : Prop where
  get : ∀ lru key, I lru → I (lru.get key).2
  put : ∀ lru key value, P value → I lru → I (lru.put key value).2
  delete : ∀ lru key, I lru → I (lru.delete key)
  /-- The LRU of a new process has the capacity of the old one. -/
  new : ∀ lru, I lru → I (.new lru.capacity)

/-- Every item of the LRU has the property. -/
def Held (P : Json → Prop) (lru : LRUCache Json) : Prop :=
  ∀ k item, lru.cache.get? k = some item → P item

theorem keeps_held (P : Json → Prop) : Keeps P (Held P) where
  get := by
    intro lru key h k item hitem
    rw [get?_get_snd] at hitem
    exact h k item hitem
  put := by
    intro lru key value hvalue h k item hitem
    rcases get?_of_get?_put hitem with ⟨-, rfl⟩ | ⟨-, hitem'⟩
    · exact hvalue
    · exact h k item hitem'
  delete := by
    intro lru key h k item hitem
    rw [get?_delete] at hitem
    split_ifs at hitem
    exact h k item hitem
  new := fun _ _ _ _ hitem => nomatch hitem

end LRUCache

namespace LayerScanCache

variable {c : LayerScanCache} {db : CacheRedis} {call : GetCall} {h : String}

/-- The payload that the fallback of a `get` fetches from Redis. -/
def fetched (c : LayerScanCache) (db : CacheRedis) (call : GetCall) (layerHash : String) :
    Option Json :=
  if c.redis && !call.getRaises then
    (db.get? (redisKey layerHash)).bind fun raw => raw.loads.toOption
  else none

/-- The payload that a `get` meets, with the clock reading that it is compared with. -/
def met (c : LayerScanCache) (db : CacheRedis) (call : GetCall) (layerHash : String) :
    Option (Json × Time) :=
  match c.lru.cache.get? layerHash with
  | none => (c.fetched db call layerHash).map fun p => (p, call.redisNow)
  | some item =>
    match item.getItem "expires_at" >>= Json.clockLe call.now with
    | .ok false =>
      (c.fetched (c.deleteFromRedis db call.lruDelRaises layerHash) call layerHash).map fun p =>
        (p, call.redisNow)
    | _ => some (item, call.now)

/-- Exactly one of the three counters is one higher. -/
def CountsOne (c c' : LayerScanCache) : Prop :=
  (c'.lruHits = c.lruHits + 1 ∧ c'.redisHits = c.redisHits ∧ c'.misses = c.misses) ∨
    (c'.lruHits = c.lruHits ∧ c'.redisHits = c.redisHits + 1 ∧ c'.misses = c.misses) ∨
    (c'.lruHits = c.lruHits ∧ c'.redisHits = c.redisHits ∧ c'.misses = c.misses + 1)

/-! ## The fallback -/

/-- The fallback by the payload that it fetches. -/
theorem redisFallback_eq (c : LayerScanCache) (db : CacheRedis) (call : GetCall) (h : String) :
    c.redisFallback db call h =
      match c.fetched db call h with
      | none => (c.miss.1, c.miss.2, db)
      | some p =>
        match p.getD "expires_at" (.num 0) >>= Json.clockLe call.redisNow with
        | .error _ => (c.miss.1, c.miss.2, db)
        | .ok true =>
          let c := { c with lru := (c.lru.put h p).2, redisHits := c.redisHits + 1 }
          match p.getItem "data" with
          | .ok data => (.ok data, c, db)
          | .error _ => (c.miss.1, c.miss.2, db)
        | .ok false => (c.miss.1, c.miss.2, c.deleteFromRedis db call.redisDelRaises h) := by
  rw [redisFallback, fetched]
  split_ifs with hask
  · cases db.get? (redisKey h) with
    | none => rfl
    | some raw =>
      cases raw with
      | dumps p => rfl
      | malformed text =>
        simp only [JsonText.loads, Option.bind_some, Except.toOption]
        split_ifs <;> rfl
  · rfl

/-- What a fallback answers and counts. -/
structure FallsBack (c : LayerScanCache) (db : CacheRedis) (call : GetCall) (h : String) :
    Prop where
  answers : ∃ v, (c.redisFallback db call h).1 = .ok v
  nothing : (∀ p, c.fetched db call h = some p → ¬ p.HasData) →
    (c.redisFallback db call h).1 = .ok .null
  countsOne_iff : CountsOne c (c.redisFallback db call h).2.1 ↔
    ∀ p, c.fetched db call h = some p → p.Unexpired call.redisNow → p.HasData

/-- A miss, when there is no fresh payload. -/
theorem FallsBack.of_miss (hanswer : (c.redisFallback db call h).1 = .ok .null)
    (hmiss : (c.redisFallback db call h).2.1 = c.miss.2)
    (hstale : ∀ p, c.fetched db call h = some p → ¬ p.Unexpired call.redisNow) :
    FallsBack c db call h where
  answers := ⟨.null, hanswer⟩
  nothing := fun _ => hanswer
  countsOne_iff := by
    rw [hmiss]
    exact iff_of_true (Or.inr (Or.inr ⟨rfl, rfl, rfl⟩)) fun p hp hfresh =>
      absurd hfresh (hstale p hp)

/-- **A fallback never raises**, and counts once unless it meets a fresh payload without data. -/
theorem fallsBack (c : LayerScanCache) (db : CacheRedis) (call : GetCall) (h : String) :
    FallsBack c db call h := by
  have heq := redisFallback_eq c db call h
  cases hp : c.fetched db call h with
  | none =>
    simp only [hp] at heq
    refine .of_miss (by rw [heq]; rfl) (by rw [heq]) fun p hp' => ?_
    cases hp.symm.trans hp'
  | some p =>
    cases hcheck : p.getD "expires_at" (.num 0) >>= Json.clockLe call.redisNow with
    | error e =>
      simp only [hp, hcheck] at heq
      refine .of_miss (by rw [heq]; rfl) (by rw [heq]) fun p' hp' hfresh => ?_
      cases hp.symm.trans hp'
      cases hcheck.symm.trans hfresh
    | ok fresh =>
      cases fresh with
      | false =>
        simp only [hp, hcheck] at heq
        refine .of_miss (by rw [heq]; rfl) (by rw [heq]) fun p' hp' hfresh => ?_
        cases hp.symm.trans hp'
        cases hcheck.symm.trans hfresh
      | true =>
        cases hdata : p.getItem "data" with
        | ok d =>
          simp only [hp, hcheck, hdata] at heq
          refine ⟨⟨d, by rw [heq]⟩, fun hno => absurd ⟨d, hdata⟩ (hno p hp), ?_⟩
          rw [heq, hp]
          refine iff_of_true (Or.inr (Or.inl ⟨rfl, rfl, rfl⟩)) fun p' hp' _ => ?_
          cases hp'
          exact ⟨d, hdata⟩
        | error e =>
          -- the hit is counted before the data are read, and then the miss
          simp only [hp, hcheck, hdata] at heq
          refine ⟨⟨.null, by rw [heq]; rfl⟩, fun _ => by rw [heq]; rfl, ?_⟩
          rw [heq, hp]
          refine iff_of_false ?_ fun hall => ?_
          · simp only [CountsOne, miss]
            omega
          · obtain ⟨d, hd⟩ := hall p rfl hcheck
            cases hdata.symm.trans hd

/-! ## The `get` -/

/-- What the `get` answers and counts, whatever it meets. -/
structure Degrades (c : LayerScanCache) (db : CacheRedis) (call : GetCall) (h : String) :
    Prop where
  answers : ∃ v, (c.get db call h).1 = .ok v
  nothing : (∀ p now, c.met db call h = some (p, now) → ¬ p.HasData) →
    (c.get db call h).1 = .ok .null
  countsOne : CountsOne c (c.get db call h).2.1

/-- The LRU item has an expiry, and the payload that the `get` meets has data, if it has not
expired. -/
structure Sound (c : LayerScanCache) (db : CacheRedis) (call : GetCall) (h : String) : Prop where
  expiry : ∀ item, c.lru.cache.get? h = some item → item.Expires
  data : ∀ p now, c.met db call h = some (p, now) → p.Unexpired now → p.HasData

/-- A `get` that goes on to the fallback. -/
theorem degrades_iff_of_fallback (c' : LayerScanCache) (db' : CacheRedis)
    (hget : c.get db call h = c'.redisFallback db' call h)
    (hmet : c.met db call h = (c'.fetched db' call h).map fun p => (p, call.redisNow))
    (hcounts : c'.lruHits = c.lruHits ∧ c'.redisHits = c.redisHits ∧ c'.misses = c.misses) :
    c.Degrades db call h ↔
      ∀ p now, c.met db call h = some (p, now) → p.Unexpired now → p.HasData := by
  obtain ⟨hanswers, hnothing, hiff⟩ := fallsBack c' db' call h
  obtain ⟨hlru, hredis, hmisses⟩ := hcounts
  have hmet' : ∀ {Q : Json → Time → Prop},
      (∀ p now, c.met db call h = some (p, now) → Q p now) ↔
        ∀ p, c'.fetched db' call h = some p → Q p call.redisNow := by
    intro Q
    rw [hmet]
    constructor
    · intro hQ p hp
      exact hQ p call.redisNow (by rw [hp]; rfl)
    · intro hQ p now hp
      obtain ⟨p', hp', heq⟩ := Option.map_eq_some_iff.mp hp
      cases heq
      exact hQ p hp'
  have hone : CountsOne c (c.get db call h).2.1 ↔
      CountsOne c' (c'.redisFallback db' call h).2.1 := by
    rw [hget, CountsOne, CountsOne, hlru, hredis, hmisses]
  rw [hmet', ← hiff, ← hone]
  refine ⟨Degrades.countsOne, fun hcount => ⟨hget ▸ hanswers, fun hno => ?_, hcount⟩⟩
  rw [hget]
  exact hnothing (hmet'.mp hno)

theorem sound_iff (hexpiry : ∀ item, c.lru.cache.get? h = some item → item.Expires) :
    c.Sound db call h ↔
      ∀ p now, c.met db call h = some (p, now) → p.Unexpired now → p.HasData :=
  ⟨Sound.data, fun hdata => ⟨hexpiry, hdata⟩⟩

/-- **When a `get` degrades**, on a node whose items have comparable expiries. -/
theorem degrades_iff_sound (hc : c.lru.Held Json.ExpiryComparable) :
    c.Degrades db call h ↔ c.Sound db call h := by
  cases hitem : c.lru.cache.get? h with
  | none =>
    rw [sound_iff fun item hitem' => nomatch hitem.symm.trans hitem']
    exact degrades_iff_of_fallback _ _ (get_of_absent hitem db call) (by rw [met, hitem]; rfl)
      ⟨rfl, rfl, rfl⟩
  | some item =>
    have hfst : (c.lru.get h).1 = some item := by rw [LRUCache.get_fst, hitem]
    cases hexpiry : item.getItem "expires_at" with
    | error e =>
      refine iff_of_false (fun hdegrades => ?_) fun hsound => ?_
      · obtain ⟨v, hv⟩ := hdegrades.answers
        rw [get] at hv
        simp only [hfst, hexpiry] at hv
        cases hv
      · obtain ⟨e', he'⟩ := hsound.expiry item hitem
        cases hexpiry.symm.trans he'
    | ok e =>
      have hexpires : ∀ item', c.lru.cache.get? h = some item' → item'.Expires := by
        intro item' hitem'
        cases hitem.symm.trans hitem'
        exact ⟨e, hexpiry⟩
      rw [sound_iff hexpires]
      obtain ⟨fresh, hfresh⟩ := hc h item hitem e hexpiry call.now
      have hcheck : (item.getItem "expires_at" >>= Json.clockLe call.now) = .ok fresh := by
        rw [hexpiry]
        exact hfresh
      cases fresh with
      | false =>
        refine degrades_iff_of_fallback { c with lru := (c.lru.get h).2.delete h }
          (c.deleteFromRedis db call.lruDelRaises h) ?_ ?_ ⟨rfl, rfl, rfl⟩
        · rw [get]
          simp only [hfst, hcheck]
          rfl
        · rw [met]
          simp only [hitem, hcheck]
          rfl
      | true =>
        have hget : c.get db call h = (item.getItem "data",
            { c with lru := (c.lru.get h).2, lruHits := c.lruHits + 1 }, db) := by
          rw [get]
          simp only [hfst, hcheck]
        have hmet : c.met db call h = some (item, call.now) := by
          rw [met]
          simp only [hitem, hcheck]
        constructor
        · rintro ⟨⟨d, hd⟩, -, -⟩ p now hp -
          rw [hget] at hd
          cases hmet.symm.trans hp
          exact ⟨d, hd⟩
        · intro hall
          have hunexpired : item.Unexpired call.now := by
            rw [Json.Unexpired, Json.getD_of_getItem hexpiry]
            exact hfresh
          obtain ⟨d, hd⟩ := hall item call.now hmet hunexpired
          refine ⟨⟨d, by rw [hget]; exact hd⟩, fun hno => ?_, ?_⟩
          · exact absurd ⟨d, hd⟩ (hno item call.now hmet)
          · rw [hget]
            exact Or.inl ⟨rfl, rfl, rfl⟩

/-! ## What the LRU goes through -/

section Keeps

variable {P : Json → Prop} {I : LRUCache Json → Prop} (hI : LRUCache.Keeps P I)

include hI

/-- A fallback puts only what has not expired. -/
theorem keeps_redisFallback (hload : ∀ p, p.Unexpired call.redisNow → P p) (hc : I c.lru) :
    I (c.redisFallback db call h).2.1.lru := by
  rw [redisFallback_eq]
  split
  · exact hc
  · split
    · exact hc
    · rename_i hcheck
      split
      · exact hI.put _ _ _ (hload _ hcheck) hc
      · exact hI.put _ _ _ (hload _ hcheck) hc
    · exact hc

theorem keeps_get (hload : ∀ p, p.Unexpired call.redisNow → P p) (hc : I c.lru) :
    I (c.get db call h).2.1.lru := by
  have hget := hI.get c.lru h hc
  rw [get]
  split
  · exact keeps_redisFallback hI hload hget
  · split
    · exact hget
    · exact hget
    · exact keeps_redisFallback hI hload (hI.delete _ h hget)

theorem keeps_put (hput : ∀ d ct et, P (payload d ct et)) (call : PutCall) (scanResult : Json)
    (hc : I c.lru) : I (c.put db call h scanResult).1.lru := by
  rw [put]
  split
  · exact hI.put _ _ _ (hput _ _ _) hc
  · exact hI.put _ _ _ (hput _ _ _) hc

/-- A warm-up puts only what has not expired. -/
theorem keeps_warmKey {call : WarmCall} {state : LayerScanCache × CacheRedis}
    (hload : ∀ p, (p.getD "expires_at" (.num 0) >>= Json.clockGt call.now) = .ok false → P p)
    (hc : I state.1.lru) (fullKey : String) : I (warmKey call state fullKey).1.lru := by
  obtain ⟨c, db⟩ := state
  rw [warmKey]
  repeat' split
  case h_3 hcheck => exact hI.put _ _ _ (hload _ hcheck) hc
  all_goals exact hc

theorem keeps_warmFromRedis {call : WarmCall}
    (hload : ∀ p, (p.getD "expires_at" (.num 0) >>= Json.clockGt call.now) = .ok false → P p)
    (hc : I c.lru) : I (c.warmFromRedis db call).1.lru := by
  rw [warmFromRedis]
  split_ifs
  · exact hc
  · refine List.foldlRecOn (motive := fun (state : LayerScanCache × CacheRedis) => I state.1.lru)
      call.keys _ hc fun _ hstate k _ => keeps_warmKey hI hload hstate k

end Keeps

end LayerScanCache

/-! ## The machine -/

/-- What can happen to a cache node whose Redis has other writers. -/
inductive ForeignLabel where
  /-- What happens to the node itself. -/
  | own (l : FlakyLabel)
  /-- Another program stores a text under the key of the hash. -/
  | foreign (layerHash : String) (text : JsonText)

/-- The property of the `get`, if the label is one. -/
def ForeignLabel.OfGet (P : GetCall → String → Prop) : ForeignLabel → Prop
  | .own (.get layerHash call) => P call layerHash
  | _ => True

/-- The clock readings of the label that a payload from Redis is compared with are positive. -/
def ForeignLabel.AfterEpoch : ForeignLabel → Prop
  | .own (.get _ call) => 0 < call.redisNow
  | .own (.restart _ call) => 0 < call.now
  | _ => True

namespace FlakyNode

/-- One step. -/
def stepForeign (s : FlakyNode) : ForeignLabel → Option FlakyNode
  | .own l => s.step l
  | .foreign layerHash text => some { s with redis := s.redis.set (redisKey layerHash) text }

/-- Every `get` degrades. -/
def DegradesAt (s : FlakyNode) (l : ForeignLabel) : Prop := l.OfGet (s.cache.Degrades s.redis)

/-- Every `get` meets what it needs. -/
def SoundAt (s : FlakyNode) (l : ForeignLabel) : Prop := l.OfGet (s.cache.Sound s.redis)

/-- **What the operations of the LRU keep, a node keeps.** -/
theorem keeps_stepForeign {P : Json → Prop} {I : LRUCache Json → Prop} (hI : LRUCache.Keeps P I)
    (hput : ∀ d ct et, P (payload d ct et)) {s s' : FlakyNode} {l : ForeignLabel}
    (hload : ∀ h call, l = .own (.get h call) → ∀ p, p.Unexpired call.redisNow → P p)
    (hwarm : ∀ reaches call, l = .own (.restart reaches call) → ∀ p,
      (p.getD "expires_at" (.num 0) >>= Json.clockGt call.now) = .ok false → P p)
    (hs : I s.cache.lru) (hstep : s.stepForeign l = some s') : I s'.cache.lru := by
  cases l with
  | foreign h text =>
    cases hstep
    exact hs
  | own l =>
    cases l with
    | get h call =>
      cases hstep
      exact LayerScanCache.keeps_get hI (hload h call rfl) hs
    | put h v call =>
      cases hstep
      exact LayerScanCache.keeps_put hI hput call _ hs
    | deleteCache h | delete h raises =>
      cases hstep
      exact hI.delete _ h hs
    | redisDrops k =>
      cases hstep
      exact hs
    | restart reaches call =>
      have hfresh : I (s.fresh reaches).lru := hI.new _ hs
      rw [stepForeign, step] at hstep
      split_ifs at hstep with hreaches
      · cases hstep
        subst hreaches
        exact LayerScanCache.keeps_warmFromRedis hI (hwarm true call rfl) hfresh
      · cases hstep
        rw [Bool.not_eq_true] at hreaches
        subst hreaches
        exact hfresh

/-- The items of the LRU have comparable expiries, whatever was written. -/
theorem held_stepForeign {s s' : FlakyNode} {l : ForeignLabel}
    (hs : s.cache.lru.Held Json.ExpiryComparable) (hstep : s.stepForeign l = some s') :
    s'.cache.lru.Held Json.ExpiryComparable := by
  refine keeps_stepForeign (LRUCache.keeps_held _) Json.expiryComparable_payload
    (fun _ call _ p => ?_) (fun _ call _ p => ?_) hs hstep
  · exact Json.expiryComparable_of_check fun _ _ => Json.comparable_of_clockLe
  · exact Json.expiryComparable_of_check fun _ _ => Json.comparable_of_clockGt

/-- After the epoch, no item of the LRU is without `expires_at`. -/
theorem held_expires (capacity : ℕ) (ttlSeconds : ℤ) (redis : Bool) {ls : List ForeignLabel}
    {s : FlakyNode} (hls : ∀ l ∈ ls, l.AfterEpoch)
    (h : Machine.exec stepForeign (start capacity ttlSeconds redis) ls = some s) :
    s.cache.lru.Held Json.Expires := by
  have hstart : (start capacity ttlSeconds redis).cache.lru.Held Json.Expires :=
    fun _ _ hitem => nomatch hitem
  generalize start capacity ttlSeconds redis = s₀ at h hstart
  induction ls generalizing s₀ with
  | nil => exact Option.some.inj h ▸ hstart
  | cons l ls ih =>
    obtain ⟨s₁, hstep, hrest⟩ := (Machine.exec_cons_eq_some stepForeign).mp h
    have hl := hls l List.mem_cons_self
    refine ih (fun l' hl' => hls l' (List.mem_cons_of_mem _ hl')) s₁ hrest ?_
    refine keeps_stepForeign (LRUCache.keeps_held _) Json.expires_payload ?_ ?_ hstart hstep
    · rintro h call rfl p hfresh
      exact Json.expires_of_check (by simpa [Json.clockLe, ForeignLabel.AfterEpoch] using hl) hfresh
    · rintro reaches call rfl p hfresh
      refine Json.expires_of_check (b := false) ?_ hfresh
      simpa [Json.clockGt, ForeignLabel.AfterEpoch] using hl

/-- **When malformed content degrades to a miss.**  In every run of a cache node with any
writes of others to its Redis, all `get`s answer, answer `None` when they meet no data, and add
one to exactly one counter, if and only if no `get` meets a payload that has not expired and
has no `data`, or an LRU item without `expires_at`. -/
theorem malformed_degrades_iff (capacity : ℕ) (ttlSeconds : ℤ) (redis : Bool)
    (ls : List ForeignLabel) :
    Machine.Meets stepForeign (fun s l _ => s.DegradesAt l) (start capacity ttlSeconds redis) ls ↔
      Machine.Meets stepForeign (fun s l _ => s.SoundAt l)
        (start capacity ttlSeconds redis) ls := by
  refine Machine.meets_iff_meets (I := fun s => s.cache.lru.Held Json.ExpiryComparable)
    (fun s l s' hs _ hstep => held_stepForeign hs hstep) (fun s l s' hs _ => ?_)
    (fun k item hitem => nomatch hitem) ls
  rcases l with (_ | _ | _ | _ | _ | _) | _
  · exact LayerScanCache.degrades_iff_sound hs
  all_goals exact Iff.rfl

/-- A text of another program under the key of a hash: it has an expiry and no data. -/
def dataless : JsonText := .dumps (.obj [("expires_at", .num 100)])

/-- The first `get` of it is counted as a hit and as a miss, and the second one raises. -/
theorem dataless_poisons :
    (∃ s₁, Machine.exec stepForeign (start 10 3600 true)
        [.foreign "653bc09e" dataless, .own (.get "653bc09e" { now := 1, redisNow := 1 })] =
          some s₁ ∧
      (s₁.cache.lruHits, s₁.cache.redisHits, s₁.cache.misses) = (0, 1, 1) ∧
      (s₁.cache.get s₁.redis { now := 2, redisNow := 2 } "653bc09e").1 =
        .error (.keyError "data")) ∧
    ¬ ∀ capacity ttlSeconds redis ls, Machine.Meets stepForeign (fun s l _ => s.DegradesAt l)
      (start capacity ttlSeconds redis) ls := by
  have hpoisoned : ∃ s₁, Machine.exec stepForeign (start 10 3600 true)
      [.foreign "653bc09e" dataless, .own (.get "653bc09e" { now := 1, redisNow := 1 })] =
        some s₁ ∧
      (s₁.cache.lruHits, s₁.cache.redisHits, s₁.cache.misses) = (0, 1, 1) ∧
      (s₁.cache.get s₁.redis { now := 2, redisNow := 2 } "653bc09e").1 =
        .error (.keyError "data") := ⟨_, rfl, rfl, by with_unfolding_all rfl⟩
  refine ⟨hpoisoned, fun h => ?_⟩
  obtain ⟨s₁, hs₁, -, hraises⟩ := hpoisoned
  have hdegrades := h 10 3600 true
    [.foreign "653bc09e" dataless, .own (.get "653bc09e" { now := 1, redisNow := 1 }),
      .own (.get "653bc09e" { now := 2, redisNow := 2 })]
    [.foreign "653bc09e" dataless, .own (.get "653bc09e" { now := 1, redisNow := 1 })] _
    (List.prefix_refl _) s₁ _ hs₁ rfl
  obtain ⟨v, hv⟩ := LayerScanCache.Degrades.answers hdegrades
  cases hraises.symm.trans hv

end FlakyNode
end Rcsce
