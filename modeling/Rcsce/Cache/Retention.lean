import Rcsce.Cache.LruOrder
import Rcsce.Cache.Statistics

/-!
# How long a node keeps an entry

Several things take an entry out of the memory of a cache node: an eviction, a lookup that finds
it expired, a deletion, a restart.  Here none but the first can happen, and the eviction is what
the node promises to put off: an entry stays as long as, since its last request, fewer than
`capacity` other hashes have been asked for or posted (`served_until_expiry`).

* `get_onKey` says that a `get` acts on the LRU by operations on its own key.
* `Stays p S` is the invariant: the item is there, and only keys of `S` are behind it.
* `ForeignLabel.since` collects the keys since the last request of the entry.

Redis may refuse any command and hold anything under any key: an item in memory is answered
without it.
-/

namespace Rcsce

/-- The key of an operation. -/
def LruOp.key {ν : Type} : LruOp ν → String
  | .put key _ | .get key | .delete key => key

namespace LRUCache

variable {capacity : ℕ} {lru : LRUCache Json} {h k : String} {p : Json} {S : Finset String}

theorem touched_subset (lru : LRUCache Json) (op : LruOp Json) :
    (lru.touched op).toFinset ⊆ {op.key} := by
  cases op with
  | put key value => exact Finset.Subset.refl _
  | get key =>
    rw [touched]
    split_ifs
    · exact Finset.Subset.refl _
    · exact Finset.empty_subset _
  | delete key => exact Finset.empty_subset _

/-- An operation on another key changes the item of a key only by taking it away. -/
theorem get?_of_get?_apply {op : LruOp Json} (hne : op.key ≠ k) {item : Json}
    (hitem : (lru.apply op).cache.get? k = some item) : lru.cache.get? k = some item := by
  cases op with
  | put key value =>
    rcases get?_of_get?_put hitem with ⟨rfl, -⟩ | ⟨-, hold⟩
    · exact absurd rfl hne
    · exact hold
  | get key => rwa [apply, get?_get_snd] at hitem
  | delete key =>
    rw [apply, get?_delete] at hitem
    split_ifs at hitem
    exact hitem

/-- Operations on one key lead from one cache to another. -/
def OnKey (k : String) : LRUCache Json → LRUCache Json → Prop :=
  Relation.ReflTransGen fun lru lru' => ∃ op : LruOp Json, op.key = k ∧ lru' = lru.apply op

theorem OnKey.single {op : LruOp Json} (hop : op.key = k) : OnKey k lru (lru.apply op) :=
  Relation.ReflTransGen.single ⟨op, hop, rfl⟩

/-- The item of `h` is there, and only keys of `S` are behind it. -/
structure Stays (capacity : ℕ) (h : String) (p : Json) (S : Finset String)
    (lru : LRUCache Json) : Prop where
  item : lru.cache.get? h = some p
  behind : Recency.FollowedBy lru.keys h S
  fits : FlakyNode.Fits capacity lru

theorem length_keys_of_fits (hfits : FlakyNode.Fits capacity lru) :
    lru.keys.length ≤ lru.capacity := by
  rw [hfits.1]
  exact (OrderedDict.length_keys _).trans_le hfits.2

theorem fits_apply (hfits : FlakyNode.Fits capacity lru) (op : LruOp Json) :
    FlakyNode.Fits capacity (lru.apply op) := by
  have hkeeps := FlakyNode.keeps_fits capacity
  cases op with
  | put key value => exact hkeeps.put lru key value trivial hfits
  | get key => exact hkeeps.get lru key hfits
  | delete key => exact hkeeps.delete lru key hfits

namespace Stays

theorem mono (hs : Stays capacity h p S lru) {T : Finset String} (hST : S ⊆ T) :
    Stays capacity h p T lru := by
  obtain ⟨before, behind, hkeys, hbehind⟩ := hs.behind
  exact ⟨hs.item, ⟨before, behind, hkeys, fun b hb => hST (hbehind b hb)⟩, hs.fits⟩

/-- A key of `S` is used, and there is room for the keys behind the item. -/
theorem apply (hs : Stays capacity h p S lru) {op : LruOp Json} (hne : op.key ≠ h)
    (hop : op.key ∈ S) (hcard : S.card < capacity) : Stays capacity h p S (lru.apply op) := by
  have htouched : S ∪ (lru.touched op).toFinset = S :=
    Finset.union_eq_left.mpr
      ((touched_subset lru op).trans (Finset.singleton_subset_iff.mpr hop))
  have hroom : ((S ∪ (lru.touched op).toFinset).erase h).card < lru.capacity := by
    rw [htouched, hs.fits.1]
    exact (Finset.card_erase_le).trans_lt hcard
  have hkept : op ≠ .delete h := by
    rintro rfl
    exact hne rfl
  have hbehind := followedBy_apply (length_keys_of_fits hs.fits) hs.behind hkept hroom
  rw [htouched] at hbehind
  obtain ⟨item, hitem⟩ := OrderedDict.mem_iff_get?.mp hbehind.mem
  have hsame : item = p :=
    Option.some.inj ((get?_of_get?_apply hne hitem).symm.trans hs.item)
  exact ⟨hsame ▸ hitem, hbehind, fits_apply hs.fits op⟩

/-- Operations on one other key count once. -/
theorem of_onKey (hs : Stays capacity h p S lru) (hk : k ≠ h) (hmem : k ∈ S)
    (hcard : S.card < capacity) {lru' : LRUCache Json} (hon : OnKey k lru lru') :
    Stays capacity h p S lru' := by
  induction hon with
  | refl => exact hs
  | tail _ hlast ih =>
    obtain ⟨op, rfl, rfl⟩ := hlast
    exact ih.apply hk hmem hcard

end Stays

/-- An item that is looked up is the most recent one. -/
theorem stays_get (hfits : FlakyNode.Fits capacity lru) (hpos : 0 < capacity)
    (hitem : lru.cache.get? h = some p) : Stays capacity h p ∅ (lru.get h).2 := by
  have htouched : lru.touched (.get h) = [h] := by
    rw [touched, if_pos (OrderedDict.mem_of_get? hitem)]
  refine ⟨?_, followedBy_touched (length_keys_of_fits hfits) (hpos.trans_eq hfits.1.symm)
    htouched, fits_apply hfits (.get h)⟩
  rw [get?_get_snd]
  exact hitem

/-- An item that is put is the most recent one. -/
theorem stays_put (hfits : FlakyNode.Fits capacity lru) (hpos : 0 < capacity) (h : String)
    (p : Json) : Stays capacity h p ∅ (lru.put h p).2 := by
  have htouched : lru.touched (.put h p) = [h] := rfl
  have hbehind := followedBy_touched (length_keys_of_fits hfits) (hpos.trans_eq hfits.1.symm)
    htouched
  obtain ⟨item, hitem⟩ := OrderedDict.mem_iff_get?.mp hbehind.mem
  have hsame : item = p := by
    rcases get?_of_get?_put hitem with ⟨-, heq⟩ | ⟨hne, -⟩
    · exact heq
    · exact absurd rfl hne
  exact ⟨hsame ▸ hitem, hbehind, fits_apply hfits (.put h p)⟩

end LRUCache

namespace LayerScanCache

variable {c : LayerScanCache} {db : CacheRedis} {call : GetCall} {h : String}

open LRUCache (OnKey)

theorem redisFallback_onKey {lru : LRUCache Json} (hlru : OnKey h lru c.lru) :
    OnKey h lru (c.redisFallback db call h).2.1.lru := by
  rw [redisFallback_eq]
  split
  · exact hlru
  · rename_i p _
    split
    · exact hlru
    · have hput : OnKey h c.lru (c.lru.put h p).2 :=
        OnKey.single (show (LruOp.put h p).key = h from rfl)
      split <;> exact hlru.trans hput
    · exact hlru

/-- A `get` acts on the LRU by operations on its own key. -/
theorem get_onKey (c : LayerScanCache) (db : CacheRedis) (call : GetCall) (h : String) :
    OnKey h c.lru (c.get db call h).2.1.lru := by
  have hget : OnKey h c.lru (c.lru.get h).2 :=
    OnKey.single (show (LruOp.get h : LruOp Json).key = h from rfl)
  have hdelete : OnKey h (c.lru.get h).2 ((c.lru.get h).2.delete h) :=
    OnKey.single (show (LruOp.delete h : LruOp Json).key = h from rfl)
  rw [get]
  split
  · exact redisFallback_onKey hget
  · split
    · exact hget
    · exact hget
    · exact redisFallback_onKey (hget.trans hdelete)

theorem put_lru (c : LayerScanCache) (db : CacheRedis) (call : PutCall) (h : String)
    (v : Json) : (c.put db call h v).1.lru =
      (c.lru.put h (payload v call.createdAt (call.now + c.ttlSeconds))).2 := by
  rw [put]
  split <;> rfl

theorem put_ttlSeconds (c : LayerScanCache) (db : CacheRedis) (call : PutCall) (h : String)
    (v : Json) : (c.put db call h v).1.ttlSeconds = c.ttlSeconds := by
  rw [put]
  split <;> rfl

theorem warmFromRedis_ttlSeconds (c : LayerScanCache) (db : CacheRedis) (call : WarmCall) :
    (c.warmFromRedis db call).1.ttlSeconds = c.ttlSeconds := by
  rw [warmFromRedis]
  split_ifs
  · rfl
  · refine List.foldlRecOn (motive := fun (state : LayerScanCache × CacheRedis) =>
      state.1.ttlSeconds = c.ttlSeconds) call.keys _ rfl fun state hstate k _ => ?_
    rw [← hstate, warmKey]
    repeat' split
    all_goals rfl

end LayerScanCache

/-! ## The requests -/

namespace ForeignLabel

/-- The keys of the requests since the last one of `h`, with that of the label. -/
def since (h : String) (S : Finset String) : ForeignLabel → Finset String
  | .own (.get k _) => if k = h then ∅ else insert k S
  | .own (.put k _ _) => insert k S
  | _ => S

/-- The label is none that takes the entry away: no POST of another result, no deletion, no
restart, and no lookup after `t`. -/
def Spares (h : String) (t : Time) : ForeignLabel → Prop
  | .own (.get k call) => k = h → call.now ≤ t
  | .own (.put k _ _) => k ≠ h
  | .own (.deleteCache k) => k ≠ h
  | .own (.delete k _) => k ≠ h
  | .own (.restart _ _) => False
  | _ => True

end ForeignLabel

namespace FlakyNode

variable {capacity : ℕ} {s s' : FlakyNode} {h : String} {d : Json} {ct et : Time}
  {S : Finset String} {l : ForeignLabel}

open LRUCache (Stays)

theorem fits_stepForeign (hs : Fits capacity s.cache.lru) (hstep : s.stepForeign l = some s') :
    Fits capacity s'.cache.lru :=
  keeps_stepForeign (keeps_fits capacity) (fun _ _ _ => trivial) (fun _ _ _ _ _ => trivial)
    (fun _ _ _ _ _ => trivial) hs hstep

/-- A deletion of another entry. -/
theorem stays_delete {lru : LRUCache Json} {k : String} (hs : Stays capacity h d S lru)
    (hk : k ≠ h) : Stays capacity h d S (lru.delete k) := by
  refine ⟨?_, ?_, LRUCache.fits_apply hs.fits (.delete k)⟩
  · rw [LRUCache.get?_delete, if_neg hk.symm]
    exact hs.item
  · rw [LRUCache.keys_delete]
    exact hs.behind.filter hk.symm

/-- **The step of the invariant.** -/
theorem stays_stepForeign (hs : Stays capacity h (payload d ct et) S s.cache.lru)
    (hspares : l.Spares h et) (hcard : (l.since h S).card < capacity)
    (hstep : s.stepForeign l = some s') :
    Stays capacity h (payload d ct et) (l.since h S) s'.cache.lru := by
  cases l with
  | foreign k text =>
    cases hstep
    exact hs
  | own l =>
    cases l with
    | get k call =>
      cases hstep
      by_cases hk : k = h
      · subst hk
        have hpos : 0 < capacity := Nat.zero_lt_of_lt hcard
        rw [LayerScanCache.get_of_fresh hs.item _ (hspares rfl), ForeignLabel.since, if_pos rfl]
        exact LRUCache.stays_get hs.fits hpos hs.item
      · rw [ForeignLabel.since, if_neg hk] at hcard ⊢
        exact (hs.mono (Finset.subset_insert k S)).of_onKey hk (Finset.mem_insert_self k S) hcard
          (LayerScanCache.get_onKey _ _ _ _)
    | put k v call =>
      cases hstep
      show Stays _ _ _ _ (s.cache.put s.redis call k (.obj v)).1.lru
      rw [LayerScanCache.put_lru]
      have hkey : ∀ item : Json, (LruOp.put k item).key = k := fun _ => rfl
      exact (hs.mono (Finset.subset_insert k S)).of_onKey hspares (Finset.mem_insert_self k S)
        hcard (LRUCache.OnKey.single (hkey _))
    | deleteCache k =>
      cases hstep
      exact stays_delete hs hspares
    | delete k raises =>
      cases hstep
      exact stays_delete hs hspares
    | redisDrops k =>
      cases hstep
      exact hs
    | restart reaches call => exact hspares.elim

/-- The time to live is fixed. -/
theorem ttlSeconds_stepForeign (hstep : s.stepForeign l = some s') :
    s'.cache.ttlSeconds = s.cache.ttlSeconds := by
  cases l with
  | foreign k text =>
    cases hstep
    rfl
  | own l =>
    cases l with
    | get k call =>
      cases hstep
      exact (LayerScanCache.get_config _ _ _ _).2
    | put k v call =>
      cases hstep
      exact LayerScanCache.put_ttlSeconds _ _ _ _ _
    | deleteCache k | delete k raises | redisDrops k =>
      cases hstep
      rfl
    | restart reaches call =>
      rw [stepForeign, step] at hstep
      split_ifs at hstep
      · cases hstep
        exact LayerScanCache.warmFromRedis_ttlSeconds _ _ _
      · cases hstep
        rfl

/-- The entry of a POST is the most recent one. -/
theorem stays_putCache (hs : Fits capacity s.cache.lru) (hpos : 0 < capacity)
    (v : List (String × Json)) (call : PutCall) :
    Stays capacity h (payload (.obj v) call.createdAt (call.now + s.cache.ttlSeconds)) ∅
      (s.putCache call h v).cache.lru := by
  show Stays _ _ _ _ (s.cache.put s.redis call h (.obj v)).1.lru
  rw [LayerScanCache.put_lru]
  exact LRUCache.stays_put hs hpos h _

/-- **The run of the invariant.** -/
theorem stays_exec {ls : List ForeignLabel}
    (hs : Stays capacity h (payload d ct et) S s.cache.lru) (hspares : ∀ l ∈ ls, l.Spares h et)
    (hfew : ∀ n ≤ ls.length, ((ls.take n).foldl (ForeignLabel.since h) S).card < capacity)
    (hexec : Machine.exec stepForeign s ls = some s') :
    ∃ T, Stays capacity h (payload d ct et) T s'.cache.lru := by
  induction ls generalizing s S with
  | nil => exact ⟨S, Option.some.inj hexec ▸ hs⟩
  | cons l ls ih =>
    obtain ⟨s₁, hstep, hrest⟩ := (Machine.exec_cons_eq_some stepForeign).mp hexec
    have hs₁ := stays_stepForeign hs (hspares l List.mem_cons_self)
      (hfew 1 (Nat.le_add_left 1 _)) hstep
    exact ih hs₁ (fun l' hl' => hspares l' (List.mem_cons_of_mem _ hl'))
      (fun n hn => hfew (n + 1) (Nat.succ_le_succ hn)) hrest

/-- **A result is served until it expires**, out of memory and whatever happens to Redis, as long
as, since the last request of its hash, fewer than `capacity` other hashes have been asked for or
posted, and the entry is neither posted again nor deleted nor lost with the process. -/
theorem served_until_expiry (capacity : ℕ) (ttlSeconds : ℤ) (redis : Bool)
    (before ls : List ForeignLabel) (h : String) (v : List (String × Json)) (call : PutCall)
    (s : FlakyNode)
    (hexec : Machine.exec stepForeign (start capacity ttlSeconds redis)
      (before ++ .own (.put h v call) :: ls) = some s)
    (hspares : ∀ l ∈ ls, l.Spares h (call.now + ttlSeconds))
    (hfew : ∀ n ≤ ls.length, ((ls.take n).foldl (ForeignLabel.since h) ∅).card < capacity)
    (call' : GetCall) (hfresh : call'.now ≤ call.now + ttlSeconds) :
    s.getCache call' h = .hit v := by
  rw [Machine.exec_append] at hexec
  obtain ⟨s₀, hbefore, hrest⟩ := Option.bind_eq_some_iff.mp hexec
  obtain ⟨s₁, hput, hrest⟩ := (Machine.exec_cons_eq_some stepForeign).mp hrest
  have hpos : 0 < capacity := Nat.zero_lt_of_lt (hfew 0 (Nat.zero_le _))
  have hfixed : Fits capacity s₀.cache.lru ∧ s₀.cache.ttlSeconds = ttlSeconds := by
    refine Machine.exec_invariant
      (I := fun s => Fits capacity s.cache.lru ∧ s.cache.ttlSeconds = ttlSeconds)
      (fun s l s' hs hstep => ⟨fits_stepForeign hs.1 hstep, ?_⟩) ⟨⟨rfl, Nat.zero_le _⟩, rfl⟩ hbefore
    exact (ttlSeconds_stepForeign hstep).trans hs.2
  obtain ⟨hfits, rfl⟩ := hfixed
  cases hput
  obtain ⟨T, hstays⟩ := stays_exec (stays_putCache hfits hpos v call) hspares hfew hrest
  rw [getCache, LayerScanCache.get_of_fresh hstays.item _ hfresh]
  rfl

/-- Two other hashes are asked for or posted, and the entry in between; another program writes
garbage under its key in Redis. -/
def busyHour : List ForeignLabel :=
  [.own (.get "9f2c41d0" { now := 5, redisNow := 5 }),
    .foreign "653bc09e" (.malformed "garbage"),
    .own (.get "653bc09e" { now := 10, redisNow := 10 }),
    .own (.put "77aa03c4" [] { createdAt := 20, now := 20 })]

/-- Two entries fit, and Redis has refused the write of this one. -/
theorem served_until_expiry_two :
    ∃ s, Machine.exec stepForeign (start 2 3600 true)
        ([] ++ .own (.put "653bc09e" [("status", .str "clean")]
            { createdAt := 0, now := 0, setexRaises := true }) :: busyHour) = some s ∧
      s.getCache { now := 3600, redisNow := 3600, getRaises := true } "653bc09e" =
        .hit [("status", .str "clean")] := by
  have hexec : Machine.exec stepForeign (start 2 3600 true)
      ([] ++ .own (.put "653bc09e" [("status", .str "clean")]
          { createdAt := 0, now := 0, setexRaises := true }) :: busyHour) = some _ := rfl
  refine ⟨_, hexec, served_until_expiry 2 3600 true [] busyHour "653bc09e" _ _ _ hexec ?_ ?_ _ ?_⟩
  · simp only [busyHour, List.forall_mem_cons, ForeignLabel.Spares]
    exact ⟨nofun, trivial, fun _ => by decide +kernel, by decide, nofun⟩
  · decide
  · decide +kernel

end FlakyNode
end Rcsce
