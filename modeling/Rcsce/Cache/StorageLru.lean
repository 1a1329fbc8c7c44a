import Rcsce.Cache.LruOrder
import Rcsce.Cache.Statistics

/-!
# The two LRU caches

`LRUCache` of `cache/storage/lru_cache.py` next to that of `cache/cache_common.py`.  A `get` of
the first writes into the dict that it returns: it adds one to the field `hit_count`, which is
`0` when it is absent, and raises when the field is no number.

A dict is what its fields look up, and `plusOne` is `value + 1` for the Python values that are
neither an integer nor a boolean, with the exception that it raises.  Two keys are never set to
one dict object here, so that a write into the one entry is seen in no other.

* `HitBy`: a dict after so many hits.
* `LockStep`: what relates the two caches after every operation.
* `storage_agrees`: what they show to a caller.
-/

namespace Rcsce

/-- A value of a dict. -/
inductive PyValue (α : Type) where
  | int (n : ℤ)
  | bool (b : Bool)
  /-- Any other value: a float, a text, a list, ... -/
  | other (v : α)

/-- A dict with string keys. -/
abbrev PyDict (α : Type) := OrderedDict String (PyValue α)

namespace PyValue

variable {α : Type} (plusOne : α → Except PyError α)

/-- `value + 1`. -/
def addOne : PyValue α → Except PyError (PyValue α)
  | .int n => .ok (.int (n + 1))
  | .bool b => .ok (.int ((if b then 1 else 0) + 1))
  | .other v => (plusOne v).map .other

/-- The number that an integer or a boolean stands for. -/
def toInt? : PyValue α → Option ℤ
  | .int n => some n
  | .bool b => some (if b then 1 else 0)
  | .other _ => none

/-- `value + 1 + 1 + ...`, so many times. -/
def addTimes : ℕ → PyValue α → Except PyError (PyValue α)
  | 0, value => .ok value
  | n + 1, value => addTimes n value >>= addOne plusOne

theorem addTimes_succ {n : ℕ} {value count : PyValue α}
    (h : value.addTimes plusOne n = .ok count) :
    value.addTimes plusOne (n + 1) = count.addOne plusOne := by
  rw [addTimes, h]
  rfl

theorem addOne_of_toInt? {value : PyValue α} {given : ℤ} (h : value.toInt? = some given) :
    value.addOne plusOne = .ok (.int (given + 1)) := by
  cases value with
  | int | bool => cases h; rfl
  | other v => cases h

/-- Integers are added up. -/
theorem addTimes_of_toInt? {value : PyValue α} {given : ℤ} (h : value.toInt? = some given)
    (n : ℕ) : value.addTimes plusOne (n + 1) = .ok (.int (given + (n + 1 : ℕ))) := by
  induction n with
  | zero => exact addOne_of_toInt? plusOne h
  | succ n ih => rw [addTimes_succ plusOne ih, addOne, Nat.cast_succ (n + 1), add_assoc]

end PyValue

namespace PyDict

variable {α : Type} (plusOne : α → Except PyError α)

/-- `value.get("hit_count", 0)`. -/
def hitCount (value : PyDict α) : PyValue α := (value.get? "hit_count").getD (.int 0)

/-- One can be added to the field `hit_count`, or there is none. -/
def Counting (value : PyDict α) : Prop :=
  ∀ n, ∃ count, value.hitCount.addTimes plusOne n = .ok count

theorem counting_of_toInt? {value : PyDict α} {given : ℤ}
    (h : value.hitCount.toInt? = some given) : value.Counting plusOne
  | 0 => ⟨_, rfl⟩
  | n + 1 => ⟨_, PyValue.addTimes_of_toInt? plusOne h n⟩

end PyDict

/-- `LRUCache` of `cache/storage/lru_cache.py`. -/
structure StorageLRUCache (α : Type) where
  maxSize : ℕ
  cache : OrderedDict String (PyDict α)
  hits : ℕ
  misses : ℕ

/-- The operations of the storage cache. -/
inductive StorageOp (α : Type) where
  | set (key : String) (value : PyDict α)
  | get (key : String)

namespace StorageOp

variable {α : Type} (plusOne : α → Except PyError α)

/-- The operation of the other cache. -/
def toLruOp : StorageOp α → LruOp (PyDict α)
  | .set key value => .put key value
  | .get key => .get key

/-- One can be added to the `hit_count` of a dict that is set. -/
def Counting : StorageOp α → Prop
  | .set _ value => value.Counting plusOne
  | .get _ => True

end StorageOp

namespace StorageLRUCache

variable {α : Type} (plusOne : α → Except PyError α)

/-- `LRUCache.__init__`. -/
def new (maxSize : ℕ) : StorageLRUCache α := ⟨maxSize, .empty, 0, 0⟩

/-- `LRUCache.get`. -/
def get (c : StorageLRUCache α) (key : String) :
    Except PyError (Option (PyDict α)) × StorageLRUCache α :=
  match c.cache.get? key with
  | some value =>
    -- the key is moved before the addition can raise, and the hit counted after it
    let moved := c.cache.moveToEnd key
    match value.hitCount.addOne plusOne with
    | .error e => (.error e, { c with cache := moved })
    | .ok count =>
      let hit := value.set "hit_count" count
      (.ok (some hit), { c with cache := moved.set key hit, hits := c.hits + 1 })
  | none => (.ok none, { c with misses := c.misses + 1 })

/-- `LRUCache.set`, which returns nothing. -/
def set (c : StorageLRUCache α) (key : String) (value : PyDict α) : StorageLRUCache α :=
  let moved := if key ∈ c.cache then c.cache.moveToEnd key else c.cache
  let cache := moved.set key value
  if c.maxSize < cache.size then
    match cache.popFirst? with
    | some (_, rest) => { c with cache := rest }
    | none => { c with cache := cache }
  else { c with cache := cache }

/-- `LRUCache.hit_ratio`. -/
def hitRatio (ratio : ℕ → ℕ → ℚ) (c : StorageLRUCache α) : ℚ :=
  hitShare ratio c.hits (c.hits + c.misses)

/-- The cache after an operation. -/
def apply (c : StorageLRUCache α) : StorageOp α → StorageLRUCache α
  | .set key value => c.set key value
  | .get key => (c.get plusOne key).2

/-- The cache after a sequence of operations. -/
def run (c : StorageLRUCache α) (ops : List (StorageOp α)) : StorageLRUCache α :=
  ops.foldl (apply plusOne) c

theorem run_concat (c : StorageLRUCache α) (ops : List (StorageOp α)) (op : StorageOp α) :
    c.run plusOne (ops ++ [op]) = (c.run plusOne ops).apply plusOne op := by
  rw [run, run, List.foldl_append, List.foldl_cons, List.foldl_nil]

/-- The storage cache as a cache of the other kind. -/
def toLru (c : StorageLRUCache α) : LRUCache (PyDict α) := ⟨c.maxSize, c.cache, c.hits, c.misses⟩

/-- The two caches put alike. -/
theorem toLru_set (c : StorageLRUCache α) (key : String) (value : PyDict α) :
    (c.set key value).toLru = (c.toLru.put key value).2 := by
  unfold set LRUCache.put toLru
  dsimp only
  generalize (if key ∈ c.cache then c.cache.moveToEnd key else c.cache).set key value = cache
  by_cases hsize : c.maxSize < cache.size
  · simp only [if_pos hsize]
    cases cache.popFirst? <;> rfl
  · simp only [if_neg hsize]

end StorageLRUCache

/-- `LRUCache.hit_ratio` of `cache/cache_common.py`. -/
def LRUCache.hitRatio {ν : Type} (ratio : ℕ → ℕ → ℚ) (c : LRUCache ν) : ℚ :=
  hitShare ratio c.hits (c.hits + c.misses)

/-! ## A dict after some hits -/

section HitBy

variable {α : Type} (plusOne : α → Except PyError α) {w v : PyDict α} {n : ℕ}

/-- `v` is `w`, to which one can be added, after `n` hits. -/
structure HitBy (w v : PyDict α) (n : ℕ) : Prop where
  counting : w.Counting plusOne
  fields : ∃ count, w.hitCount.addTimes plusOne n = .ok count ∧ ∀ field, v.get? field =
    if field = "hit_count" ∧ 0 < n then some count else w.get? field

theorem HitBy.zero (h : w.Counting plusOne) : HitBy plusOne w w 0 :=
  ⟨h, _, rfl, fun field => by rw [if_neg fun h => lt_irrefl 0 h.2]⟩

/-- One more hit. -/
theorem HitBy.succ (h : HitBy plusOne w v n) :
    ∃ count, v.hitCount.addOne plusOne = .ok count ∧
      HitBy plusOne w (v.set "hit_count" count) (n + 1) := by
  obtain ⟨count, hcount, hfields⟩ := h.fields
  obtain ⟨next, hnext⟩ := h.counting (n + 1)
  have hhitCount : v.hitCount = count := by
    rw [PyDict.hitCount, hfields]
    rcases Nat.eq_zero_or_pos n with rfl | hpos
    · rw [if_neg fun h => lt_irrefl 0 h.2]
      exact Except.ok.inj hcount
    · rw [if_pos ⟨rfl, hpos⟩, Option.getD_some]
  have hadd : v.hitCount.addOne plusOne = .ok next := by
    rw [hhitCount, ← PyValue.addTimes_succ plusOne hcount, hnext]
  refine ⟨next, hadd, h.counting, next, hnext, fun field => ?_⟩
  rw [OrderedDict.get?_set]
  by_cases hfield : field = "hit_count"
  · rw [if_pos hfield, if_pos ⟨hfield, Nat.succ_pos n⟩]
  · rw [if_neg hfield, if_neg fun h => hfield h.1, hfields, if_neg fun h => hfield h.1]

end HitBy

/-! ## Lock step -/

/-- The successful `get`s of the key since its latest `set`, in a history with the latest
operation first. -/
def hitsSinceSet {α : Type} (capacity : ℕ) (key : String) : List (StorageOp α) → ℕ
  | [] => 0
  | .set k _ :: before => if k = key then 0 else hitsSinceSet capacity key before
  | .get k :: before => hitsSinceSet capacity key before +
      if k = key ∧
          k ∈ ((LRUCache.new capacity).run (before.reverse.map StorageOp.toLruOp)).cache then 1
      else 0

/-- What relates the two caches when `n` counts the hits of each key since it was set. -/
structure LockStep {α : Type} (plusOne : α → Except PyError α) (n : String → ℕ)
    (c : StorageLRUCache α) (d : LRUCache (PyDict α)) : Prop where
  capacity : c.maxSize = d.capacity
  bounded : d.keys.length ≤ d.capacity
  keys : c.cache.keys = d.cache.keys
  hits : c.hits = d.hits
  misses : c.misses = d.misses
  values : ∀ k v w, c.cache.get? k = some v → d.cache.get? k = some w →
    HitBy plusOne w v (n k)

namespace LockStep

variable {α : Type} {plusOne : α → Except PyError α} {n : String → ℕ} {c : StorageLRUCache α}
  {d : LRUCache (PyDict α)}

theorem new (capacity : ℕ) (n : String → ℕ) :
    LockStep plusOne n (StorageLRUCache.new capacity : StorageLRUCache α) (.new capacity) :=
  ⟨rfl, Nat.zero_le _, rfl, rfl, rfl, fun _ _ _ h => nomatch h⟩

theorem mem_iff (h : LockStep plusOne n c d) (key : String) : key ∈ c.cache ↔ key ∈ d.cache := by
  rw [OrderedDict.mem_def, OrderedDict.mem_def, h.keys]

/-- A `set` and a `put` of a dict that counts. -/
theorem set (h : LockStep plusOne n c d) (key : String) {value : PyDict α}
    (hvalue : value.Counting plusOne) :
    LockStep plusOne (Function.update n key 0) (c.set key value) (d.put key value).2 := by
  have hset := StorageLRUCache.toLru_set c key value
  have hcapacity : (c.set key value).maxSize = c.maxSize :=
    (congrArg LRUCache.capacity hset).trans (LRUCache.capacity_put _ _ _)
  have hcache : (c.set key value).cache = (c.toLru.put key value).2.cache :=
    congrArg LRUCache.cache hset
  have hbounded : c.toLru.keys.length ≤ c.toLru.capacity := by
    show c.cache.keys.length ≤ c.maxSize
    rw [h.keys, h.capacity]
    exact h.bounded
  constructor
  · rw [hcapacity, LRUCache.capacity_put, h.capacity]
  · rw [LRUCache.keys_put h.bounded, LRUCache.capacity_put]
    exact Window.length_rtake_le _ _
  · rw [hcache]
    show (c.toLru.put key value).2.keys = (d.put key value).2.keys
    rw [LRUCache.keys_put hbounded, LRUCache.keys_put h.bounded]
    show Recency.touch c.maxSize c.cache.keys key = Recency.touch d.capacity d.cache.keys key
    rw [h.capacity, h.keys]
  · rw [LRUCache.hits_put, ← h.hits]
    exact (congrArg LRUCache.hits hset).trans (LRUCache.hits_put _ _ _)
  · rw [LRUCache.misses_put, ← h.misses]
    exact (congrArg LRUCache.misses hset).trans (LRUCache.misses_put _ _ _)
  · intro k v w hv hw
    rw [hcache] at hv
    rcases LRUCache.get?_of_get?_put hv with ⟨rfl, rfl⟩ | ⟨hk, hv'⟩
    · rcases LRUCache.get?_of_get?_put hw with ⟨-, rfl⟩ | ⟨hk, -⟩
      · rw [Function.update_self]
        exact .zero plusOne hvalue
      · exact absurd rfl hk
    · rcases LRUCache.get?_of_get?_put hw with ⟨rfl, -⟩ | ⟨-, hw'⟩
      · exact absurd rfl hk
      · rw [Function.update_of_ne hk]
        exact h.values k v w hv' hw'

/-- A `get` that misses. -/
theorem get_of_absent (h : LockStep plusOne n c d) {key : String} (hkey : d.cache.get? key = none) :
    (c.get plusOne key).1 = .ok none ∧ (d.get key).1 = none ∧
      LockStep plusOne n (c.get plusOne key).2 (d.get key).2 := by
  have hkey' : c.cache.get? key = none := by
    rw [OrderedDict.get?_eq_none_iff, h.mem_iff]
    exact OrderedDict.get?_eq_none_iff.mp hkey
  rw [StorageLRUCache.get, LRUCache.get, hkey, hkey']
  exact ⟨rfl, rfl, h.capacity, h.bounded, h.keys, h.hits, congrArg (· + 1) h.misses, h.values⟩

/-- A `get` that hits: the two dicts differ by one more hit. -/
theorem get_of_present (h : LockStep plusOne n c d) {key : String} {w : PyDict α}
    (hkey : d.cache.get? key = some w) :
    ∃ v, (c.get plusOne key).1 = .ok (some v) ∧ (d.get key).1 = some w ∧
      HitBy plusOne w v (n key + 1) ∧
      LockStep plusOne (Function.update n key (n key + 1)) (c.get plusOne key).2
        (d.get key).2 := by
  have hmem := (h.mem_iff key).mpr (OrderedDict.mem_of_get? hkey)
  obtain ⟨v, hv⟩ := OrderedDict.mem_iff_get?.mp hmem
  obtain ⟨count, hcount, hhit⟩ := (h.values key v w hv hkey).succ
  have hmoved : key ∈ c.cache.moveToEnd key := OrderedDict.mem_moveToEnd.mpr hmem
  have hget : c.get plusOne key = (.ok (some (v.set "hit_count" count)), { c with
      cache := (c.cache.moveToEnd key).set key (v.set "hit_count" count)
      hits := c.hits + 1 }) := by
    rw [StorageLRUCache.get, hv]
    simp only [hcount]
  have hget' : d.get key = (some w, { d with
      cache := d.cache.moveToEnd key
      hits := d.hits + 1 }) := by
    rw [LRUCache.get, hkey]
  refine ⟨v.set "hit_count" count, by rw [hget], by rw [hget'], hhit, ?_⟩
  rw [hget, hget']
  constructor
  · exact h.capacity
  · show (d.cache.moveToEnd key).keys.length ≤ d.capacity
    rw [OrderedDict.length_keys, OrderedDict.size_moveToEnd, ← OrderedDict.length_keys]
    exact h.bounded
  · show ((c.cache.moveToEnd key).set key (v.set "hit_count" count)).keys =
      (d.cache.moveToEnd key).keys
    rw [OrderedDict.keys_set_of_mem hmoved, OrderedDict.keys_moveToEnd_of_mem hmem,
      OrderedDict.keys_moveToEnd_of_mem (OrderedDict.mem_of_get? hkey), h.keys]
  · exact congrArg (· + 1) h.hits
  · exact h.misses
  · intro k v' w' hv' hw'
    rw [OrderedDict.get?_set, OrderedDict.get?_moveToEnd] at hv'
    rw [OrderedDict.get?_moveToEnd] at hw'
    by_cases hk : k = key
    · subst hk
      rw [if_pos rfl] at hv'
      cases hv'
      cases hkey.symm.trans hw'
      rw [Function.update_self]
      exact hhit
    · rw [if_neg hk] at hv'
      rw [Function.update_of_ne hk]
      exact h.values k v' w' hv' hw'

end LockStep

section Runs

variable {α : Type} (plusOne : α → Except PyError α) (ratio : ℕ → ℕ → ℚ) (capacity : ℕ)

/-- The storage cache after the operations. -/
def storageRun (ops : List (StorageOp α)) : StorageLRUCache α :=
  (StorageLRUCache.new capacity).run plusOne ops

/-- The other cache after the same operations. -/
def commonRun (ops : List (StorageOp α)) : LRUCache (PyDict α) :=
  (LRUCache.new capacity).run (ops.map StorageOp.toLruOp)

theorem commonRun_concat (ops : List (StorageOp α)) (op : StorageOp α) :
    commonRun capacity (ops ++ [op]) = (commonRun capacity ops).apply op.toLruOp := by
  rw [commonRun, List.map_append, List.map_singleton, LRUCache.run_concat, ← commonRun]

/-- The hits of each key since its latest `set`. -/
def hitsOf (ops : List (StorageOp α)) (key : String) : ℕ := hitsSinceSet capacity key ops.reverse

theorem hitsOf_set (ops : List (StorageOp α)) (key : String) (value : PyDict α) :
    hitsOf capacity (ops ++ [.set key value]) = Function.update (hitsOf capacity ops) key 0 := by
  funext k
  rw [hitsOf, List.reverse_concat, hitsSinceSet, Function.update_apply, hitsOf]
  simp only [eq_comm]

theorem hitsOf_get (ops : List (StorageOp α)) (key : String) :
    hitsOf capacity (ops ++ [.get key]) =
      if key ∈ (commonRun capacity ops).cache then
        Function.update (hitsOf capacity ops) key (hitsOf capacity ops key + 1)
      else hitsOf capacity ops := by
  funext k
  rw [hitsOf, List.reverse_concat, hitsSinceSet, List.reverse_reverse, ← commonRun, ← hitsOf]
  by_cases hmem : key ∈ (commonRun capacity ops).cache
  · rw [if_pos hmem, Function.update_apply]
    by_cases hk : key = k
    · subst hk
      rw [if_pos ⟨rfl, hmem⟩, if_pos rfl]
    · rw [if_neg fun h => hk h.1, if_neg fun h => hk h.symm, add_zero]
  · rw [if_neg hmem, if_neg fun h => hmem h.2, add_zero]

/-- **The two caches stay in lock step.** -/
theorem lockStep_run {ops : List (StorageOp α)} (hops : ∀ op ∈ ops, op.Counting plusOne) :
    LockStep plusOne (hitsOf capacity ops) (storageRun plusOne capacity ops)
      (commonRun capacity ops) := by
  induction ops using List.reverseRecOn with
  | nil => exact .new capacity _
  | append_singleton ops op ih =>
    have hbefore := ih fun op' hop' => hops op' (List.mem_append_left _ hop')
    have hop := hops op (List.mem_append_right _ List.mem_cons_self)
    rw [storageRun, StorageLRUCache.run_concat, ← storageRun, commonRun_concat]
    cases op with
    | set key value =>
      rw [hitsOf_set]
      exact hbefore.set key hop
    | get key =>
      rw [hitsOf_get]
      cases hkey : (commonRun capacity ops).cache.get? key with
      | none =>
        rw [if_neg (OrderedDict.get?_eq_none_iff.mp hkey)]
        exact (hbefore.get_of_absent hkey).2.2
      | some w =>
        rw [if_pos (OrderedDict.mem_of_get? hkey)]
        obtain ⟨v, -, -, -, hafter⟩ := hbefore.get_of_present hkey
        exact hafter

/-- What two answers to a `get` of the key have in common after the operations. -/
def AnswersAlike (ops : List (StorageOp α)) (key : String)
    (answer : Except PyError (Option (PyDict α))) (answer' : Option (PyDict α)) : Prop :=
  (answer = .ok none ∧ answer' = none) ∨
    ∃ v w count, answer = .ok (some v) ∧ answer' = some w ∧
      (∀ field, field ≠ "hit_count" → v.get? field = w.get? field) ∧
      latestPut (ops.map StorageOp.toLruOp) key = some w ∧ v.get? "hit_count" = some count ∧
      w.hitCount.addTimes plusOne (hitsOf capacity (ops ++ [.get key]) key) = .ok count ∧
      ∀ given, w.hitCount.toInt? = some given →
        count = .int (given + hitsOf capacity (ops ++ [.get key]) key)

/-- What the two caches show alike after the operations. -/
structure StorageAgrees (ops : List (StorageOp α)) : Prop where
  keys : (storageRun plusOne capacity ops).cache.keys = (commonRun capacity ops).keys
  hits : (storageRun plusOne capacity ops).hits = (commonRun capacity ops).hits
  misses : (storageRun plusOne capacity ops).misses = (commonRun capacity ops).misses
  hitRatio : (storageRun plusOne capacity ops).hitRatio ratio =
    (commonRun capacity ops).hitRatio ratio
  answers : ∀ key, AnswersAlike plusOne capacity ops key
    ((storageRun plusOne capacity ops).get plusOne key).1 ((commonRun capacity ops).get key).1

/-- **The two caches agree.**  After any sequence of operations that sets only dicts to whose
`hit_count`, if there is one, one can be added, the two caches have the same keys in the same
order and the same counters and ratio.  They answer every `get` alike but for the field
`hit_count`, which is that of the latest `set` with one added for each hit since, and so the sum
when it was an integer. -/
theorem storage_agrees (ops : List (StorageOp α)) (hops : ∀ op ∈ ops, op.Counting plusOne) :
    StorageAgrees plusOne ratio capacity ops := by
  have h := lockStep_run plusOne capacity hops
  refine ⟨h.keys, h.hits, h.misses, ?_, fun key => ?_⟩
  · rw [StorageLRUCache.hitRatio, LRUCache.hitRatio, h.hits, h.misses]
  · cases hkey : (commonRun capacity ops).cache.get? key with
    | none =>
      obtain ⟨hanswer, hanswer', -⟩ := h.get_of_absent hkey
      exact Or.inl ⟨hanswer, hanswer'⟩
    | some w =>
      obtain ⟨v, hanswer, hanswer', hhit, -⟩ := h.get_of_present hkey
      obtain ⟨count, hcount, hfields⟩ := hhit.fields
      have hhits : hitsOf capacity (ops ++ [.get key]) key = hitsOf capacity ops key + 1 := by
        rw [hitsOf_get, if_pos (OrderedDict.mem_of_get? hkey), Function.update_self]
      refine Or.inr ⟨v, w, count, hanswer, hanswer', fun field hfield => ?_,
        LRUCache.latestPut_of_get? capacity _ hkey, ?_, ?_, fun given hgiven => ?_⟩
      · rw [hfields, if_neg fun h => hfield h.1]
      · rw [hfields, if_pos ⟨rfl, Nat.succ_pos _⟩]
      · rw [hhits, hcount]
      · rw [PyValue.addTimes_of_toInt? plusOne hgiven] at hcount
        rw [hhits, Except.ok.inj hcount]

end Runs

/-- A dict whose `hit_count` is a text. -/
def textCount : PyDict String := OrderedDict.empty.set "hit_count" (.other "x")

/-- A value that is neither an integer nor a boolean, when it is a text. -/
def textPlusOne (_ : String) : Except PyError String := .error .typeError

/-- Two dicts are set, and one is read twice. -/
theorem storage_agrees_two :
    StorageAgrees textPlusOne (fun _ _ => 0) 1
      [.set "k1" .empty, .set "k2" .empty, .get "k2", .get "k2", .get "k1"] :=
  storage_agrees _ _ _ _ (by
    intro op hop
    fin_cases hop
    · exact PyDict.counting_of_toInt? _ rfl
    · exact PyDict.counting_of_toInt? _ rfl
    all_goals trivial)

/-- A `get` of a dict whose `hit_count` is a text raises in the one cache and answers in the
other; and a `put` returns the key that it evicts, where a `set` returns nothing. -/
theorem text_count_raises :
    ((storageRun textPlusOne 1 [.set "k1" textCount]).get textPlusOne "k1").1 =
        .error .typeError ∧
      ((LRUCache.new 0).put "k1" (OrderedDict.empty : PyDict String)).1 = some "k1" ∧
      ¬ ∀ (plusOne : String → Except PyError String) ratio capacity ops,
        StorageAgrees plusOne ratio capacity ops := by
  have hraises : ((storageRun textPlusOne 1 [.set "k1" textCount]).get textPlusOne "k1").1 =
      .error .typeError := rfl
  refine ⟨hraises, rfl, fun h => ?_⟩
  rcases (h textPlusOne (fun _ _ => 0) 1 [.set "k1" textCount]).answers "k1" with
    ⟨hanswer, -⟩ | ⟨v, w, given, hanswer, -⟩
  · cases hraises.symm.trans hanswer
  · cases hraises.symm.trans hanswer

end Rcsce
