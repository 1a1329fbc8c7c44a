import Rcsce.Lib.OrderedDict

/-!
# The in-memory LRU of a cache node

`LRUCache` of `cache/cache_common.py`.  The lock makes every method one atomic
step, so each is a function from the cache to the cache.  The order of the
ordered dictionary is the order of last use, least recent first.

`LRUCache.put` removes at most the one key it reports, and that key is the least
recently used one; `size_put_le` is the bound that makes it a cache.
-/

namespace Rcsce

universe u

/-- `LRUCache` of `cache/cache_common.py`. -/
structure LRUCache (ν : Type u) where
  capacity : ℕ
  cache : OrderedDict String ν
  hits : ℕ
  misses : ℕ

namespace LRUCache

variable {ν : Type u}

/-- `LRUCache.__init__`. -/
def new (capacity : ℕ) : LRUCache ν := ⟨capacity, .empty, 0, 0⟩

/-- `LRUCache.get`. -/
def get (c : LRUCache ν) (key : String) : Option ν × LRUCache ν :=
  match c.cache.get? key with
  | none => (none, { c with misses := c.misses + 1 })
  | some value => (some value, { c with cache := c.cache.moveToEnd key, hits := c.hits + 1 })

/-- `LRUCache.put`: the evicted key, if the capacity was exceeded. -/
def put (c : LRUCache ν) (key : String) (value : ν) : Option String × LRUCache ν :=
  let moved := if key ∈ c.cache then c.cache.moveToEnd key else c.cache
  let cache := moved.set key value
  if c.capacity < cache.size then
    match cache.popFirst? with
    | some ((evicted, _), rest) => (some evicted, { c with cache := rest })
    | none => (none, { c with cache := cache })
  else (none, { c with cache := cache })

/-- `LRUCache.delete`. -/
def delete (c : LRUCache ν) (key : String) : LRUCache ν :=
  { c with cache := c.cache.erase key }

/-- `LRUCache.size`. -/
def size (c : LRUCache ν) : ℕ := c.cache.size

/-- `LRUCache.keys`. -/
def keys (c : LRUCache ν) : List String := c.cache.keys

/-! ## Looking up -/

theorem get_fst (c : LRUCache ν) (key : String) : (c.get key).1 = c.cache.get? key := by
  rw [get]
  cases c.cache.get? key <;> rfl

@[simp] theorem get?_get_snd (c : LRUCache ν) (key k : String) :
    (c.get key).2.cache.get? k = c.cache.get? k := by
  rw [get]
  cases c.cache.get? key with
  | none => rfl
  | some value => exact OrderedDict.get?_moveToEnd _ _ _

@[simp] theorem size_get_snd (c : LRUCache ν) (key : String) : (c.get key).2.size = c.size := by
  rw [get]
  cases c.cache.get? key with
  | none => rfl
  | some value => exact OrderedDict.size_moveToEnd _ _

@[simp] theorem capacity_get_snd (c : LRUCache ν) (key : String) :
    (c.get key).2.capacity = c.capacity := by
  rw [get]
  cases c.cache.get? key <;> rfl

@[simp] theorem get?_delete (c : LRUCache ν) (key k : String) :
    (c.delete key).cache.get? k = if k = key then none else c.cache.get? k :=
  OrderedDict.get?_erase _ _ _

theorem size_delete_le (c : LRUCache ν) (key : String) : (c.delete key).size ≤ c.size :=
  OrderedDict.size_erase_le _ _

/-! ## Putting -/

/-- The dictionary after the assignment in `put`, before the eviction. -/
def assigned (c : LRUCache ν) (key : String) (value : ν) : OrderedDict String ν :=
  (c.cache.moveToEnd key).set key value

theorem get?_assigned (c : LRUCache ν) (key : String) (value : ν) (k : String) :
    (c.assigned key value).get? k = if k = key then some value else c.cache.get? k := by
  rw [assigned, OrderedDict.get?_set, OrderedDict.get?_moveToEnd]

theorem size_assigned_le (c : LRUCache ν) (key : String) (value : ν) :
    (c.assigned key value).size ≤ c.size + 1 := by
  refine Nat.le_trans (OrderedDict.size_set_le _ _ _) ?_
  rw [OrderedDict.size_moveToEnd, size]

/-- What `put` does: it assigns, and when that exceeds the capacity it drops the
oldest key and reports it. -/
theorem put_cases (c : LRUCache ν) (key : String) (value : ν) :
    ((c.assigned key value).size ≤ c.capacity ∧
        c.put key value = (none, { c with cache := c.assigned key value })) ∨
      (c.capacity < (c.assigned key value).size ∧ ∃ evicted old rest,
        (c.assigned key value).popFirst? = some ((evicted, old), rest) ∧
          c.put key value = (some evicted, { c with cache := rest })) := by
  have hmoved : (if key ∈ c.cache then c.cache.moveToEnd key else c.cache) =
      c.cache.moveToEnd key := by
    split_ifs with h
    · rfl
    · exact (OrderedDict.moveToEnd_of_notMem h).symm
  rw [put]
  simp only [hmoved]
  rw [← assigned]
  by_cases hcap : c.capacity < (c.assigned key value).size
  · right
    rw [if_pos hcap]
    cases hpop : (c.assigned key value).popFirst? with
    | none =>
      have hzero := OrderedDict.popFirst?_eq_none hpop
      omega
    | some p =>
      obtain ⟨⟨evicted, old⟩, rest⟩ := p
      exact ⟨hcap, evicted, old, rest, rfl, rfl⟩
  · left
    rw [if_neg hcap]
    exact ⟨Nat.le_of_not_lt hcap, rfl⟩

@[simp] theorem capacity_put (c : LRUCache ν) (key : String) (value : ν) :
    (c.put key value).2.capacity = c.capacity := by
  rcases put_cases c key value with ⟨-, h⟩ | ⟨-, _, _, _, -, h⟩ <;> rw [h]

@[simp] theorem hits_put (c : LRUCache ν) (key : String) (value : ν) :
    (c.put key value).2.hits = c.hits := by
  rcases put_cases c key value with ⟨-, h⟩ | ⟨-, _, _, _, -, h⟩ <;> rw [h]

@[simp] theorem misses_put (c : LRUCache ν) (key : String) (value : ν) :
    (c.put key value).2.misses = c.misses := by
  rcases put_cases c key value with ⟨-, h⟩ | ⟨-, _, _, _, -, h⟩ <;> rw [h]

/-- `put` binds the key to the value and loses exactly the key that it reports. -/
theorem get?_put (c : LRUCache ν) (key : String) (value : ν) (k : String) :
    (c.put key value).2.cache.get? k =
      if (c.put key value).1 = some k then none
      else if k = key then some value else c.cache.get? k := by
  rcases put_cases c key value with ⟨-, h⟩ | ⟨-, evicted, old, rest, hpop, h⟩
  · rw [h, if_neg (by simp)]
    exact get?_assigned c key value k
  · rw [h]
    show rest.get? k = _
    rw [OrderedDict.popFirst?_rest_eq_erase hpop, OrderedDict.get?_erase, get?_assigned]
    by_cases hk : k = evicted
    · rw [if_pos hk, if_pos (by rw [hk])]
    · rw [if_neg hk, if_neg fun heq => hk (Option.some.inj heq).symm]

/-- What the cache holds after a `put` is what was put, or was there. -/
theorem get?_of_get?_put {c : LRUCache ν} {key k : String} {value v : ν}
    (h : (c.put key value).2.cache.get? k = some v) :
    (k = key ∧ v = value) ∨ (k ≠ key ∧ c.cache.get? k = some v) := by
  rw [get?_put] at h
  split_ifs at h with _ hk
  · exact Or.inl ⟨hk, (Option.some.inj h).symm⟩
  · exact Or.inr ⟨hk, h⟩

/-- `put` reports only the key it put or a key that was there. -/
theorem evicted_mem (c : LRUCache ν) (key : String) (value : ν) {evicted : String}
    (h : (c.put key value).1 = some evicted) : evicted = key ∨ evicted ∈ c.cache := by
  rcases put_cases c key value with ⟨-, hput⟩ | ⟨-, k, old, rest, hpop, hput⟩
  · rw [hput] at h
    cases h
  · rw [hput] at h
    obtain rfl := Option.some.inj h
    have hmem : k ∈ c.assigned key value := by
      refine List.mem_map.mpr ⟨(k, old), ?_, rfl⟩
      rw [OrderedDict.popFirst?_eq_some hpop]
      exact List.mem_cons_self
    rw [assigned, OrderedDict.mem_set, OrderedDict.mem_moveToEnd] at hmem
    exact hmem

/-- A cache within its capacity stays within it. -/
theorem size_put_le (c : LRUCache ν) (key : String) (value : ν) (h : c.size ≤ c.capacity) :
    (c.put key value).2.size ≤ c.capacity := by
  have hsize := size_assigned_le c key value
  rcases put_cases c key value with ⟨hle, hput⟩ | ⟨-, k, old, rest, hpop, hput⟩
  · rw [hput]
    exact hle
  · rw [hput]
    have hpopSize := OrderedDict.popFirst?_size hpop
    show rest.size ≤ c.capacity
    omega

end LRUCache
end Rcsce
