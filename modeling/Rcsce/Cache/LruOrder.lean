import Rcsce.Lib.Recency
import Rcsce.Cache.LRUCache

/-!
# The order of the LRU

`LRUCache` forgets the keys that it evicts, but what it keeps is a part of an order over its
whole history.  A touch is a `put`, or a `get` that finds its key.

Without `delete` the keys are the window over all keys ever put, in the order of their last
touches (`ExactLru.keys`): a key that was evicted and comes back finds the cache as it would
be if nothing were ever evicted.  With `delete` the order has gaps, and the keys in them make
room for older ones that are gone; a key stays at least as long as fewer than `capacity`
others have been touched after it (`exactly_least_recently_used`).
-/

namespace Rcsce

universe u

/-- The operations of `LRUCache`. -/
inductive LruOp (ν : Type u) where
  | put (key : String) (value : ν)
  | get (key : String)
  | delete (key : String)

namespace LruOp

variable {ν : Type u}

def isGet : LruOp ν → Bool
  | .get _ => true
  | _ => false

def isDelete : LruOp ν → Bool
  | .delete _ => true
  | _ => false

/-- The value that the operation puts under the key. -/
def valueAt (key : String) : LruOp ν → Option ν
  | .put k value => if k = key then some value else none
  | _ => none

theorem valueAt_eq_some_iff {op : LruOp ν} {key : String} {v : ν} :
    op.valueAt key = some v ↔ op = .put key v := by
  cases op with
  | put k value =>
    rw [valueAt]
    split_ifs with hk
    · simp [hk]
    · simp [hk]
  | get | delete => simp [valueAt]

end LruOp

/-- The value of the latest `put` of the key. -/
def latestPut {ν : Type u} (ops : List (LruOp ν)) (key : String) : Option ν :=
  ops.reverse.findSome? (LruOp.valueAt key)

theorem latestPut_concat {ν : Type u} (ops : List (LruOp ν)) (op : LruOp ν) (key : String) :
    latestPut (ops ++ [op]) key = (op.valueAt key).or (latestPut ops key) := by
  rw [latestPut, List.reverse_concat, List.findSome?_cons]
  cases op.valueAt key <;> rfl

theorem put_mem_of_latestPut {ν : Type u} {ops : List (LruOp ν)} {key : String} {v : ν}
    (h : latestPut ops key = some v) : .put key v ∈ ops := by
  obtain ⟨op, hop, hv⟩ := List.exists_of_findSome?_eq_some h
  exact LruOp.valueAt_eq_some_iff.mp hv ▸ List.mem_reverse.mp hop

namespace LRUCache

variable {ν : Type u} {c : LRUCache ν} {capacity : ℕ} {ops : List (LruOp ν)} {ts : List String}

/-- The cache after an operation. -/
def apply (c : LRUCache ν) : LruOp ν → LRUCache ν
  | .put key value => (c.put key value).2
  | .get key => (c.get key).2
  | .delete key => c.delete key

/-- The cache after a sequence of operations. -/
def run (c : LRUCache ν) (ops : List (LruOp ν)) : LRUCache ν := ops.foldl apply c

/-- The key that the operation touches. -/
def touched (c : LRUCache ν) : LruOp ν → List String
  | .put key _ => [key]
  | .get key => if key ∈ c.cache then [key] else []
  | .delete _ => []

/-- The keys that a sequence of operations touches, oldest touch first. -/
def touches : LRUCache ν → List (LruOp ν) → List String
  | _, [] => []
  | c, op :: ops => c.touched op ++ touches (c.apply op) ops

theorem run_concat (c : LRUCache ν) (ops : List (LruOp ν)) (op : LruOp ν) :
    c.run (ops ++ [op]) = (c.run ops).apply op := by
  rw [run, run, List.foldl_append, List.foldl_cons, List.foldl_nil]

theorem touches_concat (c : LRUCache ν) (ops : List (LruOp ν)) (op : LruOp ν) :
    c.touches (ops ++ [op]) = c.touches ops ++ (c.run ops).touched op := by
  induction ops generalizing c with
  | nil => exact List.append_nil _
  | cons op' ops ih => rw [List.cons_append, touches, touches, ih, List.append_assoc]; rfl

/-! ## The keys after an operation -/

theorem keys_assigned (c : LRUCache ν) (key : String) (value : ν) :
    (c.assigned key value).keys = c.keys.filter (· ≠ key) ++ [key] :=
  OrderedDict.keys_moveToEnd_set c.cache key value

theorem size_assigned (c : LRUCache ν) (key : String) (value : ν) :
    (c.assigned key value).size = (c.keys.filter (· ≠ key) ++ [key]).length := by
  rw [← keys_assigned c key value, OrderedDict.length_keys]

theorem nodup_keys (c : LRUCache ν) : c.keys.Nodup := c.cache.nodup_keys

/-- `put` touches the key in the order of use. -/
theorem keys_put (h : c.keys.length ≤ c.capacity) (key : String) (value : ν) :
    (c.put key value).2.keys = Recency.touch c.capacity c.keys key := by
  have hassigned := keys_assigned c key value
  have hlength : (c.keys.filter (· ≠ key)).length ≤ c.keys.length := List.length_filter_le _ _
  rw [Recency.touch, ← hassigned]
  rcases put_cases c key value with ⟨hle, hput⟩ | ⟨hlt, evicted, old, rest, hpop, hput⟩
  · rw [hput, Window.rtake_of_length_le ((OrderedDict.length_keys _).trans_le hle)]
    rfl
  · rw [hput, OrderedDict.keys_of_popFirst? hpop]
    have hrest : rest.keys.length = c.capacity := by
      rw [size_assigned, List.length_append, List.length_singleton] at hlt
      rw [OrderedDict.keys_of_popFirst? hpop] at hassigned
      have hcons := congrArg List.length hassigned
      rw [List.length_cons, List.length_append, List.length_singleton] at hcons
      omega
    exact (Window.rtake_append_of_le (l := [evicted]) hrest).symm

/-- `get` touches a key that it finds. -/
theorem keys_get (h : c.keys.length ≤ c.capacity) (key : String) :
    (c.get key).2.keys =
      if key ∈ c.cache then Recency.touch c.capacity c.keys key else c.keys := by
  rw [get]
  cases hkey : c.cache.get? key with
  | none => rw [if_neg (OrderedDict.get?_eq_none_iff.mp hkey)]; rfl
  | some value =>
    have hmem := OrderedDict.mem_of_get? hkey
    rw [if_pos hmem, Recency.touch_of_mem h hmem]
    exact OrderedDict.keys_moveToEnd_of_mem hmem

theorem keys_delete (c : LRUCache ν) (key : String) :
    (c.delete key).keys = c.keys.filter (· ≠ key) :=
  OrderedDict.keys_erase c.cache key

theorem length_keys_apply (h : c.keys.length ≤ c.capacity) (op : LruOp ν) :
    (c.apply op).keys.length ≤ (c.apply op).capacity := by
  cases op with
  | put key value =>
    show (c.put key value).2.keys.length ≤ (c.put key value).2.capacity
    rw [keys_put h, capacity_put]
    exact Window.length_rtake_le _ _
  | get key =>
    show (c.get key).2.keys.length ≤ (c.get key).2.capacity
    rw [keys_get h, capacity_get_snd]
    split_ifs
    · exact Window.length_rtake_le _ _
    · exact h
  | delete key =>
    show (c.delete key).keys.length ≤ c.capacity
    rw [keys_delete]
    exact (List.length_filter_le _ _).trans h

theorem capacity_apply (c : LRUCache ν) (op : LruOp ν) : (c.apply op).capacity = c.capacity := by
  cases op with
  | put key value => exact capacity_put c key value
  | get key => exact capacity_get_snd c key
  | delete key => rfl

/-- `put` reports the key that it evicts, the first of those it had with the new one. -/
theorem put_fst_eq_some_iff (c : LRUCache ν) (key : String) (value : ν) (evicted : String) :
    (c.put key value).1 = some evicted ↔
      (evicted = key ∨ evicted ∈ c.keys) ∧ evicted ∉ (c.put key value).2.keys := by
  have hmem : ∀ k, k ∈ (c.assigned key value).keys ↔ k = key ∨ k ∈ c.keys := by
    intro k
    rw [keys_assigned, List.mem_append, List.mem_filter, List.mem_singleton, decide_eq_true_iff]
    tauto
  rcases put_cases c key value with ⟨-, hput⟩ | ⟨-, k, old, rest, hpop, hput⟩
  · rw [hput, ← hmem]
    exact iff_of_false (fun h => nomatch h) fun h => h.2 h.1
  · have hkeys := OrderedDict.keys_of_popFirst? hpop
    have hnodup : (k :: rest.keys).Nodup := hkeys ▸ (c.assigned key value).nodup_keys
    rw [hput, ← hmem, hkeys, Option.some.injEq, List.mem_cons]
    constructor
    · rintro rfl
      exact ⟨Or.inl rfl, (List.nodup_cons.mp hnodup).1⟩
    · rintro ⟨rfl | hrest, hnot⟩
      · rfl
      · exact absurd hrest hnot

theorem keys_assigned_of_put {key : String} {value : ν} {evicted : String}
    (h : (c.put key value).1 = some evicted) :
    ∃ rest, c.keys.filter (· ≠ key) ++ [key] = evicted :: rest := by
  rw [← keys_assigned c key value]
  rcases put_cases c key value with ⟨-, hput⟩ | ⟨-, k, old, rest, hpop, hput⟩
  · rw [hput] at h
    cases h
  · rw [hput] at h
    obtain rfl := Option.some.inj h
    exact ⟨rest.keys, OrderedDict.keys_of_popFirst? hpop⟩

/-! ## The history -/

/-- What the cache is, after operations without a `delete` that have touched `ts`. -/
structure ExactLru (capacity : ℕ) (ops : List (LruOp ν)) (c : LRUCache ν) (ts : List String) :
    Prop where
  /-- The keys that were touched are those that were put. -/
  everPut : ∀ k, k ∈ ts ↔ ∃ v, .put k v ∈ ops
  /-- `ts.dedup` lists them by their last touches, -/
  order : ts.dedup.Pairwise fun k k' => Recency.age ts k' < Recency.age ts k
  /-- and the cache has the last `capacity` of them, -/
  keys : c.keys = ts.dedup.rtake capacity
  /-- each with the value of its latest `put`. -/
  value : ∀ k, c.cache.get? k = if k ∈ c.keys then latestPut ops k else none
  get : ∀ k, (c.get k).1 = c.cache.get? k
  /-- `put` reports the one key that it evicts, if it evicts one, -/
  evicted_iff : ∀ k v e, (c.put k v).1 = some e ↔
    (e = k ∨ e ∈ c.keys) ∧ e ∉ (c.put k v).2.keys
  /-- and that is the one with the oldest last touch. -/
  oldest : ∀ k v e, (c.put k v).1 = some e → ∀ k', k' = k ∨ k' ∈ c.keys → k' ≠ e →
    Recency.age (ts ++ [k]) k' < Recency.age (ts ++ [k]) e
  counts : c.hits + c.misses = ops.countP LruOp.isGet

/-- The values are those of the latest `put`s, also with `delete`. -/
theorem latestPut_of_get? (capacity : ℕ) (ops : List (LruOp ν)) {key : String} {v : ν}
    (h : ((new capacity).run ops).cache.get? key = some v) : latestPut ops key = some v := by
  induction ops using List.reverseRecOn with
  | nil => cases h
  | append_singleton ops op ih =>
    rw [run_concat] at h
    rw [latestPut_concat]
    cases op with
    | put k value =>
      rw [LruOp.valueAt]
      rcases get?_of_get?_put h with ⟨rfl, rfl⟩ | ⟨hk, h'⟩
      · rw [if_pos rfl, Option.some_or]
      · rw [if_neg fun heq => hk heq.symm, Option.none_or]
        exact ih h'
    | get k =>
      rw [apply, get?_get_snd] at h
      exact ih h
    | delete k =>
      rw [apply, get?_delete] at h
      split_ifs at h
      exact ih h

theorem length_keys_run (capacity : ℕ) (ops : List (LruOp ν)) :
    ((new capacity).run ops).keys.length ≤ capacity ∧
      ((new capacity).run ops).capacity = capacity := by
  induction ops using List.reverseRecOn with
  | nil => exact ⟨Nat.zero_le _, rfl⟩
  | append_singleton ops op ih =>
    obtain ⟨hlength, hcapacity⟩ := ih
    have hcap : (((new capacity).run ops).apply op).capacity = capacity :=
      (capacity_apply _ op).trans hcapacity
    rw [run_concat]
    exact ⟨(length_keys_apply (hlength.trans_eq hcapacity.symm) op).trans_eq hcap, hcap⟩

/-- A key is touched when it was put. -/
theorem put_of_touched (capacity : ℕ) (ops : List (LruOp ν)) {op : LruOp ν} {key : String}
    (h : key ∈ ((new capacity).run ops).touched op) : ∃ v, .put key v ∈ ops ++ [op] := by
  cases op with
  | put k v =>
    obtain rfl := List.mem_singleton.mp h
    exact ⟨v, List.mem_append_right _ List.mem_cons_self⟩
  | get k =>
    rw [touched] at h
    split_ifs at h with hmem
    · obtain rfl := List.mem_singleton.mp h
      obtain ⟨v, hv⟩ := OrderedDict.mem_iff_get?.mp hmem
      exact ⟨v, List.mem_append_left _ (put_mem_of_latestPut (latestPut_of_get? _ _ hv))⟩
    · exact absurd h List.not_mem_nil
  | delete k => exact absurd h List.not_mem_nil

theorem mem_touches_iff (capacity : ℕ) (ops : List (LruOp ν)) (key : String) :
    key ∈ (new capacity).touches ops ↔ ∃ v, .put key v ∈ ops := by
  induction ops using List.reverseRecOn with
  | nil => exact iff_of_false List.not_mem_nil fun h => List.not_mem_nil h.choose_spec
  | append_singleton ops op ih =>
    rw [touches_concat, List.mem_append, ih]
    constructor
    · rintro (⟨v, hv⟩ | htouched)
      · exact ⟨v, List.mem_append_left _ hv⟩
      · exact put_of_touched capacity ops htouched
    · rintro ⟨v, hv⟩
      rcases List.mem_append.mp hv with hold | hnew
      · exact Or.inl ⟨v, hold⟩
      · rw [← List.mem_singleton.mp hnew]
        exact Or.inr List.mem_cons_self

/-- The keys are the window over the order of the last touches. -/
theorem keys_run (capacity : ℕ) {ops : List (LruOp ν)} (hops : ∀ op ∈ ops, op.isDelete = false) :
    ((new capacity).run ops).keys = ((new capacity).touches ops).dedup.rtake capacity := by
  induction ops using List.reverseRecOn with
  | nil => exact (List.rtake_nil capacity).symm
  | append_singleton ops op ih =>
    have hkeys := ih fun op' hop' => hops op' (List.mem_append_left _ hop')
    obtain ⟨hlength, hcapacity⟩ := length_keys_run capacity ops
    have hle := hlength.trans_eq hcapacity.symm
    have htouch : ∀ key, Recency.touch ((new capacity).run ops).capacity
        ((new capacity).run ops).keys key =
          ((new capacity).touches ops ++ [key]).dedup.rtake capacity := by
      intro key
      rw [hcapacity, hkeys, Recency.touch_rtake_dedup]
    rw [run_concat, touches_concat]
    cases op with
    | put key value => rw [apply, keys_put hle, htouch, touched]
    | get key =>
      rw [apply, keys_get hle, htouch, touched]
      split_ifs
      · rfl
      · rw [hkeys, List.append_nil]
    | delete key => cases hops _ (List.mem_append_right _ List.mem_cons_self)

theorem counts_run (capacity : ℕ) (ops : List (LruOp ν)) :
    ((new capacity).run ops).hits + ((new capacity).run ops).misses =
      ops.countP LruOp.isGet := by
  induction ops using List.reverseRecOn with
  | nil => rfl
  | append_singleton ops op ih =>
    rw [run_concat, List.countP_append, ← ih, List.countP_singleton]
    cases op with
    | put key value =>
      rw [apply, hits_put, misses_put]
      rfl
    | get key =>
      rw [apply, get]
      cases ((new capacity).run ops).cache.get? key with
      | none => exact (Nat.add_assoc _ _ 1).symm
      | some value => exact Nat.add_right_comm _ 1 _
    | delete key => rfl

/-- Without `delete`, the cache is exactly least recently used. -/
theorem exactLru_run (capacity : ℕ) {ops : List (LruOp ν)}
    (hops : ∀ op ∈ ops, op.isDelete = false) :
    ExactLru capacity ops ((new capacity).run ops) ((new capacity).touches ops) where
  everPut := mem_touches_iff capacity ops
  order := Recency.pairwise_age_dedup _
  keys := keys_run capacity hops
  value k := by
    split_ifs with hk
    · obtain ⟨v, hv⟩ := OrderedDict.mem_iff_get?.mp hk
      rw [hv, latestPut_of_get? capacity ops hv]
    · exact OrderedDict.get?_eq_none_iff.mpr hk
  get k := get_fst _ k
  evicted_iff k v e := put_fst_eq_some_iff _ k v e
  oldest k v e he k' hk' hne := by
    obtain ⟨rest, hassigned⟩ := keys_assigned_of_put he
    -- the keys with the new one are a part of the order after the touch
    have hsub : (e :: rest).Sublist ((new capacity).touches ops ++ [k]).dedup := by
      rw [← hassigned, Recency.dedup_concat, keys_run capacity hops]
      exact ((Window.rtake_suffix _ _).sublist.filter _).append_right _
    have hage := List.pairwise_cons.mp ((Recency.pairwise_age_dedup _).sublist hsub)
    have hmem : k' ∈ e :: rest := by
      rw [← hassigned, List.mem_append, List.mem_filter, List.mem_singleton, decide_eq_true_iff]
      tauto
    exact hage.1 k' ((List.mem_cons.mp hmem).resolve_left hne)
  counts := counts_run capacity ops

/-! ## With `delete` -/

/-- One operation, other than a `delete` of the key: only what is touched comes behind it. -/
theorem followedBy_apply {key : String} {S : Finset String} (hle : c.keys.length ≤ c.capacity)
    (h : Recency.FollowedBy c.keys key S) {op : LruOp ν} (hop : op ≠ .delete key)
    (hcard : ((S ∪ (c.touched op).toFinset).erase key).card < c.capacity) :
    Recency.FollowedBy (c.apply op).keys key (S ∪ (c.touched op).toFinset) := by
  have htouch : ∀ k, ((S ∪ {k}).erase key).card < c.capacity →
      Recency.FollowedBy (Recency.touch c.capacity c.keys k) key (S ∪ {k}) := by
    intro k hk
    by_cases hne : k = key
    · subst hne
      exact Recency.FollowedBy.touch_self (Nat.zero_lt_of_lt hk) _ _ _
    · rw [Finset.union_comm, ← Finset.insert_eq] at hk ⊢
      exact h.touch c.nodup_keys hne hk
  have hsame : S ∪ ([] : List String).toFinset = S := Finset.union_empty S
  cases op with
  | put k value =>
    rw [apply, keys_put hle]
    exact htouch k hcard
  | get k =>
    rw [apply, keys_get hle]
    rw [touched] at hcard ⊢
    split_ifs at hcard ⊢
    · exact htouch k hcard
    · rw [hsame]
      exact h
  | delete k =>
    have hne : key ≠ k := fun heq => hop (by rw [heq])
    rw [apply, keys_delete]
    exact hsame.symm ▸ h.filter hne

/-- After a touch, a key stays as long as fewer than `capacity` others are touched. -/
theorem followedBy_run {key : String} (S : Finset String) (after : List (LruOp ν))
    (hle : c.keys.length ≤ c.capacity) (h : Recency.FollowedBy c.keys key S)
    (hafter : .delete key ∉ after)
    (hcard : ((S ∪ (c.touches after).toFinset).erase key).card < c.capacity) :
    key ∈ (c.run after).keys := by
  induction after generalizing c S with
  | nil => exact h.mem
  | cons op after ih =>
    have hop : op ≠ .delete key := fun heq => hafter (heq ▸ List.mem_cons_self)
    have hunion : S ∪ (c.touches (op :: after)).toFinset =
        (S ∪ (c.touched op).toFinset) ∪ ((c.apply op).touches after).toFinset := by
      rw [touches, List.toFinset_append, Finset.union_assoc]
    rw [hunion] at hcard
    have hfirst : ((S ∪ (c.touched op).toFinset).erase key).card < c.capacity :=
      (Finset.card_le_card (Finset.erase_subset_erase _ Finset.subset_union_left)).trans_lt hcard
    rw [← capacity_apply c op] at hcard
    exact ih _ (length_keys_apply hle op) (followedBy_apply hle h hop hfirst)
      (fun hmem => hafter (List.mem_cons_of_mem _ hmem)) hcard

/-- The key that an operation has touched is the most recent. -/
theorem followedBy_touched {key : String} (hle : c.keys.length ≤ c.capacity)
    (hpos : 0 < c.capacity) {op : LruOp ν} (h : c.touched op = [key]) :
    Recency.FollowedBy (c.apply op).keys key ∅ := by
  cases op with
  | put k value =>
    obtain rfl := List.singleton_inj.mp h
    rw [apply, keys_put hle]
    exact Recency.FollowedBy.touch_self hpos _ _ _
  | get k =>
    rw [touched] at h
    rw [apply, keys_get hle]
    split_ifs at h ⊢
    obtain rfl := List.singleton_inj.mp h
    exact Recency.FollowedBy.touch_self hpos _ _ _
  | delete k => cases h

/-- **The LRU cache is exactly least recently used.**  A key that is not deleted stays as long
as fewer than `capacity` others are touched after it. -/
theorem exactly_least_recently_used (capacity : ℕ) :
    (∀ ops : List (LruOp ν), (∀ op ∈ ops, op.isDelete = false) →
      ExactLru capacity ops ((new capacity).run ops) ((new capacity).touches ops)) ∧
    ∀ (before after : List (LruOp ν)) (op : LruOp ν) (key : String),
      ((new capacity).run before).touched op = [key] → .delete key ∉ after →
        ((((new capacity).run (before ++ [op])).touches after).toFinset.erase key).card <
          capacity →
        key ∈ ((new capacity).run (before ++ op :: after)).keys := by
  refine ⟨fun ops hops => exactLru_run capacity hops,
    fun before after op key htouched hafter hcard => ?_⟩
  obtain ⟨hlength, hcapacity⟩ := length_keys_run capacity before
  have hle := hlength.trans_eq hcapacity.symm
  have hpos : 0 < ((new capacity).run before).capacity :=
    hcapacity.symm ▸ Nat.zero_lt_of_lt hcard
  have hrun : (new capacity).run (before ++ op :: after) =
      (((new capacity).run before).apply op).run after := by
    rw [run, run, run, List.foldl_append, List.foldl_cons]
  rw [run_concat] at hcard
  rw [hrun]
  refine followedBy_run ∅ after (length_keys_apply hle op)
    (followedBy_touched hle hpos htouched) hafter ?_
  rw [Finset.empty_union, capacity_apply, hcapacity]
  exact hcard

/-- Two keys fit.  The first one is used again, so the third takes the place of the second;
and the second is deleted before it comes back, which the first one survives. -/
theorem exactly_least_recently_used_two :
    ((new 2).run [.put "a" 1, .put "b" 2, .get "a", .put "c" 3]).keys = ["a", "c"] ∧
      "a" ∈ ((new 2).run ([.put "a" 1, .put "b" 2] ++ .get "a" ::
        [.delete "b", .put "b" 4])).keys := by
  obtain ⟨hexact, hstays⟩ := exactly_least_recently_used (ν := ℕ) 2
  constructor
  · rw [(hexact _ (by decide)).keys]
    rfl
  · exact hstays _ _ _ _ (by decide) (by simp) (by decide)

end LRUCache
end Rcsce
