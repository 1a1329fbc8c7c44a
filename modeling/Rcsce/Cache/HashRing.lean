import Rcsce.Lib.Bisect
import Rcsce.Lib.OrderedDict
import Rcsce.Lib.SortedJoin

/-!
# The consistent hash ring of the cache client

`ConsistentHashRing` of `cache/cache_common.py`, over a hash function from strings to
numbers.  A node stands on the ring at the hashes of its labels `node#0`, `node#1`, …,
and a key belongs to the node whose point follows the hash of the key.

## 1.  Labels

A label determines its node and its replica (`label_inj`), although a node name is an
arbitrary string and may itself contain `#`: no decimal numeral does, so the last `#` of
a label is the one that separates.  With a hash that is collision-free on the labels
of the names in use, points determine them too.

## 2.  The representation

`Represents` ties the dictionary and the ordered list to the set of nodes.  Adding and
removing keep it, whichever names are repeated or unknown, so it holds after every
history (`represents_run`).  Routing then depends on the set alone
(`getNode_eq_of_nodes_eq`).
-/

namespace Rcsce

/-- What a subscript raises. -/
inductive LookupError where
  | indexError
  | keyError (point : ℕ)
  deriving DecidableEq

/-- `ConsistentHashRing`. -/
structure ConsistentHashRing where
  virtualReplicas : ℕ
  ring : OrderedDict ℕ String
  sortedKeys : List ℕ
  nodes : Finset String
  deriving DecidableEq

namespace ConsistentHashRing

/-! ## 1.  Labels -/

/-- `f"{node}#{i}"`. -/
def label (node : String) (i : ℕ) : String := node ++ "#" ++ toString i

theorem hash_notMem_toDigits (i : ℕ) : '#' ∉ Nat.toDigits 10 i := by
  intro h
  have hdigit := Nat.isDigit_of_mem_toDigits (by decide) (by decide) h
  exact absurd hdigit (by decide)

theorem toDigits_inj {i j : ℕ} (h : Nat.toDigits 10 i = Nat.toDigits 10 j) : i = j := by
  rw [← Nat.ofDigitChars_ten_toDigits (n := i), h, Nat.ofDigitChars_ten_toDigits]

/-- The last separator splits a list in one way. -/
theorem append_cons_inj_of_notMem_right {α : Type} {a : α} {x y s t : List α} (hs : a ∉ s)
    (ht : a ∉ t) (h : x ++ a :: s = y ++ a :: t) : x = y ∧ s = t := by
  rcases List.append_eq_append_iff.mp h with ⟨m, hy, hm⟩ | ⟨m, hx, hm⟩
  · cases m with
    | nil => exact ⟨by rw [hy, List.append_nil], (List.cons.inj hm).2⟩
    | cons b m =>
      refine absurd ?_ hs
      rw [(List.cons.inj hm).2]
      exact List.mem_append_right _ List.mem_cons_self
  · cases m with
    | nil => exact ⟨by rw [hx, List.append_nil], (List.cons.inj hm).2.symm⟩
    | cons b m =>
      refine absurd ?_ ht
      rw [(List.cons.inj hm).2]
      exact List.mem_append_right _ List.mem_cons_self

theorem toList_label (node : String) (i : ℕ) :
    (label node i).toList = node.toList ++ '#' :: Nat.toDigits 10 i := by
  have hsep : "#".toList = ['#'] := rfl
  rw [label, String.toList_append, String.toList_append, hsep, Nat.toString_eq_ofList_toDigits,
    String.toList_ofList, List.append_assoc, List.singleton_append]

/-- A label determines its node and its replica. -/
theorem label_inj {n m : String} {i j : ℕ} (h : label n i = label m j) : n = m ∧ i = j := by
  have hlist := congrArg String.toList h
  rw [toList_label, toList_label] at hlist
  obtain ⟨hname, hdigits⟩ := append_cons_inj_of_notMem_right (hash_notMem_toDigits i)
    (hash_notMem_toDigits j) hlist
  exact ⟨String.ext hname, toDigits_inj hdigits⟩

/-! ## The ring -/

variable (hash : String → ℕ)

/-- `ConsistentHashRing.add_node`. -/
def addNode (r : ConsistentHashRing) (node : String) : ConsistentHashRing :=
  if node ∈ r.nodes then r
  else
    let added := (List.range r.virtualReplicas).foldl (fun acc i =>
      let h := hash (label node i)
      (acc.1.set h node, acc.2 ++ [h])) (r.ring, r.sortedKeys)
    { r with
      nodes := insert node r.nodes
      ring := added.1
      sortedKeys := added.2.insertionSort (· ≤ ·) }

/-- `ConsistentHashRing.remove_node`. -/
def removeNode (r : ConsistentHashRing) (node : String) : ConsistentHashRing :=
  if node ∈ r.nodes then
    let ring := (List.range r.virtualReplicas).foldl (fun acc i =>
      acc.erase (hash (label node i))) r.ring
    { r with
      nodes := r.nodes.erase node
      ring := ring
      sortedKeys := ring.keys.insertionSort (· ≤ ·) }
  else r

/-- `ConsistentHashRing.get_node`.  Either subscript may raise. -/
def getNode (r : ConsistentHashRing) (key : String) : Except LookupError (Option String) :=
  if r.ring.size = 0 then .ok none
  else
    let idx := bisectRight r.sortedKeys (hash key)
    match r.sortedKeys[if idx = r.sortedKeys.length then 0 else idx]? with
    | none => .error .indexError
    | some point =>
      match r.ring.get? point with
      | none => .error (.keyError point)
      | some node => .ok (some node)

/-- `ConsistentHashRing.__init__` before the loop over the nodes. -/
def empty (virtualReplicas : ℕ) : ConsistentHashRing := ⟨virtualReplicas, .empty, [], ∅⟩

/-- `ConsistentHashRing.__init__`. -/
def new (nodes : List String) (virtualReplicas : ℕ) : ConsistentHashRing :=
  nodes.foldl (addNode hash) (empty virtualReplicas)

/-- One call that changes the ring. -/
inductive Op where
  | add (node : String)
  | remove (node : String)
  deriving DecidableEq

/-- The node that the call names. -/
def Op.node : Op → String
  | .add node | .remove node => node

/-- The ring after one call. -/
def apply (r : ConsistentHashRing) : Op → ConsistentHashRing
  | .add node => r.addNode hash node
  | .remove node => r.removeNode hash node

/-- The ring after a sequence of calls. -/
def run (r : ConsistentHashRing) (ops : List Op) : ConsistentHashRing :=
  ops.foldl (apply hash) r

theorem new_eq_run (nodes : List String) (virtualReplicas : ℕ) :
    new hash nodes virtualReplicas = run hash (empty virtualReplicas) (nodes.map .add) := by
  rw [new, run, List.foldl_map]
  rfl

/-! ## 2.  The representation -/

/-- No two different labels of the given names have the same hash. -/
def CollisionFree (replicas : ℕ) (names : Set String) : Prop :=
  ∀ n ∈ names, ∀ m ∈ names, ∀ i < replicas, ∀ j < replicas,
    hash (label n i) = hash (label m j) → label n i = label m j

/-- `p` is a point of one of the nodes, and `n` is that node. -/
def Owns (replicas : ℕ) (nodes : Set String) (p : ℕ) (n : String) : Prop :=
  n ∈ nodes ∧ ∃ i < replicas, p = hash (label n i)

/-- The dictionary holds the points of the nodes, and the list orders its keys. -/
structure Represents (r : ConsistentHashRing) : Prop where
  owner : ∀ p n, r.ring.get? p = some n ↔ Owns hash r.virtualReplicas r.nodes p n
  sorted : r.sortedKeys = r.ring.keys.insertionSort (· ≤ ·)

variable {hash}

/-- Points determine their labels. -/
theorem CollisionFree.point_inj {replicas : ℕ} {names : Set String}
    (h : CollisionFree hash replicas names) {n m : String} {i j : ℕ} (hn : n ∈ names)
    (hm : m ∈ names) (hi : i < replicas) (hj : j < replicas)
    (heq : hash (label n i) = hash (label m j)) : n = m ∧ i = j :=
  label_inj (h n hn m hm i hi j hj heq)

/-- The points of one node are distinct. -/
theorem CollisionFree.nodup_points {replicas : ℕ} {names : Set String}
    (h : CollisionFree hash replicas names) {node : String} (hn : node ∈ names) :
    ((List.range replicas).map fun i => hash (label node i)).Nodup := by
  refine List.Nodup.map_on (fun i hi j hj heq => ?_) List.nodup_range
  exact (h.point_inj hn hn (List.mem_range.mp hi) (List.mem_range.mp hj) heq).2

theorem mem_points {replicas : ℕ} {node : String} {p : ℕ} :
    (p ∈ (List.range replicas).map fun i => hash (label node i)) ↔
      ∃ i < replicas, p = hash (label node i) := by
  simp only [List.mem_map, List.mem_range, eq_comm]

/-- The loop of `add_node`, one variable at a time. -/
theorem addNode_loop (node : String) (is : List ℕ) (ring : OrderedDict ℕ String)
    (keys : List ℕ) :
    is.foldl (fun acc i => (acc.1.set (hash (label node i)) node,
        acc.2 ++ [hash (label node i)])) (ring, keys) =
      (is.foldl (fun acc i => acc.set (hash (label node i)) node) ring,
        keys ++ is.map fun i => hash (label node i)) := by
  induction is generalizing ring keys with
  | nil => simp
  | cons i is ih => rw [List.foldl_cons, ih, List.foldl_cons, List.map_cons, List.append_assoc,
      List.singleton_append]

namespace Represents

variable {r : ConsistentHashRing}

theorem empty (replicas : ℕ) : Represents hash (.empty replicas) where
  owner := by
    intro p n
    refine iff_of_false (fun h => nomatch h) ?_
    rintro ⟨hn, -⟩
    exact absurd hn (Finset.notMem_empty n)
  sorted := rfl

theorem mem_ring (h : Represents hash r) {p : ℕ} :
    p ∈ r.ring ↔ ∃ n, Owns hash r.virtualReplicas r.nodes p n := by
  rw [OrderedDict.mem_iff_get?]
  exact exists_congr fun n => h.owner p n

theorem addNode (h : Represents hash r) {names : Set String}
    (hfree : CollisionFree hash r.virtualReplicas names) (hsub : ↑r.nodes ⊆ names)
    {node : String} (hnode : node ∈ names) : Represents hash (r.addNode hash node) := by
  rw [ConsistentHashRing.addNode]
  split_ifs with hmem
  · exact h
  dsimp only
  rw [addNode_loop]
  -- none of the points of the new node is on the ring yet
  have hnew : ∀ p ∈ (List.range r.virtualReplicas).map fun i => hash (label node i),
      p ∉ r.ring := by
    intro p hp hin
    obtain ⟨i, hi, rfl⟩ := mem_points.mp hp
    obtain ⟨n, hn, j, hj, heq⟩ := h.mem_ring.mp hin
    obtain ⟨rfl, -⟩ := hfree.point_inj hnode (hsub hn) hi hj heq
    exact hmem hn
  refine ⟨fun p n => ?_, ?_⟩
  · show OrderedDict.get? (List.foldl _ _ _) p = some n ↔ _
    rw [OrderedDict.get?_foldl_set]
    by_cases hp : p ∈ (List.range r.virtualReplicas).map fun i => hash (label node i)
    · rw [if_pos hp]
      constructor
      · intro heq
        obtain rfl := Option.some.inj heq
        exact ⟨Finset.mem_coe.mpr (Finset.mem_insert_self _ _), mem_points.mp hp⟩
      · rintro ⟨hn, hpoint⟩
        rcases Finset.mem_insert.mp (Finset.mem_coe.mp hn) with rfl | hold
        · rfl
        · exact absurd (h.mem_ring.mpr ⟨n, hold, hpoint⟩) (hnew p hp)
    · rw [if_neg hp, h.owner]
      constructor
      · rintro ⟨hn, hpoint⟩
        exact ⟨Finset.mem_coe.mpr (Finset.mem_insert_of_mem hn), hpoint⟩
      · rintro ⟨hn, hpoint⟩
        rcases Finset.mem_insert.mp (Finset.mem_coe.mp hn) with rfl | hold
        · exact absurd (mem_points.mpr hpoint) hp
        · exact ⟨hold, hpoint⟩
  · show List.insertionSort _ (_ ++ _) = List.insertionSort _ (OrderedDict.keys (List.foldl _ _ _))
    rw [OrderedDict.keys_foldl_set _ _ _ _ (hfree.nodup_points hnode) hnew, h.sorted]
    exact insertionSort_eq_iff_perm.mpr ((List.perm_insertionSort _ _).append_right _)

theorem removeNode (h : Represents hash r) {names : Set String}
    (hfree : CollisionFree hash r.virtualReplicas names) (hsub : ↑r.nodes ⊆ names)
    (node : String) : Represents hash (r.removeNode hash node) := by
  rw [ConsistentHashRing.removeNode]
  split_ifs with hmem
  · refine ⟨fun p n => ?_, rfl⟩
    show OrderedDict.get? (List.foldl _ _ _) p = some n ↔ _
    rw [OrderedDict.get?_foldl_erase]
    by_cases hp : p ∈ (List.range r.virtualReplicas).map fun i => hash (label node i)
    · rw [if_pos hp]
      refine iff_of_false (fun heq => nomatch heq) ?_
      rintro ⟨hn, j, hj, heq⟩
      obtain ⟨hne, hold⟩ := Finset.mem_erase.mp (Finset.mem_coe.mp hn)
      obtain ⟨i, hi, hpi⟩ := mem_points.mp hp
      exact hne (hfree.point_inj (hsub hold) (hsub hmem) hj hi (heq.symm.trans hpi)).1
    · rw [if_neg hp, h.owner]
      constructor
      · rintro ⟨hn, hpoint⟩
        refine ⟨Finset.mem_coe.mpr (Finset.mem_erase.mpr ⟨?_, hn⟩), hpoint⟩
        rintro rfl
        exact hp (mem_points.mpr hpoint)
      · rintro ⟨hn, hpoint⟩
        exact ⟨(Finset.mem_erase.mp (Finset.mem_coe.mp hn)).2, hpoint⟩
  · exact h

end Represents

@[simp] theorem virtualReplicas_apply (r : ConsistentHashRing) (op : Op) :
    (r.apply hash op).virtualReplicas = r.virtualReplicas := by
  cases op with
  | add node => rw [apply, addNode]; split_ifs <;> rfl
  | remove node => rw [apply, removeNode]; split_ifs <;> rfl

/-- The set of nodes after a call. -/
theorem nodes_addNode (hash : String → ℕ) (r : ConsistentHashRing) (node : String) :
    (r.addNode hash node).nodes = insert node r.nodes := by
  rw [addNode]
  split_ifs with h
  · exact (Finset.insert_eq_of_mem h).symm
  · rfl

theorem nodes_removeNode (hash : String → ℕ) (r : ConsistentHashRing) (node : String) :
    (r.removeNode hash node).nodes = r.nodes.erase node := by
  rw [removeNode]
  split_ifs with h
  · rfl
  · exact (Finset.erase_eq_of_notMem h).symm

theorem nodes_apply_subset {r : ConsistentHashRing} {names : Set String}
    (hsub : ↑r.nodes ⊆ names) {op : Op} (hop : op.node ∈ names) :
    ↑(r.apply hash op).nodes ⊆ names := by
  intro n hn
  cases op with
  | add node =>
    rw [apply, nodes_addNode, Finset.coe_insert] at hn
    rcases hn with rfl | hold
    · exact hop
    · exact hsub hold
  | remove node =>
    rw [apply, nodes_removeNode, Finset.coe_erase] at hn
    exact hsub hn.1

/-- Whatever the hash does, every point on the ring is a point of a live node. -/
def OwnersLive (hash : String → ℕ) (r : ConsistentHashRing) : Prop :=
  ∀ p n, r.ring.get? p = some n → Owns hash r.virtualReplicas r.nodes p n

theorem ownersLive_empty (replicas : ℕ) : OwnersLive hash (.empty replicas) :=
  fun _ _ h => nomatch h

theorem OwnersLive.apply {r : ConsistentHashRing} (h : OwnersLive hash r) (op : Op) :
    OwnersLive hash (r.apply hash op) := by
  intro p n hget
  cases op with
  | add node =>
    rw [ConsistentHashRing.apply, addNode] at hget ⊢
    split_ifs at hget ⊢ with hmem
    · exact h p n hget
    dsimp only at hget
    rw [addNode_loop, OrderedDict.get?_foldl_set] at hget
    split_ifs at hget with hp
    · obtain rfl := Option.some.inj hget
      exact ⟨Finset.mem_coe.mpr (Finset.mem_insert_self _ _), mem_points.mp hp⟩
    · obtain ⟨hn, hpoint⟩ := h p n hget
      exact ⟨Finset.mem_coe.mpr (Finset.mem_insert_of_mem hn), hpoint⟩
  | remove node =>
    rw [ConsistentHashRing.apply, removeNode] at hget ⊢
    split_ifs at hget ⊢ with hmem
    · dsimp only at hget
      rw [OrderedDict.get?_foldl_erase] at hget
      split_ifs at hget with hp
      obtain ⟨hn, hpoint⟩ := h p n hget
      refine ⟨Finset.mem_coe.mpr (Finset.mem_erase.mpr ⟨?_, hn⟩), hpoint⟩
      rintro rfl
      exact hp (mem_points.mpr hpoint)
    · exact h p n hget

theorem ownersLive_run {r : ConsistentHashRing} (h : OwnersLive hash r) (ops : List Op) :
    OwnersLive hash (r.run hash ops) := by
  induction ops generalizing r with
  | nil => exact h
  | cons op ops ih => exact ih (h.apply op)

/-- A key is never routed to a node that is not live. -/
theorem OwnersLive.mem_of_getNode {r : ConsistentHashRing} (h : OwnersLive hash r)
    {key n : String} (hget : r.getNode hash key = .ok (some n)) : n ∈ r.nodes := by
  rw [getNode] at hget
  split_ifs at hget
  · cases hget
  · dsimp only at hget
    split at hget
    · cases hget
    · rename_i point _
      split at hget
      · cases hget
      · rename_i node hnode
        cases hget
        exact (h point n hnode).1

/-- One call keeps the representation. -/
theorem represents_apply {r : ConsistentHashRing} (h : Represents hash r) {names : Set String}
    (hfree : CollisionFree hash r.virtualReplicas names) (hsub : ↑r.nodes ⊆ names) {op : Op}
    (hop : op.node ∈ names) : Represents hash (r.apply hash op) := by
  cases op with
  | add node => exact h.addNode hfree hsub hop
  | remove node => exact h.removeNode hfree hsub node

/-- Every history keeps it. -/
theorem represents_run {r : ConsistentHashRing} (h : Represents hash r) {names : Set String}
    (hfree : CollisionFree hash r.virtualReplicas names) (hsub : ↑r.nodes ⊆ names)
    {ops : List Op} (hops : ∀ op ∈ ops, op.node ∈ names) :
    Represents hash (r.run hash ops) ∧ ↑(r.run hash ops).nodes ⊆ names ∧
      (r.run hash ops).virtualReplicas = r.virtualReplicas := by
  induction ops generalizing r with
  | nil => exact ⟨h, hsub, rfl⟩
  | cons op ops ih =>
    have hop := hops op List.mem_cons_self
    obtain ⟨hrep, hnames, hreplicas⟩ := ih (represents_apply h hfree hsub hop)
      ((virtualReplicas_apply r op).symm ▸ hfree) (nodes_apply_subset hsub hop)
      fun op' hop' => hops op' (List.mem_cons_of_mem _ hop')
    exact ⟨hrep, hnames, hreplicas.trans (virtualReplicas_apply r op)⟩

namespace Represents

variable {r r' : ConsistentHashRing}

/-- The list is strictly ordered and lists the keys. -/
theorem sortedKeys_perm (h : Represents hash r) : r.sortedKeys.Perm r.ring.keys := by
  rw [h.sorted]
  exact List.perm_insertionSort _ _

theorem sortedLE (h : Represents hash r) : r.sortedKeys.Pairwise (· ≤ ·) := by
  rw [h.sorted]
  exact List.pairwise_insertionSort _ _

theorem sortedLT (h : Represents hash r) : r.sortedKeys.Pairwise (· < ·) := by
  have hnodup := h.sortedKeys_perm.nodup_iff.mpr r.ring.nodup_keys
  exact List.Pairwise.imp₂ (fun _ _ hle hne => lt_of_le_of_ne hle hne) h.sortedLE hnodup

/-- With at least one replica the ring is empty only when there is no node. -/
theorem size_eq_zero (h : Represents hash r) (hreplicas : 1 ≤ r.virtualReplicas) :
    r.ring.size = 0 ↔ r.nodes = ∅ := by
  rw [← OrderedDict.length_keys, List.length_eq_zero_iff]
  constructor
  · intro hkeys
    refine Finset.eq_empty_of_forall_notMem fun n hn => ?_
    have hin : hash (label n 0) ∈ r.ring := h.mem_ring.mpr ⟨n, hn, 0, hreplicas, rfl⟩
    rw [OrderedDict.mem_def, hkeys] at hin
    exact List.not_mem_nil hin
  · intro hnodes
    refine List.eq_nil_iff_forall_not_mem.mpr fun p hp => ?_
    obtain ⟨n, hn, -⟩ := h.mem_ring.mp hp
    rw [hnodes] at hn
    exact absurd hn (Finset.notMem_empty n)

theorem getNode_empty (h : Represents hash r) (hreplicas : 1 ≤ r.virtualReplicas)
    (hnodes : r.nodes = ∅) (key : String) : r.getNode hash key = .ok none := by
  rw [getNode, if_pos ((h.size_eq_zero hreplicas).mpr hnodes)]

/-- **Routing.**  While there is a node, a key goes to the owner of the next point. -/
theorem getNode_spec (h : Represents hash r) (hreplicas : 1 ≤ r.virtualReplicas)
    (hnodes : r.nodes ≠ ∅) (key : String) :
    ∃ p n, r.getNode hash key = .ok (some n) ∧ r.ring.get? p = some n ∧
      NextPoint {q | q ∈ r.ring} (hash key) p := by
  have hsize : r.ring.size ≠ 0 := fun hzero => hnodes ((h.size_eq_zero hreplicas).mp hzero)
  have hlen : 0 < r.sortedKeys.length := by
    rw [h.sortedKeys_perm.length_eq, OrderedDict.length_keys]
    exact Nat.pos_of_ne_zero hsize
  have hidx : (if bisectRight r.sortedKeys (hash key) = r.sortedKeys.length then 0
      else bisectRight r.sortedKeys (hash key)) < r.sortedKeys.length := by
    have hle := (bisectRight_spec h.sortedLE (hash key)).le_length
    split_ifs <;> omega
  have hpoint := List.getElem?_eq_getElem hidx
  have hnext := nextPoint_wrapped h.sortedLE (hash key) hpoint
  have hset : {q | q ∈ r.sortedKeys} = {q | q ∈ r.ring} := Set.ext fun q =>
    h.sortedKeys_perm.mem_iff
  rw [hset] at hnext
  obtain ⟨n, hn⟩ := OrderedDict.mem_iff_get?.mp hnext.mem
  refine ⟨_, n, ?_, hn, hnext⟩
  rw [getNode, if_neg hsize]
  simp only [hpoint, hn]

theorem getNode_mem (h : Represents hash r) (hreplicas : 1 ≤ r.virtualReplicas)
    (hnodes : r.nodes ≠ ∅) (key : String) :
    ∃ n ∈ r.nodes, r.getNode hash key = .ok (some n) := by
  obtain ⟨p, n, hget, hown, -⟩ := h.getNode_spec hreplicas hnodes key
  exact ⟨n, ((h.owner p n).mp hown).1, hget⟩

/-- Two rings of the same nodes have the same points, with the same owners. -/
theorem get?_eq_of_nodes_eq (h : Represents hash r) (h' : Represents hash r')
    (hreplicas : r'.virtualReplicas = r.virtualReplicas) (hnodes : r'.nodes = r.nodes) (p : ℕ) :
    r'.ring.get? p = r.ring.get? p := by
  refine Option.ext fun n => ?_
  rw [h.owner, h'.owner, hreplicas, hnodes]

/-- **Routing depends on the set of nodes alone.** -/
theorem getNode_eq_of_nodes_eq (h : Represents hash r) (h' : Represents hash r')
    (hpos : 1 ≤ r.virtualReplicas) (hreplicas : r'.virtualReplicas = r.virtualReplicas)
    (hnodes : r'.nodes = r.nodes) (key : String) : r'.getNode hash key = r.getNode hash key := by
  have hpos' : 1 ≤ r'.virtualReplicas := hreplicas ▸ hpos
  by_cases hempty : r.nodes = ∅
  · rw [h.getNode_empty hpos hempty, h'.getNode_empty hpos' (hnodes.trans hempty)]
  · have hempty' : r'.nodes ≠ ∅ := hnodes ▸ hempty
    obtain ⟨p, n, hget, hn, hnext⟩ := h.getNode_spec hpos hempty key
    obtain ⟨p', n', hget', hn', hnext'⟩ := h'.getNode_spec hpos' hempty' key
    have hsame := h.get?_eq_of_nodes_eq h' hreplicas hnodes
    have hset : {q | q ∈ r'.ring} = {q | q ∈ r.ring} := by
      refine Set.ext fun q => ?_
      simp only [Set.mem_ofPred_eq, OrderedDict.mem_iff_get?, hsame]
    rw [hset] at hnext'
    rw [hsame, hnext'.unique hnext, hn] at hn'
    rw [hget, hget', Option.some.inj hn']

end Represents

/-! ## 3.  Every history

The nodes that a history leaves are those added and not removed since; the ring is a
function of them. -/

/-- What a call does to the set of nodes. -/
def Op.onNodes (nodes : Finset String) : Op → Finset String
  | .add node => insert node nodes
  | .remove node => nodes.erase node

/-- The nodes that a history leaves, from a set of nodes. -/
def liveNodes (nodes : Finset String) (ops : List Op) : Finset String :=
  ops.foldl Op.onNodes nodes

theorem nodes_run (r : ConsistentHashRing) (ops : List Op) :
    (r.run hash ops).nodes = liveNodes r.nodes ops := by
  have happly : ∀ (r : ConsistentHashRing) (op : Op),
      (r.apply hash op).nodes = op.onNodes r.nodes := by
    intro r op
    cases op with
    | add node => exact nodes_addNode hash r node
    | remove node => exact nodes_removeNode hash r node
  induction ops generalizing r with
  | nil => rfl
  | cons op ops ih =>
    show ((r.apply hash op).run hash ops).nodes = liveNodes (op.onNodes r.nodes) ops
    rw [ih, happly]

/-- A new ring has the nodes that it was given. -/
theorem mem_nodes_new (hash : String → ℕ) (nodes : List String) (replicas : ℕ) (n : String) :
    n ∈ (new hash nodes replicas).nodes ↔ n ∈ nodes := by
  have hadds : ∀ (live : Finset String), n ∈ liveNodes live (nodes.map .add) ↔
      n ∈ live ∨ n ∈ nodes := by
    induction nodes with
    | nil => simp [liveNodes]
    | cons m nodes ih =>
      intro live
      show n ∈ liveNodes (insert m live) (nodes.map .add) ↔ _
      rw [ih, Finset.mem_insert, List.mem_cons]
      tauto
  rw [new_eq_run, nodes_run, hadds]
  exact or_iff_right (Finset.notMem_empty n)

/-- A ring built over some nodes and then changed by a history is one history. -/
theorem run_new (init : List String) (replicas : ℕ) (ops : List Op) :
    (new hash init replicas).run hash ops = (empty replicas).run hash (init.map .add ++ ops) := by
  rw [new_eq_run, run, run, run, List.foldl_append]

theorem represents_run_new {replicas : ℕ} {names : Set String}
    (hfree : CollisionFree hash replicas names) {init : List String} {ops : List Op}
    (hinit : ∀ n ∈ init, n ∈ names) (hops : ∀ op ∈ ops, op.node ∈ names) :
    Represents hash ((new hash init replicas).run hash ops) ∧
      ((new hash init replicas).run hash ops).virtualReplicas = replicas := by
  have hall : ∀ op ∈ init.map Op.add ++ ops, op.node ∈ names := by
    intro op hop
    rcases List.mem_append.mp hop with hadd | hrest
    · obtain ⟨n, hn, rfl⟩ := List.mem_map.mp hadd
      exact hinit n hn
    · exact hops op hrest
  have hrun := represents_run (Represents.empty replicas) hfree
    (fun n hn => absurd hn (Finset.notMem_empty n)) hall
  rw [run_new]
  exact ⟨hrun.1, hrun.2.2⟩

/-- A ring has only nodes that its history names. -/
theorem nodes_run_new_subset {replicas : ℕ} {names : Set String} {init : List String}
    {ops : List Op} (hinit : ∀ n ∈ init, n ∈ names) (hops : ∀ op ∈ ops, op.node ∈ names) :
    ↑((new hash init replicas).run hash ops).nodes ⊆ names := by
  have hnew : ↑(new hash init replicas).nodes ⊆ names :=
    fun n hn => hinit n ((mem_nodes_new hash init replicas n).mp hn)
  generalize new hash init replicas = r at hnew ⊢
  induction ops generalizing r with
  | nil => exact hnew
  | cons op ops ih =>
    exact ih (fun op' hop' => hops op' (List.mem_cons_of_mem _ hop')) _
      (nodes_apply_subset hnew (hops op List.mem_cons_self))

/-- A ring with points, of nodes whose points do not collide. -/
structure Placed (hash : String → ℕ) (names : Set String) (r : ConsistentHashRing) : Prop where
  represents : Represents hash r
  replicas : 1 ≤ r.virtualReplicas
  free : CollisionFree hash r.virtualReplicas names
  known : ↑r.nodes ⊆ names

namespace Placed

variable {names : Set String} {r : ConsistentHashRing}

/-- The histories of such nodes lead to such rings. -/
theorem run_new {replicas : ℕ} (hreplicas : 1 ≤ replicas)
    (hfree : CollisionFree hash replicas names) {init : List String} {ops : List Op}
    (hinit : ∀ n ∈ init, n ∈ names) (hops : ∀ op ∈ ops, op.node ∈ names) :
    Placed hash names ((new hash init replicas).run hash ops) := by
  obtain ⟨hrep, hcount⟩ := represents_run_new hfree hinit hops
  exact ⟨hrep, hreplicas.trans_eq hcount.symm, hcount.symm ▸ hfree,
    nodes_run_new_subset hinit hops⟩

theorem addNode (h : Placed hash names r) {n : String} (hn : n ∈ names) :
    Placed hash names (r.addNode hash n) := by
  have hcount : (r.addNode hash n).virtualReplicas = r.virtualReplicas :=
    virtualReplicas_apply r (.add n)
  have hadd : (Op.add n).node ∈ names := hn
  exact ⟨h.represents.addNode h.free h.known hn, h.replicas.trans_eq hcount.symm,
    hcount.symm ▸ h.free, nodes_apply_subset h.known hadd⟩

theorem removeNode (h : Placed hash names r) (n : String) :
    Placed hash names (r.removeNode hash n) := by
  have hcount : (r.removeNode hash n).virtualReplicas = r.virtualReplicas :=
    virtualReplicas_apply r (.remove n)
  refine ⟨h.represents.removeNode h.free h.known n, h.replicas.trans_eq hcount.symm,
    hcount.symm ▸ h.free, ?_⟩
  rw [nodes_removeNode, Finset.coe_erase]
  exact Set.sdiff_subset.trans h.known

end Placed

/-- **The ring is a function of the live nodes alone.**  After any history, the list of
points is strictly ordered and lists the keys of the dictionary, the dictionary holds
exactly the points of the live nodes, a key is routed to the owner of the next point,
and to nobody exactly when no node is live; and a second history that leaves the same
nodes routes every key the same way. -/
theorem ring_of_liveNodes (hash : String → ℕ) (replicas : ℕ) (hreplicas : 1 ≤ replicas)
    (names : Set String) (hfree : CollisionFree hash replicas names)
    (init init' : List String) (ops ops' : List Op)
    (hinit : ∀ n ∈ init, n ∈ names) (hops : ∀ op ∈ ops, op.node ∈ names)
    (hinit' : ∀ n ∈ init', n ∈ names) (hops' : ∀ op ∈ ops', op.node ∈ names) :
    let r := (new hash init replicas).run hash ops
    let r' := (new hash init' replicas).run hash ops'
    r.nodes = liveNodes ∅ (init.map .add ++ ops) ∧
      r.sortedKeys.Pairwise (· < ·) ∧ r.sortedKeys.Perm r.ring.keys ∧
      (∀ p n, r.ring.get? p = some n ↔ n ∈ r.nodes ∧ ∃ i < replicas, p = hash (label n i)) ∧
      (∀ key, r.getNode hash key = .ok none ↔ r.nodes = ∅) ∧
      (∀ key, r.nodes ≠ ∅ → ∃ p n, r.getNode hash key = .ok (some n) ∧
        r.ring.get? p = some n ∧ NextPoint {q | q ∈ r.ring} (hash key) p) ∧
      (r'.nodes = r.nodes → ∀ key, r'.getNode hash key = r.getNode hash key) := by
  intro r r'
  obtain ⟨hrep, hcount⟩ := represents_run_new hfree hinit hops
  obtain ⟨hrep', hcount'⟩ := represents_run_new hfree hinit' hops'
  have hpos : 1 ≤ r.virtualReplicas := hreplicas.trans_eq hcount.symm
  refine ⟨?_, hrep.sortedLT, hrep.sortedKeys_perm, fun p n => ?_, fun key => ?_,
    fun key hnodes => hrep.getNode_spec hpos hnodes key, fun hnodes => ?_⟩
  · show ((new hash init replicas).run hash ops).nodes = _
    rw [run_new, nodes_run]
    rfl
  · have howner := hrep.owner p n
    rw [hcount] at howner
    exact howner
  · constructor
    · intro hnone
      by_contra hnodes
      obtain ⟨p, n, hsome, -⟩ := hrep.getNode_spec hpos hnodes key
      rw [hsome] at hnone
      cases hnone
    · exact fun hnodes => hrep.getNode_empty hpos hnodes key
  · exact hrep.getNode_eq_of_nodes_eq hrep' hpos (hcount'.trans hcount.symm) hnodes

/-- A hash without collisions: the code points of the text, as one number. -/
def codeHash (s : String) : ℕ := Encodable.encode (s.toList.map Char.toNat)

theorem collisionFree_codeHash (replicas : ℕ) (names : Set String) :
    CollisionFree codeHash replicas names := by
  intro n _ m _ i _ j _ h
  have hinj : Function.Injective Char.toNat := fun _ _ heq => Char.toNat_inj.mp heq
  exact String.ext (List.map_injective_iff.mpr hinj (Encodable.encode_injective h))

/-- Two histories of the nodes `a` and `b`, one with a detour, route alike. -/
theorem ring_of_liveNodes_detour :
    ((new codeHash ["a"] 2).run codeHash [.add "b", .remove "a", .add "a", .remove "c"]).getNode
        codeHash "653bc09e" =
      ((new codeHash ["a", "b"] 2).run codeHash []).getNode codeHash "653bc09e" := by
  refine (ring_of_liveNodes codeHash 2 (by decide) Set.univ (collisionFree_codeHash _ _)
    ["a", "b"] ["a"] [] [.add "b", .remove "a", .add "a", .remove "c"]
    (by simp) (by simp) (by simp) (by simp)).2.2.2.2.2.2 ?_ "653bc09e"
  rw [run_new, run_new, nodes_run, nodes_run]
  decide

end ConsistentHashRing
end Rcsce
