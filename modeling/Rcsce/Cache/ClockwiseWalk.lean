import Rcsce.Lib.Json
import Rcsce.Cache.CacheClient

/-!
# A lookup goes clockwise

The walk of `get_layer_scan` over a ring that nobody else changes.  Nothing in the code
computes the order in which it asks the nodes: it asks the owner of the key, takes a node
that fails off the ring, and asks the owner of the key again.

## 1.  The order

`clockwiseOwners` lists the nodes in the order in which their points follow the hash of
the key.  Its head is the owner (`Represents.getNode_eq_head?`), and without a node it is
the same list without that node (`Represents.clockwiseOwners_removeNode`).

## 2.  The walk

So the loop asks the nodes of this list one after the other (`lookupLoop_eq`), up to the
first that answers.  A node whose name is the empty string is taken for no node at all by
`if not node`, and ends the walk; the walk goes as far as the list does before such a name.
-/

namespace Rcsce

namespace ConsistentHashRing

/-! ## 1.  The order -/

/-- The nodes in the order in which their points follow the hash of the key. -/
def clockwiseOwners (hash : String → ℕ) (r : ConsistentHashRing) (key : String) : List String :=
  ownersAlong r.sortedKeys r.ring.get? (hash key)

theorem nodup_clockwiseOwners (hash : String → ℕ) (r : ConsistentHashRing) (key : String) :
    (r.clockwiseOwners hash key).Nodup :=
  nodup_ownersAlong _ _ _

namespace Represents

variable {hash : String → ℕ} {r : ConsistentHashRing}

theorem mem_clockwiseOwners (h : Represents hash r) (hpos : 1 ≤ r.virtualReplicas)
    {key n : String} : n ∈ r.clockwiseOwners hash key ↔ n ∈ r.nodes := by
  rw [clockwiseOwners, mem_ownersAlong]
  constructor
  · rintro ⟨p, -, hp⟩
    exact ((h.owner p n).mp hp).1
  · intro hn
    have hp : r.ring.get? (hash (label n 0)) = some n := (h.owner _ n).mpr ⟨hn, 0, hpos, rfl⟩
    exact ⟨_, h.sortedKeys_perm.mem_iff.mpr (OrderedDict.mem_iff_get?.mpr ⟨n, hp⟩), hp⟩

/-- **The owner of a key** is the first node of the order. -/
theorem getNode_eq_head? (h : Represents hash r) (hpos : 1 ≤ r.virtualReplicas)
    (key : String) : r.getNode hash key = .ok (r.clockwiseOwners hash key).head? := by
  by_cases hnodes : r.nodes = ∅
  · have hnil : r.clockwiseOwners hash key = [] := by
      refine List.eq_nil_iff_forall_not_mem.mpr fun n hn => ?_
      have hmem := (h.mem_clockwiseOwners hpos).mp hn
      rw [hnodes] at hmem
      exact Finset.notMem_empty n hmem
    rw [h.getNode_empty hpos hnodes, hnil, List.head?_nil]
  · obtain ⟨p, n, hget, hown, hnext⟩ := h.getNode_spec hpos hnodes key
    have hset : {q | q ∈ r.ring} = {q | q ∈ r.sortedKeys} :=
      Set.ext fun q => h.sortedKeys_perm.mem_iff.symm
    rw [hset] at hnext
    rw [hget, clockwiseOwners, head?_ownersAlong h.sortedLE hnext hown]

end Represents

namespace Placed

variable {hash : String → ℕ} {names : Set String} {r : ConsistentHashRing}

/-- Who has which point after a node is removed. -/
theorem get?_removeNode_iff (h : Placed hash names r) {n m : String} {p : ℕ} :
    (r.removeNode hash n).ring.get? p = some m ↔ r.ring.get? p = some m ∧ m ≠ n := by
  have hreplicas : (r.removeNode hash n).virtualReplicas = r.virtualReplicas :=
    virtualReplicas_apply r (.remove n)
  rw [(h.removeNode n).represents.owner, h.represents.owner, Owns, Owns, Finset.mem_coe,
    nodes_removeNode, Finset.mem_erase, hreplicas, Finset.mem_coe]
  tauto

/-- A node that is removed leaves the points of the others. -/
theorem sortedKeys_removeNode (h : Placed hash names r) (n : String) :
    (r.removeNode hash n).sortedKeys =
      r.sortedKeys.filter fun p => (r.ring.get? p).any (· ≠ n) := by
  have hrep := h.represents
  have hrep' := (h.removeNode n).represents
  refine List.Perm.eq_of_pairwise' hrep'.sortedLE (hrep.sortedLE.filter _) ?_
  refine (List.perm_ext_iff_of_nodup ?_ ?_).mpr fun p => ?_
  · exact hrep'.sortedKeys_perm.nodup_iff.mpr (OrderedDict.nodup_keys _)
  · exact (hrep.sortedKeys_perm.nodup_iff.mpr (OrderedDict.nodup_keys _)).filter _
  rw [List.mem_filter, hrep'.sortedKeys_perm.mem_iff, hrep.sortedKeys_perm.mem_iff,
    Option.any_eq_true]
  constructor
  · intro hp
    obtain ⟨m, hm⟩ := OrderedDict.mem_iff_get?.mp hp
    obtain ⟨hget, hne⟩ := h.get?_removeNode_iff.mp hm
    exact ⟨OrderedDict.mem_iff_get?.mpr ⟨m, hget⟩, m, hget, decide_eq_true hne⟩
  · rintro ⟨-, m, hget, hne⟩
    exact OrderedDict.mem_iff_get?.mpr
      ⟨m, h.get?_removeNode_iff.mpr ⟨hget, of_decide_eq_true hne⟩⟩

/-- **A node that is removed** is left out of the order, and the others stay in theirs. -/
theorem clockwiseOwners_removeNode (h : Placed hash names r) (n key : String) :
    (r.removeNode hash n).clockwiseOwners hash key =
      (r.clockwiseOwners hash key).filter (· ≠ n) := by
  rw [clockwiseOwners, clockwiseOwners, filter_ownersAlong, h.sortedKeys_removeNode]
  refine ownersAlong_congr _ fun p hp => ?_
  obtain ⟨m, hget, hne⟩ := (Option.any_eq_true _ _).mp (List.mem_filter.mp hp).2
  rw [hget]
  exact h.get?_removeNode_iff.mpr ⟨hget, of_decide_eq_true hne⟩

end Placed
end ConsistentHashRing

/-! ## 2.  The walk -/

/-- What `get_layer_scan` returns or raises. -/
inductive LookupResult where
  /-- The JSON of the node that answered. -/
  | answered (data : Json)
  /-- `all_nodes_unreachable`. -/
  | unreachable
  | raised (e : LookupError)

/-- What a call has done so far. -/
structure Lookup where
  client : DistributedCacheClient
  /-- The nodes to which it has sent a request. -/
  contacted : List String
  /-- The nodes under a check, those set aside by earlier calls included. -/
  checks : List String
  deriving DecidableEq

namespace Lookup

variable (hash : String → ℕ)

/-- The request to the node raises: the node is set aside and a check is started. -/
def setAside (s : Lookup) (node : String) : Lookup :=
  ⟨s.client.setAside hash node, s.contacted ++ [node], s.checks ++ [node]⟩

/-- The loop of `get_layer_scan`, with so many rounds left.  `reply` is what a node answers,
or `none` when the request raises. -/
def lookupLoop (reply : String → Option Json) (layerHash : String) :
    ℕ → Finset String → Lookup → LookupResult × Lookup
  | 0, _, s => (.unreachable, s)
  | remaining + 1, tried, s =>
      let w : Walk := ⟨layerHash, tried, remaining + 1⟩
      match w.pick hash s.client.ring with
      | .error e => (.raised e, s)
      | .ok none => (.unreachable, s)
      | .ok (some node) =>
        match reply node with
        | some data => (.answered data, { s with contacted := s.contacted ++ [node] })
        | none => lookupLoop reply layerHash remaining (insert node tried) (s.setAside hash node)

/-- `get_layer_scan`. -/
def getLayerScan (reply : String → Option Json) (layerHash : String)
    (c : DistributedCacheClient) (checks : List String) : LookupResult × Lookup :=
  lookupLoop hash reply layerHash c.cacheNodes.length ∅ ⟨c, [], checks⟩

/-! ## Asking along a list -/

section Asking

variable (reply : String → Option Json)

/-- What asking nodes one after the other gives. -/
def askInOrder : List String → LookupResult
  | [] => .unreachable
  | node :: rest =>
      match reply node with
      | some data => .answered data
      | none => askInOrder rest

/-- The nodes of a list that come before the first one that answers. -/
def failing (nodes : List String) : List String := nodes.takeWhile fun n => (reply n).isNone

/-- The nodes of a list up to the first one that answers, this one included. -/
def asked : List String → List String
  | [] => []
  | node :: rest => if (reply node).isNone then node :: asked rest else [node]

variable {reply}

theorem asked_isPrefix (nodes : List String) : asked reply nodes <+: nodes := by
  induction nodes with
  | nil => exact List.nil_prefix
  | cons n rest ih =>
    rw [asked]
    split_ifs
    · exact List.cons_prefix_cons.mpr ⟨rfl, ih⟩
    · exact List.cons_prefix_cons.mpr ⟨rfl, List.nil_prefix⟩

/-- Only the last of the nodes that are asked can have answered. -/
theorem reply_of_mem_dropLast_asked {nodes : List String} {n : String}
    (h : n ∈ (asked reply nodes).dropLast) : reply n = none := by
  induction nodes with
  | nil => exact absurd h List.not_mem_nil
  | cons m rest ih =>
    rw [asked] at h
    split_ifs at h with hm
    · rcases hrest : asked reply rest with _ | ⟨k, ks⟩
      · rw [hrest] at h
        exact absurd h List.not_mem_nil
      · rw [hrest, List.dropLast_cons_cons] at h
        rcases List.mem_cons.mp h with rfl | hlater
        · exact Option.isNone_iff_eq_none.mp hm
        · exact ih (hrest ▸ hlater)
    · exact absurd h List.not_mem_nil

theorem filter_asked (nodes : List String) :
    (asked reply nodes).filter (fun n => (reply n).isNone) = failing reply nodes := by
  induction nodes with
  | nil => rfl
  | cons n rest ih =>
    rw [asked, failing, List.takeWhile_cons]
    split_ifs with hn
    · rw [List.filter_cons, if_pos hn, ih, failing]
    · rw [List.filter_cons, if_neg hn, List.filter_nil]

/-- The walk ends with the error, all nodes asked, or with the answer of the last. -/
theorem askInOrder_cases (nodes : List String) :
    (askInOrder reply nodes = .unreachable ∧ asked reply nodes = nodes ∧
        ∀ n ∈ nodes, reply n = none) ∨
      ∃ n data, askInOrder reply nodes = .answered data ∧
        (asked reply nodes).getLast? = some n ∧ reply n = some data := by
  induction nodes with
  | nil => exact Or.inl ⟨rfl, rfl, fun n hn => absurd hn List.not_mem_nil⟩
  | cons m rest ih =>
    cases hm : reply m with
    | some data =>
      refine Or.inr ⟨m, data, ?_, ?_, hm⟩
      · rw [askInOrder, hm]
      · rw [asked, hm, if_neg (by simp), List.getLast?_singleton]
    | none =>
      have hresult : askInOrder reply (m :: rest) = askInOrder reply rest := by
        rw [askInOrder, hm]
      have hasked : asked reply (m :: rest) = m :: asked reply rest := by
        rw [asked, hm, if_pos Option.isNone_none]
      rw [hresult, hasked]
      rcases ih with ⟨hun, hall, hnone⟩ | ⟨n, data, hans, hlast, hn⟩
      · exact Or.inl ⟨hun, congrArg _ hall, List.forall_mem_cons.mpr ⟨hm, hnone⟩⟩
      · exact Or.inr ⟨n, data, hans, by rw [List.getLast?_cons, hlast]; rfl, hn⟩

end Asking

/-! ## The walk asks along the order -/

section Order

open ConsistentHashRing

variable {hash : String → ℕ} {reply : String → Option Json} {layerHash : String}

/-- The walk and the list: a name that is empty is no node, and ends both. -/
def route (hash : String → ℕ) (r : ConsistentHashRing) (layerHash : String) : List String :=
  (r.clockwiseOwners hash layerHash).takeWhile (· ≠ "")

theorem nodes_foldl_setAside (hash : String → ℕ) (nodes : List String)
    (c : DistributedCacheClient) :
    (nodes.foldl (·.setAside hash) c).ring.nodes = c.ring.nodes \ nodes.toFinset := by
  induction nodes generalizing c with
  | nil => simp
  | cons n rest ih =>
    rw [List.foldl_cons, ih, DistributedCacheClient.setAside, nodes_removeNode]
    ext m
    simp only [Finset.mem_sdiff, Finset.mem_erase, List.mem_toFinset, List.mem_cons]
    tauto

/-- The route is the first node of the order, unless its name is empty, and then the route
without it. -/
theorem route_eq {names : Set String} {r : ConsistentHashRing} (h : Placed hash names r)
    (layerHash : String) :
    (r.getNode hash layerHash = .ok none ∧ route hash r layerHash = []) ∨
      (r.getNode hash layerHash = .ok (some "") ∧ route hash r layerHash = []) ∨
      ∃ n ∈ r.nodes, r.getNode hash layerHash = .ok (some n) ∧ n ≠ "" ∧
        route hash r layerHash = n :: route hash (r.removeNode hash n) layerHash := by
  have hget := h.represents.getNode_eq_head? h.replicas layerHash
  rcases horder : r.clockwiseOwners hash layerHash with _ | ⟨n, rest⟩
  · rw [horder] at hget
    exact Or.inl ⟨hget, by rw [route, horder, List.takeWhile_nil]⟩
  rw [horder, List.head?_cons] at hget
  by_cases hn : n = ""
  · refine Or.inr (Or.inl ⟨hn ▸ hget, ?_⟩)
    rw [route, horder, List.takeWhile_cons, if_neg (by simp [hn])]
  · have hmem : n ∈ r.nodes :=
      (h.represents.mem_clockwiseOwners h.replicas).mp (horder ▸ List.mem_cons_self)
    have hnodup := r.nodup_clockwiseOwners hash layerHash
    rw [horder] at hnodup
    have hrest : rest.filter (· ≠ n) = rest := by
      refine List.filter_eq_self.mpr fun m hm => decide_eq_true ?_
      rintro rfl
      exact (List.nodup_cons.mp hnodup).1 hm
    refine Or.inr (Or.inr ⟨n, hmem, hget, hn, ?_⟩)
    rw [route, route, h.clockwiseOwners_removeNode, horder, List.takeWhile_cons,
      if_pos (by simp [hn]), List.filter_cons_of_neg (by simp), hrest]

/-- What asking along a list of nodes returns, and what it has done then. -/
def askAlong (hash : String → ℕ) (reply : String → Option Json) (nodes : List String)
    (s : Lookup) : LookupResult × Lookup :=
  (askInOrder reply nodes, ⟨(failing reply nodes).foldl (·.setAside hash) s.client,
    s.contacted ++ asked reply nodes, s.checks ++ failing reply nodes⟩)

theorem askAlong_nil (s : Lookup) : askAlong hash reply [] s = (.unreachable, s) := by
  simp only [askAlong, askInOrder, failing, asked, List.takeWhile_nil, List.foldl_nil,
    List.append_nil]

theorem askAlong_answers {n : String} {data : Json} (h : reply n = some data)
    (rest : List String) (s : Lookup) :
    askAlong hash reply (n :: rest) s =
      (.answered data, { s with contacted := s.contacted ++ [n] }) := by
  simp only [askAlong, askInOrder, h, failing, asked, List.takeWhile_cons, Option.isNone_some,
    Bool.false_eq_true, if_false, List.foldl_nil, List.append_nil]

theorem askAlong_fails {n : String} (h : reply n = none) (rest : List String) (s : Lookup) :
    askAlong hash reply (n :: rest) s = askAlong hash reply rest (s.setAside hash n) := by
  simp only [askAlong, askInOrder, h, failing, asked, List.takeWhile_cons, Option.isNone_none,
    if_true, List.foldl_cons, Lookup.setAside, DistributedCacheClient.setAside,
    List.append_assoc, List.singleton_append]

/-- **The loop of `get_layer_scan`** asks along the route.  The invariant: no node of the
ring has been tried, and there are at least as many rounds left as nodes. -/
theorem lookupLoop_eq {names : Set String} (remaining : ℕ) (tried : Finset String) (s : Lookup)
    (hplaced : Placed hash names s.client.ring) (htried : ∀ n ∈ tried, n ∉ s.client.ring.nodes)
    (hrounds : s.client.ring.nodes.card ≤ remaining) :
    lookupLoop hash reply layerHash remaining tried s =
      askAlong hash reply (route hash s.client.ring layerHash) s := by
  induction remaining generalizing tried s with
  | zero =>
    have hempty : s.client.ring.nodes = ∅ := Finset.card_eq_zero.mp (Nat.le_zero.mp hrounds)
    rcases route_eq hplaced layerHash with ⟨-, hroute⟩ | ⟨-, hroute⟩ | ⟨n, hn, -⟩
    · rw [hroute, askAlong_nil, lookupLoop]
    · rw [hroute, askAlong_nil, lookupLoop]
    · exact absurd (hempty ▸ hn) (Finset.notMem_empty n)
  | succ remaining ih =>
    rw [lookupLoop, Walk.pick, if_neg (Nat.succ_ne_zero remaining)]
    rcases route_eq hplaced layerHash with
      ⟨hget, hroute⟩ | ⟨hget, hroute⟩ | ⟨n, hn, hget, hne, hroute⟩
    · rw [hget, hroute, askAlong_nil]
    · rw [hget, hroute, askAlong_nil]
      rfl
    · have hnew : ¬ (n = "" ∨ n ∈ tried) := not_or.mpr ⟨hne, fun h => htried n h hn⟩
      rw [hget, hroute]
      simp only [if_neg hnew]
      cases hreply : reply n with
      | some data => rw [askAlong_answers hreply]
      | none =>
        -- the next round, on the ring without this node
        have hnodes := nodes_removeNode hash s.client.ring n
        rw [askAlong_fails hreply]
        refine ih (insert n tried) (s.setAside hash n) (hplaced.removeNode n) ?_ ?_
        · intro m hm hring
          have hring' : m ∈ s.client.ring.nodes.erase n := hnodes ▸ hring
          rcases Finset.mem_insert.mp hm with rfl | hold
          · exact (Finset.mem_erase.mp hring').1 rfl
          · exact htried m hold (Finset.mem_of_mem_erase hring')
        · show (s.client.ring.removeNode hash n).nodes.card ≤ remaining
          rw [hnodes, Finset.card_erase_of_mem hn]
          omega

/-- What a call does, in terms of a list of nodes. -/
structure FailsOver (reply : String → Option Json) (nodes : List String)
    (c : DistributedCacheClient) (checks : List String) (r : LookupResult × Lookup) : Prop where
  /-- The nodes are asked in their order. -/
  inOrder : r.2.contacted <+: nodes
  once : r.2.contacted.Nodup
  /-- Only the last one can have answered, -/
  failed : ∀ n ∈ r.2.contacted.dropLast, reply n = none
  /-- and its answer is returned; or all have failed. -/
  ends : (r.1 = .unreachable ∧ r.2.contacted = nodes ∧ ∀ n ∈ nodes, reply n = none) ∨
    ∃ n data, r.1 = .answered data ∧ r.2.contacted.getLast? = some n ∧ reply n = some data
  unreachable_iff : r.1 = .unreachable ↔ ∀ n ∈ nodes, reply n = none
  /-- Those that failed, and no others, leave the ring, -/
  ring : r.2.client.ring.nodes =
    c.ring.nodes \ (r.2.contacted.filter fun n => (reply n).isNone).toFinset
  /-- and are put under a check. -/
  scheduled : r.2.checks = checks ++ r.2.contacted.filter fun n => (reply n).isNone

/-- Asking along a list without repetitions. -/
theorem failsOver_asked {nodes : List String} (hnodup : nodes.Nodup)
    (c : DistributedCacheClient) (checks : List String) :
    FailsOver reply nodes c checks (askAlong hash reply nodes ⟨c, [], checks⟩) := by
  have hends : (askInOrder reply nodes = .unreachable ∧ asked reply nodes = nodes ∧
      ∀ n ∈ nodes, reply n = none) ∨ ∃ n data, askInOrder reply nodes = .answered data ∧
        (asked reply nodes).getLast? = some n ∧ reply n = some data := askInOrder_cases nodes
  refine ⟨asked_isPrefix nodes, hnodup.sublist (asked_isPrefix nodes).sublist,
    fun n hn => reply_of_mem_dropLast_asked hn, ?_, ?_, ?_, ?_⟩
  · exact hends
  · rcases hends with ⟨hun, -, hnone⟩ | ⟨n, data, hans, hlast, hn⟩
    · exact iff_of_true hun hnone
    · have hmem : n ∈ nodes := (asked_isPrefix nodes).subset (List.mem_of_getLast? hlast)
      refine iff_of_false (fun hun => ?_) fun hnone => ?_
      · exact absurd (hans.symm.trans hun) nofun
      · exact absurd (hn.symm.trans (hnone n hmem)) nofun
  · show ((failing reply nodes).foldl (·.setAside hash) c).ring.nodes =
      c.ring.nodes \ ((asked reply nodes).filter fun n => (reply n).isNone).toFinset
    rw [filter_asked, nodes_foldl_setAside]
  · show checks ++ failing reply nodes = checks ++ (asked reply nodes).filter fun n =>
      (reply n).isNone
    rw [filter_asked]

/-- **A lookup goes clockwise.**  For a client whose ring holds any of its nodes, the call
asks the nodes of the ring in the order in which one meets their points from the hash of
the key on, up to the first that answers or to a node with an empty name. -/
theorem getLayerScan_clockwise (hash : String → ℕ) (replicas : ℕ) (hreplicas : 1 ≤ replicas)
    (cacheNodes : List String) (hfree : CollisionFree hash replicas {n | n ∈ cacheNodes})
    (init : List String) (ops : List Op) (hinit : ∀ n ∈ init, n ∈ cacheNodes)
    (hops : ∀ op ∈ ops, op.node ∈ cacheNodes) (layerHash : String)
    (reply : String → Option Json) (checks : List String) :
    let r := (ConsistentHashRing.new hash init replicas).run hash ops
    let order := r.clockwiseOwners hash layerHash
    (∀ n, n ∈ order ↔ n ∈ r.nodes) ∧ order.Nodup ∧
      FailsOver reply (order.takeWhile (· ≠ "")) ⟨cacheNodes, r⟩ checks
        (getLayerScan hash reply layerHash ⟨cacheNodes, r⟩ checks) ∧
      ("" ∉ r.nodes → FailsOver reply order ⟨cacheNodes, r⟩ checks
        (getLayerScan hash reply layerHash ⟨cacheNodes, r⟩ checks)) := by
  intro r order
  have hplaced : Placed hash {n | n ∈ cacheNodes} r := Placed.run_new hreplicas hfree hinit hops
  have hmem : ∀ n, n ∈ order ↔ n ∈ r.nodes := fun n =>
    hplaced.represents.mem_clockwiseOwners hplaced.replicas
  have hnodup : order.Nodup := r.nodup_clockwiseOwners hash layerHash
  have hrounds : r.nodes.card ≤ cacheNodes.length := by
    refine le_trans (Finset.card_le_card fun n hn => ?_) (List.toFinset_card_le cacheNodes)
    exact List.mem_toFinset.mpr (hplaced.known hn)
  have hroute : FailsOver reply (order.takeWhile (· ≠ "")) ⟨cacheNodes, r⟩ checks
      (getLayerScan hash reply layerHash ⟨cacheNodes, r⟩ checks) := by
    rw [getLayerScan, lookupLoop_eq cacheNodes.length ∅ ⟨⟨cacheNodes, r⟩, [], checks⟩ hplaced
      (fun n hn => absurd hn (Finset.notMem_empty n)) hrounds]
    have hsublist : (order.takeWhile (· ≠ "")).Sublist order :=
      List.IsPrefix.sublist <| List.takeWhile_prefix _
    exact failsOver_asked (hnodup.sublist hsublist) _ _
  refine ⟨hmem, hnodup, hroute, fun hempty => ?_⟩
  have hall : order.takeWhile (· ≠ "") = order := by
    refine List.takeWhile_eq_self_iff.mpr fun n hn => decide_eq_true ?_
    rintro rfl
    exact hempty ((hmem "").mp hn)
  rw [← hall]
  exact hroute

/-- Of two nodes only the second one answers: the call returns its answer. -/
theorem getLayerScan_clockwise_second_answers :
    (getLayerScan codeHash (fun n => if n = "b" then some .null else none) "653bc09e"
      ⟨["a", "b"], (ConsistentHashRing.new codeHash ["a", "b"] 2).run codeHash []⟩ []).1 =
        .answered .null := by
  obtain ⟨hmem, -, -, hfails⟩ := getLayerScan_clockwise codeHash 2 (by decide) ["a", "b"]
    (collisionFree_codeHash _ _) ["a", "b"] [] (by simp) (by simp) "653bc09e"
    (fun n => if n = "b" then some .null else none) []
  have hnodes : ∀ n, n ∈ ((ConsistentHashRing.new codeHash ["a", "b"] 2).run codeHash []).nodes ↔
      n ∈ ["a", "b"] := mem_nodes_new codeHash ["a", "b"] 2
  have hcall := hfails fun h => absurd ((hnodes "").mp h) (by decide)
  rcases hcall.ends with ⟨-, -, hnone⟩ | ⟨n, data, hans, -, hn⟩
  · have hb := hnone "b" ((hmem "b").mpr ((hnodes "b").mpr (by decide)))
    rw [if_pos rfl] at hb
    cases hb
  · split_ifs at hn
    cases hn
    exact hans

/-- The empty name comes first: the call gives up although the other node would answer. -/
theorem empty_name_ends_walk :
    let hash : String → ℕ := fun s => if s = "#0" then 1 else if s = "http://c#0" then 2 else 0
    let nodes := ["", "http://c"]
    let reply : String → Option Json := fun n => if n = "http://c" then some .null else none
    CollisionFree hash 1 {n | n ∈ nodes} ∧
      "http://c" ∈ (DistributedCacheClient.new hash nodes 1).ring.nodes ∧
      (reply "http://c").isSome ∧
      (getLayerScan hash reply "653bc09e" (.new hash nodes 1) []).1 = .unreachable := by
  refine ⟨?_, by decide, rfl, rfl⟩
  intro n hn m hm i hi j hj heq
  obtain rfl := Nat.lt_one_iff.mp hi
  obtain rfl := Nat.lt_one_iff.mp hj
  rcases List.mem_pair.mp hn with rfl | rfl <;> rcases List.mem_pair.mp hm with rfl | rfl
  · rfl
  · exact absurd heq (by decide)
  · exact absurd heq (by decide)
  · rfl

end Order

end Lookup
end Rcsce
