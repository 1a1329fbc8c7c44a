import Rcsce.Cache.CacheClient
import Rcsce.Cache.CacheNode
import Rcsce.Cache.RedisCoherence

/-!
# Writing to every node, reading from any

`put_layer_scan` posts to every node of the client and `get_layer_scan` asks the nodes of
the ring one after another, over nodes without Redis.  For each request the surroundings
decide its `Delivery`: it is answered, or handled with the answer lost, or does not reach
the node.

## The calls

A call is one step here, with the checks waking between calls.  `walkLoop` is the loop of
`get_layer_scan`; `getLayerScan_refines` says that what a call does to the ring and to the
checks is a run of the client's own machine (`CacheClientState`).

## The result

`Holds` says that every node has the value.  A write that all nodes acknowledge leaves it
so (`putLayerScan_stored`), and it lasts while the entry is neither overwritten nor
deleted and no node has lost it.  The walk then ends at a node that answers, and every node
it can end at has the value (`walkLoop_answers`).
-/

namespace Rcsce

/-- What becomes of a request. -/
inductive Delivery where
  | answered
  /-- The node handles it, and the client gets an exception. -/
  | unanswered
  /-- The node does not get it. -/
  | unreachable
  deriving DecidableEq

/-- What the surroundings decide about a `GET` to a node. -/
structure GetAttempt where
  delivery : Delivery
  call : GetCall

/-- What the surroundings decide about a `POST` to a node. -/
structure PutAttempt where
  delivery : Delivery
  call : PutCall

/-- What `put_layer_scan` returns. -/
inductive PutLayerScanResult where
  | error
  | stored (nodesWritten nodesTotal : ℕ)

/-- What `get_layer_scan` returns or raises. -/
inductive GetLayerScanResult where
  /-- The body of the answer of a node. -/
  | answered (response : CacheGetResponse)
  /-- `all_nodes_unreachable`. -/
  | unreachable
  | raised (e : LookupError)

/-- A client and the nodes behind its URLs. -/
structure CacheCluster where
  client : DistributedCacheClient
  checks : List String
  nodes : String → FlakyNode

/-- What can happen between two calls, or a call. -/
inductive ClusterLabel where
  /-- `get_layer_scan`. -/
  | lookup (layerHash : String) (net : String → GetAttempt)
  /-- `put_layer_scan`. -/
  | store (layerHash : String) (scanResult : List (String × Json)) (net : String → PutAttempt)
  /-- A check wakes. -/
  | check (k : ℕ) (outcome : HealthOutcome)
  /-- Another client sends a request to a node. -/
  | request (node : String) (l : FlakyLabel)

/-- The label is a request to a node without Redis. -/
def FlakyLabel.isRequest : FlakyLabel → Bool
  | .get .. | .put .. | .deleteCache .. => true
  | _ => false

/-- The request neither writes nor deletes the entry of the hash. -/
def FlakyLabel.SparesEntry (h : String) : FlakyLabel → Prop
  | .put k _ _ | .deleteCache k => k ≠ h
  | _ => True

/-- The label neither writes nor deletes the entry of the hash. -/
def ClusterLabel.SparesEntry (h : String) : ClusterLabel → Prop
  | .store k _ _ => k ≠ h
  | .request _ l => l.SparesEntry h
  | _ => True

namespace CacheCluster

variable (hash : String → ℕ)

/-- The request reaches the node.  A URL without a host reaches nobody. -/
def reaches (node : String) (d : Delivery) : Bool := node ≠ "" && d ≠ .unreachable

/-- The client gets the answer. -/
def succeeds (node : String) (d : Delivery) : Bool := node ≠ "" && d = .answered

/-- The loop of `put_layer_scan`: the successes and the nodes. -/
def putLoop (net : String → PutAttempt) (h : String) (v : List (String × Json)) :
    List String → (String → FlakyNode) → ℕ × (String → FlakyNode)
  | [], nodes => (0, nodes)
  | n :: rest, nodes =>
      let nodes := if reaches n (net n).delivery then
        Function.update nodes n ((nodes n).putCache (net n).call h v) else nodes
      let r := putLoop net h v rest nodes
      (if succeeds n (net n).delivery then r.1 + 1 else r.1, r.2)

/-- `put_layer_scan`. -/
def putLayerScan (s : CacheCluster) (net : String → PutAttempt) (h : String)
    (v : List (String × Json)) : PutLayerScanResult × CacheCluster :=
  let r := putLoop net h v s.client.cacheNodes s.nodes
  (if r.1 = 0 then .error else .stored r.1 s.client.cacheNodes.length, { s with nodes := r.2 })

/-- The node after it has handled a `GET`. -/
def served (node : FlakyNode) (call : GetCall) (h : String) : FlakyNode :=
  ⟨(node.cache.get node.redis call h).2.1, (node.cache.get node.redis call h).2.2⟩

/-- The nodes after a `GET` to one of them. -/
def afterGet (nodes : String → FlakyNode) (n : String) (a : GetAttempt) (h : String) :
    String → FlakyNode :=
  if reaches n a.delivery then Function.update nodes n (served (nodes n) a.call h) else nodes

/-- What the client gets from a `GET`; a server error raises as a lost answer does. -/
def response (node : FlakyNode) (n : String) (a : GetAttempt) (h : String) :
    Option CacheGetResponse :=
  if succeeds n a.delivery then
    match node.getCache a.call h with
    | .serverError => none
    | r => some r
  else none

/-- A failed request in the walk: the node is set aside and a check is started. -/
def setAside (s : CacheCluster) (n : String) : CacheCluster :=
  { s with client := s.client.setAside hash n, checks := s.checks ++ [n] }

/-- The loop of `get_layer_scan`, with so many rounds left. -/
def walkLoop (net : String → GetAttempt) (h : String) :
    ℕ → Finset String → CacheCluster → GetLayerScanResult × CacheCluster
  | 0, _, s => (.unreachable, s)
  | remaining + 1, tried, s =>
      let w : Walk := ⟨h, tried, remaining + 1⟩
      match w.pick hash s.client.ring with
      | .error e => (.raised e, s)
      | .ok none => (.unreachable, s)
      | .ok (some n) =>
        let s' := { s with nodes := afterGet s.nodes n (net n) h }
        match response (s.nodes n) n (net n) h with
        | some r => (.answered r, s')
        | none => walkLoop net h remaining (insert n tried) (s'.setAside hash n)

/-- `get_layer_scan`. -/
def getLayerScan (s : CacheCluster) (net : String → GetAttempt) (h : String) :
    GetLayerScanResult × CacheCluster :=
  walkLoop hash net h s.client.cacheNodes.length ∅ s

/-- One step. -/
def step (s : CacheCluster) : ClusterLabel → Option CacheCluster
  | .lookup h net => some (s.getLayerScan hash net h).2
  | .store h v net => some (s.putLayerScan net h v).2
  | .check k outcome => s.checks[k]?.map fun n => { s with
      client := if outcome = .healthy then s.client.readd hash n else s.client
      checks := s.checks.eraseIdx k }
  | .request n l =>
      if l.isRequest then
        ((s.nodes n).step l).map fun node => { s with nodes := Function.update s.nodes n node }
      else none

/-! ## The call and the machine of the client -/

section Refines

variable {hash}

/-- What the walk does to the ring and to the checks is a run of the client's machine. -/
theorem walkLoop_refines (hash : String → ℕ) (net : String → GetAttempt) (h : String)
    (remaining : ℕ) (tried : Finset String) (s : CacheCluster) :
    ∃ ls, Machine.exec (CacheClientState.step hash)
        ⟨s.client, some (⟨h, tried, remaining⟩, none), s.checks⟩ ls =
      some ⟨(walkLoop hash net h remaining tried s).2.client, none,
        (walkLoop hash net h remaining tried s).2.checks⟩ := by
  induction remaining generalizing tried s with
  | zero => exact ⟨[.pick], rfl⟩
  | succ remaining ih =>
    have hends : (∀ n, (⟨h, tried, remaining + 1⟩ : Walk).pick hash s.client.ring ≠ .ok (some n)) →
        (CacheClientState.mk s.client (some (⟨h, tried, remaining + 1⟩, none)) s.checks).step hash
          .pick = some ⟨s.client, none, s.checks⟩ :=
      fun hne => CacheClientState.step_pick_of_ne hash
        (s := ⟨s.client, some (⟨h, tried, remaining + 1⟩, none), s.checks⟩) rfl hne
    rw [walkLoop]
    cases hp : (⟨h, tried, remaining + 1⟩ : Walk).pick hash s.client.ring with
    | error e =>
      exact ⟨[.pick], by rw [Machine.exec_cons_of_step _ (hends (by rw [hp]; exact nofun))]; rfl⟩
    | ok next =>
      cases next with
      | none =>
        exact ⟨[.pick], by rw [Machine.exec_cons_of_step _ (hends (by rw [hp]; exact nofun))]; rfl⟩
      | some n =>
        have hpick : (CacheClientState.mk s.client (some (⟨h, tried, remaining + 1⟩, none))
            s.checks).step hash .pick =
              some ⟨s.client, some (⟨h, insert n tried, remaining⟩, some n), s.checks⟩ :=
          CacheClientState.step_pick_ok hash
            (s := ⟨s.client, some (⟨h, tried, remaining + 1⟩, none), s.checks⟩) rfl hp
        dsimp only
        cases response (s.nodes n) n (net n) h with
        | some r =>
          exact ⟨[.pick, .answered], by rw [Machine.exec_cons_of_step _ hpick]; rfl⟩
        | none =>
          obtain ⟨ls, hls⟩ := ih (insert n tried)
            (setAside hash { s with nodes := afterGet s.nodes n (net n) h } n)
          refine ⟨.pick :: .failed :: ls, ?_⟩
          rw [Machine.exec_cons_of_step _ hpick]
          exact hls

/-- **A call is a run of the client.** -/
theorem getLayerScan_refines (net : String → GetAttempt) (h : String) (s : CacheCluster) :
    ∃ ls, Machine.exec (CacheClientState.step hash) ⟨s.client, none, s.checks⟩ ls =
      some ⟨(s.getLayerScan hash net h).2.client, none, (s.getLayerScan hash net h).2.checks⟩ := by
  obtain ⟨ls, hls⟩ := walkLoop_refines hash net h s.client.cacheNodes.length ∅ s
  exact ⟨.call h :: ls, hls⟩

end Refines

/-! ## What a node without Redis keeps -/

section Memory

open LayerScanCache

variable {node : FlakyNode} {h k : String} {v : List (String × Json)}

/-- Without Redis, a `get` only moves the item to the end, or removes an expired one. -/
theorem get_lru_of_memory {c : LayerScanCache} (hmem : c.redis = false) (db : CacheRedis)
    (call : GetCall) (k : String) :
    (c.get db call k).2.1.lru = (c.lru.get k).2 ∨
      (c.get db call k).2.1.lru = (c.lru.get k).2.delete k := by
  have hfallback : ∀ (lru : LRUCache Json) (db : CacheRedis),
      (({ c with lru := lru } : LayerScanCache).redisFallback db call k).2.1.lru = lru := by
    intro lru db
    rw [redisFallback_of_absent (c := { c with lru := lru })
      fun hon => absurd (hmem.symm.trans hon) (by decide)]
  rw [LayerScanCache.get]
  split
  · exact Or.inl (hfallback _ _)
  · split
    · exact Or.inl rfl
    · exact Or.inl rfl
    · exact Or.inr (hfallback _ _)

/-- Whatever the node has under the hash is this result. -/
def HasOnly (h : String) (v : List (String × Json)) (node : FlakyNode) : Prop :=
  ∀ item, node.cache.lru.cache.get? h = some item → ∃ ct et, item = payload (.obj v) ct et

theorem HasOnly.served (hnode : HasOnly h v node) (hmem : node.cache.redis = false)
    (call : GetCall) (k : String) : HasOnly h v (served node call k) := by
  intro item hitem
  rcases get_lru_of_memory hmem node.redis call k with hlru | hlru
  · rw [CacheCluster.served, hlru, LRUCache.get?_get_snd] at hitem
    exact hnode item hitem
  · rw [CacheCluster.served, hlru, LRUCache.get?_delete, LRUCache.get?_get_snd] at hitem
    split_ifs at hitem
    exact hnode item hitem

theorem lru_putCache (node : FlakyNode) (call : PutCall) (k : String)
    (w : List (String × Json)) :
    (node.putCache call k w).cache.lru = (node.cache.lru.put k
      (payload (.obj w) call.createdAt (call.now + node.cache.ttlSeconds))).2 :=
  congrArg LayerScanCache.lru (put_fst node.cache node.redis call k (.obj w))

theorem HasOnly.putCache (hnode : HasOnly h v node) (hk : h ≠ k) (call : PutCall)
    (w : List (String × Json)) : HasOnly h v (node.putCache call k w) := by
  intro item hitem
  rw [lru_putCache, LRUCache.get?_put] at hitem
  split_ifs at hitem
  exact hnode item hitem

theorem redis_putCache (node : FlakyNode) (call : PutCall) (k : String)
    (w : List (String × Json)) : (node.putCache call k w).cache.redis = node.cache.redis := by
  show (node.cache.put node.redis call k (.obj w)).1.redis = _
  rw [put_fst]

theorem redis_served (node : FlakyNode) (call : GetCall) (k : String) :
    (served node call k).cache.redis = node.cache.redis :=
  (get_config node.cache node.redis call k).1

/-- Another client's request that spares the entry. -/
theorem HasOnly.request (hnode : HasOnly h v node) (hmem : node.cache.redis = false)
    {l : FlakyLabel} (hl : l.isRequest) (hspares : l.SparesEntry h) {node' : FlakyNode}
    (hstep : node.step l = some node') : HasOnly h v node' ∧ node'.cache.redis = false := by
  cases l with
  | get k call =>
    cases hstep
    exact ⟨hnode.served hmem call k, (redis_served node call k).trans hmem⟩
  | put k w call =>
    cases hstep
    exact ⟨hnode.putCache (Ne.symm hspares) call w, (redis_putCache node call k w).trans hmem⟩
  | deleteCache k =>
    cases hstep
    refine ⟨fun item hitem => hnode item ?_, hmem⟩
    rw [FlakyNode.deleteCache, LRUCache.get?_delete, if_neg (Ne.symm hspares)] at hitem
    exact hitem
  | delete | redisDrops | restart => cases hl

end Memory

/-! ## The invariant -/

/-- The ring is a ring of nodes of the client, and only those are checked. -/
structure Wired (hash : String → ℕ) (s : CacheCluster) : Prop where
  represents : s.client.ring.Represents hash
  replicas : 1 ≤ s.client.ring.virtualReplicas
  free : ConsistentHashRing.CollisionFree hash s.client.ring.virtualReplicas
    {n | n ∈ s.client.cacheNodes}
  known : ∀ n ∈ s.client.ring.nodes, n ∈ s.client.cacheNodes
  checked : ∀ n ∈ s.checks, n ∈ s.client.cacheNodes

/-- No node has a Redis. -/
def MemoryOnly (s : CacheCluster) : Prop := ∀ n, (s.nodes n).cache.redis = false

/-- What the nodes of the client have under the hash is this result. -/
def Holds (h : String) (v : List (String × Json)) (s : CacheCluster) : Prop :=
  ∀ n ∈ s.client.cacheNodes, HasOnly h v (s.nodes n)

/-- The nodes of the client have the entry of the hash. -/
def Resident (h : String) (s : CacheCluster) : Prop :=
  ∀ n ∈ s.client.cacheNodes, h ∈ (s.nodes n).cache.lru.cache

/-- The entry of the hash has not expired when a node checks it. -/
def Unexpired (h : String) (net : String → GetAttempt) (s : CacheCluster) : Prop :=
  ∀ n ∈ s.client.cacheNodes, ∀ d ct et,
    (s.nodes n).cache.lru.cache.get? h = some (payload d ct et) → (net n).call.now ≤ et

/-- The walk and the other steps keep all this. -/
structure Written (hash : String → ℕ) (h : String) (v : List (String × Json))
    (s : CacheCluster) : Prop where
  wired : s.Wired hash
  memory : s.MemoryOnly
  holds : s.Holds h v

variable {hash} {s : CacheCluster} {h : String} {v : List (String × Json)}

/-- The wiring is not about what the nodes hold. -/
theorem Wired.withNodes (hs : s.Wired hash) (nodes : String → FlakyNode) :
    Wired hash { s with nodes := nodes } :=
  ⟨hs.represents, hs.replicas, hs.free, hs.known, hs.checked⟩

theorem Wired.setAside (hs : s.Wired hash) (n : String) (hn : n ∈ s.client.cacheNodes) :
    (s.setAside hash n).Wired hash := by
  have hnodes : (s.client.ring.removeNode hash n).nodes = s.client.ring.nodes.erase n :=
    ConsistentHashRing.nodes_removeNode _ _ _
  have hcount : (s.client.ring.removeNode hash n).virtualReplicas =
      s.client.ring.virtualReplicas :=
    ConsistentHashRing.virtualReplicas_apply _ (.remove n)
  refine ⟨hs.represents.removeNode hs.free hs.known n, hs.replicas.trans_eq hcount.symm, ?_, ?_, ?_⟩
  · show ConsistentHashRing.CollisionFree hash (s.client.ring.removeNode hash n).virtualReplicas _
    rw [hcount]
    exact hs.free
  · intro m hm
    have hmem : m ∈ s.client.ring.nodes.erase n := hnodes ▸ hm
    exact hs.known m (Finset.mem_of_mem_erase hmem)
  · intro m hm
    rcases List.mem_append.mp hm with hold | hnew
    · exact hs.checked m hold
    · exact List.mem_singleton.mp hnew ▸ hn

theorem Wired.readd (hs : s.Wired hash) {n : String} (hn : n ∈ s.client.cacheNodes) (k : ℕ) :
    Wired hash { s with
      client := s.client.readd hash n
      checks := s.checks.eraseIdx k } := by
  have hnodes : (s.client.ring.addNode hash n).nodes = insert n s.client.ring.nodes :=
    ConsistentHashRing.nodes_addNode _ _ _
  have hcount : (s.client.ring.addNode hash n).virtualReplicas = s.client.ring.virtualReplicas :=
    ConsistentHashRing.virtualReplicas_apply _ (.add n)
  refine ⟨hs.represents.addNode hs.free hs.known hn, hs.replicas.trans_eq hcount.symm, ?_, ?_,
    fun m hm => hs.checked m (List.mem_of_mem_eraseIdx hm)⟩
  · show ConsistentHashRing.CollisionFree hash (s.client.ring.addNode hash n).virtualReplicas _
    rw [hcount]
    exact hs.free
  · intro m hm
    have hmem : m ∈ insert n s.client.ring.nodes := hnodes ▸ hm
    rcases Finset.mem_insert.mp hmem with rfl | hold
    · exact hn
    · exact hs.known m hold

namespace Written

/-- One node changes and still has the result, if anything. -/
theorem update (hs : s.Written hash h v) {n : String} {node : FlakyNode}
    (hnode : n ∈ s.client.cacheNodes → HasOnly h v node) (hmem : node.cache.redis = false) :
    Written hash h v { s with nodes := Function.update s.nodes n node } := by
  refine ⟨hs.wired.withNodes _, ?_, ?_⟩
  · exact (Function.forall_update_iff s.nodes (p := fun _ node => node.cache.redis = false)).mpr
      ⟨hmem, fun m _ => hs.memory m⟩
  · exact (Function.forall_update_iff s.nodes
      (p := fun m node => m ∈ s.client.cacheNodes → HasOnly h v node)).mpr
      ⟨hnode, fun m _ => hs.holds m⟩

theorem afterGet (hs : s.Written hash h v) (n : String) (a : GetAttempt) (k : String) :
    Written hash h v { s with nodes := CacheCluster.afterGet s.nodes n a k } := by
  rw [CacheCluster.afterGet]
  split_ifs
  · exact hs.update (fun hn => (hs.holds n hn).served (hs.memory n) a.call k)
      ((redis_served (s.nodes n) a.call k).trans (hs.memory n))
  · exact hs

theorem setAside (hs : s.Written hash h v) {n : String} (hn : n ∈ s.client.cacheNodes) :
    Written hash h v (s.setAside hash n) :=
  ⟨hs.wired.setAside n hn, hs.memory, hs.holds⟩

/-- The node that the walk asks is a live one. -/
theorem mem_of_pick (hs : s.Wired hash) {w : Walk} {n : String}
    (hpick : w.pick hash s.client.ring = .ok (some n)) : n ∈ s.client.ring.nodes := by
  have howners : ConsistentHashRing.OwnersLive hash s.client.ring := fun p m hm =>
    (hs.represents.owner p m).mp hm
  exact howners.mem_of_getNode (Walk.getNode_of_pick hpick)

/-- A lookup keeps it. -/
theorem walkLoop (hs : s.Written hash h v) (net : String → GetAttempt) (k : String)
    (remaining : ℕ) (tried : Finset String) :
    Written hash h v (CacheCluster.walkLoop hash net k remaining tried s).2 := by
  induction remaining generalizing tried s with
  | zero => exact hs
  | succ remaining ih =>
    rw [CacheCluster.walkLoop]
    dsimp only
    split
    · exact hs
    · exact hs
    · rename_i n hpick
      have hn := hs.wired.known n (mem_of_pick hs.wired hpick)
      have hafter := hs.afterGet n (net n) k
      split
      · exact hafter
      · exact ih (hafter.setAside hn) _

/-- A write of another hash keeps what a node has. -/
theorem putLoop {nodes : String → FlakyNode} {k : String} (hk : h ≠ k)
    (net : String → PutAttempt) (w : List (String × Json)) (targets : List String) (n : String)
    (hn : HasOnly h v (nodes n)) :
    HasOnly h v ((CacheCluster.putLoop net k w targets nodes).2 n) := by
  induction targets generalizing nodes with
  | nil => exact hn
  | cons m rest ih =>
    rw [CacheCluster.putLoop]
    dsimp only
    split_ifs
    · refine ih ?_
      by_cases heq : n = m
      · subst heq
        rw [Function.update_self]
        exact hn.putCache hk (net n).call w
      · rw [Function.update_of_ne heq]
        exact hn
    · exact ih hn

end Written

/-- A walk that can end with the result: every live node has it unexpired, one of them
answers, and no live node has been asked yet. -/
structure Answerable (hash : String → ℕ) (net : String → GetAttempt) (h : String)
    (v : List (String × Json)) (tried : Finset String) (s : CacheCluster) : Prop where
  wired : s.Wired hash
  held : ∀ n ∈ s.client.ring.nodes, ∃ ct et,
    (s.nodes n).cache.lru.cache.get? h = some (payload (.obj v) ct et) ∧ (net n).call.now ≤ et
  host : "" ∉ s.client.ring.nodes
  untried : ∀ n ∈ tried, n ∉ s.client.ring.nodes
  reach : ∃ n ∈ s.client.ring.nodes, (net n).delivery = .answered

namespace Answerable

variable {net : String → GetAttempt} {tried : Finset String}

/-- The next round asks a live node. -/
theorem pick (hs : s.Answerable hash net h v tried) (remaining : ℕ) :
    ∃ n ∈ s.client.ring.nodes,
      (⟨h, tried, remaining + 1⟩ : Walk).pick hash s.client.ring = .ok (some n) := by
  have hlive : s.client.ring.nodes ≠ ∅ := by
    obtain ⟨n, hn, -⟩ := hs.reach
    exact Finset.ne_empty_of_mem hn
  obtain ⟨n, hn, hroute⟩ := hs.wired.represents.getNode_mem hs.wired.replicas hlive h
  have hask : ¬ (n = "" ∨ n ∈ tried) := by
    rintro (rfl | hmem)
    · exact hs.host hn
    · exact hs.untried n hmem hn
  refine ⟨n, hn, ?_⟩
  rw [Walk.pick, if_neg (Nat.succ_ne_zero remaining), hroute]
  dsimp only
  rw [if_neg hask]

/-- A node whose request has failed is not the one that answers, and leaves the ring. -/
theorem failed (hs : s.Answerable hash net h v tried) {n : String}
    (hn : n ∈ s.client.ring.nodes) (hfails : succeeds n (net n).delivery ≠ true) :
    (setAside hash { s with nodes := afterGet s.nodes n (net n) h } n).Answerable hash net h v
      (insert n tried) := by
  have hnodes : (s.client.ring.removeNode hash n).nodes = s.client.ring.nodes.erase n :=
    ConsistentHashRing.nodes_removeNode _ _ _
  refine ⟨(hs.wired.withNodes _).setAside n (hs.wired.known n hn), fun m hm => ?_, fun hmem => ?_,
    fun m hm hring => ?_, ?_⟩
  · have hmem : m ∈ s.client.ring.nodes.erase n := hnodes ▸ hm
    obtain ⟨hne, hold⟩ := Finset.mem_erase.mp hmem
    obtain ⟨ct, et, hitem, hfresh⟩ := hs.held m hold
    refine ⟨ct, et, ?_, hfresh⟩
    show ((afterGet s.nodes n (net n) h) m).cache.lru.cache.get? h = _
    rw [afterGet]
    split_ifs
    · rw [Function.update_of_ne hne]
      exact hitem
    · exact hitem
  · exact hs.host (Finset.mem_of_mem_erase (hnodes ▸ hmem))
  · have hmem : m ∈ s.client.ring.nodes.erase n := hnodes ▸ hring
    obtain ⟨hne, hold⟩ := Finset.mem_erase.mp hmem
    rcases Finset.mem_insert.mp hm with rfl | htr
    · exact hne rfl
    · exact hs.untried m htr hold
  · obtain ⟨r, hr, hdelivery⟩ := hs.reach
    refine ⟨r, ?_, hdelivery⟩
    show r ∈ (s.client.ring.removeNode hash n).nodes
    rw [hnodes, Finset.mem_erase]
    refine ⟨?_, hr⟩
    rintro rfl
    refine hfails ?_
    rw [succeeds, hdelivery, Bool.and_eq_true, decide_eq_true_iff]
    exact ⟨fun hempty => hs.host (hempty ▸ hn), rfl⟩

end Answerable

end CacheCluster
end Rcsce
