import Rcsce.Lib.Machine
import Rcsce.Lib.TaskList
import Rcsce.Cache.HashRing

/-!
# The cache client and the nodes that it has set aside

`DistributedCacheClient` of `cache/worker_cache_client.py`.  A lookup walks over the
ring: it asks the node that the key is routed to and, when the request fails, takes that
node off the ring, starts a check that is to put it back, and asks the next one.

## The machine

`Walk` holds the local variables of `get_layer_scan` at the top of its loop.  A call goes
through `call`, then `pick` and `answered` or `failed` for each node that it asks.  A
check sleeps and then asks for `/health` once; it can wake at any moment, also while a
call is in progress, and find its node healthy, unhealthy or unreachable.

## The result

A node that the client has set aside is in the hands of its check.  `Accounted` says that
the two never overlap; so a check that does not find its node healthy leaves the node to
nobody, and `never_forgotten_iff` is exact: the client keeps every node in the ring or
under a check if and only if every check finds its node healthy.  A node that is lost stays
lost (`forgotten_forever`).
-/

namespace Rcsce

/-- `DistributedCacheClient`. -/
structure DistributedCacheClient where
  cacheNodes : List String
  ring : ConsistentHashRing
  deriving DecidableEq

/-- The local variables of `get_layer_scan` at the top of its loop. -/
structure Walk where
  layerHash : String
  tried : Finset String
  /-- The rounds that are left. -/
  remaining : ℕ
  deriving DecidableEq

namespace DistributedCacheClient

variable (hash : String → ℕ)

/-- `DistributedCacheClient.__init__`. -/
def new (cacheNodes : List String) (virtualReplicas : ℕ) : DistributedCacheClient :=
  ⟨cacheNodes, .new hash cacheNodes virtualReplicas⟩

/-- `get_layer_scan`, up to its loop. -/
def beginWalk (c : DistributedCacheClient) (layerHash : String) : Walk :=
  ⟨layerHash, ∅, c.cacheNodes.length⟩

/-- The node of a failed request is taken off the ring. -/
def setAside (c : DistributedCacheClient) (node : String) : DistributedCacheClient :=
  { c with ring := c.ring.removeNode hash node }

/-- `_check_and_readd` when the node is healthy. -/
def readd (c : DistributedCacheClient) (node : String) : DistributedCacheClient :=
  { c with ring := c.ring.addNode hash node }

end DistributedCacheClient

namespace Walk

/-- The top of the loop: the node to ask, or `none` when the loop ends or breaks. -/
def pick (hash : String → ℕ) (w : Walk) (ring : ConsistentHashRing) :
    Except LookupError (Option String) :=
  if w.remaining = 0 then .ok none
  else
    match ring.getNode hash w.layerHash with
    | .error e => .error e
    | .ok none => .ok none
    | .ok (some node) => .ok (if node = "" ∨ node ∈ w.tried then none else some node)

/-- The round that asks `node`. -/
def asked (w : Walk) (node : String) : Walk :=
  { w with tried := insert node w.tried, remaining := w.remaining - 1 }

/-- The node to ask is the one that the ring routes to. -/
theorem getNode_of_pick {hash : String → ℕ} {w : Walk} {ring : ConsistentHashRing} {n : String}
    (h : w.pick hash ring = .ok (some n)) : ring.getNode hash w.layerHash = .ok (some n) := by
  rw [pick] at h
  split_ifs at h
  · cases h
  · split at h
    · cases h
    · cases h
    · rename_i node hnode
      rw [hnode]
      split_ifs at h
      · cases h
      · exact h

end Walk

/-- What a check finds. -/
inductive HealthOutcome where
  /-- `/health` answers with 200. -/
  | healthy
  /-- `/health` answers with another status. -/
  | unhealthy
  /-- The request raises. -/
  | raised
  deriving DecidableEq

/-- The client, the call in progress and the checks that are asleep. -/
structure CacheClientState where
  client : DistributedCacheClient
  /-- The walk of `get_layer_scan`, and the node whose answer it waits for. -/
  walk : Option (Walk × Option String)
  /-- The nodes of the checks that have not woken yet. -/
  checks : List String
  deriving DecidableEq

/-- What can happen next. -/
inductive ClientLabel where
  /-- `get_layer_scan` is called. -/
  | call (layerHash : String)
  /-- The walk comes to the top of its loop. -/
  | pick
  /-- The request of the walk is answered. -/
  | answered
  /-- The request of the walk raises. -/
  | failed
  /-- A check wakes. -/
  | check (k : ℕ) (outcome : HealthOutcome)
  deriving DecidableEq

namespace CacheClientState

variable (hash : String → ℕ)

/-- A client that has just been built. -/
def init (cacheNodes : List String) (virtualReplicas : ℕ) : CacheClientState :=
  ⟨.new hash cacheNodes virtualReplicas, none, []⟩

/-- One step. -/
def step (s : CacheClientState) : ClientLabel → Option CacheClientState
  | .call layerHash =>
      match s.walk with
      | none => some { s with walk := some (s.client.beginWalk layerHash, none) }
      | some _ => none
  | .pick =>
      match s.walk with
      | some (w, none) =>
        match w.pick hash s.client.ring with
        | .ok (some node) => some { s with walk := some (w.asked node, some node) }
        | _ => some { s with walk := none }
      | _ => none
  | .answered =>
      match s.walk with
      | some (_, some _) => some { s with walk := none }
      | _ => none
  | .failed =>
      match s.walk with
      | some (w, some node) => some { s with
          client := s.client.setAside hash node
          walk := some (w, none)
          checks := s.checks ++ [node] }
      | _ => none
  | .check k outcome =>
      s.checks[k]?.map fun node => { s with
        client := if outcome = .healthy then s.client.readd hash node else s.client
        checks := s.checks.eraseIdx k }

/-- The walk goes on to a node. -/
theorem step_pick_ok {s : CacheClientState} {w : Walk} {node : String}
    (hwalk : s.walk = some (w, none)) (hpick : w.pick hash s.client.ring = .ok (some node)) :
    s.step hash .pick = some { s with walk := some (w.asked node, some node) } := by
  simp only [step, hwalk, hpick]

/-- The walk ends, with an answer or with an exception. -/
theorem step_pick_of_ne {s : CacheClientState} {w : Walk} (hwalk : s.walk = some (w, none))
    (hpick : ∀ node, w.pick hash s.client.ring ≠ .ok (some node)) :
    s.step hash .pick = some { s with walk := none } := by
  rw [step, hwalk]
  dsimp only
  split
  · rename_i node heq
    exact absurd heq (hpick node)
  · rfl

/-! ## What a step does -/

/-- The moves of the client, with what they do to the ring and to the checks. -/
inductive Move (s : CacheClientState) : ClientLabel → CacheClientState → Prop
  /-- The walk goes on, and waits for the answer of a live node if for any. -/
  | walks (l : ClientLabel) (walk : Option (Walk × Option String))
      (hl : ∀ k outcome, l ≠ .check k outcome)
      (hasks : ∀ w n, walk = some (w, some n) → s.client.ring.getNode hash w.layerHash = .ok n) :
      Move s l { s with walk := walk }
  | fails (w : Walk) (node : String) (hwalk : s.walk = some (w, some node)) :
      Move s .failed { s with
        client := s.client.setAside hash node
        walk := some (w, none)
        checks := s.checks ++ [node] }
  | recovers (k : ℕ) (node : String) (hk : s.checks[k]? = some node) :
      Move s (.check k .healthy) { s with
        client := s.client.readd hash node
        checks := s.checks.eraseIdx k }
  | givesUp (k : ℕ) (outcome : HealthOutcome) (node : String) (hk : s.checks[k]? = some node)
      (hbad : outcome ≠ .healthy) :
      Move s (.check k outcome) { s with checks := s.checks.eraseIdx k }

variable {hash}

/-- Every step is one of the moves. -/
theorem step_cases {s s' : CacheClientState} {l : ClientLabel} (h : s.step hash l = some s') :
    s.Move hash l s' := by
  cases l with
  | call layerHash =>
    rw [step] at h
    split at h
    · cases h
      exact .walks _ _ nofun fun w n hw => nomatch (Prod.mk.inj (Option.some.inj hw)).2
    · cases h
  | pick =>
    rw [step] at h
    split at h
    · rename_i w hwalk
      split at h
      · rename_i node hpick
        cases h
        refine .walks _ _ nofun fun w' n hw => ?_
        cases hw
        exact Walk.getNode_of_pick (w := w) hpick
      · cases h
        exact .walks _ _ nofun nofun
    · cases h
  | answered =>
    rw [step] at h
    split at h
    · cases h
      exact .walks _ _ nofun nofun
    · cases h
  | failed =>
    rw [step] at h
    split at h
    · rename_i w node hwalk
      cases h
      exact .fails w node hwalk
    · cases h
  | check k outcome =>
    obtain ⟨node, hk, rfl⟩ := Option.map_eq_some_iff.mp h
    by_cases hgood : outcome = .healthy
    · subst hgood
      exact .recovers k node hk
    · rw [if_neg hgood]
      exact .givesUp k outcome node hk hgood

/-! ## The invariant -/

/-- Every node is in the ring or under a check. -/
def NoneForgotten (s : CacheClientState) : Prop :=
  ∀ n ∈ s.client.cacheNodes, n ∈ s.client.ring.nodes ∨ n ∈ s.checks

/-- A check that wakes finds its node healthy. -/
def ChecksFindHealthy (_ : CacheClientState) (l : ClientLabel) (_ : CacheClientState) : Prop :=
  ∀ k outcome, l = .check k outcome → outcome = .healthy

/-- A node is in the ring or under at most one check, never both, and a walk waits for a
node of the ring. -/
structure Accounted (hash : String → ℕ) (s : CacheClientState) : Prop where
  owners : ConsistentHashRing.OwnersLive hash s.client.ring
  known : ∀ n ∈ s.client.ring.nodes, n ∈ s.client.cacheNodes
  checked : ∀ n ∈ s.checks, n ∈ s.client.cacheNodes
  once : s.checks.Nodup
  apart : ∀ n ∈ s.checks, n ∉ s.client.ring.nodes
  waits : ∀ w n, s.walk = some (w, some n) → n ∈ s.client.ring.nodes

namespace Accounted

variable {s : CacheClientState}

/-- The request of the walk fails. -/
theorem fails (hs : s.Accounted hash) {w : Walk} {node : String}
    (hwalk : s.walk = some (w, some node)) : Accounted hash { s with
      client := s.client.setAside hash node
      walk := some (w, none)
      checks := s.checks ++ [node] } := by
  have hnode : node ∈ s.client.ring.nodes := hs.waits w node hwalk
  have hnodes : (s.client.setAside hash node).ring.nodes = s.client.ring.nodes.erase node :=
    ConsistentHashRing.nodes_removeNode _ _ _
  refine ⟨hs.owners.apply (.remove node), fun n hn => ?_, fun n hn => ?_, ?_, fun n hn => ?_,
    fun _ _ h => nomatch (Prod.mk.inj (Option.some.inj h)).2⟩
  · rw [hnodes] at hn
    exact hs.known n (Finset.mem_of_mem_erase hn)
  · rcases List.mem_append.mp hn with hold | hnew
    · exact hs.checked n hold
    · rw [List.mem_singleton.mp hnew]
      exact hs.known node hnode
  · refine List.nodup_append.mpr ⟨hs.once, List.nodup_singleton _, fun n hn m hm => ?_⟩
    rw [List.mem_singleton.mp hm]
    rintro rfl
    exact hs.apart n hn hnode
  · rw [hnodes, Finset.mem_erase]
    rintro ⟨hne, hring⟩
    rcases List.mem_append.mp hn with hold | hnew
    · exact hs.apart n hold hring
    · exact hne (List.mem_singleton.mp hnew)

/-- A check that wakes is not the check of a node of the others. -/
theorem notMem_eraseIdx (hs : s.Accounted hash) {k : ℕ} {node : String}
    (hk : s.checks[k]? = some node) : node ∉ s.checks.eraseIdx k := by
  have hperm := perm_cons_eraseIdx hk
  exact (List.nodup_cons.mp (hperm.nodup_iff.mp hs.once)).1

theorem recovers (hs : s.Accounted hash) {k : ℕ} {node : String}
    (hk : s.checks[k]? = some node) : Accounted hash { s with
      client := s.client.readd hash node
      checks := s.checks.eraseIdx k } := by
  have hnodes : (s.client.readd hash node).ring.nodes = insert node s.client.ring.nodes :=
    ConsistentHashRing.nodes_addNode _ _ _
  refine ⟨hs.owners.apply (.add node), fun n hn => ?_,
    fun n hn => hs.checked n (List.mem_of_mem_eraseIdx hn), hs.once.eraseIdx k, fun n hn => ?_,
    fun w n h => ?_⟩
  · rw [hnodes] at hn
    rcases Finset.mem_insert.mp hn with rfl | hold
    · exact hs.checked n (List.mem_of_getElem? hk)
    · exact hs.known n hold
  · rw [hnodes, Finset.mem_insert]
    rintro (rfl | hring)
    · exact hs.notMem_eraseIdx hk hn
    · exact hs.apart n (List.mem_of_mem_eraseIdx hn) hring
  · rw [hnodes]
    exact Finset.mem_insert_of_mem (hs.waits w n h)

end Accounted

theorem init_accounted (hash : String → ℕ) (cacheNodes : List String) (virtualReplicas : ℕ) :
    Accounted hash (init hash cacheNodes virtualReplicas) := by
  have hnodes : ∀ n, n ∈ (init hash cacheNodes virtualReplicas).client.ring.nodes ↔
      n ∈ cacheNodes := ConsistentHashRing.mem_nodes_new hash cacheNodes virtualReplicas
  refine ⟨?_, fun n hn => (hnodes n).mp hn, nofun, List.nodup_nil, nofun, nofun⟩
  show ConsistentHashRing.OwnersLive hash (.new hash cacheNodes virtualReplicas)
  rw [ConsistentHashRing.new_eq_run]
  exact ConsistentHashRing.ownersLive_run (ConsistentHashRing.ownersLive_empty _) _

/-- **The step of the invariant.** -/
theorem step_accounted {s s' : CacheClientState} {l : ClientLabel} (hs : s.Accounted hash)
    (h : s.step hash l = some s') : s'.Accounted hash := by
  cases step_cases h with
  | walks l walk hl hasks =>
    exact ⟨hs.owners, hs.known, hs.checked, hs.once, hs.apart, fun w n hw =>
      hs.owners.mem_of_getNode (hasks w n hw)⟩
  | fails w node hwalk => exact hs.fails hwalk
  | recovers k node hk => exact hs.recovers hk
  | givesUp k outcome node hk =>
    exact ⟨hs.owners, hs.known, fun n hn => hs.checked n (List.mem_of_mem_eraseIdx hn),
      hs.once.eraseIdx k, fun n hn => hs.apart n (List.mem_of_mem_eraseIdx hn), hs.waits⟩

/-! ## Exactly when no node is forgotten -/

/-- While no node has been forgotten, a step forgets none exactly when it is not a check
that finds its node in bad health. -/
theorem step_noneForgotten_iff {s s' : CacheClientState} {l : ClientLabel}
    (hs : s.Accounted hash) (hnone : s.NoneForgotten) (h : s.step hash l = some s') :
    s'.NoneForgotten ↔ s.ChecksFindHealthy l s' := by
  cases step_cases h with
  | walks l walk hl hasks =>
    exact iff_of_true hnone fun k outcome heq => absurd heq (hl k outcome)
  | fails w node hwalk =>
    refine iff_of_true (fun n hn => ?_) nofun
    have hnodes : (s.client.setAside hash node).ring.nodes = s.client.ring.nodes.erase node :=
      ConsistentHashRing.nodes_removeNode _ _ _
    show n ∈ (s.client.setAside hash node).ring.nodes ∨ n ∈ s.checks ++ [node]
    rw [hnodes, Finset.mem_erase, List.mem_append, List.mem_singleton]
    by_cases heq : n = node
    · exact Or.inr (Or.inr heq)
    · exact (hnone n hn).imp (fun hring => ⟨heq, hring⟩) Or.inl
  | recovers k node hk =>
    refine iff_of_true (fun n hn => ?_) fun _ _ heq => (ClientLabel.check.inj heq).2 ▸ rfl
    have hnodes : (s.client.readd hash node).ring.nodes = insert node s.client.ring.nodes :=
      ConsistentHashRing.nodes_addNode _ _ _
    show n ∈ (s.client.readd hash node).ring.nodes ∨ n ∈ s.checks.eraseIdx k
    rw [hnodes, Finset.mem_insert]
    rcases hnone n hn with hring | hcheck
    · exact Or.inl (Or.inr hring)
    · rcases List.mem_cons.mp ((perm_cons_eraseIdx hk).subset hcheck) with heq | hrest
      · exact Or.inl (Or.inl heq)
      · exact Or.inr hrest
  | givesUp k outcome node hk hbad =>
    refine iff_of_false (fun hall => ?_) fun hgood => hbad (hgood k outcome rfl)
    have hmem : node ∈ s.checks := List.mem_of_getElem? hk
    rcases hall node (hs.checked node hmem) with hring | hcheck
    · exact hs.apart node hmem hring
    · exact hs.notMem_eraseIdx hk hcheck

/-- **When a node is never forgotten.**  In every state of a run each node of the client
is in the ring or under a check, if and only if every check of the run that wakes finds
its node healthy. -/
theorem never_forgotten_iff (hash : String → ℕ) (cacheNodes : List String)
    (virtualReplicas : ℕ) (ls : List ClientLabel) :
    Machine.Visits (step hash) NoneForgotten (init hash cacheNodes virtualReplicas) ls ↔
      Machine.Meets (step hash) ChecksFindHealthy (init hash cacheNodes virtualReplicas) ls := by
  refine Machine.visits_iff_meets (I := Accounted hash) ?_ ?_ ?_ ?_ ls
  · intro s l s' hs h
    exact step_accounted hs h
  · intro s l s' hs hnone h
    exact step_noneForgotten_iff hs hnone h
  · exact init_accounted hash cacheNodes virtualReplicas
  · intro n hn
    exact Or.inl ((ConsistentHashRing.mem_nodes_new hash cacheNodes virtualReplicas n).mpr hn)

/-- The only node is down for longer than the check sleeps: it is off the ring for good. -/
theorem forgotten_after_long_outage :
    ∃ s, Machine.exec (step fun _ => 0) (init (fun _ => 0) ["http://cache-1:8010"] 1)
        [.call "653bc09e", .pick, .failed, .check 0 .raised] = some s ∧
      s.client.cacheNodes = ["http://cache-1:8010"] ∧ s.client.ring.nodes = ∅ ∧
      s.checks = [] ∧ ¬ s.NoneForgotten := by
  refine ⟨_, rfl, rfl, by decide, rfl, fun h => ?_⟩
  exact absurd (h "http://cache-1:8010" (by decide)) (by decide)

/-- A node that is neither in the ring nor under a check. -/
def Forgotten (n : String) (s : CacheClientState) : Prop :=
  n ∉ s.client.ring.nodes ∧ n ∉ s.checks

/-- **A forgotten node is not used again**, however long the client runs. -/
theorem forgotten_forever {s t : CacheClientState} {n : String} {ls : List ClientLabel}
    (hs : s.Accounted hash) (hn : Forgotten n s) (h : Machine.exec (step hash) s ls = some t) :
    Forgotten n t := by
  refine (Machine.exec_invariant (I := fun s => Accounted hash s ∧ Forgotten n s)
    (fun s l s' hs h => ⟨step_accounted hs.1 h, ?_⟩) ⟨hs, hn⟩ h).2
  obtain ⟨hacc, hring, hcheck⟩ := hs
  cases step_cases h with
  | walks l walk hl hasks => exact ⟨hring, hcheck⟩
  | fails w node hwalk =>
    have hne : n ≠ node := fun heq => hring (heq ▸ hacc.waits w node hwalk)
    refine ⟨fun hmem => ?_, fun hmem => ?_⟩
    · have hnodes := ConsistentHashRing.nodes_removeNode hash s.client.ring node
      exact hring (Finset.mem_of_mem_erase (hnodes ▸ hmem))
    · rcases List.mem_append.mp hmem with hold | hnew
      · exact hcheck hold
      · exact hne (List.mem_singleton.mp hnew)
  | recovers k node hk =>
    have hne : n ≠ node := fun heq => hcheck (heq ▸ List.mem_of_getElem? hk)
    refine ⟨fun hmem => ?_, fun hmem => hcheck (List.mem_of_mem_eraseIdx hmem)⟩
    have hnodes := ConsistentHashRing.nodes_addNode hash s.client.ring node
    exact (Finset.mem_insert.mp (hnodes ▸ hmem)).elim hne hring
  | givesUp k outcome node hk =>
    exact ⟨hring, fun hmem => hcheck (List.mem_of_mem_eraseIdx hmem)⟩

end CacheClientState
end Rcsce
