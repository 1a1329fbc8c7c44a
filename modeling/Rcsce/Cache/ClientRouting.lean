import Rcsce.Lib.Progress
import Rcsce.Cache.CacheClient
import Rcsce.Cache.ClockwiseWalk

/-!
# Where a client sends its lookups

A client takes nodes off its ring and puts them back in an order that the outages decide.  What
it routes by does not remember that order.

* `Placed.getNode_of_subset`: a ring over some of the nodes of another one sends a key to the
  first of its nodes in the clockwise order of the other.
* `routes_to_first_live`: so in every state of a client a key goes to the first node of the
  order of the new client that is on the ring now.
* `client_heals`: as long as no node is forgotten, the checks that are asleep can bring the
  client back to where it began, also in the middle of a lookup; a node that is forgotten is on
  no ring that the client comes to have.
-/

namespace Rcsce
namespace ConsistentHashRing

variable {hash : String → ℕ} {names : Set String} {r r₀ : ConsistentHashRing}

/-- Several nodes are removed. -/
def removeNodes (hash : String → ℕ) (r : ConsistentHashRing) (gone : List String) :
    ConsistentHashRing :=
  gone.foldl (removeNode hash) r

namespace Placed

/-- The others stay in their order. -/
theorem removeNodes (h : Placed hash names r) (gone : List String) :
    Placed hash names (r.removeNodes hash gone) ∧
      (r.removeNodes hash gone).virtualReplicas = r.virtualReplicas ∧
      (∀ n, n ∈ (r.removeNodes hash gone).nodes ↔ n ∈ r.nodes ∧ n ∉ gone) ∧
      ∀ key, (r.removeNodes hash gone).clockwiseOwners hash key =
        (r.clockwiseOwners hash key).filter (· ∉ gone) := by
  induction gone generalizing r with
  | nil => exact ⟨h, rfl, by simp [ConsistentHashRing.removeNodes], by
      simp [ConsistentHashRing.removeNodes]⟩
  | cons m gone ih =>
    have hcount : (r.removeNode hash m).virtualReplicas = r.virtualReplicas :=
      virtualReplicas_apply r (.remove m)
    obtain ⟨hplaced, hreplicas, hnodes, howners⟩ := ih (h.removeNode m)
    refine ⟨hplaced, hreplicas.trans hcount, fun n => ?_, fun key => ?_⟩
    · refine (hnodes n).trans ?_
      rw [nodes_removeNode, Finset.mem_erase, List.mem_cons]
      tauto
    · refine (howners key).trans ?_
      rw [h.clockwiseOwners_removeNode, List.filter_filter]
      refine List.filter_congr fun n _ => ?_
      simp [Bool.and_comm]

/-- **A ring over some of the nodes** sends a key to the first of them. -/
theorem getNode_of_subset (h₀ : Placed hash names r₀) (h : Placed hash names r)
    (hcount : r.virtualReplicas = r₀.virtualReplicas) (hsub : r.nodes ⊆ r₀.nodes) (key : String) :
    r.getNode hash key = .ok ((r₀.clockwiseOwners hash key).find? (· ∈ r.nodes)) := by
  obtain ⟨hplaced, hreplicas, hnodes, howners⟩ := h₀.removeNodes (r₀.nodes \ r.nodes).toList
  have hsame : r.nodes = (r₀.removeNodes hash (r₀.nodes \ r.nodes).toList).nodes := by
    ext n
    rw [hnodes, Finset.mem_toList, Finset.mem_sdiff]
    have hn := @hsub n
    tauto
  rw [hplaced.represents.getNode_eq_of_nodes_eq h.represents hplaced.replicas
    (hcount.trans hreplicas.symm) hsame, hplaced.represents.getNode_eq_head? hplaced.replicas,
    howners, List.head?_filter]
  congr 1
  refine List.find?_congr fun n hn => ?_
  have hmem := (h₀.represents.mem_clockwiseOwners h₀.replicas).mp hn
  simp [hmem]

end Placed
end ConsistentHashRing

namespace CacheClientState

open ConsistentHashRing (Placed CollisionFree codeHash collisionFree_codeHash)

variable {hash : String → ℕ} {cacheNodes : List String} {replicas : ℕ}
  {s s' t : CacheClientState} {l : ClientLabel}

/-- What holds of the ring of a client in every state. -/
structure Routed (hash : String → ℕ) (cacheNodes : List String) (replicas : ℕ)
    (s : CacheClientState) : Prop where
  accounted : s.Accounted hash
  placed : Placed hash {n | n ∈ cacheNodes} s.client.ring
  replicas : s.client.ring.virtualReplicas = replicas
  nodes : s.client.cacheNodes = cacheNodes

theorem routed_init (hreplicas : 1 ≤ replicas)
    (hfree : CollisionFree hash replicas {n | n ∈ cacheNodes}) :
    Routed hash cacheNodes replicas (init hash cacheNodes replicas) := by
  have hops : ∀ op ∈ ([] : List ConsistentHashRing.Op), op.node ∈ {n | n ∈ cacheNodes} := nofun
  exact ⟨init_accounted hash cacheNodes replicas,
    Placed.run_new hreplicas hfree (fun _ hn => hn) hops,
    (ConsistentHashRing.represents_run_new hfree (fun _ hn => hn) hops).2, rfl⟩

/-- **The step of the invariant.** -/
theorem routed_step (hs : Routed hash cacheNodes replicas s) (h : s.step hash l = some s') :
    Routed hash cacheNodes replicas s' := by
  have haccounted := step_accounted hs.accounted h
  cases step_cases h with
  | walks l walk => exact ⟨haccounted, hs.placed, hs.replicas, hs.nodes⟩
  | fails w node hwalk =>
    exact ⟨haccounted, hs.placed.removeNode node,
      (ConsistentHashRing.virtualReplicas_apply s.client.ring (.remove node)).trans hs.replicas,
      hs.nodes⟩
  | recovers k node hk =>
    have hnode : node ∈ cacheNodes :=
      hs.nodes ▸ hs.accounted.checked node (List.mem_of_getElem? hk)
    exact ⟨haccounted, hs.placed.addNode hnode,
      (ConsistentHashRing.virtualReplicas_apply s.client.ring (.add node)).trans hs.replicas,
      hs.nodes⟩
  | givesUp k outcome node hk => exact ⟨haccounted, hs.placed, hs.replicas, hs.nodes⟩

theorem routed_exec (hreplicas : 1 ≤ replicas)
    (hfree : CollisionFree hash replicas {n | n ∈ cacheNodes}) {ls : List ClientLabel}
    (h : Machine.exec (step hash) (init hash cacheNodes replicas) ls = some s) :
    Routed hash cacheNodes replicas s :=
  Machine.exec_invariant (fun _ _ _ => routed_step) (routed_init hreplicas hfree) h

/-- **A lookup goes to the first live node.**  In every state of a client, whatever it has set
aside and put back, a key is routed to the first node of the clockwise order of the new client
that is on the ring. -/
theorem routes_to_first_live (hash : String → ℕ) (cacheNodes : List String) (replicas : ℕ)
    (hreplicas : 1 ≤ replicas) (hfree : CollisionFree hash replicas {n | n ∈ cacheNodes})
    (ls : List ClientLabel) (s : CacheClientState)
    (h : Machine.exec (step hash) (init hash cacheNodes replicas) ls = some s) (key : String) :
    s.client.ring.getNode hash key =
      .ok (((init hash cacheNodes replicas).client.ring.clockwiseOwners hash key).find?
        (· ∈ s.client.ring.nodes)) := by
  have hs := routed_exec hreplicas hfree h
  have hinit := routed_init hreplicas hfree
  refine hinit.placed.getNode_of_subset hs.placed (hs.replicas.trans hinit.replicas.symm)
    (fun n hn => ?_) key
  have hmem : n ∈ cacheNodes := hs.nodes ▸ hs.accounted.known n hn
  exact (ConsistentHashRing.mem_nodes_new hash cacheNodes replicas n).mpr hmem

/-! ## Healing -/

/-- A check that is asleep wakes and finds its node healthy. -/
def Heals (_ : CacheClientState) (l : ClientLabel) : Prop := ∃ k, l = .check k .healthy

/-- What the checks that wake in good health keep. -/
structure Healing (hash : String → ℕ) (cacheNodes : List String) (replicas : ℕ)
    (walk : Option (Walk × Option String)) (s : CacheClientState) : Prop where
  routed : Routed hash cacheNodes replicas s
  none : s.NoneForgotten
  walk : s.walk = walk

/-- The next check wakes. -/
theorem healing_check {walk : Option (Walk × Option String)}
    (hs : Healing hash cacheNodes replicas walk s) (hpos : 0 < s.checks.length) :
    ∃ l t, Heals s l ∧ s.step hash l = some t ∧ Healing hash cacheNodes replicas walk t ∧
      t.checks.length < s.checks.length := by
  have hstep : s.step hash (.check 0 .healthy) = some { s with
      client := s.client.readd hash s.checks[0]
      checks := s.checks.eraseIdx 0 } := by
    rw [step, List.getElem?_eq_getElem hpos]
    rfl
  refine ⟨_, _, ⟨0, rfl⟩, hstep, ⟨routed_step hs.routed hstep, ?_, hs.walk⟩, ?_⟩
  · refine (step_noneForgotten_iff hs.routed.accounted hs.none hstep).mpr fun k outcome heq => ?_
    exact (ClientLabel.check.inj heq).2.symm
  · show (s.checks.eraseIdx 0).length < s.checks.length
    rw [List.length_eraseIdx_of_lt hpos]
    exact Nat.sub_lt hpos Nat.one_pos

/-- The checks that are asleep can all be done. -/
theorem reaches_no_checks (hs : Routed hash cacheNodes replicas s) (hnone : s.NoneForgotten) :
    ∃ t, Machine.Reaches (step hash) Heals s t ∧
      Healing hash cacheNodes replicas s.walk t ∧ t.checks.length = 0 :=
  Machine.reaches_of_measure (I := Healing hash cacheNodes replicas s.walk)
    (fun t => t.checks.length)
    (fun _ hs hpos => healing_check hs hpos) ⟨hs, hnone, rfl⟩

/-- **A client heals, or has lost a node.**  In every state of a client the checks that are
asleep can bring it to where every key is routed as by the new client, and a lookup that goes on
is where it was; unless a node has been forgotten, and that is on no ring from then on. -/
theorem client_heals (hash : String → ℕ) (cacheNodes : List String) (replicas : ℕ)
    (hreplicas : 1 ≤ replicas) (hfree : CollisionFree hash replicas {n | n ∈ cacheNodes})
    (ls : List ClientLabel) (s : CacheClientState)
    (h : Machine.exec (step hash) (init hash cacheNodes replicas) ls = some s) :
    (s.NoneForgotten → ∃ t, Machine.Reaches (step hash) Heals s t ∧ t.walk = s.walk ∧
      t.checks = [] ∧ ∀ key, t.client.ring.getNode hash key =
        (init hash cacheNodes replicas).client.ring.getNode hash key) ∧
    (¬ s.NoneForgotten → ∃ n ∈ cacheNodes, ∀ ls' t, Machine.exec (step hash) s ls' = some t →
      n ∉ t.client.ring.nodes) := by
  have hs := routed_exec hreplicas hfree h
  have hinit := routed_init hreplicas hfree
  constructor
  · intro hnone
    obtain ⟨t, hreach, ht, hzero⟩ := reaches_no_checks hs hnone
    have hchecks : t.checks = [] := List.length_eq_zero_iff.mp hzero
    have hnodes : (init hash cacheNodes replicas).client.ring.nodes = t.client.ring.nodes := by
      ext n
      refine (ConsistentHashRing.mem_nodes_new hash cacheNodes replicas n).trans
        ⟨fun hn => ?_, fun hn => ?_⟩
      · refine (ht.none n (ht.routed.nodes.symm ▸ hn)).resolve_right fun hmem => ?_
        rw [hchecks] at hmem
        exact nomatch hmem
      · exact ht.routed.nodes ▸ ht.routed.accounted.known n hn
    refine ⟨t, hreach, ht.walk, hchecks, fun key => ?_⟩
    exact hinit.placed.represents.getNode_eq_of_nodes_eq ht.routed.placed.represents
      hinit.placed.replicas (ht.routed.replicas.trans hinit.replicas.symm) hnodes.symm key
  · intro hlost
    simp only [NoneForgotten, not_forall, not_or] at hlost
    obtain ⟨n, hn, hring, hcheck⟩ := hlost
    refine ⟨n, hs.nodes ▸ hn, fun ls' t ht => ?_⟩
    exact (forgotten_forever hs.accounted ⟨hring, hcheck⟩ ht).1

/-! ## An outage -/

/-- The first node that a lookup asks does not answer. -/
def outage : List ClientLabel := [.call "653bc09e", .pick, .failed]

/-- After the outage a key goes to the first of the nodes that are left. -/
theorem routes_to_first_live_outage :
    ∃ s, Machine.exec (step codeHash)
        (init codeHash ["a", "b", "c"] 1) outage = some s ∧
      s.client.ring.getNode codeHash "653bc09e" =
        .ok (((init codeHash ["a", "b", "c"] 1).client.ring.clockwiseOwners
          codeHash "653bc09e").find? (· ∈ s.client.ring.nodes)) := by
  have hruns : (Machine.exec (step codeHash)
      (init codeHash ["a", "b", "c"] 1) outage).isSome = true := by
    decide +kernel
  obtain ⟨s, hs⟩ := Option.isSome_iff_exists.mp hruns
  exact ⟨s, hs, routes_to_first_live _ _ 1 le_rfl
    (collisionFree_codeHash _ _) outage s hs _⟩

/-- Its check is asleep, and brings the node back. -/
theorem client_heals_outage :
    ∃ s t, Machine.exec (step codeHash)
        (init codeHash ["a", "b", "c"] 1) outage = some s ∧
      Machine.Reaches (step codeHash) Heals s t ∧ t.walk = s.walk ∧
      t.checks = [] ∧ ∀ key, t.client.ring.getNode codeHash key =
        (init codeHash ["a", "b", "c"] 1).client.ring.getNode
          codeHash key := by
  have hruns : (Machine.exec (step codeHash)
      (init codeHash ["a", "b", "c"] 1) outage).map (fun s =>
        decide (∀ n ∈ s.client.cacheNodes, n ∈ s.client.ring.nodes ∨ n ∈ s.checks)) =
      some true := by
    decide +kernel
  obtain ⟨s, hs, hnone⟩ := Option.map_eq_some_iff.mp hruns
  obtain ⟨t, ht⟩ := (client_heals _ _ 1 le_rfl (collisionFree_codeHash _ _)
    outage s hs).1 fun n hn => of_decide_eq_true hnone n hn
  exact ⟨s, t, hs, ht⟩

end CacheClientState
end Rcsce
