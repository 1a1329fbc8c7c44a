import Rcsce.Cache.HashRing

/-!
# What adding or removing a node moves

Two rings over the same hash, one with some of the nodes of the other, route a key alike
as soon as the larger one routes it to a node of the smaller one
(`Represents.getNode_of_subset`): the point that follows the key is then on both.  Adding
a node and removing one are both instances, with the ring before and the ring after as the
two rings.

So `add_node` moves a key to the new node or not at all, `remove_node` moves only the keys
of the node that it removes, and one after the other they move none
(`minimal_disruption`).
-/

namespace Rcsce
namespace ConsistentHashRing
namespace Represents

variable {hash : String → ℕ} {r r' : ConsistentHashRing}

/-- A node of the smaller ring to which the larger one routes has the key on both. -/
theorem getNode_of_subset (h : Represents hash r) (h' : Represents hash r')
    (hreplicas : r'.virtualReplicas = r.virtualReplicas) (hpos : 1 ≤ r.virtualReplicas)
    (hsub : r.nodes ⊆ r'.nodes) {key n : String} (hget : r'.getNode hash key = .ok (some n))
    (hn : n ∈ r.nodes) : r.getNode hash key = .ok (some n) := by
  have hne : r.nodes ≠ ∅ := Finset.ne_empty_of_mem hn
  have hne' : r'.nodes ≠ ∅ := Finset.ne_empty_of_mem (hsub hn)
  have hpos' : 1 ≤ r'.virtualReplicas := hpos.trans_eq hreplicas.symm
  obtain ⟨p', m', hget', hown', hnext'⟩ := h'.getNode_spec hpos' hne' key
  obtain ⟨p, m, hgetr, hown, hnext⟩ := h.getNode_spec hpos hne key
  obtain rfl : m' = n := Option.some.inj (Except.ok.inj (hget'.symm.trans hget))
  -- the point that the larger ring finds belongs to a node of the smaller one
  have hpoint : r.ring.get? p' = some m' := by
    refine (h.owner p' m').mpr ⟨hn, ?_⟩
    rw [← hreplicas]
    exact ((h'.owner p' m').mp hown').2
  have hring : {q | q ∈ r.ring} ⊆ {q | q ∈ r'.ring} := by
    intro q hq
    obtain ⟨k, hk, hlabel⟩ := h.mem_ring.mp hq
    rw [← hreplicas] at hlabel
    exact h'.mem_ring.mpr ⟨k, hsub hk, hlabel⟩
  have hsame := hnext'.of_subset hring (OrderedDict.mem_iff_get?.mpr ⟨m', hpoint⟩)
  rw [hnext.unique hsame, hpoint] at hown
  rw [hgetr, Option.some.inj hown]

end Represents

namespace Placed

variable {hash : String → ℕ} {names : Set String} {r : ConsistentHashRing}

/-- **After `add_node`** a key goes where it went, or to the new node. -/
theorem getNode_addNode (h : Placed hash names r) {n : String} (hn : n ∈ names) (key : String) :
    (r.addNode hash n).getNode hash key = r.getNode hash key ∨
      (r.addNode hash n).getNode hash key = .ok (some n) := by
  have h' := h.addNode hn
  have hreplicas : (r.addNode hash n).virtualReplicas = r.virtualReplicas :=
    virtualReplicas_apply r (.add n)
  have hnodes := nodes_addNode hash r n
  have hne : (r.addNode hash n).nodes ≠ ∅ := hnodes ▸ Finset.insert_ne_empty n r.nodes
  obtain ⟨m, hm, hget⟩ := h'.represents.getNode_mem h'.replicas hne key
  rw [hnodes] at hm
  rcases Finset.mem_insert.mp hm with rfl | hold
  · exact Or.inr hget
  · refine Or.inl (hget.trans ?_)
    refine (h.represents.getNode_of_subset h'.represents hreplicas h.replicas ?_ hget hold).symm
    rw [hnodes]
    exact Finset.subset_insert n r.nodes

/-- **After `remove_node`** a key of another node goes where it went. -/
theorem getNode_removeNode (h : Placed hash names r) {n key : String}
    (hother : r.getNode hash key ≠ .ok (some n)) :
    (r.removeNode hash n).getNode hash key = r.getNode hash key := by
  have h' := h.removeNode n
  have hreplicas : (r.removeNode hash n).virtualReplicas = r.virtualReplicas :=
    virtualReplicas_apply r (.remove n)
  have hnodes := nodes_removeNode hash r n
  by_cases hempty : r.nodes = ∅
  · have hempty' : (r.removeNode hash n).nodes = ∅ := by rw [hnodes, hempty, Finset.erase_empty]
    rw [h.represents.getNode_empty h.replicas hempty,
      h'.represents.getNode_empty h'.replicas hempty']
  · obtain ⟨m, hm, hget⟩ := h.represents.getNode_mem h.replicas hempty key
    have hne : m ≠ n := fun heq => hother (heq ▸ hget)
    have hsub : (r.removeNode hash n).nodes ⊆ r.nodes := hnodes ▸ Finset.erase_subset n r.nodes
    rw [hget]
    refine h'.represents.getNode_of_subset h.represents hreplicas.symm h'.replicas hsub hget ?_
    rw [hnodes]
    exact Finset.mem_erase.mpr ⟨hne, hm⟩

/-- **A node that is added and removed again** leaves the routing as it was. -/
theorem getNode_removeNode_addNode (h : Placed hash names r) {n : String} (hn : n ∈ names)
    (hnew : n ∉ r.nodes) (key : String) :
    ((r.addNode hash n).removeNode hash n).getNode hash key = r.getNode hash key := by
  have hreplicas : ((r.addNode hash n).removeNode hash n).virtualReplicas = r.virtualReplicas :=
    (virtualReplicas_apply (r.addNode hash n) (.remove n)).trans (virtualReplicas_apply r (.add n))
  have h' := ((h.addNode hn).removeNode n).represents
  refine h.represents.getNode_eq_of_nodes_eq h' h.replicas hreplicas ?_ key
  rw [nodes_removeNode, nodes_addNode, Finset.erase_insert hnew]

end Placed

/-- **Minimal disruption.**  On every ring that `add_node` and `remove_node` can lead to,
adding a node leaves a key where it is or moves it to the new node, removing a node moves
only its own keys, and removing a node that has just been added moves none. -/
theorem minimal_disruption (hash : String → ℕ) (replicas : ℕ) (hreplicas : 1 ≤ replicas)
    (names : Set String) (hfree : CollisionFree hash replicas names) (init : List String)
    (ops : List Op) (hinit : ∀ m ∈ init, m ∈ names) (hops : ∀ op ∈ ops, op.node ∈ names)
    (n : String) (hn : n ∈ names) (key : String) :
    let r := (new hash init replicas).run hash ops
    ((r.addNode hash n).getNode hash key = r.getNode hash key ∨
        (r.addNode hash n).getNode hash key = .ok (some n)) ∧
      (r.getNode hash key ≠ .ok (some n) →
        (r.removeNode hash n).getNode hash key = r.getNode hash key) ∧
      (n ∉ r.nodes →
        ((r.addNode hash n).removeNode hash n).getNode hash key = r.getNode hash key) := by
  intro r
  have hplaced : Placed hash names r := Placed.run_new hreplicas hfree hinit hops
  exact ⟨hplaced.getNode_addNode hn key, fun hother => hplaced.getNode_removeNode hother,
    fun hnew => hplaced.getNode_removeNode_addNode hn hnew key⟩

/-- The node `c` comes and goes. -/
theorem minimal_disruption_transient :
    (((new codeHash ["a"] 2).run codeHash [.add "b"]).addNode codeHash "c" |>.removeNode codeHash
        "c").getNode codeHash "653bc09e" =
      ((new codeHash ["a"] 2).run codeHash [.add "b"]).getNode codeHash "653bc09e" := by
  refine (minimal_disruption codeHash 2 (by decide) Set.univ (collisionFree_codeHash _ _) ["a"]
    [.add "b"] (by simp) (by simp) "c" (Set.mem_univ _) "653bc09e").2.2 ?_
  rw [run_new, nodes_run]
  decide

end ConsistentHashRing
end Rcsce
