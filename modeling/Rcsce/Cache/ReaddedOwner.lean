import Rcsce.Lib.Machine
import Rcsce.Cache.ClockwiseWalk

/-!
# Nodes that come back during a lookup

One call of `get_layer_scan` while the checks of other calls, and its own, put nodes back
on the ring.  A node that has failed in this call and is put back can become the owner of
the key again; `node in tried` then ends the loop, although other nodes have not been
asked.

## The machine

A step is a node that is put back (`readd`), the top of the loop (`pick`), or the end of
the request that the call waits for (`reply`).  Some nodes are `reliable`: a request to
them does not raise.  Without `readd` the run is the walk of `lookupLoop`
(`lookupLoop_exec`).

## The result

The number of rounds is never what ends the call while a reliable node has not been asked
(`Trying.rounds_left`).  So the call gives up exactly when the ring hands it no node, or
one that it has tried (`never_blocked_iff`).  On a ring without collisions the former does
not happen, and the latter takes a node that has failed in this call and was put back
(`not_blocked_of_no_return`).
-/

namespace Rcsce

/-- A call of `get_layer_scan` in progress. -/
structure LookupRun where
  client : DistributedCacheClient
  walk : Walk
  /-- The node whose answer the call waits for. -/
  asking : Option String
  /-- How the call has ended. -/
  result : Option LookupResult

/-- What can happen next. -/
inductive LookupLabel where
  /-- `ring.add_node` of a node of the client. -/
  | readd (node : String)
  /-- The call comes to the top of its loop. -/
  | pick
  /-- The request is answered, or raises. -/
  | reply (data : Option Json)

namespace LookupRun

variable (hash : String → ℕ) (reliable : Finset String)

/-- `get_layer_scan` is called. -/
def start (c : DistributedCacheClient) (layerHash : String) : LookupRun :=
  ⟨c, c.beginWalk layerHash, none, none⟩

/-- The top of the loop. -/
def pickStep (s : LookupRun) : LookupRun :=
  match s.walk.pick hash s.client.ring with
  | .error e => { s with result := some (.raised e) }
  | .ok none => { s with result := some .unreachable }
  | .ok (some node) => { s with walk := s.walk.asked node, asking := some node }

/-- One step. -/
def step (s : LookupRun) : LookupLabel → Option LookupRun
  | .readd node =>
      if node ∈ s.client.cacheNodes then some { s with client := s.client.readd hash node }
      else none
  | .pick =>
      match s.asking, s.result with
      | none, none => some (s.pickStep hash)
      | _, _ => none
  | .reply data =>
      match s.asking, data with
      | some _, some d => some { s with asking := none, result := some (.answered d) }
      | some node, none =>
          if node ∈ reliable then none
          else some { s with client := s.client.setAside hash node, asking := none }
      | none, _ => none

/-- What a step can do. -/
inductive Move (s : LookupRun) : LookupLabel → LookupRun → Prop
  | readds (node : String) (hnode : node ∈ s.client.cacheNodes) :
      Move s (.readd node) { s with client := s.client.readd hash node }
  | asks (node : String) (hasking : s.asking = none) (hresult : s.result = none)
      (hpick : s.walk.pick hash s.client.ring = .ok (some node)) :
      Move s .pick { s with walk := s.walk.asked node, asking := some node }
  | givesUp (hasking : s.asking = none) (hresult : s.result = none)
      (hpick : s.walk.pick hash s.client.ring = .ok none) :
      Move s .pick { s with result := some .unreachable }
  | raises (e : LookupError) (hasking : s.asking = none) (hresult : s.result = none)
      (hpick : s.walk.pick hash s.client.ring = .error e) :
      Move s .pick { s with result := some (.raised e) }
  | answers (node : String) (data : Json) (hasking : s.asking = some node) :
      Move s (.reply (some data)) { s with asking := none, result := some (.answered data) }
  | fails (node : String) (hasking : s.asking = some node) (hnode : node ∉ reliable) :
      Move s (.reply none) { s with client := s.client.setAside hash node, asking := none }

variable {hash reliable} {s s' : LookupRun} {l : LookupLabel}

theorem step_cases (h : s.step hash reliable l = some s') : s.Move hash reliable l s' := by
  cases l with
  | readd node =>
    rw [step] at h
    split_ifs at h with hnode
    cases h
    exact .readds node hnode
  | pick =>
    rw [step] at h
    split at h
    · rename_i hasking hresult
      cases h
      rw [pickStep]
      split
      · exact .raises _ hasking hresult ‹_›
      · exact .givesUp hasking hresult ‹_›
      · exact .asks _ hasking hresult ‹_›
    · cases h
  | reply data =>
    cases hasking : s.asking with
    | none => simp [step, hasking] at h
    | some node =>
      simp only [step, hasking] at h
      cases data with
      | some data =>
        cases h
        exact .answers node data hasking
      | none =>
        dsimp only at h
        split_ifs at h with hnode
        cases h
        exact .fails node hasking hnode

/-! ## The run without nodes that come back -/

/-- **The loop is a run**, in which no node comes back. -/
theorem lookupLoop_exec (hash : String → ℕ) {reliable : Finset String}
    {reply : String → Option Json} (hreply : ∀ n ∈ reliable, reply n ≠ none) (layerHash : String)
    (remaining : ℕ) (tried : Finset String) (s : Lookup) :
    ∃ ls w, (∀ n, LookupLabel.readd n ∉ ls) ∧
      Machine.exec (step hash reliable) ⟨s.client, ⟨layerHash, tried, remaining⟩, none, none⟩ ls =
        some ⟨(s.lookupLoop hash reply layerHash remaining tried).2.client, w, none,
          some (s.lookupLoop hash reply layerHash remaining tried).1⟩ := by
  induction remaining generalizing tried s with
  | zero => exact ⟨[.pick], _, by simp, rfl⟩
  | succ remaining ih =>
    rw [Lookup.lookupLoop]
    cases hpick : (⟨layerHash, tried, remaining + 1⟩ : Walk).pick hash s.client.ring with
    | error e =>
      refine ⟨[.pick], ⟨layerHash, tried, remaining + 1⟩, by simp, ?_⟩
      rw [Machine.exec_cons, step, pickStep, hpick]
      rfl
    | ok next =>
      cases next with
      | none =>
        refine ⟨[.pick], ⟨layerHash, tried, remaining + 1⟩, by simp, ?_⟩
        rw [Machine.exec_cons, step, pickStep, hpick]
        rfl
      | some node =>
        have hasks : step hash reliable ⟨s.client, ⟨layerHash, tried, remaining + 1⟩, none, none⟩
            .pick =
              some ⟨s.client, ⟨layerHash, insert node tried, remaining⟩, some node, none⟩ := by
          rw [step, pickStep, hpick]
          rfl
        dsimp only
        cases hnode : reply node with
        | some data =>
          refine ⟨[.pick, .reply (some data)], ⟨layerHash, insert node tried, remaining⟩,
            by simp, ?_⟩
          rw [Machine.exec_cons_of_step _ hasks]
          rfl
        | none =>
          obtain ⟨ls, w, hls, hexec⟩ := ih (insert node tried) (s.setAside hash node)
          have hfails : step hash reliable
              ⟨s.client, ⟨layerHash, insert node tried, remaining⟩, some node, none⟩ (.reply none) =
                some ⟨s.client.setAside hash node, ⟨layerHash, insert node tried, remaining⟩, none,
                  none⟩ :=
            if_neg fun h => hreply node h hnode
          refine ⟨.pick :: .reply none :: ls, w, ?_, ?_⟩
          · simpa using hls
          · rw [Machine.exec_cons_of_step _ hasks, Machine.exec_cons_of_step _ hfails]
            exact hexec

/-! ## The rounds suffice -/

/-- The call has not given up. -/
def NotUnreachable (s : LookupRun) : Prop := s.result ≠ some .unreachable

/-- At the top of the loop the ring has a node for the key, and the call has not tried it. -/
def RoutesToUntried (hash : String → ℕ) (s : LookupRun) : Prop :=
  s.client.ring.getNode hash s.walk.layerHash ≠ .ok none ∧
    ∀ n, s.client.ring.getNode hash s.walk.layerHash = .ok (some n) →
      n ≠ "" ∧ n ∉ s.walk.tried

/-- Whenever the call comes to the top of its loop. -/
def OwnerUntried (hash : String → ℕ) (s : LookupRun) (l : LookupLabel) (_ : LookupRun) : Prop :=
  l = .pick → s.RoutesToUntried hash

/-- The nodes of the ring and those that were tried are nodes of the client, every round
has tried another one, and a node `g` that answers has not been tried in vain. -/
structure Trying (hash : String → ℕ) (g : String) (s : LookupRun) : Prop where
  owners : ConsistentHashRing.OwnersLive hash s.client.ring
  known : ∀ n ∈ s.client.ring.nodes, n ∈ s.client.cacheNodes
  tried : ∀ n ∈ s.walk.tried, n ∈ s.client.cacheNodes
  rounds : s.walk.remaining + s.walk.tried.card = s.client.cacheNodes.length
  good : g ∈ s.client.cacheNodes
  unasked : s.asking = none → s.result = none → g ∉ s.walk.tried
  asks : ∀ n, s.asking = some n → n ≠ g → g ∉ s.walk.tried

theorem Trying.start {c : DistributedCacheClient} {g : String}
    (howners : ConsistentHashRing.OwnersLive hash c.ring)
    (hknown : ∀ n ∈ c.ring.nodes, n ∈ c.cacheNodes) (hg : g ∈ c.cacheNodes)
    (layerHash : String) : Trying hash g (start c layerHash) where
  owners := howners
  known := hknown
  tried := fun n hn => absurd hn (Finset.notMem_empty n)
  rounds := Nat.add_zero _
  good := hg
  unasked := fun _ _ => Finset.notMem_empty g
  asks := fun _ h => nomatch h

/-- At the top of the loop there is a round left. -/
theorem Trying.rounds_left {g : String} (hs : s.Trying hash g) (hasking : s.asking = none)
    (hresult : s.result = none) : s.walk.remaining ≠ 0 := by
  have hnew := hs.unasked hasking hresult
  have hsub : insert g s.walk.tried ⊆ s.client.cacheNodes.toFinset := by
    intro n hn
    rcases Finset.mem_insert.mp hn with rfl | hold
    · exact List.mem_toFinset.mpr hs.good
    · exact List.mem_toFinset.mpr (hs.tried n hold)
  have hcard := (Finset.card_le_card hsub).trans (List.toFinset_card_le _)
  rw [Finset.card_insert_of_notMem hnew] at hcard
  have hrounds := hs.rounds
  omega

/-- A node that is picked is an untried node of the ring. -/
theorem Trying.pick {g node : String} (hs : s.Trying hash g)
    (hpick : s.walk.pick hash s.client.ring = .ok (some node)) :
    s.walk.remaining ≠ 0 ∧ node ∈ s.client.cacheNodes ∧ node ∉ s.walk.tried := by
  have hnode := hs.owners.mem_of_getNode (Walk.getNode_of_pick hpick)
  have hget := Walk.getNode_of_pick hpick
  rw [Walk.pick] at hpick
  split_ifs at hpick with hzero
  · cases hpick
  · rw [hget] at hpick
    dsimp only at hpick
    split_ifs at hpick with hbad
    · cases hpick
    · exact ⟨hzero, hs.known node hnode, fun h => hbad (Or.inr h)⟩

/-- **The step of the invariant.** -/
theorem step_trying {g : String} (hg : g ∈ reliable) (hs : s.Trying hash g)
    (h : s.step hash reliable l = some s') : s'.Trying hash g := by
  cases step_cases h with
  | readds node hnode =>
    refine ⟨hs.owners.apply (.add node), fun n hn => ?_, hs.tried, hs.rounds, hs.good,
      hs.unasked, hs.asks⟩
    have hmem : n ∈ insert node s.client.ring.nodes :=
      ConsistentHashRing.nodes_addNode hash s.client.ring node ▸ hn
    rcases Finset.mem_insert.mp hmem with rfl | hold
    · exact hnode
    · exact hs.known n hold
  | asks node hasking hresult hpick =>
    obtain ⟨hround, hnode, hnew⟩ := hs.pick hpick
    refine ⟨hs.owners, hs.known, fun n hn => ?_, ?_, hs.good, (fun h => nomatch h), ?_⟩
    · rcases Finset.mem_insert.mp hn with rfl | hold
      · exact hnode
      · exact hs.tried n hold
    · show s.walk.remaining - 1 + (insert node s.walk.tried).card = s.client.cacheNodes.length
      rw [Finset.card_insert_of_notMem hnew]
      have hrounds := hs.rounds
      omega
    · intro n hn hne hmem
      obtain rfl := Option.some.inj hn
      rcases Finset.mem_insert.mp hmem with heq | hold
      · exact hne heq.symm
      · exact hs.unasked hasking hresult hold
  | givesUp hasking hresult hpick | raises e hasking hresult hpick =>
    exact ⟨hs.owners, hs.known, hs.tried, hs.rounds, hs.good, (fun _ h => nomatch h), hs.asks⟩
  | answers node data hasking =>
    exact ⟨hs.owners, hs.known, hs.tried, hs.rounds, hs.good, (fun _ h => nomatch h),
      fun _ h => nomatch h⟩
  | fails node hasking hnode =>
    have hne : node ≠ g := fun heq => hnode (heq ▸ hg)
    refine ⟨hs.owners.apply (.remove node), fun n hn => ?_, hs.tried, hs.rounds, hs.good,
      fun _ _ => hs.asks node hasking hne, fun _ h => nomatch h⟩
    have hmem : n ∈ s.client.ring.nodes.erase node :=
      ConsistentHashRing.nodes_removeNode hash s.client.ring node ▸ hn
    exact hs.known n (Finset.mem_of_mem_erase hmem)

/-! ## Exactly when the call gives up -/

/-- While a round is left, the loop ends without a node exactly when the ring has none for
it, or one that it does not ask. -/
theorem pick_eq_none_iff {w : Walk} {ring : ConsistentHashRing} (hround : w.remaining ≠ 0) :
    w.pick hash ring = .ok none ↔ ring.getNode hash w.layerHash = .ok none ∨
      ∃ n, ring.getNode hash w.layerHash = .ok (some n) ∧ (n = "" ∨ n ∈ w.tried) := by
  rw [Walk.pick, if_neg hround]
  split
  · rename_i e he
    simp [he]
  · rename_i hnone
    simp [hnone]
  · rename_i node hnode
    by_cases hbad : node = "" ∨ node ∈ w.tried
    · simp [hnode, hbad]
    · simp [hnode, hbad]

theorem step_notUnreachable_iff {g : String} (hs : s.Trying hash g) (hok : s.NotUnreachable)
    (h : s.step hash reliable l = some s') : s'.NotUnreachable ↔ s.OwnerUntried hash l s' := by
  have hpicks : ∀ (hasking : s.asking = none) (hresult : s.result = none),
      s.walk.pick hash s.client.ring ≠ .ok none ↔ s.RoutesToUntried hash := by
    intro hasking hresult
    rw [Ne, pick_eq_none_iff (hs.rounds_left hasking hresult), not_or, RoutesToUntried]
    simp only [not_exists, not_and, not_or, ne_eq]
  cases step_cases h with
  | readds node hnode => exact iff_of_true hok fun heq => nomatch heq
  | asks node hasking hresult hpick =>
    refine iff_of_true hok fun _ => (hpicks hasking hresult).mp ?_
    rw [hpick]
    exact fun heq => nomatch heq
  | givesUp hasking hresult hpick =>
    exact iff_of_false (fun hne => hne rfl)
      fun hall => (hpicks hasking hresult).mpr (hall rfl) hpick
  | raises e hasking hresult hpick =>
    refine iff_of_true (fun heq => nomatch heq) fun _ => (hpicks hasking hresult).mp ?_
    rw [hpick]
    exact fun heq => nomatch heq
  | answers node data hasking =>
    exact iff_of_true (fun heq => nomatch heq) fun heq => nomatch heq
  | fails node hasking hnode => exact iff_of_true hok fun heq => nomatch heq

/-- The exact condition on a run, from any point of a call. -/
theorem visits_notUnreachable_iff {g : String} (hg : g ∈ reliable) (hs : s.Trying hash g)
    (hok : s.NotUnreachable) (ls : List LookupLabel) :
    Machine.Visits (step hash reliable) NotUnreachable s ls ↔
      Machine.Meets (step hash reliable) (OwnerUntried hash) s ls :=
  Machine.visits_iff_meets (I := Trying hash g) (fun _ _ _ hs h => step_trying hg hs h)
    (fun _ _ _ hs hok h => step_notUnreachable_iff hs hok h) hs hok ls

/-- A call starts well on every ring that a history of the client's nodes leads to. -/
theorem trying_start_run {cacheNodes : List String} {replicas : ℕ} {init : List String}
    {ops : List ConsistentHashRing.Op} (hinit : ∀ n ∈ init, n ∈ cacheNodes)
    (hops : ∀ op ∈ ops, op.node ∈ cacheNodes) {g : String}
    (hring : g ∈ ((ConsistentHashRing.new hash init replicas).run hash ops).nodes)
    (layerHash : String) : Trying hash g
      (start ⟨cacheNodes, (ConsistentHashRing.new hash init replicas).run hash ops⟩ layerHash) := by
  have hknown : ∀ n ∈ ((ConsistentHashRing.new hash init replicas).run hash ops).nodes,
      n ∈ cacheNodes := by
    have hsubset : ↑((ConsistentHashRing.new hash init replicas).run hash ops).nodes ⊆
        {n | n ∈ cacheNodes} := ConsistentHashRing.nodes_run_new_subset hinit hops
    exact fun n hn => hsubset hn
  refine Trying.start ?_ hknown (hknown g hring) layerHash
  show ConsistentHashRing.OwnersLive hash ((ConsistentHashRing.new hash init replicas).run hash ops)
  rw [ConsistentHashRing.run_new]
  exact ConsistentHashRing.ownersLive_run (ConsistentHashRing.ownersLive_empty replicas) _

/-- **When a lookup is not blocked.**  Let a node of the client answer whenever it is asked.
Whatever nodes come back while the call runs, it does not give up if and only if, each time
it comes to the top of its loop, the ring has a node for the key that the call has not
tried yet. -/
theorem never_blocked_iff (hash : String → ℕ) (reliable : Finset String)
    (cacheNodes : List String) (replicas : ℕ) (init : List String)
    (ops : List ConsistentHashRing.Op) (hinit : ∀ n ∈ init, n ∈ cacheNodes)
    (hops : ∀ op ∈ ops, op.node ∈ cacheNodes) (g : String) (hg : g ∈ reliable)
    (hring : g ∈ ((ConsistentHashRing.new hash init replicas).run hash ops).nodes)
    (layerHash : String) (ls : List LookupLabel) :
    let c := ⟨cacheNodes, (ConsistentHashRing.new hash init replicas).run hash ops⟩
    Machine.Visits (step hash reliable) NotUnreachable (start c layerHash) ls ↔
      Machine.Meets (step hash reliable) (OwnerUntried hash) (start c layerHash) ls :=
  visits_notUnreachable_iff hg (trying_start_run hinit hops hring layerHash)
    (fun h => nomatch h) ls

/-- A hash for two nodes with a point each, `a` before `b`. -/
def twoPoints (s : String) : ℕ := if s = "a#0" then 1 else if s = "b#0" then 2 else 0

/-- The first node fails and the second one answers. -/
theorem never_blocked_iff_second_answers :
    Machine.Visits (step twoPoints {"b"}) NotUnreachable
      (start ⟨["a", "b"], (ConsistentHashRing.new twoPoints ["a", "b"] 1).run twoPoints []⟩ "653b")
      [.pick, .reply none, .pick, .reply (some .null)] := by
  refine (never_blocked_iff twoPoints {"b"} ["a", "b"] 1 ["a", "b"] [] (by simp) (by simp) "b"
    (by decide) (by decide) "653b" _).mpr ?_
  refine .cons_of_step rfl (fun _ => ⟨?_, ?_⟩) (.cons_of_step rfl (fun h => nomatch h)
    (.cons_of_step rfl (fun _ => ⟨?_, ?_⟩) (.cons_of_step rfl (fun h => nomatch h)
      Machine.meets_nil)))
  · decide
  · intro n hn
    obtain rfl : "a" = n := Option.some.inj (Except.ok.inj hn)
    decide
  · decide
  · intro n hn
    obtain rfl : "b" = n := Option.some.inj (Except.ok.inj hn)
    decide

/-- The first node fails, comes back, and is the owner again: the call gives up without
asking the second one, which would answer. -/
theorem readded_owner_blocks :
    "b" ∈ (DistributedCacheClient.new twoPoints ["a", "b"] 1).ring.nodes ∧
      ∃ s, Machine.exec (step twoPoints {"b"}) (start (.new twoPoints ["a", "b"] 1) "653b")
          [.pick, .reply none, .readd "a", .pick] = some s ∧ s.result = some .unreachable :=
  ⟨by decide, _, rfl, rfl⟩

/-! ## On a ring without collisions -/

section Collisions

open ConsistentHashRing

/-- No node that the call has tried comes back, unless it is on the ring anyway. -/
def NoReturn (s : LookupRun) (l : LookupLabel) (_ : LookupRun) : Prop :=
  ∀ n, l = .readd n → n ∈ s.walk.tried → n ∈ s.client.ring.nodes

/-- The ring is one of the client's nodes, among them `g`, and a node that was tried is off
the ring as soon as its request has ended. -/
structure Walking (hash : String → ℕ) (names : Set String) (g : String) (s : LookupRun) :
    Prop where
  represents : Represents hash s.client.ring
  replicas : 1 ≤ s.client.ring.virtualReplicas
  free : CollisionFree hash s.client.ring.virtualReplicas names
  client : ∀ n ∈ s.client.cacheNodes, n ∈ names
  known : ↑s.client.ring.nodes ⊆ names
  good : g ∈ s.client.ring.nodes
  away : ∀ n ∈ s.walk.tried, n ∈ s.client.ring.nodes → s.asking = some n ∨ s.result ≠ none

theorem Walking.placed {names : Set String} {g : String} (hs : s.Walking hash names g) :
    Placed hash names s.client.ring :=
  ⟨hs.represents, hs.replicas, hs.free, hs.known⟩

/-- The ring of a walk after a step that leaves it a ring of the client's nodes. -/
theorem Walking.of_placed {names : Set String} {g : String}
    (hplaced : Placed hash names s.client.ring) (hclient : ∀ n ∈ s.client.cacheNodes, n ∈ names)
    (hgood : g ∈ s.client.ring.nodes)
    (haway : ∀ n ∈ s.walk.tried, n ∈ s.client.ring.nodes → s.asking = some n ∨ s.result ≠ none) :
    s.Walking hash names g :=
  ⟨hplaced.represents, hplaced.replicas, hplaced.free, hclient, hplaced.known, hgood, haway⟩

theorem step_walking {names : Set String} {g : String} (hg : g ∈ reliable)
    (hs : s.Walking hash names g) (hreturn : s.NoReturn l s')
    (h : s.step hash reliable l = some s') : s'.Walking hash names g := by
  cases step_cases h with
  | readds node hnode =>
    have hnodes := nodes_addNode hash s.client.ring node
    refine Walking.of_placed (hs.placed.addNode (hs.client node hnode)) hs.client ?_ ?_
    · show g ∈ (s.client.ring.addNode hash node).nodes
      rw [hnodes]
      exact Finset.mem_insert_of_mem hs.good
    · intro n hn hring
      have hmem : n ∈ insert node s.client.ring.nodes := hnodes ▸ hring
      rcases Finset.mem_insert.mp hmem with rfl | hold
      · exact hs.away n hn (hreturn n rfl hn)
      · exact hs.away n hn hold
  | asks node hasking hresult hpick =>
    refine ⟨hs.represents, hs.replicas, hs.free, hs.client, hs.known, hs.good, ?_⟩
    intro n hn hring
    rcases Finset.mem_insert.mp hn with rfl | hold
    · exact Or.inl rfl
    · rcases hs.away n hold hring with hask | hres
      · exact nomatch hasking.symm.trans hask
      · exact absurd hresult hres
  | givesUp hasking hresult hpick | raises e hasking hresult hpick =>
    exact ⟨hs.represents, hs.replicas, hs.free, hs.client, hs.known, hs.good,
      fun _ _ _ => Or.inr fun heq => nomatch heq⟩
  | answers node data hasking =>
    exact ⟨hs.represents, hs.replicas, hs.free, hs.client, hs.known, hs.good,
      fun _ _ _ => Or.inr fun heq => nomatch heq⟩
  | fails node hasking hnode =>
    have hnodes := nodes_removeNode hash s.client.ring node
    have hne : g ≠ node := fun heq => hnode (heq ▸ hg)
    refine Walking.of_placed (hs.placed.removeNode node) hs.client ?_ ?_
    · show g ∈ (s.client.ring.removeNode hash node).nodes
      rw [hnodes]
      exact Finset.mem_erase.mpr ⟨hne, hs.good⟩
    · intro n hn hring
      have hmem : n ∈ s.client.ring.nodes.erase node := hnodes ▸ hring
      obtain ⟨hother, hold⟩ := Finset.mem_erase.mp hmem
      rcases hs.away n hn hold with hask | hres
      · exact absurd (Option.some.inj (hask.symm.trans hasking)) hother
      · exact Or.inr hres

/-- Then the owner of the key has not been tried. -/
theorem Walking.routesToUntried {names : Set String} {g : String} (hs : s.Walking hash names g)
    (hempty : "" ∉ names) (h : s.step hash reliable .pick = some s') :
    s.RoutesToUntried hash := by
  have hidle : s.asking = none ∧ s.result = none := by
    cases step_cases h with
    | asks node hasking hresult | givesUp hasking hresult | raises e hasking hresult =>
      exact ⟨hasking, hresult⟩
  obtain ⟨m, hm, hget⟩ := hs.represents.getNode_mem hs.replicas
    (Finset.ne_empty_of_mem hs.good) s.walk.layerHash
  refine ⟨(fun hnone => nomatch hget.symm.trans hnone), fun n hn => ?_⟩
  obtain rfl : m = n := Option.some.inj (Except.ok.inj (hget.symm.trans hn))
  refine ⟨fun heq => hempty (heq ▸ hs.known hm), fun htried => ?_⟩
  rcases hs.away m htried hm with hask | hres
  · exact nomatch hidle.1.symm.trans hask
  · exact hres hidle.2

/-- **A lookup is blocked only by a node that has failed in it and come back.**  On a ring
without collisions, with at least one replica a node and no empty name, a call gives up
although a reliable node is on the ring only if such a node was put back meanwhile. -/
theorem not_blocked_of_no_return (hash : String → ℕ) (reliable : Finset String)
    (cacheNodes : List String) (hempty : "" ∉ cacheNodes) (replicas : ℕ)
    (hreplicas : 1 ≤ replicas) (hfree : CollisionFree hash replicas {n | n ∈ cacheNodes})
    (init : List String) (ops : List Op) (hinit : ∀ n ∈ init, n ∈ cacheNodes)
    (hops : ∀ op ∈ ops, op.node ∈ cacheNodes) (g : String) (hg : g ∈ reliable)
    (hring : g ∈ ((ConsistentHashRing.new hash init replicas).run hash ops).nodes)
    (layerHash : String) (ls : List LookupLabel)
    (hls : Machine.Meets (step hash reliable) NoReturn (start
      ⟨cacheNodes, (ConsistentHashRing.new hash init replicas).run hash ops⟩ layerHash) ls) :
    Machine.Visits (step hash reliable) NotUnreachable (start
      ⟨cacheNodes, (ConsistentHashRing.new hash init replicas).run hash ops⟩ layerHash) ls := by
  refine (visits_notUnreachable_iff hg (trying_start_run hinit hops hring layerHash)
    (fun h => nomatch h) ls).mpr ?_
  refine Machine.Meets.of_invariant (I := Walking hash {n | n ∈ cacheNodes} g) (C := NoReturn)
    ?_ ?_ ?_ hls
  · exact fun s l s' hs hreturn h => step_walking hg hs hreturn h
  · rintro s l s' hs - h rfl
    exact hs.routesToUntried hempty h
  · exact Walking.of_placed (Placed.run_new hreplicas hfree hinit hops) (fun n hn => hn) hring
      fun n hn => absurd hn (Finset.notMem_empty n)

end Collisions

end LookupRun
end Rcsce
