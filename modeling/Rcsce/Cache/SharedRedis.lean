import Rcsce.Lib.Machine
import Rcsce.Cache.Copies
import Rcsce.Cache.RedisCoherence

/-!
# Cache nodes that share one Redis, and the clean-up of an expired copy

Every node connects to the same Redis and uses the same key prefix, so the copy in Redis
may have been written by one node and the copy in the LRU of another node earlier, by that
node.  `LayerScanCache.get` looks at the expiry of the LRU copy and cleans up at both
levels.

`live_copy_survives_iff` is exact about a `get` that starts while Redis holds an unexpired
copy: it returns unexpired data and leaves an unexpired copy in Redis if and only if the
LRU of its node holds an unexpired copy, or none and the copy in Redis lasts until it is
looked at.  So a node that still holds an expired copy destroys the live one
(`live_copy_cleaned_up`).
-/

namespace Rcsce

universe u

/-- The nodes and their Redis. -/
structure CacheFleet (ι : Type u) where
  nodes : ι → LayerScanCache
  redis : CacheRedis

/-- What can happen next.  Every Redis command succeeds. -/
inductive FleetLabel (ι : Type u) where
  | get (i : ι) (h : String) (now redisNow : Time)
  | put (i : ι) (h : String) (scanResult : List (String × Json)) (createdAt now : Time)
  | redisDrops (fullKey : String)

namespace CacheFleet

open LayerScanCache

variable {ι : Type u} [DecidableEq ι]

/-- What a `get` at a node returns, with the node and Redis after it. -/
def served (s : CacheFleet ι) (i : ι) (h : String) (now redisNow : Time) :
    Except PyError Json × LayerScanCache × CacheRedis :=
  (s.nodes i).get s.redis { now := now, redisNow := redisNow } h

/-- One step. -/
def step (s : CacheFleet ι) : FleetLabel ι → Option (CacheFleet ι)
  | .get i h now redisNow => some
      ⟨Function.update s.nodes i (s.served i h now redisNow).2.1, (s.served i h now redisNow).2.2⟩
  | .put i h scanResult createdAt now =>
      let r := (s.nodes i).put s.redis { createdAt := createdAt, now := now } h (.obj scanResult)
      some ⟨Function.update s.nodes i r.1, r.2⟩
  | .redisDrops fullKey => some { s with redis := s.redis.erase fullKey }

/-- Nodes that have just been started, each with its capacity and its time to live, and an
empty Redis. -/
def start (config : ι → ℕ × ℤ) : CacheFleet ι :=
  ⟨fun i => .new (config i).1 (config i).2 true, .empty⟩

/-- The data are a scan result. -/
def IsResult : Judgement := fun _ d _ => ∃ v, d = .obj v

/-- Every node is connected, and every copy is a scan result. -/
structure Sound (s : CacheFleet ι) : Prop where
  connected : ∀ i, (s.nodes i).redis = true
  copies : ∀ i, Copies IsResult IsResult (s.nodes i).lru s.redis

variable {s s' : CacheFleet ι}

/-- A step of one node. -/
theorem Sound.update (hs : s.Sound) (i : ι) {c : LayerScanCache} {db : CacheRedis}
    (hconnected : c.redis = true) (hc : Copies IsResult IsResult c.lru db) :
    Sound ⟨Function.update s.nodes i c, db⟩ := by
  refine ⟨fun j => ?_, fun j => ?_⟩
  · show (Function.update s.nodes i c j).redis = true
    by_cases hj : j = i
    · subst hj
      rw [Function.update_self]
      exact hconnected
    · rw [Function.update_of_ne hj]
      exact hs.connected j
  · show Copies IsResult IsResult (Function.update s.nodes i c j).lru db
    by_cases hj : j = i
    · subst hj
      rw [Function.update_self]
      exact hc
    · rw [Function.update_of_ne hj]
      exact ⟨(hs.copies j).lru, hc.redis⟩

omit [DecidableEq ι] in
theorem start_sound (config : ι → ℕ × ℤ) : (start config).Sound :=
  ⟨fun _ => rfl, fun _ => .new _⟩

/-- **The step of the invariant.** -/
theorem step_sound {l : FleetLabel ι} (hs : s.Sound) (hstep : s.step l = some s') :
    s'.Sound := by
  cases l with
  | get i h now redisNow =>
    cases hstep
    refine hs.update i ?_ (copies_get (hs.copies i) _ h fun _ _ hd _ => hd).1
    exact ((get_config _ _ _ _).1).trans (hs.connected i)
  | put i h scanResult createdAt now =>
    cases hstep
    have hnew : ∀ et, IsResult h (.obj scanResult) et := fun _ => ⟨scanResult, rfl⟩
    refine hs.update i ?_ ?_
    · rw [put_fst]
      exact hs.connected i
    · exact copies_put (hs.copies i) _ (fun _ _ _ _ hd => hd) (hnew _) (fun _ _ _ _ hd => hd)
        (fun _ => hnew _) fun hw _ _ _ hraw => (hs.copies i).of_redis (get?_of_get?_put hw hraw)
  | redisDrops fullKey =>
    cases hstep
    exact ⟨hs.connected, fun i => (hs.copies i).drop fullKey⟩

/-- The data of an unexpired copy of `h`, in the LRU of the node or in Redis. -/
def FreshAt (s : CacheFleet ι) (i : ι) (h : String) (t : Time) (d : Json) : Prop :=
  ∃ ct et, ((s.nodes i).lru.cache.get? h = some (payload d ct et) ∨
    s.redis.get? (redisKey h) = some (.dumps (payload d ct et))) ∧ t ≤ et

/-- The `get` that starts at `now` returns a scan result that has not expired. -/
def ReturnsFresh (s : CacheFleet ι) (i : ι) (h : String) (now redisNow : Time) : Prop :=
  ∃ v, (s.served i h now redisNow).1 = .ok (.obj v) ∧ s.FreshAt i h now (.obj v)

/-- After that `get`, Redis still holds a copy that had not expired at `now`. -/
def KeepsLive (s : CacheFleet ι) (i : ι) (h : String) (now redisNow : Time) : Prop :=
  ∃ d ct et, (s.served i h now redisNow).2.2.get? (redisKey h) =
    some (.dumps (payload d ct et)) ∧ now ≤ et

/-- **When a live copy survives a `get`.**  In every run of any number of nodes that share
one Redis, a `get` of `h` that starts at `now`, while Redis holds a copy that expires at
`et` and `now ≤ et`, returns unexpired data and leaves an unexpired copy in Redis, if and
only if the LRU of the node holds an unexpired copy, or none and the copy in Redis has not
expired when the `get` looks at it. -/
theorem live_copy_survives_iff (config : ι → ℕ × ℤ) (ls : List (FleetLabel ι))
    (s : CacheFleet ι) (hexec : Machine.exec step (start config) ls = some s) (i : ι)
    (h : String) (now redisNow : Time) (d : Json) (ct et : Time)
    (hraw : s.redis.get? (redisKey h) = some (.dumps (payload d ct et))) (hlive : now ≤ et) :
    s.ReturnsFresh i h now redisNow ∧ s.KeepsLive i h now redisNow ↔
      (∃ d' ct' et', (s.nodes i).lru.cache.get? h = some (payload d' ct' et') ∧ now ≤ et') ∨
        (s.nodes i).lru.cache.get? h = none ∧ redisNow ≤ et := by
  have hs : s.Sound := Machine.exec_invariant (I := Sound) (fun _ _ _ hs hstep =>
    step_sound hs hstep) (start_sound config) hexec
  have hmiss : (s.served i h now redisNow).1 = .ok .null → ¬ s.ReturnsFresh i h now redisNow := by
    rintro hnull ⟨v, hv, -⟩
    rw [hnull] at hv
    cases hv
  cases hitem : (s.nodes i).lru.cache.get? h with
  | none =>
    have hget : s.served i h now redisNow =
        { s.nodes i with lru := ((s.nodes i).lru.get h).2 }.redisFallback s.redis
          { now := now, redisNow := redisNow } h := get_of_absent hitem _ _
    by_cases hle : redisNow ≤ et
    · have hhit : s.served i h now redisNow = (.ok d, _, s.redis) :=
        hget.trans (redisFallback_of_fresh (hs.connected i) rfl hraw hle)
      obtain ⟨v, rfl⟩ := (hs.copies i).of_redis hraw
      refine iff_of_true ⟨⟨v, by rw [hhit], ct, et, Or.inr hraw, hlive⟩, .obj v, ct, et, ?_,
        hlive⟩ (Or.inr ⟨rfl, hle⟩)
      rw [hhit]
      exact hraw
    · have hnull : s.served i h now redisNow = (.ok .null, _, _) :=
        hget.trans (redisFallback_of_expired (hs.connected i) rfl hraw (not_le.mp hle))
      refine iff_of_false (fun hboth => hmiss (by rw [hnull]) hboth.1) ?_
      rintro (⟨d', ct', et', hnone, -⟩ | ⟨-, hle'⟩)
      · cases hnone
      · exact hle hle'
  | some item =>
    obtain ⟨d', ct', et', rfl, v, rfl⟩ := (hs.copies i).lru h item hitem
    by_cases hle : now ≤ et'
    · have hhit : s.served i h now redisNow = (.ok (.obj v), _, s.redis) :=
        get_of_fresh hitem s.redis hle
      refine iff_of_true ⟨⟨v, by rw [hhit], ct', et', Or.inl hitem, hle⟩, d, ct, et, ?_, hlive⟩
        (Or.inl ⟨_, ct', et', rfl, hle⟩)
      rw [hhit]
      exact hraw
    · -- the clean-up removes the live copy too
      have hget : s.served i h now redisNow =
          { s.nodes i with lru := ((s.nodes i).lru.get h).2.delete h }.redisFallback
            ((s.nodes i).deleteFromRedis s.redis false h)
            { now := now, redisNow := redisNow } h :=
        get_of_expired hitem s.redis (not_le.mp hle)
      have hgone : ((s.nodes i).deleteFromRedis s.redis false h).get? (redisKey h) = none := by
        rw [deleteFromRedis, hs.connected i]
        exact OrderedDict.get?_erase_self _ _
      rw [redisFallback_of_absent fun _ => hgone] at hget
      refine iff_of_false (fun hboth => hmiss (by rw [hget]) hboth.1) ?_
      rintro (⟨d', ct', et'', hitem', hle'⟩ | ⟨hnone, -⟩)
      · obtain ⟨-, -, rfl⟩ := payload_inj (Option.some.inj hitem')
        exact hle hle'
      · cases hnone

/-- The second node, which has no copy of its own, serves what the first one has put. -/
theorem live_copy_survives_other_node :
    ∃ s, Machine.exec step (start fun _ : Bool => (10, 60))
        [.put true "653bc09e" [("total", .num 3)] 0 0] = some s ∧
      s.ReturnsFresh false "653bc09e" 5 5 ∧ s.KeepsLive false "653bc09e" 5 5 := by
  have hrun : ∃ s, Machine.exec step (start fun _ : Bool => (10, 60))
        [.put true "653bc09e" [("total", .num 3)] 0 0] = some s ∧
      s.redis.get? (redisKey "653bc09e") =
        some (.dumps (payload (.obj [("total", .num 3)]) 0 60)) ∧
      (s.nodes false).lru.cache.get? "653bc09e" = none :=
    ⟨_, by with_unfolding_all rfl, by with_unfolding_all rfl, by with_unfolding_all rfl⟩
  obtain ⟨s, hexec, hraw, hnone⟩ := hrun
  exact ⟨s, hexec, (live_copy_survives_iff (fun _ : Bool => (10, 60)) _ s hexec false "653bc09e"
    5 5 _ 0 60 hraw (by decide)).mpr (Or.inr ⟨hnone, by decide⟩)⟩

/-- The first node still has its expired copy when the second one has put the hash again;
its `get` is a miss and removes the new copy from Redis. -/
theorem live_copy_cleaned_up :
    ∃ s, Machine.exec step (start fun _ : Bool => (10, 10))
        [.put true "653bc09e" [("total", .num 3)] 0 0,
          .put false "653bc09e" [("total", .num 3)] 8 8] = some s ∧
      s.redis.get? (redisKey "653bc09e") =
        some (.dumps (payload (.obj [("total", .num 3)]) 8 18)) ∧ (12 : Time) ≤ 18 ∧
      (s.served true "653bc09e" 12 12).1 = .ok .null ∧
      (s.served true "653bc09e" 12 12).2.2.get? (redisKey "653bc09e") = none :=
  ⟨_, by with_unfolding_all rfl, by with_unfolding_all rfl, by decide,
    by with_unfolding_all rfl, by with_unfolding_all rfl⟩

end CacheFleet
end Rcsce
