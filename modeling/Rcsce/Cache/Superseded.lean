import Rcsce.Cache.CacheNode

/-!
# When a flaky Redis brings back a superseded result

Any Redis command of `LayerScanCache` may raise, and the exception is swallowed.  What a
`put` could not write, or a `delete` could not remove, stays in Redis as it was, and is
served once the LRU has lost its own copy.

`LatestNode` is a cache node that remembers, for each hash, the result of the last `put`
with no deletion after it.  `AllLatest` says that every copy at either level is that
result.  `allLatest_iff` is exact about the copies: a run keeps them so if and only if
each of its steps leaves no other copy of the hash that it writes or deletes in Redis
(`LeavesNoStale`).  In such a run a `get` never answers with anything superseded
(`superseded_never_served`).
-/

namespace Rcsce

/-- A cache node, and the result last put under each hash and not deleted since. -/
structure LatestNode where
  node : FlakyNode
  latest : String → Option (List (String × Json))

namespace LatestNode

open LayerScanCache

/-- The last results after a label. -/
def record (latest : String → Option (List (String × Json))) :
    FlakyLabel → String → Option (List (String × Json))
  | .put h v _ => Function.update latest h (some v)
  | .delete h _ | .deleteCache h => Function.update latest h none
  | _ => latest

/-- One step of the node, recorded. -/
def step (s : LatestNode) (l : FlakyLabel) : Option LatestNode :=
  (s.node.step l).map fun node => ⟨node, record s.latest l⟩

/-- A node that has just been started. -/
def start (capacity : ℕ) (ttlSeconds : ℤ) (redis : Bool) : LatestNode :=
  ⟨.start capacity ttlSeconds redis, fun _ => none⟩

/-- The data are the last result of the hash. -/
def IsLatest (latest : String → Option (List (String × Json))) : Judgement :=
  fun k d _ => ∃ v, d = .obj v ∧ latest k = some v

/-- Every copy at either level is the last result of its hash. -/
def AllLatest (s : LatestNode) : Prop :=
  Copies (IsLatest s.latest) (IsLatest s.latest) s.node.cache.lru s.node.redis

/-- Whatever a `get` returns is the last result, or nothing. -/
def AnswersLatest (s : LatestNode) : Prop :=
  ∀ h call, ∃ d, (s.node.cache.get s.node.redis call h).1 = .ok d ∧
    (d = .null ∨ ∃ v, d = .obj v ∧ s.latest h = some v)

/-- The step leaves no copy in Redis that it supersedes.  A `put` writes to Redis, or
removes its own entry from there again, or finds no copy there with other data; a deletion
removes the copy from Redis or finds none. -/
def LeavesNoStale (s : LatestNode) (l : FlakyLabel) (_ : LatestNode) : Prop :=
  match l with
  | .put h v call => s.node.cache.writesRedis call ∨ s.node.cache.EvictsItself call h (.obj v) ∨
      ∀ d ct et, s.node.redis.get? (redisKey h) = some (.dumps (payload d ct et)) → d = .obj v
  | .delete h delRaises => s.node.cache.deletesRedis delRaises ∨
      s.node.redis.get? (redisKey h) = none
  | .deleteCache h => s.node.redis.get? (redisKey h) = none
  | _ => True

variable {s s' : LatestNode}

theorem AllLatest.answers (hs : s.AllLatest) : s.AnswersLatest := by
  intro h call
  obtain ⟨-, d, hget, hd⟩ := copies_get hs call h fun _ _ hl _ => hl
  exact ⟨d, hget, hd.imp_right fun ⟨_, hl⟩ => hl⟩

/-! ## The three steps that change what is last -/

theorem isLatest_update_of_ne {latest : String → Option (List (String × Json))} {h k : String}
    {v : Option (List (String × Json))} {d : Json} {et : Time} (hk : k ≠ h)
    (hl : IsLatest latest k d et) : IsLatest (Function.update latest h v) k d et := by
  obtain ⟨w, rfl, hw⟩ := hl
  exact ⟨w, rfl, by rwa [Function.update_of_ne hk]⟩

/-- No copy of a deleted hash is left in Redis. -/
theorem AllLatest.get?_of_deleted (hs : s.AllLatest) {h : String} (hnone : s.latest h = none) :
    s.node.redis.get? (redisKey h) = none := by
  cases hraw : s.node.redis.get? (redisKey h) with
  | none => rfl
  | some raw =>
    obtain ⟨d, ct, et, -, w, -, hw⟩ := hs.redis_of_get? hraw
    rw [hnone] at hw
    cases hw

/-- A `put`. -/
theorem put_allLatest_iff (hs : s.AllLatest) (h : String) (v : List (String × Json))
    (call : PutCall) :
    AllLatest ⟨s.node.putCache call h v, Function.update s.latest h (some v)⟩ ↔
      (s.node.cache.writesRedis call ∨ s.node.cache.EvictsItself call h (.obj v) ∨
        ∀ d ct et, s.node.redis.get? (redisKey h) = some (.dumps (payload d ct et)) →
          d = .obj v) := by
  have hnew : ∀ et, IsLatest (Function.update s.latest h (some v)) h (.obj v) et := fun _ =>
    ⟨v, rfl, Function.update_self _ _ _⟩
  constructor
  · intro hafter
    by_cases hw : s.node.cache.writesRedis call
    · exact Or.inl hw
    by_cases hev : s.node.cache.EvictsItself call h (.obj v)
    · exact Or.inr (Or.inl hev)
    refine Or.inr (Or.inr fun d ct et hraw => ?_)
    have hkept : (s.node.cache.put s.node.redis call h (.obj v)).2.get? (redisKey h) =
        some (.dumps (payload d ct et)) := (get?_put_of_not_writes hw hev).trans hraw
    obtain ⟨w, rfl, hlast⟩ := hafter.of_redis hkept
    obtain rfl : v = w :=
      Option.some.inj ((Function.update_self h (some v) s.latest).symm.trans hlast)
    rfl
  · intro hcond
    refine copies_put hs call (fun _ _ _ => isLatest_update_of_ne) (hnew _)
      (fun _ _ _ => isLatest_update_of_ne) (fun _ => hnew _) fun hw d ct et hraw => ?_
    rcases hcond with hwrites | hev | hold
    · exact absurd hwrites hw
    · rw [get?_put_of_evictsItself hev] at hraw
      cases hraw
    · rw [hold d ct et (get?_of_get?_put hw hraw)]
      exact hnew et

/-- A deletion that removes the copy from the LRU, whatever it does to Redis. -/
theorem deleted_allLatest {lru : LRUCache Json} {db : CacheRedis} {h : String}
    (hc : Copies (fun k d et => k ≠ h ∧ IsLatest s.latest k d et) (IsLatest s.latest) lru db)
    (hnone : db.get? (redisKey h) = none) :
    Copies (IsLatest (Function.update s.latest h none))
      (IsLatest (Function.update s.latest h none)) lru db := by
  have hlru : Copies (IsLatest (Function.update s.latest h none)) (IsLatest s.latest) lru db :=
    hc.mono (fun _ _ _ hl => isLatest_update_of_ne hl.1 hl.2) fun _ _ _ hr => hr
  refine hlru.rejudgeRedis (fun _ _ _ => isLatest_update_of_ne) fun d ct et hraw => ?_
  rw [hnone] at hraw
  cases hraw

/-- `LayerScanCache.delete`. -/
theorem delete_allLatest_iff (hs : s.AllLatest) (h : String) (delRaises : Bool) :
    AllLatest ⟨⟨(s.node.cache.delete s.node.redis delRaises h).1,
        (s.node.cache.delete s.node.redis delRaises h).2⟩, Function.update s.latest h none⟩ ↔
      (s.node.cache.deletesRedis delRaises ∨ s.node.redis.get? (redisKey h) = none) := by
  have hredis : (s.node.cache.delete s.node.redis delRaises h).2.get? (redisKey h) = none ↔
      (s.node.cache.deletesRedis delRaises ∨ s.node.redis.get? (redisKey h) = none) := by
    show (s.node.cache.deleteFromRedis s.node.redis delRaises h).get? (redisKey h) = none ↔ _
    rw [deleteFromRedis, deletesRedis]
    cases s.node.cache.redis <;> cases delRaises <;> simp
  rw [← hredis]
  constructor
  · exact fun hafter => hafter.get?_of_deleted (Function.update_self _ _ _)
  · intro hnone
    exact deleted_allLatest ((copies_delete hs delRaises h).mono (fun _ _ _ hl => hl)
      fun _ _ _ hr => hr.2) hnone

/-- DELETE `/cache/{layer_hash}`. -/
theorem deleteCache_allLatest_iff (hs : s.AllLatest) (h : String) :
    AllLatest ⟨s.node.deleteCache h, Function.update s.latest h none⟩ ↔
      s.node.redis.get? (redisKey h) = none :=
  ⟨fun hafter => hafter.get?_of_deleted (Function.update_self _ _ _),
    fun hnone => deleted_allLatest (hs.deleteLru h) hnone⟩

/-! ## Whole runs -/

/-- **The step.**  From a node whose copies are all last results, a step leads to such a
node exactly when it leaves nothing stale in Redis. -/
theorem step_allLatest_iff {l : FlakyLabel} (hs : s.AllLatest) (h : s.step l = some s') :
    s'.AllLatest ↔ s.LeavesNoStale l s' := by
  obtain ⟨node, hstep, rfl⟩ := Option.map_eq_some_iff.mp h
  cases l with
  | put k v call =>
    cases hstep
    exact put_allLatest_iff hs k v call
  | delete k delRaises =>
    cases hstep
    exact delete_allLatest_iff hs k delRaises
  | deleteCache k =>
    cases hstep
    exact deleteCache_allLatest_iff hs k
  | get k call =>
    exact iff_of_true (FlakyNode.step_copies hs (fun _ _ hl _ => hl) hstep) trivial
  | redisDrops fullKey =>
    exact iff_of_true (FlakyNode.step_copies (l := .redisDrops fullKey) hs trivial hstep) trivial
  | restart reaches call =>
    exact iff_of_true (FlakyNode.step_copies hs (fun _ _ _ hl _ => hl) hstep) trivial

theorem allLatest_iff (capacity : ℕ) (ttlSeconds : ℤ) (redis : Bool) (ls : List FlakyLabel) :
    Machine.Visits step AllLatest (start capacity ttlSeconds redis) ls ↔
      Machine.Meets step LeavesNoStale (start capacity ttlSeconds redis) ls := by
  have hstart : AllLatest (start capacity ttlSeconds redis) := Copies.new capacity
  refine Machine.visits_iff_meets (I := fun _ => True) (fun _ _ _ _ _ => trivial) ?_ trivial
    hstart ls
  intro s l s' _ hs h
  exact step_allLatest_iff hs h

/-- **When no superseded result is served.**  In every run of a node whose steps all leave
nothing stale in Redis, whichever Redis commands raise, a `get` returns the result of the
last `put` of its hash, with no deletion after it, or nothing; and these are the runs in
which every copy at either level is at all times the last result of its hash. -/
theorem superseded_never_served (capacity : ℕ) (ttlSeconds : ℤ) (redis : Bool)
    (ls : List FlakyLabel) :
    (Machine.Meets step LeavesNoStale (start capacity ttlSeconds redis) ls →
        Machine.Visits step AnswersLatest (start capacity ttlSeconds redis) ls) ∧
      (Machine.Visits step AllLatest (start capacity ttlSeconds redis) ls ↔
        Machine.Meets step LeavesNoStale (start capacity ttlSeconds redis) ls) := by
  have hiff := allLatest_iff capacity ttlSeconds redis ls
  exact ⟨fun hmeets => (hiff.mpr hmeets).mono fun _ hs => hs.answers, hiff⟩

/-- The second write of the result cannot be written to Redis, where it is already; then the node
is restarted. -/
def writtenAgain : List FlakyLabel :=
  [.put "653bc09e" [("total", .num 3)] { createdAt := 0, now := 0 },
    .put "653bc09e" [("total", .num 3)] { createdAt := 1, now := 1, setexRaises := true },
    .restart true { now := 2, keys := ["rcsce:cache:653bc09e"] }]

theorem superseded_never_served_again :
    Machine.Visits step AnswersLatest (start 10 3600 true) writtenAgain := by
  refine (superseded_never_served 10 3600 true writtenAgain).1 ?_
  refine Machine.Meets.cons_of_step rfl (Or.inl ⟨rfl, rfl, by decide⟩) ?_
  refine Machine.Meets.cons_of_step rfl (Or.inr (Or.inr fun d ct et hraw => ?_)) ?_
  · have hstored : ((start 10 3600 true).node.putCache { createdAt := 0, now := 0 } "653bc09e"
        [("total", .num 3)]).redis.get? (redisKey "653bc09e") =
          some (.dumps (payload (.obj [("total", .num 3)]) 0 3600)) := by with_unfolding_all rfl
    have hheld := JsonText.dumps.inj (Option.some.inj (hstored.symm.trans hraw))
    exact (payload_inj hheld).1.symm
  · exact Machine.Meets.cons_of_step rfl trivial Machine.meets_nil

/-- The second `put` cannot write to Redis; a restart re-hydrates the first result. -/
theorem superseded_result_served :
    ∃ s, Machine.exec step (start 10 3600 true)
        [.put "653bc09e" [("total", .num 3)] { createdAt := 0, now := 0 },
          .put "653bc09e" [("total", .num 0)] { createdAt := 1, now := 1, setexRaises := true },
          .restart true { now := 2, keys := ["rcsce:cache:653bc09e"] }] = some s ∧
      s.latest "653bc09e" = some [("total", .num 0)] ∧
      s.node.getCache { now := 3, redisNow := 3 } "653bc09e" = .hit [("total", .num 3)] ∧
      ¬ s.AnswersLatest := by
  have hserved : ∀ s : LatestNode, s.latest "653bc09e" = some [("total", .num 0)] →
      s.node.getCache { now := 3, redisNow := 3 } "653bc09e" = .hit [("total", .num 3)] →
      ¬ s.AnswersLatest := by
    intro s hlatest hhit hanswers
    obtain ⟨d, hget, hd⟩ := hanswers "653bc09e" { now := 3, redisNow := 3 }
    rw [cacheGetResponse_eq_hit hhit] at hget
    obtain rfl := Except.ok.inj hget
    obtain ⟨v, hv, hlast⟩ := hd.resolve_left nofun
    rw [hlatest] at hlast
    rw [← Option.some.inj hlast] at hv
    simp at hv
  exact ⟨_, rfl, rfl, by with_unfolding_all rfl, hserved _ rfl (by with_unfolding_all rfl)⟩

end LatestNode
end Rcsce
