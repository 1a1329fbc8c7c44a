import Rcsce.Lib.TaskList
import Rcsce.ControlPlane.LayerKeys

/-!
# How often a layer is scanned

The cache is asked when a container starts, and is filled when the scan has finished.  A
start of the same image in between misses as well, and nothing compares its job with the
ones that are pending or in flight (`layer_scanned_twice`).

`misses` counts for one layer the start branches that have missed and are about to enqueue a
job, and the jobs enqueued for it.  A lookup adds to it if it misses, and no other step adds
to it: an enqueue moves one branch from the first kind to the second.  With the cache node
reachable and no entry evicted or expired, a lookup misses only a layer that has not been
stored.  So `misses` is at most one as long as no start is looked up while the layer has been
missed and not been stored (`scanned_once`).
-/

namespace Rcsce

/-- The start branch has missed the layer, and has not enqueued its job. -/
def StartTask.missed (sha256Text : String → String) (h : String) (task : StartTask) : Bool :=
  match task.stage with
  | .answered none | .pushing => task.event.layerHash sha256Text == h
  | _ => false

/-- A start branch goes on with the answer of the cache node. -/
theorem PipelineState.step_respond_ok {sha256Text : String → String} {s t : PipelineState} {k : ℕ}
    (h : s.step sha256Text (.respond k true) = some t) :
    ∃ e hit, s.starts[k]? = some ⟨e, .answered hit⟩ ∧
      t = s.respond (e.layerHash sha256Text) k e hit := by
  rw [step] at h
  split at h
  · cases h
  · rename_i e hit hk
    exact ⟨e, hit, hk, (Option.some.inj h).symm⟩
  · cases h

namespace LayerRun

variable {sha256Text : String → String} {s s' : LayerRun} {h : String}

/-! ## The property and the condition -/

/-- For each layer hash at most one scan job has been enqueued. -/
def OnceEach (sha256Text : String → String) (s : LayerRun) : Prop :=
  (s.pushed.map fun p => p.2.layerHash sha256Text).Nodup

/-- A result has been stored for the layer. -/
def Cached (s : LayerRun) (h : String) : Prop := ∃ p ∈ s.pipeline.stored, p.layerHash = h

/-- A start branch has missed the layer, or a job has been enqueued for it. -/
def Missed (sha256Text : String → String) (s : LayerRun) (h : String) : Prop :=
  (∃ task ∈ s.pipeline.starts, task.missed sha256Text h = true) ∨
    ∃ p ∈ s.pushed, p.2.layerHash sha256Text = h

/-- The cache node is reachable, and no entry has been evicted or has expired: a lookup finds
each layer that has been stored, and the start branch gets the answer. -/
structure Reachable (sha256Text : String → String) (s : LayerRun) (l : LayerLabel) : Prop where
  finds : ∀ k call e, l = .pipeline (.lookup k call) →
    s.pipeline.starts[k]? = some ⟨e, .asking⟩ → s.Cached (e.layerHash sha256Text) →
      ∃ d, s.pipeline.Resident (e.layerHash sha256Text) call d
  answers : ∀ k ok, l = .pipeline (.respond k ok) → ok = true

/-- No start is looked up while its layer has been missed and has not been stored. -/
def NoScanUnderway (sha256Text : String → String) (s : LayerRun) (l : LayerLabel) : Prop :=
  ∀ k call e, l = .pipeline (.lookup k call) → s.pipeline.starts[k]? = some ⟨e, .asking⟩ →
    s.Missed sha256Text (e.layerHash sha256Text) → s.Cached (e.layerHash sha256Text)

/-- A step with the cache as it should be, and no scan of a looked up layer under way. -/
def Apart (sha256Text : String → String) (s : LayerRun) (l : LayerLabel) (_ : LayerRun) : Prop :=
  s.Reachable sha256Text l ∧ s.NoScanUnderway sha256Text l

/-! ## Counting the misses -/

/-- How many start branches have missed the layer. -/
def misses (sha256Text : String → String) (s : LayerRun) (h : String) : ℕ :=
  s.pipeline.starts.countP (·.missed sha256Text h) +
    s.pushed.countP fun p => p.2.layerHash sha256Text == h

theorem misses_eq_zero (hmissed : ¬ s.Missed sha256Text h) : s.misses sha256Text h = 0 := by
  rw [misses, Nat.add_eq_zero_iff, List.countP_eq_zero, List.countP_eq_zero]
  refine ⟨fun task htask heq => hmissed (Or.inl ⟨task, htask, heq⟩), fun p hp heq => ?_⟩
  exact hmissed (Or.inr ⟨p, hp, eq_of_beq heq⟩)

/-- No layer has been missed twice. -/
def MissedOnce (sha256Text : String → String) (s : LayerRun) : Prop :=
  ∀ h, s.misses sha256Text h ≤ 1

theorem MissedOnce.onceEach (hs : s.MissedOnce sha256Text) : s.OnceEach sha256Text := by
  refine List.nodup_iff_count_le_one.mpr fun h => ?_
  have hjobs : (s.pushed.map fun p => p.2.layerHash sha256Text).count h =
      s.pushed.countP fun p => p.2.layerHash sha256Text == h := by
    rw [List.count, List.countP_map]
    rfl
  have hle := hs h
  rw [misses] at hle
  omega

/-- The misses after a step of one start branch, that may enqueue a job. -/
theorem misses_advance (sha256Text : String → String) (h : String) {k : ℕ} {task : StartTask}
    (hk : s.pipeline.starts[k]? = some task) {next : Option StartTask}
    {new : List (Uuid × DockerEvent)}
    (hstarts : s'.pipeline.starts = advance s.pipeline.starts k next)
    (hpushed : s'.pushed = s.pushed ++ new) :
    s'.misses sha256Text h + (if task.missed sha256Text h then 1 else 0) =
      s.misses sha256Text h + (next.toList.countP (·.missed sha256Text h) +
        new.countP fun p => p.2.layerHash sha256Text == h) := by
  rw [misses, misses, hstarts, hpushed, countP_advance _ hk, countP_eq_eraseIdx_add _ hk,
    List.countP_append]
  omega

/-- A step that does not touch the start branches. -/
theorem MissedOnce.keeps (hs : s.MissedOnce sha256Text)
    (hstarts : s'.pipeline.starts = s.pipeline.starts) (hpushed : s'.pushed = s.pushed ++ []) :
    s'.MissedOnce sha256Text := by
  intro h
  rw [misses, hstarts, hpushed, List.append_nil]
  exact hs h

/-- A new start branch. -/
theorem MissedOnce.begins (hs : s.MissedOnce sha256Text) {e : DockerEvent}
    (hstarts : s'.pipeline.starts = s.pipeline.starts ++ [⟨e, .asking⟩])
    (hpushed : s'.pushed = s.pushed ++ []) : s'.MissedOnce sha256Text := by
  intro h
  have hasking : [(⟨e, .asking⟩ : StartTask)].countP (·.missed sha256Text h) = 0 := rfl
  rw [misses, hstarts, hpushed, List.countP_append, hasking, List.append_nil]
  exact hs h

/-- A lookup. -/
theorem MissedOnce.lookup (hs : s.MissedOnce sha256Text) {k : ℕ} {e : DockerEvent}
    (hk : s.pipeline.starts[k]? = some ⟨e, .asking⟩) {hit : Option (List (String × Json))}
    (hstarts : s'.pipeline.starts = advance s.pipeline.starts k (some ⟨e, .answered hit⟩))
    (hpushed : s'.pushed = s.pushed ++ [])
    (hmiss : hit = none → ¬ s.Missed sha256Text (e.layerHash sha256Text)) :
    s'.MissedOnce sha256Text := by
  intro h
  have hcount := misses_advance sha256Text h hk hstarts hpushed
  have hasking : (⟨e, .asking⟩ : StartTask).missed sha256Text h = false := rfl
  rw [hasking, List.countP_nil, Option.toList_some, List.countP_singleton] at hcount
  have hle := hs h
  cases hit with
  | some scanResult =>
    have hfound : (⟨e, .answered (some scanResult)⟩ : StartTask).missed sha256Text h = false := rfl
    rw [hfound] at hcount
    simp only [Bool.false_eq_true, if_false] at hcount
    omega
  | none =>
    by_cases heq : e.layerHash sha256Text = h
    · have hzero := misses_eq_zero (heq ▸ hmiss rfl)
      split_ifs at hcount <;> omega
    · have hother : (⟨e, .answered none⟩ : StartTask).missed sha256Text h = false :=
        beq_false_of_ne heq
      rw [hother] at hcount
      simp only [Bool.false_eq_true, if_false] at hcount
      omega

/-- A step of a start branch that makes no new miss. -/
theorem MissedOnce.goes (hs : s.MissedOnce sha256Text) {k : ℕ} {task : StartTask}
    (hk : s.pipeline.starts[k]? = some task) (next : Option StartTask)
    (new : List (Uuid × DockerEvent))
    (hstarts : s'.pipeline.starts = advance s.pipeline.starts k next)
    (hpushed : s'.pushed = s.pushed ++ new)
    (hold : ∀ h, next.toList.countP (·.missed sha256Text h) +
        (new.countP fun p => p.2.layerHash sha256Text == h) ≤
      if task.missed sha256Text h then 1 else 0) : s'.MissedOnce sha256Text := by
  intro h
  have hcount := misses_advance sha256Text h hk hstarts hpushed
  have hle := hs h
  have hmade := hold h
  omega

/-! ## Whole runs -/

/-- **The step.** -/
theorem step_missedOnce {l : LayerLabel} (hs : s.Stocked) (hone : s.MissedOnce sha256Text)
    (happart : s.Apart sha256Text l s') (hstep : s.step sha256Text l = some s') :
    s'.MissedOnce sha256Text := by
  obtain ⟨hreach, hquiet⟩ := happart
  cases l with
  | schedulerRestart choice n now =>
    cases hstep
    cases choice <;> exact hone
  | pipeline l =>
    obtain ⟨t, hpipeline, rfl⟩ := Option.map_eq_some_iff.mp hstep
    cases PipelineState.step_cases hpipeline with
    | begins e he => exact hone.begins rfl rfl
    | answers k call e hk =>
      refine hone.lookup hk rfl rfl fun hmiss hmissed => ?_
      -- a layer that has been missed has been stored, and so is found
      obtain ⟨d, hres⟩ := hreach.finds k call e rfl hk (hquiet k call e rfl hk hmissed)
      obtain ⟨-, -, scanResult, -, -, -, -, rfl, -⟩ := found_of_stocked hs hk hres
      rw [PipelineState.get_of_resident hres] at hmiss
      cases hmiss
    | responds k ok =>
      obtain rfl := hreach.answers k ok rfl
      obtain ⟨e, hit, hk, hnext⟩ := PipelineState.step_respond_ok hpipeline
      rw [hnext]
      cases hit with
      | some scanResult =>
        refine hone.goes hk none [] rfl rfl fun h => ?_
        exact Nat.zero_le _
      | none =>
        refine hone.goes hk (some ⟨e, .pushing⟩) [] rfl rfl fun h => ?_
        rw [Option.toList_some, List.countP_singleton]
        exact le_rfl
    | pushes k delivered answered e t hk hl =>
      refine hone.goes hk none _ rfl rfl fun h => ?_
      cases delivered with
      | false => exact Nat.zero_le _
      | true =>
        rw [PipelineState.pushes, hk, List.countP_singleton, Option.toList_none, List.countP_nil,
          Nat.zero_add]
        exact le_rfl
    | _ => exact hone.keeps rfl rfl

theorem start_missedOnce (sha256Text : String → String) (n : ℕ) (q : StartQueue) (now : Time)
    (capacity : ℕ) (ttlSeconds : ℤ) (redis : Bool) (store : StateStore) :
    (start n q now capacity ttlSeconds redis store).MissedOnce sha256Text :=
  fun _ => Nat.zero_le 1

/-- **When no layer is scanned twice.**  Take any run, with the cache node reachable and no
entry evicted or expired, in which no start is looked up while its layer has been missed and
its result has not been stored.  At every point of it, at most one job has been enqueued for
each layer hash. -/
theorem scanned_once (sha256Text : String → String) (n : ℕ) (q : StartQueue) (now : Time)
    (capacity : ℕ) (ttlSeconds : ℤ) (redis : Bool) (store : StateStore) (ls : List LayerLabel)
    (hapart : Machine.Meets (step sha256Text) (Apart sha256Text)
      (start n q now capacity ttlSeconds redis store) ls) :
    Machine.Visits (step sha256Text) (OnceEach sha256Text)
      (start n q now capacity ttlSeconds redis store) ls := by
  have hinv : Machine.Visits (step sha256Text) (fun s => s.Stocked ∧ s.MissedOnce sha256Text)
      (start n q now capacity ttlSeconds redis store) ls :=
    Machine.visits_of_meets (C := Apart sha256Text)
      (fun _ _ _ hs hc hstep => ⟨step_stocked hs.1 hstep, step_missedOnce hs.1 hs.2 hc hstep⟩)
      ⟨start_stocked n q now capacity ttlSeconds redis store,
        start_missedOnce sha256Text n q now capacity ttlSeconds redis store⟩ hapart
  exact hinv.mono fun _ hs => hs.2.onceEach

theorem ok_of_ne {l : LayerLabel} (hrespond : ∀ k, l ≠ .pipeline (.respond k false)) (k : ℕ)
    (ok : Bool) (hl : l = .pipeline (.respond k ok)) : ok = true := by
  cases ok with
  | false => exact absurd hl (hrespond k)
  | true => rfl

/-- Only a lookup and its answer are asked for something. -/
theorem apart_of_plain {l : LayerLabel} (hlookup : ∀ k call, l ≠ .pipeline (.lookup k call))
    (hrespond : ∀ k, l ≠ .pipeline (.respond k false)) : s.Apart sha256Text l s' :=
  ⟨⟨fun k call _ hl => absurd hl (hlookup k call), ok_of_ne hrespond⟩,
    fun k call _ hl => absurd hl (hlookup k call)⟩

/-- Before anything has been stored, every lookup is as it should be. -/
theorem reachable_of_fresh {l : LayerLabel} (hstored : s.pipeline.stored = [])
    (hrespond : ∀ k, l ≠ .pipeline (.respond k false)) : s.Reachable sha256Text l := by
  refine ⟨fun k call e _ _ hcached => ?_, ok_of_ne hrespond⟩
  obtain ⟨p, hp, -⟩ := hcached
  rw [hstored] at hp
  cases hp

/-- An unexpired item of the LRU is found. -/
theorem finds_of_lru {call : GetCall} (d : Json) (ct et : Time)
    (hitem : s.pipeline.cache.lru.cache.get? h = some (payload d ct et)) (hfresh : call.now ≤ et) :
    ∃ d, s.pipeline.Resident h call d :=
  ⟨d, Or.inl ⟨ct, et, hitem, hfresh⟩⟩

/-- The second container of the image starts when the result for the first one has been
stored. -/
theorem scanned_once_later_start :
    ∃ s, Machine.exec (step webDigest) (start 1 .inMemory 0 10 3600 false .empty)
        [.pipeline (.docker ⟨.start, "c1", some "web-1", some "nginx", none, 0⟩),
          .pipeline (.lookup 0 { now := 0, redisNow := 0 }), .pipeline (.respond 0 true),
          .pipeline (.push 0 true true),
          .pipeline (.scheduler (.dispatch true)), .pipeline (.scheduler (.dispatch true)),
          .pipeline (.scan 0 (.exits 1 (.text (.malformed ""))) "2025-01-01T00:00:01" 1000),
          .pipeline (.post 0 { createdAt := 1, now := 1 }),
          .pipeline (.docker ⟨.start, "c2", some "web-2", some "nginx", none, 1⟩),
          .pipeline (.lookup 0 { now := 2, redisNow := 2 }), .pipeline (.respond 0 true)] =
        some s ∧
      s.OnceEach webDigest ∧ s.pushed.map (fun p => p.2.containerId) = ["c1"] ∧
      s.pipeline.hits.map Prod.fst = ["c2"] := by
  have hapart : Machine.Meets (step webDigest) (Apart webDigest)
      (start 1 .inMemory 0 10 3600 false .empty)
      [.pipeline (.docker ⟨.start, "c1", some "web-1", some "nginx", none, 0⟩),
        .pipeline (.lookup 0 { now := 0, redisNow := 0 }), .pipeline (.respond 0 true),
        .pipeline (.push 0 true true),
        .pipeline (.scheduler (.dispatch true)), .pipeline (.scheduler (.dispatch true)),
        .pipeline (.scan 0 (.exits 1 (.text (.malformed ""))) "2025-01-01T00:00:01" 1000),
        .pipeline (.post 0 { createdAt := 1, now := 1 }),
        .pipeline (.docker ⟨.start, "c2", some "web-2", some "nginx", none, 1⟩),
        .pipeline (.lookup 0 { now := 2, redisNow := 2 }), .pipeline (.respond 0 true)] := by
    refine .cons_of_step (by with_unfolding_all rfl) (apart_of_plain nofun nofun) ?_
    refine .cons_of_step (by with_unfolding_all rfl)
      ⟨reachable_of_fresh rfl nofun, fun k call e hl hk hmissed => ?_⟩ ?_
    · -- the layer has not been missed
      cases hl
      cases hk
      rcases hmissed with ⟨task, htask, hmiss⟩ | ⟨p, hp, -⟩
      · cases List.mem_singleton.mp htask
        cases hmiss
      · cases hp
    refine .cons_of_step (by with_unfolding_all rfl) (apart_of_plain nofun nofun) ?_
    refine .cons_of_step (by with_unfolding_all rfl) (apart_of_plain nofun nofun) ?_
    refine .cons_of_step (by with_unfolding_all rfl) (apart_of_plain nofun nofun) ?_
    refine .cons_of_step (by with_unfolding_all rfl) (apart_of_plain nofun nofun) ?_
    refine .cons_of_step (by with_unfolding_all rfl) (apart_of_plain nofun nofun) ?_
    refine .cons_of_step (by with_unfolding_all rfl) (apart_of_plain nofun nofun) ?_
    refine .cons_of_step (by with_unfolding_all rfl) (apart_of_plain nofun nofun) ?_
    refine .cons_of_step (by with_unfolding_all rfl)
      ⟨⟨fun k call e hl hk _ => ?_, nofun⟩, fun k call e hl hk _ => ?_⟩ ?_
    · -- the entry of the layer
      cases hl
      cases hk
      exact finds_of_lru _ 1 3601 (by with_unfolding_all rfl) (by decide)
    · cases hl
      cases hk
      refine ⟨_, List.mem_singleton.mpr rfl, ?_⟩
      with_unfolding_all rfl
    refine .cons_of_step (by with_unfolding_all rfl) (apart_of_plain nofun nofun) ?_
    exact Machine.meets_nil
  have honce := scanned_once webDigest 1 .inMemory 0 10 3600 false .empty _ hapart _
    (List.prefix_refl _)
  exact ⟨_, by with_unfolding_all rfl, honce _ (by with_unfolding_all rfl),
    by with_unfolding_all rfl, by with_unfolding_all rfl⟩

/-- Two containers of the image start before the first scan: the cache node answers both, has
lost nothing, and both jobs are pending. -/
theorem layer_scanned_twice :
    ∃ ls s, Machine.Meets (step webDigest) (fun t l _ => t.Reachable webDigest l)
        (start 1 .inMemory 0 10 3600 false .empty) ls ∧
      Machine.exec (step webDigest) (start 1 .inMemory 0 10 3600 false .empty) ls = some s ∧
      (s.pipeline.scheduler.queue.pending.map fun job => (job.containerId, job.imageId)) =
        [("c1", "653bc09ee38cff31b902e73d12c7e9e30facc30fa81e88ae473cd3a5abf379e0"),
          ("c2", "653bc09ee38cff31b902e73d12c7e9e30facc30fa81e88ae473cd3a5abf379e0")] ∧
      ¬ s.OnceEach webDigest := by
  refine ⟨[.pipeline (.docker ⟨.start, "c1", some "web-1", some "nginx", none, 0⟩),
    .pipeline (.lookup 0 { now := 0, redisNow := 0 }), .pipeline (.respond 0 true),
    .pipeline (.push 0 true true),
    .pipeline (.docker ⟨.start, "c2", some "web-2", some "nginx", none, 1⟩),
    .pipeline (.lookup 0 { now := 1, redisNow := 1 }), .pipeline (.respond 0 true),
    .pipeline (.push 0 true true)], _, ?_, by with_unfolding_all rfl, by with_unfolding_all rfl, ?_⟩
  · refine .cons_of_step (by with_unfolding_all rfl) (reachable_of_fresh rfl nofun) ?_
    refine .cons_of_step (by with_unfolding_all rfl) (reachable_of_fresh rfl nofun) ?_
    refine .cons_of_step (by with_unfolding_all rfl) (reachable_of_fresh rfl nofun) ?_
    refine .cons_of_step (by with_unfolding_all rfl) (reachable_of_fresh rfl nofun) ?_
    refine .cons_of_step (by with_unfolding_all rfl) (reachable_of_fresh rfl nofun) ?_
    refine .cons_of_step (by with_unfolding_all rfl) (reachable_of_fresh rfl nofun) ?_
    refine .cons_of_step (by with_unfolding_all rfl) (reachable_of_fresh rfl nofun) ?_
    refine .cons_of_step (by with_unfolding_all rfl) (reachable_of_fresh rfl nofun) ?_
    exact Machine.meets_nil
  · show ¬ List.Nodup _
    decide +kernel

end LayerRun
end Rcsce
