import Rcsce.Scheduler.QueueCrash

/-!
# How long the completed hash keeps a result

One process on a Redis that answers every command, and a clock.  `_complete_async` writes the
result of a job into the completed hash and calls EXPIRE on the hash as a whole: every completion
puts off the end of all entries, and no single entry is ever removed.  `MAX_COMPLETED` is not
read anywhere.

* `NewestDecides` is the invariant: the hash expires with its newest entry.
* `completed_retained_iff` is exact.  The hash stays within the documented bounds if and only if
  no completion adds an entry to `MAX_COMPLETED` others and the clock never gets to a time at
  which some entries are too old and others are not.
* `completed_hash_outgrows`: any number of completions are kept, and one completion within the
  hour keeps an older entry beyond it.

`Move` lists what a step can do, and the invariant is read off `step_cases`.
-/

namespace Rcsce

/-- `MAX_COMPLETED`. -/
def maxCompleted : ℕ := 500

/-- Redis at time `t`.  A hash is kept up to its expiry, and dropped as a whole after it. -/
def QueueStore.atTime (q : QueueStore) (t : Time) : QueueStore :=
  match q.completedExpiry with
  | none => q
  | some e => if e < t then q.expireCompleted else q

/-- The time at which each entry of the completed hash was last written. -/
def QueueOp.stamp (now : Time) (writtenAt : Uuid → Time) : QueueOp → Uuid → Time
  | .completeExec jobId _ => Function.update writtenAt jobId now
  | _ => writtenAt

/-- Redis, the unfinished coroutines of the process, the clock, and the times at which the entries
of the completed hash were written, a ghost. -/
structure RetentionRun where
  redis : QueueStore
  ops : List QueueOp
  now : Time
  writtenAt : Uuid → Time

/-- What can happen next. -/
inductive RetentionLabel where
  | call (c : QueueCall)
  /-- The next command of the coroutine at this index takes effect. -/
  | command (k : ℕ)
  /-- The clock goes on by `d` seconds. -/
  | passes (d : Time)

namespace RetentionRun

/-- An empty Redis at time `t`. -/
def init (t : Time) : RetentionRun := ⟨.empty, [], t, fun _ => t⟩

/-- One step. -/
def step (s : RetentionRun) : RetentionLabel → Option RetentionRun
  | .call c => some { s with ops := s.ops ++ [c.start] }
  | .command k =>
      match s.ops[k]? with
      | none => none
      | some op =>
        let r := op.command s.now s.redis
        some ⟨r.1, advance s.ops k r.2, s.now, op.stamp s.now s.writtenAt⟩
  | .passes d =>
      if 0 ≤ d then some { s with redis := s.redis.atTime (s.now + d), now := s.now + d } else none

/-! ## The property and the condition -/

/-- The bounds of the module docstring: the last 500 results, for an hour. -/
structure Retained (s : RetentionRun) : Prop where
  size : s.redis.completed.size ≤ maxCompleted
  age : ∀ i ∈ s.redis.completed, s.now - s.writtenAt i ≤ completedTtl

/-- At time `t` the entry is older than `COMPLETED_TTL`. -/
def TooOld (s : RetentionRun) (t : Time) (i : Uuid) : Prop := completedTtl < t - s.writtenAt i

/-- At time `t` some entries of the hash are too old and others are not. -/
def MixedAges (s : RetentionRun) (t : Time) : Prop :=
  (∃ i ∈ s.redis.completed, s.TooOld t i) ∧ ∃ j ∈ s.redis.completed, ¬ s.TooOld t j

/-- A completion finds its own entry or fewer than `MAX_COMPLETED` entries, and the clock does not
get to a time at which the entries differ in being too old. -/
def KeepsBounds (s : RetentionRun) : RetentionLabel → Prop
  | .call _ => True
  | .command k => ∀ jobId result, s.ops[k]? = some (.completeExec jobId result) →
      jobId ∈ s.redis.completed ∨ s.redis.completed.size < maxCompleted
  | .passes d => ¬ s.MixedAges (s.now + d)

/-- The entries are of the past, and the hash expires with its newest entry. -/
structure NewestDecides (s : RetentionRun) : Prop where
  past : ∀ i ∈ s.redis.completed, s.writtenAt i ≤ s.now
  newest : ∀ i ∈ s.redis.completed, ∃ j ∈ s.redis.completed,
    s.redis.completedExpiry = some (s.writtenAt j + completedTtl) ∧ s.writtenAt i ≤ s.writtenAt j

/-! ## What a step does -/

/-- The moves of the process, of Redis and of the clock. -/
inductive Move (s : RetentionRun) : RetentionLabel → RetentionRun → Prop
  | calls (c : QueueCall) : Move s (.call c) { s with ops := s.ops ++ [c.start] }
  | completes (k : ℕ) (jobId : Uuid) (result : Json)
      (hop : s.ops[k]? = some (.completeExec jobId result)) :
      Move s (.command k) ⟨s.redis.complete jobId result s.now, advance s.ops k none, s.now,
        Function.update s.writtenAt jobId s.now⟩
  | commands (k : ℕ) (q : QueueStore) (next : List QueueOp)
      (hother : ∀ jobId result, s.ops[k]? ≠ some (.completeExec jobId result))
      (hcompleted : q.completed = s.redis.completed)
      (hexpiry : q.completedExpiry = s.redis.completedExpiry) :
      Move s (.command k) { s with redis := q, ops := next }
  | drops (d e : Time) (hd : 0 ≤ d) (hexpiry : s.redis.completedExpiry = some e)
      (he : e < s.now + d) :
      Move s (.passes d) { s with redis := s.redis.expireCompleted, now := s.now + d }
  | passes (d : Time) (hd : 0 ≤ d)
      (hexpiry : ∀ e, s.redis.completedExpiry = some e → s.now + d ≤ e) :
      Move s (.passes d) { s with now := s.now + d }

end RetentionRun

/-- BLPOP leaves the completed hash alone. -/
theorem QueueStore.completed_blpop {q q' : QueueStore} {job : Job}
    (h : q.blpop = some (job, q')) :
    q'.completed = q.completed ∧ q'.completedExpiry = q.completedExpiry := by
  rw [(blpop_eq_some.mp h).2]
  exact ⟨rfl, rfl⟩

/-- Only a completion touches the completed hash. -/
theorem QueueOp.command_completed {op : QueueOp} (now : Time) (q : QueueStore)
    (h : op.records = []) : (op.command now q).1.completed = q.completed ∧
      (op.command now q).1.completedExpiry = q.completedExpiry := by
  cases op with
  | completeExec jobId result => simp [records] at h
  | dequeueBlpop =>
    rw [command]
    cases hpop : q.blpop with
    | none => exact ⟨rfl, rfl⟩
    | some r => exact QueueStore.completed_blpop hpop
  | enqueueRpush | enqueueLlen | dequeueHset | requeueHdel | requeueRpush => exact ⟨rfl, rfl⟩

namespace RetentionRun

/-- Every step is one of the moves. -/
theorem step_cases {s s' : RetentionRun} {l : RetentionLabel} (h : s.step l = some s') :
    s.Move l s' := by
  cases l with
  | call c =>
    obtain rfl := Option.some.inj h
    exact .calls c
  | command k =>
    rw [step] at h
    cases hop : s.ops[k]? with
    | none =>
      rw [hop] at h
      cases h
    | some op =>
      rw [hop] at h
      obtain rfl := Option.some.inj h
      by_cases hrecords : op.records = []
      · obtain ⟨hcompleted, hexpiry⟩ := QueueOp.command_completed s.now s.redis hrecords
        have hstamp : op.stamp s.now s.writtenAt = s.writtenAt := by
          cases op with
          | completeExec jobId result => simp [QueueOp.records] at hrecords
          | _ => rfl
        rw [hstamp]
        refine .commands k _ _ (fun jobId result hop' => ?_) hcompleted hexpiry
        obtain rfl := Option.some.inj (hop.symm.trans hop')
        simp [QueueOp.records] at hrecords
      · cases op with
        | completeExec jobId result => exact .completes k jobId result hop
        | _ => exact absurd rfl hrecords
  | passes d =>
    rw [step] at h
    split at h
    · rename_i hd
      obtain rfl := Option.some.inj h
      rw [QueueStore.atTime]
      cases hexpiry : s.redis.completedExpiry with
      | none => exact .passes d hd fun e he => by rw [hexpiry] at he; cases he
      | some e =>
        dsimp only
        split
        · rename_i he
          exact .drops d e hd hexpiry he
        · rename_i he
          refine .passes d hd fun e' he' => ?_
          rw [hexpiry] at he'
          exact Option.some.inj he' ▸ not_lt.mp he
    · cases h

/-! ## The hash expires with its newest entry -/

theorem newestDecides_init (t : Time) : (init t).NewestDecides :=
  ⟨fun i hi => absurd hi (OrderedDict.notMem_empty i),
    fun i hi => absurd hi (OrderedDict.notMem_empty i)⟩

theorem NewestDecides.completes {s : RetentionRun} (h : s.NewestDecides) (k : ℕ) (jobId : Uuid)
    (result : Json) :
    NewestDecides ⟨s.redis.complete jobId result s.now, advance s.ops k none, s.now,
      Function.update s.writtenAt jobId s.now⟩ := by
  have hpast : ∀ i ∈ s.redis.completed.set jobId result,
      Function.update s.writtenAt jobId s.now i ≤ s.now := by
    intro i hi
    rcases eq_or_ne i jobId with rfl | hne
    · rw [Function.update_self]
    · rw [Function.update_of_ne hne]
      exact h.past i ((OrderedDict.mem_set.mp hi).resolve_left hne)
  refine ⟨hpast, fun i hi => ⟨jobId, OrderedDict.mem_set.mpr (Or.inl rfl), ?_⟩⟩
  -- The entry written now is the newest one.
  simp only [Function.update_self]
  exact ⟨rfl, hpast i hi⟩

theorem NewestDecides.step {s s' : RetentionRun} {l : RetentionLabel} (h : s.NewestDecides)
    (hstep : s.step l = some s') : s'.NewestDecides := by
  cases step_cases hstep with
  | calls c => exact ⟨h.past, h.newest⟩
  | completes k jobId result hop => exact h.completes k jobId result
  | commands k q next hother hcompleted hexpiry =>
    constructor
    · dsimp only
      rw [hcompleted]
      exact h.past
    · dsimp only
      rw [hcompleted, hexpiry]
      exact h.newest
  | drops d e hd hexpiry he =>
    exact ⟨fun i hi => absurd hi (OrderedDict.notMem_empty i),
      fun i hi => absurd hi (OrderedDict.notMem_empty i)⟩
  | passes d hd hexpiry =>
    refine ⟨fun i hi => (h.past i hi).trans ?_, h.newest⟩
    exact le_add_of_nonneg_right hd

/-! ## The exact condition, step by step -/

/-- An entry of another job is one more entry. -/
theorem size_set_le_max_iff {d : OrderedDict Uuid Json} {jobId : Uuid} {result : Json}
    (h : d.size ≤ maxCompleted) :
    (d.set jobId result).size ≤ maxCompleted ↔ jobId ∈ d ∨ d.size < maxCompleted := by
  by_cases hmem : jobId ∈ d
  · rw [← OrderedDict.length_keys, OrderedDict.keys_set_of_mem hmem, OrderedDict.length_keys]
    exact ⟨fun _ => Or.inl hmem, fun _ => h⟩
  · rw [← OrderedDict.length_keys, OrderedDict.keys_set_of_notMem hmem, List.length_append,
      List.length_singleton, OrderedDict.length_keys]
    exact ⟨Or.inr, fun hor => hor.resolve_left hmem⟩

/-- A completion makes no entry older, its own as young as can be. -/
theorem Retained.completes_iff {s : RetentionRun} (h : s.Retained) (k : ℕ) (jobId : Uuid)
    (result : Json) :
    Retained ⟨s.redis.complete jobId result s.now, advance s.ops k none, s.now,
        Function.update s.writtenAt jobId s.now⟩ ↔
      jobId ∈ s.redis.completed ∨ s.redis.completed.size < maxCompleted := by
  rw [← size_set_le_max_iff h.size]
  constructor
  · intro h'
    exact h'.size
  · intro hsize
    refine ⟨hsize, fun i hi => ?_⟩
    dsimp only
    rcases eq_or_ne i jobId with rfl | hne
    · rw [Function.update_self, sub_self]
      exact Nat.cast_nonneg _
    · rw [Function.update_of_ne hne]
      exact h.age i ((OrderedDict.mem_set.mp hi).resolve_left hne)

/-- A dropped hash is within all bounds. -/
theorem retained_drops (s : RetentionRun) (t : Time) :
    Retained { s with redis := s.redis.expireCompleted, now := t } :=
  ⟨Nat.zero_le _, fun i hi => absurd hi (OrderedDict.notMem_empty i)⟩

/-- When the hash is dropped, all its entries are too old. -/
theorem NewestDecides.not_mixedAges_of_drops {s : RetentionRun} (h : s.NewestDecides) {e t : Time}
    (hexpiry : s.redis.completedExpiry = some e) (he : e < t) : ¬ s.MixedAges t := by
  rintro ⟨-, j, hj, hyoung⟩
  obtain ⟨n, -, hn, hle⟩ := h.newest j hj
  obtain rfl := Option.some.inj (hexpiry.symm.trans hn)
  refine hyoung (lt_sub_iff_add_lt'.mpr (lt_of_le_of_lt ?_ he))
  gcongr

/-- As long as the hash is kept, its newest entry is not too old. -/
theorem NewestDecides.exists_not_tooOld {s : RetentionRun} (h : s.NewestDecides) {t : Time}
    (hexpiry : ∀ e, s.redis.completedExpiry = some e → t ≤ e) {i : Uuid}
    (hi : i ∈ s.redis.completed) : ∃ j ∈ s.redis.completed, ¬ s.TooOld t j := by
  obtain ⟨j, hj, hexpires, -⟩ := h.newest i hi
  refine ⟨j, hj, not_lt.mpr (sub_le_iff_le_add'.mpr ?_)⟩
  exact hexpiry _ hexpires

/-- The clock goes on and the hash is kept. -/
theorem Retained.passes_iff {s : RetentionRun} (h : s.Retained) (hnewest : s.NewestDecides)
    {t : Time} (hexpiry : ∀ e, s.redis.completedExpiry = some e → t ≤ e) :
    Retained { s with now := t } ↔ ¬ s.MixedAges t := by
  constructor
  · rintro h' ⟨⟨i, hi, hold⟩, -⟩
    exact absurd (h'.age i hi) (not_le.mpr hold)
  · intro hmixed
    refine ⟨h.size, fun i hi => not_lt.mp fun hold => hmixed ⟨⟨i, hi, hold⟩, ?_⟩⟩
    exact hnewest.exists_not_tooOld hexpiry hi

/-- **One step** keeps the bounds exactly when it satisfies the condition. -/
theorem Retained.step_iff {s s' : RetentionRun} {l : RetentionLabel} (hnewest : s.NewestDecides)
    (h : s.Retained) (hstep : s.step l = some s') : s'.Retained ↔ s.KeepsBounds l := by
  cases step_cases hstep with
  | calls c => exact ⟨fun _ => trivial, fun _ => ⟨h.size, h.age⟩⟩
  | completes k jobId result hop =>
    rw [h.completes_iff, KeepsBounds]
    constructor
    · rintro hbound jobId' result' hop'
      cases hop.symm.trans hop'
      exact hbound
    · intro hkeeps
      exact hkeeps jobId result hop
  | commands k q next hother hcompleted hexpiry =>
    constructor
    · intro _ jobId result hop
      exact absurd hop (hother jobId result)
    · intro _
      constructor
      · dsimp only
        rw [hcompleted]
        exact h.size
      · dsimp only
        rw [hcompleted]
        exact h.age
  | drops d e hd hexpiry he =>
    exact ⟨fun _ => hnewest.not_mixedAges_of_drops hexpiry he, fun _ => retained_drops s _⟩
  | passes d hd hexpiry => exact h.passes_iff hnewest hexpiry

theorem retained_init (t : Time) : (init t).Retained :=
  ⟨Nat.zero_le _, fun i hi => absurd hi (OrderedDict.notMem_empty i)⟩

/-- **How long completed results stay.**  In every run the completed hash stays within
`MAX_COMPLETED` entries and none of them gets older than `COMPLETED_TTL`, if and only if every
completion finds its own entry or fewer than `MAX_COMPLETED` entries, and the clock never gets to a
time at which some of the entries are too old and others are not. -/
theorem completed_retained_iff (t : Time) (ls : List RetentionLabel) :
    Machine.Visits step Retained (init t) ls ↔
      Machine.Meets step (fun s l _ => s.KeepsBounds l) (init t) ls :=
  Machine.visits_iff_meets (fun _ _ _ h => h.step) (fun _ _ _ hnewest h => h.step_iff hnewest)
    (newestDecides_init t) (retained_init t) ls

/-! ## Completions that follow each other within the hour -/

/-- A call of `complete`, its transaction, and a pause. -/
def spaced (d : Time) (jobId : Uuid) : List RetentionLabel :=
  [.call (.complete jobId .null), .command 0, .passes d]

/-- The completions of the jobs below `n`, with pauses of `d` seconds. -/
def stream (d : Time) (n : ℕ) : List RetentionLabel := (List.range n).flatMap (spaced d)

theorem stream_succ (d : Time) (n : ℕ) : stream d (n + 1) = stream d n ++ spaced d n := by
  rw [stream, List.range_succ, List.flatMap_append, List.flatMap_singleton, stream]

/-- The completion puts off the expiry, so the pause leaves the hash as it is. -/
theorem exec_spaced {d : Time} (hd : 0 ≤ d) (hle : d ≤ completedTtl) (s : RetentionRun)
    (hops : s.ops = []) (jobId : Uuid) :
    Machine.exec step s (spaced d jobId) = some ⟨s.redis.complete jobId .null s.now, [], s.now + d,
      Function.update s.writtenAt jobId s.now⟩ := by
  have hkept : (s.redis.complete jobId .null s.now).atTime (s.now + d) =
      s.redis.complete jobId .null s.now := by
    rw [QueueStore.atTime]
    refine if_neg (not_lt.mpr ?_)
    gcongr
  have hcall : step s (.call (.complete jobId .null)) =
      some { s with ops := [.completeExec jobId .null] } := by
    rw [step, hops]
    rfl
  have hcommand : step { s with ops := [.completeExec jobId .null] } (.command 0) =
      some ⟨s.redis.complete jobId .null s.now, [], s.now,
        Function.update s.writtenAt jobId s.now⟩ := rfl
  rw [spaced, Machine.exec_cons_of_step step hcall, Machine.exec_cons_of_step step hcommand]
  refine Machine.exec_cons_of_step step ?_ []
  rw [step, if_pos hd, hkept]

/-- **Nothing is dropped** while completions follow each other within the hour: after `n` of them
all `n` entries are there, and the first one is `n` pauses old. -/
theorem stream_keeps_all {d : Time} (hd : 0 ≤ d) (hle : d ≤ completedTtl) (t : Time) (n : ℕ) :
    ∃ s, Machine.exec step (init t) (stream d n) = some s ∧ s.ops = [] ∧ s.now = t + n * d ∧
      s.redis.completed.keys = List.range n ∧ ∀ i < n, s.writtenAt i = t + i * d := by
  induction n with
  | zero => exact ⟨init t, rfl, rfl, by simp [init], rfl, fun i hi => absurd hi (Nat.not_lt_zero i)⟩
  | succ n ih =>
    obtain ⟨s, hexec, hops, hnow, hkeys, hwritten⟩ := ih
    have hnew : n ∉ s.redis.completed := by
      rw [OrderedDict.mem_def, hkeys, List.mem_range]
      exact lt_irrefl n
    refine ⟨⟨s.redis.complete n .null s.now, [], s.now + d, Function.update s.writtenAt n s.now⟩,
      ?_, rfl, ?_, ?_, ?_⟩
    · rw [stream_succ, Machine.exec_append, hexec, Option.bind_some]
      exact exec_spaced hd hle s hops n
    · dsimp only
      rw [hnow]
      push_cast
      ring
    · exact (OrderedDict.keys_set_of_notMem hnew .null).trans (by rw [hkeys, List.range_succ])
    · intro i hi
      dsimp only
      rcases eq_or_ne i n with rfl | hne
      · rw [Function.update_self, hnow]
      · rw [Function.update_of_ne hne]
        exact hwritten i (by omega)

/-- Five hundred and one completions at once are all kept, and of two completions fifty minutes
apart the first is still there after a hundred minutes. -/
theorem completed_hash_outgrows :
    (∃ s, Machine.exec step (init 0) (stream 0 501) = some s ∧
        maxCompleted < s.redis.completed.size) ∧
      (∃ s, Machine.exec step (init 0) (stream 3000 2) = some s ∧
        0 ∈ s.redis.completed ∧ completedTtl < s.now - s.writtenAt 0) ∧
      ¬ ∀ t ls, Machine.Visits step Retained (init t) ls := by
  have hcrowded : ∃ s, Machine.exec step (init 0) (stream 0 501) = some s ∧
      maxCompleted < s.redis.completed.size := by
    obtain ⟨s, hexec, -, -, hkeys, -⟩ := stream_keeps_all (le_refl 0) (Nat.cast_nonneg _) 0 501
    refine ⟨s, hexec, ?_⟩
    rw [← OrderedDict.length_keys, hkeys, List.length_range]
    decide
  refine ⟨hcrowded, ?_, fun h => ?_⟩
  · obtain ⟨s, hexec, -, hnow, hkeys, hwritten⟩ :=
      stream_keeps_all (d := 3000) (by norm_num) (by norm_num [completedTtl]) 0 2
    refine ⟨s, hexec, ?_, ?_⟩
    · rw [OrderedDict.mem_def, hkeys]
      decide
    · rw [hnow, hwritten 0 (by decide)]
      norm_num [completedTtl]
  · obtain ⟨s, hexec, hsize⟩ := hcrowded
    exact absurd (h 0 _ _ (List.prefix_refl _) s hexec).size (not_le.mpr hsize)

end RetentionRun
end Rcsce
