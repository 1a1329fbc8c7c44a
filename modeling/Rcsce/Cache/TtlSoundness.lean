import Rcsce.Lib.TaskList
import Rcsce.Cache.CacheTasks
import Rcsce.Cache.Copies

/-!
# No entry is served after its expiry or under another key

Any number of cache nodes share one Redis, and any number of requests are in progress at
once, each at one of its atomic steps.  Every Redis command may raise, Redis may drop
keys, and a node may be replaced by a new process, of any capacity and time to live, that
warms its LRU while requests already come in.

`puts` records, when a `put` has read its clock, the hash, the data and the expiry that it
is about to store.  `Sound` says that every copy at every level, and every payload that a
request carries, is one of these, and that what has passed an expiry check has not
expired; it is kept by every atomic step (`run_sound`), so whatever a `get` returns comes
from a `put` of the same hash whose expiry had not passed (`ttl_sound`).
-/

namespace Rcsce

universe u

/-- The nodes, their Redis, the requests in progress, and the entries recorded by `put`. -/
structure CacheGrid (ι : Type u) where
  nodes : ι → LayerScanCache
  redis : CacheRedis
  tasks : List (ι × CacheTask)
  puts : List (String × Json × Time)

/-- What can happen next. -/
inductive GridLabel (ι : Type u) where
  | get (i : ι) (h : String)
  | put (i : ι) (h : String) (v : Json)
  | delete (i : ι) (h : String)
  /-- A request takes its next atomic step. -/
  | run (k : ℕ) (e : Surroundings)
  /-- A node is replaced by a new process, which reaches Redis or not. -/
  | restart (i : ι) (capacity : ℕ) (ttlSeconds : ℤ) (reaches : Bool)
  | redisDrops (fullKey : String)

namespace CacheTask

/-- What a `put` records when it reads the clock for `expires_at`. -/
def records (e : Surroundings) (c : LayerScanCache) : CacheTask → List (String × Json × Time)
  | .putExpires h v _ => [(h, v, e.now + c.ttlSeconds)]
  | _ => []

/-- What a request carries is a payload with `P`, and what it has let through had not
expired. -/
def Sound (P : Judgement) : CacheTask → Prop
  | .lruCheck h item | .redisCheck h item => ∃ d ct et, item = payload d ct et ∧ P h d et
  | .rehydrate h stored t => ∃ d ct et, stored = payload d ct et ∧ P h d et ∧ t ≤ et
  | .returned h answer admitted => answer = .ok .null ∧ admitted = none ∨
      ∃ d t et, answer = .ok d ∧ admitted = some t ∧ P h d et ∧ t ≤ et
  | .putLru h v _ et | .putSetex h v _ et _ => P h v et
  | .warmPut _ fullKey stored _ =>
      ∃ h d ct et, fullKey = redisKey h ∧ stored = payload d ct et ∧ P h d et
  | _ => True

theorem Sound.mono {P Q : Judgement} (hPQ : ∀ h d et, P h d et → Q h d et) {task : CacheTask}
    (ht : task.Sound P) : task.Sound Q := by
  cases task with
  | lruCheck h item | redisCheck h item =>
    obtain ⟨d, ct, et, rfl, hd⟩ := ht
    exact ⟨d, ct, et, rfl, hPQ _ _ _ hd⟩
  | rehydrate h stored t =>
    obtain ⟨d, ct, et, rfl, hd, ht⟩ := ht
    exact ⟨d, ct, et, rfl, hPQ _ _ _ hd, ht⟩
  | returned h answer admitted =>
    refine ht.imp_right ?_
    rintro ⟨d, t, et, rfl, rfl, hd, ht⟩
    exact ⟨d, t, et, rfl, rfl, hPQ _ _ _ hd, ht⟩
  | putLru h v ct et => exact hPQ _ _ _ ht
  | putSetex h v ct et evicted => exact hPQ _ _ _ ht
  | warmPut now fullKey stored keys =>
    obtain ⟨h, d, ct, et, rfl, rfl, hd⟩ := ht
    exact ⟨h, d, ct, et, rfl, rfl, hPQ _ _ _ hd⟩
  | _ => trivial

section Run

variable {P : Judgement} {e : Surroundings} {c : LayerScanCache} {db : CacheRedis}

/-- The state after a step is sound. -/
def StateSound (P : Judgement) (s : TaskState) : Prop := s.1.Sound P ∧ Copies P P s.2.1.lru s.2.2

theorem stateSound_miss (hc : Copies P P c.lru db) (h : String) : StateSound P (miss h c db) :=
  ⟨Or.inl ⟨rfl, rfl⟩, hc⟩

/-- The expiry check on an LRU item. -/
theorem lruCheck_sound (hc : Copies P P c.lru db) {h : String} {item : Json}
    (ht : (lruCheck h item).Sound P) {s : TaskState}
    (hrun : (lruCheck h item).run e c db = some s) : StateSound P s := by
  obtain ⟨d, ct, et, rfl, hd⟩ := ht
  simp only [run, itemFresh_payload, getItem_data_payload] at hrun
  by_cases hle : e.now ≤ et
  · rw [decide_eq_true hle] at hrun
    cases hrun
    exact ⟨Or.inr ⟨d, e.now, et, rfl, rfl, hd, hle⟩, hc⟩
  · rw [decide_eq_false hle] at hrun
    cases hrun
    exact ⟨trivial, hc⟩

theorem redisGet_sound (hc : Copies P P c.lru db) {h : String} {s : TaskState}
    (hrun : (redisGet h).run e c db = some s) : StateSound P s := by
  rw [run] at hrun
  split_ifs at hrun
  · cases hraw : db.get? (redisKey h) with
    | none =>
      rw [hraw] at hrun
      cases hrun
      exact stateSound_miss hc h
    | some raw =>
      obtain ⟨d, ct, et, rfl, hd⟩ := hc.redis_of_get? hraw
      simp only [hraw, JsonText.truthy_dumps, if_true, JsonText.loads_dumps] at hrun
      cases hrun
      exact ⟨⟨d, ct, et, rfl, hd⟩, hc⟩
  · cases hrun
    exact stateSound_miss hc h

/-- The expiry check on a Redis payload. -/
theorem redisCheck_sound (hc : Copies P P c.lru db) {h : String} {stored : Json}
    (ht : (redisCheck h stored).Sound P) {s : TaskState}
    (hrun : (redisCheck h stored).run e c db = some s) : StateSound P s := by
  obtain ⟨d, ct, et, rfl, hd⟩ := ht
  simp only [run, storedFresh_payload] at hrun
  by_cases hle : e.now ≤ et
  · rw [decide_eq_true hle] at hrun
    cases hrun
    exact ⟨⟨d, ct, et, rfl, hd, hle⟩, hc⟩
  · rw [decide_eq_false hle] at hrun
    cases hrun
    exact ⟨trivial, hc⟩

/-- One key of the warm-up. -/
theorem warmGet_sound (hc : Copies P P c.lru db) {now : Time} {fullKey : String}
    {keys : List String} {s : TaskState}
    (hrun : (warmGet now (fullKey :: keys)).run e c db = some s) : StateSound P s := by
  rw [run] at hrun
  split_ifs at hrun
  · cases hrun
    exact ⟨trivial, hc⟩
  · cases hraw : db.get? fullKey with
    | none =>
      rw [hraw] at hrun
      cases hrun
      exact ⟨trivial, hc⟩
    | some raw =>
      obtain ⟨k, d, ct, et, rfl, rfl, hd⟩ := hc.redis _ raw hraw
      simp only [hraw, JsonText.truthy_dumps, if_true, JsonText.loads_dumps,
        storedExpired_payload] at hrun
      by_cases hexp : et < now
      · rw [decide_eq_true hexp] at hrun
        cases hrun
        exact ⟨trivial, hc⟩
      · rw [decide_eq_false hexp] at hrun
        cases hrun
        exact ⟨⟨k, d, ct, et, rfl, rfl, hd⟩, hc⟩

theorem putSetex_sound (hc : Copies P P c.lru db) {h : String} {v : Json} {ct et : Time}
    {evicted : Option String} (ht : (putSetex h v ct et evicted).Sound P) {s : TaskState}
    (hrun : (putSetex h v ct et evicted).run e c db = some s) : StateSound P s := by
  have hset : Copies P P c.lru (if c.redis && !e.raises && 0 < c.ttlSeconds then
      db.set (redisKey h) (.dumps (payload v ct et)) else db) := by
    split_ifs
    · exact hc.setex (fun _ _ _ _ hd => hd) ht
    · exact hc
  simp only [run] at hrun
  generalize (if (c.redis && !e.raises && decide (0 < c.ttlSeconds)) = true then
    db.set (redisKey h) (.dumps (payload v ct et)) else db) = db' at hset hrun
  split at hrun
  · cases hrun
    exact ⟨trivial, hset⟩
  · split_ifs at hrun
    · cases hrun
      exact ⟨trivial, hset⟩
    · cases hrun
      exact ⟨trivial, hset⟩

/-- **One atomic step keeps all of it sound.** -/
theorem run_sound {task : CacheTask} (hc : Copies P P c.lru db) (ht : task.Sound P)
    (hrec : ∀ h d et, (h, d, et) ∈ task.records e c → P h d et) {s : TaskState}
    (hrun : task.run e c db = some s) : StateSound P s := by
  cases task with
  | lruGet h =>
    simp only [run, LRUCache.get_fst] at hrun
    split at hrun
    · cases hrun
      exact ⟨trivial, hc.touch h⟩
    · rename_i item hitem
      cases hrun
      exact ⟨hc.lru h item hitem, hc.touch h⟩
  | lruCheck h item => exact lruCheck_sound hc ht hrun
  | lruClean h =>
    cases hrun
    exact ⟨trivial, (hc.deleteLru h).mono (fun _ _ _ hl => hl.2) fun _ _ _ hr => hr⟩
  | lruDel h =>
    cases hrun
    exact ⟨trivial, LayerScanCache.copies_deleteFromRedis hc _ _⟩
  | redisGet h => exact redisGet_sound hc hrun
  | redisCheck h stored => exact redisCheck_sound hc ht hrun
  | rehydrate h stored t =>
    obtain ⟨d, ct, et, rfl, hd, hle⟩ := ht
    simp only [run, getItem_data_payload] at hrun
    cases hrun
    exact ⟨Or.inr ⟨d, t, et, rfl, rfl, hd, hle⟩, hc.putLru (fun _ _ _ _ hd => hd) hd⟩
  | redisDel h =>
    cases hrun
    exact stateSound_miss (LayerScanCache.copies_deleteFromRedis hc _ _) h
  | putCreated h v =>
    cases hrun
    exact ⟨trivial, hc⟩
  | putExpires h v ct =>
    cases hrun
    exact ⟨hrec h v _ (List.mem_singleton.mpr rfl), hc⟩
  | putLru h v ct et =>
    cases hrun
    exact ⟨ht, hc.putLru (fun _ _ _ _ hd => hd) ht⟩
  | putSetex h v ct et evicted => exact putSetex_sound hc ht hrun
  | putDel h v ct et evicted =>
    cases hrun
    exact ⟨trivial, LayerScanCache.copies_deleteFromRedis hc _ _⟩
  | deleteLru h =>
    cases hrun
    exact ⟨trivial, (hc.deleteLru h).mono (fun _ _ _ hl => hl.2) fun _ _ _ hr => hr⟩
  | deleteDel h =>
    cases hrun
    exact ⟨trivial, LayerScanCache.copies_deleteFromRedis hc _ _⟩
  | warmKeys =>
    rw [run] at hrun
    split_ifs at hrun <;> cases hrun <;> exact ⟨trivial, hc⟩
  | warmTime keys =>
    cases hrun
    exact ⟨trivial, hc⟩
  | warmGet now keys =>
    cases keys with
    | nil =>
      cases hrun
      exact ⟨trivial, hc⟩
    | cons fullKey keys => exact warmGet_sound hc hrun
  | warmDel now fullKey keys =>
    cases hrun
    refine ⟨trivial, ?_⟩
    dsimp only
    split_ifs
    · exact hc
    · exact hc.drop _
  | warmPut now fullKey stored keys =>
    obtain ⟨h, d, ct, et, rfl, rfl, hd⟩ := ht
    cases hrun
    refine ⟨trivial, ?_⟩
    dsimp only
    rw [stripPrefix_redisKey]
    exact hc.putLru (fun _ _ _ _ hd => hd) hd
  | returned | putReturned | deleted | warmed => cases hrun

end Run

end CacheTask

namespace CacheGrid

variable {ι : Type u} [DecidableEq ι]

/-- One step. -/
def step (s : CacheGrid ι) : GridLabel ι → Option (CacheGrid ι)
  | .get i h => some { s with tasks := s.tasks ++ [(i, .lruGet h)] }
  | .put i h v => some { s with tasks := s.tasks ++ [(i, .putCreated h v)] }
  | .delete i h => some { s with tasks := s.tasks ++ [(i, .deleteLru h)] }
  | .run k e =>
      match s.tasks[k]? with
      | none => none
      | some (i, task) =>
        (task.run e (s.nodes i) s.redis).map fun r => {
          nodes := Function.update s.nodes i r.2.1
          redis := r.2.2
          tasks := advance s.tasks k (some (i, r.1))
          puts := s.puts ++ task.records e (s.nodes i) }
  | .restart i capacity ttlSeconds reaches => some { s with
      nodes := Function.update s.nodes i (.new capacity ttlSeconds reaches)
      tasks := s.tasks.filter (fun t => t.1 ≠ i) ++ if reaches then [(i, .warmKeys)] else [] }
  | .redisDrops fullKey => some { s with redis := s.redis.erase fullKey }

/-- Nodes that have just been started, each with its capacity, its time to live and a
connection to the empty Redis or none. -/
def start (config : ι → ℕ × ℤ × Bool) : CacheGrid ι where
  nodes := fun i => .new (config i).1 (config i).2.1 (config i).2.2
  redis := .empty
  tasks := []
  puts := []

/-- The entry was recorded by a `put`. -/
def Recorded (s : CacheGrid ι) : Judgement := fun h d et => (h, d, et) ∈ s.puts

/-- Every copy and every request is sound. -/
structure Sound (s : CacheGrid ι) : Prop where
  copies : ∀ i, Copies s.Recorded s.Recorded (s.nodes i).lru s.redis
  tasks : ∀ t ∈ s.tasks, t.2.Sound s.Recorded

omit [DecidableEq ι] in
theorem start_sound (config : ι → ℕ × ℤ × Bool) : (start config).Sound :=
  ⟨fun _ => .new _, fun _ ht => absurd ht List.not_mem_nil⟩

omit [DecidableEq ι] in
/-- A request begins. -/
theorem Sound.begin {s : CacheGrid ι} (hs : s.Sound) {i : ι} {task : CacheTask}
    (ht : task.Sound s.Recorded) : Sound { s with tasks := s.tasks ++ [(i, task)] } := by
  refine ⟨hs.copies, fun t hmem => ?_⟩
  rcases List.mem_append.mp hmem with hold | hnew
  · exact hs.tasks t hold
  · rw [List.mem_singleton.mp hnew]
    exact ht

/-- **The step of the invariant.** -/
theorem step_sound {s s' : CacheGrid ι} {l : GridLabel ι} (hs : s.Sound)
    (hstep : s.step l = some s') : s'.Sound := by
  cases l with
  | get i h =>
    cases hstep
    exact hs.begin trivial
  | put i h v =>
    cases hstep
    exact hs.begin trivial
  | delete i h =>
    cases hstep
    exact hs.begin trivial
  | run k e =>
    rw [step] at hstep
    split at hstep
    · cases hstep
    rename_i i task hk
    obtain ⟨r, hrun, rfl⟩ := Option.map_eq_some_iff.mp hstep
    -- what was recorded before the step, and what the step records
    let P : Judgement := fun h d et => (h, d, et) ∈ s.puts ++ task.records e (s.nodes i)
    have hmono : ∀ h d et, s.Recorded h d et → P h d et := fun _ _ _ hd =>
      List.mem_append_left _ hd
    have hc : ∀ j, Copies P P (s.nodes j).lru s.redis := fun j =>
      (hs.copies j).mono hmono hmono
    have ht : task.Sound P := (hs.tasks (i, task) (List.mem_of_getElem? hk)).mono hmono
    obtain ⟨htask, hcopies⟩ := CacheTask.run_sound (hc i) ht
      (fun _ _ _ hd => List.mem_append_right _ hd) hrun
    refine ⟨fun j => ?_, fun t hmem => ?_⟩
    · show Copies P P (Function.update s.nodes i r.2.1 j).lru r.2.2
      by_cases hj : j = i
      · subst hj
        rw [Function.update_self]
        exact hcopies
      · rw [Function.update_of_ne hj]
        exact ⟨(hc j).lru, hcopies.redis⟩
    · have hmem' : t ∈ advance s.tasks k (some (i, r.1)) := hmem
      rcases mem_of_mem_advance hk hmem' with hnew | hold
      · cases hnew
        exact htask
      · exact (hs.tasks t hold).mono hmono
  | restart i capacity ttlSeconds reaches =>
    cases hstep
    refine ⟨fun j => ?_, fun t hmem => ?_⟩
    · show Copies s.Recorded s.Recorded
        (Function.update s.nodes i (.new capacity ttlSeconds reaches) j).lru s.redis
      by_cases hj : j = i
      · subst hj
        rw [Function.update_self]
        exact ⟨(fun _ _ hitem => nomatch hitem), (hs.copies j).redis⟩
      · rw [Function.update_of_ne hj]
        exact hs.copies j
    · rcases List.mem_append.mp hmem with hold | hnew
      · exact hs.tasks t (List.mem_of_mem_filter hold)
      · split_ifs at hnew
        · rw [List.mem_singleton.mp hnew]
          trivial
        · exact absurd hnew List.not_mem_nil
  | redisDrops fullKey =>
    cases hstep
    exact ⟨fun i => (hs.copies i).drop fullKey, hs.tasks⟩

/-- **TTL soundness.**  In every run of any number of nodes, whichever Redis commands raise
and in whatever order the atomic steps come, a `get` of `h` that has returned either
returned nothing, or data that a `put` of the same `h` had recorded with an expiry not
before the clock reading which let the data through. -/
theorem ttl_sound (config : ι → ℕ × ℤ × Bool) (ls : List (GridLabel ι)) (s : CacheGrid ι)
    (hexec : Machine.exec step (start config) ls = some s) (i : ι) (h : String)
    (answer : Except PyError Json) (admitted : Option Time)
    (hret : (i, .returned h answer admitted) ∈ s.tasks) :
    answer = .ok .null ∧ admitted = none ∨
      ∃ d t et, answer = .ok d ∧ admitted = some t ∧ (h, d, et) ∈ s.puts ∧ t ≤ et := by
  have hs : s.Sound := Machine.exec_invariant (I := Sound) (fun _ _ _ hs hstep =>
    step_sound hs hstep) (start_sound config) hexec
  exact hs.tasks _ hret

/-- A node serves, through Redis, what the other one has put. -/
theorem ttl_sound_other_node :
    ∃ s, Machine.exec step (start fun _ : Bool => (10, 60, true))
        [.put true "653bc09e" (.str "clean"), .run 0 {}, .run 0 {}, .run 0 {}, .run 0 {},
          .get false "653bc09e", .run 1 {}, .run 1 {}, .run 1 { now := 5 }, .run 1 {}] = some s ∧
      ∃ et, ("653bc09e", .str "clean", et) ∈ s.puts ∧ (5 : Time) ≤ et := by
  have hrun : ∃ s, Machine.exec step (start fun _ : Bool => (10, 60, true))
      [.put true "653bc09e" (.str "clean"), .run 0 {}, .run 0 {}, .run 0 {}, .run 0 {},
        .get false "653bc09e", .run 1 {}, .run 1 {}, .run 1 { now := 5 }, .run 1 {}] = some s ∧
      (false, .returned "653bc09e" (.ok (.str "clean")) (some 5)) ∈ s.tasks := by
    refine ⟨_, by with_unfolding_all rfl, ?_⟩
    with_unfolding_all exact .tail _ (.head _)
  obtain ⟨s, hexec, hret⟩ := hrun
  have hsound := ttl_sound (fun _ : Bool => (10, 60, true)) _ s hexec false "653bc09e"
    (.ok (.str "clean")) (some 5) hret
  obtain ⟨d, t, et, hd, ht, hmem, hle⟩ := hsound.resolve_left (fun hnull => nomatch hnull.2)
  cases hd
  cases ht
  exact ⟨s, hexec, et, hmem, hle⟩

end CacheGrid
end Rcsce
