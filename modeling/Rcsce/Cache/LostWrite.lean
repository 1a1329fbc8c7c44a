import Rcsce.Lib.TaskList
import Rcsce.Cache.CacheTasks
import Rcsce.Lib.Machine

/-!
# Requests that run at once on one cache node, and the write that gets lost

Any number of `get` and `put` calls run on one node, cut at their atomic steps, and every
Redis command succeeds.  A `get` checks the expiry of an LRU item in one step and removes
the item in a later one, and it re-hydrates the LRU with a payload that it read from Redis
some steps before.  In between, a `put` may have stored a new payload.

A write has *settled* when its `put` has returned, no other `put` of the hash was in
progress when it began, none has begun since, and the LRU has not evicted the hash since.
`SettledWrites` keeps the record.  The steps at which a settled write can be lost are the
clean-up and the re-hydration: `Careful` asks that a clean-up does not remove an unexpired
item, that a re-hydration does not replace one by another payload, and that no entry is
evicted while its `put` is still under way.  In a run of careful steps every `get` that
begins after a write has settled yields it (`settled_write_served`);
`rewritten_entry_cleaned_up` is a run in which a clean-up comes too late.
-/

namespace Rcsce

namespace CacheTask

/-- The stages of `get` and `put`. -/
def IsGetOrPut : CacheTask → Prop
  | .deleteLru _ | .deleteDel _ | .deleted _ | .warmKeys | .warmTime _ | .warmGet .. |
    .warmDel .. | .warmPut .. | .warmed => False
  | _ => True

/-- The next stage of a `get` or a `put`, and the LRU after the step. -/
inductive Next (lru : LRUCache Json) (now : Time) : CacheTask → CacheTask → LRUCache Json → Prop
  | absent {h : String} (hnone : lru.cache.get? h = none) :
      Next lru now (.lruGet h) (.redisGet h) (lru.get h).2
  | found {h : String} {item : Json} (hitem : lru.cache.get? h = some item) :
      Next lru now (.lruGet h) (.lruCheck h item) (lru.get h).2
  | raised {h : String} {item : Json} {err : PyError}
      (hcheck : item.getItem "expires_at" >>= Json.clockLe now = .error err) :
      Next lru now (.lruCheck h item) (.returned h (.error err) none) lru
  | fresh {h : String} {item : Json}
      (hcheck : item.getItem "expires_at" >>= Json.clockLe now = .ok true) :
      Next lru now (.lruCheck h item) (.returned h (item.getItem "data") (some now)) lru
  | expired {h : String} {item : Json}
      (hcheck : item.getItem "expires_at" >>= Json.clockLe now = .ok false) :
      Next lru now (.lruCheck h item) (.lruClean h) lru
  | clean {h : String} : Next lru now (.lruClean h) (.lruDel h) (lru.delete h)
  | del {h : String} : Next lru now (.lruDel h) (.redisGet h) lru
  | loaded {h : String} {stored : Json} : Next lru now (.redisGet h) (.redisCheck h stored) lru
  | notStored {h : String} : Next lru now (.redisGet h) (.returned h (.ok .null) none) lru
  | admitted {h : String} {stored : Json} :
      Next lru now (.redisCheck h stored) (.rehydrate h stored now) lru
  | stale {h : String} {stored : Json} : Next lru now (.redisCheck h stored) (.redisDel h) lru
  | unreadable {h : String} {stored : Json} :
      Next lru now (.redisCheck h stored) (.returned h (.ok .null) none) lru
  | rehydrated {h : String} {stored : Json} {t : Time} {answer : Except PyError Json}
      {admitted : Option Time} :
      Next lru now (.rehydrate h stored t) (.returned h answer admitted) (lru.put h stored).2
  | cleaned {h : String} : Next lru now (.redisDel h) (.returned h (.ok .null) none) lru
  | created {h : String} {v : Json} :
      Next lru now (.putCreated h v) (.putExpires h v now) lru
  | expires {h : String} {v : Json} {ct et : Time} :
      Next lru now (.putExpires h v ct) (.putLru h v ct et) lru
  | wrote {h : String} {v : Json} {ct et : Time} :
      Next lru now (.putLru h v ct et) (.putSetex h v ct et (lru.put h (payload v ct et)).1)
        (lru.put h (payload v ct et)).2
  | evicting {h : String} {v : Json} {ct et : Time} {evicted : Option String} {k : String} :
      Next lru now (.putSetex h v ct et evicted) (.putDel h v ct et k) lru
  | stored {h : String} {v : Json} {ct et : Time} {evicted : Option String} :
      Next lru now (.putSetex h v ct et evicted) (.putReturned h v ct et) lru
  | evicted {h : String} {v : Json} {ct et : Time} {k : String} :
      Next lru now (.putDel h v ct et k) (.putReturned h v ct et) lru

/-- Every step of a `get` or a `put` is one of these. -/
theorem next_of_run {e : Surroundings} {c : LayerScanCache} {db : CacheRedis} {task : CacheTask}
    (hreq : task.IsGetOrPut) {r : TaskState} (hrun : task.run e c db = some r) :
    Next c.lru e.now task r.1 r.2.1.lru := by
  cases task with
  | lruGet h =>
    simp only [run, LRUCache.get_fst] at hrun
    split at hrun
    · rename_i hnone
      cases hrun
      exact .absent hnone
    · rename_i item hitem
      cases hrun
      exact .found hitem
  | lruCheck h item =>
    rw [run] at hrun
    split at hrun
    · rename_i err hcheck
      cases hrun
      exact .raised hcheck
    · rename_i hcheck
      cases hrun
      exact .fresh hcheck
    · rename_i hcheck
      cases hrun
      exact .expired hcheck
  | lruClean h =>
    cases hrun
    exact .clean
  | lruDel h =>
    cases hrun
    exact .del
  | redisGet h =>
    rw [run] at hrun
    split_ifs at hrun
    · split at hrun
      · cases hrun
        exact .notStored
      · split_ifs at hrun
        · split at hrun
          · cases hrun
            exact .notStored
          · cases hrun
            exact .loaded
        · cases hrun
          exact .notStored
    · cases hrun
      exact .notStored
  | redisCheck h stored =>
    rw [run] at hrun
    split at hrun
    · cases hrun
      exact .unreadable
    · cases hrun
      exact .admitted
    · cases hrun
      exact .stale
  | rehydrate h stored t =>
    rw [run] at hrun
    split at hrun
    · cases hrun
      exact .rehydrated
    · cases hrun
      exact .rehydrated
  | redisDel h =>
    cases hrun
    exact .cleaned
  | putCreated h v =>
    cases hrun
    exact .created
  | putExpires h v ct =>
    cases hrun
    exact .expires
  | putLru h v ct et =>
    cases hrun
    exact .wrote
  | putSetex h v ct et evicted =>
    simp only [run] at hrun
    split at hrun
    · cases hrun
      exact .stored
    · rename_i k
      by_cases hk : k ≠ ""
      · rw [if_pos hk] at hrun
        cases hrun
        exact .evicting
      · rw [if_neg hk] at hrun
        cases hrun
        exact .stored
  | putDel h v ct et k =>
    cases hrun
    exact .evicted
  | returned | putReturned => cases hrun
  | deleteLru | deleteDel | deleted | warmKeys | warmTime | warmGet | warmDel | warmPut | warmed =>
    exact hreq.elim

/-- The task is a `put` of the hash that has not returned. -/
def putOf (h : String) : CacheTask → Bool
  | .putCreated k _ | .putExpires k _ _ | .putLru k _ _ _ | .putSetex k _ _ _ _ |
    .putDel k _ _ _ _ => k == h
  | _ => false

/-- What a `put` that has not returned has already written to the LRU. -/
def written : CacheTask → Option (String × Json × Time × Time)
  | .putSetex h v ct et _ | .putDel h v ct et _ => some (h, v, ct, et)
  | _ => none

/-- What a `put` that has returned has written. -/
def settles : CacheTask → Option (String × Json × Time × Time)
  | .putReturned h v ct et => some (h, v, ct, et)
  | _ => none

/-- The hash that the next step evicts from the LRU. -/
def evicts (lru : LRUCache Json) : CacheTask → Option String
  | .putLru h v ct et => (lru.put h (payload v ct et)).1
  | .rehydrate h stored _ => (lru.put h stored).1
  | _ => none

/-- What the LRU holds under `h` after the next step, unless that evicts it. -/
def lruAfter (h : String) (old : Option Json) : CacheTask → Option Json
  | .lruClean k => if h = k then none else old
  | .rehydrate k stored _ => if h = k then some stored else old
  | .putLru k v ct et => if h = k then some (payload v ct et) else old
  | _ => old

section Next

variable {lru lru' : LRUCache Json} {now : Time} {task next : CacheTask} {h : String}
  {v : Json} {ct et : Time}

theorem Next.isGetOrPut (hn : Next lru now task next lru') : next.IsGetOrPut := by
  cases hn <;> trivial

theorem Next.putOf_of_next (hn : Next lru now task next lru') (hput : next.putOf h = true) :
    task.putOf h = true := by
  cases hn <;> first | exact hput | cases hput

/-- A `put` goes on until it returns. -/
theorem Next.putOf_next (hn : Next lru now task next lru') (hput : task.putOf h = true)
    (hret : ∀ v ct et, next.settles ≠ some (h, v, ct, et)) : next.putOf h = true := by
  cases hn with
  | stored | evicted => exact absurd (by rw [settles, eq_of_beq hput]) (hret _ _ _)
  | created | expires | wrote | evicting => exact hput
  | _ => cases hput

theorem putOf_of_written (hw : task.written = some (h, v, ct, et)) : task.putOf h = true := by
  cases task with
  | putSetex | putDel =>
    cases hw
    exact beq_self_eq_true h
  | _ => cases hw

theorem evicts_of_written (hw : task.written = some (h, v, ct, et)) (lru : LRUCache Json) :
    task.evicts lru = none := by
  cases task with
  | putLru | rehydrate => cases hw
  | _ => rfl

/-- A `put` that returns had written what it returns with. -/
theorem Next.written_of_settles (hn : Next lru now task next lru')
    (hs : next.settles = some (h, v, ct, et)) :
    task.written = some (h, v, ct, et) ∧ lru' = lru := by
  cases hn with
  | stored | evicted =>
    cases hs
    exact ⟨rfl, rfl⟩
  | _ => cases hs

theorem not_putOf_of_settles (hs : next.settles = some (h, v, ct, et)) (k : String) :
    next.putOf k = false := by
  cases next with
  | putReturned => rfl
  | _ => cases hs

/-- A `put` has written when it comes from its LRU step. -/
theorem Next.written_next (hn : Next lru now task next lru')
    (hw : next.written = some (h, v, ct, et)) :
    task.written = some (h, v, ct, et) ∧ lru' = lru ∨
      task = .putLru h v ct et ∧ lru' = (lru.put h (payload v ct et)).2 := by
  cases hn with
  | wrote =>
    cases hw
    exact Or.inr ⟨rfl, rfl⟩
  | evicting => exact Or.inl ⟨hw, rfl⟩
  | _ => cases hw

/-- The effect of a step on one hash of the LRU. -/
theorem Next.get?_lru (hn : Next lru now task next lru') (hev : task.evicts lru ≠ some h) :
    lru'.cache.get? h = task.lruAfter h (lru.cache.get? h) := by
  cases hn with
  | absent | found => exact LRUCache.get?_get_snd _ _ _
  | clean => exact LRUCache.get?_delete _ _ _
  | rehydrated | wrote =>
    rw [LRUCache.get?_put]
    exact if_neg hev
  | _ => rfl

end Next

end CacheTask

/-! ## Settled writes -/

/-- A write that has settled, numbered. -/
structure Settled where
  serial : ℕ
  data : Json
  createdAt : Time
  expiresAt : Time

namespace Settled

/-- What the write has stored. -/
def payload (p : Settled) : Json := Rcsce.payload p.data p.createdAt p.expiresAt

end Settled

/-- For each hash the settled write, if there is one, and whether a `put` is under way that
settles when it returns. -/
structure SettledWrites where
  settled : String → Option Settled
  alone : String → Bool
  serial : ℕ

namespace SettledWrites

/-- A `put` of `h` begins; `busy` says that another one is in progress. -/
def began (w : SettledWrites) (h : String) (busy : Bool) : SettledWrites :=
  { w with settled := Function.update w.settled h none, alone := Function.update w.alone h !busy }

/-- The LRU evicts a hash, or none. -/
def evicted (w : SettledWrites) : Option String → SettledWrites
  | none => w
  | some h => { w with settled := Function.update w.settled h none }

/-- A `put` of `h` returns. -/
def returned (w : SettledWrites) (h : String) (v : Json) (ct et : Time) : SettledWrites :=
  if w.alone h then
    ⟨Function.update w.settled h (some ⟨w.serial, v, ct, et⟩), Function.update w.alone h false,
      w.serial + 1⟩
  else w

variable {w : SettledWrites} {h j : String} {p : Settled} {v : Json} {ct et : Time}

theorem settled_began {busy : Bool} (hp : (w.began h busy).settled j = some p) :
    j ≠ h ∧ w.settled j = some p := by
  have hj : j ≠ h := by
    rintro rfl
    have hnone : Function.update w.settled j none j = none := Function.update_self _ _ _
    exact absurd (hnone.symm.trans hp) nofun
  exact ⟨hj, (Function.update_of_ne hj _ _).symm.trans hp⟩

theorem settled_evicted {evicted : Option String} (hp : (w.evicted evicted).settled j = some p) :
    w.settled j = some p ∧ evicted ≠ some j := by
  cases evicted with
  | none => exact ⟨hp, nofun⟩
  | some k =>
    -- an eviction does to the record what the beginning of a `put` does
    have hbegan : (w.began k false).settled j = some p := hp
    obtain ⟨hj, hold⟩ := settled_began hbegan
    exact ⟨hold, fun heq => hj (Option.some.inj heq).symm⟩

theorem settled_returned (hp : (w.returned h v ct et).settled j = some p) :
    j = h ∧ p = ⟨w.serial, v, ct, et⟩ ∧ w.alone h = true ∨ w.settled j = some p := by
  rw [returned] at hp
  split_ifs at hp with ha
  · by_cases hj : j = h
    · subst hj
      have hnew : Function.update w.settled j (some ⟨w.serial, v, ct, et⟩) j =
        some ⟨w.serial, v, ct, et⟩ := Function.update_self _ _ _
      exact Or.inl ⟨rfl, Option.some.inj (hp.symm.trans hnew), ha⟩
    · exact Or.inr ((Function.update_of_ne hj _ _).symm.trans hp)
  · exact Or.inr hp

theorem alone_returned_self : (w.returned h v ct et).alone h = false := by
  rw [returned]
  split_ifs with ha
  · exact Function.update_self _ _ _
  · exact Bool.eq_false_iff.mpr ha

theorem alone_returned_of_ne (hj : j ≠ h) : (w.returned h v ct et).alone j = w.alone j := by
  rw [returned]
  split_ifs
  · exact Function.update_of_ne hj _ _
  · rfl

theorem serial_le_returned : w.serial ≤ (w.returned h v ct et).serial := by
  rw [returned]
  split_ifs
  · exact Nat.le_succ _
  · exact Nat.le_refl _

theorem serial_lt_returned (ha : w.alone h = true) :
    w.serial < (w.returned h v ct et).serial := by
  rw [returned, if_pos ha]
  exact Nat.lt_succ_self _

/-- The settled writes are numbered below the next number. -/
def Numbered (w : SettledWrites) : Prop := ∀ j p, w.settled j = some p → p.serial < w.serial

theorem Numbered.began (hw : w.Numbered) (h : String) (busy : Bool) :
    (w.began h busy).Numbered := fun j p hp => hw j p (settled_began hp).2

theorem Numbered.evicted (hw : w.Numbered) (evicted : Option String) :
    (w.evicted evicted).Numbered := by
  intro j p hp
  have hold := hw j p (settled_evicted hp).1
  cases evicted <;> exact hold

theorem Numbered.returned (hw : w.Numbered) (h : String) (v : Json) (ct et : Time) :
    (w.returned h v ct et).Numbered := by
  intro j p hp
  rcases settled_returned hp with ⟨-, rfl, ha⟩ | hold
  · exact serial_lt_returned ha
  · exact Nat.lt_of_lt_of_le (hw j p hold) serial_le_returned

end SettledWrites

/-- A cache node and its Redis, with the requests in progress.  `clock` is the latest time
of a step.  Each request comes with the write of its hash that had settled when it began. -/
structure BusyNode where
  cache : LayerScanCache
  redis : CacheRedis
  clock : Time
  tasks : List (CacheTask × Option Settled)
  writes : SettledWrites

/-- What can happen next. -/
inductive BusyLabel where
  | get (h : String)
  | put (h : String) (v : Json)
  /-- A request takes its next atomic step, at the time `now`; its Redis command succeeds. -/
  | run (k : ℕ) (now : Time)
  | redisDrops (fullKey : String)

namespace BusyNode

/-- A `put` of the hash is in progress. -/
def putting (s : BusyNode) (h : String) : Bool := s.tasks.any fun t => t.1.putOf h

/-- One step. -/
def step (s : BusyNode) : BusyLabel → Option BusyNode
  | .get h => some { s with tasks := s.tasks ++ [(.lruGet h, s.writes.settled h)] }
  | .put h v => some { s with
      tasks := s.tasks ++ [(.putCreated h v, none)]
      writes := s.writes.began h (s.putting h) }
  | .run k now =>
      match s.tasks[k]? with
      | none => none
      | some (task, expects) =>
        (task.run { now := now } s.cache s.redis).map fun r => {
          cache := r.2.1
          redis := r.2.2
          clock := max s.clock now
          tasks := advance s.tasks k (some (r.1, expects))
          writes := match r.1.settles with
            | some (h, v, ct, et) => s.writes.returned h v ct et
            | none => s.writes.evicted (task.evicts s.cache.lru) }
  | .redisDrops fullKey => some { s with redis := s.redis.erase fullKey }

/-- A node on which no request is in progress, whatever its two levels hold. -/
def start (cache : LayerScanCache) (redis : CacheRedis) (clock : Time) : BusyNode :=
  ⟨cache, redis, clock, [], ⟨fun _ => none, fun _ => false, 0⟩⟩

/-- A `get` of `h` has answered with the write that had settled when it began, if that is
still settled and has not expired. -/
def ServesSettled (h : String) (s : BusyNode) : Prop :=
  ∀ p answer admitted, (.returned h answer admitted, some p) ∈ s.tasks →
    s.writes.settled h = some p → s.clock ≤ p.expiresAt → answer = .ok p.data

/-- The step of a request, at the time `now`, loses no write of `h`. -/
structure TaskCareful (h : String) (s : BusyNode) (now : Time) (task : CacheTask) : Prop where
  /-- The clean-up of an expired item finds no unexpired one in its place. -/
  clean : task = .lruClean h → ∀ d ct et,
    s.cache.lru.cache.get? h = some (payload d ct et) → et < now
  /-- A re-hydration finds no other unexpired payload in the LRU. -/
  rehydrate : ∀ stored t, task = .rehydrate h stored t → ∀ d ct et,
    s.cache.lru.cache.get? h = some (payload d ct et) → stored = payload d ct et ∨ et < now
  /-- No entry is evicted between its write to the LRU and the return of its `put`. -/
  evict : task.evicts s.cache.lru = some h →
    task.putOf h = false ∧ ∀ t ∈ s.tasks, ∀ v ct et, t.1.written ≠ some (h, v, ct, et)

/-- The step loses no write of `h`. -/
def Careful (h : String) (s : BusyNode) (l : BusyLabel) (_ : BusyNode) : Prop :=
  match l with
  | .run k now => ∀ task expects, s.tasks[k]? = some (task, expects) →
      s.TaskCareful h (max s.clock now) task
  | _ => True

end BusyNode

namespace CacheTask

/-- The `get` of `h` is on the way to `p`, or has answered with it. -/
def Serves (h : String) (p : Settled) : CacheTask → Prop
  | .lruCheck k item => k = h → item = p.payload
  | .returned k answer _ => k = h → answer = .ok p.data
  | .lruClean k | .lruDel k | .redisGet k | .redisCheck k _ | .rehydrate k _ _ | .redisDel k =>
      k ≠ h
  | _ => True

/-- A `get` that finds the write in the LRU serves it. -/
theorem Next.serves {lru lru' : LRUCache Json} {now : Time} {task next : CacheTask} {h : String}
    {p : Settled} (hn : Next lru now task next lru')
    (hlru : lru.cache.get? h = some p.payload) (hle : now ≤ p.expiresAt)
    (ht : task.Serves h p) : next.Serves h p := by
  have hcheck : (p.payload.getItem "expires_at" >>= Json.clockLe now) = .ok true := by
    rw [Settled.payload, itemFresh_payload, decide_eq_true hle]
  cases hn with
  | absent hnone =>
    rintro rfl
    rw [hlru] at hnone
    cases hnone
  | found hitem =>
    rintro rfl
    rw [hlru] at hitem
    exact (Option.some.inj hitem).symm
  | raised herr =>
    rintro rfl
    rw [ht rfl, hcheck] at herr
    cases herr
  | fresh =>
    rintro rfl
    rw [ht rfl]
    rfl
  | expired hexp =>
    rintro rfl
    rw [ht rfl, hcheck] at hexp
    cases hexp
  | notStored | unreadable | cleaned | rehydrated => exact fun heq => absurd heq ht
  | clean | del | loaded | admitted | stale => exact ht
  | created | expires | wrote | evicting | stored | evicted => trivial

end CacheTask

namespace BusyNode

open Machine

/-- How many of the tasks are `put`s of the hash that have not returned. -/
def putCount (h : String) (tasks : List (CacheTask × Option Settled)) : ℕ :=
  tasks.countP fun t => t.1.putOf h

/-- What the record says of `h`, and what the LRU holds for it. -/
structure Inv (h : String) (s : BusyNode) : Prop where
  requests : ∀ t ∈ s.tasks, t.1.IsGetOrPut
  /-- A `put` that will settle is the only one in progress. -/
  alone : s.writes.alone h = true → putCount h s.tasks = 1
  idle : ∀ p, s.writes.settled h = some p → putCount h s.tasks = 0
  /-- What it has written is in the LRU until it expires. -/
  written : s.writes.alone h = true → ∀ t ∈ s.tasks, ∀ v ct et,
    t.1.written = some (h, v, ct, et) → s.clock ≤ et →
      s.cache.lru.cache.get? h = some (payload v ct et)
  held : ∀ p, s.writes.settled h = some p → s.clock ≤ p.expiresAt →
    s.cache.lru.cache.get? h = some p.payload
  serves : ∀ t ∈ s.tasks, ∀ p, t.2 = some p → s.writes.settled h = some p →
    s.clock ≤ p.expiresAt → t.1.Serves h p
  numbered : s.writes.Numbered
  expected : ∀ t ∈ s.tasks, ∀ p, t.2 = some p → p.serial < s.writes.serial

variable {s : BusyNode} {h : String}

theorem Inv.servesSettled (hs : s.Inv h) : s.ServesSettled h := by
  intro p answer admitted hmem hsettled hle
  exact hs.serves _ hmem p rfl hsettled hle rfl

theorem inv_start (cache : LayerScanCache) (redis : CacheRedis) (clock : Time) (h : String) :
    (start cache redis clock).Inv h where
  requests := fun _ ht => absurd ht List.not_mem_nil
  alone := nofun
  idle := nofun
  written := nofun
  held := nofun
  serves := fun _ ht => absurd ht List.not_mem_nil
  numbered := nofun
  expected := fun _ ht => absurd ht List.not_mem_nil

/-- No `put` of the hash is in progress when none is counted. -/
theorem putOf_eq_false {l : List (CacheTask × Option Settled)} (hcount : putCount h l = 0)
    {t : CacheTask × Option Settled} (ht : t ∈ l) : t.1.putOf h = false :=
  Bool.eq_false_iff.mpr (List.countP_eq_zero.mp hcount t ht)

theorem putCount_append (h : String) (l l' : List (CacheTask × Option Settled)) :
    putCount h (l ++ l') = putCount h l + putCount h l' := List.countP_append

theorem putCount_singleton (h : String) (t : CacheTask × Option Settled) :
    putCount h [t] = if t.1.putOf h then 1 else 0 := List.countP_singleton

/-! ### A request begins -/

theorem Inv.get (hs : s.Inv h) (k : String) :
    Inv h { s with tasks := s.tasks ++ [(.lruGet k, s.writes.settled k)] } := by
  have hcount : putCount h (s.tasks ++ [(.lruGet k, s.writes.settled k)]) = putCount h s.tasks :=
    putCount_append h _ _
  have hmem : ∀ t ∈ s.tasks ++ [(.lruGet k, s.writes.settled k)],
      t ∈ s.tasks ∨ t = (.lruGet k, s.writes.settled k) := fun t ht =>
    (List.mem_append.mp ht).imp_right List.mem_singleton.mp
  refine ⟨fun t ht => ?_, fun ha => hcount.trans (hs.alone ha),
    fun p hp => hcount.trans (hs.idle p hp), fun ha t ht v ct et hw hle => ?_, hs.held,
    fun t ht p hp hsettled hle => ?_, hs.numbered, fun t ht p hp => ?_⟩
  · rcases hmem t ht with hold | rfl
    · exact hs.requests t hold
    · trivial
  · rcases hmem t ht with hold | rfl
    · exact hs.written ha t hold v ct et hw hle
    · cases hw
  · rcases hmem t ht with hold | rfl
    · exact hs.serves t hold p hp hsettled hle
    · trivial
  · rcases hmem t ht with hold | rfl
    · exact hs.expected t hold p hp
    · exact hs.numbered k p hp

theorem Inv.put (hs : s.Inv h) (k : String) (v : Json) :
    Inv h { s with
      tasks := s.tasks ++ [(.putCreated k v, none)]
      writes := s.writes.began k (s.putting k) } := by
  have hmem : ∀ t ∈ s.tasks ++ [(.putCreated k v, none)],
      t ∈ s.tasks ∨ t = (.putCreated k v, none) := fun t ht =>
    (List.mem_append.mp ht).imp_right List.mem_singleton.mp
  have hsettled : ∀ p, (s.writes.began k (s.putting k)).settled h = some p →
      h ≠ k ∧ s.writes.settled h = some p := fun _ => SettledWrites.settled_began
  have hcount : h ≠ k →
      putCount h (s.tasks ++ [(.putCreated k v, none)]) = putCount h s.tasks := by
    intro hk
    rw [putCount_append, putCount_singleton]
    show putCount h s.tasks + (if (k == h) = true then 1 else 0) = putCount h s.tasks
    rw [if_neg fun heq => hk (eq_of_beq heq).symm, Nat.add_zero]
  have halone : (s.writes.began k (s.putting k)).alone h = true →
      putCount h s.tasks = 0 ∧ h = k ∨ h ≠ k ∧ s.writes.alone h = true := by
    intro ha
    by_cases hk : h = k
    · subst hk
      have hbusy : (!s.putting h) = true := (Function.update_self h _ _).symm.trans ha
      rw [putting, Bool.not_eq_true', List.any_eq_false] at hbusy
      exact Or.inl ⟨List.countP_eq_zero.mpr hbusy, rfl⟩
    · exact Or.inr ⟨hk, (Function.update_of_ne hk _ _).symm.trans ha⟩
  refine ⟨fun t ht => ?_, fun ha => ?_, fun p hp => ?_, fun ha t ht w ct et hw hle => ?_,
    fun p hp => hs.held p (hsettled p hp).2, fun t ht p hp hp' hle => ?_,
    hs.numbered.began k _, fun t ht p hp => ?_⟩
  · rcases hmem t ht with hold | rfl
    · exact hs.requests t hold
    · trivial
  · rcases halone ha with ⟨hzero, rfl⟩ | ⟨hk, ha'⟩
    · show putCount h (s.tasks ++ [(.putCreated h v, none)]) = 1
      rw [putCount_append, hzero, putCount_singleton, Nat.zero_add]
      exact if_pos (beq_self_eq_true h)
    · exact (hcount hk).trans (hs.alone ha')
  · exact (hcount (hsettled p hp).1).trans (hs.idle p (hsettled p hp).2)
  · rcases hmem t ht with hold | rfl
    · rcases halone ha with ⟨hzero, -⟩ | ⟨-, ha'⟩
      · exact absurd (CacheTask.putOf_of_written hw)
          (Bool.eq_false_iff.mp (putOf_eq_false hzero hold))
      · exact hs.written ha' t hold w ct et hw hle
    · cases hw
  · rcases hmem t ht with hold | rfl
    · exact hs.serves t hold p hp (hsettled p hp').2 hle
    · cases hp
  · rcases hmem t ht with hold | rfl
    · exact hs.expected t hold p hp
    · cases hp

/-! ### A request takes its next step -/

section Run

variable {k : ℕ} {now : Time} {task next : CacheTask} {expects : Option Settled}
  {lru' : LRUCache Json}

theorem mem_advance_iff (hk : s.tasks[k]? = some (task, expects))
    {t : CacheTask × Option Settled} :
    t ∈ advance s.tasks k (some (next, expects)) ↔
      t = (next, expects) ∨ t ∈ s.tasks.eraseIdx k := by
  rw [(advance_perm hk _).mem_iff]
  exact List.mem_cons

theorem putCount_tasks (hk : s.tasks[k]? = some (task, expects)) :
    putCount h s.tasks =
      putCount h (s.tasks.eraseIdx k) + if task.putOf h then 1 else 0 :=
  countP_eq_eraseIdx_add _ hk

theorem putCount_advance (hk : s.tasks[k]? = some (task, expects)) :
    putCount h (advance s.tasks k (some (next, expects))) =
      putCount h (s.tasks.eraseIdx k) + if next.putOf h then 1 else 0 := by
  rw [← putCount_singleton h (next, expects)]
  exact countP_advance _ hk _

/-- What a careful step does to an unexpired payload of the hash: nothing, unless it is the
step of a `put`. -/
theorem TaskCareful.lruAfter (hc : s.TaskCareful h now task) {d : Json} {ct et : Time}
    (hitem : s.cache.lru.cache.get? h = some (payload d ct et)) (hle : now ≤ et)
    (hput : task.putOf h = false) :
    task.lruAfter h (some (payload d ct et)) = some (payload d ct et) := by
  cases task with
  | lruClean j =>
    refine if_neg ?_
    rintro rfl
    exact absurd hle (not_le.mpr (hc.clean rfl d ct et hitem))
  | rehydrate j stored t =>
    by_cases hj : h = j
    · subst hj
      rcases hc.rehydrate stored t rfl d ct et hitem with rfl | hlt
      · exact if_pos rfl
      · exact absurd hle (not_le.mpr hlt)
    · exact if_neg hj
  | putLru j v ct' et' =>
    refine if_neg ?_
    rintro rfl
    exact absurd hput (by rw [CacheTask.putOf, beq_self_eq_true]; decide)
  | _ => rfl

/-- A careful step keeps an unexpired payload of the hash, unless it evicts it or is the
step of a `put`. -/
theorem TaskCareful.keeps (hn : CacheTask.Next s.cache.lru now task next lru')
    (hc : s.TaskCareful h (max s.clock now) task) (hev : task.evicts s.cache.lru ≠ some h)
    {d : Json} {ct et : Time} (hitem : s.cache.lru.cache.get? h = some (payload d ct et))
    (hle : max s.clock now ≤ et) (hput : task.putOf h = false) :
    lru'.cache.get? h = some (payload d ct et) := by
  rw [hn.get?_lru hev, hitem]
  exact hc.lruAfter hitem hle hput

/-- A careful step of a request that is not the return of a `put` of `h`. -/
theorem Inv.run_quiet (hs : s.Inv h) (hk : s.tasks[k]? = some (task, expects))
    (hn : CacheTask.Next s.cache.lru now task next lru')
    (hc : s.TaskCareful h (max s.clock now) task)
    (hquiet : ∀ v ct et, next.settles ≠ some (h, v, ct, et)) {cache : LayerScanCache}
    (hlru : cache.lru = lru') (redis : CacheRedis) {writes : SettledWrites}
    (halone : writes.alone h = s.writes.alone h)
    (hsettled : ∀ p, writes.settled h = some p →
      s.writes.settled h = some p ∧ task.evicts s.cache.lru ≠ some h)
    (hserial : s.writes.serial ≤ writes.serial) (hnumbered : writes.Numbered) :
    Inv h ⟨cache, redis, max s.clock now, advance s.tasks k (some (next, expects)), writes⟩ := by
  subst hlru
  have htask := List.mem_of_getElem? hk
  have hrest : ∀ t ∈ s.tasks.eraseIdx k, t ∈ s.tasks := fun _ => List.mem_of_mem_eraseIdx
  have hput : next.putOf h = task.putOf h :=
    Bool.eq_iff_iff.mpr ⟨hn.putOf_of_next, fun hp => hn.putOf_next hp hquiet⟩
  have hcount : putCount h (advance s.tasks k (some (next, expects))) = putCount h s.tasks := by
    rw [putCount_advance hk, putCount_tasks hk, hput]
  have hheld : ∀ p, writes.settled h = some p → max s.clock now ≤ p.expiresAt →
      cache.lru.cache.get? h = some p.payload := by
    intro p hp hle
    obtain ⟨hp', hev⟩ := hsettled p hp
    exact TaskCareful.keeps hn hc hev (hs.held p hp' (le_of_max_le_left hle)) hle
      (putOf_eq_false (hs.idle p hp') htask)
  refine ⟨fun t ht => ?_, fun ha => ?_, fun p hp => ?_, fun ha t ht v ct et hw hle => ?_, hheld,
    fun t ht p hp hp' hle => ?_, hnumbered, fun t ht p hp => ?_⟩
  · rcases (mem_advance_iff hk).mp ht with rfl | hold
    · exact hn.isGetOrPut
    · exact hs.requests t (hrest t hold)
  · exact hcount.trans (hs.alone (halone.symm.trans ha))
  · exact hcount.trans (hs.idle p (hsettled p hp).1)
  · have ha' : s.writes.alone h = true := halone.symm.trans ha
    rcases (mem_advance_iff hk).mp ht with rfl | hold
    · rcases hn.written_next hw with ⟨hw', hsame⟩ | ⟨rfl, -⟩
      · show cache.lru.cache.get? h = some (payload v ct et)
        rw [hsame]
        exact hs.written ha' _ htask v ct et hw' (le_of_max_le_left hle)
      · -- the `put` writes, and its own entry is not evicted
        have hev : (CacheTask.putLru h v ct et).evicts s.cache.lru ≠ some h := by
          intro hev
          have hnot := (hc.evict hev).1
          rw [CacheTask.putOf, beq_self_eq_true] at hnot
          cases hnot
        exact (hn.get?_lru hev).trans (if_pos rfl)
    · -- another `put` has written, and it is the only one of the hash
      have hone := hs.alone ha'
      rw [putCount_tasks hk] at hone
      have hother : 0 < putCount h (s.tasks.eraseIdx k) :=
        List.countP_pos_iff.mpr ⟨t, hold, CacheTask.putOf_of_written hw⟩
      have hnot : task.putOf h = false := by
        by_contra htrue
        rw [Bool.not_eq_false] at htrue
        rw [htrue, if_pos rfl] at hone
        omega
      exact TaskCareful.keeps hn hc (fun hev => (hc.evict hev).2 t (hrest t hold) v ct et hw)
        (hs.written ha' t (hrest t hold) v ct et hw (le_of_max_le_left hle)) hle hnot
  · have hp'' := (hsettled p hp').1
    have hle' : s.clock ≤ p.expiresAt := le_of_max_le_left hle
    rcases (mem_advance_iff hk).mp ht with rfl | hold
    · exact hn.serves (hs.held p hp'' hle') (le_of_max_le_right hle)
        (hs.serves _ htask p hp hp'' hle')
    · exact hs.serves t (hrest t hold) p hp hp'' hle'
  · refine Nat.lt_of_lt_of_le ?_ hserial
    rcases (mem_advance_iff hk).mp ht with rfl | hold
    · exact hs.expected _ htask p hp
    · exact hs.expected t (hrest t hold) p hp

/-- The return of a `put` of `h`. -/
theorem Inv.run_returned (hs : s.Inv h) (hk : s.tasks[k]? = some (task, expects))
    (hn : CacheTask.Next s.cache.lru now task next lru') {v : Json} {ct et : Time}
    (hret : next.settles = some (h, v, ct, et)) {cache : LayerScanCache}
    (hlru : cache.lru = lru') (redis : CacheRedis) :
    Inv h ⟨cache, redis, max s.clock now, advance s.tasks k (some (next, expects)),
      s.writes.returned h v ct et⟩ := by
  subst hlru
  have htask := List.mem_of_getElem? hk
  have hrest : ∀ t ∈ s.tasks.eraseIdx k, t ∈ s.tasks := fun _ => List.mem_of_mem_eraseIdx
  obtain ⟨hw, hsame⟩ := hn.written_of_settles hret
  have hput := CacheTask.putOf_of_written hw
  have hbusy : ∀ p, s.writes.settled h ≠ some p := by
    intro p hp
    exact absurd hput (Bool.eq_false_iff.mp (putOf_eq_false (hs.idle p hp) htask))
  have hrequests : ∀ t ∈ advance s.tasks k (some (next, expects)), t.1.IsGetOrPut := by
    intro t ht
    rcases (mem_advance_iff hk).mp ht with rfl | hold
    · exact hn.isGetOrPut
    · exact hs.requests t (hrest t hold)
  have hexpected : ∀ t ∈ advance s.tasks k (some (next, expects)), ∀ p, t.2 = some p →
      p.serial < s.writes.serial := by
    intro t ht p hp
    rcases (mem_advance_iff hk).mp ht with rfl | hold
    · exact hs.expected _ htask p hp
    · exact hs.expected t (hrest t hold) p hp
  have halone : (s.writes.returned h v ct et).alone h ≠ true := by
    rw [SettledWrites.alone_returned_self]
    exact Bool.false_ne_true
  -- only the new write can have settled
  have hsettled : ∀ p, (s.writes.returned h v ct et).settled h = some p →
      p = ⟨s.writes.serial, v, ct, et⟩ ∧ s.writes.alone h = true := by
    intro p hp
    rcases SettledWrites.settled_returned hp with ⟨-, hnew⟩ | hold
    · exact hnew
    · exact absurd hold (hbusy p)
  refine ⟨hrequests, fun ha => absurd ha halone, fun p hp => ?_, fun ha => absurd ha halone,
    fun p hp hle => ?_, fun t ht p hp hp' _ => ?_, hs.numbered.returned h v ct et,
    fun t ht p hp => Nat.lt_of_lt_of_le (hexpected t ht p hp) SettledWrites.serial_le_returned⟩
  · have hone := hs.alone (hsettled p hp).2
    rw [putCount_tasks hk, hput, if_pos rfl] at hone
    rw [putCount_advance hk, CacheTask.not_putOf_of_settles hret]
    exact Nat.succ.inj hone
  · obtain ⟨rfl, ha⟩ := hsettled p hp
    show cache.lru.cache.get? h = some (payload v ct et)
    rw [hsame]
    exact hs.written ha _ htask v ct et hw (le_of_max_le_left hle)
  · -- no request in progress began after this write
    obtain ⟨rfl, -⟩ := hsettled p hp'
    exact absurd (hexpected t ht _ hp) (Nat.lt_irrefl _)

end Run

/-! ### Whole runs -/

/-- **The step.** -/
theorem step_inv {s' : BusyNode} {l : BusyLabel} (hs : s.Inv h) (hc : Careful h s l s')
    (hstep : s.step l = some s') : s'.Inv h := by
  cases l with
  | get k =>
    cases hstep
    exact hs.get k
  | put k v =>
    cases hstep
    exact hs.put k v
  | redisDrops fullKey =>
    cases hstep
    exact ⟨hs.requests, hs.alone, hs.idle, hs.written, hs.held, hs.serves, hs.numbered,
      hs.expected⟩
  | run k now =>
    rw [step] at hstep
    split at hstep
    · cases hstep
    rename_i task expects hk
    obtain ⟨r, hrun, rfl⟩ := Option.map_eq_some_iff.mp hstep
    have hcareful := hc task expects hk
    have hn := CacheTask.next_of_run (hs.requests _ (List.mem_of_getElem? hk)) hrun
    cases hret : r.1.settles with
    | none =>
      refine hs.run_quiet hk hn hcareful (fun v ct et heq => ?_) rfl _ ?_
        (fun p hp => SettledWrites.settled_evicted hp) ?_ (hs.numbered.evicted _)
      · rw [hret] at heq
        cases heq
      · cases task.evicts s.cache.lru <;> rfl
      · cases task.evicts s.cache.lru <;> exact Nat.le_refl _
    | some w =>
      obtain ⟨j, v, ct, et⟩ := w
      by_cases hj : h = j
      · subst hj
        exact hs.run_returned hk hn hret rfl _
      · have hquiet : ∀ v' ct' et', r.1.settles ≠ some (h, v', ct', et') := by
          intro v' ct' et' heq
          rw [hret] at heq
          exact hj (Prod.mk.inj (Option.some.inj heq)).1.symm
        have hev := CacheTask.evicts_of_written (hn.written_of_settles hret).1 s.cache.lru
        refine hs.run_quiet hk hn hcareful hquiet rfl _ (SettledWrites.alone_returned_of_ne hj)
          (fun p hp => ?_) SettledWrites.serial_le_returned (hs.numbered.returned j v ct et)
        rcases SettledWrites.settled_returned hp with ⟨heq, -⟩ | hold
        · exact absurd heq hj
        · exact ⟨hold, by rw [hev]; exact nofun⟩

/-- **When no write is lost.**  Whatever the node and Redis hold at the start, in every run
of concurrent requests whose steps are all careful for `h`, a `get` of `h` that began after
a write of `h` had settled yields that write, as long as it has not been superseded,
evicted or expired. -/
theorem settled_write_served (cache : LayerScanCache) (redis : CacheRedis) (clock : Time)
    (h : String) (ls : List BusyLabel)
    (hcareful : Meets step (Careful h) (start cache redis clock) ls) :
    Visits step (ServesSettled h) (start cache redis clock) ls := by
  have hinv : Visits step (Inv h) (start cache redis clock) ls :=
    visits_of_meets (C := Careful h) (fun _ _ _ hs hc hstep => step_inv hs hc hstep)
      (inv_start cache redis clock h) hcareful
  exact hinv.mono fun _ hs => hs.servesSettled

/-- Only a clean-up, a re-hydration and an eviction can be careless. -/
theorem careful_of_plain {s' : BusyNode} {k : ℕ} {now : Time}
    (hplain : ∀ task expects, s.tasks[k]? = some (task, expects) →
      task ≠ .lruClean h ∧ (∀ stored t, task ≠ .rehydrate h stored t) ∧
        task.evicts s.cache.lru = none) : Careful h s (.run k now) s' := by
  intro task expects hk
  obtain ⟨hclean, hrehydrate, hev⟩ := hplain task expects hk
  refine ⟨fun heq => absurd heq hclean, fun stored t heq => absurd heq (hrehydrate stored t),
    fun heq => ?_⟩
  rw [hev] at heq
  cases heq

/-- A first `get` misses the LRU, and re-hydrates it with what a `put` has stored in the
meantime; a second `get` yields that too. -/
theorem settled_write_served_overlapping :
    ∃ s p answer admitted, exec step (start (.new 10 60 true) .empty 0)
        [.get "653bc09e", .run 0 0, .put "653bc09e" (.str "clean"), .run 1 0, .run 1 0, .run 1 0,
          .run 1 0, .get "653bc09e", .run 0 1, .run 0 1, .run 0 1, .run 2 1, .run 2 1] = some s ∧
      (.returned "653bc09e" answer admitted, some p) ∈ s.tasks ∧
      answer = .ok p.data ∧ p.data = .str "clean" := by
  have hcareful : Meets step (Careful "653bc09e") (start (.new 10 60 true) .empty 0)
      [.get "653bc09e", .run 0 0, .put "653bc09e" (.str "clean"), .run 1 0, .run 1 0, .run 1 0,
        .run 1 0, .get "653bc09e", .run 0 1, .run 0 1, .run 0 1, .run 2 1, .run 2 1] := by
    refine .cons_of_step rfl trivial ?_
    refine .cons_of_step rfl (careful_of_plain fun _ _ hk => ?_) ?_
    · cases hk
      exact ⟨nofun, nofun, rfl⟩
    refine .cons_of_step rfl trivial ?_
    refine .cons_of_step rfl (careful_of_plain fun _ _ hk => ?_) ?_
    · cases hk
      exact ⟨nofun, nofun, rfl⟩
    refine .cons_of_step rfl (careful_of_plain fun _ _ hk => ?_) ?_
    · cases hk
      exact ⟨nofun, nofun, rfl⟩
    refine .cons_of_step rfl (careful_of_plain fun _ _ hk => ?_) ?_
    · cases hk
      exact ⟨nofun, nofun, by with_unfolding_all rfl⟩
    refine .cons_of_step (by with_unfolding_all rfl) (careful_of_plain fun _ _ hk => ?_) ?_
    · cases hk
      exact ⟨nofun, nofun, rfl⟩
    refine .cons_of_step rfl trivial ?_
    refine .cons_of_step (by with_unfolding_all rfl) (careful_of_plain fun _ _ hk => ?_) ?_
    · cases hk
      exact ⟨nofun, nofun, rfl⟩
    refine .cons_of_step (by with_unfolding_all rfl) (careful_of_plain fun _ _ hk => ?_) ?_
    · cases hk
      exact ⟨nofun, nofun, rfl⟩
    refine .cons_of_step (by with_unfolding_all rfl) (fun _ _ hk => ?_) ?_
    · -- the re-hydration brings the payload that the LRU already holds
      cases hk
      refine ⟨nofun, fun stored t heq d ct et hitem => ?_, nofun⟩
      cases heq
      with_unfolding_all exact Or.inl (Option.some.inj hitem)
    refine .cons_of_step (by with_unfolding_all rfl) (careful_of_plain fun _ _ hk => ?_) ?_
    · cases hk
      exact ⟨nofun, nofun, rfl⟩
    refine .cons_of_step (by with_unfolding_all rfl) (careful_of_plain fun _ _ hk => ?_) meets_nil
    · cases hk
      exact ⟨nofun, nofun, rfl⟩
  have hrun : ∃ s p answer admitted, exec step (start (.new 10 60 true) .empty 0)
        [.get "653bc09e", .run 0 0, .put "653bc09e" (.str "clean"), .run 1 0, .run 1 0, .run 1 0,
          .run 1 0, .get "653bc09e", .run 0 1, .run 0 1, .run 0 1, .run 2 1, .run 2 1] = some s ∧
      (.returned "653bc09e" answer admitted, some p) ∈ s.tasks ∧
      s.writes.settled "653bc09e" = some p ∧ s.clock ≤ p.expiresAt ∧ p.data = .str "clean" := by
    refine ⟨_, ⟨0, .str "clean", 0, 60⟩, .ok (.str "clean"), some 1, by with_unfolding_all rfl,
      ?_, by with_unfolding_all rfl, by with_unfolding_all decide, rfl⟩
    with_unfolding_all exact .tail _ (.tail _ (.head _))
  obtain ⟨s, p, answer, admitted, hexec, hmem, hsettled, hle, hdata⟩ := hrun
  have hserved := settled_write_served (.new 10 60 true) .empty 0 "653bc09e" _ hcareful _
    (List.prefix_refl _) s hexec p answer admitted hmem hsettled hle
  exact ⟨s, p, answer, admitted, hexec, hmem, hserved, hdata⟩

set_option maxRecDepth 2000 in
/-- A clean-up that was decided before a `put` removes what the `put` has stored. -/
theorem rewritten_entry_cleaned_up :
    ∃ s, exec step (start (.new 10 10 true) .empty 0)
        [.put "653bc09e" (.str "old"), .run 0 0, .run 0 0, .run 0 0, .run 0 0,
          -- the item has expired
          .get "653bc09e", .run 1 20, .run 1 20,
          .put "653bc09e" (.str "new"), .run 2 20, .run 2 20, .run 2 20, .run 2 20,
          -- the clean-up, at both levels
          .run 1 20, .run 1 20,
          .get "653bc09e", .run 3 21, .run 3 21] = some s ∧
      ¬ s.ServesSettled "653bc09e" := by
  have hrun : ∃ s, exec step (start (.new 10 10 true) .empty 0)
        [.put "653bc09e" (.str "old"), .run 0 0, .run 0 0, .run 0 0, .run 0 0,
          .get "653bc09e", .run 1 20, .run 1 20,
          .put "653bc09e" (.str "new"), .run 2 20, .run 2 20, .run 2 20, .run 2 20,
          .run 1 20, .run 1 20,
          .get "653bc09e", .run 3 21, .run 3 21] = some s ∧
      (.returned "653bc09e" (.ok .null) none, some ⟨1, .str "new", 20, 30⟩) ∈ s.tasks ∧
      s.writes.settled "653bc09e" = some ⟨1, .str "new", 20, 30⟩ ∧ s.clock = 21 := by
    refine ⟨_, by with_unfolding_all rfl, ?_, by with_unfolding_all rfl,
      by with_unfolding_all rfl⟩
    with_unfolding_all exact .tail _ (.tail _ (.tail _ (.head _)))
  obtain ⟨s, hexec, hmem, hsettled, hclock⟩ := hrun
  refine ⟨s, hexec, fun hserves => ?_⟩
  have hanswer := hserves _ _ _ hmem hsettled (by rw [hclock]; decide)
  cases hanswer

end BusyNode
end Rcsce
