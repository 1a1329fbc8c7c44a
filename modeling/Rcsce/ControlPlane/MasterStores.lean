import Rcsce.ControlPlane.Persistence
import Rcsce.ControlPlane.StoreCalls

/-!
# The two stores and their file, call by call

`Masters` takes what a handler or a pass of the mirror does to a store as one step with one
save, and leaves the stamps out.  Here a step is one call of one process: it stamps what it
writes, and the whole store of the process that makes it goes to the file.

* `callAt` is a call at the time that the label gives.  It is the mutator of `Persistence`
  (`apply_eq_callAt`), and what the text that it leaves is read back as is `saved`
  (`load_saved`).
* `PrimaryStore` reads the file, clears the workers, and is up.  Its handlers, and those of the
  standby, call whatever the labels say, with any data and between any two calls of the other
  process.  While it serves `/status` it waits for the scheduler, and may do anything else.  A
  primary that hangs is one that takes no steps.
* `StandbyStore` has the two loops.  An answer is handled at one go: `mirroring` are the calls
  that `state_mirror_loop` has still to make, and until it has made them nothing else happens
  in this process.  A standby that has not been promoted has no listener, and serves
  `/containers/{id}/critical` only.

`Move` lists what a step can do, and `step_cases` says that it does nothing else.  The calls of a
handler (`handler_runs`) and of a pass (`pass_runs`) are runs of such steps.
-/

namespace Rcsce

namespace StateStore

/-- The call runs at the time `now`. -/
def callAt (now : String) (s : StateStore) : StoreCall → StateStore
  | .upsertContainer containerId data =>
      (s.upsertContainer containerId data).stampContainer containerId now
  | .markCritical containerId => s.markCritical containerId
  | .upsertWorker workerId data => (s.upsertWorker workerId data).stampWorker workerId now
  | .markWorkerDead workerId => (s.markWorkerDead workerId).stampWorker workerId now
  | .setQueueDepth depth => s.setQueueDepth depth
  | .recordCacheEvent hit => s.recordCacheEvent hit
  | .appendAudit event => s.appendAudit (event.set "logged_at" (.str now))

/-- What `save_to_disk` leaves in the file. -/
def saved (s : StateStore) : StateStore := { s with auditLog := lastEntries s.auditLog }

/-- The answer of `/status` with this queue depth. -/
def statusWith (s : StateStore) (depth : Json) : StatusAnswer :=
  ⟨s.containers.values, s.workers.values, depth⟩

theorem saved_of_length_le {s : StateStore} (h : s.auditLog.length ≤ 200) : s.saved = s := by
  have hlog : lastEntries s.auditLog = s.auditLog := Window.rtake_of_length_le h
  rw [saved, hlog]

theorem length_auditLog_saved (s : StateStore) : s.saved.auditLog.length ≤ 200 := by
  rw [saved, lastEntries, List.length_drop]
  omega

/-- A call keeps the log within its window. -/
theorem length_auditLog_callAt {s : StateStore} (h : s.auditLog.length ≤ 200) (now : String)
    (c : StoreCall) : (s.callAt now c).auditLog.length ≤ 200 := by
  cases c with
  | appendAudit event =>
    rw [callAt, auditLog_appendAudit]
    exact Window.length_rtake_le 200 _
  | recordCacheEvent hit => cases hit <;> exact h
  | _ => exact h

end StateStore

/-! ## A call is a mutator that saves -/

section Mutators

variable {num : NumberText}

/-- The call that the mutator is. -/
def StoreOp.call? : StoreOp num → Option StoreCall
  | .upsertContainer containerId data => some (.upsertContainer containerId data.record)
  | .markCritical containerId => some (.markCritical containerId)
  | .upsertWorker workerId data => some (.upsertWorker workerId data.record)
  | .markWorkerDead workerId => some (.markWorkerDead workerId)
  | .setQueueDepth depth => some (.setQueueDepth depth.value)
  | .recordCacheEvent hit => some (.recordCacheEvent hit)
  | .appendAudit event => some (.appendAudit event.record)
  | .removeContainer _ | .removeWorker _ | .clearAllWorkers => none

theorem StoreOp.apply_eq_callAt {op : StoreOp num} {c : StoreCall} (h : op.call? = some c)
    (now : String) (s : StateStore) : op.apply now s = s.callAt now c := by
  cases op <;> cases h <;> rfl

/-- The text that a call leaves in the file is read back as what it has saved. -/
theorem StateStore.Savable.load_saved {s : StateStore} (hs : s.Savable num) {call : Call num}
    {c : StoreCall} (h : call.op.call? = some c) (hcall : call.Ordered s) :
    StateStore.loadFromDisk num (some (call.text s)) = some (s.callAt call.now c).saved := by
  have hresult : call.result s = s.callAt call.now c := StoreOp.apply_eq_callAt h call.now s
  have hlog : (call.result s).auditLog.length ≤ 200 := (hs.apply call.now call.op).length_auditLog
  rw [load_text hs hcall, ← hresult, StateStore.saved_of_length_le hlog]

end Mutators

/-! ## The processes -/

/-- The primary and its store. -/
inductive PrimaryStore where
  | down
  /-- `StateStore()` has read the file, and `lifespan` has not cleared the workers yet. -/
  | loaded (store : StateStore)
  /-- With the queue depth that a request to `/status` has read before its await. -/
  | up (store : StateStore) (serving : Option Json)

namespace PrimaryStore

/-- The store of a primary that is not down. -/
def store? : PrimaryStore → Option StateStore
  | .down => none
  | .loaded store => some store
  | .up store _ => some store

/-- The request that it serves has been given up. -/
def givenUp : PrimaryStore → PrimaryStore
  | .up store _ => .up store none
  | p => p

@[simp] theorem store?_givenUp (p : PrimaryStore) : p.givenUp.store? = p.store? := by
  cases p <;> rfl

end PrimaryStore

/-- The standby, its store and its two loops. -/
structure StandbyStore where
  store : StateStore
  isPrimary : Bool
  failureCount : ℕ
  ping : PingStage
  mirror : MirrorStage
  /-- The calls that `state_mirror_loop` makes before its next await. -/
  mirroring : List StoreCall

namespace StandbyStore

/-- It has just started, and has loaded the file. -/
def new (disk : StateStore) : StandbyStore := ⟨disk, false, 0, .sleeping, .sleeping, []⟩

/-- The `except` branch of `health_check_loop`. -/
def pingFails (s : StandbyStore) : StandbyStore :=
  { s with
    isPrimary := s.isPrimary || decide (failureThreshold ≤ s.failureCount + 1)
    failureCount := s.failureCount + 1
    ping := .sleeping }

end StandbyStore

/-- The call is the one of POST `/containers/{id}/critical`. -/
def StoreCall.marks : StoreCall → Bool
  | .markCritical _ => true
  | _ => false

/-- Both processes and the file. -/
structure MasterStores where
  primary : PrimaryStore
  standby : StandbyStore
  /-- What `rcsce_state.json` is read back as. -/
  disk : StateStore

/-- What can happen next. -/
inductive StoresLabel where
  /-- A handler of the primary makes a call. -/
  | primary (c : StoreCall) (now : String)
  | primaryLoads
  | primaryClears
  /-- A crash or a shutdown. -/
  | primaryStops
  /-- A handler of the standby makes a call. -/
  | standby (c : StoreCall) (now : String)
  /-- The standby is started again. -/
  | standbyStarts
  /-- The health check sends a ping. -/
  | ping
  /-- The primary serves it. -/
  | health
  /-- The standby gets the answer. -/
  | pingAnswered
  /-- The standby gets an exception or another status. -/
  | pingFails
  /-- The mirror loop asks for `/status`. -/
  | mirror
  /-- The primary reads its queue depth and asks the scheduler. -/
  | statusReads
  /-- The primary answers, with the queue depth of the scheduler if that has answered. -/
  | status (depth : Option Json)
  | statusAnswered
  /-- The primary serves `/audit-log`. -/
  | auditLog
  | auditAnswered
  /-- The mirror loop makes its next call. -/
  | mirrorCalls (now : String)
  /-- The pass ends with an exception. -/
  | mirrorFails

/-- A step in which nobody calls a method of the store. -/
def StoresLabel.isWait : StoresLabel → Bool
  | .primary .. | .primaryLoads | .primaryClears | .primaryStops | .standby .. | .standbyStarts
  | .status (some _) | .mirrorCalls _ => false
  | _ => true

namespace MasterStores

/-- The primary goes on with this store, and saves it. -/
def primarySaves (s : MasterStores) (store : StateStore) (serving : Option Json) : MasterStores :=
  { s with primary := .up store serving, disk := store.saved }

/-- The standby goes on with this store, and saves it. -/
def standbySaves (s : MasterStores) (store : StateStore) (mirroring : List StoreCall) :
    MasterStores :=
  { s with standby := { s.standby with store, mirroring }, disk := store.saved }

/-- The mirror loop goes on. -/
def goesOn (s : MasterStores) (mirror : MirrorStage) (mirroring : List StoreCall) : MasterStores :=
  { s with standby := { s.standby with mirror, mirroring } }

/-- One step. -/
def step (s : MasterStores) : StoresLabel → Option MasterStores
  | .primary c now =>
      match s.primary with
      | .up store serving => some (s.primarySaves (store.callAt now c) serving)
      | _ => none
  | .primaryLoads =>
      match s.primary with
      | .down => some { s with primary := .loaded s.disk }
      | _ => none
  | .primaryClears =>
      match s.primary with
      | .loaded store => some (s.primarySaves store.clearAllWorkers none)
      | _ => none
  | .primaryStops => some { s with primary := .down }
  | .standby c now =>
      if s.standby.mirroring.isEmpty && (s.standby.isPrimary || c.marks) then
        some (s.standbySaves (s.standby.store.callAt now c) [])
      else none
  | .standbyStarts => some { s with standby := .new s.disk }
  | .ping =>
      match s.standby.mirroring, s.standby.ping with
      | [], .sleeping =>
          if s.standby.isPrimary then some s
          else some { s with standby := { s.standby with ping := .sent } }
      | _, _ => none
  | .health =>
      match s.primary, s.standby.ping with
      | .up _ _, .sent => some { s with standby := { s.standby with ping := .answered } }
      | _, _ => none
  | .pingAnswered =>
      match s.standby.mirroring, s.standby.ping with
      | [], .answered =>
          some { s with standby := { s.standby with failureCount := 0, ping := .sleeping } }
      | _, _ => none
  | .pingFails =>
      match s.standby.mirroring, s.standby.ping with
      | [], .sent | [], .answered => some { s with standby := s.standby.pingFails }
      | _, _ => none
  | .mirror =>
      match s.standby.mirroring, s.standby.mirror with
      | [], .sleeping =>
          if s.standby.isPrimary then some s
          else some { s.goesOn .statusSent [] with primary := s.primary.givenUp }
      | _, _ => none
  | .statusReads =>
      match s.primary, s.standby.mirror with
      | .up store _, .statusSent => some { s with primary := .up store (some store.queueDepth) }
      | _, _ => none
  | .status depth =>
      match s.primary, s.standby.mirroring, s.standby.mirror with
      | .up store (some read), [], .statusSent =>
          match depth with
          | some d =>
              let store' := store.setQueueDepth d
              some ((s.primarySaves store' none).goesOn
                (.statusAnswered (store'.statusWith d) store'.criticalHeld) [])
          | none =>
              some { s.goesOn (.statusAnswered (store.statusWith read) store.criticalHeld) [] with
                primary := .up store none }
      | _, _, _ => none
  | .statusAnswered =>
      match s.standby.mirroring, s.standby.mirror with
      | [], .statusAnswered answer _ => some (s.goesOn .auditSent answer.calls)
      | _, _ => none
  | .auditLog =>
      match s.primary, s.standby.mirroring, s.standby.mirror with
      | .up store _, [], .auditSent =>
          some (s.goesOn (.auditAnswered (StateStore.lastEntries store.auditLog)) [])
      | _, _, _ => none
  | .auditAnswered =>
      match s.standby.mirroring, s.standby.mirror with
      | [], .auditAnswered entries =>
          some (s.goesOn .sleeping ((s.standby.store.newEntries entries).map .appendAudit))
      | _, _ => none
  | .mirrorCalls now =>
      match s.standby.mirroring with
      | c :: calls => some (s.standbySaves (s.standby.store.callAt now c) calls)
      | [] => none
  | .mirrorFails =>
      match s.standby.mirror with
      | .sleeping => none
      | _ => some (s.goesOn .sleeping [])

/-- The standby has just started, from a file that a save has left; the primary is down. -/
def start (file : StateStore) : MasterStores := ⟨.down, .new file.saved, file.saved⟩

/-! ## What a step does -/

/-- The moves of the two processes. -/
inductive Move (s : MasterStores) : StoresLabel → MasterStores → Prop
  | primary (c : StoreCall) (now : String) (store : StateStore) (serving : Option Json)
      (hup : s.primary = .up store serving) :
      Move s (.primary c now) (s.primarySaves (store.callAt now c) serving)
  | loads (hdown : s.primary = .down) : Move s .primaryLoads { s with primary := .loaded s.disk }
  | clears (store : StateStore) (hloaded : s.primary = .loaded store) :
      Move s .primaryClears (s.primarySaves store.clearAllWorkers none)
  | stops : Move s .primaryStops { s with primary := .down }
  | standby (c : StoreCall) (now : String) :
      Move s (.standby c now) (s.standbySaves (s.standby.store.callAt now c) [])
  | standbyStarts : Move s .standbyStarts { s with standby := .new s.disk }
  /-- The primary serves `/status` with the depth of the scheduler. -/
  | polls (depth : Json) (store : StateStore) (serving : Option Json) (mirror : MirrorStage)
      (hup : s.primary = .up store serving) :
      Move s (.status (some depth))
        ((s.primarySaves (store.setQueueDepth depth) none).goesOn mirror [])
  | mirrors (now : String) (c : StoreCall) (calls : List StoreCall)
      (hcalls : s.standby.mirroring = c :: calls) :
      Move s (.mirrorCalls now) (s.standbySaves (s.standby.store.callAt now c) calls)
  /-- Requests and answers, and the loops of the standby; the stores stay as they are. -/
  | waits (l : StoresLabel) (hl : l.isWait = true) (primary : PrimaryStore)
      (hprimary : primary.store? = s.primary.store?) (standby : StandbyStore)
      (hstandby : standby.store = s.standby.store) : Move s l { s with primary, standby }

/-- Every step is one of the moves. -/
theorem step_cases {s s' : MasterStores} {l : StoresLabel} (h : s.step l = some s') :
    s.Move l s' := by
  cases l with
  | primary c now =>
    rw [step] at h
    split at h
    · rename_i store serving hup
      cases h
      exact .primary c now store serving hup
    · cases h
  | primaryLoads =>
    rw [step] at h
    split at h
    · rename_i hdown
      cases h
      exact .loads hdown
    · cases h
  | primaryClears =>
    rw [step] at h
    split at h
    · rename_i store hloaded
      cases h
      exact .clears store hloaded
    · cases h
  | primaryStops =>
    cases h
    exact .stops
  | standby c now =>
    rw [step] at h
    split_ifs at h
    cases h
    exact .standby c now
  | standbyStarts =>
    cases h
    exact .standbyStarts
  | ping =>
    rw [step] at h
    split at h
    · split_ifs at h <;> (cases h; exact .waits _ rfl _ rfl _ rfl)
    · cases h
  | health | pingAnswered | pingFails | statusAnswered | auditLog | auditAnswered
  | mirrorFails =>
    rw [step] at h
    split at h <;> first
      | (cases h; done)
      | (cases h; exact .waits _ rfl _ rfl _ rfl)
  | mirror =>
    rw [step] at h
    split at h
    · split_ifs at h
      · cases h
        exact .waits _ rfl _ rfl _ rfl
      · cases h
        exact .waits _ rfl _ s.primary.store?_givenUp _ rfl
    · cases h
  | statusReads =>
    rw [step] at h
    split at h
    · rename_i store serving hup _
      cases h
      exact .waits _ rfl _ (by rw [hup]; rfl) _ rfl
    · cases h
  | status depth =>
    rw [step] at h
    split at h
    · rename_i store read hup _ _
      cases depth with
      | some d =>
        cases h
        exact .polls d store (some read) _ hup
      | none =>
        cases h
        exact .waits _ rfl _ (by rw [hup]; rfl) _ rfl
    · cases h
  | mirrorCalls now =>
    rw [step] at h
    split at h
    · rename_i c calls hcalls
      cases h
      exact .mirrors now c calls hcalls
    · cases h

/-! ## Handlers and passes are runs -/

/-- A handler of the primary makes its calls one after the other.  Those of an event are
`MasterNode.calls`. -/
theorem handler_runs {s : MasterStores} {store : StateStore} {serving : Option Json}
    (hup : s.primary = .up store serving) (now : String) (calls : List StoreCall) :
    ∃ t, Machine.exec step s (calls.map fun c => .primary c now) = some t ∧
      t.primary = .up (calls.foldl (StateStore.callAt now) store) serving ∧
      t.standby = s.standby := by
  induction calls generalizing s store with
  | nil => exact ⟨s, rfl, hup, rfl⟩
  | cons c calls ih =>
    have hstep : s.step (.primary c now) = some (s.primarySaves (store.callAt now c) serving) := by
      rw [step, hup]
    obtain ⟨t, ht, hprimary, hstandby⟩ :=
      ih (s := s.primarySaves (store.callAt now c) serving) rfl
    refine ⟨t, ?_, hprimary, hstandby⟩
    rw [List.map_cons, Machine.exec_cons_of_step step hstep, ht]

/-- The mirror loop makes the calls that it has to make one after the other, and has then nothing
left to do with the answer.  Those of an answer of `/status` are `StatusAnswer.calls`. -/
theorem pass_runs {s : MasterStores} {calls : List StoreCall}
    (hcalls : s.standby.mirroring = calls) (now : String) :
    ∃ t, Machine.exec step s (List.replicate calls.length (.mirrorCalls now)) = some t ∧
      t.standby = { s.standby with
        store := calls.foldl (StateStore.callAt now) s.standby.store, mirroring := [] } ∧
      t.primary = s.primary := by
  induction calls generalizing s with
  | nil => exact ⟨s, rfl, by rw [List.foldl_nil, ← hcalls], rfl⟩
  | cons c calls ih =>
    have hstep : s.step (.mirrorCalls now) =
        some (s.standbySaves (s.standby.store.callAt now c) calls) := by
      rw [step, hcalls]
    obtain ⟨t, ht, hstandby, hprimary⟩ :=
      ih (s := s.standbySaves (s.standby.store.callAt now c) calls) rfl
    refine ⟨t, ?_, hstandby, hprimary⟩
    rw [List.length_cons, List.replicate_succ, Machine.exec_cons_of_step step hstep, ht]

end MasterStores
end Rcsce
