import Rcsce.Scheduler.Job
import Rcsce.ControlPlane.RecordedStatus

/-!
# The start branch and its two remote services

The start branch of `_handle_event` asks the cache node and, when it has no result, pushes
a job to the scheduler.  Either may be unreachable, answer with an error, or answer with a
body of any shape.  `readCache` and `pushJob` are what the code makes of the bodies,
`startBranch` the whole branch, and `startWrites` what it writes once the answers are in.

A request that raises is mapped to a miss, and a push that raises to the id `ipc-failed`; a
body without an id becomes the id `unknown`.  The audit entry is written all the same, and a
body of the cache node that is no object, or a result that is none, ends in the outer handler
with nothing written.

`Truthful` is what the record and the audit log are to say, and `start_branch_truthful_iff`
says for which answers they do.
-/

namespace Rcsce

/-- What the scheduler does with a push. -/
structure PushCall where
  /-- The id of the job that `enqueue_job` has put in the queue. -/
  accepted : Option Uuid
  /-- The body that arrives in time, when there is one and it is JSON. -/
  reply : Option Json

/-- What the branch meets while it runs. -/
structure StartCalls where
  /-- The body of the cache node's answer, when there is one and it is JSON. -/
  cacheReply : Option Json
  push : PushCall
  /-- What other tasks do to the store while the branch waits for the cache node. -/
  duringLookup : StateStore → StateStore
  /-- The same for the scheduler. -/
  duringPush : StateStore → StateStore

/-- What a branch writes once the answers are in: fields of the container's record, and
entries of the audit log. -/
structure StartWrites where
  fields : List (String × Json)
  entries : List Record

/-! ## What the code makes of the answers -/

/-- The members of `scan_result or {}`; what is no dictionary has no `get`. -/
def resultMembers (scanResult : Json) : Except PyError (List (String × Json)) :=
  match (if scanResult.truthy then scanResult else .obj []) with
  | .obj members => .ok members
  | _ => .error .attributeError

/-- The members of the result, if the answer is a hit. -/
def readCache (cacheReply : Option Json) : Except PyError (Option (List (String × Json))) := do
  let cacheResponse := cacheReply.getD (.obj [("hit", .bool false)])
  let hit ← cacheResponse.getD "hit" .null
  if hit.truthy then
    let scanResult ← cacheResponse.getD "scan_result" .null
    let members ← resultMembers scanResult
    .ok (some members)
  else .ok none

/-- `job_id[:8]` does not raise. -/
def sliceable : Json → Bool
  | .str _ | .arr _ => true
  | _ => false

/-- `_push_job_to_scheduler`. -/
def pushJob (reply : Option Json) : Json :=
  match reply.bind fun data => (data.getD "job_id" (.str "unknown")).toOption with
  | some jobId => if sliceable jobId then jobId else .str "ipc-failed"
  | none => .str "ipc-failed"

/-- The job that `enqueue_job` makes of the push. -/
def PushCall.job (call : PushCall) (e : DockerEvent) (layerHash : String) : Option Job :=
  call.accepted.map fun jobId => Job.new jobId e.containerId layerHash e.imageName

namespace DockerEvent

/-- The entry of a cache hit. -/
def hitEntry (e : DockerEvent) (layerHash : String) (scanResult : List (String × Json)) : Record :=
  e.payload.update (.ofFields [("action", .str "cache_hit"), ("layer_hash", .str layerHash),
    ("cached_result", .obj scanResult)])

/-- The entry of a push. -/
def enqueuedEntry (e : DockerEvent) (layerHash : String) (jobId : Json) : Record :=
  e.payload.update (.ofFields [("action", .str "scan_enqueued"), ("job_id", jobId),
    ("layer_hash", .str layerHash)])

end DockerEvent

namespace StateStore

/-- The start branch. -/
def startBranch (s : StateStore) (e : DockerEvent) (layerHash : String) (calls : StartCalls) :
    StateStore :=
  let resumed := calls.duringLookup (s.onStart e)
  match readCache calls.cacheReply with
  | .ok (some scanResult) => resumed.onCacheHit e layerHash scanResult
  | .ok none => (calls.duringPush resumed.onCacheMiss).appendAudit
      (e.enqueuedEntry layerHash (pushJob calls.push.reply))
  -- the outer handler logs a warning
  | .error _ => resumed

/-- With an id that is a string, the entry is that of `onEnqueued`. -/
theorem onEnqueued_eq (s : StateStore) (e : DockerEvent) (layerHash jobId : String) :
    s.onEnqueued e layerHash jobId = s.appendAudit (e.enqueuedEntry layerHash (.str jobId)) := by
  rw [onEnqueued, DockerEvent.enqueuedEntry]

end StateStore

/-- What the branch writes once the answers are in. -/
def startWrites (e : DockerEvent) (layerHash : String) (calls : StartCalls) : StartWrites :=
  match readCache calls.cacheReply with
  | .ok (some scanResult) =>
      ⟨[("vulnerabilities", StateStore.cachedVulns scanResult), ("scan_status", .str "cache_hit")],
        [e.hitEntry layerHash scanResult]⟩
  | .ok none => ⟨[], [e.enqueuedEntry layerHash (pushJob calls.push.reply)]⟩
  | .error _ => ⟨[], []⟩

/-- The entry says that a job was enqueued which the scheduler has accepted for this
container and layer. -/
def EnqueuedTruly (e : DockerEvent) (layerHash : String) (call : PushCall) (entry : Record) :
    Prop :=
  ∃ job, call.job e layerHash = some job ∧ job.containerId = e.containerId ∧
    job.imageId = layerHash ∧ entry.get? "job_id" = some (.str (toString job.jobId))

/-- What the record and the audit log say when the branch has finished is true, and they say
what has become of the scan.  Any status and any action but the two that the branch knows are
taken to say that the scan could not be scheduled. -/
structure Truthful (s : StateStore) (e : DockerEvent) (layerHash : String) (call : PushCall)
    (writes : StartWrites) : Prop where
  reported :
    (s.containerField e.containerId "scan_status" = some (.str "cache_hit") ∧
        ∃ entry ∈ writes.entries, entry ∈ s.auditLog ∧
          entry.get? "action" = some (.str "cache_hit")) ∨
      (∃ entry ∈ writes.entries, entry ∈ s.auditLog ∧
        entry.get? "action" = some (.str "scan_enqueued") ∧
          EnqueuedTruly e layerHash call entry) ∨
      (∃ entry ∈ writes.entries, entry ∈ s.auditLog ∧
        entry.get? "action" ≠ some (.str "cache_hit") ∧
          entry.get? "action" ≠ some (.str "scan_enqueued")) ∨
      ∃ status, ("scan_status", status) ∈ writes.fields ∧ status ≠ .str "cache_hit"
  enqueued : ∀ entry ∈ writes.entries, entry.get? "action" = some (.str "scan_enqueued") →
    EnqueuedTruly e layerHash call entry

/-! ## Which answers the code can use -/

/-- A hit with a result that is an object, or counts as false. -/
def UsableHit (cacheReply : Option Json) : Prop :=
  ∃ members hit, cacheReply = some (.obj members) ∧ members.lookup "hit" = some hit ∧
    hit.truthy = true ∧
      ∀ scanResult, members.lookup "scan_result" = some scanResult → scanResult.truthy = true →
        ∃ fields, scanResult = .obj fields

/-- No answer, or an object that reports no hit. -/
def Miss (cacheReply : Option Json) : Prop :=
  cacheReply = none ∨ ∃ members, cacheReply = some (.obj members) ∧
    ∀ hit, members.lookup "hit" = some hit → hit.truthy = false

/-- The scheduler has accepted the job, and the body that arrives has its id. -/
def PushCall.Answered (call : PushCall) : Prop :=
  ∃ jobId members, call.accepted = some jobId ∧ call.reply = some (.obj members) ∧
    members.lookup "job_id" = some (.str (toString jobId))

theorem resultMembers_ok_iff {scanResult : Json} :
    (∃ members, resultMembers scanResult = .ok members) ↔
      (scanResult.truthy = true → ∃ members, scanResult = .obj members) := by
  rw [resultMembers]
  by_cases h : scanResult.truthy = true
  · cases scanResult <;> simp [h]
  · simp [h]

theorem readCache_obj (members : List (String × Json)) :
    readCache (some (.obj members)) =
      if ((members.lookup "hit").getD .null).truthy then
        (resultMembers ((members.lookup "scan_result").getD .null)).map some
      else .ok none := by
  rw [readCache, Option.getD_some, Json.getD, Json.getD]
  by_cases hhit : ((members.lookup "hit").getD .null).truthy = true
  · rw [if_pos hhit]
    simp only [bind, Except.bind, hhit, if_true]
    cases resultMembers ((members.lookup "scan_result").getD .null) <;> rfl
  · rw [if_neg hhit]
    simp only [bind, Except.bind, hhit]
    rfl

/-- An answer that is no object raises. -/
theorem readCache_of_not_obj {response : Json} (h : ∀ members, response ≠ .obj members) :
    readCache (some response) = .error .attributeError := by
  cases response with
  | obj members => exact absurd rfl (h members)
  | null | bool | num | nonFinite | str | arr => rfl

/-- What is missing counts as false. -/
theorem truthy_getD {value : Option Json} :
    (value.getD .null).truthy = true ↔ ∃ v, value = some v ∧ v.truthy = true := by
  cases value with
  | none => exact iff_of_false nofun fun ⟨_, h, _⟩ => nomatch h
  | some v => simp

theorem exists_map_some_iff {α ε : Type} {x : Except ε α} :
    (∃ a, x.map some = .ok (some a)) ↔ ∃ a, x = .ok a := by
  cases x <;> simp [Except.map]

theorem map_some_ne_none {α ε : Type} {x : Except ε α} : x.map some ≠ .ok none := by
  cases x <;> simp [Except.map]

/-- The cache node's answer gives a result exactly when it is a usable hit. -/
theorem readCache_eq_some_iff {cacheReply : Option Json} :
    (∃ scanResult, readCache cacheReply = .ok (some scanResult)) ↔ UsableHit cacheReply := by
  cases cacheReply with
  | none => exact iff_of_false (fun ⟨_, h⟩ => nomatch h) fun ⟨_, _, h, _⟩ => nomatch h
  | some response =>
    by_cases hobj : ∃ members, response = .obj members
    · obtain ⟨members, rfl⟩ := hobj
      rw [readCache_obj]
      split_ifs with hhit
      · obtain ⟨hit, hlookup, htruthy⟩ := truthy_getD.mp hhit
        rw [exists_map_some_iff, resultMembers_ok_iff]
        constructor
        · intro h
          refine ⟨members, hit, rfl, hlookup, htruthy, fun scanResult hresult hscan => ?_⟩
          rw [hresult, Option.getD_some] at h
          exact h hscan
        · rintro ⟨members', -, heq, -, -, h⟩ hscan
          obtain rfl := Json.obj.inj (Option.some.inj heq)
          obtain ⟨scanResult, hresult, hscan⟩ := truthy_getD.mp hscan
          rw [hresult, Option.getD_some]
          exact h scanResult hresult hscan
      · refine iff_of_false (fun ⟨_, h⟩ => nomatch h) ?_
        rintro ⟨members', hit, heq, hlookup, htruthy, -⟩
        obtain rfl := Json.obj.inj (Option.some.inj heq)
        exact hhit (truthy_getD.mpr ⟨hit, hlookup, htruthy⟩)
    · rw [readCache_of_not_obj fun members h => hobj ⟨members, h⟩]
      refine iff_of_false (fun ⟨_, h⟩ => nomatch h) ?_
      rintro ⟨members, -, heq, -⟩
      exact hobj ⟨members, Option.some.inj heq⟩

/-- It sends the branch to the scheduler exactly when it is a miss. -/
theorem readCache_eq_none_iff {cacheReply : Option Json} :
    readCache cacheReply = .ok none ↔ Miss cacheReply := by
  cases cacheReply with
  | none => exact iff_of_true rfl (Or.inl rfl)
  | some response =>
    by_cases hobj : ∃ members, response = .obj members
    · obtain ⟨members, rfl⟩ := hobj
      rw [readCache_obj]
      split_ifs with hhit
      · obtain ⟨hit, hlookup, htruthy⟩ := truthy_getD.mp hhit
        refine iff_of_false map_some_ne_none ?_
        · rintro (h | ⟨members', heq, h⟩)
          · exact nomatch h
          · obtain rfl := Json.obj.inj (Option.some.inj heq)
            rw [h hit hlookup] at htruthy
            exact nomatch htruthy
      · refine iff_of_true rfl (Or.inr ⟨members, rfl, fun hit hlookup => ?_⟩)
        by_contra htruthy
        exact hhit (truthy_getD.mpr ⟨hit, hlookup, Bool.eq_true_of_not_eq_false htruthy⟩)
    · rw [readCache_of_not_obj fun members h => hobj ⟨members, h⟩]
      refine iff_of_false (fun h => nomatch h) ?_
      rintro (h | ⟨members, heq, -⟩)
      · exact nomatch h
      · exact hobj ⟨members, Option.some.inj heq⟩

/-- A text with a character that is no digit is not the text of a number. -/
theorem toString_ne_of_mem {text : String} {c : Char} (hc : c ∈ text.toList)
    (hdigit : c.isDigit = false) (n : ℕ) : toString n ≠ text := by
  rintro rfl
  have hmem : c ∈ Nat.toDigits 10 n := Nat.toList_repr ▸ hc
  have h := Nat.isDigit_of_mem_toDigits (by decide) (by decide) hmem
  rw [hdigit] at h
  exact nomatch h

/-- The id that the push returns is that of a job exactly when the body has it. -/
theorem pushJob_eq_iff {reply : Option Json} {jobId : Uuid} :
    pushJob reply = .str (toString jobId) ↔
      ∃ members, reply = some (.obj members) ∧
        members.lookup "job_id" = some (.str (toString jobId)) := by
  have hfailed : Json.str "ipc-failed" ≠ .str (toString jobId) := fun h =>
    toString_ne_of_mem (c := 'i') (by decide) (by decide) jobId (Json.str.inj h).symm
  have hunknown : Json.str "unknown" ≠ .str (toString jobId) := fun h =>
    toString_ne_of_mem (c := 'u') (by decide) (by decide) jobId (Json.str.inj h).symm
  cases reply with
  | none => exact iff_of_false hfailed fun ⟨_, h, _⟩ => nomatch h
  | some data =>
    cases data with
    | obj members =>
      rw [pushJob, Option.bind_some, Json.getD, Except.toOption]
      cases hid : members.lookup "job_id" with
      | none =>
        refine iff_of_false hunknown ?_
        rintro ⟨members', heq, hlookup⟩
        obtain rfl := Json.obj.inj (Option.some.inj heq)
        exact nomatch hid.symm.trans hlookup
      | some value =>
        have hvalue : (if sliceable value then value else .str "ipc-failed") =
            .str (toString jobId) ↔ value = .str (toString jobId) := by
          split_ifs with hslice
          · rfl
          · refine iff_of_false hfailed ?_
            rintro rfl
            exact hslice rfl
        refine hvalue.trans ⟨fun h => ⟨members, rfl, by rw [hid, h]⟩, ?_⟩
        rintro ⟨members', heq, hlookup⟩
        obtain rfl := Json.obj.inj (Option.some.inj heq)
        exact Option.some.inj (hid.symm.trans hlookup)
    | null | bool | num | nonFinite | str | arr =>
      refine iff_of_false hfailed ?_
      rintro ⟨members, h, -⟩
      exact nomatch Option.some.inj h

/-! ## What the branch leaves -/

namespace DockerEvent

variable (e : DockerEvent) (layerHash : String)

@[simp] theorem action_hitEntry (scanResult : List (String × Json)) :
    (e.hitEntry layerHash scanResult).get? "action" = some (.str "cache_hit") := by
  rw [hitEntry, Record.get?_update,
    Record.get?_ofFields_of_mem (v := .str "cache_hit") (by simp) (by simp), Option.some_or]

@[simp] theorem action_enqueuedEntry (jobId : Json) :
    (e.enqueuedEntry layerHash jobId).get? "action" = some (.str "scan_enqueued") := by
  rw [enqueuedEntry, Record.get?_update,
    Record.get?_ofFields_of_mem (v := .str "scan_enqueued") (by simp) (by simp), Option.some_or]

@[simp] theorem jobId_enqueuedEntry (jobId : Json) :
    (e.enqueuedEntry layerHash jobId).get? "job_id" = some jobId := by
  rw [enqueuedEntry, Record.get?_update,
    Record.get?_ofFields_of_mem (v := jobId) (by simp) (by simp), Option.some_or]

end DockerEvent

/-- The last entry is in the window. -/
theorem StateStore.mem_auditLog_appendAudit (s : StateStore) (event : Record) :
    event ∈ (s.appendAudit event).auditLog := by
  rw [auditLog_appendAudit, List.rtake_concat_succ]
  exact List.mem_append_right _ List.mem_cons_self

section

variable {s : StateStore} {e : DockerEvent} {layerHash : String} {calls : StartCalls}

/-- The branch merges its fields into the record and appends its entries to the log, as it
finds them when it goes on. -/
theorem startBranch_writes : ∃ resumed : StateStore,
    (∀ key, (s.startBranch e layerHash calls).containerField e.containerId key =
      ((Record.ofFields (startWrites e layerHash calls).fields).get? key).or
        (resumed.containerField e.containerId key)) ∧
      (s.startBranch e layerHash calls).auditLog =
        ((startWrites e layerHash calls).entries.foldl StateStore.appendAudit resumed).auditLog := by
  rw [StateStore.startBranch, startWrites]
  cases readCache calls.cacheReply with
  | error err => exact ⟨calls.duringLookup (s.onStart e), fun _ => rfl, rfl⟩
  | ok hit =>
    cases hit with
    | none =>
      refine ⟨calls.duringPush (calls.duringLookup (s.onStart e)).onCacheMiss, fun key => ?_, rfl⟩
      exact StateStore.containerField_appendAudit _ _ _ _
    | some scanResult =>
      refine ⟨calls.duringLookup (s.onStart e), fun key => ?_, ?_⟩
      · dsimp only
        rw [StateStore.onCacheHit, StateStore.containerField_appendAudit,
          StateStore.containerField_upsertContainer, if_pos rfl,
          StateStore.containerField_recordCacheEvent]
      · dsimp only
        rw [StateStore.onCacheHit, List.foldl_cons, List.foldl_nil,
          StateStore.auditLog_appendAudit, StateStore.auditLog_appendAudit]
        rfl

/-- The entry of a push is true exactly when the scheduler has answered with the job. -/
theorem enqueuedTruly_iff {call : PushCall} :
    EnqueuedTruly e layerHash call (e.enqueuedEntry layerHash (pushJob call.reply)) ↔
      call.Answered := by
  rw [EnqueuedTruly, DockerEvent.jobId_enqueuedEntry]
  constructor
  · rintro ⟨job, hjob, -, -, hid⟩
    obtain ⟨jobId, haccepted, rfl⟩ := Option.map_eq_some_iff.mp hjob
    obtain ⟨members, hreply, hlookup⟩ := pushJob_eq_iff.mp (Option.some.inj hid)
    exact ⟨jobId, members, haccepted, hreply, hlookup⟩
  · rintro ⟨jobId, members, haccepted, hreply, hlookup⟩
    refine ⟨_, Option.map_eq_some_iff.mpr ⟨jobId, haccepted, rfl⟩, rfl, rfl, ?_⟩
    exact congrArg some (pushJob_eq_iff.mpr ⟨members, hreply, hlookup⟩)

end

/-- **The record and the audit log tell the truth about the scan of a started container
exactly when the cache node answers with a usable hit, or there is no hit and the scheduler
accepts the job and answers with its id.** -/
theorem start_branch_truthful_iff (s : StateStore) (e : DockerEvent) (layerHash : String)
    (calls : StartCalls) :
    Truthful (s.startBranch e layerHash calls) e layerHash calls.push
        (startWrites e layerHash calls) ↔
      UsableHit calls.cacheReply ∨ (Miss calls.cacheReply ∧ calls.push.Answered) := by
  rw [← readCache_eq_some_iff, ← readCache_eq_none_iff, StateStore.startBranch, startWrites]
  cases readCache calls.cacheReply with
  | error err =>
    refine iff_of_false (fun h => ?_) ?_
    · obtain ⟨-, entry, hmem, -⟩ | ⟨entry, hmem, -⟩ | ⟨entry, hmem, -⟩ | ⟨status, hmem, -⟩ :=
        h.reported
      all_goals exact absurd hmem List.not_mem_nil
    · rintro (⟨_, h⟩ | ⟨h, -⟩)
      · exact nomatch h
      · exact nomatch h
  | ok hit =>
    cases hit with
    | none =>
      constructor
      · intro h
        have htrue := h.enqueued _ List.mem_cons_self (DockerEvent.action_enqueuedEntry _ _ _)
        exact Or.inr ⟨rfl, enqueuedTruly_iff.mp htrue⟩
      · rintro (⟨_, h⟩ | ⟨-, hanswered⟩)
        · exact nomatch h
        · have htrue : EnqueuedTruly e layerHash calls.push _ := enqueuedTruly_iff.mpr hanswered
          refine ⟨Or.inr (Or.inl ⟨_, List.mem_cons_self, ?_, ?_, htrue⟩), fun entry hmem _ => ?_⟩
          · exact StateStore.mem_auditLog_appendAudit _ _
          · exact DockerEvent.action_enqueuedEntry _ _ _
          · rwa [List.mem_singleton.mp hmem]
    | some scanResult =>
      refine iff_of_true ⟨Or.inl ⟨?_, _, List.mem_cons_self, ?_, ?_⟩, fun entry hmem haction => ?_⟩
        (Or.inl ⟨scanResult, rfl⟩)
      · dsimp only
        rw [StateStore.onCacheHit, StateStore.containerField_appendAudit,
          StateStore.containerField_upsertContainer_of_mem _ _ _ _ (by simp) (by simp; rfl),
          if_pos rfl]
      · dsimp only
        rw [StateStore.onCacheHit]
        exact StateStore.mem_auditLog_appendAudit _ _
      · exact DockerEvent.action_hitEntry _ _ _
      · rw [List.mem_singleton.mp hmem, DockerEvent.action_hitEntry] at haction
        exact absurd haction (by simp)

/-- A container that starts when neither service can be reached. -/
def nobodyAnswers : StartCalls := ⟨none, ⟨none, none⟩, id, id⟩

/-- The log says that a job was enqueued. -/
theorem unreachable_scheduler_enqueued :
    ¬ Truthful (StateStore.empty.startBranch (Watched.webEvent .start 0) "5eed" nobodyAnswers)
      (Watched.webEvent .start 0) "5eed" nobodyAnswers.push
      (startWrites (Watched.webEvent .start 0) "5eed" nobodyAnswers) := by
  intro h
  obtain ⟨job, hjob, -⟩ := h.enqueued
    ((Watched.webEvent .start 0).enqueuedEntry "5eed" (.str "ipc-failed")) List.mem_cons_self
    (DockerEvent.action_enqueuedEntry _ _ _)
  exact nomatch hjob

end Rcsce
