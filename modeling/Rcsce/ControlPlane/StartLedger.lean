import Rcsce.ControlPlane.StoreCalls

/-!
# The books of the start branch

A container that starts is looked up in the cache.  A hit is counted and logged at once.  A miss
is counted, its job is pushed, and it is logged when the push returns.  Any number of start
branches wait for the cache node or for the scheduler at a time, and go on in any order, among
everything else that happens in the process; and the process may end and start again, which cuts
off those that wait.

`books_balance` is what the counters of the Cache Performance panel and the audit log say then.
Every start is in exactly one place.  The hits are as many as the `cache_hit` entries, the misses
as many as the `scan_enqueued` entries and the pushes that have not returned, or never will, and
the audit log is the window of 200 over all the entries, across restarts.

`cacheReplied` and `pushReplied` take a body of any shape.  A body of the cache node that the
code cannot read ends the branch in the outer handler, neither counted nor logged.
-/

namespace Rcsce

/-- A process, and what has become of the starts that it has handled. -/
structure StartLedger where
  node : MasterNode
  /-- The starts that have been handled. -/
  started : List DockerEvent
  hits : List DockerEvent
  /-- Those whose push has returned. -/
  enqueued : List DockerEvent
  /-- Those that have ended in the outer handler. -/
  unread : List DockerEvent
  /-- Those that waited for the cache node when the process ended. -/
  lostLookups : List DockerEvent
  /-- Those that waited for the scheduler then. -/
  lostPushes : List DockerEvent
  /-- Every entry that was ever appended to the audit log. -/
  entries : List Record

/-- What can happen next. -/
inductive StartLedgerLabel where
  | docker (e : DockerEvent)
  /-- A start branch gets the answer of the cache node, or none. -/
  | cacheReplied (k : ℕ) (reply : Option Json)
  /-- A start branch gets the answer of the scheduler, or none. -/
  | pushReplied (k : ℕ) (reply : Option Json)
  | anomaly (a : Anomaly)
  /-- A failover ends, or a request comes in. -/
  | other (e : PrimaryEvent)
  /-- The process ends, and a new one starts. -/
  | restart (listenerClient engineClient : Bool)

/-- The event is the end of a failover or a request. -/
def PrimaryEvent.outsideStart : PrimaryEvent → Bool
  | .own (.docker _) | .own (.cacheAnswered _ _) | .own (.pushed _ _) | .own (.anomaly _) => false
  | _ => true

/-- The entries that a call appends to the audit log. -/
def StoreCall.appended : StoreCall → List Record
  | .appendAudit event => [event]
  | _ => []

/-- The call counts a lookup. -/
def StoreCall.counts : StoreCall → Bool
  | .recordCacheEvent _ => true
  | _ => false

/-- `entry.get("action")`. -/
def auditAction? (entry : Record) : Option String := (entry.get? "action").bind Json.str?

/-- The ids of the events that were logged with an action. -/
def loggedAs (action : String) (entries : List Record) : List String :=
  (entries.filter fun entry => auditAction? entry = some action).filterMap StateStore.eventId?

/-! ## Calls and the books -/

namespace StateStore

/-- The log after some calls. -/
theorem auditLog_perform {s : StateStore} {log : List Record} (h : s.auditLog = log.rtake 200)
    (calls : List StoreCall) :
    (s.perform calls).auditLog = (log ++ calls.flatMap StoreCall.appended).rtake 200 := by
  induction calls generalizing s log with
  | nil => rw [List.flatMap_nil, List.append_nil, ← h, perform, List.foldl_nil]
  | cons c calls ih =>
    have hkept : ∀ {c : StoreCall}, c.appended = [] → (s.call c).auditLog = s.auditLog →
        (s.call c).auditLog = (log ++ c.appended).rtake 200 := by
      intro c happended hlog
      rw [happended, List.append_nil, hlog, h]
    have hcall : (s.call c).auditLog = (log ++ c.appended).rtake 200 := by
      cases c with
      | appendAudit event =>
        rw [call, auditLog_appendAudit, h, Window.rtake_rtake_append, StoreCall.appended]
      | recordCacheEvent hit => cases hit <;> exact hkept rfl rfl
      | _ => exact hkept rfl rfl
    rw [List.flatMap_cons, ← List.append_assoc, ← ih hcall, perform, perform, List.foldl_cons]

/-- Calls that count nothing leave the counters alone. -/
theorem counters_perform (s : StateStore) (calls : List StoreCall)
    (h : ∀ c ∈ calls, c.counts = false) :
    (s.perform calls).cacheHits = s.cacheHits ∧ (s.perform calls).cacheMisses = s.cacheMisses := by
  induction calls generalizing s with
  | nil => exact ⟨rfl, rfl⟩
  | cons c calls ih =>
    have hcall : (s.call c).cacheHits = s.cacheHits ∧ (s.call c).cacheMisses = s.cacheMisses := by
      cases c with
      | recordCacheEvent hit => cases h _ List.mem_cons_self
      | appendAudit event =>
        rw [call, appendAudit]
        exact ⟨rfl, rfl⟩
      | _ => exact ⟨rfl, rfl⟩
    obtain ⟨hhits, hmisses⟩ := ih (s.call c) fun c' hc' => h c' (List.mem_cons_of_mem _ hc')
    exact ⟨hhits.trans hcall.1, hmisses.trans hcall.2⟩

end StateStore

theorem loggedAs_append (action : String) (entries new : List Record) :
    loggedAs action (entries ++ new) = loggedAs action entries ++ loggedAs action new := by
  rw [loggedAs, List.filter_append, List.filterMap_append, loggedAs, loggedAs]

/-- Entries with another action, or none. -/
theorem loggedAs_of_ne {action : String} {new : List Record}
    (h : ∀ entry ∈ new, auditAction? entry ≠ some action) : loggedAs action new = [] := by
  have hnone : (new.filter fun entry => auditAction? entry = some action) = [] := by
    rw [List.filter_eq_nil_iff]
    intro entry hentry
    rw [decide_eq_true_iff]
    exact h entry hentry
  rw [loggedAs, hnone, List.filterMap_nil]

/-- An entry of an event with an action. -/
theorem action_and_id_payload (e : DockerEvent) (action : String) (rest : List (String × Json))
    (haction : "action" ∉ rest.map Prod.fst) (hid : "event_id" ∉ rest.map Prod.fst)
    (hnodup : (rest.map Prod.fst).Nodup) :
    auditAction? (e.payload.update (.ofFields (("action", .str action) :: rest))) = some action ∧
      StateStore.eventId? (e.payload.update (.ofFields (("action", .str action) :: rest))) =
        some e.idText := by
  have hkeys : ((("action", Json.str action) :: rest).map Prod.fst).Nodup :=
    List.nodup_cons.mpr ⟨haction, hnodup⟩
  constructor
  · rw [auditAction?, Record.get?_update, Record.get?_ofFields_of_mem hkeys List.mem_cons_self,
      Option.some_or]
    rfl
  · refine eventId?_payload_update e ?_
    rw [List.map_cons, List.mem_cons, not_or]
    exact ⟨by simp, hid⟩

theorem loggedAs_singleton {action : String} {entry : Record} {i : String}
    (haction : auditAction? entry = some action) (hid : StateStore.eventId? entry = some i) :
    loggedAs action [entry] = [i] := by
  rw [loggedAs, List.filter_cons_of_pos (by simpa using haction), List.filter_nil,
    List.filterMap_cons_some hid, List.filterMap_nil]

theorem auditAction?_ofFields_of_notMem {fields : List (String × Json)}
    (h : "action" ∉ fields.map Prod.fst) : auditAction? (.ofFields fields) = none := by
  rw [auditAction?, Record.get?_ofFields_of_notMem h]
  rfl

/-- The end of a failover and a request count no lookup, and log no action. -/
theorem MasterNode.calls_outsideStart {sha256Text : String → String} (m : MasterNode)
    {e : PrimaryEvent} (he : e.outsideStart = true) {c : StoreCall}
    (hc : c ∈ m.calls sha256Text e) :
    c.counts = false ∧ ∀ entry ∈ c.appended, auditAction? entry = none := by
  have hquiet : ∀ {c : StoreCall}, c.counts = false → c.appended = [] →
      c.counts = false ∧ ∀ entry ∈ c.appended, auditAction? entry = none := by
    intro c hcounts happended
    rw [happended]
    exact ⟨hcounts, nofun⟩
  cases e with
  | own e =>
    cases e with
    | failedOver k replica recovered =>
      rw [calls] at hc
      cases hf : m.failovers[k]? with
      | none =>
        rw [hf] at hc
        cases hc
      | some f =>
        rw [hf, Option.map_some, Option.getD_some, Failover.calls, List.mem_cons, List.mem_pair]
          at hc
        rcases hc with rfl | rfl | rfl
        · refine ⟨rfl, fun entry hentry => ?_⟩
          rw [List.mem_singleton.mp hentry]
          exact auditAction?_ofFields_of_notMem (by simp)
        · exact hquiet rfl rfl
        · exact hquiet rfl rfl
    | failoverRaised k error =>
      rw [calls] at hc
      cases hf : m.failovers[k]? with
      | none =>
        rw [hf] at hc
        cases hc
      | some f =>
        rw [hf, Option.map_some, Option.getD_some, Failover.errorCalls, List.mem_singleton] at hc
        subst hc
        refine ⟨rfl, fun entry hentry => ?_⟩
        rw [List.mem_singleton.mp hentry]
        exact auditAction?_ofFields_of_notMem (by simp)
    | markCritical containerId =>
      obtain rfl := List.mem_singleton.mp hc
      exact hquiet rfl rfl
    | docker | cacheAnswered | pushed | anomaly => cases he
  | workerHeartbeat workerId data | workerDead workerId | queueDepth depth =>
    obtain rfl := List.mem_singleton.mp hc
    exact hquiet rfl rfl
  | scanComplete containerId vulns status =>
    rw [calls] at hc
    split_ifs at hc
    · cases hc
    · obtain rfl := List.mem_singleton.mp hc
      exact hquiet rfl rfl

/-- Nor do they touch the start branches that wait. -/
theorem MasterNode.waiting_outsideStart {sha256Text : String → String} {m m' : MasterNode}
    {e : PrimaryEvent} (h : m.handlePrimary sha256Text e = some m') (he : e.outsideStart = true) :
    m'.lookups = m.lookups ∧ m'.pushes = m.pushes := by
  cases e with
  | own e =>
    cases e with
    | failedOver | failoverRaised =>
      obtain ⟨f, -, rfl⟩ := Option.map_eq_some_iff.mp h
      exact ⟨rfl, rfl⟩
    | markCritical =>
      rw [← Option.some.inj h]
      exact ⟨rfl, rfl⟩
    | docker | cacheAnswered | pushed | anomaly => cases he
  | workerHeartbeat | workerDead | scanComplete | queueDepth =>
    rw [← Option.some.inj h]
    exact ⟨rfl, rfl⟩

namespace StartLedger

variable {sha256Text : String → String} {s s' : StartLedger}

/-- The first start of a process that has no snapshot. -/
def start (listenerClient engineClient : Bool) : StartLedger where
  node := (MasterNode.new .empty listenerClient engineClient).listen
  started := []
  hits := []
  enqueued := []
  unread := []
  lostLookups := []
  lostPushes := []
  entries := []

/-- One step. -/
def step (sha256Text : String → String) (s : StartLedger) :
    StartLedgerLabel → Option StartLedger
  | .docker e =>
      if s.node.listening then some { s with
        node := s.node.handleEvent e
        started := if e.action = .start then s.started ++ [e] else s.started
        entries := s.entries ++
          (s.node.calls sha256Text (.own (.docker e))).flatMap StoreCall.appended }
      else none
  | .cacheReplied k reply => s.node.lookups[k]?.map fun e =>
      match readCache reply with
      | .ok (some scanResult) => { s with
          node := { s.node with
            store := s.node.store.onCacheHit e (e.layerHash sha256Text) scanResult
            lookups := s.node.lookups.eraseIdx k }
          hits := s.hits ++ [e]
          entries := s.entries ++ [e.hitEntry (e.layerHash sha256Text) scanResult] }
      | .ok none => { s with
          node := { s.node with
            store := s.node.store.onCacheMiss
            lookups := s.node.lookups.eraseIdx k
            pushes := s.node.pushes ++ [e] } }
      | .error _ => { s with
          node := { s.node with lookups := s.node.lookups.eraseIdx k }
          unread := s.unread ++ [e] }
  | .pushReplied k reply => s.node.pushes[k]?.map fun e => { s with
      node := { s.node with
        store := s.node.store.appendAudit
          (e.enqueuedEntry (e.layerHash sha256Text) (pushJob reply))
        pushes := s.node.pushes.eraseIdx k }
      enqueued := s.enqueued ++ [e]
      entries := s.entries ++ [e.enqueuedEntry (e.layerHash sha256Text) (pushJob reply)] }
  | .anomaly a => some { s with
      node := { s.node with store := s.node.store.appendAudit a.entry }
      entries := s.entries ++ [a.entry] }
  | .other e =>
      if e.outsideStart then (s.node.handlePrimary sha256Text e).map fun node => { s with
        node
        entries := s.entries ++ (s.node.calls sha256Text e).flatMap StoreCall.appended }
      else none
  | .restart listenerClient engineClient => some { s with
      node := (MasterNode.new s.node.store.clearAllWorkers listenerClient engineClient).listen
      lostLookups := s.lostLookups ++ s.node.lookups
      lostPushes := s.lostPushes ++ s.node.pushes }

/-- Where the starts are. -/
def places (s : StartLedger) : Multiset DockerEvent :=
  ↑s.node.lookups + ↑s.hits + ↑s.node.pushes + ↑s.enqueued + ↑s.unread + ↑s.lostLookups +
    ↑s.lostPushes

/-- The books balance. -/
structure Balanced (s : StartLedger) : Prop where
  started : (s.started : Multiset DockerEvent) = s.places
  hits : s.node.store.cacheHits = s.hits.length
  misses : s.node.store.cacheMisses =
    s.node.pushes.length + s.enqueued.length + s.lostPushes.length
  hitEntries : loggedAs "cache_hit" s.entries = s.hits.map DockerEvent.idText
  enqueuedEntries : loggedAs "scan_enqueued" s.entries = s.enqueued.map DockerEvent.idText
  log : s.node.store.auditLog = s.entries.rtake 200

theorem coe_of_getElem? {l : List DockerEvent} {k : ℕ} {e : DockerEvent} (h : l[k]? = some e) :
    (l : Multiset DockerEvent) = {e} + ↑(l.eraseIdx k) :=
  Multiset.coe_eq_coe.mpr (perm_cons_eraseIdx h)

/-- Entries that are neither of a hit nor of a push. -/
theorem loggedAs_append_of_other {action : String} {entries new : List Record}
    (h : ∀ entry ∈ new, auditAction? entry ≠ some action) :
    loggedAs action (entries ++ new) = loggedAs action entries := by
  rw [loggedAs_append, loggedAs_of_ne h, List.append_nil]

/-- The books after something that starts nothing and is no answer. -/
theorem Balanced.of_other (hs : s.Balanced) {node : MasterNode} {new : List Record}
    (hlookups : node.lookups = s.node.lookups) (hpushes : node.pushes = s.node.pushes)
    (hcounters : node.store.cacheHits = s.node.store.cacheHits ∧
      node.store.cacheMisses = s.node.store.cacheMisses)
    (hnew : ∀ entry ∈ new, auditAction? entry ≠ some "cache_hit" ∧
      auditAction? entry ≠ some "scan_enqueued")
    (hlog : node.store.auditLog = (s.entries ++ new).rtake 200) :
    Balanced { s with node, entries := s.entries ++ new } where
  started := by
    rw [places, hlookups, hpushes]
    exact hs.started
  hits := hcounters.1.trans hs.hits
  misses := by
    rw [hcounters.2, hpushes]
    exact hs.misses
  hitEntries := (loggedAs_append_of_other fun entry h => (hnew entry h).1).trans hs.hitEntries
  enqueuedEntries :=
    (loggedAs_append_of_other fun entry h => (hnew entry h).2).trans hs.enqueuedEntries
  log := hlog

theorem balanced_start (listenerClient engineClient : Bool) :
    (start listenerClient engineClient).Balanced :=
  ⟨rfl, rfl, rfl, rfl, rfl, (List.rtake_nil 200).symm⟩

/-- A Docker event. -/
theorem Balanced.docker (hs : s.Balanced) (e : DockerEvent) :
    Balanced { s with
      node := s.node.handleEvent e
      started := if e.action = .start then s.started ++ [e] else s.started
      entries := s.entries ++
        (s.node.calls sha256Text (.own (.docker e))).flatMap StoreCall.appended } := by
  cases haction : e.action with
  | start =>
    have hnode : s.node.handleEvent e =
        { s.node with store := s.node.store.onStart e, lookups := s.node.lookups ++ [e] } := by
      rw [MasterNode.handleEvent, haction]
    have hcalls : (s.node.calls sha256Text (.own (.docker e))).flatMap StoreCall.appended = [] := by
      rw [MasterNode.calls, haction]
      rfl
    rw [hnode, hcalls, if_pos rfl, List.append_nil]
    refine ⟨?_, hs.hits, hs.misses, hs.hitEntries, hs.enqueuedEntries, hs.log⟩
    rw [places, ← Multiset.coe_add, ← Multiset.coe_add, hs.started, places]
    abel
  | _ =>
    have hother : ∀ entry ∈ (s.node.calls sha256Text (.own (.docker e))).flatMap StoreCall.appended,
        auditAction? entry ≠ some "cache_hit" ∧ auditAction? entry ≠ some "scan_enqueued" := by
      rw [MasterNode.calls, haction]
      intro entry hentry
      have hstopped := (action_and_id_payload e "container_stopped" [] List.not_mem_nil
        List.not_mem_nil List.nodup_nil).1
      rw [List.mem_singleton.mp hentry, hstopped]
      decide
    have hlog := StateStore.auditLog_perform hs.log (s.node.calls sha256Text (.own (.docker e)))
    rw [MasterNode.calls, haction] at hlog hother ⊢
    rw [MasterNode.handleEvent, haction]
    simp only [reduceCtorEq, ↓reduceIte]
    exact hs.of_other rfl rfl ⟨rfl, rfl⟩ hother hlog

/-- A hit. -/
theorem Balanced.hit (hs : s.Balanced) {k : ℕ} {e : DockerEvent} (hk : s.node.lookups[k]? = some e)
    (layerHash : String) (scanResult : List (String × Json)) :
    Balanced { s with
      node := { s.node with
        store := s.node.store.onCacheHit e layerHash scanResult
        lookups := s.node.lookups.eraseIdx k }
      hits := s.hits ++ [e]
      entries := s.entries ++ [e.hitEntry layerHash scanResult] } := by
  obtain ⟨haction, hid⟩ := action_and_id_payload e "cache_hit"
    [("layer_hash", .str layerHash), ("cached_result", .obj scanResult)] (by simp)
    (by simp) (by simp)
  have hother : ∀ entry ∈ [e.hitEntry layerHash scanResult],
      auditAction? entry ≠ some "scan_enqueued" := by
    intro entry hentry
    rw [List.mem_singleton.mp hentry, DockerEvent.hitEntry, haction]
    decide
  refine ⟨?_, ?_, hs.misses, ?_, ?_, ?_⟩
  · have hstarted := hs.started
    rw [places, coe_of_getElem? hk] at hstarted
    rw [hstarted, places, ← Multiset.coe_add, Multiset.coe_singleton]
    abel
  · rw [List.length_append, ← hs.hits]
    rfl
  · rw [loggedAs_append, hs.hitEntries, List.map_append]
    exact congrArg _ (loggedAs_singleton haction hid)
  · exact (loggedAs_append_of_other hother).trans hs.enqueuedEntries
  · exact StateStore.auditLog_perform hs.log (e.hitCalls layerHash scanResult)

/-- The push of a job returns. -/
theorem Balanced.push (hs : s.Balanced) {k : ℕ} {e : DockerEvent} (hk : s.node.pushes[k]? = some e)
    (layerHash : String) (jobId : Json) :
    Balanced { s with
      node := { s.node with
        store := s.node.store.appendAudit (e.enqueuedEntry layerHash jobId)
        pushes := s.node.pushes.eraseIdx k }
      enqueued := s.enqueued ++ [e]
      entries := s.entries ++ [e.enqueuedEntry layerHash jobId] } := by
  obtain ⟨haction, hid⟩ := action_and_id_payload e "scan_enqueued"
    [("job_id", jobId), ("layer_hash", .str layerHash)] (by simp) (by simp) (by simp)
  have hother : ∀ entry ∈ [e.enqueuedEntry layerHash jobId],
      auditAction? entry ≠ some "cache_hit" := by
    intro entry hentry
    rw [List.mem_singleton.mp hentry, DockerEvent.enqueuedEntry, haction]
    decide
  have hstarted := hs.started
  have hmisses := hs.misses
  rw [places, coe_of_getElem? hk] at hstarted
  rw [(perm_cons_eraseIdx hk).length_eq, List.length_cons] at hmisses
  have hcounters := s.node.store.counters_perform
    [.appendAudit (e.enqueuedEntry layerHash jobId)]
    fun c hc => List.mem_singleton.mp hc ▸ rfl
  refine ⟨?_, hcounters.1.trans hs.hits, hcounters.2.trans ?_, ?_, ?_, ?_⟩
  · rw [hstarted, places, ← Multiset.coe_add, Multiset.coe_singleton]
    abel
  · show s.node.store.cacheMisses =
      (s.node.pushes.eraseIdx k).length + (s.enqueued ++ [e]).length + s.lostPushes.length
    rw [hmisses, List.length_append, List.length_singleton]
    omega
  · exact (loggedAs_append_of_other hother).trans hs.hitEntries
  · rw [loggedAs_append, hs.enqueuedEntries, List.map_append]
    exact congrArg _ (loggedAs_singleton haction hid)
  · exact StateStore.auditLog_perform hs.log [.appendAudit (e.enqueuedEntry layerHash jobId)]

/-- **The step of the books.** -/
theorem Balanced.step (hs : s.Balanced) {l : StartLedgerLabel}
    (h : s.step sha256Text l = some s') : s'.Balanced := by
  cases l with
  | docker e =>
    rw [StartLedger.step] at h
    by_cases hlistening : s.node.listening = true
    · rw [if_pos hlistening] at h
      exact Option.some.inj h ▸ hs.docker e
    · rw [if_neg hlistening] at h
      cases h
  | cacheReplied k reply =>
    obtain ⟨e, hk, heq⟩ := Option.map_eq_some_iff.mp h
    rw [← heq]
    have hstarted := hs.started
    rw [places, coe_of_getElem? hk] at hstarted
    cases readCache reply with
    | ok found =>
      cases found with
      | some scanResult => exact hs.hit hk (e.layerHash sha256Text) scanResult
      | none =>
        refine ⟨?_, hs.hits, ?_, hs.hitEntries, hs.enqueuedEntries, hs.log⟩
        · rw [hstarted, places, ← Multiset.coe_add, Multiset.coe_singleton]
          abel
        · show s.node.store.cacheMisses + 1 =
            (s.node.pushes ++ [e]).length + s.enqueued.length + s.lostPushes.length
          rw [hs.misses, List.length_append, List.length_singleton]
          omega
    | error raised =>
      refine ⟨?_, hs.hits, hs.misses, hs.hitEntries, hs.enqueuedEntries, hs.log⟩
      rw [hstarted, places, ← Multiset.coe_add, Multiset.coe_singleton]
      abel
  | pushReplied k reply =>
    obtain ⟨e, hk, rfl⟩ := Option.map_eq_some_iff.mp h
    exact hs.push hk (e.layerHash sha256Text) (pushJob reply)
  | anomaly a =>
    rw [← Option.some.inj h]
    refine hs.of_other rfl rfl (s.node.store.counters_perform [.appendAudit a.entry]
        fun c hc => List.mem_singleton.mp hc ▸ rfl) (fun entry hentry => ?_)
      (StateStore.auditLog_perform hs.log [.appendAudit a.entry])
    have haction : auditAction? a.entry = some "anomaly_detected" := by
      rw [auditAction?, Anomaly.entry, Record.get?_ofFields_of_mem (v := .str "anomaly_detected")
        (by simp) (by simp)]
      rfl
    rw [List.mem_singleton.mp hentry, haction]
    decide
  | other e =>
    rw [StartLedger.step] at h
    split_ifs at h with he
    obtain ⟨node, hnode, rfl⟩ := Option.map_eq_some_iff.mp h
    have hstore := MasterNode.store_handlePrimary hnode
    have hcalls : ∀ c ∈ s.node.calls sha256Text e,
        c.counts = false ∧ ∀ entry ∈ c.appended, auditAction? entry = none :=
      fun c hc => s.node.calls_outsideStart he hc
    obtain ⟨hlookups, hpushes⟩ := MasterNode.waiting_outsideStart hnode he
    refine hs.of_other hlookups hpushes ?_ (fun entry hentry => ?_) ?_
    · rw [hstore]
      exact s.node.store.counters_perform _ fun c hc => (hcalls c hc).1
    · obtain ⟨c, hc, hmem⟩ := List.mem_flatMap.mp hentry
      rw [(hcalls c hc).2 entry hmem]
      exact ⟨nofun, nofun⟩
    · rw [hstore]
      exact StateStore.auditLog_perform hs.log _
  | restart listenerClient engineClient =>
    rw [← Option.some.inj h]
    refine ⟨?_, hs.hits, ?_, hs.hitEntries, hs.enqueuedEntries, hs.log⟩
    · have hstarted := hs.started
      rw [hstarted, places, places, ← Multiset.coe_add, ← Multiset.coe_add]
      show _ = ((([] : List DockerEvent) : Multiset DockerEvent)) + _ + ↑([] : List DockerEvent) +
        _ + _ + _ + _
      rw [Multiset.coe_nil]
      abel
    · have hmisses := hs.misses
      show s.node.store.cacheMisses =
        ([] : List DockerEvent).length + s.enqueued.length + (s.lostPushes ++ s.node.pushes).length
      rw [hmisses, List.length_append, List.length_nil]
      omega

/-- **The books of the start branch balance.**  In every state of every run, with any number of
branches under way, bodies of any shape and any number of restarts, every start that was handled
is in exactly one place; the counters and the audit log agree with that, and with each other. -/
theorem books_balance (sha256Text : String → String) (listenerClient engineClient : Bool)
    (ls : List StartLedgerLabel) :
    Machine.Visits (StartLedger.step sha256Text) Balanced (start listenerClient engineClient)
      ls := by
  intro pre _ t ht
  exact Machine.exec_invariant (fun _ _ _ hs h => hs.step h)
    (balanced_start listenerClient engineClient) ht

end StartLedger
end Rcsce
