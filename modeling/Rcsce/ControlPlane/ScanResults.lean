import Rcsce.ControlPlane.Delivery
import Rcsce.ControlPlane.RecordedStatus

/-!
# A scan result is shown under the container that it was asked for

A start event that misses the cache becomes a job with the id of the container.  When the job
has a result, `_run_job` completes it, and then `_notify_scan_complete` posts the counts with the
container id of the job to `/internal/scan/complete`, which writes them into the record of the
container.  On the way there are the queue, requeues and reclaims, and reports that are late or
lost.

## The machine

The scheduler and the control plane, with the reports between them.  A report is on its way from
the completion of its job on, and may be lost.  The cache node is no part of this machine: a
lookup may be answered with anything.  `asked` are the start events that a job was made for,
`scans` the scans that have returned, and `hits` the cache hits; all three are ghosts.

## The results

* `Faithful` holds in every run: what is shown of a container was found by a scan of a job with
  its id, or came from a cache hit of its own, or was there before (`results_of_their_container`).
* `Telling` holds in the runs that lose nothing.  From every state of such a run the processes can
  go on by themselves until every container that a job was made for shows a result
  (`results_shown`).
-/

namespace Rcsce

/-- A result on its way to `/internal/scan/complete`. -/
structure ScanReport where
  job : Job
  members : List (String × Json)

/-- What `scan_complete` does with the body that `_notify_scan_complete` posts. -/
def ScanReport.event (r : ScanReport) : PrimaryEvent :=
  .scanComplete r.job.containerId (StateStore.cachedVulns r.members)
    ((r.members.lookup "status").getD (.str "unknown"))

/-- The event is about a job of the scheduler. -/
def PrimaryEvent.aboutJob : PrimaryEvent → Bool
  | .own (.pushed _ _) | .scanComplete _ _ _ => true
  | _ => false

/-- The cache hit that an event brings, with its container. -/
def MasterNode.hitOf (m : MasterNode) : PrimaryEvent → List (String × List (String × Json))
  | .own (.cacheAnswered k (some members)) =>
      (m.lookups[k]?.map fun e => (e.containerId, members)).toList
  | _ => []

/-- The report that follows from a step: a task has completed its job. -/
def SchedulerState.reportsOf (s : SchedulerState) : SchedulerLabel → List ScanReport
  | .run i (.goesOn _) =>
      match s.runs[i]? with
      | some ⟨job, _, .caching (.obj members)⟩ => [⟨job, members⟩]
      | _ => []
  | _ => []

/-- The scheduler, the control plane, and the reports between them. -/
structure ScanView where
  scheduler : SchedulerState
  node : MasterNode
  reports : List ScanReport
  asked : List (Uuid × DockerEvent)
  scans : List (Job × TrivyRun)
  hits : List (String × List (String × Json))

/-- What can happen next. -/
inductive ScanLabel where
  /-- A step of the scheduler, but for a `process_job` that returns. -/
  | scheduler (l : SchedulerLabel)
  | scan (i : ℕ) (run : TrivyRun) (timestamp : String) (elapsedMs : ℚ)
  /-- The scheduler gets the job or not, and the listener its id or not. -/
  | push (k : ℕ) (delivered answered : Bool)
  | arrives (k : ℕ)
  | lost (k : ℕ)
  /-- Something else happens in the control plane. -/
  | node (e : PrimaryEvent)

/-- Nothing gets lost in the step. -/
def ScanLabel.reliable : ScanLabel → Bool
  | .scheduler l => l.ok
  | .lost _ => false
  | _ => true

namespace ScanView

/-- One step. -/
def step (sha256Text : String → String) (s : ScanView) : ScanLabel → Option ScanView
  | .scheduler l =>
      if l.returns then none
      else (s.scheduler.step l).map fun t => { s with
        scheduler := t
        reports := s.reports ++ s.scheduler.reportsOf l }
  | .scan i run timestamp elapsedMs => s.scheduler.runs[i]?.bind fun task =>
      (s.scheduler.step (.run i (.returns
        (timedResult task.workerId task.job run timestamp elapsedMs)))).map fun t => { s with
          scheduler := t
          scans := s.scans ++ [(task.job, run)] }
  | .push k delivered answered => s.node.pushes[k]?.bind fun e =>
      (if delivered then
        s.scheduler.step (.enqueue e.containerId (e.layerHash sha256Text) e.imageName)
      else some s.scheduler).bind fun t =>
        (s.node.handlePrimary sha256Text (.own (.pushed k
          (if delivered && answered then toString s.scheduler.pool.nextUuid
            else "ipc-failed")))).map fun node => { s with
              scheduler := t
              node
              asked := s.asked ++ if delivered then [(s.scheduler.pool.nextUuid, e)] else [] }
  | .arrives k => s.reports[k]?.bind fun r =>
      (s.node.handlePrimary sha256Text r.event).map fun node => { s with
        node
        reports := advance s.reports k none }
  | .lost k => s.reports[k]?.map fun _ => { s with reports := advance s.reports k none }
  | .node e =>
      if e.aboutJob then none
      else (s.node.handlePrimary sha256Text e).map fun node => { s with
        node
        hits := s.hits ++ s.node.hitOf e }

/-- The processes when they start. -/
def start (n : ℕ) (q : StartQueue) (now : Time) (store : StateStore)
    (listenerClient engineClient : Bool) : ScanView where
  scheduler := .start n q now
  node := (MasterNode.new store.clearAllWorkers listenerClient engineClient).listen
  reports := []
  asked := []
  scans := []
  hits := []

/-- The vulnerabilities that the record of a container holds. -/
def shown (s : ScanView) (containerId : String) : Option Json :=
  s.node.store.containerField containerId "vulnerabilities"

/-- A scan of a job for the container has found this, or a cache hit of the container has
brought it. -/
def FoundFor (s : ScanView) (containerId : String) (v : Json) : Prop :=
  (∃ job run, (job, run) ∈ s.scans ∧ job.containerId = containerId ∧ v = run.scan.2.toJson) ∨
    ∃ members, (containerId, members) ∈ s.hits ∧ v = StateStore.cachedVulns members

/-- A scan of the job has had this result. -/
def Scanned (s : ScanView) (job : Job) (result : Json) : Prop :=
  ∃ run members, (job, run) ∈ s.scans ∧ result = .obj members ∧
    StateStore.cachedVulns members = run.scan.2.toJson

variable {sha256Text : String → String} {store : StateStore} {s s' : ScanView}

theorem FoundFor.mono {c : String} {v : Json} (h : s.FoundFor c v)
    (hscans : ∀ p ∈ s.scans, p ∈ s'.scans) (hhits : ∀ p ∈ s.hits, p ∈ s'.hits) :
    s'.FoundFor c v := by
  rcases h with ⟨job, run, hmem, hrest⟩ | ⟨members, hmem, hv⟩
  · exact Or.inl ⟨job, run, hscans _ hmem, hrest⟩
  · exact Or.inr ⟨members, hhits _ hmem, hv⟩

theorem Scanned.foundFor {job : Job} {members : List (String × Json)}
    (h : s.Scanned job (.obj members)) :
    s.FoundFor job.containerId (StateStore.cachedVulns members) := by
  obtain ⟨run, _, hmem, heq, hv⟩ := h
  cases heq
  exact Or.inl ⟨job, run, hmem, rfl, hv⟩

/-- A report writes what was found. -/
theorem Scanned.foundFor_of_event {r : ScanReport} (hr : s.Scanned r.job (.obj r.members))
    {d : String} {w : Json} (h : s.node.vulnsWrite r.event = some (d, w)) : s.FoundFor d w := by
  rw [ScanReport.event, MasterNode.vulnsWrite] at h
  split_ifs at h
  cases h
  exact hr.foundFor

theorem Scanned.mono {job : Job} {result : Json} (h : s.Scanned job result)
    (hscans : ∀ p ∈ s.scans, p ∈ s'.scans) : s'.Scanned job result := by
  obtain ⟨run, members, hmem, hrest⟩ := h
  exact ⟨run, members, hscans _ hmem, hrest⟩

/-! ## What every run keeps -/

/-- The job has kept what it was made for. -/
abbrev Right (sha256Text : String → String) (s : ScanView) (job : Job) : Prop :=
  LayerRun.Right sha256Text s.scheduler.pool.nextUuid s.asked job

/-- The invariant of every run. -/
structure Faithful (sha256Text : String → String) (store : StateStore) (s : ScanView) : Prop where
  jobs : s.scheduler.AllJobs (s.Right sha256Text)
  asked : ∀ p ∈ s.asked, p.1 < s.scheduler.pool.nextUuid
  scanned : ∀ p ∈ s.scans, s.Right sha256Text p.1
  caching : ∀ run ∈ s.scheduler.runs, ∀ result, run.stage = .caching result →
    s.Scanned run.job result
  reports : ∀ r ∈ s.reports, s.Scanned r.job (.obj r.members)
  shown : ∀ c v, s.shown c = some v →
    store.containerField c "vulnerabilities" = some v ∨ s.FoundFor c v

/-- A step of the control plane writes what it writes, and nothing else. -/
theorem shown_handlePrimary {e : PrimaryEvent} {node : MasterNode}
    (h : s.node.handlePrimary sha256Text e = some node) (hs' : s'.node = node) (c : String) :
    s'.shown c = written (s.node.vulnsWrite e) c (s.shown c) := by
  rw [shown, hs']
  exact (MasterNode.field_handlePrimary h c).2

/-- What a write of something that was found leaves shown. -/
theorem shown_of_written {write : Option (String × Json)} {c : String} {v : Json}
    (hwrite : ∀ d w, write = some (d, w) → s'.FoundFor d w)
    (hv : written write c (s.shown c) = some v) : s.shown c = some v ∨ s'.FoundFor c v := by
  cases write with
  | none => exact Or.inl hv
  | some w =>
    rw [written] at hv
    split_ifs at hv with hc
    · rw [← Option.some.inj hv, hc]
      exact Or.inr (hwrite _ _ rfl)
    · exact Or.inl hv

/-- A hit writes what it has brought. -/
theorem foundFor_of_vulnsWrite {e : PrimaryEvent} (he : e.aboutJob = false) {d : String} {w : Json}
    (h : s.node.vulnsWrite e = some (d, w)) (hhits : ∀ p ∈ s.node.hitOf e, p ∈ s'.hits) :
    s'.FoundFor d w := by
  cases e with
  | own e =>
    cases e with
    | cacheAnswered k hit =>
      cases hit with
      | none => cases h
      | some members =>
        obtain ⟨e, hk, heq⟩ := Option.map_eq_some_iff.mp h
        obtain ⟨rfl, rfl⟩ := Prod.mk.inj heq
        refine Or.inr ⟨members, hhits _ ?_, rfl⟩
        rw [MasterNode.hitOf, hk]
        exact List.mem_cons_self
    | _ => cases h
  | scanComplete => cases he
  | _ => cases h

theorem scanned_timedResult {job : Job} {run : TrivyRun} (h : (job, run) ∈ s.scans) (w : Uuid)
    (timestamp : String) (elapsedMs : ℚ) :
    s.Scanned job (timedResult w job run timestamp elapsedMs) :=
  ⟨run, _, h, rfl, rfl⟩

/-- What is on its way after a step of the scheduler. -/
theorem scanned_reportsOf
    (hs : ∀ run ∈ s.scheduler.runs, ∀ result, run.stage = .caching result →
      s.Scanned run.job result) (l : SchedulerLabel) :
    ∀ r ∈ s.scheduler.reportsOf l, s.Scanned r.job (.obj r.members) := by
  intro r hr
  cases l with
  | run i e =>
    cases e with
    | goesOn ok =>
      rw [SchedulerState.reportsOf] at hr
      split at hr
      · rename_i job w members hget
        rw [List.mem_singleton.mp hr]
        exact hs _ (List.mem_of_getElem? hget) _ rfl
      · cases hr
    | _ => cases hr
  | _ => cases hr

/-- A step of the scheduler, with what else the whole does then. -/
theorem Faithful.next (hs : s.Faithful sha256Text store) (new : List (Uuid × DockerEvent))
    (hnext : s.scheduler.pool.nextUuid ≤ s'.scheduler.pool.nextUuid)
    (hasked : s'.asked = s.asked ++ new)
    (hnew : ∀ p ∈ new, p.1 = s.scheduler.pool.nextUuid ∧ p.1 < s'.scheduler.pool.nextUuid)
    (hjobs : s.scheduler.AllJobs (s'.Right sha256Text) → s'.scheduler.AllJobs (s'.Right sha256Text))
    (hscans : ∀ p ∈ s'.scans, p ∈ s.scans ∨ s.Right sha256Text p.1)
    (hcaching : ∀ run ∈ s'.scheduler.runs, ∀ result, run.stage = .caching result →
      s'.Scanned run.job result)
    (hreports : ∀ r ∈ s'.reports, s'.Scanned r.job (.obj r.members))
    (hshown : ∀ c v, s'.shown c = some v →
      store.containerField c "vulnerabilities" = some v ∨ s'.FoundFor c v) :
    s'.Faithful sha256Text store := by
  have hright : ∀ job, s.Right sha256Text job → s'.Right sha256Text job := by
    refine fun job hjob => hjob.mono hnext fun p hp => ?_
    rw [hasked] at hp
    exact (List.mem_append.mp hp).imp_right fun hp' => (hnew p hp').1.ge
  refine ⟨hjobs (hs.jobs.mono hright), fun p hp => ?_, fun p hp => ?_, hcaching, hreports, hshown⟩
  · rw [hasked] at hp
    rcases List.mem_append.mp hp with hold | hlast
    · exact (hs.asked p hold).trans_le hnext
    · exact (hnew p hlast).2
  · exact hright _ ((hscans p hp).elim (hs.scanned p) id)

/-- **The step of the invariant.** -/
theorem step_faithful {l : ScanLabel} (hs : s.Faithful sha256Text store)
    (h : s.step sha256Text l = some s') : s'.Faithful sha256Text store := by
  have hkept : ∀ {u : ScanView}, (∀ p ∈ s.scans, p ∈ u.scans) → (∀ p ∈ s.hits, p ∈ u.hits) →
      ∀ c v, s.shown c = some v →
        store.containerField c "vulnerabilities" = some v ∨ u.FoundFor c v :=
    fun hscans hhits c v hv => (hs.shown c v hv).imp_right fun hfound => hfound.mono hscans hhits
  have hadvance : ∀ {k : ℕ} {r₀ : ScanReport}, s.reports[k]? = some r₀ →
      ∀ r ∈ advance s.reports k none, s.Scanned r.job (.obj r.members) := fun hget r hr =>
    hs.reports r ((mem_of_mem_advance hget hr).resolve_left nofun)
  -- a step that leaves the scheduler alone and asks for nothing
  have hkeeps : s'.scheduler = s.scheduler → s'.asked = s.asked → s'.scans = s.scans →
      (∀ r ∈ s'.reports, s'.Scanned r.job (.obj r.members)) →
      (∀ c v, s'.shown c = some v →
        store.containerField c "vulnerabilities" = some v ∨ s'.FoundFor c v) →
      s'.Faithful sha256Text store := by
    intro hscheduler hasked hscans hreports hshown
    refine hs.next [] (hscheduler ▸ le_rfl) (by rw [hasked, List.append_nil])
      (fun _ hp => absurd hp List.not_mem_nil) (fun hjobs => hscheduler ▸ hjobs)
      (fun p hp => Or.inl (hscans ▸ hp)) (fun run hrun result hpc => ?_) hreports hshown
    exact (hs.caching run (hscheduler ▸ hrun) result hpc).mono fun p hp => hscans ▸ hp
  cases l with
  | scheduler l =>
    rw [step] at h
    split_ifs at h with hreturns
    obtain ⟨t, ht, rfl⟩ := Option.map_eq_some_iff.mp h
    have hcaching : ∀ run ∈ t.runs, ∀ result, run.stage = .caching result →
        s.Scanned run.job result := by
      refine SchedulerState.step_caching (P := s.Scanned) hs.caching ?_ ht
      rintro i result run rfl -
      exact absurd rfl hreturns
    refine hs.next [] (SchedulerState.step_nextUuid_le ht) (List.append_nil _).symm
      (fun _ hp => absurd hp List.not_mem_nil) (fun hjobs => ?_) (fun _ hp => Or.inl hp)
      hcaching (fun r hr => ?_) (hkept (fun _ => id) fun _ => id)
    · refine SchedulerState.step_allJobs (LayerRun.right_aboutRequest _ _) hjobs
        (fun c im name heq => ?_) ht
      subst heq
      cases ht
      exact LayerRun.right_new (Nat.lt_succ_self _) hs.asked c im name
    · rcases List.mem_append.mp hr with hold | hnew
      · exact hs.reports r hold
      · exact scanned_reportsOf hs.caching l r hnew
  | scan i run timestamp elapsedMs =>
    obtain ⟨task, htask, h⟩ := Option.bind_eq_some_iff.mp h
    obtain ⟨t, ht, rfl⟩ := Option.map_eq_some_iff.mp h
    have hmono : ∀ p ∈ s.scans, p ∈ s.scans ++ [(task.job, run)] := fun p hp =>
      List.mem_append_left _ hp
    have hcaching : ∀ run' ∈ t.runs, ∀ result, run'.stage = .caching result →
        ScanView.Scanned { s with scans := s.scans ++ [(task.job, run)] } run'.job result := by
      refine SchedulerState.step_caching (P := ScanView.Scanned _)
        (fun run' hrun' result hpc => (hs.caching run' hrun' result hpc).mono hmono) ?_ ht
      intro j result task' heq hget
      obtain ⟨rfl, hresult⟩ := SchedulerLabel.run.inj heq
      obtain rfl := Option.some.inj (htask.symm.trans hget)
      rw [← RunEvent.returns.inj hresult]
      exact scanned_timedResult (List.mem_append_right _ List.mem_cons_self) _ _ _
    refine hs.next [] (SchedulerState.step_nextUuid_le ht) (List.append_nil _).symm
      (fun _ hp => absurd hp List.not_mem_nil) (fun hjobs => ?_) (fun p hp => ?_) hcaching
      (fun r hr => ?_) (hkept hmono fun _ => id)
    · refine SchedulerState.step_allJobs (LayerRun.right_aboutRequest _ _) hjobs
        (fun c im name heq => ?_) ht
      cases heq
    · refine (List.mem_append.mp hp).imp_right fun hp' => ?_
      rw [List.mem_singleton.mp hp']
      exact hs.jobs.runs task (List.mem_of_getElem? htask)
    · exact (hs.reports r hr).mono hmono
  | push k delivered answered =>
    obtain ⟨e, hk, h⟩ := Option.bind_eq_some_iff.mp h
    obtain ⟨t, ht, h⟩ := Option.bind_eq_some_iff.mp h
    obtain ⟨node, hnode, rfl⟩ := Option.map_eq_some_iff.mp h
    have hshown : ∀ c v, node.store.containerField c "vulnerabilities" = some v →
        store.containerField c "vulnerabilities" = some v ∨ s.FoundFor c v := fun c v hv =>
      hs.shown c v ((MasterNode.field_handlePrimary hnode c).2.symm.trans hv)
    cases delivered with
    | false =>
      obtain rfl := Option.some.inj ht
      exact hkeeps rfl (List.append_nil _) rfl hs.reports hshown
    | true =>
      have ht' : s.scheduler.step
          (.enqueue e.containerId (e.layerHash sha256Text) e.imageName) = some t := ht
      have hnext : t.pool.nextUuid = s.scheduler.pool.nextUuid + 1 := by
        cases ht'
        rfl
      refine hs.next _ (SchedulerState.step_nextUuid_le ht') rfl (fun p hp => ?_) (fun hjobs => ?_)
        (fun _ hp => Or.inl hp) (SchedulerState.step_caching (P := s.Scanned) hs.caching ?_ ht')
        hs.reports hshown
      · rw [List.mem_singleton.mp hp]
        exact ⟨rfl, hnext ▸ Nat.lt_succ_self _⟩
      · refine SchedulerState.step_allJobs (LayerRun.right_aboutRequest _ _) hjobs
          (fun c im name heq => ?_) ht'
        cases heq
        exact LayerRun.right_pushed (hnext ▸ Nat.lt_succ_self _) hs.asked e
      · exact fun _ _ _ heq => nomatch heq
  | arrives k =>
    obtain ⟨r, hk, h⟩ := Option.bind_eq_some_iff.mp h
    obtain ⟨node, hnode, rfl⟩ := Option.map_eq_some_iff.mp h
    refine hkeeps rfl rfl rfl (hadvance hk) fun c v hv => ?_
    rw [shown_handlePrimary hnode rfl] at hv
    refine (shown_of_written (fun d w hw => ?_) hv).elim (hs.shown c v) Or.inr
    exact (hs.reports r (List.mem_of_getElem? hk)).foundFor_of_event hw
  | lost k =>
    obtain ⟨r, hk, rfl⟩ := Option.map_eq_some_iff.mp h
    exact hkeeps rfl rfl rfl (hadvance hk) hs.shown
  | node e =>
    rw [step] at h
    split_ifs at h with he
    obtain ⟨node, hnode, rfl⟩ := Option.map_eq_some_iff.mp h
    refine hkeeps rfl rfl rfl hs.reports fun c v hv => ?_
    rw [shown_handlePrimary hnode rfl] at hv
    refine (shown_of_written (fun d w hw => ?_) hv).elim (fun hold => ?_) Or.inr
    · exact foundFor_of_vulnsWrite (Bool.not_eq_true _ ▸ he) hw fun p hp =>
        List.mem_append_right _ hp
    · exact (hs.shown c v hold).imp_right fun hfound =>
        hfound.mono (fun _ => id) fun p hp => List.mem_append_left _ hp

theorem start_faithful (sha256Text : String → String) (n : ℕ) (q : StartQueue) (now : Time)
    (store : StateStore) (listenerClient engineClient : Bool) :
    (start n q now store listenerClient engineClient).Faithful sha256Text store where
  jobs := (LayerRun.start_keyed sha256Text n q now 0 0 false store).jobs
  asked := fun _ hp => absurd hp List.not_mem_nil
  scanned := fun _ hp => absurd hp List.not_mem_nil
  caching := fun _ hrun => absurd hrun List.not_mem_nil
  reports := fun _ hr => absurd hr List.not_mem_nil
  shown := fun _ _ hv => Or.inl hv

/-- **A result is shown under its own container.**  In every run, whatever is lost, raises,
fails or restarts a job: a job that is scanned has the container and the image of the start event
that it was made for, and what is shown of a container was there before, was found by a scan of a
job with its id, or came from a cache hit that answered its own lookup. -/
theorem results_of_their_container (sha256Text : String → String) (n : ℕ) (q : StartQueue)
    (now : Time) (store : StateStore) (listenerClient engineClient : Bool) (ls : List ScanLabel)
    (s : ScanView)
    (h : Machine.exec (step sha256Text) (start n q now store listenerClient engineClient) ls =
      some s) :
    (∀ job run e, (job, run) ∈ s.scans → (job.jobId, e) ∈ s.asked →
      job.containerId = e.containerId ∧ job.imageName = e.imageName) ∧
    ∀ c v, s.shown c = some v →
      store.containerField c "vulnerabilities" = some v ∨ s.FoundFor c v := by
  have hs : s.Faithful sha256Text store :=
    Machine.exec_invariant (fun _ _ _ hs hstep => step_faithful hs hstep)
      (start_faithful sha256Text n q now store listenerClient engineClient) h
  refine ⟨fun job run e hscan he => ?_, hs.shown⟩
  obtain ⟨hcontainer, -, hname⟩ := (hs.scanned _ hscan).2 e he
  exact ⟨hcontainer, hname⟩

/-- A container has started, its lookup has missed, and the scan of its job has found nothing
before it timed out. -/
theorem results_of_their_container_timed_out :
    ∃ s, Machine.exec (step LayerRun.webDigest) (start 1 .redis 0 .empty true true)
        [.node (.own (.docker ⟨.start, "c1", some "web-1", some "nginx", none, 0⟩)),
          .node (.own (.cacheAnswered 0 none)), .push 0 true true, .scheduler (.dispatch true),
          .scheduler (.dispatch true), .scheduler (.dispatch true), .scheduler (.dispatch true),
          .scheduler (.dispatch true), .scan 0 .timesOut "" 0,
          .scheduler (.run 0 (.goesOn true)), .arrives 0] = some s ∧
      s.shown "c1" = some VulnCounts.zero.toJson ∧
      (∀ job run e, (job, run) ∈ s.scans → (job.jobId, e) ∈ s.asked →
        job.containerId = e.containerId ∧ job.imageName = e.imageName) ∧
      ∀ c v, s.shown c = some v →
        StateStore.empty.containerField c "vulnerabilities" = some v ∨ s.FoundFor c v := by
  refine ⟨_, by with_unfolding_all rfl, by with_unfolding_all rfl, ?_⟩
  exact results_of_their_container LayerRun.webDigest 1 .redis 0 .empty true true
    [.node (.own (.docker ⟨.start, "c1", some "web-1", some "nginx", none, 0⟩)),
      .node (.own (.cacheAnswered 0 none)), .push 0 true true, .scheduler (.dispatch true),
      .scheduler (.dispatch true), .scheduler (.dispatch true), .scheduler (.dispatch true),
      .scheduler (.dispatch true), .scan 0 .timesOut "" 0,
      .scheduler (.run 0 (.goesOn true)), .arrives 0] _ (by with_unfolding_all rfl)

/-! ## The runs that lose nothing -/

/-- The result of the job is on its way, or the container shows a result. -/
def Told (s : ScanView) (i : Uuid) (containerId : String) : Prop :=
  (∃ r ∈ s.reports, r.job.jobId = i) ∨
    ∃ v, s.shown containerId = some v ∧ s.FoundFor containerId v

/-- The invariant of the runs that lose nothing. -/
structure Telling (sha256Text : String → String) (store : StateStore) (n : ℕ) (s : ScanView) :
    Prop where
  faithful : s.Faithful sha256Text store
  serving : SchedulerState.Serving n s.scheduler
  accepted : ∀ p ∈ s.asked, p.1 ∈ s.scheduler.enqueued
  finished : ∀ i ∈ s.scheduler.completions, i < s.scheduler.pool.nextUuid
  told : ∀ p ∈ s.asked, p.1 ∈ s.scheduler.completions → p.2.containerId ≠ "" →
    s.Told p.1 p.2.containerId

variable {n : ℕ}

/-- A step that reports what it completes. -/
theorem Telling.next (hs : s.Telling sha256Text store n) (new : List (Uuid × DockerEvent))
    (hfaithful : s'.Faithful sha256Text store)
    (hserving : SchedulerState.Serving n s'.scheduler)
    (hnext : s.scheduler.pool.nextUuid ≤ s'.scheduler.pool.nextUuid)
    (henqueued : ∀ i ∈ s.scheduler.enqueued, i ∈ s'.scheduler.enqueued)
    (hasked : s'.asked = s.asked ++ new)
    (hnew : ∀ p ∈ new, p.1 = s.scheduler.pool.nextUuid ∧ p.1 ∈ s'.scheduler.enqueued)
    (hcompletions : ∀ i ∈ s'.scheduler.completions, i ∈ s.scheduler.completions ∨
      ∃ r ∈ s'.reports, r.job.jobId = i)
    (hkept : ∀ p ∈ s.asked, p.2.containerId ≠ "" → s.Told p.1 p.2.containerId →
      s'.Told p.1 p.2.containerId) : s'.Telling sha256Text store n := by
  refine ⟨hfaithful, hserving, fun p hp => ?_, fun i hi => ?_, fun p hp hi hne => ?_⟩
  · rw [hasked] at hp
    exact (List.mem_append.mp hp).elim (fun hold => henqueued _ (hs.accepted p hold))
      fun hlast => (hnew p hlast).2
  · rcases hcompletions i hi with hold | ⟨r, hr, rfl⟩
    · exact (hs.finished i hold).trans_le hnext
    · obtain ⟨run, _, hscan, -⟩ := hfaithful.reports r hr
      exact (hfaithful.scanned _ hscan).1
  · rcases hcompletions _ hi with hold | hreport
    · rw [hasked] at hp
      rcases List.mem_append.mp hp with hp' | hlast
      · exact hkept p hp' hne (hs.told p hp' hold hne)
      · exact absurd (hs.finished _ hold) ((hnew p hlast).1 ▸ Nat.lt_irrefl _)
    · exact Or.inl hreport

/-- A container that shows a result shows one after every write of a result. -/
theorem shows_of_written {write : Option (String × Json)} {c : String}
    (hshown : s'.shown c = written write c (s.shown c))
    (hwrite : ∀ d w, write = some (d, w) → s'.FoundFor d w)
    (hmono : ∀ v, s.FoundFor c v → s'.FoundFor c v)
    (h : ∃ v, s.shown c = some v ∧ s.FoundFor c v) :
    ∃ v, s'.shown c = some v ∧ s'.FoundFor c v := by
  obtain ⟨v, hv, hfound⟩ := h
  cases write with
  | none => exact ⟨v, hshown.trans hv, hmono v hfound⟩
  | some w =>
    rw [written] at hshown
    split_ifs at hshown with hc
    · exact ⟨w.2, hshown, hc ▸ hwrite w.1 w.2 rfl⟩
    · exact ⟨v, hshown.trans hv, hmono v hfound⟩

/-- What a step of the scheduler completes, it reports. -/
theorem reported_of_completed (hs : s.Faithful sha256Text store) {l : SchedulerLabel}
    {u : SchedulerState} (h : s.scheduler.step l = some u) :
    ∀ i ∈ u.completions, i ∈ s.scheduler.completions ∨
      ∃ r ∈ s.scheduler.reportsOf l, r.job.jobId = i := by
  intro i hi
  rcases SchedulerState.step_completions h with hsame | ⟨k, ok, run, result, rfl, hget, hpc, heq⟩
  · exact Or.inl (hsame ▸ hi)
  · rw [heq] at hi
    refine (List.mem_append.mp hi).imp_right fun hlast => ?_
    obtain ⟨job, w, stage⟩ := run
    obtain rfl : stage = .caching result := hpc
    obtain ⟨_, members, -, rfl, -⟩ := hs.caching _ (List.mem_of_getElem? hget) result rfl
    refine ⟨⟨job, members⟩, ?_, (List.mem_singleton.mp hlast).symm⟩
    simp only [SchedulerState.reportsOf, hget]
    exact List.mem_cons_self

/-- **The step of the invariant.** -/
theorem step_telling {l : ScanLabel} (hs : s.Telling sha256Text store n) (hl : l.reliable = true)
    (h : s.step sha256Text l = some s') : s'.Telling sha256Text store n := by
  have hfaithful := step_faithful hs.faithful h
  have henqueued : ∀ {l : SchedulerLabel} {u : SchedulerState},
      s.scheduler.step l = some u → ∀ i ∈ s.scheduler.enqueued, i ∈ u.enqueued :=
    fun h i hi => SchedulerState.mem_enqueued_step hs.serving.backed h hi
  cases l with
  | scheduler l =>
    rw [step] at h
    split_ifs at h with hreturns
    obtain ⟨u, hu, rfl⟩ := Option.map_eq_some_iff.mp h
    refine hs.next [] hfaithful (SchedulerState.step_serving hs.serving hl hu)
      (SchedulerState.step_nextUuid_le hu) (henqueued hu) (List.append_nil _).symm
      (fun _ hp => absurd hp List.not_mem_nil) (fun i hi => ?_) fun p _ _ htold => ?_
    · refine (reported_of_completed hs.faithful hu i hi).imp_right ?_
      rintro ⟨r, hr, heq⟩
      exact ⟨r, List.mem_append_right _ hr, heq⟩
    · refine htold.imp_left ?_
      rintro ⟨r, hr, heq⟩
      exact ⟨r, List.mem_append_left _ hr, heq⟩
  | scan i run timestamp elapsedMs =>
    obtain ⟨task, htask, h⟩ := Option.bind_eq_some_iff.mp h
    obtain ⟨u, hu, rfl⟩ := Option.map_eq_some_iff.mp h
    refine hs.next [] hfaithful (SchedulerState.step_serving hs.serving rfl hu)
      (SchedulerState.step_nextUuid_le hu) (henqueued hu) (List.append_nil _).symm
      (fun _ hp => absurd hp List.not_mem_nil) (fun i hi => ?_) fun p _ _ htold => ?_
    · refine (reported_of_completed hs.faithful hu i hi).imp_right ?_
      rintro ⟨r, hr, -⟩
      exact absurd hr List.not_mem_nil
    · refine htold.imp_right ?_
      rintro ⟨v, hv, hfound⟩
      exact ⟨v, hv, hfound.mono (fun _ hp => List.mem_append_left _ hp) fun _ => id⟩
  | push k delivered answered =>
    obtain ⟨e, hk, h⟩ := Option.bind_eq_some_iff.mp h
    obtain ⟨u, hu, h⟩ := Option.bind_eq_some_iff.mp h
    obtain ⟨node, hnode, rfl⟩ := Option.map_eq_some_iff.mp h
    have htold : ∀ {t : ScanView} {i : Uuid} {c : String}, t.reports = s.reports →
        t.node = node → t.scans = s.scans → t.hits = s.hits → s.Told i c → t.Told i c := by
      intro t i c hreports hnode' hscans hhits h
      refine h.imp (fun hr => hreports ▸ hr) ?_
      rintro ⟨v, hv, hfound⟩
      refine ⟨v, ?_, hfound.mono (fun _ => hscans ▸ id) fun _ => hhits ▸ id⟩
      rw [shown_handlePrimary hnode hnode' c]
      exact hv
    cases delivered with
    | false =>
      obtain rfl := Option.some.inj hu
      refine hs.next _ hfaithful hs.serving le_rfl (fun _ => id) rfl
        (fun _ hp => absurd hp List.not_mem_nil) (fun _ => Or.inl) fun p _ _ => ?_
      exact htold rfl rfl rfl rfl
    | true =>
      have hu' : s.scheduler.step
          (.enqueue e.containerId (e.layerHash sha256Text) e.imageName) = some u := hu
      refine hs.next _ hfaithful (SchedulerState.step_serving hs.serving rfl hu')
        (SchedulerState.step_nextUuid_le hu') (henqueued hu') rfl (fun p hp => ?_)
        (fun i hi => ?_) fun p _ _ => ?_
      · rw [List.mem_singleton.mp hp]
        cases hu'
        exact ⟨rfl, List.mem_append_right _ List.mem_cons_self⟩
      · refine (reported_of_completed hs.faithful hu' i hi).imp_right ?_
        rintro ⟨r, hr, -⟩
        exact absurd hr List.not_mem_nil
      · exact htold rfl rfl rfl rfl
  | arrives k =>
    obtain ⟨r, hk, h⟩ := Option.bind_eq_some_iff.mp h
    obtain ⟨node, hnode, rfl⟩ := Option.map_eq_some_iff.mp h
    have hr := hs.faithful.reports r (List.mem_of_getElem? hk)
    refine hs.next [] hfaithful hs.serving le_rfl (fun _ => id) (List.append_nil _).symm
      (fun _ hp => absurd hp List.not_mem_nil) (fun _ => Or.inl) fun p hp hne htold => ?_
    have hshown := shown_handlePrimary hnode (rfl : ScanView.node { s with
      node
      reports := advance s.reports k none } = node) p.2.containerId
    rcases htold with ⟨r', hr', heq⟩ | hshows
    · rcases mem_advance hk hr' none with rfl | hrest
      · -- this is the report, and it is about the container
        obtain ⟨run, _, hscan, -⟩ := id hr
        have hcontainer := ((hs.faithful.scanned _ hscan).2 p.2 (heq ▸ hp)).1
        rw [ScanReport.event, MasterNode.vulnsWrite, hcontainer, if_neg hne, written,
          if_pos rfl] at hshown
        exact Or.inr ⟨_, hshown, hcontainer ▸ hr.foundFor⟩
      · exact Or.inl ⟨r', hrest, heq⟩
    · exact Or.inr (shows_of_written hshown (fun d w => hr.foundFor_of_event) (fun _ => id) hshows)
  | lost k => cases hl
  | node e =>
    rw [step] at h
    split_ifs at h with he
    obtain ⟨node, hnode, rfl⟩ := Option.map_eq_some_iff.mp h
    refine hs.next [] hfaithful hs.serving le_rfl (fun _ => id) (List.append_nil _).symm
      (fun _ hp => absurd hp List.not_mem_nil) (fun _ => Or.inl) fun p hp hne htold => ?_
    refine htold.imp_right (shows_of_written (shown_handlePrimary hnode rfl _) ?_ ?_)
    · exact fun d w hw => foundFor_of_vulnsWrite (Bool.not_eq_true _ ▸ he) hw fun p hp =>
        List.mem_append_right _ hp
    · exact fun v hfound => hfound.mono (fun _ => id) fun p hp => List.mem_append_left _ hp

theorem start_telling (sha256Text : String → String) (n : ℕ) (q : StartQueue) (now : Time)
    (store : StateStore) (listenerClient engineClient : Bool) :
    (start n q now store listenerClient engineClient).Telling sha256Text store n where
  faithful := start_faithful sha256Text n q now store listenerClient engineClient
  serving := SchedulerState.start_serving n q now
  accepted := fun _ hp => absurd hp List.not_mem_nil
  finished := fun _ hi => absurd hi List.not_mem_nil
  told := fun _ hp => absurd hp List.not_mem_nil

/-! ## The steps of the processes -/

/-- A step that the processes take by themselves, without a failure.  The scan of a task comes to
what `trivy` says. -/
def Own (trivy : RunTask → TrivyRun) (s : ScanView) : ScanLabel → Prop
  | .scheduler l => l.own = true
  | .scan i run _ _ => ∃ task, s.scheduler.runs[i]? = some task ∧ run = trivy task
  | .arrives _ => True
  | _ => False

/-- Such steps lead from one state to the other. -/
abbrev Shows (sha256Text : String → String) (trivy : RunTask → TrivyRun) :
    ScanView → ScanView → Prop :=
  Machine.Reaches (step sha256Text) (Own trivy)

variable {trivy : RunTask → TrivyRun}

/-- The scheduler's own steps are steps of the whole. -/
theorem exists_own (hs : s.Telling sha256Text store n) {l : SchedulerLabel} {u : SchedulerState}
    (hl : s.scheduler.Own (fun run => timedResult run.workerId run.job (trivy run) "" 0) l)
    (h : s.scheduler.step l = some u) :
    ∃ k t, s.Own trivy k ∧ s.step sha256Text k = some t ∧ t.Telling sha256Text store n ∧
      t.asked = s.asked ∧ t.scheduler = u := by
  cases hreturns : l.returns with
  | false =>
    have hstep : s.step sha256Text (.scheduler l) = some { s with
        scheduler := u
        reports := s.reports ++ s.scheduler.reportsOf l } := by
      simp only [step, hreturns, h, Option.map_some]
      rfl
    have hreliable : (ScanLabel.scheduler l).reliable = true := SchedulerState.ok_of_own hl.own
    exact ⟨.scheduler l, _, hl.own, hstep, step_telling hs hreliable hstep, rfl, rfl⟩
  | true =>
    obtain ⟨i, result, rfl⟩ := SchedulerLabel.exists_of_returns hreturns
    obtain ⟨run, hrun, rfl⟩ := hl.answers i result rfl
    have hstep : s.step sha256Text (.scan i (trivy run) "" 0) = some { s with
        scheduler := u
        scans := s.scans ++ [(run.job, trivy run)] } := by
      simp only [step, hrun, Option.bind_some, h, Option.map_some]
    exact ⟨.scan i (trivy run) "" 0, _, ⟨run, hrun, rfl⟩, hstep, step_telling hs rfl hstep, rfl,
      rfl⟩

/-- The scheduler completes all that it has accepted. -/
theorem reaches_quiescent (hn : 0 < n) (hs : s.Telling sha256Text store n)
    (trivy : RunTask → TrivyRun) :
    ∃ t, Shows sha256Text trivy s t ∧ t.Telling sha256Text store n ∧ t.asked = s.asked ∧
      t.scheduler.Quiescent := by
  obtain ⟨u, hu, -, -, hquiescent⟩ := hs.serving.drains hn
    fun run => timedResult run.workerId run.job (trivy run) "" 0
  have hlift : ∃ t, Shows sha256Text trivy s t ∧
      (t.Telling sha256Text store n ∧ t.asked = s.asked) ∧ t.scheduler = u := by
    refine Machine.Reaches.lift
      (J := fun t : ScanView => t.Telling sha256Text store n ∧ t.asked = s.asked)
      ScanView.scheduler ?_ hu ⟨hs, rfl⟩
    rintro a l u' ⟨ha, hasked⟩ hl hstep
    obtain ⟨k, b, hk, hb, htelling, hasked', hpart⟩ := exists_own ha hl hstep
    exact ⟨k, b, hk, hb, ⟨htelling, hasked'.trans hasked⟩, hpart⟩
  obtain ⟨t, ht, ⟨htelling, hasked⟩, rfl⟩ := hlift
  exact ⟨t, ht, htelling, hasked, hquiescent⟩

/-- The first report arrives. -/
theorem exists_arrival (hs : s.Telling sha256Text store n) (hpos : 0 < s.reports.length) :
    ∃ t, s.step sha256Text (.arrives 0) = some t ∧ t.Telling sha256Text store n ∧
      t.asked = s.asked ∧ t.scheduler = s.scheduler ∧ t.reports.length < s.reports.length := by
  obtain ⟨r, rest, hreports⟩ := List.exists_cons_of_length_pos hpos
  have hstep : ∃ node, s.step sha256Text (.arrives 0) = some { s with
      node
      reports := rest } := by
    simp only [step, hreports, List.getElem?_cons_zero, Option.bind_some, ScanReport.event,
      MasterNode.handlePrimary, Option.map_some, advance, List.eraseIdx_cons_zero]
    exact ⟨_, rfl⟩
  obtain ⟨node, hstep⟩ := hstep
  refine ⟨_, hstep, step_telling hs rfl hstep, rfl, rfl, ?_⟩
  rw [hreports]
  exact Nat.lt_succ_self _

/-- The reports that are on their way arrive. -/
theorem reaches_reported (hs : s.Telling sha256Text store n) (trivy : RunTask → TrivyRun) :
    ∃ t, Shows sha256Text trivy s t ∧ t.Telling sha256Text store n ∧ t.asked = s.asked ∧
      t.scheduler = s.scheduler ∧ t.reports = [] := by
  have hreported : ∃ t, Shows sha256Text trivy s t ∧ (t.Telling sha256Text store n ∧
      t.asked = s.asked ∧ t.scheduler = s.scheduler) ∧ t.reports.length = 0 := by
    refine Machine.reaches_of_measure
      (I := fun t : ScanView => t.Telling sha256Text store n ∧ t.asked = s.asked ∧
        t.scheduler = s.scheduler)
      (fun t : ScanView => t.reports.length) ?_ ⟨hs, rfl, rfl⟩
    rintro t ⟨ht, hasked, hscheduler⟩ hpos
    obtain ⟨t', hstep, ht', hasked', hscheduler', hlt⟩ := exists_arrival ht hpos
    exact ⟨.arrives 0, t', trivial, hstep, ⟨ht', hasked'.trans hasked,
      hscheduler'.trans hscheduler⟩, hlt⟩
  obtain ⟨t, ht, ⟨htelling, hasked, hscheduler⟩, hzero⟩ := hreported
  exact ⟨t, ht, htelling, hasked, hscheduler, List.length_eq_zero_iff.mp hzero⟩

/-- **Every container that a job was made for can show a result.**  On either queue backend, with
at least one worker asked for, and as long as nothing is lost (no Redis command of the queue
raises and no report is lost): from every state that a run reaches, whatever the remaining scans
come to, the processes can go on by themselves until the scheduler has nothing left to do and
every container with a job for its start event shows a result of its own. -/
theorem results_shown (sha256Text : String → String) (n : ℕ) (hn : 0 < n) (q : StartQueue)
    (now : Time) (store : StateStore) (listenerClient engineClient : Bool) (ls : List ScanLabel)
    (hls : ∀ l ∈ ls, l.reliable = true) (s : ScanView)
    (h : Machine.exec (step sha256Text) (start n q now store listenerClient engineClient) ls =
      some s) (trivy : RunTask → TrivyRun) :
    ∃ t, Shows sha256Text trivy s t ∧ t.asked = s.asked ∧ t.scheduler.Quiescent ∧
      ∀ i e, (i, e) ∈ t.asked → e.containerId ≠ "" →
        ∃ v, t.shown e.containerId = some v ∧ t.FoundFor e.containerId v := by
  have hs : s.Telling sha256Text store n :=
    Machine.exec_invariant_of_labels (fun _ _ _ hs hl hstep => step_telling hs hl hstep)
      (start_telling sha256Text n q now store listenerClient engineClient) hls h
  obtain ⟨u, hu, hutelling, huasked, hquiescent⟩ := reaches_quiescent hn hs trivy
  obtain ⟨t, ht, httelling, htasked, hscheduler, hreports⟩ := reaches_reported hutelling trivy
  have hquiescent' : t.scheduler.Quiescent := hscheduler ▸ hquiescent
  refine ⟨t, hu.trans ht, htasked.trans huasked, hquiescent', fun i e he hne => ?_⟩
  have hcompleted := hquiescent'.completed i (httelling.accepted (i, e) he)
  rcases httelling.told (i, e) he hcompleted hne with ⟨r, hr, -⟩ | hshows
  · rw [hreports] at hr
    exact absurd hr List.not_mem_nil
  · exact hshows

/-- The job of a container has been accepted, and nobody works at it yet. -/
theorem results_shown_accepted :
    ∃ s, Machine.exec (step LayerRun.webDigest) (start 1 .redis 0 .empty true true)
        [.node (.own (.docker ⟨.start, "c1", some "web-1", some "nginx", none, 0⟩)),
          .node (.own (.cacheAnswered 0 none)), .push 0 true false] = some s ∧
      s.asked = [(1, ⟨.start, "c1", some "web-1", some "nginx", none, 0⟩)] ∧
      ∃ t, Shows LayerRun.webDigest (fun _ => .timesOut) s t ∧ t.asked = s.asked ∧
        t.scheduler.Quiescent ∧
        ∀ i e, (i, e) ∈ t.asked → e.containerId ≠ "" →
          ∃ v, t.shown e.containerId = some v ∧ t.FoundFor e.containerId v := by
  refine ⟨_, by with_unfolding_all rfl, by with_unfolding_all rfl, ?_⟩
  exact results_shown LayerRun.webDigest 1 (by decide) .redis 0 .empty true true
    [.node (.own (.docker ⟨.start, "c1", some "web-1", some "nginx", none, 0⟩)),
      .node (.own (.cacheAnswered 0 none)), .push 0 true false] (by decide) _
    (by with_unfolding_all rfl) _

end ScanView
end Rcsce
