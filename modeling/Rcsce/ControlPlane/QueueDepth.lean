import Rcsce.ControlPlane.StoreCalls
import Rcsce.Scheduler.InFlight

/-!
# The queue depth that is shown

The scheduler has the queue, and the control plane shows how deep it is.  It is told by
`_notify_queue_depth`, it polls `/health` every two seconds, and `/status` asks `/health` before
it answers.  All of these call `stats` in the scheduler and end in `set_queue_depth` in the
control plane, and whichever comes last is shown.

What is shown may be wrong.  On Redis `stats` is LLEN and then HLEN: a job that is taken from the
queue in between is counted twice, and one that is put back is not counted.  A command that raises
counts for nothing.  The reports overtake each other, and some are lost.

## The machine

The scheduler and the control plane take their steps.  `stats` may be called at any time, whoever
calls it; its answer is then on its way.

## Coming to rest

`depth_comes_to_rest` says that the errors go away with the jobs.  As long as no command of the
queue raises, the processes can go on by themselves until every accepted job is completed and the
depth that is shown is zero; and it stays so until something is enqueued, whatever else happens.
-/

namespace Rcsce

namespace JobQueue

/-- `depth_async`, with LLEN taking effect or raising. -/
def depthAsync : JobQueue → Bool → ℕ
  | .redis q, ok => if ok then q.pending.length else 0
  | .inMemory q, _ => q.queue.length

/-- `inflight_count`, with HLEN taking effect or raising. -/
def inflightCount : JobQueue → Bool → ℕ
  | .redis q, ok => if ok then q.inflight.size else 0
  | .inMemory q, _ => q.inFlight.size

theorem depthAsync_eq_zero {q : JobQueue} (h : q.pendingIds = []) (ok : Bool) :
    q.depthAsync ok = 0 := by
  cases q with
  | redis q =>
    have hnil : q.pending = [] := List.map_eq_nil_iff.mp h
    rw [depthAsync, hnil]
    exact ite_self 0
  | inMemory q =>
    have hnil : q.queue = [] := List.map_eq_nil_iff.mp h
    rw [depthAsync, hnil]
    rfl

theorem inflightCount_eq_zero {q : JobQueue} (h : ∀ i, i ∉ q.inFlight) (ok : Bool) :
    q.inflightCount ok = 0 := by
  have hsize : q.inFlight.size = 0 := by
    rw [← OrderedDict.length_keys, List.length_eq_zero_iff, List.eq_nil_iff_forall_not_mem]
    exact h
  cases q with
  | redis q =>
    rw [inflightCount, show q.inflight.size = 0 from hsize]
    exact ite_self 0
  | inMemory q => exact hsize

end JobQueue

/-- A depth on its way to the control plane. -/
inductive DepthReport where
  /-- In `stats`, between LLEN and HLEN. -/
  | counting (pending : ℕ)
  /-- In the POST of `_notify_queue_depth`, or in an answer of `/health`. -/
  | sent (depth : ℕ)

namespace DepthReport

/-- The report counts nothing so far. -/
def Zero : DepthReport → Prop
  | .counting pending => pending = 0
  | .sent depth => depth = 0

/-- How many steps it has to go. -/
def left : DepthReport → ℕ
  | .counting _ => 2
  | .sent _ => 1

end DepthReport

/-- The scheduler, the control plane, and the reports between them. -/
structure DepthView where
  scheduler : SchedulerState
  node : MasterNode
  reports : List DepthReport

/-- What can happen next. -/
inductive DepthLabel where
  | scheduler (l : SchedulerLabel)
  /-- `stats` is called: LLEN, or in memory the whole of it. -/
  | stats (ok : Bool)
  | hlen (k : ℕ) (ok : Bool)
  /-- `set_queue_depth` of `update_queue_depth`, of the poll or of `/status`. -/
  | arrives (k : ℕ)
  | lost (k : ℕ)
  /-- Something else happens in the control plane. -/
  | other (e : PrimaryEvent)

/-- The event sets the queue depth. -/
def PrimaryEvent.setsDepth : PrimaryEvent → Bool
  | .queueDepth _ => true
  | _ => false

namespace DepthView

/-- One step. -/
def step (sha256Text : String → String) (s : DepthView) : DepthLabel → Option DepthView
  | .scheduler l => (s.scheduler.step l).map fun t => { s with scheduler := t }
  | .stats ok =>
      let pending := s.scheduler.queue.depthAsync ok
      match s.scheduler.queue with
      | .redis _ => some { s with reports := s.reports ++ [.counting pending] }
      | .inMemory _ => some { s with
          reports := s.reports ++ [.sent (pending + s.scheduler.queue.inflightCount ok)] }
  | .hlen k ok =>
      match s.reports[k]? with
      | some (.counting pending) => some { s with
          reports := advance s.reports k
            (some (.sent (pending + s.scheduler.queue.inflightCount ok))) }
      | _ => none
  | .arrives k =>
      match s.reports[k]? with
      | some (.sent depth) =>
          (s.node.handlePrimary sha256Text (.queueDepth (.num depth))).map fun node => { s with
            node
            reports := advance s.reports k none }
      | _ => none
  | .lost k =>
      match s.reports[k]? with
      | some (.sent _) => some { s with reports := advance s.reports k none }
      | _ => none
  | .other e =>
      if e.setsDepth then none
      else (s.node.handlePrimary sha256Text e).map fun node => { s with node }

/-- The depth that `/status` and the dashboard show. -/
def shown (s : DepthView) : Json := s.node.store.queueDepth

/-- The two processes have just started.  The store has the depth of the process before. -/
def start (n : ℕ) (q : StartQueue) (now : Time) (store : StateStore)
    (listenerClient engineClient : Bool) : DepthView where
  scheduler := .start n q now
  node := (MasterNode.new store.clearAllWorkers listenerClient engineClient).listen
  reports := []

end DepthView

/-- No other event touches the depth. -/
theorem MasterNode.queueDepth_handlePrimary {sha256Text : String → String} {m m' : MasterNode}
    {e : PrimaryEvent} (he : e.setsDepth = false) (h : m.handlePrimary sha256Text e = some m') :
    m'.store.queueDepth = m.store.queueDepth := by
  have hnone : ∀ depth, .setQueueDepth depth ∉ m.calls sha256Text e := by
    intro depth hmem
    cases e with
    | own e =>
      cases e with
      | docker e => cases ha : e.action <;>
          simp [calls, ha, DockerEvent.startCalls, DockerEvent.stoppedCalls] at hmem
      | cacheAnswered k hit => cases hk : m.lookups[k]? <;> cases hit <;>
          simp [calls, hk, DockerEvent.hitCalls] at hmem
      | pushed k jobId => cases hk : m.pushes[k]? <;> simp [calls, hk] at hmem
      | failedOver k replica recovered => cases hk : m.failovers[k]? <;>
          simp [calls, hk, Failover.calls] at hmem
      | failoverRaised k error => cases hk : m.failovers[k]? <;>
          simp [calls, hk, Failover.errorCalls] at hmem
      | markCritical | anomaly => simp [calls] at hmem
    | workerHeartbeat | workerDead => simp [calls] at hmem
    | scanComplete containerId vulns status =>
      by_cases hempty : containerId = "" <;> simp [calls, hempty] at hmem
    | queueDepth => cases he
  have hholds : (m.store.perform (m.calls sha256Text e)).Holds
      (.queueDepth m'.store.queueDepth) := by
    rw [← store_handlePrimary h]
    rfl
  rcases StateStore.holds_perform _ _ _ hholds with hold | ⟨c, hc, hsays⟩
  · exact hold.symm
  · cases c with
    | setQueueDepth depth => exact absurd hc (hnone depth)
    | _ => exact hsays.elim

namespace DepthView

variable {sha256Text : String → String} {s s' t : DepthView} {answer : RunTask → Json}

/-! ## Nothing to count -/

/-- There is nothing to count, and no report says otherwise. -/
structure CountsNothing (s : DepthView) : Prop where
  rest : s.scheduler.AtRest
  reports : ∀ r ∈ s.reports, r.Zero
  shown : s.shown = .num 0

/-- **Nothing but an enqueue changes this**, whatever Redis and the network do. -/
theorem CountsNothing.step {l : DepthLabel} (hs : s.CountsNothing)
    (hl : ∀ c im name, l ≠ .scheduler (.enqueue c im name))
    (h : s.step sha256Text l = some s') : s'.CountsNothing := by
  have hwritten : ∀ {k : ℕ} {r : DepthReport} (next : Option DepthReport), s.reports[k]? = some r →
      (∀ r', next = some r' → r'.Zero) → ∀ r' ∈ advance s.reports k next, r'.Zero := by
    intro k r next hget hnext r' hr'
    rcases mem_of_mem_advance hget hr' with hnew | hold
    · exact hnext r' hnew
    · exact hs.reports r' hold
  cases l with
  | scheduler l =>
    obtain ⟨u, hu, rfl⟩ := Option.map_eq_some_iff.mp h
    exact ⟨hs.rest.step (fun c im name heq => hl c im name (congrArg _ heq)) hu, hs.reports,
      hs.shown⟩
  | stats ok =>
    have hpending := JobQueue.depthAsync_eq_zero hs.rest.pending ok
    have hflight := JobQueue.inflightCount_eq_zero hs.rest.inFlight ok
    have hcalled : ∀ r : DepthReport, r.Zero →
        CountsNothing { s with reports := s.reports ++ [r] } := by
      refine fun r hr => ⟨hs.rest, fun r' hr' => ?_, hs.shown⟩
      rcases List.mem_append.mp hr' with hold | hnew
      · exact hs.reports r' hold
      · exact List.mem_singleton.mp hnew ▸ hr
    rw [DepthView.step] at h
    split at h
    · cases h
      exact hcalled _ hpending
    · cases h
      exact hcalled _ (Nat.add_eq_zero_iff.mpr ⟨hpending, hflight⟩)
  | hlen k ok =>
    rw [DepthView.step] at h
    split at h
    · rename_i pending hget
      cases h
      refine ⟨hs.rest, hwritten (some _) hget fun r' hr' => ?_, hs.shown⟩
      obtain rfl := Option.some.inj hr'
      have hzero : DepthReport.Zero (.counting pending) := hs.reports _ (List.mem_of_getElem? hget)
      exact Nat.add_eq_zero_iff.mpr ⟨hzero, JobQueue.inflightCount_eq_zero hs.rest.inFlight ok⟩
    · cases h
  | arrives k =>
    rw [DepthView.step] at h
    split at h
    · rename_i depth hget
      obtain rfl : depth = 0 := hs.reports _ (List.mem_of_getElem? hget)
      cases h
      exact ⟨hs.rest, hwritten none hget nofun, rfl⟩
    · cases h
  | lost k =>
    rw [DepthView.step] at h
    split at h
    · rename_i depth hget
      cases h
      exact ⟨hs.rest, hwritten none hget nofun, hs.shown⟩
    · cases h
  | other e =>
    rw [DepthView.step] at h
    split_ifs at h with he
    obtain ⟨node, hnode, rfl⟩ := Option.map_eq_some_iff.mp h
    refine ⟨hs.rest, hs.reports, ?_⟩
    exact (MasterNode.queueDepth_handlePrimary (Bool.not_eq_true _ ▸ he) hnode).trans hs.shown

/-! ## The way there -/

/-- A step that the processes take by themselves, without a failure; the scan of a task returns
`answer`. -/
def Unaided (answer : RunTask → Json) (s : DepthView) : DepthLabel → Prop
  | .scheduler l => s.scheduler.Settling answer l
  | .stats ok | .hlen _ ok => ok = true
  | .arrives _ => True
  | .lost _ | .other _ => False

/-- What the reports have to go. -/
def toArrive (s : DepthView) : ℕ := (s.reports.map DepthReport.left).sum

/-- The first report goes one step. -/
theorem exists_report_step {r : DepthReport} {rest : List DepthReport}
    (hreports : s.reports = r :: rest) :
    ∃ l t, s.Unaided answer l ∧ s.step sha256Text l = some t ∧ t.scheduler = s.scheduler ∧
      t.toArrive < s.toArrive ∧
        ((∃ pending, r = .counting pending ∧ t.reports =
            .sent (pending + s.scheduler.queue.inflightCount true) :: rest) ∨
          ∃ depth : ℕ, r = .sent depth ∧ t.reports = rest ∧ t.shown = .num depth) := by
  cases r with
  | counting pending =>
    refine ⟨.hlen 0 true, { s with
      reports := .sent (pending + s.scheduler.queue.inflightCount true) :: rest }, rfl, ?_, rfl, ?_,
      Or.inl ⟨pending, rfl, rfl⟩⟩
    · simp only [step, hreports, List.getElem?_cons_zero, advance, List.set_cons_zero]
    · rw [toArrive, toArrive, hreports, List.map_cons, List.map_cons, List.sum_cons, List.sum_cons]
      exact Nat.add_lt_add_right Nat.one_lt_two _
  | sent depth =>
    refine ⟨.arrives 0, { s with
      node := { s.node with store := s.node.store.setQueueDepth (.num depth) }
      reports := rest }, trivial, ?_, rfl, ?_, Or.inr ⟨depth, rfl, rfl, rfl⟩⟩
    · simp only [step, hreports, List.getElem?_cons_zero, MasterNode.handlePrimary,
        Option.map_some, advance, List.eraseIdx_cons_zero]
    · rw [toArrive, toArrive, hreports, List.map_cons, List.sum_cons]
      exact Nat.lt_add_of_pos_left Nat.one_pos

/-- The reports that are on their way arrive, and the last one of them counts nothing. -/
structure Arriving (scheduler : SchedulerState) (s : DepthView) : Prop where
  same : s.scheduler = scheduler
  last : ∀ r, s.reports.getLast? = some r → r.Zero
  shown : s.reports = [] → s.shown = .num 0

variable (sha256Text) in
theorem exists_arriving_step {scheduler : SchedulerState} (hrest : scheduler.AtRest)
    (s : DepthView) (hs : Arriving scheduler s) (hpos : 0 < s.toArrive) :
    ∃ l t, s.Unaided answer l ∧ s.step sha256Text l = some t ∧ Arriving scheduler t ∧
      t.toArrive < s.toArrive := by
  have hflight := JobQueue.inflightCount_eq_zero hrest.inFlight true
  cases hreports : s.reports with
  | nil =>
    rw [toArrive, hreports] at hpos
    exact absurd hpos (Nat.lt_irrefl 0)
  | cons r rest =>
    obtain ⟨l, t, hl, hstep, hsame, hlt, hnext⟩ := exists_report_step hreports
    refine ⟨l, t, hl, hstep, ⟨hsame.trans hs.same, fun r' hr' => ?_, fun hempty => ?_⟩, hlt⟩
    · -- the last report is the old one, unless this was the only one
      have hlast := hs.last
      rw [hreports] at hlast
      rcases hnext with ⟨pending, rfl, ht⟩ | ⟨depth, -, ht, -⟩
      · rw [ht] at hr'
        cases rest with
        | nil =>
          obtain rfl := Option.some.inj hr'
          have hzero : pending = 0 := hlast _ rfl
          exact Nat.add_eq_zero_iff.mpr ⟨hzero, hs.same ▸ hflight⟩
        | cons r₂ rest =>
          rw [List.getLast?_cons_cons] at hr'
          exact hlast r' (by rw [List.getLast?_cons_cons, hr'])
      · rw [ht] at hr'
        cases rest with
        | nil => cases hr'
        | cons r₂ rest => exact hlast r' (by rw [List.getLast?_cons_cons, hr'])
    · rcases hnext with ⟨pending, -, ht⟩ | ⟨depth, rfl, ht, hshown⟩
      · cases ht.symm.trans hempty
      · rw [ht] at hempty
        have hzero : depth = 0 := hs.last (.sent depth) (by rw [hreports, hempty]; rfl)
        rw [hshown, hzero]
        rfl

/-- Once the scheduler is at rest, one more call of `stats` is enough. -/
theorem reaches_countsNothing (sha256Text : String → String) (answer : RunTask → Json)
    (hs : s.scheduler.AtRest) :
    ∃ t, Machine.Reaches (step sha256Text) (Unaided answer) s t ∧ t.scheduler = s.scheduler ∧
      t.CountsNothing := by
  have hpending := JobQueue.depthAsync_eq_zero hs.pending true
  have hflight := JobQueue.inflightCount_eq_zero hs.inFlight true
  obtain ⟨r, hr, hstep⟩ : ∃ r : DepthReport, r.Zero ∧
      s.step sha256Text (.stats true) = some { s with reports := s.reports ++ [r] } := by
    cases hq : s.scheduler.queue with
    | redis q => exact ⟨.counting _, hpending, by simp only [step, hq]⟩
    | inMemory q =>
      exact ⟨.sent _, Nat.add_eq_zero_iff.mpr ⟨hpending, hflight⟩, by simp only [step, hq]⟩
  have harriving : Arriving s.scheduler { s with reports := s.reports ++ [r] } := by
    refine ⟨rfl, fun r' hr' => ?_, fun hempty => ?_⟩
    · rw [List.getLast?_concat] at hr'
      exact Option.some.inj hr' ▸ hr
    · exact absurd hempty (List.append_ne_nil_of_right_ne_nil _ (List.cons_ne_nil r []))
  obtain ⟨t, ht, harrived, hzero⟩ := Machine.reaches_of_measure (L := Unaided answer) toArrive
    (exists_arriving_step sha256Text hs) harriving
  have hnil : t.reports = [] := by
    cases hreports : t.reports with
    | nil => rfl
    | cons r' rest =>
      have hleft : 0 < r'.left := by cases r' <;> exact Nat.succ_pos _
      rw [toArrive, hreports, List.map_cons, List.sum_cons] at hzero
      omega
  refine ⟨t, ht.head (l := .stats true) rfl hstep, harrived.same, harrived.same ▸ hs,
    fun r' hr' => ?_, harrived.shown hnil⟩
  rw [hnil] at hr'
  cases hr'

/-! ## Coming to rest -/

/-- What the scheduler keeps, as long as no command of the queue raises. -/
theorem step_scheduler {n : ℕ} {l : DepthLabel}
    (hs : s.scheduler.Serving n ∧ s.scheduler.Attended)
    (hl : ∀ l', l = .scheduler l' → l'.ok = true) (h : s.step sha256Text l = some s') :
    s'.scheduler.Serving n ∧ s'.scheduler.Attended := by
  cases l with
  | scheduler l =>
    obtain ⟨t, ht, rfl⟩ := Option.map_eq_some_iff.mp h
    exact SchedulerState.step_serving_attended hs (hl l rfl) ht
  | stats ok =>
    rw [step] at h
    split at h <;> (cases h; exact hs)
  | hlen k ok | arrives k | lost k =>
    rw [step] at h
    split at h
    · cases h
      exact hs
    · cases h
  | other e =>
    rw [step] at h
    split_ifs at h
    obtain ⟨node, -, rfl⟩ := Option.map_eq_some_iff.mp h
    exact hs

/-- **The depth that is shown comes to rest at zero.** -/
theorem depth_comes_to_rest (sha256Text : String → String) (n : ℕ) (hn : 0 < n) (q : StartQueue)
    (now : Time) (store : StateStore) (listenerClient engineClient : Bool) (ls : List DepthLabel)
    (hls : ∀ l, .scheduler l ∈ ls → l.ok = true) (s : DepthView)
    (h : Machine.exec (step sha256Text) (start n q now store listenerClient engineClient) ls =
      some s) (answer : RunTask → Json) :
    ∃ t, Machine.Reaches (step sha256Text) (Unaided answer) s t ∧
      t.scheduler.enqueued = s.scheduler.enqueued ∧ t.scheduler.Quiescent ∧
        ∀ ls' u, (∀ c im name, .scheduler (.enqueue c im name) ∉ ls') →
          Machine.exec (step sha256Text) t ls' = some u → u.shown = .num 0 := by
  obtain ⟨hserving, hattended⟩ := Machine.exec_invariant_of_labels
    (I := fun s => s.scheduler.Serving n ∧ s.scheduler.Attended)
    (C := fun l => ∀ l', l = .scheduler l' → l'.ok = true)
    (fun _ _ _ hs hl hstep => step_scheduler hs hl hstep)
    ⟨SchedulerState.start_serving n q now, SchedulerState.start_attended n q now⟩
    (fun _ hl l' heq => hls l' (by rwa [heq] at hl)) h
  obtain ⟨u, hu, henqueued, hquiescent, hrest⟩ := hserving.settles hn hattended answer
  -- the steps of the scheduler are steps of the whole
  have hlift : ∃ r, Machine.Reaches (step sha256Text) (Unaided answer) s r ∧ True ∧
      r.scheduler = u := by
    refine Machine.Reaches.lift (J := fun _ => True) scheduler (fun a l s' _ hl hstep => ?_) hu
      trivial
    refine ⟨.scheduler l, { a with scheduler := s' }, hl, ?_, trivial, rfl⟩
    rw [step, hstep, Option.map_some]
  obtain ⟨r, hr, -, hscheduler⟩ := hlift
  obtain ⟨t, ht, hsame, hnothing⟩ := reaches_countsNothing sha256Text answer (s := r)
    (hscheduler ▸ hrest)
  rw [hscheduler] at hsame
  refine ⟨t, hr.trans ht, hsame ▸ henqueued, hsame ▸ hquiescent, fun ls' u hls' hexec => ?_⟩
  refine (Machine.exec_invariant_of_labels (I := CountsNothing)
    (C := fun l => ∀ c im name, l ≠ .scheduler (.enqueue c im name))
    (fun _ _ _ hs hl hstep => hs.step hl hstep) hnothing ?_ hexec).shown
  rintro l hl c im name rfl
  exact hls' c im name hl

/-- The only job is counted in the queue and, after it has been taken, in the hash. -/
theorem depth_comes_to_rest_double :
    ∃ s, Machine.exec (step fun _ => "") (start 1 .redis 0 .empty true true)
        [.scheduler (.enqueue "c1" "sha256:1" "nginx"), .stats true,
          .scheduler (.dispatch true), .scheduler (.dispatch true), .scheduler (.dispatch true),
          .hlen 0 true, .arrives 0] = some s ∧
      s.scheduler.enqueued = [1] ∧ s.shown = .num 2 ∧
      ∃ t, Machine.Reaches (step fun _ => "") (Unaided fun _ => .null) s t ∧
        t.scheduler.enqueued = s.scheduler.enqueued ∧ t.scheduler.Quiescent ∧
          ∀ ls' u, (∀ c im name, .scheduler (.enqueue c im name) ∉ ls') →
            Machine.exec (step fun _ => "") t ls' = some u → u.shown = .num 0 := by
  refine ⟨_, by with_unfolding_all rfl, rfl, by with_unfolding_all rfl, ?_⟩
  refine depth_comes_to_rest (fun _ => "") 1 (by decide) .redis 0 .empty true true
    [.scheduler (.enqueue "c1" "sha256:1" "nginx"), .stats true,
      .scheduler (.dispatch true), .scheduler (.dispatch true), .scheduler (.dispatch true),
      .hlen 0 true, .arrives 0] ?_ _ (by with_unfolding_all rfl) _
  simp [SchedulerLabel.ok]

end DepthView
end Rcsce
