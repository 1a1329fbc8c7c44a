import Rcsce.Lib.Machine
import Rcsce.Lib.OrderedDict

/-!
# The log monitors and their registry

`LogMonitor` of `control_plane/core/log_monitor.py` at the granularity of event-loop steps.
`start_monitoring` creates a task and registers it, `stop_monitoring` takes it out of the
registry and requests its cancellation, and the task itself goes on in steps of its own: it
may not have begun yet, it waits for the next chunk, and it ends when the stream does, when
something raises, or when the cancellation is delivered.

A task that is cancelled before its first step never enters its `try`; any other task
that ends takes its container out of the registry, whoever is registered there by then.

## The result

What is registered is always live (`Consistent`).  The converse, that every live task is
registered, is what the clean-up of another task can undo: `tracked_iff` says that it holds
in all states of a run exactly when no clean-up ever finds another task in the place of its
own.
-/

namespace Rcsce

/-- Where a stream task is. -/
inductive StreamStage where
  /-- It has been created and has not begun. -/
  | created
  /-- It waits inside its `try`. -/
  | streaming
  deriving DecidableEq

/-- A task of `_stream_logs` that has not finished. -/
structure StreamTask where
  containerId : String
  containerName : String
  imageName : String
  stage : StreamStage
  cancelRequested : Bool
  deriving DecidableEq

/-- `LogMonitor`, with the tasks that it has created. -/
structure LogMonitor where
  /-- There is a Docker client. -/
  client : Bool
  activeStreams : OrderedDict String ℕ
  /-- The tasks that have not finished. -/
  tasks : OrderedDict ℕ StreamTask
  nextTask : ℕ
  deriving DecidableEq

/-- What can happen next. -/
inductive MonitorLabel where
  | start (containerId containerName imageName : String)
  | stop (containerId : String)
  /-- A task takes a step; `ends` says whether its stream ends or something raises. -/
  | run (task : ℕ) (ends : Bool)
  deriving DecidableEq

/-- The exclusion rule of `start_monitoring`. -/
def excluded (containerName : String) : Bool :=
  "rcsce-".toList.isPrefixOf containerName.toList ||
    decide ("master-node".toList <:+: containerName.toList)

namespace LogMonitor

/-- `LogMonitor.__init__`. -/
def new (client : Bool) : LogMonitor := ⟨client, .empty, .empty, 0⟩

/-- `start_monitoring`. -/
def startMonitoring (s : LogMonitor) (containerId containerName imageName : String) :
    LogMonitor :=
  if !s.client then s
  else if excluded containerName then s
  else if containerId ∈ s.activeStreams then s
  else { s with
    activeStreams := s.activeStreams.set containerId s.nextTask
    tasks := s.tasks.set s.nextTask ⟨containerId, containerName, imageName, .created, false⟩
    nextTask := s.nextTask + 1 }

/-- `stop_monitoring`. -/
def stopMonitoring (s : LogMonitor) (containerId : String) : LogMonitor :=
  match s.activeStreams.get? containerId with
  | some task => { s with
      activeStreams := s.activeStreams.erase containerId
      tasks := s.tasks.modify task fun t => { t with cancelRequested := true } }
  | none => s

end LogMonitor

namespace StreamTask

/-- The task finishes in this step. -/
def finishes (t : StreamTask) (ends : Bool) : Bool := t.cancelRequested || ends

/-- The task reaches its `finally` in this step. -/
def cleansUp (t : StreamTask) (ends : Bool) : Bool :=
  t.finishes ends && !(t.cancelRequested && t.stage = .created)

end StreamTask

namespace LogMonitor

/-- A step of a task. -/
def runTask (s : LogMonitor) (task : ℕ) (t : StreamTask) (ends : Bool) : LogMonitor :=
  if t.finishes ends then { s with
    activeStreams :=
      if t.cleansUp ends then s.activeStreams.erase t.containerId else s.activeStreams
    tasks := s.tasks.erase task }
  else { s with tasks := s.tasks.set task { t with stage := .streaming } }

/-- One step. -/
def step (s : LogMonitor) : MonitorLabel → Option LogMonitor
  | .start containerId containerName imageName =>
      some (s.startMonitoring containerId containerName imageName)
  | .stop containerId => some (s.stopMonitoring containerId)
  | .run task ends => (s.tasks.get? task).map fun t => s.runTask task t ends

/-- The task is one of the container, has not finished, and is not to be cancelled. -/
def Live (s : LogMonitor) (task : ℕ) (containerId : String) : Prop :=
  ∃ t, s.tasks.get? task = some t ∧ t.containerId = containerId ∧ t.cancelRequested = false

/-- A container has at most one live task, and this one is registered. -/
structure Tracked (s : LogMonitor) : Prop where
  unique : ∀ c i j, s.Live i c → s.Live j c → i = j
  registered : ∀ c i, s.Live i c → s.activeStreams.get? c = some i

/-- A clean-up finds its own task in the registry, or none. -/
def CleansOwn (s : LogMonitor) (l : MonitorLabel) (_ : LogMonitor) : Prop :=
  ∀ i t ends, l = .run i ends → s.tasks.get? i = some t → t.cleansUp ends →
    s.activeStreams.get? t.containerId = none ∨ s.activeStreams.get? t.containerId = some i

/-- What is registered is live, and new tasks are new. -/
structure Consistent (s : LogMonitor) : Prop where
  live : ∀ c i, s.activeStreams.get? c = some i → s.Live i c
  fresh : ∀ i ∈ s.tasks, i < s.nextTask

theorem tracked_iff_registered {s : LogMonitor} :
    s.Tracked ↔ ∀ c i, s.Live i c → s.activeStreams.get? c = some i := by
  refine ⟨Tracked.registered, fun h => ⟨fun c i j hi hj => ?_, h⟩⟩
  exact Option.some.inj ((h c i hi).symm.trans (h c j hj))

/-! ## What a step does -/

variable {s s' : LogMonitor} {l : MonitorLabel}

/-- A task is live for one container. -/
theorem Live.container_unique {i : ℕ} {c d : String} (hc : s.Live i c) (hd : s.Live i d) :
    c = d := by
  obtain ⟨t, ht, rfl, -⟩ := hc
  obtain ⟨u, hu, rfl, -⟩ := hd
  rw [Option.some.inj (ht.symm.trans hu)]

/-- The moves, with what they do to the registry and to the live tasks. -/
inductive Move (s : LogMonitor) : MonitorLabel → LogMonitor → Prop
  | idle (l : MonitorLabel) (hl : ∀ i ends, l ≠ .run i ends) : Move s l s
  | starts (c n image : String) (s' : LogMonitor) (hfree : s.activeStreams.get? c = none)
      (hstreams : s'.activeStreams = s.activeStreams.set c s.nextTask)
      (hlive : ∀ i d, s'.Live i d ↔ (i = s.nextTask ∧ d = c) ∨ s.Live i d)
      (hfresh : ∀ i ∈ s'.tasks, i < s'.nextTask) : Move s (.start c n image) s'
  | stops (c : String) (k : ℕ) (s' : LogMonitor) (hk : s.activeStreams.get? c = some k)
      (hstreams : s'.activeStreams = s.activeStreams.erase c)
      (hlive : ∀ i d, s'.Live i d ↔ i ≠ k ∧ s.Live i d)
      (hfresh : ∀ i ∈ s'.tasks, i < s'.nextTask) : Move s (.stop c) s'
  | runs (k : ℕ) (t : StreamTask) (ends : Bool) (s' : LogMonitor) (hk : s.tasks.get? k = some t)
      (hstreams : s'.activeStreams =
        if t.cleansUp ends then s.activeStreams.erase t.containerId else s.activeStreams)
      (hlive : ∀ i d, s'.Live i d ↔ ¬ (i = k ∧ t.finishes ends) ∧ s.Live i d)
      (hfresh : ∀ i ∈ s'.tasks, i < s'.nextTask) : Move s (.run k ends) s'

/-- Every step is one of the moves. -/
theorem step_cases (hs : s.Consistent) (h : s.step l = some s') : s.Move l s' := by
  cases l with
  | start c n image =>
    have hidle : s.Move (.start c n image) s := .idle _ fun _ _ => by simp
    cases h
    rw [startMonitoring]
    split_ifs with hclient hname hmem
    · exact hidle
    · exact hidle
    · exact hidle
    have hnew : s.nextTask ∉ s.tasks := fun hin => absurd (hs.fresh _ hin) (lt_irrefl _)
    refine .starts c n image _ (OrderedDict.get?_eq_none_iff.mpr hmem) rfl (fun i d => ?_) ?_
    · by_cases hi : i = s.nextTask
      · subst hi
        constructor
        · rintro ⟨t, ht, rfl, -⟩
          obtain rfl := Option.some.inj ((OrderedDict.get?_set_self _ _ _).symm.trans ht)
          exact Or.inl ⟨rfl, rfl⟩
        · rintro (⟨-, rfl⟩ | ⟨t, ht, -⟩)
          · exact ⟨_, OrderedDict.get?_set_self _ _ _, rfl, rfl⟩
          · exact absurd (OrderedDict.mem_of_get? ht) hnew
      · simp [Live, OrderedDict.get?_set_of_ne _ _ hi, hi]
    · intro i hi
      rcases OrderedDict.mem_set.mp hi with rfl | hold
      · exact Nat.lt_succ_self _
      · exact Nat.lt_succ_of_lt (hs.fresh i hold)
  | stop c =>
    cases h
    rw [stopMonitoring]
    split
    · rename_i k hk
      refine .stops c k _ hk rfl (fun i d => ?_) fun i hi =>
        hs.fresh i (OrderedDict.mem_modify.mp hi)
      by_cases hi : i = k
      · subst hi
        simp [Live, OrderedDict.get?_modify]
      · simp [Live, OrderedDict.get?_modify, hi]
    · exact .idle _ fun _ _ => by simp
  | run k ends =>
    obtain ⟨t, hk, rfl⟩ := Option.map_eq_some_iff.mp h
    rw [runTask]
    by_cases hfin : t.finishes ends
    · rw [if_pos hfin]
      refine .runs k t ends _ hk rfl (fun i d => ?_) fun i hi => ?_
      · by_cases hi : i = k
        · subst hi
          simp [Live, hfin]
        · simp [Live, OrderedDict.get?_erase_of_ne _ hi, hi]
      · exact hs.fresh i (OrderedDict.mem_erase.mp hi).2
    · rw [if_neg hfin]
      have hclean : t.cleansUp ends = false := by
        rw [StreamTask.cleansUp, Bool.eq_false_iff.mpr hfin, Bool.false_and]
      refine .runs k t ends _ hk (by rw [hclean]; rfl) (fun i d => ?_) fun i hi => ?_
      · by_cases hi : i = k
        · subst hi
          simp [Live, hfin, hk]
        · simp [Live, OrderedDict.get?_set_of_ne _ _ hi, hi]
      · rcases OrderedDict.mem_set.mp hi with rfl | hold
        · exact hs.fresh _ (OrderedDict.mem_of_get? hk)
        · exact hs.fresh i hold

theorem consistent_new (client : Bool) : Consistent (new client) :=
  ⟨(fun _ _ h => nomatch h), fun _ h => absurd h (OrderedDict.notMem_empty _)⟩

/-- **The step of the invariant.** -/
theorem step_consistent (hs : s.Consistent) (h : s.step l = some s') : s'.Consistent := by
  cases step_cases hs h with
  | idle _ hl => exact hs
  | starts c n image _ hfree hstreams hlive hfresh =>
    refine ⟨fun d i hget => ?_, hfresh⟩
    rw [hstreams, OrderedDict.get?_set] at hget
    split_ifs at hget with hd
    · exact (hlive i d).mpr (Or.inl ⟨(Option.some.inj hget).symm, hd⟩)
    · exact (hlive i d).mpr (Or.inr (hs.live d i hget))
  | stops c k _ hk hstreams hlive hfresh =>
    refine ⟨fun d i hget => ?_, hfresh⟩
    rw [hstreams, OrderedDict.get?_erase] at hget
    split_ifs at hget with hd
    have hold := hs.live d i hget
    refine (hlive i d).mpr ⟨fun heq => hd ?_, hold⟩
    exact (heq ▸ hold).container_unique (hs.live c k hk)
  | runs k t ends _ hk hstreams hlive hfresh =>
    refine ⟨fun d i hget => ?_, hfresh⟩
    have hold : s.activeStreams.get? d = some i := by
      rw [hstreams] at hget
      split_ifs at hget
      · exact OrderedDict.get?_of_get?_erase hget
      · exact hget
    have hlived := hs.live d i hold
    refine (hlive i d).mpr ⟨?_, hlived⟩
    -- a live task that finishes cleans up, and takes its own container out of the registry
    rintro ⟨rfl, hfin⟩
    obtain ⟨u, hu, rfl, hcancel⟩ := hlived
    obtain rfl := Option.some.inj (hk.symm.trans hu)
    have hclean : t.cleansUp ends := by simp [StreamTask.cleansUp, hfin, hcancel]
    rw [hstreams, if_pos hclean, OrderedDict.get?_erase_self] at hget
    cases hget

/-! ## Exactly when the tasks are tracked -/

/-- While every live task is registered, a step keeps it so exactly when it is not a clean-up
that takes another task out of the registry. -/
theorem step_tracked_iff (hs : s.Consistent) (ht : s.Tracked) (h : s.step l = some s') :
    s'.Tracked ↔ s.CleansOwn l s' := by
  have hreg := ht.registered
  rw [tracked_iff_registered]
  cases step_cases hs h with
  | idle l hl =>
    exact iff_of_true hreg fun i t ends heq => absurd heq (hl i ends)
  | starts c n image _ hfree hstreams hlive hfresh =>
    refine iff_of_true (fun d i hi => ?_) fun _ _ _ heq => nomatch heq
    rw [hstreams, OrderedDict.get?_set]
    rcases (hlive i d).mp hi with ⟨rfl, rfl⟩ | hold
    · exact if_pos rfl
    · have hget := hreg d i hold
      have hd : d ≠ c := fun heq => nomatch (heq ▸ hget).symm.trans hfree
      rw [if_neg hd, hget]
  | stops c k _ hk hstreams hlive hfresh =>
    refine iff_of_true (fun d i hi => ?_) fun _ _ _ heq => nomatch heq
    obtain ⟨hne, hold⟩ := (hlive i d).mp hi
    have hget := hreg d i hold
    rw [hstreams, OrderedDict.get?_erase, if_neg, hget]
    rintro rfl
    exact hne (Option.some.inj (hget.symm.trans hk))
  | runs k t ends _ hk hstreams hlive hfresh =>
    constructor
    · intro hall i u ends' heq hu hclean
      cases heq
      obtain rfl := Option.some.inj (hk.symm.trans hu)
      cases hget : s.activeStreams.get? t.containerId with
      | none => exact Or.inl rfl
      | some j =>
        refine Or.inr (congrArg some ?_)
        by_contra hne
        have hlived := (hlive j _).mpr ⟨fun h => hne h.1, hs.live _ j hget⟩
        have hget' := hall _ j hlived
        rw [hstreams, if_pos hclean, OrderedDict.get?_erase_self] at hget'
        cases hget'
    · intro hown d i hi
      obtain ⟨hne, hold⟩ := (hlive i d).mp hi
      have hget := hreg d i hold
      rw [hstreams]
      split_ifs with hclean
      · rw [OrderedDict.get?_erase, if_neg, hget]
        rintro rfl
        have hfin : t.finishes ends := (Bool.and_eq_true_iff.mp hclean).1
        rcases hown k t ends rfl hk hclean with hnone | hself
        · exact nomatch hget.symm.trans hnone
        · exact hne ⟨Option.some.inj (hget.symm.trans hself), hfin⟩
      · exact hget

/-- **When the log monitors are tracked one per container.**  In every state of a run, each
container has at most one task that has not finished and is not to be cancelled, and it is
the registered one, if and only if every clean-up of the run finds its own task registered
for its container, or none. -/
theorem tracked_iff (client : Bool) (ls : List MonitorLabel) :
    Machine.Visits step Tracked (new client) ls ↔
      Machine.Meets step CleansOwn (new client) ls := by
  refine Machine.visits_iff_meets (I := Consistent) ?_ ?_ ?_ ?_ ls
  · exact fun s l s' hs h => step_consistent hs h
  · exact fun s l s' hs ht h => step_tracked_iff hs ht h
  · exact consistent_new client
  · exact tracked_iff_registered.mpr fun c i ⟨t, ht, _⟩ => nomatch ht

/-- A container stops and starts again before the cancellation of its monitor is delivered:
the late clean-up takes the new monitor out of the registry. -/
theorem late_cleanup_untracks :
    ∃ s, Machine.exec step (new true) [.start "c1" "web" "nginx", .run 0 false, .stop "c1",
        .start "c1" "web" "nginx", .run 0 false] = some s ∧
      s.Live 1 "c1" ∧ s.activeStreams.get? "c1" = none ∧ ¬ s.Tracked := by
  refine ⟨_, rfl, ⟨_, rfl, rfl, rfl⟩, rfl, fun h => ?_⟩
  exact nomatch h.registered "c1" 1 ⟨_, rfl, rfl, rfl⟩

end LogMonitor
end Rcsce
