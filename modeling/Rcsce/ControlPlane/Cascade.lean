import Rcsce.ControlPlane.MirroredCritical
import Rcsce.ControlPlane.Replicas

/-!
# Failover of the replicas

A replica is to be protected as its original was: `_failover` marks it as critical, but only
after it has confirmed that the replica is up.  Docker has started the replica by then, and
it can die before.

`Settled` are the replicas that Docker has started and whose failover is over.  They are
critical (`Protection.critical`), and those that are not settled are critical only when a POST has
marked them.  So the death of a replica leads to a further failover exactly when the
handler finds the replica settled or marked (`replica_death_fails_over_iff`); a failover that
still polls, or that was cut off by an exception, leaves a gap.
-/

namespace Rcsce

namespace ReplicaWorld

/-- A replica that Docker has started. -/
def Started (s : ReplicaWorld) (i : String) : Prop :=
  ∃ x, s.containers.get? i = some x ∧ x.identity.parent.isSome = true ∧ x.state ≠ .created

/-- The replicas whose failover goes on or was cut off. -/
def awaited (s : ReplicaWorld) : List String := s.failovers.filterMap fun t => t.stage.replica?

/-- A replica that Docker has started and whose failover is over. -/
def Settled (s : ReplicaWorld) (i : String) : Prop := s.Started i ∧ i ∉ s.awaited

/-- The die event of a replica finds it marked as critical and leads to a further failover. -/
def DeathFailsOver (s : ReplicaWorld) (l : ReplicaLabel) (s' : ReplicaWorld) : Prop :=
  ∀ eventId id events x, l = .handle eventId → s.events = (.die, id) :: events →
    s.identity? id = some x → x.parent.isSome = true →
      s'.store.isCritical (leading 12 id) = true ∧
        s'.failovers = s.failovers ++ [⟨id, ⟨leading 12 id, x.name, x.image⟩, .creating⟩]

/-- The die event of a replica is handled when its failover is over, or after a POST has
marked it. -/
def DeathSettled (s : ReplicaWorld) (l : ReplicaLabel) (_ : ReplicaWorld) : Prop :=
  ∀ eventId id events x, l = .handle eventId → s.events = (.die, id) :: events →
    s.identity? id = some x → x.parent.isSome = true →
      leading 12 id ∈ s.marked ∨ ∃ i, s.Settled i ∧ leading 12 i = leading 12 id

/-- The replica of a failover exists, and Docker has not started it, or has, as the
failover has it. -/
def Placed (s : ReplicaWorld) (stage : FailoverStage) : Prop :=
  ∀ i, stage.replica? = some i → ∃ x, s.containers.get? i = some x ∧
    x.identity.parent.isSome = true ∧ (stage = .starting i → x.state = .created) ∧
      (stage = .confirming i → x.state ≠ .created)

/-- The failovers and their replicas. -/
structure Awaits (s : ReplicaWorld) : Prop where
  nodup : s.awaited.Nodup
  placed : ∀ t ∈ s.failovers, s.Placed t.stage

variable {sha256Text : String → String} {s s' : ReplicaWorld} {l : ReplicaLabel}

/-! ## The failovers and their replicas -/

theorem Placed.of_get? {stage : FailoverStage} (h : s.Placed stage)
    (hget : ∀ i, stage.replica? = some i → s'.containers.get? i = s.containers.get? i) :
    s'.Placed stage := by
  intro i hi
  rw [hget i hi]
  exact h i hi

theorem placed_creating : s.Placed .creating := fun _ hi => nomatch hi

namespace Awaits

variable {k : ℕ} {t : FailoverTask}

/-- One failover awaits a replica. -/
theorem notMem_eraseIdx (hs : s.Awaits) (hk : s.failovers[k]? = some t) {i : String}
    (hi : t.stage.replica? = some i) {u : FailoverTask} (hu : u ∈ s.failovers.eraseIdx k) :
    u.stage.replica? ≠ some i := by
  intro hui
  have hperm := filterMap_perm (fun t : FailoverTask => t.stage.replica?) hk
  have hnodup := hperm.nodup_iff.mp hs.nodup
  rw [hi, Option.toList_some, List.singleton_append, List.nodup_cons] at hnodup
  exact hnodup.1 (List.mem_filterMap.mpr ⟨u, hu, hui⟩)

/-- One failover goes on or comes to an end, over the same containers or others. -/
theorem of_advance (hs : s.Awaits) (hk : s.failovers[k]? = some t) (next : Option FailoverTask)
    (htasks : s'.failovers = advance s.failovers k next)
    (hnext : ∀ u, next = some u → s'.Placed u.stage)
    (hrest : ∀ u ∈ s.failovers.eraseIdx k, s'.Placed u.stage)
    (hnew : ∀ u i, next = some u → u.stage.replica? = some i →
      t.stage.replica? = some i ∨ i ∉ s.awaited) : s'.Awaits := by
  have hperm := filterMap_perm (fun t : FailoverTask => t.stage.replica?) hk
  have hperm' := filterMap_advance_perm (fun t : FailoverTask => t.stage.replica?) hk next
  have hnodup := hperm.nodup_iff.mp hs.nodup
  constructor
  · rw [awaited, htasks, hperm'.nodup_iff]
    cases hi : next.bind fun t => t.stage.replica? with
    | none => exact hnodup.of_append_right
    | some i =>
      obtain ⟨u, hu, hui⟩ := Option.bind_eq_some_iff.mp hi
      rw [Option.toList_some, List.singleton_append, List.nodup_cons]
      refine ⟨fun hmem => ?_, hnodup.of_append_right⟩
      rcases hnew u i hu hui with hti | hfresh
      · obtain ⟨v, hv, hvi⟩ := List.mem_filterMap.mp hmem
        exact hs.notMem_eraseIdx hk hti hv hvi
      · exact hfresh (hperm.symm.subset (List.mem_append_right _ hmem))
  · intro u hu
    rw [htasks, (advance_perm hk next).mem_iff, List.mem_append, Option.mem_toList] at hu
    rcases hu with hu | hu
    · exact hnext u hu
    · exact hrest u hu

/-- A failover goes on in another stage. -/
theorem of_stage (hs : s.Awaits) (hk : s.failovers[k]? = some t) (stage : FailoverStage)
    (htasks : s'.failovers = advance s.failovers k (some { t with stage }))
    (hstage : s'.Placed stage) (hrest : ∀ u ∈ s.failovers.eraseIdx k, s'.Placed u.stage)
    (hnew : ∀ i, stage.replica? = some i → t.stage.replica? = some i ∨ i ∉ s.awaited) :
    s'.Awaits := by
  refine hs.of_advance hk (some { t with stage }) htasks (fun u hu => ?_) hrest fun u i hu hi => ?_
  · obtain rfl := Option.some.inj hu
    exact hstage
  · obtain rfl := Option.some.inj hu
    exact hnew i hi

/-- A failover comes to an end. -/
theorem of_end (hs : s.Awaits) (hk : s.failovers[k]? = some t)
    (htasks : s'.failovers = advance s.failovers k none)
    (hcontainers : s'.containers = s.containers) : s'.Awaits := by
  refine hs.of_advance hk none htasks nofun (fun u hu => ?_) nofun
  refine (hs.placed u (List.mem_of_mem_eraseIdx hu)).of_get? fun i _ => ?_
  rw [hcontainers]

theorem mem_containers (hs : s.Awaits) {i : String} (hi : i ∈ s.awaited) : i ∈ s.containers := by
  obtain ⟨t, ht, hti⟩ := List.mem_filterMap.mp hi
  obtain ⟨x, hx, -⟩ := hs.placed t ht i hti
  exact OrderedDict.mem_of_get? hx

/-- A new failover awaits nothing yet. -/
theorem awaited_handleEvent (e : DockerEvent) : (s.handleEvent e).awaited = s.awaited := by
  rw [awaited, handleEvent]
  split_ifs
  · exact (List.filterMap_append).trans (List.append_nil _)
  · rfl

theorem begins (hs : s.Awaits) (e : DockerEvent) (events : List (DockerAction × String)) :
    { s.handleEvent e with events }.Awaits where
  nodup := (congrArg List.Nodup (awaited_handleEvent e)).mpr hs.nodup
  placed t ht := by
    rcases mem_failovers_handleEvent ht with hold | rfl
    · exact hs.placed t hold
    · exact placed_creating

end Awaits

/-- A container that is not created anew is where it was. -/
theorem Placed.set {stage : FailoverStage} (h : s.Placed stage) {id : String} {x : DockerContainer}
    (hx : s.containers.get? id = some x) (hold : x.state ≠ .created) {new : ContainerState}
    (hnew : new ≠ .created)
    (hcontainers : s'.containers = s.containers.set id { x with state := new }) :
    s'.Placed stage := by
  intro i hi
  rw [hcontainers, OrderedDict.get?_set]
  obtain ⟨y, hy, hparent, hstarting, -⟩ := h i hi
  split_ifs with hid
  · subst hid
    obtain rfl : x = y := Option.some.inj (hx.symm.trans hy)
    exact ⟨_, rfl, hparent, fun hstage => absurd (hstarting hstage) hold, fun _ => hnew⟩
  · exact h i hi

/-- Every step keeps the failovers and their replicas together. -/
theorem awaits_step (hs : s.Awaits) (h : s.step sha256Text l = some s') : s'.Awaits := by
  have hplaced : ∀ {k : ℕ} {u : FailoverTask}, u ∈ s.failovers.eraseIdx k → s.Placed u.stage :=
    fun hu => hs.placed _ (List.mem_of_mem_eraseIdx hu)
  cases step_cases h with
  | changes _ id x new events hl hx hold hnew =>
    exact ⟨hs.nodup, fun t ht => (hs.placed t ht).set hx hold hnew rfl⟩
  | signals => exact ⟨hs.nodup, hs.placed⟩
  | begins action id events x eventId hevents hx => exact hs.begins _ _
  | rejected k t id error hk => exact hs.of_end hk rfl rfl
  | accepted k t id error hk hstage hfree hid hlength =>
    have hnew : id ∉ s.awaited := fun hmem => hid (hs.mem_containers hmem)
    refine hs.of_stage hk (.starting id) rfl (fun i hi => ?_)
      (fun u hu => (hplaced hu).of_get? fun i hi => ?_) fun i hi => ?_
    · obtain rfl : id = i := Option.some.inj hi
      exact ⟨_, OrderedDict.get?_set_self _ _ _, rfl, fun _ => rfl, nofun⟩
    · have hmem : i ∈ s.awaited := List.mem_filterMap.mpr ⟨u, List.mem_of_mem_eraseIdx hu, hi⟩
      exact OrderedDict.get?_set_of_ne _ _ fun heq => hnew (heq ▸ hmem)
    · obtain rfl : id = i := Option.some.inj hi
      exact Or.inr hnew
  | started k t id x hk hstage hx hold =>
    have ht : t.stage.replica? = some id := by rw [hstage]; rfl
    obtain ⟨y, hy, hparent, -⟩ := hs.placed t (List.mem_of_getElem? hk) id ht
    obtain rfl : x = y := Option.some.inj (hx.symm.trans hy)
    refine hs.of_stage hk (.confirming id) rfl (fun i hi => ?_)
      (fun u hu => (hplaced hu).of_get? fun i hi => ?_) fun i hi => Or.inl (ht.trans hi)
    · obtain rfl : id = i := Option.some.inj hi
      exact ⟨_, OrderedDict.get?_set_self _ _ _, hparent, nofun, fun _ => by simp⟩
    · exact OrderedDict.get?_set_of_ne _ _ fun heq => hs.notMem_eraseIdx hk ht hu (heq ▸ hi)
  | raised k t error hk => exact hs.of_end hk rfl rfl
  | confirmed k t id recovered hk => exact hs.of_end hk rfl rfl
  | aborted k t hk =>
    refine hs.of_stage hk (.aborted t.stage.replica?) rfl (fun i hi => ?_)
      (fun u hu => (hplaced hu).of_get? fun _ _ => rfl) fun i hi => Or.inl hi
    obtain ⟨x, hx, hparent, -⟩ := hs.placed t (List.mem_of_getElem? hk) i hi
    exact ⟨x, hx, hparent, nofun, nofun⟩
  | other => exact ⟨hs.nodup, hs.placed⟩

/-! ## Who is settled, and who is critical -/

/-- The replicas that have been confirmed, and the containers that a POST has marked, are
critical, and nobody else. -/
def Protection (s : ReplicaWorld) : Prop :=
  ∀ c, c ∈ s.store.critical ↔ c ∈ s.marked ∨ ∃ i, s.Settled i ∧ leading 12 i = c

section

variable {k : ℕ} {t : FailoverTask} {i : String}

theorem mem_awaited_iff (hk : s.failovers[k]? = some t) :
    i ∈ s.awaited ↔ t.stage.replica? = some i ∨
      i ∈ (s.failovers.eraseIdx k).filterMap fun u => u.stage.replica? := by
  rw [awaited, (filterMap_perm (fun u : FailoverTask => u.stage.replica?) hk).mem_iff,
    List.mem_append, Option.mem_toList]

theorem mem_awaited_advance_iff (hk : s.failovers[k]? = some t) (next : Option FailoverTask)
    (htasks : s'.failovers = advance s.failovers k next) :
    i ∈ s'.awaited ↔ (next.bind fun u => u.stage.replica?) = some i ∨
      i ∈ (s.failovers.eraseIdx k).filterMap fun u => u.stage.replica? := by
  rw [awaited, htasks,
    (filterMap_advance_perm (fun u : FailoverTask => u.stage.replica?) hk next).mem_iff,
    List.mem_append, Option.mem_toList]

/-- A failover that goes on with its replica still awaits it. -/
theorem mem_awaited_stage (hk : s.failovers[k]? = some t) (stage : FailoverStage)
    (htasks : s'.failovers = advance s.failovers k (some { t with stage }))
    (hstage : stage.replica? = t.stage.replica?) : i ∈ s'.awaited ↔ i ∈ s.awaited := by
  rw [mem_awaited_advance_iff hk _ htasks, mem_awaited_iff hk, Option.bind_some, hstage]

/-- A failover that has come to an end awaits nothing. -/
theorem Awaits.mem_awaited_end (hs : s.Awaits) (hk : s.failovers[k]? = some t)
    (htasks : s'.failovers = advance s.failovers k none) :
    i ∈ s'.awaited ↔ i ∈ s.awaited ∧ t.stage.replica? ≠ some i := by
  rw [mem_awaited_advance_iff hk _ htasks, mem_awaited_iff hk, Option.bind_none]
  constructor
  · rintro (hnone | hrest)
    · exact nomatch hnone
    · refine ⟨Or.inr hrest, fun ht => ?_⟩
      obtain ⟨u, hu, hui⟩ := List.mem_filterMap.mp hrest
      exact hs.notMem_eraseIdx hk ht hu hui
  · rintro ⟨ht | hrest, hne⟩
    · exact absurd ht hne
    · exact Or.inr hrest

/-- A replica that Docker has started stays so, in whatever state. -/
theorem started_set {id : String} {x : DockerContainer} (hx : s.containers.get? id = some x)
    (hold : x.state ≠ .created) {new : ContainerState} (hnew : new ≠ .created)
    (hcontainers : s'.containers = s.containers.set id { x with state := new }) :
    s'.Started i ↔ s.Started i := by
  rw [Started, Started, hcontainers, OrderedDict.get?_set]
  split_ifs with hi
  · subst hi
    simp [hx, hold, hnew]
  · rfl

theorem started_congr (hget : s'.containers.get? i = s.containers.get? i) :
    s'.Started i ↔ s.Started i := by
  rw [Started, Started, hget]

theorem not_started_of_created {x : DockerContainer} (hx : s.containers.get? i = some x)
    (hstate : x.state = .created) : ¬ s.Started i := by
  rintro ⟨y, hy, -, hne⟩
  obtain rfl : x = y := Option.some.inj (hx.symm.trans hy)
  exact hne hstate

/-- The replica of a failover that has no container yet, or one to be started, is not
started. -/
theorem Awaits.not_started (hs : s.Awaits) (hk : s.failovers[k]? = some t)
    (hstage : t.stage = .creating ∨ ∃ id, t.stage = .starting id)
    (hi : t.stage.replica? = some i) : ¬ s.Started i := by
  obtain ⟨x, hx, -, hcreated, -⟩ := hs.placed t (List.mem_of_getElem? hk) i hi
  rcases hstage with hstage | ⟨id, hstage⟩
  · rw [hstage] at hi
    exact nomatch hi
  · rw [hstage] at hi
    obtain rfl : id = i := Option.some.inj hi
    exact not_started_of_created hx (hcreated hstage)

theorem settled_congr (hstarted : s'.Started i ↔ s.Started i)
    (hawaited : i ∈ s'.awaited ↔ i ∈ s.awaited) : s'.Settled i ↔ s.Settled i := by
  rw [Settled, Settled, hstarted, hawaited]

end

theorem Protection.of_settled (hs : s.Protection)
    (hcritical : s'.store.critical = s.store.critical) (hmarked : s'.marked = s.marked)
    (hsettled : ∀ i, s'.Settled i ↔ s.Settled i) : s'.Protection := by
  intro c
  rw [hcritical, hmarked, hs c]
  simp only [hsettled]

/-- A failover whose health checks are over settles its replica and marks it. -/
theorem Protection.confirmed (hs : s.Protection) (hawaits : s.Awaits) {k : ℕ} {t : FailoverTask}
    {id : String} (hk : s.failovers[k]? = some t) (hstage : t.stage = .confirming id)
    (htasks : s'.failovers = advance s.failovers k none)
    (hcontainers : s'.containers = s.containers)
    (hcritical : s'.store.critical = insert (leading 12 id) s.store.critical)
    (hmarked : s'.marked = s.marked) : s'.Protection := by
  have ht : t.stage.replica? = some id := by rw [hstage]; rfl
  have hstarted : s.Started id := by
    obtain ⟨x, hx, hparent, -, hstate⟩ := hawaits.placed t (List.mem_of_getElem? hk) id ht
    exact ⟨x, hx, hparent, hstate hstage⟩
  have hsettled : ∀ i, s'.Settled i ↔ i = id ∨ s.Settled i := by
    intro i
    have hi : s'.Started i ↔ s.Started i := started_congr (by rw [hcontainers])
    rw [Settled, Settled, hawaits.mem_awaited_end hk htasks, ht, hi]
    by_cases hid : i = id
    · simp [hid, hstarted]
    · simp [hid, Ne.symm hid]
  intro c
  rw [hcritical, hmarked, Finset.mem_insert, hs c]
  constructor
  · rintro (rfl | hc | ⟨i, hi, rfl⟩)
    · exact Or.inr ⟨id, (hsettled id).mpr (Or.inl rfl), rfl⟩
    · exact Or.inl hc
    · exact Or.inr ⟨i, (hsettled i).mpr (Or.inr hi), rfl⟩
  · rintro (hc | ⟨i, hi, rfl⟩)
    · exact Or.inr (Or.inl hc)
    · rcases (hsettled i).mp hi with rfl | hi
      · exact Or.inl rfl
      · exact Or.inr (Or.inr ⟨i, hi, rfl⟩)

/-- A POST marks the container that it names. -/
theorem Protection.posted (hs : s.Protection) {e : MasterEvent} (he : e.isOther = true)
    (htasks : s'.failovers = s.failovers) (hcontainers : s'.containers = s.containers)
    (hcritical : ∀ c, c ∈ s'.store.critical ↔ c ∈ s.store.critical ∨ e.marks = some c)
    (hmarked : s'.marked = s.marked ++ e.posted) : s'.Protection := by
  intro c
  have hposted : e.marks = some c ↔ c ∈ e.posted := by
    cases e <;> simp [MasterEvent.isOther, MasterEvent.marks, MasterEvent.posted, eq_comm] at he ⊢
  have hsettled : ∀ i, s'.Settled i ↔ s.Settled i := fun i =>
    settled_congr (started_congr (by rw [hcontainers])) (by rw [awaited, awaited, htasks])
  simp only [hcritical, hmarked, hs c, hposted, List.mem_append, hsettled, or_right_comm]

/-- Every step keeps the critical containers the settled replicas and the marked ones. -/
theorem protection_step (hawaits : s.Awaits) (hs : s.Protection)
    (h : s.step sha256Text l = some s') : s'.Protection := by
  cases step_cases h with
  | changes _ id x new events hl hx hold hnew =>
    exact hs.of_settled rfl rfl fun i => settled_congr (started_set hx hold hnew rfl) Iff.rfl
  | signals => exact hs.of_settled rfl rfl fun _ => Iff.rfl
  | begins action id events x eventId hevents hx =>
    refine hs.of_settled (MasterNode.critical_handleEvent _ _) rfl fun i => ?_
    exact settled_congr (started_congr rfl)
      (iff_of_eq (congrArg (i ∈ ·) (Awaits.awaited_handleEvent _)))
  | rejected k t id error hk hstage =>
    refine hs.of_settled (StateStore.critical_onFailoverError _ _ _) rfl fun i => ?_
    refine settled_congr (started_congr rfl)
      ((hawaits.mem_awaited_end hk rfl).trans (and_iff_left ?_))
    rw [hstage]
    exact nofun
  | accepted k t id error hk hstage hfree hid hlength =>
    refine hs.of_settled rfl rfl fun i => ?_
    by_cases hi : i = id
    · -- the new container has not been started, and the id was nobody's
      subst hi
      refine iff_of_false (fun h => ?_) fun h => ?_
      · exact not_started_of_created (OrderedDict.get?_set_self _ _ _) rfl h.1
      · obtain ⟨x, hx, -⟩ := h.1
        exact hid (OrderedDict.mem_of_get? hx)
    · refine settled_congr (started_congr (OrderedDict.get?_set_of_ne _ _ hi)) ?_
      rw [mem_awaited_advance_iff hk (some { t with stage := .starting id }) rfl,
        mem_awaited_iff hk, hstage]
      simp [FailoverStage.replica?, Ne.symm hi]
  | started k t id x hk hstage hx hold =>
    have ht : t.stage.replica? = some id := by rw [hstage]; rfl
    refine hs.of_settled rfl rfl fun i => ?_
    by_cases hi : i = id
    · subst hi
      have hmem : i ∈ s.awaited := (mem_awaited_iff hk).mpr (Or.inl ht)
      refine iff_of_false (fun h => ?_) fun h => h.2 hmem
      exact h.2 ((mem_awaited_stage hk (.confirming i) rfl ht.symm).mpr hmem)
    · exact settled_congr (started_congr (OrderedDict.get?_set_of_ne _ _ hi))
        (mem_awaited_stage hk (.confirming id) rfl ht.symm)
  | raised k t error hk hstage =>
    refine hs.of_settled (StateStore.critical_onFailoverError _ _ _) rfl fun i => ?_
    by_cases hi : t.stage.replica? = some i
    · have hnot : ¬ s.Started i := hawaits.not_started hk hstage hi
      have hget : ∀ s' : ReplicaWorld, s'.containers = s.containers → ¬ s'.Settled i :=
        fun s' heq h => hnot ((started_congr (by rw [heq])).mp h.1)
      exact iff_of_false (hget _ rfl) (hget s rfl)
    · exact settled_congr (started_congr rfl)
        ((hawaits.mem_awaited_end hk rfl).trans (and_iff_left hi))
  | confirmed k t id recovered hk hstage =>
    exact hs.confirmed hawaits hk hstage rfl rfl (StateStore.critical_onFailover _ _ _ _) rfl
  | aborted k t hk =>
    refine hs.of_settled rfl rfl fun i => ?_
    exact settled_congr (started_congr rfl) (mem_awaited_stage hk _ rfl rfl)
  | other e node he hnode =>
    exact hs.posted he rfl rfl (fun c => MasterNode.critical_handle hnode c) rfl

/-! ## Deaths of replicas -/

/-- Without a Docker client there are no failovers and no replicas. -/
def HasClient (s : ReplicaWorld) : Prop :=
  s.engineClient = true ∨
    (s.failovers = [] ∧ ∀ i x, s.identity? i = some x → x.parent = none)

theorem hasClient_step (hs : s.HasClient) (h : s.step sha256Text l = some s') :
    s'.HasClient := by
  have hclient : s'.engineClient = s.engineClient := by
    cases step_cases h <;> rfl
  rcases hs with hs | ⟨htasks, hparent⟩
  · exact Or.inl (hclient.trans hs)
  by_cases hs : s.engineClient = true
  · exact Or.inl (hclient.trans hs)
  have hnone : ∀ {k : ℕ} {t : FailoverTask}, s.failovers[k]? ≠ some t := by
    intro k t
    rw [htasks]
    exact nofun
  cases step_cases h with
  | changes _ id x new events hl hx =>
    refine Or.inr ⟨htasks, fun i y hy => hparent i y ?_⟩
    rw [← identity?_set hx new]
    exact hy
  | signals => exact Or.inr ⟨htasks, hparent⟩
  | begins action id events x eventId =>
    refine Or.inr ⟨?_, hparent⟩
    simp only [handleEvent, hs, Bool.and_false, Bool.false_eq_true, if_false, htasks]
  | rejected k t id error hk => exact absurd hk hnone
  | accepted k t id error hk => exact absurd hk hnone
  | started k t id x hk => exact absurd hk hnone
  | raised k t error hk => exact absurd hk hnone
  | confirmed k t id recovered hk => exact absurd hk hnone
  | aborted k t hk => exact absurd hk hnone
  | other => exact Or.inr ⟨htasks, hparent⟩

/-- What holds in every run. -/
structure Cascading (s : ReplicaWorld) : Prop where
  awaits : s.Awaits
  protection : s.Protection
  client : s.HasClient

theorem cascading_step (hs : s.Cascading) (h : s.step sha256Text l = some s') : s'.Cascading where
  awaits := awaits_step hs.awaits h
  protection := protection_step hs.awaits hs.protection h
  client := hasClient_step hs.client h

theorem Initial.cascading (hs : s.Initial) : s.Cascading where
  awaits := by
    constructor
    · rw [awaited, hs.failovers]
      exact List.nodup_nil
    · rw [hs.failovers]
      exact nofun
  protection c := by
    have hsettled : ∀ i, ¬ s.Settled i := by
      rintro i ⟨⟨x, hx, hparent, -⟩, -⟩
      rw [hs.parent i x.identity (identity?_eq_some_iff.mpr ⟨x.state, hx⟩)] at hparent
      exact nomatch hparent
    simp [hs.marked c, hsettled]
  client := Or.inr ⟨hs.failovers, hs.parent⟩

/-- A die event leads to a failover of a container that is critical. -/
theorem failovers_handleEvent {e : DockerEvent} (he : e.action = .die)
    (hcritical : e.containerId ∈ s.store.critical) (hclient : s.engineClient = true) :
    (s.handleEvent e).failovers = s.failovers ++ [⟨e.id, e.failover, .creating⟩] := by
  have hfails : (s.node.handleEvent e).store.failsOver e = true :=
    (s.node.failsOver_handleEvent he).trans (StateStore.isCritical_iff.mpr hcritical)
  rw [handleEvent, hfails, hclient]
  rfl

/-- The handler of the oldest event. -/
theorem eq_of_step_handle {eventId : ℕ} {action : DockerAction} {id : String}
    {events : List (DockerAction × String)} {x : ContainerIdentity}
    (h : s.step sha256Text (.handle eventId) = some s')
    (hevents : s.events = (action, id) :: events) (hx : s.identity? id = some x) :
    s' = { s.handleEvent (dockerEvent id x action eventId) with events } := by
  simp only [step, hevents, hx, Option.map_some, Option.some.injEq] at h
  exact h.symm

/-- **Every death of a replica that Docker reports leads to a further failover exactly when
each is handled after the failover of the replica is over**, or after a POST has marked it. -/
theorem replica_death_fails_over_iff (hs : s.Initial) (ls : List ReplicaLabel) :
    Machine.Meets (step sha256Text) DeathFailsOver s ls ↔
      Machine.Meets (step sha256Text) DeathSettled s ls := by
  refine Machine.meets_iff_meets (I := Cascading) (fun s l s' hs _ h => cascading_step hs h)
    (fun s l s' hs h => ?_) hs.cascading ls
  constructor
  · intro hdeath eventId id events x hl hevents hx hparent
    have hcritical := (hdeath eventId id events x hl hevents hx hparent).1
    subst hl
    rw [eq_of_step_handle h hevents hx, StateStore.isCritical_iff] at hcritical
    have hstore : (s.handleEvent (dockerEvent id x .die eventId)).store.critical =
        s.store.critical := MasterNode.critical_handleEvent _ _
    exact (hs.protection _).mp (hstore ▸ hcritical)
  · intro hsettled eventId id events x hl hevents hx hparent
    have hcritical : leading 12 id ∈ s.store.critical :=
      (hs.protection _).mpr (hsettled eventId id events x hl hevents hx hparent)
    have hclient : s.engineClient = true := by
      rcases hs.client with hclient | ⟨-, hnone⟩
      · exact hclient
      · rw [hnone id x hx] at hparent
        exact nomatch hparent
    subst hl
    rw [eq_of_step_handle h hevents hx, StateStore.isCritical_iff]
    have hstore : (s.handleEvent (dockerEvent id x .die eventId)).store.critical =
        s.store.critical := MasterNode.critical_handleEvent _ _
    exact ⟨hstore.symm ▸ hcritical, failovers_handleEvent rfl hcritical hclient⟩

/-! ## A replica that dies early -/

/-- A critical container dies, and its replica dies as soon as Docker has started it. -/
def diesEarly : List ReplicaLabel :=
  [.exits "c0ffee00beef", .handle 0, .creates 0 "badcab1edeed" "", .starts 0,
    .exits "badcab1edeed", .handle 1]

/-- The handler finds that the replica is not critical, and there is no failover of it. -/
theorem early_death_unprotected : webWorld.Initial ∧
    ¬ Machine.Meets (step fun text => text) DeathFailsOver webWorld
      (diesEarly ++ [.handle 2]) := by
  refine ⟨webWorld_initial, fun h => ?_⟩
  have hrun : ((Machine.exec (step fun text => text) webWorld diesEarly).bind fun s =>
      (s.step (fun text => text) (.handle 2)).map fun s' =>
        (s.events.head?, s.identity? "badcab1edeed",
          s'.store.isCritical (leading 12 "badcab1edeed"))) =
      some (some (.die, "badcab1edeed"),
        some ⟨"web-replica-c0ffee", "nginx", some "c0ffee00beef"⟩, false) := by
    decide +kernel
  obtain ⟨s, hs, hmap⟩ := Option.bind_eq_some_iff.mp hrun
  obtain ⟨s', hs', heq⟩ := Option.map_eq_some_iff.mp hmap
  obtain ⟨hhead, hrest⟩ := Prod.mk.inj heq
  obtain ⟨hx, hcritical⟩ := Prod.mk.inj hrest
  obtain ⟨events, hevents⟩ := List.head?_eq_some_iff.mp hhead
  have hfails := h diesEarly (.handle 2) (List.prefix_refl _) s s' hs hs'
  rw [(hfails 2 _ events _ rfl hevents hx rfl).1] at hcritical
  exact nomatch hcritical

/-- The condition, on that run. -/
theorem replica_death_fails_over_iff_web :
    Machine.Meets (step fun text => text) DeathFailsOver webWorld (diesEarly ++ [.handle 2]) ↔
      Machine.Meets (step fun text => text) DeathSettled webWorld (diesEarly ++ [.handle 2]) :=
  replica_death_fails_over_iff webWorld_initial _

end ReplicaWorld
end Rcsce
