import Rcsce.ControlPlane.Replicas

/-!
# The names of the replicas

`_failover` names the replica of a container by the name and the id of the container alone.
Two containers get different names for their replicas, because they have different names
and what is added has one length; but one container gets the same name each time it dies,
and Docker keeps the name of a replica for as long as the replica exists.

So a create is refused exactly when a replica of the same container exists, or a container
that no failover has created has the name (`replica_name_free_iff`).
-/

namespace Rcsce

theorem toList_leading (n : ℕ) (text : String) :
    (leading n text).toList = text.toList.take n := by
  rw [leading, String.toList_ofList]

/-- The names of replicas are as different as those of the containers. -/
theorem Failover.name_eq_of_replicaName_eq {f g : Failover}
    (hf : 6 ≤ f.originalId.toList.length) (hg : 6 ≤ g.originalId.toList.length)
    (h : f.replicaName = g.replicaName) : f.name = g.name := by
  have hlist := congrArg String.toList h
  simp only [replicaName, String.toList_append, toList_leading, List.append_assoc] at hlist
  have hlength : ∀ text : List Char, 6 ≤ text.length →
      ("-replica-".toList ++ text.take 6).length = 15 := by
    intro text htext
    rw [List.length_append, List.length_take, Nat.min_eq_left htext]
    rfl
  exact String.toList_inj.mp
    (List.append_inj_left' hlist ((hlength _ hf).trans (hlength _ hg).symm))

/-- The id that a failover is given is long enough. -/
theorem length_leading_twelve {id : String} (h : 12 ≤ id.toList.length) :
    6 ≤ (leading 12 id).toList.length := by
  rw [toList_leading, List.length_take, le_min_iff]
  exact ⟨by decide, le_trans (by decide) h⟩

namespace ReplicaWorld

/-- What Docker keeps apart, and what the failovers are made from. -/
structure Lineage (s : ReplicaWorld) : Prop where
  name_inj : ∀ i j x y, s.identity? i = some x → s.identity? j = some y → x.name = y.name → i = j
  length_id : ∀ i x, s.identity? i = some x → 12 ≤ i.toList.length
  /-- A replica is named after its parent. -/
  replica : ∀ i x p, s.identity? i = some x → x.parent = some p →
    ∃ y, s.identity? p = some y ∧ x.name = (Failover.mk (leading 12 p) y.name y.image).replicaName
  /-- A failover is about the container that died. -/
  task : ∀ t ∈ s.failovers, ∃ y, s.identity? t.parent = some y ∧
    t.failover = ⟨leading 12 t.parent, y.name, y.image⟩

/-- The name that a create asks for is that of no container, and the failover goes on with
the new container. -/
def CreatesFresh (s : ReplicaWorld) (l : ReplicaLabel) (s' : ReplicaWorld) : Prop :=
  ∀ k id error t, l = .creates k id error → s.failovers[k]? = some t →
    (∀ i x, s.identity? i = some x → x.name ≠ t.failover.replicaName) ∧
      s'.failovers[k]? = some { t with stage := .starting id }

/-- No replica of the container exists, and no other container has the name. -/
def NoReplica (s : ReplicaWorld) (l : ReplicaLabel) (_ : ReplicaWorld) : Prop :=
  ∀ k id error t, l = .creates k id error → s.failovers[k]? = some t →
    ∀ i x, s.identity? i = some x →
      x.parent ≠ some t.parent ∧ (x.parent = none → x.name ≠ t.failover.replicaName)

variable {sha256Text : String → String} {s s' : ReplicaWorld} {l : ReplicaLabel} {k : ℕ}
  {t : FailoverTask} {id error : String}

theorem Initial.lineage (hs : s.Initial) : s.Lineage where
  name_inj := hs.name_inj
  length_id i x hx := by
    obtain ⟨state, hget⟩ := identity?_eq_some_iff.mp hx
    exact hs.length_id i (OrderedDict.mem_of_get? hget)
  replica i x p hx hp := by
    rw [hs.parent i x hx] at hp
    exact nomatch hp
  task t ht := by
    rw [hs.failovers] at ht
    exact nomatch ht

namespace Lineage

/-- The containers that two failovers are about have replicas of one name only when they are
one container. -/
theorem parent_unique (hs : s.Lineage) {p q : String} {x y : ContainerIdentity}
    (hx : s.identity? p = some x) (hy : s.identity? q = some y)
    (hname : (Failover.mk (leading 12 p) x.name x.image).replicaName =
      (Failover.mk (leading 12 q) y.name y.image).replicaName) : p = q := by
  have hp : 6 ≤ (leading 12 p).toList.length := length_leading_twelve (hs.length_id p x hx)
  have hq : 6 ≤ (leading 12 q).toList.length := length_leading_twelve (hs.length_id q y hy)
  have heq : x.name = y.name :=
    Failover.name_eq_of_replicaName_eq (f := ⟨leading 12 p, x.name, x.image⟩)
      (g := ⟨leading 12 q, y.name, y.image⟩) hp hq hname
  exact hs.name_inj p q x y hx hy heq

/-- The name of a replica is taken by a replica of the same container or by a container
that is no replica. -/
theorem name_free_iff (hs : s.Lineage) (ht : t ∈ s.failovers) :
    (∀ i x, s.identity? i = some x → x.name ≠ t.failover.replicaName) ↔
      ∀ i x, s.identity? i = some x →
        x.parent ≠ some t.parent ∧ (x.parent = none → x.name ≠ t.failover.replicaName) := by
  obtain ⟨y, hy, hfailover⟩ := hs.task t ht
  constructor
  · intro h i x hx
    refine ⟨fun hparent => ?_, fun _ => h i x hx⟩
    obtain ⟨z, hz, hname⟩ := hs.replica i x t.parent hx hparent
    obtain rfl : z = y := Option.some.inj (hz.symm.trans hy)
    exact h i x hx (hname.trans (by rw [hfailover]))
  · intro h i x hx hname
    cases hparent : x.parent with
    | none => exact (h i x hx).2 hparent hname
    | some p =>
      obtain ⟨z, hz, hname'⟩ := hs.replica i x p hx hparent
      rw [hname', hfailover] at hname
      obtain rfl : p = t.parent := hs.parent_unique hz hy hname
      exact (h i x hx).1 hparent

/-- Nothing changes when the containers are the same and the failovers are about what
they were about. -/
theorem of_eq (hs : s.Lineage) (hid : ∀ i, s'.identity? i = s.identity? i)
    (htask : ∀ t ∈ s'.failovers, ∃ u ∈ s.failovers, u.parent = t.parent ∧ u.failover = t.failover) :
    s'.Lineage where
  name_inj := by simpa only [hid] using hs.name_inj
  length_id := by simpa only [hid] using hs.length_id
  replica := by simpa only [hid] using hs.replica
  task t ht := by
    obtain ⟨u, hu, hparent, hfailover⟩ := htask t ht
    simpa only [hid, hparent, hfailover] using hs.task u hu

end Lineage

/-- A failover that goes on, about the same container, or comes to an end. -/
theorem about_advance (hk : s.failovers[k]? = some t)
    {next : Option FailoverTask}
    (hnext : ∀ u, next = some u → t.parent = u.parent ∧ t.failover = u.failover)
    {u : FailoverTask} (hu : u ∈ advance s.failovers k next) :
    ∃ v ∈ s.failovers, v.parent = u.parent ∧ v.failover = u.failover := by
  rcases mem_of_mem_advance hk hu with heq | hmem
  · exact ⟨t, List.mem_of_getElem? hk, hnext u heq⟩
  · exact ⟨u, hmem, rfl, rfl⟩

theorem Lineage.of_advance (hs : s.Lineage) (hid : ∀ i, s'.identity? i = s.identity? i)
    (hk : s.failovers[k]? = some t) (next : Option FailoverTask)
    (htasks : s'.failovers = advance s.failovers k next)
    (hnext : ∀ u, next = some u → t.parent = u.parent ∧ t.failover = u.failover) :
    s'.Lineage :=
  hs.of_eq hid fun _ hu => about_advance hk hnext (htasks ▸ hu)

theorem identity?_congr (h : s'.containers = s.containers) (i : String) :
    s'.identity? i = s.identity? i := by
  rw [identity?, identity?, h]

/-- A new container. -/
theorem identity?_set_of_notMem (hid : id ∉ s.containers) (x : DockerContainer)
    {i : String} {y : ContainerIdentity} :
    ((s.containers.set id x).get? i).map DockerContainer.identity = some y ↔
      (i = id ∧ y = x.identity) ∨ s.identity? i = some y := by
  rw [OrderedDict.get?_set, identity?]
  split_ifs with hi
  · subst hi
    simp [OrderedDict.get?_eq_none_iff.mpr hid, eq_comm]
  · simp [hi]

/-- The lineage of a new container: its name is new, and is made from what its parent is. -/
theorem Lineage.create (hs : s.Lineage) (hk : s.failovers[k]? = some t)
    (hfree : s.nameTaken t.failover.replicaName = false)
    (hid : id ∉ s.containers) (hlength : 12 ≤ id.toList.length)
    (hcontainers : s'.containers = s.containers.set id
      ⟨⟨t.failover.replicaName, t.failover.image, some t.parent⟩, .created⟩)
    (htasks : s'.failovers = advance s.failovers k (some { t with stage := .starting id })) :
    s'.Lineage := by
  have hget : ∀ i y, s'.identity? i = some y ↔
      (i = id ∧ y = ⟨t.failover.replicaName, t.failover.image, some t.parent⟩) ∨
        s.identity? i = some y := by
    intro i y
    rw [identity?, hcontainers]
    exact identity?_set_of_notMem hid _
  have hold : ∀ i y, s.identity? i = some y → s'.identity? i = some y :=
    fun i y hy => (hget i y).mpr (Or.inr hy)
  have hnew : ∀ i y, s.identity? i = some y → y.name ≠ t.failover.replicaName :=
    fun i y hy hname => Bool.eq_false_iff.mp hfree (nameTaken_iff.mpr ⟨i, y, hy, hname⟩)
  constructor
  · intro i j x y hx hy hname
    rcases (hget i x).mp hx with ⟨rfl, rfl⟩ | hx
    · rcases (hget j y).mp hy with ⟨rfl, -⟩ | hy
      · rfl
      · exact absurd hname.symm (hnew j y hy)
    · rcases (hget j y).mp hy with ⟨rfl, rfl⟩ | hy
      · exact absurd hname (hnew i x hx)
      · exact hs.name_inj i j x y hx hy hname
  · intro i x hx
    rcases (hget i x).mp hx with ⟨rfl, -⟩ | hx
    · exact hlength
    · exact hs.length_id i x hx
  · intro i x p hx hp
    rcases (hget i x).mp hx with ⟨rfl, rfl⟩ | hx
    · obtain rfl := Option.some.inj hp
      obtain ⟨y, hy, hfailover⟩ := hs.task t (List.mem_of_getElem? hk)
      exact ⟨y, hold _ y hy, by rw [hfailover]⟩
    · obtain ⟨y, hy, hname⟩ := hs.replica i x p hx hp
      exact ⟨y, hold p y hy, hname⟩
  · intro u hu
    rw [htasks] at hu
    obtain ⟨v, hv, hparent, hfailover⟩ := about_advance hk (by simp) hu
    obtain ⟨y, hy, hv'⟩ := hs.task v hv
    exact ⟨y, hold _ y (hparent ▸ hy), by rw [← hfailover, hv', hparent]⟩

/-- Every step keeps the lineage. -/
theorem lineage_step (hs : s.Lineage) (h : s.step sha256Text l = some s') : s'.Lineage := by
  have hsame : ∀ t ∈ s.failovers,
      ∃ u ∈ s.failovers, u.parent = t.parent ∧ u.failover = t.failover :=
    fun t ht => ⟨t, ht, rfl, rfl⟩
  cases step_cases h with
  | changes _ id x new events hl hx => exact hs.of_eq (identity?_set hx new) hsame
  | signals => exact hs.of_eq (identity?_congr rfl) hsame
  | begins action id events x eventId hevents hx =>
    refine ⟨hs.name_inj, hs.length_id, hs.replica, fun t ht => ?_⟩
    rcases mem_failovers_handleEvent ht with hold | rfl
    · exact hs.task t hold
    · exact ⟨x, hx, rfl⟩
  | rejected k t id error hk => exact hs.of_advance (identity?_congr rfl) hk none rfl nofun
  | accepted k t id error hk hstage hfree hid hlength =>
    exact hs.create hk hfree hid hlength rfl rfl
  | started k t id x hk hstage hx =>
    exact hs.of_advance (identity?_set hx _) hk (some { t with stage := .confirming id }) rfl
      (by simp)
  | raised k t error hk => exact hs.of_advance (identity?_congr rfl) hk none rfl nofun
  | confirmed k t id recovered hk => exact hs.of_advance (identity?_congr rfl) hk none rfl nofun
  | aborted k t hk =>
    exact hs.of_advance (identity?_congr rfl) hk
      (some { t with stage := .aborted t.stage.replica? }) rfl (by simp)
  | other => exact hs.of_eq (identity?_congr rfl) hsame

/-- A create is accepted when the name that it asks for is free. -/
theorem failover_goes_on (h : s.step sha256Text (.creates k id error) = some s')
    (hk : s.failovers[k]? = some t)
    (hfree : ∀ i x, s.identity? i = some x → x.name ≠ t.failover.replicaName) :
    s'.failovers[k]? = some { t with stage := .starting id } := by
  cases step_cases h with
  | changes _ _ _ _ _ hl => exact absurd hl (by simp)
  | rejected _ u _ _ hk' hstage htaken =>
    obtain rfl : t = u := Option.some.inj (hk.symm.trans hk')
    obtain ⟨i, x, hx, hname⟩ := nameTaken_iff.mp htaken
    exact absurd hname (hfree i x hx)
  | accepted _ u _ _ hk' =>
    obtain rfl : t = u := Option.some.inj (hk.symm.trans hk')
    obtain ⟨hlt, -⟩ := List.getElem?_eq_some_iff.mp hk
    exact List.getElem?_set_self hlt

/-- **Every name that `_failover` asks for is free exactly when no create is for a container
that has a replica already**, nor for a name that a container has which no failover created. -/
theorem replica_name_free_iff (hs : s.Initial) (ls : List ReplicaLabel) :
    Machine.Meets (step sha256Text) CreatesFresh s ls ↔
      Machine.Meets (step sha256Text) NoReplica s ls := by
  refine Machine.meets_iff_meets (I := Lineage) (fun s l s' hs _ h => lineage_step hs h)
    (fun s l s' hs h => ?_) hs.lineage ls
  constructor
  · intro hfresh k id error t hl hk
    exact (hs.name_free_iff (List.mem_of_getElem? hk)).mp (hfresh k id error t hl hk).1
  · intro hno k id error t hl hk
    have hfree := (hs.name_free_iff (List.mem_of_getElem? hk)).mpr (hno k id error t hl hk)
    subst hl
    exact ⟨hfree, failover_goes_on h hk hfree⟩

/-! ## A container that dies twice -/

/-- It dies, its replica comes up, it is started again, and it dies again. -/
def diesTwice : List ReplicaLabel :=
  [.exits "c0ffee00beef", .handle 0, .creates 0 "badcab1edeed" "", .starts 0, .confirms 0 true,
    .restarts "c0ffee00beef", .exits "c0ffee00beef", .handle 1, .handle 2, .handle 3]

/-- The create of the second failover. -/
def secondCreate : ReplicaLabel := .creates 0 "fadedfacade5" "409 Client Error: Conflict"

/-- The second failover asks for the name that the replica of the first has. -/
theorem second_death_conflicts : webWorld.Initial ∧
    ¬ Machine.Meets (step fun text => text) CreatesFresh webWorld (diesTwice ++ [secondCreate]) := by
  refine ⟨webWorld_initial, fun h => ?_⟩
  have htaken : ((Machine.exec (step fun text => text) webWorld diesTwice).bind fun s =>
      s.failovers[0]?.map fun t => s.nameTaken t.failover.replicaName) = some true := by
    decide +kernel
  have hruns : (Machine.exec (step fun text => text) webWorld
      (diesTwice ++ [secondCreate])).isSome = true := by
    decide +kernel
  obtain ⟨s, hs, hname⟩ := Option.bind_eq_some_iff.mp htaken
  obtain ⟨t, ht, hname⟩ := Option.map_eq_some_iff.mp hname
  obtain ⟨s₂, hs₂⟩ := Option.isSome_iff_exists.mp hruns
  rw [Machine.exec_append, hs, Option.bind_some] at hs₂
  obtain ⟨s', hs', -⟩ := (Machine.exec_cons_eq_some _).mp hs₂
  obtain ⟨i, x, hx, heq⟩ := nameTaken_iff.mp hname
  have hfresh := h diesTwice secondCreate (List.prefix_refl _) s s' hs hs'
  exact (hfresh 0 _ _ t rfl ht).1 i x hx heq

/-- The condition, on that run. -/
theorem replica_name_free_iff_web :
    Machine.Meets (step fun text => text) CreatesFresh webWorld (diesTwice ++ [secondCreate]) ↔
      Machine.Meets (step fun text => text) NoReplica webWorld (diesTwice ++ [secondCreate]) :=
  replica_name_free_iff webWorld_initial _

end ReplicaWorld
end Rcsce
