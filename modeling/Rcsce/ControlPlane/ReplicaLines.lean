import Rcsce.Lib.Progress
import Rcsce.ControlPlane.ReplicaNames
import Rcsce.ControlPlane.Cascade

/-!
# Lines of replicas

A container that dies gets a replica, the replica may die and get one of its own, and a
container that is started again may die again.  As the name of a replica depends on nothing but
its container, Docker allows each container one replica for good.

## 1.  The lines

`ReplicaOf p i` says that `i` was created in answer to a death of `p`.  With the containers that
were there at the start as their beginnings, the containers form lines (`replica_lines`): each
belongs to the line of one original, a line does not branch, and all of a line run the image of
its beginning.

## 2.  The next of a line

The end of a line can be continued.  When Docker has reported the death of a critical container
without a replica, the process can handle the events up to that one, and then create, start and
confirm a replica that is critical in its turn (`service_restored`).
-/

namespace Rcsce
namespace ReplicaWorld

open Relation (ReflTransGen)

/-- `i` was created in answer to a death of `p`. -/
def ReplicaOf (s : ReplicaWorld) (p i : String) : Prop :=
  ∃ x, s.identity? i = some x ∧ x.parent = some p

variable {sha256Text : String → String} {s₀ s s' : ReplicaWorld} {l : ReplicaLabel}
  {i j o p : String} {x y : ContainerIdentity}

/-! ## 1.  The lines -/

/-- A container has one replica at most. -/
theorem Lineage.replica_unique (hs : s.Lineage) (hi : s.ReplicaOf p i) (hj : s.ReplicaOf p j) :
    i = j := by
  obtain ⟨x, hx, hxp⟩ := hi
  obtain ⟨y, hy, hyp⟩ := hj
  obtain ⟨z, hz, hname⟩ := hs.replica i x p hx hxp
  obtain ⟨z', hz', hname'⟩ := hs.replica j y p hy hyp
  obtain rfl : z = z' := Option.some.inj (hz.symm.trans hz')
  exact hs.name_inj i j x y hx hy (hname.trans hname'.symm)

theorem parent_unique (hi : s.ReplicaOf o i) (hi' : s.ReplicaOf p i) : o = p := by
  obtain ⟨x, hx, hxo⟩ := hi
  obtain ⟨y, hy, hyp⟩ := hi'
  obtain rfl : x = y := Option.some.inj (hx.symm.trans hy)
  exact Option.some.inj (hxo.symm.trans hyp)

/-- Two that descend from one container descend one from the other. -/
theorem Lineage.line_total (hs : s.Lineage) (hi : ReflTransGen s.ReplicaOf o i)
    (hj : ReflTransGen s.ReplicaOf o j) :
    ReflTransGen s.ReplicaOf i j ∨ ReflTransGen s.ReplicaOf j i :=
  hi.total_of_right_unique (fun _ _ _ => hs.replica_unique) hj

/-- A container that nobody has created for a death begins its line. -/
theorem eq_of_descends (ho : s.identity? o = some x) (hparent : x.parent = none)
    (h : ReflTransGen s.ReplicaOf p o) : p = o := by
  rcases h.cases_tail with heq | ⟨q, -, y, hy, hq⟩
  · exact heq.symm
  · obtain rfl : x = y := Option.some.inj (ho.symm.trans hy)
    rw [hparent] at hq
    exact nomatch hq

/-- The beginning of a line is unique. -/
theorem origin_unique (ho : s.identity? o = some x) (hox : x.parent = none)
    (hp : s.identity? p = some y) (hpy : y.parent = none) (hoi : ReflTransGen s.ReplicaOf o i)
    (hpi : ReflTransGen s.ReplicaOf p i) : o = p := by
  have hunique : Relator.RightUnique (Function.swap s.ReplicaOf) :=
    fun _ _ _ h h' => parent_unique h h'
  rcases hoi.swap.total_of_right_unique hunique hpi.swap with h | h
  · exact (eq_of_descends ho hox h.swap).symm
  · exact eq_of_descends hp hpy h.swap

/-- The containers stay, and one that is new is the replica of a failover. -/
structure Grown (s s' : ReplicaWorld) : Prop where
  kept : ∀ i x, s.identity? i = some x → s'.identity? i = some x
  new : ∀ i x, s'.identity? i = some x → s.identity? i = some x ∨ ∃ t ∈ s.failovers,
    x = ⟨t.failover.replicaName, t.failover.image, some t.parent⟩

theorem Grown.of_eq (h : ∀ i, s'.identity? i = s.identity? i) : s.Grown s' :=
  ⟨fun i _ hx => (h i).trans hx, fun i _ hx => Or.inl ((h i).symm.trans hx)⟩

theorem grown_step (h : s.step sha256Text l = some s') : s.Grown s' := by
  cases step_cases h with
  | changes _ id x new events hl hx => exact .of_eq (identity?_set hx new)
  | started k t id x hk hstage hx => exact .of_eq (identity?_set hx _)
  | accepted k t id error hk hstage hfree hid =>
    refine ⟨fun i x hx => (identity?_set_of_notMem hid _).mpr (Or.inr hx), fun i x hx => ?_⟩
    rcases (identity?_set_of_notMem hid _).mp hx with ⟨-, rfl⟩ | hold
    · exact Or.inr ⟨t, List.mem_of_getElem? hk, rfl⟩
    · exact Or.inl hold
  | signals | begins | rejected | raised | confirmed | aborted | other =>
    exact .of_eq (identity?_congr rfl)

/-- The containers of `s`, in the lines that begin in `s₀`. -/
structure Lines (s₀ s : ReplicaWorld) : Prop where
  lineage : s.Lineage
  kept : ∀ o x, s₀.identity? o = some x → s.identity? o = some x
  descends : ∀ i x, s.identity? i = some x → ∃ o y, s₀.identity? o = some y ∧
    ReflTransGen s.ReplicaOf o i ∧ x.image = y.image

theorem Initial.lines (hs : s.Initial) : s.Lines s :=
  ⟨hs.lineage, fun _ _ hx => hx, fun i x hx => ⟨i, x, hx, .refl, rfl⟩⟩

theorem lines_step (hs : s₀.Lines s) (h : s.step sha256Text l = some s') : s₀.Lines s' := by
  obtain ⟨hkept, hnew⟩ := grown_step h
  have hmono : ∀ p i, s.ReplicaOf p i → s'.ReplicaOf p i :=
    fun p i ⟨x, hx, hp⟩ => ⟨x, hkept i x hx, hp⟩
  refine ⟨lineage_step hs.lineage h, fun o x hx => hkept o x (hs.kept o x hx), fun i x hx => ?_⟩
  rcases hnew i x hx with hold | ⟨t, ht, rfl⟩
  · obtain ⟨o, y, hy, hline, himage⟩ := hs.descends i x hold
    exact ⟨o, y, hy, ReflTransGen.mono hmono _ _ hline, himage⟩
  · obtain ⟨z, hz, hfailover⟩ := hs.lineage.task t ht
    obtain ⟨o, y, hy, hline, himage⟩ := hs.descends t.parent z hz
    have hlast : s'.ReplicaOf t.parent i := ⟨_, hx, rfl⟩
    refine ⟨o, y, hy, (ReflTransGen.mono hmono _ _ hline).tail hlast, ?_⟩
    rw [hfailover]
    exact himage

/-- The name for a replica is free, when the container has none and no original has the name. -/
theorem Lines.name_free (hs : s₀.Lines s) {c : String} (hy : s.identity? c = some y)
    (hnone : ∀ i, ¬ s.ReplicaOf c i) (hfree : ∀ o x, s₀.identity? o = some x →
      x.name ≠ (Failover.mk (leading 12 c) y.name y.image).replicaName) (i : String)
    (x : ContainerIdentity) (hx : s.identity? i = some x) :
    x.name ≠ (Failover.mk (leading 12 c) y.name y.image).replicaName := by
  intro hname
  cases hparent : x.parent with
  | none =>
    obtain ⟨o, z, hz, hline, -⟩ := hs.descends i x hx
    obtain rfl := eq_of_descends hx hparent hline
    obtain rfl : x = z := Option.some.inj (hx.symm.trans (hs.kept _ _ hz))
    exact hfree _ _ hz hname
  | some p =>
    obtain ⟨z, hz, hname'⟩ := hs.lineage.replica i x p hx hparent
    obtain rfl : p = c := hs.lineage.parent_unique hz hy (hname'.symm.trans hname)
    exact hnone i ⟨x, hx, hparent⟩

/-- **The containers form lines.**  Whatever dies, is started again and fails over, and in
whatever order: a container has at most one replica; every container descends from exactly one
of those that were there at the start, and runs its image; and of two that descend from one
container, one descends from the other. -/
theorem replica_lines (hs₀ : s₀.Initial) (ls : List ReplicaLabel)
    (h : Machine.exec (step sha256Text) s₀ ls = some s) :
    (∀ p i j, s.ReplicaOf p i → s.ReplicaOf p j → i = j) ∧
      (∀ i x, s.identity? i = some x → ∃ o y, s₀.identity? o = some y ∧ x.image = y.image ∧
        ReflTransGen s.ReplicaOf o i ∧
        ∀ o', (s₀.identity? o').isSome = true → ReflTransGen s.ReplicaOf o' i → o' = o) ∧
      ∀ o i j, ReflTransGen s.ReplicaOf o i → ReflTransGen s.ReplicaOf o j →
        ReflTransGen s.ReplicaOf i j ∨ ReflTransGen s.ReplicaOf j i := by
  have hs : s₀.Lines s := Machine.exec_invariant (fun _ _ _ => lines_step) hs₀.lines h
  refine ⟨fun p i j => hs.lineage.replica_unique, fun i x hx => ?_,
    fun o i j => hs.lineage.line_total⟩
  obtain ⟨o, y, hy, hline, himage⟩ := hs.descends i x hx
  refine ⟨o, y, hy, himage, hline, fun o' ho' hline' => ?_⟩
  obtain ⟨z, hz⟩ := Option.isSome_iff_exists.mp ho'
  exact origin_unique (hs.kept o' z hz) (hs₀.parent o' z hz) (hs.kept o y hy) (hs₀.parent o y hy)
    hline' hline

/-- A container dies and gets a replica, and then the replica dies and gets one. -/
def replicaDies : List ReplicaLabel :=
  [.exits "c0ffee00beef", .handle 0, .creates 0 "badcab1edeed" "", .starts 0, .confirms 0 true,
    .exits "badcab1edeed", .handle 1, .handle 2, .creates 0 "fadedfacade5" ""]

/-- The three make one line. -/
theorem replica_lines_replica_dies : ∃ s,
    Machine.exec (step fun text => text) webWorld replicaDies = some s ∧
      s.ReplicaOf "c0ffee00beef" "badcab1edeed" ∧ s.ReplicaOf "badcab1edeed" "fadedfacade5" ∧
      ∀ p i j, s.ReplicaOf p i → s.ReplicaOf p j → i = j := by
  have hparents : ((Machine.exec (step fun text => text) webWorld replicaDies).map fun s =>
      ((s.identity? "badcab1edeed").map ContainerIdentity.parent,
        (s.identity? "fadedfacade5").map ContainerIdentity.parent)) =
      some (some (some "c0ffee00beef"), some (some "badcab1edeed")) := by
    decide +kernel
  obtain ⟨s, hs, hparents⟩ := Option.map_eq_some_iff.mp hparents
  obtain ⟨hfirst, hsecond⟩ := Prod.mk.inj hparents
  exact ⟨s, hs, Option.map_eq_some_iff.mp hfirst, Option.map_eq_some_iff.mp hsecond,
    (replica_lines webWorld_initial replicaDies hs).1⟩

/-! ## 2.  The next of a line -/

/-- Every event is about a container. -/
def EventsKnown (s : ReplicaWorld) : Prop := ∀ e ∈ s.events, e.2 ∈ s.containers

theorem eventsKnown_changeState {id : String} {old new : ContainerState} {action : DockerAction}
    (hs : s.EventsKnown) (h : s.changeState id old new action = some s') : s'.EventsKnown := by
  obtain ⟨x, hx, -, rfl⟩ := changeState_eq_some h
  intro e he
  refine OrderedDict.mem_set.mpr ?_
  rcases List.mem_append.mp he with hold | hnew
  · exact Or.inr (hs e hold)
  · exact Or.inl (List.mem_singleton.mp hnew ▸ rfl)

theorem eventsKnown_step (hs : s.EventsKnown) (h : s.step sha256Text l = some s') :
    s'.EventsKnown := by
  cases step_cases h with
  | changes _ id x new events hl =>
    rcases hl with rfl | rfl
    · exact eventsKnown_changeState hs h
    · exact eventsKnown_changeState hs h
  | signals action id =>
    rw [step] at h
    split_ifs at h with hknown
    intro e he
    rcases List.mem_append.mp he with hold | hnew
    · exact hs e hold
    · obtain rfl := List.mem_singleton.mp hnew
      exact hknown.2
  | begins action id events x eventId hevents =>
    exact fun e he => hs e (hevents ▸ List.mem_cons_of_mem _ he)
  | accepted => exact fun e he => OrderedDict.mem_set.mpr (Or.inr (hs e he))
  | started k t id x hk hstage hx =>
    intro e he
    refine OrderedDict.mem_set.mpr ?_
    rcases List.mem_append.mp he with hold | hnew
    · exact Or.inr (hs e hold)
    · exact Or.inl (List.mem_singleton.mp hnew ▸ rfl)
  | rejected | raised | confirmed | aborted | other => exact fun e he => hs e he

/-- The steps of the process, with a Docker that does what it is asked to do. -/
def Cooperates (_ : ReplicaWorld) : ReplicaLabel → Prop
  | .handle _ | .creates _ _ _ | .starts _ | .confirms _ true => True
  | _ => False

/-- The handlers of the events before one of them. -/
theorem reaches_event (sha256Text : String → String)
    {before after : List (DockerAction × String)} (hs : s.EventsKnown)
    (hevents : s.events = before ++ after) :
    ∃ t, Machine.Reaches (step sha256Text) Cooperates s t ∧ t.events = after ∧
      t.containers = s.containers ∧ t.store.critical = s.store.critical ∧
      t.engineClient = s.engineClient := by
  induction before generalizing s with
  | nil => exact ⟨s, .refl s, hevents, rfl, rfl, rfl⟩
  | cons e before ih =>
    obtain ⟨action, id⟩ := e
    have hknown : id ∈ s.containers := hs (action, id) (hevents ▸ List.mem_cons_self)
    obtain ⟨x, hx⟩ := OrderedDict.mem_iff_get?.mp hknown
    have hstep : s.step sha256Text (.handle 0) = some
        { s.handleEvent (dockerEvent id x.identity action 0) with events := before ++ after } := by
      simp only [step, hevents, List.cons_append, identity?, hx, Option.map_some]
    obtain ⟨t, hreach, hafter, hcontainers, hcritical, hclient⟩ :=
      ih (eventsKnown_step hs hstep) rfl
    have hcooperates : s.Cooperates (.handle 0) := trivial
    exact ⟨t, hreach.head hcooperates hstep, hafter, hcontainers,
      hcritical.trans (MasterNode.critical_handleEvent _ _), hclient⟩

/-- Docker never runs out of ids. -/
theorem exists_new_id (s : ReplicaWorld) : ∃ id, id ∉ s.containers ∧ 12 ≤ id.toList.length := by
  have hinj : Function.Injective fun n => String.ofList (List.replicate (n + 12) 'a') := by
    intro m n h
    have hlength := congrArg (fun text => text.toList.length) h
    simpa using hlength
  obtain ⟨id, ⟨n, rfl⟩, hid⟩ :=
    (Set.infinite_range_of_injective hinj).exists_notMem_finset s.containers.keys.toFinset
  refine ⟨_, fun hmem => hid (List.mem_toFinset.mpr hmem), ?_⟩
  simp

section Steps

variable (sha256Text) {k : ℕ} {t : FailoverTask} {id : String}

/-- The handler of the death of a critical container begins its failover. -/
theorem handles_death {c : String} {after : List (DockerAction × String)}
    (hevents : s.events = (.die, c) :: after) (hy : s.identity? c = some y)
    (hcritical : leading 12 c ∈ s.store.critical) (hclient : s.engineClient = true) :
    ∃ s', s.step sha256Text (.handle 0) = some s' ∧ s'.containers = s.containers ∧
      s'.failovers[s.failovers.length]? =
        some ⟨c, ⟨leading 12 c, y.name, y.image⟩, .creating⟩ := by
  refine ⟨{ s.handleEvent (dockerEvent c y .die 0) with events := after }, ?_, rfl, ?_⟩
  · simp only [step, hevents, hy, Option.map_some]
  · have hfailovers : (s.handleEvent (dockerEvent c y .die 0)).failovers =
        s.failovers ++ [⟨c, (dockerEvent c y .die 0).failover, .creating⟩] :=
      failovers_handleEvent rfl hcritical hclient
    show (s.handleEvent (dockerEvent c y .die 0)).failovers[s.failovers.length]? = _
    rw [hfailovers, List.getElem?_concat_length]
    rfl

/-- Docker takes the create. -/
theorem creates_replica (hk : s.failovers[k]? = some t) (hstage : t.stage = .creating)
    (hfree : s.nameTaken t.failover.replicaName = false) (hid : id ∉ s.containers)
    (hlength : 12 ≤ id.toList.length) :
    ∃ s', s.step sha256Text (.creates k id "") = some s' ∧
      s'.failovers[k]? = some { t with stage := .starting id } ∧
      s'.containers = s.containers.set id
        ⟨⟨t.failover.replicaName, t.failover.image, some t.parent⟩, .created⟩ := by
  obtain ⟨hlt, -⟩ := List.getElem?_eq_some_iff.mp hk
  refine ⟨{ s with
    containers := s.containers.set id
      ⟨⟨t.failover.replicaName, t.failover.image, some t.parent⟩, .created⟩
    failovers := advance s.failovers k (some { t with stage := .starting id }) },
    ?_, List.getElem?_set_self hlt, rfl⟩
  simp [step, hk, hstage, create, hfree, hid, hlength]

/-- Docker starts it. -/
theorem starts_replica {x : DockerContainer} (hk : s.failovers[k]? = some t)
    (hstage : t.stage = .starting id) (hx : s.containers.get? id = some x)
    (hcreated : x.state = .created) :
    ∃ s', s.step sha256Text (.starts k) = some s' ∧
      s'.failovers[k]? = some { t with stage := .confirming id } ∧
      s'.containers = s.containers.set id { x with state := .running } := by
  obtain ⟨hlt, -⟩ := List.getElem?_eq_some_iff.mp hk
  refine ⟨{ s with
    containers := s.containers.set id { x with state := .running }
    events := s.events ++ [(.start, id)]
    failovers := advance s.failovers k (some { t with stage := .confirming id }) },
    ?_, List.getElem?_set_self hlt, rfl⟩
  simp [step, hk, hstage, changeState, hx, hcreated]

/-- The health checks find it running. -/
theorem confirms_replica (hk : s.failovers[k]? = some t) (hstage : t.stage = .confirming id) :
    ∃ s', s.step sha256Text (.confirms k true) = some s' ∧
      leading 12 id ∈ s'.store.critical ∧ s'.containers = s.containers := by
  refine ⟨{ s with
    store := s.store.onFailover t.failover id true
    failovers := advance s.failovers k none }, ?_, ?_, rfl⟩
  · simp [step, hk, hstage]
  · rw [StateStore.critical_onFailover]
    exact Finset.mem_insert_self _ _

/-- A failover that begins comes to a replica that runs and is critical. -/
theorem reaches_replica (hk : s.failovers[k]? = some t) (hstage : t.stage = .creating)
    (hfree : s.nameTaken t.failover.replicaName = false) :
    ∃ s' i, Machine.Reaches (step sha256Text) Cooperates s s' ∧ i ∉ s.containers ∧
      s'.containers.get? i =
        some ⟨⟨t.failover.replicaName, t.failover.image, some t.parent⟩, .running⟩ ∧
      (∀ j, j ≠ i → s'.containers.get? j = s.containers.get? j) ∧
      leading 12 i ∈ s'.store.critical := by
  obtain ⟨id, hid, hlength⟩ := exists_new_id s
  obtain ⟨s₁, hstep₁, hk₁, hcontainers₁⟩ :=
    creates_replica sha256Text hk hstage hfree hid hlength
  have hget₁ := OrderedDict.get?_set_self s.containers id
    ⟨⟨t.failover.replicaName, t.failover.image, some t.parent⟩, .created⟩
  obtain ⟨s₂, hstep₂, hk₂, hcontainers₂⟩ :=
    starts_replica sha256Text hk₁ rfl (hcontainers₁ ▸ hget₁) rfl
  obtain ⟨s₃, hstep₃, hcritical, hcontainers₃⟩ :=
    confirms_replica sha256Text hk₂ rfl
  have hcreates : s.Cooperates (.creates k id "") := trivial
  have hstarts : s₁.Cooperates (.starts k) := trivial
  have hconfirms : s₂.Cooperates (.confirms k true) := trivial
  refine ⟨s₃, id, (((Machine.Reaches.single hconfirms hstep₃).head hstarts hstep₂).head hcreates
    hstep₁), hid, ?_, fun j hj => ?_, hcritical⟩
  · rw [hcontainers₃, hcontainers₂, OrderedDict.get?_set_self]
  · rw [hcontainers₃, hcontainers₂, OrderedDict.get?_set_of_ne _ _ hj, hcontainers₁,
      OrderedDict.get?_set_of_ne _ _ hj]

end Steps

/-- **The end of a line can be continued.**  In every state that a run leads to, when Docker has
reported the death of a critical container that has no replica, and no container that was there
at the start has the name for one, the process can come to a replica that runs and is critical
itself, whatever else is on its way; no other container changes. -/
theorem service_restored (hs₀ : s₀.Initial) (hknown : s₀.EventsKnown) (ls : List ReplicaLabel)
    (h : Machine.exec (step sha256Text) s₀ ls = some s) (hclient : s.engineClient = true)
    {c : String} (hdied : (.die, c) ∈ s.events) (hy : s.identity? c = some y)
    (hcritical : s.store.isCritical (leading 12 c) = true) (hnone : ∀ i, ¬ s.ReplicaOf c i)
    (hfree : ∀ o x, s₀.identity? o = some x →
      x.name ≠ (Failover.mk (leading 12 c) y.name y.image).replicaName) :
    ∃ t i, Machine.Reaches (step sha256Text) Cooperates s t ∧ i ∉ s.containers ∧
      t.containers.get? i = some ⟨⟨(Failover.mk (leading 12 c) y.name y.image).replicaName,
        y.image, some c⟩, .running⟩ ∧
      t.store.isCritical (leading 12 i) = true ∧
      ∀ j, j ≠ i → t.containers.get? j = s.containers.get? j := by
  have hevents : s.EventsKnown :=
    Machine.exec_invariant (I := EventsKnown) (fun _ _ _ => eventsKnown_step) hknown h
  have hlines : s₀.Lines s := Machine.exec_invariant (fun _ _ _ => lines_step) hs₀.lines h
  obtain ⟨before, after, hsplit⟩ := List.append_of_mem hdied
  obtain ⟨s₁, hreach₁, hafter, hcontainers₁, hset, hengine⟩ :=
    reaches_event sha256Text hevents hsplit
  obtain ⟨s₂, hstep₂, hcontainers₂, hk⟩ := handles_death sha256Text hafter
    ((identity?_congr hcontainers₁ c).trans hy) (hset ▸ StateStore.isCritical_iff.mp hcritical)
    (hengine.trans hclient)
  have hcontainers : s₂.containers = s.containers := hcontainers₂.trans hcontainers₁
  -- neither a replica nor an original has the name
  have hname : s₂.nameTaken (Failover.mk (leading 12 c) y.name y.image).replicaName = false := by
    rw [Bool.eq_false_iff, Ne, nameTaken_iff]
    rintro ⟨i, x, hx, heq⟩
    rw [identity?_congr hcontainers] at hx
    exact hlines.name_free hy hnone hfree i x hx heq
  obtain ⟨t, i, hreach, hi, hget, hother, hmarked⟩ := reaches_replica sha256Text hk rfl hname
  have hhandle : s₁.Cooperates (.handle 0) := trivial
  refine ⟨t, i, hreach₁.trans (hreach.head hhandle hstep₂), hcontainers ▸ hi, hget,
    StateStore.isCritical_iff.mpr hmarked, fun j hj => ?_⟩
  rw [hother j hj, hcontainers]

/-- The container of `webWorld` has died. -/
def webDies : ReplicaWorld := { webWorld with
  containers := webWorld.containers.set "c0ffee00beef" ⟨⟨"web", "nginx", none⟩, .exited⟩
  events := [(.die, "c0ffee00beef")] }

theorem webDies_identity? {i : String} {x : ContainerIdentity} :
    webDies.identity? i = some x ↔ i = "c0ffee00beef" ∧ x = ⟨"web", "nginx", none⟩ := by
  have hx : webWorld.containers.get? "c0ffee00beef" = some ⟨⟨"web", "nginx", none⟩, .running⟩ :=
    OrderedDict.get?_set_self _ _ _
  rw [← webWorld_identity?, ← identity?_set hx .exited i]
  rfl

/-- Its replica comes up. -/
theorem service_restored_web : ∃ t i,
    Machine.exec (step fun text => text) webWorld [.exits "c0ffee00beef"] = some webDies ∧
      Machine.Reaches (step fun text => text) Cooperates webDies t ∧
      t.containers.get? i =
        some ⟨⟨"web-replica-c0ffee", "nginx", some "c0ffee00beef"⟩, .running⟩ ∧
      t.store.isCritical (leading 12 i) = true := by
  have hexec : Machine.exec (step fun text => text) webWorld [.exits "c0ffee00beef"] =
      some webDies := by with_unfolding_all rfl
  have hnone : ∀ i, ¬ webDies.ReplicaOf "c0ffee00beef" i := by
    rintro i ⟨x, hx, hparent⟩
    rw [(webDies_identity?.mp hx).2] at hparent
    exact nomatch hparent
  have hfree : ∀ o x, webWorld.identity? o = some x →
      x.name ≠ (Failover.mk (leading 12 "c0ffee00beef") "web" "nginx").replicaName := by
    intro o x hx
    rw [(webWorld_identity?.mp hx).2]
    decide
  have hmarked : webDies.store.isCritical (leading 12 "c0ffee00beef") = true := by
    decide +kernel
  obtain ⟨t, i, hreach, -, hget, hcritical, -⟩ := service_restored webWorld_initial nofun _ hexec
    rfl List.mem_cons_self (webDies_identity?.mpr ⟨rfl, rfl⟩) hmarked hnone hfree
  exact ⟨t, i, hexec, hreach, hget, hcritical⟩

end ReplicaWorld
end Rcsce
