import Rcsce.ControlPlane.StoreCalls

/-!
# Where everything that the masters show comes from

The stores of the primary and of the standby, the file that both save to and the answers on
their way from one to the other are copies of one another, of different ages.  A primary may
even start from a file that the standby has saved.  Whatever the order of all this, nothing is
made up and nothing gets mixed up: a field of a container or of a worker, a mark as critical, an
entry of the audit log or a queue depth that any of them holds was there at the beginning, or an
event of the run has written it, of this very container or worker (`facts_have_origins`).  The
stamps `updated_at`, `last_seen` and `logged_at`, which every write gives anew, are not among the
fields of `StateStore` and are not meant.

`Keyed` is what this rests on: the ids inside the records are the keys under which they are
filed, so the mirror files the fields that it reads under the right id.
-/

namespace Rcsce

/-! ## What an answer says -/

/-- What the answer of `/status` says. -/
def StatusAnswer.Says (answer : StatusAnswer) : StoreFact → Prop
  | .container c key v =>
      ∃ r ∈ answer.containers, r.get? "container_id" = some (.str c) ∧ r.get? key = some v
  | .worker w key v =>
      ∃ r ∈ answer.workers, r.get? "worker_id" = some (.str w) ∧ r.get? key = some v
  | .queueDepth depth => answer.queueDepth = depth
  | _ => False

/-- The worker records carry their ids. -/
def StatusAnswer.Named (answer : StatusAnswer) : Prop :=
  ∀ r ∈ answer.workers, ∃ w, r.get? "worker_id" = some (.str w)

/-- What the answer says that the mirror loop has got. -/
def MirrorStage.Says : MirrorStage → StoreFact → Prop
  | .statusAnswered answer _ => answer.Says
  | .auditAnswered entries => fun f => ∃ entry ∈ entries, f = .logged entry
  | _ => fun _ => False

def MirrorStage.Named : MirrorStage → Prop
  | .statusAnswered answer _ => answer.Named
  | _ => True

namespace StateStore

variable {s : StateStore} {f : StoreFact}

theorem named_status (hs : s.Keyed) : s.status.Named := by
  intro r hr
  obtain ⟨w, hw⟩ := OrderedDict.mem_values_iff.mp hr
  exact ⟨w, hs.workers w r hw⟩

/-- An answer of `/status` says what the store holds. -/
theorem holds_of_says_status (hs : s.Keyed) (hf : s.status.Says f) : s.Holds f := by
  cases f with
  | container c key v =>
    obtain ⟨r, hr, hid, hv⟩ := hf
    obtain ⟨d, hd⟩ := OrderedDict.mem_values_iff.mp hr
    obtain rfl : c = d := Json.str.inj (hs.containers d r _ hd hid)
    exact Option.bind_eq_some_iff.mpr ⟨r, hd, hv⟩
  | worker w key v =>
    obtain ⟨r, hr, hid, hv⟩ := hf
    obtain ⟨u, hu⟩ := OrderedDict.mem_values_iff.mp hr
    obtain rfl : w = u := Json.str.inj (Option.some.inj (hid.symm.trans (hs.workers u r hu)))
    exact Option.bind_eq_some_iff.mpr ⟨r, hu, hv⟩
  | queueDepth depth => exact hf
  | critical | logged => exact hf.elim

end StateStore

theorem str?_eq_some_iff {v : Json} {text : String} : v.str? = some text ↔ v = .str text := by
  cases v <;> simp [Json.str?]

namespace StatusAnswer

variable {answer : StatusAnswer} {c : StoreCall} {f : StoreFact}

/-- The calls of a pass: fields of a container under the id that its record carries, the same
for a worker, and the queue depth. -/
theorem mem_calls (hnamed : answer.Named) (hc : c ∈ answer.calls) :
    (∃ r ∈ answer.containers, ∃ cid, r.get? "container_id" = some (.str cid) ∧
        c = .upsertContainer cid r) ∨
      (∃ r ∈ answer.workers, ∃ w, r.get? "worker_id" = some (.str w) ∧ c = .upsertWorker w r) ∨
      c = .setQueueDepth answer.queueDepth := by
  rw [calls, List.mem_append, List.mem_append, List.mem_filterMap, List.mem_map,
    List.mem_singleton, or_assoc] at hc
  rcases hc with ⟨r, hr, hcall⟩ | ⟨r, hr, rfl⟩ | rfl
  · refine Or.inl ⟨r, hr, ?_⟩
    rw [StateStore.containerCall?] at hcall
    cases hid : (r.get? "container_id").bind Json.str? with
    | none =>
      rw [hid] at hcall
      cases hcall
    | some cid =>
      rw [hid] at hcall
      dsimp only at hcall
      split_ifs at hcall
      obtain ⟨v, hv, hstr⟩ := Option.bind_eq_some_iff.mp hid
      exact ⟨cid, str?_eq_some_iff.mp hstr ▸ hv, (Option.some.inj hcall).symm⟩
  · obtain ⟨w, hw⟩ := hnamed r hr
    refine Or.inr (Or.inl ⟨r, hr, w, hw, ?_⟩)
    rw [StateStore.workerKey, hw]
    rfl
  · exact Or.inr (Or.inr rfl)

/-- The calls of a pass say what the answer says. -/
theorem says_of_mem_calls (hnamed : answer.Named) (hc : c ∈ answer.calls) (hf : c.Says f) :
    answer.Says f := by
  rcases mem_calls hnamed hc with ⟨r, hr, cid, hid, rfl⟩ | ⟨r, hr, w, hw, rfl⟩ | rfl
  · cases f with
    | container d key v =>
      obtain ⟨rfl, hv⟩ := hf
      exact ⟨r, hr, hid, hv⟩
    | _ => exact hf.elim
  · cases f with
    | worker u key v =>
      obtain ⟨rfl, hv⟩ := hf
      rw [OrderedDict.set_of_get? hw] at hv
      exact ⟨r, hr, hw, hv⟩
    | _ => exact hf.elim
  · cases f with
    | queueDepth depth => exact Eq.symm hf
    | _ => exact hf.elim

end StatusAnswer

namespace StateStore

variable {s : StateStore} {f : StoreFact}

theorem keyed_mirrorStatus (hs : s.Keyed) {answer : StatusAnswer} (hnamed : answer.Named) :
    (s.mirrorStatus answer).Keyed := by
  rw [mirrorStatus_eq_perform, perform]
  have hcalls : ∀ c ∈ answer.calls, ∀ t : StateStore, t.Keyed → (t.call c).Keyed := by
    intro c hc t ht
    rcases StatusAnswer.mem_calls hnamed hc with ⟨r, -, cid, hid, rfl⟩ | ⟨r, -, w, -, rfl⟩ | rfl
    · exact ht.upsertContainer fun v hv => Option.some.inj (hv.symm.trans hid)
    · exact ht.upsertWorker w r
    · exact ht.congr rfl rfl
  generalize answer.calls = calls at hcalls
  induction calls generalizing s with
  | nil => exact hs
  | cons c calls ih =>
    exact ih (hcalls c List.mem_cons_self s hs) fun c' hc' => hcalls c' (List.mem_cons_of_mem _ hc')

theorem keyed_mirrorAudit (hs : s.Keyed) (entries : List Record) :
    (s.mirrorAudit entries).Keyed := by
  rw [mirrorAudit_eq_perform, perform]
  generalize s.newEntries entries = new
  induction new generalizing s with
  | nil => exact hs
  | cons entry new ih =>
    rw [List.map_cons, List.foldl_cons, call]
    exact ih (hs.appendAudit entry)

/-- After a pass the standby holds what it held and what the answer says. -/
theorem holds_mirrorStatus {answer : StatusAnswer} (hnamed : answer.Named)
    (hf : (s.mirrorStatus answer).Holds f) : s.Holds f ∨ answer.Says f := by
  rw [mirrorStatus_eq_perform] at hf
  refine (s.holds_perform _ f hf).imp_right ?_
  rintro ⟨c, hc, hsays⟩
  exact StatusAnswer.says_of_mem_calls hnamed hc hsays

theorem holds_mirrorAudit {entries : List Record} (hf : (s.mirrorAudit entries).Holds f) :
    s.Holds f ∨ ∃ entry ∈ entries, f = .logged entry := by
  rw [mirrorAudit_eq_perform] at hf
  refine (s.holds_perform _ f hf).imp_right ?_
  rintro ⟨c, hc, hsays⟩
  obtain ⟨entry, hentry, rfl⟩ := List.mem_map.mp hc
  cases f with
  | logged entry' => exact ⟨entry, (List.mem_filter.mp hentry).1, congrArg _ hsays⟩
  | _ => exact hsays.elim

end StateStore

/-- A failed ping leaves the store and the mirror loop alone, also when it promotes. -/
theorem Standby.kept_pingFails (s : Standby) :
    s.pingFails.node.store = s.node.store ∧ s.pingFails.mirror = s.mirror := by
  rw [pingFails]
  dsimp only
  split_ifs
  · rw [promote]
    split_ifs <;> exact ⟨rfl, rfl⟩
  · exact ⟨rfl, rfl⟩

namespace MastersState

variable {sha256Text : String → String} {s s' t : MastersState} {l : MastersLabel} {f : StoreFact}
  {ls : List MastersLabel}

/-- A store of the two processes, their file or an answer on its way holds the fact. -/
def Holds (s : MastersState) (f : StoreFact) : Prop :=
  (∃ store, s.primary.store? = some store ∧ store.Holds f) ∨ s.standby.node.store.Holds f ∨
    s.disk.Holds f ∨ s.standby.mirror.Says f

/-- What a step writes: what the event of a process writes there, or the queue depth that the
scheduler tells the primary. -/
def Says (sha256Text : String → String) (s : MastersState) : MastersLabel → StoreFact → Prop
  | .primary e, f => ∃ node, s.primary = .up node ∧ ∃ c ∈ node.calls sha256Text e, c.Says f
  | .standby e, f => ∃ c ∈ s.standby.node.calls sha256Text (.own e), c.Says f
  | .status (some depth), f => f = .queueDepth depth
  | _, _ => False

/-- The ids inside the records are the keys under which they are filed. -/
structure Keyed (s : MastersState) : Prop where
  primary : ∀ store, s.primary.store? = some store → store.Keyed
  standby : s.standby.node.store.Keyed
  disk : s.disk.Keyed
  answer : s.standby.mirror.Named

/-! ## The parts of a step -/

theorem holds_of_up {node : MasterNode} (hup : s.primary = .up node) (hf : node.store.Holds f) :
    s.Holds f :=
  Or.inl ⟨node.store, by rw [hup, Primary.store?], hf⟩

theorem Keyed.up (hs : s.Keyed) {node : MasterNode} (hup : s.primary = .up node) :
    node.store.Keyed :=
  hs.primary node.store (by rw [hup, Primary.store?])

theorem holds_primaryUp {node : MasterNode} {saves : Bool} (hf : (s.primaryUp node saves).Holds f) :
    node.store.Holds f ∨ s.Holds f := by
  rcases hf with ⟨store, hstore, hf⟩ | hf | hf | hf
  · exact Or.inl (Option.some.inj hstore ▸ hf)
  · exact Or.inr (Or.inr (Or.inl hf))
  · cases saves with
    | true => exact Or.inl hf
    | false => exact Or.inr (Or.inr (Or.inr (Or.inl hf)))
  · exact Or.inr (Or.inr (Or.inr (Or.inr hf)))

theorem Keyed.primaryUp (hs : s.Keyed) {node : MasterNode} (hnode : node.store.Keyed)
    (saves : Bool) : (s.primaryUp node saves).Keyed := by
  refine ⟨fun store hstore => Option.some.inj hstore ▸ hnode, hs.standby, ?_, hs.answer⟩
  cases saves with
  | true => exact hnode
  | false => exact hs.disk

theorem holds_standbyNode {node : MasterNode} (hf : (s.standbyNode node).Holds f) :
    node.store.Holds f ∨ s.Holds f := by
  rcases hf with hf | hf | hf | hf
  · exact Or.inr (Or.inl hf)
  · exact Or.inl hf
  · exact Or.inl hf
  · exact Or.inr (Or.inr (Or.inr (Or.inr hf)))

theorem holds_mirrorStep {store : StateStore} (mirror : MirrorStage) {saves : Bool}
    {mirrored : List String} (hmirror : ∀ f, ¬ mirror.Says f)
    (hf : Holds { s.mirrorStep store mirror saves with mirrored } f) :
    store.Holds f ∨ s.Holds f := by
  rcases hf with hf | hf | hf | hf
  · exact Or.inr (Or.inl hf)
  · exact Or.inl hf
  · cases saves with
    | true => exact Or.inl hf
    | false => exact Or.inr (Or.inr (Or.inr (Or.inl hf)))
  · exact absurd hf (hmirror f)

theorem Keyed.mirrorStep (hs : s.Keyed) (mirror : MirrorStage) {store : StateStore}
    (hstore : store.Keyed) (hmirror : mirror.Named) (saves : Bool) (mirrored : List String) :
    Keyed { s.mirrorStep store mirror saves with mirrored } := by
  refine ⟨hs.primary, hstore, ?_, hmirror⟩
  cases saves with
  | true => exact hstore
  | false => exact hs.disk

/-- A loop of the standby that goes on gets an answer of the primary at most. -/
theorem wait_cases (hs : s.Keyed) (hl : l.isWait = true) (h : s.step sha256Text l = some s') :
    ∃ failureCount ping mirror,
      s' = { s with standby := { s.standby with failureCount, ping, mirror } } ∧
        mirror.Named ∧ ∀ f, mirror.Says f → s.Holds f := by
  have hkept : ∀ f, s.standby.mirror.Says f → s.Holds f := fun _ hf => Or.inr (Or.inr (Or.inr hf))
  cases l with
  | ping =>
    rw [step] at h
    split at h
    · split_ifs at h <;> cases h <;> exact ⟨_, _, _, rfl, hs.answer, hkept⟩
    · cases h
  | health | pingAnswered =>
    rw [step] at h
    split at h
    · cases h
      exact ⟨_, _, _, rfl, hs.answer, hkept⟩
    · cases h
  | mirror =>
    rw [step] at h
    split at h
    · split_ifs at h <;> cases h
      · exact ⟨_, _, _, rfl, hs.answer, hkept⟩
      · exact ⟨_, _, .statusSent, rfl, trivial, fun _ hf => hf.elim⟩
    · cases h
  | auditLog =>
    rw [step] at h
    split at h
    · rename_i node hup _
      cases h
      refine ⟨_, _, .auditAnswered node.store.auditLog, rfl, trivial, ?_⟩
      rintro _ ⟨entry, hentry, rfl⟩
      exact holds_of_up hup hentry
    · cases h
  | mirrorFails =>
    rw [step] at h
    split at h
    · cases h
    · cases h
      exact ⟨_, _, .sleeping, rfl, trivial, fun _ hf => hf.elim⟩
  | _ => cases hl

/-- The primary serves `/status`. -/
theorem status_cases {depth : Option Json} (h : s.step sha256Text (.status depth) = some s') :
    ∃ node store, s.primary = .up node ∧
      (store = node.store ∨ ∃ d, depth = some d ∧ store = node.store.setQueueDepth d) ∧
      s' = { s.primaryUp { node with store } depth.isSome with
        standby := { s.standby with
          mirror := .statusAnswered store.status store.criticalHeld } } := by
  rw [step] at h
  split at h
  · rename_i node hup _
    cases h
    cases depth with
    | none => exact ⟨node, _, hup, Or.inl rfl, rfl⟩
    | some d => exact ⟨node, _, hup, Or.inr ⟨d, rfl, rfl⟩, rfl⟩
  · cases h

/-! ## One step -/

/-- Every step keeps the ids. -/
theorem keyed_step (hs : s.Keyed) (h : s.step sha256Text l = some s') : s'.Keyed := by
  cases step_cases h with
  | primary e node node' hup hnode =>
    exact hs.primaryUp (MasterNode.keyed_handlePrimary (hs.up hup) hnode) e.saves
  | starts listenerClient engineClient hdown => exact hs.primaryUp hs.disk.clearAllWorkers true
  | stops => exact ⟨nofun, hs.standby, hs.disk, hs.answer⟩
  | hangs node hup =>
    exact ⟨fun store hstore => hs.primary store (hup ▸ hstore), hs.standby, hs.disk, hs.answer⟩
  | resumes node hhung =>
    exact ⟨fun store hstore => hs.primary store (hhung ▸ hstore), hs.standby, hs.disk, hs.answer⟩
  | standby e node hnode =>
    have hkeyed := MasterNode.keyed_handle hs.standby hnode
    exact ⟨hs.primary, hkeyed, hkeyed, hs.answer⟩
  | pingFails =>
    obtain ⟨hstore, hmirror⟩ := Standby.kept_pingFails s.standby
    exact ⟨hs.primary, hstore ▸ hs.standby, hs.disk, hmirror ▸ hs.answer⟩
  | waits l hl =>
    obtain ⟨failureCount, ping, mirror, heq, hnamed, -⟩ := wait_cases hs hl h
    rw [heq]
    exact ⟨hs.primary, hs.standby, hs.disk, hnamed⟩
  | serves depth =>
    obtain ⟨node, store, hup, hstore, heq⟩ := status_cases h
    have hkeyed : store.Keyed := by
      rcases hstore with rfl | ⟨d, -, rfl⟩
      · exact hs.up hup
      · exact (hs.up hup).congr rfl rfl
    have hserved : Keyed (s.primaryUp { node with store } depth.isSome) :=
      hs.primaryUp hkeyed depth.isSome
    rw [heq]
    exact ⟨hserved.primary, hs.standby, hserved.disk, StateStore.named_status hkeyed⟩
  | mirrors answer critical hstage =>
    have hanswer := hs.answer
    rw [hstage] at hanswer
    exact hs.mirrorStep .auditSent (StateStore.keyed_mirrorStatus hs.standby hanswer)
      trivial true _
  | copies entries hstage =>
    exact hs.mirrorStep .sleeping (StateStore.keyed_mirrorAudit hs.standby entries)
      trivial _ s.mirrored

/-- **A step brings no fact but those that it says.** -/
theorem holds_step (hs : s.Keyed) (h : s.step sha256Text l = some s') (f : StoreFact)
    (hf : s'.Holds f) : s.Holds f ∨ s.Says sha256Text l f := by
  cases step_cases h with
  | primary e node node' hup hnode =>
    rcases holds_primaryUp hf with hnew | hold
    · rw [MasterNode.store_handlePrimary hnode] at hnew
      rcases node.store.holds_perform _ f hnew with hold | hsays
      · exact Or.inl (holds_of_up hup hold)
      · exact Or.inr ⟨node, hup, hsays⟩
    · exact Or.inl hold
  | starts listenerClient engineClient hdown =>
    rcases holds_primaryUp hf with hnew | hold
    · exact Or.inl (Or.inr (Or.inr (Or.inl (StateStore.holds_clearAllWorkers hnew))))
    · exact Or.inl hold
  | stops =>
    rcases hf with ⟨store, hstore, -⟩ | hold
    · cases hstore
    · exact Or.inl (Or.inr hold)
  | hangs node hup =>
    rcases hf with ⟨store, hstore, hold⟩ | hold
    · exact Or.inl (Or.inl ⟨store, hup ▸ hstore, hold⟩)
    · exact Or.inl (Or.inr hold)
  | resumes node hhung =>
    rcases hf with ⟨store, hstore, hold⟩ | hold
    · exact Or.inl (Or.inl ⟨store, hhung ▸ hstore, hold⟩)
    · exact Or.inl (Or.inr hold)
  | standby e node hnode =>
    rcases holds_standbyNode hf with hnew | hold
    · have hstore := MasterNode.store_handlePrimary (e := .own e) hnode
      rw [hstore] at hnew
      exact (s.standby.node.store.holds_perform _ f hnew).imp_left (Or.inr ∘ Or.inl)
    · exact Or.inl hold
  | pingFails =>
    obtain ⟨hstore, hmirror⟩ := Standby.kept_pingFails s.standby
    rcases hf with hold | hold | hold | hanswer
    · exact Or.inl (Or.inl hold)
    · exact Or.inl (Or.inr (Or.inl (hstore ▸ hold)))
    · exact Or.inl (Or.inr (Or.inr (Or.inl hold)))
    · exact Or.inl (Or.inr (Or.inr (Or.inr (hmirror ▸ hanswer))))
  | waits l hl =>
    obtain ⟨failureCount, ping, mirror, heq, -, hmirror⟩ := wait_cases hs hl h
    rw [heq] at hf
    rcases hf with hold | hold | hold | hanswer
    · exact Or.inl (Or.inl hold)
    · exact Or.inl (Or.inr (Or.inl hold))
    · exact Or.inl (Or.inr (Or.inr (Or.inl hold)))
    · exact Or.inl (hmirror f hanswer)
  | serves depth =>
    obtain ⟨node, store, hup, hstore, heq⟩ := status_cases h
    have hserved : store.Holds f → s.Holds f ∨ s.Says sha256Text (.status depth) f := by
      rcases hstore with rfl | ⟨d, rfl, rfl⟩
      · exact fun hold => Or.inl (holds_of_up hup hold)
      · intro hnew
        rcases node.store.holds_call (.setQueueDepth d) f hnew with hold | hsays
        · exact Or.inl (holds_of_up hup hold)
        · cases f with
          | queueDepth d' => exact Or.inr (congrArg _ hsays)
          | _ => exact hsays.elim
    rw [heq] at hf
    rcases hf with ⟨store', hstore', hf⟩ | hf | hf | hf
    · obtain rfl : store = store' := Option.some.inj hstore'
      exact hserved hf
    · exact Or.inl (Or.inr (Or.inl hf))
    · cases depth with
      | none => exact Or.inl (Or.inr (Or.inr (Or.inl hf)))
      | some d => exact hserved hf
    · have hkeyed : store.Keyed := by
        rcases hstore with rfl | ⟨d, -, rfl⟩
        · exact hs.up hup
        · exact (hs.up hup).congr rfl rfl
      exact hserved (StateStore.holds_of_says_status hkeyed hf)
  | mirrors answer critical hstage =>
    have hnamed := hs.answer
    rw [hstage] at hnamed
    rcases holds_mirrorStep .auditSent (fun _ hsays => hsays) hf with hnew | hold
    · rcases StateStore.holds_mirrorStatus hnamed hnew with hold | hanswer
      · exact Or.inl (Or.inr (Or.inl hold))
      · refine Or.inl (Or.inr (Or.inr (Or.inr ?_)))
        rw [hstage]
        exact hanswer
    · exact Or.inl hold
  | copies entries hstage =>
    rcases holds_mirrorStep .sleeping (fun _ hsays => hsays) hf with hnew | hold
    · rcases StateStore.holds_mirrorAudit hnew with hold | hanswer
      · exact Or.inl (Or.inr (Or.inl hold))
      · refine Or.inl (Or.inr (Or.inr (Or.inr ?_)))
        rw [hstage]
        exact hanswer
    · exact Or.inl hold

/-- **Nothing is made up and nothing gets mixed up.**  Take any run of the two masters, with
crashes, lost and late answers and the file that they share.  Every field of a container or of a
worker, mark, audit entry and queue depth that one of the stores, the file or an answer holds at
the end, its stamps apart, was held at the beginning, or an event of the run has written it, for
the same container or worker. -/
theorem facts_have_origins (sha256Text : String → String) (s t : MastersState)
    (ls : List MastersLabel) (hs : s.Keyed)
    (h : Machine.exec (step sha256Text) s ls = some t) (f : StoreFact) (hf : t.Holds f) :
    s.Holds f ∨ Machine.Said (step sha256Text) (Says sha256Text) s ls f :=
  Machine.held_or_said (fun _ _ _ hs h => keyed_step hs h) (fun _ _ _ hs h => holds_step hs h) hs h
    hf

theorem keyed_start (primary : Primary) {disk : StateStore}
    (hprimary : ∀ store, primary.store? = some store → store.Keyed) (hdisk : disk.Keyed)
    (listenerClient engineClient : Bool) :
    (start primary disk listenerClient engineClient).Keyed :=
  ⟨hprimary, hdisk, hdisk, trivial⟩

/-- The primary handles the start of a container, the standby copies it, and the primary that
comes back after a crash finds what the standby has saved. -/
def copiedAndBack : List MastersLabel :=
  [.primaryStarts true true, .primary (.own (.docker ⟨.start, "c1", some "web", some "nginx",
    none, 0⟩)), .mirror, .status none, .statusAnswered, .primaryStops, .primaryStarts true true]

/-- What all of them show of the container comes from the one event. -/
theorem facts_have_origins_copied :
    Machine.Said (step id) (Says id) (start .down .empty true true) copiedAndBack
      (.container "c1" "name" (.str "web")) := by
  obtain ⟨t, hexec, hprimary⟩ : ∃ t,
      Machine.exec (step id) (start .down .empty true true) copiedAndBack = some t ∧
        t.Holds (.container "c1" "name" (.str "web")) :=
    ⟨_, rfl, Or.inl ⟨_, rfl, rfl⟩⟩
  have hkeyed := keyed_start .down (fun _ h => nomatch h) .empty true true
  rcases facts_have_origins id _ t copiedAndBack hkeyed hexec _ hprimary with hold | hsaid
  · rcases hold with ⟨store, hstore, -⟩ | hold | hold | hold
    · cases hstore
    · cases hold
    · cases hold
    · exact hold.elim
  · exact hsaid

end MastersState
end Rcsce
