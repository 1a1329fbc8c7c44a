import Rcsce.ControlPlane.Masters

/-!
# One active master

The standby decides on its promotion by its own pings alone, a primary that starts or
wakes up never asks whether there is another, and a promoted standby never steps down.
So nothing in the two processes keeps them from acting together, and
`one_active_master_iff` is the exact condition on what happens around them.
-/

namespace Rcsce
namespace MastersState

variable {sha256Text : String → String}

/-- At most one of the two processes acts on container events. -/
def OneActive (s : MastersState) : Prop := ¬ (s.primary.acting = true ∧ s.standby.acting = true)

instance : DecidablePred OneActive := fun _ => inferInstanceAs (Decidable (¬ _))

/-- The next failed ping promotes the standby. -/
def PromotionDue (s : MastersState) : Prop :=
  s.standby.isPrimary = false ∧ failureThreshold ≤ s.standby.failureCount + 1

/-- A step that does not set up a second active process: with a Docker client, the
standby is not promoted while the primary acts, and no primary with a Docker client is
started or wakes up while the standby acts. -/
def Exclusive (s : MastersState) (l : MastersLabel) (_ : MastersState) : Prop :=
  match l with
  | .pingFails => s.PromotionDue → s.standby.node.listenerClient = true → s.primary.acting = false
  | .primaryStarts listenerClient _ => listenerClient = true → s.standby.acting = false
  | .primaryResumes =>
      ∀ node, s.primary = .hung node → node.listening = true → s.standby.acting = false
  | _ => True

/-! ## What makes a process active -/

theorem oneActive_iff {s : MastersState} :
    s.OneActive ↔ (s.primary.acting = true → s.standby.acting = false) := by
  rw [OneActive, not_and, Bool.not_eq_true]

theorem OneActive.congr {s s' : MastersState} (hs : s.OneActive)
    (hprimary : s'.primary.acting = true → s.primary.acting = true)
    (hstandby : s'.standby.acting = true → s.standby.acting = true) : s'.OneActive :=
  fun ⟨hp, hst⟩ => hs ⟨hprimary hp, hstandby hst⟩

/-- No event starts or stops the listener of the process in which it happens. -/
theorem listening_handle {m m' : MasterNode} {e : MasterEvent}
    (h : m.handle sha256Text e = some m') :
    m'.listening = m.listening ∧ m'.listenerClient = m.listenerClient := by
  cases e with
  | docker e =>
    rw [MasterNode.handle] at h
    split_ifs at h
    cases h
    unfold MasterNode.handleEvent
    split <;> exact ⟨rfl, rfl⟩
  | cacheAnswered k hit =>
    obtain ⟨e, -, rfl⟩ := Option.map_eq_some_iff.mp h
    cases hit <;> exact ⟨rfl, rfl⟩
  | pushed | failedOver | failoverRaised =>
    obtain ⟨_, -, rfl⟩ := Option.map_eq_some_iff.mp h
    exact ⟨rfl, rfl⟩
  | markCritical | anomaly =>
    cases h
    exact ⟨rfl, rfl⟩

theorem listening_handlePrimary {m m' : MasterNode} {e : PrimaryEvent}
    (h : m.handlePrimary sha256Text e = some m') : m'.listening = m.listening := by
  cases e with
  | own e => exact (listening_handle h).1
  | workerHeartbeat | workerDead | scanComplete | queueDepth =>
    cases h
    rfl

/-- The standby acts after a failed ping exactly when it did before or is promoted with a
Docker client. -/
theorem acting_pingFails (s : MastersState) :
    s.standby.pingFails.acting = true ↔
      s.standby.acting = true ∨ (s.PromotionDue ∧ s.standby.node.listenerClient = true) := by
  rw [Standby.pingFails, PromotionDue]
  dsimp only
  split_ifs with hdue
  · cases hprimary : s.standby.isPrimary with
    | true =>
      simp only [Standby.promote, Standby.acting, hprimary, if_true, Bool.true_eq_false, false_and,
        or_false]
    | false =>
      simp only [Standby.promote, Standby.acting, hprimary, Bool.false_eq_true, if_false,
        MasterNode.listen, Bool.true_and, Bool.false_and, false_or, true_and, hdue]
  · rw [or_iff_left fun h => hdue h.1.2]
    rfl

/-! ## One step -/

/-- A promotion sets up a second active process exactly when it is not exclusive. -/
theorem pingFails_oneActive_iff {s : MastersState} (hs : s.OneActive) :
    OneActive { s with standby := s.standby.pingFails } ↔ s.Exclusive .pingFails s := by
  rw [oneActive_iff, Exclusive]
  change (s.primary.acting = true → s.standby.pingFails.acting = false) ↔ _
  rw [← Bool.not_eq_true s.standby.pingFails.acting, acting_pingFails, not_or]
  constructor
  · intro hnot hdue hclient
    by_contra hacting
    rw [Bool.not_eq_false] at hacting
    exact (hnot hacting).2 ⟨hdue, hclient⟩
  · intro hexcl hacting
    refine ⟨fun hst => hs ⟨hacting, hst⟩, fun ⟨hdue, hclient⟩ => ?_⟩
    rw [hexcl hdue hclient] at hacting
    cases hacting

/-- **The step.**  While at most one process acts, a step keeps it so exactly when it is
exclusive. -/
theorem step_oneActive_iff {s s' : MastersState} {l : MastersLabel} (hs : s.OneActive)
    (h : s.step sha256Text l = some s') : s'.OneActive ↔ s.Exclusive l s' := by
  cases step_cases h with
  | pingFails => exact pingFails_oneActive_iff hs
  | starts => exact oneActive_iff
  | resumes node hhung =>
    rw [oneActive_iff, Exclusive]
    change (node.listening = true → s.standby.acting = false) ↔ _
    constructor
    · intro hres node' hnode' hlistening
      cases hhung.symm.trans hnode'
      exact hres hlistening
    · exact fun hexcl => hexcl node hhung
  | primary e node node' hup hnode =>
    refine iff_of_true (hs.congr (fun hacting => ?_) fun hacting => hacting) trivial
    rw [hup]
    exact (listening_handlePrimary hnode).symm.trans hacting
  | stops | hangs => exact iff_of_true (hs.congr nofun fun hacting => hacting) trivial
  | standby e node hnode =>
    refine iff_of_true (hs.congr (fun hacting => hacting) fun hacting => ?_) trivial
    rw [Standby.acting, ← (listening_handle hnode).1]
    exact hacting
  | waits l hl =>
    have hexcl : s.Exclusive l s := by
      cases l <;> first
        | exact trivial
        | cases hl
    exact iff_of_true (hs.congr (fun hacting => hacting) fun hacting => hacting) hexcl
  | serves depth node store hup =>
    refine iff_of_true (hs.congr (fun hacting => ?_) fun hacting => hacting) trivial
    rw [hup]
    exact hacting
  | mirrors | copies =>
    exact iff_of_true (hs.congr (fun hacting => hacting) fun hacting => hacting) trivial

/-! ## Whole runs -/

/-- **When at most one master is active.**  At every point of a run at most one of the two
processes acts on container events, if and only if every step of the run is exclusive. -/
theorem one_active_master_iff (sha256Text : String → String) (primary : Primary)
    (disk : StateStore) (listenerClient engineClient : Bool) (ls : List MastersLabel) :
    Machine.Visits (step sha256Text) OneActive
        (start primary disk listenerClient engineClient) ls ↔
      Machine.Meets (step sha256Text) Exclusive
        (start primary disk listenerClient engineClient) ls := by
  refine Machine.visits_iff_meets (I := fun _ => True) (fun _ _ _ _ _ => trivial) ?_ trivial ?_ ls
  · intro s l s' _ hs h
    exact step_oneActive_iff hs h
  · exact fun ⟨_, hacting⟩ => nomatch hacting

/-- The primary is up and listens, three of its answers are lost, and both processes act
on the events of the same Docker. -/
theorem two_active_masters :
    ∃ s, Machine.exec (step id)
        (start (.up (.listen (.new .empty true true))) .empty true true)
        [.ping, .health, .pingFails, .ping, .health, .pingFails, .ping, .health, .pingFails] =
          some s ∧
      s.primary.acting = true ∧ s.standby.acting = true ∧ ¬ s.OneActive := by
  refine ⟨_, rfl, rfl, rfl, by decide⟩

end MastersState
end Rcsce
