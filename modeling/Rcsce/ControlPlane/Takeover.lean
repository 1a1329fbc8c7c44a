import Rcsce.Lib.Progress
import Rcsce.ControlPlane.ActiveMaster

/-!
# The takeover

When the primary is down, the standby is to take over.  It knows nothing but the outcomes of its
own pings, and one of them may have been answered before the primary went down: this one sets
the count of failures back.  So whatever else goes on, with the mirror loop and the requests to
the standby in any order, the takeover comes with the fourth ping that ends, at the latest, and
the standby acts from then on if it has a Docker client (`takeover`).  And nothing keeps it from
pinging: its health check alone can bring the takeover about.
-/

namespace Rcsce

/-- A ping ends. -/
def MastersLabel.endsPing : MastersLabel → Bool
  | .pingAnswered | .pingFails => true
  | _ => false

/-- A primary starts. -/
def MastersLabel.startsPrimary : MastersLabel → Bool
  | .primaryStarts _ _ => true
  | _ => false

namespace MastersState

variable {sha256Text : String → String} {s s' t : MastersState} {l : MastersLabel}
  {listenerClient : Bool}

/-- The pings that it can take the standby to take over when the primary is down. -/
def pingsLeft (s : MastersState) : ℕ :=
  if s.standby.isPrimary then 0
  else match s.standby.ping with
    | .answered => failureThreshold + 1
    | _ => failureThreshold - s.standby.failureCount

/-- What is true of the standby at all times. -/
structure Watching (listenerClient : Bool) (s : MastersState) : Prop where
  counting : s.standby.isPrimary = false → s.standby.failureCount < failureThreshold
  quiet : s.standby.isPrimary = true → s.standby.ping = .sleeping
  listening : s.standby.node.listening = (s.standby.isPrimary && listenerClient)
  client : s.standby.node.listenerClient = listenerClient

theorem Watching.acting (hs : s.Watching listenerClient) :
    s.standby.acting = (s.standby.isPrimary && listenerClient) := by
  rw [Standby.acting, hs.listening, ← Bool.and_assoc, Bool.and_self]

theorem watching_start (primary : Primary) (disk : StateStore)
    (listenerClient engineClient : Bool) :
    (start primary disk listenerClient engineClient).Watching listenerClient :=
  ⟨fun _ => Nat.zero_lt_succ 2, nofun, rfl, rfl⟩

/-- A failed ping of a standby that has not taken over yet. -/
theorem pingFails_cases (hprimary : s.standby.isPrimary = false) :
    (failureThreshold ≤ s.standby.failureCount + 1 ∧ s.standby.pingFails =
      { s.standby with
        isPrimary := true, failureCount := s.standby.failureCount + 1, ping := .sleeping
        node := s.standby.node.listen }) ∨
    (s.standby.failureCount + 1 < failureThreshold ∧ s.standby.pingFails =
      { s.standby with failureCount := s.standby.failureCount + 1, ping := .sleeping }) := by
  rw [Standby.pingFails]
  dsimp only
  split_ifs with hdue
  · rw [Standby.promote, if_neg (by rw [hprimary]; exact Bool.false_ne_true)]
    exact Or.inl ⟨hdue, rfl⟩
  · exact Or.inr ⟨Nat.lt_of_not_le hdue, rfl⟩

/-- The health check of the standby, and its listener, are as they were. -/
structure SameWatch (s s' : MastersState) : Prop where
  isPrimary : s'.standby.isPrimary = s.standby.isPrimary
  failureCount : s'.standby.failureCount = s.standby.failureCount
  ping : s'.standby.ping = s.standby.ping
  listening : s'.standby.node.listening = s.standby.node.listening
  client : s'.standby.node.listenerClient = s.standby.node.listenerClient

/-- What a step does to the health check: it gets an answer, or fails, or sends a ping, which
only a primary that is up can answer; all other steps leave it alone. -/
theorem watch_cases (h : s.step sha256Text l = some s') :
    (l = .pingAnswered ∧ s.standby.ping = .answered ∧
      s' = { s with standby := { s.standby with failureCount := 0, ping := .sleeping } }) ∨
    (l = .pingFails ∧ s.standby.ping ≠ .sleeping ∧ s' = { s with standby := s.standby.pingFails }) ∨
    (l = .ping ∧ s.standby.isPrimary = false ∧ s.standby.ping = .sleeping ∧
      s' = { s with standby := { s.standby with ping := .sent } }) ∨
    (l = .health ∧ s.primary ≠ .down ∧ s.standby.ping = .sent ∧
      s' = { s with standby := { s.standby with ping := .answered } }) ∨
    (l.endsPing = false ∧ s.SameWatch s') := by
  cases l with
  | pingAnswered =>
    rw [step] at h
    split at h
    · rename_i hping
      exact Or.inl ⟨rfl, hping, (Option.some.inj h).symm⟩
    · cases h
  | pingFails =>
    rw [step] at h
    split at h
    · cases h
    · rename_i hping
      exact Or.inr (Or.inl ⟨rfl, hping, (Option.some.inj h).symm⟩)
  | ping =>
    rw [step] at h
    split at h
    · rename_i hping
      split_ifs at h with hprimary
      · rw [← Option.some.inj h]
        exact Or.inr (Or.inr (Or.inr (Or.inr ⟨rfl, rfl, rfl, rfl, rfl, rfl⟩)))
      · exact Or.inr (Or.inr (Or.inl ⟨rfl, Bool.eq_false_iff.mpr hprimary, hping,
          (Option.some.inj h).symm⟩))
    · cases h
  | health =>
    rw [step] at h
    split at h
    · rename_i node hup hping
      refine Or.inr (Or.inr (Or.inr (Or.inl ⟨rfl, ?_, hping, (Option.some.inj h).symm⟩)))
      rw [hup]
      rintro ⟨⟩
    · cases h
  | primary e =>
    rw [step] at h
    split at h
    · obtain ⟨node, -, rfl⟩ := Option.map_eq_some_iff.mp h
      exact Or.inr (Or.inr (Or.inr (Or.inr ⟨rfl, rfl, rfl, rfl, rfl, rfl⟩)))
    · cases h
  | standby e =>
    obtain ⟨node, hnode, rfl⟩ := Option.map_eq_some_iff.mp h
    obtain ⟨hlistening, hclient⟩ := listening_handle hnode
    exact Or.inr (Or.inr (Or.inr (Or.inr ⟨rfl, rfl, rfl, rfl, hlistening, hclient⟩)))
  | primaryStops =>
    rw [← Option.some.inj h]
    exact Or.inr (Or.inr (Or.inr (Or.inr ⟨rfl, rfl, rfl, rfl, rfl, rfl⟩)))
  | primaryStarts | primaryHangs | primaryResumes | status | statusAnswered | auditLog |
      auditAnswered | mirrorFails =>
    rw [step] at h
    split at h <;> cases h
    exact Or.inr (Or.inr (Or.inr (Or.inr ⟨rfl, rfl, rfl, rfl, rfl, rfl⟩)))
  | mirror =>
    rw [step] at h
    split at h
    · split_ifs at h <;>
        (rw [← Option.some.inj h]
         exact Or.inr (Or.inr (Or.inr (Or.inr ⟨rfl, rfl, rfl, rfl, rfl, rfl⟩))))
    · cases h

theorem Watching.failed (hs : s.Watching listenerClient) (hprimary : s.standby.isPrimary = false) :
    Watching listenerClient { s with standby := s.standby.pingFails } := by
  rcases pingFails_cases hprimary with ⟨-, heq⟩ | ⟨hdue, heq⟩
  · rw [heq]
    refine ⟨by rintro ⟨⟩, fun _ => rfl, ?_, hs.client⟩
    rw [MasterNode.listen, hs.client, Bool.true_and]
  · rw [heq]
    exact ⟨fun _ => hdue, fun h => absurd h (Bool.eq_false_iff.mp hprimary), hs.listening,
      hs.client⟩

/-- Who pings has not taken over. -/
theorem Watching.not_primary (hs : s.Watching listenerClient) (hping : s.standby.ping ≠ .sleeping) :
    s.standby.isPrimary = false :=
  Bool.eq_false_iff.mpr fun h => hping (hs.quiet h)

theorem Watching.step (hs : s.Watching listenerClient) (h : s.step sha256Text l = some s') :
    s'.Watching listenerClient := by
  rcases watch_cases h with ⟨-, hping, rfl⟩ | ⟨-, hping, rfl⟩ | ⟨-, hprimary, hping, rfl⟩ |
    ⟨-, -, hping, rfl⟩ | ⟨-, hsame⟩
  · exact ⟨fun _ => Nat.zero_lt_succ 2, fun _ => rfl, hs.listening, hs.client⟩
  · exact hs.failed (hs.not_primary hping)
  · exact ⟨hs.counting, fun h => (nomatch hprimary.symm.trans h), hs.listening, hs.client⟩
  · have hprimary : s.standby.isPrimary = false := hs.not_primary (by rw [hping]; nofun)
    exact ⟨hs.counting, fun h => (nomatch hprimary.symm.trans h), hs.listening, hs.client⟩
  · refine ⟨fun hprimary => ?_, fun hprimary => ?_, ?_, hsame.client.trans hs.client⟩
    · rw [hsame.failureCount]
      exact hs.counting (hsame.isPrimary ▸ hprimary)
    · rw [hsame.ping]
      exact hs.quiet (hsame.isPrimary ▸ hprimary)
    · rw [hsame.listening, hsame.isPrimary]
      exact hs.listening

/-- A primary that is down stays down until one is started. -/
theorem down_step (hdown : s.primary = .down) (hl : l.startsPrimary = false)
    (h : s.step sha256Text l = some s') : s'.primary = .down := by
  cases step_cases h with
  | primary e node node' hup => cases hdown.symm.trans hup
  | starts => cases hl
  | stops => rfl
  | hangs node hup => cases hdown.symm.trans hup
  | resumes node hhung => cases hdown.symm.trans hhung
  | serves depth node store hup => cases hdown.symm.trans hup
  | standby | pingFails | waits | mirrors | copies => exact hdown

/-- **Each ping that ends brings the takeover nearer**, and nothing puts it off. -/
theorem pingsLeft_step (hs : s.Watching listenerClient) (hdown : s.primary = .down)
    (h : s.step sha256Text l = some s') :
    (if l.endsPing then 1 else 0) + s'.pingsLeft ≤ s.pingsLeft := by
  rcases watch_cases h with ⟨rfl, hping, rfl⟩ | ⟨rfl, hping, rfl⟩ | ⟨rfl, hprimary, hping, rfl⟩ |
    ⟨-, hup, -, -⟩ | ⟨hends, hsame⟩
  · have hprimary := hs.not_primary (by rw [hping]; nofun)
    simp [pingsLeft, hprimary, hping, MastersLabel.endsPing, failureThreshold]
  · have hprimary := hs.not_primary hping
    have hcount := hs.counting hprimary
    have hleft : failureThreshold - s.standby.failureCount ≤ s.pingsLeft := by
      rw [pingsLeft, hprimary, if_neg Bool.false_ne_true]
      split
      · omega
      · exact le_rfl
    rcases pingFails_cases hprimary with ⟨-, heq⟩ | ⟨hdue, heq⟩
    · have hnew : pingsLeft { s with standby := s.standby.pingFails } = 0 := by
        rw [heq]
        rfl
      rw [hnew]
      exact (show 1 + 0 ≤ failureThreshold - s.standby.failureCount by omega).trans hleft
    · have hnew : pingsLeft { s with standby := s.standby.pingFails } =
          failureThreshold - (s.standby.failureCount + 1) := by
        rw [heq, pingsLeft, hprimary]
        rfl
      rw [hnew]
      exact (show 1 + _ ≤ failureThreshold - s.standby.failureCount by omega).trans hleft
  · simp [pingsLeft, hprimary, hping, MastersLabel.endsPing]
  · exact absurd hdown hup
  · rw [hends, pingsLeft, pingsLeft, hsame.isPrimary, hsame.failureCount, hsame.ping]
    simp

/-- The steps of the health check when there is no answer. -/
def PingsAlone (_ : MastersState) : MastersLabel → Prop
  | .ping | .pingFails => True
  | _ => False

/-- What the health check has to do, a ping in two steps. -/
def stepsLeft (s : MastersState) : ℕ :=
  if s.standby.isPrimary then 0
  else 2 * s.pingsLeft + match s.standby.ping with
    | .sleeping => 1
    | _ => 0

/-- The health check can always go on. -/
theorem pings_on (hs : s.Watching listenerClient) (hleft : 0 < s.stepsLeft) :
    ∃ l s', s.PingsAlone l ∧ s.step sha256Text l = some s' ∧ s'.Watching listenerClient ∧
      s'.stepsLeft < s.stepsLeft := by
  have hprimary : s.standby.isPrimary = false := by
    refine Bool.eq_false_iff.mpr fun hprimary => ?_
    rw [stepsLeft, if_pos hprimary] at hleft
    exact Nat.lt_irrefl 0 hleft
  have hcount := hs.counting hprimary
  by_cases hping : s.standby.ping = .sleeping
  · refine ⟨.ping, { s with standby := { s.standby with ping := .sent } }, trivial, ?_, ?_, ?_⟩
    · rw [step, hping, hprimary]
      rfl
    · exact ⟨hs.counting, fun h => absurd h (Bool.eq_false_iff.mp hprimary), hs.listening,
        hs.client⟩
    · simp [stepsLeft, pingsLeft, hprimary, hping]
  · refine ⟨.pingFails, { s with standby := s.standby.pingFails }, trivial, ?_,
      hs.failed hprimary, ?_⟩
    · rw [step]
      split
      · exact absurd ‹_› hping
      · rfl
    · have hold : 2 * (failureThreshold - s.standby.failureCount) ≤ s.stepsLeft := by
        rw [stepsLeft, pingsLeft, hprimary, if_neg Bool.false_ne_true, if_neg Bool.false_ne_true]
        cases s.standby.ping with
        | answered => dsimp only; omega
        | _ => exact Nat.le_add_right _ _
      rcases pingFails_cases hprimary with ⟨-, heq⟩ | ⟨hdue, heq⟩
      · have hnew : stepsLeft { s with standby := s.standby.pingFails } = 0 := by
          rw [heq]
          rfl
        rw [hnew]
        exact hleft
      · have hnew : stepsLeft { s with standby := s.standby.pingFails } =
            2 * (failureThreshold - (s.standby.failureCount + 1)) + 1 := by
          rw [heq, stepsLeft, pingsLeft, hprimary]
          rfl
        rw [hnew]
        omega

theorem pingsLeft_le (s : MastersState) : s.pingsLeft ≤ failureThreshold + 1 := by
  rw [pingsLeft]
  split_ifs
  · exact Nat.zero_le _
  · split <;> omega

/-- When it takes no more pings, the standby has taken over. -/
theorem Watching.taken (hs : s.Watching listenerClient) (hleft : s.pingsLeft = 0) :
    s.standby.isPrimary = true ∧ s.standby.acting = listenerClient := by
  have hprimary : s.standby.isPrimary = true := by
    by_contra hnot
    have hcount := hs.counting (Bool.eq_false_iff.mpr hnot)
    rw [pingsLeft, if_neg hnot] at hleft
    split at hleft <;> omega
  exact ⟨hprimary, by rw [hs.acting, hprimary, Bool.true_and]⟩

/-- **The takeover.**  When the primary is down after some run of the two masters, and no
primary is started any more, the standby has taken over, and acts if it has a Docker client, as
soon as `pingsLeft` more pings have ended, whatever else happens: as many as are missing to the
threshold, or one more than the threshold if the one that is under way has been answered.  And its
health check alone can bring this about. -/
theorem takeover (sha256Text : String → String) (primary : Primary) (disk : StateStore)
    (listenerClient engineClient : Bool) (ls : List MastersLabel) (s : MastersState)
    (h : Machine.exec (step sha256Text) (start primary disk listenerClient engineClient) ls =
      some s) (hdown : s.primary = .down) :
    s.pingsLeft ≤ failureThreshold + 1 ∧
    (∀ ls' t, Machine.exec (step sha256Text) s ls' = some t →
      (∀ l ∈ ls', l.startsPrimary = false) → s.pingsLeft ≤ ls'.countP MastersLabel.endsPing →
      t.standby.isPrimary = true ∧ t.standby.acting = listenerClient) ∧
    ∃ t, Machine.Reaches (step sha256Text) PingsAlone s t ∧ t.standby.isPrimary = true ∧
      t.standby.acting = listenerClient := by
  have hs : s.Watching listenerClient := Machine.exec_invariant
    (fun _ _ _ hs h => hs.step h) (watching_start primary disk listenerClient engineClient) h
  refine ⟨s.pingsLeft_le, ?_, ?_⟩
  · intro ls' t ht hnew hpings
    obtain ⟨⟨hwatching, -⟩, hle⟩ := Machine.countP_add_le
      (I := fun s => s.Watching listenerClient ∧ s.primary = .down)
      (C := fun l => l.startsPrimary = false) MastersLabel.endsPing pingsLeft
      (fun _ _ _ hs hl h => ⟨⟨hs.1.step h, down_step hs.2 hl h⟩, pingsLeft_step hs.1 hs.2 h⟩)
      ⟨hs, hdown⟩ hnew ht
    exact hwatching.taken (by omega)
  · obtain ⟨t, ht, hwatching, hzero⟩ := Machine.reaches_of_measure
      (I := Watching listenerClient) stepsLeft (fun _ hs hleft => pings_on hs hleft) hs
    refine ⟨t, ht, hwatching.taken ?_⟩
    rw [stepsLeft] at hzero
    split_ifs at hzero with hprimary
    · rw [pingsLeft, if_pos hprimary]
    · omega

/-- A ping is answered just before the primary crashes, so the first of the four is none that
fails. -/
def crashAfterAnswer : List MastersLabel := [.ping, .health, .primaryStops]

def fourPings : List MastersLabel :=
  [.pingAnswered, .ping, .pingFails, .mirror, .ping, .pingFails, .ping, .mirrorFails, .pingFails]

/-- The fourth ping brings the takeover. -/
theorem takeover_crash : ∃ s t,
    Machine.exec (step id) (start (.up (.new .empty true true)) .empty true true)
      crashAfterAnswer = some s ∧
    Machine.exec (step id) s fourPings = some t ∧ t.standby.acting = true := by
  have hs : Machine.exec (step id) (start (.up (.new .empty true true)) .empty true true)
      crashAfterAnswer = some _ := rfl
  have htakeover := takeover id (.up (.new .empty true true)) .empty true true crashAfterAnswer _ hs
    rfl
  exact ⟨_, _, hs, rfl, (htakeover.2.1 fourPings _ rfl (by decide) (by decide)).2⟩

end MastersState
end Rcsce
