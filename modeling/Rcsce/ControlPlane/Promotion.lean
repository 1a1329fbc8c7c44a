import Rcsce.Lib.Machine
import Rcsce.Lib.Window
import Rcsce.ControlPlane.Masters

/-!
# The promotion of the standby

`health_check_loop`, `promote_to_primary` and `state_mirror_loop` of
`control_plane/api/standby.py` at the granularity of their awaits: the health loop sleeps,
waits for the answer to a ping, or waits in the broadcast of the promotion, and the mirror
loop and everything else in the process goes on meanwhile.

## The result

The counter is the number of failures since the last healthy ping (`Counting`), although it
is reset and the loop is suspended in between.  So the standby is primary exactly when the
last pings, as many as the threshold, have all failed, and this is the first time
(`promotion_exact`); then it pings no more, and has started its listener once.
-/

namespace Rcsce

/-- What becomes of a ping. -/
inductive PingOutcome where
  | status (code : ℕ)
  | raised
  deriving DecidableEq

/-- The branch of the loop that resets the counter. -/
def PingOutcome.healthy (o : PingOutcome) : Bool := o = .status 200

/-- The standby process, and what it has done. -/
structure PromotionState where
  standby : Standby
  /-- `promote_to_primary` waits in its broadcast. -/
  broadcasting : Bool
  /-- The outcomes of the pings so far. -/
  outcomes : List PingOutcome
  /-- How often the task of `listen` has been created. -/
  listens : ℕ

/-- What can happen next. -/
inductive PromotionLabel where
  /-- The health loop wakes. -/
  | wake
  /-- The ping returns. -/
  | pinged (o : PingOutcome)
  /-- The broadcast returns. -/
  | broadcast
  /-- The mirror loop wakes. -/
  | mirrorWakes
  | statusAnswered (answer : StatusAnswer)
  | auditAnswered (entries : List Record)
  /-- The pass ends with an exception. -/
  | mirrorFails
  /-- Anything else that happens in the process. -/
  | own (e : MasterEvent)

/-- The outcome of the ping that returns. -/
def PromotionLabel.outcome? : PromotionLabel → Option PingOutcome
  | .pinged o => some o
  | _ => none

namespace PromotionState

/-- The standby has just started. -/
def init (node : MasterNode) : PromotionState :=
  ⟨⟨node, false, 0, .sleeping, .sleeping⟩, false, [], 0⟩

/-- The health loop, from the answer to its next await. -/
def afterPing (s : PromotionState) (o : PingOutcome) : PromotionState :=
  if o.healthy then { s with
    standby := { s.standby with failureCount := 0, ping := .sleeping }
    outcomes := s.outcomes ++ [o] }
  else
    let standby := s.standby.pingFails
    let promoted := !s.standby.isPrimary && standby.isPrimary
    { s with
      standby := standby
      broadcasting := promoted
      outcomes := s.outcomes ++ [o]
      listens := if promoted then s.listens + 1 else s.listens }

/-- The mirror loop, from its sleep to its next await. -/
def mirrorWakes (s : PromotionState) : PromotionState :=
  if s.standby.isPrimary then s
  else { s with standby := { s.standby with mirror := .statusSent } }

/-- The mirror loop goes on to `mirror`, with this store. -/
def mirrored (s : PromotionState) (store : StateStore) (mirror : MirrorStage) : PromotionState :=
  { s with standby := { s.standby with
      node := { s.standby.node with store := store }
      mirror := mirror } }

/-- One step. -/
def step (sha256Text : String → String) (s : PromotionState) :
    PromotionLabel → Option PromotionState
  | .wake =>
      match s.standby.ping, s.broadcasting with
      | .sleeping, false =>
        some (if s.standby.isPrimary then s
          else { s with standby := { s.standby with ping := .sent } })
      | _, _ => none
  | .pinged o =>
      match s.standby.ping with
      | .sent => some (s.afterPing o)
      | _ => none
  | .broadcast => if s.broadcasting then some { s with broadcasting := false } else none
  | .mirrorWakes =>
      match s.standby.mirror with
      | .sleeping => some s.mirrorWakes
      | _ => none
  | .statusAnswered answer =>
      match s.standby.mirror with
      | .statusSent => some (s.mirrored (s.standby.node.store.mirrorStatus answer) .auditSent)
      | _ => none
  | .auditAnswered entries =>
      match s.standby.mirror with
      | .auditSent => some (s.mirrored (s.standby.node.store.mirrorAudit entries) .sleeping)
      | _ => none
  | .mirrorFails =>
      match s.standby.mirror with
      | .statusSent | .auditSent => some (s.mirrored s.standby.node.store .sleeping)
      | _ => none
  | .own e => (s.standby.node.handle sha256Text e).map fun node =>
      { s with standby := { s.standby with node := node } }

/-! ## What a step does -/

variable {sha256Text : String → String} {s s' : PromotionState} {l : PromotionLabel}

/-- The step is none of the health loop that matters: at most it sends the next ping, and only
while the standby is not primary. -/
structure Quiet (s s' : PromotionState) : Prop where
  outcomes : s'.outcomes = s.outcomes
  listens : s'.listens = s.listens
  isPrimary : s'.standby.isPrimary = s.standby.isPrimary
  failureCount : s'.standby.failureCount = s.standby.failureCount
  ping : s'.standby.ping = .sent → s.standby.ping = .sent ∨ s.standby.isPrimary = false

theorem Quiet.of_ping_eq (houtcomes : s'.outcomes = s.outcomes) (hlistens : s'.listens = s.listens)
    (hprimary : s'.standby.isPrimary = s.standby.isPrimary)
    (hcount : s'.standby.failureCount = s.standby.failureCount)
    (hping : s'.standby.ping = s.standby.ping) : Quiet s s' :=
  ⟨houtcomes, hlistens, hprimary, hcount, fun h => Or.inl (hping ▸ h)⟩

/-- Every step is the return of a ping, or quiet. -/
theorem step_cases (h : s.step sha256Text l = some s') :
    (∃ o, l = .pinged o ∧ s.standby.ping = .sent ∧ s' = s.afterPing o) ∨
      l.outcome? = none ∧ Quiet s s' := by
  cases l with
  | wake =>
    refine Or.inr ⟨rfl, ?_⟩
    rw [step] at h
    split at h
    · cases h
      split_ifs with hprimary
      · exact .of_ping_eq rfl rfl rfl rfl rfl
      · exact ⟨rfl, rfl, rfl, rfl, fun _ => Or.inr (Bool.not_eq_true _ ▸ hprimary)⟩
    · cases h
  | pinged o =>
    rw [step] at h
    split at h
    · cases h
      exact Or.inl ⟨o, rfl, ‹_›, rfl⟩
    · cases h
  | broadcast =>
    rw [step] at h
    split_ifs at h
    cases h
    exact Or.inr ⟨rfl, .of_ping_eq rfl rfl rfl rfl rfl⟩
  | mirrorWakes =>
    rw [step] at h
    split at h
    · cases h
      rw [mirrorWakes]
      split_ifs
      · exact Or.inr ⟨rfl, .of_ping_eq rfl rfl rfl rfl rfl⟩
      · exact Or.inr ⟨rfl, .of_ping_eq rfl rfl rfl rfl rfl⟩
    · cases h
  | statusAnswered | auditAnswered | mirrorFails =>
    rw [step] at h
    split at h
    all_goals cases h
    all_goals exact Or.inr ⟨rfl, .of_ping_eq rfl rfl rfl rfl rfl⟩
  | own e =>
    obtain ⟨node, -, rfl⟩ := Option.map_eq_some_iff.mp h
    exact Or.inr ⟨rfl, .of_ping_eq rfl rfl rfl rfl rfl⟩

/-! ## The counter -/

/-- The failures since the last healthy ping. -/
def failureRun (os : List PingOutcome) : List PingOutcome := os.rtakeWhile fun o => !o.healthy

/-- The last pings, as many as the threshold, have all failed. -/
def ThresholdReached (os : List PingOutcome) : Prop :=
  failureThreshold ≤ os.length ∧ ∀ o ∈ os.rtake failureThreshold, o.healthy = false

theorem thresholdReached_iff (os : List PingOutcome) :
    ThresholdReached os ↔ failureThreshold ≤ (failureRun os).length := by
  rw [failureRun, Window.le_length_rtakeWhile_iff, ThresholdReached]
  simp only [Bool.not_eq_true']

theorem length_failureRun_concat (os : List PingOutcome) (o : PingOutcome) :
    (failureRun (os ++ [o])).length = if o.healthy then 0 else (failureRun os).length + 1 := by
  rw [failureRun, List.rtakeWhile_concat]
  cases o.healthy <;> simp [failureRun]

/-- **The invariant.**  The counter is the length of the run of failures, the standby is
primary when it is long enough, and it was not long enough before. -/
structure Counting (s : PromotionState) : Prop where
  count : s.standby.failureCount = (failureRun s.outcomes).length
  primary : s.standby.isPrimary = true ↔ failureThreshold ≤ s.standby.failureCount
  first : ∀ os, os <+: s.outcomes → os ≠ s.outcomes → ¬ ThresholdReached os
  listens : s.listens = if s.standby.isPrimary then 1 else 0
  sent : s.standby.ping = .sent → s.standby.isPrimary = false

theorem counting_init (node : MasterNode) : Counting (init node) where
  count := rfl
  primary := iff_of_false Bool.false_ne_true (Nat.not_succ_le_zero 2)
  first := fun _ hos hne => absurd (List.prefix_nil.mp hos) hne
  listens := rfl
  sent := fun h => nomatch h

theorem Counting.quiet (hs : s.Counting) (h : Quiet s s') : s'.Counting where
  count := by rw [h.failureCount, h.outcomes, hs.count]
  primary := by rw [h.isPrimary, h.failureCount, hs.primary]
  first := by rw [h.outcomes]; exact hs.first
  listens := by rw [h.listens, h.isPrimary, hs.listens]
  sent := by
    intro hping
    rw [h.isPrimary]
    exact (h.ping hping).elim hs.sent id

/-- While a ping is on its way, no prefix of the outcomes reaches the threshold. -/
theorem Counting.not_thresholdReached (hs : s.Counting) (hsent : s.standby.ping = .sent)
    {os : List PingOutcome} (hos : os <+: s.outcomes) : ¬ ThresholdReached os := by
  by_cases hall : os = s.outcomes
  · subst hall
    rw [thresholdReached_iff, ← hs.count, ← hs.primary, hs.sent hsent]
    exact Bool.false_ne_true
  · exact hs.first os hos hall

@[simp] theorem outcomes_afterPing (s : PromotionState) (o : PingOutcome) :
    (s.afterPing o).outcomes = s.outcomes ++ [o] := by
  rw [afterPing]
  split_ifs
  · rfl
  · rfl

/-- A failed ping of a standby that is not primary. -/
theorem pingFails_eq {st : Standby} (hprimary : st.isPrimary = false) :
    st.pingFails.ping = .sleeping ∧ st.pingFails.failureCount = st.failureCount + 1 ∧
      (st.pingFails.isPrimary = true ↔ failureThreshold ≤ st.failureCount + 1) := by
  rw [Standby.pingFails]
  dsimp only
  split_ifs with hcount
  · rw [Standby.promote, hprimary]
    exact ⟨rfl, rfl, iff_of_true rfl hcount⟩
  · exact ⟨rfl, rfl, iff_of_false (fun h => nomatch hprimary.symm.trans h) hcount⟩

/-- A ping of a standby that is not primary. -/
theorem afterPing_eq (hprimary : s.standby.isPrimary = false) (o : PingOutcome) :
    (s.afterPing o).standby.ping = .sleeping ∧
      (s.afterPing o).standby.failureCount =
        (if o.healthy then 0 else s.standby.failureCount + 1) ∧
      ((s.afterPing o).standby.isPrimary = true ↔
        failureThreshold ≤ (s.afterPing o).standby.failureCount) ∧
      (s.afterPing o).listens =
        if (s.afterPing o).standby.isPrimary then s.listens + 1 else s.listens := by
  by_cases ho : o.healthy
  · rw [afterPing, if_pos ho, if_pos ho]
    refine ⟨rfl, rfl, iff_of_false ?_ (Nat.not_succ_le_zero 2), ?_⟩
    · exact fun h => nomatch hprimary.symm.trans h
    · simp only [hprimary, Bool.false_eq_true, if_false]
  · obtain ⟨hping, hcount, hiff⟩ := pingFails_eq hprimary
    rw [afterPing, if_neg ho, if_neg ho]
    refine ⟨hping, hcount, ?_, ?_⟩
    · show s.standby.pingFails.isPrimary = true ↔
        failureThreshold ≤ s.standby.pingFails.failureCount
      rw [hcount, hiff]
    · simp only [hprimary, Bool.not_false, Bool.true_and]

theorem Counting.pinged (hs : s.Counting) (hsent : s.standby.ping = .sent) (o : PingOutcome) :
    (s.afterPing o).Counting := by
  have hprimary := hs.sent hsent
  have houtcomes := outcomes_afterPing s o
  obtain ⟨hping, hcount, hiff, hlistens⟩ := afterPing_eq hprimary o
  refine ⟨?_, hiff, ?_, ?_, ?_⟩
  · rw [hcount, houtcomes, length_failureRun_concat, hs.count]
  · intro os hos hne
    rw [houtcomes] at hos hne
    rcases List.prefix_concat_iff.mp hos with heq | hold
    · exact absurd heq hne
    · exact hs.not_thresholdReached hsent hold
  · have hzero : s.listens = 0 := by rw [hs.listens, hprimary, if_neg Bool.false_ne_true]
    rw [hlistens, hzero]
  · intro h
    rw [hping] at h
    cases h

/-- **The step of the invariant.** -/
theorem step_counting (hs : s.Counting) (h : s.step sha256Text l = some s') : s'.Counting := by
  rcases step_cases h with ⟨o, -, hsent, rfl⟩ | ⟨-, hquiet⟩
  · exact hs.pinged hsent o
  · exact hs.quiet hquiet

/-! ## Promotion -/

/-- The standby is primary when the threshold is reached, which it has not been before, and has
started its listener then. -/
structure PromotedExactly (s : PromotionState) : Prop where
  primary : s.standby.isPrimary = true ↔ ThresholdReached s.outcomes
  first : ∀ os, os <+: s.outcomes → os ≠ s.outcomes → ¬ ThresholdReached os
  listens : s.listens = if s.standby.isPrimary then 1 else 0

theorem Counting.promotedExactly (hs : s.Counting) : s.PromotedExactly :=
  ⟨by rw [hs.primary, hs.count, thresholdReached_iff], hs.first, hs.listens⟩

/-- The step promotes the standby exactly when it is the ping that reaches the threshold, and
never takes the promotion back. -/
structure PromotesAtPing (s : PromotionState) (l : PromotionLabel) (s' : PromotionState) :
    Prop where
  exactly : (s.standby.isPrimary = false ∧ s'.standby.isPrimary = true) ↔
    ∃ o, l = .pinged o ∧ ThresholdReached (s.outcomes ++ [o])
  lasts : s.standby.isPrimary = true → s'.standby.isPrimary = true

theorem step_promotes (hs : s.Counting) (h : s.step sha256Text l = some s') :
    PromotesAtPing s l s' := by
  have hs' := step_counting hs h
  rcases step_cases h with ⟨o, rfl, hsent, rfl⟩ | ⟨hl, hquiet⟩
  · have hprimary := hs.sent hsent
    have hiff := hs'.promotedExactly.primary
    rw [outcomes_afterPing] at hiff
    refine ⟨?_, fun h => nomatch hprimary.symm.trans h⟩
    constructor
    · exact fun h => ⟨o, rfl, hiff.mp h.2⟩
    · rintro ⟨o', heq, hreached⟩
      cases heq
      exact ⟨hprimary, hiff.mpr hreached⟩
  · refine ⟨iff_of_false ?_ ?_, fun h => hquiet.isPrimary.trans h⟩
    · rintro ⟨hold, hnew⟩
      rw [hquiet.isPrimary, hold] at hnew
      cases hnew
    · rintro ⟨o, rfl, -⟩
      cases hl

/-- The outcomes are those of the pings of the run. -/
theorem outcomes_of_exec {ls : List PromotionLabel} {t : PromotionState}
    (h : Machine.exec (step sha256Text) s ls = some t) :
    t.outcomes = s.outcomes ++ ls.filterMap PromotionLabel.outcome? := by
  induction ls generalizing s with
  | nil => rw [Option.some.inj h, List.filterMap_nil, List.append_nil]
  | cons l ls ih =>
    obtain ⟨s', hstep, hrest⟩ := (Machine.exec_cons_eq_some _).mp h
    rw [ih hrest]
    rcases step_cases hstep with ⟨o, rfl, hsent, rfl⟩ | ⟨hl, hquiet⟩
    · have hl : (PromotionLabel.pinged o).outcome? = some o := rfl
      rw [outcomes_afterPing, List.filterMap_cons_some hl, List.append_assoc,
        List.singleton_append]
    · rw [hquiet.outcomes, List.filterMap_cons_none hl]

/-- **Promotion happens exactly on the threshold, once, and for good.**  In every run, the
standby is primary after a step if and only if the last pings have failed, as many as the
threshold, for the first time; it becomes primary in the very step in which such a ping
returns; and it has started its listener once if it is primary, and never if it is not.  In
a run without an end it becomes primary if and only if the threshold is ever reached, and
then its listener has been started once ever after. -/
theorem promotion_exact (sha256Text : String → String) (node : MasterNode) :
    (∀ ls : List PromotionLabel,
      Machine.Visits (step sha256Text) PromotedExactly (init node) ls ∧
      Machine.Meets (step sha256Text) PromotesAtPing (init node) ls ∧
      ∀ t, Machine.exec (step sha256Text) (init node) ls = some t →
        t.outcomes = ls.filterMap PromotionLabel.outcome?) ∧
    ∀ path : ℕ → PromotionState, path 0 = init node → Machine.Path (step sha256Text) path →
      (∀ n, (path n).PromotedExactly) ∧
      (∀ m n, m ≤ n → (path m).standby.isPrimary = true → (path n).standby.isPrimary = true) ∧
      ((∃ m, ∀ n, m ≤ n → (path n).standby.isPrimary = true ∧ (path n).listens = 1) ↔
        ∃ n, ThresholdReached (path n).outcomes) ∧
      ((∀ n, (path n).standby.isPrimary = false ∧ (path n).listens = 0) ↔
        ∀ n, ¬ ThresholdReached (path n).outcomes) := by
  have hstep : ∀ s l s', Counting s → s.step sha256Text l = some s' → s'.Counting :=
    fun s l s' hs h => step_counting hs h
  refine ⟨fun ls => ⟨?_, ?_, fun t ht => outcomes_of_exec ht⟩, fun path hinit hpath => ?_⟩
  · intro pre hpre t ht
    exact (Machine.exec_invariant hstep (counting_init node) ht).promotedExactly
  · intro pre l hpre t t' ht hl
    exact step_promotes (Machine.exec_invariant hstep (counting_init node) ht) hl
  have hall : ∀ n, (path n).Counting := fun n =>
    hpath.lasts hstep (Nat.zero_le n) (hinit ▸ counting_init node)
  have hexact : ∀ n, (path n).PromotedExactly := fun n => (hall n).promotedExactly
  have hlasts : ∀ m n, m ≤ n → (path m).standby.isPrimary = true →
      (path n).standby.isPrimary = true := by
    intro m n hmn hm
    refine (hpath.lasts (I := fun s => s.Counting ∧ s.standby.isPrimary = true) ?_ hmn
      ⟨hall m, hm⟩).2
    exact fun s l s' hs h => ⟨hstep s l s' hs.1 h, (step_promotes hs.1 h).lasts hs.2⟩
  refine ⟨hexact, hlasts, ⟨?_, ?_⟩, ?_⟩
  · rintro ⟨m, hm⟩
    exact ⟨m, (hexact m).primary.mp (hm m le_rfl).1⟩
  · rintro ⟨m, hm⟩
    refine ⟨m, fun n hmn => ?_⟩
    have hprimary := hlasts m n hmn ((hexact m).primary.mpr hm)
    exact ⟨hprimary, by rw [(hexact n).listens, if_pos hprimary]⟩
  · refine forall_congr' fun n => ?_
    rw [← (hexact n).primary, (hexact n).listens]
    cases (path n).standby.isPrimary <;> simp

end PromotionState
end Rcsce
