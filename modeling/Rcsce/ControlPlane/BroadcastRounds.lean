import Rcsce.Lib.Progress
import Rcsce.ControlPlane.Broadcast

/-!
# What every broadcast does, disturbed or not

A broadcast that is disturbed may pass over a connection, or raise.  Some things it does in
every case.  It tries no connection twice, and when it ends without raising, those whose sends
failed are out of `active_connections`, for good (`tried_at_most_once`).  And it comes to an end:
as long as no dashboard connects and no broadcast begins, only so many sends can return as there
are connections in front of the iterators, however the broadcasts and the disconnections are
interleaved (`broadcasts_end`).
-/

namespace Rcsce
namespace WebSocketManager

variable {m m' : WebSocketManager} {l : WebSocketLabel}

/-! ## What is left when a broadcast ends -/

theorem removeDead_sublist (m : WebSocketManager) (dead : List Conn) :
    ((m.removeDead dead).1.activeConnections).Sublist m.activeConnections := by
  induction dead generalizing m with
  | nil => exact List.Sublist.refl _
  | cons d dead ih =>
    rw [removeDead]
    split_ifs
    · exact (ih (m.remove d)).trans List.erase_sublist
    · exact List.Sublist.refl _

/-- If no `remove` raises, they are all out. -/
theorem notMem_removeDead {dead : List Conn} (hnodup : m.activeConnections.Nodup)
    (h : (m.removeDead dead).2 = false) {c : Conn} (hc : c ∈ dead) :
    c ∉ (m.removeDead dead).1.activeConnections := by
  induction dead generalizing m with
  | nil => cases hc
  | cons d dead ih =>
    rw [removeDead] at h ⊢
    split_ifs at h ⊢
    · rcases List.mem_cons.mp hc with rfl | hrest
      · exact fun hmem => hnodup.not_mem_erase ((removeDead_sublist _ _).subset hmem)
      · exact ih (hnodup.erase d) h hrest

/-- What has been done so far. -/
structure Settled (m : WebSocketManager) : Prop where
  inv : m.Inv
  once : ∀ o ∈ m.outcomes, (o.delivered ++ o.dead).Nodup
  pruned : ∀ o ∈ m.outcomes, o.raised = false → ∀ c ∈ o.dead, c ∉ m.activeConnections
  known : ∀ o ∈ m.outcomes, ∀ c ∈ o.dead, c < m.nextConn

namespace Settled

/-- No broadcast ends, and nobody connects. -/
theorem of_same (hs : m.Settled) (hinv : m'.Inv) (houtcomes : m'.outcomes = m.outcomes)
    (hactive : m'.activeConnections ⊆ m.activeConnections) (hnext : m'.nextConn = m.nextConn) :
    m'.Settled := by
  refine ⟨hinv, ?_, ?_, ?_⟩ <;> rw [houtcomes]
  · exact hs.once
  · exact fun o ho hraised c hc hmem => hs.pruned o ho hraised c hc (hactive hmem)
  · rw [hnext]
    exact hs.known

theorem nextConn_removeDead (m : WebSocketManager) (dead : List Conn) :
    (m.removeDead dead).1.nextConn = m.nextConn := by
  induction dead generalizing m with
  | nil => rfl
  | cons d dead ih =>
    rw [removeDead]
    split_ifs
    · exact ih (m.remove d)
    · rfl

/-- A broadcast ends. -/
theorem finish (hs : m.Settled) {b : Broadcast} (hinv : (m.finish b).Inv)
    (honce : b.asked.Nodup) (hknown : ∀ c ∈ b.dead, c < m.nextConn) : (m.finish b).Settled := by
  have hsub : (m.finish b).activeConnections ⊆ m.activeConnections :=
    (removeDead_sublist m b.dead).subset
  have hnext : (m.finish b).nextConn = m.nextConn := nextConn_removeDead m b.dead
  refine ⟨hinv, fun o ho => ?_, fun o ho hraised c hc => ?_, fun o ho c hc => ?_⟩ <;>
    (rw [finish_outcomes] at ho; rcases List.mem_append.mp ho with hold | hnew)
  · exact hs.once o hold
  · rw [List.mem_singleton.mp hnew]
    exact honce
  · exact fun hmem => hs.pruned o hold hraised c hc (hsub hmem)
  · rw [List.mem_singleton.mp hnew] at hraised hc
    exact notMem_removeDead hs.inv.nodup hraised hc
  · rw [hnext]
    exact hs.known o hold c hc
  · rw [List.mem_singleton.mp hnew] at hc
    rw [hnext]
    exact hknown c hc

theorem connect (hs : m.Settled) (h : m.step .connect = some m') : m'.Settled := by
  have hinv := step_inv hs.inv h
  obtain rfl := Option.some.inj h
  refine ⟨hinv, hs.once, fun o ho hraised c hc hmem => ?_, fun o ho c hc =>
    Nat.lt_succ_of_lt (hs.known o ho c hc)⟩
  rcases List.mem_append.mp hmem with hold | hnew
  · exact hs.pruned o ho hraised c hc hold
  · exact Nat.lt_irrefl _ (List.mem_singleton.mp hnew ▸ hs.known o ho c hc)

/-- **The step of the invariant.** -/
theorem step (hs : m.Settled) (h : m.step l = some m') : m'.Settled := by
  have hinv := step_inv hs.inv h
  cases l with
  | connect => exact hs.connect h
  | disconnect c =>
    obtain rfl := Option.some.inj h
    rw [disconnect] at hinv ⊢
    split_ifs at hinv ⊢
    · exact hs.of_same hinv rfl List.erase_subset rfl
    · exact hs
  | broadcast message =>
    obtain rfl := Option.some.inj h
    rw [broadcast] at hinv ⊢
    split at hinv
    · exact hs.of_same hinv rfl (List.Subset.refl _) rfl
    · exact hs.finish hinv List.nodup_nil (List.forall_mem_nil _)
  | sent i ok =>
    obtain ⟨b, hb, rfl⟩ := Option.map_eq_some_iff.mp h
    have hloop := (hs.inv.loops b (List.mem_of_getElem? hb)).sent ok
    rw [proceed] at hinv ⊢
    split at hinv
    · exact hs.of_same hinv rfl (List.Subset.refl _) rfl
    · have hrest : Settled { m with broadcasts := advance m.broadcasts i none } :=
        ⟨hs.inv.broadcasts fun b' hb' => hs.inv.loops b' ((mem_of_mem_advance hb hb').resolve_left
          (by rintro ⟨⟩)), hs.once, hs.pruned, hs.known⟩
      exact hrest.finish hinv hloop.once fun c hc =>
        hloop.known c (List.mem_append_right _ hc)

end Settled

theorem settled_init : init.Settled :=
  ⟨⟨List.nodup_nil, nofun, nofun⟩, nofun, nofun, nofun⟩

/-- No broadcast tries a connection twice, and one that has not raised has left none of those
whose sends failed. -/
def TriesOnce (m : WebSocketManager) : Prop :=
  (∀ b ∈ m.broadcasts, (b.asked ++ [b.conn]).Nodup) ∧
    ∀ o ∈ m.outcomes, (o.delivered ++ o.dead).Nodup ∧
      (o.raised = false → ∀ c ∈ o.dead, c ∉ m.activeConnections)

/-- **No dashboard is sent a message twice, and one that failed is dropped for good.**  This
holds in every state of every run, whatever the broadcasts, the connections and the
disconnections do to one another. -/
theorem tried_at_most_once (ls : List WebSocketLabel) : Machine.Visits step TriesOnce init ls := by
  intro pre _ t ht
  have hs : t.Settled := Machine.exec_invariant (fun _ _ _ hs h => hs.step h) settled_init ht
  exact ⟨fun b hb => (hs.inv.loops b hb).once, fun o ho => ⟨hs.once o ho, hs.pruned o ho⟩⟩

/-! ## Broadcasts come to an end -/

/-- The sends that are to return, and those in front of the iterators. -/
def pending (m : WebSocketManager) : ℕ :=
  (m.broadcasts.map fun b => m.activeConnections.length - b.next + 1).sum

theorem pending_remove_le (m : WebSocketManager) (c : Conn) : (m.remove c).pending ≤ m.pending := by
  have hlength : (m.activeConnections.erase c).length ≤ m.activeConnections.length :=
    List.erase_sublist.length_le
  rw [pending, pending, remove, List.map_map]
  refine List.sum_le_sum fun b _ => ?_
  show (m.activeConnections.erase c).length - b.next + 1 ≤ _
  omega

theorem pending_removeDead_le (m : WebSocketManager) (dead : List Conn) :
    (m.removeDead dead).1.pending ≤ m.pending := by
  induction dead generalizing m with
  | nil => exact le_rfl
  | cons d dead ih =>
    rw [removeDead]
    split_ifs
    · exact (ih (m.remove d)).trans (pending_remove_le m d)
    · exact le_rfl

/-- Each send that returns takes one off. -/
theorem pending_proceed {i : ℕ} {b : Broadcast} (hi : m.broadcasts[i]? = some b) (ok : Bool) :
    1 + (m.proceed i (b.sent ok)).pending ≤ m.pending := by
  have hnext : (b.sent ok).next = b.next := by cases ok <;> rfl
  have hpending : m.pending = (m.activeConnections.length - b.next + 1) +
      ((m.broadcasts.eraseIdx i).map fun b => m.activeConnections.length - b.next + 1).sum :=
    sum_map_eq_add_eraseIdx _ hi
  rw [proceed]
  split
  · rename_i c hc
    have hlt := (List.getElem?_eq_some_iff.mp hc).1
    rw [hnext] at hlt
    rw [hpending, pending, sum_map_advance _ hi, Option.map_some, Option.getD_some, hnext]
    dsimp only
    omega
  · have hrest : ({ m with broadcasts := advance m.broadcasts i none } : WebSocketManager).pending =
        ((m.broadcasts.eraseIdx i).map fun b => m.activeConnections.length - b.next + 1).sum := rfl
    have hle : (({ m with broadcasts := advance m.broadcasts i none } : WebSocketManager).finish
        (b.sent ok)).pending ≤ _ := pending_removeDead_le _ (b.sent ok).dead
    rw [hrest] at hle
    omega

end WebSocketManager

/-- A dashboard connects, or a broadcast begins. -/
def WebSocketLabel.opens : WebSocketLabel → Bool
  | .connect | .broadcast _ => true
  | _ => false

/-- A send returns. -/
def WebSocketLabel.returns : WebSocketLabel → Bool
  | .sent _ _ => true
  | _ => false

namespace WebSocketManager

variable {m m' : WebSocketManager} {l : WebSocketLabel}

theorem pending_step (hl : l.opens = false) (h : m.step l = some m') :
    (if l.returns then 1 else 0) + m'.pending ≤ m.pending := by
  cases l with
  | connect | broadcast => cases hl
  | disconnect c =>
    obtain rfl := Option.some.inj h
    show 0 + (m.disconnect c).pending ≤ m.pending
    rw [zero_add, disconnect]
    split_ifs
    · exact pending_remove_le m c
    · exact le_rfl
  | sent i ok =>
    obtain ⟨b, hb, rfl⟩ := Option.map_eq_some_iff.mp h
    exact pending_proceed hb ok

/-- A send of a broadcast returns, or raises if the connection does not answer. -/
def Returns (answers : Conn → Bool) (m : WebSocketManager) (l : WebSocketLabel) : Prop :=
  ∃ i b, m.broadcasts[i]? = some b ∧ l = .sent i (answers b.conn)

/-- As long as a broadcast is in progress, a send can return. -/
theorem pending_falls (answers : Conn → Bool) (hpos : 0 < m.pending) :
    ∃ l m', Returns answers m l ∧ m.step l = some m' ∧ True ∧ m'.pending < m.pending := by
  cases hbroadcasts : m.broadcasts with
  | nil =>
    rw [pending, hbroadcasts] at hpos
    exact absurd hpos (Nat.lt_irrefl 0)
  | cons b bs =>
    have hb : m.broadcasts[0]? = some b := by rw [hbroadcasts, List.getElem?_cons_zero]
    have hstep : m.step (.sent 0 (answers b.conn)) =
        some (m.proceed 0 (b.sent (answers b.conn))) := by rw [step, hb, Option.map_some]
    have hfalls := pending_proceed hb (answers b.conn)
    exact ⟨_, _, ⟨0, b, hb, rfl⟩, hstep, trivial, by omega⟩

/-- **Broadcasts come to an end.**  From any state: without new connections and broadcasts only
so many sends return, in any order and however they turn out; and whichever connections answer,
the sends that return bring all broadcasts to their ends. -/
theorem broadcasts_end (m : WebSocketManager) :
    (∀ ls m', Machine.exec step m ls = some m' → (∀ l ∈ ls, l.opens = false) →
      ls.countP WebSocketLabel.returns + m'.pending ≤ m.pending) ∧
    ∀ answers, ∃ m', Machine.Reaches step (Returns answers) m m' ∧ m'.broadcasts = [] := by
  constructor
  · intro ls m' h hls
    exact (Machine.countP_add_le (I := fun _ => True) (C := fun l => l.opens = false)
      WebSocketLabel.returns pending (fun _ _ _ _ hl h => ⟨trivial, pending_step hl h⟩) trivial hls
      h).2
  · intro answers
    obtain ⟨m', hm', -, hzero⟩ := Machine.reaches_of_measure (I := fun _ => True) pending
      (fun _ _ hpos => pending_falls answers hpos) (s := m) trivial
    refine ⟨m', hm', ?_⟩
    cases hbroadcasts : m'.broadcasts with
    | nil => rfl
    | cons b bs =>
      rw [pending, hbroadcasts, List.map_cons, List.sum_cons] at hzero
      omega

end WebSocketManager
end Rcsce
