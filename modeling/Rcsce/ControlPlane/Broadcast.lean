import Rcsce.Lib.Json
import Rcsce.Lib.LiveList
import Rcsce.Lib.Machine
import Rcsce.Lib.TaskList

/-!
# Broadcasts to the dashboards

`WebSocketManager` of `control_plane/dashboard/ws_manager.py`: any number of `broadcast`
calls, interleaved at the await in `send_text` with each other, with `connect` and with
`disconnect`.

A `broadcast` goes through `active_connections` itself, not through a copy, and it removes
the connections whose sends failed without looking whether they are still there, which
`disconnect` does.  Both go wrong when somebody else has removed a connection during a send:

* when it stood before the next one in line, the next one is passed over;
* when its send fails, the `remove` at the end raises.

`broadcast_fine_iff` says that nothing else goes wrong: the broadcasts of a run are fine if
and only if neither happens.

A websocket can be accepted only once, so `connect` always brings a new connection.

The ghosts `stayed` and `skipped` of a broadcast are the connections that have been in
`active_connections` since it began, and those that were next in line when one before them
was removed.
-/

namespace Rcsce

/-- A websocket. -/
abbrev Conn := ℕ

/-- A `broadcast` in its `send_text`. -/
structure Broadcast where
  payload : JsonText
  /-- The position of the iterator over `active_connections`. -/
  next : ℕ
  /-- The connection to which it is sending. -/
  conn : Conn
  dead : List Conn
  /-- The connections to which the payload was sent. -/
  delivered : List Conn
  stayed : List Conn
  skipped : List Conn

/-- A `broadcast` that has ended. -/
structure BroadcastOutcome where
  payload : JsonText
  raised : Bool
  dead : List Conn
  delivered : List Conn
  stayed : List Conn

/-- It did not raise, and every connection that was there all the time and whose sends
succeeded has received the message exactly once. -/
def BroadcastOutcome.Fine (o : BroadcastOutcome) : Prop :=
  o.raised = false ∧ ∀ c ∈ o.stayed, c ∉ o.dead → o.delivered.count c = 1

/-- The manager, with the broadcasts that are in progress and those that have ended. -/
structure WebSocketManager where
  activeConnections : List Conn
  /-- The next connection to be accepted. -/
  nextConn : Conn
  broadcasts : List Broadcast
  outcomes : List BroadcastOutcome

/-- What can happen next. -/
inductive WebSocketLabel where
  /-- `accept` returns. -/
  | connect
  | disconnect (conn : Conn)
  | broadcast (message : Json)
  /-- The send of a broadcast returns, or raises if not `ok`. -/
  | sent (i : ℕ) (ok : Bool)

namespace Broadcast

/-- The ghosts, when `c` is removed from `active`. -/
def lose (b : Broadcast) (active : List Conn) (c : Conn) : Broadcast :=
  { b with
    stayed := b.stayed.filter (· ≠ c)
    skipped := b.skipped ++ (LiveList.lost active b.next c).toList }

/-- The `try` around `send_text`. -/
def sent (b : Broadcast) (ok : Bool) : Broadcast :=
  if ok then { b with delivered := b.delivered ++ [b.conn] }
  else { b with dead := b.dead ++ [b.conn] }

/-- The connections to which it has tried to send. -/
def asked (b : Broadcast) : List Conn := b.delivered ++ b.dead

end Broadcast

namespace WebSocketManager

/-- `WebSocketManager()`. -/
def init : WebSocketManager := ⟨[], 0, [], []⟩

/-- `active_connections.remove(c)`, for a `c` that is there. -/
def remove (m : WebSocketManager) (c : Conn) : WebSocketManager :=
  { m with
    activeConnections := m.activeConnections.erase c
    broadcasts := m.broadcasts.map fun b => b.lose m.activeConnections c }

/-- `disconnect`. -/
def disconnect (m : WebSocketManager) (c : Conn) : WebSocketManager :=
  if c ∈ m.activeConnections then m.remove c else m

/-- The loop over `dead`, and whether a `remove` raises. -/
def removeDead (m : WebSocketManager) : List Conn → WebSocketManager × Bool
  | [] => (m, false)
  | d :: dead => if d ∈ m.activeConnections then (m.remove d).removeDead dead else (m, true)

/-- The end of a broadcast that is no longer in the list. -/
def finish (m : WebSocketManager) (b : Broadcast) : WebSocketManager :=
  let r := m.removeDead b.dead
  { r.1 with outcomes := r.1.outcomes ++ [⟨b.payload, r.2, b.dead, b.delivered, b.stayed⟩] }

/-- A new `broadcast`, up to its first await. -/
def broadcast (m : WebSocketManager) (message : Json) : WebSocketManager :=
  match m.activeConnections[0]? with
  | some c =>
      { m with broadcasts := m.broadcasts ++ [⟨.dumps message, 1, c, [], [],
        m.activeConnections, []⟩] }
  | none => m.finish ⟨.dumps message, 0, 0, [], [], [], []⟩

/-- The broadcast at `i` goes on after a send, up to its next await. -/
def proceed (m : WebSocketManager) (i : ℕ) (b : Broadcast) : WebSocketManager :=
  match m.activeConnections[b.next]? with
  | some c =>
      { m with
        broadcasts := advance m.broadcasts i (some { b with next := b.next + 1, conn := c }) }
  | none => { m with broadcasts := advance m.broadcasts i none }.finish b

/-- One step. -/
def step (m : WebSocketManager) : WebSocketLabel → Option WebSocketManager
  | .connect => some { m with
      activeConnections := m.activeConnections ++ [m.nextConn]
      nextConn := m.nextConn + 1 }
  | .disconnect c => some (m.disconnect c)
  | .broadcast message => some (m.broadcast message)
  | .sent i ok => m.broadcasts[i]?.map fun b => m.proceed i (b.sent ok)

/-- The broadcast whose loop ends in this step, after its last send. -/
def ending (m : WebSocketManager) : WebSocketLabel → Option Broadcast
  | .sent i ok => (m.broadcasts[i]?.map fun b => b.sent ok).filter fun b =>
      m.activeConnections[b.next]?.isNone
  | _ => none

/-- Every broadcast that has ended is fine. -/
def AllFine (m : WebSocketManager) : Prop := ∀ o ∈ m.outcomes, o.Fine

/-- Nobody else has removed a connection that a broadcast has to remove when its loop ends,
and every connection that it has passed over is gone. -/
def Undisturbed (m : WebSocketManager) (l : WebSocketLabel) (_ : WebSocketManager) : Prop :=
  ∀ b, m.ending l = some b →
    (∀ d ∈ b.dead, d ∈ m.activeConnections) ∧ ∀ c ∈ b.stayed, c ∉ b.skipped

/-! ## The loop at the end -/

theorem remove_outcomes (m : WebSocketManager) (c : Conn) :
    (m.remove c).outcomes = m.outcomes := rfl

/-- The loop completes if and only if all of them are still there. -/
theorem removeDead_snd_eq_false_iff {m : WebSocketManager} {dead : List Conn} (hdead : dead.Nodup) :
    (m.removeDead dead).2 = false ↔ ∀ d ∈ dead, d ∈ m.activeConnections := by
  induction dead generalizing m with
  | nil => exact iff_of_true rfl fun _ h => absurd h List.not_mem_nil
  | cons d dead ih =>
    obtain ⟨hd, hdead'⟩ := List.nodup_cons.mp hdead
    rw [removeDead, List.forall_mem_cons]
    split_ifs with hmem
    · rw [ih hdead', and_iff_right hmem]
      refine forall₂_congr fun c hc => ?_
      have hne : c ≠ d := fun heq => hd (heq ▸ hc)
      exact List.mem_erase_of_ne hne
    · exact iff_of_false (fun h => nomatch h) fun h => hmem h.1

theorem removeDead_outcomes (m : WebSocketManager) (dead : List Conn) :
    (m.removeDead dead).1.outcomes = m.outcomes := by
  induction dead generalizing m with
  | nil => rfl
  | cons d dead ih =>
    rw [removeDead]
    split_ifs
    · rw [ih, remove_outcomes]
    · rfl

/-! ## What a broadcast has done -/

/-- A broadcast in its loop, with the connections that it has tried or is trying. -/
structure Loop (m : WebSocketManager) (b : Broadcast) (asked : List Conn) : Prop where
  once : asked.Nodup
  /-- It does not come back to one of them. -/
  behind : ∀ c ∈ asked, c ∉ m.activeConnections.drop b.next
  known : ∀ c ∈ asked, c < m.nextConn
  stayed : ∀ c ∈ b.stayed, c ∈ m.activeConnections
  /-- Those that were there all the time are done, or passed over, or still to come. -/
  covered : ∀ c ∈ b.stayed, c ∈ asked ∨ c ∈ b.skipped ∨ c ∈ m.activeConnections.drop b.next
  /-- One that was passed over remains so. -/
  passed : ∀ c ∈ b.skipped, c ∉ asked ∧ c ∉ m.activeConnections.drop b.next ∧ c < m.nextConn

/-- No connection is there twice, and the loops have come as far as they say. -/
structure Inv (m : WebSocketManager) : Prop where
  nodup : m.activeConnections.Nodup
  known : ∀ c ∈ m.activeConnections, c < m.nextConn
  loops : ∀ b ∈ m.broadcasts, m.Loop b (b.asked ++ [b.conn])

namespace Loop

variable {m : WebSocketManager} {b : Broadcast} {asked : List Conn}

/-- The order in which they were tried does not matter, nor do the other broadcasts. -/
theorem congr {m' : WebSocketManager} {asked' : List Conn} (h : m.Loop b asked)
    (hactive : m'.activeConnections = m.activeConnections) (hnext : m'.nextConn = m.nextConn)
    (hperm : asked'.Perm asked) : m'.Loop b asked' := by
  refine ⟨hperm.nodup_iff.mpr h.once, fun c hc => ?_, fun c hc => ?_, fun c hc => ?_,
    fun c hc => ?_, fun c hc => ?_⟩
  · rw [hactive]
    exact h.behind c (hperm.mem_iff.mp hc)
  · rw [hnext]
    exact h.known c (hperm.mem_iff.mp hc)
  · rw [hactive]
    exact h.stayed c hc
  · rw [hactive, hperm.mem_iff]
    exact h.covered c hc
  · rw [hactive, hnext, hperm.mem_iff]
    exact h.passed c hc

theorem connect (h : m.Loop b asked) :
    ({ m with
      activeConnections := m.activeConnections ++ [m.nextConn]
      nextConn := m.nextConn + 1 } : WebSocketManager).Loop b asked := by
  have hnot : ∀ c, c < m.nextConn → c ∉ m.activeConnections.drop b.next →
      c ∉ (m.activeConnections ++ [m.nextConn]).drop b.next := by
    intro c hlt hold hmem
    rcases List.mem_append.mp (LiveList.drop_concat_subset _ _ _ hmem) with hmem' | hnew
    · exact hold hmem'
    · exact Nat.lt_irrefl _ (List.mem_singleton.mp hnew ▸ hlt)
  refine ⟨h.once, fun c hc => hnot c (h.known c hc) (h.behind c hc),
    fun c hc => Nat.lt_succ_of_lt (h.known c hc),
    fun c hc => List.mem_append_left _ (h.stayed c hc), fun c hc => ?_, fun c hc => ?_⟩
  · rcases h.covered c hc with hasked | hskipped | hahead
    · exact Or.inl hasked
    · exact Or.inr (Or.inl hskipped)
    · exact Or.inr (Or.inr (LiveList.subset_drop_concat _ _ _ hahead))
  · obtain ⟨hasked, hahead, hlt⟩ := h.passed c hc
    exact ⟨hasked, hnot c hlt hahead, Nat.lt_succ_of_lt hlt⟩

/-- Only a removal makes a loop pass over a connection. -/
theorem remove (h : m.Loop b asked) (hnodup : m.activeConnections.Nodup)
    (hknown : ∀ c ∈ m.activeConnections, c < m.nextConn) (d : Conn) :
    (m.remove d).Loop (b.lose m.activeConnections d) asked := by
  have hsub := (LiveList.drop_erase_sublist m.activeConnections b.next d).subset
  refine ⟨h.once, fun c hc hmem => h.behind c hc (hsub hmem), h.known, fun c hc => ?_,
    fun c hc => ?_, fun c hc => ?_⟩
  · rw [Broadcast.lose, List.mem_filter, decide_eq_true_iff] at hc
    exact (List.mem_erase_of_ne hc.2).mpr (h.stayed c hc.1)
  · rw [Broadcast.lose, List.mem_filter, decide_eq_true_iff] at hc
    rw [Broadcast.lose, List.mem_append, Option.mem_toList]
    rcases h.covered c hc.1 with hasked | hskipped | hahead
    · exact Or.inl hasked
    · exact Or.inr (Or.inl (Or.inl hskipped))
    · rcases LiveList.mem_drop_erase hahead hc.2 with hlost | hahead'
      · exact Or.inr (Or.inl (Or.inr hlost))
      · exact Or.inr (Or.inr hahead')
  · rw [Broadcast.lose, List.mem_append, Option.mem_toList] at hc
    rcases hc with hskipped | hlost
    · obtain ⟨hasked, hahead, hlt⟩ := h.passed c hskipped
      exact ⟨hasked, fun hmem => hahead (hsub hmem), hlt⟩
    · obtain ⟨hahead, hnot⟩ := LiveList.lost_spec hnodup hlost
      exact ⟨fun hasked => h.behind c hasked hahead, hnot, hknown c (List.mem_of_mem_drop hahead)⟩

theorem sent (h : m.Loop b (b.asked ++ [b.conn])) (ok : Bool) :
    m.Loop (b.sent ok) (b.sent ok).asked := by
  have hperm : (b.sent ok).asked.Perm (b.asked ++ [b.conn]) := by
    rw [Broadcast.asked, Broadcast.asked, Broadcast.sent]
    cases ok with
    | true =>
      show (b.delivered ++ [b.conn] ++ b.dead).Perm (b.delivered ++ b.dead ++ [b.conn])
      rw [List.append_assoc, List.append_assoc]
      exact List.perm_append_comm.append_left _
    | false =>
      show (b.delivered ++ (b.dead ++ [b.conn])).Perm (b.delivered ++ b.dead ++ [b.conn])
      rw [List.append_assoc]
  have hb := h.congr rfl rfl hperm
  cases ok <;> exact ⟨hb.once, hb.behind, hb.known, hb.stayed, hb.covered, hb.passed⟩

/-- The loop takes the next connection. -/
theorem next (h : m.Loop b b.asked) (hnodup : m.activeConnections.Nodup)
    (hknown : ∀ c ∈ m.activeConnections, c < m.nextConn) {c : Conn}
    (hc : m.activeConnections[b.next]? = some c) :
    m.Loop { b with next := b.next + 1, conn := c } (b.asked ++ [c]) := by
  have hcons := LiveList.drop_of_getElem?_eq_some hc
  have hdrop : (m.activeConnections.drop b.next).Nodup :=
    hnodup.sublist (List.drop_sublist _ _)
  have hbehind := h.behind
  have hcovered := h.covered
  have hpassed := h.passed
  rw [hcons] at hdrop hbehind hcovered hpassed
  have hnot : c ∉ b.asked := fun hmem => hbehind c hmem List.mem_cons_self
  refine ⟨?_, fun c' hc' => ?_, fun c' hc' => ?_, h.stayed, fun c' hc' => ?_, fun c' hc' => ?_⟩
  · exact List.nodup_append.mpr ⟨h.once, List.nodup_singleton c, fun x hx y hy heq =>
      hnot (List.mem_singleton.mp hy ▸ heq ▸ hx)⟩
  · rcases List.mem_append.mp hc' with hold | hnew
    · exact fun hmem => hbehind c' hold (List.mem_cons_of_mem _ hmem)
    · exact List.mem_singleton.mp hnew ▸ (List.nodup_cons.mp hdrop).1
  · rcases List.mem_append.mp hc' with hold | hnew
    · exact h.known c' hold
    · exact List.mem_singleton.mp hnew ▸ hknown c (List.mem_of_getElem? hc)
  · rw [List.mem_append, List.mem_singleton]
    rcases hcovered c' hc' with hasked | hskipped | hahead
    · exact Or.inl (Or.inl hasked)
    · exact Or.inr (Or.inl hskipped)
    · rcases List.mem_cons.mp hahead with heq | hrest
      · exact Or.inl (Or.inr heq)
      · exact Or.inr (Or.inr hrest)
  · obtain ⟨hasked, hahead, hlt⟩ := hpassed c' hc'
    rw [List.mem_cons, not_or] at hahead
    rw [List.mem_append, List.mem_singleton, not_or]
    exact ⟨⟨hasked, hahead.1⟩, hahead.2, hlt⟩

/-- **The end of a loop.**  The broadcast is fine if and only if nobody else has removed one
that it has to remove, and all that it has passed over are gone. -/
theorem fine_iff (h : m.Loop b b.asked) (hend : m.activeConnections[b.next]? = none) :
    (BroadcastOutcome.Fine ⟨b.payload, (m.removeDead b.dead).2, b.dead, b.delivered, b.stayed⟩) ↔
      (∀ d ∈ b.dead, d ∈ m.activeConnections) ∧ ∀ c ∈ b.stayed, c ∉ b.skipped := by
  have hnodup := List.nodup_append.mp h.once
  rw [BroadcastOutcome.Fine, removeDead_snd_eq_false_iff hnodup.2.1]
  refine and_congr_right fun _ => forall₂_congr fun c hc => ?_
  have hcovered := h.covered c hc
  rw [LiveList.drop_of_getElem?_eq_none hend, Broadcast.asked, List.mem_append] at hcovered
  constructor
  · intro hone hskipped
    obtain ⟨hasked, -, -⟩ := h.passed c hskipped
    rw [Broadcast.asked, List.mem_append, not_or] at hasked
    have hcount := hone hasked.2
    rw [List.count_eq_zero.mpr hasked.1] at hcount
    cases hcount
  · intro hskipped hdead
    rcases hcovered with (hdelivered | hdead') | hskipped' | hnil
    · exact List.count_eq_one_of_mem hnodup.1 hdelivered
    · exact absurd hdead' hdead
    · exact absurd hskipped' hskipped
    · exact absurd hnil List.not_mem_nil

end Loop

/-! ## Every step keeps the loops -/

variable {m m' : WebSocketManager} {l : WebSocketLabel}

theorem Inv.remove (h : m.Inv) (d : Conn) : (m.remove d).Inv := by
  refine ⟨h.nodup.erase d, fun c hc => h.known c (List.mem_of_mem_erase hc), fun b' hb' => ?_⟩
  obtain ⟨b, hb, rfl⟩ := List.mem_map.mp hb'
  exact (h.loops b hb).remove h.nodup h.known d

theorem Inv.removeDead (h : m.Inv) (dead : List Conn) : (m.removeDead dead).1.Inv := by
  induction dead generalizing m with
  | nil => exact h
  | cons d dead ih =>
    rw [WebSocketManager.removeDead]
    split_ifs
    · exact ih (h.remove d)
    · exact h

theorem Inv.finish (h : m.Inv) (b : Broadcast) : (m.finish b).Inv := by
  have hremoved := h.removeDead b.dead
  exact ⟨hremoved.nodup, hremoved.known, fun b' hb' =>
    (hremoved.loops b' hb').congr rfl rfl (List.Perm.refl _)⟩

/-- The broadcasts change, and each of them is in its loop. -/
theorem Inv.broadcasts (h : m.Inv) {bs : List Broadcast}
    (hbs : ∀ b ∈ bs, m.Loop b (b.asked ++ [b.conn])) :
    ({ m with broadcasts := bs } : WebSocketManager).Inv :=
  ⟨h.nodup, h.known, fun b hb => (hbs b hb).congr rfl rfl (List.Perm.refl _)⟩

theorem Inv.broadcast (h : m.Inv) (message : Json) : (m.broadcast message).Inv := by
  rw [WebSocketManager.broadcast]
  split
  · rename_i c hc
    have hcons := LiveList.drop_of_getElem?_eq_some hc
    refine h.broadcasts fun b hb => ?_
    rcases List.mem_append.mp hb with hold | hnew
    · exact h.loops b hold
    · rw [List.mem_singleton.mp hnew]
      have hnodup := h.nodup
      rw [List.drop_zero, zero_add] at hcons
      rw [hcons] at hnodup
      refine ⟨List.nodup_singleton c, fun c' hc' => ?_, fun c' hc' => ?_, fun _ hc' => hc',
        fun c' hc' => ?_, fun _ hc' => absurd hc' List.not_mem_nil⟩
      · exact List.mem_singleton.mp hc' ▸ (List.nodup_cons.mp hnodup).1
      · exact List.mem_singleton.mp hc' ▸ h.known c (List.mem_of_getElem? hc)
      · have hmem : c' ∈ m.activeConnections := hc'
        rw [hcons] at hmem
        rcases List.mem_cons.mp hmem with heq | hrest
        · exact Or.inl (List.mem_singleton.mpr heq)
        · exact Or.inr (Or.inr hrest)
  · exact h.finish _

theorem Inv.proceed (h : m.Inv) {i : ℕ} {b : Broadcast} (hi : m.broadcasts[i]? = some b)
    (ok : Bool) : (m.proceed i (b.sent ok)).Inv := by
  have hloop := (h.loops b (List.mem_of_getElem? hi)).sent ok
  rw [WebSocketManager.proceed]
  split
  · rename_i c hc
    refine h.broadcasts fun b' hb' => ?_
    rcases mem_of_mem_advance hi hb' with hnew | hold
    · rw [← Option.some.inj hnew]
      exact hloop.next h.nodup h.known hc
    · exact h.loops b' hold
  · refine Inv.finish (h.broadcasts fun b' hb' => ?_) _
    exact h.loops b' ((mem_of_mem_advance hi hb').resolve_left (fun hnone => nomatch hnone))

theorem step_inv (h : m.Inv) (hstep : m.step l = some m') : m'.Inv := by
  cases l with
  | connect =>
    cases hstep
    refine ⟨?_, fun c hc => ?_, fun b hb => (h.loops b hb).connect⟩
    · refine List.nodup_append.mpr ⟨h.nodup, List.nodup_singleton _, fun c hc c' hc' heq => ?_⟩
      rw [heq, List.mem_singleton.mp hc'] at hc
      exact Nat.lt_irrefl _ (h.known _ hc)
    · rcases List.mem_append.mp hc with hold | hnew
      · exact Nat.lt_succ_of_lt (h.known c hold)
      · exact List.mem_singleton.mp hnew ▸ Nat.lt_succ_self _
  | disconnect c =>
    cases hstep
    rw [disconnect]
    split_ifs
    · exact h.remove c
    · exact h
  | broadcast message =>
    cases hstep
    exact h.broadcast message
  | sent i ok =>
    obtain ⟨b, hb, rfl⟩ := Option.map_eq_some_iff.mp hstep
    exact h.proceed hb ok

theorem finish_outcomes (m : WebSocketManager) (b : Broadcast) :
    (m.finish b).outcomes = m.outcomes ++
      [⟨b.payload, (m.removeDead b.dead).2, b.dead, b.delivered, b.stayed⟩] := by
  rw [finish]
  show (m.removeDead b.dead).1.outcomes ++ _ = _
  rw [removeDead_outcomes]

/-- Whether a `remove` raises does not depend on the other broadcasts. -/
theorem removeDead_snd_congr (hactive : m'.activeConnections = m.activeConnections)
    (dead : List Conn) : (m'.removeDead dead).2 = (m.removeDead dead).2 := by
  induction dead generalizing m m' with
  | nil => rfl
  | cons d dead ih =>
    rw [removeDead, removeDead, hactive]
    split_ifs
    · exact ih (congrArg (List.erase · d) hactive)
    · rfl

theorem allFine_concat (h : m.AllFine) {o : BroadcastOutcome}
    (houtcomes : m'.outcomes = m.outcomes ++ [o]) : m'.AllFine ↔ o.Fine := by
  rw [AllFine, houtcomes]
  constructor
  · intro hall
    exact hall o (List.mem_append_right _ List.mem_cons_self)
  · intro ho o' ho'
    rcases List.mem_append.mp ho' with hold | hnew
    · exact h o' hold
    · exact List.mem_singleton.mp hnew ▸ ho

/-- A step in which no loop ends. -/
theorem allFine_iff_of_same (h : m.AllFine) (houtcomes : m'.outcomes = m.outcomes)
    (hending : m.ending l = none) : m'.AllFine ↔ m.Undisturbed l m' := by
  refine iff_of_true ?_ fun b hb => ?_
  · rw [AllFine, houtcomes]
    exact h
  · rw [hending] at hb
    cases hb

/-- A step leaves all broadcasts fine exactly when it does not end a disturbed one. -/
theorem step_allFine_iff (hinv : m.Inv) (h : m.AllFine) (hstep : m.step l = some m') :
    m'.AllFine ↔ m.Undisturbed l m' := by
  cases l with
  | connect =>
    cases hstep
    exact allFine_iff_of_same h rfl rfl
  | disconnect c =>
    cases hstep
    refine allFine_iff_of_same h ?_ rfl
    rw [disconnect]
    split_ifs <;> rfl
  | broadcast message =>
    cases hstep
    rw [broadcast]
    split
    · exact allFine_iff_of_same h rfl rfl
    · -- there is no connection, so nothing can go wrong
      rw [allFine_concat h (finish_outcomes m _)]
      exact iff_of_true ⟨rfl, fun _ hc => absurd hc List.not_mem_nil⟩ fun b hb => nomatch hb
  | sent i ok =>
    obtain ⟨b, hi, rfl⟩ := Option.map_eq_some_iff.mp hstep
    have hending : m.ending (.sent i ok) =
        (some (b.sent ok)).filter fun b => m.activeConnections[b.next]?.isNone := by
      rw [ending, hi, Option.map_some]
    rw [proceed]
    split
    · rename_i c hc
      refine allFine_iff_of_same h rfl ?_
      rw [hending, Option.filter_some, hc]
      rfl
    · rename_i hend
      have hloop := (hinv.loops b (List.mem_of_getElem? hi)).sent ok
      have hsome : m.ending (.sent i ok) = some (b.sent ok) := by
        rw [hending, Option.filter_some, hend]
        rfl
      have houtcomes := finish_outcomes { m with broadcasts := advance m.broadcasts i none }
        (b.sent ok)
      have hraised : (({ m with broadcasts := advance m.broadcasts i none } :
          WebSocketManager).removeDead (b.sent ok).dead).2 = (m.removeDead (b.sent ok).dead).2 :=
        removeDead_snd_congr (by rfl) _
      rw [hraised] at houtcomes
      rw [allFine_concat h houtcomes, hloop.fine_iff hend, Undisturbed, hsome]
      exact ⟨fun hb b' hb' => Option.some.inj hb' ▸ hb, fun hb => hb _ rfl⟩

/-- **When broadcasts reach every dashboard and do not fail.**  In every run, all broadcasts
that end are fine if and only if, when the loop of one ends, each connection whose send failed
is still in `active_connections`, and none is still there that was next in line when one before
it was removed. -/
theorem broadcast_fine_iff (ls : List WebSocketLabel) :
    Machine.Visits step AllFine init ls ↔ Machine.Meets step Undisturbed init ls := by
  refine Machine.visits_iff_meets (I := Inv) (fun _ _ _ h hstep => step_inv h hstep)
    (fun _ _ _ hinv h hstep => step_allFine_iff hinv h hstep) ?_ ?_ ls
  · exact ⟨List.nodup_nil, fun _ h => absurd h List.not_mem_nil,
      fun _ h => absurd h List.not_mem_nil⟩
  · exact fun _ h => absurd h List.not_mem_nil

/-- Three dashboards, and the first one leaves while it is sent to: the second one is passed
over.  And one dashboard that does not answer, and two broadcasts: the second one raises. -/
theorem broadcast_passes_over_and_raises :
    (∃ m, Machine.exec step init [.connect, .connect, .connect, .broadcast .null, .disconnect 0,
        .sent 0 true, .sent 0 true] = some m ∧
      m.outcomes = [⟨.dumps .null, false, [], [0, 2], [1, 2]⟩]) ∧
    (∃ m, Machine.exec step init [.connect, .broadcast .null, .broadcast .null, .sent 0 false,
        .sent 0 false] = some m ∧ m.outcomes.map BroadcastOutcome.raised = [false, true]) ∧
    ¬ ∀ ls, Machine.Visits step AllFine init ls := by
  refine ⟨⟨_, rfl, rfl⟩, ⟨_, rfl, rfl⟩, fun h => ?_⟩
  have hfine := h [.connect, .broadcast .null, .broadcast .null, .sent 0 false, .sent 0 false] _
    (List.prefix_refl _) _ rfl
  have hraised := (hfine _ (List.mem_cons_of_mem _ List.mem_cons_self)).1
  cases hraised

end WebSocketManager
end Rcsce
