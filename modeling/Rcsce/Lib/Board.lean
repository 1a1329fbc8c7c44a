import Rcsce.Lib.Machine

/-!
# A board of jobs

What a queue with workers is for, without the queue and the workers: a job is waiting, it
is running, or it is done.  A board holds three multisets, since one job may be on it more
than once.

* `submit`, `take`, `finish` and `giveBack` are the ordinary life of a job.
* `again` puts a job that is running among the waiting ones and lets it run on.
* `loseWaiting` and `loseRunning` take a job off the board.

`exec_all` is the balance of a run: what was there, what was submitted and what was put up
again is what is there, and what was lost.  So without a loss every job stays on the board
(`mem_all_of_exec`).
-/

namespace Rcsce

universe u

/-- The jobs by where they are. -/
structure Board (α : Type u) where
  waiting : Multiset α
  running : Multiset α
  done : Multiset α

/-- What can happen to a job. -/
inductive BoardEvent (α : Type u) where
  | submit (a : α)
  | take (a : α)
  | finish (a : α)
  | giveBack (a : α)
  | again (a : α)
  | loseWaiting (a : α)
  | loseRunning (a : α)

namespace BoardEvent

variable {α : Type u}

/-- The job that is new. -/
def submitted : BoardEvent α → Option α
  | .submit a => some a
  | _ => none

/-- The job that begins to run. -/
def taken : BoardEvent α → Option α
  | .take a => some a
  | _ => none

/-- The job that is done. -/
def finished : BoardEvent α → Option α
  | .finish a => some a
  | _ => none

/-- The job that waits although it runs. -/
def repeated : BoardEvent α → Option α
  | .again a => some a
  | _ => none

/-- The job that is gone. -/
def lost : BoardEvent α → Option α
  | .loseWaiting a => some a
  | .loseRunning a => some a
  | _ => none

/-- What the events of a run say, the first of them apart. -/
theorem coe_filterMap_cons (f : BoardEvent α → Option α) (e : BoardEvent α)
    (es : List (BoardEvent α)) :
    (((e :: es).filterMap f : List α) : Multiset α) =
      ((f e).toList : Multiset α) + (es.filterMap f : List α) := by
  rw [List.filterMap_cons, Multiset.coe_add]
  cases f e <;> rfl

end BoardEvent

namespace Board

open BoardEvent

variable {α : Type u} [DecidableEq α]

/-- One event; `none` when the job is not where the event takes it from. -/
def step (b : Board α) : BoardEvent α → Option (Board α)
  | .submit a => some { b with waiting := a ::ₘ b.waiting }
  | .take a =>
      if a ∈ b.waiting then
        some { b with waiting := b.waiting.erase a, running := a ::ₘ b.running }
      else none
  | .finish a =>
      if a ∈ b.running then some { b with running := b.running.erase a, done := a ::ₘ b.done }
      else none
  | .giveBack a =>
      if a ∈ b.running then
        some { b with waiting := a ::ₘ b.waiting, running := b.running.erase a }
      else none
  | .again a => if a ∈ b.running then some { b with waiting := a ::ₘ b.waiting } else none
  | .loseWaiting a =>
      if a ∈ b.waiting then some { b with waiting := b.waiting.erase a } else none
  | .loseRunning a =>
      if a ∈ b.running then some { b with running := b.running.erase a } else none

section Apart

variable (waiting running done : Multiset α) (a : α)

/-! The job of the event apart from the others. -/

theorem erase_add_singleton (m : Multiset α) : (m + {a}).erase a = m := by
  rw [add_comm, Multiset.singleton_add, Multiset.erase_cons_head]

theorem step_take : step ⟨waiting + {a}, running, done⟩ (.take a) =
    some ⟨waiting, running + {a}, done⟩ := by
  simp [step, erase_add_singleton, ← Multiset.singleton_add, add_comm running]

theorem step_finish : step ⟨waiting, running + {a}, done⟩ (.finish a) =
    some ⟨waiting, running, done + {a}⟩ := by
  simp [step, erase_add_singleton, ← Multiset.singleton_add, add_comm done]

theorem step_giveBack : step ⟨waiting, running + {a}, done⟩ (.giveBack a) =
    some ⟨waiting + {a}, running, done⟩ := by
  simp [step, erase_add_singleton, ← Multiset.singleton_add, add_comm waiting]

theorem step_loseWaiting : step ⟨waiting + {a}, running, done⟩ (.loseWaiting a) =
    some ⟨waiting, running, done⟩ := by
  simp [step, erase_add_singleton]

theorem step_loseRunning : step ⟨waiting, running + {a}, done⟩ (.loseRunning a) =
    some ⟨waiting, running, done⟩ := by
  simp [step, erase_add_singleton]

end Apart

/-- Several jobs that run are put up again. -/
theorem exec_again {waiting running done : Multiset α} {l : List α}
    (h : ∀ a ∈ l, a ∈ running) :
    Machine.exec step ⟨waiting, running, done⟩ (l.map .again) =
      some ⟨waiting + (l : Multiset α), running, done⟩ := by
  induction l generalizing waiting with
  | nil => exact congrArg some (by simp)
  | cons a l ih =>
    have hstep : step ⟨waiting, running, done⟩ (.again a) =
        some ⟨a ::ₘ waiting, running, done⟩ := by
      rw [step, if_pos (h a List.mem_cons_self)]
    rw [List.map_cons, Machine.exec_cons_of_step step hstep,
      ih fun a' ha' => h a' (List.mem_cons_of_mem _ ha'), ← Multiset.cons_coe,
      Multiset.add_cons, Multiset.cons_add]

/-- All jobs on the board. -/
def all (b : Board α) : Multiset α := b.waiting + b.running + b.done

/-- The balance of one event. -/
theorem step_all {b b' : Board α} {e : BoardEvent α} (h : b.step e = some b') :
    b.all + (e.submitted.toList + e.repeated.toList : Multiset α) = b'.all + e.lost.toList := by
  have hcons : ∀ (a : α) (m : Multiset α), a ∈ m → m = a ::ₘ m.erase a := fun a m ha =>
    (Multiset.cons_erase ha).symm
  cases e with
  | submit a =>
    cases h
    simp only [all, BoardEvent.submitted, BoardEvent.repeated, BoardEvent.lost,
      Option.toList_some, Option.toList_none, Multiset.coe_singleton, Multiset.coe_nil,
      ← Multiset.singleton_add]
    abel
  | again a =>
    rw [step] at h
    split_ifs at h
    cases h
    simp only [all, BoardEvent.submitted, BoardEvent.repeated, BoardEvent.lost,
      Option.toList_some, Option.toList_none, Multiset.coe_singleton, Multiset.coe_nil,
      ← Multiset.singleton_add]
    abel
  | take a | loseWaiting a =>
    rw [step] at h
    split_ifs at h with ha
    cases h
    have hwaiting := hcons a _ ha
    simp only [all, BoardEvent.submitted, BoardEvent.repeated, BoardEvent.lost,
      Option.toList_some, Option.toList_none, Multiset.coe_singleton, Multiset.coe_nil]
    nth_rewrite 1 [hwaiting]
    simp only [← Multiset.singleton_add]
    abel
  | finish a | giveBack a | loseRunning a =>
    rw [step] at h
    split_ifs at h with ha
    cases h
    have hrunning := hcons a _ ha
    simp only [all, BoardEvent.submitted, BoardEvent.repeated, BoardEvent.lost,
      Option.toList_some, Option.toList_none, Multiset.coe_singleton, Multiset.coe_nil]
    nth_rewrite 1 [hrunning]
    simp only [← Multiset.singleton_add]
    abel

/-! ## Whole runs -/

/-- **The balance of a run.** -/
theorem exec_all {b b' : Board α} {es : List (BoardEvent α)}
    (h : Machine.exec step b es = some b') :
    b.all + ((es.filterMap submitted : List α) + (es.filterMap repeated : List α)) =
      b'.all + (es.filterMap lost : List α) := by
  induction es generalizing b with
  | nil =>
    cases h
    rfl
  | cons e es ih =>
    obtain ⟨c, hc, hrest⟩ := (Machine.exec_cons_eq_some step).mp h
    have hone := step_all hc
    have hall := ih hrest
    simp only [BoardEvent.coe_filterMap_cons]
    calc b.all + ((e.submitted.toList : Multiset α) + (es.filterMap submitted : List α) +
          ((e.repeated.toList : Multiset α) + (es.filterMap repeated : List α)))
        = b.all + (e.submitted.toList + e.repeated.toList : Multiset α) +
            ((es.filterMap submitted : List α) + (es.filterMap repeated : List α)) := by abel
      _ = c.all + ((es.filterMap submitted : List α) + (es.filterMap repeated : List α)) +
            (e.lost.toList : Multiset α) := by rw [hone]; abel
      _ = b'.all + ((e.lost.toList : Multiset α) + (es.filterMap lost : List α)) := by
          rw [hall]; abel

/-- Without a loss every job stays. -/
theorem mem_all_of_exec {b b' : Board α} {es : List (BoardEvent α)}
    (h : Machine.exec step b es = some b') (hlost : es.filterMap lost = [])
    {a : α} (ha : a ∈ b.all ∨ a ∈ es.filterMap submitted) : a ∈ b'.all := by
  have hall := exec_all h
  rw [hlost, Multiset.coe_nil, add_zero] at hall
  rw [← hall]
  rcases ha with hold | hnew
  · exact Multiset.mem_add.mpr (Or.inl hold)
  · exact Multiset.mem_add.mpr (Or.inr (Multiset.mem_add.mpr (Or.inl (Multiset.mem_coe.mpr hnew))))

end Board
end Rcsce
