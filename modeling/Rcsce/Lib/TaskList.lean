import Mathlib

/-!
# The unfinished tasks of a process

The tasks are a list and a step names one by its index.  `advance l i next`
replaces the task at `i` by what it is after the step, or removes it when it has
finished.  Up to order only that task changes (`advance_perm`), and membership
goes both ways.  What all tasks hold together, as a list or in any commutative monoid,
changes by what the one task held before and holds after (`filterMap_advance_perm`,
`sum_map_advance`), and so does the number of tasks of a kind (`countP_advance`).
-/

namespace Rcsce

universe u v

variable {α : Type u}

/-- The task at index `i` goes on as `next`, or is finished. -/
def advance (l : List α) (i : ℕ) : Option α → List α
  | some a => l.set i a
  | none => l.eraseIdx i

theorem perm_cons_eraseIdx {l : List α} {i : ℕ} {a : α} (h : l[i]? = some a) :
    l.Perm (a :: l.eraseIdx i) := by
  obtain ⟨hi, rfl⟩ := List.getElem?_eq_some_iff.mp h
  exact (List.getElem_cons_eraseIdx_perm hi).symm

/-- Up to order, a step changes the one task that it names. -/
theorem advance_perm {l : List α} {i : ℕ} {a : α} (h : l[i]? = some a) (next : Option α) :
    (advance l i next).Perm (next.toList ++ l.eraseIdx i) := by
  obtain ⟨hi, -⟩ := List.getElem?_eq_some_iff.mp h
  cases next with
  | none => exact List.Perm.refl _
  | some b => exact List.set_perm_cons_eraseIdx hi b

/-- The other tasks are still there. -/
theorem mem_advance {l : List α} {i : ℕ} {a x : α} (h : l[i]? = some a) (hx : x ∈ l)
    (next : Option α) : x = a ∨ x ∈ advance l i next := by
  rcases List.mem_cons.mp ((perm_cons_eraseIdx h).subset hx) with heq | hrest
  · exact Or.inl heq
  · exact Or.inr ((advance_perm h next).symm.subset (List.mem_append_right _ hrest))

/-- No task appears but the one that the step leaves. -/
theorem mem_of_mem_advance {l : List α} {i : ℕ} {a x : α} (h : l[i]? = some a)
    {next : Option α} (hx : x ∈ advance l i next) : next = some x ∨ x ∈ l := by
  rcases List.mem_append.mp ((advance_perm h next).subset hx) with hnext | hrest
  · exact Or.inl (Option.mem_toList.mp hnext)
  · exact Or.inr (List.mem_of_mem_eraseIdx hrest)

theorem mem_advance_self {l : List α} {i : ℕ} {a b : α} (h : l[i]? = some a) :
    b ∈ advance l i (some b) :=
  (advance_perm h (some b)).symm.subset (List.mem_append_left _ List.mem_cons_self)

/-! ## What some of the tasks hold -/

section Holds

variable {β : Type v} (f : α → Option β)

/-- What the tasks hold, with one of them apart. -/
theorem filterMap_perm {l : List α} {i : ℕ} {a : α} (h : l[i]? = some a) :
    (l.filterMap f).Perm ((f a).toList ++ (l.eraseIdx i).filterMap f) := by
  refine ((perm_cons_eraseIdx h).filterMap f).trans ?_
  rw [List.filterMap_cons]
  cases f a <;> exact List.Perm.refl _

/-- What the tasks hold after a step of one of them. -/
theorem filterMap_advance_perm {l : List α} {i : ℕ} {a : α} (h : l[i]? = some a)
    (next : Option α) :
    ((advance l i next).filterMap f).Perm
      ((next.bind f).toList ++ (l.eraseIdx i).filterMap f) := by
  refine ((advance_perm h next).filterMap f).trans ?_
  cases next with
  | none => exact List.Perm.refl _
  | some b =>
    rw [Option.toList_some, List.singleton_append, List.filterMap_cons, Option.bind_some]
    cases f b <;> exact List.Perm.refl _

end Holds

/-! ## Sums over the tasks

What the tasks hold together is the sum of what each of them holds. -/

section Sums

variable {M : Type v} [AddCommMonoid M] (f : α → M)

/-- What the tasks hold, with one of them apart. -/
theorem sum_map_eq_add_eraseIdx {l : List α} {i : ℕ} {a : α} (h : l[i]? = some a) :
    (l.map f).sum = f a + ((l.eraseIdx i).map f).sum := by
  rw [((perm_cons_eraseIdx h).map f).sum_eq, List.map_cons, List.sum_cons]

/-- What the tasks hold after a step of one of them. -/
theorem sum_map_advance {l : List α} {i : ℕ} {a : α} (h : l[i]? = some a) (next : Option α) :
    ((advance l i next).map f).sum = (next.map f).getD 0 + ((l.eraseIdx i).map f).sum := by
  rw [((advance_perm h next).map f).sum_eq, List.map_append, List.sum_append]
  cases next <;> simp

end Sums

/-! ## Tasks of a kind -/

section Counts

variable (p : α → Bool)

/-- The tasks of a kind, with one task apart. -/
theorem countP_eq_eraseIdx_add {l : List α} {i : ℕ} {a : α} (h : l[i]? = some a) :
    l.countP p = (l.eraseIdx i).countP p + if p a then 1 else 0 :=
  ((perm_cons_eraseIdx h).countP_eq p).trans List.countP_cons

/-- The tasks of a kind after a step of one task. -/
theorem countP_advance {l : List α} {i : ℕ} {a : α} (h : l[i]? = some a) (next : Option α) :
    (advance l i next).countP p = (l.eraseIdx i).countP p + next.toList.countP p := by
  rw [(advance_perm h next).countP_eq, List.countP_append, Nat.add_comm]

end Counts

end Rcsce
