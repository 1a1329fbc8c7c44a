import Rcsce.Lib.Window

/-!
# The order of last use

A list in the order of last use, the most recent at its end, of which only the last `n` are
kept.

* `touch n l a` moves `a` to the end, or appends it, and keeps the last `n`.
* `l.dedup` lists the entries of a history in the order of their last occurrences:
  `dedup_concat`, and `pairwise_age_dedup` for the ages.
* `touch_rtake_dedup`: what is kept is the window over the whole history, so an entry that was
  dropped and comes back finds the list as if nothing had ever been dropped.
* `FollowedBy l a S`: behind `a` there are only entries of `S`.  Then `a` stays as long as `S`
  has less than `n` entries (`FollowedBy.touch`).
-/

namespace Rcsce
namespace Recency

universe u

variable {α : Type u} [DecidableEq α] {n : ℕ} {l : List α} {a b : α}

/-- `a` becomes the most recent, and the last `n` are kept. -/
def touch (n : ℕ) (l : List α) (a : α) : List α := (l.filter (· ≠ a) ++ [a]).rtake n

/-- How many entries the history has behind the last occurrence. -/
def age (l : List α) (a : α) : ℕ := l.reverse.idxOf a

@[simp] theorem age_concat_self (l : List α) (a : α) : age (l ++ [a]) a = 0 := by
  rw [age, List.reverse_concat, List.idxOf_cons_self]

theorem age_concat_of_ne (l : List α) (h : b ≠ a) : age (l ++ [a]) b = age l b + 1 := by
  rw [age, List.reverse_concat, List.idxOf_cons_ne _ h.symm, age]

/-! ## The order of the last occurrences -/

/-- A new entry comes last, wherever it was. -/
theorem dedup_concat (l : List α) (a : α) :
    (l ++ [a]).dedup = l.dedup.filter (· ≠ a) ++ [a] := by
  induction l with
  | nil => rfl
  | cons b l ih =>
    rw [List.cons_append]
    by_cases hbl : b ∈ l
    · rw [List.dedup_cons_of_mem (List.mem_append_left _ hbl), List.dedup_cons_of_mem hbl, ih]
    rw [List.dedup_cons_of_notMem hbl]
    by_cases hba : b = a
    · subst hba
      have hmem : b ∈ l ++ [b] := List.mem_append_right _ List.mem_cons_self
      rw [List.dedup_cons_of_mem hmem, ih, List.filter_cons_of_neg (by simp)]
    · have hnot : b ∉ l ++ [a] := by simp [hbl, hba]
      rw [List.dedup_cons_of_notMem hnot, ih, List.filter_cons_of_pos (by simp [hba]),
        List.cons_append]

/-- The older an entry, the earlier it comes. -/
theorem pairwise_age_dedup (l : List α) : l.dedup.Pairwise fun a b => age l b < age l a := by
  induction l using List.reverseRecOn with
  | nil => exact List.Pairwise.nil
  | append_singleton l c ih =>
    have hne : ∀ {x}, x ∈ l.dedup.filter (· ≠ c) → x ≠ c := fun hx =>
      of_decide_eq_true (List.mem_filter.mp hx).2
    rw [dedup_concat, List.pairwise_append]
    refine ⟨?_, List.pairwise_singleton _ _, fun x hx y hy => ?_⟩
    · refine (ih.filter _).imp_of_mem fun {x y} hx hy hlt => ?_
      rw [age_concat_of_ne l (hne hx), age_concat_of_ne l (hne hy)]
      exact Nat.succ_lt_succ hlt
    · obtain rfl := List.mem_singleton.mp hy
      rw [age_concat_self, age_concat_of_ne l (hne hx)]
      exact Nat.succ_pos _

/-! ## The window over the history -/

theorem length_le_filter_ne_add_one (hl : l.Nodup) (a : α) :
    l.length ≤ (l.filter (· ≠ a)).length + 1 := by
  have hcount := List.length_eq_length_filter_add (l := l) (· ≠ a)
  have hone : (l.filter fun b => !decide (b ≠ a)).length ≤ 1 := by
    have heq : (l.filter fun b => !decide (b ≠ a)) = l.filter (· == a) :=
      List.filter_congr fun b _ => by simp [beq_eq_decide]
    rw [heq, ← List.countP_eq_length_filter]
    exact List.nodup_iff_count_le_one.mp hl a
  omega

/-- Dropping old entries first does not change what is kept. -/
theorem touch_rtake (hl : l.Nodup) (n : ℕ) (a : α) : touch n (l.rtake n) a = touch n l a := by
  have hsplit : l = l.take (l.length - n) ++ l.rtake n := (List.take_append_drop _ l).symm
  have hlength := length_le_filter_ne_add_one (hl.sublist (Window.rtake_suffix n l).sublist) a
  rw [Window.length_rtake] at hlength
  rw [touch, touch]
  conv_rhs => rw [hsplit]
  rw [List.filter_append, Window.rtake_append, Window.rtake_append _ [a], Window.rtake_append]
  congr 1
  by_cases hn : n ≤ l.length
  · have hzero : n - [a].length - ((l.rtake n).filter (· ≠ a)).length = 0 := by
      rw [List.length_singleton]
      omega
    rw [hzero, List.rtake_zero, List.nil_append]
  · have hzero : l.length - n = 0 := by omega
    rw [hzero, List.take_zero, List.filter_nil, List.rtake_nil, List.nil_append]

/-- **Nothing is forgotten.**  Keeping the last `n` at each use gives the last `n` of all that
were ever used. -/
theorem touch_rtake_dedup (n : ℕ) (l : List α) (a : α) :
    touch n (l.dedup.rtake n) a = (l ++ [a]).dedup.rtake n := by
  rw [touch_rtake (List.nodup_dedup l), touch, dedup_concat]

/-- To use an entry that is there drops nothing. -/
theorem touch_of_mem (hlength : l.length ≤ n) (ha : a ∈ l) :
    touch n l a = l.filter (· ≠ a) ++ [a] := by
  refine Window.rtake_of_length_le ?_
  have hlt : (l.filter (· ≠ a)).length < l.length :=
    List.length_filter_lt_length_iff_exists.mpr ⟨a, ha, by simp⟩
  rw [List.length_append, List.length_singleton]
  omega

/-! ## What is behind an entry -/

/-- The entry is there, and behind it there are only entries of `S`. -/
def FollowedBy (l : List α) (a : α) (S : Finset α) : Prop :=
  ∃ before behind, l = before ++ a :: behind ∧ ∀ b ∈ behind, b ∈ S

namespace FollowedBy

variable {S : Finset α}

omit [DecidableEq α] in
theorem mem (h : FollowedBy l a S) : a ∈ l := by
  obtain ⟨before, behind, rfl, -⟩ := h
  exact List.mem_append_right _ List.mem_cons_self

/-- Nothing is behind the most recent one. -/
theorem touch_self (hn : 0 < n) (l : List α) (a : α) (S : Finset α) :
    FollowedBy (Recency.touch n l a) a S := by
  refine ⟨(l.filter (· ≠ a)).rtake (n - 1), [], ?_, fun _ hb => absurd hb List.not_mem_nil⟩
  rw [Recency.touch, Window.rtake_append, List.length_singleton,
    Window.rtake_of_length_le (show [a].length ≤ n from hn)]

/-- Another entry goes. -/
theorem filter (h : FollowedBy l a S) (hb : a ≠ b) : FollowedBy (l.filter (· ≠ b)) a S := by
  obtain ⟨before, behind, rfl, hbehind⟩ := h
  refine ⟨before.filter (· ≠ b), behind.filter (· ≠ b), ?_, fun c hc => ?_⟩
  · rw [List.filter_append, List.filter_cons_of_pos (by simpa using hb)]
  · exact hbehind c (List.mem_of_mem_filter hc)

/-- **Another entry is used.**  The entry is kept as long as fewer than `n` others can be
behind it. -/
theorem touch (h : FollowedBy l a S) (hl : l.Nodup) (hb : b ≠ a)
    (hcard : ((insert b S).erase a).card < n) :
    FollowedBy (Recency.touch n l b) a (insert b S) := by
  obtain ⟨before, behind, hfilter, hbehind⟩ := h.filter hb.symm
  have hnodup : (before ++ a :: behind).Nodup := hfilter ▸ hl.filter _
  have hnot : b ∉ behind := fun hmem => by
    have hmem' : b ∈ l.filter (· ≠ b) :=
      hfilter ▸ List.mem_append_right _ (List.mem_cons_of_mem _ hmem)
    exact of_decide_eq_true (List.mem_filter.mp hmem').2 rfl
  have htail := List.nodup_cons.mp (List.nodup_append.mp hnodup).2.1
  have hlength : behind.length + 1 ≤ ((insert b S).erase a).card := by
    have hnodup' : (b :: behind).Nodup := List.nodup_cons.mpr ⟨hnot, htail.2⟩
    rw [← List.length_cons (a := b), ← List.toFinset_card_of_nodup hnodup']
    refine Finset.card_le_card fun c hc => ?_
    rw [List.mem_toFinset, List.mem_cons] at hc
    rw [Finset.mem_erase, Finset.mem_insert]
    rcases hc with rfl | hc
    · exact ⟨hb, Or.inl rfl⟩
    · exact ⟨fun hca => htail.1 (hca ▸ hc), Or.inr (hbehind c hc)⟩
  have hkept : (a :: (behind ++ [b])).length ≤ n := by
    rw [List.length_cons, List.length_append, List.length_singleton]
    omega
  refine ⟨before.rtake (n - (a :: (behind ++ [b])).length), behind ++ [b], ?_, fun c hc => ?_⟩
  · rw [Recency.touch, hfilter, List.append_assoc, List.cons_append, Window.rtake_append,
      Window.rtake_of_length_le hkept]
  · rw [Finset.mem_insert]
    rcases List.mem_append.mp hc with hold | hnew
    · exact Or.inr (hbehind c hold)
    · exact Or.inl (List.mem_singleton.mp hnew)

end FollowedBy
end Recency
end Rcsce
