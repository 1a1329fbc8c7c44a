import Mathlib

/-!
# Going through a list that changes

An iterator over a list is a position `n`: the next entry is the one at `n`, whatever has
become of the list since the entry before.  What it has still to visit, as long as the list
does not change, is `l.drop n`.

When an entry before `n` is removed, the others move up and the one at `n` is `lost`: the
iterator passes over it (`drop_erase`).  Any other removal takes away only the entry itself,
and an entry that is appended comes last.
-/

namespace Rcsce
namespace LiveList

universe u

variable {α : Type u} {l : List α} {n : ℕ} {a b : α}

/-- What is appended comes last. -/
theorem drop_concat_subset (l : List α) (n : ℕ) (a : α) :
    (l ++ [a]).drop n ⊆ l.drop n ++ [a] := by
  intro b hb
  rw [List.drop_append, List.mem_append] at hb
  exact List.mem_append.mpr (hb.imp_right fun h => List.mem_of_mem_drop h)

theorem subset_drop_concat (l : List α) (n : ℕ) (a : α) : l.drop n ⊆ (l ++ [a]).drop n := by
  rw [List.drop_append]
  exact List.subset_append_left _ _

/-- The next entry, and what comes after it. -/
theorem drop_of_getElem?_eq_some (h : l[n]? = some a) : l.drop n = a :: l.drop (n + 1) := by
  obtain ⟨hn, rfl⟩ := List.getElem?_eq_some_iff.mp h
  exact List.drop_eq_getElem_cons hn

/-- There is no next entry. -/
theorem drop_of_getElem?_eq_none (h : l[n]? = none) : l.drop n = [] :=
  List.drop_of_length_le (List.getElem?_eq_none_iff.mp h)

/-! ## Removals -/

variable [DecidableEq α]

/-- The entry that an iterator at `n` passes over when `a` is removed. -/
def lost (l : List α) (n : ℕ) (a : α) : Option α := if a ∈ l.take n then l[n]? else none

/-- What is still to be visited after a removal. -/
theorem drop_erase (l : List α) (n : ℕ) (a : α) :
    (l.erase a).drop n = if a ∈ l.take n then l.drop (n + 1) else (l.drop n).erase a := by
  have hlength : (l.take n).length = min n l.length := List.length_take
  conv_lhs => rw [← List.take_append_drop n l]
  split_ifs with ha
  · have herase := List.length_erase_of_mem ha
    have hpos := List.length_pos_of_mem ha
    rw [List.erase_append_left _ ha, List.drop_append]
    by_cases hn : n ≤ l.length
    · have hone : n - ((l.take n).erase a).length = 1 := by omega
      rw [hone, List.drop_drop, List.drop_of_length_le (by omega), List.nil_append]
    · rw [List.drop_of_length_le (by omega), List.drop_of_length_le (l := l) (by omega),
        List.drop_nil, List.drop_of_length_le (by omega), List.nil_append]
  · rw [List.erase_append_right _ ha, List.drop_append]
    by_cases hn : n ≤ l.length
    · have hzero : n - (l.take n).length = 0 := by omega
      rw [hzero, List.drop_zero, List.drop_of_length_le (by omega), List.nil_append]
    · rw [List.drop_of_length_le (by omega), List.drop_of_length_le (l := l) (by omega),
        List.erase_nil, List.drop_nil, List.nil_append]

/-- Nothing comes back. -/
theorem drop_erase_sublist (l : List α) (n : ℕ) (a : α) :
    ((l.erase a).drop n).Sublist (l.drop n) := by
  rw [drop_erase]
  split_ifs
  · rw [← List.drop_drop]
    exact List.drop_sublist _ _
  · exact List.erase_sublist

/-- An entry that was to be visited still is, or has been passed over, or was removed. -/
theorem mem_drop_erase (hb : b ∈ l.drop n) (hne : b ≠ a) :
    lost l n a = some b ∨ b ∈ (l.erase a).drop n := by
  rw [drop_erase, lost]
  split_ifs
  · have hn : n < l.length := by
      have hpos := List.length_pos_of_mem hb
      rw [List.length_drop] at hpos
      omega
    rw [List.drop_eq_getElem_cons hn, List.mem_cons] at hb
    rcases hb with rfl | hrest
    · exact Or.inl (List.getElem?_eq_getElem hn)
    · exact Or.inr hrest
  · exact Or.inr ((List.mem_erase_of_ne hne).mpr hb)

/-- An entry that was passed over was to be visited, and is not visited any more. -/
theorem lost_spec (hl : l.Nodup) (h : lost l n a = some b) :
    b ∈ l.drop n ∧ b ∉ (l.erase a).drop n := by
  rw [lost] at h
  split_ifs at h with ha
  obtain ⟨hn, rfl⟩ := List.getElem?_eq_some_iff.mp h
  have hcons := List.drop_eq_getElem_cons hn
  have hnodup : (l.drop n).Nodup := hl.sublist (List.drop_sublist n l)
  rw [hcons] at hnodup
  rw [drop_erase, if_pos ha, hcons]
  exact ⟨List.mem_cons_self, (List.nodup_cons.mp hnodup).1⟩

end LiveList
end Rcsce
