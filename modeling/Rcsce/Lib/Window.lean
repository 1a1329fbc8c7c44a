import Mathlib

/-!
# The last entries of a growing list

A log that is cut to its last `n` entries after each append is the window `List.rtake n`
over everything that was ever appended.

* `rtake_append` splits the window over an append.
* `rtake_rtake_append`: cutting before an append does not matter if one cuts after it, so the
  window survives each append.
* `rtake_append_filter`: a window over a part of the log catches up when what is new to it
  is appended.
* `rtake_append_eq_self`: a window that an append of something leaves as it is is full, and
  consists of what was appended.  For one entry: it is full of copies of it
  (`rtake_concat_eq_self_iff`).
* `le_length_rtakeWhile_iff`: the run of entries of a kind at the end is as long as the window
  exactly when the window is full and all of that kind.
-/

namespace Rcsce
namespace Window

universe u v

variable {α : Type u} {n : ℕ}

theorem length_rtake (n : ℕ) (l : List α) : (l.rtake n).length = min n l.length := by
  rw [List.rtake, List.length_drop]
  omega

theorem length_rtake_le (n : ℕ) (l : List α) : (l.rtake n).length ≤ n := by
  rw [length_rtake]
  exact min_le_left _ _

theorem rtake_of_length_le {l : List α} (h : l.length ≤ n) : l.rtake n = l := by
  rw [List.rtake, Nat.sub_eq_zero_of_le h, List.drop_zero]

theorem rtake_suffix (n : ℕ) (l : List α) : l.rtake n <:+ l := List.drop_suffix _ _

theorem rtake_rtake_of_le {k : ℕ} (h : k ≤ n) (l : List α) : (l.rtake n).rtake k = l.rtake k := by
  rw [List.rtake, List.rtake, List.rtake, List.length_drop, List.drop_drop]
  congr 1
  omega

theorem rtake_rtake (l : List α) : (l.rtake n).rtake n = l.rtake n :=
  rtake_rtake_of_le le_rfl l

/-- The window over an append: what was appended, and as much of the rest as there is room
for. -/
theorem rtake_append (l m : List α) :
    (l ++ m).rtake n = l.rtake (n - m.length) ++ m.rtake n := by
  rw [List.rtake, List.rtake, List.rtake, List.drop_append, List.length_append]
  have hm : l.length + m.length - n - l.length = m.length - n := by omega
  rw [hm]
  by_cases h : n ≤ m.length
  · have hl : l.length ≤ l.length + m.length - n := by omega
    have hl' : l.length ≤ l.length - (n - m.length) := by omega
    rw [List.drop_eq_nil_of_le hl, List.drop_eq_nil_of_le hl']
  · have hl : l.length + m.length - n = l.length - (n - m.length) := by omega
    rw [hl]

/-- Cutting before an append does not matter if one cuts after it. -/
theorem rtake_rtake_append (l m : List α) : (l.rtake n ++ m).rtake n = (l ++ m).rtake n := by
  rw [rtake_append, rtake_append l, rtake_rtake_of_le (Nat.sub_le _ _)]

theorem rtake_append_rtake (l m : List α) : (l ++ m.rtake n).rtake n = (l ++ m).rtake n := by
  rw [rtake_append, rtake_append l, rtake_rtake, length_rtake]
  congr 2
  omega

/-- A window over a part of a log catches up with the window over the whole log when what
is new to it is appended. -/
theorem rtake_append_filter {l m : List α} {new : α → Bool}
    (hold : ∀ x ∈ l.rtake n, x ∈ (l ++ m).rtake n → new x = false)
    (hnew : ∀ x ∈ m, x ∈ (l ++ m).rtake n → new x = true) :
    (l.rtake n ++ ((l ++ m).rtake n).filter new).rtake n = (l ++ m).rtake n := by
  have hsplit := rtake_append (n := n) l m
  have hl : (l.rtake (n - m.length)).filter new = [] := by
    rw [List.filter_eq_nil_iff]
    intro x hx
    have hmem : x ∈ (l ++ m).rtake n := by
      rw [hsplit]
      exact List.mem_append_left _ hx
    rw [← rtake_rtake_of_le (Nat.sub_le n m.length)] at hx
    simp [hold x ((rtake_suffix _ _).subset hx) hmem]
  have hm : (m.rtake n).filter new = m.rtake n := by
    rw [List.filter_eq_self]
    intro x hx
    refine hnew x ((rtake_suffix n m).subset hx) ?_
    rw [hsplit]
    exact List.mem_append_right _ hx
  rw [hsplit, List.filter_append, hl, hm, List.nil_append, rtake_rtake_append,
    rtake_append_rtake, hsplit]

/-- An append of at least as much as the window holds fills it. -/
theorem rtake_append_of_le {l m : List α} (h : m.length = n) : (l ++ m).rtake n = m := by
  rw [List.rtake, List.length_append, h, Nat.add_sub_cancel, List.drop_left]

/-- A list that is what is left of it after some entries, and then something, consists of the
latter. -/
theorem mem_of_eq_drop_append {l m : List α} {k : ℕ} (hk : 0 < k) (h : l = l.drop k ++ m) :
    ∀ x ∈ l, x ∈ m := by
  have hat : ∀ d i : ℕ, l.length ≤ i + d → ∀ x, l[i]? = some x → x ∈ m := by
    intro d
    induction d with
    | zero =>
      intro i hi x hx
      rw [List.getElem?_eq_none (by omega)] at hx
      cases hx
    | succ d ih =>
      intro i hi x hx
      rw [h] at hx
      by_cases hlt : i < (l.drop k).length
      · rw [List.getElem?_append_left hlt, List.getElem?_drop] at hx
        exact ih (k + i) (by omega) x hx
      · rw [List.getElem?_append_right (by omega)] at hx
        exact List.mem_of_getElem? hx
  intro x hx
  obtain ⟨i, hi⟩ := List.mem_iff_getElem?.mp hx
  exact hat l.length i (by omega) x hi

/-- A window that an append leaves as it is is full, and holds only what was appended. -/
theorem rtake_append_eq_self {l m : List α} (hm : m ≠ []) (hlength : m.length ≤ n)
    (h : (l ++ m).rtake n = l) : l.length = n ∧ ∀ x ∈ l, x ∈ m := by
  have hpos : 0 < m.length := List.length_pos_iff.mpr hm
  have hsize : min n (l.length + m.length) = l.length := by
    rw [← List.length_append, ← length_rtake, h]
  have hfull : l.length = n := by omega
  refine ⟨hfull, mem_of_eq_drop_append (k := m.length) hpos ?_⟩
  conv_lhs => rw [← h]
  rw [List.rtake, List.length_append, hfull, Nat.add_sub_cancel_left,
    List.drop_append_of_le_length (hfull ▸ hlength)]

/-- One entry leaves the window as it is when the window is full of copies of it. -/
theorem rtake_concat_eq_self_iff {l : List α} {e : α} (hn : 0 < n) :
    (l ++ [e]).rtake n = l ↔ l = List.replicate n e := by
  constructor
  · intro h
    obtain ⟨hlength, hmem⟩ := rtake_append_eq_self (List.cons_ne_nil e []) hn h
    exact List.eq_replicate_iff.mpr ⟨hlength, fun x hx => List.mem_singleton.mp (hmem x hx)⟩
  · rintro rfl
    rw [List.rtake, ← List.replicate_succ', List.drop_replicate, List.length_replicate,
      Nat.add_sub_cancel_left, Nat.add_sub_cancel]

theorem le_length_takeWhile_iff (keep : α → Bool) (l : List α) :
    n ≤ (l.takeWhile keep).length ↔ n ≤ l.length ∧ ∀ a ∈ l.take n, keep a = true := by
  induction l generalizing n with
  | nil => simp
  | cons a l ih =>
    cases n with
    | zero => simp
    | succ n =>
      rw [List.takeWhile_cons, List.take_succ_cons, List.forall_mem_cons]
      by_cases ha : keep a
      · rw [if_pos ha, List.length_cons, List.length_cons, Nat.succ_le_succ_iff,
          Nat.succ_le_succ_iff, ih]
        exact and_congr_right fun _ => (and_iff_right ha).symm
      · rw [if_neg ha]
        exact iff_of_false (Nat.not_succ_le_zero n) fun h => ha h.2.1

/-- **A run at the end of a log and a window over it.** -/
theorem le_length_rtakeWhile_iff (keep : α → Bool) (l : List α) :
    n ≤ (l.rtakeWhile keep).length ↔ n ≤ l.length ∧ ∀ a ∈ l.rtake n, keep a = true := by
  rw [List.rtakeWhile, List.length_reverse, le_length_takeWhile_iff, List.length_reverse,
    List.rtake_eq_reverse_take_reverse]
  simp only [List.mem_reverse]

end Window
end Rcsce
