import Mathlib

/-!
# Lists joined around a separator

A list of words written as one word, with a separator between its entries.  An entry may contain
the separator itself, so the word says only what the entries become when each is split at the
separator (`pieces`), and not where one entry ended and the next began.

* `append_cons_eq_iff`: the ways in which two words around a separator are the same word.
* `splitOn_intercalate_eq_pieces`: splitting the joined word gives the pieces of the entries.
* `intercalate_eq_iff_pieces`: two lists are joined to one word exactly when they have the same
  pieces.
* `eq_iff_pieces_and_counts`: what the word leaves out is how many separators each entry has.
* `insertionSort_eq_iff_perm`: sorting is a canonical form for lists up to order.
-/

namespace Rcsce

universe u

/-- Two words around a separator are the same word when their halves are, or when a part of the
one first half is in the second half of the other. -/
theorem append_cons_eq_iff {α : Type u} {sep : α} {a b c d : List α} :
    a ++ sep :: b = c ++ sep :: d ↔
      (a = c ∧ b = d) ∨ (∃ r, c = a ++ sep :: r ∧ b = r ++ sep :: d) ∨
        ∃ r, a = c ++ sep :: r ∧ d = r ++ sep :: b := by
  constructor
  · intro h
    rcases List.append_eq_append_iff.mp h with ⟨m, hc, hb⟩ | ⟨m, ha, hd⟩
    · cases m with
      | nil =>
        rw [List.append_nil] at hc
        exact Or.inl ⟨hc.symm, (List.cons.inj hb).2⟩
      | cons x r =>
        obtain ⟨rfl, hb'⟩ := List.cons.inj hb
        exact Or.inr (Or.inl ⟨r, hc, hb'⟩)
    · cases m with
      | nil =>
        rw [List.append_nil] at ha
        exact Or.inl ⟨ha, (List.cons.inj hd).2.symm⟩
      | cons x r =>
        obtain ⟨rfl, hd'⟩ := List.cons.inj hd
        exact Or.inr (Or.inr ⟨r, ha, hd'⟩)
  · rintro (⟨rfl, rfl⟩ | ⟨r, rfl, rfl⟩ | ⟨r, rfl, rfl⟩)
    · rfl
    · rw [List.append_assoc, List.cons_append]
    · rw [List.append_assoc, List.cons_append]

section Pieces

variable {α : Type u} [DecidableEq α] {sep : α}

/-- The entries split at the separator.  A list without entries is joined to the empty word, which
has one piece. -/
def pieces (sep : α) : List (List α) → List (List α)
  | [] => [[]]
  | w :: ws => (w :: ws).flatMap (List.splitOn sep)

theorem pieces_cons_cons (v w : List α) (ws : List (List α)) :
    pieces sep (v :: w :: ws) = v.splitOn sep ++ pieces sep (w :: ws) := by
  rw [pieces, pieces, List.flatMap_cons]

/-- Splitting the joined word gives the pieces. -/
theorem splitOn_intercalate_eq_pieces (ws : List (List α)) :
    ([sep].intercalate ws).splitOn sep = pieces sep ws := by
  induction ws with
  | nil => rw [List.intercalate_nil, List.splitOn_nil, pieces]
  | cons v ws ih =>
    cases ws with
    | nil => rw [List.intercalate_singleton, pieces, List.flatMap_singleton]
    | cons w ws =>
      rw [List.intercalate_cons_cons, List.append_assoc, List.singleton_append,
        List.splitOn_append_cons_self, ih, pieces_cons_cons]

/-- **What the joined word says.** -/
theorem intercalate_eq_iff_pieces {ws ws' : List (List α)} :
    [sep].intercalate ws = [sep].intercalate ws' ↔ pieces sep ws = pieces sep ws' := by
  rw [← splitOn_intercalate_eq_pieces, ← splitOn_intercalate_eq_pieces]
  constructor
  · intro h
    rw [h]
  · intro h
    have hjoin := congrArg (List.intercalate [sep]) h
    rwa [List.intercalate_splitOn, List.intercalate_splitOn] at hjoin

/-- A word has one more piece than it has separators. -/
theorem length_splitOn (w : List α) : (w.splitOn sep).length = w.count sep + 1 := by
  induction w with
  | nil => rw [List.splitOn_nil, List.length_singleton, List.count_nil]
  | cons a w ih =>
    rw [List.splitOn_cons_eq_if_modifyHead, List.count_cons]
    split
    · rw [List.length_cons, ih]
    · rw [List.length_modifyHead, ih, Nat.add_zero]

theorem map_length_map_splitOn (ws : List (List α)) :
    (ws.map (List.splitOn sep)).map List.length = (ws.map (List.count sep)).map (· + 1) := by
  rw [List.map_map, List.map_map]
  exact List.map_congr_left fun w _ => length_splitOn w

/-- **What the joined word leaves out.** -/
theorem eq_iff_pieces_and_counts {ws ws' : List (List α)} :
    ws = ws' ↔ pieces sep ws = pieces sep ws' ∧
      ws.map (List.count sep) = ws'.map (List.count sep) := by
  constructor
  · rintro rfl
    exact ⟨rfl, rfl⟩
  · rintro ⟨hpieces, hcounts⟩
    have hsplit : ws.map (List.splitOn sep) = ws'.map (List.splitOn sep) := by
      rw [List.eq_iff_flatten_eq, map_length_map_splitOn, map_length_map_splitOn, hcounts]
      refine ⟨?_, rfl⟩
      cases ws with
      | nil =>
        rw [List.map_eq_nil_iff.mp hcounts.symm]
      | cons w ws =>
        cases ws' with
        | nil => simp at hcounts
        | cons w' ws' => exact hpieces
    have hjoin := congrArg (List.map fun ps => [sep].intercalate ps) hsplit
    rw [List.map_map, List.map_map] at hjoin
    have hid : (fun ps => [sep].intercalate ps) ∘ List.splitOn sep = id :=
      funext fun w => List.intercalate_splitOn sep
    rwa [hid, List.map_id, List.map_id] at hjoin

/-- Words without the separator are their own pieces, unless there is none. -/
theorem pieces_of_notMem {ws : List (List α)} (hne : ws ≠ []) (h : ∀ w ∈ ws, sep ∉ w) :
    pieces sep ws = ws := by
  rw [← splitOn_intercalate_eq_pieces, List.splitOn_intercalate sep h hne]

end Pieces

/-- **Sorting is a canonical form.** -/
theorem insertionSort_eq_iff_perm {α : Type u} [LinearOrder α] {xs ys : List α} :
    xs.insertionSort (· ≤ ·) = ys.insertionSort (· ≤ ·) ↔ xs.Perm ys := by
  constructor
  · intro h
    exact (List.perm_insertionSort _ xs).symm.trans (h ▸ List.perm_insertionSort _ ys)
  · intro h
    exact List.Perm.eq_of_pairwise' (List.pairwise_insertionSort _ _)
      (List.pairwise_insertionSort _ _)
      ((List.perm_insertionSort _ xs).trans (h.trans (List.perm_insertionSort _ ys).symm))

end Rcsce
