import Mathlib

/-!
# Bisection, and the next point on a circle

`bisectRight` is the loop of Python's `bisect.bisect_right` on a list.  On an
ordered list it returns the boundary between the elements that are at most `x` and
those that are greater (`bisectRight_spec`).

A ring of points is a set with one more rule, that after the last point comes the
first.  `NextPoint points x p` says that `p` is the point that follows `x` on such a
ring: the least point greater than `x`, or the least point of all when there is none.
It is unique (`NextPoint.unique`), and reading an ordered list at its bisection index,
wrapped around at the end, gives it (`nextPoint_wrapped`).  When points are taken off the
ring, the next point stays what it was unless it is one of them (`NextPoint.of_subset`).

`clockwise xs x` lists a ring from the next point on.  It starts with that point
(`head?_clockwise`), and leaving points out of the ring leaves them out of the list
(`filter_clockwise`).  When points have owners, `ownersAlong` lists these in the order in
which one meets them, each once.
-/

namespace Rcsce

universe u v

variable {α : Type u} [LinearOrder α]

/-! ## The loop -/

/-- The `while lo < hi` loop of `bisect.bisect_right`, for at most `fuel` rounds. -/
def bisectLoop (xs : List α) (x : α) : ℕ → ℕ → ℕ → ℕ
  | 0, lo, _ => lo
  | fuel + 1, lo, hi =>
    if lo < hi then
      let mid := (lo + hi) / 2
      match xs[mid]? with
      | none => lo
      | some y =>
        if x < y then bisectLoop xs x fuel lo mid else bisectLoop xs x fuel (mid + 1) hi
    else lo

/-- `bisect.bisect_right`.  The interval shrinks in every round, so as many rounds as
the list is long are enough. -/
def bisectRight (xs : List α) (x : α) : ℕ := bisectLoop xs x xs.length 0 xs.length

/-- `k` separates the elements that are at most `x` from those that are greater. -/
structure Boundary (xs : List α) (x : α) (k : ℕ) : Prop where
  le_length : k ≤ xs.length
  left : ∀ i y, i < k → xs[i]? = some y → y ≤ x
  right : ∀ i y, k ≤ i → xs[i]? = some y → x < y

/-- What the loop maintains: the boundary lies between `lo` and `hi`. -/
structure BisectInv (xs : List α) (x : α) (lo hi : ℕ) : Prop where
  le : lo ≤ hi
  hi_le : hi ≤ xs.length
  left : ∀ i y, i < lo → xs[i]? = some y → y ≤ x
  right : ∀ i y, hi ≤ i → xs[i]? = some y → x < y

theorem bisectInv_start (xs : List α) (x : α) : BisectInv xs x 0 xs.length where
  le := Nat.zero_le _
  hi_le := Nat.le_refl _
  left := fun i y hi _ => absurd hi (Nat.not_lt_zero i)
  right := by
    intro i y hi hy
    have hlt := (List.getElem?_eq_some_iff.mp hy).1
    omega

/-- In an ordered list, elements further left are not greater. -/
theorem getElem?_le_of_sorted {xs : List α} (hs : xs.Pairwise (· ≤ ·)) {i j : ℕ} {y z : α}
    (hij : i ≤ j) (hy : xs[i]? = some y) (hz : xs[j]? = some z) : y ≤ z := by
  obtain ⟨hi, rfl⟩ := List.getElem?_eq_some_iff.mp hy
  obtain ⟨hj, rfl⟩ := List.getElem?_eq_some_iff.mp hz
  rcases Nat.eq_or_lt_of_le hij with rfl | hlt
  · exact le_refl _
  · exact List.pairwise_iff_getElem.mp hs i j hi hj hlt

/-- The middle element is greater: the boundary is at or left of it. -/
theorem BisectInv.lower {xs : List α} {x y : α} {lo hi mid : ℕ} (hs : xs.Pairwise (· ≤ ·))
    (h : BisectInv xs x lo hi) (hlo : lo ≤ mid) (hhi : mid < hi) (hy : xs[mid]? = some y)
    (hlt : x < y) : BisectInv xs x lo mid where
  le := hlo
  hi_le := hhi.le.trans h.hi_le
  left := h.left
  right := fun _ _ hi hz => hlt.trans_le (getElem?_le_of_sorted hs hi hy hz)

/-- The middle element is at most `x`: the boundary is right of it. -/
theorem BisectInv.upper {xs : List α} {x y : α} {lo hi mid : ℕ} (hs : xs.Pairwise (· ≤ ·))
    (h : BisectInv xs x lo hi) (hhi : mid < hi) (hy : xs[mid]? = some y) (hle : y ≤ x) :
    BisectInv xs x (mid + 1) hi where
  le := hhi
  hi_le := h.hi_le
  left := fun _ _ hi hz => (getElem?_le_of_sorted hs (Nat.le_of_lt_succ hi) hz hy).trans hle
  right := h.right

/-- With enough rounds the loop ends on the boundary. -/
theorem bisectLoop_spec {xs : List α} (hs : xs.Pairwise (· ≤ ·)) (x : α) (fuel lo hi : ℕ)
    (hfuel : hi - lo ≤ fuel) (h : BisectInv xs x lo hi) :
    Boundary xs x (bisectLoop xs x fuel lo hi) := by
  have hdone : ∀ lo, BisectInv xs x lo lo → Boundary xs x lo := fun lo h =>
    ⟨h.hi_le, h.left, h.right⟩
  induction fuel generalizing lo hi with
  | zero =>
    have hle := h.le
    obtain rfl : lo = hi := by omega
    exact hdone lo h
  | succ fuel ih =>
    rw [bisectLoop]
    by_cases hlt : lo < hi
    · rw [if_pos hlt]
      have hmid : lo ≤ (lo + hi) / 2 ∧ (lo + hi) / 2 < hi := by omega
      have hlen : (lo + hi) / 2 < xs.length := hmid.2.trans_le h.hi_le
      have hy : xs[(lo + hi) / 2]? = some xs[(lo + hi) / 2] := List.getElem?_eq_getElem hlen
      simp only [hy]
      split_ifs with hx
      · exact ih _ _ (by omega) (h.lower hs hmid.1 hmid.2 hy hx)
      · exact ih _ _ (by omega) (h.upper hs hmid.2 hy (not_lt.mp hx))
    · have hle := h.le
      obtain rfl : lo = hi := by omega
      rw [if_neg hlt]
      exact hdone lo h

/-- **`bisect_right` on an ordered list** returns the boundary at `x`. -/
theorem bisectRight_spec {xs : List α} (hs : xs.Pairwise (· ≤ ·)) (x : α) :
    Boundary xs x (bisectRight xs x) :=
  bisectLoop_spec hs x _ _ _ (Nat.sub_le _ _) (bisectInv_start xs x)

/-! ## The next point on a ring -/

/-- `p` follows `x` on the ring of the given points. -/
def NextPoint (points : Set α) (x p : α) : Prop :=
  IsLeast {q | q ∈ points ∧ x < q} p ∨ (∀ q ∈ points, q ≤ x) ∧ IsLeast points p

theorem NextPoint.mem {points : Set α} {x p : α} (h : NextPoint points x p) : p ∈ points := by
  rcases h with h | h
  · exact h.1.1
  · exact h.2.1

/-- Only one point follows. -/
theorem NextPoint.unique {points : Set α} {x p q : α} (hp : NextPoint points x p)
    (hq : NextPoint points x q) : p = q := by
  rcases hp with hp | ⟨hlast, hp⟩ <;> rcases hq with hq | ⟨hlast', hq⟩
  · exact hp.unique hq
  · exact absurd hp.1.2 (not_lt.mpr (hlast' p hp.1.1))
  · exact absurd hq.1.2 (not_lt.mpr (hlast q hq.1.1))
  · exact hp.unique hq

/-- The next point is still the next one on a ring with fewer points, if it is on it. -/
theorem NextPoint.of_subset {points points' : Set α} {x p : α} (h : NextPoint points' x p)
    (hsub : points ⊆ points') (hp : p ∈ points) : NextPoint points x p := by
  rcases h with h | ⟨hlast, hleast⟩
  · exact Or.inl ⟨⟨hp, h.1.2⟩, fun q hq => h.2 ⟨hsub hq.1, hq.2⟩⟩
  · exact Or.inr ⟨fun q hq => hlast q (hsub hq), hp, fun q hq => hleast.2 (hsub hq)⟩

/-- The first element of an ordered list is the least one. -/
theorem isLeast_getElem?_zero {xs : List α} (hs : xs.Pairwise (· ≤ ·)) {y : α}
    (hy : xs[0]? = some y) : IsLeast {q | q ∈ xs} y := by
  refine ⟨List.mem_of_getElem? hy, fun q hq => ?_⟩
  obtain ⟨i, hi⟩ := List.mem_iff_getElem?.mp hq
  exact getElem?_le_of_sorted hs (Nat.zero_le i) hy hi

/-- **Bisecting with wrap-around.**  The element of an ordered list at the bisection
index, or the first one when that index is the end, is the next point. -/
theorem nextPoint_wrapped {xs : List α} (hs : xs.Pairwise (· ≤ ·)) (x : α) {y : α}
    (hy : xs[if bisectRight xs x = xs.length then 0 else bisectRight xs x]? = some y) :
    NextPoint {q | q ∈ xs} x y := by
  have hb := bisectRight_spec hs x
  split_ifs at hy with hend
  · refine Or.inr ⟨fun q hq => ?_, isLeast_getElem?_zero hs hy⟩
    obtain ⟨i, hi⟩ := List.mem_iff_getElem?.mp hq
    refine hb.left i q ?_ hi
    rw [hend]
    exact (List.getElem?_eq_some_iff.mp hi).1
  · refine Or.inl ⟨⟨List.mem_of_getElem? hy, hb.right _ _ le_rfl hy⟩, ?_⟩
    rintro q ⟨hq, hlt⟩
    obtain ⟨i, hi⟩ := List.mem_iff_getElem?.mp hq
    refine getElem?_le_of_sorted hs ?_ hy hi
    by_contra hcon
    exact absurd hlt (not_lt.mpr (hb.left i q (not_le.mp hcon) hi))

/-! ## The ring as a list -/

/-- The points of an ordered list in the order in which they follow `x` on the ring. -/
def clockwise (xs : List α) (x : α) : List α := xs.filter (x < ·) ++ xs.filter (· ≤ x)

theorem mem_clockwise {xs : List α} {x y : α} : y ∈ clockwise xs x ↔ y ∈ xs := by
  simp only [clockwise, List.mem_append, List.mem_filter, decide_eq_true_eq, ← and_or_left,
    lt_or_ge x y, and_true]

/-- Points that are left out of the ring are left out of the list. -/
theorem filter_clockwise (keep : α → Bool) (xs : List α) (x : α) :
    (clockwise xs x).filter keep = clockwise (xs.filter keep) x := by
  have hcomm : ∀ p : α → Bool, (xs.filter p).filter keep = (xs.filter keep).filter p := by
    intro p
    simp only [List.filter_filter, Bool.and_comm]
  rw [clockwise, clockwise, List.filter_append, hcomm, hcomm]

/-- An element of an ordered list that satisfies `keep` and comes first is the least such. -/
theorem isLeast_of_filter_eq_cons {xs ys : List α} (hs : xs.Pairwise (· ≤ ·)) {keep : α → Bool}
    {y : α} (h : xs.filter keep = y :: ys) : IsLeast {q | q ∈ xs ∧ keep q} y := by
  have hsorted : (xs.filter keep).Pairwise (· ≤ ·) := hs.filter keep
  rw [h] at hsorted
  refine ⟨List.mem_filter.mp (h ▸ List.mem_cons_self), fun q hq => ?_⟩
  have hmem : q ∈ y :: ys := h ▸ List.mem_filter.mpr hq
  rcases List.mem_cons.mp hmem with rfl | hrest
  · exact le_rfl
  · exact (List.pairwise_cons.mp hsorted).1 q hrest

/-- **The list starts with the next point.** -/
theorem head?_clockwise {xs : List α} (hs : xs.Pairwise (· ≤ ·)) {x p : α}
    (hp : NextPoint {q | q ∈ xs} x p) : (clockwise xs x).head? = some p := by
  have hnext : ∀ q qs, clockwise xs x = q :: qs → NextPoint {q | q ∈ xs} x q := by
    intro q qs h
    rw [clockwise] at h
    rcases hafter : xs.filter (x < ·) with _ | ⟨y, ys⟩
    · -- no point after `x`: the list starts over
      have hlast : ∀ z ∈ xs, z ≤ x := by
        intro z hz
        exact not_lt.mp fun hlt => List.filter_eq_nil_iff.mp hafter z hz (decide_eq_true hlt)
      rw [hafter, List.nil_append] at h
      have hleast := isLeast_of_filter_eq_cons hs h
      exact Or.inr ⟨hlast, hleast.1.1,
        fun z hz => hleast.2 ⟨hz, decide_eq_true (hlast z hz)⟩⟩
    · rw [hafter, List.cons_append] at h
      obtain rfl := (List.cons.inj h).1
      have hleast := isLeast_of_filter_eq_cons hs hafter
      exact Or.inl ⟨⟨hleast.1.1, of_decide_eq_true hleast.1.2⟩,
        fun z hz => hleast.2 ⟨hz.1, decide_eq_true hz.2⟩⟩
  rcases hlist : clockwise xs x with _ | ⟨q, qs⟩
  · exact absurd (mem_clockwise.mpr hp.mem) (hlist ▸ List.not_mem_nil)
  · rw [List.head?_cons, (hnext q qs hlist).unique hp]

/-! ## The owners along the ring -/

section Owners

variable {β : Type v} [DecidableEq β]

/-- Filtering and leaving out repetitions commute. -/
theorem filter_eraseDups (keep : β → Bool) (l : List β) :
    l.eraseDups.filter keep = (l.filter keep).eraseDups := by
  induction hn : l.length using Nat.strong_induction_on generalizing l with
  | _ n ih =>
    cases l with
    | nil => rfl
    | cons a l =>
      have hlt : (l.filter fun b => !b == a).length < n := by
        rw [← hn]
        exact Nat.lt_succ_of_le (List.length_filter_le _ _)
      rw [List.eraseDups_cons, List.filter_cons, List.filter_cons, ih _ hlt _ rfl,
        List.filter_filter]
      split_ifs with ha
      · rw [List.eraseDups_cons, List.filter_filter]
        simp only [Bool.and_comm]
      · -- what is kept differs from `a` anyway
        refine congrArg List.eraseDups (List.filter_congr fun b _ => ?_)
        by_cases hb : b = a
        · subst hb
          simp [ha]
        · simp [hb]

theorem nodup_eraseDups (l : List β) : l.eraseDups.Nodup := by
  induction hn : l.length using Nat.strong_induction_on generalizing l with
  | _ n ih =>
    cases l with
    | nil => exact List.nodup_nil
    | cons a l =>
      have hlt : (l.filter fun b => !b == a).length < n := by
        rw [← hn]
        exact Nat.lt_succ_of_le (List.length_filter_le _ _)
      rw [List.eraseDups_cons]
      refine List.nodup_cons.mpr ⟨fun hmem => ?_, ih _ hlt _ rfl⟩
      have hfilter := (List.mem_filter.mp (List.mem_eraseDups.mp hmem)).2
      simp at hfilter

/-- The owners of the points that follow `x`, each at the first of its points. -/
def ownersAlong (xs : List α) (owner : α → Option β) (x : α) : List β :=
  ((clockwise xs x).filterMap owner).eraseDups

theorem nodup_ownersAlong (xs : List α) (owner : α → Option β) (x : α) :
    (ownersAlong xs owner x).Nodup :=
  nodup_eraseDups _

theorem mem_ownersAlong {xs : List α} {owner : α → Option β} {x : α} {b : β} :
    b ∈ ownersAlong xs owner x ↔ ∃ p ∈ xs, owner p = some b := by
  rw [ownersAlong, List.mem_eraseDups, List.mem_filterMap]
  simp only [mem_clockwise]

/-- **The first owner** is the one of the next point. -/
theorem head?_ownersAlong {xs : List α} (hs : xs.Pairwise (· ≤ ·)) {owner : α → Option β}
    {x p : α} (hp : NextPoint {q | q ∈ xs} x p) {b : β} (hb : owner p = some b) :
    (ownersAlong xs owner x).head? = some b := by
  obtain ⟨ps, hps⟩ := List.head?_eq_some_iff.mp (head?_clockwise hs hp)
  rw [ownersAlong, hps, List.filterMap_cons_some hb, List.eraseDups_cons, List.head?_cons]

/-- **Owners that are left out** are met no more, and the others as before. -/
theorem filter_ownersAlong (keep : β → Bool) (xs : List α) (owner : α → Option β) (x : α) :
    (ownersAlong xs owner x).filter keep =
      ownersAlong (xs.filter fun p => (owner p).any keep) owner x := by
  rw [ownersAlong, ownersAlong, filter_eraseDups, ← filter_clockwise]
  refine congrArg List.eraseDups ?_
  induction clockwise xs x with
  | nil => rfl
  | cons p ps ih =>
    cases hp : owner p with
    | none => simp [hp, ih]
    | some b => by_cases hb : keep b <;> simp [hp, hb, ih]

theorem ownersAlong_congr {xs : List α} {owner owner' : α → Option β} (x : α)
    (h : ∀ p ∈ xs, owner' p = owner p) : ownersAlong xs owner' x = ownersAlong xs owner x := by
  refine congrArg List.eraseDups (List.filterMap_congr fun p hp => ?_)
  exact h p (mem_clockwise.mp hp)

end Owners

end Rcsce
