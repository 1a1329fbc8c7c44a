import Rcsce.ControlPlane.CacheKeys
import Rcsce.Lib.SortedJoin

/-!
# What an image hash identifies

`shared/utils/hashing.py`: the hash of an image is that of its layer ids, sorted and joined by
bars.  Sorting makes it the hash of a collection.  The bars do not keep the ids apart: an id may
contain bars of its own, and no ids at all are joined to the text of one empty id.

* `computeImageHash_eq_iff`: two hashes are equal exactly when the ids, in sorted order, split at
  the bars into the same pieces.
* `image_hash_identifies_iff`: the pairs of lists for which equal hashes mean equal collections.
-/

namespace Rcsce

/-- `compute_layer_hash`. -/
def computeLayerHash (sha256Text : String → String) (layerId : String) : String :=
  sha256Text layerId

/-- `sorted(layer_ids)`: strings are compared by code points. -/
def sortedIds (layerIds : List String) : List String := layerIds.insertionSort (· ≤ ·)

/-- `combined`, the text that `compute_image_hash` hashes. -/
def combinedIds (layerIds : List String) : String := "|".intercalate (sortedIds layerIds)

/-- `compute_image_hash`. -/
def computeImageHash (sha256Text : String → String) (layerIds : List String) : String :=
  sha256Text (combinedIds layerIds)

/-- The hash of an image with one layer is the hash of the layer. -/
theorem computeImageHash_singleton (sha256Text : String → String) (layerId : String) :
    computeImageHash sha256Text [layerId] = computeLayerHash sha256Text layerId := by
  rw [computeImageHash, computeLayerHash, combinedIds, sortedIds, List.insertionSort_cons,
    List.insertionSort_nil, List.orderedInsert_nil, String.intercalate_singleton]

/-! ## What the text says about the ids -/

/-- The ids in sorted order, as lists of characters. -/
def sortedChars (layerIds : List String) : List (List Char) :=
  (sortedIds layerIds).map String.toList

/-- The ids of both lists, in sorted order, split at the bars into the same pieces, but they do not
have as many bars, id by id. -/
def Regrouped (xs ys : List String) : Prop :=
  pieces '|' (sortedChars xs) = pieces '|' (sortedChars ys) ∧
    (sortedChars xs).map (List.count '|') ≠ (sortedChars ys).map (List.count '|')

instance (xs ys : List String) : Decidable (Regrouped xs ys) := inferInstanceAs (Decidable (_ ∧ _))

/-- No id has a bar. -/
def BarFree (layerIds : List String) : Prop := ∀ i ∈ layerIds, '|' ∉ i.toList

theorem sortedChars_eq_iff {xs ys : List String} :
    sortedChars xs = sortedChars ys ↔ xs.Perm ys := by
  rw [sortedChars, sortedChars, sortedIds, sortedIds, ← insertionSort_eq_iff_perm]
  exact (List.map_injective_iff.mpr fun _ _ => String.toList_inj.mp).eq_iff

theorem combinedIds_eq_iff {xs ys : List String} :
    combinedIds xs = combinedIds ys ↔
      pieces '|' (sortedChars xs) = pieces '|' (sortedChars ys) := by
  rw [← intercalate_eq_iff_pieces, ← String.toList_inj, combinedIds, combinedIds,
    String.toList_intercalate, String.toList_intercalate]
  exact Iff.rfl

theorem length_sortedChars (xs : List String) : (sortedChars xs).length = xs.length := by
  rw [sortedChars, List.length_map, sortedIds, List.length_insertionSort]

theorem mem_sortedChars {xs : List String} {w : List Char} :
    w ∈ sortedChars xs ↔ ∃ i ∈ xs, i.toList = w := by
  rw [sortedChars, List.mem_map]
  simp only [sortedIds, List.mem_insertionSort]

/-- What sets regrouped lists apart from lists that are the same up to order. -/
theorem perm_iff_pieces_and_counts {xs ys : List String} :
    xs.Perm ys ↔ pieces '|' (sortedChars xs) = pieces '|' (sortedChars ys) ∧
      (sortedChars xs).map (List.count '|') = (sortedChars ys).map (List.count '|') := by
  rw [← sortedChars_eq_iff]
  exact eq_iff_pieces_and_counts

/-! ## Ids without bars -/

/-- One of the lists is empty and the other one holds the empty id. -/
def EmptyAndEmptyId (xs ys : List String) : Prop := (xs = [] ∧ ys = [""]) ∨ (xs = [""] ∧ ys = [])

theorem pieces_sortedChars {xs : List String} (hbars : BarFree xs) (hne : xs ≠ []) :
    pieces '|' (sortedChars xs) = sortedChars xs := by
  refine pieces_of_notMem ?_ ?_
  · rw [← List.length_pos_iff, length_sortedChars]
    exact List.length_pos_iff.mpr hne
  · intro w hw
    obtain ⟨i, hi, rfl⟩ := mem_sortedChars.mp hw
    exact hbars i hi

theorem counts_of_barFree {xs : List String} (hbars : BarFree xs) :
    (sortedChars xs).map (List.count '|') = List.replicate xs.length 0 := by
  rw [List.eq_replicate_iff]
  refine ⟨by rw [List.length_map, length_sortedChars], fun n hn => ?_⟩
  obtain ⟨w, hw, rfl⟩ := List.mem_map.mp hn
  obtain ⟨i, hi, rfl⟩ := mem_sortedChars.mp hw
  exact List.count_eq_zero.mpr (hbars i hi)

/-- Without bars only the numbers of ids can differ. -/
theorem regrouped_iff_length_ne {xs ys : List String} (hxs : BarFree xs) (hys : BarFree ys) :
    Regrouped xs ys ↔
      pieces '|' (sortedChars xs) = pieces '|' (sortedChars ys) ∧ xs.length ≠ ys.length := by
  rw [Regrouped, counts_of_barFree hxs, counts_of_barFree hys, Ne, List.replicate_inj]
  simp

theorem regrouped_comm {xs ys : List String} : Regrouped xs ys ↔ Regrouped ys xs :=
  and_congr eq_comm ne_comm

theorem emptyAndEmptyId_comm {xs ys : List String} :
    EmptyAndEmptyId xs ys ↔ EmptyAndEmptyId ys xs := by
  rw [EmptyAndEmptyId, EmptyAndEmptyId, or_comm, and_comm, and_comm (a := xs = [])]

/-- Without ids there is one piece, as there is for the empty id alone. -/
theorem regrouped_nil_iff {ys : List String} (hys : BarFree ys) :
    Regrouped [] ys ↔ EmptyAndEmptyId [] ys := by
  have hnil : BarFree [] := by simp [BarFree]
  rw [regrouped_iff_length_ne hnil hys, EmptyAndEmptyId]
  by_cases hne : ys = []
  · simp [hne]
  · have hone : pieces '|' (sortedChars []) = sortedChars [""] := rfl
    rw [pieces_sortedChars hys hne, hone, sortedChars_eq_iff, List.singleton_perm]
    constructor
    · rintro ⟨h, -⟩
      exact Or.inl ⟨rfl, h.symm⟩
    · rintro (⟨-, rfl⟩ | ⟨-, h⟩)
      · exact ⟨rfl, by simp⟩
      · exact absurd h hne

/-- **Ids without bars** are regrouped in one way only. -/
theorem regrouped_iff_of_barFree {xs ys : List String} (hxs : BarFree xs) (hys : BarFree ys) :
    Regrouped xs ys ↔ EmptyAndEmptyId xs ys := by
  rcases eq_or_ne xs [] with rfl | hx
  · exact regrouped_nil_iff hys
  rcases eq_or_ne ys [] with rfl | hy
  · rw [regrouped_comm, emptyAndEmptyId_comm]
    exact regrouped_nil_iff hxs
  rw [regrouped_iff_length_ne hxs hys, pieces_sortedChars hxs hx, pieces_sortedChars hys hy,
    sortedChars_eq_iff]
  constructor
  · rintro ⟨hperm, hlength⟩
    exact absurd hperm.length_eq hlength
  · rintro (⟨h, -⟩ | ⟨-, h⟩)
    · exact absurd h hx
    · exact absurd h hy

/-! ## The hashes -/

section Hashes

variable {sha256Text : String → String}

/-- The hash does not depend on the order of the ids. -/
theorem computeImageHash_eq_of_perm {xs ys : List String} (h : ys.Perm xs) :
    computeImageHash sha256Text xs = computeImageHash sha256Text ys := by
  rw [computeImageHash, computeImageHash, combinedIds_eq_iff.mpr]
  exact (perm_iff_pieces_and_counts.mp h.symm).1

/-- **When two hashes are equal.** -/
theorem computeImageHash_eq_iff (hsha : Function.Injective sha256Text) {xs ys : List String} :
    computeImageHash sha256Text xs = computeImageHash sha256Text ys ↔
      pieces '|' (sortedChars xs) = pieces '|' (sortedChars ys) := by
  rw [computeImageHash, computeImageHash, hsha.eq_iff, combinedIds_eq_iff]

theorem computeImageHash_determines_iff (hsha : Function.Injective sha256Text)
    (xs ys : List String) :
    (computeImageHash sha256Text xs = computeImageHash sha256Text ys ↔ ys.Perm xs) ↔
      ¬ Regrouped xs ys := by
  rw [computeImageHash_eq_iff hsha, List.perm_comm, perm_iff_pieces_and_counts, Regrouped]
  tauto

end Hashes

/-- **What an image hash identifies.**  Suppose that the hash has no collisions.  The hash is that
of the ids up to order, and it tells two collections apart unless one is a regrouping of the
other.  Among ids without bars these are only no ids at all and the empty id alone. -/
theorem image_hash_identifies_iff (sha256Text : String → String)
    (hsha : Function.Injective sha256Text) (xs ys : List String) :
    (ys.Perm xs → computeImageHash sha256Text xs = computeImageHash sha256Text ys) ∧
      ((computeImageHash sha256Text xs = computeImageHash sha256Text ys ↔ ys.Perm xs) ↔
        ¬ Regrouped xs ys) ∧
      (BarFree xs → BarFree ys → (Regrouped xs ys ↔ EmptyAndEmptyId xs ys)) :=
  ⟨computeImageHash_eq_of_perm, computeImageHash_determines_iff hsha xs ys,
    regrouped_iff_of_barFree⟩

/-- SHA-256 on the text of three ids. -/
def sha256Abc : String → String :=
  sha256At "a|b|c" "a52dd81bfd5e4e66d96b9f598382f6cbf8c5c3897654e6ae9055e03620fcf38e"

theorem image_hash_identifies_abc :
    computeImageHash sha256Abc ["a", "b", "c"] = computeImageHash sha256Abc ["c", "a", "b"] ∧
      ((computeImageHash sha256Abc ["a", "b", "c"] = computeImageHash sha256Abc ["c", "a", "b"] ↔
        ["c", "a", "b"].Perm ["a", "b", "c"]) ↔ ¬ Regrouped ["a", "b", "c"] ["c", "a", "b"]) ∧
      (Regrouped ["a", "b", "c"] ["c", "a", "b"] ↔
        EmptyAndEmptyId ["a", "b", "c"] ["c", "a", "b"]) := by
  obtain ⟨hperm, hiff, hbars⟩ := image_hash_identifies_iff sha256Abc (sha256At_injective _ _)
    ["a", "b", "c"] ["c", "a", "b"]
  exact ⟨hperm (by decide), hiff, hbars (by simp [BarFree]) (by simp [BarFree])⟩

/-- Under every hash two layers share theirs with one layer whose id is both of theirs around a
bar, and no layers with one layer that has the empty id. -/
theorem two_layers_share_hash :
    (∀ sha256Text : String → String,
      computeImageHash sha256Text ["a", "b"] = computeLayerHash sha256Text "a|b" ∧
        computeImageHash sha256Text ["a|b"] = computeLayerHash sha256Text "a|b" ∧
        computeImageHash sha256Text [] = computeImageHash sha256Text [""]) ∧
    ¬ ∀ sha256Text : String → String, Function.Injective sha256Text → ∀ xs ys : List String,
      (computeImageHash sha256Text xs = computeImageHash sha256Text ys ↔ ys.Perm xs) := by
  have htwo : ∀ sha256Text : String → String,
      computeImageHash sha256Text ["a", "b"] = computeLayerHash sha256Text "a|b" :=
    fun sha256Text => congrArg sha256Text (by decide)
  refine ⟨fun sha256Text => ⟨htwo sha256Text, computeImageHash_singleton sha256Text "a|b",
    congrArg sha256Text (by decide)⟩, fun h => ?_⟩
  have hperm := (h id Function.injective_id ["a", "b"] ["a|b"]).mp
    ((htwo id).trans (computeImageHash_singleton id "a|b").symm)
  exact absurd hperm.length_eq (by decide)

end Rcsce
