import Mathlib

/-!
# Insertion-ordered dictionaries

The mapping type of a language whose dictionaries remember the order in which
their keys were first inserted: assigning to a key that is present keeps its
place, assigning to a new key appends it, and `moveToEnd` and `popFirst?` are the
two operations that an ordered dictionary adds.

That keys do not repeat is a field, so no operation can lose it and no proof has
to carry it.  Everything about values goes through `get?`, everything about
order through `keys`; `get?_eq_some_iff` ties the two to the entries.
-/

namespace Rcsce

universe u v w

/-- A dictionary with its entries in insertion order, oldest first. -/
structure OrderedDict (κ : Type u) (ν : Type v) where
  /-- The entries, oldest first. -/
  entries : List (κ × ν)
  /-- No key occurs twice. -/
  nodup : (entries.map Prod.fst).Nodup

namespace OrderedDict

variable {κ : Type u} {ν : Type v}

theorem ext {d e : OrderedDict κ ν} (h : d.entries = e.entries) : d = e := by
  cases d
  cases e
  cases h
  rfl

instance [DecidableEq κ] [DecidableEq ν] : DecidableEq (OrderedDict κ ν) := fun d e =>
  decidable_of_iff (d.entries = e.entries) ⟨ext, fun h => h ▸ rfl⟩

/-- The empty dictionary. -/
def empty : OrderedDict κ ν := ⟨[], List.nodup_nil⟩

instance : Inhabited (OrderedDict κ ν) := ⟨empty⟩

/-- The keys, oldest first. -/
def keys (d : OrderedDict κ ν) : List κ := d.entries.map Prod.fst

/-- The values, in the order of their keys. -/
def values (d : OrderedDict κ ν) : List ν := d.entries.map Prod.snd

/-- The number of entries. -/
def size (d : OrderedDict κ ν) : ℕ := d.entries.length

instance : Membership κ (OrderedDict κ ν) := ⟨fun d k => k ∈ d.keys⟩

theorem mem_def {d : OrderedDict κ ν} {k : κ} : k ∈ d ↔ k ∈ d.keys := Iff.rfl

theorem nodup_keys (d : OrderedDict κ ν) : d.keys.Nodup := d.nodup

theorem length_keys (d : OrderedDict κ ν) : d.keys.length = d.size := List.length_map _

theorem notMem_empty (k : κ) : k ∉ (empty : OrderedDict κ ν) := List.not_mem_nil

variable [DecidableEq κ]

instance (k : κ) (d : OrderedDict κ ν) : Decidable (k ∈ d) :=
  inferInstanceAs (Decidable (k ∈ d.keys))

/-- The value bound to a key. -/
def get? (d : OrderedDict κ ν) (k : κ) : Option ν :=
  (d.entries.find? fun e => e.1 = k).map Prod.snd

/-! ## Entries, keys and values -/

/-- In a list without repeated keys, looking up a key finds its entry. -/
theorem find?_eq_some_of_nodup {l : List (κ × ν)} (h : (l.map Prod.fst).Nodup) {k : κ} {v : ν}
    (hmem : (k, v) ∈ l) : l.find? (fun e => e.1 = k) = some (k, v) := by
  induction l with
  | nil => simp at hmem
  | cons e l ih =>
    rw [List.map_cons, List.nodup_cons] at h
    rcases List.mem_cons.mp hmem with heq | hmem'
    · subst heq
      simp
    · have hne : e.1 ≠ k := by
        rintro rfl
        exact h.1 (List.mem_map.mpr ⟨_, hmem', rfl⟩)
      rw [List.find?_cons_of_neg (by simpa using hne)]
      exact ih h.2 hmem'

/-- Looking up is membership of the entry. -/
theorem get?_eq_some_iff {d : OrderedDict κ ν} {k : κ} {v : ν} :
    d.get? k = some v ↔ (k, v) ∈ d.entries := by
  rw [get?, Option.map_eq_some_iff]
  constructor
  · rintro ⟨⟨k', v'⟩, hfind, rfl⟩
    have hk : k' = k := by simpa using List.find?_some hfind
    exact hk ▸ List.mem_of_find?_eq_some hfind
  · intro hmem
    exact ⟨(k, v), find?_eq_some_of_nodup d.nodup hmem, rfl⟩

theorem get?_eq_none_iff {d : OrderedDict κ ν} {k : κ} : d.get? k = none ↔ k ∉ d := by
  rw [get?, Option.map_eq_none_iff, List.find?_eq_none, mem_def, keys, List.mem_map]
  constructor
  · rintro h ⟨e, he, rfl⟩
    simpa using h e he
  · intro h e he hk
    exact h ⟨e, he, by simpa using hk⟩

theorem mem_iff_get? {d : OrderedDict κ ν} {k : κ} : k ∈ d ↔ ∃ v, d.get? k = some v := by
  rw [← Option.isSome_iff_exists, ← not_iff_not, ← get?_eq_none_iff]
  simp

theorem mem_of_get? {d : OrderedDict κ ν} {k : κ} {v : ν} (h : d.get? k = some v) : k ∈ d :=
  mem_iff_get?.mpr ⟨v, h⟩

/-- A dictionary is its keys in order and what they look up. -/
theorem ext_get? {d e : OrderedDict κ ν} (hkeys : d.keys = e.keys)
    (hget : ∀ k, d.get? k = e.get? k) : d = e := by
  refine ext (List.ext_getElem ?_ fun i hi hi' => ?_)
  · have hlength := congrArg List.length hkeys
    rwa [length_keys, length_keys] at hlength
  · have hfst : d.entries[i].1 = e.entries[i].1 := by
      have hkey : d.keys[i]? = e.keys[i]? := by rw [hkeys]
      simpa [keys, hi, hi'] using hkey
    have hd : d.get? d.entries[i].1 = some d.entries[i].2 :=
      get?_eq_some_iff.mpr (List.getElem_mem hi)
    have he : e.get? e.entries[i].1 = some e.entries[i].2 :=
      get?_eq_some_iff.mpr (List.getElem_mem hi')
    rw [hget, hfst, he] at hd
    exact Prod.ext hfst (Option.some.inj hd).symm

/-- A value listed is the value of some key. -/
theorem mem_values_iff {d : OrderedDict κ ν} {v : ν} :
    v ∈ d.values ↔ ∃ k, d.get? k = some v := by
  rw [values, List.mem_map]
  constructor
  · rintro ⟨⟨k, w⟩, hmem, rfl⟩
    exact ⟨k, get?_eq_some_iff.mpr hmem⟩
  · rintro ⟨k, hk⟩
    exact ⟨(k, v), get?_eq_some_iff.mp hk, rfl⟩

/-! ## Assignment -/

/-- `d[k] = v`: in place when `k` is present, at the end when it is new. -/
def set (d : OrderedDict κ ν) (k : κ) (v : ν) : OrderedDict κ ν :=
  if h : k ∈ d.keys then
    ⟨d.entries.map fun e => if e.1 = k then (k, v) else e, by
      rw [List.map_map]
      refine (List.map_congr_left fun e _ => ?_) ▸ d.nodup
      by_cases he : e.1 = k <;> simp [he]⟩
  else
    ⟨d.entries ++ [(k, v)], by
      rw [List.map_append, List.map_singleton, List.nodup_append]
      refine ⟨d.nodup, List.nodup_singleton k, fun a ha b hb => ?_⟩
      rw [List.mem_singleton.mp hb]
      exact fun hab : a = k => h (hab ▸ ha)⟩

theorem keys_set_of_mem {d : OrderedDict κ ν} {k : κ} (h : k ∈ d) (v : ν) :
    (d.set k v).keys = d.keys := by
  have hk : k ∈ d.keys := h
  rw [set, dif_pos hk, keys, keys, List.map_map]
  refine List.map_congr_left fun e _ => ?_
  by_cases he : e.1 = k <;> simp [he]

theorem keys_set_of_notMem {d : OrderedDict κ ν} {k : κ} (h : k ∉ d) (v : ν) :
    (d.set k v).keys = d.keys ++ [k] := by
  have hk : k ∉ d.keys := h
  rw [set, dif_neg hk, keys, keys, List.map_append, List.map_singleton]

@[simp] theorem mem_set {d : OrderedDict κ ν} {k k' : κ} {v : ν} :
    k' ∈ d.set k v ↔ k' = k ∨ k' ∈ d := by
  by_cases h : k ∈ d
  · rw [mem_def, keys_set_of_mem h, ← mem_def]
    exact ⟨Or.inr, fun hor => hor.elim (fun heq => heq ▸ h) id⟩
  · rw [mem_def, keys_set_of_notMem h, List.mem_append, List.mem_singleton, ← mem_def, or_comm]

theorem get?_set (d : OrderedDict κ ν) (k : κ) (v : ν) (k' : κ) :
    (d.set k v).get? k' = if k' = k then some v else d.get? k' := by
  by_cases h : k ∈ d.keys
  · rw [set, dif_pos h]
    split_ifs with hk
    · subst hk
      rw [get?_eq_some_iff, List.mem_map]
      obtain ⟨e, he, hek⟩ := List.mem_map.mp h
      exact ⟨e, he, by simp [hek]⟩
    · refine Option.ext fun w => ?_
      rw [get?_eq_some_iff, get?_eq_some_iff, List.mem_map]
      constructor
      · rintro ⟨e, he, heq⟩
        by_cases hek : e.1 = k
        · rw [if_pos hek] at heq
          exact absurd (congrArg Prod.fst heq).symm hk
        · rw [if_neg hek] at heq
          exact heq ▸ he
      · intro hmem
        exact ⟨(k', w), hmem, by simp [hk]⟩
  · rw [set, dif_neg h]
    refine Option.ext fun w => ?_
    rw [get?_eq_some_iff, List.mem_append, List.mem_singleton]
    split_ifs with hk
    · subst hk
      constructor
      · rintro (hmem | heq)
        · exact absurd (List.mem_map.mpr ⟨_, hmem, rfl⟩) h
        · rw [(Prod.mk.inj heq).2]
      · intro hw
        rw [Option.some.inj hw]
        exact Or.inr rfl
    · rw [get?_eq_some_iff]
      exact ⟨fun hor => hor.elim id fun heq => absurd (Prod.mk.inj heq).1 hk, Or.inl⟩

@[simp] theorem get?_set_self (d : OrderedDict κ ν) (k : κ) (v : ν) :
    (d.set k v).get? k = some v := by
  rw [get?_set, if_pos rfl]

theorem get?_set_of_ne (d : OrderedDict κ ν) {k k' : κ} (v : ν) (h : k' ≠ k) :
    (d.set k v).get? k' = d.get? k' := by
  rw [get?_set, if_neg h]

/-- Assigning the value that a key already has changes nothing. -/
theorem set_of_get? {d : OrderedDict κ ν} {k : κ} {v : ν} (h : d.get? k = some v) :
    d.set k v = d := by
  have hk : k ∈ d.keys := mem_of_get? h
  rw [set, dif_pos hk]
  refine ext ((List.map_congr_left fun e he => ?_).trans (List.map_id _))
  split_ifs with hek
  · have hget : d.get? e.1 = some e.2 := get?_eq_some_iff.mpr he
    rw [hek, h] at hget
    exact Prod.ext hek.symm (Option.some.inj hget)
  · rfl

/-- Of two assignments to one key the second counts. -/
theorem set_set_self (d : OrderedDict κ ν) (k : κ) (v w : ν) : (d.set k v).set k w = d.set k w := by
  have hk : k ∈ d.set k v := mem_set.mpr (Or.inl rfl)
  refine ext_get? ((keys_set_of_mem hk w).trans ?_) fun k' => ?_
  · by_cases h : k ∈ d
    · rw [keys_set_of_mem h, keys_set_of_mem h]
    · rw [keys_set_of_notMem h, keys_set_of_notMem h]
  · rw [get?_set, get?_set, get?_set]
    split_ifs <;> rfl

theorem set_eq_self_iff {d : OrderedDict κ ν} {k : κ} {v : ν} :
    d.set k v = d ↔ d.get? k = some v := by
  refine ⟨fun h => ?_, set_of_get?⟩
  rw [← h, get?_set_self]

theorem size_set_le (d : OrderedDict κ ν) (k : κ) (v : ν) :
    (d.set k v).size ≤ d.size + 1 := by
  rw [← length_keys, ← length_keys]
  by_cases h : k ∈ d
  · rw [keys_set_of_mem h]
    exact Nat.le_succ _
  · rw [keys_set_of_notMem h, List.length_append, List.length_singleton]

/-! ## Removal -/

/-- `d.pop(k, None)`: the entry of `k` goes, if there is one. -/
def erase (d : OrderedDict κ ν) (k : κ) : OrderedDict κ ν :=
  ⟨d.entries.filter fun e => e.1 ≠ k,
    d.nodup.sublist (List.Sublist.map Prod.fst List.filter_sublist)⟩

theorem keys_erase (d : OrderedDict κ ν) (k : κ) :
    (d.erase k).keys = d.keys.filter (· ≠ k) := by
  rw [keys, keys, erase, List.filter_map]
  rfl

@[simp] theorem mem_erase {d : OrderedDict κ ν} {k k' : κ} :
    k' ∈ d.erase k ↔ k' ≠ k ∧ k' ∈ d := by
  rw [mem_def, keys_erase, List.mem_filter, ← mem_def, and_comm, decide_eq_true_iff]

theorem get?_erase (d : OrderedDict κ ν) (k k' : κ) :
    (d.erase k).get? k' = if k' = k then none else d.get? k' := by
  split_ifs with h
  · rw [get?_eq_none_iff, mem_erase]
    exact fun hmem => hmem.1 h
  · refine Option.ext fun w => ?_
    rw [get?_eq_some_iff, get?_eq_some_iff, erase, List.mem_filter, decide_eq_true_iff]
    exact ⟨fun hmem => hmem.1, fun hmem => ⟨hmem, h⟩⟩

@[simp] theorem get?_erase_self (d : OrderedDict κ ν) (k : κ) : (d.erase k).get? k = none := by
  rw [get?_erase, if_pos rfl]

theorem get?_erase_of_ne (d : OrderedDict κ ν) {k k' : κ} (h : k' ≠ k) :
    (d.erase k).get? k' = d.get? k' := by
  rw [get?_erase, if_neg h]

theorem get?_of_get?_erase {d : OrderedDict κ ν} {k k' : κ} {v : ν}
    (h : (d.erase k).get? k' = some v) : d.get? k' = some v := by
  rw [get?_erase] at h
  split_ifs at h with hk
  exact h

/-- Removing a key that is absent changes nothing. -/
theorem erase_of_notMem {d : OrderedDict κ ν} {k : κ} (h : k ∉ d) : d.erase k = d := by
  refine ext (List.filter_eq_self.mpr fun e he => ?_)
  rw [decide_eq_true_iff]
  rintro rfl
  exact h (List.mem_map.mpr ⟨e, he, rfl⟩)

theorem size_erase_le (d : OrderedDict κ ν) (k : κ) : (d.erase k).size ≤ d.size :=
  List.length_filter_le _ _

/-! ## One entry and the others

Up to order, a dictionary is one of its entries and the dictionary without that
key.  Counts and sums over the values are read off this. -/

theorem values_perm_of_get? {d : OrderedDict κ ν} {k : κ} {v : ν} (h : d.get? k = some v) :
    d.values.Perm (v :: (d.erase k).values) := by
  have hmem : (k, v) ∈ d.entries := get?_eq_some_iff.mp h
  obtain ⟨pre, post, hsplit⟩ := List.append_of_mem hmem
  have hnodup := d.nodup
  rw [hsplit, List.map_append, List.map_cons, List.nodup_middle, List.nodup_cons,
    List.mem_append, not_or] at hnodup
  have hpre : pre.filter (fun e => e.1 ≠ k) = pre := List.filter_eq_self.mpr fun e he =>
    decide_eq_true fun heq => hnodup.1.1 (heq ▸ List.mem_map.mpr ⟨e, he, rfl⟩)
  have hpost : post.filter (fun e => e.1 ≠ k) = post := List.filter_eq_self.mpr fun e he =>
    decide_eq_true fun heq => hnodup.1.2 (heq ▸ List.mem_map.mpr ⟨e, he, rfl⟩)
  have herase : (d.erase k).values = (pre ++ post).map Prod.snd := by
    show (d.entries.filter fun e => e.1 ≠ k).map Prod.snd = _
    rw [hsplit, List.filter_append, List.filter_cons_of_neg (by simp), hpre, hpost]
  rw [herase, values, hsplit, List.map_append, List.map_cons, List.map_append]
  exact List.perm_middle

@[simp] theorem erase_set_self (d : OrderedDict κ ν) (k : κ) (v : ν) :
    (d.set k v).erase k = d.erase k := by
  refine ext ?_
  show (d.set k v).entries.filter _ = d.entries.filter _
  by_cases h : k ∈ d.keys
  · rw [set, dif_pos h, List.filter_map]
    -- the entries that are kept are those which the assignment leaves alone
    have hcomp : ((fun e : κ × ν => decide (e.1 ≠ k)) ∘ fun e => if e.1 = k then (k, v) else e) =
        fun e => decide (e.1 ≠ k) := by
      funext e
      by_cases he : e.1 = k <;> simp [he]
    rw [hcomp]
    refine (List.map_congr_left fun e he => ?_).trans (List.map_id _)
    rw [List.mem_filter, decide_eq_true_iff] at he
    exact if_neg he.2
  · rw [set, dif_neg h, List.filter_append]
    simp

theorem values_set_perm (d : OrderedDict κ ν) (k : κ) (v : ν) :
    (d.set k v).values.Perm (v :: (d.erase k).values) := by
  rw [← erase_set_self d k v]
  exact values_perm_of_get? (get?_set_self d k v)

theorem values_set_perm_of_notMem {d : OrderedDict κ ν} {k : κ} (h : k ∉ d) (v : ν) :
    (d.set k v).values.Perm (v :: d.values) := by
  have hperm := values_set_perm d k v
  rwa [erase_of_notMem h] at hperm

/-! ## The two ordered operations -/

/-- `d.move_to_end(k)` for a key that is present. -/
def moveToEnd (d : OrderedDict κ ν) (k : κ) : OrderedDict κ ν :=
  match d.get? k with
  | none => d
  | some v => (d.erase k).set k v

theorem moveToEnd_of_notMem {d : OrderedDict κ ν} {k : κ} (h : k ∉ d) : d.moveToEnd k = d := by
  rw [moveToEnd, get?_eq_none_iff.mpr h]

@[simp] theorem get?_moveToEnd (d : OrderedDict κ ν) (k k' : κ) :
    (d.moveToEnd k).get? k' = d.get? k' := by
  rw [moveToEnd]
  cases hk : d.get? k with
  | none => rfl
  | some v =>
    show ((d.erase k).set k v).get? k' = d.get? k'
    rw [get?_set]
    split_ifs with h
    · rw [h, hk]
    · exact get?_erase_of_ne d h

@[simp] theorem mem_moveToEnd {d : OrderedDict κ ν} {k k' : κ} :
    k' ∈ d.moveToEnd k ↔ k' ∈ d := by
  rw [mem_iff_get?, mem_iff_get?, get?_moveToEnd]

theorem perm_keys_moveToEnd (d : OrderedDict κ ν) (k : κ) :
    (d.moveToEnd k).keys.Perm d.keys :=
  (List.perm_ext_iff_of_nodup (nodup_keys _) (nodup_keys _)).mpr fun _ => mem_moveToEnd

@[simp] theorem size_moveToEnd (d : OrderedDict κ ν) (k : κ) :
    (d.moveToEnd k).size = d.size := by
  rw [← length_keys, ← length_keys, (perm_keys_moveToEnd d k).length_eq]

/-- A key that is moved to the end and assigned, or assigned for the first time, comes
last. -/
theorem keys_moveToEnd_set (d : OrderedDict κ ν) (k : κ) (v : ν) :
    ((d.moveToEnd k).set k v).keys = d.keys.filter (· ≠ k) ++ [k] := by
  have hnot : k ∉ d.erase k := fun h => (mem_erase.mp h).1 rfl
  rw [moveToEnd]
  cases hk : d.get? k with
  | none =>
    have hd := get?_eq_none_iff.mp hk
    rw [← keys_erase, erase_of_notMem hd]
    exact keys_set_of_notMem hd v
  | some w =>
    show (((d.erase k).set k w).set k v).keys = _
    rw [keys_set_of_mem (mem_set.mpr (Or.inl rfl)), keys_set_of_notMem hnot, keys_erase]

theorem keys_moveToEnd_of_mem {d : OrderedDict κ ν} {k : κ} (h : k ∈ d) :
    (d.moveToEnd k).keys = d.keys.filter (· ≠ k) ++ [k] := by
  obtain ⟨v, hv⟩ := mem_iff_get?.mp h
  rw [← keys_moveToEnd_set d k v, set_of_get? ((get?_moveToEnd d k k).trans hv)]

omit [DecidableEq κ] in
/-- `d.popitem(last=False)`: the oldest entry and the rest, or `none` when there
is none. -/
def popFirst? (d : OrderedDict κ ν) : Option ((κ × ν) × OrderedDict κ ν) :=
  match h : d.entries with
  | [] => none
  | e :: rest => some (e, ⟨rest, by
      have hnodup := d.nodup
      rw [h, List.map_cons, List.nodup_cons] at hnodup
      exact hnodup.2⟩)

omit [DecidableEq κ] in
theorem popFirst?_eq_some {d rest : OrderedDict κ ν} {e : κ × ν}
    (h : d.popFirst? = some (e, rest)) : d.entries = e :: rest.entries := by
  unfold popFirst? at h
  split at h
  · cases h
  · rename_i e' rest' hentries
    cases h
    exact hentries

omit [DecidableEq κ] in
theorem popFirst?_eq_none {d : OrderedDict κ ν} (h : d.popFirst? = none) : d.size = 0 := by
  unfold popFirst? at h
  split at h
  · rename_i hentries
    rw [size, hentries, List.length_nil]
  · cases h

omit [DecidableEq κ] in
theorem keys_of_popFirst? {d rest : OrderedDict κ ν} {e : κ × ν}
    (h : d.popFirst? = some (e, rest)) : d.keys = e.1 :: rest.keys := by
  rw [keys, popFirst?_eq_some h, List.map_cons, keys]

/-- What popping the oldest entry leaves is the dictionary without that key. -/
theorem popFirst?_rest_eq_erase {d rest : OrderedDict κ ν} {e : κ × ν}
    (h : d.popFirst? = some (e, rest)) : rest = d.erase e.1 := by
  have hentries := popFirst?_eq_some h
  have hnodup := d.nodup
  rw [hentries, List.map_cons, List.nodup_cons] at hnodup
  refine ext ?_
  show rest.entries = d.entries.filter fun e' => e'.1 ≠ e.1
  rw [hentries, List.filter_cons_of_neg (by simp)]
  refine (List.filter_eq_self.mpr fun e' he' => ?_).symm
  rw [decide_eq_true_iff]
  intro heq
  exact hnodup.1 (heq ▸ List.mem_map.mpr ⟨e', he', rfl⟩)

omit [DecidableEq κ] in
theorem popFirst?_size {d rest : OrderedDict κ ν} {e : κ × ν}
    (h : d.popFirst? = some (e, rest)) : d.size = rest.size + 1 := by
  rw [size, popFirst?_eq_some h, List.length_cons, size]

/-! ## Changing one value -/

/-- Change the value of `k` in place, if `k` is present. -/
def modify (d : OrderedDict κ ν) (k : κ) (f : ν → ν) : OrderedDict κ ν :=
  match d.get? k with
  | none => d
  | some v => d.set k (f v)

theorem get?_modify (d : OrderedDict κ ν) (k : κ) (f : ν → ν) (k' : κ) :
    (d.modify k f).get? k' = if k' = k then (d.get? k').map f else d.get? k' := by
  rw [modify]
  cases hk : d.get? k with
  | none =>
    show d.get? k' = _
    split_ifs with h
    · rw [h, hk, Option.map_none]
    · rfl
  | some v =>
    show (d.set k (f v)).get? k' = _
    rw [get?_set]
    split_ifs with h
    · rw [h, hk, Option.map_some]
    · rfl

@[simp] theorem keys_modify (d : OrderedDict κ ν) (k : κ) (f : ν → ν) :
    (d.modify k f).keys = d.keys := by
  rw [modify]
  cases hk : d.get? k with
  | none => rfl
  | some v => exact keys_set_of_mem (mem_of_get? hk) (f v)

@[simp] theorem mem_modify {d : OrderedDict κ ν} {k k' : κ} {f : ν → ν} :
    k' ∈ d.modify k f ↔ k' ∈ d := by
  rw [mem_def, keys_modify, ← mem_def]

theorem values_modify_perm {d : OrderedDict κ ν} {k : κ} {v : ν} (h : d.get? k = some v)
    (f : ν → ν) : (d.modify k f).values.Perm (f v :: (d.erase k).values) := by
  rw [modify, h]
  exact values_set_perm d k (f v)

theorem modify_eq_self {d : OrderedDict κ ν} {k : κ} {v : ν} {f : ν → ν} (h : d.get? k = some v)
    (hf : f v = v) : d.modify k f = d := by
  rw [modify, h]
  exact set_of_get? (h.trans (congrArg some hf.symm))

theorem modify_set_self (d : OrderedDict κ ν) (k : κ) (v : ν) (f : ν → ν) :
    (d.set k v).modify k f = d.set k (f v) := by
  rw [modify, get?_set_self]
  exact set_set_self d k v (f v)

theorem modify_of_notMem {d : OrderedDict κ ν} {k : κ} (h : k ∉ d) (f : ν → ν) :
    d.modify k f = d := by
  rw [modify, get?_eq_none_iff.mpr h]

/-! ## Loops over keys -/

/-- The first element of a list and the rest of it, apart. -/
theorem ite_mem_cons {α : Type w} {a b : κ} {l : List κ} (x y : α) :
    (if a ∈ b :: l then x else y) = if a ∈ l then x else if a = b then x else y := by
  by_cases hl : a ∈ l
  · rw [if_pos hl, if_pos (List.mem_cons_of_mem _ hl)]
  · rw [if_neg hl]
    refine if_congr ?_ rfl rfl
    rw [List.mem_cons, or_iff_left hl]

/-- A loop that assigns one value to a key for each element of a list. -/
theorem get?_foldl_set {ι : Type w} (f : ι → κ) (v : ν) (l : List ι) (d : OrderedDict κ ν)
    (k : κ) :
    (l.foldl (fun acc i => acc.set (f i) v) d).get? k =
      if k ∈ l.map f then some v else d.get? k := by
  induction l generalizing d with
  | nil => simp
  | cons i l ih =>
    rw [List.foldl_cons, ih, get?_set, List.map_cons, ite_mem_cons]

/-- When all these keys are new and distinct, they are appended in order. -/
theorem keys_foldl_set {ι : Type w} (f : ι → κ) (v : ν) (l : List ι) (d : OrderedDict κ ν)
    (hnodup : (l.map f).Nodup) (hnew : ∀ k ∈ l.map f, k ∉ d) :
    (l.foldl (fun acc i => acc.set (f i) v) d).keys = d.keys ++ l.map f := by
  induction l generalizing d with
  | nil => simp
  | cons i l ih =>
    rw [List.map_cons, List.nodup_cons] at hnodup
    rw [List.foldl_cons, ih _ hnodup.2, keys_set_of_notMem (hnew _ List.mem_cons_self),
      List.append_assoc, List.map_cons, List.singleton_append]
    intro k hk hmem
    rcases mem_set.mp hmem with rfl | hold
    · exact hnodup.1 hk
    · exact hnew k (List.mem_cons_of_mem _ hk) hold

/-- A loop that removes a key for each element of a list. -/
theorem get?_foldl_erase {ι : Type w} (f : ι → κ) (l : List ι) (d : OrderedDict κ ν) (k : κ) :
    (l.foldl (fun acc i => acc.erase (f i)) d).get? k =
      if k ∈ l.map f then none else d.get? k := by
  induction l generalizing d with
  | nil => simp
  | cons i l ih =>
    rw [List.foldl_cons, ih, get?_erase, List.map_cons, ite_mem_cons]

/-- A loop that computes the new value of a key from the one that it finds leaves the other
keys alone. -/
theorem get?_foldl_merge_of_notMem {β : Type w} (f : Option ν → β → ν) (l : List (κ × β))
    (d : OrderedDict κ ν) {k : κ} (h : k ∉ l.map Prod.fst) :
    (l.foldl (fun acc e => acc.set e.1 (f (acc.get? e.1) e.2)) d).get? k = d.get? k := by
  induction l generalizing d with
  | nil => rfl
  | cons e l ih =>
    rw [List.map_cons, List.mem_cons, not_or] at h
    rw [List.foldl_cons, ih _ h.2, get?_set_of_ne _ _ h.1]

/-- If its keys are distinct, each of them is computed from the value before the loop. -/
theorem get?_foldl_merge_of_mem {β : Type w} (f : Option ν → β → ν) {l : List (κ × β)}
    (hl : (l.map Prod.fst).Nodup) (d : OrderedDict κ ν) {k : κ} {b : β} (h : (k, b) ∈ l) :
    (l.foldl (fun acc e => acc.set e.1 (f (acc.get? e.1) e.2)) d).get? k =
      some (f (d.get? k) b) := by
  induction l generalizing d with
  | nil => cases h
  | cons e l ih =>
    rw [List.map_cons, List.nodup_cons] at hl
    rw [List.foldl_cons]
    rcases List.mem_cons.mp h with rfl | hrest
    · rw [get?_foldl_merge_of_notMem f l _ hl.1, get?_set_self]
    · have hne : k ≠ e.1 := fun heq => hl.1 (heq ▸ List.mem_map_of_mem hrest)
      rw [ih hl.2 _ hrest, get?_set_of_ne _ _ hne]

/-- `{**d, **e}`: the entries of `e` assigned into `d`, in order. -/
def update (d : OrderedDict κ ν) (e : List (κ × ν)) : OrderedDict κ ν :=
  e.foldl (fun acc kv => acc.set kv.1 kv.2) d

/-- `dict(pairs)`: the last value of a key, in the place of the first. -/
def ofPairs (pairs : List (κ × ν)) : OrderedDict κ ν := empty.update pairs

theorem entries_update (d : OrderedDict κ ν) (e : List (κ × ν)) (he : (e.map Prod.fst).Nodup)
    (hnew : ∀ k ∈ e.map Prod.fst, k ∉ d) : (d.update e).entries = d.entries ++ e := by
  induction e generalizing d with
  | nil => exact (List.append_nil _).symm
  | cons kv e ih =>
    rw [List.map_cons, List.nodup_cons] at he
    have hset : (d.set kv.1 kv.2).entries = d.entries ++ [kv] := by
      have hk : kv.1 ∉ d.keys := hnew kv.1 List.mem_cons_self
      rw [set, dif_neg hk]
    have hrest := ih (d.set kv.1 kv.2) he.2 ?_
    · rw [hset, List.append_assoc, List.singleton_append] at hrest
      exact hrest
    · intro k hk hmem
      rcases mem_set.mp hmem with rfl | hold
      · exact he.1 hk
      · exact hnew k (List.mem_cons_of_mem _ hk) hold

/-- Pairs with distinct keys are the entries of their dictionary. -/
theorem entries_ofPairs {pairs : List (κ × ν)} (h : (pairs.map Prod.fst).Nodup) :
    (ofPairs pairs).entries = pairs :=
  entries_update empty pairs h fun _ _ hmem => nomatch hmem

@[simp] theorem ofPairs_entries (d : OrderedDict κ ν) : ofPairs d.entries = d :=
  ext (entries_ofPairs d.nodup)

end OrderedDict
end Rcsce
