import Mathlib

/-!
# Searching text without regard to case

`str.strip` and `str.lower` of Python on texts as lists of characters, and what they do to
the question whether a text contains a word (`<:+:`).

`str.lower` is taken over the tables of Unicode (`CaseMapping`): each character has a
lower-case form of its own, except that a capital sigma becomes one of two small ones
depending on the text around it.  A `Needle` is a word that neither a line break nor that
choice concerns.  For it,

* what a part of the text contains, the text contains (`Needle.infix_lower_mono`);
* what the text contains is on one side of a line break (`Needle.infix_lower_newline`);
* stripping makes no difference (`Needle.infix_lower_strip_iff`).
-/

namespace Rcsce
namespace PyText

universe u

/-! ## Parts of a list -/

section Infix

variable {α : Type u}

/-- A part of a list that does not have the separator is on one side of it. -/
theorem infix_of_infix_append_cons {k x y : List α} {c : α} (hc : c ∉ k)
    (h : k <:+: x ++ c :: y) : k <:+: x ∨ k <:+: y := by
  obtain ⟨u, v, huv⟩ := h
  rcases List.append_eq_append_iff.mp huv with ⟨m, hx, -⟩ | ⟨m, huk, hy⟩
  · refine Or.inl ⟨u, m, ?_⟩
    exact hx.symm
  · cases m with
    | nil =>
      rw [List.append_nil] at huk
      exact Or.inl ⟨u, [], by rw [List.append_nil, huk]⟩
    | cons d m =>
      obtain ⟨rfl, hym⟩ := List.cons.inj hy
      -- the separator is left of the part, or in it
      rw [List.append_cons] at huk
      rcases List.append_eq_append_iff.mp huk with ⟨w, hxc, hk⟩ | ⟨w, -, hm⟩
      · cases w using List.reverseRecOn with
        | nil =>
          rw [List.nil_append] at hk
          exact Or.inr ⟨[], v, by rw [hk, List.nil_append]; exact hym.symm⟩
        | append_singleton w e =>
          rw [← List.append_assoc] at hxc
          obtain ⟨-, heq⟩ := List.append_inj' hxc rfl
          refine absurd ?_ hc
          rw [hk, (List.cons.inj heq).1]
          exact List.mem_append_left _ (List.mem_append_right _ List.mem_cons_self)
      · exact Or.inr ⟨w, v, by rw [← hm]; exact hym.symm⟩

/-- A part of a list that starts with none of the characters in front of the list. -/
theorem infix_of_infix_append_left {k w l : List α} (hk : ∀ a, k.head? = some a → a ∉ w)
    (hne : k ≠ []) (h : k <:+: w ++ l) : k <:+: l := by
  obtain ⟨u, v, huv⟩ := h
  rw [List.append_assoc] at huv
  rcases List.append_eq_append_iff.mp huv with ⟨m, hw, hkv⟩ | ⟨m, -, hl⟩
  · obtain ⟨a, k, rfl⟩ := List.exists_cons_of_ne_nil hne
    cases m with
    | nil => exact ⟨[], v, by rw [List.nil_append]; exact hkv⟩
    | cons b m =>
      obtain rfl := (List.cons.inj hkv).1
      refine absurd ?_ (hk a rfl)
      rw [hw]
      exact List.mem_append_right _ List.mem_cons_self
  · exact ⟨m, v, by rw [List.append_assoc]; exact hl.symm⟩

theorem infix_of_infix_append_right {k w l : List α} (hk : ∀ a, k.getLast? = some a → a ∉ w)
    (hne : k ≠ []) (h : k <:+: l ++ w) : k <:+: l := by
  have hrev : k.reverse <:+: w.reverse ++ l.reverse := by
    rw [← List.reverse_append]
    exact List.reverse_infix.mpr h
  refine List.reverse_infix.mp
    (infix_of_infix_append_left (fun a ha => ?_) (by simpa using hne) hrev)
  rw [List.head?_reverse] at ha
  rw [List.mem_reverse]
  exact hk a ha

/-- A word that a change of characters does not concern is a part before as after it. -/
theorem infix_map_iff {f : α → α} {k l : List α} (hk : ∀ a ∈ k, f a = a)
    (hf : ∀ a, f a ∈ k → f a = a) : k <:+: l.map f ↔ k <:+: l := by
  constructor
  · rintro ⟨u, v, huv⟩
    obtain ⟨l', z, rfl, hl', -⟩ := List.map_eq_append_iff.mp huv.symm
    obtain ⟨x, y, rfl, -, hy⟩ := List.map_eq_append_iff.mp hl'
    have hsame : y.map f = y := by
      refine (List.map_congr_left (g := id) fun a ha => ?_).trans (List.map_id y)
      exact hf a (hy ▸ List.mem_map_of_mem ha)
    exact ⟨x, z, by rw [← hy, hsame]⟩
  · intro h
    have hsame : k.map f = k := (List.map_congr_left (g := id) hk).trans (List.map_id k)
    rw [← hsame]
    exact h.map f

end Infix

/-! ## The methods -/

/-- `str.isspace` of one character. -/
def isSpace (c : Char) : Bool :=
  (9 ≤ c.toNat && c.toNat ≤ 13) || (28 ≤ c.toNat && c.toNat ≤ 32) || c.toNat = 0x85 ||
    c.toNat = 0xA0 || c.toNat = 0x1680 || (0x2000 ≤ c.toNat && c.toNat ≤ 0x200A) ||
    c.toNat = 0x2028 || c.toNat = 0x2029 || c.toNat = 0x202F || c.toNat = 0x205F ||
    c.toNat = 0x3000

/-- `str.strip`. -/
def strip (s : List Char) : List Char := (s.dropWhile isSpace).rdropWhile isSpace

/-- White space at the end is stripped. -/
theorem strip_append_space (s : List Char) {c : Char} (hc : isSpace c) :
    strip (s ++ [c]) = strip s := by
  rw [strip, strip, List.dropWhile_append]
  split_ifs with hempty
  · rw [List.isEmpty_iff.mp hempty, List.dropWhile_cons_of_pos hc, List.dropWhile_nil]
  · rw [List.rdropWhile_concat_pos _ _ _ hc]

/-- What `str.lower` reads from the tables of Unicode. -/
structure CaseMapping where
  /-- The lower-case form of a character; a capital sigma is treated apart. -/
  lowerChar : Char → List Char
  /-- A capital sigma between these two texts is the last letter of a word. -/
  finalSigma : List Char → List Char → Bool
  /-- Unicode maps no character to more than three. -/
  length_lowerChar : ∀ c, (lowerChar c).length ≤ 3
  /-- White space has no case. -/
  lowerChar_of_isSpace : ∀ c, isSpace c → lowerChar c = [c]

namespace CaseMapping

variable (m : CaseMapping)

/-- `str.lower` of what follows a text. -/
def lowerFrom (before : List Char) : List Char → List Char
  | [] => []
  | c :: rest =>
      (if c = 'Σ' then [if m.finalSigma before rest then 'ς' else 'σ'] else m.lowerChar c) ++
        lowerFrom (before ++ [c]) rest

/-- `str.lower`. -/
def lower (s : List Char) : List Char := m.lowerFrom [] s

/-- Both small sigmas as the same one. -/
def foldSigma (c : Char) : Char := if c = 'ς' then 'σ' else c

/-- The lower-case form of a character up to the choice of the sigma. -/
def foldedChar (c : Char) : List Char :=
  if c = 'Σ' then ['σ'] else (m.lowerChar c).map foldSigma

/-- Up to the choice of the sigma, the characters are lowered one by one. -/
theorem map_foldSigma_lowerFrom (before s : List Char) :
    (m.lowerFrom before s).map foldSigma = s.flatMap m.foldedChar := by
  induction s generalizing before with
  | nil => rfl
  | cons c rest ih =>
    rw [lowerFrom, List.map_append, ih, List.flatMap_cons, foldedChar]
    split_ifs <;> rfl

theorem length_foldedChar (c : Char) : (m.foldedChar c).length ≤ 3 := by
  rw [foldedChar]
  split_ifs
  · decide
  · rw [List.length_map]
    exact m.length_lowerChar c

theorem foldedChar_of_isSpace {c : Char} (h : isSpace c) : m.foldedChar c = [c] := by
  have hsigma : c ≠ 'Σ' := fun heq => absurd (heq ▸ h) (by decide)
  have hfinal : c ≠ 'ς' := fun heq => absurd (heq ▸ h) (by decide)
  rw [foldedChar, if_neg hsigma, m.lowerChar_of_isSpace c h, List.map_singleton, foldSigma,
    if_neg hfinal]

theorem flatMap_foldedChar_of_all {s : List Char} (h : ∀ c ∈ s, isSpace c) :
    s.flatMap m.foldedChar = s := by
  induction s with
  | nil => rfl
  | cons c rest ih =>
    rw [List.flatMap_cons, m.foldedChar_of_isSpace (h c List.mem_cons_self),
      ih fun d hd => h d (List.mem_cons_of_mem _ hd), List.singleton_append]

end CaseMapping

/-! ## Needles -/

/-- A word whose place in a text depends neither on white space around it nor on sigmas. -/
structure Needle (k : List Char) : Prop where
  noBreak : '\n' ∉ k
  noSigma : 'σ' ∉ k ∧ 'ς' ∉ k
  head : k.head?.any isSpace = false
  last : k.getLast?.any isSpace = false
  nonempty : k ≠ []

instance (k : List Char) : Decidable (Needle k) :=
  decidable_of_iff ('\n' ∉ k ∧ ('σ' ∉ k ∧ 'ς' ∉ k) ∧ k.head?.any isSpace = false ∧
      k.getLast?.any isSpace = false ∧ k ≠ [])
    ⟨fun ⟨h₁, h₂, h₃, h₄, h₅⟩ => ⟨h₁, h₂, h₃, h₄, h₅⟩,
      fun ⟨h₁, h₂, h₃, h₄, h₅⟩ => ⟨h₁, h₂, h₃, h₄, h₅⟩⟩

namespace Needle

variable {k : List Char} (hk : Needle k) (m : CaseMapping)

include hk

/-- A lowered text contains a needle when the text lowered character by character does. -/
theorem infix_lower_iff (s : List Char) :
    k <:+: m.lower s ↔ k <:+: s.flatMap m.foldedChar := by
  rw [CaseMapping.lower, ← m.map_foldSigma_lowerFrom []]
  refine (infix_map_iff (fun a ha => ?_) fun a ha => ?_).symm
  · refine if_neg ?_
    rintro rfl
    exact hk.noSigma.2 ha
  · refine if_neg ?_
    rintro rfl
    exact hk.noSigma.1 ha

/-- **What a part contains**, the text contains. -/
theorem infix_lower_mono {s t : List Char} (hst : s <:+: t) (h : k <:+: m.lower s) :
    k <:+: m.lower t := by
  rw [hk.infix_lower_iff] at h ⊢
  obtain ⟨u, v, rfl⟩ := hst
  refine h.trans ⟨u.flatMap m.foldedChar, v.flatMap m.foldedChar, ?_⟩
  rw [List.flatMap_append, List.flatMap_append]

/-- **What the text contains** is on one side of a line break. -/
theorem infix_lower_newline {s t : List Char} (h : k <:+: m.lower (s ++ '\n' :: t)) :
    k <:+: m.lower s ∨ k <:+: m.lower t := by
  rw [hk.infix_lower_iff] at h
  rw [hk.infix_lower_iff, hk.infix_lower_iff]
  have hbreak : m.foldedChar '\n' = ['\n'] := m.foldedChar_of_isSpace (by decide)
  rw [List.flatMap_append, List.flatMap_cons, hbreak, List.singleton_append] at h
  exact infix_of_infix_append_cons hk.noBreak h

/-- **Stripping** makes no difference. -/
theorem infix_lower_strip_iff (s : List Char) : k <:+: m.lower (strip s) ↔ k <:+: m.lower s := by
  have hright : (s.dropWhile isSpace).rdropWhile isSpace ++
      (s.dropWhile isSpace).rtakeWhile isSpace = s.dropWhile isSpace :=
    List.rdropWhile_append_rtakeWhile
  have hleft : s.takeWhile isSpace ++ s.dropWhile isSpace = s := List.takeWhile_append_dropWhile
  constructor
  · refine hk.infix_lower_mono m ⟨s.takeWhile isSpace, (s.dropWhile isSpace).rtakeWhile isSpace, ?_⟩
    rw [strip, List.append_assoc, hright, hleft]
  · intro h
    rw [hk.infix_lower_iff] at h ⊢
    rw [← hleft, List.flatMap_append, ← hright, List.flatMap_append] at h
    rw [m.flatMap_foldedChar_of_all fun c hc => List.mem_takeWhile_imp hc,
      m.flatMap_foldedChar_of_all fun c hc => List.mem_rtakeWhile_imp hc] at h
    refine infix_of_infix_append_right (fun c hc hmem => ?_) hk.nonempty
      (infix_of_infix_append_left (fun c hc hmem => ?_) hk.nonempty h)
    · have hlast := hk.last
      rw [hc, Option.any_some, List.mem_rtakeWhile_imp hmem] at hlast
      cases hlast
    · have hhead := hk.head
      rw [hc, Option.any_some, List.mem_takeWhile_imp hmem] at hhead
      cases hhead

/-- A text that contains a needle is at least a third as long. -/
theorem length_le_of_infix_lower {s : List Char} (h : k <:+: m.lower s) :
    k.length ≤ 3 * s.length := by
  rw [hk.infix_lower_iff] at h
  refine h.length_le.trans ?_
  clear h
  induction s with
  | nil => exact le_rfl
  | cons c rest ih =>
    have hone := m.length_foldedChar c
    rw [List.flatMap_cons, List.length_append, List.length_cons]
    omega

end Needle

end PyText
end Rcsce
