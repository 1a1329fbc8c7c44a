import Mathlib

/-!
# Decoding UTF-8 without the malformed bytes

`decodeIgnore` is `bytes.decode("utf-8", errors="ignore")`.  It reads the character that
starts at each byte, if a well-formed one does (`charAt`), and passes over the byte if none
does.  A continuation byte starts no character, so the bytes of a character that has been
read and those that belong to no character are passed over alike, and what is decoded at a
byte depends on the bytes after it only.

* `decodeIgnore_append_of_ascii`: a byte below 128 is a character by itself, and separates
  what is before it from what is after it.
* `decodeIgnore_infix`: a part of the bytes decodes to a part of the text, also when it is
  cut inside characters.
-/

namespace Rcsce
namespace Utf8

/-- The byte continues a character. -/
def isContinuation (b : UInt8) : Bool := 0x80 ≤ b && b < 0xC0

/-- How many bytes continue the character that the byte starts. -/
def continuations (b : UInt8) : Option ℕ :=
  if b < 0x80 then some 0
  else if b < 0xC2 then none
  else if b < 0xE0 then some 1
  else if b < 0xF0 then some 2
  else if b < 0xF5 then some 3
  else none

/-- The code point of a first byte and its `n` continuation bytes. -/
def codePoint (n : ℕ) (b : UInt8) (tail : List UInt8) : ℕ :=
  tail.foldl (fun v c => v * 64 + c.toNat % 64)
    (if n = 0 then b.toNat else b.toNat % 2 ^ (6 - n))

/-- The least code point that needs `n` continuation bytes. -/
def leastCodePoint : ℕ → ℕ
  | 0 => 0
  | 1 => 0x80
  | 2 => 0x800
  | _ => 0x10000

/-- The character that starts at the byte `b`, when the bytes `rest` follow. -/
def charAt (b : UInt8) (rest : List UInt8) : Option Char :=
  match continuations b with
  | none => none
  | some n =>
    let tail := rest.take n
    let v := codePoint n b tail
    if tail.length = n ∧ tail.all isContinuation ∧ leastCodePoint n ≤ v ∧ v.isValidChar then
      some (Char.ofNat v)
    else none

/-- `bytes.decode("utf-8", errors="ignore")`. -/
def decodeIgnore : List UInt8 → List Char
  | [] => []
  | b :: rest => (charAt b rest).toList ++ decodeIgnore rest

theorem decodeIgnore_cons (b : UInt8) (rest : List UInt8) :
    decodeIgnore (b :: rest) = (charAt b rest).toList ++ decodeIgnore rest := rfl

theorem continuations_of_isContinuation {b : UInt8} (h : isContinuation b) :
    continuations b = none := by
  rw [isContinuation, Bool.and_eq_true, decide_eq_true_eq, decide_eq_true_eq] at h
  have hlow : ¬ b < 0x80 := UInt8.not_lt.mpr h.1
  have hhigh : b < 0xC2 := UInt8.lt_trans h.2 (by decide)
  rw [continuations, if_neg hlow, if_pos hhigh]

/-- Continuation bytes alone are passed over. -/
theorem decodeIgnore_of_all {bytes : List UInt8} (h : bytes.all isContinuation) :
    decodeIgnore bytes = [] := by
  induction bytes with
  | nil => rfl
  | cons b rest ih =>
    rw [List.all_cons, Bool.and_eq_true] at h
    rw [decodeIgnore_cons, charAt, continuations_of_isContinuation h.1, ih h.2]
    rfl

/-- A character that is complete stays what it is when bytes are appended, and one that is not
can only be completed when all that is there continues it. -/
theorem charAt_append (b : UInt8) (rest more : List UInt8) :
    charAt b (rest ++ more) = charAt b rest ∨
      charAt b rest = none ∧ rest.all isContinuation := by
  cases hn : continuations b with
  | none => exact Or.inl (by rw [charAt, charAt, hn])
  | some n =>
    by_cases hlen : n ≤ rest.length
    · refine Or.inl ?_
      rw [charAt, charAt, hn]
      simp only [List.take_append_of_le_length hlen]
    · have htake : rest.take n = rest := List.take_of_length_le (by omega)
      have hnone : charAt b rest = none := by
        rw [charAt, hn]
        refine if_neg fun h => hlen ?_
        rw [htake] at h
        exact h.1.ge
      by_cases hall : rest.all isContinuation
      · exact Or.inr ⟨hnone, hall⟩
      · -- what is appended does not help
        refine Or.inl ?_
        rw [hnone, charAt, hn]
        refine if_neg fun h => hall ?_
        have hle : rest <+: (rest ++ more).take n :=
          List.prefix_take_iff.mpr ⟨List.prefix_append _ _, by omega⟩
        refine List.all_eq_true.mpr fun x hx => ?_
        exact List.all_eq_true.mp h.2.1 x (hle.subset hx)

/-- A byte that continues nothing leaves the characters before it alone. -/
theorem charAt_append_of_not_continuation (b : UInt8) (rest more : List UInt8) {c : UInt8}
    (hc : isContinuation c = false) : charAt b (rest ++ c :: more) = charAt b rest := by
  cases hn : continuations b with
  | none => rw [charAt, charAt, hn]
  | some n =>
    rw [charAt, charAt, hn]
    by_cases hlen : n ≤ rest.length
    · simp only [List.take_append_of_le_length hlen]
    · have htake : rest.take n = rest := List.take_of_length_le (by omega)
      have hmem : c ∈ (rest ++ c :: more).take n := by
        have hle : rest ++ [c] <+: (rest ++ c :: more).take n := by
          refine List.prefix_take_iff.mpr ⟨⟨more, List.append_assoc _ _ _⟩, ?_⟩
          rw [List.length_append, List.length_singleton]
          omega
        exact hle.subset (List.mem_append_right _ List.mem_cons_self)
      -- with the byte, and without it, the character is not complete
      dsimp only
      rw [if_neg, if_neg]
      · rw [htake]
        exact fun h => hlen h.1.ge
      · exact fun h => nomatch hc.symm.trans (List.all_eq_true.mp h.2.1 c hmem)

theorem charAt_of_ascii {c : UInt8} (hc : c < 0x80) (rest : List UInt8) :
    charAt c rest = some (Char.ofNat c.toNat) := by
  have hn : continuations c = some 0 := if_pos hc
  have hlt : c.toNat < 128 := UInt8.lt_iff_toNat_lt.mp hc
  have hvalid : c.toNat.isValidChar := Or.inl (by omega)
  have hpoint : codePoint 0 c [] = c.toNat := rfl
  rw [charAt, hn]
  simp only [List.take_zero, List.length_nil, List.all_nil, leastCodePoint, hpoint, Nat.zero_le,
    hvalid, and_self, if_true]

/-- **A character of one byte** separates what is before it from what is after it. -/
theorem decodeIgnore_append_of_ascii (bytes more : List UInt8) {c : UInt8} (hc : c < 0x80) :
    decodeIgnore (bytes ++ c :: more) =
      decodeIgnore bytes ++ Char.ofNat c.toNat :: decodeIgnore more := by
  have hno : isContinuation c = false := by
    rw [isContinuation, decide_eq_false (UInt8.not_le.mpr hc), Bool.false_and]
  induction bytes with
  | nil =>
    rw [List.nil_append, decodeIgnore_cons, charAt_of_ascii hc]
    rfl
  | cons b rest ih =>
    rw [List.cons_append, decodeIgnore_cons, ih, charAt_append_of_not_continuation b rest more hno,
      decodeIgnore_cons, List.append_assoc]

/-- What the bytes decode to ends with what the last of them decode to. -/
theorem decodeIgnore_suffix (bytes more : List UInt8) :
    decodeIgnore more <:+ decodeIgnore (bytes ++ more) := by
  induction bytes with
  | nil => exact List.suffix_refl _
  | cons b rest ih => exact ih.trans (List.suffix_append _ _)

/-- What the bytes decode to starts with what the first of them decode to. -/
theorem decodeIgnore_prefix (bytes more : List UInt8) :
    decodeIgnore bytes <+: decodeIgnore (bytes ++ more) := by
  induction bytes with
  | nil => exact List.nil_prefix
  | cons b rest ih =>
    rw [List.cons_append, decodeIgnore_cons, decodeIgnore_cons]
    rcases charAt_append b rest more with heq | ⟨hnone, hall⟩
    · rw [heq]
      exact (List.prefix_append_right_inj _).mpr ih
    · rw [hnone, decodeIgnore_of_all hall]
      exact List.nil_prefix

/-- **A part of the bytes** decodes to a part of the text. -/
theorem decodeIgnore_infix (before bytes after : List UInt8) :
    decodeIgnore bytes <:+: decodeIgnore (before ++ bytes ++ after) := by
  have hwhole := decodeIgnore_prefix (before ++ bytes) after
  exact (decodeIgnore_suffix before bytes).isInfix.trans hwhole.isInfix

/-- There are at most as many characters as bytes. -/
theorem length_decodeIgnore_le (bytes : List UInt8) :
    (decodeIgnore bytes).length ≤ bytes.length := by
  induction bytes with
  | nil => exact le_rfl
  | cons b rest ih =>
    have hone : (charAt b rest).toList.length ≤ 1 := by cases charAt b rest <;> simp
    rw [decodeIgnore_cons, List.length_append, List.length_cons]
    omega

end Utf8
end Rcsce
