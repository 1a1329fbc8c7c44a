import Mathlib

/-!
# String literals of JSON texts

`json.dumps` writes a string in ASCII: seven characters by a short escape, the other
characters outside of the blank to the tilde by `\u` and four digits, beyond the basic plane
by two such escapes, a surrogate pair.  `scanString` is `json.decoder.scanstring`, from after
the opening quote.  It reads code units first and joins the pairs among them afterwards, since
a pair is two escapes that follow each other.

A string is a list of Unicode characters here, so a surrogate that stands alone has no value:
`json.loads` would keep it, and `decodeUnits` rejects it.  No dump has one.

* `scanString_dumpString`: what is read back is what was dumped.
* `scanString_append`: a literal that has been read to its closing quote does not depend on
  what follows.
-/

namespace Rcsce
namespace JsonString

/-! ## Four hexadecimal digits -/

/-- The digit of a value below 16. -/
def hexDigit (n : ℕ) : Char :=
  if n < 10 then Char.ofNat (48 + n) else Char.ofNat (87 + n)

/-- The value of a digit. -/
def hexValue? (c : Char) : Option ℕ :=
  if '0' ≤ c ∧ c ≤ '9' then some (c.toNat - 48)
  else if 'a' ≤ c ∧ c ≤ 'f' then some (c.toNat - 87)
  else if 'A' ≤ c ∧ c ≤ 'F' then some (c.toNat - 55)
  else none

theorem hexValue?_hexDigit : ∀ n < 16, hexValue? (hexDigit n) = some n := by
  decide

/-- The value of four digits. -/
def readHex? (a b c d : Char) : Option ℕ := do
  let a ← hexValue? a
  let b ← hexValue? b
  let c ← hexValue? c
  let d ← hexValue? d
  return ((a * 16 + b) * 16 + c) * 16 + d

/-- `\uXXXX`. -/
def escapeCode (n : ℕ) : List Char :=
  ['\\', 'u', hexDigit (n / 4096), hexDigit (n / 256 % 16), hexDigit (n / 16 % 16),
    hexDigit (n % 16)]

theorem readHex?_hexDigit {n : ℕ} (h : n < 65536) :
    readHex? (hexDigit (n / 4096)) (hexDigit (n / 256 % 16)) (hexDigit (n / 16 % 16))
      (hexDigit (n % 16)) = some n := by
  have hvalue : ((n / 4096 * 16 + n / 256 % 16) * 16 + n / 16 % 16) * 16 + n % 16 = n := by omega
  rw [readHex?, hexValue?_hexDigit _ (by omega), hexValue?_hexDigit _ (by omega),
    hexValue?_hexDigit _ (by omega), hexValue?_hexDigit _ (by omega)]
  exact congrArg some hvalue

/-! ## Writing a string -/

/-- The letter of a short escape. -/
def shortEscape? : Char → Option Char
  | '"' => some '"'
  | '\\' => some '\\'
  | '\n' => some 'n'
  | '\r' => some 'r'
  | '\t' => some 't'
  | '\x0c' => some 'f'
  | '\x08' => some 'b'
  | _ => none

/-- The first of the two surrogates. -/
def highSurrogate (n : ℕ) : ℕ := 0xd800 + (n - 0x10000) / 0x400

/-- The second. -/
def lowSurrogate (n : ℕ) : ℕ := 0xdc00 + (n - 0x10000) % 0x400

/-- What `json.dumps` writes for a character. -/
def escape (c : Char) : List Char :=
  match shortEscape? c with
  | some e => ['\\', e]
  | none =>
    if ' ' ≤ c ∧ c ≤ '~' then [c]
    else if c.toNat < 0x10000 then escapeCode c.toNat
    else escapeCode (highSurrogate c.toNat) ++ escapeCode (lowSurrogate c.toNat)

/-- A string literal. -/
def dumpString (s : String) : List Char := '"' :: (s.toList.flatMap escape ++ ['"'])

/-! ## Reading a string -/

/-- A character, or a code unit that was written as an escape. -/
inductive TextUnit where
  | char (c : Char)
  | code (u : ℕ)

/-- The character of a short escape. -/
def ofShortEscape? : Char → Option Char
  | '"' => some '"'
  | '\\' => some '\\'
  | '/' => some '/'
  | 'n' => some '\n'
  | 'r' => some '\r'
  | 't' => some '\t'
  | 'f' => some '\x0c'
  | 'b' => some '\x08'
  | _ => none

theorem ofShortEscape?_of_shortEscape? {c e : Char} (h : shortEscape? c = some e) :
    ofShortEscape? e = some c ∧ e ≠ 'u' := by
  unfold shortEscape? at h
  split at h <;> first
    | (cases h; exact ⟨rfl, by decide⟩)
    | cases h

/-- The units up to the closing quote, and the text after it. -/
def scanUnits : List Char → Option (List TextUnit × List Char)
  | [] => none
  | '"' :: l => some ([], l)
  | '\\' :: 'u' :: a :: b :: c :: d :: l =>
      (readHex? a b c d).bind fun u => (scanUnits l).map fun r => (.code u :: r.1, r.2)
  | '\\' :: e :: l =>
      (ofShortEscape? e).bind fun c => (scanUnits l).map fun r => (.char c :: r.1, r.2)
  | c :: l =>
      if c < ' ' ∨ c = '\\' then none else (scanUnits l).map fun r => (.char c :: r.1, r.2)

/-- The unit is the first of a surrogate pair. -/
def isHigh (u : ℕ) : Bool := 0xd800 ≤ u ∧ u < 0xdc00

/-- The unit is the second. -/
def isLow (u : ℕ) : Bool := 0xdc00 ≤ u ∧ u < 0xe000

/-- The characters of the units. -/
def decodeUnits : List TextUnit → Option (List Char)
  | [] => some []
  | .char c :: us => (decodeUnits us).map (c :: ·)
  | .code u :: .code v :: us =>
      if isHigh u && isLow v then
        (decodeUnits us).map
          (Char.ofNat (0x10000 + (u - 0xd800) * 0x400 + (v - 0xdc00)) :: ·)
      else if isHigh u || isLow u then none
      else (decodeUnits (.code v :: us)).map (Char.ofNat u :: ·)
  | .code u :: us =>
      if isHigh u || isLow u then none else (decodeUnits us).map (Char.ofNat u :: ·)

/-- The string up to the closing quote, and the text after it. -/
def scanString (l : List Char) : Option (String × List Char) :=
  (scanUnits l).bind fun r => (decodeUnits r.1).map fun cs => (String.ofList cs, r.2)

/-! ## Reading back what was written -/

/-- The units of a character as `escape` writes it. -/
def unitsOf (c : Char) : List TextUnit :=
  match shortEscape? c with
  | some _ => [.char c]
  | none =>
    if ' ' ≤ c ∧ c ≤ '~' then [.char c]
    else if c.toNat < 0x10000 then [.code c.toNat]
    else [.code (highSurrogate c.toNat), .code (lowSurrogate c.toNat)]

theorem scanUnits_short {e : Char} (he : e ≠ 'u') (l : List Char) :
    scanUnits ('\\' :: e :: l) =
      (ofShortEscape? e).bind fun c => (scanUnits l).map fun r => (.char c :: r.1, r.2) := by
  rw [scanUnits]
  rintro a b c d l' rfl
  exact absurd rfl he

theorem scanUnits_plain {c : Char} (hquote : c ≠ '"') (hslash : c ≠ '\\') (hc : ' ' ≤ c)
    (l : List Char) :
    scanUnits (c :: l) = (scanUnits l).map fun r => (.char c :: r.1, r.2) := by
  rw [scanUnits, if_neg (not_or.mpr ⟨not_lt.mpr hc, hslash⟩)]
  · exact hquote
  · rintro a b c' d l' rfl
    exact absurd rfl hslash
  · rintro e l' rfl
    exact absurd rfl hslash

theorem scanUnits_escapeCode {n : ℕ} (h : n < 65536) (l : List Char) :
    scanUnits (escapeCode n ++ l) = (scanUnits l).map fun r => (.code n :: r.1, r.2) := by
  show scanUnits ('\\' :: 'u' :: _ :: _ :: _ :: _ :: l) = _
  rw [scanUnits, readHex?_hexDigit h, Option.bind_some]

theorem toNat_lt (c : Char) : c.toNat < 0x110000 := by
  rcases c.valid with hlt | ⟨-, hlt⟩
  · have hlt' : c.toNat < 0xd800 := hlt
    omega
  · exact hlt

theorem scanUnits_escape (c : Char) (l : List Char) :
    scanUnits (escape c ++ l) = (scanUnits l).map fun r => (unitsOf c ++ r.1, r.2) := by
  rw [escape, unitsOf]
  cases hshort : shortEscape? c with
  | some e =>
    obtain ⟨he, hne⟩ := ofShortEscape?_of_shortEscape? hshort
    show scanUnits ('\\' :: e :: l) = _
    rw [scanUnits_short hne, he, Option.bind_some]
    rfl
  | none =>
    dsimp only
    split_ifs with hplain hbmp
    · have hquote : c ≠ '"' := by
        rintro rfl
        cases hshort
      have hslash : c ≠ '\\' := by
        rintro rfl
        cases hshort
      exact scanUnits_plain hquote hslash hplain.1 l
    · exact scanUnits_escapeCode hbmp l
    · have hlt := toNat_lt c
      have hhigh : highSurrogate c.toNat < 65536 := by
        rw [highSurrogate]
        omega
      have hlow : lowSurrogate c.toNat < 65536 := by
        rw [lowSurrogate]
        omega
      rw [List.append_assoc, scanUnits_escapeCode hhigh, scanUnits_escapeCode hlow, Option.map_map]
      rfl

/-- No character is a surrogate. -/
theorem not_surrogate (c : Char) : (isHigh c.toNat || isLow c.toNat) = false := by
  have hvalid := c.valid
  rw [Bool.or_eq_false_iff, isHigh, isLow, decide_eq_false_iff_not, decide_eq_false_iff_not]
  rcases hvalid with hlt | ⟨hgt, -⟩
  · have hlt' : c.toNat < 0xd800 := hlt
    omega
  · have hgt' : 0xdfff < c.toNat := hgt
    omega

theorem decodeUnits_char (c : Char) (us : List TextUnit) :
    decodeUnits (.char c :: us) = (decodeUnits us).map (c :: ·) := by
  rw [decodeUnits]

theorem decodeUnits_code (c : Char) (us : List TextUnit) :
    decodeUnits (.code c.toNat :: us) = (decodeUnits us).map (c :: ·) := by
  obtain ⟨hhigh, hlow⟩ := Bool.or_eq_false_iff.mp (not_surrogate c)
  cases us with
  | nil => simp [decodeUnits, hhigh, hlow]
  | cons v us => cases v <;> simp [decodeUnits, hhigh, hlow]

theorem decodeUnits_pair {u v : ℕ} (hu : isHigh u = true) (hv : isLow v = true)
    (us : List TextUnit) :
    decodeUnits (.code u :: .code v :: us) = (decodeUnits us).map
      (Char.ofNat (0x10000 + (u - 0xd800) * 0x400 + (v - 0xdc00)) :: ·) := by
  rw [decodeUnits, hu, hv, Bool.and_self, if_pos rfl]

theorem decodeUnits_unitsOf (c : Char) (us : List TextUnit) :
    decodeUnits (unitsOf c ++ us) = (decodeUnits us).map (c :: ·) := by
  rw [unitsOf]
  cases shortEscape? c with
  | some e => exact decodeUnits_char c us
  | none =>
    dsimp only
    split_ifs with hplain hbmp
    · exact decodeUnits_char c us
    · exact decodeUnits_code c us
    · have hlt := toNat_lt c
      have hhigh : isHigh (highSurrogate c.toNat) = true := by
        rw [isHigh, decide_eq_true_iff, highSurrogate]
        omega
      have hlow : isLow (lowSurrogate c.toNat) = true := by
        rw [isLow, decide_eq_true_iff, lowSurrogate]
        omega
      have hvalue : 0x10000 + (highSurrogate c.toNat - 0xd800) * 0x400 +
          (lowSurrogate c.toNat - 0xdc00) = c.toNat := by
        rw [highSurrogate, lowSurrogate]
        omega
      refine (decodeUnits_pair hhigh hlow us).trans ?_
      rw [hvalue, Char.ofNat_toNat]

theorem scanUnits_flatMap (cs l : List Char) :
    scanUnits (cs.flatMap escape ++ '"' :: l) = some (cs.flatMap unitsOf, l) := by
  induction cs with
  | nil => rfl
  | cons c cs ih =>
    rw [List.flatMap_cons, List.append_assoc, scanUnits_escape, ih]
    rfl

theorem decodeUnits_flatMap (cs : List Char) : decodeUnits (cs.flatMap unitsOf) = some cs := by
  induction cs with
  | nil => rfl
  | cons c cs ih =>
    rw [List.flatMap_cons, decodeUnits_unitsOf, ih]
    rfl

/-- **A string is read back.** -/
theorem scanString_dumpString (s : String) (l : List Char) :
    scanString (s.toList.flatMap escape ++ '"' :: l) = some (s, l) := by
  rw [scanString, scanUnits_flatMap, Option.bind_some, decodeUnits_flatMap, Option.map_some,
    String.ofList_toList]

/-! ## A literal that has been read -/

/-- What is read is a part of the text, whatever follows it. -/
theorem scanUnits_eq_some {l r : List Char} {us : List TextUnit}
    (h : scanUnits l = some (us, r)) :
    ∃ p, p ≠ [] ∧ l = p ++ r ∧ ∀ l', scanUnits (p ++ l') = some (us, l') := by
  induction l using scanUnits.induct generalizing us with
  | case1 => cases h
  | case2 l =>
    cases h
    exact ⟨['"'], List.cons_ne_nil _ _, rfl, fun _ => rfl⟩
  | case3 a b c d l ih =>
    rw [scanUnits] at h
    obtain ⟨u, hu, hrest⟩ := Option.bind_eq_some_iff.mp h
    obtain ⟨⟨us', r'⟩, hscan, heq⟩ := Option.map_eq_some_iff.mp hrest
    cases heq
    obtain ⟨p, -, rfl, hp⟩ := ih hscan
    refine ⟨'\\' :: 'u' :: a :: b :: c :: d :: p, List.cons_ne_nil _ _, rfl, fun l' => ?_⟩
    show scanUnits ('\\' :: 'u' :: a :: b :: c :: d :: (p ++ l')) = _
    rw [scanUnits, hu, Option.bind_some, hp, Option.map_some]
  | case4 e l hne ih =>
    rw [scanUnits] at h
    · obtain ⟨c, hc, hrest⟩ := Option.bind_eq_some_iff.mp h
      obtain ⟨⟨us', r'⟩, hscan, heq⟩ := Option.map_eq_some_iff.mp hrest
      cases heq
      obtain ⟨p, -, rfl, hp⟩ := ih hscan
      have he : e ≠ 'u' := by
        rintro rfl
        cases hc
      refine ⟨'\\' :: e :: p, List.cons_ne_nil _ _, rfl, fun l' => ?_⟩
      show scanUnits ('\\' :: e :: (p ++ l')) = _
      rw [scanUnits_short he, hc, Option.bind_some, hp, Option.map_some]
    · exact hne
  | case5 c l hquote hcode hshort hc =>
    rw [scanUnits, if_pos hc] at h
    · cases h
    · exact hquote
    · exact hcode
    · exact hshort
  | case6 c l hquote hcode hshort hc ih =>
    obtain ⟨hlt, hslash⟩ := not_or.mp hc
    rw [scanUnits_plain hquote hslash (not_lt.mp hlt)] at h
    obtain ⟨⟨us', r'⟩, hscan, heq⟩ := Option.map_eq_some_iff.mp h
    cases heq
    obtain ⟨p, -, rfl, hp⟩ := ih hscan
    refine ⟨c :: p, List.cons_ne_nil _ _, rfl, fun l' => ?_⟩
    show scanUnits (c :: (p ++ l')) = _
    rw [scanUnits_plain hquote hslash (not_lt.mp hlt), hp, Option.map_some]

theorem scanString_eq_some {l r : List Char} {s : String} (h : scanString l = some (s, r)) :
    ∃ p, p ≠ [] ∧ l = p ++ r ∧ ∀ l', scanString (p ++ l') = some (s, l') := by
  obtain ⟨⟨us, rest⟩, hunits, hdecode⟩ := Option.bind_eq_some_iff.mp h
  obtain ⟨cs, hcs, heq⟩ := Option.map_eq_some_iff.mp hdecode
  cases heq
  obtain ⟨p, hne, hl, hp⟩ := scanUnits_eq_some hunits
  refine ⟨p, hne, hl, fun l' => ?_⟩
  rw [scanString, hp, Option.bind_some, hcs, Option.map_some]

theorem scanString_append {l r : List Char} {s : String} (h : scanString l = some (s, r))
    (l' : List Char) : scanString (l ++ l') = some (s, r ++ l') := by
  obtain ⟨p, -, rfl, hp⟩ := scanString_eq_some h
  rw [List.append_assoc, hp]

theorem length_scanString {l r : List Char} {s : String} (h : scanString l = some (s, r)) :
    r.length < l.length := by
  obtain ⟨p, hne, rfl, -⟩ := scanString_eq_some h
  rw [List.length_append]
  have hpos := List.length_pos_iff.mpr hne
  omega

end JsonString
end Rcsce
