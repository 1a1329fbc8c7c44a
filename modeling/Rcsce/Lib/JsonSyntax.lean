import Rcsce.Lib.JsonString
import Rcsce.Lib.OrderedDict
import Rcsce.Lib.Json

/-!
# The text of a JSON value

`Json.dump` is `json.dump(value, indent=2)` and `Json.loads` is `json.loads`.  The scanner
follows `json.scanner`: a value at the front of the text and what is left of it, an object with
the last value of a key that comes twice.

How a number is written and read is a parameter, `NumberText`: the decimal text of a float is
not computed here.  The scanner takes the longest run of characters that numbers are made of,
where the one of the module takes the longest number.  A run that is longer than the number is
rejected by both, since no such character can follow a value.

At the front of a text, a dumped value is read back, whatever delimiter follows it
(`scanOnce_dumpAt`).  So what is loaded is what was dumped (`loads_dump`).
-/

namespace Rcsce

/-- The characters of numbers. -/
def isNumberChar (c : Char) : Bool :=
  c.isDigit || c = '-' || c = '+' || c = '.' || c = 'e' || c = 'E'

/-- The characters that are skipped between the tokens. -/
def isSpace (c : Char) : Bool := c = ' ' || c = '\t' || c = '\n' || c = '\r'

/-- The characters that can stand after a value. -/
def isDelimiter (c : Char) : Bool := isSpace c || c = ',' || c = ']' || c = '}'

/-- How the numbers of the language are written and read. -/
structure NumberText where
  /-- The rationals that are numbers of the language. -/
  IsNumber : ℚ → Prop
  dump : ℚ → List Char
  parse : List Char → Option ℚ
  isNumber_natCast : ∀ n : ℕ, IsNumber n
  parse_dump : ∀ q, IsNumber q → parse (dump q) = some q
  parse_nil : parse [] = none
  dump_chars : ∀ q, ∀ c ∈ dump q, isNumberChar c = true

namespace NumberText

theorem dump_ne_nil (num : NumberText) {q : ℚ} (hq : num.IsNumber q) : num.dump q ≠ [] := by
  intro h
  have hparse := num.parse_dump q hq
  rw [h, num.parse_nil] at hparse
  cases hparse

/-! ## The integers -/

/-- The text of an integer. -/
def intText (n : ℤ) : List Char :=
  if n < 0 then '-' :: Nat.toDigits 10 n.natAbs else Nat.toDigits 10 n.natAbs

/-- The value of a run of digits. -/
def parseDigits (l : List Char) : Option ℚ :=
  if l ≠ [] ∧ l.all Char.isDigit then some (Nat.ofDigitChars 10 l 0 : ℕ) else none

/-- The value of an integer. -/
def parseInt : List Char → Option ℚ
  | '-' :: l => (parseDigits l).map (- ·)
  | l => parseDigits l

theorem parseDigits_toDigits (n : ℕ) : parseDigits (Nat.toDigits 10 n) = some (n : ℚ) := by
  have hdigits : (Nat.toDigits 10 n).all Char.isDigit = true := by
    rw [List.all_eq_true]
    intro c hc
    exact Nat.isDigit_of_mem_toDigits (by decide) (by decide) hc
  rw [parseDigits, if_pos ⟨Nat.toDigits_ne_nil, hdigits⟩, Nat.ofDigitChars_ten_toDigits]

theorem parseInt_intText (n : ℤ) : parseInt (intText n) = some (n : ℚ) := by
  rw [intText]
  split_ifs with h
  · rw [parseInt, parseDigits_toDigits, Option.map_some, ← Int.cast_natCast, ← Int.cast_neg]
    congr 2
    omega
  · rw [parseInt, parseDigits_toDigits, ← Int.cast_natCast]
    · congr 2
      omega
    · intro l hl
      have hdigit : Char.isDigit '-' = true :=
        Nat.isDigit_of_mem_toDigits (by decide) (by decide) (hl ▸ List.mem_cons_self)
      cases hdigit

/-- The integers with their decimal texts, as the language writes them. -/
def integers : NumberText where
  IsNumber q := q.den = 1
  dump q := intText q.num
  parse := parseInt
  isNumber_natCast _ := rfl
  parse_dump q hq := by
    rw [parseInt_intText, Rat.coe_int_num_of_den_eq_one hq]
  parse_nil := rfl
  dump_chars q c hc := by
    have hdigit : ∀ n, c ∈ Nat.toDigits 10 n → isNumberChar c = true := by
      intro n hmem
      have h := Nat.isDigit_of_mem_toDigits (by decide) (by decide) hmem
      simp [isNumberChar, h]
    rw [intText] at hc
    split_ifs at hc
    · rcases List.mem_cons.mp hc with rfl | hmem
      · rfl
      · exact hdigit _ hmem
    · exact hdigit _ hc

end NumberText

namespace Json

open JsonString

/-! ## Dumping -/

/-- The line break before an item at depth `k`. -/
def newline (k : ℕ) : List Char := '\n' :: List.replicate (2 * k) ' '

/-- The items after the first of an array or an object, each on its line, up to the closing
bracket. -/
def dumpRest (k : ℕ) (close : Char) : List (List Char) → List Char
  | [] => newline k ++ [close]
  | t :: ts => ',' :: newline (k + 1) ++ t ++ dumpRest k close ts

/-- The items of an array or an object at depth `k`, after the opening bracket. -/
def dumpItems (k : ℕ) (close : Char) : List (List Char) → List Char
  | [] => [close]
  | t :: ts => newline (k + 1) ++ t ++ dumpRest k close ts

/-- The text of a member of an object. -/
def dumpMember (key : String) (t : List Char) : List Char := dumpString key ++ ':' :: ' ' :: t

variable (num : NumberText)

mutual

/-- The text of a value at depth `k`. -/
def dumpAt (k : ℕ) : Json → List Char
  | .null => ['n', 'u', 'l', 'l']
  | .bool true => ['t', 'r', 'u', 'e']
  | .bool false => ['f', 'a', 'l', 's', 'e']
  | .num q => num.dump q
  | .nonFinite .nan => ['N', 'a', 'N']
  | .nonFinite .posInf => ['I', 'n', 'f', 'i', 'n', 'i', 't', 'y']
  | .nonFinite .negInf => ['-', 'I', 'n', 'f', 'i', 'n', 'i', 't', 'y']
  | .str s => dumpString s
  | .arr elems => '[' :: dumpItems k ']' (dumpElems (k + 1) elems)
  | .obj members => '{' :: dumpItems k '}' (dumpMembers (k + 1) members)

def dumpElems (k : ℕ) : List Json → List (List Char)
  | [] => []
  | v :: vs => dumpAt k v :: dumpElems k vs

def dumpMembers (k : ℕ) : List (String × Json) → List (List Char)
  | [] => []
  | (key, v) :: ms => dumpMember key (dumpAt k v) :: dumpMembers k ms

end

/-- `json.dump(value, f, indent=2)`. -/
def dump (value : Json) : List Char := dumpAt num 0 value

theorem dumpElems_eq (k : ℕ) (vs : List Json) :
    dumpElems num k vs = vs.map (dumpAt num k) := by
  induction vs with
  | nil => rw [dumpElems, List.map_nil]
  | cons v vs ih => rw [dumpElems, ih, List.map_cons]

theorem dumpMembers_eq (k : ℕ) (ms : List (String × Json)) :
    dumpMembers num k ms = ms.map fun m => dumpMember m.1 (dumpAt num k m.2) := by
  induction ms with
  | nil => rw [dumpMembers, List.map_nil]
  | cons m ms ih => rw [dumpMembers, ih, List.map_cons]

theorem dumpAt_arr (k : ℕ) (vs : List Json) :
    dumpAt num k (.arr vs) = '[' :: dumpItems k ']' (vs.map (dumpAt num (k + 1))) := by
  rw [dumpAt, dumpElems_eq]

theorem dumpAt_obj (k : ℕ) (ms : List (String × Json)) :
    dumpAt num k (.obj ms) =
      '{' :: dumpItems k '}' (ms.map fun m => dumpMember m.1 (dumpAt num (k + 1) m.2)) := by
  rw [dumpAt, dumpMembers_eq]

/-! ## Loading -/

def skipSpace (l : List Char) : List Char := l.dropWhile isSpace

/-- The next token is the character `c`. -/
def expect (c : Char) (l : List Char) : Option (List Char) :=
  match skipSpace l with
  | [] => none
  | d :: l' => if d = c then some l' else none

/-- What stands after an item: the closing bracket, or a comma and the next item. -/
inductive Next where
  | close (l : List Char)
  | more (l : List Char)

def scanNext (close : Char) (l : List Char) : Option Next :=
  match expect close l with
  | some l' => some (.close l')
  | none => (expect ',' l).map .more

/-- The items up to the closing bracket, for a scanner of one item. -/
def scanItems {α : Type} (item : List Char → Option (α × List Char)) (close : Char) :
    ℕ → List Char → Option (List α × List Char)
  | 0, _ => none
  | n + 1, l =>
      (item (skipSpace l)).bind fun r => (scanNext close r.2).bind fun
        | .close l' => some ([r.1], l')
        | .more l' => (scanItems item close n l').map fun rs => (r.1 :: rs.1, rs.2)

/-- The same after the opening bracket, where there may be no item. -/
def scanBody {α : Type} (item : List Char → Option (α × List Char)) (close : Char) (n : ℕ)
    (l : List Char) : Option (List α × List Char) :=
  match expect close l with
  | some l' => some ([], l')
  | none => scanItems item close n l

/-- A member of an object, for a scanner of values. -/
def scanMember (value : List Char → Option (Json × List Char)) (l : List Char) :
    Option ((String × Json) × List Char) :=
  match l with
  | '"' :: l =>
      (scanString l).bind fun key => (expect ':' key.2).bind fun l' =>
        (value (skipSpace l')).map fun r => ((key.1, r.1), r.2)
  | _ => none

/-- The values that are words. -/
def scanWord : List Char → Option (Json × List Char)
  | 'n' :: 'u' :: 'l' :: 'l' :: l => some (.null, l)
  | 't' :: 'r' :: 'u' :: 'e' :: l => some (.bool true, l)
  | 'f' :: 'a' :: 'l' :: 's' :: 'e' :: l => some (.bool false, l)
  | 'N' :: 'a' :: 'N' :: l => some (.nonFinite .nan, l)
  | 'I' :: 'n' :: 'f' :: 'i' :: 'n' :: 'i' :: 't' :: 'y' :: l => some (.nonFinite .posInf, l)
  | '-' :: 'I' :: 'n' :: 'f' :: 'i' :: 'n' :: 'i' :: 't' :: 'y' :: l =>
      some (.nonFinite .negInf, l)
  | _ => none

/-- A word or a number. -/
def scanScalar (l : List Char) : Option (Json × List Char) :=
  (scanWord l).or <|
    (num.parse (l.takeWhile isNumberChar)).map fun q => (.num q, l.dropWhile isNumberChar)

/-- `scan_once`: the value at the front of a text.  The fuel bounds the depth and the number of
items. -/
def scanOnce : ℕ → List Char → Option (Json × List Char)
  | 0, _ => none
  | _ + 1, '"' :: l => (scanString l).map fun r => (.str r.1, r.2)
  | n + 1, '[' :: l => (scanBody (scanOnce n) ']' n l).map fun r => (.arr r.1, r.2)
  | n + 1, '{' :: l =>
      (scanBody (scanMember (scanOnce n)) '}' n l).map fun r =>
        (.obj (OrderedDict.ofPairs r.1).entries, r.2)
  | _ + 1, l => scanScalar num l

/-- `json.loads`. -/
def loads (text : List Char) : Option Json :=
  (scanOnce num text.length (skipSpace text)).bind fun r =>
    if skipSpace r.2 = [] then some r.1 else none

/-! ## What stands at the front of a text -/

/-- A delimiter stands at the front. -/
def AtDelimiter (l : List Char) : Prop := ∃ c l', l = c :: l' ∧ isDelimiter c = true

/-- The text begins with a token that is not a delimiter. -/
def Solid (t : List Char) : Prop := ∃ c t', t = c :: t' ∧ isDelimiter c = false

theorem isSpace_eq_false {c : Char} (h : isDelimiter c = false) : isSpace c = false := by
  simp only [isDelimiter, Bool.or_eq_false_iff] at h
  exact h.1.1.1

theorem isNumberChar_eq_false {c : Char} (h : isDelimiter c = true) : isNumberChar c = false := by
  simp only [isDelimiter, isSpace, Bool.or_eq_true, decide_eq_true_iff] at h
  rcases h with (((((rfl | rfl) | rfl) | rfl) | rfl) | rfl) | rfl <;> rfl

theorem isDelimiter_eq_false {c : Char} (h : isNumberChar c = true) : isDelimiter c = false := by
  cases hc : isDelimiter c with
  | false => rfl
  | true =>
    rw [isNumberChar_eq_false hc] at h
    cases h

theorem skipSpace_cons {c : Char} (h : isSpace c = false) (l : List Char) :
    skipSpace (c :: l) = c :: l := by
  rw [skipSpace, List.dropWhile_cons_of_neg (by simp [h])]

theorem skipSpace_newline (k : ℕ) (l : List Char) : skipSpace (newline k ++ l) = skipSpace l := by
  have hspaces : ∀ n, skipSpace (List.replicate n ' ' ++ l) = skipSpace l := by
    intro n
    induction n with
    | zero => rfl
    | succ n ih => exact ih
  exact hspaces (2 * k)

theorem Solid.append {t : List Char} (h : Solid t) (l : List Char) : Solid (t ++ l) := by
  obtain ⟨c, t', rfl, hc⟩ := h
  exact ⟨c, t' ++ l, rfl, hc⟩

theorem Solid.skipSpace {t : List Char} (h : Solid t) : skipSpace t = t := by
  obtain ⟨c, t', rfl, hc⟩ := h
  exact skipSpace_cons (isSpace_eq_false hc) t'

/-- A delimiter is not what a solid text begins with. -/
theorem expect_eq_none {t : List Char} (h : Solid t) {d : Char} (hd : isDelimiter d = true)
    (k : ℕ) : expect d (newline k ++ t) = none := by
  obtain ⟨c, t', rfl, hc⟩ := h
  have hne : c ≠ d := by
    rintro rfl
    rw [hd] at hc
    cases hc
  rw [expect, skipSpace_newline, skipSpace_cons (isSpace_eq_false hc)]
  exact if_neg hne

theorem expect_cons {c : Char} (hc : isSpace c = false) (l : List Char) :
    expect c (c :: l) = some l := by
  rw [expect, skipSpace_cons hc]
  exact if_pos rfl

theorem expect_cons_of_ne {c d : Char} (hc : isSpace c = false) (hne : c ≠ d) (l : List Char) :
    expect d (c :: l) = none := by
  rw [expect, skipSpace_cons hc]
  exact if_neg hne

theorem expect_newline {c : Char} (k : ℕ) (l : List Char) :
    expect c (newline k ++ l) = expect c l := by
  rw [expect, skipSpace_newline, expect]

/-! ## Reading back the items -/

theorem atDelimiter_dumpRest (k : ℕ) (close : Char) (ts : List (List Char)) (l : List Char) :
    AtDelimiter (dumpRest k close ts ++ l) := by
  cases ts with
  | nil => exact ⟨'\n', _, rfl, rfl⟩
  | cons t ts => exact ⟨',', _, rfl, rfl⟩

section Items

variable {α : Type} {item : List Char → Option (α × List Char)} {f : α → List Char} {close : Char}

/-- The last item. -/
theorem scanItems_close {n : ℕ} {l l₁ r : List Char} {x : α}
    (hx : item (skipSpace l) = some (x, l₁)) (hnext : scanNext close l₁ = some (.close r)) :
    scanItems item close (n + 1) l = some ([x], r) := by
  rw [scanItems, hx, Option.bind_some, hnext]
  rfl

/-- An item before others. -/
theorem scanItems_more {n : ℕ} {l l₁ l' r : List Char} {x : α} {xs : List α}
    (hx : item (skipSpace l) = some (x, l₁)) (hnext : scanNext close l₁ = some (.more l'))
    (hrest : scanItems item close n l' = some (xs, r)) :
    scanItems item close (n + 1) l = some (x :: xs, r) := by
  rw [scanItems, hx, Option.bind_some, hnext]
  exact congrArg (Option.map fun rs : List α × List Char => (x :: rs.1, rs.2)) hrest

/-- The items were read in one of these two ways. -/
theorem scanItems_succ_cases {n : ℕ} {l r : List Char} {xs : List α}
    (h : scanItems item close (n + 1) l = some (xs, r)) :
    ∃ x l₁, item (skipSpace l) = some (x, l₁) ∧
      ((scanNext close l₁ = some (.close r) ∧ xs = [x]) ∨
        ∃ l' ys, scanNext close l₁ = some (.more l') ∧
          scanItems item close n l' = some (ys, r) ∧ xs = x :: ys) := by
  rw [scanItems] at h
  obtain ⟨⟨x, l₁⟩, hx, hrest⟩ := Option.bind_eq_some_iff.mp h
  obtain ⟨next, hnext, hrest⟩ := Option.bind_eq_some_iff.mp hrest
  refine ⟨x, l₁, hx, ?_⟩
  cases next with
  | close l' =>
    cases hrest
    exact Or.inl ⟨hnext, rfl⟩
  | more l' =>
    obtain ⟨⟨ys, r'⟩, hys, heq⟩ := Option.map_eq_some_iff.mp hrest
    cases heq
    exact Or.inr ⟨l', ys, hnext, hys, rfl⟩

theorem scanItems_newline (n k : ℕ) (l : List Char) :
    scanItems item close n (newline k ++ l) = scanItems item close n l := by
  cases n with
  | zero => rfl
  | succ n => rw [scanItems, scanItems, skipSpace_newline]

/-- If each item is read back before a delimiter, the list of them is read back. -/
theorem scanItems_dumpRest (hclose : close = ']' ∨ close = '}') {x : α} {xs : List α}
    (hsolid : ∀ y ∈ x :: xs, Solid (f y))
    (hread : ∀ y ∈ x :: xs, ∀ l, AtDelimiter l → item (f y ++ l) = some (y, l))
    (k : ℕ) {n : ℕ} (hn : xs.length < n) (l : List Char) :
    scanItems item close n (f x ++ (dumpRest k close (xs.map f) ++ l)) = some (x :: xs, l) := by
  have hspace : isSpace close = false := by
    rcases hclose with rfl | rfl <;> rfl
  have hcomma : ',' ≠ close := by
    rcases hclose with rfl | rfl <;> decide
  induction xs generalizing x n with
  | nil =>
    obtain ⟨n, rfl⟩ := Nat.exists_eq_succ_of_ne_zero (Nat.ne_of_gt hn)
    have hx : item (skipSpace (f x ++ (dumpRest k close [] ++ l))) =
        some (x, dumpRest k close [] ++ l) := by
      rw [((hsolid x List.mem_cons_self).append _).skipSpace]
      exact hread x List.mem_cons_self _ (atDelimiter_dumpRest k close [] l)
    refine scanItems_close hx ?_
    rw [scanNext, dumpRest, List.append_assoc, expect_newline, List.singleton_append,
      expect_cons hspace]
  | cons y ys ih =>
    obtain ⟨n, rfl⟩ := Nat.exists_eq_succ_of_ne_zero (Nat.ne_of_gt (Nat.zero_lt_of_lt hn))
    have hrest := ih (x := y) (n := n) (fun z hz => hsolid z (List.mem_cons_of_mem _ hz))
      (fun z hz => hread z (List.mem_cons_of_mem _ hz)) (Nat.lt_of_succ_lt_succ hn)
    have hx : item (skipSpace (f x ++ (dumpRest k close ((y :: ys).map f) ++ l))) =
        some (x, dumpRest k close ((y :: ys).map f) ++ l) := by
      rw [((hsolid x List.mem_cons_self).append _).skipSpace]
      exact hread x List.mem_cons_self _ (atDelimiter_dumpRest k close ((y :: ys).map f) l)
    have hmore : scanNext close (dumpRest k close ((y :: ys).map f) ++ l) =
        some (.more (newline (k + 1) ++ (f y ++ (dumpRest k close (ys.map f) ++ l)))) := by
      rw [List.map_cons, scanNext, dumpRest, List.cons_append, List.cons_append,
        List.cons_append, expect_cons_of_ne rfl hcomma, expect_cons rfl]
      simp only [Option.map_some, List.append_assoc]
    exact scanItems_more hx hmore (by rw [scanItems_newline, hrest])

theorem scanBody_dumpItems (hclose : close = ']' ∨ close = '}') {xs : List α}
    (hsolid : ∀ y ∈ xs, Solid (f y))
    (hread : ∀ y ∈ xs, ∀ l, AtDelimiter l → item (f y ++ l) = some (y, l))
    (k : ℕ) {n : ℕ} (hn : xs.length ≤ n) (l : List Char) :
    scanBody item close n (dumpItems k close (xs.map f) ++ l) = some (xs, l) := by
  have hspace : isSpace close = false := by
    rcases hclose with rfl | rfl <;> rfl
  have hdelimiter : isDelimiter close = true := by
    rcases hclose with rfl | rfl <;> rfl
  cases xs with
  | nil =>
    rw [List.map_nil, dumpItems, List.singleton_append, scanBody, expect_cons hspace]
  | cons x xs =>
    have hx : Solid (f x ++ (dumpRest k close (xs.map f) ++ l)) :=
      (hsolid x List.mem_cons_self).append _
    rw [List.map_cons, dumpItems, List.append_assoc, List.append_assoc, scanBody,
      expect_eq_none hx hdelimiter]
    show scanItems item close n _ = _
    rw [scanItems_newline]
    exact scanItems_dumpRest hclose hsolid hread k hn l

/-- The text of the items is longer than each of them, and than their number. -/
theorem length_dumpRest (k : ℕ) (close : Char) (ts : List (List Char)) :
    ts.length < (dumpRest k close ts).length ∧
      ∀ t ∈ ts, t.length ≤ (dumpRest k close ts).length := by
  induction ts with
  | nil => exact ⟨by simp [dumpRest], fun t ht => nomatch ht⟩
  | cons t ts ih =>
    have hlength : (dumpRest k close (t :: ts)).length =
        1 + (newline (k + 1)).length + t.length + (dumpRest k close ts).length := by
      simp only [dumpRest, List.length_cons, List.length_append, List.cons_append]
      omega
    refine ⟨?_, fun u hu => ?_⟩
    · rw [hlength, List.length_cons]
      omega
    · rcases List.mem_cons.mp hu with rfl | hmem
      · omega
      · have hu' := ih.2 u hmem
        omega

theorem length_dumpItems (k : ℕ) (close : Char) (ts : List (List Char)) :
    ts.length ≤ (dumpItems k close ts).length ∧
      ∀ t ∈ ts, t.length ≤ (dumpItems k close ts).length := by
  cases ts with
  | nil => exact ⟨Nat.zero_le _, fun t ht => nomatch ht⟩
  | cons t ts =>
    obtain ⟨hcount, hitem⟩ := length_dumpRest k close ts
    have hlength : (dumpItems k close (t :: ts)).length =
        (newline (k + 1)).length + t.length + (dumpRest k close ts).length := by
      simp only [dumpItems, List.length_append]
    refine ⟨?_, fun u hu => ?_⟩
    · rw [hlength, List.length_cons]
      omega
    · rcases List.mem_cons.mp hu with rfl | hmem
      · omega
      · have hu' := hitem u hmem
        omega

end Items

theorem scanMember_dumpMember {value : List Char → Option (Json × List Char)} {key : String}
    {v : Json} {t l : List Char} (ht : Solid t) (hvalue : value (t ++ l) = some (v, l)) :
    scanMember value (dumpMember key t ++ l) = some ((key, v), l) := by
  have htext : dumpMember key t ++ l =
      '"' :: (key.toList.flatMap escape ++ '"' :: (':' :: ' ' :: (t ++ l))) := by
    simp [dumpMember, dumpString]
  have hskip : skipSpace (' ' :: (t ++ l)) = t ++ l := (ht.append l).skipSpace
  rw [htext, scanMember, scanString_dumpString, Option.bind_some, expect_cons rfl,
    Option.bind_some, hskip, hvalue]
  rfl

/-! ## Reading back a scalar -/

/-- No word is a number, or follows a delimiter. -/
theorem scanWord_eq_some {l r : List Char} {v : Json} (h : scanWord l = some (v, r)) :
    ∃ c d l', l = c :: d :: l' ∧ isDelimiter c = false ∧ isNumberChar d = false ∧
      isDelimiter d = false := by
  unfold scanWord at h
  split at h <;> first
    | exact ⟨_, _, _, rfl, rfl, rfl, rfl⟩
    | cases h

theorem scanWord_number {t l : List Char} (ht : ∀ c ∈ t, isNumberChar c = true)
    (hl : l = [] ∨ AtDelimiter l) : scanWord (t ++ l) = none := by
  cases h : scanWord (t ++ l) with
  | none => rfl
  | some r =>
    obtain ⟨c, d, l', heq, hc, hd, hd'⟩ := scanWord_eq_some h
    rcases t with _ | ⟨a, _ | ⟨b, t⟩⟩
    · rcases hl with rfl | ⟨e, l₁, rfl, he⟩
      · cases heq
      · cases heq
        rw [he] at hc
        cases hc
    · rcases hl with rfl | ⟨e, l₁, rfl, he⟩
      · cases heq
      · cases heq
        rw [he] at hd'
        cases hd'
    · cases heq
      rw [ht d (List.mem_cons_of_mem _ List.mem_cons_self)] at hd
      cases hd

theorem scanScalar_number {t l : List Char} (ht : ∀ c ∈ t, isNumberChar c = true)
    (hl : l = [] ∨ AtDelimiter l) :
    scanScalar num (t ++ l) = (num.parse t).map fun q => (.num q, l) := by
  have htake : l.takeWhile isNumberChar = [] := by
    rcases hl with rfl | ⟨c, l', rfl, hc⟩
    · rfl
    · rw [List.takeWhile_cons_of_neg (by simp [isNumberChar_eq_false hc])]
  have hdrop : l.dropWhile isNumberChar = l := by
    have happend := List.takeWhile_append_dropWhile (p := isNumberChar) (l := l)
    rwa [htake, List.nil_append] at happend
  rw [scanScalar, scanWord_number ht hl, Option.none_or, List.takeWhile_append_of_pos ht, htake,
    List.append_nil, List.dropWhile_append_of_pos ht, hdrop]

/-! ## Reading back a value -/

/-- The JSON values: the numbers in them are numbers of the language, and no key of an object
comes twice. -/
inductive IsJson : Json → Prop
  | null : IsJson .null
  | bool (b : Bool) : IsJson (.bool b)
  | num {q : ℚ} (hq : num.IsNumber q) : IsJson (.num q)
  | nonFinite (f : NonFinite) : IsJson (.nonFinite f)
  | str (s : String) : IsJson (.str s)
  | arr {elems : List Json} (h : ∀ v ∈ elems, IsJson v) : IsJson (.arr elems)
  | obj {members : List (String × Json)} (hkeys : (members.map Prod.fst).Nodup)
      (h : ∀ m ∈ members, IsJson m.2) : IsJson (.obj members)

theorem solid_dumpAt {v : Json} (hv : IsJson num v) (k : ℕ) : Solid (dumpAt num k v) := by
  cases hv with
  | null => exact ⟨'n', _, by rw [dumpAt], rfl⟩
  | bool b =>
    cases b with
    | false => exact ⟨'f', _, by rw [dumpAt], rfl⟩
    | true => exact ⟨'t', _, by rw [dumpAt], rfl⟩
  | @num q hq =>
    obtain ⟨c, t, ht⟩ := List.exists_cons_of_ne_nil (num.dump_ne_nil hq)
    refine ⟨c, t, by rw [dumpAt, ht], isDelimiter_eq_false (num.dump_chars q c ?_)⟩
    rw [ht]
    exact List.mem_cons_self
  | nonFinite f =>
    cases f with
    | nan => exact ⟨'N', _, by rw [dumpAt], rfl⟩
    | posInf => exact ⟨'I', _, by rw [dumpAt], rfl⟩
    | negInf => exact ⟨'-', _, by rw [dumpAt], rfl⟩
  | str s => exact ⟨'"', _, by rw [dumpAt, dumpString], rfl⟩
  | arr h => exact ⟨'[', _, dumpAt_arr .., rfl⟩
  | obj hkeys h => exact ⟨'{', _, dumpAt_obj .., rfl⟩

theorem solid_dumpMember (key : String) (t : List Char) : Solid (dumpMember key t) :=
  ⟨'"', _, rfl, rfl⟩

theorem scanOnce_scalar {c : Char} (hquote : c ≠ '"') (harr : c ≠ '[') (hobj : c ≠ '{') (n : ℕ)
    (l : List Char) : scanOnce num (n + 1) (c :: l) = scanScalar num (c :: l) := by
  rw [scanOnce]
  · intro _ heq
    exact hquote (List.cons.inj heq).1
  · intro _ heq
    exact harr (List.cons.inj heq).1
  · intro _ heq
    exact hobj (List.cons.inj heq).1

/-- The value is read back at every depth, before a delimiter or at the end of the text. -/
def ReadBack (v : Json) : Prop :=
  ∀ k n l, (dumpAt num k v).length ≤ n → (l = [] ∨ AtDelimiter l) →
    scanOnce num n (dumpAt num k v ++ l) = some (v, l)

theorem readBack_of_scalar {v : Json} {t : List Char} (htext : ∀ k, dumpAt num k v = t)
    (ht : Solid t) (hhead : ∀ c ∈ t.head?, c ≠ '"' ∧ c ≠ '[' ∧ c ≠ '{')
    (h : ∀ l, (l = [] ∨ AtDelimiter l) → scanScalar num (t ++ l) = some (v, l)) :
    ReadBack num v := by
  intro k n l hn hl
  rw [htext] at hn ⊢
  obtain ⟨c, t', rfl, -⟩ := ht
  obtain ⟨n, rfl⟩ := Nat.exists_eq_add_of_le' hn
  obtain ⟨hquote, harr, hobj⟩ := hhead c rfl
  exact (scanOnce_scalar num hquote harr hobj _ _).trans (h l hl)

theorem readBack_str (s : String) : ReadBack num (.str s) := by
  intro k n l hn hl
  have htext : dumpAt num k (.str s) ++ l = '"' :: (s.toList.flatMap escape ++ '"' :: l) := by
    simp [dumpAt, dumpString]
  rw [dumpAt, dumpString, List.length_cons] at hn
  obtain ⟨n, rfl⟩ := Nat.exists_eq_add_of_le' hn
  rw [htext, ← Nat.add_assoc, scanOnce, scanString_dumpString, Option.map_some]

theorem readBack_arr {vs : List Json} (hsolid : ∀ v ∈ vs, ∀ k, Solid (dumpAt num k v))
    (hread : ∀ v ∈ vs, ReadBack num v) : ReadBack num (.arr vs) := by
  intro k n l hn hl
  rw [dumpAt_arr] at hn ⊢
  rw [List.length_cons] at hn
  obtain ⟨hcount, hitem⟩ := length_dumpItems k ']' (vs.map (dumpAt num (k + 1)))
  rw [List.length_map] at hcount
  obtain ⟨n, rfl⟩ : ∃ m, n = m + 1 := ⟨n - 1, by omega⟩
  have hitems : ∀ v ∈ vs, ∀ l', AtDelimiter l' →
      scanOnce num n (dumpAt num (k + 1) v ++ l') = some (v, l') := by
    intro v hv l' hl'
    have hlength := hitem _ (List.mem_map_of_mem hv)
    exact hread v hv (k + 1) n l' (by omega) (Or.inr hl')
  rw [List.cons_append, scanOnce,
    scanBody_dumpItems (Or.inl rfl) (fun v hv => hsolid v hv (k + 1)) hitems k (by omega),
    Option.map_some]

theorem readBack_obj {ms : List (String × Json)} (hkeys : (ms.map Prod.fst).Nodup)
    (hsolid : ∀ m ∈ ms, ∀ k, Solid (dumpAt num k m.2)) (hread : ∀ m ∈ ms, ReadBack num m.2) :
    ReadBack num (.obj ms) := by
  intro k n l hn hl
  rw [dumpAt_obj] at hn ⊢
  rw [List.length_cons] at hn
  obtain ⟨hcount, hitem⟩ := length_dumpItems k '}'
    (ms.map fun m => dumpMember m.1 (dumpAt num (k + 1) m.2))
  rw [List.length_map] at hcount
  obtain ⟨n, rfl⟩ : ∃ m, n = m + 1 := ⟨n - 1, by omega⟩
  have hitems : ∀ m ∈ ms, ∀ l', AtDelimiter l' →
      scanMember (scanOnce num n) (dumpMember m.1 (dumpAt num (k + 1) m.2) ++ l') =
        some (m, l') := by
    intro m hm l' hl'
    have hlength := hitem _ (List.mem_map_of_mem hm)
    rw [dumpMember, List.length_append, List.length_cons, List.length_cons] at hlength
    exact scanMember_dumpMember (hsolid m hm (k + 1))
      (hread m hm (k + 1) n l' (by omega) (Or.inr hl'))
  rw [List.cons_append, scanOnce,
    scanBody_dumpItems (Or.inr rfl) (fun m _ => solid_dumpMember _ _) hitems k (by omega),
    Option.map_some, OrderedDict.entries_ofPairs hkeys]

/-- **A dumped value is read back.** -/
theorem scanOnce_dumpAt {v : Json} (hv : IsJson num v) : ReadBack num v := by
  induction hv with
  | null =>
    exact readBack_of_scalar num (fun _ => by rw [dumpAt]) ⟨_, _, rfl, rfl⟩ (by simp)
      fun _ _ => rfl
  | bool b =>
    cases b <;>
    · exact readBack_of_scalar num (fun _ => by rw [dumpAt]) ⟨_, _, rfl, rfl⟩ (by simp)
        fun _ _ => rfl
  | @num q hq =>
    have htext : ∀ k, dumpAt num k (.num q) = num.dump q := fun k => by rw [dumpAt]
    have hsolid : Solid (num.dump q) := htext 0 ▸ solid_dumpAt num (.num hq) 0
    refine readBack_of_scalar num htext hsolid (fun c hc => ?_) fun l hl => ?_
    · have hchar := num.dump_chars q c (List.mem_of_mem_head? hc)
      refine ⟨?_, ?_, ?_⟩ <;>
      · rintro rfl
        cases hchar
    · rw [scanScalar_number num (num.dump_chars q) hl, num.parse_dump q hq]
      rfl
  | nonFinite f =>
    cases f <;>
    · exact readBack_of_scalar num (fun _ => by rw [dumpAt]) ⟨_, _, rfl, rfl⟩ (by simp)
        fun _ _ => rfl
  | str s => exact readBack_str num s
  | arr hvs ih => exact readBack_arr num (fun v hv => solid_dumpAt num (hvs v hv)) ih
  | obj hkeys hms ih => exact readBack_obj num hkeys (fun m hm => solid_dumpAt num (hms m hm)) ih

/-- **What is loaded is what was dumped.** -/
theorem loads_dump {v : Json} (hv : IsJson num v) : loads num (dump num v) = some v := by
  have hscan := scanOnce_dumpAt num hv 0 _ [] le_rfl (Or.inl rfl)
  rw [List.append_nil] at hscan
  rw [loads, dump, (solid_dumpAt num hv 0).skipSpace, hscan, Option.bind_some]
  exact if_pos rfl

end Json
end Rcsce
