import Rcsce.Lib.JsonSyntax

/-!
# What a scanner has read

A value that has been read up to a delimiter does not depend on what follows
(`scanOnce_append`), nor on the fuel, of which the length of the text is enough
(`scanOnce_fuel`).  So `Json.loads` rejects a text only for what is in it
(`loads_eq_some_iff`).

Since the text of an object ends with its brace, no part of it that is cut off before the end
loads (`loads_take_dump`).  With a number this is different: a part of `10` loads.
-/

namespace Rcsce
namespace Json

open JsonString

variable (num : NumberText)

/-! ## A value that has been read -/

theorem skipSpace_append {l : List Char} (h : skipSpace l ≠ []) (s : List Char) :
    skipSpace (l ++ s) = skipSpace l ++ s := by
  rw [skipSpace, List.dropWhile_append, if_neg]
  · rfl
  · rwa [List.isEmpty_iff]

theorem expect_eq_some {c : Char} {l l' : List Char} :
    expect c l = some l' ↔ skipSpace l = c :: l' := by
  unfold expect
  split
  · rename_i h
    simp [h]
  · rename_i d l₁ h
    rw [h, List.cons.injEq]
    split_ifs with hd <;> simp [hd]

theorem expect_append {c : Char} {l l' : List Char} (h : expect c l = some l') (s : List Char) :
    expect c (l ++ s) = some (l' ++ s) := by
  rw [expect_eq_some] at h ⊢
  rw [skipSpace_append (by simp [h]), h, List.cons_append]

theorem expect_append_eq_none {c : Char} {l : List Char} (hl : skipSpace l ≠ [])
    (h : expect c l = none) (s : List Char) : expect c (l ++ s) = none := by
  obtain ⟨d, l', hd⟩ := List.exists_cons_of_ne_nil hl
  rw [expect, hd] at h
  rw [expect, skipSpace_append hl, hd, List.cons_append]
  dsimp only at h ⊢
  by_cases hc : d = c
  · rw [if_pos hc] at h
    cases h
  · exact if_neg hc

theorem atDelimiter_of_expect {c : Char} (hc : isDelimiter c = true) {l l' : List Char}
    (h : expect c l = some l') : AtDelimiter l := by
  rw [expect_eq_some] at h
  cases l with
  | nil => cases h
  | cons d l =>
    refine ⟨d, l, rfl, ?_⟩
    by_cases hd : isSpace d = true
    · simp [isDelimiter, hd]
    · rw [skipSpace_cons (Bool.eq_false_of_not_eq_true hd)] at h
      rw [(List.cons.inj h).1, hc]

/-- More text behind what stands after an item. -/
def Next.append : Next → List Char → Next
  | .close l, s => .close (l ++ s)
  | .more l, s => .more (l ++ s)

theorem scanNext_append {close : Char} {l : List Char} {next : Next}
    (h : scanNext close l = some next) (s : List Char) :
    scanNext close (l ++ s) = some (next.append s) := by
  rw [scanNext] at h ⊢
  cases hclose : expect close l with
  | some l' =>
    rw [hclose] at h
    rw [expect_append hclose]
    exact congrArg (fun o => o.map (Next.append · s)) h
  | none =>
    rw [hclose] at h
    obtain ⟨l', hmore, rfl⟩ := Option.map_eq_some_iff.mp h
    have hskip := expect_eq_some.mp hmore
    rw [expect_append_eq_none (by simp [hskip]) hclose, expect_append hmore]
    rfl

theorem atDelimiter_of_scanNext {close : Char} (hclose : isDelimiter close = true)
    {l : List Char} {next : Next} (h : scanNext close l = some next) : AtDelimiter l := by
  rw [scanNext] at h
  cases hexpect : expect close l with
  | some l' => exact atDelimiter_of_expect hclose hexpect
  | none =>
    rw [hexpect] at h
    obtain ⟨l', hmore, -⟩ := Option.map_eq_some_iff.mp h
    exact atDelimiter_of_expect rfl hmore

section Items

variable {α : Type} {item item' : List Char → Option (α × List Char)} {close : Char}

theorem scanItems_append (hclose : isDelimiter close = true) (hnil : item [] = none)
    {s : List Char}
    (hitem : ∀ l x r, item l = some (x, r) → AtDelimiter r → item' (l ++ s) = some (x, r ++ s))
    {n m : ℕ} (hnm : n ≤ m) {l r : List Char} {xs : List α}
    (h : scanItems item close n l = some (xs, r)) :
    scanItems item' close m (l ++ s) = some (xs, r ++ s) := by
  induction n generalizing m l xs with
  | zero => cases h
  | succ n ih =>
    obtain ⟨m, rfl⟩ := Nat.exists_eq_succ_of_ne_zero (Nat.ne_of_gt (Nat.zero_lt_of_lt hnm))
    obtain ⟨x, l₁, hx, hnext⟩ := scanItems_succ_cases h
    have hskip : skipSpace l ≠ [] := by
      intro heq
      rw [heq, hnil] at hx
      cases hx
    have hx' : ∀ next, scanNext close l₁ = some next →
        item' (skipSpace (l ++ s)) = some (x, l₁ ++ s) := by
      intro next hnext
      rw [skipSpace_append hskip]
      exact hitem _ x l₁ hx (atDelimiter_of_scanNext hclose hnext)
    rcases hnext with ⟨hlast, rfl⟩ | ⟨l', ys, hmore, hys, rfl⟩
    · exact scanItems_close (hx' _ hlast) (scanNext_append hlast s)
    · exact scanItems_more (hx' _ hmore) (scanNext_append hmore s)
        (ih (Nat.le_of_succ_le_succ hnm) hys)

theorem scanBody_append (hclose : isDelimiter close = true) (hnil : item [] = none)
    {s : List Char}
    (hitem : ∀ l x r, item l = some (x, r) → AtDelimiter r → item' (l ++ s) = some (x, r ++ s))
    {n m : ℕ} (hnm : n ≤ m) {l r : List Char} {xs : List α}
    (h : scanBody item close n l = some (xs, r)) :
    scanBody item' close m (l ++ s) = some (xs, r ++ s) := by
  rw [scanBody] at h ⊢
  cases hexpect : expect close l with
  | some l' =>
    rw [hexpect] at h
    cases h
    rw [expect_append hexpect]
  | none =>
    rw [hexpect] at h
    have hskip : skipSpace l ≠ [] := by
      intro heq
      cases n with
      | zero => cases h
      | succ n =>
        dsimp only at h
        rw [scanItems, heq, hnil] at h
        cases h
    rw [expect_append_eq_none hskip hexpect]
    exact scanItems_append hclose hnil hitem hnm h

end Items

theorem scanMember_append {value value' : List Char → Option (Json × List Char)} {s : List Char}
    (hnil : value [] = none)
    (hvalue : ∀ l v r, value l = some (v, r) → AtDelimiter r →
      value' (l ++ s) = some (v, r ++ s))
    {l r : List Char} {m : String × Json} (h : scanMember value l = some (m, r))
    (hr : AtDelimiter r) : scanMember value' (l ++ s) = some (m, r ++ s) := by
  unfold scanMember at h
  split at h
  · rename_i l
    obtain ⟨⟨key, l₁⟩, hkey, hrest⟩ := Option.bind_eq_some_iff.mp h
    obtain ⟨l₂, hcolon, hrest⟩ := Option.bind_eq_some_iff.mp hrest
    obtain ⟨⟨v, r'⟩, hv, heq⟩ := Option.map_eq_some_iff.mp hrest
    cases heq
    have hskip : skipSpace l₂ ≠ [] := by
      intro heq
      rw [heq, hnil] at hv
      cases hv
    rw [List.cons_append, scanMember, scanString_append hkey, Option.bind_some,
      expect_append hcolon, Option.bind_some, skipSpace_append hskip, hvalue _ v _ hv hr,
      Option.map_some]
  · cases h

theorem scanScalar_append {l r s : List Char} {v : Json} (h : scanScalar num l = some (v, r))
    (hr : AtDelimiter r) : scanScalar num (l ++ s) = some (v, r ++ s) := by
  rw [scanScalar] at h
  cases hword : scanWord l with
  | some w =>
    rw [hword, Option.some_or, Option.some.injEq] at h
    have happend : scanWord (l ++ s) = some (v, r ++ s) := by
      unfold scanWord at hword
      split at hword <;> cases hword <;> cases h <;> rfl
    rw [scanScalar, happend, Option.some_or]
  | none =>
    rw [hword, Option.none_or] at h
    obtain ⟨q, hq, heq⟩ := Option.map_eq_some_iff.mp h
    cases heq
    have hsplit := List.takeWhile_append_dropWhile (p := isNumberChar) (l := l)
    have hdelimiter : AtDelimiter (l.dropWhile isNumberChar ++ s) := by
      obtain ⟨c, l', hl', hc⟩ := hr
      exact ⟨c, l' ++ s, by rw [hl', List.cons_append], hc⟩
    have htake : ∀ c ∈ l.takeWhile isNumberChar, isNumberChar c = true := fun c hc =>
      List.mem_takeWhile_imp hc
    rw [← hsplit, List.append_assoc, scanScalar_number num htake (Or.inr hdelimiter), hsplit, hq,
      Option.map_some]

theorem scanScalar_ne_obj {l r : List Char} {ms : List (String × Json)} :
    scanScalar num l ≠ some (.obj ms, r) := by
  intro h
  rw [scanScalar] at h
  cases hword : scanWord l with
  | some w =>
    rw [hword, Option.some_or, Option.some.injEq] at h
    unfold scanWord at hword
    split at hword <;> cases hword <;> cases h
  | none =>
    rw [hword, Option.none_or] at h
    obtain ⟨q, -, heq⟩ := Option.map_eq_some_iff.mp h
    cases heq

theorem scanOnce_nil (n : ℕ) : scanOnce num n [] = none := by
  cases n with
  | zero => rfl
  | succ n =>
    show (num.parse []).map _ = none
    rw [num.parse_nil, Option.map_none]

/-- What `scan_once` has read, branch by branch. -/
inductive Scanned (n : ℕ) : List Char → Json → List Char → Prop
  | str {l r : List Char} {s : String} (h : scanString l = some (s, r)) :
      Scanned n ('"' :: l) (.str s) r
  | arr {l r : List Char} {vs : List Json}
      (h : scanBody (scanOnce num n) ']' n l = some (vs, r)) : Scanned n ('[' :: l) (.arr vs) r
  | obj {l r : List Char} {ms : List (String × Json)}
      (h : scanBody (scanMember (scanOnce num n)) '}' n l = some (ms, r)) :
      Scanned n ('{' :: l) (.obj (OrderedDict.ofPairs ms).entries) r
  | scalar {c : Char} {l r : List Char} {v : Json} (hquote : c ≠ '"') (harr : c ≠ '[')
      (hobj : c ≠ '{') (h : scanScalar num (c :: l) = some (v, r)) : Scanned n (c :: l) v r

theorem scanOnce_cases {n : ℕ} {l r : List Char} {v : Json}
    (h : scanOnce num (n + 1) l = some (v, r)) : Scanned num n l v r := by
  rcases l with _ | ⟨c, l⟩
  · rw [scanOnce_nil] at h
    cases h
  by_cases hquote : c = '"'
  · subst hquote
    rw [scanOnce] at h
    obtain ⟨⟨s, r'⟩, hs, heq⟩ := Option.map_eq_some_iff.mp h
    cases heq
    exact .str hs
  by_cases harr : c = '['
  · subst harr
    rw [scanOnce] at h
    obtain ⟨⟨vs, r'⟩, hvs, heq⟩ := Option.map_eq_some_iff.mp h
    cases heq
    exact .arr hvs
  by_cases hobj : c = '{'
  · subst hobj
    rw [scanOnce] at h
    obtain ⟨⟨ms, r'⟩, hms, heq⟩ := Option.map_eq_some_iff.mp h
    cases heq
    exact .obj hms
  · rw [scanOnce_scalar num hquote harr hobj] at h
    exact .scalar hquote harr hobj h

/-- **A value that has been read does not depend on what follows**, if it is an object or a
delimiter stands behind it; nor does it on the fuel. -/
theorem scanOnce_append {n m : ℕ} (hnm : n ≤ m) {l r : List Char} {v : Json}
    (h : scanOnce num n l = some (v, r)) (hr : AtDelimiter r ∨ ∃ ms, v = .obj ms)
    (s : List Char) : scanOnce num m (l ++ s) = some (v, r ++ s) := by
  induction n generalizing m l r v with
  | zero => cases h
  | succ n ih =>
    obtain ⟨m, rfl⟩ := Nat.exists_eq_succ_of_ne_zero (Nat.ne_of_gt (Nat.zero_lt_of_lt hnm))
    have hvalue : ∀ l v r, scanOnce num n l = some (v, r) → AtDelimiter r →
        scanOnce num m (l ++ s) = some (v, r ++ s) := fun l v r hv hr' =>
      ih (Nat.le_of_succ_le_succ hnm) hv (Or.inl hr')
    cases scanOnce_cases num h with
    | str hs => rw [List.cons_append, scanOnce, scanString_append hs, Option.map_some]
    | arr hvs =>
      rw [List.cons_append, scanOnce, Option.map_eq_some_iff]
      exact ⟨_, scanBody_append rfl (scanOnce_nil num n) hvalue (Nat.le_of_succ_le_succ hnm) hvs,
        rfl⟩
    | obj hms =>
      have hmember : ∀ l e r, scanMember (scanOnce num n) l = some (e, r) → AtDelimiter r →
          scanMember (scanOnce num m) (l ++ s) = some (e, r ++ s) := fun l e r he hr' =>
        scanMember_append (scanOnce_nil num n) hvalue he hr'
      rw [List.cons_append, scanOnce, Option.map_eq_some_iff]
      exact ⟨_, scanBody_append rfl rfl hmember (Nat.le_of_succ_le_succ hnm) hms, rfl⟩
    | scalar hquote harr hobj hscalar =>
      rw [List.cons_append, scanOnce_scalar num hquote harr hobj]
      rcases hr with hr | ⟨ms, rfl⟩
      · exact scanScalar_append num hscalar hr
      · exact absurd hscalar (scanScalar_ne_obj num)

/-! ## The fuel -/

theorem length_skipSpace_le (l : List Char) : (skipSpace l).length ≤ l.length :=
  (List.dropWhile_suffix _).length_le

theorem length_expect {c : Char} {l l' : List Char} (h : expect c l = some l') :
    l'.length < l.length := by
  have hlength := length_skipSpace_le l
  rw [expect_eq_some.mp h, List.length_cons] at hlength
  omega

/-- The text after what stands after an item. -/
def Next.text : Next → List Char
  | .close l => l
  | .more l => l

theorem length_scanNext {close : Char} {l : List Char} {next : Next}
    (h : scanNext close l = some next) : next.text.length < l.length := by
  rw [scanNext] at h
  cases hclose : expect close l with
  | some l' =>
    rw [hclose] at h
    cases h
    exact length_expect hclose
  | none =>
    rw [hclose] at h
    obtain ⟨l', hmore, rfl⟩ := Option.map_eq_some_iff.mp h
    exact length_expect hmore

section Items

variable {α : Type} {item item' : List Char → Option (α × List Char)} {close : Char} {k : ℕ}

theorem scanItems_fuel
    (hitem : ∀ l x r, item l = some (x, r) →
      r.length < l.length ∧ (l.length ≤ k → item' l = some (x, r)))
    {n : ℕ} {l r : List Char} {xs : List α} (h : scanItems item close n l = some (xs, r)) :
    r.length < l.length ∧
      ∀ m, l.length ≤ m → l.length ≤ k → scanItems item' close m l = some (xs, r) := by
  induction n generalizing l xs with
  | zero => cases h
  | succ n ih =>
    obtain ⟨x, l₁, hx, hnext⟩ := scanItems_succ_cases h
    have hskip := length_skipSpace_le l
    obtain ⟨hlt, hx'⟩ := hitem _ x l₁ hx
    rcases hnext with ⟨hlast, rfl⟩ | ⟨l', ys, hmore, hys, rfl⟩
    · have hlt' := length_scanNext hlast
      rw [Next.text] at hlt'
      refine ⟨by omega, fun m hm hk => ?_⟩
      obtain ⟨m, rfl⟩ := Nat.exists_eq_succ_of_ne_zero (show m ≠ 0 by omega)
      exact scanItems_close (hx' (by omega)) hlast
    · have hlt' := length_scanNext hmore
      rw [Next.text] at hlt'
      obtain ⟨hr, hagain⟩ := ih hys
      refine ⟨by omega, fun m hm hk => ?_⟩
      obtain ⟨m, rfl⟩ := Nat.exists_eq_succ_of_ne_zero (show m ≠ 0 by omega)
      exact scanItems_more (hx' (by omega)) hmore (hagain m (by omega) (by omega))

theorem scanBody_fuel
    (hitem : ∀ l x r, item l = some (x, r) →
      r.length < l.length ∧ (l.length ≤ k → item' l = some (x, r)))
    {n : ℕ} {l r : List Char} {xs : List α} (h : scanBody item close n l = some (xs, r)) :
    r.length < l.length ∧
      ∀ m, l.length ≤ m → l.length ≤ k → scanBody item' close m l = some (xs, r) := by
  simp only [scanBody] at h ⊢
  cases hexpect : expect close l with
  | some l' =>
    rw [hexpect] at h
    cases h
    exact ⟨length_expect hexpect, fun _ _ _ => rfl⟩
  | none =>
    rw [hexpect] at h
    exact scanItems_fuel hitem h

end Items

theorem scanMember_fuel {value value' : List Char → Option (Json × List Char)} {k : ℕ}
    (hvalue : ∀ l v r, value l = some (v, r) →
      r.length < l.length ∧ (l.length ≤ k → value' l = some (v, r)))
    {l r : List Char} {m : String × Json} (h : scanMember value l = some (m, r)) :
    r.length < l.length ∧ (l.length ≤ k → scanMember value' l = some (m, r)) := by
  unfold scanMember at h
  split at h
  · rename_i l
    obtain ⟨⟨key, l₁⟩, hkey, hrest⟩ := Option.bind_eq_some_iff.mp h
    dsimp only at hrest
    obtain ⟨l₂, hcolon, hrest⟩ := Option.bind_eq_some_iff.mp hrest
    obtain ⟨⟨v, r'⟩, hv, heq⟩ := Option.map_eq_some_iff.mp hrest
    dsimp only at heq
    cases heq
    have hstring := length_scanString hkey
    have hlength := length_expect hcolon
    have hskip := length_skipSpace_le l₂
    obtain ⟨hlt, hv'⟩ := hvalue _ v _ hv
    rw [List.length_cons]
    refine ⟨by omega, fun hk => ?_⟩
    rw [scanMember, hkey, Option.bind_some, hcolon, Option.bind_some, hv' (by omega),
      Option.map_some]
  · cases h

theorem length_scanScalar {l r : List Char} {v : Json} (h : scanScalar num l = some (v, r)) :
    r.length < l.length := by
  rw [scanScalar] at h
  cases hword : scanWord l with
  | some w =>
    rw [hword, Option.some_or, Option.some.injEq] at h
    unfold scanWord at hword
    split at hword <;> cases hword <;> cases h <;> simp only [List.length_cons] <;> omega
  | none =>
    rw [hword, Option.none_or] at h
    obtain ⟨q, hq, heq⟩ := Option.map_eq_some_iff.mp h
    cases heq
    have hpos : 0 < (l.takeWhile isNumberChar).length := by
      rw [List.length_pos_iff]
      intro hnil
      rw [hnil, num.parse_nil] at hq
      cases hq
    have hsplit := congrArg List.length
      (List.takeWhile_append_dropWhile (p := isNumberChar) (l := l))
    rw [List.length_append] at hsplit
    omega

/-- **The length of the text is enough fuel**: what any fuel reads, it reads. -/
theorem scanOnce_fuel {n : ℕ} {l r : List Char} {v : Json}
    (h : scanOnce num n l = some (v, r)) :
    r.length < l.length ∧ ∀ m, l.length ≤ m → scanOnce num m l = some (v, r) := by
  induction n generalizing l r v with
  | zero => cases h
  | succ n ih =>
    have hvalue : ∀ k l v r, scanOnce num n l = some (v, r) →
        r.length < l.length ∧ (l.length ≤ k → scanOnce num k l = some (v, r)) := fun k l v r hv =>
      ⟨(ih hv).1, (ih hv).2 k⟩
    have hmember : ∀ k l e r, scanMember (scanOnce num n) l = some (e, r) →
        r.length < l.length ∧ (l.length ≤ k → scanMember (scanOnce num k) l = some (e, r)) :=
      fun k l e r he => scanMember_fuel (hvalue k) he
    have hfuel : ∀ (c : Char) (l : List Char) (m : ℕ), (c :: l).length ≤ m →
        ∃ m', m = m' + 1 ∧ l.length ≤ m' := fun c l m hm => by
      rw [List.length_cons] at hm
      exact ⟨m - 1, by omega, by omega⟩
    cases scanOnce_cases num h with
    | str hs =>
      refine ⟨Nat.lt_succ_of_lt (length_scanString hs), fun m hm => ?_⟩
      obtain ⟨m, rfl, -⟩ := hfuel _ _ m hm
      rw [scanOnce, hs, Option.map_some]
    | arr hvs =>
      refine ⟨Nat.lt_succ_of_lt (scanBody_fuel (hvalue 0) hvs).1, fun m hm => ?_⟩
      obtain ⟨m, rfl, hle⟩ := hfuel _ _ m hm
      rw [scanOnce, (scanBody_fuel (hvalue m) hvs).2 m hle hle, Option.map_some]
    | obj hms =>
      refine ⟨Nat.lt_succ_of_lt (scanBody_fuel (hmember 0) hms).1, fun m hm => ?_⟩
      obtain ⟨m, rfl, hle⟩ := hfuel _ _ m hm
      rw [scanOnce, (scanBody_fuel (hmember m) hms).2 m hle hle, Option.map_some]
    | scalar hquote harr hobj hscalar =>
      refine ⟨length_scanScalar num hscalar, fun m hm => ?_⟩
      obtain ⟨m, rfl, -⟩ := hfuel _ _ m hm
      rw [scanOnce_scalar num hquote harr hobj, hscalar]

/-- A text loads when some fuel reads a value in it, and only space is left. -/
theorem loads_eq_some_iff {text : List Char} {v : Json} :
    loads num text = some v ↔
      ∃ n r, scanOnce num n (skipSpace text) = some (v, r) ∧ skipSpace r = [] := by
  rw [loads, Option.bind_eq_some_iff]
  constructor
  · rintro ⟨⟨w, r⟩, hscan, hrest⟩
    dsimp only at hrest
    split_ifs at hrest with hspace
    cases hrest
    exact ⟨_, r, hscan, hspace⟩
  · rintro ⟨n, r, hscan, hspace⟩
    exact ⟨(v, r), (scanOnce_fuel num hscan).2 _ (length_skipSpace_le text), if_pos hspace⟩

/-! ## A text that is cut off -/

theorem scanOnce_obj {n : ℕ} {l r : List Char} {v : Json}
    (h : scanOnce num n ('{' :: l) = some (v, r)) : ∃ ms, v = .obj ms := by
  cases n with
  | zero => cases h
  | succ n =>
    cases scanOnce_cases num h with
    | obj hms => exact ⟨_, rfl⟩
    | scalar hquote harr hobj hscalar => exact absurd rfl hobj

/-- **No part of the text of an object loads that ends before the text.** -/
theorem loads_take_dump {ms : List (String × Json)} (hv : IsJson num (.obj ms)) {k : ℕ}
    (hk : k < (dump num (.obj ms)).length) :
    loads num ((dump num (.obj ms)).take k) = none := by
  have htext : ∃ l, dump num (.obj ms) = '{' :: l := ⟨_, dumpAt_obj num 0 ms⟩
  cases hloads : loads num ((dump num (.obj ms)).take k) with
  | none => rfl
  | some w =>
    exfalso
    obtain ⟨n, r, hscan, -⟩ := (loads_eq_some_iff num).mp hloads
    have hsplit := List.take_append_drop k (dump num (.obj ms))
    cases k with
    | zero => exact nomatch (scanOnce_nil num n).symm.trans hscan
    | succ k =>
      obtain ⟨l, hl⟩ := htext
      have htake : (dump num (.obj ms)).take (k + 1) = '{' :: l.take k := by
        rw [hl, List.take_succ_cons]
      rw [htake, skipSpace_cons rfl] at hscan
      -- what was read of the part is read of the whole, and leaves what was cut off
      have hwhole := scanOnce_append num (Nat.le_max_left n (dump num (.obj ms)).length) hscan
        (Or.inr (scanOnce_obj num hscan)) ((dump num (.obj ms)).drop (k + 1))
      rw [← htake, hsplit] at hwhole
      have hdump := scanOnce_dumpAt num hv 0 _ [] (Nat.le_max_right n _) (Or.inl rfl)
      rw [List.append_nil] at hdump
      have hrest := (Prod.mk.inj (Option.some.inj (hwhole.symm.trans hdump))).2
      have hdrop := List.length_eq_zero_iff.mpr (List.append_eq_nil_iff.mp hrest).2
      rw [List.length_drop] at hdrop
      omega

end Json
end Rcsce
