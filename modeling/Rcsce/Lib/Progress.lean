import Rcsce.Lib.Machine

/-!
# Runs that get somewhere

A machine may be able to go on only by what its own parts do, and not by what comes from
outside.  `Reaches step L s t` says that it can get from `s` to `t` by such steps alone, where
`L` says of a state and a label whether the step is one of them.

* `reaches_of_measure` is the rule by which such a run is found: as long as there is something
  left to do, some step with `L` leaves less.
* `Reaches.invariant` is the induction over it.
* `countP_add_le` bounds how often something can happen in any run, however its steps are
  ordered: as often as a measure allows that falls each time and never rises.
* `Reaches.lift` takes a run of one part of a machine to a run of the whole: every step of the
  part has to be one that the whole can take.
-/

namespace Rcsce
namespace Machine

universe u v u' v'

variable {σ : Type u} {ℓ : Type v} {step : σ → ℓ → Option σ} {L : σ → ℓ → Prop} {s t r : σ}

variable (step L) in
/-- One of the steps leads from `s` to `t`. -/
def Goes (s t : σ) : Prop := ∃ l, L s l ∧ step s l = some t

variable (step L) in
/-- The steps lead from `s` to `t`. -/
def Reaches : σ → σ → Prop := Relation.ReflTransGen (Goes step L)

theorem Reaches.refl (s : σ) : Reaches step L s s := Relation.ReflTransGen.refl

theorem Reaches.head {l : ℓ} (hl : L s l) (h : step s l = some t) (h' : Reaches step L t r) :
    Reaches step L s r :=
  Relation.ReflTransGen.head ⟨l, hl, h⟩ h'

theorem Reaches.single {l : ℓ} (hl : L s l) (h : step s l = some t) : Reaches step L s t :=
  Relation.ReflTransGen.single ⟨l, hl, h⟩

theorem Reaches.trans (h : Reaches step L s t) (h' : Reaches step L t r) : Reaches step L s r :=
  Relation.ReflTransGen.trans h h'

/-- More steps lead wherever fewer do. -/
theorem Reaches.mono {L' : σ → ℓ → Prop} (hL : ∀ s l, L s l → L' s l) (h : Reaches step L s t) :
    Reaches step L' s t :=
  Relation.ReflTransGen.mono (fun _ _ ⟨l, hl, hstep⟩ => ⟨l, hL _ l hl, hstep⟩) _ _ h

/-- What the steps keep lasts. -/
theorem Reaches.invariant {I : σ → Prop}
    (hstep : ∀ s l s', I s → L s l → step s l = some s' → I s') (h : Reaches step L s t)
    (hs : I s) : I t := by
  induction h with
  | refl => exact hs
  | tail _ hgoes ih =>
    obtain ⟨l, hl, hlast⟩ := hgoes
    exact hstep _ l _ ih hl hlast

/-- **The rule of the measure.** -/
theorem reaches_of_measure {I : σ → Prop} (μ : σ → ℕ)
    (hstep : ∀ s, I s → 0 < μ s → ∃ l t, L s l ∧ step s l = some t ∧ I t ∧ μ t < μ s)
    (hs : I s) : ∃ t, Reaches step L s t ∧ I t ∧ μ t = 0 := by
  induction hn : μ s using Nat.strong_induction_on generalizing s with
  | _ n ih =>
    rcases Nat.eq_zero_or_pos (μ s) with hzero | hpos
    · exact ⟨s, .refl s, hs, hzero⟩
    · obtain ⟨l, t, hl, ht, hIt, hlt⟩ := hstep s hs hpos
      obtain ⟨r, hr, hIr, hzero⟩ := ih (μ t) (hn ▸ hlt) hIt rfl
      exact ⟨r, hr.head hl ht, hIr, hzero⟩

/-- **The rule of the count.**  `C` is a condition on the labels of the run. -/
theorem countP_add_le {I : σ → Prop} {C : ℓ → Prop} (p : ℓ → Bool) (μ : σ → ℕ)
    (hstep : ∀ s l s', I s → C l → step s l = some s' →
      I s' ∧ (if p l then 1 else 0) + μ s' ≤ μ s)
    {ls : List ℓ} (hs : I s) (hls : ∀ l ∈ ls, C l) (h : exec step s ls = some t) :
    I t ∧ ls.countP p + μ t ≤ μ s := by
  induction ls generalizing s with
  | nil =>
    obtain rfl := Option.some.inj h
    exact ⟨hs, by rw [List.countP_nil, zero_add]⟩
  | cons l ls ih =>
    obtain ⟨s', hl, hrest⟩ := (exec_cons_eq_some step).mp h
    obtain ⟨hs', hle⟩ := hstep s l s' hs (hls l List.mem_cons_self) hl
    obtain ⟨ht, hcount⟩ := ih hs' (fun l' hl' => hls l' (List.mem_cons_of_mem _ hl')) hrest
    refine ⟨ht, ?_⟩
    rw [List.countP_cons]
    omega

/-- **The rule of the part.**  `part` is the part of a state of the whole, `L'` are the steps of
the whole that may be taken, and `J` is an invariant of these. -/
theorem Reaches.lift {τ : Type u'} {κ : Type v'} {step' : τ → κ → Option τ} {L' : τ → κ → Prop}
    {J : τ → Prop} (part : τ → σ)
    (hstep : ∀ a l s', J a → L (part a) l → step (part a) l = some s' →
      ∃ k b, L' a k ∧ step' a k = some b ∧ J b ∧ part b = s')
    {a : τ} (h : Reaches step L (part a) t) (ha : J a) :
    ∃ b, Reaches step' L' a b ∧ J b ∧ part b = t := by
  induction h with
  | refl => exact ⟨a, .refl a, ha, rfl⟩
  | tail _ hgoes ih =>
    obtain ⟨b, hb, hJ, rfl⟩ := ih
    obtain ⟨l, hl, hlast⟩ := hgoes
    obtain ⟨k, c, hk, hc, hJc, hpart⟩ := hstep b l _ hJ hl hlast
    exact ⟨c, hb.trans (.single hk hc), hJc, hpart⟩

end Machine
end Rcsce
