import Rcsce.Lib.Machine

/-!
# Where the facts of a state come from

The states of a machine hold facts, and its labels say some.  When a step brings no fact but
those that its label says, every fact was held at the beginning or has been said by one of the
steps (`held_or_said`).

`held_or_said_foldl` is the same rule for a list of calls that run one after the other, each of
which always can.
-/

namespace Rcsce
namespace Machine

universe u v w

variable {σ : Type u} {ℓ : Type v} {φ : Type w} {step : σ → ℓ → Option σ}
  {Holds : σ → φ → Prop} {Says : σ → ℓ → φ → Prop} {s t : σ} {ls : List ℓ} {f : φ}

variable (step Says) in
/-- One of the steps of the run `ls` from `s` says the fact. -/
def Said (s : σ) (ls : List ℓ) (f : φ) : Prop :=
  ∃ pre l u, pre ++ [l] <+: ls ∧ exec step s pre = some u ∧ Says u l f

theorem Said.head {l : ℓ} (h : Says s l f) : Said step Says s (l :: ls) f :=
  ⟨[], l, s, List.cons_prefix_cons.mpr ⟨rfl, List.nil_prefix⟩, rfl, h⟩

theorem Said.tail {s' : σ} {l : ℓ} (hstep : step s l = some s') (h : Said step Says s' ls f) :
    Said step Says s (l :: ls) f := by
  obtain ⟨pre, m, u, hpre, hexec, hsays⟩ := h
  exact ⟨l :: pre, m, u, List.cons_prefix_cons.mpr ⟨rfl, hpre⟩,
    (exec_cons_of_step step hstep pre).trans hexec, hsays⟩

/-- **The rule of origins.** -/
theorem held_or_said {I : σ → Prop} (hinv : ∀ s l s', I s → step s l = some s' → I s')
    (hstep : ∀ s l s', I s → step s l = some s' → ∀ f, Holds s' f → Holds s f ∨ Says s l f)
    (hs : I s) (h : exec step s ls = some t) (hf : Holds t f) :
    Holds s f ∨ Said step Says s ls f := by
  induction ls generalizing s with
  | nil => exact Or.inl (Option.some.inj h ▸ hf)
  | cons l ls ih =>
    obtain ⟨s', hl, hrest⟩ := (exec_cons_eq_some step).mp h
    rcases ih (hinv s l s' hs hl) hrest with hheld | hsaid
    · exact (hstep s l s' hs hl f hheld).imp_right Said.head
    · exact Or.inr (hsaid.tail hl)

/-- What is held after some calls was held before them, or one of them says it. -/
theorem held_or_said_foldl {κ : Type v} {run : σ → κ → σ} {Says : κ → φ → Prop}
    (hrun : ∀ s c f, Holds (run s c) f → Holds s f ∨ Says c f) (calls : List κ) (s : σ)
    (hf : Holds (calls.foldl run s) f) : Holds s f ∨ ∃ c ∈ calls, Says c f := by
  induction calls generalizing s with
  | nil => exact Or.inl hf
  | cons c calls ih =>
    rcases ih (run s c) hf with hheld | ⟨c', hmem, hsays⟩
    · exact (hrun s c f hheld).imp_right fun hsays => ⟨c, List.mem_cons_self, hsays⟩
    · exact Or.inr ⟨c', List.mem_cons_of_mem _ hmem, hsays⟩

end Machine
end Rcsce
