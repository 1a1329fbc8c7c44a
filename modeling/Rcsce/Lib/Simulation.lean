import Mathlib

/-!
# Machines that report, and simulation

A step of these machines takes a label, which is what a client asks for, and returns the next
state with a report, which is what the client sees; `none` says that it may not ask for this
now.  `reports` is all that a client sees of a run.

A relation between the states of two machines is a *simulation* when related states answer
every request alike: both refuse it, or both take it with the same report and are related
afterwards.  Related states then show a client the same (`Simulates.reports_eq`), and a
simulation of a common third machine makes two machines interchangeable.
-/

namespace Rcsce
namespace Reporting

universe u v w x

variable {σ : Type u} {τ : Type v} {ℓ : Type w} {ρ : Type x}

/-- What a client sees of the run `ls` from `s`. -/
def reports (step : σ → ℓ → Option (σ × ρ)) : σ → List ℓ → Option (List ρ)
  | _, [] => some []
  | s, l :: ls => (step s l).bind fun r => (reports step r.1 ls).map (r.2 :: ·)

/-- The answers of two machines to one request. -/
inductive SameAnswer (R : σ → τ → Prop) : Option (σ × ρ) → Option (τ × ρ) → Prop
  | refused : SameAnswer R none none
  | taken {s : σ} {t : τ} (r : ρ) (h : R s t) : SameAnswer R (some (s, r)) (some (t, r))

/-- Related states answer every request alike. -/
def Simulates (step : σ → ℓ → Option (σ × ρ)) (step' : τ → ℓ → Option (τ × ρ))
    (R : σ → τ → Prop) : Prop :=
  ∀ s t l, R s t → SameAnswer R (step s l) (step' t l)

/-- Related states show the same. -/
theorem Simulates.reports_eq {step : σ → ℓ → Option (σ × ρ)} {step' : τ → ℓ → Option (τ × ρ)}
    {R : σ → τ → Prop} (h : Simulates step step' R) {s : σ} {t : τ} (hst : R s t) (ls : List ℓ) :
    reports step s ls = reports step' t ls := by
  induction ls generalizing s t with
  | nil => rfl
  | cons l ls ih =>
    have hanswer := h s t l hst
    rw [reports, reports]
    generalize step s l = answer at hanswer ⊢
    generalize step' t l = answer' at hanswer ⊢
    cases hanswer with
    | refused => rfl
    | taken r hnext => exact congrArg (Option.map (r :: ·)) (ih hnext)

end Reporting
end Rcsce
