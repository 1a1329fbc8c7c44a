import Rcsce.Lib.Machine

/-!
# First come, first served

A machine serves a line in order when each of its steps lets some of the first leave and some
new ones join at the end.

* `InLine line joins leaves s l s'` says this of one step, as an equation between lists.
* `exec_inLine` is the same equation for a run: the line at its beginning, with all that joined,
  is all that left, with the line at its end.  So who stands at some place leaves as the one of
  that number, whoever has joined meanwhile.
-/

namespace Rcsce
namespace Machine

universe u v w

variable {σ : Type u} {ℓ : Type v} {β : Type w} {step : σ → ℓ → Option σ}
variable (line : σ → List β) (joins leaves : σ → ℓ → List β)

/-- The step serves the line in order. -/
def InLine (s : σ) (l : ℓ) (s' : σ) : Prop := line s ++ joins s l = leaves s l ++ line s'

variable {line joins leaves}

/-- A machine that serves the line in order, as long as it keeps an invariant. -/
theorem exec_inLine {I : σ → Prop} (hinv : ∀ s l s', I s → step s l = some s' → I s')
    (hline : ∀ s l s', I s → step s l = some s' → InLine line joins leaves s l s')
    {s t : σ} {ls : List ℓ} (hs : I s) (h : exec step s ls = some t) :
    line s ++ gather step joins s ls = gather step leaves s ls ++ line t := by
  induction ls generalizing s with
  | nil =>
    cases h
    exact List.append_nil _
  | cons l ls ih =>
    obtain ⟨s', hl, hrest⟩ := (exec_cons_eq_some step).mp h
    have hone : line s ++ joins s l = leaves s l ++ line s' := hline s l s' hs hl
    rw [gather_cons_of_step joins hl, gather_cons_of_step leaves hl]
    calc line s ++ (joins s l ++ gather step joins s' ls)
        = (line s ++ joins s l) ++ gather step joins s' ls := (List.append_assoc _ _ _).symm
      _ = leaves s l ++ (line s' ++ gather step joins s' ls) := by rw [hone, List.append_assoc]
      _ = leaves s l ++ gather step leaves s' ls ++ line t := by
          rw [ih (hinv s l s' hs hl) hrest, List.append_assoc]

end Machine
end Rcsce
