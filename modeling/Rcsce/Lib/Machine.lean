import Mathlib

/-!
# Runs of a machine whose labels carry the nondeterminism

A machine is a step function `step : σ → ℓ → Option σ`: the label says which of
the possible things happens next, and `none` says that it cannot happen in that
state.  A run is a list of labels.  Interleavings, crashes, message loss and
oracle answers are all read off the labels, so a run can be evaluated and a
counterexample is a list.

* `exec step s ls` is the state after the run, or `none` when a label is not
  enabled.
* `Visits step P s ls` says that `P` holds in every state the run passes
  through, the first and the last included.
* `Meets step C s ls` says that every step of the run satisfies `C`, a relation
  between the state before, the label and the state after.
* `Path step path` says that `path` is a run without an end.
* `gather step f s ls` is what `f` says of the steps of the run, one after the other.

The rules come in four forms.  `exec_invariant` is the plain induction.
`visits_of_meets` is the induction for a property that
survives only the steps satisfying a condition.  `visits_iff_meets` is the exact
form: when a step from a good state leads to a good state *iff* it satisfies the
condition, a run stays good iff all its steps satisfy it.  `meets_iff_meets` is the
exact form for a property of steps.
-/

namespace Rcsce
namespace Machine

universe u v

variable {σ : Type u} {ℓ : Type v} (step : σ → ℓ → Option σ)

/-- The state after the run `ls` from `s`. -/
def exec : σ → List ℓ → Option σ
  | s, [] => some s
  | s, l :: ls => (step s l).bind fun s' => exec s' ls

@[simp] theorem exec_nil (s : σ) : exec step s [] = some s := rfl

theorem exec_cons (s : σ) (l : ℓ) (ls : List ℓ) :
    exec step s (l :: ls) = (step s l).bind fun s' => exec step s' ls := rfl

theorem exec_cons_of_step {s s' : σ} {l : ℓ} (h : step s l = some s') (ls : List ℓ) :
    exec step s (l :: ls) = exec step s' ls := by
  rw [exec_cons, h, Option.bind_some]

/-- A run that gets to an end has a first step and a rest. -/
theorem exec_cons_eq_some {s t : σ} {l : ℓ} {ls : List ℓ} :
    exec step s (l :: ls) = some t ↔
      ∃ s', step s l = some s' ∧ exec step s' ls = some t := by
  rw [exec_cons, Option.bind_eq_some_iff]

/-- A run in two parts. -/
theorem exec_append (s : σ) (ls ls' : List ℓ) :
    exec step s (ls ++ ls') = (exec step s ls).bind fun t => exec step t ls' := by
  induction ls generalizing s with
  | nil => rfl
  | cons l ls ih =>
    rw [List.cons_append, exec_cons, exec_cons, Option.bind_assoc]
    exact congrArg _ (funext fun s' => ih s')

/-! ## Properties of all states and of all steps of a run -/

/-- `P` holds in every state that the run `ls` from `s` passes through. -/
def Visits (P : σ → Prop) (s : σ) (ls : List ℓ) : Prop :=
  ∀ pre, pre <+: ls → ∀ t, exec step s pre = some t → P t

/-- Every step of the run `ls` from `s` satisfies `C`. -/
def Meets (C : σ → ℓ → σ → Prop) (s : σ) (ls : List ℓ) : Prop :=
  ∀ pre l, pre ++ [l] <+: ls → ∀ t t', exec step s pre = some t → step t l = some t' → C t l t'

variable {step}

theorem visits_nil {P : σ → Prop} {s : σ} : Visits step P s [] ↔ P s := by
  constructor
  · intro h
    exact h [] List.nil_prefix s rfl
  · intro h pre hpre t ht
    rw [List.prefix_nil.mp hpre, exec_nil] at ht
    exact Option.some.inj ht ▸ h

theorem Visits.head {P : σ → Prop} {s : σ} {ls : List ℓ} (h : Visits step P s ls) : P s :=
  h [] List.nil_prefix s rfl

theorem Visits.tail {P : σ → Prop} {s s' : σ} {l : ℓ} {ls : List ℓ}
    (h : Visits step P s (l :: ls)) (hstep : step s l = some s') : Visits step P s' ls := by
  intro pre hpre t ht
  refine h (l :: pre) ?_ t ?_
  · exact List.cons_prefix_cons.mpr ⟨rfl, hpre⟩
  · rw [exec_cons_of_step step hstep, ht]

theorem Visits.cons {P : σ → Prop} {s : σ} {l : ℓ} {ls : List ℓ} (hs : P s)
    (h : ∀ s', step s l = some s' → Visits step P s' ls) : Visits step P s (l :: ls) := by
  intro pre hpre t ht
  rcases pre with _ | ⟨m, pre⟩
  · rw [exec_nil] at ht
    exact Option.some.inj ht ▸ hs
  · obtain ⟨rfl, hpre'⟩ := List.cons_prefix_cons.mp hpre
    obtain ⟨s', hstep, ht'⟩ := (exec_cons_eq_some step).mp ht
    exact h s' hstep pre hpre' t ht'

theorem Visits.mono {P Q : σ → Prop} {s : σ} {ls : List ℓ} (h : Visits step P s ls)
    (hPQ : ∀ t, P t → Q t) : Visits step Q s ls :=
  fun pre hpre t ht => hPQ t (h pre hpre t ht)

theorem Meets.head {C : σ → ℓ → σ → Prop} {s s' : σ} {l : ℓ} {ls : List ℓ}
    (h : Meets step C s (l :: ls)) (hstep : step s l = some s') : C s l s' :=
  h [] l (List.cons_prefix_cons.mpr ⟨rfl, List.nil_prefix⟩) s s' rfl hstep

theorem Meets.tail {C : σ → ℓ → σ → Prop} {s s' : σ} {l : ℓ} {ls : List ℓ}
    (h : Meets step C s (l :: ls)) (hstep : step s l = some s') : Meets step C s' ls := by
  intro pre m hpre t t' ht ht'
  refine h (l :: pre) m ?_ t t' ?_ ht'
  · exact List.cons_prefix_cons.mpr ⟨rfl, hpre⟩
  · rw [exec_cons_of_step step hstep, ht]

theorem meets_nil {C : σ → ℓ → σ → Prop} {s : σ} : Meets step C s [] := by
  intro pre l hpre
  simp at hpre

theorem Meets.cons {C : σ → ℓ → σ → Prop} {s : σ} {l : ℓ} {ls : List ℓ}
    (h : ∀ s', step s l = some s' → C s l s' ∧ Meets step C s' ls) :
    Meets step C s (l :: ls) := by
  intro pre m hpre t t' ht ht'
  rcases pre with _ | ⟨k, pre⟩
  · obtain ⟨rfl, -⟩ := List.cons_prefix_cons.mp hpre
    rw [exec_nil] at ht
    obtain rfl := Option.some.inj ht
    exact (h t' ht').1
  · obtain ⟨rfl, hpre'⟩ := List.cons_prefix_cons.mp hpre
    obtain ⟨s', hstep, hrest⟩ := (exec_cons_eq_some step).mp ht
    exact (h s' hstep).2 pre m hpre' t t' hrest ht'

/-- The form in which a concrete run is checked, step by step. -/
theorem Meets.cons_of_step {C : σ → ℓ → σ → Prop} {s s' : σ} {l : ℓ} {ls : List ℓ}
    (hstep : step s l = some s') (hC : C s l s') (h : Meets step C s' ls) :
    Meets step C s (l :: ls) := by
  refine Meets.cons fun t ht => ?_
  obtain rfl : s' = t := Option.some.inj (hstep.symm.trans ht)
  exact ⟨hC, h⟩

/-! ## The induction rules -/

/-- An invariant of every step holds at the end of every run. -/
theorem exec_invariant {I : σ → Prop}
    (hstep : ∀ s l s', I s → step s l = some s' → I s') {s t : σ} {ls : List ℓ}
    (hs : I s) (h : exec step s ls = some t) : I t := by
  induction ls generalizing s with
  | nil => exact Option.some.inj h ▸ hs
  | cons l ls ih =>
    obtain ⟨s', hl, hrest⟩ := (exec_cons_eq_some step).mp h
    exact ih (hstep s l s' hs hl) hrest

/-- An invariant of the steps whose labels have `C` holds at the end of every run of such
labels. -/
theorem exec_invariant_of_labels {I : σ → Prop} {C : ℓ → Prop}
    (hstep : ∀ s l s', I s → C l → step s l = some s' → I s') {s t : σ} {ls : List ℓ}
    (hs : I s) (hls : ∀ l ∈ ls, C l) (h : exec step s ls = some t) : I t := by
  induction ls generalizing s with
  | nil => exact Option.some.inj h ▸ hs
  | cons l ls ih =>
    obtain ⟨s', hl, hrest⟩ := (exec_cons_eq_some step).mp h
    exact ih (hstep s l s' hs (hls l List.mem_cons_self) hl)
      (fun k hk => hls k (List.mem_cons_of_mem _ hk)) hrest

/-- A property kept by the steps that satisfy `C` holds throughout every run all
of whose steps satisfy `C`. -/
theorem visits_of_meets {I : σ → Prop} {C : σ → ℓ → σ → Prop}
    (hstep : ∀ s l s', I s → C s l s' → step s l = some s' → I s') {s : σ} {ls : List ℓ}
    (hs : I s) (h : Meets step C s ls) : Visits step I s ls := by
  induction ls generalizing s with
  | nil => exact visits_nil.mpr hs
  | cons l ls ih =>
    refine Visits.cons hs fun s' hl => ?_
    exact ih (hstep s l s' hs (h.head hl) hl) (h.tail hl)

/-- The exact rule.  Over an invariant `I`, suppose that a step from a state with
`P` leads to a state with `P` exactly when it satisfies `C`.  Then a run that
starts with `P` keeps `P` throughout exactly when all its steps satisfy `C`. -/
theorem visits_iff_meets {I P : σ → Prop} {C : σ → ℓ → σ → Prop}
    (hinv : ∀ s l s', I s → step s l = some s' → I s')
    (hiff : ∀ s l s', I s → P s → step s l = some s' → (P s' ↔ C s l s'))
    {s : σ} (hI : I s) (hP : P s) (ls : List ℓ) :
    Visits step P s ls ↔ Meets step C s ls := by
  induction ls generalizing s with
  | nil => exact ⟨fun _ => meets_nil, fun _ => visits_nil.mpr hP⟩
  | cons l ls ih =>
    constructor
    · intro h
      refine Meets.cons fun s' hl => ?_
      have hP' : P s' := (h.tail hl).head
      exact ⟨(hiff s l s' hI hP hl).mp hP', (ih (hinv s l s' hI hl) hP').mp (h.tail hl)⟩
    · intro h
      refine Visits.cons hP fun s' hl => ?_
      have hP' : P s' := (hiff s l s' hI hP hl).mpr (h.head hl)
      exact (ih (hinv s l s' hI hl) hP').mpr (h.tail hl)

/-- The exact rule for a property of steps.  Suppose that `I` survives the steps
satisfying `C`, and that a step from a state with `I` has the property `D` exactly
when it satisfies `C`.  Then all steps of a run have `D` exactly when all of them
satisfy `C`. -/
theorem meets_iff_meets {I : σ → Prop} {C D : σ → ℓ → σ → Prop}
    (hinv : ∀ s l s', I s → C s l s' → step s l = some s' → I s')
    (hiff : ∀ s l s', I s → step s l = some s' → (D s l s' ↔ C s l s'))
    {s : σ} (hI : I s) (ls : List ℓ) : Meets step D s ls ↔ Meets step C s ls := by
  induction ls generalizing s with
  | nil => exact ⟨fun _ => meets_nil, fun _ => meets_nil⟩
  | cons l ls ih =>
    constructor
    · intro h
      refine Meets.cons fun s' hl => ?_
      have hC : C s l s' := (hiff s l s' hI hl).mp (h.head hl)
      exact ⟨hC, (ih (hinv s l s' hI hC hl)).mp (h.tail hl)⟩
    · intro h
      refine Meets.cons fun s' hl => ?_
      have hC : C s l s' := h.head hl
      exact ⟨(hiff s l s' hI hl).mpr hC, (ih (hinv s l s' hI hC hl)).mpr (h.tail hl)⟩

/-- What every step has, given an invariant that survives the steps satisfying `C`. -/
theorem Meets.of_invariant {I : σ → Prop} {C D : σ → ℓ → σ → Prop}
    (hinv : ∀ s l s', I s → C s l s' → step s l = some s' → I s')
    (hD : ∀ s l s', I s → C s l s' → step s l = some s' → D s l s')
    {s : σ} {ls : List ℓ} (hI : I s) (h : Meets step C s ls) : Meets step D s ls := by
  induction ls generalizing s with
  | nil => exact meets_nil
  | cons l ls ih =>
    refine Meets.cons fun s' hl => ?_
    have hC : C s l s' := h.head hl
    exact ⟨hD s l s' hI hC hl, ih (hinv s l s' hI hC hl) (h.tail hl)⟩

/-! ## Runs without an end -/

variable (step) in
/-- Each state of the sequence follows from the one before. -/
def Path (path : ℕ → σ) : Prop := ∀ n, ∃ l, step (path n) l = some (path (n + 1))

/-- What every step keeps lasts. -/
theorem Path.lasts {I : σ → Prop} (hstep : ∀ s l s', I s → step s l = some s' → I s')
    {path : ℕ → σ} (h : Path step path) {m n : ℕ} (hmn : m ≤ n) (hm : I (path m)) :
    I (path n) := by
  induction n, hmn using Nat.le_induction with
  | base => exact hm
  | succ n _ ih =>
    obtain ⟨l, hl⟩ := h n
    exact hstep _ l _ ih hl

/-! ## What the steps of a run say -/

variable (step) in
/-- What `f` says of each step of the run `ls` from `s`. -/
def gather {β : Type*} (f : σ → ℓ → List β) : σ → List ℓ → List β
  | _, [] => []
  | s, l :: ls => f s l ++ ((step s l).map fun s' => gather f s' ls).getD []

theorem gather_cons_of_step {β : Type*} (f : σ → ℓ → List β) {s s' : σ} {l : ℓ}
    (h : step s l = some s') (ls : List ℓ) :
    gather step f s (l :: ls) = f s l ++ gather step f s' ls := by
  rw [gather, h, Option.map_some, Option.getD_some]

end Machine
end Rcsce
