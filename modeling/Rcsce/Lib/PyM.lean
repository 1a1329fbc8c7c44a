import Rcsce.Lib.Json

/-!
# Code that mutates a state and can raise

`PyM σ` is the monad of statements over mutable variables `σ`.  An exception ends the
statement, and what has been mutated before it stays mutated, so a caller that catches
the exception finds the variables half updated.

`exec_bind`, `exec_tryCatch` and the `exec` lemmas of the single statements compute what a
statement does.

`Completes` says that a statement does not raise.  It goes through binds
(`completes_bind`), and a loop completes if and only if every round does
(`completes_forM`), provided that whether a round raises does not depend on the
variables.
-/

namespace Rcsce

universe u

variable {σ α β : Type}

/-- Statements over the variables `σ`. -/
abbrev PyM (σ : Type) := ExceptT PyError (StateM σ)

namespace PyM

/-- An expression, which mutates nothing. -/
def eval (e : Except PyError α) : PyM σ α := ExceptT.mk (pure e)

/-- What a statement returns or raises, and the variables after it. -/
def exec (m : PyM σ α) (s : σ) : Except PyError α × σ := (ExceptT.run m).run s

@[simp] theorem exec_eval (e : Except PyError α) (s : σ) : exec (eval e : PyM σ α) s = (e, s) := rfl

theorem exec_bind (m : PyM σ α) (f : α → PyM σ β) (s : σ) :
    exec (m >>= f) s =
      match exec m s with
      | (.ok a, s') => exec (f a) s'
      | (.error e, s') => (.error e, s') := by
  rw [exec, exec, ExceptT.run_bind, StateT.run_bind]
  rcases (ExceptT.run m).run s with ⟨_ | _, _⟩ <;> rfl

/-- Evaluating an expression first leaves the variables to the rest. -/
theorem exec_eval_bind_snd {e : Except PyError α} {f : α → PyM σ β} {s : σ}
    (h : ∀ a, (exec (f a) s).2 = s) : (exec (eval e >>= f) s).2 = s := by
  rw [exec_bind, exec_eval]
  cases e with
  | error _ => rfl
  | ok a => exact h a

@[simp] theorem exec_modify (f : σ → σ) (s : σ) :
    exec (modify f : PyM σ PUnit) s = (.ok ⟨⟩, f s) := rfl

@[simp] theorem exec_get (s : σ) : exec (get : PyM σ σ) s = (.ok s, s) := rfl

/-- A handler finds the variables as they were when the exception was raised. -/
theorem exec_tryCatch (m : PyM σ α) (h : PyError → PyM σ α) (s : σ) :
    exec (tryCatch m h) s =
      match exec m s with
      | (.ok a, s') => (.ok a, s')
      | (.error e, s') => exec (h e) s' := by
  rw [exec, exec, ExceptT.run_tryCatch, StateT.run_bind]
  rcases (ExceptT.run m).run s with ⟨_ | _, _⟩ <;> rfl

/-- The statement does not raise. -/
def Completes (m : PyM σ α) (s : σ) : Prop := ∃ a, (exec m s).1 = .ok a

@[simp] theorem completes_pure (a : α) (s : σ) : Completes (pure a : PyM σ α) s := ⟨a, rfl⟩

@[simp] theorem completes_modify (f : σ → σ) (s : σ) : Completes (modify f : PyM σ PUnit) s :=
  ⟨⟨⟩, rfl⟩

@[simp] theorem not_completes_throw (e : PyError) (s : σ) :
    ¬ Completes (throw e : PyM σ α) s := fun ⟨_, h⟩ => nomatch h

/-- A bind completes if and only if both parts do. -/
theorem completes_bind {m : PyM σ α} {f : α → PyM σ β} {s : σ} :
    Completes (m >>= f) s ↔ ∃ a s', exec m s = (.ok a, s') ∧ Completes (f a) s' := by
  rw [Completes, exec_bind]
  rcases hm : exec m s with ⟨⟨e⟩ | ⟨a⟩, s'⟩
  · refine iff_of_false (fun ⟨_, h⟩ => nomatch h) ?_
    rintro ⟨a, s'', heq, -⟩
    cases heq
  · refine ⟨fun h => ⟨a, s', rfl, h⟩, ?_⟩
    rintro ⟨a', s'', heq, h⟩
    cases heq
    exact h

/-- An expression followed by a statement. -/
theorem completes_eval_bind {e : Except PyError α} {f : α → PyM σ β} {s : σ} :
    Completes (eval e >>= f) s ↔ ∃ a, e = .ok a ∧ Completes (f a) s := by
  rw [completes_bind]
  constructor
  · rintro ⟨a, s', heq, h⟩
    rw [exec_eval] at heq
    cases heq
    exact ⟨a, rfl, h⟩
  · rintro ⟨a, rfl, h⟩
    exact ⟨a, s, rfl, h⟩

/-- A loop completes if and only if every round does. -/
theorem completes_forM {body : α → PyM σ PUnit} {P : α → Prop} {l : List α}
    (hbody : ∀ x ∈ l, ∀ s, Completes (body x) s ↔ P x) (s : σ) :
    Completes (l.forM body) s ↔ ∀ x ∈ l, P x := by
  induction l generalizing s with
  | nil => exact iff_of_true (completes_pure _ _) fun x hx => absurd hx List.not_mem_nil
  | cons x l ih =>
    have hrest := ih fun y hy => hbody y (List.mem_cons_of_mem _ hy)
    have hfirst := hbody x List.mem_cons_self
    rw [List.forall_mem_cons]
    show Completes (body x >>= fun _ => l.forM body) s ↔ _
    rw [completes_bind]
    constructor
    · rintro ⟨a, s', hexec, h⟩
      exact ⟨(hfirst s).mp ⟨a, by rw [hexec]⟩, (hrest s').mp h⟩
    · rintro ⟨hx, hl⟩
      obtain ⟨a, ha⟩ := (hfirst s).mpr hx
      exact ⟨a, (exec (body x) s).2, Prod.ext ha rfl, (hrest _).mpr hl⟩

end PyM
end Rcsce
