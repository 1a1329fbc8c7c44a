import Rcsce.Lib.PyM

/-!
# Loops that read until something raises

Code that goes through data of unknown shape reads one thing after the other, adds each to what
it has, and stops at the first that raises.  Nested loops of this kind do nothing else, and this
module says so once.

* A `Reading` is what was read, in order, and whether the end was reached.  `Reading.all` is the
  reading of a list, element by element, up to the first that is not read to its end.
* `Follows m add r` says that the statement `m` does what the reading `r` says: it adds what is
  read to the variables, one after the other, and completes if and only if the end is reached.
* `follows_forM` is the rule for a loop, and `follows_error`, `follows_ok` are those for an
  expression before it.
-/

namespace Rcsce

universe u v

/-- What was read, and whether the end was reached. -/
structure Reading (β : Type u) where
  read : List β
  complete : Bool

namespace Reading

variable {α : Type v} {β : Type u}

/-- Nothing could be read. -/
def stopped : Reading β := ⟨[], false⟩

/-- Nothing was to be read. -/
def done : Reading β := ⟨[], true⟩

/-- One thing was read. -/
def one (b : β) : Reading β := ⟨[b], true⟩

/-- The second reading goes on where the first has reached its end. -/
def followedBy (r r' : Reading β) : Reading β :=
  if r.complete then ⟨r.read ++ r'.read, r'.complete⟩ else r

/-- The elements of a list, one after the other. -/
def all (f : α → Reading β) : List α → Reading β
  | [] => done
  | a :: l => (f a).followedBy (all f l)

/-- A list is read to its end if every element is, and then all of each has been read. -/
theorem all_of_complete {f : α → Reading β} {l : List α} (h : ∀ a ∈ l, (f a).complete = true) :
    all f l = ⟨l.flatMap fun a => (f a).read, true⟩ := by
  induction l with
  | nil => rfl
  | cons a l ih =>
    rw [all, followedBy, if_pos (h a List.mem_cons_self),
      ih fun b hb => h b (List.mem_cons_of_mem a hb), List.flatMap_cons]

end Reading

namespace PyM

variable {σ α β : Type} {add : σ → β → σ}

/-- The statement does what the reading says. -/
def Follows (m : PyM σ PUnit) (add : σ → β → σ) (r : Reading β) : Prop :=
  ∀ s, (exec m s).2 = r.read.foldl add s ∧ (Completes m s ↔ r.complete = true)

theorem follows_done : Follows (pure ⟨⟩) add .done := fun s =>
  ⟨rfl, iff_of_true (completes_pure _ s) rfl⟩

theorem follows_throw (e : PyError) : Follows (throw e) add .stopped := fun s =>
  ⟨rfl, iff_of_false (not_completes_throw e s) Bool.false_ne_true⟩

theorem follows_modify (b : β) : Follows (modify fun s => add s b) add (.one b) := fun s =>
  ⟨rfl, iff_of_true (completes_modify _ s) rfl⟩

/-- An expression that raises. -/
theorem follows_error {f : α → PyM σ PUnit} (e : PyError) :
    Follows (eval (.error e) >>= f) add .stopped := fun s => by
  refine ⟨rfl, iff_of_false ?_ Bool.false_ne_true⟩
  rw [completes_eval_bind]
  rintro ⟨a, heq, -⟩
  cases heq

/-- An expression that does not. -/
theorem follows_ok {f : α → PyM σ PUnit} {a : α} {r : Reading β} (h : Follows (f a) add r) :
    Follows (eval (.ok a) >>= f) add r := h

/-- One statement after the other. -/
theorem Follows.bind {m m' : PyM σ PUnit} {r r' : Reading β} (h : Follows m add r)
    (h' : Follows m' add r') : Follows (m >>= fun _ => m') add (r.followedBy r') := by
  intro s
  obtain ⟨hvars, hcompletes⟩ := h s
  rw [Reading.followedBy, completes_bind, exec_bind]
  rcases hexec : exec m s with ⟨⟨e⟩ | ⟨a⟩, s'⟩
  · have hstopped : r.complete ≠ true := by
      intro hcomplete
      obtain ⟨a, ha⟩ := hcompletes.mpr hcomplete
      rw [hexec] at ha
      cases ha
    rw [hexec] at hvars
    rw [if_neg hstopped]
    refine ⟨hvars, iff_of_false ?_ hstopped⟩
    rintro ⟨a, s'', heq, -⟩
    cases heq
  · have hcomplete : r.complete = true := hcompletes.mp ⟨a, by rw [hexec]⟩
    obtain ⟨hvars', hcompletes'⟩ := h' s'
    rw [hexec] at hvars
    rw [if_pos hcomplete, List.foldl_append, ← hvars]
    refine ⟨hvars', ?_⟩
    rw [← hcompletes']
    constructor
    · rintro ⟨a', s'', heq, hrest⟩
      cases heq
      exact hrest
    · exact fun hrest => ⟨a, s', rfl, hrest⟩

/-- **The rule for a loop.** -/
theorem follows_forM {body : α → PyM σ PUnit} {f : α → Reading β}
    (h : ∀ a, Follows (body a) add (f a)) (l : List α) :
    Follows (l.forM body) add (.all f l) := by
  induction l with
  | nil => exact follows_done
  | cons a l ih => exact (h a).bind ih

end PyM
end Rcsce
