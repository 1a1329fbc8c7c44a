import Rcsce.Lib.JsonPrefix
import Rcsce.ControlPlane.Persistence

/-!
# A save that is interrupted

`save_to_disk` opens the file for writing, which empties it, and then writes the text into it.
A crash in between leaves a part of the text, and so does an exception of `json.dump`, which
the method swallows: the process goes on with the new state in its memory.  `load_from_disk`
swallows what the decoder raises on such a file, and the store stays fresh.

`Survives` says that the file loads to the state before the mutator or to the one after it.
A part of the text never loads (`Json.loads_take_dump`), so this holds exactly when there was
nothing to lose: the save had not begun and the file was in step, or it had written everything,
or one of the two states is the fresh one (`CrashingStore.survives_iff`).

The invariant is that the file loads to the store or to a fresh one.
-/

namespace Rcsce

variable (num : NumberText)

/-- The store of a process and its file. -/
structure CrashingStore where
  store : StateStore
  file : Option (List Char)

namespace CrashingStore

/-- Where a save is interrupted: before it opens the file, or when so many characters are in
it. -/
inductive Cut where
  | beforeOpen
  | after (written : ℕ)

/-- The file that an interrupted save leaves. -/
def Cut.file (before : Option (List Char)) (text : List Char) : Cut → Option (List Char)
  | .beforeOpen => before
  | .after written => some (text.take written)

/-- Before the first start there is no file. -/
def init : CrashingStore := ⟨.empty, none⟩

/-- What happens next. -/
inductive Move where
  /-- A mutator runs to its end. -/
  | saved (call : Call num)
  /-- The process dies in the save, and a new one starts. -/
  | crashed (call : Call num) (cut : Cut)
  /-- `json.dump` raises when so many characters are written. -/
  | raised (call : Call num) (written : ℕ)
  /-- A new process starts. -/
  | restart

/-- A new process with this file. -/
def start (file : Option (List Char)) : Option CrashingStore :=
  (StateStore.loadFromDisk num file).map fun store => ⟨store, file⟩

def step (s : CrashingStore) : Move num → Option CrashingStore
  | .saved call =>
      if call.Ordered s.store then some ⟨call.result s.store, some (call.text s.store)⟩ else none
  | .crashed call cut =>
      if call.Ordered s.store then start num (cut.file s.file (call.text s.store)) else none
  | .raised call written =>
      if call.Ordered s.store then
        some ⟨call.result s.store, (Cut.after written).file s.file (call.text s.store)⟩
      else none
  | .restart => start num s.file

/-- After an interrupted save, the file loads to the state before the mutator or to the one
after it. -/
def Survives (s : CrashingStore) (m : Move num) (s' : CrashingStore) : Prop :=
  match m with
  | .crashed call _ | .raised call _ =>
      StateStore.loadFromDisk num s'.file = some s.store ∨
        StateStore.loadFromDisk num s'.file = some (call.result s.store)
  | _ => True

/-- The file is in step with the memory. -/
def InStep (s : CrashingStore) : Prop := StateStore.loadFromDisk num s.file = some s.store

/-- One of the two states is the fresh one. -/
def NothingToLose (s : CrashingStore) (call : Call num) : Prop :=
  s.store = .empty ∨ call.result s.store = .empty

/-- The save was interrupted before it opened a file that is in step, or after all of its text,
or there was nothing to lose. -/
def Unharmed (s : CrashingStore) (m : Move num) (_ : CrashingStore) : Prop :=
  match m with
  | .crashed call .beforeOpen => s.InStep num ∨ s.NothingToLose num call
  | .crashed call (.after written) | .raised call written =>
      (call.text s.store).length ≤ written ∨ s.NothingToLose num call
  | _ => True

/-- The invariant: the store can be saved, and the file loads to it or to a fresh one. -/
def Inv (s : CrashingStore) : Prop :=
  s.store.Savable num ∧
    (s.InStep num ∨ StateStore.loadFromDisk num s.file = some .empty)

variable {num}

theorem inv_init : init.Inv num := ⟨StateStore.savable_empty num, Or.inl rfl⟩

/-! ## The file that is left -/

/-- A part of the text loads to a fresh store. -/
theorem load_take {s : StateStore} (h : s.Savable num) (call : Call num) {k : ℕ}
    (hk : k < (call.text s).length) :
    StateStore.loadFromDisk num (some ((call.text s).take k)) = some .empty := by
  have hjson := (h.apply call.now call.op).isJson_snapshot call.order call.savedAt
  have hloads : Json.loads num ((call.text s).take k) = none := Json.loads_take_dump num hjson hk
  rw [StateStore.loadFromDisk, Option.bind_some, hloads]

theorem load_after {s : StateStore} (h : s.Savable num) {call : Call num}
    (hcall : call.Ordered s) (k : ℕ) :
    StateStore.loadFromDisk num (some ((call.text s).take k)) =
      some (if (call.text s).length ≤ k then call.result s else .empty) := by
  split_ifs with hk
  · rw [List.take_of_length_le hk, load_text h hcall]
  · exact load_take h call (not_le.mp hk)

theorem inv_start {file : Option (List Char)} {s : CrashingStore} {store : StateStore}
    (hload : StateStore.loadFromDisk num file = some store) (hstore : store.Savable num)
    (h : start num file = some s) : s.Inv num := by
  rw [start, hload] at h
  cases h
  exact ⟨hstore, Or.inl hload⟩

theorem inv_step {s s' : CrashingStore} {m : Move num} (h : s.Inv num)
    (hstep : step num s m = some s') : s'.Inv num := by
  obtain ⟨hsavable, hfile⟩ := h
  have hresult : ∀ call : Call num, (call.result s.store).Savable num := fun call =>
    hsavable.apply call.now call.op
  have hfresh := StateStore.savable_empty num
  cases m with
  | saved call =>
    rw [step] at hstep
    split_ifs at hstep with hcall
    cases hstep
    exact ⟨hresult call, Or.inl (load_text hsavable hcall)⟩
  | crashed call cut =>
    rw [step] at hstep
    split_ifs at hstep with hcall
    cases cut with
    | beforeOpen =>
      rcases hfile with hfile | hfile
      · exact inv_start hfile hsavable hstep
      · exact inv_start hfile hfresh hstep
    | after k =>
      refine inv_start (load_after hsavable hcall k) ?_ hstep
      split_ifs
      · exact hresult call
      · exact hfresh
  | raised call k =>
    rw [step] at hstep
    split_ifs at hstep with hcall
    cases hstep
    refine ⟨hresult call, ?_⟩
    have hload := load_after hsavable hcall k
    split_ifs at hload
    · exact Or.inl hload
    · exact Or.inr hload
  | restart =>
    rcases hfile with hfile | hfile
    · exact inv_start hfile hsavable hstep
    · exact inv_start hfile hfresh hstep

/-! ## When the state survives -/

/-- What a fresh store is, when the file loads to one. -/
theorem fresh_iff {s : CrashingStore} {call : Call num} :
    (some StateStore.empty = some s.store ∨
      some StateStore.empty = some (call.result s.store)) ↔ s.NothingToLose num call := by
  rw [Option.some.injEq, Option.some.injEq, NothingToLose, eq_comm, @eq_comm _ StateStore.empty]

theorem survives_after_iff {s : CrashingStore} (h : s.store.Savable num) {call : Call num}
    (hcall : call.Ordered s.store) (k : ℕ) :
    (StateStore.loadFromDisk num (some ((call.text s.store).take k)) = some s.store ∨
      StateStore.loadFromDisk num (some ((call.text s.store).take k)) =
        some (call.result s.store)) ↔
      (call.text s.store).length ≤ k ∨ s.NothingToLose num call := by
  rw [load_after h hcall]
  split_ifs with hk
  · exact ⟨fun _ => Or.inl hk, fun _ => Or.inr rfl⟩
  · rw [fresh_iff, or_iff_right hk]

theorem survives_iff_unharmed {s s' : CrashingStore} {m : Move num} (h : s.Inv num)
    (hstep : step num s m = some s') : Survives num s m s' ↔ Unharmed num s m s' := by
  obtain ⟨hsavable, hfile⟩ := h
  cases m with
  | saved call => exact Iff.rfl
  | crashed call cut =>
    rw [step] at hstep
    split_ifs at hstep with hcall
    obtain ⟨store, -, rfl⟩ := Option.map_eq_some_iff.mp hstep
    cases cut with
    | beforeOpen =>
      show (StateStore.loadFromDisk num s.file = some s.store ∨
        StateStore.loadFromDisk num s.file = some (call.result s.store)) ↔
          s.InStep num ∨ s.NothingToLose num call
      rcases hfile with hin | hfresh
      · exact ⟨fun _ => Or.inl hin, fun _ => Or.inl hin⟩
      · rw [InStep, hfresh, fresh_iff]
        exact ⟨Or.inr, fun hor => hor.elim (fun hin => fresh_iff.mp (Or.inl hin)) id⟩
    | after k => exact survives_after_iff hsavable hcall k
  | raised call k =>
    rw [step] at hstep
    split_ifs at hstep with hcall
    cases hstep
    exact survives_after_iff hsavable hcall k
  | restart => exact Iff.rfl

variable (num)

/-- **When saving is crash-atomic.** -/
theorem survives_iff (ms : List (Move num)) :
    Machine.Meets (step num) (Survives num) init ms ↔
      Machine.Meets (step num) (Unharmed num) init ms :=
  Machine.meets_iff_meets (fun _ _ _ hs _ hstep => inv_step hs hstep)
    (fun _ _ _ hs hstep => survives_iff_unharmed hs hstep) inv_init ms

/-! ## The snapshot that is lost -/

/-- A container that runs is reported. -/
def reported (containerId : String) : Call .integers where
  op := .upsertContainer containerId
    ⟨OrderedDict.empty.set "status" (.str "running"), Record.isJson_empty.set (.str "running")⟩
  now := "2024-05-01T10:00:00"
  savedAt := "2024-05-01T10:00:00"
  order := []

/-- Two containers are reported, and the process dies when the second save has emptied the file:
neither of them is in the store that is loaded. -/
theorem containers_lost : ¬ Machine.Meets (step .integers) (Survives .integers) init
    [.saved (reported "web"), .crashed (reported "db") (.after 0)] := by
  intro h
  have hsaved : step .integers init (.saved (reported "web")) =
      some ⟨(reported "web").result .empty, some ((reported "web").text .empty)⟩ := rfl
  have hcrashed : step .integers
      ⟨(reported "web").result .empty, some ((reported "web").text .empty)⟩
      (.crashed (reported "db") (.after 0)) = some ⟨.empty, some []⟩ := rfl
  have hlost : some StateStore.empty = some ((reported "web").result .empty) ∨
      some StateStore.empty =
        some ((reported "db").result ((reported "web").result .empty)) :=
    (h.tail hsaved).head hcrashed
  rcases hlost with hweb | hdb
  · exact absurd (congrArg (fun o => o.map fun s : StateStore => s.containers.size) hweb)
      (by decide)
  · exact absurd (congrArg (fun o => o.map fun s : StateStore => s.containers.size) hdb)
      (by decide)

end CrashingStore
end Rcsce
