import Mathlib.Data.Fintype.Card
import L4ertl.Core.Kernel
import L4ertl.Lib.Lts

/-!
Thread-specific data (pthread.c). The table of keys is one for all threads; the
values are in the structure of each thread, where a key that is deleted and created
again finds those it had before.
-/
namespace L4ertl
open Lts

def maxPthreadKeys : Nat := 10

/-- common_key_struct, and of each thread its values and its errno. NULL is 0. -/
structure KeyTable (T : Type) where
  inUse : Nat → Bool
  destructor : Nat → Word
  tsd : T → Nat → Word
  errno : T → Int

variable {T : Type}

def KeyTable.unused (s : KeyTable T) : Option Nat := (List.range maxPthreadKeys).find? fun k => !s.inUse k

def KeyTable.Names (s : KeyTable T) (key : Int) : Prop :=
  0 ≤ key ∧ key ≤ maxPthreadKeys - 1 ∧ s.inUse key.toNat = true

instance (s : KeyTable T) (key : Int) : Decidable (s.Names key) := inferInstanceAs (Decidable (_ ∧ _))

/-- What a call returns, or the destructor that it calls before it goes on. -/
inductive KeyProgress where
  | ret (v : Int)
  | call (routine arg : Word)
  deriving DecidableEq, Repr

section
variable [DecidableEq T]

def KeyTable.fail (t : T) (e : Int) (s : KeyTable T) : KeyTable T :=
  { s with errno := Function.update s.errno t e }

/-- The last component is what is stored through `key`, when that is given. -/
def pthreadKeyCreateSys (t : T) (given : Bool) (destructor : Word) (s : KeyTable T) :
    KeyTable T × Int × Option Nat :=
  match s.unused with
  | none => (s.fail t eagain, -1, none)
  | some k => ({ s with
      inUse := Function.update s.inUse k true
      destructor := Function.update s.destructor k destructor }, 0, if given then some k else none)

def pthreadSetspecificSys (t : T) (key : Int) (value : Word) (s : KeyTable T) : KeyTable T × Int :=
  if s.Names key then
    ({ s with tsd := Function.update s.tsd t (Function.update (s.tsd t) key.toNat value) }, 0)
  else (s.fail t einval, -1)

def pthreadGetspecificSys (t : T) (key : Int) (s : KeyTable T) : KeyTable T × Word :=
  if s.Names key then (s, s.tsd t key.toNat) else (s.fail t einval, 0#32)

def keyDeleted (k : Nat) (s : KeyTable T) : KeyTable T :=
  { s with
    destructor := Function.update s.destructor k 0#32
    inUse := Function.update s.inUse k false }

def pthreadKeyDeleteSys (t : T) (key : Int) (s : KeyTable T) : KeyTable T × KeyProgress :=
  if s.Names key then
    if s.destructor key.toNat ≠ 0#32 then (s, .call (s.destructor key.toNat) (s.tsd t key.toNat))
    else (keyDeleted key.toNat s, .ret 0)
  else (s.fail t einval, .ret (-1))

end

/-- A run: the threads that exist, for each the deletions whose destructor it is in,
    and the last value it has set for each key since that was created last. -/
structure KeyRun (T : Type) where
  table : KeyTable T
  live : T → Bool
  deleting : T → List Nat
  last : T → Nat → Word

inductive KeyOp (T : Type) where
  | create (t : T) (given : Bool) (destructor : Word)
  | setspecific (t : T) (key : Int) (value : Word)
  | getspecific (t : T) (key : Int)
  | delete (t : T) (key : Int)
  | destructed (t : T)
  | spawn (t : T)
  | reap (t : T)

variable [DecidableEq T]

def KeyRun.create (s : KeyRun T) (t : T) (given : Bool) (destructor : Word) : KeyRun T :=
  { s with
    table := (pthreadKeyCreateSys t given destructor s.table).1
    last := fun u k => if s.table.unused = some k then 0#32 else s.last u k }

def KeyRun.set (s : KeyRun T) (t : T) (key : Int) (value : Word) : KeyRun T :=
  let r := pthreadSetspecificSys t key value s.table
  { s with
    table := r.1
    last := if r.2 = 0 then Function.update s.last t (Function.update (s.last t) key.toNat value) else s.last }

def KeyRun.delete (s : KeyRun T) (t : T) (key : Int) : KeyRun T :=
  let r := pthreadKeyDeleteSys t key s.table
  match r.2 with
  | .ret _ => { s with table := r.1 }
  | .call _ _ => { s with
      table := r.1
      deleting := Function.update s.deleting t (key.toNat :: s.deleting t) }

/-- The structure of a new thread is zeroed; the calls are those of live threads. -/
def KeyRun.step (s : KeyRun T) : KeyOp T → Option (KeyRun T × List Unit)
  | .create t given destructor => if s.live t then some (s.create t given destructor, []) else none
  | .setspecific t key value => if s.live t then some (s.set t key value, []) else none
  | .getspecific t key =>
    if s.live t then some ({ s with table := (pthreadGetspecificSys t key s.table).1 }, []) else none
  | .delete t key => if s.live t then some (s.delete t key, []) else none
  | .destructed t =>
    match s.deleting t with
    | [] => none
    | k :: rest =>
      if s.live t then
        some ({ s with
          table := keyDeleted k s.table
          deleting := Function.update s.deleting t rest }, [])
      else none
  | .spawn t =>
    if s.live t then none
    else some ({ s with
      table := { s.table with tsd := Function.update s.table.tsd t fun _ => 0#32 }
      live := Function.update s.live t true
      deleting := Function.update s.deleting t []
      last := Function.update s.last t fun _ => 0#32 }, [])
  | .reap t => if s.live t then some ({ s with live := Function.update s.live t false }, []) else none

def KeyRun.start : KeyRun T where
  table := ⟨fun _ => false, fun _ => 0#32, fun _ _ => 0#32, fun _ => 0⟩
  live := fun _ => false
  deleting := fun _ => []
  last := fun _ _ => 0#32

def KeyRun.Fresh (s : KeyRun T) : Prop :=
  ∀ t, s.live t = true → ∀ key, s.table.Names key →
    (pthreadGetspecificSys t key s.table).2 = s.last t key.toNat

def KeyOp.Clean (s : KeyRun T) : KeyOp T → Prop
  | .create _ _ _ => ∀ k, s.table.unused = some k → ∀ t, s.live t = true → s.table.tsd t k = 0#32
  | _ => True

instance [Fintype T] (s : KeyRun T) : (op : KeyOp T) → Decidable (op.Clean s)
  | .create _ _ _ => inferInstanceAs
    (Decidable (∀ k ∈ s.table.unused, ∀ t, s.live t = true → s.table.tsd t k = 0#32))
  | .setspecific _ _ _ | .getspecific _ _ | .delete _ _ | .destructed _ | .spawn _ | .reap _ => isTrue trivial

omit [DecidableEq T] in
theorem unused_spec {s : KeyTable T} {k : Nat} (found : s.unused = some k) :
    k < maxPthreadKeys ∧ s.inUse k = false := by
  have bit := List.find?_some found
  have inside := List.mem_range.mp (List.mem_of_find?_eq_some found)
  exact ⟨inside, by simpa using bit⟩

theorem KeyRun.fresh_iff (s : KeyRun T) : s.Fresh ↔
    ∀ t, s.live t = true → ∀ key, s.table.Names key → s.table.tsd t key.toNat = s.last t key.toNat := by
  unfold KeyRun.Fresh
  constructor
  · intro fresh t alive key names
    have value := fresh t alive key names
    rw [pthreadGetspecificSys, if_pos names] at value
    exact value
  · intro fresh t alive key names
    rw [pthreadGetspecificSys, if_pos names]
    exact fresh t alive key names

theorem KeyRun.Fresh.keep {s w : KeyRun T} (fresh : s.Fresh) (live : ∀ t, w.live t = true → s.live t = true)
    (inUse : ∀ k, w.table.inUse k = true → s.table.inUse k = true) (tsd : w.table.tsd = s.table.tsd)
    (last : w.last = s.last) : w.Fresh := by
  rw [KeyRun.fresh_iff] at *
  rintro t alive key ⟨low, high, used⟩
  rw [tsd, last]
  exact fresh t (live t alive) key ⟨low, high, inUse _ used⟩

theorem KeyRun.Fresh.create {s : KeyRun T} (fresh : s.Fresh) (t : T) (given : Bool) (destructor : Word) :
    (s.create t given destructor).Fresh ↔
      ∀ k, s.table.unused = some k → ∀ u, s.live u = true → s.table.tsd u k = 0#32 := by
  cases found : s.table.unused with
  | none =>
    have same : (s.create t given destructor).Fresh := by
      have made : pthreadKeyCreateSys t given destructor s.table = (s.table.fail t eagain, -1, none) := by
        rw [pthreadKeyCreateSys, found]
      apply fresh.keep
      · exact fun _ alive => alive
      · simp only [KeyRun.create, made]
        exact fun _ used => used
      · simp only [KeyRun.create, made, KeyTable.fail]
      · simp only [KeyRun.create, found, reduceCtorEq, ↓reduceIte]
    simp [same]
  | some k =>
    obtain ⟨inside, _⟩ := unused_spec found
    simp only [maxPthreadKeys] at inside
    have made : (pthreadKeyCreateSys t given destructor s.table).1 = { s.table with
        inUse := Function.update s.table.inUse k true
        destructor := Function.update s.table.destructor k destructor } := by
      rw [pthreadKeyCreateSys, found]
    rw [KeyRun.fresh_iff] at *
    simp only [KeyRun.create, made, found, Option.some.injEq, KeyTable.Names]
    constructor
    · intro after j is u alive
      subst is
      have value := after u alive k ⟨by omega, by simp only [maxPthreadKeys]; omega, by simp⟩
      simpa using value
    · rintro clean u alive key ⟨low, high, used⟩
      by_cases new : k = key.toNat
      · rw [if_pos new, ← new]
        exact clean k rfl u alive
      · rw [if_neg new]
        rw [Function.update_of_ne (Ne.symm new)] at used
        exact fresh u alive key ⟨low, high, used⟩

theorem KeyRun.Fresh.set {s : KeyRun T} (fresh : s.Fresh) (t : T) (key : Int) (value : Word) :
    (s.set t key value).Fresh := by
  rw [KeyRun.fresh_iff] at *
  by_cases names : s.table.Names key
  · simp only [KeyRun.set, pthreadSetspecificSys, if_pos names, ↓reduceIte]
    intro u alive other used
    by_cases self : u = t
    · subst self
      simp only [Function.update_self]
      by_cases same : other.toNat = key.toNat
      · rw [same, Function.update_self, Function.update_self]
      · rw [Function.update_of_ne same, Function.update_of_ne same]
        exact fresh u alive other used
    · simp only [Function.update_of_ne self]
      exact fresh u alive other used
  · simp only [KeyRun.set, pthreadSetspecificSys, if_neg names]
    exact fun u alive other used => fresh u alive other used

omit [DecidableEq T] in
theorem keyDeleted_inUse {s : KeyTable T} {k j : Nat} (used : (keyDeleted k s).inUse j = true) :
    s.inUse j = true := by
  simp only [keyDeleted, Function.update_apply] at used
  split at used
  · cases used
  · exact used

theorem KeyRun.Fresh.delete {s : KeyRun T} (fresh : s.Fresh) (t : T) (key : Int) : (s.delete t key).Fresh := by
  by_cases names : s.table.Names key
  · by_cases routine : s.table.destructor key.toNat ≠ 0#32
    · simp only [KeyRun.delete, pthreadKeyDeleteSys, if_pos names, if_pos routine]
      exact fresh.keep (fun _ alive => alive) (fun _ used => used) rfl rfl
    · simp only [KeyRun.delete, pthreadKeyDeleteSys, if_pos names, if_neg routine]
      exact fresh.keep (fun _ alive => alive) (fun _ used => keyDeleted_inUse used) rfl rfl
  · simp only [KeyRun.delete, pthreadKeyDeleteSys, if_neg names]
    exact fresh.keep (fun _ alive => alive) (fun _ used => used) rfl rfl

theorem KeyRun.step_fresh {s w : KeyRun T} {op : KeyOp T} {es : List Unit} (fresh : s.Fresh)
    (taken : s.step op = some (w, es)) : w.Fresh ↔ op.Clean s := by
  cases op with
  | create t given destructor =>
    simp only [KeyRun.step] at taken
    split at taken
    · cases taken
      exact fresh.create t given destructor
    · cases taken
  | setspecific t key value =>
    simp only [KeyRun.step] at taken
    split at taken
    · cases taken
      exact iff_of_true (fresh.set t key value) trivial
    · cases taken
  | getspecific t key =>
    simp only [KeyRun.step] at taken
    split at taken
    · cases taken
      refine iff_of_true (fresh.keep (fun _ alive => alive) ?_ ?_ rfl) trivial
      · simp only [pthreadGetspecificSys]
        split <;> exact fun _ used => used
      · simp only [pthreadGetspecificSys]
        split <;> rfl
    · cases taken
  | delete t key =>
    simp only [KeyRun.step] at taken
    split at taken
    · cases taken
      exact iff_of_true (fresh.delete t key) trivial
    · cases taken
  | destructed t =>
    simp only [KeyRun.step] at taken
    split at taken
    · cases taken
    · split at taken
      · cases taken
        exact iff_of_true (fresh.keep (fun _ alive => alive) (fun _ used => keyDeleted_inUse used) rfl rfl)
          trivial
      · cases taken
  | spawn t =>
    simp only [KeyRun.step] at taken
    split at taken
    · cases taken
    · cases taken
      refine iff_of_true ?_ trivial
      rw [KeyRun.fresh_iff] at *
      intro u alive key names
      by_cases self : u = t
      · simp only [self, Function.update_self]
      · simp only [Function.update_of_ne self] at alive ⊢
        exact fresh u alive key names
  | reap t =>
    simp only [KeyRun.step] at taken
    split at taken
    · cases taken
      refine iff_of_true (fresh.keep ?_ (fun _ used => used) rfl rfl) trivial
      intro u alive
      simp only [Function.update_apply] at alive
      split at alive
      · cases alive
      · exact alive
    · cases taken

/-- A key that is handed out was not in use; and in every state of a run the values are
    those set since the last creations, exactly if each creation took a clean entry. -/
theorem keys_fresh_iff :
    (∀ (s : KeyTable T) (t : T) (given : Bool) (destructor : Word) (k : Nat),
      (pthreadKeyCreateSys t given destructor s).2.2 = some k → k < maxPthreadKeys ∧ s.inUse k = false) ∧
    ∀ (ops : List (KeyOp T)) (s : KeyRun T) (es : List Unit), exec KeyRun.step .start ops = some (s, es) →
      ((∀ before after w past, ops = before ++ after → exec KeyRun.step .start before = some (w, past) →
          w.Fresh) ↔
        Along KeyRun.step (fun s op => op.Clean s) .start ops) := by
  constructor
  · intro s t given destructor k stored
    apply unused_spec
    rw [pthreadKeyCreateSys] at stored
    split at stored
    · cases stored
    · rename_i j found
      cases given with
      | false => cases stored
      | true =>
        cases stored
        exact found
  · intro ops s es run
    have start : (KeyRun.start : KeyRun T).Fresh := fun t alive => by cases alive
    have keeps : ∀ (s : KeyRun T) l w es, True → s.Fresh → True → s.step l = some (w, es) →
        True ∧ (w.Fresh ↔ l.Clean s) :=
      fun _ _ _ _ _ fresh _ taken => ⟨trivial, KeyRun.step_fresh fresh taken⟩
    exact good_iff_along keeps ops trivial start (along_trivial ops _) run

theorem keys_fresh_iff_cleared : ∃ s es, exec KeyRun.step (.start : KeyRun (Fin 2))
      [.spawn 0, .create 0 true 0#32, .setspecific 0 0 7#32, .setspecific 0 0 0#32, .delete 0 0,
        .create 0 true 0#32] = some (s, es) ∧ s.Fresh := by
  have runs : (exec KeyRun.step (.start : KeyRun (Fin 2))
      [.spawn 0, .create 0 true 0#32, .setspecific 0 0 7#32, .setspecific 0 0 0#32, .delete 0 0,
        .create 0 true 0#32]).isSome = true := by decide
  obtain ⟨⟨s, es⟩, run⟩ := Option.isSome_iff_exists.mp runs
  refine ⟨s, es, run, ?_⟩
  exact (keys_fresh_iff.2 _ s es run).mpr (by decide +kernel) _ [] s es (List.append_nil _).symm run

theorem keys_stale : ∃ s es, exec KeyRun.step (.start : KeyRun (Fin 2))
      [.spawn 0, .create 0 true 0#32, .setspecific 0 0 7#32, .delete 0 0, .create 0 true 0#32] = some (s, es) ∧
      (pthreadGetspecificSys 0 0 s.table).2 = 7#32 ∧ s.last 0 0 = 0#32 ∧ ¬ s.Fresh := by
  have runs : (exec KeyRun.step (.start : KeyRun (Fin 2))
      [.spawn 0, .create 0 true 0#32, .setspecific 0 0 7#32, .delete 0 0, .create 0 true 0#32]).map (fun r =>
        ((pthreadGetspecificSys 0 0 r.1.table).2, r.1.last 0 0, r.1.live 0, decide (r.1.table.Names 0))) =
      some (7#32, 0#32, true, true) := by decide
  obtain ⟨⟨s, es⟩, run, facts⟩ := Option.map_eq_some_iff.mp runs
  simp only [Prod.mk.injEq, decide_eq_true_eq] at facts
  obtain ⟨value, last, alive, names⟩ := facts
  refine ⟨s, es, run, value, last, ?_⟩
  intro fresh
  have same := fresh 0 alive 0 names
  rw [value] at same
  exact absurd (same.trans last) (by decide)

end L4ertl
