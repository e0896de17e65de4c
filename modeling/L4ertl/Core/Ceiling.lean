import L4ertl.Core.Prompt
import L4ertl.Lib.Lts

/-!
The priority ceiling of mutexes with PTHREAD_PRIO_PROTECT, seen from one thread.
Each mutex notes the priority of its owner when it is locked and gives it back
when it is unlocked, whatever the owner has locked or unlocked in between.
-/
namespace L4ertl
open Intrusive
variable {T : Type} [DecidableEq T]

/-- The calls of the thread that succeed, and what happens in between. A lock that
    first has to wait succeeds at the last test of its loop, with the mutex free. -/
inductive CeilingOp (T : Type) where
  | lock (m : Nat)
  | trylock (m : Nat)
  | unlock (m : Nat)
  | others (k : Kernel T)

/-- The kernel, the mutexes that the thread holds, and for each of them those it
    held when it locked this one. -/
structure CeilingState (T : Type) where
  kernel : Kernel T
  held : List Nat
  under : Nat → List Nat

def Lockable (k : Kernel T) (m : Nat) : Prop :=
  (k.mutex m).owner = none ∧ (k.mutex m).attr.prioProtection = .protect

def HeldOnce (k : Kernel T) (m : Nat) : Prop :=
  (k.mutex m).attr.type = .recursive → (k.mutex m).counter ≤ 1

/-- What may happen until the thread makes its next call: nothing to its priority
    nor to the ceilings, and to the mutexes it owns at most that others wait. -/
structure OthersRan (t : T) (k w : Kernel T) : Prop where
  current : w.currentThread = t
  prio : w.prio t = k.prio t
  ceiling : ∀ m, (w.mutex m).attr.prio = (k.mutex m).attr.prio
  owned : ∀ m, (k.mutex m).owner = some t →
    (w.mutex m).owner = some t ∧ (w.mutex m).attr = (k.mutex m).attr

def CeilingState.acquire (s : CeilingState T) (m : Nat) (k : Kernel T) : CeilingState T :=
  ⟨k, m :: s.held, Function.update s.under m s.held⟩

instance (k : Kernel T) (m : Nat) : Decidable (Lockable k m) :=
  inferInstanceAs (Decidable (_ ∧ _))

instance (k : Kernel T) (m : Nat) : Decidable (HeldOnce k m) :=
  inferInstanceAs (Decidable (_ → _))

def CeilingState.step [Fintype T] (t : T) (s : CeilingState T) :
    CeilingOp T → Option (CeilingState T × List Unit)
  | .lock m =>
    if s.kernel.currentThread = t ∧ Lockable s.kernel m then
      some (s.acquire m (pthreadMutexLockSys m s.kernel).1, [])
    else none
  | .trylock m =>
    if s.kernel.currentThread = t ∧ Lockable s.kernel m then
      some (s.acquire m (pthreadMutexTrylockSys m s.kernel).1, [])
    else none
  | .unlock m =>
    if s.kernel.currentThread = t ∧ m ∈ s.held ∧ HeldOnce s.kernel m then
      some ({ s with kernel := (pthreadMutexUnlockSys m s.kernel).1, held := s.held.erase m }, [])
    else none
  | .others k => some ({ s with kernel := k }, [])

def CeilingOp.Allowed (t : T) (s : CeilingState T) : CeilingOp T → Prop
  | .others k => OthersRan t s.kernel k
  | _ => True

def ceilingOf (b : Int) (k : Kernel T) (ms : List Nat) : Int :=
  ms.foldr (fun m p => min (k.mutex m).attr.prio p) b

def CeilingState.Level (t : T) (b : Int) (s : CeilingState T) : Prop :=
  s.kernel.prio t = ceilingOf b s.kernel s.held

/-- A mutex is unlocked only while the others held give the priority that those
    gave which were held when it was locked. -/
def CeilingOp.Nested (b : Int) (s : CeilingState T) : CeilingOp T → Prop
  | .unlock m => ceilingOf b s.kernel (s.under m) = ceilingOf b s.kernel (s.held.erase m)
  | _ => True

structure CeilingState.Ok (t : T) (b : Int) (s : CeilingState T) : Prop where
  nodup : s.held.Nodup
  mine : ∀ m ∈ s.held, (s.kernel.mutex m).owner = some t ∧
    (s.kernel.mutex m).attr.prioProtection = .protect ∧
    (s.kernel.mutex m).attr.ownerPrio = ceilingOf b s.kernel (s.under m)

omit [DecidableEq T] in
theorem ceilingOf_congr (b : Int) {k w : Kernel T} (ms : List Nat)
    (same : ∀ m, (w.mutex m).attr.prio = (k.mutex m).attr.prio) :
    ceilingOf b w ms = ceilingOf b k ms := by
  induction ms with
  | nil => rfl
  | cons m ms ih => simp only [ceilingOf, List.foldr_cons, same]

section
variable {t : T} {k : Kernel T} {m : Nat}

theorem raiseToCeiling_effect (runs : k.currentThread = t)
    (guarded : (k.mutex m).attr.prioProtection = .protect) :
    (raiseToCeiling m k).1.prio t = min (k.mutex m).attr.prio (k.prio t) ∧
      (raiseToCeiling m k).1.mutex = Function.update k.mutex m
        { k.mutex m with attr := { (k.mutex m).attr with ownerPrio := k.prio t } } := by
  subst runs
  simp only [raiseToCeiling, guarded, if_true]
  split
  · rename_i above
    have higher : (k.mutex m).attr.prio < k.prio k.currentThread := above
    constructor
    · rw [changeThreadPrio_prio, if_pos rfl]
      omega
    · rw [changeThreadPrio_mutex]
      rfl
  · rename_i above
    have lower : ¬(k.mutex m).attr.prio < k.prio k.currentThread := above
    constructor
    · simp only [Kernel.prio, setMutex] at lower ⊢
      omega
    · rfl

structure Raised (t : T) (m : Nat) (k w : Kernel T) : Prop where
  prio : w.prio t = min (k.mutex m).attr.prio (k.prio t)
  others : ∀ n, n ≠ m → w.mutex n = k.mutex n
  owner : (w.mutex m).owner = some t
  attr : (w.mutex m).attr = { (k.mutex m).attr with ownerPrio := k.prio t }

theorem raiseToCeiling_raised {x : Mutex T} (runs : k.currentThread = t)
    (guarded : (k.mutex m).attr.prioProtection = .protect) (attr : x.attr = (k.mutex m).attr)
    (owner : x.owner = some t) : Raised t m k (raiseToCeiling m (setMutex m x k)).1 := by
  have stored : (setMutex m x k).mutex m = x := by simp [setMutex]
  obtain ⟨prio, mutex⟩ := raiseToCeiling_effect (k := setMutex m x k) (m := m) (t := t) runs
    (by rw [stored, attr, guarded])
  rw [stored] at prio mutex
  constructor
  · rw [prio, attr]
    rfl
  · intro n other
    rw [mutex]
    simp [setMutex, other]
  · rw [mutex]
    simp [owner]
  · rw [mutex]
    simp only [Function.update_self, attr]
    rfl

theorem pthreadMutexLockSys_raised (runs : k.currentThread = t) (free : Lockable k m) :
    Raised t m k (pthreadMutexLockSys m k).1 := by
  rw [pthreadMutexLockSys_kernel]
  simp only [mutexLockLoop, free.1, if_true, runs]
  exact raiseToCeiling_raised runs free.2 rfl rfl

theorem pthreadMutexTrylockSys_raised (runs : k.currentThread = t) (free : Lockable k m) :
    Raised t m k (pthreadMutexTrylockSys m k).1 := by
  have raised := raiseToCeiling_raised (x := { k.mutex m with owner := some t }) runs free.2 rfl rfl
  simp only [pthreadMutexTrylockSys, free.1, if_true, runs]
  split
  · rename_i eq
    rw [eq] at raised
    exact raised
  · rename_i eq
    rw [eq] at raised
    exact raised

theorem releaseMutex_prio [Fintype T] (runs : k.currentThread = t)
    (guarded : (k.mutex m).attr.prioProtection = .protect) :
    (releaseMutex m k).1.prio t = (k.mutex m).attr.ownerPrio := by
  obtain ⟨current, param, _⟩ := drain_frame (mutexWaiters m) k
  obtain ⟨h, mutex⟩ := drain_mutex m k
  have attr : ((drain (mutexWaiters m) k).mutex m).attr = (k.mutex m).attr := by simp [mutex]
  simp only [releaseMutex, current, runs, attr, guarded, true_and]
  split
  · rw [changeThreadPrio_prio, if_pos rfl]
  · rename_i same
    exact (not_not.mp same).symm

structure Lowered (t : T) (m : Nat) (k w : Kernel T) : Prop where
  prio : w.prio t = (k.mutex m).attr.ownerPrio
  others : ∀ n, n ≠ m → w.mutex n = k.mutex n
  attr : (w.mutex m).attr = (k.mutex m).attr

theorem pthreadMutexUnlockSys_lowered [Fintype T] (runs : k.currentThread = t)
    (mine : (k.mutex m).owner = some t) (guarded : (k.mutex m).attr.prioProtection = .protect)
    (once : HeldOnce k m) : Lowered t m k (pthreadMutexUnlockSys m k).1 := by
  rw [pthreadMutexUnlockSys_kernel]
  constructor
  · simp only [mutexUnlock, mine, runs, reduceCtorEq, if_false, ne_eq, not_true]
    split
    · rename_i recursive
      have last := once recursive
      rw [if_neg (by omega), releaseMutex_prio (k := setMutex m _ k) runs (by simp [setMutex, guarded])]
      simp [setMutex]
    · exact releaseMutex_prio runs guarded
  · intro n other
    exact mutexUnlock_other m n k other
  · simp only [mutexUnlock, mine, runs, reduceCtorEq, if_false, ne_eq, not_true]
    split
    · rename_i recursive
      have last := once recursive
      rw [if_neg (by omega), releaseMutex_mutex]
      simp [setMutex]
    · rw [releaseMutex_mutex]
      simp

end

section
variable {t : T} {b : Int} {s : CeilingState T} {w : Kernel T} {m : Nat}

omit [DecidableEq T] in
theorem Raised.ok (raised : Raised t m s.kernel w) (free : Lockable s.kernel m) (ok : s.Ok t b)
    (level : s.Level t b) : (s.acquire m w).Ok t b ∧ (s.acquire m w).Level t b := by
  have new : m ∉ s.held := by
    intro held
    have owned := (ok.mine m held).1
    rw [free.1] at owned
    cases owned
  have same : ∀ n, (w.mutex n).attr.prio = (s.kernel.mutex n).attr.prio := by
    intro n
    by_cases this : n = m
    · rw [this, raised.attr]
    · rw [raised.others n this]
  have below := ceilingOf_congr b s.held same
  constructor
  · constructor
    · exact List.nodup_cons.mpr ⟨new, ok.nodup⟩
    · intro n held
      simp only [CeilingState.acquire, List.mem_cons] at held ⊢
      by_cases this : n = m
      · subst this
        refine ⟨raised.owner, ?_, ?_⟩
        · rw [raised.attr]
          exact free.2
        · rw [raised.attr, Function.update_self, below]
          exact level
      · obtain ⟨owned, guarded, noted⟩ := ok.mine n (held.resolve_left this)
        rw [raised.others n this, Function.update_of_ne this, ceilingOf_congr b _ same]
        exact ⟨owned, guarded, noted⟩
  · show w.prio t = min (w.mutex m).attr.prio (ceilingOf b w s.held)
    rw [raised.prio, same, below, level]

omit [DecidableEq T] in
theorem Lowered.ok (lowered : Lowered t m s.kernel w) (held : m ∈ s.held) (ok : s.Ok t b) :
    CeilingState.Ok t b { s with kernel := w, held := s.held.erase m } ∧
      (CeilingState.Level t b { s with kernel := w, held := s.held.erase m } ↔
        CeilingOp.Nested b s (.unlock m)) := by
  have same : ∀ n, (w.mutex n).attr.prio = (s.kernel.mutex n).attr.prio := by
    intro n
    by_cases this : n = m
    · rw [this, lowered.attr]
    · rw [lowered.others n this]
  constructor
  · constructor
    · exact ok.nodup.erase m
    · intro n left
      obtain ⟨other, was⟩ := ok.nodup.mem_erase_iff.mp left
      obtain ⟨owned, guarded, noted⟩ := ok.mine n was
      simp only
      rw [lowered.others n other, ceilingOf_congr b _ same]
      exact ⟨owned, guarded, noted⟩
  · simp only [CeilingState.Level, CeilingOp.Nested]
    rw [lowered.prio, (ok.mine m held).2.2, ceilingOf_congr b _ same]

omit [DecidableEq T] in
theorem OthersRan.ok (ran : OthersRan t s.kernel w) (ok : s.Ok t b) (level : s.Level t b) :
    CeilingState.Ok t b { s with kernel := w } ∧ CeilingState.Level t b { s with kernel := w } := by
  constructor
  · constructor
    · exact ok.nodup
    · intro n held
      obtain ⟨owned, guarded, noted⟩ := ok.mine n held
      obtain ⟨still, attr⟩ := ran.owned n owned
      simp only
      rw [attr, ceilingOf_congr b _ ran.ceiling]
      exact ⟨still, guarded, noted⟩
  · show w.prio t = ceilingOf b w s.held
    rw [ran.prio, ceilingOf_congr b _ ran.ceiling]
    exact level

end

theorem CeilingState.step_level [Fintype T] {t : T} {b : Int} {s x : CeilingState T}
    {op : CeilingOp T} {es : List Unit} (ok : s.Ok t b) (level : s.Level t b)
    (allowed : op.Allowed t s) (taken : s.step t op = some (x, es)) :
    x.Ok t b ∧ (x.Level t b ↔ op.Nested b s) := by
  cases op with
  | lock m =>
    simp only [step] at taken
    split at taken
    · rename_i may
      cases taken
      have kept := (pthreadMutexLockSys_raised may.1 may.2).ok may.2 ok level
      exact ⟨kept.1, fun _ => trivial, fun _ => kept.2⟩
    · cases taken
  | trylock m =>
    simp only [step] at taken
    split at taken
    · rename_i may
      cases taken
      have kept := (pthreadMutexTrylockSys_raised may.1 may.2).ok may.2 ok level
      exact ⟨kept.1, fun _ => trivial, fun _ => kept.2⟩
    · cases taken
  | unlock m =>
    simp only [step] at taken
    split at taken
    · rename_i may
      cases taken
      obtain ⟨owned, guarded, _⟩ := ok.mine m may.2.1
      exact (pthreadMutexUnlockSys_lowered may.1 owned guarded may.2.2).ok may.2.1 ok
    · cases taken
  | others k =>
    cases taken
    have kept := OthersRan.ok allowed ok level
    exact ⟨kept.1, fun _ => trivial, fun _ => kept.2⟩

/-- The thread has the ceiling of what it holds all along exactly if every unlock
    is nested; with nothing held that is its base priority. -/
theorem prio_is_ceiling_iff [Fintype T] (t : T) (b : Int) (k : Kernel T) (base : k.prio t = b)
    (ops : List (CeilingOp T)) (x : CeilingState T) (es : List Unit)
    (allowed : Lts.Along (CeilingState.step t) (fun s op => op.Allowed t s) ⟨k, [], fun _ => []⟩ ops)
    (run : Lts.exec (CeilingState.step t) ⟨k, [], fun _ => []⟩ ops = some (x, es)) :
    (∀ before after s past, ops = before ++ after →
        Lts.exec (CeilingState.step t) ⟨k, [], fun _ => []⟩ before = some (s, past) →
        s.kernel.prio t = ceilingOf b s.kernel s.held) ↔
      Lts.Along (CeilingState.step t) (fun s op => op.Nested b s) ⟨k, [], fun _ => []⟩ ops := by
  have start : CeilingState.Ok t b ⟨k, [], fun _ => []⟩ := by
    constructor
    · exact List.nodup_nil
    · intro m none
      cases none
  have level : CeilingState.Level t b ⟨k, [], fun _ => []⟩ := base
  exact Lts.good_iff_along
    (fun s op w es ok level may taken => CeilingState.step_level ok level may taken) ops
    start level allowed run

instance (b : Int) (s : CeilingState T) (op : CeilingOp T) : Decidable (op.Nested b s) :=
  match op with
  | .unlock m =>
    inferInstanceAs (Decidable (ceilingOf b s.kernel (s.under m) = ceilingOf b s.kernel (s.held.erase m)))
  | .lock _ => isTrue trivial
  | .trylock _ => isTrue trivial
  | .others _ => isTrue trivial

def twoCeilings : Kernel (Fin 2) :=
  { scheduling 0 ([ThreadOp.create 0, .changePrio 0 1023, .create 1, .changePrio 1 10,
      .activate 1].foldl ThreadOp.run (bootKernel 0)) with
    mutex := fun m => ⟨0, ⟨.protect, if m = 0 then 5 else 3, .normal, 0⟩, none, none⟩ }

theorem prio_is_ceiling_iff_two :
    ∃ x, Lts.exec (CeilingState.step 1) ⟨twoCeilings, [], fun _ => []⟩
        [.lock 0, .trylock 1, .unlock 1, .unlock 0] = some (x, []) ∧
      x.held = [] ∧ x.kernel.prio 1 = ceilingOf 10 x.kernel x.held := by
  have final : (Lts.exec (CeilingState.step 1) ⟨twoCeilings, [], fun _ => []⟩
      [.lock 0, .trylock 1, .unlock 1, .unlock 0]).map (fun r => (r.2, r.1.held)) = some ([], []) := by
    decide +kernel
  obtain ⟨⟨x, es⟩, run, there⟩ := Option.map_eq_some_iff.mp final
  simp only [Prod.mk.injEq] at there
  obtain ⟨rfl, empty⟩ := there
  have allowed : Lts.Along (CeilingState.step 1) (fun s op => op.Allowed 1 s)
      ⟨twoCeilings, [], fun _ => []⟩ [.lock 0, .trylock 1, .unlock 1, .unlock 0] :=
    ⟨trivial, fun _ _ _ => ⟨trivial, fun _ _ _ => ⟨trivial, fun _ _ _ => ⟨trivial, fun _ _ _ => trivial⟩⟩⟩⟩
  have level :=
    (prio_is_ceiling_iff 1 10 twoCeilings (by decide +kernel) _ x [] allowed run).mpr (by decide +kernel)
  exact ⟨x, run, empty, level _ [] x [] (by simp) run⟩

/-- The outer mutex is unlocked first: the priority is 10 with ceiling 3 still held. -/
theorem ceiling_lost :
    ∃ x, Lts.exec (CeilingState.step 1) ⟨twoCeilings, [], fun _ => []⟩
        [.lock 0, .lock 1, .unlock 0] = some (x, []) ∧
      x.held = [1] ∧ x.kernel.prio 1 = 10 ∧ ¬x.kernel.prio 1 = ceilingOf 10 x.kernel x.held := by
  have final : (Lts.exec (CeilingState.step 1) ⟨twoCeilings, [], fun _ => []⟩
      [.lock 0, .lock 1, .unlock 0]).map
      (fun r => (r.2, r.1.held, r.1.kernel.prio 1, ceilingOf 10 r.1.kernel r.1.held)) =
      some ([], [1], 10, 3) := by decide +kernel
  obtain ⟨⟨x, es⟩, run, there⟩ := Option.map_eq_some_iff.mp final
  simp only [Prod.mk.injEq] at there
  obtain ⟨rfl, held, prio, least⟩ := there
  exact ⟨x, run, held, prio, by omega⟩

end L4ertl
