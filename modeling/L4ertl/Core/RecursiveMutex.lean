import L4ertl.Core.MutexEffect
import L4ertl.Lib.Lts

/-!
The counter of a recursive mutex (pthread.c). A lock that takes the free mutex
starts it at 1 and a trylock leaves it at 0, while the unlock that finds it at 1
frees the mutex either way.
-/
namespace L4ertl
open Intrusive
variable {T : Type} [DecidableEq T]

structure Mutex.Counts (x : Mutex T) (owner : Option T) (counter : Int) : Prop where
  owner : x.owner = owner
  counter : x.counter = counter
  type : x.attr.type = .recursive

def Progress.succeeds : Progress → Bool
  | .ret v => decide (v = 0)
  | .sched .done => true
  | .sched _ => false

section
variable {k : Kernel T} {m : Nat} {c : Int} {u : T}

theorem raiseToCeiling_counts {owner : Option T} (counts : (k.mutex m).Counts owner c) :
    ((raiseToCeiling m k).1.mutex m).Counts owner c ∧
      ((raiseToCeiling m k).2 = .ret 0 ∨ (raiseToCeiling m k).2 = .raised) := by
  obtain ⟨p, eq⟩ := raiseToCeiling_mutex m k
  constructor
  · rw [eq, Function.update_self]
    exact ⟨counts.owner, counts.counter, counts.type⟩
  · simp only [raiseToCeiling]
    split
    · split
      · exact Or.inr rfl
      · exact Or.inl rfl
    · exact Or.inl rfl

theorem lock_free (counts : (k.mutex m).Counts none c) :
    ((pthreadMutexLockSys m k).1.mutex m).Counts (some k.currentThread) 1 ∧
      (pthreadMutexLockSys m k).2.succeeds = true := by
  have stored : ((setMutex m { k.mutex m with owner := some k.currentThread, counter := 1 } k).mutex m).Counts
      (some k.currentThread) 1 := by
    simp only [setMutex, Function.update_self]
    exact ⟨rfl, rfl, counts.type⟩
  obtain ⟨raised, ends⟩ := raiseToCeiling_counts stored
  have loop : mutexLockLoop m k = raiseToCeiling m
      (setMutex m { k.mutex m with owner := some k.currentThread, counter := 1 } k) := by
    simp only [mutexLockLoop, counts.owner, if_true]
  refine ⟨by rw [pthreadMutexLockSys_kernel, loop]; exact raised, ?_⟩
  unfold pthreadMutexLockSys
  rw [loop]
  rcases ends with ends | ends
  · split
    · rename_i eq
      rw [eq] at ends
      cases ends
      rfl
    · rename_i eq
      rw [eq] at ends
      cases ends
    · rfl
  · split
    · rename_i eq
      rw [eq] at ends
      cases ends
    · rename_i eq
      rw [eq] at ends
      cases ends
    · rfl

theorem lock_mine (counts : (k.mutex m).Counts (some k.currentThread) c) :
    ((pthreadMutexLockSys m k).1.mutex m).Counts (some k.currentThread) (c + 1) ∧
      (pthreadMutexLockSys m k).2.succeeds = true := by
  have loop : mutexLockLoop m k =
      (setMutex m { k.mutex m with counter := (k.mutex m).counter + 1 } k, .ret 0) := by
    simp [mutexLockLoop, counts.owner, counts.type]
  have whole : pthreadMutexLockSys m k =
      (setMutex m { k.mutex m with counter := (k.mutex m).counter + 1 } k, .ret 0) := by
    simp only [pthreadMutexLockSys, loop]
  rw [whole]
  refine ⟨?_, rfl⟩
  simp only [setMutex, Function.update_self]
  exact ⟨counts.owner, by simp only [counts.counter], counts.type⟩

theorem lock_blocked (counts : (k.mutex m).Counts (some u) c) (other : u ≠ k.currentThread) :
    ((pthreadMutexLockSys m k).1.mutex m).Counts (some u) c ∧
      (pthreadMutexLockSys m k).2.succeeds = false := by
  have foreign : ¬some u = some k.currentThread := fun same => other (Option.some.inj same)
  have loop : mutexLockLoop m k = (blockOn (mutexWaiters m) k, .blocked) := by
    simp only [mutexLockLoop, counts.owner, reduceCtorEq, foreign, false_and, if_false]
  have whole : pthreadMutexLockSys m k = (blockOn (mutexWaiters m) k, .sched (.lockLoop m)) := by
    simp only [pthreadMutexLockSys, loop]
  rw [whole]
  refine ⟨?_, rfl⟩
  simp only
  rw [blockOn_mutex, Function.update_self]
  exact ⟨counts.owner, counts.counter, counts.type⟩

/-- The counter stays as it is, which is 0 for a free mutex. -/
theorem trylock_free (counts : (k.mutex m).Counts none c) :
    ((pthreadMutexTrylockSys m k).1.mutex m).Counts (some k.currentThread) c ∧
      (pthreadMutexTrylockSys m k).2.succeeds = true := by
  have stored : ((setMutex m { k.mutex m with owner := some k.currentThread } k).mutex m).Counts
      (some k.currentThread) c := by
    simp only [setMutex, Function.update_self]
    exact ⟨rfl, counts.counter, counts.type⟩
  obtain ⟨raised, ends⟩ := raiseToCeiling_counts stored
  simp only [pthreadMutexTrylockSys, counts.owner, if_true]
  split
  · rename_i eq
    rw [eq] at raised ends
    rcases ends with ends | ends
    · cases ends
      exact ⟨raised, rfl⟩
    · cases ends
  · rename_i eq
    rw [eq] at raised
    exact ⟨raised, rfl⟩

theorem trylock_mine (counts : (k.mutex m).Counts (some k.currentThread) c) :
    ((pthreadMutexTrylockSys m k).1.mutex m).Counts (some k.currentThread) (c + 1) ∧
      (pthreadMutexTrylockSys m k).2.succeeds = true := by
  have whole : pthreadMutexTrylockSys m k =
      (setMutex m { k.mutex m with counter := (k.mutex m).counter + 1 } k, .ret 0) := by
    simp [pthreadMutexTrylockSys, counts.owner, counts.type]
  rw [whole]
  refine ⟨?_, rfl⟩
  simp only [setMutex, Function.update_self]
  exact ⟨counts.owner, by simp only [counts.counter], counts.type⟩

theorem trylock_busy (counts : (k.mutex m).Counts (some u) c) (other : u ≠ k.currentThread) :
    pthreadMutexTrylockSys m k = (setErrno ebusy k, .ret (-1)) := by
  have foreign : ¬some u = some k.currentThread := fun same => other (Option.some.inj same)
  simp only [pthreadMutexTrylockSys, counts.owner, reduceCtorEq, foreign, false_and, if_false]

variable [Fintype T]

theorem unlock_free (counts : (k.mutex m).Counts none c) :
    ((pthreadMutexUnlockSys m k).1.mutex m).Counts none c ∧
      (pthreadMutexUnlockSys m k).2.succeeds = true := by
  have whole : pthreadMutexUnlockSys m k = (k, .ret 0) := by
    simp [pthreadMutexUnlockSys, mutexUnlock, counts.owner, counts.type]
  rw [whole]
  exact ⟨counts, rfl⟩

theorem unlock_foreign (counts : (k.mutex m).Counts (some u) c) (other : u ≠ k.currentThread) :
    ((pthreadMutexUnlockSys m k).1.mutex m).Counts (some u) c ∧
      (pthreadMutexUnlockSys m k).2.succeeds = false := by
  have foreign : some u ≠ some k.currentThread := fun same => other (Option.some.inj same)
  have whole : pthreadMutexUnlockSys m k = (setErrno eperm k, .ret (-1)) := by
    simp only [pthreadMutexUnlockSys, mutexUnlock, counts.owner, reduceCtorEq, if_false, if_pos foreign]
  rw [whole]
  exact ⟨counts, rfl⟩

theorem unlock_mine (counts : (k.mutex m).Counts (some k.currentThread) c) :
    (if c ≤ 1 then ((pthreadMutexUnlockSys m k).1.mutex m).Counts none 0
      else ((pthreadMutexUnlockSys m k).1.mutex m).Counts (some k.currentThread) (c - 1)) ∧
      (pthreadMutexUnlockSys m k).2.succeeds = true := by
  let less : Kernel T := setMutex m { k.mutex m with counter := (k.mutex m).counter - 1 } k
  have owned : ¬(k.mutex m).owner = none := by
    rw [counts.owner]
    exact Option.some_ne_none _
  have mine : ¬(k.mutex m).owner ≠ some k.currentThread := not_not.mpr counts.owner
  by_cases last : c ≤ 1
  · have unlocks : mutexUnlock m k = releaseMutex m less := by
      have done : ¬0 < (k.mutex m).counter - 1 := by
        rw [counts.counter]
        omega
      simp only [mutexUnlock, if_neg owned, if_neg mine, if_pos counts.type, if_neg done]
      rfl
    rw [if_pos last, pthreadMutexUnlockSys_kernel, unlocks, releaseMutex_mutex, Function.update_self]
    constructor
    · refine ⟨rfl, rfl, ?_⟩
      simp only [less, setMutex, Function.update_self]
      exact counts.type
    · unfold pthreadMutexUnlockSys
      rw [unlocks]
      simp only [releaseMutex]
      split
      · rename_i eq
        split at eq
        · cases eq
        · cases eq
          rfl
      · rfl
  · have whole : pthreadMutexUnlockSys m k = (less, .ret 0) := by
      have more : 0 < (k.mutex m).counter - 1 := by
        rw [counts.counter]
        omega
      simp only [pthreadMutexUnlockSys, mutexUnlock, if_neg owned, if_neg mine, if_pos counts.type,
        if_pos more]
      rfl
    rw [if_neg last, whole]
    refine ⟨?_, rfl⟩
    simp only [less, setMutex, Function.update_self]
    exact ⟨counts.owner, by simp only [counts.counter], counts.type⟩

end

/-- The calls of the threads on one mutex. A lock that has to wait is made again when
    its thread runs; `rest` is what happens between the calls. -/
inductive CountOp (T : Type) where
  | lock
  | trylock
  | unlock
  | rest (w : Kernel T)

/-- The kernel; for each thread its successful calls that take the mutex less those that
    give it back; whether the first of them was a trylock. -/
structure CountState (T : Type) where
  kernel : Kernel T
  count : T → Nat
  tried : Bool

def CountState.takes (s : CountState T) (try_ : Bool) (r : Kernel T × Progress) : CountState T :=
  let t := s.kernel.currentThread
  if r.2.succeeds then
    ⟨r.1, Function.update s.count t (s.count t + 1), if s.count t = 0 then try_ else s.tried⟩
  else { s with kernel := r.1 }

def CountState.gives (s : CountState T) (r : Kernel T × Progress) : CountState T :=
  let t := s.kernel.currentThread
  if r.2.succeeds then { s with kernel := r.1, count := Function.update s.count t (s.count t - 1) }
  else { s with kernel := r.1 }

def CountState.step [Fintype T] (m : Nat) (s : CountState T) :
    CountOp T → Option (CountState T × List Unit)
  | .lock => some (s.takes false (pthreadMutexLockSys m s.kernel), [])
  | .trylock => some (s.takes true (pthreadMutexTrylockSys m s.kernel), [])
  | .unlock => some (s.gives (pthreadMutexUnlockSys m s.kernel), [])
  | .rest w => some ({ s with kernel := w }, [])

/-- What is no call on the mutex may put threads on its list, but leaves the rest of it. -/
def CountOp.Allowed (m : Nat) (s : CountState T) : CountOp T → Prop
  | .rest w => ∃ h, w.mutex m = { s.kernel.mutex m with mutexList := h }
  | _ => True

/-- The mutex belongs to the thread that has taken it more often than it gave it back,
    and only then another thread finds it busy. -/
structure CountState.Exact (m : Nat) (s : CountState T) : Prop where
  owner : ∀ u, (s.kernel.mutex m).owner = some u ↔ 0 < s.count u
  busy : ∀ v, pthreadMutexTrylockSys m { s.kernel with currentThread := v } =
    (setErrno ebusy { s.kernel with currentThread := v }, .ret (-1)) ↔ ∃ u, u ≠ v ∧ 0 < s.count u

def CountOp.Safe (s : CountState T) : CountOp T → Prop
  | .unlock => ¬(s.tried = true ∧ s.count s.kernel.currentThread = 2)
  | _ => True

structure CountState.Idle (m : Nat) (s : CountState T) : Prop where
  counts : (s.kernel.mutex m).Counts none 0
  none_ : ∀ u, s.count u = 0

/-- `u` has taken the mutex `n` times; the counter does not know of a first trylock. -/
structure CountState.Held (m : Nat) (s : CountState T) (u : T) (n : Nat) : Prop where
  counts : (s.kernel.mutex m).Counts (some u) (n - if s.tried then 1 else 0)
  mine : s.count u = n
  positive : 0 < n
  others : ∀ v, v ≠ u → s.count v = 0

section
variable {m : Nat} {s : CountState T} {u : T} {n : Nat} {c : Int}

theorem trylock_busy_iff {k : Kernel T} (type : (k.mutex m).attr.type = .recursive) :
    pthreadMutexTrylockSys m k = (setErrno ebusy k, .ret (-1)) ↔
      ∃ u, (k.mutex m).owner = some u ∧ u ≠ k.currentThread := by
  constructor
  · intro refused
    cases owner : (k.mutex m).owner with
    | none =>
      have taken := (trylock_free (k := k) (m := m) ⟨owner, rfl, type⟩).2
      rw [refused] at taken
      cases taken
    | some u =>
      refine ⟨u, rfl, fun mine => ?_⟩
      have taken := (trylock_mine (k := k) (m := m) ⟨by rw [owner, mine], rfl, type⟩).2
      rw [refused] at taken
      cases taken
  · rintro ⟨u, owner, other⟩
    exact trylock_busy ⟨owner, rfl, type⟩ other

theorem CountState.exact_of_owner (type : (s.kernel.mutex m).attr.type = .recursive)
    (owner : ∀ u, (s.kernel.mutex m).owner = some u ↔ 0 < s.count u) : s.Exact m := by
  refine ⟨owner, fun v => ?_⟩
  rw [trylock_busy_iff (k := { s.kernel with currentThread := v }) type]
  constructor
  · rintro ⟨u, has, other⟩
    exact ⟨u, other, (owner u).mp has⟩
  · rintro ⟨u, other, taken⟩
    exact ⟨u, (owner u).mpr taken, other⟩

theorem CountState.Idle.exact (idle : s.Idle m) : s.Exact m := by
  apply exact_of_owner idle.counts.type
  intro u
  rw [idle.counts.owner, idle.none_ u]
  constructor
  · intro none_
    cases none_
  · intro more
    omega

theorem CountState.Held.exact (held : s.Held m u n) : s.Exact m := by
  apply exact_of_owner held.counts.type
  intro v
  rw [held.counts.owner]
  constructor
  · intro same
    cases same
    rw [held.mine]
    exact held.positive
  · intro taken
    by_contra other
    have nothing := held.others v fun same => other (congrArg some same.symm)
    omega

structure CountState.Counter (m : Nat) (s : CountState T) : Prop where
  type : (s.kernel.mutex m).attr.type = .recursive
  free : (s.kernel.mutex m).owner = none → (s.kernel.mutex m).counter = 0
  taken : ∀ u, (s.kernel.mutex m).owner = some u →
    (s.kernel.mutex m).counter = s.count u - if s.tried then 1 else 0

omit [DecidableEq T] in
theorem CountState.Idle.counter (idle : s.Idle m) : s.Counter m := by
  refine ⟨idle.counts.type, fun _ => idle.counts.counter, fun u owner => ?_⟩
  rw [idle.counts.owner] at owner
  cases owner

omit [DecidableEq T] in
theorem CountState.Held.counter (held : s.Held m u n) : s.Counter m := by
  refine ⟨held.counts.type, fun free => ?_, fun v owner => ?_⟩
  · rw [held.counts.owner] at free
    cases free
  · rw [held.counts.owner] at owner
    cases owner
    rw [held.counts.counter, held.mine]

theorem CountState.cases (counter : s.Counter m) (exact_ : s.Exact m) :
    s.Idle m ∨ ∃ u n, s.Held m u n := by
  cases owner : (s.kernel.mutex m).owner with
  | none =>
    refine Or.inl ⟨⟨owner, counter.free owner, counter.type⟩, fun u => ?_⟩
    by_contra some_
    have has := (exact_.owner u).mpr (by omega)
    rw [owner] at has
    cases has
  | some u =>
    refine Or.inr ⟨u, s.count u, ⟨owner, counter.taken u owner, counter.type⟩, rfl,
      (exact_.owner u).mp owner, fun v other => ?_⟩
    by_contra some_
    have has := (exact_.owner v).mpr (by omega)
    rw [owner] at has
    exact other (Option.some.inj has).symm

end

section
variable {m : Nat} {s w : CountState T} {u : T} {n : Nat}

theorem CountState.Idle.taken (idle : s.Idle m) (try_ : Bool) {r : Kernel T × Progress}
    (counts : (r.1.mutex m).Counts (some s.kernel.currentThread) (1 - if try_ then 1 else 0))
    (succeeds : r.2.succeeds = true) : (s.takes try_ r).Held m s.kernel.currentThread 1 := by
  unfold takes
  simp only [succeeds, if_true, idle.none_]
  constructor
  · exact counts
  · exact Function.update_self ..
  · exact Nat.one_pos
  · intro v other
    exact (Function.update_of_ne other ..).trans (idle.none_ v)

theorem CountState.Held.taken (held : s.Held m s.kernel.currentThread n) (try_ : Bool)
    {r : Kernel T × Progress}
    (counts : (r.1.mutex m).Counts (some s.kernel.currentThread) (n - (if s.tried then 1 else 0) + 1))
    (succeeds : r.2.succeeds = true) : (s.takes try_ r).Held m s.kernel.currentThread (n + 1) := by
  have some_ : ¬n = 0 := Nat.pos_iff_ne_zero.mp held.positive
  unfold takes
  simp only [succeeds, if_true, held.mine, some_, if_false]
  constructor
  · refine ⟨counts.owner, ?_, counts.type⟩
    rw [counts.counter]
    push_cast
    omega
  · exact Function.update_self ..
  · exact Nat.succ_pos n
  · intro v other
    exact (Function.update_of_ne other ..).trans (held.others v other)

omit [DecidableEq T] in
theorem CountState.Held.keep (held : s.Held m u n) {k : Kernel T} {c : Int}
    (counts : (k.mutex m).Counts (some u) c) (same : c = n - if s.tried then 1 else 0) :
    CountState.Held m { s with kernel := k } u n :=
  ⟨same ▸ counts, held.mine, held.positive, held.others⟩

omit [DecidableEq T] in
theorem CountState.Held.rest (held : s.Held m u n) {k : Kernel T} (allowed : CountOp.Allowed m s (.rest k)) :
    CountState.Held m { s with kernel := k } u n := by
  obtain ⟨h, same⟩ := allowed
  refine held.keep (c := (s.kernel.mutex m).counter) ?_ held.counts.counter
  rw [same]
  exact ⟨held.counts.owner, rfl, held.counts.type⟩

variable [Fintype T]

theorem CountState.Idle.step (idle : s.Idle m) {op : CountOp T} {es : List Unit}
    (allowed : op.Allowed m s) (taken : s.step m op = some (w, es)) :
    w.Idle m ∨ ∃ u n, w.Held m u n := by
  cases op with
  | lock =>
    cases taken
    obtain ⟨counts, succeeds⟩ := lock_free idle.counts
    exact Or.inr ⟨_, 1, idle.taken false counts succeeds⟩
  | trylock =>
    cases taken
    obtain ⟨counts, succeeds⟩ := trylock_free idle.counts
    exact Or.inr ⟨_, 1, idle.taken true counts succeeds⟩
  | unlock =>
    cases taken
    obtain ⟨counts, succeeds⟩ := unlock_free idle.counts
    refine Or.inl ⟨?_, fun v => ?_⟩
    · unfold gives
      simp only [succeeds, if_true]
      exact counts
    · unfold gives
      simp only [succeeds, if_true, Function.update_apply, idle.none_]
      split
      · rfl
      · rfl
  | rest k =>
    cases taken
    obtain ⟨h, same⟩ := allowed
    refine Or.inl ⟨?_, idle.none_⟩
    simp only [same]
    exact ⟨idle.counts.owner, idle.counts.counter, idle.counts.type⟩

theorem CountState.Held.given (held : s.Held m s.kernel.currentThread n) :
    (s.gives (pthreadMutexUnlockSys m s.kernel)).Counter m ∧
      ((s.gives (pthreadMutexUnlockSys m s.kernel)).Exact m ↔ CountOp.Safe s .unlock) := by
  obtain ⟨counts, succeeds⟩ := unlock_mine held.counts
  have positive := held.positive
  have gone : s.gives (pthreadMutexUnlockSys m s.kernel) =
      { s with kernel := (pthreadMutexUnlockSys m s.kernel).1,
               count := Function.update s.count s.kernel.currentThread (n - 1) } := by
    unfold gives
    simp only [succeeds, if_true, held.mine]
  have others : ∀ v, v ≠ s.kernel.currentThread →
      Function.update s.count s.kernel.currentThread (n - 1) v = 0 := by
    intro v other
    rw [Function.update_of_ne other, held.others v other]
  rw [gone]
  by_cases last : (n : Int) - (if s.tried then 1 else 0) ≤ 1
  · rw [if_pos last] at counts
    by_cases one : n = 1
    · have idle : CountState.Idle m { s with
          kernel := (pthreadMutexUnlockSys m s.kernel).1,
          count := Function.update s.count s.kernel.currentThread (n - 1) } := by
        refine ⟨counts, fun v => ?_⟩
        by_cases mine : v = s.kernel.currentThread
        · simp only [mine, Function.update_self, one]
        · exact others v mine
      refine ⟨idle.counter, fun _ both => ?_, fun _ => idle.exact⟩
      rw [held.mine, one] at both
      cases both.2
    · -- only a first trylock leaves the counter this low
      have lost : s.tried = true ∧ n = 2 := by
        cases tried : s.tried with
        | true =>
          rw [tried] at last
          simp only [if_true] at last
          exact ⟨rfl, by omega⟩
        | false =>
          rw [tried] at last
          simp only [Bool.false_eq_true, if_false] at last
          omega
      refine ⟨⟨counts.type, fun _ => counts.counter, fun v owner => ?_⟩, fun exact_ => ?_, fun safe => ?_⟩
      · rw [counts.owner] at owner
        cases owner
      · have owner := (exact_.owner s.kernel.currentThread).mpr (by
          simp only [Function.update_self]
          omega)
        rw [counts.owner] at owner
        cases owner
      · exact absurd ⟨lost.1, held.mine.trans lost.2⟩ safe
  · rw [if_neg last] at counts
    have more : 1 < n := by
      split at last
      · omega
      · omega
    have held' : CountState.Held m { s with
        kernel := (pthreadMutexUnlockSys m s.kernel).1,
        count := Function.update s.count s.kernel.currentThread (n - 1) } s.kernel.currentThread
        (n - 1) := by
      refine ⟨⟨counts.owner, ?_, counts.type⟩, Function.update_self .., by omega, others⟩
      rw [counts.counter]
      push_cast [Nat.cast_sub (show 1 ≤ n by omega)]
      omega
    refine ⟨held'.counter, fun _ both => ?_, fun _ => held'.exact⟩
    rw [if_pos both.1] at last
    have two := held.mine.symm.trans both.2
    omega

theorem CountState.step_exact (counter : s.Counter m) (exact_ : s.Exact m) {op : CountOp T}
    {es : List Unit} (allowed : op.Allowed m s) (taken : s.step m op = some (w, es)) :
    w.Counter m ∧ (w.Exact m ↔ op.Safe s) := by
  have still : op.Safe s → (w.Idle m ∨ ∃ u n, w.Held m u n) → w.Counter m ∧ (w.Exact m ↔ op.Safe s) := by
    rintro safe (idle | ⟨u, n, held⟩)
    · exact ⟨idle.counter, fun _ => safe, fun _ => idle.exact⟩
    · exact ⟨held.counter, fun _ => safe, fun _ => held.exact⟩
  rcases CountState.cases counter exact_ with idle | ⟨u, n, held⟩
  · apply still _ (idle.step allowed taken)
    cases op with
    | unlock =>
      rintro ⟨_, two⟩
      rw [idle.none_] at two
      cases two
    | lock => trivial
    | trylock => trivial
    | rest k => trivial
  · by_cases mine : u = s.kernel.currentThread
    · subst mine
      cases op with
      | lock =>
        cases taken
        obtain ⟨counts, succeeds⟩ := lock_mine held.counts
        exact still trivial (Or.inr ⟨_, _, held.taken false counts succeeds⟩)
      | trylock =>
        cases taken
        obtain ⟨counts, succeeds⟩ := trylock_mine held.counts
        exact still trivial (Or.inr ⟨_, _, held.taken true counts succeeds⟩)
      | unlock =>
        cases taken
        exact held.given
      | rest k =>
        cases taken
        exact still trivial (Or.inr ⟨_, n, held.rest allowed⟩)
    · cases op with
      | lock =>
        cases taken
        obtain ⟨counts, fails⟩ := lock_blocked held.counts mine
        refine still trivial (Or.inr ⟨u, n, ?_⟩)
        unfold takes
        simp only [fails, Bool.false_eq_true, if_false]
        exact held.keep counts rfl
      | trylock =>
        cases taken
        have busy := trylock_busy held.counts mine
        refine still trivial (Or.inr ⟨u, n, ?_⟩)
        rw [busy]
        exact held.keep (k := setErrno ebusy s.kernel) held.counts rfl
      | unlock =>
        cases taken
        obtain ⟨counts, fails⟩ := unlock_foreign held.counts mine
        have safe : CountOp.Safe s .unlock := by
          rintro ⟨_, two⟩
          rw [held.others _ fun same => mine same.symm] at two
          cases two
        refine still safe (Or.inr ⟨u, n, ?_⟩)
        unfold gives
        simp only [fails, Bool.false_eq_true, if_false]
        exact held.keep counts rfl
      | rest k =>
        cases taken
        exact still trivial (Or.inr ⟨u, n, held.rest allowed⟩)

end

section
variable {m : Nat} {s w : CountState T}

theorem CountState.takes_kernel (try_ : Bool) (r : Kernel T × Progress) : (s.takes try_ r).kernel = r.1 := by
  unfold takes
  split
  · rfl
  · rfl

theorem CountState.gives_kernel (r : Kernel T × Progress) : (s.gives r).kernel = r.1 := by
  unfold gives
  split
  · rfl
  · rfl

variable [Fintype T]

theorem CountState.step_counter (type : (s.kernel.mutex m).attr.type = .recursive) {op : CountOp T}
    {es : List Unit} (allowed : op.Allowed m s) (taken : s.step m op = some (w, es)) :
    (w.kernel.mutex m).attr.type = .recursive ∧
      (w.kernel.mutex m).counter.natAbs ≤ (s.kernel.mutex m).counter.natAbs + 1 := by
  have near {o : Option T} {c : Int} (counts : (w.kernel.mutex m).Counts o c)
      (small : c.natAbs ≤ (s.kernel.mutex m).counter.natAbs + 1) :
      (w.kernel.mutex m).attr.type = .recursive ∧
        (w.kernel.mutex m).counter.natAbs ≤ (s.kernel.mutex m).counter.natAbs + 1 :=
    ⟨counts.type, counts.counter ▸ small⟩
  cases op with
  | lock =>
    cases taken
    simp only [takes_kernel] at near ⊢
    cases owner : (s.kernel.mutex m).owner with
    | none => exact near (lock_free ⟨owner, rfl, type⟩).1 (by omega)
    | some u =>
      by_cases mine : u = s.kernel.currentThread
      · exact near (lock_mine ⟨mine ▸ owner, rfl, type⟩).1 (by omega)
      · exact near (lock_blocked ⟨owner, rfl, type⟩ mine).1 (by omega)
  | trylock =>
    cases taken
    simp only [takes_kernel] at near ⊢
    cases owner : (s.kernel.mutex m).owner with
    | none => exact near (trylock_free ⟨owner, rfl, type⟩).1 (by omega)
    | some u =>
      by_cases mine : u = s.kernel.currentThread
      · exact near (trylock_mine ⟨mine ▸ owner, rfl, type⟩).1 (by omega)
      · rw [trylock_busy ⟨owner, rfl, type⟩ mine]
        exact ⟨type, Nat.le_succ _⟩
  | unlock =>
    cases taken
    simp only [gives_kernel] at near ⊢
    cases owner : (s.kernel.mutex m).owner with
    | none => exact near (unlock_free ⟨owner, rfl, type⟩).1 (by omega)
    | some u =>
      by_cases mine : u = s.kernel.currentThread
      · have counts := (unlock_mine (k := s.kernel) (m := m) ⟨mine ▸ owner, rfl, type⟩).1
        split at counts
        · exact near counts (by omega)
        · exact near counts (by omega)
      · exact near (unlock_foreign ⟨owner, rfl, type⟩ mine).1 (by omega)
  | rest k =>
    cases taken
    obtain ⟨h, same⟩ := allowed
    simp only [same]
    exact ⟨type, Nat.le_succ _⟩

theorem CountState.counter_within (ops : List (CountOp T)) {x : CountState T} {es : List Unit}
    (type : (s.kernel.mutex m).attr.type = .recursive)
    (allowed : Lts.Along (CountState.step m) (fun s op => op.Allowed m s) s ops)
    (run : Lts.exec (CountState.step m) s ops = some (x, es)) :
    (x.kernel.mutex m).counter.natAbs ≤ (s.kernel.mutex m).counter.natAbs + ops.length := by
  induction ops generalizing s es with
  | nil =>
    cases run
    exact Nat.le_add_right _ _
  | cons op ops ih =>
    obtain ⟨w, first, later, taken, rest, _⟩ := Lts.exec_cons run
    obtain ⟨recursive, near⟩ := step_counter type allowed.1 taken
    have far := ih recursive (allowed.2 w first taken) rest
    rw [List.length_cons]
    omega

end

def countStart (k : Kernel T) : CountState T := ⟨k, fun _ => 0, false⟩

/-- From a free recursive mutex on, it belongs all along to the thread that has taken it
    more often than it gave it back, exactly if no thread that took the free mutex by a
    trylock unlocks it at depth two; and the counter is no larger than the number of calls. -/
theorem recursive_exact_iff [Fintype T] (m : Nat) (k : Kernel T) (free : (k.mutex m).Counts none 0)
    (ops : List (CountOp T)) (x : CountState T) (es : List Unit)
    (allowed : Lts.Along (CountState.step m) (fun s op => op.Allowed m s) (countStart k) ops)
    (run : Lts.exec (CountState.step m) (countStart k) ops = some (x, es)) :
    ((∀ before after s past, ops = before ++ after →
        Lts.exec (CountState.step m) (countStart k) before = some (s, past) → s.Exact m) ↔
      Lts.Along (CountState.step m) (fun s op => op.Safe s) (countStart k) ops) ∧
    (x.kernel.mutex m).counter.natAbs ≤ ops.length := by
  have idle : (countStart k).Idle m := ⟨free, fun _ => rfl⟩
  constructor
  · exact Lts.good_iff_along
      (fun s op w es counter exact_ may taken => CountState.step_exact counter exact_ may taken) ops
      idle.counter idle.exact allowed run
  · have within := CountState.counter_within ops free.type allowed run
    have zero : ((countStart k).kernel.mutex m).counter = 0 := free.counter
    rw [zero] at within
    omega

instance (s : CountState T) : ∀ op : CountOp T, Decidable (op.Safe s)
  | .unlock => inferInstanceAs (Decidable (¬(_ ∧ _)))
  | .lock | .trylock | .rest _ => isTrue trivial

def freeMutexes : Kernel (Fin 2) :=
  { twoThreads with mutex := fun _ => ⟨0, ⟨.none, 0, .recursive, 0⟩, none, none⟩ }

theorem recursive_exact_iff_two :
    ∃ x, Lts.exec (CountState.step 0) (countStart freeMutexes) [.lock, .trylock, .unlock] = some (x, []) ∧
      x.count 1 = 1 ∧ (x.kernel.mutex 0).owner = some 1 ∧ x.Exact 0 := by
  have final : (Lts.exec (CountState.step 0) (countStart freeMutexes) [.lock, .trylock, .unlock]).map
      (fun r => (r.2, r.1.count 1, (r.1.kernel.mutex 0).owner)) = some ([], 1, some 1) := by decide +kernel
  obtain ⟨⟨x, es⟩, run, eq⟩ := Option.map_eq_some_iff.mp final
  simp only [Prod.mk.injEq] at eq
  obtain ⟨rfl, depth, owner⟩ := eq
  have allowed : Lts.Along (CountState.step 0) (fun s op => op.Allowed 0 s) (countStart freeMutexes)
      [.lock, .trylock, .unlock] :=
    ⟨trivial, fun _ _ _ => ⟨trivial, fun _ _ _ => ⟨trivial, fun _ _ _ => trivial⟩⟩⟩
  have law := (recursive_exact_iff 0 freeMutexes ⟨rfl, rfl, rfl⟩ _ x [] allowed run).1.mpr (by decide +kernel)
  exact ⟨x, run, depth, owner, law _ [] x [] (by simp) run⟩

theorem recursive_freed_early :
    ∃ x, Lts.exec (CountState.step 0) (countStart freeMutexes) [.trylock, .lock, .unlock] = some (x, []) ∧
      x.count 1 = 1 ∧ (x.kernel.mutex 0).owner = none ∧ ¬x.Exact 0 := by
  have final : (Lts.exec (CountState.step 0) (countStart freeMutexes) [.trylock, .lock, .unlock]).map
      (fun r => (r.2, r.1.count 1, (r.1.kernel.mutex 0).owner)) = some ([], 1, none) := by decide +kernel
  obtain ⟨⟨x, es⟩, run, eq⟩ := Option.map_eq_some_iff.mp final
  simp only [Prod.mk.injEq] at eq
  obtain ⟨rfl, depth, owner⟩ := eq
  refine ⟨x, run, depth, owner, fun exact_ => ?_⟩
  have mine := (exact_.owner 1).mpr (by omega)
  rw [owner] at mine
  cases mine

end L4ertl
