import Mathlib.Algebra.BigOperators.Group.Finset.Basic
import Mathlib.Algebra.Order.BigOperators.Group.Finset
import Mathlib.Data.Fintype.BigOperators
import L4ertl.Core.Kstack

/-!
CPU-time accounting (sched.c, time.c). The thread that leaves the processor adds
its slice to used_time before the switch; the thread that comes back stamps
starting_time after it. A thread that is dispatched for the first time starts in
user mode, without the second half of `scheduling`, and keeps the zero of its
structure in starting_time.
-/
namespace L4ertl
open Intrusive
variable {T : Type} [DecidableEq T]

def nextThread (k : Kernel T) : T := (getHeadSs k.activeThreads).1.getD k.idleThread

/-- `scheduling` with its two readings of the monotonic clock: the one that ends
    the slice of the old thread, and the one after the switch. -/
def schedulingAt (before after : Duration) (k : Kernel T) : Kernel T :=
  if k.irqNestingCounter &&& outsideIrqs ≠ 0#32 then
    { k with irqNestingCounter := k.irqNestingCounter ||| schedPending }
  else
    let new := nextThread k
    if new ≠ k.currentThread then
      let old := k.currentThread
      contextSwitchTo after new { k with
        usedTime := Function.update k.usedTime old (k.usedTime old + (before - k.startingTime old)) }
    else { k with irqNestingCounter := 0#32 }

def clockTime (now : Clocks) (k : Kernel T) : Clockid → Duration
  | .realtime => now.realtime
  | .monotonic => now.monotonic
  | .threadCputime =>
    k.usedTime k.currentThread + now.monotonic - k.startingTime k.currentThread

/-- `wanted` says whether `tp` is a place, the last component what it receives. -/
def clockGettimeSys (clockId : Int) (wanted : Bool) (now : Clocks) (k : Kernel T) :
    Kernel T × Int × Option Timespec :=
  if !wanted then (setErrno efault k, -1, none)
  else
    match clockOf clockId with
    | some clock => (k, 0, some (timespecOf (clockTime now k clock)))
    | none => (setErrno einval k, -1, none)

/-- The kernel and what an observer of current_thread writes down. A structure
    that is used again belongs to another thread; `former` keeps the used_time of
    the ones it belonged to before. -/
structure Accounts (T : Type) where
  kernel : Kernel T
  began : Duration
  -- the latest reading of the clock
  clock : Duration
  -- when the current thread began to run
  since : Duration
  -- the slices of each thread that are finished
  ran : T → Nat
  former : Nat
  -- the time inside `scheduling`
  inside : Nat

inductive CpuLabel (T : Type) where
  | schedule (before after : Duration)
  | create (addr : T)
  | work (kernel : Kernel T)

/-- Whatever the kernel does between two switches leaves these alone. -/
def SameAccounts (k w : Kernel T) : Prop :=
  w.currentThread = k.currentThread ∧ w.usedTime = k.usedTime ∧ w.startingTime = k.startingTime ∧
    w.kentrySp = k.kentrySp

instance [Fintype T] (k w : Kernel T) : Decidable (SameAccounts k w) :=
  inferInstanceAs (Decidable (_ ∧ _ ∧ _ ∧ _))

def Accounts.switch (s : Accounts T) (before after : Duration) (k : Kernel T) : Accounts T :=
  { s with
    kernel := k
    clock := after
    since := after
    ran := Function.update s.ran s.kernel.currentThread
      (s.ran s.kernel.currentThread + (before.toNat - s.since.toNat))
    inside := s.inside + (after.toNat - before.toNat) }

/-- The clock does not go back, and memory in use is not handed out. -/
def Accounts.step [Fintype T] (s : Accounts T) : CpuLabel T → Option (Accounts T × List Unit)
  | .schedule before after =>
    if s.clock ≤ before ∧ before ≤ after then
      let k := schedulingAt before after s.kernel
      if k.currentThread = s.kernel.currentThread then some ({ s with kernel := k, clock := after }, [])
      else some (s.switch before after k, [])
    else none
  | .create t =>
    if s.kernel.live t = false ∧ t ≠ s.kernel.currentThread then
      some ({ s with
        kernel := (createPthreadStruct (some t) s.kernel).1
        ran := Function.update s.ran t 0
        former := s.former + (s.kernel.usedTime t).toNat }, [])
    else none
  | .work w => if SameAccounts s.kernel w then some ({ s with kernel := w }, []) else none

def Accounts.start (now : Duration) (idle : T) : Accounts T where
  kernel := createIdle now idle (bootKernel idle)
  began := now
  clock := now
  since := now
  ran := fun _ => 0
  former := 0
  inside := 0

/-- What CLOCK_THREAD_CPUTIME_ID shows in the running thread is the time that it
    ran, used_time is it for the others, and all of them account for the time
    since create_idle. -/
structure Accounted [Fintype T] (s : Accounts T) : Prop where
  cputime : ∀ now, s.clock ≤ now.monotonic →
    (clockTime now s.kernel .threadCputime).toNat =
      s.ran s.kernel.currentThread + (now.monotonic.toNat - s.since.toNat)
  rest : ∀ t, t ≠ s.kernel.currentThread → (s.kernel.usedTime t).toNat = s.ran t
  total : ∀ now, s.clock ≤ now →
    ∑ t, (s.kernel.usedTime t).toNat + s.former +
      (now - s.kernel.startingTime s.kernel.currentThread).toNat + s.inside =
      now.toNat - s.began.toNat

def Stamped (s : Accounts T) : CpuLabel T → Prop
  | .schedule _ after =>
    s.kernel.irqNestingCounter &&& outsideIrqs = 0#32 → nextThread s.kernel ≠ s.kernel.currentThread →
      s.kernel.kentrySp (nextThread s.kernel) ≠ none ∨ after = 0#64
  | _ => True

instance (s : Accounts T) : (l : CpuLabel T) → Decidable (Stamped s l)
  | .schedule _ _ => inferInstanceAs (Decidable (_ → _ → _ ∨ _))
  | .create _ => inferInstanceAs (Decidable True)
  | .work _ => inferInstanceAs (Decidable True)

structure Balanced [Fintype T] (s : Accounts T) : Prop where
  order : s.began.toNat ≤ s.since.toNat ∧ s.since.toNat ≤ s.clock.toNat
  fresh : ∀ t, s.kernel.kentrySp t = none → s.kernel.startingTime t = 0#64
  used : ∀ t, (s.kernel.usedTime t).toNat = s.ran t
  spent : s.began.toNat + (∑ t, s.ran t + s.former + s.inside) = s.since.toNat

theorem sum_update_add [Fintype T] (f : T → Nat) (t : T) (v : Nat) :
    ∑ u, Function.update f t v u + f t = ∑ u, f u + v := by
  have split := Finset.sum_erase_add Finset.univ f (Finset.mem_univ t)
  rw [Finset.sum_update_of_mem (Finset.mem_univ t), Finset.sdiff_singleton_eq_erase]
  omega

section
variable [Fintype T] {s w : Accounts T}

omit [DecidableEq T] in
theorem Balanced.ran_le (balanced : Balanced s) (t : T) :
    s.began.toNat + s.ran t ≤ s.since.toNat := by
  have one : s.ran t ≤ ∑ u, s.ran u := Finset.single_le_sum (fun _ _ => Nat.zero_le _) (Finset.mem_univ t)
  have := balanced.spent
  omega

omit [DecidableEq T] in
theorem Balanced.accounted_iff (balanced : Balanced s) :
    Accounted s ↔ s.kernel.startingTime s.kernel.currentThread = s.since := by
  have used := balanced.used s.kernel.currentThread
  have fits := balanced.ran_le s.kernel.currentThread
  have order := balanced.order
  constructor
  · intro accounted
    have shown := accounted.cputime ⟨s.clock, 0⟩ (BitVec.le_refl _)
    simp only [clockTime] at shown
    have bound := s.clock.isLt
    apply BitVec.eq_of_toNat_eq
    have small := (s.kernel.startingTime s.kernel.currentThread).isLt
    rw [BitVec.toNat_sub, BitVec.toNat_add, used] at shown
    omega
  · intro stamp
    refine ⟨fun now later => ?_, fun t _ => balanced.used t, fun now later => ?_⟩
    · have bound := now.monotonic.isLt
      have later := BitVec.le_def.mp later
      simp only [clockTime]
      rw [stamp, BitVec.toNat_sub, BitVec.toNat_add, used]
      omega
    · have bound := now.isLt
      have later := BitVec.le_def.mp later
      have slice : (now - s.since).toNat = now.toNat - s.since.toNat :=
        BitVec.toNat_sub_of_le (BitVec.le_def.mpr (order.2.trans later))
      have spent := balanced.spent
      have all : ∑ t, (s.kernel.usedTime t).toNat = ∑ t, s.ran t :=
        Finset.sum_congr rfl fun t _ => balanced.used t
      rw [stamp, slice, all]
      omega

end

theorem schedulingAt_cases (before after : Duration) (k : Kernel T) :
    (k.irqNestingCounter &&& outsideIrqs = 0#32 ∧ nextThread k ≠ k.currentThread ∧
      (schedulingAt before after k).currentThread = nextThread k ∧
      (schedulingAt before after k).usedTime =
        Function.update k.usedTime k.currentThread
          (k.usedTime k.currentThread + (before - k.startingTime k.currentThread)) ∧
      (schedulingAt before after k).startingTime = (if k.kentrySp (nextThread k) = none then
        k.startingTime else Function.update k.startingTime (nextThread k) after) ∧
      ∀ t, (schedulingAt before after k).kentrySp t = none → k.kentrySp t = none) ∨
    ((k.irqNestingCounter &&& outsideIrqs = 0#32 → nextThread k = k.currentThread) ∧
      SameAccounts k (schedulingAt before after k)) := by
  unfold schedulingAt
  split
  · rename_i nested
    exact Or.inr ⟨fun outside => absurd outside nested, rfl, rfl, rfl, rfl⟩
  · rename_i outside
    simp only
    split
    · rename_i other
      left
      refine ⟨not_not.mp outside, other, ?_⟩
      cases slot : k.kentrySp (nextThread k) with
      | none =>
        simp only [contextSwitchTo, slot, allocKstack, ↓reduceIte, true_and]
        intro t none
        rw [Function.update_apply] at none
        split at none
        · cases none
        · exact none
      | some i =>
        simp only [contextSwitchTo, slot, reduceCtorEq, ↓reduceIte, true_and, imp_self, implies_true]
    · rename_i same
      exact Or.inr ⟨fun _ => not_not.mp same, rfl, rfl, rfl, rfl⟩

section
variable [Fintype T] {s w : Accounts T}

omit [DecidableEq T] in
theorem Balanced.same (balanced : Balanced s) (good : Accounted s) {k : Kernel T}
    (same : SameAccounts s.kernel k) {after : Duration} (later : s.clock.toNat ≤ after.toNat) :
    Balanced { s with kernel := k, clock := after } ∧ Accounted { s with kernel := k, clock := after } := by
  obtain ⟨current, used, starting, slots⟩ := same
  have next : Balanced { s with kernel := k, clock := after } := by
    refine ⟨⟨balanced.order.1, balanced.order.2.trans later⟩, ?_, ?_, balanced.spent⟩
    · rw [slots, starting]
      exact balanced.fresh
    · rw [used]
      exact balanced.used
  refine ⟨next, next.accounted_iff.mpr ?_⟩
  rw [current, starting]
  exact balanced.accounted_iff.mp good

theorem Balanced.create (balanced : Balanced s) (good : Accounted s) {t : T}
    (other : t ≠ s.kernel.currentThread)
    (here : w = { s with
      kernel := (createPthreadStruct (some t) s.kernel).1
      ran := Function.update s.ran t 0
      former := s.former + (s.kernel.usedTime t).toNat }) : Balanced w ∧ Accounted w := by
  subst here
  have next : Balanced { s with
      kernel := (createPthreadStruct (some t) s.kernel).1
      ran := Function.update s.ran t 0
      former := s.former + (s.kernel.usedTime t).toNat } := by
    refine ⟨balanced.order, fun u => ?_, fun u => ?_, ?_⟩
    · by_cases self : u = t
      · simp [createPthreadStruct, self]
      · simpa [createPthreadStruct, self] using balanced.fresh u
    · by_cases self : u = t
      · simp [createPthreadStruct, self]
      · simpa [createPthreadStruct, self] using balanced.used u
    · have moved := sum_update_add s.ran t 0
      have used := balanced.used t
      have spent := balanced.spent
      simp only
      omega
  refine ⟨next, next.accounted_iff.mpr ?_⟩
  have stamp := balanced.accounted_iff.mp good
  simpa [createPthreadStruct, other.symm] using stamp

theorem Balanced.switch (balanced : Balanced s) (good : Accounted s) {before after : Duration}
    (first : s.clock.toNat ≤ before.toNat) (second : before.toNat ≤ after.toNat) {k : Kernel T}
    (used : k.usedTime = Function.update s.kernel.usedTime s.kernel.currentThread
      (s.kernel.usedTime s.kernel.currentThread +
        (before - s.kernel.startingTime s.kernel.currentThread)))
    (starting : k.startingTime = if s.kernel.kentrySp k.currentThread = none then
      s.kernel.startingTime else Function.update s.kernel.startingTime k.currentThread after)
    (slots : ∀ t, k.kentrySp t = none → s.kernel.kentrySp t = none) :
    Balanced (s.switch before after k) ∧ (Accounted (s.switch before after k) ↔
      s.kernel.kentrySp k.currentThread ≠ none ∨ after = 0#64) := by
  have stamp := balanced.accounted_iff.mp good
  have order := balanced.order
  have next : Balanced (s.switch before after k) := by
    refine ⟨⟨by simp only [Accounts.switch]; omega, Nat.le_refl _⟩, fun t none => ?_, fun t => ?_, ?_⟩
    · have before := slots t none
      simp only [Accounts.switch, starting]
      split
      · exact balanced.fresh t before
      · rename_i stack
        have other : t ≠ k.currentThread := by
          rintro rfl
          exact stack before
        rw [Function.update_of_ne other]
        exact balanced.fresh t before
    · simp only [Accounts.switch, used]
      by_cases self : t = s.kernel.currentThread
      · subst self
        have fits := balanced.ran_le s.kernel.currentThread
        have bound := before.isLt
        rw [Function.update_self, Function.update_self, stamp, BitVec.toNat_add,
          BitVec.toNat_sub_of_le (BitVec.le_def.mpr (order.2.trans first)), balanced.used]
        omega
      · rw [Function.update_of_ne self, Function.update_of_ne self]
        exact balanced.used t
    · have moved := sum_update_add s.ran s.kernel.currentThread
        (s.ran s.kernel.currentThread + (before.toNat - s.since.toNat))
      have spent := balanced.spent
      simp only [Accounts.switch]
      omega
  refine ⟨next, ?_⟩
  rw [next.accounted_iff]
  simp only [Accounts.switch, starting]
  split
  · rename_i new
    rw [balanced.fresh _ new]
    simp only [new, ne_eq, not_true_eq_false, false_or]
    exact eq_comm
  · rename_i stack
    simp [stack]

theorem Accounts.step_balanced (balanced : Balanced s) (good : Accounted s) {l : CpuLabel T}
    {es : List Unit} (taken : s.step l = some (w, es)) :
    Balanced w ∧ (Accounted w ↔ Stamped s l) := by
  cases l with
  | work k =>
    simp only [Accounts.step, Option.ite_none_right_eq_some, Option.some.injEq, Prod.mk.injEq] at taken
    obtain ⟨same, rfl, _⟩ := taken
    obtain ⟨next, fine⟩ := balanced.same good same (Nat.le_refl _)
    exact ⟨next, iff_of_true fine trivial⟩
  | create t =>
    simp only [Accounts.step, Option.ite_none_right_eq_some, Option.some.injEq, Prod.mk.injEq] at taken
    obtain ⟨⟨_, other⟩, here, _⟩ := taken
    obtain ⟨next, fine⟩ := balanced.create good other here.symm
    exact ⟨next, iff_of_true fine trivial⟩
  | schedule before after =>
    simp only [Accounts.step, Option.ite_none_right_eq_some, BitVec.le_def] at taken
    obtain ⟨⟨first, second⟩, taken⟩ := taken
    rcases schedulingAt_cases before after s.kernel with
      ⟨outside, other, current, used, starting, slots⟩ | ⟨stays, same⟩
    · rw [if_neg (by rw [current]; exact other)] at taken
      cases taken
      rw [← current] at starting
      obtain ⟨next, goes⟩ := balanced.switch good first second used starting slots
      refine ⟨next, goes.trans ?_⟩
      simp only [Stamped, outside, forall_const, other, ne_eq, not_false_eq_true, current]
    · rw [if_pos same.1] at taken
      cases taken
      obtain ⟨next, fine⟩ := balanced.same good same (first.trans second)
      refine ⟨next, iff_of_true fine ?_⟩
      intro outside other
      exact absurd (stays outside) other

end

theorem Accounts.start_balanced [Fintype T] (now : Duration) (idle : T) :
    Balanced (Accounts.start now idle) ∧ Accounted (Accounts.start now idle) := by
  have next : Balanced (Accounts.start now idle) := by
    refine ⟨⟨Nat.le_refl _, Nat.le_refl _⟩, fun t none => ?_, fun t => ?_, by simp [Accounts.start]⟩
    · simp only [Accounts.start, createIdle, createPthreadStruct, allocKstack, Function.update_apply,
        bootKernel] at none ⊢
      split at none
      · cases none
      · rename_i other
        simp [other]
    · simp only [Accounts.start, createIdle, createPthreadStruct, allocKstack, Function.update_apply,
        bootKernel]
      split
      · rfl
      · rfl
  refine ⟨next, next.accounted_iff.mpr ?_⟩
  simp [Accounts.start, createIdle, createPthreadStruct, allocKstack]

/-- The accounts are right all along a run exactly when no thread gets the
    processor for the first time, except while the clock shows zero. -/
theorem cpu_time_accounted [Fintype T] (now : Duration) (idle : T) (ls : List (CpuLabel T))
    {x : Accounts T} {es : List Unit}
    (run : Lts.exec Accounts.step (Accounts.start now idle) ls = some (x, es)) :
    (∀ before after w past, ls = before ++ after →
      Lts.exec Accounts.step (Accounts.start now idle) before = some (w, past) → Accounted w) ↔
      Lts.Along Accounts.step Stamped (Accounts.start now idle) ls := by
  obtain ⟨balanced, good⟩ := Accounts.start_balanced (T := T) now idle
  exact Lts.good_iff_along (fun s l w es inv fine _ taken => Accounts.step_balanced inv fine taken)
    ls balanced good (Lts.along_trivial ls _) run

def readyKernel (now : Duration) : Kernel (Fin 2) :=
  activateThread 1 (createPthreadStruct (some 1) (createIdle now 0 (bootKernel 0))).1

def twoSlices : List (CpuLabel (Fin 2)) :=
  [.create 1, .work (readyKernel 0), .schedule 0 0,
    .work (suspendThread 1 (schedulingAt 0 0 (readyKernel 0))), .schedule 7 9]

theorem cpu_time_accounted_two :
    ∃ x es, Lts.exec Accounts.step (Accounts.start 0 (0 : Fin 2)) twoSlices = some (x, es) ∧
      x.kernel.currentThread = 0 ∧ x.ran 1 = 7 ∧ Accounted x := by
  obtain ⟨⟨x, es⟩, run, facts⟩ := Option.map_eq_some_iff.mp
    (by decide +kernel : (Lts.exec Accounts.step (Accounts.start 0 (0 : Fin 2)) twoSlices).map
      (fun r => (r.1.kernel.currentThread, r.1.ran 1)) = some (0, 7))
  simp only [Prod.mk.injEq] at facts
  obtain ⟨current, ran⟩ := facts
  have along : Lts.Along Accounts.step Stamped (Accounts.start 0 (0 : Fin 2)) twoSlices := by
    decide +kernel
  have each := (cpu_time_accounted 0 0 twoSlices run).mpr along
  exact ⟨x, es, run, current, ran, each twoSlices [] x es (List.append_nil _).symm run⟩

theorem cpu_time_accounted_fails :
    ∃ x es, Lts.exec Accounts.step (Accounts.start 5 (0 : Fin 2))
        [.create 1, .work (readyKernel 5), .schedule 10 12] = some (x, es) ∧
      x.kernel.currentThread = 1 ∧ x.ran 1 = 0 ∧ x.since = 12#64 ∧
      clockGettimeSys 2 true ⟨12, 0⟩ x.kernel = (x.kernel, 0, some (timespecOf 12)) ∧ ¬Accounted x := by
  obtain ⟨⟨x, es⟩, run, facts⟩ := Option.map_eq_some_iff.mp
    (by decide +kernel : (Lts.exec Accounts.step (Accounts.start 5 (0 : Fin 2))
        [.create 1, .work (readyKernel 5), .schedule 10 12]).map
      (fun r => (r.1.kernel.currentThread, r.1.ran 1, r.1.since, r.1.clock,
        clockTime ⟨12, 0⟩ r.1.kernel .threadCputime)) = some (1, 0, 12#64, 12#64, 12#64))
  simp only [Prod.mk.injEq] at facts
  obtain ⟨current, ran, since, clock, shown⟩ := facts
  refine ⟨x, es, run, current, ran, since, ?_, fun accounted => ?_⟩
  · exact congrArg (fun d => (x.kernel, (0 : Int), some (timespecOf d))) shown
  · have same := accounted.cputime ⟨12, 0⟩ (by rw [clock]; decide)
    rw [shown, current, ran, since] at same
    exact absurd same (by decide)

end L4ertl
