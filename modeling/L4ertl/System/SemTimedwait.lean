import L4ertl.System.TimedWait

/-!
Waiting for a semaphore with a timeout (semaphore.c). sem_timedwait_sys takes a unit
before it looks whether there is another one, and goes to sleep when it has got the
last; and when it has slept it reports success, whether there is a unit or not.
-/
namespace L4ertl
open Intrusive
variable {T : Type} [DecidableEq T]

/-- The turns of others while the caller sleeps: posts and waits, the two ends of timed
    waits, and anything else that does not concern the list. The value may change in it. -/
inductive SemMove (T : Type) where
  | post
  | wait
  | link
  | leave
  | rest (w : Kernel T)

def SemMove.run (s : Nat) (k : Kernel T) : SemMove T → Kernel T
  | .post => (semPostSys s k).1
  | .wait => (semWaitSys s k).1
  | .link => (semWaiters s).insert k.currentThread k
  | .leave => (semWaiters s).remove k.currentThread k
  | .rest w => w

def SemMove.step (s : Nat) (k : Kernel T) (l : SemMove T) : Option (Kernel T × List Unit) :=
  some (l.run s k, [])

/-- A thread waits for one semaphore at a time, and takes off the list nobody but itself. -/
def SemMove.Allowed (s : Nat) (t : T) (k : Kernel T) : SemMove T → Prop
  | .post => True
  | .wait | .link => (semWaiters s).Free k k.currentThread
  | .leave => k.currentThread ≠ t ∧ (Linked k.semNode (k.sem s).semList k.currentThread ∨
      k.semNode k.currentThread = detached)
  | .rest w => (w.sem s).semList = (k.sem s).semList ∧
      ∀ u, u = t ∨ Linked k.semNode (k.sem s).semList u → w.semNode u = k.semNode u

def unitsOf (sem : Option Nat) (k : Kernel T) : Int :=
  match sem with
  | some s => (k.sem s).value
  | none => 0

/-- A call from the kernel `k`: the kernel in which its thread runs again, if it has
    slept, what it returns, how many units it has taken, and the kernel at its end. -/
inductive SemTimedCall (sem : Option Nat) (abstime : Option Timespec) (k : Kernel T) :
    Option (Kernel T) → Int → Int → Kernel T → Prop where
  | atOnce {fuel : Nat} {now : Nat → Clocks} {x : Kernel T} {v : Int}
      (called : semTimedwaitSys fuel now sem abstime k = .ok (x, .ret v)) :
      SemTimedCall sem abstime k none v (unitsOf sem k - unitsOf sem x) x
  | slept {fuel s : Nat} {now : Nat → Clocks} {x w z : Kernel T} {d : Duration} {v : Int}
      {ls : List (SemMove T)} {es : List Unit} {later : Clocks} (given : sem = some s)
      (called : semTimedwaitSys fuel now sem abstime k = .ok (x, .sched (.asleep d)))
      (others : Lts.Along (SemMove.step s) (SemMove.Allowed s k.currentThread) x ls)
      (run : Lts.exec (SemMove.step s) x ls = some (w, es)) (back : w.currentThread = k.currentThread)
      (woken : semTimedwaitWoken later s d w = .ok (z, v)) :
      SemTimedCall sem abstime k (some w) v
        (unitsOf sem k - unitsOf sem x + (unitsOf sem w - unitsOf sem z)) z

def badArguments (sem : Option Nat) (abstime : Option Timespec) : Prop :=
  sem = none ∨ ∀ a, abstime = some a → a.badNsec = true

structure SemTimedRight (sem : Option Nat) (abstime : Option Timespec) (k : Kernel T)
    (woken : Option (Kernel T)) (v taken : Int) (z : Kernel T) : Prop where
  -- 0 is returned for one unit
  unit : v = 0 ↔ taken = 1
  atOnce : ∀ s a, sem = some s → abstime = some a → 0 < (k.sem s).value → v = 0 ∧ woken = none
  failed : v = -1 → taken = 0 ∧ (z.errno k.currentThread = etimedout ∨
    (z.errno k.currentThread = einval ∧ badArguments sem abstime))
  off : ∀ s, sem = some s → ¬Linked z.semNode (z.sem s).semList k.currentThread

/-- There are two units at the call, or none at the call and one when the thread runs
    again; or there is nothing to take and an argument is bad. -/
def SemTimedFits (sem : Option Nat) (abstime : Option Timespec) (k : Kernel T)
    (woken : Option (Kernel T)) : Prop :=
  match sem, abstime with
  | some s, some a => 1 < (k.sem s).value ∨
    ((k.sem s).value ≤ 0 ∧ (a.badNsec = true ∨ ∃ w, woken = some w ∧ 0 < (w.sem s).value))
  | _, _ => True

section
variable {s : Nat} {t : T} {k w x : Kernel T} {xs : List T}

omit [DecidableEq T] in
theorem semTake_value (s : Nat) (k : Kernel T) :
    ((semTake s k).1.sem s).value = (k.sem s).value - 1 := by
  simp [semTake, setSem]

theorem semTake_queued (queued : Queued (semWaiters s) t k xs) :
    Queued (semWaiters s) t (semTake s k).1 xs :=
  queued.same (by simp [semWaiters, semTake, setSem]) rfl

theorem semWaiters_store_value (s : Nat) (nodes : Links T) (head : Option T) (k : Kernel T) :
    (((semWaiters s).store nodes head k).sem s).value = (k.sem s).value := by
  simp [semWaiters, setSem]

theorem timedSleep_sem {fuel : Nat} {now : Nat → Clocks} {d : Duration} {p : TimedProgress}
    (ran : timedSleep (semWaiters s) fuel now d k = .ok (w, p)) :
    p = .sched (.asleep d) ∧ w.semNode = ((semWaiters s).insert k.currentThread k).semNode ∧
      w.sem = ((semWaiters s).insert k.currentThread k).sem := by
  simp only [timedSleep, bind, bind_ok, pure, Except.pure] at ran
  obtain ⟨y, slept, eq⟩ := ran
  cases eq
  have quiet := sleepFor_quiet slept
  have nodes := congrArg Kernel.semNode quiet
  have sems := congrArg Kernel.sem quiet
  exact ⟨rfl, nodes, sems⟩

theorem semTimedwaitSys_cases {fuel : Nat} {now : Nat → Clocks} {a : Timespec} {p : TimedProgress}
    (ran : semTimedwaitSys fuel now (some s) (some a) k = .ok (w, p)) :
    (1 < (k.sem s).value ∧ w = (semTake s k).1 ∧ p = .ret 0) ∨
    ((k.sem s).value ≤ 1 ∧ ∃ y, y = (if 0 < (k.sem s).value then (semTake s k).1 else k) ∧
      ((a.badNsec = true ∧ w = setErrno einval y ∧ p = .ret (-1)) ∨
        (a.badNsec = false ∧ ∃ d, p = .sched (.asleep d) ∧
          w.semNode = ((semWaiters s).insert y.currentThread y).semNode ∧
          w.sem = ((semWaiters s).insert y.currentThread y).sem))) := by
  have after : 0 < (((if 0 < (k.sem s).value then (semTake s k).1 else k).sem s).value) ↔
      1 < (k.sem s).value := by
    split
    · rw [semTake_value]
      omega
    · omega
  simp only [semTimedwaitSys, after] at ran
  split at ran
  · rename_i more
    rw [if_pos (by omega : 0 < (k.sem s).value)] at ran
    cases ran
    exact Or.inl ⟨more, rfl, rfl⟩
  · rename_i less
    refine Or.inr ⟨by omega, _, rfl, ?_⟩
    split at ran
    · rename_i bad
      cases ran
      exact Or.inl ⟨bad, rfl, rfl⟩
    · rename_i good
      obtain ⟨eq, nodes, sems⟩ := timedSleep_sem ran
      exact Or.inr ⟨Bool.not_eq_true _ ▸ good, _, eq, nodes, sems⟩

theorem SemMove.queued {es : List Unit} {a : SemMove T} (queued : ∃ xs, Queued (semWaiters s) t k xs)
    (ok : a.Allowed s t k) (taken : SemMove.step s k a = some (w, es)) :
    ∃ ys, Queued (semWaiters s) t w ys := by
  obtain ⟨xs, queued⟩ := queued
  cases taken
  have valued : ∀ v, Queued (semWaiters s) t (setSem s { k.sem s with value := v } k) xs := by
    intro v
    exact queued.same (by simp [semWaiters, setSem]) rfl
  have give : Queued (semWaiters s) t (semGive s k).1 xs := by
    unfold semGive
    split
    · exact valued _
    · exact queued.same rfl rfl
  cases a with
  | post =>
    by_cases zero : (k.sem s).value = 0
    · cases xs with
      | nil =>
        have eq : semPostSys s k = semGive s k := semPostSys_empty queued.chain
        rw [run, eq]
        exact ⟨[], give⟩
      | cons y ys =>
        have eq := semPostSys_first zero queued.chain.1
        rw [run, eq]
        exact ⟨ys, queued.removeHead.1.activate y⟩
    · have eq : semPostSys s k = semGive s k := if_neg zero
      rw [run, eq]
      exact ⟨xs, give⟩
  | wait =>
    simp only [run, semWaitSys]
    split
    · exact ⟨_, queued.blockOn (suspendThread_semLists s _ _) ok⟩
    · exact ⟨xs, valued _⟩
  | link => exact ⟨_, queued.insert ok⟩
  | leave =>
    obtain ⟨ys, after, _⟩ := queued.leave ok.2
    exact ⟨ys, after⟩
  | rest w =>
    refine ⟨xs, queued.congr ok.1 fun u either => ok.2 u ?_⟩
    exact either.imp_right fun member => Linked.of_mem member queued.chain

theorem semTimedwaitWoken_ends {later : Clocks} {d : Duration} {z : Kernel T} {v : Int}
    (queued : Queued (semWaiters s) w.currentThread w xs)
    (ran : semTimedwaitWoken later s d w = .ok (z, v)) :
    v = 0 ∧ (z.sem s).value = (if 0 < (w.sem s).value then (w.sem s).value - 1 else (w.sem s).value) ∧
      ¬Linked z.semNode (z.sem s).semList w.currentThread := by
  simp only [semTimedwaitWoken, bind, bind_ok, pure, Except.pure] at ran
  obtain ⟨r, _, eq⟩ := ran
  obtain ⟨ys, after, out, _⟩ := queued.leave queued.either
  have value : (((semWaiters s).remove w.currentThread w).sem s).value = (w.sem s).value := by
    rw [WaitList.remove, semWaiters_store_value]
  cases eq
  refine ⟨rfl, ?_, ?_⟩
  · split
    · rw [semTake_value, value]
      rw [value] at *
      rw [if_pos ‹_›]
    · rw [value] at *
      rw [if_neg ‹_›]
  · split
    · exact (semTake_queued after).off out
    · exact after.off out

end

section
variable {sem : Option Nat} {abstime : Option Timespec} {k w x z : Kernel T} {v : Int} {xs : List T}

theorem semTimedwaitSys_null {fuel : Nat} {now : Nat → Clocks} {p : TimedProgress}
    (null : sem = none ∨ abstime = none) (ran : semTimedwaitSys fuel now sem abstime k = .ok (x, p)) :
    x = setErrno einval k ∧ p = .ret (-1) := by
  cases sem with
  | none =>
    cases ran
    exact ⟨rfl, rfl⟩
  | some s =>
    cases abstime with
    | none =>
      cases ran
      exact ⟨rfl, rfl⟩
    | some a => rcases null with eq | eq <;> cases eq

theorem sem_timedwait_atOnce {fuel s : Nat} {now : Nat → Clocks} {a : Timespec}
    (queued : Queued (semWaiters s) k.currentThread k xs) (out : k.currentThread ∉ xs)
    (called : semTimedwaitSys fuel now (some s) (some a) k = .ok (x, .ret v)) :
    SemTimedRight (some s) (some a) k none v ((k.sem s).value - (x.sem s).value) x ↔
      SemTimedFits (some s) (some a) k none := by
  rcases semTimedwaitSys_cases called with ⟨more, rfl, ret⟩ | ⟨less, y, rfl, ⟨bad, rfl, ret⟩ | ⟨_, d, asleep, _⟩⟩
  · cases ret
    apply iff_of_true
    · refine ⟨?_, fun _ _ _ _ _ => ⟨rfl, rfl⟩, fun fails => ?_, fun r given => ?_⟩
      · rw [semTake_value]
        omega
      · cases fails
      · cases given
        exact (semTake_queued queued).off out
    · exact Or.inl more
  · cases ret
    have value : ∀ y : Kernel T, ((setErrno einval y).sem s).value = (y.sem s).value := fun y => rfl
    by_cases last : 0 < (k.sem s).value
    · apply iff_of_false
      · intro right
        have kept := (right.failed rfl).1
        rw [if_pos last, value, semTake_value] at kept
        omega
      · intro fits
        rcases fits with more | ⟨none_, _⟩
        · omega
        · omega
    · rw [if_neg last, value]
      apply iff_of_true
      · refine ⟨by omega, fun r b given _ some_ => ?_, fun _ => ⟨by omega, Or.inr ⟨?_, ?_⟩⟩, fun r given => ?_⟩
        · cases given
          exact absurd some_ last
        · exact setErrno_self einval k
        · refine Or.inr fun b given => ?_
          cases given
          exact bad
        · cases given
          exact queued.off out
      · exact Or.inr ⟨by omega, Or.inl bad⟩
  · cases asleep

theorem sem_timedwait_slept {fuel s : Nat} {now : Nat → Clocks} {a : Timespec} {d : Duration}
    {ls : List (SemMove T)} {es : List Unit} {later : Clocks}
    (queued : Queued (semWaiters s) k.currentThread k xs) (out : (semWaiters s).Free k k.currentThread)
    (called : semTimedwaitSys fuel now (some s) (some a) k = .ok (x, .sched (.asleep d)))
    (others : Lts.Along (SemMove.step s) (SemMove.Allowed s k.currentThread) x ls)
    (run : Lts.exec (SemMove.step s) x ls = some (w, es)) (back : w.currentThread = k.currentThread)
    (woken : semTimedwaitWoken later s d w = .ok (z, v)) :
    SemTimedRight (some s) (some a) k (some w) v
        ((k.sem s).value - (x.sem s).value + ((w.sem s).value - (z.sem s).value)) z ↔
      SemTimedFits (some s) (some a) k (some w) := by
  rcases semTimedwaitSys_cases called with
    ⟨_, _, ret⟩ | ⟨less, y, before, ⟨_, _, ret⟩ | ⟨good, e, _, nodes, sems⟩⟩
  · cases ret
  · cases ret
  · have current : y.currentThread = k.currentThread := by
      rw [before]
      split
      · rfl
      · rfl
    have start : Queued (semWaiters s) k.currentThread y xs ∧ (semWaiters s).Free y y.currentThread := by
      rw [current, before]
      split
      · exact ⟨semTake_queued queued, out.1, by simpa [semWaiters, semTake, setSem] using out.2⟩
      · exact ⟨queued, out⟩
    have linked : ∃ ys, Queued (semWaiters s) k.currentThread x ys :=
      ⟨_, (start.1.insert start.2).same (congrArg Sem.semList (congrFun sems s)) nodes⟩
    obtain ⟨ys, there⟩ := Lts.exec_keeps (fun w => ∃ ys, Queued (semWaiters s) k.currentThread w ys)
      (fun _ _ _ _ queued ok taken => SemMove.queued queued ok taken) ls linked others run
    obtain ⟨zero, after, off⟩ := semTimedwaitWoken_ends (back ▸ there) woken
    have asleep : (x.sem s).value = (y.sem s).value := by
      rw [sems, WaitList.insert, semWaiters_store_value]
    rw [back] at off
    rw [after, asleep, before]
    by_cases some_ : 0 < (k.sem s).value
    · apply iff_of_false
      · intro right
        have never := (right.atOnce s a rfl rfl some_).2
        cases never
      · intro fits
        rcases fits with more | ⟨none_, _⟩
        · omega
        · omega
    · rw [if_neg some_]
      constructor
      · intro right
        have one := right.unit.mp zero
        refine Or.inr ⟨by omega, Or.inr ⟨w, rfl, ?_⟩⟩
        by_contra empty
        rw [if_neg empty] at one
        omega
      · intro fits
        have unit : 0 < (w.sem s).value := by
          rcases fits with more | ⟨_, bad | ⟨u, same, unit⟩⟩
          · omega
          · rw [good] at bad
            cases bad
          · cases same
            exact unit
        rw [if_pos unit]
        refine ⟨by omega, fun r b given _ more => ?_, fun fails => ?_, fun r given => ?_⟩
        · cases given
          exact absurd more some_
        · omega
        · cases given
          exact off

end

/-- The call is right exactly if there are two units, or none and one when its thread runs
    again, or none and an argument is bad: whoever posts, and whatever the timer does. -/
theorem sem_timedwait_right_iff (sem : Option Nat) (abstime : Option Timespec) (k z : Kernel T)
    (woken : Option (Kernel T)) (v taken : Int)
    (listed : ∀ s, sem = some s → (semWaiters s).Free k k.currentThread ∧
      ∃ xs, Queued (semWaiters s) k.currentThread k xs)
    (call : SemTimedCall sem abstime k woken v taken z) :
    SemTimedRight sem abstime k woken v taken z ↔ SemTimedFits sem abstime k woken := by
  -- with a NULL pointer the call only sets errno
  have null : sem = none ∨ abstime = none → woken = none → v = -1 → z = setErrno einval k →
      taken = 0 → (SemTimedRight sem abstime k woken v taken z ↔ SemTimedFits sem abstime k woken) := by
    intro missing slept failed eq none_
    subst failed eq none_
    apply iff_of_true
    · refine ⟨by omega, fun s a given also _ => ?_, fun _ => ⟨rfl, Or.inr ⟨setErrno_self einval k, ?_⟩⟩,
        fun s given => ?_⟩
      · rcases missing with eq | eq
        · rw [given] at eq
          cases eq
        · rw [also] at eq
          cases eq
      · rcases missing with eq | eq
        · exact Or.inl eq
        · refine Or.inr fun a given => ?_
          rw [given] at eq
          cases eq
      · obtain ⟨free, xs, queued⟩ := listed s given
        exact queued.off (free.not_mem queued)
    · rcases missing with eq | eq
      · subst eq
        trivial
      · subst eq
        cases sem <;> trivial
  cases call with
  | atOnce called =>
    by_cases missing : sem = none ∨ abstime = none
    · obtain ⟨eq, ret⟩ := semTimedwaitSys_null missing called
      cases ret
      refine null missing rfl rfl eq ?_
      rw [eq]
      exact sub_self _
    · rw [not_or] at missing
      obtain ⟨s, rfl⟩ := Option.ne_none_iff_exists'.mp missing.1
      obtain ⟨a, rfl⟩ := Option.ne_none_iff_exists'.mp missing.2
      obtain ⟨free, xs, queued⟩ := listed s rfl
      exact sem_timedwait_atOnce queued (free.not_mem queued) called
  | @slept fuel s now x w z d v ls es later given called others run back woken =>
    subst given
    cases abstime with
    | none => cases called
    | some a =>
      obtain ⟨free, xs, queued⟩ := listed s rfl
      exact sem_timedwait_slept queued free called others run back woken

def SemMove.Plain (s : Nat) (t : T) (k : Kernel T) : SemMove T → Prop
  | .post => True
  | .wait | .link => (semWaiters s).Free k k.currentThread
  | .leave => k.currentThread ≠ t ∧ k.semNode k.currentThread = detached
  | .rest w => (w.sem s).semList = (k.sem s).semList ∧ ∀ u, w.semNode u = k.semNode u

instance SemMove.decidePlain [Fintype T] (s : Nat) (t : T) (k : Kernel T) :
    (a : SemMove T) → Decidable (a.Plain s t k)
  | .post => inferInstanceAs (Decidable True)
  | .wait | .link => inferInstanceAs (Decidable (WaitList.Free _ _ _))
  | .leave => inferInstanceAs (Decidable (_ ∧ _))
  | .rest _ => inferInstanceAs (Decidable (_ ∧ ∀ _, _))

theorem SemMove.Plain.allowed {s : Nat} {t : T} (k : Kernel T) (a : SemMove T) (plain : a.Plain s t k) :
    a.Allowed s t k := by
  cases a with
  | post => trivial
  | wait => exact plain
  | link => exact plain
  | leave => exact ⟨plain.1, Or.inr plain.2⟩
  | rest w => exact ⟨plain.1, fun u _ => plain.2 u⟩

def postedBack (x : Kernel (Fin 2)) : List (SemMove (Fin 2)) :=
  let y := (semPostSys 0 (scheduling 0 x)).1
  [.rest (scheduling 0 x), .post, .rest (semGive 0 y).1, .rest (scheduling 0 (semGive 0 y).1)]

def clockedBack (x : Kernel (Fin 2)) : List (SemMove (Fin 2)) :=
  match updateHwtimer 3 (fun _ => ⟨1010, 10⟩) (scheduling 0 x) with
  | .ok r => [.rest (scheduling 0 x), .rest r.kernel, .rest (scheduling 0 r.kernel)]
  | .error _ => []

theorem semTimedwait_run (turns : Kernel (Fin 2) → List (SemMove (Fin 2))) (taken : Int)
    (seen : ((semTimedwaitSys 3 callClocks (some 0) (some ⟨0, 10⟩) twoThreads).toOption.bind
      fun r : Kernel (Fin 2) × TimedProgress => (Lts.exec (SemMove.step 0) r.1 (turns r.1)).bind
        fun q : Kernel (Fin 2) × List Unit => (semTimedwaitWoken ⟨1010, 10⟩ 0 10 q.1).toOption.map
          fun e : Kernel (Fin 2) × Int => decide (r.2 = .sched (.asleep 10) ∧
            Lts.Along (SemMove.step 0) (SemMove.Plain 0 1) r.1 (turns r.1) ∧ (r.1.sem 0).value = 0 ∧
            q.1.currentThread = 1 ∧ (q.1.sem 0).value = taken ∧ e.2 = 0 ∧ (e.1.sem 0).value = 0)) =
      some true) :
    ∃ w z, (w.sem 0).value = taken ∧ SemTimedCall (some 0) (some ⟨0, 10⟩) twoThreads (some w) 0 taken z := by
  obtain ⟨⟨x, p⟩, called, rest⟩ := Option.bind_eq_some_iff.mp seen
  obtain ⟨⟨w, es⟩, run, last⟩ := Option.bind_eq_some_iff.mp rest
  obtain ⟨⟨z, v⟩, woken, facts⟩ := Option.map_eq_some_iff.mp last
  obtain ⟨asleep, plain, empty, back, found, zero, after⟩ := of_decide_eq_true facts
  cases asleep
  cases zero
  have call := SemTimedCall.slept rfl (ok_of_toOption called) (plain.mono SemMove.Plain.allowed) run back
    (ok_of_toOption woken)
  have units : unitsOf (some 0) twoThreads - unitsOf (some 0) x +
      (unitsOf (some 0) w - unitsOf (some 0) z) = taken := by
    have start : (twoThreads.sem 0).value = 0 := by decide
    show (twoThreads.sem 0).value - (x.sem 0).value + ((w.sem 0).value - (z.sem 0).value) = taken
    rw [start, found, empty, after]
    omega
  rw [units] at call
  exact ⟨w, z, found, call⟩

theorem twoThreads_listed : (semWaiters 0).Free twoThreads twoThreads.currentThread ∧
    ∃ xs, Queued (semWaiters 0) twoThreads.currentThread twoThreads xs :=
  ⟨by decide, [], ⟨rfl, List.nodup_nil, fun _ => by decide⟩⟩

theorem sem_timedwait_right_iff_posted :
    ∃ w z, SemTimedCall (some 0) (some ⟨0, 10⟩) twoThreads (some w) 0 1 z ∧
      SemTimedRight (some 0) (some ⟨0, 10⟩) twoThreads (some w) 0 1 z := by
  obtain ⟨w, z, found, call⟩ := semTimedwait_run postedBack 1 (by decide +kernel)
  have listed : ∀ s, some 0 = some s → (semWaiters s).Free twoThreads twoThreads.currentThread ∧
      ∃ xs, Queued (semWaiters s) twoThreads.currentThread twoThreads xs := by
    intro s given
    cases given
    exact twoThreads_listed
  have right := (sem_timedwait_right_iff (some 0) (some ⟨0, 10⟩) twoThreads z (some w) 0 1 listed
    call).mpr (Or.inr ⟨by decide, Or.inr ⟨w, rfl, by omega⟩⟩)
  exact ⟨w, z, call, right⟩

theorem sem_timedwait_nothing :
    ∃ w z, SemTimedCall (some 0) (some ⟨0, 10⟩) twoThreads (some w) 0 0 z ∧
      ¬SemTimedRight (some 0) (some ⟨0, 10⟩) twoThreads (some w) 0 0 z := by
  obtain ⟨w, z, _, call⟩ := semTimedwait_run clockedBack 0 (by decide +kernel)
  refine ⟨w, z, call, fun right => ?_⟩
  have taken := right.unit.mp rfl
  cases taken

end L4ertl
