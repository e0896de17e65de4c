import Mathlib.Data.Fintype.Option
import L4ertl.Lib.Arrivals
import L4ertl.System.CondWakeups

/-!
Which waiter a wake-up chooses. A thread that blocks is put first on its list, and
pthread_cond_signal_sys and sem_post_sys take the first one, so that the last to
block is the first to be READY; no priority is looked at.
-/
namespace L4ertl
open Intrusive Arrivals
variable {T : Type} [DecidableEq T]

/-- The kernel, and for each thread that waits when it has blocked. -/
structure WakeState (T : Type) where
  kernel : Kernel T
  since : T → Option Nat
  clock : Nat

def Progress.blocks : Progress → Bool
  | .sched (.condWoken _) | .sched (.semWait _) => true
  | _ => false

/-- What is seen of a call: its caller waits from now on if it has blocked, and a
    thread waits no longer once it is not suspended any more. -/
def WakeState.after (s : WakeState T) (r : Kernel T × Progress) : WakeState T where
  kernel := r.1
  since t :=
    if r.2.blocks = true ∧ t = s.kernel.currentThread then some s.clock
    else if r.1.state t = suspendedThread then s.since t else none
  clock := s.clock + 1

structure WakeState.Left (l : WaitList T) (s : WakeState T) (w : Kernel T) : Prop where
  head : l.head w = l.head s.kernel
  links : ∀ t, s.since t ≠ none → (l.nodes w t).next = (l.nodes s.kernel t).next
  asleep : ∀ t, s.since t ≠ none → w.state t = suspendedThread

/-- The thread that blocked last is READY, and no other thread has changed its state. -/
def WakeState.WakesLast (s : WakeState T) (w : Kernel T) : Prop :=
  ∃ t n, s.since t = some n ∧ (∀ u m, s.since u = some m → u ≠ t → m < n) ∧
    ∀ u, w.state u = if u = t then readyThread else s.kernel.state u

structure WakeState.Listed (l : WaitList T) (s : WakeState T) (xs : List T) : Prop where
  path : Forward (l.nodes s.kernel) (l.head s.kernel) xs
  stacked : Stacked s.since s.clock xs
  asleep : ∀ t ∈ xs, s.kernel.state t = suspendedThread

section
variable {l : WaitList T} {s : WakeState T} {k w : Kernel T} {xs : List T} {x : T} {r : Kernel T × Progress}

theorem WakeState.Listed.rest (listed : s.Listed l xs) (quiet : r.2.blocks = false) (left : s.Left l r.1) :
    (s.after r).Listed l xs := by
  have waits : ∀ t ∈ xs, s.since t ≠ none := fun t member => (listed.stacked.waits t).mp member
  refine ⟨?_, listed.stacked.later fun t => ?_, fun t member => left.asleep t (waits t member)⟩
  · show Forward (l.nodes r.1) (l.head r.1) xs
    rw [left.head]
    exact listed.path.congr fun t member => left.links t (waits t member)
  · simp only [after, quiet, Bool.false_eq_true, false_and, if_false]
    by_cases here : s.since t = none
    · rw [here, ite_self]
    · rw [if_pos (left.asleep t here)]

theorem WakeState.Listed.block (listed : s.Listed l xs) (quiet : r.2.blocks = true)
    (blocked : r.1 = blockOn l k) (left : s.Left l k) (current : k.currentThread = s.kernel.currentThread)
    (ready : k.state k.currentThread = readyThread)
    (lists : l.nodes (suspendThread k.currentThread k) = l.nodes k ∧
      l.head (suspendThread k.currentThread k) = l.head k) :
    (s.after r).Listed l (s.kernel.currentThread :: xs) := by
  have waits : ∀ t ∈ xs, s.since t ≠ none := fun t member => (listed.stacked.waits t).mp member
  have new : s.since s.kernel.currentThread = none := by
    by_contra here
    have asleep := left.asleep _ here
    rw [← current, ready] at asleep
    exact suspended_ne_ready asleep.symm
  have outside : k.currentThread ∉ xs := fun member =>
    waits _ member (by rw [current]; exact new)
  have states : ∀ t, r.1.state t = (suspendThread k.currentThread k).state t := by
    intro t
    rw [blocked]
    exact blockOn_state l k t
  have asleep : ∀ t, s.since t ≠ none → r.1.state t = suspendedThread := by
    intro t here
    have apart : t ≠ k.currentThread := fun same => here (by rw [same, current]; exact new)
    rw [states, suspendThread_other apart]
    exact left.asleep t here
  have self : r.1.state s.kernel.currentThread = suspendedThread := by
    rw [← current, states]
    exact suspendThread_self ready
  have path : Forward (l.nodes k) (l.head k) xs := by
    rw [left.head]
    exact listed.path.congr fun t member => left.links t (waits t member)
  refine ⟨?_, listed.stacked.push new ?_ fun t apart => ?_, fun t member => ?_⟩
  · show Forward (l.nodes r.1) (l.head r.1) (s.kernel.currentThread :: xs)
    rw [blocked, blockOn, WaitList.insert, l.nodes_store, l.head_store, lists.1, lists.2, ← current]
    exact path.link outside
  · simp [after, quiet]
  · simp only [after, apart, and_false, if_false]
    by_cases here : s.since t = none
    · rw [here, ite_self]
    · rw [if_pos (asleep t here)]
  · rcases List.mem_cons.mp member with same | old
    · rw [same]
      exact self
    · exact asleep t (waits t old)

theorem WakeState.Listed.wake (listed : s.Listed l (x :: xs)) (quiet : r.2.blocks = false)
    (woken : r.1 = activateThread x (l.removeHead s.kernel).1) :
    (s.after r).Listed l xs ∧ s.WakesLast r.1 := by
  obtain ⟨head, tail⟩ := listed.path
  have parts := List.nodup_cons.mp listed.stacked.nodup
  have taken : removeHeadPthreadList (l.nodes s.kernel) (l.head s.kernel) =
      (Function.update (patchPrev (l.nodes s.kernel) (l.nodes s.kernel x).next none) x detached,
        (l.nodes s.kernel x).next, some x) := by
    rw [head]
    rfl
  have removed : (l.removeHead s.kernel).1 =
      l.store (Function.update (patchPrev (l.nodes s.kernel) (l.nodes s.kernel x).next none) x detached)
        (l.nodes s.kernel x).next s.kernel := by
    simp only [WaitList.removeHead, taken]
  have asleep := listed.asleep x List.mem_cons_self
  have states : ∀ t, r.1.state t = if t = x then readyThread else s.kernel.state t := by
    intro t
    have active : s.kernel.state x ≠ finishedThread := by
      rw [asleep]
      exact fun same => finished_ne_suspended same.symm
    rw [woken, activateThread_state, l.removeHead_state, l.removeHead_state]
    simp only [active, ne_eq, not_false_eq_true, and_true]
  obtain ⟨n, here, last⟩ := listed.stacked.top
  refine ⟨⟨?_, listed.stacked.pop ?_ fun t other => ?_, fun t member => ?_⟩, x, n, here, last, states⟩
  · show Forward (l.nodes r.1) (l.head r.1) xs
    rw [woken, l.nodes_activate, l.head_activate, removed, l.nodes_store, l.head_store]
    exact tail.unlink parts.1
  · simp only [after, quiet, Bool.false_eq_true, false_and, if_false, states, if_true]
    exact if_neg fun same => suspended_ne_ready same.symm
  · simp only [after, quiet, Bool.false_eq_true, false_and, if_false, states, if_neg other]
    by_cases waits : s.since t = none
    · rw [waits, ite_self]
    · have member := (listed.stacked.waits t).mpr waits
      rw [if_pos (listed.asleep t member)]
  · have other : t ≠ x := fun same => parts.1 (same ▸ member)
    show r.1.state t = _
    rw [states, if_neg other]
    exact listed.asleep t (List.mem_cons_of_mem x member)

theorem unlinkAll_forward (fuel : Nat) {n : Links T} {h : Option T} (path : Forward n h xs)
    (nodup : xs.Nodup) (enough : xs.length < fuel) : (unlinkAll fuel n h).2.2 = xs := by
  induction fuel generalizing n h xs with
  | zero => omega
  | succ fuel ih =>
    cases xs with
    | nil =>
      have empty : h = none := path
      subst empty
      rfl
    | cons x xs =>
      obtain ⟨head, tail⟩ := path
      have parts := List.nodup_cons.mp nodup
      subst head
      have later := ih (tail.unlink parts.1) parts.2 (by simp only [List.length_cons] at enough; omega)
      simp only [unlinkAll, removeHeadPthreadList, Option.bind_some, later]

theorem WakeState.Listed.wakeAll [Fintype T] (listed : s.Listed l xs) (quiet : r.2.blocks = false)
    (woken : r.1 = drain l s.kernel) : (s.after r).Listed l [] := by
  have nobody : ∀ t, (s.after r).since t = none := by
    intro t
    simp only [after, quiet, Bool.false_eq_true, false_and, if_false]
    by_cases here : s.since t = none
    · rw [here, ite_self]
    · have member := (listed.stacked.waits t).mpr here
      have taken := unlinkAll_forward (Fintype.card T + 1) listed.path listed.stacked.nodup
        (Nat.lt_succ_of_le listed.stacked.nodup.length_le_card)
      have asleep := listed.asleep t member
      have awake : r.1.state t = readyThread := by
        rw [woken, drain_state, taken, if_pos]
        refine ⟨member, ?_⟩
        rw [asleep]
        exact fun same => finished_ne_suspended same.symm
      rw [awake]
      exact if_neg fun same => suspended_ne_ready same.symm
  refine ⟨?_, stacked_empty nobody, fun t member => by cases member⟩
  show l.head r.1 = none
  rw [woken]
  exact drain_head l s.kernel

end

structure WakeState.Idle (l : WaitList T) (s : WakeState T) : Prop where
  nobody : ∀ t, s.since t = none
  empty : l.head s.kernel = none

theorem WakeState.Idle.listed {l : WaitList T} {s : WakeState T} (idle : s.Idle l) : s.Listed l [] :=
  ⟨idle.empty, stacked_empty idle.nobody, fun t member => by cases member⟩

section
variable [Fintype T]

/-- What happens to a condition variable: a wait up to its link or up to the call of
    `scheduling` in its unlock, the link after that, the two wake-ups, and anything else. -/
inductive CondTurn (T : Type) where
  | wait (m : Nat)
  | link (m : Nat)
  | signal
  | broadcast
  | rest (w : Kernel T)

def CondTurn.run (c : Nat) (k : Kernel T) : CondTurn T → Kernel T × Progress
  | .wait m => pthreadCondWaitSys c m k
  | .link m => condBlock c m k
  | .signal => pthreadCondSignalSys c k
  | .broadcast => pthreadCondBroadcastSys c k
  | .rest w => (w, .ret 0)

def CondTurn.step (c : Nat) (s : WakeState T) (l : CondTurn T) : Option (WakeState T × List Unit) :=
  some (s.after (l.run c s.kernel), [])

/-- A caller is READY, and what is not a wake-up leaves the waiters alone: so does the
    unlock in a wait, which wakes those that wait for the mutex. -/
def CondTurn.Allowed (c : Nat) (s : WakeState T) : CondTurn T → Prop
  | .wait m => s.kernel.state s.kernel.currentThread = readyThread ∧
      s.Left (condWaiters c) (mutexUnlock m s.kernel).1
  | .link _ => s.kernel.state s.kernel.currentThread = readyThread
  | .signal | .broadcast => True
  | .rest w => s.Left (condWaiters c) w

inductive SemTurn (T : Type) where
  | wait
  | post
  | rest (w : Kernel T)

def SemTurn.run (n : Nat) (k : Kernel T) : SemTurn T → Kernel T × Progress
  | .wait => semWaitSys n k
  | .post => semPostSys n k
  | .rest w => (w, .ret 0)

def SemTurn.step (n : Nat) (s : WakeState T) (l : SemTurn T) : Option (WakeState T × List Unit) :=
  some (s.after (l.run n s.kernel), [])

def SemTurn.Allowed (n : Nat) (s : WakeState T) : SemTurn T → Prop
  | .wait => s.kernel.state s.kernel.currentThread = readyThread
  | .post => True
  | .rest w => s.Left (semWaiters n) w

end

section
variable {l : WaitList T} {s y : WakeState T} {k w : Kernel T} {xs : List T}

theorem WakeState.Listed.left (listed : s.Listed l xs) (nodes : l.nodes w = l.nodes s.kernel)
    (head : l.head w = l.head s.kernel) (flags : w.threadFlags = s.kernel.threadFlags) : s.Left l w := by
  refine ⟨head, fun t _ => by rw [nodes], fun t here => ?_⟩
  have asleep := listed.asleep t ((listed.stacked.waits t).mpr here)
  exact (Kernel.state_of_flags flags t).trans asleep

variable {c n : Nat} {es : List Unit}

variable [Fintype T]

theorem CondTurn.listed {a : CondTurn T} (listed : ∃ xs, s.Listed (condWaiters c) xs)
    (ok : a.Allowed c s) (taken : CondTurn.step c s a = some (y, es)) :
    ∃ ys, y.Listed (condWaiters c) ys := by
  obtain ⟨xs, listed⟩ := listed
  cases taken
  cases a with
  | wait m =>
    obtain ⟨ready, left⟩ := ok
    have current : (mutexUnlock m s.kernel).1.currentThread = s.kernel.currentThread :=
      (mutexUnlock_only m s.kernel).others.2.2.2.2
    have awake : (mutexUnlock m s.kernel).1.state (mutexUnlock m s.kernel).1.currentThread =
        readyThread := by
      rw [current]
      rcases mutexUnlock_state m s.kernel s.kernel.currentThread with same | woken
      · rw [same]
        exact ready
      · exact woken.1
    rcases pthreadCondWaitSys_cases c m s.kernel with ⟨_, eq⟩ | ⟨_, v, _, eq⟩ | ⟨_, _, eq⟩
    · refine ⟨xs, listed.rest ?_ ?_⟩
      · rw [run, eq]
        rfl
      · rw [run, eq]
        exact listed.left rfl rfl rfl
    · refine ⟨_, listed.block (k := (mutexUnlock m s.kernel).1) ?_ ?_ left current awake
        (suspendThread_condLists c _ _)⟩
      · rw [run, eq]
        rfl
      · rw [run, eq]
    · refine ⟨xs, listed.rest ?_ ?_⟩
      · rw [run, eq]
        rfl
      · rw [run, eq]
        exact left
  | link m =>
    exact ⟨_, listed.block rfl rfl (listed.left rfl rfl rfl) rfl ok
      (suspendThread_condLists c _ _)⟩
  | signal =>
    cases xs with
    | nil =>
      have eq := pthreadCondSignalSys_empty (c := c) (k := s.kernel) listed.path
      refine ⟨[], listed.rest ?_ ?_⟩
      · rw [run, eq]
        rfl
      · rw [run, eq]
        exact listed.left rfl rfl rfl
    | cons x xs =>
      have eq := pthreadCondSignalSys_first (c := c) (k := s.kernel) listed.path.1
      refine ⟨xs, (listed.wake ?_ ?_).1⟩
      · rw [run, eq]
        rfl
      · rw [run, eq]
  | broadcast => exact ⟨[], listed.wakeAll rfl rfl⟩
  | rest w => exact ⟨xs, listed.rest rfl ok⟩

omit [Fintype T] in
theorem SemTurn.listed {a : SemTurn T} (listed : ∃ xs, s.Listed (semWaiters n) xs)
    (ok : a.Allowed n s) (taken : SemTurn.step n s a = some (y, es)) :
    ∃ ys, y.Listed (semWaiters n) ys := by
  obtain ⟨xs, listed⟩ := listed
  cases taken
  -- a change of the value alone
  have valued : ∀ v, s.Left (semWaiters n) (setSem n { s.kernel.sem n with value := v } s.kernel) :=
    fun v => listed.left rfl (by simp [semWaiters, setSem]) rfl
  have give : (semGive n s.kernel).2.blocks = false ∧ s.Left (semWaiters n) (semGive n s.kernel).1 := by
    unfold semGive
    split
    · exact ⟨rfl, valued _⟩
    · exact ⟨rfl, listed.left rfl rfl rfl⟩
  cases a with
  | wait =>
    by_cases zero : (s.kernel.sem n).value = 0
    · have eq : semWaitSys n s.kernel = (blockOn (semWaiters n) s.kernel, .sched (.semWait n)) := if_pos zero
      refine ⟨_, listed.block (k := s.kernel) ?_ ?_ (listed.left rfl rfl rfl) rfl ok
        (suspendThread_semLists n _ _)⟩
      · rw [run, eq]
        rfl
      · rw [run, eq]
    · have eq : semWaitSys n s.kernel = semTake n s.kernel := if_neg zero
      refine ⟨xs, listed.rest ?_ ?_⟩
      · rw [run, eq]
        rfl
      · rw [run, eq]
        exact valued _
  | post =>
    by_cases zero : (s.kernel.sem n).value = 0
    · cases xs with
      | nil =>
        have eq : semPostSys n s.kernel = semGive n s.kernel := semPostSys_empty listed.path
        refine ⟨[], listed.rest ?_ ?_⟩
        · rw [run, eq]
          exact give.1
        · rw [run, eq]
          exact give.2
      | cons x xs =>
        have eq := semPostSys_first zero listed.path.1
        refine ⟨xs, (listed.wake ?_ ?_).1⟩
        · rw [run, eq]
          rfl
        · rw [run, eq]
    · have eq : semPostSys n s.kernel = semGive n s.kernel := if_neg zero
      refine ⟨xs, listed.rest ?_ ?_⟩
      · rw [run, eq]
        exact give.1
      · rw [run, eq]
        exact give.2
  | rest w => exact ⟨xs, listed.rest rfl ok⟩

/-- Last in, first out: in whatever order threads have come to wait, and whatever
    their priorities, a signal wakes the one that has blocked last, and so does a post
    to a semaphore of value 0. -/
theorem wakes_last :
    (∀ (c : Nat) (s x : WakeState T) (ls : List (CondTurn T)) (es : List Unit), s.Idle (condWaiters c) →
      Lts.Along (CondTurn.step c) (CondTurn.Allowed c) s ls → Lts.exec (CondTurn.step c) s ls = some (x, es) →
      (∃ t, x.since t ≠ none) → x.WakesLast (pthreadCondSignalSys c x.kernel).1) ∧
    (∀ (n : Nat) (s x : WakeState T) (ls : List (SemTurn T)) (es : List Unit), s.Idle (semWaiters n) →
      Lts.Along (SemTurn.step n) (SemTurn.Allowed n) s ls → Lts.exec (SemTurn.step n) s ls = some (x, es) →
      (x.kernel.sem n).value = 0 → (∃ t, x.since t ≠ none) → x.WakesLast (semPostSys n x.kernel).1) := by
  constructor
  · intro c s x ls es idle along run waits
    obtain ⟨xs, listed⟩ := Lts.exec_keeps (fun s => ∃ xs, s.Listed (condWaiters c) xs)
      (fun s a w first listed ok taken => CondTurn.listed listed ok taken) ls ⟨[], idle.listed⟩ along run
    obtain ⟨t, here⟩ := waits
    have member := (listed.stacked.waits t).mpr here
    cases xs with
    | nil => cases member
    | cons y ys =>
      have eq := pthreadCondSignalSys_first (c := c) (k := x.kernel) listed.path.1
      exact (listed.wake (r := pthreadCondSignalSys c x.kernel) (by rw [eq]; rfl) (by rw [eq])).2
  · intro n s x ls es idle along run zero waits
    obtain ⟨xs, listed⟩ := Lts.exec_keeps (fun s => ∃ xs, s.Listed (semWaiters n) xs)
      (fun s a w first listed ok taken => SemTurn.listed listed ok taken) ls ⟨[], idle.listed⟩ along run
    obtain ⟨t, here⟩ := waits
    have member := (listed.stacked.waits t).mpr here
    cases xs with
    | nil => cases member
    | cons y ys =>
      have eq := semPostSys_first zero listed.path.1
      exact (listed.wake (r := semPostSys n x.kernel) (by rw [eq]; rfl) (by rw [eq])).2

end

instance [Fintype T] (l : WaitList T) (s : WakeState T) (w : Kernel T) : Decidable (s.Left l w) :=
  decidable_of_iff (l.head w = l.head s.kernel ∧
      (∀ t, s.since t ≠ none → (l.nodes w t).next = (l.nodes s.kernel t).next) ∧
      ∀ t, s.since t ≠ none → w.state t = suspendedThread)
    ⟨fun all => ⟨all.1, all.2.1, all.2.2⟩, fun left => ⟨left.head, left.links, left.asleep⟩⟩

instance CondTurn.decideAllowed [Fintype T] (c : Nat) (s : WakeState T) :
    (a : CondTurn T) → Decidable (a.Allowed c s)
  | .wait _ => inferInstanceAs (Decidable (_ ∧ _))
  | .link _ => inferInstanceAs (Decidable (_ = _))
  | .signal | .broadcast => inferInstanceAs (Decidable True)
  | .rest w => inferInstanceAs (Decidable (s.Left _ w))

instance SemTurn.decideAllowed [Fintype T] (n : Nat) (s : WakeState T) :
    (a : SemTurn T) → Decidable (a.Allowed n s)
  | .wait => inferInstanceAs (Decidable (_ = _))
  | .post => inferInstanceAs (Decidable True)
  | .rest w => inferInstanceAs (Decidable (s.Left _ w))

def ownerRuns : Kernel (Fin 3) := (mutexLockLoop 0 (startSystem 0 [(0, 1023), (1, 10), (2, 7)]).kernel).1

def nobodyWaits : WakeState (Fin 3) := ⟨ownerRuns, fun _ => none, 0⟩

def condWaits : List (CondTurn (Fin 3)) :=
  [.wait 0, .rest (mutexLockLoop 0 (scheduling 0 (pthreadCondWaitSys 0 0 ownerRuns).1)).1, .wait 0]

def semWaits : List (SemTurn (Fin 3)) :=
  [.wait, .rest (scheduling 0 (semWaitSys 0 ownerRuns).1), .wait]

theorem wakes_last_two :
    (∃ x es, Lts.exec (CondTurn.step 0) nobodyWaits condWaits = some (x, es) ∧ x.since 2 = some 0 ∧
      x.since 1 = some 2 ∧ x.WakesLast (pthreadCondSignalSys 0 x.kernel).1) ∧
    ∃ x es, Lts.exec (SemTurn.step 0) nobodyWaits semWaits = some (x, es) ∧ x.since 2 = some 0 ∧
      x.since 1 = some 2 ∧ x.WakesLast (semPostSys 0 x.kernel).1 := by
  constructor
  · obtain ⟨⟨x, es⟩, run, found⟩ := Option.map_eq_some_iff.mp
      (by decide +kernel : (Lts.exec (CondTurn.step 0) nobodyWaits condWaits).map
        (fun r => (r.1.since 2, r.1.since 1)) = some (some 0, some 2))
    simp only [Prod.mk.injEq] at found
    refine ⟨x, es, run, found.1, found.2, ?_⟩
    apply wakes_last.1 0 nobodyWaits x condWaits es ⟨fun _ => rfl, by decide +kernel⟩ (by decide +kernel) run
    exact ⟨2, by rw [found.1]; exact Option.some_ne_none 0⟩
  · obtain ⟨⟨x, es⟩, run, found⟩ := Option.map_eq_some_iff.mp
      (by decide +kernel : (Lts.exec (SemTurn.step 0) nobodyWaits semWaits).map
        (fun r => (r.1.since 2, r.1.since 1, (r.1.kernel.sem 0).value)) = some (some 0, some 2, 0))
    simp only [Prod.mk.injEq] at found
    refine ⟨x, es, run, found.1, found.2.1, ?_⟩
    apply wakes_last.2 0 nobodyWaits x semWaits es ⟨fun _ => rfl, by decide +kernel⟩ (by decide +kernel) run
      found.2.2
    exact ⟨2, by rw [found.1]; exact Option.some_ne_none 0⟩

/-- A waiter is READY afterwards than which no other has been more urgent. -/
def WakesUrgent (waits : T → Prop) (k w : Kernel T) : Prop :=
  ∃ t, waits t ∧ k.state t = suspendedThread ∧ w.state t = readyThread ∧ ∀ u, waits u → k.prio t ≤ k.prio u

def urgentFirst : System (Option (Fin 3)) :=
  startSystem none [(none, 1023), (some 0, 5), (some 1, 9), (some 2, 20)]

def urgentCondWaits : List (Label (Option (Fin 3))) :=
  [.enter (.call (.mutexLock 0)) stillEnv, .resume stillEnv, .enter (.call (.condWait 0 0)) stillEnv,
    .enter (.call (.mutexLock 0)) stillEnv, .resume stillEnv, .enter (.call (.condWait 0 0)) stillEnv]

def urgentSemWaits : List (Label (Option (Fin 3))) :=
  [.enter (.call (.semWait 0)) stillEnv, .enter (.call (.semWait 0)) stillEnv]

theorem wakes_last_not_urgent :
    (∃ x es y fs, urgentFirst.exec urgentCondWaits = some (x, es) ∧
      x.step (.enter (.call (.condSignal 0)) stillEnv) = some (y, fs) ∧
      x.cont (some 0) = some (.call (.condWait 0 0), .condWoken 0) ∧
      x.cont (some 1) = some (.call (.condWait 0 0), .condWoken 0) ∧
      ¬WakesUrgent (fun t => x.cont t = some (.call (.condWait 0 0), .condWoken 0)) x.kernel y.kernel) ∧
    ∃ x es y fs, urgentFirst.exec urgentSemWaits = some (x, es) ∧
      x.step (.enter (.call (.semPost 0)) stillEnv) = some (y, fs) ∧
      x.cont (some 0) = some (.call (.semWait 0), .semWait 0) ∧
      x.cont (some 1) = some (.call (.semWait 0), .semWait 0) ∧
      ¬WakesUrgent (fun t => x.cont t = some (.call (.semWait 0), .semWait 0)) x.kernel y.kernel := by
  constructor
  · obtain ⟨⟨x, es⟩, run, rest⟩ := Option.bind_eq_some_iff.mp
      (by decide +kernel : ((urgentFirst.exec urgentCondWaits).bind fun r =>
        (r.1.step (.enter (.call (.condSignal 0)) stillEnv)).map fun q =>
          decide (r.1.cont (some 0) = some (.call (.condWait 0 0), .condWoken 0) ∧
            r.1.cont (some 1) = some (.call (.condWait 0 0), .condWoken 0) ∧
            ¬∃ t, r.1.cont t = some (.call (.condWait 0 0), .condWoken 0) ∧ r.1.kernel.state t = suspendedThread ∧
              q.1.kernel.state t = readyThread ∧
              ∀ u, r.1.cont u = some (.call (.condWait 0 0), .condWoken 0) → r.1.kernel.prio t ≤ r.1.kernel.prio u)) =
        some true)
    obtain ⟨⟨y, fs⟩, taken, found⟩ := Option.map_eq_some_iff.mp rest
    obtain ⟨first, second, none_⟩ := decide_eq_true_iff.mp found
    exact ⟨x, es, y, fs, run, taken, first, second, none_⟩
  · obtain ⟨⟨x, es⟩, run, rest⟩ := Option.bind_eq_some_iff.mp
      (by decide +kernel : ((urgentFirst.exec urgentSemWaits).bind fun r =>
        (r.1.step (.enter (.call (.semPost 0)) stillEnv)).map fun q =>
          decide (r.1.cont (some 0) = some (.call (.semWait 0), .semWait 0) ∧
            r.1.cont (some 1) = some (.call (.semWait 0), .semWait 0) ∧
            ¬∃ t, r.1.cont t = some (.call (.semWait 0), .semWait 0) ∧ r.1.kernel.state t = suspendedThread ∧
              q.1.kernel.state t = readyThread ∧
              ∀ u, r.1.cont u = some (.call (.semWait 0), .semWait 0) → r.1.kernel.prio t ≤ r.1.kernel.prio u)) =
        some true)
    obtain ⟨⟨y, fs⟩, taken, found⟩ := Option.map_eq_some_iff.mp rest
    obtain ⟨first, second, none_⟩ := decide_eq_true_iff.mp found
    exact ⟨x, es, y, fs, run, taken, first, second, none_⟩

end L4ertl
