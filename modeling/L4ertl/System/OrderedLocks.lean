import L4ertl.Lib.LockOrder
import L4ertl.System.CeilingsHeld
import L4ertl.System.CondWakeups
import L4ertl.System.Reaping

/-!
No deadlock with ordered locks. If a thread that has to wait for a mutex holds only
mutexes of lower ranks, and otherwise neither sleeps nor ends while it holds one,
then whenever a thread waits for a mutex, a thread that holds a mutex of that rank
or a higher one is READY.
-/
namespace L4ertl
open Intrusive

section
variable {T : Type}

def Call.Orders (rank : Nat → Nat) (k : Kernel T) (held : List Nat) : Call T → Prop
  | .mutexLock m => MutexBusy k m → ∀ n ∈ held, rank n < rank m
  | .condWait _ m => (k.mutex m).owner = some k.currentThread → held = [m] ∧ HeldOnce k m
  | .semWait s => held ≠ [] → (k.sem s).value ≠ 0
  | .usleep _ | .exit => held = []
  | _ => True

variable [DecidableEq T]

def LockHistory.Orders (rank : Nat → Nat) (h : LockHistory T) : Label T → Prop
  | .enter (.call c) _ => c.Orders rank h.sys.kernel (h.held h.sys.kernel.currentThread)
  | .enter .irq _ => True
  | .resume _ => ∀ x, h.sys.cont h.sys.kernel.currentThread = some x →
    x.2.Follows h.sys.kernel (h.held h.sys.kernel.currentThread)

def Point.HoldsFew (held : List Nat) : Point → Prop
  | .condUnlocked _ _ | .condWoken _ | .signals _ _ _ _ => held = []
  | _ => True

structure OrderInv [Fintype T] (rank : Nat → Nat) (h : LockHistory T) : Prop where
  tracks : Tracks h.sys.kernel h.held
  lists : ∃ L, WaitersInv h.sys L
  below : ∀ t m n, InLock h.sys t m → n ∈ h.held t → rank n < rank m
  alive : ∀ t, h.held t ≠ [] → h.sys.kernel.live t = true
  awake : ∀ t, h.held t ≠ [] → h.sys.kernel.state t = readyThread ∨ ∃ m, InLock h.sys t m
  inside : ∀ t m, InLock h.sys t m →
    h.sys.kernel.state t = readyThread ∨ h.sys.kernel.state t = suspendedThread
  places : ∀ t w p, h.sys.cont t = some (w, p) → p.HoldsFew (h.held t)
  idle : h.held h.sys.kernel.idleThread = []

structure OrderStep (rank : Nat → Nat) (k x : Kernel T) (held : List Nat) (outcome : Outcome) : Prop where
  below : ∀ m n, outcome.onward.bind Point.lockOf = some m → n ∈ held → rank n < rank m
  awake : held ≠ [] → x.state k.currentThread = readyThread ∨
    ∃ m, outcome.onward.bind Point.lockOf = some m
  inside : ∀ m, outcome.onward.bind Point.lockOf = some m →
    x.state k.currentThread = readyThread ∨ x.state k.currentThread = suspendedThread
  place : ∀ p, outcome.onward = some p → p.HoldsFew held

end

variable {T : Type} [DecidableEq T] {rank : Nat → Nat} {h : LockHistory T} {k x : Kernel T}

section
variable {m : Nat}

theorem mutexLockLoop_busy (busy : MutexBusy k m) (ready : k.state k.currentThread = readyThread) :
    (mutexLockLoop m k).2 = .blocked ∧
      (mutexLockLoop m k).1.state k.currentThread = suspendedThread ∧
      ((mutexLockLoop m k).1.mutex m).owner = (k.mutex m).owner := by
  have blocked : (mutexLockLoop m k).2 = .blocked := by
    obtain ⟨owned, normal⟩ := busy
    have checked : ¬((k.mutex m).owner = some k.currentThread ∧ (k.mutex m).attr.type = .errorcheck) := by
      intro both
      rw [normal both.1] at both
      cases both.2
    have counted : ¬((k.mutex m).owner = some k.currentThread ∧ (k.mutex m).attr.type = .recursive) := by
      intro both
      rw [normal both.1] at both
      cases both.2
    simp only [mutexLockLoop]
    rw [if_neg owned, if_neg checked, if_neg counted]
  refine ⟨blocked, ?_, (mutexLockLoop_owner m k).2.1 busy.1⟩
  rcases mutexLockLoop_state m k with ⟨_, states⟩ | ⟨open_, _⟩
  · rw [states]
    exact suspendThread_self ready
  · exact absurd blocked open_

theorem pthreadMutexLockSys_inside {n : Nat}
    (inside : (pthreadMutexLockSys m k).2.outcome.onward.bind Point.lockOf = some n) :
    n = m ∧ MutexBusy k m := by
  have open_ := fun free : ¬MutexBusy k m => (mutexLockLoop_open free).1
  unfold pthreadMutexLockSys at inside
  split at inside
  · cases inside
  · rename_i eq
    cases inside
    refine ⟨rfl, ?_⟩
    by_contra free
    rw [eq] at open_
    exact open_ free rfl
  · cases inside

theorem condRelock_inside {n : Nat}
    (inside : (condRelock m k).2.outcome.onward.bind Point.lockOf = some n) :
    n = m ∧ MutexBusy k m := by
  have open_ := fun free : ¬MutexBusy k m => (mutexLockLoop_open free).1
  unfold condRelock at inside
  split at inside
  · cases inside
  · rename_i eq
    cases inside
    refine ⟨rfl, ?_⟩
    by_contra free
    rw [eq] at open_
    exact open_ free rfl
  · cases inside

end

variable [Fintype T] {w : Work T} {p : Point} {env : Env} {outcome : Outcome}

theorem Work.run_inside {pr : Progress} {m : Nat} (ran : w.run env k = .ok (x, pr))
    (inside : pr.outcome.onward.bind Point.lockOf = some m) :
    w = .call (.mutexLock m) ∧ MutexBusy k m := by
  cases pr with
  | ret v => cases inside
  | sched p =>
    have fits := Work.run_fits ran
    cases p with
    | lockLoop n =>
      cases fits
      have same : pthreadMutexLockSys n k = (x, .sched (.lockLoop n)) := Except.ok.inj ran
      have progress : Progress.sched (.lockLoop n) = (pthreadMutexLockSys n k).2 := by rw [same]
      rw [progress] at inside
      obtain ⟨rfl, busy⟩ := pthreadMutexLockSys_inside inside
      exact ⟨rfl, busy⟩
    | condLock n =>
      obtain ⟨c, rfl⟩ := fits
      have same : pthreadCondWaitSys c n k = (x, .sched (.condLock n)) := Except.ok.inj ran
      rcases pthreadCondWaitSys_cases c n k with ⟨_, eq⟩ | ⟨_, v, _, eq⟩ | ⟨_, _, eq⟩ <;>
        rw [eq] at same <;> cases same
    | _ => cases inside

omit [Fintype T] in
theorem Point.run_inside {m : Nat} (ran : p.run env k = .ok (x, outcome))
    (inside : outcome.onward.bind Point.lockOf = some m) : p.locks = some m ∧ MutexBusy k m := by
  by_cases quiet : p.quiet = true
  · cases onward : outcome.onward with
    | none =>
      rw [onward] at inside
      cases inside
    | some q =>
      have leaves := (Point.run_quiet quiet ran).2.2 q onward
      rw [onward] at inside
      cases q with
      | leave n => cases inside
      | signals a b c d => cases inside
      | _ => cases leaves
  · cases p with
    | lockLoop n =>
      cases ran
      obtain ⟨rfl, busy⟩ := pthreadMutexLockSys_inside inside
      exact ⟨rfl, busy⟩
    | condWoken n =>
      cases ran
      obtain ⟨rfl, busy⟩ := condRelock_inside inside
      exact ⟨rfl, busy⟩
    | condLock n =>
      cases ran
      obtain ⟨rfl, busy⟩ := condRelock_inside inside
      exact ⟨rfl, busy⟩
    | condUnlocked c n =>
      cases ran
      cases inside
    | semWait s =>
      cases ran
      cases inside
    | semPost s =>
      cases ran
      unfold semGive at inside
      split at inside <;> cases inside
    | _ => exact absurd rfl quiet

theorem Work.run_released {pr : Progress} (orders : h.Orders rank (.enter w env))
    (ran : w.run env h.sys.kernel = .ok (x, pr)) (sleeps : w.Sleeps h.sys.kernel)
    (other : ∀ m, w ≠ .call (.mutexLock m)) :
    noteLock h.sys.kernel.currentThread h.sys.kernel x h.held w.locks h.sys.kernel.currentThread = [] := by
  cases w with
  | irq => cases sleeps
  | call c =>
    cases c with
    | mutexLock m => exact absurd rfl (other m)
    | condWait c m =>
      obtain ⟨rfl, _⟩ := ran_pair ran
      have mine : (h.sys.kernel.mutex m).owner = some h.sys.kernel.currentThread := sleeps
      obtain ⟨alone, last⟩ := orders mine
      have freed : noteLock h.sys.kernel.currentThread h.sys.kernel
          (pthreadCondWaitSys c m h.sys.kernel).1 h.held (some m) h.sys.kernel.currentThread =
          (h.held h.sys.kernel.currentThread).erase m :=
        noteLock_freed mine (pthreadCondWaitSys_frees mine last)
      rw [alone, List.erase_cons_head] at freed
      exact freed
    | semWait s =>
      have empty : h.held h.sys.kernel.currentThread = [] := by
        by_contra holds
        exact orders holds sleeps
      exact empty
    | usleep usec => exact orders
    | exit => exact orders
    | _ => cases sleeps

theorem Work.run_order {pr : Progress} (ok : SystemOk h.sys) (legal : w.Legal h.sys.kernel = true)
    (orders : h.Orders rank (.enter w env)) (ran : w.run env h.sys.kernel = .ok (x, pr)) :
    OrderStep rank h.sys.kernel x
      (noteLock h.sys.kernel.currentThread h.sys.kernel x h.held w.locks h.sys.kernel.currentThread)
      pr.outcome := by
  have waits : ∀ m, pr.outcome.onward.bind Point.lockOf = some m →
      (∀ n, n ∈ noteLock h.sys.kernel.currentThread h.sys.kernel x h.held w.locks
        h.sys.kernel.currentThread → rank n < rank m) ∧
      x.state h.sys.kernel.currentThread = suspendedThread := by
    intro m inside
    obtain ⟨rfl, busy⟩ := Work.run_inside ran inside
    obtain ⟨rfl, _⟩ := ran_pair ran
    rw [pthreadMutexLockSys_kernel]
    obtain ⟨_, asleep, kept⟩ := mutexLockLoop_busy busy ok.running
    have locks : (Work.call (T := T) (.mutexLock m)).locks = some m := rfl
    rw [locks, noteLock_kept kept]
    exact ⟨orders busy, asleep⟩
  constructor
  · intro m n inside member
    exact (waits m inside).1 n member
  · intro holds
    by_cases sleeps : w.Sleeps h.sys.kernel
    · by_cases locks : ∃ m, w = .call (.mutexLock m)
      · obtain ⟨m, rfl⟩ := locks
        right
        obtain ⟨_, rfl⟩ := ran_pair ran
        have blocked := (mutexLockLoop_busy sleeps ok.running).1
        refine ⟨m, ?_⟩
        unfold pthreadMutexLockSys
        split
        · rename_i eq
          rw [eq] at blocked
          cases blocked
        · rfl
        · rename_i eq
          rw [eq] at blocked
          cases blocked
      · exact absurd (Work.run_released orders ran sleeps fun m same => locks ⟨m, same⟩) holds
    · exact Or.inl (Work.run_awake ok.kernel ok.running legal sleeps ran)
  · intro m inside
    exact Or.inr (waits m inside).2
  · intro q onward
    cases pr with
    | ret v => cases onward
    | sched r =>
      cases onward
      have fits := Work.run_fits ran
      have waited : ∀ c m, w = .call (.condWait c m) →
          noteLock h.sys.kernel.currentThread h.sys.kernel x h.held w.locks
            h.sys.kernel.currentThread = [] := by
        intro c m same
        subst same
        apply Work.run_released orders ran _ nofun
        by_contra foreign
        have refused : pthreadCondWaitSys c m h.sys.kernel = (x, .sched q) := Except.ok.inj ran
        rcases pthreadCondWaitSys_cases c m h.sys.kernel with ⟨_, eq⟩ | ⟨here, _⟩ | ⟨here, _⟩
        · rw [eq] at refused
          cases refused
        · exact foreign here
        · exact foreign here
      cases q with
      | condUnlocked c m => exact waited c m fits
      | condWoken m =>
        obtain ⟨c, same⟩ := fits
        exact waited c m same
      | signals mask signal pend rounds =>
        have irq := Work.run_outside ran trivial
        subst irq
        obtain ⟨_, _, _, _, _, progress⟩ := doIrq_cases ok.kernel.irq ran
        rcases progress with asks | ⟨returned, _⟩
        · cases asks
        · cases returned
      | _ => trivial

omit [Fintype T] in
theorem Point.run_round {m : Nat} (ready : k.state k.currentThread = readyThread)
    (locks : p.locks = some m) (ran : p.run env k = .ok (x, outcome)) :
    (MutexBusy k m ∧ outcome.onward.bind Point.lockOf = some m ∧
      x.state k.currentThread = suspendedThread ∧ (x.mutex m).owner = (k.mutex m).owner) ∨
    (outcome.onward.bind Point.lockOf = none ∧ x.state k.currentThread = readyThread ∧
      ∀ q, outcome.onward = some q → q = .done) := by
  have loop : x = (mutexLockLoop m k).1 ∧
      ((mutexLockLoop m k).2 = .blocked → outcome.onward.bind Point.lockOf = some m) ∧
      ((mutexLockLoop m k).2 ≠ .blocked → ∀ q, outcome.onward = some q → q = .done) := by
    cases p with
    | lockLoop n =>
      cases locks
      cases ran
      refine ⟨pthreadMutexLockSys_kernel m k, fun blocked => ?_, fun open_ q onward => ?_⟩
      · unfold pthreadMutexLockSys
        split <;> rename_i eq <;> rw [eq] at blocked <;> cases blocked
        rfl
      · unfold pthreadMutexLockSys at onward
        split at onward <;> rename_i eq
        · cases onward
        · rw [eq] at open_
          exact absurd rfl open_
        · cases onward
          rfl
    | condWoken n =>
      cases locks
      cases ran
      refine ⟨condRelock_kernel m k, fun blocked => ?_, fun open_ q onward => ?_⟩
      · unfold condRelock
        split <;> rename_i eq <;> rw [eq] at blocked <;> cases blocked
        rfl
      · unfold condRelock at onward
        split at onward <;> rename_i eq
        · cases onward
        · rw [eq] at open_
          exact absurd rfl open_
        · cases onward
          rfl
    | condLock n =>
      cases locks
      cases ran
      refine ⟨condRelock_kernel m k, fun blocked => ?_, fun open_ q onward => ?_⟩
      · unfold condRelock
        split <;> rename_i eq <;> rw [eq] at blocked <;> cases blocked
        rfl
      · unfold condRelock at onward
        split at onward <;> rename_i eq
        · cases onward
        · rw [eq] at open_
          exact absurd rfl open_
        · cases onward
          rfl
    | _ => cases locks
  obtain ⟨rfl, goesIn, goesOn⟩ := loop
  by_cases busy : MutexBusy k m
  · obtain ⟨blocked, asleep, kept⟩ := mutexLockLoop_busy busy ready
    exact Or.inl ⟨busy, goesIn blocked, asleep, kept⟩
  · obtain ⟨open_, states⟩ := mutexLockLoop_open busy
    refine Or.inr ⟨?_, (states _).trans ready, goesOn open_⟩
    cases onward : outcome.onward with
    | none => rfl
    | some q =>
      rw [goesOn open_ q onward]
      rfl

theorem Point.lock_order {m : Nat} (inv : OrderInv rank h) (ok : SystemOk h.sys)
    (here : h.sys.cont h.sys.kernel.currentThread = some (w, p)) (locks : p.locks = some m)
    (ran : p.run env h.sys.kernel = .ok (x, outcome)) :
    OrderStep rank h.sys.kernel x
      (noteLock h.sys.kernel.currentThread h.sys.kernel x h.held (some m) h.sys.kernel.currentThread)
      outcome := by
  rcases Point.run_round ok.running locks ran with ⟨busy, inside, asleep, kept⟩ | ⟨outside, ready, ends⟩
  · rw [noteLock_kept kept]
    refine ⟨fun n a same member => ?_, fun _ => Or.inr ⟨m, inside⟩, fun n same => Or.inr asleep, ?_⟩
    · rw [inside] at same
      cases same
      cases p with
      | lockLoop b =>
        cases locks
        exact inv.below _ m a ⟨w, _, here, rfl⟩ member
      | condLock b =>
        cases locks
        exact inv.below _ m a ⟨w, _, here, rfl⟩ member
      | condWoken b =>
        have none : h.held h.sys.kernel.currentThread = [] := inv.places _ _ _ here
        rw [none] at member
        cases member
      | _ => cases locks
    · intro q onward
      rw [onward] at inside
      cases q with
      | lockLoop b => trivial
      | condLock b => trivial
      | _ => cases inside
  · refine ⟨fun n a same _ => ?_, fun _ => Or.inl ready, fun n same => ?_, fun q onward => ?_⟩
    · rw [outside] at same
      cases same
    · rw [outside] at same
      cases same
    · rw [ends q onward]
      trivial

theorem Point.calm_onward (inv : OrderInv rank h) (orders : h.Orders rank (.resume env))
    (here : h.sys.cont h.sys.kernel.currentThread = some (w, p)) (none : p.locks = none)
    (ran : p.run env h.sys.kernel = .ok (x, outcome)) (holds : h.held h.sys.kernel.currentThread ≠ []) :
    ∀ q, outcome ≠ .sched q := by
  have place := inv.places _ _ _ here
  cases p with
  | condUnlocked c m => exact absurd place holds
  | leave rounds =>
    obtain ⟨r, rfl, _⟩ := Point.leave_calm (orders _ here) holds ran
    intro q same
    cases same
  | signals mask signal pend rounds => exact absurd place holds
  | done =>
    cases ran
    intro q same
    cases same
  | semWait s =>
    cases ran
    intro q same
    cases same
  | semPost s =>
    cases ran
    intro q
    unfold semGive
    split
    · intro same
      cases same
    · intro same
      cases same
  | slept d =>
    obtain ⟨pr, finished, rfl⟩ := ran_slept ran
    obtain ⟨_, v, rfl⟩ := usleepDone_book finished
    intro q same
    cases same
  | _ => cases none

theorem Point.calm_place {q : Point} (inv : OrderInv rank h) (orders : h.Orders rank (.resume env))
    (here : h.sys.cont h.sys.kernel.currentThread = some (w, p)) (none : p.locks = none)
    (ran : p.run env h.sys.kernel = .ok (x, outcome)) (onward : outcome.onward = some q) :
    q.HoldsFew (h.held h.sys.kernel.currentThread) := by
  have place := inv.places _ _ _ here
  cases p with
  | condUnlocked c m =>
    cases ran
    cases onward
    exact place
  | leave rounds =>
    have leaves := (Point.run_quiet rfl ran).2.2 q onward
    cases q with
    | leave n => trivial
    | signals a b c d =>
      by_contra holds
      obtain ⟨r, rfl, leads⟩ := Point.leave_calm (orders _ here) holds ran
      obtain ⟨n, same⟩ := leads _ onward
      cases same
    | _ => cases leaves
  | signals mask signal pend rounds =>
    have leaves := (Point.run_quiet rfl ran).2.2 q onward
    cases q with
    | leave n => trivial
    | signals a b c d => exact place
    | _ => cases leaves
  | done =>
    cases ran
    cases onward
  | semWait s =>
    cases ran
    cases onward
  | semPost s =>
    cases ran
    unfold semGive at onward
    split at onward
    · cases onward
    · cases onward
  | slept d =>
    obtain ⟨pr, finished, rfl⟩ := ran_slept ran
    obtain ⟨_, v, rfl⟩ := usleepDone_book finished
    cases onward
  | _ => cases none

theorem Point.run_order (inv : OrderInv rank h) (ok : SystemOk h.sys) (orders : h.Orders rank (.resume env))
    (here : h.sys.cont h.sys.kernel.currentThread = some (w, p))
    (ran : p.run env h.sys.kernel = .ok (x, outcome)) :
    OrderStep rank h.sys.kernel x
      (noteLock h.sys.kernel.currentThread h.sys.kernel x h.held p.locks h.sys.kernel.currentThread)
      outcome := by
  have done := Point.run_ok ok.kernel ok.running ran
  cases locks : p.locks with
  | some m => exact Point.lock_order inv ok here locks ran
  | none =>
    have outside : ∀ m, outcome.onward.bind Point.lockOf ≠ some m := by
      intro m inside
      have locked := (Point.run_inside ran inside).1
      rw [locks] at locked
      cases locked
    exact ⟨fun m n same _ => absurd same (outside m),
      fun holds => Or.inl (done.stays (Point.calm_onward inv orders here locks ran holds)),
      fun m same => absurd same (outside m), fun q onward => Point.calm_place inv orders here locks ran onward⟩

theorem OrderStep.settle {held' : T → List Nat} (inv : OrderInv rank h) (ok : SystemOk h.sys)
    (step : OrderStep rank h.sys.kernel x (held' h.sys.kernel.currentThread) outcome)
    (sound : Sound h.sys.kernel.currentThread h.sys.kernel x)
    (away : ∀ u, u ≠ h.sys.kernel.currentThread → held' u = h.held u)
    (idle : h.sys.kernel.currentThread = h.sys.kernel.idleThread → held' h.sys.kernel.currentThread = [])
    (lists : ∃ L, WaitersInv (h.sys.settle w env x outcome).1 L)
    (tracks : Tracks (h.sys.settle w env x outcome).1.kernel held') :
    OrderInv rank ⟨(h.sys.settle w env x outcome).1, held'⟩ := by
  obtain ⟨_, _, states⟩ := settle_view h.sys w env x outcome
  obtain ⟨live, idler⟩ := settle_table h.sys w env x outcome
  have locked := settle_inLock h.sys w env x outcome
  constructor
  · exact tracks
  · exact lists
  · intro t m n inside member
    rw [locked] at inside
    by_cases self : t = h.sys.kernel.currentThread
    · rw [if_pos self] at inside
      exact step.below m n inside (self ▸ member)
    · rw [if_neg self] at inside
      simp only [away t self] at member
      exact inv.below t m n inside member
  · intro t holds
    simp only [live]
    by_cases self : t = h.sys.kernel.currentThread
    · rw [self]
      exact sound.live _ ok.kernel.current
    · simp only [away t self] at holds
      exact sound.live t (inv.alive t holds)
  · intro t holds
    simp only [states, locked]
    by_cases self : t = h.sys.kernel.currentThread
    · subst self
      simp only [if_pos]
      exact step.awake holds
    · simp only [if_neg self]
      simp only [away t self] at holds
      rcases sound.others t (inv.alive t holds) self with same | ⟨_, woke⟩
      · rw [same]
        exact inv.awake t holds
      · exact Or.inl woke
  · intro t m inside
    simp only [states]
    rw [locked] at inside
    by_cases self : t = h.sys.kernel.currentThread
    · subst self
      rw [if_pos rfl] at inside
      exact step.inside m inside
    · rw [if_neg self] at inside
      obtain ⟨v, p, here, locks⟩ := inside
      rcases sound.others t (ok.inside t v p here) self with same | ⟨_, woke⟩
      · rw [same]
        exact inv.inside t m ⟨v, p, here, locks⟩
      · exact Or.inl woke
  · intro t v p here
    rcases settle_cont here with ⟨other, before⟩ | ⟨self, _, onward | ⟨r, _, rfl⟩⟩
    · simp only [away t other]
      exact inv.places t v p before
    · rw [self]
      exact step.place p onward
    · trivial
  · simp only [idler, sound.idle]
    by_cases self : h.sys.kernel.currentThread = h.sys.kernel.idleThread
    · rw [← self]
      exact idle self
    · rw [away _ fun same => self same.symm]
      exact inv.idle

omit [Fintype T] in
theorem Work.idle_locks (legal : w.Legal k = true) (idle : k.currentThread = k.idleThread) :
    w.locks = none := by
  cases w with
  | irq => rfl
  | call c =>
    cases c with
    | mutexLock m => simp [Work.Legal, Call.Legal, idle] at legal
    | mutexTrylock m => simp [Work.Legal, Call.Legal, idle] at legal
    | mutexUnlock m => simp [Work.Legal, Call.Legal, idle] at legal
    | condWait c m => simp [Work.Legal, Call.Legal, idle] at legal
    | _ => rfl

theorem OrderInv.step {y : LockHistory T} {l : Label T} {es : List (Event T)} (inv : OrderInv rank h)
    (ok : SystemOk h.sys) (unlinked : Unlinked h.sys l) (orders : h.Orders rank l)
    (taken : h.step l = some (y, es)) : OrderInv rank y := by
  have tracks := inv.tracks.step taken
  obtain ⟨⟨z, now⟩, first, eq⟩ := Option.map_eq_some_iff.mp taken
  obtain ⟨L, waiters⟩ := inv.lists
  have lists := waitersInv_step waiters ok unlinked first
  cases eq
  rcases step_cases first with ⟨w, env, k, pr, rfl, user, legal, ran, rfl, _⟩ |
    ⟨w, p, env, k, outcome, rfl, here, ran, rfl, _⟩
  · have step := Work.run_order ok legal orders ran
    have sound := (Work.run_ok ok.kernel ok.running legal ran).sound
    simp only [noteLock_settle, System.locks] at tracks ⊢
    refine step.settle inv ok sound (fun u other => noteLock_away other _) (fun idle => ?_) lists tracks
    rw [Work.idle_locks legal idle]
    rw [idle]
    exact inv.idle
  · have step := Point.run_order inv ok orders here ran
    have sound := (Point.run_ok ok.kernel ok.running ran).sound
    simp only [noteLock_settle, System.locks, here, Option.bind_some] at tracks ⊢
    refine step.settle inv ok sound (fun u other => noteLock_away other _) (fun idle => ?_) lists tracks
    have nothing : p.locks = none := by
      rw [idle] at here
      rcases ok.idler w p here with rfl | ⟨rounds, rfl⟩ <;> rfl
    rw [nothing, idle]
    exact inv.idle

omit [DecidableEq T] in
theorem orderInv_start {s : System T} (start : Started s) : OrderInv rank ⟨s, fun _ => []⟩ where
  tracks := tracks_start start
  lists := ⟨_, waitersInv_start start⟩
  below t m n _ member := by cases member
  alive t holds := absurd rfl holds
  awake t holds := absurd rfl holds
  inside t m inside := by
    obtain ⟨w, p, here, _⟩ := inside
    rw [start.user t] at here
    cases here
  places t w p here := by
    rw [start.user t] at here
    cases here
  idle := rfl

def WaitsFor (s : System T) (t : T) (m : Nat) : Prop :=
  InLock s t m ∧ s.kernel.state t = suspendedThread

omit [DecidableEq T] in
theorem OrderInv.ranked (inv : OrderInv rank h) :
    LockOrder.Ranked (WaitsFor h.sys) (fun m => (h.sys.kernel.mutex m).owner) rank where
  single t m n one two := by
    obtain ⟨⟨w, p, here, locks⟩, _⟩ := one
    obtain ⟨⟨v, q, also, locks'⟩, _⟩ := two
    rw [here] at also
    cases also
    exact Option.some.inj (locks.symm.trans locks')
  below t m n waits owns := inv.below t m n waits.1 ((inv.tracks.owned t n).mpr owns)

omit [DecidableEq T] in
theorem OrderInv.owned (inv : OrderInv rank h) (t : T) (m : Nat) (waits : WaitsFor h.sys t m) :
    (h.sys.kernel.mutex m).owner ≠ none := by
  obtain ⟨L, waiters⟩ := inv.lists
  exact waiters.owned m (List.ne_nil_of_mem (waiters.linked m t waits.1 waits.2))

/-- In every state of a run in which the locks that have to wait are made in the order
    of the ranks, and no thread goes round the lock loop while it is linked: if a thread
    waits for a mutex, some thread owns a mutex of that rank or a higher one and is
    READY, and it is not the idle thread. -/
theorem ordered_locks_progress (rank : Nat → Nat) (s : System T) (start : Started s)
    (ls : List (Label T)) (x : LockHistory T) (es : List (Event T))
    (run : Lts.exec LockHistory.step ⟨s, fun _ => []⟩ ls = some (x, es))
    (rules : Lts.Along LockHistory.step (fun h l => Unlinked h.sys l ∧ h.Orders rank l)
      ⟨s, fun _ => []⟩ ls)
    (t : T) (m : Nat) (inside : InLock x.sys t m) (waits : x.sys.kernel.state t = suspendedThread) :
    ∃ u n, (x.sys.kernel.mutex n).owner = some u ∧ rank m ≤ rank n ∧
      x.sys.kernel.state u = readyThread ∧ u ≠ x.sys.kernel.idleThread := by
  have reached : SystemOk x.sys ∧ OrderInv rank x := by
    apply Lts.exec_keeps (fun h => SystemOk h.sys ∧ OrderInv rank h) _ ls
      ⟨start.ok, orderInv_start start⟩ rules run
    intro h l y first both allowed taken
    obtain ⟨r, step, eq⟩ := Option.map_eq_some_iff.mp taken
    have next : SystemOk y.sys := by
      cases eq
      exact both.1.step step
    exact ⟨next, both.2.step both.1 allowed.1 allowed.2 taken⟩
  obtain ⟨ok, inv⟩ := reached
  obtain ⟨u, n, owns, order, free⟩ := inv.ranked.progress inv.owned ⟨inside, waits⟩
  have member : n ∈ x.held u := (inv.tracks.owned u n).mpr owns
  refine ⟨u, n, owns, order, ?_, ?_⟩
  · rcases inv.awake u (List.ne_nil_of_mem member) with ready | ⟨k, within⟩
    · exact ready
    · rcases inv.inside u k within with ready | asleep
      · exact ready
      · exact absurd ⟨within, asleep⟩ (free k)
  · rintro rfl
    rw [inv.idle] at member
    cases member

instance (s : System T) : (l : Label T) → Decidable (Unlinked s l)
  | .enter _ _ => isTrue fun _ _ same => nomatch same
  | .resume env =>
    match here : s.cont s.kernel.currentThread with
    | none => isTrue fun _ _ _ inside => by
        obtain ⟨w, p, also, _⟩ := inside
        rw [here] at also
        cases also
    | some y =>
      match lock : y.2.lockOf with
      | none => isTrue fun _ _ _ inside => by
          obtain ⟨w, p, also, locks⟩ := inside
          rw [here] at also
          cases also
          rw [lock] at locks
          cases locks
      | some m => decidable_of_iff (s.kernel.currentThread ∉ waiters s.kernel m) (by
          constructor
          · intro outside _ n _ inside
            obtain ⟨w, p, also, locks⟩ := inside
            rw [here] at also
            cases also
            rw [lock] at locks
            cases locks
            exact outside
          · intro all
            exact all env m rfl ⟨y.1, y.2, here, lock⟩)

instance (k : Kernel T) (m : Nat) : Decidable (MutexBusy k m) := inferInstanceAs (Decidable (_ ∧ _))

instance (rank : Nat → Nat) (k : Kernel T) (held : List Nat) : (c : Call T) → Decidable (c.Orders rank k held)
  | .mutexLock m => inferInstanceAs (Decidable (MutexBusy k m → ∀ n ∈ held, rank n < rank m))
  | .condWait _ m => inferInstanceAs (Decidable ((k.mutex m).owner = _ → held = [m] ∧ HeldOnce k m))
  | .semWait s => inferInstanceAs (Decidable (held ≠ [] → (k.sem s).value ≠ 0))
  | .usleep _ | .exit => inferInstanceAs (Decidable (held = []))
  | .mutexTrylock _ | .mutexUnlock _ | .condSignal _ | .condBroadcast _ | .semTrywait _ | .semPost _
  | .kill _ _ | .cancel _ | .create _ _ _ | .setschedparam _ _ _ | .yield | .timerCreate _ _
  | .timerDelete _ | .timerSettime _ _ _ => isTrue trivial

instance (rank : Nat → Nat) (h : LockHistory T) : (l : Label T) → Decidable (h.Orders rank l)
  | .enter (.call c) _ => inferInstanceAs (Decidable (c.Orders rank h.sys.kernel _))
  | .enter .irq _ => isTrue trivial
  | .resume _ => decidableGoesOn (h.sys.cont h.sys.kernel.currentThread)
      fun p => p.Follows h.sys.kernel (h.held h.sys.kernel.currentThread)

theorem ordered_locks_progress_two :
    let s : System (Fin 3) := startSystem 0 [(0, 1023), (1, 5), (2, 5)]
    let ls : List (Label (Fin 3)) := [.enter (.call (.mutexLock 0)) stillEnv, .resume stillEnv,
      .enter (.call .yield) stillEnv, .enter (.call (.mutexLock 1)) stillEnv, .resume stillEnv,
      .enter (.call (.mutexLock 0)) stillEnv]
    ∃ x es, Lts.exec LockHistory.step ⟨s, fun _ => []⟩ ls = some (x, es) ∧ InLock x.sys 1 0 ∧
      x.held 1 = [1] ∧ x.sys.kernel.state 1 = suspendedThread ∧
      ∃ u n, (x.sys.kernel.mutex n).owner = some u ∧ 1 - 0 ≤ 1 - n ∧
        x.sys.kernel.state u = readyThread ∧ u ≠ x.sys.kernel.idleThread := by
  intro s ls
  have final : (Lts.exec LockHistory.step ⟨s, fun _ => []⟩ ls).map (fun r =>
      (r.1.sys.cont 1, r.1.held 1, r.1.sys.kernel.state 1)) =
      some (some (.call (.mutexLock 0), .lockLoop 0), [1], suspendedThread) := by decide +kernel
  obtain ⟨⟨x, es⟩, run, there⟩ := Option.map_eq_some_iff.mp final
  simp only [Prod.mk.injEq] at there
  obtain ⟨here, held, waits⟩ := there
  have started : Started s := startSystem_started 0 _ (by decide) 1023 (by simp)
  have inside : InLock x.sys 1 0 := ⟨_, _, here, rfl⟩
  exact ⟨x, es, run, inside, held, waits, ordered_locks_progress (fun m => 1 - m) s started ls x es run
    (by decide +kernel) 1 0 inside waits⟩

/-- Thread 2 goes on to lock the mutex that thread 1 has locked: both wait for ever. -/
theorem unordered_locks_deadlock :
    let s : System (Fin 3) := startSystem 0 [(0, 1023), (1, 5), (2, 5)]
    let ls : List (Label (Fin 3)) := [.enter (.call (.mutexLock 0)) stillEnv, .resume stillEnv,
      .enter (.call .yield) stillEnv, .enter (.call (.mutexLock 1)) stillEnv, .resume stillEnv,
      .enter (.call (.mutexLock 0)) stillEnv, .resume stillEnv, .resume stillEnv,
      .enter (.call (.mutexLock 1)) stillEnv]
    (Lts.exec LockHistory.step ⟨s, fun _ => []⟩ ls).map (fun r =>
      (r.1.sys.kernel.currentThread, r.1.sys.kernel.state 1, r.1.sys.kernel.state 2,
        r.1.held 1, r.1.held 2)) = some (0, suspendedThread, suspendedThread, [1], [0]) := by
  decide +kernel

end L4ertl
