import L4ertl.Core.CallSound
import L4ertl.System.Quiet

/-!
The idle thread gets no signal: none is pending for it, no timer sends it one,
and nothing that a thread may do changes that.
-/
namespace L4ertl
open Intrusive

structure IdleSafe {T : Type} (k : Kernel T) : Prop where
  signals : k.sigpending k.idleThread = 0#32
  timers : ∀ i, (k.timerArray i).owner = some k.idleThread → (k.timerArray i).action = .wakeup

variable {T : Type}

theorem IdleSafe.keep {k w : Kernel T} (safe : IdleSafe k) (idle : w.idleThread = k.idleThread)
    (signals : w.sigpending k.idleThread = k.sigpending k.idleThread) (kept : OwnersKept k w) :
    IdleSafe w where
  signals := by rw [idle, signals, safe.signals]
  timers i owner := by
    rw [idle, (kept i).1] at owner
    rw [(kept i).2]
    exact safe.timers i owner

theorem IdleSafe.sched {k w : Kernel T} (safe : IdleSafe k) (only : SchedOnly k w) : IdleSafe w := by
  unfold SchedOnly at only
  rw [only]
  exact ⟨safe.signals, safe.timers⟩

theorem IdleSafe.mutex {k w : Kernel T} (safe : IdleSafe k) (only : MutexOnly k w) : IdleSafe w := by
  unfold MutexOnly at only
  rw [only]
  exact ⟨safe.signals, safe.timers⟩

theorem IdleSafe.cond {k w : Kernel T} (safe : IdleSafe k) (only : CondOnly k w) : IdleSafe w := by
  unfold CondOnly at only
  rw [only]
  exact ⟨safe.signals, safe.timers⟩

theorem IdleSafe.sem {k w : Kernel T} (safe : IdleSafe k) (only : SemOnly k w) : IdleSafe w := by
  unfold SemOnly at only
  rw [only]
  exact ⟨safe.signals, safe.timers⟩

theorem IdleSafe.switch {k w : Kernel T} (safe : IdleSafe k) (only : SwitchOnly k w) :
    IdleSafe w := by
  unfold SwitchOnly at only
  rw [only]
  exact ⟨safe.signals, safe.timers⟩

variable [DecidableEq T]

theorem IdleSafe.errno {k : Kernel T} (safe : IdleSafe k) (e : Int) : IdleSafe (setErrno e k) :=
  ⟨safe.signals, safe.timers⟩

theorem IdleSafe.kill {k : Kernel T} (safe : IdleSafe k) {t : T} (other : t ≠ k.idleThread)
    (sig : Int) : IdleSafe (pthreadKillSys t sig k).1 := by
  have posted : IdleSafe (postSignal t sig k) := by
    refine safe.keep rfl ?_ (.refl k)
    simp only [postSignal, Function.update_of_ne other.symm]
  unfold pthreadKillSys
  split
  · exact safe.errno esrch
  · split
    · exact safe.errno einval
    · simp only
      split
      · exact posted.sched (activateThread_only t _)
      · exact posted

theorem IdleSafe.cancel {k : Kernel T} (safe : IdleSafe k) {t : T} (other : t ≠ k.idleThread) :
    IdleSafe (pthreadCancelSys t k).1 := by
  unfold pthreadCancelSys
  split
  · exact safe.errno esrch
  · exact safe.kill other cancelSignal

theorem IdleSafe.act {k w : Kernel T} (safe : IdleSafe k) {i : Nat} {v : Int}
    (ran : timerAct (k.timerArray i) k = .ok (w, v)) : IdleSafe w := by
  unfold timerAct at ran
  split at ran
  · cases ran
    exact safe.sched (activateThread_only _ k)
  · cases ran
  · rename_i t kill owner
    cases ran
    apply safe.kill
    intro same
    rw [same] at owner
    rw [safe.timers i owner] at kill
    cases kill
  · cases ran
    exact safe.errno esrch

omit [DecidableEq T] in
theorem IdleSafe.rearm {k w : Kernel T} (safe : IdleSafe k) {ctime : Duration} {i : Nat}
    (ran : rearmTimer ctime i k = .ok w) : IdleSafe w := by
  obtain ⟨only, kept⟩ := rearmTimer_book ran
  have idle := congrArg Kernel.idleThread only
  refine safe.keep idle ?_ kept
  rcases rearmTimer_cases ran with ⟨_, _, h, _, rfl, _, rfl⟩ | ⟨_, rfl⟩
  · rfl
  · rfl

theorem IdleSafe.serve {k w : Kernel T} (safe : IdleSafe k) {ctime : Duration} {i : Nat} {v : Int}
    (ran : serveTimer ctime i k = .ok (w, v)) : IdleSafe w := by
  obtain ⟨acted, h, _, act, _, rearm⟩ := serveTimer_parts ran
  have first := safe.act act
  have second : IdleSafe { acted with timerHeap := h } := ⟨first.signals, first.timers⟩
  exact second.rearm rearm

theorem IdleSafe.loop (fuel : Nat) {now : Nat → Clocks} {r q : TimerRound T} (safe : IdleSafe r.kernel)
    (ran : updateLoop fuel now r = .ok q) : IdleSafe q.kernel := by
  refine updateLoop_invariant (P := fun q => IdleSafe q.kernel) fuel ?_ safe ran
  intro q n i ctime k action top safe _ _ served _
  exact safe.serve served

theorem IdleSafe.update {fuel : Nat} {now : Nat → Clocks} {k : Kernel T} {r : TimerRound T}
    (safe : IdleSafe k) (ran : updateHwtimer fuel now k = .ok r) : IdleSafe r.kernel := by
  obtain ⟨top, q, d, _, looped, rfl⟩ := updateHwtimer_loop ran
  have served := IdleSafe.loop fuel (r := ⟨k, some top, 0, []⟩) safe looped
  exact ⟨served.signals, served.timers⟩

omit [DecidableEq T] in
theorem IdleSafe.arm {now : Clocks} {id : Int} {value interval : Duration} {k w : Kernel T} {v : Int}
    (safe : IdleSafe k) (ran : armTimer now id value interval k = .ok (w, v)) : IdleSafe w := by
  obtain ⟨only, kept⟩ := armTimer_book ran
  have idle := congrArg Kernel.idleThread only
  refine safe.keep idle ?_ kept
  simp only [armTimer, bind, bind_ok, pure, Except.pure] at ran
  obtain ⟨i, _, ran⟩ := ran
  split at ran
  · cases ran
    rfl
  · rw [bind_ok] at ran
    obtain ⟨expiry, _, ran⟩ := ran
    rw [bind_ok] at ran
    obtain ⟨h, _, ran⟩ := ran
    cases ran
    rfl

omit [DecidableEq T] in
theorem IdleSafe.free {id : Int} {k w : Kernel T} (safe : IdleSafe k)
    (ran : freeKtimer id k = .ok w) : IdleSafe w := by
  obtain ⟨only, kept⟩ := freeKtimer_book ran
  have idle := congrArg Kernel.idleThread only
  refine safe.keep idle ?_ kept
  simp only [freeKtimer, bind, bind_ok, pure, Except.pure, Except.ok.injEq] at ran
  obtain ⟨i, _, h, _, rfl⟩ := ran
  rfl

omit [DecidableEq T] in
theorem IdleSafe.disarm {id : Int} {x : Ktimer T} {k w : Kernel T} (safe : IdleSafe k)
    (ran : disarmIfArmed id x k = .ok w) : IdleSafe w := by
  obtain ⟨only, kept⟩ := disarmIfArmed_book ran
  have idle := congrArg Kernel.idleThread only
  refine safe.keep idle ?_ kept
  unfold disarmIfArmed at ran
  split at ran
  · simp only [disarmTimer, bind, bind_ok, pure, Except.pure, Except.ok.injEq] at ran
    obtain ⟨i, _, h, _, rfl⟩ := ran
    rfl
  · cases ran
    rfl

theorem IdleSafe.settime {fuel : Nat} {now : Nat → Clocks} {id : Int} {flags : Word}
    {value o : Option Itimerspec} {k w : Kernel T} {v : Int} (safe : IdleSafe k)
    (ran : timerSettimeSys fuel now id flags value k = .ok (w, v, o)) : IdleSafe w := by
  rcases timerSettimeSys_cases ran with ⟨_, rfl⟩ | ⟨_, i, disarmed, _, disarm, rest⟩
  · exact safe.errno eagain
  · have marked : IdleSafe (setAbstime i flags disarmed) :=
      (safe.disarm disarm).keep rfl rfl (setAbstime_owners i flags disarmed)
    rcases rest with rfl | ⟨x, armed, _, r, _, _, arm, update, rfl⟩
    · exact marked
    · exact (marked.arm arm).update update

theorem IdleSafe.sleep {fuel : Nat} {now : Nat → Clocks} {d : Duration} {k w : Kernel T}
    (safe : IdleSafe k) (ran : sleepFor fuel now d k = .ok w) : IdleSafe w := by
  simp only [sleepFor, bind, bind_ok, pure, Except.pure, Prod.exists] at ran
  obtain ⟨armed, _, arm, r, update, ran⟩ := ran
  cases ran
  exact ((safe.arm arm).sched (suspendThread_only _ armed)).update update

theorem IdleSafe.exit {k w : Kernel T} (safe : IdleSafe k) (ran : pthreadExitSys k = .ok w) :
    IdleSafe w := by
  simp only [pthreadExitSys, bind, bind_ok, pure, Except.pure] at ran
  obtain ⟨freed, free, ran⟩ := ran
  have finished := (safe.free free).sched (finishThread_only k.currentThread freed)
  split at ran
  · cases ran
    split
    · exact finished.sched (activateThread_only _ _)
    · exact finished
  · cases ran
    exact finished

theorem IdleSafe.stopped {k w : Kernel T} (safe : IdleSafe k) (stopped : Stopped k w) :
    IdleSafe w := by
  cases stopped with
  | exited ran => exact safe.exit ran
  | slept => exact safe.sched (suspendThread_only _ k)

theorem IdleSafe.timerCreate {clockid v : Int} {evp : Option Int} {k w : Kernel T} (safe : IdleSafe k)
    (other : k.currentThread ≠ k.idleThread) (ran : timerCreateSys clockid evp k = .ok (w, v)) :
    IdleSafe w := by
  have allocated : ∀ clock, IdleSafe
      { k with timerArray := (allocKtimer clock k.currentThread .kill k.timerArray).1 } := by
    intro clock
    refine ⟨safe.signals, fun i owner => ?_⟩
    simp only [allocKtimer] at owner ⊢
    split at owner
    · rename_i full
      rw [if_pos full]
      exact safe.timers i owner
    · rename_i free
      rw [if_neg free]
      simp only [Function.update_apply] at owner ⊢
      split at owner
      · exact absurd (Option.some.inj owner) other
      · rename_i apart
        rw [if_neg apart]
        exact safe.timers i owner
  unfold timerCreateSys at ran
  split at ran
  · cases ran
    exact safe.errno einval
  · rename_i clock _
    simp only [bind, pure, Except.pure] at ran
    split at ran
    · cases ran
      exact (allocated clock).errno eagain
    · rw [bind_ok] at ran
      obtain ⟨j, _, ran⟩ := ran
      cases ran
      have kept : OwnersKept { k with
          timerArray := (allocKtimer clock k.currentThread .kill k.timerArray).1 } _ :=
        setTimer_owners (i := j) (x := { (allocKtimer clock k.currentThread .kill k.timerArray).1 j with
          signo := evp.getD sigalarm }) rfl rfl
      exact (allocated clock).keep rfl rfl kept

theorem IdleSafe.timerDelete {id v : Int} {k w : Kernel T} (safe : IdleSafe k)
    (ran : timerDeleteSys id k = .ok (w, v)) : IdleSafe w := by
  simp only [timerDeleteSys, bind, bind_ok, pure, Except.pure] at ran
  obtain ⟨unused, _, ran⟩ := ran
  split at ran
  · cases ran
    exact safe.errno eagain
  · rw [bind_ok] at ran
    obtain ⟨x, freed, ran⟩ := ran
    cases ran
    exact safe.free freed

theorem IdleSafe.create {k : Kernel T} (safe : IdleSafe k) {a : T} (other : a ≠ k.idleThread) :
    IdleSafe (createPthreadStruct (some a) k).1 := by
  refine ⟨?_, fun i owner => ?_⟩
  · simp only [createPthreadStruct, Function.update_of_ne other.symm]
    exact safe.signals
  · simp only [createPthreadStruct, allocKtimer] at owner ⊢
    split at owner
    · rename_i full
      rw [if_pos full]
      exact safe.timers i owner
    · rename_i free
      rw [if_neg free]
      simp only [Function.update_apply] at owner ⊢
      split at owner
      · rename_i same
        rw [if_pos same]
      · rename_i apart
        rw [if_neg apart]
        exact safe.timers i owner

theorem IdleSafe.pthreadCreate {k : Kernel T} (safe : IdleSafe k) {addr : Option T}
    (other : addr ≠ some k.idleThread) (stack : Bool) (attr : Option PthreadAttr) :
    IdleSafe (pthreadCreateSys addr stack attr k).1 := by
  unfold pthreadCreateSys
  split
  · exact safe.errno einval
  · cases addr with
    | none => exact safe.errno eagain
    | some a =>
      have apart : a ≠ k.idleThread := fun same => other (by rw [same])
      have configured := (safe.create apart).sched (configureThread_only a attr _)
      simp only [createPthreadStruct]
      split
      · exact configured.errno eagain
      · exact configured.sched (activateThread_only a _)

variable [Fintype T]

theorem Work.run_safe {w : Work T} {env : Env} {k x : Kernel T} {pr : Progress} (ok : KernelOk k)
    (safe : IdleSafe k) (legal : w.Legal k = true) (ran : w.run env k = .ok (x, pr)) :
    IdleSafe x := by
  cases w with
  | irq =>
    simp only [Work.run, doIrq, clockHandler, bind, bind_ok, pure, Except.pure, Except.ok.injEq,
      Prod.mk.injEq] at ran
    obtain ⟨y, ⟨r, update, rfl⟩, rfl, _⟩ := ran
    have entered : IdleSafe { k with irqNestingCounter := k.irqNestingCounter + 1#32 } :=
      ⟨safe.signals, safe.timers⟩
    have served := entered.update update
    split
    · have switched := served.switch (scheduling_only (env.now 0).monotonic r.kernel)
      exact ⟨switched.signals, switched.timers⟩
    · exact ⟨served.signals, served.timers⟩
  | call c =>
    cases c with
    | mutexLock m =>
      obtain ⟨rfl, rfl⟩ := ran_pair ran
      rw [pthreadMutexLockSys_kernel]
      exact safe.mutex (mutexLockLoop_only m k)
    | mutexTrylock m =>
      obtain ⟨rfl, rfl⟩ := ran_pair ran
      exact safe.mutex (pthreadMutexTrylockSys_only m k)
    | mutexUnlock m =>
      obtain ⟨rfl, rfl⟩ := ran_pair ran
      rw [pthreadMutexUnlockSys_kernel]
      exact safe.mutex (mutexUnlock_only m k)
    | condSignal c =>
      obtain ⟨rfl, rfl⟩ := ran_pair ran
      exact safe.cond (condSignal_only c k)
    | condBroadcast c =>
      obtain ⟨rfl, rfl⟩ := ran_pair ran
      exact safe.cond (drain_condOnly c k)
    | condWait c m =>
      obtain ⟨rfl, rfl⟩ := ran_pair ran
      rcases pthreadCondWaitSys_cases c m k with ⟨_, eq⟩ | ⟨_, v, _, eq⟩ | ⟨_, _, eq⟩
      · rw [eq]; exact safe.errno eperm
      · rw [eq]; exact (safe.mutex (mutexUnlock_only m k)).cond (blockOn_condOnly c _)
      · rw [eq]; exact safe.mutex (mutexUnlock_only m k)
    | semWait s =>
      obtain ⟨rfl, rfl⟩ := ran_pair ran
      exact safe.sem (semWaitSys_only s k)
    | semTrywait s =>
      obtain ⟨rfl, rfl⟩ := ran_pair ran
      exact safe.sem (semTrywaitSys_only s k)
    | semPost s =>
      obtain ⟨rfl, rfl⟩ := ran_pair ran
      exact safe.sem (semPostSys_only s k)
    | kill t sig =>
      obtain ⟨rfl, rfl⟩ := ran_pair ran
      simp only [Work.Legal, Call.Legal, Bool.and_eq_true, bne_iff_ne] at legal
      exact safe.kill legal.1.2 sig
    | cancel t =>
      obtain ⟨rfl, rfl⟩ := ran_pair ran
      simp only [Work.Legal, Call.Legal, Bool.and_eq_true, bne_iff_ne] at legal
      exact safe.cancel legal.1.2
    | create addr stack attr =>
      obtain ⟨rfl, rfl⟩ := ran_pair ran
      apply safe.pthreadCreate
      rintro rfl
      simp [Work.Legal, Call.Legal, ok.idle] at legal
    | setschedparam t policy param =>
      obtain ⟨rfl, rfl⟩ := ran_pair ran
      unfold pthreadSetschedparamSys
      split
      · exact safe.errno esrch
      · cases param with
        | none => exact ⟨safe.signals, safe.timers⟩
        | some p =>
          have set : IdleSafe { k with
              threadFlags := Function.update k.threadFlags t
                (setThreadPolicy (k.threadFlags t) (BitVec.ofInt 32 policy))
              schedParam := Function.update k.schedParam t p } := ⟨safe.signals, safe.timers⟩
          exact set.sched (changeThreadPrio_only t p.schedPriority _)
    | yield =>
      obtain ⟨rfl, rfl⟩ := ran_pair ran
      exact ⟨safe.signals, safe.timers⟩
    | exit =>
      obtain ⟨exited, rfl⟩ := ran_exit ran
      exact safe.exit exited
    | timerCreate clockid evp =>
      obtain ⟨v, created, rfl⟩ := ran_timerCreate ran
      simp only [Work.Legal, Call.Legal, Bool.and_eq_true, bne_iff_ne] at legal
      exact safe.timerCreate legal.2 created
    | timerDelete id =>
      obtain ⟨v, deleted, rfl⟩ := ran_timerDelete ran
      exact safe.timerDelete deleted
    | timerSettime id flags value =>
      obtain ⟨v, o, set, rfl⟩ := ran_timerSettime ran
      exact safe.settime set
    | usleep usec =>
      obtain ⟨slept, rfl⟩ := ran_usleep ran
      exact safe.sleep slept

omit [Fintype T] in
theorem IdleSafe.delivered {rounds : Nat} {k x : Kernel T} {p : Option Point} (safe : IdleSafe k)
    (delivered : Delivered rounds k x p) : IdleSafe x := by
  have taken : ∀ {y : Kernel T}, SigOnly k y → IdleSafe y := by
    intro y sig
    have idle := congrArg Kernel.idleThread sig.only
    have kept := sig.none k.idleThread safe.signals
    exact safe.keep idle (by rw [kept, safe.signals]) sig.owners
  cases delivered with
  | ended sig => exact taken sig
  | stopped mask next rest sig stop => exact (taken sig).stopped stop

omit [Fintype T] in
theorem Point.run_safe {p : Point} {env : Env} {k x : Kernel T} {outcome : Outcome}
    (safe : IdleSafe k) (ran : p.run env k = .ok (x, outcome)) : IdleSafe x := by
  cases p with
  | done =>
    cases ran
    exact safe
  | lockLoop m =>
    cases ran
    rw [pthreadMutexLockSys_kernel]
    exact safe.mutex (mutexLockLoop_only m k)
  | condUnlocked c m =>
    cases ran
    exact safe.cond (blockOn_condOnly c k)
  | condWoken m =>
    cases ran
    rw [condRelock_kernel]
    exact safe.mutex (mutexLockLoop_only m k)
  | condLock m =>
    cases ran
    rw [condRelock_kernel]
    exact safe.mutex (mutexLockLoop_only m k)
  | semWait s =>
    cases ran
    exact safe.sem (semTake_only s k)
  | semPost s =>
    cases ran
    exact safe.sem (semGive_only s k)
  | slept d =>
    obtain ⟨pr, finished, rfl⟩ := ran_slept ran
    simp only [usleepDone, bind, bind_ok, pure, Except.pure, Except.ok.injEq] at finished
    obtain ⟨rest, _, finished⟩ := finished
    split at finished
    · cases finished
      exact safe.errno eintr
    · cases finished
      exact safe
  | leave rounds =>
    cases rounds with
    | zero =>
      cases ran
      exact safe
    | succ rounds =>
      obtain ⟨q, signals, rfl⟩ := ran_leave ran
      exact safe.delivered (doSignals_delivered signals)
  | signals mask signal pend rounds =>
    obtain ⟨q, signals, rfl⟩ := ran_signals ran
    exact safe.delivered (signalLoop_delivered _ signals)

end L4ertl
