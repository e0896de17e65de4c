import L4ertl.Core.Prompt
import L4ertl.System.Reaping

/-!
What pthread_join_sys reads of a thread: its magic number, its detach flag, its
joiner and whether it is FINISHED. No call touches these but those that are about
joining, and pthread_exit_sys.
-/
namespace L4ertl
open Intrusive

theorem getThreadDetachState_set (flags state : Word) :
    getThreadDetachState (setThreadState flags state) = getThreadDetachState flags := by
  have part : ∀ f, getThreadDetachState f = otherFlags f &&& 0x8#32 := by
    intro f
    rw [otherFlags, BitVec.and_assoc]
    rfl
  rw [part, part, otherFlags_set]

theorem getThreadDetachState_policy (flags policy : Word) :
    getThreadDetachState (setThreadPolicy flags policy) = getThreadDetachState flags := by
  apply BitVec.eq_of_getLsbD_eq
  intro i _
  simp only [getThreadDetachState, setThreadPolicy, BitVec.getLsbD_and, BitVec.getLsbD_or,
    BitVec.getLsbD_shiftLeft]
  by_cases bit : i = 3
  · subst bit
    simp
  · have off : (0x8#32).getLsbD i = false := by
      rw [BitVec.getLsbD_ofNat, show (8 : Nat) = 2 ^ 3 from rfl, Nat.testBit_two_pow]
      simp [Ne.symm bit]
    simp [off]

variable {T : Type} [DecidableEq T]

def cancelDue (signal : Nat) (sigpend : Word) : Bool :=
  (signal = 0 && sigpend.getLsbD 1) || (signal = 1 && sigpend.getLsbD 0)

def Point.cancels (k : Kernel T) : Point → Bool
  | .leave (_ + 1) => cancelDue 0 (takeSignals k).2
  | .signals _ signal sigpend _ => cancelDue signal sigpend
  | _ => false

/-- The current thread executes pthread_exit_sys: as a call, or in do_signals. -/
def System.exiting (s : System T) : Label T → Bool
  | .enter w _ => w = .call .exit
  | .resume _ => (s.cont s.kernel.currentThread).any fun (_, p) => p.cancels s.kernel

/-- A thread is to its joiners what it was, unless it is active again. -/
structure JoinKept (t : T) (k w : Kernel T) : Prop where
  joining : w.joiningThread t = k.joiningThread t
  magic : w.magicNumber t = k.magicNumber t
  detach : getThreadDetachState (w.threadFlags t) = getThreadDetachState (k.threadFlags t)
  ended : w.state t = finishedThread → k.state t = finishedThread

section
variable {t : T} {k w x : Kernel T}

omit [DecidableEq T] in
theorem JoinKept.trans (first : JoinKept t k w) (second : JoinKept t w x) : JoinKept t k x :=
  ⟨second.joining.trans first.joining, second.magic.trans first.magic,
    second.detach.trans first.detach, fun ended => first.ended (second.ended ended)⟩

omit [DecidableEq T] in
theorem JoinKept.of_flags (joining : w.joiningThread = k.joiningThread)
    (magic : w.magicNumber = k.magicNumber) (flags : w.threadFlags = k.threadFlags) :
    JoinKept t k w := by
  refine ⟨by rw [joining], by rw [magic], by rw [flags], fun ended => ?_⟩
  rw [Kernel.state, flags] at ended
  exact ended

omit [DecidableEq T] in
theorem BookOnly.joinKept (only : BookOnly k w) : JoinKept t k w := by
  have joining := congrArg Kernel.joiningThread only
  have magic := congrArg Kernel.magicNumber only
  have flags := congrArg Kernel.threadFlags only
  exact .of_flags joining magic flags

omit [DecidableEq T] in
theorem ObjOnly.joinKept (only : ObjOnly k w) : JoinKept t k w := by
  have joining := congrArg Kernel.joiningThread only
  have magic := congrArg Kernel.magicNumber only
  have flags := congrArg Kernel.threadFlags only
  exact .of_flags joining magic flags

omit [DecidableEq T] in
theorem SwitchOnly.joinKept (only : SwitchOnly k w) : JoinKept t k w := by
  have joining := congrArg Kernel.joiningThread only
  have magic := congrArg Kernel.magicNumber only
  have flags := congrArg Kernel.threadFlags only
  exact .of_flags joining magic flags

theorem SchedOnly.joinKept (only : SchedOnly k w)
    (flags : w.threadFlags = k.threadFlags ∨ ∃ u state, state ≠ finishedThread ∧
      getThreadState (setThreadState (k.threadFlags u) state) = state ∧
      w.threadFlags = Function.update k.threadFlags u (setThreadState (k.threadFlags u) state)) :
    JoinKept t k w := by
  have joining := congrArg Kernel.joiningThread only
  have magic := congrArg Kernel.magicNumber only
  rcases flags with same | ⟨u, state, active, reads, written⟩
  · exact .of_flags joining magic same
  · refine ⟨by rw [joining], by rw [magic], ?_, fun ended => ?_⟩
    · rw [written, Function.update_apply]
      split
      · rename_i self
        rw [self, getThreadDetachState_set]
      · rfl
    · rw [Kernel.state, written, Function.update_apply] at ended
      split at ended
      · rw [reads] at ended
        exact absurd ended active
      · exact ended

theorem activateThread_joinKept (u : T) (k : Kernel T) : JoinKept t k (activateThread u k) := by
  apply (activateThread_only u k).joinKept
  unfold activateThread
  split
  · exact Or.inr ⟨u, readyThread, ready_ne_finished, getThreadState_ready _, rfl⟩
  · exact Or.inl rfl

theorem suspendThread_joinKept (u : T) (k : Kernel T) : JoinKept t k (suspendThread u k) := by
  apply (suspendThread_only u k).joinKept
  simp only [suspendThread]
  split
  · exact Or.inr ⟨u, suspendedThread, by decide, getThreadState_suspended _, rfl⟩
  · exact Or.inl rfl

theorem changeThreadPrio_joinKept (u : T) (p : Int) (k : Kernel T) :
    JoinKept t k (changeThreadPrio u p k) :=
  (changeThreadPrio_only u p k).joinKept (Or.inl (changeThreadPrio_flags u p k))

theorem Woken.joinKept {P : T → Prop} (woken : Woken P k w) : JoinKept t k w := by
  induction woken with
  | book only => exact only.joinKept
  | wake u allowed => exact activateThread_joinKept u _
  | trans first second one two => exact one.trans two

end

section
variable {t : T}

theorem blockOn_joinKept (l : WaitList T) (k : Kernel T) : JoinKept t k (blockOn l k) :=
  (suspendThread_joinKept k.currentThread k).trans (l.store_only _ _ _).joinKept

theorem removeHead_joinKept (l : WaitList T) (k : Kernel T) : JoinKept t k (l.removeHead k).1 :=
  (l.store_only _ _ _).joinKept

theorem drain_joinKept [Fintype T] (l : WaitList T) (k : Kernel T) : JoinKept t k (drain l k) := by
  obtain ⟨y, woken, stored⟩ := drain_woken l k
  exact woken.joinKept.trans stored.joinKept

omit [DecidableEq T] in
theorem setMutex_joinKept (m : Nat) (x : Mutex T) (k : Kernel T) : JoinKept t k (setMutex m x k) :=
  .of_flags rfl rfl rfl

theorem setErrno_joinKept (e : Int) (k : Kernel T) : JoinKept t k (setErrno e k) :=
  .of_flags rfl rfl rfl

theorem raiseToCeiling_joinKept (m : Nat) (k : Kernel T) : JoinKept t k (raiseToCeiling m k).1 := by
  simp only [raiseToCeiling]
  split
  · split
    · exact (setMutex_joinKept m _ k).trans (changeThreadPrio_joinKept _ _ _)
    · exact setMutex_joinKept m _ k
  · exact .of_flags rfl rfl rfl

theorem mutexLockLoop_joinKept (m : Nat) (k : Kernel T) : JoinKept t k (mutexLockLoop m k).1 := by
  simp only [mutexLockLoop]
  split
  · exact (setMutex_joinKept m _ k).trans (raiseToCeiling_joinKept m _)
  · split
    · exact setErrno_joinKept _ k
    · split
      · exact setMutex_joinKept m _ k
      · exact blockOn_joinKept (mutexWaiters m) k

theorem pthreadMutexTrylockSys_joinKept (m : Nat) (k : Kernel T) :
    JoinKept t k (pthreadMutexTrylockSys m k).1 := by
  have raised := (setMutex_joinKept (t := t) m { k.mutex m with owner := some k.currentThread } k).trans
    (raiseToCeiling_joinKept m _)
  simp only [pthreadMutexTrylockSys]
  split
  · split
    · rename_i here
      rw [here] at raised
      exact raised
    · rename_i here
      rw [here] at raised
      exact raised
  · split
    · exact setMutex_joinKept m _ k
    · exact setErrno_joinKept _ k

theorem pthreadCondSignalSys_joinKept (c : Nat) (k : Kernel T) :
    JoinKept t k (pthreadCondSignalSys c k).1 := by
  have removed := removeHead_joinKept (t := t) (condWaiters c) k
  unfold pthreadCondSignalSys
  split
  · rename_i here
    rw [here] at removed
    exact removed.trans (activateThread_joinKept _ _)
  · rename_i here
    rw [here] at removed
    exact removed

theorem semGive_joinKept (s : Nat) (k : Kernel T) : JoinKept t k (semGive s k).1 := by
  unfold semGive
  split
  · exact .of_flags rfl rfl rfl
  · exact setErrno_joinKept _ k

theorem semWaitSys_joinKept (s : Nat) (k : Kernel T) : JoinKept t k (semWaitSys s k).1 := by
  unfold semWaitSys
  split
  · exact blockOn_joinKept (semWaiters s) k
  · exact .of_flags rfl rfl rfl

theorem semTrywaitSys_joinKept (s : Nat) (k : Kernel T) : JoinKept t k (semTrywaitSys s k).1 := by
  unfold semTrywaitSys
  split
  · exact setErrno_joinKept _ k
  · exact .of_flags rfl rfl rfl

theorem semPostSys_joinKept (s : Nat) (k : Kernel T) : JoinKept t k (semPostSys s k).1 := by
  have removed := removeHead_joinKept (t := t) (semWaiters s) k
  unfold semPostSys
  split
  · split
    · rename_i here
      rw [here] at removed
      exact removed.trans (activateThread_joinKept _ _)
    · rename_i here
      rw [here] at removed
      exact removed.trans (semGive_joinKept s _)
  · exact semGive_joinKept s k

section
variable [Fintype T]

theorem releaseMutex_joinKept (m : Nat) (k : Kernel T) : JoinKept t k (releaseMutex m k).1 := by
  have drained := (drain_joinKept (t := t) (mutexWaiters m) k).trans (setMutex_joinKept m
    { (drain (mutexWaiters m) k).mutex m with mutexList := none, owner := none, counter := 0 } _)
  simp only [releaseMutex]
  split
  · exact drained.trans (changeThreadPrio_joinKept _ _ _)
  · exact drained

theorem mutexUnlock_joinKept (m : Nat) (k : Kernel T) : JoinKept t k (mutexUnlock m k).1 := by
  simp only [mutexUnlock]
  split
  · split
    · exact setErrno_joinKept _ k
    · exact .of_flags rfl rfl rfl
  · split
    · exact setErrno_joinKept _ k
    · split
      · split
        · exact setMutex_joinKept m _ k
        · exact (setMutex_joinKept m _ k).trans (releaseMutex_joinKept m _)
      · exact releaseMutex_joinKept m k

theorem pthreadCondWaitSys_joinKept (c m : Nat) (k : Kernel T) :
    JoinKept t k (pthreadCondWaitSys c m k).1 := by
  have unlocked := mutexUnlock_joinKept (t := t) m k
  rcases pthreadCondWaitSys_cases c m k with ⟨_, eq⟩ | ⟨_, v, _, eq⟩ | ⟨_, _, eq⟩
  · rw [eq]
    exact setErrno_joinKept _ k
  · rw [eq]
    exact unlocked.trans (blockOn_joinKept (condWaiters c) _)
  · rw [eq]
    exact unlocked

end

theorem setThreadPolicy_joinKept (u : T) (policy : Int) {k w : Kernel T}
    (joining : w.joiningThread = k.joiningThread) (magic : w.magicNumber = k.magicNumber)
    (flags : w.threadFlags = Function.update k.threadFlags u
      (setThreadPolicy (k.threadFlags u) (BitVec.ofInt 32 policy))) : JoinKept t k w := by
  refine ⟨by rw [joining], by rw [magic], ?_, fun ended => ?_⟩
  · rw [flags, Function.update_apply]
    split
    · rename_i self
      rw [self, getThreadDetachState_policy]
    · rfl
  · rw [Kernel.state, flags, Function.update_apply] at ended
    split at ended
    · rename_i self
      rw [getThreadState_policy] at ended
      rw [self]
      exact ended
    · exact ended

theorem pthreadSetschedparamSys_joinKept (u : T) (policy : Int) (param : Option SchedParam)
    (k : Kernel T) : JoinKept t k (pthreadSetschedparamSys u policy param k).1 := by
  unfold pthreadSetschedparamSys
  split
  · exact setErrno_joinKept _ k
  · cases param with
    | none =>
      refine JoinKept.trans ?_ (setErrno_joinKept einval _)
      exact setThreadPolicy_joinKept u policy rfl rfl rfl
    | some p =>
      refine JoinKept.trans ?_ (changeThreadPrio_joinKept u p.schedPriority _)
      exact setThreadPolicy_joinKept u policy rfl rfl rfl

theorem pthreadCreateSys_joinKept {a : T} (other : t ≠ a) (stack : Bool) (attr : Option PthreadAttr)
    (k : Kernel T) : JoinKept t k (pthreadCreateSys (some a) stack attr k).1 := by
  have configured : JoinKept t k (configureThread a attr (createPthreadStruct (some a) k).1) := by
    cases attr with
    | none =>
      refine ⟨?_, ?_, ?_, ?_⟩ <;> simp [configureThread, createPthreadStruct, Kernel.state, other]
    | some b =>
      refine ⟨?_, ?_, ?_, ?_⟩ <;> simp [configureThread, createPthreadStruct, Kernel.state, other]
  unfold pthreadCreateSys
  split
  · exact setErrno_joinKept _ k
  · simp only [createPthreadStruct] at configured ⊢
    split
    · exact configured.trans (setErrno_joinKept _ _)
    · exact configured.trans (activateThread_joinKept a _)

theorem clockHandler_joinKept {fuel : Nat} {now : Nat → Clocks} {k w : Kernel T}
    (ok : clockHandler fuel now k = .ok w) : JoinKept t k w := by
  simp only [clockHandler, bind, bind_ok, pure, Except.pure, Except.ok.injEq] at ok
  obtain ⟨r, update, rfl⟩ := ok
  have first := (updateHwtimer_woken update).1.joinKept (t := t)
  split
  · exact first.trans (scheduling_only _ r.kernel).joinKept
  · exact first

theorem doIrq_joinKept {fuel : Nat} {now : Nat → Clocks} {k w : Kernel T} {pr : Progress}
    (ok : doIrq fuel now k = .ok (w, pr)) : JoinKept t k w := by
  simp only [doIrq, bind, bind_ok, pure, Except.pure, Except.ok.injEq, Prod.mk.injEq] at ok
  obtain ⟨x, handled, rfl, rfl⟩ := ok
  have entered : JoinKept t k { k with irqNestingCounter := k.irqNestingCounter + 1#32 } :=
    .of_flags rfl rfl rfl
  exact (entered.trans (clockHandler_joinKept handled)).trans (.of_flags rfl rfl rfl)

theorem sleepFor_joinKept {fuel : Nat} {now : Nat → Clocks} {d : Duration} {k w : Kernel T}
    (ok : sleepFor fuel now d k = .ok w) : JoinKept t k w := by
  obtain ⟨armed, only, _, woken, _⟩ := sleepFor_woken ok
  exact (only.joinKept.trans (suspendThread_joinKept _ armed)).trans woken.joinKept

end

structure Exited (k w : Kernel T) : Prop where
  others : ∀ t, t ≠ k.currentThread → JoinKept t k w
  joining : w.joiningThread = k.joiningThread
  magic : w.magicNumber = k.magicNumber
  detach : ∀ t, getThreadDetachState (w.threadFlags t) = getThreadDetachState (k.threadFlags t)
  ended : w.state k.currentThread = finishedThread
  wakes : ∀ j, k.joiningThread k.currentThread = some j →
    getThreadDetachState (k.threadFlags k.currentThread) = 0#32 → j ≠ k.currentThread →
    k.state j ≠ finishedThread → w.state j = readyThread

section
variable {k w : Kernel T}

theorem finishThread_detach (t u : T) (k : Kernel T) :
    getThreadDetachState ((finishThread t k).threadFlags u) = getThreadDetachState (k.threadFlags u) := by
  have same : ∀ y : Kernel T, (freeKstack t y).threadFlags = y.threadFlags := by
    intro y
    unfold freeKstack
    split
    · rfl
    · rfl
  simp only [finishThread, setState, same, Function.update_apply]
  split
  · rename_i self
    rw [self, getThreadDetachState_set]
  · rfl

theorem finishThread_joinKept {t u : T} (other : u ≠ t) (k : Kernel T) :
    JoinKept u k (finishThread t k) := by
  have only := finishThread_only t k
  have joining := congrArg Kernel.joiningThread only
  have magic := congrArg Kernel.magicNumber only
  refine ⟨by rw [joining], by rw [magic], finishThread_detach t u k, fun ended => ?_⟩
  rw [finishThread_state, if_neg other] at ended
  exact ended

theorem pthreadExitSys_exited (ok : pthreadExitSys k = .ok w) : Exited k w := by
  simp only [pthreadExitSys, bind, bind_ok, pure, Except.pure] at ok
  obtain ⟨freed, free, ok⟩ := ok
  have book := (freeKtimer_book free).1
  have flags := congrArg Kernel.threadFlags book
  have joining := congrArg Kernel.joiningThread book
  have magic := congrArg Kernel.magicNumber book
  have only := finishThread_only k.currentThread freed
  have joining' := congrArg Kernel.joiningThread only
  have magic' := congrArg Kernel.magicNumber only
  have before : ∀ u, getThreadDetachState ((finishThread k.currentThread freed).threadFlags u) =
      getThreadDetachState (k.threadFlags u) := by
    intro u
    rw [finishThread_detach, flags]
  have others : ∀ u, u ≠ k.currentThread → JoinKept u k (finishThread k.currentThread freed) :=
    fun u other => book.joinKept.trans (finishThread_joinKept other freed)
  have ended : (finishThread k.currentThread freed).state k.currentThread = finishedThread := by
    rw [finishThread_state, if_pos rfl]
  split at ok
  · rename_i joiner waits
    rw [before] at ok
    have joins : k.joiningThread k.currentThread = some joiner := by
      rw [← waits, joining', joining]
    split at ok
    · cases ok
      have woken := fun u => activateThread_joinKept (t := u) joiner (finishThread k.currentThread freed)
      refine ⟨fun u other => (others u other).trans (woken u), ?_, ?_, fun u => ?_, ?_, ?_⟩
      · funext u
        rw [(woken u).joining, joining', joining]
      · funext u
        rw [(woken u).magic, magic', magic]
      · rw [(woken u).detach, before]
      · rw [activateThread_state, if_neg, ended]
        rintro ⟨same, active⟩
        rw [← same] at active
        exact active ended
      · intro j same _ other active
        rw [joins, Option.some.injEq] at same
        subst same
        have awake : (finishThread k.currentThread freed).state joiner ≠ finishedThread :=
          fun done => active ((others joiner other).ended done)
        rw [activateThread_state, if_pos ⟨rfl, awake⟩]
    · rename_i gone
      cases ok
      exact ⟨others, joining'.trans joining, magic'.trans magic, before, ended,
        fun j _ here _ _ => absurd here gone⟩
  · rename_i none
    cases ok
    refine ⟨others, joining'.trans joining, magic'.trans magic, before, ended, fun j same => ?_⟩
    rw [joining', joining, same] at none
    cases none

omit [DecidableEq T] in
theorem Exited.after {x : Kernel T} (sig : SigOnly k x) (exited : Exited x w) : Exited k w := by
  have flags := congrArg Kernel.threadFlags sig.only
  have joining := congrArg Kernel.joiningThread sig.only
  have magic := congrArg Kernel.magicNumber sig.only
  have current := congrArg Kernel.currentThread sig.only
  have states : ∀ u, x.state u = k.state u := Kernel.state_of_flags flags
  refine ⟨fun u other => sig.book.joinKept.trans (exited.others u (by rw [current]; exact other)),
    exited.joining.trans joining, exited.magic.trans magic, fun u => ?_, ?_, ?_⟩
  · rw [exited.detach, flags]
  · have ended := exited.ended
    rw [current] at ended
    exact ended
  · intro j joins attached other active
    apply exited.wakes j
    · rw [joining, current]
      exact joins
    · rw [flags, current]
      exact attached
    · rw [current]
      exact other
    · rw [states]
      exact active

theorem Delivered.join {rounds : Nat} {p : Option Point} (delivered : Delivered rounds k w p) :
    (∀ t, JoinKept t k w) ∨ (Exited k w ∧ ∃ q, signalOutcome rounds p = .sched q) := by
  cases delivered with
  | ended sig => exact Or.inl fun t => sig.book.joinKept
  | stopped mask next rest sig stop =>
    cases stop with
    | exited ok => exact Or.inr ⟨(pthreadExitSys_exited ok).after sig, _, rfl⟩
    | slept => exact Or.inl fun t => sig.book.joinKept.trans (suspendThread_joinKept _ _)

omit [DecidableEq T] in
theorem sigmask_joinKept {t : T} (masks : T → Word) (k : Kernel T) :
    JoinKept t k { k with sigmask := masks } := .of_flags rfl rfl rfl

theorem signalLoop_spared (n : Nat) {oldSigmask : Word} {rounds signal : Nat} {sigpend : Word} {t : T}
    {p : Option Point} (spared : cancelDue signal sigpend = false)
    (ok : signalLoop oldSigmask rounds n signal sigpend k = .ok (w, p)) : JoinKept t k w := by
  induction n generalizing signal sigpend k with
  | zero =>
    cases ok
    exact sigmask_joinKept _ k
  | succ n ih =>
    have later : cancelDue (signal + 1) (sigpend >>> 1) = false := by
      simp only [cancelDue, Bool.or_eq_false_iff, Bool.and_eq_false_iff, decide_eq_false_iff_not,
        BitVec.getLsbD_ushiftRight] at spared ⊢
      refine ⟨Or.inl (by omega), ?_⟩
      by_cases first : signal = 0
      · exact Or.inr (spared.1.resolve_left (not_not.mpr first))
      · exact Or.inl (by omega)
    unfold signalLoop at ok
    split at ok
    · cases ok
      exact sigmask_joinKept _ k
    · simp only at ok
      split at ok
      · rename_i due
        have uncancelled : signal ≠ 1 := by
          rintro rfl
          apply due
          rw [BitVec.and_one_eq_setWidth_ofBool_getLsbD]
          simp only [cancelDue, one_ne_zero, decide_false, Bool.false_and, decide_true, Bool.true_and,
            Bool.false_or] at spared
          rw [spared]
          rfl
        simp only [runHandler, if_neg uncancelled, bind, bind_ok, pure, Except.pure, Prod.exists] at ok
        obtain ⟨x, switch, handled, ok⟩ := ok
        split at handled
        · cases handled
          cases ok
          exact (sigmask_joinKept _ k).trans (suspendThread_joinKept _ _)
        · cases handled
          exact (sigmask_joinKept _ k).trans (ih later ok)
      · exact (sigmask_joinKept _ k).trans (ih later ok)

theorem Work.run_join [Fintype T] {v : Work T} {env : Env} {pr : Progress} {t : T}
    (alive : k.live t = true) (legal : v.Legal k = true) (ran : v.run env k = .ok (w, pr)) :
    (JoinKept t k w ∧ v ≠ .call .exit) ∨ (Exited k w ∧ v = .call .exit ∧ pr = .sched .done) := by
  by_cases exits : v = .call .exit
  · subst exits
    obtain ⟨exited, rfl⟩ := ran_exit ran
    exact Or.inr ⟨pthreadExitSys_exited exited, rfl, rfl⟩
  refine Or.inl ⟨?_, exits⟩
  cases v with
  | irq => exact doIrq_joinKept ran
  | call c =>
    cases c with
    | mutexLock m =>
      obtain ⟨rfl, rfl⟩ := ran_pair ran
      rw [pthreadMutexLockSys_kernel]
      exact mutexLockLoop_joinKept m k
    | mutexTrylock m =>
      obtain ⟨rfl, rfl⟩ := ran_pair ran
      exact pthreadMutexTrylockSys_joinKept m k
    | mutexUnlock m =>
      obtain ⟨rfl, rfl⟩ := ran_pair ran
      rw [pthreadMutexUnlockSys_kernel]
      exact mutexUnlock_joinKept m k
    | condSignal c =>
      obtain ⟨rfl, rfl⟩ := ran_pair ran
      exact pthreadCondSignalSys_joinKept c k
    | condBroadcast c =>
      obtain ⟨rfl, rfl⟩ := ran_pair ran
      exact drain_joinKept (condWaiters c) k
    | condWait c m =>
      obtain ⟨rfl, rfl⟩ := ran_pair ran
      exact pthreadCondWaitSys_joinKept c m k
    | semWait s =>
      obtain ⟨rfl, rfl⟩ := ran_pair ran
      exact semWaitSys_joinKept s k
    | semTrywait s =>
      obtain ⟨rfl, rfl⟩ := ran_pair ran
      exact semTrywaitSys_joinKept s k
    | semPost s =>
      obtain ⟨rfl, rfl⟩ := ran_pair ran
      exact semPostSys_joinKept s k
    | kill u sig =>
      obtain ⟨rfl, rfl⟩ := ran_pair ran
      exact (pthreadKillSys_woken u sig k).joinKept
    | cancel u =>
      obtain ⟨rfl, rfl⟩ := ran_pair ran
      exact (pthreadCancelSys_woken u k).joinKept
    | create addr stack attr =>
      obtain ⟨rfl, rfl⟩ := ran_pair ran
      cases addr with
      | none =>
        unfold pthreadCreateSys
        split
        · exact setErrno_joinKept _ k
        · exact setErrno_joinKept _ k
      | some a =>
        have dead : k.live a = false := by simpa [Work.Legal, Call.Legal] using legal
        apply pthreadCreateSys_joinKept
        rintro rfl
        rw [alive] at dead
        cases dead
    | setschedparam u policy param =>
      obtain ⟨rfl, rfl⟩ := ran_pair ran
      exact pthreadSetschedparamSys_joinKept u policy param k
    | yield =>
      obtain ⟨rfl, rfl⟩ := ran_pair ran
      exact .of_flags rfl rfl rfl
    | exit => exact absurd rfl exits
    | timerCreate clockid evp =>
      obtain ⟨v, created, rfl⟩ := ran_timerCreate ran
      exact (timerCreateSys_book created).joinKept
    | timerDelete id =>
      obtain ⟨v, deleted, rfl⟩ := ran_timerDelete ran
      exact (timerDeleteSys_book deleted).joinKept
    | timerSettime id flags value =>
      obtain ⟨v, o, set, rfl⟩ := ran_timerSettime ran
      exact (timerSettimeSys_woken set).1.joinKept
    | usleep usec =>
      obtain ⟨slept, rfl⟩ := ran_usleep ran
      exact sleepFor_joinKept slept

theorem Point.run_join [Fintype T] {p : Point} {env : Env} {outcome : Outcome} {t : T}
    (ran : p.run env k = .ok (w, outcome)) :
    JoinKept t k w ∨ (Exited k w ∧ p.cancels k = true ∧ ∃ q, outcome = .sched q) := by
  cases p with
  | done =>
    cases ran
    exact Or.inl (.of_flags rfl rfl rfl)
  | lockLoop m =>
    cases ran
    rw [pthreadMutexLockSys_kernel]
    exact Or.inl (mutexLockLoop_joinKept m k)
  | condUnlocked c m =>
    cases ran
    exact Or.inl (blockOn_joinKept (condWaiters c) k)
  | condWoken m =>
    cases ran
    rw [condRelock_kernel]
    exact Or.inl (mutexLockLoop_joinKept m k)
  | condLock m =>
    cases ran
    rw [condRelock_kernel]
    exact Or.inl (mutexLockLoop_joinKept m k)
  | semWait s =>
    cases ran
    exact Or.inl (.of_flags rfl rfl rfl)
  | semPost s =>
    cases ran
    exact Or.inl (semGive_joinKept s k)
  | slept d =>
    obtain ⟨pr, finished, rfl⟩ := ran_slept ran
    exact Or.inl (usleepDone_book finished).1.joinKept
  | leave rounds =>
    cases rounds with
    | zero =>
      cases ran
      exact Or.inl (.of_flags rfl rfl rfl)
    | succ rounds =>
      obtain ⟨q, signals, rfl⟩ := ran_leave ran
      by_cases cancels : (Point.leave (rounds + 1)).cancels k = true
      · exact (doSignals_delivered signals).join.imp (fun kept => kept t)
          fun ended => ⟨ended.1, cancels, ended.2⟩
      · have taken : JoinKept t k (takeSignals k).1 := .of_flags rfl rfl rfl
        exact Or.inl (taken.trans (signalLoop_spared 32 (Bool.eq_false_iff.mpr cancels) signals))
  | signals mask signal pend rounds =>
    obtain ⟨q, signals, rfl⟩ := ran_signals ran
    by_cases cancels : (Point.signals mask signal pend rounds).cancels k = true
    · exact (signalLoop_delivered _ signals).join.imp (fun kept => kept t)
        fun ended => ⟨ended.1, cancels, ended.2⟩
    · exact Or.inl (signalLoop_spared _ (Bool.eq_false_iff.mpr cancels) signals)

end

section
variable {t u : T}

theorem setJoining_joinKept (joiner : Option T) (other : t ≠ u) (k : Kernel T) :
    JoinKept t k (setJoining u joiner k) :=
  ⟨by simp [setJoining, other], rfl, rfl, fun ended => ended⟩

theorem setFlags_joinKept (flags : Word) (other : t ≠ u) (k : Kernel T) :
    JoinKept t k (setFlags u flags k) :=
  ⟨rfl, rfl, by simp [setFlags, other], fun ended => by simpa [Kernel.state, setFlags, other] using ended⟩

theorem setFlags_state {flags : Word} {k : Kernel T}
    (same : getThreadState flags = getThreadState (k.threadFlags u)) (w : T) :
    (setFlags u flags k).state w = k.state w := by
  by_cases self : w = u
  · subst self
    simp [Kernel.state, setFlags, same]
  · simp [Kernel.state, setFlags, self]

end

section
variable {s : ThreadSystem T} {t : T}

/-- A step of the rest of the system is made by a thread that does not join. What
    it does to `t` is nothing to the joiners of `t`, unless it is the exit of `t`. -/
theorem ThreadSystem.Ok.other_join [Fintype T] (ok : s.Ok) (alive : s.kernel.live t = true)
    {l : Label T} {y : System T} {es : List (Event T)} (taken : s.system.step l = some (y, es)) :
    ∃ k, Sound s.kernel.currentThread s.kernel k ∧ SwitchOnly k y.kernel ∧
      ((JoinKept t s.kernel k ∧ (t = s.kernel.currentThread → ∀ env, l ≠ .enter (.call .exit) env)) ∨
        (t = s.kernel.currentThread ∧ Exited s.kernel k ∧ (∃ now, y.kernel = scheduling now k) ∧
          s.system.exiting l = true ∧ ∃ env, l = .enter (.call .exit) env ∨ l = .resume env)) := by
  rcases step_cases taken with ⟨w, env, k, pr, rfl, _, legal, ran, rfl, _⟩ |
    ⟨w, p, env, k, outcome, rfl, here, ran, rfl, _⟩
  · have move := (Work.run_ok ok.system.kernel ok.system.running legal ran).move
    refine ⟨k, move.sound, settle_switch s.system w env k pr.outcome, ?_⟩
    rcases Work.run_join alive legal ran with ⟨kept, other⟩ | ⟨exited, rfl, rfl⟩
    · refine Or.inl ⟨kept, fun _ env same => ?_⟩
      cases same
      exact other rfl
    · by_cases self : t = s.kernel.currentThread
      · exact Or.inr ⟨self, exited, ⟨env.sched, rfl⟩, by simp [System.exiting], env, Or.inl rfl⟩
      · exact Or.inl ⟨exited.others t self, fun same => absurd same self⟩
  · have move := Point.run_ok ok.system.kernel ok.system.running ran
    refine ⟨k, move.sound, settle_switch s.system w env k outcome, ?_⟩
    rcases Point.run_join (t := t) ran with kept | ⟨exited, cancels, q, rfl⟩
    · exact Or.inl ⟨kept, fun _ _ => nofun⟩
    · by_cases self : t = s.kernel.currentThread
      · exact Or.inr ⟨self, exited, ⟨env.sched, rfl⟩, by simp [System.exiting, here, cancels], env,
          Or.inr rfl⟩
      · exact Or.inl ⟨exited.others t self, fun same => absurd same self⟩

end

end L4ertl
