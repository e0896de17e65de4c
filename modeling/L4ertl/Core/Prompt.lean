import L4ertl.Core.CallSound
import L4ertl.Core.TimerWakes

/-!
What a call does that comes back to its caller without `scheduling`: it wakes no
thread, or the target of a signal, owners of timers, or the threads linked on a
mutex that is released.
-/
namespace L4ertl
open Intrusive

section
variable {T : Type}

/-- From `k` to `w` no thread becomes READY but threads of `P`, and the
    priorities and the thread that runs stay. -/
structure Steady (P : T → Prop) (k w : Kernel T) : Prop where
  current : w.currentThread = k.currentThread
  prios : ∀ t, k.live t = true → w.prio t = k.prio t
  ready : ∀ t, w.live t = true → w.state t = readyThread →
    k.live t = true ∧ (k.state t = readyThread ∨ P t)

theorem Steady.same {P : T → Prop} {k w : Kernel T} (live : w.live = k.live)
    (flags : w.threadFlags = k.threadFlags) (param : w.schedParam = k.schedParam)
    (current : w.currentThread = k.currentThread) : Steady P k w where
  current := current
  prios t _ := by simp only [Kernel.prio, param]
  ready t alive ready := by
    rw [live] at alive
    simp only [Kernel.state, flags] at ready
    exact ⟨alive, Or.inl ready⟩

theorem Steady.trans {P : T → Prop} {k w x : Kernel T} (first : Steady P k w) (second : Steady P w x)
    (live : w.live = k.live) : Steady P k x where
  current := second.current.trans first.current
  prios t alive := (second.prios t (live ▸ alive)).trans (first.prios t alive)
  ready t alive ready := by
    obtain ⟨aliveW, was | allowed⟩ := second.ready t alive ready
    · exact first.ready t aliveW was
    · exact ⟨live ▸ aliveW, Or.inr allowed⟩

end

variable {T : Type} [DecidableEq T]

theorem Woken.steady {P : T → Prop} {k w : Kernel T} (woken : Woken P k w) : Steady P k w := by
  have only := woken.only
  have live := congrArg Kernel.live only
  have param := congrArg Kernel.schedParam only
  have current := congrArg Kernel.currentThread only
  refine ⟨current, fun t _ => ?_, fun t alive ready => ?_⟩
  · simp only [Kernel.prio]
    rw [param]
  · rw [live] at alive
    rcases woken.state t with same | ⟨allowed, _⟩
    · exact ⟨alive, Or.inl (same ▸ ready)⟩
    · exact ⟨alive, Or.inr allowed⟩

theorem removeHead_linked {n : Links T} {p t : T} {h : Option T}
    (linked : Linked (removeHeadPthreadList n (some p)).1 h t) : Linked n h t := by
  generalize same : (removeHeadPthreadList n (some p)).1 = n' at linked
  have next : ∀ x u, (n' x).next = some u → (n x).next = some u := by
    intro x u here
    rw [← same] at here
    simp only [removeHeadPthreadList, Function.update_apply] at here
    split at here
    · cases here
    · rw [patchPrev_apply] at here
      split at here
      · exact here
      · exact here
  induction linked with
  | here t => exact .here t
  | @next x t later ih =>
    cases first : (n' x).next with
    | none =>
      rw [first] at later
      cases later
    | some u =>
      rw [first] at ih
      rw [← next x u first] at ih
      exact .next ih

theorem unlinkAll_linked (fuel : Nat) {n : Links T} {h : Option T} {t : T}
    (member : t ∈ (unlinkAll fuel n h).2.2) : Linked n h t := by
  induction fuel generalizing n h with
  | zero => cases member
  | succ fuel ih =>
    unfold unlinkAll at member
    cases h with
    | none =>
      simp only [removeHeadPthreadList] at member
      cases member
    | some p =>
      have removed : removeHeadPthreadList n (some p) =
          ((removeHeadPthreadList n (some p)).1, (n p).next, some p) := rfl
      rw [removed] at member
      simp only [List.mem_cons] at member
      rcases member with same | later
      · rw [same]
        exact .here p
      · exact .next (removeHead_linked (ih later))

theorem drain_woken [Fintype T] (l : WaitList T) (k : Kernel T) :
    ∃ y, Woken (Linked (l.nodes k) (l.head k)) k y ∧ ObjOnly y (drain l k) := by
  unfold drain
  rw [l.wakeAll_eq]
  exact ⟨_, (activateAll_woken _ k).mono fun t => unlinkAll_linked _, l.store_only _ _ _⟩

theorem drain_frame [Fintype T] (l : WaitList T) (k : Kernel T) :
    (drain l k).currentThread = k.currentThread ∧ (drain l k).schedParam = k.schedParam ∧
      (drain l k).live = k.live := by
  obtain ⟨y, woken, stored⟩ := drain_woken l k
  have only := woken.only
  have current := congrArg Kernel.currentThread only
  have param := congrArg Kernel.schedParam only
  have live := congrArg Kernel.live only
  have current' := congrArg Kernel.currentThread stored
  have param' := congrArg Kernel.schedParam stored
  have live' := congrArg Kernel.live stored
  exact ⟨current'.trans current, param'.trans param, live'.trans live⟩

theorem drain_steady [Fintype T] {P : T → Prop} (l : WaitList T) {k : Kernel T}
    (allowed : ∀ t, Linked (l.nodes k) (l.head k) t → k.state t ≠ finishedThread → P t) :
    Steady P k (drain l k) := by
  obtain ⟨y, woken, stored⟩ := drain_woken l k
  obtain ⟨current, param, live⟩ := drain_frame l k
  have flags := congrArg Kernel.threadFlags stored
  refine ⟨current, fun t _ => ?_, fun t alive ready => ?_⟩
  · simp only [Kernel.prio]
    rw [param]
  · rw [live] at alive
    simp only [Kernel.state] at ready
    rw [flags] at ready
    rcases woken.state t with same | ⟨linked, active, _⟩
    · exact ⟨alive, Or.inl (same.symm.trans ready)⟩
    · exact ⟨alive, Or.inr (allowed t linked active)⟩

section
variable {P : T → Prop} {k w : Kernel T} {v : Int}

theorem mutexLockLoop_steady {m : Nat} (ran : mutexLockLoop m k = (w, .ret v)) : Steady P k w := by
  simp only [mutexLockLoop, raiseToCeiling] at ran
  split at ran
  · split at ran
    · split at ran
      · cases ran
      · cases ran
        exact .same rfl rfl rfl rfl
    · cases ran
      exact .same rfl rfl rfl rfl
  · split at ran
    · cases ran
      exact .same rfl rfl rfl rfl
    · split at ran
      · cases ran
        exact .same rfl rfl rfl rfl
      · cases ran

theorem pthreadMutexLockSys_steady {m : Nat} (ran : pthreadMutexLockSys m k = (w, .ret v)) :
    Steady P k w := by
  unfold pthreadMutexLockSys at ran
  split at ran
  · rename_i locked
    cases ran
    exact mutexLockLoop_steady locked
  · cases ran
  · cases ran

theorem condRelock_steady {m : Nat} (ran : condRelock m k = (w, .ret v)) : Steady P k w := by
  unfold condRelock at ran
  split at ran
  · rename_i locked
    cases ran
    exact mutexLockLoop_steady locked
  · cases ran
  · cases ran

theorem pthreadMutexTrylockSys_steady {m : Nat} (ran : pthreadMutexTrylockSys m k = (w, .ret v)) :
    Steady P k w := by
  simp only [pthreadMutexTrylockSys, raiseToCeiling] at ran
  split at ran
  · split at ran
    · rename_i got
      cases ran
      split at got
      · split at got
        · cases got
        · cases got
          exact .same rfl rfl rfl rfl
      · cases got
        exact .same rfl rfl rfl rfl
    · cases ran
  · split at ran
    · cases ran
      exact .same rfl rfl rfl rfl
    · cases ran
      exact .same rfl rfl rfl rfl

omit [DecidableEq T] in
theorem semTake_steady {s : Nat} (ran : semTake s k = (w, .ret v)) : Steady P k w := by
  cases ran
  exact .same rfl rfl rfl rfl

theorem semGive_steady {s : Nat} (ran : semGive s k = (w, .ret v)) : Steady P k w := by
  unfold semGive at ran
  split at ran
  · cases ran
    exact .same rfl rfl rfl rfl
  · cases ran
    exact .same rfl rfl rfl rfl

theorem semPostSys_steady {s : Nat} (ran : semPostSys s k = (w, .ret v)) : Steady P k w := by
  unfold semPostSys at ran
  split at ran
  · split at ran
    · cases ran
    · rename_i x removed
      have stored : x = ((semWaiters s).removeHead k).1 := by rw [removed]
      have first : Steady P k x := by
        rw [stored]
        exact .same rfl rfl rfl rfl
      refine first.trans (semGive_steady ran) ?_
      rw [stored]
      rfl
  · exact semGive_steady ran

theorem semWaitSys_steady {s : Nat} (ran : semWaitSys s k = (w, .ret v)) : Steady P k w := by
  unfold semWaitSys at ran
  split at ran
  · cases ran
  · exact semTake_steady ran

theorem semTrywaitSys_steady {s : Nat} (ran : semTrywaitSys s k = (w, .ret v)) : Steady P k w := by
  unfold semTrywaitSys at ran
  split at ran
  · cases ran
    exact .same rfl rfl rfl rfl
  · exact semTake_steady ran

theorem pthreadCreateSys_steady {addr : Option T} {stack : Bool} {attr : Option PthreadAttr}
    (unused : ∀ a, addr = some a → k.live a = false)
    (ran : pthreadCreateSys addr stack attr k = (w, .ret v)) : Steady P k w := by
  unfold pthreadCreateSys at ran
  split at ran
  · cases ran
    exact .same rfl rfl rfl rfl
  · cases addr with
    | none =>
      cases ran
      exact .same rfl rfl rfl rfl
    | some a =>
      have created : createPthreadStruct (some a) k = ((createPthreadStruct (some a) k).1, some a) := rfl
      rw [created] at ran
      simp only at ran
      split at ran
      · cases ran
        have kept : ∀ t, k.live t = true → t ≠ a := by
          intro t alive same
          rw [same, unused a rfl] at alive
          cases alive
        refine ⟨?_, fun t alive => ?_, fun t alive ready => ?_⟩
        · have current := congrArg Kernel.currentThread
            (configureThread_only a attr (createPthreadStruct (some a) k).1)
          exact current
        · have prio := ((configureThread_same a attr (createPthreadStruct (some a) k).1).others t
            (kept t alive)).2
          have old : (createPthreadStruct (some a) k).1.prio t = k.prio t := by
            simp [Kernel.prio, createPthreadStruct, kept t alive]
          exact prio.trans old
        · have state : k.state t = readyThread ∧ t ≠ a := by
            have configured : (createPthreadStruct (some a) k).1.state t = readyThread := by
              rw [← configureThread_state a t attr]
              exact ready
            by_cases same : t = a
            · subst same
              simp [Kernel.state, createPthreadStruct] at configured
            · refine ⟨?_, same⟩
              simpa [Kernel.state, createPthreadStruct, same] using configured
          refine ⟨?_, Or.inl state.1⟩
          have live := congrArg Kernel.live (configureThread_only a attr (createPthreadStruct (some a) k).1)
          simp only [setErrno] at alive
          rw [live] at alive
          simpa [createPthreadStruct, state.2] using alive
      · cases ran

theorem pthreadSetschedparamSys_steady {t : T} {policy : Int} {param : Option SchedParam}
    (ran : pthreadSetschedparamSys t policy param k = (w, .ret v)) : Steady P k w := by
  unfold pthreadSetschedparamSys at ran
  split at ran
  · cases ran
    exact .same rfl rfl rfl rfl
  · cases param with
    | none =>
      cases ran
      refine ⟨rfl, fun _ _ => rfl, fun u alive ready => ⟨alive, Or.inl ?_⟩⟩
      simp only [Kernel.state, setErrno, Function.update_apply] at ready ⊢
      split at ready
      · rename_i same
        rw [same]
        rw [getThreadState_policy] at ready
        exact ready
      · exact ready
    | some p => cases ran

end

structure LastUnlock (k : Kernel T) (m : Nat) : Prop where
  owner : (k.mutex m).owner = some k.currentThread
  last : (k.mutex m).attr.type = .recursive → (k.mutex m).counter - 1 ≤ 0
  level : ¬((k.mutex m).attr.prioProtection = .protect ∧
    (k.mutex m).attr.ownerPrio ≠ k.prio k.currentThread)

theorem releaseMutex_steady [Fintype T] {P : T → Prop} {k w : Kernel T} {v : Int} {m : Nat}
    (allowed : ¬((k.mutex m).attr.prioProtection = .protect ∧
        (k.mutex m).attr.ownerPrio ≠ k.prio k.currentThread) →
      ∀ t, Linked k.mutexNode (k.mutex m).mutexList t → k.state t ≠ finishedThread → P t)
    (ran : releaseMutex m k = (w, .ret v)) : Steady P k w := by
  obtain ⟨current, param, live⟩ := drain_frame (mutexWaiters m) k
  obtain ⟨h, drained⟩ := drain_mutex m k
  have attr : ((drain (mutexWaiters m) k).mutex m).attr = (k.mutex m).attr := by
    rw [drained, Function.update_self]
  simp only [releaseMutex, attr] at ran
  split at ran
  · cases ran
  · rename_i level
    cases ran
    simp only [Kernel.prio, setMutex, param, current] at level
    have steady : Steady P k (drain (mutexWaiters m) k) := drain_steady (mutexWaiters m) (allowed level)
    exact steady.trans (.same rfl rfl rfl rfl) live

theorem pthreadMutexUnlockSys_steady [Fintype T] {P : T → Prop} {k w : Kernel T} {v : Int} {m : Nat}
    (allowed : LastUnlock k m → ∀ t, Linked k.mutexNode (k.mutex m).mutexList t →
      k.state t ≠ finishedThread → P t)
    (ran : pthreadMutexUnlockSys m k = (w, .ret v)) : Steady P k w := by
  unfold pthreadMutexUnlockSys at ran
  split at ran
  · rename_i unlocked
    cases ran
    simp only [mutexUnlock] at unlocked
    split at unlocked
    · split at unlocked
      · cases unlocked
        exact .same rfl rfl rfl rfl
      · cases unlocked
        exact .same rfl rfl rfl rfl
    · split at unlocked
      · cases unlocked
        exact .same rfl rfl rfl rfl
      · rename_i mine
        rw [not_not] at mine
        split at unlocked
        · split at unlocked
          · cases unlocked
            exact .same rfl rfl rfl rfl
          · rename_i again
            have counted : Steady P k (setMutex m { k.mutex m with counter := (k.mutex m).counter - 1 } k) :=
              .same rfl rfl rfl rfl
            refine counted.trans (releaseMutex_steady ?_ unlocked) rfl
            simp only [setMutex, Function.update_self]
            intro level
            exact allowed ⟨mine, fun _ => by omega, level⟩
        · rename_i type
          refine releaseMutex_steady (fun level => ?_) unlocked
          exact allowed ⟨mine, fun same => absurd same type, level⟩
  · cases ran

end L4ertl
