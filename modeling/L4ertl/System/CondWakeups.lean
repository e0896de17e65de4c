import L4ertl.Core.Reap
import L4ertl.System.Dispatch
import L4ertl.System.MutexWaiters

/-!
Wake-ups on a condition variable. pthread_cond_wait_sys gives up the mutex before
it links its caller; where that lowers the caller's priority, it calls `scheduling`
in between, and what another thread signals there is lost. As long as nobody more
urgent is READY at that point the release and the link are one.
-/
namespace L4ertl
open Intrusive

variable {T : Type} [DecidableEq T]

omit [DecidableEq T] in
def Label.Uses (c m : Nat) : Label T → Bool
  | .enter (.call (.mutexLock n)) _ | .enter (.call (.mutexUnlock n)) _ => n = m
  | .enter (.call (.condWait d n)) _ => d = c && n = m
  | .enter (.call (.condSignal d)) _ | .enter (.call (.condBroadcast d)) _ => d = c
  | .resume _ => true
  | _ => false

def Point.uses (c m : Nat) : Point → Bool
  | .done | .leave _ => true
  | .lockLoop n | .condWoken n | .condLock n => n = m
  | .condUnlocked d n => d = c && n = m
  | _ => false

/-- The thread has called pthread_cond_wait_sys as the owner of the mutex, and has not
    been woken since. -/
def CondWaiting (c m : Nat) (s : System T) (t : T) : Prop :=
  (∃ w, s.cont t = some (w, .condUnlocked c m)) ∨
    (∃ w, s.cont t = some (w, .condWoken m)) ∧ s.kernel.state t = suspendedThread

def Kernel.Lowers (k : Kernel T) (m : Nat) : Prop :=
  (k.mutex m).owner = some k.currentThread ∧
    ((k.mutex m).attr.type = .recursive → (k.mutex m).counter ≤ 1) ∧
    (k.mutex m).attr.prioProtection = .protect ∧
    (k.mutex m).attr.ownerPrio ≠ k.prio k.currentThread

instance (k : Kernel T) (m : Nat) : Decidable (k.Lowers m) :=
  inferInstanceAs (Decidable (_ ∧ _ ∧ _ ∧ _))

section
variable [Fintype T]

/-- The nested unlock of pthread_cond_wait_sys leaves its caller in front: no other
    thread that is READY, or waits for the mutex, is more urgent than the caller
    without the ceiling. -/
def Undivided (m : Nat) (s : System T) : Label T → Prop
  | .enter (.call (.condWait _ _)) _ => s.kernel.Lowers m → ∀ u, u ≠ s.kernel.currentThread →
    (s.kernel.live u = true ∧ s.kernel.state u = readyThread) ∨ u ∈ waiters s.kernel m →
    ij2prio (prio2ij (s.kernel.mutex m).attr.ownerPrio) ≤ ij2prio (prio2ij (s.kernel.prio u))
  | _ => True

instance (m : Nat) (s : System T) : (l : Label T) → Decidable (Undivided m s l)
  | .enter (.call (.condWait _ _)) _ => inferInstanceAs (Decidable (_ → ∀ _, _ → _ → _ ≤ _))
  | .enter .irq _ | .resume _ => inferInstanceAs (Decidable True)
  | .enter (.call (.mutexLock _)) _ | .enter (.call (.mutexTrylock _)) _
  | .enter (.call (.mutexUnlock _)) _ | .enter (.call (.condSignal _)) _
  | .enter (.call (.condBroadcast _)) _ | .enter (.call (.semWait _)) _
  | .enter (.call (.semTrywait _)) _ | .enter (.call (.semPost _)) _ | .enter (.call (.kill _ _)) _
  | .enter (.call (.cancel _)) _ | .enter (.call (.create _ _ _)) _
  | .enter (.call (.setschedparam _ _ _)) _ | .enter (.call .yield) _ | .enter (.call .exit) _
  | .enter (.call (.timerCreate _ _)) _ | .enter (.call (.timerDelete _)) _
  | .enter (.call (.timerSettime _ _ _)) _ | .enter (.call (.usleep _)) _ =>
    inferInstanceAs (Decidable True)

omit [DecidableEq T] [Fintype T] in
/-- Between the release of the mutex and the link no other thread runs. -/
def Atomic (c m : Nat) (s : System T) : Prop :=
  ∀ t w, s.cont t = some (w, .condUnlocked c m) → t = s.kernel.currentThread

/-- No wake-up is lost, seen from a state of the run. -/
structure WakeupsKept (c m : Nat) (s : System T) : Prop where
  atomic : Atomic c m s
  -- the owner of the mutex becomes a waiter by its call
  waits : ∀ env x es, s.step (.enter (.call (.condWait c m)) env) = some (x, es) →
    (s.kernel.mutex m).owner = some s.kernel.currentThread →
    CondWaiting c m x s.kernel.currentThread
  -- and is one until it is made READY
  stays : ∀ l x es t, s.step l = some (x, es) → CondWaiting c m s t →
    CondWaiting c m x t ∨ (s.kernel.state t = suspendedThread ∧ x.kernel.state t = readyThread)
  broadcast : ∀ env x es t, s.step (.enter (.call (.condBroadcast c)) env) = some (x, es) →
    CondWaiting c m s t → s.kernel.state t = suspendedThread ∧ x.kernel.state t = readyThread
  signal : ∀ env x es t, s.step (.enter (.call (.condSignal c)) env) = some (x, es) →
    CondWaiting c m s t → (∀ u, CondWaiting c m s u → u = t) →
    s.kernel.state t = suspendedThread ∧ x.kernel.state t = readyThread

end

section
variable {k : Kernel T} {t : T}

theorem mutexLockLoop_state (m : Nat) (k : Kernel T) :
    ((mutexLockLoop m k).2 = .blocked ∧
      ∀ u, (mutexLockLoop m k).1.state u = (suspendThread k.currentThread k).state u) ∨
    ((mutexLockLoop m k).2 ≠ .blocked ∧ ∀ u, (mutexLockLoop m k).1.state u = k.state u) := by
  have raise : ∀ w : Kernel T, (raiseToCeiling m w).2 ≠ .blocked ∧
      (raiseToCeiling m w).1.threadFlags = w.threadFlags := by
    intro w
    simp only [raiseToCeiling]
    split
    · split
      · exact ⟨LockStep.noConfusion, changeThreadPrio_flags _ _ _⟩
      · exact ⟨LockStep.noConfusion, rfl⟩
    · exact ⟨LockStep.noConfusion, rfl⟩
  simp only [mutexLockLoop]
  split
  · obtain ⟨open_, flags⟩ := raise
      (setMutex m { k.mutex m with owner := some k.currentThread, counter := 1 } k)
    exact Or.inr ⟨open_, Kernel.state_of_flags flags⟩
  · split
    · exact Or.inr ⟨LockStep.noConfusion, fun u => rfl⟩
    · split
      · exact Or.inr ⟨LockStep.noConfusion, fun u => rfl⟩
      · exact Or.inl ⟨rfl, fun u => rfl⟩

theorem suspendThread_other (other : t ≠ k.currentThread) :
    (suspendThread k.currentThread k).state t = k.state t := by
  rw [suspendThread_state, if_neg]
  exact fun both => other both.1

theorem suspendThread_self (ready : k.state k.currentThread = readyThread) :
    (suspendThread k.currentThread k).state k.currentThread = suspendedThread := by
  have active : k.state k.currentThread ≠ finishedThread := ready ▸ ready_ne_finished
  rw [suspendThread_state, if_pos ⟨rfl, active⟩]

theorem changeThreadPrio_front (ready : k.state t = readyThread) (p : Int) :
    (changeThreadPrio t p k).activeThreads.threadMatrix (prio2ij p) = some t := by
  simp only [changeThreadPrio, ready, if_true]
  simp [insertSs, placeSs, markSs, Kernel.prio]

theorem scheduling_stays_iff (ok : KernelOk k)
    (front : k.activeThreads.threadMatrix (prio2ij (k.prio k.currentThread)) = some k.currentThread)
    (now : Duration) :
    (scheduling now k).currentThread = k.currentThread ↔
      ∀ u, u ≠ k.currentThread → k.live u = true → k.state u = readyThread →
        ij2prio (prio2ij (k.prio k.currentThread)) ≤ ij2prio (prio2ij (k.prio u)) := by
  obtain ⟨r, inv⟩ := ok.ready
  have first : (r.lists (prio2ij (k.prio k.currentThread))).head? = some k.currentThread := by
    rw [← segment_head (inv.rep.chain _)]
    exact front
  have busy := List.ne_nil_of_mem (List.mem_of_mem_head? first)
  obtain ⟨⟨c, head, urgent⟩, _⟩ := scheduling_head inv ok.irq busy now
  obtain ⟨alive, ready, cell⟩ := (inv.listed _ _).mp (List.mem_of_mem_head? head)
  constructor
  · intro same u _ aliveU readyU
    rw [same] at cell
    rw [← cell]
    apply urgent
    exact List.ne_nil_of_mem ((inv.listed u _).mpr ⟨aliveU, readyU, rfl⟩)
  · intro least
    by_contra other
    have below := least _ other alive ready
    rw [← cell] at below
    have same := ij2prio_injective (le_antisymm (urgent _ busy) below)
    rw [same, first] at head
    exact other (Option.some.inj head).symm

section
variable [Fintype T]

theorem mutexUnlock_state (m : Nat) (k : Kernel T) (t : T) :
    (mutexUnlock m k).1.state t = k.state t ∨
      ((mutexUnlock m k).1.state t = readyThread ∧ ((mutexUnlock m k).1.mutex m).owner = none ∧
        t ∈ (unlinkAll (Fintype.card T + 1) k.mutexNode (k.mutex m).mutexList).2.2) := by
  have release : ∀ w : Kernel T, w.threadFlags = k.threadFlags → w.mutexNode = k.mutexNode →
      (w.mutex m).mutexList = (k.mutex m).mutexList →
      (releaseMutex m w).1.state t = k.state t ∨
        ((releaseMutex m w).1.state t = readyThread ∧ ((releaseMutex m w).1.mutex m).owner = none ∧
          t ∈ (unlinkAll (Fintype.card T + 1) k.mutexNode (k.mutex m).mutexList).2.2) := by
    intro w flags nodes list
    have states : (releaseMutex m w).1.state t = (drain (mutexWaiters m) w).state t := by
      simp only [releaseMutex]
      split
      · simp only [Kernel.state, changeThreadPrio_flags]
        rfl
      · rfl
    rw [states, drain_state, releaseMutex_mutex, Function.update_self]
    simp only [mutexWaiters, nodes, list, Kernel.state, flags]
    split
    · rename_i woken
      exact Or.inr ⟨rfl, by simp, woken.1⟩
    · exact Or.inl rfl
  simp only [mutexUnlock]
  split
  · split
    · exact Or.inl rfl
    · exact Or.inl rfl
  · split
    · exact Or.inl rfl
    · split
      · split
        · exact Or.inl rfl
        · exact release _ rfl rfl (by simp [setMutex])
      · exact release k rfl rfl rfl

theorem releaseMutex_lowered {m : Nat} (ready : k.state k.currentThread = readyThread)
    (lowered : (releaseMutex m k).2 = .lowered) :
    (k.mutex m).attr.prioProtection = .protect ∧
      (k.mutex m).attr.ownerPrio ≠ k.prio k.currentThread ∧
      (releaseMutex m k).1.activeThreads.threadMatrix (prio2ij (k.mutex m).attr.ownerPrio) =
        some k.currentThread ∧
      ∀ u, (releaseMutex m k).1.prio u =
        if u = k.currentThread then (k.mutex m).attr.ownerPrio else k.prio u := by
  obtain ⟨h, mutexes⟩ := drain_mutex m k
  obtain ⟨current, param, _⟩ := drain_frame (mutexWaiters m) k
  have attr : ((drain (mutexWaiters m) k).mutex m).attr = (k.mutex m).attr := by
    rw [mutexes, Function.update_self]
  have prios : ∀ u, (drain (mutexWaiters m) k).prio u = k.prio u := by
    intro u
    simp only [Kernel.prio, param]
  have awake : (drain (mutexWaiters m) k).state k.currentThread = readyThread := drain_ready ready
  simp only [releaseMutex] at lowered ⊢
  split at lowered
  · rename_i low
    rw [if_pos low]
    rw [attr, current] at low ⊢
    refine ⟨low.1, fun same => low.2 (same.trans (prios _).symm), ?_, fun u => ?_⟩
    · refine changeThreadPrio_front ?_ _
      exact awake
    · rw [changeThreadPrio_prio]
      split
      · rfl
      · exact prios u
  · cases lowered

theorem mutexUnlock_lowered {m : Nat} (ready : k.state k.currentThread = readyThread)
    (lowered : (mutexUnlock m k).2 = .lowered) :
    k.Lowers m ∧ ((mutexUnlock m k).1.mutex m).owner = none ∧
      (mutexUnlock m k).1.activeThreads.threadMatrix (prio2ij (k.mutex m).attr.ownerPrio) =
        some k.currentThread ∧
      ∀ u, (mutexUnlock m k).1.prio u =
        if u = k.currentThread then (k.mutex m).attr.ownerPrio else k.prio u := by
  simp only [mutexUnlock] at lowered ⊢
  split at lowered
  · split at lowered
    · cases lowered
    · cases lowered
  · rename_i owned
    rw [if_neg owned]
    split at lowered
    · cases lowered
    · rename_i mine
      rw [if_neg mine]
      rw [not_not] at mine
      split at lowered
      · rename_i recursive
        rw [if_pos recursive]
        split at lowered
        · cases lowered
        · rename_i last
          rw [if_neg last]
          have attr : ((setMutex m { k.mutex m with counter := (k.mutex m).counter - 1 } k).mutex m).attr =
              (k.mutex m).attr := by simp [setMutex]
          obtain ⟨guarded, other, front, prios⟩ := releaseMutex_lowered
            (k := setMutex m { k.mutex m with counter := (k.mutex m).counter - 1 } k) ready lowered
          rw [attr] at guarded other front prios
          refine ⟨⟨mine, fun _ => by omega, guarded, other⟩, ?_, front, prios⟩
          rw [releaseMutex_mutex, Function.update_self]
      · rename_i plain
        rw [if_neg plain]
        obtain ⟨guarded, other, front, prios⟩ := releaseMutex_lowered ready lowered
        refine ⟨⟨mine, fun recursive => absurd recursive plain, guarded, other⟩, ?_, front, prios⟩
        rw [releaseMutex_mutex, Function.update_self]

theorem releaseMutex_lowers {m : Nat} (guarded : (k.mutex m).attr.prioProtection = .protect)
    (other : (k.mutex m).attr.ownerPrio ≠ k.prio k.currentThread) :
    (releaseMutex m k).2 = .lowered := by
  obtain ⟨h, mutexes⟩ := drain_mutex m k
  obtain ⟨current, param, _⟩ := drain_frame (mutexWaiters m) k
  have attr : ((drain (mutexWaiters m) k).mutex m).attr = (k.mutex m).attr := by
    rw [mutexes, Function.update_self]
  simp only [releaseMutex]
  rw [if_pos]
  rw [attr, current]
  refine ⟨guarded, fun same => other (same.trans ?_)⟩
  simp only [Kernel.prio, setMutex, param]

theorem Kernel.Lowers.lowered {m : Nat} (lowers : k.Lowers m) : (mutexUnlock m k).2 = .lowered := by
  obtain ⟨mine, last, guarded, other⟩ := lowers
  have owned : (k.mutex m).owner ≠ none := by simp [mine]
  simp only [mutexUnlock]
  rw [if_neg owned, if_neg (not_not.mpr mine)]
  split
  · rename_i recursive
    have ends : ¬0 < (k.mutex m).counter - 1 := by
      have bound := last recursive
      omega
    rw [if_neg ends]
    apply releaseMutex_lowers
    · simpa [setMutex] using guarded
    · simpa [setMutex, Kernel.prio] using other
  · exact releaseMutex_lowers guarded other

theorem mutexUnlock_stays_iff {m : Nat} (ok : KernelOk k)
    (ready : k.state k.currentThread = readyThread) (lowered : (mutexUnlock m k).2 = .lowered)
    (now : Duration) :
    (scheduling now (mutexUnlock m k).1).currentThread = k.currentThread ↔
      ∀ u, u ≠ k.currentThread → k.live u = true → (mutexUnlock m k).1.state u = readyThread →
        ij2prio (prio2ij (k.mutex m).attr.ownerPrio) ≤ ij2prio (prio2ij (k.prio u)) := by
  obtain ⟨_, _, front, prios⟩ := mutexUnlock_lowered ready lowered
  have only := mutexUnlock_only m k
  have current := only.others.2.2.2.2
  have live : (mutexUnlock m k).1.live = k.live := by
    have same := congrArg Kernel.live only
    exact same
  have mine : (mutexUnlock m k).1.prio (mutexUnlock m k).1.currentThread =
      (k.mutex m).attr.ownerPrio := by rw [prios, current, if_pos rfl]
  have goes := scheduling_stays_iff (mutexUnlock_sound ok m).1.ok (by rw [mine, current]; exact front) now
  rw [mine, current, live] at goes
  rw [goes]
  constructor
  · intro least u other alive awake
    have below := least u other alive awake
    rw [prios, if_neg other] at below
    exact below
  · intro least u other alive awake
    rw [prios, if_neg other]
    exact least u other alive awake

end
end

structure CondList (c : Nat) (k : Kernel T) (xs : List T) : Prop where
  chain : Chain k.condNode (k.cond c) xs
  nodup : xs.Nodup
  free : ∀ t, t ∉ xs → k.condNode t = detached

section
variable {c : Nat} {k w : Kernel T} {xs : List T}

omit [DecidableEq T] in
theorem CondList.same (list : CondList c k xs) (nodes : w.condNode = k.condNode)
    (heads : w.cond = k.cond) : CondList c w xs := by
  refine ⟨?_, list.nodup, ?_⟩
  · rw [nodes, heads]
    exact list.chain
  · rw [nodes]
    exact list.free

theorem CondList.block (list : CondList c k xs) (outside : k.currentThread ∉ xs) :
    CondList c (blockOn (condWaiters c) k) (k.currentThread :: xs) := by
  have only := suspendThread_only k.currentThread k
  have nodes : (suspendThread k.currentThread k).condNode = k.condNode := by
    have same := congrArg Kernel.condNode only
    exact same
  have heads : (suspendThread k.currentThread k).cond = k.cond := by
    have same := congrArg Kernel.cond only
    exact same
  have still : Function.update k.condNode k.currentThread detached = k.condNode := by
    rw [← list.free _ outside, Function.update_eq_self]
  have linked := insertPthreadList_chain list.chain list.nodup outside
  rw [still] at linked
  have stored : (blockOn (condWaiters c) k).condNode =
        (insertPthreadList k.condNode (k.cond c) k.currentThread).1 ∧
      (blockOn (condWaiters c) k).cond c =
        (insertPthreadList k.condNode (k.cond c) k.currentThread).2 := by
    simp only [blockOn, WaitList.insert, condWaiters, nodes, heads, Function.update_self, and_self]
  refine ⟨?_, List.nodup_cons.mpr ⟨outside, list.nodup⟩, fun t out => ?_⟩
  · rw [stored.1, stored.2]
    exact linked
  · rw [List.mem_cons, not_or] at out
    have notHead : k.cond c ≠ some t := by
      intro head
      rw [segment_head list.chain] at head
      exact out.2 (List.mem_of_mem_head? head)
    rw [stored.1, insertPthreadList_apply, if_neg out.1, patchPrev_apply, if_neg notHead]
    exact list.free t out.2

theorem CondList.broadcast [Fintype T] (list : CondList c k xs) :
    CondList c (drain (condWaiters c) k) [] ∧
      ∀ t, (drain (condWaiters c) k).state t =
        if t ∈ xs ∧ k.state t ≠ finishedThread then readyThread else k.state t := by
  have enough : xs.length < Fintype.card T + 1 := Nat.lt_succ_of_le list.nodup.length_le_card
  obtain ⟨empty, taken, gone, rest⟩ := unlinkAll_chain _ list.chain list.nodup enough
  constructor
  · refine ⟨drain_head (condWaiters c) k, List.nodup_nil, fun t _ => ?_⟩
    have nodes : (drain (condWaiters c) k).condNode =
        (unlinkAll (Fintype.card T + 1) k.condNode (k.cond c)).1 := by
      unfold drain
      rw [(condWaiters c).wakeAll_eq]
      rfl
    rw [nodes]
    by_cases member : t ∈ xs
    · exact gone t member
    · rw [rest t member]
      exact list.free t member
  · intro t
    rw [drain_state]
    simp only [condWaiters, taken]

theorem CondList.signal {x : T} (list : CondList c k (x :: xs)) :
    CondList c (pthreadCondSignalSys c k).1 xs ∧
      ∀ t, (pthreadCondSignalSys c k).1.state t =
        if t = x ∧ k.state x ≠ finishedThread then readyThread else k.state t := by
  obtain ⟨n, rest, removed, chain, gone, others⟩ := removeHead_chain list.chain list.nodup
  have parts := List.nodup_cons.mp list.nodup
  have stored : (condWaiters c).removeHead k =
      ({ k with condNode := n, cond := Function.update k.cond c rest }, some x) := by
    simp only [WaitList.removeHead, condWaiters, removed]
  have only := (activateThread_condNode x { k with condNode := n, cond := Function.update k.cond c rest })
  unfold pthreadCondSignalSys
  rw [stored]
  refine ⟨⟨?_, parts.2, fun t out => ?_⟩, fun t => ?_⟩
  · rw [only.1, only.2]
    simp only [Function.update_self]
    exact chain
  · rw [only.1]
    by_cases self : t = x
    · rw [self]
      exact gone
    · have outside : t ∉ x :: xs := by simp [self, out]
      exact (others t outside).trans (list.free t outside)
  · exact activateThread_state x t _

theorem CondList.signal_nobody (list : CondList c k []) :
    CondList c (pthreadCondSignalSys c k).1 [] ∧
      ∀ t, (pthreadCondSignalSys c k).1.state t = k.state t := by
  have head : k.cond c = none := list.chain
  have stored : (condWaiters c).removeHead k =
      ({ k with condNode := k.condNode, cond := Function.update k.cond c none }, none) := by
    simp only [WaitList.removeHead, condWaiters, head, removeHeadPthreadList]
    rfl
  unfold pthreadCondSignalSys
  rw [stored]
  refine ⟨⟨?_, List.nodup_nil, list.free⟩, fun t => rfl⟩
  simp only [Function.update_self]
  rfl

end

structure CondInv [Fintype T] (c m : Nat) (s : System T) (L : Nat → List T) (xs : List T) : Prop where
  locks : WaitersInv s L
  asleep : ∀ n t, t ∈ L n → s.kernel.state t = suspendedThread
  list : CondList c s.kernel xs
  waiting : ∀ t ∈ xs, (∃ w, s.cont t = some (w, .condWoken m)) ∧ s.kernel.state t = suspendedThread
  linked : ∀ t w, s.cont t = some (w, .condWoken m) → s.kernel.state t = suspendedThread → t ∈ xs
  points : ∀ t w p, s.cont t = some (w, p) → p.uses c m = true
  signals : ∀ t, s.kernel.sigpending t = 0#32

/-- What the move of the current thread does to the condition variable and to the
    states of the threads; `ys` is the list it leaves. -/
structure CondMove (c m : Nat) (s : System T) (L : Nat → List T) (xs : List T) (k : Kernel T)
    (onward : Option Point) (ys : List T) : Prop where
  list : CondList c k ys
  members : ∀ t ∈ ys, k.state t = suspendedThread ∧
    (t ∈ xs ∨ (t = s.kernel.currentThread ∧ onward = some (.condWoken m)))
  kept : ∀ t ∈ xs, k.state t = suspendedThread → t ∈ ys
  self : onward = some (.condWoken m) → s.kernel.currentThread ∈ ys
  states : ∀ t, t ≠ s.kernel.currentThread → k.state t = s.kernel.state t ∨
    (k.state t = readyThread ∧ (t ∈ xs ∨ ((k.mutex m).owner = none ∧ t ∈ L m)))
  blocked : ∀ n, onward.bind Point.lockOf = some n →
    k.state s.kernel.currentThread = suspendedThread
  points : ∀ p, onward = some p → p.uses c m = true
  signals : k.sigpending = s.kernel.sigpending

section
variable {c m : Nat} {s : System T} {L : Nat → List T} {xs ys : List T} {k : Kernel T}

theorem settle_cont_other {t : T} (other : t ≠ s.kernel.currentThread) (w : Work T) (env : Env)
    (k : Kernel T) (outcome : Outcome) : (s.settle w env k outcome).1.cont t = s.cont t := by
  cases outcome <;> simp [System.settle, other]

theorem settle_cont_self {p : Point} {outcome : Outcome} (onward : outcome.onward = some p) (w : Work T)
    (env : Env) (k : Kernel T) :
    (s.settle w env k outcome).1.cont s.kernel.currentThread = some (w, p) := by
  cases outcome with
  | ret v => cases onward
  | sched q =>
    cases onward
    simp [System.settle]
  | next q =>
    cases onward
    simp [System.settle]

theorem settle_cond (s : System T) (w : Work T) (env : Env) (k : Kernel T) (outcome : Outcome) :
    (s.settle w env k outcome).1.kernel.condNode = k.condNode ∧
      (s.settle w env k outcome).1.kernel.cond = k.cond ∧
      (s.settle w env k outcome).1.kernel.sigpending = k.sigpending := by
  cases outcome with
  | ret v => exact ⟨rfl, rfl, rfl⟩
  | next p => exact ⟨rfl, rfl, rfl⟩
  | sched p =>
    have only := scheduling_only env.sched k
    have nodes := congrArg Kernel.condNode only
    have heads := congrArg Kernel.cond only
    have signals := congrArg Kernel.sigpending only
    exact ⟨nodes, heads, signals⟩

section
variable [Fintype T]

omit [DecidableEq T] in
theorem CondInv.apart (inv : CondInv c m s L xs) {t : T} (member : t ∈ xs) (n : Nat) : t ∉ L n := by
  intro also
  obtain ⟨⟨w, here⟩, _⟩ := inv.waiting t member
  obtain ⟨v, p, there, locks⟩ := inv.locks.waiting n t also
  rw [here] at there
  cases there
  cases locks

omit [DecidableEq T] in
theorem CondInv.current (inv : CondInv c m s L xs) (ok : SystemOk s) :
    s.kernel.currentThread ∉ xs ∧ ∀ n, s.kernel.currentThread ∉ L n := by
  constructor
  · intro member
    have asleep := (inv.waiting _ member).2
    rw [ok.running] at asleep
    exact absurd asleep.symm suspended_ne_ready
  · intro n member
    have asleep := inv.asleep n _ member
    rw [ok.running] at asleep
    exact absurd asleep.symm suspended_ne_ready

theorem CondInv.settle (inv : CondInv c m s L xs) (ok : SystemOk s) (w : Work T) (env : Env)
    {outcome : Outcome} (sound : Sound s.kernel.currentThread s.kernel k)
    (lists : ListMove s.kernel k (outcome.onward.bind Point.lockOf))
    (move : CondMove c m s L xs k outcome.onward ys) :
    ∃ L', CondInv c m (s.settle w env k outcome).1 L' ys := by
  obtain ⟨L', next, old⟩ := waitersInv_settle w env inv.locks ok sound (inv.current ok).2 lists
  obtain ⟨_, mutexes, states⟩ := settle_view s w env k outcome
  obtain ⟨nodes, heads, signals⟩ := settle_cond s w env k outcome
  refine ⟨L', next, fun n t member => ?_, move.list.same nodes heads, fun t member => ?_,
    fun t v here asleep => ?_, fun t v p here => ?_, fun t => ?_⟩
  · rw [states]
    have inside := next.waiting n t member
    rw [settle_inLock] at inside
    split at inside
    · rename_i self
      rw [self]
      exact move.blocked n inside
    · rename_i other
      have before := (old n t member).resolve_right other
      rcases move.states t other with same | ⟨_, linked | ⟨free, waited⟩⟩
      · rw [same]
        exact inv.asleep n t before
      · exact absurd before (inv.apart linked n)
      · -- a mutex that has been freed has no list
        have here := inv.locks.apart n m t before waited
        subst here
        have owned := next.owned n (List.ne_nil_of_mem member)
        rw [mutexes] at owned
        exact absurd free owned
  · obtain ⟨asleep, linked | ⟨self, onward⟩⟩ := move.members t member
    · have other : t ≠ s.kernel.currentThread := fun same => (inv.current ok).1 (same ▸ linked)
      rw [settle_cont_other other, states]
      exact ⟨(inv.waiting t linked).1, asleep⟩
    · subst self
      rw [settle_cont_self onward, states]
      exact ⟨⟨w, rfl⟩, asleep⟩
  · rw [states] at asleep
    rcases settle_cont here with ⟨other, before⟩ | ⟨self, _, onward | ⟨r, _, last⟩⟩
    · rcases move.states t other with same | ⟨ready, _⟩
      · exact move.kept t (inv.linked t v before (same.symm.trans asleep)) asleep
      · rw [asleep] at ready
        exact absurd ready suspended_ne_ready
    · rw [self]
      exact move.self onward
    · cases last
  · rcases settle_cont here with ⟨other, before⟩ | ⟨self, _, onward | ⟨r, _, rfl⟩⟩
    · exact inv.points t v p before
    · exact move.points p onward
    · rfl
  · rw [signals, move.signals]
    exact inv.signals t

end
end

section
variable [Fintype T] {c m : Nat} {s : System T} {L : Nat → List T} {xs : List T} {k : Kernel T}
  {onward : Option Point}

omit [DecidableEq T] in
theorem CondInv.other (inv : CondInv c m s L xs) (ok : SystemOk s) {t : T} (member : t ∈ xs) :
    t ≠ s.kernel.currentThread := fun same => (inv.current ok).1 (same ▸ member)

omit [DecidableEq T] in
theorem CondMove.quiet (inv : CondInv c m s L xs) (nodes : k.condNode = s.kernel.condNode)
    (heads : k.cond = s.kernel.cond) (states : ∀ t, k.state t = s.kernel.state t)
    (signals : k.sigpending = s.kernel.sigpending)
    (onward_ : onward = none ∨ onward = some .done ∨ ∃ rounds, onward = some (.leave rounds)) :
    CondMove c m s L xs k onward xs := by
  refine ⟨inv.list.same nodes heads, fun t member => ?_, fun t member _ => member, fun same => ?_,
    fun t _ => Or.inl (states t), fun n locks => ?_, fun p same => ?_, signals⟩
  · rw [states]
    exact ⟨(inv.waiting t member).2, Or.inl member⟩
  · rcases onward_ with here | here | ⟨rounds, here⟩ <;> rw [here] at same <;> cases same
  · rcases onward_ with here | here | ⟨rounds, here⟩ <;> rw [here] at locks <;> cases locks
  · rcases onward_ with here | here | ⟨rounds, here⟩ <;> rw [here] at same <;> cases same <;> rfl

theorem CondMove.lock {o : Option Point} (inv : CondInv c m s L xs) (ok : SystemOk s)
    (goes : ((mutexLockLoop m s.kernel).2 = .blocked ∧
        (o = some (.lockLoop m) ∨ o = some (.condLock m))) ∨
      ((mutexLockLoop m s.kernel).2 ≠ .blocked ∧ (o = none ∨ o = some .done))) :
    CondMove c m s L xs (mutexLockLoop m s.kernel).1 o xs := by
  have only := mutexLockLoop_only m s.kernel
  have signals : (mutexLockLoop m s.kernel).1.sigpending = s.kernel.sigpending := by
    have same := congrArg Kernel.sigpending only
    exact same
  obtain ⟨heads, nodes, _⟩ := only.others
  rcases mutexLockLoop_state m s.kernel with ⟨blocked, states⟩ | ⟨open_, states⟩
  · have here := (goes.resolve_right fun other => other.1 blocked).2
    have others : ∀ t, t ≠ s.kernel.currentThread →
        (mutexLockLoop m s.kernel).1.state t = s.kernel.state t :=
      fun t other => (states t).trans (suspendThread_other other)
    refine ⟨inv.list.same nodes heads, fun t member => ?_, fun t member _ => member, fun same => ?_,
      fun t other => Or.inl (others t other), fun n _ => ?_, fun p same => ?_, signals⟩
    · rw [others t (inv.other ok member)]
      exact ⟨(inv.waiting t member).2, Or.inl member⟩
    · rcases here with here | here <;> rw [here] at same <;> cases same
    · rw [states]
      exact suspendThread_self ok.running
    · rcases here with here | here <;> rw [here] at same <;> cases same <;> simp [Point.uses]
  · have here := (goes.resolve_left fun other => open_ other.1).2
    exact .quiet inv nodes heads states signals (here.imp_right Or.inl)

theorem CondInv.unlock (inv : CondInv c m s L xs) :
    CondList c (mutexUnlock m s.kernel).1 xs ∧
      (∀ t ∈ xs, (mutexUnlock m s.kernel).1.state t = suspendedThread) ∧
      (∀ t, (mutexUnlock m s.kernel).1.state t = s.kernel.state t ∨
        ((mutexUnlock m s.kernel).1.state t = readyThread ∧
          ((mutexUnlock m s.kernel).1.mutex m).owner = none ∧ t ∈ L m)) ∧
      (mutexUnlock m s.kernel).1.sigpending = s.kernel.sigpending := by
  have only := mutexUnlock_only m s.kernel
  have signals : (mutexUnlock m s.kernel).1.sigpending = s.kernel.sigpending := by
    have same := congrArg Kernel.sigpending only
    exact same
  obtain ⟨heads, nodes, _⟩ := only.others
  have enough : (L m).length < Fintype.card T + 1 :=
    Nat.lt_succ_of_le (inv.locks.nodup m).length_le_card
  obtain ⟨_, taken, _⟩ := unlinkAll_chain _ (inv.locks.chain m) (inv.locks.nodup m) enough
  have states := mutexUnlock_state m s.kernel
  rw [taken] at states
  refine ⟨inv.list.same nodes heads, fun t member => ?_, states, signals⟩
  rcases states t with same | ⟨_, _, waited⟩
  · rw [same]
    exact (inv.waiting t member).2
  · exact absurd waited (inv.apart member m)

theorem CondMove.unlock (inv : CondInv c m s L xs)
    (goes : onward = none ∨ onward = some .done ∨ onward = some (.condUnlocked c m)) :
    CondMove c m s L xs (mutexUnlock m s.kernel).1 onward xs := by
  obtain ⟨list, asleep, states, signals⟩ := inv.unlock
  refine ⟨list, fun t member => ⟨asleep t member, Or.inl member⟩, fun t member _ => member,
    fun same => ?_, fun t _ => ?_, fun n locks => ?_, fun p same => ?_, signals⟩
  · rcases goes with here | here | here <;> rw [here] at same <;> cases same
  · rcases states t with same | ⟨ready, free, waited⟩
    · exact Or.inl same
    · exact Or.inr ⟨ready, Or.inr ⟨free, waited⟩⟩
  · rcases goes with here | here | here <;> rw [here] at locks <;> cases locks
  · rcases goes with here | here | here <;> rw [here] at same <;> cases same <;> simp [Point.uses]

theorem CondMove.wait (inv : CondInv c m s L xs) (ok : SystemOk s) (list : CondList c k xs)
    (current : k.currentThread = s.kernel.currentThread)
    (ready : k.state s.kernel.currentThread = readyThread)
    (asleep : ∀ t ∈ xs, k.state t = suspendedThread)
    (states : ∀ t, k.state t = s.kernel.state t ∨
      (k.state t = readyThread ∧ (k.mutex m).owner = none ∧ t ∈ L m))
    (signals : k.sigpending = s.kernel.sigpending) :
    CondMove c m s L xs (blockOn (condWaiters c) k) (some (.condWoken m))
      (s.kernel.currentThread :: xs) := by
  have only := blockOn_condOnly c k
  have pending : (blockOn (condWaiters c) k).sigpending = k.sigpending := by
    have same := congrArg Kernel.sigpending only
    exact same
  have others : ∀ t, t ≠ s.kernel.currentThread → (blockOn (condWaiters c) k).state t = k.state t :=
    fun t other => blockOn_cond_state (by rw [current]; exact other)
  have linked := list.block (by rw [current]; exact (inv.current ok).1)
  rw [current] at linked
  refine ⟨linked, fun t member => ?_, fun t member _ => List.mem_cons_of_mem _ member,
    fun _ => List.mem_cons_self, fun t other => ?_, nofun, fun p same => ?_, pending.trans signals⟩
  · rcases List.mem_cons.mp member with self | old
    · subst self
      have suspended : (blockOn (condWaiters c) k).state k.currentThread = suspendedThread :=
        suspendThread_self (by rw [current]; exact ready)
      rw [current] at suspended
      exact ⟨suspended, Or.inr ⟨rfl, rfl⟩⟩
    · rw [others t (inv.other ok old)]
      exact ⟨asleep t old, Or.inl old⟩
  · rw [others t other, only.others.1]
    rcases states t with same | ⟨awake, free, waited⟩
    · exact Or.inl same
    · exact Or.inr ⟨awake, Or.inr ⟨free, waited⟩⟩
  · cases same
    simp [Point.uses]

theorem CondMove.broadcast (inv : CondInv c m s L xs) :
    CondMove c m s L xs (drain (condWaiters c) s.kernel) (some .done) [] := by
  obtain ⟨list, states⟩ := inv.list.broadcast
  have signals : (drain (condWaiters c) s.kernel).sigpending = s.kernel.sigpending := by
    have same := congrArg Kernel.sigpending (drain_condOnly c s.kernel)
    exact same
  refine ⟨list, nofun, fun t member asleep => ?_, nofun, fun t _ => ?_, nofun, fun p same => ?_, signals⟩
  · have active : s.kernel.state t ≠ finishedThread := by
      rw [(inv.waiting t member).2]
      decide
    rw [states, if_pos ⟨member, active⟩] at asleep
    exact absurd asleep.symm suspended_ne_ready
  · rw [states]
    split
    · rename_i woken
      exact Or.inr ⟨rfl, Or.inl woken.1⟩
    · exact Or.inl rfl
  · cases same
    rfl

theorem CondMove.signal (inv : CondInv c m s L xs) :
    ∃ ys, CondMove c m s L xs (pthreadCondSignalSys c s.kernel).1 (some .done) ys := by
  have signals : (pthreadCondSignalSys c s.kernel).1.sigpending = s.kernel.sigpending := by
    have same := congrArg Kernel.sigpending (condSignal_only c s.kernel)
    exact same
  cases xs with
  | nil =>
    obtain ⟨list, states⟩ := inv.list.signal_nobody
    exact ⟨[], list, nofun, nofun, nofun, fun t _ => Or.inl (states t), nofun,
      fun p same => by cases same; rfl, signals⟩
  | cons x xs =>
    obtain ⟨list, states⟩ := inv.list.signal
    have active : s.kernel.state x ≠ finishedThread := by
      rw [(inv.waiting x List.mem_cons_self).2]
      decide
    have apart := (List.nodup_cons.mp inv.list.nodup).1
    refine ⟨xs, list, fun t member => ?_, fun t member asleep => ?_, nofun, fun t _ => ?_, nofun,
      fun p same => by cases same; rfl, signals⟩
    · have other : t ≠ x := fun same => apart (same ▸ member)
      rw [states, if_neg fun both => other both.1]
      exact ⟨(inv.waiting t (List.mem_cons_of_mem _ member)).2, Or.inl (List.mem_cons_of_mem _ member)⟩
    · rcases List.mem_cons.mp member with self | rest
      · rw [states, if_pos ⟨self, active⟩] at asleep
        exact absurd asleep.symm suspended_ne_ready
      · exact rest
    · rw [states]
      split
      · rename_i woken
        exact Or.inr ⟨rfl, Or.inl (List.mem_cons.mpr (Or.inl woken.1))⟩
      · exact Or.inl rfl

end

section
variable {c m : Nat} {s : System T} {L : Nat → List T} {xs : List T} {k : Kernel T} {env : Env}

theorem doSignals_calm {rounds : Nat} {w : Kernel T} {p : Option Point}
    (empty : k.sigpending k.currentThread = 0#32) (ran : doSignals rounds k = .ok (w, p)) :
    p = none ∧ w = { k with sigmask := w.sigmask } := by
  have nothing : (takeSignals k).2 = 0#32 := by simp [takeSignals, unblocked, empty]
  have still : Function.update k.sigpending k.currentThread 0#32 = k.sigpending := by
    rw [← empty, Function.update_eq_self]
  have taken : (takeSignals k).1 = k := by simp [takeSignals, unblocked, empty, still]
  have loop : signalLoop (k.sigmask k.currentThread) rounds 32 0 (takeSignals k).2
      (takeSignals k).1 = .ok (w, p) := ran
  rw [nothing, taken] at loop
  unfold signalLoop at loop
  rw [if_pos rfl] at loop
  cases loop
  exact ⟨rfl, rfl⟩

section
variable [Fintype T]

theorem CondInv.mutexLock (inv : CondInv c m s L xs) (ok : SystemOk s) :
    CondMove c m s L xs (pthreadMutexLockSys m s.kernel).1
        (pthreadMutexLockSys m s.kernel).2.outcome.onward xs ∧
      (pthreadMutexLockSys m s.kernel).2.outcome.onward ≠ some (.condUnlocked c m) := by
  have move := fun o => CondMove.lock (c := c) (m := m) (o := o) inv ok
  unfold pthreadMutexLockSys
  generalize mutexLockLoop m s.kernel = r at move ⊢
  obtain ⟨w, step⟩ := r
  cases step with
  | ret v => exact ⟨move none (Or.inr ⟨nofun, Or.inl rfl⟩), nofun⟩
  | blocked => exact ⟨move _ (Or.inl ⟨rfl, Or.inl rfl⟩), nofun⟩
  | raised => exact ⟨move _ (Or.inr ⟨nofun, Or.inr rfl⟩), nofun⟩

theorem CondInv.relock (inv : CondInv c m s L xs) (ok : SystemOk s) :
    CondMove c m s L xs (condRelock m s.kernel).1 (condRelock m s.kernel).2.outcome.onward xs ∧
      (condRelock m s.kernel).2.outcome.onward ≠ some (.condUnlocked c m) := by
  have move := fun o => CondMove.lock (c := c) (m := m) (o := o) inv ok
  unfold condRelock
  generalize mutexLockLoop m s.kernel = r at move ⊢
  obtain ⟨w, step⟩ := r
  cases step with
  | ret v => exact ⟨move none (Or.inr ⟨nofun, Or.inl rfl⟩), nofun⟩
  | blocked => exact ⟨move _ (Or.inl ⟨rfl, Or.inr rfl⟩), nofun⟩
  | raised => exact ⟨move _ (Or.inr ⟨nofun, Or.inr rfl⟩), nofun⟩

theorem CondInv.condWait (inv : CondInv c m s L xs) (ok : SystemOk s) :
    ∃ ys, CondMove c m s L xs (pthreadCondWaitSys c m s.kernel).1
        (pthreadCondWaitSys c m s.kernel).2.outcome.onward ys := by
  rcases pthreadCondWaitSys_cases c m s.kernel with ⟨_, eq⟩ | ⟨_, v, _, eq⟩ | ⟨_, _, eq⟩
  · rw [eq]
    exact ⟨xs, .quiet inv rfl rfl (fun _ => rfl) rfl (Or.inl rfl)⟩
  · rw [eq]
    obtain ⟨list, asleep, states, signals⟩ := inv.unlock
    have current := (mutexUnlock_only m s.kernel).others.2.2.2.2
    have ready := (mutexUnlock_sound ok.kernel m).2 ok.running
    exact ⟨_, .wait inv ok list current ready asleep states signals⟩
  · rw [eq]
    exact ⟨xs, .unlock inv (Or.inr (Or.inr rfl))⟩

theorem CondInv.enter (inv : CondInv c m s L xs) (ok : SystemOk s) {w : Work T} {pr : Progress}
    (uses : (Label.enter w env).Uses c m = true) (ran : w.run env s.kernel = .ok (k, pr)) :
    ∃ ys, CondMove c m s L xs k pr.outcome.onward ys ∧
      (w ≠ .call (.condWait c m) → pr.outcome.onward ≠ some (.condUnlocked c m)) := by
  cases w with
  | irq => cases uses
  | call a =>
    cases a with
    | mutexLock n =>
      obtain rfl : n = m := by simpa [Label.Uses] using uses
      obtain ⟨rfl, rfl⟩ := ran_pair ran
      obtain ⟨move, linked⟩ := inv.mutexLock ok
      exact ⟨xs, move, fun _ => linked⟩
    | mutexUnlock n =>
      obtain rfl : n = m := by simpa [Label.Uses] using uses
      obtain ⟨rfl, rfl⟩ := ran_pair ran
      have goes : (pthreadMutexUnlockSys n s.kernel).2.outcome.onward = none ∨
          (pthreadMutexUnlockSys n s.kernel).2.outcome.onward = some .done := by
        unfold pthreadMutexUnlockSys
        rcases mutexUnlock n s.kernel with ⟨x, step⟩
        cases step with
        | ret v => exact Or.inl rfl
        | lowered => exact Or.inr rfl
      rw [pthreadMutexUnlockSys_kernel]
      refine ⟨xs, .unlock inv (goes.imp_right Or.inl), fun _ onward => ?_⟩
      rcases goes with here | here <;> rw [here] at onward <;> cases onward
    | condWait d n =>
      obtain ⟨rfl, rfl⟩ : d = c ∧ n = m := by simpa [Label.Uses] using uses
      obtain ⟨rfl, rfl⟩ := ran_pair ran
      obtain ⟨ys, move⟩ := inv.condWait ok
      exact ⟨ys, move, fun other => absurd rfl other⟩
    | condSignal d =>
      obtain rfl : d = c := by simpa [Label.Uses] using uses
      obtain ⟨rfl, rfl⟩ := ran_pair ran
      have goes : (pthreadCondSignalSys d s.kernel).2 = .sched .done := by
        unfold pthreadCondSignalSys
        split <;> rfl
      obtain ⟨ys, move⟩ := CondMove.signal inv
      rw [goes]
      exact ⟨ys, move, fun _ => nofun⟩
    | condBroadcast d =>
      obtain rfl : d = c := by simpa [Label.Uses] using uses
      obtain ⟨rfl, rfl⟩ := ran_pair ran
      exact ⟨[], .broadcast inv, fun _ => nofun⟩
    | _ => cases uses

theorem CondInv.resume (inv : CondInv c m s L xs) (ok : SystemOk s) {w : Work T} {p : Point}
    {outcome : Outcome} (here : s.cont s.kernel.currentThread = some (w, p))
    (ran : p.run env s.kernel = .ok (k, outcome)) :
    ∃ ys, CondMove c m s L xs k outcome.onward ys ∧ outcome.onward ≠ some (.condUnlocked c m) := by
  have uses := inv.points _ w p here
  cases p with
  | done =>
    cases ran
    exact ⟨xs, .quiet inv rfl rfl (fun _ => rfl) rfl (Or.inl rfl), nofun⟩
  | lockLoop n =>
    obtain rfl : n = m := by simpa [Point.uses] using uses
    cases ran
    exact ⟨xs, inv.mutexLock ok⟩
  | condUnlocked d n =>
    obtain ⟨rfl, rfl⟩ : d = c ∧ n = m := by simpa [Point.uses] using uses
    cases ran
    exact ⟨_, .wait inv ok inv.list rfl ok.running (fun t member => (inv.waiting t member).2)
      (fun _ => Or.inl rfl) rfl, nofun⟩
  | condWoken n =>
    obtain rfl : n = m := by simpa [Point.uses] using uses
    cases ran
    exact ⟨xs, inv.relock ok⟩
  | condLock n =>
    obtain rfl : n = m := by simpa [Point.uses] using uses
    cases ran
    exact ⟨xs, inv.relock ok⟩
  | leave rounds =>
    cases rounds with
    | zero =>
      cases ran
      exact ⟨xs, .quiet inv rfl rfl (fun _ => rfl) rfl (Or.inl rfl), nofun⟩
    | succ rounds =>
      obtain ⟨q, signals, rfl⟩ := ran_leave ran
      obtain ⟨rfl, only⟩ := doSignals_calm (inv.signals _) signals
      have goes : (signalOutcome rounds none).onward = none ∨
          (signalOutcome rounds none).onward = some (.leave rounds) := by
        simp only [signalOutcome, Outcome.onward]
        split
        · exact Or.inl rfl
        · exact Or.inr rfl
      have nodes := congrArg Kernel.condNode only
      have heads := congrArg Kernel.cond only
      have flags := congrArg Kernel.threadFlags only
      have pending := congrArg Kernel.sigpending only
      refine ⟨xs, .quiet inv nodes heads (Kernel.state_of_flags flags) pending
        (goes.imp_right fun here => Or.inr ⟨rounds, here⟩), fun onward => ?_⟩
      rcases goes with here | here <;> rw [here] at onward <;> cases onward
  | _ => cases uses

end
end

section
variable [Fintype T] {c m : Nat} {s x : System T} {L : Nat → List T} {xs : List T}
  {es : List (Event T)}

theorem CondInv.step (inv : CondInv c m s L xs) (ok : SystemOk s) {l : Label T}
    (uses : l.Uses c m = true) (taken : s.step l = some (x, es)) : ∃ L' ys, CondInv c m x L' ys := by
  rcases step_cases taken with ⟨w, env, k, pr, rfl, _, legal, ran, rfl, _⟩ |
    ⟨w, p, env, k, outcome, rfl, here, ran, rfl, _⟩
  · obtain ⟨ys, move, _⟩ := inv.enter ok uses ran
    obtain ⟨L', next⟩ := inv.settle ok w env (Work.run_ok ok.kernel ok.running legal ran).sound
      (Work.run_move legal ran) move
    exact ⟨L', ys, next⟩
  · obtain ⟨ys, move, _⟩ := inv.resume ok here ran
    obtain ⟨L', next⟩ := inv.settle ok w env (Point.run_ok ok.kernel ok.running ran).sound
      (Point.run_move ran) move
    exact ⟨L', ys, next⟩

omit [DecidableEq T] in
theorem condInv_start (start : Started s) : CondInv c m s (fun _ => []) [] where
  locks := waitersInv_start start
  asleep _ _ member := by cases member
  list := ⟨start.fresh.conds c, List.nodup_nil, fun t _ => (start.fresh.nodes t).2.1⟩
  waiting _ member := by cases member
  linked t w here := by
    rw [start.user t] at here
    cases here
  points t w p here := by
    rw [start.user t] at here
    cases here
  signals := start.fresh.signals

theorem condWait_waits (ok : SystemOk s) {env : Env}
    (taken : s.step (.enter (.call (.condWait c m)) env) = some (x, es))
    (mine : (s.kernel.mutex m).owner = some s.kernel.currentThread) :
    CondWaiting c m x s.kernel.currentThread := by
  rcases step_cases taken with ⟨w, env, k, pr, same, _, _, ran, rfl, _⟩ | ⟨_, _, _, _, _, same, _⟩
  · cases same
    obtain ⟨rfl, rfl⟩ := ran_pair ran
    rcases pthreadCondWaitSys_cases c m s.kernel with ⟨foreign, _⟩ | ⟨_, v, _, eq⟩ | ⟨_, _, eq⟩
    · exact absurd mine foreign
    · rw [eq]
      have current := (mutexUnlock_only m s.kernel).others.2.2.2.2
      have ready := (mutexUnlock_sound ok.kernel m).2 ok.running
      have asleep : (blockOn (condWaiters c) (mutexUnlock m s.kernel).1).state
          (mutexUnlock m s.kernel).1.currentThread = suspendedThread :=
        suspendThread_self (by rw [current]; exact ready)
      rw [current] at asleep
      refine Or.inr ⟨⟨_, settle_cont_self rfl _ _ _⟩, ?_⟩
      rw [(settle_view s _ env _ _).2.2]
      exact asleep
    · rw [eq]
      exact Or.inl ⟨_, settle_cont_self rfl _ _ _⟩
  · cases same

theorem CondInv.divides_iff (inv : CondInv c m s L xs) (ok : SystemOk s)
    (lowered : (mutexUnlock m s.kernel).2 = .lowered) (d n : Nat) (env : Env) (now : Duration) :
    (scheduling now (mutexUnlock m s.kernel).1).currentThread = s.kernel.currentThread ↔
      Undivided m s (.enter (.call (.condWait d n)) env) := by
  rw [mutexUnlock_stays_iff ok.kernel ok.running lowered]
  obtain ⟨lowers, free, _⟩ := mutexUnlock_lowered ok.running lowered
  obtain ⟨_, _, states, _⟩ := inv.unlock
  have woken : ∀ u ∈ L m, u ≠ s.kernel.currentThread → s.kernel.state u ≠ finishedThread →
      (mutexUnlock m s.kernel).1.state u = readyThread := by
    rcases mutexUnlock_lists m s.kernel with released | kept
    · exact (waitersInv_released inv.locks released).2.2.2
    · have owned : (s.kernel.mutex m).owner ≠ none := by simp [lowers.1]
      exact absurd free (kept.owned m owned)
  constructor
  · intro least _ u other awake
    rcases awake with ⟨alive, ready⟩ | waits
    · apply least u other alive
      rcases states u with same | ⟨here, _⟩
      · exact same.trans ready
      · exact here
    · rw [inv.locks.waiters_eq] at waits
      obtain ⟨w, p, here, _⟩ := inv.locks.waiting m u waits
      apply least u other (ok.inside u w p here)
      apply woken u waits other
      rw [inv.asleep m u waits]
      decide
  · intro undivided u other alive awake
    apply undivided lowers u other
    rcases states u with same | ⟨_, _, waits⟩
    · exact Or.inl ⟨alive, same.symm.trans awake⟩
    · right
      rw [inv.locks.waiters_eq]
      exact waits

omit [Fintype T] in
theorem Atomic.settle (atomic : Atomic c m s) (w : Work T) (env : Env) {k : Kernel T} {outcome : Outcome}
    (linked : outcome.onward ≠ some (.condUnlocked c m)) : Atomic c m (s.settle w env k outcome).1 := by
  intro t v here
  rcases settle_cont here with ⟨other, before⟩ | ⟨_, _, onward | ⟨r, _, last⟩⟩
  · exact absurd (atomic t v before) other
  · exact absurd onward linked
  · cases last

theorem CondInv.atomic_step_iff (inv : CondInv c m s L xs) (ok : SystemOk s) (atomic : Atomic c m s)
    {l : Label T} (uses : l.Uses c m = true) (taken : s.step l = some (x, es)) :
    Atomic c m x ↔ Undivided m s l := by
  rcases step_cases taken with ⟨w, env, k, pr, rfl, user, legal, ran, rfl, _⟩ |
    ⟨w, p, env, k, outcome, rfl, here, ran, rfl, _⟩
  · by_cases waits : w = .call (.condWait c m)
    · subst waits
      obtain ⟨rfl, rfl⟩ := ran_pair ran
      have unlowered : (mutexUnlock m s.kernel).2 ≠ .lowered →
          Undivided m s (.enter (.call (.condWait c m)) env) :=
        fun other lowers => absurd lowers.lowered other
      rcases pthreadCondWaitSys_cases c m s.kernel with ⟨foreign, eq⟩ | ⟨_, v, ret, eq⟩ | ⟨_, lowered, eq⟩
      · rw [eq]
        refine iff_of_true (atomic.settle _ env nofun) fun lowers => ?_
        exact absurd lowers.1 foreign
      · rw [eq]
        refine iff_of_true (atomic.settle _ env nofun) (unlowered ?_)
        rw [ret]
        nofun
      · rw [eq, ← inv.divides_iff ok lowered c m env env.sched]
        constructor
        · intro after
          exact (after _ _ (settle_cont_self rfl _ _ _)).symm
        · intro stays t v there
          rcases settle_cont there with ⟨other, before⟩ | ⟨self, _⟩
          · exact absurd (atomic t v before) other
          · exact self.trans stays.symm
    · obtain ⟨ys, _, linked⟩ := inv.enter ok uses ran
      refine iff_of_true (atomic.settle w env (linked waits)) ?_
      cases w with
      | irq => trivial
      | call a =>
        cases a with
        | condWait d n =>
          obtain ⟨rfl, rfl⟩ : d = c ∧ n = m := by simpa [Label.Uses] using uses
          exact absurd rfl waits
        | _ => trivial
  · obtain ⟨ys, _, linked⟩ := inv.resume ok here ran
    exact iff_of_true (atomic.settle w env linked) trivial

theorem Atomic.stays (atomic : Atomic c m s) (ok : SystemOk s) {l : Label T} {t : T}
    (taken : s.step l = some (x, es)) (waits : CondWaiting c m s t) :
    CondWaiting c m x t ∨ (s.kernel.state t = suspendedThread ∧ x.kernel.state t = readyThread) := by
  rcases waits with ⟨v, here⟩ | ⟨⟨v, here⟩, asleep⟩
  · have self := atomic t v here
    subst self
    rcases step_cases taken with ⟨_, _, _, _, _, user, _⟩ | ⟨w, p, env, k, outcome, rfl, there, ran, rfl, _⟩
    · rw [user] at here
      cases here
    · rw [here] at there
      cases there
      cases ran
      refine Or.inl (Or.inr ⟨⟨v, settle_cont_self rfl _ _ _⟩, ?_⟩)
      rw [(settle_view s _ env _ _).2.2]
      exact suspendThread_self ok.running
  · have other : t ≠ s.kernel.currentThread := by
      rintro rfl
      rw [ok.running] at asleep
      exact absurd asleep.symm suspended_ne_ready
    have moved : ∀ (w : Work T) (env : Env) (k : Kernel T) (outcome : Outcome),
        Sound s.kernel.currentThread s.kernel k → CondWaiting c m (s.settle w env k outcome).1 t ∨
          (s.kernel.state t = suspendedThread ∧
            (s.settle w env k outcome).1.kernel.state t = readyThread) := by
      intro w env k outcome sound
      have states := (settle_view s w env k outcome).2.2
      rcases sound.others t (ok.inside t v _ here) other with same | ⟨_, ready⟩
      · refine Or.inl (Or.inr ⟨⟨v, ?_⟩, ?_⟩)
        · rw [settle_cont_other other]
          exact here
        · rw [states, same]
          exact asleep
      · refine Or.inr ⟨asleep, ?_⟩
        rw [states]
        exact ready
    rcases step_cases taken with ⟨w, env, k, pr, rfl, _, legal, ran, rfl, _⟩ |
      ⟨w, p, env, k, outcome, rfl, _, ran, rfl, _⟩
    · exact moved w env k _ (Work.run_ok ok.kernel ok.running legal ran).sound
    · exact moved w env k _ (Point.run_ok ok.kernel ok.running ran).sound

omit [DecidableEq T] in
theorem CondInv.waiters_iff (inv : CondInv c m s L xs) (atomic : Atomic c m s)
    (user : s.cont s.kernel.currentThread = none) {t : T} :
    CondWaiting c m s t ↔ t ∈ xs := by
  constructor
  · rintro (⟨w, here⟩ | ⟨⟨w, here⟩, asleep⟩)
    · rw [atomic t w here, user] at here
      cases here
    · exact inv.linked t w here asleep
  · intro member
    exact Or.inr (inv.waiting t member)

theorem CondInv.broadcast_wakes (inv : CondInv c m s L xs) (atomic : Atomic c m s) {env : Env} {t : T}
    (taken : s.step (.enter (.call (.condBroadcast c)) env) = some (x, es))
    (waits : CondWaiting c m s t) :
    s.kernel.state t = suspendedThread ∧ x.kernel.state t = readyThread := by
  rcases step_cases taken with ⟨w, env, k, pr, same, user, _, ran, rfl, _⟩ | ⟨_, _, _, _, _, same, _⟩
  · cases same
    obtain ⟨rfl, rfl⟩ := ran_pair ran
    have member := (inv.waiters_iff atomic user).mp waits
    have asleep := (inv.waiting t member).2
    refine ⟨asleep, ?_⟩
    rw [(settle_view s _ env _ _).2.2]
    show (drain (condWaiters c) s.kernel).state t = readyThread
    rw [inv.list.broadcast.2, if_pos ⟨member, by rw [asleep]; decide⟩]
  · cases same

theorem CondInv.signal_wakes (inv : CondInv c m s L xs) (atomic : Atomic c m s) {env : Env} {t : T}
    (taken : s.step (.enter (.call (.condSignal c)) env) = some (x, es))
    (waits : CondWaiting c m s t) (alone : ∀ u, CondWaiting c m s u → u = t) :
    s.kernel.state t = suspendedThread ∧ x.kernel.state t = readyThread := by
  rcases step_cases taken with ⟨w, env, k, pr, same, user, _, ran, rfl, _⟩ | ⟨_, _, _, _, _, same, _⟩
  · cases same
    obtain ⟨rfl, rfl⟩ := ran_pair ran
    have member := (inv.waiters_iff atomic user).mp waits
    have asleep := (inv.waiting t member).2
    refine ⟨asleep, ?_⟩
    rw [(settle_view s _ env _ _).2.2]
    show (pthreadCondSignalSys c s.kernel).1.state t = readyThread
    cases xs with
    | nil => cases member
    | cons y ys =>
      have first : y = t := alone y ((inv.waiters_iff atomic user).mpr List.mem_cons_self)
      subst first
      rw [inv.list.signal.2, if_pos ⟨rfl, by rw [asleep]; decide⟩]
  · cases same

theorem CondInv.wakeups_iff (inv : CondInv c m s L xs) (ok : SystemOk s) :
    WakeupsKept c m s ↔ Atomic c m s := by
  constructor
  · exact WakeupsKept.atomic
  · intro atomic
    exact ⟨atomic, fun env y fs taken mine => condWait_waits ok taken mine,
      fun l y fs t taken waits => atomic.stays ok taken waits,
      fun env y fs t taken waits => inv.broadcast_wakes atomic taken waits,
      fun env y fs t taken waits alone => inv.signal_wakes atomic taken waits alone⟩

/-- No wake-up is lost in a run exactly if the nested unlock of pthread_cond_wait_sys
    always leaves its caller in front. -/
theorem cond_wakeups_kept_iff (s : System T) (start : Started s) (c m : Nat) (ls : List (Label T))
    (uses : ∀ l ∈ ls, l.Uses c m = true) (x : System T) (es : List (Event T))
    (run : s.exec ls = some (x, es)) :
    (∀ before after y past, ls = before ++ after → s.exec before = some (y, past) →
      WakeupsKept c m y) ↔ Lts.Along System.step (Undivided m) s ls := by
  have initial : CondInv c m s (fun _ => []) [] := condInv_start start
  have atomic : Atomic c m s := by
    intro t w here
    rw [start.user t] at here
    cases here
  have keeps : ∀ (y : System T) (l : Label T) (w : System T) (fs : List (Event T)),
      (SystemOk y ∧ ∃ L xs, CondInv c m y L xs) → WakeupsKept c m y → l.Uses c m = true →
      y.step l = some (w, fs) → (SystemOk w ∧ ∃ L xs, CondInv c m w L xs) ∧
        (WakeupsKept c m w ↔ Undivided m y l) := by
    rintro y l w fs ⟨ok, L, xs, inv⟩ good may taken
    obtain ⟨L', ys, next⟩ := inv.step ok may taken
    refine ⟨⟨ok.step taken, L', ys, next⟩, ?_⟩
    rw [next.wakeups_iff (ok.step taken)]
    exact inv.atomic_step_iff ok good.atomic may taken
  exact Lts.good_iff_along keeps ls ⟨start.ok, _, _, initial⟩
    ((initial.wakeups_iff start.ok).mpr atomic) (Lts.along_of_forall uses) run

end

def System.initMutex (s : System T) (m : Nat) (attr : MutexAttr) : System T :=
  { s with kernel := setMutex m ⟨0, attr, none, none⟩ s.kernel }

omit [DecidableEq T] in
theorem Started.initMutex {s : System T} (start : Started s) (m : Nat) (attr : MutexAttr) :
    Started (s.initMutex m attr) := by
  obtain ⟨r, ready⟩ := start.fresh.ready
  refine ⟨⟨⟨r, ready.congr rfl rfl rfl rfl⟩, start.fresh.nodes, fun n => ?_, start.fresh.conds,
    start.fresh.sems, start.fresh.timers, start.fresh.joiners, start.fresh.signals, start.fresh.irq⟩,
    start.user, start.current, start.running, start.idle, start.idling⟩
  by_cases same : n = m
  · simp [System.initMutex, setMutex, same]
  · simpa [System.initMutex, setMutex, same] using start.fresh.mutexes n

def ceilingStart : System (Fin 3) :=
  (startSystem 0 [(0, 1023), (1, 10), (2, 7)]).initMutex 0 ⟨.protect, 5, .normal, 0⟩

theorem ceilingStart_started : Started ceilingStart :=
  (startSystem_started 0 _ (by decide) 1023 (by simp)).initMutex 0 _

def waitedFor : List (Label (Fin 3)) :=
  [.enter (.call (.mutexLock 0)) stillEnv, .resume stillEnv, .resume stillEnv,
    .enter (.call (.condWait 0 0)) stillEnv, .resume stillEnv,
    .enter (.call (.mutexLock 0)) stillEnv, .resume stillEnv, .resume stillEnv]

/-- Thread 1 wakes it, and waits in its turn: thread 2 gets the mutex before thread 1
    is linked. -/
def waitedTooLate : List (Label (Fin 3)) :=
  waitedFor ++ [.enter (.call (.condBroadcast 0)) stillEnv, .resume stillEnv, .resume stillEnv,
    .enter (.call (.condWait 0 0)) stillEnv, .resume stillEnv, .resume stillEnv, .resume stillEnv]

theorem cond_wakeups_kept_iff_two :
    ∃ x es, ceilingStart.exec waitedFor = some (x, es) ∧ CondWaiting 0 0 x 2 ∧
      (x.kernel.mutex 0).owner = some 1 ∧ WakeupsKept 0 0 x := by
  obtain ⟨⟨x, es⟩, run, found⟩ := Option.map_eq_some_iff.mp
    (by decide +kernel : (ceilingStart.exec waitedFor).map (fun r =>
      (r.1.cont 2, r.1.kernel.state 2, (r.1.kernel.mutex 0).owner)) =
      some (some (.call (.condWait 0 0), .condWoken 0), suspendedThread, some 1))
  simp only [Prod.mk.injEq] at found
  obtain ⟨there, asleep, owner⟩ := found
  have kept := (cond_wakeups_kept_iff ceilingStart ceilingStart_started 0 0 waitedFor (by decide) x es
    run).mpr (by decide +kernel)
  exact ⟨x, es, run, Or.inr ⟨⟨_, there⟩, asleep⟩, owner, kept waitedFor [] x es (by simp) run⟩

def allAsleep : List (Label (Fin 3)) :=
  [.resume stillEnv, .resume stillEnv, .enter (.call (.mutexUnlock 0)) stillEnv, .resume stillEnv,
    .resume stillEnv, .enter (.call (.mutexLock 0)) stillEnv, .resume stillEnv, .resume stillEnv,
    .enter (.call (.condWait 0 0)) stillEnv, .resume stillEnv, .resume stillEnv]

/-- Thread 2, as the owner of the mutex, broadcasts to nobody; thread 1 goes to sleep
    after that, and in the end the idle thread runs. -/
theorem cond_wakeup_lost :
    ∃ x es y fs z gs, ceilingStart.exec waitedTooLate = some (x, es) ∧
      CondWaiting 0 0 x 1 ∧ (x.kernel.mutex 0).owner = some 2 ∧ x.kernel.currentThread = 2 ∧
      x.step (.enter (.call (.condBroadcast 0)) stillEnv) = some (y, fs) ∧
      y.exec allAsleep = some (z, gs) ∧ z.kernel.state 1 = suspendedThread ∧
      z.kernel.currentThread = 0 ∧ ¬WakeupsKept 0 0 x := by
  obtain ⟨⟨x, es⟩, run, rest⟩ := Option.bind_eq_some_iff.mp
    (by decide +kernel : ((ceilingStart.exec waitedTooLate).bind fun r =>
      (r.1.step (.enter (.call (.condBroadcast 0)) stillEnv)).bind fun q =>
        (q.1.exec allAsleep).map fun p => ((r.1.cont 1, r.1.kernel.state 1),
          ((r.1.kernel.mutex 0).owner, r.1.kernel.currentThread),
          (p.1.kernel.state 1, p.1.kernel.currentThread))) =
      some ((some (.call (.condWait 0 0), .condUnlocked 0 0), readyThread), (some 2, 2),
        (suspendedThread, 0)))
  obtain ⟨⟨y, fs⟩, taken, last⟩ := Option.bind_eq_some_iff.mp rest
  obtain ⟨⟨z, gs⟩, sleeps, found⟩ := Option.map_eq_some_iff.mp last
  simp only [Prod.mk.injEq] at found
  obtain ⟨⟨there, ready⟩, ⟨owner, current⟩, asleep, idle⟩ := found
  have waits : CondWaiting 0 0 x 1 := Or.inl ⟨_, there⟩
  refine ⟨x, es, y, fs, z, gs, run, waits, owner, current, taken, sleeps, asleep, idle, fun kept => ?_⟩
  have woken := (kept.broadcast stillEnv y fs 1 taken waits).1
  rw [ready] at woken
  exact absurd woken (by decide)

end L4ertl
