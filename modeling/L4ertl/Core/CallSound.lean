import L4ertl.Core.KernelOk
import L4ertl.Core.MutexEffect

/-!
Every call keeps the invariant of the kernel's data, wakes other threads at
most, and comes back to its caller only while that one is READY.
-/
namespace L4ertl
open Intrusive

structure CallOk {T : Type} (k w : Kernel T) (pr : Progress) : Prop where
  sound : Sound k.currentThread k w
  stays : ∀ v, pr = .ret v → w.state k.currentThread = readyThread

variable {T : Type} [DecidableEq T]

theorem KernelOk.setMutex {t : T} {k : Kernel T} (ok : KernelOk k) {m : Nat} {x : Mutex T}
    (list : x.mutexList = (k.mutex m).mutexList) : Sound t k (setMutex m x k) := by
  have only : ObjOnly k (L4ertl.setMutex m x k) := rfl
  apply ok.object only
  refine ⟨?_, ok.refs.conds, ok.refs.sems, ok.refs.owners, ok.refs.joiners⟩
  intro j
  have head : ((L4ertl.setMutex m x k).mutex j).mutexList = (k.mutex j).mutexList := by
    simp only [L4ertl.setMutex, Function.update_apply]
    split
    · rename_i same
      rw [same, list]
    · rfl
  rw [head]
  exact ok.refs.mutexes j

theorem KernelOk.setSem {t : T} {k : Kernel T} (ok : KernelOk k) {s : Nat} {x : Sem T}
    (list : x.semList = (k.sem s).semList) : Sound t k (setSem s x k) := by
  have only : ObjOnly k (L4ertl.setSem s x k) := rfl
  apply ok.object only
  refine ⟨ok.refs.mutexes, ok.refs.conds, ?_, ok.refs.owners, ok.refs.joiners⟩
  intro j
  have head : ((L4ertl.setSem s x k).sem j).semList = (k.sem j).semList := by
    simp only [L4ertl.setSem, Function.update_apply]
    split
    · rename_i same
      rw [same, list]
    · rfl
  rw [head]
  exact ok.refs.sems j

theorem raiseToCeiling_sound {k : Kernel T} (ok : KernelOk k) (m : Nat) :
    Sound k.currentThread k (raiseToCeiling m k).1 ∧
      ∀ u, (raiseToCeiling m k).1.state u = k.state u := by
  unfold raiseToCeiling
  simp only
  split
  · have noted : Sound k.currentThread k (setMutex m { k.mutex m with
        attr := { (k.mutex m).attr with ownerPrio := k.prio k.currentThread } } k) := ok.setMutex rfl
    split
    · refine ⟨noted.trans (noted.ok.changePrio ok.current _), ?_⟩
      intro u
      simp only [Kernel.state, changeThreadPrio_flags]
      rfl
    · exact ⟨noted, fun u => rfl⟩
  · exact ⟨.refl ok, fun u => rfl⟩

theorem mutexLockLoop_sound {k : Kernel T} (ok : KernelOk k) (m : Nat) :
    Sound k.currentThread k (mutexLockLoop m k).1 ∧
      ((mutexLockLoop m k).2 ≠ .blocked → ∀ u, (mutexLockLoop m k).1.state u = k.state u) := by
  unfold mutexLockLoop
  simp only
  split
  · have taken : Sound k.currentThread k
        (setMutex m { k.mutex m with owner := some k.currentThread, counter := 1 } k) :=
      ok.setMutex rfl
    obtain ⟨raised, states⟩ := raiseToCeiling_sound taken.ok m
    exact ⟨taken.trans raised, fun _ u => states u⟩
  · split
    · exact ⟨ok.errno edeadlk, fun _ u => rfl⟩
    · split
      · exact ⟨ok.setMutex rfl, fun _ u => rfl⟩
      · exact ⟨(ListOf.mutex m).blockOn_ok ok, fun other => absurd rfl other⟩

theorem pthreadMutexLockSys_ok {k : Kernel T} (ok : KernelOk k)
    (ready : k.state k.currentThread = readyThread) (m : Nat) :
    CallOk k (pthreadMutexLockSys m k).1 (pthreadMutexLockSys m k).2 := by
  obtain ⟨sound, states⟩ := mutexLockLoop_sound ok m
  unfold pthreadMutexLockSys
  split
  · rename_i w v loop
    rw [loop] at sound states
    exact ⟨sound, fun _ _ => (states (by simp) _).trans ready⟩
  · rename_i w loop
    rw [loop] at sound
    exact ⟨sound, nofun⟩
  · rename_i w loop
    rw [loop] at sound
    exact ⟨sound, nofun⟩

theorem condRelock_ok {k : Kernel T} (ok : KernelOk k)
    (ready : k.state k.currentThread = readyThread) (m : Nat) :
    CallOk k (condRelock m k).1 (condRelock m k).2 := by
  obtain ⟨sound, states⟩ := mutexLockLoop_sound ok m
  unfold condRelock
  split
  · rename_i w v loop
    rw [loop] at sound states
    exact ⟨sound, fun _ _ => (states (by simp) _).trans ready⟩
  · rename_i w loop
    rw [loop] at sound
    exact ⟨sound, nofun⟩
  · rename_i w loop
    rw [loop] at sound
    exact ⟨sound, nofun⟩

theorem pthreadMutexTrylockSys_ok {k : Kernel T} (ok : KernelOk k)
    (ready : k.state k.currentThread = readyThread) (m : Nat) :
    CallOk k (pthreadMutexTrylockSys m k).1 (pthreadMutexTrylockSys m k).2 := by
  unfold pthreadMutexTrylockSys
  simp only
  split
  · have taken : Sound k.currentThread k
        (setMutex m { k.mutex m with owner := some k.currentThread } k) := ok.setMutex rfl
    obtain ⟨raised, states⟩ := raiseToCeiling_sound taken.ok m
    split
    · rename_i w v raise
      rw [raise] at raised states
      exact ⟨taken.trans raised, fun _ _ => (states _).trans ready⟩
    · rename_i w step other raise
      rw [raise] at raised
      exact ⟨taken.trans raised, nofun⟩
  · split
    · exact ⟨ok.setMutex rfl, fun _ _ => ready⟩
    · exact ⟨ok.errno ebusy, fun _ _ => ready⟩

section
variable [Fintype T]

theorem drain_state (l : WaitList T) (k : Kernel T) (u : T) :
    (drain l k).state u =
      if u ∈ (unlinkAll (Fintype.card T + 1) (l.nodes k) (l.head k)).2.2 ∧
        k.state u ≠ finishedThread then readyThread else k.state u := by
  unfold drain
  rw [l.wakeAll_eq, l.store_state, activateAll_state]

theorem drain_ready {l : WaitList T} {k : Kernel T} {u : T} (ready : k.state u = readyThread) :
    (drain l k).state u = readyThread := by
  rw [drain_state]
  split
  · rfl
  · exact ready

omit [Fintype T] in
theorem KernelOk.emptyMutex {t : T} {k : Kernel T} (ok : KernelOk k) {m : Nat} {x : Mutex T}
    (list : x.mutexList = none) : Sound t k (L4ertl.setMutex m x k) := by
  have only : ObjOnly k (L4ertl.setMutex m x k) := rfl
  apply ok.object only
  refine ⟨?_, ok.refs.conds, ok.refs.sems, ok.refs.owners, ok.refs.joiners⟩
  intro j
  have head : ((L4ertl.setMutex m x k).mutex j).mutexList =
      if j = m then none else (k.mutex j).mutexList := by
    simp only [L4ertl.setMutex, Function.update_apply]
    split
    · exact list
    · rfl
  have emptied : Closed (fun u => k.live u = true) k.mutexNode none :=
    ⟨nofun, (ok.refs.mutexes m).2⟩
  rw [head]
  exact closed_update (i := m) ok.refs.mutexes emptied j

theorem releaseMutex_sound {k : Kernel T} (ok : KernelOk k) (m : Nat) :
    Sound k.currentThread k (releaseMutex m k).1 ∧
      (k.state k.currentThread = readyThread →
        (releaseMutex m k).1.state k.currentThread = readyThread) := by
  have drained : Sound k.currentThread k (drain (mutexWaiters m) k) := (ListOf.mutex m).drain_ok ok
  have freed : Sound k.currentThread k (setMutex m { (drain (mutexWaiters m) k).mutex m with
      mutexList := none, owner := none, counter := 0 } (drain (mutexWaiters m) k)) :=
    drained.trans (drained.ok.emptyMutex rfl)
  unfold releaseMutex
  simp only
  split
  · refine ⟨freed.trans ?_, ?_⟩
    · have lowered : Sound k.currentThread _ (changeThreadPrio _ _ _) :=
        freed.ok.changePrio freed.ok.current ((drain (mutexWaiters m) k).mutex m).attr.ownerPrio
      exact lowered
    · intro ready
      simp only [Kernel.state, changeThreadPrio_flags]
      exact drain_ready ready
  · exact ⟨freed, drain_ready⟩

theorem mutexUnlock_sound {k : Kernel T} (ok : KernelOk k) (m : Nat) :
    Sound k.currentThread k (mutexUnlock m k).1 ∧
      (k.state k.currentThread = readyThread →
        (mutexUnlock m k).1.state k.currentThread = readyThread) := by
  unfold mutexUnlock
  simp only
  split
  · split
    · exact ⟨ok.errno eperm, fun ready => ready⟩
    · exact ⟨.refl ok, fun ready => ready⟩
  · split
    · exact ⟨ok.errno eperm, fun ready => ready⟩
    · split
      · have counted : Sound k.currentThread k
            (setMutex m { k.mutex m with counter := (k.mutex m).counter - 1 } k) := ok.setMutex rfl
        split
        · exact ⟨counted, fun ready => ready⟩
        · obtain ⟨released, stays⟩ := releaseMutex_sound counted.ok m
          exact ⟨counted.trans released, stays⟩
      · exact releaseMutex_sound ok m

theorem pthreadMutexUnlockSys_ok {k : Kernel T} (ok : KernelOk k)
    (ready : k.state k.currentThread = readyThread) (m : Nat) :
    CallOk k (pthreadMutexUnlockSys m k).1 (pthreadMutexUnlockSys m k).2 := by
  obtain ⟨sound, stays⟩ := mutexUnlock_sound ok m
  rw [pthreadMutexUnlockSys_kernel]
  exact ⟨sound, fun _ _ => stays ready⟩

omit [Fintype T] in
theorem pthreadCondSignalSys_ok {k : Kernel T} (ok : KernelOk k) (c : Nat) :
    CallOk k (pthreadCondSignalSys c k).1 (pthreadCondSignalSys c k).2 := by
  obtain ⟨closed, taken⟩ := removeHead_closed (ok.refs.conds c)
  have stored : Sound k.currentThread k ((condWaiters c).removeHead k).1 :=
    (ListOf.cond c).store_ok ok closed
  unfold pthreadCondSignalSys
  split
  · rename_i w t removed
    rw [removed] at stored
    have alive : k.live t = true := taken t (congrArg Prod.snd removed)
    exact ⟨stored.trans (stored.ok.activate (stored.live t alive)), nofun⟩
  · rename_i w removed
    rw [removed] at stored
    exact ⟨stored, nofun⟩

theorem pthreadCondBroadcastSys_ok {k : Kernel T} (ok : KernelOk k) (c : Nat) :
    CallOk k (pthreadCondBroadcastSys c k).1 (pthreadCondBroadcastSys c k).2 :=
  ⟨(ListOf.cond c).drain_ok ok, nofun⟩

omit [Fintype T] in
theorem condBlock_ok {k : Kernel T} (ok : KernelOk k) (c m : Nat) :
    CallOk k (condBlock c m k).1 (condBlock c m k).2 :=
  ⟨(ListOf.cond c).blockOn_ok ok, nofun⟩

theorem pthreadCondWaitSys_ok {k : Kernel T} (ok : KernelOk k)
    (ready : k.state k.currentThread = readyThread) (c m : Nat) :
    CallOk k (pthreadCondWaitSys c m k).1 (pthreadCondWaitSys c m k).2 := by
  obtain ⟨unlocked, _⟩ := mutexUnlock_sound ok m
  rcases pthreadCondWaitSys_cases c m k with ⟨_, eq⟩ | ⟨_, v, _, eq⟩ | ⟨_, _, eq⟩
  · rw [eq]
    exact ⟨ok.errno eperm, fun _ _ => ready⟩
  · rw [eq]
    have blocked := (ListOf.cond c).blockOn_ok unlocked.ok
    rw [unlocked.current] at blocked
    exact ⟨unlocked.trans blocked, nofun⟩
  · rw [eq]
    exact ⟨unlocked, nofun⟩

end

theorem semTake_ok {k : Kernel T} (ok : KernelOk k) (ready : k.state k.currentThread = readyThread)
    (s : Nat) : CallOk k (semTake s k).1 (semTake s k).2 :=
  ⟨ok.setSem rfl, fun _ _ => ready⟩

theorem semGive_ok {k : Kernel T} (ok : KernelOk k) (ready : k.state k.currentThread = readyThread)
    (s : Nat) : CallOk k (semGive s k).1 (semGive s k).2 := by
  unfold semGive
  split
  · exact ⟨ok.setSem rfl, fun _ _ => ready⟩
  · exact ⟨ok.errno erange, fun _ _ => ready⟩

theorem semWaitSys_ok {k : Kernel T} (ok : KernelOk k)
    (ready : k.state k.currentThread = readyThread) (s : Nat) :
    CallOk k (semWaitSys s k).1 (semWaitSys s k).2 := by
  unfold semWaitSys
  split
  · exact ⟨(ListOf.sem s).blockOn_ok ok, nofun⟩
  · exact semTake_ok ok ready s

theorem semTrywaitSys_ok {k : Kernel T} (ok : KernelOk k)
    (ready : k.state k.currentThread = readyThread) (s : Nat) :
    CallOk k (semTrywaitSys s k).1 (semTrywaitSys s k).2 := by
  unfold semTrywaitSys
  split
  · exact ⟨ok.errno eagain, fun _ _ => ready⟩
  · exact semTake_ok ok ready s

theorem semPostSys_ok {k : Kernel T} (ok : KernelOk k)
    (ready : k.state k.currentThread = readyThread) (s : Nat) :
    CallOk k (semPostSys s k).1 (semPostSys s k).2 := by
  obtain ⟨closed, taken⟩ := removeHead_closed (ok.refs.sems s)
  have stored : Sound k.currentThread k ((semWaiters s).removeHead k).1 :=
    (ListOf.sem s).store_ok ok closed
  unfold semPostSys
  split
  · split
    · rename_i w t removed
      rw [removed] at stored
      have alive : k.live t = true := taken t (congrArg Prod.snd removed)
      exact ⟨stored.trans (stored.ok.activate (stored.live t alive)), nofun⟩
    · rename_i w removed
      have kept : w.state k.currentThread = readyThread := by
        rw [← ready]
        exact congrArg (fun x => Kernel.state x.1 k.currentThread) removed.symm
      rw [removed] at stored
      have given := semGive_ok stored.ok (by rw [stored.current]; exact kept) s
      have sound := given.sound
      have stays := given.stays
      rw [stored.current] at sound stays
      exact ⟨stored.trans sound, stays⟩
  · exact semGive_ok ok ready s

theorem createPthreadStruct_refs {k : Kernel T} (refs : RefsLive k) (a : T) :
    RefsLive (createPthreadStruct (some a) k).1 := by
  have alive : ∀ u, k.live u = true →
      (createPthreadStruct (some a) k).1.live u = true := by
    intro u liveU
    simp only [createPthreadStruct, Function.update_apply]
    split
    · rfl
    · exact liveU
  have closed : ∀ (n : Links T) (h : Option T), Closed (fun u => k.live u = true) n h →
      Closed (fun u => (createPthreadStruct (some a) k).1.live u = true)
        (Function.update n a detached) h := by
    intro n h before
    refine ⟨fun u eq => alive u (before.1 u eq), ?_⟩
    intro t u next
    rw [Function.update_apply] at next
    split at next
    · cases next
    · exact alive u (before.2 t u next)
  refine ⟨fun m => closed _ _ (refs.mutexes m), fun c => closed _ _ (refs.conds c),
    fun s => closed _ _ (refs.sems s), ?_, ?_⟩
  · intro i u owner
    simp only [createPthreadStruct, allocKtimer] at owner
    split at owner
    · exact alive u (refs.owners i u owner)
    · simp only [Function.update_apply] at owner
      split at owner
      · cases owner
        simp [createPthreadStruct]
      · exact alive u (refs.owners i u owner)
  · intro t u joiner
    simp only [createPthreadStruct, Function.update_apply] at joiner
    split at joiner
    · cases joiner
    · exact alive u (refs.joiners t u joiner)

theorem KernelOk.create {a : T} {k : Kernel T} (ok : KernelOk k)
    (unused : k.live a = false ∨ k.state a ≠ readyThread) :
    Sound a k (createPthreadStruct (some a) k).1 := by
  obtain ⟨r, inv⟩ := ok.ready
  have live : ∀ u, k.live u = true → (createPthreadStruct (some a) k).1.live u = true := by
    intro u alive
    simp [createPthreadStruct, Function.update_apply, alive]
  refine ⟨⟨⟨_, createPthreadStruct_readyInv inv unused⟩, createPthreadStruct_refs ok.refs a,
    live _ ok.current, live _ ok.idle, ok.irq⟩, live, rfl, rfl, ?_⟩
  intro u alive other
  left
  simp [Kernel.state, createPthreadStruct, other]

theorem configureThread_only (t : T) (attr : Option PthreadAttr) (k : Kernel T) :
    SchedOnly k (configureThread t attr k) := by
  unfold configureThread
  cases attr <;> rfl

theorem configureThread_state (t u : T) (attr : Option PthreadAttr) (k : Kernel T) :
    (configureThread t attr k).state u = k.state u := by
  unfold configureThread
  cases attr with
  | none =>
    simp only [Kernel.state, Function.update_apply]
    split
    · rename_i same
      rw [same, getThreadState_policy, getThreadState_detach]
    · rfl
  | some a =>
    simp only [Kernel.state, Function.update_apply]
    split
    · rename_i same
      rw [same, getThreadState_policy, getThreadState_detach]
    · rfl

theorem configureThread_same (t : T) (attr : Option PthreadAttr) (k : Kernel T) :
    SameBut t k (configureThread t attr k) := by
  refine ⟨?_, ?_, ?_⟩
  · unfold configureThread
    cases attr <;> rfl
  · unfold configureThread
    cases attr <;> rfl
  · intro u other
    refine ⟨configureThread_state t u attr k, ?_⟩
    unfold configureThread
    cases attr <;> simp [Kernel.prio, other]

theorem pthreadCreateSys_at {k : Kernel T} (ok : KernelOk k) {a : T}
    (unused : k.live a = false ∨ k.state a ≠ readyThread) (stack : Bool) (attr : Option PthreadAttr) :
    Sound a k (pthreadCreateSys (some a) stack attr k).1 := by
  unfold pthreadCreateSys
  split
  · exact ok.errno einval
  · have created : Sound a k (createPthreadStruct (some a) k).1 := ok.create unused
    obtain ⟨r, inv⟩ := created.ok.ready
    have asleep : (createPthreadStruct (some a) k).1.state a ≠ readyThread := by
      simp [Kernel.state, createPthreadStruct]
    have configured : Sound a (createPthreadStruct (some a) k).1
        (configureThread a attr (createPthreadStruct (some a) k).1) := by
      refine created.ok.sched (configureThread_only a attr _) ⟨r, ?_⟩ ?_
      · apply inv.adjust (configureThread_same a attr _) asleep
        rw [configureThread_state]
        exact asleep
      · intro u _ _
        exact Or.inl (configureThread_state a u attr _)
    have sound := created.trans configured
    have alive : (configureThread a attr (createPthreadStruct (some a) k).1).live a = true := by
      rw [congrArg Kernel.live (configureThread_only a attr _)]
      simp [createPthreadStruct]
    simp only [createPthreadStruct]
    split
    · exact sound.trans (sound.ok.errno eagain)
    · exact sound.trans (sound.ok.activate alive)

theorem pthreadCreateSys_sound {k : Kernel T} (ok : KernelOk k) {addr : Option T}
    (unused : ∀ a, addr = some a → k.live a = false) (stack : Bool) (attr : Option PthreadAttr) (t : T) :
    Sound t k (pthreadCreateSys addr stack attr k).1 := by
  cases addr with
  | none =>
    unfold pthreadCreateSys
    split
    · exact ok.errno einval
    · exact ok.errno eagain
  | some a =>
    have sound := pthreadCreateSys_at ok (Or.inl (unused a rfl)) stack attr
    refine ⟨sound.ok, sound.live, sound.current, sound.idle, fun u alive _ => ?_⟩
    apply sound.others u alive
    rintro rfl
    rw [unused u rfl] at alive
    cases alive

theorem pthreadCreateSys_ready {k : Kernel T} (ok : KernelOk k)
    (ready : k.state k.currentThread = readyThread) {addr : Option T}
    (unused : ∀ a, addr = some a → k.live a = false) (stack : Bool) (attr : Option PthreadAttr) :
    (pthreadCreateSys addr stack attr k).1.state k.currentThread = readyThread := by
  cases addr with
  | none =>
    unfold pthreadCreateSys
    split
    · exact ready
    · exact ready
  | some a =>
    have other : k.currentThread ≠ a := by
      intro same
      have dead := unused a rfl
      rw [← same, ok.current] at dead
      cases dead
    have sound := pthreadCreateSys_sound ok unused stack attr a
    rcases sound.others k.currentThread ok.current other with same | ⟨_, woke⟩
    · rw [same, ready]
    · exact woke

theorem pthreadCreateSys_ok {k : Kernel T} (ok : KernelOk k)
    (ready : k.state k.currentThread = readyThread) {addr : Option T}
    (unused : ∀ a, addr = some a → k.live a = false) (stack : Bool) (attr : Option PthreadAttr) :
    CallOk k (pthreadCreateSys addr stack attr k).1 (pthreadCreateSys addr stack attr k).2 :=
  ⟨pthreadCreateSys_sound ok unused stack attr _,
    fun _ _ => pthreadCreateSys_ready ok ready unused stack attr⟩

theorem setPolicy_state (t : T) (policy : Int) (k : Kernel T) (u : T) :
    getThreadState (Function.update k.threadFlags t
      (setThreadPolicy (k.threadFlags t) (BitVec.ofInt 32 policy)) u) = k.state u := by
  rw [Function.update_apply]
  split
  · rename_i same
    rw [same, getThreadState_policy]
    rfl
  · rfl

theorem setParam_same (t : T) (policy : Int) (p : SchedParam) (k : Kernel T) :
    SameBut t k { k with
      threadFlags := Function.update k.threadFlags t
        (setThreadPolicy (k.threadFlags t) (BitVec.ofInt 32 policy))
      schedParam := Function.update k.schedParam t p } := by
  refine ⟨rfl, rfl, fun u other => ⟨setPolicy_state t policy k u, ?_⟩⟩
  simp [Kernel.prio, other]

theorem pthreadSetschedparamSys_ok {k : Kernel T} (ok : KernelOk k)
    (ready : k.state k.currentThread = readyThread) {t : T} (alive : k.live t = true) (policy : Int)
    (param : Option SchedParam) :
    CallOk k (pthreadSetschedparamSys t policy param k).1 (pthreadSetschedparamSys t policy param k).2 := by
  have states := setPolicy_state t policy k
  obtain ⟨r, inv⟩ := ok.ready
  unfold pthreadSetschedparamSys
  split
  · exact ⟨ok.errno esrch, fun _ _ => ready⟩
  · cases param with
    | none =>
      have policed : Sound k.currentThread k { k with
          threadFlags := Function.update k.threadFlags t
            (setThreadPolicy (k.threadFlags t) (BitVec.ofInt 32 policy)) } :=
        ok.sched rfl ⟨r, inv.alike rfl rfl fun u => ⟨states u, rfl⟩⟩ fun u _ _ => Or.inl (states u)
      exact ⟨policed.trans (policed.ok.errno einval), fun _ _ => (states _).trans ready⟩
    | some p =>
      refine ⟨ok.sched ?_ ?_ ?_, nofun⟩
      · have set : SchedOnly k { k with
            threadFlags := Function.update k.threadFlags t
              (setThreadPolicy (k.threadFlags t) (BitVec.ofInt 32 policy))
            schedParam := Function.update k.schedParam t p } := rfl
        exact set.trans (changeThreadPrio_only t p.schedPriority _)
      · obtain ⟨r', next, _⟩ :=
          changeThreadPrio_adjusted inv alive (setParam_same t policy p k) p.schedPriority
        exact ⟨r', next⟩
      · intro u _ _
        left
        simp only [Kernel.state, changeThreadPrio_flags]
        exact states u

theorem pthreadYieldSys_ok [Fintype T] {k : Kernel T} (ok : KernelOk k)
    (ready : k.state k.currentThread = readyThread) :
    CallOk k (pthreadYieldSys k).1 (pthreadYieldSys k).2 := by
  obtain ⟨r, inv⟩ := ok.ready
  refine ⟨ok.sched rfl ⟨_, yieldThread_readyInv inv ok.current ready⟩ ?_, nofun⟩
  intro u _ _
  exact Or.inl rfl

theorem KernelOk.woken_ok {P : T → Prop} {k w : Kernel T} (ok : KernelOk k)
    (ready : k.state k.currentThread = readyThread) (woken : Woken P k w)
    (alive : ∀ u, P u → k.live u = true)
    (owners : ∀ i u, (w.timerArray i).owner = some u → k.live u = true) (v : Int) :
    CallOk k w (.ret v) := by
  refine ⟨ok.woken woken alive owners, fun _ _ => ?_⟩
  rcases woken.state k.currentThread with same | ⟨_, _, woke⟩
  · rw [same, ready]
  · exact woke

omit [DecidableEq T] in
theorem OwnersKept.alive {k w : Kernel T} (kept : OwnersKept k w) (refs : RefsLive k) (i : Nat) (u : T)
    (owner : (w.timerArray i).owner = some u) : k.live u = true :=
  refs.owners i u ((kept i).1.symm.trans owner)

omit [DecidableEq T] in
theorem RefsLive.owns {k : Kernel T} (refs : RefsLive k) (u : T) (owns : OwnsTimer k u) :
    k.live u = true := by
  obtain ⟨i, owner⟩ := owns
  exact refs.owners i u owner

theorem pthreadKillSys_ok {k : Kernel T} (ok : KernelOk k)
    (ready : k.state k.currentThread = readyThread) {t : T} (alive : k.live t = true) (sig v : Int) :
    CallOk k (pthreadKillSys t sig k).1 (.ret v) := by
  apply ok.woken_ok ready (pthreadKillSys_woken t sig k) (fun u same => same ▸ alive)
  intro i u owner
  rw [(pthreadKillSys_timers t sig k).1] at owner
  exact ok.refs.owners i u owner

theorem pthreadCancelSys_ok {k : Kernel T} (ok : KernelOk k)
    (ready : k.state k.currentThread = readyThread) {t : T} (alive : k.live t = true) (v : Int) :
    CallOk k (pthreadCancelSys t k).1 (.ret v) := by
  unfold pthreadCancelSys
  split
  · exact ⟨ok.errno esrch, fun _ _ => ready⟩
  · exact pthreadKillSys_ok ok ready alive cancelSignal v

theorem pthreadExitSys_sound {k w : Kernel T} (ok : KernelOk k) (ran : pthreadExitSys k = .ok w) :
    Sound k.currentThread k w := by
  obtain ⟨freed, only, kept, timers, woken⟩ := pthreadExitSys_woken ran
  have first : Sound k.currentThread k freed := ok.book only (kept.alive ok.refs)
  have alive : freed.live k.currentThread = true := first.live _ ok.current
  have second : Sound k.currentThread k (finishThread k.currentThread freed) :=
    first.trans (first.ok.finish alive)
  refine second.trans (second.ok.woken woken ?_ ?_)
  · intro u joins
    exact second.live u (ok.refs.joiners _ u joins)
  · intro i u owner
    rw [timers] at owner
    exact second.live u (kept.alive ok.refs i u owner)

theorem Stopped.sound {k w : Kernel T} (ok : KernelOk k) (stopped : Stopped k w) :
    Sound k.currentThread k w := by
  cases stopped with
  | exited ran => exact pthreadExitSys_sound ok ran
  | slept => exact ok.suspend ok.current

theorem timerCreateSys_ok {k w : Kernel T} (ok : KernelOk k)
    (ready : k.state k.currentThread = readyThread) {clockid v : Int} {evp : Option Int}
    (ran : timerCreateSys clockid evp k = .ok (w, v)) : CallOk k w (.ret v) := by
  have only := timerCreateSys_book ran
  apply ok.woken_ok ready (P := fun _ => False) (.book only) nofun
  intro i u owner
  have allocated : ∀ clock j, ((allocKtimer clock k.currentThread .kill k.timerArray).1 j).owner =
      some u → k.live u = true := by
    intro clock j here
    simp only [allocKtimer] at here
    split at here
    · exact ok.refs.owners j u here
    · simp only [Function.update_apply] at here
      split at here
      · cases here
        exact ok.current
      · exact ok.refs.owners j u here
  unfold timerCreateSys at ran
  split at ran
  · cases ran
    exact ok.refs.owners i u owner
  · simp only [bind, pure, Except.pure] at ran
    split at ran
    · cases ran
      exact allocated _ i owner
    · rw [bind_ok] at ran
      obtain ⟨j, _, ran⟩ := ran
      cases ran
      simp only [setTimer, Function.update_apply] at owner
      split at owner
      · exact allocated _ j owner
      · exact allocated _ i owner

theorem timerDeleteSys_ok {k w : Kernel T} (ok : KernelOk k)
    (ready : k.state k.currentThread = readyThread) {id v : Int}
    (ran : timerDeleteSys id k = .ok (w, v)) : CallOk k w (.ret v) := by
  simp only [timerDeleteSys, bind, bind_ok, pure, Except.pure] at ran
  obtain ⟨unused, _, ran⟩ := ran
  split at ran
  · cases ran
    exact ⟨ok.errno eagain, fun _ _ => ready⟩
  · rw [bind_ok] at ran
    obtain ⟨x, freed, ran⟩ := ran
    cases ran
    obtain ⟨only, kept⟩ := freeKtimer_book freed
    exact ok.woken_ok ready (P := fun _ => False) (.book only) (fun _ => False.elim) (kept.alive ok.refs) 0

theorem timerSettimeSys_ok {fuel : Nat} {now : Nat → Clocks} {k w : Kernel T} (ok : KernelOk k)
    (ready : k.state k.currentThread = readyThread) {id v : Int} {flags : Word}
    {value o : Option Itimerspec} (ran : timerSettimeSys fuel now id flags value k = .ok (w, v, o)) :
    CallOk k w (.ret v) := by
  obtain ⟨woken, kept⟩ := timerSettimeSys_woken ran
  exact ok.woken_ok ready woken ok.refs.owns (kept.alive ok.refs) v

theorem sleepFor_sound {fuel : Nat} {now : Nat → Clocks} {d : Duration} {k w : Kernel T}
    (ok : KernelOk k) (ran : sleepFor fuel now d k = .ok w) : Sound k.currentThread k w := by
  obtain ⟨armed, only, kept, woken, kept'⟩ := sleepFor_woken ran
  have first : Sound k.currentThread k armed := ok.book only (kept.alive ok.refs)
  have second := first.trans (first.ok.suspend (first.live _ ok.current))
  refine second.trans (second.ok.woken woken ?_ ?_)
  · intro u owns
    exact second.live u (ok.refs.owns u owns)
  · intro i u owner
    exact second.live u (kept'.alive ok.refs i u owner)

theorem updateLoop_action (fuel : Nat) {now : Nat → Clocks} {r q : TimerRound T}
    (ran : updateLoop fuel now r = .ok q) : q.action = needReesched ∨ q = r := by
  refine updateLoop_invariant (P := fun q => q.action = needReesched ∨ q = r) fuel ?_ (Or.inr rfl) ran
  intro q n i ctime k action top _ _ _ served _
  exact Or.inl (serveTimer_woken served).2.2

theorem updateHwtimer_action {fuel : Nat} {now : Nat → Clocks} {k : Kernel T} {r : TimerRound T}
    (ran : updateHwtimer fuel now k = .ok r) : r.action = needReesched ∨ BookOnly k r.kernel := by
  obtain ⟨top, q, d, _, looped, rfl⟩ := updateHwtimer_loop ran
  rcases updateLoop_action fuel looped with asked | same
  · exact Or.inl asked
  · rw [same]
    exact Or.inr rfl

theorem Woken.irq {P : T → Prop} {k w : Kernel T} (woken : Woken P k w) (c : Word) :
    Woken P { k with irqNestingCounter := c } { w with irqNestingCounter := c } := by
  induction woken with
  | book only =>
    apply Woken.book
    unfold BookOnly at only ⊢
    rw [only]
  | @wake k t allowed =>
    have moved := activateThread_comm (t := t) (k := k)
      (fun k => { k with irqNestingCounter := c }) rfl rfl
    rw [← moved]
    exact .wake t allowed
  | trans first second ih ih' => exact ih.trans ih'

theorem scheduling_nested {now : Duration} {k : Kernel T}
    (inside : k.irqNestingCounter &&& outsideIrqs ≠ 0#32) :
    scheduling now k = { k with irqNestingCounter := k.irqNestingCounter ||| schedPending } :=
  if_pos inside

theorem doIrq_cases {fuel : Nat} {now : Nat → Clocks} {k w : Kernel T} {pr : Progress}
    (outside : k.irqNestingCounter = 0#32 ∨ k.irqNestingCounter = schedPending)
    (ran : doIrq fuel now k = .ok (w, pr)) :
    ∃ x, Woken (OwnsTimer k) k x ∧ OwnersKept k x ∧
      w = { x with irqNestingCounter := w.irqNestingCounter } ∧
      (w.irqNestingCounter = 0#32 ∨ w.irqNestingCounter = schedPending) ∧
      (pr = .sched (.leave 2) ∨ pr = .ret 0 ∧ BookOnly k x) := by
  simp only [doIrq, clockHandler, bind, bind_ok, pure, Except.pure, Except.ok.injEq,
    Prod.mk.injEq] at ran
  obtain ⟨handled, ⟨r, update, rfl⟩, rfl, rfl⟩ := ran
  obtain ⟨woken, kept⟩ := updateHwtimer_woken update
  have counter : r.kernel.irqNestingCounter = k.irqNestingCounter + 1#32 :=
    congrArg Kernel.irqNestingCounter woken.only
  refine ⟨{ r.kernel with irqNestingCounter := k.irqNestingCounter }, woken.irq k.irqNestingCounter,
    kept, ?_⟩
  have inside : r.kernel.irqNestingCounter &&& outsideIrqs ≠ 0#32 := by
    rw [counter]
    rcases outside with idle | waits
    · rw [idle]; decide
    · rw [waits]; decide
  by_cases asked : r.action = needReesched
  · have pending : (r.kernel.irqNestingCounter ||| schedPending) - 1#32 = schedPending := by
      rw [counter]
      rcases outside with idle | waits
      · rw [idle]; decide
      · rw [waits]; decide
    rw [if_pos asked, scheduling_nested inside]
    exact ⟨rfl, Or.inr pending, Or.inl (if_pos pending)⟩
  · have book : BookOnly _ r.kernel := (updateHwtimer_action update).resolve_left asked
    have back : r.kernel.irqNestingCounter - 1#32 = k.irqNestingCounter := by
      rw [counter, BitVec.add_sub_cancel]
    have only : BookOnly k { r.kernel with irqNestingCounter := k.irqNestingCounter } := by
      unfold BookOnly at book ⊢
      rw [book]
    rw [if_neg asked]
    refine ⟨rfl, ?_, ?_⟩
    · rw [← back] at outside
      exact outside
    · by_cases waits : r.kernel.irqNestingCounter - 1#32 = schedPending
      · exact Or.inl (if_pos waits)
      · exact Or.inr ⟨if_neg waits, only⟩

theorem doIrq_ok {fuel : Nat} {now : Nat → Clocks} {k w : Kernel T} {pr : Progress} (ok : KernelOk k)
    (ready : k.state k.currentThread = readyThread) (ran : doIrq fuel now k = .ok (w, pr)) :
    CallOk k w pr := by
  obtain ⟨x, woken, kept, only, irq, _⟩ := doIrq_cases ok.irq ran
  have first := ok.woken_ok ready woken ok.refs.owns (kept.alive ok.refs) 0
  obtain ⟨sound, stays⟩ := first
  obtain ⟨r, inv⟩ := sound.ok.ready
  have refs := sound.ok.refs
  have states : ∀ u, w.state u = x.state u := by
    intro u
    rw [only]
    rfl
  refine ⟨⟨⟨⟨r, ?_⟩, ?_, ?_, ?_, irq⟩, ?_, ?_, ?_, ?_⟩, ?_⟩
  · rw [only]
    exact inv.congr rfl rfl rfl rfl
  · rw [only]
    exact ⟨refs.mutexes, refs.conds, refs.sems, refs.owners, refs.joiners⟩
  · rw [only]
    exact sound.ok.current
  · rw [only]
    exact sound.ok.idle
  · rw [only]
    exact sound.live
  · rw [only]
    exact sound.current
  · rw [only]
    exact sound.idle
  · intro u alive other
    rw [states]
    exact sound.others u alive other
  · intro v _
    rw [states]
    exact stays 0 rfl

end L4ertl
