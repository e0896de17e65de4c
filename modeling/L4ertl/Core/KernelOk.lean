import L4ertl.Core.SyncFrame

/-!
The invariant of the kernel's data that every call relies on: the ready lists
agree with the thread states, and every thread that a wait list, a timer or a
join record refers to is a live one. `Sound` is what a piece of work of thread
`t` may do: keep that, and of the other threads' states only wake some.
-/
namespace L4ertl
open Intrusive

section
variable {T : Type}

def Closed (P : T → Prop) (n : Links T) (h : Option T) : Prop :=
  (∀ u, h = some u → P u) ∧ ∀ t u, (n t).next = some u → P u

structure RefsLive (k : Kernel T) : Prop where
  mutexes : ∀ m, Closed (fun u => k.live u = true) k.mutexNode (k.mutex m).mutexList
  conds : ∀ c, Closed (fun u => k.live u = true) k.condNode (k.cond c)
  sems : ∀ s, Closed (fun u => k.live u = true) k.semNode (k.sem s).semList
  owners : ∀ i u, (k.timerArray i).owner = some u → k.live u = true
  joiners : ∀ t u, k.joiningThread t = some u → k.live u = true

structure KernelOk (k : Kernel T) : Prop where
  ready : ∃ r, ReadyInv k r
  refs : RefsLive k
  current : k.live k.currentThread = true
  idle : k.live k.idleThread = true
  irq : k.irqNestingCounter = 0#32 ∨ k.irqNestingCounter = schedPending

structure Sound (t : T) (k w : Kernel T) : Prop where
  ok : KernelOk w
  live : ∀ u, k.live u = true → w.live u = true
  current : w.currentThread = k.currentThread
  idle : w.idleThread = k.idleThread
  others : ∀ u, k.live u = true → u ≠ t →
    w.state u = k.state u ∨ (k.state u ≠ finishedThread ∧ w.state u = readyThread)

theorem Sound.refl {t : T} {k : Kernel T} (ok : KernelOk k) : Sound t k k :=
  ⟨ok, fun _ alive => alive, rfl, rfl, fun _ _ _ => Or.inl rfl⟩

theorem Sound.trans {t : T} {k w x : Kernel T} (first : Sound t k w) (second : Sound t w x) :
    Sound t k x where
  ok := second.ok
  live u alive := second.live u (first.live u alive)
  current := second.current.trans first.current
  idle := second.idle.trans first.idle
  others u alive other := by
    rcases second.others u (first.live u alive) other with same | ⟨active, ready⟩
    · rw [same]
      exact first.others u alive other
    · rcases first.others u alive other with same' | ⟨active', _⟩
      · exact Or.inr ⟨same' ▸ active, ready⟩
      · exact Or.inr ⟨active', ready⟩

theorem RefsLive.sched {k w : Kernel T} (refs : RefsLive k) (only : SchedOnly k w) : RefsLive w := by
  unfold SchedOnly at only
  rw [only]
  exact ⟨refs.mutexes, refs.conds, refs.sems, refs.owners, refs.joiners⟩

theorem RefsLive.book {k w : Kernel T} (refs : RefsLive k) (only : BookOnly k w)
    (owners : ∀ i u, (w.timerArray i).owner = some u → k.live u = true) : RefsLive w := by
  unfold BookOnly at only
  rw [only]
  exact ⟨refs.mutexes, refs.conds, refs.sems, owners, refs.joiners⟩

theorem KernelOk.same {t : T} {k w : Kernel T} (ok : KernelOk k) (alive : w.live = k.live)
    (current : w.currentThread = k.currentThread) (idle : w.idleThread = k.idleThread)
    (irq : w.irqNestingCounter = k.irqNestingCounter) (ready : ∃ r, ReadyInv w r) (refs : RefsLive w)
    (others : ∀ u, k.live u = true → u ≠ t →
      w.state u = k.state u ∨ (k.state u ≠ finishedThread ∧ w.state u = readyThread)) :
    Sound t k w := by
  refine ⟨⟨ready, refs, ?_, ?_, ?_⟩, ?_, current, idle, others⟩
  · rw [alive, current]; exact ok.current
  · rw [alive, idle]; exact ok.idle
  · rw [irq]; exact ok.irq
  · intro u liveU; rw [alive]; exact liveU

theorem KernelOk.sched {t : T} {k w : Kernel T} (ok : KernelOk k) (only : SchedOnly k w)
    (ready : ∃ r, ReadyInv w r)
    (others : ∀ u, k.live u = true → u ≠ t →
      w.state u = k.state u ∨ (k.state u ≠ finishedThread ∧ w.state u = readyThread)) :
    Sound t k w := by
  have alive := congrArg Kernel.live only
  have current := congrArg Kernel.currentThread only
  have idle := congrArg Kernel.idleThread only
  have irq := congrArg Kernel.irqNestingCounter only
  exact ok.same alive current idle irq ready (ok.refs.sched only) others

theorem KernelOk.agree {t : T} {k w : Kernel T} (ok : KernelOk k)
    (lists : w.activeThreads = k.activeThreads) (alive : w.live = k.live)
    (flags : w.threadFlags = k.threadFlags) (param : w.schedParam = k.schedParam)
    (current : w.currentThread = k.currentThread) (idle : w.idleThread = k.idleThread)
    (irq : w.irqNestingCounter = k.irqNestingCounter) (refs : RefsLive w) : Sound t k w := by
  obtain ⟨r, inv⟩ := ok.ready
  exact ok.same alive current idle irq ⟨r, inv.congr lists alive flags param⟩ refs fun u _ _ =>
    Or.inl (Kernel.state_of_flags flags u)

theorem KernelOk.book {t : T} {k w : Kernel T} (ok : KernelOk k) (only : BookOnly k w)
    (owners : ∀ i u, (w.timerArray i).owner = some u → k.live u = true) : Sound t k w := by
  have lists := congrArg Kernel.activeThreads only
  have alive := congrArg Kernel.live only
  have flags := congrArg Kernel.threadFlags only
  have param := congrArg Kernel.schedParam only
  have current := congrArg Kernel.currentThread only
  have idle := congrArg Kernel.idleThread only
  have irq := congrArg Kernel.irqNestingCounter only
  exact ok.agree lists alive flags param current idle irq (ok.refs.book only owners)

theorem KernelOk.object {t : T} {k w : Kernel T} [DecidableEq T] (ok : KernelOk k)
    (only : ObjOnly k w) (refs : RefsLive w) : Sound t k w := by
  have lists := congrArg Kernel.activeThreads only
  have alive := congrArg Kernel.live only
  have flags := congrArg Kernel.threadFlags only
  have param := congrArg Kernel.schedParam only
  have current := congrArg Kernel.currentThread only
  have idle := congrArg Kernel.idleThread only
  have irq := congrArg Kernel.irqNestingCounter only
  exact ok.agree lists alive flags param current idle irq refs

end

variable {T : Type} [DecidableEq T]

theorem KernelOk.activate {t u : T} {k : Kernel T} (ok : KernelOk k) (alive : k.live u = true) :
    Sound t k (activateThread u k) := by
  obtain ⟨r, inv⟩ := ok.ready
  obtain ⟨r', next, _⟩ := activateThread_readyInv inv alive
  apply ok.sched (activateThread_only u k) ⟨r', next⟩
  intro v _ _
  rw [activateThread_state]
  split
  · rename_i woken
    rw [woken.1]
    exact Or.inr ⟨woken.2, rfl⟩
  · exact Or.inl rfl

theorem KernelOk.suspend {k : Kernel T} {t : T} (ok : KernelOk k) (alive : k.live t = true) :
    Sound t k (suspendThread t k) := by
  obtain ⟨r, inv⟩ := ok.ready
  apply ok.sched (suspendThread_only t k) ⟨_, suspendThread_readyInv inv alive⟩
  intro u _ other
  rw [suspendThread_state]
  simp [other]

theorem KernelOk.finish {k : Kernel T} {t : T} (ok : KernelOk k) (alive : k.live t = true) :
    Sound t k (finishThread t k) := by
  obtain ⟨r, inv⟩ := ok.ready
  apply ok.sched (finishThread_only t k) ⟨_, finishThread_readyInv inv alive⟩
  intro u _ other
  rw [finishThread_state]
  simp [other]

theorem KernelOk.changePrio {t u : T} {k : Kernel T} (ok : KernelOk k) (alive : k.live u = true)
    (p : Int) : Sound t k (changeThreadPrio u p k) := by
  obtain ⟨r, inv⟩ := ok.ready
  obtain ⟨r', next, _⟩ := changeThreadPrio_readyInv inv alive p
  apply ok.sched (changeThreadPrio_only u p k) ⟨r', next⟩
  intro v _ _
  left
  simp [Kernel.state, changeThreadPrio_flags]

theorem KernelOk.errno {t : T} {k : Kernel T} (ok : KernelOk k) (e : Int) :
    Sound t k (setErrno e k) := ok.book rfl ok.refs.owners

inductive ListOf : WaitList T → Prop where
  | mutex (m : Nat) : ListOf (mutexWaiters m)
  | cond (c : Nat) : ListOf (condWaiters c)
  | sem (s : Nat) : ListOf (semWaiters s)

theorem ListOf.closed {l : WaitList T} (kind : ListOf l) {k : Kernel T} (refs : RefsLive k) :
    Closed (fun u => k.live u = true) (l.nodes k) (l.head k) := by
  cases kind with
  | mutex m => exact refs.mutexes m
  | cond c => exact refs.conds c
  | sem s => exact refs.sems s

omit [DecidableEq T] in
theorem closed_update {P : T → Prop} {n n' : Links T} {heads : Nat → Option T} {i : Nat}
    {h : Option T} (all : ∀ j, Closed P n (heads j)) (closed : Closed P n' h) (j : Nat) :
    Closed P n' (if j = i then h else heads j) := by
  refine ⟨?_, closed.2⟩
  split
  · exact closed.1
  · exact (all j).1

theorem ListOf.store_ok {l : WaitList T} (kind : ListOf l) {t : T} {k : Kernel T} (ok : KernelOk k)
    {n : Links T} {h : Option T} (closed : Closed (fun u => k.live u = true) n h) :
    Sound t k (l.store n h k) := by
  apply ok.object (l.store_only n h k)
  cases kind with
  | mutex m =>
    refine ⟨?_, ok.refs.conds, ok.refs.sems, ok.refs.owners, ok.refs.joiners⟩
    intro j
    have next := closed_update (i := m) ok.refs.mutexes closed j
    have head : (((mutexWaiters m).store n h k).mutex j).mutexList =
        if j = m then h else (k.mutex j).mutexList := by
      simp only [mutexWaiters, setMutex, Function.update_apply]
      split <;> rfl
    rw [head]
    exact next
  | cond c =>
    refine ⟨ok.refs.mutexes, ?_, ok.refs.sems, ok.refs.owners, ok.refs.joiners⟩
    intro j
    have next := closed_update (i := c) ok.refs.conds closed j
    have head : ((condWaiters c).store n h k).cond j = if j = c then h else k.cond j := by
      simp only [condWaiters, Function.update_apply]
    rw [head]
    exact next
  | sem s =>
    refine ⟨ok.refs.mutexes, ok.refs.conds, ?_, ok.refs.owners, ok.refs.joiners⟩
    intro j
    have next := closed_update (i := s) ok.refs.sems closed j
    have head : (((semWaiters s).store n h k).sem j).semList =
        if j = s then h else (k.sem j).semList := by
      simp only [semWaiters, setSem, Function.update_apply]
      split <;> rfl
    rw [head]
    exact next

theorem insert_closed {P : T → Prop} {n : Links T} {h : Option T} {p : T} (closed : Closed P n h)
    (allowed : P p) :
    Closed P (insertPthreadList n h p).1 (insertPthreadList n h p).2 := by
  refine ⟨fun u eq => by cases eq; exact allowed, ?_⟩
  intro t u next
  simp only [insertPthreadList, setNext_apply] at next
  split at next
  · exact closed.1 u next
  · rw [patchPrev_apply] at next
    split at next
    · exact closed.2 t u next
    · exact closed.2 t u next

theorem removeHead_closed {P : T → Prop} {n : Links T} {h : Option T} (closed : Closed P n h) :
    Closed P (removeHeadPthreadList n h).1 (removeHeadPthreadList n h).2.1 ∧
      ∀ u, (removeHeadPthreadList n h).2.2 = some u → P u := by
  have patched : ∀ rest t u, (patchPrev n rest none t).next = some u → P u := by
    intro rest t u next
    rw [patchPrev_apply] at next
    split at next
    · exact closed.2 t u next
    · exact closed.2 t u next
  cases h with
  | none =>
    constructor
    · exact ⟨nofun, closed.2⟩
    · exact nofun
  | some p =>
    refine ⟨⟨fun u eq => closed.2 p u eq, ?_⟩, fun u eq => by cases eq; exact closed.1 p rfl⟩
    intro t u next
    simp only [removeHeadPthreadList, Function.update_apply] at next
    split at next
    · cases next
    · exact patched _ t u next

theorem unlinkAll_closed (fuel : Nat) {P : T → Prop} {n : Links T} {h : Option T}
    (closed : Closed P n h) :
    Closed P (unlinkAll fuel n h).1 (unlinkAll fuel n h).2.1 ∧
      ∀ t ∈ (unlinkAll fuel n h).2.2, P t := by
  induction fuel generalizing n h with
  | zero => exact ⟨closed, fun t member => by cases member⟩
  | succ fuel ih =>
    obtain ⟨closed', taken⟩ := removeHead_closed closed
    unfold unlinkAll
    cases removed : removeHeadPthreadList n h with
    | mk n' rest =>
      obtain ⟨h', thread⟩ := rest
      rw [removed] at closed' taken
      cases thread with
      | none => exact ⟨closed', fun t member => by cases member⟩
      | some t =>
        obtain ⟨final, all⟩ := ih closed'
        refine ⟨final, ?_⟩
        intro u member
        rcases List.mem_cons.mp member with same | later
        · rw [same]; exact taken t rfl
        · exact all u later

theorem ListOf.blockOn_ok {l : WaitList T} (kind : ListOf l) {k : Kernel T} (ok : KernelOk k) :
    Sound k.currentThread k (blockOn l k) := by
  have suspended := ok.suspend ok.current
  have closed := insert_closed (kind.closed suspended.ok.refs) (suspended.live _ ok.current)
  exact suspended.trans (kind.store_ok suspended.ok closed)

theorem KernelOk.activateAll {t : T} {k : Kernel T} (ok : KernelOk k) {ts : List T}
    (alive : ∀ u ∈ ts, k.live u = true) : Sound t k (activateAll ts k) := by
  induction ts generalizing k with
  | nil => exact .refl ok
  | cons u ts ih =>
    have first : Sound t k (activateThread u k) := ok.activate (alive u (by simp))
    exact first.trans (ih first.ok (fun v member => first.live v (alive v (by simp [member]))))

theorem ListOf.drain_ok [Fintype T] {l : WaitList T} (kind : ListOf l) {t : T} {k : Kernel T}
    (ok : KernelOk k) : Sound t k (drain l k) := by
  unfold drain
  rw [l.wakeAll_eq]
  obtain ⟨closed, alive⟩ := unlinkAll_closed (Fintype.card T + 1) (kind.closed ok.refs)
  have woken : Sound t k (L4ertl.activateAll _ k) := ok.activateAll alive
  refine woken.trans (kind.store_ok woken.ok ?_)
  exact ⟨fun u eq => woken.live u (closed.1 u eq), fun v u eq => woken.live u (closed.2 v u eq)⟩

theorem KernelOk.woken {t : T} {P : T → Prop} {k w : Kernel T} (ok : KernelOk k)
    (woken : Woken P k w) (alive : ∀ u, P u → k.live u = true)
    (owners : ∀ i u, (w.timerArray i).owner = some u → k.live u = true) : Sound t k w := by
  have only := woken.only
  have liveEq := congrArg Kernel.live only
  have current := congrArg Kernel.currentThread only
  have idle := congrArg Kernel.idleThread only
  have irq := congrArg Kernel.irqNestingCounter only
  obtain ⟨r, inv⟩ := ok.ready
  obtain ⟨r', next⟩ := woken.readyInv alive inv
  have refs : RefsLive w := by
    unfold WakeOnly at only
    rw [only]
    exact ⟨ok.refs.mutexes, ok.refs.conds, ok.refs.sems, owners, ok.refs.joiners⟩
  refine ⟨⟨⟨r', next⟩, refs, ?_, ?_, ?_⟩, ?_, current, idle, ?_⟩
  · rw [liveEq, current]; exact ok.current
  · rw [liveEq, idle]; exact ok.idle
  · rw [irq]; exact ok.irq
  · intro u liveU; rw [liveEq]; exact liveU
  · intro u _ _
    rcases woken.state u with same | ⟨_, active, ready⟩
    · exact Or.inl same
    · exact Or.inr ⟨active, ready⟩

end L4ertl
