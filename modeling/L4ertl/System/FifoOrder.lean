import L4ertl.System.SystemOk

/-!
The order of READY threads of one priority. A thread that is activated goes to
the front of its list, one that yields to the back; so the order of a list tells
when its threads were activated or yielded last, and `scheduling` follows the
order of these events only where activations do not overtake.
-/
namespace L4ertl
open Intrusive
variable {T : Type} [DecidableEq T]

inductive FifoOp (T : Type) where
  | activate (thread : T)
  | suspend (thread : T)
  | finish (thread : T)
  | yield (now : Duration)
  | scheduling (now : Duration)
  deriving DecidableEq, Repr

/-- The kernel with the history that the order is about: for each thread when it
    last became READY or yielded, and whether it was the second. -/
structure FifoState (T : Type) where
  kernel : Kernel T
  clock : Nat
  since : T → Nat
  yielded : T → Bool

def FifoState.note (s : FifoState T) (t : T) (yielded : Bool) (k : Kernel T) : FifoState T where
  kernel := k
  clock := s.clock + 1
  since := Function.update s.since t (s.clock + 1)
  yielded := Function.update s.yielded t yielded

def FifoState.activate (s : FifoState T) (t : T) : FifoState T :=
  if s.kernel.state t ≠ finishedThread ∧ s.kernel.state t ≠ readyThread then
    s.note t false (activateThread t s.kernel)
  else { s with kernel := activateThread t s.kernel }

def FifoState.yieldThread [Fintype T] (s : FifoState T) : FifoState T :=
  s.note s.kernel.currentThread true (L4ertl.yieldThread s.kernel)

def FifoState.scheduling (s : FifoState T) (now : Duration) : FifoState T :=
  { s with kernel := L4ertl.scheduling now s.kernel }

def FifoState.step [Fintype T] (s : FifoState T) : FifoOp T → Option (FifoState T × List Unit)
  | .activate t => if s.kernel.live t then some (s.activate t, []) else none
  | .suspend t =>
    if s.kernel.live t then some ({ s with kernel := suspendThread t s.kernel }, []) else none
  | .finish t =>
    if s.kernel.live t then some ({ s with kernel := finishThread t s.kernel }, []) else none
  | .yield now =>
    if s.kernel.live s.kernel.currentThread ∧
        s.kernel.state s.kernel.currentThread = readyThread then
      some (s.yieldThread.scheduling now, [])
    else none
  | .scheduling now => some (s.scheduling now, [])

/-- The state in which the operation calls `scheduling`, if it does. -/
def FifoState.calls [Fintype T] (s : FifoState T) : FifoOp T → Option (FifoState T)
  | .yield _ => some s.yieldThread
  | .scheduling _ => some s
  | _ => none

/-- The thread that runs has waited for its turn at least as long as any other
    READY thread of its priority. -/
def FifoState.InTurn (s : FifoState T) : Prop :=
  ∀ t, s.kernel.live t = true → s.kernel.state t = readyThread →
    s.kernel.prio t = s.kernel.prio s.kernel.currentThread →
    s.since s.kernel.currentThread ≤ s.since t

/-- Among READY threads of one priority no activation has overtaken: beside a
    thread that has not yielded since it was activated there are only threads
    that yielded after that. -/
def FifoState.NoneOvertaken (s : FifoState T) : Prop :=
  ∀ t u, t ≠ u → s.kernel.live t = true → s.kernel.state t = readyThread →
    s.kernel.live u = true → s.kernel.state u = readyThread → s.kernel.prio t = s.kernel.prio u →
    (∀ v, s.kernel.live v = true → s.kernel.state v = readyThread →
      ij2prio (prio2ij (s.kernel.prio t)) ≤ ij2prio (prio2ij (s.kernel.prio v))) →
    s.yielded t = false → s.yielded u = true ∧ s.since t ≤ s.since u

def FifoState.Before (s : FifoState T) (t u : T) : Prop :=
  (s.yielded t = false ∧ s.yielded u = false ∧ s.since u < s.since t) ∨
  (s.yielded t = false ∧ s.yielded u = true) ∨
  (s.yielded t = true ∧ s.yielded u = true ∧ s.since t < s.since u)

structure FifoInv (s : FifoState T) (r : ReadyModel T) : Prop where
  ready : ReadyInv s.kernel r
  irq : s.kernel.irqNestingCounter = 0#32 ∨ s.kernel.irqNestingCounter = schedPending
  past : ∀ t, s.since t ≤ s.clock
  order : ∀ c, (r.lists c).Pairwise s.Before

theorem FifoState.note_past {s : FifoState T} {k : Kernel T} {t : T} {y : Bool}
    (past : ∀ u, s.since u ≤ s.clock) (u : T) : (s.note t y k).since u ≤ (s.note t y k).clock := by
  have old := past u
  simp only [FifoState.note, Function.update_apply]
  split <;> omega

theorem FifoState.note_others {s : FifoState T} {k : Kernel T} {t : T} {y : Bool} {xs : List T}
    (absent : t ∉ xs) (order : xs.Pairwise s.Before) : xs.Pairwise (s.note t y k).Before := by
  refine List.Pairwise.imp_of_mem ?_ order
  intro u v memberU memberV before
  have otherU : u ≠ t := fun same => absent (same ▸ memberU)
  have otherV : v ≠ t := fun same => absent (same ▸ memberV)
  simp only [FifoState.Before, FifoState.note, Function.update_of_ne otherU,
    Function.update_of_ne otherV]
  exact before

theorem FifoState.note_front {s : FifoState T} {k : Kernel T} {t u : T}
    (past : ∀ v, s.since v ≤ s.clock) (other : u ≠ t) : (s.note t false k).Before t u := by
  have old := past u
  cases how : s.yielded u with
  | false =>
    left
    simp only [FifoState.note, Function.update_self, Function.update_of_ne other]
    exact ⟨trivial, how, by omega⟩
  | true =>
    right; left
    simp only [FifoState.note, Function.update_self, Function.update_of_ne other]
    exact ⟨trivial, how⟩

theorem FifoState.note_back {s : FifoState T} {k : Kernel T} {t u : T}
    (past : ∀ v, s.since v ≤ s.clock) (other : u ≠ t) : (s.note t true k).Before u t := by
  have old := past u
  cases how : s.yielded u with
  | false =>
    right; left
    simp only [FifoState.note, Function.update_self, Function.update_of_ne other]
    exact ⟨how, trivial⟩
  | true =>
    right; right
    simp only [FifoState.note, Function.update_self, Function.update_of_ne other]
    exact ⟨how, trivial, by omega⟩

theorem FifoInv.removed {s : FifoState T} {r : ReadyModel T} (inv : FifoInv s r) {k : Kernel T} {t : T}
    (ready : ReadyInv k (SsOp.model r (.remove t))) (only : SchedOnly s.kernel k) :
    FifoInv { s with kernel := k } (SsOp.model r (.remove t)) where
  ready := ready
  irq := by
    have irq := congrArg Kernel.irqNestingCounter only
    rw [irq]
    exact inv.irq
  past := inv.past
  order c := (inv.order c).sublist List.erase_sublist

theorem FifoInv.activate {s : FifoState T} {r : ReadyModel T} (inv : FifoInv s r) {t : T}
    (alive : s.kernel.live t = true) : ∃ r', FifoInv (s.activate t) r' := by
  have irq := congrArg Kernel.irqNestingCounter (activateThread_only t s.kernel)
  unfold FifoState.activate
  split
  · rename_i wake
    have absent := inv.ready.absent (Or.inr wake.2)
    refine ⟨_, activateThread_inserts inv.ready alive wake, ?_, FifoState.note_past inv.past, fun c => ?_⟩
    · simp only [FifoState.note]
      rw [irq]
      exact inv.irq
    · simp only [SsOp.model, Function.update_apply]
      split
      · rename_i same
        rw [← same]
        refine List.pairwise_cons.mpr ⟨fun u member => ?_, FifoState.note_others (absent c) (inv.order c)⟩
        exact FifoState.note_front inv.past fun same => absent c (same ▸ member)
      · exact FifoState.note_others (absent c) (inv.order c)
  · rename_i still
    rw [activateThread_keeps still]
    exact ⟨r, inv⟩

theorem FifoInv.yieldThread [Fintype T] {s : FifoState T} {r : ReadyModel T} (inv : FifoInv s r)
    (alive : s.kernel.live s.kernel.currentThread = true)
    (ready : s.kernel.state s.kernel.currentThread = readyThread) :
    ∃ r', FifoInv s.yieldThread r' := by
  refine ⟨_, yieldThread_readyInv inv.ready alive ready, inv.irq, FifoState.note_past inv.past,
    fun c => ?_⟩
  have absent : s.kernel.currentThread ∉ (r.lists c).erase s.kernel.currentThread :=
    (inv.ready.rep.nodup c).not_mem_erase
  have rest := (inv.order c).sublist (List.erase_sublist (a := s.kernel.currentThread))
  simp only [SsOp.model, Function.update_apply]
  split
  · rename_i same
    rw [← same, List.pairwise_append]
    refine ⟨FifoState.note_others absent rest, List.pairwise_singleton _ _, ?_⟩
    intro u member v last
    rw [List.mem_singleton.mp last]
    exact FifoState.note_back inv.past fun same => absent (same ▸ member)
  · exact FifoState.note_others absent rest

theorem scheduling_irq {k : Kernel T}
    (outside : k.irqNestingCounter = 0#32 ∨ k.irqNestingCounter = schedPending) (now : Duration) :
    (scheduling now k).irqNestingCounter = 0#32 ∨
      (scheduling now k).irqNestingCounter = schedPending := by
  have free := outside_free outside
  simp only [scheduling, if_neg free]
  split
  · simp only [contextSwitchTo, allocKstack]
    split
    · exact outside
    · exact Or.inl rfl
  · exact Or.inl rfl

theorem FifoInv.switched {s : FifoState T} {r : ReadyModel T} (inv : FifoInv s r) (now : Duration) :
    FifoInv (s.scheduling now) r := by
  have only := scheduling_only now s.kernel
  exact ⟨only.readyInv inv.ready, scheduling_irq inv.irq now, inv.past, inv.order⟩

theorem fifoInv_step [Fintype T] {s x : FifoState T} {r : ReadyModel T} {op : FifoOp T}
    {es : List Unit} (inv : FifoInv s r) (taken : s.step op = some (x, es)) : ∃ r', FifoInv x r' := by
  cases op with
  | activate t =>
    simp only [FifoState.step] at taken
    split at taken
    · rename_i alive
      cases taken
      exact inv.activate alive
    · cases taken
  | suspend t =>
    simp only [FifoState.step] at taken
    split at taken
    · rename_i alive
      cases taken
      exact ⟨_, inv.removed (suspendThread_readyInv inv.ready alive) (suspendThread_only t s.kernel)⟩
    · cases taken
  | finish t =>
    simp only [FifoState.step] at taken
    split at taken
    · rename_i alive
      cases taken
      exact ⟨_, inv.removed (finishThread_readyInv inv.ready alive) (finishThread_only t s.kernel)⟩
    · cases taken
  | yield now =>
    simp only [FifoState.step] at taken
    split at taken
    · rename_i current
      cases taken
      obtain ⟨r', next⟩ := inv.yieldThread current.1 current.2
      exact ⟨r', next.switched now⟩
    · cases taken
  | scheduling now =>
    cases taken
    exact ⟨r, inv.switched now⟩

theorem FifoInv.picks {s : FifoState T} {r : ReadyModel T} (inv : FifoInv s r) (now : Duration)
    {t : T} (alive : s.kernel.live t = true) (ready : s.kernel.state t = readyThread) :
    let x := (scheduling now s.kernel).currentThread
    s.kernel.live x = true ∧ s.kernel.state x = readyThread ∧
      (∀ v, s.kernel.live v = true → s.kernel.state v = readyThread →
        ij2prio (prio2ij (s.kernel.prio x)) ≤ ij2prio (prio2ij (s.kernel.prio v))) ∧
      ∀ u, s.kernel.live u = true → s.kernel.state u = readyThread →
        prio2ij (s.kernel.prio u) = prio2ij (s.kernel.prio x) → u ≠ x → s.Before x u := by
  intro x
  have queued : t ∈ r.lists (prio2ij (s.kernel.prio t)) := (inv.ready.listed _ _).mpr ⟨alive, ready, rfl⟩
  obtain ⟨⟨c, head, least⟩, _⟩ := scheduling_head inv.ready inv.irq (List.ne_nil_of_mem queued) now
  obtain ⟨live, runs, cell⟩ := (inv.ready.listed _ _).mp (List.mem_of_mem_head? head)
  refine ⟨live, runs, fun v liveV readyV => ?_, fun u liveU readyU same other => ?_⟩
  · have listed : v ∈ r.lists (prio2ij (s.kernel.prio v)) := (inv.ready.listed _ _).mpr ⟨liveV, readyV, rfl⟩
    have order := least _ (List.ne_nil_of_mem listed)
    rw [cell] at order
    exact order
  · have listed : u ∈ r.lists c := (inv.ready.listed _ _).mpr ⟨liveU, readyU, cell.trans same.symm⟩
    have order := inv.order c
    cases shape : r.lists c with
    | nil =>
      rw [shape] at listed
      cases listed
    | cons first rest =>
      rw [shape] at head listed order
      cases head
      rcases List.mem_cons.mp listed with self | later
      · exact absurd self other
      · exact (List.pairwise_cons.mp order).1 u later

section
variable {s : FifoState T} {r : ReadyModel T}

theorem FifoInv.in_turn (inv : FifoInv s r) (now : Duration) (fair : s.NoneOvertaken) :
    (s.scheduling now).InTurn := by
  have only := scheduling_only now s.kernel
  have live := congrArg Kernel.live only
  have param := congrArg Kernel.schedParam only
  intro t alive ready same
  simp only [FifoState.scheduling] at alive ready same ⊢
  rw [live] at alive
  rw [only.state] at ready
  simp only [Kernel.prio] at same
  rw [param] at same
  obtain ⟨liveX, readyX, top, before⟩ := inv.picks now alive ready
  by_cases self : t = (scheduling now s.kernel).currentThread
  · rw [self]
  · have prio : s.kernel.prio (scheduling now s.kernel).currentThread = s.kernel.prio t := same.symm
    rcases before t alive ready (by rw [prio]) self with ⟨front, _, _⟩ | ⟨front, _⟩ | ⟨_, _, order⟩
    · exact (fair _ t (Ne.symm self) liveX readyX alive ready prio top front).2
    · exact (fair _ t (Ne.symm self) liveX readyX alive ready prio top front).2
    · exact Nat.le_of_lt order

theorem FifoInv.none_overtaken (inv : FifoInv s r) (now : Duration)
    (range : ∀ t, s.kernel.live t = true → 0 ≤ s.kernel.prio t ∧ s.kernel.prio t ≤ 1023)
    (turn : (s.scheduling now).InTurn) : s.NoneOvertaken := by
  have only := scheduling_only now s.kernel
  have live := congrArg Kernel.live only
  have param := congrArg Kernel.schedParam only
  intro t u other aliveT readyT aliveU readyU same top front
  obtain ⟨liveX, readyX, topX, before⟩ := inv.picks now aliveT readyT
  -- `t` has the most urgent priority, so it is in the list of the thread picked
  have level : ∀ v, s.kernel.live v = true → s.kernel.prio v = s.kernel.prio t →
      prio2ij (s.kernel.prio v) = prio2ij (s.kernel.prio (scheduling now s.kernel).currentThread) := by
    intro v _ prio
    rw [prio]
    exact ij2prio_injective (Int.le_antisymm (top _ liveX readyX) (topX t aliveT readyT))
  have rangeT := range t aliveT
  have rangeX := range _ liveX
  have prio : s.kernel.prio t = s.kernel.prio (scheduling now s.kernel).currentThread := by
    have cells := level t aliveT rfl
    simp only [prio2ij, Prod.mk.injEq, Fin.ext_iff, Fin.val_ofNat] at cells
    omega
  have turns : ∀ v, s.kernel.live v = true → s.kernel.state v = readyThread →
      s.kernel.prio v = s.kernel.prio t →
      s.since (scheduling now s.kernel).currentThread ≤ s.since v := by
    intro v liveV readyV sameV
    apply turn v
    · simp only [FifoState.scheduling]
      rw [live]
      exact liveV
    · simp only [FifoState.scheduling]
      rw [only.state]
      exact readyV
    · simp only [FifoState.scheduling, Kernel.prio]
      rw [param]
      exact sameV.trans prio
  by_cases self : t = (scheduling now s.kernel).currentThread
  · have turnU := turns u aliveU readyU same.symm
    rw [← self] at turnU
    have order := before u aliveU readyU (level u aliveU same.symm) (fun eq => other (self.trans eq.symm))
    rw [← self] at order
    rcases order with ⟨_, _, later⟩ | ⟨_, back⟩ | ⟨back, _⟩
    · omega
    · exact ⟨back, turnU⟩
    · rw [front] at back
      cases back
  · have turnT := turns t aliveT readyT rfl
    rcases before t aliveT readyT (level t aliveT rfl) self with ⟨_, _, later⟩ | ⟨_, back⟩ | ⟨_, back, _⟩
    · omega
    · rw [front] at back
      cases back
    · rw [front] at back
      cases back

end

variable [Fintype T]

def FifoState.start (k : Kernel T) : FifoState T := ⟨k, 0, fun _ => 0, fun _ => false⟩

theorem fifoInv_run {k : Kernel T} (ready : ∃ r, ReadyInv k r)
    (irq : k.irqNestingCounter = 0#32 ∨ k.irqNestingCounter = schedPending)
    (asleep : ∀ t, k.live t = true → k.state t ≠ readyThread) {ops : List (FifoOp T)}
    {x : FifoState T} {es : List Unit}
    (run : Lts.exec FifoState.step (FifoState.start k) ops = some (x, es)) : ∃ r, FifoInv x r := by
  obtain ⟨r, inv⟩ := ready
  have empty : ∀ c, r.lists c = [] := by
    intro c
    apply List.eq_nil_iff_forall_not_mem.mpr
    intro t member
    obtain ⟨alive, wakes, _⟩ := (inv.listed t c).mp member
    exact asleep t alive wakes
  have start : ∃ r, FifoInv (FifoState.start k) r := by
    refine ⟨r, inv, irq, fun _ => Nat.le_refl 0, fun c => ?_⟩
    rw [empty c]
    exact List.Pairwise.nil
  exact Lts.exec_always (fun s => ∃ r, FifoInv s r)
    (fun _ _ _ _ kept taken => kept.elim fun _ inv => fifoInv_step inv taken) ops start run

/-- Whenever `scheduling` is called in a run, it picks a thread in its turn if no
    activation has overtaken at the most urgent priority; with priorities in
    range, only then. -/
theorem fifo_in_turn_iff (k : Kernel T) (ready : ∃ r, ReadyInv k r)
    (irq : k.irqNestingCounter = 0#32 ∨ k.irqNestingCounter = schedPending)
    (asleep : ∀ t, k.live t = true → k.state t ≠ readyThread) (ops : List (FifoOp T))
    (x : FifoState T) (es : List Unit)
    (run : Lts.exec FifoState.step (FifoState.start k) ops = some (x, es)) (op : FifoOp T)
    (w y : FifoState T) (calls : x.calls op = some w) (taken : x.step op = some (y, [])) :
    (w.NoneOvertaken → y.InTurn) ∧
    ((∀ t, w.kernel.live t = true → 0 ≤ w.kernel.prio t ∧ w.kernel.prio t ≤ 1023) →
      y.InTurn → w.NoneOvertaken) := by
  obtain ⟨r, inv⟩ := fifoInv_run ready irq asleep run
  have switch : ∃ now r', y = w.scheduling now ∧ FifoInv w r' := by
    cases op with
    | yield now =>
      cases calls
      simp only [FifoState.step] at taken
      split at taken
      · rename_i current
        cases taken
        obtain ⟨r', next⟩ := inv.yieldThread current.1 current.2
        exact ⟨now, r', rfl, next⟩
      · cases taken
    | scheduling now =>
      cases calls
      cases taken
      exact ⟨now, r, rfl, inv⟩
    | activate t => cases calls
    | suspend t => cases calls
    | finish t => cases calls
  obtain ⟨now, r', rfl, before⟩ := switch
  exact ⟨before.in_turn now, before.none_overtaken now⟩

instance (s : FifoState T) : Decidable s.NoneOvertaken :=
  inferInstanceAs (Decidable (∀ t u, t ≠ u → s.kernel.live t = true → s.kernel.state t = readyThread →
    s.kernel.live u = true → s.kernel.state u = readyThread → s.kernel.prio t = s.kernel.prio u →
    (∀ v, s.kernel.live v = true → s.kernel.state v = readyThread →
      ij2prio (prio2ij (s.kernel.prio t)) ≤ ij2prio (prio2ij (s.kernel.prio v))) →
    s.yielded t = false → s.yielded u = true ∧ s.since t ≤ s.since u))

def twoAsleep : Kernel (Fin 3) :=
  [ThreadOp.create 0, .changePrio 0 1023, .create 1, .changePrio 1 5, .create 2, .changePrio 2 5].foldl
    ThreadOp.run (bootKernel 0)

theorem twoAsleep_ready : ∃ r, ReadyInv twoAsleep r :=
  threadOps_readyInv _ (Booted.readyInv ⟨fun _ => rfl, zeroedThreads, rfl⟩) (by decide)

theorem fifo_in_turn_iff_two :
    ∃ x w y, Lts.exec FifoState.step (FifoState.start twoAsleep)
        [.activate 1, .scheduling 0, .activate 2] = some (x, []) ∧
      x.calls (.yield 0) = some w ∧ x.step (.yield 0) = some (y, []) ∧ y.kernel.currentThread = 2 ∧
      y.InTurn := by
  have final : ((Lts.exec FifoState.step (FifoState.start twoAsleep)
      [.activate 1, .scheduling 0, .activate 2]).bind fun r =>
      (r.1.calls (.yield 0)).bind fun w => (r.1.step (.yield 0)).map fun q =>
        (r.2, decide w.NoneOvertaken, q.2, q.1.kernel.currentThread)) = some ([], true, [], 2) := by
    decide +kernel
  obtain ⟨⟨x, es⟩, run, rest⟩ := Option.bind_eq_some_iff.mp final
  obtain ⟨w, calls, rest⟩ := Option.bind_eq_some_iff.mp rest
  obtain ⟨⟨y, first⟩, taken, there⟩ := Option.map_eq_some_iff.mp rest
  simp only [Prod.mk.injEq, decide_eq_true_eq] at there
  obtain ⟨rfl, fair, rfl, current⟩ := there
  have turn := fifo_in_turn_iff twoAsleep twoAsleep_ready (by decide) (by decide) _ x [] run
    (.yield 0) w y calls taken
  exact ⟨x, w, y, run, calls, taken, current, turn.1 fair⟩

theorem fifo_overtaken :
    ∃ x, Lts.exec FifoState.step (FifoState.start twoAsleep)
        [.activate 1, .scheduling 0, .activate 2, .scheduling 0] = some (x, []) ∧
      x.kernel.currentThread = 2 ∧ ¬x.InTurn := by
  have final : (Lts.exec FifoState.step (FifoState.start twoAsleep)
      [.activate 1, .scheduling 0, .activate 2, .scheduling 0]).map
      (fun r => (r.2, r.1.kernel.currentThread, r.1.kernel.live 1, r.1.kernel.state 1,
        decide (r.1.kernel.prio 1 = r.1.kernel.prio 2), decide (r.1.since 2 ≤ r.1.since 1))) =
      some ([], 2, true, readyThread, true, false) := by decide +kernel
  obtain ⟨⟨x, es⟩, run, there⟩ := Option.map_eq_some_iff.mp final
  simp only [Prod.mk.injEq, decide_eq_true_eq, decide_eq_false_iff_not] at there
  obtain ⟨rfl, current, alive, ready, same, later⟩ := there
  refine ⟨x, run, current, fun turn => later ?_⟩
  have first := turn 1 alive ready (by rw [current]; exact same)
  rw [current] at first
  exact first

end L4ertl
