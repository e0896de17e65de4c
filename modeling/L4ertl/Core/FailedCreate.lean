import L4ertl.Core.Calls
import L4ertl.Core.TlsfRequests

/-!
pthread_create_sys and the pool it takes its memory from. A thread is known by the
address of its structure; what is written into that is in the kernel, so that of the
pool only the clearing of the structure is left. A failure has nothing to undo until
the structure is there, and afterwards nothing is undone.
-/
namespace L4ertl
open Tlsf

def defaultStackSize : Nat := 16 * 1024

structure CreateAttr extends PthreadAttr where
  stackSize : Nat
  deriving DecidableEq, Repr

/-- The attributes are checked before anything is taken. -/
def createAccepted (attr : Option CreateAttr) : Bool := (attr.map fun a => a.toPthreadAttr.accepted).getD true

def bringsStack (attr : Option CreateAttr) : Bool := (attr.map fun a => a.stackAddr).getD false

def createStackSize (attr : Option CreateAttr) : Nat := (attr.map CreateAttr.stackSize).getD defaultStackSize

def structTaken (structBytes pool : Nat) (m : Mem) : Mem :=
  memset (mallocEx structBytes pool m).1 0#8 structBytes (mallocEx structBytes pool m).2

/-- What the pool has for the structure and for the stack, and the memory afterwards. -/
def createMemory (structBytes pool : Nat) (attr : Option CreateAttr) (m : Mem) : Option Nat × Bool × Mem :=
  let thread := mallocEx structBytes pool m
  if thread.1 = 0 then (none, false, thread.2)
  else
    let m := structTaken structBytes pool m
    if bringsStack attr then (some thread.1, true, m)
    else
      let stack := mallocEx (createStackSize attr) pool m
      (some thread.1, decide (stack.1 ≠ 0), stack.2)

def pthreadCreateIn (structBytes pool : Nat) (attr : Option CreateAttr) (s : Kernel Nat × Mem) :
    (Kernel Nat × Mem) × Progress :=
  let got := if createAccepted attr then createMemory structBytes pool attr s.2 else (none, false, s.2)
  let r := pthreadCreateSys got.1 got.2.1 (attr.map CreateAttr.toPthreadAttr) s.1
  ((r.1, got.2.2), r.2)

structure NoTrace (pool e : Nat) (s w : Kernel Nat × Mem) : Prop where
  threads : w.1.threadList = s.1.threadList ∧ w.1.threadNode = s.1.threadNode
  timers : w.1.timerArray = s.1.timerArray
  timerHeap : w.1.timerHeap = s.1.timerHeap
  allocated : ∀ x, Allocated pool e w.2 x ↔ Allocated pool e s.2 x
  ready : w.1.activeThreads = s.1.activeThreads
  current : w.1.currentThread = s.1.currentThread

def StackMissing (structBytes pool : Nat) (attr : Option CreateAttr) (m : Mem) : Prop :=
  createAccepted attr = true ∧ (mallocEx structBytes pool m).1 ≠ 0 ∧ bringsStack attr = false ∧
    (mallocEx (createStackSize attr) pool (structTaken structBytes pool m)).1 = 0

theorem setErrno_noTrace {pool e : Nat} (err : Int) (k : Kernel Nat) (m : Mem) :
    NoTrace pool e (k, m) (setErrno err k, m) :=
  ⟨⟨rfl, rfl⟩, rfl, rfl, fun _ => Iff.rfl, rfl, rfl⟩

theorem accepted_map (attr : Option CreateAttr) :
    ((attr.map CreateAttr.toPthreadAttr).map PthreadAttr.accepted).getD true = createAccepted attr := by
  cases attr <;> rfl

theorem bringsStack_map (attr : Option CreateAttr) :
    ((attr.map CreateAttr.toPthreadAttr).map PthreadAttr.stackAddr).getD false = bringsStack attr := by
  cases attr <;> rfl

section
variable {structBytes pool e : Nat} {attr : Option CreateAttr} {k : Kernel Nat} {m : Mem} {bs : List Blk}
  {L : Lists}

theorem create_refused (refused : createAccepted attr = false) :
    pthreadCreateIn structBytes pool attr (k, m) = ((setErrno einval k, m), .ret (-1)) := by
  simp only [pthreadCreateIn, refused, Bool.false_eq_true, ↓reduceIte, pthreadCreateSys, accepted_map]

theorem create_no_struct (accepted : createAccepted attr = true) (null : (mallocEx structBytes pool m).1 = 0) :
    pthreadCreateIn structBytes pool attr (k, m) = ((setErrno eagain k, m), .ret (-1)) := by
  have same := congrArg Prod.snd ((mallocEx_null structBytes pool m).2 null)
  simp only at same
  simp only [pthreadCreateIn, accepted, createMemory, null, same, ↓reduceIte, pthreadCreateSys, accepted_map,
    Bool.true_eq_false, createPthreadStruct]

theorem createSys_fails {thread : Nat} {stack : Bool} {given : Option PthreadAttr}
    (accepted : (given.map PthreadAttr.accepted).getD true = true) :
    (pthreadCreateSys (some thread) stack given k).2 = .ret (-1) ↔
      (given.map PthreadAttr.stackAddr).getD false = false ∧ stack = false := by
  have created : createPthreadStruct (some thread) k = ((createPthreadStruct (some thread) k).1, some thread) :=
    rfl
  have goes : ¬ (given.map PthreadAttr.accepted).getD true = false := by simp [accepted]
  rw [pthreadCreateSys, if_neg goes, created]
  dsimp only
  split
  · rename_i missing
    exact ⟨fun _ => missing, fun _ => rfl⟩
  · rename_i enough
    constructor
    · intro is
      cases is
    · intro missing
      exact absurd missing enough

theorem create_struct (accepted : createAccepted attr = true) (some : (mallocEx structBytes pool m).1 ≠ 0) :
    (pthreadCreateIn structBytes pool attr (k, m)).2 = .ret (-1) ↔ StackMissing structBytes pool attr m := by
  have ok := (accepted_map attr).trans accepted
  cases brings : bringsStack attr with
  | true =>
    simp only [pthreadCreateIn, accepted, createMemory, some, brings, ↓reduceIte, createSys_fails ok,
      bringsStack_map, StackMissing]
    simp
  | false =>
    simp only [pthreadCreateIn, accepted, createMemory, some, brings, ↓reduceIte, createSys_fails ok,
      bringsStack_map, StackMissing, Bool.false_eq_true]
    simp [some]

theorem create_leaks (bounded : Bounded pool e) (aligned : pool % 4 = 0) (heap : HeapAt pool e m bs L)
    (small : structBytes ≤ 2 ^ 29) (missing : StackMissing structBytes pool attr m) :
    ∃ x, Allocated pool e (pthreadCreateIn structBytes pool attr (k, m)).1.2 x ∧ ¬ Allocated pool e m x := by
  obtain ⟨accepted, some, brings, null⟩ := missing
  have mem : (pthreadCreateIn structBytes pool attr (k, m)).1.2 = structTaken structBytes pool m := by
    have same := congrArg Prod.snd ((mallocEx_null _ pool (structTaken structBytes pool m)).2 null)
    simpa [pthreadCreateIn, accepted, createMemory, some, brings] using same
  rcases mallocEx_spec bounded heap (n := structBytes) (by omega) with failed | ⟨d, cs, result, handed⟩
  · exact absurd (congrArg Prod.fst failed) some
  · obtain ⟨cleared, _⟩ := handed.clear aligned heap
    obtain ⟨r, _, used, elsewhere, _⟩ := cleared.used heap
    obtain ⟨_, K, now⟩ := cleared
    rw [mem, structTaken, result]
    refine ⟨⟨d, r, false⟩, (now.allocated bounded _).mpr ⟨rfl, (used _ rfl).mpr (Or.inl rfl)⟩, ?_⟩
    intro before
    have member := ((heap.allocated bounded _).mp before).2
    exact elsewhere _ member rfl rfl

end

theorem create_no_trace_iff {structBytes pool e : Nat} {attr : Option CreateAttr} {k : Kernel Nat} {m : Mem}
    {bs : List Blk} {L : Lists} (bounded : Bounded pool e) (aligned : pool % 4 = 0)
    (heap : HeapAt pool e m bs L) (small : structBytes ≤ 2 ^ 29) :
    ((pthreadCreateIn structBytes pool attr (k, m)).2 = .ret (-1) →
        NoTrace pool e (k, m) (pthreadCreateIn structBytes pool attr (k, m)).1) ↔
      ¬ StackMissing structBytes pool attr m := by
  constructor
  · intro clean missing
    have trace := clean ((create_struct missing.1 missing.2.1).mpr missing)
    obtain ⟨x, now, before⟩ := create_leaks (k := k) bounded aligned heap small missing
    exact before ((trace.allocated x).mp now)
  · intro enough failed
    cases accepted : createAccepted attr with
    | false =>
      rw [create_refused accepted]
      exact setErrno_noTrace einval k m
    | true =>
      by_cases null : (mallocEx structBytes pool m).1 = 0
      · rw [create_no_struct accepted null]
        exact setErrno_noTrace eagain k m
      · exact absurd ((create_struct accepted null).mp failed) enough

theorem create_no_trace_iff_refused : let attr : CreateAttr := ⟨⟨1, ⟨1, 5, 0, 0⟩, false, false⟩, 1024⟩
    NoTrace 4096 (sentinel 4096 4176) (bootKernel 0, readyPool 4176 4096 fun _ => 0#32)
      (pthreadCreateIn 400 4096 (some attr) (bootKernel 0, readyPool 4176 4096 fun _ => 0#32)).1 := by
  intro attr
  obtain ⟨bounded, heap⟩ := smallPool_heap
  have enough : ¬ StackMissing 400 4096 (some attr) (readyPool 4176 4096 fun _ => 0#32) :=
    fun missing => absurd missing.1 (by decide)
  exact (create_no_trace_iff bounded (by decide) heap (by decide)).mpr enough rfl

theorem create_leaves_struct :
    (pthreadCreateIn 400 4096 none (bootKernel 0, readyPool 4176 4096 fun _ => 0#32)).2 = .ret (-1) ∧
      (pthreadCreateIn 400 4096 none (bootKernel 0, readyPool 4176 4096 fun _ => 0#32)).1.1.threadList =
        some 7276 ∧
      ¬ NoTrace 4096 (sentinel 4096 4176) (bootKernel 0, readyPool 4176 4096 fun _ => 0#32)
        (pthreadCreateIn 400 4096 none (bootKernel 0, readyPool 4176 4096 fun _ => 0#32)).1 := by
  have listed : (pthreadCreateIn 400 4096 none
      (bootKernel 0, readyPool 4176 4096 fun _ => 0#32)).1.1.threadList = some 7276 := by decide +kernel
  refine ⟨by decide +kernel, listed, ?_⟩
  intro trace
  have same := trace.threads.1
  rw [listed] at same
  cases same

end L4ertl
