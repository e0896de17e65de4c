import Mathlib.Data.Fintype.Card
import L4ertl.Core.Reap
import L4ertl.Lib.Lts

/-!
The 32 kernel stacks (arm_l4_stack.c). A thread gets one when it is first
dispatched; finishing it gives the stack back, but leaves kentry_sp as it is, so
that finishing it once more gives back whatever stack has that number by then.
-/
namespace L4ertl
open Intrusive
variable {T : Type} [DecidableEq T]

def createIdle (now : Duration) (addr : T) (k : Kernel T) : Kernel T :=
  let (k, _) := createPthreadStruct (some addr) k
  allocKstack addr { k with
    idleThread := addr
    currentThread := addr
    startingTime := Function.update k.startingTime addr now
    sigmask := Function.update k.sigmask addr (BitVec.allOnes 32) }

/-- pthread_create_idle_sys with a structure and a stack from the memory pool: the
    new thread takes the place of the one that create_idle made. -/
def pthreadCreateIdleSys (addr : T) (k : Kernel T) : Kernel T :=
  let (k, _) := createPthreadStruct (some addr) k
  let k := activateThread addr (configureThread addr none k)
  let k := allocKstack addr k
  let k := finishThread k.idleThread k
  let k := { k with idleThread := addr, currentThread := addr }
  activateThread addr (changeThreadPrio addr idleSchedPriority (suspendThread addr k))

def idleKernel (now : Duration) (boot idle : T) : Kernel T :=
  pthreadCreateIdleSys idle (createIdle now boot (bootKernel boot))

inductive StackOp (T : Type) where
  | create (addr : T) (stack : Bool) (attr : Option PthreadAttr)
  | dispatch (now : Duration) (thread : T)
  | exit
  | join (thread : T)
  | rejoin (thread : T)
  | deleteNp (thread : T)

/-- The calls are those of the current thread. Any READY thread may be dispatched,
    and any existing one joined or deleted. -/
def StackOp.step (k : Kernel T) : StackOp T → Option (Kernel T × List Unit)
  | .create a stack attr =>
    if k.live a = false then some ((pthreadCreateSys (some a) stack attr k).1, []) else none
  | .dispatch now t =>
    if k.live t = true ∧ k.state t = readyThread then some (contextSwitchTo now t k, []) else none
  | .exit =>
    if k.live k.currentThread = true ∧ k.state k.currentThread = readyThread then
      match pthreadExitSys k with
      | .ok w => some (w, [])
      | .error _ => none
    else none
  | .join t => if k.live t = true then some ((pthreadJoinSys t k).1, []) else none
  | .rejoin t => if k.live t = true then some ((joinWoken t k).1, []) else none
  | .deleteNp t => if k.live t = true then some (pthreadDeleteNpSys t k, []) else none

/-- The thread has been dispatched and is not FINISHED, and its stack is number `i`. -/
def OwnsStack (k : Kernel T) (t : T) (i : Nat) : Prop :=
  k.live t = true ∧ k.state t ≠ finishedThread ∧ k.kentrySp t = some i

instance (k : Kernel T) (t : T) (i : Nat) : Decidable (OwnsStack k t i) :=
  inferInstanceAs (Decidable (_ ∧ _ ∧ _))

/-- No stack has two owners, and a bit is set if its stack has exactly one. -/
structure StacksExclusive (k : Kernel T) : Prop where
  apart : ∀ t u i, OwnsStack k t i → OwnsStack k u i → t = u
  marked : ∀ i, i < 32 →
    (isbitset k.kstackFlag i = true ↔ ∃ t, OwnsStack k t i ∧ ∀ u, OwnsStack k u i → u = t)

def startedThreads [Fintype T] (k : Kernel T) : Finset T :=
  Finset.univ.filter fun t => k.live t = true ∧ k.state t ≠ finishedThread ∧ k.kentrySp t ≠ none

def StackOp.Fits [Fintype T] (k : Kernel T) (op : StackOp T) : Prop :=
  ∀ w es, op.step k = some (w, es) → (startedThreads w).card ≤ 32

def StackOp.Once (k : Kernel T) : StackOp T → Prop
  | .deleteNp t => k.state t = finishedThread → ∀ i, k.kentrySp t = some i →
      isbitset k.kstackFlag i = false
  | _ => True

def StacksNumbered (k : Kernel T) : Prop := ∀ t i, k.live t = true → k.kentrySp t = some i → i < 32

section
variable {k w : Kernel T} {t : T}

omit [DecidableEq T] in
theorem StacksExclusive.of_marks (apart : ∀ t u i, OwnsStack k t i → OwnsStack k u i → t = u)
    (set : ∀ i, i < 32 → (isbitset k.kstackFlag i = true ↔ ∃ t, OwnsStack k t i)) :
    StacksExclusive k := by
  refine ⟨apart, fun i inside => ?_⟩
  rw [set i inside]
  constructor
  · rintro ⟨t, owns⟩
    exact ⟨t, owns, fun u also => apart u t i also owns⟩
  · rintro ⟨t, owns, _⟩
    exact ⟨t, owns⟩

omit [DecidableEq T] in
theorem StacksExclusive.set_iff (good : StacksExclusive k) {i : Nat} (inside : i < 32) :
    isbitset k.kstackFlag i = true ↔ ∃ t, OwnsStack k t i := by
  rw [good.marked i inside]
  constructor
  · rintro ⟨t, owns, _⟩
    exact ⟨t, owns⟩
  · rintro ⟨t, owns⟩
    exact ⟨t, owns, fun u also => good.apart u t i also owns⟩

omit [DecidableEq T] in
theorem StacksExclusive.same (good : StacksExclusive k)
    (flag : ∀ i, i < 32 → isbitset w.kstackFlag i = isbitset k.kstackFlag i)
    (owners : ∀ t i, OwnsStack w t i ↔ OwnsStack k t i) : StacksExclusive w := by
  refine ⟨fun t u i => ?_, fun i inside => ?_⟩
  · simpa only [owners] using good.apart t u i
  · simpa only [owners, flag i inside] using good.marked i inside

structure StackReturned (t : T) (k w : Kernel T) : Prop where
  flag : w.kstackFlag = (freeKstack t k).kstackFlag
  slots : ∀ u, w.live u = true → w.kentrySp u = none ∨ (k.live u = true ∧ w.kentrySp u = k.kentrySp u)
  owners : ∀ u i, OwnsStack w u i ↔ u ≠ t ∧ OwnsStack k u i

omit [DecidableEq T] in
theorem StackReturned.owner (returned : StackReturned t k w) (good : StacksExclusive k) {i : Nat}
    (owns : OwnsStack k t i) : StacksExclusive w := by
  have flag : w.kstackFlag = clearbit k.kstackFlag i := by
    rw [returned.flag, freeKstack, owns.2.2]
  apply StacksExclusive.of_marks
  · intro u v j first second
    exact good.apart u v j ((returned.owners u j).mp first).2 ((returned.owners v j).mp second).2
  · intro j inside
    rw [flag, isbitset_clearbit _ inside, Bool.and_eq_true, good.set_iff inside]
    simp only [returned.owners, Bool.not_eq_true', decide_eq_false_iff_not]
    constructor
    · rintro ⟨⟨u, also⟩, other⟩
      refine ⟨u, ?_, also⟩
      rintro rfl
      have same := also.2.2
      rw [owns.2.2] at same
      exact other (Option.some.inj same).symm
    · rintro ⟨u, other, also⟩
      refine ⟨⟨u, also⟩, ?_⟩
      rintro rfl
      exact other (good.apart u t j also owns)

omit [DecidableEq T] in
theorem StackReturned.stranger (returned : StackReturned t k w) (good : StacksExclusive k)
    (numbered : StacksNumbered k) (alive : k.live t = true) (none : ∀ i, ¬OwnsStack k t i) :
    StacksExclusive w ↔ ∀ i, k.kentrySp t = some i → isbitset k.kstackFlag i = false := by
  have owners : ∀ u i, OwnsStack w u i ↔ OwnsStack k u i := by
    intro u i
    rw [returned.owners]
    constructor
    · exact fun both => both.2
    · intro owns
      refine ⟨?_, owns⟩
      rintro rfl
      exact none i owns
  constructor
  · intro after i slot
    have inside := numbered t i alive slot
    by_contra set
    have clear : isbitset w.kstackFlag i = false := by
      rw [returned.flag, freeKstack, slot]
      simp [isbitset_clearbit _ inside]
    obtain ⟨u, owns⟩ := (good.set_iff inside).mp (by simpa using set)
    have still := (after.set_iff inside).mpr ⟨u, (owners u i).mpr owns⟩
    rw [clear] at still
    cases still
  · intro unused
    apply good.same _ owners
    intro j inside
    rw [returned.flag, freeKstack]
    split
    · rename_i i slot
      rw [isbitset_clearbit _ inside]
      by_cases this : j = i
      · rw [this, unused i slot]
        rfl
      · simp [this]
    · rfl

omit [DecidableEq T] in
theorem StackReturned.exclusive (returned : StackReturned t k w) (good : StacksExclusive k)
    (numbered : StacksNumbered k) (alive : k.live t = true) :
    StacksExclusive w ↔ (k.state t = finishedThread → ∀ i, k.kentrySp t = some i →
      isbitset k.kstackFlag i = false) := by
  by_cases ended : k.state t = finishedThread
  · rw [returned.stranger good numbered alive fun i owns => owns.2.1 ended]
    simp only [ended, forall_const]
  · simp only [ended, false_implies, iff_true]
    cases slot : k.kentrySp t with
    | none =>
      rw [returned.stranger good numbered alive fun i owns => by rw [owns.2.2] at slot; cases slot]
      intro i some
      rw [slot] at some
      cases some
    | some i => exact returned.owner good ⟨alive, ended, slot⟩

end

structure StacksKept (k w : Kernel T) : Prop where
  flag : w.kstackFlag = k.kstackFlag
  slots : ∀ t, w.live t = true → w.kentrySp t = none ∨ (k.live t = true ∧ w.kentrySp t = k.kentrySp t)
  owners : ∀ t i, OwnsStack w t i ↔ OwnsStack k t i

section
variable {k w : Kernel T} {t : T}

omit [DecidableEq T] in
theorem StacksKept.of_fields (flag : w.kstackFlag = k.kstackFlag) (live : w.live = k.live)
    (slots : w.kentrySp = k.kentrySp)
    (ended : ∀ t, w.state t = finishedThread ↔ k.state t = finishedThread) : StacksKept k w := by
  refine ⟨flag, fun t alive => Or.inr ⟨by rw [← live]; exact alive, by rw [slots]⟩, fun t i => ?_⟩
  unfold OwnsStack
  rw [live, slots, ne_eq, ended t]

omit [DecidableEq T] in
theorem StacksKept.good (kept : StacksKept k w) (good : StacksExclusive k) : StacksExclusive w :=
  good.same (fun i _ => by rw [kept.flag]) kept.owners

omit [DecidableEq T] in
theorem StacksNumbered.keep (numbered : StacksNumbered k) (slots : ∀ t, w.live t = true →
    w.kentrySp t = none ∨ (k.live t = true ∧ w.kentrySp t = k.kentrySp t)) : StacksNumbered w := by
  intro t i alive slot
  rcases slots t alive with none | ⟨before, same⟩
  · rw [none] at slot
    cases slot
  · exact numbered t i before (same ▸ slot)

theorem configureThread_stacks (t : T) (attr : Option PthreadAttr) (k : Kernel T) :
    (configureThread t attr k).kstackFlag = k.kstackFlag ∧ (configureThread t attr k).live = k.live ∧
      (configureThread t attr k).kentrySp = k.kentrySp := by
  unfold configureThread
  cases attr with
  | none => exact ⟨rfl, rfl, rfl⟩
  | some a => exact ⟨rfl, rfl, rfl⟩

theorem activateThread_stacks (t : T) (k : Kernel T) :
    (activateThread t k).kstackFlag = k.kstackFlag ∧ (activateThread t k).live = k.live ∧
      (activateThread t k).kentrySp = k.kentrySp := by
  simp only [activateThread, setState]
  split
  · exact ⟨rfl, rfl, rfl⟩
  · exact ⟨rfl, rfl, rfl⟩

theorem activateThread_over (t u : T) (k : Kernel T) :
    (activateThread t k).state u = finishedThread ↔ k.state u = finishedThread := by
  rw [activateThread_state]
  split
  · rename_i woken
    rw [woken.1]
    exact ⟨fun ended => absurd ended ready_ne_finished, fun ended => absurd ended woken.2⟩
  · rfl

theorem activateThread_kept (t : T) (k : Kernel T) : StacksKept k (activateThread t k) := by
  obtain ⟨flag, live, slots⟩ := activateThread_stacks t k
  exact .of_fields flag live slots fun u => activateThread_over t u k

theorem createPthreadStruct_stacks (a : T) (k : Kernel T) (unused : k.live a = false) :
    StacksKept k (createPthreadStruct (some a) k).1 := by
  refine ⟨rfl, fun t alive => ?_, fun t i => ?_⟩
  · simp only [createPthreadStruct, Function.update_apply] at alive ⊢
    split
    · exact Or.inl rfl
    · rename_i other
      rw [if_neg other] at alive
      exact Or.inr ⟨alive, rfl⟩
  · by_cases self : t = a
    · subst self
      simp [OwnsStack, createPthreadStruct, unused]
    · simp [OwnsStack, createPthreadStruct, Kernel.state, self]

omit [DecidableEq T] in
theorem StacksKept.trans {x : Kernel T} (first : StacksKept k w) (second : StacksKept w x) :
    StacksKept k x := by
  refine ⟨second.flag.trans first.flag, fun t alive => ?_, fun t i => ?_⟩
  · rcases second.slots t alive with none | ⟨before, same⟩
    · exact Or.inl none
    · rw [same]
      exact first.slots t before
  · rw [second.owners, first.owners]

theorem pthreadCreateSys_stacks (a : T) (stack : Bool) (attr : Option PthreadAttr) (k : Kernel T)
    (unused : k.live a = false) : StacksKept k (pthreadCreateSys (some a) stack attr k).1 := by
  unfold pthreadCreateSys
  split
  · exact .of_fields rfl rfl rfl fun _ => Iff.rfl
  · have created := createPthreadStruct_stacks a k unused
    obtain ⟨flag, live, slots⟩ := configureThread_stacks a attr (createPthreadStruct (some a) k).1
    have configured := created.trans (.of_fields flag live slots fun t => by rw [configureThread_state])
    have activated := configured.trans (activateThread_kept a _)
    simp only [createPthreadStruct] at configured activated ⊢
    split
    · exact configured.trans (.of_fields rfl rfl rfl fun _ => Iff.rfl)
    · exact activated

theorem suspendThread_stacks (t : T) (k : Kernel T) : StacksKept k (suspendThread t k) := by
  have fields : (suspendThread t k).kstackFlag = k.kstackFlag ∧ (suspendThread t k).live = k.live ∧
      (suspendThread t k).kentrySp = k.kentrySp := by
    simp only [suspendThread, setState]
    split
    · exact ⟨rfl, rfl, rfl⟩
    · exact ⟨rfl, rfl, rfl⟩
  apply StacksKept.of_fields fields.1 fields.2.1 fields.2.2
  intro u
  rw [suspendThread_state]
  split
  · rename_i asleep
    rw [asleep.1]
    exact ⟨fun ended => absurd ended (by decide), fun ended => absurd ended asleep.2⟩
  · rfl

theorem deletePthreadStruct_stacks (ended : k.state t = finishedThread) :
    StacksKept k (deletePthreadStruct t k) := by
  refine ⟨rfl, fun u alive => ?_, fun u i => ?_⟩
  · simp only [deletePthreadStruct, Function.update_apply] at alive
    split at alive
    · cases alive
    · exact Or.inr ⟨alive, rfl⟩
  · by_cases self : u = t
    · subst self
      simp only [OwnsStack, ended]
      simp [deletePthreadStruct]
    · simp [OwnsStack, deletePthreadStruct, Kernel.state, self]

theorem joinLoop_stacks (t : T) (k : Kernel T) : StacksKept k (joinLoop t k).1 := by
  unfold joinLoop
  split
  · have noted : StacksKept k (setJoining t (some k.currentThread) k) :=
      .of_fields rfl rfl rfl fun _ => Iff.rfl
    exact noted.trans (suspendThread_stacks _ _)
  · rename_i ended
    exact deletePthreadStruct_stacks (not_not.mp ended)

theorem pthreadJoinSys_stacks (t : T) (k : Kernel T) : StacksKept k (pthreadJoinSys t k).1 := by
  unfold pthreadJoinSys
  split
  · exact .of_fields rfl rfl rfl fun _ => Iff.rfl
  · split
    · exact .of_fields rfl rfl rfl fun _ => Iff.rfl
    · exact joinLoop_stacks t k

theorem joinWoken_stacks (t : T) (k : Kernel T) : StacksKept k (joinWoken t k).1 := by
  unfold joinWoken
  split
  · exact .of_fields rfl rfl rfl fun _ => Iff.rfl
  · exact joinLoop_stacks t k

end

section
variable {k w x : Kernel T} {t : T}

omit [DecidableEq T] in
theorem StackReturned.before (kept : StacksKept k w) (slots : w.kentrySp = k.kentrySp)
    (returned : StackReturned t w x) : StackReturned t k x := by
  refine ⟨?_, ?_, ?_⟩
  · rw [returned.flag, freeKstack, freeKstack, slots]
    cases k.kentrySp t with
    | none => exact kept.flag
    | some i => simp only [kept.flag]
  · intro u alive
    rcases returned.slots u alive with none | ⟨before, same⟩
    · exact Or.inl none
    · rw [same]
      exact kept.slots u before
  · intro u i
    rw [returned.owners, kept.owners]

omit [DecidableEq T] in
theorem StackReturned.after (returned : StackReturned t k w) (kept : StacksKept w x) :
    StackReturned t k x := by
  refine ⟨kept.flag.trans returned.flag, ?_, fun u i => by rw [kept.owners, returned.owners]⟩
  intro u alive
  rcases kept.slots u alive with none | ⟨before, same⟩
  · exact Or.inl none
  · rw [same]
    exact returned.slots u before

theorem finishThread_returned (t : T) (k : Kernel T) : StackReturned t k (finishThread t k) := by
  have slots : (finishThread t k).kentrySp = k.kentrySp := by
    simp only [finishThread, freeKstack, setState]
    split <;> rfl
  have live := (finishThread_frame t k).2.1
  refine ⟨?_, ?_, ?_⟩
  · simp only [finishThread, freeKstack, setState]
    split <;> rfl
  · intro u alive
    exact Or.inr ⟨by rw [← live]; exact alive, by rw [slots]⟩
  · intro u i
    unfold OwnsStack
    rw [live, slots, finishThread_state]
    by_cases self : u = t
    · simp [self]
    · simp [self]

theorem pthreadExitSys_returned (ran : pthreadExitSys k = .ok w) :
    StackReturned k.currentThread k w := by
  obtain ⟨freed, only, _, _, woken⟩ := pthreadExitSys_woken ran
  have slots := congrArg Kernel.kentrySp only
  have flag := congrArg Kernel.kstackFlag only
  have live := congrArg Kernel.live only
  have flags := congrArg Kernel.threadFlags only
  have booked : StacksKept k freed := by
    refine .of_fields flag live slots fun u => ?_
    rw [Kernel.state_of_flags (k := k) flags]
  have slots' := congrArg Kernel.kentrySp woken.only
  have flag' := congrArg Kernel.kstackFlag woken.only
  have live' := congrArg Kernel.live woken.only
  have kept : StacksKept (finishThread k.currentThread freed) w := by
    refine .of_fields flag' live' slots' fun u => ?_
    rcases woken.state u with same | ⟨_, active, ready⟩
    · rw [same]
    · rw [ready]
      exact ⟨fun ended => absurd ended ready_ne_finished, fun ended => absurd ended active⟩
  exact ((finishThread_returned k.currentThread freed).after kept).before booked slots

theorem pthreadDeleteNpSys_returned (t : T) (k : Kernel T) :
    StackReturned t k (pthreadDeleteNpSys t k) := by
  have cancelled : StacksKept k
      (setFlags t (setThreadCancelType (setThreadCancelState (k.threadFlags t) true) true) k) := by
    refine .of_fields rfl rfl rfl fun u => ?_
    by_cases self : u = t
    · subst self
      simp [Kernel.state, setFlags]
    · simp [Kernel.state, setFlags, self]
  have ended : StackReturned t k (endThread t k) := (finishThread_returned t _).before cancelled rfl
  exact ended.after (deletePthreadStruct_stacks (endThread_state t k))

section
variable [Fintype T]

omit [DecidableEq T] in
theorem startedThreads_mem {u : T} {i : Nat} (owns : OwnsStack k u i) : u ∈ startedThreads k := by
  simp only [startedThreads, Finset.mem_filter, Finset.mem_univ, true_and]
  exact ⟨owns.1, owns.2.1, by rw [owns.2.2]; exact Option.some_ne_none i⟩

theorem StacksExclusive.full (good : StacksExclusive k)
    (set : ∀ i, i < 32 → isbitset k.kstackFlag i = true) : 32 ≤ (startedThreads k).card := by
  have owner : ∀ i : Fin 32, ∃ u, OwnsStack k u i := fun i => (good.set_iff i.2).mp (set i i.2)
  choose f owns using owner
  have injective : Function.Injective f := by
    intro i j same
    have first := (owns i).2.2
    rw [same, (owns j).2.2] at first
    exact Fin.ext (Option.some.inj first).symm
  calc 32 = (Finset.univ.image f).card := by
        rw [Finset.card_image_of_injective _ injective, Finset.card_univ, Fintype.card_fin]
    _ ≤ (startedThreads k).card := by
        apply Finset.card_le_card
        intro u member
        obtain ⟨i, _, rfl⟩ := Finset.mem_image.mp member
        exact startedThreads_mem (owns i)

theorem allocKstack_free (good : StacksExclusive k) (alive : k.live t = true)
    (active : k.state t ≠ finishedThread) (new : k.kentrySp t = none)
    (fits : (startedThreads (allocKstack t k)).card ≤ 32) :
    ∃ i, (List.range 32).find? (fun i => !isbitset k.kstackFlag i) = some i := by
  cases found : (List.range 32).find? (fun i => !isbitset k.kstackFlag i) with
  | some i => exact ⟨i, rfl⟩
  | none =>
    have full := good.full fun i inside => by
      simpa using List.find?_eq_none.mp found i (List.mem_range.mpr inside)
    have outside : t ∉ startedThreads k := by
      simp [startedThreads, new]
    have more : insert t (startedThreads k) ⊆ startedThreads (allocKstack t k) := by
      intro u member
      simp only [startedThreads, Finset.mem_filter, Finset.mem_univ, true_and]
      rcases Finset.mem_insert.mp member with self | before
      · rw [self]
        exact ⟨alive, active, by simp [allocKstack]⟩
      · simp only [startedThreads, Finset.mem_filter, Finset.mem_univ, true_and] at before
        refine ⟨before.1, before.2.1, ?_⟩
        by_cases self : u = t
        · simp [allocKstack, self]
        · simpa [allocKstack, self] using before.2.2
    have count := Finset.card_le_card more
    rw [Finset.card_insert_of_notMem outside] at count
    omega

omit [Fintype T] in
theorem allocKstack_exclusive (good : StacksExclusive k) (numbered : StacksNumbered k)
    (alive : k.live t = true) (active : k.state t ≠ finishedThread) (new : k.kentrySp t = none)
    {i : Nat} (found : (List.range 32).find? (fun i => !isbitset k.kstackFlag i) = some i) :
    StacksExclusive (allocKstack t k) ∧ StacksNumbered (allocKstack t k) := by
  have inside : i < 32 := List.mem_range.mp (List.mem_of_find?_eq_some found)
  have free : isbitset k.kstackFlag i = false := by simpa using List.find?_some found
  have eq : allocKstack t k =
      { k with
        kentrySp := Function.update k.kentrySp t (some i)
        kstackFlag := setbit k.kstackFlag i } := by
    simp only [allocKstack, found, Option.getD_some]
  have owners : ∀ u j, OwnsStack (allocKstack t k) u j ↔ (u = t ∧ j = i) ∨ OwnsStack k u j := by
    intro u j
    rw [eq]
    by_cases self : u = t
    · subst self
      have states : Kernel.state { k with
          kentrySp := Function.update k.kentrySp u (some i)
          kstackFlag := setbit k.kstackFlag i } u = k.state u := rfl
      simp [OwnsStack, states, alive, active, new, eq_comm]
    · simp [OwnsStack, Kernel.state, self]
  have unowned : ∀ u, ¬OwnsStack k u i := by
    intro u owns
    rw [(good.set_iff inside).mpr ⟨u, owns⟩] at free
    cases free
  constructor
  · apply StacksExclusive.of_marks
    · intro u v j first second
      rcases (owners u j).mp first with ⟨rfl, rfl⟩ | one
      · rcases (owners v j).mp second with ⟨rfl, _⟩ | two
        · rfl
        · exact absurd two (unowned v)
      · rcases (owners v j).mp second with ⟨rfl, rfl⟩ | two
        · exact absurd one (unowned u)
        · exact good.apart u v j one two
    · intro j bound
      have flag : (allocKstack t k).kstackFlag = setbit k.kstackFlag i := by rw [eq]
      rw [flag, isbitset_setbit _ bound, Bool.or_eq_true, good.set_iff bound, decide_eq_true_eq]
      simp only [owners]
      constructor
      · rintro (⟨u, owns⟩ | same)
        · exact ⟨u, Or.inr owns⟩
        · exact ⟨t, Or.inl ⟨rfl, same⟩⟩
      · rintro ⟨u, ⟨_, same⟩ | owns⟩
        · exact Or.inr same
        · exact Or.inl ⟨u, owns⟩
  · intro u j aliveU slot
    rw [eq] at slot aliveU
    simp only [Function.update_apply] at slot
    split at slot
    · cases slot
      exact inside
    · exact numbered u j aliveU slot

end

end

section
variable [Fintype T] {k w : Kernel T}

theorem contextSwitchTo_exclusive (good : StacksExclusive k) (numbered : StacksNumbered k)
    {now : Duration} {t : T} (alive : k.live t = true) (ready : k.state t = readyThread)
    (fits : (startedThreads (contextSwitchTo now t k)).card ≤ 32) :
    StacksExclusive (contextSwitchTo now t k) ∧ StacksNumbered (contextSwitchTo now t k) := by
  have active : k.state t ≠ finishedThread := by
    rw [ready]
    exact ready_ne_finished
  cases slot : k.kentrySp t with
  | none =>
    have switched : StacksKept k { k with currentThread := t } := .of_fields rfl rfl rfl fun _ => Iff.rfl
    have eq : contextSwitchTo now t k = allocKstack t { k with currentThread := t } := by
      simp only [contextSwitchTo, slot]
    rw [eq] at fits ⊢
    obtain ⟨i, found⟩ := allocKstack_free (switched.good good) alive active slot fits
    exact allocKstack_exclusive (switched.good good) (numbered.keep switched.slots) alive active slot
      found
  | some i =>
    have switched : StacksKept k (contextSwitchTo now t k) := by
      simp only [contextSwitchTo, slot]
      exact .of_fields rfl rfl rfl fun _ => Iff.rfl
    exact ⟨switched.good good, numbered.keep switched.slots⟩

theorem StackOp.step_exclusive {op : StackOp T} {es : List Unit} (numbered : StacksNumbered k)
    (good : StacksExclusive k) (fits : op.Fits k) (taken : op.step k = some (w, es)) :
    StacksNumbered w ∧ (StacksExclusive w ↔ op.Once k) := by
  have enough := fits w es taken
  have kept : StacksKept k w → op.Once k → StacksNumbered w ∧ (StacksExclusive w ↔ op.Once k) :=
    fun kept once => ⟨numbered.keep kept.slots, fun _ => once, fun _ => kept.good good⟩
  cases op with
  | create a stack attr =>
    simp only [StackOp.step] at taken
    split at taken
    · rename_i unused
      cases taken
      exact kept (pthreadCreateSys_stacks a stack attr k unused) trivial
    · cases taken
  | dispatch now t =>
    simp only [StackOp.step] at taken
    split at taken
    · rename_i may
      cases taken
      obtain ⟨after, slots⟩ := contextSwitchTo_exclusive good numbered may.1 may.2 enough
      exact ⟨slots, fun _ => trivial, fun _ => after⟩
    · cases taken
  | exit =>
    simp only [StackOp.step] at taken
    split at taken
    · rename_i may
      split at taken
      · rename_i x ran
        cases taken
        have returned := pthreadExitSys_returned ran
        refine ⟨numbered.keep returned.slots, fun _ => trivial, fun _ => ?_⟩
        rw [returned.exclusive good numbered may.1, may.2]
        exact fun ended => absurd ended ready_ne_finished
      · cases taken
    · cases taken
  | join t =>
    simp only [StackOp.step] at taken
    split at taken
    · cases taken
      exact kept (pthreadJoinSys_stacks t k) trivial
    · cases taken
  | rejoin t =>
    simp only [StackOp.step] at taken
    split at taken
    · cases taken
      exact kept (joinWoken_stacks t k) trivial
    · cases taken
  | deleteNp t =>
    simp only [StackOp.step] at taken
    split at taken
    · rename_i alive
      cases taken
      have returned := pthreadDeleteNpSys_returned t k
      exact ⟨numbered.keep returned.slots, returned.exclusive good numbered alive⟩
    · cases taken

end

theorem changeThreadPrio_stacks (t : T) (p : Int) (k : Kernel T) :
    StacksKept k (changeThreadPrio t p k) := by
  have fields : (changeThreadPrio t p k).kstackFlag = k.kstackFlag ∧
      (changeThreadPrio t p k).live = k.live ∧ (changeThreadPrio t p k).kentrySp = k.kentrySp := by
    simp only [changeThreadPrio]
    split
    · exact ⟨rfl, rfl, rfl⟩
    · exact ⟨rfl, rfl, rfl⟩
  refine .of_fields fields.1 fields.2.1 fields.2.2 fun u => ?_
  simp only [Kernel.state, changeThreadPrio_flags]

omit [DecidableEq T] in
theorem bootKernel_exclusive (boot : T) :
    StacksExclusive (bootKernel boot) ∧ StacksNumbered (bootKernel boot) := by
  have unowned : ∀ t i, ¬OwnsStack (bootKernel boot) t i := by
    intro t i owns
    cases owns.1
  constructor
  · apply StacksExclusive.of_marks
    · intro t u i owns
      exact absurd owns (unowned t i)
    · intro i _
      have clear : isbitset (bootKernel boot).kstackFlag i = false := isbitset_zero i
      rw [clear]
      constructor
      · intro set
        cases set
      · rintro ⟨t, owns⟩
        exact absurd owns (unowned t i)
  · intro t i alive
    cases alive

structure IdleCreated (boot : T) (k : Kernel T) : Prop where
  good : StacksExclusive k
  numbered : StacksNumbered k
  flag : k.kstackFlag = 1#32
  live : ∀ t, k.live t = decide (t = boot)
  active : k.state boot ≠ finishedThread
  idle : k.idleThread = boot

theorem createIdle_exclusive (now : Duration) (boot : T) :
    IdleCreated boot (createIdle now boot (bootKernel boot)) := by
  obtain ⟨good, numbered⟩ := bootKernel_exclusive boot
  have created := createPthreadStruct_stacks boot (bootKernel boot) rfl
  have placed := created.trans (.of_fields rfl rfl rfl fun _ => Iff.rfl :
    StacksKept (createPthreadStruct (some boot) (bootKernel boot)).1
      { (createPthreadStruct (some boot) (bootKernel boot)).1 with
        idleThread := boot
        currentThread := boot
        startingTime := Function.update
          (createPthreadStruct (some boot) (bootKernel boot)).1.startingTime boot now
        sigmask := Function.update (createPthreadStruct (some boot) (bootKernel boot)).1.sigmask boot
          (BitVec.allOnes 32) })
  have active : (createPthreadStruct (some boot) (bootKernel boot)).1.state boot ≠ finishedThread := by
    simp [Kernel.state, createPthreadStruct]
    decide
  have found : (List.range 32).find? (fun i => !isbitset 0#32 i) = some 0 := by decide
  obtain ⟨good', numbered'⟩ := allocKstack_exclusive (t := boot) (placed.good good)
    (numbered.keep placed.slots) (by simp [createPthreadStruct]) active
    (by simp [createPthreadStruct]) found
  refine ⟨good', numbered', ?_, ?_, active, rfl⟩
  · show setbit 0#32 (((List.range 32).find? fun i => !isbitset 0#32 i).getD 32) = 1#32
    rw [found]
    decide
  intro t
  simp only [createIdle, allocKstack, createPthreadStruct, bootKernel, Function.update_apply]
  by_cases self : t = boot
  · simp [self]
  · simp [self]

theorem idleKernel_exclusive (now : Duration) {boot idle : T} (apart : idle ≠ boot) :
    StacksExclusive (idleKernel now boot idle) ∧ StacksNumbered (idleKernel now boot idle) := by
  have start := createIdle_exclusive now boot
  generalize same : createIdle now boot (bootKernel boot) = k at start
  simp only [idleKernel, same]
  have unused : k.live idle = false := by simp [start.live, apart]
  have created := createPthreadStruct_stacks idle k unused
  obtain ⟨flag, live, slots⟩ := configureThread_stacks idle none (createPthreadStruct (some idle) k).1
  have configured : StacksKept k (configureThread idle none (createPthreadStruct (some idle) k).1) :=
    created.trans (.of_fields flag live slots fun t => by rw [configureThread_state])
  obtain ⟨flag', live', slots'⟩ := activateThread_stacks idle
    (configureThread idle none (createPthreadStruct (some idle) k).1)
  generalize eq : activateThread idle (configureThread idle none (createPthreadStruct (some idle) k).1) =
    w at flag' live' slots'
  have ended : ∀ t, w.state t = finishedThread ↔
      (createPthreadStruct (some idle) k).1.state t = finishedThread := by
    intro t
    rw [← eq, activateThread_over, configureThread_state]
  have activated : StacksKept k w := created.trans (.of_fields (flag'.trans flag) (live'.trans live)
    (slots'.trans slots) ended)
  have alive : w.live idle = true := by
    rw [live', live]
    simp [createPthreadStruct]
  have active : w.state idle ≠ finishedThread := by
    rw [ne_eq, ended]
    simp [Kernel.state, createPthreadStruct]
    decide
  have new : w.kentrySp idle = none := by
    rw [slots', slots]
    simp [createPthreadStruct]
  have mark : w.kstackFlag = 1#32 := activated.flag.trans start.flag
  have found : (List.range 32).find? (fun i => !isbitset w.kstackFlag i) = some 1 := by
    rw [mark]
    decide
  obtain ⟨good, numbered⟩ := allocKstack_exclusive (activated.good start.good)
    (start.numbered.keep activated.slots) alive active new found
  have first : (allocKstack idle w).idleThread = boot := by
    rw [← start.idle, ← eq]
    have idle' := congrArg Kernel.idleThread (activateThread_only idle
      (configureThread idle none (createPthreadStruct (some idle) k).1))
    have idle'' := congrArg Kernel.idleThread
      (configureThread_only idle none (createPthreadStruct (some idle) k).1)
    exact idle'.trans idle''
  have returned := finishThread_returned boot (allocKstack idle w)
  have bootAlive : (allocKstack idle w).live boot = true := by
    show w.live boot = true
    rw [live', live]
    simp [createPthreadStruct, Ne.symm apart, start.live]
  have bootActive : (allocKstack idle w).state boot ≠ finishedThread := by
    show w.state boot ≠ finishedThread
    rw [ne_eq, ended]
    simpa [Kernel.state, createPthreadStruct, Ne.symm apart] using start.active
  have finished := (returned.exclusive good numbered bootAlive).mpr fun done => absurd done bootActive
  have numbered' := numbered.keep returned.slots
  simp only [pthreadCreateIdleSys]
  rw [eq, first]
  generalize ended : finishThread boot (allocKstack idle w) = x at finished numbered'
  have placed : StacksKept x { x with idleThread := idle, currentThread := idle } :=
    .of_fields rfl rfl rfl fun _ => Iff.rfl
  have asleep := placed.trans (suspendThread_stacks idle _)
  have lowered := asleep.trans (changeThreadPrio_stacks idle idleSchedPriority _)
  have awake := lowered.trans (activateThread_kept idle _)
  exact ⟨awake.good finished, numbered'.keep awake.slots⟩

/-- With at most 32 threads started at a time, the stacks stay exclusive all along
    exactly if no FINISHED thread is deleted while its old stack is in use. -/
theorem stacks_exclusive_iff [Fintype T] (now : Duration) (boot idle : T) (apart : idle ≠ boot)
    (ops : List (StackOp T)) (w : Kernel T) (es : List Unit)
    (fits : Lts.Along StackOp.step StackOp.Fits (idleKernel now boot idle) ops)
    (run : Lts.exec StackOp.step (idleKernel now boot idle) ops = some (w, es)) :
    (∀ before after x past, ops = before ++ after →
        Lts.exec StackOp.step (idleKernel now boot idle) before = some (x, past) →
        StacksExclusive x) ↔
      Lts.Along StackOp.step StackOp.Once (idleKernel now boot idle) ops := by
  obtain ⟨good, numbered⟩ := idleKernel_exclusive now apart
  exact Lts.good_iff_along
    (fun k op x es numbered good fits taken => StackOp.step_exclusive numbered good fits taken) ops
    numbered good fits run

instance (k : Kernel T) : (op : StackOp T) → Decidable (op.Once k)
  | .deleteNp t => inferInstanceAs (Decidable (k.state t = finishedThread →
      ∀ i ∈ k.kentrySp t, isbitset k.kstackFlag i = false))
  | .create _ _ _ | .dispatch _ _ | .exit | .join _ | .rejoin _ => isTrue trivial

theorem fits_of_few [Fintype T] (few : Fintype.card T ≤ 32) (ops : List (StackOp T)) (k : Kernel T) :
    Lts.Along StackOp.step StackOp.Fits k ops := by
  induction ops generalizing k with
  | nil => trivial
  | cons op ops ih =>
    refine ⟨fun w es _ => ?_, fun w es _ => ih w⟩
    exact (Finset.card_le_univ _).trans few

theorem stacks_exclusive_iff_two :
    ∃ w, Lts.exec StackOp.step (idleKernel 0 (0 : Fin 5) 1)
        [.create 2 true none, .dispatch 0 2, .exit, .dispatch 0 1, .deleteNp 2, .create 3 true none,
          .dispatch 0 3] = some (w, []) ∧
      OwnsStack w 3 0 ∧ StacksExclusive w := by
  have final : (Lts.exec StackOp.step (idleKernel 0 (0 : Fin 5) 1)
      [.create 2 true none, .dispatch 0 2, .exit, .dispatch 0 1, .deleteNp 2, .create 3 true none,
        .dispatch 0 3]).map (fun r => (r.2, decide (OwnsStack r.1 3 0))) = some ([], true) := by
    decide +kernel
  obtain ⟨⟨w, es⟩, run, there⟩ := Option.map_eq_some_iff.mp final
  simp only [Prod.mk.injEq, decide_eq_true_eq] at there
  obtain ⟨rfl, owns⟩ := there
  have good := (stacks_exclusive_iff 0 (0 : Fin 5) 1 (by decide) _ w [] (fits_of_few (by decide) _ _)
    run).mpr (by decide +kernel)
  exact ⟨w, run, owns, good _ [] w [] (by simp) run⟩

/-- Thread 3 has the stack of the exited thread 2 when that one is deleted; thread
    4 then gets it too. -/
theorem stack_shared :
    ∃ w, Lts.exec StackOp.step (idleKernel 0 (0 : Fin 5) 1)
        [.create 2 true none, .dispatch 0 2, .exit, .dispatch 0 1, .create 3 true none, .dispatch 0 3,
          .deleteNp 2, .create 4 true none, .dispatch 0 4] = some (w, []) ∧
      Lts.Along StackOp.step StackOp.Fits (idleKernel 0 (0 : Fin 5) 1)
        [.create 2 true none, .dispatch 0 2, .exit, .dispatch 0 1, .create 3 true none, .dispatch 0 3,
          .deleteNp 2, .create 4 true none, .dispatch 0 4] ∧
      OwnsStack w 3 0 ∧ OwnsStack w 4 0 ∧ ¬StacksExclusive w := by
  have final : (Lts.exec StackOp.step (idleKernel 0 (0 : Fin 5) 1)
      [.create 2 true none, .dispatch 0 2, .exit, .dispatch 0 1, .create 3 true none, .dispatch 0 3,
        .deleteNp 2, .create 4 true none, .dispatch 0 4]).map
      (fun r => (r.2, decide (OwnsStack r.1 3 0 ∧ OwnsStack r.1 4 0))) = some ([], true) := by
    decide +kernel
  obtain ⟨⟨w, es⟩, run, there⟩ := Option.map_eq_some_iff.mp final
  simp only [Prod.mk.injEq, decide_eq_true_eq] at there
  obtain ⟨rfl, third, fourth⟩ := there
  refine ⟨w, run, fits_of_few (by decide) _ _, third, fourth, fun good => ?_⟩
  have same := good.apart 3 4 0 third fourth
  cases same

end L4ertl
