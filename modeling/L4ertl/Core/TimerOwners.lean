import L4ertl.Core.Frame
import L4ertl.Lib.Lts

/-!
One table of timers for the sleeping of threads and for the applications
(time.c, sched.c). The index that a call gets is signed, its check knows only the
upper end of the table, and alloc_ktimer has -1 for a full table.
-/
namespace L4ertl
open Intrusive
variable {T : Type}

def UseKept (k w : Kernel T) : Prop := ∀ i, (w.timerArray i).inUse = (k.timerArray i).inUse

theorem UseKept.refl (k : Kernel T) : UseKept k k := fun _ => rfl

theorem UseKept.trans {k w x : Kernel T} (first : UseKept k w) (second : UseKept w x) : UseKept k x :=
  fun i => (second i).trans (first i)

theorem setTimer_use {i : Nat} {x : Ktimer T} {k : Kernel T} (use : x.inUse = (k.timerArray i).inUse) :
    UseKept k (setTimer i x k) := by
  intro j
  simp only [setTimer, Function.update_apply]
  split
  · rename_i same
    rw [same]
    exact use
  · rfl

theorem inUse_of_flags {x : Ktimer T} (flags : x.flags = timerInUse) : x.inUse = true := by
  rw [Ktimer.inUse, flags]
  decide

theorem inUse_and (x : Ktimer T) {mask : Word} (keeps : mask &&& timerInUse = timerInUse) :
    Ktimer.inUse { x with flags := x.flags &&& mask } = x.inUse := by
  simp only [Ktimer.inUse]
  rw [BitVec.and_assoc, keeps]

theorem inUse_or (x : Ktimer T) {bits : Word} (other : bits &&& timerInUse = 0#32) :
    Ktimer.inUse { x with flags := x.flags ||| bits } = x.inUse := by
  simp only [Ktimer.inUse]
  rw [BitVec.and_or_distrib_right, other, BitVec.or_zero]

theorem setAbstime_use (i : Nat) (flags : Word) (k : Kernel T) : UseKept k (setAbstime i flags k) := by
  apply setTimer_use
  have other : (flags &&& timerAbstime) &&& timerInUse = 0#32 := by
    rw [BitVec.and_assoc, show timerAbstime &&& timerInUse = 0#32 from by decide, BitVec.and_zero]
  have set := inUse_or { k.timerArray i with flags := (k.timerArray i).flags &&& ~~~timerAbstime } other
  exact set.trans (inUse_and (k.timerArray i) (by decide))

theorem disarmTimer_use {id : Int} {k w : Kernel T} (ok : disarmTimer id k = .ok w) : UseKept k w := by
  simp only [disarmTimer, bind, bind_ok, pure, Except.pure, Except.ok.injEq] at ok
  obtain ⟨i, _, h, _, rfl⟩ := ok
  exact setTimer_use (k := { k with timerHeap := h.1 }) (inUse_and (k.timerArray i) (by decide))

theorem disarmIfArmed_use {id : Int} {x : Ktimer T} {k w : Kernel T}
    (ok : disarmIfArmed id x k = .ok w) : UseKept k w := by
  unfold disarmIfArmed at ok
  split at ok
  · exact disarmTimer_use ok
  · cases ok
    exact .refl k

theorem armTimer_use {now : Clocks} {id : Int} {value interval : Duration} {k w : Kernel T} {v : Int}
    (ok : armTimer now id value interval k = .ok (w, v)) : UseKept k w := by
  simp only [armTimer, bind, bind_ok, pure, Except.pure] at ok
  obtain ⟨i, _, ok⟩ := ok
  split at ok
  · cases ok
    exact .refl k
  · simp only [bind_ok] at ok
    obtain ⟨expiry, _, h, _, ok⟩ := ok
    cases ok
    exact setTimer_use (k := k) (inUse_or (k.timerArray i) (by decide))

theorem rearmTimer_use {ctime : Duration} {i : Nat} {k w : Kernel T}
    (ok : rearmTimer ctime i k = .ok w) : UseKept k w := by
  rcases rearmTimer_cases ok with ⟨_, _, h, _, rfl, _, rfl⟩ | ⟨_, rfl⟩
  · exact setTimer_use (k := k) rfl
  · exact setTimer_use (inUse_and (k.timerArray i) (by decide))

variable [DecidableEq T]

theorem serveTimer_use {ctime : Duration} {i : Nat} {k w : Kernel T} {v : Int}
    (ok : serveTimer ctime i k = .ok (w, v)) : UseKept k w := by
  obtain ⟨acted, h, _, act, _, rearm⟩ := serveTimer_parts ok
  intro j
  rw [rearmTimer_use rearm j]
  exact congrArg (fun table => (table j).inUse) (timerAct_timers act).1

theorem updateLoop_use (fuel : Nat) {now : Nat → Clocks} {r q : TimerRound T}
    (ok : updateLoop fuel now r = .ok q) : UseKept r.kernel q.kernel := by
  refine updateLoop_invariant (P := fun q => UseKept r.kernel q.kernel) fuel ?_ (.refl _) ok
  intro q n i ctime k action top kept _ _ served _
  exact kept.trans (serveTimer_use served)

theorem updateHwtimer_use {fuel : Nat} {now : Nat → Clocks} {k : Kernel T} {r : TimerRound T}
    (ok : updateHwtimer fuel now k = .ok r) : UseKept k r.kernel := by
  obtain ⟨top, q, d, _, looped, rfl⟩ := updateHwtimer_loop ok
  exact updateLoop_use fuel looped

theorem timerSettimeSys_use {fuel : Nat} {now : Nat → Clocks} {id : Int} {flags : Word}
    {value : Option Itimerspec} {k w : Kernel T} {v : Int} {o : Option Itimerspec}
    (ok : timerSettimeSys fuel now id flags value k = .ok (w, v, o)) : UseKept k w := by
  rcases timerSettimeSys_cases ok with ⟨_, rfl⟩ | ⟨_, i, disarmed, _, disarm, rest⟩
  · exact .refl k
  · have marked := (disarmIfArmed_use disarm).trans (setAbstime_use i flags disarmed)
    rcases rest with rfl | ⟨x, armed, _, r, _, _, arm, update, rfl⟩
    · exact marked
    · exact (marked.trans (armTimer_use arm)).trans (updateHwtimer_use update)

def Indexed {α : Type} (x : Except Fault α) : Prop := x ≠ .error .timerIndex

theorem Indexed.bind {α β : Type} {x : Except Fault α} {f : α → Except Fault β} (first : Indexed x)
    (rest : ∀ a, Indexed (f a)) : Indexed (x >>= f) := Avoids.bind first fun a _ => rest a

theorem indexed_pure {α : Type} (a : α) : Indexed (pure a : Except Fault α) := nofun

section
omit [DecidableEq T]

theorem TimerHeap.get_indexed (h : TimerHeap) (i : Nat) : Indexed (h.get i) := by
  unfold TimerHeap.get
  split <;> nofun

theorem TimerHeap.set_indexed (h : TimerHeap) (i : Nat) (p : Option Nat) : Indexed (h.set i p) := by
  unfold TimerHeap.set
  split <;> nofun

theorem isMin_indexed (timers : Nat → Ktimer T) (p q : Option Nat) : Indexed (isMin timers p q) := by
  cases p with
  | none => nofun
  | some i =>
    cases q with
    | none => nofun
    | some j => nofun

theorem lesserChild_indexed (timers : Nat → Ktimer T) (h : TimerHeap) (child : Nat) :
    Indexed (lesserChild timers h child) := by
  unfold lesserChild
  split
  · exact (h.get_indexed _).bind fun right => (h.get_indexed _).bind fun left =>
      (isMin_indexed timers right left).bind fun less => indexed_pure _
  · exact indexed_pure _

theorem heapifyLoop_indexed (timers : Nat → Ktimer T) (p : Option Nat) (fuel : Nat) :
    ∀ top h, Indexed (heapifyLoop timers p fuel top h) := by
  induction fuel with
  | zero => exact fun _ _ => nofun
  | succ fuel ih =>
    intro top h
    unfold heapifyLoop
    split
    · refine (lesserChild_indexed timers h _).bind fun child => (h.get_indexed child).bind fun below =>
        (isMin_indexed timers p below).bind fun stop => ?_
      split
      · exact indexed_pure _
      · exact (h.set_indexed top below).bind fun h => (h.set_indexed child p).bind fun h => ih child h
    · exact indexed_pure _

theorem heapify_indexed (timers : Nat → Ktimer T) (h : TimerHeap) (top : Nat) :
    Indexed (heapify timers h top) :=
  (h.get_indexed top).bind fun p => heapifyLoop_indexed timers p _ top h

theorem heapRemoveMin_indexed (timers : Nat → Ktimer T) (h : TimerHeap) :
    Indexed (heapRemoveMin timers h) := by
  unfold heapRemoveMin
  split
  · exact (h.get_indexed 1).bind fun _ => (h.get_indexed _).bind fun last => (h.set_indexed 1 last).bind fun h =>
      (heapify_indexed timers _ 1).bind fun _ => indexed_pure _
  · exact indexed_pure _

theorem heapInsertLoop_indexed (timers : Nat → Ktimer T) (k fuel : Nat) :
    ∀ i h, Indexed (heapInsertLoop timers k fuel i h) := by
  induction fuel with
  | zero => exact fun _ _ => nofun
  | succ fuel ih =>
    intro i h
    unfold heapInsertLoop
    split
    · refine (h.get_indexed _).bind fun above => (isMin_indexed timers _ above).bind fun less => ?_
      split
      · exact (h.set_indexed i above).bind fun h => ih _ h
      · exact h.set_indexed i _
    · exact h.set_indexed i _

theorem heapInsert_indexed (timers : Nat → Ktimer T) (h : TimerHeap) (k : Nat) :
    Indexed (heapInsert timers h k) := by
  unfold heapInsert
  split
  · exact indexed_pure _
  · exact (heapInsertLoop_indexed timers k _ _ _).bind fun _ => indexed_pure _

theorem heapLookup_indexed (h : TimerHeap) (k n : Nat) : ∀ i, Indexed (heapLookup h k n i) := by
  induction n with
  | zero => exact fun _ => nofun
  | succ n ih =>
    intro i
    unfold heapLookup
    refine (h.get_indexed i).bind fun here => ?_
    split
    · exact indexed_pure _
    · exact ih (i + 1)

theorem heapRemoveElement_indexed (timers : Nat → Ktimer T) (h : TimerHeap) (k : Nat) :
    Indexed (heapRemoveElement timers h k) := by
  unfold heapRemoveElement
  refine (heapLookup_indexed h k _ 1).bind fun found => ?_
  split
  · split
    · exact (h.get_indexed _).bind fun last => (h.set_indexed _ last).bind fun h =>
        (heapify_indexed timers _ _).bind fun _ => indexed_pure _
    · exact (TimerHeap.set_indexed _ _ _).bind fun _ => indexed_pure _
  · exact indexed_pure _

theorem readClock_indexed (now : Clocks) (k : Kernel T) (x : Ktimer T) : Indexed (readClock now k x) := by
  unfold readClock
  split
  · nofun
  · nofun
  · split <;> nofun

theorem armTimer_indexed {now : Clocks} {id : Int} {value interval : Duration} {k : Kernel T}
    (at_ : Indexed (timerAt id)) : Indexed (armTimer now id value interval k) := by
  unfold armTimer
  refine at_.bind fun i => ?_
  simp only
  split
  · exact indexed_pure _
  · refine Indexed.bind ?_ fun expiry => (heapInsert_indexed _ _ i).bind fun _ => indexed_pure _
    unfold expiryTime
    split
    · exact (readClock_indexed now k _).bind fun _ => indexed_pure _
    · nofun

theorem disarmIfArmed_indexed {id : Int} {x : Ktimer T} {k : Kernel T} (at_ : Indexed (timerAt id)) :
    Indexed (disarmIfArmed id x k) := by
  unfold disarmIfArmed
  split
  · exact at_.bind fun i => (heapRemoveElement_indexed _ _ i).bind fun _ => indexed_pure _
  · nofun

theorem freeKtimer_indexed {id : Int} {k : Kernel T} (at_ : Indexed (timerAt id)) :
    Indexed (freeKtimer id k) :=
  at_.bind fun i => (heapRemoveElement_indexed _ _ i).bind fun _ => indexed_pure _

theorem nextTimer_indexed (now : Clocks) (k : Kernel T) : Indexed (nextTimer now k) := by
  unfold nextTimer heapMin
  refine Indexed.bind ?_ fun top => ?_
  · split
    · exact k.timerHeap.get_indexed 1
    · nofun
  · split
    · exact (readClock_indexed now k _).bind fun _ => indexed_pure _
    · exact indexed_pure _

end

theorem serveTimer_indexed (ctime : Duration) (i : Nat) (k : Kernel T) :
    Indexed (serveTimer ctime i k) := by
  unfold serveTimer
  refine Indexed.bind ?_ fun acted => (heapRemoveMin_indexed _ _).bind fun h => Indexed.bind ?_ fun _ =>
    indexed_pure _
  · unfold timerAct
    split <;> nofun
  · unfold rearmTimer
    refine Indexed.bind ?_ fun again => ?_
    · unfold repeats
      split
      · split <;> nofun
      · nofun
    · split
      · exact (heapInsert_indexed _ _ i).bind fun _ => indexed_pure _
      · exact indexed_pure _

theorem updateLoop_indexed (fuel : Nat) :
    ∀ (now : Nat → Clocks) (r : TimerRound T), Indexed (updateLoop fuel now r) := by
  induction fuel with
  | zero => exact fun _ _ => nofun
  | succ fuel ih =>
    intro now r
    unfold updateLoop
    split
    · nofun
    · split
      · exact (serveTimer_indexed _ _ _).bind fun served => (nextTimer_indexed _ _).bind fun top => ih _ _
      · nofun

theorem updateHwtimer_indexed (fuel : Nat) (now : Nat → Clocks) (k : Kernel T) :
    Indexed (updateHwtimer fuel now k) := by
  unfold updateHwtimer
  refine (nextTimer_indexed _ _).bind fun top => ?_
  split
  · nofun
  · refine (updateLoop_indexed fuel _ _).bind fun r => ?_
    split <;> exact indexed_pure _

/-- `users` are the indices that timer_create_sys returned and that were not
    deleted since. -/
structure TimerSystem (T : Type) where
  kernel : Kernel T
  users : List Int

/-- The calls, each with the thread that makes it; `addr` is what malloc_ex returns. -/
inductive OwnerOp (T : Type) where
  | create (addr : Option T)
  | exit (t : T)
  | timerCreate (t : T) (clockid : Int) (evp : Option Int)
  | timerDelete (t : T) (id : Int)
  | timerSettime (t : T) (fuel : Nat) (now : Nat → Clocks) (id : Int) (flags : Word)
      (value : Option Itimerspec)
  | timerGettime (t : T) (now : Clocks) (id : Int) (wanted : Bool)
  | timerGetoverrun (t : T) (id : Int)

section
omit [DecidableEq T]

def asThread (t : T) (k : Kernel T) : Kernel T := { k with currentThread := t }

def Kernel.Unfinished (k : Kernel T) (t : T) : Prop := k.live t = true ∧ k.state t ≠ finishedThread

instance (k : Kernel T) (t : T) : Decidable (k.Unfinished t) := inferInstanceAs (Decidable (_ ∧ _))

def Kernel.TimersFull (k : Kernel T) : Prop := ∀ i, i < maxTimers → (k.timerArray i).inUse = true

instance (k : Kernel T) : Decidable k.TimersFull :=
  inferInstanceAs (Decidable (∀ i, i < maxTimers → (k.timerArray i).inUse = true))

def Kernel.NoTimer (k : Kernel T) (id : Int) : Prop :=
  id < 0 ∨ (maxTimers : Int) ≤ id ∨ (k.timerArray id.toNat).inUse = false

end

/-- The kernel afterwards and what the call returns; create_pthread_struct counts
    as 0, or -1 for NULL. -/
def OwnerOp.run (k : Kernel T) : OwnerOp T → Except Fault (Kernel T × Int)
  | .create addr =>
    let (w, thread) := createPthreadStruct addr k
    .ok (w, if thread.isSome then 0 else -1)
  | .exit t => do
    let w ← pthreadExitSys (asThread t k)
    return (w, 0)
  | .timerCreate t clockid evp => timerCreateSys clockid evp (asThread t k)
  | .timerDelete t id => timerDeleteSys id (asThread t k)
  | .timerSettime t fuel now id flags value => do
    let (w, v, _) ← timerSettimeSys fuel now id flags value (asThread t k)
    return (w, v)
  | .timerGettime t now id wanted => do
    let (w, v, _) ← timerGettimeSys now id wanted (asThread t k)
    return (w, v)
  | .timerGetoverrun t id => timerGetoverrunSys id (asThread t k)

omit [DecidableEq T] in
/-- The memory pool hands out free memory, and only unfinished threads make calls. -/
def OwnerOp.Legal (k : Kernel T) : OwnerOp T → Prop
  | .create addr => ∀ t, addr = some t → k.live t = false
  | .exit t | .timerCreate t _ _ | .timerDelete t _ | .timerSettime t _ _ _ _ _ | .timerGettime t _ _ _
  | .timerGetoverrun t _ => k.Unfinished t

omit [DecidableEq T] in
def OwnerOp.account (k : Kernel T) (v : Int) (users : List Int) : OwnerOp T → List Int
  | .timerCreate _ _ _ => if v = 0 then freeTimer k.timerArray :: users else users
  | .timerDelete _ id => if v = 0 then users.filter (· ≠ id) else users
  | _ => users

def TimerSystem.step (s : TimerSystem T) (op : OwnerOp T) : Option (TimerSystem T × List Unit) :=
  match op.run s.kernel with
  | .ok (w, v) => some (⟨w, op.account s.kernel v s.users⟩, [])
  | .error _ => none

section
omit [DecidableEq T]

structure TimerSystem.Owned (s : TimerSystem T) : Prop where
  sleeps : ∀ t, s.kernel.Unfinished t → ∃ i, i < maxTimers ∧ s.kernel.sleepKtimer t = (i : Int) ∧
    (s.kernel.timerArray i).inUse = true ∧ (s.kernel.timerArray i).owner = some t
  apart : ∀ t u, s.kernel.Unfinished t → s.kernel.Unfinished u → t ≠ u →
    s.kernel.sleepKtimer t ≠ s.kernel.sleepKtimer u
  reserved : ∀ t, s.kernel.Unfinished t → s.kernel.sleepKtimer t ∉ s.users

def OwnerOp.id : OwnerOp T → Option Int
  | .timerDelete _ id | .timerSettime _ _ _ id _ _ | .timerGettime _ _ id _ | .timerGetoverrun _ id => some id
  | _ => none

def OwnerOp.allocates : OwnerOp T → Bool
  | .create _ | .timerCreate _ _ _ => true
  | _ => false

end

structure OwnerOp.Sound (s : TimerSystem T) (op : OwnerOp T) : Prop where
  inside : op.run s.kernel ≠ .error .timerIndex
  refuses : ∀ id, op.id = some id → s.kernel.NoTimer id → ∃ w, op.run s.kernel = .ok (w, -1) ∧
    w.timerArray = s.kernel.timerArray ∧ w.timerHeap = s.kernel.timerHeap
  exhausted : op.allocates = true → s.kernel.TimersFull → ∃ w, op.run s.kernel = .ok (w, -1) ∧
    w.timerArray = s.kernel.timerArray ∧ w.threadList = s.kernel.threadList ∧
    w.threadNode = s.kernel.threadNode ∧ w.live = s.kernel.live
  owned : ∀ w es, s.step op = some (w, es) → w.Owned

omit [DecidableEq T] in
/-- The table has room, an index is not negative, and no thread's own timer is
    deleted. -/
def OwnerOp.Fits (s : TimerSystem T) : OwnerOp T → Prop
  | .create addr => addr = none ∨ ¬s.kernel.TimersFull
  | .exit _ => True
  | .timerCreate _ clockid _ => clockOf clockid = none ∨ ¬s.kernel.TimersFull
  | .timerDelete _ id => 0 ≤ id ∧ ∀ u, s.kernel.Unfinished u → s.kernel.sleepKtimer u ≠ id
  | .timerSettime _ _ _ id _ _ | .timerGettime _ _ id _ | .timerGetoverrun _ id => 0 ≤ id

section
omit [DecidableEq T]

/-- What holds between calls. The action tells the two kinds of timers apart. -/
structure TimersShared (k : Kernel T) (users : List Int) : Prop where
  sleeps : ∀ t, k.Unfinished t → ∃ i, i < maxTimers ∧ k.sleepKtimer t = (i : Int) ∧
    (k.timerArray i).inUse = true ∧ (k.timerArray i).owner = some t ∧ (k.timerArray i).action = .wakeup
  users : ∀ id ∈ users, ∃ i, i < maxTimers ∧ id = (i : Int) ∧
    (k.timerArray i).inUse = true ∧ (k.timerArray i).action = .kill

theorem TimersShared.owned {k : Kernel T} {users : List Int} (shared : TimersShared k users) :
    TimerSystem.Owned ⟨k, users⟩ := by
  constructor
  · intro t unfinished
    obtain ⟨i, inside, sleep, use, owner, _⟩ := shared.sleeps t unfinished
    exact ⟨i, inside, sleep, use, owner⟩
  · intro t u unfinished unfinished' other same
    obtain ⟨i, _, sleep, _, owner, _⟩ := shared.sleeps t unfinished
    obtain ⟨j, _, sleep', _, owner', _⟩ := shared.sleeps u unfinished'
    simp only at same
    have index : i = j := by omega
    rw [index, owner'] at owner
    exact other (Option.some.inj owner).symm
  · intro t unfinished member
    obtain ⟨i, _, sleep, _, _, wakeup⟩ := shared.sleeps t unfinished
    obtain ⟨j, _, user, _, kill⟩ := shared.users _ member
    simp only at user
    have index : i = j := by omega
    rw [index, kill] at wakeup
    cases wakeup

theorem TimersShared.keep {k w : Kernel T} {users : List Int} (shared : TimersShared k users)
    (fewer : ∀ t, w.Unfinished t → k.Unfinished t) (timers : w.sleepKtimer = k.sleepKtimer)
    (use : UseKept k w) (owners : OwnersKept k w) : TimersShared w users := by
  constructor
  · intro t unfinished
    obtain ⟨i, inside, sleep, used, owner, action⟩ := shared.sleeps t (fewer t unfinished)
    refine ⟨i, inside, ?_, ?_, ?_, ?_⟩
    · rw [timers, sleep]
    · rw [use i, used]
    · rw [(owners i).1, owner]
    · rw [(owners i).2, action]
  · intro id member
    obtain ⟨i, inside, same, used, action⟩ := shared.users id member
    refine ⟨i, inside, same, ?_, ?_⟩
    · rw [use i, used]
    · rw [(owners i).2, action]

theorem TimersShared.write {k w : Kernel T} {users users' : List Int} (shared : TimersShared k users)
    {i : Nat} (table : ∀ j, j ≠ i → w.timerArray j = k.timerArray j) (timers : w.sleepKtimer = k.sleepKtimer)
    (fewer : ∀ t, w.Unfinished t → k.Unfinished t ∧ k.sleepKtimer t ≠ (i : Int))
    (rest : ∀ id ∈ users', id ∈ users ∧ id ≠ (i : Int)) : TimersShared w users' := by
  constructor
  · intro t unfinished
    obtain ⟨before, other⟩ := fewer t unfinished
    obtain ⟨j, inside, sleep, used, owner, action⟩ := shared.sleeps t before
    have apart : j ≠ i := by
      intro same
      rw [sleep, same] at other
      exact other rfl
    rw [timers, ← table j apart] at *
    exact ⟨j, inside, sleep, used, owner, action⟩
  · intro id member
    obtain ⟨before, other⟩ := rest id member
    obtain ⟨j, inside, same, used, action⟩ := shared.users id before
    have apart : j ≠ i := by
      intro index
      rw [same, index] at other
      exact other rfl
    rw [← table j apart] at used action
    exact ⟨j, inside, same, used, action⟩

theorem freeTimer_cases (k : Kernel T) :
    (freeTimer k.timerArray = -1 ∧ k.TimersFull) ∨
      ∃ i, i < maxTimers ∧ freeTimer k.timerArray = (i : Int) ∧ (k.timerArray i).inUse = false ∧
        ¬k.TimersFull := by
  unfold freeTimer
  split
  · rename_i i found
    right
    have inside : i < maxTimers := List.mem_range.mp (List.mem_of_find?_eq_some found)
    have free : (k.timerArray i).inUse = false := by
      have holds := List.find?_some found
      simpa using holds
    refine ⟨i, inside, rfl, free, ?_⟩
    intro full
    rw [full i inside] at free
    cases free
  · rename_i none
    left
    refine ⟨rfl, ?_⟩
    intro i inside
    have used := List.find?_eq_none.mp none i (List.mem_range.mpr inside)
    simpa using used

theorem timerAt_index {i : Nat} (inside : i < maxTimers) : timerAt (i : Int) = .ok i := by
  unfold timerAt
  rw [if_pos ⟨by omega, by omega⟩]
  rfl

theorem timerUnused_eq {id : Int} (low : 0 ≤ id) (k : Kernel T) :
    timerUnused id k = .ok (decide ((maxTimers : Int) ≤ id ∨ (k.timerArray id.toNat).inUse = false)) := by
  unfold timerUnused
  by_cases high : (maxTimers : Int) ≤ id
  · simp [high, pure, Except.pure]
  · have at_ : timerAt id = .ok id.toNat := if_pos ⟨low, by omega⟩
    simp [high, at_, bind, Except.bind, pure, Except.pure, Ktimer.inUse]

theorem index_cases {id : Int} (low : 0 ≤ id) (k : Kernel T) :
    (k.NoTimer id ∧ timerUnused id k = .ok true) ∨
      ∃ i, i < maxTimers ∧ id = (i : Int) ∧ timerAt id = .ok i ∧ ¬k.NoTimer id ∧
        timerUnused id k = .ok false := by
  have checked := timerUnused_eq low k
  by_cases none : (maxTimers : Int) ≤ id ∨ (k.timerArray id.toNat).inUse = false
  · rw [decide_eq_true none] at checked
    exact Or.inl ⟨Or.inr none, checked⟩
  · rw [decide_eq_false none] at checked
    rw [not_or, not_le] at none
    refine Or.inr ⟨id.toNat, by omega, by omega, if_pos ⟨low, none.1⟩, ?_, checked⟩
    rintro (negative | high | free)
    · omega
    · omega
    · exact none.2 free

end

omit [DecidableEq T] in
theorem TimersShared.asThread {k : Kernel T} {users : List Int} (shared : TimersShared k users) (t : T) :
    TimersShared (asThread t k) users := ⟨shared.sleeps, shared.users⟩

omit [DecidableEq T] in
theorem TimersShared.claim {k : Kernel T} {users : List Int} (shared : TimersShared k users) {i : Nat}
    (free : (k.timerArray i).inUse = false) :
    (∀ t, k.Unfinished t → k.sleepKtimer t ≠ (i : Int)) ∧ ∀ id ∈ users, id ≠ (i : Int) := by
  constructor
  · intro t unfinished same
    obtain ⟨j, _, sleep, used, _⟩ := shared.sleeps t unfinished
    have index : j = i := by omega
    rw [index, free] at used
    cases used
  · intro id member same
    obtain ⟨j, _, user, used, _⟩ := shared.users id member
    have index : j = i := by omega
    rw [index, free] at used
    cases used

theorem TimersShared.create {k : Kernel T} {users : List Int} (shared : TimersShared k users) {t : T}
    (unused : k.live t = false) (room : ¬k.TimersFull) :
    TimersShared (createPthreadStruct (some t) k).1 users := by
  obtain ⟨_, full⟩ | ⟨i, inside, found, free, _⟩ := freeTimer_cases k
  · exact absurd full room
  obtain ⟨threads, others⟩ := shared.claim free
  have table : (createPthreadStruct (some t) k).1.timerArray = Function.update k.timerArray i
      ⟨some t, 0, 0, timerInUse, .monotonic, .wakeup, 0⟩ := by
    simp [createPthreadStruct, allocKtimer, found]
  have sleep : (createPthreadStruct (some t) k).1.sleepKtimer =
      Function.update k.sleepKtimer t (i : Int) := by
    simp [createPthreadStruct, allocKtimer, found]
  have alive : (createPthreadStruct (some t) k).1.live = Function.update k.live t true := rfl
  have flags : (createPthreadStruct (some t) k).1.threadFlags =
      Function.update k.threadFlags t (setThreadState 0#32 suspendedThread) := rfl
  constructor
  · intro u unfinished
    by_cases self : u = t
    · subst self
      refine ⟨i, inside, ?_, ?_, ?_, ?_⟩
      · rw [sleep, Function.update_self]
      · rw [table, Function.update_self]
        exact inUse_of_flags rfl
      · rw [table, Function.update_self]
      · rw [table, Function.update_self]
    · have before : k.Unfinished u := by
        obtain ⟨live, state⟩ := unfinished
        rw [alive, Function.update_of_ne self] at live
        rw [Kernel.state, flags, Function.update_of_ne self] at state
        exact ⟨live, state⟩
      obtain ⟨j, within, own, used, owner, action⟩ := shared.sleeps u before
      have apart : j ≠ i := by
        intro same
        exact threads u before (by rw [own, same])
      refine ⟨j, within, ?_, ?_, ?_, ?_⟩
      · rw [sleep, Function.update_of_ne self, own]
      · rw [table, Function.update_of_ne apart, used]
      · rw [table, Function.update_of_ne apart, owner]
      · rw [table, Function.update_of_ne apart, action]
  · intro id member
    obtain ⟨j, within, user, used, action⟩ := shared.users id member
    have apart : j ≠ i := by
      intro same
      exact others id member (by rw [user, same])
    refine ⟨j, within, user, ?_, ?_⟩
    · rw [table, Function.update_of_ne apart, used]
    · rw [table, Function.update_of_ne apart, action]

theorem timerCreateSys_room {k : Kernel T} {clockid : Int} (evp : Option Int) {clock : Clockid}
    (known : clockOf clockid = some clock) (room : ¬k.TimersFull) :
    ∃ i x, i < maxTimers ∧ freeTimer k.timerArray = (i : Int) ∧ (k.timerArray i).inUse = false ∧
      x.inUse = true ∧ x.action = .kill ∧ timerCreateSys clockid evp k = .ok (setTimer i x k, 0) := by
  obtain ⟨_, full⟩ | ⟨i, inside, found, free, _⟩ := freeTimer_cases k
  · exact absurd full room
  have small : ¬(maxTimers : Int) ≤ (i : Int) := by omega
  refine ⟨i, ⟨some k.currentThread, 0, 0, timerInUse, clock, .kill, evp.getD sigalarm⟩, inside, found,
    free, inUse_of_flags rfl, rfl, ?_⟩
  simp [timerCreateSys, known, allocKtimer, found, small, timerAt_index inside, bind, Except.bind, pure,
    Except.pure, setTimer]

omit [DecidableEq T] in
theorem TimersShared.timerCreate {k : Kernel T} {users : List Int} (shared : TimersShared k users)
    {i : Nat} {x : Ktimer T} (inside : i < maxTimers) (free : (k.timerArray i).inUse = false)
    (use : x.inUse = true) (action : x.action = .kill) :
    TimersShared (setTimer i x k) ((i : Int) :: users) := by
  obtain ⟨threads, others⟩ := shared.claim free
  have rest : TimersShared (setTimer i x k) users :=
    shared.write (fun j apart => Function.update_of_ne apart ..) rfl
      (fun t unfinished => ⟨unfinished, threads t unfinished⟩) fun id member => ⟨member, others id member⟩
  constructor
  · exact rest.sleeps
  · intro id member
    rcases List.mem_cons.mp member with rfl | old
    · refine ⟨i, inside, rfl, ?_, ?_⟩
      · simpa [setTimer] using use
      · simpa [setTimer] using action
    · exact rest.users id old

theorem TimersShared.woken {k w : Kernel T} {users : List Int} {P : T → Prop} (shared : TimersShared k users)
    (woken : Woken P k w) (use : UseKept k w) (owners : OwnersKept k w) : TimersShared w users := by
  have timers := congrArg Kernel.sleepKtimer woken.only
  have live := congrArg Kernel.live woken.only
  refine shared.keep ?_ timers use owners
  intro t unfinished
  refine ⟨?_, ?_⟩
  · rw [← congrFun live t]
    exact unfinished.1
  · rcases woken.state t with same | ⟨_, before, _⟩
    · rw [← same]
      exact unfinished.2
    · exact before

omit [DecidableEq T] in
theorem freeKtimer_table {i : Nat} {id : Int} {k w : Kernel T} (at_ : timerAt id = .ok i)
    (ok : freeKtimer id k = .ok w) : ∀ j, j ≠ i → w.timerArray j = k.timerArray j := by
  simp only [freeKtimer, at_, bind, bind_ok, pure, Except.pure, Except.ok.injEq] at ok
  obtain ⟨_, same, h, _, rfl⟩ := ok
  cases same
  intro j apart
  exact Function.update_of_ne apart ..

omit [DecidableEq T] in
theorem TimersShared.delete {k w : Kernel T} {users : List Int} (shared : TimersShared k users) {i : Nat}
    {id : Int} (index : id = (i : Int)) (at_ : timerAt id = .ok i)
    (spared : ∀ u, k.Unfinished u → k.sleepKtimer u ≠ id) (ok : freeKtimer id k = .ok w) :
    TimersShared w (users.filter (· ≠ id)) := by
  have only := (freeKtimer_book ok).1
  have timers := congrArg Kernel.sleepKtimer only
  have live := congrArg Kernel.live only
  have flags := congrArg Kernel.threadFlags only
  refine shared.write (freeKtimer_table at_ ok) timers ?_ ?_
  · intro t unfinished
    have before : k.Unfinished t := by
      rw [Kernel.Unfinished, Kernel.state, flags, live] at unfinished
      exact unfinished
    rw [← index]
    exact ⟨before, spared t before⟩
  · intro x member
    rw [← index]
    simpa using member

theorem TimersShared.exit {k w : Kernel T} {users : List Int} (shared : TimersShared k users)
    (unfinished : k.Unfinished k.currentThread) (ok : pthreadExitSys k = .ok w) :
    TimersShared w users := by
  obtain ⟨i, inside, sleep, _, owner, action⟩ := shared.sleeps _ unfinished
  have at_ : timerAt (k.sleepKtimer k.currentThread) = .ok i := by rw [sleep, timerAt_index inside]
  obtain ⟨freed, free, table, woken⟩ := pthreadExitSys_freed ok
  have book := (freeKtimer_book free).1
  have finish := finishThread_only k.currentThread freed
  have timers : w.sleepKtimer = k.sleepKtimer := by
    have first := congrArg Kernel.sleepKtimer woken.only
    have second := congrArg Kernel.sleepKtimer finish
    have third := congrArg Kernel.sleepKtimer book
    exact (first.trans second).trans third
  have live : w.live = k.live := by
    have first := congrArg Kernel.live woken.only
    have second := congrArg Kernel.live finish
    have third := congrArg Kernel.live book
    exact (first.trans second).trans third
  have flags := congrArg Kernel.threadFlags book
  have before : ∀ t, w.Unfinished t → t ≠ k.currentThread ∧ k.Unfinished t := by
    intro t after
    have running : (finishThread k.currentThread freed).state t ≠ finishedThread := by
      rcases woken.state t with same | ⟨_, before, _⟩
      · rw [← same]
        exact after.2
      · exact before
    rw [finishThread_state] at running
    have other : t ≠ k.currentThread := by
      intro self
      rw [if_pos self] at running
      exact running rfl
    rw [if_neg other, Kernel.state, flags] at running
    exact ⟨other, by rw [← live]; exact after.1, running⟩
  refine shared.write (i := i) ?_ timers ?_ ?_
  · intro j apart
    rw [table]
    exact freeKtimer_table at_ free j apart
  · intro t after
    obtain ⟨other, was⟩ := before t after
    refine ⟨was, ?_⟩
    intro same
    obtain ⟨j, _, own, _, owner', _⟩ := shared.sleeps t was
    have index : j = i := by omega
    rw [index, owner] at owner'
    exact other (Option.some.inj owner').symm
  · intro id member
    refine ⟨member, ?_⟩
    intro same
    obtain ⟨j, _, user, _, kill⟩ := shared.users id member
    have index : j = i := by omega
    rw [index, action] at kill
    cases kill

theorem OwnerOp.Sound.of {s : TimerSystem T} {op : OwnerOp T}
    (inside : Indexed (op.run s.kernel))
    (refuses : ∀ id, op.id = some id → s.kernel.NoTimer id → ∃ w, op.run s.kernel = .ok (w, -1) ∧
      w.timerArray = s.kernel.timerArray ∧ w.timerHeap = s.kernel.timerHeap)
    (exhausted : op.allocates = true → s.kernel.TimersFull → ∃ w, op.run s.kernel = .ok (w, -1) ∧
      w.timerArray = s.kernel.timerArray ∧ w.threadList = s.kernel.threadList ∧
      w.threadNode = s.kernel.threadNode ∧ w.live = s.kernel.live)
    (keeps : ∀ w v, op.run s.kernel = .ok (w, v) → TimersShared w (op.account s.kernel v s.users)) :
    op.Sound s ∧ ∀ w es, s.step op = some (w, es) → TimersShared w.kernel w.users := by
  have next : ∀ w es, s.step op = some (w, es) → TimersShared w.kernel w.users := by
    intro w es taken
    unfold TimerSystem.step at taken
    split at taken
    · rename_i x v ran
      cases taken
      exact keeps x v ran
    · cases taken
  exact ⟨⟨inside, refuses, exhausted, fun w es taken => (next w es taken).owned⟩, next⟩

theorem create_sound {s : TimerSystem T} (shared : TimersShared s.kernel s.users) {addr : Option T}
    (legal : (OwnerOp.create addr).Legal s.kernel) (fits : (OwnerOp.create addr).Fits s) :
    (OwnerOp.create addr).Sound s ∧
      ∀ w es, s.step (.create addr) = some (w, es) → TimersShared w.kernel w.users := by
  cases addr with
  | none =>
    apply OwnerOp.Sound.of
    · nofun
    · nofun
    · intro _ _
      exact ⟨s.kernel, rfl, rfl, rfl, rfl, rfl⟩
    · intro w v ran
      cases ran
      exact shared
  | some t =>
    have room : ¬s.kernel.TimersFull := fits.resolve_left nofun
    apply OwnerOp.Sound.of
    · nofun
    · nofun
    · intro _ full
      exact absurd full room
    · intro w v ran
      cases ran
      exact shared.create (legal t rfl) room

theorem timerCreate_sound {s : TimerSystem T} (shared : TimersShared s.kernel s.users) {t : T}
    {clockid : Int} {evp : Option Int} (fits : (OwnerOp.timerCreate t clockid evp).Fits s) :
    (OwnerOp.timerCreate t clockid evp).Sound s ∧
      ∀ w es, s.step (.timerCreate t clockid evp) = some (w, es) → TimersShared w.kernel w.users := by
  cases known : clockOf clockid with
  | none =>
    have ran : (OwnerOp.timerCreate t clockid evp).run s.kernel =
        .ok (setErrno einval (asThread t s.kernel), -1) := by
      simp [OwnerOp.run, timerCreateSys, known, pure, Except.pure]
    apply OwnerOp.Sound.of
    · rw [ran]
      nofun
    · nofun
    · intro _ _
      exact ⟨_, ran, rfl, rfl, rfl, rfl⟩
    · intro w v same
      rw [ran] at same
      cases same
      exact ⟨shared.sleeps, shared.users⟩
  | some clock =>
    have room : ¬s.kernel.TimersFull := fits.resolve_left (by rw [known]; nofun)
    obtain ⟨i, x, inside, found, free, use, action, ran⟩ :=
      timerCreateSys_room (k := asThread t s.kernel) evp known room
    have whole : (OwnerOp.timerCreate t clockid evp).run s.kernel =
        .ok (setTimer i x (asThread t s.kernel), 0) := ran
    apply OwnerOp.Sound.of
    · rw [whole]
      nofun
    · nofun
    · intro _ full
      exact absurd full room
    · intro w v same
      rw [whole] at same
      cases same
      rw [OwnerOp.account, if_pos rfl, show freeTimer s.kernel.timerArray = (i : Int) from found]
      exact (shared.asThread t).timerCreate inside free use action

theorem exit_sound {s : TimerSystem T} (shared : TimersShared s.kernel s.users) {t : T}
    (legal : (OwnerOp.exit t).Legal s.kernel) :
    (OwnerOp.exit t).Sound s ∧ ∀ w es, s.step (.exit t) = some (w, es) → TimersShared w.kernel w.users := by
  apply OwnerOp.Sound.of
  · obtain ⟨i, inside, sleep, _⟩ := shared.sleeps t legal
    refine Indexed.bind ?_ fun w => indexed_pure _
    refine Indexed.bind (freeKtimer_indexed ?_) fun w => ?_
    · rw [show (asThread t s.kernel).sleepKtimer (asThread t s.kernel).currentThread = (i : Int) from sleep,
        timerAt_index inside]
      nofun
    · simp only
      split <;> exact indexed_pure _
  · nofun
  · nofun
  · intro w v ran
    simp only [OwnerOp.run, bind, bind_ok, pure, Except.pure, Except.ok.injEq, Prod.mk.injEq] at ran
    obtain ⟨x, left, rfl, rfl⟩ := ran
    exact (shared.asThread t).exit legal left

theorem refusal {s : TimerSystem T} (shared : TimersShared s.kernel s.users) {op : OwnerOp T} {t : T}
    (ran : op.run s.kernel = .ok (setErrno eagain (asThread t s.kernel), -1))
    (takes : op.allocates = false) (account : op.account s.kernel (-1) s.users = s.users) :
    op.Sound s ∧ ∀ w es, s.step op = some (w, es) → TimersShared w.kernel w.users := by
  apply OwnerOp.Sound.of
  · rw [ran]
    nofun
  · intro _ _ _
    exact ⟨_, ran, rfl, rfl⟩
  · rw [takes]
    nofun
  · intro w v same
    rw [ran] at same
    cases same
    rw [account]
    exact ⟨shared.sleeps, shared.users⟩

theorem timerDelete_sound {s : TimerSystem T} (shared : TimersShared s.kernel s.users) {t : T} {id : Int}
    (fits : (OwnerOp.timerDelete t id).Fits s) :
    (OwnerOp.timerDelete t id).Sound s ∧
      ∀ w es, s.step (.timerDelete t id) = some (w, es) → TimersShared w.kernel w.users := by
  obtain ⟨low, spared⟩ := fits
  obtain ⟨_, checked⟩ | ⟨i, inside, index, at_, used, checked⟩ := index_cases low (asThread t s.kernel)
  · refine refusal (t := t) shared ?_ rfl rfl
    simp [OwnerOp.run, timerDeleteSys, checked, bind, Except.bind, pure, Except.pure]
  · have whole : (OwnerOp.timerDelete t id).run s.kernel =
        freeKtimer id (asThread t s.kernel) >>= fun w => pure (w, 0) := by
      simp only [OwnerOp.run, timerDeleteSys, checked]
      rfl
    apply OwnerOp.Sound.of
    · rw [whole]
      refine (freeKtimer_indexed ?_).bind fun _ => indexed_pure _
      rw [at_]
      exact indexed_pure _
    · intro x same none
      cases same
      exact absurd none used
    · intro allocates
      cases allocates
    · intro w v ran
      rw [whole] at ran
      simp only [bind, bind_ok, pure, Except.pure, Except.ok.injEq, Prod.mk.injEq] at ran
      obtain ⟨x, freed, rfl, rfl⟩ := ran
      rw [OwnerOp.account, if_pos rfl]
      exact (shared.asThread t).delete index at_ spared freed

theorem timerSettime_sound {s : TimerSystem T} (shared : TimersShared s.kernel s.users) {t : T}
    {fuel : Nat} {now : Nat → Clocks} {id : Int} {flags : Word} {value : Option Itimerspec} (low : 0 ≤ id) :
    (OwnerOp.timerSettime t fuel now id flags value).Sound s ∧
      ∀ w es, s.step (.timerSettime t fuel now id flags value) = some (w, es) →
        TimersShared w.kernel w.users := by
  obtain ⟨_, checked⟩ | ⟨i, inside, index, at_, used, checked⟩ := index_cases low (asThread t s.kernel)
  · refine refusal (t := t) shared ?_ rfl rfl
    simp [OwnerOp.run, timerSettimeSys, checked, bind, Except.bind, pure, Except.pure]
  · have place : Indexed (timerAt id) := by
      rw [at_]
      exact indexed_pure _
    apply OwnerOp.Sound.of
    · refine Indexed.bind ?_ fun r => indexed_pure _
      refine Indexed.bind (by rw [checked]; exact indexed_pure _) fun b => ?_
      split
      · exact indexed_pure _
      · refine place.bind fun i => (disarmIfArmed_indexed place).bind fun k => ?_
        simp only
        split
        · exact indexed_pure _
        · split
          · exact indexed_pure _
          · exact (armTimer_indexed place).bind fun r => (updateHwtimer_indexed _ _ _).bind fun _ =>
              indexed_pure _
    · intro x same none
      cases same
      exact absurd none used
    · intro allocates
      cases allocates
    · intro w v ran
      simp only [OwnerOp.run, bind, bind_ok, pure, Except.pure, Except.ok.injEq, Prod.mk.injEq,
        Prod.exists] at ran
      obtain ⟨x, v, o, set, rfl, rfl⟩ := ran
      obtain ⟨woken, owners⟩ := timerSettimeSys_woken set
      exact (shared.asThread t).woken woken (timerSettimeSys_use set) owners

theorem timerGettime_sound {s : TimerSystem T} (shared : TimersShared s.kernel s.users) {t : T}
    {now : Clocks} {id : Int} {wanted : Bool} (low : 0 ≤ id) :
    (OwnerOp.timerGettime t now id wanted).Sound s ∧
      ∀ w es, s.step (.timerGettime t now id wanted) = some (w, es) → TimersShared w.kernel w.users := by
  obtain ⟨_, checked⟩ | ⟨i, inside, index, at_, used, checked⟩ := index_cases low (asThread t s.kernel)
  · refine refusal (t := t) shared ?_ rfl rfl
    simp [OwnerOp.run, timerGettimeSys, checked, bind, Except.bind, pure, Except.pure]
  · apply OwnerOp.Sound.of
    · refine Indexed.bind ?_ fun r => indexed_pure _
      refine Indexed.bind (by rw [checked]; nofun) fun b => ?_
      split
      · exact indexed_pure _
      · split
        · refine Indexed.bind (by rw [at_]; nofun) fun i => ?_
          simp only
          split
          · exact (readClock_indexed _ _ _).bind fun _ => indexed_pure _
          · exact indexed_pure _
        · exact indexed_pure _
    · intro x same none
      cases same
      exact absurd none used
    · nofun
    · intro w v ran
      simp only [OwnerOp.run, timerGettimeSys, checked, bind, Except.bind, pure, Except.pure] at ran
      -- whatever is read, the kernel stays as it is
      have same : w = asThread t s.kernel := by
        split at ran
        · cases ran
        · rename_i r read
          cases ran
          simp only [Bool.false_eq_true, if_false] at read
          split at read
          · rw [at_] at read
            simp only at read
            split at read
            · split at read
              · cases read
              · cases read
                rfl
            · cases read
              rfl
          · cases read
            rfl
      rw [same]
      exact ⟨shared.sleeps, shared.users⟩

theorem timerGetoverrun_sound {s : TimerSystem T} (shared : TimersShared s.kernel s.users) {t : T} {id : Int}
    (low : 0 ≤ id) :
    (OwnerOp.timerGetoverrun t id).Sound s ∧
      ∀ w es, s.step (.timerGetoverrun t id) = some (w, es) → TimersShared w.kernel w.users := by
  obtain ⟨_, checked⟩ | ⟨i, inside, index, at_, used, checked⟩ := index_cases low (asThread t s.kernel)
  · refine refusal (t := t) shared ?_ rfl rfl
    simp [OwnerOp.run, timerGetoverrunSys, checked, bind, Except.bind, pure, Except.pure]
  · have whole : (OwnerOp.timerGetoverrun t id).run s.kernel = .ok (asThread t s.kernel, 0) := by
      simp [OwnerOp.run, timerGetoverrunSys, checked, bind, Except.bind, pure, Except.pure]
    apply OwnerOp.Sound.of
    · rw [whole]
      nofun
    · intro x same none
      cases same
      exact absurd none used
    · nofun
    · intro w v ran
      rw [whole] at ran
      cases ran
      exact ⟨shared.sleeps, shared.users⟩

theorem OwnerOp.sound {s : TimerSystem T} {op : OwnerOp T} (shared : TimersShared s.kernel s.users)
    (legal : op.Legal s.kernel) (fits : op.Fits s) :
    op.Sound s ∧ ∀ w es, s.step op = some (w, es) → TimersShared w.kernel w.users := by
  cases op with
  | create addr => exact create_sound shared legal fits
  | exit t => exact exit_sound shared legal
  | timerCreate t clockid evp => exact timerCreate_sound shared fits
  | timerDelete t id => exact timerDelete_sound shared fits
  | timerSettime t fuel now id flags value => exact timerSettime_sound shared fits
  | timerGettime t now id wanted => exact timerGettime_sound shared fits
  | timerGetoverrun t id => exact timerGetoverrun_sound shared fits

omit [DecidableEq T] in
theorem timersShared_start {k : Kernel T} (nobody : ∀ t, k.live t = false) : TimersShared k [] := by
  constructor
  · intro t unfinished
    have alive := unfinished.1
    rw [nobody t] at alive
    cases alive
  · nofun

theorem timer_owners_kept (k : Kernel T) (nobody : ∀ t, k.live t = false) (ops : List (OwnerOp T))
    (legal : Lts.Along TimerSystem.step (fun s op => op.Legal s.kernel) ⟨k, []⟩ ops)
    (fits : Lts.Along TimerSystem.step (fun s op => op.Fits s) ⟨k, []⟩ ops)
    (before after : List (OwnerOp T)) (op : OwnerOp T) (split : ops = before ++ op :: after)
    (s : TimerSystem T) (es : List Unit) (run : Lts.exec TimerSystem.step ⟨k, []⟩ before = some (s, es)) :
    s.Owned ∧ op.Sound s := by
  have keeps : ∀ (x : TimerSystem T) (past : List Unit) o y first, TimersShared x.kernel x.users →
      o.Legal x.kernel ∧ o.Fits x → x.step o = some (y, first) → TimersShared y.kernel y.users := by
    intro x _ o y first shared allowed taken
    exact (o.sound shared allowed.1 allowed.2).2 y first taken
  obtain ⟨shared, allowed⟩ := Lts.invariant_at (fun x _ => TimersShared x.kernel x.users) keeps
    (timersShared_start nobody) (legal.and fits) split run
  exact ⟨shared.owned, (op.sound shared allowed.1 allowed.2).1⟩

omit [DecidableEq T] in
instance OwnerOp.decideLegal (k : Kernel T) : ∀ op : OwnerOp T, Decidable (op.Legal k)
  | .create none => isTrue nofun
  | .create (some a) =>
    decidable_of_iff (k.live a = false) ⟨fun free t same => by cases same; exact free, fun all => all a rfl⟩
  | .exit t | .timerCreate t _ _ | .timerDelete t _ | .timerSettime t _ _ _ _ _ | .timerGettime t _ _ _
  | .timerGetoverrun t _ => inferInstanceAs (Decidable (k.Unfinished t))

instance OwnerOp.decideFits [Fintype T] (s : TimerSystem T) : ∀ op : OwnerOp T, Decidable (op.Fits s)
  | .create addr => inferInstanceAs (Decidable (addr = none ∨ ¬s.kernel.TimersFull))
  | .exit _ => isTrue trivial
  | .timerCreate _ clockid _ => inferInstanceAs (Decidable (clockOf clockid = none ∨ ¬s.kernel.TimersFull))
  | .timerDelete _ id =>
    inferInstanceAs (Decidable (0 ≤ id ∧ ∀ u, s.kernel.Unfinished u → s.kernel.sleepKtimer u ≠ id))
  | .timerSettime _ _ _ id _ _ | .timerGettime _ _ id _ | .timerGetoverrun _ id =>
    inferInstanceAs (Decidable (0 ≤ id))

theorem timer_owners_kept_two :
    let k : Kernel (Fin 2) := bootKernel 0
    let before : List (OwnerOp (Fin 2)) := [.create (some 0), .create (some 1), .timerCreate 0 1 none]
    ∃ s, Lts.exec TimerSystem.step ⟨k, []⟩ before = some (s, []) ∧ s.users = [2] ∧ s.Owned ∧
      OwnerOp.Sound s (.timerDelete 1 2) := by
  intro k before
  have final : (Lts.exec TimerSystem.step ⟨k, []⟩ before).map (fun r => (r.1.users, r.2)) =
      some ([2], []) := by decide +kernel
  obtain ⟨⟨s, es⟩, run, eq⟩ := Option.map_eq_some_iff.mp final
  simp only [Prod.mk.injEq] at eq
  obtain ⟨users, rfl⟩ := eq
  have law := timer_owners_kept k (fun _ => rfl) (before ++ [.timerDelete 1 2]) (by decide +kernel)
    (by decide +kernel) before [] (.timerDelete 1 2) rfl s [] run
  exact ⟨s, run, users, law.1, law.2⟩

omit [DecidableEq T] in
def leavesTable {α : Type} : Except Fault α → Bool
  | .error .timerIndex => true
  | _ => false

theorem not_sound_of_fault {s : TimerSystem T} {op : OwnerOp T}
    (fault : leavesTable (op.run s.kernel) = true) : ¬op.Sound s := by
  intro sound
  apply sound.inside
  unfold leavesTable at fault
  split at fault
  · assumption
  · cases fault

/-- A negative index leaves the table, and so does a new timer when the table is full;
    deleting the timer that a thread sleeps with leaves that thread without one; and a
    new thread is handed out although there is no timer for it. -/
theorem timer_owners_lost :
    let k : Kernel (Fin 33) := bootKernel 0
    let fill : List (OwnerOp (Fin 33)) := (List.finRange 32).map fun i => .create (some i.castSucc)
    (∃ s, Lts.exec TimerSystem.step ⟨k, []⟩ [.create (some 0)] = some (s, []) ∧
      ¬OwnerOp.Sound s (.timerDelete 0 (-1)) ∧ ¬OwnerOp.Sound s (.timerDelete 0 0)) ∧
    ∃ s, Lts.exec TimerSystem.step ⟨k, []⟩ fill = some (s, []) ∧ s.kernel.TimersFull ∧
      ¬OwnerOp.Sound s (.timerCreate 0 1 none) ∧ ¬OwnerOp.Sound s (.create (some 32)) := by
  intro k fill
  constructor
  · have final : (Lts.exec TimerSystem.step ⟨k, []⟩ [.create (some 0)]).bind (fun r =>
        (r.1.step (.timerDelete 0 0)).map fun x =>
          (r.2, leavesTable ((OwnerOp.timerDelete 0 (-1)).run r.1.kernel),
            decide (x.1.kernel.Unfinished 0), x.1.kernel.sleepKtimer 0, (x.1.kernel.timerArray 0).inUse)) =
        some ([], true, true, 0, false) := by decide +kernel
    obtain ⟨⟨s, es⟩, run, more⟩ := Option.bind_eq_some_iff.mp final
    obtain ⟨⟨w, first⟩, taken, eq⟩ := Option.map_eq_some_iff.mp more
    simp only [Prod.mk.injEq, decide_eq_true_eq] at eq
    obtain ⟨rfl, fault, unfinished, sleep, unused⟩ := eq
    refine ⟨s, run, not_sound_of_fault fault, ?_⟩
    intro sound
    obtain ⟨i, _, own, used, _⟩ := (sound.owned w first taken).sleeps 0 unfinished
    rw [sleep] at own
    have zero : i = 0 := by omega
    rw [zero, unused] at used
    cases used
  · have final : (Lts.exec TimerSystem.step ⟨k, []⟩ fill).map (fun r =>
        (r.2, decide r.1.kernel.TimersFull,
          leavesTable ((OwnerOp.timerCreate 0 1 none).run r.1.kernel),
          (match (OwnerOp.create (some 32)).run r.1.kernel with | .ok (_, v) => v | _ => 1))) =
        some ([], true, true, 0) := by decide +kernel
    obtain ⟨⟨s, es⟩, run, eq⟩ := Option.map_eq_some_iff.mp final
    simp only [Prod.mk.injEq, decide_eq_true_eq] at eq
    obtain ⟨rfl, full, fault, handed⟩ := eq
    refine ⟨s, run, full, not_sound_of_fault fault, ?_⟩
    intro sound
    obtain ⟨w, refused, _⟩ := sound.exhausted rfl full
    rw [refused] at handed
    cases handed

end L4ertl
