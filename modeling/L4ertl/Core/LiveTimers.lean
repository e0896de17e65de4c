import L4ertl.Core.HeapQueue
import L4ertl.Core.TimerOwners
import L4ertl.Core.TimerWakes

/-!
Which timers a clock interrupt comes upon (time.c, pthread.c). The hardware is
programmed once and never stopped, so that by the time it fires the heap may have
lost its timers or their owners may have ended.
-/
namespace L4ertl
open BinaryHeap

theorem timerAt_avoids (id : Int) : Avoids .nullDeref (timerAt id) := by
  unfold timerAt
  split
  · exact avoids_ok ⟨_, rfl⟩
  · exact fun same => by cases same

section
variable {T : Type} {timers : Nat → Ktimer T} {h : TimerHeap}

structure HeapInside (h : TimerHeap) : Prop where
  filled : Filled h
  room : h.nelem < heapMaxNelem

theorem HeapInside.timer (inside : HeapInside h) {x : Option Nat} (member : x ∈ h.elements) :
    ∃ i, i < maxTimers ∧ x = some i := filled_iff.mp inside.filled x member

/-- The array has no place for the timer that the full heap still accepts. -/
theorem heapInsert_full (inside : HeapInside h) (full : h.nelem + 1 = heapMaxNelem) (i : Nat) :
    heapInsert timers h i = .error .heapIndex := by
  have some_ : 1 < h.nelem + 1 := by
    rw [full]
    decide
  obtain ⟨j, _, above⟩ := inside.filled ((h.nelem + 1) / 2) (by omega) (by omega)
  have outside : ∀ p, TimerHeap.set ⟨h.array, h.nelem + 1⟩ (h.nelem + 1) p = .error .heapIndex := by
    intro p
    exact if_neg (by omega)
  have parent : TimerHeap.get ⟨h.array, h.nelem + 1⟩ ((h.nelem + 1) / 2) = .ok (some j) := by
    rw [get_inside (by omega), above]
  simp only [heapInsert, bind, pure, Except.pure]
  rw [if_neg (by omega)]
  simp only [heapInsertLoop, bind]
  rw [if_pos some_, parent]
  simp only [Except.bind, isMin_some, outside, ite_self]

theorem HeapInside.insert (inside : HeapInside h) (timers : Nat → Ktimer T) {i : Nat}
    (timer : i < maxTimers) :
    heapInsert timers h i = .error .heapIndex ∨
      ∃ h' v, heapInsert timers h i = .ok (h', v) ∧ HeapInside h' ∧ h'.elements = some i ::ₘ h.elements := by
  have room := inside.room
  by_cases full : h.nelem + 1 = heapMaxNelem
  · exact Or.inl (heapInsert_full inside full i)
  · right
    obtain ⟨⟨h', v⟩, ran⟩ := heapInsert_returns timers i inside.filled (by omega)
    have elements := heapInsert_elements (by omega) ran
    rcases heapInsert_ok ran with ⟨beyond, _⟩ | ⟨size, _, _⟩
    · omega
    · exact ⟨h', v, ran, ⟨inside.filled.added timer elements, by omega⟩, elements⟩

theorem HeapInside.fewer {h' : TimerHeap} (inside : HeapInside h) (less : h'.elements ≤ h.elements) :
    HeapInside h' := by
  constructor
  · exact inside.filled.fewer less
  · have count := Multiset.card_le_card less
    simp only [TimerHeap.elements, card_elems] at count
    exact count.trans_lt inside.room

theorem HeapInside.remove (inside : HeapInside h) (timers : Nat → Ktimer T) (i : Nat) :
    ∃ h' v, heapRemoveElement timers h i = .ok (h', v) ∧ HeapInside h' ∧
      h'.elements = h.elements.erase (some i) := by
  obtain ⟨⟨h', v⟩, ran⟩ := heapRemoveElement_returns timers i inside.filled inside.room
  have elements := heapRemoveElement_elements ran
  exact ⟨h', v, ran, inside.fewer (elements ▸ Multiset.erase_le _ _), elements⟩

theorem HeapInside.removeMin (inside : HeapInside h) (timers : Nat → Ktimer T) (busy : 0 < h.nelem) :
    ∃ h' min, heapRemoveMin timers h = .ok (h', min) ∧ HeapInside h' ∧
      h.array 1 ::ₘ h'.elements = h.elements := by
  obtain ⟨⟨h', min⟩, ran⟩ := heapRemoveMin_returns timers inside.filled inside.room busy
  have taken := heapRemoveMin_elements busy ran
  exact ⟨h', min, ran, inside.fewer (taken ▸ Multiset.le_cons_self _ _), taken⟩

end

variable {T : Type}

def Kernel.LiveTimer (k : Kernel T) (i : Nat) : Prop :=
  (k.timerArray i).inUse = true ∧ ∃ t, (k.timerArray i).owner = some t ∧ k.Unfinished t

structure LiveTimers (k : Kernel T) : Prop where
  heap : HeapInside k.timerHeap
  owned : ∀ i, (k.timerArray i).inUse = true → ∃ t, (k.timerArray i).owner = some t
  held : ∀ i, some i ∈ k.timerHeap.elements → k.LiveTimer i

def NoneEnds (k w : Kernel T) : Prop := ∀ t, k.Unfinished t → w.Unfinished t

theorem NoneEnds.trans {k w x : Kernel T} (first : NoneEnds k w) (second : NoneEnds w x) : NoneEnds k x :=
  fun t unfinished => second t (first t unfinished)

theorem NoneEnds.of_fields {k w : Kernel T} (live : w.live = k.live)
    (flags : w.threadFlags = k.threadFlags) : NoneEnds k w := by
  intro t unfinished
  rw [Kernel.Unfinished, Kernel.state, live, flags]
  exact unfinished

theorem BookOnly.noneEnds {k w : Kernel T} (only : BookOnly k w) : NoneEnds k w := by
  have live := congrArg Kernel.live only
  have flags := congrArg Kernel.threadFlags only
  exact .of_fields live flags

theorem Woken.noneEnds [DecidableEq T] {P : T → Prop} {k w : Kernel T} (woken : Woken P k w) :
    NoneEnds k w := by
  have live := congrArg Kernel.live woken.only
  intro t unfinished
  refine ⟨(congrFun live t).trans unfinished.1, ?_⟩
  rcases woken.state t with same | ⟨_, _, ready⟩
  · rw [same]
    exact unfinished.2
  · rw [ready]
    exact ready_ne_finished

section
variable {k w : Kernel T} {i : Nat} {x : Ktimer T} {h : TimerHeap}

theorem LiveTimers.keep (live : LiveTimers k) (table : w.timerArray = k.timerArray)
    (heap : w.timerHeap = k.timerHeap) (ends : NoneEnds k w) : LiveTimers w := by
  refine ⟨heap ▸ live.heap, fun i used => ?_, fun i member => ?_⟩
  · rw [table] at *
    exact live.owned i used
  · rw [heap] at member
    obtain ⟨used, t, owner, unfinished⟩ := live.held i member
    rw [Kernel.LiveTimer, table]
    exact ⟨used, t, owner, ends t unfinished⟩

theorem LiveTimers.write (live : LiveTimers k) (inside : HeapInside h)
    (others : ∀ j, j ≠ i → some j ∈ h.elements → some j ∈ k.timerHeap.elements)
    (owned : x.inUse = true → ∃ t, x.owner = some t)
    (self : some i ∈ h.elements → x.inUse = true ∧ ∃ t, x.owner = some t ∧ k.Unfinished t) :
    LiveTimers { setTimer i x k with timerHeap := h } := by
  refine ⟨inside, fun j used => ?_, fun j member => ?_⟩
  · by_cases same : j = i
    · simp only [setTimer, same, Function.update_self] at *
      exact owned used
    · simp only [setTimer, Function.update_of_ne same] at *
      exact live.owned j used
  · by_cases same : j = i
    · simp only [Kernel.LiveTimer, setTimer, same, Function.update_self] at *
      exact self member
    · simp only [Kernel.LiveTimer, setTimer, Function.update_of_ne same] at *
      exact live.held j (others j same member)

theorem LiveTimers.push (live : LiveTimers k) (inside : HeapInside h)
    (elements : h.elements = some i ::ₘ k.timerHeap.elements) (used : x.inUse = true) {t : T}
    (owner : x.owner = some t) (unfinished : k.Unfinished t) :
    LiveTimers { setTimer i x k with timerHeap := h } := by
  refine live.write inside (fun j other member => ?_) (fun _ => ⟨t, owner⟩) fun _ =>
    ⟨used, t, owner, unfinished⟩
  rw [elements] at member
  exact (Multiset.mem_cons.mp member).resolve_left fun same => other (Option.some.inj same)

end

theorem timerAt_id {id : Int} {i : Nat} (ran : timerAt id = .ok i) : id = (i : Int) := by
  unfold timerAt at ran
  split at ran
  · cases ran
    omega
  · cases ran

theorem timerAt_cases (id : Int) :
    timerAt id = .error .timerIndex ∨ ∃ i, i < maxTimers ∧ timerAt id = .ok i := by
  cases at_ : timerAt id with
  | ok i => exact Or.inr ⟨i, timerAt_ok at_, rfl⟩
  | error e =>
    unfold timerAt at at_
    split at at_
    · cases at_
    · cases at_
      exact Or.inl rfl

section
variable {k w : Kernel T}

theorem readClock_owned (now : Clocks) {x : Ktimer T} (owned : ∃ t, x.owner = some t) :
    ∃ c, readClock now k x = .ok c := by
  obtain ⟨t, owner⟩ := owned
  unfold readClock
  rw [owner]
  cases x.clock with
  | monotonic => exact ⟨_, rfl⟩
  | realtime => exact ⟨_, rfl⟩
  | threadCputime => exact ⟨_, rfl⟩

def Kernel.HeldOnce (k : Kernel T) (id : Int) : Prop :=
  ∀ i, i < maxTimers → id = (i : Int) → k.timerHeap.elements.count (some i) ≤ 1

theorem LiveTimers.free_cases (live : LiveTimers k) (id : Int) :
    freeKtimer id k = .error .timerIndex ∨ ∃ i h, timerAt id = .ok i ∧ HeapInside h ∧
      h.elements = k.timerHeap.elements.erase (some i) ∧ freeKtimer id k =
        .ok { setTimer i { k.timerArray i with flags := 0#32 } k with timerHeap := h } := by
  rcases timerAt_cases id with bad | ⟨i, below, at_⟩
  · left
    simp only [freeKtimer, bad, bind, Except.bind]
  · obtain ⟨h, v, ran, inside, elements⟩ := live.heap.remove k.timerArray i
    refine Or.inr ⟨i, h, at_, inside, elements, ?_⟩
    simp only [freeKtimer, at_, ran, bind, Except.bind, pure, Except.pure]
    rfl

theorem LiveTimers.free (live : LiveTimers k) {id : Int} (once : k.HeldOnce id)
    (ran : freeKtimer id k = .ok w) : LiveTimers w := by
  rcases live.free_cases id with fault | ⟨i, h, at_, inside, elements, ok⟩
  · rw [fault] at ran
    cases ran
  · rw [ok] at ran
    cases ran
    have unused : ({ k.timerArray i with flags := 0#32 } : Ktimer T).inUse = false := by simp [Ktimer.inUse]
    refine live.write inside (fun j _ member => ?_) (fun used => ?_) fun member => ?_
    · rw [elements] at member
      exact Multiset.mem_of_mem_erase member
    · rw [unused] at used
      cases used
    · have gone : some i ∉ h.elements := by
        rw [elements, ← Multiset.count_eq_zero, Multiset.count_erase_self]
        have bound := once i (timerAt_ok at_) (timerAt_id at_)
        omega
      exact absurd member gone

theorem LiveTimers.free_avoids (live : LiveTimers k) (id : Int) : Avoids .nullDeref (freeKtimer id k) := by
  rcases live.free_cases id with fault | ⟨i, h, _, _, _, ok⟩
  · rw [fault]
    exact fun same => by cases same
  · exact avoids_ok ⟨_, ok⟩

theorem LiveTimers.disarm_cases (live : LiveTimers k) (id : Int) :
    disarmTimer id k = .error .timerIndex ∨ ∃ i h, timerAt id = .ok i ∧ HeapInside h ∧
      h.elements = k.timerHeap.elements.erase (some i) ∧ disarmTimer id k =
        .ok { setTimer i { k.timerArray i with flags := (k.timerArray i).flags &&& ~~~timerArmed } k with
          timerHeap := h } := by
  rcases timerAt_cases id with bad | ⟨i, below, at_⟩
  · left
    simp only [disarmTimer, bad, bind, Except.bind]
  · obtain ⟨h, v, ran, inside, elements⟩ := live.heap.remove k.timerArray i
    refine Or.inr ⟨i, h, at_, inside, elements, ?_⟩
    simp only [disarmTimer, at_, ran, bind, Except.bind, pure, Except.pure]
    rfl

theorem LiveTimers.disarm (live : LiveTimers k) {id : Int} (ran : disarmTimer id k = .ok w) :
    LiveTimers w := by
  rcases live.disarm_cases id with fault | ⟨i, h, _, inside, elements, ok⟩
  · rw [fault] at ran
    cases ran
  · rw [ok] at ran
    cases ran
    have use := inUse_and (k.timerArray i) (show ~~~timerArmed &&& timerInUse = timerInUse by decide)
    refine live.write inside (fun j _ member => ?_) (fun used => ?_) fun member => ?_
    · rw [elements] at member
      exact Multiset.mem_of_mem_erase member
    · rw [use] at used
      exact live.owned i used
    · rw [elements] at member
      rw [use]
      exact live.held i (Multiset.mem_of_mem_erase member)

theorem LiveTimers.disarm_avoids (live : LiveTimers k) (id : Int) :
    Avoids .nullDeref (disarmTimer id k) := by
  rcases live.disarm_cases id with fault | ⟨i, h, _, _, _, ok⟩
  · rw [fault]
    exact fun same => by cases same
  · exact avoids_ok ⟨_, ok⟩

end

section
variable {k w : Kernel T}

def Kernel.OwnerUnfinished (k : Kernel T) (id : Int) : Prop :=
  ∀ i, i < maxTimers → id = (i : Int) → ∀ t, (k.timerArray i).inUse = true →
    (k.timerArray i).owner = some t → k.Unfinished t

theorem LiveTimers.arm_cases (live : LiveTimers k) (now : Clocks) (id : Int) (value interval : Duration) :
    armTimer now id value interval k = .error .timerIndex ∨
    armTimer now id value interval k = .error .heapIndex ∨
    (∃ i, timerAt id = .ok i ∧ (k.timerArray i).inUse = false ∧
      armTimer now id value interval k = .ok (k, -1)) ∨
    ∃ i x h, timerAt id = .ok i ∧ (k.timerArray i).inUse = true ∧ x.inUse = true ∧
      x.owner = (k.timerArray i).owner ∧ HeapInside h ∧ h.elements = some i ::ₘ k.timerHeap.elements ∧
      armTimer now id value interval k = .ok ({ setTimer i x k with timerHeap := h }, 0) := by
  rcases timerAt_cases id with bad | ⟨i, below, at_⟩
  · left
    simp only [armTimer, bad, bind, Except.bind]
  right
  by_cases unused : (k.timerArray i).flags &&& timerInUse = 0#32
  · refine Or.inr (Or.inl ⟨i, at_, by simp [Ktimer.inUse, unused], ?_⟩)
    simp only [armTimer, at_, bind, Except.bind, if_pos unused, pure, Except.pure]
  have used : (k.timerArray i).inUse = true := by simpa [Ktimer.inUse] using unused
  obtain ⟨expiry, timed⟩ : ∃ e, expiryTime now (k.timerArray i) value k = .ok e := by
    obtain ⟨c, read⟩ := readClock_owned (k := k) now (live.owned i used)
    unfold expiryTime
    split
    · exact ⟨value + c, by simp only [read, bind, Except.bind, pure, Except.pure]⟩
    · exact ⟨value, rfl⟩
  let x : Ktimer T := { k.timerArray i with
    timerValue := expiry, timerInterval := interval, flags := (k.timerArray i).flags ||| timerArmed }
  have arms : armTimer now id value interval k =
      (heapInsert (setTimer i x k).timerArray k.timerHeap i).bind fun r =>
        .ok ({ setTimer i x k with timerHeap := r.1 }, 0) := by
    simp only [armTimer, at_, bind, Except.bind, if_neg unused, timed]
    rfl
  rcases live.heap.insert (setTimer i x k).timerArray below with fault | ⟨h, v, ran, inside, elements⟩
  · left
    rw [arms, fault]
    rfl
  · refine Or.inr (Or.inr ⟨i, x, h, at_, used, (inUse_armed _ expiry interval).trans used, rfl, inside,
      elements, ?_⟩)
    rw [arms, ran]
    rfl

theorem LiveTimers.arm (live : LiveTimers k) {now : Clocks} {id : Int} {value interval : Duration} {v : Int}
    (unfinished : k.OwnerUnfinished id) (ran : armTimer now id value interval k = .ok (w, v)) :
    LiveTimers w ∧ ∀ i, timerAt id = .ok i → (k.timerArray i).inUse = true → 0 < w.timerHeap.nelem := by
  rcases live.arm_cases now id value interval with fault | fault | ⟨i, at_, unused, ok⟩ |
    ⟨i, x, h, at_, used, use, owner, inside, elements, ok⟩
  · rw [fault] at ran
    cases ran
  · rw [fault] at ran
    cases ran
  · rw [ok] at ran
    cases ran
    refine ⟨live, fun j same used => ?_⟩
    rw [at_] at same
    cases same
    rw [unused] at used
    cases used
  · rw [ok] at ran
    cases ran
    obtain ⟨t, mine⟩ := live.owned i used
    have mineX : x.owner = some t := owner.trans mine
    constructor
    · exact live.push inside elements use mineX (unfinished i (timerAt_ok at_) (timerAt_id at_) t used mine)
    · intro _ _ _
      have count := congrArg Multiset.card elements
      simp only [TimerHeap.elements, card_elems, Multiset.card_cons] at count
      simp only
      omega

theorem LiveTimers.arm_avoids (live : LiveTimers k) (now : Clocks) (id : Int) (value interval : Duration) :
    Avoids .nullDeref (armTimer now id value interval k) := by
  rcases live.arm_cases now id value interval with fault | fault | ⟨i, _, _, ok⟩ |
    ⟨i, x, h, _, _, _, _, _, _, ok⟩
  · rw [fault]
    exact fun same => by cases same
  · rw [fault]
    exact fun same => by cases same
  · exact avoids_ok ⟨_, ok⟩
  · exact avoids_ok ⟨_, ok⟩

theorem LiveTimers.abstime (live : LiveTimers k) (i : Nat) (flags : Word) :
    LiveTimers (setAbstime i flags k) := by
  have use := (setAbstime_use i flags k) i
  simp only [setAbstime, setTimer, Function.update_self] at use
  refine live.write (h := k.timerHeap) live.heap (fun j _ member => member) (fun used => ?_) fun member => ?_
  · rw [use] at used
    exact live.owned i used
  · rw [use]
    exact live.held i member

theorem LiveTimers.alloc (live : LiveTimers k) (clockid : Clockid) (thread : T) (act : TimerAction) :
    LiveTimers { k with timerArray := (allocKtimer clockid thread act k.timerArray).1 } := by
  rcases freeTimer_cases k with ⟨none_, _⟩ | ⟨i, inside, found, free, _⟩
  · simp only [allocKtimer, none_, if_true]
    exact live
  · have taken : ¬((i : Int) = -1) := by omega
    simp only [allocKtimer, found, taken, if_false, Int.toNat_natCast]
    refine live.write (h := k.timerHeap) live.heap (fun j _ member => member) (fun _ => ⟨thread, rfl⟩)
      fun member => ?_
    have held := (live.held i member).1
    rw [free] at held
    cases held

end

variable [DecidableEq T]

/-- A timer whose action, read_clock or owner update_hwtimer uses, and the kernel it
    does so in. -/
structure TimerUse (T : Type) where
  timer : Nat
  kernel : Kernel T

def TimerUse.Live (u : TimerUse T) : Prop := u.kernel.LiveTimer u.timer

omit [DecidableEq T] in
def topUse (k : Kernel T) : List (TimerUse T) :=
  match heapMin k.timerHeap with
  | .ok (some i) => [⟨i, k⟩]
  | _ => []

/-- The action first, and then the owner's state. -/
def serveUses (i : Nat) (k : Kernel T) : List (TimerUse T) :=
  ⟨i, k⟩ ::
    match timerAct (k.timerArray i) k with
    | .ok (w, _) => [⟨i, w⟩]
    | .error _ => []

def loopUses : Nat → (Nat → Clocks) → TimerRound T → List (TimerUse T)
  | 0, _, _ => []
  | fuel + 1, now, r =>
    match r.top with
    | none => []
    | some (i, ctime) =>
      if judgedDue (r.kernel.timerArray i).timerValue ctime then
        serveUses i r.kernel ++
          match serveTimer ctime i r.kernel with
          | .error _ => []
          | .ok (k, action) =>
            topUse k ++
              match nextTimer (now 0) k with
              | .error _ => []
              | .ok top => loopUses fuel (fun n => now (n + 1)) ⟨k, top, action, r.served ++ [i]⟩
      else []

def updateUses (fuel : Nat) (now : Nat → Clocks) (k : Kernel T) : List (TimerUse T) :=
  topUse k ++
    match nextTimer (now 0) k with
    | .ok (some top) => loopUses fuel (fun n => now (n + 1)) ⟨k, some top, 0, []⟩
    | _ => []

section
variable {k w : Kernel T}

theorem HeapInside.root {h : TimerHeap} (inside : HeapInside h) (busy : 0 < h.nelem) :
    ∃ i, i < maxTimers ∧ h.array 1 = some i ∧ some i ∈ h.elements ∧ heapMin h = .ok (some i) := by
  have room := inside.room
  obtain ⟨i, below, here⟩ := inside.filled 1 (le_refl 1) busy
  refine ⟨i, below, here, mem_elems.mpr ⟨1, le_refl 1, busy, here⟩, ?_⟩
  rw [heapMin, if_pos busy, get_inside (by omega), here]

omit [DecidableEq T] in
theorem LiveTimers.top_uses (live : LiveTimers k) : ∀ u ∈ topUse k, u.Live := by
  intro u member
  unfold topUse at member
  split at member
  · rename_i i min
    rw [List.mem_singleton] at member
    subst member
    unfold heapMin at min
    split at min
    · rename_i busy
      exact live.held i (mem_elems.mpr ⟨1, le_refl 1, busy, (get_ok min).2⟩)
    · cases min
  · cases member

omit [DecidableEq T] in
theorem LiveTimers.next (live : LiveTimers k) (now : Clocks) :
    ∃ top, nextTimer now k = .ok top ∧ (0 < k.timerHeap.nelem → top ≠ none) := by
  by_cases busy : 0 < k.timerHeap.nelem
  · obtain ⟨i, _, _, member, min⟩ := live.heap.root busy
    obtain ⟨_, t, owner, _⟩ := live.held i member
    obtain ⟨c, read⟩ := readClock_owned (k := k) now ⟨t, owner⟩
    refine ⟨some (i, c), ?_, fun _ => Option.some_ne_none _⟩
    simp only [nextTimer, min, read, bind, Except.bind, pure, Except.pure]
  · refine ⟨none, ?_, fun yes => absurd yes busy⟩
    simp only [nextTimer, heapMin, if_neg busy, bind, Except.bind, pure, Except.pure]

omit [DecidableEq T] in
theorem LiveTimers.rearm (live : LiveTimers k) (ctime : Duration) {i : Nat} (below : i < maxTimers)
    (room : k.timerHeap.nelem + 1 < heapMaxNelem) (timer : k.LiveTimer i) :
    ∃ w, rearmTimer ctime i k = .ok w ∧ LiveTimers w := by
  obtain ⟨used, t, owner, unfinished⟩ := timer
  obtain ⟨again, asked⟩ : ∃ b, repeats (k.timerArray i) k = .ok b := by
    unfold repeats
    rw [owner]
    split
    · exact ⟨_, rfl⟩
    · exact ⟨_, rfl⟩
  cases again with
  | true =>
    let x : Ktimer T := { k.timerArray i with timerValue := (k.timerArray i).timerInterval + ctime }
    obtain ⟨r, ok⟩ := heapInsert_returns (setTimer i x k).timerArray i live.heap.filled room
    rcases live.heap.insert (setTimer i x k).timerArray below with
      fault | ⟨h, v, ran, inside, elements⟩
    · rw [fault] at ok
      cases ok
    · have arms : rearmTimer ctime i k = (heapInsert (setTimer i x k).timerArray k.timerHeap i).bind fun r =>
          .ok { setTimer i x k with timerHeap := r.1 } := by
        simp only [rearmTimer, asked, bind, Except.bind, if_true]
        rfl
      refine ⟨{ setTimer i x k with timerHeap := h }, by rw [arms, ran]; rfl, ?_⟩
      exact live.push inside elements used owner unfinished
  | false =>
    have use := inUse_and (k.timerArray i) (show ~~~timerArmed &&& timerInUse = timerInUse by decide)
    refine ⟨setTimer i { k.timerArray i with flags := (k.timerArray i).flags &&& ~~~timerArmed } k, ?_, ?_⟩
    · simp only [rearmTimer, asked, bind, Except.bind, Bool.false_eq_true, if_false, pure, Except.pure]
    · exact live.write (h := k.timerHeap) live.heap (fun y _ there => there) (fun _ => ⟨t, owner⟩) fun _ =>
        ⟨use.trans used, t, owner, unfinished⟩

theorem LiveTimers.serve (live : LiveTimers k) (ctime : Duration) {i : Nat} (busy : 0 < k.timerHeap.nelem)
    (root : k.timerHeap.array 1 = some i) :
    (∃ w, serveTimer ctime i k = .ok (w, needReesched) ∧ LiveTimers w) ∧ ∀ u ∈ serveUses i k, u.Live := by
  obtain ⟨j, below, here, member, _⟩ := live.heap.root busy
  rw [root] at here
  cases here
  obtain ⟨used, t, owner, unfinished⟩ := live.held i member
  obtain ⟨acted, act⟩ := timerAct_owned owner k
  obtain ⟨table, heap⟩ := timerAct_timers act
  have after : LiveTimers acted := live.keep table heap (timerAct_woken act).1.noneEnds
  have alive : acted.LiveTimer i := after.held i (heap.symm ▸ member)
  constructor
  · obtain ⟨h, min, removed, inside, elements⟩ := after.heap.removeMin acted.timerArray (heap.symm ▸ busy)
    have off : LiveTimers { acted with timerHeap := h } := by
      refine ⟨inside, after.owned, fun y there => after.held y ?_⟩
      rw [← elements]
      exact Multiset.mem_cons_of_mem there
    have room : h.nelem + 1 < heapMaxNelem := by
      have count := congrArg Multiset.card elements
      have bound := after.heap.room
      simp only [TimerHeap.elements, card_elems, Multiset.card_cons] at count
      omega
    obtain ⟨w, rearmed, rest⟩ := off.rearm ctime below room alive
    refine ⟨w, ?_, rest⟩
    simp only [serveTimer, act, removed, rearmed, bind, Except.bind, pure, Except.pure]
  · intro y member
    unfold serveUses at member
    rw [act] at member
    simp only [List.mem_cons, List.not_mem_nil, or_false] at member
    rcases member with rfl | rfl
    · exact ⟨used, t, owner, unfinished⟩
    · exact alive

end

structure SafeUpdate (x : Except Fault (TimerRound T)) (uses : List (TimerUse T)) : Prop where
  noNull : Avoids .nullDeref x
  uses : ∀ u ∈ uses, u.Live
  live : ∀ r, x = .ok r → LiveTimers r.kernel

section
variable {k w : Kernel T}

omit [DecidableEq T] in
theorem LiveTimers.stays {r : TimerRound T} (live : LiveTimers r.kernel) : SafeUpdate (.ok r) [] := by
  constructor
  · exact avoids_ok ⟨r, rfl⟩
  · intro u member
    cases member
  · intro q same
    cases same
    exact live

theorem LiveTimers.loop (fuel : Nat) {now : Nat → Clocks} {r : TimerRound T} (live : LiveTimers r.kernel)
    (top : ∀ i c, r.top = some (i, c) → 0 < r.kernel.timerHeap.nelem ∧ r.kernel.timerHeap.array 1 = some i) :
    SafeUpdate (updateLoop fuel now r) (loopUses fuel now r) := by
  induction fuel generalizing now r with
  | zero =>
    constructor
    · exact fun same => by cases same
    · intro u member
      cases member
    · intro q same
      cases same
  | succ fuel ih =>
    unfold updateLoop loopUses
    cases here : r.top with
    | none => exact live.stays
    | some first =>
      obtain ⟨i, ctime⟩ := first
      simp only
      by_cases due : judgedDue (r.kernel.timerArray i).timerValue ctime = true
      · obtain ⟨busy, root⟩ := top i ctime here
        obtain ⟨⟨w, ran, after⟩, uses⟩ := live.serve ctime busy root
        obtain ⟨next, looked, _⟩ := after.next (now 0)
        have places : ∀ j c, next = some (j, c) → 0 < w.timerHeap.nelem ∧ w.timerHeap.array 1 = some j := by
          intro j c there
          obtain ⟨busy', root', _⟩ := nextTimer_ok looked there
          exact ⟨busy', root'⟩
        have rest : SafeUpdate
            (updateLoop fuel (fun n => now (n + 1)) ⟨w, next, needReesched, r.served ++ [i]⟩)
            (loopUses fuel (fun n => now (n + 1)) ⟨w, next, needReesched, r.served ++ [i]⟩) :=
          ih after places
        simp only [due, if_true, ran, looked, bind, Except.bind]
        refine ⟨rest.noNull, fun u member => ?_, rest.live⟩
        rcases List.mem_append.mp member with now_ | later
        · exact uses u now_
        · rcases List.mem_append.mp later with read | loop
          · exact after.top_uses u read
          · exact rest.uses u loop
      · simp only [due, Bool.false_eq_true, if_false]
        exact live.stays

theorem LiveTimers.update (live : LiveTimers k) (busy : 0 < k.timerHeap.nelem) (fuel : Nat)
    (now : Nat → Clocks) : SafeUpdate (updateHwtimer fuel now k) (updateUses fuel now k) := by
  obtain ⟨top, looked, found⟩ := live.next (now 0)
  cases top with
  | none => exact absurd rfl (found busy)
  | some first =>
    have rest : SafeUpdate (updateLoop fuel (fun n => now (n + 1)) ⟨k, some first, 0, []⟩)
        (loopUses fuel (fun n => now (n + 1)) ⟨k, some first, 0, []⟩) :=
      LiveTimers.loop fuel live fun i c there =>
        ⟨(nextTimer_ok looked there).1, (nextTimer_ok looked there).2.1⟩
    constructor
    · unfold updateHwtimer
      simp only [looked, bind, Except.bind]
      refine Avoids.bind rest.noNull fun q _ => ?_
      split
      · exact avoids_ok ⟨_, rfl⟩
      · exact avoids_ok ⟨_, rfl⟩
    · intro u member
      unfold updateUses at member
      rw [looked] at member
      rcases List.mem_append.mp member with read | loop
      · exact live.top_uses u read
      · exact rest.uses u loop
    · intro r ran
      obtain ⟨first', q, d, looked', looped, rfl⟩ := updateHwtimer_loop ran
      rw [looked] at looked'
      cases looked'
      exact (rest.live q looped).keep rfl rfl fun t unfinished => unfinished

end

def starts : Option Itimerspec → Bool
  | none => false
  | some v => decide (v.itValue.tvSec ||| v.itValue.tvNsec ≠ 0#32)

def settimeUses (fuel : Nat) (now : Nat → Clocks) (timerid : Int) (flags : Word)
    (value : Option Itimerspec) (k : Kernel T) : Except Fault (List (TimerUse T)) := do
  if ← timerUnused timerid k then return []
  else
    let i ← timerAt timerid
    let k ← disarmIfArmed timerid (k.timerArray i) k
    let k := setAbstime i flags k
    match value with
    | none => return []
    | some v =>
      if v.itValue.tvSec ||| v.itValue.tvNsec = 0#32 then return []
      else
        let (k, _) ← armTimer (now 0) timerid v.itValue.nsecs v.itInterval.nsecs k
        return updateUses fuel (fun n => now (n + 1)) k

def sleepUses (fuel : Nat) (now : Nat → Clocks) (d : Duration) (k : Kernel T) :
    Except Fault (List (TimerUse T)) := do
  let (w, _) ← armTimer (now 0) (k.sleepKtimer k.currentThread) d 0 k
  return updateUses fuel (fun n => now (n + 1)) (suspendThread k.currentThread w)

section
variable {k w : Kernel T}

omit [DecidableEq T] in
theorem timerUnused_avoids (id : Int) (k : Kernel T) : Avoids .nullDeref (timerUnused id k) := by
  unfold timerUnused
  split
  · exact avoids_ok ⟨_, rfl⟩
  · exact (timerAt_avoids id).bind fun i _ => avoids_ok ⟨_, rfl⟩

omit [DecidableEq T] in
theorem LiveTimers.reset (live : LiveTimers k) {id : Int} {i : Nat} (flags : Word)
    (ran : disarmIfArmed id (k.timerArray i) k = .ok w) :
    LiveTimers (setAbstime i flags w) ∧ UseKept k (setAbstime i flags w) ∧
      OwnersKept k (setAbstime i flags w) ∧ NoneEnds k (setAbstime i flags w) := by
  have off : LiveTimers w := by
    unfold disarmIfArmed at ran
    split at ran
    · exact live.disarm ran
    · cases ran
      exact live
  obtain ⟨only, owners⟩ := disarmIfArmed_book ran
  have marked : NoneEnds w (setAbstime i flags w) := .of_fields rfl rfl
  exact ⟨off.abstime i flags, (disarmIfArmed_use ran).trans (setAbstime_use i flags w),
    owners.trans (setAbstime_owners i flags w), only.noneEnds.trans marked⟩

omit [DecidableEq T] in
theorem Kernel.OwnerUnfinished.keep {id : Int} (unfinished : k.OwnerUnfinished id) (use : UseKept k w)
    (owners : OwnersKept k w) (ends : NoneEnds k w) : w.OwnerUnfinished id := by
  intro i below at_ t used owner
  rw [use i] at used
  rw [(owners i).1] at owner
  exact ends t (unfinished i below at_ t used owner)

omit [DecidableEq T] in
theorem LiveTimers.settime_armed (live : LiveTimers k) {now : Clocks} {id : Int} {flags : Word} {i : Nat}
    {x armed : Kernel T} {value interval : Duration} {e : Int} (unfinished : k.OwnerUnfinished id)
    (at_ : timerAt id = .ok i) (test : timerUnused id k = .ok false)
    (disarm : disarmIfArmed id (k.timerArray i) k = .ok x)
    (arm : armTimer now id value interval (setAbstime i flags x) = .ok (armed, e)) :
    LiveTimers armed ∧ 0 < armed.timerHeap.nelem := by
  obtain ⟨reset, use, owners, ends⟩ := live.reset flags disarm
  obtain ⟨after, busy⟩ := reset.arm (unfinished.keep use owners ends) arm
  have used : (k.timerArray i).inUse = true := by simpa [Ktimer.inUse] using timerUnused_false at_ test
  exact ⟨after, busy i at_ ((use i).trans used)⟩

theorem LiveTimers.settime (live : LiveTimers k) (fuel : Nat) (now : Nat → Clocks) (flags : Word)
    {id : Int} {value : Option Itimerspec} (unfinished : starts value = true → k.OwnerUnfinished id) :
    Avoids .nullDeref (timerSettimeSys fuel now id flags value k) ∧
      (∀ us, settimeUses fuel now id flags value k = .ok us → ∀ u ∈ us, u.Live) ∧
      ∀ w v o, timerSettimeSys fuel now id flags value k = .ok (w, v, o) → LiveTimers w := by
  refine ⟨?_, fun us ran u member => ?_, fun w v o ran => ?_⟩
  · refine Avoids.bind (timerUnused_avoids id k) fun unused test => ?_
    cases unused with
    | true => exact avoids_ok ⟨_, rfl⟩
    | false =>
      refine Avoids.bind (timerAt_avoids id) fun i at_ => ?_
      refine Avoids.bind ?_ fun disarmed disarm => ?_
      · unfold disarmIfArmed
        split
        · exact live.disarm_avoids id
        · exact avoids_ok ⟨_, rfl⟩
      cases value with
      | none => exact avoids_ok ⟨_, rfl⟩
      | some v =>
        simp only
        split
        · exact avoids_ok ⟨_, rfl⟩
        · rename_i some_
          refine Avoids.bind ((live.reset flags disarm).1.arm_avoids _ _ _ _) fun armed arm => ?_
          obtain ⟨after, busy⟩ := live.settime_armed (unfinished (decide_eq_true some_)) at_ test disarm arm
          exact Avoids.bind (after.update busy fuel _).noNull fun r _ => avoids_ok ⟨_, rfl⟩
  · simp only [settimeUses, bind, bind_ok, pure, Except.pure] at ran
    obtain ⟨unused, test, ran⟩ := ran
    cases unused with
    | true =>
      cases ran
      cases member
    | false =>
      simp only [Bool.false_eq_true, if_false, bind_ok] at ran
      obtain ⟨i, at_, disarmed, disarm, ran⟩ := ran
      split at ran
      · cases ran
        cases member
      · rename_i v
        split at ran
        · cases ran
          cases member
        · rename_i some_
          simp only [bind_ok, Prod.exists] at ran
          obtain ⟨armed, e, arm, ran⟩ := ran
          cases ran
          obtain ⟨after, busy⟩ := live.settime_armed (unfinished (decide_eq_true some_)) at_ test disarm arm
          exact (after.update busy fuel _).uses u member
  · rcases timerSettimeSys_cases ran with ⟨_, rfl⟩ | ⟨test, i, disarmed, at_, disarm, rest⟩
    · exact live.keep rfl rfl fun t alive => alive
    · rcases rest with rfl | ⟨x, armed, _, r, given, some_, arm, update, rfl⟩
      · exact (live.reset flags disarm).1
      · obtain ⟨after, busy⟩ := live.settime_armed
          (unfinished (by rw [given]; exact decide_eq_true some_)) at_ test disarm arm
        exact (after.update busy fuel _).live r update

/-- sleep_for finds a timer on the heap: its own, or another one when it has none. -/
def Kernel.SleepFinds (k : Kernel T) : Prop :=
  k.OwnerUnfinished (k.sleepKtimer k.currentThread) ∧
    ∀ i, i < maxTimers → k.sleepKtimer k.currentThread = (i : Int) →
      (k.timerArray i).inUse = true ∨ 0 < k.timerHeap.nelem

theorem LiveTimers.sleep_armed (live : LiveTimers k) {now : Clocks} {d : Duration} {armed : Kernel T} {e : Int}
    (finds : k.SleepFinds)
    (arm : armTimer now (k.sleepKtimer k.currentThread) d 0 k = .ok (armed, e)) :
    LiveTimers (suspendThread k.currentThread armed) ∧
      0 < (suspendThread k.currentThread armed).timerHeap.nelem := by
  obtain ⟨after, own⟩ := live.arm finds.1 arm
  obtain ⟨table, heap⟩ := suspendThread_timers k.currentThread armed
  have alive := congrArg Kernel.live (suspendThread_only k.currentThread armed)
  have ends : NoneEnds armed (suspendThread k.currentThread armed) := by
    intro t unfinished
    refine ⟨(congrFun alive t).trans unfinished.1, ?_⟩
    rw [suspendThread_state]
    split
    · exact fun same => finished_ne_suspended same.symm
    · exact unfinished.2
  refine ⟨after.keep table heap ends, ?_⟩
  have size : (suspendThread k.currentThread armed).timerHeap.nelem = armed.timerHeap.nelem := by
    rw [heap]
  rw [size]
  rcases live.arm_cases now (k.sleepKtimer k.currentThread) d 0 with fault | fault | ⟨i, at_, unused, ok⟩ |
    ⟨i, x, h, at_, used, _, _, _, _, _⟩
  · rw [fault] at arm
    cases arm
  · rw [fault] at arm
    cases arm
  · rw [ok] at arm
    cases arm
    exact (finds.2 i (timerAt_ok at_) (timerAt_id at_)).resolve_left (by rw [unused]; exact Bool.false_ne_true)
  · exact own i at_ used

theorem LiveTimers.sleep (live : LiveTimers k) (fuel : Nat) (now : Nat → Clocks) (d : Duration)
    (finds : k.SleepFinds) :
    Avoids .nullDeref (sleepFor fuel now d k) ∧
      (∀ us, sleepUses fuel now d k = .ok us → ∀ u ∈ us, u.Live) ∧
      ∀ w, sleepFor fuel now d k = .ok w → LiveTimers w := by
  refine ⟨?_, fun us ran u member => ?_, fun w ran => ?_⟩
  · refine Avoids.bind (live.arm_avoids _ _ _ _) fun armed arm => ?_
    obtain ⟨after, busy⟩ := live.sleep_armed finds arm
    exact Avoids.bind (after.update busy fuel _).noNull fun r _ => avoids_ok ⟨_, rfl⟩
  · simp only [sleepUses, bind, bind_ok, pure, Except.pure, Prod.exists] at ran
    obtain ⟨armed, e, arm, ran⟩ := ran
    cases ran
    obtain ⟨after, busy⟩ := live.sleep_armed finds arm
    exact (after.update busy fuel _).uses u member
  · simp only [sleepFor, bind, bind_ok, pure, Except.pure, Prod.exists] at ran
    obtain ⟨armed, e, arm, r, update, ran⟩ := ran
    cases ran
    obtain ⟨after, busy⟩ := live.sleep_armed finds arm
    exact (after.update busy fuel _).live r update

end

section
variable {k w : Kernel T}

/-- Of the timers of the thread that exits no other than its own sleep timer is on the
    heap, and that one at most once. -/
def Kernel.ExitsClean (k : Kernel T) : Prop :=
  k.HeldOnce (k.sleepKtimer k.currentThread) ∧
    ∀ i, i < maxTimers → some i ∈ k.timerHeap.elements →
      (k.timerArray i).owner = some k.currentThread → k.sleepKtimer k.currentThread = (i : Int)

theorem LiveTimers.finish (live : LiveTimers k) {t : T}
    (none_ : ∀ i, some i ∈ k.timerHeap.elements → (k.timerArray i).owner ≠ some t) :
    LiveTimers (finishThread t k) := by
  have only := finishThread_only t k
  have table := congrArg Kernel.timerArray only
  have heap := congrArg Kernel.timerHeap only
  have alive := congrArg Kernel.live only
  refine ⟨heap ▸ live.heap, fun i used => ?_, fun i member => ?_⟩
  · rw [table] at *
    exact live.owned i used
  · rw [heap] at member
    obtain ⟨used, u, owner, unfinished⟩ := live.held i member
    rw [Kernel.LiveTimer, table]
    refine ⟨used, u, owner, (congrFun alive u).trans unfinished.1, ?_⟩
    have other : u ≠ t := fun same => none_ i member (same ▸ owner)
    rw [finishThread_state, if_neg other]
    exact unfinished.2

theorem LiveTimers.exit (live : LiveTimers k) (clean : k.ExitsClean) :
    Avoids .nullDeref (pthreadExitSys k) ∧ ∀ w, pthreadExitSys k = .ok w → LiveTimers w := by
  refine ⟨?_, fun w ran => ?_⟩
  · refine Avoids.bind (live.free_avoids _) fun freed _ => ?_
    simp only
    split
    · exact avoids_ok ⟨_, rfl⟩
    · exact avoids_ok ⟨_, rfl⟩
  · simp only [pthreadExitSys, bind, bind_ok, pure, Except.pure] at ran
    obtain ⟨freed, free, ran⟩ := ran
    have after := live.free clean.1 free
    have gone : ∀ i, some i ∈ freed.timerHeap.elements →
        (freed.timerArray i).owner ≠ some k.currentThread := by
      intro i member mine
      rw [((freeKtimer_book free).2 i).1] at mine
      rcases live.free_cases (k.sleepKtimer k.currentThread) with fault | ⟨j, h, at_, _, elements, ok⟩
      · rw [fault] at free
        cases free
      · rw [ok] at free
        cases free
        have left : some i ∈ k.timerHeap.elements.erase (some j) := elements ▸ member
        have before := Multiset.mem_of_mem_erase left
        obtain ⟨y, below, same⟩ := live.heap.timer before
        cases same
        have own := clean.2 i below before mine
        rw [timerAt_id at_] at own
        obtain rfl : j = i := by omega
        rw [← Multiset.count_pos, Multiset.count_erase_self] at left
        have bound := clean.1 j below (timerAt_id at_)
        omega
    have done := after.finish gone
    split at ran
    · rename_i joiner _
      cases ran
      split
      · have only := activateThread_only joiner (finishThread k.currentThread freed)
        have table := congrArg Kernel.timerArray only
        have heap := congrArg Kernel.timerHeap only
        exact done.keep table heap (Woken.wake (P := (· = joiner)) joiner rfl).noneEnds
      · exact done
    · cases ran
      exact done

theorem LiveTimers.interrupt (live : LiveTimers k) (busy : 0 < k.timerHeap.nelem) (fuel : Nat)
    (now : Nat → Clocks) :
    Avoids .nullDeref (clockHandler fuel now k) ∧ ∀ w, clockHandler fuel now k = .ok w → LiveTimers w := by
  have safe := live.update busy fuel now
  refine ⟨safe.noNull.bind fun r _ => avoids_ok ⟨_, rfl⟩, fun w ran => ?_⟩
  simp only [clockHandler, bind, bind_ok, pure, Except.pure, Except.ok.injEq] at ran
  obtain ⟨r, update, rfl⟩ := ran
  have after := safe.live r update
  split
  · have only := scheduling_only (now 0).monotonic r.kernel
    have table := congrArg Kernel.timerArray only
    have heap := congrArg Kernel.timerHeap only
    have alive := congrArg Kernel.live only
    have flags := congrArg Kernel.threadFlags only
    exact after.keep table heap (.of_fields alive flags)
  · exact after

end

/-- The calls that concern timers, and clock interrupts. Those of `timer` are made by
    the current thread, which `other` may change with the rest of the kernel. -/
inductive ClockOp (T : Type) where
  | timer (op : TimerOp T)
  | delete (id : Int)
  | exit
  | interrupt (fuel : Nat) (now : Nat → Clocks)

def ClockOp.run (k : Kernel T) : ClockOp T → Except Fault (Kernel T)
  | .timer op => op.run k
  | .delete id => do return (← timerDeleteSys id k).1
  | .exit => pthreadExitSys k
  | .interrupt fuel now => clockHandler fuel now k

def ClockOp.uses (k : Kernel T) : ClockOp T → Except Fault (List (TimerUse T))
  | .timer (.settime fuel now id flags value) => settimeUses fuel now id flags value k
  | .timer (.sleep fuel now d) => sleepUses fuel now d k
  | .timer (.update fuel now) | .interrupt fuel now => .ok (updateUses fuel now k)
  | _ => .ok []

structure ClockOp.Safe (k : Kernel T) (op : ClockOp T) : Prop where
  noNull : op.run k ≠ .error .nullDeref
  uses : ∀ us, op.uses k = .ok us → ∀ u ∈ us, u.Live

omit [DecidableEq T] in
/-- alloc_ktimer is called for a new thread or by the one that will own the timer, and
    the rest of the kernel ends no thread. -/
def ClockOp.Legal (k : Kernel T) : ClockOp T → Prop
  | .timer (.alloc _ thread _) => k.Unfinished thread
  | .timer (.other w) => NoneEnds k w
  | _ => True

omit [DecidableEq T] in
/-- update_hwtimer finds a timer on the heap, timers are armed only while their owners
    last, and a timer is off the heap when it is freed or its owner exits. -/
def ClockOp.Fits (k : Kernel T) : ClockOp T → Prop
  | .timer (.alloc _ _ _) | .timer (.disarm _) | .timer (.other _) => True
  | .timer (.arm _ id _ _) => k.OwnerUnfinished id
  | .timer (.settime _ _ id _ value) => starts value = true → k.OwnerUnfinished id
  | .timer (.sleep _ _ _) => k.SleepFinds
  | .timer (.free id) | .delete id => k.HeldOnce id
  | .exit => k.ExitsClean
  | .timer (.update _ _) | .interrupt _ _ => 0 < k.timerHeap.nelem

def ClockOp.step (k : Kernel T) (op : ClockOp T) : Option (Kernel T × List Unit) :=
  match op.run k with
  | .ok w => some (w, [])
  | .error _ => none

section
variable {k w : Kernel T}

theorem LiveTimers.delete (live : LiveTimers k) {id : Int} (once : k.HeldOnce id) :
    Avoids .nullDeref (timerDeleteSys id k) ∧ ∀ w v, timerDeleteSys id k = .ok (w, v) → LiveTimers w := by
  refine ⟨?_, fun w v ran => ?_⟩
  · refine Avoids.bind (timerUnused_avoids id k) fun unused _ => ?_
    cases unused with
    | true => exact avoids_ok ⟨_, rfl⟩
    | false => exact Avoids.bind (live.free_avoids id) fun freed _ => avoids_ok ⟨_, rfl⟩
  · simp only [timerDeleteSys, bind, bind_ok, pure, Except.pure] at ran
    obtain ⟨unused, _, ran⟩ := ran
    cases unused with
    | true =>
      cases ran
      exact live.keep rfl rfl fun t alive => alive
    | false =>
      simp only [Bool.false_eq_true, if_false, bind_ok] at ran
      obtain ⟨freed, free, ran⟩ := ran
      cases ran
      exact live.free once free

omit [DecidableEq T] in
theorem unused_live (us : List (TimerUse T)) (none_ : (.ok [] : Except Fault (List (TimerUse T))) = .ok us) :
    ∀ u ∈ us, u.Live := by
  cases none_
  intro u member
  cases member

theorem LiveTimers.timerOp (live : LiveTimers k) {op : TimerOp T}
    (legal : ClockOp.Legal k (.timer op)) (fits : ClockOp.Fits k (.timer op)) :
    ClockOp.Safe k (.timer op) ∧ ∀ w, op.run k = .ok w → LiveTimers w := by
  cases op with
  | alloc clockid thread act =>
    refine ⟨⟨avoids_ok ⟨_, rfl⟩, unused_live⟩, fun w ran => ?_⟩
    cases ran
    exact live.alloc clockid thread act
  | free id => exact ⟨⟨live.free_avoids id, unused_live⟩, fun w ran => live.free fits ran⟩
  | arm now id value interval =>
    refine ⟨⟨(live.arm_avoids now id value interval).bind fun r _ => avoids_ok ⟨_, rfl⟩, unused_live⟩,
      fun w ran => ?_⟩
    simp only [TimerOp.run, bind, bind_ok, pure, Except.pure, Except.ok.injEq, Prod.exists] at ran
    obtain ⟨x, v, armed, rfl⟩ := ran
    exact (live.arm fits armed).1
  | disarm id => exact ⟨⟨live.disarm_avoids id, unused_live⟩, fun w ran => live.disarm ran⟩
  | settime fuel now id flags value =>
    obtain ⟨noNull, uses, kept⟩ := live.settime fuel now flags fits
    refine ⟨⟨Avoids.bind noNull fun r _ => avoids_ok ⟨_, rfl⟩, uses⟩, fun w ran => ?_⟩
    simp only [TimerOp.run, bind, bind_ok, pure, Except.pure, Except.ok.injEq, Prod.exists] at ran
    obtain ⟨x, v, o, set, rfl⟩ := ran
    exact kept x v o set
  | update fuel now =>
    have safe := live.update fits fuel now
    refine ⟨⟨Avoids.bind safe.noNull fun r _ => avoids_ok ⟨_, rfl⟩, fun us same => ?_⟩, fun w ran => ?_⟩
    · cases same
      exact safe.uses
    · simp only [TimerOp.run, bind, bind_ok, pure, Except.pure, Except.ok.injEq] at ran
      obtain ⟨r, updated, rfl⟩ := ran
      exact safe.live r updated
  | sleep fuel now d =>
    obtain ⟨noNull, uses, kept⟩ := live.sleep fuel now d fits
    exact ⟨⟨noNull, uses⟩, kept⟩
  | other x =>
    refine ⟨⟨avoids_ok ⟨_, rfl⟩, unused_live⟩, fun w ran => ?_⟩
    cases ran
    exact live.keep rfl rfl legal

theorem LiveTimers.call (live : LiveTimers k) {op : ClockOp T} (legal : op.Legal k) (fits : op.Fits k) :
    op.Safe k ∧ ∀ w, op.run k = .ok w → LiveTimers w := by
  cases op with
  | timer op => exact live.timerOp legal fits
  | delete id =>
    obtain ⟨noNull, kept⟩ := live.delete fits
    refine ⟨⟨Avoids.bind noNull fun r _ => avoids_ok ⟨_, rfl⟩, unused_live⟩, fun w ran => ?_⟩
    simp only [ClockOp.run, bind, bind_ok, pure, Except.pure, Except.ok.injEq, Prod.exists] at ran
    obtain ⟨x, v, deleted, rfl⟩ := ran
    exact kept x v deleted
  | exit =>
    obtain ⟨noNull, kept⟩ := live.exit fits
    exact ⟨⟨noNull, unused_live⟩, kept⟩
  | interrupt fuel now =>
    obtain ⟨noNull, kept⟩ := live.interrupt fits fuel now
    refine ⟨⟨noNull, fun us same => ?_⟩, kept⟩
    cases same
    exact (live.update fits fuel now).uses

omit [DecidableEq T] in
theorem liveTimers_start (unused : ∀ j, (k.timerArray j).flags = 0#32) (empty : k.timerHeap.nelem = 0) :
    LiveTimers k := by
  have nothing : k.timerHeap.elements = 0 := by
    rw [← Multiset.card_eq_zero, TimerHeap.elements, card_elems, empty]
  refine ⟨⟨fun i low high => by omega, ?_⟩, fun i used => ?_, fun i member => ?_⟩
  · rw [empty]
    decide
  · simp [Ktimer.inUse, unused i] at used
  · rw [nothing] at member
    exact absurd member (Multiset.notMem_zero _)

end

theorem timer_uses_live (k : Kernel T) (unused : ∀ j, (k.timerArray j).flags = 0#32)
    (empty : k.timerHeap.nelem = 0) (ops : List (ClockOp T))
    (legal : Lts.Along ClockOp.step (fun k op => op.Legal k) k ops)
    (fits : Lts.Along ClockOp.step (fun k op => op.Fits k) k ops)
    (before after : List (ClockOp T)) (op : ClockOp T) (split : ops = before ++ op :: after)
    (w : Kernel T) (es : List Unit) (run : Lts.exec ClockOp.step k before = some (w, es)) :
    op.Safe w := by
  have keeps : ∀ (x : Kernel T) (past : List Unit) o y first, LiveTimers x → o.Legal x ∧ o.Fits x →
      ClockOp.step x o = some (y, first) → LiveTimers y := by
    intro x _ o y first live allowed taken
    unfold ClockOp.step at taken
    split at taken
    · rename_i z ran
      cases taken
      exact (live.call allowed.1 allowed.2).2 _ ran
    · cases taken
  obtain ⟨live, allowed⟩ := Lts.invariant_at (fun x _ => LiveTimers x) keeps
    (liveTimers_start unused empty) (legal.and fits) split run
  exact (live.call allowed.1 allowed.2).1

omit [DecidableEq T] in
instance ClockOp.decideLegal [Fintype T] (k : Kernel T) : ∀ op : ClockOp T, Decidable (op.Legal k)
  | .timer (.alloc _ thread _) => inferInstanceAs (Decidable (k.Unfinished thread))
  | .timer (.other w) => inferInstanceAs (Decidable (∀ t, k.Unfinished t → w.Unfinished t))
  | .timer (.free _) | .timer (.arm _ _ _ _) | .timer (.disarm _) | .timer (.settime _ _ _ _ _)
  | .timer (.update _ _) | .timer (.sleep _ _ _) | .delete _ | .exit | .interrupt _ _ => isTrue trivial

omit [DecidableEq T] in
instance Kernel.decidableHeldOnce (k : Kernel T) (id : Int) : Decidable (k.HeldOnce id) :=
  inferInstanceAs (Decidable (∀ i, i < maxTimers → id = (i : Int) → _))

instance [Fintype T] (k : Kernel T) (id : Int) : Decidable (k.OwnerUnfinished id) :=
  inferInstanceAs (Decidable (∀ i, i < maxTimers → id = (i : Int) → ∀ t, _ → _ → k.Unfinished t))

instance [Fintype T] (k : Kernel T) : Decidable k.SleepFinds :=
  inferInstanceAs (Decidable (_ ∧ ∀ i, i < maxTimers → _ → _))

instance (k : Kernel T) : Decidable k.ExitsClean :=
  inferInstanceAs (Decidable (_ ∧ ∀ i, i < maxTimers → _ → _ → _))

instance ClockOp.decideFits [Fintype T] (k : Kernel T) : ∀ op : ClockOp T, Decidable (op.Fits k)
  | .timer (.alloc _ _ _) | .timer (.disarm _) | .timer (.other _) => isTrue trivial
  | .timer (.arm _ id _ _) => inferInstanceAs (Decidable (k.OwnerUnfinished id))
  | .timer (.settime _ _ id _ value) =>
    inferInstanceAs (Decidable (starts value = true → k.OwnerUnfinished id))
  | .timer (.sleep _ _ _) => inferInstanceAs (Decidable k.SleepFinds)
  | .timer (.free id) | .delete id => inferInstanceAs (Decidable (k.HeldOnce id))
  | .exit => inferInstanceAs (Decidable k.ExitsClean)
  | .timer (.update _ _) | .interrupt _ _ => inferInstanceAs (Decidable (0 < k.timerHeap.nelem))

def standing (d : Duration) (_ : Nat) : Clocks := ⟨d, d⟩

def oneAlarm : List (ClockOp (Fin 2)) :=
  [.timer (.other twoThreads), .timer (.alloc .monotonic 0 .wakeup), .timer (.alloc .monotonic 1 .wakeup),
    .timer (.alloc .monotonic 1 .kill), .timer (.settime 2 (standing 0) 2 0#32 (some ⟨⟨0, 0⟩, ⟨0, 5⟩⟩))]

theorem timer_uses_live_alarm :
    ∃ w, Lts.exec ClockOp.step (bootKernel 0) oneAlarm = some (w, []) ∧ w.timerHeap.nelem = 1 ∧
      (updateUses 2 (standing 9) w).map TimerUse.timer = [2, 2, 2] ∧
      ClockOp.Safe w (.interrupt 2 (standing 9)) := by
  have final : (Lts.exec ClockOp.step (bootKernel 0) oneAlarm).map (fun r => (r.2, r.1.timerHeap.nelem,
      (updateUses 2 (standing 9) r.1).map TimerUse.timer)) = some ([], 1, [2, 2, 2]) := by decide +kernel
  obtain ⟨⟨w, es⟩, run, eq⟩ := Option.map_eq_some_iff.mp final
  simp only [Prod.mk.injEq] at eq
  obtain ⟨rfl, size, uses⟩ := eq
  exact ⟨w, run, size, uses, timer_uses_live (bootKernel 0) (fun _ => rfl) rfl
    (oneAlarm ++ [.interrupt 2 (standing 9)]) (by decide +kernel) (by decide +kernel) oneAlarm [] _ rfl
    w [] run⟩

instance [Fintype T] (u : TimerUse T) : Decidable u.Live :=
  inferInstanceAs (Decidable (_ ∧ ∃ t, _ ∧ u.kernel.Unfinished t))

/-- With the heap empty, clock_handler always follows NULL. -/
theorem clockHandler_empty {k : Kernel T} (empty : k.timerHeap.nelem = 0) (fuel : Nat) (now : Nat → Clocks) :
    clockHandler fuel now k = .error .nullDeref := by
  simp only [clockHandler, updateHwtimer, nextTimer, heapMin_empty empty, bind, Except.bind, pure,
    Except.pure]
  rfl

/-- The timer is deleted before the interrupt comes, or its owner exits. -/
theorem timer_uses_dead :
    (∃ w, Lts.exec ClockOp.step (bootKernel 0) (oneAlarm ++ [.delete 2]) = some (w, []) ∧ w.hwtimer ≠ 0 ∧
      ClockOp.run w (.interrupt 2 (standing 9)) = .error .nullDeref ∧
      ¬ClockOp.Safe w (.interrupt 2 (standing 9))) ∧
    ∃ w, Lts.exec ClockOp.step (bootKernel 0) (oneAlarm ++ [.exit]) = some (w, []) ∧
      (w.timerArray 2).owner = some 1 ∧ w.state 1 = finishedThread ∧
      ¬ClockOp.Safe w (.interrupt 2 (standing 9)) := by
  constructor
  · have final : (Lts.exec ClockOp.step (bootKernel 0) (oneAlarm ++ [.delete 2])).map (fun r =>
        (r.2, decide (r.1.hwtimer ≠ 0), r.1.timerHeap.nelem)) = some ([], true, 0) := by decide +kernel
    obtain ⟨⟨w, es⟩, run, eq⟩ := Option.map_eq_some_iff.mp final
    simp only [Prod.mk.injEq, decide_eq_true_eq] at eq
    obtain ⟨rfl, pending, empty⟩ := eq
    have fault := clockHandler_empty empty 2 (standing 9)
    exact ⟨w, run, pending, fault, fun safe => safe.noNull fault⟩
  · have final : (Lts.exec ClockOp.step (bootKernel 0) (oneAlarm ++ [.exit])).map
        (fun r : Kernel (Fin 2) × List Unit => (r.2, (r.1.timerArray 2).owner,
          decide (r.1.state 1 = finishedThread),
          decide (∀ u ∈ updateUses 2 (standing 9) r.1, u.Live))) =
        some ([], some 1, true, false) := by
      decide +kernel
    obtain ⟨⟨w, es⟩, run, eq⟩ := Option.map_eq_some_iff.mp final
    simp only [Prod.mk.injEq, decide_eq_true_eq, decide_eq_false_iff_not] at eq
    obtain ⟨rfl, owner, ended, dead⟩ := eq
    exact ⟨w, run, owner, ended, fun safe => dead (safe.uses _ rfl)⟩

end L4ertl
