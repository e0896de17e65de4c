import L4ertl.Core.TimerOk
import L4ertl.Lib.Lts

/-!
Runs of the functions of time.c that use the timer table. Each of them keeps
the invariant of the table, and the accesses inside the heap array, as long as
no timer is armed twice and no removal needs a look upwards.
-/
namespace L4ertl
open BinaryHeap

def Inside {α : Type} (x : Except Fault α) : Prop := x ≠ .error .heapIndex

theorem Inside.bind {α β : Type} {x : Except Fault α} {f : α → Except Fault β} (first : Inside x)
    (rest : ∀ a, x = .ok a → Inside (f a)) : Inside (x.bind f) := Avoids.bind first rest

theorem inside_ok {α : Type} {x : Except Fault α} (returns : ∃ r, x = .ok r) : Inside x :=
  avoids_ok returns

theorem timerAt_inside (id : Int) : Inside (timerAt id) := by
  unfold timerAt
  split <;> nofun

theorem timerAt_ok {id : Int} {i : Nat} (ran : timerAt id = .ok i) : i < maxTimers := by
  unfold timerAt at ran
  split at ran
  · rename_i range
    cases ran
    omega
  · cases ran

variable {T : Type} [DecidableEq T]

abbrev Kernel.TimersOk (k : Kernel T) : Prop := L4ertl.TimersOk k.timerArray k.timerHeap

section
omit [DecidableEq T]

theorem armed_clear (x : Ktimer T) :
    ({ x with flags := x.flags &&& ~~~timerArmed } : Ktimer T).armed = false := by
  simp [Ktimer.armed, BitVec.and_assoc]

theorem armed_set (x : Ktimer T) (v d : Duration) :
    ({ x with timerValue := v, timerInterval := d, flags := x.flags ||| timerArmed } : Ktimer T).armed =
      true := by
  simp only [Ktimer.armed, BitVec.and_or_distrib_right, bne_iff_ne, ne_eq, BitVec.or_eq_zero_iff]
  exact fun both => absurd both.2 (by decide)

theorem inUse_armed (x : Ktimer T) (v d : Duration) :
    ({ x with timerValue := v, timerInterval := d, flags := x.flags ||| timerArmed } : Ktimer T).inUse =
      x.inUse := by
  have apart : timerArmed &&& timerInUse = 0#32 := by decide
  simp [Ktimer.inUse, BitVec.and_or_distrib_right, apart]

theorem freeKtimer_timersOk {id : Int} {k w : Kernel T} (ok : k.TimersOk)
    (fits : ∀ i, timerAt id = .ok i → RemovalOk k.timerArray k.timerHeap i)
    (ran : freeKtimer id k = .ok w) : w.TimersOk := by
  simp only [freeKtimer, bind, bind_ok, pure, Except.pure, Except.ok.injEq, Prod.exists] at ran
  obtain ⟨i, at_, h, v, removed, rfl⟩ := ran
  have off := (ok.remove (fits i at_) removed).set { k.timerArray i with flags := 0#32 }
  apply off.close
  simp [Ktimer.inUse]

theorem disarmTimer_timersOk {id : Int} {k w : Kernel T} (ok : k.TimersOk)
    (fits : ∀ i, timerAt id = .ok i → RemovalOk k.timerArray k.timerHeap i)
    (ran : disarmTimer id k = .ok w) : w.TimersOk := by
  simp only [disarmTimer, bind, bind_ok, pure, Except.pure, Except.ok.injEq, Prod.exists] at ran
  obtain ⟨i, at_, h, v, removed, rfl⟩ := ran
  have off := (ok.remove (fits i at_) removed).set
    { k.timerArray i with flags := (k.timerArray i).flags &&& ~~~timerArmed }
  apply off.close
  simp [armed_clear]

theorem armTimer_timersOk {now : Clocks} {id : Int} {value interval : Duration} {k w : Kernel T}
    {v : Int} (ok : k.TimersOk)
    (free : ∀ i, timerAt id = .ok i → ¬((k.timerArray i).inUse = true ∧ (k.timerArray i).armed = true))
    (ran : armTimer now id value interval k = .ok (w, v)) : w.TimersOk := by
  simp only [armTimer, bind, bind_ok, pure, Except.pure] at ran
  obtain ⟨i, at_, ran⟩ := ran
  split at ran
  · cases ran
    exact ok
  · rename_i used
    simp only [bind_ok, Except.ok.injEq, Prod.mk.injEq, Prod.exists] at ran
    obtain ⟨expiry, _, h, v', inserted, rfl, _⟩ := ran
    have inside := timerAt_ok at_
    have off := (ok.open inside (free i at_)).set { k.timerArray i with
      timerValue := expiry, timerInterval := interval
      flags := (k.timerArray i).flags ||| timerArmed }
    refine off.insert inside ?_ inserted
    simp only [Function.update_self, inUse_armed, armed_set, and_true]
    simpa [Ktimer.inUse] using used

theorem setAbstime_same (i j : Nat) (flags : Word) (k : Kernel T) :
    ((setAbstime i flags k).timerArray j).inUse = (k.timerArray j).inUse ∧
      ((setAbstime i flags k).timerArray j).armed = (k.timerArray j).armed ∧
      ((setAbstime i flags k).timerArray j).timerValue = (k.timerArray j).timerValue := by
  have kept : ∀ f u : Word, timerAbstime &&& u = 0#32 → ~~~timerAbstime &&& u = u →
      ((f &&& ~~~timerAbstime) ||| (flags &&& timerAbstime)) &&& u = f &&& u := by
    intro f u apart keeps
    rw [BitVec.and_or_distrib_right, BitVec.and_assoc, BitVec.and_assoc, apart, keeps]
    simp
  simp only [setAbstime, setTimer, Function.update_apply]
  split
  · rename_i same
    rw [same]
    simp only [Ktimer.inUse, Ktimer.armed]
    rw [kept _ timerInUse (by decide) (by decide), kept _ timerArmed (by decide) (by decide)]
    exact ⟨rfl, rfl, trivial⟩
  · exact ⟨rfl, rfl, rfl⟩

theorem setAbstime_timersOk {i : Nat} {flags : Word} {k : Kernel T} (ok : k.TimersOk) :
    (setAbstime i flags k).TimersOk := by
  refine ⟨ok.filled, ok.once, fun j below => ?_, ?_⟩
  · obtain ⟨used, armed, _⟩ := setAbstime_same i j flags k
    rw [used, armed]
    exact ok.members j below
  · apply ordered_congr ok.ordered
    intro p _ _
    cases here : k.timerHeap.array p with
    | none => rfl
    | some j => simp only [keyOf, (setAbstime_same i j flags k).2.2]

theorem disarmIfArmed_armed {id : Int} {i : Nat} {k w : Kernel T} (at_ : timerAt id = .ok i)
    (ran : disarmIfArmed id (k.timerArray i) k = .ok w) : (w.timerArray i).armed = false := by
  unfold disarmIfArmed at ran
  split at ran
  · simp only [disarmTimer, at_, bind, bind_ok, pure, Except.pure, Except.ok.injEq, Prod.exists] at ran
    obtain ⟨j, same, h, v, _, rfl⟩ := ran
    cases same
    simp only [setTimer, Function.update_self]
    exact armed_clear _
  · rename_i off
    cases ran
    rw [not_not] at off
    simp [Ktimer.armed, off]

theorem disarmIfArmed_timersOk {id : Int} {x : Ktimer T} {k w : Kernel T} (ok : k.TimersOk)
    (fits : ∀ i, timerAt id = .ok i → RemovalOk k.timerArray k.timerHeap i)
    (ran : disarmIfArmed id x k = .ok w) : w.TimersOk := by
  unfold disarmIfArmed at ran
  split at ran
  · exact disarmTimer_timersOk ok fits ran
  · cases ran
    exact ok

theorem rearmTimer_timersOk {ctime : Duration} {i : Nat} {k w : Kernel T} (inside : i < maxTimers)
    (off : OffHeap i k.timerArray k.timerHeap)
    (live : (k.timerArray i).inUse = true ∧ (k.timerArray i).armed = true)
    (ran : rearmTimer ctime i k = .ok w) : w.TimersOk := by
  rcases rearmTimer_cases ran with ⟨_, _, h, v, rfl, inserted, rfl⟩ | ⟨_, rfl⟩
  · have moved := off.set { k.timerArray i with
      timerValue := (k.timerArray i).timerInterval + ctime }
    refine moved.insert inside ?_ inserted
    rw [Function.update_self]
    exact live
  · have marked := off.set { k.timerArray i with flags := (k.timerArray i).flags &&& ~~~timerArmed }
    apply marked.close
    simp [armed_clear]

end

theorem serveTimer_timersOk {ctime : Duration} {i : Nat} {k w : Kernel T} {v : Int} (ok : k.TimersOk)
    (busy : 0 < k.timerHeap.nelem) (root : k.timerHeap.array 1 = some i)
    (ran : serveTimer ctime i k = .ok (w, v)) : w.TimersOk := by
  obtain ⟨acted, h, min, act, removed, rearm⟩ := serveTimer_parts ran
  obtain ⟨table, heap⟩ := timerAct_timers act
  obtain ⟨j, inside, here⟩ := ok.filled 1 (le_refl 1) busy
  rw [root] at here
  cases here
  have live := (ok.members i inside).mp ⟨1, le_refl 1, busy, root⟩
  rw [table, heap] at removed
  have off := ok.removeMin busy root removed
  rw [← table] at off live
  exact rearmTimer_timersOk (k := { acted with timerHeap := h }) inside off live rearm

omit [DecidableEq T] in
theorem nextTimer_ok {now : Clocks} {k : Kernel T} {top : Option (Nat × Duration)}
    (ran : nextTimer now k = .ok top) {i : Nat} {c : Duration} (here : top = some (i, c)) :
    0 < k.timerHeap.nelem ∧ k.timerHeap.array 1 = some i ∧ readClock now k (k.timerArray i) = .ok c := by
  simp only [nextTimer, heapMin, bind, bind_ok, pure, Except.pure] at ran
  obtain ⟨min, got, ran⟩ := ran
  split at got
  · rename_i busy
    obtain ⟨_, same⟩ := get_ok got
    cases min with
    | none =>
      cases ran
      cases here
    | some j =>
      simp only [bind_ok, Except.ok.injEq] at ran
      obtain ⟨ctime, read, rfl⟩ := ran
      cases here
      exact ⟨busy, same, read⟩
  · cases got
    cases ran
    cases here

theorem updateLoop_timersOk (fuel : Nat) {now : Nat → Clocks} {r q : TimerRound T}
    (ok : r.kernel.TimersOk)
    (top : ∀ i c, r.top = some (i, c) → 0 < r.kernel.timerHeap.nelem ∧ r.kernel.timerHeap.array 1 = some i)
    (ran : updateLoop fuel now r = .ok q) : q.kernel.TimersOk := by
  have kept := updateLoop_invariant (P := fun q => q.kernel.TimersOk ∧ ∀ i c, q.top = some (i, c) →
    0 < q.kernel.timerHeap.nelem ∧ q.kernel.timerHeap.array 1 = some i) fuel ?_ ⟨ok, top⟩ ran
  · exact kept.1
  · intro q n i ctime k action next inv here _ served looked
    obtain ⟨ok, top⟩ := inv
    obtain ⟨busy, root⟩ := top i ctime here
    refine ⟨serveTimer_timersOk ok busy root served, ?_⟩
    intro j c there
    obtain ⟨busy', root', _⟩ := nextTimer_ok looked there
    exact ⟨busy', root'⟩

theorem updateHwtimer_timersOk {fuel : Nat} {now : Nat → Clocks} {k : Kernel T} {r : TimerRound T}
    (ok : k.TimersOk) (ran : updateHwtimer fuel now k = .ok r) : r.kernel.TimersOk := by
  obtain ⟨first, q, d, looked, looped, rfl⟩ := updateHwtimer_loop ran
  have served := updateLoop_timersOk fuel (r := ⟨k, some first, 0, []⟩) ok ?_ looped
  · exact served
  · intro i c there
    obtain ⟨busy, root, _⟩ := nextTimer_ok looked there
    exact ⟨busy, root⟩

omit [DecidableEq T] in
theorem settime_disarmed {id : Int} {i : Nat} {k disarmed : Kernel T} (flags : Word)
    (at_ : timerAt id = .ok i) (disarm : disarmIfArmed id (k.timerArray i) k = .ok disarmed) :
    ∀ j, timerAt id = .ok j → ¬(((setAbstime i flags disarmed).timerArray j).inUse = true ∧
      ((setAbstime i flags disarmed).timerArray j).armed = true) := by
  intro j same both
  rw [at_] at same
  cases same
  have cleared := disarmIfArmed_armed at_ disarm
  rw [(setAbstime_same i i flags disarmed).2.1, cleared] at both
  cases both.2

theorem timerSettimeSys_timersOk {fuel : Nat} {now : Nat → Clocks} {id : Int} {flags : Word}
    {value o : Option Itimerspec} {k w : Kernel T} {v : Int} (ok : k.TimersOk)
    (fits : ∀ i, timerAt id = .ok i → RemovalOk k.timerArray k.timerHeap i)
    (ran : timerSettimeSys fuel now id flags value k = .ok (w, v, o)) : w.TimersOk := by
  rcases timerSettimeSys_cases ran with ⟨_, rfl⟩ | ⟨_, i, disarmed, at_, disarm, rest⟩
  · exact ok
  · have marked : (setAbstime i flags disarmed).TimersOk :=
      setAbstime_timersOk (disarmIfArmed_timersOk ok fits disarm)
    rcases rest with rfl | ⟨x, armed, _, r, _, _, arm, update, rfl⟩
    · exact marked
    · exact updateHwtimer_timersOk
        (armTimer_timersOk marked (settime_disarmed flags at_ disarm) arm) update

theorem sleepFor_timersOk {fuel : Nat} {now : Nat → Clocks} {d : Duration} {k w : Kernel T}
    (ok : k.TimersOk)
    (free : ∀ i, timerAt (k.sleepKtimer k.currentThread) = .ok i →
      ¬((k.timerArray i).inUse = true ∧ (k.timerArray i).armed = true))
    (ran : sleepFor fuel now d k = .ok w) : w.TimersOk := by
  simp only [sleepFor, bind, bind_ok, pure, Except.pure, Prod.exists] at ran
  obtain ⟨armed, _, arm, r, update, ran⟩ := ran
  cases ran
  have armedOk := armTimer_timersOk ok free arm
  obtain ⟨table, heap⟩ := suspendThread_timers k.currentThread armed
  apply updateHwtimer_timersOk _ update
  unfold Kernel.TimersOk
  rw [table, heap]
  exact armedOk

omit [DecidableEq T] in
theorem allocKtimer_timersOk {k : Kernel T} (ok : k.TimersOk) (clockid : Clockid) (thread : T)
    (act : TimerAction) :
    TimersOk (allocKtimer clockid thread act k.timerArray).1 k.timerHeap := by
  unfold allocKtimer freeTimer
  cases found : (List.range maxTimers).find? (fun i => !(k.timerArray i).inUse) with
  | none => exact ok
  | some i =>
    have inside : i < maxTimers := by simpa using List.mem_of_find?_eq_some found
    have unused : (k.timerArray i).inUse = false := by simpa using List.find?_some found
    have off := ok.open inside (by simp [unused])
    have taken : ¬((i : Int) = -1) := by omega
    simp only [taken, if_false, Int.toNat_natCast]
    apply (off.set _).close
    have apart : timerInUse &&& timerArmed = 0#32 := by decide
    simp [Ktimer.armed, apart]

section
omit [DecidableEq T]

theorem TimersOk.remove_inside {timers : Nat → Ktimer T} {h : TimerHeap} (ok : TimersOk timers h)
    (i : Nat) : Inside (heapRemoveElement timers h i) := by
  have room := ok.room
  exact inside_ok (heapRemoveElement_returns timers i ok.filled (by unfold heapMaxNelem; omega))

theorem OffHeap.insert_inside {timers : Nat → Ktimer T} {h : TimerHeap} {i : Nat}
    (off : OffHeap i timers h) (below : i < maxTimers) : Inside (heapInsert timers h i) := by
  have room := off.room below
  exact inside_ok (heapInsert_returns timers i off.filled (by unfold heapMaxNelem; omega))

theorem readClock_inside (now : Clocks) (k : Kernel T) (x : Ktimer T) : Inside (readClock now k x) := by
  unfold readClock
  split
  · nofun
  · nofun
  · split <;> nofun

theorem freeKtimer_inside {id : Int} {k : Kernel T} (ok : k.TimersOk) : Inside (freeKtimer id k) := by
  refine (timerAt_inside id).bind fun i _ => ?_
  exact (ok.remove_inside i).bind fun r _ => nofun

theorem disarmTimer_inside {id : Int} {k : Kernel T} (ok : k.TimersOk) :
    Inside (disarmTimer id k) := by
  refine (timerAt_inside id).bind fun i _ => ?_
  exact (ok.remove_inside i).bind fun r _ => nofun

theorem disarmIfArmed_inside {id : Int} {x : Ktimer T} {k : Kernel T} (ok : k.TimersOk) :
    Inside (disarmIfArmed id x k) := by
  unfold disarmIfArmed
  split
  · exact disarmTimer_inside ok
  · nofun

theorem armTimer_inside {now : Clocks} {id : Int} {value interval : Duration} {k : Kernel T}
    (ok : k.TimersOk)
    (free : ∀ i, timerAt id = .ok i → ¬((k.timerArray i).inUse = true ∧ (k.timerArray i).armed = true)) :
    Inside (armTimer now id value interval k) := by
  refine (timerAt_inside id).bind fun i at_ => ?_
  have below := timerAt_ok at_
  simp only
  split
  · nofun
  · refine Inside.bind ?_ fun expiry _ => ?_
    · unfold expiryTime
      split
      · exact (readClock_inside now k _).bind fun c _ => nofun
      · nofun
    · exact (((ok.open below (free i at_)).set _).insert_inside below).bind fun r _ => nofun

end

theorem timerAct_inside {x : Ktimer T} {k : Kernel T} : Inside (timerAct x k) := by
  unfold timerAct
  split <;> nofun

omit [DecidableEq T] in
theorem rearmTimer_inside {ctime : Duration} {i : Nat} {k : Kernel T} (below : i < maxTimers)
    (off : OffHeap i k.timerArray k.timerHeap) : Inside (rearmTimer ctime i k) := by
  refine Inside.bind ?_ fun again _ => ?_
  · unfold repeats
    split
    · split <;> nofun
    · nofun
  · split
    · exact ((off.set _).insert_inside below).bind fun r _ => nofun
    · nofun

theorem serveTimer_inside {ctime : Duration} {i : Nat} {k : Kernel T} (ok : k.TimersOk)
    (busy : 0 < k.timerHeap.nelem) (root : k.timerHeap.array 1 = some i) :
    Inside (serveTimer ctime i k) := by
  have room := ok.room
  refine timerAct_inside.bind fun r acted => ?_
  obtain ⟨table, heap⟩ := timerAct_timers acted
  simp only
  rw [table, heap]
  refine Inside.bind ?_ fun q removed => ?_
  · exact inside_ok (heapRemoveMin_returns _ ok.filled (by unfold heapMaxNelem; omega) busy)
  · obtain ⟨j, below, here⟩ := ok.filled 1 (le_refl 1) busy
    rw [root] at here
    cases here
    have off := ok.removeMin busy root removed
    exact Inside.bind (rearmTimer_inside below off) fun _ _ => nofun

omit [DecidableEq T] in
theorem nextTimer_inside {now : Clocks} {k : Kernel T} : Inside (nextTimer now k) := by
  refine Inside.bind ?_ fun top _ => ?_
  · unfold heapMin
    split
    · exact inside_ok ⟨_, get_inside (by decide)⟩
    · nofun
  · split
    · exact (readClock_inside now k _).bind fun _ _ => nofun
    · nofun

theorem updateLoop_inside (fuel : Nat) {now : Nat → Clocks} {r : TimerRound T} (ok : r.kernel.TimersOk)
    (top : ∀ i c, r.top = some (i, c) → 0 < r.kernel.timerHeap.nelem ∧ r.kernel.timerHeap.array 1 = some i) :
    Inside (updateLoop fuel now r) := by
  induction fuel generalizing now r with
  | zero => nofun
  | succ fuel ih =>
    unfold updateLoop
    split
    · nofun
    · rename_i i ctime here
      split
      · obtain ⟨busy, root⟩ := top i ctime here
        refine (serveTimer_inside ok busy root).bind fun q served => ?_
        refine nextTimer_inside.bind fun next looked => ?_
        refine ih (serveTimer_timersOk ok busy root served) ?_
        intro j c there
        obtain ⟨busy', root', _⟩ := nextTimer_ok looked there
        exact ⟨busy', root'⟩
      · nofun

theorem updateHwtimer_inside {fuel : Nat} {now : Nat → Clocks} {k : Kernel T} (ok : k.TimersOk) :
    Inside (updateHwtimer fuel now k) := by
  refine nextTimer_inside.bind fun top looked => ?_
  cases top with
  | none => nofun
  | some first =>
    refine Inside.bind ?_ fun q _ => ?_
    · apply updateLoop_inside fuel (r := ⟨k, some first, 0, []⟩) ok
      intro i c there
      obtain ⟨busy, root, _⟩ := nextTimer_ok looked there
      exact ⟨busy, root⟩
    · split <;> nofun

theorem timerSettimeSys_inside {fuel : Nat} {now : Nat → Clocks} {id : Int} {flags : Word}
    {value : Option Itimerspec} {k : Kernel T} (ok : k.TimersOk)
    (fits : ∀ i, timerAt id = .ok i → RemovalOk k.timerArray k.timerHeap i) :
    Inside (timerSettimeSys fuel now id flags value k) := by
  refine Inside.bind ?_ fun unused _ => ?_
  · unfold timerUnused
    split
    · nofun
    · exact (timerAt_inside id).bind fun _ _ => nofun
  · split
    · nofun
    · refine (timerAt_inside id).bind fun i at_ => ?_
      refine (disarmIfArmed_inside ok).bind fun disarmed disarm => ?_
      have marked : (setAbstime i flags disarmed).TimersOk :=
        setAbstime_timersOk (disarmIfArmed_timersOk ok fits disarm)
      have free := settime_disarmed flags at_ disarm
      cases value with
      | none => nofun
      | some v =>
        simp only
        split
        · nofun
        · refine (armTimer_inside marked free).bind fun r arm => ?_
          exact (updateHwtimer_inside (armTimer_timersOk marked free arm)).bind fun _ _ => nofun

theorem sleepFor_inside {fuel : Nat} {now : Nat → Clocks} {d : Duration} {k : Kernel T}
    (ok : k.TimersOk)
    (free : ∀ i, timerAt (k.sleepKtimer k.currentThread) = .ok i →
      ¬((k.timerArray i).inUse = true ∧ (k.timerArray i).armed = true)) :
    Inside (sleepFor fuel now d k) := by
  refine (armTimer_inside ok free).bind fun r arm => ?_
  have armedOk := armTimer_timersOk ok free arm
  obtain ⟨table, heap⟩ := suspendThread_timers k.currentThread r.1
  have asleep : (suspendThread k.currentThread r.1).TimersOk := by
    unfold Kernel.TimersOk
    rw [table, heap]
    exact armedOk
  exact (updateHwtimer_inside asleep).bind fun _ _ => nofun

/-- The functions that use the timer table. `other` is whatever else happens in
    the kernel, such as the activation of a thread that sleeps. -/
inductive TimerOp (T : Type) where
  | alloc (clockid : Clockid) (thread : T) (act : TimerAction)
  | free (id : Int)
  | arm (now : Clocks) (id : Int) (value interval : Duration)
  | disarm (id : Int)
  | settime (fuel : Nat) (now : Nat → Clocks) (id : Int) (flags : Word) (value : Option Itimerspec)
  | update (fuel : Nat) (now : Nat → Clocks)
  | sleep (fuel : Nat) (now : Nat → Clocks) (d : Duration)
  | other (w : Kernel T)

def TimerOp.run (k : Kernel T) : TimerOp T → Except Fault (Kernel T)
  | .alloc clockid thread act =>
    .ok { k with timerArray := (allocKtimer clockid thread act k.timerArray).1 }
  | .free id => freeKtimer id k
  | .arm now id value interval => do return (← armTimer now id value interval k).1
  | .disarm id => disarmTimer id k
  | .settime fuel now id flags value => do return (← timerSettimeSys fuel now id flags value k).1
  | .update fuel now => do return (← updateHwtimer fuel now k).kernel
  | .sleep fuel now d => sleepFor fuel now d k
  | .other w => .ok { w with timerArray := k.timerArray, timerHeap := k.timerHeap }

def Disarmed (k : Kernel T) (id : Int) : Prop :=
  ∀ i, timerAt id = .ok i → ¬((k.timerArray i).inUse = true ∧ (k.timerArray i).armed = true)

def Removable (k : Kernel T) (id : Int) : Prop :=
  ∀ i, timerAt id = .ok i → RemovalOk k.timerArray k.timerHeap i

def TimerOp.Clean (k : Kernel T) : TimerOp T → Prop
  | .arm _ id _ _ => Disarmed k id
  | .sleep _ _ _ => Disarmed k (k.sleepKtimer k.currentThread)
  | .free id | .disarm id | .settime _ _ id _ _ => Removable k id
  | .alloc _ _ _ | .update _ _ | .other _ => True

def TimerOp.step (k : Kernel T) (op : TimerOp T) : Option (Kernel T × List Unit) :=
  match op.run k with
  | .ok w => some (w, [])
  | .error _ => none

theorem TimerOp.run_timersOk {k w : Kernel T} {op : TimerOp T} (ok : k.TimersOk)
    (clean : op.Clean k) (ran : op.run k = .ok w) : w.TimersOk := by
  cases op with
  | alloc clockid thread act =>
    cases ran
    exact allocKtimer_timersOk ok clockid thread act
  | free id => exact freeKtimer_timersOk ok clean ran
  | arm now id value interval =>
    simp only [TimerOp.run, bind, bind_ok, pure, Except.pure, Except.ok.injEq, Prod.exists] at ran
    obtain ⟨x, v, armed, rfl⟩ := ran
    exact armTimer_timersOk ok clean armed
  | disarm id => exact disarmTimer_timersOk ok clean ran
  | settime fuel now id flags value =>
    simp only [TimerOp.run, bind, bind_ok, pure, Except.pure, Except.ok.injEq, Prod.exists] at ran
    obtain ⟨x, v, o, set, rfl⟩ := ran
    exact timerSettimeSys_timersOk ok clean set
  | update fuel now =>
    simp only [TimerOp.run, bind, bind_ok, pure, Except.pure, Except.ok.injEq] at ran
    obtain ⟨r, updated, rfl⟩ := ran
    exact updateHwtimer_timersOk ok updated
  | sleep fuel now d => exact sleepFor_timersOk ok clean ran
  | other x =>
    cases ran
    exact ok

theorem TimerOp.run_inside {k : Kernel T} {op : TimerOp T} (ok : k.TimersOk) (clean : op.Clean k) :
    Inside (op.run k) := by
  cases op with
  | alloc clockid thread act => nofun
  | free id => exact freeKtimer_inside ok
  | arm now id value interval => exact (armTimer_inside ok clean).bind fun _ _ => nofun
  | disarm id => exact disarmTimer_inside ok
  | settime fuel now id flags value => exact (timerSettimeSys_inside ok clean).bind fun _ _ => nofun
  | update fuel now => exact (updateHwtimer_inside ok).bind fun _ _ => nofun
  | sleep fuel now d => exact sleepFor_inside ok clean
  | other x => nofun

omit [DecidableEq T] in
theorem timersOk_start {k : Kernel T} (unused : ∀ j, (k.timerArray j).flags = 0#32)
    (empty : k.timerHeap.nelem = 0) : k.TimersOk where
  filled i low high := by omega
  once i j lowI highI := by omega
  members j _ := by
    constructor
    · intro held
      obtain ⟨i, low, high, _⟩ := held
      omega
    · intro both
      simp [Ktimer.inUse, unused j] at both
  ordered i low high := by omega

/-- The invariant of the timer table, in every state of a run that starts with an
    unused table and in which no timer is armed while it is armed and no timer is
    removed whose place the last element of the heap does not fit. -/
theorem timer_table_kept (k w : Kernel T) (unused : ∀ j, (k.timerArray j).flags = 0#32)
    (empty : k.timerHeap.nelem = 0) (ops : List (TimerOp T)) (es : List Unit)
    (run : Lts.exec TimerOp.step k ops = some (w, es))
    (clean : Lts.Along TimerOp.step (fun k op => op.Clean k) k ops) :
    w.timerHeap.nelem ≤ maxTimers ∧
    (∀ i, 1 ≤ i → i ≤ w.timerHeap.nelem → ∃ j, j < maxTimers ∧ w.timerHeap.array i = some j) ∧
    Once w.timerHeap.array w.timerHeap.nelem ∧
    (∀ j, j < maxTimers → (Holds w.timerHeap.array w.timerHeap.nelem (some j) ↔
      (w.timerArray j).inUse = true ∧ (w.timerArray j).armed = true)) ∧
    Ordered (keyOf w.timerArray) w.timerHeap.array w.timerHeap.nelem ∧
    ∀ op : TimerOp T, op.Clean w → op.run w ≠ .error .heapIndex := by
  have ok : w.TimersOk := by
    apply Lts.exec_keeps (fun x => x.TimersOk) _ ops (timersOk_start unused empty) clean run
    intro x op y first inv allowed taken
    unfold TimerOp.step at taken
    split at taken
    · rename_i z ran
      cases taken
      exact TimerOp.run_timersOk inv allowed ran
    · cases taken
  exact ⟨ok.room, ok.filled, ok.once, ok.members, ok.ordered, fun op => TimerOp.run_inside ok⟩

theorem timer_table_kept_two :
    let k : Kernel (Fin 2) := bootKernel 0
    let ops : List (TimerOp (Fin 2)) := [.alloc .monotonic 0 .wakeup, .alloc .monotonic 1 .wakeup,
      .arm ⟨0, 0⟩ 0 100 0, .arm ⟨0, 0⟩ 1 50 0]
    ∃ w es, Lts.exec TimerOp.step k ops = some (w, es) ∧ w.timerHeap.nelem = 2 ∧
      w.timerHeap.array 1 = some 1 ∧ Ordered (keyOf w.timerArray) w.timerHeap.array w.timerHeap.nelem := by
  intro k ops
  have final : (Lts.exec TimerOp.step k ops).map
      (fun r => (r.1.timerHeap.nelem, r.1.timerHeap.array 1)) = some (2, some 1) := by decide +kernel
  obtain ⟨⟨w, es⟩, run, there⟩ := Option.map_eq_some_iff.mp final
  have clean : Lts.Along TimerOp.step (fun k op => op.Clean k) k ops := by
    refine ⟨trivial, fun a _ first => ⟨trivial, fun b _ second => ⟨?_, fun c _ third => ⟨?_, ?_⟩⟩⟩⟩
    · cases first
      cases second
      intro i same both
      cases same
      revert both
      decide
    · have computed : (((TimerOp.step k (.alloc .monotonic 0 .wakeup)).bind fun r =>
          TimerOp.step r.1 (.alloc .monotonic 1 .wakeup)).bind fun r =>
          TimerOp.step r.1 (.arm ⟨0, 0⟩ 0 100 0)).map (fun r => (r.1.timerArray 1).armed) =
          some false := by decide +kernel
      rw [first, Option.bind_some, second, Option.bind_some, third] at computed
      have off : (c.timerArray 1).armed = false := Option.some.inj computed
      intro i same both
      cases same
      have on : (c.timerArray 1).armed = true := both.2
      rw [off] at on
      cases on
    · intro _ _ _
      trivial
  have kept := timer_table_kept k w (fun _ => rfl) rfl ops es run clean
  simp only [Prod.mk.injEq] at there
  exact ⟨w, es, run, there.1, there.2, kept.2.2.2.2.1⟩

theorem timer_table_broken :
    let k : Kernel (Fin 2) := bootKernel 0
    let still : Nat → Clocks := fun _ => ⟨0, 0⟩
    ∃ w es, Lts.exec TimerOp.step k [.alloc .monotonic 0 .wakeup, .sleep 1 still 1000, .other k,
        .sleep 1 still 1000] = some (w, es) ∧
      ¬Once w.timerHeap.array w.timerHeap.nelem := by
  intro k still
  have final : (Lts.exec TimerOp.step k [.alloc .monotonic 0 .wakeup, .sleep 1 still 1000, .other k,
      .sleep 1 still 1000]).map
      (fun r => (r.1.timerHeap.nelem, r.1.timerHeap.array 1, r.1.timerHeap.array 2)) =
      some (2, some 0, some 0) := by decide +kernel
  obtain ⟨⟨w, es⟩, run, there⟩ := Option.map_eq_some_iff.mp final
  simp only [Prod.mk.injEq] at there
  obtain ⟨size, first, second⟩ := there
  refine ⟨w, es, run, fun once => ?_⟩
  have meet := once 1 2 (by omega) (by omega) (by omega) (by omega) (by rw [first, second])
  omega

end L4ertl
