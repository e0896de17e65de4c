import L4ertl.Core.Expiry
import L4ertl.Core.TimerOwners
import L4ertl.Core.Sleeping

/-!
The old value of a timer (time.c). timer_settime_sys stores the time at which the timer
was to go off, and for a disarmed timer nothing; timer_gettime_sys stores the time that
is left, and zeros.
-/
namespace L4ertl

def Itimerspec.zero : Itimerspec := ⟨⟨0, 0⟩, ⟨0, 0⟩⟩

/-- timer_gettime_sys tests for the flag itself, timer_settime_sys for some bit of it. -/
theorem armed_flag (flags : Word) :
    (flags &&& timerArmed) = timerArmed ↔ (flags &&& timerArmed) ≠ 0#32 := by
  have power : timerArmed = BitVec.twoPow 32 9 := by decide
  rw [power, BitVec.and_twoPow]
  split
  · simp only [true_iff]
    decide
  · simp only [ne_eq, not_true_eq_false, iff_false]
    decide

theorem timespecOf_sub_eq_iff {v c : Duration} (before : c < v) :
    timespecOf v = timespecOf (v - c) ↔ c.toNat % timespecRange = 0 := by
  have left : (v - c).toNat = v.toNat - c.toNat := by bv_omega
  have order : c.toNat < v.toNat := before
  rw [timespecOf_eq_iff, left, timespecRange]
  omega

section
variable {T : Type} [DecidableEq T] {k w : Kernel T} {i : Nat}

omit [DecidableEq T] in
theorem timerUnused_inUse (inside : i < maxTimers) (used : (k.timerArray i).inUse = true) :
    timerUnused i k = .ok false := by
  rw [timerUnused_eq (by omega), Int.toNat_natCast, used]
  simp only [Bool.true_eq_false, or_false]
  rw [decide_eq_false (by omega)]

theorem settime_stores {fuel : Nat} {now : Nat → Clocks} {flags : Word} {value o : Option Itimerspec} {v : Int}
    (inside : i < maxTimers) (used : (k.timerArray i).inUse = true)
    (ran : timerSettimeSys fuel now i flags value k = .ok (w, v, o)) :
    o = if (k.timerArray i).armed then
        some ⟨timespecOf (k.timerArray i).timerInterval, timespecOf (k.timerArray i).timerValue⟩
      else none := by
  have flag : (k.timerArray i).flags &&& timerArmed ≠ 0#32 ↔ (k.timerArray i).armed = true := by
    rw [Ktimer.armed, bne_iff_ne]
  simp only [← flag]
  simp only [timerSettimeSys, timerUnused_inUse inside used, timerAt_index inside, bind, bind_ok, pure,
    Except.pure] at ran
  obtain ⟨unused, test, ran⟩ := ran
  cases test
  simp only [Bool.false_eq_true, if_false, bind_ok] at ran
  obtain ⟨j, at_, disarmed, _, ran⟩ := ran
  cases at_
  split at ran
  · cases ran
    rfl
  · split at ran
    · cases ran
      rfl
    · simp only [bind_ok, Prod.exists] at ran
      obtain ⟨_, _, _, r, _, ran⟩ := ran
      cases ran
      rfl

theorem gettime_stores {c : Clocks} {r : Int} {cur : Option Itimerspec}
    (inside : i < maxTimers) (used : (k.timerArray i).inUse = true)
    (got : timerGettimeSys c i true k = .ok (w, r, cur)) :
    if (k.timerArray i).armed then
      ∃ ctime, readClock c k (k.timerArray i) = .ok ctime ∧
        cur = some ⟨timespecOf (k.timerArray i).timerInterval,
          timespecOf ((k.timerArray i).timerValue - ctime)⟩
    else cur = some .zero := by
  have flag : (k.timerArray i).flags &&& timerArmed = timerArmed ↔ (k.timerArray i).armed = true := by
    rw [armed_flag, Ktimer.armed, bne_iff_ne]
  simp only [timerGettimeSys, timerUnused_inUse inside used, timerAt_index inside, bind, Except.bind,
    pure, Except.pure, if_true, Bool.false_eq_true, if_false, flag] at got
  split at got
  · rename_i armed
    rw [if_pos armed]
    cases read : readClock c k (k.timerArray i) with
    | error e =>
      rw [read] at got
      cases got
    | ok ctime =>
      rw [read] at got
      cases got
      exact ⟨ctime, rfl, rfl⟩
  · rename_i off
    rw [if_neg off]
    cases got
    rfl

/-- What timer_settime_sys leaves in `ovalue` is what timer_gettime_sys stores exactly
    where the clock of an armed timer stands at a multiple of what a timespec can
    hold, as it does at 0, or where `ovalue` held zeros before and the timer is
    disarmed. -/
theorem settime_reports_iff (fuel : Nat) (now : Nat → Clocks) (i : Nat) (flags : Word)
    (value o cur : Option Itimerspec) (c : Clocks) (k w x : Kernel T) (v r : Int)
    (inside : i < maxTimers) (used : (k.timerArray i).inUse = true)
    (pending : ∀ ctime, (k.timerArray i).armed = true → readClock c k (k.timerArray i) = .ok ctime →
      ctime < (k.timerArray i).timerValue)
    (got : timerGettimeSys c i true k = .ok (x, r, cur))
    (ran : timerSettimeSys fuel now i flags value k = .ok (w, v, o)) (before : Itimerspec) :
    some (o.getD before) = cur ↔
      if (k.timerArray i).armed then
        ∃ ctime, readClock c k (k.timerArray i) = .ok ctime ∧ ctime.toNat % timespecRange = 0
      else before = .zero := by
  have stored := settime_stores inside used ran
  have shown := gettime_stores inside used got
  cases armed : (k.timerArray i).armed with
  | false =>
    simp only [armed, Bool.false_eq_true, if_false] at stored shown ⊢
    rw [stored, shown, Option.getD_none, Option.some.injEq]
  | true =>
    simp only [armed, if_true] at stored shown ⊢
    obtain ⟨ctime, read, shown⟩ := shown
    rw [stored, shown, Option.getD_some, Option.some.injEq, Itimerspec.mk.injEq,
      timespecOf_sub_eq_iff (pending ctime armed read), read]
    simp only [true_and, Except.ok.injEq, exists_eq_left']

end

theorem settime_reports_iff_start :
    ∃ w o, timerSettimeSys 3 (fun _ => ⟨0, 0⟩) 0 0#32 none (armedTimer 2500) = .ok (w, 0, o) ∧
      timerGettimeSys ⟨0, 0⟩ 0 true (armedTimer 2500) =
        .ok (armedTimer 2500, 0, some (o.getD .zero)) := by
  have got : timerGettimeSys ⟨0, 0⟩ 0 true (armedTimer 2500) =
      .ok (armedTimer 2500, 0, some ⟨⟨0, 0⟩, ⟨0, 2500⟩⟩) := rfl
  have ran : ∃ w o, timerSettimeSys 3 (fun _ => ⟨0, 0⟩) 0 0#32 none (armedTimer 2500) = .ok (w, 0, o) :=
    ⟨_, _, rfl⟩
  obtain ⟨w, o, ran⟩ := ran
  have same := (settime_reports_iff 3 (fun _ => ⟨0, 0⟩) 0 0#32 none o _ ⟨0, 0⟩ (armedTimer 2500) w _ 0 0
    (by decide) (by decide) (fun ctime _ read => by cases read; decide) got ran .zero).mpr
    ⟨0, rfl, by decide⟩
  exact ⟨w, o, ran, got.trans (by rw [same])⟩

theorem settime_reports_expiry :
    (∃ w, timerSettimeSys 3 (fun _ => ⟨1000, 0⟩) 0 0#32 none (armedTimer 2500) =
        .ok (w, 0, some ⟨⟨0, 0⟩, ⟨0, 2500⟩⟩)) ∧
      timerGettimeSys ⟨1000, 0⟩ 0 true (armedTimer 2500) =
        .ok (armedTimer 2500, 0, some ⟨⟨0, 0⟩, ⟨0, 1500⟩⟩) ∧
      (∃ w, timerSettimeSys 3 (fun _ => ⟨1000, 0⟩) 0 0#32 none claimedTimer = .ok (w, 0, none)) ∧
      timerGettimeSys ⟨1000, 0⟩ 0 true claimedTimer = .ok (claimedTimer, 0, some .zero) :=
  ⟨⟨_, rfl⟩, rfl, ⟨_, rfl⟩, rfl⟩

end L4ertl
