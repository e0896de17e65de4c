import L4ertl.Core.Frame

/-!
What a sleep reports when the thread runs again (time.c). sleep_for takes a
duration and compares it with the clock itself, not with the time that has passed
since the call, so the rest it returns is right at small readings only.
-/
namespace L4ertl
variable {T : Type} [DecidableEq T]

def nanosleepSys (fuel : Nat) (now : Nat → Clocks) (req : Timespec) (k : Kernel T) :
    Except Fault (Kernel T) := sleepFor fuel now req.nsecs k

/-- What nanosleep_sys makes of the rest; the last component is what is stored through
    `rem`, when that is given. -/
def nanosleepResult (wanted : Bool) (rest : Duration) (k : Kernel T) :
    Kernel T × Int × Option Timespec :=
  if rest ≠ 0 then (setErrno eintr k, -1, if wanted then some (timespecOf rest) else none)
  else (k, 0, none)

def nanosleepDone (now : Clocks) (req : Timespec) (wanted : Bool) (k : Kernel T) :
    Except Fault (Kernel T × Int × Option Timespec) := do
  let rest ← sleepRest now req.nsecs k
  return nanosleepResult wanted rest k

def remaining (d t0 t1 : Duration) : Duration := if t1 - t0 < d then d - (t1 - t0) else 0

/-- A sleep of the thread `t`: the call, which arms its sleep timer on the monotonic
    clock, and the kernel `w` in which it runs again, with the timer still its own. -/
structure Slept (fuel : Nat) (now : Nat → Clocks) (d : Duration) (t : T) (k w : Kernel T) : Prop where
  caller : k.currentThread = t
  called : ∃ x, sleepFor fuel now d k = .ok x
  resumed : w.currentThread = t
  timer : w.sleepKtimer t = k.sleepKtimer t
  clock : ∀ i, timerAt (k.sleepKtimer t) = .ok i → (w.timerArray i).clock = .monotonic

def timespecRange : Nat := 2 ^ 32 * 1000000000

theorem rest_right_iff {d t0 t1 : Duration} (after : t0 ≤ t1) :
    (if t1 < d then d - t1 else 0) = remaining d t0 t1 ↔ t0 = 0 ∨ d ≤ t1 - t0 := by
  unfold remaining
  constructor
  · intro same
    split at same
    · split at same
      · bv_omega
      · bv_omega
    · split at same
      · bv_omega
      · bv_omega
  · intro either
    split
    · split
      · bv_omega
      · bv_omega
    · split
      · bv_omega
      · rfl

theorem timespecOf_fields (d : Duration) :
    (timespecOf d).tvSec.toNat = d.toNat / 1000000000 % 2 ^ 32 ∧
      (timespecOf d).tvNsec.toNat = d.toNat % 1000000000 := by
  constructor
  · simp [timespecOf, nsecsPerSec]
  · simp only [timespecOf, nsecsPerSec, BitVec.toNat_setWidth, BitVec.toNat_umod]
    have small : d.toNat % (1000000000 : BitVec 64).toNat < 2 ^ 32 := by
      have bound := Nat.mod_lt d.toNat (by decide : 0 < 1000000000)
      exact bound.trans (by decide)
    rw [Nat.mod_eq_of_lt small]
    rfl

theorem Timespec.ext_iff (x y : Timespec) :
    x = y ↔ x.tvSec.toNat = y.tvSec.toNat ∧ x.tvNsec.toNat = y.tvNsec.toNat := by
  obtain ⟨xs, xn⟩ := x
  obtain ⟨ys, yn⟩ := y
  simp only [Timespec.mk.injEq, BitVec.toNat_inj]

theorem timespecOf_eq_iff (a b : Duration) :
    timespecOf a = timespecOf b ↔ a.toNat % timespecRange = b.toNat % timespecRange := by
  rw [Timespec.ext_iff, (timespecOf_fields a).1, (timespecOf_fields a).2, (timespecOf_fields b).1,
    (timespecOf_fields b).2, timespecRange]
  omega

section
variable {fuel : Nat} {now : Nat → Clocks} {d : Duration} {t : T} {k w : Kernel T}

theorem Slept.timerAt (slept : Slept fuel now d t k w) :
    ∃ i, L4ertl.timerAt (k.sleepKtimer t) = .ok i := by
  obtain ⟨x, called⟩ := slept.called
  simp only [sleepFor, armTimer, slept.caller, bind, Except.bind] at called
  cases at_ : L4ertl.timerAt (k.sleepKtimer t) with
  | ok i => exact ⟨i, rfl⟩
  | error e =>
    rw [at_] at called
    cases called

theorem Slept.rest (slept : Slept fuel now d t k w) (later : Clocks) (d : Duration) :
    sleepRest later d w = .ok (if later.monotonic < d then d - later.monotonic else 0) := by
  obtain ⟨i, at_⟩ := slept.timerAt
  have clock := slept.clock i at_
  simp only [sleepRest, slept.resumed, slept.timer, at_, bind, Except.bind, readClock, clock]
  rfl

end

theorem nanosleepResult_eq_iff (wanted : Bool) (a b : Duration) (k : Kernel T) :
    nanosleepResult wanted a k = nanosleepResult wanted b k ↔
      (a = 0 ↔ b = 0) ∧ (a ≠ 0 → wanted = true → timespecOf a = timespecOf b) := by
  unfold nanosleepResult
  by_cases zeroA : a = 0#64
  · by_cases zeroB : b = 0#64
    · simp [zeroA, zeroB]
    · simp [zeroA, zeroB]
  · by_cases zeroB : b = 0#64
    · simp [zeroA, zeroB]
    · cases wanted <;> simp [zeroA, zeroB]

theorem nanosleep_right_iff {d t0 t1 : Duration} (after : t0 ≤ t1) (wanted : Bool) (k : Kernel T) :
    nanosleepResult wanted (if t1 < d then d - t1 else 0) k =
        nanosleepResult wanted (remaining d t0 t1) k ↔
      d ≤ t1 - t0 ∨ (t1 < d ∧ (wanted = true → t0.toNat % timespecRange = 0)) := by
  by_cases elapsed : d ≤ t1 - t0
  · have same := (rest_right_iff (d := d) after).mpr (Or.inr elapsed)
    rw [same]
    exact iff_of_true rfl (Or.inl elapsed)
  · have left : remaining d t0 t1 = d - (t1 - t0) := if_pos (by bv_omega)
    have some_ : d - (t1 - t0) ≠ 0#64 := by bv_omega
    rw [nanosleepResult_eq_iff, left]
    by_cases short : t1 < d
    · have some' : d - t1 ≠ 0#64 := by bv_omega
      have first : (d - t1).toNat = d.toNat - t1.toNat := by bv_omega
      have second : (d - (t1 - t0)).toNat = d.toNat - t1.toNat + t0.toNat := by bv_omega
      rw [if_pos short, timespecOf_eq_iff, first, second]
      have shift : ∀ a b : Nat, a % timespecRange = (a + b) % timespecRange ↔ b % timespecRange = 0 := by
        intro a b
        unfold timespecRange
        omega
      rw [shift]
      simp [some', some_, elapsed, short]
    · rw [if_neg short]
      simp [some_, elapsed, short]

theorem usleep_wraps (usec : Word) :
    ((usec * 1000#32).setWidth 64 : Duration).toNat = usec.toNat * 1000 % 2 ^ 32 := by
  have value : (usec * 1000#32).toNat = usec.toNat * 1000 % 2 ^ 32 := BitVec.toNat_mul usec 1000#32
  rw [BitVec.toNat_setWidth, value]
  omega

def usleepResult (rest : Bool) (k : Kernel T) : Kernel T × Progress :=
  if rest then (setErrno eintr k, .ret (-1)) else (k, .ret 0)

/-- A sleep reports what is left exactly if the clock read 0 at the call or the time has
    passed. nanosleep_sys can also be right where it stores nothing, and usleep_sys where
    it has slept too short a time for its 32 bits, but has not noticed. -/
theorem sleep_reports_iff (fuel : Nat) (now : Nat → Clocks) (d : Duration) (t : T) (k w : Kernel T)
    (slept : Slept fuel now d t k w) (later : Clocks)
    (after : (now 0).monotonic ≤ later.monotonic) :
    (sleepRest later d w = .ok (remaining d (now 0).monotonic later.monotonic) ↔
      (now 0).monotonic = 0 ∨ d ≤ later.monotonic - (now 0).monotonic) ∧
    (∀ req wanted, req.nsecs = d →
      (nanosleepDone later req wanted w =
          .ok (nanosleepResult wanted (remaining d (now 0).monotonic later.monotonic) w) ↔
        d ≤ later.monotonic - (now 0).monotonic ∨
          (later.monotonic < d ∧ (wanted = true → (now 0).monotonic.toNat % timespecRange = 0)))) ∧
    ∀ usec : Word, (usec * 1000#32).setWidth 64 = d →
      (usleepDone later d w = .ok (usleepResult
          (decide ((later.monotonic - (now 0).monotonic).toNat < usec.toNat * 1000)) w) ↔
        usec.toNat * 1000 ≤ (later.monotonic - (now 0).monotonic).toNat ∨ later.monotonic < d) := by
  refine ⟨?_, ?_, ?_⟩
  · rw [slept.rest, Except.ok.injEq]
    exact rest_right_iff after
  · intro req wanted same
    simp only [nanosleepDone, same, slept.rest, bind, Except.bind, pure, Except.pure, Except.ok.injEq]
    exact nanosleep_right_iff after wanted w
  · intro usec same
    have wraps := usleep_wraps usec
    rw [same] at wraps
    have order : (now 0).monotonic.toNat ≤ later.monotonic.toNat := after
    have passed : (later.monotonic - (now 0).monotonic).toNat =
        later.monotonic.toNat - (now 0).monotonic.toNat := by bv_omega
    have done : usleepDone later d w = .ok (usleepResult (decide (later.monotonic < d)) w) := by
      simp only [usleepDone, slept.rest, bind, Except.bind, pure, Except.pure, usleepResult]
      by_cases short : later.monotonic < d
      · have some_ : d - later.monotonic ≠ 0#64 := by bv_omega
        simp [short, some_]
      · simp [short]
    have apart : ∀ a b : Bool, usleepResult a w = usleepResult b w ↔ a = b := by
      intro a b
      cases a <;> cases b <;> simp [usleepResult]
    rw [done, Except.ok.injEq, apart, decide_eq_decide, BitVec.lt_def]
    omega

def wokenEarly (x : Kernel (Fin 2)) : Kernel (Fin 2) :=
  scheduling 0 (pthreadKillSys 1 9 (scheduling 0 x)).1

def callClocks : Nat → Clocks := fun _ => ⟨1000, 0⟩

theorem wokenEarly_view (d : Duration)
    (seen : (sleepFor 3 callClocks d twoThreads).toOption.map (fun x =>
      ((wokenEarly x).currentThread, (wokenEarly x).sleepKtimer 1,
        ((wokenEarly x).timerArray 1).clock)) = some (1, 1, .monotonic)) :
    ∃ x, sleepFor 3 callClocks d twoThreads = .ok x ∧ (wokenEarly x).currentThread = 1 ∧
      (wokenEarly x).sleepKtimer 1 = 1 ∧ ((wokenEarly x).timerArray 1).clock = .monotonic := by
  cases called : sleepFor 3 callClocks d twoThreads with
  | error e =>
    rw [called] at seen
    cases seen
  | ok x =>
    rw [called] at seen
    simp only [Except.toOption, Option.map_some, Option.some.injEq, Prod.mk.injEq] at seen
    exact ⟨x, rfl, seen⟩

theorem wokenEarly_slept (d : Duration) {x : Kernel (Fin 2)}
    (called : sleepFor 3 callClocks d twoThreads = .ok x)
    (view : (wokenEarly x).currentThread = 1 ∧ (wokenEarly x).sleepKtimer 1 = 1 ∧
      ((wokenEarly x).timerArray 1).clock = .monotonic) :
    Slept 3 callClocks d 1 twoThreads (wokenEarly x) := by
  have timer : twoThreads.sleepKtimer 1 = 1 := by decide
  refine ⟨by decide, ⟨x, called⟩, view.1, view.2.1.trans timer.symm, fun i at_ => ?_⟩
  rw [timer] at at_
  cases at_
  exact view.2.2

theorem sleep_reports_iff_ten :
    ∃ x, sleepFor 3 callClocks 10 twoThreads = .ok x ∧
      sleepRest ⟨1010, 0⟩ 10 (wokenEarly x) = .ok (remaining 10 1000 1010) := by
  obtain ⟨x, called, view⟩ := wokenEarly_view 10 (by decide +kernel)
  have slept := wokenEarly_slept 10 called view
  have reports := sleep_reports_iff 3 callClocks 10 1 twoThreads (wokenEarly x) slept ⟨1010, 0⟩
    (by decide)
  exact ⟨x, called, reports.1.mpr (Or.inr (by decide))⟩

theorem sleep_reports_nothing :
    ∃ x, sleepFor 3 callClocks 10 twoThreads = .ok x ∧
      Slept 3 callClocks 10 1 twoThreads (wokenEarly x) ∧
      sleepRest ⟨1001, 0⟩ 10 (wokenEarly x) = .ok 0 ∧ remaining 10 1000 1001 = 9 ∧
      nanosleepDone ⟨1001, 0⟩ ⟨0, 10⟩ true (wokenEarly x) = .ok (wokenEarly x, 0, none) := by
  obtain ⟨x, called, view⟩ := wokenEarly_view 10 (by decide +kernel)
  have slept := wokenEarly_slept 10 called view
  have rest := slept.rest ⟨1001, 0⟩ 10
  refine ⟨x, called, slept, rest, by decide, ?_⟩
  have nsecs : (⟨0, 10⟩ : Timespec).nsecs = 10 := by decide
  simp only [nanosleepDone, nsecs, rest, bind, Except.bind, pure, Except.pure]
  rfl

end L4ertl
