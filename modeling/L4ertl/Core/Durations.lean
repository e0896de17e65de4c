import L4ertl.Core.Sleeping
import L4ertl.Core.CpuTime

/-!
The conversions between timespecs and nanoseconds (time.c, rtl.c). Most multiply by
NSECS_PER_SEC, which makes the product one of 64 bits. usleep_sys multiplies in 32 bits,
and so does clock_gethrtime, by another constant.
-/
namespace L4ertl

def usleepNsecs (usec : Word) : Duration := (usec * 1000#32).setWidth 64

section
variable {T : Type} [DecidableEq T]

def usleepSys (fuel : Nat) (now : Nat → Clocks) (usec : Word) (k : Kernel T) : Except Fault (Kernel T) :=
  sleepFor fuel now (usleepNsecs usec) k

/-- NULL is `none`. The seconds lose their sign before they are multiplied. -/
def pthreadSetperiodNpSys (thread : Option T) (value : Timespec) (k : Kernel T) : Kernel T × Int :=
  match thread with
  | none => (setErrno esrch k, -1)
  | some t =>
    if k.magicNumber t ≠ pthreadMagicNumber then (setErrno esrch k, -1)
    else if value.tvSec.toInt < 0 ∨ value.tvNsec.toInt < 0 then (setErrno einval k, -1)
    else
      let period := value.tvSec.setWidth 64 * nsecsPerSec + value.tvNsec.signExtend 64
      ({ k with schedParam := Function.update k.schedParam t { k.schedParam t with period := period } }, 0)

/-- `wanted` says whether there is a place for the period, the last component what is
    stored there. -/
def pthreadGetperiodNpSys (thread : Option T) (wanted : Bool) (k : Kernel T) :
    Kernel T × Int × Option Duration :=
  match thread with
  | none => (setErrno esrch k, -1, none)
  | some t =>
    if k.magicNumber t ≠ pthreadMagicNumber then (setErrno esrch k, -1, none)
    else if wanted then (k, 0, some (k.schedParam t).period)
    else (setErrno einval k, -1, none)

/-- start_time is not used. -/
def pthreadMakePeriodicNp (p : Option T) (period : Duration) (k : Kernel T) : Kernel T × Int :=
  pthreadSetperiodNpSys p (timespecOf period) k

/-- An int and a long in 32 bits, and what is returned has 64. -/
def hrtimeOf (res : Timespec) : Duration := (res.tvSec * 60000000#32 + res.tvNsec).signExtend 64

def clockGethrtime (clockId : Int) (now : Clocks) (k : Kernel T) : Kernel T × Duration :=
  match clockGettimeSys clockId true now k with
  | (k, r, res) => if r < 0 then (k, 0) else (k, res.elim 0 hrtimeOf)

end

structure Timespec.Proper (x : Timespec) : Prop where
  sec : x.tvSec.toNat < 2 ^ 31
  nsec : x.tvNsec.toNat < 1000000000

def Timespec.exactly (x : Timespec) : Nat := x.tvSec.toNat * 1000000000 + x.tvNsec.toNat

theorem signExtend_small {x : Word} (small : x.toNat < 2 ^ 31) : (x.signExtend 64 : Duration) = x.setWidth 64 := by
  apply BitVec.signExtend_eq_setWidth_of_msb_false
  rw [BitVec.msb_eq_decide, decide_eq_false_iff_not]
  omega

theorem Timespec.Proper.product {x : Timespec} (proper : x.Proper) :
    (x.tvSec.setWidth 64 * nsecsPerSec + x.tvNsec.setWidth 64 : Duration).toNat = x.exactly := by
  have sec := proper.sec
  have nsec := proper.nsec
  have one : nsecsPerSec.toNat = 1000000000 := by decide
  rw [BitVec.toNat_add, BitVec.toNat_mul, BitVec.toNat_setWidth, BitVec.toNat_setWidth, one, exactly]
  omega

theorem Timespec.Proper.nsecs {x : Timespec} (proper : x.Proper) : x.nsecs.toNat = x.exactly := by
  have nsec := proper.nsec
  rw [Timespec.nsecs, signExtend_small proper.sec, signExtend_small (by omega)]
  exact proper.product

theorem usleepNsecs_exact_iff (usec : Word) :
    (usleepNsecs usec).toNat = usec.toNat * 1000 ↔ usec.toNat ≤ 4294967 := by
  rw [usleepNsecs, usleep_wraps]
  omega

theorem hrtimeOf_toNat (x : Timespec) :
    (hrtimeOf x).toNat =
      if (x.tvSec.toNat * 60000000 + x.tvNsec.toNat) % 2 ^ 32 < 2 ^ 31 then
        (x.tvSec.toNat * 60000000 + x.tvNsec.toNat) % 2 ^ 32
      else (x.tvSec.toNat * 60000000 + x.tvNsec.toNat) % 2 ^ 32 + (2 ^ 64 - 2 ^ 32) := by
  have sum : (x.tvSec * 60000000#32 + x.tvNsec).toNat =
      (x.tvSec.toNat * 60000000 + x.tvNsec.toNat) % 2 ^ 32 := by
    rw [BitVec.toNat_add, BitVec.toNat_mul]
    exact Nat.mod_add_mod _ _ _
  rw [hrtimeOf, BitVec.toNat_signExtend, BitVec.toNat_setWidth, BitVec.msb_eq_decide, sum]
  split <;> rename_i sign <;> simp only [decide_eq_true_eq] at sign <;> split <;> omega

theorem short_product {s n : Nat} (some_ : s ≠ 0) (less : n < 1000000000)
    (fits : (s * 60000000 + n) % 2 ^ 32 < 2 ^ 31) :
    (s * 60000000 + n) % 2 ^ 32 ≠ 1000000000 * s + n := by
  intro same
  rw [same] at fits
  have early : s ≤ 2 := by
    clear same
    omega
  rw [Nat.mod_eq_of_lt (by clear same; omega)] at same
  omega

theorem hrtimeOf_exact_iff {d : Duration} (range : d.toNat / 1000000000 < 2 ^ 31) :
    hrtimeOf (timespecOf d) = d ↔ d.toNat < 1000000000 := by
  obtain ⟨sec, nsec⟩ := timespecOf_fields d
  rw [Nat.mod_eq_of_lt (range.trans (by decide))] at sec
  rw [← BitVec.toNat_inj, hrtimeOf_toNat, sec, nsec]
  have whole := Nat.div_add_mod d.toNat 1000000000
  have less : d.toNat % 1000000000 < 1000000000 := Nat.mod_lt _ (by decide)
  by_cases none : d.toNat / 1000000000 = 0
  · have small : d.toNat < 1000000000 := by omega
    rw [none, Nat.mod_eq_of_lt small, Nat.zero_mul, Nat.zero_add, Nat.mod_eq_of_lt (small.trans (by decide)),
      if_pos (small.trans (by decide))]
    exact iff_of_true rfl small
  · refine iff_of_false ?_ (by omega)
    split
    · rename_i fits
      have short := short_product none less fits
      rw [whole] at short
      exact short
    · -- sign extension has made it larger than what a timespec can hold
      rename_i negative
      have high : d.toNat < 2 ^ 62 := by omega
      generalize (d.toNat / 1000000000 * 60000000 + d.toNat % 1000000000) % 2 ^ 32 = p at *
      omega

section
variable {T : Type} [DecidableEq T]

theorem clockGethrtime_known {clockId : Int} {clock : Clockid} (known : clockOf clockId = some clock)
    (now : Clocks) (k : Kernel T) :
    clockGethrtime clockId now k = (k, hrtimeOf (timespecOf (clockTime now k clock))) := by
  simp [clockGethrtime, clockGettimeSys, known]

theorem pthreadSetperiodNpSys_cases {k : Kernel T} {t : T} (magic : k.magicNumber t = pthreadMagicNumber)
    {value : Timespec} (nsec : value.tvNsec.toNat < 1000000000) :
    (2 ^ 31 ≤ value.tvSec.toNat ∧ pthreadSetperiodNpSys (some t) value k = (setErrno einval k, -1)) ∨
    (value.tvSec.toNat < 2 ^ 31 ∧ ∃ period : Duration, period.toNat = value.exactly ∧
      pthreadSetperiodNpSys (some t) value k = ({ k with
        schedParam := Function.update k.schedParam t { k.schedParam t with period := period } }, 0)) := by
  have sign : ∀ x : Word, x.toInt < 0 ↔ 2 ^ 31 ≤ x.toNat := by
    intro x
    rw [BitVec.toInt_eq_toNat_cond]
    split <;> omega
  have whole : ¬ 2 ^ 31 ≤ value.tvNsec.toNat := by omega
  simp only [pthreadSetperiodNpSys, magic, ne_eq, not_true_eq_false, if_false, sign, whole, or_false]
  by_cases negative : 2 ^ 31 ≤ value.tvSec.toNat
  · rw [if_pos negative]
    exact Or.inl ⟨negative, rfl⟩
  · rw [if_neg negative]
    have proper : value.Proper := ⟨by omega, nsec⟩
    refine Or.inr ⟨by omega, _, ?_, rfl⟩
    rw [signExtend_small (by omega)]
    exact proper.product

theorem period_kept_iff {k : Kernel T} {t : T} (magic : k.magicNumber t = pthreadMagicNumber)
    (period : Duration) :
    ((pthreadMakePeriodicNp (some t) period k).2 = 0 ∧
      (pthreadGetperiodNpSys (some t) true (pthreadMakePeriodicNp (some t) period k).1).2 = (0, some period)) ↔
      period.toNat / 1000000000 < 2 ^ 31 := by
  obtain ⟨sec, nsec⟩ := timespecOf_fields period
  have less : (timespecOf period).tvNsec.toNat < 1000000000 := by
    rw [nsec]
    exact Nat.mod_lt _ (by decide)
  rw [pthreadMakePeriodicNp]
  rcases pthreadSetperiodNpSys_cases magic less with ⟨negative, refused⟩ | ⟨small, set, value, stored⟩
  · rw [refused]
    rw [sec] at negative
    refine iff_of_false (fun both => absurd (show (-1 : Int) = 0 from both.1) (by decide)) ?_
    omega
  · rw [stored]
    rw [Timespec.exactly, sec, nsec] at value
    rw [sec] at small
    simp only [pthreadGetperiodNpSys, magic, ne_eq, not_true_eq_false, if_false, if_true, Function.update_self,
      Prod.mk.injEq, true_and, Option.some.injEq, ← BitVec.toNat_inj, value]
    omega

theorem settime_arms {fuel : Nat} {now : Nat → Clocks} {id : Int} {flags : Word} {value : Itimerspec}
    {k w : Kernel T} {v : Int} {o : Option Itimerspec} (test : timerUnused id k = .ok false)
    (some_ : value.itValue.tvSec ||| value.itValue.tvNsec ≠ 0#32)
    (ran : timerSettimeSys fuel now id flags (some value) k = .ok (w, v, o)) :
    ∃ x armed e r, armTimer (now 0) id value.itValue.nsecs value.itInterval.nsecs x = .ok (armed, e) ∧
      updateHwtimer fuel (fun n => now (n + 1)) armed = .ok r ∧ w = r.kernel := by
  simp only [timerSettimeSys, bind, bind_ok, pure, Except.pure, some_, if_false] at ran
  obtain ⟨unused, same, ran⟩ := ran
  rw [test] at same
  cases same
  simp only [Bool.false_eq_true, if_false, bind_ok, Prod.exists] at ran
  obtain ⟨i, _, disarmed, _, armed, e, arm, r, update, ran⟩ := ran
  cases ran
  exact ⟨_, armed, e, r, arm, update, rfl⟩

structure DurationsExact (fuel : Nat) (now : Nat → Clocks) (k : Kernel T) (req : Timespec) (usec : Word)
    (value : Itimerspec) (t : T) (period : Duration) (clockId : Int) (c : Clocks) (d : Duration) : Prop where
  nanosleep : nanosleepSys fuel now req k = sleepFor fuel now req.nsecs k ∧ req.nsecs.toNat = req.exactly
  usleep : usleepSys fuel now usec k = sleepFor fuel now (usleepNsecs usec) k ∧
    (usleepNsecs usec).toNat = usec.toNat * 1000
  settime : ∀ id flags w v o, timerUnused id k = .ok false →
    value.itValue.tvSec ||| value.itValue.tvNsec ≠ 0#32 →
    timerSettimeSys fuel now id flags (some value) k = .ok (w, v, o) →
    ∃ (a b : Duration) (x armed : Kernel T) (e : Int) (r : TimerRound T),
      a.toNat = value.itValue.exactly ∧ b.toNat = value.itInterval.exactly ∧
      armTimer (now 0) id a b x = .ok (armed, e) ∧
      updateHwtimer fuel (fun n => now (n + 1)) armed = .ok r ∧ w = r.kernel
  period : (pthreadMakePeriodicNp (some t) period k).2 = 0 ∧
    (pthreadGetperiodNpSys (some t) true (pthreadMakePeriodicNp (some t) period k).1).2 = (0, some period)
  hrtime : (clockGethrtime clockId c k).2 = d

/-- Durations are right up to 4.29 s in usleep_sys and up to one second in
    clock_gethrtime, and otherwise for all that a timespec can hold. -/
theorem durations_exact_iff (fuel : Nat) (now : Nat → Clocks) (k : Kernel T) (req : Timespec) (usec : Word)
    (value : Itimerspec) (t : T) (period : Duration) (clockId : Int) (clock : Clockid) (c : Clocks)
    (request : req.Proper) (time : value.itValue.Proper) (interval : value.itInterval.Proper)
    (magic : k.magicNumber t = pthreadMagicNumber) (known : clockOf clockId = some clock)
    (range : (clockTime c k clock).toNat / 1000000000 < 2 ^ 31) :
    DurationsExact fuel now k req usec value t period clockId c (clockTime c k clock) ↔
      usec.toNat ≤ 4294967 ∧ period.toNat / 1000000000 < 2 ^ 31 ∧
        (clockTime c k clock).toNat < 1000000000 := by
  constructor
  · intro exact_
    have reading := exact_.hrtime
    rw [clockGethrtime_known known] at reading
    exact ⟨(usleepNsecs_exact_iff usec).mp exact_.usleep.2, (period_kept_iff magic period).mp exact_.period,
      (hrtimeOf_exact_iff range).mp reading⟩
  · rintro ⟨short, held, first⟩
    refine ⟨⟨rfl, request.nsecs⟩, ⟨rfl, (usleepNsecs_exact_iff usec).mpr short⟩, ?_,
      (period_kept_iff magic period).mpr held, ?_⟩
    · intro id flags w v o test some_ ran
      obtain ⟨x, armed, e, r, arm, update, last⟩ := settime_arms test some_ ran
      exact ⟨_, _, x, armed, e, r, time.nsecs, interval.nsecs, arm, update, last⟩
    · rw [clockGethrtime_known known]
      exact (hrtimeOf_exact_iff range).mpr first

end

theorem durations_exact_iff_seconds :
    DurationsExact 3 callClocks twoThreads ⟨4, 500⟩ 4000000#32 ⟨⟨1, 0⟩, ⟨2, 250⟩⟩ 1 5000000000 1
      ⟨999999999, 0⟩ 999999999 :=
  (durations_exact_iff 3 callClocks twoThreads ⟨4, 500⟩ 4000000#32 ⟨⟨1, 0⟩, ⟨2, 250⟩⟩ 1 5000000000 1
    .monotonic ⟨999999999, 0⟩ ⟨by decide, by decide⟩ ⟨by decide, by decide⟩ ⟨by decide, by decide⟩
    (by decide) rfl (by decide)).mpr ⟨by decide, by decide, by decide⟩

theorem durations_short :
    (usleepNsecs 5000000#32).toNat = 705032704 ∧
      ¬ DurationsExact 3 callClocks twoThreads ⟨4, 500⟩ 5000000#32 ⟨⟨1, 0⟩, ⟨2, 250⟩⟩ 1 5000000000 1
        ⟨999999999, 0⟩ 999999999 ∧
      clockGethrtime 1 ⟨2000000000, 0⟩ twoThreads = (twoThreads, 120000000) := by
  refine ⟨by decide, fun exact_ => ?_, rfl⟩
  exact absurd exact_.usleep.2 (by decide)

end L4ertl
