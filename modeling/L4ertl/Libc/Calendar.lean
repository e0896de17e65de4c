import L4ertl.Lib.Gregorian
import Mathlib.Algebra.Group.Int.Defs
import Mathlib.Algebra.Group.Nat.Defs
import Mathlib.Data.List.Basic

/-!
Broken-down time (time.c of ulibc, whose mktime the kernel's libc has as well). In the
range of time_t no operation on an int overflows. Division is that of C, towards zero.
-/
namespace L4ertl
open Gregorian

structure Tm where
  sec : Int
  min : Int
  hour : Int
  mday : Int
  mon : Int
  year : Int
  wday : Int
  yday : Int
  isdst : Int
  deriving DecidableEq, Repr

def secsPerMin : Int := 60
def secsPerHour : Int := 3600
def secsPerDay : Int := 86400
def daysPerNyear : Int := 365
def tmYearBase : Int := 1900
def epochYear : Int := 1970
def epochWday : Int := 4
def epochLeap : Int := 1968
def baseToEpochYear : Int := epochYear - tmYearBase

def isleap (y : Int) : Prop := y.tmod 4 = 0 ∧ (y.tmod 100 ≠ 0 ∨ y.tmod 400 = 0)

instance (y : Int) : Decidable (isleap y) := inferInstanceAs (Decidable (_ ∧ _))

def leapYearsFromEpoch (y : Int) : Int := (y - epochLeap - 1).tdiv 4

def daysToMonth : List Int := [0, 31, 59, 90, 120, 151, 181, 212, 243, 273, 304, 334, 365]
def daysToMonthLeap : List Int := [0, 31, 60, 91, 121, 152, 182, 213, 244, 274, 305, 335, 366]

def monthTable (y : Int) : List Int := if isleap y then daysToMonthLeap else daysToMonth

/-- A load from a table; `none` outside it. -/
def entryAt (table : List Int) (i : Int) : Option Int := if i < 0 then none else table[i.toNat]?

def mktime (timeptr : Tm) : Option Int := do
  let days := 365 * (timeptr.year - baseToEpochYear)
  let days := days + leapYearsFromEpoch (timeptr.year + tmYearBase)
  let before ← entryAt (monthTable (timeptr.year + tmYearBase)) timeptr.mon
  let days := days + before
  let days := days + (timeptr.mday - 1)
  return days * secsPerDay + timeptr.hour * secsPerHour + timeptr.min * secsPerMin + timeptr.sec

/-- The loop over `m`; `none` where it leaves the table. -/
def monthAfter (table : List Int) (mday : Int) : Option Nat := table.findIdx? fun e => ¬e ≤ mday

def localtimeR (timep : Int) : Option Tm := do
  let day := timep.tdiv secsPerDay
  let year := day.tdiv daysPerNyear
  let year := (day - leapYearsFromEpoch (year + epochYear)).tdiv daysPerNyear
  let mday := (day - leapYearsFromEpoch (year + epochYear)).tmod daysPerNyear
  let year := year + baseToEpochYear
  let m ← monthAfter (monthTable (year + tmYearBase)) mday
  let before ← entryAt (monthTable (year + tmYearBase)) ((m : Int) - 1)
  return {
    sec := timep.tmod secsPerMin
    min := (timep.tmod secsPerHour).tdiv secsPerMin
    hour := (timep.tmod secsPerDay).tdiv secsPerHour
    mday := mday - before + 1
    mon := m - 1
    year := year
    wday := (day + epochWday).tmod 7
    yday := mday
    isdst := 0 }

structure LocalRight (t : Int) (tm : Tm) : Prop where
  date : ∃ year month mday : Nat, IsDate 1970 (t / 86400).toNat year month mday ∧
    tm.year = year - 1900 ∧ tm.mon = month ∧ tm.mday = mday ∧
    tm.yday = daysBeforeMonth year month + (mday - 1)
  wday : tm.wday = (t / 86400 + 4) % 7
  clock : 0 ≤ tm.hour ∧ tm.hour < 24 ∧ 0 ≤ tm.min ∧ tm.min < 60 ∧ 0 ≤ tm.sec ∧ tm.sec < 60 ∧
    t % 86400 = tm.hour * 3600 + tm.min * 60 + tm.sec
  back : mktime tm = some t

theorem isleap_iff (y : Nat) : isleap y ↔ Leap y := by
  have nonneg : (0 : Int) ≤ y := Int.natCast_nonneg y
  rw [isleap, Int.tmod_eq_emod_of_nonneg nonneg, Int.tmod_eq_emod_of_nonneg nonneg,
    Int.tmod_eq_emod_of_nonneg nonneg, Leap]
  omega

theorem monthTable_eq (y : Nat) : monthTable y = (List.range 13).map fun m => (daysBeforeMonth y m : Int) := by
  have row : List.range 13 = [0, 1, 2, 3, 4, 5, 6, 7, 8, 9, 10, 11, 12] := rfl
  by_cases leap : Leap y
  · simp [monthTable, isleap_iff, leap, daysToMonthLeap, row, daysBeforeMonth, monthLength]
  · simp [monthTable, isleap_iff, leap, daysToMonth, row, daysBeforeMonth, monthLength]

theorem entryAt_month (y : Nat) {month : Nat} (inside : month < 12) :
    entryAt (monthTable y) month = some (daysBeforeMonth y month : Int) := by
  rw [entryAt, if_neg (by omega), monthTable_eq, Int.toNat_natCast, List.getElem?_map,
    List.getElem?_range (by omega)]
  rfl

theorem monthAfter_spec (y : Nat) {yday : Nat} (inside : yday < yearLength y) :
    ∃ month < 12, monthAfter (monthTable y) yday = some (month + 1) ∧ daysBeforeMonth y month ≤ yday ∧
      yday < daysBeforeMonth y (month + 1) := by
  have before : ∀ k, k < 13 → (monthTable y)[k]? = some (daysBeforeMonth y k : Int) := by
    intro k small
    rw [monthTable_eq, List.getElem?_map, List.getElem?_range small]
    rfl
  have length : (monthTable y).length = 13 := by simp [monthTable_eq]
  have ends : (monthAfter (monthTable y) yday).isSome := by
    rw [monthAfter, List.findIdx?_isSome, List.any_eq_true]
    refine ⟨_, List.mem_of_getElem? (before 12 (by omega)), ?_⟩
    rw [daysBeforeMonth_year]
    simpa using inside
  obtain ⟨k, found⟩ := Option.isSome_iff_exists.mp ends
  obtain ⟨small, stops, goes⟩ := List.findIdx?_eq_some_iff_getElem.mp found
  rw [length] at small
  have entry : ∀ j (below : j < (monthTable y).length), (monthTable y)[j] = (daysBeforeMonth y j : Int) := by
    intro j below
    have same := before j (length ▸ below)
    rw [List.getElem?_eq_getElem below] at same
    exact Option.some.inj same
  rw [entry] at stops
  have above : yday < daysBeforeMonth y k := by simpa using stops
  cases k with
  | zero => exact absurd above (Nat.not_lt_zero _)
  | succ month =>
    have last := goes month (Nat.lt_succ_self month)
    rw [entry] at last
    exact ⟨month, by omega, found, by simpa using last, above⟩

theorem leap_iff {n : Nat} (near : n < 130) : Leap (1970 + n) ↔ n % 4 = 2 := by
  revert n
  decide

theorem daysBeforeYear_eq {n : Nat} (near : n ≤ 130) : daysBeforeYear 1970 n = 365 * n + (n + 1) / 4 := by
  induction n with
  | zero => rfl
  | succ n ih =>
    rw [daysBeforeYear, ih (by omega), yearLength]
    have leap := leap_iff (n := n) (by omega)
    split
    · rename_i long
      have rest := leap.mp long
      omega
    · rename_i short
      have rest := leap.not.mp short
      omega

theorem tdiv_natCast (a b : Nat) : (a : Int).tdiv b = (a / b : Nat) := by
  rw [Int.tdiv_eq_ediv_of_nonneg (Int.natCast_nonneg a)]
  exact (Int.natCast_ediv a b).symm

theorem tmod_natCast (a b : Nat) : (a : Int).tmod b = (a % b : Nat) := by
  rw [Int.tmod_eq_emod_of_nonneg (Int.natCast_nonneg a)]
  exact (Int.natCast_emod a b).symm

theorem leapYearsFromEpoch_eq (n : Nat) : leapYearsFromEpoch (n + epochYear) = ((n + 1) / 4 : Nat) := by
  have since : (n : Int) + epochYear - epochLeap - 1 = ((n + 1 : Nat) : Int) := by
    simp only [epochYear, epochLeap]
    omega
  rw [leapYearsFromEpoch, since]
  exact tdiv_natCast (n + 1) 4

def yearOf (day : Nat) : Nat := (day - (day / 365 + 1) / 4) / 365

/-- The year is right, also where the first estimate is one too many. -/
theorem yearOf_spec {day : Nat} (near : day < 24856) :
    yearOf day ≤ 68 ∧ daysBeforeYear 1970 (yearOf day) ≤ day ∧ day < daysBeforeYear 1970 (yearOf day + 1) := by
  have bound : yearOf day ≤ 68 := by
    unfold yearOf
    omega
  refine ⟨bound, ?_, ?_⟩
  · rw [daysBeforeYear_eq (by omega)]
    unfold yearOf
    omega
  · rw [daysBeforeYear_eq (by omega)]
    unfold yearOf
    omega

def ydayOf (day : Nat) : Nat := (day - daysBeforeYear 1970 (yearOf day)) % 365

theorem yday_last {day : Nat} (near : day < 24856) :
    day - daysBeforeYear 1970 (yearOf day) = 365 ↔ day % 1461 = 1095 := by
  obtain ⟨bound, start, stop⟩ := yearOf_spec near
  rw [daysBeforeYear_eq (by omega)] at start stop ⊢
  generalize yearOf day = n at bound start stop
  obtain ⟨k, r, small, rfl⟩ : ∃ k r, r < 4 ∧ n = 4 * k + r := ⟨n / 4, n % 4, by omega, by omega⟩
  match r, small with
  | 0, _ | 1, _ | 2, _ | 3, _ => omega

theorem ydayOf_eq {day : Nat} (near : day < 24856) :
    ydayOf day = if day % 1461 = 1095 then 0 else day - daysBeforeYear 1970 (yearOf day) := by
  have last := yday_last near
  obtain ⟨bound, start, stop⟩ := yearOf_spec near
  rw [ydayOf]
  split
  · rename_i ends
    rw [last.mpr ends]
  · rename_i other
    have short := last.not.mpr other
    rw [daysBeforeYear_eq (by omega)] at start stop short ⊢
    exact Nat.mod_eq_of_lt (by omega)

def tmOf (n month : Nat) : Tm where
  sec := (n % 60 : Nat)
  min := (n % 3600 / 60 : Nat)
  hour := (n % 86400 / 3600 : Nat)
  mday := ydayOf (n / 86400) - daysBeforeMonth (1970 + yearOf (n / 86400)) month + 1
  mon := month
  year := yearOf (n / 86400) + 70
  wday := ((n / 86400 + 4) % 7 : Nat)
  yday := ydayOf (n / 86400)
  isdst := 0

theorem localtimeR_year {day : Nat} (near : day < 24856) :
    ((day : Int) - leapYearsFromEpoch ((day : Int).tdiv daysPerNyear + epochYear)).tdiv daysPerNyear =
      yearOf day := by
  have guess : (day : Int).tdiv daysPerNyear = (day / 365 : Nat) := tdiv_natCast day 365
  have left : (day : Int) - ((day / 365 + 1) / 4 : Nat) = (day - (day / 365 + 1) / 4 : Nat) := by omega
  rw [guess, leapYearsFromEpoch_eq, left]
  exact tdiv_natCast _ 365

theorem localtimeR_yday {day : Nat} (near : day < 24856) :
    ((day : Int) - leapYearsFromEpoch (yearOf day + epochYear)).tmod daysPerNyear = ydayOf day := by
  obtain ⟨bound, start, _⟩ := yearOf_spec near
  rw [daysBeforeYear_eq (by omega)] at start
  have left : (day : Int) - ((yearOf day + 1) / 4 : Nat) = (day - (yearOf day + 1) / 4 : Nat) := by omega
  have whole : (day - (yearOf day + 1) / 4) % 365 = ydayOf day := by
    rw [ydayOf, daysBeforeYear_eq (by omega)]
    omega
  rw [leapYearsFromEpoch_eq, left, ← whole]
  exact tmod_natCast _ 365

theorem localtimeR_eq {n : Nat} (near : n < 2 ^ 31) :
    ∃ month < 12, localtimeR n = some (tmOf n month) ∧
      daysBeforeMonth (1970 + yearOf (n / 86400)) month ≤ ydayOf (n / 86400) ∧
      ydayOf (n / 86400) < daysBeforeMonth (1970 + yearOf (n / 86400)) (month + 1) := by
  have days : n / 86400 < 24856 := by omega
  have short : ydayOf (n / 86400) < 365 := Nat.mod_lt _ (by omega)
  have inside : ydayOf (n / 86400) < yearLength (1970 + yearOf (n / 86400)) := by
    unfold yearLength
    split <;> omega
  obtain ⟨month, low, after, start, stop⟩ := monthAfter_spec _ inside
  refine ⟨month, low, ?_, start, stop⟩
  have year : (yearOf (n / 86400) : Int) + baseToEpochYear + tmYearBase = (1970 + yearOf (n / 86400) : Nat) := by
    simp only [baseToEpochYear, epochYear, tmYearBase]
    omega
  have entry := entryAt_month (1970 + yearOf (n / 86400)) low
  have back : ((month + 1 : Nat) : Int) - 1 = month := by omega
  have day : (n : Int).tdiv secsPerDay = (n / 86400 : Nat) := tdiv_natCast n 86400
  simp only [localtimeR, day, localtimeR_year days, localtimeR_yday days, year, after, entry, back,
    Option.bind_eq_bind, Option.bind_some]
  have hours : (n : Int).tmod secsPerDay = (n % 86400 : Nat) := tmod_natCast n 86400
  have mins : (n : Int).tmod secsPerHour = (n % 3600 : Nat) := tmod_natCast n 3600
  have wday : ((n / 86400 : Nat) : Int) + epochWday = ((n / 86400 + 4 : Nat) : Int) := rfl
  rw [hours, mins, wday]
  refine congrArg some ?_
  simp only [tmOf, Tm.mk.injEq]
  exact ⟨tmod_natCast n 60, tdiv_natCast _ 60, tdiv_natCast _ 3600, trivial, trivial, rfl,
    tmod_natCast _ 7, trivial, trivial⟩

theorem mktime_tmOf {n month : Nat} (near : n < 2 ^ 31) (low : month < 12) :
    mktime (tmOf n month) = some ((daysBeforeYear 1970 (yearOf (n / 86400)) + ydayOf (n / 86400) : Int) * 86400 +
      (n % 86400 : Nat)) := by
  have inside : n / 86400 < 24856 := by omega
  obtain ⟨bound, _, _⟩ := yearOf_spec inside
  have year : (yearOf (n / 86400) : Int) + 70 + tmYearBase = (1970 + yearOf (n / 86400) : Nat) := by
    simp only [tmYearBase]
    omega
  have leaps : leapYearsFromEpoch (1970 + yearOf (n / 86400) : Nat) = ((yearOf (n / 86400) + 1) / 4 : Nat) := by
    rw [← leapYearsFromEpoch_eq, epochYear]
    congr 1
    omega
  simp only [mktime, tmOf, year, leaps, entryAt_month _ low, Option.bind_eq_bind, Option.bind_some]
  rw [daysBeforeYear_eq (by omega)]
  refine congrArg some ?_
  simp only [baseToEpochYear, epochYear, tmYearBase, secsPerDay, secsPerHour, secsPerMin]
  omega

/-- localtime_r ends, and what it makes of `t` is right but on the last day of a leap year. -/
theorem localtime_right_iff (t : Int) (nonneg : 0 ≤ t) (range : t < 2 ^ 31) :
    ∃ tm, localtimeR t = some tm ∧ (LocalRight t tm ↔ t / 86400 % 1461 ≠ 1095) := by
  obtain ⟨n, rfl⟩ := Int.eq_ofNat_of_zero_le nonneg
  have near : n < 2 ^ 31 := by omega
  obtain ⟨month, low, result, start, stop⟩ := localtimeR_eq near
  have inside : n / 86400 < 24856 := by omega
  obtain ⟨bound, since, until_⟩ := yearOf_spec inside
  have eq := ydayOf_eq inside
  refine ⟨_, result, ?_⟩
  constructor
  · intro right last
    obtain ⟨year, month', mday, date, sameYear, sameMonth, sameDay, sameYday⟩ := right.date
    have number := date.number
    rw [if_pos (by omega)] at eq
    simp only [tmOf, eq] at sameYear sameYday
    have here : year - 1970 = yearOf (n / 86400) := by omega
    have ends := (yday_last inside).mpr (by omega)
    rw [here] at number
    omega
  · intro other
    rw [if_neg (by omega)] at eq
    constructor
    · refine ⟨1970 + yearOf (n / 86400), month, ydayOf (n / 86400) - daysBeforeMonth (1970 + yearOf (n / 86400)) month + 1,
        ⟨by omega, low, by omega, ?_, ?_⟩, ?_, rfl, ?_, ?_⟩
      · rw [daysBeforeMonth] at stop
        omega
      · rw [Nat.add_sub_cancel_left]
        omega
      · simp only [tmOf]
        omega
      · simp only [tmOf]
        omega
      · simp only [tmOf]
        omega
    · exact rfl
    · simp only [tmOf]
      omega
    · rw [mktime_tmOf near low]
      refine congrArg some ?_
      omega

theorem localtime_right_iff_1972 : ∃ tm, localtimeR 63072000 = some tm ∧ tm.year = 72 ∧ LocalRight 63072000 tm := by
  obtain ⟨tm, found, right⟩ := localtime_right_iff 63072000 (by decide) (by decide)
  have year : (localtimeR 63072000).map (fun tm => tm.year) = some 72 := by decide
  rw [found] at year
  exact ⟨tm, found, Option.some.inj year, right.mpr (by decide)⟩

theorem localtime_last_day :
    IsDate 1970 1095 1972 11 31 ∧ ∃ tm, localtimeR 94608000 = some tm ∧ (tm.year, tm.mon, tm.mday) = (72, 0, 1) ∧
      mktime tm = some 63072000 ∧ ¬LocalRight 94608000 tm := by
  have date : IsDate 1970 1095 1972 11 31 := ⟨by decide, by decide, by decide, by decide, by decide⟩
  refine ⟨date, ⟨0, 0, 0, 1, 0, 72, 0, 0, 0⟩, by decide, rfl, by decide, fun right => ?_⟩
  obtain ⟨year, month, mday, also, _, first, _⟩ := right.date
  have same := (date.unique also).2.1
  rw [← same] at first
  exact absurd first (by decide)

end L4ertl
