import Mathlib.Data.Rat.Defs
import Mathlib.Algebra.Order.Field.Rat
import Mathlib.Tactic.Linarith
import Mathlib.Tactic.NormNum
import Mathlib.Tactic.Ring
import L4ertl.Core.Time

/-!
The hardware timer of the OMAP4 port (arm_omap4_pit.c): a 32-bit counter that is
started so that it overflows, and interrupts, when the interval is over.
-/
namespace L4ertl

def timerTickFreq : Duration := 38400000
def tisrMatch : Word := 1#32
def tisrOvf : Word := 2#32
def tierOvf : Word := 2#32
/-- TCLR_ST | TCLR_AR | TCLR_CE. -/
def tclrSetup : Word := 0x43#32

structure Gptimer2 where
  tisr : Word
  tcrr : Word
  tier : Word
  tclr : Word
  irqEnabled : Bool
  deriving DecidableEq, Repr

def getMinIntervalL4Timer : Duration := 1000000000 / timerTickFreq

/-- The value of 0xFFFFFFFF / 38.4 * 1000. -/
def getMaxIntervalL4Timer : Duration := 111848106640

/-- The variable counter, which has 32 bits. -/
def hwtimerCounter (interval : Duration) : Word := (interval / 10000 * 384).setWidth 32

/-- set_hwtimer_l4_timer. A one written to tisr clears the flag. -/
def setHwtimerL4Timer (interval : Duration) (r : Gptimer2) : Gptimer2 where
  tisr := r.tisr &&& ~~~(tisrOvf ||| tisrMatch)
  tcrr := 0xFFFFFFFF#32 - hwtimerCounter interval
  tier := tierOvf
  tclr := tclrSetup
  irqEnabled := true

def OverflowsWith (start : Word) (n : Nat) : Prop :=
  (start.toNat + n) / 2 ^ 32 = 1 ∧ ∀ m < n, (start.toNat + m) / 2 ^ 32 = 0

def tickLength : ℚ := 1000000000 / 38400000

def tickTime (phase : ℚ) (n : Nat) : ℚ := phase + ((n : ℚ) - 1) * tickLength

theorem overflowsWith_iff (start : Word) (n : Nat) : OverflowsWith start n ↔ start.toNat + n = 2 ^ 32 := by
  have bound := start.isLt
  constructor
  · intro ⟨wraps, before⟩
    cases n with
    | zero => omega
    | succ m =>
      have last := before m (Nat.lt_succ_self m)
      omega
  · intro whole
    refine ⟨by omega, fun m earlier => ?_⟩
    omega

theorem minInterval_le_maxInterval : getMinIntervalL4Timer ≤ getMaxIntervalL4Timer := by decide

theorem clampInterval_range {T : Type} (k : Kernel T) (ordered : k.minInterval ≤ k.maxInterval)
    (d : Duration) : k.minInterval ≤ clampInterval k d ∧ clampInterval k d ≤ k.maxInterval := by
  simp only [BitVec.le_def] at *
  unfold clampInterval
  split
  · omega
  · rename_i above
    rw [BitVec.lt_def] at above
    split
    · omega
    · rename_i below
      rw [BitVec.lt_def] at below
      omega

theorem counter_of_interval {interval : Duration} (small : interval ≤ getMaxIntervalL4Timer) :
    (interval / 10000 * 384).toNat = interval.toNat / 10000 * 384 ∧
      interval.toNat / 10000 * 384 ≤ 4294967040 := by
  rw [BitVec.le_def, show getMaxIntervalL4Timer.toNat = 111848106640 by decide] at small
  have bound : interval.toNat / 10000 * 384 ≤ 4294967040 := by omega
  refine ⟨?_, bound⟩
  rw [BitVec.toNat_mul, BitVec.toNat_udiv, show (10000 : Duration).toNat = 10000 by decide,
    show (384 : Duration).toNat = 384 by decide]
  exact Nat.mod_eq_of_lt (by omega)

theorem hwtimerCounter_toNat {interval : Duration} (small : interval ≤ getMaxIntervalL4Timer) :
    (hwtimerCounter interval).toNat = interval.toNat / 10000 * 384 := by
  obtain ⟨product, bound⟩ := counter_of_interval small
  rw [hwtimerCounter, BitVec.toNat_setWidth, product]
  exact Nat.mod_eq_of_lt (by omega)

theorem tcrr_of_interval {interval : Duration} (small : interval ≤ getMaxIntervalL4Timer) (r : Gptimer2) :
    (setHwtimerL4Timer interval r).tcrr.toNat = 0xFFFFFFFF - interval.toNat / 10000 * 384 := by
  have top : (0xFFFFFFFF#32).toNat = 0xFFFFFFFF := by decide
  have counter := hwtimerCounter_toNat small
  obtain ⟨_, bound⟩ := counter_of_interval small
  have below : hwtimerCounter interval ≤ 0xFFFFFFFF#32 := by
    rw [BitVec.le_def, counter, top]
    omega
  have start : (setHwtimerL4Timer interval r).tcrr = 0xFFFFFFFF#32 - hwtimerCounter interval := rfl
  rw [start, BitVec.toNat_sub_of_le below, top, counter]

theorem overflow_tick {interval : Duration} (small : interval ≤ getMaxIntervalL4Timer) (r : Gptimer2)
    (n : Nat) : OverflowsWith (setHwtimerL4Timer interval r).tcrr n ↔
      n = interval.toNat / 10000 * 384 + 1 := by
  obtain ⟨_, bound⟩ := counter_of_interval small
  rw [overflowsWith_iff, tcrr_of_interval small r]
  omega

/-- The counter takes 384 ticks for every 10000 ns begun and ended. -/
theorem overflow_time (interval : Nat) {phase : ℚ} (started : 0 < phase) (within : phase ≤ tickLength) :
    (interval : ℚ) - 10000 < tickTime phase (interval / 10000 * 384 + 1) ∧
      tickTime phase (interval / 10000 * 384 + 1) ≤ interval + tickLength := by
  have steps : (interval : ℚ) = 10000 * ((interval / 10000 : Nat) : ℚ) + ((interval % 10000 : Nat) : ℚ) := by
    exact_mod_cast (Nat.div_add_mod interval 10000).symm
  have rest : ((interval % 10000 : Nat) : ℚ) < 10000 := by
    exact_mod_cast Nat.mod_lt interval (by decide)
  have rest_nonneg : (0 : ℚ) ≤ ((interval % 10000 : Nat) : ℚ) := Nat.cast_nonneg _
  have exactly : tickTime phase (interval / 10000 * 384 + 1) =
      phase + 10000 * ((interval / 10000 : Nat) : ℚ) := by
    simp only [tickTime, tickLength, Nat.cast_add, Nat.cast_mul, Nat.cast_one, Nat.cast_ofNat]
    ring
  rw [exactly]
  constructor
  · linarith
  · linarith

/-- The interval that update_hwtimer gives to the timer goes into the counter without
    loss, and the overflow comes less than 10000 ns before its end and at most one tick
    after, wherever in a tick the counter is started; so also for a timer that is due. -/
theorem hwtimer_on_time {T : Type} (k : Kernel T) (least : k.minInterval = getMinIntervalL4Timer)
    (greatest : k.maxInterval = getMaxIntervalL4Timer) (timerValue ctime : Duration) (r : Gptimer2) :
    let next := clampInterval k (timerValue - ctime)
    let set := setHwtimerL4Timer next r
    (next / 10000 * 384).toNat = next.toNat / 10000 * 384 ∧
    (hwtimerCounter next).toNat = next.toNat / 10000 * 384 ∧
    next.toNat / 10000 * 384 ≤ 0xFFFFFFFF ∧
    set.tcrr.toNat = 0xFFFFFFFF - next.toNat / 10000 * 384 ∧
    (∃ n, OverflowsWith set.tcrr n) ∧
    ∀ n, OverflowsWith set.tcrr n → ∀ phase : ℚ, 0 < phase → phase ≤ tickLength →
      (next.toNat : ℚ) - 10000 < tickTime phase n ∧
        tickTime phase n ≤ (next.toNat : ℚ) + tickLength := by
  intro next set
  have ordered : k.minInterval ≤ k.maxInterval := by
    rw [least, greatest]
    exact minInterval_le_maxInterval
  have small : next ≤ getMaxIntervalL4Timer := by
    rw [← greatest]
    exact (clampInterval_range k ordered _).2
  obtain ⟨product, bound⟩ := counter_of_interval small
  refine ⟨product, hwtimerCounter_toNat small, by omega, tcrr_of_interval small r, ?_, ?_⟩
  · exact ⟨_, (overflow_tick small r _).mpr rfl⟩
  · intro n overflows phase started within
    rw [(overflow_tick small r n).mp overflows]
    exact overflow_time next.toNat started within

theorem hwtimer_on_time_longest :
    let next := clampInterval (bootKernel (0 : Fin 2)) (200000000005 - 5)
    next = getMaxIntervalL4Timer ∧
    ∃ n, OverflowsWith (setHwtimerL4Timer next ⟨0, 0, 0, 0, false⟩).tcrr n ∧
      (next.toNat : ℚ) - 10000 < tickTime tickLength n ∧
        tickTime tickLength n ≤ (next.toNat : ℚ) + tickLength := by
  intro next
  have law := hwtimer_on_time (bootKernel (0 : Fin 2)) (by decide) (by decide) 200000000005 5
    ⟨0, 0, 0, 0, false⟩
  obtain ⟨n, overflows⟩ := law.2.2.2.2.1
  have started : 0 < tickLength := by
    norm_num [tickLength]
  exact ⟨by decide, n, overflows, law.2.2.2.2.2 n overflows tickLength started le_rfl⟩

end L4ertl
