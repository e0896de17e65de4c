import L4ertl.Arch.OmapClock

/-!
The clock of the Versatile port (arm_versatile_vexpressa9_pit.c). The hardware
timer counts down; the high word is kept in software and moves on only when a
reading finds a low word smaller than the one before.
-/
namespace L4ertl

structure VersatileClock where
  currentTimeLo : Word
  currentTimeHi : Word
  deriving DecidableEq, Repr

def VersatileClock.initL4Timer : VersatileClock := ⟨0, 0⟩

def versatileTimerReload : Word := 0x80000000#32

/-- The register val of a periodic timer with this load, `t` ticks after its start. -/
def timer2Val (load : Word) (t : Nat) : Word := BitVec.ofNat 32 (load.toNat - t % (load.toNat + 1))

def VersatileClock.readL4Timer (c : VersatileClock) (val : Word) : VersatileClock × Duration :=
  let timeLo := ~~~val
  let hi := if timeLo < c.currentTimeLo then c.currentTimeHi + 1 else c.currentTimeHi
  let c := { c with currentTimeHi := hi, currentTimeLo := timeLo }
  (c, (c.currentTimeHi.setWidth 64 <<< 32) ||| c.currentTimeLo.setWidth 64)

def VersatileClock.readL4TimerNsec (c : VersatileClock) (val : Word) : VersatileClock × Duration :=
  let (c, time) := c.readL4Timer val
  (c, time * 1000)

def VersatileClock.readings : VersatileClock → List Word → List Duration
  | _, [] => []
  | c, val :: vals => (c.readL4Timer val).2 :: (c.readL4Timer val).1.readings vals

/-- The time that a timer with this load shows: each period counts as 2^32 ticks. -/
def shownTime (load : Word) (t : Nat) : Nat :=
  t / (load.toNat + 1) * 2 ^ 32 + (2 ^ 32 - 1 - load.toNat + t % (load.toNat + 1))

/-- Instants at which the clock is read, `last` being the latest before: later and
    later, and never a whole period apart. -/
def Paced (period last : Nat) : List Nat → Prop
  | [] => True
  | t :: ts => last ≤ t ∧ t - last < period ∧ Paced period t ts

def VersatileClock.At (load : Word) (t : Nat) (c : VersatileClock) : Prop :=
  c.currentTimeHi.toNat = t / (load.toNat + 1) ∧
    (c.currentTimeLo.toNat = 2 ^ 32 - 1 - load.toNat + t % (load.toNat + 1) ∨
      t = 0 ∧ c.currentTimeLo.toNat = 0)

theorem timer2Val_low (load : Word) (t : Nat) :
    (~~~timer2Val load t).toNat = 2 ^ 32 - 1 - load.toNat + t % (load.toNat + 1) := by
  have bound := load.isLt
  have digit : t % (load.toNat + 1) < load.toNat + 1 := Nat.mod_lt t (Nat.succ_pos _)
  have val : (timer2Val load t).toNat = load.toNat - t % (load.toNat + 1) := by
    rw [timer2Val, BitVec.toNat_ofNat]
    exact Nat.mod_eq_of_lt (by omega)
  rw [BitVec.toNat_not, val]
  omega

theorem next_period {period last t : Nat} (later : last ≤ t) (close : t - last < period) :
    t / period = (if t % period < last % period then last / period + 1 else last / period) := by
  have positive : 0 < period := by omega
  have whole := Nat.div_add_mod last period
  have digit := Nat.mod_lt last positive
  by_cases wraps : last % period + (t - last) < period
  · have here : t / period = last / period ∧ t % period = last % period + (t - last) := by
      rw [Nat.div_mod_unique positive]
      omega
    rw [here.1, here.2, if_neg (by omega)]
  · have here : t / period = last / period + 1 ∧ t % period = last % period + (t - last) - period := by
      rw [Nat.div_mod_unique positive, Nat.mul_succ]
      omega
    rw [here.1, here.2, if_pos (by omega)]

theorem VersatileClock.At.read {load : Word} {last t : Nat} {c : VersatileClock} (here : c.At load last)
    (later : last ≤ t) (close : t - last < load.toNat + 1) (fits : t / (load.toNat + 1) < 2 ^ 32) :
    (c.readL4Timer (timer2Val load t)).1.At load t ∧
      (c.readL4Timer (timer2Val load t)).2.toNat = shownTime load t := by
  have low := timer2Val_low load t
  have period := next_period later close
  have hi : (c.readL4Timer (timer2Val load t)).1.currentTimeHi.toNat = t / (load.toNat + 1) := by
    simp only [VersatileClock.readL4Timer, BitVec.lt_def, low]
    rcases here with ⟨high, shown | ⟨rfl, zero⟩⟩
    · rw [shown]
      by_cases falls : t % (load.toNat + 1) < last % (load.toNat + 1)
      · rw [if_pos falls] at period
        rw [if_pos (by omega), BitVec.toNat_add, high, show (1 : Word).toNat = 1 from rfl, ← period]
        exact Nat.mod_eq_of_lt fits
      · rw [if_neg falls] at period
        rw [if_neg (by omega), high, period]
    · rw [zero, if_neg (by omega), high]
      rw [Nat.zero_mod, if_neg (by omega)] at period
      exact period.symm
  refine ⟨⟨hi, Or.inl low⟩, ?_⟩
  have value : (c.readL4Timer (timer2Val load t)).2 =
      L4ertl.readL4Timer (c.readL4Timer (timer2Val load t)).1.currentTimeHi (~~~timer2Val load t) := rfl
  rw [value, readL4Timer_toNat, timeOf, hi, low, shownTime]

theorem VersatileClock.At.readings {load : Word} {ts : List Nat} {last : Nat} {c : VersatileClock}
    (here : c.At load last) (paced : Paced (load.toNat + 1) last ts)
    (fits : ∀ t ∈ ts, t / (load.toNat + 1) < 2 ^ 32) :
    (c.readings (ts.map (timer2Val load))).map BitVec.toNat = ts.map (shownTime load) := by
  induction ts generalizing last c with
  | nil => rfl
  | cons t ts ih =>
    obtain ⟨later, close, rest⟩ := paced
    obtain ⟨next, value⟩ := here.read later close (fits t List.mem_cons_self)
    simp only [List.map_cons, VersatileClock.readings, value]
    rw [ih next rest fun u member => fits u (List.mem_cons_of_mem t member)]

theorem VersatileClock.at_init (load : Word) : VersatileClock.initL4Timer.At load 0 := by
  constructor
  · rw [Nat.zero_div]
    rfl
  · exact Or.inr ⟨rfl, rfl⟩

theorem versatile_shows (load : Word) (ts : List Nat) (paced : Paced (load.toNat + 1) 0 ts)
    (fits : ∀ t ∈ ts, t / (load.toNat + 1) < 2 ^ 32) :
    (VersatileClock.initL4Timer.readings (ts.map (timer2Val load))).map BitVec.toNat =
      ts.map (shownTime load) :=
  (VersatileClock.at_init load).readings paced fits

/-- The load of init_l4_timer makes a period half as long as the clock takes it to be,
    and lets it start at 0x7FFFFFFF. -/
theorem shownTime_reload (t : Nat) :
    shownTime versatileTimerReload t =
      t / (2 ^ 31 + 1) * 2 ^ 32 + (2 ^ 31 - 1 + t % (2 ^ 31 + 1)) := rfl

theorem shownTime_full (t : Nat) : shownTime 0xFFFFFFFF#32 t = t := by
  have whole := Nat.div_add_mod t (2 ^ 32)
  simp only [shownTime, BitVec.reduceToNat]
  omega

theorem paced_of_increasing {period : Nat} {ts : List Nat} {last : Nat}
    (increasing : (last :: ts).Pairwise (· < ·)) (gaps : (last :: ts).IsChain fun a b => b - a < period) :
    Paced period last ts := by
  induction ts generalizing last with
  | nil => trivial
  | cons t ts ih =>
    rw [List.pairwise_cons] at increasing
    rw [List.isChain_cons_cons] at gaps
    exact ⟨(increasing.1 t List.mem_cons_self).le, gaps.1, ih increasing.2 gaps.2⟩

theorem versatile_clock_exact (ts : List Nat) (increasing : ts.Pairwise (· < ·))
    (first : ∀ t ∈ ts.head?, t < 2 ^ 32) (gaps : ts.IsChain fun a b => b - a < 2 ^ 32)
    (bound : ∀ t ∈ ts, t < 2 ^ 64) :
    (VersatileClock.initL4Timer.readings (ts.map (timer2Val 0xFFFFFFFF#32))).map BitVec.toNat = ts ∧
      (VersatileClock.initL4Timer.readings (ts.map (timer2Val 0xFFFFFFFF#32))).Pairwise (· < ·) := by
  have paced : Paced (2 ^ 32) 0 ts := by
    cases ts with
    | nil => trivial
    | cons t ts =>
      exact ⟨Nat.zero_le t, first t rfl, paced_of_increasing increasing gaps⟩
  have shown := versatile_shows 0xFFFFFFFF#32 ts paced fun t member =>
    Nat.div_lt_of_lt_mul (bound t member)
  have exactly : ts.map (shownTime 0xFFFFFFFF#32) = ts := by
    rw [List.map_congr_left fun t _ => shownTime_full t, List.map_id']
  rw [exactly] at shown
  refine ⟨shown, ?_⟩
  rw [← shown, List.pairwise_map] at increasing
  exact increasing

theorem versatile_clock_exact_wraps :
    (VersatileClock.initL4Timer.readings
      ([0xFFFFFFFF, 0x100000000, 0x1FFFFFFFF].map (timer2Val 0xFFFFFFFF#32))).map BitVec.toNat =
      [0xFFFFFFFF, 0x100000000, 0x1FFFFFFFF] :=
  (versatile_clock_exact [0xFFFFFFFF, 0x100000000, 0x1FFFFFFFF] (by decide) (by decide) (by decide)
    (by decide)).1

theorem versatile_nsec {load : Word} {last t : Nat} {c : VersatileClock} (here : c.At load last)
    (later : last ≤ t) (close : t - last < load.toNat + 1) (fits : t / (load.toNat + 1) < 2 ^ 32)
    (small : shownTime load t * 1000 < 2 ^ 64) :
    (c.readL4TimerNsec (timer2Val load t)).2.toNat = shownTime load t * 1000 := by
  have value := (here.read later close fits).2
  simp only [VersatileClock.readL4TimerNsec, BitVec.toNat_mul, value]
  exact Nat.mod_eq_of_lt small

end L4ertl
