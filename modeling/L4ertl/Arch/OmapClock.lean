import L4ertl.Core.TimerTable
import L4ertl.Lib.Lts

/-!
The monotonic clock of the OMAP4 port (arm_omap4_pit.c): a 32-bit hardware
counter, and a software high word that another thread increments some time
after each overflow. A call reads the two words one after the other.
-/
namespace L4ertl

inductive ClockCall where
  | hwt
  | nsec
  deriving DecidableEq, Repr

/-- What the first of the two reads of a call has got; C leaves their order open. -/
inductive Half where
  | hi (w : Word)
  | low (w : Word)
  deriving DecidableEq, Repr

structure OmapTimer where
  tcrr : Word
  currentTimeHi : Word
  -- overflow interrupts raised and not yet served
  outstanding : Nat
  pending : Option (ClockCall × Half)
  deriving DecidableEq, Repr

def gptimer10Init : OmapTimer := ⟨0, 0, 0, none⟩

inductive ClockLabel where
  -- the counter runs on by `n`
  | ticks (n : Nat)
  | service
  | readHi (call : ClockCall)
  | readLow (call : ClockCall)
  deriving DecidableEq, Repr

structure ClockRet where
  call : ClockCall
  value : Duration
  deriving DecidableEq, Repr

def readL4Timer (hi low : Word) : Duration := (hi.setWidth 64 <<< 32) ||| low.setWidth 64

def ClockCall.result (call : ClockCall) (hi low : Word) : Duration :=
  match call with
  | .hwt => readL4Timer hi low
  | .nsec => readL4Timer hi low / 384 * 10000

/-- At most one overflow may be outstanding. -/
def OmapTimer.step (s : OmapTimer) : ClockLabel → Option (OmapTimer × List ClockRet)
  | .ticks n =>
    let wraps := (s.tcrr.toNat + n) / 2 ^ 32
    if s.outstanding + wraps ≤ 1 then
      some ({ s with tcrr := s.tcrr + BitVec.ofNat 32 n, outstanding := s.outstanding + wraps }, [])
    else none
  | .service =>
    if s.outstanding = 0 then none
    else some ({ s with
      currentTimeHi := s.currentTimeHi + 1
      outstanding := s.outstanding - 1 }, [])
  | .readHi call =>
    match s.pending with
    | none => some ({ s with pending := some (call, .hi s.currentTimeHi) }, [])
    | some (other, .low low) =>
      if call = other then some ({ s with pending := none }, [⟨call, call.result s.currentTimeHi low⟩])
      else none
    | some (_, .hi _) => none
  | .readLow call =>
    match s.pending with
    | none => some ({ s with pending := some (call, .low s.tcrr) }, [])
    | some (other, .hi hi) =>
      if call = other then some ({ s with pending := none }, [⟨call, call.result hi s.tcrr⟩])
      else none
    | some (_, .low _) => none

def timeOf (hi low : Word) : Nat := hi.toNat * 2 ^ 32 + low.toNat

def OmapTimer.time (s : OmapTimer) : Nat := timeOf s.currentTimeHi s.tcrr + s.outstanding * 2 ^ 32

def ClockCall.scale (call : ClockCall) (n : Nat) : Nat :=
  match call with
  | .hwt => n
  | .nsec => n / 384 * 10000

/-- The steps of a run in which no call meets an overflow: none while it is
    between its reads, none outstanding when it reads. The high word does not
    come to its end, nor do the nanoseconds. -/
def OmapTimer.Clean (s : OmapTimer) : ClockLabel → Prop
  | .ticks n => s.pending ≠ none → s.tcrr.toNat + n < 2 ^ 32
  | .service => s.currentTimeHi ≠ 0xFFFFFFFF#32
  | .readHi call | .readLow call => s.outstanding = 0 ∧
      (call = .nsec → timeOf s.currentTimeHi s.tcrr / 384 * 10000 < 2 ^ 64)

theorem readL4Timer_toNat (hi low : Word) : (readL4Timer hi low).toNat = timeOf hi low := by
  have boundHi := hi.isLt
  have boundLow := low.isLt
  have shifted : ((hi.setWidth 64 : Duration) <<< 32).toNat = hi.toNat * 2 ^ 32 := by
    simp only [BitVec.toNat_shiftLeft, BitVec.toNat_setWidth, Nat.shiftLeft_eq]
    omega
  have narrow : (low.setWidth 64 : Duration).toNat = low.toNat := by
    simp only [BitVec.toNat_setWidth]
    omega
  rw [readL4Timer, BitVec.toNat_or, shifted, narrow, timeOf, Nat.mul_comm]
  exact (Nat.two_pow_add_eq_or_of_lt boundLow hi.toNat).symm

theorem ClockCall.scale_mono (call : ClockCall) {m n : Nat} (le : m ≤ n) :
    call.scale m ≤ call.scale n := by
  cases call with
  | hwt => exact le
  | nsec => exact Nat.mul_le_mul_right 10000 (Nat.div_le_div_right le)

theorem ClockCall.result_toNat (call : ClockCall) (hi low : Word)
    (fits : call = .nsec → timeOf hi low / 384 * 10000 < 2 ^ 64) :
    (call.result hi low).toNat = call.scale (timeOf hi low) := by
  cases call with
  | hwt => exact readL4Timer_toNat hi low
  | nsec =>
    have small := fits rfl
    simp only [ClockCall.result, ClockCall.scale, BitVec.toNat_mul, BitVec.toNat_udiv,
      readL4Timer_toNat]
    exact Nat.mod_eq_of_lt small

/-- The least value a call in progress can still return; the time otherwise. -/
def OmapTimer.floor (s : OmapTimer) : Nat :=
  match s.pending with
  | some (_, .low low) => timeOf s.currentTimeHi low
  | _ => s.time

/-- Everything returned so far is not above what the next call can return. -/
structure ClockInv (s : OmapTimer) (es : List ClockRet) : Prop where
  served : s.pending ≠ none → s.outstanding = 0
  hi : ∀ call w, s.pending = some (call, .hi w) → w = s.currentTimeHi
  low : ∀ call w, s.pending = some (call, .low w) → w.toNat ≤ s.tcrr.toNat
  past : ∀ e ∈ es, e.value.toNat ≤ e.call.scale s.floor
  order : es.Pairwise fun e later => e.call = later.call → e.value ≤ later.value

theorem ClockInv.floor_le {s : OmapTimer} {es : List ClockRet} (inv : ClockInv s es) :
    s.floor ≤ s.time := by
  unfold OmapTimer.floor
  split
  · rename_i call low here
    have below := inv.low call low here
    simp only [OmapTimer.time, timeOf]
    omega
  · exact Nat.le_refl _

theorem ClockInv.quiet {s w : OmapTimer} {es : List ClockRet} (inv : ClockInv s es)
    (served : w.pending ≠ none → w.outstanding = 0)
    (hi : ∀ call v, w.pending = some (call, .hi v) → v = w.currentTimeHi)
    (low : ∀ call v, w.pending = some (call, .low v) → v.toNat ≤ w.tcrr.toNat)
    (floor : s.floor ≤ w.floor) : ClockInv w (es ++ []) := by
  rw [List.append_nil]
  refine ⟨served, hi, low, fun e member => ?_, inv.order⟩
  exact Nat.le_trans (inv.past e member) (e.call.scale_mono floor)

theorem ClockInv.returns {s : OmapTimer} {es : List ClockRet} (inv : ClockInv s es) {call : ClockCall}
    {hi low : Word} (settled : s.outstanding = 0) (value : timeOf hi low = s.floor)
    (fits : call = .nsec → timeOf s.currentTimeHi s.tcrr / 384 * 10000 < 2 ^ 64) :
    ClockInv { s with pending := none } (es ++ [⟨call, call.result hi low⟩]) := by
  have time : s.time = timeOf s.currentTimeHi s.tcrr := by
    simp only [OmapTimer.time, settled, Nat.zero_mul, Nat.add_zero]
  have upper := inv.floor_le
  have exactly : (call.result hi low).toNat = call.scale s.floor := by
    rw [call.result_toNat hi low, value]
    intro nsec
    have bound := fits nsec
    rw [← time] at bound
    rw [value]
    exact Nat.lt_of_le_of_lt (ClockCall.scale_mono .nsec upper) bound
  have floor : OmapTimer.floor { s with pending := none } = s.time := rfl
  refine ⟨fun some_ => absurd rfl some_, nofun, nofun, ?_, ?_⟩
  · intro e member
    rw [floor]
    rcases List.mem_append.mp member with before | new
    · exact Nat.le_trans (inv.past e before) (e.call.scale_mono upper)
    · rw [List.mem_singleton.mp new, exactly]
      exact call.scale_mono upper
  · rw [List.pairwise_append]
    refine ⟨inv.order, List.pairwise_singleton _ _, ?_⟩
    intro e before later new same
    rw [List.mem_singleton.mp new] at same ⊢
    have old := inv.past e before
    rw [same] at old
    exact BitVec.le_def.mpr (exactly ▸ old)

theorem clockInv_ticks {s : OmapTimer} {es : List ClockRet} (inv : ClockInv s es) {n : Nat}
    (clean : s.pending ≠ none → s.tcrr.toNat + n < 2 ^ 32) :
    ClockInv { s with
      tcrr := s.tcrr + BitVec.ofNat 32 n
      outstanding := s.outstanding + (s.tcrr.toNat + n) / 2 ^ 32 } (es ++ []) := by
  have counts : (s.tcrr + BitVec.ofNat 32 n).toNat = (s.tcrr.toNat + n) % 2 ^ 32 := by
    simp [BitVec.toNat_add]
  apply inv.quiet
  · intro busy
    have settled := inv.served busy
    have below := clean busy
    simp only [settled]
    omega
  · exact inv.hi
  · intro call v here
    have below := inv.low call v here
    have small := clean (by rw [here]; nofun)
    rw [counts]
    omega
  · unfold OmapTimer.floor
    simp only
    split
    · exact Nat.le_refl _
    · simp only [OmapTimer.time, timeOf, counts]
      omega

theorem clockInv_service {s : OmapTimer} {es : List ClockRet} (inv : ClockInv s es)
    (raised : s.outstanding ≠ 0) (clean : s.currentTimeHi ≠ 0xFFFFFFFF#32) :
    ClockInv { s with
      currentTimeHi := s.currentTimeHi + 1
      outstanding := s.outstanding - 1 } (es ++ []) := by
  have idle : s.pending = none := by
    by_contra busy
    exact raised (inv.served busy)
  have counts : (s.currentTimeHi + 1).toNat = s.currentTimeHi.toNat + 1 := by
    have bound := s.currentTimeHi.isLt
    have below : s.currentTimeHi.toNat ≠ 0xFFFFFFFF := fun same =>
      clean (BitVec.eq_of_toNat_eq same)
    have one : (1 : Word).toNat = 1 := rfl
    rw [BitVec.toNat_add, one]
    omega
  apply inv.quiet
  · intro busy
    exact absurd idle busy
  · intro call v here
    rw [idle] at here
    cases here
  · intro call v here
    rw [idle] at here
    cases here
  · simp only [OmapTimer.floor, idle, OmapTimer.time, timeOf, counts]
    omega

theorem clockInv_step {s w : OmapTimer} {es first : List ClockRet} {l : ClockLabel}
    (inv : ClockInv s es) (clean : s.Clean l) (taken : s.step l = some (w, first)) :
    ClockInv w (es ++ first) := by
  cases l with
  | ticks n =>
    simp only [OmapTimer.step] at taken
    split at taken
    · cases taken
      exact clockInv_ticks inv clean
    · cases taken
  | service =>
    simp only [OmapTimer.step] at taken
    split at taken
    · cases taken
    · rename_i raised
      cases taken
      exact clockInv_service inv raised clean
  | readHi call =>
    obtain ⟨settled, fits⟩ := clean
    simp only [OmapTimer.step] at taken
    split at taken
    · rename_i idle
      cases taken
      refine inv.quiet (fun _ => settled) (fun _ _ here => by cases here; rfl) nofun ?_
      simp only [OmapTimer.floor, idle]
      exact Nat.le_refl _
    · rename_i other low here
      split at taken
      · rename_i same
        cases taken
        subst same
        apply inv.returns settled _ fits
        simp only [OmapTimer.floor, here]
      · cases taken
    · cases taken
  | readLow call =>
    obtain ⟨settled, fits⟩ := clean
    simp only [OmapTimer.step] at taken
    split at taken
    · rename_i idle
      cases taken
      refine inv.quiet (fun _ => settled) nofun (fun _ _ here => by cases here; exact Nat.le_refl _) ?_
      simp only [OmapTimer.floor, idle, OmapTimer.time, settled]
      omega
    · rename_i other hi here
      split at taken
      · rename_i same
        cases taken
        subst same
        apply inv.returns settled _ fits
        rw [inv.hi call hi here]
        simp only [OmapTimer.floor, here, OmapTimer.time, settled]
        omega
      · cases taken
    · cases taken

theorem omap_clock_monotonic (ls : List ClockLabel) (s : OmapTimer) (es : List ClockRet)
    (run : Lts.exec OmapTimer.step gptimer10Init ls = some (s, es))
    (clean : Lts.Along OmapTimer.step OmapTimer.Clean gptimer10Init ls) :
    es.Pairwise fun e later => e.call = later.call → e.value ≤ later.value := by
  have start : ClockInv gptimer10Init [] := ⟨nofun, nofun, nofun, nofun, List.Pairwise.nil⟩
  have inv := Lts.exec_invariant ClockInv (fun _ _ _ _ _ inv ok taken => clockInv_step inv ok taken) ls
    start clean run
  exact inv.order

theorem omap_clock_monotonic_two :
    let ls : List ClockLabel := [.ticks 0xFFFFFFFF, .readHi .hwt, .readLow .hwt, .ticks 1, .service,
      .readHi .hwt, .readLow .hwt]
    let es : List ClockRet := [⟨.hwt, 0xFFFFFFFF⟩, ⟨.hwt, 0x100000000⟩]
    ∃ s, Lts.exec OmapTimer.step gptimer10Init ls = some (s, es) ∧
      es.Pairwise fun e later => e.call = later.call → e.value ≤ later.value := by
  intro ls es
  have run : Lts.exec OmapTimer.step gptimer10Init ls =
      some (⟨0, 1, 0, none⟩, es) := by decide +kernel
  refine ⟨_, run, omap_clock_monotonic ls _ es run ?_⟩
  have reads : ∀ s : OmapTimer, s.outstanding = 0 → s.Clean (.readHi .hwt) ∧ s.Clean (.readLow .hwt) :=
    fun s settled => ⟨⟨settled, nofun⟩, settled, nofun⟩
  refine .cons (w := ⟨0xFFFFFFFF, 0, 0, none⟩) (e := []) nofun (by decide +kernel) ?_
  refine .cons (w := ⟨0xFFFFFFFF, 0, 0, some (.hwt, .hi 0)⟩) (e := []) (reads _ rfl).1
    (by decide +kernel) ?_
  refine .cons (w := ⟨0xFFFFFFFF, 0, 0, none⟩) (e := [⟨.hwt, 0xFFFFFFFF⟩]) (reads _ rfl).2
    (by decide +kernel) ?_
  refine .cons (w := ⟨0, 0, 1, none⟩) (e := []) nofun (by decide +kernel) ?_
  refine .cons (w := ⟨0, 1, 0, none⟩) (e := []) (show (0 : Word) ≠ 0xFFFFFFFF#32 by decide)
    (by decide +kernel) ?_
  refine .cons (w := ⟨0, 1, 0, some (.hwt, .hi 1)⟩) (e := []) (reads _ rfl).1
    (by decide +kernel) ?_
  exact .cons (w := ⟨0, 1, 0, none⟩) (e := [⟨.hwt, 0x100000000⟩]) (reads _ rfl).2
    (by decide +kernel) trivial

theorem omap_clock_backwards :
    ∃ s es, Lts.exec OmapTimer.step gptimer10Init [.ticks 0xFFFFFFFF, .readHi .hwt, .readLow .hwt,
        .ticks 1, .readHi .hwt, .readLow .hwt] = some (s, es) ∧
      ¬es.Pairwise fun e later => e.call = later.call → e.value ≤ later.value := by
  refine ⟨⟨0, 0, 1, none⟩, [⟨.hwt, 0xFFFFFFFF⟩, ⟨.hwt, 0⟩], by decide +kernel, ?_⟩
  decide

end L4ertl
