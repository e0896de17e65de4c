import Mathlib.Data.BitVec

/-!
The bytes of a memory of 32-bit words, the low byte of a word first. A word is
known by its byte address, a multiple of four; filling and copying byte by byte
are stated through what each byte holds afterwards.
-/
namespace Bytes

abbrev Memory := Nat → BitVec 32

def byteOf (w : BitVec 32) (i : Nat) : BitVec 8 := w.extractLsb' (8 * i) 8

def wordOf (b : Nat → BitVec 8) : BitVec 32 := b 3 ++ b 2 ++ b 1 ++ b 0

def byteAt (m : Memory) (a : Nat) : BitVec 8 := byteOf (m (a / 4 * 4)) (a % 4)

def storeByte (m : Memory) (a : Nat) (v : BitVec 8) : Memory :=
  Function.update m (a / 4 * 4)
    (wordOf fun i => if i = a % 4 then v else byteOf (m (a / 4 * 4)) i)

/-- The bytes from `dst` on are `v`; a word that only some of them lie in keeps the rest. -/
def fill (dst : Nat) (v : BitVec 8) (count : Nat) (m : Memory) : Memory := fun a =>
  if a % 4 = 0 ∧ dst < a + 4 ∧ a < dst + count then
    wordOf fun i => if dst ≤ a + i ∧ a + i < dst + count then v else byteOf (m a) i
  else m a

def copy (dst src : Nat) : Nat → Memory → Memory
  | 0, m => m
  | count + 1, m => copy (dst + 1) (src + 1) count (storeByte m dst (byteAt m src))

theorem byteOf_wordOf (b : Nat → BitVec 8) {i : Nat} (inside : i < 4) : byteOf (wordOf b) i = b i := by
  apply BitVec.eq_of_getLsbD_eq
  intro j low
  obtain rfl | rfl | rfl | rfl : i = 0 ∨ i = 1 ∨ i = 2 ∨ i = 3 := by omega
  all_goals simp only [byteOf, wordOf, BitVec.getLsbD_extractLsb', BitVec.getLsbD_append]
  all_goals simp [low]
  all_goals grind

theorem byteAt_congr {m w : Memory} {a : Nat} (same : w (a / 4 * 4) = m (a / 4 * 4)) :
    byteAt w a = byteAt m a := by rw [byteAt, byteAt, same]

theorem byteAt_storeByte (m : Memory) (a : Nat) (v : BitVec 8) (x : Nat) :
    byteAt (storeByte m a v) x = if x = a then v else byteAt m x := by
  have inside : x % 4 < 4 := Nat.mod_lt x (by omega)
  by_cases word : x / 4 * 4 = a / 4 * 4
  · simp only [byteAt, storeByte, word, Function.update_self, byteOf_wordOf _ inside]
    have place : x % 4 = a % 4 ↔ x = a := by omega
    simp only [place]
  · have other : x ≠ a := fun same => word (by rw [same])
    simp only [byteAt, storeByte, Function.update_of_ne word, if_neg other]

def Off (lo hi x : Nat) : Prop := x % 4 ≠ 0 ∨ x + 4 ≤ lo ∨ hi ≤ x

theorem storeByte_other (m : Memory) {a x : Nat} (v : BitVec 8) (off : Off a (a + 1) x) :
    storeByte m a v x = m x := by
  apply Function.update_of_ne
  unfold Off at off
  omega

theorem byteAt_fill (dst : Nat) (v : BitVec 8) (count : Nat) (m : Memory) (x : Nat) :
    byteAt (fill dst v count m) x = if dst ≤ x ∧ x < dst + count then v else byteAt m x := by
  have inside : x % 4 < 4 := Nat.mod_lt x (by omega)
  have back : x / 4 * 4 + x % 4 = x := Nat.div_add_mod' x 4
  unfold byteAt fill
  split
  · rw [byteOf_wordOf _ inside, back]
  · rename_i off
    rw [if_neg (by omega)]

theorem fill_other {dst count x : Nat} (v : BitVec 8) (m : Memory) (off : Off dst (dst + count) x) :
    fill dst v count m x = m x := by
  apply if_neg
  unfold Off at off
  omega

theorem fill_inside {dst count x : Nat} (m : Memory) (whole : x % 4 = 0) (low : dst ≤ x)
    (high : x + 4 ≤ dst + count) :
    fill dst 0#8 count m x = 0#32 := by
  have each : ∀ i, i < 4 → dst ≤ x + i ∧ x + i < dst + count := by omega
  have shape : fill dst 0#8 count m x =
      wordOf fun i => if dst ≤ x + i ∧ x + i < dst + count then 0#8 else byteOf (m x) i :=
    if_pos (by omega)
  rw [shape, wordOf, if_pos (each 0 (by omega)), if_pos (each 1 (by omega)),
    if_pos (each 2 (by omega)), if_pos (each 3 (by omega))]
  rfl

theorem copy_other {dst src count x : Nat} (m : Memory) (off : Off dst (dst + count) x) :
    copy dst src count m x = m x := by
  unfold Off at off
  induction count generalizing dst src m with
  | zero => rfl
  | succ count ih =>
    rw [copy, ih _ (by omega)]
    apply storeByte_other
    unfold Off
    omega

theorem byteAt_copy {dst src count : Nat} (m : Memory) (apart : dst + count ≤ src ∨ src + count ≤ dst)
    (x : Nat) :
    byteAt (copy dst src count m) x =
      if dst ≤ x ∧ x < dst + count then byteAt m (src + (x - dst)) else byteAt m x := by
  induction count generalizing dst src m with
  | zero =>
    have none : ¬ (dst ≤ x ∧ x < dst + 0) := by omega
    rw [copy, if_neg none]
  | succ count ih =>
    have rest := @ih (dst + 1) (src + 1) (storeByte m dst (byteAt m src)) (by omega)
    rw [copy, rest]
    by_cases first : x = dst
    · subst first
      have before : ¬ (x + 1 ≤ x ∧ x < x + 1 + count) := by omega
      have here : x ≤ x ∧ x < x + (count + 1) := by omega
      rw [if_neg before, if_pos here, byteAt_storeByte, if_pos rfl, Nat.sub_self, Nat.add_zero]
    · by_cases inside : dst + 1 ≤ x ∧ x < dst + 1 + count
      · have place : src + 1 + (x - (dst + 1)) = src + (x - dst) := by omega
        have within : dst ≤ x ∧ x < dst + (count + 1) := by omega
        rw [if_pos inside, if_pos within, byteAt_storeByte, place, if_neg (by omega)]
      · have outside : ¬ (dst ≤ x ∧ x < dst + (count + 1)) := by omega
        rw [if_neg inside, if_neg outside, byteAt_storeByte, if_neg first]

/-- One byte after the other, from the last one on. -/
def copyDown (dst src : Nat) : Nat → Memory → Memory
  | 0, m => m
  | count + 1, m => copyDown dst src count (storeByte m (dst + count) (byteAt m (src + count)))

theorem byteAt_copy_up {dst src count : Nat} (m : Memory) (up : dst ≤ src) (x : Nat) :
    byteAt (copy dst src count m) x =
      if dst ≤ x ∧ x < dst + count then byteAt m (src + (x - dst)) else byteAt m x := by
  induction count generalizing dst src m with
  | zero => exact (if_neg (by omega)).symm
  | succ count ih =>
    rw [copy, ih _ (Nat.succ_le_succ up)]
    by_cases first : x = dst
    · subst first
      rw [if_neg (by omega), if_pos (by omega), byteAt_storeByte, if_pos rfl, Nat.sub_self, Nat.add_zero]
    · by_cases inside : dst + 1 ≤ x ∧ x < dst + 1 + count
      · have place : src + 1 + (x - (dst + 1)) = src + (x - dst) := by omega
        rw [if_pos inside, if_pos (by omega), byteAt_storeByte, if_neg (by omega), place]
      · rw [if_neg inside, if_neg (by omega), byteAt_storeByte, if_neg first]

theorem byteAt_copyDown {dst src count : Nat} (m : Memory) (down : src ≤ dst) (x : Nat) :
    byteAt (copyDown dst src count m) x =
      if dst ≤ x ∧ x < dst + count then byteAt m (src + (x - dst)) else byteAt m x := by
  induction count generalizing m with
  | zero => exact (if_neg (by omega)).symm
  | succ count ih =>
    rw [copyDown, ih]
    by_cases last : x = dst + count
    · subst last
      have place : src + (dst + count - dst) = src + count := by omega
      rw [if_neg (by omega), if_pos (by omega), byteAt_storeByte, if_pos rfl, place]
    · by_cases inside : dst ≤ x ∧ x < dst + count
      · rw [if_pos inside, if_pos (by omega), byteAt_storeByte, if_neg (by omega)]
      · rw [if_neg inside, if_neg (by omega), byteAt_storeByte, if_neg last]

theorem mod_next (j k : Nat) : (j + 1) % k = if j % k + 1 = k then 0 else j % k + 1 := by
  have whole := Nat.div_add_mod j k
  by_cases last : j % k + 1 = k
  · have multiple : j + 1 = k * (j / k + 1) := by
      rw [Nat.mul_add, Nat.mul_one]
      omega
    rw [if_pos last, multiple, Nat.mul_mod_right]
  · rw [if_neg last]
    rcases Nat.eq_zero_or_pos k with zero | positive
    · rw [zero, Nat.mod_zero, Nat.mod_zero]
    · have below := Nat.mod_lt j positive
      have split : j + 1 = k * (j / k) + (j % k + 1) := by omega
      rw [split, Nat.mul_add_mod, Nat.mod_eq_of_lt (by omega)]

/-- The bytes of a copy to higher addresses that goes from the first one on: from where it
    reads what it has written, the beginning comes again. -/
theorem byteAt_copy_down {dst src count : Nat} (m : Memory) (down : src < dst) (x : Nat) :
    byteAt (copy dst src count m) x =
      if dst ≤ x ∧ x < dst + count then byteAt m (src + (x - dst) % (dst - src)) else byteAt m x := by
  induction count generalizing dst src m with
  | zero => exact (if_neg (by omega)).symm
  | succ count ih =>
    have period : dst + 1 - (src + 1) = dst - src := Nat.add_sub_add_right ..
    have later : src + 1 < dst + 1 := by omega
    rw [copy, ih _ later, period]
    by_cases first : x = dst
    · subst first
      rw [if_neg (by omega), if_pos (by omega), byteAt_storeByte, if_pos rfl, Nat.sub_self, Nat.zero_mod, Nat.add_zero]
    · by_cases inside : dst + 1 ≤ x ∧ x < dst + 1 + count
      · have behind : x - dst = x - (dst + 1) + 1 := by omega
        have below := Nat.mod_lt (x - (dst + 1)) (Nat.sub_pos_of_lt down)
        rw [if_pos inside, if_pos (by omega), byteAt_storeByte, behind, mod_next]
        by_cases again : (x - (dst + 1)) % (dst - src) + 1 = dst - src
        · rw [if_pos again, if_pos (by omega), Nat.add_zero]
        · rw [if_neg again, if_neg (by omega), Nat.add_assoc, Nat.add_comm 1]
      · rw [if_neg inside, if_neg (by omega), byteAt_storeByte, if_neg first]

end Bytes
