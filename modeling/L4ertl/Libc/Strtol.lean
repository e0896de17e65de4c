import L4ertl.Core.Bitop
import L4ertl.Core.Paths
import L4ertl.Lib.Numerals

/-!
strtoul and strtol (stdlib.c of the kernel's libc). A pointer into a string is the list of
the bytes from there to the NUL; `none` is an endptr that is not written.
-/
namespace L4ertl
open Numerals

def byteAt (p : List Byte) (i : Nat) : Byte := p.getD i nul

def isspace (ch : Byte) : Bool := decide (ch.setWidth 32 - 9#32 < 5#32 ∨ ch = 0x20#8)

def isxdigit (ch : Byte) : Bool :=
  decide (ch.setWidth 32 - 0x30#32 < 10#32 ∨ (ch.setWidth 32 ||| 0x20#32) - 0x61#32 < 6#32)

def isalnum (ch : Byte) : Bool :=
  decide ((ch.setWidth 32 ||| 0x20#32) - 0x61#32 < 26#32 ∨ ch.setWidth 32 - 0x30#32 < 10#32)

def minusSign : Byte := 0x2D#8
def plusSign : Byte := 0x2B#8
def digitZero : Byte := 0x30#8

def ulongMax : Word := 0xFFFFFFFF#32
def absLongMin : Word := 0x80000000#32
def longMax : Word := 0x7FFFFFFF#32
def longMin : Word := 0x80000000#32

def strtoulDigit (c : Byte) : Byte :=
  if 0x61#8 ≤ c then c - 0x61#8 + 10#8
  else if 0x41#8 ≤ c then c - 0x41#8 + 10#8
  else if c ≤ 0x39#8 then c - 0x30#8
  else 0xff#8

/-- One round of that loop: the value is multiplied in two parts, split at bit 8, to see
    whether the product has 33 bits or more. -/
def strtoulStep (base : Nat) (v : Word) (c : Byte) : Word × Bool :=
  let x := (v &&& 0xff#32) * BitVec.ofNat 32 base + c.setWidth 32
  let w := (v >>> 8) * BitVec.ofNat 32 base + (x >>> 8)
  ((w <<< 8) + (x &&& 0xff#32), decide (ulongMax >>> 8 < w))

/-- The value, whether it has overflown, and where the loop has stopped. -/
def strtoulLoop (base : Nat) : List Byte → Word → Bool → Word × Bool × List Byte
  | [], v, overflow => (v, overflow, [])
  | ch :: rest, v, overflow =>
    let c := strtoulDigit ch
    if base ≤ c.toNat then (v, overflow, ch :: rest)
    else
      let (v, over32) := strtoulStep base v c
      strtoulLoop base rest v (overflow || over32)

def skip0x (base : Nat) (nptr : List Byte) : Nat × List Byte :=
  if (byteAt nptr 1 = 0x78#8 ∨ byteAt nptr 1 = 0x58#8) ∧ isxdigit (byteAt nptr 2) then (16, nptr.drop 2)
  else (base, nptr)

/-- The base and the place of the digits; `none` for a base out of range. -/
def strtoulBase (base : Int) (nptr : List Byte) : Option (Nat × List Byte) :=
  if base = 16 ∧ byteAt nptr 0 = digitZero then some (skip0x 16 nptr)
  else if base ≠ 0 then
    if 34#32 < BitVec.ofInt 32 base - 2#32 then none else some (base.toNat, nptr)
  else if byteAt nptr 0 = digitZero then some (skip0x 8 nptr)
  else some (10, nptr)

def strtoul (ptr : List Byte) (base : Int) : Word × Option (List Byte) :=
  let nptr := ptr.dropWhile isspace
  let neg := byteAt nptr 0 = minusSign
  let orig := if neg ∨ byteAt nptr 0 = plusSign then nptr.drop 1 else nptr
  match strtoulBase base orig with
  | none => (0, none)
  | some (base, nptr) =>
    let (v, overflow, nptr) := strtoulLoop base nptr 0 false
    -- no conversion done
    let (nptr, v) := if nptr.length = orig.length then (ptr, 0) else (nptr, v)
    if overflow then (ulongMax, some nptr) else (if neg then -v else v, some nptr)

def strtol (nptr : List Byte) (base : Int) : Word × Option (List Byte) :=
  let orig := nptr
  let nptr := nptr.dropWhile isspace
  let neg := byteAt nptr 0 = minusSign ∧ isalnum (byteAt nptr 1)
  let nptr := if neg then nptr.drop 1 else nptr
  let (v, endptr) := strtoul nptr base
  let endptr := endptr.map fun e => if e.length = nptr.length then orig else e
  (if absLongMin ≤ v then if v = absLongMin ∧ neg then v else if neg then longMin else longMax
    else if neg then -v else v, endptr)

example : strtoul (bytes [' ', '-', '0', 'x', '1', 'g']) 0 = (0xFFFFFFFF#32, some (bytes ['g'])) := by decide

def Space (c : Byte) : Prop := c = 0x20#8 ∨ 0x09#8 ≤ c ∧ c ≤ 0x0D#8

instance (c : Byte) : Decidable (Space c) := inferInstanceAs (Decidable (_ ∨ _))

def digitValue (c : Byte) : Option Nat :=
  if 0x30#8 ≤ c ∧ c ≤ 0x39#8 then some (c.toNat - 0x30)
  else if 0x61#8 ≤ c ∧ c ≤ 0x7A#8 then some (c.toNat - 0x61 + 10)
  else if 0x41#8 ≤ c ∧ c ≤ 0x5A#8 then some (c.toNat - 0x41 + 10)
  else none

theorem isspace_iff : ∀ c : Byte, isspace c = true ↔ Space c := by decide +kernel

theorem digitValue_eq : ∀ c : Byte,
    digitValue c = if (strtoulDigit c).toNat < 36 then some (strtoulDigit c).toNat else none := by
  decide +kernel

theorem isalnum_iff : ∀ c : Byte, isalnum c = true ↔ (strtoulDigit c).toNat < 36 := by decide +kernel

theorem isxdigit_iff : ∀ c : Byte, isxdigit c = true ↔ (strtoulDigit c).toNat < 16 := by decide +kernel

def inBase (base : Nat) (c : Byte) : Bool := decide ((strtoulDigit c).toNat < base)

section
variable {base : Nat} {c : Byte}

theorem strtoulStep_parts (v : Word) (bounded : base ≤ 36) (digit : c.toNat < base) :
    ∃ w x : Nat, 256 * w + x % 256 = v.toNat * base + c.toNat ∧ w < 2 ^ 30 ∧
      strtoulStep base v c = (BitVec.ofNat 32 (256 * w + x % 256), decide (2 ^ 24 ≤ w)) := by
  have low : v.toNat % 256 * base ≤ 255 * 36 := Nat.mul_le_mul (by omega) bounded
  have high : v.toNat / 256 * base ≤ (2 ^ 24 - 1) * 36 :=
    Nat.mul_le_mul (by have := v.isLt; omega) bounded
  have product : v.toNat * base = 256 * (v.toNat / 256 * base) + v.toNat % 256 * base := by
    rw [← Nat.mul_assoc, ← Nat.add_mul, Nat.div_add_mod]
  have small : base % 4294967296 = base := Nat.mod_eq_of_lt (by omega)
  unfold strtoulStep
  extract_lets x w
  have x_eq : x.toNat = v.toNat % 256 * base + c.toNat := by
    have masked : (v &&& 0xff#32).toNat = v.toNat % 256 := by
      rw [BitVec.toNat_and]; exact Nat.and_two_pow_sub_one_eq_mod v.toNat 8
    simp only [x, BitVec.toNat_add, BitVec.toNat_mul, BitVec.toNat_ofNat, BitVec.toNat_setWidth, masked,
      Nat.reducePow, small]
    omega
  have w_eq : w.toNat = v.toNat / 256 * base + x.toNat / 256 := by
    simp only [w, BitVec.toNat_add, BitVec.toNat_mul, BitVec.toNat_ofNat, BitVec.toNat_ushiftRight, small,
      Nat.shiftRight_eq_div_pow, Nat.reducePow]
    omega
  refine ⟨w.toNat, x.toNat, by omega, by omega, Prod.ext ?_ ?_⟩
  · apply BitVec.eq_of_toNat_eq
    have masked : (x &&& 0xff#32).toNat = x.toNat % 256 := by
      rw [BitVec.toNat_and]; exact Nat.and_two_pow_sub_one_eq_mod x.toNat 8
    simp only [BitVec.toNat_add, BitVec.toNat_shiftLeft, BitVec.toNat_ofNat, masked, Nat.shiftLeft_eq]
    omega
  · simp only [ulongMax, BitVec.lt_def, decide_eq_decide]
    exact Nat.succ_le_iff.symm

theorem strtoulStep_value (v : Word) (bounded : base ≤ 36) (digit : c.toNat < base) :
    strtoulStep base v c =
      (BitVec.ofNat 32 (v.toNat * base + c.toNat), decide (2 ^ 32 ≤ v.toNat * base + c.toNat)) := by
  obtain ⟨w, x, product, bound, step⟩ := strtoulStep_parts v bounded digit
  rw [step, product]
  have iff : 2 ^ 24 ≤ w ↔ 2 ^ 32 ≤ v.toNat * base + c.toNat := by omega
  simp only [iff]

end

theorem filterMap_digit {base : Nat} (bounded : base ≤ 36) {ch : Byte} (digit : inBase base ch = true) :
    digitValue ch = some (strtoulDigit ch).toNat := by
  rw [digitValue_eq, if_pos]
  simp only [inBase, decide_eq_true_eq] at digit
  omega

theorem strtoulLoop_run {base : Nat} (positive : 0 < base) (bounded : base ≤ 36) (text : List Byte) (v : Word)
    (overflow : Bool) :
    ∃ v', strtoulLoop base text v overflow =
        (v', overflow || decide (2 ^ 32 ≤ valueFrom base v.toNat ((text.takeWhile (inBase base)).filterMap digitValue)),
          text.dropWhile (inBase base)) ∧
      (valueFrom base v.toNat ((text.takeWhile (inBase base)).filterMap digitValue) < 2 ^ 32 →
        v'.toNat = valueFrom base v.toNat ((text.takeWhile (inBase base)).filterMap digitValue)) := by
  induction text generalizing v overflow with
  | nil => exact ⟨v, by simp [strtoulLoop, valueFrom, v.isLt], fun _ => rfl⟩
  | cons ch rest ih =>
    by_cases digit : inBase base ch = true
    · have inside : (strtoulDigit ch).toNat < base := by simpa [inBase] using digit
      have value := filterMap_digit bounded digit
      obtain ⟨v', run, kept⟩ := ih (BitVec.ofNat 32 (v.toNat * base + (strtoulDigit ch).toNat))
        (overflow || decide (2 ^ 32 ≤ v.toNat * base + (strtoulDigit ch).toNat))
      simp only [strtoulLoop, if_neg (Nat.not_le.mpr inside), strtoulStep_value v bounded inside,
        List.takeWhile_cons_of_pos digit, List.dropWhile_cons_of_pos digit, List.filterMap_cons_some value, valueFrom]
      by_cases room : v.toNat * base + (strtoulDigit ch).toNat < 2 ^ 32
      · rw [BitVec.toNat_ofNat, Nat.mod_eq_of_lt room] at run kept
        refine ⟨v', ?_, kept⟩
        rw [run, decide_eq_false (Nat.not_le.mpr room), Bool.or_false]
      · -- once past 2^32 the value never falls below it again
        have grows := valueFrom_ge positive (v.toNat * base + (strtoulDigit ch).toNat)
          ((rest.takeWhile (inBase base)).filterMap digitValue)
        refine ⟨v', ?_, fun small => absurd small (by omega)⟩
        rw [run, decide_eq_true (Nat.not_lt.mp room), decide_eq_true (Nat.le_trans (Nat.not_lt.mp room) grows)]
        simp
    · have outside : base ≤ (strtoulDigit ch).toNat := by simpa [inBase] using digit
      refine ⟨v, ?_, ?_⟩
      · simp [strtoulLoop, outside, List.takeWhile_cons_of_neg digit, List.dropWhile_cons_of_neg digit, valueFrom, v.isLt]
      · simp [List.takeWhile_cons_of_neg digit, valueFrom]

end L4ertl
