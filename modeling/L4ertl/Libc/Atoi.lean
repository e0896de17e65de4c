import L4ertl.Libc.Subject

/-!
atoi (stdlib.c of the applications' libc), which reads its digits without strtol.
-/
namespace L4ertl
open Numerals

/-- A long has 32 bits and wraps. -/
def atoiLoop : List Byte → Word → Word
  | [], v => v
  | c :: s, v => if c.setWidth 32 - 0x30#32 < 10#32 then atoiLoop s (v * 10#32 + c.setWidth 32 - 0x30#32) else v

def atoi (s : List Byte) : Word :=
  let s := s.dropWhile fun c => decide (c = 0x20#8 ∨ c.setWidth 32 - 9#32 < 5#32)
  let neg := byteAt s 0 = minusSign
  let s := if neg ∨ byteAt s 0 = plusSign then s.drop 1 else s
  let v := atoiLoop s 0
  if neg then -v else v

def signedValue (sign : List Byte) (m : Nat) : Int := if sign = [minusSign] then -m else m

def wrappedResult (sign : List Byte) (m : Nat) : Word := BitVec.ofInt 32 (signedValue sign m)

example : atoi (bytes [' ', '-', '4', '2', 'x']) = -42#32 := by decide

theorem atoi_space : (fun c : Byte => decide (c = 0x20#8 ∨ c.setWidth 32 - 9#32 < 5#32)) = isspace := by
  funext c
  rw [isspace, decide_eq_decide]
  exact or_comm

theorem atoi_digit : ∀ c : Byte, inBase 10 c = decide (c.setWidth 32 - 0x30#32 < 10#32) := by decide +kernel

theorem atoi_digitValue : ∀ c : Byte, inBase 10 c = true → 0x30 ≤ c.toNat ∧ (strtoulDigit c).toNat = c.toNat - 0x30 := by
  decide +kernel

theorem atoiLoop_value (s : List Byte) (n : Nat) :
    atoiLoop s (BitVec.ofNat 32 n) =
      BitVec.ofNat 32 (valueFrom 10 n ((s.takeWhile (inBase 10)).filterMap digitValue)) := by
  induction s generalizing n with
  | nil => rfl
  | cons c s ih =>
    by_cases digit : inBase 10 c = true
    · have inside : c.setWidth 32 - 0x30#32 < 10#32 := by simpa [atoi_digit] using digit
      obtain ⟨low, value⟩ := atoi_digitValue c digit
      have next : BitVec.ofNat 32 n * 10#32 + c.setWidth 32 - 0x30#32 =
          BitVec.ofNat 32 (n * 10 + (strtoulDigit c).toNat) := by
        have small := c.isLt
        apply BitVec.eq_of_toNat_eq
        rw [value]
        simp only [BitVec.toNat_setWidth, BitVec.toNat_sub, BitVec.toNat_add, BitVec.toNat_mul, BitVec.toNat_ofNat]
        omega
      rw [atoiLoop, if_pos inside, next, ih, List.takeWhile_cons_of_pos digit,
        List.filterMap_cons_some (filterMap_digit (by decide) digit), valueFrom]
    · have outside : ¬c.setWidth 32 - 0x30#32 < 10#32 := by simpa [atoi_digit] using digit
      rw [atoiLoop, if_neg outside, List.takeWhile_cons_of_neg digit, List.filterMap_nil, valueFrom]

theorem atoi_value (ptr : List Byte) :
    atoi ptr = wrappedResult (signOf (ptr.dropWhile isspace))
      (value 10 (((afterSign (ptr.dropWhile isspace)).takeWhile (inBase 10)).filterMap digitValue)) := by
  have run := atoiLoop_value (afterSign (ptr.dropWhile isspace)) 0
  have sign := signOf_minus (ptr.dropWhile isspace)
  rw [wrappedResult, signedValue, atoi, atoi_space]
  by_cases minus : byteAt (ptr.dropWhile isspace) 0 = minusSign
  · rw [if_pos minus, if_pos (sign.mpr minus), BitVec.ofInt_neg, BitVec.ofInt_natCast]
    exact congrArg _ run
  · rw [if_neg minus, if_neg (mt sign.mp minus), BitVec.ofInt_natCast]
    exact run

theorem ofInt_eq_iff (n : Int) (v : Word) : BitVec.ofInt 32 n = v ↔ (2 : Int) ^ 32 ∣ n - v.toInt := by
  have bound := v.isLt
  rw [← BitVec.toNat_inj, BitVec.toNat_ofInt, BitVec.toInt_eq_toNat_cond]
  simp only [Nat.reducePow, Nat.cast_ofNat, Int.reducePow] at bound ⊢
  -- the two halves of the words
  split
  · omega
  · omega

theorem atoi_iff (ptr : List Byte) :
    (∃ endptr, Converts 0 wrappedResult 10 ptr (atoi ptr) endptr) ∧
      (atoi ptr = (strtol ptr 10).1 ↔
        ∀ sign pre digits rest, Subject 10 (ptr.dropWhile fun c => Space c) sign pre digits rest →
          (2 : Int) ^ 32 ∣ signedValue sign (magnitude 10 pre digits) - signedResult sign (magnitude 10 pre digits)) := by
  have based := based_decimal (afterSign (ptr.dropWhile isspace))
  have chosen : strtoulBase (10 : Nat) (afterSign (ptr.dropWhile isspace)) = some (10, _) :=
    strtoulBase_given (by decide) (by decide) (by simp)
  have whole := atoi_value ptr
  obtain ⟨v, endptr, run, yields⟩ := strtol_read (by decide) based chosen
  have space : (fun c => decide (Space c)) = isspace := by
    funext c
    rw [Bool.eq_iff_iff, decide_eq_true_eq, isspace_iff]
  have same : (strtol ptr 10).1 = v := congrArg Prod.fst run
  rw [same, space]
  by_cases none : (afterSign (ptr.dropWhile isspace)).takeWhile (inBase 10) = []
  · rw [none] at whole
    have zero : atoi ptr = 0 := by
      rw [whole, wrappedResult, signedValue]
      split
      · rfl
      · rfl
    rw [if_pos none] at yields
    constructor
    · exact ⟨ptr, converts_of_read (by decide) based (by rw [if_pos none, zero])⟩
    · refine iff_of_true ?_ fun sign pre digits rest subject => ?_
      · rw [zero]
        exact (BitVec.toInt_inj.mp (congrArg Prod.fst yields)).symm
      · obtain ⟨_, _, digits_eq, _⟩ := subject_reads (by decide) based subject
        exact absurd (digits_eq.trans none) subject.numeral.nonempty
  · rw [if_neg none] at yields
    rw [← magnitude_read based none] at whole
    constructor
    · exact ⟨_, converts_of_read (by decide) based (by rw [if_neg none, whole])⟩
    · have cut : v.toInt = _ := congrArg Prod.fst yields
      rw [whole, wrappedResult, ofInt_eq_iff, cut]
      constructor
      · intro divides sign pre digits rest subject
        obtain ⟨rfl, rfl, rfl, rfl⟩ := subject_reads (by decide) based subject
        exact divides
      · intro all
        exact all _ _ _ _ (read_subject (by decide) based none)

end L4ertl
