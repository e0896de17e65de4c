import Mathlib.Data.Nat.Digits.Lemmas
import L4ertl.Libc.Printf

/-!
What print_out puts: the sign and the digits of a number, laid out in a field as ISO C says.
-/
namespace L4ertl

structure Puts (fn fn' : Out) (text : List Byte) : Prop where
  bytes : fn'.pieces.flatten = fn.pieces.flatten ++ text
  counted : fn'.len = fn.len + BitVec.ofNat 32 text.length

namespace Puts
variable {fn fn' fn'' : Out} {a b : List Byte}

theorem refl (fn : Out) : Puts fn fn [] := ⟨by simp, by simp⟩

theorem trans (first : Puts fn fn' a) (second : Puts fn' fn'' b) : Puts fn fn'' (a ++ b) where
  bytes := by rw [second.bytes, first.bytes, List.append_assoc]
  counted := by
    rw [second.counted, first.counted, List.length_append, BitVec.ofNat_add, BitVec.add_assoc]

theorem put (fn : Out) (piece : List Byte) : Puts fn (fn.put piece) piece := ⟨by simp [Out.put], rfl⟩

theorem padFrom (fn : Out) (padwith : Byte) (len : Nat) : Puts fn (padFrom fn padwith len) (padLine padwith len) := by
  fun_induction L4ertl.padFrom fn padwith len with
  | case1 fn len long ih =>
    have split : padLine padwith len = padLine padwith 16 ++ padLine padwith (len - 16) := by
      rw [padLine, padLine, padLine, List.replicate_append_replicate]
      congr 1
      omega
    rw [split]
    exact (put fn _).trans ih
  | case2 fn len short some => exact put fn _
  | case3 fn len short none =>
    rw [Nat.eq_zero_of_not_pos none]
    exact refl fn

theorem writePad (fn : Out) (len : Word) (padwith : Byte) :
    Puts fn (writePad fn len padwith) (padLine padwith len.toInt.toNat) := padFrom fn padwith _

end Puts

def digitChar (upCase : Bool) (d : Nat) : Byte :=
  if d < 10 then byte '0' + BitVec.ofNat 8 d
  else (if upCase then byte 'A' else byte 'a') + BitVec.ofNat 8 (d - 10)

theorem ltostrDigit_eq (upCase : Bool) : ∀ d < 36, ltostrDigit upCase (BitVec.ofNat 8 d) = digitChar upCase d := by
  cases upCase <;> decide

/-- The digits of a number, the first the most significant; 0 has none. -/
def numeral (base : Nat) (upCase : Bool) (m : Nat) : List Byte := (Nat.digits base m).reverse.map (digitChar upCase)

theorem ltostrLoop_numeral {base : Nat} (valid : 2 ≤ base ∧ base ≤ 36) (upCase : Bool) (room : Nat) (i : Word)
    (fits : i.toNat < base ^ room) (tmp : List Byte) :
    ltostrLoop (BitVec.ofNat 32 base) upCase room i tmp = numeral base upCase i.toNat ++ tmp := by
  induction room generalizing i tmp with
  | zero =>
    have zero : i.toNat = 0 := by simpa using fits
    simp [ltostrLoop, numeral, zero]
  | succ room ih =>
    rw [ltostrLoop]
    split
    · next zero => simp [numeral, zero]
    · next nonzero =>
      have small : (BitVec.ofNat 32 base).toNat = base := by rw [BitVec.toNat_ofNat]; omega
      have quotient : (i / BitVec.ofNat 32 base).toNat = i.toNat / base := by rw [BitVec.toNat_udiv, small]
      have less : i.toNat / base < base ^ room := by
        rw [Nat.div_lt_iff_lt_mul (by omega), ← Nat.pow_succ]
        exact fits
      have last : (i % BitVec.ofNat 32 base).setWidth 8 = BitVec.ofNat 8 (i.toNat % base) := by
        apply BitVec.eq_of_toNat_eq
        rw [BitVec.toNat_setWidth, BitVec.toNat_umod, small, BitVec.toNat_ofNat]
      have positive : 0 < i.toNat := Nat.pos_of_ne_zero fun zero => nonzero (BitVec.eq_of_toNat_eq zero)
      have below : i.toNat % base < 36 := Nat.lt_of_lt_of_le (Nat.mod_lt _ (by omega)) valid.2
      rw [ih _ (quotient ▸ less), quotient, last, ltostrDigit_eq upCase _ below]
      conv_rhs => rw [numeral, Nat.digits_def' (by omega) positive]
      simp [numeral]

def layout (left zeros : Bool) (width : Nat) (sign number : List Byte) : List Byte :=
  let missing := width - (sign.length + number.length)
  if left then sign ++ number ++ List.replicate missing (byte ' ')
  else if zeros then sign ++ List.replicate missing (byte '0') ++ number
  else List.replicate missing (byte ' ') ++ sign ++ number

theorem padLine_zero (n : Nat) : padLine (byte '0') n = List.replicate n (byte '0') := by simp [padLine]

theorem padLine_blank {padwith : Byte} (blank : padwith ≠ byte '0') (n : Nat) :
    padLine padwith n = List.replicate n (byte ' ') := by simp [padLine, blank]

namespace Puts
variable (fn : Out) {sz : Word}

theorem fill (padwith : Byte) {width : Word} {todo n : Nat} (wide : width.toNat < 2 ^ 31) (whole : todo = n)
    (one : n ≤ 1) (short : sz.toNat < 2 ^ 31) :
    Puts fn (L4ertl.writePad fn (width - BitVec.ofNat 32 todo - sz) padwith)
      (padLine padwith (width.toNat - (n + sz.toNat))) := by
  have missing : (width - BitVec.ofNat 32 todo - sz).toInt.toNat = width.toNat - (n + sz.toNat) := by
    rw [whole, BitVec.toInt_eq_toNat_cond]
    simp only [BitVec.toNat_sub, BitVec.toNat_ofNat]
    split <;> omega
  exact missing ▸ writePad fn _ padwith

theorem zeros {preci : Word} (precise : preci.toNat < 2 ^ 31) (short : sz.toNat < 2 ^ 31) :
    Puts fn (L4ertl.writePad fn (preci - sz) (byte '0')) (List.replicate (preci.toNat - sz.toNat) (byte '0')) := by
  have puts := fill fn (byte '0') precise rfl (Nat.zero_le 1) short
  rwa [BitVec.sub_zero, Nat.zero_add, padLine_zero] at puts

theorem sign {text : List Byte} {todo : Nat} (whole : todo = text.length) :
    Puts fn (if todo ≠ 0 then fn.put text else fn) text := by
  split
  · exact put fn text
  · next none =>
    rw [List.length_eq_zero_iff.mp (whole.symm.trans (not_not.mp none))]
    exact refl fn

end Puts

section
variable {fn : Out} {l : Conversion} {sign digits rest : List Byte}

theorem write_puts (fn : Out) {s : List Byte} {sz : Word} (split : s = digits ++ rest)
    (size : sz.toNat = digits.length) : ∃ fn', fn.write s sz = some fn' ∧ Puts fn fn' digits := by
  have inside : ¬s.length < sz.toNat := by rw [split, List.length_append, size]; omega
  refine ⟨_, if_neg inside, ?_⟩
  have taken : s.take sz.toNat = digits := by rw [split, size, List.take_left]
  rw [taken]
  exact Puts.put fn digits

theorem printOut_layout (fn : Out) (sign digits rest : List Byte) (hash : l.flagHash = 0)
    (undotted : l.flagDot = false → l.preci = 0) (width : l.width.toNat < 2 ^ 31) (preci : l.preci.toNat < 2 ^ 31)
    (one : sign.length ≤ 1) (short : digits.length < 2 ^ 30) :
    ∃ fn', printOut fn l (sign ++ digits ++ rest) (BitVec.ofNat 32 (sign.length + digits.length)) (sign ≠ []) =
        some fn' ∧
      Puts fn fn' (layout l.flagLeft (!l.flagDot && l.padwith = byte '0') l.width.toNat sign
        (List.replicate (l.preci.toNat - digits.length) (byte '0') ++ digits)) := by
  have size : (BitVec.ofNat 32 (sign.length + digits.length)).toNat = sign.length + digits.length := by
    rw [BitVec.toNat_ofNat]; omega
  unfold printOut
  split
  · next plain =>
    have whole : sign ++ digits ++ rest = (sign ++ digits) ++ rest := rfl
    obtain ⟨fn', run, puts⟩ := write_puts fn whole (size.trans (List.length_append).symm)
    refine ⟨fn', run, ?_⟩
    have number : layout l.flagLeft (!l.flagDot && l.padwith = byte '0') l.width.toNat sign
        (List.replicate (l.preci.toNat - digits.length) (byte '0') ++ digits) = sign ++ digits := by
      simp [layout, plain.1, plain.2]
    rwa [number]
  · next field =>
    extract_lets todo sign' s' sz' width' putSign vs
    have todo_eq : todo = sign.length := by
      cases sign with
      | nil => simp [todo, hash]
      | cons c tail => simpa [todo, hash] using one
    have enough : ¬((sign ++ digits ++ rest).length < todo ∨
        (BitVec.ofNat 32 (sign.length + digits.length)).toNat < todo) := by
      simp only [todo_eq, size, List.length_append]
      omega
    rw [if_neg enough]
    have sign_eq : sign' = sign := by simp [sign', todo_eq]
    have s_eq : s' = digits ++ rest := by simp [s', todo_eq]
    have todo_word : (BitVec.ofNat 32 todo).toNat = sign.length := by rw [BitVec.toNat_ofNat, todo_eq]; omega
    have sz_eq : sz'.toNat = digits.length := by
      simp only [sz', BitVec.toNat_sub, size, todo_word]
      omega
    have putSign_puts (fn : Out) : Puts fn (putSign fn) sign := by
      simp only [putSign, sign_eq]
      exact Puts.sign fn todo_eq
    have vs_eq : vs.toNat = (List.replicate (l.preci.toNat - digits.length) (byte '0') ++ digits).length := by
      simp only [vs, BitVec.lt_def, sz_eq, List.length_append, List.length_replicate]
      split <;> omega
    have vs_lt : vs.toNat < 2 ^ 31 := by
      rw [vs_eq, List.length_append, List.length_replicate]
      omega
    have sz_lt : sz'.toNat < 2 ^ 31 := by omega
    have fill (fn : Out) (padwith : Byte) := Puts.fill fn padwith width todo_eq one sz_lt
    have zeros (fn : Out) := Puts.zeros fn preci sz_lt
    have missing (fn : Out) := Puts.fill fn (byte ' ') width todo_eq one vs_lt
    simp only [sz_eq, vs_eq, padLine_blank (by decide : byte ' ' ≠ byte '0')] at fill zeros missing
    cases left : l.flagLeft with
    | true =>
      obtain ⟨fn', run, puts⟩ := write_puts (writePad (putSign fn) (l.preci - sz') (byte '0')) s_eq sz_eq
      refine ⟨writePad fn' (width' - vs) (byte ' '), by simp [run], ?_⟩
      have whole := (((putSign_puts fn).trans (zeros _)).trans puts).trans (missing fn')
      simpa [layout] using whole
    | false =>
      cases dot : l.flagDot with
      | true =>
        obtain ⟨fn', run, puts⟩ :=
          write_puts (writePad (putSign (writePad fn (width' - vs) (byte ' '))) (l.preci - sz') (byte '0')) s_eq sz_eq
        refine ⟨fn', by simp [run], ?_⟩
        have whole := (((missing fn).trans (putSign_puts _)).trans (zeros _)).trans puts
        simpa [layout] using whole
      | false =>
        have none : l.preci.toNat - digits.length = 0 := by simp [undotted dot]
        by_cases zero : l.padwith = byte '0'
        · obtain ⟨fn', run, puts⟩ := write_puts (writePad (putSign fn) (width' - sz') l.padwith) s_eq sz_eq
          refine ⟨fn', by simp [zero] at run ⊢; exact run, ?_⟩
          have whole := ((putSign_puts fn).trans (fill _ l.padwith)).trans puts
          simpa [layout, none, zero, padLine_zero] using whole
        · obtain ⟨fn', run, puts⟩ := write_puts (putSign (writePad fn (width' - sz') l.padwith)) s_eq sz_eq
          refine ⟨fn', by simp [zero]; exact run, ?_⟩
          have whole := ((fill fn l.padwith).trans (putSign_puts _)).trans puts
          simpa [layout, none, zero, padLine_blank zero] using whole

end
inductive Letter where
  | d | i | u | x | X | o
  deriving DecidableEq, Repr

namespace Letter

def char : Letter → Char
  | d => 'd'
  | i => 'i'
  | u => 'u'
  | x => 'x'
  | X => 'X'
  | o => 'o'

def base : Letter → Nat
  | d | i | u => 10
  | x | X => 16
  | o => 8

def signed : Letter → Bool
  | d | i => true
  | _ => false

def upCase : Letter → Bool
  | X => true
  | _ => false

def magnitude (letter : Letter) (n : Word) : Nat := if letter.signed then n.toInt.natAbs else n.toNat

end Letter

section
variable {fn : Out} {l : Conversion} {n : Word} {args : List VaArg}

/-- The field of a hexadecimal number is widened to its precision beforehand. -/
def widened (letter : Letter) (l : Conversion) : Conversion :=
  { l with width := if letter.base = 16 ∧ l.width < l.preci then l.preci else l.width }

theorem numberForm_long (letter : Letter) (hash : l.flagHash = 0) :
    numberForm (byte letter.char) l = ⟨letter.base, letter.upCase, letter.signed, [], widened letter l⟩ := by
  have unhashed : ¬l.flagHash ≠ 0 := not_not.mpr hash
  cases letter with
  | x =>
    have form : numberForm (byte 'x') l =
        ⟨16, false, false, [], { l with width := if l.width < l.preci then l.preci else l.width }⟩ := if_neg unhashed
    simpa [widened, Letter.char, Letter.base, Letter.signed, Letter.upCase] using form
  | X =>
    have form : numberForm (byte 'X') l =
        ⟨16, true, false, [], { l with width := if l.width < l.preci then l.preci else l.width }⟩ := if_neg unhashed
    simpa [widened, Letter.char, Letter.base, Letter.signed, Letter.upCase] using form
  | o =>
    have form : numberForm (byte 'o') l = ⟨8, false, false, [], l⟩ := if_neg unhashed
    simpa [widened, Letter.char, Letter.base, Letter.signed, Letter.upCase] using form
  | _ => rfl

theorem convert_number (letter : Letter) :
    convert fn (byte letter.char) l args = number fn (numberForm (byte letter.char) l) args := by
  cases letter <;> rfl

theorem number_long {f : NumberForm} (long : f.l.flagLong = 1) :
    number fn f (.word n :: args) =
      (numPrintf fn f (f.inSign && decide (n.toInt < 0))
        (ltostr 123 (if f.inSign ∧ n.toInt < 0 then -n else n) f.base f.upCase)).map (·, args) := by
  simp [number, long, bufSize]

theorem convert_long (letter : Letter) (hash : l.flagHash = 0) (long : l.flagLong = 1) :
    convert fn (byte letter.char) l (.word n :: args) =
      (numPrintf fn ⟨letter.base, letter.upCase, letter.signed, [], widened letter l⟩
        (letter.signed && decide (n.toInt < 0))
        (ltostr 123 (if letter.signed ∧ n.toInt < 0 then -n else n) letter.base letter.upCase)).map (·, args) := by
  rw [convert_number, numberForm_long letter hash, number_long]
  exact long

theorem magnitude_word (letter : Letter) (n : Word) :
    (if letter.signed ∧ n.toInt < 0 then -n else n).toNat = letter.magnitude n := by
  have cond := BitVec.toInt_eq_toNat_cond n
  unfold Letter.magnitude
  cases letter.signed with
  | false => simp
  | true =>
    simp only [true_and, if_true]
    by_cases negative : n.toInt < 0
    · rw [if_pos negative, BitVec.toNat_neg]
      split at cond <;> omega
    · rw [if_neg negative]
      split at cond <;> omega

/-- The digits that the code finds: those of the number, but one zero for 0. -/
theorem ltostr_numeral {base : Nat} (valid : 2 ≤ base ∧ base ≤ 36) (upCase : Bool) (n : Word) :
    ltostr 123 n base upCase = if n.toNat = 0 then [byte '0'] else numeral base upCase n.toNat := by
  have fits : n.toNat < base ^ 122 := by
    have power : 2 ^ 122 ≤ base ^ 122 := Nat.pow_le_pow_left valid.1 122
    have := n.isLt
    omega
  have radix : (if base = 0 ∨ 36 < base then 10 else base) = base := if_neg (by omega)
  simp only [ltostr, radix]
  by_cases zero : n = 0
  · simp [zero]
  · have nonzero : n.toNat ≠ 0 := fun h => zero (BitVec.eq_of_toNat_eq h)
    rw [if_neg zero, if_neg nonzero, ltostrLoop_numeral valid upCase 122 n fits [], List.append_nil]

theorem numeral_length {base : Nat} (valid : 2 ≤ base ∧ base ≤ 36) (upCase : Bool) (n : Word) :
    (numeral base upCase n.toNat).length ≤ 32 := by
  rw [numeral, List.length_map, List.length_reverse, Nat.digits_length_le_iff (by omega)]
  have power : 2 ^ 32 ≤ base ^ 32 := Nat.pow_le_pow_left valid.1 32
  exact Nat.lt_of_lt_of_le n.isLt power

theorem digitChar_zero (upCase : Bool) : ∀ d < 36, digitChar upCase d = byte '0' → d = 0 := by
  cases upCase <;> decide

theorem numeral_ne_zero {base : Nat} (valid : 2 ≤ base ∧ base ≤ 36) (upCase : Bool) {m : Nat} (nonzero : m ≠ 0) :
    numeral base upCase m ≠ [byte '0'] ∧ numeral base upCase m ≠ [] := by
  have some : Nat.digits base m ≠ [] := Nat.digits_ne_nil_iff_ne_zero.mpr nonzero
  refine ⟨fun single => ?_, fun none => some (by simpa [numeral] using none)⟩
  obtain ⟨d, reversed, char⟩ := List.map_eq_singleton_iff.mp single
  have digits : Nat.digits base m = [d] := by rw [← List.reverse_reverse (Nat.digits base m), reversed]; rfl
  have below : d < base := Nat.digits_lt_base (by omega) (digits ▸ List.mem_singleton_self d)
  have last := Nat.getLast_digit_ne_zero base nonzero
  simp only [digits, List.getLast_singleton] at last
  exact last (digitChar_zero upCase d (by omega) char)

/-- The number with as many digits as the precision asks for; without one it is 1. -/
def padded (precision : Nat) (digits : List Byte) : List Byte :=
  List.replicate (precision - digits.length) (byte '0') ++ digits

def signText (letter : Letter) (plus space : Bool) (n : Word) : List Byte :=
  if letter.signed then
    if n.toInt < 0 then [byte '-'] else if plus then [byte '+'] else if space then [byte ' '] else []
  else []

/-- num_printf without `#`: a lone zero behind a precision is not written. -/
theorem numPrintf_eq {base : Nat} {upCase inSign negative : Bool} {digits : List Byte} (hash : l.flagHash = 0) :
    numPrintf fn ⟨base, upCase, inSign, [], l⟩ negative digits =
      let sign :=
        if negative then [byte '-']
        else if inSign ∧ (l.flagSign ∨ l.flagSpace) then [if l.flagSign then byte '+' else byte ' ']
        else []
      printOut fn l (sign ++ digits)
        (BitVec.ofNat 32 (sign.length + if l.flagDot ∧ digits = [byte '0'] then 0 else digits.length)) (sign ≠ []) := by
  have same : { l with flagHash := 0#8 } = l := by
    rw [show (0#8 : Byte) = l.flagHash from hash.symm]
  by_cases zero : l.flagDot ∧ digits = [byte '0']
  · simp only [numPrintf, if_pos zero, same, hash, List.append_nil, List.length_nil, ne_eq, not_true_eq_false, or_false,
      ite_self]
  · simp only [numPrintf, if_neg zero, List.append_nil, List.length_nil, Nat.zero_add]

theorem signText_eq (letter : Letter) (plus space : Bool) (n : Word) :
    (if (letter.signed && decide (n.toInt < 0)) = true then [byte '-']
      else if letter.signed ∧ (plus ∨ space) then [if plus then byte '+' else byte ' '] else []) =
      signText letter plus space n := by
  unfold signText
  cases letter.signed <;> cases plus <;> cases space <;> simp

theorem signText_length (letter : Letter) (plus space : Bool) (n : Word) :
    (signText letter plus space n).length ≤ 1 := by
  unfold signText
  split_ifs <;> simp

theorem base_valid (letter : Letter) : 2 ≤ letter.base ∧ letter.base ≤ 36 := by
  cases letter <;> decide

theorem numPrintf_layout (fn : Out) (n : Word) (letter : Letter) (hash : l.flagHash = 0)
    (undotted : l.flagDot = false → l.preci = 0) (width : l.width.toNat < 2 ^ 31) (preci : l.preci.toNat < 2 ^ 31) :
    ∃ fn', numPrintf fn ⟨letter.base, letter.upCase, letter.signed, [], l⟩ (letter.signed && decide (n.toInt < 0))
        (ltostr 123 (if letter.signed ∧ n.toInt < 0 then -n else n) letter.base letter.upCase) = some fn' ∧
      Puts fn fn' (layout l.flagLeft (!l.flagDot && l.padwith = byte '0') l.width.toNat
        (signText letter l.flagSign l.flagSpace n)
        (padded (if l.flagDot then l.preci.toNat else 1) (numeral letter.base letter.upCase (letter.magnitude n)))) := by
  have valid := base_valid letter
  have length := numeral_length valid letter.upCase (if letter.signed ∧ n.toInt < 0 then -n else n)
  rw [numPrintf_eq hash, ltostr_numeral valid]
  simp only [signText_eq, magnitude_word] at length ⊢
  generalize letter.magnitude n = m at length ⊢
  generalize sign_eq : signText letter l.flagSign l.flagSpace n = sign
  have one : sign.length ≤ 1 := sign_eq ▸ signText_length letter _ _ n
  have number := numeral_ne_zero valid letter.upCase (m := m)
  have empty : numeral letter.base letter.upCase 0 = [] := by simp [numeral]
  by_cases zero : m = 0
  · subst zero
    cases dot : l.flagDot with
    | true =>
      have laid := printOut_layout fn sign [] [byte '0']
        hash undotted width preci one (by simp)
      simpa [padded, dot, empty] using laid
    | false =>
      have laid := printOut_layout fn sign [byte '0'] []
        hash undotted width preci one (by simp)
      simpa [padded, dot, empty, undotted dot] using laid
  · obtain ⟨notZero, some⟩ := number zero
    have positive := List.length_pos_of_ne_nil some
    have laid := printOut_layout fn sign (numeral letter.base letter.upCase m) []
      hash undotted width preci one (by omega)
    cases dot : l.flagDot with
    | true => simpa [padded, dot, zero, notZero] using laid
    | false =>
      have enough : 1 - (numeral letter.base letter.upCase m).length = 0 := by omega
      simpa [padded, dot, zero, notZero, undotted dot, enough] using laid

end

end L4ertl
