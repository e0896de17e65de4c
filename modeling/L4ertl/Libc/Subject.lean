import Mathlib.Data.List.DropRight
import L4ertl.Libc.Strtol

/-!
The conversions of ISO C: the subject sequence of a string, its value, and that strtoul and
strtol return them.
-/
namespace L4ertl
open Numerals

def IsDigit (radix : Nat) (c : Byte) : Prop := ∃ d, digitValue c = some d ∧ d < radix

def hexPrefixes : List (List Byte) := [[digitZero, 0x78#8], [digitZero, 0x58#8]]

/-- The base in which digits stand; base 0 reads a constant of C. -/
def radixOf (base : Nat) (pre digits : List Byte) : Nat :=
  if base ≠ 0 then base
  else if pre ≠ [] then 16
  else if digits.head? = some digitZero then 8
  else 10

/-- The expected form: an optional sign, a prefix where the base allows one, digits. -/
structure Numeral (base : Nat) (sign pre digits : List Byte) : Prop where
  signed : sign = [] ∨ sign = [minusSign] ∨ sign = [plusSign]
  prefixed : pre = [] ∨ (base = 0 ∨ base = 16) ∧ pre ∈ hexPrefixes
  nonempty : digits ≠ []
  inRadix : ∀ c ∈ digits, IsDigit (radixOf base pre digits) c

/-- The longest beginning of the text that has the expected form. -/
structure Subject (base : Nat) (text sign pre digits rest : List Byte) : Prop where
  split : text = sign ++ pre ++ digits ++ rest
  numeral : Numeral base sign pre digits
  longest : ∀ sign' pre' digits' rest', text = sign' ++ pre' ++ digits' ++ rest' →
    Numeral base sign' pre' digits' → (sign' ++ pre' ++ digits').length ≤ (sign ++ pre ++ digits).length

def magnitude (base : Nat) (pre digits : List Byte) : Nat :=
  value (radixOf base pre digits) (digits.filterMap digitValue)

def unsignedResult (sign : List Byte) (m : Nat) : Word :=
  if 2 ^ 32 ≤ m then ulongMax else if sign = [minusSign] then -BitVec.ofNat 32 m else BitVec.ofNat 32 m

def signedResult (sign : List Byte) (m : Nat) : Int :=
  max (-2 ^ 31) (min (2 ^ 31 - 1) (if sign = [minusSign] then -m else m))

/-- What a conversion of the string must yield: the result for the subject sequence and
    the place behind it, or 0 and the whole string if there is none. -/
structure Converts {R : Type} (zero : R) (result : List Byte → Nat → R) (base : Nat) (ptr : List Byte) (v : R)
    (endptr : List Byte) : Prop where
  subject : ∀ sign pre digits rest, Subject base (ptr.dropWhile fun c => Space c) sign pre digits rest →
    v = result sign (magnitude base pre digits) ∧ endptr = rest
  nothing : (¬∃ sign pre digits rest, Subject base (ptr.dropWhile fun c => Space c) sign pre digits rest) →
    v = zero ∧ endptr = ptr

theorem isDigit_iff {base : Nat} (bounded : base ≤ 36) (c : Byte) : IsDigit base c ↔ inBase base c = true := by
  simp only [IsDigit, digitValue_eq, inBase, decide_eq_true_eq]
  split
  · simp
  · simp only [reduceCtorEq, false_and, exists_false, false_iff]
    omega

theorem notSign : ∀ c : Byte, inBase 36 c = true → c ≠ minusSign ∧ c ≠ plusSign := by decide +kernel

def signOf (text : List Byte) : List Byte :=
  if byteAt text 0 = minusSign then [minusSign] else if byteAt text 0 = plusSign then [plusSign] else []

def afterSign (text : List Byte) : List Byte :=
  if byteAt text 0 = minusSign ∨ byteAt text 0 = plusSign then text.drop 1 else text

theorem sign_split (text : List Byte) : text = signOf text ++ afterSign text := by
  cases text with
  | nil => simp [signOf, afterSign, byteAt, nul, minusSign, plusSign]
  | cons c rest =>
    by_cases minus : c = minusSign
    · simp [signOf, afterSign, byteAt, minus]
    · by_cases plus : c = plusSign
      · simp [signOf, afterSign, byteAt, plus, minusSign, plusSign]
      · simp [signOf, afterSign, byteAt, minus, plus]

section
variable {base : Nat} {sign pre digits rest text : List Byte}

theorem inBase_mono {c : Byte} {small large : Nat} (le : small ≤ large) (digit : inBase small c = true) :
    inBase large c = true := by
  simp only [inBase, decide_eq_true_eq] at digit ⊢
  omega

theorem radixOf_bounded (bounded : base ≤ 36) (pre digits : List Byte) : radixOf base pre digits ≤ 36 := by
  unfold radixOf
  split_ifs <;> omega

theorem numeral_digit (bounded : base ≤ 36) (numeral : Numeral base sign pre digits) {c : Byte}
    (mem : c ∈ digits) : inBase (radixOf base pre digits) c = true :=
  (isDigit_iff (radixOf_bounded bounded pre digits) c).mp (numeral.inRadix c mem)

theorem numeral_head (rest : List Byte) (bounded : base ≤ 36) (numeral : Numeral base sign pre digits) :
    ∃ c tail, pre ++ digits ++ rest = c :: tail ∧ inBase 36 c = true := by
  rcases numeral.prefixed with rfl | ⟨-, mem⟩
  · obtain ⟨c, tail, rfl⟩ := List.exists_cons_of_ne_nil numeral.nonempty
    refine ⟨c, tail ++ rest, rfl, inBase_mono (radixOf_bounded bounded _ _) (numeral_digit bounded numeral ?_)⟩
    exact List.mem_cons_self
  · simp only [hexPrefixes, List.mem_cons, List.not_mem_nil, or_false] at mem
    rcases mem with rfl | rfl
    · exact ⟨digitZero, _, rfl, by decide⟩
    · exact ⟨digitZero, _, rfl, by decide⟩

theorem numeral_sign (bounded : base ≤ 36) (numeral : Numeral base sign pre digits)
    (split : text = sign ++ pre ++ digits ++ rest) : sign = signOf text ∧ afterSign text = pre ++ digits ++ rest := by
  obtain ⟨c, tail, body, digit⟩ := numeral_head rest bounded numeral
  obtain ⟨noMinus, noPlus⟩ := notSign c digit
  have text_eq : text = sign ++ c :: tail := by rw [split, ← body]; simp
  rw [body, text_eq]
  rcases numeral.signed with rfl | rfl | rfl
  · simp [signOf, afterSign, byteAt, noMinus, noPlus]
  · simp [signOf, afterSign, byteAt]
  · simp [signOf, afterSign, byteAt, minusSign, plusSign]

structure Based (base : Nat) (orig : List Byte) (radix : Nat) (pre nptr : List Byte) : Prop where
  split : orig = pre ++ nptr
  positive : 0 < radix
  bounded : radix ≤ 36
  same : ∀ digits, digits ≠ [] → digits <+: nptr → radixOf base pre digits = radix
  prefixed : pre = [] ∨ (base = 0 ∨ base = 16) ∧ pre ∈ hexPrefixes ∧ nptr.takeWhile (inBase radix) ≠ []
  others : ∀ sign pre' digits rest, Numeral base sign pre' digits → orig = pre' ++ digits ++ rest →
    pre' = pre ∨ pre' = [] ∧ digits.length = 1 ∧ pre ≠ []

theorem isxdigit_eq (c : Byte) : isxdigit c = inBase 16 c := by
  rw [Bool.eq_iff_iff, isxdigit_iff, inBase, decide_eq_true_eq]

/-- skip0x takes the prefix if and only if a hexadecimal digit follows it. -/
theorem skip0x_spec (radix : Nat) (orig : List Byte) (zero : byteAt orig 0 = digitZero) :
    (∃ pre ∈ hexPrefixes, ∃ c rest, orig = pre ++ c :: rest ∧ inBase 16 c = true ∧
      skip0x radix orig = (16, c :: rest)) ∨
    (∀ pre ∈ hexPrefixes, ∀ c rest, orig = pre ++ c :: rest → inBase 16 c = false) ∧
      skip0x radix orig = (radix, orig) := by
  by_cases hex : (byteAt orig 1 = 0x78#8 ∨ byteAt orig 1 = 0x58#8) ∧ isxdigit (byteAt orig 2)
  · refine .inl ?_
    obtain ⟨marker, digit⟩ := hex
    match orig, zero, marker, digit with
    | [], _, marker, _ => simp [byteAt, nul] at marker
    | [_], _, marker, _ => simp [byteAt, nul] at marker
    | [_, _], _, _, digit => exact absurd (show isxdigit nul = true from digit) (by decide)
    | z :: x :: c :: rest, zero, marker, digit =>
      refine ⟨[z, x], ?_, c, rest, rfl, (isxdigit_eq c).symm.trans digit, ?_⟩
      · have first : z = digitZero := by simpa [byteAt] using zero
        simpa [hexPrefixes, byteAt, first] using marker
      · rw [skip0x, if_pos ⟨marker, digit⟩]
        rfl
  · refine .inr ⟨fun pre mem c rest split => ?_, by rw [skip0x, if_neg hex]⟩
    simp only [hexPrefixes, List.mem_cons, List.not_mem_nil, or_false] at mem
    rw [← isxdigit_eq]
    rcases mem with rfl | rfl
    · subst split; simpa [byteAt] using hex
    · subst split; simpa [byteAt] using hex

theorem hexPrefixes_cases {p : List Byte} (mem : p ∈ hexPrefixes) :
    ∃ x, p = [digitZero, x] ∧ (x = 0x78#8 ∨ x = 0x58#8) := by
  simp only [hexPrefixes, List.mem_cons, List.not_mem_nil, or_false] at mem
  rcases mem with rfl | rfl
  · exact ⟨_, rfl, .inl rfl⟩
  · exact ⟨_, rfl, .inr rfl⟩

theorem based_hex {c : Byte} (hex : base = 0 ∨ base = 16) (mem : pre ∈ hexPrefixes)
    (digit : inBase 16 c = true) : Based base (pre ++ c :: rest) 16 pre (c :: rest) := by
  obtain ⟨x, rfl, marker⟩ := hexPrefixes_cases mem
  refine ⟨rfl, by decide, by decide, fun digits _ _ => ?_, .inr ⟨hex, mem, by simp [digit]⟩, ?_⟩
  · rcases hex with rfl | rfl <;> simp [radixOf]
  · intro sign pre' digits rest' numeral split
    rcases numeral.prefixed with rfl | ⟨-, mem'⟩
    · refine .inr ⟨rfl, ?_, List.cons_ne_nil _ _⟩
      match digits, numeral, split with
      | [], numeral, _ => exact absurd rfl numeral.nonempty
      | [d], _, _ => rfl
      | d :: e :: digits, numeral, split =>
        -- the second digit would be the x
        have second : x = e := by simp at split; exact split.2.1
        have inside := numeral_digit (hex.elim (by omega) (by omega)) numeral (c := e) (by simp)
        have radix : radixOf base [] (d :: e :: digits) ≤ 16 := by
          unfold radixOf
          split_ifs <;> omega
        have sixteen := inBase_mono radix inside
        rcases marker with rfl | rfl <;> subst second <;> exact absurd sixteen (by decide)
    · obtain ⟨x', rfl, -⟩ := hexPrefixes_cases mem'
      refine .inl ?_
      simp at split
      rw [split.1]

theorem based_plain {radix : Nat} {orig : List Byte} (positive : 0 < radix) (bounded : radix ≤ 36)
    (radix_eq : ∀ digits, digits ≠ [] → digits <+: orig → radixOf base [] digits = radix)
    (plain : base = 0 ∨ base = 16 → ∀ pre ∈ hexPrefixes, ∀ c rest, orig = pre ++ c :: rest → inBase 16 c = false) :
    Based base orig radix [] orig := by
  refine ⟨rfl, positive, bounded, radix_eq, .inl rfl, fun sign pre' digits rest' numeral split => .inl ?_⟩
  rcases numeral.prefixed with rfl | ⟨hex, mem⟩
  · rfl
  · obtain ⟨c, tail, rfl⟩ := List.exists_cons_of_ne_nil numeral.nonempty
    have outside := plain hex pre' mem c (tail ++ rest') (by rw [split]; simp)
    have inside := numeral_digit (hex.elim (by omega) (by omega)) numeral (c := c) (by simp)
    have sixteen : radixOf base pre' (c :: tail) = 16 := by
      obtain ⟨x, rfl, -⟩ := hexPrefixes_cases mem
      rcases hex with rfl | rfl <;> simp [radixOf]
    rw [sixteen, outside] at inside
    cases inside

theorem byteAt_prefix {digits orig : List Byte} (nonempty : digits ≠ []) (read : digits <+: orig) :
    digits.head? = some (byteAt orig 0) := by
  obtain ⟨tail, rfl⟩ := read
  obtain ⟨c, digits, rfl⟩ := List.exists_cons_of_ne_nil nonempty
  rfl

theorem not_prefixed {orig : List Byte} (nonzero : byteAt orig 0 ≠ digitZero) :
    ∀ pre ∈ hexPrefixes, ∀ c rest, orig = pre ++ c :: rest → inBase 16 c = false := by
  intro pre mem c rest split
  obtain ⟨x, rfl, -⟩ := hexPrefixes_cases mem
  exact absurd (by rw [split]; rfl) nonzero

theorem strtoulBase_skips {radix : Nat} {orig : List Byte} (hex : base = 0 ∨ base = 16)
    (zero : byteAt orig 0 = digitZero) (positive : 0 < radix) (bounded : radix ≤ 36)
    (radix_eq : ∀ digits, digits ≠ [] → digits <+: orig → radixOf base [] digits = radix) :
    ∃ radix' pre nptr, some (skip0x radix orig) = some (radix', nptr) ∧ Based base orig radix' pre nptr := by
  rcases skip0x_spec radix orig zero with ⟨pre, mem, c, rest, rfl, digit, skipped⟩ | ⟨plain, skipped⟩
  · exact ⟨16, pre, c :: rest, congrArg some skipped, based_hex hex mem digit⟩
  · exact ⟨radix, [], orig, congrArg some skipped, based_plain positive bounded radix_eq fun _ => plain⟩

theorem strtoulBase_given {orig : List Byte} (given : base ≠ 0) (valid : 2 ≤ base ∧ base ≤ 36)
    (other : ¬(base = 16 ∧ byteAt orig 0 = digitZero)) : strtoulBase base orig = some (base, orig) := by
  have inRange : ¬34#32 < BitVec.ofInt 32 base - 2#32 := by
    simp only [BitVec.lt_def, BitVec.ofInt_natCast, BitVec.toNat_sub, BitVec.toNat_ofNat]
    omega
  have other' : ¬((base : Int) = 16 ∧ byteAt orig 0 = digitZero) := by exact_mod_cast other
  rw [strtoulBase, if_neg other', if_pos (by exact_mod_cast given), if_neg inRange, Int.toNat_natCast]

theorem strtoulBase_spec (valid : base = 0 ∨ 2 ≤ base ∧ base ≤ 36) (orig : List Byte) :
    ∃ radix pre nptr, strtoulBase base orig = some (radix, nptr) ∧ Based base orig radix pre nptr := by
  by_cases auto : base = 0
  · subst auto
    by_cases zero : byteAt orig 0 = digitZero
    · have octal : ∀ digits, digits ≠ [] → digits <+: orig → radixOf 0 [] digits = 8 := by
        intro digits nonempty read
        simp [radixOf, byteAt_prefix nonempty read, zero]
      simpa [strtoulBase, zero] using strtoulBase_skips (.inl rfl) zero (by decide) (by decide) octal
    · refine ⟨10, [], orig, by simp [strtoulBase, zero], ?_⟩
      refine based_plain (by decide) (by decide) (fun digits nonempty read => ?_) fun _ => not_prefixed zero
      simp [radixOf, byteAt_prefix nonempty read, zero]
  · have radix_eq : ∀ digits, digits ≠ [] → digits <+: orig → radixOf base [] digits = base := by
      intro digits _ _
      rw [radixOf, if_pos auto]
    by_cases hex : base = 16 ∧ byteAt orig 0 = digitZero
    · obtain ⟨rfl, zero⟩ := hex
      rw [strtoulBase, if_pos ⟨rfl, zero⟩]
      exact strtoulBase_skips (.inr rfl) zero (by decide) (by decide) radix_eq
    · refine ⟨base, [], orig, strtoulBase_given auto (by omega) hex, ?_⟩
      refine based_plain (by omega) (by omega) radix_eq fun hexBase => not_prefixed fun zero => ?_
      exact hex ⟨hexBase.resolve_left auto, zero⟩

section
variable {radix : Nat} {nptr : List Byte}

theorem read_whole (based : Based base (afterSign text) radix pre nptr) :
    text = signOf text ++ pre ++ nptr.takeWhile (inBase radix) ++ nptr.dropWhile (inBase radix) := by
  rw [List.append_assoc, List.takeWhile_append_dropWhile, List.append_assoc, ← based.split]
  exact sign_split text

theorem read_numeral (based : Based base (afterSign text) radix pre nptr)
    (some : nptr.takeWhile (inBase radix) ≠ []) : Numeral base (signOf text) pre (nptr.takeWhile (inBase radix)) := by
  refine ⟨?_, based.prefixed.imp_right fun ⟨hex, mem, _⟩ => ⟨hex, mem⟩, some, fun c mem => ?_⟩
  · unfold signOf
    split_ifs <;> simp
  · rw [based.same _ some (List.takeWhile_prefix _), isDigit_iff based.bounded]
    exact List.mem_takeWhile_imp mem

theorem numeral_within (bounded : base ≤ 36) (based : Based base (afterSign text) radix pre nptr)
    (numeral : Numeral base sign pre digits) (split : text = sign ++ pre ++ digits ++ rest) :
    digits <+: nptr.takeWhile (inBase radix) := by
  have body := (numeral_sign bounded numeral split).2
  rw [based.split, List.append_assoc, List.append_cancel_left_eq] at body
  have radix_eq := based.same digits numeral.nonempty ⟨rest, body.symm⟩
  have inside : ∀ c ∈ digits, inBase radix c = true := fun c mem => radix_eq ▸ numeral_digit bounded numeral mem
  rw [body, List.takeWhile_append_of_pos inside]
  exact List.prefix_append _ _

theorem subject_reads (bounded : base ≤ 36) (based : Based base (afterSign text) radix pre nptr)
    {pre' : List Byte} (subject : Subject base text sign pre' digits rest) :
    sign = signOf text ∧ pre' = pre ∧ digits = nptr.takeWhile (inBase radix) ∧
      rest = nptr.dropWhile (inBase radix) := by
  obtain ⟨sign_eq, body⟩ := numeral_sign bounded subject.numeral subject.split
  have longest := subject.longest _ _ _ _ (read_whole based)
  rcases based.others sign pre' digits rest subject.numeral body with rfl | ⟨rfl, one, taken⟩
  · have within := numeral_within bounded based subject.numeral subject.split
    have some : nptr.takeWhile (inBase radix) ≠ [] := by
      intro none
      rw [none, List.prefix_nil] at within
      exact subject.numeral.nonempty within
    have enough := longest (read_numeral based some)
    have digits_eq := within.eq_of_length_le (by simp [sign_eq] at enough; omega)
    refine ⟨sign_eq, rfl, digits_eq, ?_⟩
    rw [based.split, List.append_assoc, List.append_cancel_left_eq, ← List.takeWhile_append_dropWhile
      (p := inBase radix) (l := nptr), ← digits_eq, List.append_cancel_left_eq] at body
    exact body.symm
  · obtain ⟨-, mem, some⟩ := based.prefixed.resolve_left taken
    obtain ⟨x, rfl, -⟩ := hexPrefixes_cases mem
    have enough := longest (read_numeral based some)
    simp [sign_eq, one] at enough

theorem read_subject (bounded : base ≤ 36) (based : Based base (afterSign text) radix pre nptr)
    (some : nptr.takeWhile (inBase radix) ≠ []) :
    Subject base text (signOf text) pre (nptr.takeWhile (inBase radix)) (nptr.dropWhile (inBase radix)) := by
  refine ⟨read_whole based, read_numeral based some, fun sign' pre' digits' rest' split numeral => ?_⟩
  obtain ⟨rfl, body⟩ := numeral_sign bounded numeral split
  rcases based.others _ pre' digits' rest' numeral body with rfl | ⟨rfl, one, -⟩
  · have within := (numeral_within bounded based numeral split).length_le
    simp only [List.length_append]
    omega
  · have := List.length_pos_of_ne_nil some
    simp only [List.length_append, List.length_nil, one]
    omega

theorem converts_of_read {R : Type} {zero v : R} {result : List Byte → Nat → R} {ptr endptr : List Byte}
    (bounded : base ≤ 36) (based : Based base (afterSign (ptr.dropWhile isspace)) radix pre nptr)
    (yields : (v, endptr) = if nptr.takeWhile (inBase radix) = [] then (zero, ptr) else
      (result (signOf (ptr.dropWhile isspace)) (magnitude base pre (nptr.takeWhile (inBase radix))),
        nptr.dropWhile (inBase radix))) : Converts zero result base ptr v endptr := by
  have space : (fun c => decide (Space c)) = isspace := by
    funext c
    rw [Bool.eq_iff_iff, decide_eq_true_eq, isspace_iff]
  constructor
  · intro sign pre' digits rest subject
    rw [space] at subject
    obtain ⟨rfl, rfl, rfl, rfl⟩ := subject_reads bounded based subject
    rw [if_neg subject.numeral.nonempty] at yields
    exact Prod.mk.inj yields
  · intro none
    rw [space] at none
    by_cases some : nptr.takeWhile (inBase radix) = []
    · rw [if_pos some] at yields
      exact Prod.mk.inj yields
    · exact absurd ⟨_, _, _, _, read_subject bounded based some⟩ none

theorem magnitude_read (based : Based base (afterSign text) radix pre nptr)
    (some : nptr.takeWhile (inBase radix) ≠ []) :
    magnitude base pre (nptr.takeWhile (inBase radix)) =
      value radix ((nptr.takeWhile (inBase radix)).filterMap digitValue) := by
  rw [magnitude, based.same _ some (List.takeWhile_prefix _)]

theorem stopped_iff (based : Based base (afterSign text) radix pre nptr) :
    (nptr.dropWhile (inBase radix)).length = (afterSign text).length ↔ nptr.takeWhile (inBase radix) = [] := by
  have lengths := congrArg List.length (List.takeWhile_append_dropWhile (p := inBase radix) (l := nptr))
  rw [List.length_append] at lengths
  rw [based.split, List.length_append]
  constructor
  · intro same
    exact List.eq_nil_of_length_eq_zero (by omega)
  · intro none
    rcases based.prefixed with rfl | ⟨-, -, some⟩
    · rw [none] at lengths
      simpa using lengths
    · exact absurd none some

theorem strtoul_read {ptr : List Byte} (based : Based base (afterSign (ptr.dropWhile isspace)) radix pre nptr)
    (chosen : strtoulBase base (afterSign (ptr.dropWhile isspace)) = some (radix, nptr)) :
    strtoul ptr base = if nptr.takeWhile (inBase radix) = [] then (0, some ptr) else
      (unsignedResult (signOf (ptr.dropWhile isspace)) (magnitude base pre (nptr.takeWhile (inBase radix))),
        some (nptr.dropWhile (inBase radix))) := by
  obtain ⟨v, run, kept⟩ := strtoulLoop_run based.positive based.bounded nptr 0 false
  unfold strtoul
  dsimp only
  rw [← afterSign, chosen]
  dsimp only
  rw [run]
  dsimp only
  by_cases none : nptr.takeWhile (inBase radix) = []
  · rw [if_pos ((stopped_iff based).mpr none), if_pos none, none]
    simp [valueFrom]
  · rw [if_neg (mt (stopped_iff based).mp none), if_neg none, magnitude_read based none]
    generalize (nptr.takeWhile (inBase radix)).filterMap digitValue = ds at kept
    change valueFrom radix 0 ds < 2 ^ 32 → v.toNat = valueFrom radix 0 ds at kept
    have minus : signOf (ptr.dropWhile isspace) = [minusSign] ↔ byteAt (ptr.dropWhile isspace) 0 = minusSign := by
      unfold signOf
      split_ifs <;> simp_all [minusSign, plusSign]
    by_cases room : valueFrom radix 0 ds < 2 ^ 32
    · have v_eq : v = BitVec.ofNat 32 (valueFrom radix 0 ds) := by rw [← kept room, BitVec.ofNat_toNat, BitVec.setWidth_eq]
      have fits : ¬4294967296 ≤ valueFrom radix 0 ds := Nat.not_le.mpr room
      simp [unsignedResult, value, minus, fits, v_eq]
    · have past : 4294967296 ≤ valueFrom radix 0 ds := Nat.not_lt.mp room
      simp [unsignedResult, value, past]

end

end

theorem strtol_cut (neg : Prop) [Decidable neg] (sign : List Byte) (sign_iff : sign = [minusSign] ↔ neg) (m : Nat) :
    let v := unsignedResult [] m
    (if absLongMin ≤ v then if v = absLongMin ∧ neg then v else if neg then longMin else longMax
      else if neg then -v else v).toInt = signedResult sign m := by
  intro v
  have v_eq : v = if 2 ^ 32 ≤ m then ulongMax else BitVec.ofNat 32 m := if_congr .rfl rfl (if_neg (by simp))
  have reach : absLongMin ≤ v ↔ 2 ^ 31 ≤ m := by
    rw [v_eq, BitVec.le_def]
    split_ifs with past
    · exact iff_of_true (by decide) (by omega)
    · rw [BitVec.toNat_ofNat, Nat.mod_eq_of_lt (by omega)]
      rfl
  have edge : v = absLongMin ↔ m = 2 ^ 31 := by
    rw [v_eq, ← BitVec.toNat_inj]
    split_ifs with past
    · exact iff_of_false (by decide) (by omega)
    · rw [BitVec.toNat_ofNat, Nat.mod_eq_of_lt (by omega)]
      rfl
  have small : m < 2 ^ 31 → v.toInt = m := by
    intro below
    rw [v_eq, if_neg (by omega), toInt_low below]
  simp only [reach, edge, signedResult, sign_iff]
  by_cases large : 2 ^ 31 ≤ m
  · rw [if_pos large]
    by_cases minus : neg
    · rw [if_pos minus, if_pos minus]
      split_ifs with exactly
      · rw [edge.mpr exactly.1, exactly.1]
        decide
      · rw [show longMin.toInt = -2 ^ 31 by decide]
        omega
    · rw [if_neg (fun h => minus h.2), if_neg minus, if_neg minus, show longMax.toInt = 2 ^ 31 - 1 by decide]
      omega
  · rw [if_neg large]
    have value := small (Nat.not_le.mp large)
    by_cases minus : neg
    · rw [if_pos minus, if_pos minus, BitVec.toInt_neg_of_ne_intMin, value]
      · omega
      · intro least
        exact large (edge.mp least ▸ Nat.le_refl _)
    · rw [if_neg minus, if_neg minus, value]
      omega

theorem strtoul_converts {base : Nat} (valid : base = 0 ∨ 2 ≤ base ∧ base ≤ 36) (ptr : List Byte) :
    ∃ v endptr, strtoul ptr base = (v, some endptr) ∧ Converts 0 unsignedResult base ptr v endptr := by
  obtain ⟨radix, pre, nptr, chosen, based⟩ := strtoulBase_spec valid (afterSign (ptr.dropWhile isspace))
  have read := strtoul_read based chosen
  by_cases none : nptr.takeWhile (inBase radix) = []
  · rw [if_pos none] at read
    exact ⟨0, ptr, read, converts_of_read (by omega) based (by rw [if_pos none])⟩
  · rw [if_neg none] at read
    exact ⟨_, _, read, converts_of_read (by omega) based (by rw [if_neg none])⟩

theorem not_space_of_isalnum : ∀ c : Byte, isalnum c = true → isspace c = false ∧ c ≠ minusSign ∧ c ≠ plusSign := by
  decide +kernel

def strtolRest (text : List Byte) : List Byte :=
  if byteAt text 0 = minusSign ∧ isalnum (byteAt text 1) then text.drop 1 else text

theorem strtolRest_clean {text : List Byte} (clean : text.dropWhile isspace = text) :
    (strtolRest text).dropWhile isspace = strtolRest text ∧ afterSign (strtolRest text) = afterSign text := by
  unfold strtolRest
  split_ifs with neg
  · obtain ⟨minus, alnum⟩ := neg
    match text, minus, alnum with
    | [], _, alnum => exact absurd (show isalnum nul = true from alnum) (by decide)
    | [_], _, alnum => exact absurd (show isalnum nul = true from alnum) (by decide)
    | s :: c :: rest, minus, alnum =>
      obtain ⟨notSpace, noMinus, noPlus⟩ := not_space_of_isalnum c alnum
      have first : s = minusSign := minus
      subst first
      exact ⟨by simp [notSpace], by simp [afterSign, byteAt, noMinus, noPlus]⟩
  · exact ⟨clean, rfl⟩

theorem signOf_minus (text : List Byte) : signOf text = [minusSign] ↔ byteAt text 0 = minusSign := by
  unfold signOf
  split_ifs with minus plus
  · exact iff_of_true rfl minus
  · exact iff_of_false (by decide) minus
  · exact iff_of_false (by simp) minus

/-- Where there are digits, strtol itself takes every minus sign. -/
theorem strtolRest_sign {base radix : Nat} {text pre nptr : List Byte} (valid : base ≤ 36)
    (based : Based base (afterSign text) radix pre nptr) (some : nptr.takeWhile (inBase radix) ≠ []) :
    signOf (strtolRest text) ≠ [minusSign] ∧
      (signOf text = [minusSign] ↔ byteAt text 0 = minusSign ∧ isalnum (byteAt text 1)) := by
  obtain ⟨c, tail, body, digit⟩ := numeral_head (nptr.dropWhile (inBase radix)) valid (read_numeral based some)
  rw [List.append_assoc, List.takeWhile_append_dropWhile, ← based.split] at body
  simp only [ne_eq, signOf_minus]
  by_cases minus : byteAt text 0 = minusSign
  · have after : text.drop 1 = c :: tail := by rwa [afterSign, if_pos (.inl minus)] at body
    have second : byteAt text 1 = c := by
      have := congrArg (fun l : List Byte => byteAt l 0) after
      simpa [byteAt] using this
    have alnum : isalnum (byteAt text 1) = true := by simpa [second, isalnum_iff, inBase] using digit
    rw [strtolRest, if_pos ⟨minus, alnum⟩, after]
    exact ⟨(notSign c digit).1, iff_of_true minus ⟨minus, alnum⟩⟩
  · rw [strtolRest, if_neg fun h => minus h.1]
    exact ⟨minus, iff_of_false minus fun h => minus h.1⟩

theorem afterSign_length_le (text : List Byte) : (afterSign text).length ≤ text.length := by
  unfold afterSign
  split_ifs <;> simp

theorem strtol_read {base radix : Nat} {pre nptr ptr : List Byte} (valid : base ≤ 36)
    (based : Based base (afterSign (ptr.dropWhile isspace)) radix pre nptr)
    (chosen : strtoulBase base (afterSign (ptr.dropWhile isspace)) = some (radix, nptr)) :
    ∃ v endptr, strtol ptr base = (v, some endptr) ∧
      (v.toInt, endptr) = if nptr.takeWhile (inBase radix) = [] then (0, ptr) else
        (signedResult (signOf (ptr.dropWhile isspace)) (magnitude base pre (nptr.takeWhile (inBase radix))),
          nptr.dropWhile (inBase radix)) := by
  obtain ⟨clean, after⟩ := strtolRest_clean (List.dropWhile_idempotent isspace ptr)
  have based' := based
  rw [← after, ← clean] at chosen based'
  have read := strtoul_read based' chosen
  rw [clean] at read
  generalize text_eq : ptr.dropWhile isspace = text at based read after clean ⊢
  have run {v : Word} {e : List Byte} (result : strtoul (strtolRest text) base = (v, some e)) : strtol ptr base =
      (if absLongMin ≤ v then
          if v = absLongMin ∧ byteAt text 0 = minusSign ∧ isalnum (byteAt text 1) then v
          else if byteAt text 0 = minusSign ∧ isalnum (byteAt text 1) then longMin else longMax
        else if byteAt text 0 = minusSign ∧ isalnum (byteAt text 1) then -v else v,
        some (if e.length = (strtolRest text).length then ptr else e)) := by
    unfold strtol
    dsimp only
    rw [text_eq, ← strtolRest, result]
    rfl
  by_cases none : nptr.takeWhile (inBase radix) = []
  · rw [if_pos none] at read ⊢
    exact ⟨0, ptr, by simp [run read, absLongMin], rfl⟩
  · rw [if_neg none] at read ⊢
    obtain ⟨plain, sign_iff⟩ := strtolRest_sign valid based none
    have moved : (nptr.dropWhile (inBase radix)).length ≠ (strtolRest text).length := by
      have stopped := mt (stopped_iff based).mp none
      have shorter := List.length_dropWhile_le (inBase radix) nptr
      have whole := congrArg List.length based.split
      have le := afterSign_length_le (strtolRest text)
      rw [after] at le
      rw [List.length_append] at whole
      omega
    have unsigned (m : Nat) : unsignedResult (signOf (strtolRest text)) m = unsignedResult [] m := by
      simp [unsignedResult, plain]
    have cut := strtol_cut _ (signOf text) sign_iff (magnitude base pre (nptr.takeWhile (inBase radix)))
    rw [unsigned] at read
    rw [run read, ← cut, if_neg moved]
    exact ⟨_, _, rfl, rfl⟩

theorem strtol_converts {base : Nat} (valid : base = 0 ∨ 2 ≤ base ∧ base ≤ 36) (ptr : List Byte) :
    ∃ v endptr, strtol ptr base = (v, some endptr) ∧ Converts 0 signedResult base ptr v.toInt endptr := by
  obtain ⟨radix, pre, nptr, chosen, based⟩ := strtoulBase_spec valid (afterSign (ptr.dropWhile isspace))
  obtain ⟨v, endptr, run, yields⟩ := strtol_read (by omega) based chosen
  exact ⟨v, endptr, run, converts_of_read (by omega) based yields⟩

theorem inBase_ten : inBase 10 = isdigit := by
  funext c
  revert c
  decide +kernel

theorem converts_shorter {R : Type} {zero v : R} {result : List Byte → Nat → R} {base : Nat} {ptr endptr : List Byte}
    (converts : Converts zero result base ptr v endptr) : endptr.length ≤ ptr.length := by
  by_cases some : ∃ sign pre digits rest, Subject base (ptr.dropWhile fun c => Space c) sign pre digits rest
  · obtain ⟨sign, pre, digits, rest, subject⟩ := some
    have whole := congrArg List.length subject.split
    have shorter := List.length_dropWhile_le (fun c => decide (Space c)) ptr
    rw [(converts.subject _ _ _ _ subject).2]
    simp only [List.length_append] at whole
    omega
  · rw [(converts.nothing some).2]

section
variable {c : Byte} {text : List Byte}

theorem decimal_head (digit : isdigit c = true) : isspace c = false ∧ c ≠ minusSign ∧ c ≠ plusSign := by
  revert c
  decide +kernel

theorem based_decimal (text : List Byte) : Based 10 text 10 [] text :=
  based_plain (by decide) (by decide) (fun _ _ _ => rfl) (by omega)

theorem unsigned_text {h : Byte} {t : List Byte} (head : isspace h = false ∧ h ≠ minusSign ∧ h ≠ plusSign) :
    (h :: t).dropWhile isspace = h :: t ∧ signOf (h :: t) = [] ∧ afterSign (h :: t) = h :: t := by
  obtain ⟨notSpace, noMinus, noPlus⟩ := head
  refine ⟨List.dropWhile_cons_of_neg (by simp [notSpace]), ?_, ?_⟩
  · simp [signOf, byteAt, noMinus, noPlus]
  · simp [afterSign, byteAt, noMinus, noPlus]

theorem decimal_chosen {text : List Byte} (clean : text.dropWhile isspace = text) (after : afterSign text = text) :
    Based 10 (afterSign (text.dropWhile isspace)) 10 [] text ∧
      strtoulBase (10 : Nat) (afterSign (text.dropWhile isspace)) = some (10, text) := by
  rw [clean, after]
  exact ⟨based_decimal text, strtoulBase_given (by decide) (by decide) (by simp)⟩

theorem strtoul_decimal (text : List Byte) (digit : isdigit c = true) :
    strtoul (c :: text) 10 =
      (unsignedResult [] (value 10 (((c :: text).takeWhile isdigit).filterMap digitValue)),
        some (text.dropWhile isdigit)) := by
  obtain ⟨clean, unsigned, after⟩ := unsigned_text (t := text) (decimal_head digit)
  obtain ⟨based, chosen⟩ := decimal_chosen clean after
  have read := strtoul_read based chosen
  rw [clean, unsigned, inBase_ten, if_neg (by simp [digit])] at read
  rw [List.dropWhile_cons_of_pos digit] at read
  exact read

def decimalValue (digits : List Byte) : Nat := value 10 (digits.filterMap digitValue)

theorem strtol_decimal {digits : List Byte} (text : List Byte) (inside : ∀ d ∈ digits, isdigit d = true)
    (stop : isdigit c = false ∧ isspace c = false ∧ c ≠ minusSign ∧ c ≠ plusSign)
    (small : decimalValue digits < 2 ^ 31) :
    strtol (digits ++ c :: text) 10 = (BitVec.ofNat 32 (decimalValue digits), some (c :: text)) := by
  obtain ⟨notDigit, other⟩ := stop
  have head : ∃ h t, digits ++ c :: text = h :: t ∧ isspace h = false ∧ h ≠ minusSign ∧ h ≠ plusSign := by
    cases digits with
    | nil => exact ⟨c, text, rfl, other⟩
    | cons d ds => exact ⟨d, ds ++ c :: text, rfl, decimal_head (inside d List.mem_cons_self)⟩
  obtain ⟨h, t, whole, clear⟩ := head
  obtain ⟨clean, unsigned, after⟩ := unsigned_text (t := t) clear
  rw [← whole] at clean unsigned after
  obtain ⟨based, chosen⟩ := decimal_chosen clean after
  have taken : (digits ++ c :: text).takeWhile (inBase 10) = digits := by
    rw [inBase_ten, List.takeWhile_append_of_pos inside, List.takeWhile_cons_of_neg (by simp [notDigit]),
      List.append_nil]
  have left : (digits ++ c :: text).dropWhile (inBase 10) = c :: text := by
    rw [inBase_ten, List.dropWhile_append_of_pos inside, List.dropWhile_cons_of_neg (by simp [notDigit])]
  obtain ⟨v, endptr, run, yields⟩ := strtol_read (by decide) based chosen
  have value_eq : v.toInt = decimalValue digits ∧ endptr = c :: text := by
    rw [taken, left] at yields
    split_ifs at yields with none
    · subst none
      exact Prod.mk.inj yields
    · have magnitude_eq : magnitude 10 [] digits = decimalValue digits := rfl
      rw [magnitude_eq] at yields
      have parts := Prod.mk.inj yields
      refine ⟨?_, parts.2⟩
      rw [parts.1, signedResult, if_neg (by rw [clean, unsigned]; simp)]
      omega
  have exactly : v = BitVec.ofNat 32 (decimalValue digits) := by
    apply BitVec.eq_of_toInt_eq
    rw [value_eq.1, toInt_low small]
  have read : strtol (digits ++ c :: text) 10 = (v, some endptr) := run
  rw [read, exactly, value_eq.2]

end

theorem conversions_exact (s : CString) (base : Nat) (valid : base = 0 ∨ 2 ≤ base ∧ base ≤ 36) :
    (∃ v endptr, strtoul s.1 base = (v, some endptr) ∧ Converts 0 unsignedResult base s.1 v endptr) ∧
      ∃ v endptr, strtol s.1 base = (v, some endptr) ∧ Converts 0 signedResult base s.1 v.toInt endptr :=
  ⟨strtoul_converts valid s.1, strtol_converts valid s.1⟩

theorem conversions_exact_prefixed :
    (∃ v endptr, strtoul (bytes [' ', '-', '0', 'x', '1', 'g']) (0 : Nat) = (v, some endptr) ∧
      Converts 0 unsignedResult 0 (bytes [' ', '-', '0', 'x', '1', 'g']) v endptr) ∧
    ∃ v endptr, strtol (bytes [' ', '-', '0', 'x', '1', 'g']) (0 : Nat) = (v, some endptr) ∧
      Converts 0 signedResult 0 (bytes [' ', '-', '0', 'x', '1', 'g']) v.toInt endptr :=
  conversions_exact ⟨bytes [' ', '-', '0', 'x', '1', 'g'], by decide⟩ 0 (.inl rfl)

end L4ertl
