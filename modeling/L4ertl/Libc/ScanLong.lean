import L4ertl.Libc.LongSpec
import L4ertl.Libc.Scanf

/-!
What __v_scanf reads where __v_printf has printed a long. %u looks for the base in the
text, as %i does, so that a number with zeros in front is taken for an octal one.
-/
namespace L4ertl
open Numerals

namespace Scan
variable (s : Scan) (k : Nat)

@[simp] theorem skip_text : (s.skip k).text = s.text.drop k := rfl
@[simp] theorem skip_n : (s.skip k).n = s.n := rfl
@[simp] theorem skip_stored : (s.skip k).stored = s.stored := rfl

@[simp] theorem skipSpaces_n : s.skipSpaces.n = s.n := rfl
@[simp] theorem skipSpaces_stored : s.skipSpaces.stored = s.stored := rfl

theorem skipSpaces_text : s.skipSpaces.text = s.text.dropWhile isspace := by
  have whole := List.takeWhile_append_dropWhile (p := isspace) (l := s.text)
  have cut := congrArg (List.drop (s.text.takeWhile isspace).length) whole
  rw [List.drop_left] at cut
  exact cut.symm

def Room : Prop := s.consumed.toNat + s.text.length < 2 ^ 32

variable {s}

theorem Room.skip (room : s.Room) (k : Nat) :
    (s.skip k).Room ∧ (s.skip k).consumed.toNat = s.consumed.toNat + min k s.text.length := by
  have counted : (s.skip k).consumed.toNat = s.consumed.toNat + min k s.text.length := by
    unfold Room at room
    simp only [Scan.skip, BitVec.toNat_add, BitVec.toNat_ofNat]
    omega
  refine ⟨?_, counted⟩
  unfold Room at room ⊢
  rw [counted, skip_text, List.length_drop]
  omega

theorem Room.skipIf (room : s.Room) (c : Byte) : (s.skipIf c).Room := by
  unfold Scan.skipIf
  split
  · exact (room.skip 1).1
  · exact room

theorem Room.skipSpaces (room : s.Room) : s.skipSpaces.Room := (room.skip _).1

theorem skipIf_n (c : Byte) : (s.skipIf c).n = s.n := by
  unfold Scan.skipIf
  split <;> rfl

theorem skipIf_stored (c : Byte) : (s.skipIf c).stored = s.stored := by
  unfold Scan.skipIf
  split <;> rfl

theorem skipIf_here {c : Byte} {rest : List Byte} (here : s.text = c :: rest) : (s.skipIf c).text = rest := by
  simp [Scan.skipIf, here]

theorem skipIf_other {c : Byte} (other : s.text.head? ≠ some c) : s.skipIf c = s := by
  rw [Scan.skipIf, if_neg other]

end Scan

section
variable {div width : Word} {v : BitVec 64}

theorem scanValue_exact {c : Word} (positive : 0 < div.toNat)
    (room : v.toNat * div.toNat + c.toNat < 2 ^ 64) :
    (scanValue div v c).toNat = v.toNat * div.toNat + c.toNat := by
  have product : (v * div.setWidth 64).toNat = v.toNat * div.toNat := by
    have := div.isLt
    rw [BitVec.toNat_mul, BitVec.toNat_setWidth, Nat.mod_eq_of_lt (by omega : div.toNat < _),
      Nat.mod_eq_of_lt (by omega)]
  have grows : v.toNat ≤ v.toNat * div.toNat := Nat.le_mul_of_pos_right _ positive
  have small : ¬v * div.setWidth 64 < v := by
    rw [BitVec.lt_def, product]
    omega
  have := c.isLt
  rw [scanValue, if_neg small, BitVec.toNat_add, product, BitVec.toNat_setWidth, Nat.mod_eq_of_lt (by omega : c.toNat < _),
    Nat.mod_eq_of_lt room]

def inDiv (div : Word) (c : Byte) : Bool := decide (scanDigit c < div)

def digitsOf (text : List Byte) : List Nat := text.map fun c => (scanDigit c).toNat

theorem scanDigits_run (positive : 0 < div.toNat) (text : List Byte) (width : Word) (v : BitVec 64)
    (wide : (text.takeWhile (inDiv div)).length ≤ width.toNat)
    (room : valueFrom div.toNat v.toNat (digitsOf (text.takeWhile (inDiv div))) < 2 ^ 64) :
    scanDigits div text width v =
      (BitVec.ofNat 64 (valueFrom div.toNat v.toNat (digitsOf (text.takeWhile (inDiv div)))),
        (text.takeWhile (inDiv div)).length) := by
  induction text generalizing width v with
  | nil =>
    rw [List.takeWhile_nil, scanDigits, digitsOf, List.map_nil, valueFrom, BitVec.ofNat_toNat, BitVec.setWidth_eq]
    rfl
  | cons c text ih =>
    by_cases inside : scanDigit c < div
    · have digit : inDiv div c = true := by simpa [inDiv] using inside
      rw [List.takeWhile_cons_of_pos digit] at wide room ⊢
      rw [List.length_cons] at wide
      rw [digitsOf, List.map_cons, valueFrom] at room
      have grows := valueFrom_ge positive (v.toNat * div.toNat + (scanDigit c).toNat)
        (digitsOf (text.takeWhile (inDiv div)))
      have next := scanValue_exact (c := scanDigit c) positive (Nat.lt_of_le_of_lt grows room)
      have pred : (width - 1).toNat = width.toNat - 1 := by
        rw [BitVec.toNat_sub]
        simp
        omega
      have open_ : ¬(width = 0 ∨ div ≤ scanDigit c) := by
        rintro (zero | above)
        · subst zero
          simp at wide
        · exact absurd inside (BitVec.not_lt.mpr above)
      have rest := ih (width - 1) (scanValue div v (scanDigit c)) (by omega) (by rw [next]; exact room)
      rw [next] at rest
      rw [scanDigits, if_neg open_, rest]
      rfl
    · have out : inDiv div c = false := by simpa [inDiv] using inside
      rw [List.takeWhile_cons_of_neg (by simp [out]), scanDigits, if_pos (Or.inr (BitVec.not_lt.mp inside)),
        digitsOf, List.map_nil, valueFrom, BitVec.ofNat_toNat, BitVec.setWidth_eq]
      rfl

end

theorem scanDigit_digitChar (upCase : Bool) : ∀ d < 36, scanDigit (digitChar upCase d) = BitVec.ofNat 32 d := by
  cases upCase <;> decide +kernel

theorem digit_plain : ∀ c : Byte, scanDigit c < 16 →
    isspace c = false ∧ c ≠ minusSign ∧ c ≠ plusSign ∧ c ||| 32 ≠ byte 'x' ∧ c ≠ nul := by
  decide +kernel

theorem space_plain : ∀ c : Byte, isspace c = true →
    16 ≤ scanDigit c ∧ c ≠ minusSign ∧ c ≠ plusSign ∧ c ||| 32 ≠ byte 'x' := by
  decide +kernel

def readBase (letter : Letter) (digits : List Byte) : Word :=
  match letter with
  | .d => 10
  | .o => 8
  | .x | .X => 16
  | .u | .i => if digits.head? = some (byte '0') then 8 else 10

def readDigits (letter : Letter) (digits : List Byte) : List Byte := digits.takeWhile (inDiv (readBase letter digits))

def readValue (letter : Letter) (digits : List Byte) : Nat :=
  value (readBase letter digits).toNat (digitsOf (readDigits letter digits))

section
variable {s : Scan} {letter : Letter} {digits tail : List Byte}

theorem readBase_range (letter : Letter) (digits : List Byte) :
    0 < (readBase letter digits).toNat ∧ (readBase letter digits).toNat ≤ 16 := by
  have some : readBase letter digits = 8 ∨ readBase letter digits = 10 ∨ readBase letter digits = 16 := by
    cases letter with
    | d => exact Or.inr (Or.inl rfl)
    | o => exact Or.inl rfl
    | x | X => exact Or.inr (Or.inr rfl)
    | u | i =>
      by_cases zero : digits.head? = .some (byte '0')
      · exact Or.inl (if_pos zero)
      · exact Or.inr (Or.inl (if_neg zero))
  rcases some with eq | eq | eq <;> rw [eq] <;> decide

theorem scanHex_digits {div : Word} {c : Byte} (here : s.text = c :: (digits ++ tail))
    (inside : ∀ d ∈ digits, scanDigit d < 16) (stop : ∀ d ∈ tail.head?, isspace d = true) :
    scanHex div s = (div, s.skip 1) := by
  have after : (s.skip 1).text = digits ++ tail := by simp [here]
  unfold scanHex
  simp only [after]
  cases digits with
  | cons d ds =>
    have plain := (digit_plain d (inside d List.mem_cons_self)).2.2.2.1
    simp only [List.cons_append, if_neg plain]
  | nil =>
    cases tail with
    | nil => rfl
    | cons d ds =>
      have plain := (space_plain d (stop d rfl)).2.2.2
      simp only [List.nil_append, if_neg plain]

theorem scanBase_other (here : s.text.head? ≠ some (byte '0')) (digits : List Byte) (other : digits.head? ≠ some (byte '0')) :
    scanBase false (scanDiv (byte letter.char)) s = (readBase letter digits, s) := by
  rw [scanBase, if_neg (by decide), if_neg fun both => here both.2]
  cases letter with
  | u | i =>
    rw [if_pos (by decide), if_neg here, readBase, if_neg other]
  | _ =>
    rw [if_neg (by decide)]
    rfl

theorem scanBase_digits (letter : Letter) (here : s.text = digits ++ tail) (some : digits ≠ [])
    (inside : ∀ d ∈ digits, scanDigit d < 16) (stop : ∀ d ∈ tail.head?, isspace d = true) :
    ∃ z ≤ 1, scanBase false (scanDiv (byte letter.char)) s = (readBase letter digits, s.skip z) ∧
      (z = 1 → digits.head? = .some (byte '0')) := by
  obtain ⟨c, ds, rfl⟩ := List.exists_cons_of_ne_nil some
  have head : s.text.head? = Option.some c := by rw [here]; rfl
  have none : s.skip 0 = s := by simp [Scan.skip]
  have hex (div : Word) : scanHex div s = (div, s.skip 1) :=
    scanHex_digits here (fun d member => inside d (List.mem_cons_of_mem _ member)) stop
  by_cases zero : c = byte '0'
  · subst zero
    cases letter with
    | d => exact ⟨0, by decide, by rw [none]; rfl, nofun⟩
    | o => exact ⟨0, by decide, by rw [none]; rfl, nofun⟩
    | x | X =>
      refine ⟨1, Nat.le_refl _, ?_, fun _ => rfl⟩
      rw [scanBase, if_neg (by decide), if_pos ⟨by decide, head⟩, hex]
      rfl
    | u | i =>
      refine ⟨1, Nat.le_refl _, ?_, fun _ => rfl⟩
      rw [scanBase, if_neg (by decide), if_neg (fun both => absurd both.1 (by decide)), if_pos (by decide), if_pos head,
        hex]
      rfl
  · refine ⟨0, by decide, ?_, nofun⟩
    rw [none, scanBase_other]
    · rw [head]
      exact fun same => zero (Option.some.inj same)
    · exact fun same => zero (Option.some.inj same)

theorem takeWhile_stop {p : Byte → Bool} (stop : ∀ d ∈ tail.head?, p d = false) (text : List Byte) :
    (text ++ tail).takeWhile p = text.takeWhile p := by
  induction text with
  | nil =>
    cases tail with
    | nil => rfl
    | cons d ds => exact List.takeWhile_cons_of_neg (by simp [stop d rfl])
  | cons c text ih =>
    rw [List.cons_append, List.takeWhile_cons, List.takeWhile_cons, ih]

theorem readBase_stop (letter : Letter) (digits : List Byte) {tail : List Byte} (stop : ∀ d ∈ tail.head?, isspace d = true) :
    ∀ d ∈ tail.head?, inDiv (readBase letter digits) d = false := by
  intro d head
  have outside := (space_plain d (stop d head)).1
  have small := (readBase_range letter digits).2
  simp only [inDiv, decide_eq_false_iff_not, BitVec.lt_def]
  rw [BitVec.le_def] at outside
  have sixteen : (16 : Word).toNat = 16 := rfl
  omega

/-- A zero in front is read as a digit, whether scan_hex skips it or the loop reads it. -/
theorem readDigits_skip (letter : Letter) {z : Nat} (le : z ≤ 1) (zero : z = 1 → digits.head? = .some (byte '0')) :
    (readDigits letter digits).length = z + ((digits.drop z).takeWhile (inDiv (readBase letter digits))).length ∧
      readValue letter digits = value (readBase letter digits).toNat
        (digitsOf ((digits.drop z).takeWhile (inDiv (readBase letter digits)))) := by
  have cases_ : z = 0 ∨ z = 1 := by omega
  rcases cases_ with rfl | rfl
  · simp [readDigits, readValue]
  · obtain ⟨ds, rfl⟩ : ∃ ds, digits = byte '0' :: ds := by
      cases digits with
      | nil => exact absurd (zero rfl) (by simp)
      | cons c ds => exact ⟨ds, by simpa using zero rfl⟩
    have positive := (readBase_range letter (byte '0' :: ds)).1
    have inside : inDiv (readBase letter (byte '0' :: ds)) (byte '0') = true := by
      have none : (scanDigit (byte '0')).toNat = 0 := rfl
      simp only [inDiv, decide_eq_true_eq, BitVec.lt_def, none]
      exact positive
    constructor
    · rw [readDigits, List.takeWhile_cons_of_pos inside, List.length_cons]
      exact Nat.add_comm _ _
    · rw [readValue, readDigits, List.takeWhile_cons_of_pos inside]
      exact value_zeros _ 1 _

def readLong (letter : Letter) (neg : Bool) (digits : List Byte) : Word :=
  (scanSign (byte letter.char) neg (BitVec.ofNat 64 (readValue letter digits))).setWidth 32

def scanSigns : List (List Byte) := [[], [minusSign], [plusSign]]

theorem skip_sign {sign rest : List Byte} (here : s.text = sign ++ rest) (member : sign ∈ scanSigns)
    (unsigned : ∀ c ∈ rest.head?, c ≠ minusSign ∧ c ≠ plusSign) (room : s.Room) :
    ((s.text.head? = .some minusSign) = (sign = [minusSign])) ∧
      ((s.skipIf minusSign).skipIf plusSign).text = rest ∧ ((s.skipIf minusSign).skipIf plusSign).Room := by
  have noMinus : rest.head? ≠ .some minusSign := fun head => (unsigned _ head).1 rfl
  have noPlus : rest.head? ≠ .some plusSign := fun head => (unsigned _ head).2 rfl
  have plusOnly : plusSign ≠ minusSign := by decide
  simp only [scanSigns, List.mem_cons, List.not_mem_nil, or_false] at member
  refine ⟨?_, ?_, (room.skipIf _).skipIf _⟩
  · rcases member with rfl | rfl | rfl
    · simp [here, noMinus]
    · simp [here]
    · simp [here, plusOnly]
  · rcases member with rfl | rfl | rfl
    · rw [List.nil_append] at here
      rw [Scan.skipIf_other (c := minusSign), Scan.skipIf_other (c := plusSign), here]
      · rw [here]
        exact noPlus
      · rw [here]
        exact noMinus
    · have behind : (s.skipIf minusSign).text = rest := Scan.skipIf_here here
      rw [Scan.skipIf_other (c := plusSign), behind]
      rw [behind]
      exact noPlus
    · have behind : (s.skipIf plusSign).text = rest := Scan.skipIf_here here
      rw [Scan.skipIf_other (c := minusSign), behind]
      rw [here]
      simp [plusOnly]

theorem scanNumber_reads (neg : Bool) (here : s.text = digits ++ tail) (some : readDigits letter digits ≠ [])
    (inside : ∀ d ∈ digits, scanDigit d < 16) (stop : ∀ d ∈ tail.head?, isspace d = true)
    (small : readValue letter digits < 2 ^ 64) (room : s.Room) :
    ∃ s', scanNumber (byte letter.char) { flagLong := true } neg s = .on s' ∧ s'.Room ∧
      s'.text = digits.drop (readDigits letter digits).length ++ tail ∧ s'.n = s.n + 1 ∧
      s'.stored = s.stored ++ [.long (readLong letter neg digits)] := by
  have digitsSome : digits ≠ [] := by
    rintro rfl
    exact some rfl
  obtain ⟨z, le, base, zero⟩ := scanBase_digits letter here digitsSome inside stop
  obtain ⟨counted, valued⟩ := readDigits_skip letter le zero
  have long : z ≤ digits.length := by
    have := List.length_pos_of_ne_nil digitsSome
    omega
  have behind : (s.skip z).text = digits.drop z ++ tail := by
    rw [Scan.skip_text, here, List.drop_append_of_le_length long]
  have run : (digits.drop z ++ tail).takeWhile (inDiv (readBase letter digits)) =
      (digits.drop z).takeWhile (inDiv (readBase letter digits)) :=
    takeWhile_stop (readBase_stop letter digits stop) _
  have short : ((digits.drop z).takeWhile (inDiv (readBase letter digits))).length ≤ digits.length - z := by
    rw [← List.length_drop]
    exact (List.takeWhile_prefix _).length_le
  have fits := room
  unfold Scan.Room at fits
  rw [here, List.length_append] at fits
  have value_eq : valueFrom (readBase letter digits).toNat (0 : BitVec 64).toNat
      (digitsOf ((digits.drop z).takeWhile (inDiv (readBase letter digits)))) = readValue letter digits := valued.symm
  have read := scanDigits_run (readBase_range letter digits).1 (digits.drop z ++ tail) (-1) 0
    (by
      have last : (-1 : Word).toNat = 2 ^ 32 - 1 := rfl
      rw [run]
      omega)
    (by rw [run, value_eq]; exact small)
  rw [run, value_eq] at read
  have inText : s.text ≠ [] := by
    rw [here]
    exact List.append_ne_nil_of_left_ne_nil digitsSome tail
  obtain ⟨roomBase, atBase⟩ := room.skip z
  obtain ⟨roomEnd, atEnd⟩ := roomBase.skip ((digits.drop z).takeWhile (inDiv (readBase letter digits))).length
  have forward : s.consumed < ((s.skip z).skip
      ((digits.drop z).takeWhile (inDiv (readBase letter digits))).length).consumed := by
    have positive := List.length_pos_of_ne_nil some
    rw [BitVec.lt_def, atEnd, atBase, Scan.skip_text, List.length_drop, here, List.length_append]
    omega
  have other := (BitVec.ne_of_lt forward : s.consumed ≠ _)
  simp only [scanNumber, if_neg inText, base, behind, read, if_neg other, Bool.false_eq_true, if_false]
  refine ⟨_, rfl, roomEnd, ?_, ?_, ?_⟩
  · simp only [Scan.store, Scan.skip_text, here]
    rw [List.drop_drop, ← counted]
    exact List.drop_append_of_le_length (List.takeWhile_prefix _).length_le
  · exact if_pos forward
  · simp [Scan.store, readLong, scanStored]

theorem scanInteger_reads {blanks sign : List Byte} (here : s.text = blanks ++ (sign ++ digits ++ tail))
    (blank : ∀ c ∈ blanks, isspace c = true) (member : sign ∈ scanSigns) (some : readDigits letter digits ≠ [])
    (inside : ∀ d ∈ digits, scanDigit d < 16) (stop : ∀ d ∈ tail.head?, isspace d = true)
    (small : readValue letter digits < 2 ^ 64) (room : s.Room) :
    ∃ s', scanInteger (byte letter.char) { flagLong := true } s = .on s' ∧ s'.Room ∧
      s'.text = digits.drop (readDigits letter digits).length ++ tail ∧ s'.n = s.n + 1 ∧
      s'.stored = s.stored ++ [.long (readLong letter (sign = [minusSign]) digits)] := by
  have digitsSome : digits ≠ [] := by
    rintro rfl
    exact some rfl
  obtain ⟨c, ds, rfl⟩ := List.exists_cons_of_ne_nil digitsSome
  obtain ⟨solid, noMinus, noPlus, _⟩ := digit_plain c (inside c List.mem_cons_self)
  have first : s.skipSpaces.text = sign ++ (c :: ds ++ tail) := by
    rw [Scan.skipSpaces_text, here, List.dropWhile_append_of_pos blank, List.append_assoc]
    simp only [scanSigns, List.mem_cons, List.not_mem_nil, or_false] at member
    rcases member with rfl | rfl | rfl
    · exact List.dropWhile_cons_of_neg (by simp [solid])
    · exact List.dropWhile_cons_of_neg (by decide)
    · exact List.dropWhile_cons_of_neg (by decide)
  obtain ⟨neg, behind, room'⟩ := skip_sign first member
    (fun d head => by cases head; exact ⟨noMinus, noPlus⟩) room.skipSpaces
  obtain ⟨s', run, roomEnd, text, n, stored⟩ :=
    scanNumber_reads (decide (sign = [minusSign])) behind some inside stop small room'
  refine ⟨s', ?_, roomEnd, text, ?_, ?_⟩
  · rw [← run, scanInteger]
    simp only [neg]
  · rw [n, Scan.skipIf_n, Scan.skipIf_n, Scan.skipSpaces_n]
  · rw [stored, Scan.skipIf_stored, Scan.skipIf_stored, Scan.skipSpaces_stored]

end

namespace LongSpec
variable (spec : LongSpec) (n : Word)

def numeralText : List Byte := numeral spec.letter.base spec.letter.upCase (spec.letter.magnitude n)

def zeros : Nat :=
  let precision := (spec.precision.map decimalValue).getD 1
  let sign := signText spec.letter (spec.flags.contains (byte '+')) (spec.flags.contains (byte ' ')) n
  let fill := decimalValue spec.width - (sign.length + (padded precision (spec.numeralText n)).length)
  precision - (spec.numeralText n).length +
    if spec.flags.contains (byte '-') = false ∧ (spec.flags.contains (byte '0') && spec.precision.isNone) = true then fill
    else 0

def digits : List Byte := List.replicate (spec.zeros n) (byte '0') ++ spec.numeralText n

/-- A number that is read back: some digit is printed, and %i and %u do not take it for
    an octal one. -/
structure Readable : Prop where
  shown : spec.letter.magnitude n ≠ 0 ∨ spec.zeros n ≠ 0
  decimal : spec.letter = .i ∨ spec.letter = .u → spec.letter.magnitude n < 8 ∨ spec.zeros n = 0

instance : Decidable (spec.Readable n) :=
  decidable_of_iff ((spec.letter.magnitude n ≠ 0 ∨ spec.zeros n ≠ 0) ∧
      (spec.letter = .i ∨ spec.letter = .u → spec.letter.magnitude n < 8 ∨ spec.zeros n = 0))
    ⟨fun both => ⟨both.1, both.2⟩, fun ok => ⟨ok.shown, ok.decimal⟩⟩

end LongSpec

theorem isspace_blank : isspace (byte ' ') = true := by decide

theorem isspace_blanks {k : Nat} : ∀ c ∈ List.replicate k (byte ' '), isspace c = true := by
  intro c member
  rw [List.eq_of_mem_replicate member]
  exact isspace_blank

theorem signText_split (letter : Letter) (plus space : Bool) (n : Word) :
    ∃ blank mark, signText letter plus space n = blank ++ mark ∧ (∀ c ∈ blank, isspace c = true) ∧
      mark ∈ scanSigns ∧ (mark = [minusSign] ↔ letter.signed = true ∧ n.toInt < 0) := by
  unfold signText
  split
  · next signed =>
    split
    · next negative => exact ⟨[], [byte '-'], rfl, List.forall_mem_nil _, by decide, fun _ => ⟨signed, negative⟩, fun _ => rfl⟩
    · next positive =>
      have never {mark : List Byte} (other : mark ≠ [minusSign]) :
          mark = [minusSign] ↔ letter.signed = true ∧ n.toInt < 0 :=
        ⟨fun same => absurd same other, fun both => absurd both.2 positive⟩
      split
      · exact ⟨[], [byte '+'], rfl, List.forall_mem_nil _, by decide, never (by decide)⟩
      · split
        · exact ⟨[byte ' '], [], rfl, by simp [isspace_blank], by decide, never (by decide)⟩
        · exact ⟨[], [], rfl, List.forall_mem_nil _, by decide, never (by decide)⟩
  · next unsigned =>
    exact ⟨[], [], rfl, List.forall_mem_nil _, by decide, fun same => absurd same (by decide),
      fun both => absurd both.1 unsigned⟩

theorem layout_shape {blank : List Byte} (spaces : ∀ c ∈ blank, isspace c = true) (left zeros : Bool)
    (width precision : Nat) (mark digits : List Byte) :
    ∃ blanks after, layout left zeros width (blank ++ mark) (padded precision digits) =
        blanks ++ (mark ++ (List.replicate (precision - digits.length +
          if left = false ∧ zeros = true then width - ((blank ++ mark).length + (padded precision digits).length) else 0)
            (byte '0') ++ digits) ++ after) ∧
      (∀ c ∈ blanks, isspace c = true) ∧ ∀ c ∈ after, isspace c = true := by
  generalize missing : width - ((blank ++ mark).length + (padded precision digits).length) = fill
  cases left with
  | true =>
    refine ⟨blank, List.replicate fill (byte ' '), ?_, spaces, isspace_blanks⟩
    simp only [layout, missing]
    simp [padded]
  | false =>
    cases zeros with
    | true =>
      refine ⟨blank, [], ?_, spaces, List.forall_mem_nil _⟩
      have whole : List.replicate (precision - digits.length + fill) (byte '0') =
          List.replicate fill (byte '0') ++ List.replicate (precision - digits.length) (byte '0') := by
        rw [List.replicate_append_replicate, Nat.add_comm]
      simp only [layout, missing, Bool.false_eq_true, if_false, if_true, and_self, whole]
      simp only [padded, List.append_assoc, List.append_nil]
    | false =>
      refine ⟨List.replicate fill (byte ' ') ++ blank, [], ?_, ?_, List.forall_mem_nil _⟩
      · simp only [layout, missing]
        simp [padded]
      · exact List.forall_mem_append.mpr ⟨isspace_blanks, spaces⟩

theorem LongSpec.output_shape (spec : LongSpec) (n : Word) :
    ∃ blanks mark after, spec.output n = blanks ++ (mark ++ spec.digits n ++ after) ∧
      (∀ c ∈ blanks, isspace c = true) ∧ (∀ c ∈ after, isspace c = true) ∧ mark ∈ scanSigns ∧
      (mark = [minusSign] ↔ spec.letter.signed = true ∧ n.toInt < 0) := by
  obtain ⟨blank, mark, split, spaces, member, minus⟩ :=
    signText_split spec.letter (spec.flags.contains (byte '+')) (spec.flags.contains (byte ' ')) n
  obtain ⟨blanks, after, shape, front, behind⟩ := layout_shape spaces (spec.flags.contains (byte '-'))
    (spec.flags.contains (byte '0') && spec.precision.isNone) (decimalValue spec.width)
    ((spec.precision.map decimalValue).getD 1) mark (spec.numeralText n)
  refine ⟨blanks, mark, after, ?_, front, behind, member, minus⟩
  rw [← split] at shape
  refine shape.trans ?_
  simp [digits, zeros]

section
variable (spec : LongSpec) (n : Word)

theorem LongSpec.numeral_digits :
    digitsOf (spec.numeralText n) = (Nat.digits spec.letter.base (spec.letter.magnitude n)).reverse ∧
      ∀ c ∈ spec.numeralText n, (scanDigit c).toNat < spec.letter.base := by
  have valid := base_valid spec.letter
  have one : ∀ d ∈ (Nat.digits spec.letter.base (spec.letter.magnitude n)).reverse,
      d < spec.letter.base ∧ (scanDigit (digitChar spec.letter.upCase d)).toNat = d := by
    intro d member
    have below := Nat.digits_lt_base (by omega) (List.mem_reverse.mp member)
    refine ⟨below, ?_⟩
    rw [scanDigit_digitChar _ d (by omega), BitVec.toNat_ofNat, Nat.mod_eq_of_lt (by omega)]
  constructor
  · rw [digitsOf, numeralText, numeral, List.map_map]
    conv_rhs => rw [← List.map_id (Nat.digits spec.letter.base (spec.letter.magnitude n)).reverse]
    exact List.map_congr_left fun d member => (one d member).2
  · intro c member
    obtain ⟨d, inside, rfl⟩ := List.mem_map.mp member
    rw [(one d inside).2]
    exact (one d inside).1

theorem LongSpec.digits_below : ∀ c ∈ spec.digits n, (scanDigit c).toNat < spec.letter.base := by
  have positive := (base_valid spec.letter).1
  refine List.forall_mem_append.mpr ⟨fun c member => ?_, (spec.numeral_digits n).2⟩
  rw [List.eq_of_mem_replicate member]
  exact Nat.lt_of_lt_of_le (by decide) positive

theorem LongSpec.digits_value :
    digitsOf (spec.digits n) = List.replicate (spec.zeros n) 0 ++
        (Nat.digits spec.letter.base (spec.letter.magnitude n)).reverse ∧
      value spec.letter.base (digitsOf (spec.digits n)) = spec.letter.magnitude n := by
  have all : digitsOf (spec.digits n) = List.replicate (spec.zeros n) 0 ++
      (Nat.digits spec.letter.base (spec.letter.magnitude n)).reverse := by
    rw [← (spec.numeral_digits n).1, digits, digitsOf, List.map_append, List.map_replicate]
    rfl
  refine ⟨all, ?_⟩
  rw [all, value_zeros, value_digits (base_valid spec.letter).1]

theorem LongSpec.digits_head : (spec.digits n).head? = some (byte '0') ↔ spec.zeros n ≠ 0 := by
  unfold digits
  cases zeros : spec.zeros n with
  | succ z => simp [List.replicate_succ]
  | zero =>
    simp only [List.replicate_zero, List.nil_append, ne_eq, not_true_eq_false, iff_false]
    intro head
    have valid := base_valid spec.letter
    by_cases none : spec.letter.magnitude n = 0
    · simp [numeralText, numeral, none] at head
    · have last := Nat.getLast_digit_ne_zero spec.letter.base none
      have some := Nat.digits_ne_nil_iff_ne_zero (b := spec.letter.base).mpr none
      rw [numeralText, numeral, List.head?_map, List.head?_reverse, List.getLast?_eq_some_getLast some] at head
      have below := Nat.digits_lt_base (by omega : 1 < spec.letter.base) (List.getLast_mem some)
      exact last (digitChar_zero _ _ (by omega) (Option.some.inj head))

theorem digitsOf_takeWhile (div : Word) (text : List Byte) :
    digitsOf (text.takeWhile (inDiv div)) = (digitsOf text).takeWhile (· < div.toNat) := by
  rw [digitsOf, digitsOf, List.takeWhile_map]
  rfl

def LongSpec.Octal : Prop := (spec.letter = .i ∨ spec.letter = .u) ∧ spec.zeros n ≠ 0

theorem LongSpec.readBase_octal (octal : spec.Octal n) :
    (readBase spec.letter (spec.digits n)).toNat = 8 ∧ spec.letter.base = 10 := by
  have head := (spec.digits_head n).mpr octal.2
  rcases octal.1 with letter | letter <;> rw [letter]
  · exact ⟨congrArg BitVec.toNat (if_pos head), rfl⟩
  · exact ⟨congrArg BitVec.toNat (if_pos head), rfl⟩

theorem LongSpec.readBase_plain (plain : ¬spec.Octal n) :
    (readBase spec.letter (spec.digits n)).toNat = spec.letter.base := by
  have head : spec.letter = .i ∨ spec.letter = .u → (spec.digits n).head? ≠ some (byte '0') :=
    fun letter head => plain ⟨letter, (spec.digits_head n).mp head⟩
  cases letter : spec.letter with
  | i => exact congrArg BitVec.toNat (if_neg (head (Or.inl letter)))
  | u => exact congrArg BitVec.toNat (if_neg (head (Or.inr letter)))
  | _ => rfl

theorem LongSpec.readDigits_plain (plain : ¬spec.Octal n) :
    readDigits spec.letter (spec.digits n) = spec.digits n := by
  rw [readDigits, List.takeWhile_eq_self_iff]
  intro c member
  simp only [inDiv, decide_eq_true_eq, BitVec.lt_def]
  rw [spec.readBase_plain n plain]
  exact spec.digits_below n c member

/-- In octal the value is never greater, and the same only below 8. -/
theorem LongSpec.readValue_octal (octal : spec.Octal n) :
    readValue spec.letter (spec.digits n) ≤ spec.letter.magnitude n ∧
      (readValue spec.letter (spec.digits n) = spec.letter.magnitude n ↔ spec.letter.magnitude n < 8) := by
  obtain ⟨eight, ten⟩ := spec.readBase_octal n octal
  have decimal := (spec.digits_value n).2
  rw [ten] at decimal
  have read : readValue spec.letter (spec.digits n) =
      valueFrom 8 0 ((digitsOf (spec.digits n)).takeWhile (· < 8)) := by
    rw [readValue, readDigits, digitsOf_takeWhile, eight]
    rfl
  rw [read]
  by_cases below : spec.letter.magnitude n < 8
  · have same := valueFrom_small (by decide : 8 < 10) 0 (digitsOf (spec.digits n))
      (lt_of_eq_of_lt decimal below)
    rw [same]
    exact ⟨Nat.le_of_eq decimal, fun _ => below, fun _ => decimal⟩
  · have less := valueFrom_less (by decide : 8 < 10) (v := 0) (w := 0) (digitsOf (spec.digits n)) (Nat.le_refl 0)
      (Or.inr ⟨by decide, Nat.le_trans (Nat.not_lt.mp below) (Nat.le_of_eq decimal.symm)⟩)
    have smaller := Nat.lt_of_lt_of_eq less decimal
    exact ⟨Nat.le_of_lt smaller, fun same => absurd same (Nat.ne_of_lt smaller), fun small => absurd small below⟩

theorem LongSpec.readValue_plain (plain : ¬spec.Octal n) :
    readValue spec.letter (spec.digits n) = spec.letter.magnitude n := by
  rw [readValue, spec.readDigits_plain n plain, spec.readBase_plain n plain]
  exact (spec.digits_value n).2

theorem LongSpec.digits_some (shown : spec.letter.magnitude n ≠ 0 ∨ spec.zeros n ≠ 0) : spec.digits n ≠ [] := by
  rcases shown with nonzero | zeros
  · exact List.append_ne_nil_of_right_ne_nil _ (numeral_ne_zero (base_valid spec.letter) _ nonzero).2
  · intro none
    have head := (spec.digits_head n).mpr zeros
    rw [none] at head
    cases head

theorem LongSpec.readDigits_some (shown : spec.letter.magnitude n ≠ 0 ∨ spec.zeros n ≠ 0) :
    readDigits spec.letter (spec.digits n) ≠ [] := by
  by_cases octal : spec.Octal n
  · have head := (spec.digits_head n).mpr octal.2
    obtain ⟨c, ds, eq⟩ := List.exists_cons_of_ne_nil (spec.digits_some n shown)
    rw [eq] at head
    cases head
    rw [eq, readDigits, List.takeWhile_cons_of_pos]
    · simp
    · simp only [inDiv, decide_eq_true_eq, BitVec.lt_def]
      exact (readBase_range spec.letter _).1
  · rw [spec.readDigits_plain n octal]
    exact spec.digits_some n shown

theorem LongSpec.readDigits_readable (ok : spec.Readable n) :
    readDigits spec.letter (spec.digits n) = spec.digits n := by
  by_cases octal : spec.Octal n
  · obtain ⟨eight, ten⟩ := spec.readBase_octal n octal
    have small : spec.letter.magnitude n < 8 := (ok.decimal octal.1).resolve_right octal.2
    rw [readDigits, List.takeWhile_eq_self_iff]
    intro c member
    have value : (scanDigit c).toNat ∈ digitsOf (spec.digits n) := List.mem_map_of_mem member
    rw [(spec.digits_value n).1, ten] at value
    simp only [inDiv, decide_eq_true_eq, BitVec.lt_def, eight]
    rcases List.mem_append.mp value with zero | digit
    · rw [List.eq_of_mem_replicate zero]
      decide
    · by_cases none : spec.letter.magnitude n = 0
      · simp [none] at digit
      · rw [Nat.digits_of_lt 10 _ none (by omega)] at digit
        rw [List.mem_singleton.mp digit]
        exact small
  · exact spec.readDigits_plain n octal

theorem LongSpec.readValue_le : readValue spec.letter (spec.digits n) ≤ spec.letter.magnitude n := by
  by_cases octal : spec.Octal n
  · exact (spec.readValue_octal n octal).1
  · exact Nat.le_of_eq (spec.readValue_plain n octal)

theorem LongSpec.magnitude_lt : spec.letter.magnitude n < 2 ^ 32 := by
  rw [← magnitude_word]
  exact BitVec.isLt _

theorem LongSpec.readLong_eq {neg : Bool} (minus : neg = true ↔ spec.letter.signed = true ∧ n.toInt < 0)
    {v : Nat} (read : readValue spec.letter (spec.digits n) = v) (small : v < 2 ^ 32) :
    readLong spec.letter neg (spec.digits n) = if neg then -BitVec.ofNat 32 v else BitVec.ofNat 32 v := by
  have low : BitVec.ofNat 64 v < 0x8000000000000000#64 := by
    rw [BitVec.lt_def, BitVec.toNat_ofNat]
    simp only [BitVec.toNat_ofNat, Nat.reducePow, Nat.reduceMod]
    omega
  rw [readLong, read, scanSign]
  cases neg with
  | false =>
    rw [if_neg (fun all => absurd all.2.2 (by decide)), if_neg (by decide)]
    apply BitVec.eq_of_toNat_eq
    simp only [BitVec.toNat_setWidth, BitVec.toNat_ofNat]
    omega
  | true =>
    have signed := (minus.mp rfl).1
    have letter : (byte spec.letter.char ||| 0x20) < byte 'p' := by
      cases letter : spec.letter <;> rw [letter] at signed <;> revert signed <;> decide
    rw [if_pos ⟨letter, low, rfl⟩, if_pos rfl]
    apply BitVec.eq_of_toNat_eq
    simp only [BitVec.toNat_setWidth, BitVec.toNat_neg, BitVec.toNat_ofNat]
    omega

theorem LongSpec.word_eq {neg : Bool} (minus : neg = true ↔ spec.letter.signed = true ∧ n.toInt < 0) :
    n = if neg then -BitVec.ofNat 32 (spec.letter.magnitude n) else BitVec.ofNat 32 (spec.letter.magnitude n) := by
  have whole := magnitude_word spec.letter n
  cases neg with
  | false =>
    rw [if_neg fun both => absurd (minus.mpr both) (by decide)] at whole
    rw [← whole, if_neg (by decide), BitVec.ofNat_toNat, BitVec.setWidth_eq]
  | true =>
    rw [if_pos (minus.mp rfl)] at whole
    rw [← whole, if_pos rfl, BitVec.ofNat_toNat, BitVec.setWidth_eq, BitVec.neg_neg]

theorem LongSpec.readLong_iff {neg : Bool} (minus : neg = true ↔ spec.letter.signed = true ∧ n.toInt < 0) :
    readLong spec.letter neg (spec.digits n) = n ↔
      (spec.letter = .i ∨ spec.letter = .u → spec.letter.magnitude n < 8 ∨ spec.zeros n = 0) := by
  have below := spec.magnitude_lt n
  have le := spec.readValue_le n
  have stored := spec.readLong_eq n minus rfl (Nat.lt_of_le_of_lt le below)
  have same : readLong spec.letter neg (spec.digits n) = n ↔
      readValue spec.letter (spec.digits n) = spec.letter.magnitude n := by
    constructor
    · intro eq
      have words := stored.symm.trans (eq.trans (spec.word_eq n minus))
      have numbers : BitVec.ofNat 32 (readValue spec.letter (spec.digits n)) =
          BitVec.ofNat 32 (spec.letter.magnitude n) := by
        cases neg with
        | false => exact words
        | true => exact BitVec.neg_inj.mp words
      have naturals := congrArg BitVec.toNat numbers
      rw [BitVec.toNat_ofNat, BitVec.toNat_ofNat] at naturals
      omega
    · intro eq
      rw [stored, eq]
      exact (spec.word_eq n minus).symm
  rw [same]
  by_cases octal : spec.Octal n
  · rw [(spec.readValue_octal n octal).2]
    exact ⟨fun small _ => Or.inl small, fun all => (all octal.1).resolve_right octal.2⟩
  · refine ⟨fun _ letter => Or.inr ?_, fun _ => spec.readValue_plain n octal⟩
    by_contra zeros
    exact octal ⟨letter, zeros⟩

end

section
variable {s : Scan} {letter : Letter}

theorem scanNumber_spaces (neg : Bool) (spaces : ∀ c ∈ s.text, isspace c = true) :
    scanNumber (byte letter.char) { flagLong := true } neg s = .ret s := by
  unfold scanNumber
  cases here : s.text with
  | nil => rfl
  | cons c rest =>
    have space := spaces c (here ▸ List.mem_cons_self)
    have other : s.text.head? ≠ some (byte '0') := by
      rw [here]
      rintro same
      rw [Option.some.inj same] at space
      exact absurd space (by decide)
    have outside := readBase_stop letter [] fun d (head : d ∈ s.text.head?) => spaces d (List.mem_of_mem_head? head)
    have high : readBase letter [] ≤ scanDigit c := by
      have out := outside c (by rw [here]; rfl)
      simp only [inDiv, decide_eq_false_iff_not] at out
      exact BitVec.not_lt.mp out
    have none : scanDigits (readBase letter []) (c :: rest) (-1) 0 = (0, 0) := by
      rw [scanDigits, if_pos (Or.inr high)]
    have same : s.skip 0 = s := by simp [Scan.skip]
    rw [if_neg (by simp)]
    simp only [scanBase_other other [] nofun, here, none, same, if_true]

def Letter.scanText (letter : Letter) : List Byte := [byte '%', byte 'l', byte letter.char]

theorem Letter.scanText_ok (letter : Letter) : nul ∉ letter.scanText := by cases letter <;> decide

theorem inScan_long {ended : Bool} (within : ended = false) (letter : Letter) (rest : List Byte) :
    inScan ended (byte 'l' :: byte letter.char :: rest) {} = .conv (byte letter.char) { flagLong := true } rest := by
  subst within
  have flag : scanFlag (byte 'l') (byte letter.char :: rest) {} =
      some ({ flagLong := true }, some (byte letter.char :: rest)) := rfl
  have none : scanFlag (byte letter.char) rest { flagLong := true } = none := by cases letter <;> rfl
  rw [inScan_step, if_neg (by simp), flag]
  simp only
  rw [inScan_step, if_neg (by simp), none]

theorem scanConvert_long (letter : Letter) (l : Scanning) (s : Scan) :
    scanConvert (byte letter.char) l s = scanInteger (byte letter.char) l s := by
  cases letter <;> rfl

theorem LongSpec.field_reads (spec : LongSpec) (n : Word) {blanks tail : List Byte}
    (here : s.text = blanks ++ (spec.output n ++ tail)) (blank : ∀ c ∈ blanks, isspace c = true)
    (stop : ∀ d ∈ tail.head?, isspace d = true) (shown : spec.letter.magnitude n ≠ 0 ∨ spec.zeros n ≠ 0)
    (room : s.Room) :
    ∃ s' w, scanInteger (byte spec.letter.char) { flagLong := true } s = .on s' ∧ s'.Room ∧ s'.n = s.n + 1 ∧
      s'.stored = s.stored ++ [.long w] ∧ (w = n ↔ spec.Readable n) ∧
      (spec.Readable n → ∃ spaces, s'.text = spaces ++ tail ∧ ∀ c ∈ spaces, isspace c = true) := by
  obtain ⟨front, mark, after, shape, spaces, behind, member, minus⟩ := spec.output_shape n
  have inside : ∀ d ∈ spec.digits n, scanDigit d < 16 := by
    intro d within
    have below := spec.digits_below n d within
    have small : spec.letter.base ≤ 16 := by cases spec.letter <;> decide
    exact Nat.lt_of_lt_of_le below small
  have ends : ∀ d ∈ (after ++ tail).head?, isspace d = true := by
    cases after with
    | nil => exact stop
    | cons c cs =>
      intro d head
      cases head
      exact behind _ List.mem_cons_self
  have whole : s.text = (blanks ++ front) ++ (mark ++ spec.digits n ++ (after ++ tail)) := by
    rw [here, shape]
    simp only [List.append_assoc]
  have below := spec.magnitude_lt n
  have le := spec.readValue_le n
  obtain ⟨s', run, room', text, counted, stored⟩ := scanInteger_reads whole
    (List.forall_mem_append.mpr ⟨blank, spaces⟩) member (spec.readDigits_some n shown) inside ends (by omega) room
  have signed : decide (mark = [minusSign]) = true ↔ spec.letter.signed = true ∧ n.toInt < 0 := by
    rw [decide_eq_true_eq]
    exact minus
  refine ⟨s', _, run, room', counted, stored, ?_, fun ok => ?_⟩
  · rw [spec.readLong_iff n signed]
    exact ⟨fun decimal => ⟨shown, decimal⟩, fun ok => ok.decimal⟩
  · refine ⟨after, ?_, behind⟩
    rw [text, spec.readDigits_readable n ok, List.drop_length, List.nil_append]

theorem LongSpec.field_fails (spec : LongSpec) (n : Word) (here : s.text = spec.output n)
    (hidden : spec.letter.magnitude n = 0 ∧ spec.zeros n = 0) (room : s.Room) :
    ∃ s', scanInteger (byte spec.letter.char) { flagLong := true } s = .ret s' ∧ s'.stored = s.stored := by
  obtain ⟨front, mark, after, shape, spaces, behind, member, _⟩ := spec.output_shape n
  have none : spec.digits n = [] := by simp [digits, numeralText, numeral, hidden.1, hidden.2]
  rw [none, List.append_nil] at shape
  have first : ∃ rest, s.skipSpaces.text = mark ++ rest ∧ ∀ c ∈ rest, isspace c = true := by
    rw [Scan.skipSpaces_text, here, shape, List.dropWhile_append_of_pos spaces]
    simp only [scanSigns, List.mem_cons, List.not_mem_nil, or_false] at member
    rcases member with rfl | rfl | rfl
    · refine ⟨[], ?_, List.forall_mem_nil _⟩
      rw [List.nil_append, List.append_nil, List.dropWhile_eq_nil_iff]
      exact behind
    · exact ⟨after, List.dropWhile_cons_of_neg (by decide), behind⟩
    · exact ⟨after, List.dropWhile_cons_of_neg (by decide), behind⟩
  obtain ⟨rest, first, blank⟩ := first
  have unsigned : ∀ c ∈ rest.head?, c ≠ minusSign ∧ c ≠ plusSign := by
    intro c head
    obtain ⟨_, noMinus, noPlus, _⟩ := space_plain c (blank c (List.mem_of_mem_head? head))
    exact ⟨noMinus, noPlus⟩
  obtain ⟨_, text, _⟩ := skip_sign first member unsigned room.skipSpaces
  refine ⟨_, scanNumber_spaces _ (by rw [text]; exact blank), ?_⟩
  rw [Scan.skipIf_stored, Scan.skipIf_stored, Scan.skipSpaces_stored]

end

theorem LongSpec.output_ok (spec : LongSpec) (n : Word) : nul ∉ spec.output n := by
  obtain ⟨front, mark, after, shape, spaces, behind, member, _⟩ := spec.output_shape n
  have space : isspace nul = false := by decide
  have blank {text : List Byte} (all : ∀ c ∈ text, isspace c = true) : nul ∉ text := by
    intro member
    rw [all nul member] at space
    cases space
  have sign : nul ∉ mark := by
    simp only [scanSigns, List.mem_cons, List.not_mem_nil, or_false] at member
    rcases member with rfl | rfl | rfl <;> decide
  have digits : nul ∉ spec.digits n := by
    intro member
    have below := spec.digits_below n nul member
    have small : spec.letter.base ≤ 16 := by cases spec.letter <;> decide
    exact (digit_plain nul (Nat.lt_of_lt_of_le below small)).2.2.2.2 rfl
  rw [shape]
  simp only [List.mem_append, not_or]
  exact ⟨blank spaces, ⟨sign, digits⟩, blank behind⟩

/-- What __v_printf prints of a long is read back by the same letter exactly when it is
    readable: zeros in front of a decimal number from 8 on turn it into another for %i
    and for %u, and nothing is read where a precision of 0 has printed no digit. -/
theorem scan_long_iff (spec : LongSpec) (n : Word) (room : (spec.output n).length < 2 ^ 31) :
    vsscanf ⟨spec.output n, spec.output_ok n⟩ ⟨spec.letter.scanText, spec.letter.scanText_ok⟩ =
      some (1, [.long n]) ↔ spec.Readable n := by
  have start : Scan.Room ⟨spec.output n, 1, 0, []⟩ := by
    unfold Scan.Room
    have one : (1 : Word).toNat = 1 := rfl
    simp only [one]
    omega
  unfold vsscanf
  simp only [Letter.scanText]
  by_cases shown : spec.letter.magnitude n ≠ 0 ∨ spec.zeros n ≠ 0
  · have whole : spec.output n = [] ++ (spec.output n ++ []) := by simp
    obtain ⟨s', w, run, _, counted, stored, exact_, _⟩ :=
      spec.field_reads n (s := ⟨spec.output n, 1, 0, []⟩) whole (List.forall_mem_nil _) nofun shown start
    have filled : (spec.output n).isEmpty = false := by
      obtain ⟨_, _, _, shape, _⟩ := spec.output_shape n
      rw [shape, List.isEmpty_eq_false_iff]
      simp [spec.digits_some n shown]
    rw [vScanfLoop_on (inScan_long filled spec.letter []) ((scanConvert_long _ _ _).trans run), vScanfLoop, Scan.errOut,
      counted, stored]
    simpa using exact_
  · simp only [not_or, not_not] at shown
    have unread : ¬spec.Readable n := fun ok => ok.shown.elim (fun h => h shown.1) fun h => h shown.2
    simp only [unread, iff_false]
    cases ended : (spec.output n).isEmpty with
    | true =>
      have parsed : inScan (spec.output n).isEmpty [byte 'l', byte spec.letter.char] {} = .errOut := by
        rw [ended, inScan_step, if_pos ⟨by decide, rfl⟩]
      rw [vScanfLoop, if_neg (by decide), if_pos rfl]
      split <;> next parsed' => cases parsed.symm.trans parsed' <;> simp [Scan.errOut]
    | false =>
      obtain ⟨s', run, stored⟩ := spec.field_fails n (s := ⟨spec.output n, 1, 0, []⟩) rfl shown start
      rw [vScanfLoop_ret (inScan_long ended spec.letter []) ((scanConvert_long _ _ _).trans run), stored]
      simp

def zeroFilled : LongSpec where
  flags := bytes ['0']
  width := bytes ['5']
  precision := none
  letter := .u
  flags_ok := by decide
  width_digits := signedSpec.width_digits
  width_head := signedSpec.width_head
  width_lt := signedSpec.width_lt
  precision_digits := by decide
  precision_lt := by decide

theorem scan_long_iff_zeros :
    vsscanf ⟨zeroFilled.output 42#32, zeroFilled.output_ok 42#32⟩ ⟨Letter.scanText .u, Letter.scanText_ok .u⟩ ≠
      some (1, [.long 42#32]) :=
  fun same => absurd ((scan_long_iff zeroFilled 42#32 (by decide)).mp same) (by decide)

end L4ertl
