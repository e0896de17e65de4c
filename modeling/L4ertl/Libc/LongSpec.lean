import L4ertl.Libc.PrintOut

/-!
The conversion specifications for a long, and that __v_printf prints what ISO C prints.
-/
namespace L4ertl
open Numerals

def flagBytes : List Byte := [byte '-', byte '0', byte '+', byte ' ']

section
variable {args : List VaArg} {l l' : Conversion}

/-- What flags and a width in front of the rest of a specification leave in the variables. -/
structure FlagsRead (flags width : List Byte) (l l' : Conversion) : Prop where
  left : l'.flagLeft = true ↔ l.flagLeft = true ∨ byte '-' ∈ flags
  space : l'.flagSpace = true ↔ l.flagSpace = true ∨ byte ' ' ∈ flags
  sign : l'.flagSign = true ↔ l.flagSign = true ∨ byte '+' ∈ flags
  zeros : l'.flagLeft = false → (l'.padwith = byte '0' ↔ l.padwith = byte '0' ∨ byte '0' ∈ flags)
  width : l'.width = BitVec.ofNat 32 (decimalValue width)
  hash : l'.flagHash = l.flagHash
  dot : l'.flagDot = l.flagDot
  long : l'.flagLong = l.flagLong
  preci : l'.preci = l.preci

theorem plain_step {ch : Byte} {format : List Byte} (plain : plainFlag ch l = some l') :
    innPrintf (ch :: format) args l = innPrintf format args l' := by
  rw [innPrintf_step, flagStep, plain]

theorem digit_not_flag :
    ∀ ch : Byte, isdigit ch = true → ∀ f ∈ bytes ['#', 'z', 'h', 'q', 'L', 'l', '-', ' ', '+'], ch ≠ f := by
  decide +kernel

theorem plainFlag_digit {ch : Byte} (digit : isdigit ch = true) : plainFlag ch l = none := by
  have other := digit_not_flag ch digit
  simp only [bytes, List.map_cons, List.map_nil, List.forall_mem_cons] at other
  obtain ⟨h1, h2, h3, h4, h5, h6, h7, h8, h9, -⟩ := other
  unfold plainFlag byte
  rw [if_neg h1, if_neg h2, if_neg h3, if_neg (not_or.mpr ⟨h4, h5⟩), if_neg h6, if_neg h7, if_neg h8, if_neg h9]

theorem unsigned_decimal {m : Nat} (small : m < 2 ^ 32) : unsignedResult [] m = BitVec.ofNat 32 m := by
  rw [unsignedResult, if_neg (by omega), if_neg (by simp)]

/-- A run of digits is read as a width; a zero in front is also a flag. -/
theorem digits_step (args : List VaArg) (l : Conversion) (digits rest : List Byte) {ch : Byte}
    (inside : ∀ d ∈ ch :: digits, isdigit d = true) (stop : ∀ c ∈ rest.head?, isdigit c = false)
    (dot : l.flagDot = false) (small : decimalValue (ch :: digits) < 2 ^ 32) :
    innPrintf (ch :: (digits ++ rest)) args l =
      innPrintf rest args
        { l with width := BitVec.ofNat 32 (decimalValue (ch :: digits)),
                 padwith := if ch = byte '0' ∧ ¬l.flagLeft then byte '0' else l.padwith } := by
  have digit := inside ch List.mem_cons_self
  have stopped : rest.takeWhile isdigit = [] ∧ rest.dropWhile isdigit = rest := by
    cases rest with
    | nil => exact ⟨rfl, rfl⟩
    | cons c tail =>
      have out := stop c rfl
      exact ⟨List.takeWhile_cons_of_neg (by simp [out]), List.dropWhile_cons_of_neg (by simp [out])⟩
  have taken : (ch :: (digits ++ rest)).takeWhile isdigit = ch :: digits := by
    rw [← List.cons_append, List.takeWhile_append_of_pos inside, stopped.1, List.append_nil]
  have left : (digits ++ rest).dropWhile isdigit = rest := by
    rw [List.dropWhile_append_of_pos fun d mem => inside d (List.mem_cons_of_mem ch mem), stopped.2]
  have read := strtoul_decimal (digits ++ rest) digit
  rw [taken, left] at read
  rw [innPrintf_step, flagStep, plainFlag_digit digit]
  simp only [digit, if_true, readWidth, dot, Bool.false_eq_true, if_false, read]
  rw [← unsigned_decimal small]
  rfl

theorem decimalValue_zeros {zs : List Byte} (zeros : ∀ z ∈ zs, z = byte '0') (ds : List Byte) :
    decimalValue (zs ++ ds) = decimalValue ds := by
  induction zs with
  | nil => rfl
  | cons z zs ih =>
    rw [← ih fun z mem => zeros z (List.mem_cons_of_mem _ mem), zeros z List.mem_cons_self]
    rfl

section
variable {flags width tail : List Byte}

theorem FlagsRead.plain {f : Byte} (flags width : List Byte) (l : Conversion) (mem : f ∈ flagBytes)
    (nonzero : f ≠ byte '0') :
    ∃ l₁, plainFlag f l = some l₁ ∧ l₁.flagDot = l.flagDot ∧ l₁.width = l.width ∧
      ∀ l', FlagsRead flags width l₁ l' → FlagsRead (f :: flags) width l l' := by
  simp only [flagBytes, List.mem_cons, List.not_mem_nil, or_false] at mem
  rcases mem with rfl | rfl | rfl | rfl
  · refine ⟨{ l with flagLeft := true }, rfl, rfl, rfl, fun l' read =>
      ⟨?_, ?_, ?_, fun right => absurd (read.left.mpr (.inl rfl)) (by simp [right]), read.width, read.hash, read.dot,
        read.long, read.preci⟩⟩
    · simp [read.left]
    · rw [read.space, List.mem_cons]; simp [byte]
    · rw [read.sign, List.mem_cons]; simp [byte]
  · exact absurd rfl nonzero
  · refine ⟨{ l with flagSign := true }, rfl, rfl, rfl, fun l' read =>
      ⟨?_, ?_, ?_, ?_, read.width, read.hash, read.dot, read.long, read.preci⟩⟩
    · rw [read.left, List.mem_cons]; simp [byte]
    · rw [read.space, List.mem_cons]; simp [byte]
    · simp [read.sign]
    · rw [List.mem_cons]; simpa [byte] using read.zeros
  · refine ⟨{ l with flagSpace := true }, rfl, rfl, rfl, fun l' read =>
      ⟨?_, ?_, ?_, ?_, read.width, read.hash, read.dot, read.long, read.preci⟩⟩
    · rw [read.left, List.mem_cons]; simp [byte]
    · simp [read.space]
    · rw [read.sign, List.mem_cons]; simp [byte]
    · rw [List.mem_cons]; simpa [byte] using read.zeros

theorem FlagsRead.zeroRun {zs : List Byte} {w : Word} (zeros : ∀ z ∈ zs, z = byte '0')
    (read : FlagsRead flags width
      { l with width := w, padwith := if ¬l.flagLeft then byte '0' else l.padwith } l') :
    FlagsRead (byte '0' :: (zs ++ flags)) width l l' := by
  have through {c : Byte} (other : c ≠ byte '0') : c ∈ byte '0' :: (zs ++ flags) ↔ c ∈ flags := by
    simp only [List.mem_cons, List.mem_append, other, false_or]
    exact or_iff_right fun mem => other (zeros c mem)
  refine ⟨?_, ?_, ?_, fun right => ?_, read.width, read.hash, read.dot, read.long, read.preci⟩
  · rw [read.left, through (by decide)]
  · rw [read.space, through (by decide)]
  · rw [read.sign, through (by decide)]
  · have unset : l.flagLeft = false := by
      have left := read.left
      rw [right] at left
      simpa using (not_or.mp (mt left.mpr (by decide))).1
    rw [read.zeros right]
    simp [unset]

theorem FlagsRead.none (given : l.width = BitVec.ofNat 32 (decimalValue width)) : FlagsRead [] width l l :=
  ⟨by simp, by simp, by simp, fun _ => by simp, given, rfl, rfl, rfl, rfl⟩

theorem zero_isdigit : isdigit (byte '0') = true := by decide

theorem flag_not_digit : ∀ f ∈ flagBytes, f ≠ byte '0' → isdigit f = false := by decide

theorem zeros_split (fs : List Byte) :
    ∃ zs gs, fs = zs ++ gs ∧ (∀ z ∈ zs, z = byte '0') ∧ gs.head? ≠ some (byte '0') := by
  refine ⟨fs.takeWhile (· = byte '0'), fs.dropWhile (· = byte '0'), List.takeWhile_append_dropWhile.symm,
    fun z mem => by simpa using List.mem_takeWhile_imp mem, fun head => ?_⟩
  have stopped := List.head?_dropWhile_not (· = byte '0') fs
  simp [head] at stopped

theorem innPrintf_flags (args : List VaArg) (l : Conversion) (ok : ∀ f ∈ flags, f ∈ flagBytes)
    (digits : ∀ d ∈ width, isdigit d = true) (head : width.head? ≠ some (byte '0')) (small : decimalValue width < 2 ^ 31)
    (stop : ∀ c ∈ tail.head?, isdigit c = false) (dot : l.flagDot = false) (unset : l.width = 0) :
    ∃ l', innPrintf (flags ++ width ++ tail) args l = innPrintf tail args l' ∧ FlagsRead flags width l l' := by
  induction length : flags.length using Nat.strongRecOn generalizing flags l with
  | ind k ih =>
    match flags, ok, length with
    | [], _, _ =>
      match width, digits, head, small with
      | [], _, _, _ => exact ⟨l, rfl, .none unset⟩
      | d :: ds, digits, head, small =>
        have nonzero : d ≠ byte '0' := fun h => head (congrArg some h)
        refine ⟨_, digits_step _ _ _ _ digits stop dot (by omega), ?_⟩
        exact ⟨by simp, by simp, by simp, fun _ => by simp [nonzero], rfl, rfl, rfl, rfl, rfl⟩
    | f :: fs, ok, length =>
      by_cases zero : f = byte '0'
      · subst zero
        obtain ⟨zs, gs, rfl, zeros, next⟩ := zeros_split fs
        have digit0 : ∀ z ∈ byte '0' :: zs, isdigit z = true :=
          List.forall_mem_cons.mpr ⟨zero_isdigit, fun z mem => zeros z mem ▸ zero_isdigit⟩
        have same (ds : List Byte) : decimalValue (byte '0' :: (zs ++ ds)) = decimalValue ds :=
          decimalValue_zeros (List.forall_mem_cons.mpr ⟨rfl, zeros⟩ : ∀ z ∈ byte '0' :: zs, z = byte '0') ds
        match gs, next with
        | [], _ =>
          -- the width follows at once and is read with the zeros
          have inside : ∀ d ∈ byte '0' :: (zs ++ width), isdigit d = true := by
            rw [← List.cons_append]
            exact List.forall_mem_append.mpr ⟨digit0, digits⟩
          have whole := digits_step args l (zs ++ width) tail inside stop dot (by rw [same]; omega)
          rw [same] at whole
          refine ⟨_, by simpa using whole, FlagsRead.zeroRun zeros (w := BitVec.ofNat 32 (decimalValue width)) ?_⟩
          simpa using FlagsRead.none rfl
        | g :: gs, next =>
          have other : g ≠ byte '0' := fun h => next (congrArg some h)
          have flag := ok g (by simp)
          have alone := same []
          rw [List.append_nil] at alone
          have run := digits_step args l zs (g :: gs ++ width ++ tail) digit0
            (fun c head => by simp at head; exact head ▸ flag_not_digit g flag other) dot (by rw [alone]; decide)
          rw [alone] at run
          have later : ∀ f ∈ g :: gs, f ∈ flagBytes := fun f mem =>
            ok f (List.mem_cons_of_mem _ (List.mem_append_right zs mem))
          obtain ⟨l', rest, read⟩ := ih (g :: gs).length (by simp at length ⊢; omega)
            { l with width := 0, padwith := if ¬l.flagLeft then byte '0' else l.padwith } later dot rfl rfl
          refine ⟨l', Eq.trans ?_ rest, FlagsRead.zeroRun zeros read⟩
          simpa [decimalValue, value, valueFrom] using run
      · obtain ⟨l₁, plain, dot₁, unset₁, extend⟩ :=
          FlagsRead.plain fs width l (ok f List.mem_cons_self) zero
        obtain ⟨l', run, read⟩ := ih fs.length (by simp at length; omega) l₁
          (fun g mem => ok g (List.mem_cons_of_mem f mem)) (dot₁.trans dot) (unset₁.trans unset) rfl
        exact ⟨l', (plain_step plain).trans run, extend l' read⟩

end

theorem precision_step {digits : List Byte} (args : List VaArg) (l : Conversion) (rest : List Byte)
    (inside : ∀ d ∈ digits, isdigit d = true) (small : decimalValue digits < 2 ^ 31) :
    innPrintf (byte '.' :: (digits ++ byte 'l' :: rest)) args l =
      innPrintf (byte 'l' :: rest) args
        { l with flagDot := true, preci := BitVec.ofNat 32 (decimalValue digits) } := by
  have noStar : byteAt (digits ++ byte 'l' :: rest) 0 ≠ byte '*' := by
    cases digits with
    | nil => exact show byte 'l' ≠ byte '*' by decide
    | cons d ds =>
      have digit := inside d List.mem_cons_self
      rintro star
      rw [show d = byte '*' from star] at digit
      exact absurd digit (by decide)
  have read := strtol_decimal (c := byte 'l') rest inside (by decide) small
  have positive : ¬(BitVec.ofNat 32 (decimalValue digits)).toInt < 0 := by
    rw [toInt_low small]
    omega
  have step : flagStep (byte '.') (digits ++ byte 'l' :: rest) args l =
      readPrecision (digits ++ byte 'l' :: rest) args l := rfl
  rw [innPrintf_step, step]
  simp only [readPrecision, if_neg noStar, read, if_neg positive]

theorem long_step {rest : List Byte} (fresh : l.flagLong = 0) :
    innPrintf (byte 'l' :: rest) args l = innPrintf rest args { l with flagLong := 1 } := by
  have plain : plainFlag (byte 'l') l = some { l with flagLong := l.flagLong + 1 } := rfl
  rw [plain_step plain, fresh]
  rfl

theorem letter_step (letter : Letter) {rest : List Byte} :
    innPrintf (byte letter.char :: rest) args l = .conv (byte letter.char) l rest args := by
  have step : flagStep (byte letter.char) rest args l = .convert := by cases letter <;> rfl
  rw [innPrintf_step, step]

end

structure LongSpec where
  flags : List Byte
  /-- The digits of the width; none where it is left out. -/
  width : List Byte
  /-- The digits behind the dot, if there is one. -/
  precision : Option (List Byte)
  letter : Letter
  flags_ok : ∀ f ∈ flags, f ∈ flagBytes
  width_digits : ∀ d ∈ width, isdigit d = true
  width_head : width.head? ≠ some (byte '0')
  width_lt : decimalValue width < 2 ^ 31
  precision_digits : ∀ p ∈ precision, ∀ d ∈ p, isdigit d = true
  precision_lt : ∀ p ∈ precision, decimalValue p < 2 ^ 31

namespace LongSpec
variable (spec : LongSpec)

def precisionText : List Byte :=
  match spec.precision with
  | some digits => byte '.' :: digits
  | none => []

def text : List Byte :=
  byte '%' :: (spec.flags ++ spec.width ++ (spec.precisionText ++ [byte 'l', byte spec.letter.char]))

theorem precisionText_ok : nul ∉ spec.precisionText := by
  unfold precisionText
  split
  · next digits some =>
    have inside := spec.precision_digits digits some
    refine List.not_mem_cons_of_ne_of_not_mem (by decide) fun mem => ?_
    exact absurd (inside nul mem) (by decide)
  · exact List.not_mem_nil

theorem text_ok : nul ∉ spec.text := by
  have flags : nul ∉ spec.flags := fun mem => absurd (spec.flags_ok nul mem) (by decide)
  have width : nul ∉ spec.width := fun mem => absurd (spec.width_digits nul mem) (by decide)
  have letter : nul ∉ [byte 'l', byte spec.letter.char] := by cases spec.letter <;> decide
  have percent : nul ≠ byte '%' := by decide
  simp only [text, List.mem_cons, List.mem_append, not_or] at letter ⊢
  exact ⟨percent, ⟨flags, width⟩, spec.precisionText_ok, letter⟩

def format : CString := ⟨spec.text, spec.text_ok⟩

/-- What ISO C prints for a long. -/
def output (n : Word) : List Byte :=
  let number := numeral spec.letter.base spec.letter.upCase (spec.letter.magnitude n)
  let precision := (spec.precision.map decimalValue).getD 1
  layout (spec.flags.contains (byte '-')) (spec.flags.contains (byte '0') && spec.precision.isNone)
    (decimalValue spec.width)
    (signText spec.letter (spec.flags.contains (byte '+')) (spec.flags.contains (byte ' ')) n) (padded precision number)

structure Reached (l : Conversion) : Prop where
  left : l.flagLeft = decide (byte '-' ∈ spec.flags)
  space : l.flagSpace = decide (byte ' ' ∈ spec.flags)
  sign : l.flagSign = decide (byte '+' ∈ spec.flags)
  zeros : l.flagLeft = false → (l.padwith = byte '0' ↔ byte '0' ∈ spec.flags)
  width : l.width.toNat = decimalValue spec.width
  hash : l.flagHash = 0
  long : l.flagLong = 1
  dot : l.flagDot = spec.precision.isSome
  preci : l.preci.toNat = (spec.precision.map decimalValue).getD 0

theorem reached_before (args : List VaArg) (rest : List Byte) :
    ∃ l, innPrintf (spec.flags ++ spec.width ++ (spec.precisionText ++ byte 'l' :: byte spec.letter.char :: rest)) args {} =
      .conv (byte spec.letter.char) l rest args ∧ spec.Reached l := by
  have stop : ∀ c ∈ (spec.precisionText ++ byte 'l' :: byte spec.letter.char :: rest).head?, isdigit c = false := by
    unfold precisionText
    split <;> simp <;> decide
  obtain ⟨l, run, read⟩ := innPrintf_flags args {} spec.flags_ok spec.width_digits spec.width_head
    spec.width_lt stop rfl rfl
  have width : l.width.toNat = decimalValue spec.width := by
    have := spec.width_lt
    rw [read.width, BitVec.toNat_ofNat, Nat.mod_eq_of_lt (by omega)]
  have left : l.flagLeft = decide (byte '-' ∈ spec.flags) := by
    rw [Bool.eq_iff_iff, read.left, decide_eq_true_eq]; simp
  have space : l.flagSpace = decide (byte ' ' ∈ spec.flags) := by
    rw [Bool.eq_iff_iff, read.space, decide_eq_true_eq]; simp
  have sign : l.flagSign = decide (byte '+' ∈ spec.flags) := by
    rw [Bool.eq_iff_iff, read.sign, decide_eq_true_eq]; simp
  have zeros : l.flagLeft = false → (l.padwith = byte '0' ↔ byte '0' ∈ spec.flags) := by
    intro right
    rw [read.zeros right]
    simp [byte]
  cases given : spec.precision with
  | none =>
    refine ⟨{ l with flagLong := 1 }, run.trans ?_,
      ⟨left, space, sign, zeros, width, read.hash, rfl, ?_, ?_⟩⟩
    · rw [precisionText, given]
      exact (long_step read.long).trans (letter_step spec.letter)
    · rw [given]; exact read.dot
    · rw [given]; exact congrArg BitVec.toNat read.preci
  | some digits =>
    have small := spec.precision_lt digits given
    refine ⟨{ l with flagDot := true, preci := BitVec.ofNat 32 (decimalValue digits), flagLong := 1 }, run.trans ?_,
      ⟨left, space, sign, zeros, width, read.hash, rfl, ?_, ?_⟩⟩
    · rw [precisionText, given]
      have dotted := precision_step args l (byte spec.letter.char :: rest)
        (spec.precision_digits digits given) small
      exact dotted.trans ((long_step (by exact read.long)).trans (letter_step spec.letter))
    · rw [given]; rfl
    · rw [given]
      simp only [Option.map_some, Option.getD_some, BitVec.toNat_ofNat]
      omega

theorem reached (args : List VaArg) :
    ∃ l, innPrintf (spec.flags ++ spec.width ++ (spec.precisionText ++ [byte 'l', byte spec.letter.char])) args {} =
      .conv (byte spec.letter.char) l [] args ∧ spec.Reached l := spec.reached_before args []

end LongSpec

theorem vPrintfLoop_conv {spec : List Byte} {args args' : List VaArg} {fn fn' : Out} {ch : Byte} {l : Conversion}
    (parsed : innPrintf spec args {} = .conv ch l [] args) (converted : convert fn ch l args = some (fn', args')) :
    vPrintfLoop (byte '%' :: spec) args fn = some (fn', fn'.len.toInt) := by
  have done : vPrintfLoop [] args' fn' = some (fn', fn'.len.toInt) := by
    rw [vPrintfLoop_step]; rfl
  have noText : (byte '%' :: spec).takeWhile (· ≠ byte '%') = [] := List.takeWhile_cons_of_neg (by simp)
  have whole : (byte '%' :: spec).dropWhile (· ≠ byte '%') = byte '%' :: spec := List.dropWhile_cons_of_neg (by simp)
  rw [vPrintfLoop_step]
  simp only [noText, whole, ne_eq, not_true_eq_false, if_false, parsed, converted, Option.bind_some, done]

theorem layout_filled {left zeros : Bool} {width width' : Nat} {sign number : List Byte}
    (same : width - (sign.length + number.length) = width' - (sign.length + number.length)) :
    layout left zeros width sign number = layout left zeros width' sign number := by
  simp only [layout, same]

theorem padded_length (precision : Nat) (digits : List Byte) : precision ≤ (padded precision digits).length := by
  simp only [padded, List.length_append, List.length_replicate]
  omega

theorem LongSpec.output_eq (spec : LongSpec) {l : Conversion} (reached : spec.Reached l) (n : Word) :
    layout l.flagLeft (!l.flagDot && l.padwith = byte '0') (widened spec.letter l).width.toNat
      (signText spec.letter l.flagSign l.flagSpace n)
      (padded (if l.flagDot then l.preci.toNat else 1)
        (numeral spec.letter.base spec.letter.upCase (spec.letter.magnitude n))) = spec.output n := by
  have precision : (if l.flagDot then l.preci.toNat else 1) = (spec.precision.map decimalValue).getD 1 := by
    rw [reached.dot, reached.preci]
    cases spec.precision <;> rfl
  have filled : l.preci.toNat ≤ (padded (if l.flagDot then l.preci.toNat else 1)
      (numeral spec.letter.base spec.letter.upCase (spec.letter.magnitude n))).length := by
    refine Nat.le_trans ?_ (padded_length _ _)
    rw [reached.dot, reached.preci]
    cases spec.precision <;> simp
  have field : layout l.flagLeft (!l.flagDot && l.padwith = byte '0') (widened spec.letter l).width.toNat
      (signText spec.letter l.flagSign l.flagSpace n)
      (padded (if l.flagDot then l.preci.toNat else 1)
        (numeral spec.letter.base spec.letter.upCase (spec.letter.magnitude n))) =
      layout l.flagLeft (!l.flagDot && l.padwith = byte '0') (decimalValue spec.width)
      (signText spec.letter l.flagSign l.flagSpace n)
      (padded (if l.flagDot then l.preci.toNat else 1)
        (numeral spec.letter.base spec.letter.upCase (spec.letter.magnitude n))) := by
    refine layout_filled ?_
    rw [← reached.width]
    simp only [widened, BitVec.lt_def]
    split <;> omega
  rw [field, precision, reached.sign, reached.space]
  simp only [LongSpec.output, List.contains_eq_mem]
  cases left : l.flagLeft with
  | true =>
    have minus : byte '-' ∈ spec.flags := by simpa [left] using reached.left
    simp [layout, minus]
  | false =>
    have right : byte '-' ∉ spec.flags := by simpa [left] using reached.left
    have zeros : (!l.flagDot && decide (l.padwith = byte '0')) =
        (decide (byte '0' ∈ spec.flags) && spec.precision.isNone) := by
      have zero : decide (l.padwith = byte '0') = decide (byte '0' ∈ spec.flags) :=
        decide_eq_decide.mpr (reached.zeros left)
      rw [zero, reached.dot]
      cases spec.precision <;> simp
    simp only [zeros, right, decide_false]

theorem printf_exact (spec : LongSpec) (n : Word) (room : (spec.output n).length < 2 ^ 31) :
    ∃ pieces : List (List Byte), vPrintf spec.format [.word n] = some (pieces, ((spec.output n).length : Int)) ∧
      pieces.flatten = spec.output n := by
  obtain ⟨l, run, reached⟩ := spec.reached [.word n]
  have undotted : l.flagDot = false → l.preci = 0 := by
    intro none
    rw [reached.dot, Option.isSome_eq_false_iff, Option.isNone_iff_eq_none] at none
    have value := reached.preci
    rw [none] at value
    exact BitVec.eq_of_toNat_eq value
  have preci : l.preci.toNat < 2 ^ 31 := by
    rw [reached.preci]
    cases given : spec.precision with
    | none => decide
    | some digits => exact spec.precision_lt digits given
  have width : (widened spec.letter l).width.toNat < 2 ^ 31 := by
    have := spec.width_lt
    simp only [widened]
    split
    · exact preci
    · rw [reached.width]; exact this
  obtain ⟨fn', laid, puts⟩ := numPrintf_layout ⟨[], 0⟩ n spec.letter (l := widened spec.letter l)
    reached.hash undotted width preci
  have converted : convert ⟨[], 0⟩ (byte spec.letter.char) l [.word n] = some (fn', []) := by
    rw [convert_long spec.letter reached.hash reached.long, laid]
    rfl
  have whole : Puts ⟨[], 0⟩ fn' (spec.output n) := by
    rw [← spec.output_eq reached n]
    exact puts
  have total : fn'.len.toInt = (spec.output n).length := by
    have counted : fn'.len = BitVec.ofNat 32 (spec.output n).length := by
      rw [whole.counted]
      exact BitVec.zero_add _
    rw [counted, toInt_low room]
  refine ⟨fn'.pieces, ?_, whole.bytes⟩
  rw [vPrintf, show spec.format.1 = byte '%' :: _ from rfl, vPrintfLoop_conv run converted, ← total]
  rfl

def signedSpec : LongSpec where
  flags := bytes ['-', '+', '0']
  width := bytes ['5']
  precision := some (bytes ['3'])
  letter := .d
  flags_ok := by decide
  width_digits := by decide
  width_head := by decide
  width_lt := by decide
  precision_digits := by decide
  precision_lt := by decide

theorem printf_exact_signed : ∃ pieces : List (List Byte),
    vPrintf signedSpec.format [.word 0xFFFFFFF9#32] = some (pieces, ((signedSpec.output 0xFFFFFFF9#32).length : Int)) ∧
      pieces.flatten = signedSpec.output 0xFFFFFFF9#32 :=
  printf_exact signedSpec 0xFFFFFFF9#32 (by decide)

end L4ertl
