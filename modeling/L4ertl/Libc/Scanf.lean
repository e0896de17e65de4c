import L4ertl.Libc.Printf

/-!
__v_scanf and vsscanf (stdarg.c of the kernel's libc, built without floating point and
without character classes). A char is unsigned on ARM; reading behind the NUL of the text is a fault.
-/
namespace L4ertl

/-- What is stored through a pointer argument; `%s` at the end of the text takes its
    pointer and stores nothing. -/
inductive Stored where
  | int (v : Word)
  | long (v : Word)
  | short (v : BitVec 16)
  | longlong (v : BitVec 64)
  | chars (s : List Byte)
  | string (s : List Byte)
  | nothing
  deriving DecidableEq

/-- The text from the character in tpch on; it is empty when that is the NUL, tpch -1. -/
structure Scan where
  text : List Byte
  consumed : Word
  n : Nat
  stored : List Stored

namespace Scan

/-- A_GETC. -/
def getc (s : Scan) : Option Scan :=
  match s.text with
  | [] => none
  | _ :: text => some { s with text := text, consumed := s.consumed + 1 }

/-- A loop of A_GETC that stops inside the text or at its end. -/
def skip (s : Scan) (k : Nat) : Scan :=
  { s with text := s.text.drop k, consumed := s.consumed + BitVec.ofNat 32 (min k s.text.length) }

def skipSpaces (s : Scan) : Scan := s.skip (s.text.takeWhile isspace).length

def skipIf (s : Scan) (c : Byte) : Scan := if s.text.head? = some c then s.skip 1 else s

def store (s : Scan) (v : Stored) : Scan := { s with stored := s.stored ++ [v] }

/-- The label err_out: EOF, if the text has ended before the first conversion. sputc
    writes nothing. -/
def errOut (s : Scan) : Int × List Stored := (if s.text = [] ∧ s.n = 0 then -1 else s.n, s.stored)

end Scan

structure Scanning where
  width : Word := -1
  flagWidth : Bool := false
  flagDiscard : Bool := false
  flagHalf : Bool := false
  flagLong : Bool := false
  flagLonglong : Bool := false
  deriving DecidableEq

/-- A flag or a width behind the percent sign; `none` for the letter of the conversion. -/
def scanFlag (ch : Byte) (format : List Byte) (l : Scanning) : Option (Scanning × Option (List Byte)) :=
  if ch = byte '*' then some ({ l with flagDiscard := true }, some format)
  else if ch = byte 'h' then some ({ l with flagHalf := true }, some format)
  else if ch = byte 'l' then
    some ({ l with flagLong := true, flagLonglong := l.flagLong || l.flagLonglong }, some format)
  else if ch = byte 'q' ∨ ch = byte 'L' then some ({ l with flagLonglong := true }, some format)
  else if isdigit ch then
    let (width, s) := strtol (ch :: format) 10
    some ({ l with width := width, flagWidth := true }, s)
  else none

section
variable {ch : Byte} {format format' : List Byte} {l l' : Scanning} {v : Word}

theorem strtol_beyond (digit : isdigit ch = true) (read : strtol (ch :: format) 10 = (v, some format')) :
    format'.length ≤ format.length := by
  obtain ⟨clean, unsigned, after⟩ := unsigned_text (t := format) (decimal_head digit)
  obtain ⟨based, chosen⟩ := decimal_chosen clean after
  obtain ⟨w, endptr, run, yields⟩ := strtol_read (by decide) based chosen
  have same := (Prod.mk.inj (run.symm.trans read)).2
  rw [inBase_ten, List.takeWhile_cons_of_pos digit, List.dropWhile_cons_of_pos digit] at yields
  have ends := (Prod.mk.inj yields).2
  rw [← Option.some.inj same, ends]
  exact List.length_dropWhile_le isdigit format

theorem scanFlag_shorter (step : scanFlag ch format l = some (l', some format')) :
    format'.length ≤ format.length := by
  unfold scanFlag at step
  split at step
  · cases step
    exact Nat.le_refl _
  · split at step
    · cases step
      exact Nat.le_refl _
    · split at step
      · cases step
        exact Nat.le_refl _
      · split at step
        · cases step
          exact Nat.le_refl _
        · split at step
          · next digit =>
            simp only [Option.some.injEq, Prod.mk.injEq] at step
            exact strtol_beyond digit (Prod.ext rfl step.2)
          · cases step

end

/-- Where the label in_scan leaves off: at the letter of the conversion. -/
inductive ScanParsed where
  | conv (ch : Byte) (l : Scanning) (format : List Byte)
  | stop
  | errOut
  | fault

/-- `ended` says that tpch is -1. -/
def inScan (ended : Bool) : List Byte → Scanning → ScanParsed
  | [], _ => if ended then .errOut else .stop
  | ch :: format, l =>
    if ch ≠ byte 'n' ∧ ended then .errOut
    else
      match _step : scanFlag ch format l with
      | some (l, some format) => inScan ended format l
      | some (_, none) => .fault
      | none => .conv ch l format
termination_by format => format.length
decreasing_by exact Nat.lt_succ_of_le (scanFlag_shorter _step)

theorem inScan_step {ended : Bool} {ch : Byte} {format : List Byte} {l : Scanning} :
    inScan ended (ch :: format) l =
      if ch ≠ byte 'n' ∧ ended then .errOut
      else
        match scanFlag ch format l with
        | some (l, some format) => inScan ended format l
        | some (_, none) => .fault
        | none => .conv ch l format := by
  rw [inScan]
  split
  · rfl
  · split <;> simp only [*]

theorem inScan_shorter {ended : Bool} {format : List Byte} {l : Scanning} {ch : Byte} {l' : Scanning}
    {format' : List Byte} (parsed : inScan ended format l = .conv ch l' format') :
    format'.length < format.length := by
  induction format, l using inScan.induct ended with
  | case1 l ended => simp [inScan, ended] at parsed
  | case2 l ended => simp [inScan, ended] at parsed
  | case3 c format l ends =>
    rw [inScan_step, if_pos ends] at parsed
    cases parsed
  | case4 c format l within l₁ format₁ step ih =>
    rw [inScan_step, if_neg within, step] at parsed
    exact Nat.lt_of_lt_of_le (ih parsed) (Nat.le_succ_of_le (scanFlag_shorter step))
  | case5 c format l within l₁ step =>
    rw [inScan_step, if_neg within, step] at parsed
    cases parsed
  | case6 c format l within step =>
    rw [inScan_step, if_neg within, step] at parsed
    injection parsed with _ _ ends
    exact ends ▸ Nat.lt_succ_self _

/-- `_div` for the letter of an integer conversion; 0 leaves it to the text. -/
def scanDiv (ch : Byte) : Word :=
  if ch = byte 'p' ∨ ch = byte 'X' ∨ ch = byte 'x' then 16
  else if ch = byte 'd' then 10
  else if ch = byte 'o' then 8
  else 0

def scanDigit (ch : Byte) : Word :=
  let c := ch.setWidth 32
  let d := c ||| 0x20
  if 0x61 ≤ d then d - 0x61 + 10 else if c ≤ 0x39 then c - 0x30 else 0xff

/-- `d=v*_div; v=(d<v)?ULLONG_MAX:d+c`. -/
def scanValue (div : Word) (v : BitVec 64) (c : Word) : BitVec 64 :=
  let d := v * div.setWidth 64
  if d < v then -1 else d + c.setWidth 64

def scanDigits (div : Word) : List Byte → Word → BitVec 64 → BitVec 64 × Nat
  | [], _, v => (v, 0)
  | ch :: text, width, v =>
    if width = 0 ∨ div ≤ scanDigit ch then (v, 0)
    else
      let (v, k) := scanDigits div text (width - 1) (scanValue div v (scanDigit ch))
      (v, k + 1)

def scanHex (div : Word) (s : Scan) : Word × Scan :=
  let s := s.skip 1
  match s.text with
  | c :: _ => if c ||| 32 = byte 'x' then (16, s.skip 1) else (div, s)
  | [] => (div, s)

def scanBase (flagWidth : Bool) (div : Word) (s : Scan) : Word × Scan :=
  if flagWidth then (div, s)
  else if div = 16 ∧ s.text.head? = some (byte '0') then scanHex div s
  else if div = 0 then if s.text.head? = some (byte '0') then scanHex 8 s else (10, s)
  else (div, s)

/-- The value with its sign; only for d, i and o, and not from 2^63 on. -/
def scanSign (ch : Byte) (neg : Bool) (v : BitVec 64) : BitVec 64 :=
  if (ch ||| 0x20) < byte 'p' ∧ v < 0x8000000000000000 ∧ neg then -v else v

def scanStored (l : Scanning) (v : BitVec 64) : Stored :=
  if l.flagLonglong then .longlong v
  else if l.flagLong then .long (v.setWidth 32)
  else if l.flagHalf then .short (v.setWidth 16)
  else .int (v.setWidth 32)

/-- What a conversion does: on with the format, `return n`, or out. -/
inductive Converted where
  | on (s : Scan)
  | ret (s : Scan)
  | errOut (s : Scan)

def scanNumber (ch : Byte) (l : Scanning) (neg : Bool) (s : Scan) : Converted :=
  if s.text = [] then .ret s
  else
    let consumedsofar := s.consumed
    let (div, s) := scanBase l.flagWidth (scanDiv ch) s
    let (v, k) := scanDigits div s.text l.width 0
    let s := s.skip k
    if consumedsofar = s.consumed then .ret s
    else if l.flagDiscard then .on s
    else
      let s := s.store (scanStored l (scanSign ch neg v))
      .on { s with n := if consumedsofar < s.consumed then s.n + 1 else s.n }

def scanInteger (ch : Byte) (l : Scanning) (s : Scan) : Converted :=
  let s := s.skipSpaces
  let neg := s.text.head? = some minusSign
  scanNumber ch l neg ((s.skipIf minusSign).skipIf plusSign)

def scanChars (l : Scanning) (s : Scan) : Scan :=
  let width := if l.flagWidth then l.width.toNat else 1
  let chars := s.text.take width
  let s := s.skip width
  if l.flagDiscard then s else { s.store (.chars chars) with n := s.n + 1 }

def scanString (l : Scanning) (s : Scan) : Scan :=
  let s := s.skipSpaces
  if s.text = [] then if l.flagDiscard then s else s.store .nothing
  else
    let chars := (s.text.takeWhile fun c => !isspace c).take l.width.toNat
    let s := s.skip chars.length
    if l.flagDiscard then s else { s.store (.string chars) with n := s.n + 1 }

def integerLetters : List Byte := bytes ['p', 'X', 'x', 'd', 'o', 'u', 'i']

def scanConvert (ch : Byte) (l : Scanning) (s : Scan) : Converted :=
  if ch = byte '%' then
    if s.text.head? = some ch then .on (s.skip 1) else .errOut s
  else if integerLetters.contains ch then scanInteger ch l s
  else if ch = byte 'c' then .on (scanChars l s)
  else if ch = byte 's' then .on (scanString l s)
  else if ch = byte 'n' then .on (if l.flagDiscard then s else s.store (.int (s.consumed - 1)))
  else .errOut s

/-- The loop over the format. What stands behind it for a last `%n` is never reached. -/
def vScanfLoop (format : List Byte) (s : Scan) : Option (Int × List Stored) :=
  match format with
  | [] => some s.errOut
  | ch :: format =>
    if isspace ch then vScanfLoop (format.dropWhile isspace) s.skipSpaces
    else if ch = byte '%' then
      match _parsed : inScan s.text.isEmpty format {} with
      | .conv ch l next =>
        match scanConvert ch l s with
        | .on s => vScanfLoop next s
        | .ret s => some (s.n, s.stored)
        | .errOut s => some s.errOut
      | .stop => some (0, s.stored)
      | .errOut => some s.errOut
      | .fault => none
    -- the -1 of the end of the text is compared as a char
    else if s.text.headD 0xff = ch then s.getc.bind (vScanfLoop format)
    else some s.errOut
termination_by format.length
decreasing_by
  · exact Nat.lt_succ_of_le (List.length_dropWhile_le isspace format)
  · exact Nat.lt_succ_of_lt (inScan_shorter _parsed)
  · exact Nat.lt_succ_self _

theorem vScanfLoop_on {format next : List Byte} {s s' : Scan} {ch : Byte} {l : Scanning}
    (parsed : inScan s.text.isEmpty format {} = .conv ch l next) (converted : scanConvert ch l s = .on s') :
    vScanfLoop (byte '%' :: format) s = vScanfLoop next s' := by
  rw [vScanfLoop, if_neg (by decide), if_pos rfl]
  split
  · next parsed' =>
    cases parsed.symm.trans parsed'
    rw [converted]
  all_goals
    next parsed' => cases parsed.symm.trans parsed'

theorem vScanfLoop_ret {format next : List Byte} {s s' : Scan} {ch : Byte} {l : Scanning}
    (parsed : inScan s.text.isEmpty format {} = .conv ch l next) (converted : scanConvert ch l s = .ret s') :
    vScanfLoop (byte '%' :: format) s = some ((s'.n : Int), s'.stored) := by
  rw [vScanfLoop, if_neg (by decide), if_pos rfl]
  split
  · next parsed' =>
    cases parsed.symm.trans parsed'
    rw [converted]
  all_goals
    next parsed' => cases parsed.symm.trans parsed'

theorem vScanfLoop_spaces {c : Byte} {format : List Byte} {s : Scan} (space : isspace c = true) :
    vScanfLoop (c :: format) s = vScanfLoop (format.dropWhile isspace) s.skipSpaces := by
  rw [vScanfLoop, if_pos space]

/-- The value returned, and what is stored through the pointers in turn. -/
def vsscanf (str format : CString) : Option (Int × List Stored) := vScanfLoop format.1 ⟨str.1, 1, 0, []⟩

end L4ertl
