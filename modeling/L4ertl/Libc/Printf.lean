import L4ertl.Libc.Subject

/-!
__v_printf (stdarg.c of the kernel's libc, built without floating point). What is put is
kept piece by piece; reading behind a text, or an argument of another type, is a fault. A
char is unsigned on ARM.
-/
namespace L4ertl

def byte (c : Char) : Byte := BitVec.ofNat 8 c.toNat

/-- What va_arg can find: a long or an int, a long long, a string that may be NULL. -/
inductive VaArg where
  | word (w : Word)
  | dword (w : BitVec 64)
  | string (s : Option CString)

structure Out where
  pieces : List (List Byte)
  len : Word

namespace Out

/-- A_WRITE, and the length that goes with it. -/
def put (fn : Out) (piece : List Byte) : Out := ⟨fn.pieces ++ [piece], fn.len + BitVec.ofNat 32 piece.length⟩

def write (fn : Out) (s : List Byte) (sz : Word) : Option Out :=
  if s.length < sz.toNat then none else some (fn.put (s.take sz.toNat))

end Out

def padLine (padwith : Byte) (n : Nat) : List Byte :=
  List.replicate n (if padwith = byte '0' then byte '0' else byte ' ')

/-- The loop of write_pad and what it leaves; a length below zero is none. -/
def padFrom (fn : Out) (padwith : Byte) (len : Nat) : Out :=
  if 15 < len then padFrom (fn.put (padLine padwith 16)) padwith (len - 16)
  else if 0 < len then fn.put (padLine padwith len)
  else fn
termination_by len

def writePad (fn : Out) (len : Word) (padwith : Byte) : Out := padFrom fn padwith len.toInt.toNat

structure Conversion where
  padwith : Byte := 0x20#8
  flagHash : Byte := 0
  flagLeft : Bool := false
  flagSpace : Bool := false
  flagSign : Bool := false
  flagDot : Bool := false
  flagLong : BitVec 8 := 0
  width : Word := 0
  preci : Word := 0

/-- What one character behind the percent sign does: back to inn_printf, on to the
    conversion that it names, or out. -/
inductive FlagStep where
  | again (format : List Byte) (args : List VaArg) (l : Conversion)
  | convert
  | stop
  | fault

def plainFlag (ch : Byte) (l : Conversion) : Option Conversion :=
  if ch = byte '#' then some { l with flagHash := 0xff }
  else if ch = byte 'z' then some l
  else if ch = byte 'h' then some { l with flagLong := l.flagLong - 1 }
  else if ch = byte 'q' ∨ ch = byte 'L' then some { l with flagLong := l.flagLong + 2 }
  else if ch = byte 'l' then some { l with flagLong := l.flagLong + 1 }
  else if ch = byte '-' then some { l with flagLeft := true }
  else if ch = byte ' ' then some { l with flagSpace := true }
  else if ch = byte '+' then some { l with flagSign := true }
  else none

def readWidth (ch : Byte) (format : List Byte) (args : List VaArg) (l : Conversion) : FlagStep :=
  if l.flagDot then .stop
  else
    match strtoul (ch :: format) 10 with
    | (width, some s) =>
      .again s args { l with width := width, padwith := if ch = byte '0' ∧ ¬l.flagLeft then byte '0' else l.padwith }
    | (_, none) => .fault

def vaInt (args : List VaArg) (again : Word → List VaArg → FlagStep) : FlagStep :=
  match args with
  | .word w :: args => again w args
  | _ => .fault

def readPrecision (format : List Byte) (args : List VaArg) (l : Conversion) : FlagStep :=
  let preci (tmp : Word) := if tmp.toInt < 0 then 0 else tmp
  if byteAt format 0 = byte '*' then
    vaInt args fun tmp args => .again (format.drop 1) args { l with flagDot := true, preci := preci tmp }
  else
    match strtol format 10 with
    | (tmp, some s) => .again s args { l with flagDot := true, preci := preci tmp }
    | (_, none) => .fault

def flagStep (ch : Byte) (format : List Byte) (args : List VaArg) (l : Conversion) : FlagStep :=
  match plainFlag ch l with
  | some l => .again format args l
  | none =>
    if isdigit ch then readWidth ch format args l
    else if ch = byte '*' then vaInt args fun w args => .again format args { l with width := w }
    else if ch = byte '.' then readPrecision format args l
    else .convert

section
variable {ch : Byte} {format format' : List Byte} {args args' : List VaArg} {l l' : Conversion}

theorem strtoul_shorter {w : Word} (digit : isdigit ch = true) (read : strtoul (ch :: format) 10 = (w, some format')) :
    format'.length ≤ format.length := by
  rw [strtoul_decimal format digit] at read
  have ends : format.dropWhile isdigit = format' := Option.some.inj (Prod.mk.inj read).2
  exact ends ▸ List.length_dropWhile_le isdigit format

theorem strtol_shorter {w : Word} (read : strtol format 10 = (w, some format')) : format'.length ≤ format.length := by
  have decimal : 10 = 0 ∨ 2 ≤ 10 ∧ 10 ≤ 36 := .inr (by decide)
  obtain ⟨v, endptr, run, converts⟩ := strtol_converts decimal format
  have same := (Prod.mk.inj (run.symm.trans read)).2
  exact Option.some.inj same ▸ converts_shorter converts

theorem vaInt_again {again : Word → List VaArg → FlagStep} (step : vaInt args again = .again format' args' l') :
    ∃ w rest, args = .word w :: rest ∧ again w rest = .again format' args' l' := by
  unfold vaInt at step
  split at step
  · exact ⟨_, _, rfl, step⟩
  · cases step

theorem readWidth_shorter (digit : isdigit ch = true) (step : readWidth ch format args l = .again format' args' l') :
    format'.length ≤ format.length := by
  unfold readWidth at step
  split at step
  · cases step
  · split at step
    · next read =>
      injection step with ends
      exact ends ▸ strtoul_shorter digit read
    · cases step

theorem readPrecision_shorter (step : readPrecision format args l = .again format' args' l') :
    format'.length ≤ format.length := by
  unfold readPrecision at step
  split at step
  · obtain ⟨w, rest, -, again⟩ := vaInt_again step
    injection again with ends
    simp [← ends]
  · split at step
    · next read =>
      injection step with ends
      exact ends ▸ strtol_shorter read
    · cases step

theorem flagStep_shorter (step : flagStep ch format args l = .again format' args' l') :
    format'.length ≤ format.length := by
  unfold flagStep at step
  split at step
  · injection step with ends
    rw [ends]
  · split at step
    · next digit => exact readWidth_shorter digit step
    · split at step
      · obtain ⟨w, rest, -, again⟩ := vaInt_again step
        injection again with ends
        rw [ends]
      · split at step
        · exact readPrecision_shorter step
        · cases step

end

/-- Where inn_printf leaves off: at the character of the conversion. -/
inductive Parsed where
  | conv (ch : Byte) (l : Conversion) (format : List Byte) (args : List VaArg)
  | stop
  | fault

def innPrintf : List Byte → List VaArg → Conversion → Parsed
  | [], _, _ => .stop
  | ch :: format, args, l =>
    match _step : flagStep ch format args l with
    | .again format args l => innPrintf format args l
    | .convert => .conv ch l format args
    | .stop => .stop
    | .fault => .fault
termination_by format => format.length
decreasing_by exact Nat.lt_succ_of_le (flagStep_shorter _step)

theorem innPrintf_step {ch : Byte} {format : List Byte} {args : List VaArg} {l : Conversion} :
    innPrintf (ch :: format) args l =
      match flagStep ch format args l with
      | .again format args l => innPrintf format args l
      | .convert => .conv ch l format args
      | .stop => .stop
      | .fault => .fault := by
  rw [innPrintf]
  split <;> simp only [*]

theorem innPrintf_shorter {format : List Byte} {args : List VaArg} {l : Conversion} {ch : Byte} {l' : Conversion}
    {format' : List Byte} {args' : List VaArg} (parsed : innPrintf format args l = .conv ch l' format' args') :
    format'.length < format.length := by
  induction format, args, l using innPrintf.induct with
  | case1 args l => simp [innPrintf] at parsed
  | case2 c format args l format₁ args₁ l₁ step ih =>
    rw [innPrintf_step, step] at parsed
    exact Nat.lt_of_lt_of_le (ih parsed) (Nat.le_succ_of_le (flagStep_shorter step))
  | case3 c format args l step =>
    rw [innPrintf_step, step] at parsed
    injection parsed with _ _ ends
    exact ends ▸ Nat.lt_succ_self _
  | case4 c format args l step =>
    rw [innPrintf_step, step] at parsed
    cases parsed
  | case5 c format args l step =>
    rw [innPrintf_step, step] at parsed
    cases parsed

def ltostrDigit (upCase : Bool) (d : Byte) : Byte :=
  let c := d + byte '0'
  if byte '9' < c then c + ((if upCase then byte 'A' else byte 'a') - byte '9' - 1) else c

/-- The loop of __ltostr and __lltostr, from the end of the buffer to its start. -/
def ltostrLoop {w : Nat} (base : BitVec w) (upCase : Bool) : Nat → BitVec w → List Byte → List Byte
  | 0, _, tmp => tmp
  | room + 1, i, tmp =>
    if i = 0 then tmp
    else ltostrLoop base upCase room (i / base) (ltostrDigit upCase ((i % base).setWidth 8) :: tmp)

def ltostr {w : Nat} (size : Nat) (i : BitVec w) (base : Nat) (upCase : Bool) : List Byte :=
  let base := if base = 0 ∨ 36 < base then 10 else base
  if i = 0 then [byte '0'] else ltostrLoop (BitVec.ofNat w base) upCase (size - 1) i []

/-- The label print_out: `s` is the text with its sign, `inSign` whether it has one. -/
def printOut (fn : Out) (l : Conversion) (s : List Byte) (sz : Word) (inSign : Bool) : Option Out :=
  if l.width = 0 ∧ l.preci = 0 then fn.write s sz
  else
    let todo := if l.flagHash ≠ 0 then l.flagHash.toNat else if inSign then 1 else 0
    if s.length < todo ∨ sz.toNat < todo then none
    else
      let sign := s.take todo
      let s := s.drop todo
      let sz := sz - BitVec.ofNat 32 todo
      let width := l.width - BitVec.ofNat 32 todo
      let putSign (fn : Out) := if todo ≠ 0 then fn.put sign else fn
      let vs := if sz < l.preci then l.preci else sz
      if ¬l.flagLeft then
        if l.flagDot then (writePad (putSign (writePad fn (width - vs) (byte ' '))) (l.preci - sz) (byte '0')).write s sz
        else if l.padwith = byte '0' then (writePad (putSign fn) (width - sz) l.padwith).write s sz
        else (putSign (writePad fn (width - sz) l.padwith)).write s sz
      else
        ((writePad (putSign fn) (l.preci - sz) (byte '0')).write s sz).map fun fn =>
          writePad fn (width - vs) (byte ' ')

/-- What the letter of an integer conversion stands for, with what `#` puts in front. -/
structure NumberForm where
  base : Nat
  upCase : Bool
  inSign : Bool
  front : List Byte
  l : Conversion

def numberForm (ch : Byte) (l : Conversion) : NumberForm :=
  if ch = byte 'b' then ⟨2, false, false, [], l⟩
  else if ch = byte 'd' ∨ ch = byte 'i' then ⟨10, false, true, [], l⟩
  else if ch = byte 'u' then ⟨10, false, false, [], l⟩
  else if ch = byte 'o' then
    if l.flagHash ≠ 0 then ⟨8, false, false, [byte '0'], { l with flagHash := 1 }⟩ else ⟨8, false, false, [], l⟩
  else
    let (ch, l) := if ch = byte 'p' then (byte 'x', { l with flagHash := 2, flagLong := 1 }) else (ch, l)
    let width := if l.width < l.preci then l.preci else l.width
    if l.flagHash ≠ 0 then
      ⟨16, ch = byte 'X', false, [byte '0', ch], { l with flagHash := 2, width := width }⟩
    else ⟨16, ch = byte 'X', false, [], { l with width := width }⟩

/-- The label num_printf behind va_arg, for the digits of the number. -/
def numPrintf (fn : Out) (f : NumberForm) (negative : Bool) (digits : List Byte) : Option Out :=
  let l := f.l
  let (sz, flagHash) :=
    if l.flagDot ∧ digits = [byte '0'] then
      (if l.preci = 0 ∨ l.flagHash ≠ 0 then 0 else f.front.length, 0#8)
    else (f.front.length + digits.length, l.flagHash)
  let sign :=
    if negative then [byte '-']
    else if f.inSign ∧ (l.flagSign ∨ l.flagSpace) then [if l.flagSign then byte '+' else byte ' ']
    else []
  printOut fn { l with flagHash := flagHash } (sign ++ f.front ++ digits) (BitVec.ofNat 32 (sign.length + sz)) (sign ≠ [])

def bufSize : Nat := 128

def number (fn : Out) (f : NumberForm) (args : List VaArg) : Option (Out × List VaArg) :=
  if 1 < f.l.flagLong.toInt then
    match args with
    | .dword n :: args =>
      let negative := f.inSign ∧ n.toInt < 0
      let digits := ltostr (bufSize - 5) (if negative then -n else n) f.base f.upCase
      (numPrintf fn f negative digits).map (·, args)
    | _ => none
  else
    match args with
    | .word n :: args =>
      let negative := f.inSign ∧ n.toInt < 0
      let n := if negative then -n else n
      let n := if f.l.flagLong.toInt < 0 then n &&& 0xffff else n
      let n := if f.l.flagLong.toInt < -1 then n &&& 0xff else n
      (numPrintf fn f negative (ltostr (bufSize - 5) n f.base f.upCase)).map (·, args)
    | _ => none

def numberLetters : List Byte := bytes ['b', 'p', 'X', 'x', 'd', 'i', 'u', 'o']

def convert (fn : Out) (ch : Byte) (l : Conversion) (args : List VaArg) : Option (Out × List VaArg) :=
  if ch = byte '%' then some (fn.put [ch], args)
  else if ch = byte 'c' then
    match args with
    | .word w :: args => some (fn.put [w.setWidth 8], args)
    | _ => none
  else if ch = byte 's' then
    match args with
    | .string s :: args =>
      let s := match s with
        | some s => s.1
        | none => bytes ['(', 'n', 'u', 'l', 'l', ')']
      let sz := BitVec.ofNat 32 s.length
      let sz := if l.flagDot ∧ l.preci < sz then l.preci else sz
      (printOut fn { l with preci := 0, flagDot := false, padwith := byte ' ' } s sz false).map (·, args)
    | _ => none
  else if ch ∈ numberLetters then number fn (numberForm ch l) args
  else some (fn, args)

def vPrintfLoop (format : List Byte) (args : List VaArg) (fn : Out) : Option (Out × Int) :=
  let text := format.takeWhile (· ≠ byte '%')
  let fn := if text ≠ [] then fn.put text else fn
  match _rest : format.dropWhile (· ≠ byte '%') with
  | [] => some (fn, fn.len.toInt)
  | _ :: spec =>
    match _parsed : innPrintf spec args {} with
    | .conv ch l next args => (convert fn ch l args).bind fun (fn, args) => vPrintfLoop next args fn
    | .stop => some (fn, -1)
    | .fault => none
termination_by format.length
decreasing_by
  have shorter := innPrintf_shorter _parsed
  have le := List.length_dropWhile_le (· ≠ byte '%') format
  rw [_rest] at le
  exact Nat.lt_of_lt_of_le shorter (Nat.le_of_succ_le le)

theorem vPrintfLoop_step (format : List Byte) (args : List VaArg) (fn : Out) :
    vPrintfLoop format args fn =
      let text := format.takeWhile (· ≠ byte '%')
      let fn := if text ≠ [] then fn.put text else fn
      match format.dropWhile (· ≠ byte '%') with
      | [] => some (fn, fn.len.toInt)
      | _ :: spec =>
        match innPrintf spec args {} with
        | .conv ch l next args => (convert fn ch l args).bind fun (fn, args) => vPrintfLoop next args fn
        | .stop => some (fn, -1)
        | .fault => none := by
  rw [vPrintfLoop]
  split
  · next rest => simp only [rest]
  · next rest =>
    simp only [rest]
    split
    · next parsed => simp only [parsed]
    · next parsed => simp only [parsed]
    · next parsed => simp only [parsed]

/-- The pieces that are put, and the value returned. -/
def vPrintf (format : CString) (args : List VaArg) : Option (List (List Byte) × Int) :=
  (vPrintfLoop format.1 args ⟨[], 0⟩).map fun (fn, n) => (fn.pieces, n)

end L4ertl
