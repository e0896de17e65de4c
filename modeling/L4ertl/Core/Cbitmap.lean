import L4ertl.Core.Bitop
import L4ertl.Lib.Scan

/-!
The bitmaps of cbitmap.h over an array of words. What the searches read is part
of their result. Their loops count the rounds, because one of them need not end,
and `int` and `unsigned int` are 32-bit words that wrap.
-/
namespace L4ertl
open Scan

def bitsPerWord : Nat := 32

def arraySize (bits : Nat) : Nat :=
  if bits % bitsPerWord ≠ 0 then bits / bitsPerWord + 1 else bits / bitsPerWord

/-- The words from `array` on, also those behind the bitmap, and an `unsigned int`. -/
structure Cbitmap where
  array : Nat → Word
  nbits : Nat
  small : nbits < 2 ^ 32

def fillWords (array : Nat → Word) (count : Nat) (v : Word) (i : Nat) : Word :=
  if i < count then v else array i

def initCbitmap (buffer : Nat → Word) (nbits : Nat) (small : nbits < 2 ^ 32) : Cbitmap :=
  ⟨fillWords buffer (arraySize nbits) 0#32, nbits, small⟩

def clearCbitmap (b : Cbitmap) : Cbitmap :=
  { b with array := fillWords b.array (arraySize b.nbits) 0#32 }

def setCbitmap (b : Cbitmap) : Cbitmap :=
  { b with array := fillWords b.array (arraySize b.nbits) (BitVec.allOnes 32) }

def setbitCbitmap (b : Cbitmap) (bitp : Nat) : Int × Cbitmap :=
  let aEntry := bitp / bitsPerWord
  let bit := bitp % bitsPerWord
  if bitp ≥ b.nbits then (-1, b)
  else (0, { b with array := Function.update b.array aEntry (b.array aEntry ||| (1#32 <<< bit)) })

def clearbitCbitmap (b : Cbitmap) (bitp : Nat) : Int × Cbitmap :=
  let aEntry := bitp / bitsPerWord
  let bit := bitp % bitsPerWord
  if bitp ≥ b.nbits then (-1, b)
  else (0, { b with array := Function.update b.array aEntry (b.array aEntry &&& ~~~(1#32 <<< bit)) })

def isbitsetCbitmap (b : Cbitmap) (bitp : Nat) : Int :=
  let aEntry := bitp / bitsPerWord
  let bit := bitp % bitsPerWord
  if bitp ≥ b.nbits then 0 else (b.array aEntry &&& (1#32 <<< bit)).toInt

structure FfbsState where
  aEntry : Nat
  bit : Word
  reads : List Nat
  deriving DecidableEq, Repr

def ffbsRound (b : Cbitmap) (s : FfbsState) : FfbsState :=
  if b.array s.aEntry = 0#32 then { s with aEntry := s.aEntry + 1, reads := s.aEntry :: s.reads }
  else { s with
    bit := BitVec.ofInt 32 (ffs (b.array s.aEntry)) + BitVec.ofNat 32 (s.aEntry * bitsPerWord)
    reads := s.aEntry :: s.reads }

/-- The result and the words read. -/
def findfbsCbitmap (rounds : Nat) (b : Cbitmap) : Option (Int × List Nat) :=
  (whileLoop (fun s => s.bit == -1#32 && decide (s.aEntry < arraySize b.nbits)) (ffbsRound b)
    rounds ⟨0, -1#32, []⟩).map fun s => (s.bit.toInt, s.reads)

/-- One of the two loops at `finish`, by the number of bits it drops each time. -/
def shiftOut (w rounds : Nat) (bit tmp : Word) : Option (Word × Word) :=
  whileLoop (fun s => lowClear s.2 w) (fun s => (s.1 + BitVec.ofNat 32 w, s.2 >>> w)) rounds (bit, tmp)

def finish (rounds : Nat) (bit : Word) (aEntry : Nat) (tmp : Word) : Option Int :=
  match shiftOut 8 rounds (bit + BitVec.ofNat 32 (aEntry * bitsPerWord)) tmp with
  | none => none
  | some (bit, tmp) => (shiftOut 1 rounds bit tmp).map fun s => s.1.toInt

def skipWords (rounds : Nat) (b : Cbitmap) (aEntry : Nat) (reads : List Nat) : Option (Nat × List Nat) :=
  (whileLoop (fun s => b.array s.1 == 0#32 && decide (s.1 < arraySize b.nbits))
    (fun s => (s.1 + 1, s.1 :: s.2)) rounds (aEntry, reads)).map fun s => (s.1, s.1 :: s.2)

def fromNextWord (rounds : Nat) (b : Cbitmap) (aEntry : Nat) (reads : List Nat) : Option (Int × List Nat) :=
  match skipWords rounds b ((aEntry + 1) % 2 ^ 32) reads with
  | none => none
  | some (aEntry, reads) =>
    if aEntry ≥ arraySize b.nbits then some (-1, reads)
    else (finish rounds 0#32 aEntry (b.array aEntry)).map fun next => (next, aEntry :: reads)

def findnbsCbitmap (rounds : Nat) (b : Cbitmap) (bitp : Int) : Option (Int × List Nat) :=
  let bitp := BitVec.ofInt 32 bitp + 1#32
  let aEntry := (bitp.sdiv (BitVec.ofNat 32 bitsPerWord)).toNat
  let bit := bitp.srem (BitVec.ofNat 32 bitsPerWord)
  if bitp.toNat ≥ b.nbits then some (-1, [])
  else
    let tmp := b.array aEntry >>> bit.toNat
    let reads := if bit ≠ 0#32 then [aEntry] else []
    if bit ≠ 0#32 ∧ tmp ≠ 0#32 then (finish rounds bit aEntry tmp).map fun next => (next, reads)
    else fromNextWord rounds b aEntry reads

/-- `findnbs_cbitmap` on each previous result until -1: the bits and the words read. -/
def nextBits (b : Cbitmap) (rounds : Nat) : Nat → Int → Option (List Int × List Nat)
  | 0, _ => none
  | calls + 1, bit =>
    if bit = -1 then some ([], [])
    else
      match findnbsCbitmap rounds b bit with
      | none => none
      | some (next, reads) =>
        (nextBits b rounds calls next).map fun (bits, more) => (bit :: bits, reads ++ more)

def bitsFound (rounds : Nat) (b : Cbitmap) : Option (List Int × List Nat) :=
  match findfbsCbitmap rounds b with
  | none => none
  | some (first, reads) =>
    (nextBits b rounds rounds first).map fun (bits, more) => (bits, reads ++ more)

inductive CbitmapCall where
  | setbit (bitp : Nat)
  | clearbit (bitp : Nat)
  | set
  | clear
  deriving DecidableEq, Repr

def CbitmapCall.run (b : Cbitmap) : CbitmapCall → Cbitmap
  | .setbit bitp => (setbitCbitmap b bitp).2
  | .clearbit bitp => (clearbitCbitmap b bitp).2
  | .set => setCbitmap b
  | .clear => clearCbitmap b

end L4ertl
