import L4ertl.Core.Paths
import L4ertl.Lib.Fields
import L4ertl.Lib.Strings

/-!
The functions of string.c on strings in memory. A loop that runs to the end of a
string has its rounds counted. A string lies within the address space, so what only
counts its bytes is a natural number.
-/
namespace L4ertl

def strlenLoop (m : Bytes.Memory) : Nat → Nat → Nat → Option Nat
  | 0, _, _ => none
  | rounds + 1, s, i => if Bytes.byteAt m s = nul then some i else strlenLoop m rounds (s + 1) (i + 1)

def strlen (rounds : Nat) (m : Bytes.Memory) (s : Nat) : Option Nat :=
  if s = 0 then some 0 else strlenLoop m rounds s 0

/-- The rounds of a loop up to a length that is kept in an int. -/
def intRounds (length : Nat) : Nat := if length < 2 ^ 31 then length else 0

/-- The inner loop of strspn and strcspn: whether one of `n` bytes from `set` on is `c`. -/
def isIn (m : Bytes.Memory) (c : Byte) : Nat → Nat → Bool
  | 0, _ => false
  | n + 1, set => if c = Bytes.byteAt m set then true else isIn m c n (set + 1)

/-- Their outer loop: how many bytes come before one that does not pass. -/
def spanLoop (passes : Byte → Bool) (m : Bytes.Memory) : Nat → Nat → Nat → Option Nat
  | 0, _, _ => none
  | rounds + 1, s, l =>
    if Bytes.byteAt m s = nul then some l
    else if passes (Bytes.byteAt m s) then spanLoop passes m rounds (s + 1) (l + 1)
    else some l

def strspn (rounds : Nat) (m : Bytes.Memory) (s accept : Nat) : Option Nat := do
  let al ← strlen rounds m accept
  spanLoop (fun c => isIn m c (intRounds al) accept) m rounds s 0

def strcspn (rounds : Nat) (m : Bytes.Memory) (s reject : Nat) : Option Nat := do
  let al ← strlen rounds m reject
  spanLoop (fun c => !isIn m c (intRounds al) reject) m rounds s 0

structure StrtokResult where
  mem : Bytes.Memory
  saved : Nat
  ret : Nat

/-- A null pointer is 0; *ptrptr is apart from the memory. -/
def strtokR (rounds : Nat) (m : Bytes.Memory) (s delim saved : Nat) : Option StrtokResult := do
  let s := if s = 0 then saved else s
  let s := s + (← strspn rounds m s delim)
  if Bytes.byteAt m s ≠ nul then
    let tmp := s
    let s := s + (← strcspn rounds m s delim)
    if Bytes.byteAt m s ≠ nul then return ⟨Bytes.storeByte m s nul, s + 1, tmp⟩
    else return ⟨m, s, tmp⟩
  else return ⟨m, s, 0⟩

variable {m : Bytes.Memory} {rounds s : Nat} {text chars : List Byte}

theorem strlenLoop_holds (holds : Bytes.Holds m s text) (enough : text.length < rounds) (i : Nat) :
    strlenLoop m rounds s i = some (i + text.length) := by
  induction text generalizing rounds s i with
  | nil =>
    obtain ⟨rounds, rfl⟩ := Nat.exists_eq_add_one.mpr enough
    exact if_pos holds
  | cons c text ih =>
    obtain ⟨rounds, rfl⟩ := Nat.exists_eq_add_one.mpr (Nat.lt_of_le_of_lt (Nat.zero_le _) enough)
    rw [List.length_cons] at enough
    have here : Bytes.byteAt m s ≠ nul := by
      rw [holds.2.1]
      exact holds.1
    rw [strlenLoop, if_neg here, ih holds.2.2 (by omega), List.length_cons]
    congr 1
    omega

theorem strlen_holds (holds : Bytes.Holds m s text) (somewhere : s ≠ 0) (enough : text.length < rounds) :
    strlen rounds m s = some text.length := by
  rw [strlen, if_neg somewhere, strlenLoop_holds holds enough, Nat.zero_add]

theorem isIn_holds {set : Nat} (holds : Bytes.Holds m set chars) (c : Byte) :
    isIn m c chars.length set = decide (c ∈ chars) := by
  induction chars generalizing set with
  | nil => simp [isIn]
  | cons d chars ih =>
    rw [List.length_cons, isIn, holds.2.1, ih holds.2.2]
    by_cases same : c = d <;> simp [same]

theorem spanLoop_holds (passes : Byte → Bool) (holds : Bytes.Holds m s text) (enough : text.length < rounds)
    (l : Nat) : spanLoop passes m rounds s l = some (l + (text.takeWhile passes).length) := by
  induction text generalizing rounds s l with
  | nil =>
    obtain ⟨rounds, rfl⟩ := Nat.exists_eq_add_one.mpr enough
    exact if_pos holds
  | cons c text ih =>
    obtain ⟨rounds, rfl⟩ := Nat.exists_eq_add_one.mpr (Nat.lt_of_le_of_lt (Nat.zero_le _) enough)
    rw [List.length_cons] at enough
    have here : Bytes.byteAt m s ≠ nul := by
      rw [holds.2.1]
      exact holds.1
    rw [spanLoop, if_neg here, holds.2.1]
    by_cases goes : passes c = true
    · rw [if_pos goes, ih holds.2.2 (by omega), List.takeWhile_cons_of_pos goes, List.length_cons]
      congr 1
      omega
    · rw [if_neg goes, List.takeWhile_cons_of_neg goes]
      rfl

structure Delimiters (rounds : Nat) (m : Bytes.Memory) (delim : Nat) (chars : List Byte) : Prop where
  somewhere : delim ≠ 0
  holds : Bytes.Holds m delim chars
  enough : chars.length < rounds
  short : chars.length < 2 ^ 31

def among (chars : List Byte) (c : Byte) : Bool := chars.contains c

theorem strspn_holds {delim : Nat} (delims : Delimiters rounds m delim chars) (holds : Bytes.Holds m s text)
    (enough : text.length < rounds) :
    strspn rounds m s delim = some (text.takeWhile (among chars)).length := by
  have set : (fun c => isIn m c (intRounds chars.length) delim) = among chars := by
    funext c
    rw [intRounds, if_pos delims.short, isIn_holds delims.holds, among, List.contains_eq_mem]
  rw [strspn, strlen_holds delims.holds delims.somewhere delims.enough, Option.bind_eq_bind, Option.bind_some, set,
    spanLoop_holds _ holds enough, Nat.zero_add]

theorem strcspn_holds {delim : Nat} (delims : Delimiters rounds m delim chars) (holds : Bytes.Holds m s text)
    (enough : text.length < rounds) :
    strcspn rounds m s delim = some (text.takeWhile fun c => !among chars c).length := by
  have set : (fun c => !isIn m c (intRounds chars.length) delim) = fun c => !among chars c := by
    funext c
    rw [intRounds, if_pos delims.short, isIn_holds delims.holds, among, List.contains_eq_mem]
  rw [strcspn, strlen_holds delims.holds delims.somewhere delims.enough, Option.bind_eq_bind, Option.bind_some, set,
    spanLoop_holds _ holds enough, Nat.zero_add]

end L4ertl
