import Mathlib.Algebra.Group.Nat.Defs
import Mathlib.Data.List.Basic

/-!
How a path is taken apart (open_sys in fs.c, slice and rootopen in devroot.c). A
buffer is the list of the bytes that have been written to it; writing behind its
end or reading behind what has been written is a fault.
-/
namespace L4ertl

abbrev Byte := BitVec 8

def bytes (text : List Char) : List Byte := text.map fun c => BitVec.ofNat 8 c.toNat

def slash : Byte := 0x2F#8
def nul : Byte := 0#8

/-- A string of C, without the NUL at its end. -/
def CString := { text : List Byte // nul ∉ text }

def knamelen : Nat := 28
def maxdepth : Nat := 10
def maxpath : Nat := 64

inductive PathFault where
  | dname
  | namecopy
  | tabname
  deriving DecidableEq, Repr

def isdigit (c : Byte) : Bool := decide (0x30#8 ≤ c ∧ c ≤ 0x39#8)

/-- What strcmp reads of a buffer. -/
def cText (buffer : List Byte) : List Byte := buffer.takeWhile (· ≠ nul)

def devPrefix : List Byte := bytes ['/', 'd', 'e', 'v', '/']

def stopFrom : List Byte → Nat → Option Nat
  | [], _ => none
  | c :: rest, i => if isdigit c ∨ c = slash then some i else stopFrom rest (i + 1)

/-- The index at which the device name ends. The length is an int: from 2^31 on it is
    negative, and the loop is not entered. -/
def stopIndex (path : List Byte) : Option Nat :=
  if path.length < 2 ^ 31 then stopFrom (path.drop devPrefix.length) devPrefix.length
  else some devPrefix.length

/-- The buffer dname after memset and strncpy; `none` where open_sys gives up before. -/
def deviceName (path : List Byte) : Except PathFault (Option (List Byte)) :=
  match stopIndex path with
  | none => .ok none
  | some i =>
    if knamelen < i + 1 then .error .dname
    else
      let dname := List.replicate (i + 1) nul
      .ok (some ((path.drop devPrefix.length).take (i - devPrefix.length) ++
        dname.drop (i - devPrefix.length)))

def pushName (name : List Nat) (i : Nat) : Except PathFault (List Nat) :=
  if name.length < maxdepth then .ok (name ++ [i]) else .error .tabname

/-- The loop of slice over the bytes from index `i` on: the path with its slashes
    replaced, and the indices that the entries of name point to. -/
def sliceLoop : List Byte → Nat → List Nat → Except PathFault (List Byte × List Nat)
  | [], _, _ => .error .namecopy
  | c :: rest, i, name =>
    if c = slash then do
      let name ← pushName name (i + 1)
      let (path, name) ← sliceLoop rest (i + 1) name
      return (nul :: path, name)
    else if c = nul then do
      let name ← pushName name (i + 1)
      return (c :: rest, name)
    else do
      let (path, name) ← sliceLoop rest (i + 1) name
      return (c :: path, name)

/-- slice: the strings that its entries point to, but for the last, which is not counted. -/
def slice (path : List Byte) : Except PathFault (List (List Byte)) := do
  let (path, name) ← sliceLoop path 0 (if path.head? = some slash then [] else [0])
  return name.dropLast.map fun i => cText (path.drop i)

def namecopy (path : List Byte) : List Byte := (path ++ [nul]).take maxpath

def cut (c : Byte) : Byte := if c = slash then nul else c

def nameStarts : List Byte → Nat → List Nat
  | [], _ => []
  | c :: rest, i => if c = slash then (i + 1) :: nameStarts rest (i + 1) else nameStarts rest (i + 1)

def textsAfter : List Byte → List (List Byte)
  | [] => []
  | c :: rest => if c = slash then rest.takeWhile (· ≠ slash) :: textsAfter rest else textsAfter rest

def names (path : List Byte) : List (List Byte) :=
  (if path.head? = some slash then [] else [path.takeWhile (· ≠ slash)]) ++ textsAfter path

/-- The path and its NUL have room in namecopy, and its names in tabname beside the one
    entry behind them. -/
def NameFits (path : List Byte) : Prop :=
  path.length < maxpath ∧
    path.count slash + (if path.head? = some slash then 0 else 1) < maxdepth

instance (path : List Byte) : Decidable (NameFits path) := inferInstanceAs (Decidable (_ ∧ _))

theorem slash_ne_nul : slash ≠ nul := by decide

theorem textsAfter_length (path : List Byte) : (textsAfter path).length = path.count slash := by
  induction path with
  | nil => rfl
  | cons c rest ih =>
    unfold textsAfter
    by_cases here : c = slash
    · rw [if_pos here, List.length_cons, ih, here, List.count_cons_self]
    · rw [if_neg here, ih, List.count_cons_of_ne here]

theorem pushName_ok {name : List Nat} {i : Nat} (room : name.length < maxdepth) :
    pushName name i = .ok (name ++ [i]) := if_pos room

theorem pushName_full {name : List Nat} {i : Nat} (full : ¬name.length < maxdepth) :
    pushName name i = .error .tabname := if_neg full

theorem sliceLoop_fits {path : List Byte} (clean : nul ∉ path) (rest : List Byte) (i : Nat)
    (name : List Nat) (room : name.length + path.count slash < maxdepth) :
    sliceLoop (path ++ nul :: rest) i name =
      .ok (path.map cut ++ nul :: rest, name ++ nameStarts path i ++ [i + path.length + 1]) := by
  induction path generalizing i name with
  | nil =>
    have room_ : name.length < maxdepth := by simpa using room
    simp only [List.nil_append, sliceLoop, if_neg slash_ne_nul.symm, pushName_ok room_, if_true]
    simp [nameStarts, bind, Except.bind, pure, Except.pure]
  | cons c path ih =>
    simp only [List.mem_cons, not_or] at clean
    rw [List.cons_append, sliceLoop]
    by_cases here : c = slash
    · rw [here, List.count_cons_self] at room
      have pushed : (name ++ [i + 1]).length + path.count slash < maxdepth := by
        rw [List.length_append, List.length_singleton]
        omega
      rw [if_pos here, pushName_ok (by omega)]
      simp only [bind, Except.bind, pure, Except.pure, ih clean.2 (i + 1) _ pushed]
      simp [nameStarts, cut, here, Nat.add_assoc, Nat.add_comm 1]
    · rw [List.count_cons_of_ne here] at room
      rw [if_neg here, if_neg (Ne.symm clean.1), ih clean.2 (i + 1) name room]
      simp [nameStarts, cut, here, bind, Except.bind, pure, Except.pure, Nat.add_assoc, Nat.add_comm 1]

theorem sliceLoop_deep {path : List Byte} (clean : nul ∉ path) (rest : List Byte) (i : Nat)
    (name : List Nat) (deep : maxdepth ≤ name.length + path.count slash) :
    sliceLoop (path ++ nul :: rest) i name = .error .tabname := by
  induction path generalizing i name with
  | nil =>
    have full : ¬name.length < maxdepth := by simpa using deep
    simp only [List.nil_append, sliceLoop, if_neg slash_ne_nul.symm, pushName_full full, if_true]
    rfl
  | cons c path ih =>
    simp only [List.mem_cons, not_or] at clean
    rw [List.cons_append, sliceLoop]
    by_cases here : c = slash
    · rw [here, List.count_cons_self] at deep
      rw [if_pos here]
      by_cases room : name.length < maxdepth
      · have pushed : maxdepth ≤ (name ++ [i + 1]).length + path.count slash := by
          rw [List.length_append, List.length_singleton]
          omega
        rw [pushName_ok room]
        simp only [bind, Except.bind, ih clean.2 (i + 1) _ pushed]
      · rw [pushName_full room]
        rfl
    · rw [List.count_cons_of_ne here] at deep
      rw [if_neg here, if_neg (Ne.symm clean.1), ih clean.2 (i + 1) name deep]
      rfl

theorem sliceLoop_endless {path : List Byte} (clean : nul ∉ path) (i : Nat) (name : List Nat) :
    ∃ fault, sliceLoop path i name = .error fault := by
  induction path generalizing i name with
  | nil => exact ⟨.namecopy, rfl⟩
  | cons c path ih =>
    simp only [List.mem_cons, not_or] at clean
    rw [sliceLoop]
    by_cases here : c = slash
    · rw [if_pos here]
      by_cases room : name.length < maxdepth
      · obtain ⟨fault, broken⟩ := ih clean.2 (i + 1) (name ++ [i + 1])
        rw [pushName_ok room]
        simp only [bind, Except.bind, broken]
        exact ⟨fault, rfl⟩
      · rw [pushName_full room]
        exact ⟨.tabname, rfl⟩
    · obtain ⟨fault, broken⟩ := ih clean.2 (i + 1) name
      rw [if_neg here, if_neg (Ne.symm clean.1), broken]
      exact ⟨fault, rfl⟩

theorem cText_cut {path : List Byte} (clean : nul ∉ path) :
    cText (path.map cut ++ [nul]) = path.takeWhile (· ≠ slash) := by
  induction path with
  | nil => rfl
  | cons c path ih =>
    simp only [List.mem_cons, not_or] at clean
    have rest := ih clean.2
    unfold cText at rest ⊢
    by_cases here : c = slash
    · simp [cut, here]
    · have kept : c ≠ nul := Ne.symm clean.1
      simp only [List.map_cons, List.cons_append, cut, if_neg here]
      rw [List.takeWhile_cons_of_pos (by simpa using kept),
        List.takeWhile_cons_of_pos (by simpa using here)]
      exact congrArg (c :: ·) rest

theorem nameStarts_texts {path : List Byte} (clean : nul ∉ path) (before : List Byte) :
    (nameStarts path before.length).map (fun i => cText ((before ++ path.map cut ++ [nul]).drop i)) =
      textsAfter path := by
  induction path generalizing before with
  | nil => rfl
  | cons c path ih =>
    simp only [List.mem_cons, not_or] at clean
    have step := ih clean.2 (before ++ [cut c])
    have whole : before ++ [cut c] ++ path.map cut ++ [nul] = before ++ (c :: path).map cut ++ [nul] := by
      simp
    rw [List.length_append, List.length_singleton, whole] at step
    unfold nameStarts textsAfter
    by_cases here : c = slash
    · have first : (before ++ (c :: path).map cut ++ [nul]).drop (before.length + 1) =
          path.map cut ++ [nul] := by
        rw [← whole, List.append_assoc]
        exact List.drop_left' (by simp)
      rw [if_pos here, if_pos here, List.map_cons, step, first, cText_cut clean.2]
    · rw [if_neg here, if_neg here, step]

theorem namecopy_short {path : List Byte} (short : path.length < maxpath) :
    namecopy path = path ++ [nul] := by
  apply List.take_of_length_le
  rw [List.length_append, List.length_singleton]
  exact short

theorem namecopy_long {path : List Byte} (long : ¬path.length < maxpath) :
    namecopy path = path.take maxpath := by
  unfold namecopy
  rw [List.take_append_of_le_length (by omega)]

theorem namecopy_head (path : List Byte) :
    (namecopy path).head? = some slash ↔ path.head? = some slash := by
  cases path with
  | nil => decide
  | cons c path => rfl

theorem slice_fits {path : List Byte} (clean : nul ∉ path) (fits : NameFits path) :
    slice (namecopy path) = .ok (names path) := by
  obtain ⟨short, few⟩ := fits
  simp only [slice, namecopy_head]
  rw [namecopy_short short, sliceLoop_fits clean [] 0]
  · have texts := nameStarts_texts clean []
    simp only [List.length_nil, List.nil_append] at texts
    simp only [bind, Except.bind, pure, Except.pure, List.dropLast_concat, List.map_append, texts, names]
    split
    · rfl
    · simp [cText_cut clean]
  · split at few
    · rename_i absolute
      rw [if_pos absolute, List.length_nil]
      omega
    · rename_i relative
      rw [if_neg relative, List.length_singleton]
      omega

theorem slice_faults {path : List Byte} (clean : nul ∉ path) (tight : ¬NameFits path) :
    ∃ fault, slice (namecopy path) = .error fault := by
  simp only [slice, namecopy_head]
  by_cases short : path.length < maxpath
  · have deep : maxdepth ≤ path.count slash + (if path.head? = some slash then 0 else 1) := by
      by_contra few
      exact tight ⟨short, by omega⟩
    rw [namecopy_short short, sliceLoop_deep clean []]
    · exact ⟨.tabname, rfl⟩
    · split at deep
      · rename_i absolute
        rw [if_pos absolute, List.length_nil]
        omega
      · rename_i relative
        rw [if_neg relative, List.length_singleton]
        omega
  · have cut : nul ∉ path.take maxpath := fun member => clean (List.mem_of_mem_take member)
    obtain ⟨fault, broken⟩ := sliceLoop_endless cut 0 (if path.head? = some slash then [] else [0])
    rw [namecopy_long short, broken]
    exact ⟨fault, rfl⟩

theorem deviceName_ok_iff (path : List Byte) :
    (∃ dname, deviceName path = .ok dname) ↔ ∀ i, stopIndex path = some i → i < knamelen := by
  unfold deviceName
  split
  · rename_i never
    constructor
    · intro _ i found
      rw [never] at found
      cases found
    · exact fun _ => ⟨none, rfl⟩
  · rename_i i found
    constructor
    · rintro ⟨dname, ok⟩ k also
      rw [found] at also
      cases also
      split at ok
      · cases ok
      · omega
    · intro short
      have room := short i found
      rw [if_neg (by omega)]
      exact ⟨_, rfl⟩

theorem deviceName_terminated {path dname : List Byte} (named : deviceName path = .ok (some dname)) :
    dname.length ≤ knamelen ∧ nul ∈ dname := by
  unfold deviceName at named
  split at named
  · cases named
  · split at named
    · cases named
    · cases named
      rw [List.drop_replicate]
      constructor
      · rw [List.length_append, List.length_take, List.length_replicate]
        omega
      · refine List.mem_append_right _ (List.mem_replicate.mpr ⟨?_, rfl⟩)
        simp only [devPrefix, bytes, List.map_cons, List.map_nil, List.length_cons, List.length_nil]
        omega

theorem cText_append {text rest : List Byte} (clean : nul ∉ text) :
    cText (text ++ nul :: rest) = text := by
  unfold cText
  rw [List.takeWhile_append_of_pos]
  · simp
  · intro c member
    have other : c ≠ nul := by
      rintro rfl
      exact clean member
    simpa using other

theorem deviceName_text {path dname : List Byte} (clean : nul ∉ path) {i : Nat}
    (stop : stopIndex path = some i) (named : deviceName path = .ok (some dname)) :
    cText dname = (path.drop devPrefix.length).take (i - devPrefix.length) := by
  unfold deviceName at named
  rw [stop] at named
  simp only at named
  split at named
  · cases named
  · cases named
    have more : i + 1 - (i - devPrefix.length) = i - (i - devPrefix.length) + 1 := by omega
    rw [List.drop_replicate, more, List.replicate_succ]
    apply cText_append
    exact fun member => clean (List.mem_of_mem_drop (List.mem_of_mem_take member))

theorem slice_ok_iff {path : List Byte} (clean : nul ∉ path) :
    (∃ found, slice (namecopy path) = .ok found) ↔ NameFits path := by
  constructor
  · rintro ⟨found, ok⟩
    by_contra tight
    obtain ⟨fault, broken⟩ := slice_faults clean tight
    rw [ok] at broken
    cases broken
  · intro fits
    exact ⟨_, slice_fits clean fits⟩

end L4ertl
