import L4ertl.Core.FileReads

/-!
What read_sys, write_sys and ioctl_sys make of the results of the drivers (fs.c). The
drivers fail with a negative result, and the calls turn its sign.
-/
namespace L4ertl

def Reported (ret result : Word) : Prop :=
  (result.toInt < 0 ↔ ret.toInt < 0) ∧ (0 ≤ ret.toInt → result = ret)

def ReadReported (d : Device) (t : RootTab) (fd : Int) (count : Word) (s : Fs) : Prop :=
  ∃ r, readSys t fd count s = some r ∧
    Reported (d.read t fd.toNat count (s.files fd.toNat).pos s).ret r.ret

def WriteReported (d : Device) (fd : Int) (str : List Byte) (count : Word) (s : Fs) : Prop :=
  ∃ r, writeSys fd str count s = some r ∧ Reported (d.write fd.toNat str count s).2 r.2

def IoctlReported (d : Device) (fd : Int) (cmd arg : Word) (s : Fs) : Prop :=
  ∃ r, ioctlSys fd cmd arg s = some r ∧
    (r.2.toInt < 0 ↔ ∀ op, d.ioctl = some op → (op fd cmd arg s).2.toInt < 0)

/-- A count that the clamp of readData cuts or that is its own negation, or nothing to read. -/
def CountFits (len : Nat) (count : Word) (pos : BitVec 64) : Prop :=
  count.toNat ≤ 2 ^ 31 ∨ pos.toInt < 0 ∨ len ≤ pos.toNat

def ReadFits (d : Device) (t : RootTab) (f : File) (count : Word) : Prop :=
  match d with
  | .console =>
    match f.qid.path.toNat with
    | 0 | 3 => True
    | 1 => CountFits listdevices.length count f.pos
    | 4 => version.length ≤ posWord f.pos ∨ posWord f.pos + count.toNat < 2 ^ 32
    | _ => False
  | .root => CountFits (t.rootdata f.qid.path.toNat).len.toNat count f.pos
  | .test => True

def WriteFits (d : Device) (f : File) (str : List Byte) (count : Word) : Prop :=
  match d with
  | .console =>
    match f.qid.path.toNat with
    | 0 => min count.toNat str.length ≤ 2 ^ 31
    | 3 => count.toNat ≤ 2 ^ 31
    | _ => False
  | .root => False
  | .test => True

theorem reported_negated_iff (ret : Word) : Reported ret (negated ret) ↔ ret.toNat ≤ 2 ^ 31 := by
  have bound := ret.isLt
  by_cases small : ret.toNat < 2 ^ 31
  · have value := toInt_of_small small
    have same : negated ret = ret := if_neg (by omega)
    rw [same]
    exact ⟨fun _ => Nat.le_of_lt small, fun _ => ⟨Iff.rfl, fun _ => rfl⟩⟩
  · have negative := toInt_of_large (n := ret) (by omega)
    have turned : negated ret = -ret := if_pos negative
    rw [turned, Reported]
    by_cases least : ret.toNat = 2 ^ 31
    · have self : -ret = ret := by
        apply BitVec.eq_of_toNat_eq
        rw [BitVec.toNat_neg, least]
        rfl
      rw [self]
      exact ⟨fun _ => Nat.le_of_eq least, fun _ => ⟨Iff.rfl, fun _ => rfl⟩⟩
    · have size : (-ret).toNat = 2 ^ 32 - ret.toNat := by
        rw [BitVec.toNat_neg]
        exact Nat.mod_eq_of_lt (by omega)
      have value := toInt_of_small (n := -ret) (by omega)
      constructor
      · intro right
        have below := right.1.mpr negative
        omega
      · intro few
        omega

theorem not_reported_failed : ¬Reported (-1) (negated (-1)) := by
  rw [reported_negated_iff]
  decide

theorem reported_nothing : Reported 0 (negated 0) := by
  rw [reported_negated_iff]
  decide

section
variable {fd : Int} {s : Fs} {d : Device} (taken : s.Open fd)
  (device : deviceOf (s.files fd.toNat).type = some d)
include taken device

theorem readReported_iff_negated (t : RootTab) (count : Word) :
    ReadReported d t fd count s ↔
      Reported (d.read t fd.toNat count (s.files fd.toNat).pos s).ret
        (negated (d.read t fd.toNat count (s.files fd.toNat).pos s).ret) := by
  simp [ReadReported, readSys, if_pos taken, device]

theorem writeReported_iff_negated (str : List Byte) (count : Word) :
    WriteReported d fd str count s ↔
      Reported (d.write fd.toNat str count s).2 (negated (d.write fd.toNat str count s).2) := by
  simp [WriteReported, writeSys, if_pos taken, device]

theorem ioctlSys_null (cmd arg : Word) : ioctlSys fd cmd arg s = none := by
  have null : d.ioctl = none := by cases d <;> rfl
  simp only [ioctlSys, if_pos taken, device, Option.bind_eq_bind, Option.bind_some, null, Option.bind_none]

end

theorem readData_reported_iff (src : Nat → Byte) {len : Nat} (fd : Nat) (n : Word) (offset : BitVec 64) (s : Fs) :
    Reported (readData src len fd n offset s).ret (negated (readData src len fd n offset s).ret) ↔
      CountFits len n offset := by
  unfold CountFits
  by_cases nonneg : 0 ≤ offset.toInt
  · by_cases past : len ≤ offset.toNat
    · rw [readData_end src fd n s nonneg past]
      exact ⟨fun _ => Or.inr (Or.inr past), fun _ => reported_nothing⟩
    · rw [reported_negated_iff]
      by_cases small : n.toNat < 2 ^ 31
      · rw [readData_small src fd s nonneg (by omega) small, BitVec.toNat_ofNat]
        have short : clamped len n offset ≤ n.toNat := Nat.min_le_left ..
        omega
      · rw [readData_large src fd s nonneg (by omega) (by omega)]
        simp only
        omega
  · have nothing : readData src len fd n offset s = ⟨s, [], 0⟩ := if_pos (Or.inl (by omega))
    rw [nothing]
    exact ⟨fun _ => Or.inr (Or.inl (by omega)), fun _ => reported_nothing⟩

theorem sysctl_reported_iff (off n : Word) (behind : Nat → Byte) :
    Reported (readstr off n version behind).2 (negated (readstr off n version behind).2) ↔
      version.length ≤ off.toNat ∨ off.toNat + n.toNat < 2 ^ 32 := by
  have word : version.length < 2 ^ 32 := by
    rw [version_length]
    decide
  have count := n.isLt
  rw [reported_negated_iff]
  by_cases past : version.length ≤ off.toNat
  · rw [readstr_end behind word past]
    exact ⟨fun _ => Or.inl past, fun _ => Nat.zero_le _⟩
  · rw [readstr_inside behind word (by omega)]
    rw [version_length] at past ⊢
    by_cases fits : off.toNat + n.toNat < 2 ^ 32
    · rw [if_pos fits, BitVec.toNat_ofNat]
      omega
    · rw [if_neg fits]
      simp only
      omega

theorem writeCons_toNat (n : Word) {str : List Byte} (word : str.length < 2 ^ 32) :
    (writeCons str n).toNat = min n.toNat str.length := by
  have size : (BitVec.ofNat 32 str.length).toNat = str.length := toNat_ofNat_small word
  simp only [writeCons, BitVec.lt_def, size]
  split
  · omega
  · rw [size]
    omega

theorem consread_reported_iff (t : RootTab) (fd : Nat) (count : Word) (s : Fs) :
    Reported (consread t fd count (s.files fd).pos s).ret (negated (consread t fd count (s.files fd).pos s).ret) ↔
      ReadFits .console t (s.files fd) count := by
  unfold consread ReadFits
  generalize (s.files fd).qid.path.toNat = q
  match q with
  | 0 | 3 => exact ⟨fun _ => trivial, fun _ => reported_nothing⟩
  | 1 => exact readData_reported_iff _ fd count _ s
  | 4 =>
    have low : ((s.files fd).pos.setWidth 32).toNat = posWord (s.files fd).pos := BitVec.toNat_setWidth ..
    have text := sysctl_reported_iff ((s.files fd).pos.setWidth 32) count t.behind
    rw [low] at text
    exact text
  | 2 | _ + 5 => exact ⟨fun right => absurd right not_reported_failed, False.elim⟩

theorem conswrite_reported_iff (fd : Nat) {str : List Byte} (word : str.length < 2 ^ 32) (count : Word) (s : Fs) :
    Reported (conswrite fd str count s).2 (negated (conswrite fd str count s).2) ↔
      WriteFits .console (s.files fd) str count := by
  unfold conswrite WriteFits
  generalize (s.files fd).qid.path.toNat = q
  match q with
  | 0 =>
    have text := reported_negated_iff (writeCons str count)
    rw [writeCons_toNat count word] at text
    exact text
  | 3 => exact reported_negated_iff count
  | 1 | 2 | 4 | _ + 5 => exact ⟨fun right => absurd right not_reported_failed, False.elim⟩

/-- A read is reported as it went where its count is at most 2^31 or nothing is left (the
    version: where adding the count to the position does not wrap), but for the files
    that cannot be read; a write where it puts at most 2^31 bytes to the console or to
    null, or goes to the test device; and an ioctl never. -/
theorem driver_errors_iff (t : RootTab) {fd : Int} {s : Fs} {d : Device} (taken : s.Open fd)
    (device : deviceOf (s.files fd.toNat).type = some d) :
    (∀ count, ReadReported d t fd count s ↔ ReadFits d t (s.files fd.toNat) count) ∧
    (∀ str count, str.length < 2 ^ 32 →
      (WriteReported d fd str count s ↔ WriteFits d (s.files fd.toNat) str count)) ∧
    ∀ cmd arg, ¬IoctlReported d fd cmd arg s := by
  refine ⟨?_, ?_, ?_⟩
  · intro count
    rw [readReported_iff_negated taken device]
    cases d with
    | console => exact consread_reported_iff t fd.toNat count s
    | root => exact readData_reported_iff _ fd.toNat count _ s
    | test => exact ⟨fun _ => trivial, fun _ => reported_nothing⟩
  · intro str count word
    rw [writeReported_iff_negated taken device]
    cases d with
    | console => exact conswrite_reported_iff fd.toNat word count s
    | root => exact ⟨fun right => absurd right not_reported_failed, False.elim⟩
    | test => exact ⟨fun _ => trivial, fun _ => reported_nothing⟩
  · rintro cmd arg ⟨r, result, _⟩
    rw [ioctlSys_null taken device] at result
    cases result

theorem driver_errors_iff_notes :
    ReadReported .root (prtkcfRoot (fun _ => 0x61#8) 5) 0 3#32 notesOpen ∧
      ¬WriteReported .root 0 [0x61#8] 1#32 notesOpen := by
  have taken : notesOpen.Open 0 := by decide
  have device : deviceOf (notesOpen.files (0 : Int).toNat).type = some .root := by decide
  obtain ⟨reads, writes, _⟩ := driver_errors_iff (prtkcfRoot (fun _ => 0x61#8) 5) taken device
  exact ⟨(reads 3#32).mpr (Or.inl (by decide)), (writes [0x61#8] 1#32 (by decide)).not.mpr id⟩

theorem rootwrite_succeeds :
    (∃ w, writeSys 0 [0x61#8] 1#32 notesOpen = some (w, 1) ∧ w.errno = eperm) ∧
      (Device.root.write 0 [0x61#8] 1#32 notesOpen).2 = -1 ∧
      ¬WriteReported .root 0 [0x61#8] 1#32 notesOpen ∧ ioctlSys 0 0 0 notesOpen = none := by
  have taken : notesOpen.Open 0 := by decide
  have device : deviceOf (notesOpen.files (0 : Int).toNat).type = some .root := by decide
  refine ⟨⟨notesOpen.setErrno eperm, ?_, rfl⟩, rfl, ?_, ioctlSys_null taken device 0 0⟩
  · rw [writeSys, if_pos taken, device]
    rfl
  · rw [writeReported_iff_negated taken device]
    exact not_reported_failed

end L4ertl
