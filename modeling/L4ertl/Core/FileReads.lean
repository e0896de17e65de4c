import L4ertl.Core.RootTree
import L4ertl.Lib.Lts
import L4ertl.Lib.StreamReads

/-!
Reading files: how the drivers cut a count to what is left of their data
(rootread, consread, readstr), and what the reads of a file of the root device
return one after the other.
-/
namespace L4ertl
open StreamReads

theorem copied_length (src : Nat → Byte) (start : Nat) (n : Word) : (copied src start n).length = n.toNat := by
  simp [copied]

theorem toNat_ofNat_small {k : Nat} (small : k < 2 ^ 32) : (BitVec.ofNat 32 k).toNat = k := by
  rw [BitVec.toNat_ofNat]
  exact Nat.mod_eq_of_lt small

def clamped (len : Nat) (n : Word) (offset : BitVec 64) : Nat := min n.toNat (len - offset.toNat)

theorem toInt_of_small {n : Word} (small : n.toNat < 2 ^ 31) : n.toInt = n.toNat := by
  rw [BitVec.toInt_eq_toNat_cond]
  split <;> omega

theorem toInt_of_large {n : Word} (large : 2 ^ 31 ≤ n.toNat) : n.toInt < 0 := by
  have bound := n.isLt
  rw [BitVec.toInt_eq_toNat_cond]
  split <;> omega

theorem offset_toInt {offset : BitVec 64} (nonneg : 0 ≤ offset.toInt) : offset.toInt = offset.toNat := by
  have bound := offset.isLt
  rw [BitVec.toInt_eq_toNat_cond] at nonneg ⊢
  split at nonneg <;> split <;> omega

theorem readData_end (src : Nat → Byte) {len : Nat} (fd : Nat) (n : Word) {offset : BitVec 64} (s : Fs)
    (nonneg : 0 ≤ offset.toInt) (past : len ≤ offset.toNat) :
    readData src len fd n offset s = ⟨s, [], 0⟩ := by
  unfold readData
  rw [if_pos]
  rw [offset_toInt nonneg]
  omega

theorem readData_small (src : Nat → Byte) {len : Nat} (fd : Nat) {n : Word} {offset : BitVec 64} (s : Fs)
    (nonneg : 0 ≤ offset.toInt) (inside : offset.toNat < len) (small : n.toNat < 2 ^ 31) :
    readData src len fd n offset s =
      ⟨s.advance fd (BitVec.ofNat 32 (clamped len n offset)),
        copied src offset.toNat (BitVec.ofNat 32 (clamped len n offset)),
        BitVec.ofNat 32 (clamped len n offset)⟩ := by
  have same := offset_toInt nonneg
  have count := toInt_of_small small
  have cut_ : (if (len : Int) < offset.toInt + n.toInt then BitVec.ofInt 32 (len - offset.toInt) else n) =
      BitVec.ofNat 32 (clamped len n offset) := by
    rw [same, count]
    unfold clamped
    split
    · rename_i beyond
      have less : min n.toNat (len - offset.toNat) = len - offset.toNat := by omega
      have left : (len : Int) - offset.toNat = ((len - offset.toNat : Nat) : Int) := by omega
      rw [less, left, BitVec.ofInt_natCast]
    · rename_i within
      have all : min n.toNat (len - offset.toNat) = n.toNat := by omega
      rw [all, BitVec.ofNat_toNat, BitVec.setWidth_eq]
  unfold readData
  rw [if_neg (by rw [same]; omega), cut_]

theorem readData_large (src : Nat → Byte) {len : Nat} (fd : Nat) {n : Word} {offset : BitVec 64} (s : Fs)
    (nonneg : 0 ≤ offset.toInt) (inside : offset.toNat < len) (large : 2 ^ 31 ≤ n.toNat) :
    readData src len fd n offset s = ⟨s.advance fd n, copied src offset.toNat n, n⟩ := by
  have same := offset_toInt nonneg
  have negative := toInt_of_large large
  unfold readData
  rw [if_neg (by rw [same]; omega), if_neg (by rw [same]; omega)]

/-- What a read must do with data of length `available`: copy no more than is left behind
    the position, say how much it was, and not move the position back. -/
structure Clamped (available : Nat) (count : Word) (fd : Nat) (s : Fs) (r : Transfer) : Prop where
  atMost : r.copied.length ≤ clamped available count (s.files fd).pos
  exactly : r.ret.toInt = r.copied.length
  forward : (s.files fd).pos.toInt ≤ (r.fs.files fd).pos.toInt

theorem clamped_nothing (available : Nat) (count : Word) (fd : Nat) (s : Fs) :
    Clamped available count fd s ⟨s, [], 0⟩ :=
  ⟨Nat.zero_le _, rfl, le_rfl⟩

theorem advance_pos (s : Fs) (fd : Nat) (n : Word) :
    ((s.advance fd n).files fd).pos = (s.files fd).pos + n.signExtend 64 := by
  simp [Fs.advance, Fs.setFile]

theorem pos_add {pos : BitVec 64} {k : Nat} (small : k < 2 ^ 31) (room : pos.toNat + k < 2 ^ 64) :
    (pos + (BitVec.ofNat 32 k).signExtend 64).toNat = pos.toNat + k := by
  have value : (BitVec.ofNat 32 k).toNat = k := toNat_ofNat_small (by omega)
  have sign : (BitVec.ofNat 32 k).msb = false := by
    rw [BitVec.msb_eq_false_iff_two_mul_lt, value]
    omega
  have wide : ((BitVec.ofNat 32 k).signExtend 64).toNat = k := by
    rw [BitVec.signExtend_eq_setWidth_of_msb_false sign, BitVec.toNat_setWidth, value]
    exact Nat.mod_eq_of_lt (by omega)
  rw [BitVec.toNat_add, wide]
  exact Nat.mod_eq_of_lt room

theorem clamped_some {available k : Nat} {count : Word} {fd : Nat} {s : Fs} (src : Nat → Byte)
    (nonneg : 0 ≤ (s.files fd).pos.toInt) (start : Nat) (left : k ≤ clamped available count (s.files fd).pos)
    (small : k < 2 ^ 31) (room : (s.files fd).pos.toNat + k < 2 ^ 63) :
    Clamped available count fd s
      ⟨s.advance fd (BitVec.ofNat 32 k), copied src start (BitVec.ofNat 32 k), BitVec.ofNat 32 k⟩ := by
  have value : (BitVec.ofNat 32 k).toNat = k := toNat_ofNat_small (by omega)
  have length : (copied src start (BitVec.ofNat 32 k)).length = k := by
    rw [copied_length, value]
  constructor
  · rw [length]
    exact left
  · have result := toInt_of_small (n := BitVec.ofNat 32 k) (by omega)
    rw [length, result, value]
  · have few : (s.files fd).pos.toNat + k < 2 ^ 64 := by omega
    have moved := pos_add small few
    rw [advance_pos, offset_toInt nonneg, BitVec.toInt_eq_toNat_cond, moved]
    split <;> omega

theorem not_clamped_negative {available : Nat} {count n : Word} {fd : Nat} {s w : Fs} {text : List Byte}
    (large : 2 ^ 31 ≤ n.toNat) : ¬Clamped available count fd s ⟨w, text, n⟩ := by
  intro right
  have negative := toInt_of_large large
  have length := right.exactly
  simp only at length
  omega

theorem readData_clamped_iff (src : Nat → Byte) {len : Nat} (word : len < 2 ^ 32) (fd : Nat) (n : Word) (s : Fs)
    (nonneg : 0 ≤ (s.files fd).pos.toInt) :
    Clamped len n fd s (readData src len fd n (s.files fd).pos s) ↔
      n.toNat < 2 ^ 31 ∨ len ≤ (s.files fd).pos.toNat := by
  by_cases past : len ≤ (s.files fd).pos.toNat
  · rw [readData_end src fd n s nonneg past]
    exact ⟨fun _ => Or.inr past, fun _ => clamped_nothing len n fd s⟩
  · by_cases small : n.toNat < 2 ^ 31
    · rw [readData_small src fd s nonneg (by omega) small]
      refine ⟨fun _ => Or.inl small, fun _ => ?_⟩
      have short : clamped len n (s.files fd).pos ≤ n.toNat := Nat.min_le_left ..
      exact clamped_some src nonneg _ le_rfl (by omega) (by omega)
    · rw [readData_large src fd s nonneg (by omega) (by omega)]
      constructor
      · intro right
        exact absurd right (not_clamped_negative (by omega))
      · intro good
        omega

structure ReadstrRight (off n : Word) (str : List Byte) (r : List Byte × Word) : Prop where
  atMost : r.1.length ≤ min n.toNat (str.length - off.toNat)
  exactly : r.2.toInt = r.1.length

theorem readstr_inside {off n : Word} {str : List Byte} (behind : Nat → Byte) (word : str.length < 2 ^ 32)
    (inside : off.toNat < str.length) :
    readstr off n str behind =
      if off.toNat + n.toNat < 2 ^ 32 then
        (copied (stored str behind) off.toNat (BitVec.ofNat 32 (min n.toNat (str.length - off.toNat))),
          BitVec.ofNat 32 (min n.toNat (str.length - off.toNat)))
      else (copied (stored str behind) off.toNat n, n) := by
  have size : (BitVec.ofNat 32 str.length).toNat = str.length := toNat_ofNat_small word
  have offset := off.isLt
  have count := n.isLt
  have cut_ : (if BitVec.ofNat 32 str.length < off + n then BitVec.ofNat 32 str.length - off else n) =
      if off.toNat + n.toNat < 2 ^ 32 then BitVec.ofNat 32 (min n.toNat (str.length - off.toNat)) else n := by
    simp only [BitVec.lt_def, size, BitVec.toNat_add]
    by_cases fits : off.toNat + n.toNat < 2 ^ 32
    · rw [if_pos fits, Nat.mod_eq_of_lt fits]
      split
      · have less : min n.toNat (str.length - off.toNat) = str.length - off.toNat := by omega
        apply BitVec.eq_of_toNat_eq
        rw [less, BitVec.toNat_sub, size, BitVec.toNat_ofNat]
        omega
      · have all : min n.toNat (str.length - off.toNat) = n.toNat := by omega
        rw [all, BitVec.ofNat_toNat, BitVec.setWidth_eq]
    · rw [if_neg fits, if_neg (by omega)]
  have some_ : ¬BitVec.ofNat 32 str.length ≤ off := by
    rw [BitVec.le_def, size]
    omega
  unfold readstr
  simp only [if_neg some_, cut_]
  split <;> rfl

theorem readstr_end {off n : Word} {str : List Byte} (behind : Nat → Byte) (word : str.length < 2 ^ 32)
    (past : str.length ≤ off.toNat) : readstr off n str behind = ([], 0) := by
  unfold readstr
  rw [if_pos]
  rw [BitVec.le_def, toNat_ofNat_small word]
  exact past

theorem readstr_right_iff (off n : Word) (str : List Byte) (behind : Nat → Byte) (word : str.length < 2 ^ 32) :
    ReadstrRight off n str (readstr off n str behind) ↔
      str.length ≤ off.toNat ∨
        off.toNat + n.toNat < 2 ^ 32 ∧ min n.toNat (str.length - off.toNat) < 2 ^ 31 := by
  have count := n.isLt
  by_cases past : str.length ≤ off.toNat
  · rw [readstr_end behind word past]
    exact ⟨fun _ => Or.inl past, fun _ => ⟨Nat.zero_le _, rfl⟩⟩
  · rw [readstr_inside behind word (by omega)]
    by_cases fits : off.toNat + n.toNat < 2 ^ 32
    · rw [if_pos fits]
      have value : (BitVec.ofNat 32 (min n.toNat (str.length - off.toNat))).toNat =
          min n.toNat (str.length - off.toNat) := toNat_ofNat_small (by omega)
      constructor
      · intro right
        have length := right.exactly
        rw [copied_length, value] at length
        refine Or.inr ⟨fits, ?_⟩
        by_contra large
        have negative := toInt_of_large (n := BitVec.ofNat 32 (min n.toNat (str.length - off.toNat)))
          (by omega)
        simp only at length
        omega
      · intro good
        have small : min n.toNat (str.length - off.toNat) < 2 ^ 31 := by omega
        have result := toInt_of_small (n := BitVec.ofNat 32 (min n.toNat (str.length - off.toNat)))
          (by omega)
        constructor
        · rw [copied_length, value]
        · rw [copied_length, result, value]
    · rw [if_neg fits]
      constructor
      · intro right
        have more := right.atMost
        rw [copied_length] at more
        omega
      · intro good
        omega

theorem version_length : version.length = 26 := by decide

theorem listdevices_length : listdevices.length = 27 := by decide

theorem consread_drivers {t : RootTab} {fd : Nat} {s : Fs} (drivers : (s.files fd).qid.path.toNat = 1)
    (n : Word) (offset : BitVec 64) :
    consread t fd n offset s = readData (stored listdevices t.behind) (27 : Nat) fd n offset s := by
  simp only [consread, drivers, listdevices_length]

theorem consread_sysctl {t : RootTab} {fd : Nat} {s : Fs} (sysctl : (s.files fd).qid.path.toNat = 4)
    (n : Word) (offset : BitVec 64) :
    consread t fd n offset s =
      ⟨s.advance fd (readstr (offset.setWidth 32) n version t.behind).2,
        (readstr (offset.setWidth 32) n version t.behind).1,
        (readstr (offset.setWidth 32) n version t.behind).2⟩ := by
  simp only [consread, sysctl]

theorem advance_zero (s : Fs) (fd : Nat) : s.advance fd 0 = s := by
  have stays : (s.files fd).pos + (0 : Word).signExtend 64 = (s.files fd).pos := by simp
  simp only [Fs.advance, Fs.setFile, stays]
  rw [Function.update_eq_self]

/-- The low word of the position is what readstr gets. -/
def posWord (pos : BitVec 64) : Nat := pos.toNat % 2 ^ 32

theorem sysctl_clamped_iff (t : RootTab) (fd : Nat) (n : Word) (s : Fs)
    (sysctl : (s.files fd).qid.path.toNat = 4) (nonneg : 0 ≤ (s.files fd).pos.toInt) :
    Clamped 26 n fd s (consread t fd n (s.files fd).pos s) ↔
      26 ≤ posWord (s.files fd).pos ∨
        posWord (s.files fd).pos + n.toNat < 2 ^ 32 ∧ ((s.files fd).pos.toNat < 2 ^ 32 ∨ n.toNat = 0) := by
  have off : ((s.files fd).pos.setWidth 32).toNat = posWord (s.files fd).pos := BitVec.toNat_setWidth ..
  have word : version.length < 2 ^ 32 := by
    rw [version_length]
    decide
  have count := n.isLt
  have part : posWord (s.files fd).pos ≤ (s.files fd).pos.toNat := Nat.mod_le ..
  rw [consread_sysctl sysctl]
  by_cases past : 26 ≤ posWord (s.files fd).pos
  · rw [readstr_end t.behind word (by rw [version_length, off]; exact past), advance_zero]
    exact ⟨fun _ => Or.inl past, fun _ => clamped_nothing 26 n fd s⟩
  · have inside : ((s.files fd).pos.setWidth 32).toNat < version.length := by
      rw [version_length, off]
      omega
    rw [readstr_inside t.behind word inside, off, version_length]
    by_cases fits : posWord (s.files fd).pos + n.toNat < 2 ^ 32
    · rw [if_pos fits]
      constructor
      · intro right
        refine Or.inr ⟨fits, ?_⟩
        have most := right.atMost
        simp only [copied_length, clamped, BitVec.toNat_ofNat] at most
        omega
      · intro good
        have least : min n.toNat (26 - posWord (s.files fd).pos) ≤ clamped 26 n (s.files fd).pos := by
          unfold clamped
          rcases good with beyond | ⟨_, low | none_⟩
          · exact absurd beyond past
          · have whole : posWord (s.files fd).pos = (s.files fd).pos.toNat := Nat.mod_eq_of_lt low
            rw [whole]
          · omega
        have same := offset_toInt nonneg
        have bound := BitVec.toInt_lt (x := (s.files fd).pos)
        apply clamped_some (stored version t.behind) nonneg _ least (by omega)
        unfold posWord at past ⊢
        omega
    · rw [if_neg fits]
      constructor
      · intro right
        exact absurd right (not_clamped_negative (n := n) (by omega))
      · intro good
        omega

/-- rootread and the list of the drivers clamp a count below 2^31, and every count at the
    end. The version is clamped where the position has 32 bits and adding the count to it
    does not wrap, and behind its end as long as the low word of the position shows it;
    readstr likewise, for results that an int can hold. -/
theorem reads_clamp_iff (t : RootTab) (fd : Nat) (count : Word) (s : Fs) (nonneg : 0 ≤ (s.files fd).pos.toInt) :
    (Clamped (t.rootdata (s.files fd).qid.path.toNat).len.toNat count fd s
        (rootread t fd count (s.files fd).pos s) ↔
      count.toNat < 2 ^ 31 ∨ (t.rootdata (s.files fd).qid.path.toNat).len.toNat ≤ (s.files fd).pos.toNat) ∧
    ((s.files fd).qid.path.toNat = 1 →
      (Clamped listdevices.length count fd s (consread t fd count (s.files fd).pos s) ↔
        count.toNat < 2 ^ 31 ∨ listdevices.length ≤ (s.files fd).pos.toNat)) ∧
    ((s.files fd).qid.path.toNat = 4 →
      (Clamped version.length count fd s (consread t fd count (s.files fd).pos s) ↔
        version.length ≤ posWord (s.files fd).pos ∨
          posWord (s.files fd).pos + count.toNat < 2 ^ 32 ∧
            ((s.files fd).pos.toNat < 2 ^ 32 ∨ count.toNat = 0))) ∧
    ∀ (off : Word) (str : List Byte), str.length < 2 ^ 32 →
      (ReadstrRight off count str (readstr off count str t.behind) ↔
        str.length ≤ off.toNat ∨
          off.toNat + count.toNat < 2 ^ 32 ∧ min count.toNat (str.length - off.toNat) < 2 ^ 31) := by
  refine ⟨?_, ?_, ?_, ?_⟩
  · exact readData_clamped_iff _ (BitVec.isLt _) fd count s nonneg
  · intro drivers
    rw [consread_drivers drivers, listdevices_length]
    exact readData_clamped_iff _ (by decide) fd count s nonneg
  · intro sysctl
    rw [version_length]
    exact sysctl_clamped_iff t fd count s sysctl nonneg
  · intro off str word
    exact readstr_right_iff off count str t.behind word

def notesOpen : Fs := (Fs.start fun _ => .free).setFile 0 ⟨1, ⟨4, 0, qtfile⟩, 0, 0⟩

theorem reads_clamp_iff_notes :
    Clamped 5 3#32 0 notesOpen (rootread (prtkcfRoot (fun _ => 0x61#8) 5) 0 3#32 0 notesOpen) :=
  (reads_clamp_iff (prtkcfRoot (fun _ => 0x61#8) 5) 0 3#32 notesOpen (by decide)).1.mpr (Or.inl (by decide))

/-- A count of 2^31 is not cut to the five bytes of the file. -/
theorem rootread_overruns :
    let r := rootread (prtkcfRoot (fun _ => 0x61#8) 5) 0 0x80000000#32 0 notesOpen
    r.copied.length = 2 ^ 31 ∧ r.ret.toInt < 0 ∧ (r.fs.files 0).pos.toInt < 0 ∧
      ¬Clamped 5 0x80000000#32 0 notesOpen r := by
  intro r
  have large : 2 ^ 31 ≤ (0x80000000#32).toNat := by simp
  have nonneg : 0 ≤ (0 : BitVec 64).toInt := by decide
  have inside : (0 : BitVec 64).toNat < 5 := by decide
  have five : (Rootdata.len ⟨3, fun _ => 0x61#8, 0, some 5⟩).toNat = 5 := by decide
  have data : r = readData (fun _ => 0x61#8) (Rootdata.len ⟨3, fun _ => 0x61#8, 0, some 5⟩).toNat 0
      0x80000000#32 0 notesOpen := rfl
  have whole := readData_large (fun _ => 0x61#8) 0 notesOpen nonneg inside large
  rw [data, five, whole]
  refine ⟨?_, by decide, ?_, not_clamped_negative large⟩
  · rw [copied_length]
    simp
  · rw [advance_pos]
    decide

end L4ertl
