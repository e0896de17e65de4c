import Mathlib.Tactic.FinCases
import L4ertl.Core.FileReads

/-!
The reads of one file of the root device, through several descriptors: each
descriptor goes through the contents once, whatever the others do.
-/
namespace L4ertl
open StreamReads

structure ReadCall where
  fd : Int
  count : Word
  deriving DecidableEq, Repr

structure ReadDone where
  call : ReadCall
  copied : List Byte
  ret : Word

def readStep (t : RootTab) (s : Fs) (c : ReadCall) : Option (Fs × List ReadDone) :=
  (readSys t c.fd c.count s).map fun r => (r.fs, [⟨c, r.copied, r.ret⟩])

def RootTab.contents (t : RootTab) (e : Nat) : List Byte :=
  (List.range (t.rootdata e).len.toNat).map (t.rootdata e).ptr

structure OpenOn (e : Nat) (s : Fs) (fd : Int) : Prop where
  taken : s.Open fd
  device : deviceOf (s.files fd.toNat).type = some .root
  file : (s.files fd.toNat).qid.path.toNat = e

def returned (rs : List ReadDone) : Nat := (rs.map fun r => r.copied.length).sum

/-- The calls of one descriptor return the contents from the start, each as much of what
    is left as it asks for, and the position counts the bytes. -/
structure ReadOnce (contents : List Byte) (rs : List ReadDone) (pos : BitVec 64) : Prop where
  text : (rs.map fun r => r.copied).flatten =
    contents.take (min contents.length (rs.map fun r => r.call.count.toNat).sum)
  each : ∀ before r after, rs = before ++ r :: after →
    r.copied.length = min r.call.count.toNat (contents.length - returned before) ∧
      r.ret.toInt = r.copied.length
  position : pos.toNat = returned rs
  ended : ∀ before r after, rs = before ++ r :: after → contents.length ≤ returned before → r.ret = 0

variable {t : RootTab} {e : Nat}

theorem contents_length : (t.contents e).length = (t.rootdata e).len.toNat := by
  simp [RootTab.contents]

theorem copied_contents {p n : Nat} (small : n < 2 ^ 32) (inside : p + n ≤ (t.contents e).length) :
    copied (t.rootdata e).ptr p (BitVec.ofNat 32 n) = ((t.contents e).drop p).take n := by
  have value : (BitVec.ofNat 32 n).toNat = n := toNat_ofNat_small small
  apply List.ext_getElem
  · rw [copied_length, value, List.length_take, List.length_drop]
    omega
  · intro i one two
    simp [copied, RootTab.contents]

theorem negated_small {n : Word} (small : n.toNat < 2 ^ 31) : negated n = n := by
  rw [negated, if_neg]
  rw [toInt_of_small small]
  omega

theorem readSys_root {s : Fs} {fd : Int} (on : OpenOn e s fd) (count : Word) :
    readSys t fd count s =
      let r := readData (t.rootdata e).ptr (t.rootdata e).len.toNat fd.toNat count (s.files fd.toNat).pos s
      some { r with ret := negated r.ret } := by
  rw [readSys, if_pos on.taken, on.device, Option.map_some, Device.read, rootread, on.file]

theorem readData_frame (src : Nat → Byte) (len : Int) (fd : Nat) (n : Word) (offset : BitVec 64) (s : Fs) :
    (∀ k, k ≠ fd → (readData src len fd n offset s).fs.files k = s.files k) ∧
      ((readData src len fd n offset s).fs.files fd).type = (s.files fd).type ∧
      ((readData src len fd n offset s).fs.files fd).qid = (s.files fd).qid := by
  unfold readData
  split
  · exact ⟨fun _ _ => rfl, rfl, rfl⟩
  · simp only [Fs.advance, Fs.setFile, Function.update_self]
    exact ⟨fun k other => Function.update_of_ne other .., trivial, trivial⟩

theorem OpenOn.read {s w : Fs} {fd : Int} {n : Word} {offset : BitVec 64} {src : Nat → Byte} {len : Int}
    {k : Nat} (on : OpenOn e s fd) (after : w = (readData src len k n offset s).fs) : OpenOn e w fd := by
  obtain ⟨others, type, qid⟩ := readData_frame src len k n offset s
  rw [← after] at others type qid
  have same : (w.files fd.toNat).type = (s.files fd.toNat).type ∧
      (w.files fd.toNat).qid = (s.files fd.toNat).qid := by
    by_cases self : fd.toNat = k
    · rw [self]
      exact ⟨type, qid⟩
    · rw [others _ self]
      exact ⟨rfl, rfl⟩
  refine ⟨⟨on.taken.1, on.taken.2.1, ?_⟩, ?_, ?_⟩
  · rw [same.1]
    exact on.taken.2.2
  · rw [same.1]
    exact on.device
  · rw [same.2]
    exact on.file

theorem readSys_at {s : Fs} {fd : Int} (on : OpenOn e s fd) {count : Word} (small : count.toNat < 2 ^ 31)
    (short : (t.contents e).length < 2 ^ 31) {p : Nat} (at_ : (s.files fd.toNat).pos.toNat = p)
    (within : p ≤ (t.contents e).length) :
    ∃ r, readSys t fd count s = some r ∧ r.copied = ((t.contents e).drop p).take count.toNat ∧
      r.ret.toInt = r.copied.length ∧ (r.fs.files fd.toNat).pos.toNat = p + r.copied.length ∧
      r.fs = (readData (t.rootdata e).ptr (t.rootdata e).len.toNat fd.toNat count (s.files fd.toNat).pos s).fs := by
  refine ⟨_, readSys_root on count, ?_⟩
  have nonneg : 0 ≤ (s.files fd.toNat).pos.toInt := by
    rw [BitVec.toInt_eq_toNat_cond, at_]
    split <;> omega
  rw [contents_length] at within short
  by_cases past : (t.rootdata e).len.toNat ≤ (s.files fd.toNat).pos.toNat
  · have nothing : ((t.contents e).drop p).take count.toNat = [] := by
      rw [List.drop_of_length_le (by rw [contents_length]; omega), List.take_nil]
    rw [readData_end _ fd.toNat count s nonneg past, nothing]
    exact ⟨rfl, rfl, at_, rfl⟩
  · have left : clamped (t.rootdata e).len.toNat count (s.files fd.toNat).pos < 2 ^ 31 := by
      unfold clamped
      omega
    have value : (BitVec.ofNat 32 (clamped (t.rootdata e).len.toNat count (s.files fd.toNat).pos)).toNat =
        clamped (t.rootdata e).len.toNat count (s.files fd.toNat).pos := toNat_ofNat_small (by omega)
    have inside : p + clamped (t.rootdata e).len.toNat count (s.files fd.toNat).pos ≤
        (t.contents e).length := by
      rw [contents_length, clamped, at_]
      omega
    have cut_ : ((t.contents e).drop p).take (clamped (t.rootdata e).len.toNat count (s.files fd.toNat).pos) =
        ((t.contents e).drop p).take count.toNat := by
      rw [clamped, at_, ← contents_length, ← List.length_drop]
      exact List.take_eq_take_min.symm
    rw [readData_small _ fd.toNat s nonneg (by omega) small]
    simp only [negated_small (value.symm ▸ left), advance_pos, copied_length, value]
    refine ⟨?_, toInt_of_small (value.symm ▸ left) ▸ by rw [value], ?_, trivial⟩
    · rw [at_, copied_contents (by omega) inside, cut_]
    · rw [pos_add left (by omega), at_]

def ofFd (fd : Int) (rs : List ReadDone) : List ReadDone := rs.filter fun r => r.call.fd = fd

theorem ofFd_cons (fd : Int) (r : ReadDone) (rs : List ReadDone) :
    ofFd fd (r :: rs) = if r.call.fd = fd then r :: ofFd fd rs else ofFd fd rs := by
  by_cases own : r.call.fd = fd
  · rw [if_pos own]
    exact List.filter_cons_of_pos (by simpa using own)
  · rw [if_neg own]
    exact List.filter_cons_of_neg (by simpa using own)

theorem readSys_other {s : Fs} {fd other : Int} (on : OpenOn e s other) (apart : fd.toNat ≠ other.toNat)
    (count : Word) :
    ∃ r, readSys t other count s = some r ∧ r.fs.files fd.toNat = s.files fd.toNat ∧
      r.fs = (readData (t.rootdata e).ptr (t.rootdata e).len.toNat other.toNat count
        (s.files other.toNat).pos s).fs := by
  refine ⟨_, readSys_root on count, ?_, rfl⟩
  exact (readData_frame _ _ other.toNat count _ s).1 fd.toNat apart

theorem readStep_pieces (short : (t.contents e).length < 2 ^ 31) {fd : Int} (calls : List ReadCall) {s : Fs}
    {p : Nat} (on : OpenOn e s fd) (at_ : (s.files fd.toNat).pos.toNat = p)
    (within : p ≤ (t.contents e).length) (all : ∀ c ∈ calls, OpenOn e s c.fd)
    (small : ∀ c ∈ calls, c.count.toNat < 2 ^ 31) :
    ∃ w rs, Lts.exec (readStep t) s calls = some (w, rs) ∧ rs.map (fun r => r.call) = calls ∧
      (ofFd fd rs).map (fun r => r.copied) =
        pieces ((t.contents e).drop p) ((ofFd fd rs).map fun r => r.call.count.toNat) ∧
      (∀ r ∈ ofFd fd rs, r.ret.toInt = r.copied.length) ∧
      (w.files fd.toNat).pos.toNat = p + returned (ofFd fd rs) := by
  induction calls generalizing s p with
  | nil => exact ⟨s, [], rfl, rfl, rfl, nofun, at_⟩
  | cons c rest ih =>
    have count := small c List.mem_cons_self
    have here := all c List.mem_cons_self
    by_cases own : c.fd = fd
    · obtain ⟨r, called, text, ret, pos, after⟩ := readSys_at on count short at_ within
      have length : r.copied.length ≤ (t.contents e).length - p := by
        rw [text, List.length_take, List.length_drop]
        exact Nat.min_le_right ..
      obtain ⟨w, rs, run, same, found, exactly, final⟩ := ih (on.read after) pos (by omega)
        (fun d member => (all d (List.mem_cons_of_mem c member)).read after)
        (fun d member => small d (List.mem_cons_of_mem c member))
      have step : readStep t s c = some (r.fs, [⟨c, r.copied, r.ret⟩]) := by
        rw [readStep, own, called, Option.map_some]
      refine ⟨w, ⟨c, r.copied, r.ret⟩ :: rs, ?_, ?_, ?_, ?_, ?_⟩
      · simp only [Lts.exec, step, run, List.cons_append, List.nil_append]
      · rw [List.map_cons, same]
      · rw [ofFd_cons, if_pos own, List.map_cons, List.map_cons, pieces, found, text]
        rw [drop_returned]
      · intro d member
        rw [ofFd_cons, if_pos own] at member
        rcases List.mem_cons.mp member with rfl | later
        · exact ret
        · exact exactly d later
      · rw [ofFd_cons, if_pos own, final, returned, returned, List.map_cons, List.sum_cons, Nat.add_assoc]
    · have apart : fd.toNat ≠ c.fd.toNat := by
        have one := here.taken.1
        have two := on.taken.1
        omega
      obtain ⟨r, called, kept, after⟩ := readSys_other (t := t) here apart c.count
      have stays : (r.fs.files fd.toNat).pos.toNat = p := by
        rw [kept]
        exact at_
      obtain ⟨w, rs, run, same, found, exactly, final⟩ := ih (on.read after) stays within
        (fun d member => (all d (List.mem_cons_of_mem c member)).read after)
        (fun d member => small d (List.mem_cons_of_mem c member))
      have step : readStep t s c = some (r.fs, [⟨c, r.copied, r.ret⟩]) := by
        rw [readStep, called, Option.map_some]
      refine ⟨w, ⟨c, r.copied, r.ret⟩ :: rs, ?_, ?_, ?_, ?_, ?_⟩
      · simp only [Lts.exec, step, run, List.cons_append, List.nil_append]
      · rw [List.map_cons, same]
      · rw [ofFd_cons, if_neg own]
        exact found
      · rw [ofFd_cons, if_neg own]
        exact exactly
      · rw [ofFd_cons, if_neg own]
        exact final

theorem returned_flatten (rs : List ReadDone) : returned rs = (rs.map fun r => r.copied).flatten.length := by
  rw [returned, List.length_flatten, List.map_map]
  rfl

theorem readOnce_of_pieces {contents : List Byte} {rs : List ReadDone} {pos : BitVec 64}
    (found : rs.map (fun r => r.copied) = pieces contents (rs.map fun r => r.call.count.toNat))
    (exactly : ∀ r ∈ rs, r.ret.toInt = r.copied.length) (position : pos.toNat = returned rs) :
    ReadOnce contents rs pos := by
  have each : ∀ before r after, rs = before ++ r :: after →
      r.copied.length = min r.call.count.toNat (contents.length - returned before) ∧
        r.ret.toInt = r.copied.length := by
    intro before r after split_
    have parts := found
    rw [split_, List.map_append, List.map_cons, List.map_append, List.map_cons, pieces_append] at parts
    obtain ⟨first, rest⟩ := List.append_inj parts (by rw [pieces_length, List.length_map, List.length_map])
    have own : r.copied = _ := (List.cons.inj rest).1
    have past : returned before = min (before.map fun r => r.call.count.toNat).sum contents.length := by
      rw [returned_flatten, first, pieces_flatten, List.length_take]
    refine ⟨?_, exactly r (split_ ▸ List.mem_append_right before List.mem_cons_self)⟩
    rw [own, List.length_take, List.length_drop, past]
    omega
  constructor
  · rw [found, pieces_flatten, Nat.min_comm]
    exact List.take_eq_take_min
  · exact each
  · exact position
  · intro before r after split_ done_
    obtain ⟨length, ret⟩ := each before r after split_
    have zero : r.ret.toInt = 0 := by
      rw [ret, length]
      omega
    exact BitVec.eq_of_toInt_eq (zero.trans (by decide))

theorem reads_sequential (t : RootTab) (e : Nat) (short : (t.rootdata e).len.toNat < 2 ^ 31) (s : Fs) (fd : Int)
    (on : OpenOn e s fd) (start : (s.files fd.toNat).pos = 0) (calls : List ReadCall)
    (all : ∀ c ∈ calls, OpenOn e s c.fd) (small : ∀ c ∈ calls, c.count.toNat < 2 ^ 31) :
    ∃ w rs, Lts.exec (readStep t) s calls = some (w, rs) ∧ rs.map (fun r => r.call) = calls ∧
      ReadOnce (t.contents e) (rs.filter fun r => r.call.fd = fd) (w.files fd.toNat).pos := by
  have at_ : (s.files fd.toNat).pos.toNat = 0 := by
    rw [start]
    rfl
  obtain ⟨w, rs, run, same, found, exactly, position⟩ := readStep_pieces (contents_length ▸ short) calls on at_
    (Nat.zero_le _) all small
  rw [Nat.zero_add] at position
  rw [List.drop_zero] at found
  exact ⟨w, rs, run, same, readOnce_of_pieces found exactly position⟩

theorem reads_sequential_two :
    let t := prtkcfRoot (fun i => BitVec.ofNat 8 i) 5
    let s := (notesOpen.setFile 1 ⟨1, ⟨4, 0, qtfile⟩, 0, 3⟩)
    ∃ w rs, Lts.exec (readStep t) s [⟨0, 2⟩, ⟨1, 9⟩, ⟨0, 2⟩, ⟨0, 7⟩, ⟨0, 1⟩] = some (w, rs) ∧
      ReadOnce [0, 1, 2, 3, 4] (rs.filter fun r => r.call.fd = 0) (w.files 0).pos := by
  intro t s
  have zero : OpenOn 4 s 0 := ⟨by decide, rfl, rfl⟩
  have one : OpenOn 4 s 1 := ⟨by decide, rfl, rfl⟩
  obtain ⟨w, rs, run, _, once⟩ := reads_sequential t 4 (by decide) s 0 zero rfl
    [⟨0, 2⟩, ⟨1, 9⟩, ⟨0, 2⟩, ⟨0, 7⟩, ⟨0, 1⟩] (by
      intro c member
      fin_cases member
      · exact zero
      · exact one
      · exact zero
      · exact zero
      · exact zero) (by decide)
  exact ⟨w, rs, run, once⟩

end L4ertl
