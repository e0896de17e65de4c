import L4ertl.Core.Paths
import L4ertl.Lib.Lts

/-!
The streams of the user library (stdio.c): one buffer with a head, a tail and a size for what
is read, pushed back and written. Beside each FILE runs the stream that its calls are to
show. What an index outside of the buffer overwrites is not followed.
-/
namespace L4ertl
open Lts

inductive ReadResult where
  | byte (b : Byte)
  | eof
  | error
  deriving DecidableEq, Repr

structure StreamDevice where
  read : Nat → ReadResult
  write : Nat → Int

def fileBufferSize : Int := 256
def EOF : Int := -1
def newline : Int := 0x0A

/-- A FILE, how often it has called read and write, and the indices of buffer it has used. -/
structure Stdio where
  buffer : Int → Byte := fun _ => nul
  bufhead : Int := 0
  buftail : Int := 0
  bufsize : Int := 0
  reads : Nat := 0
  writes : Nat := 0
  indices : List Int := []

def Stdio.store (s : Stdio) (i : Int) (c : Byte) : Stdio :=
  { s with buffer := fun j => if j = i then c else s.buffer j, indices := s.indices ++ [i] }

/-- The part of fgetc that fills the buffer. -/
def fill (dev : StreamDevice) (s : Stdio) : Stdio :=
  let (n, s) : Int × Stdio := match dev.read s.reads with
    | .byte b => (1, s.store 0 b)
    | .eof => (0, s)
    | .error => (-1, s)
  { s with bufsize := s.bufsize + n, bufhead := 0, buftail := s.bufsize + n - 1, reads := s.reads + 1 }

def fgetc (dev : StreamDevice) (s : Stdio) : Int × Stdio :=
  let s := if s.bufsize = 0 then fill dev s else s
  let c := s.buffer s.bufhead
  let s := { s with bufsize := s.bufsize - 1, bufhead := s.bufhead + 1, indices := s.indices ++ [s.bufhead] }
  (if s.bufsize < 0 then EOF else c.toNat, s)

def ungetc (c : Int) (s : Stdio) : Int × Stdio :=
  if c = EOF then (EOF, s)
  else if s.bufsize < fileBufferSize then
    let s := { s with bufsize := s.bufsize + 1, buftail := s.buftail + 1 }
    (c, s.store s.buftail (BitVec.ofInt 8 c))
  else (EOF, s)

def putAll : List Byte → Stdio → Stdio
  | [], s => s
  | c :: b, s =>
    let s := { s with bufsize := s.bufsize + 1, buftail := s.buftail + 1 }
    putAll b (s.store s.buftail c)

def fputs (dev : StreamDevice) (b : List Byte) (s : Stdio) : List Byte × Stdio :=
  let n := b.length
  let s := putAll b s
  let places := (List.range (n + 1)).map fun k => s.bufsize - n + 1 + k
  let passed := places.map s.buffer
  let ret := dev.write s.writes
  let s := { s with writes := s.writes + 1, indices := s.indices ++ places }
  (passed, if ret < 0 then s else { s with bufsize := s.bufsize - n, buftail := s.buftail - n })

/-- The loop of fgets over the fgetc of a stream: what it returned, call by call. -/
def fgetsLoop {S : Type} (getc : S → Int × S) : Nat → S → List Int × S
  | 0, s => ([], s)
  | rounds + 1, s =>
    let (c, s) := getc s
    if c = EOF ∨ c = newline then ([c], s)
    else
      let (cs, s) := fgetsLoop getc rounds s
      (c :: cs, s)

inductive StdioCall where
  | fgetc
  | ungetc (c : Int)
  | fgets (n : Int)
  | fputs (b : CString)

structure Did where
  chars : List Int := []
  passed : List Byte := []
  deriving DecidableEq

def Stdio.call (dev : StreamDevice) (s : Stdio) : StdioCall → Did × Stdio
  | .fgetc => let (c, s) := L4ertl.fgetc dev s; ({ chars := [c] }, s)
  | .ungetc c => ({}, (L4ertl.ungetc c s).2)
  | .fgets n => let (cs, s) := fgetsLoop (L4ertl.fgetc dev) (n - 1).toNat s; ({ chars := cs }, s)
  | .fputs b => let (passed, s) := L4ertl.fputs dev b.1 s; ({ passed := passed }, s)

/-- The stream itself: how far it has been read, and a character pushed back. -/
structure Stream where
  reads : Nat := 0
  pushed : Option Byte := none

namespace Stream

def fgetc (dev : StreamDevice) (t : Stream) : Int × Stream :=
  match t.pushed with
  | some c => (c.toNat, { t with pushed := none })
  | none =>
    (match dev.read t.reads with
      | .byte b => b.toNat
      | .eof => EOF
      | .error => EOF, { t with reads := t.reads + 1 })

def call (dev : StreamDevice) (t : Stream) : StdioCall → Did × Stream
  | .fgetc => let (c, t) := t.fgetc dev; ({ chars := [c] }, t)
  | .ungetc c => ({}, if c = EOF then t else { t with pushed := some (BitVec.ofInt 8 c) })
  | .fgets n => let (cs, t) := fgetsLoop (fgetc dev) (n - 1).toNat t; ({ chars := cs }, t)
  | .fputs b => ({ passed := b.1 }, t)

end Stream

def streamStep (dev : StreamDevice) (s : Stdio × Stream) (c : StdioCall) : Option ((Stdio × Stream) × List Did) :=
  some (((s.1.call dev c).2, (s.2.call dev c).2), [(s.1.call dev c).1])

def Right (dev : StreamDevice) (s : Stdio × Stream) (c : StdioCall) : Prop :=
  (s.1.call dev c).1 = (s.2.call dev c).1 ∧ (s.1.call dev c).2.reads = (s.2.call dev c).2.reads ∧
    ∀ i ∈ (s.1.call dev c).2.indices, 0 ≤ i ∧ i < fileBufferSize

def OnePushed (s : Stdio × Stream) : StdioCall → Prop
  | .ungetc c => c ≠ EOF → s.2.pushed = none
  | _ => True

/-- The calls that the buffer serves: no fgetc has met the end of the file, a character
    is pushed back where one has been taken before, and nothing is put. -/
def Fits (s : Stdio × Stream) : StdioCall → Prop
  | .fgetc => 0 ≤ s.1.bufsize
  | .ungetc c => c ≠ EOF → 0 ≤ s.1.bufsize ∧ s.1.bufhead = s.1.buftail + 1 ∧ s.1.bufhead < fileBufferSize
  | .fgets n => 1 < n → 0 ≤ s.1.bufsize
  | .fputs _ => False

structure Holds (s : Stdio × Stream) : Prop where
  reads : s.1.reads = s.2.reads
  head : 0 ≤ s.1.bufhead
  none : s.2.pushed = none → s.1.bufsize ≤ 0
  some : ∀ c, s.2.pushed = some c →
    s.1.bufsize = 1 ∧ s.1.bufhead < fileBufferSize ∧ s.1.bufhead = s.1.buftail ∧ s.1.buffer s.1.bufhead = c
  indices : ∀ i ∈ s.1.indices, 0 ≤ i ∧ i < fileBufferSize

section
variable {dev : StreamDevice} {s : Stdio × Stream}

theorem within_append {indices : List Int} {j : Int} (before : ∀ i ∈ indices, 0 ≤ i ∧ i < fileBufferSize)
    (inside : 0 ≤ j ∧ j < fileBufferSize) : ∀ i ∈ indices ++ [j], 0 ≤ i ∧ i < fileBufferSize := by
  intro i mem
  rcases List.mem_append.mp mem with mem | mem
  · exact before i mem
  · rw [List.mem_singleton.mp mem]
    exact inside

theorem fill_byte {b : Byte} (read : dev.read s.1.reads = .byte b) :
    fill dev s.1 = { s.1.store 0 b with
      bufsize := s.1.bufsize + 1, bufhead := 0, buftail := s.1.bufsize + 1 - 1, reads := s.1.reads + 1 } := by
  simp only [fill, read]
  rfl

theorem fill_none (read : ∀ b, dev.read s.1.reads ≠ .byte b) :
    ∃ n ≤ 0, fill dev s.1 = { s.1 with
      bufsize := s.1.bufsize + n, bufhead := 0, buftail := s.1.bufsize + n - 1, reads := s.1.reads + 1 } := by
  cases got : dev.read s.1.reads with
  | byte b => exact absurd got (read b)
  | eof => exact ⟨0, Int.le_refl 0, by simp only [fill, got]⟩
  | error => exact ⟨-1, by decide, by simp only [fill, got]⟩

theorem fgetc_holds (dev : StreamDevice) (holds : Holds s) (open_ : 0 ≤ s.1.bufsize) :
    (fgetc dev s.1).1 = (s.2.fgetc dev).1 ∧ Holds ((fgetc dev s.1).2, (s.2.fgetc dev).2) ∧
      ((fgetc dev s.1).1 ≠ EOF → 0 ≤ (fgetc dev s.1).2.bufsize) := by
  cases pushed : s.2.pushed with
  | some c =>
    obtain ⟨one, below, -, kept⟩ := holds.some c pushed
    have notEmpty : ¬s.1.bufsize = 0 := by omega
    have left : ¬s.1.bufsize - 1 < 0 := by omega
    simp only [fgetc, if_neg notEmpty, if_neg left, Stream.fgetc, pushed]
    refine ⟨by rw [kept], ⟨holds.reads, ?_, fun _ => ?_, nofun,
      within_append holds.indices ⟨holds.head, below⟩⟩, fun _ => ?_⟩
    · have := holds.head
      dsimp only
      omega
    · dsimp only
      omega
    · omega
  | none =>
    have empty : s.1.bufsize = 0 := Int.le_antisymm (holds.none pushed) open_
    by_cases byte : ∃ b, dev.read s.1.reads = .byte b
    · obtain ⟨b, byte⟩ := byte
      have wanted : dev.read s.2.reads = .byte b := holds.reads ▸ byte
      have used := within_append (within_append holds.indices (j := 0) (by decide)) (j := 0) (by decide)
      simp only [fgetc, Stream.fgetc, pushed, fill_byte byte, wanted, empty]
      refine ⟨by simp [Stdio.store], ⟨?_, by simp, fun _ => by simp, nofun, used⟩, fun _ => by simp⟩
      simp [holds.reads]
    · have nothing : ∀ b, dev.read s.1.reads ≠ .byte b := fun b read => byte ⟨b, read⟩
      obtain ⟨n, none, filled⟩ := fill_none nothing
      have wanted : (s.2.fgetc dev).1 = EOF := by
        rw [holds.reads] at nothing
        simp only [Stream.fgetc, pushed]
        split
        · next b read => exact absurd read (nothing b)
        · rfl
        · rfl
      have ended : s.1.bufsize + n - 1 < 0 := by omega
      have used := within_append holds.indices (j := 0) (by decide)
      refine ⟨?_, ⟨?_, ?_, fun _ => ?_, ?_, ?_⟩, ?_⟩
      · simp only [fgetc, if_pos empty, filled, if_pos ended, wanted]
      · simp only [fgetc, if_pos empty, filled, Stream.fgetc, pushed, holds.reads]
      · simp [fgetc, if_pos empty, filled]
      · simp only [fgetc, if_pos empty, filled]
        omega
      · simp [Stream.fgetc, pushed]
      · simpa only [fgetc, if_pos empty, filled] using used
      · simp [fgetc, if_pos empty, filled, ended]

theorem fgetsLoop_holds (dev : StreamDevice) (rounds : Nat) (holds : Holds s)
    (open_ : 0 < rounds → 0 ≤ s.1.bufsize) :
    (fgetsLoop (fgetc dev) rounds s.1).1 = (fgetsLoop (Stream.fgetc dev) rounds s.2).1 ∧
      Holds ((fgetsLoop (fgetc dev) rounds s.1).2, (fgetsLoop (Stream.fgetc dev) rounds s.2).2) := by
  induction rounds generalizing s with
  | zero => exact ⟨rfl, holds⟩
  | succ rounds ih =>
    obtain ⟨same, kept, goes⟩ := fgetc_holds dev holds (open_ (Nat.succ_pos rounds))
    simp only [fgetsLoop, ← same]
    by_cases stops : (fgetc dev s.1).1 = EOF ∨ (fgetc dev s.1).1 = newline
    · simp only [if_pos stops]
      exact ⟨trivial, kept⟩
    · have next := ih kept fun _ => goes fun ends => stops (.inl ends)
      simp only [if_neg stops]
      exact ⟨congrArg _ next.1, next.2⟩

theorem ungetc_holds {c : Int} (dev : StreamDevice) (holds : Holds s) (one : OnePushed s (.ungetc c))
    (fits : Fits s (.ungetc c)) :
    Holds ((ungetc c s.1).2, (s.2.call dev (.ungetc c)).2) := by
  by_cases nothing : c = EOF
  · simpa only [ungetc, if_pos nothing, Stream.call] using holds
  · obtain ⟨open_, behind, below⟩ := fits nothing
    have empty := Int.le_antisymm (holds.none (one nothing)) open_
    have room : s.1.bufsize < fileBufferSize := by rw [empty]; decide
    have head := holds.head
    simp only [ungetc, if_neg nothing, if_pos room, Stream.call, Stdio.store]
    refine ⟨holds.reads, head, nofun, fun d pushed => ?_, within_append holds.indices ?_⟩
    · have same : BitVec.ofInt 8 c = d := Option.some.inj pushed
      refine ⟨?_, below, behind, ?_⟩
      · dsimp only
        omega
      · simp [behind, same]
    · omega

theorem call_holds {c : StdioCall} (holds : Holds s) (one : OnePushed s c) (fits : Fits s c) :
    Right dev s c ∧ Holds ((s.1.call dev c).2, (s.2.call dev c).2) := by
  cases c with
  | fgetc =>
    obtain ⟨same, kept, -⟩ := fgetc_holds dev holds fits
    refine ⟨⟨?_, kept.reads, kept.indices⟩, kept⟩
    simp only [Stdio.call, Stream.call, same]
  | ungetc c =>
    have kept := ungetc_holds dev holds one fits
    exact ⟨⟨rfl, kept.reads, kept.indices⟩, kept⟩
  | fgets n =>
    obtain ⟨same, kept⟩ := fgetsLoop_holds dev (n - 1).toNat holds fun some => fits (by omega)
    refine ⟨⟨?_, kept.reads, kept.indices⟩, kept⟩
    simp only [Stdio.call, Stream.call, same]
  | fputs b => exact fits.elim

theorem fputs_length (b : List Byte) (f : Stdio) : (fputs dev b f).1.length = b.length + 1 := by
  simp [fputs]

theorem fgetc_ended {f : Stdio} (dev : StreamDevice) (ended : f.bufsize < 0) :
    (fgetc dev f).1 = EOF ∧ (fgetc dev f).2.reads = f.reads := by
  have notEmpty : ¬f.bufsize = 0 := by omega
  have less : f.bufsize - 1 < 0 := by omega
  simp only [fgetc, if_neg notEmpty, if_pos less, and_self]

theorem stream_reads_le (t : Stream) : t.reads ≤ (t.fgetc dev).2.reads := by
  unfold Stream.fgetc
  split
  · exact Nat.le_refl _
  · exact Nat.le_succ _

theorem streamLoop_reads_le (dev : StreamDevice) (rounds : Nat) (t : Stream) :
    t.reads ≤ (fgetsLoop (Stream.fgetc dev) rounds t).2.reads := by
  induction rounds generalizing t with
  | zero => exact Nat.le_refl _
  | succ rounds ih =>
    rw [fgetsLoop]
    dsimp only
    split
    · exact stream_reads_le t
    · exact Nat.le_trans (stream_reads_le t) (ih _)

theorem right_fits {c : StdioCall} (holds : Holds s) (right : Right dev s c) (other : ∀ d, c ≠ .ungetc d) : Fits s c := by
  have unpushed (ended : s.1.bufsize < 0) : s.2.pushed = none := by
    cases pushed : s.2.pushed with
    | none => rfl
    | some d => exact absurd (holds.some d pushed).1 (by omega)
  have reading (ended : s.1.bufsize < 0) : (s.2.fgetc dev).2.reads = s.2.reads + 1 := by
    rw [Stream.fgetc, unpushed ended]
  cases c with
  | fgetc =>
    refine Int.not_lt.mp fun ended => ?_
    have same := right.2.1
    simp only [Stdio.call, Stream.call, (fgetc_ended dev ended).2, reading ended, holds.reads] at same
    omega
  | ungetc d => exact absurd rfl (other d)
  | fgets n =>
    refine fun some => Int.not_lt.mp fun ended => ?_
    have same := right.2.1
    obtain ⟨rounds, more⟩ : ∃ rounds, (n - 1).toNat = rounds + 1 := ⟨(n - 2).toNat, by omega⟩
    have later := streamLoop_reads_le dev rounds (s.2.fgetc dev).2
    obtain ⟨eof, still⟩ := fgetc_ended dev ended
    simp only [Stdio.call, Stream.call, more, fgetsLoop, eof, true_or, if_true, still, holds.reads] at same
    split at same
    · rw [reading ended] at same
      omega
    · rw [reading ended] at later
      dsimp only at same
      omega
  | fputs b =>
    have passed := congrArg (fun did => did.passed.length) right.1
    simp only [Stdio.call, Stream.call, fputs_length] at passed
    omega

end

theorem stdio_right (dev : StreamDevice) (calls : List StdioCall)
    (along : Along (streamStep dev) (fun s c => OnePushed s c ∧ Fits s c) ({}, {}) calls) :
    Along (streamStep dev) (Right dev) ({}, {}) calls := by
  have start : Holds ({}, {}) := ⟨rfl, by decide, fun _ => Int.le_refl 0, nofun, by simp⟩
  refine along.of_invariant Holds (fun s c w es holds ok taken => ?_) (fun s c holds ok => ?_) start
  · cases taken
    exact (call_holds holds ok.1 ok.2).2
  · exact (call_holds holds ok.1 ok.2).1

def PushFits (s : Stdio × Stream) (c : StdioCall) : Prop := ∀ d, c = .ungetc d → Fits s c

theorem stdio_fits (dev : StreamDevice) (calls : List StdioCall)
    (along : Along (streamStep dev) (fun s c => OnePushed s c ∧ PushFits s c) ({}, {}) calls)
    (right : Along (streamStep dev) (Right dev) ({}, {}) calls) :
    Along (streamStep dev) Fits ({}, {}) calls := by
  have start : Holds ({}, {}) := ⟨rfl, by decide, fun _ => Int.le_refl 0, nofun, by simp⟩
  have fits (s : Stdio × Stream) (c : StdioCall) (holds : Holds s)
      (ok : (OnePushed s c ∧ PushFits s c) ∧ Right dev s c) : Fits s c := by
    by_cases push : ∃ d, c = .ungetc d
    · obtain ⟨d, push⟩ := push
      exact ok.1.2 d push
    · exact right_fits holds ok.2 fun d same => push ⟨d, same⟩
  refine (along.and right).of_invariant Holds (fun s c w es holds ok taken => ?_) fits start
  cases taken
  exact (call_holds holds ok.1.1 (fits s c holds ok)).2

instance (s : Stdio × Stream) (c : StdioCall) : Decidable (OnePushed s c) := by
  cases c <;> simp only [OnePushed] <;> infer_instance

instance (s : Stdio × Stream) (c : StdioCall) : Decidable (Fits s c) := by
  cases c <;> simp only [Fits] <;> infer_instance

instance (dev : StreamDevice) (s : Stdio × Stream) (c : StdioCall) : Decidable (Right dev s c) :=
  inferInstanceAs (Decidable (_ ∧ _ ∧ _))

def endsAt (k : Nat) : StreamDevice := ⟨fun j => if j = k then .eof else .byte 0x61#8, fun _ => 0⟩

theorem stdio_right_pushed :
    Along (streamStep (endsAt 2)) (Right (endsAt 2)) ({}, {}) [.fgetc, .ungetc 0x62, .fgetc, .fgets 9] :=
  stdio_right (endsAt 2) [.fgetc, .ungetc 0x62, .fgetc, .fgets 9] (by decide)

/-- The stream is not read again behind the end of the file, and fputs passes two bytes for one. -/
theorem stdio_wrong :
    (Along (streamStep (endsAt 0)) OnePushed ({}, {}) [.fgetc, .fgetc] ∧
      ¬Along (streamStep (endsAt 0)) (Right (endsAt 0)) ({}, {}) [.fgetc, .fgetc]) ∧
    Along (streamStep (endsAt 0)) OnePushed ({}, {}) [.fputs ⟨[0x61#8], by decide⟩] ∧
      ¬Along (streamStep (endsAt 0)) (Right (endsAt 0)) ({}, {}) [.fputs ⟨[0x61#8], by decide⟩] := by
  decide

end L4ertl
