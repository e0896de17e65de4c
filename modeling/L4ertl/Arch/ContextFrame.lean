import L4ertl.Core.Bitop
import L4ertl.Lib.Lts

/-!
The assembly of context_switch_to (arm_context_switch.c): a thread pushes its registers and
leaves; when it is chosen again they are popped in another invocation of the function. The
memory is one of words at aligned addresses. Which registers stand for the operands is up to
the compiler, as is where it keeps old_thread.
-/
namespace L4ertl
open Lts

inductive Reg where
  | r0 | r1 | r2 | r3 | r4 | r5 | r6 | r7 | r8 | r9 | r10
  | fp | ip | sp | lr
  deriving DecidableEq, Repr

def lowRegs : List Reg := [.r0, .r1, .r2, .r3, .r4, .r5, .r6, .r7, .r8, .r9, .r10]

/-- {r0 - r10, fp, lr}, from the lowest address up. -/
def frameRegs : List Reg := lowRegs ++ [.fp, .lr]

structure Cpu where
  regs : Reg → Word
  mem : Word → Word
  /-- The ksp of the thread at an address. -/
  ksp : Word → Word
  currentThread : Word

def setWord {K : Type} [DecidableEq K] (f : K → Word) (k : K) (v : Word) : K → Word :=
  fun j => if j = k then v else f j

def storeAll : Word → List Word → (Word → Word) → (Word → Word)
  | _, [], mem => mem
  | a, v :: vs, mem => storeAll (a + 4) vs (setWord mem a v)

def loadAll (mem : Word → Word) : Word → List Reg → (Reg → Word) → (Reg → Word)
  | _, [], regs => regs
  | a, r :: rs, regs => loadAll mem (a + 4) rs (setWord regs r (mem a))

def stmdb (rs : List Reg) (m : Cpu) : Cpu :=
  let sp := m.regs .sp - BitVec.ofNat 32 (4 * rs.length)
  { m with mem := storeAll sp (rs.map m.regs) m.mem, regs := setWord m.regs .sp sp }

def ldmia (rs : List Reg) (m : Cpu) : Cpu :=
  let regs := loadAll m.mem (m.regs .sp) rs m.regs
  { m with regs := setWord regs .sp (m.regs .sp + BitVec.ofNat 32 (4 * rs.length)) }

/-- The block that saves `thread`, with `retaddr` in the given register. -/
def saveBlock (thread : Word) (retaddr : Reg) (m : Cpu) : Cpu :=
  let m := stmdb frameRegs m
  -- fix lr in the stack
  let m := { m with mem := setWord m.mem (m.regs .sp + 44) (m.regs retaddr) }
  { m with ksp := setWord m.ksp thread (m.regs .sp) }

/-- The block that restores `thread`, with the registers of its two outputs. -/
def restoreBlock (thread : Word) (lrvalue spvalue : Reg) (m : Cpu) : Cpu :=
  let m := { m with regs := setWord m.regs .sp (m.ksp thread) }
  let m := ldmia frameRegs m
  let m := { m with regs := setWord m.regs lrvalue (m.regs .lr) }
  { m with regs := setWord m.regs spvalue (m.regs .sp) }

/-- Where the compiler keeps old_thread. -/
inductive Home where
  | register (r : Reg)
  | memory (from_ : Reg) (offset : Word)

def Home.read (home : Home) (m : Cpu) : Word :=
  match home with
  | .register r => m.regs r
  | .memory r offset => m.mem (m.regs r + offset)

def switchBack (thread : Word) (lrvalue spvalue : Reg) (home : Home) (m : Cpu) : Cpu :=
  let m := restoreBlock thread lrvalue spvalue m
  { m with currentThread := home.read m }

/-- What happens while a thread is away: a store of another thread, the two blocks run for
    other threads, and anything with registers and current_thread. -/
inductive Activity where
  | store (thread address value : Word)
  | save (thread : Word) (retaddr : Reg)
  | restore (thread : Word) (lrvalue spvalue : Reg) (home : Home)
  | registers (regs : Reg → Word)
  | current (thread : Word)

def Cpu.act (m : Cpu) : Activity → Cpu
  | .store _ a v => { m with mem := setWord m.mem a v }
  | .save u retaddr => saveBlock u retaddr m
  | .restore u lrvalue spvalue home => switchBack u lrvalue spvalue home m
  | .registers regs => { m with regs := regs }
  | .current u => { m with currentThread := u }

def activityStep (m : Cpu) (a : Activity) : Option (Cpu × List Unit) := some (m.act a, [])

def InFrame (sp a : Word) : Prop := ∃ k, k < 13 ∧ a = sp - 52 + BitVec.ofNat 32 (4 * k)

structure KernelStacks where
  owns : Word → Word → Prop
  disjoint : ∀ {t u a}, owns t a → owns u a → t = u

def OnOwnStack (kstacks : KernelStacks) (t : Word) (m : Cpu) : Activity → Prop
  | .store u a _ => u ≠ t ∧ kstacks.owns u a
  | .save u retaddr => u ≠ t ∧ retaddr ≠ .sp ∧ ∀ a, InFrame (m.regs .sp) a → kstacks.owns u a
  | .restore u _ _ _ => u ≠ t
  | .registers _ => True
  | .current _ => True

structure Resumed (thread retaddr : Word) (before after : Cpu) : Prop where
  low : ∀ r ∈ lowRegs, after.regs r = before.regs r
  fp : after.regs .fp = before.regs .fp
  lr : after.regs .lr = retaddr
  sp : after.regs .sp = before.regs .sp
  current : after.currentThread = thread

/-- The registers that stand for lr and sp in the restore block: two different ones, and not
    the stack pointer. -/
structure Outputs (lrvalue spvalue : Reg) : Prop where
  different : lrvalue ≠ spvalue
  lr : lrvalue ≠ .sp
  sp : spvalue ≠ .sp

/-- Before the save old_thread stands in its place: in a saved register, or on the stack of
    the thread beside the frame. -/
def Home.Holds (home : Home) (kstacks : KernelStacks) (thread : Word) (m : Cpu) : Prop :=
  home.read m = thread ∧
    match home with
    | .register r => r ∈ lowRegs ∨ r = .fp
    | .memory r offset => (r = .fp ∨ r = .sp) ∧ kstacks.owns thread (m.regs r + offset) ∧
        ¬InFrame (m.regs .sp) (m.regs r + offset)

structure FrameKept (lrvalue spvalue : Reg) (retaddr : Word) (m : Cpu) : Prop where
  low : ∀ r ∈ lowRegs, (r = spvalue → m.regs r = m.regs .sp) ∧ (r = lrvalue → m.regs r = m.regs .lr)
  fp : m.regs .fp = if spvalue = .fp then m.regs .sp else if lrvalue = .fp then m.regs .lr else retaddr
  lr : retaddr = if spvalue = .lr then m.regs .sp else m.regs .lr

section
variable {mem : Word → Word} {regs : Reg → Word}

theorem setWord_self {K : Type} [DecidableEq K] (f : K → Word) (k : K) (v : Word) : setWord f k v k = v :=
  if_pos rfl

theorem setWord_other {K : Type} [DecidableEq K] {f : K → Word} {k j : K} {v : Word} (other : j ≠ k) :
    setWord f k v j = f j := if_neg other

theorem slot_succ (a : Word) (k : Nat) : a + BitVec.ofNat 32 (4 * (k + 1)) = a + 4 + BitVec.ofNat 32 (4 * k) := by
  rw [Nat.mul_succ, Nat.add_comm, BitVec.ofNat_add, BitVec.add_assoc]
  rfl

theorem slot_ne {a : Word} {j k : Nat} (small : j < 2 ^ 30 ∧ k < 2 ^ 30) (different : j ≠ k) :
    a + BitVec.ofNat 32 (4 * j) ≠ a + BitVec.ofNat 32 (4 * k) := by
  intro same
  have eq := congrArg BitVec.toNat (BitVec.add_right_inj a |>.mp same)
  rw [BitVec.toNat_ofNat, BitVec.toNat_ofNat] at eq
  omega

theorem storeAll_other {a b : Word} {vs : List Word} (outside : ∀ k, k < vs.length → b ≠ a + BitVec.ofNat 32 (4 * k)) :
    storeAll a vs mem b = mem b := by
  induction vs generalizing a mem with
  | nil => rfl
  | cons v vs ih =>
    rw [storeAll, ih, setWord_other]
    · simpa using outside 0 (Nat.succ_pos _)
    · intro k inside same
      refine outside (k + 1) (Nat.succ_lt_succ inside) ?_
      rw [same, slot_succ]

theorem storeAll_at {a : Word} {vs : List Word} (small : vs.length ≤ 2 ^ 30) {k : Nat} (inside : k < vs.length) :
    storeAll a vs mem (a + BitVec.ofNat 32 (4 * k)) = vs[k] := by
  induction vs generalizing a k mem with
  | nil => cases inside
  | cons v vs ih =>
    simp only [List.length_cons] at small inside
    cases k with
    | zero =>
      rw [storeAll, storeAll_other, show a + BitVec.ofNat 32 (4 * 0) = a by simp, setWord_self]
      · rfl
      · intro j below same
        rw [← slot_succ] at same
        exact slot_ne ⟨by omega, by omega⟩ (Nat.succ_ne_zero j).symm same
    | succ k =>
      rw [storeAll, slot_succ, ih (by omega) (by omega)]
      rfl

theorem loadAll_other {a : Word} {rs : List Reg} {r : Reg} (absent : r ∉ rs) : loadAll mem a rs regs r = regs r := by
  induction rs generalizing a regs with
  | nil => rfl
  | cons s rs ih =>
    obtain ⟨other, absent⟩ := List.ne_and_not_mem_of_not_mem_cons absent
    rw [loadAll, ih absent, setWord_other other]

theorem loadAll_at (mem : Word → Word) (regs : Reg → Word) {a : Word} {rs : List Reg} (nodup : rs.Nodup) {k : Nat}
    (inside : k < rs.length) :
    loadAll mem a rs regs rs[k] = mem (a + BitVec.ofNat 32 (4 * k)) := by
  induction rs generalizing a k regs with
  | nil => cases inside
  | cons s rs ih =>
    obtain ⟨absent, nodup⟩ := List.nodup_cons.mp nodup
    cases k with
    | zero =>
      rw [loadAll, List.getElem_cons_zero, loadAll_other absent, setWord_self]
      simp
    | succ k =>
      rw [loadAll, List.getElem_cons_succ, ih _ nodup (Nat.lt_of_succ_lt_succ inside), slot_succ]

end

section
variable {m : Cpu} {t : Word} {retaddr lrvalue spvalue : Reg}

theorem frame_length : frameRegs.length = 13 := rfl

theorem saveBlock_mem (m : Cpu) (t : Word) (apart : retaddr ≠ .sp) :
    (saveBlock t retaddr m).mem =
      setWord (storeAll (m.regs .sp - 52) (frameRegs.map m.regs) m.mem) (m.regs .sp - 52 + 44) (m.regs retaddr) := by
  have kept : setWord m.regs .sp (m.regs .sp - 52) retaddr = m.regs retaddr := setWord_other apart
  have pushed : setWord m.regs .sp (m.regs .sp - 52) .sp = m.regs .sp - 52 := setWord_self _ _ _
  change setWord (storeAll (m.regs .sp - 52) (frameRegs.map m.regs) m.mem)
    (setWord m.regs .sp (m.regs .sp - 52) .sp + 44) (setWord m.regs .sp (m.regs .sp - 52) retaddr) = _
  rw [kept, pushed]

theorem saveBlock_mem_other {a : Word} (apart : retaddr ≠ .sp) (outside : ¬InFrame (m.regs .sp) a) :
    (saveBlock t retaddr m).mem a = m.mem a := by
  have unpatched : a ≠ m.regs .sp - 52 + 44 := fun same => outside ⟨11, by decide, same⟩
  rw [saveBlock_mem m t apart, setWord_other unpatched, storeAll_other]
  intro k inside same
  exact outside ⟨k, by simpa [frame_length] using inside, same⟩

/-- What a slot of the frame holds: the patch goes to the slot of fp. -/
theorem saveBlock_slot {k : Nat} (inside : k < frameRegs.length) (apart : retaddr ≠ .sp) :
    (saveBlock t retaddr m).mem (m.regs .sp - 52 + BitVec.ofNat 32 (4 * k)) =
      if k = 11 then m.regs retaddr else m.regs frameRegs[k] := by
  rw [saveBlock_mem m t apart]
  split
  · next patched =>
    rw [patched]
    exact setWord_self _ _ _
  · next other =>
    rw [frame_length] at inside
    have elsewhere := slot_ne (a := m.regs .sp - 52) (j := k) (k := 11) ⟨by omega, by omega⟩ other
    have unpatched : m.regs .sp - 52 + BitVec.ofNat 32 (4 * k) ≠ m.regs .sp - 52 + 44 := elsewhere
    rw [setWord_other unpatched, storeAll_at (by simp [frame_length]) (by simpa [frame_length] using inside),
      List.getElem_map]

theorem saveBlock_ksp (u : Word) :
    (saveBlock t retaddr m).ksp u = if u = t then m.regs .sp - 52 else m.ksp u := by
  change setWord m.ksp t (setWord m.regs .sp (m.regs .sp - 52) .sp) u = _
  rw [setWord_self]
  rfl

theorem frameRegs_nodup : frameRegs.Nodup := by decide

theorem restoreBlock_regs (outputs : Outputs lrvalue spvalue) (r : Reg) :
    (restoreBlock t lrvalue spvalue m).regs r =
      if r = spvalue then m.ksp t + 52
      else if r = lrvalue then m.mem (m.ksp t + 48)
      else if r = .sp then m.ksp t + 52
      else loadAll m.mem (m.ksp t) frameRegs (setWord m.regs .sp (m.ksp t)) r := by
  obtain ⟨popped, popped_eq⟩ : ∃ popped, popped = (ldmia frameRegs { m with regs := setWord m.regs .sp (m.ksp t) }).regs :=
    ⟨_, rfl⟩
  have regs_eq : popped = setWord (loadAll m.mem (m.ksp t) frameRegs (setWord m.regs .sp (m.ksp t))) .sp (m.ksp t + 52) := by
    rw [popped_eq, ldmia]
    dsimp only
    rw [setWord_self]
    rfl
  have top : popped .lr = m.mem (m.ksp t + 48) := by
    rw [regs_eq, setWord_other (by decide)]
    exact loadAll_at _ _ (k := 12) frameRegs_nodup (by decide)
  have sp : popped .sp = m.ksp t + 52 := by rw [regs_eq, setWord_self]
  have whole : (restoreBlock t lrvalue spvalue m).regs =
      setWord (setWord popped lrvalue (popped .lr)) spvalue (setWord popped lrvalue (popped .lr) .sp) := by
    rw [popped_eq]; rfl
  rw [whole, setWord_other outputs.lr.symm, top, sp]
  by_cases spOut : r = spvalue
  · rw [spOut, setWord_self, if_pos rfl]
  · rw [setWord_other spOut, if_neg spOut]
    by_cases lrOut : r = lrvalue
    · rw [lrOut, setWord_self, if_pos rfl]
    · rw [setWord_other lrOut, if_neg lrOut, regs_eq]
      rfl

theorem act_keeps {kstacks : KernelStacks} {a : Activity} (own : OnOwnStack kstacks t m a) :
    (m.act a).ksp t = m.ksp t ∧ ∀ b, kstacks.owns t b → (m.act a).mem b = m.mem b := by
  cases a with
  | store u b v =>
    refine ⟨rfl, fun c mine => setWord_other fun same => own.1 ?_⟩
    exact (kstacks.disjoint (same ▸ mine) own.2).symm
  | save u retaddr =>
    obtain ⟨other, apart, frame⟩ := own
    refine ⟨(saveBlock_ksp t).trans (if_neg other.symm), fun b mine => saveBlock_mem_other apart fun inFrame => other ?_⟩
    exact kstacks.disjoint (frame b inFrame) mine
  | restore u lrvalue spvalue home => exact ⟨rfl, fun _ _ => rfl⟩
  | registers regs => exact ⟨rfl, fun _ _ => rfl⟩
  | current u => exact ⟨rfl, fun _ _ => rfl⟩

theorem away_keeps {kstacks : KernelStacks} {acts : List Activity} {m' : Cpu} {es : List Unit}
    (own : Along activityStep (OnOwnStack kstacks t) m acts) (run : exec activityStep m acts = some (m', es)) :
    m'.ksp t = m.ksp t ∧ ∀ b, kstacks.owns t b → m'.mem b = m.mem b := by
  refine exec_keeps (fun w => w.ksp t = m.ksp t ∧ ∀ b, kstacks.owns t b → w.mem b = m.mem b)
    (fun w a x es kept ok taken => ?_) acts ⟨rfl, fun _ _ => rfl⟩ own run
  cases taken
  obtain ⟨ksp, mem⟩ := act_keeps ok
  exact ⟨ksp.trans kept.1, fun b mine => (mem b mine).trans (kept.2 b mine)⟩

theorem back_regs {kstacks : KernelStacks} {acts : List Activity} {m' : Cpu} {es : List Unit}
    (apart : retaddr ≠ .sp) (outputs : Outputs lrvalue spvalue)
    (frame : ∀ a, InFrame (m.regs .sp) a → kstacks.owns t a)
    (own : Along activityStep (OnOwnStack kstacks t) (saveBlock t retaddr m) acts)
    (run : exec activityStep (saveBlock t retaddr m) acts = some (m', es)) :
    (∀ r ∈ lowRegs, (restoreBlock t lrvalue spvalue m').regs r =
      if r = spvalue then m.regs .sp else if r = lrvalue then m.regs .lr else m.regs r) ∧
    (restoreBlock t lrvalue spvalue m').regs .fp =
      (if .fp = spvalue then m.regs .sp else if .fp = lrvalue then m.regs .lr else m.regs retaddr) ∧
    (restoreBlock t lrvalue spvalue m').regs .lr = (if .lr = spvalue then m.regs .sp else m.regs .lr) ∧
    (restoreBlock t lrvalue spvalue m').regs .sp = m.regs .sp ∧
    ∀ b, kstacks.owns t b → ¬InFrame (m.regs .sp) b → m'.mem b = m.mem b := by
  obtain ⟨ksp, mem⟩ := away_keeps own run
  rw [saveBlock_ksp, if_pos rfl] at ksp
  have slot {k : Nat} (inside : k < frameRegs.length) :
      m'.mem (m'.ksp t + BitVec.ofNat 32 (4 * k)) = if k = 11 then m.regs retaddr else m.regs frameRegs[k] := by
    rw [ksp, mem _ (frame _ ⟨k, inside, rfl⟩), saveBlock_slot inside apart]
  have top : m'.mem (m'.ksp t + 48) = m.regs .lr := slot (k := 12) (by decide)
  have sp : m'.ksp t + 52 = m.regs .sp := by rw [ksp, BitVec.sub_add_cancel]
  have popped {k : Nat} (inside : k < frameRegs.length) :=
    (loadAll_at m'.mem (setWord m'.regs .sp (m'.ksp t)) (a := m'.ksp t) frameRegs_nodup inside).trans
      (slot inside)
  refine ⟨fun r low => ?_, ?_, ?_, ?_, fun b mine outside => ?_⟩
  · obtain ⟨k, inside, eq⟩ := List.getElem_of_mem low
    have below : k < 11 := inside
    have place : k < frameRegs.length := Nat.lt_trans below (by decide)
    have same : frameRegs[k] = r := (List.getElem_append_left inside).trans eq
    have notSp : r ≠ .sp := fun isSp => absurd (isSp ▸ low) (by decide)
    have loaded := popped place
    rw [same, if_neg (by omega)] at loaded
    rw [restoreBlock_regs outputs, sp, top, if_neg notSp, loaded]
  · rw [restoreBlock_regs outputs, sp, top, if_neg (by decide : Reg.fp ≠ .sp)]
    rw [show loadAll _ _ _ _ Reg.fp = _ from popped (k := 11) (by decide)]
    rfl
  · rw [restoreBlock_regs outputs, sp, top, if_neg (by decide : Reg.lr ≠ .sp)]
    rw [show loadAll _ _ _ _ Reg.lr = m.regs .lr from popped (k := 12) (by decide), ite_self]
  · rw [restoreBlock_regs outputs, sp, if_neg outputs.sp.symm, if_neg outputs.lr.symm, if_pos rfl]
  · rw [mem b mine, saveBlock_mem_other apart outside]

theorem Home.Holds.back {kstacks : KernelStacks} {home : Home} {w : Cpu} (held : home.Holds kstacks t m)
    (low : ∀ r ∈ lowRegs, w.regs r = m.regs r) (fp : w.regs .fp = m.regs .fp) (sp : w.regs .sp = m.regs .sp)
    (mem : ∀ b, kstacks.owns t b → ¬InFrame (m.regs .sp) b → w.mem b = m.mem b) : home.read w = t := by
  obtain ⟨value, place⟩ := held
  cases home with
  | register r =>
    rcases place with isLow | rfl
    · exact (low r isLow).trans value
    · exact fp.trans value
  | memory r offset =>
    obtain ⟨base, mine, outside⟩ := place
    have back : w.regs r = m.regs r := by
      rcases base with rfl | rfl
      · exact fp
      · exact sp
    change w.mem (w.regs r + offset) = t
    rw [back, mem _ mine outside]
    exact value

/-- Exactly when the thread goes on with its registers: the frame has room for the return
    address in the slot of fp, so that fp and lr must both have held it before. -/
theorem switch_back_iff {kstacks : KernelStacks} {acts : List Activity} {m' : Cpu} {es : List Unit} {home : Home}
    (apart : retaddr ≠ .sp) (outputs : Outputs lrvalue spvalue)
    (frame : ∀ a, InFrame (m.regs .sp) a → kstacks.owns t a) (held : home.Holds kstacks t m)
    (own : Along activityStep (OnOwnStack kstacks t) (saveBlock t retaddr m) acts)
    (run : exec activityStep (saveBlock t retaddr m) acts = some (m', es)) :
    Resumed t (m.regs retaddr) m (switchBack t lrvalue spvalue home m') ↔
      FrameKept lrvalue spvalue (m.regs retaddr) m := by
  obtain ⟨low, fp, lr, sp, mem⟩ := back_regs apart outputs frame own run
  constructor
  · intro resumed
    refine ⟨fun r isLow => ?_, ?_, ?_⟩
    · have kept := (resumed.low r isLow).symm.trans (low r isLow)
      constructor
      · intro out
        rwa [if_pos out] at kept
      · intro out
        rwa [if_neg (out ▸ outputs.different), if_pos out] at kept
    · have kept := resumed.fp.symm.trans fp
      simpa only [eq_comm] using kept
    · have kept := resumed.lr.symm.trans lr
      simpa only [eq_comm] using kept
  · intro kept
    have low' : ∀ r ∈ lowRegs, (restoreBlock t lrvalue spvalue m').regs r = m.regs r := by
      intro r isLow
      rw [low r isLow]
      split
      · next out => exact ((kept.low r isLow).1 out).symm
      · split
        · next out => exact ((kept.low r isLow).2 out).symm
        · rfl
    have fp' : (restoreBlock t lrvalue spvalue m').regs .fp = m.regs .fp := by
      rw [fp, kept.fp]
      simp only [eq_comm]
    refine ⟨low', fp', ?_, sp, held.back low' fp' sp mem⟩
    refine Eq.trans lr (Eq.trans ?_ kept.lr.symm)
    simp only [eq_comm]

end

def pagedStacks : KernelStacks where
  owns t a := a >>> 12 = t
  disjoint := fun one two => one.symm.trans two

def switching (fp lr : Word) : Cpu where
  regs
    | .r4 => 0x8000
    | .sp => 0x10800
    | .fp => fp
    | .lr => lr
    | _ => 0
  mem a := if a = 0x10804 then 0x10 else 0
  ksp _ := 0
  currentThread := 0x10

theorem switching_frame (fp lr a : Word) (inFrame : InFrame ((switching fp lr).regs .sp) a) : pagedStacks.owns 0x10 a := by
  obtain ⟨k, small, rfl⟩ := inFrame
  revert k
  change ∀ k < 13, ((0x10800 : Word) - 52 + BitVec.ofNat 32 (4 * k)) >>> 12 = 0x10
  decide

theorem switching_outside (fp lr : Word) : ¬InFrame ((switching fp lr).regs .sp) 0x10804 := by
  rintro ⟨k, small, same⟩
  revert k
  change ∀ k < 13, ¬(0x10804 : Word) = 0x10800 - 52 + BitVec.ofNat 32 (4 * k)
  decide

def otherRegs : Reg → Word
  | .r4 => 0x9000
  | .sp => 0x20800
  | _ => 0x77

def otherTurn : List Activity :=
  [.current 0x20, .registers otherRegs, .store 0x20 0x20700 7, .save 0x20 .r4, .current 0x10]

theorem otherRegs_frame (a : Word) (inFrame : InFrame (otherRegs .sp) a) : pagedStacks.owns 0x20 a := by
  obtain ⟨k, small, rfl⟩ := inFrame
  revert k
  change ∀ k < 13, ((0x20800 : Word) - 52 + BitVec.ofNat 32 (4 * k)) >>> 12 = 0x20
  decide

theorem switch_back_iff_other :
    ∃ m' es, exec activityStep (saveBlock 0x10 .r4 (switching 0x8000 0x8000)) otherTurn = some (m', es) ∧
      m'.mem 0x20700 = 7 ∧ m'.ksp 0x20 = 0x207cc ∧
      Resumed 0x10 0x8000 (switching 0x8000 0x8000) (switchBack 0x10 .lr .ip (.memory .sp 4) m') := by
  have apart : Reg.r4 ≠ .sp := by decide
  have held : (Home.memory .sp 4).Holds pagedStacks 0x10 (switching 0x8000 0x8000) :=
    ⟨by decide, .inr rfl, show (0x10804 : Word) >>> 12 = 0x10 by decide, switching_outside _ _⟩
  have own : Along activityStep (OnOwnStack pagedStacks 0x10) (saveBlock 0x10 .r4 (switching 0x8000 0x8000))
      otherTurn := by
    refine ⟨trivial, fun m es took => ?_⟩
    cases took
    refine ⟨trivial, fun m es took => ?_⟩
    cases took
    refine ⟨⟨by decide, show (0x20700 : Word) >>> 12 = 0x20 by decide⟩, fun m es took => ?_⟩
    cases took
    refine ⟨⟨by decide, by decide, otherRegs_frame⟩, fun m es took => ?_⟩
    cases took
    exact ⟨trivial, fun _ _ _ => trivial⟩
  have kept : FrameKept .lr .ip 0x8000 (switching 0x8000 0x8000) := by
    refine ⟨fun r low => ⟨fun out => ?_, fun out => ?_⟩, rfl, rfl⟩
    · exact absurd (out ▸ low) (by decide)
    · exact absurd (out ▸ low) (by decide)
  refine ⟨_, _, rfl, by decide, by decide, ?_⟩
  exact (switch_back_iff apart ⟨by decide, by decide, by decide⟩ (switching_frame _ _) held own rfl).mpr kept

theorem switch_back_loses_fp :
    ¬Resumed 0x10 0x8000 (switching 0x10840 0x9000)
        (switchBack 0x10 .lr .ip (.memory .sp 4) (saveBlock 0x10 .r4 (switching 0x10840 0x9000))) ∧
      (switchBack 0x10 .lr .ip (.memory .sp 4) (saveBlock 0x10 .r4 (switching 0x10840 0x9000))).regs .fp = 0x8000 ∧
      (switchBack 0x10 .lr .ip (.memory .sp 4) (saveBlock 0x10 .r4 (switching 0x10840 0x9000))).regs .lr = 0x9000 := by
  refine ⟨fun resumed => ?_, by decide, by decide⟩
  exact absurd resumed.fp (by decide)

end L4ertl
