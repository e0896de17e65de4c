import L4ertl.Core.Bitop

/-!
Cleanup handlers (pthread.c). A thread keeps them in a table of eight with the index
of the first free entry. A push into a full table does nothing, but its pop takes an
entry all the same; up to eight handlers at a time the table is a stack.
-/
namespace L4ertl

def maxCleanupHandlers : Nat := 8

structure CleanupRoutine where
  routine : Word
  arg : Word
  deriving DecidableEq, Repr

/-- The processor.h that is in the place of arch/processor.h. -/
inductive Port where
  | i386
  | xmI386
  | linux
  | l4
  | arm
  | lpc
  deriving DecidableEq, Repr

/-- What CALL_CANCEL_HANDLER runs: on three of the ports it is defined to nothing. -/
def callCancelHandler : Port → CleanupRoutine → List CleanupRoutine
  | .i386, cr => [cr]
  | .xmI386, cr => [cr]
  | .linux, cr => [cr]
  | .l4, _ => []
  | .arm, _ => []
  | .lpc, _ => []

/-- The uses of CALL_CANCEL_HANDLER: what it is handed, and what is run by that. -/
structure Cancels where
  handed : List CleanupRoutine
  run : List CleanupRoutine
  deriving DecidableEq, Repr

def Cancels.none : Cancels := ⟨[], []⟩

def cancel (port : Port) (cr : CleanupRoutine) (later : Cancels) : Cancels :=
  ⟨cr :: later.handed, callCancelHandler port cr ++ later.run⟩

structure CleanupTable where
  cleanupRoutineTable : Nat → CleanupRoutine
  topCrTable : Nat

def pthreadCleanupPushSys (cr : CleanupRoutine) (s : CleanupTable) : CleanupTable :=
  if s.topCrTable < maxCleanupHandlers then
    ⟨Function.update s.cleanupRoutineTable s.topCrTable cr, s.topCrTable + 1⟩
  else s

/-- Beside the table, the record that is removed. -/
def pthreadCleanupPopSys (port : Port) (execute : Int) (s : CleanupTable) :
    CleanupTable × Option CleanupRoutine × Cancels :=
  if s.topCrTable > 0 then
    let cr := s.cleanupRoutineTable (s.topCrTable - 1)
    ({ s with topCrTable := s.topCrTable - 1 }, some cr, if execute ≠ 0 then cancel port cr .none else .none)
  else (s, none, .none)

def exitCancels (port : Port) (table : Nat → CleanupRoutine) : Nat → Cancels
  | 0 => .none
  | top + 1 => cancel port (table top) (exitCancels port table top)

inductive CleanupOp where
  | push (cr : CleanupRoutine)
  | pop (execute : Int)
  deriving DecidableEq, Repr

def ProperlyNested : Nat → List CleanupOp → Prop
  | _, [] => True
  | depth, .push _ :: ops => ProperlyNested (depth + 1) ops
  | depth, .pop _ :: ops => 0 < depth ∧ ProperlyNested (depth - 1) ops

def deepest (depth : Nat) : List CleanupOp → Nat
  | [] => depth
  | .push _ :: ops => deepest (depth + 1) ops
  | .pop _ :: ops => max depth (deepest (depth - 1) ops)

/-- The calls `ops` on the table `s`, and then pthread_exit_sys, beside the records `open_`
    of the pushes that are open, the last one first. Each pop removes the last of them
    and hands it to the macro if it is to, and the exit hands over all that are left. -/
def Matched (port : Port) (s : CleanupTable) (open_ : List CleanupRoutine) : List CleanupOp → Prop
  | [] => exitCancels port s.cleanupRoutineTable s.topCrTable = ⟨open_, open_.flatMap (callCancelHandler port)⟩
  | .push cr :: ops => Matched port (pthreadCleanupPushSys cr s) (cr :: open_) ops
  | .pop execute :: ops => ∃ cr rest, open_ = cr :: rest ∧
      (pthreadCleanupPopSys port execute s).2 =
        (some cr, if execute ≠ 0 then ⟨[cr], callCancelHandler port cr⟩ else ⟨[], []⟩) ∧
      Matched port (pthreadCleanupPopSys port execute s).1 rest ops

def records (table : Nat → CleanupRoutine) : Nat → List CleanupRoutine
  | 0 => []
  | top + 1 => table top :: records table top

theorem cancel_none (port : Port) (cr : CleanupRoutine) :
    cancel port cr .none = ⟨[cr], callCancelHandler port cr⟩ := by
  rw [cancel, Cancels.none, List.append_nil]

theorem exitCancels_records (port : Port) (table : Nat → CleanupRoutine) (top : Nat) :
    exitCancels port table top = ⟨records table top, (records table top).flatMap (callCancelHandler port)⟩ := by
  induction top with
  | zero => rfl
  | succ top ih => rw [exitCancels, cancel, ih, records, List.flatMap_cons]

theorem records_update (table : Nat → CleanupRoutine) (cr : CleanupRoutine) {i top : Nat} (above : top ≤ i) :
    records (Function.update table i cr) top = records table top := by
  induction top with
  | zero => rfl
  | succ top ih => rw [records, records, ih (by omega), Function.update_of_ne (by omega)]

theorem records_push {s : CleanupTable} (room : s.topCrTable < maxCleanupHandlers) (cr : CleanupRoutine) :
    records (pthreadCleanupPushSys cr s).cleanupRoutineTable (pthreadCleanupPushSys cr s).topCrTable =
      cr :: records s.cleanupRoutineTable s.topCrTable := by
  rw [pthreadCleanupPushSys, if_pos room]
  simp only [records, Function.update_self, records_update _ _ (Nat.le_refl _)]

theorem deepest_ge (depth : Nat) (ops : List CleanupOp) : depth ≤ deepest depth ops := by
  induction ops generalizing depth with
  | nil => exact Nat.le_refl _
  | cons op ops ih =>
    cases op with
    | push cr => exact le_trans (Nat.le_succ depth) (ih (depth + 1))
    | pop execute => exact Nat.le_max_left _ _

theorem matched_from (port : Port) {s : CleanupTable} {ops : List CleanupOp}
    (nested : ProperlyNested s.topCrTable ops) (depth : deepest s.topCrTable ops ≤ maxCleanupHandlers) :
    Matched port s (records s.cleanupRoutineTable s.topCrTable) ops := by
  induction ops generalizing s with
  | nil => exact exitCancels_records port _ _
  | cons op ops ih =>
    cases op with
    | push cr =>
      -- the push is not the ninth: what is open after it is no more than the deepest
      have room : s.topCrTable < maxCleanupHandlers := by
        have open_ := deepest_ge (s.topCrTable + 1) ops
        rw [deepest] at depth
        omega
      have top : (pthreadCleanupPushSys cr s).topCrTable = s.topCrTable + 1 := by
        rw [pthreadCleanupPushSys, if_pos room]
      have next := ih (s := pthreadCleanupPushSys cr s) (by rw [top]; exact nested) (by rw [top]; exact depth)
      rw [records_push room] at next
      exact next
    | pop execute =>
      obtain ⟨some_, nested⟩ := nested
      obtain ⟨table, top⟩ := s
      cases top with
      | zero => cases some_
      | succ top =>
        have taken : pthreadCleanupPopSys port execute ⟨table, top + 1⟩ =
            (⟨table, top⟩, some (table top), if execute ≠ 0 then cancel port (table top) .none else .none) :=
          if_pos some_
        have next := ih (s := ⟨table, top⟩) nested (le_trans (Nat.le_max_right _ _) depth)
        rw [cancel_none] at taken
        rw [records, Matched, taken]
        exact ⟨_, _, rfl, rfl, next⟩

theorem cleanup_stack (port : Port) (s : CleanupTable) (empty : s.topCrTable = 0) (ops : List CleanupOp)
    (nested : ProperlyNested 0 ops) (depth : deepest 0 ops ≤ maxCleanupHandlers) : Matched port s [] ops := by
  obtain ⟨table, top⟩ := s
  simp only at empty
  subst empty
  exact matched_from port (s := ⟨table, 0⟩) nested depth

theorem cleanup_stack_two :
    let s : CleanupTable := ⟨fun _ => ⟨0#32, 0#32⟩, 0⟩
    let ops : List CleanupOp := [.push ⟨0x8000#32, 12#32⟩, .push ⟨0x8100#32, 4#32⟩, .pop 1]
    ProperlyNested 0 ops ∧ deepest 0 ops = 2 ∧ Matched .linux s [] ops := by
  intro s ops
  have nested : ProperlyNested 0 ops := ⟨by decide, trivial⟩
  exact ⟨nested, rfl, cleanup_stack .linux s rfl ops nested (by decide)⟩

theorem cleanup_stack_ninth :
    let s : CleanupTable := ⟨fun _ => ⟨0#32, 0#32⟩, 0⟩
    let ops : List CleanupOp :=
      (List.range 9).map (fun n => .push ⟨BitVec.ofNat 32 (0x8000 + n), 0#32⟩) ++ [.pop 0]
    ProperlyNested 0 ops ∧ ¬ Matched .l4 s [] ops := by
  refine ⟨⟨by decide, trivial⟩, ?_⟩
  rintro ⟨cr, rest, shape, removed, _⟩
  cases shape
  revert removed
  decide

end L4ertl
