import L4ertl.Arch.SyscallEntry

/-!
What a value in r0 makes the kernel call (dispatch_syscalls.c). The number of the
function and the number of its arguments are two fields of the word. Neither is
checked against syscall_table, so the word behind it may lie past its end.
-/
namespace L4ertl

/-- What dispatch_syscalls called, and the kernel and the registers after it. -/
structure Dispatched (K : Type) where
  called : Option (Nat × List Word)
  kernel : K
  regs : PtRegs

variable {T K : Type} [DecidableEq T]

/-- `code op` is the code at the address found `op` words after the start of
    syscall_table, whatever stands there. -/
def dispatchSyscalls (code : Nat → List Word → K → K × Word) (nr op : Nat) (regs : PtRegs) (k : K) :
    Dispatched K :=
  match dispatchArgs nr regs with
  | some args => ⟨some (op, args), (code op args k).1, storeResult nr op (code op args k).2 regs⟩
  -- "Warning: Unsupported System Call"
  | none => ⟨none, k, regs⟩

/-- A system call from the entry to the way back, with the branch of
    l4ertl_entry_from_user for the magic number in r7. -/
def systemCall (code : Nat → List Word → K → K × Word) (s : Machine T) (k : K) :
    Dispatched K × Machine T :=
  let entered := vcpuEntry true s
  let d := dispatchSyscalls code s.vcpu.nr s.vcpu.op (entered.entryUregs s.current) k
  let done := { entered with entryUregs := Function.update entered.entryUregs s.current d.regs }
  (d, leaveSyscall s.vcpu.op (entered.entryUregs s.current).r0 done)

def VcpuRegs.Valid (v : VcpuRegs) : Prop := syscallArity[v.op]? = some v.nr

/-- The call code of user code meets the function it names, or nothing at all and a
    negative result. -/
def DispatchRight (code : Nat → List Word → K → K × Word) (s : Machine T) (k : K) : Prop :=
  (s.vcpu.Valid →
    (systemCall code s k).1.called = some (s.vcpu.op, s.vcpu.args) ∧
      some s.vcpu.args.length = syscallArity[s.vcpu.op]?) ∧
  (¬s.vcpu.Valid →
    (systemCall code s k).1.called = none ∧ (systemCall code s k).1.kernel = k ∧
      (systemCall code s k).2.vcpu.r0.toInt < 0)

instance (v : VcpuRegs) : Decidable v.Valid := inferInstanceAs (Decidable (_ = _))

theorem syscallArity_length : syscallArity.length = nrSyscalls := rfl

theorem syscallArity_le : ∀ n ∈ syscallArity, n ≤ 6 := by decide

section
omit [DecidableEq T]

theorem VcpuRegs.Valid.op_lt {v : VcpuRegs} (valid : v.Valid) : v.op < nrSyscalls := by
  obtain ⟨inside, _⟩ := List.getElem?_eq_some_iff.mp valid
  exact syscallArity_length ▸ inside

theorem VcpuRegs.Valid.nr_le {v : VcpuRegs} (valid : v.Valid) : v.nr ≤ 6 :=
  syscallArity_le v.nr (List.mem_of_getElem? valid)

theorem VcpuRegs.args_length {v : VcpuRegs} (few : v.nr ≤ 6) : v.args.length = v.nr := by
  simp only [VcpuRegs.args, List.length_take, List.length_cons, List.length_nil]
  omega

theorem dispatchArgs_few {nr : Nat} (few : nr ≤ 6) (regs : PtRegs) :
    dispatchArgs nr regs = some ([regs 1, regs 2, regs 3, regs 4, regs 5, regs 6].take nr) := by
  match nr, few with
  | 0, _ | 1, _ | 2, _ | 3, _ | 4, _ | 5, _ | 6, _ => rfl

theorem dispatchArgs_many {nr : Nat} (many : 6 < nr) (regs : PtRegs) : dispatchArgs nr regs = none := by
  unfold dispatchArgs
  split <;> first | rfl | omega

theorem VcpuRegs.negative_iff (v : VcpuRegs) : v.r0.toInt < 0 ↔ 128 ≤ v.nr := by
  have bound := v.r0.isLt
  rw [VcpuRegs.r0] at bound ⊢
  rw [BitVec.toInt_neg_iff, VcpuRegs.nr, BitVec.toNat_ushiftRight, Nat.shiftRight_eq_div_pow]
  omega

end

theorem vcpuEntry_args (s : Machine T) :
    [(vcpuEntry true s).entryUregs s.current 1, (vcpuEntry true s).entryUregs s.current 2,
      (vcpuEntry true s).entryUregs s.current 3, (vcpuEntry true s).entryUregs s.current 4,
      (vcpuEntry true s).entryUregs s.current 5, (vcpuEntry true s).entryUregs s.current 6].take
        s.vcpu.nr = s.vcpu.args := by
  rw [vcpuEntry_own]
  rfl

theorem systemCall_few (code : Nat → List Word → K → K × Word) (s : Machine T) (k : K)
    (few : s.vcpu.nr ≤ 6) : (systemCall code s k).1.called = some (s.vcpu.op, s.vcpu.args) := by
  simp only [systemCall, dispatchSyscalls, dispatchArgs_few few]
  rw [vcpuEntry_args]

theorem systemCall_many (code : Nat → List Word → K → K × Word) (s : Machine T) (k : K)
    (many : 6 < s.vcpu.nr) :
    (systemCall code s k).1.called = none ∧ (systemCall code s k).1.kernel = k ∧
      (systemCall code s k).2.vcpu = s.vcpu := by
  have none_ := dispatchArgs_many many ((vcpuEntry true s).entryUregs s.current)
  refine ⟨?_, ?_, ?_⟩
  · simp only [systemCall, dispatchSyscalls, none_]
  · simp only [systemCall, dispatchSyscalls, none_]
  · simp only [systemCall, dispatchSyscalls, none_]
    rw [leaveSyscall_vcpu]
    have back : Function.update (vcpuEntry true s).entryUregs s.current
        ((vcpuEntry true s).entryUregs s.current) = (vcpuEntry true s).entryUregs :=
      Function.update_eq_self ..
    rw [back, show (vcpuEntry true s).current = s.current from rfl, vcpuEntry_own]
    exact ptregs_round_trip ..

theorem systemCall_trap (code : Nat → List Word → K → K × Word) {s w : Machine T} (k : K) {c : SysCall}
    (taken : s.next .trap = some w) (running : w.mode s.current = .running c) :
    (systemCall code s k).1.called = some (s.vcpu.op, c.args) := by
  have here : (vcpuEntry true s).current = s.current := rfl
  simp only [Machine.next, here] at taken
  split at taken
  · split at taken
    · rename_i args found
      cases taken
      simp only [Machine.setMode, Function.update_self] at running
      cases running
      simp only [systemCall, dispatchSyscalls, found]
    · cases taken
      simp only [Machine.setMode, Function.update_self] at running
      cases running
  · cases taken

/-- Right are the codes of the table with their own counts, and those that no branch takes
    and that are themselves negative. -/
theorem dispatch_right_iff (code : Nat → List Word → K → K × Word) (s : Machine T) (k : K) :
    DispatchRight code s k ↔
      s.vcpu.op < nrSyscalls ∧ syscallArity[s.vcpu.op]? = some s.vcpu.nr ∨ 128 ≤ s.vcpu.nr := by
  constructor
  · intro right
    by_cases valid : s.vcpu.Valid
    · exact Or.inl ⟨valid.op_lt, valid⟩
    · obtain ⟨quiet, _, negative⟩ := right.2 valid
      refine Or.inr ?_
      by_cases few : s.vcpu.nr ≤ 6
      · rw [systemCall_few code s k few] at quiet
        cases quiet
      · rw [(systemCall_many code s k (by omega)).2.2] at negative
        exact s.vcpu.negative_iff.mp negative
  · intro good
    constructor
    · intro valid
      refine ⟨systemCall_few code s k valid.nr_le, ?_⟩
      rw [VcpuRegs.args_length valid.nr_le]
      exact valid.symm
    · intro invalid
      have many : 128 ≤ s.vcpu.nr := by
        rcases good with ⟨_, valid⟩ | many
        · exact absurd valid invalid
        · exact many
      obtain ⟨quiet, same, back⟩ := systemCall_many code s k (by omega)
      refine ⟨quiet, same, ?_⟩
      rw [back]
      exact s.vcpu.negative_iff.mpr many

theorem dispatch_past_table :
    let user := Machine.boot (0 : Fin 2) (callRegs 0x0000FFFF#32 fun _ => 0#32)
    user.vcpu.r 7 = l4ertlArmSyscall ∧
    (systemCall (fun _ _ k => (k + 1, 0#32)) user (0 : Nat)).1.called = some (65535, []) ∧
    ¬DispatchRight (fun _ _ k => (k + 1, 0#32)) user (0 : Nat) := by
  intro user
  have called : (systemCall (fun _ _ k => (k + 1, 0#32)) user (0 : Nat)).1.called = some (65535, []) := by
    decide +kernel
  refine ⟨by decide, called, fun right => ?_⟩
  have quiet := (right.2 (by decide)).1
  rw [called] at quiet
  cases quiet

end L4ertl
