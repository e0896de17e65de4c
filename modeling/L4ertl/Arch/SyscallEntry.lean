import L4ertl.Core.Calls
import L4ertl.Lib.Lts

/-!
The way into the kernel and back (dispatch_syscalls.c, arm_context_switch.c,
regs.h). The registers of user mode pass through the one vCPU and through the
entry_uregs of the thread. Which thread runs next is left open: any switch of
the scheduler may happen at any point inside the kernel, and interrupts may come
in user mode and while a system call is in progress. No signal is pending.
-/
namespace L4ertl

structure VcpuRegs where
  r : Fin 13 → Word
  sp : Word
  lr : Word
  ip : Word
  deriving DecidableEq

/-- struct pt_regs: r0 to r12, sp, lr, pc and cpsr. -/
abbrev PtRegs := Fin 17 → Word

/-- The cpsr slot is not written. -/
def vcpuToPtregs (v : VcpuRegs) (regs : PtRegs) : PtRegs := fun i =>
  if small : i.val < 13 then v.r ⟨i.val, small⟩
  else if i.val = 13 then v.sp
  else if i.val = 14 then v.lr
  else if i.val = 15 then v.ip
  else regs i

def ptregsToVcpu (regs : PtRegs) : VcpuRegs where
  r := fun i => regs ⟨i.val, by omega⟩
  sp := regs 13
  lr := regs 14
  ip := regs 15

theorem ptregs_round_trip (v : VcpuRegs) (regs : PtRegs) : ptregsToVcpu (vcpuToPtregs v regs) = v := by
  obtain ⟨r, sp, lr, ip⟩ := v
  simp [ptregsToVcpu, vcpuToPtregs]

def l4ertlArmSyscall : Word := 0x000F0042#32

def nrSyscalls : Nat := 85
def pthreadExitNr : Nat := 9
def pthreadCreateNr : Nat := 10
def pthreadCreateIdleNr : Nat := 83

/-- How many parameters the functions of syscall_table have, in its order. -/
def syscallArity : List Nat :=
  [1, 3, 1, 3, 3, 3, 3, 6, 2, 1,
   5, 2, 1, 1, 2, 2, 1, 2, 2, 0,
   3, 3, 2, 1, 1, 2, 1, 1, 2, 1,
   1, 1, 2, 3, 2, 2, 1, 1, 0, 1,
   2, 1, 2, 2, 2, 2, 3, 1, 2, 1,
   2, 3, 0, 1, 2, 2, 1, 1, 1, 1,
   0, 0, 1, 1, 1, 1, 2, 3, 1, 2,
   1, 1, 2, 1, 1, 2, 2, 1, 3, 1,
   4, 2, 1, 4, 4]

def VcpuRegs.nr (v : VcpuRegs) : Nat := (v.r 0 >>> 24).toNat
def VcpuRegs.op (v : VcpuRegs) : Nat := (v.r 0 &&& 0xffff#32).toNat

def VcpuRegs.r0 (v : VcpuRegs) : Word := v.r 0
def PtRegs.r0 (regs : PtRegs) : Word := regs 0

/-- The arguments that dispatch_syscalls passes on, `none` for an unsupported number. -/
def dispatchArgs (nr : Nat) (regs : PtRegs) : Option (List Word) :=
  match nr with
  | 0 => some []
  | 1 => some [regs 1]
  | 2 => some [regs 1, regs 2]
  | 3 => some [regs 1, regs 2, regs 3]
  | 4 => some [regs 1, regs 2, regs 3, regs 4]
  | 5 => some [regs 1, regs 2, regs 3, regs 4, regs 5]
  | 6 => some [regs 1, regs 2, regs 3, regs 4, regs 5, regs 6]
  | _ => none

/-- Two of its branches drop what the function returns. -/
def storesResult (nr op : Nat) : Bool :=
  match nr with
  | 4 => op != pthreadCreateIdleNr
  | 5 => op != pthreadCreateNr
  | _ => true

def storeResult (nr op : Nat) (v : Word) (regs : PtRegs) : PtRegs :=
  if storesResult nr op then Function.update regs 0 v else regs

structure SysCall where
  regs : VcpuRegs
  args : List Word
  deriving DecidableEq

/-- Where a thread is: not there, created and never run, in user mode, in the
    kernel function of a call, past it (or past an unsupported number), or
    interrupted in user mode. -/
inductive Mode where
  | absent
  | fresh (start : VcpuRegs)
  | user
  | running (c : SysCall)
  | ending (c : SysCall) (result : Option Word)
  | interrupted
  deriving DecidableEq

def Mode.inKernel : Mode → Bool
  | .running _ | .ending _ _ | .interrupted => true
  | _ => false

/-- Interrupts are enabled from hw_sti to hw_cli around dispatch_syscalls. -/
def Mode.inSyscall : Mode → Bool
  | .running _ | .ending _ _ => true
  | _ => false

structure Machine (T : Type) where
  vcpu : VcpuRegs
  current : T
  mode : T → Mode
  entryUregs : T → PtRegs
  entryKregs : T → PtRegs
  -- the bit L4_VCPU_F_USER_MODE of cpsr and of saved_cpsr
  cpsrUser : T → Bool
  savedUser : T → Bool
  -- inside an interrupt that came in kernel mode
  kernelIrq : T → Bool

inductive MachineLabel (T : Type) where
  -- user code runs, up to these register values
  | user (regs : VcpuRegs)
  | trap
  | ret (v : Word)
  | leave
  | irq
  | irqDone
  | kernelIrq (regs : VcpuRegs)
  | kernelIrqDone
  | switch (new : T)
  | create (thread : T) (start : VcpuRegs)
  | remove (thread : T)

variable {T : Type} [DecidableEq T]

def Machine.setMode (t : T) (m : Mode) (s : Machine T) : Machine T :=
  { s with mode := Function.update s.mode t m }

def vcpuToPthread (fromUser : Bool) (t : T) (s : Machine T) : Machine T :=
  if fromUser then { s with entryUregs := Function.update s.entryUregs t (vcpuToPtregs s.vcpu (s.entryUregs t)) }
  else { s with entryKregs := Function.update s.entryKregs t (vcpuToPtregs s.vcpu (s.entryKregs t)) }

omit [DecidableEq T] in
def pthreadToVcpu (t : T) (s : Machine T) : Machine T :=
  { s with vcpu := ptregsToVcpu (if s.savedUser t then s.entryUregs t else s.entryKregs t) }

/-- l4ertl_vcpu_entry_c up to its branches. -/
def vcpuEntry (fromUser : Bool) (s : Machine T) : Machine T :=
  let t := s.current
  vcpuToPthread fromUser t { s with
    cpsrUser := Function.update s.cpsrUser t false
    savedUser := Function.update s.savedUser t fromUser }

def vcpuExit (toUser : Bool) (s : Machine T) : Machine T :=
  let t := s.current
  pthreadToVcpu t { s with savedUser := Function.update s.savedUser t toUser }

def Machine.storeResult (c : SysCall) (v : Word) (s : Machine T) : Machine T :=
  let regs := L4ertl.storeResult c.regs.nr c.regs.op v (s.entryUregs s.current)
  { s with entryUregs := Function.update s.entryUregs s.current regs }

/-- From the return of dispatch_syscalls in l4ertl_entry_from_user on. `r0` was
    read before the call. -/
def leaveSyscall (op : Nat) (r0 : Word) (s : Machine T) : Machine T :=
  let vcpu := ptregsToVcpu (s.entryUregs s.current)
  let vcpu := if op ≠ pthreadCreateIdleNr ∧ op ≠ pthreadCreateNr then
      { vcpu with r := Function.update vcpu.r 0 r0 }
    else vcpu
  vcpuExit true { s with vcpu := vcpu }

/-- context_switch_to. A thread that never ran takes its registers from its stack. -/
def Machine.contextSwitchTo (new : T) (s : Machine T) : Option (Machine T) :=
  let s := { s with cpsrUser := Function.update s.cpsrUser s.current false, current := new }
  match s.mode new with
  | .absent => none
  | .fresh start => some ({ s with vcpu := start }.setMode new .user)
  | _ =>
    if s.cpsrUser new then
      some ({ s with vcpu := ptregsToVcpu (s.entryUregs new) }.setMode new .user)
    else some s

/-- pthread_create_sys returns 0 or -1; nothing is assumed of the other functions. -/
def mayReturn (op : Nat) (v : Word) : Bool := op != pthreadCreateNr || v == 0#32 || v == (-1#32)

/-- Everything but user code is done by the running thread in the kernel. A call
    with another number in r7 or an op outside the table ends in the debugger. -/
def Machine.next (s : Machine T) : MachineLabel T → Option (Machine T)
  | .user regs => if s.mode s.current = .user then some { s with vcpu := regs } else none
  | .trap =>
    if s.mode s.current = .user ∧ s.vcpu.r 7 = l4ertlArmSyscall ∧ s.vcpu.op < nrSyscalls then
      let call := s.vcpu
      let s := vcpuEntry true s
      match dispatchArgs call.nr (s.entryUregs s.current) with
      | some args => some (s.setMode s.current (.running ⟨call, args⟩))
      | none => some (s.setMode s.current (.ending ⟨call, []⟩ none))
    else none
  | .ret v =>
    match s.mode s.current with
    | .running c =>
      if s.kernelIrq s.current = false ∧ mayReturn c.regs.op v then
        some ((s.storeResult c v).setMode s.current (.ending c (some v)))
      else none
    | _ => none
  | .leave =>
    match s.mode s.current with
    | .ending c _ =>
      if s.kernelIrq s.current = false then
        some ((leaveSyscall c.regs.op (c.regs.r 0) s).setMode s.current .user)
      else none
    | _ => none
  | .irq =>
    if s.mode s.current = .user then some ((vcpuEntry true s).setMode s.current .interrupted) else none
  | .irqDone =>
    if s.mode s.current = .interrupted then
      let s := pthreadToVcpu s.current { s with cpsrUser := Function.update s.cpsrUser s.current true }
      some ((vcpuExit true s).setMode s.current .user)
    else none
  | .kernelIrq regs =>
    if (s.mode s.current).inSyscall = true ∧ s.kernelIrq s.current = false then
      some { vcpuEntry false { s with vcpu := regs } with
        kernelIrq := Function.update s.kernelIrq s.current true }
    else none
  | .kernelIrqDone =>
    if s.kernelIrq s.current = true then
      some { vcpuExit false s with kernelIrq := Function.update s.kernelIrq s.current false }
    else none
  | .switch new =>
    if (s.mode s.current).inKernel = true ∧ new ≠ s.current then s.contextSwitchTo new else none
  | .create t start =>
    if (s.mode s.current).inKernel = true ∧ s.mode t = .absent then
      some ({ s with kernelIrq := Function.update s.kernelIrq t false }.setMode t (.fresh start))
    else none
  | .remove t =>
    if (s.mode s.current).inKernel = true ∧ t ≠ s.current then some (s.setMode t .absent) else none

def Machine.step (s : Machine T) (l : MachineLabel T) : Option (Machine T × List Unit) :=
  (s.next l).map fun w => (w, [])

def Machine.boot (t : T) (regs : VcpuRegs) : Machine T where
  vcpu := regs
  current := t
  mode := Function.update (fun _ => .absent) t .user
  entryUregs := fun _ _ => 0#32
  entryKregs := fun _ _ => 0#32
  cpsrUser := fun _ => false
  savedUser := fun _ => false
  kernelIrq := fun _ => false

def Machine.userRegs (s : Machine T) (t : T) : Option VcpuRegs :=
  match s.mode t with
  | .absent => none
  | .fresh start => some start
  | .user => some s.vcpu
  | _ => some (ptregsToVcpu (s.entryUregs t))

section
omit [DecidableEq T]

def VcpuRegs.setR0 (v : VcpuRegs) (value : Word) : VcpuRegs := { v with r := Function.update v.r 0 value }

def VcpuRegs.args (v : VcpuRegs) : List Word := [v.r 1, v.r 2, v.r 3, v.r 4, v.r 5, v.r 6].take v.nr

def SysCall.outcome (c : SysCall) : Option Word → VcpuRegs
  | none => c.regs
  | some v => if storesResult c.regs.nr c.regs.op then c.regs.setR0 v else c.regs

theorem dispatchArgs_eq {nr : Nat} {regs : PtRegs} {args : List Word}
    (called : dispatchArgs nr regs = some args) :
    args = [regs 1, regs 2, regs 3, regs 4, regs 5, regs 6].take nr := by
  unfold dispatchArgs at called
  split at called <;> cases called <;> rfl

theorem ptregs_update (regs : PtRegs) (v : Word) :
    ptregsToVcpu (Function.update regs 0 v) = (ptregsToVcpu regs).setR0 v := by
  simp only [ptregsToVcpu, VcpuRegs.setR0, VcpuRegs.mk.injEq]
  refine ⟨?_, rfl, rfl, rfl⟩
  funext i
  by_cases zero : i = 0
  · subst zero
    rfl
  · have other : (⟨i.val, by omega⟩ : Fin 17) ≠ 0 := by
      intro same
      have value := congrArg Fin.val same
      exact zero (Fin.ext value)
    rw [Function.update_of_ne other, Function.update_of_ne zero]

/-- What the entry code keeps for a thread inside a system call. -/
def Held (regs : PtRegs) : Mode → Prop
  | .running c => ptregsToVcpu regs = c.regs ∧ c.args = c.regs.args
  | .ending c result =>
    ptregsToVcpu regs = c.outcome result ∧
      ∀ v, result = some v → c.args = c.regs.args ∧ mayReturn c.regs.op v = true
  | _ => True

theorem Held.store {regs : PtRegs} {c : SysCall} {v : Word} (held : Held regs (.running c))
    (returned : mayReturn c.regs.op v = true) :
    Held (storeResult c.regs.nr c.regs.op v regs) (.ending c (some v)) := by
  constructor
  · unfold storeResult SysCall.outcome
    split
    · rw [ptregs_update, held.1]
    · exact held.1
  · intro x same
    cases same
    exact ⟨held.2, returned⟩

structure MachineOk (s : Machine T) : Prop where
  -- the running thread exists, and only it can be in user mode
  present : s.mode s.current = .user ∨ (s.mode s.current).inKernel = true
  alone : ∀ t, s.mode t = .user → t = s.current
  kernel : ∀ t, (s.mode t).inKernel = true → s.cpsrUser t = false
  held : ∀ t, Held (s.entryUregs t) (s.mode t)

end

theorem MachineOk.move {s w : Machine T} (ok : MachineOk s) {m : Mode} (same : w.current = s.current)
    (modes : w.mode = Function.update s.mode s.current m) (here : m = .user ∨ m.inKernel = true)
    (own : m.inKernel = true → w.cpsrUser s.current = false)
    (others : ∀ t, t ≠ s.current → w.cpsrUser t = s.cpsrUser t ∧ w.entryUregs t = s.entryUregs t)
    (held : Held (w.entryUregs s.current) m) : MachineOk w := by
  constructor
  · rw [same, modes, Function.update_self]
    exact here
  · intro t user
    rw [same]
    by_cases self : t = s.current
    · exact self
    · rw [modes, Function.update_of_ne self] at user
      exact ok.alone t user
  · intro t inside
    by_cases self : t = s.current
    · rw [self, modes, Function.update_self] at inside
      rw [self]
      exact own inside
    · rw [modes, Function.update_of_ne self] at inside
      rw [(others t self).1]
      exact ok.kernel t inside
  · intro t
    by_cases self : t = s.current
    · rw [self, modes, Function.update_self]
      exact held
    · rw [modes, Function.update_of_ne self, (others t self).2]
      exact ok.held t

theorem vcpuEntry_own (s : Machine T) :
    (vcpuEntry true s).entryUregs s.current = vcpuToPtregs s.vcpu (s.entryUregs s.current) :=
  Function.update_self ..

theorem MachineOk.enterUser {s : Machine T} (ok : MachineOk s) {m : Mode} (inside : m.inKernel = true)
    (held : Held (vcpuToPtregs s.vcpu (s.entryUregs s.current)) m) :
    MachineOk ((vcpuEntry true s).setMode s.current m) := by
  refine ok.move rfl rfl (Or.inr inside) ?_ ?_ ?_
  · intro _
    exact Function.update_self ..
  · intro t other
    exact ⟨Function.update_of_ne other .., Function.update_of_ne other ..⟩
  · rw [show ((vcpuEntry true s).setMode s.current m).entryUregs = (vcpuEntry true s).entryUregs from rfl,
      vcpuEntry_own]
    exact held

theorem MachineOk.trap {s : Machine T} (ok : MachineOk s) {args : List Word}
    (called : dispatchArgs s.vcpu.nr ((vcpuEntry true s).entryUregs s.current) = some args) :
    MachineOk ((vcpuEntry true s).setMode s.current (.running ⟨s.vcpu, args⟩)) := by
  apply ok.enterUser rfl
  refine ⟨ptregs_round_trip s.vcpu _, ?_⟩
  have list := dispatchArgs_eq called
  rw [vcpuEntry_own] at list
  exact list

theorem MachineOk.toUser {s w : Machine T} (ok : MachineOk s) (same : w.current = s.current)
    (modes : w.mode = s.mode) (flags : ∀ t, t ≠ s.current → w.cpsrUser t = s.cpsrUser t)
    (regs : w.entryUregs = s.entryUregs) : MachineOk (w.setMode s.current .user) := by
  refine ok.move (w := w.setMode s.current .user) same (by rw [← modes]; rfl) (Or.inl rfl) ?_ ?_ trivial
  · intro inside
    cases inside
  · intro t other
    exact ⟨flags t other, congrFun regs t⟩

omit [DecidableEq T] in
theorem MachineOk.keep {s w : Machine T} (ok : MachineOk s) (same : w.current = s.current)
    (modes : w.mode = s.mode) (regs : w.entryUregs = s.entryUregs)
    (flags : ∀ t, s.cpsrUser t = false → w.cpsrUser t = false) : MachineOk w := by
  constructor
  · rw [same, modes]
    exact ok.present
  · rw [same, modes]
    exact ok.alone
  · intro t inside
    rw [modes] at inside
    exact flags t (ok.kernel t inside)
  · rw [modes, regs]
    exact ok.held

theorem MachineOk.switch_cases {s w : Machine T} (ok : MachineOk s) {new : T} (other : new ≠ s.current)
    (taken : s.contextSwitchTo new = some w) :
    w.current = new ∧ w.entryUregs = s.entryUregs ∧
      w.cpsrUser = Function.update s.cpsrUser s.current false ∧
      ((∃ start, s.mode new = .fresh start ∧ w.vcpu = start ∧ w.mode = Function.update s.mode new .user) ∨
        ((s.mode new).inKernel = true ∧ w.mode = s.mode)) := by
  unfold Machine.contextSwitchTo at taken
  simp only at taken
  split at taken
  · cases taken
  · rename_i start fresh
    cases taken
    exact ⟨rfl, rfl, rfl, Or.inl ⟨start, fresh, rfl, rfl⟩⟩
  · rename_i present old
    have inside : (s.mode new).inKernel = true := by
      cases at_ : s.mode new with
      | absent => exact absurd at_ present
      | fresh start => exact absurd at_ (old start)
      | user => exact absurd (ok.alone new at_) other
      | running c => rfl
      | ending c result => rfl
      | interrupted => rfl
    have clear : Function.update s.cpsrUser s.current false new = false := by
      rw [Function.update_of_ne other]
      exact ok.kernel new inside
    rw [if_neg (by rw [clear]; decide)] at taken
    cases taken
    exact ⟨rfl, rfl, rfl, Or.inr ⟨inside, rfl⟩⟩

theorem MachineOk.switch {s w : Machine T} (ok : MachineOk s) {new : T} (other : new ≠ s.current)
    (from_ : (s.mode s.current).inKernel = true) (taken : s.contextSwitchTo new = some w) :
    MachineOk w := by
  obtain ⟨current, regs, flags, way⟩ := ok.switch_cases other taken
  have cleared : ∀ t, s.cpsrUser t = false → w.cpsrUser t = false := by
    intro t clear
    rw [flags, Function.update_apply]
    split
    · rfl
    · exact clear
  -- the thread that is left is in the kernel, so nobody else is in user mode
  have nobody : ∀ t, s.mode t ≠ .user := by
    intro t user
    rw [← ok.alone t user, user] at from_
    cases from_
  rcases way with ⟨start, fresh, _, modes⟩ | ⟨inside, modes⟩
  · constructor
    · rw [current, modes, Function.update_self]
      exact Or.inl rfl
    · intro t user
      rw [current]
      by_cases self : t = new
      · exact self
      · rw [modes, Function.update_of_ne self] at user
        exact absurd user (nobody t)
    · intro t kernel
      by_cases self : t = new
      · rw [self, modes, Function.update_self] at kernel
        cases kernel
      · rw [modes, Function.update_of_ne self] at kernel
        exact cleared t (ok.kernel t kernel)
    · intro t
      rw [regs, modes]
      by_cases self : t = new
      · rw [self, Function.update_self]
        trivial
      · rw [Function.update_of_ne self]
        exact ok.held t
  · constructor
    · rw [current, modes]
      exact Or.inr inside
    · intro t user
      rw [modes] at user
      exact absurd user (nobody t)
    · intro t kernel
      rw [modes] at kernel
      exact cleared t (ok.kernel t kernel)
    · rw [regs, modes]
      exact ok.held

theorem MachineOk.setOther {s w : Machine T} (ok : MachineOk s) {t : T} {m : Mode} (other : t ≠ s.current)
    (out : m ≠ .user ∧ m.inKernel = false) (same : w.current = s.current)
    (modes : w.mode = Function.update s.mode t m) (regs : w.entryUregs = s.entryUregs)
    (flags : w.cpsrUser = s.cpsrUser) : MachineOk w := by
  constructor
  · rw [same, modes, Function.update_of_ne other.symm]
    exact ok.present
  · intro u user
    rw [same]
    by_cases self : u = t
    · rw [self, modes, Function.update_self] at user
      exact absurd user out.1
    · rw [modes, Function.update_of_ne self] at user
      exact ok.alone u user
  · intro u inside
    rw [flags]
    by_cases self : u = t
    · rw [self, modes, Function.update_self, out.2] at inside
      cases inside
    · rw [modes, Function.update_of_ne self] at inside
      exact ok.kernel u inside
  · intro u
    rw [regs, modes]
    by_cases self : u = t
    · rw [self, Function.update_self]
      cases m with
      | running c => cases out.2
      | ending c result => cases out.2
      | _ => trivial
    · rw [Function.update_of_ne self]
      exact ok.held u

theorem MachineOk.next {s w : Machine T} {l : MachineLabel T} (ok : MachineOk s)
    (taken : s.next l = some w) : MachineOk w := by
  cases l with
  | user regs =>
    simp only [Machine.next] at taken
    split at taken
    · cases taken
      exact ok.keep rfl rfl rfl fun _ clear => clear
    · cases taken
  | trap =>
    simp only [Machine.next] at taken
    split at taken
    · split at taken
      · rename_i args called
        cases taken
        exact ok.trap called
      · cases taken
        exact ok.enterUser rfl ⟨ptregs_round_trip s.vcpu _, fun v none_ => (nomatch none_)⟩
    · cases taken
  | ret v =>
    simp only [Machine.next] at taken
    split at taken
    · rename_i c running
      split at taken
      · rename_i may
        cases taken
        have held := ok.held s.current
        rw [running] at held
        refine ok.move (m := .ending c (some v)) rfl rfl (Or.inr rfl) ?_ ?_ ?_
        · intro _
          exact ok.kernel s.current (by rw [running]; rfl)
        · intro t other
          exact ⟨rfl, Function.update_of_ne other ..⟩
        · have own : ((s.storeResult c v).setMode s.current (.ending c (some v))).entryUregs s.current =
              storeResult c.regs.nr c.regs.op v (s.entryUregs s.current) := Function.update_self ..
          rw [own]
          exact held.store may.2
      · cases taken
    · cases taken
  | leave =>
    simp only [Machine.next] at taken
    split at taken
    · split at taken
      · cases taken
        exact ok.toUser (w := leaveSyscall _ _ s) rfl rfl (fun _ _ => rfl) rfl
      · cases taken
    · cases taken
  | irq =>
    simp only [Machine.next] at taken
    split at taken
    · cases taken
      exact ok.enterUser rfl trivial
    · cases taken
  | irqDone =>
    simp only [Machine.next] at taken
    split at taken
    · cases taken
      exact ok.toUser (w := vcpuExit true (pthreadToVcpu s.current
        { s with cpsrUser := Function.update s.cpsrUser s.current true })) rfl rfl
          (fun t other => Function.update_of_ne other ..) rfl
    · cases taken
  | kernelIrq regs =>
    simp only [Machine.next] at taken
    split at taken
    · cases taken
      refine ok.keep rfl rfl rfl ?_
      intro t clear
      by_cases self : t = s.current
      · subst self
        exact Function.update_self ..
      · exact (Function.update_of_ne self ..).trans clear
    · cases taken
  | kernelIrqDone =>
    simp only [Machine.next] at taken
    split at taken
    · cases taken
      exact ok.keep rfl rfl rfl fun _ clear => clear
    · cases taken
  | switch new =>
    simp only [Machine.next] at taken
    split at taken
    · rename_i may
      exact ok.switch may.2 may.1 taken
    · cases taken
  | create t start =>
    simp only [Machine.next] at taken
    split at taken
    · rename_i may
      cases taken
      have other : t ≠ s.current := by
        intro same
        rw [same] at may
        rw [may.2] at may
        cases may.1
      refine ok.setOther (m := .fresh start) other ⟨?_, rfl⟩ rfl rfl rfl rfl
      intro same
      cases same
    · cases taken
  | remove t =>
    simp only [Machine.next] at taken
    split at taken
    · rename_i may
      cases taken
      refine ok.setOther (m := .absent) may.2 ⟨?_, rfl⟩ rfl rfl rfl rfl
      intro same
      cases same
    · cases taken

theorem machineOk_boot (t : T) (regs : VcpuRegs) : MachineOk (.boot t regs) := by
  have own : (Machine.boot t regs).mode t = .user := by simp [Machine.boot]
  have others : ∀ u, u ≠ t → (Machine.boot t regs).mode u = .absent := by
    intro u other
    simp [Machine.boot, other]
  constructor
  · exact Or.inl own
  · intro u user
    by_contra other
    rw [others u other] at user
    cases user
  · intro u _
    rfl
  · intro u
    by_cases self : u = t
    · rw [self, own]
      trivial
    · rw [others u self]
      trivial

theorem next_cases {s w : Machine T} {l : MachineLabel T} (taken : s.next l = some w) :
    (∃ m, w.mode = Function.update s.mode s.current m ∧
      (∀ u, u ≠ s.current → w.entryUregs u = s.entryUregs u) ∧
      (m = .user → (s.mode s.current).inSyscall = true →
        l = .leave ∧ ∃ c result, s.mode s.current = .ending c result)) ∨
    (∃ new, new ≠ s.current ∧ s.contextSwitchTo new = some w) ∨
    ∃ t m, w.mode = Function.update s.mode t m ∧ w.entryUregs = s.entryUregs ∧
      (m = .absent ∨ s.mode t = .absent ∧ ∃ start, m = .fresh start) := by
  have stays : w.mode = s.mode → w.mode = Function.update s.mode s.current (s.mode s.current) := by
    intro same
    rw [same, Function.update_eq_self]
  have quiet : s.mode s.current = .user → (s.mode s.current).inSyscall = true →
      l = .leave ∧ ∃ c result, s.mode s.current = .ending c result := by
    intro user inside
    rw [user] at inside
    cases inside
  cases l with
  | user regs =>
    simp only [Machine.next] at taken
    split at taken
    · cases taken
      exact Or.inl ⟨_, stays rfl, fun _ _ => rfl, quiet⟩
    · cases taken
  | trap =>
    simp only [Machine.next] at taken
    split at taken
    · split at taken <;> cases taken <;>
        exact Or.inl ⟨_, rfl, fun u other => Function.update_of_ne other .., nofun⟩
    · cases taken
  | ret v =>
    simp only [Machine.next] at taken
    split at taken
    · split at taken
      · cases taken
        exact Or.inl ⟨_, rfl, fun u other => Function.update_of_ne other .., nofun⟩
      · cases taken
    · cases taken
  | leave =>
    simp only [Machine.next] at taken
    split at taken
    · rename_i c result ending
      split at taken
      · cases taken
        exact Or.inl ⟨_, rfl, fun _ _ => rfl, fun _ _ => ⟨rfl, c, result, ending⟩⟩
      · cases taken
    · cases taken
  | irq =>
    simp only [Machine.next] at taken
    split at taken
    · cases taken
      exact Or.inl ⟨_, rfl, fun u other => Function.update_of_ne other .., nofun⟩
    · cases taken
  | irqDone =>
    simp only [Machine.next] at taken
    split at taken
    · rename_i interrupted
      cases taken
      refine Or.inl ⟨_, rfl, fun _ _ => rfl, ?_⟩
      intro _ inside
      rw [interrupted] at inside
      cases inside
    · cases taken
  | kernelIrq regs =>
    simp only [Machine.next] at taken
    split at taken
    · cases taken
      exact Or.inl ⟨_, stays rfl, fun _ _ => rfl, quiet⟩
    · cases taken
  | kernelIrqDone =>
    simp only [Machine.next] at taken
    split at taken
    · cases taken
      exact Or.inl ⟨_, stays rfl, fun _ _ => rfl, quiet⟩
    · cases taken
  | switch new =>
    simp only [Machine.next] at taken
    split at taken
    · rename_i may
      exact Or.inr (Or.inl ⟨new, may.2, taken⟩)
    · cases taken
  | create t start =>
    simp only [Machine.next] at taken
    split at taken
    · rename_i may
      cases taken
      exact Or.inr (Or.inr ⟨t, _, rfl, rfl, Or.inr ⟨may.2, start, rfl⟩⟩)
    · cases taken
  | remove t =>
    simp only [Machine.next] at taken
    split at taken
    · cases taken
      exact Or.inr (Or.inr ⟨t, _, rfl, rfl, Or.inl rfl⟩)
    · cases taken

theorem MachineOk.others {s w : Machine T} {l : MachineLabel T} (ok : MachineOk s)
    (taken : s.next l = some w) {u : T} (other : u ≠ s.current) (before : s.mode u ≠ .absent)
    (after : w.mode u ≠ .absent) : w.userRegs u = s.userRegs u := by
  have away : s.mode u ≠ .user := fun user => other (ok.alone u user)
  -- outside user mode the registers are a function of the mode and of entry_uregs
  have kept : w.mode u = s.mode u → w.entryUregs u = s.entryUregs u → w.userRegs u = s.userRegs u := by
    intro modes regs
    simp only [Machine.userRegs, modes, regs]
    split <;> first | rfl | contradiction
  rcases next_cases taken with ⟨m, modes, regs, _⟩ | ⟨new, apart, switched⟩ | ⟨t, m, modes, regs, which⟩
  · exact kept (by rw [modes, Function.update_of_ne other]) (regs u other)
  · obtain ⟨_, regs, _, way⟩ := ok.switch_cases apart switched
    rcases way with ⟨start, fresh, loaded, modes⟩ | ⟨_, modes⟩
    · by_cases self : u = new
      · subst self
        simp only [Machine.userRegs, modes, Function.update_self, loaded, fresh]
      · exact kept (by rw [modes, Function.update_of_ne self]) (congrFun regs u)
    · exact kept (congrFun modes u) (congrFun regs u)
  · by_cases self : u = t
    · subst self
      rw [modes, Function.update_self] at after
      rcases which with gone | ⟨new, _⟩
      · exact absurd gone after
      · exact absurd new before
    · exact kept (by rw [modes, Function.update_of_ne self]) (congrFun regs u)

theorem MachineOk.way_out {s w : Machine T} {l : MachineLabel T} (ok : MachineOk s)
    (taken : s.next l = some w) {t : T} (inside : (s.mode t).inSyscall = true)
    (user : w.mode t = .user) :
    l = .leave ∧ t = s.current ∧ ∃ c result, s.mode t = .ending c result := by
  have kept : w.mode t ≠ s.mode t := by
    intro same
    rw [← same, user] at inside
    cases inside
  rcases next_cases taken with ⟨m, modes, _, out⟩ | ⟨new, apart, switched⟩ | ⟨u, m, modes, _, which⟩
  · have self : t = s.current := by
      by_contra other
      exact kept (by rw [modes, Function.update_of_ne other])
    subst self
    rw [modes, Function.update_self] at user
    obtain ⟨label, ending⟩ := out user inside
    exact ⟨label, rfl, ending⟩
  · obtain ⟨_, _, _, way⟩ := ok.switch_cases apart switched
    rcases way with ⟨start, fresh, _, modes⟩ | ⟨_, modes⟩
    · by_cases self : t = new
      · rw [self, fresh] at inside
        cases inside
      · exact absurd (by rw [modes, Function.update_of_ne self]) kept
    · exact absurd (congrFun modes t) kept
  · by_cases self : t = u
    · subst self
      rw [modes, Function.update_self] at user
      rcases which with rfl | ⟨_, start, rfl⟩
      · cases user
      · cases user
    · exact absurd (by rw [modes, Function.update_of_ne self]) kept

section
omit [DecidableEq T]

/-- A call as the user library makes it, of a function that returns to its caller. -/
structure VcpuRegs.WellFormed (v : VcpuRegs) : Prop where
  syscall : v.r 7 = l4ertlArmSyscall
  op : v.op < nrSyscalls
  arity : syscallArity[v.op]? = some v.nr
  notIdle : v.op ≠ pthreadCreateIdleNr
  notExit : v.op ≠ pthreadExitNr

structure ResultDelivered (t : T) (c : SysCall) (v : Word) (w : Machine T) : Prop where
  current : w.current = t
  user : w.mode t = .user
  args : c.args = c.regs.args
  r0 : w.vcpu.r 0 = v
  rest : ∀ i, i ≠ 0 → w.vcpu.r i = c.regs.r i
  sp : w.vcpu.sp = c.regs.sp
  lr : w.vcpu.lr = c.regs.lr
  pc : w.vcpu.ip = c.regs.ip

theorem VcpuRegs.WellFormed.five {v : VcpuRegs} (formed : v.WellFormed) (create : v.op = pthreadCreateNr) :
    v.nr = 5 := by
  have arity := formed.arity
  rw [create] at arity
  exact (Option.some.inj arity).symm

theorem storesResult_iff {v : VcpuRegs} (formed : v.WellFormed) :
    storesResult v.nr v.op = true ↔ v.op ≠ pthreadCreateNr := by
  constructor
  · intro stores create
    rw [formed.five create, create] at stores
    exact absurd stores (by decide)
  · intro other
    unfold storesResult
    split
    · exact bne_iff_ne.mpr formed.notIdle
    · exact bne_iff_ne.mpr other
    · rfl

theorem nr_of_result {v : VcpuRegs} {x : Word} (five : v.nr = 5) (result : x = 0#32 ∨ x = -1#32) :
    v.r 0 ≠ x := by
  intro same
  rw [VcpuRegs.nr, same] at five
  rcases result with rfl | rfl
  · exact absurd five (by decide)
  · exact absurd five (by decide)

end

theorem leaveSyscall_vcpu (op : Nat) (r0 : Word) (s : Machine T) :
    (leaveSyscall op r0 s).vcpu = ptregsToVcpu (s.entryUregs s.current) := by
  simp [leaveSyscall, vcpuExit, pthreadToVcpu]

theorem MachineOk.leave {s w : Machine T} (ok : MachineOk s) {c : SysCall} {v : Word}
    (here : s.mode s.current = .ending c (some v)) (taken : s.next .leave = some w) :
    w.current = s.current ∧ w.mode s.current = .user ∧ w.vcpu = c.outcome (some v) ∧
      c.args = c.regs.args ∧ mayReturn c.regs.op v = true := by
  have held := ok.held s.current
  rw [here] at held
  simp only [Machine.next, here] at taken
  split at taken
  · cases taken
    refine ⟨rfl, Function.update_self .., ?_, held.2 v rfl⟩
    exact (leaveSyscall_vcpu ..).trans held.1
  · cases taken

theorem delivered_iff {s w : Machine T} (ok : MachineOk s) {c : SysCall} {v : Word}
    (here : s.mode s.current = .ending c (some v)) (formed : c.regs.WellFormed)
    (taken : s.next .leave = some w) : ResultDelivered s.current c v w ↔ c.regs.op ≠ pthreadCreateNr := by
  obtain ⟨current, user, vcpu, args, returned⟩ := ok.leave here taken
  constructor
  · intro delivered create
    have result : v = 0#32 ∨ v = -1#32 := by
      simpa [mayReturn, create] using returned
    apply nr_of_result (formed.five create) result
    rw [← delivered.r0, vcpu, SysCall.outcome, if_neg]
    rw [storesResult_iff formed]
    exact fun other => other create
  · intro other
    have stored : w.vcpu = c.regs.setR0 v := by
      rw [vcpu, SysCall.outcome, if_pos ((storesResult_iff formed).mpr other)]
    refine ⟨current, user, args, ?_, ?_, ?_, ?_, ?_⟩
    · rw [stored]
      exact Function.update_self 0 v c.regs.r
    · intro i apart
      rw [stored]
      exact Function.update_of_ne apart v c.regs.r
    · rw [stored]; rfl
    · rw [stored]; rfl
    · rw [stored]; rfl

theorem machineOk_run {t : T} {regs : VcpuRegs} {ls : List (MachineLabel T)} {s : Machine T} {es : List Unit}
    (run : Lts.exec Machine.step (.boot t regs) ls = some (s, es)) : MachineOk s := by
  have keeps : ∀ (s : Machine T) l w first, MachineOk s → s.step l = some (w, first) → MachineOk w := by
    intro s l w first ok taken
    obtain ⟨x, next, eq⟩ := Option.map_eq_some_iff.mp taken
    cases eq
    exact ok.next next
  exact Lts.exec_always (fun s => MachineOk s) keeps ls (machineOk_boot t regs) run

/-- In every run, when a thread whose call has returned `v` gets to user mode again, the
    result is there exactly when the call was not pthread_create; and no step touches
    the registers of a thread that is not running. -/
theorem syscall_delivered_iff (boot : T) (regs : VcpuRegs) (ls : List (MachineLabel T)) (s : Machine T)
    (es : List Unit) (run : Lts.exec Machine.step (.boot boot regs) ls = some (s, es))
    (l : MachineLabel T) (w : Machine T) (taken : s.step l = some (w, [])) :
    (∀ u, u ≠ s.current → s.mode u ≠ .absent → w.mode u ≠ .absent → w.userRegs u = s.userRegs u) ∧
    (∀ t c, s.mode t = .running c → w.mode t ≠ .user) ∧
    ∀ t c v, s.mode t = .ending c (some v) → w.mode t = .user → c.regs.WellFormed →
      (ResultDelivered t c v w ↔ c.regs.op ≠ pthreadCreateNr) := by
  have ok := machineOk_run run
  obtain ⟨x, next, eq⟩ := Option.map_eq_some_iff.mp taken
  cases eq
  refine ⟨?_, ?_, ?_⟩
  · intro u other before after
    exact ok.others next other before after
  · intro t c running user
    obtain ⟨_, _, d, result, ending⟩ := ok.way_out next (by rw [running]; rfl) user
    rw [running] at ending
    cases ending
  · intro t c v ending user formed
    obtain ⟨rfl, self, _⟩ := ok.way_out next (by rw [ending]; rfl) user
    subst self
    exact delivered_iff ok ending formed next

def callRegs (code : Word) (args : Fin 13 → Word) : VcpuRegs :=
  ⟨Function.update (Function.update args 0 code) 7 l4ertlArmSyscall, 0x8000#32, 0x104#32, 0x100#32⟩

instance (v : VcpuRegs) : Decidable v.WellFormed :=
  decidable_of_iff (v.r 7 = l4ertlArmSyscall ∧ v.op < nrSyscalls ∧ syscallArity[v.op]? = some v.nr ∧
      v.op ≠ pthreadCreateIdleNr ∧ v.op ≠ pthreadExitNr)
    ⟨fun h => ⟨h.1, h.2.1, h.2.2.1, h.2.2.2.1, h.2.2.2.2⟩,
      fun h => ⟨h.syscall, h.op, h.arity, h.notIdle, h.notExit⟩⟩

theorem syscall_delivered_create2 :
    let create2 := callRegs 0x04000054#32 fun i => BitVec.ofNat 32 i.val
    let start := callRegs 0x01000018#32 fun _ => 5#32
    ∃ s w, Lts.exec Machine.step (.boot (0 : Fin 2) create2)
        [.trap, .create 1 start, .switch 1, .trap, .switch 0, .ret 0#32] = some (s, []) ∧
      s.step .leave = some (w, []) ∧ ResultDelivered 0 ⟨create2, [1#32, 2#32, 3#32, 4#32]⟩ 0#32 w := by
  intro create2 start
  have final : (Lts.exec Machine.step (.boot (0 : Fin 2) create2)
      [.trap, .create 1 start, .switch 1, .trap, .switch 0, .ret 0#32]).bind (fun r =>
        (r.1.step .leave).map fun x => (r.2, r.1.mode 0, x.1.mode 0, x.2)) =
      some ([], .ending ⟨create2, [1#32, 2#32, 3#32, 4#32]⟩ (some 0#32), .user, []) := by decide +kernel
  obtain ⟨⟨s, es⟩, run, more⟩ := Option.bind_eq_some_iff.mp final
  obtain ⟨⟨w, first⟩, taken, eq⟩ := Option.map_eq_some_iff.mp more
  simp only [Prod.mk.injEq] at eq
  obtain ⟨rfl, ending, user, rfl⟩ := eq
  have law := (syscall_delivered_iff 0 create2 _ s [] run .leave w taken).2.2 0 _ _ ending user
    (by decide +kernel)
  exact ⟨s, w, run, taken, law.mpr (by decide +kernel)⟩

theorem create_result_lost :
    let create := callRegs 0x0500000a#32 fun _ => 0#32
    ∃ s w, Lts.exec Machine.step (.boot (0 : Fin 2) create) [.trap, .ret 0#32] = some (s, []) ∧
      create.WellFormed ∧ s.mode 0 = .ending ⟨create, [0#32, 0#32, 0#32, 0#32, 0#32]⟩ (some 0#32) ∧
      s.step .leave = some (w, []) ∧ w.mode 0 = .user ∧ w.vcpu.r 0 = 0x0500000a#32 ∧
      ¬ResultDelivered 0 ⟨create, [0#32, 0#32, 0#32, 0#32, 0#32]⟩ 0#32 w := by
  intro create
  have final : (Lts.exec Machine.step (.boot (0 : Fin 2) create) [.trap, .ret 0#32]).bind (fun r =>
      (r.1.step .leave).map fun x => (r.2, r.1.mode 0, x.1.mode 0, x.1.vcpu.r 0, x.2)) =
      some ([], .ending ⟨create, [0#32, 0#32, 0#32, 0#32, 0#32]⟩ (some 0#32), .user, 0x0500000a#32, []) := by
    decide +kernel
  obtain ⟨⟨s, es⟩, run, more⟩ := Option.bind_eq_some_iff.mp final
  obtain ⟨⟨w, first⟩, taken, eq⟩ := Option.map_eq_some_iff.mp more
  simp only [Prod.mk.injEq] at eq
  obtain ⟨rfl, ending, user, r0, rfl⟩ := eq
  refine ⟨s, w, run, by decide +kernel, ending, taken, user, r0, ?_⟩
  intro delivered
  rw [delivered.r0] at r0
  exact absurd r0 (by decide)

end L4ertl
