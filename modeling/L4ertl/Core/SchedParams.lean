import L4ertl.Core.CallSound
import L4ertl.Core.Kstack

/-!
Scheduling parameters. The lists are chosen by the low ten bits of a priority, which
are the priority itself only for those that pthread_create_sys accepts and for that
of the idle thread. pthread_setschedparam_sys takes any, and any policy, and has
already set the policy when it finds that there are no parameters.
-/
namespace L4ertl
open Intrusive Lts

def getThreadPolicy (flags : Word) : Word := (flags &&& 0x3c0#32) >>> 6

theorem getThreadPolicy_set (flags policy : Word) :
    getThreadPolicy (setThreadPolicy flags policy) = policy &&& 0xf#32 := by
  have kept : ∀ i, i < 32 → (0x3c0#32).getLsbD i = decide (6 ≤ i ∧ i < 10) := by decide
  have low : ∀ i, i < 32 → (0xf#32).getLsbD i = decide (i < 4) := by decide
  apply BitVec.eq_of_getLsbD_eq
  intro j inside
  simp only [getThreadPolicy, setThreadPolicy, BitVec.getLsbD_ushiftRight, BitVec.getLsbD_and,
    BitVec.getLsbD_or, BitVec.getLsbD_not, BitVec.getLsbD_shiftLeft, low j inside]
  by_cases four : j < 4
  · have place : 6 + j < 32 := by omega
    have bit : (0x3c0#32).getLsbD (6 + j) = true := by
      rw [kept _ place]
      simp
      omega
    have back : 6 + j - 6 = j := by omega
    have high : ¬ 6 + j < 6 := by omega
    simp only [bit, place, high, back, four, low j inside, decide_true, decide_false, Bool.not_true,
      Bool.not_false, Bool.and_false, Bool.false_or, Bool.true_and, Bool.and_true]
  · have bit : (0x3c0#32).getLsbD (6 + j) = false := by
      by_cases place : 6 + j < 32
      · rw [kept _ place]
        simp
        omega
      · exact BitVec.getLsbD_of_ge _ _ (by omega)
    simp only [bit, four, decide_false, Bool.and_false]

theorem policy_bits (policy : Int) : BitVec.ofInt 32 policy &&& 0xf#32 = 0#32 ↔ policy % 16 = 0 := by
  have mask : (0xf : Nat) = 2 ^ 4 - 1 := rfl
  have low : (BitVec.ofInt 32 policy &&& 0xf#32).toNat = (policy % 16).toNat := by
    rw [BitVec.toNat_and, BitVec.toNat_ofInt, BitVec.toNat_ofNat]
    have small : 15 % 2 ^ 32 = 2 ^ 4 - 1 := rfl
    rw [small, Nat.and_two_pow_sub_one_eq_mod]
    omega
  constructor
  · intro zero
    rw [zero] at low
    simp at low
    omega
  · intro zero
    apply BitVec.eq_of_toNat_eq
    rw [low, zero]
    rfl

variable {T : Type} [DecidableEq T]

def SchedparamRight (k : Kernel T) (thread : T) (policy : Int) (param : Option SchedParam) : Prop :=
  let r := pthreadSetschedparamSys thread policy param k
  (r.2 = .ret (-1) ∧ getThreadPolicy (r.1.threadFlags thread) = getThreadPolicy (k.threadFlags thread) ∧
      r.1.schedParam thread = k.schedParam thread ∧ r.1.activeThreads = k.activeThreads) ∨
    (r.2 = .sched .done ∧ getThreadPolicy (r.1.threadFlags thread) = BitVec.ofInt 32 schedFifo ∧
      maxSchedPriority ≤ r.1.prio thread ∧ r.1.prio thread ≤ minSchedPriority)

def SchedparamValid (k : Kernel T) (thread : T) (policy : Int) : Option SchedParam → Prop
  | none => k.magicNumber thread = pthreadMagicNumber →
      BitVec.ofInt 32 policy &&& 0xf#32 = getThreadPolicy (k.threadFlags thread)
  | some p => k.magicNumber thread = pthreadMagicNumber →
      policy % 16 = 0 ∧ maxSchedPriority ≤ p.schedPriority ∧ p.schedPriority ≤ minSchedPriority

theorem schedparam_right_iff (k : Kernel T) (thread : T) (policy : Int) (param : Option SchedParam) :
    SchedparamRight k thread policy param ↔ SchedparamValid k thread policy param := by
  unfold SchedparamRight pthreadSetschedparamSys
  by_cases magic : k.magicNumber thread = pthreadMagicNumber
  · have valid : ¬ k.magicNumber thread ≠ pthreadMagicNumber := by simp [magic]
    rw [if_neg valid]
    cases param with
    | none =>
      simp only [SchedparamValid, magic, forall_const, setErrno, Function.update_self, getThreadPolicy_set]
      simp
    | some p =>
      simp only [SchedparamValid, magic, forall_const, changeThreadPrio_flags, changeThreadPrio_prio,
        Function.update_self, getThreadPolicy_set, ↓reduceIte, ← policy_bits]
      simp [schedFifo]
  · rw [if_pos magic]
    cases param with
    | none => simp [SchedparamValid, magic, setErrno]
    | some p => simp [SchedparamValid, magic, setErrno]

inductive ParamOp (T : Type) where
  | create (addr : Option T) (stack : Bool) (attr : Option PthreadAttr) (now : Duration)
  | setschedparam (thread : T) (policy : Int) (param : Option SchedParam) (now : Duration)

def afterCall (now : Duration) (r : Kernel T × Progress) : Kernel T :=
  match r.2 with
  | .ret _ => r.1
  | .sched _ => scheduling now r.1

/-- The pool hands out free memory only, and a thread argument is a handle. -/
def ParamOp.step (k : Kernel T) : ParamOp T → Option (Kernel T × List Unit)
  | .create addr stack attr now =>
    if (addr.map k.live).getD false = false then
      some (afterCall now (pthreadCreateSys addr stack attr k), [])
    else none
  | .setschedparam t policy param now =>
    if k.live t then some (afterCall now (pthreadSetschedparamSys t policy param k), []) else none

def ParamOp.Valid (k : Kernel T) : ParamOp T → Prop
  | .create _ _ _ _ => True
  | .setschedparam t policy param _ => SchedparamValid k t policy param

structure Ranged (k : Kernel T) : Prop where
  ready : ∃ r, ReadyInv k r
  range : ∀ t, k.live t = true → 0 ≤ k.prio t ∧ k.prio t ≤ 1023

/-- get_head_ss comes to the lists of READY threads in the order of their priorities. -/
structure ServedInOrder [Fintype T] (k : Kernel T) : Prop where
  listed : ∀ t, k.live t = true → k.state t = readyThread → ∃ c, t ∈ threadsAt k.activeThreads c
  order : ∀ a b c d, k.live a = true → k.live b = true → a ∈ threadsAt k.activeThreads c →
    b ∈ threadsAt k.activeThreads d → (k.prio a ≤ k.prio b ↔ ij2prio c ≤ ij2prio d)
  head : ∀ a, k.live a = true → k.state a = readyThread → ∃ t, (getHeadSs k.activeThreads).1 = some t ∧
    k.live t = true ∧ k.state t = readyThread ∧ k.prio t ≤ k.prio a

omit [DecidableEq T] in
theorem Ranged.served [Fintype T] {k : Kernel T} (ranged : Ranged k) : ServedInOrder k := by
  obtain ⟨⟨r, inv⟩, range⟩ := ranged
  have value : ∀ t c, t ∈ r.lists c → ij2prio c = k.prio t := by
    intro t c member
    obtain ⟨alive, _, place⟩ := (inv.listed t c).mp member
    rw [place]
    exact ij2prio_prio2ij (range t alive).1 (range t alive).2
  refine ⟨?_, ?_, ?_⟩
  · intro t alive ready
    refine ⟨prio2ij (k.prio t), ?_⟩
    rw [inv.rep.threadsAt_eq]
    exact (inv.listed t _).mpr ⟨alive, ready, rfl⟩
  · intro a b c d _ _ inC inD
    rw [inv.rep.threadsAt_eq] at inC inD
    rw [value a c inC, value b d inD]
  · intro a alive ready
    have member := (inv.listed a _).mpr ⟨alive, ready, rfl⟩
    obtain ⟨c, t, found, first, least⟩ := getHeadSs_urgent inv.rep (List.ne_nil_of_mem member)
    have there : t ∈ r.lists c := List.mem_of_head? first
    obtain ⟨aliveT, readyT, _⟩ := (inv.listed t c).mp there
    have order := least _ (List.ne_nil_of_mem member)
    rw [value t c there, value a _ member] at order
    exact ⟨t, by rw [found], aliveT, readyT, order⟩

omit [DecidableEq T] in
theorem Ranged.step {k w : Kernel T} (ranged : Ranged k) (ready : ∃ r, ReadyInv w r)
    (prio : ∀ t, w.live t = true → (0 ≤ w.prio t ∧ w.prio t ≤ 1023) ∨
      (k.live t = true ∧ w.prio t = k.prio t)) : Ranged w := by
  refine ⟨ready, fun t alive => ?_⟩
  rcases prio t alive with range | ⟨before, same⟩
  · exact range
  · rw [same]
    exact ranged.range t before

omit [DecidableEq T] in
theorem Ranged.keep {k w : Kernel T} (ranged : Ranged k) (ready : ∃ r, ReadyInv w r) (live : w.live = k.live)
    (param : w.schedParam = k.schedParam) : Ranged w := by
  apply ranged.step ready
  intro t alive
  rw [live] at alive
  exact Or.inr ⟨alive, by simp only [Kernel.prio, param]⟩

omit [DecidableEq T] in
theorem Ranged.congr {k w : Kernel T} (ranged : Ranged k) (structure_ : w.activeThreads = k.activeThreads)
    (live : w.live = k.live) (flags : w.threadFlags = k.threadFlags) (param : w.schedParam = k.schedParam) :
    Ranged w := by
  obtain ⟨r, inv⟩ := ranged.ready
  exact ranged.keep ⟨r, inv.congr structure_ live flags param⟩ live param

theorem Ranged.schedule {k : Kernel T} (ranged : Ranged k) (now : Duration) : Ranged (scheduling now k) := by
  have only := scheduling_only now k
  have lists := congrArg Kernel.activeThreads only
  have live := congrArg Kernel.live only
  have flags := congrArg Kernel.threadFlags only
  have param := congrArg Kernel.schedParam only
  exact ranged.congr lists live flags param

theorem Ranged.afterCall {r : Kernel T × Progress} (ranged : Ranged r.1) (now : Duration) :
    Ranged (afterCall now r) := by
  unfold L4ertl.afterCall
  split
  · exact ranged
  · exact ranged.schedule now

section
variable {k : Kernel T} {t : T} (ranged : Ranged k) (alive : k.live t = true)
include ranged alive

theorem Ranged.activate : Ranged (activateThread t k) := by
  obtain ⟨r, inv⟩ := ranged.ready
  obtain ⟨w, next, _⟩ := activateThread_readyInv inv alive
  have live := congrArg Kernel.live (activateThread_only t k)
  exact ranged.keep ⟨w, next⟩ live (activateThread_schedParam t k)

theorem Ranged.suspend : Ranged (suspendThread t k) := by
  obtain ⟨r, inv⟩ := ranged.ready
  obtain ⟨_, live, param⟩ := suspendThread_frame t k
  exact ranged.keep ⟨_, suspendThread_readyInv inv alive⟩ live param

theorem Ranged.finish : Ranged (finishThread t k) := by
  obtain ⟨r, inv⟩ := ranged.ready
  obtain ⟨_, live, param, _⟩ := finishThread_frame t k
  exact ranged.keep ⟨_, finishThread_readyInv inv alive⟩ live param

theorem Ranged.changePrio {w : Kernel T} (same : SameBut t k w) {p : Int} (low : 0 ≤ p) (high : p ≤ 1023) :
    Ranged (changeThreadPrio t p w) := by
  obtain ⟨r, inv⟩ := ranged.ready
  obtain ⟨x, next, _⟩ := changeThreadPrio_adjusted inv alive same p
  apply ranged.step ⟨x, next⟩
  intro u there
  rw [congrArg Kernel.live (changeThreadPrio_only t p _), same.live] at there
  rw [changeThreadPrio_prio]
  split
  · exact Or.inl ⟨low, high⟩
  · rename_i other
    exact Or.inr ⟨there, (same.others u other).2⟩

end

theorem Ranged.created {k : Kernel T} (ranged : Ranged k) {a : T} (unused : k.live a = false) :
    Ranged (createPthreadStruct (some a) k).1 := by
  obtain ⟨r, inv⟩ := ranged.ready
  apply ranged.step ⟨_, createPthreadStruct_readyInv inv (Or.inl unused)⟩
  intro t alive
  by_cases self : t = a
  · left
    simp [createPthreadStruct, Kernel.prio, self]
  · right
    simpa [createPthreadStruct, self, Kernel.prio] using alive

theorem Ranged.configured {k : Kernel T} (ranged : Ranged k) {a : T} (unused : k.live a = false)
    {attr : Option PthreadAttr} (accepted : (attr.map PthreadAttr.accepted).getD true = true) :
    Ranged (configureThread a attr (createPthreadStruct (some a) k).1) ∧
      (configureThread a attr (createPthreadStruct (some a) k).1).live = Function.update k.live a true := by
  have created := ranged.created unused
  obtain ⟨r, inv⟩ := created.ready
  have asleep : (createPthreadStruct (some a) k).1.state a ≠ readyThread := by
    simp [Kernel.state, createPthreadStruct]
  have same := configureThread_same a attr (createPthreadStruct (some a) k).1
  have configured := inv.adjust same asleep (by rw [configureThread_state]; exact asleep)
  refine ⟨created.step ⟨_, configured⟩ ?_, same.live⟩
  intro t alive
  by_cases self : t = a
  · left
    subst self
    cases attr with
    | none =>
      simp only [configureThread, Kernel.prio, Function.update_self]
      decide
    | some attr =>
      simp only [Option.map_some, Option.getD_some, PthreadAttr.accepted, Bool.and_eq_true,
        decide_eq_true_eq] at accepted
      obtain ⟨⟨_, high⟩, low⟩ := accepted
      simp only [minSchedPriority, maxSchedPriority] at low high
      simp only [configureThread, Kernel.prio, Function.update_self]
      omega
  · right
    rw [same.live] at alive
    exact ⟨alive, (same.others t self).2⟩

theorem Ranged.create {k : Kernel T} (ranged : Ranged k) {addr : Option T}
    (unused : (addr.map k.live).getD false = false) (stack : Bool) (attr : Option PthreadAttr) :
    Ranged (pthreadCreateSys addr stack attr k).1 := by
  unfold pthreadCreateSys
  split
  · exact ranged.congr rfl rfl rfl rfl
  · rename_i refused
    have accepted : (attr.map PthreadAttr.accepted).getD true = true := by simpa using refused
    cases addr with
    | none => exact ranged.congr rfl rfl rfl rfl
    | some a =>
      obtain ⟨configured, live⟩ := ranged.configured (a := a) unused accepted
      have alive : (configureThread a attr (createPthreadStruct (some a) k).1).live a = true := by
        rw [live, Function.update_self]
      have shape : createPthreadStruct (some a) k = ((createPthreadStruct (some a) k).1, some a) := rfl
      rw [shape]
      dsimp only
      split
      · exact configured.congr rfl rfl rfl rfl
      · exact configured.activate alive

theorem Ranged.setschedparam {k : Kernel T} (ranged : Ranged k) {t : T} (alive : k.live t = true)
    {policy : Int} {param : Option SchedParam} (valid : SchedparamValid k t policy param) :
    Ranged (pthreadSetschedparamSys t policy param k).1 := by
  obtain ⟨r, inv⟩ := ranged.ready
  unfold pthreadSetschedparamSys
  split
  · exact ranged.congr rfl rfl rfl rfl
  · rename_i magic
    cases param with
    | none =>
      refine ranged.step ⟨r, inv.alike rfl rfl fun u => ⟨setPolicy_state t policy k u, rfl⟩⟩ ?_
      intro u there
      exact Or.inr ⟨there, rfl⟩
    | some p =>
      obtain ⟨_, low, high⟩ := valid (by simpa using magic)
      simp only [maxSchedPriority, minSchedPriority] at low high
      exact ranged.changePrio alive (setParam_same t policy p k) low (by omega)

theorem Ranged.idle {k : Kernel T} (ranged : Ranged k) {a : T} (unused : k.live a = false)
    (boot : k.live k.idleThread = true) : Ranged (pthreadCreateIdleSys a k) := by
  have accepted : ((none : Option PthreadAttr).map PthreadAttr.accepted).getD true = true := rfl
  obtain ⟨configured, live⟩ := ranged.configured unused accepted
  have idle := congrArg Kernel.idleThread (configureThread_only a none (createPthreadStruct (some a) k).1)
  have idle' := congrArg Kernel.idleThread
    (activateThread_only a (configureThread a none (createPthreadStruct (some a) k).1))
  have live' := congrArg Kernel.live
    (activateThread_only a (configureThread a none (createPthreadStruct (some a) k).1))
  have active := configured.activate (t := a) (by rw [live, Function.update_self])
  generalize eq : activateThread a (configureThread a none (createPthreadStruct (some a) k).1) = w at *
  have lives : w.live = Function.update k.live a true := live'.trans live
  have first : w.idleThread = k.idleThread := idle'.trans idle
  have alive : w.live a = true := by rw [lives, Function.update_self]
  have stacked : Ranged (allocKstack a w) := active.congr rfl rfl rfl rfl
  have bootAlive : (allocKstack a w).live w.idleThread = true := by
    show w.live w.idleThread = true
    rw [lives, first, Function.update_apply]
    split
    · rfl
    · exact boot
  have ended := stacked.finish bootAlive
  have endedLive := (finishThread_frame w.idleThread (allocKstack a w)).2.1
  have placed : Ranged { finishThread w.idleThread (allocKstack a w) with
      idleThread := a, currentThread := a } := ended.congr rfl rfl rfl rfl
  have there : (finishThread w.idleThread (allocKstack a w)).live a = true := by
    rw [endedLive]
    exact alive
  have suspended := placed.suspend (t := a) there
  have suspendedLive := (suspendThread_frame a { finishThread w.idleThread (allocKstack a w) with
    idleThread := a, currentThread := a }).2.1
  have still := (congrFun suspendedLive a).trans there
  have moved := suspended.changePrio still (.refl a _) (p := idleSchedPriority) (by decide) (by decide)
  have movedLive := congrArg Kernel.live (changeThreadPrio_only a idleSchedPriority
    (suspendThread a { finishThread w.idleThread (allocKstack a w) with idleThread := a, currentThread := a }))
  have final := moved.activate ((congrFun movedLive a).trans still)
  rw [← eq] at final
  exact final

theorem idleKernel_ranged (now : Duration) {boot idle : T} (apart : idle ≠ boot) :
    Ranged (idleKernel now boot idle) := by
  have start := createIdle_exclusive now boot
  have booted : Ranged (bootKernel boot) :=
    ⟨⟨_, Booted.readyInv ⟨fun _ => rfl, zeroedThreads, rfl⟩⟩, fun t alive => by cases alive⟩
  have first : Ranged (createIdle now boot (bootKernel boot)) :=
    (booted.created (a := boot) rfl).congr rfl rfl rfl rfl
  apply first.idle
  · simp [start.live, apart]
  · simp [start.live, start.idle]

theorem ParamOp.ranged {k w : Kernel T} {op : ParamOp T} {es : List Unit} (ranged : Ranged k)
    (valid : op.Valid k) (taken : op.step k = some (w, es)) : Ranged w := by
  cases op with
  | create addr stack attr now =>
    simp only [ParamOp.step] at taken
    split at taken
    · rename_i unused
      cases taken
      exact (ranged.create unused stack attr).afterCall now
    · cases taken
  | setschedparam t policy param now =>
    simp only [ParamOp.step] at taken
    split at taken
    · rename_i alive
      cases taken
      exact (ranged.setschedparam alive valid).afterCall now
    · cases taken

/-- A call keeps the parameters valid exactly when its arguments are; and while they
    are in every call, get_head_ss serves the threads in the order of their priorities. -/
theorem schedparams_valid_iff [Fintype T] :
    (∀ (k : Kernel T) (thread : T) (policy : Int) (param : Option SchedParam),
      SchedparamRight k thread policy param ↔ SchedparamValid k thread policy param) ∧
    ∀ (now : Duration) (boot idle : T), idle ≠ boot → ∀ (ops : List (ParamOp T)) (k : Kernel T) (es : List Unit),
      Along ParamOp.step (fun k op => op.Valid k) (idleKernel now boot idle) ops →
      exec ParamOp.step (idleKernel now boot idle) ops = some (k, es) → ServedInOrder k := by
  refine ⟨schedparam_right_iff, ?_⟩
  intro now boot idle apart ops k es valid run
  have ranged := exec_keeps Ranged (fun _ _ _ _ inv ok taken => ParamOp.ranged inv ok taken) ops
    (idleKernel_ranged now apart) valid run
  exact ranged.served

theorem schedparams_valid_iff_five : SchedparamRight (idleKernel 0 0 1 : Kernel (Fin 3)) 1 16 none ∧
    ∃ k es, exec ParamOp.step (idleKernel 0 0 1 : Kernel (Fin 3))
      [.create (some 2) true none 0, .setschedparam 2 0 (some ⟨0, 5, 0, 0⟩) 0] = some (k, es) ∧
      ServedInOrder k := by
  have runs : (exec ParamOp.step (idleKernel 0 0 1 : Kernel (Fin 3))
      [.create (some 2) true none 0, .setschedparam 2 0 (some ⟨0, 5, 0, 0⟩) 0]).isSome = true := by
    decide +kernel
  obtain ⟨⟨k, es⟩, run⟩ := Option.isSome_iff_exists.mp runs
  obtain ⟨call, order⟩ := schedparams_valid_iff (T := Fin 3)
  refine ⟨(call _ _ _ _).mpr fun _ => by decide +kernel, k, es, run, ?_⟩
  refine order 0 0 1 (by decide) _ k es ?_ run
  exact ⟨trivial, fun _ _ _ => ⟨fun _ => by decide, fun _ _ _ => trivial⟩⟩

/-- 1024 is the list 0: the thread is served before the idle one, whose 1023 is less. -/
theorem schedparams_alias : ¬ SchedparamRight (idleKernel 0 0 1 : Kernel (Fin 3)) 1 0 (some ⟨0, 1024, 0, 0⟩) ∧
    ∃ k es, exec ParamOp.step (idleKernel 0 0 1 : Kernel (Fin 3))
      [.create (some 2) true none 0, .setschedparam 2 0 (some ⟨0, 1024, 0, 0⟩) 0] = some (k, es) ∧
      (getHeadSs k.activeThreads).1 = some 2 ∧ k.prio 2 = 1024 ∧ k.prio 1 = 1023 ∧ ¬ ServedInOrder k := by
  constructor
  · intro right
    have range := (schedparam_right_iff _ _ _ _).mp right (by decide +kernel)
    exact absurd range (by decide)
  · have runs : (exec ParamOp.step (idleKernel 0 0 1 : Kernel (Fin 3))
        [.create (some 2) true none 0, .setschedparam 2 0 (some ⟨0, 1024, 0, 0⟩) 0]).map (fun r =>
          ((getHeadSs r.1.activeThreads).1, r.1.prio 2, r.1.prio 1, r.1.live 1, r.1.state 1)) =
        some (some 2, 1024, 1023, true, readyThread) := by
      decide +kernel
    obtain ⟨⟨k, es⟩, run, facts⟩ := Option.map_eq_some_iff.mp runs
    simp only [Prod.mk.injEq] at facts
    obtain ⟨first, prio2, prio1, alive, ready⟩ := facts
    refine ⟨k, es, run, first, prio2, prio1, ?_⟩
    intro served
    obtain ⟨t, found, _, _, order⟩ := served.head 1 alive ready
    rw [first] at found
    cases found
    omega

end L4ertl
