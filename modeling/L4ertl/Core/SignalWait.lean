import L4ertl.Core.Reap
import L4ertl.Core.SignalDelivery
import L4ertl.Core.TimerWakes
import L4ertl.Lib.Lts

/-!
Waiting for a signal: sigsuspend_sys and sigwait_sys (signal.c), as runs of one
thread between whose steps others post signals to it. Both only save the processor
flags where they say that they disable interrupts, so a signal can come anywhere.
-/
namespace L4ertl
variable {T : Type} [DecidableEq T]

def setThreadActivateOnSignal (flags : Word) (state : Bool) : Word :=
  if state then flags ||| 0x400#32 else flags &&& ~~~0x400#32

def waitable (set : Word) (k : Kernel T) : Word :=
  k.sigpending k.currentThread &&& (set &&& ~~~nonMaskableSignals)

/-- The lowest of them is taken, if there is one. -/
def takeWaited (set : Word) (k : Kernel T) : Option (Kernel T × Int) :=
  let pending := waitable set k
  if pending ≠ 0#32 then
    let sig := ffs pending
    some ({ k with
      sigpending := Function.update k.sigpending k.currentThread
        (k.sigpending k.currentThread &&& ~~~(1#32 <<< sig.toNat)) }, sig)
  else none

/-- Who has called sigsuspend_sys: the application, or sigwait_sys with its arguments. -/
inductive SuspendCaller where
  | user
  | sigwait (set : Word) (wanted : Bool)
  deriving DecidableEq, Repr

/-- Where the thread is; `outside` is anywhere but in the two calls. -/
inductive SignalPoint where
  | outside
  -- sigwait_sys has found nothing and set the activate-on-signal bit
  | flagged (set : Word) (wanted : Bool)
  -- sigsuspend_sys has changed the mask
  | masked (oldMask : Word) (caller : SuspendCaller)
  -- and called `scheduling`
  | suspended (oldMask : Word) (caller : SuspendCaller)
  -- sigsuspend_sys has returned to sigwait_sys
  | woken (set : Word) (wanted : Bool)
  deriving DecidableEq, Repr

/-- The kernel, the place of the thread in it, and the kernel that its call started in. -/
structure SignalState (T : Type) where
  kernel : Kernel T
  point : SignalPoint
  entry : Kernel T

/-- What a call of sigwait_sys has come to: the value, what is stored through `sig` if that
    is given, and the kernels before the last look at the pending set and after it. -/
structure SigwaitReturn (T : Type) where
  set : Word
  wanted : Bool
  value : Int
  stored : Option Int
  entry : Kernel T
  before : Kernel T
  after : Kernel T

inductive SignalEvent (T : Type) where
  -- sigsuspend_sys has returned: the mask it was called with and the mask now
  | suspended (former now : Word)
  | waited (r : SigwaitReturn T)

inductive SignalLabel (T : Type) where
  | sigsuspend (mask : Option Word)
  | sigwait (set : Option Word) (wanted : Bool)
  -- the thread goes on in its call; `now` is the clock for `scheduling`
  | proceed (now : Duration)
  -- pthread_kill_sys on the thread, by another thread or by a timer
  | kill (sig : Int)
  -- activate_thread on the thread, by anything else
  | wake
  | others (w : Kernel T)
  -- the thread outside these calls
  | own (w : Kernel T)

def Runs (t : T) (k : Kernel T) : Prop := k.currentThread = t ∧ k.state t = readyThread

instance (t : T) (k : Kernel T) : Decidable (Runs t k) := inferInstanceAs (Decidable (_ ∧ _))

def sigsuspendMask (mask : Option Word) (k : Kernel T) : Kernel T :=
  match mask with
  | some set => setSigmask set k
  | none => k

def setActivate (state : Bool) (k : Kernel T) : Kernel T :=
  setFlags k.currentThread (setThreadActivateOnSignal (k.threadFlags k.currentThread) state) k

def sigwaitEnter (set : Option Word) (wanted : Bool) (s : SignalState T) :
    SignalState T × List (SignalEvent T) :=
  let k := s.kernel
  match set with
  | none => (⟨setErrno einval k, .outside, k⟩, [])
  | some set =>
    match takeWaited set k with
    | some (w, sig) =>
      (⟨w, .outside, k⟩, [.waited ⟨set, wanted, 0, if wanted then some sig else none, k, k, w⟩])
    | none => (⟨setActivate true k, .flagged set wanted, k⟩, [])

def sigwaitLeave (set : Word) (wanted : Bool) (s : SignalState T) :
    SignalState T × List (SignalEvent T) :=
  let k := setActivate false s.kernel
  match takeWaited set k with
  | some (w, sig) =>
    (⟨w, .outside, s.entry⟩,
      [.waited ⟨set, wanted, 0, if wanted then some sig else none, s.entry, k, w⟩])
  | none =>
    (⟨setErrno einval k, .outside, s.entry⟩,
      [.waited ⟨set, wanted, -1, none, s.entry, k, setErrno einval k⟩])

def SuspendCaller.resume : SuspendCaller → SignalPoint
  | .user => .outside
  | .sigwait set wanted => .woken set wanted

def SignalState.proceed (now : Duration) (s : SignalState T) :
    Option (SignalState T × List (SignalEvent T)) :=
  let k := s.kernel
  let t := k.currentThread
  match s.point with
  | .outside => none
  | .flagged set wanted =>
    some (⟨sigsuspendMask (some set) k, .masked (k.sigmask t) (.sigwait set wanted), s.entry⟩, [])
  | .masked oldMask caller =>
    some (⟨scheduling now (suspendThread t k), .suspended oldMask caller, s.entry⟩, [])
  | .suspended oldMask caller =>
    let w := setSigmask oldMask k
    some (⟨w, caller.resume, s.entry⟩, [.suspended (s.entry.sigmask t) (w.sigmask t)])
  | .woken set wanted => some (sigwaitLeave set wanted s)

def SignalState.step (t : T) (s : SignalState T) :
    SignalLabel T → Option (SignalState T × List (SignalEvent T))
  | .sigsuspend mask =>
    if Runs t s.kernel ∧ s.point = .outside then
      some (⟨sigsuspendMask mask s.kernel, .masked (s.kernel.sigmask t) .user, s.kernel⟩, [])
    else none
  | .sigwait set wanted =>
    if Runs t s.kernel ∧ s.point = .outside then some (sigwaitEnter set wanted s) else none
  | .proceed now => if Runs t s.kernel then s.proceed now else none
  | .kill sig => some ({ s with kernel := (pthreadKillSys t sig s.kernel).1 }, [])
  | .wake => some ({ s with kernel := activateThread t s.kernel }, [])
  | .others w => some ({ s with kernel := w }, [])
  | .own w => if s.point = .outside then some ({ s with kernel := w }, []) else none

structure Unseen (t : T) (k w : Kernel T) : Prop where
  mask : w.sigmask t = k.sigmask t
  pending : w.sigpending t = k.sigpending t
  state : w.state t = k.state t
  activate : getThreadActivateOnSignal (w.threadFlags t) = getThreadActivateOnSignal (k.threadFlags t)

/-- No other code than sigwait_sys touches the activate-on-signal bit. -/
def SignalLabel.Allowed (t : T) (s : SignalState T) : SignalLabel T → Prop
  | .others w => Unseen t s.kernel w
  | .own w =>
    getThreadActivateOnSignal (w.threadFlags t) = getThreadActivateOnSignal (s.kernel.threadFlags t)
  | _ => True

section
variable {t : T} {k w : Kernel T}

theorem activate_setState (u : T) (state : Word) (k : Kernel T) (t : T) :
    getThreadActivateOnSignal ((setState u state k).threadFlags t) =
      getThreadActivateOnSignal (k.threadFlags t) := by
  by_cases self : t = u
  · subst self
    simp [setState, getThreadActivateOnSignal_set]
  · simp [setState, self]

theorem activate_suspend (u : T) (k : Kernel T) (t : T) :
    getThreadActivateOnSignal ((suspendThread u k).threadFlags t) =
      getThreadActivateOnSignal (k.threadFlags t) := by
  simp only [suspendThread]
  split
  · exact activate_setState u _ _ t
  · rfl

theorem activate_kill (u : T) (sig : Int) (k : Kernel T) (t : T) :
    getThreadActivateOnSignal ((pthreadKillSys u sig k).1.threadFlags t) =
      getThreadActivateOnSignal (k.threadFlags t) := by
  simp only [pthreadKillSys]
  split
  · rfl
  · split
    · rfl
    · split
      · exact (activateThread_alike u t _).flag
      · rfl

theorem activate_cleared (flags : Word) :
    getThreadActivateOnSignal (setThreadActivateOnSignal flags false) = 0#32 := by
  have clear : ~~~0x400#32 &&& 0x400#32 = 0#32 := by decide
  show flags &&& ~~~0x400#32 &&& 0x400#32 = 0#32
  rw [BitVec.and_assoc, clear, BitVec.and_zero]

end

theorem takeWaited_some {set : Word} {k w : Kernel T} {sig : Int}
    (taken : takeWaited set k = some (w, sig)) :
    ∃ n, LowestBit (waitable set k) n ∧ sig = n ∧
      w = { k with
        sigpending := Function.update k.sigpending k.currentThread
          (clearbit (k.sigpending k.currentThread) n) } := by
  simp only [takeWaited] at taken
  split at taken
  · rename_i some
    obtain ⟨n, lowest⟩ := lowestBit_exists some
    rw [ffs_lowest lowest] at taken
    cases taken
    exact ⟨n, lowest, rfl, rfl⟩
  · cases taken

theorem takeWaited_none {set : Word} {k : Kernel T} (empty : takeWaited set k = none) :
    waitable set k = 0#32 := by
  simp only [takeWaited] at empty
  split at empty
  · cases empty
  · rename_i zero
    exact not_not.mp zero

def SignalState.formerMask (t : T) (s : SignalState T) : Word :=
  match s.point with
  | .masked oldMask _ | .suspended oldMask _ => oldMask
  | _ => s.kernel.sigmask t

def SignalPoint.unflagged : SignalPoint → Bool
  | .outside | .masked _ .user | .suspended _ .user => true
  | _ => false

structure SignalState.Kept (t : T) (s : SignalState T) : Prop where
  mask : s.point ≠ .outside → s.formerMask t = s.entry.sigmask t
  activate : s.point.unflagged = true → getThreadActivateOnSignal (s.kernel.threadFlags t) = 0#32
  grown : s.point ≠ .outside →
    s.entry.sigpending t &&& s.kernel.sigpending t = s.entry.sigpending t

structure SigwaitReturn.Right (t : T) (r : SigwaitReturn T) : Prop where
  mask : r.after.sigmask t = r.entry.sigmask t
  activate : getThreadActivateOnSignal (r.after.threadFlags t) = 0#32
  grown : r.entry.sigpending t &&& r.before.sigpending t = r.entry.sigpending t
  outcome :
    (r.value = 0 ∧ ∃ n, LowestBit (r.before.sigpending t &&& (r.set &&& ~~~nonMaskableSignals)) n ∧
      r.stored = (if r.wanted then some (n : Int) else none) ∧
      r.after.sigpending t = clearbit (r.before.sigpending t) n) ∨
    (r.value = -1 ∧ r.after.sigpending t &&& (r.set &&& ~~~nonMaskableSignals) = 0#32 ∧
      r.after.sigpending t = r.before.sigpending t)

def SignalEvent.Right (t : T) : SignalEvent T → Prop
  | .suspended former now => now = former
  | .waited r => r.Right t

section
variable {t : T} {s x : SignalState T} {k w : Kernel T} {es : List (SignalEvent T)}

omit [DecidableEq T] in
theorem SignalState.Kept.elsewhere (kept : s.Kept t) (mask : w.sigmask t = s.kernel.sigmask t)
    (activate : getThreadActivateOnSignal (w.threadFlags t) =
      getThreadActivateOnSignal (s.kernel.threadFlags t))
    (grows : s.kernel.sigpending t &&& w.sigpending t = s.kernel.sigpending t) :
    SignalState.Kept t { s with kernel := w } := by
  constructor
  · intro inside
    rw [← kept.mask inside]
    simp only [formerMask]
    split
    · rfl
    · rfl
    · exact mask
  · intro plain
    rw [← kept.activate plain]
    exact activate
  · intro inside
    show s.entry.sigpending t &&& w.sigpending t = s.entry.sigpending t
    rw [← kept.grown inside, BitVec.and_assoc, grows]

theorem takeWaited_right {set : Word} {sig : Int} {entry : Kernel T} (runs : k.currentThread = t)
    (mask : k.sigmask t = entry.sigmask t)
    (activate : getThreadActivateOnSignal (k.threadFlags t) = 0#32)
    (grown : entry.sigpending t &&& k.sigpending t = entry.sigpending t)
    (taken : takeWaited set k = some (w, sig)) (wanted : Bool) :
    SigwaitReturn.Right t ⟨set, wanted, 0, if wanted then some sig else none, entry, k, w⟩ := by
  obtain ⟨n, lowest, rfl, rfl⟩ := takeWaited_some taken
  refine ⟨mask, activate, grown, Or.inl ⟨rfl, n, ?_, rfl, ?_⟩⟩
  · rw [waitable, runs] at lowest
    exact lowest
  · simp [runs]

omit [DecidableEq T] in
theorem SignalState.Kept.left (activate : getThreadActivateOnSignal (k.threadFlags t) = 0#32)
    (entry : Kernel T) : SignalState.Kept t ⟨k, .outside, entry⟩ :=
  ⟨fun inside => absurd rfl inside, fun _ => activate, fun inside => absurd rfl inside⟩

theorem sigwaitEnter_kept (kept : s.Kept t) (runs : s.kernel.currentThread = t)
    (outside : s.point = .outside) (set : Option Word) (wanted : Bool) :
    (sigwaitEnter set wanted s).1.Kept t ∧ ∀ e ∈ (sigwaitEnter set wanted s).2, e.Right t := by
  have clear := kept.activate (by rw [outside]; rfl)
  unfold sigwaitEnter
  cases set with
  | none =>
    constructor
    · exact SignalState.Kept.left (k := setErrno einval s.kernel) clear _
    · intro e no
      cases no
  | some set =>
    simp only
    split
    · rename_i w sig taken
      have right := takeWaited_right runs rfl clear (BitVec.and_self) taken wanted
      constructor
      · exact SignalState.Kept.left right.activate _
      · intro e only
        rw [List.mem_singleton.mp only]
        exact right
    · constructor
      · exact ⟨fun _ => rfl, (fun plain => by cases plain), fun _ => BitVec.and_self⟩
      · intro e no
        cases no

theorem sigwaitLeave_kept {set : Word} {wanted : Bool} (kept : s.Kept t)
    (runs : s.kernel.currentThread = t) (woken : s.point = .woken set wanted) :
    (sigwaitLeave set wanted s).1.Kept t ∧ ∀ e ∈ (sigwaitLeave set wanted s).2, e.Right t := by
  have inside : s.point ≠ .outside := by rw [woken]; exact SignalPoint.noConfusion
  have mask : s.kernel.sigmask t = s.entry.sigmask t := by
    have former := kept.mask inside
    simp only [SignalState.formerMask, woken] at former
    exact former
  have clear : getThreadActivateOnSignal ((setActivate false s.kernel).threadFlags t) = 0#32 := by
    simp only [setActivate, setFlags, runs, Function.update_self]
    exact activate_cleared _
  unfold sigwaitLeave
  simp only
  split
  · rename_i w sig taken
    have right := takeWaited_right (k := setActivate false s.kernel) runs mask clear
      (kept.grown inside) taken wanted
    constructor
    · exact SignalState.Kept.left right.activate _
    · intro e only
      rw [List.mem_singleton.mp only]
      exact right
  · rename_i empty
    constructor
    · exact SignalState.Kept.left (k := setErrno einval (setActivate false s.kernel)) clear _
    · intro e only
      rw [List.mem_singleton.mp only]
      refine ⟨mask, clear, kept.grown inside, Or.inr ⟨rfl, ?_, rfl⟩⟩
      have none_ := takeWaited_none empty
      rw [waitable] at none_
      rw [← runs]
      exact none_

theorem suspended_view (now : Duration) (t : T) (k : Kernel T) :
    (scheduling now (suspendThread t k)).sigmask = k.sigmask ∧
      (scheduling now (suspendThread t k)).sigpending = k.sigpending ∧
      (scheduling now (suspendThread t k)).threadFlags = (suspendThread t k).threadFlags := by
  have switched := scheduling_only now (suspendThread t k)
  have only := suspendThread_only t k
  have masks := congrArg Kernel.sigmask switched
  have sets := congrArg Kernel.sigpending switched
  have flags := congrArg Kernel.threadFlags switched
  have mask := congrArg Kernel.sigmask only
  have pending := congrArg Kernel.sigpending only
  exact ⟨masks.trans mask, sets.trans pending, flags⟩

theorem proceed_inside {now : Duration} (taken : s.proceed now = some (x, es)) : s.point ≠ .outside := by
  intro outside
  rw [SignalState.proceed, outside] at taken
  cases taken

theorem proceed_kept (kept : s.Kept t) (runs : s.kernel.currentThread = t) {now : Duration}
    (taken : s.proceed now = some (x, es)) : x.Kept t ∧ ∀ e ∈ es, e.Right t := by
  have former := kept.mask (proceed_inside taken)
  have grown := kept.grown (proceed_inside taken)
  unfold SignalState.proceed at taken
  cases point : s.point with
  | outside =>
    rw [point] at taken
    cases taken
  | flagged set wanted =>
    simp only [SignalState.formerMask, point] at former
    rw [point] at taken
    cases taken
    constructor
    · refine ⟨fun _ => ?_, (fun plain => by cases plain), fun _ => grown⟩
      rw [← former, ← runs]
      rfl
    · intro e no
      cases no
  | masked oldMask caller =>
    simp only [SignalState.formerMask, point] at former
    rw [point] at taken
    cases taken
    obtain ⟨_, pending, flags⟩ := suspended_view now s.kernel.currentThread s.kernel
    constructor
    · refine ⟨fun _ => former, fun plain => ?_, fun _ => ?_⟩
      · simp only
        rw [flags, activate_suspend]
        apply kept.activate
        rw [point]
        cases caller with
        | user => rfl
        | sigwait set wanted => cases plain
      · simp only
        rw [pending]
        exact grown
    · intro e no
      cases no
  | suspended oldMask caller =>
    simp only [SignalState.formerMask, point] at former
    rw [point] at taken
    cases taken
    have back : (setSigmask oldMask s.kernel).sigmask t = oldMask := by
      simp [setSigmask, runs]
    constructor
    · cases caller with
      | user =>
        have clear := kept.activate (by rw [point]; rfl)
        exact SignalState.Kept.left (k := setSigmask oldMask s.kernel) clear _
      | sigwait set wanted =>
        exact ⟨fun _ => back.trans former, (fun plain => by cases plain), fun _ => grown⟩
    · intro e only
      rw [List.mem_singleton.mp only]
      show (setSigmask oldMask s.kernel).sigmask s.kernel.currentThread =
        s.entry.sigmask s.kernel.currentThread
      rw [runs]
      exact back.trans former
  | woken set wanted =>
    rw [point] at taken
    have left := sigwaitLeave_kept kept runs point
    rw [Option.some.inj taken] at left
    exact left

end

section
variable {t : T} {s x : SignalState T} {l : SignalLabel T} {es : List (SignalEvent T)}

theorem SignalState.Kept.kill (kept : s.Kept t) (sig : Int) :
    SignalState.Kept t { s with kernel := (pthreadKillSys t sig s.kernel).1 } := by
  obtain ⟨_, mask, pending⟩ := pthreadKillSys_signals t sig s.kernel
  apply kept.elsewhere (by rw [mask]) (activate_kill t sig s.kernel t)
  rw [pending]
  split
  · ext j bound
    simp only [BitVec.getElem_and, BitVec.getElem_or]
    cases (s.kernel.sigpending t)[j] <;> simp
  · exact BitVec.and_self

theorem SignalState.Kept.wake (kept : s.Kept t) :
    SignalState.Kept t { s with kernel := activateThread t s.kernel } := by
  have mask := congrArg Kernel.sigmask (activateThread_only t s.kernel)
  have pending := congrArg Kernel.sigpending (activateThread_only t s.kernel)
  apply kept.elsewhere (congrFun mask t) (activateThread_alike t t s.kernel).flag
  rw [pending]
  exact BitVec.and_self

theorem SignalState.step_kept (kept : s.Kept t) (allowed : l.Allowed t s)
    (taken : s.step t l = some (x, es)) : x.Kept t ∧ ∀ e ∈ es, e.Right t := by
  cases l with
  | sigsuspend mask =>
    simp only [step] at taken
    split at taken
    · rename_i may
      have clear := kept.activate (by rw [may.2]; rfl)
      cases taken
      have same : (sigsuspendMask mask s.kernel).threadFlags = s.kernel.threadFlags ∧
          (sigsuspendMask mask s.kernel).sigpending = s.kernel.sigpending := by
        cases mask <;> exact ⟨rfl, rfl⟩
      constructor
      · refine ⟨fun _ => rfl, fun _ => ?_, fun _ => ?_⟩
        · simp only
          rw [same.1]
          exact clear
        · simp only
          rw [same.2]
          exact BitVec.and_self
      · intro e no
        cases no
    · cases taken
  | sigwait set wanted =>
    simp only [step] at taken
    split at taken
    · rename_i may
      have entered := sigwaitEnter_kept kept may.1.1 may.2 set wanted
      rw [Option.some.inj taken] at entered
      exact entered
    · cases taken
  | proceed now =>
    simp only [step] at taken
    split at taken
    · rename_i runs
      exact proceed_kept kept runs.1 taken
    · cases taken
  | kill sig =>
    cases taken
    exact ⟨kept.kill sig, fun e no => by cases no⟩
  | wake =>
    cases taken
    exact ⟨kept.wake, fun e no => by cases no⟩
  | others w =>
    cases taken
    refine ⟨kept.elsewhere allowed.mask allowed.activate ?_, fun e no => by cases no⟩
    rw [allowed.pending]
    exact BitVec.and_self
  | own w =>
    simp only [step] at taken
    split at taken
    · rename_i outside
      have clear := kept.activate (by rw [outside]; rfl)
      cases taken
      constructor
      · refine ⟨fun inside => absurd outside inside, fun _ => ?_, fun inside => absurd outside inside⟩
        exact allowed.trans clear
      · intro e no
        cases no
    · cases taken

def SignalState.created (t : T) (k : Kernel T) : SignalState T :=
  ⟨(createPthreadStruct (some t) k).1, .outside, k⟩

theorem SignalState.created_kept (t : T) (k : Kernel T) : (SignalState.created t k).Kept t := by
  refine SignalState.Kept.left ?_ k
  simp only [createPthreadStruct, Function.update_self]
  decide

theorem signal_run_right (t : T) (k : Kernel T) (ls : List (SignalLabel T))
    (allowed : Lts.Along (SignalState.step t) (fun s l => l.Allowed t s) (.created t k) ls)
    (run : Lts.exec (SignalState.step t) (.created t k) ls = some (x, es)) : ∀ e ∈ es, e.Right t := by
  have kept := Lts.exec_invariant (fun s past => s.Kept t ∧ ∀ e ∈ past, SignalEvent.Right t e)
    (fun s past l w first inv may taken => by
      obtain ⟨next, events⟩ := SignalState.step_kept inv.1 may taken
      refine ⟨next, fun e member => ?_⟩
      rcases List.mem_append.mp member with old | new
      · exact inv.2 e old
      · exact events e new)
    ls ⟨SignalState.created_kept t k, fun e no => by cases no⟩ allowed run
  exact kept.2

theorem sigwait_takes_one (t : T) (k : Kernel T) (ls : List (SignalLabel T)) (x : SignalState T)
    (es : List (SignalEvent T))
    (allowed : Lts.Along (SignalState.step t) (fun s l => l.Allowed t s) (.created t k) ls)
    (run : Lts.exec (SignalState.step t) (.created t k) ls = some (x, es)) (r : SigwaitReturn T)
    (returned : SignalEvent.waited r ∈ es) : r.Right t :=
  signal_run_right t k ls allowed run _ returned

end

def SignalPoint.suspending : SignalPoint → Bool
  | .masked _ _ | .suspended _ _ => true
  | _ => false

def SignalPoint.isMasked : SignalPoint → Bool
  | .masked _ _ => true
  | _ => false

def SignalLabel.Silent : SignalLabel T → Prop
  | .kill _ | .wake => False
  | _ => True

def SignalState.Wakes (t : T) (s : SignalState T) : Prop :=
  ∃ ls x es, (∀ l ∈ ls, SignalLabel.Silent l) ∧
    Lts.Along (SignalState.step t) (fun s l => l.Allowed t s) s ls ∧
    Lts.exec (SignalState.step t) s ls = some (x, es) ∧ x.kernel.state t = readyThread

def SignalState.Hears (t : T) (s : SignalState T) : Prop :=
  s.point.suspending = true → unblocked (s.kernel.sigmask t) (s.kernel.sigpending t) ≠ 0#32 →
    s.Wakes t

/-- When sigsuspend_sys suspends the thread, no signal is pending that the mask lets through. -/
def SignalLabel.Unsignalled (t : T) (s : SignalState T) : SignalLabel T → Prop
  | .proceed _ => s.point.isMasked = true →
    unblocked (s.kernel.sigmask t) (s.kernel.sigpending t) = 0#32
  | _ => True

structure SignalState.Active (t : T) (s : SignalState T) : Prop where
  ready : s.point.isMasked = true → s.kernel.state t = readyThread
  alive : s.point.suspending = true → s.kernel.state t ≠ finishedThread

section
variable {t : T} {s x : SignalState T} {l : SignalLabel T} {es : List (SignalEvent T)} {w : Kernel T}

theorem SignalState.Wakes.now (ready : s.kernel.state t = readyThread) : s.Wakes t :=
  ⟨[], s, [], (fun l no => by cases no), trivial, rfl, ready⟩

theorem silent_asleep {oldMask : Word} {caller : SuspendCaller}
    (asleep : s.point = .suspended oldMask caller) (notReady : s.kernel.state t ≠ readyThread)
    (silent : l.Silent) (allowed : l.Allowed t s) (taken : s.step t l = some (x, es)) :
    x.point = .suspended oldMask caller ∧ x.kernel.state t ≠ readyThread := by
  have idle : ¬Runs t s.kernel := fun runs => notReady runs.2
  cases l with
  | sigsuspend mask =>
    rw [SignalState.step, if_neg fun both => idle both.1] at taken
    cases taken
  | sigwait set wanted =>
    rw [SignalState.step, if_neg fun both => idle both.1] at taken
    cases taken
  | proceed now =>
    rw [SignalState.step, if_neg idle] at taken
    cases taken
  | kill sig => cases silent
  | wake => cases silent
  | others w =>
    cases taken
    refine ⟨asleep, ?_⟩
    simp only
    rw [allowed.state]
    exact notReady
  | own w =>
    rw [SignalState.step, if_neg (by rw [asleep]; exact SignalPoint.noConfusion)] at taken
    cases taken

theorem wakes_iff {oldMask : Word} {caller : SuspendCaller}
    (asleep : s.point = .suspended oldMask caller) :
    s.Wakes t ↔ s.kernel.state t = readyThread := by
  constructor
  · rintro ⟨ls, x, es, silent, allowed, run, ready⟩
    by_contra notReady
    have both := (Lts.along_of_forall (s := s) silent).and allowed
    have stays := Lts.exec_keeps
      (fun s => s.point = .suspended oldMask caller ∧ s.kernel.state t ≠ readyThread)
      (fun s l w _ inv may taken => silent_asleep inv.1 inv.2 may.1 may.2 taken)
      ls ⟨asleep, notReady⟩ both run
    exact stays.2 ready
  · exact SignalState.Wakes.now

theorem SignalState.Hears.elsewhere (hears : s.Hears t) (active : s.Active t)
    (change : w.state t = readyThread ∨
      (w.sigmask t = s.kernel.sigmask t ∧ w.sigpending t = s.kernel.sigpending t ∧
        w.state t = s.kernel.state t)) : Hears t { s with kernel := w } := by
  intro inside pending
  rcases change with ready | ⟨mask, set, state⟩
  · exact Wakes.now ready
  · simp only at inside pending
    rw [mask, set] at pending
    apply Wakes.now
    show w.state t = readyThread
    rw [state]
    cases point : s.point with
    | outside => rw [point] at inside; cases inside
    | flagged set wanted => rw [point] at inside; cases inside
    | woken set wanted => rw [point] at inside; cases inside
    | masked oldMask caller => exact active.ready (by rw [point]; rfl)
    | suspended oldMask caller => exact (wakes_iff point).mp (hears inside pending)

omit [DecidableEq T] in
theorem SignalState.Active.elsewhere (active : s.Active t)
    (change : w.state t = readyThread ∨ w.state t = s.kernel.state t) :
    Active t { s with kernel := w } := by
  rcases change with ready | same
  · exact ⟨fun _ => ready, fun _ => by simp only; rw [ready]; exact ready_ne_finished⟩
  · exact ⟨fun masked => same.trans (active.ready masked),
      fun inside => by simp only; rw [same]; exact active.alive inside⟩

theorem pthreadKillSys_heard (sig : Int) {k : Kernel T} (active : k.state t ≠ finishedThread)
    (pending : unblocked ((pthreadKillSys t sig k).1.sigmask t)
      ((pthreadKillSys t sig k).1.sigpending t) ≠ 0#32) :
    (pthreadKillSys t sig k).1.state t = readyThread ∨
      ((pthreadKillSys t sig k).1.sigmask t = k.sigmask t ∧
        (pthreadKillSys t sig k).1.sigpending t = k.sigpending t ∧
        (pthreadKillSys t sig k).1.state t = k.state t) := by
  simp only [pthreadKillSys] at pending ⊢
  split
  · exact Or.inr ⟨rfl, rfl, rfl⟩
  · rename_i valid
    rw [if_neg valid] at pending
    split
    · exact Or.inr ⟨rfl, rfl, rfl⟩
    · rename_i inside
      rw [if_neg inside] at pending
      left
      split
      · rw [activateThread_state, if_pos ⟨rfl, active⟩]
      · rename_i sleeps
        rw [if_neg sleeps] at pending
        exact absurd (by simpa [signalWakes] using Or.inl pending) sleeps

theorem sigsuspendMask_state (mask : Option Word) (k : Kernel T) (u : T) :
    (sigsuspendMask mask k).state u = k.state u := by
  cases mask <;> rfl

theorem SignalState.outside_hears (outside : s.point.suspending = false) : s.Active t ∧ s.Hears t := by
  refine ⟨⟨fun masked => ?_, fun inside => ?_⟩, fun inside => ?_⟩
  · cases point : s.point with
    | masked oldMask caller => rw [point] at outside; cases outside
    | _ => rw [point] at masked; cases masked
  · rw [outside] at inside
    cases inside
  · rw [outside] at inside
    cases inside

theorem SignalState.ready_hears (ready : s.kernel.state t = readyThread) : s.Active t ∧ s.Hears t :=
  ⟨⟨fun _ => ready, fun _ => by rw [ready]; exact ready_ne_finished⟩, fun _ _ => Wakes.now ready⟩

theorem proceed_hears (runs : Runs t s.kernel) {now : Duration}
    (taken : s.proceed now = some (x, es)) :
    x.Active t ∧ (x.Hears t ↔ SignalLabel.Unsignalled t s (.proceed now)) := by
  unfold SignalState.proceed at taken
  cases point : s.point with
  | outside =>
    rw [point] at taken
    cases taken
  | flagged set wanted =>
    rw [point] at taken
    cases taken
    have after := SignalState.ready_hears (t := t)
      (s := ⟨sigsuspendMask (some set) s.kernel,
        .masked (s.kernel.sigmask s.kernel.currentThread) (.sigwait set wanted), s.entry⟩)
      ((sigsuspendMask_state (some set) s.kernel t).trans runs.2)
    refine ⟨after.1, iff_of_true after.2 fun masked => ?_⟩
    rw [point] at masked
    cases masked
  | masked oldMask caller =>
    rw [point] at taken
    cases taken
    obtain ⟨mask, pending, flags⟩ := suspended_view now s.kernel.currentThread s.kernel
    have asleep : (scheduling now (suspendThread s.kernel.currentThread s.kernel)).state t =
        suspendedThread := by
      rw [Kernel.state, flags]
      show (suspendThread s.kernel.currentThread s.kernel).state t = suspendedThread
      rw [runs.1, suspendThread_state, if_pos ⟨rfl, by rw [runs.2]; exact ready_ne_finished⟩]
    refine ⟨⟨(fun masked => by cases masked), fun _ => ?_⟩, ?_⟩
    · simp only
      rw [asleep]
      decide
    · constructor
      · intro hears _
        by_contra signalled
        have wakes := hears rfl (by simp only; rw [mask, pending]; exact signalled)
        rw [wakes_iff rfl] at wakes
        exact suspended_ne_ready (asleep.symm.trans wakes)
      · intro clear _ signalled
        simp only at signalled
        rw [mask, pending] at signalled
        exact absurd (clear (by rw [point]; rfl)) signalled
  | suspended oldMask caller =>
    rw [point] at taken
    cases taken
    have left := SignalState.outside_hears (t := t)
      (s := ⟨setSigmask oldMask s.kernel, caller.resume, s.entry⟩) (by cases caller <;> rfl)
    refine ⟨left.1, iff_of_true left.2 fun masked => ?_⟩
    rw [point] at masked
    cases masked
  | woken set wanted =>
    rw [point] at taken
    have left := SignalState.outside_hears (t := t) (s := (sigwaitLeave set wanted s).1) (by
      unfold sigwaitLeave
      simp only
      split <;> rfl)
    rw [Option.some.inj taken] at left
    refine ⟨left.1, iff_of_true left.2 fun masked => ?_⟩
    rw [point] at masked
    cases masked

theorem SignalState.step_hears (active : s.Active t) (hears : s.Hears t) (allowed : l.Allowed t s)
    (taken : s.step t l = some (x, es)) : x.Active t ∧ (x.Hears t ↔ l.Unsignalled t s) := by
  cases l with
  | sigsuspend mask =>
    simp only [step] at taken
    split at taken
    · rename_i may
      cases taken
      have after := ready_hears (t := t)
        (s := ⟨sigsuspendMask mask s.kernel, .masked (s.kernel.sigmask t) .user, s.kernel⟩)
        ((sigsuspendMask_state mask s.kernel t).trans may.1.2)
      exact ⟨after.1, iff_of_true after.2 trivial⟩
    · cases taken
  | sigwait set wanted =>
    simp only [step] at taken
    split at taken
    · have entered : (sigwaitEnter set wanted s).1.point.suspending = false := by
        unfold sigwaitEnter
        cases set with
        | none => rfl
        | some set =>
          simp only
          split
          · rfl
          · rfl
      rw [Option.some.inj taken] at entered
      have after := outside_hears (t := t) entered
      exact ⟨after.1, iff_of_true after.2 trivial⟩
    · cases taken
  | proceed now =>
    simp only [step] at taken
    split at taken
    · rename_i runs
      exact proceed_hears runs taken
    · cases taken
  | kill sig =>
    cases taken
    refine ⟨active.elsewhere ?_, iff_of_true (fun inside pending => ?_) trivial⟩
    · rcases (pthreadKillSys_woken t sig s.kernel).state t with same | ⟨_, _, ready⟩
      · exact Or.inr same
      · exact Or.inl ready
    · exact hears.elsewhere active (pthreadKillSys_heard sig (active.alive inside) pending) inside pending
  | wake =>
    cases taken
    have only := activateThread_only t s.kernel
    have mask := congrFun (congrArg Kernel.sigmask only) t
    have pending := congrFun (congrArg Kernel.sigpending only) t
    have state := activateThread_state t t s.kernel
    by_cases ended : s.kernel.state t = finishedThread
    · rw [if_neg (fun both => both.2 ended)] at state
      exact ⟨active.elsewhere (Or.inr state),
        iff_of_true (hears.elsewhere active (Or.inr ⟨mask, pending, state⟩)) trivial⟩
    · rw [if_pos ⟨rfl, ended⟩] at state
      exact ⟨active.elsewhere (Or.inl state),
        iff_of_true (hears.elsewhere active (Or.inl state)) trivial⟩
  | others w =>
    cases taken
    refine ⟨active.elsewhere (Or.inr allowed.state), iff_of_true ?_ trivial⟩
    exact hears.elsewhere active (Or.inr ⟨allowed.mask, allowed.pending, allowed.state⟩)
  | own w =>
    simp only [step] at taken
    split at taken
    · rename_i outside
      cases taken
      have after := outside_hears (t := t) (s := { s with kernel := w }) (by rw [outside]; rfl)
      exact ⟨after.1, iff_of_true after.2 trivial⟩
    · cases taken

/-- No signal is slept through in a run, and each call gives back the mask, exactly if
    nothing is pending that the new mask lets through when sigsuspend_sys suspends. -/
theorem sigsuspend_hears_iff (t : T) (k : Kernel T) (ls : List (SignalLabel T)) (x : SignalState T)
    (es : List (SignalEvent T))
    (allowed : Lts.Along (SignalState.step t) (fun s l => l.Allowed t s) (.created t k) ls)
    (run : Lts.exec (SignalState.step t) (.created t k) ls = some (x, es)) :
    ((∀ before after y past, ls = before ++ after →
        Lts.exec (SignalState.step t) (.created t k) before = some (y, past) → y.Hears t) ∧
      ∀ former now, SignalEvent.suspended former now ∈ es → now = former) ↔
      Lts.Along (SignalState.step t) (fun s l => l.Unsignalled t s) (.created t k) ls := by
  have active : SignalState.Active t (.created t k) :=
    ⟨fun masked => (by cases masked), fun inside => by cases inside⟩
  have hears : SignalState.Hears t (.created t k) := fun inside => by cases inside
  have heard : (∀ before after y past, ls = before ++ after →
      Lts.exec (SignalState.step t) (.created t k) before = some (y, past) → y.Hears t) ↔
      Lts.Along (SignalState.step t) (fun s l => l.Unsignalled t s) (.created t k) ls :=
    Lts.good_iff_along
      (fun s l w es active hears may taken => SignalState.step_hears active hears may taken)
      ls active hears allowed run
  constructor
  · intro both
    exact heard.mp both.1
  · intro clear
    exact ⟨heard.mpr clear, fun former now back => signal_run_right t k ls allowed run _ back⟩

end

instance (t : T) (k w : Kernel T) : Decidable (Unseen t k w) :=
  decidable_of_iff (w.sigmask t = k.sigmask t ∧ w.sigpending t = k.sigpending t ∧
      w.state t = k.state t ∧
      getThreadActivateOnSignal (w.threadFlags t) = getThreadActivateOnSignal (k.threadFlags t))
    ⟨fun all => ⟨all.1, all.2.1, all.2.2.1, all.2.2.2⟩,
      fun unseen => ⟨unseen.mask, unseen.pending, unseen.state, unseen.activate⟩⟩

instance SignalLabel.decideAllowed (t : T) (s : SignalState T) :
    (l : SignalLabel T) → Decidable (l.Allowed t s)
  | .others w => inferInstanceAs (Decidable (Unseen t s.kernel w))
  | .own _ => inferInstanceAs (Decidable (_ = _))
  | .sigsuspend _ | .sigwait _ _ | .proceed _ | .kill _ | .wake => isTrue trivial

instance SignalLabel.decideUnsignalled (t : T) (s : SignalState T) :
    (l : SignalLabel T) → Decidable (l.Unsignalled t s)
  | .proceed _ => inferInstanceAs (Decidable (_ → _))
  | .sigsuspend _ | .sigwait _ _ | .kill _ | .wake | .others _ | .own _ => isTrue trivial

def SignalEvent.outcome : SignalEvent T → Option (SigwaitReturn T)
  | .suspended _ _ => none
  | .waited r => some r

def blockedKernel (blocked : Word) : Kernel (Fin 2) :=
  { twoThreads with
    sigpending := fun _ => blocked
    sigmask := fun _ => blocked }

def postedKernel : Kernel (Fin 2) :=
  (pthreadKillSys 1 9
    (scheduling 0 (suspendThread 1 (setSigmask 0x300#32 (setActivate true (blockedKernel 0#32)))))).1

def sigwaitRun : List (SignalLabel (Fin 2)) :=
  [.own (blockedKernel 0#32), .sigwait (some 0x300#32) true, .proceed 0, .proceed 0, .kill 9,
    .others (scheduling 0 postedKernel), .proceed 0, .proceed 0]

theorem sigwait_takes_one_signal :
    ∃ x es r, Lts.exec (SignalState.step 1) (.created 1 (bootKernel 0)) sigwaitRun = some (x, es) ∧
      SignalEvent.waited r ∈ es ∧ r.value = 0 ∧ r.stored = some 9 ∧ r.Right 1 := by
  obtain ⟨⟨x, es⟩, run, found⟩ := Option.map_eq_some_iff.mp
    (by decide +kernel : (Lts.exec (SignalState.step 1) (.created 1 (bootKernel 0)) sigwaitRun).map
      (fun q => (q.2.filterMap SignalEvent.outcome).map fun r => (r.value, r.stored)) =
      some [((0 : Int), some (9 : Int))])
  obtain ⟨r, only, value⟩ := List.map_eq_singleton_iff.mp found
  have member : r ∈ es.filterMap SignalEvent.outcome := by
    rw [only]
    exact List.mem_singleton_self r
  obtain ⟨e, inside, eq⟩ := List.mem_filterMap.mp member
  cases e with
  | suspended former now => cases eq
  | waited q =>
    cases eq
    simp only [Prod.mk.injEq] at value
    exact ⟨x, es, r, run, inside, value.1, value.2,
      sigwait_takes_one 1 _ sigwaitRun x es (by decide +kernel) run r inside⟩

def heardRun : List (SignalLabel (Fin 2)) :=
  [.own (blockedKernel 0#32), .sigsuspend (some 0#32), .proceed 0, .kill 8]

theorem sigsuspend_hears_iff_posted :
    ∃ x es, Lts.exec (SignalState.step 1) (.created 1 (bootKernel 0)) heardRun = some (x, es) ∧
      x.point.suspending = true ∧ unblocked (x.kernel.sigmask 1) (x.kernel.sigpending 1) ≠ 0#32 ∧
      x.Wakes 1 := by
  obtain ⟨⟨x, es⟩, run, found⟩ := Option.map_eq_some_iff.mp
    (by decide +kernel : (Lts.exec (SignalState.step 1) (.created 1 (bootKernel 0)) heardRun).map
      (fun q => (q.1.point.suspending,
        unblocked (q.1.kernel.sigmask 1) (q.1.kernel.sigpending 1))) = some (true, 0x100#32))
  simp only [Prod.mk.injEq] at found
  have pending : unblocked (x.kernel.sigmask 1) (x.kernel.sigpending 1) ≠ 0#32 := by
    rw [found.2]
    decide
  have kept := (sigsuspend_hears_iff 1 _ heardRun x es (by decide +kernel) run).mpr
    (by decide +kernel)
  exact ⟨x, es, run, found.1, pending, kept.1 heardRun [] x es (by simp) run found.1 pending⟩

def unheardRun : List (SignalLabel (Fin 2)) :=
  [.own (blockedKernel 0x100#32), .sigsuspend (some 0#32), .proceed 0]

/-- It sleeps with the signal pending and unblocked, and cannot wake without another one. -/
theorem sigsuspend_unheard :
    ∃ x es, Lts.exec (SignalState.step 1) (.created 1 (bootKernel 0)) unheardRun = some (x, es) ∧
      Lts.Along (SignalState.step 1) (fun s l => SignalLabel.Allowed 1 s l) (.created 1 (bootKernel 0))
        unheardRun ∧
      x.point.suspending = true ∧ unblocked (x.kernel.sigmask 1) (x.kernel.sigpending 1) = 0x100#32 ∧
      x.kernel.state 1 = suspendedThread ∧ ¬x.Wakes 1 := by
  obtain ⟨⟨x, es⟩, run, found⟩ := Option.map_eq_some_iff.mp
    (by decide +kernel : (Lts.exec (SignalState.step 1) (.created 1 (bootKernel 0)) unheardRun).map
      (fun q => (q.1.point, unblocked (q.1.kernel.sigmask 1) (q.1.kernel.sigpending 1),
        q.1.kernel.state 1)) = some (.suspended 0x100#32 .user, 0x100#32, suspendedThread))
  simp only [Prod.mk.injEq] at found
  obtain ⟨point, pending, asleep⟩ := found
  refine ⟨x, es, run, by decide +kernel, by rw [point]; rfl, pending, asleep, fun wakes => ?_⟩
  rw [wakes_iff point, asleep] at wakes
  exact suspended_ne_ready wakes

end L4ertl
