import L4ertl.Core.SignalWait

/-!
The signals of all threads over whole runs (signal.c): requests by anyone, handlers
that are interrupted and make requests of their own, masks, and signal_table. A
request for a signal that is pending already is merged with it.
-/
namespace L4ertl
variable {T : Type} [DecidableEq T]

def firstUserSignal : Int := 6
def sigDfl : Word := 1#32
def sigIgn : Word := 2#32
def sigBlock : Int := 0
def sigSetmask : Int := 1
def sigUnblock : Int := 2

structure Sigaction where
  saHandler : Word
  saMask : Word
  deriving DecidableEq, Repr

/-- The addresses of the handlers in signal.c. -/
structure KernelHandlers where
  dfl : Word
  ign : Word
  cancel : Word
  sleep : Word
  wakeup : Word
  apart : dfl ≠ ign

def KernelHandlers.table (h : KernelHandlers) (signal : Nat) : Sigaction :=
  ⟨if signal = 1 then h.cancel else if signal = 2 then h.sleep else if signal = 3 then h.wakeup else h.ign,
    1#32 <<< signal⟩

def KernelHandlers.reported (h : KernelHandlers) (entry : Sigaction) : Sigaction :=
  ⟨if entry.saHandler = h.dfl then sigDfl else if entry.saHandler = h.ign then sigIgn else entry.saHandler,
    entry.saMask⟩

def KernelHandlers.installed (h : KernelHandlers) (act : Sigaction) : Sigaction :=
  ⟨if act.saHandler = sigDfl then h.dfl else if act.saHandler = sigIgn then h.ign else act.saHandler, act.saMask⟩

/-- What sigaction_sys has done; `oact` is what it stores there, unless that is NULL. -/
structure SigactionResult (T : Type) where
  kernel : Kernel T
  table : Nat → Sigaction
  value : Int
  oact : Option Sigaction

def sigactionSys (h : KernelHandlers) (sig : Int) (act : Option Sigaction) (table : Nat → Sigaction)
    (k : Kernel T) : SigactionResult T :=
  if sig < firstUserSignal ∨ nrsignals ≤ sig then ⟨setErrno eintr k, table, -1, none⟩
  else
    let entry := table sig.toNat
    match act with
    | none => ⟨k, table, 0, some (h.reported entry)⟩
    | some act => ⟨k, Function.update table sig.toNat (h.installed act), 0, some (h.reported entry)⟩

/-- pthread_sigmask_sys: beside the kernel and the value what oset gets, unless it is NULL. -/
def pthreadSigmaskSys (how : Int) (set : Option Word) (k : Kernel T) : Kernel T × Int × Word :=
  let mask := k.sigmask k.currentThread
  match set with
  | none => (k, 0, mask)
  | some set =>
    if how = sigBlock then (setSigmask (mask ||| set) k, 0, mask)
    else if how = sigSetmask then (setSigmask set k, 0, mask)
    else if how = sigUnblock then (setSigmask (mask &&& ~~~set) k, 0, mask)
    else (setErrno einval k, -1, mask)

/-- A call of do_signals: the mask to go back to, the signal of the next round, the set
    shifted so far, and the signal whose handler runs. -/
structure Delivery where
  oldSigmask : Word
  signal : Nat
  sigpend : Word
  running : Option Nat

inductive SigFrame where
  | doSignals (d : Delivery)
  | sigsuspend (oldMask : Word)

structure Signals (T : Type) where
  kernel : Kernel T
  table : Nat → Sigaction
  frames : T → List SigFrame

inductive SigEvent (T : Type) where
  | created (t : T)
  -- merged with a request that is still pending
  | posted (t : T) (sig : Nat) (merged : Bool)
  -- taken by do_signals; no handler is called if it is NULL
  | handled (t : T) (sig : Nat) (handler : Word)
  -- taken by sigwait_sys
  | taken (t : T) (sig : Nat)
  | reported (sig : Nat) (oact : Sigaction)
  | installed (sig : Nat) (act : Sigaction)
  deriving DecidableEq, Repr

inductive SigLabel (T : Type) where
  | create (addr : Option T)
  -- pthread_kill_sys, by a thread, a timer or a handler
  | kill (thread : T) (sig : Int)
  | sigmask (how : Int) (set : Option Word)
  | sigaction (sig : Int) (act : Option Sigaction)
  -- sigwait_sys looks at the pending set
  | sigwait (set : Word)
  | sigsuspend (mask : Option Word)
  | doSignals
  -- the thread goes on in its innermost call
  | proceed
  -- anything else, such as another thread that runs
  | others (w : Kernel T)

def Signals.become (s : Signals T) (k : Kernel T) (fs : List SigFrame) : Signals T :=
  { s with kernel := k, frames := Function.update s.frames s.kernel.currentThread fs }

/-- A round of the loop in do_signals, or what follows the last one. -/
def Signals.round (s : Signals T) (d : Delivery) (fs : List SigFrame) : Signals T × List (SigEvent T) :=
  let k := s.kernel
  if d.signal < 32 ∧ d.sigpend ≠ 0#32 then
    let entry := s.table d.signal
    let w := setSigmask (d.oldSigmask ||| entry.saMask ||| (1#32 <<< d.signal)) k
    if d.sigpend &&& 1#32 ≠ 0#32 then
      let running := if entry.saHandler ≠ 0#32 then some d.signal else none
      (s.become w (.doSignals ⟨d.oldSigmask, d.signal + 1, d.sigpend >>> 1, running⟩ :: fs),
        [.handled k.currentThread d.signal entry.saHandler])
    else (s.become w (.doSignals ⟨d.oldSigmask, d.signal + 1, d.sigpend >>> 1, none⟩ :: fs), [])
  else (s.become (setSigmask d.oldSigmask k) fs, [])

def Signals.step (h : KernelHandlers) (s : Signals T) : SigLabel T → Option (Signals T × List (SigEvent T))
  | .create addr =>
    match addr with
    | none => some (s, [])
    | some t =>
      some ({ s with kernel := (createPthreadStruct (some t) s.kernel).1, frames := Function.update s.frames t [] },
        [.created t])
  | .kill thread sig =>
    let (k, value) := pthreadKillSys thread sig s.kernel
    some ({ s with kernel := k },
      if value = 0 then [.posted thread sig.toNat (isbitset (s.kernel.sigpending thread) sig.toNat)] else [])
  | .sigmask how set => some ({ s with kernel := (pthreadSigmaskSys how set s.kernel).1 }, [])
  | .sigaction sig act =>
    let r := sigactionSys h sig act s.table s.kernel
    some ({ s with kernel := r.kernel, table := r.table },
      if r.value = 0 then
        (r.oact.toList.map fun entry => .reported sig.toNat entry) ++
          act.toList.map fun entry => .installed sig.toNat entry
      else [])
  | .sigwait set =>
    match takeWaited set s.kernel with
    | some (k, sig) => some ({ s with kernel := k }, [.taken s.kernel.currentThread sig.toNat])
    | none => some (s, [])
  | .sigsuspend mask =>
    let k := s.kernel
    some (s.become (sigsuspendMask mask k) (.sigsuspend (k.sigmask k.currentThread) :: s.frames k.currentThread), [])
  | .doSignals =>
    let k := s.kernel
    let (w, sigpend) := takeSignals k
    some (s.become w (.doSignals ⟨k.sigmask k.currentThread, 0, sigpend, none⟩ :: s.frames k.currentThread), [])
  | .proceed =>
    match s.frames s.kernel.currentThread with
    | [] => none
    | .sigsuspend oldMask :: fs => some (s.become (setSigmask oldMask s.kernel) fs, [])
    | .doSignals d :: fs => some (s.round d fs)
  | .others w =>
    some ({ s with kernel := { w with sigpending := s.kernel.sigpending, sigmask := s.kernel.sigmask } }, [])

def Signals.start (h : KernelHandlers) (k : Kernel T) : Signals T :=
  ⟨{ k with sigpending := fun _ => 0#32 }, h.table, fun _ => []⟩

/-- What has become of the requests for a signal since its thread was created. -/
structure Account where
  posts : Nat
  handled : Nat
  taken : Nat
  merged : Nat
  deriving DecidableEq, Repr

def Account.add (t : T) (sig : Nat) (a : Account) : SigEvent T → Account
  | .created u => if u = t then ⟨0, 0, 0, 0⟩ else a
  | .posted u n merged =>
    if u = t ∧ n = sig then { a with posts := a.posts + 1, merged := a.merged + merged.toNat } else a
  | .handled u n _ => if u = t ∧ n = sig then { a with handled := a.handled + 1 } else a
  | .taken u n => if u = t ∧ n = sig then { a with taken := a.taken + 1 } else a
  | .reported _ _ => a
  | .installed _ _ => a

def account (t : T) (sig : Nat) (es : List (SigEvent T)) : Account := es.foldl (Account.add t sig) ⟨0, 0, 0, 0⟩

/-- do_signals has taken the signal and not come to it yet. -/
def SigFrame.holds (sig : Nat) : SigFrame → Bool
  | .doSignals d => decide (d.signal ≤ sig) && isbitset d.sigpend (sig - d.signal)
  | .sigsuspend _ => false

def heldBy (sig : Nat) (fs : List SigFrame) : Nat := (fs.map fun f => (f.holds sig).toNat).sum

def Signals.owed (s : Signals T) (t : T) (sig : Nat) : Nat :=
  (isbitset (s.kernel.sigpending t) sig).toNat + heldBy sig (s.frames t)

/-- Every request has been answered once, is still owed, or was merged with one that was. -/
def Answered (s : Signals T) (t : T) (sig : Nat) (a : Account) : Prop :=
  a.posts = a.handled + a.taken + a.merged + s.owed t sig

section
variable {h : KernelHandlers} {s w : Signals T} {t : T} {sig : Nat} {a : Account} {es : List (SigEvent T)}
  {fs : List SigFrame}

omit [DecidableEq T] in
theorem heldBy_cons (f : SigFrame) (fs : List SigFrame) : heldBy sig (f :: fs) = (f.holds sig).toNat + heldBy sig fs :=
  List.sum_cons

theorem become_owed (k : Kernel T) (fs : List SigFrame) (t : T) :
    (s.become k fs).owed t sig = (isbitset (k.sigpending t) sig).toNat +
      heldBy sig (if t = s.kernel.currentThread then fs else s.frames t) := by
  have now : (s.become k fs).frames t = if t = s.kernel.currentThread then fs else s.frames t :=
    Function.update_apply ..
  rw [← now]
  rfl

theorem pthreadKillSys_value (u : T) (sig : Int) (k : Kernel T) :
    (pthreadKillSys u sig k).2 = 0 ↔ k.magicNumber u = pthreadMagicNumber ∧ 0 ≤ sig ∧ sig < nrsignals := by
  have failed : ¬(-1 : Int) = 0 := by decide
  unfold pthreadKillSys
  split
  · rename_i stale
    exact iff_of_false failed fun all => stale all.1
  · rename_i valid
    split
    · rename_i outside
      exact iff_of_false failed fun all => by omega
    · rename_i inside
      exact iff_of_true rfl ⟨not_not.mp valid, by omega⟩

theorem kill_balanced (inside : sig < 32) (balanced : Answered s t sig a) (u : T) (n : Int) :
    Answered { s with kernel := (pthreadKillSys u n s.kernel).1 } t sig
      ((if (pthreadKillSys u n s.kernel).2 = 0 then
        [SigEvent.posted u n.toNat (isbitset (s.kernel.sigpending u) n.toNat)] else []).foldl (Account.add t sig) a) := by
  have pending := (pthreadKillSys_signals u n s.kernel).2.2 t
  unfold Answered Signals.owed at balanced ⊢
  simp only [pending]
  by_cases valid : (pthreadKillSys u n s.kernel).2 = 0
  · have all := (pthreadKillSys_value u n s.kernel).mp valid
    rw [if_pos valid, List.foldl_cons, List.foldl_nil, Account.add]
    by_cases own : t = u
    · subst own
      have bit : isbitset (s.kernel.sigpending t ||| (1#32 <<< n.toNat)) sig =
          (isbitset (s.kernel.sigpending t) sig || decide (sig = n.toNat)) := isbitset_setbit _ inside
      have both : t = t ∧ s.kernel.magicNumber t = pthreadMagicNumber ∧ 0 ≤ n ∧ n < nrsignals := ⟨rfl, all⟩
      rw [if_pos both, bit]
      by_cases same : n.toNat = sig
      · subst same
        rw [if_pos ⟨rfl, rfl⟩]
        simp only [decide_true, Bool.or_true, Bool.toNat_true]
        cases there : isbitset (s.kernel.sigpending t) n.toNat
        · simp only [there, Bool.toNat_false] at balanced ⊢
          omega
        · simp only [there, Bool.toNat_true] at balanced ⊢
          omega
      · rw [if_neg fun both => same both.2, decide_eq_false (Ne.symm same), Bool.or_false]
        exact balanced
    · have other : ¬u = t := Ne.symm own
      rw [if_neg fun both => other both.1, if_neg fun both => own both.1]
      exact balanced
  · have wrong := (pthreadKillSys_value u n s.kernel).not.mp valid
    rw [if_neg valid, if_neg fun all => wrong all.2]
    exact balanced

theorem sigwait_balanced (inside : sig < 32) (balanced : Answered s t sig a) {set : Word} {k : Kernel T} {n : Int}
    (took : takeWaited set s.kernel = some (k, n)) :
    Answered { s with kernel := k } t sig (a.add t sig (.taken s.kernel.currentThread n.toNat)) := by
  obtain ⟨i, lowest, rfl, rfl⟩ := takeWaited_some took
  unfold Answered Signals.owed at balanced ⊢
  simp only [Account.add, Int.toNat_natCast]
  by_cases own : t = s.kernel.currentThread
  · subst own
    rw [Function.update_self, isbitset_clearbit _ inside]
    by_cases same : i = sig
    · subst same
      have bit : isbitset (s.kernel.sigpending s.kernel.currentThread) i = true := by
        have member := lowest.2.1
        rw [waitable, BitVec.getLsbD_and] at member
        rw [isbitset_eq _ inside]
        exact (Bool.and_eq_true_iff.mp member).1
      rw [bit] at balanced
      rw [if_pos ⟨rfl, rfl⟩]
      simp only [bit, Bool.toNat_true, decide_true, Bool.not_true, Bool.and_false, Bool.toNat_false] at balanced ⊢
      omega
    · rw [if_neg fun both => same both.2, decide_eq_false (Ne.symm same), Bool.not_false, Bool.and_true]
      exact balanced
  · have other : ¬s.kernel.currentThread = t := Ne.symm own
    rw [Function.update_of_ne own, if_neg fun both => other both.1]
    exact balanced

theorem taken_bits (pending taken : Word) (inside : sig < 32) (part : ∀ j < 32, isbitset taken j → isbitset pending j) :
    (isbitset (pending &&& ~~~taken) sig).toNat + (isbitset taken sig).toNat = (isbitset pending sig).toNat := by
  have left : isbitset (pending &&& ~~~taken) sig = (isbitset pending sig && !isbitset taken sig) := by
    rw [isbitset_eq _ inside, isbitset_eq _ inside, isbitset_eq _ inside, BitVec.getLsbD_and, BitVec.getLsbD_not]
    simp [inside]
  have covered := part sig inside
  rw [left]
  cases here : isbitset taken sig
  · simp
  · rw [covered here]
    rfl

omit [DecidableEq T] in
theorem deliverable_part (k : Kernel T) {j : Nat} (inside : j < 32) (member : isbitset (deliverable k) j = true) :
    isbitset (k.sigpending k.currentThread) j = true := by
  rw [isbitset_eq _ inside, deliverable, BitVec.getLsbD_and, BitVec.getLsbD_and] at member
  rw [isbitset_eq _ inside]
  exact (Bool.and_eq_true_iff.mp (Bool.and_eq_true_iff.mp member).1).1

theorem takeSignals_pending (k : Kernel T) (t : T) :
    (takeSignals k).1.sigpending t =
      if t = k.currentThread then k.sigpending t &&& ~~~deliverable k else k.sigpending t := by
  rw [takeSignals_eq]
  show Function.update k.sigpending k.currentThread _ t = _
  rw [Function.update_apply]
  split
  · rename_i own
    rw [own]
  · rfl

theorem doSignals_balanced (inside : sig < 32) (balanced : Answered s t sig a) :
    Answered (s.become (takeSignals s.kernel).1
      (.doSignals ⟨s.kernel.sigmask s.kernel.currentThread, 0, (takeSignals s.kernel).2, none⟩ ::
        s.frames s.kernel.currentThread)) t sig a := by
  have took : (takeSignals s.kernel).2 = deliverable s.kernel := by rw [takeSignals_eq]
  unfold Answered at balanced ⊢
  rw [become_owed, takeSignals_pending, took, balanced, Signals.owed]
  by_cases own : t = s.kernel.currentThread
  · subst own
    have split := taken_bits (s.kernel.sigpending s.kernel.currentThread) (deliverable s.kernel) inside
      fun j bound => deliverable_part s.kernel bound
    rw [if_pos rfl, if_pos rfl, heldBy_cons, ← split]
    simp only [SigFrame.holds, Nat.zero_le, decide_true, Bool.true_and, Nat.sub_zero]
    omega
  · rw [if_neg own, if_neg own]

theorem round_holds (d : Delivery) (inside : sig < 32) (running : Option Nat) :
    ((SigFrame.doSignals d).holds sig).toNat =
      (if d.signal = sig ∧ d.sigpend &&& 1#32 ≠ 0#32 then 1 else 0) +
        ((SigFrame.doSignals ⟨d.oldSigmask, d.signal + 1, d.sigpend >>> 1, running⟩).holds sig).toNat := by
  have lowest : isbitset d.sigpend 0 = (d.sigpend &&& 1#32 != 0#32) := rfl
  simp only [SigFrame.holds]
  rcases Nat.lt_trichotomy d.signal sig with less | same | more
  · obtain ⟨j, rfl⟩ := Nat.exists_eq_add_of_lt less
    have place : d.signal + j + 1 - d.signal = j + 1 := by omega
    have place' : d.signal + j + 1 - (d.signal + 1) = j := by omega
    have apart : ¬d.signal = d.signal + j + 1 := by omega
    have below : d.signal ≤ d.signal + j + 1 := by omega
    have below' : d.signal + 1 ≤ d.signal + j + 1 := by omega
    rw [place, place', isbitset_shift _ (by omega), if_neg fun both => apart both.1, Nat.zero_add]
    simp [below, below']
  · subst same
    have above : ¬d.signal + 1 ≤ d.signal := by omega
    rw [Nat.sub_self, lowest, decide_eq_false above]
    by_cases first : d.sigpend &&& 1#32 = 0#32
    · simp [first]
    · simp [first]
  · have apart : ¬d.signal = sig := by omega
    have above : ¬d.signal ≤ sig := by omega
    have above' : ¬d.signal + 1 ≤ sig := by omega
    rw [if_neg fun both => apart both.1, decide_eq_false above, decide_eq_false above']
    simp

theorem holds_end {d : Delivery} (inside : sig < 32) (ended : ¬(d.signal < 32 ∧ d.sigpend ≠ 0#32)) :
    (SigFrame.doSignals d).holds sig = false := by
  rw [SigFrame.holds]
  by_cases last : d.signal < 32
  · have empty : d.sigpend = 0#32 := by
      by_contra left
      exact ended ⟨last, left⟩
    rw [empty, isbitset_zero, Bool.and_false]
  · have behind : ¬d.signal ≤ sig := by omega
    rw [decide_eq_false behind, Bool.false_and]

theorem round_balanced (inside : sig < 32) (balanced : Answered s t sig a) {d : Delivery} {fs : List SigFrame}
    (inner : s.frames s.kernel.currentThread = .doSignals d :: fs) :
    Answered (s.round d fs).1 t sig ((s.round d fs).2.foldl (Account.add t sig) a) := by
  have masked : ∀ mask, (setSigmask mask s.kernel).sigpending = s.kernel.sigpending := fun _ => rfl
  unfold Answered at balanced ⊢
  rw [Signals.owed] at balanced
  unfold Signals.round
  by_cases goes : d.signal < 32 ∧ d.sigpend ≠ 0#32
  · simp only [if_pos goes]
    have count := round_holds d inside
    by_cases called : d.sigpend &&& 1#32 ≠ 0#32
    · simp only [if_pos called, List.foldl_cons, List.foldl_nil]
      rw [become_owed, masked]
      by_cases own : t = s.kernel.currentThread
      · subst own
        rw [inner, heldBy_cons, count (if (s.table d.signal).saHandler ≠ 0#32 then some d.signal else none)] at balanced
        rw [if_pos rfl, heldBy_cons, Account.add]
        by_cases same : d.signal = sig
        · rw [if_pos ⟨same, called⟩] at balanced
          rw [if_pos ⟨rfl, same⟩]
          simp only
          omega
        · rw [if_neg fun both => same both.1] at balanced
          rw [if_neg fun both => same both.2]
          omega
      · have other : ¬s.kernel.currentThread = t := Ne.symm own
        rw [if_neg own, Account.add, if_neg fun both => other both.1]
        exact balanced
    · simp only [if_neg called, List.foldl_nil]
      rw [become_owed, masked]
      by_cases own : t = s.kernel.currentThread
      · subst own
        rw [inner, heldBy_cons, count none, if_neg fun both => called both.2, Nat.zero_add] at balanced
        rw [if_pos rfl, heldBy_cons]
        exact balanced
      · rw [if_neg own]
        exact balanced
  · simp only [if_neg goes, List.foldl_nil]
    rw [become_owed, masked]
    by_cases own : t = s.kernel.currentThread
    · subst own
      rw [inner, heldBy_cons, holds_end inside goes, Bool.toNat_false, Nat.zero_add] at balanced
      rw [if_pos rfl]
      exact balanced
    · rw [if_neg own]
      exact balanced

theorem sigmask_pending (how : Int) (set : Option Word) (k : Kernel T) :
    (pthreadSigmaskSys how set k).1.sigpending = k.sigpending := by
  unfold pthreadSigmaskSys
  cases set with
  | none => rfl
  | some set =>
    simp only
    split
    · rfl
    · split
      · rfl
      · split
        · rfl
        · rfl

theorem sigactionSys_pending (h : KernelHandlers) (sig : Int) (act : Option Sigaction) (table : Nat → Sigaction)
    (k : Kernel T) : (sigactionSys h sig act table k).kernel.sigpending = k.sigpending := by
  unfold sigactionSys
  split
  · rfl
  · cases act with
    | none => rfl
    | some act => rfl

theorem create_balanced (balanced : Answered s t sig a) (u : T) :
    Answered { s with kernel := (createPthreadStruct (some u) s.kernel).1, frames := Function.update s.frames u [] }
      t sig (a.add t sig (.created u)) := by
  have pending : (createPthreadStruct (some u) s.kernel).1.sigpending = Function.update s.kernel.sigpending u 0#32 :=
    rfl
  unfold Answered Signals.owed at balanced ⊢
  simp only [pending, Account.add]
  by_cases own : t = u
  · subst own
    rw [Function.update_self, Function.update_self, if_pos rfl, isbitset_zero]
    rfl
  · rw [Function.update_of_ne own, Function.update_of_ne own, if_neg (Ne.symm own)]
    exact balanced

omit [DecidableEq T] in
theorem sigsuspend_holds (oldMask : Word) (fs : List SigFrame) : heldBy sig (.sigsuspend oldMask :: fs) = heldBy sig fs := by
  rw [heldBy_cons, SigFrame.holds, Bool.toNat_false, Nat.zero_add]

theorem become_balanced (balanced : Answered s t sig a) {k : Kernel T} (pending : k.sigpending = s.kernel.sigpending)
    {fs : List SigFrame} (same : heldBy sig fs = heldBy sig (s.frames s.kernel.currentThread)) :
    Answered (s.become k fs) t sig a := by
  unfold Answered at balanced ⊢
  rw [become_owed, pending, balanced, Signals.owed]
  by_cases own : t = s.kernel.currentThread
  · rw [if_pos own, same, own]
  · rw [if_neg own]

theorem sigactionEvents_quiet (n : Nat) (entries acts : List Sigaction) :
    (entries.map (SigEvent.reported n) ++ acts.map (SigEvent.installed n)).foldl (Account.add t sig) a = a := by
  have still : ∀ (e : SigEvent T) (fs : List (SigEvent T)), Account.add t sig a e = a →
      (e :: fs).foldl (Account.add t sig) a = fs.foldl (Account.add t sig) a := by
    intro e fs same
    rw [List.foldl_cons, same]
  induction entries with
  | cons entry entries ih => exact (still _ _ rfl).trans ih
  | nil =>
    induction acts with
    | nil => rfl
    | cons act acts ih => exact (still _ _ rfl).trans ih

theorem step_balanced (inside : sig < 32) (balanced : Answered s t sig a) {l : SigLabel T}
    (taken : s.step h l = some (w, es)) : Answered w t sig (es.foldl (Account.add t sig) a) := by
  cases l with
  | create addr =>
    cases addr with
    | none =>
      cases taken
      exact balanced
    | some u =>
      cases taken
      exact create_balanced balanced u
  | kill u n =>
    cases taken
    exact kill_balanced inside balanced u n
  | sigmask how set =>
    cases taken
    unfold Answered Signals.owed
    rw [List.foldl_nil, sigmask_pending]
    exact balanced
  | sigaction n act =>
    cases taken
    unfold Answered Signals.owed
    rw [sigactionSys_pending]
    split
    · rw [sigactionEvents_quiet]
      exact balanced
    · exact balanced
  | sigwait set =>
    simp only [Signals.step] at taken
    split at taken
    · rename_i k n took
      cases taken
      exact sigwait_balanced inside balanced took
    · cases taken
      exact balanced
  | sigsuspend mask =>
    cases taken
    exact become_balanced balanced (by cases mask <;> rfl) (sigsuspend_holds ..)
  | doSignals =>
    cases taken
    exact doSignals_balanced inside balanced
  | proceed =>
    simp only [Signals.step] at taken
    split at taken
    · cases taken
    · rename_i oldMask fs inner
      cases taken
      have ended : heldBy sig (.sigsuspend oldMask :: fs) = heldBy sig fs := sigsuspend_holds oldMask fs
      rw [← inner] at ended
      exact become_balanced balanced rfl ended.symm
    · rename_i d fs inner
      have next := round_balanced inside balanced inner
      rw [Option.some.inj taken] at next
      exact next
  | others k =>
    cases taken
    exact balanced

theorem signal_ledger (h : KernelHandlers) (k : Kernel T) (ls : List (SigLabel T)) (x : Signals T)
    (es : List (SigEvent T)) (run : Lts.exec (Signals.step h) (.start h k) ls = some (x, es)) (t : T) (sig : Nat)
    (inside : sig < 32) : Answered x t sig (account t sig es) := by
  have begin_ : Answered (.start h k) t sig (account t sig []) := by
    show 0 = 0 + 0 + 0 + Signals.owed _ t sig
    rw [Signals.owed, Signals.start, isbitset_zero]
    rfl
  refine Lts.exec_invariant (fun s past => Answered s t sig (account t sig past)) ?_ ls begin_
    (Lts.along_trivial ls _) run
  intro s past l w first balanced _ taken
  rw [account, List.foldl_append]
  exact step_balanced inside balanced taken

def Signals.idle (s : Signals T) : SignalTable T := ⟨fun _ k => k, fun signal => (s.table signal).saMask⟩

def Signals.callEvents (s : Signals T) (calls : List (Nat × Kernel T)) : List (SigEvent T) :=
  calls.map fun c => .handled s.kernel.currentThread c.1 (s.table c.1).saHandler

theorem proceed_deliverLoop (n : Nat) :
    ∀ (s : Signals T) (d : Delivery), n + d.signal = 32 → s.frames s.kernel.currentThread = .doSignals d :: fs →
      ∃ m, Lts.exec (Signals.step h) s (List.replicate m .proceed) =
        some (s.become (setSigmask d.oldSigmask (deliverLoop s.idle d.oldSigmask n d.signal d.sigpend s.kernel).1) fs,
          s.callEvents (deliverLoop s.idle d.oldSigmask n d.signal d.sigpend s.kernel).2) := by
  have last : ∀ (s : Signals T) (d : Delivery), s.frames s.kernel.currentThread = .doSignals d :: fs →
      ¬(d.signal < 32 ∧ d.sigpend ≠ 0#32) →
      Lts.exec (Signals.step h) s (List.replicate 1 .proceed) =
        some (s.become (setSigmask d.oldSigmask s.kernel) fs, []) := by
    intro s d inner ended
    have taken : s.step h .proceed = some (s.become (setSigmask d.oldSigmask s.kernel) fs, []) := by
      simp only [Signals.step, inner, Signals.round, if_neg ended]
    simp only [List.replicate, Lts.exec, taken, List.append_nil]
  induction n with
  | zero =>
    intro s d place inner
    exact ⟨1, last s d inner (by omega)⟩
  | succ n ih =>
    intro s d place inner
    unfold deliverLoop
    by_cases empty : d.sigpend = 0#32
    · simp only [if_pos empty]
      exact ⟨1, last s d inner fun both => both.2 empty⟩
    · simp only [if_neg empty]
      have goes : d.signal < 32 ∧ d.sigpend ≠ 0#32 := ⟨by omega, empty⟩
      generalize masked : setSigmask (d.oldSigmask ||| (s.table d.signal).saMask ||| (1#32 <<< d.signal)) s.kernel = k
      have current : k.currentThread = s.kernel.currentThread := by rw [← masked]; rfl
      have rest : ∀ running events, s.step h .proceed =
          some (s.become k (.doSignals ⟨d.oldSigmask, d.signal + 1, d.sigpend >>> 1, running⟩ :: fs), events) →
          ∃ m, Lts.exec (Signals.step h) s (List.replicate m .proceed) =
            some (s.become (setSigmask d.oldSigmask
                (deliverLoop s.idle d.oldSigmask n (d.signal + 1) (d.sigpend >>> 1) k).1) fs,
              events ++ s.callEvents (deliverLoop s.idle d.oldSigmask n (d.signal + 1) (d.sigpend >>> 1) k).2) := by
        intro running events taken
        obtain ⟨m, run⟩ := ih (s.become k (.doSignals ⟨d.oldSigmask, d.signal + 1, d.sigpend >>> 1, running⟩ :: fs))
          ⟨d.oldSigmask, d.signal + 1, d.sigpend >>> 1, running⟩ (by simp only; omega)
          (by simp only [Signals.become, current, Function.update_self])
        refine ⟨m + 1, ?_⟩
        have names : ∀ calls, Signals.callEvents (s.become k
            (.doSignals ⟨d.oldSigmask, d.signal + 1, d.sigpend >>> 1, running⟩ :: fs)) calls = s.callEvents calls := by
          intro calls
          simp only [Signals.callEvents, Signals.become, current]
        have once : ∀ w, (s.become k
            (.doSignals ⟨d.oldSigmask, d.signal + 1, d.sigpend >>> 1, running⟩ :: fs)).become w fs = s.become w fs := by
          intro w
          simp only [Signals.become, current, Function.update_idem]
        rw [names, once] at run
        simp only [List.replicate, Lts.exec, taken]
        rw [run]
        rfl
      by_cases called : d.sigpend &&& 1#32 ≠ 0#32
      · obtain ⟨m, run⟩ := rest (if (s.table d.signal).saHandler ≠ 0#32 then some d.signal else none)
          [.handled s.kernel.currentThread d.signal (s.table d.signal).saHandler] (by
            simp only [Signals.step, inner, Signals.round, if_pos goes, if_pos called, masked])
        refine ⟨m, run.trans ?_⟩
        simp only [Signals.idle, masked, if_pos called]
        rfl
      · obtain ⟨m, run⟩ := rest none [] (by
            simp only [Signals.step, inner, Signals.round, if_pos goes, if_neg called, masked])
        refine ⟨m, run.trans ?_⟩
        simp only [Signals.idle, masked, if_neg called]
        rfl

/-- A call of do_signals that nothing interrupts does what `deliverSignals` does. -/
theorem doSignals_deliverSignals (h : KernelHandlers) (s : Signals T) :
    ∃ m, Lts.exec (Signals.step h) s (.doSignals :: List.replicate m .proceed) =
      some ({ s with kernel := (deliverSignals s.idle s.kernel).1 }, s.callEvents (deliverSignals s.idle s.kernel).2) := by
  let d : Delivery := ⟨s.kernel.sigmask s.kernel.currentThread, 0, (takeSignals s.kernel).2, none⟩
  let called := s.become (takeSignals s.kernel).1 (.doSignals d :: s.frames s.kernel.currentThread)
  have entered : s.step h .doSignals = some (called, []) := rfl
  have inner : called.frames called.kernel.currentThread = .doSignals d :: s.frames s.kernel.currentThread :=
    Function.update_self ..
  obtain ⟨m, run⟩ := proceed_deliverLoop (h := h) 32 called d rfl inner
  refine ⟨m, ?_⟩
  have back : Function.update called.frames called.kernel.currentThread (s.frames s.kernel.currentThread) = s.frames := by
    show Function.update (Function.update s.frames s.kernel.currentThread _) s.kernel.currentThread _ = _
    rw [Function.update_idem, Function.update_eq_self]
  have whole : deliverSignals s.idle s.kernel =
      (setSigmask d.oldSigmask (deliverLoop s.idle d.oldSigmask 32 0 d.sigpend called.kernel).1,
        (deliverLoop s.idle d.oldSigmask 32 0 d.sigpend called.kernel).2) := by
    simp only [deliverSignals]
    rfl
  have table : called.idle = s.idle := rfl
  rw [table] at run
  simp only [Lts.exec, entered, run, whole, Signals.become, back]
  rfl

end

def someHandlers : KernelHandlers := ⟨0x100#32, 0x104#32, 0x108#32, 0x10c#32, 0x110#32, by decide⟩

def ledgerRun : List (SigLabel (Fin 2)) :=
  [.sigaction 8 (some ⟨0x8000#32, 0#32⟩), .kill 1 8, .kill 1 8, .doSignals] ++ List.replicate 9 .proceed ++ [.kill 1 8]

theorem signal_ledger_posts :
    ∃ x es, Lts.exec (Signals.step someHandlers) (.start someHandlers twoThreads) ledgerRun = some (x, es) ∧
      account 1 8 es = ⟨3, 1, 0, 1⟩ ∧ x.owed 1 8 = 1 ∧ Answered x 1 8 (account 1 8 es) := by
  obtain ⟨⟨x, es⟩, run, found⟩ := Option.map_eq_some_iff.mp
    (by decide +kernel : (Lts.exec (Signals.step someHandlers) (.start someHandlers twoThreads) ledgerRun).map
      (fun q => (account 1 8 q.2, q.1.owed 1 8)) = some ((⟨3, 1, 0, 1⟩ : Account), 1))
  simp only [Prod.mk.injEq] at found
  exact ⟨x, es, run, found.1, found.2, signal_ledger someHandlers twoThreads ledgerRun x es run 1 8 (by decide)⟩

end L4ertl
