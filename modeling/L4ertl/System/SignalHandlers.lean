import L4ertl.System.SignalLedger

/-!
The handlers of signals over whole runs (signal.c): which one is called, what
sigaction_sys reports, and that a handler is not entered again while it runs.
-/
namespace L4ertl
variable {T : Type} [DecidableEq T]

section
variable {h : KernelHandlers} {s w : Signals T} {t : T} {sig : Nat} {es : List (SigEvent T)} {fs : List SigFrame}

/-- A signal that do_signals holds back while it is blocked. -/
def UserSignal (sig : Nat) : Prop := firstUserSignal ≤ sig ∧ (sig : Int) < nrsignals

def SigFrame.running : SigFrame → Option Nat
  | .doSignals d => d.running
  | .sigsuspend _ => none

def SigFrame.oldMask : SigFrame → Word
  | .doSignals d => d.oldSigmask
  | .sigsuspend oldMask => oldMask

def Handling (fs : List SigFrame) (sig : Nat) : Prop := ∃ f ∈ fs, f.running = some sig

def HandlersBlocked : Word → List SigFrame → Prop
  | _, [] => True
  | mask, f :: fs =>
    (∀ sig, UserSignal sig → Handling (f :: fs) sig → isbitset mask sig = true) ∧
      (∀ sig, UserSignal sig → f.running = some sig ∨ f.holds sig = true → ¬Handling fs sig) ∧
      HandlersBlocked f.oldMask fs

def SigLabel.Keeps (s : Signals T) (l : SigLabel T) : Prop :=
  let k := s.kernel
  let t := k.currentThread
  match l with
  | .sigmask how set => ∀ sig, UserSignal sig → Handling (s.frames t) sig →
      isbitset ((pthreadSigmaskSys how set k).1.sigmask t) sig = true
  | .sigsuspend mask => ∀ sig, UserSignal sig → Handling (s.frames t) sig →
      isbitset ((sigsuspendMask mask k).sigmask t) sig = true
  | _ => True

theorem handling_cons {f : SigFrame} : Handling (f :: fs) sig ↔ f.running = some sig ∨ Handling fs sig :=
  List.exists_mem_cons_iff ..

theorem HandlersBlocked.masks {mask : Word} (guarded : HandlersBlocked mask fs) (user : UserSignal sig)
    (handling : Handling fs sig) : isbitset mask sig = true := by
  cases fs with
  | nil =>
    obtain ⟨f, none, _⟩ := handling
    cases none
  | cons f fs => exact guarded.1 sig user handling

theorem HandlersBlocked.remask {mask new : Word} (guarded : HandlersBlocked mask fs)
    (blocked : ∀ sig, UserSignal sig → Handling fs sig → isbitset new sig = true) : HandlersBlocked new fs := by
  cases fs with
  | nil => trivial
  | cons f fs => exact ⟨blocked, guarded.2⟩

theorem HandlersBlocked.once {mask : Word} (guarded : HandlersBlocked mask fs) (user : UserSignal sig) :
    fs.countP (fun f => f.running = some sig) ≤ 1 := by
  induction fs generalizing mask with
  | nil => exact Nat.zero_le 1
  | cons f fs ih =>
    rw [List.countP_cons]
    by_cases here : f.running = some sig
    · have none := guarded.2.1 sig user (Or.inl here)
      have zero : fs.countP (fun f => f.running = some sig) = 0 := by
        rw [List.countP_eq_zero]
        intro g member same
        exact none ⟨g, member, of_decide_eq_true same⟩
      rw [zero, if_pos (decide_eq_true here)]
    · rw [if_neg fun same => here (of_decide_eq_true same)]
      exact ih guarded.2.2

theorem isbitset_or (b c : Word) (inside : sig < 32) : isbitset (b ||| c) sig = (isbitset b sig || isbitset c sig) := by
  rw [isbitset_eq _ inside, isbitset_eq _ inside, isbitset_eq _ inside, BitVec.getLsbD_or]

theorem become_guarded (guarded : ∀ t, HandlersBlocked (s.kernel.sigmask t) (s.frames t)) {k : Kernel T}
    (same : ∀ t, t ≠ s.kernel.currentThread → k.sigmask t = s.kernel.sigmask t)
    (own : HandlersBlocked (k.sigmask s.kernel.currentThread) fs) (t : T) :
    HandlersBlocked ((s.become k fs).kernel.sigmask t) ((s.become k fs).frames t) := by
  show HandlersBlocked (k.sigmask t) (Function.update s.frames s.kernel.currentThread fs t)
  by_cases self : t = s.kernel.currentThread
  · subst self
    rw [Function.update_self]
    exact own
  · rw [Function.update_of_ne self, same t self]
    exact guarded t

theorem setSigmask_mask (mask : Word) (k : Kernel T) (t : T) :
    (setSigmask mask k).sigmask t = if t = k.currentThread then mask else k.sigmask t := Function.update_apply ..

theorem UserSignal.inside (user : UserSignal sig) : sig < 32 := by
  have high := user.2
  unfold nrsignals at high
  omega

omit [DecidableEq T] in
theorem deliverable_user (k : Kernel T) (user : UserSignal sig) (member : isbitset (deliverable k) sig = true) :
    isbitset (k.sigmask k.currentThread) sig = false := by
  have system : ∀ j : Fin 32, 6 ≤ j.val → nonMaskableSignals.getLsbD j.val = false := by decide
  have low := user.1
  unfold firstUserSignal at low
  have maskable := system ⟨sig, user.inside⟩ (by simp only; omega)
  rw [isbitset_eq _ user.inside, deliverable, BitVec.getLsbD_and, BitVec.getLsbD_and, BitVec.getLsbD_or, maskable,
    Bool.or_false, BitVec.getLsbD_not] at member
  rw [isbitset_eq _ user.inside]
  simpa [user.inside] using (Bool.and_eq_true_iff.mp (Bool.and_eq_true_iff.mp member).1).2

/-- What a call of do_signals has still to come to is what it had to before. -/
theorem round_left (d : Delivery) (user : UserSignal sig) (running : Option Nat)
    (left : (SigFrame.doSignals ⟨d.oldSigmask, d.signal + 1, d.sigpend >>> 1, running⟩).holds sig = true ∨
      (d.signal = sig ∧ d.sigpend &&& 1#32 ≠ 0#32)) : (SigFrame.doSignals d).holds sig = true := by
  have count := round_holds d user.inside running
  have some : 0 < ((SigFrame.doSignals d).holds sig).toNat := by
    rcases left with later | now
    · rw [later] at count
      rw [count]
      exact Nat.lt_of_lt_of_le Nat.one_pos (Nat.le_add_left ..)
    · rw [if_pos now] at count
      rw [count]
      exact Nat.lt_of_lt_of_le Nat.one_pos (Nat.le_add_right ..)
  cases here : (SigFrame.doSignals d).holds sig
  · rw [here] at some
    cases some
  · rfl

theorem round_guarded (guarded : ∀ t, HandlersBlocked (s.kernel.sigmask t) (s.frames t)) {d : Delivery}
    (inner : s.frames s.kernel.currentThread = .doSignals d :: fs) (t : T) :
    HandlersBlocked ((s.round d fs).1.kernel.sigmask t) ((s.round d fs).1.frames t) := by
  have others : ∀ mask t, t ≠ s.kernel.currentThread → (setSigmask mask s.kernel).sigmask t = s.kernel.sigmask t := by
    intro mask t other
    rw [setSigmask_mask, if_neg other]
  have here := guarded s.kernel.currentThread
  rw [inner] at here
  obtain ⟨_, apart, below⟩ := here
  have next : ∀ running, (∀ n, running = some n → n = d.signal ∧ d.sigpend &&& 1#32 ≠ 0#32) →
      HandlersBlocked (d.oldSigmask ||| (s.table d.signal).saMask ||| (1#32 <<< d.signal))
        (.doSignals ⟨d.oldSigmask, d.signal + 1, d.sigpend >>> 1, running⟩ :: fs) := by
    intro running called
    refine ⟨fun sig user handling => ?_, fun sig user either => ?_, below⟩
    · show isbitset (setbit (d.oldSigmask ||| (s.table d.signal).saMask) d.signal) sig = true
      rw [isbitset_setbit _ user.inside, isbitset_or _ _ user.inside]
      rcases handling_cons.mp handling with own | later
      · rw [decide_eq_true (called sig own).1, Bool.or_true]
      · have kept : isbitset d.oldSigmask sig = true := below.masks user later
        rw [kept]
        rfl
    · apply apart sig user
      right
      apply round_left d user running
      rcases either with own | later
      · exact Or.inr ⟨(called sig own).1.symm, (called sig own).2⟩
      · exact Or.inl later
  unfold Signals.round
  by_cases goes : d.signal < 32 ∧ d.sigpend ≠ 0#32
  · simp only [if_pos goes]
    by_cases called : d.sigpend &&& 1#32 ≠ 0#32
    · simp only [if_pos called]
      refine become_guarded guarded (others _) ?_ t
      rw [setSigmask_mask, if_pos rfl]
      apply next
      intro n same
      split at same
      · cases same
        exact ⟨rfl, called⟩
      · cases same
    · simp only [if_neg called]
      refine become_guarded guarded (others _) ?_ t
      rw [setSigmask_mask, if_pos rfl]
      exact next none fun n same => by cases same
  · simp only [if_neg goes]
    refine become_guarded guarded (others _) ?_ t
    rw [setSigmask_mask, if_pos rfl]
    exact below

theorem sigmask_others (how : Int) (set : Option Word) (k : Kernel T) (other : t ≠ k.currentThread) :
    (pthreadSigmaskSys how set k).1.sigmask t = k.sigmask t := by
  have kept : ∀ mask, (setSigmask mask k).sigmask t = k.sigmask t := by
    intro mask
    rw [setSigmask_mask, if_neg other]
  unfold pthreadSigmaskSys
  cases set with
  | none => rfl
  | some set =>
    simp only
    split
    · exact kept _
    · split
      · exact kept _
      · split
        · exact kept _
        · rfl

theorem sigsuspendMask_others (mask : Option Word) (k : Kernel T) (other : t ≠ k.currentThread) :
    (sigsuspendMask mask k).sigmask t = k.sigmask t := by
  cases mask with
  | none => rfl
  | some mask => exact (setSigmask_mask ..).trans (if_neg other)

theorem sigactionSys_mask (h : KernelHandlers) (sig : Int) (act : Option Sigaction) (table : Nat → Sigaction)
    (k : Kernel T) : (sigactionSys h sig act table k).kernel.sigmask = k.sigmask := by
  unfold sigactionSys
  split
  · rfl
  · cases act with
    | none => rfl
    | some act => rfl

theorem sigsuspend_handling (oldMask : Word) : Handling (.sigsuspend oldMask :: fs) sig ↔ Handling fs sig := by
  rw [handling_cons]
  exact or_iff_right nofun

theorem step_guarded (guarded : ∀ t, HandlersBlocked (s.kernel.sigmask t) (s.frames t)) {l : SigLabel T} (keeps : l.Keeps s)
    (taken : s.step h l = some (w, es)) (t : T) : HandlersBlocked (w.kernel.sigmask t) (w.frames t) := by
  cases l with
  | create addr =>
    cases addr with
    | none =>
      cases taken
      exact guarded t
    | some u =>
      cases taken
      show HandlersBlocked (Function.update s.kernel.sigmask u _ t) (Function.update s.frames u [] t)
      by_cases own : t = u
      · subst own
        rw [Function.update_self, Function.update_self]
        trivial
      · rw [Function.update_of_ne own, Function.update_of_ne own]
        exact guarded t
  | kill u n =>
    cases taken
    show HandlersBlocked ((pthreadKillSys u n s.kernel).1.sigmask t) (s.frames t)
    rw [(pthreadKillSys_signals u n s.kernel).2.1]
    exact guarded t
  | sigmask how set =>
    cases taken
    show HandlersBlocked ((pthreadSigmaskSys how set s.kernel).1.sigmask t) (s.frames t)
    by_cases own : t = s.kernel.currentThread
    · subst own
      exact (guarded _).remask keeps
    · rw [sigmask_others how set s.kernel own]
      exact guarded t
  | sigaction n act =>
    cases taken
    show HandlersBlocked ((sigactionSys h n act s.table s.kernel).kernel.sigmask t) (s.frames t)
    rw [sigactionSys_mask]
    exact guarded t
  | sigwait set =>
    simp only [Signals.step] at taken
    split at taken
    · rename_i k n took
      cases taken
      obtain ⟨_, _, _, rfl⟩ := takeWaited_some took
      exact guarded t
    · cases taken
      exact guarded t
  | sigsuspend mask =>
    cases taken
    refine become_guarded guarded (fun t other => sigsuspendMask_others mask s.kernel other) ?_ t
    refine ⟨fun sig user handling => keeps sig user ((sigsuspend_handling _).mp handling), fun sig user either => ?_,
      guarded _⟩
    rcases either with no | no
    · cases no
    · cases no
  | doSignals =>
    cases taken
    have masks : (takeSignals s.kernel).1.sigmask = s.kernel.sigmask := rfl
    have took : (takeSignals s.kernel).2 = deliverable s.kernel := by rw [takeSignals_eq]
    refine become_guarded guarded (fun t _ => congrFun masks t) ?_ t
    rw [masks]
    refine ⟨fun sig user handling => ?_, fun sig user either handling => ?_, guarded _⟩
    · rcases handling_cons.mp handling with no | later
      · cases no
      · exact (guarded _).masks user later
    · rcases either with no | new
      · cases no
      · have blocked := (guarded _).masks user handling
        simp only [SigFrame.holds, Nat.zero_le, decide_true, Bool.true_and, Nat.sub_zero] at new
        have member : isbitset (takeSignals s.kernel).2 sig = true := new
        rw [took] at member
        rw [deliverable_user s.kernel user member] at blocked
        cases blocked
  | proceed =>
    simp only [Signals.step] at taken
    split at taken
    · cases taken
    · rename_i oldMask fs inner
      cases taken
      have here := guarded s.kernel.currentThread
      rw [inner] at here
      refine become_guarded guarded (fun t other => ?_) ?_ t
      · rw [setSigmask_mask, if_neg other]
      · rw [setSigmask_mask, if_pos rfl]
        exact here.2.2
    · rename_i d fs inner
      have next := round_guarded guarded inner t
      rw [Option.some.inj taken] at next
      exact next
  | others k =>
    cases taken
    exact guarded t

/-- In a run the handlers of user signals that a thread is in are all blocked, and no such
    handler is in progress twice, exactly if whoever changes the mask inside leaves them
    blocked. -/
theorem handlers_once (h : KernelHandlers) (k : Kernel T) (ls : List (SigLabel T)) (x : Signals T)
    (es : List (SigEvent T)) (run : Lts.exec (Signals.step h) (.start h k) ls = some (x, es)) :
    (∀ before after y past, ls = before ++ after → Lts.exec (Signals.step h) (.start h k) before = some (y, past) →
        ∀ t sig, UserSignal sig → Handling (y.frames t) sig → isbitset (y.kernel.sigmask t) sig = true ∧
          (y.frames t).countP (fun f => f.running = some sig) = 1) ↔
      Lts.Along (Signals.step h) (fun s l => l.Keeps s) (.start h k) ls := by
  constructor
  · intro blocked
    rw [Lts.along_iff]
    intro before l after y past split reached
    rw [split] at run
    obtain ⟨z, first, taken, next⟩ := Lts.exec_next run reached
    have there := blocked (before ++ [l]) after z (past ++ first) (by rw [split]; simp) next
    cases l with
    | sigmask how set =>
      cases taken
      intro sig user handling
      exact (there y.kernel.currentThread sig user handling).1
    | sigsuspend mask =>
      cases taken
      intro sig user handling
      have still : Handling ((y.become (sigsuspendMask mask y.kernel)
          (.sigsuspend (y.kernel.sigmask y.kernel.currentThread) :: y.frames y.kernel.currentThread)).frames
          y.kernel.currentThread) sig := by
        show Handling (Function.update y.frames y.kernel.currentThread _ y.kernel.currentThread) sig
        rw [Function.update_self, sigsuspend_handling]
        exact handling
      exact (there y.kernel.currentThread sig user still).1
    | _ => trivial
  · intro along before after y past split reached t sig user handling
    rw [split] at along
    have outside : ∀ t, HandlersBlocked ((Signals.start h k).kernel.sigmask t) ((Signals.start h k).frames t) :=
      fun _ => trivial
    have guarded : ∀ t, HandlersBlocked (y.kernel.sigmask t) (y.frames t) :=
      Lts.exec_keeps (fun s : Signals T => ∀ t, HandlersBlocked (s.kernel.sigmask t) (s.frames t))
        (fun s l w es inv keeps taken => step_guarded inv keeps taken) before outside along.of_append reached
    refine ⟨(guarded t).masks user handling, Nat.le_antisymm ((guarded t).once user) ?_⟩
    obtain ⟨f, member, same⟩ := handling
    exact List.countP_pos_iff.mpr ⟨f, member, decide_eq_true same⟩

end

def lastAct (sig : Nat) (es : List (SigEvent T)) : Sigaction :=
  es.foldl (fun act e =>
    match e with
    | .installed n new => if n = sig then new else act
    | _ => act) ⟨sigIgn, 1#32 <<< sig⟩

/-- The address of neither of the two handlers that sigaction_sys replaces. -/
def KernelHandlers.Foreign (h : KernelHandlers) (act : Sigaction) : Prop :=
  act.saHandler = sigDfl ∨ act.saHandler = sigIgn ∨ act.saHandler ≠ h.dfl ∧ act.saHandler ≠ h.ign

def KernelHandlers.entry (h : KernelHandlers) (past : List (SigEvent T)) (sig : Nat) : Sigaction :=
  if (sig : Int) < firstUserSignal then h.table sig else h.installed (lastAct sig past)

def SigEvent.Right (h : KernelHandlers) (past : List (SigEvent T)) : SigEvent T → Prop
  | .reported sig oact => oact = h.reported (h.entry past sig) ∧ firstUserSignal ≤ sig
  | .handled _ sig handler => handler = (h.entry past sig).saHandler
  | _ => True

def AllRight (h : KernelHandlers) (es : List (SigEvent T)) : Prop :=
  ∀ past e later, es = past ++ e :: later → e.Right h past

structure Signals.Recorded (h : KernelHandlers) (s : Signals T) (past : List (SigEvent T)) : Prop where
  table : ∀ sig, s.table sig = h.entry past sig
  right : AllRight h past

section
variable {h : KernelHandlers} {s w : Signals T} {past es : List (SigEvent T)} {e : SigEvent T}

omit [DecidableEq T] in
theorem AllRight.snoc (right : AllRight h past) (last : e.Right h past) : AllRight h (past ++ [e]) := by
  intro before f later split
  rcases List.append_eq_append_iff.mp split with ⟨rest, rfl, tail⟩ | ⟨rest, rfl, tail⟩
  · cases rest with
    | nil =>
      cases tail
      rw [List.append_nil]
      exact last
    | cons g rest => simp at tail
  · cases rest with
    | nil =>
      cases tail
      rw [List.append_nil] at last
      exact last
    | cons g rest =>
      cases tail
      exact right before f rest rfl

omit [DecidableEq T] in
theorem lastAct_snoc (sig : Nat) (past : List (SigEvent T)) (e : SigEvent T) :
    lastAct sig (past ++ [e]) =
      match e with
      | .installed n new => if n = sig then new else lastAct sig past
      | _ => lastAct sig past := by
  rw [lastAct, List.foldl_append, List.foldl_cons, List.foldl_nil]
  cases e <;> rfl

omit [DecidableEq T] in
theorem Signals.Recorded.event (recorded : s.Recorded h past) (table : w.table = s.table) (right : e.Right h past)
    (keeps : ∀ sig, lastAct sig (past ++ [e]) = lastAct sig past) : w.Recorded h (past ++ [e]) := by
  refine ⟨fun sig => ?_, recorded.right.snoc right⟩
  rw [table, recorded.table sig, KernelHandlers.entry, KernelHandlers.entry, keeps sig]

theorem reported_installed (h : KernelHandlers) (act : Sigaction) :
    h.reported (h.installed act) = act ↔ h.Foreign act := by
  obtain ⟨handler, mask⟩ := act
  have apart := h.apart
  unfold KernelHandlers.reported KernelHandlers.installed KernelHandlers.Foreign
  simp only [Sigaction.mk.injEq, and_true]
  by_cases dfl : handler = sigDfl
  · simp [dfl]
  · by_cases ign : handler = sigIgn
    · simp [ign, Ne.symm apart, sigDfl, sigIgn]
    · simp only [dfl, ign, if_false, false_or]
      by_cases own : handler = h.dfl
      · simp only [own, if_true, ne_eq, not_true_eq_false, false_and, iff_false]
        intro same
        exact dfl (own.trans same.symm)
      · by_cases own' : handler = h.ign
        · simp only [own', Ne.symm apart, if_true, if_false, ne_eq, not_true_eq_false, and_false, iff_false]
          intro same
          exact ign (own'.trans same.symm)
        · simp [own, own']

theorem sigaction_recorded (recorded : s.Recorded h past) (n : Int) (act : Option Sigaction) :
    let r := sigactionSys h n act s.table s.kernel
    ({ s with kernel := r.kernel, table := r.table } : Signals T).Recorded h
      (past ++ if r.value = 0 then
        (r.oact.toList.map fun entry => SigEvent.reported n.toNat entry) ++
          act.toList.map fun entry => .installed n.toNat entry
      else []) := by
  by_cases outside : n < firstUserSignal ∨ nrsignals ≤ n
  · have failed : sigactionSys h n act s.table s.kernel = ⟨setErrno eintr s.kernel, s.table, -1, none⟩ := if_pos outside
    have value : ¬(-1 : Int) = 0 := by decide
    simp only [failed, if_neg value, List.append_nil]
    exact ⟨recorded.table, recorded.right⟩
  · have user : firstUserSignal ≤ (n.toNat : Int) := by
      unfold firstUserSignal at *
      omega
    have system : ¬(n.toNat : Int) < firstUserSignal := not_lt.mpr user
    have oact : (SigEvent.reported n.toNat (h.reported (s.table n.toNat)) : SigEvent T).Right h past :=
      ⟨by rw [recorded.table], user⟩
    have first : ∀ table, (∀ sig, table sig = s.table sig) → Signals.Recorded h ({ s with table := table } : Signals T)
        (past ++ [.reported n.toNat (h.reported (s.table n.toNat))]) := by
      intro table same
      refine recorded.event (funext same) oact fun sig => ?_
      rw [lastAct_snoc]
    cases act with
    | none =>
      have found : sigactionSys h n none s.table s.kernel =
          ⟨s.kernel, s.table, 0, some (h.reported (s.table n.toNat))⟩ := if_neg outside
      simp only [found, if_true, Option.toList_some, Option.toList_none, List.map_cons, List.map_nil, List.append_nil]
      exact first s.table fun _ => rfl
    | some act =>
      have found : sigactionSys h n (some act) s.table s.kernel =
          ⟨s.kernel, Function.update s.table n.toNat (h.installed act), 0,
            some (h.reported (s.table n.toNat))⟩ := if_neg outside
      simp only [found, if_true, Option.toList_some, List.map_cons, List.map_nil, List.cons_append, List.nil_append]
      have before := first s.table fun _ => rfl
      rw [List.append_cons]
      refine ⟨fun sig => ?_, before.right.snoc trivial⟩
      have last := lastAct_snoc (T := T) sig (past ++ [.reported n.toNat (h.reported (s.table n.toNat))])
        (.installed n.toNat act)
      show Function.update s.table n.toNat (h.installed act) sig = _
      rw [KernelHandlers.entry, last]
      by_cases same : sig = n.toNat
      · subst same
        rw [Function.update_self, if_neg system]
        simp only [if_true]
      · simp only [if_neg (Ne.symm same)]
        rw [Function.update_of_ne same]
        exact before.table sig

theorem round_recorded (recorded : s.Recorded h past) (d : Delivery) (fs : List SigFrame) :
    (s.round d fs).1.Recorded h (past ++ (s.round d fs).2) := by
  have quiet : ∀ k fs, (s.become k fs).Recorded h (past ++ []) := by
    intro k fs
    rw [List.append_nil]
    exact ⟨recorded.table, recorded.right⟩
  unfold Signals.round
  by_cases goes : d.signal < 32 ∧ d.sigpend ≠ 0#32
  · simp only [if_pos goes]
    by_cases called : d.sigpend &&& 1#32 ≠ 0#32
    · simp only [if_pos called]
      refine recorded.event rfl ?_ fun sig => lastAct_snoc ..
      show _ = _
      rw [recorded.table]
    · simp only [if_neg called]
      exact quiet _ _
  · simp only [if_neg goes]
    exact quiet _ _

theorem step_recorded (recorded : s.Recorded h past) {l : SigLabel T} (taken : s.step h l = some (w, es)) :
    w.Recorded h (past ++ es) := by
  have quiet : ∀ k frames, (⟨k, s.table, frames⟩ : Signals T).Recorded h (past ++ []) := by
    intro k frames
    rw [List.append_nil]
    exact ⟨recorded.table, recorded.right⟩
  cases l with
  | create addr =>
    cases addr with
    | none =>
      cases taken
      exact quiet _ _
    | some u =>
      cases taken
      exact recorded.event rfl trivial fun sig => lastAct_snoc ..
  | kill u n =>
    cases taken
    show Signals.Recorded h ({ s with kernel := (pthreadKillSys u n s.kernel).1 } : Signals T)
      (past ++ if (pthreadKillSys u n s.kernel).2 = 0 then _ else [])
    by_cases valid : (pthreadKillSys u n s.kernel).2 = 0
    · rw [if_pos valid]
      exact recorded.event rfl trivial fun sig => lastAct_snoc ..
    · rw [if_neg valid]
      exact quiet _ _
  | sigaction n act =>
    cases taken
    exact sigaction_recorded recorded n act
  | sigwait set =>
    simp only [Signals.step] at taken
    split at taken
    · cases taken
      exact recorded.event rfl trivial fun sig => lastAct_snoc ..
    · cases taken
      exact quiet _ _
  | proceed =>
    simp only [Signals.step] at taken
    split at taken
    · cases taken
    · cases taken
      exact quiet _ _
    · rename_i d fs _
      have next := round_recorded recorded d fs
      rw [Option.some.inj taken] at next
      exact next
  | sigmask how set =>
    cases taken
    exact quiet _ _
  | sigsuspend mask =>
    cases taken
    exact quiet _ _
  | doSignals =>
    cases taken
    exact quiet _ _
  | others k =>
    cases taken
    exact quiet _ _

omit [DecidableEq T] in
theorem start_recorded (h : KernelHandlers) (k : Kernel T) : (Signals.start h k).Recorded h [] := by
  constructor
  · intro sig
    show h.table sig = h.entry [] sig
    unfold KernelHandlers.entry
    split
    · rfl
    · rename_i user
      unfold firstUserSignal at user
      have one : ¬sig = 1 := by omega
      have two : ¬sig = 2 := by omega
      have three : ¬sig = 3 := by omega
      have other : ¬sigIgn = sigDfl := by decide
      simp [KernelHandlers.table, KernelHandlers.installed, lastAct, one, two, three, other]
  · intro past e later split
    simp at split

theorem sigaction_history (h : KernelHandlers) (k : Kernel T) (ls : List (SigLabel T)) (x : Signals T)
    (es : List (SigEvent T)) (run : Lts.exec (Signals.step h) (.start h k) ls = some (x, es))
    (past later : List (SigEvent T)) :
    (∀ sig oact, es = past ++ .reported sig oact :: later → (oact = lastAct sig past ↔ h.Foreign (lastAct sig past))) ∧
      ∀ t sig handler, es = past ++ .handled t sig handler :: later →
        handler = (if (sig : Int) < firstUserSignal then h.table sig else h.installed (lastAct sig past)).saHandler := by
  have recorded : x.Recorded h es :=
    Lts.exec_invariant (fun s past => s.Recorded h past) (fun s past l w first inv _ taken => step_recorded inv taken)
      ls (start_recorded h k) (Lts.along_trivial ls _) run
  constructor
  · intro sig oact split
    obtain ⟨value, user⟩ := recorded.right past _ later split
    rw [value, KernelHandlers.entry, if_neg (not_lt.mpr user)]
    exact reported_installed h _
  · intro t sig handler split
    exact recorded.right past _ later split

end

def historyRun : List (SigLabel (Fin 2)) :=
  [.sigaction 8 (some ⟨0x8000#32, 0#32⟩), .kill 1 8, .doSignals] ++ List.replicate 9 .proceed ++
    [.sigaction 8 (some ⟨0x9000#32, 0#32⟩)]

theorem sigaction_history_twice :
    ∃ x es past, Lts.exec (Signals.step someHandlers) (.start someHandlers twoThreads) historyRun = some (x, es) ∧
      es = past ++ [.reported 8 ⟨0x8000#32, 0#32⟩, .installed 8 ⟨0x9000#32, 0#32⟩] ∧
      lastAct 8 past = ⟨0x8000#32, 0#32⟩ := by
  obtain ⟨⟨x, es⟩, run, found⟩ := Option.map_eq_some_iff.mp
    (by decide +kernel : (Lts.exec (Signals.step someHandlers) (.start someHandlers twoThreads) historyRun).map
      Prod.snd = some ([.reported 8 ⟨sigIgn, 0x100#32⟩, .installed 8 ⟨0x8000#32, 0#32⟩, .posted 1 8 false,
        .handled 1 8 0x8000#32] ++ [.reported 8 ⟨0x8000#32, 0#32⟩, .installed 8 ⟨0x9000#32, 0#32⟩]))
  have history := (sigaction_history someHandlers twoThreads historyRun x es run _ _).1 8 _ found
  exact ⟨x, es, _, run, found, (history.mpr (by unfold KernelHandlers.Foreign; decide)).symm⟩

def nestedRun : List (SigLabel (Fin 2)) :=
  [.sigaction 8 (some ⟨0x8000#32, 0#32⟩), .kill 1 8, .doSignals] ++ List.replicate 9 .proceed ++
    [.kill 1 8, .doSignals]

theorem handlers_once_nested :
    ∃ x es, Lts.exec (Signals.step someHandlers) (.start someHandlers twoThreads) nestedRun = some (x, es) ∧
      isbitset (x.kernel.sigmask 1) 8 = true ∧ (x.frames 1).countP (fun f => f.running = some 8) = 1 := by
  obtain ⟨⟨x, es⟩, run, found⟩ := Option.map_eq_some_iff.mp
    (by decide +kernel : (Lts.exec (Signals.step someHandlers) (.start someHandlers twoThreads) nestedRun).map
      (fun q => (q.1.frames 1).map SigFrame.running) = some [none, some 8])
  have keeps : ∀ l ∈ nestedRun, ∀ s, l.Keeps s := by
    simp [nestedRun, SigLabel.Keeps]
  have along : Lts.Along (Signals.step someHandlers) (fun s l => l.Keeps s) (.start someHandlers twoThreads)
      nestedRun := (Lts.along_of_forall keeps).mono fun s l each => each s
  have handling : Handling (x.frames 1) 8 := by
    have member : some 8 ∈ (x.frames 1).map SigFrame.running := by
      rw [found]
      decide
    obtain ⟨f, inside, same⟩ := List.mem_map.mp member
    exact ⟨f, inside, same⟩
  exact ⟨x, es, run, (handlers_once someHandlers twoThreads nestedRun x es run).mpr along nestedRun [] x es (by simp)
    run 1 8 (by unfold UserSignal; decide) handling⟩

/-- A handler that unblocks its own signal is entered again. -/
example : (Lts.exec (Signals.step someHandlers) (.start someHandlers twoThreads)
      ([.sigaction 8 (some ⟨0x8000#32, 0#32⟩), .kill 1 8, .doSignals] ++ List.replicate 9 .proceed ++
        [.sigmask sigUnblock (some 0x100#32), .kill 1 8, .doSignals] ++ List.replicate 9 .proceed)).map
    (fun q => (q.1.frames 1).countP fun f => f.running = some 8) = some 2 := by decide +kernel

end L4ertl
