import L4ertl.System.IdleSafe

/-!
What holds in every state of the running system: the kernel's data are sound,
the thread that runs is READY, and so is the idle thread, whatever happens.
-/
namespace L4ertl
open Intrusive
variable {T : Type} [DecidableEq T] [Fintype T]

theorem Work.run_ok {w : Work T} {env : Env} {k x : Kernel T} {pr : Progress} (ok : KernelOk k)
    (ready : k.state k.currentThread = readyThread) (legal : w.Legal k = true)
    (ran : w.run env k = .ok (x, pr)) : CallOk k x pr := by
  cases w with
  | irq => exact doIrq_ok ok ready ran
  | call c =>
    cases c with
    | mutexLock m =>
      obtain ⟨rfl, rfl⟩ := ran_pair ran
      exact pthreadMutexLockSys_ok ok ready m
    | mutexTrylock m =>
      obtain ⟨rfl, rfl⟩ := ran_pair ran
      exact pthreadMutexTrylockSys_ok ok ready m
    | mutexUnlock m =>
      obtain ⟨rfl, rfl⟩ := ran_pair ran
      exact pthreadMutexUnlockSys_ok ok ready m
    | condSignal c =>
      obtain ⟨rfl, rfl⟩ := ran_pair ran
      exact pthreadCondSignalSys_ok ok c
    | condBroadcast c =>
      obtain ⟨rfl, rfl⟩ := ran_pair ran
      exact pthreadCondBroadcastSys_ok ok c
    | condWait c m =>
      obtain ⟨rfl, rfl⟩ := ran_pair ran
      exact pthreadCondWaitSys_ok ok ready c m
    | semWait s =>
      obtain ⟨rfl, rfl⟩ := ran_pair ran
      exact semWaitSys_ok ok ready s
    | semTrywait s =>
      obtain ⟨rfl, rfl⟩ := ran_pair ran
      exact semTrywaitSys_ok ok ready s
    | semPost s =>
      obtain ⟨rfl, rfl⟩ := ran_pair ran
      exact semPostSys_ok ok ready s
    | kill t sig =>
      obtain ⟨rfl, rfl⟩ := ran_pair ran
      simp only [Work.Legal, Call.Legal, Bool.and_eq_true] at legal
      exact pthreadKillSys_ok ok ready legal.1.1 sig _
    | cancel t =>
      obtain ⟨rfl, rfl⟩ := ran_pair ran
      simp only [Work.Legal, Call.Legal, Bool.and_eq_true] at legal
      exact pthreadCancelSys_ok ok ready legal.1.1 _
    | create addr stack attr =>
      obtain ⟨rfl, rfl⟩ := ran_pair ran
      apply pthreadCreateSys_ok ok ready
      intro a here
      subst here
      simpa [Work.Legal, Call.Legal] using legal
    | setschedparam t policy param =>
      obtain ⟨rfl, rfl⟩ := ran_pair ran
      simp only [Work.Legal, Call.Legal, Bool.and_eq_true] at legal
      exact pthreadSetschedparamSys_ok ok ready legal.1.1 policy param
    | yield =>
      obtain ⟨rfl, rfl⟩ := ran_pair ran
      exact pthreadYieldSys_ok ok ready
    | exit =>
      obtain ⟨exited, rfl⟩ := ran_exit ran
      exact ⟨pthreadExitSys_sound ok exited, fun v same => by cases same⟩
    | timerCreate clockid evp =>
      obtain ⟨v, created, rfl⟩ := ran_timerCreate ran
      exact timerCreateSys_ok ok ready created
    | timerDelete id =>
      obtain ⟨v, deleted, rfl⟩ := ran_timerDelete ran
      exact timerDeleteSys_ok ok ready deleted
    | timerSettime id flags value =>
      obtain ⟨v, o, set, rfl⟩ := ran_timerSettime ran
      exact timerSettimeSys_ok ok ready set
    | usleep usec =>
      obtain ⟨slept, rfl⟩ := ran_usleep ran
      exact ⟨sleepFor_sound ok slept, fun v same => by cases same⟩

structure MoveOk (k x : Kernel T) (outcome : Outcome) : Prop where
  sound : Sound k.currentThread k x
  stays : (∀ p, outcome ≠ .sched p) → x.state k.currentThread = readyThread

omit [DecidableEq T] [Fintype T] in
theorem CallOk.move {k x : Kernel T} {pr : Progress} (call : CallOk k x pr) :
    MoveOk k x pr.outcome := by
  refine ⟨call.sound, fun returns => ?_⟩
  cases pr with
  | ret v => exact call.stays v rfl
  | sched p => exact absurd rfl (returns p)

omit [Fintype T] in
theorem Delivered.move {rounds : Nat} {k x : Kernel T} {p : Option Point} (ok : KernelOk k)
    (ready : k.state k.currentThread = readyThread) (delivered : Delivered rounds k x p) :
    MoveOk k x (signalOutcome rounds p) := by
  cases delivered with
  | ended sig =>
    have call := ok.woken_ok ready (P := fun _ => False) (.book sig.book) nofun
      (sig.owners.alive ok.refs) 0
    exact ⟨call.sound, fun _ => call.stays 0 rfl⟩
  | stopped mask next rest sig stop =>
    have taken : Sound k.currentThread k _ := ok.book sig.book (sig.owners.alive ok.refs)
    have stopped := stop.sound taken.ok
    rw [taken.current] at stopped
    exact ⟨taken.trans stopped, fun returns => absurd rfl (returns _)⟩

omit [Fintype T] in
theorem Point.run_ok {p : Point} {env : Env} {k x : Kernel T} {outcome : Outcome} (ok : KernelOk k)
    (ready : k.state k.currentThread = readyThread) (ran : p.run env k = .ok (x, outcome)) :
    MoveOk k x outcome := by
  cases p with
  | done =>
    cases ran
    exact ⟨.refl ok, fun _ => ready⟩
  | lockLoop m =>
    cases ran
    exact (pthreadMutexLockSys_ok ok ready m).move
  | condUnlocked c m =>
    cases ran
    exact (condBlock_ok ok c m).move
  | condWoken m =>
    cases ran
    exact (condRelock_ok ok ready m).move
  | condLock m =>
    cases ran
    exact (condRelock_ok ok ready m).move
  | semWait s =>
    cases ran
    exact (semTake_ok ok ready s).move
  | semPost s =>
    cases ran
    exact (semGive_ok ok ready s).move
  | slept d =>
    obtain ⟨pr, finished, rfl⟩ := ran_slept ran
    simp only [usleepDone, bind, bind_ok, pure, Except.pure, Except.ok.injEq] at finished
    obtain ⟨rest, _, finished⟩ := finished
    split at finished
    · cases finished
      exact ⟨ok.errno eintr, fun _ => ready⟩
    · cases finished
      exact ⟨.refl ok, fun _ => ready⟩
  | leave rounds =>
    cases rounds with
    | zero =>
      cases ran
      exact ⟨.refl ok, fun _ => ready⟩
    | succ rounds =>
      obtain ⟨q, signals, rfl⟩ := ran_leave ran
      exact (doSignals_delivered signals).move ok ready
  | signals mask signal pend rounds =>
    obtain ⟨q, signals, rfl⟩ := ran_signals ran
    exact (signalLoop_delivered _ signals).move ok ready

section
omit [Fintype T]

theorem ij2prio_injective {c d : Cell} (same : ij2prio c = ij2prio d) : c = d := by
  have boundC := c.2.isLt
  have boundD := d.2.isLt
  simp only [ij2prio] at same
  exact Prod.ext (Fin.ext (by omega)) (Fin.ext (by omega))

omit [DecidableEq T] in
/-- A pending request is no interrupt. -/
theorem outside_free {k : Kernel T}
    (outside : k.irqNestingCounter = 0#32 ∨ k.irqNestingCounter = schedPending) :
    ¬k.irqNestingCounter &&& outsideIrqs ≠ 0#32 := by
  rcases outside with idle | waits
  · rw [idle]; decide
  · rw [waits]; decide

theorem scheduling_head {k : Kernel T} {r : ReadyModel T} (inv : ReadyInv k r)
    (outside : k.irqNestingCounter = 0#32 ∨ k.irqNestingCounter = schedPending) {d : Cell}
    (busy : r.lists d ≠ []) (now : Duration) :
    (∃ c, (r.lists c).head? = some (scheduling now k).currentThread ∧
      ∀ e, r.lists e ≠ [] → ij2prio c ≤ ij2prio e) ∧
    ((scheduling now k).irqNestingCounter = 0#32 ∨
      (scheduling now k).irqNestingCounter = schedPending) := by
  have free := outside_free outside
  obtain ⟨c, t, head, first, urgent⟩ := getHeadSs_urgent inv.rep busy
  simp only [scheduling, if_neg free, head, Option.getD_some]
  split
  · simp only [contextSwitchTo, allocKstack]
    split
    · exact ⟨⟨c, first, urgent⟩, outside⟩
    · exact ⟨⟨c, first, urgent⟩, Or.inl rfl⟩
  · rename_i same
    rw [not_not] at same
    exact ⟨⟨c, by rw [first, same], urgent⟩, Or.inl rfl⟩

omit [DecidableEq T] in
theorem KernelOk.switch {k w : Kernel T} (ok : KernelOk k) (only : SwitchOnly k w)
    (current : k.live w.currentThread = true)
    (irq : w.irqNestingCounter = 0#32 ∨ w.irqNestingCounter = schedPending) : KernelOk w := by
  obtain ⟨r, inv⟩ := ok.ready
  have refs := ok.refs
  have live := congrArg Kernel.live only
  have idle := congrArg Kernel.idleThread only
  refine ⟨⟨r, only.readyInv inv⟩, ?_, ?_, ?_, irq⟩
  · rw [only]
    exact ⟨refs.mutexes, refs.conds, refs.sems, refs.owners, refs.joiners⟩
  · rw [live]
    exact current
  · rw [live, idle]
    exact ok.idle

omit [DecidableEq T] in
theorem SwitchOnly.state {k w : Kernel T} (only : SwitchOnly k w) (t : T) : w.state t = k.state t := by
  have flags := congrArg Kernel.threadFlags only
  exact Kernel.state_of_flags flags t

theorem scheduling_ok {k : Kernel T} (ok : KernelOk k)
    (idling : k.state k.idleThread = readyThread) (now : Duration) :
    KernelOk (scheduling now k) ∧
      (scheduling now k).state (scheduling now k).currentThread = readyThread := by
  obtain ⟨r, inv⟩ := ok.ready
  have only := scheduling_only now k
  have queued : k.idleThread ∈ r.lists (prio2ij (k.prio k.idleThread)) :=
    (inv.listed _ _).mpr ⟨ok.idle, idling, rfl⟩
  obtain ⟨⟨c, head, _⟩, irq⟩ := scheduling_head inv ok.irq (List.ne_nil_of_mem queued) now
  obtain ⟨alive, ready, _⟩ := (inv.listed _ _).mp (List.mem_of_mem_head? head)
  refine ⟨ok.switch only alive irq, ?_⟩
  rw [only.state]
  exact ready

end

structure SystemOk (s : System T) : Prop where
  kernel : KernelOk s.kernel
  running : s.kernel.state s.kernel.currentThread = readyThread
  idling : s.kernel.state s.kernel.idleThread = readyThread
  safe : IdleSafe s.kernel
  fits : ∀ t w p, s.cont t = some (w, p) → p.fits w
  inside : ∀ t w p, s.cont t = some (w, p) → s.kernel.live t = true
  idler : ∀ w p, s.cont s.kernel.idleThread = some (w, p) → p = .done ∨ ∃ rounds, p = .leave rounds

omit [Fintype T] in
theorem settle_ok {s : System T} (w : Work T) (env : Env) {k : Kernel T} {outcome : Outcome}
    (ok : KernelOk k) (stays : (∀ p, outcome ≠ .sched p) → k.state k.currentThread = readyThread)
    (safe : IdleSafe k) (idling : k.state k.idleThread = readyThread) :
    KernelOk (s.settle w env k outcome).1.kernel ∧
      (s.settle w env k outcome).1.kernel.state (s.settle w env k outcome).1.kernel.currentThread =
        readyThread ∧
      (s.settle w env k outcome).1.kernel.state (s.settle w env k outcome).1.kernel.idleThread =
        readyThread ∧
      IdleSafe (s.settle w env k outcome).1.kernel := by
  cases outcome with
  | ret v => exact ⟨ok, stays nofun, idling, safe⟩
  | next p => exact ⟨ok, stays nofun, idling, safe⟩
  | sched p =>
    have only := scheduling_only env.sched k
    obtain ⟨ok, running⟩ := scheduling_ok ok idling env.sched
    refine ⟨ok, running, ?_, safe.switch only⟩
    have idle := congrArg Kernel.idleThread only
    exact (only.state _).trans (idle ▸ idling)

theorem Work.run_idle {w : Work T} {env : Env} {k x : Kernel T} {pr : Progress} (ok : KernelOk k)
    (ready : k.state k.currentThread = readyThread) (legal : w.Legal k = true)
    (idle : k.currentThread = k.idleThread) (ran : w.run env k = .ok (x, pr)) :
    x.state k.currentThread = readyThread ∧
      ∀ p, pr = .sched p → p = .done ∨ ∃ rounds, p = .leave rounds := by
  cases w with
  | irq =>
    obtain ⟨y, woken, _, only, _, progress⟩ := doIrq_cases ok.irq ran
    constructor
    · rw [only]
      rcases woken.state k.currentThread with same | ⟨_, _, woke⟩
      · exact same.trans ready
      · exact woke
    · intro p eq
      rcases progress with asks | ⟨returns, _⟩
      · rw [asks] at eq
        cases eq
        exact Or.inr ⟨2, rfl⟩
      · rw [returns] at eq
        cases eq
  | call c =>
    cases c with
    | create addr stack attr =>
      obtain ⟨rfl, rfl⟩ := ran_pair ran
      constructor
      · apply pthreadCreateSys_ready ok ready
        intro a here
        subst here
        simpa [Work.Legal, Call.Legal] using legal
      · intro p eq
        left
        unfold pthreadCreateSys at eq
        split at eq
        · cases eq
        · cases addr with
          | none => cases eq
          | some a =>
            simp only [createPthreadStruct] at eq
            split at eq
            · cases eq
            · cases eq
              rfl
    | yield =>
      obtain ⟨rfl, rfl⟩ := ran_pair ran
      exact ⟨ready, fun p eq => by cases eq; exact Or.inl rfl⟩
    | _ => simp [Work.Legal, Call.Legal, idle] at legal

omit [Fintype T] in
theorem settle_table (s : System T) (w : Work T) (env : Env) (k : Kernel T) (outcome : Outcome) :
    (s.settle w env k outcome).1.kernel.live = k.live ∧
      (s.settle w env k outcome).1.kernel.idleThread = k.idleThread := by
  cases outcome with
  | ret v => exact ⟨rfl, rfl⟩
  | next p => exact ⟨rfl, rfl⟩
  | sched p =>
    have live := congrArg Kernel.live (scheduling_only env.sched k)
    have idle := congrArg Kernel.idleThread (scheduling_only env.sched k)
    exact ⟨live, idle⟩

omit [Fintype T] in
theorem Sound.idling {k x : Kernel T} (sound : Sound k.currentThread k x) (ok : KernelOk k)
    (idling : k.state k.idleThread = readyThread)
    (mine : k.currentThread = k.idleThread → x.state k.currentThread = readyThread) :
    x.state x.idleThread = readyThread := by
  rw [sound.idle]
  by_cases idle : k.currentThread = k.idleThread
  · rw [← idle]
    exact mine idle
  · rcases sound.others k.idleThread ok.idle (Ne.symm idle) with same | ⟨_, woke⟩
    · rw [same, idling]
    · exact woke

omit [Fintype T] in
theorem Point.run_idle {p : Point} {env : Env} {k x : Kernel T} {outcome : Outcome}
    (ready : k.state k.currentThread = readyThread) (quiet : k.sigpending k.currentThread = 0#32)
    (idler : p = .done ∨ ∃ rounds, p = .leave rounds) (ran : p.run env k = .ok (x, outcome)) :
    x.state k.currentThread = readyThread ∧ ∀ q, outcome.onward = some q → ∃ rounds, q = .leave rounds := by
  rcases idler with rfl | ⟨rounds, rfl⟩
  · cases ran
    exact ⟨ready, nofun⟩
  · cases rounds with
    | zero =>
      cases ran
      exact ⟨ready, nofun⟩
    | succ rounds =>
      obtain ⟨q, signals, rfl⟩ := ran_leave ran
      have ended := doSignals_none quiet signals
      subst ended
      cases doSignals_delivered signals with
      | ended sig =>
        have flags := congrArg Kernel.threadFlags sig.only
        constructor
        · exact (Kernel.state_of_flags flags _).trans ready
        · intro q eq
          simp only [signalOutcome, Outcome.onward] at eq
          split at eq
          · cases eq
          · cases eq
            exact ⟨rounds, rfl⟩

omit [Fintype T] in
theorem SystemOk.settle {s : System T} (inv : SystemOk s) (w : Work T) (env : Env) {k : Kernel T}
    (outcome : Outcome) (ok : KernelOk k) (idle : k.idleThread = s.kernel.idleThread)
    (live : ∀ u, s.kernel.live u = true → k.live u = true)
    (stays : (∀ p, outcome ≠ .sched p) → k.state k.currentThread = readyThread)
    (idling : k.state k.idleThread = readyThread) (safe : IdleSafe k)
    (idler : s.kernel.currentThread = s.kernel.idleThread →
      ∀ p, outcome.onward = some p → p = .done ∨ ∃ rounds, p = .leave rounds)
    (fits : ∀ p, outcome.onward = some p → p.fits w) : SystemOk (s.settle w env k outcome).1 := by
  obtain ⟨ok', running, idling', safe'⟩ := settle_ok (s := s) w env ok stays safe idling
  obtain ⟨alive, same⟩ := settle_table s w env k outcome
  refine ⟨ok', running, idling', safe', ?_, ?_, ?_⟩
  · intro t v p here
    rcases settle_cont here with ⟨_, before⟩ | ⟨_, rfl, onward | ⟨r, _, rfl⟩⟩
    · exact inv.fits t v p before
    · exact fits p onward
    · trivial
  · intro t v p here
    rw [alive]
    rcases settle_cont here with ⟨_, before⟩ | ⟨self, _⟩
    · exact live t (inv.inside t v p before)
    · rw [self]
      exact live _ inv.kernel.current
  · intro v p here
    rw [same, idle] at here
    rcases settle_cont here with ⟨_, before⟩ | ⟨self, rfl, onward | ⟨r, _, rfl⟩⟩
    · exact inv.idler v p before
    · exact idler self.symm p onward
    · exact Or.inr ⟨_, rfl⟩

theorem SystemOk.step {s x : System T} {l : Label T} {es : List (Event T)} (inv : SystemOk s)
    (taken : s.step l = some (x, es)) : SystemOk x := by
  have assemble : ∀ (w : Work T) (env : Env) (k : Kernel T) (outcome : Outcome),
      MoveOk s.kernel k outcome → IdleSafe k →
      (s.kernel.currentThread = s.kernel.idleThread → k.state s.kernel.currentThread = readyThread ∧
        ∀ p, outcome.onward = some p → p = .done ∨ ∃ rounds, p = .leave rounds) →
      (∀ p, outcome.onward = some p → p.fits w) → SystemOk (s.settle w env k outcome).1 := by
    intro w env k outcome move safe mine fits
    have idling := move.sound.idling inv.kernel inv.idling fun idle => (mine idle).1
    apply inv.settle w env outcome move.sound.ok move.sound.idle move.sound.live _ idling safe
      (fun idle => (mine idle).2) fits
    intro returns
    rw [move.sound.current]
    exact move.stays returns
  rcases step_cases taken with ⟨w, env, k, pr, _, _, legal, ran, rfl, _⟩ |
    ⟨w, p, env, k, outcome, _, here, ran, rfl, _⟩
  · apply assemble w env k pr.outcome (Work.run_ok inv.kernel inv.running legal ran).move
      (Work.run_safe inv.kernel inv.safe legal ran)
    · intro idle
      obtain ⟨ready, points⟩ := Work.run_idle inv.kernel inv.running legal idle ran
      refine ⟨ready, fun p onward => ?_⟩
      cases pr with
      | ret v => cases onward
      | sched q => exact points p (by cases onward; rfl)
    · intro p onward
      cases pr with
      | ret v => cases onward
      | sched q =>
        cases onward
        exact Work.run_fits ran
  · apply assemble w env k outcome (Point.run_ok inv.kernel inv.running ran)
      (Point.run_safe inv.safe ran)
    · intro idle
      have quiet : s.kernel.sigpending s.kernel.currentThread = 0#32 := by
        rw [idle]
        exact inv.safe.signals
      obtain ⟨ready, points⟩ := Point.run_idle inv.running quiet
        (inv.idler w p (idle ▸ here)) ran
      exact ⟨ready, fun q onward => Or.inr (points q onward)⟩
    · intro q onward
      exact Point.run_fits (inv.fits _ w p here) ran onward

end L4ertl
