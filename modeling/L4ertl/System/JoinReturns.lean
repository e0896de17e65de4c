import L4ertl.System.JoinDivided

/-!
The rendezvous of a thread and its joiner in whole runs with interrupts between the
statements, and a run in which the two miss each other.
-/
namespace L4ertl
open Intrusive
variable {T : Type} [DecidableEq T]

def DividedSystem.Returns [Fintype T] (s : DividedSystem T) (es : List (JoinEvent T)) : Prop :=
  ∃ n ≤ 6, (Lts.exec DividedSystem.step s (List.replicate n .next)).map Prod.snd = some es

def DividedSystem.joinPoint (s : DividedSystem T) (t : T) : Option JoinPoint :=
  s.here.head?.bind (Frame.joining t)

structure DividedSystem.Joinable [Fintype T] (s : DividedSystem T) (t : T) : Prop where
  handle : s.handle t = true
  magic : s.kernel.magicNumber t = pthreadMagicNumber
  flag : getThreadDetachState (s.kernel.threadFlags t) = 0#32
  active : s.settled.state t ≠ finishedThread
  here : s.exits t = []
  free : ∀ u, s.joins t u = []
  kept : ∀ u, ∀ f ∈ s.frames u, f.activity.removes ≠ some t

/-- The meeting of `t` and its joiner, with the events since `t` had none. -/
structure DividedSystem.Met [Fintype T] (t j : T) (s : DividedSystem T) (es : List (JoinEvent T)) : Prop where
  -- the call does not return before the exit, nor before the structure is given back,
  -- which happens once; it returns the value
  order : es.filter (JoinEvent.about t) = [] ∨ ∃ v, es.filter (JoinEvent.about t) = [.exited t v] ∨
    es.filter (JoinEvent.about t) = [.exited t v, .deleted t] ∨
    es.filter (JoinEvent.about t) = [.exited t v, .deleted t, .joined j t v]
  -- by then `t` runs no more
  away : JoinEvent.deleted t ∈ es → s.kernel.currentThread ≠ t
  -- before the last scheduling () of `t`, and from then on, a joiner that waits is READY,
  -- or was ended itself
  woken : ∀ v, JoinEvent.exited t v ∈ es → (s.kernel.currentThread = t → s.exits t = []) →
    ∀ p ∈ s.joins t j, p.sleeping = true →
      s.settled.state j = readyThread ∨ s.settled.state j = finishedThread
  -- when it runs it gets through, wherever it is in its call
  returns : ∀ v, es.filter (JoinEvent.about t) = [.exited t v] → s.active = true → s.rest = [] →
    ∀ p ∈ s.joinPoint t, p ≠ .call → s.Returns [.deleted t, .joined j t v]
  hands : ∀ v, es.filter (JoinEvent.about t) = [.exited t v, .deleted t] → s.active = true →
    ∀ p ∈ s.joinPoint t, s.Returns [.joined j t v]

section
variable [Fintype T] {t j : T} {s w : DividedSystem T} {d n : Nat} {fs : List (Frame T)}
  {es first later : List (JoinEvent T)}

theorem DividedSystem.next_top {a : Ongoing T} (here : s.here = ⟨d, a⟩ :: fs) (top : d = s.irq.here.length) :
    s.step .next = s.activityNext d fs a := by
  have active : s.active = true := by
    simp only [DividedSystem.active, here, top, decide_true]
  simp only [DividedSystem.step, here, active, if_true]

theorem DividedSystem.next_exec (taken : s.step .next = some (w, first))
    (rest : (Lts.exec DividedSystem.step w (List.replicate n .next)).map Prod.snd = some later) :
    (Lts.exec DividedSystem.step s (List.replicate (n + 1) .next)).map Prod.snd = some (first ++ later) := by
  obtain ⟨⟨x, es⟩, run, rfl⟩ := Option.map_eq_some_iff.mp rest
  rw [List.replicate_succ, Lts.exec, taken]
  simp only [run, Option.map_some]

theorem DividedSystem.next_silent (taken : s.step .next = some (w, []))
    (rest : (Lts.exec DividedSystem.step w (List.replicate n .next)).map Prod.snd = some later) :
    (Lts.exec DividedSystem.step s (List.replicate (n + 1) .next)).map Prod.snd = some later :=
  DividedSystem.next_exec taken rest

theorem DividedSystem.next_run (taken : s.step .next = some (w, first)) {x : DividedSystem T}
    (rest : Lts.exec DividedSystem.step w (List.replicate n .next) = some (x, later)) :
    Lts.exec DividedSystem.step s (List.replicate (n + 1) .next) = some (x, first ++ later) := by
  rw [List.replicate_succ, Lts.exec, taken]
  simp only [rest]

omit [Fintype T] in
theorem DividedSystem.setHere_setHere (gs hs : List (Frame T)) : (s.setHere gs).setHere hs = s.setHere hs := by
  simp only [DividedSystem.setHere, DividedSystem.kernel, Function.update_idem]

omit [Fintype T] in
theorem DividedSystem.setKernel_setHere {k : Kernel T} (gs hs : List (Frame T))
    (same : k.currentThread = s.kernel.currentThread) :
    ((s.setHere gs).setKernel k).setHere hs = (s.setKernel k).setHere hs := by
  simp only [DividedSystem.setHere, DividedSystem.setKernel, DividedSystem.kernel, same, Function.update_idem]

omit [Fintype T] in
theorem DividedSystem.operate_setHere (gs : List (Frame T)) (ops : List (SchedStmt T)) :
    (s.setHere gs).operate ops d fs = s.operate ops d fs := DividedSystem.setHere_setHere gs _

theorem DividedSystem.ops_run (ops : List (SchedStmt T)) (fs : List (Frame T)) (top : d = s.irq.here.length) :
    ∃ w, Lts.exec DividedSystem.step (s.operate ops d fs) (List.replicate ops.length .next) = some (w, []) ∧
      w.kernel = runStmts s.kernel ops ∧ w.here = fs ∧ w.irq.here = s.irq.here ∧
      w.exitValue = s.exitValue := by
  induction ops generalizing s with
  | nil => exact ⟨_, rfl, rfl, s.setHere_here fs, rfl, rfl⟩
  | cons stmt rest ih =>
    have current : (stmt.run s.kernel).currentThread = s.kernel.currentThread := by
      have only := congrArg Kernel.currentThread (stmt.run_only s.kernel)
      exact only
    have stays : (s.setKernel (stmt.run s.kernel)).irq.here = s.irq.here := congrArg s.irq.stack current
    have there : (s.operate (stmt :: rest) d fs).here = ⟨d, .ops (stmt :: rest)⟩ :: fs :=
      DividedSystem.operate_here ..
    have same : ((s.operate (stmt :: rest) d fs).setKernel (stmt.run s.kernel)).operate rest d fs =
        (s.setKernel (stmt.run s.kernel)).operate rest d fs := by
      simp only [DividedSystem.operate, DividedSystem.setHere, DividedSystem.setKernel,
        DividedSystem.kernel, current, Function.update_idem]
    obtain ⟨w, run, kernel, here, irq, value⟩ :=
      ih (s := s.setKernel (stmt.run s.kernel)) (top.trans (congrArg _ stays.symm))
    have taken : (s.operate (stmt :: rest) d fs).step .next =
        some ((s.setKernel (stmt.run s.kernel)).operate rest d fs, []) := by
      rw [← same]
      exact DividedSystem.next_top there top
    exact ⟨w, DividedSystem.next_run taken run, kernel, here, irq.trans stays, value⟩

/-- With nothing in between, the statements of pthread_join_sys up to its scheduling () do
    what the undivided call does. -/
theorem join_undivided (calls : s.calls = true) (handle : s.handle t = true)
    (busy : s.kernel.currentThread ≠ s.kernel.idleThread)
    (magic : s.kernel.magicNumber t = pthreadMagicNumber)
    (flag : getThreadDetachState (s.kernel.threadFlags t) = 0#32)
    (active : s.kernel.state t ≠ finishedThread) :
    ∃ w, Lts.exec DividedSystem.step s (.join t :: List.replicate 7 .next) = some (w, []) ∧
      w.kernel = (pthreadJoinSys t s.kernel).1 ∧ w.here = [⟨0, .join t .call⟩] := by
  have here : s.here = [] ∧ s.irq.here = [] := by
    simp only [DividedSystem.calls, Bool.and_eq_true, List.isEmpty_iff] at calls
    exact calls
  have depth : s.irq.here.length = 0 := by rw [here.2]; rfl
  have begins : s.step (.join t) = some (s.begin_ (.join t .start), []) := by
    have may : (s.calls && s.handle t && s.kernel.currentThread != s.kernel.idleThread) = true := by
      rw [calls, handle, bne_iff_ne.mpr busy]
      rfl
    simp only [DividedSystem.step, may, if_true]
  have kernel : (pthreadJoinSys t s.kernel).1 = runStmts (setJoining t (some s.kernel.currentThread) s.kernel)
      (suspendStmts s.kernel.currentThread) := by
    simp only [pthreadJoinSys, joinLoop, magic, flag, ne_eq, not_true, if_false, active, not_false_iff,
      if_true]
    rfl
  have next : ∀ p, (s.setHere [⟨0, .join t p⟩]).step .next =
      (s.setHere [⟨0, .join t p⟩]).joinNext 0 [] t p := fun p =>
    DividedSystem.next_top (s.setHere_here _) depth.symm
  have start : s.begin_ (.join t .start) = s.setHere [⟨0, .join t .start⟩] := by
    rw [DividedSystem.begin_, depth, here.1]
  have plain : ∀ p, (s.setHere [⟨0, .join t p⟩]).kernel = s.kernel := fun _ => rfl
  have looks : (s.setHere [⟨0, .join t .start⟩]).step .next = some (s.setHere [⟨0, .join t .look⟩], []) := by
    rw [next]
    simp only [DividedSystem.joinNext, plain, magic, flag, ne_eq, not_true, if_false,
      DividedSystem.setHere_setHere]
  have reads : (s.setHere [⟨0, .join t .look⟩]).step .next =
      some (s.setHere [⟨0, .join t (.loop (s.kernel.state t))⟩], []) := by
    rw [next]
    simp only [DividedSystem.joinNext, plain, DividedSystem.setHere_setHere]
  have decides : (s.setHere [⟨0, .join t (.loop (s.kernel.state t))⟩]).step .next =
      some (s.setHere [⟨0, .join t .register⟩], []) := by
    rw [next]
    simp only [DividedSystem.joinNext, if_pos active, DividedSystem.setHere_setHere]
  have registers : (s.setHere [⟨0, .join t .register⟩]).step .next =
      some ((s.setKernel (setJoining t (some s.kernel.currentThread) s.kernel)).setHere
        [⟨0, .join t .suspend⟩], []) := by
    rw [next]
    exact congrArg (fun x => some (x, [])) (DividedSystem.setKernel_setHere _ _ rfl)
  have suspends : ((s.setKernel (setJoining t (some s.kernel.currentThread) s.kernel)).setHere
      [⟨0, .join t .suspend⟩]).step .next =
      some ((s.setKernel (setJoining t (some s.kernel.currentThread) s.kernel)).operate
        (suspendStmts s.kernel.currentThread) 0 [⟨0, .join t .call⟩], []) := by
    have place := DividedSystem.setHere_here (s := s.setKernel (setJoining t (some s.kernel.currentThread)
      s.kernel)) [⟨0, .join t .suspend⟩]
    refine (DividedSystem.next_top place depth.symm).trans ?_
    exact congrArg (fun x => some (x, [])) (DividedSystem.operate_setHere _ _)
  obtain ⟨w, run, done, there, _⟩ := DividedSystem.ops_run
    (s := s.setKernel (setJoining t (some s.kernel.currentThread) s.kernel))
    (suspendStmts s.kernel.currentThread) [⟨0, .join t .call⟩] depth.symm
  have all := DividedSystem.next_run looks (DividedSystem.next_run reads (DividedSystem.next_run decides
    (DividedSystem.next_run registers (DividedSystem.next_run suspends run))))
  refine ⟨w, ?_, done.trans kernel.symm, there⟩
  rw [Lts.exec, begins, start]
  simp only [suspendStmts, List.length_cons, List.length_nil, List.nil_append, Nat.zero_add,
    Nat.reduceAdd] at all
  simp only [all, List.append_nil]

theorem DividedSystem.next_runs {m : Nat} {x : DividedSystem T}
    (run : Lts.exec DividedSystem.step s (List.replicate n .next) = some (w, first))
    (rest : Lts.exec DividedSystem.step w (List.replicate m .next) = some (x, later)) :
    Lts.exec DividedSystem.step s (List.replicate (n + m) .next) = some (x, first ++ later) := by
  rw [List.replicate_add, Lts.exec_append, run, Option.bind_some, rest]
  rfl

theorem DividedSystem.wake_run {value : Word} (here : s.here = [⟨0, .exit value .wake⟩])
    (top : 0 = s.irq.here.length) : ∃ m w,
      Lts.exec DividedSystem.step s (List.replicate m .next) = some (w, []) ∧ w.here = [⟨0, .leave⟩] ∧
      w.exitValue = s.exitValue ∧
      (∀ joiner, s.kernel.joiningThread s.kernel.currentThread = some joiner →
        getThreadDetachState (s.kernel.threadFlags s.kernel.currentThread) = 0#32 →
        w.kernel = activateThread joiner s.kernel) ∧
      ((∀ joiner, s.kernel.joiningThread s.kernel.currentThread = some joiner →
        getThreadDetachState (s.kernel.threadFlags s.kernel.currentThread) ≠ 0#32) →
        w.kernel = s.kernel) := by
  have next := DividedSystem.next_top here top
  simp only [DividedSystem.activityNext, DividedSystem.exitNext] at next
  split at next
  · rename_i joiner joins
    split at next
    · rename_i attached
      obtain ⟨w, run, kernel, there, _, stored⟩ :=
        DividedSystem.ops_run (s := s) (activateStmts joiner s.kernel) [⟨0, .leave⟩] top
      refine ⟨_, w, DividedSystem.next_run next run, there, stored, fun other also _ => ?_, fun none_ => ?_⟩
      · rw [joins] at also
        cases also
        rw [kernel, activateStmts_run]
      · exact absurd attached (none_ joiner joins)
    · rename_i unattached
      exact ⟨1, _, DividedSystem.next_run (n := 0) next rfl, s.setHere_here _, rfl,
        fun _ _ attached => absurd attached unattached, fun _ => rfl⟩
  · rename_i nobody
    refine ⟨1, _, DividedSystem.next_run (n := 0) next rfl, s.setHere_here _, rfl, fun joiner joins => ?_,
      fun _ => rfl⟩
    cases nobody.symm.trans joins

theorem exit_undivided (calls : s.calls = true) (busy : s.kernel.currentThread ≠ s.kernel.idleThread)
    {k : Kernel T} (undivided : pthreadExitSys s.kernel = .ok k) (value : Word) :
    ∃ m w, Lts.exec DividedSystem.step s (.exit value :: List.replicate m .next) =
        some (w, [.exited s.kernel.currentThread value]) ∧
      w.kernel = k ∧ w.here = [⟨0, .leave⟩] ∧ w.exitValue s.kernel.currentThread = value := by
  have here : s.here = [] ∧ s.irq.here = [] := by
    simp only [DividedSystem.calls, Bool.and_eq_true, List.isEmpty_iff] at calls
    exact calls
  have depth : s.irq.here.length = 0 := by rw [here.2]; rfl
  have begins : s.step (.exit value) = some (s.setHere [⟨0, .exit value .timer⟩], []) := by
    have may : ((s.calls || s.signals && value == 0#32) &&
        s.kernel.currentThread != s.kernel.idleThread) = true := by
      rw [calls, bne_iff_ne.mpr busy]
      rfl
    simp only [DividedSystem.step, may, if_true, DividedSystem.begin_, depth, here.1]
  simp only [pthreadExitSys, bind, bind_ok, pure, Except.pure] at undivided
  obtain ⟨freed, timer, woken⟩ := undivided
  have current : freed.currentThread = s.kernel.currentThread := by
    have only := congrArg Kernel.currentThread (freeKtimer_book timer).1
    exact only
  have level : 0 = (s.setKernel freed).irq.here.length :=
    depth.symm.trans (congrArg (fun c => (s.irq.stack c).length) current.symm)
  have frees : (s.setHere [⟨0, .exit value .timer⟩]).step .next =
      some ((s.setKernel freed).setHere [⟨0, .exit value .finish⟩], []) := by
    refine (DividedSystem.next_top (s.setHere_here _) depth.symm).trans ?_
    have again : freeKtimer ((s.setHere [⟨0, .exit value .timer⟩]).kernel.sleepKtimer
        (s.setHere [⟨0, .exit value .timer⟩]).kernel.currentThread)
        (s.setHere [⟨0, .exit value .timer⟩]).kernel = .ok freed := timer
    simp only [DividedSystem.activityNext, DividedSystem.exitNext, again]
    exact congrArg (fun x => some (x, [])) (DividedSystem.setKernel_setHere _ _ current)
  have finishes : ((s.setKernel freed).setHere [⟨0, .exit value .finish⟩]).step .next =
      some ((s.setKernel freed).operate (finishStmts s.kernel.currentThread) 0 [⟨0, .exit value .value⟩],
        []) := by
    have place := DividedSystem.setHere_here (s := s.setKernel freed) [⟨0, .exit value .finish⟩]
    refine (DividedSystem.next_top place level).trans ?_
    simp only [DividedSystem.activityNext, DividedSystem.exitNext]
    rw [DividedSystem.operate_setHere,
      show ((s.setKernel freed).setHere _).kernel.currentThread = _ from current]
  obtain ⟨y, stopped, kernel, there, irq, _⟩ := DividedSystem.ops_run (s := s.setKernel freed)
    (finishStmts s.kernel.currentThread) [⟨0, .exit value .value⟩] level
  have running : y.kernel.currentThread = s.kernel.currentThread := by
    have only := congrArg Kernel.currentThread
      (runStmts_only (finishStmts s.kernel.currentThread) (s.setKernel freed).kernel)
    rw [kernel]
    exact only.trans current
  rw [finishStmts_run] at kernel
  have up : 0 = y.irq.here.length := level.trans (congrArg List.length irq.symm)
  obtain ⟨z, stores, place, top, held, same⟩ : ∃ z, y.step .next =
      some (z, [.exited s.kernel.currentThread value]) ∧ z.here = [⟨0, .exit value .wake⟩] ∧
      0 = z.irq.here.length ∧ z.exitValue s.kernel.currentThread = value ∧ z.kernel = y.kernel := by
    have next := DividedSystem.next_top there up
    simp only [DividedSystem.activityNext, DividedSystem.exitNext, running] at next
    exact ⟨_, next, y.setHere_here [⟨0, .exit value .wake⟩], up, Function.update_self .., rfl⟩
  obtain ⟨m, w, woke, left, stored, wakes, rests⟩ := DividedSystem.wake_run place top
  have all := DividedSystem.next_run frees (DividedSystem.next_run finishes
    (DividedSystem.next_runs stopped (DividedSystem.next_run stores woke)))
  refine ⟨(finishStmts s.kernel.currentThread).length + (m + 1) + 1 + 1, w, ?_, ?_, left,
    (congrFun stored _).trans held⟩
  · rw [Lts.exec, begins]
    simp only [all, List.nil_append, List.append_nil]
  · rw [same, running, kernel] at wakes rests
    split at woken
    · rename_i joiner joins
      split at woken
      · rename_i attached
        cases woken
        exact wakes joiner joins attached
      · rename_i unattached
        cases woken
        exact rests fun _ _ => unattached
    · rename_i nobody
      cases woken
      refine rests fun joiner joins => ?_
      cases nobody.symm.trans joins

structure Receiving (t : T) (d : Nat) (s : DividedSystem T) : Prop where
  top : d = s.irq.here.length
  there : s.freed t = false
  magic : s.kernel.magicNumber t = pthreadMagicNumber
  flag : getThreadDetachState (s.kernel.threadFlags t) = 0#32
  ended : s.kernel.state t = finishedThread

omit [Fintype T] in
theorem Receiving.setHere (ready : Receiving t d s) (gs : List (Frame T)) : Receiving t d (s.setHere gs) :=
  ⟨ready.top, ready.there, ready.magic, ready.flag, ready.ended⟩

theorem Receiving.ret (top : d = s.irq.here.length) {v : Word}
    (here : s.here = ⟨d, .join t (.ret v)⟩ :: fs) :
    (Lts.exec DividedSystem.step s (List.replicate 1 .next)).map Prod.snd =
      some [.joined s.kernel.currentThread t v] := by
  have taken : s.step .next = some (s.setHere fs, [.joined s.kernel.currentThread t v]) :=
    DividedSystem.next_top here top
  have stopped : (Lts.exec DividedSystem.step (s.setHere fs) (List.replicate 0 .next)).map Prod.snd = some [] := rfl
  exact DividedSystem.next_exec taken stopped

theorem Receiving.delete (ready : Receiving t d s) {v : Word}
    (here : s.here = ⟨d, .join t (.delete v)⟩ :: fs) :
    (Lts.exec DividedSystem.step s (List.replicate 2 .next)).map Prod.snd =
      some [.deleted t, .joined s.kernel.currentThread t v] := by
  have may : (!s.freed t && s.kernel.state t == finishedThread) = true := by
    rw [ready.there, ready.ended]
    rfl
  have step := DividedSystem.next_top here ready.top
  simp only [DividedSystem.activityNext, DividedSystem.joinNext, DividedSystem.reap, if_pos may,
    Option.map_some] at step
  obtain ⟨w, taken, there, top, current⟩ : ∃ w, s.step .next = some (w, [.deleted t]) ∧
      w.here = ⟨d, .join t (.ret v)⟩ :: fs ∧ d = w.irq.here.length ∧
      w.kernel.currentThread = s.kernel.currentThread :=
    ⟨_, step, DividedSystem.setHere_here _, ready.top, rfl⟩
  rw [← current]
  exact DividedSystem.next_exec taken (Receiving.ret top there)

theorem Receiving.value (ready : Receiving t d s) (here : s.here = ⟨d, .join t .value⟩ :: fs) :
    (Lts.exec DividedSystem.step s (List.replicate 3 .next)).map Prod.snd =
      some [.deleted t, .joined s.kernel.currentThread t (s.exitValue t)] :=
  DividedSystem.next_silent (DividedSystem.next_top here ready.top)
    ((ready.setHere _).delete (s.setHere_here _))

theorem Receiving.loop (ready : Receiving t d s)
    (here : s.here = ⟨d, .join t (.loop finishedThread)⟩ :: fs) :
    (Lts.exec DividedSystem.step s (List.replicate 4 .next)).map Prod.snd =
      some [.deleted t, .joined s.kernel.currentThread t (s.exitValue t)] :=
  DividedSystem.next_silent (DividedSystem.next_top here ready.top)
    ((ready.setHere _).value (s.setHere_here _))

theorem Receiving.look (ready : Receiving t d s) (here : s.here = ⟨d, .join t .look⟩ :: fs) :
    (Lts.exec DividedSystem.step s (List.replicate 5 .next)).map Prod.snd =
      some [.deleted t, .joined s.kernel.currentThread t (s.exitValue t)] := by
  have taken := DividedSystem.next_top here ready.top
  simp only [DividedSystem.activityNext, DividedSystem.joinNext, ready.ended] at taken
  exact DividedSystem.next_silent taken ((ready.setHere _).loop (s.setHere_here _))

theorem Receiving.start (ready : Receiving t d s) (here : s.here = ⟨d, .join t .start⟩ :: fs) :
    (Lts.exec DividedSystem.step s (List.replicate 6 .next)).map Prod.snd =
      some [.deleted t, .joined s.kernel.currentThread t (s.exitValue t)] := by
  have taken := DividedSystem.next_top here ready.top
  simp only [DividedSystem.activityNext, DividedSystem.joinNext, ready.magic, ready.flag, ne_eq, not_true,
    ↓reduceIte] at taken
  exact DividedSystem.next_silent taken ((ready.setHere _).look (s.setHere_here _))

theorem Receiving.reattached (ready : Receiving t d s)
    (here : s.here = ⟨d, .join t (.reattached finishedThread)⟩ :: fs) :
    (Lts.exec DividedSystem.step s (List.replicate 5 .next)).map Prod.snd =
      some [.deleted t, .joined s.kernel.currentThread t (s.exitValue t)] := by
  have taken := DividedSystem.next_top here ready.top
  simp only [DividedSystem.activityNext, DividedSystem.joinNext, ready.flag, ne_eq, not_true,
    ↓reduceIte] at taken
  exact DividedSystem.next_silent taken ((ready.setHere _).loop (s.setHere_here _))

theorem Receiving.relook (ready : Receiving t d s) (here : s.here = ⟨d, .join t .relook⟩ :: fs) :
    (Lts.exec DividedSystem.step s (List.replicate 6 .next)).map Prod.snd =
      some [.deleted t, .joined s.kernel.currentThread t (s.exitValue t)] := by
  have taken := DividedSystem.next_top here ready.top
  simp only [DividedSystem.activityNext, DividedSystem.joinNext, ready.ended] at taken
  exact DividedSystem.next_silent taken ((ready.setHere _).reattached (s.setHere_here _))

theorem Receiving.returns (ready : Receiving t d s) {p : JoinPoint}
    (here : s.here = ⟨d, .join t p⟩ :: fs) (past : p.past (s.exitValue t)) (other : p ≠ .call) :
    s.Returns [.deleted t, .joined s.kernel.currentThread t (s.exitValue t)] := by
  cases p with
  | start => exact ⟨6, by decide, ready.start here⟩
  | look => exact ⟨5, by decide, ready.look here⟩
  | loop cState =>
    rw [show cState = finishedThread from past] at here
    exact ⟨4, by decide, ready.loop here⟩
  | call => exact absurd rfl other
  | relook => exact ⟨6, by decide, ready.relook here⟩
  | reattached cState =>
    rw [show cState = finishedThread from past] at here
    exact ⟨5, by decide, ready.reattached here⟩
  | value => exact ⟨3, by decide, ready.value here⟩
  | delete v =>
    rw [show v = s.exitValue t from past] at here
    exact ⟨2, by decide, ready.delete here⟩
  | _ => exact past.elim

omit [Fintype T] in
theorem DividedSystem.joinPoint_here {p : JoinPoint} (point : p ∈ s.joinPoint t) :
    ∃ d fs, s.here = ⟨d, .join t p⟩ :: fs := by
  rw [DividedSystem.joinPoint, Option.mem_def, Option.bind_eq_some_iff] at point
  obtain ⟨⟨d, a⟩, top, is⟩ := point
  obtain ⟨fs, here⟩ := List.head?_eq_some_iff.mp top
  cases a with
  | join u q =>
    obtain ⟨rfl, same⟩ := Option.ite_none_right_eq_some.mp is
    cases same
    exact ⟨d, fs, here⟩
  | _ => cases is

omit [DecidableEq T] [Fintype T] in
theorem DividedSystem.active_top {f : Frame T} (active : s.active = true) (here : s.here = f :: fs) :
    f.depth = s.irq.here.length := by
  simp only [DividedSystem.active, here, decide_eq_true_eq] at active
  exact active

omit [Fintype T] in
theorem DividedSystem.joins_mem {p : JoinPoint} (here : s.here = ⟨d, .join t p⟩ :: fs) :
    p ∈ s.joins t s.kernel.currentThread := by
  rw [DividedSystem.joins_here rfl, here, joinsIn_top]
  exact List.mem_cons_self

theorem DividedLife.order (life : DividedLife t j s es) : es = [] ∨ ∃ v, es = [.exited t v] ∨
    es = [.exited t v, .deleted t] ∨ es = [.exited t v, .deleted t, .joined j t v] := by
  cases life with
  | running => exact Or.inl rfl
  | quitting => exact Or.inl rfl
  | stored => exact Or.inr ⟨_, Or.inl rfl⟩
  | ended => exact Or.inr ⟨_, Or.inl rfl⟩
  | reaped v => exact Or.inr ⟨v, Or.inr (Or.inl rfl)⟩
  | joined v => exact Or.inr ⟨v, Or.inr (Or.inr rfl)⟩

theorem DividedLife.away (life : DividedLife t j s es) (deleted : JoinEvent.deleted t ∈ es) :
    s.kernel.currentThread ≠ t := by
  cases life with
  | running => cases deleted
  | quitting => cases deleted
  | stored => cases List.mem_singleton.mp deleted
  | ended => cases List.mem_singleton.mp deleted
  | reaped v gone away => exact away
  | joined v gone away => exact away

theorem DividedLife.woken (life : DividedLife t j s es) {v : Word} (exited : JoinEvent.exited t v ∈ es)
    (left : s.kernel.currentThread = t → s.exits t = []) {p : JoinPoint} (member : p ∈ s.joins t j)
    (sleeping : p.sleeping = true) :
    s.settled.state j = readyThread ∨ s.settled.state j = finishedThread := by
  cases life with
  | running => cases exited
  | quitting => cases exited
  | stored value here ended self exits =>
    have none_ := left self
    rw [exits] at none_
    cases none_
  | ended here ended gone place woken => exact woken p member sleeping
  | reaped value gone away kept mine place =>
    rw [place p member] at sleeping
    cases sleeping
  | joined value gone away kept none_ =>
    rw [none_ j] at member
    cases member

theorem DividedLife.returns {v : Word} (life : DividedLife t j s [.exited t v]) (other : j ≠ t)
    (active : s.active = true) (done : s.rest = []) {p : JoinPoint} (point : p ∈ s.joinPoint t)
    (away : p ≠ .call) : s.Returns [.deleted t, .joined j t v] := by
  obtain ⟨d, fs, here⟩ := DividedSystem.joinPoint_here point
  have top := DividedSystem.joins_mem here
  have current : s.kernel.currentThread = j := life.mine _ p top
  cases life with
  | stored value awaited ended self => exact absurd (current.symm.trans self) other
  | ended awaited ended left place woken =>
    rw [s.settled_done done] at ended
    rw [current] at top
    have ready : Receiving t d s :=
      ⟨DividedSystem.active_top active here, awaited.there, awaited.magic, awaited.flag, ended⟩
    rw [← current]
    exact ready.returns here (place p top) away

theorem DividedLife.hands {v : Word} (life : DividedLife t j s [.exited t v, .deleted t])
    (active : s.active = true) {p : JoinPoint} (point : p ∈ s.joinPoint t) :
    s.Returns [.joined j t v] := by
  obtain ⟨d, fs, here⟩ := DividedSystem.joinPoint_here point
  have top := DividedSystem.joins_mem here
  have current : s.kernel.currentThread = j := life.mine _ p top
  cases life with
  | reaped value gone away kept mine place =>
    rw [current] at top
    rw [place p top] at here
    rw [← current]
    exact ⟨1, by decide, Receiving.ret (DividedSystem.active_top active here) here⟩

theorem DividedLife.met (life : DividedLife t j s (es.filter (JoinEvent.about t))) (other : j ≠ t) :
    s.Met t j es := by
  have listed : ∀ {e : JoinEvent T}, e.about t = true → e ∈ es → e ∈ es.filter (JoinEvent.about t) :=
    fun about member => List.mem_filter.mpr ⟨member, about⟩
  refine ⟨life.order, fun deleted => ?_, fun v exited left p member sleeping => ?_,
    fun v events active done p point away => ?_, fun v events active p point => ?_⟩
  · exact life.away (listed (decide_eq_true rfl) deleted)
  · exact life.woken (listed (decide_eq_true rfl) exited) left member sleeping
  · rw [events] at life
    exact life.returns other active done point away
  · rw [events] at life
    exact life.hands active point

end

theorem DividedSystem.Joinable.life [Fintype T] {s : DividedSystem T} {t j : T} (joinable : s.Joinable t) :
    DividedLife t j s [] := by
  obtain ⟨alive, there, _⟩ := DividedSystem.handle_iff.mp joinable.handle
  have none_ : ∀ u, ∀ p, p ∉ s.joins t u := by
    intro u p member
    rw [joinable.free u] at member
    cases member
  refine .running ⟨alive, there, joinable.magic, joinable.flag, fun u p member => absurd member (none_ u p),
    joinable.kept⟩ joinable.active (Or.inl joinable.here) ⟨fun p member => ?_, fun member => ?_,
      fun p member => ?_⟩
  · exact absurd member (none_ j p)
  · exact absurd member (none_ j _)
  · exact absurd member (none_ j p)

/-- From any state reached in orderly steps, in every run of orderly steps in which the two
    do not miss each other. -/
theorem join_meets [Fintype T] (idle : T) (threads : List (T × Int))
    (nodup : (threads.map Prod.fst).Nodup) (p : Int) (member : (idle, p) ∈ threads)
    (before : List (DividedLabel T)) (s : DividedSystem T) (past : List (JoinEvent T))
    (calm : Lts.Along DividedSystem.step DividedSystem.Orderly (DividedSystem.start idle threads) before)
    (reached : Lts.exec DividedSystem.step (DividedSystem.start idle threads) before = some (s, past))
    (t j : T) (other : j ≠ t) (joinable : s.Joinable t) (ls : List (DividedLabel T))
    (meeting : Lts.Along DividedSystem.step (fun s l => s.Orderly l ∧ s.Meeting t j l) s ls)
    (x : DividedSystem T) (es : List (JoinEvent T))
    (run : Lts.exec DividedSystem.step s ls = some (x, es)) : x.Met t j es := by
  have start : s.Sane ∧ s.Single := by
    refine Lts.exec_keeps (fun s => s.Sane ∧ s.Single) (fun s l w es inv orderly taken => ?_) before
      ⟨DividedSystem.sane_start idle threads nodup p member, fun u => Nat.zero_le 1⟩ calm reached
    exact ⟨inv.1.step orderly taken, inv.2.step taken⟩
  have final : (x.Sane ∧ x.Single) ∧ DividedLife t j x (es.filter (JoinEvent.about t)) := by
    refine Lts.exec_invariant
      (fun s es => (s.Sane ∧ s.Single) ∧ DividedLife t j s (es.filter (JoinEvent.about t)))
      (fun s es l w first inv may taken => ?_) ls ⟨start, joinable.life⟩ meeting run
    obtain ⟨⟨sane, single⟩, life⟩ := inv
    rw [List.filter_append]
    exact ⟨⟨sane.step may.1 taken, single.step taken⟩, life.step other sane single may.1 may.2 taken⟩
  exact final.2.met other

def meetStart : DividedSystem (Fin 3) := DividedSystem.start 0 [(0, 1023), (1, 5), (2, 9)]

/-- An interrupt comes between the look and the record. Thread 2 wakes the joiner for
    nothing; another interrupt comes in its exit. -/
def meetingRun : List (DividedLabel (Fin 3)) :=
  [.join 2, .next, .next, .next, .irq .enter, .irq .leave, .irq .check, .irq .ret, .next, .next, .next,
    .next, .next, .irq .pick, .irq (.switch 0),
    .activate 1, .next, .next, .irq .call, .irq .pick, .irq (.switch 0), .irq .finish,
    .next, .next, .next, .next, .next, .next, .next, .next, .irq .pick, .irq (.switch 0), .irq .finish,
    .exit 7, .next, .next, .next, .next, .next, .irq .enter, .irq .leave, .irq .check, .irq .ret,
    .next, .next, .next, .next, .next, .irq .pick, .irq (.switch 0), .irq .finish,
    .next, .next, .next, .next, .next, .next]

theorem join_meets_interrupted :
    ∃ x es, Lts.exec DividedSystem.step meetStart meetingRun = some (x, es) ∧
      es = [.exited 2 7, .deleted 2, .joined 1 2 7] ∧ x.Met 2 1 es := by
  obtain ⟨⟨x, es⟩, run, events⟩ := Option.map_eq_some_iff.mp
    (by decide +kernel : (Lts.exec DividedSystem.step meetStart meetingRun).map Prod.snd =
      some [.exited 2 7, .deleted 2, .joined 1 2 7])
  have joinable : meetStart.Joinable 2 :=
    ⟨by decide +kernel, by decide +kernel, by decide +kernel, by decide +kernel, rfl, fun _ => rfl,
      fun _ f inside => by cases inside⟩
  have meeting : Lts.Along DividedSystem.step (fun s l => s.Orderly l ∧ s.Meeting 2 1 l)
      meetStart meetingRun := by decide +kernel
  exact ⟨x, es, run, events, join_meets 0 [(0, 1023), (1, 5), (2, 9)] (by decide) 1023 (by simp) [] meetStart
    [] trivial rfl 2 1 (by decide) joinable meetingRun meeting x es run⟩

section
variable [Fintype T] {j : T} {s w : DividedSystem T} {es : List (JoinEvent T)}

/-- The idle thread runs, `j` sleeps and all others are FINISHED; no structure is free. -/
structure Abandoned (j : T) (s : DividedSystem T) : Prop where
  running : s.kernel.currentThread = s.kernel.idleThread
  asleep : s.settled.state j = suspendedThread
  others : ∀ u, u ≠ s.kernel.idleThread → u ≠ j → s.settled.state u = finishedThread
  used : ∀ u, s.kernel.live u = true ∧ s.freed u = false

theorem Abandoned.of_states (lost : Abandoned j s) (current : w.kernel.currentThread = s.kernel.currentThread)
    (idle : w.kernel.idleThread = s.kernel.idleThread) (live : w.kernel.live = s.kernel.live)
    (freed : w.freed = s.freed) (states : ∀ u, w.settled.state u = s.settled.state u) : Abandoned j w := by
  refine ⟨current.trans (lost.running.trans idle.symm), (states j).trans lost.asleep, fun u busy other => ?_,
    fun u => ?_⟩
  · rw [idle] at busy
    exact (states u).trans (lost.others u busy other)
  · rw [live, freed]
    exact lost.used u

theorem Abandoned.not_ready (lost : Abandoned j s) {u : T} (busy : u ≠ s.kernel.idleThread) :
    s.settled.state u ≠ readyThread := by
  by_cases self : u = j
  · rw [self, lost.asleep]
    decide
  · rw [lost.others u busy self]
    exact finished_ne_ready

theorem Abandoned.irq (lost : Abandoned j s) {l m : IrqLabel T} (orderly : s.Orderly (.irq l))
    (label : s.irqLabel l = some m) {q : IrqSystem T} (taken : s.irq.next m = some q) :
    Abandoned j { s with irq := q } := by
  obtain ⟨step, current | ⟨new, chosen_, away, current, now, rfl⟩⟩ := irq_moves label taken
  · have rest : DividedSystem.rest { s with irq := q } = s.rest :=
      congrArg restOf (congrArg s.frames current)
    refine lost.of_states current step.idle step.alike.live rfl fun u => ?_
    rw [DividedSystem.settled, DividedSystem.settled, rest]
    exact (runStmts_alike s.rest step.alike).states u
  · exfalso
    have done := orderly.apart rfl
    have busy : new ≠ s.kernel.idleThread := fun is => away (is.trans lost.running.symm)
    have idle := lost.not_ready busy
    rw [s.settled_done done] at idle
    rcases orderly.current new chosen_ with self | is | ready
    · exact away self
    · exact busy is
    · exact idle ready

theorem Abandoned.operation (lost : Abandoned j s) (done : s.rest = []) {ops : List (SchedStmt T)}
    (states : ∀ u, (runStmts s.kernel ops).state u = s.kernel.state u) : Abandoned j (s.operation ops) := by
  refine lost.of_states rfl rfl rfl rfl fun u => ?_
  have settled : (s.operation ops).settled = runStmts s.kernel ops := by
    rw [DividedSystem.operation, DividedSystem.operate_settled, show restOf s.here = [] from done,
      List.append_nil]
  rw [settled, states, s.settled_done done]

theorem Abandoned.next (lost : Abandoned j s) (sane : s.Sane) {d : Nat} {a : Ongoing T} {fs : List (Frame T)}
    (here : s.here = ⟨d, a⟩ :: fs) (taken : s.activityNext d fs a = some (w, es)) :
    Abandoned j w ∧ es = [] := by
  have ops : a.isOps = true := by
    apply sane.idler ⟨d, a⟩
    rw [← lost.running, show s.frames s.kernel.currentThread = ⟨d, a⟩ :: fs from here]
    exact List.mem_cons_self
  cases a with
  | ops rest =>
    have settled : s.settled = runStmts s.kernel (rest ++ restOf fs) := by
      rw [DividedSystem.settled, DividedSystem.rest, here]
      rfl
    cases rest with
    | nil =>
      cases taken
      refine ⟨lost.of_states rfl rfl rfl rfl fun u => ?_, rfl⟩
      rw [settled, DividedSystem.settled, DividedSystem.rest, DividedSystem.setHere_here]
      rfl
    | cons stmt rest =>
      cases taken
      have only := stmt.run_only s.kernel
      have current := congrArg Kernel.currentThread only
      have idle := congrArg Kernel.idleThread only
      have live := congrArg Kernel.live only
      refine ⟨lost.of_states current idle live rfl fun u => ?_, rfl⟩
      rw [settled, DividedSystem.operate_settled]
      rfl
  | _ => cases ops

theorem Abandoned.activate (lost : Abandoned j s) (sane : s.Sane) (done : s.rest = []) {u : T} (other : u ≠ j) :
    Abandoned j (s.operation (activateStmts u s.kernel)) := by
  refine lost.operation done fun v => ?_
  rw [activateStmts_run, activateThread_state]
  split
  · rename_i woken
    obtain ⟨rfl, active⟩ := woken
    by_cases busy : v = s.kernel.idleThread
    · have idling := sane.idling
      rw [s.settled_done done, ← busy] at idling
      exact idling.symm
    · have stopped := lost.others v busy other
      rw [s.settled_done done] at stopped
      exact absurd stopped active
  · rfl

theorem Abandoned.step (lost : Abandoned j s) (sane : s.Sane) {l : DividedLabel T} (orderly : s.Orderly l)
    (unwoken : l ≠ .activate j) (taken : s.step l = some (w, es)) : Abandoned j w ∧ es = [] := by
  cases DividedSystem.step_move taken with
  | irq label next => exact ⟨lost.irq orderly label next, rfl⟩
  | next here active taken => exact lost.next sane here taken
  | activate u =>
    exact ⟨lost.activate sane (orderly.apart rfl) fun same => unwoken (by rw [same]), rfl⟩
  | changePrio u p calls =>
    refine ⟨lost.operation (sane.running calls).2 fun v => ?_, rfl⟩
    rw [changePrioStmts_run, Kernel.state, changeThreadPrio_flags]
    rfl
  | setschedparam u param calls =>
    refine ⟨lost.operation (sane.running calls).2 fun v => ?_, rfl⟩
    rw [setschedparamStmts_run, Kernel.state, changeThreadPrio_flags]
    rfl
  | yield calls =>
    refine ⟨lost.operation (sane.running calls).2 fun v => ?_, rfl⟩
    rw [yieldStmts_run]
    rfl
  | create a attr calls unused =>
    rw [(lost.used a).1, (lost.used a).2] at unused
    cases unused
  -- the idle thread begins no call
  | join u calls handle busy => exact absurd lost.running busy
  | exit value user busy => exact absurd lost.running busy
  | detach u calls handle busy => exact absurd lost.running busy
  | deleteNp u calls handle busy => exact absurd lost.running busy
  | block signals busy => exact absurd lost.running busy

theorem Abandoned.run (lost : Abandoned j s) (sane : s.Sane) (ls : List (DividedLabel T))
    (along : Lts.Along DividedSystem.step (fun s l => s.Orderly l ∧ l ≠ .activate j) s ls)
    (run : Lts.exec DividedSystem.step s ls = some (w, es)) : Abandoned j w ∧ es = [] := by
  have final : (w.Sane ∧ Abandoned j w) ∧ es = [] := by
    refine Lts.exec_invariant (fun s es => (s.Sane ∧ Abandoned j s) ∧ es = [])
      (fun s es l w first inv may taken => ?_) ls ⟨⟨sane, lost⟩, rfl⟩ along run
    obtain ⟨⟨sane, lost⟩, rfl⟩ := inv
    obtain ⟨next, rfl⟩ := lost.step sane may.1 may.2 taken
    exact ⟨⟨sane.step may.1 taken, next⟩, rfl⟩
  exact ⟨final.1.2, final.2⟩

end

def missStart : DividedSystem (Fin 3) := DividedSystem.start 0 [(0, 1023), (1, 5), (2, 3)]

/-- Thread 2 goes to sleep. The joiner looks at it, and an interrupt that wakes it comes
    before the joiner is on record; at its end scheduling switches to thread 2, which exits
    with 7. Back in its call the joiner goes to sleep. -/
def missingRun : List (DividedLabel (Fin 3)) :=
  [.block, .next, .next, .next, .next, .irq .pick, .irq (.switch 0),
    .join 2, .next, .next, .next,
    .irq .enter, .activate 2, .next, .next, .irq .call, .irq .leave, .irq .check, .irq .call, .irq .pick,
    .irq (.switch 0), .irq .finish,
    .exit 7, .next, .next, .next, .next, .next, .next, .next, .next, .irq .pick, .irq (.switch 0),
    .irq .finish, .irq .ret,
    .next, .next, .next, .next, .next, .irq .pick, .irq (.switch 0)]

/-- Thread 1 is the only one to join thread 2, which exits; but unless somebody else wakes
    it the call never returns, and thread 2 is not given back. -/
theorem join_missed :
    ∃ x es, Lts.exec DividedSystem.step missStart missingRun = some (x, es) ∧
      missStart.Joinable 2 ∧
      Lts.Along DividedSystem.step (fun s l => s.OneJoiner 2 1 l) missStart missingRun ∧
      es = [.exited 2 7] ∧ ¬x.Met 2 1 es ∧
      ∀ ls y more, Lts.Along DividedSystem.step (fun s l => s.Orderly l ∧ l ≠ .activate 1) x ls →
        Lts.exec DividedSystem.step x ls = some (y, more) →
        y.settled.state 1 = suspendedThread ∧ more = [] := by
  obtain ⟨⟨x, es⟩, run, events⟩ := Option.map_eq_some_iff.mp
    (by decide +kernel : (Lts.exec DividedSystem.step missStart missingRun).map Prod.snd = some [.exited 2 7])
  have final : ∀ {α : Type} (g : DividedSystem (Fin 3) → α) (v : α),
      (Lts.exec DividedSystem.step missStart missingRun).map (fun r => g r.1) = some v → g x = v := by
    intro α g v is
    rw [run] at is
    exact Option.some.inj is
  have current : x.kernel.currentThread = 0 := final (fun s => s.kernel.currentThread) 0 (by decide +kernel)
  have idle : x.kernel.idleThread = 0 := final (fun s => s.kernel.idleThread) 0 (by decide +kernel)
  have joins : x.joins 2 1 = [.relook] := final (fun s => s.joins 2 1) _ (by decide +kernel)
  have asleep : x.settled.state 1 = suspendedThread := final (fun s => s.settled.state 1) _ (by decide +kernel)
  have ended : x.settled.state 2 = finishedThread := final (fun s => s.settled.state 2) _ (by decide +kernel)
  have live : x.kernel.live = fun _ => true := funext fun u => final (fun s => s.kernel.live u) true (by
    revert u
    decide +kernel)
  have freed : x.freed = fun _ => false := funext fun u => final (fun s => s.freed u) false (by
    revert u
    decide +kernel)
  have orderly : Lts.Along DividedSystem.step (fun s l => s.Orderly l) missStart missingRun := by
    decide +kernel
  have sane : x.Sane := Lts.exec_keeps (fun s => s.Sane) (fun s l w es inv may taken => inv.step may taken)
    missingRun (DividedSystem.sane_start 0 [(0, 1023), (1, 5), (2, 3)] (by decide) 1023 (by simp)) orderly run
  have lost : Abandoned 1 x := by
    refine ⟨current.trans idle.symm, asleep, fun u busy other => ?_, fun u => ?_⟩
    · rw [idle] at busy
      have is : u = 2 := by omega
      rw [is]
      exact ended
    · rw [live, freed]
      exact ⟨rfl, rfl⟩
  refine ⟨x, es, run, ⟨by decide +kernel, by decide +kernel, by decide +kernel, by decide +kernel, rfl,
    fun _ => rfl, fun _ f inside => by cases inside⟩, by decide +kernel, events, fun met => ?_,
    fun ls y more along later => ?_⟩
  · have awake := met.woken 7 (by rw [show es = _ from events]; exact List.mem_singleton_self _)
      (fun self => by rw [current] at self; cases self) .relook (by rw [joins]; exact List.mem_singleton_self _)
      rfl
    rw [asleep] at awake
    revert awake
    decide
  · obtain ⟨still, none_⟩ := lost.run sane ls along later
    exact ⟨still.asleep, none_⟩

end L4ertl
