import L4ertl.Core.Reap
import L4ertl.System.Start

/-!
The system with joining, detaching and deleting threads. A structure that has
been given back keeps its words until the memory pool hands them out again, so
`live` stays set in the kernel of this system and `freed` tells which structures
are gone; whoever still refers to one of them reads these words.
-/
namespace L4ertl
open Intrusive

/-- Beside the system: the thread that each thread waits for in pthread_join_sys,
    and the structures given back. -/
structure ThreadSystem (T : Type) where
  system : System T
  waits : T → Option T
  freed : T → Bool

inductive ThreadLabel (T : Type) where
  | other (l : Label T)
  -- pthread_create_sys with a structure that had been given back
  | recreate (addr : T) (stack : Bool) (attr : Option PthreadAttr) (env : Env)
  | join (thread : T) (env : Env)
  | rejoin (env : Env)
  | detach (thread : T) (env : Env)
  | deleteNp (thread : T) (env : Env)

variable {T : Type} [DecidableEq T]

abbrev ThreadSystem.kernel (s : ThreadSystem T) : Kernel T := s.system.kernel

def ThreadSystem.calls (s : ThreadSystem T) : Bool :=
  (s.system.cont s.kernel.currentThread).isNone && (s.waits s.kernel.currentThread).isNone &&
    s.kernel.currentThread != s.kernel.idleThread

omit [DecidableEq T] in
def ThreadSystem.inUse (s : ThreadSystem T) (t : T) : Bool := s.kernel.live t && !s.freed t

def ThreadSystem.handle (s : ThreadSystem T) (t : T) : Bool :=
  s.kernel.live t && !s.freed t && t != s.kernel.idleThread

/-- Which call it was does not matter any more on the way back to user mode. -/
def ThreadSystem.settle (s : ThreadSystem T) (env : Env) (k : Kernel T) (outcome : Outcome) :
    ThreadSystem T :=
  { s with system := (s.system.settle (.call .yield) env k outcome).1 }

def ThreadSystem.joined (s : ThreadSystem T) (thread : T) (env : Env) :
    Kernel T × JoinStep → ThreadSystem T
  | (k, .ret v) =>
    { s.settle env k (.ret v) with waits := Function.update s.waits s.kernel.currentThread none }
  | (k, .blocked) =>
    { s.settle env k (.sched .done) with
      waits := Function.update s.waits s.kernel.currentThread (some thread) }
  | (k, .deleted) =>
    { s.settle env (s.kernel.keepWords k) (.ret 0) with
      waits := Function.update s.waits s.kernel.currentThread none
      freed := Function.update s.freed thread true }

def ThreadSystem.recreated (s : ThreadSystem T) (a : T) (stack : Bool) (attr : Option PthreadAttr)
    (env : Env) : ThreadSystem T :=
  let (k, progress) := pthreadCreateSys (some a) stack attr s.kernel
  -- with attributes that are not accepted no memory is asked for
  if (attr.map PthreadAttr.accepted).getD true = false then s.settle env k progress.outcome
  else
    let x := s.settle env k progress.outcome
    { system := { x.system with cont := Function.update x.system.cont a none }
      waits := Function.update s.waits a none
      freed := Function.update s.freed a false }

def ThreadSystem.step [Fintype T] (s : ThreadSystem T) :
    ThreadLabel T → Option (ThreadSystem T × List Unit)
  | .other l =>
    if (s.waits s.kernel.currentThread).isNone then
      (s.system.step l).map fun r => ({ s with system := r.1 }, [])
    else none
  | .recreate a stack attr env =>
    if s.calls && s.freed a then some (s.recreated a stack attr env, []) else none
  | .join t env =>
    if s.calls && s.handle t then some (s.joined t env (pthreadJoinSys t s.kernel), []) else none
  | .rejoin env =>
    match s.waits s.kernel.currentThread with
    -- the structure may be gone by now: what the call reads then is not known
    | some t => if s.freed t then none else some (s.joined t env (joinWoken t s.kernel), [])
    | none => none
  | .detach t env =>
    if s.calls && s.handle t then
      match pthreadDetachSys t s.kernel with
      | .ok (k, progress) => some (s.settle env k progress.outcome, [])
      | .error _ => none
    else none
  | .deleteNp t env =>
    if s.calls && s.handle t then
      some ({ s.settle env (s.kernel.keepWords (pthreadDeleteNpSys t s.kernel)) (.sched .done)
        with freed := Function.update s.freed t true }, [])
    else none

/-- The thread that delete_pthread_struct is called for, and the kernel when it returns. -/
def ThreadSystem.deletes (s : ThreadSystem T) : ThreadLabel T → Option (T × Kernel T)
  | .join t _ =>
    match pthreadJoinSys t s.kernel with
    | (k, .deleted) => some (t, k)
    | _ => none
  | .rejoin _ =>
    (s.waits s.kernel.currentThread).bind fun t =>
      match joinWoken t s.kernel with
      | (k, .deleted) => some (t, k)
      | _ => none
  | .deleteNp t _ => some (t, pthreadDeleteNpSys t s.kernel)
  | _ => none

/-- No structure of the kernel refers to the thread. -/
structure Unreferenced [Fintype T] (freed : T → Bool) (t : T) (k : Kernel T) : Prop where
  ready : ∀ c, t ∉ threadsAt k.activeThreads c
  threads : ¬Linked k.threadNode k.threadList t
  mutexes : ∀ m, ¬Linked k.mutexNode (k.mutex m).mutexList t
  conds : ∀ c, ¬Linked k.condNode (k.cond c) t
  sems : ∀ s, ¬Linked k.semNode (k.sem s).semList t
  timers : ∀ i, i < maxTimers → (k.timerArray i).inUse = true → (k.timerArray i).owner ≠ some t
  heap : ∀ n i, 1 ≤ n → n ≤ k.timerHeap.nelem → k.timerHeap.array n = some i →
    (k.timerArray i).owner ≠ some t
  joiners : ∀ u, k.live u = true → freed u = false → k.joiningThread u ≠ some t

structure LetGo (freed : T → Bool) (t : T) (k : Kernel T) : Prop where
  mutexes : ∀ m, ¬Linked k.mutexNode (k.mutex m).mutexList t
  conds : ∀ c, ¬Linked k.condNode (k.cond c) t
  sems : ∀ s, ¬Linked k.semNode (k.sem s).semList t
  timers : ∀ i, i < maxTimers → (k.timerArray i).inUse = true → (k.timerArray i).owner ≠ some t
  heap : ∀ n i, 1 ≤ n → n ≤ k.timerHeap.nelem → k.timerHeap.array n = some i →
    (k.timerArray i).owner ≠ some t
  joiners : ∀ u, u ≠ t → k.live u = true → freed u = false → k.joiningThread u ≠ some t

structure TableKept (k w : Kernel T) : Prop where
  nodes : w.threadNode = k.threadNode
  head : w.threadList = k.threadList
  live : w.live = k.live

section
omit [DecidableEq T]

theorem TableKept.trans {k w x : Kernel T} (first : TableKept k w) (second : TableKept w x) :
    TableKept k x :=
  ⟨second.nodes.trans first.nodes, second.head.trans first.head, second.live.trans first.live⟩

theorem QuietOnly.table {k w : Kernel T} (only : QuietOnly k w) : TableKept k w := by
  have nodes := congrArg Kernel.threadNode only
  have head := congrArg Kernel.threadList only
  have live := congrArg Kernel.live only
  exact ⟨nodes, head, live⟩

theorem MutexOnly.table {k w : Kernel T} (only : MutexOnly k w) : TableKept k w := by
  have nodes := congrArg Kernel.threadNode only
  have head := congrArg Kernel.threadList only
  have live := congrArg Kernel.live only
  exact ⟨nodes, head, live⟩

theorem CondOnly.table {k w : Kernel T} (only : CondOnly k w) : TableKept k w := by
  have nodes := congrArg Kernel.threadNode only
  have head := congrArg Kernel.threadList only
  have live := congrArg Kernel.live only
  exact ⟨nodes, head, live⟩

theorem SemOnly.table {k w : Kernel T} (only : SemOnly k w) : TableKept k w := by
  have nodes := congrArg Kernel.threadNode only
  have head := congrArg Kernel.threadList only
  have live := congrArg Kernel.live only
  exact ⟨nodes, head, live⟩

end

theorem pthreadCreateSys_table (addr : Option T) (stack : Bool) (attr : Option PthreadAttr)
    (k : Kernel T) :
    (TableKept k (pthreadCreateSys addr stack attr k).1 ∧
      (addr = none ∨ (attr.map PthreadAttr.accepted).getD true = false)) ∨
    (∃ a, addr = some a ∧ (attr.map PthreadAttr.accepted).getD true ≠ false ∧
      TableKept (createPthreadStruct (some a) k).1 (pthreadCreateSys addr stack attr k).1) := by
  unfold pthreadCreateSys
  split
  · rename_i refused
    exact Or.inl ⟨⟨rfl, rfl, rfl⟩, Or.inr refused⟩
  · rename_i accepted
    cases addr with
    | none => exact Or.inl ⟨⟨rfl, rfl, rfl⟩, Or.inl rfl⟩
    | some a =>
      refine Or.inr ⟨a, rfl, accepted, ?_⟩
      have configured := (configureThread_only a attr (createPthreadStruct (some a) k).1).quiet.table
      have activated := (activateThread_only a
        (configureThread a attr (createPthreadStruct (some a) k).1)).quiet.table
      simp only [createPthreadStruct] at configured activated ⊢
      split
      · exact configured.trans ⟨rfl, rfl, rfl⟩
      · exact configured.trans activated

section
variable [Fintype T]

theorem pthreadCondWaitSys_table (c m : Nat) (k : Kernel T) :
    TableKept k (pthreadCondWaitSys c m k).1 := by
  have unlocked := (mutexUnlock_only m k).table
  rcases pthreadCondWaitSys_cases c m k with ⟨_, eq⟩ | ⟨_, v, _, eq⟩ | ⟨_, _, eq⟩
  · rw [eq]
    exact ⟨rfl, rfl, rfl⟩
  · rw [eq]
    exact unlocked.trans (blockOn_condOnly c _).table
  · rw [eq]
    exact unlocked

omit [DecidableEq T] [Fintype T] in
def Work.creates : Work T → Option T
  | .call (.create addr _ attr) => if (attr.map PthreadAttr.accepted).getD true = false then none else addr
  | _ => none

theorem Work.run_table {w : Work T} {env : Env} {k x : Kernel T} {pr : Progress}
    (legal : w.Legal k = true) (ran : w.run env k = .ok (x, pr)) :
    (TableKept k x ∧ w.creates = none) ∨ ∃ a, w.creates = some a ∧ k.live a = false ∧
      TableKept (createPthreadStruct (some a) k).1 x := by
  by_cases quiet : w.quiet = true
  · left
    refine ⟨(Work.run_quiet quiet ran).table, ?_⟩
    cases w with
    | irq => rfl
    | call c =>
      cases c with
      | create addr stack attr => cases quiet
      | _ => rfl
  · cases w with
    | irq => exact absurd rfl quiet
    | call c =>
      cases c with
      | mutexLock m =>
        obtain ⟨rfl, rfl⟩ := ran_pair ran
        rw [pthreadMutexLockSys_kernel]
        exact Or.inl ⟨(mutexLockLoop_only m k).table, rfl⟩
      | mutexTrylock m =>
        obtain ⟨rfl, rfl⟩ := ran_pair ran
        exact Or.inl ⟨(pthreadMutexTrylockSys_only m k).table, rfl⟩
      | mutexUnlock m =>
        obtain ⟨rfl, rfl⟩ := ran_pair ran
        rw [pthreadMutexUnlockSys_kernel]
        exact Or.inl ⟨(mutexUnlock_only m k).table, rfl⟩
      | condSignal c =>
        obtain ⟨rfl, rfl⟩ := ran_pair ran
        exact Or.inl ⟨(condSignal_only c k).table, rfl⟩
      | condBroadcast c =>
        obtain ⟨rfl, rfl⟩ := ran_pair ran
        exact Or.inl ⟨(drain_condOnly c k).table, rfl⟩
      | condWait c m =>
        obtain ⟨rfl, rfl⟩ := ran_pair ran
        exact Or.inl ⟨pthreadCondWaitSys_table c m k, rfl⟩
      | semWait s =>
        obtain ⟨rfl, rfl⟩ := ran_pair ran
        exact Or.inl ⟨(semWaitSys_only s k).table, rfl⟩
      | semTrywait s =>
        obtain ⟨rfl, rfl⟩ := ran_pair ran
        exact Or.inl ⟨(semTrywaitSys_only s k).table, rfl⟩
      | semPost s =>
        obtain ⟨rfl, rfl⟩ := ran_pair ran
        exact Or.inl ⟨(semPostSys_only s k).table, rfl⟩
      | create addr stack attr =>
        obtain ⟨rfl, rfl⟩ := ran_pair ran
        rcases pthreadCreateSys_table addr stack attr k with
          ⟨same, none | refused⟩ | ⟨a, rfl, accepted, new⟩
        · refine Or.inl ⟨same, ?_⟩
          simp [Work.creates, none]
        · exact Or.inl ⟨same, if_pos refused⟩
        · refine Or.inr ⟨a, if_neg accepted, ?_, new⟩
          simpa [Work.Legal, Call.Legal] using legal
      | _ => exact absurd rfl quiet

omit [Fintype T] in
theorem Point.run_table {p : Point} {env : Env} {k x : Kernel T} {outcome : Outcome}
    (ran : p.run env k = .ok (x, outcome)) : TableKept k x := by
  by_cases quiet : p.quiet = true
  · exact (Point.run_quiet quiet ran).1.table
  · cases p with
    | lockLoop m =>
      cases ran
      rw [pthreadMutexLockSys_kernel]
      exact (mutexLockLoop_only m k).table
    | condUnlocked c m =>
      cases ran
      exact (blockOn_condOnly c k).table
    | condWoken m =>
      cases ran
      rw [condRelock_kernel]
      exact (mutexLockLoop_only m k).table
    | condLock m =>
      cases ran
      rw [condRelock_kernel]
      exact (mutexLockLoop_only m k).table
    | semWait s =>
      cases ran
      exact (semTake_only s k).table
    | semPost s =>
      cases ran
      exact (semGive_only s k).table
    | _ => exact absurd rfl quiet

end

omit [DecidableEq T] in
theorem SchedOnly.letGo {freed : T → Bool} {t : T} {k w : Kernel T} (only : SchedOnly k w) :
    LetGo freed t w ↔ LetGo freed t k := by
  unfold SchedOnly at only
  rw [only]
  constructor
  · intro free
    exact ⟨free.mutexes, free.conds, free.sems, free.timers, free.heap, free.joiners⟩
  · intro free
    exact ⟨free.mutexes, free.conds, free.sems, free.timers, free.heap, free.joiners⟩

theorem deletePthreadStruct_unreferenced [Fintype T] {freed : T → Bool} {t : T} {k : Kernel T}
    {r : ReadyModel T} {xs : List T} (inv : ReadyInv k r) (alive : k.live t = true)
    (table : Tabled k xs) (member : t ∈ xs) :
    Unreferenced freed t (deletePthreadStruct t k) ↔ LetGo freed t k := by
  have after := deletePthreadStruct_readyInv inv alive
  have dead : (deletePthreadStruct t k).live t = false := by simp [deletePthreadStruct]
  constructor
  · intro free
    refine ⟨free.mutexes, free.conds, free.sems, free.timers, free.heap, ?_⟩
    intro u other liveU
    apply free.joiners u
    simp [deletePthreadStruct, other, liveU]
  · intro free
    refine ⟨?_, ?_, free.mutexes, free.conds, free.sems, free.timers, free.heap, ?_⟩
    · intro c listed
      rw [after.rep.threadsAt_eq] at listed
      exact after.absent (Or.inl dead) c listed
    · intro linked
      have rest := table.delete member
      exact (table.2.mem_erase_iff.mp (linked.mem rest.1)).1 rfl
    · intro u liveU
      have other : u ≠ t := by
        rintro rfl
        rw [dead] at liveU
        cases liveU
      exact free.joiners u other (by simpa [deletePthreadStruct, other] using liveU)

structure ThreadSystem.Ok (s : ThreadSystem T) : Prop where
  system : SystemOk s.system
  table : ∃ xs, Tabled s.kernel xs ∧ ∀ u, u ∈ xs ↔ s.kernel.live u = true ∧ s.freed u = false
  gone : ∀ u, s.freed u = true → s.kernel.live u = true ∧ s.kernel.state u = finishedThread
  waiters : ∀ u t, s.waits u = some t →
    u ≠ s.kernel.idleThread ∧ s.kernel.live u = true ∧ s.kernel.live t = true

theorem settle_switch (s : System T) (w : Work T) (env : Env) (k : Kernel T) (outcome : Outcome) :
    SwitchOnly k (s.settle w env k outcome).1.kernel := by
  cases outcome with
  | ret v => rfl
  | next p => rfl
  | sched p => exact scheduling_only env.sched k

omit [DecidableEq T] in
theorem Sound.finished {t u : T} {k w : Kernel T} (sound : Sound t k w) (alive : k.live u = true)
    (other : u ≠ t) (ended : k.state u = finishedThread) : w.state u = finishedThread := by
  rcases sound.others u alive other with same | ⟨active, _⟩
  · rw [same, ended]
  · exact absurd ended active

section
variable {s : ThreadSystem T} {t u : T}

omit [DecidableEq T] in
theorem ThreadSystem.Ok.gone_other (ok : s.Ok) (gone : s.freed u = true)
    (ready : s.kernel.state t = readyThread) : u ≠ t := by
  rintro rfl
  have ended := (ok.gone u gone).2
  rw [ready] at ended
  exact ready_ne_finished ended

theorem ThreadSystem.Ok.settled (ok : s.Ok) {w : Work T} {env : Env} {k : Kernel T}
    {outcome : Outcome} (sound : Sound s.kernel.currentThread s.kernel k) (kept : TableKept s.kernel k)
    (next : SystemOk (s.system.settle w env k outcome).1) {waits : T → Option T}
    (waiters : ∀ u t, waits u = some t →
      u ≠ s.kernel.idleThread ∧ s.kernel.live u = true ∧ s.kernel.live t = true) :
    ThreadSystem.Ok ⟨(s.system.settle w env k outcome).1, waits, s.freed⟩ := by
  have switched := settle_switch s.system w env k outcome
  obtain ⟨xs, table, members⟩ := ok.table
  have same := kept.trans switched.quiet.table
  obtain ⟨live, idle⟩ := settle_table s.system w env k outcome
  refine ⟨next, ⟨xs, table.same same.nodes same.head, ?_⟩, ?_, ?_⟩
  · intro u
    rw [members u]
    simp only [ThreadSystem.kernel]
    rw [same.live]
  · intro u freed
    obtain ⟨alive, ended⟩ := ok.gone u freed
    refine ⟨(congrFun same.live u).trans alive, (switched.state u).trans ?_⟩
    exact sound.finished alive (ok.gone_other freed ok.system.running) ended
  · intro u v waiting
    obtain ⟨other, here, alive⟩ := waiters u v waiting
    refine ⟨?_, (congrFun same.live u).trans here, (congrFun same.live v).trans alive⟩
    simp only [ThreadSystem.kernel]
    rw [idle, sound.idle]
    exact other

theorem ThreadSystem.Ok.grown (ok : s.Ok) {system : System T} (next : SystemOk system) {a : T}
    (unused : s.kernel.live a = false ∨ s.freed a = true)
    (new : TableKept (createPthreadStruct (some a) s.kernel).1 system.kernel)
    (idle : system.kernel.idleThread = s.kernel.idleThread)
    (ended : ∀ u, u ≠ a → s.freed u = true → system.kernel.state u = finishedThread) :
    ThreadSystem.Ok ⟨system, Function.update s.waits a none, Function.update s.freed a false⟩ := by
  obtain ⟨xs, table, members⟩ := ok.table
  have outside : a ∉ xs := by
    intro member
    obtain ⟨alive, there⟩ := (members a).mp member
    rcases unused with dead | freed
    · rw [dead] at alive
      cases alive
    · rw [freed] at there
      cases there
  have live : ∀ u, system.kernel.live u = if u = a then true else s.kernel.live u := by
    intro u
    rw [new.live]
    simp [createPthreadStruct, Function.update_apply]
  refine ⟨next, ⟨a :: xs, (table.create outside).same new.nodes new.head, ?_⟩, ?_, ?_⟩
  · intro u
    simp only [ThreadSystem.kernel, live, List.mem_cons, members u, Function.update_apply]
    by_cases self : u = a
    · simp [self]
    · simp [self]
  · intro u freed
    simp only [Function.update_apply] at freed
    split at freed
    · cases freed
    · rename_i other
      refine ⟨?_, ended u other freed⟩
      simp only [ThreadSystem.kernel, live, if_neg other]
      exact (ok.gone u freed).1
  · intro u v waiting
    simp only [Function.update_apply] at waiting
    split at waiting
    · cases waiting
    · obtain ⟨other, here, alive⟩ := ok.waiters u v waiting
      simp only [ThreadSystem.kernel, live, idle, here, alive, ite_self]
      exact ⟨other, trivial, trivial⟩

end

section
variable {s : ThreadSystem T} {t : T}

theorem ThreadSystem.Ok.other [Fintype T] (ok : s.Ok) {l : Label T} {x : System T}
    {es : List (Event T)} (taken : s.system.step l = some (x, es)) :
    ThreadSystem.Ok { s with system := x } := by
  have next := ok.system.step taken
  rcases step_cases taken with ⟨w, env, k, pr, _, _, legal, ran, rfl, _⟩ |
    ⟨w, p, env, k, outcome, _, here, ran, rfl, _⟩
  · have move := (Work.run_ok ok.system.kernel ok.system.running legal ran).move
    rcases Work.run_table legal ran with ⟨kept, _⟩ | ⟨a, _, dead, new⟩
    · exact ok.settled move.sound kept next ok.waiters
    · have switched := settle_switch s.system w env k pr.outcome
      have unfreed : s.freed a = false := by
        by_contra freed
        rw [(ok.gone a (by simpa using freed)).1] at dead
        cases dead
      have idle : s.waits a = none := by
        by_contra waiting
        obtain ⟨v, waiting⟩ := Option.ne_none_iff_exists'.mp waiting
        rw [(ok.waiters a v waiting).2.1] at dead
        cases dead
      have grown := ok.grown next (Or.inl dead) (new.trans switched.quiet.table) (by
        rw [(settle_table s.system w env k pr.outcome).2, move.sound.idle]) (by
        intro u other freed
        obtain ⟨alive, ended⟩ := ok.gone u freed
        apply (switched.state u).trans
        exact move.sound.finished alive (ok.gone_other freed ok.system.running) ended)
      rw [← idle, ← unfreed, Function.update_eq_self, Function.update_eq_self] at grown
      exact grown
  · have move := Point.run_ok ok.system.kernel ok.system.running ran
    exact ok.settled move.sound (Point.run_table ran) next ok.waiters

omit [DecidableEq T] in
theorem done_fits : Point.fits (T := T) (.call .yield) .done := by
  intro s
  exact ⟨nofun, nofun, nofun⟩

theorem ThreadSystem.Ok.called (ok : s.Ok) (env : Env) {k : Kernel T} (outcome : Outcome)
    (sound : Sound s.kernel.currentThread s.kernel k) (kept : TableKept s.kernel k)
    (safe : IdleSafe k) (busy : s.kernel.currentThread ≠ s.kernel.idleThread)
    (stays : (∀ p, outcome ≠ .sched p) → k.state s.kernel.currentThread = readyThread)
    (point : ∀ p, outcome.onward = some p → p = .done) {waits : T → Option T}
    (waiters : ∀ u t, waits u = some t →
      u ≠ s.kernel.idleThread ∧ s.kernel.live u = true ∧ s.kernel.live t = true) :
    ThreadSystem.Ok { s.settle env k outcome with waits := waits } := by
  apply ok.settled sound kept _ waiters
  have idling := sound.idling ok.system.kernel ok.system.idling fun idle => absurd idle busy
  apply ok.system.settle _ env outcome sound.ok sound.idle sound.live _ idling safe
    (fun idle => absurd idle busy)
  · intro p onward
    rw [point p onward]
    exact done_fits
  · rw [sound.current]
    exact stays

end

section
variable {s : ThreadSystem T} {t : T}

theorem ThreadSystem.Ok.reaped (ok : s.Ok) {system : System T} (next : SystemOk system)
    (alive : s.kernel.live t = true) (there : s.freed t = false)
    (taken : TableKept (s.kernel.keepWords (deletePthreadStruct t s.kernel)) system.kernel)
    (idle : system.kernel.idleThread = s.kernel.idleThread)
    (ended : system.kernel.state t = finishedThread)
    (others : ∀ u, u ≠ t → s.freed u = true → system.kernel.state u = finishedThread)
    {waits : T → Option T} (waiters : ∀ u t, waits u = some t →
      u ≠ s.kernel.idleThread ∧ s.kernel.live u = true ∧ s.kernel.live t = true) :
    ThreadSystem.Ok ⟨system, waits, Function.update s.freed t true⟩ := by
  obtain ⟨xs, table, members⟩ := ok.table
  have rest := table.delete ((members t).mpr ⟨alive, there⟩)
  have live : system.kernel.live = s.kernel.live := taken.live
  refine ⟨next, ⟨xs.erase t, rest.same taken.nodes taken.head, ?_⟩, ?_, ?_⟩
  · intro u
    rw [table.2.mem_erase_iff, members u]
    simp only [ThreadSystem.kernel, live, Function.update_apply]
    by_cases self : u = t
    · simp [self]
    · simp [self]
  · intro u freed
    simp only [ThreadSystem.kernel, live]
    by_cases self : u = t
    · subst self
      exact ⟨alive, ended⟩
    · have was : s.freed u = true := by simpa [self] using freed
      exact ⟨(ok.gone u was).1, others u self was⟩
  · intro u v waiting
    simp only [ThreadSystem.kernel, live, idle]
    exact waiters u v waiting

omit [DecidableEq T] in
theorem ThreadSystem.Ok.busy_waits [DecidableEq T] (ok : s.Ok) {w : Option T}
    (busy : s.kernel.currentThread ≠ s.kernel.idleThread)
    (alive : ∀ t, w = some t → s.kernel.live t = true) (u v : T)
    (waiting : Function.update s.waits s.kernel.currentThread w u = some v) :
    u ≠ s.kernel.idleThread ∧ s.kernel.live u = true ∧ s.kernel.live v = true := by
  rw [Function.update_apply] at waiting
  split at waiting
  · rename_i self
    rw [self]
    exact ⟨busy, ok.system.kernel.current, alive v waiting⟩
  · exact ok.waiters u v waiting

theorem ThreadSystem.Ok.joined (ok : s.Ok) (env : Env)
    (busy : s.kernel.currentThread ≠ s.kernel.idleThread) (alive : s.kernel.live t = true)
    (there : s.freed t = false) {r : Kernel T × JoinStep}
    (ran : (∃ e v, r = (setErrno e s.kernel, .ret v)) ∨ r = joinLoop t s.kernel) :
    (s.joined t env r).Ok := by
  have cleared := ok.busy_waits (w := none) busy (by intro v same; cases same)
  rcases ran with ⟨e, v, rfl⟩ | rfl
  · exact ok.called env (.ret v) (ok.system.kernel.errno e) ⟨rfl, rfl, rfl⟩ (ok.system.safe.errno e) busy
      (fun _ => ok.system.running) (fun p same => by cases same) cleared
  · unfold joinLoop
    split
    · have waiting := ok.busy_waits (w := some t) busy fun v same => by cases same; exact alive
      have asleep := suspendThread_only s.kernel.currentThread
        (setJoining t (some s.kernel.currentThread) s.kernel)
      have noted : TableKept s.kernel (setJoining t (some s.kernel.currentThread) s.kernel) :=
        ⟨rfl, rfl, rfl⟩
      have safe : IdleSafe (setJoining t (some s.kernel.currentThread) s.kernel) :=
        ⟨ok.system.safe.signals, ok.system.safe.timers⟩
      exact ok.called env (.sched .done) (joinLoop_blocked ok.system.kernel t)
        (noted.trans asleep.quiet.table) (safe.sched asleep) busy (fun returns => absurd rfl (returns _))
        (fun p same => by cases same; rfl) waiting
    · rename_i ended
      rw [not_not] at ended
      have sound : Sound s.kernel.currentThread s.kernel
          (s.kernel.keepWords (deletePthreadStruct t s.kernel)) :=
        ok.system.kernel.reap alive (by rw [ended]; exact finished_ne_ready)
      have idling := sound.idling ok.system.kernel ok.system.idling fun idle => absurd idle busy
      have next := ok.system.settle (.call .yield) env (.ret 0) sound.ok
        sound.idle sound.live (fun _ => ok.system.running) idling
        ⟨ok.system.safe.signals, ok.system.safe.timers⟩ (fun idle => absurd idle busy)
        (fun p same => by cases same)
      exact ok.reaped next alive there ⟨rfl, rfl, rfl⟩ rfl ended (fun u _ freed => (ok.gone u freed).2)
        cleared

theorem pthreadJoinSys_cases (t : T) (k : Kernel T) :
    (∃ e v, pthreadJoinSys t k = (setErrno e k, .ret v)) ∨ pthreadJoinSys t k = joinLoop t k := by
  unfold pthreadJoinSys
  split
  · exact Or.inl ⟨_, _, rfl⟩
  · split
    · exact Or.inl ⟨_, _, rfl⟩
    · exact Or.inr rfl

theorem joinWoken_cases (t : T) (k : Kernel T) :
    (∃ e v, joinWoken t k = (setErrno e k, .ret v)) ∨ joinWoken t k = joinLoop t k := by
  unfold joinWoken
  split
  · exact Or.inl ⟨_, _, rfl⟩
  · exact Or.inr rfl

theorem ThreadSystem.Ok.deletedNp (ok : s.Ok) (env : Env) (alive : s.kernel.live t = true)
    (there : s.freed t = false) (other : t ≠ s.kernel.idleThread)
    (busy : s.kernel.currentThread ≠ s.kernel.idleThread) :
    ThreadSystem.Ok { s.settle env (s.kernel.keepWords (pthreadDeleteNpSys t s.kernel)) (.sched .done)
      with freed := Function.update s.freed t true } := by
  have sound := pthreadDeleteNpSys_sound ok.system.kernel alive
  have idling : (s.kernel.keepWords (pthreadDeleteNpSys t s.kernel)).state
      (s.kernel.keepWords (pthreadDeleteNpSys t s.kernel)).idleThread = readyThread := by
    rw [sound.idle]
    rcases sound.others _ ok.system.kernel.idle other.symm with same | ⟨_, woke⟩
    · rw [same, ok.system.idling]
    · exact woke
  have ended := ok.system.safe.sched (endThread_only t s.kernel)
  have next := ok.system.settle (.call .yield) env (.sched .done) sound.ok
    sound.idle sound.live (fun returns => absurd rfl (returns _)) idling
    ⟨ended.signals, ended.timers⟩ (fun idle => absurd idle busy)
    (fun p same => by cases same; exact done_fits)
  have switched := settle_switch s.system (.call .yield) env
    (s.kernel.keepWords (pthreadDeleteNpSys t s.kernel)) (.sched .done)
  have table := (endThread_only t s.kernel).quiet.table
  have deleted : TableKept (s.kernel.keepWords (deletePthreadStruct t s.kernel))
      (s.kernel.keepWords (pthreadDeleteNpSys t s.kernel)) := by
    refine ⟨?_, ?_, rfl⟩
    · simp only [pthreadDeleteNpSys_eq, Kernel.keepWords, deletePthreadStruct]
      rw [table.nodes, table.head]
    · simp only [pthreadDeleteNpSys_eq, Kernel.keepWords, deletePthreadStruct]
      rw [table.nodes, table.head]
  apply ok.reaped next alive there (deleted.trans switched.quiet.table) _ _ _ ok.waiters
  · exact (settle_table s.system (.call .yield) env _ (.sched .done)).2.trans sound.idle
  · exact (switched.state t).trans (endThread_state t s.kernel)
  · intro u apart freed
    obtain ⟨aliveU, overU⟩ := ok.gone u freed
    exact (switched.state u).trans (sound.finished aliveU apart overU)

end

section
variable {s : ThreadSystem T} {t : T}

theorem ThreadSystem.Ok.detached (ok : s.Ok) (env : Env) {k : Kernel T} {pr : Progress}
    (busy : s.kernel.currentThread ≠ s.kernel.idleThread)
    (ran : pthreadDetachSys t s.kernel = .ok (k, pr)) : (s.settle env k pr.outcome).Ok := by
  have sound : Sound s.kernel.currentThread s.kernel k := pthreadDetachSys_sound ok.system.kernel ran
  have effect : TableKept s.kernel k ∧ IdleSafe k ∧
      ((∀ p, pr.outcome ≠ .sched p) → k.state s.kernel.currentThread = readyThread) ∧
      ∀ p, pr.outcome.onward = some p → p = .done := by
    unfold pthreadDetachSys at ran
    split at ran
    · cases ran
      exact ⟨⟨rfl, rfl, rfl⟩, ok.system.safe.errno esrch, fun _ => ok.system.running, nofun⟩
    · split at ran
      · cases ran
        exact ⟨⟨rfl, rfl, rfl⟩, ok.system.safe.errno einval, fun _ => ok.system.running, nofun⟩
      · simp only at ran
        split at ran
        · cases ran
        · rename_i joiner _
          cases ran
          have only := (setFlags_only t (setThreadDetachState (s.kernel.threadFlags t) true)
            s.kernel).trans (activateThread_only joiner _)
          have kept := only.quiet.table
          have safe := ok.system.safe.sched only
          exact ⟨⟨kept.nodes, kept.head, kept.live⟩, ⟨safe.signals, safe.timers⟩,
            fun returns => absurd rfl (returns _), fun p same => by cases same; rfl⟩
  obtain ⟨kept, safe, stays, point⟩ := effect
  exact ok.called env pr.outcome sound kept safe busy stays point ok.waiters

theorem pthreadCreateSys_point (addr : Option T) (stack : Bool) (attr : Option PthreadAttr)
    (k : Kernel T) (p : Point) :
    (pthreadCreateSys addr stack attr k).2.outcome.onward = some p → p = .done := by
  intro onward
  unfold pthreadCreateSys at onward
  split at onward
  · cases onward
  · cases addr with
    | none => cases onward
    | some a =>
      simp only [createPthreadStruct] at onward
      split at onward
      · cases onward
      · cases onward
        rfl

omit [DecidableEq T] in
theorem SystemOk.leaves [DecidableEq T] {s : System T} (ok : SystemOk s) (a : T) :
    SystemOk { s with cont := Function.update s.cont a none } := by
  have before : ∀ {u : T} {v : Work T × Point}, Function.update s.cont a none u = some v →
      s.cont u = some v := by
    intro u v here
    rw [Function.update_apply] at here
    split at here
    · cases here
    · exact here
  exact ⟨ok.kernel, ok.running, ok.idling, ok.safe, fun t w p here => ok.fits t w p (before here),
    fun t w p here => ok.inside t w p (before here), fun w p here => ok.idler w p (before here)⟩

theorem ThreadSystem.Ok.recreated (ok : s.Ok) {a : T} (freed : s.freed a = true) (stack : Bool)
    (attr : Option PthreadAttr) (env : Env)
    (busy : s.kernel.currentThread ≠ s.kernel.idleThread) : (s.recreated a stack attr env).Ok := by
  obtain ⟨alive, ended⟩ := ok.gone a freed
  have notReady : s.kernel.state a ≠ readyThread := by
    rw [ended]
    exact finished_ne_ready
  have sound := pthreadCreateSys_at ok.system.kernel (Or.inr notReady) stack attr
  have apart := (ok.gone_other freed ok.system.running).symm
  have idle := (ok.gone_other freed ok.system.idling).symm
  have awake : ∀ u, u ≠ a → s.kernel.live u = true → s.kernel.state u = readyThread →
      (pthreadCreateSys (some a) stack attr s.kernel).1.state u = readyThread := by
    intro u other aliveU ready
    rcases sound.others u aliveU other with same | ⟨_, woke⟩
    · rw [same, ready]
    · exact woke
  have other : some a ≠ some s.kernel.idleThread := fun same => idle (Option.some.inj same).symm
  have safe := ok.system.safe.pthreadCreate other stack attr
  have next := ok.system.settle (.call .yield) env
    (pthreadCreateSys (some a) stack attr s.kernel).2.outcome sound.ok sound.idle
    sound.live
    (fun _ => by rw [sound.current]; exact awake _ apart ok.system.kernel.current ok.system.running)
    (by rw [sound.idle]; exact awake _ idle ok.system.kernel.idle ok.system.idling) safe
    (fun idle => absurd idle busy) (fun p onward => by
      rw [pthreadCreateSys_point _ stack attr _ p onward]
      exact done_fits)
  have switched := settle_switch s.system (.call .yield) env
    (pthreadCreateSys (some a) stack attr s.kernel).1
    (pthreadCreateSys (some a) stack attr s.kernel).2.outcome
  simp only [ThreadSystem.recreated]
  rcases pthreadCreateSys_table (some a) stack attr s.kernel with
    ⟨kept, none | refused⟩ | ⟨b, same, accepted, new⟩
  · cases none
  · have failed : pthreadCreateSys (some a) stack attr s.kernel =
        (setErrno einval s.kernel, .ret (-1)) := by
      unfold pthreadCreateSys
      rw [if_pos refused]
    rw [if_pos refused, failed]
    exact ok.called env (.ret (-1)) (ok.system.kernel.errno einval) ⟨rfl, rfl, rfl⟩
      (ok.system.safe.errno einval) busy (fun _ => ok.system.running) nofun ok.waiters
  · cases same
    rw [if_neg accepted]
    apply ok.grown (next.leaves a) (Or.inr freed) (new.trans switched.quiet.table)
    · exact (settle_table s.system (.call .yield) env _ _).2.trans sound.idle
    · intro u other freedU
      obtain ⟨aliveU, overU⟩ := ok.gone u freedU
      exact (switched.state u).trans (sound.finished aliveU other overU)

end

omit [DecidableEq T] in
theorem ThreadSystem.calls_busy [DecidableEq T] {s : ThreadSystem T} (calls : s.calls = true) :
    s.kernel.currentThread ≠ s.kernel.idleThread := by
  simp only [ThreadSystem.calls, Bool.and_eq_true, bne_iff_ne] at calls
  exact calls.2

theorem ThreadSystem.handle_iff {s : ThreadSystem T} {t : T} (valid : s.handle t = true) :
    s.kernel.live t = true ∧ s.freed t = false ∧ t ≠ s.kernel.idleThread := by
  simp only [ThreadSystem.handle, Bool.and_eq_true, Bool.not_eq_true', bne_iff_ne] at valid
  exact ⟨valid.1.1, valid.1.2, valid.2⟩

/-! What each label needs and does. -/
section
variable [Fintype T] {s x : ThreadSystem T} {t : T} {env : Env} {es : List Unit}

theorem ThreadSystem.took_other {l : Label T} (taken : s.step (.other l) = some (x, es)) :
    s.waits s.kernel.currentThread = none ∧
      ∃ y fs, s.system.step l = some (y, fs) ∧ x = { s with system := y } := by
  simp only [ThreadSystem.step, Option.ite_none_right_eq_some, Option.isNone_iff_eq_none,
    Option.map_eq_some_iff, Prod.mk.injEq] at taken
  obtain ⟨free, ⟨y, fs⟩, went, rfl, _⟩ := taken
  exact ⟨free, y, fs, went, rfl⟩

theorem ThreadSystem.took_recreate {stack : Bool} {attr : Option PthreadAttr}
    (taken : s.step (.recreate t stack attr env) = some (x, es)) :
    s.calls = true ∧ s.freed t = true ∧ x = s.recreated t stack attr env := by
  simp only [ThreadSystem.step, Option.ite_none_right_eq_some, Option.some.injEq, Prod.mk.injEq,
    Bool.and_eq_true] at taken
  obtain ⟨⟨calls, freed⟩, rfl, _⟩ := taken
  exact ⟨calls, freed, rfl⟩

theorem ThreadSystem.took_join (taken : s.step (.join t env) = some (x, es)) :
    s.calls = true ∧ s.handle t = true ∧ x = s.joined t env (pthreadJoinSys t s.kernel) := by
  simp only [ThreadSystem.step, Option.ite_none_right_eq_some, Option.some.injEq, Prod.mk.injEq,
    Bool.and_eq_true] at taken
  obtain ⟨⟨calls, valid⟩, rfl, _⟩ := taken
  exact ⟨calls, valid, rfl⟩

theorem ThreadSystem.took_rejoin (taken : s.step (.rejoin env) = some (x, es)) :
    ∃ t, s.waits s.kernel.currentThread = some t ∧ s.freed t = false ∧
      x = s.joined t env (joinWoken t s.kernel) := by
  simp only [ThreadSystem.step] at taken
  split at taken
  · rename_i t waiting
    simp only [Option.ite_none_left_eq_some, Bool.not_eq_true, Option.some.injEq,
      Prod.mk.injEq] at taken
    obtain ⟨there, rfl, _⟩ := taken
    exact ⟨t, waiting, there, rfl⟩
  · cases taken

theorem ThreadSystem.took_detach (taken : s.step (.detach t env) = some (x, es)) :
    s.calls = true ∧ s.handle t = true ∧ ∃ k pr, pthreadDetachSys t s.kernel = .ok (k, pr) ∧
      x = s.settle env k pr.outcome := by
  simp only [ThreadSystem.step, Option.ite_none_right_eq_some, Bool.and_eq_true] at taken
  obtain ⟨⟨calls, valid⟩, taken⟩ := taken
  split at taken
  · rename_i k pr ran
    cases taken
    exact ⟨calls, valid, k, pr, ran, rfl⟩
  · cases taken

theorem ThreadSystem.took_deleteNp (taken : s.step (.deleteNp t env) = some (x, es)) :
    s.calls = true ∧ s.handle t = true ∧
      x = { s.settle env (s.kernel.keepWords (pthreadDeleteNpSys t s.kernel)) (.sched .done)
        with freed := Function.update s.freed t true } := by
  simp only [ThreadSystem.step, Option.ite_none_right_eq_some, Option.some.injEq, Prod.mk.injEq,
    Bool.and_eq_true] at taken
  obtain ⟨⟨calls, valid⟩, rfl, _⟩ := taken
  exact ⟨calls, valid, rfl⟩

end

theorem ThreadSystem.Ok.step [Fintype T] {s x : ThreadSystem T} {l : ThreadLabel T} {es : List Unit}
    (ok : s.Ok) (taken : s.step l = some (x, es)) : x.Ok := by
  cases l with
  | other l =>
    obtain ⟨_, y, fs, moved, rfl⟩ := took_other taken
    exact ok.other moved
  | recreate a stack attr env =>
    obtain ⟨calls, freed, rfl⟩ := took_recreate taken
    exact ok.recreated freed stack attr env (calls_busy calls)
  | join t env =>
    obtain ⟨calls, valid, rfl⟩ := took_join taken
    obtain ⟨alive, there, _⟩ := handle_iff valid
    exact ok.joined env (calls_busy calls) alive there (pthreadJoinSys_cases t s.kernel)
  | rejoin env =>
    obtain ⟨t, waiting, there, rfl⟩ := took_rejoin taken
    obtain ⟨busy, _, alive⟩ := ok.waiters _ t waiting
    exact ok.joined env busy alive there (joinWoken_cases t s.kernel)
  | detach t env =>
    obtain ⟨calls, _, k, pr, ran, rfl⟩ := took_detach taken
    exact ok.detached env (calls_busy calls) ran
  | deleteNp t env =>
    obtain ⟨calls, valid, rfl⟩ := took_deleteNp taken
    obtain ⟨alive, there, other⟩ := handle_iff valid
    exact ok.deletedNp env alive there other (calls_busy calls)

theorem joinLoop_deletes {t : T} {k w : Kernel T} (ran : joinLoop t k = (w, .deleted)) :
    k.state t = finishedThread ∧ w = deletePthreadStruct t k := by
  unfold joinLoop at ran
  split at ran
  · cases ran
  · rename_i ended
    cases ran
    exact ⟨not_not.mp ended, rfl⟩

theorem ThreadSystem.Ok.deletes [Fintype T] {s x : ThreadSystem T} {l : ThreadLabel T}
    {es : List Unit} {t : T} {w : Kernel T} (ok : s.Ok) (taken : s.step l = some (x, es))
    (deletes : s.deletes l = some (t, w)) :
    ∃ k, w = deletePthreadStruct t k ∧ SchedOnly s.kernel k ∧ Sound t s.kernel k ∧
      k.state t = finishedThread ∧ s.kernel.live t = true ∧ s.freed t = false ∧
      t ≠ s.kernel.idleThread := by
  have joined : ∀ {r : Kernel T × JoinStep},
      ((∃ e v, r = (setErrno e s.kernel, .ret v)) ∨ r = joinLoop t s.kernel) → r = (w, .deleted) →
      s.kernel.live t = true → s.freed t = false → ∃ k, w = deletePthreadStruct t k ∧
        SchedOnly s.kernel k ∧ Sound t s.kernel k ∧ k.state t = finishedThread ∧
        s.kernel.live t = true ∧ s.freed t = false ∧ t ≠ s.kernel.idleThread := by
    intro r ran same alive there
    rcases ran with ⟨e, v, rfl⟩ | rfl
    · cases same
    · obtain ⟨ended, eq⟩ := joinLoop_deletes same
      refine ⟨s.kernel, eq, rfl, .refl ok.system.kernel, ended, alive, there, ?_⟩
      rintro rfl
      rw [ok.system.idling] at ended
      exact ready_ne_finished ended
  cases l with
  | other l => cases deletes
  | recreate a stack attr env => cases deletes
  | detach u env => cases deletes
  | join u env =>
    simp only [ThreadSystem.deletes] at deletes
    split at deletes
    · rename_i k ran
      cases deletes
      obtain ⟨_, valid, _⟩ := took_join taken
      obtain ⟨alive, there, _⟩ := handle_iff valid
      exact joined (pthreadJoinSys_cases t s.kernel) ran alive there
    · cases deletes
  | rejoin env =>
    simp only [ThreadSystem.deletes] at deletes
    obtain ⟨u, waiting, deletes⟩ := Option.bind_eq_some_iff.mp deletes
    split at deletes
    · rename_i k ran
      cases deletes
      obtain ⟨u, same, there, _⟩ := took_rejoin taken
      rw [waiting] at same
      cases same
      exact joined (joinWoken_cases t s.kernel) ran (ok.waiters _ t waiting).2.2 there
    · cases deletes
  | deleteNp u env =>
    cases deletes
    obtain ⟨_, valid, _⟩ := took_deleteNp taken
    obtain ⟨alive, there, other⟩ := handle_iff valid
    exact ⟨endThread t s.kernel, pthreadDeleteNpSys_eq t s.kernel, endThread_only t s.kernel,
      endThread_sound ok.system.kernel alive, endThread_state t s.kernel, alive, there, other⟩

theorem spawn_tabled {k : Kernel T} {xs : List T} (table : Tabled k xs)
    (members : ∀ u, u ∈ xs ↔ k.live u = true) (threads : List (T × Int))
    (nodup : (threads.map Prod.fst).Nodup) (unused : ∀ x ∈ threads, k.live x.1 = false) :
    ∃ ys, Tabled (threads.foldl spawn k) ys ∧
      ∀ u, u ∈ ys ↔ (threads.foldl spawn k).live u = true := by
  induction threads generalizing k xs with
  | nil => exact ⟨xs, table, members⟩
  | cons x threads ih =>
    rw [List.map_cons, List.nodup_cons] at nodup
    have only : SchedOnly (createPthreadStruct (some x.1) k).1 (spawn k x) :=
      (changeThreadPrio_only x.1 x.2 _).trans (activateThread_only x.1 _)
    have kept := only.quiet.table
    have outside : x.1 ∉ xs := by
      intro member
      have alive := (members x.1).mp member
      rw [unused x List.mem_cons_self] at alive
      cases alive
    have live : ∀ u, (spawn k x).live u = if u = x.1 then true else k.live u := by
      intro u
      rw [kept.live]
      simp [createPthreadStruct, Function.update_apply]
    apply ih ((table.create outside).same kept.nodes kept.head) _ nodup.2
    · intro y later
      have other : y.1 ≠ x.1 := fun same => nodup.1 (same ▸ List.mem_map_of_mem later)
      rw [live, if_neg other]
      exact unused y (List.mem_cons_of_mem x later)
    · intro u
      rw [live, List.mem_cons, members u]
      by_cases self : u = x.1
      · simp [self]
      · simp [self]

theorem ThreadSystem.ok_start (idle : T) (threads : List (T × Int))
    (nodup : (threads.map Prod.fst).Nodup) (p : Int) (member : (idle, p) ∈ threads) :
    ThreadSystem.Ok ⟨startSystem idle threads, fun _ => none, fun _ => false⟩ := by
  have empty : Tabled (bootKernel idle) [] := ⟨rfl, List.nodup_nil⟩
  obtain ⟨xs, table, members⟩ := spawn_tabled empty (fun u => by simp [bootKernel]) threads nodup
    (fun _ _ => rfl)
  have kept := (scheduling_only 0 (threads.foldl spawn (bootKernel idle))).quiet.table
  refine ⟨(startSystem_started idle threads nodup p member).ok,
    ⟨xs, table.same kept.nodes kept.head, ?_⟩, nofun, nofun⟩
  intro u
  rw [members u]
  simp only [ThreadSystem.kernel, startSystem, and_true]
  rw [kept.live]

/-- A deletion leaves no reference to the thread, and lets it run no more, exactly
    if nothing but the ready lists and thread_list referred to it before. -/
theorem deleted_unreferenced_iff [Fintype T] (idle : T) (threads : List (T × Int))
    (nodup : (threads.map Prod.fst).Nodup) (p : Int) (member : (idle, p) ∈ threads)
    (ls : List (ThreadLabel T)) (s : ThreadSystem T) (es : List Unit)
    (run : Lts.exec ThreadSystem.step ⟨startSystem idle threads, fun _ => none, fun _ => false⟩ ls =
      some (s, es))
    (l : ThreadLabel T) (x : ThreadSystem T) (first : List Unit) (taken : s.step l = some (x, first))
    (t : T) (w : Kernel T) (deletes : s.deletes l = some (t, w)) (now : Duration) :
    (Unreferenced s.freed t w ∧ (scheduling now w).currentThread ≠ t) ↔ LetGo s.freed t s.kernel := by
  have ok : s.Ok := Lts.exec_always (fun s => s.Ok) (fun s l w first ok taken => ok.step taken) ls
    (ThreadSystem.ok_start idle threads nodup p member) run
  obtain ⟨k, rfl, only, sound, ended, alive, there, other⟩ := ok.deletes taken deletes
  obtain ⟨r, inv⟩ := sound.ok.ready
  obtain ⟨xs, table, members⟩ := ok.table
  have kept := only.quiet.table
  have aliveK : k.live t = true := (congrFun kept.live t).trans alive
  rw [deletePthreadStruct_unreferenced inv aliveK (table.same kept.nodes kept.head)
    ((members t).mpr ⟨alive, there⟩), only.letGo]
  refine ⟨fun both => both.1, fun free => ⟨free, ?_⟩⟩
  -- the idle thread is still READY, so the next thread is on a ready list
  have after := deletePthreadStruct_readyInv inv aliveK
  have apart : k.idleThread ≠ t := by
    rw [sound.idle]
    exact other.symm
  have idling : (deletePthreadStruct t k).state k.idleThread = readyThread := by
    show k.state k.idleThread = readyThread
    rw [sound.idle]
    rcases sound.others _ ok.system.kernel.idle other.symm with same | ⟨_, woke⟩
    · rw [same, ok.system.idling]
    · exact woke
  have aliveIdle : (deletePthreadStruct t k).live k.idleThread = true := by
    simp only [deletePthreadStruct, Function.update_of_ne apart]
    exact sound.ok.idle
  have queued := (after.listed _ _).mpr ⟨aliveIdle, idling, rfl⟩
  obtain ⟨⟨c, head, _⟩, _⟩ := scheduling_head after sound.ok.irq (List.ne_nil_of_mem queued) now
  obtain ⟨aliveNext, _⟩ := (after.listed _ _).mp (List.mem_of_mem_head? head)
  intro same
  rw [same] at aliveNext
  simp [deletePthreadStruct] at aliveNext

def threeThreads : ThreadSystem (Fin 3) :=
  ⟨startSystem 0 [(0, 1023), (1, 5), (2, 9)], fun _ => none, fun _ => false⟩

theorem deleted_unreferenced_iff_joined :
    ∃ s x w, Lts.exec ThreadSystem.step threeThreads [.other (.enter (.call .exit) stillEnv)] =
        some (s, []) ∧
      s.step (.join 1 stillEnv) = some (x, []) ∧ s.deletes (.join 1 stillEnv) = some (1, w) ∧
      Unreferenced s.freed 1 w ∧ (scheduling 0 w).currentThread ≠ 1 := by
  have objects : (Lts.exec ThreadSystem.step threeThreads
      [.other (.enter (.call .exit) stillEnv)]).map
      (fun r => (r.1.kernel.mutex, r.1.kernel.cond, r.1.kernel.sem)) =
      some (fun _ => ⟨0, ⟨.none, 0, .normal, 0⟩, none, none⟩, fun _ => none, fun _ => ⟨0, none⟩) := rfl
  have final : ((Lts.exec ThreadSystem.step threeThreads
      [.other (.enter (.call .exit) stillEnv)]).bind fun r =>
      (r.1.step (.join 1 stillEnv)).bind fun q => (r.1.deletes (.join 1 stillEnv)).map fun d =>
        (r.2, q.2, d.1, r.1.kernel.timerHeap.nelem, decide (∀ u, r.1.kernel.joiningThread u ≠ some 1),
          (List.range maxTimers).all fun i =>
            !(r.1.kernel.timerArray i).inUse || (r.1.kernel.timerArray i).owner != some 1)) =
      some ([], [], 1, 0, true, true) := by decide +kernel
  obtain ⟨⟨s, es⟩, run, rest⟩ := Option.bind_eq_some_iff.mp final
  obtain ⟨⟨x, first⟩, taken, rest⟩ := Option.bind_eq_some_iff.mp rest
  obtain ⟨⟨t, w⟩, deletes, there⟩ := Option.map_eq_some_iff.mp rest
  simp only [Prod.mk.injEq, decide_eq_true_eq] at there
  obtain ⟨rfl, rfl, rfl, empty, joiners, timers⟩ := there
  rw [run, Option.map_some, Option.some.injEq, Prod.mk.injEq, Prod.mk.injEq] at objects
  obtain ⟨mutexes, conds, sems⟩ := objects
  have free : LetGo s.freed 1 s.kernel := by
    refine ⟨fun m linked => ?_, fun c linked => ?_, fun c linked => ?_, fun i inside used owner => ?_,
      fun n i above below => ?_, fun u _ _ _ joins => ?_⟩
    · rw [mutexes] at linked
      cases linked
    · rw [conds] at linked
      cases linked
    · rw [sems] at linked
      cases linked
    · have each := List.all_eq_true.mp timers i (List.mem_range.mpr inside)
      simp [used, owner] at each
    · rw [empty] at below
      omega
    · exact joiners u joins
  have gone := (deleted_unreferenced_iff 0 [(0, 1023), (1, 5), (2, 9)] (by decide) 1023 (by simp) _ s []
    run _ x [] taken 1 w deletes 0).mpr free
  exact ⟨s, x, w, run, taken, deletes, gone.1, gone.2⟩

theorem deleted_still_waiting :
    ∃ s x w, Lts.exec ThreadSystem.step threeThreads [.other (.enter (.call (.semWait 0)) stillEnv)] =
        some (s, []) ∧
      s.step (.deleteNp 1 stillEnv) = some (x, []) ∧ s.deletes (.deleteNp 1 stillEnv) = some (1, w) ∧
      ¬(Unreferenced s.freed 1 w ∧ (scheduling 0 w).currentThread ≠ 1) := by
  have final : ((Lts.exec ThreadSystem.step threeThreads
      [.other (.enter (.call (.semWait 0)) stillEnv)]).bind fun r =>
      (r.1.step (.deleteNp 1 stillEnv)).bind fun q => (r.1.deletes (.deleteNp 1 stillEnv)).map fun d =>
        (r.2, q.2, d.1, (d.2.sem 0).semList)) = some ([], [], 1, some 1) := by decide +kernel
  obtain ⟨⟨s, es⟩, run, rest⟩ := Option.bind_eq_some_iff.mp final
  obtain ⟨⟨x, first⟩, taken, rest⟩ := Option.bind_eq_some_iff.mp rest
  obtain ⟨⟨t, w⟩, deletes, there⟩ := Option.map_eq_some_iff.mp rest
  simp only [Prod.mk.injEq] at there
  obtain ⟨rfl, rfl, rfl, waits⟩ := there
  refine ⟨s, x, w, run, taken, deletes, fun gone => ?_⟩
  apply gone.1.sems 0
  rw [waits]
  exact .here 1

end L4ertl
