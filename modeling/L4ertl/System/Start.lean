import L4ertl.System.SystemOk

/-!
Where a run starts: every thread in user mode, nothing on any wait list. The
kernel is in such a state once it has been booted and the first threads exist.
-/
namespace L4ertl
open Intrusive
variable {T : Type} [DecidableEq T]

/-- A kernel in which nothing has happened yet but the creation of threads. -/
structure Fresh (k : Kernel T) : Prop where
  ready : ∃ r, ReadyInv k r
  nodes : ∀ t, k.mutexNode t = detached ∧ k.condNode t = detached ∧ k.semNode t = detached
  mutexes : ∀ m, (k.mutex m).mutexList = none ∧ (k.mutex m).owner = none
  conds : ∀ c, k.cond c = none
  sems : ∀ s, (k.sem s).semList = none
  timers : ∀ i u, (k.timerArray i).owner = some u →
    k.live u = true ∧ (k.timerArray i).action = .wakeup
  joiners : ∀ t, k.joiningThread t = none
  signals : ∀ t, k.sigpending t = 0#32
  irq : k.irqNestingCounter = 0#32 ∨ k.irqNestingCounter = schedPending

structure Started (s : System T) : Prop where
  fresh : Fresh s.kernel
  user : ∀ t, s.cont t = none
  current : s.kernel.live s.kernel.currentThread = true
  running : s.kernel.state s.kernel.currentThread = readyThread
  idle : s.kernel.live s.kernel.idleThread = true
  idling : s.kernel.state s.kernel.idleThread = readyThread

omit [DecidableEq T] in
theorem Fresh.refs {k : Kernel T} (fresh : Fresh k) : RefsLive k where
  mutexes m := by
    refine ⟨fun u eq => ?_, fun t u eq => ?_⟩
    · rw [(fresh.mutexes m).1] at eq
      cases eq
    · rw [(fresh.nodes t).1] at eq
      cases eq
  conds c := by
    refine ⟨fun u eq => ?_, fun t u eq => ?_⟩
    · rw [fresh.conds c] at eq
      cases eq
    · rw [(fresh.nodes t).2.1] at eq
      cases eq
  sems s := by
    refine ⟨fun u eq => ?_, fun t u eq => ?_⟩
    · rw [fresh.sems s] at eq
      cases eq
    · rw [(fresh.nodes t).2.2] at eq
      cases eq
  owners i u owner := (fresh.timers i u owner).1
  joiners t u eq := by
    rw [fresh.joiners t] at eq
    cases eq

omit [DecidableEq T] in
theorem Started.ok {s : System T} (start : Started s) : SystemOk s where
  kernel := ⟨start.fresh.ready, start.fresh.refs, start.current, start.idle, start.fresh.irq⟩
  running := start.running
  idling := start.idling
  safe := ⟨start.fresh.signals _, fun i owner => (start.fresh.timers i _ owner).2⟩
  fits t w p here := by
    rw [start.user t] at here
    cases here
  inside t w p here := by
    rw [start.user t] at here
    cases here
  idler w p here := by
    rw [start.user _] at here
    cases here

theorem bootKernel_fresh (idle : T) : Fresh (bootKernel idle) where
  ready := ⟨_, Booted.readyInv ⟨fun _ => rfl, _, rfl⟩⟩
  nodes _ := ⟨rfl, rfl, rfl⟩
  mutexes _ := ⟨rfl, rfl⟩
  conds _ := rfl
  sems _ := rfl
  timers _ _ owner := by cases owner
  joiners _ := rfl
  signals _ := rfl
  irq := Or.inl rfl

theorem createPthreadStruct_fresh {k : Kernel T} (fresh : Fresh k) {a : T}
    (unused : k.live a = false) : Fresh (createPthreadStruct (some a) k).1 where
  ready := by
    obtain ⟨r, inv⟩ := fresh.ready
    exact ⟨_, createPthreadStruct_readyInv inv (Or.inl unused)⟩
  nodes t := by
    obtain ⟨mutex, cond, sem⟩ := fresh.nodes t
    simp only [createPthreadStruct, Function.update_apply]
    split
    · exact ⟨rfl, rfl, rfl⟩
    · exact ⟨mutex, cond, sem⟩
  mutexes := fresh.mutexes
  conds := fresh.conds
  sems := fresh.sems
  timers i u owner := by
    refine ⟨(createPthreadStruct_refs fresh.refs a).owners i u owner, ?_⟩
    simp only [createPthreadStruct, allocKtimer] at owner ⊢
    split at owner
    · rename_i full
      rw [if_pos full]
      exact (fresh.timers i u owner).2
    · rename_i free
      rw [if_neg free]
      simp only [Function.update_apply] at owner ⊢
      split at owner
      · rename_i same
        rw [if_pos same]
      · rename_i apart
        rw [if_neg apart]
        exact (fresh.timers i u owner).2
  joiners t := by
    simp only [createPthreadStruct, Function.update_apply]
    split
    · rfl
    · exact fresh.joiners t
  signals t := by
    simp only [createPthreadStruct, Function.update_apply]
    split
    · rfl
    · exact fresh.signals t
  irq := fresh.irq

omit [DecidableEq T] in
theorem Fresh.sched {k w : Kernel T} (fresh : Fresh k) (only : SchedOnly k w)
    (ready : ∃ r, ReadyInv w r) : Fresh w := by
  unfold SchedOnly at only
  rw [only] at ready ⊢
  exact ⟨ready, fresh.nodes, fresh.mutexes, fresh.conds, fresh.sems, fresh.timers, fresh.joiners,
    fresh.signals, fresh.irq⟩

theorem spawn_fresh {k : Kernel T} (fresh : Fresh k) {x : T × Int} (unused : k.live x.1 = false) :
    Fresh (spawn k x) ∧ (spawn k x).idleThread = k.idleThread ∧
      (spawn k x).live x.1 = true ∧ (spawn k x).state x.1 = readyThread ∧
      ∀ u, u ≠ x.1 → (spawn k x).live u = k.live u ∧ (spawn k x).state u = k.state u := by
  have created := createPthreadStruct_fresh fresh unused
  have alive : (createPthreadStruct (some x.1) k).1.live x.1 = true := by simp [createPthreadStruct]
  have asleep : (createPthreadStruct (some x.1) k).1.state x.1 ≠ finishedThread := by
    simp [Kernel.state, createPthreadStruct]
    decide
  obtain ⟨r, inv⟩ := created.ready
  obtain ⟨r', changed, _⟩ := changeThreadPrio_readyInv inv alive x.2
  have set := changeThreadPrio_only x.1 x.2 (createPthreadStruct (some x.1) k).1
  have only : SchedOnly (createPthreadStruct (some x.1) k).1 (spawn k x) :=
    set.trans (activateThread_only x.1 _)
  have alive' : (changeThreadPrio x.1 x.2 (createPthreadStruct (some x.1) k).1).live x.1 = true := by
    rw [congrArg Kernel.live set]
    exact alive
  obtain ⟨r'', woken, _⟩ := activateThread_readyInv changed alive'
  have live := congrArg Kernel.live only
  have idle := congrArg Kernel.idleThread only
  have states : ∀ u, (spawn k x).state u = if u = x.1 then readyThread else
      (createPthreadStruct (some x.1) k).1.state u := by
    intro u
    unfold spawn
    rw [activateThread_state]
    simp only [Kernel.state, changeThreadPrio_flags] at asleep ⊢
    by_cases self : u = x.1
    · simp [self, asleep]
    · simp [self]
  refine ⟨created.sched only ⟨r'', woken⟩, idle, ?_, ?_, ?_⟩
  · rw [live]
    exact alive
  · rw [states, if_pos rfl]
  · intro u other
    rw [live, states, if_neg other]
    simp [createPthreadStruct, Kernel.state, other]

theorem spawn_all {k : Kernel T} (fresh : Fresh k) (threads : List (T × Int))
    (nodup : (threads.map Prod.fst).Nodup) (unused : ∀ x ∈ threads, k.live x.1 = false) :
    let w := threads.foldl spawn k
    Fresh w ∧ w.idleThread = k.idleThread ∧
      (∀ x ∈ threads, w.live x.1 = true ∧ w.state x.1 = readyThread) ∧
      ∀ u, u ∉ threads.map Prod.fst → w.live u = k.live u ∧ w.state u = k.state u := by
  induction threads generalizing k with
  | nil => exact ⟨fresh, rfl, nofun, fun u _ => ⟨rfl, rfl⟩⟩
  | cons x threads ih =>
    rw [List.map_cons, List.nodup_cons] at nodup
    obtain ⟨spawned, idle, alive, ready, others⟩ := spawn_fresh fresh (unused x (by simp))
    have apart : ∀ y ∈ threads, y.1 ≠ x.1 := by
      intro y member same
      exact nodup.1 (same ▸ List.mem_map_of_mem member)
    have left : ∀ y ∈ threads, (spawn k x).live y.1 = false := by
      intro y member
      rw [(others y.1 (apart y member)).1]
      exact unused y (by simp [member])
    obtain ⟨final, idle', all, rest⟩ := ih spawned nodup.2 left
    refine ⟨final, idle'.trans idle, ?_, ?_⟩
    · intro y member
      rcases List.mem_cons.mp member with same | later
      · subst same
        obtain ⟨live', state'⟩ := rest y.1 nodup.1
        simp only [List.foldl_cons]
        rw [live', state']
        exact ⟨alive, ready⟩
      · exact all y later
    · intro u outside
      simp only [List.map_cons, List.mem_cons, not_or] at outside
      obtain ⟨live', state'⟩ := rest u outside.2
      simp only [List.foldl_cons]
      rw [live', state']
      exact others u outside.1

theorem startSystem_started (idle : T) (threads : List (T × Int))
    (nodup : (threads.map Prod.fst).Nodup) (p : Int) (member : (idle, p) ∈ threads) :
    Started (startSystem idle threads) := by
  obtain ⟨fresh, same, all, _⟩ := spawn_all (bootKernel_fresh idle) threads nodup (fun _ _ => rfl)
  obtain ⟨alive, ready⟩ := all _ member
  have idling : (threads.foldl spawn (bootKernel idle)).state
      (threads.foldl spawn (bootKernel idle)).idleThread = readyThread := by
    rw [same]
    exact ready
  have alive' : (threads.foldl spawn (bootKernel idle)).live
      (threads.foldl spawn (bootKernel idle)).idleThread = true := by
    rw [same]
    exact alive
  obtain ⟨r, inv⟩ := fresh.ready
  have queued := (inv.listed _ _).mpr ⟨alive', idling, rfl⟩
  have only := scheduling_only 0 (threads.foldl spawn (bootKernel idle))
  obtain ⟨⟨c, head, _⟩, irq⟩ := scheduling_head inv fresh.irq (List.ne_nil_of_mem queued) 0
  obtain ⟨alive'', ready', _⟩ := (inv.listed _ _).mp (List.mem_of_mem_head? head)
  have live := congrArg Kernel.live only
  have table := congrArg Kernel.idleThread only
  have fresh' : Fresh (scheduling 0 (threads.foldl spawn (bootKernel idle))) := by
    rw [only]
    exact ⟨⟨r, inv.congr rfl rfl rfl rfl⟩, fresh.nodes, fresh.mutexes, fresh.conds, fresh.sems,
      fresh.timers, fresh.joiners, fresh.signals, irq⟩
  refine ⟨fresh', fun _ => rfl, ?_, ?_, ?_, ?_⟩
  · exact (congrFun live _).trans alive''
  · exact (only.state _).trans ready'
  · exact (congrFun live _).trans (table ▸ alive')
  · exact (only.state _).trans (table ▸ idling)

end L4ertl
