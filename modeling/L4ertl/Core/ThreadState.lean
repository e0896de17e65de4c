import L4ertl.Core.Kernel

/-!
Thread states and ready lists are two records of one fact, updated separately.
`ReadyInv` says they agree: a live thread is listed exactly when its state is
READY, at the priority it has now. Every scheduler operation keeps it.
-/
namespace L4ertl
open Intrusive

theorem getThreadState_set (flags state : Word) :
    getThreadState (setThreadState flags state) = state &&& 0x7#32 := by
  apply BitVec.eq_of_getLsbD_eq
  intro i inside
  simp only [getThreadState, setThreadState, BitVec.getLsbD_and, BitVec.getLsbD_or,
    BitVec.getLsbD_not, inside]
  cases flags.getLsbD i <;> cases state.getLsbD i <;> cases (0x7#32).getLsbD i <;> rfl

theorem otherFlags_set (flags state : Word) :
    otherFlags (setThreadState flags state) = otherFlags flags := by
  apply BitVec.eq_of_getLsbD_eq
  intro i inside
  simp only [otherFlags, setThreadState, BitVec.getLsbD_and, BitVec.getLsbD_or,
    BitVec.getLsbD_not, inside]
  cases flags.getLsbD i <;> cases state.getLsbD i <;> cases (0x7#32).getLsbD i <;> rfl

@[simp] theorem getThreadState_ready (flags : Word) :
    getThreadState (setThreadState flags readyThread) = readyThread := by
  rw [getThreadState_set]; decide

@[simp] theorem getThreadState_suspended (flags : Word) :
    getThreadState (setThreadState flags suspendedThread) = suspendedThread := by
  rw [getThreadState_set]; decide

@[simp] theorem getThreadState_finished (flags : Word) :
    getThreadState (setThreadState flags finishedThread) = finishedThread := by
  rw [getThreadState_set]; decide

theorem getThreadState_keep (flags mask extra : Word) (keeps : mask &&& 0x7#32 = 0x7#32)
    (outside : extra &&& 0x7#32 = 0#32) :
    getThreadState ((flags &&& mask) ||| extra) = getThreadState flags := by
  unfold getThreadState
  apply BitVec.eq_of_getLsbD_eq
  intro i inside
  have one := congrArg (fun x => BitVec.getLsbD x i) keeps
  have two := congrArg (fun x => BitVec.getLsbD x i) outside
  simp only [BitVec.getLsbD_and, BitVec.getLsbD_zero] at one two
  simp only [BitVec.getLsbD_and, BitVec.getLsbD_or]
  cases h : (0x7#32).getLsbD i
  · simp
  · simp only [h, Bool.and_true] at one two
    simp [one, two]

@[simp] theorem getThreadState_policy (flags policy : Word) :
    getThreadState (setThreadPolicy flags policy) = getThreadState flags := by
  apply getThreadState_keep flags _ _ (by decide)
  apply BitVec.eq_of_getLsbD_eq
  intro i inside
  rw [BitVec.getLsbD_and, BitVec.getLsbD_shiftLeft, BitVec.getLsbD_zero]
  by_cases low : i < 6
  · simp [low]
  · have high : (0x7#32).getLsbD i = false := by
      rw [BitVec.getLsbD_ofNat]
      have : Nat.testBit 7 i = false := Nat.testBit_lt_two_pow (by
        calc 7 < 2 ^ 6 := by decide
          _ ≤ 2 ^ i := Nat.pow_le_pow_right (by decide) (by omega))
      simp [this]
    simp [high]

@[simp] theorem getThreadState_detach (flags : Word) (state : Bool) :
    getThreadState (setThreadDetachState flags state) = getThreadState flags := by
  unfold setThreadDetachState
  cases state with
  | true =>
    have kept := getThreadState_keep flags (BitVec.allOnes 32) 0x8#32 (by decide) (by decide)
    rw [BitVec.and_allOnes] at kept
    exact kept
  | false =>
    have kept := getThreadState_keep flags (~~~0x8#32) 0#32 (by decide) (by decide)
    simpa using kept

@[simp] theorem suspended_ne_ready : suspendedThread ≠ readyThread := by decide
@[simp] theorem finished_ne_ready : finishedThread ≠ readyThread := by decide
@[simp] theorem finished_ne_suspended : finishedThread ≠ suspendedThread := by decide
@[simp] theorem ready_ne_finished : readyThread ≠ finishedThread := by decide

variable {T : Type} [DecidableEq T]

theorem setState_state (t u : T) (state : Word) (k : Kernel T) :
    (setState t state k).state u = if u = t then getThreadState (setThreadState (k.threadFlags t) state)
      else k.state u := by
  simp only [setState, Kernel.state, Function.update_apply]
  split <;> rfl

omit [DecidableEq T] in
theorem Kernel.state_of_flags {k w : Kernel T} (flags : w.threadFlags = k.threadFlags) (t : T) :
    w.state t = k.state t := by
  simp only [Kernel.state]
  rw [flags]

/-- `w` is `k` but for what the scheduler operations may touch. -/
def SchedOnly (k w : Kernel T) : Prop :=
  w = { k with
    threadFlags := w.threadFlags
    schedParam := w.schedParam
    activeThreads := w.activeThreads
    kstackFlag := w.kstackFlag }

omit [DecidableEq T] in
theorem SchedOnly.refl (k : Kernel T) : SchedOnly k k := rfl

omit [DecidableEq T] in
theorem SchedOnly.trans {k w x : Kernel T} (first : SchedOnly k w) (second : SchedOnly w x) :
    SchedOnly k x := by
  unfold SchedOnly at *
  rw [second, first]

structure ReadyInv (k : Kernel T) (r : ReadyModel T) : Prop where
  rep : Represents k.activeThreads r
  removable : ∀ t, k.live t = true → r.Absent t → r.parked t = true ∨ r.fresh t = true
  listed : ∀ t c, t ∈ r.lists c ↔
    k.live t = true ∧ k.state t = readyThread ∧ c = prio2ij (k.prio t)

omit [DecidableEq T] in
theorem ReadyInv.absent {k : Kernel T} {r : ReadyModel T} (inv : ReadyInv k r) {t : T}
    (idle : k.live t = false ∨ k.state t ≠ readyThread) : r.Absent t := by
  intro c member
  have facts := (inv.listed t c).mp member
  rcases idle with dead | notReady
  · rw [facts.1] at dead; cases dead
  · exact notReady facts.2.1

theorem ReadyInv.legal_remove {k : Kernel T} {r : ReadyModel T} (inv : ReadyInv k r) {t : T}
    (alive : k.live t = true) : (SsOp.remove t).Legal r := by
  by_cases present : ∃ c, t ∈ r.lists c
  · exact Or.inl present
  · exact Or.inr (inv.removable t alive (fun c member => present ⟨c, member⟩))

theorem remove_removable {r : ReadyModel T} {t u : T}
    (removable : u ≠ t → r.Absent u → r.parked u = true ∨ r.fresh u = true)
    (nodup : ∀ c, (r.lists c).Nodup) (absent : (SsOp.model r (.remove t)).Absent u) :
    (SsOp.model r (.remove t)).parked u = true ∨ (SsOp.model r (.remove t)).fresh u = true := by
  by_cases self : u = t
  · subst self; simp [SsOp.model]
  · have before : r.Absent u := by
      intro c member
      exact absent c ((nodup c).mem_erase_iff.mpr ⟨self, member⟩)
    simpa [SsOp.model, self] using removable self before

theorem insert_removable {r : ReadyModel T} {t u : T} {p : Int}
    (removable : u ≠ t → r.Absent u → r.parked u = true ∨ r.fresh u = true)
    {xs : List T} (members : ∀ v, v ∈ xs ↔ v = t ∨ v ∈ r.lists (prio2ij p))
    (absent : ∀ c, u ∉ Function.update r.lists (prio2ij p) xs c) :
    Function.update r.parked t false u = true ∨ Function.update r.fresh t false u = true := by
  have self : u ≠ t := by
    rintro rfl
    exact absent (prio2ij p) (by simp [(members u).mpr (Or.inl rfl)])
  have before : r.Absent u := by
    intro c member
    apply absent c
    by_cases same : c = prio2ij p
    · subst same; simpa using (members u).mpr (Or.inr member)
    · simpa [same] using member
  simpa [self] using removable self before

theorem remove_mem {r : ReadyModel T} (nodup : ∀ c, (r.lists c).Nodup) (t u : T) (c : Cell) :
    u ∈ (SsOp.model r (.remove t)).lists c ↔ u ≠ t ∧ u ∈ r.lists c :=
  (nodup c).mem_erase_iff

omit [DecidableEq T] in
theorem insert_mem {r : ReadyModel T} (t : T) (p : Int) {xs : List T}
    (members : ∀ u, u ∈ xs ↔ u = t ∨ u ∈ r.lists (prio2ij p)) (u : T) (c : Cell) :
    u ∈ Function.update r.lists (prio2ij p) xs c ↔ (u = t ∧ c = prio2ij p) ∨ u ∈ r.lists c := by
  by_cases same : c = prio2ij p
  · subst same; simp [members]
  · simp [same]

/-- Removing `t` and then leaving it out of the lists, whatever else changes
    about it, as suspend_thread, finish_thread and delete_pthread_struct do. -/
theorem ReadyInv.remove {k w : Kernel T} {r : ReadyModel T} (inv : ReadyInv k r) {t : T}
    (alive : k.live t = true) (structure_ : w.activeThreads = removeSs t k.activeThreads)
    (out : w.live t = false ∨ w.state t ≠ readyThread)
    (others : ∀ u, u ≠ t → w.live u = k.live u ∧ w.state u = k.state u ∧ w.prio u = k.prio u) :
    ReadyInv w (SsOp.model r (.remove t)) where
  rep := by
    rw [structure_]
    exact removeSs_represents inv.rep (inv.legal_remove alive)
  removable u liveU := remove_removable
    (fun self => inv.removable u ((others u self).1 ▸ liveU)) inv.rep.nodup
  listed u c := by
    rw [remove_mem inv.rep.nodup]
    by_cases self : u = t
    · subst self
      simp only [ne_eq, not_true, false_and, false_iff]
      rintro ⟨still, ready, _⟩
      rcases out with dead | notReady
      · rw [still] at dead; cases dead
      · exact notReady ready
    · obtain ⟨live, state, prio⟩ := others u self
      rw [live, state, prio, ← inv.listed u c]
      simp [self]

theorem suspendThread_frame (t : T) (k : Kernel T) :
    (suspendThread t k).activeThreads = removeSs t k.activeThreads ∧
      (suspendThread t k).live = k.live ∧ (suspendThread t k).schedParam = k.schedParam := by
  simp only [suspendThread, setState]
  split <;> exact ⟨rfl, rfl, rfl⟩

theorem suspendThread_state (t u : T) (k : Kernel T) :
    (suspendThread t k).state u =
      if u = t ∧ k.state t ≠ finishedThread then suspendedThread else k.state u := by
  change (if k.state t ≠ finishedThread then setState t suspendedThread _ else _ : Kernel T).state u = _
  by_cases done : k.state t = finishedThread
  · rw [if_neg (not_not.mpr done), if_neg (fun both => both.2 done)]
    rfl
  · rw [if_pos done, setState_state, getThreadState_suspended]
    simp only [done, ne_eq, not_false_eq_true, and_true]
    rfl

theorem suspendThread_readyInv {k : Kernel T} {r : ReadyModel T} (inv : ReadyInv k r) {t : T}
    (alive : k.live t = true) :
    ReadyInv (suspendThread t k) (SsOp.model r (.remove t)) := by
  obtain ⟨structure_, live, param⟩ := suspendThread_frame t k
  apply inv.remove alive structure_
  · right
    rw [suspendThread_state]
    by_cases done : k.state t = finishedThread
    · simp [done]
    · simp [done]
  · intro u self
    refine ⟨by rw [live], ?_, by simp [Kernel.prio, param]⟩
    rw [suspendThread_state]
    simp [self]

theorem finishThread_frame (t : T) (k : Kernel T) :
    (finishThread t k).activeThreads = removeSs t k.activeThreads ∧
      (finishThread t k).live = k.live ∧ (finishThread t k).schedParam = k.schedParam ∧
      (finishThread t k).threadFlags =
        Function.update k.threadFlags t (setThreadState (k.threadFlags t) finishedThread) := by
  simp only [finishThread, freeKstack]
  split <;> exact ⟨rfl, rfl, rfl, rfl⟩

theorem finishThread_state (t u : T) (k : Kernel T) :
    (finishThread t k).state u = if u = t then finishedThread else k.state u := by
  simp only [Kernel.state, (finishThread_frame t k).2.2.2, Function.update_apply]
  split
  · simp
  · rfl

theorem finishThread_readyInv {k : Kernel T} {r : ReadyModel T} (inv : ReadyInv k r) {t : T}
    (alive : k.live t = true) :
    ReadyInv (finishThread t k) (SsOp.model r (.remove t)) := by
  obtain ⟨structure_, live, param, _⟩ := finishThread_frame t k
  apply inv.remove alive structure_
  · right; simp [finishThread_state]
  · intro u self
    exact ⟨by rw [live], by simp [finishThread_state, self], by simp [Kernel.prio, param]⟩

theorem deletePthreadStruct_readyInv {k : Kernel T} {r : ReadyModel T} (inv : ReadyInv k r) {t : T}
    (alive : k.live t = true) :
    ReadyInv (deletePthreadStruct t k) (SsOp.model r (.remove t)) := by
  apply inv.remove alive rfl
  · left; simp [deletePthreadStruct]
  · intro u self
    exact ⟨by simp [deletePthreadStruct, self], rfl, rfl⟩

theorem ReadyInv.grow {w : Kernel T} {r : ReadyModel T} {t : T} {xs : List T}
    (rep : Represents w.activeThreads
      ⟨Function.update r.lists (prio2ij (w.prio t)) xs, Function.update r.fresh t false,
        Function.update r.parked t false⟩)
    (removable : ∀ u, u ≠ t → w.live u = true → r.Absent u → r.parked u = true ∨ r.fresh u = true)
    (absent : r.Absent t)
    (members : ∀ u, u ∈ xs ↔ u = t ∨ u ∈ r.lists (prio2ij (w.prio t)))
    (alive : w.live t = true) (ready : w.state t = readyThread)
    (others : ∀ u c, u ≠ t → (u ∈ r.lists c ↔
      w.live u = true ∧ w.state u = readyThread ∧ c = prio2ij (w.prio u))) :
    ReadyInv w
      ⟨Function.update r.lists (prio2ij (w.prio t)) xs, Function.update r.fresh t false,
        Function.update r.parked t false⟩ where
  rep := rep
  removable u liveU := insert_removable (fun self => removable u self liveU) members
  listed u c := by
    simp only [insert_mem t (w.prio t) members u c]
    by_cases self : u = t
    · subst self
      simp [alive, ready, absent c]
    · rw [others u c self]
      simp [self]

theorem ReadyInv.insert {k w : Kernel T} {r : ReadyModel T} {t : T}
    (rep : Represents k.activeThreads r)
    (removable : ∀ u, u ≠ t → w.live u = true → r.Absent u → r.parked u = true ∨ r.fresh u = true)
    (absent : r.Absent t)
    (structure_ : w.activeThreads = insertSs t (w.prio t) k.activeThreads)
    (alive : w.live t = true) (ready : w.state t = readyThread)
    (others : ∀ u c, u ≠ t → (u ∈ r.lists c ↔
      w.live u = true ∧ w.state u = readyThread ∧ c = prio2ij (w.prio u))) :
    ReadyInv w (SsOp.model r (.insert t (w.prio t))) :=
  ReadyInv.grow (structure_ ▸ insertSs_represents rep absent _) removable absent
    (fun _ => List.mem_cons) alive ready others

theorem suspendThread_only (t : T) (k : Kernel T) : SchedOnly k (suspendThread t k) := by
  simp only [suspendThread, setState]
  split <;> rfl

theorem activateThread_only (t : T) (k : Kernel T) : SchedOnly k (activateThread t k) := by
  simp only [activateThread, setState]
  split <;> rfl

theorem changeThreadPrio_only (t : T) (p : Int) (k : Kernel T) :
    SchedOnly k (changeThreadPrio t p k) := by
  simp only [changeThreadPrio]
  split <;> rfl

theorem finishThread_only (t : T) (k : Kernel T) : SchedOnly k (finishThread t k) := by
  simp only [finishThread, freeKstack, setState]
  split <;> rfl

theorem activateThread_schedParam (t : T) (k : Kernel T) :
    (activateThread t k).schedParam = k.schedParam := by
  simp only [activateThread, setState]
  split <;> rfl

theorem activateThread_state (t u : T) (k : Kernel T) :
    (activateThread t k).state u =
      if u = t ∧ k.state t ≠ finishedThread then readyThread else k.state u := by
  unfold activateThread
  split
  · rename_i wake
    rw [setState_state, getThreadState_ready]
    simp only [wake.1, ne_eq, not_false_eq_true, and_true]
    rfl
  · rename_i still
    by_cases self : u = t
    · subst self
      by_cases done : k.state u = finishedThread
      · simp [done]
      · have ready : k.state u = readyThread := by
          by_contra notReady
          exact still ⟨done, notReady⟩
        simp [ready]
    · simp [self]

def OthersKept (t : T) (r w : ReadyModel T) : Prop :=
  ∀ c, (w.lists c).filter (· ≠ t) = (r.lists c).filter (· ≠ t)

theorem OthersKept.refl (t : T) (r : ReadyModel T) : OthersKept t r r := fun _ => rfl

theorem remove_othersKept {r : ReadyModel T} (nodup : ∀ c, (r.lists c).Nodup) (t : T) :
    OthersKept t r (SsOp.model r (.remove t)) := by
  intro c
  simp only [SsOp.model]
  rw [(nodup c).erase_eq_filter, List.filter_filter]
  apply List.filter_congr
  intro u _
  by_cases self : u = t <;> simp [self]

theorem insert_othersKept (r : ReadyModel T) (t : T) (p : Int) :
    OthersKept t r (SsOp.model r (.insert t p)) := by
  intro c
  simp only [SsOp.model, Function.update_apply]
  split
  · rename_i same; subst same; simp
  · rfl

theorem activateThread_inserts {k : Kernel T} {r : ReadyModel T} (inv : ReadyInv k r) {t : T}
    (alive : k.live t = true) (wake : k.state t ≠ finishedThread ∧ k.state t ≠ readyThread) :
    ReadyInv (activateThread t k) (SsOp.model r (.insert t (k.prio t))) := by
  have liveEq := congrArg Kernel.live (activateThread_only t k)
  have prio : (activateThread t k).prio t = k.prio t := by
    simp only [Kernel.prio, activateThread_schedParam]
  rw [← prio]
  refine ReadyInv.insert inv.rep (fun u _ liveU => inv.removable u (liveEq ▸ liveU))
    (inv.absent (Or.inr wake.2)) ?_ ?_ ?_ ?_
  · rw [activateThread, if_pos wake]
    rfl
  · rw [liveEq]; exact alive
  · rw [activateThread_state, if_pos ⟨rfl, wake.1⟩]
  · intro u c self
    rw [inv.listed u c, liveEq, activateThread_state]
    simp [self, Kernel.prio, activateThread_schedParam]

theorem activateThread_readyInv {k : Kernel T} {r : ReadyModel T} (inv : ReadyInv k r) {t : T}
    (alive : k.live t = true) :
    ∃ w, ReadyInv (activateThread t k) w ∧ OthersKept t r w := by
  by_cases wake : k.state t ≠ finishedThread ∧ k.state t ≠ readyThread
  · exact ⟨_, activateThread_inserts inv alive wake, insert_othersKept _ _ _⟩
  · have same : activateThread t k = k := by simp only [activateThread, wake, ↓reduceIte]
    rw [same]
    exact ⟨r, inv, OthersKept.refl t r⟩

theorem changeThreadPrio_flags (t : T) (p : Int) (k : Kernel T) :
    (changeThreadPrio t p k).threadFlags = k.threadFlags := by
  simp only [changeThreadPrio]
  split <;> rfl

theorem changeThreadPrio_prio (t u : T) (p : Int) (k : Kernel T) :
    (changeThreadPrio t p k).prio u = if u = t then p else k.prio u := by
  have param : (changeThreadPrio t p k).schedParam =
      Function.update k.schedParam t { k.schedParam t with schedPriority := p } := by
    simp only [changeThreadPrio]
    split <;> rfl
  simp only [Kernel.prio, param, Function.update_apply]
  split <;> rfl

structure SameBut (t : T) (k w : Kernel T) : Prop where
  lists : w.activeThreads = k.activeThreads
  live : w.live = k.live
  others : ∀ u, u ≠ t → w.state u = k.state u ∧ w.prio u = k.prio u

omit [DecidableEq T] in
theorem SameBut.refl (t : T) (k : Kernel T) : SameBut t k k := ⟨rfl, rfl, fun _ _ => ⟨rfl, rfl⟩⟩

/-- pthread_setschedparam overwrites the parameters before it moves the thread,
    so the thread may already have lost the priority it is listed at. -/
theorem changeThreadPrio_adjusted {k w : Kernel T} {r : ReadyModel T} (inv : ReadyInv k r) {t : T}
    (alive : k.live t = true) (same : SameBut t k w) (p : Int) :
    ∃ x, ReadyInv (changeThreadPrio t p w) x ∧ OthersKept t r x := by
  have removedRep := removeSs_represents inv.rep (inv.legal_remove alive)
  have removedAbsent : (SsOp.model r (.remove t)).Absent t := fun c member =>
    ((remove_mem inv.rep.nodup t t c).mp member).1 rfl
  have kept := remove_othersKept inv.rep.nodup t
  have stateEq : ∀ u, (changeThreadPrio t p w).state u = w.state u := fun u => by
    simp [Kernel.state, changeThreadPrio_flags]
  have liveEq : (changeThreadPrio t p w).live = k.live := by
    rw [congrArg Kernel.live (changeThreadPrio_only t p w), same.live]
  have others : ∀ u c, u ≠ t → (u ∈ (SsOp.model r (.remove t)).lists c ↔
      (changeThreadPrio t p w).live u = true ∧ (changeThreadPrio t p w).state u = readyThread ∧
        c = prio2ij ((changeThreadPrio t p w).prio u)) := by
    intro u c self
    rw [remove_mem inv.rep.nodup, inv.listed u c, stateEq, changeThreadPrio_prio, liveEq,
      (same.others u self).1, if_neg self, (same.others u self).2]
    simp [self]
  by_cases ready : w.state t = readyThread
  · refine ⟨_, ReadyInv.insert (k := { w with activeThreads := removeSs t k.activeThreads })
      removedRep (fun u _ liveU =>
        remove_removable (fun _ => inv.removable u (liveEq ▸ liveU)) inv.rep.nodup)
      removedAbsent ?_ ?_ ?_ others, ?_⟩
    · rw [changeThreadPrio_prio]
      simp [changeThreadPrio, ready, Kernel.prio, same.lists]
    · rw [liveEq]; exact alive
    · rw [stateEq]; exact ready
    · intro c
      rw [insert_othersKept (SsOp.model r (.remove t)) t _ c, kept c]
  · refine ⟨_, ?_, kept⟩
    apply inv.remove alive
    · simp [changeThreadPrio, ready, same.lists]
    · right; rw [stateEq]; exact ready
    · intro u self
      refine ⟨by rw [liveEq], by rw [stateEq, (same.others u self).1], ?_⟩
      rw [changeThreadPrio_prio, if_neg self, (same.others u self).2]

theorem changeThreadPrio_readyInv {k : Kernel T} {r : ReadyModel T} (inv : ReadyInv k r) {t : T}
    (alive : k.live t = true) (p : Int) :
    ∃ w, ReadyInv (changeThreadPrio t p k) w ∧ OthersKept t r w :=
  changeThreadPrio_adjusted inv alive (.refl t k) p

omit [DecidableEq T] in
theorem ReadyInv.adjust {k w : Kernel T} {r : ReadyModel T} (inv : ReadyInv k r) {t : T}
    (same : SameBut t k w) (before : k.state t ≠ readyThread) (after : w.state t ≠ readyThread) :
    ReadyInv w r where
  rep := same.lists ▸ inv.rep
  removable u alive := inv.removable u (same.live ▸ alive)
  listed u c := by
    rw [inv.listed u c, same.live]
    by_cases self : u = t
    · subst self
      simp [before, after]
    · rw [(same.others u self).1, (same.others u self).2]

omit [DecidableEq T] in
theorem ReadyInv.alike {k w : Kernel T} {r : ReadyModel T} (inv : ReadyInv k r)
    (structure_ : w.activeThreads = k.activeThreads) (live : w.live = k.live)
    (each : ∀ t, w.state t = k.state t ∧ w.prio t = k.prio t) : ReadyInv w r where
  rep := structure_ ▸ inv.rep
  removable t alive := inv.removable t (live ▸ alive)
  listed t c := by rw [inv.listed t c, live, (each t).1, (each t).2]

omit [DecidableEq T] in
theorem ReadyInv.congr {k w : Kernel T} {r : ReadyModel T} (inv : ReadyInv k r)
    (structure_ : w.activeThreads = k.activeThreads) (live : w.live = k.live)
    (flags : w.threadFlags = k.threadFlags) (param : w.schedParam = k.schedParam) :
    ReadyInv w r := by
  apply inv.alike structure_ live
  intro t
  simp [Kernel.state, Kernel.prio, flags, param]

theorem createPthreadStruct_readyInv {k : Kernel T} {r : ReadyModel T} (inv : ReadyInv k r) {t : T}
    (unused : k.live t = false ∨ k.state t ≠ readyThread) :
    ReadyInv (createPthreadStruct (some t) k).1
      { r with
        fresh := Function.update r.fresh t true
        parked := Function.update r.parked t false } where
  rep := zeroSs_represents inv.rep (inv.absent unused)
  removable u liveU out := by
    by_cases self : u = t
    · subst self; simp
    · have before : k.live u = true := by simpa [createPthreadStruct, self] using liveU
      simpa [self] using inv.removable u before out
  listed u c := by
    by_cases self : u = t
    · subst self
      have out := inv.absent unused c
      simp [createPthreadStruct, Kernel.state, out]
    · rw [inv.listed u c]
      simp [createPthreadStruct, Kernel.state, Kernel.prio, self]

def SwitchOnly (k w : Kernel T) : Prop :=
  w = { k with
    currentThread := w.currentThread
    usedTime := w.usedTime
    startingTime := w.startingTime
    irqNestingCounter := w.irqNestingCounter
    kentrySp := w.kentrySp
    kstackFlag := w.kstackFlag }

theorem scheduling_only (now : Duration) (k : Kernel T) : SwitchOnly k (scheduling now k) := by
  simp only [scheduling, contextSwitchTo, allocKstack]
  split
  · rfl
  · split
    · split <;> rfl
    · rfl

omit [DecidableEq T] in
theorem SwitchOnly.readyInv {k w : Kernel T} {r : ReadyModel T} (only : SwitchOnly k w)
    (inv : ReadyInv k r) : ReadyInv w r := by
  have lists := congrArg Kernel.activeThreads only
  have live := congrArg Kernel.live only
  have flags := congrArg Kernel.threadFlags only
  have param := congrArg Kernel.schedParam only
  exact inv.congr lists live flags param

theorem yieldThread_readyInv [Fintype T] {k : Kernel T} {r : ReadyModel T} (inv : ReadyInv k r)
    (alive : k.live k.currentThread = true) (ready : k.state k.currentThread = readyThread) :
    ReadyInv (yieldThread k)
      (SsOp.model (SsOp.model r (.remove k.currentThread))
        (.insertTail k.currentThread (k.prio k.currentThread))) := by
  have removedRep := removeSs_represents inv.rep (inv.legal_remove alive)
  have removedAbsent : (SsOp.model r (.remove k.currentThread)).Absent k.currentThread :=
    fun c member => ((remove_mem inv.rep.nodup _ _ c).mp member).1 rfl
  apply ReadyInv.grow (w := yieldThread k) (t := k.currentThread)
    (insertSsTail_represents removedRep removedAbsent _)
    (fun u _ liveU => remove_removable (fun _ => inv.removable u liveU) inv.rep.nodup) removedAbsent
    _ alive ready
  · intro u c self
    rw [remove_mem inv.rep.nodup, inv.listed u c]
    simp only [ne_eq, self, not_false_eq_true, true_and]
    rfl
  · intro u
    rw [List.mem_append, List.mem_singleton]
    exact or_comm

inductive ThreadOp (T : Type) where
  | create (addr : T)
  | activate (thread : T)
  | suspend (thread : T)
  | finish (thread : T)
  | changePrio (thread : T) (prio : Int)
  | delete (thread : T)
  | yield (now : Duration)
  deriving DecidableEq, Repr

def ThreadOp.run [Fintype T] (k : Kernel T) : ThreadOp T → Kernel T
  | .create a => (createPthreadStruct (some a) k).1
  | .activate t => activateThread t k
  | .suspend t => suspendThread t k
  | .finish t => finishThread t k
  | .changePrio t p => changeThreadPrio t p k
  | .delete t => deletePthreadStruct t k
  | .yield now => scheduling now (yieldThread k)

/-- A new structure is at an address not in use, the other operations are given
    a live thread, and only a READY current thread yields. -/
def ThreadOp.Legal (k : Kernel T) : ThreadOp T → Prop
  | .create a => k.live a = false
  | .activate t | .suspend t | .finish t | .changePrio t _ | .delete t => k.live t = true
  | .yield _ => k.live k.currentThread = true ∧ k.state k.currentThread = readyThread

def LegalThreadOps [Fintype T] (k : Kernel T) : List (ThreadOp T) → Prop
  | [] => True
  | op :: ops => op.Legal k ∧ LegalThreadOps (op.run k) ops

instance (k : Kernel T) : (op : ThreadOp T) → Decidable (op.Legal k)
  | .create a => inferInstanceAs (Decidable (k.live a = false))
  | .activate t | .suspend t | .finish t | .changePrio t _ | .delete t =>
    inferInstanceAs (Decidable (k.live t = true))
  | .yield _ => inferInstanceAs
    (Decidable (k.live k.currentThread = true ∧ k.state k.currentThread = readyThread))

def decideLegalThreadOps [Fintype T] : (ops : List (ThreadOp T)) → (k : Kernel T) →
    Decidable (LegalThreadOps k ops)
  | [], _ => isTrue trivial
  | op :: ops, k =>
    have := decideLegalThreadOps ops (op.run k)
    inferInstanceAs (Decidable (op.Legal k ∧ LegalThreadOps (op.run k) ops))

instance [Fintype T] (k : Kernel T) (ops : List (ThreadOp T)) : Decidable (LegalThreadOps k ops) :=
  decideLegalThreadOps ops k

theorem ThreadOp.readyInv [Fintype T] {k : Kernel T} {r : ReadyModel T} (inv : ReadyInv k r)
    {op : ThreadOp T} (legal : op.Legal k) : ∃ w, ReadyInv (op.run k) w := by
  cases op with
  | create a => exact ⟨_, createPthreadStruct_readyInv inv (Or.inl legal)⟩
  | activate t =>
    obtain ⟨w, next, _⟩ := activateThread_readyInv inv legal
    exact ⟨w, next⟩
  | suspend t => exact ⟨_, suspendThread_readyInv inv legal⟩
  | finish t => exact ⟨_, finishThread_readyInv inv legal⟩
  | changePrio t p =>
    obtain ⟨w, next, _⟩ := changeThreadPrio_readyInv inv legal p
    exact ⟨w, next⟩
  | delete t => exact ⟨_, deletePthreadStruct_readyInv inv legal⟩
  | yield now =>
    exact ⟨_, (scheduling_only now _).readyInv (yieldThread_readyInv inv legal.1 legal.2)⟩

theorem threadOps_readyInv [Fintype T] (ops : List (ThreadOp T)) {k : Kernel T} {r : ReadyModel T}
    (inv : ReadyInv k r) (legal : LegalThreadOps k ops) :
    ∃ w, ReadyInv (ops.foldl ThreadOp.run k) w := by
  induction ops generalizing k r with
  | nil => exact ⟨r, inv⟩
  | cons op ops ih =>
    obtain ⟨w, next⟩ := ThreadOp.readyInv inv legal.1
    exact ih next legal.2

theorem ThreadOp.finished_stays [Fintype T] {k : Kernel T} {op : ThreadOp T} (legal : op.Legal k)
    {t : T} (alive : k.live t = true) (done : k.state t = finishedThread) (kept : op ≠ .delete t) :
    (op.run k).live t = true ∧ (op.run k).state t = finishedThread := by
  cases op with
  | create a =>
    have other : t ≠ a := by
      rintro rfl
      rw [ThreadOp.Legal, alive] at legal
      cases legal
    simpa [ThreadOp.run, createPthreadStruct, Kernel.state, other] using ⟨alive, done⟩
  | activate u =>
    refine ⟨by rw [ThreadOp.run, congrArg Kernel.live (activateThread_only u k)]; exact alive, ?_⟩
    rw [ThreadOp.run, activateThread_state, if_neg, done]
    rintro ⟨rfl, active⟩
    exact active done
  | suspend u =>
    refine ⟨by rw [ThreadOp.run, congrArg Kernel.live (suspendThread_only u k)]; exact alive, ?_⟩
    rw [ThreadOp.run, suspendThread_state, if_neg, done]
    rintro ⟨rfl, active⟩
    exact active done
  | finish u =>
    refine ⟨by rw [ThreadOp.run, congrArg Kernel.live (finishThread_only u k)]; exact alive, ?_⟩
    rw [ThreadOp.run, finishThread_state, done, ite_self]
  | changePrio u p =>
    refine ⟨by rw [ThreadOp.run, congrArg Kernel.live (changeThreadPrio_only u p k)]; exact alive, ?_⟩
    simpa [ThreadOp.run, Kernel.state, changeThreadPrio_flags] using done
  | delete u =>
    have other : t ≠ u := by rintro rfl; exact kept rfl
    refine ⟨by simp [ThreadOp.run, deletePthreadStruct, other, alive], done⟩
  | yield now =>
    have only := scheduling_only now (yieldThread k)
    refine ⟨by rw [ThreadOp.run, congrArg Kernel.live only]; exact alive, ?_⟩
    simp only [ThreadOp.run, Kernel.state]
    rw [congrArg Kernel.threadFlags only]
    exact done

theorem finished_forever [Fintype T] (ops : List (ThreadOp T)) {k : Kernel T}
    (legal : LegalThreadOps k ops) {t : T} (alive : k.live t = true)
    (done : k.state t = finishedThread) (kept : ∀ op ∈ ops, op ≠ .delete t) :
    (ops.foldl ThreadOp.run k).live t = true ∧
      (ops.foldl ThreadOp.run k).state t = finishedThread := by
  induction ops generalizing k with
  | nil => exact ⟨alive, done⟩
  | cons op ops ih =>
    obtain ⟨alive', done'⟩ := ThreadOp.finished_stays legal.1 alive done (kept op (by simp))
    exact ih legal.2 alive' done' (fun o member => kept o (by simp [member]))

def Booted (k : Kernel T) : Prop := (∀ t, k.live t = false) ∧ ∃ ss, k.activeThreads = initSs ss

theorem Booted.readyInv {k : Kernel T} (boot : Booted k) :
    ReadyInv k ⟨fun _ => [], fun _ => false, fun _ => false⟩ where
  rep := by
    obtain ⟨ss, eq⟩ := boot.2
    rw [eq]
    exact initSs_represents (r := ⟨fun _ => [], fun _ => false, fun _ => false⟩)
      (fun t fresh => by cases fresh) (fun t parked => by cases parked)
  removable t alive := by rw [boot.1 t] at alive; cases alive
  listed t c := by simp [boot.1 t]

theorem ReadyInv.count [Fintype T] {k : Kernel T} {r : ReadyModel T} (inv : ReadyInv k r) {t : T}
    (alive : k.live t = true) (c : Cell) :
    (threadsAt k.activeThreads c).count t =
      if k.state t = readyThread ∧ c = prio2ij (k.prio t) then 1 else 0 := by
  rw [inv.rep.threadsAt_eq]
  have listed := inv.listed t c
  rw [alive] at listed
  split
  · rename_i here
    exact List.count_eq_one_of_mem (inv.rep.nodup c) (listed.mpr ⟨rfl, here⟩)
  · rename_i away
    exact List.count_eq_zero_of_not_mem (fun member => away (listed.mp member).2)

def ThreadOp.target : ThreadOp T → Option T
  | .activate t | .suspend t | .finish t | .changePrio t _ => some t
  | _ => none

theorem ThreadOp.otherFlags_kept [Fintype T] (k : Kernel T) {op : ThreadOp T} {t : T}
    (target : op.target = some t) (u : T) :
    otherFlags ((op.run k).threadFlags u) = otherFlags (k.threadFlags u) := by
  have setKept : ∀ (v : T) (state : Word) (w : Kernel T),
      otherFlags ((setState v state w).threadFlags u) = otherFlags (w.threadFlags u) := by
    intro v state w
    simp only [setState, Function.update_apply]
    split
    · rename_i same; rw [same, otherFlags_set]
    · rfl
  cases op with
  | activate v =>
    simp only [ThreadOp.run, activateThread]
    split
    · exact setKept _ _ _
    · rfl
  | suspend v =>
    simp only [ThreadOp.run, suspendThread]
    split
    · exact setKept _ _ _
    · rfl
  | finish v =>
    simp only [ThreadOp.run, finishThread, setKept, freeKstack]
    split <;> rfl
  | changePrio v p => simp only [ThreadOp.run, changeThreadPrio_flags]
  | create a => cases target
  | delete v => cases target
  | yield now => cases target

theorem ThreadOp.others_kept [Fintype T] {k : Kernel T} {r : ReadyModel T} (inv : ReadyInv k r)
    {op : ThreadOp T} (legal : op.Legal k) {t : T} (target : op.target = some t) (c : Cell) :
    (threadsAt (op.run k).activeThreads c).filter (· ≠ t) =
      (threadsAt k.activeThreads c).filter (· ≠ t) := by
  have settled : ∀ w, ReadyInv (op.run k) w → OthersKept t r w →
      (threadsAt (op.run k).activeThreads c).filter (· ≠ t) =
        (threadsAt k.activeThreads c).filter (· ≠ t) := by
    intro w next kept
    rw [next.rep.threadsAt_eq, inv.rep.threadsAt_eq]
    exact kept c
  cases op with
  | activate v =>
    cases target
    obtain ⟨w, next, kept⟩ := activateThread_readyInv inv legal
    exact settled w next kept
  | suspend v =>
    cases target
    exact settled _ (suspendThread_readyInv inv legal) (remove_othersKept inv.rep.nodup t)
  | finish v =>
    cases target
    exact settled _ (finishThread_readyInv inv legal) (remove_othersKept inv.rep.nodup t)
  | changePrio v p =>
    cases target
    obtain ⟨w, next, kept⟩ := changeThreadPrio_readyInv inv legal p
    exact settled w next kept
  | create a => cases target
  | delete v => cases target
  | yield now => cases target

/-- In every state a run of the scheduler operations reaches: a live thread is
    in the list of its priority, once, exactly when it is READY, and in no other
    list; a FINISHED thread stays FINISHED until it is deleted; and changing one
    thread's state or priority touches neither the other flag bits of any thread
    nor the place of any other thread. -/
theorem thread_state_machine [Fintype T] (k : Kernel T) (boot : Booted k) (ops : List (ThreadOp T))
    (legal : LegalThreadOps k ops) :
    let w := ops.foldl ThreadOp.run k
    (∀ t c, w.live t = true → (threadsAt w.activeThreads c).count t =
      if w.state t = readyThread ∧ c = prio2ij (w.prio t) then 1 else 0) ∧
    (∀ (t : T) (more : List (ThreadOp T)), w.live t = true → w.state t = finishedThread → LegalThreadOps w more →
      (∀ op ∈ more, op ≠ .delete t) →
      (more.foldl ThreadOp.run w).state t = finishedThread ∧
        ∀ c, t ∉ threadsAt (more.foldl ThreadOp.run w).activeThreads c) ∧
    (∀ (op : ThreadOp T) (t : T), op.Legal w → op.target = some t →
      (∀ u, otherFlags ((op.run w).threadFlags u) = otherFlags (w.threadFlags u)) ∧
      ∀ c, (threadsAt (op.run w).activeThreads c).filter (· ≠ t) =
        (threadsAt w.activeThreads c).filter (· ≠ t)) := by
  intro w
  obtain ⟨r, inv⟩ := threadOps_readyInv ops boot.readyInv legal
  refine ⟨fun t c alive => inv.count alive c, ?_, ?_⟩
  · intro t more alive done legalMore kept
    obtain ⟨alive', done'⟩ := finished_forever more legalMore alive done kept
    obtain ⟨r', inv'⟩ := threadOps_readyInv more inv legalMore
    refine ⟨done', fun c member => ?_⟩
    have count := inv'.count alive' c
    rw [done', if_neg (by simp)] at count
    exact List.count_eq_zero.mp count member
  · intro op t legalOp target
    exact ⟨ThreadOp.otherFlags_kept w target, ThreadOp.others_kept inv legalOp target⟩

theorem thread_state_machine_two :
    let ops : List (ThreadOp (Fin 2)) :=
      [.create 0, .changePrio 0 7, .activate 0, .yield 5, .finish 0]
    (ops.foldl ThreadOp.run (bootKernel 0)).state 0 = finishedThread ∧
      ∀ c, (threadsAt (ops.foldl ThreadOp.run (bootKernel 0)).activeThreads c).count 0 = 0 := by
  intro ops
  have legal : LegalThreadOps (bootKernel 0) ops := by decide
  have machine := thread_state_machine (bootKernel 0) ⟨fun _ => rfl, zeroedThreads, rfl⟩ ops legal
  have done : (ops.foldl ThreadOp.run (bootKernel 0)).state 0 = finishedThread := by decide
  refine ⟨done, fun c => ?_⟩
  rw [machine.1 0 c (by decide), done]
  simp

def twoThreads : Kernel (Fin 2) :=
  scheduling 0 ([ThreadOp.create 0, .changePrio 0 1023, .activate 0, .create 1, .changePrio 1 10,
    .activate 1].foldl ThreadOp.run (bootKernel 0))

end L4ertl
