import L4ertl.Lib.Ledger
import L4ertl.System.JoinKept

/-!
The memory of threads (sched.c, arm_l4_stack.c): the structure, and the stack
unless the attributes bring one. delete_pthread_struct is the only place where
either is given back; it gives back whatever stack_bottom points at, and nobody
calls it for a detached thread that exits.
-/
namespace L4ertl
open Intrusive Ledger

/-- Where a pointer comes from: a structure or a stack of memory_pool, or the
    stack_addr of some attributes. -/
inductive Block (T : Type) where
  | struct (thread : T)
  | stack (addr : Nat)
  | user (addr : Nat)
  deriving DecidableEq, Repr

/-- `pool` are the blocks that malloc_ex has handed out and not got back; NULL in
    stack_bottom is `none`. -/
structure MemSystem (T : Type) where
  threads : ThreadSystem T
  stackBottom : T → Option (Block T)
  pool : Block T → Bool

/-- `stack` is the address of the stack of a thread to be created: that in the
    attributes, or what malloc_ex returns to alloc_stack. -/
structure MemLabel (T : Type) where
  label : ThreadLabel T
  stack : Nat

variable {T : Type} [DecidableEq T]

abbrev MemSystem.kernel (s : MemSystem T) : Kernel T := s.threads.kernel

/-- The structure that create_pthread_struct fills in a step, with whether there is
    memory for a stack, and the attributes. -/
def ThreadLabel.creates : ThreadLabel T → Option (T × Bool × Option PthreadAttr)
  | .other (.enter (.call (.create (some a) stack attr)) _) | .recreate a stack attr _ =>
    if (attr.map PthreadAttr.accepted).getD true = false then none else some (a, stack, attr)
  | _ => none

def newStack (stack : Bool) (attr : Option PthreadAttr) (addr : Nat) : Option (Block T) :=
  if (attr.map PthreadAttr.stackAddr).getD false = true then some (.user addr)
  else if stack = true then some (.stack addr) else none

def allocStack : Option (Block T) → List (Entry (Block T))
  | some (.stack addr) => [.malloc (.stack addr)]
  | _ => []

def deallocStack : Option (Block T) → List (Entry (Block T))
  | some block => [.free block]
  | none => []

def MemSystem.entries (s : MemSystem T) (l : MemLabel T) : List (Entry (Block T)) :=
  match l.label.creates, s.threads.deletes l.label with
  | some (a, stack, attr), _ => .malloc (.struct a) :: allocStack (newStack stack attr l.stack)
  | none, some (t, _) => deallocStack (s.stackBottom t) ++ [.free (.struct t)]
  | none, none => []

def MemSystem.bottoms (s : MemSystem T) (l : MemLabel T) : T → Option (Block T) :=
  match l.label.creates with
  | some (a, stack, attr) => Function.update s.stackBottom a (newStack stack attr l.stack)
  | none => s.stackBottom

/-- malloc_ex hands out what is not in use. -/
def MemSystem.step [Fintype T] (s : MemSystem T) (l : MemLabel T) :
    Option (MemSystem T × List (Entry (Block T))) :=
  if (s.entries l).all (Entry.fresh s.pool) = true then
    (s.threads.step l.label).map fun r =>
      (⟨r.1, s.bottoms l, Ledger.after s.pool (s.entries l)⟩, s.entries l)
  else none

/-- As create_idle leaves it, which is the first to call malloc_ex. -/
def MemSystem.start (idle : T) (p : Int) : MemSystem T where
  threads := ⟨startSystem idle [(idle, p)], fun _ => none, fun _ => false⟩
  stackBottom := fun _ => none
  pool := fun b => b = .struct idle

/-- The thread has not finished, or it is joinable and has not been joined. -/
def Wanted (s : MemSystem T) (t : T) : Prop :=
  s.threads.inUse t = true ∧
    (s.kernel.state t ≠ finishedThread ∨ getThreadDetachState (s.kernel.threadFlags t) = 0#32)

/-- `es` are the calls of malloc_ex and free_ex up to here. -/
structure MemoryKept (s : MemSystem T) (es : List (Entry (Block T))) : Prop where
  -- what is given back has been handed out, and was not given back since
  sound : Ledger.Sound es
  -- no stack of the application is given back
  users : ∀ addr, .free (.user addr) ∉ es
  -- what is still handed out belongs to a thread that needs it
  structs : ∀ t, Outstanding es (Block.struct t) → Wanted s t
  bottoms : ∀ addr, Outstanding es (Block.stack addr) →
    ∃ t, Wanted s t ∧ s.stackBottom t = some (.stack addr)

/-- The thread that a step may delete: one that is joined when it has exited, or the
    argument of pthread_delete_np_sys. -/
def ThreadSystem.reaped (s : ThreadSystem T) : ThreadLabel T → Option T
  | .join t _ => if s.kernel.state t = finishedThread then some t else none
  | .rejoin _ => (s.waits s.kernel.currentThread).filter fun t => s.kernel.state t = finishedThread
  | .deleteNp t _ => some t
  | _ => none

omit [DecidableEq T] in
def Block.isUser : Block T → Bool
  | .user _ => true
  | _ => false

/-- The steps that do what they should: a thread whose stack is the application's
    is not deleted, a detached thread does not exit, and a thread that has exited
    is not detached. -/
def Tidy (s : MemSystem T) (l : MemLabel T) : Prop :=
  (∀ t ∈ s.threads.reaped l.label, ∀ b ∈ s.stackBottom t, b.isUser = false) ∧
  match l.label with
  | .other m => s.threads.system.exiting m = true →
    getThreadDetachState (s.kernel.threadFlags s.kernel.currentThread) = 0#32
  | .detach t _ => s.kernel.state t ≠ finishedThread
  | _ => True

instance (s : MemSystem T) (l : MemLabel T) : Decidable (Tidy s l) :=
  match l with
  | ⟨.other _, _⟩ => inferInstanceAs (Decidable (_ ∧ (_ = true → _ = _)))
  | ⟨.detach _ _, _⟩ => inferInstanceAs (Decidable (_ ∧ _ ≠ _))
  | ⟨.join _ _, _⟩ | ⟨.rejoin _, _⟩ | ⟨.recreate _ _ _ _, _⟩ | ⟨.deleteNp _ _, _⟩ =>
    inferInstanceAs (Decidable (_ ∧ True))

section
variable {s x : ThreadSystem T} {t : T}

omit [DecidableEq T] in
theorem ThreadSystem.inUse_iff : s.inUse t = true ↔ s.kernel.live t = true ∧ s.freed t = false := by
  simp [ThreadSystem.inUse]

omit [DecidableEq T] in
def ThreadLabel.Creates (l : ThreadLabel T) (t : T) : Prop := ∃ stack attr, l.creates = some (t, stack, attr)

omit [DecidableEq T] in
theorem creates_enter (w : Work T) (env : Env) (t : T) :
    ThreadLabel.Creates (.other (.enter w env)) t ↔ w.creates = some t := by
  unfold ThreadLabel.Creates
  cases w with
  | irq => simp [ThreadLabel.creates, Work.creates]
  | call c =>
    cases c with
    | create addr stack attr =>
      cases addr with
      | none => simp [ThreadLabel.creates, Work.creates]
      | some a =>
        simp only [ThreadLabel.creates, Work.creates]
        split
        · simp
        · simp
    | _ => simp [ThreadLabel.creates, Work.creates]

structure TableStep (s x : ThreadSystem T) (l : ThreadLabel T) : Prop where
  unused : ∀ t, l.Creates t → s.inUse t = false
  inUse : ∀ t, x.inUse t = true ↔
    l.Creates t ∨ (s.inUse t = true ∧ ∀ k, s.deletes l ≠ some (t, k))

theorem TableStep.same {l : ThreadLabel T} (old : l.creates = none) (stays : s.deletes l = none)
    (live : x.kernel.live = s.kernel.live) (freed : x.freed = s.freed) : TableStep s x l := by
  refine ⟨fun t ⟨_, _, new⟩ => ?_, fun t => ?_⟩
  · rw [old] at new
    cases new
  · rw [ThreadSystem.inUse_iff, ThreadSystem.inUse_iff, live, freed, stays]
    simp [ThreadLabel.Creates, old]

theorem TableStep.grown {l : ThreadLabel T} {a : T} (creates : l.Creates a)
    (stays : s.deletes l = none) (unused : s.inUse a = false)
    (live : ∀ u, x.kernel.live u = if u = a then true else s.kernel.live u)
    (freed : ∀ u, x.freed u = if u = a then false else s.freed u) : TableStep s x l := by
  have one : ∀ t, l.Creates t ↔ t = a := by
    intro t
    constructor
    · rintro ⟨_, _, here⟩
      obtain ⟨_, _, also⟩ := creates
      rw [here] at also
      cases also
      rfl
    · rintro rfl
      exact creates
  refine ⟨fun t here => ?_, fun t => ?_⟩
  · rw [(one t).mp here]
    exact unused
  · rw [ThreadSystem.inUse_iff, live, freed, one, stays, ThreadSystem.inUse_iff]
    by_cases self : t = a
    · simp [self]
    · simp [self]

theorem ThreadSystem.Ok.other_table [Fintype T] (ok : s.Ok) {l : Label T} {y : System T}
    {es : List (Event T)} (taken : s.system.step l = some (y, es)) :
    TableStep s { s with system := y } (.other l) := by
  rcases step_cases taken with ⟨w, env, k, pr, rfl, _, legal, ran, rfl, _⟩ |
    ⟨w, p, env, k, outcome, rfl, here, ran, rfl, _⟩
  · have switched := (settle_table s.system w env k pr.outcome).1
    rcases Work.run_table legal ran with ⟨kept, old⟩ | ⟨a, creates, dead, new⟩
    · refine TableStep.same ?_ rfl (switched.trans kept.live) rfl
      by_contra new
      obtain ⟨⟨t, stack, attr⟩, creates⟩ := Option.ne_none_iff_exists'.mp new
      have also := (creates_enter w env t).mp ⟨stack, attr, creates⟩
      rw [old] at also
      cases also
    · have unfreed : s.freed a = false := by
        by_contra freed
        rw [(ok.gone a (by simpa using freed)).1] at dead
        cases dead
      refine TableStep.grown ((creates_enter w env a).mpr creates) rfl ?_ ?_ ?_
      · simp [ThreadSystem.inUse, dead]
      · intro u
        refine (congrFun (switched.trans new.live) u).trans ?_
        simp [createPthreadStruct, Function.update_apply]
      · intro u
        split
        · rename_i self
          rw [self]
          exact unfreed
        · rfl
  · have switched := (settle_table s.system w env k outcome).1
    exact .same rfl rfl (switched.trans (Point.run_table ran).live) rfl

end

section
variable {s x : ThreadSystem T} {t u : T}

theorem pthreadDetachSys_live {k w : Kernel T} {pr : Progress} (ran : pthreadDetachSys t k = .ok (w, pr)) :
    w.live = k.live := by
  unfold pthreadDetachSys at ran
  split at ran
  · cases ran
    rfl
  · split at ran
    · cases ran
      rfl
    · simp only at ran
      split at ran
      · cases ran
      · rename_i joiner _
        cases ran
        show (activateThread joiner _).live = k.live
        rw [congrArg Kernel.live (activateThread_only joiner _)]
        rfl

omit [DecidableEq T] in
def reapedBy (u : T) (r : Kernel T × JoinStep) : Option (T × Kernel T) :=
  match r.2 with
  | .deleted => some (u, r.1)
  | _ => none

theorem TableStep.joined (env : Env) {r : Kernel T × JoinStep}
    (ran : (∃ e v, r = (setErrno e s.kernel, .ret v)) ∨ r = joinLoop u s.kernel) {l : ThreadLabel T}
    (old : l.creates = none) (deletes : s.deletes l = reapedBy u r) : TableStep s (s.joined u env r) l := by
  rcases ran with ⟨e, v, rfl⟩ | rfl
  · exact .same old deletes rfl rfl
  · unfold joinLoop at deletes ⊢
    split
    · rename_i active
      rw [if_pos active] at deletes
      refine .same old deletes ?_ rfl
      refine (settle_table s.system (.call .yield) env _ (.sched .done)).1.trans ?_
      rw [congrArg Kernel.live (suspendThread_only _ _)]
      rfl
    · rename_i ended
      rw [if_neg ended] at deletes
      refine ⟨fun t ⟨_, _, new⟩ => ?_, fun t => ?_⟩
      · rw [old] at new
        cases new
      · rw [ThreadSystem.inUse_iff, ThreadSystem.inUse_iff, deletes]
        simp only [ThreadSystem.joined, ThreadSystem.settle, System.settle, Kernel.keepWords,
          ThreadLabel.Creates, old, reapedBy]
        by_cases self : t = u
        · simp [self]
        · simp [self, Ne.symm self]

theorem ThreadSystem.Ok.step_table [Fintype T] (ok : s.Ok) {l : ThreadLabel T} {es : List Unit}
    (taken : s.step l = some (x, es)) : TableStep s x l := by
  cases l with
  | other l =>
    obtain ⟨_, y, _, went, rfl⟩ := took_other taken
    exact ok.other_table went
  | recreate a stack attr env =>
    obtain ⟨_, freed, rfl⟩ := took_recreate taken
    have switched := (settle_table s.system (.call .yield) env
      (pthreadCreateSys (some a) stack attr s.kernel).1
      (pthreadCreateSys (some a) stack attr s.kernel).2.outcome).1
    simp only [ThreadSystem.recreated]
    rcases pthreadCreateSys_table (some a) stack attr s.kernel with
      ⟨kept, none | refused⟩ | ⟨b, same, accepted, new⟩
    · cases none
    · rw [if_pos refused]
      exact .same (if_pos refused) rfl (switched.trans kept.live) rfl
    · cases same
      rw [if_neg accepted]
      refine .grown (a := a) ⟨stack, attr, if_neg accepted⟩ rfl (by simp [ThreadSystem.inUse, freed]) ?_ ?_
      · intro u
        refine (congrFun (switched.trans new.live) u).trans ?_
        simp [createPthreadStruct, Function.update_apply]
      · intro u
        exact Function.update_apply s.freed a false u
  | join u env =>
    obtain ⟨_, _, rfl⟩ := took_join taken
    refine .joined env (pthreadJoinSys_cases u s.kernel) rfl ?_
    simp only [ThreadSystem.deletes, reapedBy]
    rcases pthreadJoinSys u s.kernel with ⟨k, result⟩
    cases result <;> rfl
  | rejoin env =>
    obtain ⟨u, waiting, _, rfl⟩ := took_rejoin taken
    refine .joined env (joinWoken_cases u s.kernel) rfl ?_
    simp only [ThreadSystem.deletes, waiting, Option.bind_some, reapedBy]
    rcases joinWoken u s.kernel with ⟨k, result⟩
    cases result <;> rfl
  | detach u env =>
    obtain ⟨_, _, k, pr, ran, rfl⟩ := took_detach taken
    refine .same rfl rfl ?_ rfl
    exact (settle_table s.system (.call .yield) env k pr.outcome).1.trans (pthreadDetachSys_live ran)
  | deleteNp u env =>
    obtain ⟨_, _, rfl⟩ := took_deleteNp taken
    have live : (s.settle env (s.kernel.keepWords (pthreadDeleteNpSys u s.kernel))
        (.sched .done)).kernel.live = s.kernel.live :=
      (settle_table s.system (.call .yield) env _ (.sched .done)).1
    refine ⟨fun t created => ?_, fun t => ?_⟩
    · obtain ⟨_, _, new⟩ := created
      cases new
    rw [ThreadSystem.inUse_iff, ThreadSystem.inUse_iff]
    simp only [ThreadSystem.kernel] at live ⊢
    rw [live]
    by_cases self : t = u
    · simp [self, ThreadSystem.deletes, ThreadLabel.Creates, ThreadLabel.creates]
    · simp [self, Ne.symm self, ThreadSystem.deletes, ThreadLabel.Creates, ThreadLabel.creates]

end

def Kernel.Settled (k : Kernel T) (t : T) : Prop :=
  k.state t = finishedThread → getThreadDetachState (k.threadFlags t) = 0#32

section
variable {t u : T} {k w : Kernel T}

omit [DecidableEq T] in
theorem JoinKept.settled (kept : JoinKept t k w) (settled : k.Settled t) : w.Settled t := by
  intro ended
  rw [kept.detach]
  exact settled (kept.ended ended)

omit [DecidableEq T] in
theorem Kernel.Settled.of_flags (settled : k.Settled t) (flags : w.threadFlags = k.threadFlags) :
    w.Settled t := by
  unfold Kernel.Settled Kernel.state at *
  rw [flags]
  exact settled

theorem pthreadCreateSys_settled (stack : Bool) (attr : Option PthreadAttr) (k : Kernel T)
    (accepted : (attr.map PthreadAttr.accepted).getD true ≠ false) :
    (pthreadCreateSys (some u) stack attr k).1.Settled u := by
  have fresh : (configureThread u attr (createPthreadStruct (some u) k).1).state u = suspendedThread := by
    rw [configureThread_state]
    simp [createPthreadStruct, Kernel.state, getThreadState_suspended]
  have asleep : (configureThread u attr (createPthreadStruct (some u) k).1).Settled u := by
    intro ended
    rw [fresh] at ended
    exact absurd ended (by decide)
  unfold pthreadCreateSys
  rw [if_neg accepted]
  simp only [createPthreadStruct] at asleep ⊢
  split
  · exact asleep.of_flags rfl
  · exact (activateThread_joinKept u _).settled asleep

theorem joinLoop_settled (settled : k.Settled t) : (joinLoop u k).1.Settled t := by
  unfold joinLoop
  split
  · have joins : (setJoining u (some k.currentThread) k).Settled t := settled.of_flags rfl
    exact (suspendThread_joinKept _ _).settled joins
  · exact settled.of_flags rfl

theorem pthreadDetachSys_settled {pr : Progress} (settled : k.Settled t)
    (active : t = u → k.state t ≠ finishedThread) (ran : pthreadDetachSys u k = .ok (w, pr)) :
    w.Settled t := by
  unfold pthreadDetachSys at ran
  split at ran
  · cases ran
    exact settled.of_flags rfl
  · split at ran
    · cases ran
      exact settled.of_flags rfl
    · simp only at ran
      split at ran
      · cases ran
      · rename_i joiner _
        cases ran
        have flagged : (setFlags u (setThreadDetachState (k.threadFlags u) true) k).Settled t := by
          by_cases self : t = u
          · intro ended
            rw [setFlags_state (getThreadState_detach _ true)] at ended
            exact absurd ended (active self)
          · exact (setFlags_joinKept _ self k).settled settled
        exact ((activateThread_joinKept joiner _).settled flagged).of_flags rfl

theorem pthreadDeleteNpSys_settled (other : t ≠ u) (settled : k.Settled t) :
    (pthreadDeleteNpSys u k).Settled t := by
  have cancelled := setFlags_joinKept
    (setThreadCancelType (setThreadCancelState (k.threadFlags u) true) true) other k
  have finished := cancelled.trans (finishThread_joinKept other _)
  exact (finished.settled settled).of_flags rfl

end

section
variable {s x : ThreadSystem T} {t : T} {l : ThreadLabel T}

omit [DecidableEq T] in
theorem ThreadLabel.creates_cases {stack : Bool} {attr : Option PthreadAttr}
    (creates : l.creates = some (t, stack, attr)) :
    (attr.map PthreadAttr.accepted).getD true ≠ false ∧
      ∃ env, l = .other (.enter (.call (.create (some t) stack attr)) env) ∨
        l = .recreate t stack attr env := by
  unfold ThreadLabel.creates at creates
  split at creates
  · rename_i a stack attr env
    simp only [Option.ite_none_left_eq_some, Option.some.injEq, Prod.mk.injEq] at creates
    obtain ⟨accepted, rfl, rfl, rfl⟩ := creates
    exact ⟨accepted, env, Or.inl rfl⟩
  · rename_i a stack attr env
    simp only [Option.ite_none_left_eq_some, Option.some.injEq, Prod.mk.injEq] at creates
    obtain ⟨accepted, rfl, rfl, rfl⟩ := creates
    exact ⟨accepted, env, Or.inr rfl⟩
  · cases creates

theorem ThreadSystem.step_new [Fintype T] {es : List Unit} (taken : s.step l = some (x, es))
    (new : l.Creates t) : x.kernel.Settled t := by
  obtain ⟨stack, attr, creates⟩ := new
  obtain ⟨accepted, env, rfl | rfl⟩ := ThreadLabel.creates_cases creates
  · obtain ⟨_, y, _, went, rfl⟩ := took_other taken
    rcases step_cases went with ⟨w, env, k, pr, same, _, _, ran, rfl, _⟩ | ⟨_, _, _, _, _, same, _⟩
    · cases same
      obtain ⟨rfl, rfl⟩ := ran_pair ran
      exact (settle_switch s.system _ env _ _).joinKept.settled
        (pthreadCreateSys_settled stack attr s.kernel accepted)
    · cases same
  · obtain ⟨_, _, rfl⟩ := took_recreate taken
    simp only [ThreadSystem.recreated, if_neg accepted]
    exact (settle_switch s.system _ env _ _).joinKept.settled
      (pthreadCreateSys_settled stack attr s.kernel accepted)

theorem ThreadSystem.joined_settled (env : Env) {u : T} {r : Kernel T × JoinStep}
    (ran : (∃ e v, r = (setErrno e s.kernel, .ret v)) ∨ r = joinLoop u s.kernel)
    (settled : s.kernel.Settled t) : (s.joined u env r).kernel.Settled t := by
  have result : r.1.Settled t := by
    rcases ran with ⟨e, v, rfl⟩ | rfl
    · exact settled.of_flags rfl
    · exact joinLoop_settled settled
  obtain ⟨k, step⟩ := r
  cases step with
  | ret v => exact (settle_switch s.system _ env k (.ret v)).joinKept.settled result
  | blocked => exact (settle_switch s.system _ env k (.sched .done)).joinKept.settled result
  | deleted =>
    have kept : (s.kernel.keepWords k).Settled t := result.of_flags rfl
    exact (settle_switch s.system _ env _ (.ret 0)).joinKept.settled kept

theorem ThreadSystem.Ok.step_old [Fintype T] (ok : s.Ok) (alive : s.kernel.live t = true)
    (settled : s.kernel.Settled t)
    (exits : ∀ m, l = .other m → s.system.exiting m = true →
      getThreadDetachState (s.kernel.threadFlags s.kernel.currentThread) = 0#32)
    (detaches : ∀ u env, l = .detach u env → s.kernel.state u ≠ finishedThread)
    (stays : ∀ k, s.deletes l ≠ some (t, k)) (old : ¬l.Creates t) {es : List Unit}
    (taken : s.step l = some (x, es)) : x.kernel.Settled t := by
  cases l with
  | other l =>
    obtain ⟨_, y, _, went, rfl⟩ := took_other taken
    obtain ⟨k, _, switched, ⟨kept, _⟩ | ⟨rfl, exited, _, exiting, _⟩⟩ := ok.other_join alive went
    · exact switched.joinKept.settled (kept.settled settled)
    · intro _
      rw [(switched.joinKept (t := s.kernel.currentThread)).detach, exited.detach]
      exact exits l rfl exiting
  | recreate a stack attr env =>
    obtain ⟨_, _, rfl⟩ := took_recreate taken
    have created : (pthreadCreateSys (some a) stack attr s.kernel).1.Settled t := by
      by_cases self : t = a
      · subst self
        have refused : (attr.map PthreadAttr.accepted).getD true = false := by
          by_contra accepted
          exact old ⟨stack, attr, if_neg accepted⟩
        unfold pthreadCreateSys
        rw [if_pos refused]
        exact settled.of_flags rfl
      · exact (pthreadCreateSys_joinKept self stack attr s.kernel).settled settled
    have switched := (settle_switch s.system (.call .yield) env
      (pthreadCreateSys (some a) stack attr s.kernel).1
      (pthreadCreateSys (some a) stack attr s.kernel).2.outcome).joinKept.settled created
    simp only [ThreadSystem.recreated]
    split
    · exact switched
    · exact switched
  | join u env =>
    obtain ⟨_, _, rfl⟩ := took_join taken
    exact joined_settled env (pthreadJoinSys_cases u s.kernel) settled
  | rejoin env =>
    obtain ⟨u, _, _, rfl⟩ := took_rejoin taken
    exact joined_settled env (joinWoken_cases u s.kernel) settled
  | detach u env =>
    obtain ⟨_, _, k, pr, ran, rfl⟩ := took_detach taken
    have detached := pthreadDetachSys_settled settled (fun self => self ▸ detaches u env rfl) ran
    exact (settle_switch s.system _ env k pr.outcome).joinKept.settled detached
  | deleteNp u env =>
    obtain ⟨_, _, rfl⟩ := took_deleteNp taken
    have other : t ≠ u := by
      rintro rfl
      exact stays _ rfl
    have deleted : (s.kernel.keepWords (pthreadDeleteNpSys u s.kernel)).Settled t :=
      (pthreadDeleteNpSys_settled other settled).of_flags rfl
    exact (settle_switch s.system _ env _ (.sched .done)).joinKept.settled deleted

end

structure Housed (s : MemSystem T) (es : List (Entry (Block T))) : Prop where
  ok : s.threads.Ok
  sound : Ledger.Sound es
  log : s.pool = Ledger.after (fun _ => false) es
  structs : ∀ t, s.pool (.struct t) = true ↔ s.threads.inUse t = true
  owned : ∀ addr, s.pool (.stack addr) = true →
    ∃ t, s.threads.inUse t = true ∧ s.stackBottom t = some (.stack addr)
  owner : ∀ t addr, s.threads.inUse t = true → s.stackBottom t = some (.stack addr) →
    s.pool (.stack addr) = true
  apart : ∀ t u addr, s.threads.inUse t = true → s.threads.inUse u = true →
    s.stackBottom t = some (.stack addr) → s.stackBottom u = some (.stack addr) → t = u
  never : ∀ addr, .malloc (.user addr) ∉ es
  bottoms : ∀ t u, s.stackBottom t ≠ some (.struct u)
  settled : ∀ t, s.threads.inUse t = true → s.kernel.Settled t

section
variable {s : MemSystem T} {es : List (Entry (Block T))}

theorem Housed.kept (housed : Housed s es) : MemoryKept s es := by
  have wanted : ∀ t, s.threads.inUse t = true → Wanted s t := by
    intro t used
    refine ⟨used, ?_⟩
    by_cases ended : s.kernel.state t = finishedThread
    · exact Or.inr (housed.settled t used ended)
    · exact Or.inl ended
  refine ⟨housed.sound, fun addr given => housed.never addr (housed.sound.handed given), ?_, ?_⟩
  · intro t outstanding
    apply wanted
    rw [← housed.structs, housed.log]
    exact after_of_outstanding _ outstanding
  · intro addr outstanding
    have live := after_of_outstanding (fun _ => false) outstanding
    rw [← housed.log] at live
    obtain ⟨t, used, bottom⟩ := housed.owned addr live
    exact ⟨t, wanted t used, bottom⟩

omit [DecidableEq T] in
theorem newStack_cases (stack : Bool) (attr : Option PthreadAttr) (addr : Nat) :
    newStack (T := T) stack attr addr = none ∨ newStack (T := T) stack attr addr = some (.user addr) ∨
      newStack (T := T) stack attr addr = some (.stack addr) := by
  unfold newStack
  split
  · exact Or.inr (Or.inl rfl)
  · split
    · exact Or.inr (Or.inr rfl)
    · exact Or.inl rfl

theorem Housed.same (housed : Housed s es) {y : ThreadSystem T} (ok : y.Ok)
    (inUse : ∀ t, y.inUse t = true ↔ s.threads.inUse t = true)
    (settled : ∀ t, y.inUse t = true → y.kernel.Settled t) : Housed { s with threads := y } es := by
  refine ⟨ok, housed.sound, housed.log, fun t => ?_, fun addr live => ?_, fun t addr used => ?_,
    fun t u addr used also => ?_, housed.never, housed.bottoms, settled⟩
  · rw [inUse]
    exact housed.structs t
  · obtain ⟨t, used, bottom⟩ := housed.owned addr live
    exact ⟨t, (inUse t).mpr used, bottom⟩
  · exact housed.owner t addr ((inUse t).mp used)
  · exact housed.apart t u addr ((inUse t).mp used) ((inUse u).mp also)

theorem Housed.created (housed : Housed s es) {y : ThreadSystem T} (ok : y.Ok) {a : T}
    (unused : s.threads.inUse a = false)
    (inUse : ∀ t, y.inUse t = true ↔ t = a ∨ s.threads.inUse t = true)
    (settled : ∀ t, y.inUse t = true → y.kernel.Settled t) {b : Option (Block T)}
    (kind : b = none ∨ (∃ addr, b = some (.user addr)) ∨
      ∃ addr, b = some (.stack addr) ∧ s.pool (.stack addr) = false) :
    Housed ⟨y, Function.update s.stackBottom a b,
      Ledger.after s.pool (.malloc (.struct a) :: allocStack b)⟩
      (es ++ .malloc (.struct a) :: allocStack b) := by
  have structs : ∀ t, Ledger.after s.pool (.malloc (.struct a) :: allocStack b) (.struct t) = true ↔
      t = a ∨ s.pool (.struct t) = true := by
    intro t
    rcases kind with rfl | ⟨addr, rfl⟩ | ⟨addr, rfl, _⟩ <;>
      simp [allocStack, Ledger.after, Entry.apply, Function.update_apply]
  have blocks : ∀ c, Ledger.after s.pool (.malloc (.struct a) :: allocStack b) (.stack c) = true ↔
      b = some (.stack c) ∨ s.pool (.stack c) = true := by
    intro c
    rcases kind with rfl | ⟨addr, rfl⟩ | ⟨addr, rfl, _⟩
    · simp [allocStack, Ledger.after, Entry.apply]
    · simp [allocStack, Ledger.after, Entry.apply]
    · simp only [allocStack, Ledger.after, List.foldl_cons, List.foldl_nil, Entry.apply,
        Function.update_apply, reduceCtorEq, ↓reduceIte, Block.stack.injEq, Option.some.injEq,
        ite_eq_left_iff, eq_comm (a := c)]
      tauto
  -- a stack belongs to the new thread, or to the one it belonged to
  have bottoms : ∀ t c, y.inUse t = true → Function.update s.stackBottom a b t = some (.stack c) →
      (t = a ∧ b = some (.stack c)) ∨
        (s.threads.inUse t = true ∧ s.stackBottom t = some (.stack c)) := by
    intro t c used bottom
    by_cases self : t = a
    · rw [self, Function.update_self] at bottom
      exact Or.inl ⟨self, bottom⟩
    · rw [Function.update_of_ne self] at bottom
      exact Or.inr ⟨((inUse t).mp used).resolve_left self, bottom⟩
  have unowned : ∀ t c, s.threads.inUse t = true → s.stackBottom t = some (.stack c) →
      b ≠ some (.stack c) := by
    rintro t c used bottom rfl
    rcases kind with same | ⟨_, same⟩ | ⟨addr, same, free⟩
    · cases same
    · cases same
    · cases same
      rw [housed.owner t c used bottom] at free
      cases free
  refine ⟨ok, ?_, ?_, fun t => ?_, fun c live => ?_, fun t c used bottom => ?_,
    fun t u c used also first second => ?_, fun c => ?_, fun t u => ?_, settled⟩
  · have first := housed.sound.malloc (.struct a)
    rcases kind with rfl | ⟨addr, rfl⟩ | ⟨addr, rfl, _⟩
    · exact first
    · exact first
    · have second := first.malloc (.stack addr)
      rw [List.append_assoc] at second
      exact second
  · rw [after_append, ← housed.log]
  · rw [structs, housed.structs, inUse]
  · rcases (blocks c).mp live with new | old
    · exact ⟨a, (inUse a).mpr (Or.inl rfl), by simp [new]⟩
    · obtain ⟨t, used, bottom⟩ := housed.owned c old
      refine ⟨t, (inUse t).mpr (Or.inr used), ?_⟩
      have other : t ≠ a := by
        rintro rfl
        rw [unused] at used
        cases used
      simp [other, bottom]
  · refine (blocks c).mpr ?_
    rcases bottoms t c used bottom with ⟨_, new⟩ | ⟨old, bottom⟩
    · exact Or.inl new
    · exact Or.inr (housed.owner t c old bottom)
  · rcases bottoms t c used first with ⟨here, new⟩ | ⟨old, mine⟩
    · rcases bottoms u c also second with ⟨there, _⟩ | ⟨old, mine⟩
      · rw [here, there]
      · exact absurd new (unowned u c old mine)
    · rcases bottoms u c also second with ⟨there, new⟩ | ⟨too, yours⟩
      · exact absurd new (unowned t c old mine)
      · exact housed.apart t u c old too mine yours
  · rcases kind with rfl | ⟨addr, rfl⟩ | ⟨addr, rfl, _⟩ <;> simp [allocStack, housed.never c]
  · by_cases self : t = a
    · subst self
      rcases kind with rfl | ⟨addr, rfl⟩ | ⟨addr, rfl, _⟩ <;> simp
    · simp only [Function.update_of_ne self]
      exact housed.bottoms t u

end

section
variable {s x : MemSystem T} {es more : List (Entry (Block T))} {t : T}

theorem Housed.deleted (housed : Housed s es) {y : ThreadSystem T} (ok : y.Ok)
    (used : s.threads.inUse t = true)
    (inUse : ∀ u, y.inUse u = true ↔ s.threads.inUse u = true ∧ u ≠ t)
    (settled : ∀ u, y.inUse u = true → y.kernel.Settled u)
    (own : ∀ addr, s.stackBottom t ≠ some (.user addr)) :
    Housed ⟨y, s.stackBottom, Ledger.after s.pool (deallocStack (s.stackBottom t) ++ [.free (.struct t)])⟩
      (es ++ (deallocStack (s.stackBottom t) ++ [.free (.struct t)])) := by
  have kind : s.stackBottom t = none ∨ ∃ addr, s.stackBottom t = some (.stack addr) := by
    cases bottom : s.stackBottom t with
    | none => exact Or.inl rfl
    | some block =>
      cases block with
      | struct u => exact absurd bottom (housed.bottoms t u)
      | stack addr => exact Or.inr ⟨addr, rfl⟩
      | user addr => exact absurd bottom (own addr)
  have structs : ∀ u, Ledger.after s.pool (deallocStack (s.stackBottom t) ++ [.free (.struct t)])
      (.struct u) = true ↔ s.pool (.struct u) = true ∧ u ≠ t := by
    intro u
    rcases kind with same | ⟨addr, same⟩ <;>
      simp [same, deallocStack, Ledger.after, Entry.apply, Function.update_apply, and_comm]
  have blocks : ∀ c, Ledger.after s.pool (deallocStack (s.stackBottom t) ++ [.free (.struct t)])
      (.stack c) = true ↔ s.pool (.stack c) = true ∧ s.stackBottom t ≠ some (.stack c) := by
    intro c
    rcases kind with same | ⟨addr, same⟩
    · simp [same, deallocStack, Ledger.after, Entry.apply]
    · simp [same, deallocStack, Ledger.after, Entry.apply, Function.update_apply, and_comm,
        eq_comm (a := c)]
  refine ⟨ok, ?_, ?_, fun u => ?_, fun c live => ?_, fun u c there bottom => ?_,
    fun u v c there also first second => ?_, fun c => ?_, housed.bottoms, settled⟩
  · have here : Ledger.after (fun _ => false) es (.struct t) = true := by
      rw [← housed.log]
      exact (housed.structs t).mpr used
    rcases kind with same | ⟨addr, same⟩
    · rw [same]
      exact housed.sound.free here
    · have held : Ledger.after (fun _ => false) es (.stack addr) = true := by
        rw [← housed.log]
        exact housed.owner t addr used same
      rw [same, ← List.append_assoc]
      apply (housed.sound.free held).free
      rw [after_append]
      simpa [Ledger.after, Entry.apply] using here
  · rw [after_append (fun _ => false) es, ← housed.log]
  · rw [structs, housed.structs, inUse]
  · obtain ⟨old, other⟩ := (blocks c).mp live
    obtain ⟨u, there, bottom⟩ := housed.owned c old
    refine ⟨u, (inUse u).mpr ⟨there, ?_⟩, bottom⟩
    rintro rfl
    exact other bottom
  · obtain ⟨there, other⟩ := (inUse u).mp there
    refine (blocks c).mpr ⟨housed.owner u c there bottom, fun mine => ?_⟩
    exact other (housed.apart u t c there used bottom mine)
  · exact housed.apart u v c ((inUse u).mp there).1 ((inUse v).mp also).1 first second
  · rcases kind with same | ⟨addr, same⟩ <;> simp [same, deallocStack, housed.never c]

theorem ThreadSystem.Ok.step_deletes [Fintype T] {s x : ThreadSystem T} (ok : s.Ok) {l : ThreadLabel T}
    {fs : List Unit} {k : Kernel T} (taken : s.step l = some (x, fs))
    (deletes : s.deletes l = some (t, k)) :
    s.inUse t = true ∧ s.reaped l = some t := by
  obtain ⟨_, _, _, _, _, alive, there, _⟩ := ok.deletes taken deletes
  refine ⟨ThreadSystem.inUse_iff.mpr ⟨alive, there⟩, ?_⟩
  have finds : ∀ u w, ((∃ e v, (w, JoinStep.deleted) = (setErrno e s.kernel, .ret v)) ∨
      (w, .deleted) = joinLoop u s.kernel) → s.kernel.state u = finishedThread := by
    rintro u w (⟨e, v, same⟩ | same)
    · cases same
    · exact (joinLoop_deletes same.symm).1
  cases l with
  | other l => cases deletes
  | recreate a stack attr env => cases deletes
  | detach u env => cases deletes
  | join u env =>
    have ways := pthreadJoinSys_cases u s.kernel
    simp only [ThreadSystem.deletes] at deletes
    split at deletes
    · rename_i w ran
      cases deletes
      rw [ran] at ways
      exact if_pos (finds _ _ ways)
    · cases deletes
  | rejoin env =>
    obtain ⟨u, waiting, deletes⟩ := Option.bind_eq_some_iff.mp deletes
    have ways := joinWoken_cases u s.kernel
    split at deletes
    · rename_i w ran
      cases deletes
      rw [ran] at ways
      simp [ThreadSystem.reaped, waiting, finds _ _ ways]
    · cases deletes
  | deleteNp u env =>
    cases deletes
    rfl

end

section
variable [Fintype T] {s x : MemSystem T} {es more : List (Entry (Block T))}

omit [Fintype T] in
theorem Tidy.exits {l : MemLabel T} (tidy : Tidy s l) (m : Label T) (same : l.label = .other m)
    (exiting : s.threads.system.exiting m = true) :
    getThreadDetachState (s.kernel.threadFlags s.kernel.currentThread) = 0#32 := by
  have here := tidy.2
  simp only [same] at here
  exact here exiting

omit [Fintype T] in
theorem Tidy.detaches {l : MemLabel T} (tidy : Tidy s l) (t : T) (env : Env)
    (same : l.label = .detach t env) : s.kernel.state t ≠ finishedThread := by
  have here := tidy.2
  simp only [same] at here
  exact here

theorem Housed.step (housed : Housed s es) {l : MemLabel T} (tidy : Tidy s l)
    (taken : s.step l = some (x, more)) : Housed x (es ++ more) := by
  simp only [MemSystem.step, Option.ite_none_right_eq_some, Option.map_eq_some_iff, Prod.mk.injEq,
    Prod.exists] at taken
  obtain ⟨fresh, y, _, moved, rfl, rfl⟩ := taken
  have ok := housed.ok.step moved
  have table := housed.ok.step_table moved
  have settled : ∀ t, y.inUse t = true → y.kernel.Settled t := by
    intro t used
    by_cases new : l.label.Creates t
    · exact ThreadSystem.step_new moved new
    · obtain ⟨old, stays⟩ := ((table.inUse t).mp used).resolve_left new
      exact housed.ok.step_old (ThreadSystem.inUse_iff.mp old).1 (housed.settled t old) tidy.exits
        tidy.detaches stays new moved
  cases creates : l.label.creates with
  | some c =>
    obtain ⟨a, stack, attr⟩ := c
    have stays : s.threads.deletes l.label = none := by
      obtain ⟨_, env, same | same⟩ := ThreadLabel.creates_cases creates
      · rw [same]
        rfl
      · rw [same]
        rfl
    have here : s.entries l = .malloc (.struct a) :: allocStack (newStack stack attr l.stack) := by
      simp only [MemSystem.entries, creates]
    have bottoms : s.bottoms l = Function.update s.stackBottom a (newStack stack attr l.stack) := by
      simp only [MemSystem.bottoms, creates]
    rw [here] at fresh ⊢
    rw [bottoms]
    refine housed.created ok (table.unused a ⟨stack, attr, creates⟩) (fun t => ?_) settled ?_
    · rw [table.inUse, stays]
      simp [ThreadLabel.Creates, creates, eq_comm (a := a)]
    · rcases newStack_cases (T := T) stack attr l.stack with same | same | same
      · exact Or.inl same
      · exact Or.inr (Or.inl ⟨l.stack, same⟩)
      · refine Or.inr (Or.inr ⟨l.stack, same, ?_⟩)
        simp only [same, allocStack, List.all_cons, List.all_nil, Entry.fresh, Bool.and_true,
          Bool.and_eq_true, Bool.not_eq_eq_eq_not, Bool.not_true] at fresh
        exact fresh.2
  | none =>
    have old : ∀ t, ¬l.label.Creates t := by
      rintro t ⟨_, _, new⟩
      rw [creates] at new
      cases new
    have bottoms : s.bottoms l = s.stackBottom := by simp only [MemSystem.bottoms, creates]
    rw [bottoms]
    cases deletes : s.threads.deletes l.label with
    | some d =>
      obtain ⟨t, k⟩ := d
      obtain ⟨used, reaped⟩ := housed.ok.step_deletes moved deletes
      have here : s.entries l = deallocStack (s.stackBottom t) ++ [.free (.struct t)] := by
        simp only [MemSystem.entries, creates, deletes]
      rw [here]
      have own : ∀ addr, s.stackBottom t ≠ some (.user addr) := by
        intro addr bottom
        have foreign := tidy.1 t reaped _ bottom
        cases foreign
      refine housed.deleted ok used (fun u => ?_) settled own
      rw [table.inUse, deletes]
      simp [old u, eq_comm (a := t)]
    | none =>
      have here : s.entries l = [] := by simp only [MemSystem.entries, creates, deletes]
      rw [here, List.append_nil]
      refine housed.same ok (fun t => ?_) settled
      rw [table.inUse, deletes]
      simp [old t]

omit [Fintype T] in
theorem housed_start (idle : T) (p : Int) : Housed (MemSystem.start idle p) [.malloc (.struct idle)] := by
  have ok := ThreadSystem.ok_start idle [(idle, p)] (by simp) p (by simp)
  have live : ∀ t, (MemSystem.start idle p).threads.inUse t = true ↔ t = idle := by
    intro t
    have kept := (scheduling_only 0 ([(idle, p)].foldl spawn (bootKernel idle))).quiet.table.live
    have spawned : ([(idle, p)].foldl spawn (bootKernel idle)).live t = decide (t = idle) := by
      simp only [List.foldl_cons, List.foldl_nil, spawn]
      rw [congrArg Kernel.live (activateThread_only _ _),
        congrArg Kernel.live (changeThreadPrio_only _ _ _)]
      simp [createPthreadStruct, bootKernel, Function.update_apply]
    rw [ThreadSystem.inUse_iff]
    simp only [MemSystem.start, ThreadSystem.kernel, startSystem, and_true]
    rw [kept, spawned, decide_eq_true_eq]
  refine ⟨ok, ?_, ?_, fun t => ?_, ?_, ?_, ?_, ?_, ?_, fun t used ended => ?_⟩
  · exact sound_nil.malloc _
  · funext b
    simp [MemSystem.start, Ledger.after, Entry.apply, Function.update_apply]
  · rw [live]
    simp [MemSystem.start]
  · intro addr held
    simp [MemSystem.start] at held
  · intro t addr _ bottom
    cases bottom
  · intro t u addr _ _ bottom
    cases bottom
  · simp
  · intro t u bottom
    cases bottom
  · have there : (MemSystem.start idle p).kernel.idleThread = idle :=
      (live _).mp (ThreadSystem.inUse_iff.mpr ⟨ok.system.kernel.idle, rfl⟩)
    have idling : (MemSystem.start idle p).kernel.state (MemSystem.start idle p).kernel.idleThread =
        readyThread := ok.system.idling
    rw [(live t).mp used] at ended
    rw [there, ended] at idling
    exact absurd idling finished_ne_ready

theorem thread_memory (idle : T) (p : Int) (ls : List (MemLabel T))
    (tidy : Lts.Along MemSystem.step Tidy (MemSystem.start idle p) ls) (x : MemSystem T)
    (es : List (Entry (Block T)))
    (run : Lts.exec MemSystem.step (MemSystem.start idle p) ls = some (x, es)) :
    MemoryKept x (.malloc (.struct idle) :: es) := by
  have housed : Housed x ([.malloc (.struct idle)] ++ es) :=
    Lts.exec_invariant (fun s es => Housed s ([.malloc (.struct idle)] ++ es))
      (fun s es l w first inv may taken => by
        rw [← List.append_assoc]
        exact inv.step may taken)
      ls (housed_start idle p) tidy run
  exact housed.kept

end

def urgentAttr (detachstate stackAddr : Bool) : PthreadAttr :=
  ⟨schedFifo, ⟨5, 0, 0, 0⟩, detachstate, stackAddr⟩

def createdAndJoined (detachstate stackAddr : Bool) : List (MemLabel (Fin 3)) :=
  [⟨.other (.enter (.call (.create (some 1) true none)) stillEnv), 100⟩,
    ⟨.other (.enter (.call (.create (some 2) true (some (urgentAttr detachstate stackAddr)))) stillEnv), 200⟩,
    ⟨.other (.enter (.call .exit) stillEnv), 0⟩, ⟨.other (.resume stillEnv), 0⟩,
    ⟨.other (.resume stillEnv), 0⟩, ⟨.join 2 stillEnv, 0⟩]

theorem thread_memory_joined :
    ∃ x es, Lts.exec MemSystem.step (MemSystem.start 0 1023) (createdAndJoined false false) = some (x, es) ∧
      es = [.malloc (.struct 1), .malloc (.stack 100), .malloc (.struct 2), .malloc (.stack 200),
        .free (.stack 200), .free (.struct 2)] ∧ MemoryKept x (.malloc (.struct 0) :: es) := by
  obtain ⟨⟨x, es⟩, run, log⟩ := Option.map_eq_some_iff.mp
    (by decide +kernel :
      (Lts.exec MemSystem.step (MemSystem.start 0 1023) (createdAndJoined false false)).map Prod.snd =
        some [.malloc (.struct 1), .malloc (.stack 100), .malloc (.struct 2), .malloc (.stack 200),
          .free (.stack 200), .free (.struct 2)])
  exact ⟨x, es, run, log, thread_memory 0 1023 (createdAndJoined false false) (by decide +kernel) x es run⟩

/-- The stack of the application is given to free_ex; and a detached thread keeps its
    structure and its stack when it has exited. -/
theorem thread_memory_fails :
    (∃ x es, Lts.exec MemSystem.step (MemSystem.start 0 1023) (createdAndJoined false true) = some (x, es) ∧
      ¬MemoryKept x (.malloc (.struct 0) :: es)) ∧
    (∃ x es, Lts.exec MemSystem.step (MemSystem.start 0 1023) (createdAndJoined true false) = some (x, es) ∧
      ¬MemoryKept x (.malloc (.struct 0) :: es)) := by
  constructor
  · obtain ⟨⟨x, es⟩, run, log⟩ := Option.map_eq_some_iff.mp
      (by decide +kernel :
        (Lts.exec MemSystem.step (MemSystem.start 0 1023) (createdAndJoined false true)).map Prod.snd =
          some [.malloc (.struct 1), .malloc (.stack 100), .malloc (.struct 2), .free (.user 200),
            .free (.struct 2)])
    obtain rfl : es = _ := log
    refine ⟨x, _, run, fun kept => kept.users 200 ?_⟩
    decide
  · obtain ⟨⟨x, es⟩, run, found⟩ := Option.map_eq_some_iff.mp
      (by decide +kernel :
        (Lts.exec MemSystem.step (MemSystem.start 0 1023) (createdAndJoined true false)).map
          (fun r => (r.2, r.1.kernel.state 2, getThreadDetachState (r.1.kernel.threadFlags 2))) =
          some ([.malloc (.struct 1), .malloc (.stack 100), .malloc (.struct 2), .malloc (.stack 200)],
            finishedThread, 8#32))
    simp only [Prod.mk.injEq] at found
    obtain ⟨rfl, ended, detached⟩ := found
    refine ⟨x, _, run, fun kept => ?_⟩
    have held : Outstanding _ (Block.struct (2 : Fin 3)) :=
      ⟨[.malloc (.struct 0), .malloc (.struct 1), .malloc (.stack 100)], [.malloc (.stack 200)], rfl,
        by decide⟩
    rcases (kept.structs 2 held).2 with active | attached
    · exact active ended
    · rw [detached] at attached
      exact absurd attached (by decide)

end L4ertl
