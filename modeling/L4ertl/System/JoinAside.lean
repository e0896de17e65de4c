import L4ertl.System.JoinWindow

/-!
The statements of divided calls as a thread sees them that they are not about.
-/
namespace L4ertl
open Intrusive
variable {T : Type} [DecidableEq T]

omit [DecidableEq T] in
def Ongoing.continues : Ongoing T → Ongoing T → Prop
  | .join t _, .join u _ | .detach t _, .detach u _ | .deleteNp t _, .deleteNp u _ => u = t
  | .exit value _, .exit other _ => other = value
  | .exit _ _, .leave | .detach _ _, .leave | .deleteNp _ _, .leave | .block, .leave => True
  | _, _ => False

def Ongoing.concerns (t c : T) : Ongoing T → Bool
  | .join u _ | .detach u _ | .deleteNp u _ => u = t
  | .exit _ _ => c = t
  | _ => false

/-- What becomes of the calls of the running thread by a statement of the innermost. -/
structure Continued (s w : DividedSystem T) (a : Ongoing T) (fs : List (Frame T)) : Prop where
  current : w.kernel.currentThread = s.kernel.currentThread
  frames : ∃ xs, w.frames = Function.update s.frames s.kernel.currentThread (xs ++ fs) ∧
    (∀ x ∈ xs, x.activity.isOps = true ∨ a.continues x.activity) ∧
    xs.countP (fun x => x.activity.target.isSome) ≤ 1

section
variable {s w : DividedSystem T} {d : Nat} {fs : List (Frame T)} {a b : Ongoing T}

theorem Continued.moves (continues : a.continues b) : Continued s (s.setHere (⟨d, b⟩ :: fs)) a fs := by
  refine ⟨rfl, [⟨d, b⟩], rfl, fun x member => Or.inr ?_, List.countP_le_length⟩
  rw [List.mem_singleton.mp member]
  exact continues

theorem Continued.returns : Continued s (s.setHere fs) a fs :=
  ⟨rfl, [], rfl, List.forall_mem_nil _, Nat.zero_le 1⟩

theorem Continued.operates (ops : List (SchedStmt T)) (continues : a.continues b) :
    Continued s (s.operate ops d (⟨d, b⟩ :: fs)) a fs := by
  refine ⟨rfl, (if ops = [] then [] else [⟨d, .ops ops⟩]) ++ [⟨d, b⟩], ?_, fun x member => ?_, ?_⟩
  · simp only [DividedSystem.operate, DividedSystem.setHere]
    split
    · rfl
    · rfl
  · rcases List.mem_append.mp member with ops | place
    · left
      split at ops
      · cases ops
      · rw [List.mem_singleton.mp ops]
        rfl
    · right
      rw [List.mem_singleton.mp place]
      exact continues
  · rw [List.countP_append]
    have none_ : (if ops = [] then [] else [Frame.mk d (.ops ops)]).countP
        (fun x => x.activity.target.isSome) = 0 := by
      split
      · rfl
      · rfl
    rw [none_, Nat.zero_add]
    exact List.countP_le_length

theorem Continued.after {k : Kernel T} (current : k.currentThread = s.kernel.currentThread)
    (continued : Continued (s.setKernel k) w a fs) : Continued s w a fs := by
  obtain ⟨same, xs, frames, own, one⟩ := continued
  refine ⟨same.trans current, xs, frames.trans ?_, own, one⟩
  exact congrArg (fun c => Function.update s.frames c _) current

theorem DividedSystem.schedule_continued (xs : List (Frame T)) (taken : s.schedule (xs ++ fs) = some w)
    (own : ∀ x ∈ xs, a.continues x.activity) (one : xs.length ≤ 1) : Continued s w a fs := by
  obtain ⟨q, next, rfl⟩ := Option.map_eq_some_iff.mp taken
  refine ⟨?_, xs, rfl, fun x member => Or.inr (own x member), List.countP_le_length.trans one⟩
  simp only [IrqSystem.next] at next
  split at next
  · split at next
    · cases next
      rfl
    · cases next
      rfl
  · cases next

theorem DividedSystem.reap_continued {t : T} {x : DividedSystem T} (reaped : s.reap t = some x)
    (continues : a.continues b) : Continued s (x.setHere (⟨d, b⟩ :: fs)) a fs := by
  unfold DividedSystem.reap at reaped
  split at reaped
  · cases reaped
    refine ⟨rfl, [⟨d, b⟩], rfl, fun y member => Or.inr ?_, List.countP_le_length⟩
    rw [List.mem_singleton.mp member]
    exact continues
  · cases reaped

theorem DividedSystem.joinNext_continued {t : T} {p : JoinPoint} {es : List (JoinEvent T)}
    (taken : s.joinNext d fs t p = some (w, es)) : Continued s w (.join t p) fs := by
  cases p with
  | start =>
    simp only [DividedSystem.joinNext] at taken
    split at taken
    · cases taken
      exact .after (k := setErrno esrch s.kernel) rfl .returns
    · split at taken
      · cases taken
        exact .after (k := setErrno einval s.kernel) rfl .returns
      · cases taken
        exact .moves rfl
  | reattached cState =>
    simp only [DividedSystem.joinNext] at taken
    split at taken
    · cases taken
      exact .after (k := setErrno einval s.kernel) rfl .returns
    · cases taken
      exact .moves rfl
  | register =>
    cases taken
    exact .after (k := setJoining t (some s.kernel.currentThread) s.kernel) rfl (.moves rfl)
  | suspend =>
    cases taken
    exact .operates _ rfl
  | call =>
    simp only [DividedSystem.joinNext, Option.map_eq_some_iff] at taken
    obtain ⟨x, scheduled, same⟩ := taken
    cases same
    refine DividedSystem.schedule_continued [⟨d, .join t .relook⟩] scheduled (fun x member => ?_) le_rfl
    rw [List.mem_singleton.mp member]
    rfl
  | delete value =>
    simp only [DividedSystem.joinNext, Option.map_eq_some_iff] at taken
    obtain ⟨x, reaped, same⟩ := taken
    cases same
    exact DividedSystem.reap_continued reaped rfl
  | ret value =>
    cases taken
    exact .returns
  | _ =>
    cases taken
    exact .moves rfl

theorem DividedSystem.exitNext_continued {value : Word} {p : ExitPoint} {es : List (JoinEvent T)}
    (taken : s.exitNext d fs value p = some (w, es)) : Continued s w (.exit value p) fs := by
  cases p with
  | timer =>
    simp only [DividedSystem.exitNext] at taken
    split at taken
    · rename_i k freed
      cases taken
      have current := congrArg Kernel.currentThread (freeKtimer_book freed).1
      exact .after current (.moves rfl)
    · cases taken
  | finish =>
    cases taken
    exact .operates _ rfl
  | value =>
    cases taken
    refine ⟨rfl, [⟨d, .exit value .wake⟩], rfl, fun x member => Or.inr ?_, List.countP_le_length⟩
    rw [List.mem_singleton.mp member]
    rfl
  | wake =>
    simp only [DividedSystem.exitNext] at taken
    split at taken
    · split at taken
      · cases taken
        exact .operates _ trivial
      · cases taken
        exact .moves trivial
    · cases taken
      exact .moves trivial

theorem DividedSystem.detachNext_continued {t : T} {p : DetachPoint} {es : List (JoinEvent T)}
    (taken : s.detachNext d fs t p = some (w, es)) : Continued s w (.detach t p) fs := by
  cases p with
  | start =>
    simp only [DividedSystem.detachNext] at taken
    split at taken
    · cases taken
      exact .after (k := setErrno esrch s.kernel) rfl .returns
    · split at taken
      · cases taken
        exact .after (k := setErrno einval s.kernel) rfl .returns
      · cases taken
        exact .after (k := setFlags t (setThreadDetachState (s.kernel.threadFlags t) true) s.kernel) rfl
          (.moves rfl)
  | wake =>
    simp only [DividedSystem.detachNext] at taken
    split at taken
    · cases taken
      exact .operates _ rfl
    · cases taken
  | clear =>
    cases taken
    exact .after (k := setJoining s.kernel.currentThread none s.kernel) rfl (.moves trivial)

theorem DividedSystem.activityNext_continued [Fintype T] {es : List (JoinEvent T)}
    (taken : s.activityNext d fs a = some (w, es)) : Continued s w a fs := by
  cases a with
  | ops rest =>
    cases rest with
    | nil =>
      cases taken
      exact .returns
    | cons stmt rest =>
      cases taken
      have current := congrArg Kernel.currentThread (stmt.run_only s.kernel)
      refine .after (k := stmt.run s.kernel) current
        ⟨rfl, if rest = [] then [] else [⟨d, .ops rest⟩], ?_, fun x member => Or.inl ?_, ?_⟩
      · simp only [DividedSystem.operate, DividedSystem.setHere]
        split
        · rfl
        · rfl
      · split at member
        · cases member
        · rw [List.mem_singleton.mp member]
          rfl
      · split
        · exact Nat.zero_le 1
        · exact List.countP_le_length
  | join t p => exact DividedSystem.joinNext_continued taken
  | exit value p => exact DividedSystem.exitNext_continued taken
  | detach t p => exact DividedSystem.detachNext_continued taken
  | deleteNp t p =>
    cases p with
    | finish =>
      cases taken
      exact .operates _ rfl
    | delete =>
      simp only [DividedSystem.activityNext, DividedSystem.deleteNext, Option.map_eq_some_iff] at taken
      obtain ⟨x, reaped, same⟩ := taken
      cases same
      exact DividedSystem.reap_continued reaped trivial
  | block =>
    cases taken
    exact .operates _ trivial
  | leave =>
    simp only [DividedSystem.activityNext, Option.map_eq_some_iff] at taken
    obtain ⟨x, scheduled, same⟩ := taken
    cases same
    exact DividedSystem.schedule_continued [] scheduled (List.forall_mem_nil _) (Nat.zero_le 1)

/-- What a statement that is not about `t` leaves of it. -/
structure Apart (t : T) (s w : DividedSystem T) (a : Ongoing T) (es : List (JoinEvent T)) : Prop where
  there : w.freed t = s.freed t
  magic : w.kernel.magicNumber t = s.kernel.magicNumber t
  flag : getThreadDetachState (w.kernel.threadFlags t) = getThreadDetachState (s.kernel.threadFlags t)
  value : w.exitValue t = s.exitValue t
  record : w.kernel.joiningThread t = s.kernel.joiningThread t ∨
    s.kernel.currentThread = t ∧ a.isClear = true
  quiet : es.filter (JoinEvent.about t) = []

variable {t : T}

theorem Apart.moves (gs : List (Frame T)) : Apart t s (s.setHere gs) a [] :=
  ⟨rfl, rfl, rfl, rfl, Or.inl rfl, rfl⟩

theorem Apart.operates (ops : List (SchedStmt T)) (e : Nat) (gs : List (Frame T)) :
    Apart t s (s.operate ops e gs) a [] :=
  ⟨rfl, rfl, rfl, rfl, Or.inl rfl, rfl⟩

theorem DividedSystem.schedule_apart {gs : List (Frame T)} (taken : s.schedule gs = some w) :
    Apart t s w a [] := by
  obtain ⟨q, next, rfl⟩ := Option.map_eq_some_iff.mp taken
  simp only [IrqSystem.next] at next
  split at next
  · split at next
    · cases next
      exact ⟨rfl, rfl, rfl, rfl, Or.inl rfl, rfl⟩
    · cases next
      exact ⟨rfl, rfl, rfl, rfl, Or.inl rfl, rfl⟩
  · cases next

theorem DividedSystem.reap_apart {u : T} (other : u ≠ t) {x : DividedSystem T} (reaped : s.reap u = some x)
    (gs : List (Frame T)) : Apart t s (x.setHere gs) a [.deleted u] := by
  have quiet : [JoinEvent.deleted u].filter (JoinEvent.about t) = [] := by
    simp [JoinEvent.about, other]
  unfold DividedSystem.reap at reaped
  split at reaped
  · cases reaped
    exact ⟨Function.update_of_ne other.symm .., rfl, rfl, rfl, Or.inl rfl, quiet⟩
  · cases reaped

theorem DividedSystem.joinNext_apart {u : T} (other : u ≠ t) {p : JoinPoint} {es : List (JoinEvent T)}
    (taken : s.joinNext d fs u p = some (w, es)) : Apart t s w (.join u p) es := by
  cases p with
  | start =>
    simp only [DividedSystem.joinNext] at taken
    split at taken
    · cases taken
      exact ⟨rfl, rfl, rfl, rfl, Or.inl rfl, rfl⟩
    · split at taken
      · cases taken
        exact ⟨rfl, rfl, rfl, rfl, Or.inl rfl, rfl⟩
      · cases taken
        exact .moves _
  | reattached cState =>
    simp only [DividedSystem.joinNext] at taken
    split at taken
    · cases taken
      exact ⟨rfl, rfl, rfl, rfl, Or.inl rfl, rfl⟩
    · cases taken
      exact .moves _
  | register =>
    cases taken
    exact ⟨rfl, rfl, rfl, rfl, Or.inl (Function.update_of_ne other.symm ..), rfl⟩
  | suspend =>
    cases taken
    exact .operates _ _ _
  | call =>
    simp only [DividedSystem.joinNext, Option.map_eq_some_iff] at taken
    obtain ⟨x, scheduled, same⟩ := taken
    cases same
    exact DividedSystem.schedule_apart scheduled
  | delete value =>
    simp only [DividedSystem.joinNext, Option.map_eq_some_iff] at taken
    obtain ⟨x, reaped, same⟩ := taken
    cases same
    exact DividedSystem.reap_apart other reaped _
  | ret value =>
    cases taken
    refine ⟨rfl, rfl, rfl, rfl, Or.inl rfl, ?_⟩
    simp [JoinEvent.about, other]
  | _ =>
    cases taken
    exact .moves _

theorem DividedSystem.exitNext_apart (other : s.kernel.currentThread ≠ t) {value : Word} {p : ExitPoint}
    {es : List (JoinEvent T)} (taken : s.exitNext d fs value p = some (w, es)) :
    Apart t s w (.exit value p) es := by
  cases p with
  | timer =>
    simp only [DividedSystem.exitNext] at taken
    split at taken
    · rename_i k freed
      cases taken
      have only := (freeKtimer_book freed).1
      have magic := congrArg Kernel.magicNumber only
      have flags := congrArg Kernel.threadFlags only
      have joining := congrArg Kernel.joiningThread only
      exact ⟨rfl, congrFun magic t, congrArg getThreadDetachState (congrFun flags t), rfl,
        Or.inl (congrFun joining t), rfl⟩
    · cases taken
  | finish =>
    cases taken
    exact .operates _ _ _
  | value =>
    cases taken
    refine ⟨rfl, rfl, rfl, Function.update_of_ne other.symm .., Or.inl rfl, ?_⟩
    simp [JoinEvent.about, other]
  | wake =>
    simp only [DividedSystem.exitNext] at taken
    split at taken
    · split at taken
      · cases taken
        exact .operates _ _ _
      · cases taken
        exact .moves _
    · cases taken
      exact .moves _

theorem DividedSystem.detachNext_apart {u : T} (other : u ≠ t) {p : DetachPoint} {es : List (JoinEvent T)}
    (taken : s.detachNext d fs u p = some (w, es)) : Apart t s w (.detach u p) es := by
  cases p with
  | start =>
    simp only [DividedSystem.detachNext] at taken
    split at taken
    · cases taken
      exact ⟨rfl, rfl, rfl, rfl, Or.inl rfl, rfl⟩
    · split at taken
      · cases taken
        exact ⟨rfl, rfl, rfl, rfl, Or.inl rfl, rfl⟩
      · cases taken
        exact ⟨rfl, rfl, congrArg getThreadDetachState (Function.update_of_ne other.symm ..), rfl, Or.inl rfl,
          rfl⟩
  | wake =>
    simp only [DividedSystem.detachNext] at taken
    split at taken
    · cases taken
      exact .operates _ _ _
    · cases taken
  | clear =>
    cases taken
    refine ⟨rfl, rfl, rfl, rfl, ?_, rfl⟩
    by_cases self : t = s.kernel.currentThread
    · exact Or.inr ⟨self.symm, rfl⟩
    · exact Or.inl (Function.update_of_ne self ..)

theorem DividedSystem.activityNext_apart [Fintype T] {es : List (JoinEvent T)}
    (other : a.concerns t s.kernel.currentThread = false) (taken : s.activityNext d fs a = some (w, es)) :
    Apart t s w a es := by
  cases a with
  | ops rest =>
    cases rest with
    | nil =>
      cases taken
      exact .moves _
    | cons stmt rest =>
      cases taken
      have only := stmt.run_only s.kernel
      have magic := congrArg Kernel.magicNumber only
      have joining := congrArg Kernel.joiningThread only
      exact ⟨rfl, congrFun magic t, stmt.run_detach s.kernel t, rfl, Or.inl (congrFun joining t), rfl⟩
  | join u p => exact DividedSystem.joinNext_apart (of_decide_eq_false other) taken
  | exit value p => exact DividedSystem.exitNext_apart (of_decide_eq_false other) taken
  | detach u p => exact DividedSystem.detachNext_apart (of_decide_eq_false other) taken
  | deleteNp u p =>
    cases p with
    | finish =>
      cases taken
      exact .operates _ _ _
    | delete =>
      simp only [DividedSystem.activityNext, DividedSystem.deleteNext, Option.map_eq_some_iff] at taken
      obtain ⟨x, reaped, same⟩ := taken
      cases same
      exact DividedSystem.reap_apart (of_decide_eq_false other) reaped _
  | block =>
    cases taken
    exact .operates _ _ _
  | leave =>
    simp only [DividedSystem.activityNext, Option.map_eq_some_iff] at taken
    obtain ⟨x, scheduled, same⟩ := taken
    cases same
    exact DividedSystem.schedule_apart scheduled

omit [DecidableEq T] in
theorem Ongoing.continues_target {x y : Ongoing T} (continues : x.continues y) (about : y.target.isSome) :
    x.target = y.target := by
  cases y with
  | join u p =>
    cases x with
    | join v q => exact congrArg some (Eq.symm continues)
    | _ => exact continues.elim
  | detach u p =>
    cases x with
    | detach v q => exact congrArg some (Eq.symm continues)
    | _ => exact continues.elim
  | deleteNp u p =>
    cases x with
    | deleteNp v q => exact congrArg some (Eq.symm continues)
    | _ => exact continues.elim
  | _ => cases about

end

section
variable [Fintype T] {s w : DividedSystem T} {d : Nat} {fs : List (Frame T)} {a : Ongoing T} {t j : T}

theorem DividedSystem.Sane.scheduled (xs : List (Frame T)) (sane : s.Sane) (here : s.here = ⟨d, a⟩ :: fs)
    (done : s.rest = []) (plain : a.isOps = false) (own : ∀ x ∈ xs, x.activity.isOps = false ∧
      x.activity.ends = false ∧ ∀ v, x.activity.target = some v → a.target = some v)
    (taken : s.schedule (xs ++ fs) = some w) :
    ReadyAlike s.settled w.settled ∧ Interrupted s w ∧
      w.kernel.currentThread = s.kernel.currentThread ∧
      w.frames = Function.update s.frames s.kernel.currentThread (xs ++ fs) := by
  have below : restOf fs = [] := by
    have all := done
    rw [DividedSystem.rest, here, restOf_cons] at all
    exact (List.append_eq_nil_iff.mp all).2
  have none_ : ∀ x ∈ xs, x.rest = [] := by
    intro x member
    have call := (own x member).1
    obtain ⟨e, b⟩ := x
    cases b with
    | ops rest => cases call
    | _ => rfl
  obtain ⟨_, step, current, frames⟩ := sane.schedule here done taken fun g member => by
    rcases List.mem_append.mp member with new | before
    · obtain ⟨_, ends, target⟩ := own g new
      exact Or.inr ⟨ends, none_ g new, plain, target⟩
    · exact Or.inl before
  have rest : w.rest = [] := by
    rw [DividedSystem.rest, DividedSystem.here, current, frames, Function.update_self, restOf,
      List.flatMap_append, List.append_eq_nil_iff]
    exact ⟨List.flatMap_eq_nil_iff.mpr none_, below⟩
  refine ⟨?_, step, current, frames⟩
  rw [s.settled_done done, w.settled_done rest]
  exact step.alike

theorem DividedSystem.Sane.next_turned (sane : s.Sane) (orderly : s.Orderly .next)
    (here : s.here = ⟨d, a⟩ :: fs) {es : List (JoinEvent T)} (taken : s.activityNext d fs a = some (w, es)) :
    ∃ slept ended, Turned slept ended s.settled w.settled ∧
      (∀ u, slept = some u → u = s.kernel.currentThread ∧
        (a.isBlock = true ∨ ∃ v, a = .join v .suspend)) ∧
      ∀ u, ended = some u → (u = s.kernel.currentThread ∧ ∃ v, a = .exit v .finish) ∨
        a = .deleteNp u .finish := by
  have none_ : ∀ u : T, none ≠ some u := fun u same => by cases same
  cases a with
  | ops rest =>
    cases rest with
    | nil =>
      cases taken
      exact ⟨none, none, (DividedSystem.ops_end here).turned, fun u same => absurd same (none_ u),
        fun u same => absurd same (none_ u)⟩
    | cons stmt rest =>
      cases taken
      exact ⟨none, none, (DividedSystem.ops_advance here).turned, fun u same => absurd same (none_ u),
        fun u same => absurd same (none_ u)⟩
  | join v p =>
    have done := orderly.next_done here rfl
    by_cases call : p = .call
    · subst call
      simp only [DividedSystem.activityNext, DividedSystem.joinNext, Option.map_eq_some_iff] at taken
      obtain ⟨x, scheduled, same⟩ := taken
      cases same
      refine ⟨none, none, .of_alike (sane.scheduled [⟨d, .join v .relook⟩] here done rfl
        (fun x member => ?_) scheduled).1, fun u same => absurd same (none_ u),
        fun u same => absurd same (none_ u)⟩
      rw [List.mem_singleton.mp member]
      exact ⟨rfl, rfl, fun _ aimed => aimed⟩
    · refine ⟨_, _, (sane.join_advance here done call taken).turned, fun u same => ?_,
        fun u same => absurd same (none_ u)⟩
      split at same
      · rename_i point
        rw [point]
        exact ⟨(Option.some.inj same).symm, Or.inr ⟨v, rfl⟩⟩
      · exact absurd same (none_ u)
  | exit value p =>
    refine ⟨_, _, (sane.exit_advance here (orderly.next_done here rfl) taken).turned,
      fun u same => absurd same (none_ u), fun u same => ?_⟩
    split at same
    · rename_i point
      rw [point]
      exact Or.inl ⟨(Option.some.inj same).symm, value, rfl⟩
    · exact absurd same (none_ u)
  | detach v p =>
    exact ⟨_, _, (sane.detach_advance here (orderly.next_done here rfl) taken).turned,
      fun u same => absurd same (none_ u), fun u same => absurd same (none_ u)⟩
  | deleteNp v p =>
    refine ⟨_, _, (sane.deleteNp_advance here (orderly.next_done here rfl) taken).turned,
      fun u same => absurd same (none_ u), fun u same => ?_⟩
    split at same
    · rename_i point
      rw [point, Option.some.inj same]
      exact Or.inr rfl
    · exact absurd same (none_ u)
  | block =>
    cases taken
    exact ⟨_, _, (sane.block_advance here (orderly.next_done here rfl)).turned,
      fun u same => ⟨(Option.some.inj same).symm, Or.inl rfl⟩, fun u same => absurd same (none_ u)⟩
  | leave =>
    simp only [DividedSystem.activityNext, Option.map_eq_some_iff] at taken
    obtain ⟨x, scheduled, same⟩ := taken
    cases same
    exact ⟨none, none, .of_alike (sane.scheduled [] here (orderly.next_done here rfl) rfl
      (List.forall_mem_nil _) scheduled).1, fun u same => absurd same (none_ u),
      fun u same => absurd same (none_ u)⟩

omit [Fintype T] in
theorem Continued.here_eq (continued : Continued s w a fs) : ∃ xs, w.here = xs ++ fs ∧
    (∀ x ∈ xs, x.activity.isOps = true ∨ a.continues x.activity) ∧
    xs.countP (fun x => x.activity.target.isSome) ≤ 1 := by
  obtain ⟨current, xs, frames, own, one⟩ := continued
  refine ⟨xs, ?_, own, one⟩
  rw [DividedSystem.here, current, frames, Function.update_self]

omit [Fintype T] in
theorem Continued.others (continued : Continued s w a fs) {u : T} (other : u ≠ s.kernel.currentThread) :
    w.frames u = s.frames u := by
  obtain ⟨_, xs, frames, _⟩ := continued
  rw [frames, Function.update_of_ne other]

omit [Fintype T] in
theorem Continued.places {β : Type} (continued : Continued s w a fs) (here : s.here = ⟨d, a⟩ :: fs)
    (of : Frame T → Option β) (plain : ∀ e ops, of ⟨e, .ops ops⟩ = none)
    (silent : of ⟨d, a⟩ = none) (kept : ∀ e b, a.continues b → of ⟨e, b⟩ = none) (u : T) :
    (w.frames u).filterMap of = (s.frames u).filterMap of := by
  by_cases self : u = s.kernel.currentThread
  · obtain ⟨xs, new, own, _⟩ := continued.here_eq
    have none_ : xs.filterMap of = [] := by
      rw [List.filterMap_eq_nil_iff]
      rintro ⟨e, b⟩ member
      rcases own _ member with ops | continues
      · cases b with
        | ops rest => exact plain e rest
        | _ => cases ops
      · exact kept e b continues
    have after : w.frames u = xs ++ fs := by
      rw [self, ← continued.current]
      exact new
    have before : s.frames u = ⟨d, a⟩ :: fs := by
      rw [self]
      exact here
    rw [after, before, List.filterMap_append, none_, List.filterMap_cons_none silent, List.nil_append]
  · rw [continued.others self]

omit [Fintype T] in
theorem Continued.joins (continued : Continued s w a fs) (here : s.here = ⟨d, a⟩ :: fs)
    (other : ∀ p, a ≠ .join t p) (u : T) : w.joins t u = s.joins t u := by
  have silent : ∀ e, Frame.joining t ⟨e, a⟩ = none := by
    intro e
    cases a with
    | join v p => exact if_neg fun self => other p (by rw [self])
    | _ => rfl
  refine continued.places here (Frame.joining t) (fun _ _ => rfl) (silent d) (fun e b continues => ?_) u
  cases b with
  | join v p =>
    have target := Ongoing.continues_target continues rfl
    refine if_neg fun self => ?_
    cases a with
    | join x q =>
      cases target
      exact other q (by rw [self])
    | _ => exact continues.elim
  | _ => rfl

omit [Fintype T] in
theorem Continued.exits (continued : Continued s w a fs) (here : s.here = ⟨d, a⟩ :: fs)
    (other : ∀ value p, a ≠ .exit value p) (u : T) : w.exits u = s.exits u := by
  refine continued.places here Frame.exiting (fun _ _ => rfl) ?_ (fun e b continues => ?_) u
  · cases a with
    | exit value p => exact absurd rfl (other value p)
    | _ => rfl
  · cases b with
    | exit value p =>
      cases a with
      | exit v q => exact absurd rfl (other v q)
      | _ => exact continues.elim
    | _ => rfl

omit [Fintype T] in
theorem Continued.kept (continued : Continued s w a fs) (here : s.here = ⟨d, a⟩ :: fs) (u : T)
    (f : Frame T) (member : f ∈ w.frames u) (removes : f.activity.removes = some t) :
    ∃ g ∈ s.frames u, g.activity.removes = some t := by
  by_cases self : u = s.kernel.currentThread
  · obtain ⟨xs, new, own, _⟩ := continued.here_eq
    rw [self] at member ⊢
    rw [← continued.current, show w.frames w.kernel.currentThread = xs ++ fs from new] at member
    have before : s.frames s.kernel.currentThread = ⟨d, a⟩ :: fs := here
    rw [before]
    rcases List.mem_append.mp member with there | below
    · refine ⟨⟨d, a⟩, List.mem_cons_self, ?_⟩
      obtain ⟨e, b⟩ := f
      rcases own _ there with ops | continues
      · cases b with
        | ops rest => cases removes
        | _ => cases ops
      · cases b with
        | detach v p =>
          cases a with
          | detach x q => exact (congrArg some (Eq.symm continues)).trans removes
          | _ => exact continues.elim
        | deleteNp v p =>
          cases a with
          | deleteNp x q => exact (congrArg some (Eq.symm continues)).trans removes
          | _ => exact continues.elim
        | _ => cases removes
    · exact ⟨f, List.mem_cons_of_mem _ below, removes⟩
  · rw [continued.others self] at member
    exact ⟨f, member, removes⟩

omit [Fintype T] in
theorem Continued.single (continued : Continued s w a fs) (here : s.here = ⟨d, a⟩ :: fs)
    (single : s.Single) : w.Single := by
  intro u
  by_cases self : u = s.kernel.currentThread
  · obtain ⟨xs, new, own, one⟩ := continued.here_eq
    have before := single s.kernel.currentThread
    rw [show s.frames s.kernel.currentThread = ⟨d, a⟩ :: fs from here, List.countP_cons] at before
    rw [self, ← continued.current, show w.frames w.kernel.currentThread = xs ++ fs from new,
      List.countP_append]
    by_cases target : a.target.isSome = true
    · rw [if_pos target] at before
      omega
    · have none_ : xs.countP (fun x => x.activity.target.isSome) = 0 := by
        rw [List.countP_eq_zero]
        rintro ⟨e, b⟩ member about
        rcases own _ member with ops | continues
        · cases b with
          | ops rest => cases about
          | _ => cases ops
        · rw [Ongoing.continues_target continues about] at target
          exact target about
      rw [none_, Nat.zero_add]
      exact (Nat.le_add_right _ _).trans before
  · rw [continued.others self]
    exact single u

omit [Fintype T] in
theorem joinsIn_single {f : Frame T} (one : (f :: fs).countP (fun x => x.activity.target.isSome) ≤ 1)
    (about : f.activity.target.isSome = true) (t : T) : joinsIn t fs = [] := by
  rw [List.countP_cons, if_pos about] at one
  have none_ : fs.countP (fun x => x.activity.target.isSome) = 0 := by omega
  rw [List.countP_eq_zero] at none_
  rw [joinsIn, List.filterMap_eq_nil_iff]
  rintro ⟨e, b⟩ member
  cases b with
  | join v p => exact absurd rfl (none_ _ member)
  | _ => rfl

omit [DecidableEq T] [Fintype T] in
theorem DividedSystem.before_top {q : Ongoing T → Bool} (here : s.here = ⟨d, a⟩ :: fs) (is : q a = true) :
    s.before q = true := by
  rw [DividedSystem.before, here]
  exact is

/-- `j` is put to sleep by such a statement only where the thread it joins has it on record. -/
theorem DividedSystem.Sane.aside_joiner (sane : s.Sane) (single : s.Single) (orderly : s.Orderly .next)
    (safe : s.NoMiss t j) (here : s.here = ⟨d, a⟩ :: fs) {es : List (JoinEvent T)}
    (taken : s.activityNext d fs a = some (w, es)) (other : ∀ p, a ≠ .join t p) {p : JoinPoint}
    (member : p ∈ s.joins t j) (sleeping : p.sleeping = true) :
    w.settled.state j = s.settled.state j ∨ w.settled.state j = readyThread ∨
      w.settled.state j = finishedThread ∨
      s.kernel.currentThread = j ∧ w.settled.state j = suspendedThread ∧
        s.settled.state t ≠ finishedThread ∧ s.kernel.joiningThread t = some j := by
  obtain ⟨slept, ended, turned, sleeps, _⟩ := sane.next_turned orderly here taken
  rcases turned.states j with same | ⟨_, ready⟩ | ⟨slept, _, asleep⟩ | ⟨_, stopped⟩
  · exact Or.inl same
  · exact Or.inr (Or.inl ready)
  · obtain ⟨self, block | ⟨v, point⟩⟩ := sleeps j slept
    · have call : a.isOps = false := by
        cases a with
        | block => rfl
        | _ => cases block
      rw [s.settled_done (orderly.next_done here call)]
      exact Or.inr (Or.inr (Or.inr ⟨self.symm, asleep,
        safe.sleeps self.symm (DividedSystem.before_top here block) ⟨p, member, sleeping⟩⟩))
    · exfalso
      subst point
      have frames : s.frames j = ⟨d, .join v .suspend⟩ :: fs := by
        rw [self]
        exact here
      have one := single j
      rw [frames] at one
      have away : v ≠ t := fun same => other .suspend (by rw [same])
      have silent : Frame.joining t ⟨d, .join v .suspend⟩ = none := if_neg away
      have none_ : s.joins t j = [] := by
        rw [DividedSystem.joins, frames, joinsIn, List.filterMap_cons_none silent]
        exact joinsIn_single one rfl t
      rw [none_] at member
      cases member
  · exact Or.inr (Or.inr (Or.inl stopped))

theorem Untouched.of_turned {slept ended : Option T} (turned : Turned slept ended s.settled w.settled)
    (going : ended ≠ some t) (there : w.freed t = s.freed t)
    (magic : w.kernel.magicNumber t = s.kernel.magicNumber t)
    (flag : getThreadDetachState (w.kernel.threadFlags t) = getThreadDetachState (s.kernel.threadFlags t))
    (kept : ∀ u, ∀ f ∈ w.frames u, f.activity.removes = some t →
      ∃ g ∈ s.frames u, g.activity.removes = some t) : Untouched t s w := by
  have live : w.kernel.live = s.kernel.live := by
    rw [← w.settled_live, ← s.settled_live]
    exact turned.live
  refine ⟨fun alive => (congrFun live t).trans alive, there, magic, flag, ?_, kept⟩
  rcases turned.states t with same | ⟨active, ready⟩ | ⟨_, active, asleep⟩ | ⟨stopped, _⟩
  · rw [same]
  · rw [ready]
    exact ⟨fun stopped => absurd stopped ready_ne_finished, fun stopped => absurd stopped active⟩
  · rw [asleep]
    exact ⟨fun stopped => absurd stopped (by decide), fun stopped => absurd stopped active⟩
  · exact absurd stopped going

theorem DividedSystem.Sane.untouched_next (sane : s.Sane) (orderly : s.Orderly .next)
    (here : s.here = ⟨d, a⟩ :: fs) {es : List (JoinEvent T)} (taken : s.activityNext d fs a = some (w, es))
    (there : w.freed t = s.freed t) (magic : w.kernel.magicNumber t = s.kernel.magicNumber t)
    (flag : getThreadDetachState (w.kernel.threadFlags t) = getThreadDetachState (s.kernel.threadFlags t))
    (exits : s.kernel.currentThread = t → ∀ v, a ≠ .exit v .finish) (stays : a ≠ .deleteNp t .finish) :
    Untouched t s w := by
  obtain ⟨slept, ended, turned, _, ends⟩ := sane.next_turned orderly here taken
  refine .of_turned turned (fun stopped => ?_) there magic flag
    ((DividedSystem.activityNext_continued taken).kept here)
  rcases ends t stopped with ⟨self, v, is⟩ | is
  · exact exits self.symm v is
  · exact stays is

theorem DividedSystem.Sane.aside_next (sane : s.Sane) (single : s.Single) (orderly : s.Orderly .next)
    (safe : s.NoMiss t j) (here : s.here = ⟨d, a⟩ :: fs) {es : List (JoinEvent T)}
    (taken : s.activityNext d fs a = some (w, es)) (other : a.concerns t s.kernel.currentThread = false) :
    Aside t j s w ∧ es.filter (JoinEvent.about t) = [] := by
  have apart := DividedSystem.activityNext_apart other taken
  have continued := DividedSystem.activityNext_continued taken
  have away : ∀ p, a ≠ .join t p := by
    rintro p rfl
    exact of_decide_eq_false other rfl
  have mine : s.kernel.currentThread = t → ∀ value p, a ≠ .exit value p := by
    rintro self value p rfl
    exact of_decide_eq_false other self
  have untouched := sane.untouched_next orderly here taken apart.there apart.magic apart.flag
    (fun self v => mine self v .finish) (by rintro rfl; exact of_decide_eq_false other rfl)
  refine ⟨⟨untouched, apart.value, ?_, continued.current, fun u p member => ?_, ?_,
    fun p member sleeping => ?_⟩, apart.quiet⟩
  · by_cases self : s.kernel.currentThread = t
    · exact continued.exits here (mine self) t
    · exact congrArg exitsIn (continued.others fun same => self same.symm)
  · rw [continued.joins here away] at member
    exact member
  · rcases apart.record with same | ⟨self, clear⟩
    · exact Or.inl same
    · have call : a.isOps = false := by
        cases a with
        | ops rest => cases clear
        | _ => rfl
      obtain ⟨none_, awake⟩ := safe.forgets self (DividedSystem.before_top here clear)
      refine Or.inr ⟨self, none_, fun p member sleeping asleep => awake ⟨?_, p, member, sleeping⟩⟩
      rw [s.settled_done (orderly.next_done here call)] at asleep
      exact asleep
  · rw [continued.joins here away] at member
    exact sane.aside_joiner single orderly safe here taken away member sleeping

end

end L4ertl
