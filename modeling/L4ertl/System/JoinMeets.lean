import L4ertl.System.JoinAside

/-!
The statements of the two threads that meet: the joiner's way through
pthread_join_sys, and that of the thread it joins through pthread_exit_sys.
-/
namespace L4ertl
open Intrusive
variable {T : Type} [DecidableEq T] [Fintype T]

section
variable {t j : T} {s w : DividedSystem T} {d : Nat} {fs : List (Frame T)} {es : List (JoinEvent T)}

omit [Fintype T] in
theorem DividedSystem.joins_here (current : w.kernel.currentThread = j) : w.joins t j = joinsIn t w.here := by
  rw [DividedSystem.here, current]
  rfl

omit [Fintype T] in
theorem joinsIn_top (p : JoinPoint) : joinsIn t (⟨d, .join t p⟩ :: fs) = p :: joinsIn t fs :=
  List.filterMap_cons_some (if_pos rfl)

omit [Fintype T] in
theorem DividedSystem.Single.joins_top (single : s.Single) {p : JoinPoint}
    (here : s.here = ⟨d, .join t p⟩ :: fs) : joinsIn t fs = [] := by
  have one := single s.kernel.currentThread
  rw [show s.frames s.kernel.currentThread = ⟨d, .join t p⟩ :: fs from here] at one
  exact joinsIn_single one rfl t

omit [Fintype T] in
theorem DividedSystem.joinNext_own {p : JoinPoint} (before : ∀ value, p ≠ .delete value)
    (taken : s.joinNext d fs t p = some (w, es)) : w.freed t = s.freed t ∧
      w.kernel.magicNumber t = s.kernel.magicNumber t ∧
      getThreadDetachState (w.kernel.threadFlags t) = getThreadDetachState (s.kernel.threadFlags t) ∧
      w.exitValue t = s.exitValue t := by
  cases p with
  | start =>
    simp only [DividedSystem.joinNext] at taken
    split at taken
    · cases taken
      exact ⟨rfl, rfl, rfl, rfl⟩
    · split at taken
      · cases taken
        exact ⟨rfl, rfl, rfl, rfl⟩
      · cases taken
        exact ⟨rfl, rfl, rfl, rfl⟩
  | reattached cState =>
    simp only [DividedSystem.joinNext] at taken
    split at taken
    · cases taken
      exact ⟨rfl, rfl, rfl, rfl⟩
    · cases taken
      exact ⟨rfl, rfl, rfl, rfl⟩
  | call =>
    simp only [DividedSystem.joinNext, Option.map_eq_some_iff] at taken
    obtain ⟨x, scheduled, same⟩ := taken
    cases same
    have apart : Apart t s w (.leave) [] := DividedSystem.schedule_apart scheduled
    exact ⟨apart.there, apart.magic, apart.flag, apart.value⟩
  | delete value => exact absurd rfl (before value)
  | _ =>
    cases taken
    exact ⟨rfl, rfl, rfl, rfl⟩

theorem Awaited.join_next (awaited : Awaited t j s) (sane : s.Sane) (orderly : s.Orderly .next)
    (self : s.kernel.currentThread = j) {p : JoinPoint} (here : s.here = ⟨d, .join t p⟩ :: fs)
    (before : ∀ value, p ≠ .delete value) (taken : s.joinNext d fs t p = some (w, es)) :
    Awaited t j w ∧ (w.settled.state t = finishedThread ↔ s.settled.state t = finishedThread) := by
  obtain ⟨there, magic, flag, _⟩ := DividedSystem.joinNext_own before taken
  have same : Untouched t s w := sane.untouched_next orderly here taken there magic flag
    (fun _ v is => by cases is) (fun is => by cases is)
  have continued := DividedSystem.joinNext_continued taken
  refine ⟨awaited.untouched same fun u q member => ?_, same.ended⟩
  by_cases mine : u = j
  · exact mine
  · have frames := continued.others (u := u) fun is => mine (is.trans self)
    rw [DividedSystem.joins, frames] at member
    exact awaited.mine u q member

structure WaitsAt (t j : T) (w : DividedSystem T) (q : JoinPoint) : Prop where
  joins : w.joins t j = [q]
  place : q.open_
  record : q = .suspend → w.kernel.joiningThread t = some j
  asleep : q.sleeping = true →
    (w.settled.state j = suspendedThread ∧ w.kernel.joiningThread t = some j) ∨
      w.settled.state j = readyThread ∨ w.settled.state j = finishedThread

theorem WaitsAt.waits {q : JoinPoint} (at_ : WaitsAt t j w q) : w.Waits t j := by
  refine ⟨fun p member => ?_, fun member => ?_, fun p member sleeping => ?_⟩
  · rw [at_.joins] at member
    rw [List.mem_singleton.mp member]
    exact at_.place
  · rw [at_.joins] at member
    exact at_.record (List.mem_singleton.mp member).symm
  · rw [at_.joins] at member
    rw [List.mem_singleton.mp member] at sleeping
    exact at_.asleep sleeping

theorem WaitsAt.awake {q : JoinPoint} (joins : w.joins t j = [q]) (place : q.open_)
    (quiet : q.sleeping = false) (other : q ≠ .suspend) : WaitsAt t j w q := by
  refine ⟨joins, place, fun is => absurd is other, fun sleeping => ?_⟩
  rw [quiet] at sleeping
  cases sleeping

omit [Fintype T] in
theorem DividedSystem.Single.joins_at (single : s.Single) {p q : JoinPoint}
    (here : s.here = ⟨d, .join t p⟩ :: fs) (self : w.kernel.currentThread = j)
    (there : w.here = ⟨d, .join t q⟩ :: fs) : w.joins t j = [q] := by
  rw [DividedSystem.joins_here self, there, joinsIn_top, single.joins_top here]

theorem WaitsAt.suspend (done : s.rest = []) (single : s.Single) (self : s.kernel.currentThread = j)
    (here : s.here = ⟨d, .join t .suspend⟩ :: fs) (record : s.kernel.joiningThread t = some j) :
    WaitsAt t j (s.operate (suspendStmts s.kernel.currentThread) d (⟨d, .join t .call⟩ :: fs)) .call := by
  have plain : suspendStmts s.kernel.currentThread ≠ [] := fun is => by cases is
  have below : restOf (⟨d, .join t .call⟩ :: fs) = [] := by
    have all := done
    rw [DividedSystem.rest, here, restOf_cons] at all
    exact all
  have states : (s.operate (suspendStmts s.kernel.currentThread) d
      (⟨d, .join t .call⟩ :: fs)).settled.state j = (suspendThread j s.kernel).state j := by
    rw [DividedSystem.operate_settled, below, List.append_nil, suspendStmts_run, self]
  refine ⟨?_, trivial, (fun is => by cases is), fun _ => ?_⟩
  · have silent : ∀ ops : List (SchedStmt T), Frame.joining t ⟨d, .ops ops⟩ = none := fun _ => rfl
    have current : (s.operate (suspendStmts s.kernel.currentThread) d
        (⟨d, .join t .call⟩ :: fs)).kernel.currentThread = j := self
    rw [DividedSystem.joins_here current, DividedSystem.operate_here, if_neg plain, joinsIn,
      List.filterMap_cons_none (silent _), ← joinsIn, joinsIn_top, single.joins_top here]
  · rw [states, suspendThread_state]
    split
    · exact Or.inl ⟨rfl, record⟩
    · rename_i stopped
      exact Or.inr (Or.inr (not_not.mp fun going => stopped ⟨rfl, going⟩))

theorem WaitsAt.call (sane : s.Sane) (done : s.rest = []) (single : s.Single)
    (self : s.kernel.currentThread = j) (here : s.here = ⟨d, .join t .call⟩ :: fs)
    (before : (s.settled.state j = suspendedThread ∧ s.kernel.joiningThread t = some j) ∨
      s.settled.state j = readyThread ∨ s.settled.state j = finishedThread)
    (taken : s.schedule (⟨d, .join t .relook⟩ :: fs) = some w) : WaitsAt t j w .relook := by
  have own : ∀ x ∈ [Frame.mk d (.join t .relook)], x.activity.isOps = false ∧
      x.activity.ends = false ∧ ∀ v, x.activity.target = some v →
        (Ongoing.join t JoinPoint.call).target = some v := by
    intro x member
    rw [List.mem_singleton.mp member]
    exact ⟨rfl, rfl, fun _ aimed => aimed⟩
  obtain ⟨alike, step, current, frames⟩ :=
    sane.scheduled [⟨d, .join t .relook⟩] here done rfl own taken
  refine ⟨single.joins_at here (current.trans self) ?_, trivial, (fun is => by cases is), fun _ => ?_⟩
  · rw [DividedSystem.here, current, frames, Function.update_self]
    rfl
  · rw [alike.states, step.joining]
    exact before

theorem DividedSystem.Waits.join_next (waits : s.Waits t j) (awaited : Awaited t j s)
    (active : s.settled.state t ≠ finishedThread) (sane : s.Sane) (single : s.Single)
    (orderly : s.Orderly .next) (self : s.kernel.currentThread = j) {p : JoinPoint}
    (here : s.here = ⟨d, .join t p⟩ :: fs) (taken : s.joinNext d fs t p = some (w, es)) :
    es = [] ∧ w.Waits t j := by
  have done := orderly.next_done here rfl
  have top : p ∈ s.joins t j := by
    rw [DividedSystem.joins_here self, here, joinsIn_top]
    exact List.mem_cons_self
  have open_ := waits.place p top
  rw [s.settled_done done] at active
  have at_ : ∀ q, (s.setHere (⟨d, .join t q⟩ :: fs)).joins t j = [q] := fun q =>
    single.joins_at here self (s.setHere_here _)
  cases p with
  | start =>
    simp only [DividedSystem.joinNext, awaited.magic, awaited.flag, ne_eq, not_true, ↓reduceIte] at taken
    cases taken
    exact ⟨rfl, (WaitsAt.awake (at_ .look) trivial rfl fun is => by cases is).waits⟩
  | look =>
    cases taken
    exact ⟨rfl, (WaitsAt.awake (at_ (.loop (s.kernel.state t))) active rfl fun is => by cases is).waits⟩
  | loop cState =>
    have other : cState ≠ finishedThread := open_
    simp only [DividedSystem.joinNext, if_pos other] at taken
    cases taken
    exact ⟨rfl, (WaitsAt.awake (at_ .register) trivial rfl fun is => by cases is).waits⟩
  | register =>
    cases taken
    refine ⟨rfl, WaitsAt.waits (q := .suspend) ⟨?_, trivial, fun _ => ?_, fun sleeping => by cases sleeping⟩⟩
    · exact single.joins_at here self (DividedSystem.setHere_here _)
    · exact (Function.update_self ..).trans (congrArg some self)
  | suspend =>
    cases taken
    exact ⟨rfl, (WaitsAt.suspend done single self here (waits.record top)).waits⟩
  | call =>
    simp only [DividedSystem.joinNext, Option.map_eq_some_iff] at taken
    obtain ⟨x, scheduled, same⟩ := taken
    cases same
    exact ⟨rfl, (WaitsAt.call sane done single self here (waits.asleep _ top rfl) scheduled).waits⟩
  | relook =>
    cases taken
    exact ⟨rfl, (WaitsAt.awake (at_ (.reattached (s.kernel.state t))) active rfl fun is => by cases is).waits⟩
  | reattached cState =>
    simp only [DividedSystem.joinNext, awaited.flag, ne_eq, not_true, ↓reduceIte] at taken
    cases taken
    exact ⟨rfl, (WaitsAt.awake (at_ (.loop cState)) open_ rfl fun is => by cases is).waits⟩
  | _ => exact open_.elim

omit [Fintype T] in
/-- Once `t` is FINISHED and has stored its value, the call does not go to sleep again. -/
theorem JoinPoint.past_next (awaited : Awaited t j s) (ended : s.kernel.state t = finishedThread)
    (single : s.Single) (self : s.kernel.currentThread = j) {p : JoinPoint}
    (here : s.here = ⟨d, .join t p⟩ :: fs) (past : p.past (s.exitValue t))
    (before : ∀ value, p ≠ .delete value) (taken : s.joinNext d fs t p = some (w, es)) :
    es = [] ∧ ∃ q, w.joins t j = [q] ∧ q.past (s.exitValue t) ∧ (q.sleeping = true → p = .call) := by
  have at_ : ∀ q, (s.setHere (⟨d, .join t q⟩ :: fs)).joins t j = [q] := fun q =>
    single.joins_at here self (s.setHere_here _)
  cases p with
  | start =>
    simp only [DividedSystem.joinNext, awaited.magic, awaited.flag, ne_eq, not_true, ↓reduceIte] at taken
    cases taken
    exact ⟨rfl, .look, at_ .look, trivial, fun sleeping => by cases sleeping⟩
  | look =>
    cases taken
    exact ⟨rfl, .loop (s.kernel.state t), at_ _, ended, fun sleeping => by cases sleeping⟩
  | loop cState =>
    have stopped : cState = finishedThread := past
    simp only [DividedSystem.joinNext, if_neg (not_not.mpr stopped)] at taken
    cases taken
    exact ⟨rfl, .value, at_ .value, trivial, fun sleeping => by cases sleeping⟩
  | call =>
    have continued := DividedSystem.joinNext_continued taken
    simp only [DividedSystem.joinNext, Option.map_eq_some_iff] at taken
    obtain ⟨x, scheduled, same⟩ := taken
    cases same
    obtain ⟨q, _, rfl⟩ := Option.map_eq_some_iff.mp scheduled
    refine ⟨rfl, .relook, single.joins_at here (continued.current.trans self) ?_, trivial, fun _ => rfl⟩
    rw [DividedSystem.here, continued.current]
    exact Function.update_self ..
  | relook =>
    cases taken
    exact ⟨rfl, .reattached (s.kernel.state t), at_ _, ended, fun sleeping => by cases sleeping⟩
  | reattached cState =>
    simp only [DividedSystem.joinNext, awaited.flag, ne_eq, not_true, ↓reduceIte] at taken
    cases taken
    exact ⟨rfl, .loop cState, at_ _, past, fun sleeping => by cases sleeping⟩
  | value =>
    cases taken
    exact ⟨rfl, .delete (s.exitValue t), at_ _, rfl, fun sleeping => by cases sleeping⟩
  | delete value => exact absurd rfl (before value)
  | _ => exact past.elim

omit [Fintype T] in
theorem DividedSystem.Single.reaped (single : s.Single) (self : s.kernel.currentThread = j) {p q : JoinPoint}
    (here : s.here = ⟨d, .join t p⟩ :: fs) {x : DividedSystem T} (reaped : s.reap t = some x) :
    (x.setHere (⟨d, .join t q⟩ :: fs)).freed t = true ∧
      (x.setHere (⟨d, .join t q⟩ :: fs)).joins t j = [q] := by
  unfold DividedSystem.reap at reaped
  split at reaped
  · cases reaped
    refine ⟨Function.update_self .., single.joins_at here self (DividedSystem.setHere_here _)⟩
  · cases reaped

omit [Fintype T] in
theorem Continued.mine {a : Ongoing T} (continued : Continued s w a fs) (self : s.kernel.currentThread = j)
    (before : ∀ u, ∀ p ∈ s.joins t u, u = j) : ∀ u, ∀ p ∈ w.joins t u, u = j := by
  intro u q member
  by_cases mine : u = j
  · exact mine
  · rw [DividedSystem.joins, continued.others fun is => mine (is.trans self)] at member
    exact before u q member

theorem DividedSystem.awake_call (awake : s.settled.state j = readyThread ∨ s.settled.state j = finishedThread)
    (sane : s.Sane) (orderly : s.Orderly .next) (here : s.here = ⟨d, .join t .call⟩ :: fs)
    (taken : s.joinNext d fs t .call = some (w, es)) :
    w.settled.state j = readyThread ∨ w.settled.state j = finishedThread := by
  obtain ⟨slept, ended, turned, sleeps, ends⟩ := sane.next_turned orderly here taken
  rcases turned.states j with same | ⟨_, ready⟩ | ⟨is, _⟩ | ⟨_, stopped⟩
  · rw [same]
    exact awake
  · exact Or.inl ready
  · obtain ⟨_, block | ⟨v, point⟩⟩ := sleeps j is
    · cases block
    · cases point
  · exact Or.inr stopped

theorem DividedLife.join_next {past : List (JoinEvent T)} (life : DividedLife t j s past) (other : j ≠ t)
    (sane : s.Sane) (single : s.Single) (orderly : s.Orderly .next) (self : s.kernel.currentThread = j)
    {p : JoinPoint} (here : s.here = ⟨d, .join t p⟩ :: fs)
    (taken : s.joinNext d fs t p = some (w, es)) :
    DividedLife t j w (past ++ es.filter (JoinEvent.about t)) := by
  have done := orderly.next_done here rfl
  have continued := DividedSystem.joinNext_continued taken
  have away : s.kernel.currentThread ≠ t := fun is => other (self.symm.trans is)
  have stays : w.kernel.currentThread ≠ t := continued.current ▸ away
  have exits : w.exits t = s.exits t := congrArg exitsIn (continued.others away.symm)
  have top : p ∈ s.joins t j := by
    rw [DividedSystem.joins_here self, here, joinsIn_top]
    exact List.mem_cons_self
  have removed : (∀ u, ∀ f ∈ s.frames u, f.activity.removes ≠ some t) →
      ∀ u, ∀ f ∈ w.frames u, f.activity.removes ≠ some t := by
    intro before u f member removes
    obtain ⟨g, there, also⟩ := continued.kept here u f member removes
    exact before u g there also
  cases life with
  | running awaited active quits waits =>
    obtain ⟨rfl, waits'⟩ := waits.join_next awaited active sane single orderly self here taken
    have open_ := waits.place p top
    obtain ⟨awaited', same⟩ := awaited.join_next sane orderly self here
      (fun value is => by rw [is] at open_; exact open_) taken
    rw [← exits] at quits
    exact .running awaited' (fun ended => active (same.mp ended)) quits waits'
  | quitting value awaited ended mine => exact absurd mine away
  | stored value awaited ended mine => exact absurd mine away
  | ended awaited ended left place woken =>
    have past := place p top
    have stopped := ended
    rw [s.settled_done done] at stopped
    by_cases deletes : ∃ value, p = .delete value
    · obtain ⟨value, rfl⟩ := deletes
      simp only [DividedSystem.joinNext, Option.map_eq_some_iff] at taken
      obtain ⟨x, reaped, same⟩ := taken
      cases same
      obtain ⟨gone, joins⟩ := single.reaped (q := .ret value) self here reaped
      have events : [JoinEvent.deleted t].filter (JoinEvent.about t) = [.deleted t] := by
        simp [JoinEvent.about]
      rw [events, ← show value = s.exitValue t from past]
      refine .reaped value gone stays (removed awaited.kept) (continued.mine self awaited.mine)
        fun q member => ?_
      rw [joins] at member
      exact List.mem_singleton.mp member
    · have before : ∀ value, p ≠ .delete value := fun value is => deletes ⟨value, is⟩
      obtain ⟨rfl, q, joins, place', calls⟩ :=
        JoinPoint.past_next awaited stopped single self here past before taken
      obtain ⟨awaited', same⟩ := awaited.join_next sane orderly self here before taken
      rw [← (DividedSystem.joinNext_own before taken).2.2.2] at place' ⊢
      refine .ended awaited' (same.mpr ended) (fun mine => absurd mine stays) (fun r member => ?_)
        fun r member sleeping => ?_
      · rw [joins] at member
        rw [List.mem_singleton.mp member]
        exact place'
      · rw [joins] at member
        rw [List.mem_singleton.mp member] at sleeping
        cases calls sleeping
        exact DividedSystem.awake_call (woken _ top rfl) sane orderly here taken
  | reaped value gone _ kept mine place =>
    cases place p top
    cases taken
    have events : [JoinEvent.joined s.kernel.currentThread t value].filter (JoinEvent.about t) =
        [.joined j t value] := by
      simp [JoinEvent.about, self]
    rw [events]
    refine .joined value gone stays (removed kept) fun u => ?_
    by_cases own : u = j
    · have current : (s.setHere fs).kernel.currentThread = j := self
      rw [own, DividedSystem.joins_here current, DividedSystem.setHere_here, single.joins_top here]
    · rw [DividedSystem.joins, continued.others fun is => own (is.trans self)]
      apply List.eq_nil_iff_forall_not_mem.mpr
      intro q member
      exact own (mine u q member)
  | joined value gone _ kept left =>
    rw [left j] at top
    cases top

omit [DecidableEq T] [Fintype T] in
theorem DividedSystem.exits_top {value : Word} {p : ExitPoint} (self : s.kernel.currentThread = t)
    (here : s.here = ⟨d, .exit value p⟩ :: fs) : s.exits t = (value, p) :: exitsIn fs := by
  have frames : s.frames t = ⟨d, .exit value p⟩ :: fs := by
    rw [← self]
    exact here
  rw [DividedSystem.exits, frames]
  rfl

omit [Fintype T] in
theorem DividedSystem.exitNext_own {value : Word} {p : ExitPoint}
    (taken : s.exitNext d fs value p = some (w, es)) : w.freed t = s.freed t ∧
      w.kernel.magicNumber t = s.kernel.magicNumber t ∧
      getThreadDetachState (w.kernel.threadFlags t) = getThreadDetachState (s.kernel.threadFlags t) ∧
      w.kernel.joiningThread t = s.kernel.joiningThread t := by
  cases p with
  | timer =>
    simp only [DividedSystem.exitNext] at taken
    split at taken
    · rename_i k freed
      cases taken
      have only := (freeKtimer_book freed).1
      have magic := congrArg Kernel.magicNumber only
      have flags := congrArg Kernel.threadFlags only
      have joining := congrArg Kernel.joiningThread only
      exact ⟨rfl, congrFun magic t, congrArg getThreadDetachState (congrFun flags t), congrFun joining t⟩
    · cases taken
  | wake =>
    simp only [DividedSystem.exitNext] at taken
    split at taken
    · split at taken
      · cases taken
        exact ⟨rfl, rfl, rfl, rfl⟩
      · cases taken
        exact ⟨rfl, rfl, rfl, rfl⟩
    · cases taken
      exact ⟨rfl, rfl, rfl, rfl⟩
  | _ =>
    cases taken
    exact ⟨rfl, rfl, rfl, rfl⟩

theorem DividedSystem.Waits.kept (waits : s.Waits t j) (joins : w.joins t j = s.joins t j)
    (record : w.kernel.joiningThread t = s.kernel.joiningThread t)
    (state : w.settled.state j = s.settled.state j ∨ w.settled.state j = readyThread ∨
      w.settled.state j = finishedThread) : w.Waits t j := by
  refine ⟨fun p member => ?_, fun member => ?_, fun p member sleeping => ?_⟩
  · rw [joins] at member
    exact waits.place p member
  · rw [joins] at member
    rw [record]
    exact waits.record member
  · rw [joins] at member
    rw [record]
    rcases state with same | awake
    · rw [same]
      exact waits.asleep p member sleeping
    · exact Or.inr awake

theorem DividedSystem.Waits.past (waits : s.Waits t j) (still : ¬s.Deciding t j) (value : Word) :
    ∀ p ∈ s.joins t j, p.past value := by
  intro p member
  have open_ := waits.place p member
  have quiet : p.deciding ≠ true := fun is => still ⟨p, member, is⟩
  cases p with
  | loop cState =>
    by_contra active
    exact quiet (bne_iff_ne.mpr active)
  | reattached cState =>
    by_contra active
    exact quiet (bne_iff_ne.mpr active)
  | register => exact absurd rfl quiet
  | suspend => exact absurd rfl quiet
  | value => exact open_.elim
  | delete value => exact open_.elim
  | ret value => exact open_.elim
  | _ => trivial

theorem DividedSystem.Waits.woken (waits : s.Waits t j) (awaited : Awaited t j s) (done : s.rest = [])
    (self : s.kernel.currentThread = t) {value : Word} (here : s.here = ⟨d, .exit value .wake⟩ :: fs)
    (taken : s.exitNext d fs value .wake = some (w, es)) {p : JoinPoint} (member : p ∈ s.joins t j)
    (sleeping : p.sleeping = true) :
    w.settled.state j = readyThread ∨ w.settled.state j = finishedThread := by
  have below : restOf (⟨d, .leave⟩ :: fs) = [] := by
    have all := done
    rw [DividedSystem.rest, here, restOf_cons] at all
    exact all
  have before := waits.asleep p member sleeping
  have settled := s.settled_done done
  rw [settled] at before
  have leaves : (s.setHere (⟨d, .leave⟩ :: fs)).settled = s.kernel := by
    rw [DividedSystem.settled, DividedSystem.rest, DividedSystem.setHere_here, below]
    rfl
  simp only [DividedSystem.exitNext] at taken
  split at taken
  · rename_i joiner joins
    rw [self] at joins taken
    rw [if_pos awaited.flag] at taken
    cases taken
    have states : (s.operate (activateStmts joiner s.kernel) d (⟨d, .leave⟩ :: fs)).settled.state j =
        (activateThread joiner s.kernel).state j := by
      rw [DividedSystem.operate_settled, below, List.append_nil, activateStmts_run]
    rw [states, activateThread_state]
    split
    · exact Or.inl rfl
    · rename_i idle
      rcases before with ⟨asleep, recorded⟩ | awake
      · rw [joins] at recorded
        cases recorded
        refine absurd ⟨rfl, ?_⟩ idle
        rw [asleep]
        decide
      · exact awake
  · rename_i nobody
    rw [self] at nobody
    cases taken
    rw [leaves]
    exact before.resolve_left fun both => by cases nobody.symm.trans both.2

theorem DividedSystem.finish_ended (done : s.rest = []) (self : s.kernel.currentThread = t) {value : Word}
    (here : s.here = ⟨d, .exit value .finish⟩ :: fs) :
    (s.operate (finishStmts s.kernel.currentThread) d (⟨d, .exit value .value⟩ :: fs)).settled.state t =
      finishedThread := by
  have below : restOf (⟨d, .exit value .value⟩ :: fs) = [] := by
    have all := done
    rw [DividedSystem.rest, here, restOf_cons] at all
    exact all
  rw [DividedSystem.operate_settled, below, List.append_nil, finishStmts_run, finishThread_state, self,
    if_pos rfl]

omit [Fintype T] in
theorem DividedSystem.wake_leaves {value : Word}
    (taken : s.exitNext d fs value .wake = some (w, es)) : w.exitValue t = s.exitValue t ∧ es = [] ∧
      ∃ xs, w.here = xs ++ fs ∧ exitsIn xs = [] := by
  simp only [DividedSystem.exitNext] at taken
  split at taken
  · split at taken
    · cases taken
      refine ⟨rfl, rfl, ?_⟩
      rw [DividedSystem.operate_here]
      split
      · exact ⟨[⟨d, .leave⟩], rfl, rfl⟩
      · exact ⟨[⟨d, .ops _⟩, ⟨d, .leave⟩], rfl, rfl⟩
    · cases taken
      exact ⟨rfl, rfl, [⟨d, .leave⟩], DividedSystem.setHere_here _, rfl⟩
  · cases taken
    exact ⟨rfl, rfl, [⟨d, .leave⟩], DividedSystem.setHere_here _, rfl⟩

theorem DividedSystem.Sane.exit_state (sane : s.Sane) (orderly : s.Orderly .next)
    (self : s.kernel.currentThread = t) (other : j ≠ t) {value : Word} {p : ExitPoint}
    (here : s.here = ⟨d, .exit value p⟩ :: fs) (taken : s.exitNext d fs value p = some (w, es)) :
    w.settled.state j = s.settled.state j ∨ w.settled.state j = readyThread ∨
      w.settled.state j = finishedThread := by
  obtain ⟨slept, ended_, turned, sleeps, _⟩ := sane.next_turned orderly here taken
  rcases turned.states j with same | ⟨_, ready⟩ | ⟨is, _⟩ | ⟨_, stopped⟩
  · exact Or.inl same
  · exact Or.inr (Or.inl ready)
  · exact absurd ((sleeps j is).1.trans self) other
  · exact Or.inr (Or.inr stopped)

theorem Awaited.exit_next (awaited : Awaited t j s) (sane : s.Sane) (orderly : s.Orderly .next) {value : Word}
    {p : ExitPoint} (here : s.here = ⟨d, .exit value p⟩ :: fs) (taken : s.exitNext d fs value p = some (w, es))
    (mine : ∀ u, ∀ q ∈ w.joins t u, u = j) : Awaited t j w := by
  have continued := DividedSystem.exitNext_continued taken
  obtain ⟨there, magic, flag, _⟩ := DividedSystem.exitNext_own (t := t) taken
  obtain ⟨_, _, turned, _, _⟩ := sane.next_turned orderly here taken
  have live : w.kernel.live = s.kernel.live := by
    rw [← w.settled_live, ← s.settled_live]
    exact turned.live
  refine ⟨(congrFun live t).trans awaited.alive, there.trans awaited.there, magic.trans awaited.magic,
    flag.trans awaited.flag, mine, fun u f member removes => ?_⟩
  obtain ⟨g, before, also⟩ := continued.kept here u f member removes
  exact awaited.kept u g before also

theorem DividedLife.exit_next {past : List (JoinEvent T)} (life : DividedLife t j s past) (other : j ≠ t)
    (sane : s.Sane) (orderly : s.Orderly .next) (safe : s.NoMiss t j) (self : s.kernel.currentThread = t)
    {value : Word} {p : ExitPoint} (here : s.here = ⟨d, .exit value p⟩ :: fs)
    (taken : s.exitNext d fs value p = some (w, es)) :
    DividedLife t j w (past ++ es.filter (JoinEvent.about t)) := by
  have done := orderly.next_done here rfl
  have continued := DividedSystem.exitNext_continued taken
  obtain ⟨there, magic, flag, record⟩ := DividedSystem.exitNext_own (t := t) taken
  have top := DividedSystem.exits_top self here
  have joins := continued.joins (t := t) here fun q is => by cases is
  have now : w.kernel.currentThread = t := continued.current.trans self
  have mine : (∀ u, ∀ q ∈ s.joins t u, u = j) → ∀ u, ∀ q ∈ w.joins t u, u = j := by
    intro before u q member
    rw [joins u] at member
    exact before u q member
  have exits_at : ∀ gs, w.here = gs → w.exits t = exitsIn gs := by
    rintro gs rfl
    rw [DividedSystem.here, now]
    rfl
  have state := sane.exit_state orderly self other here taken
  cases life with
  | running awaited active quits waits =>
    rw [top] at quits
    obtain ⟨v, q, same, points⟩ := quits.resolve_left (List.cons_ne_nil _ _)
    obtain ⟨is, below⟩ := List.cons.inj same
    cases is
    have waits' := waits.kept (joins j) record state
    rcases points with rfl | rfl
    · have untouched := sane.untouched_next orderly here taken there magic flag
        (fun _ v is => by cases is) (fun is => by cases is)
      simp only [DividedSystem.exitNext] at taken
      split at taken
      · rename_i k freed
        cases taken
        refine .running (awaited.untouched untouched (mine awaited.mine))
          (fun stopped => active (untouched.ended.mp stopped)) (Or.inr ⟨value, .finish, ?_, Or.inr rfl⟩) waits'
        rw [exits_at _ (DividedSystem.setHere_here _), exitsIn, List.filterMap_cons, ← exitsIn, below]
        rfl
      · cases taken
    · have awaited' := awaited.exit_next sane orderly here taken (mine awaited.mine)
      cases taken
      refine .quitting value awaited' (DividedSystem.finish_ended done self here) self ?_ waits'
      have plain : finishStmts s.kernel.currentThread ≠ [] := fun is => by cases is
      rw [exits_at _ (DividedSystem.operate_here ..), if_neg plain, exitsIn, List.filterMap_cons,
        List.filterMap_cons, ← exitsIn, below]
      rfl
  | quitting v awaited stopped _ quits waits =>
    rw [top] at quits
    obtain ⟨is, below⟩ := List.cons.inj quits
    cases is
    have untouched := sane.untouched_next orderly here taken there magic flag
      (fun _ v is => by cases is) (fun is => by cases is)
    simp only [DividedSystem.exitNext, Option.some.injEq, Prod.mk.injEq] at taken
    obtain ⟨same, rfl⟩ := taken
    have events : [JoinEvent.exited s.kernel.currentThread value].filter (JoinEvent.about t) =
        [.exited t value] := by
      simp [JoinEvent.about, self]
    have stored : w.exitValue t = value := by
      rw [← same]
      show Function.update s.exitValue s.kernel.currentThread value t = value
      rw [self, Function.update_self]
    have later : w.here = ⟨d, .exit value .wake⟩ :: fs := by
      rw [← same]
      exact s.setHere_here (⟨d, .exit value .wake⟩ :: fs)
    have exits : w.exits t = [(value, .wake)] := by
      rw [exits_at _ later, exitsIn, List.filterMap_cons, ← exitsIn, below]
      rfl
    have life : DividedLife t j w [.exited t (w.exitValue t)] :=
      .stored value (awaited.untouched untouched (mine awaited.mine)) (untouched.ended.mpr stopped) now exits
        (waits.kept (joins j) record state)
    rw [stored] at life
    rw [events]
    exact life
  | stored v awaited stopped _ quits waits =>
    rw [top] at quits
    obtain ⟨is, below⟩ := List.cons.inj quits
    cases is
    have untouched := sane.untouched_next orderly here taken there magic flag
      (fun _ v is => by cases is) (fun is => by cases is)
    have still := safe.looks self (DividedSystem.before_top here rfl)
    obtain ⟨value_, events, left⟩ := DividedSystem.wake_leaves (t := t) taken
    rw [events, List.filter_nil, List.append_nil, ← value_]
    refine .ended (awaited.untouched untouched (mine awaited.mine)) (untouched.ended.mpr stopped) (fun _ => ?_)
      (fun q member => ?_) fun q member sleeping => ?_
    · obtain ⟨xs, there, own⟩ := left
      rw [exits_at _ there, exitsIn, List.filterMap_append, ← exitsIn, ← exitsIn, below, own]
      rfl
    · rw [joins j] at member
      exact waits.past still _ q member
    · rw [joins j] at member
      exact waits.woken awaited done self here taken member sleeping
  | ended awaited stopped left =>
    have none_ := left self
    rw [top] at none_
    cases none_
  | reaped value gone away => exact absurd self away
  | joined value gone away => exact absurd self away

end

end L4ertl
