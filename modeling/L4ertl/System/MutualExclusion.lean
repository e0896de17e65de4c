import L4ertl.Core.MutexEffect
import L4ertl.System.Quiet

/-!
Mutual exclusion. A thread may be stopped in the middle of an acquisition, after
it has become the owner and before its call returns, so the invariant speaks
about the threads inside the kernel and not only about the mutex.
-/
namespace L4ertl
open Intrusive
variable {T : Type} [DecidableEq T] [Fintype T]

section
omit [DecidableEq T] [Fintype T]

def Acquires (m : Nat) : Work T → Prop
  | .call (.mutexLock n) | .call (.mutexTrylock n) | .call (.condWait _ n) => n = m
  | _ => False

def Releases (m : Nat) : Work T → Prop
  | .call (.mutexUnlock n) | .call (.condWait _ n) => n = m
  | _ => False

end

/-- What happens to the owner of a mutex while thread `t` moves: nothing, or `t`
    takes the free mutex, or `t` gives up its own one, which `release` allows. -/
structure OwnerMove (t : T) (release : Prop) (x y : Mutex T) : Prop where
  type : y.attr.type = x.attr.type
  owner : y.owner = x.owner ∨ (x.owner = none ∧ y.owner = some t) ∨
    (release ∧ x.owner = some t ∧ y.owner = none)

omit [DecidableEq T] [Fintype T] in
theorem OwnerMove.same {t : T} {release : Prop} {x y : Mutex T} (eq : y = x) :
    OwnerMove t release x y := by
  subst eq
  exact ⟨rfl, Or.inl rfl⟩

omit [DecidableEq T] [Fintype T] in
theorem OwnerAfterLock.move {t : T} {x y : Mutex T} (after : OwnerAfterLock t x y) (release : Prop) :
    OwnerMove t release x y := by
  refine ⟨after.2.2, ?_⟩
  by_cases free : x.owner = none
  · exact Or.inr (Or.inl ⟨free, after.1 free⟩)
  · exact Or.inl (after.2.1 free)

omit [Fintype T] in
theorem mutexLockLoop_move (m n : Nat) (k : Kernel T) (release : Prop) :
    OwnerMove k.currentThread release (k.mutex m) ((mutexLockLoop n k).1.mutex m) := by
  by_cases same : m = n
  · subst same
    exact (mutexLockLoop_owner m k).move release
  · exact .same (mutexLockLoop_other n m k same)

theorem mutexUnlock_move (m n : Nat) (k : Kernel T) :
    OwnerMove k.currentThread (n = m) (k.mutex m) ((mutexUnlock n k).1.mutex m) := by
  by_cases same : m = n
  · subst same
    obtain ⟨owner, type⟩ := mutexUnlock_owner m k
    refine ⟨type, ?_⟩
    rcases owner with kept | ⟨mine, free⟩
    · exact Or.inl kept
    · exact Or.inr (Or.inr ⟨rfl, mine, free⟩)
  · exact .same (mutexUnlock_other n m k same)

theorem Work.run_owner {w : Work T} {env : Env} {k x : Kernel T} {pr : Progress} (m : Nat)
    (ok : w.run env k = .ok (x, pr)) :
    OwnerMove k.currentThread (Releases m w) (k.mutex m) (x.mutex m) := by
  cases quiet : w.quiet with
  | true => exact .same (congrFun (Work.run_quiet quiet ok).objects.1 m)
  | false =>
    cases w with
    | irq => cases quiet
    | call c =>
      cases c with
      | mutexLock n =>
        have same : x = (mutexLockLoop n k).1 := by
          rw [← pthreadMutexLockSys_kernel, Except.ok.inj ok]
        rw [same]
        exact mutexLockLoop_move m n k _
      | mutexTrylock n =>
        have same : x = (pthreadMutexTrylockSys n k).1 := by rw [Except.ok.inj ok]
        rw [same]
        by_cases here : m = n
        · subst here
          exact (pthreadMutexTrylockSys_owner m k).move _
        · exact .same (pthreadMutexTrylockSys_other n m k here)
      | mutexUnlock n =>
        have same : x = (mutexUnlock n k).1 := by
          rw [← pthreadMutexUnlockSys_kernel, Except.ok.inj ok]
        rw [same]
        exact mutexUnlock_move m n k
      | condSignal c =>
        have same : x = (pthreadCondSignalSys c k).1 := by rw [Except.ok.inj ok]
        rw [same]
        exact .same (congrFun (condSignal_only c k).others.1 m)
      | condBroadcast c =>
        have same : x = (pthreadCondBroadcastSys c k).1 := by rw [Except.ok.inj ok]
        rw [same]
        exact .same (congrFun (drain_condOnly c k).others.1 m)
      | condWait c n =>
        have same : x = (pthreadCondWaitSys c n k).1 := by rw [Except.ok.inj ok]
        rw [same]
        rcases pthreadCondWaitSys_cases c n k with ⟨_, eq⟩ | ⟨_, v, _, eq⟩ | ⟨_, _, eq⟩
        · rw [eq]
          exact .same rfl
        · rw [eq, congrFun (blockOn_condOnly c _).others.1 m]
          exact mutexUnlock_move m n k
        · rw [eq]
          exact mutexUnlock_move m n k
      | semWait s =>
        have same : x = (semWaitSys s k).1 := by rw [Except.ok.inj ok]
        rw [same]
        exact .same (congrFun (semWaitSys_only s k).others.1 m)
      | semTrywait s =>
        have same : x = (semTrywaitSys s k).1 := by rw [Except.ok.inj ok]
        rw [same]
        exact .same (congrFun (semTrywaitSys_only s k).others.1 m)
      | semPost s =>
        have same : x = (semPostSys s k).1 := by rw [Except.ok.inj ok]
        rw [same]
        exact .same (congrFun (semPostSys_only s k).others.1 m)
      | create addr stack attr =>
        have same : x = (pthreadCreateSys addr stack attr k).1 := by rw [Except.ok.inj ok]
        rw [same]
        exact .same (congrFun (pthreadCreateSys_objects addr stack attr k).1 m)
      | _ => cases quiet

theorem Work.run_acquired {w : Work T} {env : Env} {k x : Kernel T} {pr : Progress} {m : Nat}
    (plain : (k.mutex m).attr.type ≠ .recursive) (acquires : Acquires m w)
    (ok : w.run env k = .ok (x, pr)) (ends : pr = .ret 0 ∨ pr = .sched .done) :
    (x.mutex m).owner = some k.currentThread := by
  cases w with
  | irq => cases acquires
  | call c =>
    cases c with
    | mutexLock n =>
      have here : n = m := acquires
      subst here
      have same : pthreadMutexLockSys n k = (x, pr) := Except.ok.inj ok
      have taken : (mutexLockLoop n k).2 = .ret 0 ∨ (mutexLockLoop n k).2 = .raised := by
        unfold pthreadMutexLockSys at same
        split at same <;> rename_i here <;> rw [here] <;> cases same <;>
          rcases ends with eq | eq <;> cases eq
        · exact Or.inl rfl
        · exact Or.inr rfl
      have kernel : x = (mutexLockLoop n k).1 := by rw [← pthreadMutexLockSys_kernel, same]
      rw [kernel]
      exact (mutexLockLoop_owner n k).1 (mutexLockLoop_taken n k plain taken)
    | mutexTrylock n =>
      have here : n = m := acquires
      subst here
      have same : pthreadMutexTrylockSys n k = (x, pr) := Except.ok.inj ok
      have free := pthreadMutexTrylockSys_taken n k plain (by rw [same]; exact ends)
      have owner := (pthreadMutexTrylockSys_owner n k).1 free
      rw [same] at owner
      exact owner
    | condWait c n =>
      -- a wait always gives up the mutex first, so it never ends in its first part
      have same : pthreadCondWaitSys c n k = (x, pr) := Except.ok.inj ok
      unfold pthreadCondWaitSys condBlock at same
      split at same
      · cases same; rcases ends with eq | eq <;> cases eq
      · split at same <;> cases same <;> rcases ends with eq | eq <;> cases eq
    | _ => cases acquires

omit [Fintype T] in
theorem Point.run_owner {p : Point} {env : Env} {k x : Kernel T} {outcome : Outcome} (m : Nat)
    (ok : p.run env k = .ok (x, outcome)) :
    OwnerMove k.currentThread False (k.mutex m) (x.mutex m) := by
  cases quiet : p.quiet with
  | true => exact .same (congrFun (Point.run_quiet quiet ok).1.objects.1 m)
  | false =>
    cases p with
    | lockLoop n =>
      cases ok
      rw [pthreadMutexLockSys_kernel]
      exact mutexLockLoop_move m n k _
    | condUnlocked c n =>
      cases ok
      exact .same (congrFun (blockOn_condOnly c k).others.1 m)
    | condWoken n =>
      cases ok
      rw [condRelock_kernel]
      exact mutexLockLoop_move m n k _
    | condLock n =>
      cases ok
      rw [condRelock_kernel]
      exact mutexLockLoop_move m n k _
    | semWait s =>
      cases ok
      exact .same rfl
    | semPost s =>
      cases ok
      exact .same (congrFun (semGive_only s k).others.1 m)
    | _ => cases quiet

omit [Fintype T] in
/-- The nested lock of a condition wait ignores the lock's error, which is only
    given to the owner. -/
theorem condRelock_acquired {m : Nat} {k : Kernel T}
    (ends : (condRelock m k).2 = .ret 0 ∨ (condRelock m k).2 = .sched .done) :
    ((condRelock m k).1.mutex m).owner = some k.currentThread := by
  have after := mutexLockLoop_owner m k
  rw [condRelock_kernel]
  by_cases free : (k.mutex m).owner = none
  · exact after.1 free
  · rw [after.2.1 free]
    -- not free, and not blocked either: the errorcheck branch, which tests for the caller
    by_contra other
    have blocked : (mutexLockLoop m k).2 = .blocked := by
      simp only [mutexLockLoop, free, other, false_and, if_false]
    have waits : (condRelock m k).2 = .sched (.condLock m) := by
      unfold condRelock
      split <;> rename_i here <;> rw [here] at blocked <;> cases blocked
    rw [waits] at ends
    rcases ends with eq | eq <;> cases eq

theorem progress_ends {pr : Progress}
    (ends : pr.outcome = .ret 0 ∨ pr.outcome.onward = some .done) :
    pr = .ret 0 ∨ pr = .sched .done := by
  cases pr <;> simpa [Progress.outcome, Outcome.onward] using ends

omit [Fintype T] in
theorem Point.run_acquired {p : Point} {w : Work T} {env : Env} {k x : Kernel T} {outcome : Outcome}
    {m : Nat} (plain : (k.mutex m).attr.type ≠ .recursive) (acquires : Acquires m w)
    (fits : p.fits w) (ended : p = .done → (k.mutex m).owner = some k.currentThread)
    (ok : p.run env k = .ok (x, outcome)) (ends : outcome = .ret 0 ∨ outcome.onward = some .done) :
    (x.mutex m).owner = some k.currentThread := by
  cases p with
  | done =>
    cases ok
    exact ended rfl
  | lockLoop n =>
    cases fits
    have here : n = m := acquires
    subst here
    cases ok
    have taken : (mutexLockLoop n k).2 = .ret 0 ∨ (mutexLockLoop n k).2 = .raised := by
      have := progress_ends ends
      unfold pthreadMutexLockSys at this
      split at this <;> rename_i here <;> rw [here] <;> rcases this with eq | eq <;> cases eq
      · exact Or.inl rfl
      · exact Or.inr rfl
    rw [pthreadMutexLockSys_kernel]
    exact (mutexLockLoop_owner n k).1 (mutexLockLoop_taken n k plain taken)
  | condUnlocked c n =>
    cases ok
    rcases ends with eq | eq <;> cases eq
  | condWoken n =>
    obtain ⟨c, rfl⟩ := fits
    have here : n = m := acquires
    subst here
    cases ok
    exact condRelock_acquired (progress_ends ends)
  | condLock n =>
    obtain ⟨c, rfl⟩ := fits
    have here : n = m := acquires
    subst here
    cases ok
    exact condRelock_acquired (progress_ends ends)
  | semWait s =>
    cases fits
    cases acquires
  | semPost s =>
    cases fits
    cases acquires
  | slept d =>
    obtain ⟨usec, rfl⟩ := fits
    cases acquires
  | leave rounds =>
    obtain ⟨_, returns, onward⟩ := Point.run_quiet rfl ok
    rcases ends with eq | eq
    · rcases returns 0 eq with ⟨eq, _⟩ | ⟨d, eq⟩ <;> cases eq
    · cases onward .done eq
  | signals mask signal pend rounds =>
    obtain ⟨_, returns, onward⟩ := Point.run_quiet rfl ok
    rcases ends with eq | eq
    · rcases returns 0 eq with ⟨eq, _⟩ | ⟨d, eq⟩ <;> cases eq
    · cases onward .done eq

/-- Between steps: every thread inside the kernel is at a point of its own call,
    and one that has only to return from an acquisition owns the mutex. -/
structure OwnerInv (m : Nat) (s : System T) : Prop where
  plain : (s.kernel.mutex m).attr.type ≠ .recursive
  fits : ∀ t w p, s.cont t = some (w, p) → p.fits w
  ended : ∀ t w, s.cont t = some (w, .done) → Acquires m w → (s.kernel.mutex m).owner = some t

structure OwnerStep (m : Nat) (t : T) (x : System T) (es : List (Event T)) (before : Mutex T) :
    Prop where
  move : OwnerMove t (∃ w, Releases m w ∧ Event.start t w ∈ es) before (x.kernel.mutex m)
  returned : ∀ u w v, Event.ret u w v ∈ es → v = 0 → Acquires m w →
    (x.kernel.mutex m).owner = some u

omit [Fintype T] in
theorem settle_mutex (s : System T) (w : Work T) (env : Env) (k : Kernel T) (outcome : Outcome) :
    (s.settle w env k outcome).1.kernel.mutex = k.mutex := by
  cases outcome with
  | ret v => rfl
  | next p => rfl
  | sched p => exact (scheduling_only env.sched k).quiet.objects.1

omit [Fintype T] in
theorem OwnerInv.settle {m : Nat} {s : System T} (inv : OwnerInv m s) {w : Work T} {env : Env}
    {k : Kernel T} {outcome : Outcome} {release : Prop}
    (move : OwnerMove s.kernel.currentThread release (s.kernel.mutex m) (k.mutex m))
    (fits : ∀ q, outcome.onward = some q → q.fits w)
    (acquired : Acquires m w → outcome = .ret 0 ∨ outcome.onward = some .done →
      (k.mutex m).owner = some s.kernel.currentThread) : OwnerInv m (s.settle w env k outcome).1 where
  plain := by
    rw [settle_mutex, move.type]
    exact inv.plain
  fits t v p here := by
    rcases settle_cont here with ⟨_, before⟩ | ⟨_, rfl, onward | ⟨r, _, rfl⟩⟩
    · exact inv.fits t v p before
    · exact fits p onward
    · trivial
  ended t v here acquires := by
    rw [settle_mutex]
    rcases settle_cont here with ⟨other, before⟩ | ⟨rfl, rfl, onward | ⟨r, _, eq⟩⟩
    · -- another thread waits to return: it owns the mutex, so the mover could not touch it
      have owner := inv.ended t v before acquires
      rcases move.owner with kept | ⟨free, _⟩ | ⟨_, mine, _⟩
      · rw [kept, owner]
      · rw [owner] at free; cases free
      · rw [owner] at mine; exact absurd (Option.some.inj mine) other
    · exact acquired acquires (Or.inr onward)
    · cases eq

theorem System.step_owner {m : Nat} {s x : System T} {l : Label T} {es : List (Event T)}
    (inv : OwnerInv m s) (taken : s.step l = some (x, es)) :
    OwnerInv m x ∧ OwnerStep m s.kernel.currentThread x es (s.kernel.mutex m) := by
  rcases step_cases taken with ⟨w, env, k, pr, rfl, user, _, ran, rfl, rfl⟩ |
    ⟨w, p, env, k, outcome, rfl, here, ran, rfl, rfl⟩
  · have move := Work.run_owner m ran
    have acquired : Acquires m w → pr.outcome = .ret 0 ∨ pr.outcome.onward = some .done →
        (k.mutex m).owner = some s.kernel.currentThread := by
      intro acquires ends
      exact Work.run_acquired inv.plain acquires ran (progress_ends ends)
    have fits : ∀ q, pr.outcome.onward = some q → q.fits w := by
      intro q onward
      cases pr with
      | ret v => cases onward
      | sched r => cases onward; exact Work.run_fits ran
    refine ⟨inv.settle move fits acquired, ?_, ?_⟩
    · rw [settle_mutex]
      refine ⟨move.type, ?_⟩
      rcases move.owner with kept | taken | ⟨releases, mine, free⟩
      · exact Or.inl kept
      · exact Or.inr (Or.inl taken)
      · exact Or.inr (Or.inr ⟨⟨w, releases, by simp⟩, mine, free⟩)
    · intro u v r member zero acquires
      rw [settle_mutex]
      rcases List.mem_cons.mp member with eq | later
      · cases eq
      · obtain ⟨r', ends, eq⟩ := settle_events later
        cases eq
        exact acquired acquires (Or.inl (by rw [ends, zero]))
  · have move := Point.run_owner m ran
    have fits := inv.fits _ w p here
    have acquired : Acquires m w → outcome = .ret 0 ∨ outcome.onward = some .done →
        (k.mutex m).owner = some s.kernel.currentThread := by
      intro acquires ends
      apply Point.run_acquired inv.plain acquires fits _ ran ends
      intro done
      subst done
      exact inv.ended _ w here acquires
    refine ⟨inv.settle move (fun q onward => Point.run_fits fits ran onward) acquired, ?_, ?_⟩
    · rw [settle_mutex]
      refine ⟨move.type, ?_⟩
      rcases move.owner with kept | taken | ⟨none_, _⟩
      · exact Or.inl kept
      · exact Or.inr (Or.inl taken)
      · exact none_.elim
    · intro u v r member zero acquires
      rw [settle_mutex]
      obtain ⟨r', ends, eq⟩ := settle_events member
      cases eq
      exact acquired acquires (Or.inl (by rw [ends, zero]))

/-- While `t` has not started to give up the mutex it stays the owner, and no
    other thread's acquisition comes to a good end. -/
def HeldBy (m : Nat) (t : T) (s : System T) (es : List (Event T)) : Prop :=
  OwnerInv m s ∧ ((∀ w, Releases m w → Event.start t w ∉ es) →
    (s.kernel.mutex m).owner = some t ∧
      ∀ u w, Event.ret u w 0 ∈ es → Acquires m w → u = t)

theorem heldBy_step {m : Nat} {t : T} {s x : System T} {past es : List (Event T)} {l : Label T}
    (held : HeldBy m t s past) (taken : s.step l = some (x, es)) : HeldBy m t x (past ++ es) := by
  obtain ⟨inv, holds⟩ := held
  obtain ⟨next, step⟩ := System.step_owner inv taken
  refine ⟨next, fun keeps => ?_⟩
  obtain ⟨owner, alone⟩ := holds (fun w releases member => keeps w releases (by simp [member]))
  have owner' : (x.kernel.mutex m).owner = some t := by
    rcases step.move.owner with kept | ⟨free, _⟩ | ⟨⟨w, releases, started⟩, mine, _⟩
    · rw [kept, owner]
    · rw [owner] at free; cases free
    · rw [owner] at mine
      have same : t = s.kernel.currentThread := Option.some.inj mine
      exact absurd (by simp [same, started]) (keeps w releases)
  refine ⟨owner', ?_⟩
  intro u w member acquires
  rcases List.mem_append.mp member with before | now
  · exact alone u w before acquires
  · have mine := step.returned u w 0 now rfl acquires
    rw [owner'] at mine
    exact (Option.some.inj mine).symm

omit [DecidableEq T] [Fintype T] in
theorem ownerInv_start {m : Nat} {s : System T} (user : ∀ t, s.cont t = none)
    (plain : (s.kernel.mutex m).attr.type ≠ .recursive) : OwnerInv m s where
  plain := plain
  fits t w p here := by rw [user t] at here; cases here
  ended t w here := by rw [user t] at here; cases here

/-- From the return of an acquisition by `t` until `t` starts to give the mutex
    up: `t` is the owner, no other acquisition of the mutex returns 0, and an
    unlock by another thread does not change the mutex. -/
theorem mutual_exclusion (m : Nat) (s a b c : System T) (user : ∀ t, s.cont t = none)
    (plain : (s.kernel.mutex m).attr.type ≠ .recursive)
    (before during : List (Label T)) (l : Label T) (past now later : List (Event T))
    (reached : s.exec before = some (a, past)) (taken : a.step l = some (b, now))
    (t : T) (w : Work T) (acquires : Acquires m w) (returned : Event.ret t w 0 ∈ now)
    (goes : b.exec during = some (c, later))
    (keeps : ∀ v, Releases m v → Event.start t v ∉ later) :
    (c.kernel.mutex m).owner = some t ∧
    (∀ u v, Event.ret u v 0 ∈ later → Acquires m v → u = t) ∧
    ∀ env d es, c.kernel.currentThread ≠ t →
      c.step (.enter (.call (.mutexUnlock m)) env) = some (d, es) →
      d.kernel.mutex m = c.kernel.mutex m := by
  have reachedInv : OwnerInv m a := Lts.exec_always (fun x => OwnerInv m x)
    (fun x l y first inv step => (System.step_owner inv step).1) before (ownerInv_start user plain) reached
  obtain ⟨inv, step⟩ := System.step_owner reachedInv taken
  have start : HeldBy m t b [] := by
    refine ⟨inv, fun _ => ⟨step.returned t w 0 returned rfl acquires, ?_⟩⟩
    intro u v member
    cases member
  have final : HeldBy m t c later := Lts.exec_invariant (HeldBy m t)
    (fun x es l y first held _ step => heldBy_step held step)
    during start (Lts.along_trivial during b) goes
  obtain ⟨owner, alone⟩ := final.2 keeps
  refine ⟨owner, alone, ?_⟩
  intro env d es other unlock
  rcases step_cases unlock with ⟨v, e, k, pr, eq, _, _, ran, rfl, _⟩ | ⟨v, p, e, k, o, eq, _⟩
  · cases eq
    have same : k = (mutexUnlock m c.kernel).1 := by
      rw [← pthreadMutexUnlockSys_kernel, Except.ok.inj ran]
    rw [settle_mutex, same]
    rw [mutexUnlock_foreign m c.kernel]
    rw [owner]
    intro mine
    exact other (Option.some.inj mine).symm
  · cases eq

theorem mutual_exclusion_run :
    let s : System (Fin 2) := startSystem 0 [(0, 1023), (1, 5)]
    ∃ b c later, s.step (.enter (.call (.mutexLock 3)) stillEnv) =
        some (b, [.start 1 (.call (.mutexLock 3)), .ret 1 (.call (.mutexLock 3)) 0]) ∧
      b.exec [.resume stillEnv, .enter (.call .yield) stillEnv] = some (c, later) ∧
      (c.kernel.mutex 3).owner = some 1 := by
  intro s
  have first : (s.step (.enter (.call (.mutexLock 3)) stillEnv)).map Prod.snd =
      some [.start 1 (.call (.mutexLock 3)), .ret 1 (.call (.mutexLock 3)) 0] := by decide
  obtain ⟨⟨b, now⟩, taken, events⟩ := Option.map_eq_some_iff.mp first
  subst events
  have second : ((s.step (.enter (.call (.mutexLock 3)) stillEnv)).bind fun r =>
      (r.1.exec [.resume stillEnv, .enter (.call .yield) stillEnv]).map Prod.snd) =
      some [.start 1 (.call .yield)] := by decide
  rw [taken, Option.bind_some] at second
  obtain ⟨⟨c, later⟩, goes, events⟩ := Option.map_eq_some_iff.mp second
  subst events
  refine ⟨b, c, _, taken, goes, ?_⟩
  refine (mutual_exclusion 3 s s b c (fun _ => rfl) (by decide) [] _ _ [] _ _ rfl taken 1
    (.call (.mutexLock 3)) rfl (by simp) goes ?_).1
  intro v releases member
  cases List.mem_singleton.mp member
  cases releases

end L4ertl
