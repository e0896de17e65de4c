import Mathlib.Algebra.BigOperators.Group.Finset.Basic
import L4ertl.Core.SyncFrame
import L4ertl.System.Quiet

/-!
Conservation of semaphore units. The value always is what it started with plus
the posts that have returned minus the waits that have returned; it can go below
zero in one way only, when a thread that was suspended in sem_wait_sys goes on
at value zero, since it decrements without looking again.
-/
namespace L4ertl
open Intrusive
variable {T : Type} [DecidableEq T] [Fintype T]

section
omit [DecidableEq T] [Fintype T]

def isTaken (n : Nat) : Event T → Bool
  | .ret _ (.call (.semWait r)) v | .ret _ (.call (.semTrywait r)) v => r = n && v = 0
  | _ => false

def isGiven (n : Nat) : Event T → Bool
  | .ret _ (.call (.semPost r)) v => r = n && v = 0
  | _ => false

def isPostStart (n : Nat) : Event T → Bool
  | .start _ (.call (.semPost r)) => r = n
  | _ => false

def inPost (n : Nat) : Option (Work T × Point) → Bool
  | some (_, .semPost r) => r = n
  | _ => false

def semGain (n : Nat) (w : Work T) : Outcome → Int
  | .ret v =>
    match w with
    | .call (.semPost r) => if r = n ∧ v = 0 then 1 else 0
    | .call (.semWait r) | .call (.semTrywait r) => if r = n ∧ v = 0 then -1 else 0
    | _ => 0
  | _ => 0

end

omit [DecidableEq T] [Fintype T] in
theorem semTake_gain (n r : Nat) (k : Kernel T) {w : Work T}
    (takes : w = .call (.semWait r) ∨ w = .call (.semTrywait r)) :
    ((semTake r k).1.sem n).value = (k.sem n).value + semGain n w (semTake r k).2.outcome := by
  rcases takes with rfl | rfl
  · by_cases here : r = n
    · subst here
      simp [semTake, setSem, semGain, Progress.outcome]
      omega
    · simp [semTake, setSem, semGain, Progress.outcome, here, Ne.symm here]
  · by_cases here : r = n
    · subst here
      simp [semTake, setSem, semGain, Progress.outcome]
      omega
    · simp [semTake, setSem, semGain, Progress.outcome, here, Ne.symm here]

omit [Fintype T] in
theorem semGive_gain (n r : Nat) (k : Kernel T) :
    ((semGive r k).1.sem n).value =
      (k.sem n).value + semGain n (.call (.semPost r) : Work T) (semGive r k).2.outcome := by
  unfold semGive
  split
  · by_cases here : r = n
    · subst here
      simp [setSem, semGain, Progress.outcome]
    · simp [setSem, semGain, Progress.outcome, here, Ne.symm here]
  · simp [semGain, Progress.outcome, setErrno]

omit [Fintype T] in
theorem blockOn_sem_value (n r : Nat) (k : Kernel T) :
    ((blockOn (semWaiters r) k).sem n).value = (k.sem n).value := by
  have suspended : (suspendThread k.currentThread k).sem = k.sem :=
    (suspendThread_only k.currentThread k).mutexOnly.others.2.2.1
  change (Function.update (suspendThread k.currentThread k).sem r _ n).value = _
  rw [suspended]
  by_cases here : n = r
  · subst here; simp
  · simp [here]

omit [Fintype T] in
theorem semPostSys_gain (n r : Nat) (k : Kernel T) :
    ((semPostSys r k).1.sem n).value =
      (k.sem n).value + semGain n (.call (.semPost r) : Work T) (semPostSys r k).2.outcome := by
  have stored : ∀ nodes head, (((semWaiters r).store nodes head k).sem n).value = (k.sem n).value := by
    intro nodes head
    change (Function.update k.sem r _ n).value = _
    by_cases here : n = r
    · subst here; simp
    · simp [here]
  unfold semPostSys WaitList.removeHead
  split
  · obtain ⟨nodes, head, taken⟩ :=
      removeHeadPthreadList ((semWaiters r).nodes k) ((semWaiters r).head k)
    cases taken with
    | none =>
      simp only
      rw [semGive_gain, stored]
    | some t =>
      simp only [Progress.outcome, semGain, add_zero]
      rw [(activateThread_semNode t _).2, stored]
  · exact semGive_gain n r k

theorem Work.run_gain {w : Work T} {env : Env} {k x : Kernel T} {pr : Progress} (n : Nat)
    (ok : w.run env k = .ok (x, pr)) :
    (x.sem n).value = (k.sem n).value + semGain n w pr.outcome := by
  -- the calls that leave the semaphores alone gain nothing whatever they return
  have still : x.sem = k.sem → semGain n w pr.outcome = 0 →
      (x.sem n).value = (k.sem n).value + semGain n w pr.outcome := by
    intro same none_
    rw [same, none_, add_zero]
  cases quiet : w.quiet with
  | true =>
    apply still (Work.run_quiet quiet ok).objects.2.2.2.2.1
    cases w with
    | irq => cases pr <;> rfl
    | call c => cases c <;> cases quiet <;> cases pr <;> rfl
  | false =>
    cases w with
    | irq => cases quiet
    | call c =>
      cases c with
      | mutexLock m =>
        have same : x = (mutexLockLoop m k).1 := by
          rw [← pthreadMutexLockSys_kernel, Except.ok.inj ok]
        exact still (same ▸ (mutexLockLoop_only m k).others.2.2.1) (by cases pr <;> rfl)
      | mutexTrylock m =>
        have same : x = (pthreadMutexTrylockSys m k).1 := by rw [Except.ok.inj ok]
        exact still (same ▸ (pthreadMutexTrylockSys_only m k).others.2.2.1) (by cases pr <;> rfl)
      | mutexUnlock m =>
        have same : x = (mutexUnlock m k).1 := by
          rw [← pthreadMutexUnlockSys_kernel, Except.ok.inj ok]
        exact still (same ▸ (mutexUnlock_only m k).others.2.2.1) (by cases pr <;> rfl)
      | condSignal c =>
        have same : x = (pthreadCondSignalSys c k).1 := by rw [Except.ok.inj ok]
        exact still (same ▸ (condSignal_only c k).others.2.2.1) (by cases pr <;> rfl)
      | condBroadcast c =>
        have same : x = drain (condWaiters c) k := by cases ok; rfl
        exact still (same ▸ (drain_condOnly c k).others.2.2.1) (by cases pr <;> rfl)
      | condWait c m =>
        have same : x = (pthreadCondWaitSys c m k).1 := by rw [Except.ok.inj ok]
        refine still ?_ (by cases pr <;> rfl)
        rw [same]
        have unlocked := (mutexUnlock_only m k).others.2.2.1
        rcases pthreadCondWaitSys_cases c m k with ⟨_, eq⟩ | ⟨_, v, _, eq⟩ | ⟨_, _, eq⟩
        · rw [eq]; rfl
        · rw [eq]
          exact (blockOn_condOnly c _).others.2.2.1.trans unlocked
        · rw [eq]
          exact unlocked
      | semWait r =>
        have same : semWaitSys r k = (x, pr) := Except.ok.inj ok
        unfold semWaitSys at same
        split at same
        · cases same
          simpa [semGain, Progress.outcome] using blockOn_sem_value n r k
        · have gain := semTake_gain n r k (w := (.call (.semWait r) : Work T)) (Or.inl rfl)
          rw [same] at gain
          exact gain
      | semTrywait r =>
        have same : semTrywaitSys r k = (x, pr) := Except.ok.inj ok
        unfold semTrywaitSys at same
        split at same
        · cases same
          simp [semGain, Progress.outcome, setErrno]
        · have gain := semTake_gain n r k (w := (.call (.semTrywait r) : Work T)) (Or.inr rfl)
          rw [same] at gain
          exact gain
      | semPost r =>
        have same : semPostSys r k = (x, pr) := Except.ok.inj ok
        have gain := semPostSys_gain n r k
        rw [same] at gain
        exact gain
      | create addr stack attr =>
        have same : x = (pthreadCreateSys addr stack attr k).1 := by rw [Except.ok.inj ok]
        exact still (same ▸ (pthreadCreateSys_objects addr stack attr k).2.2.1) (by cases pr <;> rfl)
      | _ => cases quiet

omit [Fintype T] in
theorem Point.run_gain {w : Work T} {p : Point} {env : Env} {k x : Kernel T} {outcome : Outcome}
    (n : Nat) (fits : p.fits w) (ok : p.run env k = .ok (x, outcome)) :
    (x.sem n).value = (k.sem n).value + semGain n w outcome := by
  have still : x.sem = k.sem → semGain n w outcome = 0 →
      (x.sem n).value = (k.sem n).value + semGain n w outcome := by
    intro same none_
    rw [same, none_, add_zero]
  cases p with
  | semWait r =>
    cases fits
    cases ok
    exact semTake_gain n r k (Or.inl rfl)
  | semPost r =>
    cases fits
    cases ok
    exact semGive_gain n r k
  | lockLoop m =>
    cases fits
    cases ok
    refine still ?_ (by cases (pthreadMutexLockSys m k).2 <;> rfl)
    rw [pthreadMutexLockSys_kernel]
    exact (mutexLockLoop_only m k).others.2.2.1
  | condUnlocked c m =>
    cases fits
    cases ok
    exact still (blockOn_condOnly c k).others.2.2.1 rfl
  | condWoken m =>
    obtain ⟨c, rfl⟩ := fits
    cases ok
    refine still ?_ (by cases (condRelock m k).2 <;> rfl)
    rw [condRelock_kernel]
    exact (mutexLockLoop_only m k).others.2.2.1
  | condLock m =>
    obtain ⟨c, rfl⟩ := fits
    cases ok
    refine still ?_ (by cases (condRelock m k).2 <;> rfl)
    rw [condRelock_kernel]
    exact (mutexLockLoop_only m k).others.2.2.1
  | done =>
    cases ok
    apply still rfl
    cases w with
    | irq => rfl
    | call c =>
      cases c with
      | semWait r => exact absurd rfl (fits r).1
      | semPost r => exact absurd rfl (fits r).2.2
      | semTrywait r => exact absurd rfl (fits r).2.1
      | _ => rfl
  | slept d =>
    obtain ⟨usec, rfl⟩ := fits
    exact still (Point.run_quiet rfl ok).1.objects.2.2.2.2.1 (by cases outcome <;> rfl)
  | leave _ | signals _ _ _ _ =>
    obtain ⟨quiet, returns, _⟩ := Point.run_quiet rfl ok
    apply still quiet.objects.2.2.2.2.1
    cases outcome with
    | ret v => rcases returns v rfl with ⟨eq, _⟩ | ⟨d, eq⟩ <;> cases eq
    | sched q => rfl
    | next q => rfl

omit [DecidableEq T] [Fintype T] in
theorem semGain_ge (n : Nat) (w : Work T) (outcome : Outcome) : -1 ≤ semGain n w outcome := by
  unfold semGain
  split
  · split
    · split <;> omega
    · split <;> omega
    · split <;> omega
    · omega
  · omega

theorem Work.run_empty {w : Work T} {env : Env} {k x : Kernel T} {pr : Progress} {n : Nat}
    (empty : (k.sem n).value = 0) (ok : w.run env k = .ok (x, pr)) :
    0 ≤ semGain n w pr.outcome := by
  cases w with
  | irq => cases pr <;> exact Int.le_refl 0
  | call c =>
    cases c with
    | semWait r =>
      have same : semWaitSys r k = (x, pr) := Except.ok.inj ok
      unfold semWaitSys at same
      split at same
      · cases same
        exact Int.le_refl 0
      · rename_i filled
        cases same
        have other : r ≠ n := fun here => filled (here ▸ empty)
        simp [semGain, Progress.outcome, other]
    | semTrywait r =>
      have same : semTrywaitSys r k = (x, pr) := Except.ok.inj ok
      unfold semTrywaitSys at same
      split at same
      · cases same
        simp [semGain, Progress.outcome]
      · rename_i filled
        cases same
        have other : r ≠ n := fun here => filled (here ▸ empty)
        simp [semGain, Progress.outcome, other]
    | semPost r =>
      cases pr with
      | ret v => simp only [semGain, Progress.outcome]; split <;> omega
      | sched q => exact Int.le_refl 0
    | _ => cases pr <;> exact Int.le_refl 0

omit [Fintype T] in
theorem Point.run_spares {w : Work T} {p : Point} {env : Env} {k x : Kernel T} {outcome : Outcome}
    {n : Nat} (fits : p.fits w) (ok : p.run env k = .ok (x, outcome)) (other : p ≠ .semWait n) :
    0 ≤ semGain n w outcome := by
  have free : (∀ r, w ≠ .call (.semWait r) ∧ w ≠ .call (.semTrywait r)) →
      0 ≤ semGain n w outcome := by
    intro notWait
    cases outcome with
    | sched q => exact Int.le_refl 0
    | next q => exact Int.le_refl 0
    | ret v =>
      cases w with
      | irq => exact Int.le_refl 0
      | call c =>
        cases c with
        | semWait r => exact absurd rfl (notWait r).1
        | semTrywait r => exact absurd rfl (notWait r).2
        | semPost r => simp only [semGain]; split <;> omega
        | _ => exact Int.le_refl 0
  have leaves : (∀ v, outcome ≠ .ret v) → 0 ≤ semGain n w outcome := by
    intro goes
    cases outcome with
    | ret v => exact absurd rfl (goes v)
    | sched q => exact Int.le_refl 0
    | next q => exact Int.le_refl 0
  cases p with
  | semWait r =>
    cases fits
    cases ok
    have apart : r ≠ n := fun here => other (by rw [here])
    simp [semGain, semTake, Progress.outcome, apart]
  | semPost r => cases fits; exact free (fun r => ⟨nofun, nofun⟩)
  | lockLoop m => cases fits; exact free (fun r => ⟨nofun, nofun⟩)
  | condUnlocked c m => cases fits; exact free (fun r => ⟨nofun, nofun⟩)
  | condWoken m => obtain ⟨c, rfl⟩ := fits; exact free (fun r => ⟨nofun, nofun⟩)
  | condLock m => obtain ⟨c, rfl⟩ := fits; exact free (fun r => ⟨nofun, nofun⟩)
  | slept d => obtain ⟨usec, rfl⟩ := fits; exact free (fun r => ⟨nofun, nofun⟩)
  | done => exact free (fun r => ⟨(fits r).1, (fits r).2.1⟩)
  | leave rounds =>
    apply leaves
    intro v eq
    rcases (Point.run_quiet rfl ok).2.1 v eq with ⟨eq, _⟩ | ⟨d, eq⟩ <;> cases eq
  | signals mask signal pend rounds =>
    apply leaves
    intro v eq
    rcases (Point.run_quiet rfl ok).2.1 v eq with ⟨eq, _⟩ | ⟨d, eq⟩ <;> cases eq

omit [Fintype T] in
theorem settle_sem (s : System T) (w : Work T) (env : Env) (k : Kernel T) (outcome : Outcome) :
    (s.settle w env k outcome).1.kernel.sem = k.sem := by
  cases outcome with
  | ret v => rfl
  | next p => rfl
  | sched p => exact (scheduling_only env.sched k).quiet.objects.2.2.2.2.1

omit [Fintype T] in
theorem settle_gain (n : Nat) (s : System T) (w : Work T) (env : Env) (k : Kernel T)
    (outcome : Outcome) :
    (((s.settle w env k outcome).2.countP (isGiven n) : Nat) : Int) -
      ((s.settle w env k outcome).2.countP (isTaken n) : Nat) = semGain n w outcome := by
  cases outcome with
  | sched q => rfl
  | next q => rfl
  | ret v =>
    cases w with
    | irq => rfl
    | call c =>
      cases c with
      | semWait r =>
        by_cases hit : r = n ∧ v = 0
        · simp [System.settle, semGain, isGiven, isTaken, hit]
        · simp [System.settle, semGain, isGiven, isTaken, hit]
      | semTrywait r =>
        by_cases hit : r = n ∧ v = 0
        · simp [System.settle, semGain, isGiven, isTaken, hit]
        · simp [System.settle, semGain, isGiven, isTaken, hit]
      | semPost r =>
        by_cases hit : r = n ∧ v = 0
        · simp [System.settle, semGain, isGiven, isTaken, hit]
        · simp [System.settle, semGain, isGiven, isTaken, hit]
      | _ => rfl

omit [DecidableEq T] in
def postersInside (n : Nat) (cont : T → Option (Work T × Point)) : Nat :=
  ∑ t, (inPost n (cont t)).toNat

theorem postersInside_update (n : Nat) (cont : T → Option (Work T × Point)) (t : T)
    (c : Option (Work T × Point)) :
    postersInside n (Function.update cont t c) + (inPost n (cont t)).toNat =
      postersInside n cont + (inPost n c).toNat := by
  unfold postersInside
  rw [← Finset.add_sum_erase _ _ (Finset.mem_univ t),
    ← Finset.add_sum_erase Finset.univ (fun u => (inPost n (cont u)).toNat) (Finset.mem_univ t)]
  have rest : ∑ u ∈ Finset.univ.erase t, (inPost n (Function.update cont t c u)).toNat =
      ∑ u ∈ Finset.univ.erase t, (inPost n (cont u)).toNat := by
    apply Finset.sum_congr rfl
    intro u member
    rw [Function.update_of_ne (Finset.ne_of_mem_erase member)]
  rw [rest, Function.update_self]
  omega

structure SemInv (n : Nat) (start : Int) (s : System T) (es : List (Event T)) : Prop where
  fits : ∀ t w p, s.cont t = some (w, p) → p.fits w
  value : (s.kernel.sem n).value = start + es.countP (isGiven n) - es.countP (isTaken n)
  posts : es.countP (isGiven n) + postersInside n s.cont ≤ es.countP (isPostStart n)

omit [Fintype T] in
theorem settle_inPost (n : Nat) (s : System T) (w : Work T) (env : Env) (k : Kernel T)
    (outcome : Outcome) :
    ∃ c, (s.settle w env k outcome).1.cont = Function.update s.cont s.kernel.currentThread c ∧
      (inPost n c = true → outcome.onward = some (.semPost n)) := by
  cases outcome with
  | ret v => exact ⟨_, rfl, nofun⟩
  | sched p =>
    refine ⟨_, rfl, ?_⟩
    intro inside
    cases p <;> simp [inPost] at inside
    simp [Outcome.onward, inside]
  | next p =>
    refine ⟨_, rfl, ?_⟩
    intro inside
    cases p with
    | none => cases inside
    | some p =>
      cases p <;> simp [inPost] at inside
      simp [Outcome.onward, inside]

omit [Fintype T] in
theorem settle_given {n : Nat} {s : System T} {w : Work T} {env : Env} {k : Kernel T}
    {outcome : Outcome} (given : (s.settle w env k outcome).2.countP (isGiven n) ≠ 0) :
    (s.settle w env k outcome).2.countP (isGiven n) = 1 ∧ w = .call (.semPost n) ∧
      outcome.onward = none := by
  cases outcome with
  | sched q => exact absurd rfl given
  | next q => exact absurd rfl given
  | ret v =>
    have hit : isGiven n (.ret s.kernel.currentThread w v) = true := by
      by_contra miss
      apply given
      simp [System.settle, miss]
    cases w with
    | irq => cases hit
    | call c =>
      cases c with
      | semPost r =>
        simp only [isGiven, Bool.and_eq_true, decide_eq_true_eq] at hit
        refine ⟨?_, by rw [hit.1], rfl⟩
        simp [System.settle, isGiven, hit.1, hit.2]
      | _ => cases hit

omit [Fintype T] in
theorem Point.run_posts {w : Work T} {p : Point} {env : Env} {k x : Kernel T} {outcome : Outcome}
    {n : Nat} (fits : p.fits w) (ok : p.run env k = .ok (x, outcome)) :
    outcome.onward ≠ some (.semPost n) ∧
      (w = .call (.semPost n) → (∃ v, outcome = .ret v) → p = .semPost n) := by
  have leaving : p.quiet = true → outcome.onward ≠ some (.semPost n) := by
    intro quiet eq
    cases (Point.run_quiet quiet ok).2.2 _ eq
  cases p with
  | done => exact ⟨leaving rfl, fun post _ => absurd post (fits n).2.2⟩
  | slept d =>
    obtain ⟨usec, rfl⟩ := fits
    exact ⟨leaving rfl, fun post => by cases post⟩
  | leave rounds =>
    refine ⟨leaving rfl, fun _ ends => ?_⟩
    obtain ⟨v, eq⟩ := ends
    rcases (Point.run_quiet rfl ok).2.1 v eq with ⟨eq, _⟩ | ⟨d, eq⟩ <;> cases eq
  | signals mask signal pend rounds =>
    refine ⟨leaving rfl, fun _ ends => ?_⟩
    obtain ⟨v, eq⟩ := ends
    rcases (Point.run_quiet rfl ok).2.1 v eq with ⟨eq, _⟩ | ⟨d, eq⟩ <;> cases eq
  | semPost r =>
    cases fits
    cases ok
    refine ⟨?_, fun post _ => by cases post; rfl⟩
    simp only [semGive]
    split <;> (intro onward; cases onward)
  | semWait r =>
    cases fits
    cases ok
    exact ⟨(fun onward => by cases onward), fun post => by cases post⟩
  | condUnlocked c m =>
    cases fits
    cases ok
    exact ⟨(fun onward => by cases onward), fun post => by cases post⟩
  | lockLoop m =>
    cases fits
    refine ⟨fun eq => ?_, fun post => by cases post⟩
    cases Point.run_fits (w := .call (.mutexLock m)) (p := .lockLoop m) rfl ok eq
  | condWoken m =>
    obtain ⟨c, rfl⟩ := fits
    refine ⟨fun eq => ?_, fun post => by cases post⟩
    cases Point.run_fits (w := .call (.condWait c m)) (p := .condWoken m) ⟨c, rfl⟩ ok eq
  | condLock m =>
    obtain ⟨c, rfl⟩ := fits
    refine ⟨fun eq => ?_, fun post => by cases post⟩
    cases Point.run_fits (w := .call (.condWait c m)) (p := .condLock m) ⟨c, rfl⟩ ok eq

theorem semInv_step {n : Nat} {start : Int} {s x : System T} {past es : List (Event T)}
    {l : Label T} (inv : SemInv n start s past) (taken : s.step l = some (x, es)) :
    SemInv n start x (past ++ es) := by
  rcases step_cases taken with ⟨w, env, k, pr, rfl, user, _, ran, rfl, rfl⟩ |
    ⟨w, p, env, k, outcome, rfl, here, ran, rfl, rfl⟩
  · have gain := Work.run_gain n ran
    have account := settle_gain n s w env k pr.outcome
    obtain ⟨c, moved, entered⟩ := settle_inPost n s w env k pr.outcome
    have count := postersInside_update n s.cont s.kernel.currentThread c
    rw [user] at count
    have outside : (inPost n (none : Option (Work T × Point))).toNat = 0 := rfl
    refine ⟨?_, ?_, ?_⟩
    · intro t v q there
      rcases settle_cont there with ⟨_, before⟩ | ⟨_, rfl, onward | ⟨r, _, rfl⟩⟩
      · exact inv.fits t v q before
      · cases pr with
        | ret r => cases onward
        | sched r => cases onward; exact Work.run_fits ran
      · trivial
    · rw [settle_sem, gain, inv.value]
      simp only [List.countP_append, List.countP_cons, isGiven, isTaken]
      push_cast
      omega
    · have bound := inv.posts
      rw [moved]
      simp only [List.countP_append, List.countP_cons, isGiven]
      by_cases given : (s.settle w env k pr.outcome).2.countP (isGiven n) = 0
      · by_cases inside : inPost n c = true
        · have onward := entered inside
          have posts : w = .call (.semPost n) := by
            cases pr with
            | ret r => cases onward
            | sched r => cases onward; exact Work.run_fits ran
          have started : isPostStart n (.start s.kernel.currentThread w) = true := by
            rw [posts]; simp [isPostStart]
          have one : (inPost n c).toNat = 1 := by rw [inside]; rfl
          simp only [started, if_true]
          simp
          omega
        · have zero : (inPost n c).toNat = 0 := by simp [inside]
          simp
          omega
      · obtain ⟨one, posts, onward⟩ := settle_given given
        have started : isPostStart n (.start s.kernel.currentThread w) = true := by
          rw [posts]; simp [isPostStart]
        have zero : (inPost n c).toNat = 0 := by
          cases inside : inPost n c with
          | false => rfl
          | true => rw [entered inside] at onward; cases onward
        simp only [started, if_true]
        simp
        omega
  · have fits := inv.fits _ w p here
    have gain := Point.run_gain n fits ran
    have account := settle_gain n s w env k outcome
    obtain ⟨c, moved, entered⟩ := settle_inPost n s w env k outcome
    have count := postersInside_update n s.cont s.kernel.currentThread c
    obtain ⟨never, ended⟩ := Point.run_posts (n := n) fits ran
    have zero : (inPost n c).toNat = 0 := by
      cases inside : inPost n c with
      | false => rfl
      | true => exact absurd (entered inside) never
    refine ⟨?_, ?_, ?_⟩
    · intro t v q there
      rcases settle_cont there with ⟨_, before⟩ | ⟨_, rfl, onward | ⟨r, _, rfl⟩⟩
      · exact inv.fits t v q before
      · exact Point.run_fits fits ran onward
      · trivial
    · rw [settle_sem, gain, inv.value]
      simp only [List.countP_append]
      push_cast
      omega
    · have bound := inv.posts
      rw [moved]
      simp only [List.countP_append]
      by_cases given : (s.settle w env k outcome).2.countP (isGiven n) = 0
      · omega
      · obtain ⟨one, posts, onward⟩ := settle_given given
        have point : p = .semPost n := by
          apply ended posts
          cases outcome with
          | ret v => exact ⟨v, rfl⟩
          | sched q => cases onward
          | next q => exact absurd rfl given
        have inside : (inPost n (s.cont s.kernel.currentThread)).toNat = 1 := by
          rw [here, point]; simp [inPost]
        omega

/-- A thread that goes on in sem_wait_sys after it was suspended finds a unit. -/
def SemCovered (n : Nat) (s : System T) (l : Label T) : Prop :=
  ∀ env w, l = .resume env → s.cont s.kernel.currentThread = some (w, .semWait n) →
    0 < (s.kernel.sem n).value

theorem semValue_step {n : Nat} {s x : System T} {es : List (Event T)} {l : Label T}
    (fits : ∀ t w p, s.cont t = some (w, p) → p.fits w) (covered : SemCovered n s l)
    (filled : 0 ≤ (s.kernel.sem n).value) (taken : s.step l = some (x, es)) :
    0 ≤ (x.kernel.sem n).value := by
  rcases step_cases taken with ⟨w, env, k, pr, rfl, user, _, ran, rfl, rfl⟩ |
    ⟨w, p, env, k, outcome, rfl, here, ran, rfl, rfl⟩
  · rw [settle_sem, Work.run_gain n ran]
    have lower := semGain_ge n w pr.outcome
    by_cases empty : (s.kernel.sem n).value = 0
    · have spared := Work.run_empty empty ran
      omega
    · omega
  · rw [settle_sem, Point.run_gain n (fits _ w p here) ran]
    have lower := semGain_ge n w outcome
    by_cases waits : p = .semWait n
    · subst waits
      have unit := covered env w rfl here
      omega
    · have spared := Point.run_spares (fits _ w p here) ran waits
      omega

/-- What a semaphore initialised to `v0` promises in a state that a run with the
    events `es` has reached. -/
def Conserved (n v0 : Nat) (s : System T) (es : List (Event T)) : Prop :=
  0 ≤ (s.kernel.sem n).value ∧ es.countP (isTaken n) ≤ v0 + es.countP (isPostStart n)

def semStart (n : Nat) (v0 : Word) (k : Kernel T) : System T :=
  ⟨(semInitSys n 0 v0 k).1, fun _ => none⟩

omit [Fintype T] in
theorem semStart_value (n : Nat) (v0 : Word) (k : Kernel T) :
    ((semStart n v0 k).kernel.sem n).value = v0.toInt := by
  simp [semStart, semInitSys, setSem]

theorem semInv_start (n : Nat) (v0 : Word) (k : Kernel T) :
    SemInv n v0.toInt (semStart n v0 k) [] where
  fits t w p here := by cases here
  value := by simp [semStart_value]
  posts := by simp [semStart, postersInside, inPost]

omit [DecidableEq T] in
theorem SemInv.conserved {n : Nat} {v0 : Word} {s : System T} {es : List (Event T)}
    (inv : SemInv n v0.toInt s es) (small : v0.toNat ≤ 2147483647)
    (filled : 0 ≤ (s.kernel.sem n).value) : Conserved n v0.toNat s es := by
  refine ⟨filled, ?_⟩
  have value := inv.value
  have posts := inv.posts
  have plain : v0.toInt = v0.toNat := by
    rw [BitVec.toInt_eq_toNat_cond, if_pos (by omega)]
  omega

/-- A semaphore is conserved in every state of a run exactly when its initial
    value fits the int that holds it and every thread that goes on in
    sem_wait_sys after having been suspended finds a unit. -/
theorem sem_conservation (n : Nat) (v0 : Word) (k : Kernel T) (ls : List (Label T)) (x : System T)
    (es : List (Event T)) (run : (semStart n v0 k).exec ls = some (x, es)) :
    (∀ before after y past, ls = before ++ after →
      (semStart n v0 k).exec before = some (y, past) → Conserved n v0.toNat y past) ↔
    v0.toNat ≤ 2147483647 ∧ Lts.Along System.step (SemCovered n) (semStart n v0 k) ls := by
  have reached : ∀ before y past, (semStart n v0 k).exec before = some (y, past) →
      SemInv n v0.toInt y past := by
    intro before y past goes
    exact Lts.exec_invariant (SemInv n v0.toInt) (fun s es l w first inv _ step => semInv_step inv step)
      before (semInv_start n v0 k) (Lts.along_trivial before _) goes
  constructor
  · intro conserved
    constructor
    · have start := (conserved [] ls _ [] rfl rfl).1
      rw [semStart_value, BitVec.toInt_eq_toNat_cond] at start
      split at start
      · omega
      · have := v0.isLt
        omega
    · rw [Lts.along_iff]
      intro before l after y past eq goes env w resumes waits
      -- one step later the value has lost a unit and is still not negative
      have prefixes : ls = (before ++ [l]) ++ after := by rw [eq]; simp
      obtain ⟨z, first, taken, goes'⟩ := Lts.exec_next (eq ▸ run) goes
      have later := (conserved _ after z _ prefixes goes').1
      subst resumes
      rcases step_cases taken with ⟨_, _, _, _, eq, _⟩ | ⟨v, p, e, q, outcome, eq, here, ran, rfl, _⟩
      · cases eq
      · rw [waits] at here
        cases here
        rw [settle_sem] at later
        cases ran
        simp only [semTake, setSem, Function.update_self] at later
        omega
  · intro condition before after y past eq goes
    have along := Lts.Along.of_append (eq ▸ condition.2)
    have both := Lts.exec_invariant
      (fun s es => SemInv n v0.toInt s es ∧ 0 ≤ (s.kernel.sem n).value)
      (fun s es l w first inv covered step =>
        ⟨semInv_step inv.1 step, semValue_step inv.1.fits covered inv.2 step⟩)
      before ⟨semInv_start n v0 k, ?_⟩ along goes
    · exact both.1.conserved condition.1 both.2
    · rw [semStart_value, BitVec.toInt_eq_toNat_cond, if_pos (by omega)]
      omega

theorem sem_conservation_one :
    let k := (startSystem (0 : Fin 3) [(0, 1023), (1, 5), (2, 9)]).kernel
    ∃ x es, (semStart 0 1#32 k).exec [.enter (.call (.semWait 0)) stillEnv] = some (x, es) ∧
      es.countP (isTaken 0) = 1 ∧ Conserved 0 1 x es := by
  intro k
  have run : ((semStart 0 1#32 k).exec [.enter (.call (.semWait 0)) stillEnv]).map
      (fun r => r.2.countP (isTaken 0)) = some 1 := by decide +kernel
  obtain ⟨⟨x, es⟩, goes, one⟩ := Option.map_eq_some_iff.mp run
  have covered : Lts.Along System.step (SemCovered 0) (semStart 0 1#32 k)
      [.enter (.call (.semWait 0)) stillEnv] := ⟨nofun, fun _ _ _ => trivial⟩
  refine ⟨x, es, goes, one, ?_⟩
  exact (sem_conservation 0 1#32 k _ x es goes).mpr ⟨by decide, covered⟩ _ [] x es (by simp) goes

/-- The post wakes the waiter and lets it run before it adds the unit. -/
theorem sem_conservation_fails :
    let k := (startSystem (0 : Fin 3) [(0, 1023), (1, 5), (2, 9)]).kernel
    ∃ x es, (semStart 0 0#32 k).exec
        [.enter (.call (.semWait 0)) stillEnv, .enter (.call (.semPost 0)) stillEnv,
          .resume stillEnv] = some (x, es) ∧ ¬Conserved 0 0 x es := by
  intro k
  have run : ((semStart 0 0#32 k).exec
      [.enter (.call (.semWait 0)) stillEnv, .enter (.call (.semPost 0)) stillEnv,
        .resume stillEnv]).map (fun r => (r.1.kernel.sem 0).value) = some (-1) := by decide +kernel
  obtain ⟨⟨x, es⟩, goes, value⟩ := Option.map_eq_some_iff.mp run
  refine ⟨x, es, goes, fun conserved => ?_⟩
  have filled := conserved.1
  rw [value] at filled
  omega

end L4ertl
