import L4ertl.System.MutexWaiters
import L4ertl.System.MutualExclusion

/-!
The mutexes that each thread has locked and not yet unlocked, the last one first:
a history beside the system, which the owner fields of the mutexes agree with.
-/
namespace L4ertl
open Intrusive

section
variable {T : Type}

def Call.locks : Call T → Option Nat
  | .mutexLock m | .mutexTrylock m | .mutexUnlock m | .condWait _ m => some m
  | _ => none

def Work.locks : Work T → Option Nat
  | .call c => c.locks
  | .irq => none

def Point.locks : Point → Option Nat
  | .lockLoop m | .condWoken m | .condLock m => some m
  | _ => none

/-- The system, and for every thread the mutexes it has locked, the last one first. -/
structure LockHistory (T : Type) where
  sys : System T
  held : T → List Nat

end

variable {T : Type} [DecidableEq T]

def noteLock (t : T) (k x : Kernel T) (held : T → List Nat) : Option Nat → T → List Nat
  | none => held
  | some m =>
    if (x.mutex m).owner = (k.mutex m).owner then held
    else if (x.mutex m).owner = none then Function.update held t ((held t).erase m)
    else Function.update held t (m :: held t)

def System.locks (s : System T) : Label T → Option Nat
  | .enter w _ => w.locks
  | .resume _ => (s.cont s.kernel.currentThread).bind fun x => x.2.locks

def LockHistory.step [Fintype T] (h : LockHistory T) (l : Label T) :
    Option (LockHistory T × List (Event T)) :=
  (h.sys.step l).map fun r =>
    (⟨r.1, noteLock h.sys.kernel.currentThread h.sys.kernel r.1.kernel h.held (h.sys.locks l)⟩, r.2)

theorem noteLock_freed {t : T} {k x : Kernel T} {held : T → List Nat} {m : Nat}
    (mine : (k.mutex m).owner = some t) (free : (x.mutex m).owner = none) :
    noteLock t k x held (some m) t = (held t).erase m := by
  simp only [noteLock]
  rw [free, mine, if_neg nofun, if_pos rfl, Function.update_self]

theorem noteLock_away {t u : T} {k x : Kernel T} {held : T → List Nat} (other : u ≠ t)
    (about : Option Nat) : noteLock t k x held about u = held u := by
  cases about with
  | none => rfl
  | some m =>
    simp only [noteLock]
    split
    · rfl
    · split
      · rw [Function.update_of_ne other]
      · rw [Function.update_of_ne other]

theorem noteLock_kept {t : T} {k x : Kernel T} {held : T → List Nat} {m : Nat}
    (kept : (x.mutex m).owner = (k.mutex m).owner) : noteLock t k x held (some m) = held := by
  simp only [noteLock]
  rw [if_pos kept]

structure Tracks (k : Kernel T) (held : T → List Nat) : Prop where
  owned : ∀ t m, m ∈ held t ↔ (k.mutex m).owner = some t
  nodup : ∀ t, (held t).Nodup

section
variable {t : T} {k x : Kernel T} {held : T → List Nat}

omit [DecidableEq T] in
theorem Tracks.same (tracks : Tracks k held) (same : ∀ m, (x.mutex m).owner = (k.mutex m).owner) :
    Tracks x held :=
  ⟨fun u m => by rw [tracks.owned, same], tracks.nodup⟩

theorem Tracks.lock {m : Nat} (tracks : Tracks k held) (free : (k.mutex m).owner = none)
    (taken : (x.mutex m).owner = some t) (others : ∀ n, n ≠ m → (x.mutex n).owner = (k.mutex n).owner) :
    Tracks x (Function.update held t (m :: held t)) := by
  have outside : ∀ u, m ∉ held u := by
    intro u member
    rw [tracks.owned, free] at member
    cases member
  constructor
  · intro u n
    by_cases here : n = m
    · subst here
      rw [taken]
      by_cases self : u = t
      · subst self
        simp
      · rw [Function.update_of_ne self]
        exact ⟨fun member => absurd member (outside u), fun same => absurd (Option.some.inj same).symm self⟩
    · rw [others n here, ← tracks.owned]
      by_cases self : u = t
      · subst self
        rw [Function.update_self, List.mem_cons]
        exact or_iff_right here
      · rw [Function.update_of_ne self]
  · intro u
    by_cases self : u = t
    · subst self
      rw [Function.update_self]
      exact List.nodup_cons.mpr ⟨outside u, tracks.nodup u⟩
    · rw [Function.update_of_ne self]
      exact tracks.nodup u

theorem Tracks.unlock {m : Nat} (tracks : Tracks k held) (mine : (k.mutex m).owner = some t)
    (freed : (x.mutex m).owner = none) (others : ∀ n, n ≠ m → (x.mutex n).owner = (k.mutex n).owner) :
    Tracks x (Function.update held t ((held t).erase m)) := by
  constructor
  · intro u n
    by_cases here : n = m
    · subst here
      rw [freed]
      refine ⟨fun member => ?_, nofun⟩
      by_cases self : u = t
      · subst self
        rw [Function.update_self] at member
        exact absurd rfl ((tracks.nodup u).mem_erase_iff.mp member).1
      · rw [Function.update_of_ne self, tracks.owned, mine] at member
        exact absurd (Option.some.inj member).symm self
    · rw [others n here, ← tracks.owned]
      by_cases self : u = t
      · subst self
        rw [Function.update_self, (tracks.nodup u).mem_erase_iff]
        exact and_iff_right here
      · rw [Function.update_of_ne self]
  · intro u
    by_cases self : u = t
    · subst self
      rw [Function.update_self]
      exact (tracks.nodup u).erase m
    · rw [Function.update_of_ne self]
      exact tracks.nodup u

theorem Tracks.note {about : Option Nat} {release : Nat → Prop} (tracks : Tracks k held)
    (moves : ∀ m, OwnerMove t (release m) (k.mutex m) (x.mutex m))
    (elsewhere : ∀ m, about ≠ some m → (x.mutex m).owner = (k.mutex m).owner) :
    Tracks x (noteLock t k x held about) := by
  cases about with
  | none => exact tracks.same fun m => elsewhere m nofun
  | some m =>
    have others : ∀ n, n ≠ m → (x.mutex n).owner = (k.mutex n).owner :=
      fun n other => elsewhere n fun same => other (Option.some.inj same).symm
    simp only [noteLock]
    split
    · rename_i kept
      apply tracks.same
      intro n
      by_cases here : n = m
      · rw [here, kept]
      · exact others n here
    · rename_i moved
      rcases (moves m).owner with kept | ⟨free, taken⟩ | ⟨_, mine, freed⟩
      · exact absurd kept moved
      · rw [if_neg (by rw [taken]; nofun)]
        exact tracks.lock free taken others
      · rw [if_pos freed]
        exact tracks.unlock mine freed others

end

variable [Fintype T]

theorem Work.run_elsewhere {w : Work T} {env : Env} {k x : Kernel T} {pr : Progress} {m : Nat}
    (ran : w.run env k = .ok (x, pr)) (other : w.locks ≠ some m) :
    (x.mutex m).owner = (k.mutex m).owner := by
  by_cases quiet : w.quiet = true
  · rw [(Work.run_quiet quiet ran).objects.1]
  · cases w with
    | irq => exact absurd rfl quiet
    | call c =>
      have apart : ∀ n, (Work.call c).locks = some n → m ≠ n := fun n about same => other (same ▸ about)
      cases c with
      | mutexLock n =>
        obtain ⟨rfl, _⟩ := ran_pair ran
        rw [pthreadMutexLockSys_kernel, mutexLockLoop_other n m k (apart n rfl)]
      | mutexTrylock n =>
        obtain ⟨rfl, _⟩ := ran_pair ran
        rw [pthreadMutexTrylockSys_other n m k (apart n rfl)]
      | mutexUnlock n =>
        obtain ⟨rfl, _⟩ := ran_pair ran
        rw [pthreadMutexUnlockSys_kernel, mutexUnlock_other n m k (apart n rfl)]
      | condWait c n =>
        obtain ⟨rfl, _⟩ := ran_pair ran
        rcases pthreadCondWaitSys_cases c n k with ⟨_, eq⟩ | ⟨_, v, _, eq⟩ | ⟨_, _, eq⟩
        · rw [eq]
          rfl
        · rw [eq, (blockOn_condOnly c _).others.1, mutexUnlock_other n m k (apart n rfl)]
        · rw [eq, mutexUnlock_other n m k (apart n rfl)]
      | condSignal c =>
        obtain ⟨rfl, _⟩ := ran_pair ran
        rw [(condSignal_only c k).others.1]
      | condBroadcast c =>
        obtain ⟨rfl, _⟩ := ran_pair ran
        exact congrArg Mutex.owner (congrFun (drain_condOnly c k).others.1 m)
      | semWait s =>
        obtain ⟨rfl, _⟩ := ran_pair ran
        rw [(semWaitSys_only s k).others.1]
      | semTrywait s =>
        obtain ⟨rfl, _⟩ := ran_pair ran
        rw [(semTrywaitSys_only s k).others.1]
      | semPost s =>
        obtain ⟨rfl, _⟩ := ran_pair ran
        rw [(semPostSys_only s k).others.1]
      | create addr stack attr =>
        obtain ⟨rfl, _⟩ := ran_pair ran
        rw [(pthreadCreateSys_objects addr stack attr k).1]
      | _ => exact absurd rfl quiet

omit [Fintype T] in
theorem Point.run_elsewhere {p : Point} {env : Env} {k x : Kernel T} {outcome : Outcome} {m : Nat}
    (ran : p.run env k = .ok (x, outcome)) (other : p.locks ≠ some m) :
    (x.mutex m).owner = (k.mutex m).owner := by
  by_cases quiet : p.quiet = true
  · rw [(Point.run_quiet quiet ran).1.objects.1]
  · have apart : ∀ n, p.locks = some n → m ≠ n := fun n about same => other (same ▸ about)
    cases p with
    | lockLoop n =>
      cases ran
      rw [pthreadMutexLockSys_kernel, mutexLockLoop_other n m k (apart n rfl)]
    | condWoken n =>
      cases ran
      rw [condRelock_kernel, mutexLockLoop_other n m k (apart n rfl)]
    | condLock n =>
      cases ran
      rw [condRelock_kernel, mutexLockLoop_other n m k (apart n rfl)]
    | condUnlocked c n =>
      cases ran
      exact congrArg Mutex.owner (congrFun (blockOn_condOnly c k).others.1 m)
    | semWait s =>
      cases ran
      rfl
    | semPost s =>
      cases ran
      rw [(semGive_only s k).others.1]
    | _ => exact absurd rfl quiet

omit [Fintype T] in
theorem noteLock_settle {s : System T} {w : Work T} {env : Env} {x : Kernel T} {outcome : Outcome}
    {held : T → List Nat} (about : Option Nat) :
    noteLock s.kernel.currentThread s.kernel (s.settle w env x outcome).1.kernel held about =
      noteLock s.kernel.currentThread s.kernel x held about := by
  have mutex := (settle_view s w env x outcome).2.1
  cases about with
  | none => rfl
  | some m => simp only [noteLock, mutex]

theorem Tracks.step {h x : LockHistory T} {l : Label T} {es : List (Event T)}
    (tracks : Tracks h.sys.kernel h.held) (taken : h.step l = some (x, es)) :
    Tracks x.sys.kernel x.held := by
  obtain ⟨⟨y, now⟩, first, eq⟩ := Option.map_eq_some_iff.mp taken
  cases eq
  rcases step_cases first with ⟨w, env, k, pr, rfl, _, _, ran, rfl, _⟩ |
    ⟨w, p, env, k, outcome, rfl, here, ran, rfl, _⟩
  · have noted := tracks.note (fun m => Work.run_owner m ran) fun m => Work.run_elsewhere ran
    simp only [noteLock_settle, System.locks]
    apply noted.same
    intro m
    rw [(settle_view h.sys w env k pr.outcome).2.1]
  · have noted := tracks.note (fun m => Point.run_owner m ran) fun m => Point.run_elsewhere ran
    simp only [noteLock_settle, System.locks, here, Option.bind_some]
    apply noted.same
    intro m
    rw [(settle_view h.sys w env k outcome).2.1]

omit [DecidableEq T] [Fintype T] in
theorem tracks_start {s : System T} (start : Started s) : Tracks s.kernel fun _ => [] := by
  refine ⟨fun t m => ?_, fun t => List.nodup_nil⟩
  rw [(start.fresh.mutexes m).2]
  exact ⟨nofun, nofun⟩

end L4ertl
