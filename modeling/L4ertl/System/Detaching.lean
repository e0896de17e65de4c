import L4ertl.System.JoinKept

/-!
Detaching a thread. pthread_detach_sys is about the thread it is given, but wakes
and forgets the joiner of its caller, so that only a thread which detaches itself
gets what the call is for.
-/
namespace L4ertl
variable {T : Type} [DecidableEq T]

def ThreadSystem.Joining (s : ThreadSystem T) (u t : T) : Prop :=
  s.waits u = some t ∧ s.kernel.state u = suspendedThread

instance (s : ThreadSystem T) (u t : T) : Decidable (s.Joining u t) :=
  inferInstanceAs (Decidable (_ ∧ _))

structure Detaches (s : ThreadSystem T) (t : T) (k : Kernel T) : Prop where
  detached : getThreadDetachState (k.threadFlags t) ≠ 0#32
  states : ∀ u, k.state u = if s.Joining u t then readyThread else s.kernel.state u
  cleared : k.joiningThread t = none
  others : ∀ u, u ≠ t → k.joiningThread u = s.kernel.joiningThread u
  -- the join of whoever was woken
  refused : ∀ w, w.threadFlags t = k.threadFlags t → joinWoken t w = (setErrno einval w, .ret (-1))

def ThreadSystem.DetachRight (s : ThreadSystem T) (t : T) : Prop :=
  ∃ k pr, pthreadDetachSys t s.kernel = .ok (k, pr) ∧ Detaches s t k

/-- The caller is `t` itself, with a joiner that waits for nothing else and is the only
    thread suspended in pthread_join_sys of `t`. -/
def ThreadSystem.DetachesItself (s : ThreadSystem T) (t : T) : Prop :=
  s.kernel.currentThread = t ∧ ∃ j, s.kernel.joiningThread t = some j ∧
    (s.kernel.state j = readyThread ∨ s.kernel.state j = finishedThread ∨ s.Joining j t) ∧
    ∀ u, s.Joining u t → u = j

section
variable {k w : Kernel T} {t j : T} {pr : Progress}

/-- With nobody to wake, activate_thread is called with NULL. -/
theorem pthreadDetachSys_null (magic : k.magicNumber t = pthreadMagicNumber)
    (joinable : getThreadDetachState (k.threadFlags t) = 0#32)
    (nobody : k.joiningThread k.currentThread = none) :
    pthreadDetachSys t k = .error .nullDeref := by
  have none_ : (setFlags t (setThreadDetachState (k.threadFlags t) true) k).joiningThread
      (setFlags t (setThreadDetachState (k.threadFlags t) true) k).currentThread = none := nobody
  simp only [pthreadDetachSys, if_neg (not_not.mpr magic), if_neg (not_not.mpr joinable), none_]

theorem setThreadDetachState_set (flags : Word) :
    getThreadDetachState (setThreadDetachState flags true) ≠ 0#32 := by
  have bit : getThreadDetachState (setThreadDetachState flags true) = 0x8#32 := by
    show (flags ||| 0x8#32) &&& 0x8#32 = 0x8#32
    ext i bound
    simp only [BitVec.getElem_and, BitVec.getElem_or]
    cases flags[i] <;> cases (0x8#32 : Word)[i] <;> rfl
  rw [bit]
  decide

theorem pthreadDetachSys_woken (magic : k.magicNumber t = pthreadMagicNumber)
    (joinable : getThreadDetachState (k.threadFlags t) = 0#32)
    (joins : k.joiningThread k.currentThread = some j) :
    ∃ w, pthreadDetachSys t k = .ok (w, .sched .done) ∧
      getThreadDetachState (w.threadFlags t) ≠ 0#32 ∧
      (∀ u, w.state u = if u = j ∧ k.state j ≠ finishedThread then readyThread else k.state u) ∧
      w.joiningThread = Function.update k.joiningThread k.currentThread none := by
  have first : (setFlags t (setThreadDetachState (k.threadFlags t) true) k).joiningThread
      (setFlags t (setThreadDetachState (k.threadFlags t) true) k).currentThread = some j := joins
  have only := activateThread_only j (setFlags t (setThreadDetachState (k.threadFlags t) true) k)
  have current := congrArg Kernel.currentThread only
  have joining := congrArg Kernel.joiningThread only
  have states : ∀ u, (setFlags t (setThreadDetachState (k.threadFlags t) true) k).state u = k.state u :=
    setFlags_state (getThreadState_detach _ _)
  refine ⟨_, by
    simp only [pthreadDetachSys, if_neg (not_not.mpr magic), if_neg (not_not.mpr joinable), first]
    rfl, ?_, fun u => ?_, ?_⟩
  · have kept := (activateThread_joinKept (t := t) j
      (setFlags t (setThreadDetachState (k.threadFlags t) true) k)).detach
    show getThreadDetachState ((activateThread j
      (setFlags t (setThreadDetachState (k.threadFlags t) true) k)).threadFlags t) ≠ 0#32
    rw [kept]
    simp only [setFlags, Function.update_self]
    exact setThreadDetachState_set _
  · show (activateThread j (setFlags t (setThreadDetachState (k.threadFlags t) true) k)).state u = _
    rw [activateThread_state, states, states]
  · simp only [setJoining, current, joining]
    rfl

end

/-- pthread_detach_sys does its work exactly for a thread that detaches itself, and only
    if that has a joiner. -/
theorem detach_right_iff (s : ThreadSystem T) (t : T)
    (magic : s.kernel.magicNumber t = pthreadMagicNumber)
    (joinable : getThreadDetachState (s.kernel.threadFlags t) = 0#32) :
    s.DetachRight t ↔ s.DetachesItself t := by
  cases joins : s.kernel.joiningThread s.kernel.currentThread with
  | none =>
    have stops := pthreadDetachSys_null magic joinable joins
    constructor
    · rintro ⟨k, pr, ran, _⟩
      rw [stops] at ran
      cases ran
    · rintro ⟨self, j, mine, _⟩
      rw [← self, joins] at mine
      cases mine
  | some j =>
    obtain ⟨w, ran, flag, states, joining⟩ := pthreadDetachSys_woken magic joinable joins
    constructor
    · rintro ⟨k, pr, same, right⟩
      rw [ran] at same
      cases same
      have self : s.kernel.currentThread = t := by
        by_contra other
        have kept := right.others _ other
        rw [joining, Function.update_self, joins] at kept
        cases kept
      refine ⟨self, j, self ▸ joins, ?_, fun u waits => ?_⟩
      · by_cases waits : s.Joining j t
        · exact Or.inr (Or.inr waits)
        · have after := right.states j
          rw [states, if_neg waits] at after
          by_cases ended : s.kernel.state j = finishedThread
          · exact Or.inr (Or.inl ended)
          · rw [if_pos ⟨rfl, ended⟩] at after
            exact Or.inl after.symm
      · by_contra other
        have after := right.states u
        rw [states, if_neg fun both => other both.1, if_pos waits, waits.2] at after
        exact suspended_ne_ready after
    · rintro ⟨self, i, mine, place, alone⟩
      rw [← self, joins] at mine
      cases mine
      refine ⟨w, .sched .done, ran, flag, fun u => ?_, ?_, fun u other => ?_, fun v same => ?_⟩
      · rw [states]
        by_cases woken : u = j
        · subst woken
          rcases place with ready | ended | waits
          · have apart : ¬s.Joining u t := fun waits => suspended_ne_ready (waits.2.symm.trans ready)
            rw [if_neg apart, ready, if_pos ⟨rfl, ready_ne_finished⟩]
          · have apart : ¬s.Joining u t :=
              fun waits => finished_ne_suspended (ended.symm.trans waits.2)
            rw [if_neg apart, if_neg fun both => both.2 ended]
          · rw [if_pos waits, if_pos ⟨rfl, by rw [waits.2]; decide⟩]
        · rw [if_neg fun both => woken both.1, if_neg fun waits => woken (alone u waits)]
      · rw [joining, ← self, Function.update_self]
      · rw [joining, self, Function.update_of_ne other]
      · simp only [joinWoken, same, if_pos flag]

theorem detach_right_iff_self :
    ∃ s, Lts.exec ThreadSystem.step threeThreads [.join 2 stillEnv] = some (s, []) ∧
      s.kernel.currentThread = 2 ∧ s.Joining 1 2 ∧ s.DetachRight 2 := by
  have final : (Lts.exec ThreadSystem.step threeThreads [.join 2 stillEnv]).map (fun r =>
      (r.2, r.1.kernel.currentThread, r.1.kernel.joiningThread 2,
        decide (r.1.kernel.magicNumber 2 = pthreadMagicNumber ∧
          getThreadDetachState (r.1.kernel.threadFlags 2) = 0#32 ∧ r.1.Joining 1 2 ∧
          ∀ u, r.1.Joining u 2 → u = 1))) =
      some ([], 2, some 1, true) := by decide +kernel
  obtain ⟨⟨s, es⟩, run, found⟩ := Option.map_eq_some_iff.mp final
  simp only [Prod.mk.injEq, decide_eq_true_eq] at found
  obtain ⟨rfl, current, joiner, magic, flag, waits, alone⟩ := found
  exact ⟨s, run, current, waits,
    (detach_right_iff s 2 magic flag).mpr ⟨current, 1, joiner, Or.inr (Or.inr waits), alone⟩⟩

theorem detach_follows_null :
    threeThreads.handle 2 = true ∧ threeThreads.kernel.currentThread = 1 ∧
      getThreadDetachState (threeThreads.kernel.threadFlags 2) = 0#32 ∧
      pthreadDetachSys 2 threeThreads.kernel = .error .nullDeref ∧ ¬threeThreads.DetachRight 2 := by
  have stops := pthreadDetachSys_null (k := threeThreads.kernel) (t := 2) (by decide +kernel)
    (by decide +kernel) (by decide +kernel)
  refine ⟨by decide +kernel, by decide +kernel, by decide +kernel, stops, ?_⟩
  rintro ⟨k, pr, ran, _⟩
  rw [stops] at ran
  cases ran

end L4ertl
