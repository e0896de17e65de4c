import L4ertl.Core.MutexLists
import L4ertl.System.Start

/-!
No mutex waiter is lost: as long as no thread goes round the lock loop while
it is still linked, every thread suspended in pthread_mutex_lock_sys stands in
the list of its mutex, once, and an unlock that frees the mutex wakes them all.
-/
namespace L4ertl
open Intrusive

/-- The mutex of the loop in pthread_mutex_lock_sys that a thread at this point is
    in, when called by the application or at the end of pthread_cond_wait_sys. -/
def Point.lockOf : Point → Option Nat
  | .lockLoop m | .condLock m => some m
  | _ => none

variable {T : Type} [DecidableEq T]

/-- The thread is inside pthread_mutex_lock_sys on `m`, having been suspended there. -/
def InLock (s : System T) (t : T) (m : Nat) : Prop :=
  ∃ w p, s.cont t = some (w, p) ∧ p.lockOf = some m

variable [Fintype T]

/-- What the move of a thread does to the lists, and the lock it is left in. -/
inductive ListMove (k x : Kernel T) : Option Nat → Prop where
  | kept (kept : ListsKept k x) : ListMove k x none
  | blocked (m : Nat) (blocked : Blocked m k x) : ListMove k x (some m)
  | released (m : Nat) (released : Released m k x) : ListMove k x none

theorem mutexLockLoop_listMove (m : Nat) (k : Kernel T) :
    ListMove k (mutexLockLoop m k).1 (if (mutexLockLoop m k).2 = .blocked then some m else none) := by
  rcases mutexLockLoop_lists m k with ⟨waits, blocked⟩ | ⟨goes, kept⟩
  · rw [if_pos waits]
    exact .blocked m blocked
  · rw [if_neg goes]
    exact .kept kept

theorem pthreadMutexLockSys_move (m : Nat) (k : Kernel T) :
    ListMove k (pthreadMutexLockSys m k).1
      ((pthreadMutexLockSys m k).2.outcome.onward.bind Point.lockOf) := by
  have move := mutexLockLoop_listMove m k
  unfold pthreadMutexLockSys
  split
  · rename_i w v loop
    rw [loop] at move
    exact move
  · rename_i w loop
    rw [loop] at move
    exact move
  · rename_i w loop
    rw [loop] at move
    exact move

theorem condRelock_move (m : Nat) (k : Kernel T) :
    ListMove k (condRelock m k).1 ((condRelock m k).2.outcome.onward.bind Point.lockOf) := by
  have move := mutexLockLoop_listMove m k
  unfold condRelock
  split
  · rename_i w v loop
    rw [loop] at move
    exact move
  · rename_i w loop
    rw [loop] at move
    exact move
  · rename_i w loop
    rw [loop] at move
    exact move

theorem pthreadMutexUnlockSys_move (m : Nat) (k : Kernel T) :
    ListMove k (pthreadMutexUnlockSys m k).1 none := by
  rw [pthreadMutexUnlockSys_kernel]
  rcases mutexUnlock_lists m k with released | kept
  · exact .released m released
  · exact .kept kept

omit [Fintype T] in
theorem blockOn_cond_state {c : Nat} {k : Kernel T} {t : T} (other : t ≠ k.currentThread) :
    (blockOn (condWaiters c) k).state t = k.state t := by
  have state := suspendThread_state k.currentThread t k
  rw [if_neg (by simp [other])] at state
  exact state

theorem pthreadCondWaitSys_move (c m : Nat) (k : Kernel T) :
    ListMove k (pthreadCondWaitSys c m k).1
      ((pthreadCondWaitSys c m k).2.outcome.onward.bind Point.lockOf) := by
  rcases pthreadCondWaitSys_cases c m k with ⟨_, eq⟩ | ⟨_, v, _, eq⟩ | ⟨_, _, eq⟩
  · rw [eq]
    exact .kept (.same rfl rfl)
  · rw [eq]
    have only := blockOn_condOnly c (mutexUnlock m k).1
    have current : (mutexUnlock m k).1.currentThread = k.currentThread :=
      (mutexUnlock_only m k).others.2.2.2.2
    rcases mutexUnlock_lists m k with released | kept
    · refine .released m ⟨?_, ?_, released.owner, ?_, ?_⟩
      · rw [only.others.2.1]
        exact released.nodes
      · rw [only.others.1]
        exact released.head
      · rw [only.others.1]
        exact released.others
      · intro t member other active
        rw [blockOn_cond_state (current ▸ other)]
        exact released.woken t member other active
    · exact .kept (kept.then only.others.2.1 only.others.1)
  · rw [eq]
    rcases mutexUnlock_lists m k with released | kept
    · exact .released m released
    · exact .kept kept

omit [DecidableEq T] [Fintype T] in
theorem lockOf_fits {w : Work T} {p : Point} {m : Nat} (fits : p.fits w)
    (locks : p.lockOf = some m) :
    w = .call (.mutexLock m) ∨ ∃ c, w = .call (.condWait c m) := by
  cases p with
  | lockLoop n =>
    cases locks
    exact Or.inl fits
  | condLock n =>
    cases locks
    exact Or.inr fits
  | _ => cases locks

omit [Fintype T] in
theorem pthreadCreateSys_lists {k : Kernel T} {addr : Option T}
    (unused : ∀ a, addr = some a → k.live a = false) (stack : Bool) (attr : Option PthreadAttr) :
    ListsKept k (pthreadCreateSys addr stack attr k).1 := by
  unfold pthreadCreateSys
  split
  · exact .same rfl rfl
  · cases addr with
    | none => exact .same rfl rfl
    | some a =>
      have created : ListsKept k (createPthreadStruct (some a) k).1 := by
        refine ⟨fun t => ?_, fun m => rfl, fun m owned => owned⟩
        simp only [createPthreadStruct, Function.update_apply]
        split
        · rename_i same
          exact Or.inr ⟨same ▸ unused a rfl, rfl⟩
        · exact Or.inl rfl
      have configured := (configureThread_only a attr (createPthreadStruct (some a) k).1).quiet.objects
      have done := created.then configured.2.1 configured.1
      simp only [createPthreadStruct]
      split
      · exact done.then rfl rfl
      · have woken := (activateThread_only a (configureThread a attr
          (createPthreadStruct (some a) k).1)).quiet.objects
        exact done.then woken.2.1 woken.1

theorem Work.run_move {w : Work T} {env : Env} {k x : Kernel T} {pr : Progress}
    (legal : w.Legal k = true) (ran : w.run env k = .ok (x, pr)) :
    ListMove k x (pr.outcome.onward.bind Point.lockOf) := by
  by_cases locks : ∃ m, w = .call (.mutexLock m)
  · obtain ⟨m, rfl⟩ := locks
    obtain ⟨rfl, rfl⟩ := ran_pair ran
    exact pthreadMutexLockSys_move m k
  by_cases waits : ∃ c m, w = .call (.condWait c m)
  · obtain ⟨c, m, rfl⟩ := waits
    obtain ⟨rfl, rfl⟩ := ran_pair ran
    exact pthreadCondWaitSys_move c m k
  -- no other call is left in a loop that takes a mutex
  have outside : pr.outcome.onward.bind Point.lockOf = none := by
    cases pr with
    | ret v => rfl
    | sched p =>
      simp only [Progress.outcome, Outcome.onward, Option.bind_some]
      cases lock : p.lockOf with
      | none => rfl
      | some m =>
        rcases lockOf_fits (Work.run_fits ran) lock with same | ⟨c, same⟩
        · exact absurd ⟨m, same⟩ locks
        · exact absurd ⟨c, m, same⟩ waits
  rw [outside]
  by_cases quiet : w.quiet = true
  · exact .kept (Work.run_quiet quiet ran).lists
  · cases w with
    | irq => exact absurd rfl quiet
    | call c =>
      cases c with
      | mutexLock m => exact absurd ⟨m, rfl⟩ locks
      | condWait c m => exact absurd ⟨c, m, rfl⟩ waits
      | mutexTrylock m =>
        obtain ⟨rfl, rfl⟩ := ran_pair ran
        exact .kept (pthreadMutexTrylockSys_lists m k)
      | mutexUnlock m =>
        obtain ⟨rfl, rfl⟩ := ran_pair ran
        exact pthreadMutexUnlockSys_move m k
      | condSignal c =>
        obtain ⟨rfl, rfl⟩ := ran_pair ran
        exact .kept (condSignal_only c k).lists
      | condBroadcast c =>
        obtain ⟨rfl, rfl⟩ := ran_pair ran
        exact .kept (drain_condOnly c k).lists
      | semWait s =>
        obtain ⟨rfl, rfl⟩ := ran_pair ran
        exact .kept (semWaitSys_only s k).lists
      | semTrywait s =>
        obtain ⟨rfl, rfl⟩ := ran_pair ran
        exact .kept (semTrywaitSys_only s k).lists
      | semPost s =>
        obtain ⟨rfl, rfl⟩ := ran_pair ran
        exact .kept (semPostSys_only s k).lists
      | create addr stack attr =>
        obtain ⟨rfl, rfl⟩ := ran_pair ran
        refine .kept (pthreadCreateSys_lists ?_ stack attr)
        intro a here
        subst here
        simpa [Work.Legal, Call.Legal] using legal
      | _ => exact absurd rfl quiet

theorem Point.run_move {p : Point} {env : Env} {k x : Kernel T} {outcome : Outcome}
    (ran : p.run env k = .ok (x, outcome)) :
    ListMove k x (outcome.onward.bind Point.lockOf) := by
  by_cases quiet : p.quiet = true
  · obtain ⟨only, _, leaving⟩ := Point.run_quiet quiet ran
    have outside : outcome.onward.bind Point.lockOf = none := by
      cases onward : outcome.onward with
      | none => rfl
      | some q =>
        have leaves := leaving q onward
        cases q <;> first | rfl | cases leaves
    rw [outside]
    exact .kept only.lists
  · cases p with
    | lockLoop m =>
      cases ran
      exact pthreadMutexLockSys_move m k
    | condWoken m =>
      cases ran
      exact condRelock_move m k
    | condLock m =>
      cases ran
      exact condRelock_move m k
    | condUnlocked c m =>
      cases ran
      exact .kept (blockOn_condOnly c k).lists
    | semWait s =>
      cases ran
      exact .kept (semTake_only s k).lists
    | semPost s =>
      cases ran
      have progress : (semGive s k).2.outcome.onward.bind Point.lockOf = none := by
        unfold semGive
        split <;> rfl
      rw [progress]
      exact .kept (semGive_only s k).lists
    | _ => exact absurd rfl quiet

def waiters (k : Kernel T) (m : Nat) : List T :=
  collect k.mutexNode (Fintype.card T) (k.mutex m).mutexList

/-- The lists `L` are those of the mutexes. A list that is not empty belongs to a
    mutex that is owned, since a release empties it. -/
structure WaitersInv (s : System T) (L : Nat → List T) : Prop where
  chain : ∀ m, Chain s.kernel.mutexNode (s.kernel.mutex m).mutexList (L m)
  nodup : ∀ m, (L m).Nodup
  apart : ∀ m n t, t ∈ L m → t ∈ L n → m = n
  free : ∀ t, (∀ m, t ∉ L m) → s.kernel.mutexNode t = detached
  owned : ∀ m, L m ≠ [] → (s.kernel.mutex m).owner ≠ none
  waiting : ∀ m t, t ∈ L m → InLock s t m
  linked : ∀ m t, InLock s t m → s.kernel.state t = suspendedThread → t ∈ L m

omit [DecidableEq T] in
theorem WaitersInv.waiters_eq {s : System T} {L : Nat → List T} (inv : WaitersInv s L) (m : Nat) :
    waiters s.kernel m = L m := by
  apply collect_segment (inv.chain m)
  exact (inv.nodup m).length_le_card

omit [Fintype T] in
theorem settle_view (s : System T) (w : Work T) (env : Env) (k : Kernel T) (outcome : Outcome) :
    (s.settle w env k outcome).1.kernel.mutexNode = k.mutexNode ∧
      (s.settle w env k outcome).1.kernel.mutex = k.mutex ∧
      ∀ t, (s.settle w env k outcome).1.kernel.state t = k.state t := by
  cases outcome with
  | ret v => exact ⟨rfl, rfl, fun _ => rfl⟩
  | next p => exact ⟨rfl, rfl, fun _ => rfl⟩
  | sched p =>
    have only := scheduling_only env.sched k
    exact ⟨only.quiet.objects.2.1, only.quiet.objects.1, only.state⟩

omit [Fintype T] in
theorem settle_inLock (s : System T) (w : Work T) (env : Env) (k : Kernel T) (outcome : Outcome)
    (t : T) (m : Nat) :
    InLock (s.settle w env k outcome).1 t m ↔
      if t = s.kernel.currentThread then outcome.onward.bind Point.lockOf = some m
      else InLock s t m := by
  constructor
  · intro inside
    obtain ⟨v, p, here, locks⟩ := inside
    rcases settle_cont here with ⟨other, before⟩ | ⟨self, _, onward | ⟨r, _, rfl⟩⟩
    · rw [if_neg other]
      exact ⟨v, p, before, locks⟩
    · rw [if_pos self, onward]
      exact locks
    · cases locks
  · intro inside
    split at inside
    · rename_i self
      subst self
      cases outcome with
      | ret v => cases inside
      | sched p => exact ⟨w, p, by simp [System.settle], inside⟩
      | next p =>
        cases p with
        | none => cases inside
        | some p => exact ⟨w, p, by simp [System.settle], inside⟩
    · rename_i other
      obtain ⟨v, p, here, locks⟩ := inside
      refine ⟨v, p, ?_, locks⟩
      cases outcome <;> simpa [System.settle, other] using here

omit [DecidableEq T] [Fintype T] in
theorem waitersInv_kept {s : System T} {L : Nat → List T} {k : Kernel T} (inv : WaitersInv s L)
    (ok : SystemOk s) (kept : ListsKept s.kernel k) :
    (∀ m, Chain k.mutexNode (k.mutex m).mutexList (L m)) ∧
      (∀ t, (∀ m, t ∉ L m) → k.mutexNode t = detached) ∧
      ∀ m, L m ≠ [] → (k.mutex m).owner ≠ none := by
  refine ⟨fun m => ?_, fun t outside => ?_, fun m busy => kept.owned m (inv.owned m busy)⟩
  · rw [kept.heads m]
    apply segment_congr _ (inv.chain m)
    intro t member
    rcases kept.nodes t with same | ⟨dead, _⟩
    · exact same
    · obtain ⟨w, p, here, _⟩ := inv.waiting m t member
      rw [ok.inside t w p here] at dead
      cases dead
  · rcases kept.nodes t with same | ⟨_, fresh⟩
    · rw [same]
      exact inv.free t outside
    · exact fresh

omit [Fintype T] in
theorem insertPthreadList_apply (n : Links T) (h : Option T) (p t : T) :
    (insertPthreadList n h p).1 t =
      if t = p then ⟨(patchPrev n h (some p) p).prev, h⟩ else patchPrev n h (some p) t := by
  simp only [insertPthreadList, setNext_apply]

omit [Fintype T] in
theorem waitersInv_blocked {s : System T} {L : Nat → List T} {k : Kernel T} {m : Nat}
    (inv : WaitersInv s L) (outside : ∀ n, s.kernel.currentThread ∉ L n)
    (blocked : Blocked m s.kernel k) :
    let L' := Function.update L m (s.kernel.currentThread :: L m)
    (∀ n, Chain k.mutexNode (k.mutex n).mutexList (L' n)) ∧ (∀ n, (L' n).Nodup) ∧
      (∀ a b t, t ∈ L' a → t ∈ L' b → a = b) ∧
      (∀ t, (∀ n, t ∉ L' n) → k.mutexNode t = detached) ∧
      ∀ n, L' n ≠ [] → (k.mutex n).owner ≠ none := by
  intro L'
  have members : ∀ n t, t ∈ L' n ↔ (n = m ∧ t = s.kernel.currentThread) ∨ t ∈ L n := by
    intro n t
    by_cases same : n = m
    · subst same
      simp [L']
    · simp [L', same]
  have cell : k.mutexNode s.kernel.currentThread = ⟨none, (s.kernel.mutex m).mutexList⟩ := by
    have notHead : (s.kernel.mutex m).mutexList ≠ some s.kernel.currentThread := by
      intro head
      rw [segment_head (inv.chain m)] at head
      exact outside m (List.mem_of_mem_head? head)
    rw [blocked.nodes, insertPthreadList_apply, if_pos rfl, patchPrev_apply, if_neg notHead,
      inv.free _ outside]
    rfl
  refine ⟨fun n => ?_, fun n => ?_, fun a b t inA inB => ?_, fun t out => ?_, fun n busy => ?_⟩
  · by_cases same : n = m
    · subst same
      simp only [L', Function.update_self, blocked.head]
      apply chain_cons (inv.chain n) (inv.nodup n) cell
      intro y member
      have apart : y ≠ s.kernel.currentThread := fun same => outside n (same ▸ member)
      rw [blocked.nodes, insertPthreadList_apply, if_neg apart]
    · simp only [L', Function.update_of_ne same, blocked.others n same]
      apply segment_congr _ (inv.chain n)
      intro y member
      have apart : y ≠ s.kernel.currentThread := fun same => outside n (same ▸ member)
      have notHead : (s.kernel.mutex m).mutexList ≠ some y := by
        intro head
        rw [segment_head (inv.chain m)] at head
        exact same (inv.apart n m y member (List.mem_of_mem_head? head))
      rw [blocked.nodes, insertPthreadList_apply, if_neg apart, patchPrev_apply, if_neg notHead]
  · by_cases same : n = m
    · subst same
      simp only [L', Function.update_self]
      exact List.nodup_cons.mpr ⟨outside n, inv.nodup n⟩
    · simp only [L', Function.update_of_ne same]
      exact inv.nodup n
  · rcases (members a t).mp inA with ⟨hereA, self⟩ | oldA
    · rcases (members b t).mp inB with ⟨hereB, _⟩ | oldB
      · rw [hereA, hereB]
      · exact absurd (self ▸ oldB) (outside b)
    · rcases (members b t).mp inB with ⟨_, self⟩ | oldB
      · exact absurd (self ▸ oldA) (outside a)
      · exact inv.apart a b t oldA oldB
  · have apart : t ≠ s.kernel.currentThread := fun same => out m ((members m t).mpr (Or.inl ⟨rfl, same⟩))
    have notHead : (s.kernel.mutex m).mutexList ≠ some t := by
      intro head
      rw [segment_head (inv.chain m)] at head
      exact out m ((members m t).mpr (Or.inr (List.mem_of_mem_head? head)))
    rw [blocked.nodes, insertPthreadList_apply, if_neg apart, patchPrev_apply, if_neg notHead]
    exact inv.free t (fun n old => out n ((members n t).mpr (Or.inr old)))
  · by_cases same : n = m
    · rw [same, blocked.owner.2]
      exact blocked.owner.1
    · rw [blocked.others n same]
      apply inv.owned n
      simpa [L', same] using busy

theorem waitersInv_released {s : System T} {L : Nat → List T} {k : Kernel T} {m : Nat}
    (inv : WaitersInv s L) (released : Released m s.kernel k) :
    let L' := Function.update L m []
    (∀ n, Chain k.mutexNode (k.mutex n).mutexList (L' n)) ∧
      (∀ t, (∀ n, t ∉ L' n) → k.mutexNode t = detached) ∧
      (∀ n, L' n ≠ [] → (k.mutex n).owner ≠ none) ∧
      ∀ t ∈ L m, t ≠ s.kernel.currentThread → s.kernel.state t ≠ finishedThread →
        k.state t = readyThread := by
  intro L'
  have enough : (L m).length < Fintype.card T + 1 := by
    have bound := (inv.nodup m).length_le_card
    omega
  obtain ⟨_, taken, gone, rest⟩ := unlinkAll_chain _ (inv.chain m) (inv.nodup m) enough
  have woken := released.woken
  rw [taken] at woken
  refine ⟨fun n => ?_, fun t out => ?_, fun n busy => ?_, woken⟩
  · by_cases same : n = m
    · subst same
      simp only [L', Function.update_self, released.head]
      rfl
    · simp only [L', Function.update_of_ne same, released.others n same]
      apply segment_congr _ (inv.chain n)
      intro y member
      rw [released.nodes]
      exact rest y (fun here => same (inv.apart n m y member here))
  · rw [released.nodes]
    by_cases here : t ∈ L m
    · exact gone t here
    · rw [rest t here]
      apply inv.free t
      intro n old
      by_cases same : n = m
      · exact here (same ▸ old)
      · exact out n (by simpa [L', same] using old)
  · by_cases same : n = m
    · subst same
      exact absurd (by simp [L']) busy
    · rw [released.others n same]
      exact inv.owned n (by simpa [L', same] using busy)

omit [DecidableEq T] [Fintype T] in
theorem still_suspended {s : System T} {k : Kernel T} {m : Nat} {t : T} (ok : SystemOk s)
    (sound : Sound s.kernel.currentThread s.kernel k) (other : t ≠ s.kernel.currentThread)
    (inside : InLock s t m) (suspended : k.state t = suspendedThread) :
    s.kernel.state t = suspendedThread := by
  obtain ⟨w, p, here, _⟩ := inside
  rcases sound.others t (ok.inside t w p here) other with same | ⟨_, ready⟩
  · rw [← same, suspended]
  · rw [suspended] at ready
    cases ready

theorem waitersInv_settle {s : System T} {L : Nat → List T} (w : Work T) (env : Env) {k : Kernel T}
    {outcome : Outcome} (inv : WaitersInv s L) (ok : SystemOk s)
    (sound : Sound s.kernel.currentThread s.kernel k)
    (outside : ∀ m, s.kernel.currentThread ∉ L m)
    (move : ListMove s.kernel k (outcome.onward.bind Point.lockOf)) :
    ∃ L', WaitersInv (s.settle w env k outcome).1 L' ∧
      ∀ m t, t ∈ L' m → t ∈ L m ∨ t = s.kernel.currentThread := by
  obtain ⟨nodes, mutexes, states⟩ := settle_view s w env k outcome
  have locked := settle_inLock s w env k outcome
  generalize next : outcome.onward.bind Point.lockOf = lock at move locked
  have waits : ∀ n t, t ∈ L n → InLock (s.settle w env k outcome).1 t n := by
    intro n t member
    have apart : t ≠ s.kernel.currentThread := fun same => outside n (same ▸ member)
    rw [locked, if_neg apart]
    exact inv.waiting n t member
  -- who sleeps in a loop, the caller apart, slept there before
  have asleep : ∀ n t, t ≠ s.kernel.currentThread → InLock (s.settle w env k outcome).1 t n →
      (s.settle w env k outcome).1.kernel.state t = suspendedThread →
      t ∈ L n ∧ s.kernel.state t = suspendedThread ∧ k.state t = suspendedThread := by
    intro n t other inside suspended
    rw [states] at suspended
    rw [locked, if_neg other] at inside
    have before := still_suspended ok sound other inside suspended
    exact ⟨inv.linked n t inside before, before, suspended⟩
  cases move with
  | kept kept =>
    obtain ⟨chain, free, owned⟩ := waitersInv_kept inv ok kept
    refine ⟨L, ⟨?_, inv.nodup, inv.apart, ?_, ?_, waits, ?_⟩, fun m t member => Or.inl member⟩
    · rw [nodes, mutexes]
      exact chain
    · rw [nodes]
      exact free
    · rw [mutexes]
      exact owned
    · intro m t inside suspended
      by_cases self : t = s.kernel.currentThread
      · rw [locked, if_pos self] at inside
        cases inside
      · exact (asleep m t self inside suspended).1
  | blocked m blocked =>
    obtain ⟨chain, nodup, apart, free, owned⟩ := waitersInv_blocked inv outside blocked
    have grown : ∀ n t, t ∈ Function.update L m (s.kernel.currentThread :: L m) n ↔
        (n = m ∧ t = s.kernel.currentThread) ∨ t ∈ L n := by
      intro n t
      by_cases same : n = m
      · subst same
        simp
      · simp [same]
    refine ⟨_, ⟨?_, nodup, apart, ?_, ?_, ?_, ?_⟩, ?_⟩
    · rw [nodes, mutexes]
      exact chain
    · rw [nodes]
      exact free
    · rw [mutexes]
      exact owned
    · intro n t member
      rcases (grown n t).mp member with ⟨rfl, rfl⟩ | old
      · rw [locked, if_pos rfl]
      · exact waits n t old
    · intro n t inside suspended
      rw [grown]
      by_cases self : t = s.kernel.currentThread
      · rw [locked, if_pos self] at inside
        cases inside
        exact Or.inl ⟨rfl, self⟩
      · exact Or.inr (asleep n t self inside suspended).1
    · intro n t member
      rcases (grown n t).mp member with ⟨_, self⟩ | old
      · exact Or.inr self
      · exact Or.inl old
  | released m released =>
    obtain ⟨chain, free, owned, woken⟩ := waitersInv_released inv released
    have shrunk : ∀ n t, t ∈ Function.update L m [] n ↔ n ≠ m ∧ t ∈ L n := by
      intro n t
      by_cases same : n = m
      · simp [same]
      · simp [same]
    refine ⟨Function.update L m [], ⟨?_, ?_, ?_, ?_, ?_, ?_, ?_⟩,
      fun n t member => Or.inl ((shrunk n t).mp member).2⟩
    · rw [nodes, mutexes]
      exact chain
    · intro n
      by_cases same : n = m
      · simp [same]
      · simpa [same] using inv.nodup n
    · intro a b t inA inB
      exact inv.apart a b t ((shrunk a t).mp inA).2 ((shrunk b t).mp inB).2
    · rw [nodes]
      exact free
    · rw [mutexes]
      exact owned
    · intro n t member
      exact waits n t ((shrunk n t).mp member).2
    · intro n t inside suspended
      by_cases self : t = s.kernel.currentThread
      · rw [locked, if_pos self] at inside
        cases inside
      · obtain ⟨old, before, still⟩ := asleep n t self inside suspended
        rw [shrunk]
        refine ⟨?_, old⟩
        rintro rfl
        -- the waiters of the mutex itself are READY by now
        have ready := woken t old self (by rw [before]; decide)
        rw [still] at ready
        cases ready

/-- A thread that goes on in the lock loop has been taken off the list before. -/
def Unlinked (s : System T) (l : Label T) : Prop :=
  ∀ env m, l = .resume env → InLock s s.kernel.currentThread m →
    s.kernel.currentThread ∉ waiters s.kernel m

omit [DecidableEq T] in
theorem WaitersInv.outside {s : System T} {L : Nat → List T} {l : Label T} (inv : WaitersInv s L)
    (unlinked : Unlinked s l)
    (moves : s.cont s.kernel.currentThread = none ∨ ∃ env, l = .resume env) (m : Nat) :
    s.kernel.currentThread ∉ L m := by
  intro member
  have inside := inv.waiting m _ member
  rcases moves with user | ⟨env, resumes⟩
  · obtain ⟨w, p, here, _⟩ := inside
    rw [user] at here
    cases here
  · apply unlinked env m resumes inside
    rw [inv.waiters_eq]
    exact member

theorem waitersInv_step {s x : System T} {L : Nat → List T} {l : Label T} {es : List (Event T)}
    (inv : WaitersInv s L) (ok : SystemOk s) (unlinked : Unlinked s l)
    (taken : s.step l = some (x, es)) : ∃ L', WaitersInv x L' := by
  rcases step_cases taken with ⟨w, env, k, pr, rfl, user, legal, ran, rfl, _⟩ |
    ⟨w, p, env, k, outcome, rfl, here, ran, rfl, _⟩
  · obtain ⟨L', next, _⟩ := waitersInv_settle w env inv ok
      (Work.run_ok ok.kernel ok.running legal ran).sound (inv.outside unlinked (Or.inl user))
      (Work.run_move legal ran)
    exact ⟨L', next⟩
  · obtain ⟨L', next, _⟩ := waitersInv_settle w env inv ok
      (Point.run_ok ok.kernel ok.running ran).sound (inv.outside unlinked (Or.inr ⟨env, rfl⟩))
      (Point.run_move ran)
    exact ⟨L', next⟩

omit [DecidableEq T] [Fintype T] in
theorem waitersInv_start {s : System T} (start : Started s) : WaitersInv s (fun _ => []) where
  chain m := (start.fresh.mutexes m).1
  nodup _ := List.nodup_nil
  apart _ _ _ member := by cases member
  free t _ := (start.fresh.nodes t).1
  owned _ busy := absurd rfl busy
  waiting _ _ member := by cases member
  linked m t inside := by
    obtain ⟨w, p, here, _⟩ := inside
    rw [start.user t] at here
    cases here

omit [Fintype T] in
theorem mutexLockLoop_owned {m n : Nat} {k : Kernel T} (owned : (k.mutex m).owner ≠ none) :
    ((mutexLockLoop n k).1.mutex m).owner ≠ none := by
  by_cases same : m = n
  · subst same
    rw [(mutexLockLoop_owner m k).2.1 owned]
    exact owned
  · rw [mutexLockLoop_other n m k same]
    exact owned

omit [Fintype T] in
theorem Point.run_owned {p : Point} {env : Env} {k x : Kernel T} {outcome : Outcome} {m : Nat}
    (ran : p.run env k = .ok (x, outcome)) (owned : (k.mutex m).owner ≠ none) :
    (x.mutex m).owner ≠ none := by
  by_cases quiet : p.quiet = true
  · rw [(Point.run_quiet quiet ran).1.objects.1]
    exact owned
  · cases p with
    | lockLoop n =>
      cases ran
      rw [pthreadMutexLockSys_kernel]
      exact mutexLockLoop_owned owned
    | condWoken n =>
      cases ran
      rw [condRelock_kernel]
      exact mutexLockLoop_owned owned
    | condLock n =>
      cases ran
      rw [condRelock_kernel]
      exact mutexLockLoop_owned owned
    | condUnlocked c n =>
      cases ran
      exact (blockOn_condOnly c k).lists.owned m owned
    | semWait n =>
      cases ran
      exact (semTake_only n k).lists.owned m owned
    | semPost n =>
      cases ran
      exact (semGive_only n k).lists.owned m owned
    | _ => exact absurd rfl quiet

theorem step_frees {s x : System T} {l : Label T} {es : List (Event T)} {m : Nat}
    (taken : s.step l = some (x, es)) (owned : (s.kernel.mutex m).owner ≠ none)
    (freed : (x.kernel.mutex m).owner = none) :
    s.cont s.kernel.currentThread = none ∧ ∃ k, Released m s.kernel k ∧
      ∀ t, x.kernel.state t = k.state t := by
  have frees : ∀ {k : Kernel T} {lock : Option Nat}, ListMove s.kernel k lock →
      (k.mutex m).owner = none → Released m s.kernel k := by
    intro k lock move empty
    cases move with
    | kept kept => exact absurd empty (kept.owned m owned)
    | blocked n blocked =>
      by_cases same : m = n
      · subst same
        rw [blocked.owner.2] at empty
        exact absurd empty owned
      · rw [blocked.others m same] at empty
        exact absurd empty owned
    | released n released =>
      by_cases same : m = n
      · rw [same]
        exact released
      · rw [released.others m same] at empty
        exact absurd empty owned
  rcases step_cases taken with ⟨w, env, k, pr, rfl, user, legal, ran, rfl, _⟩ |
    ⟨w, p, env, k, outcome, rfl, here, ran, rfl, _⟩
  · obtain ⟨_, mutexes, states⟩ := settle_view s w env k pr.outcome
    rw [mutexes] at freed
    exact ⟨user, k, frees (Work.run_move legal ran) freed, states⟩
  · obtain ⟨_, mutexes, _⟩ := settle_view s w env k outcome
    rw [mutexes] at freed
    exact absurd freed (Point.run_owned ran owned)

/-- In every state of a run in which no thread goes round the lock loop while it
    is linked: each list ends, a thread suspended in the lock of a mutex stands
    in the mutex's list once, and a step that frees a mutex makes all of them
    READY. -/
theorem mutex_waiters_kept (s x : System T) (start : Started s) (ls : List (Label T))
    (es : List (Event T)) (run : s.exec ls = some (x, es))
    (unlinked : Lts.Along System.step Unlinked s ls) :
    (∀ m, ∃ xs, Chain x.kernel.mutexNode (x.kernel.mutex m).mutexList xs ∧ xs.Nodup ∧
      ∀ t, InLock x t m → x.kernel.state t = suspendedThread → xs.count t = 1) ∧
    ∀ l z now m, x.step l = some (z, now) → (x.kernel.mutex m).owner ≠ none →
      (z.kernel.mutex m).owner = none →
      ∀ t, InLock x t m → x.kernel.state t = suspendedThread → z.kernel.state t = readyThread := by
  have reached : SystemOk x ∧ ∃ L, WaitersInv x L := by
    apply Lts.exec_keeps (fun y => SystemOk y ∧ ∃ L, WaitersInv y L) _ ls
      ⟨start.ok, _, waitersInv_start start⟩ unlinked run
    intro y l w first inv allowed taken
    obtain ⟨ok, L, waiters⟩ := inv
    exact ⟨ok.step taken, waitersInv_step waiters ok allowed taken⟩
  obtain ⟨ok, L, inv⟩ := reached
  constructor
  · intro m
    refine ⟨L m, inv.chain m, inv.nodup m, ?_⟩
    intro t inside suspended
    exact List.count_eq_one_of_mem (inv.nodup m) (inv.linked m t inside suspended)
  · intro l z now m taken owned freed t inside suspended
    obtain ⟨user, k, released, states⟩ := step_frees taken owned freed
    obtain ⟨_, _, _, woken⟩ := waitersInv_released inv released
    have other : t ≠ x.kernel.currentThread := by
      intro same
      obtain ⟨w, p, here, _⟩ := inside
      rw [same, user] at here
      cases here
    rw [states]
    exact woken t (inv.linked m t inside suspended) other (by rw [suspended]; decide)

theorem mutex_waiters_kept_one :
    let s : System (Fin 3) := startSystem 0 [(0, 1023), (1, 5), (2, 5)]
    let ls : List (Label (Fin 3)) := [.enter (.call (.mutexLock 0)) stillEnv, .resume stillEnv,
      .enter (.call .yield) stillEnv, .enter (.call (.mutexLock 0)) stillEnv]
    ∃ x es xs, s.exec ls = some (x, es) ∧ InLock x 1 0 ∧ x.kernel.state 1 = suspendedThread ∧
      Chain x.kernel.mutexNode (x.kernel.mutex 0).mutexList xs ∧ xs.count 1 = 1 := by
  intro s ls
  have final : (s.exec ls).map (fun r => (r.1.cont 1, r.1.kernel.state 1)) =
      some (some (.call (.mutexLock 0), .lockLoop 0), suspendedThread) := by decide +kernel
  obtain ⟨⟨x, es⟩, run, there⟩ := Option.map_eq_some_iff.mp final
  have inside : InLock x 1 0 := ⟨_, _, congrArg Prod.fst there, rfl⟩
  have suspended : x.kernel.state 1 = suspendedThread := congrArg Prod.snd there
  have unlinked : Lts.Along System.step Unlinked s ls := by
    refine ⟨nofun, fun a first taken => ⟨?_, fun b second _ => ?_⟩⟩
    · -- the only step inside the kernel is the way back to user mode
      have leaving : (s.step (.enter (.call (.mutexLock 0)) stillEnv)).map
          (fun r => r.1.cont r.1.kernel.currentThread) =
          some (some (.call (.mutexLock 0), .leave 1)) := by decide +kernel
      rw [taken] at leaving
      have point : a.cont a.kernel.currentThread = some (.call (.mutexLock 0), .leave 1) :=
        Option.some.inj leaving
      intro env m _ locked
      obtain ⟨w, p, here, locks⟩ := locked
      rw [point] at here
      cases here
      cases locks
    · exact ⟨nofun, fun _ _ _ => ⟨nofun, fun _ _ _ => trivial⟩⟩
  have started : Started s := startSystem_started 0 _ (by decide) 1023 (by simp)
  obtain ⟨xs, chain, _, once⟩ := (mutex_waiters_kept s x started ls es run unlinked).1 0
  exact ⟨x, es, xs, run, inside, suspended, chain, once 1 inside suspended⟩

theorem mutex_waiters_lost :
    let s : System (Fin 3) := startSystem 0 [(0, 1023), (1, 5), (2, 5)]
    ∃ x es, s.exec [.enter (.call (.mutexLock 0)) stillEnv, .resume stillEnv,
        .enter (.call .yield) stillEnv, .enter (.call (.mutexLock 0)) stillEnv,
        .resume stillEnv, .resume stillEnv, .enter (.call (.kill 1 6)) stillEnv, .resume stillEnv,
        .enter (.call .yield) stillEnv, .resume stillEnv] = some (x, es) ∧
      InLock x 1 0 ∧ x.kernel.state 1 = suspendedThread ∧
      ¬∃ xs, Chain x.kernel.mutexNode (x.kernel.mutex 0).mutexList xs ∧ xs.Nodup := by
  intro s
  have final : (s.exec [.enter (.call (.mutexLock 0)) stillEnv, .resume stillEnv,
      .enter (.call .yield) stillEnv, .enter (.call (.mutexLock 0)) stillEnv,
      .resume stillEnv, .resume stillEnv, .enter (.call (.kill 1 6)) stillEnv, .resume stillEnv,
      .enter (.call .yield) stillEnv, .resume stillEnv]).map
      (fun r => (r.1.cont 1, r.1.kernel.state 1, (r.1.kernel.mutex 0).mutexList,
        (r.1.kernel.mutexNode 1).next)) =
      some (some (.call (.mutexLock 0), .lockLoop 0), suspendedThread, some 1, some 1) := by
    decide +kernel
  obtain ⟨⟨x, es⟩, run, there⟩ := Option.map_eq_some_iff.mp final
  simp only [Prod.mk.injEq] at there
  obtain ⟨here, suspended, head, next⟩ := there
  refine ⟨x, es, run, ⟨_, _, here, rfl⟩, suspended, ?_⟩
  intro exists_
  obtain ⟨xs, chain, nodup⟩ := exists_
  rw [head] at chain
  match xs with
  | [] => cases chain
  | [a] =>
    obtain ⟨same, _, rest⟩ := chain
    cases same
    have ends : (x.kernel.mutexNode 1).next = none := rest
    rw [next] at ends
    cases ends
  | a :: b :: ys =>
    obtain ⟨same, _, same', _⟩ := chain
    cases same
    rw [next] at same'
    cases same'
    simp at nodup

end L4ertl
