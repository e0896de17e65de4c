import L4ertl.Core.Calls

/-!
What the calls of signal.c and time.c do to the rest of the kernel: beside the
timers and the signal sets they only activate threads. `Woken` says so, and says
which threads those can be; everything about a timer call that the scheduler or
the synchronisation objects need follows from it.
-/
namespace L4ertl
open Intrusive

theorem bind_ok {α β : Type} (x : Except Fault α) (f : α → Except Fault β) (r : β) :
    x.bind f = .ok r ↔ ∃ a, x = .ok a ∧ f a = .ok r := by
  cases x <;> simp [Except.bind]

def Avoids {α : Type} (fault : Fault) (x : Except Fault α) : Prop := x ≠ .error fault

theorem Avoids.bind {α β : Type} {fault : Fault} {x : Except Fault α} {f : α → Except Fault β}
    (first : Avoids fault x) (rest : ∀ a, x = .ok a → Avoids fault (f a)) : Avoids fault (x.bind f) := by
  cases x with
  | error e => exact fun eq => first (by cases eq; rfl)
  | ok a => exact rest a rfl

theorem avoids_ok {α : Type} {fault : Fault} {x : Except Fault α} (returns : ∃ r, x = .ok r) :
    Avoids fault x := by
  obtain ⟨r, eq⟩ := returns
  rw [eq]
  exact fun same => by cases same

variable {T : Type} [DecidableEq T]

/-- `w` is `k` but for error numbers, signal sets and timers. -/
def BookOnly (k w : Kernel T) : Prop :=
  w = { k with
    errno := w.errno
    sigpending := w.sigpending
    sigmask := w.sigmask
    timerArray := w.timerArray
    timerHeap := w.timerHeap
    hwtimer := w.hwtimer }

/-- From `k` to `w` by activating threads of `P` and changing what `BookOnly` lets. -/
inductive Woken (P : T → Prop) : Kernel T → Kernel T → Prop where
  | book {k w : Kernel T} (only : BookOnly k w) : Woken P k w
  | wake {k : Kernel T} (t : T) (allowed : P t) : Woken P k (activateThread t k)
  | trans {k w x : Kernel T} (first : Woken P k w) (second : Woken P w x) : Woken P k x

theorem Woken.refl (P : T → Prop) (k : Kernel T) : Woken P k k := .book rfl

def WakeOnly (k w : Kernel T) : Prop :=
  w = { k with
    threadFlags := w.threadFlags
    activeThreads := w.activeThreads
    errno := w.errno
    sigpending := w.sigpending
    sigmask := w.sigmask
    timerArray := w.timerArray
    timerHeap := w.timerHeap
    hwtimer := w.hwtimer }

theorem Woken.only {P : T → Prop} {k w : Kernel T} (woken : Woken P k w) : WakeOnly k w := by
  induction woken with
  | book only => unfold BookOnly at only; unfold WakeOnly; rw [only]
  | wake t allowed =>
    simp only [WakeOnly, activateThread, setState]
    split <;> rfl
  | trans first second one two => unfold WakeOnly at *; rw [two, one]

theorem Woken.mono {P Q : T → Prop} {k w : Kernel T} (woken : Woken P k w) (weaker : ∀ t, P t → Q t) :
    Woken Q k w := by
  induction woken with
  | book only => exact .book only
  | wake t allowed => exact .wake t (weaker t allowed)
  | trans first second one two => exact .trans one two

theorem Woken.readyInv {P : T → Prop} {k w : Kernel T} (woken : Woken P k w)
    (live : ∀ t, P t → k.live t = true) {r : ReadyModel T} (inv : ReadyInv k r) :
    ∃ r', ReadyInv w r' := by
  induction woken generalizing r with
  | book only =>
    have lists := congrArg Kernel.activeThreads only
    have alive := congrArg Kernel.live only
    have flags := congrArg Kernel.threadFlags only
    have param := congrArg Kernel.schedParam only
    exact ⟨r, inv.congr lists alive flags param⟩
  | wake t allowed =>
    obtain ⟨r', next, _⟩ := activateThread_readyInv inv (live t allowed)
    exact ⟨r', next⟩
  | trans first second one two =>
    obtain ⟨r', next⟩ := one live inv
    have alive := congrArg Kernel.live first.only
    exact two (fun t allowed => (congrFun alive t).trans (live t allowed)) next

theorem Woken.state {P : T → Prop} {k w : Kernel T} (woken : Woken P k w) (t : T) :
    w.state t = k.state t ∨ (P t ∧ k.state t ≠ finishedThread ∧ w.state t = readyThread) := by
  induction woken with
  | book only =>
    have flags := congrArg Kernel.threadFlags only
    exact Or.inl (Kernel.state_of_flags flags t)
  | wake u allowed =>
    rw [activateThread_state]
    split
    · rename_i both
      obtain ⟨rfl, active⟩ := both
      exact Or.inr ⟨allowed, active, rfl⟩
    · exact Or.inl rfl
  | trans first second one two =>
    rcases two with same | ⟨allowed, active, ready⟩
    · rw [same]
      exact one
    · rcases one with same' | ⟨allowed', active', _⟩
      · exact Or.inr ⟨allowed, same' ▸ active, ready⟩
      · exact Or.inr ⟨allowed', active', ready⟩

theorem pthreadKillSys_woken (t : T) (sig : Int) (k : Kernel T) :
    Woken (· = t) k (pthreadKillSys t sig k).1 := by
  unfold pthreadKillSys
  split
  · exact .book rfl
  · split
    · exact .book rfl
    · have posted : Woken (· = t) k (postSignal t sig k) := .book rfl
      simp only
      split
      · exact posted.trans (.wake t rfl)
      · exact posted

theorem pthreadCancelSys_woken (t : T) (k : Kernel T) :
    Woken (· = t) k (pthreadCancelSys t k).1 := by
  unfold pthreadCancelSys
  split
  · exact .book rfl
  · exact pthreadKillSys_woken t cancelSignal k

def OwnsTimer (k : Kernel T) (t : T) : Prop := ∃ i, (k.timerArray i).owner = some t

def OwnersKept (k w : Kernel T) : Prop :=
  ∀ i, (w.timerArray i).owner = (k.timerArray i).owner ∧
    (w.timerArray i).action = (k.timerArray i).action

section
omit [DecidableEq T]

theorem OwnersKept.refl (k : Kernel T) : OwnersKept k k := fun _ => ⟨rfl, rfl⟩

theorem OwnersKept.trans {k w x : Kernel T} (first : OwnersKept k w) (second : OwnersKept w x) :
    OwnersKept k x :=
  fun i => ⟨(second i).1.trans (first i).1, (second i).2.trans (first i).2⟩

theorem OwnersKept.owns {k w : Kernel T} (kept : OwnersKept k w) {t : T} (owns : OwnsTimer w t) :
    OwnsTimer k t := by
  obtain ⟨i, owner⟩ := owns
  exact ⟨i, (kept i).1.symm.trans owner⟩

theorem setTimer_owners {i : Nat} {x : Ktimer T} {k : Kernel T}
    (owner : x.owner = (k.timerArray i).owner) (action : x.action = (k.timerArray i).action) :
    OwnersKept k (setTimer i x k) := by
  intro j
  simp only [setTimer, Function.update_apply]
  split
  · rename_i same
    rw [same]
    exact ⟨owner, action⟩
  · exact ⟨rfl, rfl⟩

theorem freeKtimer_book {id : Int} {k w : Kernel T} (ok : freeKtimer id k = .ok w) :
    BookOnly k w ∧ OwnersKept k w := by
  simp only [freeKtimer, bind, bind_ok, pure, Except.pure, Except.ok.injEq] at ok
  obtain ⟨i, _, h, _, rfl⟩ := ok
  exact ⟨rfl, setTimer_owners rfl rfl⟩

theorem disarmTimer_book {id : Int} {k w : Kernel T} (ok : disarmTimer id k = .ok w) :
    BookOnly k w ∧ OwnersKept k w := by
  simp only [disarmTimer, bind, bind_ok, pure, Except.pure, Except.ok.injEq] at ok
  obtain ⟨i, _, h, _, rfl⟩ := ok
  exact ⟨rfl, setTimer_owners rfl rfl⟩

theorem setAbstime_owners (i : Nat) (flags : Word) (k : Kernel T) :
    OwnersKept k (setAbstime i flags k) := setTimer_owners rfl rfl

theorem armTimer_book {now : Clocks} {id : Int} {value interval : Duration} {k w : Kernel T} {v : Int}
    (ok : armTimer now id value interval k = .ok (w, v)) : BookOnly k w ∧ OwnersKept k w := by
  simp only [armTimer, bind, bind_ok, pure, Except.pure] at ok
  obtain ⟨i, _, ok⟩ := ok
  split at ok
  · cases ok
    exact ⟨rfl, .refl k⟩
  · rw [bind_ok] at ok
    obtain ⟨expiry, _, ok⟩ := ok
    rw [bind_ok] at ok
    obtain ⟨h, _, ok⟩ := ok
    cases ok
    exact ⟨rfl, setTimer_owners (k := k) rfl rfl⟩

end

theorem pthreadKillSys_timers (t : T) (sig : Int) (k : Kernel T) :
    (pthreadKillSys t sig k).1.timerArray = k.timerArray ∧
      (pthreadKillSys t sig k).1.timerHeap = k.timerHeap := by
  unfold pthreadKillSys
  split
  · exact ⟨rfl, rfl⟩
  · split
    · exact ⟨rfl, rfl⟩
    · simp only
      split
      · have only := activateThread_only t (postSignal t sig k)
        have table := congrArg Kernel.timerArray only
        have heap := congrArg Kernel.timerHeap only
        exact ⟨table, heap⟩
      · exact ⟨rfl, rfl⟩

theorem suspendThread_timers (t : T) (k : Kernel T) :
    (suspendThread t k).timerArray = k.timerArray ∧ (suspendThread t k).timerHeap = k.timerHeap := by
  have table := congrArg Kernel.timerArray (suspendThread_only t k)
  have heap := congrArg Kernel.timerHeap (suspendThread_only t k)
  exact ⟨table, heap⟩

theorem timerAct_owned {x : Ktimer T} {t : T} (owner : x.owner = some t) (k : Kernel T) :
    ∃ w, timerAct x k = .ok (w, needReesched) := by
  unfold timerAct
  rw [owner]
  cases x.action with
  | wakeup => exact ⟨_, rfl⟩
  | kill => exact ⟨_, rfl⟩

theorem timerAct_timers {x : Ktimer T} {k w : Kernel T} {v : Int} (ok : timerAct x k = .ok (w, v)) :
    w.timerArray = k.timerArray ∧ w.timerHeap = k.timerHeap := by
  unfold timerAct at ok
  split at ok
  · rename_i t _ _
    cases ok
    have table := congrArg Kernel.timerArray (activateThread_only t k)
    have heap := congrArg Kernel.timerHeap (activateThread_only t k)
    exact ⟨table, heap⟩
  · cases ok
  · rename_i t _ _
    cases ok
    exact pthreadKillSys_timers t x.signo k
  · cases ok
    exact ⟨rfl, rfl⟩

theorem timerAct_woken {x : Ktimer T} {k w : Kernel T} {v : Int} (ok : timerAct x k = .ok (w, v)) :
    Woken (fun t => x.owner = some t) k w ∧ v = needReesched := by
  unfold timerAct at ok
  split at ok
  · rename_i t _ owner
    cases ok
    exact ⟨.wake t owner, rfl⟩
  · cases ok
  · rename_i t _ owner
    cases ok
    exact ⟨(pthreadKillSys_woken t x.signo k).mono (fun u same => same ▸ owner), rfl⟩
  · cases ok
    exact ⟨.book rfl, rfl⟩

omit [DecidableEq T] in
theorem rearmTimer_cases {ctime : Duration} {i : Nat} {k w : Kernel T}
    (ran : rearmTimer ctime i k = .ok w) :
    (repeats (k.timerArray i) k = .ok true ∧ ∃ x h v,
      x = { k.timerArray i with timerValue := (k.timerArray i).timerInterval + ctime } ∧
      heapInsert (Function.update k.timerArray i x) k.timerHeap i = .ok (h, v) ∧
      w = { setTimer i x k with timerHeap := h }) ∨
    (repeats (k.timerArray i) k = .ok false ∧
      w = setTimer i { k.timerArray i with flags := (k.timerArray i).flags &&& ~~~timerArmed } k) := by
  simp only [rearmTimer, bind, bind_ok, pure, Except.pure] at ran
  obtain ⟨again, asked, ran⟩ := ran
  cases again with
  | true =>
    simp only [if_true, bind_ok, Except.ok.injEq, Prod.exists] at ran
    obtain ⟨h, v, inserted, rfl⟩ := ran
    exact Or.inl ⟨asked, _, h, v, rfl, inserted, rfl⟩
  | false =>
    cases ran
    exact Or.inr ⟨asked, rfl⟩

omit [DecidableEq T] in
theorem rearmTimer_book {ctime : Duration} {i : Nat} {k w : Kernel T}
    (ok : rearmTimer ctime i k = .ok w) : BookOnly k w ∧ OwnersKept k w := by
  rcases rearmTimer_cases ok with ⟨_, _, h, _, rfl, _, rfl⟩ | ⟨_, rfl⟩
  · exact ⟨rfl, setTimer_owners (k := k) rfl rfl⟩
  · exact ⟨rfl, setTimer_owners rfl rfl⟩

theorem serveTimer_parts {ctime : Duration} {i : Nat} {k w : Kernel T} {v : Int}
    (ran : serveTimer ctime i k = .ok (w, v)) :
    ∃ acted h min, timerAct (k.timerArray i) k = .ok (acted, v) ∧
      heapRemoveMin acted.timerArray acted.timerHeap = .ok (h, min) ∧
      rearmTimer ctime i { acted with timerHeap := h } = .ok w := by
  simp only [serveTimer, bind, bind_ok, pure, Except.pure, Except.ok.injEq, Prod.mk.injEq,
    Prod.exists] at ran
  obtain ⟨acted, action, act, h, min, removed, rearmed, rearm, rfl, rfl⟩ := ran
  exact ⟨acted, h, min, act, removed, rearm⟩

theorem serveTimer_woken {ctime : Duration} {i : Nat} {k w : Kernel T} {v : Int}
    (ok : serveTimer ctime i k = .ok (w, v)) :
    Woken (fun t => (k.timerArray i).owner = some t) k w ∧ OwnersKept k w ∧ v = needReesched := by
  obtain ⟨acted, h, _, act, _, rearm⟩ := serveTimer_parts ok
  obtain ⟨woken, due⟩ := timerAct_woken act
  obtain ⟨only, kept⟩ := rearmTimer_book rearm
  refine ⟨woken.trans (Woken.trans (.book ?_) (.book only)), ?_, due⟩
  · rfl
  · intro j
    have kept' := kept j
    rw [show ({ acted with timerHeap := h } : Kernel T).timerArray = k.timerArray from
      (timerAct_timers act).1] at kept'
    exact kept'

theorem updateLoop_invariant {P : TimerRound T → Prop} (fuel : Nat) {now : Nat → Clocks}
    (round : ∀ (r : TimerRound T) (n i : Nat) (ctime : Duration) (k : Kernel T) (action : Int)
      (top : Option (Nat × Duration)), P r → r.top = some (i, ctime) →
      judgedDue (r.kernel.timerArray i).timerValue ctime = true →
      serveTimer ctime i r.kernel = .ok (k, action) → nextTimer (now n) k = .ok top →
      P ⟨k, top, action, r.served ++ [i]⟩)
    {r q : TimerRound T} (start : P r) (ran : updateLoop fuel now r = .ok q) : P q := by
  induction fuel generalizing now r with
  | zero => cases ran
  | succ fuel ih =>
    unfold updateLoop at ran
    split at ran
    · cases ran
      exact start
    · rename_i i ctime first
      split at ran
      · rename_i due
        simp only [bind, bind_ok, Prod.exists] at ran
        obtain ⟨k, action, served, top, looked, rest⟩ := ran
        have next := round r 0 i ctime k action top start first due served looked
        exact ih (fun r n => round r (n + 1)) next rest
      · cases ran
        exact start

theorem updateHwtimer_loop {fuel : Nat} {now : Nat → Clocks} {k : Kernel T} {r : TimerRound T}
    (ran : updateHwtimer fuel now k = .ok r) :
    ∃ top q d, nextTimer (now 0) k = .ok (some top) ∧
      updateLoop fuel (fun n => now (n + 1)) ⟨k, some top, 0, []⟩ = .ok q ∧
      r = { q with kernel := { q.kernel with hwtimer := d } } := by
  simp only [updateHwtimer, bind, bind_ok] at ran
  obtain ⟨top, looked, ran⟩ := ran
  split at ran
  · cases ran
  · rename_i first
    rw [bind_ok] at ran
    obtain ⟨q, looped, ran⟩ := ran
    split at ran
    · cases ran
      exact ⟨first, r, r.kernel.hwtimer, looked, looped, rfl⟩
    · cases ran
      exact ⟨first, q, _, looked, looped, rfl⟩

theorem updateLoop_woken (fuel : Nat) {now : Nat → Clocks} {r q : TimerRound T}
    (ok : updateLoop fuel now r = .ok q) :
    Woken (OwnsTimer r.kernel) r.kernel q.kernel ∧ OwnersKept r.kernel q.kernel := by
  refine updateLoop_invariant
    (P := fun q => Woken (OwnsTimer r.kernel) r.kernel q.kernel ∧ OwnersKept r.kernel q.kernel)
    fuel ?_ ⟨.refl _ _, .refl _⟩ ok
  intro q n i ctime k action top inv _ _ served _
  obtain ⟨woken, kept⟩ := inv
  obtain ⟨woken', kept', _⟩ := serveTimer_woken served
  refine ⟨woken.trans (woken'.mono fun t owner => ?_), kept.trans kept'⟩
  exact kept.owns ⟨i, owner⟩

theorem updateHwtimer_woken {fuel : Nat} {now : Nat → Clocks} {k : Kernel T} {r : TimerRound T}
    (ok : updateHwtimer fuel now k = .ok r) :
    Woken (OwnsTimer k) k r.kernel ∧ OwnersKept k r.kernel := by
  obtain ⟨top, q, d, _, looped, rfl⟩ := updateHwtimer_loop ok
  obtain ⟨woken, kept⟩ := updateLoop_woken fuel looped
  exact ⟨woken.trans (.book rfl), kept⟩

/-- `w` is `k` but for the scheduler's, the timers' and the signals' data: the
    synchronisation objects and the thread table are untouched. -/
def QuietOnly (k w : Kernel T) : Prop :=
  w = { k with
    threadFlags := w.threadFlags
    schedParam := w.schedParam
    activeThreads := w.activeThreads
    kstackFlag := w.kstackFlag
    kentrySp := w.kentrySp
    errno := w.errno
    sigpending := w.sigpending
    sigmask := w.sigmask
    timerArray := w.timerArray
    timerHeap := w.timerHeap
    hwtimer := w.hwtimer
    irqNestingCounter := w.irqNestingCounter
    currentThread := w.currentThread
    usedTime := w.usedTime
    startingTime := w.startingTime }

section
omit [DecidableEq T]

theorem QuietOnly.trans {k w x : Kernel T} (first : QuietOnly k w) (second : QuietOnly w x) :
    QuietOnly k x := by
  unfold QuietOnly at *
  rw [second, first]

theorem BookOnly.quiet {k w : Kernel T} (only : BookOnly k w) : QuietOnly k w := by
  unfold BookOnly at only
  unfold QuietOnly
  rw [only]

theorem SchedOnly.quiet {k w : Kernel T} (only : SchedOnly k w) : QuietOnly k w := by
  unfold SchedOnly at only
  unfold QuietOnly
  rw [only]

theorem SwitchOnly.quiet {k w : Kernel T} (only : SwitchOnly k w) : QuietOnly k w := by
  unfold SwitchOnly at only
  unfold QuietOnly
  rw [only]

theorem WakeOnly.quiet {k w : Kernel T} (only : WakeOnly k w) : QuietOnly k w := by
  unfold WakeOnly at only
  unfold QuietOnly
  rw [only]

theorem timerCreateSys_book {clockid : Int} {evp : Option Int} {k w : Kernel T} {v : Int}
    [DecidableEq T] (ok : timerCreateSys clockid evp k = .ok (w, v)) : BookOnly k w := by
  unfold timerCreateSys at ok
  split at ok
  · cases ok
    rfl
  · simp only [bind, pure, Except.pure] at ok
    split at ok
    · cases ok
      rfl
    · rw [bind_ok] at ok
      obtain ⟨i, _, ok⟩ := ok
      cases ok
      rfl

theorem timerDeleteSys_book {id : Int} {k w : Kernel T} {v : Int} [DecidableEq T]
    (ok : timerDeleteSys id k = .ok (w, v)) : BookOnly k w := by
  simp only [timerDeleteSys, bind, bind_ok, pure, Except.pure] at ok
  obtain ⟨unused, _, ok⟩ := ok
  split at ok
  · cases ok
    rfl
  · rw [bind_ok] at ok
    obtain ⟨x, freed, ok⟩ := ok
    cases ok
    exact (freeKtimer_book freed).1

end

omit [DecidableEq T] in
theorem disarmIfArmed_book {id : Int} {x : Ktimer T} {k w : Kernel T}
    (ok : disarmIfArmed id x k = .ok w) : BookOnly k w ∧ OwnersKept k w := by
  unfold disarmIfArmed at ok
  split at ok
  · exact disarmTimer_book ok
  · cases ok
    exact ⟨rfl, .refl k⟩

theorem timerSettimeSys_cases {fuel : Nat} {now : Nat → Clocks} {id : Int} {flags : Word}
    {value : Option Itimerspec} {k w : Kernel T} {v : Int} {o : Option Itimerspec}
    (ran : timerSettimeSys fuel now id flags value k = .ok (w, v, o)) :
    (timerUnused id k = .ok true ∧ w = setErrno eagain k) ∨
    (timerUnused id k = .ok false ∧ ∃ i disarmed, timerAt id = .ok i ∧
      disarmIfArmed id (k.timerArray i) k = .ok disarmed ∧
      (w = setAbstime i flags disarmed ∨
        ∃ x armed e r, value = some x ∧ x.itValue.tvSec ||| x.itValue.tvNsec ≠ 0#32 ∧
          armTimer (now 0) id x.itValue.nsecs x.itInterval.nsecs (setAbstime i flags disarmed) =
            .ok (armed, e) ∧
          updateHwtimer fuel (fun n => now (n + 1)) armed = .ok r ∧ w = r.kernel)) := by
  simp only [timerSettimeSys, bind, bind_ok, pure, Except.pure] at ran
  obtain ⟨unused, test, ran⟩ := ran
  cases unused with
  | true =>
    cases ran
    exact Or.inl ⟨test, rfl⟩
  | false =>
    simp only [Bool.false_eq_true, if_false, bind_ok] at ran
    obtain ⟨i, at_, disarmed, disarm, ran⟩ := ran
    refine Or.inr ⟨test, i, disarmed, at_, disarm, ?_⟩
    split at ran
    · cases ran
      exact Or.inl rfl
    · rename_i x
      split at ran
      · cases ran
        exact Or.inl rfl
      · rename_i some_
        simp only [bind_ok, Prod.exists] at ran
        obtain ⟨armed, e, arm, r, update, ran⟩ := ran
        cases ran
        exact Or.inr ⟨x, armed, e, r, rfl, some_, arm, update, rfl⟩

theorem timerSettimeSys_woken {fuel : Nat} {now : Nat → Clocks} {id : Int} {flags : Word}
    {value : Option Itimerspec} {k w : Kernel T} {v : Int} {o : Option Itimerspec}
    (ok : timerSettimeSys fuel now id flags value k = .ok (w, v, o)) :
    Woken (OwnsTimer k) k w ∧ OwnersKept k w := by
  rcases timerSettimeSys_cases ok with ⟨_, rfl⟩ | ⟨_, i, disarmed, _, disarm, rest⟩
  · exact ⟨.book rfl, .refl k⟩
  · obtain ⟨only, kept⟩ := disarmIfArmed_book disarm
    have first : Woken (OwnsTimer k) k (setAbstime i flags disarmed) :=
      Woken.trans (.book only) (.book rfl)
    have marked := kept.trans (setAbstime_owners i flags disarmed)
    rcases rest with rfl | ⟨x, armed, _, r, _, _, arm, update, rfl⟩
    · exact ⟨first, marked⟩
    · obtain ⟨armOnly, armKept⟩ := armTimer_book arm
      obtain ⟨woken, served⟩ := updateHwtimer_woken update
      have owners := marked.trans armKept
      exact ⟨(first.trans (.book armOnly)).trans (woken.mono fun t => owners.owns),
        owners.trans served⟩

theorem sleepFor_woken {fuel : Nat} {now : Nat → Clocks} {d : Duration} {k w : Kernel T}
    (ok : sleepFor fuel now d k = .ok w) :
    ∃ armed, BookOnly k armed ∧ OwnersKept k armed ∧
      Woken (OwnsTimer k) (suspendThread k.currentThread armed) w ∧ OwnersKept k w := by
  simp only [sleepFor, bind, bind_ok, pure, Except.pure, Prod.exists] at ok
  obtain ⟨armed, _, arm, r, update, ok⟩ := ok
  cases ok
  obtain ⟨only, kept⟩ := armTimer_book arm
  obtain ⟨woken, served⟩ := updateHwtimer_woken update
  have asleep : OwnersKept armed (suspendThread k.currentThread armed) := by
    intro i
    rw [(suspendThread_timers k.currentThread armed).1]
    exact ⟨rfl, rfl⟩
  have owners := kept.trans asleep
  exact ⟨armed, only, kept, woken.mono fun t => owners.owns, owners.trans served⟩

theorem pthreadExitSys_freed {k w : Kernel T} (ok : pthreadExitSys k = .ok w) :
    ∃ freed, freeKtimer (k.sleepKtimer k.currentThread) k = .ok freed ∧
      w.timerArray = freed.timerArray ∧
      Woken (fun t => k.joiningThread k.currentThread = some t)
        (finishThread k.currentThread freed) w := by
  simp only [pthreadExitSys, bind, bind_ok, pure, Except.pure] at ok
  obtain ⟨freed, free, ok⟩ := ok
  obtain ⟨only, _⟩ := freeKtimer_book free
  have finished := finishThread_only k.currentThread freed
  have timers := congrArg Kernel.timerArray finished
  refine ⟨freed, free, ?_⟩
  split at ok
  · rename_i joiner waits
    cases ok
    have joins : k.joiningThread k.currentThread = some joiner := by
      rw [← waits, congrArg Kernel.joiningThread finished, congrArg Kernel.joiningThread only]
    split
    · exact ⟨(congrArg Kernel.timerArray (activateThread_only joiner _)).trans timers,
        .wake joiner joins⟩
    · exact ⟨timers, .refl _ _⟩
  · cases ok
    exact ⟨timers, .refl _ _⟩

theorem pthreadExitSys_woken {k w : Kernel T} (ok : pthreadExitSys k = .ok w) :
    ∃ freed, BookOnly k freed ∧ OwnersKept k freed ∧ w.timerArray = freed.timerArray ∧
      Woken (fun t => k.joiningThread k.currentThread = some t)
        (finishThread k.currentThread freed) w := by
  obtain ⟨freed, free, timers, woken⟩ := pthreadExitSys_freed ok
  obtain ⟨only, kept⟩ := freeKtimer_book free
  exact ⟨freed, only, kept, timers, woken⟩

/-- What a handler that gives up the processor has done to the current thread. -/
inductive Stopped : Kernel T → Kernel T → Prop where
  | exited {k w : Kernel T} (ok : pthreadExitSys k = .ok w) : Stopped k w
  | slept {k : Kernel T} : Stopped k (suspendThread k.currentThread k)

theorem runHandler_stopped {signal : Nat} {k w : Kernel T} {switch : Bool}
    (ok : runHandler signal k = .ok (w, switch)) :
    if switch then Stopped k w else w = k := by
  unfold runHandler at ok
  split at ok
  · simp only [bind, bind_ok, pure, Except.pure, Except.ok.injEq, Prod.mk.injEq] at ok
    obtain ⟨x, exited, rfl, rfl⟩ := ok
    exact .exited exited
  · split at ok
    · cases ok
      exact .slept
    · cases ok
      rfl

structure SigOnly (k w : Kernel T) : Prop where
  only : w = { k with sigmask := w.sigmask, sigpending := w.sigpending }
  none : ∀ t, k.sigpending t = 0#32 → w.sigpending t = 0#32

section
omit [DecidableEq T]

theorem SigOnly.trans {k w x : Kernel T} (first : SigOnly k w) (second : SigOnly w x) :
    SigOnly k x where
  only := by rw [second.only, first.only]
  none t empty := second.none t (first.none t empty)

theorem SigOnly.book {k w : Kernel T} (sig : SigOnly k w) : BookOnly k w := by
  unfold BookOnly
  rw [sig.only]

theorem SigOnly.owners {k w : Kernel T} (sig : SigOnly k w) : OwnersKept k w := by
  intro i
  have timers := congrArg Kernel.timerArray sig.only
  rw [timers]
  exact ⟨rfl, rfl⟩

theorem sigmask_only (k : Kernel T) (masks : T → Word) : SigOnly k { k with sigmask := masks } :=
  ⟨rfl, fun _ empty => empty⟩

end

theorem takeSignals_only (k : Kernel T) : SigOnly k (takeSignals k).1 := by
  refine ⟨rfl, fun t empty => ?_⟩
  simp only [takeSignals, Function.update_apply]
  split
  · rename_i same
    rw [same] at empty
    simp [empty, unblocked]
  · exact empty

/-- The calls of do_signals: the delivery loop comes to its end, or leaves off
    after a handler that stopped the thread. -/
inductive Delivered (rounds : Nat) (k : Kernel T) : Kernel T → Option Point → Prop where
  | ended {w : Kernel T} (sig : SigOnly k w) : Delivered rounds k w none
  | stopped {x w : Kernel T} (mask : Word) (next : Nat) (rest : Word) (sig : SigOnly k x)
      (stopped : Stopped x w) : Delivered rounds k w (some (.signals mask next rest rounds))

theorem Delivered.after {rounds : Nat} {k x w : Kernel T} {p : Option Point} (sig : SigOnly k x)
    (delivered : Delivered rounds x w p) : Delivered rounds k w p := by
  cases delivered with
  | ended later => exact .ended (sig.trans later)
  | stopped mask next rest later stop => exact .stopped mask next rest (sig.trans later) stop

theorem signalLoop_delivered (n : Nat) {oldSigmask : Word} {rounds signal : Nat} {sigpend : Word}
    {k w : Kernel T} {p : Option Point}
    (ok : signalLoop oldSigmask rounds n signal sigpend k = .ok (w, p)) :
    Delivered rounds k w p := by
  induction n generalizing signal sigpend k with
  | zero =>
    cases ok
    exact .ended (sigmask_only k _)
  | succ n ih =>
    unfold signalLoop at ok
    split at ok
    · cases ok
      exact .ended (sigmask_only k _)
    · simp only at ok
      split at ok
      · simp only [bind, bind_ok, pure, Except.pure, Prod.exists] at ok
        obtain ⟨x, switch, handled, ok⟩ := ok
        have effect := runHandler_stopped handled
        cases switch with
        | true =>
          cases ok
          exact .stopped _ _ _ (sigmask_only k _) effect
        | false =>
          subst effect
          exact (ih ok).after (sigmask_only k _)
      · exact (ih ok).after (sigmask_only k _)

theorem doSignals_delivered {rounds : Nat} {k w : Kernel T} {p : Option Point}
    (ok : doSignals rounds k = .ok (w, p)) : Delivered rounds k w p := by
  unfold doSignals at ok
  exact (signalLoop_delivered 32 ok).after (takeSignals_only k)

theorem signalLoop_none (n : Nat) {oldSigmask : Word} {rounds signal : Nat} {k w : Kernel T}
    {p : Option Point} (ok : signalLoop oldSigmask rounds n signal 0#32 k = .ok (w, p)) :
    p = none := by
  cases n with
  | zero =>
    cases ok
    rfl
  | succ n =>
    unfold signalLoop at ok
    rw [if_pos rfl] at ok
    cases ok
    rfl

theorem doSignals_none {rounds : Nat} {k w : Kernel T} {p : Option Point}
    (empty : k.sigpending k.currentThread = 0#32) (ok : doSignals rounds k = .ok (w, p)) :
    p = none := by
  have nothing : (takeSignals k).2 = 0#32 := by simp [takeSignals, unblocked, empty]
  have loop : signalLoop (k.sigmask k.currentThread) rounds 32 0 (takeSignals k).2
      (takeSignals k).1 = .ok (w, p) := ok
  rw [nothing] at loop
  exact signalLoop_none 32 loop

theorem Stopped.quiet {k w : Kernel T} (stopped : Stopped k w) : QuietOnly k w := by
  cases stopped with
  | exited ok =>
    obtain ⟨freed, only, _, _, woken⟩ := pthreadExitSys_woken ok
    exact (only.quiet.trans (finishThread_only _ freed).quiet).trans woken.only.quiet
  | slept => exact (suspendThread_only _ k).quiet

end L4ertl
