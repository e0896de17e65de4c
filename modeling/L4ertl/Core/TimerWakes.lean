import L4ertl.Core.Expiry

/-!
Which threads the timers of a call wake: the owners of timers on the heap that
pass the expiry test at one of its readings, when the action of the timer
reaches them.
-/
namespace L4ertl
open BinaryHeap
variable {T : Type} [DecidableEq T]

def Hears (k : Kernel T) (t : T) (sig : Int) : Prop :=
  k.magicNumber t = pthreadMagicNumber ∧ 0 ≤ sig ∧ sig < nrsignals ∧
    signalWakes (postSignal t sig k) t = true

def Ktimer.Wakes (x : Ktimer T) (k : Kernel T) (t : T) : Prop :=
  x.owner = some t ∧ k.state t ≠ finishedThread ∧ (x.action = .wakeup ∨ Hears k t x.signo)

theorem Woken.wakeIf {P : T → Prop} {k : Kernel T} {t : T}
    (allowed : k.state t ≠ finishedThread → P t) : Woken P k (activateThread t k) := by
  by_cases ended : k.state t = finishedThread
  · rw [activateThread_keeps (fun wake => wake.1 ended)]
    exact .refl P k
  · exact .wake t (allowed ended)

theorem pthreadKillSys_wakes {P : T → Prop} {t : T} {sig : Int} {k : Kernel T}
    (allowed : k.state t ≠ finishedThread → Hears k t sig → P t) :
    Woken P k (pthreadKillSys t sig k).1 := by
  unfold pthreadKillSys
  split
  · exact .book rfl
  · rename_i magic
    rw [not_not] at magic
    split
    · exact .book rfl
    · rename_i range
      have posted : Woken P k (postSignal t sig k) := .book rfl
      simp only
      split
      · rename_i wakes
        exact posted.trans (.wakeIf fun active => allowed active ⟨magic, by omega, by omega, wakes⟩)
      · exact posted

theorem timerAct_wakes {P : T → Prop} {x : Ktimer T} {k w : Kernel T} {v : Int}
    (allowed : ∀ t, x.Wakes k t → P t) (ran : timerAct x k = .ok (w, v)) : Woken P k w := by
  unfold timerAct at ran
  split at ran
  · rename_i t action owner
    cases ran
    exact .wakeIf fun active => allowed t ⟨owner, active, Or.inl action⟩
  · cases ran
  · rename_i t action owner
    cases ran
    exact pthreadKillSys_wakes fun active hears => allowed t ⟨owner, active, Or.inr hears⟩
  · cases ran
    exact .book rfl

theorem unblocked_or (mask p q : Word) :
    unblocked mask (p ||| q) = unblocked mask p ||| unblocked mask q := by
  unfold unblocked
  exact BitVec.and_or_distrib_left

theorem getThreadActivateOnSignal_set (flags state : Word) :
    getThreadActivateOnSignal (setThreadState flags state) = getThreadActivateOnSignal flags := by
  have part : ∀ f, getThreadActivateOnSignal f = otherFlags f &&& 0x400#32 := by
    intro f
    rw [otherFlags, BitVec.and_assoc]
    rfl
  rw [part, part, otherFlags_set]

structure Alike (t : T) (k w : Kernel T) : Prop where
  ended : k.state t = finishedThread → w.state t = finishedThread
  magic : w.magicNumber t = k.magicNumber t
  mask : w.sigmask t = k.sigmask t
  pending : w.sigpending t = k.sigpending t
  flag : getThreadActivateOnSignal (w.threadFlags t) = getThreadActivateOnSignal (k.threadFlags t)

theorem Alike.hears {t : T} {k w : Kernel T} (alike : Alike t k w) {sig : Int} (hears : Hears w t sig) :
    Hears k t sig := by
  obtain ⟨magic, low, high, wakes⟩ := hears
  refine ⟨alike.magic ▸ magic, low, high, ?_⟩
  simp only [signalWakes, postSignal, Function.update_self] at wakes ⊢
  rw [alike.mask, alike.pending, alike.flag] at wakes
  exact wakes

theorem setState_activate (t u : T) (state : Word) (k : Kernel T) :
    getThreadActivateOnSignal ((setState t state k).threadFlags u) =
      getThreadActivateOnSignal (k.threadFlags u) := by
  simp only [setState, Function.update_apply]
  split
  · rename_i same
    rw [same, getThreadActivateOnSignal_set]
  · rfl

theorem activateThread_alike (t u : T) (k : Kernel T) : Alike u k (activateThread t k) := by
  have only := activateThread_only t k
  have magic := congrArg Kernel.magicNumber only
  have mask := congrArg Kernel.sigmask only
  have pending := congrArg Kernel.sigpending only
  refine ⟨fun ended => ?_, congrFun magic u, congrFun mask u, congrFun pending u, ?_⟩
  · rw [activateThread_state]
    split
    · rename_i both
      exact absurd (both.1 ▸ ended) both.2
    · exact ended
  · unfold activateThread
    split
    · rw [setState_activate]
    · rfl

theorem hears_after {t : T} {k : Kernel T} {sig s : Int} (deaf : signalWakes (postSignal t sig k) t = false)
    (hears : Hears (postSignal t sig k) t s) : Hears k t s := by
  obtain ⟨magic, low, high, wakes⟩ := hears
  refine ⟨magic, low, high, ?_⟩
  simp only [signalWakes, postSignal, Function.update_self, unblocked_or, Bool.or_eq_true,
    bne_iff_ne, Bool.or_eq_false_iff, bne_eq_false_iff_eq] at deaf wakes ⊢
  obtain ⟨silent, flag⟩ := deaf
  rw [silent, BitVec.zero_or] at wakes
  rcases wakes with heard | flagged
  · left
    intro none_
    exact heard (BitVec.or_eq_zero_iff.mp none_).2
  · exact absurd flag flagged

theorem Alike.wakes {t : T} {k w : Kernel T} (alike : Alike t k w) {x : Ktimer T} (wakes : x.Wakes w t) :
    x.Wakes k t := by
  obtain ⟨owner, active, how⟩ := wakes
  exact ⟨owner, fun ended => active (alike.ended ended), how.imp_right alike.hears⟩

theorem pthreadKillSys_hears {t u : T} {sig : Int} {k : Kernel T} {y : Ktimer T}
    (wakes : y.Wakes (pthreadKillSys t sig k).1 u) :
    y.Wakes k u ∨ (u = t ∧ k.state t ≠ finishedThread ∧ Hears k t sig) := by
  unfold pthreadKillSys at wakes
  split at wakes
  · exact Or.inl wakes
  · rename_i magic
    rw [not_not] at magic
    split at wakes
    · exact Or.inl wakes
    · rename_i range
      simp only at wakes
      by_cases same : u = t
      · subst same
        split at wakes
        · rename_i heard
          have back := (activateThread_alike u u (postSignal u sig k)).wakes wakes
          exact Or.inr ⟨rfl, back.2.1, magic, by omega, by omega, heard⟩
        · rename_i silent
          obtain ⟨owner, active, how⟩ := wakes
          exact Or.inl ⟨owner, active, how.imp_right (hears_after (by simpa using silent))⟩
      · left
        have posted : Alike u k (postSignal t sig k) :=
          ⟨fun ended => ended, rfl, rfl, by simp [postSignal, same], rfl⟩
        split at wakes
        · exact posted.wakes ((activateThread_alike t u _).wakes wakes)
        · exact posted.wakes wakes

theorem timerAct_others {x y : Ktimer T} {k w : Kernel T} {v : Int} {u : T}
    (ran : timerAct x k = .ok (w, v)) (wakes : y.Wakes w u) : y.Wakes k u ∨ x.Wakes k u := by
  unfold timerAct at ran
  split at ran
  · rename_i t action owner
    cases ran
    exact Or.inl ((activateThread_alike t u k).wakes wakes)
  · cases ran
  · rename_i t action owner
    cases ran
    rcases pthreadKillSys_hears wakes with before | ⟨rfl, active, hears⟩
    · exact Or.inl before
    · exact Or.inr ⟨owner, active, Or.inr hears⟩
  · cases ran
    exact Or.inl wakes

theorem serveTimer_shape {ctime : Duration} {i : Nat} {k w : Kernel T} {v : Int} (held : InHeap k i)
    (ran : serveTimer ctime i k = .ok (w, v)) :
    ∃ acted x h, timerAct (k.timerArray i) k = .ok (acted, v) ∧
      w = { acted with timerArray := Function.update k.timerArray i x, timerHeap := h } ∧
      x.owner = (k.timerArray i).owner ∧ x.action = (k.timerArray i).action ∧
      x.signo = (k.timerArray i).signo ∧ ∀ j, Holds h.array h.nelem (some j) → InHeap k j := by
  obtain ⟨acted, h, _, act, removed, rearm⟩ := serveTimer_parts ran
  obtain ⟨table, heap⟩ := timerAct_timers act
  rw [heap] at removed
  rcases rearmTimer_cases rearm with ⟨_, _, h', _, rfl, inserted, rfl⟩ | ⟨_, rfl⟩
  · refine ⟨acted, { k.timerArray i with timerValue := (k.timerArray i).timerInterval + ctime }, h', act,
      by simp only [setTimer, table], rfl, rfl, rfl, fun j there => ?_⟩
    rcases heapInsert_holds inserted there with before | same
    · exact heapRemoveMin_holds removed before
    · rw [same]
      exact held
  · refine ⟨acted, { k.timerArray i with flags := (k.timerArray i).flags &&& ~~~timerArmed }, h, act,
      by simp only [setTimer, table], rfl, rfl, rfl, fun j there => ?_⟩
    exact heapRemoveMin_holds removed there

def PassesAt (R : Clocks → Prop) (k : Kernel T) (x : Ktimer T) : Prop :=
  ∃ now c, R now ∧ readClock now k x = .ok c ∧ judgedDue x.timerValue c = true

def Calm (R : Clocks → Prop) (P : T → Prop) (k : Kernel T) : Prop :=
  ∀ i t, InHeap k i → PassesAt R k (k.timerArray i) → (k.timerArray i).Wakes k t → P t

theorem readClock_woken {P : T → Prop} {k w : Kernel T} (woken : Woken P k w) (now : Clocks)
    (x : Ktimer T) : readClock now w x = readClock now k x := by
  have only := woken.only
  have used := congrArg Kernel.usedTime only
  have starting := congrArg Kernel.startingTime only
  simp only [readClock]
  rw [used, starting]

theorem written_wakes {i j : Nat} {k acted : Kernel T} {x : Ktimer T} {h : TimerHeap} {t : T}
    (owner : x.owner = (k.timerArray i).owner) (action : x.action = (k.timerArray i).action)
    (signo : x.signo = (k.timerArray i).signo)
    (wakes : (Function.update k.timerArray i x j).Wakes
      { acted with timerArray := Function.update k.timerArray i x, timerHeap := h } t) :
    (k.timerArray j).Wakes acted t := by
  obtain ⟨owns, active, how⟩ := wakes
  by_cases same : j = i
  · subst same
    simp only [Function.update_self] at owns how
    rw [owner] at owns
    rw [action, signo] at how
    exact ⟨owns, active, how⟩
  · simp only [Function.update_of_ne same] at owns how
    exact ⟨owns, active, how⟩

theorem serveTimer_calm {R : Clocks → Prop} {P : T → Prop} {ctime : Duration} {i : Nat}
    {k w : Kernel T} {v : Int} (calm : Calm R P k) (held : InHeap k i)
    (passes : PassesAt R k (k.timerArray i)) (ran : serveTimer ctime i k = .ok (w, v)) :
    Woken P k w ∧ Calm R P w := by
  obtain ⟨acted, x, h, act, shape, owner, action, signo, inside⟩ := serveTimer_shape held ran
  have mine : ∀ t, (k.timerArray i).Wakes k t → P t := fun t => calm i t held passes
  have woken : Woken P k acted := timerAct_wakes mine act
  have written : Woken P acted w := by
    rw [shape]
    exact .book rfl
  refine ⟨woken.trans written, fun j t there passesJ wakes => ?_⟩
  have heldJ : InHeap k j := by
    rw [shape] at there
    exact inside j there
  have before : (k.timerArray j).Wakes acted t := by
    rw [shape] at wakes
    exact written_wakes owner action signo wakes
  by_cases same : j = i
  · -- the timer itself wakes whom it has just woken
    subst same
    exact mine t ((timerAct_others act before).elim id id)
  · have entry : w.timerArray j = k.timerArray j := by
      rw [shape]
      exact Function.update_of_ne same _ _
    rw [entry] at passesJ
    obtain ⟨now, c, reading, read, due⟩ := passesJ
    rw [readClock_woken (woken.trans written)] at read
    rcases timerAct_others act before with other | own
    · exact calm j t heldJ ⟨now, c, reading, read, due⟩ other
    · exact mine t own

theorem updateLoop_calm (fuel : Nat) {R : Clocks → Prop} {P : T → Prop} {now : Nat → Clocks}
    {r q : TimerRound T} (readings : ∀ n, R (now n)) (calm : Calm R P r.kernel)
    (top : ∀ i c, r.top = some (i, c) → InHeap r.kernel i ∧
      ∃ m, R m ∧ readClock m r.kernel (r.kernel.timerArray i) = .ok c)
    (ran : updateLoop fuel now r = .ok q) : Woken P r.kernel q.kernel := by
  have kept := updateLoop_invariant (P := fun q => Woken P r.kernel q.kernel ∧ Calm R P q.kernel ∧
    ∀ i c, q.top = some (i, c) → InHeap q.kernel i ∧
      ∃ m, R m ∧ readClock m q.kernel (q.kernel.timerArray i) = .ok c) fuel ?_
    ⟨.refl _ _, calm, top⟩ ran
  · exact kept.1
  · intro q n i ctime k action next inv here due served found
    obtain ⟨woken, calm, top⟩ := inv
    obtain ⟨held, m, reading, read⟩ := top i ctime here
    obtain ⟨woken', calm'⟩ := serveTimer_calm calm held ⟨m, ctime, reading, read, due⟩ served
    refine ⟨woken.trans woken', calm', ?_⟩
    intro j c first
    obtain ⟨busy, root, readJ⟩ := nextTimer_ok found first
    exact ⟨⟨1, le_refl 1, busy, root⟩, now n, readings n, readJ⟩

theorem updateHwtimer_calm {fuel : Nat} {R : Clocks → Prop} {P : T → Prop} {now : Nat → Clocks}
    {k : Kernel T} {r : TimerRound T} (readings : ∀ n, R (now n)) (calm : Calm R P k)
    (ran : updateHwtimer fuel now k = .ok r) : Woken P k r.kernel := by
  obtain ⟨top, q, d, found, looped, rfl⟩ := updateHwtimer_loop ran
  have woken := updateLoop_calm fuel (fun n => readings (n + 1)) calm ?_ looped
  · exact woken.trans (.book rfl)
  · intro i c here
    obtain ⟨busy, root, read⟩ := nextTimer_ok found here
    exact ⟨⟨1, le_refl 1, busy, root⟩, now 0, readings 0, read⟩

def Retimed (i : Nat) (x : Ktimer T) (k w : Kernel T) : Prop :=
  w = { k with timerArray := Function.update k.timerArray i x, timerHeap := w.timerHeap } ∧
    ∀ j, InHeap w j → InHeap k j ∨ j = i

omit [DecidableEq T] in
theorem Retimed.trans {i : Nat} {x y : Ktimer T} {k w z : Kernel T} (first : Retimed i x k w)
    (second : Retimed i y w z) : Retimed i y k z := by
  obtain ⟨only, inside⟩ := first
  obtain ⟨only', inside'⟩ := second
  refine ⟨?_, fun j there => ?_⟩
  · rw [only', only]
    simp
  · rcases inside' j there with before | same
    · exact inside j before
    · exact Or.inr same

omit [DecidableEq T] in
theorem disarmIfArmed_retimed {id : Int} {i : Nat} {k w : Kernel T} (at_ : timerAt id = .ok i)
    (ran : disarmIfArmed id (k.timerArray i) k = .ok w) :
    ∃ f, f &&& timerInUse = (k.timerArray i).flags &&& timerInUse ∧
      Retimed i { k.timerArray i with flags := f } k w := by
  unfold disarmIfArmed at ran
  split at ran
  · simp only [disarmTimer, at_, bind, Except.bind, pure, Except.pure] at ran
    split at ran
    · cases ran
    · rename_i pair removed
      obtain ⟨h, v⟩ := pair
      cases ran
      refine ⟨_, ?_, rfl, fun j there => Or.inl (heapRemoveElement_holds removed there)⟩
      rw [BitVec.and_assoc]
      rfl
  · cases ran
    exact ⟨(k.timerArray i).flags, rfl, by simp, fun j there => Or.inl there⟩

omit [DecidableEq T] in
theorem armTimer_retimed {now : Clocks} {id : Int} {i : Nat} {value interval : Duration}
    {k w : Kernel T} {v : Int} (at_ : timerAt id = .ok i)
    (ran : armTimer now id value interval k = .ok (w, v)) :
    (k.timerArray i).flags &&& timerInUse = 0#32 ∨ ∃ e f, expiryTime now (k.timerArray i) value k = .ok e ∧
      Retimed i { k.timerArray i with timerValue := e, timerInterval := interval, flags := f } k w := by
  simp only [armTimer, at_, bind, bind_ok, pure, Except.pure] at ran
  obtain ⟨j, same, ran⟩ := ran
  cases same
  split at ran
  · rename_i unused
    exact Or.inl unused
  · right
    rw [bind_ok] at ran
    obtain ⟨e, expiry, ran⟩ := ran
    rw [bind_ok] at ran
    obtain ⟨⟨h, _⟩, inserted, ran⟩ := ran
    cases ran
    exact ⟨e, _, expiry, rfl, fun j there => heapInsert_holds inserted there⟩

/-- What keeps timer_settime_sys from waking threads outside `P`: the other timers
    on the heap that pass the test at a reading of the call, and the timer itself
    with its new value, wake threads of `P` only. -/
structure SettimeCalm (now : Nat → Clocks) (i : Nat) (flags : Word) (v : Itimerspec) (P : T → Prop)
    (k : Kernel T) : Prop where
  others : ∀ j t, j ≠ i → InHeap k j → PassesAt (fun m => ∃ n, m = now (n + 1)) k (k.timerArray j) →
    (k.timerArray j).Wakes k t → P t
  self : ∀ e t, expiryTime (now 0) { k.timerArray i with flags := flags } v.itValue.nsecs k = .ok e →
    PassesAt (fun m => ∃ n, m = now (n + 1)) k { k.timerArray i with timerValue := e } →
    (k.timerArray i).Wakes k t → P t

theorem Retimed.calm {now : Nat → Clocks} {i : Nat} {flags f : Word} {v : Itimerspec} {P : T → Prop}
    {k w : Kernel T} {e interval : Duration} (calm : SettimeCalm now i flags v P k)
    (expiry : expiryTime (now 0) { k.timerArray i with flags := flags } v.itValue.nsecs k = .ok e)
    (armed : Retimed i { k.timerArray i with timerValue := e, timerInterval := interval, flags := f } k w) :
    Calm (fun m => ∃ n, m = now (n + 1)) P w := by
  obtain ⟨only, inside⟩ := armed
  intro j t there passes wakes
  have table : w.timerArray = Function.update k.timerArray i
      { k.timerArray i with timerValue := e, timerInterval := interval, flags := f } := by rw [only]
  by_cases same : j = i
  · subst same
    rw [table, Function.update_self] at passes wakes
    rw [only] at passes wakes
    exact calm.self e t expiry passes wakes
  · rw [table, Function.update_of_ne same] at passes wakes
    rw [only] at passes wakes
    have before : InHeap k j := (inside j there).resolve_right same
    exact calm.others j t same before passes wakes

omit [DecidableEq T] in
theorem expiryTime_abstime {now : Clocks} {x : Ktimer T} {f flags : Word} {value : Duration}
    {k w : Kernel T} (used : w.usedTime = k.usedTime) (starting : w.startingTime = k.startingTime) :
    expiryTime now { x with flags := (f &&& ~~~timerAbstime) ||| (flags &&& timerAbstime) } value w =
      expiryTime now { x with flags := flags } value k := by
  have same : ((f &&& ~~~timerAbstime) ||| (flags &&& timerAbstime)) &&& timerAbstime =
      flags &&& timerAbstime := by
    rw [BitVec.and_or_distrib_right, BitVec.and_assoc, BitVec.and_assoc]
    simp [timerAbstime]
  simp only [expiryTime, same, readClock, used, starting]

omit [DecidableEq T] in
theorem timerUnused_false {id : Int} {i : Nat} {k : Kernel T} (at_ : timerAt id = .ok i)
    (test : timerUnused id k = .ok false) : (k.timerArray i).flags &&& timerInUse ≠ 0#32 := by
  simp only [timerUnused, at_, bind, Except.bind, pure, Except.pure] at test
  split at test
  · cases test
  · simpa using test

omit [DecidableEq T] in
theorem setAbstime_retimed {i : Nat} {f : Word} (flags : Word) {k w : Kernel T}
    (off : Retimed i { k.timerArray i with flags := f } k w) :
    Retimed i { k.timerArray i with flags := (f &&& ~~~timerAbstime) ||| (flags &&& timerAbstime) } k
      (setAbstime i flags w) := by
  obtain ⟨only, inside⟩ := off
  refine ⟨?_, inside⟩
  rw [only]
  simp [setAbstime, setTimer]

omit [DecidableEq T] in
theorem Retimed.entry {i : Nat} {x : Ktimer T} {k w : Kernel T} (retimed : Retimed i x k w) :
    w.timerArray i = x := by
  rw [retimed.1]
  exact Function.update_self i x k.timerArray

theorem timerSettimeSys_calm {fuel : Nat} {now : Nat → Clocks} {id : Int} {flags : Word}
    {value : Option Itimerspec} {k w : Kernel T} {r : Int} {o : Option Itimerspec} {P : T → Prop}
    (calm : ∀ i v, timerAt id = .ok i → value = some v → (k.timerArray i).inUse = true →
      v.itValue.tvSec ||| v.itValue.tvNsec ≠ 0#32 → SettimeCalm now i flags v P k)
    (ran : timerSettimeSys fuel now id flags value k = .ok (w, r, o)) : Woken P k w := by
  rcases timerSettimeSys_cases ran with ⟨_, rfl⟩ | ⟨test, i, disarmed, at_, disarm, rest⟩
  · exact .book rfl
  · obtain ⟨f, kept, off⟩ := disarmIfArmed_retimed at_ disarm
    have marks := setAbstime_retimed flags off
    have marked : Woken P k (setAbstime i flags disarmed) :=
      Woken.trans (.book (disarmIfArmed_book disarm).1) (.book rfl)
    have claimed := timerUnused_false at_ test
    rcases rest with rfl | ⟨v, armed, _, u, rfl, some_, arm, update, rfl⟩
    · exact marked
    · rcases armTimer_retimed at_ arm with idle | ⟨e, g, expiry, set⟩
      · -- the flag IN_USE is still there
        rw [marks.entry, BitVec.and_or_distrib_right, BitVec.and_assoc, BitVec.and_assoc] at idle
        have flag : f &&& timerInUse = 0#32 := (BitVec.or_eq_zero_iff.mp idle).1
        rw [kept] at flag
        exact absurd flag claimed
      · rw [marks.entry] at set expiry
        have used := congrArg Kernel.usedTime marks.1
        have starting := congrArg Kernel.startingTime marks.1
        rw [expiryTime_abstime used starting] at expiry
        have inUse : (k.timerArray i).inUse = true := by simpa [Ktimer.inUse] using claimed
        have quiet := (marks.trans set).calm (calm i v at_ rfl inUse some_) expiry
        have served := updateHwtimer_calm (fun n => ⟨n, rfl⟩) quiet update
        exact (marked.trans (.book (armTimer_book arm).1)).trans served

end L4ertl
