import Mathlib.Algebra.BigOperators.Group.List.Basic
import Mathlib.Tactic.Abel
import L4ertl.Core.TimerService
import L4ertl.Lib.Lts

/-!
The expiries of a periodic timer over calls of update_hwtimer. The next value of
a timer is its interval after the reading at which it was served, so each expiry
is late by what all services before it were late.
-/
namespace L4ertl
variable {T : Type} [DecidableEq T]

structure Expiry where
  timer : Nat
  due : Duration
  reading : Duration
  deriving DecidableEq, Repr

def Expiry.latency (e : Expiry) : Duration := e.reading - e.due

def loopExpiries : Nat → (Nat → Clocks) → TimerRound T → List Expiry
  | 0, _, _ => []
  | fuel + 1, now, r =>
    match r.top with
    | none => []
    | some (i, ctime) =>
      if judgedDue (r.kernel.timerArray i).timerValue ctime then
        match serveTimer ctime i r.kernel with
        | .error _ => []
        | .ok (k, action) =>
          ⟨i, (r.kernel.timerArray i).timerValue, ctime⟩ ::
            match nextTimer (now 0) k with
            | .error _ => []
            | .ok top => loopExpiries fuel (fun n => now (n + 1)) ⟨k, top, action, r.served ++ [i]⟩
      else []

def callExpiries (fuel : Nat) (now : Nat → Clocks) (k : Kernel T) : List Expiry :=
  match nextTimer (now 0) k with
  | .ok top => loopExpiries fuel (fun n => now (n + 1)) ⟨k, top, 0, []⟩
  | .error _ => []

inductive PeriodTurn (T : Type) where
  | update (fuel : Nat) (now : Nat → Clocks)
  | rest (w : Kernel T)

def periodStep (k : Kernel T) : PeriodTurn T → Option (Kernel T × List Expiry)
  | .update fuel now =>
    match updateHwtimer fuel now k with
    | .ok r => some (r.kernel, callExpiries fuel now k)
    | .error _ => none
  | .rest w => some (w, [])

/-- What is no call does not program the timer `id`, nor end its owner. -/
def PeriodTurn.Aside (id : Nat) (k : Kernel T) : PeriodTurn T → Prop
  | .update _ _ => True
  | .rest w => (w.timerArray id).timerValue = (k.timerArray id).timerValue ∧
      (w.timerArray id).timerInterval = (k.timerArray id).timerInterval ∧
      (w.timerArray id).owner = (k.timerArray id).owner ∧
      ∀ t, (k.timerArray id).owner = some t → k.state t ≠ finishedThread → w.state t ≠ finishedThread

structure PeriodicAt (k : Kernel T) (id : Nat) (v i : Duration) : Prop where
  value : (k.timerArray id).timerValue = v
  interval : (k.timerArray id).timerInterval = i
  positive : 0 < i
  owner : ∃ t, (k.timerArray id).owner = some t ∧ k.state t ≠ finishedThread

omit [DecidableEq T] in
theorem PeriodicAt.repeats {k : Kernel T} {id : Nat} {v i : Duration} (periodic : PeriodicAt k id v i) :
    L4ertl.repeats (k.timerArray id) k = .ok true := by
  obtain ⟨t, owner, active⟩ := periodic.owner
  unfold L4ertl.repeats
  rw [periodic.interval, if_pos periodic.positive, owner]
  simp [active]

theorem PeriodicAt.served {k w : Kernel T} {id j : Nat} {v i ctime : Duration} {a : Int}
    (periodic : PeriodicAt k id v i) (ran : serveTimer ctime j k = .ok (w, a)) :
    PeriodicAt w id (if j = id then i + ctime else v) i := by
  obtain ⟨again, asked, entries, _, ends, _⟩ := serveTimer_entry ran
  have owner : ∀ x : Ktimer T, x.owner = (k.timerArray id).owner →
      ∃ t, x.owner = some t ∧ w.state t ≠ finishedThread := by
    intro x same
    obtain ⟨t, owns, active⟩ := periodic.owner
    exact ⟨t, by rw [same, owns], fun ended => active ((ends t).mp ended)⟩
  by_cases same : j = id
  · subst same
    rw [periodic.repeats] at asked
    cases asked
    have entry : w.timerArray j = servedTimer true ctime (k.timerArray j) := by
      rw [entries, Function.update_self]
    obtain ⟨sameOwner, _, sameInterval⟩ := servedTimer_keeps true ctime (k.timerArray j)
    refine ⟨?_, ?_, periodic.positive, owner _ (by rw [entry, sameOwner])⟩
    · rw [if_pos rfl, entry, ← periodic.interval]
      rfl
    · rw [entry, sameInterval]
      exact periodic.interval
  · have entry : w.timerArray id = k.timerArray id := by
      rw [entries, Function.update_of_ne (Ne.symm same)]
    refine ⟨?_, ?_, periodic.positive, owner _ (by rw [entry])⟩
    · rw [if_neg same, entry]
      exact periodic.value
    · rw [entry]
      exact periodic.interval

def Reprogrammed (i : Duration) : Duration → List Expiry → Duration → Prop
  | v, [], last => last = v
  | v, e :: es, last => e.due = v ∧ Reprogrammed i (i + e.reading) es last

theorem Reprogrammed.append {i v x last : Duration} {es fs : List Expiry} (first : Reprogrammed i v es x)
    (second : Reprogrammed i x fs last) : Reprogrammed i v (es ++ fs) last := by
  induction es generalizing v with
  | nil =>
    have same : x = v := first
    rw [← same]
    exact second
  | cons e es ih => exact ⟨first.1, ih first.2⟩

def expiriesOf (id : Nat) (es : List Expiry) : List Expiry := es.filter (fun e => e.timer = id)

theorem PeriodicAt.loop (fuel : Nat) {now : Nat → Clocks} {r q : TimerRound T} {id : Nat} {v i : Duration}
    (periodic : PeriodicAt r.kernel id v i) (ran : updateLoop fuel now r = .ok q) :
    ∃ last, PeriodicAt q.kernel id last i ∧
      Reprogrammed i v (expiriesOf id (loopExpiries fuel now r)) last := by
  induction fuel generalizing now r v with
  | zero => cases ran
  | succ fuel ih =>
    unfold updateLoop at ran
    split at ran
    · rename_i none
      cases ran
      simp only [loopExpiries, none]
      exact ⟨v, periodic, rfl⟩
    · rename_i j ctime top
      simp only [loopExpiries, top]
      split at ran
      · rename_i due
        simp only [bind, bind_ok, Prod.exists] at ran
        obtain ⟨k, action, served, next, looked, rest⟩ := ran
        obtain ⟨last, stays, history⟩ := ih (periodic.served served) rest
        refine ⟨last, stays, ?_⟩
        simp only [due, if_true, served, looked, expiriesOf, List.filter_cons]
        by_cases same : j = id
        · subst same
          rw [if_pos rfl] at history
          simp only [decide_true, if_true]
          exact ⟨periodic.value, history⟩
        · rw [if_neg same] at history
          simp only [same, decide_false, Bool.false_eq_true, if_false]
          exact history
      · rename_i fails
        cases ran
        simp only [fails, Bool.false_eq_true, if_false]
        exact ⟨v, periodic, rfl⟩

theorem PeriodicAt.call {fuel : Nat} {now : Nat → Clocks} {k : Kernel T} {r : TimerRound T} {id : Nat}
    {v i : Duration} (periodic : PeriodicAt k id v i) (ran : updateHwtimer fuel now k = .ok r) :
    ∃ last, PeriodicAt r.kernel id last i ∧
      Reprogrammed i v (expiriesOf id (callExpiries fuel now k)) last := by
  obtain ⟨top, q, d, looked, looped, rfl⟩ := updateHwtimer_loop ran
  simp only [callExpiries, looked]
  obtain ⟨last, stays, history⟩ := PeriodicAt.loop fuel (by exact periodic) looped
  exact ⟨last, ⟨stays.value, stays.interval, stays.positive, stays.owner⟩, history⟩

omit [DecidableEq T] in
theorem PeriodicAt.aside {k w : Kernel T} {id : Nat} {v i : Duration} (periodic : PeriodicAt k id v i)
    (aside : PeriodTurn.Aside id k (.rest w)) : PeriodicAt w id v i := by
  obtain ⟨value, interval, owner, active⟩ := aside
  obtain ⟨t, owns, alive⟩ := periodic.owner
  exact ⟨value.trans periodic.value, interval.trans periodic.interval, periodic.positive,
    t, owner.trans owns, active t owns alive⟩

theorem PeriodicAt.turn {k w : Kernel T} {id : Nat} {v i : Duration} {l : PeriodTurn T} {es : List Expiry}
    (periodic : PeriodicAt k id v i) (aside : l.Aside id k) (taken : periodStep k l = some (w, es)) :
    ∃ last, PeriodicAt w id last i ∧ Reprogrammed i v (expiriesOf id es) last := by
  cases l with
  | update fuel now =>
    simp only [periodStep] at taken
    split at taken
    · rename_i r ran
      cases taken
      exact periodic.call ran
    · cases taken
  | rest x =>
    cases taken
    exact ⟨v, periodic.aside aside, rfl⟩

theorem PeriodicAt.turns {k w : Kernel T} {es : List Expiry} {id : Nat} {v i : Duration}
    (periodic : PeriodicAt k id v i) (ls : List (PeriodTurn T))
    (aside : Lts.Along periodStep (PeriodTurn.Aside id) k ls) (run : Lts.exec periodStep k ls = some (w, es)) :
    Reprogrammed i v (expiriesOf id es) (w.timerArray id).timerValue := by
  obtain ⟨last, stays, history⟩ := Lts.exec_invariant
    (fun x past => ∃ last, PeriodicAt x id last i ∧ Reprogrammed i v (expiriesOf id past) last)
    (fun x past l y first inv ok taken => by
      obtain ⟨middle, here, before⟩ := inv
      obtain ⟨last, there, after⟩ := here.turn ok taken
      refine ⟨last, there, ?_⟩
      rw [expiriesOf, List.filter_append]
      exact before.append after)
    ls ⟨v, periodic, rfl⟩ aside run
  exact stays.value ▸ history

theorem Reprogrammed.value {i v last : Duration} {es : List Expiry} (history : Reprogrammed i v es last)
    {m : Nat} (inside : m ≤ es.length) :
    (es.map Expiry.due ++ [last])[m]? = some (v + m • i + ((es.take m).map Expiry.latency).sum) := by
  induction es generalizing v m with
  | nil =>
    have zero : m = 0 := Nat.le_zero.mp inside
    have same : last = v := history
    subst zero
    simp [same]
  | cons e es ih =>
    obtain ⟨due, rest⟩ := history
    cases m with
    | zero => simp [due]
    | succ m =>
      have later := ih rest (Nat.le_of_succ_le_succ inside)
      simp only [List.map_cons, List.cons_append, List.getElem?_cons_succ, List.take_succ_cons,
        List.sum_cons]
      rw [later, Expiry.latency, due, succ_nsmul]
      congr 1
      abel

theorem Reprogrammed.in_step {i v last : Duration} {es : List Expiry} (history : Reprogrammed i v es last) :
    (∀ m ≤ es.length, (es.map Expiry.due ++ [last])[m]? = some (v + m • i)) ↔
      ∀ e ∈ es, e.reading = e.due := by
  constructor
  · intro steady
    induction es generalizing v with
    | nil =>
      intro e member
      cases member
    | cons e es ih =>
      have second := steady 1 (by simp)
      rw [history.value (by simp)] at second
      obtain ⟨due, rest⟩ := history
      have none : e.reading = e.due := by
        simp only [List.take_succ_cons, List.take_zero, List.map_cons, List.map_nil, List.sum_cons,
          List.sum_nil, Option.some.injEq, add_zero, Expiry.latency, add_eq_left] at second
        exact sub_eq_zero.mp second
      intro f member
      rcases List.mem_cons.mp member with same | later
      · rw [same]
        exact none
      · refine ih rest (fun m inside => ?_) f later
        have shifted := steady (m + 1) (by simpa using inside)
        simp only [List.map_cons, List.cons_append, List.getElem?_cons_succ] at shifted
        rw [shifted, none, due, succ_nsmul]
        congr 1
        abel
  · intro prompt m inside
    have none : ((es.take m).map Expiry.latency).sum = 0 := by
      apply List.sum_eq_zero
      intro d member
      obtain ⟨e, taken, rfl⟩ := List.mem_map.mp member
      rw [Expiry.latency, prompt e (List.mem_of_mem_take taken), sub_self]
    rw [history.value inside, none, add_zero]

/-- The `m`-th programmed expiry of a periodic timer is `m` intervals and the
    latencies of the `m` services before it after the first one; so all expiries
    are whole intervals after the first exactly if each was served when due. -/
theorem periodic_expiries {k w : Kernel T} {id : Nat} {v i : Duration} (periodic : PeriodicAt k id v i)
    (ls : List (PeriodTurn T)) {es : List Expiry} (aside : Lts.Along periodStep (PeriodTurn.Aside id) k ls)
    (run : Lts.exec periodStep k ls = some (w, es)) :
    let hs := expiriesOf id es
    let values := hs.map Expiry.due ++ [(w.timerArray id).timerValue]
    (∀ m ≤ hs.length, values[m]? = some (v + m • i + ((hs.take m).map Expiry.latency).sum)) ∧
    ((∀ m ≤ hs.length, values[m]? = some (v + m • i)) ↔ ∀ e ∈ hs, e.reading = e.due) := by
  intro hs values
  have history := periodic.turns ls aside run
  exact ⟨fun m inside => history.value inside, history.in_step⟩

theorem periodicTimer_at (value interval : Duration) (positive : 0 < interval) :
    PeriodicAt (periodicTimer value interval) 0 (value + 0) interval := by
  have flags : (periodicTimer value interval).threadFlags 1 = 0#32 := rfl
  refine ⟨rfl, rfl, positive, 1, rfl, ?_⟩
  rw [Kernel.state, flags]
  decide

def firstServed : Kernel (Fin 2) :=
  ((updateHwtimer 2 (fun _ => ⟨150, 0⟩) (periodicTimer 100 1000)).toOption.map TimerRound.kernel).getD
    (periodicTimer 100 1000)

def twoServices : List (PeriodTurn (Fin 2)) :=
  [.update 2 fun _ => ⟨150, 0⟩, .rest (scheduling 150 firstServed), .update 2 fun _ => ⟨1200, 0⟩]

theorem twoServices_aside : Lts.Along periodStep (PeriodTurn.Aside 0) (periodicTimer 100 1000) twoServices := by
  refine ⟨trivial, fun k es taken => ⟨?_, fun _ _ _ => ⟨trivial, fun _ _ _ => trivial⟩⟩⟩
  simp only [periodStep] at taken
  split at taken
  · rename_i r ran
    cases taken
    have same : r.kernel = firstServed := by
      simp only [firstServed, ran]
      rfl
    rw [same]
    have only := scheduling_only 150 firstServed
    have timers := congrArg Kernel.timerArray only
    have flags := congrArg Kernel.threadFlags only
    have timer := congrFun timers 0
    refine ⟨congrArg Ktimer.timerValue timer, congrArg Ktimer.timerInterval timer, congrArg Ktimer.owner timer,
      fun t _ active => ?_⟩
    rw [Kernel.state_of_flags flags]
    exact active
  · cases taken

theorem periodic_expiries_two : ∃ w, Lts.exec periodStep (periodicTimer 100 1000) twoServices =
      some (w, [⟨0, 100, 150⟩, ⟨0, 1150, 1200⟩]) ∧
    (w.timerArray 0).timerValue = 100 + 2 • 1000 + (50 + 50) := by
  obtain ⟨⟨w, es⟩, run, rfl⟩ := Option.map_eq_some_iff.mp
    (by decide +kernel : (Lts.exec periodStep (periodicTimer 100 1000) twoServices).map (fun r => r.2) =
      some [⟨0, 100, 150⟩, ⟨0, 1150, 1200⟩])
  have second := (periodic_expiries (periodicTimer_at 100 1000 (by decide)) _ twoServices_aside run).1 2 (by decide)
  exact ⟨w, run, Option.some.inj second⟩

theorem periodic_expiries_drift : PeriodicAt (periodicTimer 100 1000) 0 100 1000 ∧
    ∃ w, Lts.exec periodStep (periodicTimer 100 1000) [.update 2 fun _ => ⟨150, 0⟩] =
        some (w, [⟨0, 100, 150⟩]) ∧
      Expiry.latency ⟨0, 100, 150⟩ < 1000 ∧ (w.timerArray 0).timerValue = 1150 ∧
      (w.timerArray 0).timerValue ≠ 100 + 1 • 1000 := by
  refine ⟨periodicTimer_at 100 1000 (by decide), ?_⟩
  obtain ⟨⟨w, es⟩, run, facts⟩ := Option.map_eq_some_iff.mp
    (by decide +kernel : (Lts.exec periodStep (periodicTimer 100 1000) [.update 2 fun _ => ⟨150, 0⟩]).map
      (fun r => (r.2, (r.1.timerArray 0).timerValue)) = some ([⟨0, 100, 150⟩], 1150))
  obtain ⟨rfl, value⟩ := Prod.mk.inj facts
  refine ⟨w, run, by decide, value, ?_⟩
  rw [value]
  decide

end L4ertl
