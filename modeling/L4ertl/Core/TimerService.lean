import Mathlib.Data.Multiset.Dedup
import L4ertl.Core.TimerWakes
import L4ertl.Core.HeapQueue
import L4ertl.Lib.Service

/-!
The loop of update_hwtimer on timers of any clocks, one-shot and periodic. While
the clocks stand still it serves a queue: the timer of least value, if it passes
the test on the halves, leaves the queue or comes back with its next value.
-/
namespace L4ertl
open BinaryHeap
variable {T : Type}

structure Readable (now : Nat → Clocks) (c : Nat → Duration) (k : Kernel T) : Prop where
  table : k.TimersOk
  owned : ∀ i, InHeap k i → ∃ t, (k.timerArray i).owner = some t
  reads : ∀ i n, InHeap k i → readClock (now n) k (k.timerArray i) = .ok (c i)

def nextValue (c : Nat → Duration) (k : Kernel T) (i : Nat) : Option Nat :=
  match repeats (k.timerArray i) k with
  | .ok true => some ((k.timerArray i).timerInterval + c i).toNat
  | _ => none

def Passes (c : Nat → Duration) (i x : Nat) : Prop := judgedDue (BitVec.ofNat 64 x) (c i) = true

open Classical in
noncomputable def queueOf (k : Kernel T) (i : Nat) : Option Nat :=
  if InHeap k i then some (k.timerArray i).timerValue.toNat else none

theorem passes_toNat {c : Nat → Duration} {i : Nat} {d : Duration} :
    Passes c i d.toNat ↔ judgedDue d (c i) = true := by
  simp [Passes]

theorem queueOf_some {k : Kernel T} {i x : Nat} :
    queueOf k i = some x ↔ InHeap k i ∧ x = (k.timerArray i).timerValue.toNat := by
  unfold queueOf
  split
  · rename_i there
    simp [there, eq_comm]
  · rename_i gone
    simp [gone]

theorem servedTimer_keeps (again : Bool) (ctime : Duration) (x : Ktimer T) :
    (servedTimer again ctime x).owner = x.owner ∧ (servedTimer again ctime x).clock = x.clock ∧
      (servedTimer again ctime x).timerInterval = x.timerInterval := by
  cases again with
  | false => exact ⟨rfl, rfl, rfl⟩
  | true => exact ⟨rfl, rfl, rfl⟩

theorem readClock_congr {x y : Ktimer T} {k w : Kernel T} (now : Clocks) (clock : y.clock = x.clock)
    (owner : y.owner = x.owner) (used : w.usedTime = k.usedTime)
    (starting : w.startingTime = k.startingTime) : readClock now w y = readClock now k x := by
  unfold readClock
  rw [clock, owner, used, starting]

variable [DecidableEq T]

omit [DecidableEq T] in
theorem Readable.root {now : Nat → Clocks} {c : Nat → Duration} {k : Kernel T} (readable : Readable now c k)
    (busy : 0 < k.timerHeap.nelem) : ∃ i, i < maxTimers ∧ k.timerHeap.array 1 = some i ∧ InHeap k i := by
  obtain ⟨i, below, here⟩ := readable.table.filled 1 (le_refl 1) busy
  exact ⟨i, below, here, 1, le_refl 1, busy, here⟩

theorem Readable.round {now : Nat → Clocks} {c : Nat → Duration} {k : Kernel T}
    (readable : Readable now c k) (busy : 0 < k.timerHeap.nelem) {i : Nat}
    (root : k.timerHeap.array 1 = some i) :
    ∃ w, serveTimer (c i) i k = .ok (w, needReesched) ∧ Readable now c w ∧
      queueOf w = Function.update (queueOf k) i (nextValue c k i) ∧ nextValue c w = nextValue c k := by
  have held : InHeap k i := ⟨1, le_refl 1, busy, root⟩
  obtain ⟨inside, used, armed⟩ := (inHeap_iff readable.table).mp held
  obtain ⟨w, ran⟩ := serveTimer_returns (c i) readable.table (readable.owned i held) busy root
  obtain ⟨again, asked, entries, _, ends, spent, starting⟩ := serveTimer_entry ran
  have table := serveTimer_timersOk readable.table busy root ran
  have mine : w.timerArray i = servedTimer again (c i) (k.timerArray i) := by
    rw [entries, Function.update_self]
  have others : ∀ j, j ≠ i → w.timerArray j = k.timerArray j := by
    intro j other
    rw [entries, Function.update_of_ne other]
  have kept : ∀ j, (w.timerArray j).owner = (k.timerArray j).owner ∧
      (w.timerArray j).clock = (k.timerArray j).clock ∧
      (w.timerArray j).timerInterval = (k.timerArray j).timerInterval := by
    intro j
    by_cases same : j = i
    · rw [same, mine]
      exact servedTimer_keeps again (c i) (k.timerArray i)
    · rw [others j same]
      exact ⟨rfl, rfl, rfl⟩
  have stays : ∀ j, j ≠ i → (InHeap w j ↔ InHeap k j) := by
    intro j other
    rw [inHeap_iff table, inHeap_iff readable.table, others j other]
  have before : ∀ j, InHeap w j → InHeap k j := by
    intro j there
    by_cases same : j = i
    · rw [same]
      exact held
    · exact (stays j same).mp there
  refine ⟨w, ran, ⟨table, fun j there => ?_, fun j n there => ?_⟩, ?_, ?_⟩
  · rw [(kept j).1]
    exact readable.owned j (before j there)
  · rw [readClock_congr (now n) (kept j).2.1 (kept j).1 spent starting]
    exact readable.reads j n (before j there)
  · funext j
    by_cases same : j = i
    · subst same
      rw [Function.update_self]
      cases again with
      | true =>
        have back : InHeap w j := by
          rw [inHeap_iff table, mine]
          exact ⟨inside, used, armed⟩
        have value : nextValue c k j = some ((k.timerArray j).timerInterval + c j).toNat := by
          simp only [nextValue, asked]
        rw [value, queueOf_some]
        exact ⟨back, by rw [mine]; rfl⟩
      | false =>
        have gone : ¬InHeap w j := by
          rw [inHeap_iff table, mine]
          intro facts
          have off : (servedTimer false (c j) (k.timerArray j)).armed = false :=
            armed_clear (k.timerArray j)
          rw [off] at facts
          cases facts.2.2
        have value : nextValue c k j = none := by
          simp only [nextValue, asked]
        rw [value, queueOf, if_neg gone]
    · rw [Function.update_of_ne same]
      apply Option.ext
      intro x
      rw [queueOf_some, queueOf_some, others j same, stays j same]
  · funext j
    unfold nextValue
    obtain ⟨owner, _, interval⟩ := kept j
    rw [repeats_congr interval owner ends, interval]

def topAt (c : Nat → Duration) (k : Kernel T) : Option (Nat × Duration) :=
  if 0 < k.timerHeap.nelem then (k.timerHeap.array 1).map fun i => (i, c i) else none

omit [DecidableEq T] in
theorem Readable.top {now : Nat → Clocks} {c : Nat → Duration} {k : Kernel T} (readable : Readable now c k)
    (n : Nat) : nextTimer (now n) k = .ok (topAt c k) := by
  simp only [nextTimer, heapMin, bind, pure, Except.pure]
  by_cases busy : 0 < k.timerHeap.nelem
  · obtain ⟨i, _, root, held⟩ := readable.root busy
    rw [if_pos busy, get_inside (by decide), topAt, if_pos busy, root]
    simp only [Except.bind, Option.map_some]
    rw [readable.reads i n held]
  · rw [if_neg busy, topAt, if_neg busy]
    rfl

omit [DecidableEq T] in
theorem Readable.later {now : Nat → Clocks} {c : Nat → Duration} {k : Kernel T}
    (readable : Readable now c k) : Readable (fun n => now (n + 1)) c k :=
  ⟨readable.table, readable.owned, fun i n => readable.reads i (n + 1)⟩

omit [DecidableEq T] in
theorem Readable.least {now : Nat → Clocks} {c : Nat → Duration} {k : Kernel T}
    (readable : Readable now c k) {i : Nat} (busy : 0 < k.timerHeap.nelem)
    (root : k.timerHeap.array 1 = some i) :
    Service.Least (queueOf k) i (k.timerArray i).timerValue.toNat := by
  refine ⟨queueOf_some.mpr ⟨⟨1, le_refl 1, busy, root⟩, rfl⟩, ?_⟩
  intro j y there
  obtain ⟨⟨p, low, high, here⟩, rfl⟩ := queueOf_some.mp there
  have order := readable.table.ordered.root low high
  rw [root, here] at order
  exact order

omit [DecidableEq T] in
theorem Readable.stopped {now : Nat → Clocks} {c : Nat → Duration} {k : Kernel T}
    (readable : Readable now c k)
    (fails : ∀ i d, topAt c k = some (i, d) → judgedDue (k.timerArray i).timerValue d = false) :
    Service.Stopped (Passes c) (queueOf k) := by
  by_cases busy : 0 < k.timerHeap.nelem
  · obtain ⟨i, _, root, _⟩ := readable.root busy
    right
    refine ⟨i, _, readable.least busy root, ?_⟩
    rw [passes_toNat, fails i (c i) (by simp [topAt, busy, root])]
    exact Bool.false_ne_true
  · left
    intro i
    have gone : ¬InHeap k i := by
      intro there
      obtain ⟨p, low, high, _⟩ := there
      omega
    rw [queueOf, if_neg gone]

/-- The first `n` rounds of the loop, or as many as there are. -/
def updateRounds : Nat → (Nat → Clocks) → TimerRound T → Except Fault (TimerRound T)
  | 0, _, r => .ok r
  | n + 1, now, r =>
    match r.top with
    | none => .ok r
    | some (i, ctime) =>
      if judgedDue (r.kernel.timerArray i).timerValue ctime then do
        let (k, action) ← serveTimer ctime i r.kernel
        let top ← nextTimer (now 0) k
        updateRounds n (fun n => now (n + 1)) ⟨k, top, action, r.served ++ [i]⟩
      else .ok r

def TimerRound.Ended (r : TimerRound T) : Prop :=
  ∀ i d, r.top = some (i, d) → judgedDue (r.kernel.timerArray i).timerValue d = false

structure Rounds (c : Nat → Duration) (k : Kernel T) (n : Nat) (past : List Nat) (r : TimerRound T)
    (S : List (Nat × Nat)) : Prop where
  served : r.served = past ++ S.map Prod.fst
  serves : Service.Serves (Passes c) (nextValue c k) (queueOf k) S (queueOf r.kernel)
  top : r.top = topAt c r.kernel
  readable : ∃ now, Readable now c r.kernel
  ends : S.length = n ∨ r.Ended

omit [DecidableEq T] in
theorem Rounds.nothing {now : Nat → Clocks} {c : Nat → Duration} {k : Kernel T}
    (readable : Readable now c k) {n : Nat} {action : Int} {past : List Nat}
    (ends : 0 = n ∨ TimerRound.Ended ⟨k, topAt c k, action, past⟩) :
    Rounds c k n past ⟨k, topAt c k, action, past⟩ [] :=
  ⟨by simp, .refl _, rfl, ⟨now, readable⟩, ends⟩

theorem updateRounds_serves (n : Nat) {now : Nat → Clocks} {c : Nat → Duration} {k : Kernel T}
    (readable : Readable now c k) (action : Int) (past : List Nat) :
    ∃ r S, updateRounds n now ⟨k, topAt c k, action, past⟩ = .ok r ∧ Rounds c k n past r S := by
  induction n generalizing now k action past with
  | zero => exact ⟨_, [], rfl, .nothing readable (Or.inl rfl)⟩
  | succ n ih =>
    unfold updateRounds
    cases top : topAt c k with
    | none =>
      have ended : TimerRound.Ended ⟨k, topAt c k, action, past⟩ := by
        intro i d there
        rw [top] at there
        cases there
      refine ⟨⟨k, topAt c k, action, past⟩, [], ?_, .nothing readable (Or.inr ended)⟩
      rw [top]
    | some first =>
      obtain ⟨i, ctime⟩ := first
      have busy : 0 < k.timerHeap.nelem := by
        by_contra empty
        rw [topAt, if_neg empty] at top
        cases top
      have root : k.timerHeap.array 1 = some i ∧ ctime = c i := by
        obtain ⟨j, _, here, _⟩ := readable.root busy
        rw [topAt, if_pos busy, here] at top
        cases top
        exact ⟨here, rfl⟩
      obtain ⟨root, rfl⟩ := root
      by_cases due : judgedDue (k.timerArray i).timerValue (c i) = true
      · obtain ⟨w, ran, next, queue, values⟩ := readable.round busy root
        obtain ⟨r, S, looped, rounds⟩ := ih next.later needReesched (past ++ [i])
        have serves := rounds.serves
        rw [queue, values] at serves
        refine ⟨r, (i, (k.timerArray i).timerValue.toNat) :: S, ?_, by simp [rounds.served],
          .cons (readable.least busy root) (passes_toNat.mpr due) serves, rounds.top, rounds.readable, ?_⟩
        · simp only [due, if_true, ran, bind, Except.bind, next.top 0]
          exact looped
        · rcases rounds.ends with full | ended
          · exact Or.inl (by rw [List.length_cons, full])
          · exact Or.inr ended
      · have ended : TimerRound.Ended ⟨k, topAt c k, action, past⟩ := by
          intro j d there
          rw [top] at there
          cases there
          simpa using due
        refine ⟨⟨k, topAt c k, action, past⟩, [], ?_, .nothing readable (Or.inr ended)⟩
        simp only [due, Bool.false_eq_true, if_false, top]

theorem updateLoop_rounds (fuel : Nat) {now : Nat → Clocks} {r q : TimerRound T} :
    updateLoop fuel now r = .ok q ↔
      updateRounds (fuel - 1) now r = .ok q ∧ 0 < fuel ∧ q.Ended := by
  induction fuel generalizing now r with
  | zero =>
    constructor
    · intro ran
      cases ran
    · intro both
      omega
  | succ fuel ih =>
    rw [Nat.add_sub_cancel]
    unfold updateLoop
    cases top : r.top with
    | none =>
      have rounds : updateRounds fuel now r = .ok r := by
        cases fuel with
        | zero => rfl
        | succ n => simp only [updateRounds, top]
      simp only [rounds, Except.ok.injEq]
      constructor
      · rintro rfl
        exact ⟨rfl, Nat.succ_pos fuel, fun i d there => by rw [top] at there; cases there⟩
      · exact And.left
    | some first =>
      obtain ⟨i, ctime⟩ := first
      by_cases due : judgedDue (r.kernel.timerArray i).timerValue ctime = true
      · simp only [due, if_true]
        cases fuel with
        | zero =>
          simp only [updateLoop, updateRounds, bind, bind_ok, reduceCtorEq, and_false, exists_false,
            false_iff]
          rintro ⟨same, _, fails⟩
          cases same
          rw [fails i ctime top] at due
          cases due
        | succ n =>
          simp only [updateRounds, top, due, if_true, bind, bind_ok, ih, Nat.add_sub_cancel]
          constructor
          · rintro ⟨x, served, y, looked, rounds, _, fails⟩
            exact ⟨⟨x, served, y, looked, rounds⟩, Nat.succ_pos _, fails⟩
          · rintro ⟨⟨x, served, y, looked, rounds⟩, _, fails⟩
            exact ⟨x, served, y, looked, rounds, Nat.succ_pos n, fails⟩
      · have rounds : updateRounds fuel now r = .ok r := by
          cases fuel with
          | zero => rfl
          | succ n => simp only [updateRounds, top, due, Bool.false_eq_true, if_false]
        simp only [due, Bool.false_eq_true, if_false, rounds, Except.ok.injEq]
        constructor
        · rintro rfl
          refine ⟨rfl, Nat.succ_pos fuel, fun j d there => ?_⟩
          rw [top] at there
          cases there
          simpa using due
        · exact And.left

section
variable (c : Nat → Duration) (k : Kernel T) (i : Nat)

/-- The timer passes the test now, and will pass it again with its next value. -/
def LoopsAt : Prop :=
  InHeap k i ∧ repeats (k.timerArray i) k = .ok true ∧ judgedDue (k.timerArray i).timerValue (c i) = true ∧
    judgedDue ((k.timerArray i).timerInterval + c i) (c i) = true

/-- The timer fails the test now or with its next value. -/
def StopsAt : Prop :=
  InHeap k i ∧ (judgedDue (k.timerArray i).timerValue (c i) = false ∨
    repeats (k.timerArray i) k = .ok true ∧ judgedDue ((k.timerArray i).timerInterval + c i) (c i) = false)

def StaysAt : Prop :=
  InHeap k i ∧ (judgedDue (k.timerArray i).timerValue (c i) = false ∨ repeats (k.timerArray i) k = .ok true)

def peak : Nat :=
  if judgedDue (k.timerArray i).timerValue (c i) then
    max (k.timerArray i).timerValue.toNat ((k.timerArray i).timerInterval + c i).toNat
  else (k.timerArray i).timerValue.toNat

end

section
omit [DecidableEq T]
variable {c : Nat → Duration} {k : Kernel T} {i : Nat}

theorem nextValue_some {w : Nat} : nextValue c k i = some w ↔
    repeats (k.timerArray i) k = .ok true ∧ w = ((k.timerArray i).timerInterval + c i).toNat := by
  unfold nextValue
  split
  · rename_i again
    simp [again, eq_comm]
  · rename_i once
    constructor
    · intro none
      cases none
    · intro both
      exact absurd both.1 once

theorem LoopsAt.stays (loops : LoopsAt c k i) : StaysAt c k i := ⟨loops.1, Or.inr loops.2.1⟩

theorem StopsAt.stays (stops : StopsAt c k i) : StaysAt c k i :=
  ⟨stops.1, stops.2.imp_right And.left⟩

theorem StaysAt.below (stays : StaysAt c k i) :
    Service.StaysBelow (Passes c) (nextValue c k) (queueOf k) i (peak c k i) := by
  obtain ⟨there, how⟩ := stays
  refine ⟨_, queueOf_some.mpr ⟨there, rfl⟩, ?_, fun passes => ?_⟩
  · unfold peak
    split
    · exact le_max_left _ _
    · exact le_refl _
  · rw [passes_toNat] at passes
    have again := how.resolve_left (by simp [passes])
    refine ⟨_, nextValue_some.mpr ⟨again, rfl⟩, ?_⟩
    unfold peak
    rw [if_pos passes]
    exact le_max_right _ _

theorem loopsAt_of {v w : Nat} (loops : Service.Loops (Passes c) (nextValue c k) (queueOf k) i v w) :
    LoopsAt c k i ∧ peak c k i = max v w := by
  obtain ⟨here, passes, again, back⟩ := loops
  obtain ⟨there, rfl⟩ := queueOf_some.mp here
  obtain ⟨periodic, rfl⟩ := nextValue_some.mp again
  rw [passes_toNat] at passes back
  exact ⟨⟨there, periodic, passes, back⟩, by rw [peak, if_pos passes]⟩

theorem length_le_nelem {L : List Nat} (nodup : L.Nodup) (inside : ∀ j ∈ L, InHeap k j) :
    L.length ≤ k.timerHeap.nelem := by
  have distinct : (L.map some).Nodup := nodup.map (Option.some_injective Nat)
  have below : ((L.map some : List (Option Nat)) : Multiset (Option Nat)) ≤ k.timerHeap.elements := by
    apply (Multiset.le_iff_subset (Multiset.coe_nodup.mpr distinct)).mpr
    intro x member
    obtain ⟨j, listed, rfl⟩ := List.mem_map.mp (Multiset.mem_coe.mp member)
    exact mem_elems.mpr (inside j listed)
  have count := Multiset.card_le_card below
  rw [TimerHeap.elements, card_elems, Multiset.coe_card, List.length_map] at count
  exact count

theorem serves_inHeap {S : List (Nat × Nat)} {p : Nat → Option Nat} {next : Nat → Option Nat}
    (run : Service.Serves (Passes c) next (queueOf k) S p) {j : Nat} (served : j ∈ S.map Prod.fst) :
    InHeap k j := by
  obtain ⟨x, here, _⟩ := run.first served
  exact (queueOf_some.mp here).1

end

/-- The loop of update_hwtimer ends after at most as many rounds as there are
    timers on the heap, and serves none of them twice. -/
def ServesOnce (now : Nat → Clocks) (k : Kernel T) : Prop :=
  ∃ top fuel r, nextTimer (now 0) k = .ok top ∧
    updateLoop fuel (fun n => now (n + 1)) ⟨k, top, 0, []⟩ = .ok r ∧
    r.served.length ≤ k.timerHeap.nelem ∧ r.served.Nodup

section
variable {now : Nat → Clocks} {c : Nat → Duration} {k : Kernel T}

theorem Readable.servesOnce (readable : Readable now c k)
    (shielded : ∀ i, LoopsAt c k i → ∃ j, StopsAt c k j ∧ peak c k j < peak c k i) : ServesOnce now k := by
  obtain ⟨r, S, ran, rounds⟩ := updateRounds_serves (k.timerHeap.nelem + 1) readable.later 0 []
  have covered : Service.Shielded (Passes c) (nextValue c k) (queueOf k) := by
    intro i v w loops
    obtain ⟨here, top⟩ := loopsAt_of loops
    obtain ⟨j, stops, less⟩ := shielded i here
    exact ⟨j, peak c k j, stops.stays.below, top ▸ less⟩
  have nodup := rounds.serves.nodup covered
  have length := length_le_nelem nodup fun j => serves_inHeap rounds.serves
  have served : r.served = S.map Prod.fst := by simpa using rounds.served
  have ended : r.Ended := by
    rcases rounds.ends with full | ended
    · rw [List.length_map] at length
      omega
    · exact ended
  refine ⟨topAt c k, k.timerHeap.nelem + 2, r, readable.top 0, ?_, by rw [served]; exact length,
    by rw [served]; exact nodup⟩
  exact (updateLoop_rounds _).mpr ⟨ran, Nat.succ_pos _, ended⟩

theorem Readable.stopper (readable : Readable now c k) (once : ServesOnce now k) {i : Nat}
    (loops : LoopsAt c k i) : ∃ j, StopsAt c k j ∧ peak c k j ≤ peak c k i := by
  obtain ⟨top, fuel, r, looked, looped, _⟩ := once
  rw [readable.top 0] at looked
  cases looked
  obtain ⟨ran, _, ended⟩ := (updateLoop_rounds fuel).mp looped
  obtain ⟨r', S, ran', rounds⟩ := updateRounds_serves (fuel - 1) readable.later 0 []
  rw [ran] at ran'
  cases ran'
  obtain ⟨later, still⟩ := rounds.readable
  unfold TimerRound.Ended at ended
  rw [rounds.top] at ended
  rcases still.stopped ended with empty | ⟨y, x, least, fails⟩
  · obtain ⟨⟨u, here, _⟩, _⟩ := rounds.serves.bounded loops.stays.below
    rw [empty i] at here
    cases here
  · obtain ⟨v, here, how⟩ := rounds.serves.stopper loops.stays.below least fails
    obtain ⟨there, rfl⟩ := queueOf_some.mp here
    rcases how with ⟨fails, under⟩ | ⟨passes, w, again, back, under⟩
    · rw [passes_toNat, Bool.not_eq_true] at fails
      refine ⟨y, ⟨there, Or.inl fails⟩, ?_⟩
      rw [peak, if_neg (by simp [fails])]
      exact under
    · obtain ⟨periodic, rfl⟩ := nextValue_some.mp again
      rw [passes_toNat] at passes back
      refine ⟨y, ⟨there, Or.inr ⟨periodic, by simpa using back⟩⟩, ?_⟩
      rw [peak, if_pos passes]
      exact under

end

/-- The loop of update_hwtimer ends, serving no timer twice, if every timer that
    passes the test again with its next value is behind one at which the loop
    stops, and only if none is before all of these. -/
theorem timer_loop_ends {now : Nat → Clocks} {c : Nat → Duration} {k : Kernel T}
    (readable : Readable now c k) :
    ((∀ i, LoopsAt c k i → ∃ j, StopsAt c k j ∧ peak c k j < peak c k i) → ServesOnce now k) ∧
    (ServesOnce now k → ∀ i, LoopsAt c k i → ∃ j, StopsAt c k j ∧ peak c k j ≤ peak c k i) :=
  ⟨readable.servesOnce, fun once _ => readable.stopper once⟩

def periodicTimer (value interval : Duration) : Kernel (Fin 2) :=
  match armTimer ⟨0, 0⟩ 0 value interval claimedTimer with
  | .ok (k, _) => k
  | .error _ => claimedTimer

theorem periodicTimer_inHeap {value interval : Duration} {i : Nat}
    (there : InHeap (periodicTimer value interval) i) :
    i = 0 ∧ (periodicTimer value interval).timerArray i =
      ⟨some 1, value + 0, interval, 0x300#32, .monotonic, .wakeup, 0⟩ := by
  obtain ⟨p, low, high, here⟩ := there
  have size : (periodicTimer value interval).timerHeap.nelem = 1 := rfl
  have root : (periodicTimer value interval).timerHeap.array 1 = some 0 := rfl
  rw [show p = 1 by omega, root] at here
  cases here
  exact ⟨rfl, rfl⟩

theorem periodicTimer_readable (value interval c : Duration) :
    Readable (fun _ => ⟨c, 0⟩) (fun _ => c) (periodicTimer value interval) := by
  have booted : (bootKernel (0 : Fin 2)).TimersOk := timersOk_start (fun _ => rfl) rfl
  have claimed : claimedTimer.TimersOk := allocKtimer_timersOk booted .monotonic 1 .wakeup
  have ran : armTimer ⟨0, 0⟩ 0 value interval claimedTimer = .ok (periodicTimer value interval, 0) := rfl
  refine ⟨armTimer_timersOk claimed ?_ ran, fun i there => ?_, fun i n there => ?_⟩
  · intro i same both
    cases same
    revert both
    decide
  · rw [(periodicTimer_inHeap there).2]
    exact ⟨1, rfl⟩
  · rw [readClock, (periodicTimer_inHeap there).2]

theorem timer_loop_ends_milli : ServesOnce (fun _ => ⟨150, 0⟩) (periodicTimer 100 1000000) := by
  apply (timer_loop_ends (periodicTimer_readable 100 1000000 150)).1
  intro i loops
  obtain ⟨there, _, _, again⟩ := loops
  obtain ⟨rfl, _⟩ := periodicTimer_inHeap there
  exact absurd again (by decide +kernel)

theorem timer_loop_endless :
    Readable (fun _ => ⟨150, 0⟩) (fun _ => 150) (periodicTimer 100 5000000000) ∧
      ¬ServesOnce (fun _ => ⟨150, 0⟩) (periodicTimer 100 5000000000) := by
  have readable := periodicTimer_readable 100 5000000000 150
  refine ⟨readable, fun once => ?_⟩
  have there : InHeap (periodicTimer 100 5000000000) 0 := ⟨1, le_refl 1, le_refl 1, rfl⟩
  obtain ⟨j, stops, _⟩ := readable.stopper once ⟨there, rfl, by decide +kernel, by decide +kernel⟩
  obtain ⟨held, how⟩ := stops
  obtain ⟨rfl, _⟩ := periodicTimer_inHeap held
  rcases how with fails | ⟨_, fails⟩
  · exact absurd fails (by decide +kernel)
  · exact absurd fails (by decide +kernel)

def ServedSometime (now : Nat → Clocks) (k : Kernel T) (i : Nat) : Prop :=
  ∃ top n r, nextTimer (now 0) k = .ok top ∧
    updateRounds n (fun n => now (n + 1)) ⟨k, top, 0, []⟩ = .ok r ∧ i ∈ r.served

section
variable {now : Nat → Clocks} {c : Nat → Duration} {k : Kernel T} {i : Nat}

omit [DecidableEq T] in
theorem clear_of_peaks (peaks : ∀ j, j ≠ i → StaysAt c k j →
      (k.timerArray i).timerValue.toNat < peak c k j) :
    Service.Clear (Passes c) (nextValue c k) (queueOf k) i (k.timerArray i).timerValue.toNat := by
  intro j other x here
  obtain ⟨there, rfl⟩ := queueOf_some.mp here
  constructor
  · intro fails
    rw [passes_toNat, Bool.not_eq_true] at fails
    have less := peaks j other ⟨there, Or.inl fails⟩
    rw [peak, if_neg (by simp [fails])] at less
    exact less
  · intro w again passes
    obtain ⟨periodic, rfl⟩ := nextValue_some.mp again
    rw [passes_toNat] at passes
    have less := peaks j other ⟨there, Or.inr periodic⟩
    rw [peak, if_pos passes] at less
    exact less

theorem Readable.servedSometime (readable : Readable now c k) (there : InHeap k i)
    (passes : judgedDue (k.timerArray i).timerValue (c i) = true)
    (peaks : ∀ j, j ≠ i → StaysAt c k j → (k.timerArray i).timerValue.toNat < peak c k j) :
    ServedSometime now k i := by
  obtain ⟨r, S, ran, rounds⟩ := updateRounds_serves (k.timerHeap.nelem + 1) readable.later 0 []
  have served : r.served = S.map Prod.fst := by simpa using rounds.served
  refine ⟨topAt c k, k.timerHeap.nelem + 1, r, readable.top 0, ran, ?_⟩
  rw [served]
  by_contra unserved
  obtain ⟨nodup, _, runs⟩ := rounds.serves.waits (clear_of_peaks peaks)
    (queueOf_some.mpr ⟨there, rfl⟩) (passes_toNat.mpr passes) unserved
  rcases rounds.ends with full | ended
  · have length := length_le_nelem nodup fun j => serves_inHeap rounds.serves
    rw [List.length_map] at length
    omega
  · obtain ⟨later, still⟩ := rounds.readable
    unfold TimerRound.Ended at ended
    rw [rounds.top] at ended
    exact runs (still.stopped ended)

theorem Readable.served_passes (readable : Readable now c k) (some : ServedSometime now k i) :
    judgedDue (k.timerArray i).timerValue (c i) = true ∧
      ∀ j, StaysAt c k j → (k.timerArray i).timerValue.toNat ≤ peak c k j := by
  obtain ⟨top, n, r, looked, ran, member⟩ := some
  rw [readable.top 0] at looked
  cases looked
  obtain ⟨r', S, ran', rounds⟩ := updateRounds_serves n readable.later 0 []
  rw [ran] at ran'
  cases ran'
  have served : i ∈ S.map Prod.fst := by
    rw [rounds.served] at member
    simpa using member
  obtain ⟨x, here, passes, inside⟩ := rounds.serves.first served
  obtain ⟨_, rfl⟩ := queueOf_some.mp here
  refine ⟨passes_toNat.mp passes, fun j stays => ?_⟩
  exact (rounds.serves.bounded stays.below).2 _ inside

end

def ServesDue (now : Nat → Clocks) (c : Nat → Duration) (k : Kernel T) : Prop :=
  ∀ i, InHeap k i → (k.timerArray i).timerValue ≤ c i → ServedSometime now k i

/-- update_hwtimer serves every timer that is due by its own clock if these pass
    the test and come before every other timer that fails it or comes back, and
    only if they pass it and none of these others is before them. -/
theorem due_timers_served {now : Nat → Clocks} {c : Nat → Duration} {k : Kernel T}
    (readable : Readable now c k) :
    ((∀ i, InHeap k i → (k.timerArray i).timerValue ≤ c i →
        PastPasses (k.timerArray i).timerValue (c i) ∧
        ∀ j, j ≠ i → StaysAt c k j → (k.timerArray i).timerValue.toNat < peak c k j) →
      ServesDue now c k) ∧
    (ServesDue now c k → ∀ i, InHeap k i → (k.timerArray i).timerValue ≤ c i →
      PastPasses (k.timerArray i).timerValue (c i) ∧
      ∀ j, j ≠ i → StaysAt c k j → (k.timerArray i).timerValue.toNat ≤ peak c k j) := by
  constructor
  · intro conditions i there due
    obtain ⟨past, peaks⟩ := conditions i there due
    exact readable.servedSometime there ((judgedDue_past due).mpr past) peaks
  · intro serves i there due
    obtain ⟨passes, peaks⟩ := readable.served_passes (serves i there due)
    exact ⟨(judgedDue_past due).mp passes, fun j _ stays => peaks j stays⟩

def claimedTimers : Kernel (Fin 2) :=
  { claimedTimer with timerArray := (allocKtimer .realtime 1 .wakeup claimedTimer.timerArray).1 }

def firstArmed (a : Duration) : Kernel (Fin 2) :=
  match armTimer ⟨0, 0⟩ 0 a 0 claimedTimers with
  | .ok (k, _) => k
  | .error _ => claimedTimers

def twoClocks (a b : Duration) : Kernel (Fin 2) :=
  match armTimer ⟨0, 0⟩ 1 b 0 (firstArmed a) with
  | .ok (k, _) => k
  | .error _ => firstArmed a

theorem firstArmed_timersOk (a : Duration) : (firstArmed a).TimersOk := by
  have booted : (bootKernel (0 : Fin 2)).TimersOk := timersOk_start (fun _ => rfl) rfl
  have claimed : claimedTimers.TimersOk :=
    allocKtimer_timersOk (allocKtimer_timersOk booted .monotonic 1 .wakeup) .realtime 1 .wakeup
  have ran : armTimer ⟨0, 0⟩ 0 a 0 claimedTimers = .ok (firstArmed a, 0) := rfl
  apply armTimer_timersOk claimed _ ran
  intro i same both
  cases same
  revert both
  decide

structure InTurn (a b : Duration) : Prop where
  ran : armTimer ⟨0, 0⟩ 1 b 0 (firstArmed a) = .ok (twoClocks a b, 0)
  size : (twoClocks a b).timerHeap.nelem = 2
  places : (twoClocks a b).timerHeap.array 1 = some 0 ∧ (twoClocks a b).timerHeap.array 2 = some 1
  first : (twoClocks a b).timerArray 0 = ⟨some 1, a + 0, 0, 0x300#32, .monotonic, .wakeup, 0⟩
  second : (twoClocks a b).timerArray 1 = ⟨some 1, b + 0, 0, 0x300#32, .realtime, .wakeup, 0⟩

theorem InTurn.inHeap {a b : Duration} (turn : InTurn a b) {i : Nat} (there : InHeap (twoClocks a b) i) :
    i = 0 ∨ i = 1 := by
  obtain ⟨p, low, high, here⟩ := there
  rw [turn.size] at high
  have place : p = 1 ∨ p = 2 := by omega
  rcases place with rfl | rfl
  · rw [turn.places.1] at here
    exact Or.inl (Option.some.inj here).symm
  · rw [turn.places.2] at here
    exact Or.inr (Option.some.inj here).symm

def twoReadings (monotonic realtime : Duration) (i : Nat) : Duration :=
  if i = 0 then monotonic else realtime

theorem InTurn.readable {a b : Duration} (turn : InTurn a b) (m r : Duration) :
    Readable (fun _ => ⟨m, r⟩) (twoReadings m r) (twoClocks a b) := by
  refine ⟨armTimer_timersOk (firstArmed_timersOk a) ?_ turn.ran, fun i there => ?_, fun i n there => ?_⟩
  · intro i same both
    cases same
    have idle : ((firstArmed a).timerArray 1).armed = false := by
      rw [show (firstArmed a).timerArray 1 = claimedTimers.timerArray 1 from rfl]
      decide
    rw [show (1 : Int).toNat = 1 from rfl, idle] at both
    cases both.2
  · rcases turn.inHeap there with rfl | rfl
    · exact ⟨1, by rw [turn.first]⟩
    · exact ⟨1, by rw [turn.second]⟩
  · rcases turn.inHeap there with rfl | rfl
    · rw [readClock, turn.first]
      rfl
    · rw [readClock, turn.second]
      rfl

theorem due_timers_served_two : ServesDue (fun _ => ⟨150, 250⟩) (twoReadings 150 250) (twoClocks 100 200) := by
  have turn : InTurn 100 200 := ⟨rfl, rfl, ⟨rfl, rfl⟩, rfl, rfl⟩
  apply (due_timers_served (turn.readable 150 250)).1
  intro i there _
  have gone : ∀ j, ¬StaysAt (twoReadings 150 250) (twoClocks 100 200) j := by
    intro j stays
    obtain ⟨held, how⟩ := stays
    rcases turn.inHeap held with rfl | rfl
    · rw [turn.first] at how
      rcases how with fails | again
      · exact absurd fails (by decide)
      · cases again
    · rw [turn.second] at how
      rcases how with fails | again
      · exact absurd fails (by decide)
      · cases again
  refine ⟨?_, fun j _ stays => absurd stays (gone j)⟩
  rcases turn.inHeap there with rfl | rfl
  · rw [turn.first]
    exact .inl (by decide)
  · rw [turn.second]
    exact .inl (by decide)

/-- The timer for 2000 on the realtime clock, which reads 5000, waits for the one
    for 1000 on the monotonic clock, which reads 500. -/
theorem due_timers_served_fails :
    Readable (fun _ => ⟨500, 5000⟩) (twoReadings 500 5000) (twoClocks 1000 2000) ∧
      ¬ServesDue (fun _ => ⟨500, 5000⟩) (twoReadings 500 5000) (twoClocks 1000 2000) := by
  have turn : InTurn 1000 2000 := ⟨rfl, rfl, ⟨rfl, rfl⟩, rfl, rfl⟩
  have readable := turn.readable 500 5000
  have size := turn.size
  refine ⟨readable, fun serves => ?_⟩
  have due := serves 1 ⟨2, by omega, by omega, turn.places.2⟩ (by rw [turn.second]; decide)
  have stays : StaysAt (twoReadings 500 5000) (twoClocks 1000 2000) 0 := by
    refine ⟨⟨1, by omega, by omega, turn.places.1⟩, Or.inl ?_⟩
    rw [turn.first]
    decide
  have order := (readable.served_passes due).2 0 stays
  rw [peak, turn.first, turn.second] at order
  exact absurd order (by decide)

end L4ertl
