import Mathlib.Data.Finset.Max
import L4ertl.Core.TimerRuns

/-!
Which timers update_hwtimer serves. With one-shot timers of one clock it takes
them off the heap in the order of their values for as long as the test on the
two halves of the value passes, so it serves those that are due exactly when
the test agrees with the comparison where it matters.
-/
namespace L4ertl
open BinaryHeap
variable {T : Type}

def InHeap (k : Kernel T) (i : Nat) : Prop := Holds k.timerHeap.array k.timerHeap.nelem (some i)

theorem inHeap_iff {k : Kernel T} (ok : k.TimersOk) {i : Nat} :
    InHeap k i ↔ i < maxTimers ∧ (k.timerArray i).inUse = true ∧ (k.timerArray i).armed = true := by
  constructor
  · intro there
    obtain ⟨p, low, high, here⟩ := there
    obtain ⟨j, below, same⟩ := ok.filled p low high
    rw [here] at same
    cases same
    exact ⟨below, (ok.members i below).mp ⟨p, low, high, here⟩⟩
  · intro facts
    exact (ok.members i facts.1).mpr facts.2

structure OneShots (now : Nat → Clocks) (c : Duration) (k : Kernel T) : Prop where
  table : k.TimersOk
  oneShot : ∀ i, InHeap k i → (k.timerArray i).timerInterval = 0
  owned : ∀ i, InHeap k i → ∃ t, (k.timerArray i).owner = some t
  reads : ∀ i n, InHeap k i → readClock (now n) k (k.timerArray i) = .ok c

def topOf (c : Duration) (k : Kernel T) : Option (Nat × Duration) :=
  if 0 < k.timerHeap.nelem then (k.timerHeap.array 1).map fun i => (i, c) else none

theorem OneShots.root {now : Nat → Clocks} {c : Duration} {k : Kernel T} (shots : OneShots now c k)
    (busy : 0 < k.timerHeap.nelem) :
    ∃ i, i < maxTimers ∧ k.timerHeap.array 1 = some i ∧ InHeap k i ∧ topOf c k = some (i, c) := by
  obtain ⟨i, below, here⟩ := shots.table.filled 1 (le_refl 1) busy
  exact ⟨i, below, here, ⟨1, le_refl 1, busy, here⟩, by simp [topOf, busy, here]⟩

theorem OneShots.next {now : Nat → Clocks} {c : Duration} {k : Kernel T} (shots : OneShots now c k)
    (n : Nat) : nextTimer (now n) k = .ok (topOf c k) := by
  simp only [nextTimer, heapMin, bind, pure, Except.pure]
  by_cases busy : 0 < k.timerHeap.nelem
  · obtain ⟨i, _, root, held, top⟩ := shots.root busy
    rw [if_pos busy, get_inside (by decide), root, top]
    simp only [Except.bind]
    rw [shots.reads i n held]
  · rw [if_neg busy]
    simp only [Except.bind, topOf, if_neg busy]

def servedTimer (again : Bool) (ctime : Duration) (x : Ktimer T) : Ktimer T :=
  if again then { x with timerValue := x.timerInterval + ctime }
  else { x with flags := x.flags &&& ~~~timerArmed }

theorem repeats_congr {x y : Ktimer T} {k w : Kernel T} (interval : y.timerInterval = x.timerInterval)
    (owner : y.owner = x.owner) (ends : ∀ t, w.state t = finishedThread ↔ k.state t = finishedThread) :
    repeats y w = repeats x k := by
  unfold repeats
  rw [interval, owner]
  split
  · cases x.owner with
    | none => rfl
    | some t => simp only [ne_eq, ends t]
  · rfl

variable [DecidableEq T]

theorem Woken.ends {P : T → Prop} {k w : Kernel T} (woken : Woken P k w) (t : T) :
    w.state t = finishedThread ↔ k.state t = finishedThread := by
  rcases woken.state t with same | ⟨_, active, ready⟩
  · rw [same]
  · rw [ready]
    exact ⟨fun ended => absurd ended ready_ne_finished, fun ended => absurd ended active⟩

theorem serveTimer_entry {ctime : Duration} {i : Nat} {k w : Kernel T} {v : Int}
    (ran : serveTimer ctime i k = .ok (w, v)) :
    ∃ again, repeats (k.timerArray i) k = .ok again ∧
      w.timerArray = Function.update k.timerArray i (servedTimer again ctime (k.timerArray i)) ∧
      (∀ n, k.timerHeap.nelem = n + 1 → again = false → w.timerHeap.nelem = n) ∧
      (∀ t, w.state t = finishedThread ↔ k.state t = finishedThread) ∧
      w.usedTime = k.usedTime ∧ w.startingTime = k.startingTime := by
  have whole := (serveTimer_woken ran).1
  have used := congrArg Kernel.usedTime whole.only
  have starting := congrArg Kernel.startingTime whole.only
  obtain ⟨acted, h, _, act, removed, rearm⟩ := serveTimer_parts ran
  obtain ⟨table, heap⟩ := timerAct_timers act
  have same : repeats (k.timerArray i) k =
      repeats (acted.timerArray i) { acted with timerHeap := h } := by
    rw [table]
    exact (repeats_congr rfl rfl (timerAct_woken act).1.ends).symm
  rcases rearmTimer_cases rearm with ⟨asked, _, _, _, rfl, _, rfl⟩ | ⟨asked, rfl⟩
  · refine ⟨true, same.trans asked, ?_, (fun n _ off => by cases off), whole.ends, used, starting⟩
    simp only [setTimer, table, servedTimer, if_true]
  · refine ⟨false, same.trans asked, ?_, ?_, whole.ends, used, starting⟩
    · simp only [setTimer, table, servedTimer, Bool.false_eq_true, if_false]
    · intro n size _
      rw [heap] at removed
      exact (heapRemoveMin_ok size removed).2.1

omit [DecidableEq T] in
theorem rearmTimer_returns (ctime : Duration) {i : Nat} {k : Kernel T} {t : T}
    (off : OffHeap i k.timerArray k.timerHeap) (inside : i < maxTimers)
    (owner : (k.timerArray i).owner = some t) : ∃ w, rearmTimer ctime i k = .ok w := by
  obtain ⟨again, asked⟩ : ∃ again, repeats (k.timerArray i) k = .ok again := by
    unfold repeats
    rw [owner]
    split
    · exact ⟨_, rfl⟩
    · exact ⟨_, rfl⟩
  simp only [rearmTimer, bind, pure, Except.pure]
  rw [asked]
  cases again with
  | false => exact ⟨_, rfl⟩
  | true =>
    have space := off.room inside
    obtain ⟨r, inserted⟩ := heapInsert_returns (setTimer i
      { k.timerArray i with timerValue := (k.timerArray i).timerInterval + ctime } k).timerArray i
      off.filled (by unfold heapMaxNelem; omega)
    simp only [Except.bind, if_true]
    rw [show (setTimer i _ k).timerHeap = k.timerHeap from rfl, inserted]
    exact ⟨_, rfl⟩

theorem serveTimer_returns (ctime : Duration) {k : Kernel T} (ok : k.TimersOk) {i : Nat}
    (owned : ∃ t, (k.timerArray i).owner = some t) (busy : 0 < k.timerHeap.nelem)
    (root : k.timerHeap.array 1 = some i) : ∃ w, serveTimer ctime i k = .ok (w, needReesched) := by
  obtain ⟨t, owner⟩ := owned
  have inside := ((inHeap_iff ok).mp ⟨1, le_refl 1, busy, root⟩).1
  have room := ok.room
  obtain ⟨acted, act⟩ := timerAct_owned owner k
  obtain ⟨table, heap⟩ := timerAct_timers act
  obtain ⟨⟨h, min⟩, removed⟩ := heapRemoveMin_returns k.timerArray ok.filled
    (by unfold heapMaxNelem; omega) busy
  have off := ok.removeMin busy root removed
  rw [← table] at off owner
  obtain ⟨w, rearm⟩ := rearmTimer_returns (k := { acted with timerHeap := h }) ctime off inside owner
  have removed' : heapRemoveMin acted.timerArray acted.timerHeap = .ok (h, min) := by
    rw [table, heap]
    exact removed
  refine ⟨w, ?_⟩
  simp only [serveTimer, bind, pure, Except.pure]
  rw [act]
  simp only [Except.bind]
  rw [removed']
  simp only
  rw [rearm]

structure Served (i : Nat) (k w : Kernel T) : Prop where
  table : w.TimersOk
  held : ∀ j, InHeap w j ↔ InHeap k j ∧ j ≠ i
  others : ∀ j, j ≠ i → w.timerArray j = k.timerArray j
  fewer : w.timerHeap.nelem < k.timerHeap.nelem
  used : w.usedTime = k.usedTime
  starting : w.startingTime = k.startingTime

theorem OneShots.serves {now : Nat → Clocks} {c : Duration} {k : Kernel T} {i : Nat}
    (shots : OneShots now c k) (busy : 0 < k.timerHeap.nelem) (root : k.timerHeap.array 1 = some i) :
    ∃ w, serveTimer c i k = .ok (w, needReesched) ∧ Served i k w := by
  have held : InHeap k i := ⟨1, le_refl 1, busy, root⟩
  obtain ⟨w, ran⟩ := serveTimer_returns c shots.table (shots.owned i held) busy root
  obtain ⟨again, asked, entries, size, _, used, starting⟩ := serveTimer_entry ran
  have table := serveTimer_timersOk shots.table busy root ran
  have once : again = false := by
    rw [repeats, shots.oneShot i held, if_neg (by decide)] at asked
    cases asked
    rfl
  have others : ∀ j, j ≠ i → w.timerArray j = k.timerArray j := by
    intro j other
    rw [entries, Function.update_of_ne other]
  refine ⟨w, ran, table, fun j => ?_, others, ?_, used, starting⟩
  · rw [inHeap_iff table, inHeap_iff shots.table]
    by_cases same : j = i
    · have off : (w.timerArray i).armed = false := by
        rw [entries, Function.update_self, once]
        exact armed_clear (k.timerArray i)
      simp [same, off]
    · simp [others j same, same]
  · obtain ⟨n, is⟩ := Nat.exists_eq_succ_of_ne_zero (Nat.pos_iff_ne_zero.mp busy)
    have less := size n is once
    omega

omit [DecidableEq T] in
theorem Served.shots {now : Nat → Clocks} {c : Duration} {k w : Kernel T} {i : Nat}
    (served : Served i k w) (shots : OneShots now c k) : OneShots now c w where
  table := served.table
  oneShot j there := by
    obtain ⟨old, other⟩ := (served.held j).mp there
    rw [served.others j other]
    exact shots.oneShot j old
  owned j there := by
    obtain ⟨old, other⟩ := (served.held j).mp there
    rw [served.others j other]
    exact shots.owned j old
  reads j n there := by
    obtain ⟨old, other⟩ := (served.held j).mp there
    have before := shots.reads j n old
    rw [served.others j other]
    simp only [readClock, served.used, served.starting] at before ⊢
    exact before

omit [DecidableEq T] in
theorem OneShots.least {now : Nat → Clocks} {c : Duration} {k : Kernel T} {i j : Nat}
    (shots : OneShots now c k) (root : k.timerHeap.array 1 = some i) (there : InHeap k j) :
    (k.timerArray i).timerValue ≤ (k.timerArray j).timerValue := by
  obtain ⟨p, low, high, here⟩ := there
  have order := shots.table.ordered.root low high
  rw [root, here] at order
  exact BitVec.le_def.mpr order

/-- The result of the loop: the timers `S` served, all of which passed the test
    and come before those left, the first of which does not pass it. -/
structure LoopEnd (c : Duration) (k w : Kernel T) (S : List Nat) : Prop where
  nodup : S.Nodup
  passed : ∀ i ∈ S, InHeap k i ∧ judgedDue (k.timerArray i).timerValue c = true
  left : ∀ j, InHeap w j ↔ InHeap k j ∧ j ∉ S
  before : ∀ i ∈ S, ∀ j, InHeap w j → (k.timerArray i).timerValue ≤ (k.timerArray j).timerValue
  kept : ∀ j, InHeap w j → w.timerArray j = k.timerArray j
  table : w.TimersOk
  stops : ∀ i, w.timerHeap.array 1 = some i → InHeap w i →
    judgedDue (k.timerArray i).timerValue c = false

omit [DecidableEq T] in
theorem LoopEnd.nothing {now : Nat → Clocks} {c : Duration} {k : Kernel T} (shots : OneShots now c k)
    (stops : ∀ i, k.timerHeap.array 1 = some i → InHeap k i →
      judgedDue (k.timerArray i).timerValue c = false) : LoopEnd c k k [] where
  nodup := List.nodup_nil
  passed i member := by cases member
  left j := by simp
  before i member := by cases member
  kept j _ := rfl
  table := shots.table
  stops := stops

omit [DecidableEq T] in
theorem LoopEnd.cons {now : Nat → Clocks} {c : Duration} {k w x : Kernel T} {i : Nat} {S : List Nat}
    (shots : OneShots now c k) (root : k.timerHeap.array 1 = some i) (held : InHeap k i)
    (due : judgedDue (k.timerArray i).timerValue c = true) (served : Served i k w)
    (ends : LoopEnd c w x S) : LoopEnd c k x (i :: S) := by
  have others : ∀ j, InHeap w j → w.timerArray j = k.timerArray j := by
    intro j there
    exact served.others j ((served.held j).mp there).2
  have inside : ∀ j, InHeap x j → InHeap w j := fun j there => ((ends.left j).mp there).1
  refine ⟨?_, ?_, ?_, ?_, ?_, ends.table, ?_⟩
  · apply List.nodup_cons.mpr
    refine ⟨fun member => ?_, ends.nodup⟩
    exact ((served.held i).mp (ends.passed i member).1).2 rfl
  · intro j member
    rcases List.mem_cons.mp member with same | later
    · rw [same]
      exact ⟨held, due⟩
    · obtain ⟨there, passes⟩ := ends.passed j later
      rw [others j there] at passes
      exact ⟨((served.held j).mp there).1, passes⟩
  · intro j
    rw [ends.left, served.held, List.mem_cons, not_or, and_assoc]
  · intro j member l there
    rcases List.mem_cons.mp member with same | later
    · rw [same]
      exact shots.least root ((served.held l).mp (inside l there)).1
    · have order := ends.before j later l there
      rw [others j (ends.passed j later).1, others l (inside l there)] at order
      exact order
  · intro j there
    rw [ends.kept j there]
    exact others j (inside j there)
  · intro j first there
    have fails := ends.stops j first there
    rw [others j (inside j there)] at fails
    exact fails

theorem updateLoop_ends (fuel : Nat) {now : Nat → Clocks} {c : Duration} {k : Kernel T} (action : Int)
    (past : List Nat) (shots : OneShots now c k) (enough : k.timerHeap.nelem < fuel) :
    ∃ q S, updateLoop fuel now ⟨k, topOf c k, action, past⟩ = .ok q ∧ q.served = past ++ S ∧
      LoopEnd c k q.kernel S ∧ ∀ i d, q.top = some (i, d) → InHeap q.kernel i := by
  induction fuel generalizing now k action past with
  | zero => omega
  | succ fuel ih =>
    by_cases busy : 0 < k.timerHeap.nelem
    · obtain ⟨i, below, root, held, top⟩ := shots.root busy
      by_cases due : judgedDue (k.timerArray i).timerValue c = true
      · obtain ⟨w, ran, served⟩ := shots.serves busy root
        have shots' := served.shots shots
        have later : OneShots (fun n => now (n + 1)) c w :=
          ⟨shots'.table, shots'.oneShot, shots'.owned, fun j n => shots'.reads j (n + 1)⟩
        have fewer := served.fewer
        obtain ⟨q, S, looped, all, ends, top'⟩ := ih needReesched (past ++ [i]) later (by omega)
        refine ⟨q, i :: S, ?_, by simp [all], ends.cons shots root held due served, top'⟩
        unfold updateLoop
        simp only [top, due, if_true, ran, bind, Except.bind, shots'.next 0]
        exact looped
      · refine ⟨⟨k, topOf c k, action, past⟩, [], ?_, by simp, .nothing shots ?_, ?_⟩
        · unfold updateLoop
          simp only [top, due, Bool.false_eq_true, if_false]
        · intro j first _
          rw [root] at first
          cases first
          simpa using due
        · intro j d there
          simp only [top, Option.some.injEq, Prod.mk.injEq] at there
          rw [← there.1]
          exact held
    · have none_ : topOf c k = none := if_neg busy
      refine ⟨⟨k, topOf c k, action, past⟩, [], ?_, by simp, .nothing shots ?_, ?_⟩
      · unfold updateLoop
        simp only [none_]
      · intro j _ there
        obtain ⟨p, low, high, _⟩ := there
        omega
      · intro j d there
        simp [none_] at there

/-- A call of update_hwtimer at the reading `c` serves the timers that are due,
    each once, takes these off the heap and leaves the others on it, as they were
    and armed. -/
def FiresExactlyDue (fuel : Nat) (now : Nat → Clocks) (c : Duration) (k : Kernel T) : Prop :=
  ∃ r, updateHwtimer fuel now k = .ok r ∧ r.served.Nodup ∧
    (∀ i, i ∈ r.served ↔ InHeap k i ∧ (k.timerArray i).timerValue ≤ c) ∧
    (∀ i, InHeap r.kernel i ↔ InHeap k i ∧ ¬(k.timerArray i).timerValue ≤ c) ∧
    ∀ i, InHeap r.kernel i → r.kernel.timerArray i = k.timerArray i ∧
      (r.kernel.timerArray i).armed = true

/-- A value not after `c` passes the test: it is at most 2^31 before it with the
    same high word, or so far before it that the difference of the high words
    turns positive. -/
def PastPasses (v c : Duration) : Prop :=
  (v.toNat / 2 ^ 32 = c.toNat / 2 ^ 32 ∧ c.toNat - v.toNat ≤ 2 ^ 31) ∨
    2 ^ 31 < c.toNat / 2 ^ 32 - v.toNat / 2 ^ 32

/-- A value after `c` does not pass it: it is less than 2^31 after it with the
    same high word, or its high word is at least 2^31 further. -/
def FutureWaits (v c : Duration) : Prop :=
  (v.toNat / 2 ^ 32 = c.toNat / 2 ^ 32 ∧ v.toNat - c.toNat < 2 ^ 31) ∨
    2 ^ 31 ≤ v.toNat / 2 ^ 32 - c.toNat / 2 ^ 32

theorem hiWord_toNat (d : Duration) : (hiWord d).toNat = d.toNat / 2 ^ 32 := by
  have bound := d.isLt
  simp only [hiWord, BitVec.toNat_setWidth, BitVec.toNat_ushiftRight, Nat.shiftRight_eq_div_pow]
  omega

theorem lowWord_toNat (d : Duration) : (lowWord d).toNat = d.toNat % 2 ^ 32 := by
  simp only [lowWord, BitVec.toNat_setWidth]

theorem judgedDue_iff (v c : Duration) : judgedDue v c = true ↔
    0 < (hiWord v - hiWord c).toInt ∨
      (hiWord v - hiWord c).toInt = 0 ∧ (lowWord v - lowWord c).toInt ≤ 0 := by
  simp [judgedDue]

theorem judgedDue_past {v c : Duration} (due : v ≤ c) : judgedDue v c = true ↔ PastPasses v c := by
  have order := BitVec.le_def.mp due
  have boundV := v.isLt
  have boundC := c.isLt
  rw [judgedDue_iff]
  simp only [BitVec.toInt_eq_toNat_cond, BitVec.toNat_sub, hiWord_toNat, lowWord_toNat, PastPasses]
  omega

theorem judgedDue_future {v c : Duration} (later : ¬v ≤ c) :
    judgedDue v c = false ↔ FutureWaits v c := by
  have order : ¬v.toNat ≤ c.toNat := fun le => later (BitVec.le_def.mpr le)
  have boundV := v.isLt
  have boundC := c.isLt
  rw [← Bool.not_eq_true, judgedDue_iff]
  simp only [BitVec.toInt_eq_toNat_cond, BitVec.toNat_sub, hiWord_toNat, lowWord_toNat, FutureWaits]
  omega

theorem updateHwtimer_ends {fuel : Nat} {now : Nat → Clocks} {c : Duration} {k : Kernel T}
    (shots : OneShots now c k) (busy : 0 < k.timerHeap.nelem) (enough : k.timerHeap.nelem < fuel) :
    ∃ r, updateHwtimer fuel now k = .ok r ∧ LoopEnd c k r.kernel r.served := by
  obtain ⟨i, _, root, held, top⟩ := shots.root busy
  have later : OneShots (fun n => now (n + 1)) c k :=
    ⟨shots.table, shots.oneShot, shots.owned, fun j n => shots.reads j (n + 1)⟩
  obtain ⟨q, S, looped, all, ends, _⟩ := updateLoop_ends fuel 0 [] later enough
  rw [List.nil_append] at all
  rw [top] at looped
  simp only [updateHwtimer, bind, Except.bind, pure, Except.pure]
  rw [shots.next 0, top]
  simp only
  rw [looped]
  rw [← all] at ends
  cases last : q.top with
  | none => exact ⟨q, by simp only [last], ends⟩
  | some pair =>
    simp only [last]
    refine ⟨_, rfl, ?_⟩
    exact ⟨ends.nodup, ends.passed, ends.left, ends.before, ends.kept, ends.table, ends.stops⟩

theorem updateHwtimer_empty {fuel : Nat} {now : Nat → Clocks} {k : Kernel T}
    (empty : ¬0 < k.timerHeap.nelem) : updateHwtimer fuel now k = .error .nullDeref := by
  simp only [updateHwtimer, nextTimer, heapMin, if_neg empty, bind, Except.bind, pure, Except.pure]
  rfl

omit [DecidableEq T] in
theorem OneShots.on {now : Nat → Clocks} {c : Duration} {k : Kernel T} {i : Nat}
    (shots : OneShots now c k) (there : InHeap k i) : (k.timerArray i).armed = true := by
  have bound : i < maxTimers := by
    obtain ⟨p, low, high, here⟩ := there
    obtain ⟨j, below, same⟩ := shots.table.filled p low high
    rw [here] at same
    cases same
    exact below
  exact ((shots.table.members i bound).mp there).2

section
variable {now : Nat → Clocks} {c : Duration} {k w : Kernel T} {S : List Nat}

omit [DecidableEq T]

theorem LoopEnd.none_left (ends : LoopEnd c k w S)
    (past : ∀ i, InHeap k i → (k.timerArray i).timerValue ≤ c → judgedDue (k.timerArray i).timerValue c = true)
    {i : Nat} (there : InHeap w i) : ¬(k.timerArray i).timerValue ≤ c := by
  intro due
  obtain ⟨p, low, high, here⟩ := there
  obtain ⟨j, _, root⟩ := ends.table.filled 1 (le_refl 1) (by omega)
  have first : InHeap w j := ⟨1, le_refl 1, by omega, root⟩
  have order := ends.table.ordered.root low high
  rw [root, here] at order
  have least : (w.timerArray j).timerValue ≤ (w.timerArray i).timerValue := BitVec.le_def.mpr order
  rw [ends.kept j first, ends.kept i ⟨p, low, high, here⟩] at least
  have passes := past j ((ends.left j).mp first).1 (BitVec.le_trans least due)
  rw [ends.stops j root first] at passes
  cases passes

theorem LoopEnd.none_early (ends : LoopEnd c k w S)
    (future : ∀ i, InHeap k i → ¬(k.timerArray i).timerValue ≤ c →
      (∀ j, InHeap k j → ¬(k.timerArray j).timerValue ≤ c →
        (k.timerArray i).timerValue ≤ (k.timerArray j).timerValue) →
      judgedDue (k.timerArray i).timerValue c = false)
    {i : Nat} (served : i ∈ S) : (k.timerArray i).timerValue ≤ c := by
  by_contra early
  -- the least of the values served early belongs to a least timer not due
  have member_iff : ∀ j, j ∈ S.toFinset.filter (fun j => ¬(k.timerArray j).timerValue ≤ c) ↔
      j ∈ S ∧ ¬(k.timerArray j).timerValue ≤ c := by simp
  obtain ⟨j, member, least⟩ := Finset.exists_min_image
    (S.toFinset.filter fun j => ¬(k.timerArray j).timerValue ≤ c)
    (fun j => (k.timerArray j).timerValue.toNat) ⟨i, (member_iff i).mpr ⟨served, early⟩⟩
  obtain ⟨inside, late⟩ := (member_iff j).mp member
  obtain ⟨held, passes⟩ := ends.passed j inside
  have fails := future j held late ?_
  · rw [passes] at fails
    cases fails
  · intro l there after
    by_cases both : l ∈ S
    · exact BitVec.le_def.mpr (least l ((member_iff l).mpr ⟨both, after⟩))
    · exact ends.before j inside l ((ends.left l).mpr ⟨there, both⟩)

end

/-- update_hwtimer serves exactly the timers that are due if and only if there is
    a timer, the test passes for every timer that is due, and it fails for the
    first one that is not. -/
theorem fires_exactly_due_iff {fuel : Nat} {now : Nat → Clocks} {c : Duration} {k : Kernel T}
    (shots : OneShots now c k) (enough : k.timerHeap.nelem < fuel) :
    FiresExactlyDue fuel now c k ↔
      0 < k.timerHeap.nelem ∧
      (∀ i, InHeap k i → (k.timerArray i).timerValue ≤ c → PastPasses (k.timerArray i).timerValue c) ∧
      ∀ i, InHeap k i → ¬(k.timerArray i).timerValue ≤ c →
        (∀ j, InHeap k j → ¬(k.timerArray j).timerValue ≤ c →
          (k.timerArray i).timerValue ≤ (k.timerArray j).timerValue) →
        FutureWaits (k.timerArray i).timerValue c := by
  constructor
  · intro exactly
    obtain ⟨r, ran, _, due, left, _⟩ := exactly
    have busy : 0 < k.timerHeap.nelem := by
      by_contra empty
      rw [updateHwtimer_empty empty] at ran
      cases ran
    obtain ⟨r', ran', ends⟩ := updateHwtimer_ends shots busy enough
    rw [ran] at ran'
    cases ran'
    refine ⟨busy, fun i held past => ?_, fun i held late least => ?_⟩
    · exact (judgedDue_past past).mp (ends.passed i ((due i).mpr ⟨held, past⟩)).2
    · -- the root of what is left has the value of `i` and failed the test
      obtain ⟨p, low, high, here⟩ := (left i).mpr ⟨held, late⟩
      obtain ⟨j, _, root⟩ := ends.table.filled 1 (le_refl 1) (by omega)
      have first : InHeap r.kernel j := ⟨1, le_refl 1, by omega, root⟩
      obtain ⟨heldJ, lateJ⟩ := (left j).mp first
      have order := ends.table.ordered.root low high
      rw [root, here] at order
      have below : (r.kernel.timerArray j).timerValue ≤ (r.kernel.timerArray i).timerValue :=
        BitVec.le_def.mpr order
      rw [ends.kept j first, ends.kept i ⟨p, low, high, here⟩] at below
      have same := BitVec.le_antisymm (least j heldJ lateJ) below
      have fails := ends.stops j root first
      rw [← same] at fails
      exact (judgedDue_future late).mp fails
  · intro conditions
    obtain ⟨busy, past, future⟩ := conditions
    obtain ⟨r, ran, ends⟩ := updateHwtimer_ends shots busy enough
    have early : ∀ i ∈ r.served, (k.timerArray i).timerValue ≤ c := fun i =>
      ends.none_early fun i held late least => (judgedDue_future late).mpr (future i held late least)
    have behind : ∀ i, InHeap r.kernel i → ¬(k.timerArray i).timerValue ≤ c := fun i =>
      ends.none_left fun i held due => (judgedDue_past due).mpr (past i held due)
    refine ⟨r, ran, ends.nodup, fun i => ?_, fun i => ?_, fun i there => ?_⟩
    · constructor
      · intro member
        exact ⟨(ends.passed i member).1, early i member⟩
      · intro both
        by_contra missing
        exact behind i ((ends.left i).mpr ⟨both.1, missing⟩) both.2
    · constructor
      · intro there
        exact ⟨((ends.left i).mp there).1, behind i there⟩
      · intro both
        exact (ends.left i).mpr ⟨both.1, fun member => both.2 (early i member)⟩
    · have kept := ends.kept i there
      refine ⟨kept, ?_⟩
      rw [kept]
      exact shots.on ((ends.left i).mp there).1

def claimedTimer : Kernel (Fin 2) :=
  { bootKernel (0 : Fin 2) with
    timerArray := (allocKtimer .monotonic 1 .wakeup fun _ => Ktimer.zero).1 }

def armedTimer (value : Duration) : Kernel (Fin 2) :=
  match armTimer ⟨0, 0⟩ 0 value 0 claimedTimer with
  | .ok (k, _) => k
  | .error _ => claimedTimer

theorem armedTimer_inHeap {value : Duration} {i : Nat} (there : InHeap (armedTimer value) i) :
    i = 0 ∧ (armedTimer value).timerArray i = ⟨some 1, value + 0, 0, 0x300#32, .monotonic, .wakeup, 0⟩ := by
  obtain ⟨p, low, high, here⟩ := there
  have size : (armedTimer value).timerHeap.nelem = 1 := rfl
  have root : (armedTimer value).timerHeap.array 1 = some 0 := rfl
  rw [show p = 1 by omega, root] at here
  cases here
  exact ⟨rfl, rfl⟩

theorem armedTimer_shots (value c : Duration) : OneShots (fun _ => ⟨c, 0⟩) c (armedTimer value) := by
  have booted : (bootKernel (0 : Fin 2)).TimersOk := timersOk_start (fun _ => rfl) rfl
  have claimed : claimedTimer.TimersOk := allocKtimer_timersOk booted .monotonic 1 .wakeup
  have ran : armTimer ⟨0, 0⟩ 0 value 0 claimedTimer = .ok (armedTimer value, 0) := rfl
  refine ⟨armTimer_timersOk claimed ?_ ran, fun i there => ?_, fun i there => ?_, fun i n there => ?_⟩
  · intro i same both
    cases same
    revert both
    decide
  · rw [(armedTimer_inHeap there).2]
  · rw [(armedTimer_inHeap there).2]
    exact ⟨1, rfl⟩
  · rw [readClock, (armedTimer_inHeap there).2]

theorem fires_exactly_due_iff_one :
    FiresExactlyDue 2 (fun _ => ⟨150, 0⟩) 150 (armedTimer 100) := by
  apply (fires_exactly_due_iff (armedTimer_shots 100 150) (by decide)).mpr
  refine ⟨by decide, fun i there _ => ?_, fun i there late => ?_⟩
  · rw [(armedTimer_inHeap there).2]
    exact .inl (by decide)
  · rw [(armedTimer_inHeap there).2] at late
    exact absurd (by decide) late

/-- A timer for 2^32 is served at the reading 5, long before it is due, and one
    for 2^32 - 1 is not served at the reading 2^32. -/
theorem fires_exactly_due_fails :
    (OneShots (fun _ => ⟨5, 0⟩) 5 (armedTimer (1 <<< 32)) ∧
      ¬FiresExactlyDue 2 (fun _ => ⟨5, 0⟩) 5 (armedTimer (1 <<< 32))) ∧
    OneShots (fun _ => ⟨1 <<< 32, 0⟩) (1 <<< 32) (armedTimer 0xFFFFFFFF) ∧
      ¬FiresExactlyDue 2 (fun _ => ⟨1 <<< 32, 0⟩) (1 <<< 32) (armedTimer 0xFFFFFFFF) := by
  refine ⟨⟨armedTimer_shots _ _, fun exactly => ?_⟩, armedTimer_shots _ _, fun exactly => ?_⟩
  · obtain ⟨r, ran, _, served, _⟩ := exactly
    have early : 0 ∈ r.served := by
      have computed : ((updateHwtimer 2 (fun _ => ⟨5, 0⟩) (armedTimer (1 <<< 32))).map
        fun r => r.served) = .ok [0] := by decide +kernel
      rw [ran] at computed
      rw [show r.served = [0] from Except.ok.inj computed]
      exact List.mem_singleton.mpr rfl
    obtain ⟨there, due⟩ := (served 0).mp early
    rw [(armedTimer_inHeap there).2] at due
    exact absurd due (by decide)
  · obtain ⟨r, ran, _, served, _⟩ := exactly
    have none_ : r.served = [] := by
      have computed : ((updateHwtimer 2 (fun _ => ⟨1 <<< 32, 0⟩) (armedTimer 0xFFFFFFFF)).map
        fun r => r.served) = .ok [] := by decide +kernel
      rw [ran] at computed
      exact Except.ok.inj computed
    have there : InHeap (armedTimer 0xFFFFFFFF) 0 := ⟨1, le_refl 1, le_refl 1, rfl⟩
    have member := (served 0).mpr ⟨there, by rw [(armedTimer_inHeap there).2]; decide⟩
    rw [none_] at member
    cases member

end L4ertl
