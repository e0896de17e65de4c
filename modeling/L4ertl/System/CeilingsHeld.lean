import L4ertl.Lib.Ceilings
import L4ertl.System.CeilingMoves
import L4ertl.System.Dispatch

/-!
Mutexes with PTHREAD_PRIO_PROTECT never block. If every thread locks only mutexes
whose ceiling is more urgent than its own base priority, gives them back in the
reverse order and neither sleeps nor ends while it holds one, a lock always finds
its mutex free, and once a thread runs, nobody that holds a mutex is more urgent
than its base priority.
-/
namespace L4ertl
open Intrusive

section
variable {T : Type}

structure Guarded (base : T → Int) (k : Kernel T) (t : T) (m : Nat) : Prop where
  protect : (k.mutex m).attr.prioProtection = .protect
  range : maxSchedPriority ≤ (k.mutex m).attr.prio
  above : (k.mutex m).attr.prio < base t

instance (base : T → Int) (k : Kernel T) (t : T) (m : Nat) : Decidable (Guarded base k t m) :=
  decidable_of_iff ((k.mutex m).attr.prioProtection = .protect ∧
      maxSchedPriority ≤ (k.mutex m).attr.prio ∧ (k.mutex m).attr.prio < base t)
    ⟨fun all => ⟨all.1, all.2.1, all.2.2⟩, fun all => ⟨all.protect, all.range, all.above⟩⟩

variable [DecidableEq T]

/-- The rules for a thread's calls, with the mutexes that it holds. -/
def Call.Follows (base : T → Int) (k : Kernel T) (held : List Nat) : Call T → Prop
  | .mutexLock m | .mutexTrylock m => Guarded base k k.currentThread m ∧ m ∉ held
  | .mutexUnlock m => (k.mutex m).owner = some k.currentThread → held.head? = some m ∧ HeldOnce k m
  | .condWait _ m => (k.mutex m).owner = some k.currentThread → held = [m] ∧ HeldOnce k m
  | .semWait s => held ≠ [] → (k.sem s).value ≠ 0
  | .usleep _ | .exit => held = []
  | .create addr _ attr => ∀ a, addr = some a → createdPrio attr = base a
  | .setschedparam t _ param => ∀ p, param = some p → p.schedPriority = k.prio t
  | _ => True

/-- A holder takes no signal that cancels or suspends it. -/
def Point.Follows (k : Kernel T) (held : List Nat) : Point → Prop
  | .leave (_ + 1) => held ≠ [] → (takeSignals k).2 &&& 0x6#32 = 0#32
  | _ => True

instance (k : Kernel T) (held : List Nat) : (p : Point) → Decidable (p.Follows k held)
  | .leave (_ + 1) => inferInstanceAs (Decidable (held ≠ [] → (takeSignals k).2 &&& 0x6#32 = 0#32))
  | .leave 0 | .done | .lockLoop _ | .condUnlocked _ _ | .condWoken _ | .condLock _ | .semWait _
  | .semPost _ | .slept _ | .signals _ _ _ _ => isTrue trivial

def LockHistory.Follows (base : T → Int) (h : LockHistory T) : Label T → Prop
  | .enter (.call c) _ => c.Follows base h.sys.kernel (h.held h.sys.kernel.currentThread)
  | .enter .irq _ => True
  | .resume _ => ∀ x, h.sys.cont h.sys.kernel.currentThread = some x →
    x.2.Follows h.sys.kernel (h.held h.sys.kernel.currentThread)

instance decidableGoesOn {W P : Type} (goesOn : Option (W × P)) (rule : P → Prop) [DecidablePred rule] :
    Decidable (∀ x, goesOn = some x → rule x.2) :=
  match goesOn with
  | none => isTrue fun _ none => by cases none
  | some y => decidable_of_iff (rule y.2) ⟨fun ok _ same => by cases same; exact ok, fun all => all y rfl⟩

/-- Each mutex has noted what those locked before it make of the base priority. -/
def Noted (b : Int) (k : Kernel T) : List Nat → Prop
  | [] => True
  | m :: ms => (k.mutex m).attr.ownerPrio = ceilingOf b k ms ∧ Noted b k ms

/-- Where a thread can be inside the kernel: never in the loop of a lock. -/
def Point.At (base : T → Int) (k : Kernel T) (t : T) (held : List Nat) : Point → Prop
  | .lockLoop _ | .condLock _ => False
  | .condUnlocked _ m | .condWoken m => held = [] ∧ Guarded base k t m
  | .signals _ _ _ _ => held = []
  | _ => True

structure CeilingsHeld (base : T → Int) (k : Kernel T) (held : T → List Nat) : Prop where
  tracks : Tracks k held
  guarded : ∀ t m, m ∈ held t → Guarded base k t m
  noted : ∀ t, Noted (base t) k (held t)
  alive : ∀ t, held t ≠ [] → k.live t = true
  level : ∀ t, k.live t = true → k.prio t = ceilingOf (base t) k (held t)
  nested : Ceilings.Nested base k.prio (fun t => held t ≠ [])

structure CeilingInv (base : T → Int) (h : LockHistory T) : Prop where
  holding : CeilingsHeld base h.sys.kernel h.held
  awake : ∀ t, h.held t ≠ [] → h.sys.kernel.state t = readyThread
  front : ∀ t, h.held t ≠ [] →
    h.sys.kernel.prio h.sys.kernel.currentThread ≤ h.sys.kernel.prio t
  places : ∀ t w p, h.sys.cont t = some (w, p) → p.At base h.sys.kernel t (h.held t)

end

section
variable {T : Type} {base : T → Int} {k x : Kernel T} {t : T}

def CeilingsKept (k x : Kernel T) : Prop :=
  ∀ m, (x.mutex m).attr.prioProtection = (k.mutex m).attr.prioProtection ∧
    (x.mutex m).attr.prio = (k.mutex m).attr.prio

theorem LevelMove.ceilings {about : Option Nat} (move : LevelMove t k x about) :
    CeilingsKept k x := by
  intro n
  cases move with
  | kept about kept =>
    rw [(kept.mutexes n).2]
    exact ⟨rfl, rfl⟩
  | taken m free raised others =>
    by_cases same : n = m
    · rw [same, raised.attr]
      exact ⟨rfl, rfl⟩
    · rw [raised.others n same]
      exact ⟨rfl, rfl⟩
  | given m mine free lowered others =>
    by_cases same : n = m
    · rw [same, lowered.attr]
      exact ⟨rfl, rfl⟩
    · rw [lowered.others n same]
      exact ⟨rfl, rfl⟩

theorem Guarded.kept {m : Nat} (guarded : Guarded base k t m) (kept : CeilingsKept k x) :
    Guarded base x t m := by
  obtain ⟨protection, ceiling⟩ := kept m
  constructor
  · rw [protection]
    exact guarded.protect
  · rw [ceiling]
    exact guarded.range
  · rw [ceiling]
    exact guarded.above

theorem Noted.kept {b : Int} {ms : List Nat} (noted : Noted b k ms) (kept : CeilingsKept k x)
    (attr : ∀ m ∈ ms, (x.mutex m).attr.ownerPrio = (k.mutex m).attr.ownerPrio) : Noted b x ms := by
  induction ms with
  | nil => trivial
  | cons m ms ih =>
    refine ⟨?_, ih noted.2 fun n member => attr n (List.mem_cons_of_mem _ member)⟩
    rw [attr m List.mem_cons_self, ceilingOf_congr b ms fun n => (kept n).2]
    exact noted.1

theorem ceilingOf_cons (b : Int) (k : Kernel T) (m : Nat) (ms : List Nat) :
    ceilingOf b k (m :: ms) = min (k.mutex m).attr.prio (ceilingOf b k ms) := rfl

theorem ceilingOf_le (b : Int) (k : Kernel T) (ms : List Nat) :
    ceilingOf b k ms ≤ b ∧ ∀ m ∈ ms, ceilingOf b k ms ≤ (k.mutex m).attr.prio := by
  induction ms with
  | nil => exact ⟨le_refl _, List.forall_mem_nil _⟩
  | cons m ms ih =>
    rw [ceilingOf_cons]
    refine ⟨le_trans (min_le_right _ _) ih.1, fun n member => ?_⟩
    rcases List.mem_cons.mp member with rfl | later
    · exact min_le_left _ _
    · exact le_trans (min_le_right _ _) (ih.2 n later)

theorem ceilingOf_ge {b : Int} {ms : List Nat} (low : maxSchedPriority ≤ b)
    (range : ∀ m ∈ ms, maxSchedPriority ≤ (k.mutex m).attr.prio) :
    maxSchedPriority ≤ ceilingOf b k ms := by
  induction ms with
  | nil => exact low
  | cons m ms ih =>
    rw [ceilingOf_cons]
    exact le_min (range m List.mem_cons_self) (ih fun n member => range n (List.mem_cons_of_mem _ member))

theorem LevelsKept.ceilings (kept : LevelsKept k x) : CeilingsKept k x := by
  intro m
  rw [(kept.mutexes m).2]
  exact ⟨rfl, rfl⟩

theorem CeilingsHeld.kept {held : T → List Nat} (inv : CeilingsHeld base k held)
    (kept : LevelsKept k x) (live : ∀ u, k.live u = true → x.live u = true)
    (created : ∀ u, x.live u = true → k.live u = true ∨ x.prio u = base u) :
    CeilingsHeld base x held where
  tracks := inv.tracks.same fun m => (kept.mutexes m).1
  guarded u m member := (inv.guarded u m member).kept kept.ceilings
  noted u := (inv.noted u).kept kept.ceilings fun m _ => by rw [(kept.mutexes m).2]
  alive u holds := live u (inv.alive u holds)
  level u alive := by
    rw [ceilingOf_congr _ _ fun m => (kept.ceilings m).2]
    by_cases before : k.live u = true
    · rw [kept.prios u before]
      exact inv.level u before
    · have empty : held u = [] := by
        by_contra holds
        exact before (inv.alive u holds)
      rw [empty]
      exact (created u alive).resolve_left before
  nested := by
    have same : ∀ u, held u ≠ [] → x.prio u = k.prio u := fun u holds => kept.prios u (inv.alive u holds)
    constructor
    · intro u holds
      rw [same u holds]
      exact inv.nested.above u holds
    · intro u v one two different
      rw [same u one, same v two]
      exact inv.nested.apart u v one two different

section
variable [DecidableEq T]

theorem CeilingsHeld.taken {held : T → List Nat} {m : Nat} (inv : CeilingsHeld base k held)
    (alive : k.live t = true) (front : ∀ u, held u ≠ [] → k.prio t ≤ k.prio u)
    (free : (k.mutex m).owner = none) (guarded : Guarded base k t m) (raised : Raised t m k x)
    (others : ∀ u, u ≠ t → x.prio u = k.prio u) (live : x.live = k.live) :
    CeilingsHeld base x (Function.update held t (m :: held t)) := by
  have move : LevelMove t k x (some m) := .taken m free raised others
  have outside : ∀ u, m ∉ held u := by
    intro u member
    rw [inv.tracks.owned, free] at member
    cases member
  have mine : Function.update held t (m :: held t) t = m :: held t := Function.update_self ..
  have away : ∀ u, u ≠ t → Function.update held t (m :: held t) u = held u :=
    fun u other => Function.update_of_ne other ..
  have level : x.prio t = ceilingOf (base t) x (m :: held t) := by
    rw [raised.prio, ceilingOf_cons, (move.ceilings m).2,
      ceilingOf_congr _ _ fun n => (move.ceilings n).2, inv.level t alive]
  constructor
  · exact inv.tracks.lock free raised.owner fun n other => by rw [raised.others n other]
  · intro u n member
    by_cases self : u = t
    · subst self
      rw [mine] at member
      rcases List.mem_cons.mp member with rfl | before
      · exact guarded.kept move.ceilings
      · exact (inv.guarded u n before).kept move.ceilings
    · rw [away u self] at member
      exact (inv.guarded u n member).kept move.ceilings
  · intro u
    have below : ∀ v, Noted (base v) x (held v) := by
      intro v
      refine (inv.noted v).kept move.ceilings fun n member => ?_
      rw [raised.others n fun same => outside v (same ▸ member)]
    by_cases self : u = t
    · subst self
      rw [mine]
      refine ⟨?_, below u⟩
      rw [raised.attr, ceilingOf_congr _ _ fun n => (move.ceilings n).2]
      exact inv.level u alive
    · rw [away u self]
      exact below u
  · intro u holds
    rw [live]
    by_cases self : u = t
    · rw [self]
      exact alive
    · rw [away u self] at holds
      exact inv.alive u holds
  · intro u there
    rw [live] at there
    by_cases self : u = t
    · subst self
      rw [mine]
      exact level
    · rw [away u self, others u self, ceilingOf_congr _ _ fun n => (move.ceilings n).2]
      exact inv.level u there
  · apply inv.nested.raise front
    · intro idle
      have empty : held t = [] := not_not.mp idle
      have here := inv.level t alive
      rw [empty] at here
      exact here
    · intro u other holds
      rw [away u other] at holds
      exact ⟨holds, others u other⟩
    · have low := (ceilingOf_le (base t) x (m :: held t)).2 m List.mem_cons_self
      rw [← level, (move.ceilings m).2] at low
      exact lt_of_le_of_lt low guarded.above

theorem CeilingsHeld.given {held : T → List Nat} {m : Nat} {ms : List Nat}
    (inv : CeilingsHeld base k held) (alive : k.live t = true) (last : held t = m :: ms)
    (free : (x.mutex m).owner = none) (lowered : Lowered t m k x) (mine : (k.mutex m).owner = some t)
    (others : ∀ u, u ≠ t → x.prio u = k.prio u) (live : x.live = k.live) :
    CeilingsHeld base x (Function.update held t ms) := by
  have move : LevelMove t k x (some m) := .given m mine free lowered others
  have outside : m ∉ ms := by
    have once := inv.tracks.nodup t
    rw [last] at once
    exact (List.nodup_cons.mp once).1
  have self : Function.update held t ms t = ms := Function.update_self ..
  have away : ∀ u, u ≠ t → Function.update held t ms u = held u :=
    fun u other => Function.update_of_ne other ..
  have notes : Noted (base t) k (m :: ms) := last ▸ inv.noted t
  have level : x.prio t = ceilingOf (base t) x ms := by
    rw [lowered.prio, notes.1, ceilingOf_congr _ _ fun n => (move.ceilings n).2]
  have sub : ∀ u n, n ∈ Function.update held t ms u → n ∈ held u ∧ n ≠ m := by
    intro u n member
    by_cases same : u = t
    · subst same
      rw [self] at member
      rw [last]
      exact ⟨List.mem_cons_of_mem _ member, fun eq => outside (eq ▸ member)⟩
    · rw [away u same] at member
      refine ⟨member, fun eq => same ?_⟩
      rw [inv.tracks.owned, eq, mine] at member
      exact (Option.some.inj member).symm
  constructor
  · have freed := inv.tracks.unlock mine free fun n other => by rw [lowered.others n other]
    rw [last, List.erase_cons_head] at freed
    exact freed
  · intro u n member
    exact (inv.guarded u n (sub u n member).1).kept move.ceilings
  · intro u
    have attr : ∀ n ∈ Function.update held t ms u,
        (x.mutex n).attr.ownerPrio = (k.mutex n).attr.ownerPrio := by
      intro n member
      rw [lowered.others n (sub u n member).2]
    by_cases same : u = t
    · subst same
      rw [self] at attr ⊢
      exact notes.2.kept move.ceilings attr
    · rw [away u same] at attr ⊢
      exact (inv.noted u).kept move.ceilings attr
  · intro u holds
    rw [live]
    by_cases same : u = t
    · rw [same]
      exact alive
    · rw [away u same] at holds
      exact inv.alive u holds
  · intro u there
    rw [live] at there
    by_cases same : u = t
    · subst same
      rw [self]
      exact level
    · rw [away u same, others u same, ceilingOf_congr _ _ fun n => (move.ceilings n).2]
      exact inv.level u there
  · apply inv.nested.lower (r := t)
    · intro u other holds
      rw [away u other] at holds
      exact ⟨holds, others u other⟩
    · intro holds
      rw [self] at holds
      obtain ⟨n, rest, first⟩ := List.exists_cons_of_ne_nil holds
      have kept : n ∈ held t := by
        rw [last, first]
        simp
      have before := inv.level t alive
      rw [last, ceilingOf_cons, ← notes.1, ← lowered.prio] at before
      refine ⟨(fun same => by cases last.symm.trans same), ?_, ?_⟩
      · rw [before]
        exact min_le_right _ _
      · have low := (ceilingOf_le (base t) x ms).2 n (by rw [first]; simp)
        rw [← level, (move.ceilings n).2] at low
        exact lt_of_le_of_lt low (inv.guarded t n kept).above

end

theorem CeilingsHeld.free {held : T → List Nat} {m : Nat} (inv : CeilingsHeld base k held)
    (alive : k.live t = true) (front : ∀ u, held u ≠ [] → k.prio t ≤ k.prio u)
    (guarded : Guarded base k t m) (other : m ∉ held t) : (k.mutex m).owner = none := by
  cases owner : (k.mutex m).owner with
  | none => rfl
  | some u =>
    have member : m ∈ held u := (inv.tracks.owned u m).mpr owner
    have holds : held u ≠ [] := List.ne_nil_of_mem member
    have apart : u ≠ t := fun same => other (same ▸ member)
    have reach := inv.nested.reach front (r := t) (fun idle => by
      have here := inv.level t alive
      rw [not_not.mp idle] at here
      exact here) holds apart guarded.above
    have low := (ceilingOf_le (base u) k (held u)).2 m member
    rw [← inv.level u (inv.alive u holds)] at low
    exact absurd (lt_of_lt_of_le reach low) (lt_irrefl _)

/-- The part of the invariant that `scheduling` does not touch, after a move. -/
structure CeilingStep (base : T → Int) (k x : Kernel T) (held held' : T → List Nat)
    (outcome : Outcome) : Prop where
  holding : CeilingsHeld base x held'
  away : ∀ u, u ≠ k.currentThread → held' u = held u
  ceilings : CeilingsKept k x
  awake : held' k.currentThread ≠ [] → x.state k.currentThread = readyThread
  front : (∀ p, outcome ≠ .sched p) → ∀ u, held' u ≠ [] → x.prio k.currentThread ≤ x.prio u
  place : ∀ p, outcome.onward = some p → p.At base x k.currentThread (held' k.currentThread)

end

section
variable {T : Type} [DecidableEq T] {base : T → Int} {k x : Kernel T} {held : T → List Nat}
  {outcome : Outcome}

theorem CeilingStep.of_move {about : Option Nat} (inv : CeilingsHeld base k held)
    (alive : k.live k.currentThread = true)
    (front : ∀ u, held u ≠ [] → k.prio k.currentThread ≤ k.prio u)
    (move : LevelMove k.currentThread k x about) (live : ∀ u, k.live u = true → x.live u = true)
    (created : ∀ u, x.live u = true → k.live u = true ∨ x.prio u = base u ∧ about = none)
    (guarded : ∀ m, about = some m → (k.mutex m).owner = none → (x.mutex m).owner ≠ none →
      Guarded base k k.currentThread m)
    (last : ∀ m, about = some m → (k.mutex m).owner = some k.currentThread →
      (x.mutex m).owner = none → ∃ ms, held k.currentThread = m :: ms)
    (awake : noteLock k.currentThread k x held about k.currentThread ≠ [] →
      x.state k.currentThread = readyThread)
    (stays : (∀ p, outcome ≠ .sched p) → x.prio k.currentThread ≤ k.prio k.currentThread)
    (place : ∀ p, outcome.onward = some p →
      p.At base x k.currentThread (noteLock k.currentThread k x held about k.currentThread)) :
    CeilingStep base k x held (noteLock k.currentThread k x held about) outcome := by
  have same : ∀ m, about = some m → x.live = k.live := by
    intro m here
    funext u
    cases before : k.live u with
    | true => exact live u before
    | false =>
      by_contra after
      rcases created u (by simpa using after) with there | ⟨_, none⟩
      · rw [before] at there
        cases there
      · rw [none] at here
        cases here
  have ceilings := move.ceilings
  cases move with
  | kept about kept =>
    have still : noteLock k.currentThread k x held about = held := by
      cases about with
      | none => rfl
      | some m =>
        simp only [noteLock]
        rw [if_pos (kept.mutexes m).1]
    rw [still] at awake place ⊢
    refine ⟨inv.kept kept live fun u there => (created u there).imp_right And.left, fun u _ => rfl,
      ceilings, awake, fun _ u holds => ?_, place⟩
    rw [kept.prios _ alive, kept.prios u (inv.alive u holds)]
    exact front u holds
  | taken m free raised others =>
    have pushed : noteLock k.currentThread k x held (some m) =
        Function.update held k.currentThread (m :: held k.currentThread) := by
      simp only [noteLock]
      rw [raised.owner, free, if_neg (fun same => by cases same), if_neg (fun same => by cases same)]
    rw [pushed] at awake place ⊢
    have owned : (x.mutex m).owner ≠ none := by
      rw [raised.owner]
      intro same
      cases same
    refine ⟨inv.taken alive front free (guarded m rfl free owned) raised others (same m rfl),
      fun u other => Function.update_of_ne other .., ceilings, awake, fun returns u holds => ?_, place⟩
    by_cases self : u = k.currentThread
    · rw [self]
    · rw [Function.update_of_ne self] at holds
      rw [others u self]
      exact le_trans (stays returns) (front u holds)
  | given m mine free lowered others =>
    obtain ⟨ms, first⟩ := last m rfl mine free
    have popped : noteLock k.currentThread k x held (some m) =
        Function.update held k.currentThread ms := by
      simp only [noteLock]
      rw [free, mine, if_neg (fun same => by cases same), if_pos rfl, first, List.erase_cons_head]
    rw [popped] at awake place ⊢
    refine ⟨inv.given alive first free lowered mine others (same m rfl),
      fun u other => Function.update_of_ne other .., ceilings, awake, fun returns u holds => ?_, place⟩
    by_cases self : u = k.currentThread
    · rw [self]
    · rw [Function.update_of_ne self] at holds
      rw [others u self]
      exact le_trans (stays returns) (front u holds)

theorem signalLoop_harmless (n : Nat) {mask : Word} {rounds signal : Nat} {pend : Word} {p : Option Point}
    (harmless : ∀ i, pend.getLsbD i = true → signal + i ≠ 1 ∧ signal + i ≠ 2)
    (ran : signalLoop mask rounds n signal pend k = .ok (x, p)) : p = none := by
  induction n generalizing signal pend k with
  | zero =>
    cases ran
    rfl
  | succ n ih =>
    have shifted : ∀ i, (pend >>> 1).getLsbD i = true → signal + 1 + i ≠ 1 ∧ signal + 1 + i ≠ 2 := by
      intro i bit
      rw [BitVec.getLsbD_ushiftRight] at bit
      have all := harmless (1 + i) bit
      omega
    unfold signalLoop at ran
    split at ran
    · cases ran
      rfl
    · simp only at ran
      split at ran
      · rename_i bit
        have now : pend.getLsbD 0 = true := by
          by_contra clear
          apply bit
          apply BitVec.eq_of_getLsbD_eq
          intro j _
          rw [BitVec.getLsbD_and]
          cases j with
          | zero => rw [Bool.eq_false_iff.mpr clear, Bool.false_and, BitVec.getLsbD_zero]
          | succ j => simp
        have calm := harmless 0 now
        have handled : ∀ w : Kernel T, runHandler signal w = .ok (w, false) := by
          intro w
          unfold runHandler
          rw [if_neg (by omega), if_neg (by omega)]
        rw [handled] at ran
        exact ih shifted ran
      · exact ih shifted ran

theorem doSignals_harmless {rounds : Nat} {p : Option Point}
    (harmless : (takeSignals k).2 &&& 0x6#32 = 0#32) (ran : doSignals rounds k = .ok (x, p)) : p = none := by
  refine signalLoop_harmless 32 (fun i (bit : (takeSignals k).2.getLsbD i = true) => ?_) ran
  have none : ((takeSignals k).2 &&& 0x6#32).getLsbD i = false := by rw [harmless]; simp
  rw [BitVec.getLsbD_and, bit, Bool.true_and] at none
  constructor
  · intro one
    have here : i = 1 := by omega
    rw [here] at none
    revert none
    decide
  · intro two
    have here : i = 2 := by omega
    rw [here] at none
    revert none
    decide

theorem Point.leave_calm {rounds : Nat} {env : Env} {mine : List Nat}
    (follows : Point.Follows k mine (.leave rounds)) (holds : mine ≠ [])
    (ran : (Point.leave rounds).run env k = .ok (x, outcome)) :
    ∃ p, outcome = .next p ∧ ∀ q, p = some q → ∃ n, q = .leave n := by
  cases rounds with
  | zero =>
    cases ran
    exact ⟨none, rfl, nofun⟩
  | succ rounds =>
    obtain ⟨r, signals, rfl⟩ := ran_leave ran
    rw [doSignals_harmless (follows holds) signals]
    refine ⟨_, rfl, fun q next => ?_⟩
    split at next
    · cases next
    · cases next
      exact ⟨rounds, rfl⟩

end
end L4ertl
