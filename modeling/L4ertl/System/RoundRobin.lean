import L4ertl.System.Start

/-!
The dispatch path against its plain counterparts: the two bitmap searches of
get_head_ss find what a scan of all lists finds, and pthread_yield_sys rotates
the list of the current thread.
-/
namespace L4ertl
open Intrusive
variable {T : Type} [DecidableEq T]

def lookforList (m : Links T) (thread : T) : Nat → Option T → Bool
  | 0, _ => false
  | _ + 1, none => false
  | n + 1, some p => if p = thread then true else lookforList m thread n (m p).next

/-- No list is longer than the number of threads, which bounds the walks. -/
def lookforSs [Fintype T] (thread : T) (ss : ActiveThreads T) : Int :=
  if (List.finRange 32).any fun i => (List.finRange 32).any fun j =>
      lookforList ss.matrix thread (Fintype.card T) (ss.threadMatrix (i, j))
  then 1 else 0

theorem lookforList_iff (m : Links T) (thread : T) (n : Nat) (p : Option T) :
    lookforList m thread n p = true ↔ thread ∈ collect m n p := by
  induction n generalizing p with
  | zero => simp [lookforList, collect]
  | succ n ih =>
    cases p with
    | none => simp [lookforList, collect]
    | some x =>
      simp only [lookforList, collect, List.mem_cons]
      split
      · rename_i same
        simp [same]
      · rename_i other
        rw [ih]
        constructor
        · exact Or.inr
        · intro either
          exact either.resolve_left fun same => other same.symm

theorem lookforSs_zero_iff [Fintype T] (thread : T) (ss : ActiveThreads T) :
    lookforSs thread ss = 0 ↔ ∀ c, thread ∉ threadsAt ss c := by
  have found : ((List.finRange 32).any fun i => (List.finRange 32).any fun j =>
      lookforList ss.matrix thread (Fintype.card T) (ss.threadMatrix (i, j))) = true ↔
      ∃ c, thread ∈ threadsAt ss c := by
    simp only [List.any_eq_true, List.mem_finRange, true_and, lookforList_iff]
    constructor
    · intro some
      obtain ⟨i, j, member⟩ := some
      exact ⟨(i, j), member⟩
    · intro some
      obtain ⟨c, member⟩ := some
      exact ⟨c.1, c.2, member⟩
  unfold lookforSs
  split
  · rename_i some
    obtain ⟨c, member⟩ := found.mp some
    constructor
    · intro zero
      cases zero
    · intro nowhere
      exact absurd member (nowhere c)
  · rename_i none
    constructor
    · intro _ c member
      exact none (found.mpr ⟨c, member⟩)
    · intro _
      rfl

theorem get_head_is_scan [Fintype T] {ss : ActiveThreads T} {r : ReadyModel T}
    (rep : Represents ss r) :
    (getHeadSs ss = (none, -1) ↔ ∀ t, lookforSs t ss = 0) ∧
    (¬(∀ t, lookforSs t ss = 0) →
      ∃ (i j : Fin 32) (t : T), getHeadSs ss = (some t, 32 * (i.val : Int) + j.val) ∧
        ss.threadMatrix (i, j) = some t ∧ (threadsAt ss (i, j)).head? = some t ∧
        ∀ d : Cell, threadsAt ss d ≠ [] → 32 * i.val + j.val ≤ 32 * d.1.val + d.2.val) := by
  have nowhere : (∀ t, lookforSs t ss = 0) ↔ ∀ c, r.lists c = [] := by
    constructor
    · intro none c
      apply List.eq_nil_iff_forall_not_mem.mpr
      intro t member
      rw [← rep.threadsAt_eq c] at member
      exact (lookforSs_zero_iff t ss).mp (none t) c member
    · intro empty t
      rw [lookforSs_zero_iff]
      intro c
      rw [rep.threadsAt_eq c, empty c]
      exact List.not_mem_nil
  have head : ¬(∀ c, r.lists c = []) → ∃ c t, getHeadSs ss = (some t, ij2prio c) ∧
      (r.lists c).head? = some t ∧ ∀ e, r.lists e ≠ [] → ij2prio c ≤ ij2prio e := by
    intro busy
    push Not at busy
    obtain ⟨d, busy⟩ := busy
    exact getHeadSs_urgent rep busy
  constructor
  · rw [nowhere]
    constructor
    · intro null
      by_contra busy
      obtain ⟨c, t, found, _⟩ := head busy
      rw [null] at found
      cases found
    · exact getHeadSs_empty rep
  · intro some
    rw [nowhere] at some
    obtain ⟨c, t, found, first, least⟩ := head some
    refine ⟨c.1, c.2, t, found, ?_, ?_, ?_⟩
    · rw [segment_head (rep.chain c), first]
    · rw [rep.threadsAt_eq c, first]
    · intro d full
      rw [rep.threadsAt_eq d] at full
      have order := least d full
      simp only [ij2prio] at order
      omega

theorem get_head_is_scan_last :
    let ss := insertSs (0 : Fin 2) 1023 (initSs zeroedThreads)
    ss.flbitmap = 0x80000000#32 ∧ ss.slbitmap 31 = 0x80000000#32 ∧
      ∃ (i j : Fin 32) (t : Fin 2), getHeadSs ss = (some t, 32 * (i.val : Int) + j.val) ∧
        ss.threadMatrix (i, j) = some t ∧ (threadsAt ss (i, j)).head? = some t ∧
        ∀ d : Cell, threadsAt ss d ≠ [] → 32 * i.val + j.val ≤ 32 * d.1.val + d.2.val := by
  have rep : Represents (insertSs (0 : Fin 2) 1023 (initSs zeroedThreads)) _ :=
    insertSs_represents (empty_represents fun _ => ⟨rfl, rfl, rfl⟩)
      (fun c => by simp [ReadyModel.empty]) 1023
  have somewhere : ¬∀ t, lookforSs t (insertSs (0 : Fin 2) 1023 (initSs zeroedThreads)) = 0 := by
    intro none
    exact absurd (none 0) (by decide +kernel)
  exact ⟨by decide, by decide, (get_head_is_scan rep).2 somewhere⟩

omit [DecidableEq T] in
theorem Represents.bitmaps_eq {ss ss' : ActiveThreads T} {r r' : ReadyModel T} (rep : Represents ss r)
    (rep' : Represents ss' r') (same : ∀ c, r'.lists c = [] ↔ r.lists c = []) :
    ss'.slbitmap = ss.slbitmap ∧ ss'.flbitmap = ss.flbitmap := by
  have rows : ss'.slbitmap = ss.slbitmap := by
    funext i
    apply word_ext
    intro j inside
    rw [rep'.second i ⟨j, inside⟩, rep.second i ⟨j, inside⟩, ne_eq, ne_eq, same]
  refine ⟨rows, word_ext ?_⟩
  intro i inside
  rw [rep'.first ⟨i, inside⟩, rep.first ⟨i, inside⟩, rows]

variable [Fintype T]

def yieldNow (now : Duration) (k : Kernel T) : Kernel T := scheduling now (pthreadYieldSys k).1

def yields : List Duration → Kernel T → Kernel T × List T
  | [], k => (k, [])
  | now :: later, k =>
    ((yields later (yieldNow now k)).1,
      (yieldNow now k).currentThread :: (yields later (yieldNow now k)).2)

/-- Outside interrupts, `ts` is the most urgent list and the current thread the
    first on it. -/
structure AtTurn (k : Kernel T) (r : ReadyModel T) (c : Cell) (ts : List T) : Prop where
  inv : ReadyInv k r
  outside : k.irqNestingCounter = 0#32 ∨ k.irqNestingCounter = schedPending
  list : r.lists c = ts
  first : ts.head? = some k.currentThread
  urgent : ∀ d, r.lists d ≠ [] → ij2prio c ≤ ij2prio d

omit [DecidableEq T] [Fintype T] in
theorem AtTurn.alive {k : Kernel T} {r : ReadyModel T} {c : Cell} {t : T} {ts : List T}
    (turn : AtTurn k r c (t :: ts)) :
    k.currentThread = t ∧ k.live t = true ∧ k.state t = readyThread ∧ c = prio2ij (k.prio t) := by
  have current : k.currentThread = t := (Option.some.inj turn.first).symm
  have member : t ∈ r.lists c := by
    rw [turn.list]
    exact List.mem_cons_self
  exact ⟨current, (turn.inv.listed t c).mp member⟩

theorem AtTurn.yielded {k : Kernel T} {r : ReadyModel T} {c : Cell} {t : T} {ts : List T}
    (turn : AtTurn k r c (t :: ts)) :
    ∃ r', ReadyInv (yieldThread k) r' ∧ r'.lists = Function.update r.lists c (ts ++ [t]) := by
  obtain ⟨current, alive, ready, cell⟩ := turn.alive
  have inv := yieldThread_readyInv turn.inv (by rw [current]; exact alive) (by rw [current]; exact ready)
  rw [current, ← current] at inv
  refine ⟨_, inv, ?_⟩
  funext d
  simp only [SsOp.model, current, ← cell]
  by_cases same : d = c
  · subst same
    simp only [Function.update_self, turn.list, List.erase_cons_head]
  · have absent : t ∉ r.lists d := by
      intro member
      exact same (((turn.inv.listed t d).mp member).2.2.trans cell.symm)
    simp only [Function.update_of_ne same, List.erase_of_not_mem absent]

theorem AtTurn.step {k : Kernel T} {r : ReadyModel T} {c : Cell} {t : T} {ts : List T}
    (turn : AtTurn k r c (t :: ts)) (now : Duration) :
    ∃ r', AtTurn (yieldNow now k) r' c (ts ++ [t]) ∧
      r'.lists = Function.update r.lists c (ts ++ [t]) := by
  obtain ⟨r', inv, lists⟩ := turn.yielded
  have here : r'.lists c = ts ++ [t] := by rw [lists, Function.update_self]
  have busy : ∀ d, r'.lists d ≠ [] → r.lists d ≠ [] := by
    intro d full
    by_cases same : d = c
    · rw [same, turn.list]
      exact List.cons_ne_nil t ts
    · rw [lists, Function.update_of_ne same] at full
      exact full
  have urgent : ∀ d, r'.lists d ≠ [] → ij2prio c ≤ ij2prio d := fun d full => turn.urgent d (busy d full)
  have full : r'.lists c ≠ [] := by simp [here]
  obtain ⟨⟨e, head, least⟩, irq⟩ := scheduling_head inv turn.outside full now
  have picked : e = c := by
    have nonempty : r'.lists e ≠ [] := by
      intro empty
      simp [empty] at head
    exact ij2prio_injective (Int.le_antisymm (least c full) (urgent e nonempty))
  rw [picked, here] at head
  exact ⟨r', ⟨(scheduling_only now _).readyInv inv, irq, here, head, urgent⟩, lists⟩

theorem AtTurn.run (nows : List Duration) {k : Kernel T} {r : ReadyModel T} {c : Cell} {as bs : List T}
    (turn : AtTurn k r c (as ++ bs)) (length : nows.length = as.length) :
    ∃ r', AtTurn (yields nows k).1 r' c (bs ++ as) ∧
      r'.lists = Function.update r.lists c (bs ++ as) ∧
      k.currentThread :: (yields nows k).2 = as ++ [(yields nows k).1.currentThread] := by
  induction nows generalizing k r as bs with
  | nil =>
    have none : as = [] := List.length_eq_zero_iff.mp length.symm
    subst none
    have same : bs ++ [] = r.lists c := by
      rw [List.append_nil]
      exact turn.list.symm
    refine ⟨r, ?_, ?_, rfl⟩
    · rw [List.append_nil]
      exact turn
    · rw [same, Function.update_eq_self]
  | cons now later ih =>
    cases as with
    | nil => cases length
    | cons a as =>
      have first : AtTurn k r c (a :: (as ++ bs)) := turn
      obtain ⟨r', next, lists⟩ := first.step now
      rw [List.append_assoc] at next lists
      obtain ⟨r'', last, lists', order⟩ := ih next (Nat.succ.inj length)
      have shift : bs ++ a :: as = bs ++ [a] ++ as := by simp
      refine ⟨r'', ?_, ?_, ?_⟩
      · rw [shift]
        exact last
      · rw [shift, lists', lists, Function.update_idem]
      · have current : k.currentThread = a := (Option.some.inj turn.first).symm
        rw [current]
        simp only [yields, List.cons_append]
        rw [order]

/-- pthread_yield_sys rotates the most urgent list, whose first thread is current,
    leaves the other lists and the bitmaps as they are and dispatches the next
    thread; as many yields as the list is long dispatch each thread of it once
    and restore it. -/
theorem yield_is_rotation {k : Kernel T} {r : ReadyModel T} (inv : ReadyInv k r)
    (outside : k.irqNestingCounter = 0#32 ∨ k.irqNestingCounter = schedPending) {c : Cell} {t : T}
    {ts : List T} (list : threadsAt k.activeThreads c = t :: ts) (current : k.currentThread = t)
    (urgent : ∀ d, threadsAt k.activeThreads d ≠ [] → ij2prio c ≤ ij2prio d) :
    (∀ now, let w := yieldNow now k
      threadsAt w.activeThreads = Function.update (threadsAt k.activeThreads) c (ts ++ [t]) ∧
      w.activeThreads.flbitmap = k.activeThreads.flbitmap ∧
      w.activeThreads.slbitmap = k.activeThreads.slbitmap ∧
      (ts ++ [t]).head? = some w.currentThread) ∧
    ∀ nows : List Duration, nows.length = (t :: ts).length →
      (yields nows k).2 = ts ++ [t] ∧ (∀ u ∈ t :: ts, (yields nows k).2.count u = 1) ∧
      threadsAt (yields nows k).1.activeThreads = threadsAt k.activeThreads ∧
      (yields nows k).1.activeThreads.flbitmap = k.activeThreads.flbitmap ∧
      (yields nows k).1.activeThreads.slbitmap = k.activeThreads.slbitmap := by
  have walked : threadsAt k.activeThreads = r.lists := funext inv.rep.threadsAt_eq
  rw [walked] at list urgent
  have turn : AtTurn k r c (t :: ts) := ⟨inv, outside, list, by rw [current]; rfl, urgent⟩
  rw [walked]
  constructor
  · intro now
    obtain ⟨r', next, lists⟩ := turn.step now
    have walked' : threadsAt (yieldNow now k).activeThreads = r'.lists := funext next.inv.rep.threadsAt_eq
    have bits := inv.rep.bitmaps_eq next.inv.rep (by
      intro d
      by_cases same : d = c
      · rw [lists, same, Function.update_self, list]
        simp
      · rw [lists, Function.update_of_ne same])
    exact ⟨by rw [walked', lists], bits.2, bits.1, next.first⟩
  · intro nows length
    have whole : AtTurn k r c ((t :: ts) ++ []) := by
      rw [List.append_nil]
      exact turn
    obtain ⟨r', last, lists, order⟩ := AtTurn.run nows whole length
    rw [List.nil_append, ← list, Function.update_eq_self] at lists
    have walked' : threadsAt (yields nows k).1.activeThreads = r'.lists := funext last.inv.rep.threadsAt_eq
    have bits := inv.rep.bitmaps_eq last.inv.rep (by intro d; rw [lists])
    have back : (yields nows k).1.currentThread = t := (Option.some.inj last.first).symm
    rw [current, back, List.cons_append, List.cons.injEq] at order
    have once : (t :: ts).Nodup := by
      rw [← list]
      exact inv.rep.nodup c
    refine ⟨order.2, ?_, by rw [walked', lists], bits.2, bits.1⟩
    intro u member
    have shuffled : (ts ++ [t]).Perm (t :: ts) := List.perm_append_singleton t ts
    rw [order.2, shuffled.count_eq]
    exact List.count_eq_one_of_mem once member

def threeReady : Kernel (Fin 4) :=
  (startSystem (0 : Fin 4) [(0, 1023), (1, 7), (2, 7), (3, 7)]).kernel

theorem yield_is_rotation_three :
    threadsAt threeReady.activeThreads (prio2ij 7) = [3, 2, 1] ∧
      (yields [10, 20, 30] threeReady).2 = [2, 1, 3] := by
  have started := startSystem_started (0 : Fin 4) [(0, 1023), (1, 7), (2, 7), (3, 7)] (by decide) 1023
    (by decide)
  obtain ⟨r, inv⟩ := started.ok.kernel.ready
  have list : threadsAt threeReady.activeThreads (prio2ij 7) = [3, 2, 1] := by decide +kernel
  obtain ⟨order, _⟩ := (yield_is_rotation inv started.ok.kernel.irq list (by decide +kernel)
    (by decide +kernel)).2 [10, 20, 30] rfl
  exact ⟨list, order⟩

end L4ertl
