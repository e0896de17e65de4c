import L4ertl.Core.Frame

/-!
Delivery of the pending signals with an arbitrary signal_table (signal.c). The
loop of do_signals shifts the set it delivers while it scans it, and writes the
mask in every round, also where there is no handler to call.
-/
namespace L4ertl
variable {T : Type} [DecidableEq T]

/-- signal_table: what each handler does when it is called, and its sa_mask. -/
structure SignalTable (T : Type) where
  saSigaction : Nat → Kernel T → Kernel T
  saMask : Nat → Word

def setSigmask (mask : Word) (k : Kernel T) : Kernel T :=
  { k with sigmask := Function.update k.sigmask k.currentThread mask }

/-- The rounds of do_signals from `signal` on, with `n` to go. Beside the kernel come
    the handlers called, each with the kernel it is called in. -/
def deliverLoop (table : SignalTable T) (oldSigmask : Word) :
    Nat → Nat → Word → Kernel T → Kernel T × List (Nat × Kernel T)
  | 0, _, _, k => (k, [])
  | n + 1, signal, sigpend, k =>
    if sigpend = 0#32 then (k, [])
    else
      let k := setSigmask (oldSigmask ||| table.saMask signal ||| (1#32 <<< signal)) k
      if sigpend &&& 1#32 ≠ 0#32 then
        let (w, calls) := deliverLoop table oldSigmask n (signal + 1) (sigpend >>> 1)
          (table.saSigaction signal k)
        (w, (signal, k) :: calls)
      else deliverLoop table oldSigmask n (signal + 1) (sigpend >>> 1) k

def deliverSignals (table : SignalTable T) (k : Kernel T) : Kernel T × List (Nat × Kernel T) :=
  let oldSigmask := k.sigmask k.currentThread
  let (w, sigpend) := takeSignals k
  let (w, calls) := deliverLoop table oldSigmask 32 0 sigpend w
  (setSigmask oldSigmask w, calls)

/-- Handlers that return to the thread `t` they interrupted, leave its mask alone and
    take no signal off it; `posts` says which ones it gets while they run. -/
structure SignalTable.Returns (table : SignalTable T) (t : T) (posts : Nat → Kernel T → Word) :
    Prop where
  current : ∀ i k, k.currentThread = t → (table.saSigaction i k).currentThread = t
  mask : ∀ i k, k.currentThread = t → (table.saSigaction i k).sigmask t = k.sigmask t
  pending : ∀ i k, k.currentThread = t →
    (table.saSigaction i k).sigpending t = k.sigpending t ||| posts i k

/-- The pending signals that are not blocked, without CANCEL_SIGNAL where cancellation
    is disabled. -/
def deliverable (k : Kernel T) : Word :=
  let t := k.currentThread
  k.sigpending t &&& (~~~k.sigmask t ||| nonMaskableSignals) &&&
    if getThreadCancelState (k.threadFlags t) ≠ 0#32 then ~~~(1#32 <<< cancelSignal.toNat)
    else BitVec.allOnes 32

def postedBy (posts : Nat → Kernel T → Word) (calls : List (Nat × Kernel T)) : Word :=
  calls.foldr (fun c rest => posts c.1 c.2 ||| rest) 0#32

omit [DecidableEq T] in
theorem held_split (pending sigpend cancel : Word) (inside : sigpend &&& pending = sigpend) :
    (pending &&& ~~~sigpend) ||| (sigpend &&& cancel) = pending &&& ~~~(sigpend &&& ~~~cancel) ∧
      sigpend &&& ~~~(sigpend &&& cancel) = sigpend &&& ~~~cancel := by
  constructor
  · ext j bound
    have bit := congrArg (fun word : Word => word[j]) inside
    simp only [BitVec.getElem_and, BitVec.getElem_or, BitVec.getElem_not] at bit ⊢
    revert bit
    cases pending[j] <;> cases sigpend[j] <;> simp
  · ext j bound
    simp only [BitVec.getElem_and, BitVec.getElem_not]
    cases sigpend[j] <;> simp

omit [DecidableEq T] in
theorem unblocked_eq (mask pending : Word) :
    unblocked mask pending = pending &&& (~~~mask ||| nonMaskableSignals) := by
  ext j bound
  simp only [unblocked, BitVec.getElem_and, BitVec.getElem_or, BitVec.getElem_not]
  cases mask[j] <;> cases nonMaskableSignals[j] <;> cases pending[j] <;> rfl

theorem takeSignals_eq (k : Kernel T) :
    takeSignals k = ({ k with
      sigpending := Function.update k.sigpending k.currentThread
        (k.sigpending k.currentThread &&& ~~~deliverable k) }, deliverable k) := by
  have cancel : (1#32 <<< cancelSignal.toNat : Word) = 2#32 := rfl
  have inside : unblocked (k.sigmask k.currentThread) (k.sigpending k.currentThread) &&&
      k.sigpending k.currentThread =
      unblocked (k.sigmask k.currentThread) (k.sigpending k.currentThread) := by
    rw [unblocked, BitVec.and_assoc, BitVec.and_self]
  obtain ⟨left, taken⟩ := held_split (k.sigpending k.currentThread)
    (unblocked (k.sigmask k.currentThread) (k.sigpending k.currentThread)) 2#32 inside
  simp only [takeSignals, deliverable, cancel, ← unblocked_eq]
  split
  · rw [left, taken]
  · rw [BitVec.and_allOnes, BitVec.or_zero, BitVec.not_zero, BitVec.and_allOnes]

section
variable {table : SignalTable T} {t : T} {posts : Nat → Kernel T → Word}

omit [DecidableEq T] in
theorem isbitset_shift (b : Word) {j : Nat} (inside : j + 1 < 32) :
    isbitset (b >>> 1) j = isbitset b (j + 1) := by
  rw [isbitset_eq _ (by omega), isbitset_eq _ inside, BitVec.getLsbD_ushiftRight, Nat.add_comm]

omit [DecidableEq T] in
theorem members_shift (b : Word) {n : Nat} (inside : n + 1 ≤ 32) :
    (List.range (n + 1)).filter (isbitset b) =
      (if b &&& 1#32 ≠ 0#32 then [0] else []) ++
        ((List.range n).filter (isbitset (b >>> 1))).map (· + 1) := by
  have lowest : isbitset b 0 = (b &&& 1#32 != 0#32) := rfl
  have rest : (List.range n).filter (isbitset b ∘ Nat.succ) =
      (List.range n).filter (isbitset (b >>> 1)) := by
    apply List.filter_congr
    intro j below
    have bound := List.mem_range.mp below
    rw [isbitset_shift b (by omega)]
    rfl
  rw [List.range_succ_eq_map, List.filter_cons, List.filter_map, rest, lowest]
  by_cases first : b &&& 1#32 = 0#32
  · simp [first]
  · simp [first]

structure SignalRounds (table : SignalTable T) (t : T) (posts : Nat → Kernel T → Word) (oldSigmask : Word)
    (signals : List Nat) (before : Word) (r : Kernel T × List (Nat × Kernel T)) : Prop where
  signals : r.2.map Prod.fst = signals
  masks : ∀ c ∈ r.2, c.2.currentThread = t ∧
    c.2.sigmask t = oldSigmask ||| table.saMask c.1 ||| (1#32 <<< c.1)
  current : r.1.currentThread = t
  pending : r.1.sigpending t = before ||| postedBy posts r.2

omit [DecidableEq T] in
theorem SignalRounds.nothing {k : Kernel T} (current : k.currentThread = t) (oldSigmask : Word) :
    SignalRounds table t posts oldSigmask [] (k.sigpending t) (k, []) := by
  constructor
  · rfl
  · intro c called
    cases called
  · exact current
  · exact BitVec.or_zero.symm

theorem deliverLoop_rounds (returns : table.Returns t posts) (oldSigmask : Word) (n : Nat) :
    ∀ (signal : Nat) (sigpend : Word) (k : Kernel T), n ≤ 32 → k.currentThread = t →
      SignalRounds table t posts oldSigmask (((List.range n).filter (isbitset sigpend)).map (· + signal))
        (k.sigpending t) (deliverLoop table oldSigmask n signal sigpend k) := by
  induction n with
  | zero =>
    intro signal sigpend k _ current
    exact SignalRounds.nothing current oldSigmask
  | succ n ih =>
    intro signal sigpend k bound current
    have skip : ∀ ms : List Nat, (ms.map (· + 1)).map (· + signal) = ms.map (· + (signal + 1)) := by
      intro ms
      simp [Function.comp_def, Nat.add_assoc, Nat.add_comm 1]
    unfold deliverLoop
    split
    · rename_i empty
      subst empty
      have no : (List.range (n + 1)).filter (isbitset 0#32) = [] := by
        rw [List.filter_eq_nil_iff]
        intro j _
        simp [isbitset_zero]
      rw [no]
      exact SignalRounds.nothing current oldSigmask
    · rw [members_shift sigpend bound, List.map_append, skip]
      generalize masked : setSigmask (oldSigmask ||| table.saMask signal ||| (1#32 <<< signal)) k = m
      have there : m.currentThread = t := by
        rw [← masked]
        exact current
      have mask : m.sigmask t = oldSigmask ||| table.saMask signal ||| (1#32 <<< signal) := by
        rw [← masked, ← current]
        simp [setSigmask]
      have pending : m.sigpending t = k.sigpending t := by rw [← masked]; rfl
      by_cases first : sigpend &&& 1#32 ≠ 0#32
      · rw [if_pos first, if_pos first]
        have rest := ih (signal + 1) (sigpend >>> 1) (table.saSigaction signal m) (by omega)
          (returns.current _ _ there)
        constructor
        · simp [rest.signals]
        · intro c called
          rcases List.mem_cons.mp called with rfl | later
          · exact ⟨there, mask⟩
          · exact rest.masks c later
        · exact rest.current
        · rw [rest.pending, returns.pending _ _ there, pending, BitVec.or_assoc]
          rfl
      · rw [if_neg first, if_neg first]
        have rest := ih (signal + 1) (sigpend >>> 1) m (by omega) there
        rw [pending] at rest
        exact rest

theorem deliverSignals_delivers (table : SignalTable T) (posts : Nat → Kernel T → Word)
    (k : Kernel T) (returns : table.Returns k.currentThread posts) :
    (deliverSignals table k).2.map Prod.fst = (List.range 32).filter (isbitset (deliverable k)) ∧
      (∀ c ∈ (deliverSignals table k).2, c.2.currentThread = k.currentThread ∧
        c.2.sigmask k.currentThread =
          k.sigmask k.currentThread ||| table.saMask c.1 ||| (1#32 <<< c.1)) ∧
      (deliverSignals table k).1.currentThread = k.currentThread ∧
      (deliverSignals table k).1.sigmask k.currentThread = k.sigmask k.currentThread ∧
      (deliverSignals table k).1.sigpending k.currentThread =
        (k.sigpending k.currentThread &&& ~~~deliverable k) |||
          postedBy posts (deliverSignals table k).2 := by
  simp only [deliverSignals, takeSignals_eq]
  generalize taken : ({ k with
    sigpending := Function.update k.sigpending k.currentThread
      (k.sigpending k.currentThread &&& ~~~deliverable k) } : Kernel T) = w
  have rounds := deliverLoop_rounds returns (k.sigmask k.currentThread) 32 0 (deliverable k) w
    (le_refl 32) (by rw [← taken])
  have left : w.sigpending k.currentThread = k.sigpending k.currentThread &&& ~~~deliverable k := by
    rw [← taken]
    exact Function.update_self _ _ _
  refine ⟨?_, rounds.masks, rounds.current, ?_, ?_⟩
  · rw [rounds.signals]
    simp
  · simp [setSigmask, rounds.current]
  · rw [← left]
    exact rounds.pending

end

/-- The handlers of init_signals that do nothing; each entry blocks its own signal. -/
def initSignals : SignalTable T := ⟨fun _ k => k, fun signal => 1#32 <<< signal⟩

theorem runHandler_quiet {signal : Nat} (cancel : signal ≠ 1) (sleep : signal ≠ 2) (k : Kernel T) :
    runHandler signal k = .ok (k, false) := by
  simp only [runHandler, if_neg cancel, if_neg sleep]

theorem signalLoop_deliverLoop (oldSigmask : Word) (rounds n : Nat) :
    ∀ (signal : Nat) (sigpend : Word) (k : Kernel T), n ≤ 32 →
      (∀ j, j < n → isbitset sigpend j = true → signal + j ≠ 1 ∧ signal + j ≠ 2) →
      signalLoop oldSigmask rounds n signal sigpend k =
        .ok (setSigmask oldSigmask (deliverLoop initSignals oldSigmask n signal sigpend k).1, none) := by
  induction n with
  | zero => intro signal sigpend k _ _; rfl
  | succ n ih =>
    intro signal sigpend k bound calm
    have rest : ∀ j, j < n → isbitset (sigpend >>> 1) j = true →
        signal + 1 + j ≠ 1 ∧ signal + 1 + j ≠ 2 := by
      intro j below bit
      rw [isbitset_shift sigpend (by omega)] at bit
      have both := calm (j + 1) (by omega) bit
      omega
    have mask : oldSigmask ||| (1#32 <<< signal) ||| (1#32 <<< signal) =
        oldSigmask ||| (1#32 <<< signal) := by
      rw [BitVec.or_assoc, BitVec.or_self]
    have lowest : isbitset sigpend 0 = (sigpend &&& 1#32 != 0#32) := rfl
    unfold signalLoop deliverLoop
    split
    · rfl
    · simp only [initSignals, mask, setSigmask]
      split
      · rename_i first
        have apart := calm 0 (by omega) (by rw [lowest]; simpa using first)
        rw [Nat.add_zero] at apart
        rw [runHandler_quiet apart.1 apart.2]
        exact ih (signal + 1) (sigpend >>> 1) _ (by omega) rest
      · exact ih (signal + 1) (sigpend >>> 1) _ (by omega) rest

theorem doSignals_delivers (rounds : Nat) (k : Kernel T)
    (cancel : isbitset (deliverable k) cancelSignal.toNat = false)
    (sleep : isbitset (deliverable k) 2 = false) :
    doSignals rounds k = .ok ((deliverSignals initSignals k).1, none) := by
  simp only [doSignals, deliverSignals, takeSignals_eq]
  apply signalLoop_deliverLoop
  · exact le_refl 32
  · intro j below bit
    constructor
    · rintro same
      have one : j = 1 := by omega
      rw [one] at bit
      exact absurd (bit.symm.trans cancel) (by decide)
    · rintro same
      have two : j = 2 := by omega
      rw [two] at bit
      exact absurd (bit.symm.trans sleep) (by decide)

theorem pthreadKillSys_signals (u : T) (sig : Int) (k : Kernel T) :
    (pthreadKillSys u sig k).1.currentThread = k.currentThread ∧
      (pthreadKillSys u sig k).1.sigmask = k.sigmask ∧
      ∀ v, (pthreadKillSys u sig k).1.sigpending v =
        if v = u ∧ k.magicNumber u = pthreadMagicNumber ∧ 0 ≤ sig ∧ sig < nrsignals then
          k.sigpending v ||| (1#32 <<< sig.toNat)
        else k.sigpending v := by
  have woken : ∀ w : Kernel T, (activateThread u w).currentThread = w.currentThread ∧
      (activateThread u w).sigmask = w.sigmask ∧ (activateThread u w).sigpending = w.sigpending := by
    intro w
    have current := congrArg Kernel.currentThread (activateThread_only u w)
    have mask := congrArg Kernel.sigmask (activateThread_only u w)
    have pending := congrArg Kernel.sigpending (activateThread_only u w)
    exact ⟨current, mask, pending⟩
  have posted : ∀ v, (postSignal u sig k).sigpending v =
      if v = u then k.sigpending v ||| (1#32 <<< sig.toNat) else k.sigpending v := by
    intro v
    by_cases self : v = u
    · subst self; simp [postSignal]
    · simp [postSignal, self]
  unfold pthreadKillSys
  split
  · rename_i stale
    exact ⟨rfl, rfl, fun v => by rw [if_neg fun all => stale all.2.1]; rfl⟩
  · rename_i valid
    split
    · rename_i outside
      refine ⟨rfl, rfl, fun v => ?_⟩
      rw [if_neg (by omega)]
      rfl
    · rename_i inside
      have range : 0 ≤ sig ∧ sig < nrsignals := by omega
      have magic : k.magicNumber u = pthreadMagicNumber := not_not.mp valid
      simp only [magic, range, and_self, and_true]
      split
      · rw [(woken _).1, (woken _).2.1, (woken _).2.2]
        exact ⟨rfl, rfl, posted⟩
      · exact ⟨rfl, rfl, posted⟩

def alarmTable : SignalTable T where
  saSigaction signal k := if signal = 8 then (pthreadKillSys k.currentThread 9 k).1 else k
  saMask signal := (1#32 <<< signal) ||| if signal = 8 then 0x400#32 else 0#32

def alarmPosts (signal : Nat) (k : Kernel T) : Word :=
  if signal = 8 ∧ k.magicNumber k.currentThread = pthreadMagicNumber then 0x200#32 else 0#32

theorem alarmTable_returns (t : T) : (alarmTable : SignalTable T).Returns t alarmPosts := by
  constructor
  · intro i k current
    by_cases alarm : i = 8
    · simp [alarmTable, alarm, pthreadKillSys_signals, current]
    · simp [alarmTable, alarm, current]
  · intro i k current
    by_cases alarm : i = 8
    · simp [alarmTable, alarm, pthreadKillSys_signals]
    · simp [alarmTable, alarm]
  · intro i k current
    by_cases alarm : i = 8
    · simp only [alarmTable, alarmPosts, alarm, if_true, true_and, pthreadKillSys_signals, current]
      split
      · rename_i valid
        rw [if_pos valid.1]
        rfl
      · rename_i stale
        rw [if_neg fun valid => stale ⟨valid, by decide⟩, BitVec.or_zero]
    · simp [alarmTable, alarmPosts, alarm]

def signalledKernel : Kernel (Fin 2) :=
  { (createPthreadStruct (some 0) (bootKernel 0)).1 with
    threadFlags := fun _ => 0x10#32
    sigpending := fun _ => 0x50a#32
    sigmask := fun _ => 0x408#32 }

theorem deliverSignals_delivers_alarm :
    (deliverSignals alarmTable signalledKernel).2.map Prod.fst = [3, 8] ∧
      (deliverSignals alarmTable signalledKernel).1.sigmask 0 = 0x408#32 ∧
      (deliverSignals alarmTable signalledKernel).1.sigpending 0 = 0x602#32 := by
  obtain ⟨calls, _, _, mask, pending⟩ :=
    deliverSignals_delivers alarmTable alarmPosts signalledKernel (alarmTable_returns _)
  exact ⟨calls.trans (by decide), mask, pending.trans (by decide +kernel)⟩

end L4ertl
