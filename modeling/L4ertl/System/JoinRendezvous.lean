import L4ertl.System.JoinKept

/-!
A thread and the one thread that joins it. The two meet through joining_thread,
the FINISHED state and the loop of pthread_join_sys, whichever of them comes
first and however often the joiner is woken in between; the value that
pthread_exit_sys stores is what pthread_join_sys hands over.
-/
namespace L4ertl
open Intrusive

/-- Beside the system the exit_value of each structure. -/
structure JoinSystem (T : Type) where
  threads : ThreadSystem T
  exitValue : T → Word

/-- `value` is the argument of pthread_exit_sys, if that is the call. -/
structure JoinLabel (T : Type) where
  label : ThreadLabel T
  value : Word

inductive JoinEvent (T : Type) where
  -- pthread_exit_sys (value)
  | exited (thread : T) (value : Word)
  -- delete_pthread_struct
  | deleted (thread : T)
  -- pthread_join_sys returns 0
  | joined (joiner thread : T) (value : Word)
  deriving DecidableEq, Repr

variable {T : Type} [DecidableEq T]

def JoinEvent.about (t : T) : JoinEvent T → Bool
  | .exited u _ | .deleted u | .joined _ u _ => u = t

abbrev JoinSystem.kernel (s : JoinSystem T) : Kernel T := s.threads.kernel

omit [DecidableEq T] in
/-- The argument of pthread_exit_sys, when the step to `x` executes it. In do_signals
    it is CANCEL_THREAD_handler that does, with 0. -/
def JoinSystem.exits (s : JoinSystem T) (x : ThreadSystem T) (l : JoinLabel T) : Option Word :=
  match l.label with
  | .other (.enter (.call .exit) _) => some l.value
  | .other (.resume _) =>
    if x.kernel.state s.kernel.currentThread = finishedThread then some 0#32 else none
  | _ => none

def JoinSystem.values (s : JoinSystem T) (x : ThreadSystem T) (l : JoinLabel T) : T → Word := fun t =>
  if x.inUse t && !s.threads.inUse t then 0#32
  else if t = s.kernel.currentThread then (s.exits x l).getD (s.exitValue t)
  else s.exitValue t

def JoinSystem.events (s : JoinSystem T) (x : ThreadSystem T) (l : JoinLabel T) : List (JoinEvent T) :=
  match s.threads.deletes l.label, l.label with
  | some (t, _), .deleteNp _ _ => [.deleted t]
  | some (t, _), _ => [.deleted t, .joined s.kernel.currentThread t (s.exitValue t)]
  | none, _ => (s.exits x l).elim [] fun v => [.exited s.kernel.currentThread v]

def JoinSystem.step [Fintype T] (s : JoinSystem T) (l : JoinLabel T) :
    Option (JoinSystem T × List (JoinEvent T)) :=
  (s.threads.step l.label).map fun r => (⟨r.1, s.values r.1 l⟩, s.events r.1 l)

def JoinSystem.start (idle : T) (threads : List (T × Int)) : JoinSystem T :=
  ⟨⟨startSystem idle threads, fun _ => none, fun _ => false⟩, fun _ => 0#32⟩

/-- Only `j` joins `t`, and nobody detaches or deletes it. Where its structure is
    used for another thread, the life of `t` is a thing of the past. -/
def OnlyJoiner (t j : T) (s : JoinSystem T) (l : JoinLabel T) : Prop :=
  match l.label with
  | .join u _ => u = t → s.kernel.currentThread = j
  | .detach u _ | .deleteNp u _ | .recreate u _ _ _ => u ≠ t
  | _ => True

instance (t j : T) (s : JoinSystem T) : (l : JoinLabel T) → Decidable (OnlyJoiner t j s l)
  | ⟨.join u _, _⟩ => inferInstanceAs (Decidable (u = t → s.kernel.currentThread = j))
  | ⟨.detach u _, _⟩ | ⟨.deleteNp u _, _⟩ | ⟨.recreate u _ _ _, _⟩ => inferInstanceAs (Decidable (u ≠ t))
  | ⟨.other _, _⟩ | ⟨.rejoin _, _⟩ => inferInstanceAs (Decidable True)

structure Attached (t j : T) (s : JoinSystem T) : Prop where
  alive : s.kernel.live t = true
  there : s.threads.freed t = false
  magic : s.kernel.magicNumber t = pthreadMagicNumber
  flag : getThreadDetachState (s.kernel.threadFlags t) = 0#32
  joiner : ∀ u, s.threads.waits u = some t → u = j

/-- The life of a thread, with the events about it so far: it runs, it has exited,
    it has been joined. While it runs a joiner that sleeps is on record; once it
    has exited no joiner sleeps. -/
inductive Life (t j : T) (s : JoinSystem T) : List (JoinEvent T) → Prop where
  | running (here : Attached t j s) (active : s.kernel.state t ≠ finishedThread)
      (waiting : s.threads.waits j = some t →
        (s.kernel.state j = suspendedThread ∧ s.kernel.joiningThread t = some j) ∨
          s.kernel.state j = readyThread ∨ s.kernel.state j = finishedThread) : Life t j s []
  | ended (here : Attached t j s) (ended : s.kernel.state t = finishedThread)
      (waiting : s.threads.waits j = some t →
        s.kernel.state j = readyThread ∨ s.kernel.state j = finishedThread) :
      Life t j s [.exited t (s.exitValue t)]
  | joined (value : Word) (gone : s.threads.freed t = true)
      (left : ∀ u, s.threads.waits u ≠ some t) :
      Life t j s [.exited t value, .deleted t, .joined j t value]

/-- A step that thread `t` and those who wait for it do not take part in. -/
structure Bystander (t : T) (s x : JoinSystem T) : Prop where
  live : s.kernel.live t = true → x.kernel.live t = true
  freed : x.threads.freed t = s.threads.freed t
  kept : JoinKept t s.kernel x.kernel
  ended : s.kernel.state t = finishedThread → x.kernel.state t = finishedThread
  waits : ∀ u, x.threads.waits u = some t → s.threads.waits u = some t ∧
    (x.kernel.state u = s.kernel.state u ∨ x.kernel.state u = readyThread ∨
      x.kernel.state u = finishedThread)
  value : x.exitValue t = s.exitValue t

section
variable {t j : T} {s x : JoinSystem T}

omit [DecidableEq T] in
theorem Bystander.attached (aside : Bystander t s x) (here : Attached t j s) : Attached t j x :=
  ⟨aside.live here.alive, aside.freed.trans here.there, aside.kept.magic.trans here.magic,
    aside.kept.detach.trans here.flag, fun u waiting => here.joiner u (aside.waits u waiting).1⟩

omit [DecidableEq T] in
theorem Life.bystander {es : List (JoinEvent T)} (life : Life t j s es) (aside : Bystander t s x) :
    Life t j x es := by
  cases life with
  | running here active waiting =>
    refine .running (aside.attached here) (fun ended => active (aside.kept.ended ended)) fun waits => ?_
    obtain ⟨before, same | ready | ended⟩ := aside.waits j waits
    · rw [same, aside.kept.joining]
      exact waiting before
    · exact Or.inr (Or.inl ready)
    · exact Or.inr (Or.inr ended)
  | ended here ended waiting =>
    rw [← aside.value]
    refine .ended (aside.attached here) (aside.ended ended) fun waits => ?_
    obtain ⟨before, same | ready | ended⟩ := aside.waits j waits
    · rw [same]
      exact waiting before
    · exact Or.inl ready
    · exact Or.inr ended
  | joined value gone left =>
    exact .joined value (aside.freed.trans gone) fun u waits => left u (aside.waits u waits).1

end

section
variable {t j : T} {s x : JoinSystem T}

omit [DecidableEq T] in
theorem Bystander.of_sound (ok : s.threads.Ok) (alive : s.kernel.live t = true)
    {u : T} {k : Kernel T} (sound : Sound u s.kernel k) (switched : SwitchOnly k x.kernel)
    (kept : JoinKept t s.kernel k)
    (ended : s.kernel.state t = finishedThread → t ≠ u)
    (freed : x.threads.freed t = s.threads.freed t)
    (waits : ∀ v, x.threads.waits v = some t → s.threads.waits v = some t ∧
      (v ≠ u ∨ k.state v = finishedThread))
    (value : x.exitValue t = s.exitValue t) : Bystander t s x := by
  refine ⟨fun _ => ?_, freed, kept.trans switched.joinKept, fun done => ?_, fun v waiting => ?_, value⟩
  · rw [switched.quiet.table.live]
    exact sound.live t alive
  · exact (switched.state t).trans (sound.finished alive (ended done) done)
  · obtain ⟨before, other | last⟩ := waits v waiting
    · refine ⟨before, ?_⟩
      rw [switched.state]
      rcases sound.others v (ok.waiters v t before).2.1 other with same | ⟨_, ready⟩
      · exact Or.inl same
      · exact Or.inr (Or.inl ready)
    · exact ⟨before, Or.inr (Or.inr ((switched.state v).trans last))⟩

theorem JoinSystem.values_kept {y : ThreadSystem T} {l : JoinLabel T}
    (used : y.inUse t = true → s.threads.inUse t = true)
    (exits : t = s.kernel.currentThread → s.exits y l = none) : s.values y l t = s.exitValue t := by
  have old : (y.inUse t && !s.threads.inUse t) = false := by
    cases new : y.inUse t with
    | false => rfl
    | true => rw [used new]; rfl
  unfold JoinSystem.values
  rw [old, if_neg Bool.false_ne_true]
  split
  · rename_i self
    rw [exits self, Option.getD_none]
  · rfl

omit [DecidableEq T] in
theorem ThreadSystem.inUse_same {s y : ThreadSystem T} (live : s.kernel.live t = true)
    (freed : y.freed t = s.freed t) (used : y.inUse t = true) : s.inUse t = true := by
  simp only [ThreadSystem.inUse, Bool.and_eq_true, freed] at used ⊢
  exact ⟨live, used.2⟩

end

section
variable {t j : T} {s x : JoinSystem T} {es : List (JoinEvent T)}

omit [DecidableEq T] in
theorem Life.alive (life : Life t j s es) (ok : s.threads.Ok) :
    s.kernel.live t = true := by
  cases life with
  | running here _ _ => exact here.alive
  | ended here _ _ => exact here.alive
  | joined value gone left => exact (ok.gone t gone).1

omit [DecidableEq T] in
theorem Life.current (life : Life t j s es) (ok : s.threads.Ok)
    (self : t = s.kernel.currentThread) : es = [] ∧ Attached t j s ∧
      (s.threads.waits j = some t →
        (s.kernel.state j = suspendedThread ∧ s.kernel.joiningThread t = some j) ∨
          s.kernel.state j = readyThread ∨ s.kernel.state j = finishedThread) := by
  have ready : s.kernel.state t = readyThread := by
    rw [self]
    exact ok.system.running
  cases life with
  | running here active waiting => exact ⟨rfl, here, waiting⟩
  | ended here ended waiting =>
    rw [ready] at ended
    exact absurd ended ready_ne_finished
  | joined value gone left =>
    have ended := (ok.gone t gone).2
    rw [ready] at ended
    exact absurd ended ready_ne_finished

omit [DecidableEq T] in
theorem Life.exit (life : Life t j s es) (ok : s.threads.Ok) (self : t = s.kernel.currentThread)
    (free : s.threads.waits s.kernel.currentThread = none) {k : Kernel T}
    (sound : Sound s.kernel.currentThread s.kernel k) (exited : Exited s.kernel k)
    (switched : SwitchOnly k x.kernel) (waits : x.threads.waits = s.threads.waits)
    (freed : x.threads.freed = s.threads.freed) :
    Life t j x [.exited t (x.exitValue t)] := by
  obtain ⟨_, here, waiting⟩ := life.current ok self
  have kept := switched.joinKept (t := t)
  refine .ended ⟨?_, ?_, ?_, ?_, ?_⟩ ?_ fun wait => ?_
  · rw [switched.quiet.table.live]
    exact sound.live t here.alive
  · rw [freed]
    exact here.there
  · rw [kept.magic, exited.magic]
    exact here.magic
  · rw [kept.detach, exited.detach]
    exact here.flag
  · rw [waits]
    exact here.joiner
  · rw [switched.state, self]
    exact exited.ended
  · rw [waits] at wait
    have other : j ≠ s.kernel.currentThread := by
      rintro rfl
      rw [free] at wait
      cases wait
    rw [switched.state]
    rcases waiting wait with ⟨asleep, recorded⟩ | ready | ended
    · left
      apply exited.wakes j (self ▸ recorded) (self ▸ here.flag) other
      rw [asleep]
      decide
    · rcases sound.others j (ok.waiters j t wait).2.1 other with same | ⟨_, woken⟩
      · exact Or.inl (same.trans ready)
      · exact Or.inl woken
    · exact Or.inr (sound.finished (ok.waiters j t wait).2.1 other ended)

omit [DecidableEq T] in
theorem JoinSystem.exits_other {y : ThreadSystem T} {l : Label T} {v : Word}
    (running : s.kernel.state s.kernel.currentThread = readyThread)
    (kept : JoinKept s.kernel.currentThread s.kernel y.kernel)
    (stays : ∀ env, l ≠ .enter (.call .exit) env) : s.exits y ⟨.other l, v⟩ = none := by
  unfold JoinSystem.exits
  split
  · rename_i env same
    cases same
    exact absurd rfl (stays _)
  · rw [if_neg]
    intro ended
    have before := kept.ended ended
    rw [running] at before
    exact ready_ne_finished before
  · rfl

theorem JoinSystem.events_other {y : ThreadSystem T} {l : Label T} {v : Word} :
    s.events y ⟨.other l, v⟩ =
      (s.exits y ⟨.other l, v⟩).elim [] fun v => [.exited s.kernel.currentThread v] := rfl

theorem JoinSystem.other_cases [Fintype T] (ok : s.threads.Ok) (alive : s.kernel.live t = true)
    {l : Label T} {v : Word} {more : List (JoinEvent T)}
    (taken : s.step ⟨.other l, v⟩ = some (x, more)) :
    (Bystander t s x ∧ more.filter (JoinEvent.about t) = []) ∨
    (t = s.kernel.currentThread ∧ s.threads.waits s.kernel.currentThread = none ∧
      more = [.exited t (x.exitValue t)] ∧
      x.threads.waits = s.threads.waits ∧ x.threads.freed = s.threads.freed ∧
      ∃ k now, Sound s.kernel.currentThread s.kernel k ∧ Exited s.kernel k ∧
        x.kernel = scheduling now k) := by
  obtain ⟨⟨y, _⟩, moved, same⟩ := Option.map_eq_some_iff.mp taken
  cases same
  obtain ⟨free, z, events, went, rfl⟩ := ThreadSystem.took_other moved
  dsimp only
  obtain ⟨k, sound, switched, ⟨kept, stays⟩ | ⟨self, exited, ⟨now, switch⟩, _, env, exit⟩⟩ :=
    ok.other_join alive went
  · left
    have silent : t = s.kernel.currentThread →
        s.exits { s.threads with system := z } ⟨.other l, v⟩ = none := by
      intro self
      subst self
      exact exits_other (y := { s.threads with system := z }) ok.system.running
        (kept.trans switched.joinKept) (stays rfl)
    constructor
    · refine .of_sound (u := s.kernel.currentThread) (k := k) ok alive sound switched kept ?_ rfl ?_ ?_
      · rintro ended rfl
        rw [ok.system.running] at ended
        exact ready_ne_finished ended
      · intro u waiting
        refine ⟨waiting, Or.inl ?_⟩
        rintro rfl
        cases free.symm.trans waiting
      · exact values_kept (y := { s.threads with system := z })
          (ThreadSystem.inUse_same alive rfl) silent
    · rw [events_other]
      cases exits : s.exits { s.threads with system := z } ⟨.other l, v⟩ with
      | none => rfl
      | some w =>
        have other : s.kernel.currentThread ≠ t := by
          intro self
          rw [silent self.symm] at exits
          cases exits
        simp [JoinEvent.about, other]
  · right
    refine ⟨self, free, ?_, rfl, rfl, k, now, sound, exited, switch⟩
    obtain ⟨w, exits⟩ : ∃ w, s.exits { s.threads with system := z } ⟨.other l, v⟩ = some w := by
      rcases exit with rfl | rfl
      · exact ⟨v, rfl⟩
      · exact ⟨0#32, if_pos ((switched.state _).trans exited.ended)⟩
    have used : s.threads.inUse t = true := by
      have there : s.threads.freed t = false := by
        by_contra gone
        exact ok.gone_other (by simpa using gone) ok.system.running self
      simp [ThreadSystem.inUse, alive, there]
    rw [events_other, exits]
    simp [JoinSystem.values, used, ← self, exits]

theorem JoinSystem.step_other [Fintype T] (ok : s.threads.Ok) (life : Life t j s es) {l : Label T}
    {v : Word} {more : List (JoinEvent T)} (taken : s.step ⟨.other l, v⟩ = some (x, more)) :
    Life t j x (es ++ more.filter (JoinEvent.about t)) := by
  rcases other_cases ok (life.alive ok) taken with ⟨aside, silent⟩ |
    ⟨self, free, rfl, waits, freed, k, now, sound, exited, switch⟩
  · rw [silent, List.append_nil]
    exact life.bystander aside
  · have switched : SwitchOnly k x.kernel := by
      rw [switch]
      exact scheduling_only now k
    rw [(life.current ok self).1]
    simpa [JoinEvent.about] using life.exit ok self free sound exited switched waits freed

end

section
variable {t j u : T} {s x : JoinSystem T} {es : List (JoinEvent T)}

theorem ThreadSystem.joined_freed (s : ThreadSystem T) (other : t ≠ u) (env : Env)
    (r : Kernel T × JoinStep) : (s.joined u env r).freed t = s.freed t := by
  obtain ⟨k, result⟩ := r
  cases result with
  | ret v => rfl
  | blocked => rfl
  | deleted => exact Function.update_of_ne other _ _

theorem Bystander.joined (ok : s.threads.Ok) (alive : s.kernel.live t = true) (env : Env)
    (other : t ≠ u) (aliveU : s.kernel.live u = true) {r : Kernel T × JoinStep}
    (ran : (∃ e v, r = (setErrno e s.kernel, .ret v)) ∨ r = joinLoop u s.kernel) {values : T → Word}
    (value : values t = s.exitValue t) : Bystander t s ⟨s.threads.joined u env r, values⟩ := by
  have running : s.kernel.state t = finishedThread → t ≠ s.kernel.currentThread := by
    rintro ended rfl
    rw [ok.system.running] at ended
    exact ready_ne_finished ended
  have waits : ∀ w : Option T, w ≠ some t → ∀ v,
      Function.update s.threads.waits s.kernel.currentThread w v = some t →
      s.threads.waits v = some t ∧ v ≠ s.kernel.currentThread := by
    intro w apart v waiting
    rw [Function.update_apply] at waiting
    split at waiting
    · exact absurd waiting apart
    · rename_i elsewhere
      exact ⟨waiting, elsewhere⟩
  rcases ran with ⟨e, v, rfl⟩ | rfl
  · exact .of_sound ok alive (u := s.kernel.currentThread) (k := setErrno e s.kernel)
      (ok.system.kernel.errno e) rfl (setErrno_joinKept e _) running rfl
      (fun v waiting => (waits none nofun v waiting).imp_right Or.inl) value
  · unfold joinLoop
    split
    · have kept := (setJoining_joinKept (some s.kernel.currentThread) other s.kernel).trans
        (suspendThread_joinKept s.kernel.currentThread _)
      have apart : some u ≠ some t := fun same => other (Option.some.inj same).symm
      refine .of_sound ok alive (joinLoop_blocked ok.system.kernel u) ?_ kept running rfl
        (fun v waiting => (waits (some u) apart v waiting).imp_right Or.inl) value
      exact settle_switch s.threads.system (.call .yield) env _ (.sched .done)
    · rename_i ended
      rw [not_not] at ended
      have sound : Sound s.kernel.currentThread s.kernel
          (s.kernel.keepWords (deletePthreadStruct u s.kernel)) :=
        ok.system.kernel.reap aliveU (by rw [ended]; exact finished_ne_ready)
      refine .of_sound ok alive sound rfl (.of_flags rfl rfl rfl) running ?_
        (fun v waiting => (waits none nofun v waiting).imp_right Or.inl) value
      exact Function.update_of_ne other _ _

end

section
variable {t j u : T} {s x : JoinSystem T} {es : List (JoinEvent T)}

def JoinSystem.joinEvents (s : JoinSystem T) (u : T) (r : Kernel T × JoinStep) : List (JoinEvent T) :=
  match r.2 with
  | .deleted => [.deleted u, .joined s.kernel.currentThread u (s.exitValue u)]
  | _ => []

theorem Life.joins (life : Life t j s es) (ok : s.threads.Ok) (env : Env)
    (there : s.threads.freed t = false) (self : s.kernel.currentThread = j) (values : T → Word) :
    Life t j ⟨s.threads.joined t env (joinLoop t s.kernel), values⟩
      (es ++ s.joinEvents t (joinLoop t s.kernel)) := by
  have ready : s.kernel.state j = readyThread := by
    rw [← self]
    exact ok.system.running
  cases life with
  | running here active waiting =>
    have blocked : joinLoop t s.kernel =
        (suspendThread s.kernel.currentThread (setJoining t (some s.kernel.currentThread) s.kernel),
          .blocked) := by
      unfold joinLoop
      rw [if_pos active]
      rfl
    rw [blocked]
    simp only [JoinSystem.joinEvents, List.append_nil]
    have sound := joinLoop_blocked ok.system.kernel t
    have asleep := suspendThread_joinKept (t := t) s.kernel.currentThread
      (setJoining t (some s.kernel.currentThread) s.kernel)
    have switched := settle_switch s.threads.system (.call .yield) env
      (suspendThread s.kernel.currentThread (setJoining t (some s.kernel.currentThread) s.kernel))
      (.sched .done)
    have kept := asleep.trans switched.joinKept
    refine .running ⟨?_, there, kept.magic.trans here.magic, kept.detach.trans here.flag, ?_⟩ ?_
      fun _ => Or.inl ⟨?_, ?_⟩
    · exact (congrFun switched.quiet.table.live t).trans (sound.live t here.alive)
    · intro v waits
      simp only [ThreadSystem.joined, Function.update_apply] at waits
      split at waits
      · rename_i same
        rw [same, self]
      · exact here.joiner v waits
    · exact fun ended => active (kept.ended ended)
    · apply (switched.state j).trans
      rw [suspendThread_state, if_pos]
      refine ⟨self.symm, ?_⟩
      rw [self]
      show s.kernel.state j ≠ finishedThread
      rw [ready]
      exact ready_ne_finished
    · apply kept.joining.trans
      simp [setJoining, self]
  | ended here ended waiting =>
    have deleted : joinLoop t s.kernel = (deletePthreadStruct t s.kernel, .deleted) := by
      unfold joinLoop
      rw [if_neg (not_not.mpr ended)]
    rw [deleted]
    simp only [JoinSystem.joinEvents, self]
    refine .joined (s.exitValue t) ?_ fun v waits => ?_
    · simp [ThreadSystem.joined]
    · simp only [ThreadSystem.joined, Function.update_apply] at waits
      split at waits
      · cases waits
      · rename_i other
        rw [self] at other
        exact other (here.joiner v waits)
  | joined value gone left =>
    rw [there] at gone
    cases gone

theorem JoinSystem.joinEvents_about (other : t ≠ u) (r : Kernel T × JoinStep) :
    (s.joinEvents u r).filter (JoinEvent.about t) = [] := by
  unfold JoinSystem.joinEvents
  split
  · simp [JoinEvent.about, other.symm]
  · rfl

theorem JoinSystem.joinEvents_self (r : Kernel T × JoinStep) :
    (s.joinEvents t r).filter (JoinEvent.about t) = s.joinEvents t r := by
  unfold JoinSystem.joinEvents
  split
  · simp [JoinEvent.about]
  · rfl

theorem JoinSystem.events_join (y : ThreadSystem T) (env : Env) (v : Word) :
    s.events y ⟨.join u env, v⟩ = s.joinEvents u (pthreadJoinSys u s.kernel) := by
  simp only [events, ThreadSystem.deletes, joinEvents]
  cases pthreadJoinSys u s.kernel with
  | mk k result =>
    cases result with
    | ret v => rfl
    | blocked => rfl
    | deleted => rfl

theorem JoinSystem.events_rejoin (y : ThreadSystem T) (env : Env) (v : Word)
    (waiting : s.threads.waits s.kernel.currentThread = some u) :
    s.events y ⟨.rejoin env, v⟩ = s.joinEvents u (joinWoken u s.kernel) := by
  simp only [events, ThreadSystem.deletes, joinEvents, waiting, Option.bind_some]
  cases joinWoken u s.kernel with
  | mk k result =>
    cases result with
    | ret v => rfl
    | blocked => rfl
    | deleted => rfl

theorem Attached.join (here : Attached t j s) : pthreadJoinSys t s.kernel = joinLoop t s.kernel := by
  unfold pthreadJoinSys
  rw [if_neg (not_not.mpr here.magic), if_neg (not_not.mpr here.flag)]

theorem Attached.rejoin (here : Attached t j s) : joinWoken t s.kernel = joinLoop t s.kernel := by
  unfold joinWoken
  rw [if_neg (not_not.mpr here.flag)]

omit [DecidableEq T] in
theorem Life.attached (life : Life t j s es) (there : s.threads.freed t = false) : Attached t j s := by
  cases life with
  | running here _ _ => exact here
  | ended here _ _ => exact here
  | joined value gone left =>
    rw [there] at gone
    cases gone

theorem JoinSystem.step_join [Fintype T] (ok : s.threads.Ok) (life : Life t j s es) {env : Env} {v : Word}
    (only : OnlyJoiner t j s ⟨.join u env, v⟩) {more : List (JoinEvent T)}
    (taken : s.step ⟨.join u env, v⟩ = some (x, more)) :
    Life t j x (es ++ more.filter (JoinEvent.about t)) := by
  obtain ⟨⟨y, _⟩, moved, same⟩ := Option.map_eq_some_iff.mp taken
  cases same
  obtain ⟨_, valid, rfl⟩ := ThreadSystem.took_join moved
  obtain ⟨aliveU, there, _⟩ := ThreadSystem.handle_iff valid
  have alive := life.alive ok
  simp only [events_join]
  by_cases self : u = t
  · subst self
    have here := life.attached there
    rw [here.join, joinEvents_self]
    exact life.joins ok env there (only rfl) _
  · rw [joinEvents_about (Ne.symm self), List.append_nil]
    apply life.bystander
    apply Bystander.joined ok alive env (Ne.symm self) aliveU (pthreadJoinSys_cases u s.kernel)
    exact values_kept (ThreadSystem.inUse_same alive (s.threads.joined_freed (Ne.symm self) env _))
      fun _ => rfl

end

section
variable {t j u : T} {s x : JoinSystem T} {es more : List (JoinEvent T)} {env : Env} {v : Word}

theorem JoinSystem.step_rejoin [Fintype T] (ok : s.threads.Ok) (life : Life t j s es)
    (taken : s.step ⟨.rejoin env, v⟩ = some (x, more)) :
    Life t j x (es ++ more.filter (JoinEvent.about t)) := by
  obtain ⟨⟨y, _⟩, moved, same⟩ := Option.map_eq_some_iff.mp taken
  cases same
  obtain ⟨u, waiting, there, rfl⟩ := ThreadSystem.took_rejoin moved
  have alive := life.alive ok
  have aliveU := (ok.waiters _ u waiting).2.2
  simp only [events_rejoin _ env v waiting]
  by_cases self : u = t
  · subst self
    have here := life.attached there
    rw [here.rejoin, joinEvents_self]
    exact life.joins ok env there (here.joiner _ waiting) _
  · rw [joinEvents_about (Ne.symm self), List.append_nil]
    apply life.bystander
    apply Bystander.joined ok alive env (Ne.symm self) aliveU (joinWoken_cases u s.kernel)
    exact values_kept (ThreadSystem.inUse_same alive (s.threads.joined_freed (Ne.symm self) env _))
      fun _ => rfl

omit [DecidableEq T] in
theorem ThreadSystem.calls_free [DecidableEq T] {s : ThreadSystem T} (calls : s.calls = true) :
    s.waits s.kernel.currentThread = none := by
  simp only [ThreadSystem.calls, Bool.and_eq_true, Option.isNone_iff_eq_none] at calls
  exact calls.1.2

/-- `t` detaches another thread: that wakes its own joiner and takes it off the
    record, to be found there again only after one more round. -/
theorem Life.detaches (life : Life t j s es) (ok : s.threads.Ok) (self : t = s.kernel.currentThread)
    (free : s.threads.waits s.kernel.currentThread = none) {k : Kernel T} {flags : Word} {joiner : T}
    (other : t ≠ u) (same : getThreadState flags = getThreadState (s.kernel.threadFlags u))
    (joins : s.kernel.joiningThread s.kernel.currentThread = some joiner)
    (sound : Sound s.kernel.currentThread s.kernel k)
    (result : k = setJoining s.kernel.currentThread none
      (activateThread joiner (setFlags u flags s.kernel)))
    (switched : SwitchOnly k x.kernel) (waits : x.threads.waits = s.threads.waits)
    (freed : x.threads.freed = s.threads.freed) : Life t j x es := by
  obtain ⟨rfl, here, waiting⟩ := life.current ok self
  have flagged := setFlags_joinKept flags other s.kernel
  have woken := flagged.trans (activateThread_joinKept joiner _)
  have kept := switched.joinKept (t := t)
  have ended : k.state t = finishedThread → False := by
    intro ended
    rw [result] at ended
    have before := woken.ended ended
    rw [self, ok.system.running] at before
    exact ready_ne_finished before
  refine .running ⟨?_, ?_, ?_, ?_, ?_⟩ (fun done => ended (kept.ended done)) fun wait => Or.inr ?_
  · rw [switched.quiet.table.live]
    exact sound.live t here.alive
  · rw [freed]
    exact here.there
  · rw [kept.magic, result]
    exact woken.magic.trans here.magic
  · rw [kept.detach, result]
    exact woken.detach.trans here.flag
  · rw [waits]
    exact here.joiner
  · rw [waits] at wait
    have apart : j ≠ s.kernel.currentThread := by
      rintro rfl
      rw [free] at wait
      cases wait
    rw [switched.state]
    rcases waiting wait with ⟨asleep, recorded⟩ | ready | last
    · left
      rw [← self, recorded, Option.some.injEq] at joins
      subst joins
      have active : (setFlags u flags s.kernel).state j ≠ finishedThread := by
        rw [setFlags_state same, asleep]
        decide
      rw [result]
      show (activateThread j (setFlags u flags s.kernel)).state j = readyThread
      rw [activateThread_state, if_pos ⟨rfl, active⟩]
    · rcases sound.others j (ok.waiters j t wait).2.1 apart with still | ⟨_, awake⟩
      · exact Or.inl (still.trans ready)
      · exact Or.inl awake
    · exact Or.inr (sound.finished (ok.waiters j t wait).2.1 apart last)

end

section
variable {t j u : T} {s x : JoinSystem T} {es more : List (JoinEvent T)} {env : Env} {v : Word}

theorem JoinSystem.events_quiet {y : ThreadSystem T} {l : JoinLabel T}
    (stays : s.threads.deletes l.label = none) (exits : s.exits y l = none) : s.events y l = [] := by
  unfold JoinSystem.events
  rw [stays, exits]
  rfl

theorem JoinSystem.step_detach [Fintype T] (ok : s.threads.Ok) (life : Life t j s es)
    (only : OnlyJoiner t j s ⟨.detach u env, v⟩) (taken : s.step ⟨.detach u env, v⟩ = some (x, more)) :
    Life t j x (es ++ more.filter (JoinEvent.about t)) := by
  obtain ⟨⟨y, _⟩, moved, same⟩ := Option.map_eq_some_iff.mp taken
  cases same
  obtain ⟨calls, _, k, pr, ran, rfl⟩ := ThreadSystem.took_detach moved
  rw [events_quiet rfl rfl, List.filter_nil, List.append_nil]
  have other : t ≠ u := Ne.symm only
  have alive := life.alive ok
  have free := ThreadSystem.calls_free calls
  have sound : Sound s.kernel.currentThread s.kernel k := pthreadDetachSys_sound ok.system.kernel ran
  have switched := settle_switch s.threads.system (.call .yield) env k pr.outcome
  have passes : JoinKept t s.kernel k → Life t j ⟨s.threads.settle env k pr.outcome,
      s.values (s.threads.settle env k pr.outcome) ⟨.detach u env, v⟩⟩ es := by
    intro kept
    apply life.bystander
    refine .of_sound ok alive sound switched kept ?_ rfl ?_ ?_
    · rintro ended rfl
      rw [ok.system.running] at ended
      exact ready_ne_finished ended
    · intro w waiting
      refine ⟨waiting, Or.inl ?_⟩
      rintro rfl
      cases free.symm.trans waiting
    · exact values_kept (ThreadSystem.inUse_same alive rfl) fun _ => rfl
  unfold pthreadDetachSys at ran
  split at ran
  · cases ran
    exact passes (setErrno_joinKept _ _)
  · split at ran
    · cases ran
      exact passes (setErrno_joinKept _ _)
    · simp only at ran
      split at ran
      · cases ran
      · rename_i joiner joins
        cases ran
        have current : (activateThread joiner (setFlags u
            (setThreadDetachState (s.kernel.threadFlags u) true) s.kernel)).currentThread =
            s.kernel.currentThread := by
          rw [congrArg Kernel.currentThread (activateThread_only joiner _)]
          rfl
        by_cases self : t = s.kernel.currentThread
        · exact life.detaches ok self free other (getThreadState_detach _ true) joins sound
            (by rw [current]) switched rfl rfl
        · have flagged := setFlags_joinKept
            (setThreadDetachState (s.kernel.threadFlags u) true) other s.kernel
          have woken := flagged.trans (activateThread_joinKept joiner _)
          exact passes (woken.trans (setJoining_joinKept none (by rw [current]; exact self) _))

theorem JoinSystem.step_deleteNp [Fintype T] (ok : s.threads.Ok) (life : Life t j s es)
    (only : OnlyJoiner t j s ⟨.deleteNp u env, v⟩)
    (taken : s.step ⟨.deleteNp u env, v⟩ = some (x, more)) :
    Life t j x (es ++ more.filter (JoinEvent.about t)) := by
  obtain ⟨⟨y, _⟩, moved, same⟩ := Option.map_eq_some_iff.mp taken
  cases same
  obtain ⟨_, valid, rfl⟩ := ThreadSystem.took_deleteNp moved
  obtain ⟨aliveU, there, _⟩ := ThreadSystem.handle_iff valid
  have other : t ≠ u := Ne.symm only
  have alive := life.alive ok
  have kept : JoinKept t s.kernel (s.kernel.keepWords (pthreadDeleteNpSys u s.kernel)) := by
    have cancelled := setFlags_joinKept
      (setThreadCancelType (setThreadCancelState (s.kernel.threadFlags u) true) true) other s.kernel
    have finished := cancelled.trans (finishThread_joinKept other _)
    exact finished.trans (.of_flags rfl rfl rfl)
  have silent : [JoinEvent.deleted u].filter (JoinEvent.about t) = [] := by
    simp [JoinEvent.about, other.symm]
  simp only [events, ThreadSystem.deletes]
  rw [silent, List.append_nil]
  apply life.bystander
  refine .of_sound ok alive (pthreadDeleteNpSys_sound ok.system.kernel aliveU)
    (settle_switch s.threads.system (.call .yield) env _ (.sched .done)) kept (fun _ => other)
    (Function.update_of_ne other _ _) ?_ ?_
  · intro w waiting
    by_cases self : w = u
    · subst self
      exact ⟨waiting, Or.inr (endThread_state w s.kernel)⟩
    · exact ⟨waiting, Or.inl self⟩
  · exact values_kept (ThreadSystem.inUse_same alive (Function.update_of_ne other _ _)) fun _ => rfl

theorem JoinSystem.step_recreate [Fintype T] (ok : s.threads.Ok) (life : Life t j s es) {stack : Bool}
    {attr : Option PthreadAttr} (only : OnlyJoiner t j s ⟨.recreate u stack attr env, v⟩)
    (taken : s.step ⟨.recreate u stack attr env, v⟩ = some (x, more)) :
    Life t j x (es ++ more.filter (JoinEvent.about t)) := by
  obtain ⟨⟨y, _⟩, moved, same⟩ := Option.map_eq_some_iff.mp taken
  cases same
  obtain ⟨_, freed, rfl⟩ := ThreadSystem.took_recreate moved
  rw [events_quiet rfl rfl, List.filter_nil, List.append_nil]
  have other : t ≠ u := Ne.symm only
  have alive := life.alive ok
  have ended := (ok.gone u freed).2
  have sound := pthreadCreateSys_at ok.system.kernel (a := u)
    (Or.inr (by rw [ended]; exact finished_ne_ready)) stack attr
  have kept := pthreadCreateSys_joinKept other stack attr s.kernel
  have switched := settle_switch s.threads.system (.call .yield) env
    (pthreadCreateSys (some u) stack attr s.kernel).1
    (pthreadCreateSys (some u) stack attr s.kernel).2.outcome
  have unfreed : (s.threads.recreated u stack attr env).freed t = s.threads.freed t := by
    simp only [ThreadSystem.recreated]
    split
    · rfl
    · exact Function.update_of_ne other _ _
  have moved : SwitchOnly (pthreadCreateSys (some u) stack attr s.kernel).1
      (s.threads.recreated u stack attr env).kernel := by
    simp only [ThreadSystem.recreated]
    split
    · exact switched
    · exact switched
  apply life.bystander
  refine .of_sound ok alive sound moved kept (fun _ => other) unfreed ?_ ?_
  · intro w waiting
    simp only [ThreadSystem.recreated] at waiting
    split at waiting
    · rename_i refused
      refine ⟨waiting, ?_⟩
      by_cases self : w = u
      · right
        unfold pthreadCreateSys
        rw [if_pos refused, self]
        exact ended
      · exact Or.inl self
    · simp only [Function.update_apply] at waiting
      split at waiting
      · cases waiting
      · rename_i self
        exact ⟨waiting, Or.inl self⟩
  · exact values_kept (ThreadSystem.inUse_same alive unfreed) fun _ => rfl

theorem JoinSystem.step_life [Fintype T] (ok : s.threads.Ok) (life : Life t j s es) {l : JoinLabel T}
    (only : OnlyJoiner t j s l) (taken : s.step l = some (x, more)) :
    Life t j x (es ++ more.filter (JoinEvent.about t)) := by
  obtain ⟨label, v⟩ := l
  cases label with
  | other l => exact step_other ok life taken
  | recreate u stack attr env => exact step_recreate ok life only taken
  | join u env => exact step_join ok life only taken
  | rejoin env => exact step_rejoin ok life taken
  | detach u env => exact step_detach ok life only taken
  | deleteNp u env => exact step_deleteNp ok life only taken

end

structure Joinable (t : T) (s : JoinSystem T) : Prop where
  handle : s.threads.handle t = true
  magic : s.kernel.magicNumber t = pthreadMagicNumber
  flag : getThreadDetachState (s.kernel.threadFlags t) = 0#32
  active : s.kernel.state t ≠ finishedThread
  free : ∀ u, s.threads.waits u ≠ some t

structure Rendezvous [Fintype T] (t j : T) (x : JoinSystem T) (es : List (JoinEvent T)) : Prop where
  -- pthread_join_sys returns 0 once, with the value of the exit before it, and with
  -- the one deletion of `t`
  order : es.filter (JoinEvent.about t) = [] ∨
    (∃ v, es.filter (JoinEvent.about t) = [.exited t v]) ∨
    ∃ v, es.filter (JoinEvent.about t) = [.exited t v, .deleted t, .joined j t v]
  -- after its exit `t` does not run
  stopped : ∀ v, JoinEvent.exited t v ∈ es → x.kernel.currentThread ≠ t
  -- if the joiner sleeps when `t` exits, it is READY before the `scheduling` of the exit
  wakes : ∀ l y more v, x.step l = some (y, more) → JoinEvent.exited t v ∈ more →
    x.threads.waits j = some t → x.kernel.state j = suspendedThread →
    ∃ k now, y.kernel = scheduling now k ∧ k.state t = finishedThread ∧ k.state j = readyThread
  -- from then on it is, unless it has been ended itself, and its next step returns 0
  returns : ∀ v, es.filter (JoinEvent.about t) = [.exited t v] → x.threads.waits j = some t →
    (x.kernel.state j = readyThread ∨ x.kernel.state j = finishedThread) ∧
      (x.kernel.currentThread = j → ∀ env value, ∃ y, x.step ⟨.rejoin env, value⟩ =
        some (y, [.deleted t, .joined j t v]))
  -- a joiner that comes later does not wait
  late : ∀ v, es.filter (JoinEvent.about t) = [.exited t v] → x.threads.calls = true →
    x.kernel.currentThread = j → ∀ env value, ∃ y, x.step ⟨.join t env, value⟩ =
      some (y, [.deleted t, .joined j t v])

section
variable [Fintype T] {t j : T} {s x : JoinSystem T} {es more : List (JoinEvent T)}

omit [Fintype T] in
theorem JoinSystem.exited_other {y : ThreadSystem T} {l : JoinLabel T} {v : Word}
    (exit : JoinEvent.exited t v ∈ s.events y l) : ∃ m, l.label = .other m := by
  obtain ⟨label, value⟩ := l
  unfold JoinSystem.events at exit
  split at exit
  · simp at exit
  · simp at exit
  · cases label with
    | other m => exact ⟨m, rfl⟩
    | _ => simp [JoinSystem.exits] at exit

theorem Life.wakes (life : Life t j s es) (ok : s.threads.Ok) {l : JoinLabel T} {v : Word}
    (taken : s.step l = some (x, more)) (exit : JoinEvent.exited t v ∈ more)
    (waits : s.threads.waits j = some t) (asleep : s.kernel.state j = suspendedThread) :
    ∃ k now, x.kernel = scheduling now k ∧ k.state t = finishedThread ∧ k.state j = readyThread := by
  obtain ⟨⟨y, _⟩, _, same⟩ := Option.map_eq_some_iff.mp taken
  have events : s.events y l = more := congrArg Prod.snd same
  obtain ⟨m, other⟩ := JoinSystem.exited_other (s := s) (events ▸ exit)
  obtain ⟨label, value⟩ := l
  obtain rfl : label = .other m := other
  have listed : JoinEvent.exited t v ∈ more.filter (JoinEvent.about t) :=
    List.mem_filter.mpr ⟨exit, by simp [JoinEvent.about]⟩
  rcases JoinSystem.other_cases ok (life.alive ok) taken with ⟨_, silent⟩ |
    ⟨self, free, _, _, _, k, now, sound, exited, switch⟩
  · rw [silent] at listed
    cases listed
  · obtain ⟨_, here, waiting⟩ := life.current ok self
    refine ⟨k, now, switch, by rw [self]; exact exited.ended, ?_⟩
    have apart : j ≠ s.kernel.currentThread := by
      rintro rfl
      rw [free] at waits
      cases waits
    rcases waiting waits with ⟨_, recorded⟩ | ready | ended
    · apply exited.wakes j (self ▸ recorded) (self ▸ here.flag) apart
      rw [asleep]
      decide
    · rw [ready] at asleep
      exact absurd asleep (by decide)
    · rw [ended] at asleep
      exact absurd asleep (by decide)

omit [DecidableEq T] [Fintype T] in
theorem Life.order (life : Life t j s es) : es = [] ∨ (∃ v, es = [.exited t v]) ∨
    ∃ v, es = [.exited t v, .deleted t, .joined j t v] := by
  cases life with
  | running => exact Or.inl rfl
  | ended => exact Or.inr (Or.inl ⟨_, rfl⟩)
  | joined value => exact Or.inr (Or.inr ⟨value, rfl⟩)

omit [DecidableEq T] [Fintype T] in
theorem Life.ended_inv {v : Word} (life : Life t j s [.exited t v]) : Attached t j s ∧
    s.kernel.state t = finishedThread ∧ s.exitValue t = v ∧
    (s.threads.waits j = some t →
      s.kernel.state j = readyThread ∨ s.kernel.state j = finishedThread) := by
  cases life with
  | ended here ended waiting => exact ⟨here, ended, rfl, waiting⟩

omit [Fintype T] in
theorem joinLoop_ended (ended : s.kernel.state t = finishedThread) :
    s.joinEvents t (joinLoop t s.kernel) =
      [.deleted t, .joined s.kernel.currentThread t (s.exitValue t)] := by
  unfold joinLoop
  rw [if_neg (not_not.mpr ended)]
  rfl

theorem Life.rendezvous (life : Life t j s (es.filter (JoinEvent.about t))) (ok : s.threads.Ok) :
    Rendezvous t j s es := by
  refine ⟨life.order, fun v exit self => ?_, fun l y more v taken exit waits asleep =>
    life.wakes ok taken exit waits asleep, fun v ended waits => ?_, fun v ended calls self env value => ?_⟩
  · have listed : JoinEvent.exited t v ∈ es.filter (JoinEvent.about t) :=
      List.mem_filter.mpr ⟨exit, by simp [JoinEvent.about]⟩
    rw [(life.current ok self.symm).1] at listed
    cases listed
  · rw [ended] at life
    obtain ⟨here, done, rfl, waiting⟩ := life.ended_inv
    refine ⟨waiting waits, fun self env value => ?_⟩
    rw [← self] at waits
    have events := JoinSystem.events_rejoin (s := s)
      (s.threads.joined t env (joinWoken t s.kernel)) env value waits
    rw [here.rejoin, joinLoop_ended done, self] at events
    simp only [JoinSystem.step, ThreadSystem.step, waits, here.there, Bool.false_eq_true, ↓reduceIte,
      Option.map_some, here.rejoin, events]
    exact ⟨_, rfl⟩
  · rw [ended] at life
    obtain ⟨here, done, rfl, _⟩ := life.ended_inv
    have valid : s.threads.handle t = true := by
      have other : t ≠ s.kernel.idleThread := by
        rintro rfl
        rw [ok.system.idling] at done
        exact ready_ne_finished done
      simp [ThreadSystem.handle, here.alive, here.there, other]
    have events := JoinSystem.events_join (s := s) (u := t)
      (s.threads.joined t env (pthreadJoinSys t s.kernel)) env value
    rw [here.join, joinLoop_ended done, self] at events
    simp only [JoinSystem.step, ThreadSystem.step, calls, valid, Bool.and_self, ↓reduceIte,
      Option.map_some, here.join, events]
    exact ⟨_, rfl⟩

end

theorem JoinSystem.step_ok [Fintype T] {s x : JoinSystem T} {l : JoinLabel T} {es : List (JoinEvent T)}
    (ok : s.threads.Ok) (taken : s.step l = some (x, es)) : x.threads.Ok := by
  obtain ⟨⟨y, first⟩, moved, same⟩ := Option.map_eq_some_iff.mp taken
  cases same
  exact ok.step moved

def joinStart : JoinSystem (Fin 3) := JoinSystem.start 0 [(0, 1023), (1, 5), (2, 9)]

/-- Thread 1 joins thread 2, which wakes it by a signal for nothing, gives way to
    it once, and exits with 7. -/
def wokenForNothing : List (JoinLabel (Fin 3)) :=
  [⟨.join 2 stillEnv, 0⟩, ⟨.other (.enter (.call (.kill 1 10)) stillEnv), 0⟩,
    ⟨.other (.resume stillEnv), 0⟩, ⟨.other (.enter (.call .yield) stillEnv), 0⟩, ⟨.rejoin stillEnv, 0⟩,
    ⟨.other (.resume stillEnv), 0⟩, ⟨.other (.resume stillEnv), 0⟩,
    ⟨.other (.enter (.call .exit) stillEnv), 7⟩, ⟨.rejoin stillEnv, 0⟩]

end L4ertl
