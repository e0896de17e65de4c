import L4ertl.Core.Reap
import L4ertl.Core.Sleeping
import L4ertl.System.Quiet

/-!
Waiting with a timeout (pthread.c, semaphore.c). The caller puts itself on the wait
list, sleeps as long as sleep_for lets it, and takes itself off the list again,
whoever has woken it. A thread that takes itself off must be on the list or have a
free node, since remove_pthread_list looks at nothing else.
-/
namespace L4ertl
open Intrusive
variable {T : Type} [DecidableEq T]

def etimedout : Int := 110

def WaitList.remove (l : WaitList T) (thread : T) (k : Kernel T) : Kernel T :=
  let (nodes, head) := removePthreadList (l.nodes k) (l.head k) thread
  l.store nodes head k

inductive TimedPoint where
  | unlocked (d : Duration)
  | asleep (d : Duration)
  | relock (r : Duration)
  | raised (r : Duration)
  deriving DecidableEq, Repr

inductive TimedProgress where
  | ret (v : Int)
  | sched (p : TimedPoint)
  deriving DecidableEq, Repr

def Timespec.badNsec (x : Timespec) : Bool := x.tvNsec.toInt < 0 || 1000000000 ≤ x.tvNsec.toInt

def timedSleep (l : WaitList T) (fuel : Nat) (now : Nat → Clocks) (d : Duration) (k : Kernel T) :
    Except Fault (Kernel T × TimedProgress) := do
  return (← sleepFor fuel now d (l.insert k.currentThread k), .sched (.asleep d))

/-- `none` is NULL. The value is looked at, taken from and looked at again before the
    argument is. -/
def semTimedwaitSys (fuel : Nat) (now : Nat → Clocks) (sem : Option Nat) (abstime : Option Timespec)
    (k : Kernel T) : Except Fault (Kernel T × TimedProgress) :=
  match sem, abstime with
  | some s, some abstime =>
    let k := if 0 < (k.sem s).value then (semTake s k).1 else k
    -- a value above zero here has been above one
    if 0 < (k.sem s).value then .ok (k, .ret 0)
    else if abstime.badNsec then .ok (setErrno einval k, .ret (-1))
    else timedSleep (semWaiters s) fuel (fun n => now (n + 1)) (abstime.nsecs - (now 0).realtime) k
  | _, _ => .ok (setErrno einval k, .ret (-1))

/-- The rest of the sleep is not used, and time_error is never set. -/
def semTimedwaitWoken (now : Clocks) (s : Nat) (d : Duration) (k : Kernel T) :
    Except Fault (Kernel T × Int) := do
  let _ ← sleepRest now d k
  let k := (semWaiters s).remove k.currentThread k
  return (if 0 < (k.sem s).value then (semTake s k).1 else k, 0)

def condTimedEnd (now : Clocks) (r : Duration) (k : Kernel T) : Kernel T × TimedProgress :=
  if r < now.monotonic then (setErrno etimedout k, .ret (-1)) else (k, .ret 0)

def condTimedRelock (now : Clocks) (m : Nat) (r : Duration) (k : Kernel T) :
    Kernel T × TimedProgress :=
  match mutexLockLoop m k with
  | (k, .ret _) => condTimedEnd now r k
  | (k, .blocked) => (k, .sched (.relock r))
  | (k, .raised) => (k, .sched (.raised r))

def condTimedWoken (now : Nat → Clocks) (c m : Nat) (d : Duration) (k : Kernel T) :
    Except Fault (Kernel T × TimedProgress) := do
  let r ← sleepRest (now 0) d k
  return condTimedRelock (now 1) m r ((condWaiters c).remove k.currentThread k)

section
variable [Fintype T]

def pthreadCondTimedwaitSys (fuel : Nat) (now : Nat → Clocks) (cond mutex : Option Nat)
    (abstime : Option Timespec) (k : Kernel T) : Except Fault (Kernel T × TimedProgress) :=
  match cond, mutex, abstime with
  | some c, some m, some abstime =>
    let d := abstime.nsecs - (now 0).realtime
    if (k.mutex m).owner ≠ some k.currentThread then .ok (setErrno eperm k, .ret (-1))
    else
      match mutexUnlock m k with
      | (k, .ret _) => timedSleep (condWaiters c) fuel (fun n => now (n + 1)) d k
      | (k, .lowered) => .ok (k, .sched (.unlocked d))
  | _, _, _ => .ok (setErrno einval k, .ret (-1))

end

def TimedPoint.run (fuel : Nat) (now : Nat → Clocks) (c m : Nat) (k : Kernel T) :
    TimedPoint → Except Fault (Kernel T × TimedProgress)
  | .unlocked d => timedSleep (condWaiters c) fuel now d k
  | .asleep d => condTimedWoken now c m d k
  | .relock r => .ok (condTimedRelock (now 0) m r k)
  | .raised r => .ok (condTimedEnd (now 0) r k)

theorem ok_of_toOption {α : Type} {x : Except Fault α} {a : α} (seen : x.toOption = some a) : x = .ok a := by
  cases x with
  | error e => cases seen
  | ok b =>
    cases seen
    rfl

theorem setErrno_self (e : Int) (k : Kernel T) : (setErrno e k).errno k.currentThread = e := by
  simp [setErrno]

/-- The list runs through the threads `xs`; `t` is one of them or its node is free. -/
structure Queued (l : WaitList T) (t : T) (k : Kernel T) (xs : List T) : Prop where
  chain : Chain (l.nodes k) (l.head k) xs
  nodup : xs.Nodup
  free : t ∉ xs → l.nodes k t = detached

def WaitList.Free (l : WaitList T) (k : Kernel T) (u : T) : Prop :=
  l.nodes k u = detached ∧ l.head k ≠ some u

instance (l : WaitList T) (k : Kernel T) (u : T) : Decidable (l.Free k u) :=
  inferInstanceAs (Decidable (_ ∧ _))

section
variable {l : WaitList T} {t u x : T} {k w : Kernel T} {xs : List T}

theorem Queued.off (queued : Queued l t k xs) (out : t ∉ xs) : ¬Linked (l.nodes k) (l.head k) t :=
  fun linked => out (linked.mem queued.chain)

theorem Queued.congr (queued : Queued l t k xs) (head : l.head w = l.head k)
    (nodes : ∀ u, u = t ∨ u ∈ xs → l.nodes w u = l.nodes k u) : Queued l t w xs := by
  refine ⟨?_, queued.nodup, fun out => ?_⟩
  · rw [head]
    exact segment_congr (fun u member => nodes u (Or.inr member)) queued.chain
  · rw [nodes t (Or.inl rfl)]
    exact queued.free out

theorem Queued.same (queued : Queued l t k xs) (head : l.head w = l.head k)
    (nodes : l.nodes w = l.nodes k) : Queued l t w xs :=
  queued.congr head fun u _ => by rw [nodes]

theorem WaitList.Free.not_mem (free : l.Free k u) (queued : Queued l t k xs) : u ∉ xs := by
  intro member
  obtain ⟨as, bs, rfl⟩ := List.append_of_mem member
  obtain ⟨back, _, first⟩ := chain_split queued.chain
  rw [free.1] at back
  have alone : as = [] := List.getLast?_eq_none_iff.mp back.symm
  exact free.2 (first.mpr (Or.inl alone))

theorem Queued.insert (queued : Queued l t k xs) (free : l.Free k u) :
    Queued l t (l.insert u k) (u :: xs) := by
  have new := free.not_mem queued
  have still : Function.update (l.nodes k) u detached = l.nodes k := by
    rw [← free.1, Function.update_eq_self]
  have linked := insertPthreadList_chain queued.chain queued.nodup new
  rw [still] at linked
  refine ⟨?_, List.nodup_cons.mpr ⟨new, queued.nodup⟩, fun out => ?_⟩
  · rw [WaitList.insert, l.nodes_store, l.head_store]
    exact linked
  · rw [List.mem_cons, not_or] at out
    have notHead : l.head k ≠ some t := by
      intro head
      rw [segment_head queued.chain] at head
      exact out.2 (List.mem_of_head? head)
    rw [WaitList.insert, l.nodes_store]
    simp only [insertPthreadList, setNext_apply, if_neg out.1, patchPrev_apply, if_neg notHead]
    exact queued.free out.2

theorem Queued.blockOn (queued : Queued l t k xs)
    (lists : l.nodes (suspendThread k.currentThread k) = l.nodes k ∧
      l.head (suspendThread k.currentThread k) = l.head k) (free : l.Free k k.currentThread) :
    Queued l t (blockOn l k) (k.currentThread :: xs) := by
  apply (queued.same lists.2 lists.1).insert
  refine ⟨?_, ?_⟩
  · rw [lists.1]
    exact free.1
  · rw [lists.2]
    exact free.2

theorem Queued.activate (queued : Queued l t k xs) (u : T) : Queued l t (activateThread u k) xs :=
  queued.same (l.head_activate u k) (l.nodes_activate u k)

theorem Queued.removeHead (queued : Queued l t k (x :: xs)) :
    Queued l t (l.removeHead k).1 xs ∧ (l.removeHead k).2 = some x := by
  obtain ⟨n, rest, removed, chain, gone, others⟩ := removeHead_chain queued.chain queued.nodup
  have parts := List.nodup_cons.mp queued.nodup
  have stored : l.removeHead k = (l.store n rest k, some x) := by
    simp only [WaitList.removeHead, removed]
  rw [stored]
  refine ⟨⟨?_, parts.2, fun out => ?_⟩, rfl⟩
  · rw [l.nodes_store, l.head_store]
    exact chain
  · rw [l.nodes_store]
    by_cases same : t = x
    · rw [same]
      exact gone
    · have outside : t ∉ x :: xs := by
        rw [List.mem_cons, not_or]
        exact ⟨same, out⟩
      rw [others t outside]
      exact queued.free outside

theorem Queued.drain [Fintype T] (queued : Queued l t k xs) : Queued l t (drain l k) [] := by
  obtain ⟨_, _, gone, rest⟩ := unlinkAll_chain (Fintype.card T + 1) queued.chain queued.nodup
    (Nat.lt_succ_of_le queued.nodup.length_le_card)
  refine ⟨drain_head l k, List.nodup_nil, fun _ => ?_⟩
  have nodes : l.nodes (L4ertl.drain l k) = (unlinkAll (Fintype.card T + 1) (l.nodes k) (l.head k)).1 := by
    unfold L4ertl.drain
    rw [l.wakeAll_eq, l.nodes_store]
  rw [nodes]
  by_cases member : t ∈ xs
  · exact gone t member
  · rw [rest t member]
    exact queued.free member

theorem Queued.remove (queued : Queued l t k xs) (member : u ∈ xs) :
    Queued l t (l.remove u k) (xs.erase u) := by
  have chain := removePthreadList_chain queued.chain queued.nodup member
  refine ⟨?_, queued.nodup.erase u, fun out => ?_⟩
  · rw [WaitList.remove, l.nodes_store, l.head_store]
    exact chain
  · rw [WaitList.remove, l.nodes_store, removePthreadList_eq]
    by_cases same : t = u
    · rw [same]
      simp
    · have outside : t ∉ xs := fun inside => out ((List.mem_erase_of_ne same).mpr inside)
      obtain ⟨as, bs, rfl⟩ := List.append_of_mem member
      obtain ⟨back, forth, _⟩ := chain_split queued.chain
      have notPrev : (l.nodes k u).prev ≠ some t := by
        rw [back]
        intro last
        exact outside (List.mem_append_left _ (List.mem_of_getLast? last))
      have notNext : (l.nodes k u).next ≠ some t := by
        rw [forth]
        intro first
        exact outside (List.mem_append_right _ (List.mem_cons_of_mem u (List.mem_of_head? first)))
      have still : bypass (l.nodes k) u t = l.nodes k t := by
        rw [bypass_apply, if_neg notPrev, if_neg notNext]
      simp only [Function.update_of_ne same, still]
      exact queued.free outside

theorem Queued.remove_free (queued : Queued l t k xs) (clear : l.nodes k u = detached) (out : u ∉ xs) :
    Queued l t (l.remove u k) xs := by
  have notHead : l.head k ≠ some u := by
    intro head
    rw [segment_head queued.chain] at head
    exact out (List.mem_of_head? head)
  have same : removePthreadList (l.nodes k) (l.head k) u = (l.nodes k, l.head k) := by
    have still : bypass (l.nodes k) u = l.nodes k := by
      funext y
      rw [bypass_apply, clear]
      rfl
    rw [removePthreadList_eq, still, if_neg notHead, ← clear, Function.update_eq_self]
  apply queued.same
  · rw [WaitList.remove, same, l.head_store]
  · rw [WaitList.remove, same, l.nodes_store]

theorem Queued.either (queued : Queued l t k xs) :
    Linked (l.nodes k) (l.head k) t ∨ l.nodes k t = detached := by
  by_cases member : t ∈ xs
  · exact Or.inl (Linked.of_mem member queued.chain)
  · exact Or.inr (queued.free member)

theorem Queued.leave (queued : Queued l t k xs)
    (either : Linked (l.nodes k) (l.head k) u ∨ l.nodes k u = detached) :
    ∃ ys, Queued l t (l.remove u k) ys ∧ u ∉ ys ∧ (t ∉ xs → t ∉ ys) := by
  by_cases member : u ∈ xs
  · refine ⟨xs.erase u, queued.remove member, queued.nodup.not_mem_erase, fun out inside => ?_⟩
    exact out (List.mem_of_mem_erase inside)
  · have clear : l.nodes k u = detached := by
      rcases either with linked | clear
      · exact absurd (linked.mem queued.chain) member
      · exact clear
    exact ⟨xs, queued.remove_free clear member, member, id⟩

end
end L4ertl
