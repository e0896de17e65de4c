import L4ertl.Lib.Intrusive

/-!
Who waits since when. Members arrive one at a time, at the number that a counter
stands at, and a list in which a new member is put first shows the last of them at
its head. Only the forward links matter to such a list.
-/
namespace Intrusive

section
variable {α : Type}

def Forward (m : Links α) : Option α → List α → Prop
  | h, [] => h = none
  | h, x :: xs => h = some x ∧ Forward m (m x).next xs

theorem Forward.congr {m m' : Links α} {h : Option α} {xs : List α}
    (same : ∀ x ∈ xs, (m' x).next = (m x).next) (path : Forward m h xs) : Forward m' h xs := by
  induction xs generalizing h with
  | nil => exact path
  | cons x xs ih =>
    obtain ⟨head, tail⟩ := path
    refine ⟨head, ?_⟩
    rw [same x List.mem_cons_self]
    exact ih (fun y member => same y (List.mem_cons_of_mem x member)) tail

variable [DecidableEq α]

theorem Forward.link {m : Links α} {h : Option α} {x : α} {xs : List α} (path : Forward m h xs)
    (outside : x ∉ xs) : Forward (setNext (patchPrev m h (some x)) x h) (some x) (x :: xs) := by
  refine ⟨rfl, ?_⟩
  have first : (setNext (patchPrev m h (some x)) x h x).next = h := by simp [setNext_apply]
  rw [first]
  apply path.congr
  intro y member
  have other : y ≠ x := fun same => outside (same ▸ member)
  rw [setNext_apply, if_neg other, patchPrev_next]

theorem Forward.unlink {m : Links α} {x : α} {xs : List α} (path : Forward m (m x).next xs)
    (outside : x ∉ xs) :
    Forward (Function.update (patchPrev m (m x).next none) x detached) (m x).next xs := by
  apply path.congr
  intro y member
  have other : y ≠ x := fun same => outside (same ▸ member)
  rw [Function.update_of_ne other, patchPrev_next]

end
end Intrusive

namespace Arrivals
variable {α : Type}

/-- `since t` is the arrival of `t` while it waits; the last to arrive is the first of
    the list. -/
structure Stacked (since : α → Option Nat) (clock : Nat) (xs : List α) : Prop where
  waits : ∀ t, t ∈ xs ↔ since t ≠ none
  order : xs.Pairwise fun a b => ∀ m n, since a = some m → since b = some n → n < m
  past : ∀ t n, since t = some n → n < clock

variable {since since' : α → Option Nat} {clock : Nat} {x : α} {xs : List α}

theorem stacked_empty (nobody : ∀ t, since t = none) : Stacked since clock [] := by
  refine ⟨fun t => ?_, List.Pairwise.nil, fun t n here => ?_⟩
  · simp [nobody t]
  · rw [nobody t] at here
    cases here

theorem Stacked.nodup (stacked : Stacked since clock xs) : xs.Nodup := by
  have order := stacked.order
  apply List.Pairwise.imp_of_mem _ order
  intro a b memberA _ less same
  obtain ⟨n, here⟩ := Option.ne_none_iff_exists'.mp ((stacked.waits a).mp memberA)
  have self := less n n here (same ▸ here)
  omega

theorem Stacked.still {ys : List α} (order : ys.Pairwise fun a b => ∀ m n, since a = some m → since b = some n → n < m)
    (same : ∀ t ∈ ys, since' t = since t) :
    ys.Pairwise fun a b => ∀ m n, since' a = some m → since' b = some n → n < m := by
  apply List.Pairwise.imp_of_mem _ order
  intro a b memberA memberB less m n first second
  rw [same a memberA] at first
  rw [same b memberB] at second
  exact less m n first second

theorem Stacked.later (stacked : Stacked since clock xs) (same : ∀ t, since' t = since t) :
    Stacked since' (clock + 1) xs := by
  have eq : since' = since := funext same
  subst eq
  refine ⟨stacked.waits, stacked.order, fun t n here => ?_⟩
  have before := stacked.past t n here
  omega

theorem Stacked.push (stacked : Stacked since clock xs) (new : since x = none)
    (self : since' x = some clock) (others : ∀ t, t ≠ x → since' t = since t) :
    Stacked since' (clock + 1) (x :: xs) := by
  have outside : ∀ t ∈ xs, t ≠ x := by
    intro t member same
    exact (stacked.waits t).mp member (same ▸ new)
  refine ⟨fun t => ?_, List.pairwise_cons.mpr ⟨fun b member m n first second => ?_, ?_⟩, fun t n here => ?_⟩
  · by_cases same : t = x
    · simp [same, self]
    · rw [List.mem_cons, others t same, ← stacked.waits t]
      exact or_iff_right same
  · rw [self] at first
    cases first
    rw [others b (outside b member)] at second
    exact stacked.past b n second
  · exact Stacked.still stacked.order fun t member => others t (outside t member)
  · by_cases same : t = x
    · rw [same, self] at here
      cases here
      exact Nat.lt_succ_self clock
    · rw [others t same] at here
      have before := stacked.past t n here
      omega

theorem Stacked.pop (stacked : Stacked since clock (x :: xs)) (self : since' x = none)
    (others : ∀ t, t ≠ x → since' t = since t) : Stacked since' (clock + 1) xs := by
  have parts := List.nodup_cons.mp stacked.nodup
  have outside : ∀ t ∈ xs, t ≠ x := fun t member same => parts.1 (same ▸ member)
  refine ⟨fun t => ?_, ?_, fun t n here => ?_⟩
  · by_cases same : t = x
    · simp [same, self, parts.1]
    · rw [others t same, ← stacked.waits t, List.mem_cons]
      exact (or_iff_right same).symm
  · exact Stacked.still (List.pairwise_cons.mp stacked.order).2 fun t member => others t (outside t member)
  · by_cases same : t = x
    · rw [same, self] at here
      cases here
    · rw [others t same] at here
      have before := stacked.past t n here
      omega

theorem Stacked.top (stacked : Stacked since clock (x :: xs)) :
    ∃ n, since x = some n ∧ ∀ t m, since t = some m → t ≠ x → m < n := by
  obtain ⟨n, here⟩ := Option.ne_none_iff_exists'.mp ((stacked.waits x).mp List.mem_cons_self)
  refine ⟨n, here, fun t m there other => ?_⟩
  have member : t ∈ xs := by
    have inside := (stacked.waits t).mpr (by rw [there]; exact Option.some_ne_none m)
    exact (List.mem_cons.mp inside).resolve_left other
  exact (List.pairwise_cons.mp stacked.order).1 t member n m here there

end Arrivals
