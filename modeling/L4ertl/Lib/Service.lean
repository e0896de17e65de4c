import Mathlib.Order.MinMax
import Mathlib.Logic.Function.Basic
import Mathlib.Data.List.Nodup

/-!
Serving a queue in the order of its values. A round takes an item of least value,
if that passes a test of its own, and gives it its next value or lets it leave.
An item that does not pass, or comes back, stays in the queue for good, and
nothing greater than what it can have is ever served.
-/
namespace Service

variable {ι K : Type} [DecidableEq ι] [LinearOrder K]

def Least (q : ι → Option K) (i : ι) (x : K) : Prop := q i = some x ∧ ∀ j y, q j = some y → x ≤ y

inductive Serves (due : ι → K → Prop) (next : ι → Option K) :
    (ι → Option K) → List (ι × K) → (ι → Option K) → Prop where
  | refl (q : ι → Option K) : Serves due next q [] q
  | cons {q p : ι → Option K} {i : ι} {x : K} {S : List (ι × K)} (least : Least q i x) (passes : due i x)
      (rest : Serves due next (Function.update q i (next i)) S p) : Serves due next q ((i, x) :: S) p

def Stopped (due : ι → K → Prop) (q : ι → Option K) : Prop :=
  (∀ i, q i = none) ∨ ∃ i x, Least q i x ∧ ¬due i x

def StaysBelow (due : ι → K → Prop) (next : ι → Option K) (q : ι → Option K) (j : ι) (z : K) : Prop :=
  ∃ u, q j = some u ∧ u ≤ z ∧ (due j u → ∃ w, next j = some w ∧ w ≤ z)

variable {due : ι → K → Prop} {next : ι → Option K} {q p : ι → Option K} {S : List (ι × K)}

theorem StaysBelow.step {i j : ι} {x z : K} (stays : StaysBelow due next q j z) (least : Least q i x)
    (passes : due i x) : x ≤ z ∧ StaysBelow due next (Function.update q i (next i)) j z := by
  obtain ⟨u, here, below, back⟩ := stays
  refine ⟨le_trans (least.2 j u here) below, ?_⟩
  by_cases same : j = i
  · subst same
    have value : u = x := Option.some.inj (here.symm.trans least.1)
    subst value
    obtain ⟨w, again, under⟩ := back passes
    exact ⟨w, by rw [Function.update_self, again], under, fun _ => ⟨w, again, under⟩⟩
  · exact ⟨u, by rw [Function.update_of_ne same, here], below, back⟩

theorem Serves.bounded (run : Serves due next q S p) {j : ι} {z : K} (stays : StaysBelow due next q j z) :
    StaysBelow due next p j z ∧ ∀ e ∈ S, e.2 ≤ z := by
  induction run with
  | refl q => exact ⟨stays, fun e member => by cases member⟩
  | cons least passes rest ih =>
    obtain ⟨first, after⟩ := stays.step least passes
    obtain ⟨last, later⟩ := ih after
    refine ⟨last, fun e member => ?_⟩
    rcases List.mem_cons.mp member with same | inside
    · rw [same]
      exact first
    · exact later e inside

theorem Serves.first (run : Serves due next q S p) {i : ι} (served : i ∈ S.map Prod.fst) :
    ∃ x, q i = some x ∧ due i x ∧ (i, x) ∈ S := by
  induction run with
  | refl q => cases served
  | @cons q p a x S least passes rest ih =>
    by_cases same : i = a
    · subst same
      exact ⟨x, least.1, passes, List.mem_cons_self⟩
    · have later : i ∈ S.map Prod.fst := by
        rcases List.mem_cons.mp served with first | inside
        · exact absurd first same
        · exact inside
      obtain ⟨y, here, passesI, inside⟩ := ih later
      rw [Function.update_of_ne same] at here
      exact ⟨y, here, passesI, List.mem_cons_of_mem _ inside⟩

theorem Serves.last (run : Serves due next q S p) {i : ι} {r : K} (there : p i = some r) :
    (i ∉ S.map Prod.fst ∧ q i = some r) ∨
      (next i = some r ∧ ∃ v, q i = some v ∧ due i v ∧ (i, v) ∈ S) := by
  induction run with
  | refl q => exact Or.inl ⟨List.not_mem_nil, there⟩
  | @cons q p a x S least passes rest ih =>
    by_cases same : i = a
    · subst same
      right
      refine ⟨?_, x, least.1, passes, List.mem_cons_self⟩
      rcases ih there with ⟨_, here⟩ | ⟨again, _⟩
      · rw [Function.update_self] at here
        exact here
      · exact again
    · rcases ih there with ⟨unserved, here⟩ | ⟨again, v, here, passesI, inside⟩
      · left
        rw [Function.update_of_ne same] at here
        refine ⟨fun member => ?_, here⟩
        rcases List.mem_cons.mp member with first | later
        · exact same first
        · exact unserved later
      · right
        rw [Function.update_of_ne same] at here
        exact ⟨again, v, here, passesI, List.mem_cons_of_mem _ inside⟩

def Loops (due : ι → K → Prop) (next : ι → Option K) (q : ι → Option K) (i : ι) (v w : K) : Prop :=
  q i = some v ∧ due i v ∧ next i = some w ∧ due i w

/-- Every item that would be served again is behind one that stays. -/
def Shielded (due : ι → K → Prop) (next : ι → Option K) (q : ι → Option K) : Prop :=
  ∀ i v w, Loops due next q i v w → ∃ j z, StaysBelow due next q j z ∧ z < max v w

theorem Shielded.step {i : ι} {x : K} (shielded : Shielded due next q) (least : Least q i x)
    (passes : due i x) : Shielded due next (Function.update q i (next i)) := by
  intro a v w loops
  obtain ⟨here, passesA, again, passesW⟩ := loops
  by_cases same : a = i
  · subst same
    rw [Function.update_self, again] at here
    have value : w = v := Option.some.inj here
    subst value
    obtain ⟨j, z, stays, less⟩ := shielded a x w ⟨least.1, passes, again, passesW⟩
    obtain ⟨under, after⟩ := stays.step least passes
    refine ⟨j, z, after, ?_⟩
    rcases lt_max_iff.mp less with lower | lower
    · exact absurd under (not_le_of_gt lower)
    · rw [max_self]
      exact lower
  · rw [Function.update_of_ne same] at here
    obtain ⟨j, z, stays, less⟩ := shielded a v w ⟨here, passesA, again, passesW⟩
    exact ⟨j, z, (stays.step least passes).2, less⟩

theorem Serves.nodup (run : Serves due next q S p) (shielded : Shielded due next q) :
    (S.map Prod.fst).Nodup := by
  induction run with
  | refl q => exact List.nodup_nil
  | @cons q p a x S least passes rest ih =>
    refine List.nodup_cons.mpr ⟨fun again => ?_, ih (shielded.step least passes)⟩
    obtain ⟨y, back, passesY, inside⟩ := rest.first again
    rw [Function.update_self] at back
    obtain ⟨j, z, stays, less⟩ := shielded a x y ⟨least.1, passes, back, passesY⟩
    obtain ⟨under, after⟩ := stays.step least passes
    have later : y ≤ z := (rest.bounded after).2 (a, y) inside
    exact absurd (max_le under later) (not_le_of_gt less)

theorem Serves.stopper (run : Serves due next q S p) {i y : ι} {z r : K}
    (stays : StaysBelow due next q i z) (least : Least p y r) (fails : ¬due y r) :
    ∃ v, q y = some v ∧
      ((¬due y v ∧ v ≤ z) ∨ (due y v ∧ ∃ w, next y = some w ∧ ¬due y w ∧ max v w ≤ z)) := by
  obtain ⟨⟨u, here, below, _⟩, served⟩ := run.bounded stays
  have under : r ≤ z := le_trans (least.2 i u here) below
  rcases run.last least.1 with ⟨_, same⟩ | ⟨again, v, before, passes, inside⟩
  · exact ⟨r, same, Or.inl ⟨fails, under⟩⟩
  · exact ⟨v, before, Or.inr ⟨passes, r, again, fails, max_le (served (y, v) inside) under⟩⟩

/-- No other item stops the queue or keeps coming back up to the value `v` of `i`. -/
def Clear (due : ι → K → Prop) (next : ι → Option K) (q : ι → Option K) (i : ι) (v : K) : Prop :=
  ∀ j, j ≠ i → ∀ x, q j = some x → (¬due j x → v < x) ∧ (∀ w, next j = some w → due j x → v < max x w)

theorem Clear.step {i a : ι} {v x : K} (clear : Clear due next q i v) (here : q i = some v)
    (least : Least q a x) (passes : due a x) (other : a ≠ i) :
    Clear due next (Function.update q a (next a)) i v := by
  intro j apart y there
  by_cases same : j = a
  · subst same
    rw [Function.update_self] at there
    have behind : v < y := by
      rcases lt_max_iff.mp ((clear j other x least.1).2 y there passes) with less | less
      · exact absurd (least.2 i v here) (not_le_of_gt less)
      · exact less
    refine ⟨fun _ => behind, fun w again _ => ?_⟩
    exact lt_of_lt_of_le behind (le_max_left y w)
  · rw [Function.update_of_ne same] at there
    exact clear j apart y there

theorem Serves.waits (run : Serves due next q S p) {i : ι} {v : K} (clear : Clear due next q i v)
    (here : q i = some v) (passes : due i v) (unserved : i ∉ S.map Prod.fst) :
    (S.map Prod.fst).Nodup ∧ (∀ e ∈ S, e.2 ≤ v) ∧ ¬Stopped due p := by
  induction run with
  | refl q =>
    refine ⟨List.nodup_nil, ?_, fun stopped => ?_⟩
    · intro e member
      cases member
    rcases stopped with empty | ⟨y, r, least, fails⟩
    · rw [empty i] at here
      cases here
    · by_cases same : y = i
      · subst same
        have value : r = v := Option.some.inj (least.1.symm.trans here)
        exact fails (value ▸ passes)
      · exact absurd (least.2 i v here) (not_le_of_gt ((clear y same r least.1).1 fails))
  | @cons q p a x S least passesA rest ih =>
    have other : a ≠ i := fun same => unserved (List.mem_cons.mpr (Or.inl same.symm))
    have first : x ≤ v := least.2 i v here
    have kept : Function.update q a (next a) i = some v := by
      rw [Function.update_of_ne (Ne.symm other), here]
    obtain ⟨nodup, below, runs⟩ := ih (clear.step here least passesA other) kept
      fun later => unserved (List.mem_cons_of_mem _ later)
    refine ⟨List.nodup_cons.mpr ⟨fun again => ?_, nodup⟩, fun e member => ?_, runs⟩
    · obtain ⟨y, back, _, inside⟩ := rest.first again
      rw [Function.update_self] at back
      exact absurd (max_le first (below (a, y) inside))
        (not_le_of_gt ((clear a other x least.1).2 y back passesA))
    · rcases List.mem_cons.mp member with same | later
      · rw [same]
        exact first
      · exact below e later

end Service
