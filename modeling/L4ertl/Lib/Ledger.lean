import Mathlib.Data.List.Induction
import Mathlib.Logic.Function.Basic

/-!
The log of an allocator over any type of blocks. A block is outstanding when it
has been handed out and not been given back since; a log is sound when whatever
is given back is outstanding at that point.
-/
namespace Ledger

inductive Entry (B : Type) where
  | malloc (block : B)
  | free (block : B)
  deriving DecidableEq, Repr

variable {B : Type} [DecidableEq B]

def Entry.apply (live : B → Bool) : Entry B → B → Bool
  | .malloc b => Function.update live b true
  | .free b => Function.update live b false

omit [DecidableEq B] in
def Entry.fresh (live : B → Bool) : Entry B → Bool
  | .malloc b => !live b
  | .free _ => true

def after (live : B → Bool) (es : List (Entry B)) : B → Bool := es.foldl Entry.apply live

omit [DecidableEq B] in
def Outstanding (es : List (Entry B)) (b : B) : Prop :=
  ∃ before since, es = before ++ .malloc b :: since ∧ .free b ∉ since

omit [DecidableEq B] in
def Sound (es : List (Entry B)) : Prop :=
  ∀ before b later, es = before ++ .free b :: later → Outstanding before b

theorem after_append (live : B → Bool) (es fs : List (Entry B)) :
    after live (es ++ fs) = after (after live es) fs := List.foldl_append

theorem outstanding_of_after (es : List (Entry B)) {b : B}
    (live : after (fun _ => false) es b = true) : Outstanding es b := by
  induction es using List.reverseRecOn with
  | nil => cases live
  | append_singleton es e ih =>
    rw [after_append] at live
    cases e with
    | malloc c =>
      simp only [after, List.foldl_cons, List.foldl_nil, Entry.apply, Function.update_apply] at live
      split at live
      · rename_i same
        subst same
        exact ⟨es, [], rfl, List.not_mem_nil⟩
      · rename_i other
        obtain ⟨before, since, rfl, kept⟩ := ih live
        refine ⟨before, since ++ [.malloc c], by simp, ?_⟩
        simp [kept]
    | free c =>
      simp only [after, List.foldl_cons, List.foldl_nil, Entry.apply, Function.update_apply] at live
      split at live
      · cases live
      · rename_i other
        obtain ⟨before, since, rfl, kept⟩ := ih live
        refine ⟨before, since ++ [.free c], by simp, ?_⟩
        simp [kept, other]

theorem after_other {es : List (Entry B)} {b : B} (live : B → Bool) (kept : live b = true)
    (never : .free b ∉ es) : after live es b = true := by
  induction es generalizing live with
  | nil => exact kept
  | cons e es ih =>
    rw [List.mem_cons, not_or] at never
    apply ih _ _ never.2
    cases e with
    | malloc c =>
      simp only [Entry.apply, Function.update_apply]
      split
      · rfl
      · exact kept
    | free c =>
      have other : b ≠ c := fun same => never.1 (by rw [same])
      rw [Entry.apply, Function.update_of_ne other]
      exact kept

theorem after_of_outstanding {es : List (Entry B)} {b : B} (live : B → Bool)
    (outstanding : Outstanding es b) : after live es b = true := by
  obtain ⟨before, since, rfl, never⟩ := outstanding
  rw [after_append]
  show after (Entry.apply (after live before) (.malloc b)) since b = true
  refine after_other _ ?_ never
  simp [Entry.apply]

omit [DecidableEq B] in
theorem Sound.handed {es : List (Entry B)} (sound : Sound es) {b : B} (given : .free b ∈ es) :
    .malloc b ∈ es := by
  obtain ⟨before, later, rfl⟩ := List.append_of_mem given
  obtain ⟨early, since, rfl, _⟩ := sound before b later rfl
  simp

omit [DecidableEq B] in
theorem sound_nil : Sound ([] : List (Entry B)) := by
  intro before b later eq
  simp at eq

omit [DecidableEq B] in
theorem Sound.malloc {es : List (Entry B)} (sound : Sound es) (c : B) : Sound (es ++ [.malloc c]) := by
  intro before b later eq
  rcases List.append_eq_append_iff.mp eq with ⟨rest, rfl, tail⟩ | ⟨rest, rfl, tail⟩
  · cases rest with
    | nil => cases tail
    | cons e rest => simp at tail
  · cases rest with
    | nil => cases tail
    | cons e rest =>
      cases tail
      exact sound before b rest rfl

theorem Sound.free {es : List (Entry B)} (sound : Sound es) {c : B}
    (live : after (fun _ => false) es c = true) : Sound (es ++ [.free c]) := by
  intro before b later eq
  rcases List.append_eq_append_iff.mp eq with ⟨rest, rfl, tail⟩ | ⟨rest, rfl, tail⟩
  · cases rest with
    | nil =>
      cases tail
      rw [List.append_nil]
      exact outstanding_of_after es live
    | cons e rest => simp at tail
  · cases rest with
    | nil =>
      cases tail
      rw [List.append_nil] at live
      exact outstanding_of_after before live
    | cons e rest =>
      cases tail
      exact sound before b rest rfl

end Ledger
