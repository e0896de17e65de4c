import Mathlib.Data.List.Basic

/-!
Runs of a deterministic labelled transition system whose steps also say what
happened. An invariant may speak about the events of the run so far; it has to
be kept only by the steps that a condition on the state and the label admits.
-/
namespace Lts

variable {S L E : Type}

/-- The state and the events after the labels `ls`; `none` if one is not enabled. -/
def exec (step : S → L → Option (S × List E)) : S → List L → Option (S × List E)
  | s, [] => some (s, [])
  | s, l :: ls =>
    match step s l with
    | none => none
    | some (w, first) =>
      match exec step w ls with
      | none => none
      | some (x, later) => some (x, first ++ later)

/-- `Ok` holds at every step of the run. -/
def Along (step : S → L → Option (S × List E)) (Ok : S → L → Prop) : S → List L → Prop
  | _, [] => True
  | s, l :: ls => Ok s l ∧ ∀ w es, step s l = some (w, es) → Along step Ok w ls

variable {step : S → L → Option (S × List E)} {Ok : S → L → Prop}

theorem exec_cons {s x : S} {l : L} {ls : List L} {es : List E}
    (run : exec step s (l :: ls) = some (x, es)) :
    ∃ w first later, step s l = some (w, first) ∧ exec step w ls = some (x, later) ∧
      es = first ++ later := by
  unfold exec at run
  split at run
  · cases run
  · rename_i w first taken
    split at run
    · cases run
    · rename_i y later rest
      cases run
      exact ⟨w, first, later, taken, rest, rfl⟩

theorem Along.cons {s w : S} {l : L} {ls : List L} {e : List E} (ok : Ok s l)
    (taken : step s l = some (w, e)) (rest : Along step Ok w ls) : Along step Ok s (l :: ls) := by
  refine ⟨ok, fun v first also => ?_⟩
  rw [taken] at also
  cases also
  exact rest

instance Along.decide [∀ s l, Decidable (Ok s l)] : ∀ s ls, Decidable (Along step Ok s ls)
  | _, [] => isTrue trivial
  | s, l :: ls =>
    match taken : step s l with
    | none => decidable_of_iff (Ok s l) ⟨fun ok => ⟨ok, fun _ _ also => nomatch taken.symm.trans also⟩, And.left⟩
    | some (w, es) =>
      have := Along.decide w ls
      decidable_of_iff (Ok s l ∧ Along step Ok w ls)
        ⟨fun both => .cons both.1 taken both.2, fun along => ⟨along.1, along.2 w es taken⟩⟩

/-- The invariant rule, with the events of the run up to here. -/
theorem exec_invariant_from (Inv : S → List E → Prop)
    (keeps : ∀ s es l w first, Inv s es → Ok s l → step s l = some (w, first) →
      Inv w (es ++ first))
    (ls : List L) {s x : S} {past es : List E} (start : Inv s past) (along : Along step Ok s ls)
    (run : exec step s ls = some (x, es)) : Inv x (past ++ es) := by
  induction ls generalizing s past es with
  | nil =>
    cases run
    simpa using start
  | cons l ls ih =>
    obtain ⟨w, first, later, taken, rest, eq⟩ := exec_cons run
    have next := ih (keeps s past l w first start along.1 taken) (along.2 w first taken) rest
    rw [eq, ← List.append_assoc]
    exact next

theorem exec_invariant (Inv : S → List E → Prop)
    (keeps : ∀ s es l w first, Inv s es → Ok s l → step s l = some (w, first) →
      Inv w (es ++ first))
    (ls : List L) {s x : S} {es : List E} (start : Inv s []) (along : Along step Ok s ls)
    (run : exec step s ls = some (x, es)) : Inv x es := by
  have final := exec_invariant_from Inv keeps ls start along run
  simpa using final

theorem exec_keeps (Inv : S → Prop)
    (keeps : ∀ s l w es, Inv s → Ok s l → step s l = some (w, es) → Inv w)
    (ls : List L) {s x : S} {es : List E} (start : Inv s) (along : Along step Ok s ls)
    (run : exec step s ls = some (x, es)) : Inv x :=
  exec_invariant (fun s _ => Inv s) (fun s _ l w first inv ok taken => keeps s l w first inv ok taken)
    ls start along run

theorem along_trivial (ls : List L) (s : S) : Along step (fun _ _ => True) s ls := by
  induction ls generalizing s with
  | nil => trivial
  | cons l ls ih => exact ⟨trivial, fun w _ _ => ih w⟩

theorem exec_always (Inv : S → Prop) (keeps : ∀ s l w es, Inv s → step s l = some (w, es) → Inv w)
    (ls : List L) {s x : S} {es : List E} (start : Inv s) (run : exec step s ls = some (x, es)) : Inv x :=
  exec_keeps Inv (fun s l w es inv _ taken => keeps s l w es inv taken) ls start (along_trivial ls s) run

theorem along_of_forall {P : L → Prop} {s : S} {ls : List L} (each : ∀ l ∈ ls, P l) :
    Along step (fun _ l => P l) s ls := by
  induction ls generalizing s with
  | nil => trivial
  | cons l ls ih =>
    refine ⟨each l List.mem_cons_self, fun w es taken => ?_⟩
    exact ih fun m member => each m (List.mem_cons_of_mem l member)

theorem exec_append (ls ms : List L) (s : S) :
    exec step s (ls ++ ms) =
      (exec step s ls).bind fun r => (exec step r.1 ms).map fun q => (q.1, r.2 ++ q.2) := by
  induction ls generalizing s with
  | nil =>
    cases h : exec step s ms with
    | none => simp [exec, h]
    | some q => simp [exec, h]
  | cons l ls ih =>
    simp only [List.cons_append, exec]
    cases step s l with
    | none => rfl
    | some r =>
      obtain ⟨w, first⟩ := r
      simp only [ih]
      cases exec step w ls with
      | none => rfl
      | some q =>
        obtain ⟨x, later⟩ := q
        simp only [Option.bind_some]
        cases exec step x ms with
        | none => rfl
        | some z => simp

theorem exec_next {s x y : S} {before after : List L} {l : L} {es past : List E}
    (run : exec step s (before ++ l :: after) = some (x, es))
    (reached : exec step s before = some (y, past)) :
    ∃ z first, step y l = some (z, first) ∧
      exec step s (before ++ [l]) = some (z, past ++ first) := by
  rw [exec_append, reached, Option.bind_some] at run
  cases taken : step y l with
  | none => simp [exec, taken] at run
  | some r =>
    refine ⟨r.1, r.2, rfl, ?_⟩
    rw [exec_append, reached, Option.bind_some]
    simp [exec, taken]

theorem along_iff (ls : List L) (s : S) :
    Along step Ok s ls ↔ ∀ before l after x es, ls = before ++ l :: after →
      exec step s before = some (x, es) → Ok x l := by
  induction ls generalizing s with
  | nil => simp [Along]
  | cons l ls ih =>
    constructor
    · intro along before m after x es eq run
      cases before with
      | nil =>
        simp only [List.nil_append, List.cons.injEq] at eq
        cases run
        rw [← eq.1]
        exact along.1
      | cons b before =>
        simp only [List.cons_append, List.cons.injEq] at eq
        rw [← eq.1] at run
        obtain ⟨w, first, later, taken, rest, _⟩ := exec_cons run
        exact (ih w).mp (along.2 w first taken) before m after x later eq.2 rest
    · intro each
      refine ⟨each [] l ls s [] rfl rfl, ?_⟩
      intro w first taken
      rw [ih]
      intro before m after x es eq run
      apply each (l :: before) m after x (first ++ es) (by rw [eq]; rfl)
      simp [exec, taken, run]

theorem Along.of_append {ls ms : List L} {s : S} (along : Along step Ok s (ls ++ ms)) :
    Along step Ok s ls := by
  rw [along_iff] at *
  intro before l after x es eq run
  exact along before l (after ++ ms) x es (by rw [eq]; simp) run

theorem Along.and {May : S → L → Prop} {ls : List L} {s : S} (one : Along step Ok s ls)
    (two : Along step May s ls) : Along step (fun s l => Ok s l ∧ May s l) s ls := by
  induction ls generalizing s with
  | nil => trivial
  | cons l ls ih => exact ⟨⟨one.1, two.1⟩, fun w es taken => ih (one.2 w es taken) (two.2 w es taken)⟩

theorem Along.mono {May : S → L → Prop} {ls : List L} {s : S} (weaker : ∀ s l, Ok s l → May s l)
    (along : Along step Ok s ls) : Along step May s ls := by
  induction ls generalizing s with
  | nil => trivial
  | cons l ls ih => exact ⟨weaker s l along.1, fun w es taken => ih (along.2 w es taken)⟩

theorem Along.of_invariant {Good : S → L → Prop} (Inv : S → Prop)
    (keeps : ∀ s l w es, Inv s → Ok s l → step s l = some (w, es) → Inv w)
    (good : ∀ s l, Inv s → Ok s l → Good s l) {ls : List L} {s : S} (start : Inv s)
    (along : Along step Ok s ls) : Along step Good s ls := by
  induction ls generalizing s with
  | nil => trivial
  | cons l ls ih =>
    exact ⟨good s l start along.1, fun w es taken => ih (keeps s l w es start along.1 taken) (along.2 w es taken)⟩

theorem along_congr {May : S → L → Prop} (Inv : S → Prop)
    (keeps : ∀ s l w es, Inv s → step s l = some (w, es) → Inv w)
    (same : ∀ s l, Inv s → (Ok s l ↔ May s l)) (ls : List L) {s : S} (start : Inv s) :
    Along step Ok s ls ↔ Along step May s ls := by
  induction ls generalizing s with
  | nil => exact Iff.rfl
  | cons l ls ih =>
    refine and_congr (same s l start) ?_
    constructor
    · intro later w es taken
      exact (ih (keeps s l w es start taken)).mp (later w es taken)
    · intro later w es taken
      exact (ih (keeps s l w es start taken)).mpr (later w es taken)

theorem invariant_at (Inv : S → List E → Prop)
    (keeps : ∀ s es l w first, Inv s es → Ok s l → step s l = some (w, first) →
      Inv w (es ++ first))
    {ls before after : List L} {l : L} {s x : S} {es : List E} (start : Inv s [])
    (along : Along step Ok s ls) (split : ls = before ++ l :: after)
    (run : exec step s before = some (x, es)) : Inv x es ∧ Ok x l := by
  rw [split] at along
  exact ⟨exec_invariant Inv keeps before start along.of_append run,
    (along_iff _ s).mp along before l after x es rfl run⟩

/-- Two systems that take related states to related states, with the same events. -/
theorem exec_lockstep {C : Type} {other : C → L → Option (C × List E)} (Rel : S → C → Prop)
    (both : ∀ s c l, Rel s c → Ok s l →
      ∃ w d es, step s l = some (w, es) ∧ other c l = some (d, es) ∧ Rel w d)
    (ls : List L) {s : S} {c : C} (start : Rel s c) (along : Along step Ok s ls) :
    ∃ x y es, exec step s ls = some (x, es) ∧ exec other c ls = some (y, es) ∧ Rel x y := by
  induction ls generalizing s c with
  | nil => exact ⟨s, c, [], rfl, rfl, start⟩
  | cons l ls ih =>
    obtain ⟨w, d, first, taken, also, next⟩ := both s c l start along.1
    obtain ⟨x, y, later, rest, rest', rel⟩ := ih next (along.2 w first taken)
    refine ⟨x, y, first ++ later, ?_, ?_, rel⟩
    · simp only [exec, taken, rest]
    · simp only [exec, also, rest']

/-- A property of states that each step keeps exactly when the step meets the
    condition: it holds all along a run exactly when the condition does. -/
theorem good_iff_along {Inv Good : S → Prop} {May : S → L → Prop}
    (keeps : ∀ s l w es, Inv s → Good s → May s l → step s l = some (w, es) →
      Inv w ∧ (Good w ↔ Ok s l))
    (ls : List L) {s x : S} {es : List E} (inv : Inv s) (good : Good s)
    (may : Along step May s ls) (run : exec step s ls = some (x, es)) :
    (∀ before after w past, ls = before ++ after → exec step s before = some (w, past) → Good w) ↔
      Along step Ok s ls := by
  induction ls generalizing s es with
  | nil =>
    constructor
    · intro _
      trivial
    · intro _ before after w past split reached
      have none : before = [] := (List.append_eq_nil_iff.mp split.symm).1
      subst none
      cases reached
      exact good
  | cons l ls ih =>
    obtain ⟨w, first, later, taken, rest, _⟩ := exec_cons run
    obtain ⟨kept, goes⟩ := keeps s l w first inv good may.1 taken
    have next := fun after : Good w => ih kept after (may.2 w first taken) rest
    constructor
    · intro each
      have after : Good w := each [l] ls w (first ++ []) rfl (by simp [exec, taken])
      apply Along.cons (goes.mp after) taken
      rw [← next after]
      intro before more y past split reached
      apply each (l :: before) more y (first ++ past) (by rw [split]; rfl)
      simp [exec, taken, reached]
    · intro along before more y past split reached
      cases before with
      | nil =>
        cases reached
        exact good
      | cons b before =>
        simp only [List.cons_append, List.cons.injEq] at split
        rw [← split.1] at reached
        obtain ⟨v, _, _, also, onward, _⟩ := exec_cons reached
        rw [taken] at also
        cases also
        exact (next (goes.mpr along.1)).mpr (along.2 w first taken) before more y _ split.2 onward

end Lts
