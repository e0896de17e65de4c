import Mathlib.Logic.Function.Basic
import L4ertl.Lib.Lts
import L4ertl.Lib.StreamReads

/-!
Files behind descriptors. A table of a given size says what each descriptor is
open on and how far that has been read. A name is opened through the lowest free
descriptor, and a read takes what is left of the contents, up to its count. From
its open to its close a descriptor yields the contents of one file from the start,
whatever is done with the others.
-/
namespace Descriptors
open StreamReads

abbrev Table (O : Type) := Nat → Option (O × Nat)

inductive Call (N : Type) where
  | open_ (name : N)
  | close (fd : Int)
  | read (fd : Int) (count : Nat)
  deriving DecidableEq

structure Answer (N α : Type) where
  call : Call N
  data : List α
  ret : Int
  deriving DecidableEq

structure Files (N O α : Type) where
  find : N → Option O
  contents : O → List α

variable {N O α : Type}

def lowest (size : Nat) (d : Table O) : Option Nat := (List.range size).find? fun fd => (d fd).isNone

def held (size : Nat) (d : Table O) (fd : Int) : Option (O × Nat) :=
  if 0 ≤ fd ∧ fd < size then d fd.toNat else none

def step (size : Nat) (files : Files N O α) (d : Table O) : Call N → Option (Table O × List (Answer N α))
  | .open_ name =>
    match files.find name, lowest size d with
    | some o, some fd => some (Function.update d fd (some (o, 0)), [⟨.open_ name, [], fd⟩])
    | _, _ => some (d, [⟨.open_ name, [], -1⟩])
  | .close fd =>
    if (held size d fd).isSome then some (Function.update d fd.toNat none, [⟨.close fd, [], 0⟩])
    else some (d, [⟨.close fd, [], -1⟩])
  | .read fd count =>
    match held size d fd with
    | none => some (d, [⟨.read fd count, [], -1⟩])
    | some (o, p) =>
      let data := ((files.contents o).drop p).take count
      some (Function.update d fd.toNat (some (o, p + data.length)), [⟨.read fd count, data, data.length⟩])

def readsOf (fd : Int) (es : List (Answer N α)) : List (List α × Nat) :=
  es.filterMap fun e =>
    match e.call with
    | .read k count => if k = fd then some (e.data, count) else none
    | _ => none

theorem readsOf_append (fd : Int) (es fs : List (Answer N α)) :
    readsOf fd (es ++ fs) = readsOf fd es ++ readsOf fd fs := List.filterMap_append

theorem readsOf_own (fd : Int) (count : Nat) (data : List α) (ret : Int) :
    readsOf (N := N) fd [⟨.read fd count, data, ret⟩] = [(data, count)] := by
  simp [readsOf]

theorem readsOf_other {fd k : Int} (other : k ≠ fd) (count : Nat) (data : List α) (ret : Int) :
    readsOf (N := N) fd [⟨.read k count, data, ret⟩] = [] := by
  simp [readsOf, other]

variable {size : Nat} {files : Files N O α} {d : Table O}

theorem lowest_some {fd : Nat} (low : lowest size d = some fd) :
    fd < size ∧ d fd = none ∧ ∀ k < fd, d k ≠ none := by
  obtain ⟨free, inside, before⟩ := List.find?_range_eq_some.mp low
  refine ⟨List.mem_range.mp inside, Option.isNone_iff_eq_none.mp free, fun k less taken => ?_⟩
  have busy := before k less
  rw [taken] at busy
  cases busy

theorem held_iff {fd : Int} {o : O} {p : Nat} :
    held size d fd = some (o, p) ↔ (0 ≤ fd ∧ fd < size) ∧ d fd.toNat = some (o, p) := by
  unfold held
  by_cases inside : 0 ≤ fd ∧ fd < size
  · rw [if_pos inside]
    exact ⟨fun here => ⟨inside, here⟩, fun both => both.2⟩
  · rw [if_neg inside]
    exact ⟨fun none_ => (by cases none_), fun both => absurd both.1 inside⟩

theorem held_update {fd k : Int} (nonneg : 0 ≤ fd) (other : k ≠ fd) (v : Option (O × Nat)) :
    held size (Function.update d fd.toNat v) k = held size d k := by
  unfold held
  by_cases inside : 0 ≤ k ∧ k < size
  · rw [if_pos inside, if_pos inside]
    have apart : k.toNat ≠ fd.toNat := by omega
    exact Function.update_of_ne apart ..
  · rw [if_neg inside, if_neg inside]

theorem held_self {fd : Int} (inside : 0 ≤ fd ∧ fd < size) (v : Option (O × Nat)) :
    held size (Function.update d fd.toNat v) fd = v := by
  rw [held, if_pos inside, Function.update_self]

theorem step_session {w : Table O} {c : Call N} {es : List (Answer N α)} {fd : Int} {o : O} {p : Nat}
    (here : held size d fd = some (o, p)) (kept : c ≠ .close fd) (taken : step size files d c = some (w, es)) :
    ∃ q, held size w fd = some (o, q) ∧
      (readsOf fd es).map Prod.fst = pieces ((files.contents o).drop p) ((readsOf fd es).map Prod.snd) ∧
      (files.contents o).drop q = ((files.contents o).drop p).drop ((readsOf fd es).map Prod.snd).sum := by
  have inside := (held_iff.mp here).1
  cases c with
  | open_ name =>
    have same : es = [⟨.open_ name, [], -1⟩] ∧ w = d ∨ ∃ o' low, lowest size d = some low ∧
        es = [⟨.open_ name, [], (low : Int)⟩] ∧ w = Function.update d low (some (o', 0)) := by
      simp only [step] at taken
      split at taken
      · rename_i o' low _ lowest_
        cases taken
        exact Or.inr ⟨o', low, lowest_, rfl, rfl⟩
      · cases taken
        exact Or.inl ⟨rfl, rfl⟩
    rcases same with ⟨rfl, rfl⟩ | ⟨o', low, lowest_, rfl, rfl⟩
    · exact ⟨p, here, rfl, rfl⟩
    · refine ⟨p, ?_, rfl, rfl⟩
      have other : fd ≠ low := by
        rintro rfl
        have free := (lowest_some lowest_).2.1
        rw [held_iff, Int.toNat_natCast, free] at here
        cases here.2
      have frame : held size (Function.update d low (some (o', 0))) fd = held size d fd := by
        refine Eq.trans ?_ (held_update (Int.natCast_nonneg low) other (some (o', 0)))
        rw [Int.toNat_natCast]
      rw [frame]
      exact here
  | close k =>
    have other : fd ≠ k := fun same => kept (by rw [same])
    simp only [step] at taken
    split at taken
    · rename_i open_
      cases taken
      obtain ⟨⟨o', p'⟩, there⟩ := Option.isSome_iff_exists.mp open_
      refine ⟨p, ?_, rfl, rfl⟩
      rw [held_update (held_iff.mp there).1.1 other]
      exact here
    · cases taken
      exact ⟨p, here, rfl, rfl⟩
  | read k count =>
    by_cases own : k = fd
    · subst own
      simp only [step, here] at taken
      cases taken
      refine ⟨_, held_self inside _, ?_, ?_⟩
      · rw [readsOf_own]
        rfl
      · rw [readsOf_own, drop_returned]
        simp
    · simp only [step] at taken
      split at taken
      · cases taken
        refine ⟨p, here, ?_, ?_⟩ <;> rw [readsOf_other own] <;> rfl
      · rename_i o' p' there
        cases taken
        refine ⟨p, ?_, ?_, ?_⟩
        · rw [held_update (held_iff.mp there).1.1 (Ne.symm own)]
          exact here
        · rw [readsOf_other own]
          rfl
        · rw [readsOf_other own]
          rfl

theorem pieces_add (left : List α) (ns ms : List Nat) :
    pieces left (ns ++ ms) = pieces left ns ++ pieces (left.drop ns.sum) ms := by
  induction ns generalizing left with
  | nil => simp [pieces]
  | cons n ns ih => simp only [List.cons_append, pieces, ih, List.sum_cons, List.drop_drop]

theorem run_session {w : Table O} {calls : List (Call N)} {es : List (Answer N α)} {fd : Int} {o : O} {p : Nat}
    (here : held size d fd = some (o, p)) (kept : Call.close fd ∉ calls)
    (run : Lts.exec (step size files) d calls = some (w, es)) :
    (readsOf fd es).map Prod.fst = pieces ((files.contents o).drop p) ((readsOf fd es).map Prod.snd) := by
  induction calls generalizing d p es with
  | nil =>
    cases run
    rfl
  | cons c calls ih =>
    obtain ⟨v, first, later, taken, rest, rfl⟩ := Lts.exec_cons run
    have first_ : c ≠ .close fd := fun same => kept (by rw [same]; exact List.mem_cons_self)
    obtain ⟨q, there, data, left⟩ := step_session here first_ taken
    have more := ih there (fun later => kept (List.mem_cons_of_mem c later)) rest
    rw [readsOf_append, List.map_append, List.map_append, pieces_add, data, more, left]

theorem step_call {w : Table O} {c : Call N} {es : List (Answer N α)}
    (taken : step size files d c = some (w, es)) : es.map Answer.call = [c] := by
  cases c with
  | open_ name =>
    simp only [step] at taken
    split at taken <;> cases taken <;> rfl
  | close fd =>
    simp only [step] at taken
    split at taken <;> cases taken <;> rfl
  | read fd count =>
    simp only [step] at taken
    split at taken <;> cases taken <;> rfl

theorem run_calls {w : Table O} {calls : List (Call N)} {es : List (Answer N α)}
    (run : Lts.exec (step size files) d calls = some (w, es)) : es.map Answer.call = calls := by
  induction calls generalizing d es with
  | nil =>
    cases run
    rfl
  | cons c calls ih =>
    obtain ⟨v, first, later, taken, rest, rfl⟩ := Lts.exec_cons run
    rw [List.map_append, step_call taken, ih rest]
    rfl

theorem run_open {w : Table O} {before during : List (Call N)} {name : N} {es : List (Answer N α)}
    (run : Lts.exec (step size files) d (before ++ .open_ name :: during) = some (w, es)) :
    ∃ first fd later, es = first ++ ⟨.open_ name, [], fd⟩ :: later ∧ first.map Answer.call = before ∧
      later.map Answer.call = during ∧
      (0 ≤ fd → Call.close fd ∉ during → ∃ o, files.find name = some o ∧
        (readsOf fd later).map Prod.fst = pieces (files.contents o) ((readsOf fd later).map Prod.snd)) := by
  induction before generalizing d es with
  | nil =>
    obtain ⟨v, one, later, taken, rest, rfl⟩ := Lts.exec_cons run
    have answered := run_calls rest
    simp only [step] at taken
    split at taken
    · rename_i o fd found low
      cases taken
      refine ⟨[], fd, later, rfl, rfl, answered, fun _ kept => ⟨o, found, ?_⟩⟩
      have inside : 0 ≤ (fd : Int) ∧ (fd : Int) < size := by
        have below := (lowest_some low).1
        omega
      have here := held_self (d := d) inside (some (o, 0))
      rw [Int.toNat_natCast] at here
      exact run_session here kept rest
    · cases taken
      exact ⟨[], -1, later, rfl, rfl, answered, fun opened => absurd opened (by decide)⟩
  | cons c before ih =>
    obtain ⟨v, one, later, taken, rest, rfl⟩ := Lts.exec_cons run
    obtain ⟨first, fd, more, rfl, calls, answered, session⟩ := ih rest
    refine ⟨one ++ first, fd, more, ?_, ?_, answered, session⟩
    · rw [List.append_assoc]
    · rw [List.map_append, step_call taken, calls]
      rfl

end Descriptors
