import Mathlib.Data.List.DropRight

/-!
Taking a sequence apart field by field. Each request skips what the separators of
that request take, and takes what stands in front of the next one; it may have other
separators than the one before. With the same ones throughout, the fields are the
parts between separators that are not empty.
-/
namespace Fields

variable {α : Type}

def next (stops : α → Bool) (left : List α) : Option (List α) × List α :=
  let rest := left.dropWhile stops
  if rest = [] then (none, [])
  else (some (rest.takeWhile fun c => !stops c), (rest.dropWhile fun c => !stops c).drop 1)

def fields : List (α → Bool) → List α → List (Option (List α))
  | [], _ => []
  | stops :: more, left => (next stops left).1 :: fields more (next stops left).2

def remaining : List (α → Bool) → List α → List α
  | [], left => left
  | stops :: more, left => remaining more (next stops left).2

theorem fields_snoc (before : List (α → Bool)) (stops : α → Bool) (left : List α) :
    fields (before ++ [stops]) left = fields before left ++ [(next stops (remaining before left)).1] := by
  induction before generalizing left with
  | nil => rfl
  | cons first before ih => simp only [List.cons_append, fields, remaining, ih]

theorem remaining_snoc (before : List (α → Bool)) (stops : α → Bool) (left : List α) :
    remaining (before ++ [stops]) left = (next stops (remaining before left)).2 := by
  induction before generalizing left with
  | nil => rfl
  | cons first before ih => simp only [List.cons_append, remaining, ih]

theorem next_cases (stops : α → Bool) (left : List α) :
    ((∀ c ∈ left, stops c = true) ∧ next stops left = (none, [])) ∨
    ∃ blanks word tail, left = blanks ++ (word ++ tail) ∧ (∀ c ∈ blanks, stops c = true) ∧ word ≠ [] ∧
      (∀ c ∈ word, stops c = false) ∧ (∀ c ∈ tail.head?, stops c = true) ∧
      next stops left = (some word, tail.drop 1) := by
  by_cases none_ : left.dropWhile stops = []
  · refine Or.inl ⟨List.dropWhile_eq_nil_iff.mp none_, ?_⟩
    rw [next]
    exact if_pos none_
  · refine Or.inr ⟨left.takeWhile stops, (left.dropWhile stops).takeWhile (fun c => !stops c),
      (left.dropWhile stops).dropWhile (fun c => !stops c), ?_, ?_, ?_, ?_, ?_, if_neg none_⟩
    · rw [List.takeWhile_append_dropWhile, List.takeWhile_append_dropWhile]
    · intro c member
      exact List.mem_takeWhile_imp member
    · obtain ⟨c, rest, split_⟩ := List.exists_cons_of_ne_nil none_
      have first : stops c = false := by
        have head := List.head_dropWhile_not stops none_
        simpa only [split_, List.head_cons] using head
      rw [split_, List.takeWhile_cons_of_pos (by simp [first])]
      exact List.cons_ne_nil _ _
    · intro c member
      simpa using List.mem_takeWhile_imp member
    · intro c head
      have stop := List.head?_dropWhile_not (fun c => !stops c) (left.dropWhile stops)
      rw [Option.mem_def.mp head] at stop
      simpa using stop

theorem next_length (stops : α → Bool) (left : List α) : (next stops left).2.length ≤ left.length := by
  rcases next_cases stops left with ⟨_, result⟩ | ⟨blanks, word, tail, rfl, _, _, _, _, result⟩
  · rw [result]
    exact Nat.zero_le _
  · rw [result, List.length_drop, List.length_append, List.length_append]
    omega

theorem remaining_length (requests : List (α → Bool)) (left : List α) :
    (remaining requests left).length ≤ left.length := by
  induction requests generalizing left with
  | nil => exact Nat.le_refl _
  | cons stops requests ih => exact Nat.le_trans (ih _) (next_length stops left)

def parts (stops : α → Bool) (text : List α) : List (List α) :=
  (text.splitOnP stops).filter fun part => !part.isEmpty

theorem parts_blanks {stops : α → Bool} {blanks : List α} (blank : ∀ c ∈ blanks, stops c = true)
    (rest : List α) : parts stops (blanks ++ rest) = parts stops rest := by
  induction blanks with
  | nil => rfl
  | cons c blanks ih =>
    have here := blank c List.mem_cons_self
    have later := ih fun d member => blank d (List.mem_cons_of_mem c member)
    unfold parts at later ⊢
    rw [List.cons_append, List.splitOnP_cons_eq_if_modifyHead, if_pos here, List.filter_cons_of_neg (by simp), later]

theorem parts_word {stops : α → Bool} {word tail : List α} (nonempty : word ≠ [])
    (plain : ∀ c ∈ word, stops c = false) (stop : ∀ c ∈ tail.head?, stops c = true) :
    parts stops (word ++ tail) = word :: parts stops (tail.drop 1) := by
  have kept : ∀ more, (word :: more).filter (fun part => !part.isEmpty) =
      word :: more.filter fun part => !part.isEmpty :=
    fun more => List.filter_cons_of_pos (by simpa using nonempty)
  unfold parts
  cases tail with
  | nil =>
    rw [List.append_nil, List.splitOnP_eq_singleton plain, kept]
    simp
  | cons c rest =>
    rw [List.splitOnP_append_cons_of_forall_mem plain c (stop c rfl), kept]
    rfl

theorem next_parts (stops : α → Bool) (left : List α) :
    (parts stops left = [] ∧ next stops left = (none, [])) ∨
    ∃ word, parts stops left = word :: parts stops (next stops left).2 ∧ (next stops left).1 = some word := by
  rcases next_cases stops left with ⟨all, result⟩ | ⟨blanks, word, tail, rfl, blank, nonempty, plain, stop, result⟩
  · refine Or.inl ⟨?_, result⟩
    have none_ := parts_blanks all []
    rw [List.append_nil] at none_
    rw [none_]
    simp [parts]
  · refine Or.inr ⟨word, ?_, by rw [result]⟩
    rw [parts_blanks blank, parts_word nonempty plain stop, result]

theorem fields_same (stops : α → Bool) (n : Nat) (text : List α) :
    fields (List.replicate n stops) text = ((parts stops text).map some ++ List.replicate n none).take n := by
  induction n generalizing text with
  | zero => rfl
  | succ n ih =>
    rw [List.replicate_succ, fields, ih]
    rcases next_parts stops text with ⟨none_, result⟩ | ⟨word, some_, result⟩
    · have empty : parts stops ([] : List α) = [] := by simp [parts]
      rw [none_, result, empty]
      simp [List.replicate_succ]
    · rw [some_, result]
      have enough : n ≤ ((parts stops (next stops text).2).map some ++ List.replicate n none).length := by
        rw [List.length_append, List.length_replicate]
        exact Nat.le_add_left ..
      rw [List.map_cons, List.cons_append, List.take_succ_cons, List.replicate_succ', ← List.append_assoc,
        List.take_append_of_le_length enough]

end Fields
