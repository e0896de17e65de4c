import L4ertl.Libc.Printf

/-!
vsnprintf and vsprintf (vsprintf.c): __v_printf with swrite behind its pieces. What is
written to str is kept as a list of stores, each with its index from str on.
-/
namespace L4ertl

abbrev Memory := Nat → Byte

def copyStores : Nat → List Byte → List (Nat × Byte)
  | _, [] => []
  | i, b :: bs => (i, b) :: copyStores (i + 1) bs

def afterStores : List (Nat × Byte) → Memory → Memory
  | [], mem => mem
  | (i, b) :: rest, mem => afterStores rest fun j => if j = i then b else mem j

/-- The struct str_cdata; `str` says that it is not NULL. -/
structure StrCdata where
  str : Bool
  len : Word
  size : Word
  stores : List (Nat × Byte)

def swrite (sd : StrCdata) (ptr : List Byte) : StrCdata :=
  let tmp := sd.size - sd.len
  if 0 < tmp then
    let nmemb := BitVec.ofNat 32 ptr.length
    let len := if tmp < nmemb then tmp else nmemb
    let stores := copyStores sd.len.toNat (ptr.take len.toNat) ++ [((sd.len + len).toNat, nul)]
    { sd with stores := if sd.str then sd.stores ++ stores else sd.stores, len := sd.len + len }
  else sd

/-- vsnprintf behind __v_printf, for the pieces that it puts and the value that it returns. -/
def vsnprintfOf (str : Bool) (size : Word) (printed : List (List Byte) × Int) : Int × List (Nat × Byte) :=
  let (pieces, n) := printed
  let sd := pieces.foldl swrite ⟨str, 0, if size ≠ 0 then size - 1 else 0, []⟩
  let last :=
    if str ∧ size ≠ 0 ∧ 0 ≤ n then
      if size ≠ -1 ∧ size ≤ BitVec.ofInt 32 n then [((size - 1).toNat, nul)] else [(n.toNat, nul)]
    else []
  (n, sd.stores ++ last)

def vsnprintf (str : Bool) (size : Word) (format : CString) (args : List VaArg) : Option (Int × List (Nat × Byte)) :=
  (vPrintf format args).map (vsnprintfOf str size)

def vsprintf (dest : Bool) (format : CString) (args : List VaArg) : Option (Int × List (Nat × Byte)) :=
  vsnprintf dest (-1) format args

section
variable {a b : List (Nat × Byte)} {mem : Memory}

theorem afterStores_append (a b : List (Nat × Byte)) (mem : Memory) :
    afterStores (a ++ b) mem = afterStores b (afterStores a mem) := by
  induction a generalizing mem with
  | nil => rfl
  | cons w rest ih => exact ih _

theorem afterStores_frame {j : Nat} (untouched : ∀ w ∈ a, w.1 ≠ j) : afterStores a mem j = mem j := by
  induction a generalizing mem with
  | nil => rfl
  | cons w rest ih =>
    obtain ⟨other, others⟩ := List.forall_mem_cons.mp untouched
    rw [afterStores, ih others, if_neg fun same => other same.symm]

theorem afterStores_other {i j : Nat} {v : Byte} (other : j ≠ i) : afterStores [(i, v)] mem j = mem j := by
  apply afterStores_frame
  intro w last same
  rw [List.mem_singleton.mp last] at same
  exact other same.symm

theorem copyStores_index {i : Nat} {bs : List Byte} {w : Nat × Byte} (mem : w ∈ copyStores i bs) :
    i ≤ w.1 ∧ w.1 < i + bs.length := by
  induction bs generalizing i with
  | nil => cases mem
  | cons b bs ih =>
    rcases List.mem_cons.mp mem with rfl | mem
    · exact ⟨Nat.le_refl i, by simp⟩
    · have := ih mem
      simp only [List.length_cons]
      omega

theorem afterStores_copy {i : Nat} {bs : List Byte} {k : Nat} (inside : k < bs.length) :
    afterStores (copyStores i bs) mem (i + k) = bs[k] := by
  induction bs generalizing i k mem with
  | nil => cases inside
  | cons b bs ih =>
    cases k with
    | zero =>
      have later : ∀ w ∈ copyStores (i + 1) bs, w.1 ≠ i := fun w mem same => by
        have := copyStores_index mem
        omega
      rw [copyStores, afterStores, afterStores_frame (j := i + 0) later]
      exact if_pos rfl
    | succ k =>
      have shifted : i + (k + 1) = i + 1 + k := by omega
      rw [copyStores, afterStores, shifted, ih (Nat.lt_of_succ_lt_succ inside)]
      rfl

theorem piece_inside {n : Nat} {part : List Byte} {w : Nat × Byte}
    (mem : w ∈ copyStores n part ++ [(n + part.length, nul)]) : w.1 ≤ n + part.length := by
  rcases List.mem_append.mp mem with copied | last
  · exact Nat.le_of_lt (copyStores_index copied).2
  · rw [List.mem_singleton.mp last]

theorem afterStores_piece {n i : Nat} {part : List Byte} (below : i < n + part.length) :
    afterStores (a ++ (copyStores n part ++ [(n + part.length, nul)])) mem i =
      if i < n then afterStores a mem i else part.getD (i - n) nul := by
  rw [afterStores_append, afterStores_append, afterStores_other (Nat.ne_of_lt below)]
  split
  · next old => exact afterStores_frame fun w copied same => by have := copyStores_index copied; omega
  · next new =>
    obtain ⟨k, rfl⟩ := Nat.exists_eq_add_of_le (Nat.not_lt.mp new)
    have inside : k < part.length := by omega
    rw [afterStores_copy inside, Nat.add_sub_cancel_left, List.getD_eq_getElem _ _ inside]

end

structure Wrote (str : Bool) (size : Word) (before : Memory) (done : List Byte) (sd : StrCdata) : Prop where
  str_eq : sd.str = str
  size_eq : sd.size = size
  len_eq : sd.len.toNat = min done.length size.toNat
  nothing : str = false ∨ size = 0 → sd.stores = []
  inside : ∀ w ∈ sd.stores, w.1 ≤ sd.len.toNat
  bytes : str = true → ∀ i, i < sd.len.toNat → afterStores sd.stores before i = done.getD i nul

section
variable {str : Bool} {size : Word} {before : Memory} {done piece : List Byte} {sd : StrCdata}

theorem swrite_wrote (wrote : Wrote str size before done sd) (small : (done ++ piece).length < 2 ^ 32) :
    Wrote str size before (done ++ piece) (swrite sd piece) := by
  have room : (sd.size - sd.len).toNat = size.toNat - sd.len.toNat := by
    have := wrote.len_eq
    rw [BitVec.toNat_sub, wrote.size_eq]
    omega
  rw [List.length_append] at small
  unfold swrite
  extract_lets tmp nmemb len stores
  have tmp_eq : tmp.toNat = size.toNat - sd.len.toNat := room
  have nmemb_eq : nmemb.toNat = piece.length := by
    simp only [nmemb, BitVec.toNat_ofNat]
    omega
  split
  · next some =>
    have before_end : sd.len.toNat = done.length := by
      have := wrote.len_eq
      simp only [BitVec.lt_def, tmp_eq] at some
      omega
    have len_eq : len.toNat = min (size.toNat - sd.len.toNat) piece.length := by
      simp only [len, BitVec.lt_def]
      split <;> omega
    have next_eq : (sd.len + len).toNat = min (done ++ piece).length size.toNat := by
      have := wrote.len_eq
      rw [BitVec.toNat_add, List.length_append]
      omega
    have taken : (piece.take len.toNat).length = len.toNat := by
      rw [List.length_take]
      omega
    have sum_eq : (sd.len + len).toNat = sd.len.toNat + (piece.take len.toNat).length := by
      rw [BitVec.toNat_add, taken]
      omega
    have stores_eq : stores = copyStores sd.len.toNat (piece.take len.toNat) ++
        [(sd.len.toNat + (piece.take len.toNat).length, nul)] := by
      rw [← sum_eq]
    refine ⟨wrote.str_eq, wrote.size_eq, next_eq, fun null => ?_, fun w mem => ?_, fun given i below => ?_⟩
    · rcases null with null | full
      · simp only [wrote.str_eq, null, Bool.false_eq_true, if_false]
        exact wrote.nothing (.inl null)
      · simp [BitVec.lt_def, tmp_eq, full] at some
    · change w.1 ≤ (sd.len + len).toNat
      have old (mem : w ∈ sd.stores) : w.1 ≤ (sd.len + len).toNat := by
        have := wrote.inside w mem
        omega
      dsimp only at mem
      split at mem
      · rcases List.mem_append.mp mem with mem | mem
        · exact old mem
        · exact sum_eq ▸ piece_inside (stores_eq ▸ mem)
      · exact old mem
    · change i < (sd.len + len).toNat at below
      rw [sum_eq] at below
      simp only [wrote.str_eq, given, if_true]
      rw [stores_eq, afterStores_piece below]
      split
      · next old => rw [wrote.bytes given i old, List.getD_append _ _ _ _ (by omega)]
      · next new =>
        rw [List.getD_append_right _ _ _ _ (by omega), before_end, List.getD_eq_getElem _ _ (by omega),
          List.getD_eq_getElem _ _ (by omega), List.getElem_take]
  · next none =>
    have full : size.toNat ≤ sd.len.toNat := by
      simp only [BitVec.lt_def, tmp_eq] at none
      have : ¬0 < size.toNat - sd.len.toNat := none
      omega
    have len_eq := wrote.len_eq
    refine ⟨wrote.str_eq, wrote.size_eq, ?_, wrote.nothing, wrote.inside, fun given i below => ?_⟩
    · rw [List.length_append]
      omega
    · rw [wrote.bytes given i below, List.getD_append _ _ _ _ (by omega)]

theorem swrite_run (pieces : List (List Byte)) (wrote : Wrote str size before done sd)
    (small : (done ++ pieces.flatten).length < 2 ^ 32) :
    Wrote str size before (done ++ pieces.flatten) (pieces.foldl swrite sd) := by
  induction pieces generalizing done sd with
  | nil => simpa using wrote
  | cons piece pieces ih =>
    rw [List.flatten_cons, ← List.append_assoc] at small ⊢
    rw [List.foldl_cons]
    refine ih (swrite_wrote wrote ?_) small
    rw [List.length_append] at small
    omega

end

structure Bounded (size : Nat) (text : List Byte) (before : Memory) (stores : List (Nat × Byte)) : Prop where
  inside : ∀ w ∈ stores, w.1 < size
  bytes : ∀ i, i < min text.length (size - 1) → afterStores stores before i = text.getD i nul
  terminated : afterStores stores before (min text.length (size - 1)) = nul

theorem size_pred {size : Word} (some : size ≠ 0) : (size - 1).toNat = size.toNat - 1 := by
  have positive : 0 < size.toNat := Nat.pos_of_ne_zero fun zero => some (BitVec.eq_of_toNat_eq zero)
  rw [BitVec.toNat_sub]
  simp
  omega

section
variable {pieces : List (List Byte)} (small : pieces.flatten.length < 2 ^ 31) (size : Word)
include small

theorem vsnprintfOf_eq (str : Bool) :
    vsnprintfOf str size (pieces, pieces.flatten.length) =
      ((pieces.flatten.length : Int),
        (pieces.foldl swrite ⟨str, 0, if size ≠ 0 then size - 1 else 0, []⟩).stores ++
          if str ∧ size ≠ 0 then [(min pieces.flatten.length (size.toNat - 1), nul)] else []) := by
  have value : (BitVec.ofInt 32 (pieces.flatten.length : Int)).toNat = pieces.flatten.length := by
    rw [BitVec.ofInt_natCast, BitVec.toNat_ofNat, Nat.mod_eq_of_lt (by omega)]
  by_cases last : str ∧ size ≠ 0
  · have positive : 0 < size.toNat := Nat.pos_of_ne_zero fun zero => last.2 (BitVec.eq_of_toNat_eq zero)
    have unlimited : size = -1 ↔ size.toNat = 2 ^ 32 - 1 := by
      rw [← BitVec.toNat_inj]
      rfl
    simp only [vsnprintfOf, last.1, last.2, ne_eq, not_false_eq_true, Int.natCast_nonneg, if_true, BitVec.le_def, value,
      size_pred last.2, unlimited, Int.toNat_natCast, and_true]
    split
    · rw [Nat.min_eq_right (by omega)]
    · rw [Nat.min_eq_left (by omega)]
  · have none : ¬(str ∧ size ≠ 0 ∧ 0 ≤ (pieces.flatten.length : Int)) := fun all => last ⟨all.1, all.2.1⟩
    rw [vsnprintfOf, if_neg last, if_neg none]

theorem vsnprintfOf_wrote (str : Bool) (before : Memory) :
    Wrote str (if size ≠ 0 then size - 1 else 0) before pieces.flatten
      (pieces.foldl swrite ⟨str, 0, if size ≠ 0 then size - 1 else 0, []⟩) := by
  have start : Wrote str (if size ≠ 0 then size - 1 else 0) before []
      ⟨str, 0, if size ≠ 0 then size - 1 else 0, []⟩ :=
    ⟨rfl, rfl, by simp, fun _ => rfl, by simp, fun _ i below => absurd below (by simp)⟩
  exact swrite_run pieces start (Nat.lt_trans small (by decide))

theorem vsnprintfOf_nothing {str : Bool} (none : size = 0 ∨ str = false) :
    (vsnprintfOf str size (pieces, pieces.flatten.length)).2 = [] := by
  have wrote := vsnprintfOf_wrote small size str fun _ => nul
  have noLast : ¬(str ∧ size ≠ 0) := by
    rcases none with zero | null
    · exact fun both => both.2 zero
    · simp [null]
  rw [vsnprintfOf_eq small, if_neg noLast, List.append_nil]
  refine wrote.nothing ?_
  rcases none with zero | null
  · exact .inr (by simp [zero])
  · exact .inl null

theorem vsnprintfOf_some (some : size ≠ 0) (before : Memory) :
    ∃ sd, Wrote true (size - 1) before pieces.flatten sd ∧
      (vsnprintfOf true size (pieces, pieces.flatten.length)).2 =
        sd.stores ++ [(min pieces.flatten.length (size.toNat - 1), nul)] := by
  have wrote := vsnprintfOf_wrote small size true before
  rw [if_pos some] at wrote
  refine ⟨_, wrote, ?_⟩
  rw [vsnprintfOf_eq small, if_pos some, if_pos (And.intro rfl some)]

theorem vsnprintfOf_inside (some : size ≠ 0) :
    ∀ w ∈ (vsnprintfOf true size (pieces, pieces.flatten.length)).2, w.1 ≤ min pieces.flatten.length (size.toNat - 1) := by
  obtain ⟨sd, wrote, stores⟩ := vsnprintfOf_some small size some fun _ => nul
  intro w mem
  rw [stores] at mem
  rcases List.mem_append.mp mem with mem | mem
  · have := wrote.inside w mem
    rwa [wrote.len_eq, size_pred some] at this
  · rw [List.mem_singleton.mp mem]

theorem vsnprintfOf_bounded (some : size ≠ 0) (before : Memory) :
    Bounded size.toNat pieces.flatten before (vsnprintfOf true size (pieces, pieces.flatten.length)).2 := by
  obtain ⟨sd, wrote, stores⟩ := vsnprintfOf_some small size some before
  have positive : 0 < size.toNat := Nat.pos_of_ne_zero fun zero => some (BitVec.eq_of_toNat_eq zero)
  refine ⟨fun w mem => ?_, fun i below => ?_, ?_⟩
  · have := vsnprintfOf_inside small size some w mem
    omega
  · rw [stores, afterStores_append, afterStores_other (by omega)]
    refine wrote.bytes rfl i ?_
    rw [wrote.len_eq, size_pred some]
    exact below
  · rw [stores, afterStores_append]
    exact if_pos rfl

end

theorem vsnprintf_bounded (format : CString) (args : List VaArg) (pieces : List (List Byte))
    (printed : vPrintf format args = some (pieces, (pieces.flatten.length : Int)))
    (small : pieces.flatten.length < 2 ^ 31) (before : Memory) :
    (∀ str size, ∃ stores, vsnprintf str size format args = some ((pieces.flatten.length : Int), stores) ∧
      (size = 0 ∨ str = false → stores = []) ∧
      (size ≠ 0 → str = true → Bounded size.toNat pieces.flatten before stores)) ∧
    ∃ stores, vsprintf true format args = some ((pieces.flatten.length : Int), stores) ∧
      (∀ w ∈ stores, w.1 ≤ pieces.flatten.length) ∧
      (∀ i, i < pieces.flatten.length → afterStores stores before i = pieces.flatten.getD i nul) ∧
      afterStores stores before pieces.flatten.length = nul := by
  refine ⟨fun str size => ⟨(vsnprintfOf str size (pieces, pieces.flatten.length)).2, ?_, ?_, ?_⟩,
    (vsnprintfOf true (-1) (pieces, pieces.flatten.length)).2, ?_, ?_, ?_⟩
  · rw [vsnprintf, printed]
    rfl
  · exact vsnprintfOf_nothing small size
  · rintro some rfl
    exact vsnprintfOf_bounded small size some before
  · rw [vsprintf, vsnprintf, printed]
    rfl
  · intro w mem
    exact Nat.le_trans (vsnprintfOf_inside small (-1) (by decide) w mem) (Nat.min_le_left _ _)
  · have all := vsnprintfOf_bounded small (-1) (by decide) before
    have whole : min pieces.flatten.length ((-1 : Word).toNat - 1) = pieces.flatten.length :=
      Nat.min_eq_left (Nat.le_trans (Nat.le_of_lt small) (by decide))
    exact ⟨fun i below => all.bytes i (by rw [whole]; exact below), (congrArg _ whole).symm.trans all.terminated⟩

def numberText : CString := ⟨bytes ['n', ' ', '%', 'd', '!'], by decide⟩

theorem numberText_pieces :
    vPrintf numberText [.word 42] = some ([bytes ['n', ' '], bytes ['4', '2'], bytes ['!']], 5) := by
  have parsed : innPrintf (bytes ['d', '!']) [.word 42] {} =
      .conv (byte 'd') {} (bytes ['!']) [.word 42] := innPrintf_step.trans rfl
  have converted : convert ⟨[bytes ['n', ' ']], 2⟩ (byte 'd') {} [.word 42] =
      some (⟨[bytes ['n', ' '], bytes ['4', '2']], 4⟩, []) := rfl
  have last : vPrintfLoop (bytes ['!']) [] ⟨[bytes ['n', ' '], bytes ['4', '2']], 4⟩ =
      some (⟨[bytes ['n', ' '], bytes ['4', '2'], bytes ['!']], 5⟩, 5) := (vPrintfLoop_step _ _ _).trans rfl
  have run : vPrintfLoop numberText.1 [.word 42] ⟨[], 0⟩ =
      vPrintfLoop (bytes ['!']) [] ⟨[bytes ['n', ' '], bytes ['4', '2']], 4⟩ := by
    have text : numberText.1.takeWhile (· ≠ byte '%') = bytes ['n', ' '] := rfl
    have rest : numberText.1.dropWhile (· ≠ byte '%') = byte '%' :: bytes ['d', '!'] := rfl
    have put : Out.put ⟨[], 0⟩ (bytes ['n', ' ']) = ⟨[bytes ['n', ' ']], 2⟩ := rfl
    have some_ : bytes ['n', ' '] ≠ [] := by decide
    rw [vPrintfLoop_step]
    simp only [text, rest, if_pos some_, put, parsed, converted, Option.bind_some]
  exact congrArg (Option.map _) (run.trans last)

/-- "n %d!" of 42, put in three pieces. -/
theorem vsnprintf_bounded_pieces :
    (∀ str size, ∃ stores, vsnprintf str size numberText [.word 42] = some (5, stores) ∧
      (size = 0 ∨ str = false → stores = []) ∧
      (size ≠ 0 → str = true → Bounded size.toNat (bytes ['n', ' ', '4', '2', '!']) (fun _ => nul) stores)) ∧
    ∃ stores, vsprintf true numberText [.word 42] = some (5, stores) ∧
      (∀ w ∈ stores, w.1 ≤ 5) ∧
      (∀ i, i < 5 → afterStores stores (fun _ => nul) i = (bytes ['n', ' ', '4', '2', '!']).getD i nul) ∧
      afterStores stores (fun _ => nul) 5 = nul :=
  vsnprintf_bounded numberText [.word 42] [bytes ['n', ' '], bytes ['4', '2'], bytes ['!']] numberText_pieces
    (by decide) fun _ => nul

end L4ertl
