import L4ertl.Libc.CString
import L4ertl.Core.Tlsf

/-!
Putting strings together (string.c): strcpy and strcat to the end of the source,
strncpy and strncat up to a number of bytes. The source may lie anywhere, so a copy
can run into what it has written.
-/
namespace L4ertl

/-- Also the loop of strcat. -/
def strcpy : Nat → Bytes.Memory → Nat → Nat → Option Bytes.Memory
  | 0, _, _, _ => none
  | rounds + 1, m, aux, src =>
    let c := Bytes.byteAt m src
    let m := Bytes.storeByte m aux c
    if c = nul then some m else strcpy rounds m (aux + 1) (src + 1)

def strcat (rounds : Nat) (m : Bytes.Memory) (s t : Nat) : Option Bytes.Memory := do
  strcpy rounds m (s + (← strlen rounds m s)) t

/-- The loop of strncat; max is a pointer of 32 bits. -/
def strncatLoop (max : Nat) : Nat → Bytes.Memory → Nat → Nat → Option Bytes.Memory
  | 0, _, _, _ => none
  | rounds + 1, m, s, t =>
    let c := Bytes.byteAt m t
    let m := Bytes.storeByte m s c
    if c = nul then some (Bytes.storeByte m s nul)
    else if (s + 1) % 2 ^ 32 = max then some (Bytes.storeByte m (s + 1) nul)
    else strncatLoop max rounds m (s + 1) (t + 1)

def strncat (rounds : Nat) (m : Bytes.Memory) (s t n : Nat) : Option Bytes.Memory := do
  let s := s + (← strlen rounds m s)
  let max := (s + n) % 2 ^ 32
  if max = s then return m else strncatLoop max rounds m s t

/-- The loop of strncpy in the C library of the applications, with `n` bytes to go from `j` on. -/
def strncpyLoop (dest src : Nat) : Nat → Nat → Bytes.Memory → Bytes.Memory × Nat
  | 0, j, m => (m, j)
  | n + 1, j, m =>
    if Bytes.byteAt m (src + j) = nul then (m, j)
    else strncpyLoop dest src n (j + 1) (Bytes.storeByte m (dest + j) (Bytes.byteAt m (src + j)))

/-- Addresses are of 32 bits, also that of dest [n - 1]. -/
def strncpy (m : Bytes.Memory) (dest src n : Nat) : Bytes.Memory :=
  let m := Bytes.fill dest 0 n m
  let (m, j) := strncpyLoop dest src n 0 m
  if n ≤ j then Bytes.storeByte m ((dest + 2 ^ 32 + n - 1) % 2 ^ 32) nul else m

structure Written (dst : Nat) (text : List Byte) (m w : Bytes.Memory) : Prop where
  holds : Bytes.Holds w dst text
  frame : ∀ x, x < dst ∨ dst + text.length < x → Bytes.byteAt w x = Bytes.byteAt m x

def RunsInto (dst src : Nat) (text : List Byte) : Prop := src < dst ∧ dst ≤ src + text.length

variable {m w : Bytes.Memory} {s t dst src rounds n : Nat} {text one two : List Byte}

theorem Written.stop : Written dst [] m (Bytes.storeByte m dst nul) := by
  refine ⟨?_, fun x outside => ?_⟩
  · show Bytes.byteAt _ dst = nul
    rw [Bytes.byteAt_storeByte, if_pos rfl]
  · rw [Bytes.byteAt_storeByte, if_neg (by rw [List.length_nil] at outside; omega)]

theorem Written.cons {c : Byte} (written : Written (dst + 1) text (Bytes.storeByte m dst c) w) (nonzero : c ≠ nul) :
    Written dst (c :: text) m w := by
  refine ⟨⟨nonzero, ?_, written.holds⟩, fun x outside => ?_⟩
  · rw [written.frame dst (Or.inl (Nat.lt_succ_self dst)), Bytes.byteAt_storeByte, if_pos rfl]
  · rw [List.length_cons] at outside
    rw [written.frame x (by omega), Bytes.byteAt_storeByte, if_neg (by omega)]

theorem strcpy_written (holds : Bytes.Holds m src text) (clear : ¬RunsInto dst src text)
    (enough : text.length < rounds) : ∃ w, strcpy rounds m dst src = some w ∧ Written dst text m w := by
  induction text generalizing m dst src rounds with
  | nil =>
    obtain ⟨rounds, rfl⟩ := Nat.exists_eq_add_one.mpr enough
    have last : Bytes.byteAt m src = nul := holds
    refine ⟨Bytes.storeByte m dst nul, ?_, Written.stop⟩
    simp only [strcpy, last, if_true]
  | cons c text ih =>
    obtain ⟨rounds, rfl⟩ := Nat.exists_eq_add_one.mpr (Nat.lt_of_le_of_lt (Nat.zero_le _) enough)
    rw [List.length_cons] at enough
    unfold RunsInto at clear ih
    rw [List.length_cons] at clear
    have apart : dst < src + 1 ∨ src + 1 + text.length < dst := by omega
    have still : ¬(src + 1 < dst + 1 ∧ dst + 1 ≤ src + 1 + text.length) := by omega
    obtain ⟨w, result, written⟩ := ih (holds.2.2.store_outside c apart) still (Nat.lt_of_succ_lt_succ enough)
    have goes : ¬c = nul := holds.1
    refine ⟨w, ?_, written.cons goes⟩
    simp only [strcpy, holds.2.1, if_neg goes, result]

theorem strcpy_endless (before : src < dst) (clean : ∀ x, src ≤ x → x < dst → Bytes.byteAt m x ≠ nul) (rounds : Nat) :
    strcpy rounds m dst src = none := by
  induction rounds generalizing m dst src with
  | zero => rfl
  | succ rounds ih =>
    have first := clean src (Nat.le_refl _) before
    simp only [strcpy, if_neg first]
    apply ih (Nat.succ_lt_succ before)
    intro x low high
    rw [Bytes.byteAt_storeByte]
    by_cases new : x = dst
    · rw [if_pos new]
      exact first
    · rw [if_neg new]
      exact clean x (by omega) (by omega)

theorem RunsInto.clean (into : RunsInto dst src text) (holds : Bytes.Holds m src text) (x : Nat) (low : src ≤ x)
    (high : x < dst) : Bytes.byteAt m x ≠ nul := by
  obtain ⟨i, rfl⟩ := Nat.exists_eq_add_of_le low
  have inside : i < text.length := by
    have bound := into.2
    omega
  obtain ⟨value, nonzero⟩ := holds.byte inside
  rw [value]
  exact nonzero

theorem Written.extend (written : Written (s + one.length) two m w) (holds : Bytes.Holds m s one) :
    Bytes.Holds w s (one ++ two) :=
  Bytes.holds_append (fun i inside => by
    rw [written.frame (s + i) (Or.inl (by omega))]
    exact holds.byte inside) written.holds

theorem strlenLoop_some (holds : Bytes.Holds m s one) {i l : Nat} (result : strlenLoop m rounds s i = some l) :
    l = i + one.length := by
  induction one generalizing rounds s i with
  | nil =>
    cases rounds with
    | zero => cases result
    | succ rounds =>
      have last : Bytes.byteAt m s = nul := holds
      rw [strlenLoop, if_pos last] at result
      exact (Option.some.inj result).symm
  | cons c one ih =>
    cases rounds with
    | zero => cases result
    | succ rounds =>
      have goes : ¬Bytes.byteAt m s = nul := by
        rw [holds.2.1]
        exact holds.1
      rw [strlenLoop, if_neg goes] at result
      rw [ih holds.2.2 result, List.length_cons, Nat.add_assoc, Nat.add_comm 1]

theorem strlen_some (holds : Bytes.Holds m s one) (somewhere : s ≠ 0) {l : Nat} (result : strlen rounds m s = some l) :
    l = one.length := by
  rw [strlen, if_neg somewhere] at result
  rw [strlenLoop_some holds result, Nat.zero_add]

/-- strcat puts the source behind the text and changes nothing else, unless the source ends
    at the text's own end or behind it: then it never comes to an end. -/
theorem strcat_ends (rounds : Nat) (m : Bytes.Memory) (s t : Nat) (one two : List Byte) (somewhere : s ≠ 0)
    (holds : Bytes.Holds m s one) (also : Bytes.Holds m t two) (enough : one.length < rounds)
    (enough' : two.length < rounds) :
    (¬RunsInto (s + one.length) t two → ∃ w, strcat rounds m s t = some w ∧ Bytes.Holds w s (one ++ two) ∧
        Written (s + one.length) two m w) ∧
      (RunsInto (s + one.length) t two → ∀ more, strcat more m s t = none) := by
  constructor
  · intro clear
    obtain ⟨w, result, written⟩ := strcpy_written also clear enough'
    refine ⟨w, ?_, written.extend holds, written⟩
    rw [strcat, strlen_holds holds somewhere enough, Option.bind_eq_bind, Option.bind_some, result]
  · intro into more
    cases length : strlen more m s with
    | none => rw [strcat, length, Option.bind_eq_bind, Option.bind_none]
    | some l =>
      rw [strlen_some holds somewhere length] at length
      rw [strcat, length, Option.bind_eq_bind, Option.bind_some]
      exact strcpy_endless into.1 (into.clean also) more

def nearTexts : Bytes.Memory := Bytes.memoryOf ([0, 0, 0, 0] ++ bytes ['a'] ++ [0, 0, 0] ++ bytes ['b'])

theorem strcat_ends_both :
    (∃ w, strcat 2 nearTexts 4 8 = some w ∧ Bytes.Holds w 4 (bytes ['a', 'b'])) ∧
      ∀ more, strcat more nearTexts 4 4 = none := by
  have first : Bytes.Holds nearTexts 4 (bytes ['a']) := by decide +kernel
  have second : Bytes.Holds nearTexts 8 (bytes ['b']) := by decide +kernel
  constructor
  · obtain ⟨w, result, both, _⟩ := (strcat_ends 2 nearTexts 4 8 _ _ (by decide) first second (by decide) (by decide)).1
      (by unfold RunsInto; decide)
    exact ⟨w, result, both⟩
  · exact (strcat_ends 2 nearTexts 4 4 _ _ (by decide) first first (by decide) (by decide)).2 (by unfold RunsInto; decide)

/-- Where the loop of strncat stops: at the bytes that are congruent to this one. -/
theorem max_iff {limit x : Nat} (before : s < x) (near : limit < s + 2 ^ 32) (inside : x ≤ limit) :
    x % 2 ^ 32 = limit % 2 ^ 32 ↔ x = limit := by
  omega

theorem strncatLoop_whole {limit : Nat} (holds : Bytes.Holds m t two) (clear : ¬RunsInto s t two)
    (near : limit < s + 2 ^ 32) (longer : s + two.length < limit) (enough : two.length < rounds) :
    ∃ w, strncatLoop (limit % 2 ^ 32) rounds m s t = some w ∧ Written s two m w := by
  induction two generalizing m s t rounds with
  | nil =>
    obtain ⟨rounds, rfl⟩ := Nat.exists_eq_add_one.mpr enough
    have last : Bytes.byteAt m t = nul := holds
    refine ⟨Bytes.storeByte (Bytes.storeByte m s nul) s nul, ?_, ?_, fun x outside => ?_⟩
    · simp only [strncatLoop, last, if_true]
    · show Bytes.byteAt _ s = nul
      rw [Bytes.byteAt_storeByte, if_pos rfl]
    · rw [List.length_nil] at outside
      rw [Bytes.byteAt_storeByte, if_neg (by omega), Bytes.byteAt_storeByte, if_neg (by omega)]
  | cons c two ih =>
    obtain ⟨rounds, rfl⟩ := Nat.exists_eq_add_one.mpr (Nat.lt_of_le_of_lt (Nat.zero_le _) enough)
    rw [List.length_cons] at enough longer
    unfold RunsInto at clear ih
    rw [List.length_cons] at clear
    have apart : s < t + 1 ∨ t + 1 + two.length < s := by omega
    have still : ¬(t + 1 < s + 1 ∧ s + 1 ≤ t + 1 + two.length) := by omega
    obtain ⟨w, result, written⟩ := ih (holds.2.2.store_outside c apart) still (by omega) (by omega)
      (Nat.lt_of_succ_lt_succ enough)
    have goes : ¬c = nul := holds.1
    have further : ¬(s + 1) % 2 ^ 32 = limit % 2 ^ 32 := by
      rw [max_iff (Nat.lt_succ_self s) near (by omega)]
      omega
    refine ⟨w, ?_, written.cons goes⟩
    simp only [strncatLoop, holds.2.1, if_neg goes, if_neg further, result]

theorem strncatLoop_part {limit : Nat} (apart : s ≤ t ∨ limit - s ≤ s - t) (near : limit < s + 2 ^ 32)
    (left : s < limit) (part : ∀ i (inside : i < two.length), Bytes.byteAt m (t + i) = two[i] ∧ two[i] ≠ nul)
    (size : s + two.length = limit) (enough : two.length ≤ rounds) :
    ∃ w, strncatLoop (limit % 2 ^ 32) rounds m s t = some w ∧ Written s two m w := by
  induction two generalizing m s t rounds with
  | nil =>
    rw [List.length_nil] at size
    omega
  | cons c two ih =>
    obtain ⟨rounds, rfl⟩ := Nat.exists_eq_add_one.mpr (Nat.lt_of_lt_of_le (Nat.succ_pos _) enough)
    rw [List.length_cons] at enough size
    have first : Bytes.byteAt m t = c ∧ c ≠ nul := part 0 (Nat.succ_pos _)
    have goes : ¬c = nul := first.2
    by_cases last : s + 1 = limit
    · have empty : two = [] := List.eq_nil_of_length_eq_zero (by omega)
      subst empty
      refine ⟨Bytes.storeByte (Bytes.storeByte m s c) (s + 1) nul, ?_, Written.stop.cons goes⟩
      simp only [strncatLoop, first.1, if_neg goes, last, if_true]
    · have kept : ∀ i (inside : i < two.length),
          Bytes.byteAt (Bytes.storeByte m s c) (t + 1 + i) = two[i] ∧ two[i] ≠ nul := by
        intro i inside
        have later := part (i + 1) (Nat.succ_lt_succ inside)
        rw [Bytes.byteAt_storeByte, if_neg (by omega), Nat.add_assoc, Nat.add_comm 1 i]
        exact later
      obtain ⟨w, result, written⟩ := ih (m := Bytes.storeByte m s c) (s := s + 1) (t := t + 1) (by omega) (by omega)
        (by omega) kept (by omega) (Nat.le_of_succ_le_succ enough)
      have further : ¬(s + 1) % 2 ^ 32 = limit % 2 ^ 32 := by
        rw [max_iff (Nat.lt_succ_self s) near (by omega)]
        exact last
      refine ⟨w, ?_, written.cons goes⟩
      simp only [strncatLoop, first.1, if_neg goes, if_neg further, result]

theorem strncatLoop_dirty {limit : Nat} (before : t < s) (clean : ∀ x, t ≤ x → x < s → Bytes.byteAt m x ≠ nul)
    (near : limit < s + 2 ^ 32) (left : s < limit) (result : strncatLoop (limit % 2 ^ 32) rounds m s t = some w) :
    (∀ x, x < s → Bytes.byteAt w x = Bytes.byteAt m x) ∧ ∀ x, s ≤ x → x < limit → Bytes.byteAt w x ≠ nul := by
  induction rounds generalizing m s t with
  | zero => cases result
  | succ rounds ih =>
    have first := clean t (Nat.le_refl _) before
    generalize stored : Bytes.byteAt m t = c at first result
    have now : ∀ x, Bytes.byteAt (Bytes.storeByte m s c) x = if x = s then c else Bytes.byteAt m x :=
      fun x => Bytes.byteAt_storeByte m s c x
    simp only [strncatLoop, stored, if_neg first] at result
    by_cases last : (s + 1) % 2 ^ 32 = limit % 2 ^ 32
    · rw [if_pos last] at result
      have stops := (max_iff (Nat.lt_succ_self s) near left).mp last
      rw [← Option.some.inj result]
      constructor
      · intro x low
        rw [Bytes.byteAt_storeByte, if_neg (by omega), now, if_neg (by omega)]
      · intro x low high
        rw [Bytes.byteAt_storeByte, if_neg (by omega), now, if_pos (by omega)]
        exact first
    · rw [if_neg last] at result
      have further : s + 1 ≠ limit := fun same => last (by rw [same])
      have window : ∀ x, t + 1 ≤ x → x < s + 1 → Bytes.byteAt (Bytes.storeByte m s c) x ≠ nul := by
        intro x low high
        rw [now]
        by_cases new : x = s
        · rw [if_pos new]
          exact first
        · rw [if_neg new]
          exact clean x (by omega) (by omega)
      obtain ⟨kept, nonzero⟩ := ih (Nat.succ_lt_succ before) window (by omega) (by omega) result
      constructor
      · intro x low
        rw [kept x (by omega), now, if_neg (by omega)]
      · intro x low high
        by_cases here : x = s
        · rw [kept x (by omega), now, if_pos here]
          exact first
        · exact nonzero x (by omega) high

/-- strncat puts up to n bytes of the source behind the text, exactly if the source does not
    reach to where it writes or the count ends before. -/
theorem strncat_iff (rounds : Nat) (m : Bytes.Memory) (s t n : Nat) (one two : List Byte) (somewhere : s ≠ 0)
    (holds : Bytes.Holds m s one) (also : Bytes.Holds m t two) (enough : one.length < rounds)
    (enough' : two.length < rounds) (room : s + one.length + two.length < 2 ^ 32) (count : n < 2 ^ 32) :
    (∃ w, strncat rounds m s t n = some w ∧ Bytes.Holds w s (one ++ two.take n)) ↔
      ¬RunsInto (s + one.length) t two ∨ n ≤ s + one.length - t := by
  generalize dst : s + one.length = d
  have called : strncat rounds m s t n =
      if (d + n) % 2 ^ 32 = d then some m else strncatLoop ((d + n) % 2 ^ 32) rounds m d t := by
    rw [strncat, strlen_holds holds somewhere enough, Option.bind_eq_bind, Option.bind_some, dst]
    rfl
  rw [called]
  by_cases none : n = 0
  · subst none
    have same : (d + 0) % 2 ^ 32 = d := Nat.mod_eq_of_lt (by omega)
    rw [if_pos same]
    refine iff_of_true ⟨m, rfl, ?_⟩ (Or.inr (Nat.zero_le _))
    rw [List.take_zero, List.append_nil]
    exact holds
  · have starts : ¬(d + n) % 2 ^ 32 = d := by
      have own : d % 2 ^ 32 = d := Nat.mod_eq_of_lt (by omega)
      intro same
      omega
    rw [if_neg starts]
    constructor
    · rintro ⟨w, result, both⟩
      by_contra neither
      rw [not_or, not_not] at neither
      obtain ⟨into, longer⟩ := neither
      have nonzero := (strncatLoop_dirty into.1 (into.clean also) (by omega) (by omega) result).2
      -- the text ends at d, so the source is what lies between
      have size : two.length = d - t := by
        by_contra differs
        have inside : d - t < two.length := by
          have bound := into.2
          omega
        have byte := also.byte inside
        have place : t + (d - t) = d := Nat.add_sub_cancel' (Nat.le_of_lt into.1)
        have last := holds.last
        rw [dst] at last
        rw [place, last] at byte
        exact byte.2 byte.1.symm
      have whole : two.take n = two := List.take_of_length_le (by omega)
      have last := both.last
      rw [whole, List.length_append, ← Nat.add_assoc, dst] at last
      exact nonzero (d + two.length) (by omega) (by omega) last
    · intro either
      have written : ∃ w, strncatLoop ((d + n) % 2 ^ 32) rounds m d t = some w ∧ Written d (two.take n) m w := by
        by_cases longer : two.length < n
        · rw [List.take_of_length_le (Nat.le_of_lt longer)]
          refine strncatLoop_whole also ?_ (by omega) (by omega) enough'
          rcases either with clear | short
          · exact clear
          · intro into
            have bound := into.2
            omega
        · have size : (two.take n).length = n := List.length_take_of_le (Nat.le_of_not_lt longer)
          refine strncatLoop_part ?_ (by omega) (by omega) (fun i inside => ?_) (by omega) (by omega)
          · unfold RunsInto at either
            omega
          · rw [List.getElem_take]
            exact also.byte (by omega)
      obtain ⟨w, result, written⟩ := written
      rw [← dst] at written
      exact ⟨w, result, written.extend holds⟩

theorem strncat_iff_itself : ∃ w, strncat 2 nearTexts 4 4 1 = some w ∧ Bytes.Holds w 4 (bytes ['a', 'a']) :=
  (strncat_iff 2 nearTexts 4 4 1 (bytes ['a']) (bytes ['a']) (by decide) (by decide +kernel) (by decide +kernel)
    (by decide) (by decide) (by decide) (by decide)).mpr (Or.inr (by decide))

theorem strncpyLoop_bytes {dest j : Nat} (holds : Bytes.Holds m (src + j) text)
    (apart : dest + n ≤ src ∨ src + j + text.length < dest + j) :
    (strncpyLoop dest src n j m).2 = j + min n text.length ∧
      ∀ x, Bytes.byteAt (strncpyLoop dest src n j m).1 x =
        if dest + j ≤ x ∧ x < dest + j + min n text.length then text.getD (x - (dest + j)) nul
        else Bytes.byteAt m x := by
  induction n generalizing m j text with
  | zero =>
    refine ⟨by rw [Nat.zero_min]; rfl, fun x => ?_⟩
    rw [if_neg (by omega)]
    rfl
  | succ n ih =>
    cases text with
    | nil =>
      have last : Bytes.byteAt m (src + j) = nul := holds
      rw [strncpyLoop, if_pos last, List.length_nil, Nat.min_zero]
      refine ⟨rfl, fun x => ?_⟩
      rw [if_neg (by omega)]
    | cons c text =>
      rw [List.length_cons] at apart ⊢
      have goes : ¬Bytes.byteAt m (src + j) = nul := by
        rw [holds.2.1]
        exact holds.1
      have outside : dest + j < src + (j + 1) ∨ src + (j + 1) + text.length < dest + j := by omega
      obtain ⟨size, value⟩ := ih (m := Bytes.storeByte m (dest + j) c) (j := j + 1)
        (holds.2.2.store_outside c outside) (by omega)
      rw [strncpyLoop, if_neg goes, holds.2.1]
      refine ⟨by omega, fun x => ?_⟩
      rw [value, Bytes.byteAt_storeByte]
      by_cases first : x = dest + j
      · subst first
        rw [if_neg (by omega), if_pos rfl, if_pos (by omega), Nat.sub_self]
        rfl
      · rw [if_neg first]
        by_cases later : dest + (j + 1) ≤ x ∧ x < dest + (j + 1) + min n text.length
        · have place : x - (dest + j) = x - (dest + (j + 1)) + 1 := by omega
          rw [if_pos later, if_pos (by omega), place, List.getD_cons_succ]
        · rw [if_neg later, if_neg (by omega)]

theorem strncpy_bytes {dest : Nat} (holds : Bytes.Holds m src text)
    (apart : dest + n ≤ src ∨ src + text.length < dest) (low : 0 < dest) (high : dest + n ≤ 2 ^ 32) (x : Nat) :
    Bytes.byteAt (strncpy m dest src n) x =
      if dest ≤ x ∧ x < dest + n then (text.take (n - 1)).getD (x - dest) nul
      else if n = 0 ∧ x + 1 = dest then nul else Bytes.byteAt m x := by
  have still : Bytes.Holds (Bytes.fill dest 0 n m) (src + 0) text := by
    apply holds.congr
    intro i inside
    rw [Bytes.byteAt_fill, if_neg (by omega)]
  obtain ⟨size, value⟩ := strncpyLoop_bytes (n := n) still (by omega)
  rw [Nat.add_zero, Nat.zero_add] at *
  have result : strncpy m dest src n =
      if n ≤ min n text.length then
        Bytes.storeByte (strncpyLoop dest src n 0 (Bytes.fill dest 0 n m)).1 ((dest + 2 ^ 32 + n - 1) % 2 ^ 32) nul
      else (strncpyLoop dest src n 0 (Bytes.fill dest 0 n m)).1 := by
    rw [← size]
    rfl
  have taken : ∀ k, (text.take (n - 1)).getD k nul = if k < n - 1 then text.getD k nul else nul := by
    intro k
    rw [List.getD_eq_getElem?_getD, List.getElem?_take, List.getD_eq_getElem?_getD]
    split
    · rfl
    · rfl
  have beyond : ∀ k, text.length ≤ k → text.getD k nul = nul := fun k long => List.getD_eq_default _ _ long
  rw [result, taken]
  by_cases cut : n ≤ text.length
  · have whole : min n text.length = n := Nat.min_eq_left cut
    rw [if_pos (by omega), Bytes.byteAt_storeByte, value, whole]
    by_cases none : n = 0
    · subst none
      have place : (dest + 2 ^ 32 + 0 - 1) % 2 ^ 32 = dest - 1 := by omega
      have outside : ¬(dest ≤ x ∧ x < dest + 0) := by omega
      simp only [place, Bytes.byteAt_fill, if_neg outside, true_and]
      by_cases front : x + 1 = dest
      · have here : x = dest - 1 := by omega
        rw [if_pos here, if_pos front]
      · have other : ¬x = dest - 1 := by omega
        rw [if_neg other, if_neg front]
    · have place : (dest + 2 ^ 32 + n - 1) % 2 ^ 32 = dest + n - 1 := by omega
      rw [place, Bytes.byteAt_fill]
      by_cases inside : dest ≤ x ∧ x < dest + n
      · rw [if_pos inside, if_pos inside]
        by_cases last : x = dest + n - 1
        · rw [if_pos last, if_neg (by omega)]
        · rw [if_neg last, if_pos (by omega)]
      · have other : ¬x = dest + n - 1 := by omega
        simp only [if_neg inside, if_neg other, if_neg fun both : n = 0 ∧ x + 1 = dest => none both.1]
  · have whole : min n text.length = text.length := Nat.min_eq_right (by omega)
    rw [if_neg (by omega), value, whole, Bytes.byteAt_fill]
    by_cases inside : dest ≤ x ∧ x < dest + n
    · rw [if_pos inside, if_pos inside]
      by_cases early : x < dest + text.length
      · rw [if_pos ⟨inside.1, early⟩, if_pos (by omega)]
      · rw [if_neg (by omega), beyond _ (by omega)]
        split
        · rfl
        · rfl
    · rw [if_neg inside, if_neg inside, if_neg (by omega), if_neg (by omega)]

/-- strncpy leaves a string of less than n bytes, filled up with zeros, and changes nothing
    outside of the n bytes exactly if n is not 0 or the byte before them is a NUL already. -/
theorem strncpy_iff (m : Bytes.Memory) (dest src n : Nat) (text : List Byte) (holds : Bytes.Holds m src text)
    (apart : dest + n ≤ src ∨ src + text.length < dest) (low : 0 < dest) (high : dest + n ≤ 2 ^ 32) :
    (n ≠ 0 → Bytes.Holds (strncpy m dest src n) dest (text.take (n - 1)) ∧
        ∀ x, dest + text.length ≤ x → x < dest + n → Bytes.byteAt (strncpy m dest src n) x = nul) ∧
      ((∀ x, x < dest ∨ dest + n ≤ x → Bytes.byteAt (strncpy m dest src n) x = Bytes.byteAt m x) ↔
        n ≠ 0 ∨ Bytes.byteAt m (dest - 1) = nul) := by
  have value := strncpy_bytes holds apart low high
  constructor
  · intro positive
    have bytes : ∀ k, k < n → Bytes.byteAt (strncpy m dest src n) (dest + k) = (text.take (n - 1)).getD k nul := by
      intro k inside
      rw [value, if_pos ⟨Nat.le_add_right .., by omega⟩, Nat.add_sub_cancel_left]
    have length : (text.take (n - 1)).length ≤ n - 1 := List.length_take_le ..
    constructor
    · rw [← List.append_nil (text.take (n - 1))]
      apply Bytes.holds_append
      · intro i inside
        rw [bytes i (by omega), List.getD_eq_getElem _ _ inside]
        exact ⟨rfl, holds.clean _ (List.mem_of_mem_take (List.getElem_mem inside))⟩
      · show Bytes.byteAt _ _ = nul
        rw [bytes _ (by omega), List.getD_eq_default _ _ (Nat.le_refl _)]
    · intro x long inside
      have place : dest + (x - dest) = x := by omega
      have byte := bytes (x - dest) (by omega)
      rw [place] at byte
      rw [byte]
      apply List.getD_eq_default
      have short : (text.take (n - 1)).length ≤ text.length := List.length_take_le' ..
      omega
  · constructor
    · intro frame
      by_contra neither
      rw [not_or, not_not] at neither
      have before := frame (dest - 1) (Or.inl (by omega))
      rw [value, if_neg (by omega), if_pos ⟨neither.1, by omega⟩] at before
      exact neither.2 before.symm
    · intro either x outside
      rw [value, if_neg (by omega)]
      by_cases front : n = 0 ∧ x + 1 = dest
      · have place : x = dest - 1 := by omega
        rw [if_pos front, place]
        exact (either.resolve_left fun positive => positive front.1).symm
      · rw [if_neg front]

theorem strncpy_iff_front :
    Bytes.Holds (strncpy nearTexts 5 8 3) 5 (bytes ['b']) ∧
      ¬∀ x, x < 5 ∨ 5 + 0 ≤ x → Bytes.byteAt (strncpy nearTexts 5 8 0) x = Bytes.byteAt nearTexts x := by
  have second : Bytes.Holds nearTexts 8 (bytes ['b']) := by decide +kernel
  constructor
  · exact ((strncpy_iff nearTexts 5 8 3 (bytes ['b']) second (by decide) (by decide) (by decide)).1 (by decide)).1
  · rw [(strncpy_iff nearTexts 5 8 0 (bytes ['b']) second (by decide) (by decide) (by decide)).2]
    decide +kernel

end L4ertl
