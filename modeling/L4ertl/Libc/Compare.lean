import Mathlib.Data.List.Lex
import L4ertl.Libc.CString

/-!
Comparing and searching strings (string.c): strcmp and strncmp order them by their
bytes, strstr finds the first place of one in another.
-/
namespace L4ertl

def difference (c d : Byte) : Int := (c.toNat : Int) - d.toNat

def strcmp (m : Bytes.Memory) : Nat → Nat → Nat → Option Int
  | 0, _, _ => none
  | rounds + 1, s, t =>
    if Bytes.byteAt m s ≠ Bytes.byteAt m t ∨ Bytes.byteAt m s = nul then
      some (difference (Bytes.byteAt m s) (Bytes.byteAt m t))
    else strcmp m rounds (s + 1) (t + 1)

/-- `n` bytes up to fini are left. -/
def strncmpLoop (m : Bytes.Memory) : Nat → Nat → Nat → Int
  | 0, _, _ => 0
  | n + 1, a, b =>
    if difference (Bytes.byteAt m a) (Bytes.byteAt m b) ≠ 0 then difference (Bytes.byteAt m a) (Bytes.byteAt m b)
    else if Bytes.byteAt m a = nul then 0
    else strncmpLoop m n (a + 1) (b + 1)

/-- fini is a pointer of 32 bits. -/
def strncmp (m : Bytes.Memory) (s1 s2 n : Nat) : Int := strncmpLoop m ((s1 + n) % 2 ^ 32 - s1) s1 s2

def memcmp (m : Bytes.Memory) : Nat → Nat → Nat → Int
  | 0, _, _ => 0
  | count + 1, d, s =>
    if difference (Bytes.byteAt m d) (Bytes.byteAt m s) ≠ 0 then difference (Bytes.byteAt m d) (Bytes.byteAt m s)
    else memcmp m count (d + 1) (s + 1)

def strstrLoop (m : Bytes.Memory) (needle nl : Nat) : Nat → Nat → Nat
  | 0, _ => 0
  | i + 1, haystack =>
    if Bytes.byteAt m haystack = Bytes.byteAt m needle ∧ memcmp m nl haystack needle = 0 then haystack
    else strstrLoop m needle nl i (haystack + 1)

def strstr (rounds : Nat) (m : Bytes.Memory) (haystack needle : Nat) : Option Nat := do
  let nl ← strlen rounds m needle
  let hl ← strlen rounds m haystack
  if nl = 0 then return haystack
  else if hl < nl then return 0
  else return strstrLoop m needle nl (hl - nl + 1) haystack

structure Orders (ret : Int) (one two : List Byte) : Prop where
  less : ret < 0 ↔ one < two
  equal : ret = 0 ↔ one = two
  more : 0 < ret ↔ two < one

variable {m : Bytes.Memory} {s t rounds : Nat} {one two : List Byte}

theorem difference_sign (c d : Byte) :
    (difference c d < 0 ↔ c < d) ∧ (difference c d = 0 ↔ c = d) ∧ (0 < difference c d ↔ d < c) := by
  unfold difference
  rw [BitVec.lt_def, BitVec.lt_def, ← BitVec.toNat_inj]
  omega

theorem Orders.first {c d : Byte} (other : c ≠ d) : Orders (difference c d) (c :: one) (d :: two) := by
  obtain ⟨less, equal, more⟩ := difference_sign c d
  constructor
  · rw [less, List.cons_lt_cons_iff]
    exact ⟨Or.inl, fun either => either.resolve_right fun both => other both.1⟩
  · rw [equal, List.cons.injEq]
    exact ⟨fun same => absurd same other, fun both => both.1⟩
  · rw [more, List.cons_lt_cons_iff]
    exact ⟨Or.inl, fun either => either.resolve_right fun both => other both.1.symm⟩

theorem Orders.next {ret : Int} (orders : Orders ret one two) (c : Byte) : Orders ret (c :: one) (c :: two) := by
  have irreflexive : ¬c < c := by simp
  constructor
  · rw [orders.less, List.cons_lt_cons_iff]
    simp [irreflexive]
  · rw [orders.equal, List.cons.injEq]
    simp
  · rw [orders.more, List.cons_lt_cons_iff]
    simp [irreflexive]

theorem Orders.same (one : List Byte) : Orders 0 one one := by
  constructor
  · simp [List.lt_irrefl]
  · simp
  · simp [List.lt_irrefl]

theorem Orders.shorter {c : Byte} (nonzero : c ≠ nul) : Orders (difference nul c) [] (c :: one) := by
  have positive : 0 < c.toNat := by
    apply Nat.pos_of_ne_zero
    intro zero
    exact nonzero (BitVec.eq_of_toNat_eq zero)
  have value : difference nul c = -c.toNat := by simp [difference, nul]
  constructor
  · simp only [value, List.nil_lt_cons, iff_true]
    omega
  · simp only [value, List.nil_eq, reduceCtorEq, iff_false]
    omega
  · simp only [value, List.not_lt_nil, iff_false]
    omega

theorem Orders.longer {c : Byte} (nonzero : c ≠ nul) : Orders (difference c nul) (c :: one) [] := by
  have positive : 0 < c.toNat := by
    apply Nat.pos_of_ne_zero
    intro zero
    exact nonzero (BitVec.eq_of_toNat_eq zero)
  have value : difference c nul = c.toNat := by simp [difference, nul]
  constructor
  · simp only [value, List.not_lt_nil, iff_false]
    omega
  · simp only [value, reduceCtorEq, iff_false]
    omega
  · simp only [value, List.nil_lt_cons, iff_true]
    omega

theorem strcmp_orders (holds : Bytes.Holds m s one) (also : Bytes.Holds m t two) (enough : one.length < rounds) :
    ∃ ret, strcmp m rounds s t = some ret ∧ Orders ret one two := by
  induction one generalizing s t two rounds with
  | nil =>
    obtain ⟨rounds, rfl⟩ := Nat.exists_eq_add_one.mpr enough
    have first : Bytes.byteAt m s = nul := holds
    cases two with
    | nil =>
      have second : Bytes.byteAt m t = nul := also
      refine ⟨0, ?_, Orders.same []⟩
      rw [strcmp, if_pos (Or.inr first), first, second]
      rfl
    | cons c two =>
      refine ⟨difference nul c, ?_, Orders.shorter also.1⟩
      rw [strcmp, if_pos (Or.inr first), first, also.2.1]
  | cons c one ih =>
    obtain ⟨rounds, rfl⟩ := Nat.exists_eq_add_one.mpr (Nat.lt_of_le_of_lt (Nat.zero_le _) enough)
    rw [List.length_cons] at enough
    cases two with
    | nil =>
      have second : Bytes.byteAt m t = nul := also
      have differs : c ≠ nul ∨ c = nul := Or.inl holds.1
      refine ⟨difference c nul, ?_, Orders.longer holds.1⟩
      rw [strcmp, holds.2.1, second, if_pos differs]
    | cons d two =>
      by_cases same : c = d
      · subst same
        obtain ⟨ret, result, orders⟩ := ih holds.2.2 also.2.2 (Nat.lt_of_succ_lt_succ enough)
        refine ⟨ret, ?_, orders.next c⟩
        have goes : ¬(c ≠ c ∨ c = nul) := by
          rintro (other | end_)
          · exact other rfl
          · exact holds.1 end_
        rw [strcmp, holds.2.1, also.2.1, if_neg goes, result]
      · refine ⟨difference c d, ?_, Orders.first same⟩
        rw [strcmp, holds.2.1, also.2.1, if_pos (Or.inl same)]

theorem strncmpLoop_orders (holds : Bytes.Holds m s one) (also : Bytes.Holds m t two) (n : Nat) :
    Orders (strncmpLoop m n s t) (one.take n) (two.take n) := by
  induction n generalizing s t one two with
  | zero => exact Orders.same []
  | succ n ih =>
    unfold strncmpLoop
    cases one with
    | nil =>
      have first : Bytes.byteAt m s = nul := holds
      cases two with
      | nil =>
        have second : Bytes.byteAt m t = nul := also
        rw [first, second]
        exact Orders.same []
      | cons c two =>
        have differs := (difference_sign nul c).2.1.not.mpr (Ne.symm also.1)
        rw [first, also.2.1, if_pos differs]
        exact Orders.shorter also.1
    | cons c one =>
      cases two with
      | nil =>
        have second : Bytes.byteAt m t = nul := also
        have differs := (difference_sign c nul).2.1.not.mpr holds.1
        rw [holds.2.1, second, if_pos differs]
        exact Orders.longer holds.1
      | cons d two =>
        rw [holds.2.1, also.2.1]
        by_cases same : c = d
        · subst same
          have equal := (difference_sign c c).2.1.mpr rfl
          have goes : ¬c = nul := holds.1
          rw [if_neg (not_not.mpr equal), if_neg goes]
          exact (ih holds.2.2 also.2.2).next c
        · have differs := (difference_sign c d).2.1.not.mpr same
          rw [if_pos differs]
          exact Orders.first same

theorem strncmp_fits {n : Nat} (fits : s + n < 2 ^ 32) : strncmp m s t n = strncmpLoop m n s t := by
  rw [strncmp, Nat.mod_eq_of_lt fits, Nat.add_sub_cancel_left]

theorem strncmp_wraps {n : Nat} (start : s < 2 ^ 32) (count : n < 2 ^ 32) (wraps : 2 ^ 32 ≤ s + n) :
    strncmp m s t n = 0 := by
  have before : (s + n) % 2 ^ 32 - s = 0 := by omega
  rw [strncmp, before]
  rfl

theorem orders_zero_iff : Orders 0 one two ↔ one = two := by
  constructor
  · intro orders
    exact orders.equal.mp rfl
  · rintro rfl
    exact Orders.same one

/-- strcmp orders strings byte by byte. strncmp does so with their first `n` bytes as long
    as these end within the address space, and else takes all strings for equal. -/
theorem strings_ordered (rounds : Nat) (m : Bytes.Memory) (s t n : Nat) (one two : List Byte)
    (holds : Bytes.Holds m s one) (also : Bytes.Holds m t two) (enough : one.length < rounds) (start : s < 2 ^ 32)
    (count : n < 2 ^ 32) :
    (∃ ret, strcmp m rounds s t = some ret ∧ Orders ret one two) ∧
      (Orders (strncmp m s t n) (one.take n) (two.take n) ↔ s + n < 2 ^ 32 ∨ one.take n = two.take n) := by
  refine ⟨strcmp_orders holds also enough, ?_⟩
  by_cases fits : s + n < 2 ^ 32
  · rw [strncmp_fits fits]
    exact ⟨fun _ => Or.inl fits, fun _ => strncmpLoop_orders holds also n⟩
  · rw [strncmp_wraps start count (Nat.le_of_not_lt fits), orders_zero_iff]
    exact ⟨Or.inr, fun either => either.resolve_left fits⟩

def comparedStrings : Bytes.Memory :=
  Bytes.memoryOf ([0, 0, 0, 0] ++ bytes ['a', 'b'] ++ [0] ++ bytes ['b'] ++ [0])

theorem strings_ordered_wrap :
    Orders (strncmp comparedStrings 4 7 2) (bytes ['a', 'b']) (bytes ['b']) ∧
      ¬Orders (strncmp comparedStrings 4 7 (2 ^ 32 - 1)) ((bytes ['a', 'b']).take (2 ^ 32 - 1))
        ((bytes ['b']).take (2 ^ 32 - 1)) := by
  have first : Bytes.Holds comparedStrings 4 (bytes ['a', 'b']) := by decide +kernel
  have second : Bytes.Holds comparedStrings 7 (bytes ['b']) := by decide +kernel
  constructor
  · exact (strings_ordered 3 comparedStrings 4 7 2 _ _ first second (by decide) (by decide) (by decide)).2.mpr
      (Or.inl (by decide))
  · rw [(strings_ordered 3 comparedStrings 4 7 (2 ^ 32 - 1) _ _ first second (by decide) (by decide)
      (by decide)).2]
    rw [List.take_of_length_le (by decide), List.take_of_length_le (by decide)]
    decide

theorem memcmp_zero_iff (holds : Bytes.Holds m s one) (also : Bytes.Holds m t two) {count : Nat}
    (inside : count ≤ one.length) (inside' : count ≤ two.length) :
    memcmp m count s t = 0 ↔ one.take count = two.take count := by
  induction count generalizing s t one two with
  | zero => exact ⟨fun _ => rfl, fun _ => rfl⟩
  | succ count ih =>
    cases one with
    | nil => cases inside
    | cons c one =>
      cases two with
      | nil => cases inside'
      | cons d two =>
        rw [memcmp, holds.2.1, also.2.1, List.take_succ_cons, List.take_succ_cons, List.cons.injEq]
        by_cases same : c = d
        · subst same
          have equal := (difference_sign c c).2.1.mpr rfl
          rw [if_neg (not_not.mpr equal), ih holds.2.2 also.2.2 (Nat.le_of_succ_le_succ inside)
            (Nat.le_of_succ_le_succ inside')]
          simp
        · have differs := (difference_sign c d).2.1.not.mpr same
          rw [if_pos differs]
          exact ⟨fun zero => absurd zero differs, fun both => absurd both.1 same⟩

def FirstAt (hay needle : List Byte) (k : Nat) : Prop := needle <+: hay.drop k ∧ ∀ j < k, ¬needle <+: hay.drop j

theorem strstrLoop_first {needle : List Byte} (nonempty : needle ≠ []) (also : Bytes.Holds m t needle) (i : Nat) :
    ∀ {h : Nat} {hay : List Byte}, Bytes.Holds m h hay → i + needle.length = hay.length + 1 →
      ((∀ k, ¬needle <+: hay.drop k) ∧ strstrLoop m t needle.length i h = 0) ∨
        ∃ k, FirstAt hay needle k ∧ strstrLoop m t needle.length i h = h + k := by
  have positive := List.length_pos_of_ne_nil nonempty
  induction i with
  | zero =>
    intro h hay holds size
    refine Or.inl ⟨fun k front => ?_, rfl⟩
    have short := front.length_le
    rw [List.length_drop] at short
    omega
  | succ i ih =>
    intro h hay holds size
    have long : needle.length ≤ hay.length := by omega
    have here : memcmp m needle.length h t = 0 ↔ needle <+: hay := by
      rw [memcmp_zero_iff holds also long (Nat.le_refl _), List.take_length, List.prefix_iff_eq_take]
      exact eq_comm
    unfold strstrLoop
    by_cases front : needle <+: hay
    · have same : Bytes.byteAt m h = Bytes.byteAt m t := by
        obtain ⟨c, rest, rfl⟩ := List.exists_cons_of_ne_nil nonempty
        obtain ⟨more, rfl⟩ := front
        rw [holds.2.1, also.2.1]
      rw [if_pos ⟨same, here.mpr front⟩]
      exact Or.inr ⟨0, ⟨front, nofun⟩, rfl⟩
    · rw [if_neg fun both => front (here.mp both.2)]
      cases hay with
      | nil => exact absurd long (Nat.not_le_of_gt positive)
      | cons c hay =>
        rw [List.length_cons] at size
        rcases ih holds.2.2 (by omega) with ⟨never, result⟩ | ⟨k, ⟨found, before⟩, result⟩
        · refine Or.inl ⟨fun k => ?_, result⟩
          cases k with
          | zero => exact front
          | succ k => exact never k
        · refine Or.inr ⟨k + 1, ⟨found, fun j less => ?_⟩, by omega⟩
          cases j with
          | zero => exact front
          | succ j => exact before j (Nat.lt_of_succ_lt_succ less)

theorem strstr_first (rounds : Nat) (m : Bytes.Memory) (h t : Nat) (hay needle : List Byte) (somewhere : h ≠ 0)
    (somewhere' : t ≠ 0) (holds : Bytes.Holds m h hay) (also : Bytes.Holds m t needle)
    (enough : hay.length < rounds) (enough' : needle.length < rounds) :
    ∃ r, strstr rounds m h t = some r ∧
      ((r = 0 ∧ ¬needle <:+: hay) ∨ ∃ k, r = h + k ∧ FirstAt hay needle k) := by
  have inside_iff : needle <:+: hay ↔ ∃ k, needle <+: hay.drop k := by
    constructor
    · rintro ⟨front, back, rfl⟩
      refine ⟨front.length, ?_⟩
      rw [List.append_assoc, List.drop_left']
      · exact List.prefix_append ..
      · rfl
    · rintro ⟨k, front⟩
      exact front.isInfix.trans (List.drop_suffix k hay).isInfix
  simp only [strstr, strlen_holds also somewhere' enough', strlen_holds holds somewhere enough,
    Option.bind_eq_bind, Option.bind_some]
  by_cases empty : needle = []
  · subst empty
    exact ⟨h, rfl, Or.inr ⟨0, rfl, List.nil_prefix, nofun⟩⟩
  · have positive := List.length_pos_of_ne_nil empty
    rw [if_neg (Nat.ne_of_gt positive)]
    by_cases longer : hay.length < needle.length
    · rw [if_pos longer]
      refine ⟨0, rfl, Or.inl ⟨rfl, fun inside => ?_⟩⟩
      have length := inside.length_le
      omega
    · rw [if_neg longer]
      refine ⟨_, rfl, ?_⟩
      have size : hay.length - needle.length + 1 + needle.length = hay.length + 1 := by omega
      rcases strstrLoop_first empty also _ holds size with ⟨never, result⟩ | ⟨k, first, result⟩
      · refine Or.inl ⟨result, fun inside => ?_⟩
        obtain ⟨k, front⟩ := inside_iff.mp inside
        exact never k front
      · exact Or.inr ⟨k, result, first⟩

theorem strstr_first_second :
    ∃ r, strstr 3 comparedStrings 4 7 = some r ∧
      ((r = 0 ∧ ¬bytes ['b'] <:+: bytes ['a', 'b']) ∨ ∃ k, r = 4 + k ∧ FirstAt (bytes ['a', 'b']) (bytes ['b']) k) :=
  strstr_first 3 comparedStrings 4 7 (bytes ['a', 'b']) (bytes ['b']) (by decide) (by decide) (by decide +kernel)
    (by decide +kernel) (by decide) (by decide)

example : strstr 3 comparedStrings 4 7 = some 5 := by decide +kernel

end L4ertl
