import L4ertl.Core.Cbitmap

/-!
What the searches of a bitmap find. `Raw` also counts the bits of the last word
from `nbits` on, which set_cbitmap sets and the searches do not tell from the
others.
-/
namespace L4ertl
open Scan

def Cbitmap.Raw (b : Cbitmap) (r : Nat) : Prop :=
  r / 32 < arraySize b.nbits ∧ (b.array (r / 32)).getLsbD (r % 32) = true

def Cbitmap.NextBit (b : Cbitmap) (start r : Nat) : Prop :=
  b.Raw r ∧ start ≤ r ∧ ∀ x, b.Raw x → start ≤ x → r ≤ x

theorem arraySize_eq (n : Nat) : arraySize n = (n + 31) / 32 := by
  unfold arraySize bitsPerWord
  split
  · omega
  · omega

section
variable {b : Cbitmap} {rounds : Nat}

theorem Cbitmap.Raw.lt {r : Nat} (raw : b.Raw r) : r < 2 ^ 32 := by
  have inside := raw.1
  have small := b.small
  rw [arraySize_eq] at inside
  omega

theorem Cbitmap.NextBit.of_word {s a k : Nat} (after : s ≤ a) (inside : a < arraySize b.nbits)
    (zero : ∀ j, s ≤ j → j < a → b.array j = 0#32) (low : LowestBit (b.array a) k) :
    b.NextBit (32 * s) (32 * a + k) := by
  have below := low.1
  have word : (32 * a + k) / 32 = a := by omega
  have bit : (32 * a + k) % 32 = k := by omega
  refine ⟨⟨by rw [word]; exact inside, by rw [word, bit]; exact low.2.1⟩, by omega, ?_⟩
  intro x raw least
  by_contra less
  by_cases same : x / 32 = a
  · have clear := low.2.2 (x % 32) (by omega)
    have set := raw.2
    rw [same, clear] at set
    cases set
  · have set := raw.2
    rw [zero (x / 32) (by omega) (by omega)] at set
    simp at set

theorem not_raw_of_zero {s : Nat} (zero : ∀ j, s ≤ j → j < arraySize b.nbits → b.array j = 0#32) (r : Nat)
    (after : 32 * s ≤ r) : ¬b.Raw r := by
  rintro ⟨inside, set⟩
  rw [zero (r / 32) (by omega) inside] at set
  simp at set

theorem toInt_high {r : Nat} (large : 2 ^ 31 ≤ r) (word : r < 2 ^ 32) :
    (BitVec.ofNat 32 r).toInt = (r : Int) - 2 ^ 32 := by
  rw [BitVec.toInt_ofNat', Int.bmod_def]
  split
  · omega
  · omega

theorem ofNat_eq_top {r : Nat} (word : r < 2 ^ 32) : BitVec.ofNat 32 r = -1#32 ↔ r = 2 ^ 32 - 1 := by
  rw [← BitVec.toNat_inj, BitVec.toNat_ofNat, Nat.mod_eq_of_lt word]
  exact Iff.rfl

theorem LowestBit.shift {x : Word} {k m : Nat} (low : LowestBit x k) (less : m ≤ k) :
    LowestBit (x >>> m) (k - m) := by
  have back : m + (k - m) = k := by omega
  refine ⟨by have := low.1; omega, ?_, ?_⟩
  · rw [BitVec.getLsbD_ushiftRight, back]
    exact low.2.1
  · intro j below
    rw [BitVec.getLsbD_ushiftRight]
    exact low.2.2 (m + j) (by omega)

theorem LowestBit.lowClear_iff {x : Word} {k w : Nat} (low : LowestBit x k) :
    lowClear x w = true ↔ w ≤ k := by
  rw [L4ertl.lowClear_iff]
  constructor
  · intro clear
    by_contra less
    have none := clear k low.1 (by omega)
    rw [low.2.1] at none
    cases none
  · intro above j _ below
    exact low.2.2 j (by omega)

theorem shiftOut_spec {w k : Nat} {bit tmp : Word} (low : LowestBit tmp k) {t : Word × Word}
    (ended : shiftOut w rounds bit tmp = some t) :
    ∃ m, m ≤ k ∧ k - m < w ∧ t = (bit + BitVec.ofNat 32 m, tmp >>> m) := by
  obtain ⟨⟨m, less, same⟩, stop⟩ := whileLoop_keeps
    (fun s => ∃ m, m ≤ k ∧ s = (bit + BitVec.ofNat 32 m, tmp >>> m)) (by
      rintro s ⟨m, less, rfl⟩ goes
      have above := (low.shift less).lowClear_iff.mp goes
      refine ⟨m + w, by omega, ?_⟩
      rw [BitVec.add_assoc, ← BitVec.ofNat_add, ← BitVec.shiftRight_add])
    ⟨0, Nat.zero_le k, by simp⟩ ended
  refine ⟨m, less, ?_, same⟩
  by_contra above
  rw [same] at stop
  have goes := (low.shift less).lowClear_iff.mpr (Nat.le_of_not_lt above)
  rw [goes] at stop
  cases stop

theorem shiftOut_ends {w k : Nat} {tmp : Word} (bit : Word) (positive : 0 < w) (low : LowestBit tmp k)
    (enough : k < rounds) : ∃ t, shiftOut w rounds bit tmp = some t := by
  apply whileLoop_ends (fun m s => LowestBit s.2 m) ?_ low enough
  intro m s low goes
  have above := low.lowClear_iff.mp goes
  exact ⟨m - w, by omega, low.shift above⟩

theorem finish_spec {k a : Nat} {bit tmp : Word} (low : LowestBit tmp k) {v : Int}
    (ended : finish rounds bit a tmp = some v) :
    v = (bit + BitVec.ofNat 32 (32 * a + k)).toInt := by
  unfold finish at ended
  split at ended
  · cases ended
  · rename_i first rest eight
    obtain ⟨m, less, _, same⟩ := shiftOut_spec low eight
    cases same
    obtain ⟨t, one, rfl⟩ := Option.map_eq_some_iff.mp ended
    obtain ⟨j, rest, last, rfl⟩ := shiftOut_spec (low.shift less) one
    have sum : a * bitsPerWord + m + j = 32 * a + k := by
      unfold bitsPerWord
      omega
    simp only [BitVec.add_assoc, ← BitVec.ofNat_add, sum]

theorem finish_ends {k a : Nat} {bit tmp : Word} (low : LowestBit tmp k) (enough : 32 ≤ rounds) :
    ∃ v, finish rounds bit a tmp = some v := by
  have inside := low.1
  obtain ⟨⟨first, rest⟩, eight⟩ :=
    shiftOut_ends (bit + BitVec.ofNat 32 (a * bitsPerWord)) (by decide : 0 < 8) low
      (by omega : k < rounds)
  obtain ⟨m, less, _, same⟩ := shiftOut_spec low eight
  cases same
  obtain ⟨t, one⟩ := shiftOut_ends (bit + BitVec.ofNat 32 (a * bitsPerWord) + BitVec.ofNat 32 m)
    (by decide : 0 < 1) (low.shift less) (by omega : k - m < rounds)
  exact ⟨t.1.toInt, by simp only [finish, eight, one, Option.map_some]⟩

theorem skipWords_spec {a c : Nat} {reads seen : List Nat}
    (ended : skipWords rounds b a reads = some (c, seen)) :
    a ≤ c ∧ (a ≤ arraySize b.nbits → c ≤ arraySize b.nbits) ∧ (∀ j, a ≤ j → j < c → b.array j = 0#32) ∧
      c ∈ seen ∧ (∀ i ∈ seen, i ∈ reads ∨ i ≤ c) ∧ (c < arraySize b.nbits → b.array c ≠ 0#32) := by
  obtain ⟨s, stopped, same⟩ := Option.map_eq_some_iff.mp ended
  cases same
  obtain ⟨⟨after, bound, zero, read⟩, stop⟩ := whileLoop_keeps
    (fun s => a ≤ s.1 ∧ (a ≤ arraySize b.nbits → s.1 ≤ arraySize b.nbits) ∧
      (∀ j, a ≤ j → j < s.1 → b.array j = 0#32) ∧ ∀ i ∈ s.2, i ∈ reads ∨ i ≤ s.1) (by
      rintro s ⟨after, _, zero, read⟩ goes
      simp only [Bool.and_eq_true, beq_iff_eq, decide_eq_true_eq] at goes
      refine ⟨by simp only; omega, fun _ => goes.2, ?_, ?_⟩
      · intro j least below
        by_cases same : j = s.1
        · rw [same]
          exact goes.1
        · exact zero j least (by simp only at below; omega)
      · intro i member
        rcases List.mem_cons.mp member with rfl | earlier
        · exact .inr (Nat.le_succ _)
        · exact (read i earlier).imp_right fun le => Nat.le_succ_of_le le)
    ⟨Nat.le_refl a, fun le => le, fun j least below => by simp only at below; omega,
      fun i member => .inl member⟩ stopped
  refine ⟨after, bound, zero, List.mem_cons_self, ?_, ?_⟩
  · intro i member
    rcases List.mem_cons.mp member with rfl | earlier
    · exact .inr (Nat.le_refl _)
    · exact read i earlier
  · intro inside none
    simp [inside, none] at stop

theorem skipWords_ends {a : Nat} {reads : List Nat} (enough : arraySize b.nbits < rounds) :
    ∃ s, skipWords rounds b a reads = some s := by
  have stops : ∃ t : Nat × List Nat, whileLoop
      (fun s : Nat × List Nat => b.array s.1 == 0#32 && decide (s.1 < arraySize b.nbits))
      (fun s => (s.1 + 1, s.1 :: s.2)) rounds (a, reads) = some t := by
    apply whileLoop_ends (fun m s => arraySize b.nbits - s.1 ≤ m) ?_ (Nat.sub_le _ _) enough
    intro m s bound goes
    simp only [Bool.and_eq_true, beq_iff_eq, decide_eq_true_eq] at goes
    exact ⟨m - 1, by omega, by simp only; omega⟩
  obtain ⟨t, stopped⟩ := stops
  exact ⟨(t.1, t.1 :: t.2), by simp only [skipWords, stopped, Option.map_some]⟩

structure FfbsInv (b : Cbitmap) (s : FfbsState) : Prop where
  bound : s.aEntry ≤ arraySize b.nbits
  zero : ∀ j, j < s.aEntry → b.array j = 0#32
  read : ∀ i ∈ s.reads, i < arraySize b.nbits
  bit : s.bit = -1#32 ∨
    s.aEntry < arraySize b.nbits ∧ ∃ r, b.NextBit 0 r ∧ s.bit = BitVec.ofNat 32 r

theorem FfbsInv.round {s : FfbsState} (inv : FfbsInv b s) (inside : s.aEntry < arraySize b.nbits) :
    b.array s.aEntry = 0#32 ∧ ffbsRound b s = ⟨s.aEntry + 1, s.bit, s.aEntry :: s.reads⟩ ∨
      ∃ r, b.NextBit 0 r ∧ ffbsRound b s = ⟨s.aEntry, BitVec.ofNat 32 r, s.aEntry :: s.reads⟩ := by
  by_cases zero : b.array s.aEntry = 0#32
  · exact .inl ⟨zero, by simp only [ffbsRound, zero, ↓reduceIte]⟩
  · right
    obtain ⟨k, low⟩ := lowestBit_exists zero
    have next := Cbitmap.NextBit.of_word (Nat.zero_le _) inside (fun j _ below => inv.zero j below) low
    refine ⟨32 * s.aEntry + k, next, ?_⟩
    have sum : BitVec.ofInt 32 (k : Int) + BitVec.ofNat 32 (s.aEntry * bitsPerWord) =
        BitVec.ofNat 32 (32 * s.aEntry + k) := by
      rw [BitVec.ofInt_natCast, ← BitVec.ofNat_add]
      congr 1
      unfold bitsPerWord
      omega
    simp only [ffbsRound, zero, ↓reduceIte, ffs_lowest low, sum]

theorem FfbsInv.step {s : FfbsState} (inv : FfbsInv b s) (none : s.bit = -1#32)
    (inside : s.aEntry < arraySize b.nbits) : FfbsInv b (ffbsRound b s) := by
  have read : ∀ i ∈ s.aEntry :: s.reads, i < arraySize b.nbits := by
    intro i member
    rcases List.mem_cons.mp member with rfl | earlier
    · exact inside
    · exact inv.read i earlier
  rcases inv.round inside with ⟨zero, same⟩ | ⟨r, next, same⟩
  · rw [same]
    have further : ∀ j, j < s.aEntry + 1 → b.array j = 0#32 := by
      intro j below
      by_cases last : j = s.aEntry
      · rw [last]
        exact zero
      · exact inv.zero j (by omega)
    exact ⟨inside, further, read, .inl none⟩
  · rw [same]
    exact ⟨inv.bound, inv.zero, read, .inr ⟨inside, r, next, rfl⟩⟩

theorem ffbsInv_start : FfbsInv b ⟨0, -1#32, []⟩ :=
  ⟨Nat.zero_le _, fun _ below => absurd below (Nat.not_lt_zero _), fun _ member => absurd member List.not_mem_nil, .inl rfl⟩

theorem findfbsCbitmap_spec {v : Int} {reads : List Nat} (found : findfbsCbitmap rounds b = some (v, reads)) :
    (∀ i ∈ reads, i < arraySize b.nbits) ∧
      ((∀ r, ¬b.Raw r) ∧ v = -1 ∨ ∃ r, b.NextBit 0 r ∧ r ≠ 2 ^ 32 - 1 ∧ v = (BitVec.ofNat 32 r).toInt) := by
  obtain ⟨s, stopped, same⟩ := Option.map_eq_some_iff.mp found
  cases same
  obtain ⟨inv, stop⟩ := whileLoop_keeps (FfbsInv b) (by
    intro s inv goes
    simp only [Bool.and_eq_true, beq_iff_eq, decide_eq_true_eq] at goes
    exact inv.step goes.1 goes.2) ffbsInv_start stopped
  refine ⟨inv.read, ?_⟩
  rcases inv.bit with none | ⟨inside, r, next, here⟩
  · left
    have through : arraySize b.nbits ≤ s.aEntry := by
      simp only [none, BEq.rfl, Bool.true_and, decide_eq_false_iff_not] at stop
      omega
    have all : ∀ r, 32 * 0 ≤ r → ¬b.Raw r := not_raw_of_zero fun j _ below => inv.zero j (by omega)
    exact ⟨fun r => all r (Nat.zero_le _), by rw [none]; rfl⟩
  · right
    refine ⟨r, next, ?_, by rw [here]⟩
    intro top
    -- the loop would go on for ever
    have looks : s.bit = -1#32 := by rw [here, ofNat_eq_top next.1.lt, top]
    simp [looks, inside] at stop

/-- The search ends unless it finds the bit whose number looks like -1. -/
theorem findfbsCbitmap_ends (other : ∀ r, b.NextBit 0 r → r ≠ 2 ^ 32 - 1)
    (enough : 2 * arraySize b.nbits + 1 < rounds) : ∃ s, findfbsCbitmap rounds b = some s := by
  have stops : ∃ s, whileLoop (fun s => s.bit == -1#32 && decide (s.aEntry < arraySize b.nbits))
      (ffbsRound b) rounds ⟨0, -1#32, []⟩ = some s := by
    apply whileLoop_ends
      (fun m s => FfbsInv b s ∧ 2 * (arraySize b.nbits - s.aEntry) + (if s.bit = -1#32 then 1 else 0) ≤ m)
      ?_ ⟨ffbsInv_start, Nat.le_refl _⟩ enough
    rintro m s ⟨inv, bound⟩ goes
    simp only [Bool.and_eq_true, beq_iff_eq, decide_eq_true_eq] at goes
    have next := inv.step goes.1 goes.2
    rw [if_pos goes.1] at bound
    refine ⟨m - 1, by omega, next, ?_⟩
    rcases inv.round goes.2 with ⟨_, same⟩ | ⟨r, first, same⟩
    · rw [same, goes.1]
      simp only [↓reduceIte]
      omega
    · have apart : BitVec.ofNat 32 r ≠ -1#32 := fun top => other r first ((ofNat_eq_top first.1.lt).mp top)
      rw [same]
      simp only [apart, ↓reduceIte]
      omega
  obtain ⟨s, stopped⟩ := stops
  exact ⟨(s.bit.toInt, s.reads), by simp only [findfbsCbitmap, stopped, Option.map_some]⟩

theorem sdiv_low {q : Nat} (small : q < 2 ^ 31) :
    ((BitVec.ofNat 32 q).sdiv (BitVec.ofNat 32 bitsPerWord)).toNat = q / 32 := by
  have plus : (BitVec.ofNat 32 q).msb = false := by
    rw [BitVec.msb_eq_decide, BitVec.toNat_ofNat, decide_eq_false_iff_not]
    omega
  have plus' : (32#32).msb = false := rfl
  have word : q % 2 ^ 32 = q := Nat.mod_eq_of_lt (by omega)
  simp only [BitVec.sdiv_eq, plus, plus', BitVec.udiv_eq, BitVec.toNat_udiv, BitVec.toNat_ofNat, bitsPerWord, word]

theorem srem_low {q : Nat} (small : q < 2 ^ 31) :
    (BitVec.ofNat 32 q).srem (BitVec.ofNat 32 bitsPerWord) = BitVec.ofNat 32 (q % 32) := by
  have plus : (BitVec.ofNat 32 q).msb = false := by
    rw [BitVec.msb_eq_decide, BitVec.toNat_ofNat, decide_eq_false_iff_not]
    omega
  have plus' : (32#32).msb = false := rfl
  have word : q % 2 ^ 32 = q := Nat.mod_eq_of_lt (by omega)
  have rest : q % 32 % 2 ^ 32 = q % 32 := Nat.mod_eq_of_lt (by omega)
  apply BitVec.eq_of_toNat_eq
  simp only [BitVec.srem_eq, plus, plus', BitVec.toNat_umod, BitVec.toNat_ofNat, bitsPerWord, word, rest]

theorem ofInt_next (p : Nat) : BitVec.ofInt 32 (p : Int) + 1#32 = BitVec.ofNat 32 (p + 1) := by
  rw [BitVec.ofInt_natCast, BitVec.ofNat_add]

theorem findnbsCbitmap_done {p : Nat} (word : p + 1 < 2 ^ 32) (past : b.nbits ≤ p + 1) :
    findnbsCbitmap rounds b p = some (-1, []) := by
  simp only [findnbsCbitmap, ofInt_next, BitVec.toNat_ofNat, Nat.mod_eq_of_lt word, ge_iff_le, past, ↓reduceIte]

theorem findnbsCbitmap_eq {p : Nat} (small : p + 1 < 2 ^ 31) (inside : p + 1 < b.nbits) :
    findnbsCbitmap rounds b p =
      let a := (p + 1) / 32
      let m := (p + 1) % 32
      let reads := if m ≠ 0 then [a] else []
      if m ≠ 0 ∧ b.array a >>> m ≠ 0#32 then
        (finish rounds (BitVec.ofNat 32 m) a (b.array a >>> m)).map fun next => (next, reads)
      else fromNextWord rounds b a reads := by
  have value : (BitVec.ofNat 32 (p + 1)).toNat = p + 1 := by
    rw [BitVec.toNat_ofNat]
    omega
  have bit : (BitVec.ofNat 32 ((p + 1) % 32)).toNat = (p + 1) % 32 := by
    rw [BitVec.toNat_ofNat]
    omega
  have aligned : BitVec.ofNat 32 ((p + 1) % 32) ≠ 0#32 ↔ (p + 1) % 32 ≠ 0 := by
    rw [ne_eq, ← BitVec.toNat_inj, bit]
    rfl
  have before : ¬b.nbits ≤ p + 1 := by omega
  simp only [findnbsCbitmap, ofInt_next, value, sdiv_low small, srem_low small, bit, aligned,
    ge_iff_le, before, ↓reduceIte]

theorem arraySize_le (b : Cbitmap) : arraySize b.nbits ≤ 2 ^ 27 := by
  have small := b.small
  rw [arraySize_eq]
  omega

theorem fromNextWord_spec {a : Nat} {reads seen : List Nat} {v : Int} (inside : a < arraySize b.nbits)
    (found : fromNextWord rounds b a reads = some (v, seen)) :
    (∃ r, b.NextBit (32 * (a + 1)) r ∧ v = (BitVec.ofNat 32 r).toInt ∧
        ∀ i ∈ seen, i ∈ reads ∨ i < arraySize b.nbits) ∨
      (∀ r, 32 * (a + 1) ≤ r → ¬b.Raw r) ∧ ∃ i ∈ seen, arraySize b.nbits ≤ i := by
  have bound := arraySize_le b
  have entry : (a + 1) % 2 ^ 32 = a + 1 := Nat.mod_eq_of_lt (by omega)
  unfold fromNextWord at found
  rw [entry] at found
  split at found
  · cases found
  · rename_i c read skipped
    obtain ⟨after, _, zero, last, early, stop⟩ := skipWords_spec skipped
    split at found
    · rename_i beyond
      cases found
      refine .inr ⟨fun r onward => ?_, c, last, beyond⟩
      exact not_raw_of_zero (fun j least below => zero j least (by omega)) r onward
    · rename_i within
      have here : c < arraySize b.nbits := by omega
      obtain ⟨k, low⟩ := lowestBit_exists (stop here)
      obtain ⟨next, done, same⟩ := Option.map_eq_some_iff.mp found
      cases same
      refine .inl ⟨32 * c + k, .of_word after here zero low, ?_, ?_⟩
      · rw [finish_spec low done, BitVec.zero_add]
      · intro i member
        rcases List.mem_cons.mp member with rfl | earlier
        · exact .inr here
        · exact (early i earlier).imp_right fun le => lt_of_le_of_lt le here

theorem fromNextWord_ends {a : Nat} {reads : List Nat} (enough : arraySize b.nbits + 32 ≤ rounds) :
    ∃ s, fromNextWord rounds b a reads = some s := by
  unfold fromNextWord
  split
  · rename_i none
    obtain ⟨s, some⟩ := skipWords_ends (by omega : arraySize b.nbits < rounds)
    rw [none] at some
    cases some
  · rename_i c read skipped
    obtain ⟨_, _, _, _, _, stop⟩ := skipWords_spec skipped
    split
    · exact ⟨_, rfl⟩
    · rename_i within
      obtain ⟨k, low⟩ := lowestBit_exists (stop (by omega))
      obtain ⟨v, done⟩ := finish_ends low (by omega : 32 ≤ rounds)
      exact ⟨_, by rw [done]; rfl⟩

theorem fromNextWord_far {a : Nat} {reads seen : List Nat} {v : Int}
    (far : arraySize b.nbits ≤ (a + 1) % 2 ^ 32) (found : fromNextWord rounds b a reads = some (v, seen)) :
    ∃ i ∈ seen, arraySize b.nbits ≤ i := by
  unfold fromNextWord at found
  split at found
  · cases found
  · rename_i c read skipped
    obtain ⟨after, _, _, last, _, _⟩ := skipWords_spec skipped
    rw [if_pos (le_trans far after)] at found
    cases found
    exact ⟨c, last, le_trans far after⟩

def nextStart (q : Nat) : Nat := if q % 32 = 0 then q + 32 else q

theorem nextStart_le (q : Nat) : nextStart q ≤ 32 * (q / 32 + 1) := by
  unfold nextStart
  split
  · omega
  · omega

theorem Cbitmap.Raw.past {q x : Nat} (clear : ¬(q % 32 ≠ 0 ∧ b.array (q / 32) >>> (q % 32) ≠ 0#32))
    (raw : b.Raw x) (after : nextStart q ≤ x) : 32 * (q / 32 + 1) ≤ x := by
  unfold nextStart at after
  split at after
  · omega
  · rename_i partly
    by_contra less
    have none : b.array (q / 32) >>> (q % 32) = 0#32 := by
      by_contra some
      exact clear ⟨partly, some⟩
    have bit := congrArg (fun w : Word => w.getLsbD (x % 32 - q % 32)) none
    have back : q % 32 + (x % 32 - q % 32) = x % 32 := by omega
    have word : x / 32 = q / 32 := by omega
    simp only [BitVec.getLsbD_ushiftRight, back, BitVec.getLsbD_zero] at bit
    have set := raw.2
    rw [word, bit] at set
    cases set

theorem Cbitmap.NextBit.of_shifted {a m k : Nat} (inside : a < arraySize b.nbits) (below : m < 32)
    (low : LowestBit (b.array a >>> m) k) : b.NextBit (32 * a + m) (32 * a + m + k) := by
  have set := low.2.1
  rw [BitVec.getLsbD_ushiftRight] at set
  have high : m + k < 32 := by
    by_contra out
    rw [BitVec.getLsbD_of_ge _ _ (by omega)] at set
    cases set
  have word : (32 * a + m + k) / 32 = a := by omega
  have bit : (32 * a + m + k) % 32 = m + k := by omega
  refine ⟨⟨by rw [word]; exact inside, by rw [word, bit]; exact set⟩, by omega, ?_⟩
  intro x raw after
  by_contra less
  have here : x / 32 = a := by omega
  have clear := low.2.2 (x % 32 - m) (by omega)
  have back : m + (x % 32 - m) = x % 32 := by omega
  rw [BitVec.getLsbD_ushiftRight, back] at clear
  have also := raw.2
  rw [here, clear] at also
  cases also

theorem findnbsCbitmap_spec {p : Nat} (small : p + 1 < 2 ^ 31) (inside : p + 1 < b.nbits) {v : Int}
    {reads : List Nat} (found : findnbsCbitmap rounds b p = some (v, reads)) :
    (∃ r, b.NextBit (nextStart (p + 1)) r ∧ v = (BitVec.ofNat 32 r).toInt ∧ ∀ i ∈ reads, i < arraySize b.nbits) ∨
      ((∀ r, nextStart (p + 1) ≤ r → ¬b.Raw r) ∧ ∃ i ∈ reads, arraySize b.nbits ≤ i) := by
  have entry : (p + 1) / 32 < arraySize b.nbits := by
    rw [arraySize_eq]
    omega
  have parts : 32 * ((p + 1) / 32) + (p + 1) % 32 = p + 1 := Nat.div_add_mod _ _
  rw [findnbsCbitmap_eq small inside] at found
  simp only at found
  split at found
  · rename_i here
    obtain ⟨k, low⟩ := lowestBit_exists here.2
    obtain ⟨next, done, same⟩ := Option.map_eq_some_iff.mp found
    cases same
    have start : nextStart (p + 1) = 32 * ((p + 1) / 32) + (p + 1) % 32 := by
      rw [parts, nextStart, if_neg here.1]
    have first : b.NextBit (nextStart (p + 1)) (32 * ((p + 1) / 32) + (p + 1) % 32 + k) := by
      rw [start]
      exact .of_shifted entry (Nat.mod_lt _ (by decide)) low
    have value := finish_spec low done
    have sum : (p + 1) % 32 + (32 * ((p + 1) / 32) + k) = 32 * ((p + 1) / 32) + (p + 1) % 32 + k := by omega
    rw [← BitVec.ofNat_add, sum] at value
    refine .inl ⟨_, first, value, ?_⟩
    intro i member
    rw [if_pos here.1, List.mem_singleton] at member
    rw [member]
    exact entry
  · rename_i clear
    rcases fromNextWord_spec entry found with ⟨r, next, value, read⟩ | ⟨none, outside⟩
    · refine .inl ⟨r, ⟨next.1, le_trans (nextStart_le _) next.2.1, ?_⟩, value, ?_⟩
      · exact fun x raw onward => next.2.2 x raw (raw.past clear onward)
      · intro i member
        rcases read i member with first | within
        · split at first
          · rw [List.mem_singleton.mp first]
            exact entry
          · cases first
        · exact within
    · exact .inr ⟨fun r onward raw => none r (raw.past clear onward) raw, outside⟩

theorem findnbsCbitmap_ends {p : Nat} (small : p + 1 < 2 ^ 31) (enough : arraySize b.nbits + 32 ≤ rounds) :
    ∃ s, findnbsCbitmap rounds b p = some s := by
  by_cases past : b.nbits ≤ p + 1
  · exact ⟨_, findnbsCbitmap_done (by omega) past⟩
  rw [findnbsCbitmap_eq small (Nat.lt_of_not_le past)]
  simp only
  split
  · rename_i here
    obtain ⟨k, low⟩ := lowestBit_exists here.2
    obtain ⟨v, done⟩ := finish_ends low (by omega : 32 ≤ rounds)
    exact ⟨_, by rw [done]; rfl⟩
  · exact fromNextWord_ends enough

/-- After bit 2^31 - 1 the `int` wraps, and the search starts far behind the bitmap. -/
theorem findnbsCbitmap_wraps (large : 2 ^ 31 < b.nbits) {v : Int} {reads : List Nat}
    (found : findnbsCbitmap rounds b (2 ^ 31 - 1 : Nat) = some (v, reads)) :
    ∃ i ∈ reads, arraySize b.nbits ≤ i := by
  have bound := arraySize_le b
  have next : BitVec.ofInt 32 ((2 ^ 31 - 1 : Nat) : Int) + 1#32 = BitVec.ofNat 32 (2 ^ 31) := by decide
  have entry : ((BitVec.ofNat 32 (2 ^ 31)).sdiv (BitVec.ofNat 32 bitsPerWord)).toNat = 2 ^ 32 - 2 ^ 26 := by decide
  have bit : (BitVec.ofNat 32 (2 ^ 31)).srem (BitVec.ofNat 32 bitsPerWord) = 0#32 := by decide
  have value : (BitVec.ofNat 32 (2 ^ 31)).toNat = 2 ^ 31 := by decide
  have before : ¬b.nbits ≤ 2 ^ 31 := by omega
  simp only [findnbsCbitmap, next, entry, bit, value, ge_iff_le, before, ↓reduceIte, ne_eq, not_true_eq_false,
    false_and] at found
  exact fromNextWord_far (by omega) found

end
end L4ertl
