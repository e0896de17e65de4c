import L4ertl.Core.CbitmapSearch

/-!
Going through a bitmap with findfbs_cbitmap and findnbs_cbitmap. A step from the
last bit of a word passes over the whole next word, and a search that finds no
further bit reads the word behind the bitmap before it says so. The walk comes
out right when neither happens.
-/
namespace L4ertl
open Scan

namespace Cbitmap

def has (b : Cbitmap) (x : Nat) : Bool := isbitsetCbitmap b x != 0

def members (b : Cbitmap) : List Int := ((List.range b.nbits).filter b.has).map Int.ofNat

def Enumerates (b : Cbitmap) : Prop :=
  ∃ rounds reads, bitsFound rounds b = some (b.members, reads) ∧ ∀ i ∈ reads, i < arraySize b.nbits

def Clear (b : Cbitmap) : Prop := ∀ i, i < arraySize b.nbits → b.array i = 0#32

/-- The bits that a walk from `p` on meets are such that it can go on from them. -/
structure WalkableFrom (b : Cbitmap) (p : Nat) : Prop where
  int : ∀ x, p ≤ x → b.has x = true → x < 2 ^ 31 ∧ (x + 1 = 2 ^ 31 → b.nbits = 2 ^ 31)
  kept : ∀ x y, p ≤ x → b.has x = true → (x + 1) % 32 = 0 → x < y → y ≤ x + 32 → b.has y = false
  ends : b.has (b.nbits - 1) = true ∨ b.NextBit b.nbits (2 ^ 32 - 1)

section
variable {b : Cbitmap} {rounds : Nat}

theorem has_iff {x : Nat} : b.has x = true ↔ x < b.nbits ∧ b.Raw x := by
  have bit : (b.array (x / 32) &&& 1#32 <<< (x % 32)).toInt ≠ 0 ↔ (b.array (x / 32)).getLsbD (x % 32) = true := by
    rw [← isbitset_eq _ (Nat.mod_lt x (by decide)), isbitset, bne_iff_ne, ne_eq, ne_eq,
      ← BitVec.toInt_inj]
    rfl
  simp only [has, isbitsetCbitmap, bne_iff_ne, bitsPerWord]
  split
  · rename_i past
    constructor
    · exact fun zero => absurd rfl zero
    · intro set
      omega
  · rename_i inside
    rw [bit]
    constructor
    · intro set
      refine ⟨by omega, ?_, set⟩
      rw [arraySize_eq]
      omega
    · exact fun set => set.2.2

theorem has_lt {x : Nat} (set : b.has x = true) : x < b.nbits := (has_iff.mp set).1

theorem has_past {x : Nat} (past : b.nbits ≤ x) : b.has x = false := by
  by_contra set
  exact absurd (has_lt (by simpa using set)) (Nat.not_lt.mpr past)

theorem members_eq (b : Cbitmap) : b.members = (membersFrom b.has b.nbits 0).map Int.ofNat := by
  rw [members, membersFrom, List.range_eq_range', Nat.sub_zero]

theorem clear_iff : b.Clear ↔ ∀ r, ¬b.Raw r := by
  constructor
  · rintro zero r ⟨inside, set⟩
    rw [zero _ inside] at set
    simp at set
  · intro none i inside
    rw [word_zero_iff]
    intro j below
    by_contra set
    have word : (32 * i + j) / 32 = i := by omega
    have bit : (32 * i + j) % 32 = j := by omega
    exact none (32 * i + j) ⟨by rw [word]; exact inside, by rw [word, bit]; simpa using set⟩

theorem WalkableFrom.gap {p : Nat} (walk : b.WalkableFrom p) (here : b.has p = true) {y : Nat}
    (after : p < y) (before : y < nextStart (p + 1)) : b.has y = false := by
  unfold nextStart at before
  split at before
  · rename_i last
    exact walk.kept p y (Nat.le_refl p) here last after (by omega)
  · omega

theorem WalkableFrom.later {p r : Nat} (walk : b.WalkableFrom p) (after : p ≤ r) : b.WalkableFrom r :=
  ⟨fun x from' => walk.int x (by omega), fun x y from' => walk.kept x y (by omega), walk.ends⟩

theorem WalkableFrom.further {p : Nat} (walk : b.WalkableFrom p) (here : b.has p = true)
    (inside : p + 1 < b.nbits) : ∃ r, nextStart (p + 1) ≤ r ∧ b.Raw r := by
  rcases walk.ends with last | behind
  · refine ⟨b.nbits - 1, ?_, (has_iff.mp last).2⟩
    by_contra before
    rw [walk.gap here (by omega) (by omega)] at last
    cases last
  · have low := (walk.int p (Nat.le_refl p) here).1
    refine ⟨2 ^ 32 - 1, ?_, behind.1⟩
    unfold nextStart
    split
    · omega
    · omega

theorem nextBits_end (calls : Nat) : nextBits b rounds (calls + 1) (-1) = some ([], []) := by
  simp only [nextBits, ↓reduceIte]

theorem nextBits_step {calls p : Nat} {v : Int} {reads : List Nat}
    (next : findnbsCbitmap rounds b p = some (v, reads)) :
    nextBits b rounds (calls + 1) p =
      (nextBits b rounds calls v).map fun (bits, more) => ((p : Int) :: bits, reads ++ more) := by
  have real : (p : Int) ≠ -1 := by omega
  simp only [nextBits, real, ↓reduceIte, next]

theorem nextStart_ge (q : Nat) : q ≤ nextStart q := by
  unfold nextStart
  split
  · omega
  · omega

theorem NextBit.members {p r : Nat} (here : p < b.nbits) (next : b.NextBit (nextStart (p + 1)) r)
    (gap : ∀ y, p < y → y < nextStart (p + 1) → b.has y = false) :
    (b.has r = true ∧ membersFrom b.has b.nbits (p + 1) = r :: membersFrom b.has b.nbits (r + 1)) ∨
      (b.NextBit b.nbits r ∧ membersFrom b.has b.nbits (p + 1) = []) := by
  have start := nextStart_ge (p + 1)
  have after := next.2.1
  have none : ∀ y, p + 1 ≤ y → y < r → b.has y = false := by
    intro y later before
    by_cases reached : nextStart (p + 1) ≤ y
    · by_contra set
      have also := next.2.2 y (has_iff.mp (by simpa using set)).2 reached
      omega
    · exact gap y later (by omega)
  by_cases inside : r < b.nbits
  · have here : b.has r = true := has_iff.mpr ⟨inside, next.1⟩
    exact .inl ⟨here, membersFrom_cons (by omega) inside here none⟩
  · right
    refine ⟨⟨next.1, by omega, fun x raw behind => ?_⟩, ?_⟩
    · by_cases reached : nextStart (p + 1) ≤ x
      · exact next.2.2 x raw reached
      · -- the word passed over would be the last one, and `r` behind it
        have word := next.1.1
        rw [arraySize_eq] at word
        by_cases aligned : (p + 1) % 32 = 0
        · rw [nextStart, if_pos aligned] at reached after
          omega
        · rw [nextStart, if_neg aligned] at reached
          omega
    · rw [membersFrom_nil_iff]
      intro y later below
      exact none y later (by omega)

theorem WalkableFrom.step {p : Nat} (walk : b.WalkableFrom p) (here : b.has p = true)
    (enough : arraySize b.nbits + 32 ≤ rounds) :
    ∃ v reads, findnbsCbitmap rounds b p = some (v, reads) ∧ (∀ i ∈ reads, i < arraySize b.nbits) ∧
      (v = -1 ∧ membersFrom b.has b.nbits (p + 1) = [] ∨
        ∃ r : Nat, v = r ∧ p < r ∧ b.has r = true ∧
          membersFrom b.has b.nbits (p + 1) = r :: membersFrom b.has b.nbits (r + 1)) := by
  have inside := has_lt here
  have size := b.small
  obtain ⟨low, wraps⟩ := walk.int p (Nat.le_refl p) here
  by_cases last : b.nbits ≤ p + 1
  · have none : membersFrom b.has b.nbits (p + 1) = [] := by
      rw [membersFrom_nil_iff]
      intro x after below
      omega
    exact ⟨-1, [], findnbsCbitmap_done (by omega) last, fun i member => absurd member List.not_mem_nil,
      .inl ⟨rfl, none⟩⟩
  · have small : p + 1 < 2 ^ 31 := by omega
    obtain ⟨⟨v, reads⟩, found⟩ := findnbsCbitmap_ends (b := b) small enough
    obtain ⟨x, onward, raw⟩ := walk.further here (by omega)
    rcases findnbsCbitmap_spec small (by omega) found with ⟨r, next, value, read⟩ | ⟨none, _⟩
    · refine ⟨v, reads, found, read, ?_⟩
      have after := le_trans (nextStart_ge (p + 1)) next.2.1
      rcases next.members inside fun y => walk.gap here with ⟨set, members⟩ | ⟨behind, none⟩
      · have below := (walk.int r (by omega) set).1
        exact .inr ⟨r, by rw [value, toInt_low below], by omega, set, members⟩
      · left
        refine ⟨?_, none⟩
        rcases walk.ends with set | top
        · rw [membersFrom_nil_iff.mp none (b.nbits - 1) (by omega) (by omega)] at set
          cases set
        · have bound := next.1.lt
          have above := top.2.2 r next.1 behind.2.1
          have same : r = 2 ^ 32 - 1 := by omega
          rw [value, same]
          decide
    · exact absurd raw (none x onward)

theorem WalkableFrom.walk {p calls : Nat} (walk : b.WalkableFrom p) (here : b.has p = true)
    (enough : arraySize b.nbits + 32 ≤ rounds) (many : b.nbits - p < calls) :
    ∃ reads, nextBits b rounds calls p =
        some ((p :: membersFrom b.has b.nbits (p + 1)).map Int.ofNat, reads) ∧
      ∀ i ∈ reads, i < arraySize b.nbits := by
  induction calls generalizing p with
  | zero => omega
  | succ calls ih =>
    have inside := has_lt here
    obtain ⟨v, reads, found, read, ⟨rfl, none⟩ | ⟨r, rfl, after, set, members⟩⟩ := walk.step here enough
    · obtain ⟨calls, rfl⟩ : ∃ more, calls = more + 1 := ⟨calls - 1, by omega⟩
      refine ⟨reads ++ [], ?_, ?_⟩
      · rw [nextBits_step found, nextBits_end, none]
        rfl
      · rw [List.append_nil]
        exact read
    · obtain ⟨more, rest, reads'⟩ := ih (walk.later (by omega)) set (by omega)
      refine ⟨reads ++ more, ?_, ?_⟩
      · rw [nextBits_step found, rest, members]
        rfl
      · intro i member
        rcases List.mem_append.mp member with first | later
        · exact read i first
        · exact reads' i later

theorem nextBits_first {calls : Nat} {v : Int} {bits : List Int} {reads : List Nat}
    (run : nextBits b rounds calls v = some (bits, reads)) :
    v = -1 ∧ bits = [] ∨ ∃ rest, bits = v :: rest := by
  cases calls with
  | zero => cases run
  | succ calls =>
    by_cases stop : v = -1
    · rw [stop, nextBits_end] at run
      cases run
      exact .inl ⟨stop, rfl⟩
    · simp only [nextBits, stop, ↓reduceIte] at run
      split at run
      · cases run
      · obtain ⟨⟨rest, more⟩, _, same⟩ := Option.map_eq_some_iff.mp run
        cases same
        exact .inr ⟨rest, rfl⟩

theorem toInt_eq_top {r : Nat} (word : r < 2 ^ 32) (top : (BitVec.ofNat 32 r).toInt = -1) : r = 2 ^ 32 - 1 := by
  by_cases low : r < 2 ^ 31
  · rw [toInt_low low] at top
    omega
  · rw [toInt_high (by omega) word] at top
    omega

theorem toInt_eq_nat {r y : Nat} (word : r < 2 ^ 32) (same : (BitVec.ofNat 32 r).toInt = (y : Int)) :
    r = y ∧ r < 2 ^ 31 := by
  by_cases low : r < 2 ^ 31
  · rw [toInt_low low] at same
    omega
  · rw [toInt_high (by omega) word] at same
    omega

theorem WalkableFrom.extend {p r : Nat} (walk : b.WalkableFrom r) (low : p + 1 < 2 ^ 31)
    (found : nextStart (p + 1) ≤ r) (gap : ∀ y, p + 1 ≤ y → y < r → b.has y = false) : b.WalkableFrom p := by
  have onward : ∀ x, p ≤ x → b.has x = true → x = p ∨ r ≤ x := by
    intro x after set
    by_contra between
    rw [gap x (by omega) (by omega)] at set
    cases set
  refine ⟨?_, ?_, walk.ends⟩
  · intro x after set
    rcases onward x after set with rfl | later
    · omega
    · exact walk.int x later set
  · intro x y after set last past near
    rcases onward x after set with rfl | later
    · apply gap y (by omega)
      rw [nextStart, if_pos last] at found
      omega
    · exact walk.kept x y later set last past near

theorem walkableFrom_end {r : Nat} (behind : b.NextBit b.nbits (2 ^ 32 - 1)) (past : b.nbits ≤ r) :
    b.WalkableFrom r := by
  refine ⟨?_, ?_, .inr behind⟩
  · intro x after set
    have below := has_lt set
    omega
  · intro x y after set
    have below := has_lt set
    omega

theorem walkableFrom_last {p : Nat} (here : b.has p = true) (low : p < 2 ^ 31) (last : b.nbits ≤ p + 1) :
    b.WalkableFrom p := by
  have inside := has_lt here
  have top : p = b.nbits - 1 := by omega
  refine ⟨?_, fun x y after _ _ further _ => has_past (by omega), .inl (top ▸ here)⟩
  intro x _ set
  have below := has_lt set
  omega

theorem walkableFrom_stopped {p : Nat} (here : p < b.nbits) (low : p + 1 < 2 ^ 31)
    (next : b.NextBit (nextStart (p + 1)) (2 ^ 32 - 1)) (none : membersFrom b.has b.nbits (p + 1) = []) :
    b.WalkableFrom p := by
  have gap : ∀ y, p < y → b.has y = false := by
    intro y after
    by_cases inside : y < b.nbits
    · exact membersFrom_nil_iff.mp none y after inside
    · exact has_past (Nat.not_lt.mp inside)
  rcases next.members here fun y after _ => gap y after with ⟨set, _⟩ | ⟨behind, _⟩
  · rw [gap _ (by omega)] at set
    cases set
  · exact (walkableFrom_end behind behind.2.1).extend low next.2.1 fun y after _ => gap y (by omega)

theorem nextBits_members {p r calls : Nat} {reads : List Nat} (word : r < 2 ^ 32)
    (run : nextBits b rounds calls (BitVec.ofNat 32 r).toInt =
      some ((membersFrom b.has b.nbits p).map Int.ofNat, reads)) :
    r = 2 ^ 32 - 1 ∧ membersFrom b.has b.nbits p = [] ∨
      r < 2 ^ 31 ∧ b.has r = true ∧ (∀ y, p ≤ y → y < r → b.has y = false) ∧
        membersFrom b.has b.nbits p = r :: membersFrom b.has b.nbits (r + 1) := by
  rcases nextBits_first run with ⟨stop, none⟩ | ⟨tail, cons⟩
  · exact .inl ⟨toInt_eq_top word stop, List.map_eq_nil_iff.mp none⟩
  · cases members : membersFrom b.has b.nbits p with
    | nil => simp [members] at cons
    | cons y rest =>
      obtain ⟨_, _, set, gap, tail'⟩ := membersFrom_head members
      rw [members, List.map_cons] at cons
      obtain ⟨rfl, below⟩ := toInt_eq_nat word (List.cons.inj cons).1.symm
      exact .inr ⟨below, set, gap, by rw [tail']⟩

theorem walkableFrom_of_walk {p calls : Nat} {reads : List Nat} (here : b.has p = true) (low : p < 2 ^ 31)
    (run : nextBits b rounds calls p =
      some ((p :: membersFrom b.has b.nbits (p + 1)).map Int.ofNat, reads))
    (read : ∀ i ∈ reads, i < arraySize b.nbits) : b.WalkableFrom p := by
  induction calls generalizing p reads with
  | zero => cases run
  | succ calls ih =>
    have inside := has_lt here
    have real : (p : Int) ≠ -1 := by omega
    cases found : findnbsCbitmap rounds b p with
    | none => simp [nextBits, real, found] at run
    | some s =>
      obtain ⟨v, first⟩ := s
      rw [nextBits_step found] at run
      obtain ⟨⟨rest, more⟩, onward, same⟩ := Option.map_eq_some_iff.mp run
      simp only [List.map_cons, Prod.mk.injEq, List.cons.injEq] at same
      obtain ⟨⟨_, rfl⟩, rfl⟩ := same
      have read' : ∀ i ∈ first, i < arraySize b.nbits := fun i member => read i (List.mem_append_left _ member)
      by_cases last : b.nbits ≤ p + 1
      · exact walkableFrom_last here low last
      · have small : p + 1 < 2 ^ 31 := by
          by_contra wraps
          have top : p = 2 ^ 31 - 1 := by omega
          rw [top] at found
          obtain ⟨i, member, far⟩ := findnbsCbitmap_wraps (by omega) found
          have near := read' i member
          omega
        rcases findnbsCbitmap_spec small (by omega) found with ⟨r, next, rfl, _⟩ | ⟨_, i, member, far⟩
        · rcases nextBits_members next.1.lt onward with ⟨rfl, none⟩ | ⟨below, set, gap, members⟩
          · exact walkableFrom_stopped inside small next none
          · rw [members, toInt_low below] at onward
            have walk := ih set below onward fun i member => read i (List.mem_append_right _ member)
            exact walk.extend small next.2.1 gap
        · have near := read' i member
          omega

theorem WalkableFrom.all {r : Nat} (walk : b.WalkableFrom r) (gap : ∀ y, 0 ≤ y → y < r → b.has y = false) :
    b.WalkableFrom 0 := by
  have after : ∀ x, b.has x = true → r ≤ x := by
    intro x set
    by_contra before
    rw [gap x (Nat.zero_le x) (by omega)] at set
    cases set
  exact ⟨fun x _ set => walk.int x (after x set) set, fun x y _ set => walk.kept x y (after x set) set, walk.ends⟩

theorem members_first {r : Nat} {rest : List Nat} (first : membersFrom b.has b.nbits 0 = r :: rest) :
    b.NextBit 0 r := by
  obtain ⟨_, inside, set, gap, _⟩ := membersFrom_head first
  refine ⟨(has_iff.mp set).2, Nat.zero_le r, fun x raw _ => ?_⟩
  by_contra before
  have also := has_iff.mpr ⟨by omega, raw⟩
  rw [gap x (Nat.zero_le x) (by omega)] at also
  cases also

theorem NextBit.unique {start r x : Nat} (one : b.NextBit start r) (two : b.NextBit start x) : r = x :=
  Nat.le_antisymm (one.2.2 x two.1 two.2.1) (two.2.2 r one.1 one.2.1)

theorem walkable_of_enumerates (right : b.Enumerates) (busy : ¬b.Clear) :
    (∃ x, b.has x = true) ∧ b.WalkableFrom 0 := by
  obtain ⟨rounds, reads, run, read⟩ := right
  unfold bitsFound at run
  split at run
  · cases run
  · rename_i first before found
    obtain ⟨⟨bits, more⟩, onward, same⟩ := Option.map_eq_some_iff.mp run
    cases same
    rcases (findfbsCbitmap_spec found).2 with ⟨none, _⟩ | ⟨r, next, apart, value⟩
    · exact absurd (clear_iff.mpr none) busy
    · rw [members_eq, value] at onward
      rcases nextBits_members next.1.lt onward with ⟨top, _⟩ | ⟨below, set, gap, members⟩
      · exact absurd top apart
      · rw [members, toInt_low below] at onward
        have walk := walkableFrom_of_walk set below onward fun i member => read i (List.mem_append_right _ member)
        exact ⟨⟨r, set⟩, walk.all gap⟩

theorem enumerates_of_clear (clear : b.Clear) : b.Enumerates := by
  have none := clear_iff.mp clear
  have enough : 2 * arraySize b.nbits + 1 < 2 * arraySize b.nbits + 2 := by omega
  obtain ⟨⟨v, reads⟩, found⟩ := findfbsCbitmap_ends (fun r next => absurd next.1 (none r)) enough
  obtain ⟨read, ⟨_, rfl⟩ | ⟨r, next, _⟩⟩ := findfbsCbitmap_spec found
  · have empty : membersFrom b.has b.nbits 0 = [] := by
      rw [membersFrom_nil_iff]
      intro x _ _
      by_contra set
      exact none x (has_iff.mp (by simpa using set)).2
    refine ⟨2 * arraySize b.nbits + 2, reads ++ [], ?_, by rw [List.append_nil]; exact read⟩
    simp only [bitsFound, found, nextBits_end, members_eq, empty]
    rfl
  · exact absurd next.1 (none r)

theorem enumerates_of_walkable {x : Nat} (some : b.has x = true) (walk : b.WalkableFrom 0) : b.Enumerates := by
  cases members : membersFrom b.has b.nbits 0 with
  | nil =>
    rw [membersFrom_nil_iff.mp members x (Nat.zero_le x) (has_lt some)] at some
    cases some
  | cons r rest =>
    obtain ⟨_, inside, set, gap, rfl⟩ := membersFrom_head members
    have next := members_first members
    have low := (walk.int r (Nat.zero_le r) set).1
    have other : ∀ y, b.NextBit 0 y → y ≠ 2 ^ 32 - 1 := by
      intro y also
      have same := next.unique also
      omega
    obtain ⟨R, room⟩ : ∃ R, R = 2 * arraySize b.nbits + b.nbits + 64 := ⟨_, rfl⟩
    obtain ⟨⟨v, reads⟩, found⟩ := findfbsCbitmap_ends other (by omega : 2 * arraySize b.nbits + 1 < R)
    obtain ⟨read, ⟨none, _⟩ | ⟨y, also, _, value⟩⟩ := findfbsCbitmap_spec found
    · exact absurd next.1 (none r)
    · rw [← next.unique also, toInt_low low] at value
      obtain ⟨more, run, read'⟩ := (walk.later (Nat.zero_le r)).walk set
        (by omega : arraySize b.nbits + 32 ≤ R) (by omega : b.nbits - r < R)
      refine ⟨R, reads ++ more, ?_, ?_⟩
      · simp only [bitsFound, found, value, run, members_eq, members]
        rfl
      · intro i member
        rcases List.mem_append.mp member with first | later
        · exact read i first
        · exact read' i later

theorem enumerates_iff (b : Cbitmap) :
    b.Enumerates ↔ b.Clear ∨ (∃ x, b.has x = true) ∧ b.WalkableFrom 0 := by
  constructor
  · intro right
    by_cases clear : b.Clear
    · exact .inl clear
    · exact .inr (walkable_of_enumerates right clear)
  · rintro (clear | ⟨⟨x, some⟩, walk⟩)
    · exact enumerates_of_clear clear
    · exact enumerates_of_walkable some walk

end

section
variable {b : Cbitmap} {p x : Nat}

/-- The bits of the last word behind the map are all set or all clear. -/
def Uniform (b : Cbitmap) : Prop :=
  (∀ x, b.nbits ≤ x → x / 32 < arraySize b.nbits → b.Raw x) ∨ ∀ x, b.nbits ≤ x → ¬b.Raw x

theorem raw_setbit (inside : p < b.nbits) : (setbitCbitmap b p).2.Raw x ↔ b.Raw x ∨ x = p := by
  have entry : p / 32 < arraySize b.nbits := by
    rw [arraySize_eq]
    omega
  have word := isbitset_setbit (b.array (p / 32)) (i := p % 32) (Nat.mod_lt x (by decide : 0 < 32))
  rw [isbitset_eq _ (Nat.mod_lt x (by decide)), isbitset_eq _ (Nat.mod_lt x (by decide)), setbit] at word
  simp only [Raw, setbitCbitmap, bitsPerWord, ge_iff_le, Nat.not_le.mpr inside, ↓reduceIte, Function.update_apply]
  split
  · rename_i here
    rw [here, word, Bool.or_eq_true, decide_eq_true_eq]
    have same : x % 32 = p % 32 ↔ x = p := by omega
    rw [same]
    simp only [entry, true_and]
  · rename_i other
    have apart : x ≠ p := by
      rintro rfl
      exact other rfl
    simp only [apart, or_false]

theorem raw_clearbit (inside : p < b.nbits) : (clearbitCbitmap b p).2.Raw x ↔ b.Raw x ∧ x ≠ p := by
  have word := isbitset_clearbit (b.array (p / 32)) (i := p % 32) (Nat.mod_lt x (by decide : 0 < 32))
  rw [isbitset_eq _ (Nat.mod_lt x (by decide)), isbitset_eq _ (Nat.mod_lt x (by decide)), clearbit] at word
  simp only [Raw, clearbitCbitmap, bitsPerWord, ge_iff_le, Nat.not_le.mpr inside, ↓reduceIte, Function.update_apply]
  split
  · rename_i here
    rw [here, word, Bool.and_eq_true, Bool.not_eq_true', decide_eq_false_iff_not]
    have same : x % 32 = p % 32 ↔ x = p := by omega
    rw [same, and_assoc]
  · rename_i other
    have apart : x ≠ p := by
      rintro rfl
      exact other rfl
    simp only [ne_eq, apart, not_false_eq_true, and_true]

theorem raw_set : (setCbitmap b).Raw x ↔ x / 32 < arraySize b.nbits := by
  simp only [Raw, setCbitmap, fillWords]
  constructor
  · exact And.left
  · intro inside
    rw [if_pos inside, BitVec.getLsbD_allOnes]
    exact ⟨inside, decide_eq_true (Nat.mod_lt x (by decide))⟩

theorem clear_clear (b : Cbitmap) : (clearCbitmap b).Clear := fun _ inside => if_pos inside

theorem clear_init (buffer : Nat → Word) (nbits : Nat) (small : nbits < 2 ^ 32) :
    (initCbitmap buffer nbits small).Clear := fun _ inside => if_pos inside

theorem uniform_of_clear (clear : b.Clear) : b.Uniform := .inr fun x _ => clear_iff.mp clear x

theorem run_nbits (c : CbitmapCall) : (c.run b).nbits = b.nbits := by
  cases c with
  | setbit p =>
    simp only [CbitmapCall.run, setbitCbitmap]
    split
    · rfl
    · rfl
  | clearbit p =>
    simp only [CbitmapCall.run, clearbitCbitmap]
    split
    · rfl
    · rfl
  | set => rfl
  | clear => rfl

theorem Uniform.of_same {w : Cbitmap} (uniform : b.Uniform) (size : w.nbits = b.nbits)
    (same : ∀ x, b.nbits ≤ x → (w.Raw x ↔ b.Raw x)) : w.Uniform := by
  unfold Uniform
  rw [size]
  rcases uniform with all | none
  · exact .inl fun x behind inside => (same x behind).mpr (all x behind inside)
  · exact .inr fun x behind raw => none x behind ((same x behind).mp raw)

theorem Uniform.run (uniform : b.Uniform) (c : CbitmapCall) : (c.run b).Uniform := by
  cases c with
  | setbit p =>
    apply uniform.of_same (run_nbits _)
    intro x behind
    by_cases inside : p < b.nbits
    · have apart : x ≠ p := by omega
      rw [CbitmapCall.run, raw_setbit inside]
      simp only [apart, or_false]
    · simp only [CbitmapCall.run, setbitCbitmap, ge_iff_le, Nat.not_lt.mp inside, ↓reduceIte]
  | clearbit p =>
    apply uniform.of_same (run_nbits _)
    intro x behind
    by_cases inside : p < b.nbits
    · have apart : x ≠ p := by omega
      rw [CbitmapCall.run, raw_clearbit inside]
      simp only [ne_eq, apart, not_false_eq_true, and_true]
    · simp only [CbitmapCall.run, clearbitCbitmap, ge_iff_le, Nat.not_lt.mp inside, ↓reduceIte]
  | set => exact .inl fun x _ inside => raw_set.mpr inside
  | clear => exact uniform_of_clear (clear_clear b)

theorem reached_uniform (calls : List CbitmapCall) (uniform : b.Uniform) :
    (calls.foldl CbitmapCall.run b).Uniform := by
  induction calls generalizing b with
  | nil => exact uniform
  | cons c calls ih => exact ih (uniform.run c)

theorem Uniform.top_iff (uniform : b.Uniform) :
    b.NextBit b.nbits (2 ^ 32 - 1) ↔ b.nbits = 2 ^ 32 - 1 ∧ b.Raw b.nbits := by
  have size := b.small
  constructor
  · intro next
    rcases uniform with all | none
    · have word := next.1.1
      have raw := all b.nbits (Nat.le_refl _) (by rw [arraySize_eq] at *; omega)
      have least := next.2.2 b.nbits raw (Nat.le_refl _)
      exact ⟨by omega, raw⟩
    · exact absurd next.1 (none _ next.2.1)
  · rintro ⟨same, raw⟩
    rw [same] at raw ⊢
    exact ⟨raw, Nat.le_refl _, fun x _ after => after⟩

end

/-- Where the last bit of a word is set, the next word holds none. -/
def Kept (b : Cbitmap) : Prop :=
  ∀ x y, b.has x = true → (x + 1) % 32 = 0 → x < y → y ≤ x + 32 → b.has y = false

theorem Uniform.walkable_iff {b : Cbitmap} (uniform : b.Uniform) :
    (∃ x, b.has x = true) ∧ b.WalkableFrom 0 ↔ b.Kept ∧ (b.nbits ≤ 2 ^ 31 ∧ b.has (b.nbits - 1) = true ∨
      (b.nbits = 2 ^ 32 - 1 ∧ b.Raw b.nbits) ∧ (∃ x, b.has x = true) ∧ ∀ x, b.has x = true → x + 1 < 2 ^ 31) := by
  constructor
  · rintro ⟨some, walk⟩
    refine ⟨fun x y => walk.kept x y (Nat.zero_le x), ?_⟩
    rcases walk.ends with last | top
    · have low := (walk.int _ (Nat.zero_le _) last).1
      exact .inl ⟨by omega, last⟩
    · have behind := uniform.top_iff.mp top
      refine .inr ⟨behind, some, fun x set => ?_⟩
      have low := walk.int x (Nat.zero_le x) set
      omega
  · rintro ⟨kept, ⟨low, last⟩ | ⟨behind, some, low⟩⟩
    · refine ⟨⟨_, last⟩, ?_, fun x y _ => kept x y, .inl last⟩
      intro x _ set
      have inside := has_lt set
      omega
    · refine ⟨some, ?_, fun x y _ => kept x y, .inr (uniform.top_iff.mpr behind)⟩
      intro x _ set
      have below := low x set
      omega

/-- Exactly when the walk through a bitmap that the calls made comes out right. -/
theorem walk_right_iff (buffer : Nat → Word) (nbits : Nat) (small : nbits < 2 ^ 32) (calls : List CbitmapCall) :
    let b := calls.foldl CbitmapCall.run (initCbitmap buffer nbits small)
    b.Enumerates ↔ b.Clear ∨ b.Kept ∧ (b.nbits ≤ 2 ^ 31 ∧ b.has (b.nbits - 1) = true ∨
      (b.nbits = 2 ^ 32 - 1 ∧ b.Raw b.nbits) ∧ (∃ x, b.has x = true) ∧ ∀ x, b.has x = true → x + 1 < 2 ^ 31) := by
  intro b
  have uniform : b.Uniform := reached_uniform calls (uniform_of_clear (clear_init buffer nbits small))
  rw [enumerates_iff, uniform.walkable_iff]

theorem walk_right_iff_last :
    ([.setbit 3, .setbit 39].foldl CbitmapCall.run (initCbitmap (fun _ => 7#32) 40 (by decide))).Enumerates := by
  apply (walk_right_iff (fun _ => 7#32) 40 (by decide) [.setbit 3, .setbit 39]).mpr
  refine .inr ⟨?_, .inl ⟨by decide, by decide⟩⟩
  intro x y set last _ _
  have inside : x < 40 := has_lt set
  have only : x = 31 := by omega
  rw [only] at set
  exact absurd set (by decide)

/-- Bits 31 and 32 of 64: the walk misses the second one and reads a third word. -/
theorem walk_passes_over :
    let b := [.setbit 31, .setbit 32].foldl CbitmapCall.run (initCbitmap (fun _ => 0#32) 64 (by decide))
    ¬b.Enumerates ∧ bitsFound 100 b = some ([31], [0, 2]) ∧ b.members = [31, 32] ∧ arraySize b.nbits = 2 := by
  intro b
  refine ⟨?_, by decide +kernel, by decide +kernel, by decide +kernel⟩
  rw [enumerates_iff]
  rintro (clear | ⟨_, walk⟩)
  · exact absurd (clear 0 (by decide)) (by decide)
  · have missed := walk.kept 31 32 (by decide) (by decide) (by decide) (by decide) (by decide)
    exact absurd missed (by decide)

end Cbitmap
end L4ertl
