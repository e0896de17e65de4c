import L4ertl.Core.TlsfPool
import L4ertl.Lib.Lts

/-!
Runs of the allocator. Between the calls the program writes what it likes into
the memory it holds. In every state of every run the pool is tiled by its
blocks and indexed, what the program holds are the used blocks, and once it
holds nothing the pool is back to the one block it started with.
-/
namespace L4ertl.Tlsf
open Lts

/-- The memory and what the program holds: each pointer with the size asked for. -/
structure Arena where
  mem : Mem
  live : List (Nat × Nat)

inductive HeapOp where
  | malloc (size : Nat)
  | free (ptr : Nat)
  | write (a : Nat) (v : Word)
  deriving DecidableEq

def Holds (live : List (Nat × Nat)) (a : Nat) : Prop := ∃ x ∈ live, x.1 ≤ a ∧ a < x.1 + x.2

instance (live : List (Nat × Nat)) (a : Nat) : Decidable (Holds live a) :=
  inferInstanceAs (Decidable (∃ x ∈ live, x.1 ≤ a ∧ a < x.1 + x.2))

def heapStep (pool : Nat) (s : Arena) : HeapOp → Option (Arena × List Nat)
  | .malloc size =>
    if size ≤ 2 ^ 29 then
      let r := mallocEx size pool s.mem
      some (⟨r.2, if r.1 = 0 then s.live else (r.1, size) :: s.live⟩, [r.1])
    else none
  | .free ptr =>
    if ptr ∈ s.live.map Prod.fst then
      some (⟨freeEx ptr pool s.mem, s.live.filter fun x => x.1 ≠ ptr⟩, [])
    else none
  | .write a v =>
    if a % 4 = 0 ∧ Holds s.live a then some (⟨store s.mem a v, s.live⟩, []) else none

structure Matches (bs : List Blk) (live : List (Nat × Nat)) : Prop where
  nodup : (live.map Prod.fst).Nodup
  used : ∀ x ∈ live, ∃ b s, x.1 = buffer b ∧ (⟨b, s, false⟩ : Blk) ∈ bs ∧ x.2 ≤ s
  all : ∀ b s, (⟨b, s, false⟩ : Blk) ∈ bs → ∃ n, (buffer b, n) ∈ live

structure Sound (pool e : Nat) (s : Arena) (bs : List Blk) (L : Lists) : Prop where
  heap : HeapAt pool e s.mem bs L
  held : Matches bs s.live

section
variable {pool e : Nat} {s t : Arena} {bs : List Blk} {L : Lists}

theorem buffer_inj {a b : Nat} (same : buffer a = buffer b) : a = b := by
  simp only [buffer] at same
  omega

theorem HeapAt.same_addr {m : Mem} (heap : HeapAt pool e m bs L) {x y : Blk} (hx : x ∈ bs) (hy : y ∈ bs)
    (same : x.addr = y.addr) : x = y := by
  have fitsX := (heap.tiled.bounds.2 x hx).2.2.next_ge
  have fitsY := (heap.tiled.bounds.2 y hy).2.2.next_ge
  rcases heap.tiled.apart hx hy with is | before | after
  · exact is
  · omega
  · omega

theorem hdrWord_inj {s t : Nat} {f f' g g' : Bool} (same : hdrWord s f g = hdrWord t f' g')
    (wholeS : s % 4 = 0) (wholeT : t % 4 = 0) (smallS : s < 2 ^ 32) (smallT : t < 2 ^ 32) : s = t ∧ f = f' := by
  constructor
  · have sizes := congrArg (fun w => (w &&& blockMask).toNat) same
    simp only [hdrWord_and_mask wholeS, hdrWord_and_mask wholeT, ofPtr, BitVec.toNat_ofNat,
      Nat.mod_eq_of_lt smallS, Nat.mod_eq_of_lt smallT] at sizes
    exact sizes
  · have flags := congrArg (fun w => w &&& freeBlock) same
    simp only [hdrWord_and_free wholeS, hdrWord_and_free wholeT] at flags
    have first := flags_ne_zero f false
    rw [flags, flags_ne_zero] at first
    simpa [eq_comm] using first

theorem Tiled.unique {m : Mem} {p : Option Nat} {a : Nat} {cs : List Blk} (first : Tiled m e p a bs)
    (second : Tiled m e p a cs) (top : e < 2 ^ 32) : bs = cs := by
  induction bs generalizing p a cs with
  | nil =>
    cases cs with
    | nil => rfl
    | cons y cs =>
      have bound := (second.bounds.2 y List.mem_cons_self).2.1
      have fits := second.2.1
      have least := fits.least
      simp only [Blk.next] at bound
      have sizes := (hdrWord_inj (first.joint.header.symm.trans second.joint.header) rfl fits.whole
        (by decide) (by simp only [headSize]; omega)).1
      simp only [minBlockSize, headSize] at least sizes
      omega
  | cons x bs ih =>
    have boundX := (first.bounds.2 x List.mem_cons_self).2.1
    have fitsX := first.2.1
    simp only [Blk.next] at boundX
    cases cs with
    | nil =>
      have least := fitsX.least
      have sizes := (hdrWord_inj (first.joint.header.symm.trans second.joint.header) fitsX.whole rfl
        (by simp only [headSize]; omega) (by decide)).1
      simp only [minBlockSize, headSize] at least sizes
      omega
    | cons y cs =>
      have boundY := (second.bounds.2 y List.mem_cons_self).2.1
      have fitsY := second.2.1
      simp only [Blk.next] at boundY
      obtain ⟨size, free⟩ := hdrWord_inj (first.joint.header.symm.trans second.joint.header) fitsX.whole
        fitsY.whole (by simp only [headSize]; omega) (by simp only [headSize]; omega)
      have same : x = y := by
        obtain ⟨ax, sx, fx⟩ := x
        obtain ⟨ay, sy, fy⟩ := y
        have startX := first.1
        have startY := second.1
        simp only [headSize, headFree] at *
        rw [size, free, startX, startY]
      subst same
      rw [ih first.2.2.2.2 second.2.2.2.2]

def Allocated (pool e : Nat) (m : Mem) (x : Blk) : Prop :=
  x.free = false ∧ ∃ bs L, HeapAt pool e m bs L ∧ x ∈ bs

theorem HeapAt.allocated {m : Mem} (bounded : Bounded pool e) (heap : HeapAt pool e m bs L) (x : Blk) :
    Allocated pool e m x ↔ x.free = false ∧ x ∈ bs := by
  have space := bounded.space
  constructor
  · rintro ⟨used, cs, K, other, member⟩
    rw [heap.tiled.unique other.tiled (by omega)]
    exact ⟨used, member⟩
  · rintro ⟨used, member⟩
    exact ⟨used, bs, L, heap, member⟩

theorem HeapAt.scribble {m w : Mem} (heap : HeapAt pool e m bs L) {b r : Nat}
    (member : (⟨b, r, false⟩ : Blk) ∈ bs)
    (same : ∀ a, a < buffer b ∨ buffer b + r ≤ a → w a = m a) : HeapAt pool e w bs L := by
  have block := heap.tiled.bounds.2 _ member
  simp only [firstBlock_eq, buffer] at block same
  refine ⟨heap.tiled.congr ?_, heap.indexed.congr ?_ ?_, heap.filed⟩
  · intro x _ _ unowned
    apply same
    have not := unowned _ member
    simp only [Blk.Owns, Bool.false_eq_true, ↓reduceIte, buffer] at not
    omega
  · intro a control
    rw [sizeofTlsf_eq] at control
    exact same a (by omega)
  · intro c _ y inList
    obtain ⟨t, there, _⟩ := (heap.filed c y).mp inList
    have fits := (heap.tiled.bounds.2 _ there).2.2.next_ge
    simp only [freePrev, freeNext]
    rcases heap.tiled.apart member there with is | before | after
    · cases is
    · simp only [Blk.next] at before fits
      exact ⟨same _ (by omega), same _ (by omega)⟩
    · simp only [Blk.next] at after fits
      exact ⟨same _ (by omega), same _ (by omega)⟩

theorem HeapAt.scribble_kept {m w : Mem} (heap : HeapAt pool e m bs L) {b r : Nat}
    (member : (⟨b, r, false⟩ : Blk) ∈ bs)
    (same : ∀ a, a < buffer b ∨ buffer b + r ≤ a → w a = m a) {cs : List Blk}
    (others : ∀ x ∈ cs, x.free = false → x ∈ bs ∧ x.addr ≠ b) : Kept cs m w := by
  intro x there used a low high
  obtain ⟨inside, other⟩ := others x there used
  apply same
  simp only [buffer] at *
  rcases heap.tiled.apart inside member with is | before | after
  · exact absurd (congrArg Blk.addr is) other
  · simp only [Blk.next] at before
    omega
  · simp only [Blk.next] at after
    omega

theorem write_sound (sound : Sound pool e s bs L) {a : Nat} {v : Word} {out : List Nat}
    (step : heapStep pool s (.write a v) = some (t, out)) : Sound pool e t bs L := by
  simp only [heapStep] at step
  split at step
  · rename_i held
    obtain ⟨_, x, member, low, high⟩ := held
    cases step
    obtain ⟨b, r, is, block, fits⟩ := sound.held.used x member
    exact ⟨sound.heap.scribble block fun y outside => store_other _ _ (by omega), sound.held⟩
  · cases step

def BytesKept (s t : Arena) : Prop :=
  ∀ x ∈ s.live, x ∈ t.live → ∀ a, x.1 ≤ a → a < x.1 + x.2 → t.mem a = s.mem a

structure Served (pool top : Nat) (live : List (Nat × Nat)) (n q : Nat) : Prop where
  aligned : q % 4 = 0
  inside : pool + sizeofTlsf ≤ q ∧ q + n ≤ top
  apart : ∀ x ∈ live, x.1 + x.2 ≤ q ∨ q + n ≤ x.1

theorem Run.aligned {m : Mem} {p q : Option Nat} {a z : Nat} (run : Run m p a bs q z) (start : a % 4 = 0) :
    ∀ b ∈ bs, b.addr % 4 = 0 := by
  induction bs generalizing p a with
  | nil => simp
  | cons x bs ih =>
    obtain ⟨first, fits, _, _, tail⟩ := run
    have whole := fits.whole
    intro b member
    rcases List.mem_cons.mp member with rfl | later
    · rw [first]
      exact start
    · apply ih tail _ b later
      simp only [Blk.next]
      omega

theorem HeapAt.buffer_whole {m : Mem} (heap : HeapAt pool e m bs L) (aligned : pool % 4 = 0) {x : Blk}
    (member : x ∈ bs) : buffer x.addr % 4 = 0 := by
  obtain ⟨q, run⟩ := heap.tiled.run
  have four := run.aligned (by rw [firstBlock_eq]; omega) x member
  simp only [buffer]
  omega

theorem Handed.used {m w : Mem} {n d : Nat} {cs : List Blk} (heap : HeapAt pool e m bs L)
    (handed : Handed pool e m w bs n d cs) :
    ∃ r, n ≤ r ∧ (∀ x : Blk, x.free = false → (x ∈ cs ↔ x = ⟨d, r, false⟩ ∨ x ∈ bs)) ∧
      (∀ x ∈ bs, x.free = false → x.addr ≠ d) ∧ Kept bs m w := by
  obtain ⟨⟨pre, s, post, r, tail, before, after, behind, fits, kept⟩, _⟩ := handed
  have was : (⟨d, s, true⟩ : Blk) ∈ bs := by simp [before]
  have elsewhere : ∀ x ∈ bs, x.free = false → x.addr ≠ d := by
    intro x member used is
    rw [heap.same_addr member was is] at used
    cases used
  have rest : ∀ x : Blk, x.free = false → (x ∈ bs ↔ x ∈ pre ++ post) := by
    intro x used
    have other : x ≠ ⟨d, s, true⟩ := fun is => by rw [is] at used; cases used
    rw [before]
    simp [other]
  refine ⟨r, fits, ?_, elsewhere, fun x member used => kept x ((rest x used).mp member) used⟩
  intro x used
  rw [rest x used, after]
  rcases behind with rfl | ⟨y, free, rfl⟩
  · simp only [List.mem_append, List.mem_cons]
    tauto
  · have apart : x ≠ y := fun is => by rw [is, free] at used; cases used
    simp only [List.mem_append, List.mem_cons]
    tauto

theorem Handed.scribble {m w v : Mem} {n b : Nat} {cs : List Blk} (heap : HeapAt pool e m bs L)
    (handed : Handed pool e m w bs n b cs)
    (same : ∀ a, a < buffer b ∨ buffer b + n ≤ a → v a = w a) : Handed pool e m v bs n b cs := by
  obtain ⟨_, _, used, elsewhere, _⟩ := handed.used heap
  obtain ⟨⟨pre, s, post, r, tail, before, after, behind, fits, kept⟩, K, now⟩ := handed
  have member : (⟨b, r, false⟩ : Blk) ∈ cs := by simp [after]
  have outside : ∀ a, a < buffer b ∨ buffer b + r ≤ a → v a = w a := fun a away => same a (by omega)
  refine ⟨⟨pre, s, post, r, tail, before, after, behind, fits, kept.trans ?_⟩, K,
    now.scribble member outside⟩
  apply now.scribble_kept member outside
  intro x there isUsed
  have old : x ∈ bs := by
    rw [before]
    simp only [List.mem_append, List.mem_cons] at *
    tauto
  exact ⟨(used x isUsed).mpr (Or.inr old), elsewhere x old isUsed⟩

theorem HeapAt.served {m : Mem} (heap : HeapAt pool e m bs L) (aligned : pool % 4 = 0) {b r n : Nat}
    (member : (⟨b, r, false⟩ : Blk) ∈ bs) (fits : n ≤ r) {live : List (Nat × Nat)}
    (others : ∀ x ∈ live, ∃ b' s', x.1 = buffer b' ∧ b' ≠ b ∧ (⟨b', s', false⟩ : Blk) ∈ bs ∧ x.2 ≤ s') :
    Served pool (e + 4) live n (buffer b) := by
  have block := heap.tiled.bounds.2 _ member
  simp only [firstBlock_eq, Blk.next] at block
  constructor
  · exact heap.buffer_whole aligned member
  · simp only [buffer, sizeofTlsf_eq]
    omega
  · intro x held
    obtain ⟨b', s', is, other, there, size⟩ := others x held
    rcases heap.tiled.apart member there with same | before | after
    · exact absurd (congrArg Blk.addr same).symm other
    · right
      simp only [Blk.next, buffer] at *
      omega
    · left
      simp only [Blk.next, buffer] at *
      omega

structure CallOk (pool e : Nat) (s t : Arena) (op : HeapOp) (out : List Nat) : Prop where
  sound : ∃ bs L, Sound pool e t bs L
  kept : BytesKept s t
  served : ∀ n, op = .malloc n → ∃ q, out = [q] ∧
    (q ≠ 0 → Served pool (e + 4) s.live n q ∧ t.live = (q, n) :: s.live)

theorem HeapAt.freed {m : Mem} (bounded : Bounded pool e) (heap : HeapAt pool e m bs L) {b s : Nat}
    (member : (⟨b, s, false⟩ : Blk) ∈ bs) :
    ∃ cs K, HeapAt pool e (freeEx (buffer b) pool m) cs K ∧
      (∃ x ∈ cs, x.free = true ∧ x.addr ≤ b ∧ b + 4 + s ≤ x.next) ∧
      (∀ x : Blk, x.free = false → (x ∈ cs ↔ x ∈ bs ∧ x.addr ≠ b)) ∧
      ∀ x ∈ bs, x.free = false → x.addr ≠ b → ∀ a, buffer x.addr ≤ a → a < buffer x.addr + x.size →
        freeEx (buffer b) pool m a = m a := by
  obtain ⟨pre, post, shape⟩ := List.append_of_mem member
  subst shape
  obtain ⟨cs, K, after, cover, used, kept⟩ := freeEx_spec bounded heap
  have rest : ∀ x : Blk, x ∈ pre ++ post ↔ x ∈ pre ++ ⟨b, s, false⟩ :: post ∧ x.addr ≠ b := by
    intro x
    constructor
    · intro there
      obtain ⟨prev, gap, _⟩ := heap.gap
      have far := gap.blocks x there
      have size := far.1.next_ge
      refine ⟨?_, by omega⟩
      simp only [List.mem_append, List.mem_cons] at *
      tauto
    · rintro ⟨there, other⟩
      have notThis : x ≠ ⟨b, s, false⟩ := fun is => other (by rw [is])
      simpa [notThis] using there
  refine ⟨cs, K, after, cover, fun x isUsed => (used x isUsed).trans (rest x), ?_⟩
  intro x there isUsed other
  exact kept x ((rest x).mpr ⟨there, other⟩) isUsed

theorem malloc_ok (bounded : Bounded pool e) (aligned : pool % 4 = 0) (sound : Sound pool e s bs L)
    {n : Nat} {out : List Nat} (step : heapStep pool s (.malloc n) = some (t, out)) :
    CallOk pool e s t (.malloc n) out := by
  simp only [heapStep] at step
  split at step
  · rename_i small
    cases step
    rcases mallocEx_spec bounded sound.heap (le_trans small (by decide)) with failed | ⟨b, cs, result, handed⟩
    · refine ⟨⟨bs, L, ?_⟩, ?_, ?_⟩
      · simp only [failed, ↓reduceIte]
        exact sound
      · intro x _ _ a _ _
        simp only [failed]
      · rintro k is
        exact ⟨_, rfl, fun some => absurd (by rw [failed]) some⟩
    · obtain ⟨r, fits, used, elsewhere, kept⟩ := handed.used sound.heap
      obtain ⟨_, K, heap⟩ := handed
      have nonzero : (mallocEx n pool s.mem).1 ≠ 0 := by
        rw [result]
        simp [buffer]
      have now : (⟨b, r, false⟩ : Blk) ∈ cs := (used _ rfl).mpr (Or.inl rfl)
      -- the other used blocks were used before, and they are not at `b`
      have heldAt : ∀ x ∈ s.live, ∃ b' s', x.1 = buffer b' ∧ b' ≠ b ∧ (⟨b', s', false⟩ : Blk) ∈ cs ∧
          (⟨b', s', false⟩ : Blk) ∈ bs ∧ x.2 ≤ s' := by
        intro x held
        obtain ⟨b', s', is, member, size⟩ := sound.held.used x held
        exact ⟨b', s', is, elsewhere _ member rfl, (used _ rfl).mpr (Or.inr member), member, size⟩
      refine ⟨⟨cs, K, heap, ?_⟩, ?_, ?_⟩
      · simp only [nonzero, ↓reduceIte]
        rw [result]
        constructor
        · rw [List.map_cons, List.nodup_cons]
          refine ⟨?_, sound.held.nodup⟩
          intro member
          obtain ⟨x, held, is⟩ := List.mem_map.mp member
          obtain ⟨b', _, at_, apart, _⟩ := heldAt x held
          exact apart (buffer_inj (at_.symm.trans is))
        · intro x member
          rcases List.mem_cons.mp member with rfl | held
          · exact ⟨b, r, rfl, now, fits⟩
          · obtain ⟨b', s', is, _, there, _, size⟩ := heldAt x held
            exact ⟨b', s', is, there, size⟩
        · intro b' s' member
          rcases (used _ rfl).mp member with same | old
          · cases same
            exact ⟨n, by simp⟩
          · obtain ⟨k, held⟩ := sound.held.all b' s' old
            exact ⟨k, List.mem_cons_of_mem _ held⟩
      · intro x held _ a low high
        obtain ⟨b', s', is, _, _, inside, size⟩ := heldAt x held
        exact kept _ inside rfl a (by simp only at *; omega) (by simp only at *; omega)
      · rintro k is
        cases is
        refine ⟨_, rfl, fun _ => ⟨?_, by simp only [nonzero, ↓reduceIte]⟩⟩
        rw [result]
        apply heap.served aligned now fits
        intro x held
        obtain ⟨b', s', is, apart, there, _, size⟩ := heldAt x held
        exact ⟨b', s', is, apart, there, size⟩
  · cases step

theorem free_ok (bounded : Bounded pool e) (sound : Sound pool e s bs L) {p : Nat} {out : List Nat}
    (step : heapStep pool s (.free p) = some (t, out)) : CallOk pool e s t (.free p) out := by
  simp only [heapStep] at step
  split at step
  · rename_i held
    cases step
    obtain ⟨x, member, is⟩ := List.mem_map.mp held
    obtain ⟨b, r, at_, block, _⟩ := sound.held.used x member
    have pointer : p = buffer b := is.symm.trans at_
    subst pointer
    obtain ⟨cs, K, after, _, used, kept⟩ := sound.heap.freed bounded block
    -- what the program keeps lies in another block
    have heldAt : ∀ y ∈ s.live.filter (fun x => x.1 ≠ buffer b), ∃ b' s', y.1 = buffer b' ∧
        (⟨b', s', false⟩ : Blk) ∈ bs ∧ b' ≠ b ∧ y.2 ≤ s' := by
      intro y keeps
      obtain ⟨there, other⟩ := List.mem_filter.mp keeps
      obtain ⟨b', s', is', inside, size⟩ := sound.held.used y there
      have notThis : b' ≠ b := fun same => by simp [is', same] at other
      exact ⟨b', s', is', inside, notThis, size⟩
    refine ⟨⟨cs, K, after, ?_⟩, ?_, fun n is => by cases is⟩
    · constructor
      · exact (sound.held.nodup.sublist (List.Sublist.map _ List.filter_sublist))
      · intro y keeps
        obtain ⟨b', s', is', inside, notThis, size⟩ := heldAt y keeps
        exact ⟨b', s', is', (used _ rfl).mpr ⟨inside, notThis⟩, size⟩
      · intro b' s' there
        obtain ⟨inside, notThis⟩ := (used _ rfl).mp there
        obtain ⟨k, held'⟩ := sound.held.all b' s' inside
        refine ⟨k, List.mem_filter.mpr ⟨held', ?_⟩⟩
        have other : buffer b' ≠ buffer b := fun same => notThis (buffer_inj same)
        simpa using other
    · intro y _ keeps a low high
      obtain ⟨b', s', is', inside, notThis, size⟩ := heldAt y keeps
      exact kept _ inside rfl notThis a (by simp only at *; omega) (by simp only at *; omega)
  · cases step

end

section
variable {pool size : Nat} {before : Mem}

theorem step_sound {e : Nat} {s t : Arena} {op : HeapOp} {out : List Nat} (bounded : Bounded pool e)
    (aligned : pool % 4 = 0) (sound : ∃ bs L, Sound pool e s bs L)
    (step : heapStep pool s op = some (t, out)) : ∃ bs L, Sound pool e t bs L := by
  obtain ⟨bs, L, sound⟩ := sound
  cases op with
  | malloc n => exact (malloc_ok bounded aligned sound step).sound
  | free p => exact (free_ok bounded sound step).sound
  | write a v => exact ⟨bs, L, write_sound sound step⟩

structure HeapOk (pool size : Nat) (s : Arena) : Prop where
  sound : ∃ bs L, Sound pool (sentinel pool size) s bs L
  held : ∀ x ∈ s.live, x.1 % 4 = 0 ∧ pool + sizeofTlsf ≤ x.1 ∧ x.1 + x.2 ≤ pool + size
  apart : s.live.Pairwise fun x y => x.1 + x.2 ≤ y.1 ∨ y.1 + y.2 ≤ x.1

theorem Matches.pairwise {bs : List Blk} {live : List (Nat × Nat)} (held : Matches bs live)
    (separate : ∀ x ∈ live, ∀ y ∈ live, x.1 ≠ y.1 → x.1 + x.2 ≤ y.1 ∨ y.1 + y.2 ≤ x.1) :
    live.Pairwise fun x y => x.1 + x.2 ≤ y.1 ∨ y.1 + y.2 ≤ x.1 := by
  have distinct := List.pairwise_map.mp held.nodup
  exact distinct.imp_of_mem fun hx hy other => separate _ hx _ hy other

theorem Sound.ok {s : Arena} {bs : List Blk} {L : Lists} (low : sizeofTlsf + 136 ≤ size)
    (high : size < 2 ^ 30 + 3184) (space : pool + size ≤ 2 ^ 32) (aligned : pool % 4 = 0)
    (sound : Sound pool (sentinel pool size) s bs L) : HeapOk pool size s := by
  have top := (sentinel_bounded low high space).2
  -- every piece of memory held, seen against all others
  have served : ∀ x ∈ s.live, Served pool (sentinel pool size + 4)
      (s.live.filter fun y => y.1 ≠ x.1) x.2 x.1 := by
    intro x held
    obtain ⟨b, r, is, member, fits⟩ := sound.held.used x held
    rw [is]
    apply sound.heap.served aligned member fits
    intro y there
    obtain ⟨held', other⟩ := List.mem_filter.mp there
    obtain ⟨b', r', is', member', fits'⟩ := sound.held.used y held'
    exact ⟨b', r', is', fun same => by simp [is', same] at other, member', fits'⟩
  refine ⟨⟨bs, L, sound⟩, ?_, sound.held.pairwise ?_⟩
  · intro x held
    have piece := served x held
    exact ⟨piece.aligned, piece.inside.1, by have := piece.inside.2; omega⟩
  · intro x hx y hy other
    have piece := (served y hy).apart x (List.mem_filter.mpr ⟨hx, by simpa using other⟩)
    exact piece

theorem HeapAt.all_free {m : Mem} {bs : List Blk} {L : Lists} (low : sizeofTlsf + 136 ≤ size)
    (high : size < 2 ^ 30 + 3184) (heap : HeapAt pool (sentinel pool size) m bs L)
    (free : ∀ x ∈ bs, x.free = true) : bs = [⟨firstBlock pool, poolBytes size, true⟩] := by
  have bytes := poolBytes_bounds low high
  have tiled := heap.tiled
  cases bs with
  | nil =>
    have last := tiled.1
    simp only [sentinel] at last
    omega
  | cons x rest =>
    obtain ⟨start, _, _, _, tail⟩ := tiled
    have isFree := free x (by simp)
    cases rest with
    | nil =>
      have last := tail.1
      simp only [Blk.next, sentinel] at last
      have shape : x = ⟨x.addr, x.size, x.free⟩ := rfl
      rw [shape, isFree, start, show x.size = poolBytes size by omega]
    | cons y rest =>
      -- the second block would be a free one behind a free one
      have used := tail.2.2.1 (by simp [Blk.link, isFree])
      rw [free y (by simp)] at used
      cases used

theorem list_single {l : List Nat} {x : Nat} (nodup : l.Nodup) (only : ∀ y ∈ l, y = x) :
    l = if x ∈ l then [x] else [] := by
  cases l with
  | nil => rfl
  | cons y l =>
    have isX := only y (by simp)
    subst isX
    have empty : l = [] := by
      rw [List.eq_nil_iff_forall_not_mem]
      intro z member
      have same := only z (by simp [member])
      exact (List.nodup_cons.mp nodup).1 (same ▸ member)
    simp [empty]

theorem HeapAt.lists_eq {m w : Mem} {L K : Lists} {e b r : Nat} (first : HeapAt pool e m [⟨b, r, true⟩] L)
    (second : HeapAt pool e w [⟨b, r, true⟩] K) {c : Cell} (inside : c.Inside) : L c = K c := by
  have only : ∀ M : Lists, Filed [⟨b, r, true⟩] M → ∀ y, y ∈ M c ↔ y = b ∧ cellOf r = c := by
    intro M filed y
    rw [filed c y]
    simp only [List.mem_singleton, Blk.mk.injEq, and_true]
    constructor
    · rintro ⟨t, ⟨is, rfl⟩, cell⟩
      exact ⟨is, cell⟩
    · rintro ⟨is, cell⟩
      exact ⟨r, ⟨is, rfl⟩, cell⟩
  rw [list_single (first.indexed.listed.nodup c inside)
      (fun y member => ((only L first.filed y).mp member).1),
    list_single (second.indexed.listed.nodup c inside)
      (fun y member => ((only K second.filed y).mp member).1)]
  simp only [only L first.filed, only K second.filed]

theorem ptrOf_inj {v w : Word} (same : ptrOf v = ptrOf w) : v = w := by
  by_cases zero : v = 0#32
  · rw [zero, ptrOf_zero] at same
    rw [zero, ptrOf_eq_none.mp same.symm]
  · have value := ptrOf_eq_some.mp (same.symm.trans (ptrOf_eq_some.mpr ⟨zero, rfl⟩))
    exact (BitVec.eq_of_toNat_eq value.2).symm

structure SameIndex (pool : Nat) (m w : Mem) : Prop where
  sb : w (sbBitmap pool) = m (sbBitmap pool)
  fl : w (flBitmap pool) = m (flBitmap pool)
  sl : ∀ fl, fl < realFli → w (slBitmap pool fl) = m (slBitmap pool fl)
  heads : ∀ c : Cell, c.Inside → w (c.head pool) = m (c.head pool)

theorem Indexed.same {m w : Mem} {L K : Lists} (first : Indexed pool m L) (second : Indexed pool w K)
    (lists : ∀ c : Cell, c.Inside → L c = K c) : SameIndex pool m w := by
  constructor
  · apply word_ext
    intro j inside
    rw [first.marked.small j inside, second.marked.small j inside, lists (.small j) inside]
  · apply word_ext
    intro j inside
    rw [first.marked.row j inside, second.marked.row j inside]
    constructor
    · rintro ⟨row, k, column, some⟩
      exact ⟨row, k, column, by rwa [lists (.large j k) ⟨row, column⟩]⟩
    · rintro ⟨row, k, column, some⟩
      exact ⟨row, k, column, by rwa [← lists (.large j k) ⟨row, column⟩]⟩
  · intro fl row
    apply word_ext
    intro j inside
    rw [first.marked.column fl j row inside, second.marked.column fl j row inside,
      lists (.large fl j) ⟨row, inside⟩]
  · intro c inside
    apply ptrOf_inj
    rw [Intrusive.segment_head (first.listed.chain c inside),
      Intrusive.segment_head (second.listed.chain c inside), lists c inside]

section
variable (low : sizeofTlsf + 136 ≤ size) (high : size ≤ 2 ^ 30) (space : pool + size ≤ 2 ^ 32)
  (accepted : (initMemoryPool size pool before).1 ≠ -1)
include low high space accepted

theorem reached_sound {ops : List HeapOp} {s : Arena} {es : List Nat}
    (run : exec (heapStep pool) ⟨(initMemoryPool size pool before).2, []⟩ ops = some (s, es)) :
    ∃ bs L, Sound pool (sentinel pool size) s bs L := by
  obtain ⟨nonnull, aligned⟩ := initMemoryPool_accepted accepted
  rw [initMemoryPool_eq low (by omega) space nonnull aligned] at run
  refine exec_always (fun s => ∃ bs L, Sound pool (sentinel pool size) s bs L) ?_ ops ?_ run
  · intro s op t out sound step
    exact step_sound (sentinel_bounded low (by omega) space).1 aligned sound step
  · refine ⟨_, _, readyPool_heap _ low (by omega) space aligned, by simp, by simp, ?_⟩
    intro b r member
    simp at member

/-- In every state of every run the heap is in order, and the next call of
    `malloc_ex` or `free_ex` changes nothing the program keeps, a result that is
    not NULL being aligned memory of the pool that nothing held overlaps. -/
theorem tlsf_heap_safe (ops : List HeapOp) (s : Arena) (es : List Nat)
    (run : exec (heapStep pool) ⟨(initMemoryPool size pool before).2, []⟩ ops = some (s, es)) :
    HeapOk pool size s ∧ ∀ op t out, heapStep pool s op = some (t, out) → (∀ a v, op ≠ .write a v) →
      BytesKept s t ∧ ∀ n, op = .malloc n → ∃ q, out = [q] ∧
        (q ≠ 0 → Served pool (pool + size) s.live n q ∧ t.live = (q, n) :: s.live) := by
  obtain ⟨_, aligned⟩ := initMemoryPool_accepted accepted
  obtain ⟨bounded, top⟩ := sentinel_bounded low (by omega) space
  obtain ⟨bs, L, sound⟩ := reached_sound low high space accepted run
  refine ⟨sound.ok low (by omega) space aligned, ?_⟩
  intro op t out step call
  have ok : CallOk pool (sentinel pool size) s t op out := by
    cases op with
    | malloc n => exact malloc_ok bounded aligned sound step
    | free p => exact free_ok bounded sound step
    | write a v => exact absurd rfl (call a v)
  refine ⟨ok.kept, ?_⟩
  intro n is
  obtain ⟨q, result, served⟩ := ok.served n is
  refine ⟨q, result, fun some => ?_⟩
  obtain ⟨fresh, live⟩ := served some
  exact ⟨⟨fresh.aligned, ⟨fresh.inside.1, by have := fresh.inside.2; omega⟩, fresh.apart⟩, live⟩

omit low high space accepted in
theorem tlsf_heap_safe_three : ∃ s es, exec (heapStep 4096) ⟨(initMemoryPool 4176 4096 fun _ => 0#32).2, []⟩
      [.malloc 40, .malloc 100, .write 7276 5#32, .free 7276] = some (s, es) ∧ es = [7276, 7320] ∧
    HeapOk 4096 4176 s := by
  have taken : (exec (heapStep 4096) ⟨(initMemoryPool 4176 4096 fun _ => 0#32).2, []⟩
      [.malloc 40, .malloc 100, .write 7276 5#32, .free 7276]).map Prod.snd = some [7276, 7320] := by
    decide +kernel
  obtain ⟨⟨s, es⟩, run, is⟩ := Option.map_eq_some_iff.mp taken
  exact ⟨s, es, run, is,
    (tlsf_heap_safe (by decide) (by decide) (by decide) (by decide +kernel) _ s es run).1⟩

/-- Once everything is freed, in whatever order, the pool is the one free block
    it was after `init_memory_pool`, with the same bitmaps and list heads. -/
theorem tlsf_coalesces (ops : List HeapOp) (s : Arena) (es : List Nat)
    (run : exec (heapStep pool) ⟨(initMemoryPool size pool before).2, []⟩ ops = some (s, es))
    (freed : s.live = []) :
    ∃ r : Nat, (initMemoryPool size pool before).1 = r ∧
      (∃ L, HeapAt pool (sentinel pool size) s.mem [⟨firstBlock pool, r, true⟩] L) ∧
      SameIndex pool (initMemoryPool size pool before).2 s.mem := by
  obtain ⟨nonnull, aligned⟩ := initMemoryPool_accepted accepted
  obtain ⟨bs, L, sound⟩ := reached_sound low high space accepted run
  have free : ∀ x ∈ bs, x.free = true := by
    intro x member
    cases is : x.free with
    | true => rfl
    | false =>
      have shape : x = ⟨x.addr, x.size, false⟩ := by rw [← is]
      obtain ⟨n, held⟩ := sound.held.all x.addr x.size (shape ▸ member)
      rw [freed] at held
      cases held
  have heap := sound.heap
  rw [heap.all_free low (by omega) free] at heap
  have start := readyPool_heap before low (by omega) space aligned
  rw [initMemoryPool_eq low (by omega) space nonnull aligned]
  exact ⟨poolBytes size, rfl, ⟨L, heap⟩,
    start.indexed.same heap.indexed fun c inside => start.lists_eq heap inside⟩

omit low high space accepted in
theorem tlsf_coalesces_three : ∃ s es, exec (heapStep 4096) ⟨(initMemoryPool 4176 4096 fun _ => 0#32).2, []⟩
      [.malloc 40, .malloc 100, .malloc 230, .free 7320, .malloc 50, .free 7424, .free 7276, .free 7320] =
        some (s, es) ∧ s.live = [] ∧
    SameIndex 4096 (initMemoryPool 4176 4096 fun _ => 0#32).2 s.mem := by
  have taken : (exec (heapStep 4096) ⟨(initMemoryPool 4176 4096 fun _ => 0#32).2, []⟩
      [.malloc 40, .malloc 100, .malloc 230, .free 7320, .malloc 50, .free 7424, .free 7276, .free 7320]).map
        (fun r => r.1.live) = some [] := by
    decide +kernel
  obtain ⟨⟨s, es⟩, run, freed⟩ := Option.map_eq_some_iff.mp taken
  obtain ⟨_, _, _, same⟩ :=
    tlsf_coalesces (by decide) (by decide) (by decide) (by decide +kernel) _ s es run freed
  exact ⟨s, es, run, freed, same⟩

end
end
end L4ertl.Tlsf
