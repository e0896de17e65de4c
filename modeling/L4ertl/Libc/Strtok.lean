import L4ertl.Lib.Lts
import L4ertl.Libc.CString

/-!
Runs of strtok_r (string.c). Any number of strings are taken apart at the same time,
each through a pointer of its own and with new delimiters at every call: each yields
its own fields, and a field once returned stays.
-/
namespace L4ertl

structure FieldAt (m : Bytes.Memory) (base length ret : Nat) (field : List Byte) : Prop where
  somewhere : ret ≠ 0
  from_ : base ≤ ret
  holds : Bytes.Holds m ret field
  within : ret + field.length ≤ base + length

def Returned (m : Bytes.Memory) (base length ret : Nat) : Option (List Byte) → Prop
  | none => ret = 0
  | some field => FieldAt m base length ret field

structure TokenTaken (m : Bytes.Memory) (p : Nat) (left : List Byte) (r : Option (List Byte) × List Byte)
    (t : StrtokResult) : Prop where
  ret : Returned t.mem p left.length t.ret r.1
  -- a field ends in front of what is left, or nothing is left to be written
  apart : ∀ field, r.1 = some field → t.ret + field.length < t.saved ∨ r.2 = []
  saved : t.saved + r.2.length = p + left.length
  forward : p ≤ t.saved
  rest : Bytes.Holds t.mem t.saved r.2
  outside : ∀ a, a < p ∨ p + left.length ≤ a → Bytes.byteAt t.mem a = Bytes.byteAt m a

variable {m : Bytes.Memory} {rounds p : Nat} {left chars : List Byte}

theorem takeWhile_append_stop {α : Type} {passes : α → Bool} {one two : List α} (all : ∀ c ∈ one, passes c = true)
    (stop : ∀ c ∈ two.head?, passes c = false) : (one ++ two).takeWhile passes = one := by
  rw [List.takeWhile_append_of_pos all]
  cases two with
  | nil => simp
  | cons c two => rw [List.takeWhile_cons_of_neg (by simp [stop c rfl]), List.append_nil]

theorem strtokR_next {delim : Nat} (delims : Delimiters rounds m delim chars) (somewhere : p ≠ 0)
    (holds : Bytes.Holds m p left) (enough : left.length < rounds) :
    ∃ t, strtokR rounds m 0 delim p = some t ∧ TokenTaken m p left (Fields.next (among chars) left) t := by
  have skipped := strspn_holds delims holds enough
  rcases Fields.next_cases (among chars) left with
    ⟨all, result⟩ | ⟨blanks, word, tail, rfl, blank, nonempty, plain, stop, result⟩
  · have whole : left.takeWhile (among chars) = left := List.takeWhile_eq_self_iff.mpr all
    rw [whole] at skipped
    have ends : Bytes.byteAt m (p + left.length) = nul := holds.last
    refine ⟨⟨m, p + left.length, 0⟩, ?_, ?_⟩
    · simp only [strtokR, if_true, skipped, Option.bind_eq_bind, Option.bind_some, ends, ne_eq, not_true_eq_false,
        if_false]
      rfl
    · rw [result]
      constructor
      · rfl
      · intro field some_
        cases some_
      · rfl
      · exact Nat.le_add_right ..
      · exact holds.last
      · intro a _
        rfl
  · have first : (blanks ++ (word ++ tail)).takeWhile (among chars) = blanks := by
      apply takeWhile_append_stop blank
      intro c head
      rw [List.head?_append_of_ne_nil _ nonempty] at head
      exact plain c (List.mem_of_mem_head? head)
    rw [first] at skipped
    have behind := holds.back
    have counted : word.length + tail.length < rounds := by
      rw [List.length_append, List.length_append] at enough
      omega
    have field := strcspn_holds delims behind (by rw [List.length_append]; exact counted)
    have second : (word ++ tail).takeWhile (fun c => !among chars c) = word := by
      apply takeWhile_append_stop
      · intro c member
        simp [plain c member]
      · intro c head
        simp [stop c head]
    rw [second] at field
    have starts : Bytes.byteAt m (p + blanks.length) ≠ nul := by
      obtain ⟨c, rest, rfl⟩ := List.exists_cons_of_ne_nil nonempty
      rw [behind.2.1]
      exact behind.1
    have ends := behind.back
    cases tail with
    | nil =>
      have last : Bytes.byteAt m (p + blanks.length + word.length) = nul := ends
      rw [List.append_nil] at behind
      refine ⟨⟨m, p + blanks.length + word.length, p + blanks.length⟩, ?_, ?_⟩
      · simp only [strtokR, if_true, skipped, Option.bind_eq_bind, Option.bind_some, ne_eq, starts,
          not_false_eq_true, field, last, not_true_eq_false, if_false]
        rfl
      · have size : (blanks ++ word).length = blanks.length + word.length := List.length_append
        rw [result, List.append_nil, List.drop_nil]
        constructor
        · constructor
          · simp only
            omega
          · exact Nat.le_add_right ..
          · exact behind
          · simp only
            omega
        · intro _ _
          exact Or.inr rfl
        · simp only [List.length_nil]
          omega
        · simp only
          omega
        · exact ends
        · intro a _
          rfl
    | cons c tail =>
      have separated : Bytes.byteAt m (p + blanks.length + word.length) ≠ nul := by
        rw [ends.2.1]
        exact ends.1
      refine ⟨⟨Bytes.storeByte m (p + blanks.length + word.length) nul, p + blanks.length + word.length + 1,
        p + blanks.length⟩, ?_, ?_⟩
      · simp only [strtokR, if_true, skipped, Option.bind_eq_bind, Option.bind_some, ne_eq, starts,
          not_false_eq_true, field, separated]
        rfl
      · have size : (blanks ++ (word ++ c :: tail)).length = blanks.length + (word.length + (tail.length + 1)) := by
          rw [List.length_append, List.length_append, List.length_cons]
        rw [result, List.drop_one, List.tail_cons]
        constructor
        · constructor
          · simp only
            omega
          · exact Nat.le_add_right ..
          · exact behind.cut
          · simp only
            omega
        · intro f some_
          cases some_
          exact Or.inl (Nat.lt_succ_self _)
        · simp only
          omega
        · simp only
          omega
        · exact ends.2.2.store_outside _ (Or.inl (Nat.lt_succ_self _))
        · intro a off
          rw [Bytes.byteAt_storeByte, if_neg (by omega)]

theorem strtokR_begin {delim saved s : Nat} (somewhere : s ≠ 0) :
    strtokR rounds m s delim saved = strtokR rounds m 0 delim s := by
  simp only [strtokR, if_neg somewhere, if_true]

section
variable {K : Type} [DecidableEq K]

structure TokState (K : Type) where
  mem : Bytes.Memory
  saved : K → Option Nat

structure TokCall (K : Type) where
  who : K
  delim : Nat

structure TokDone (K : Type) where
  call : TokCall K
  ret : Nat

/-- The first call for a string gets its place, the later ones a null pointer. -/
def strtokStep (rounds : Nat) (base : K → Nat) (s : TokState K) (c : TokCall K) :
    Option (TokState K × List (TokDone K)) :=
  (strtokR rounds s.mem (if (s.saved c.who).isNone then base c.who else 0) c.delim
    ((s.saved c.who).getD 0)).map fun t =>
      (⟨t.mem, Function.update s.saved c.who (some t.saved)⟩, [⟨c, t.ret⟩])

structure Separate (rounds : Nat) (m : Bytes.Memory) (base : K → Nat) (text : K → List Byte) : Prop where
  somewhere : ∀ k, base k ≠ 0
  holds : ∀ k, Bytes.Holds m (base k) (text k)
  enough : ∀ k, (text k).length < rounds
  apart : ∀ j k, j ≠ k → base j + (text j).length < base k ∨ base k + (text k).length < base j

/-- The delimiters of a call, outside of what is taken apart. -/
structure TokCall.Fits (rounds : Nat) (m : Bytes.Memory) (base : K → Nat) (text : K → List Byte)
    (set : Nat → List Byte) (c : TokCall K) : Prop where
  delims : Delimiters rounds m c.delim (set c.delim)
  apart : ∀ k, c.delim + (set c.delim).length < base k ∨ base k + (text k).length ≤ c.delim

def ofKey (k : K) (past : List (TokDone K)) : List (TokDone K) := past.filter fun d => d.call.who = k

def stopsOf (set : Nat → List Byte) (ds : List (TokDone K)) : List (Byte → Bool) :=
  ds.map fun d => among (set d.call.delim)

def TokKept (m : Bytes.Memory) (base length saved : Nat) (left : List Byte) (d : TokDone K)
    (f : Option (List Byte)) : Prop :=
  Returned m base length d.ret f ∧ ∀ field, f = some field → d.ret + field.length < saved ∨ left = []

def TokState.place (base : K → Nat) (s : TokState K) (k : K) : Nat := (s.saved k).getD (base k)

structure TokString (base : K → Nat) (text : K → List Byte) (set : Nat → List Byte) (s : TokState K)
    (past : List (TokDone K)) (k : K) : Prop where
  fields : List.Forall₂
    (TokKept s.mem (base k) (text k).length (s.place base k)
      (Fields.remaining (stopsOf set (ofKey k past)) (text k)))
    (ofKey k past) (Fields.fields (stopsOf set (ofKey k past)) (text k))
  ends : s.place base k + (Fields.remaining (stopsOf set (ofKey k past)) (text k)).length =
    base k + (text k).length
  forward : base k ≤ s.place base k
  rest : Bytes.Holds s.mem (s.place base k) (Fields.remaining (stopsOf set (ofKey k past)) (text k))

structure TokInv (m : Bytes.Memory) (base : K → Nat) (text : K → List Byte) (set : Nat → List Byte)
    (s : TokState K) (past : List (TokDone K)) : Prop where
  strings : ∀ k, TokString base text set s past k
  outside : ∀ a, (∀ k, a < base k ∨ base k + (text k).length ≤ a) → Bytes.byteAt s.mem a = Bytes.byteAt m a

variable {base : K → Nat} {text : K → List Byte} {set : Nat → List Byte} {s : TokState K}
  {past : List (TokDone K)}

omit [DecidableEq K] in
theorem Returned.congr {w : Bytes.Memory} {length start ret : Nat} {f : Option (List Byte)}
    (returned : Returned m start length ret f)
    (same : ∀ field, f = some field → ∀ a, ret ≤ a → a ≤ ret + field.length →
      Bytes.byteAt w a = Bytes.byteAt m a) :
    Returned w start length ret f := by
  cases f with
  | none => exact returned
  | some field =>
    refine ⟨returned.somewhere, returned.from_, ?_, returned.within⟩
    apply returned.holds.congr
    intro i inside
    exact same field rfl (ret + i) (Nat.le_add_right ..) (Nat.add_le_add_left inside ret)

omit [DecidableEq K] in
theorem Returned.widen {start length start' length' ret : Nat} {f : Option (List Byte)}
    (returned : Returned m start length ret f) (low : start' ≤ start)
    (high : start + length ≤ start' + length') : Returned m start' length' ret f := by
  cases f with
  | none => exact returned
  | some field =>
    have from_ := returned.from_
    have within := returned.within
    exact ⟨returned.somewhere, by omega, returned.holds, by omega⟩

theorem ofKey_other {k : K} {d : TokDone K} (other : d.call.who ≠ k) : ofKey k (past ++ [d]) = ofKey k past := by
  simp [ofKey, other]

theorem ofKey_own (d : TokDone K) : ofKey d.call.who (past ++ [d]) = ofKey d.call.who past ++ [d] := by
  simp [ofKey]

theorem TokState.place_update (s : TokState K) (w : Bytes.Memory) (k : K) (p : Nat) (j : K) :
    TokState.place base ⟨w, Function.update s.saved k (some p)⟩ j = if j = k then p else s.place base j := by
  by_cases self : j = k
  · subst self
    simp [TokState.place]
  · simp [TokState.place, self]

theorem TokString.other {k j : K} (string : TokString base text set s past j) (apart : j ≠ k) {w : Bytes.Memory}
    (same : ∀ a, base j ≤ a → a ≤ base j + (text j).length → Bytes.byteAt w a = Bytes.byteAt s.mem a) {p : Nat}
    {d : TokDone K} (own : d.call.who = k) :
    TokString base text set ⟨w, Function.update s.saved k (some p)⟩ (past ++ [d]) j := by
  have about : ofKey j (past ++ [d]) = ofKey j past := ofKey_other fun same => apart (same.symm.trans own)
  have stays : TokState.place base ⟨w, Function.update s.saved k (some p)⟩ j = s.place base j := by
    rw [TokState.place_update, if_neg apart]
  have ends := string.ends
  have forward := string.forward
  constructor
  · rw [about, stays]
    apply string.fields.imp
    rintro e f ⟨returned, kept⟩
    refine ⟨returned.congr fun field some_ a low high => ?_, kept⟩
    cases some_
    have from_ := returned.from_
    have within := returned.within
    exact same a (by omega) (by omega)
  · rw [about, stays]
    exact ends
  · rw [stays]
    exact forward
  · rw [about, stays]
    apply string.rest.congr
    intro i inside
    exact same _ (by omega) (by omega)

theorem TokString.own {c : TokCall K} (string : TokString base text set s past c.who) {t : StrtokResult}
    (taken : TokenTaken s.mem (s.place base c.who) (Fields.remaining (stopsOf set (ofKey c.who past)) (text c.who))
      (Fields.next (among (set c.delim)) (Fields.remaining (stopsOf set (ofKey c.who past)) (text c.who))) t) :
    TokString base text set ⟨t.mem, Function.update s.saved c.who (some t.saved)⟩ (past ++ [⟨c, t.ret⟩]) c.who := by
  have about : ofKey c.who (past ++ [⟨c, t.ret⟩]) = ofKey c.who past ++ [⟨c, t.ret⟩] := ofKey_own ⟨c, t.ret⟩
  have stops : stopsOf set (ofKey c.who past ++ [⟨c, t.ret⟩]) =
      stopsOf set (ofKey c.who past) ++ [among (set c.delim)] := by simp [stopsOf]
  have moved : TokState.place base ⟨t.mem, Function.update s.saved c.who (some t.saved)⟩ c.who = t.saved := by
    rw [TokState.place_update, if_pos rfl]
  have ends := string.ends
  have forward := string.forward
  have onward := taken.forward
  have saved := taken.saved
  generalize left_ : Fields.remaining (stopsOf set (ofKey c.who past)) (text c.who) = left at *
  constructor
  · rw [about, stops, Fields.fields_snoc, Fields.remaining_snoc, moved, left_]
    apply List.rel_append
    · apply string.fields.imp
      rintro e f ⟨returned, kept⟩
      rw [left_] at kept
      have closed : ∀ field, f = some field → e.ret + field.length < s.place base c.who ∨ left = [] := kept
      constructor
      · apply returned.congr
        intro field some_ a low high
        apply taken.outside
        rcases closed field some_ with before | none_
        · exact Or.inl (by omega)
        · rw [none_]
          exact Nat.lt_or_ge a _
      · intro field some_
        rcases closed field some_ with before | none_
        · exact Or.inl (by omega)
        · have length := Fields.next_length (among (set c.delim)) left
          rw [none_] at length ⊢
          exact Or.inr (List.length_eq_zero_iff.mp (Nat.le_zero.mp length))
    · refine List.Forall₂.cons ⟨?_, taken.apart⟩ List.Forall₂.nil
      exact taken.ret.widen forward (Nat.le_of_eq ends)
  · rw [about, stops, Fields.remaining_snoc, moved, left_]
    omega
  · rw [moved]
    omega
  · rw [about, stops, Fields.remaining_snoc, moved, left_]
    exact taken.rest

theorem TokInv.step (separate : Separate rounds m base text) (inv : TokInv m base text set s past) {c : TokCall K}
    (fits : c.Fits rounds m base text set) :
    ∃ w ret, strtokStep rounds base s c = some (w, [⟨c, ret⟩]) ∧ TokInv m base text set w (past ++ [⟨c, ret⟩]) := by
  have string := inv.strings c.who
  have ends := string.ends
  have forward := string.forward
  have somewhere := separate.somewhere c.who
  have delims : Delimiters rounds s.mem c.delim (set c.delim) := by
    refine ⟨fits.delims.somewhere, ?_, fits.delims.enough, fits.delims.short⟩
    apply fits.delims.holds.congr
    intro i inside
    apply inv.outside
    intro k
    have apart := fits.apart k
    omega
  have shorter := Fields.remaining_length (stopsOf set (ofKey c.who past)) (text c.who)
  obtain ⟨t, called, taken⟩ := strtokR_next delims (by omega) string.rest
    (Nat.lt_of_le_of_lt shorter (separate.enough c.who))
  refine ⟨⟨t.mem, Function.update s.saved c.who (some t.saved)⟩, t.ret, ?_, ?_, ?_⟩
  · have call : strtokR rounds s.mem (if (s.saved c.who).isNone then base c.who else 0) c.delim
        ((s.saved c.who).getD 0) = some t := by
      rw [← called, TokState.place]
      cases begun : s.saved c.who with
      | none =>
        simp only [Option.isNone_none, if_true, Option.getD_none]
        exact strtokR_begin somewhere
      | some p => simp
    rw [strtokStep, call, Option.map_some]
  · intro j
    by_cases own : j = c.who
    · subst own
      exact string.own taken
    · apply (inv.strings j).other own
      · intro a low high
        apply taken.outside
        have apart := separate.apart j c.who own
        omega
      · rfl
  · intro a off
    have own := off c.who
    rw [← inv.outside a off]
    apply taken.outside
    omega

theorem TokInv.run (separate : Separate rounds m base text) (calls : List (TokCall K))
    (fits : ∀ c ∈ calls, c.Fits rounds m base text set) (inv : TokInv m base text set s past) :
    ∃ w es, Lts.exec (strtokStep rounds base) s calls = some (w, es) ∧ es.map TokDone.call = calls ∧
      TokInv m base text set w (past ++ es) := by
  induction calls generalizing s past with
  | nil => exact ⟨s, [], rfl, rfl, by rwa [List.append_nil]⟩
  | cons c calls ih =>
    obtain ⟨v, ret, taken, next⟩ := inv.step separate (fits c List.mem_cons_self)
    obtain ⟨w, es, rest, same, final⟩ := ih (fun d member => fits d (List.mem_cons_of_mem c member)) next
    refine ⟨w, ⟨c, ret⟩ :: es, ?_, ?_, ?_⟩
    · simp only [Lts.exec, taken, rest, List.cons_append, List.nil_append]
    · rw [List.map_cons, same]
    · rwa [List.append_assoc] at final

theorem tokInv_start (separate : Separate rounds m base text) :
    TokInv m base text set ⟨m, fun _ => none⟩ [] := by
  constructor
  · intro k
    constructor
    · exact List.Forall₂.nil
    · rfl
    · exact Nat.le_refl _
    · exact separate.holds k
  · intro a _
    rfl

/-- Any sequence of calls goes through. The calls for one string return its fields in
    turn, by the delimiters that each of them has, then NULL; every field is still there
    in the end, and no byte outside of the strings has changed. -/
theorem strtok_fields (rounds : Nat) (m : Bytes.Memory) (base : K → Nat) (text : K → List Byte)
    (set : Nat → List Byte) (separate : Separate rounds m base text) (calls : List (TokCall K))
    (fits : ∀ c ∈ calls, c.Fits rounds m base text set) :
    ∃ w es, Lts.exec (strtokStep rounds base) ⟨m, fun _ => none⟩ calls = some (w, es) ∧
      es.map TokDone.call = calls ∧
      (∀ k, List.Forall₂ (fun d f => Returned w.mem (base k) (text k).length d.ret f) (ofKey k es)
        (Fields.fields (stopsOf set (ofKey k es)) (text k))) ∧
      ∀ a, (∀ k, a < base k ∨ base k + (text k).length ≤ a) → Bytes.byteAt w.mem a = Bytes.byteAt m a := by
  obtain ⟨w, es, run, same, inv⟩ := TokInv.run separate calls fits (tokInv_start separate)
  refine ⟨w, es, run, same, fun k => ?_, inv.outside⟩
  apply (inv.strings k).fields.imp
  intro d f kept
  exact kept.1

def twoStrings : Bytes.Memory :=
  Bytes.memoryOf ([0, 0, 0, 0] ++ bytes ['a', ',', 'b'] ++ [0] ++ bytes ['c', ';', 'd'] ++ [0] ++ bytes [','] ++ [0] ++
    bytes [';'] ++ [0])

def twoBases (k : Bool) : Nat := if k then 8 else 4
def twoTexts (k : Bool) : List Byte := if k then bytes ['c', ';', 'd'] else bytes ['a', ',', 'b']
def twoSets (delim : Nat) : List Byte := if delim = 12 then bytes [','] else bytes [';']
def twoCalls : List (TokCall Bool) := [⟨false, 12⟩, ⟨true, 14⟩, ⟨false, 12⟩, ⟨true, 14⟩, ⟨false, 12⟩]

theorem twoStrings_separate : Separate 10 twoStrings twoBases twoTexts where
  somewhere := by decide
  holds := by decide +kernel
  enough := by decide
  apart := by decide

theorem twoCalls_fit : ∀ c ∈ twoCalls, c.Fits 10 twoStrings twoBases twoTexts twoSets := by
  intro c member
  have one_of : c.delim = 12 ∨ c.delim = 14 := by
    revert c
    decide
  rcases one_of with comma | semicolon
  · exact ⟨⟨by omega, by rw [comma]; decide +kernel, by rw [comma]; decide, by rw [comma]; decide⟩,
      by rw [comma]; decide⟩
  · exact ⟨⟨by omega, by rw [semicolon]; decide +kernel, by rw [semicolon]; decide, by rw [semicolon]; decide⟩,
      by rw [semicolon]; decide⟩

theorem strtok_fields_two :
    ∃ w es, Lts.exec (strtokStep 10 twoBases) ⟨twoStrings, fun _ => none⟩ twoCalls = some (w, es) ∧
      List.Forall₂ (fun d f => Returned w.mem 4 3 d.ret f) (ofKey false es)
        [some (bytes ['a']), some (bytes ['b']), none] := by
  obtain ⟨w, es, run, same, fields, _⟩ := strtok_fields 10 twoStrings twoBases twoTexts twoSets twoStrings_separate
    twoCalls twoCalls_fit
  refine ⟨w, es, run, ?_⟩
  have calls : (ofKey false es).map TokDone.call = [⟨false, 12⟩, ⟨false, 12⟩, ⟨false, 12⟩] := by
    have filtered := congrArg (List.filter fun c => c.who = false) same
    rw [List.filter_map] at filtered
    exact filtered
  have stops : stopsOf twoSets (ofKey false es) = List.replicate 3 (among (bytes [','])) := by
    have mapped := congrArg (List.map fun c => among (twoSets c.delim)) calls
    rw [List.map_map] at mapped
    exact mapped
  have found := fields false
  rw [stops] at found
  exact found

theorem strtok_parts (rounds : Nat) (m : Bytes.Memory) (base : K → Nat) (text : K → List Byte)
    (set : Nat → List Byte) (separate : Separate rounds m base text) (calls : List (TokCall K))
    (fits : ∀ c ∈ calls, c.Fits rounds m base text set) (k : K) (chars : List Byte)
    (same : ∀ c ∈ calls, c.who = k → set c.delim = chars) :
    ∃ w es, Lts.exec (strtokStep rounds base) ⟨m, fun _ => none⟩ calls = some (w, es) ∧
      es.map TokDone.call = calls ∧
      List.Forall₂ (fun d f => Returned w.mem (base k) (text k).length d.ret f) (ofKey k es)
        (((Fields.parts (among chars) (text k)).map some ++ List.replicate (ofKey k es).length none).take
          (ofKey k es).length) := by
  obtain ⟨w, es, run, called, inv⟩ := TokInv.run separate calls fits (tokInv_start separate)
  have stops : stopsOf set (ofKey k es) = List.replicate (ofKey k es).length (among chars) := by
    rw [stopsOf, List.map_eq_replicate_iff]
    intro d member
    obtain ⟨inside, own⟩ := List.mem_filter.mp member
    have call : d.call ∈ calls := by
      rw [← called]
      exact List.mem_map_of_mem inside
    rw [same d.call call (of_decide_eq_true own)]
  refine ⟨w, es, run, called, ?_⟩
  rw [← Fields.fields_same, ← stops]
  apply (inv.strings k).fields.imp
  intro d f kept
  exact kept.1

theorem strtok_parts_two :
    ∃ w es, Lts.exec (strtokStep 10 twoBases) ⟨twoStrings, fun _ => none⟩ twoCalls = some (w, es) ∧
      List.Forall₂ (fun d f => Returned w.mem 8 3 d.ret f) (ofKey true es)
        [some (bytes ['c']), some (bytes ['d'])] := by
  obtain ⟨w, es, run, same, parts⟩ := strtok_parts 10 twoStrings twoBases twoTexts twoSets twoStrings_separate
    twoCalls twoCalls_fit true (bytes [';']) (by decide)
  refine ⟨w, es, run, ?_⟩
  have count : (ofKey true es).length = 2 := by
    have filtered := congrArg (fun l => (l.filter fun c => c.who = true).length) same
    simp only [List.filter_map, List.length_map] at filtered
    exact filtered
  rw [count] at parts
  exact parts

end

end L4ertl
