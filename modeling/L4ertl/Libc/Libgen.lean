import L4ertl.Libc.CString

/-!
basename and dirname (libgen.c), which cut the path they are given.
-/
namespace L4ertl

def strrchr (m : Bytes.Memory) (ch : Byte) : Nat → Nat → Nat → Option Nat
  | 0, _, _ => none
  | rounds + 1, t, l =>
    let l := if Bytes.byteAt m t = ch then t else l
    if Bytes.byteAt m t = nul then some l else strrchr m ch rounds (t + 1) l

def basenameLoop (rounds path : Nat) : Nat → Bytes.Memory → Option (Bytes.Memory × Nat)
  | 0, _ => none
  | again + 1, m => do
    let c ← strrchr m slash rounds path 0
    if c = 0 then return (m, path)
    else if Bytes.byteAt m (c + 1) = nul then
      if c = path then return (m, c)
      else basenameLoop rounds path again (Bytes.storeByte m c nul)
    else return (m, c + 1)

def basename (rounds : Nat) (m : Bytes.Memory) (path : Nat) : Option (Bytes.Memory × Nat) :=
  basenameLoop rounds path rounds m

/-- The two loops of dirname that write EOL over slashes from `c` on downwards; one of them
    stops at the start of the path. -/
def eraseSlashes (start : Option Nat) : Nat → Bytes.Memory → Nat → Option Bytes.Memory
  | 0, _, _ => none
  | rounds + 1, m, c =>
    if Bytes.byteAt m c = slash ∧ start ≠ some c then
      eraseSlashes start rounds (Bytes.storeByte m c nul) ((c + 2 ^ 32 - 1) % 2 ^ 32)
    else some m

def dirnameLoop (rounds path dot : Nat) : Nat → Bytes.Memory → Option (Bytes.Memory × Nat)
  | 0, _ => none
  | again + 1, m => do
    let c ← strrchr m slash rounds path 0
    if c = 0 then return (m, dot)
    else if Bytes.byteAt m (c + 1) = nul ∧ c ≠ path then
      dirnameLoop rounds path dot again (← eraseSlashes (some path) rounds m c)
    else if c ≠ path then return (← eraseSlashes none rounds m c, path)
    else return (Bytes.storeByte m (path + 1) nul, path)

def dirname (rounds : Nat) (m : Bytes.Memory) (path dot : Nat) : Option (Bytes.Memory × Nat) :=
  if path = 0 then some (m, dot) else dirnameLoop rounds path dot rounds m

def slashes (k : Nat) : List Byte := List.replicate k slash

/-- The last name of a path, with `j` slashes before it and `k` behind it. -/
structure Parted (path dir name : List Byte) (j k : Nat) : Prop where
  text : path = dir ++ slashes j ++ name ++ slashes k
  clean : slash ∉ name
  ends : ∀ front, dir ≠ front ++ [slash]
  whole : j = 0 → dir = []
  named : name = [] → j = 0

def baseText (name : List Byte) (k : Nat) : List Byte := if name = [] then slashes (min k 1) else name

def dirText (dir name : List Byte) (j k : Nat) : List Byte :=
  if name = [] then if k = 0 then bytes ['.'] else [slash]
  else if j = 0 then bytes ['.']
  else if dir = [] then [slash]
  else dir

variable {m w : Bytes.Memory} {p q c rounds again j k : Nat} {path dir name front back other : List Byte}

theorem slashes_succ (k : Nat) : slashes (k + 1) = slashes k ++ [slash] := List.replicate_succ' ..

theorem strip (text : List Byte) : ∃ rest n, text = rest ++ slashes n ∧ ∀ front, rest ≠ front ++ [slash] := by
  induction text using List.reverseRecOn with
  | nil => exact ⟨[], 0, rfl, fun front same => by simp at same⟩
  | append_singleton text c ih =>
    by_cases last : c = slash
    · obtain ⟨rest, n, same, ends⟩ := ih
      refine ⟨rest, n + 1, ?_, ends⟩
      rw [same, last, slashes_succ, List.append_assoc]
    · refine ⟨text ++ [c], 0, (List.append_nil _).symm, fun front same => last ?_⟩
      have both := List.append_inj' same rfl
      exact List.singleton_injective both.2

theorem lastPart (text : List Byte) :
    ∃ rest name, text = rest ++ name ∧ slash ∉ name ∧ (rest = [] ∨ ∃ front, rest = front ++ [slash]) := by
  induction text using List.reverseRecOn with
  | nil => exact ⟨[], [], rfl, List.not_mem_nil, Or.inl rfl⟩
  | append_singleton text c ih =>
    by_cases last : c = slash
    · exact ⟨text ++ [c], [], (List.append_nil _).symm, List.not_mem_nil, Or.inr ⟨text, by rw [last]⟩⟩
    · obtain ⟨rest, name, rfl, clean, before⟩ := ih
      refine ⟨rest, name ++ [c], List.append_assoc .., ?_, before⟩
      rw [List.mem_append, not_or]
      exact ⟨clean, fun member => last (List.mem_singleton.mp member).symm⟩

theorem parted_exists (path : List Byte) : ∃ dir name j k, Parted path dir name j k := by
  obtain ⟨text, k, rfl, stripped⟩ := strip path
  obtain ⟨rest, name, rfl, clean, before⟩ := lastPart text
  obtain ⟨dir, j, rfl, ends⟩ := strip rest
  refine ⟨dir, name, j, k, rfl, clean, ends, ?_, ?_⟩
  · rintro rfl
    rcases before with empty | ⟨front, same⟩
    · exact (List.append_eq_nil_iff.mp empty).1
    · exact absurd ((List.append_nil dir).symm.trans same) (ends front)
  · rintro rfl
    rcases before with empty | ⟨front, same⟩
    · have none := (List.append_eq_nil_iff.mp empty).2
      simpa [slashes] using none
    · exact absurd ((List.append_nil _).trans same) (stripped front)

theorem strrchr_none (holds : Bytes.Holds m p back) (clean : slash ∉ back) (enough : back.length < rounds) (l : Nat) :
    strrchr m slash rounds p l = some l := by
  induction back generalizing p rounds with
  | nil =>
    obtain ⟨rounds, rfl⟩ := Nat.exists_eq_add_one.mpr enough
    have last : Bytes.byteAt m p = nul := holds
    have other : ¬nul = slash := Ne.symm slash_ne_nul
    simp only [strrchr, last, if_neg other, if_true]
  | cons c back ih =>
    obtain ⟨rounds, rfl⟩ := Nat.exists_eq_add_one.mpr (Nat.lt_of_le_of_lt (Nat.zero_le _) enough)
    rw [List.mem_cons, not_or] at clean
    have goes : ¬c = nul := holds.1
    simp only [strrchr, holds.2.1, if_neg (Ne.symm clean.1), if_neg goes]
    exact ih holds.2.2 clean.2 (Nat.lt_of_succ_lt_succ enough)

theorem strrchr_last (holds : Bytes.Holds m p (front ++ slash :: back)) (clean : slash ∉ back)
    (enough : (front ++ slash :: back).length < rounds) (l : Nat) :
    strrchr m slash rounds p l = some (p + front.length) := by
  induction front generalizing p rounds l with
  | nil =>
    obtain ⟨rounds, rfl⟩ := Nat.exists_eq_add_one.mpr (Nat.lt_of_le_of_lt (Nat.zero_le _) enough)
    have goes : ¬slash = nul := slash_ne_nul
    simp only [strrchr, holds.2.1, if_true, if_neg goes]
    exact strrchr_none holds.2.2 clean (Nat.lt_of_succ_lt_succ enough) p
  | cons c front ih =>
    obtain ⟨rounds, rfl⟩ := Nat.exists_eq_add_one.mpr (Nat.lt_of_le_of_lt (Nat.zero_le _) enough)
    have goes : ¬c = nul := holds.1
    simp only [strrchr, holds.2.1, if_neg goes]
    rw [ih holds.2.2 (Nat.lt_of_succ_lt_succ enough), List.length_cons, Nat.add_assoc, Nat.add_comm 1]

theorem Parted.cut (parted : Parted path dir name j (k + 1)) :
    ∃ rest, path = rest ++ [slash] ∧ Parted rest dir name j k := by
  refine ⟨dir ++ slashes j ++ name ++ slashes k, ?_, rfl, parted.clean, parted.ends, parted.whole, parted.named⟩
  rw [parted.text, slashes_succ, List.append_assoc _ (slashes k)]

theorem Parted.last_slash (parted : Parted path dir name (j + 1) 0) :
    path = (dir ++ slashes j) ++ slash :: name ∧ name ≠ [] := by
  refine ⟨?_, fun empty => Nat.succ_ne_zero j (parted.named empty)⟩
  rw [parted.text, slashes_succ]
  simp [slashes]

theorem Parted.no_slash (parted : Parted path dir name 0 0) : path = name ∧ slash ∉ path := by
  have same : path = name := by
    rw [parted.text, parted.whole rfl]
    simp [slashes]
  rw [same]
  exact ⟨rfl, parted.clean⟩

theorem Parted.only_slashes (parted : Parted path dir [] j k) : path = slashes k := by
  have none := parted.named rfl
  rw [parted.text, none, parted.whole none]
  simp [slashes]

theorem holds_behind (holds : Bytes.Holds m p (front ++ slash :: name)) (named : name ≠ []) :
    Bytes.byteAt m (p + front.length + 1) ≠ nul := by
  obtain ⟨c, rest, rfl⟩ := List.exists_cons_of_ne_nil named
  have behind := holds.back.2.2
  rw [behind.2.1]
  exact behind.1

theorem basenameLoop_base (parted : Parted path dir name j k) (holds : Bytes.Holds m p path) (somewhere : p ≠ 0)
    (enough : path.length < rounds) (more : k < again) :
    ∃ w r, basenameLoop rounds p again m = some (w, r) ∧ Bytes.Holds w r (baseText name k) := by
  induction k generalizing m path again with
  | zero =>
    obtain ⟨again, rfl⟩ := Nat.exists_eq_add_one.mpr more
    cases j with
    | zero =>
      obtain ⟨rfl, clean⟩ := parted.no_slash
      refine ⟨m, p, ?_, ?_⟩
      · simp [basenameLoop, strrchr_none holds clean enough]
      · rw [baseText]
        split
        · rename_i empty
          rw [empty] at holds
          exact holds
        · exact holds
    | succ j =>
      obtain ⟨rfl, named⟩ := parted.last_slash
      have found := strrchr_last holds parted.clean enough 0
      have behind := holds_behind holds named
      refine ⟨m, p + (dir ++ slashes j).length + 1, ?_, ?_⟩
      · have other : ¬p + (dir ++ slashes j).length = 0 := by omega
        rw [basenameLoop, found, Option.bind_eq_bind, Option.bind_some, if_neg other, if_neg behind]
        rfl
      · rw [baseText, if_neg named]
        exact holds.back.2.2
  | succ k ih =>
    obtain ⟨again, rfl⟩ := Nat.exists_eq_add_one.mpr (Nat.lt_of_le_of_lt (Nat.zero_le _) more)
    obtain ⟨rest, rfl, before⟩ := parted.cut
    have found := strrchr_last holds List.not_mem_nil enough 0
    have other : ¬p + rest.length = 0 := by omega
    have behind : Bytes.byteAt m (p + rest.length + 1) = nul := by
      have last := holds.last
      rwa [List.length_append, List.length_singleton, ← Nat.add_assoc] at last
    rw [basenameLoop, found, Option.bind_eq_bind, Option.bind_some, if_neg other, if_pos behind]
    by_cases only : rest = []
    · subst only
      have empty : name = [] ∧ slashes k = [] := by
        have all := before.text.symm
        rw [List.append_eq_nil_iff, List.append_eq_nil_iff] at all
        exact ⟨all.1.2, all.2⟩
      have none : k = 0 := by simpa [slashes] using empty.2
      refine ⟨m, p, if_pos rfl, ?_⟩
      rw [baseText, if_pos empty.1, none]
      exact holds
    · have further : ¬p + rest.length = p := by
        have positive := List.length_pos_of_ne_nil only
        omega
      rw [if_neg further]
      have shorter : rest.length < rounds := by
        rw [List.length_append] at enough
        omega
      obtain ⟨w, r, result, base⟩ := ih before holds.cut shorter (Nat.lt_of_succ_lt_succ more)
      refine ⟨w, r, result, ?_⟩
      have same : baseText name (k + 1) = baseText name k := by
        by_cases empty : name = []
        · subst empty
          have all := before.only_slashes
          have positive : 0 < k := by
            apply Nat.pos_of_ne_zero
            rintro rfl
            exact only all
          have one : min k 1 = min (k + 1) 1 := by omega
          rw [baseText, baseText, if_pos rfl, if_pos rfl, one]
        · rw [baseText, baseText, if_neg empty, if_neg empty]
      rw [same]
      exact base

theorem basename_base (rounds : Nat) (m : Bytes.Memory) (p : Nat) (path dir name : List Byte) (j k : Nat)
    (parted : Parted path dir name j k) (holds : Bytes.Holds m p path) (somewhere : p ≠ 0)
    (enough : path.length < rounds) :
    ∃ w r, basename rounds m p = some (w, r) ∧ Bytes.Holds w r (baseText name k) := by
  have size := congrArg List.length parted.text
  have behind : (slashes k).length = k := List.length_replicate ..
  rw [List.length_append, behind] at size
  exact basenameLoop_base parted holds somewhere enough (by omega)

structure Beside (m : Bytes.Memory) (p : Nat) (text : List Byte) (q : Nat) (other : List Byte) : Prop where
  holds : Bytes.Holds m p text
  also : Bytes.Holds m q other
  apart : q + other.length < p ∨ p + text.length < q

theorem Beside.cut (beside : Beside m p (front ++ back) q other) :
    Beside (Bytes.storeByte m (p + front.length) nul) p front q other := by
  have apart := beside.apart
  rw [List.length_append] at apart
  exact ⟨beside.holds.cut, beside.also.store_outside nul (by omega), by omega⟩

theorem eraseSlashes_back {start : Option Nat} {n : Nat} (nonempty : front ≠ [])
    (ends : ∀ rest, front ≠ rest ++ [slash]) (above : start = none ∨ start = some p)
    (beside : Beside m p (front ++ slashes n ++ back) q other) (room : p + (front ++ slashes n).length < 2 ^ 32)
    (enough : n < rounds) (cut : n = 0 → back = []) :
    ∃ w, eraseSlashes start rounds m (p + (front ++ slashes n).length - 1) = some w ∧ Beside w p front q other := by
  have positive := List.length_pos_of_ne_nil nonempty
  induction n generalizing m rounds back with
  | zero =>
    obtain ⟨rounds, rfl⟩ := Nat.exists_eq_add_one.mpr enough
    have none := cut rfl
    subst none
    have all : front ++ slashes 0 ++ [] = front := by simp [slashes]
    rw [all] at beside
    refine ⟨m, ?_, beside⟩
    have last : Bytes.byteAt m (p + (front ++ slashes 0).length - 1) ≠ slash := by
      obtain ⟨rest, c, rfl⟩ := (List.eq_nil_or_concat' front).resolve_left nonempty
      have byte := beside.holds.back.2.1
      have place : p + (rest ++ [c] ++ slashes 0).length - 1 = p + rest.length := by
        simp only [slashes, List.replicate_zero, List.append_nil, List.length_append, List.length_singleton]
        omega
      rw [place, byte]
      rintro rfl
      exact ends rest rfl
    rw [eraseSlashes, if_neg fun both => last both.1]
  | succ n ih =>
    obtain ⟨rounds, rfl⟩ := Nat.exists_eq_add_one.mpr (Nat.lt_of_le_of_lt (Nat.zero_le _) enough)
    have text : front ++ slashes (n + 1) ++ back = (front ++ slashes n) ++ slash :: back := by
      rw [slashes_succ]
      simp
    have size : (front ++ slashes (n + 1)).length = (front ++ slashes n).length + 1 := by
      simp [slashes, Nat.add_assoc]
    rw [text] at beside
    rw [size] at room ⊢
    have here : Bytes.byteAt m (p + (front ++ slashes n).length) = slash := beside.holds.back.2.1
    have place : p + ((front ++ slashes n).length + 1) - 1 = p + (front ++ slashes n).length := by omega
    have next : (p + (front ++ slashes n).length + 2 ^ 32 - 1) % 2 ^ 32 = p + (front ++ slashes n).length - 1 := by
      rw [List.length_append] at *
      omega
    have further : start ≠ some (p + (front ++ slashes n).length) := by
      rcases above with same | same
      · rw [same]
        exact (Option.some_ne_none _).symm
      · rw [same, List.length_append]
        intro equal
        have := Option.some.inj equal
        omega
    have shorter :
        Beside (Bytes.storeByte m (p + (front ++ slashes n).length) nul) p (front ++ slashes n ++ []) q other := by
      rw [List.append_nil]
      exact beside.cut
    obtain ⟨w, result, kept⟩ := ih shorter (by omega) (Nat.lt_of_succ_lt_succ enough) fun _ => rfl
    refine ⟨w, ?_, kept⟩
    rw [place, eraseSlashes, if_pos ⟨here, further⟩, next]
    exact result

theorem eraseSlashes_start {n : Nat} (beside : Beside m p (slashes (n + 1)) q other) (room : p + n < 2 ^ 32)
    (enough : n < rounds) : ∃ w, eraseSlashes (some p) rounds m (p + n) = some w ∧ Beside w p [slash] q other := by
  induction n generalizing m rounds with
  | zero =>
    obtain ⟨rounds, rfl⟩ := Nat.exists_eq_add_one.mpr enough
    refine ⟨m, ?_, beside⟩
    rw [eraseSlashes, if_neg fun both => both.2 rfl]
  | succ n ih =>
    obtain ⟨rounds, rfl⟩ := Nat.exists_eq_add_one.mpr (Nat.lt_of_le_of_lt (Nat.zero_le _) enough)
    have size : (slashes (n + 1)).length = n + 1 := List.length_replicate ..
    rw [slashes_succ] at beside
    have here : Bytes.byteAt m (p + (n + 1)) = slash := by
      rw [← size]
      exact beside.holds.back.2.1
    have further : some p ≠ some (p + (n + 1)) := by
      intro same
      have equal := Option.some.inj same
      omega
    have next : (p + (n + 1) + 2 ^ 32 - 1) % 2 ^ 32 = p + n := by omega
    have shorter := beside.cut
    rw [size] at shorter
    obtain ⟨w, result, kept⟩ := ih shorter (by omega) (Nat.lt_of_succ_lt_succ enough)
    refine ⟨w, ?_, kept⟩
    rw [eraseSlashes, if_pos ⟨here, further⟩, next]
    exact result

theorem eraseSlashes_zeros {start : Option Nat} (result : eraseSlashes start rounds m c = some w) (x : Nat) :
    Bytes.byteAt w x = Bytes.byteAt m x ∨ Bytes.byteAt w x = nul := by
  induction rounds generalizing m c with
  | zero => cases result
  | succ rounds ih =>
    rw [eraseSlashes] at result
    by_cases goes : Bytes.byteAt m c = slash ∧ start ≠ some c
    · rw [if_pos goes] at result
      rcases ih result with same | zero
      · rw [Bytes.byteAt_storeByte] at same
        by_cases here : x = c
        · rw [if_pos here] at same
          exact Or.inr same
        · rw [if_neg here] at same
          exact Or.inl same
      · exact Or.inr zero
    · rw [if_neg goes] at result
      cases result
      exact Or.inl rfl

theorem eraseSlashes_all {n : Nat} (holds : Bytes.Holds m p (slashes (n + 1) ++ back)) (room : p + n < 2 ^ 32)
    (result : eraseSlashes none rounds m (p + n) = some w) : Bytes.byteAt w p = nul := by
  induction n generalizing m rounds back with
  | zero =>
    cases rounds with
    | zero => cases result
    | succ rounds =>
      have here : Bytes.byteAt m (p + 0) = slash := holds.2.1
      rw [eraseSlashes, if_pos ⟨here, (Option.some_ne_none _).symm⟩] at result
      rcases eraseSlashes_zeros result p with same | zero
      · rw [same, Bytes.byteAt_storeByte, if_pos (Nat.add_zero p).symm]
      · exact zero
  | succ n ih =>
    cases rounds with
    | zero => cases result
    | succ rounds =>
      have size : (slashes (n + 1)).length = n + 1 := List.length_replicate ..
      rw [slashes_succ, List.append_assoc] at holds
      have here : Bytes.byteAt m (p + (n + 1)) = slash := by
        rw [← size]
        exact holds.back.2.1
      have next : (p + (n + 1) + 2 ^ 32 - 1) % 2 ^ 32 = p + n := by omega
      have cut := holds.cut
      rw [size, ← List.append_nil (slashes (n + 1))] at cut
      rw [eraseSlashes, if_pos ⟨here, (Option.some_ne_none _).symm⟩, next] at result
      exact ih cut (by omega) result

def DeepRoot (dir name : List Byte) (j : Nat) : Prop := name ≠ [] ∧ dir = [] ∧ 2 ≤ j

theorem dirnameLoop_name (parted : Parted path dir name j 0) (named : name ≠ [])
    (beside : Beside m p path q (bytes ['.'])) (somewhere : p ≠ 0) (room : p + path.length < 2 ^ 32)
    (enough : path.length < rounds) (again : Nat) :
    (∃ w r, dirnameLoop rounds p q (again + 1) m = some (w, r) ∧ Bytes.Holds w r (dirText dir name j 0)) ↔
      ¬DeepRoot dir name j := by
  cases j with
  | zero =>
    obtain ⟨rfl, clean⟩ := parted.no_slash
    refine iff_of_true ⟨m, q, ?_, ?_⟩ fun deep => absurd deep.2.2 (by decide)
    · simp [dirnameLoop, strrchr_none beside.holds clean enough]
    · rw [dirText, if_neg named, if_pos rfl]
      exact beside.also
  | succ j =>
    obtain ⟨rfl, _⟩ := parted.last_slash
    have found := strrchr_last beside.holds parted.clean enough 0
    have behind := holds_behind beside.holds named
    have other : ¬p + (dir ++ slashes j).length = 0 := by omega
    have text : dirText dir name (j + 1) 0 = if dir = [] then [slash] else dir := by
      rw [dirText, if_neg named, if_neg (Nat.succ_ne_zero j)]
    rw [dirnameLoop, found, Option.bind_eq_bind, Option.bind_some, if_neg other, if_neg fun both => behind both.1, text]
    by_cases top : dir = []
    · subst top
      have place : p + ([] ++ slashes j).length = p + j := by simp [slashes]
      rw [place, if_pos rfl]
      cases j with
      | zero =>
        refine iff_of_true ⟨_, p, if_neg (not_not.mpr rfl), ?_⟩ fun deep => absurd deep.2.2 (by decide)
        have first : Bytes.Holds m p ([slash] ++ name) := beside.holds
        exact first.cut
      | succ j =>
        refine iff_of_false ?_ (not_not.mpr ⟨named, rfl, by omega⟩)
        rintro ⟨w, r, result, base⟩
        have further : p + (j + 1) ≠ p := by omega
        rw [if_pos further] at result
        cases erased : eraseSlashes none rounds m (p + (j + 1)) with
        | none =>
          rw [erased] at result
          cases result
        | some v =>
          rw [erased] at result
          cases result
          have text : ([] ++ slashes (j + 1)) ++ slash :: name = slashes (j + 1 + 1) ++ name := by
            rw [slashes_succ (j + 1)]
            simp
          have holds := beside.holds
          rw [text] at holds
          have size : (slashes (j + 1 + 1) ++ name).length = j + 2 + name.length := by simp [slashes]
          rw [text, size] at room
          have zero := eraseSlashes_all holds (by omega) erased
          exact absurd (base.2.1.symm.trans zero) slash_ne_nul
    · have positive := List.length_pos_of_ne_nil top
      have split : (dir ++ slashes j) ++ slash :: name = dir ++ slashes (j + 1) ++ name := by
        rw [slashes_succ]
        simp
      have size : (dir ++ slashes (j + 1)).length = (dir ++ slashes j).length + 1 := by
        simp [slashes, Nat.add_assoc]
      have last : p + (dir ++ slashes j).length = p + (dir ++ slashes (j + 1)).length - 1 := by omega
      have further : p + (dir ++ slashes j).length ≠ p := by
        rw [List.length_append]
        omega
      rw [split] at beside room enough
      rw [List.length_append, List.length_append] at room enough
      have count : (slashes (j + 1)).length = j + 1 := List.length_replicate ..
      have fits : j + 1 < rounds := by omega
      have below : p + (dir ++ slashes (j + 1)).length < 2 ^ 32 := by
        rw [List.length_append]
        omega
      obtain ⟨w, result, kept⟩ := eraseSlashes_back top parted.ends (Or.inl rfl) beside below fits
        fun none => absurd none (Nat.succ_ne_zero j)
      rw [if_neg top, if_pos further, last, result]
      exact iff_of_true ⟨w, p, rfl, kept.holds⟩ fun deep => top deep.2.1

theorem dirnameLoop_root (holds : Bytes.Holds m p [slash]) (somewhere : p ≠ 0) (enough : 1 < rounds) (again : Nat) :
    ∃ w r, dirnameLoop rounds p q (again + 1) m = some (w, r) ∧ Bytes.Holds w r [slash] := by
  have shape : Bytes.Holds m p ([] ++ slash :: []) := holds
  have found : strrchr m slash rounds p 0 = some p := strrchr_last shape List.not_mem_nil enough 0
  refine ⟨Bytes.storeByte m (p + 1) nul, p, ?_, ?_⟩
  · rw [dirnameLoop, found, Option.bind_eq_bind, Option.bind_some, if_neg somewhere,
      if_neg fun both => both.2 rfl, if_neg (not_not.mpr rfl)]
    rfl
  · have first : Bytes.Holds m p ([slash] ++ []) := holds
    exact first.cut

theorem dirnameLoop_behind {n : Nat} (beside : Beside m p (front ++ slashes (n + 1)) q other)
    (further : front ++ slashes n ≠ []) (enough : (front ++ slashes (n + 1)).length < rounds)
    (erased : eraseSlashes (some p) rounds m (p + (front ++ slashes n).length) = some w) :
    dirnameLoop rounds p q (again + 1) m = dirnameLoop rounds p q again w := by
  have text : front ++ slashes (n + 1) = (front ++ slashes n) ++ [slash] := by
    rw [slashes_succ, List.append_assoc]
  have holds := beside.holds
  rw [text] at holds enough
  have found := strrchr_last holds List.not_mem_nil enough 0
  have behind : Bytes.byteAt m (p + (front ++ slashes n).length + 1) = nul := by
    have last := holds.last
    rwa [List.length_append, List.length_singleton, ← Nat.add_assoc] at last
  have positive := List.length_pos_of_ne_nil further
  have other : ¬p + (front ++ slashes n).length = 0 := by omega
  have apart : p + (front ++ slashes n).length ≠ p := by omega
  rw [dirnameLoop, found, Option.bind_eq_bind, Option.bind_some, if_neg other, if_pos ⟨behind, apart⟩, erased,
    Option.bind_eq_bind, Option.bind_some]

/-- dirname leaves a string with what is before the last name, exactly if that is not a
    root of more than one slash. -/
theorem dirname_iff (rounds : Nat) (m : Bytes.Memory) (p q : Nat) (path dir name : List Byte) (j k : Nat)
    (parted : Parted path dir name j k) (beside : Beside m p path q (bytes ['.'])) (somewhere : p ≠ 0)
    (room : p + path.length < 2 ^ 32) (enough : path.length + 1 < rounds) :
    (∃ w r, dirname rounds m p q = some (w, r) ∧ Bytes.Holds w r (dirText dir name j k)) ↔ ¬DeepRoot dir name j := by
  obtain ⟨more, outer⟩ : ∃ more, rounds = more + 1 + 1 := ⟨rounds - 2, by omega⟩
  have called : dirname rounds m p q = dirnameLoop rounds p q (more + 1 + 1) m := by
    rw [dirname, if_neg somewhere]
    exact congrArg (fun n => dirnameLoop rounds p q n m) outer
  rw [called]
  by_cases named : name = []
  · subst named
    refine iff_of_true ?_ fun deep => deep.1 rfl
    have only := parted.only_slashes
    subst only
    have size : (slashes k).length = k := List.length_replicate ..
    rw [dirText, if_pos rfl]
    cases k with
    | zero =>
      have found := strrchr_none beside.holds List.not_mem_nil (Nat.lt_of_succ_lt enough) 0
      refine ⟨m, q, ?_, beside.also⟩
      rw [dirnameLoop, found, Option.bind_eq_bind, Option.bind_some, if_pos rfl]
      rfl
    | succ k =>
      rw [if_neg (Nat.succ_ne_zero k)]
      cases k with
      | zero => exact dirnameLoop_root beside.holds somewhere (by omega) _
      | succ k =>
        have before : ([] ++ slashes (k + 1)).length = k + 1 := List.length_replicate ..
        obtain ⟨w, erased, kept⟩ := eraseSlashes_start (n := k + 1) beside (by omega) (by omega : k + 1 < rounds)
        rw [← before] at erased
        have start : Beside m p ([] ++ slashes (k + 1 + 1)) q (bytes ['.']) := beside
        rw [dirnameLoop_behind start (List.ne_nil_of_length_eq_add_one before) (Nat.lt_of_succ_lt enough) erased]
        exact dirnameLoop_root kept.holds somewhere (by omega) _
  · cases k with
    | zero => exact dirnameLoop_name parted named beside somewhere (by omega) (by omega) _
    | succ k =>
      have short : Parted (dir ++ slashes j ++ name) dir name j 0 :=
        ⟨(List.append_nil _).symm, parted.clean, parted.ends, parted.whole, parted.named⟩
      have nonempty : dir ++ slashes j ++ name ≠ [] := by
        rw [Ne, List.append_eq_nil_iff]
        exact fun both => named both.2
      have ends : ∀ rest, dir ++ slashes j ++ name ≠ rest ++ [slash] := by
        intro rest same
        obtain ⟨first, c, rfl⟩ := (List.eq_nil_or_concat' name).resolve_left named
        rw [← List.append_assoc] at same
        have last := List.singleton_injective (List.append_inj' same rfl).2
        exact parted.clean (by rw [← last]; simp)
      have size : (dir ++ slashes j ++ name ++ slashes (k + 1)).length =
          (dir ++ slashes j ++ name ++ slashes k).length + 1 := by
        simp [slashes, Nat.add_assoc]
      have count : (slashes (k + 1)).length = k + 1 := List.length_replicate ..
      have text := parted.text
      subst text
      have fits : k + 1 < rounds := by
        rw [List.length_append, count] at enough
        omega
      have start : Beside m p (dir ++ slashes j ++ name ++ slashes (k + 1) ++ []) q (bytes ['.']) := by
        rw [List.append_nil]
        exact beside
      obtain ⟨w, erased, kept⟩ := eraseSlashes_back nonempty ends (Or.inr rfl) start room fits fun _ => rfl
      have last : p + (dir ++ slashes j ++ name ++ slashes (k + 1)).length - 1 =
          p + (dir ++ slashes j ++ name ++ slashes k).length := by omega
      rw [last] at erased
      have further : dir ++ slashes j ++ name ++ slashes k ≠ [] := by
        rw [Ne, List.append_eq_nil_iff]
        exact fun both => nonempty both.1
      have same : dirText dir name j (k + 1) = dirText dir name j 0 := by
        rw [dirText, dirText, if_neg named, if_neg named]
      rw [dirnameLoop_behind beside further (Nat.lt_of_succ_lt enough) erased, same]
      rw [List.length_append] at room enough
      exact dirnameLoop_name short named kept somewhere (by omega) (by omega) _

def pathMemory : Bytes.Memory := Bytes.memoryOf ([0, 0, 0, 0] ++ bytes ['/', 'a', '/', 'b'] ++ [0] ++ bytes ['.'])

theorem parted_file : Parted (bytes ['/', 'a', '/', 'b']) (bytes ['/', 'a']) (bytes ['b']) 1 0 := by
  refine ⟨by decide, by decide, fun front same => ?_, by decide, by decide⟩
  have split : [slash] ++ bytes ['a'] = front ++ [slash] := same
  have last := (List.append_inj' split rfl).2
  revert last
  decide

theorem basename_base_file :
    ∃ w r, basename 8 pathMemory 4 = some (w, r) ∧ Bytes.Holds w r (bytes ['b']) :=
  basename_base 8 pathMemory 4 _ _ _ 1 0 parted_file (by decide +kernel) (by decide) (by decide)

theorem dirname_iff_file :
    ∃ w r, dirname 8 pathMemory 4 9 = some (w, r) ∧ Bytes.Holds w r (bytes ['/', 'a']) := by
  have beside : Beside pathMemory 4 (bytes ['/', 'a', '/', 'b']) 9 (bytes ['.']) := by
    refine ⟨?_, ?_, Or.inr (by decide)⟩
    · decide +kernel
    · decide +kernel
  exact (dirname_iff 8 pathMemory 4 9 _ _ _ 1 0 parted_file beside (by decide) (by decide) (by decide)).mpr
    fun deep => absurd deep.2.1 (by decide)

end L4ertl
