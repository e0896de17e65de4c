import L4ertl.Core.Files

/-!
Paths of the root device (rootopen in devroot.c) against the tree that its two
tables describe. The walk looks for each name in all of roottab, and compares the
parent of the entry found last with the last directory that the scan has passed.
-/
namespace L4ertl

def Dirtab.IsDir (d : Dirtab) : Prop := d.qid.type &&& qtdir ≠ 0

instance (d : Dirtab) : Decidable d.IsDir := inferInstanceAs (Decidable (_ ≠ _))

/-- The tables of a directory tree: the children of a directory stand together behind
    it, and no two of them have the same name. -/
structure RootTab.OfTree (t : RootTab) : Prop where
  root : t.roottab.head? = some ⟨[], ⟨0, 0, qtdir⟩⟩
  top : (t.rootdata 0).dotdot = 0
  qids : ∀ j < t.rootmaxq, (t.dir j).qid.path.toNat = j
  types : ∀ j < t.rootmaxq, (t.dir j).qid.type = qtdir ∨ (t.dir j).qid.type = qtfile
  parents : ∀ j < t.rootmaxq, 0 < j → ∃ p < j, (t.rootdata j).dotdot = p ∧ (t.dir p).IsDir
  named : ∀ j < t.rootmaxq, 0 < j → (t.dir j).name ≠ []
  siblings : ∀ j < t.rootmaxq, ∀ i < j, 0 < i →
    (t.rootdata i).dotdot = (t.rootdata j).dotdot → (t.dir i).name ≠ (t.dir j).name
  together : ∀ k < t.rootmaxq, ∀ j ≤ k, ∀ i ≤ j, 0 < i →
    (t.rootdata i).dotdot = (t.rootdata k).dotdot → (t.rootdata j).dotdot = (t.rootdata i).dotdot

inductive Leads (t : RootTab) : Nat → List (List Byte) → Nat → Prop where
  | here (d : Nat) : Leads t d [] d
  | child {d j e : Nat} {name : List Byte} {rest : List (List Byte)} (inside : j < t.rootmaxq)
      (below : 0 < j) (parent : (t.rootdata j).dotdot = d) (named : (t.dir j).name = name)
      (onward : Leads t j rest e) : Leads t d (name :: rest) e

def absolutePath (comps : List (List Byte)) : List Byte :=
  if comps = [] then [slash] else comps.flatMap fun c => slash :: c

structure RootOpenRight (t : RootTab) (comps : List (List Byte)) (s w : Fs) (ret : Int) : Prop where
  found : ∀ e, Leads t 0 comps e → 0 ≤ ret ∧ (s.files ret.toNat).type = nodev ∧
    (w.files ret.toNat).type = devno Device.root.dc ∧ (w.files ret.toNat).qid = (t.dir e).qid
  missing : (∀ e, ¬Leads t 0 comps e) → ret = -1 ∧ w.errno = enoent ∧ w.files = s.files

/-- The first entry of that name, wherever in the tree. -/
def RootTab.firstNamed (t : RootTab) (name : List Byte) : Option Nat :=
  t.roottab.findIdx? fun e => name = e.name

def lastDir : List Dirtab → Nat → Int → Int
  | [], _, dotdot => dotdot
  | e :: rest, j, dotdot => lastDir rest (j + 1) (if e.IsDir then (j : Int) else dotdot)

def RootTab.dirBefore (t : RootTab) (j : Nat) : Int := lastDir (t.roottab.take j) 0 0

/-- The name at the end of a path; it is empty for the path "/". -/
def lastName (comps : List (List Byte)) : List Byte := comps.getLastD []

/-- When rootopen is right about a path. An entry to be found is the first of its name,
    its parent the last directory in front of it, and there is a free record. For a path
    that leads nowhere, some name is nowhere, or the first entry with the last name stands
    behind another directory than its parent. -/
structure Resolves (t : RootTab) (comps : List (List Byte)) (s : Fs) : Prop where
  found : ∀ e, Leads t 0 comps e → t.firstNamed (lastName comps) = some e ∧
    (t.rootdata e).dotdot = t.dirBefore e ∧ s.newfd < maxFiles
  missing : (∀ e, ¬Leads t 0 comps e) → (∃ c ∈ comps, t.firstNamed c = none) ∨
    ∃ j, t.firstNamed (lastName comps) = some j ∧ (t.rootdata j).dotdot ≠ t.dirBefore j

theorem newfd_le (s : Fs) : s.newfd ≤ maxFiles := by
  unfold Fs.newfd
  cases found : (List.range maxFiles).find? fun fd => (s.files fd).type = nodev with
  | none => exact Nat.le_refl _
  | some fd => exact Nat.le_of_lt (List.mem_range.mp (List.mem_of_find?_eq_some found))

theorem newfd_free {s : Fs} (room : s.newfd < maxFiles) : (s.files s.newfd).type = nodev := by
  unfold Fs.newfd at room ⊢
  cases found : (List.range maxFiles).find? fun fd => (s.files fd).type = nodev with
  | none =>
    rw [found] at room
    exact absurd room (Nat.lt_irrefl _)
  | some fd =>
    have free := List.find?_some found
    exact of_decide_eq_true free

theorem newfd_full_iff (s : Fs) : s.newfd = maxFiles ↔ ∀ fd < maxFiles, (s.files fd).type ≠ nodev := by
  constructor
  · intro full fd inside free
    have found : ((List.range maxFiles).find? fun fd => (s.files fd).type = nodev).isSome := by
      rw [List.find?_isSome]
      exact ⟨fd, List.mem_range.mpr inside, decide_eq_true free⟩
    obtain ⟨k, eq⟩ := Option.isSome_iff_exists.mp found
    have value : s.newfd = k := by
      rw [Fs.newfd, eq]
      rfl
    have below := List.mem_range.mp (List.mem_of_find?_eq_some eq)
    omega
  · intro taken
    rcases Nat.lt_or_ge s.newfd maxFiles with room | full
    · exact absurd (newfd_free room) (taken s.newfd room)
    · exact Nat.le_antisymm (newfd_le s) full

section
variable {t : RootTab}

theorem scanName_eq (name : List Byte) (l : List Dirtab) (j : Nat) (dotdot : Int) :
    scanName name l j dotdot =
      match l.findIdx? fun e => name = e.name with
      | none => (j + l.length, lastDir l j dotdot)
      | some k => (j + k, lastDir (l.take k) j dotdot) := by
  induction l generalizing j dotdot with
  | nil => rfl
  | cons e rest ih =>
    unfold scanName
    rw [List.findIdx?_cons]
    by_cases here : name = e.name
    · rw [if_pos here]
      simp only [here, decide_true, if_true]
      rfl
    · rw [if_neg here, ih]
      simp only [here, decide_false, Bool.false_eq_true, if_false]
      cases rest.findIdx? fun e => name = e.name with
      | none =>
        rw [List.length_cons, lastDir, Nat.add_assoc, Nat.add_comm 1]
        rfl
      | some k =>
        simp only [Option.map_some, List.take_succ_cons, lastDir, Nat.add_assoc, Nat.add_comm 1]
        rfl

theorem firstNamed_lt {name : List Byte} {j : Nat} (first : t.firstNamed name = some j) :
    j < t.rootmaxq := by
  obtain ⟨inside, _⟩ := List.findIdx?_eq_some_iff_findIdx_eq.mp first
  exact inside

theorem firstNamed_name {name : List Byte} {j : Nat} (first : t.firstNamed name = some j) :
    (t.dir j).name = name := by
  obtain ⟨inside, at_, _⟩ := List.findIdx?_eq_some_iff_getElem.mp first
  have entry : t.dir j = t.roottab[j] := by
    rw [RootTab.dir, List.getD_eq_getElem?_getD, List.getElem?_eq_getElem inside]
    rfl
  rw [entry]
  exact (of_decide_eq_true at_).symm

theorem lastDir_reset (tree : t.OfTree) {j : Nat} (below : 0 < j) (dotdot : Int) :
    lastDir (t.roottab.take j) 0 dotdot = t.dirBefore j := by
  have root := tree.root
  unfold RootTab.dirBefore
  cases entries : t.roottab with
  | nil =>
    rw [entries] at root
    cases root
  | cons e rest =>
    rw [entries] at root
    cases root
    cases j with
    | zero => exact absurd below (Nat.lt_irrefl 0)
    | succ k => rfl

theorem firstNamed_pos (tree : t.OfTree) {name : List Byte} (named : name ≠ []) {j : Nat}
    (first : t.firstNamed name = some j) : 0 < j := by
  rcases Nat.eq_zero_or_pos j with zero | below
  · subst zero
    have root := tree.root
    have text := firstNamed_name first
    rw [RootTab.dir, List.getD_eq_getElem?_getD, ← List.head?_eq_getElem?, root] at text
    exact absurd text.symm named
  · exact below

theorem qtfile_never (type : BitVec 8) : ¬type &&& qtfile ≠ 0 := by
  simp [qtfile]

theorem walkNames_cons (tree : t.OfTree) {name : List Byte} (named : name ≠ []) (rest : List (List Byte))
    (j : Nat) (dotdot : Int) :
    walkNames t (name :: rest) j dotdot =
      match t.firstNamed name with
      | none => none
      | some k => walkNames t rest k (t.dirBefore k) := by
  rw [walkNames, scanName_eq]
  cases first : t.firstNamed name with
  | none =>
    rw [RootTab.firstNamed] at first
    simp only [first, Nat.zero_add]
    exact if_pos rfl
  | some k =>
    have inside := firstNamed_lt first
    have passed := lastDir_reset tree (firstNamed_pos tree named first) dotdot
    rw [RootTab.firstNamed] at first
    simp only [first, Nat.zero_add, passed]
    rw [if_neg (Nat.ne_of_lt inside), if_neg (qtfile_never _)]

theorem walkNames_none (tree : t.OfTree) {comps : List (List Byte)} (named : ∀ c ∈ comps, c ≠ [])
    (gap : ∃ c ∈ comps, t.firstNamed c = none) (j : Nat) (dotdot : Int) :
    walkNames t comps j dotdot = none := by
  induction comps generalizing j dotdot with
  | nil =>
    obtain ⟨c, member, _⟩ := gap
    cases member
  | cons name rest ih =>
    rw [walkNames_cons tree (named name List.mem_cons_self)]
    cases first : t.firstNamed name with
    | none => rfl
    | some k =>
      apply ih fun c member => named c (List.mem_cons_of_mem name member)
      obtain ⟨c, member, nowhere⟩ := gap
      rcases List.mem_cons.mp member with rfl | later
      · rw [first] at nowhere
        cases nowhere
      · exact ⟨c, later, nowhere⟩

theorem walkNames_some (tree : t.OfTree) {comps : List (List Byte)} (named : ∀ c ∈ comps, c ≠ [])
    (full : comps ≠ []) (all : ∀ c ∈ comps, t.firstNamed c ≠ none) (j : Nat) (dotdot : Int) :
    ∃ k, t.firstNamed (lastName comps) = some k ∧ walkNames t comps j dotdot = some (k, t.dirBefore k) := by
  induction comps generalizing j dotdot with
  | nil => exact absurd rfl full
  | cons name rest ih =>
    obtain ⟨k, first⟩ := Option.ne_none_iff_exists'.mp (all name List.mem_cons_self)
    rw [walkNames_cons tree (named name List.mem_cons_self), first]
    cases rest with
    | nil => exact ⟨k, first, rfl⟩
    | cons next more =>
      obtain ⟨l, last, ends⟩ := ih (fun c member => named c (List.mem_cons_of_mem name member))
        (List.cons_ne_nil next more) (fun c member => all c (List.mem_cons_of_mem name member)) k
        (t.dirBefore k)
      exact ⟨l, last, ends⟩

theorem OfTree.firstNamed_root (tree : t.OfTree) : t.firstNamed [] = some 0 := by
  have root := tree.root
  unfold RootTab.firstNamed
  cases entries : t.roottab with
  | nil =>
    rw [entries] at root
    cases root
  | cons e rest =>
    rw [entries] at root
    cases root
    rfl

theorem OfTree.rootmaxq_pos (tree : t.OfTree) : 0 < t.rootmaxq := firstNamed_lt (OfTree.firstNamed_root tree)

def tabnames (comps : List (List Byte)) : List (List Byte) := if comps = [] then [[]] else comps

theorem walkNames_path (tree : t.OfTree) {comps : List (List Byte)} (named : ∀ c ∈ comps, c ≠ []) :
    ((∃ c ∈ comps, t.firstNamed c = none) ∧ walkNames t (tabnames comps) 0 0 = none) ∨
    ((∀ c ∈ comps, t.firstNamed c ≠ none) ∧ ∃ k, t.firstNamed (lastName comps) = some k ∧
      walkNames t (tabnames comps) 0 0 = some (k, t.dirBefore k)) := by
  by_cases empty : comps = []
  · subst empty
    have first := OfTree.firstNamed_root tree
    refine Or.inr ⟨nofun, 0, first, ?_⟩
    rw [RootTab.firstNamed] at first
    rw [tabnames, if_pos rfl, walkNames, scanName_eq, first]
    simp only [Nat.zero_add]
    rw [if_neg (Nat.ne_of_lt (OfTree.rootmaxq_pos tree)), if_neg (qtfile_never _)]
    rfl
  · rw [tabnames, if_neg empty]
    by_cases gap : ∃ c ∈ comps, t.firstNamed c = none
    · exact Or.inl ⟨gap, walkNames_none tree named gap 0 0⟩
    · have all : ∀ c ∈ comps, t.firstNamed c ≠ none := fun c member none_ => gap ⟨c, member, none_⟩
      exact Or.inr ⟨all, walkNames_some tree named empty all 0 0⟩

theorem firstNamed_of_entry {j : Nat} (inside : j < t.rootmaxq) : t.firstNamed (t.dir j).name ≠ none := by
  intro nowhere
  have entry : t.dir j = t.roottab[j] := by
    rw [RootTab.dir, List.getD_eq_getElem?_getD, List.getElem?_eq_getElem inside]
    rfl
  have other := List.findIdx?_eq_none_iff.mp nowhere (t.dir j) (entry ▸ List.getElem_mem inside)
  exact absurd other (by simp)

theorem Leads.all_named {d e : Nat} {comps : List (List Byte)} (leads : Leads t d comps e) :
    ∀ c ∈ comps, t.firstNamed c ≠ none := by
  induction leads with
  | here d => nofun
  | child inside _ _ named _ ih =>
    intro c member
    rcases List.mem_cons.mp member with rfl | later
    · rw [← named]
      exact firstNamed_of_entry inside
    · exact ih c later

theorem Leads.inside {d e : Nat} {comps : List (List Byte)} (leads : Leads t d comps e)
    (start : d < t.rootmaxq) : e < t.rootmaxq := by
  induction leads with
  | here d => exact start
  | child inside _ _ _ _ ih => exact ih inside

theorem OfTree.same_child (tree : t.OfTree) {i j : Nat} (inside : i < t.rootmaxq) (also : j < t.rootmaxq)
    (below : 0 < i) (below' : 0 < j) (parent : (t.rootdata i).dotdot = (t.rootdata j).dotdot)
    (named : (t.dir i).name = (t.dir j).name) : i = j := by
  rcases Nat.lt_trichotomy i j with before | same | behind
  · exact absurd named (tree.siblings j also i before below parent)
  · exact same
  · exact absurd named.symm (tree.siblings i inside j behind below' parent.symm)

theorem Leads.unique (tree : t.OfTree) {d e f : Nat} {comps : List (List Byte)} (one : Leads t d comps e)
    (two : Leads t d comps f) : e = f := by
  induction one with
  | here d =>
    cases two
    rfl
  | child inside below parent named _ ih =>
    cases two with
    | child inside' below' parent' named' onward =>
      have same := OfTree.same_child tree inside inside' below below' (parent.trans parent'.symm)
        (named.trans named'.symm)
      exact ih (same ▸ onward)

theorem qid_inj (tree : t.OfTree) {i j : Nat} (inside : i < t.rootmaxq) (also : j < t.rootmaxq)
    (same : (t.dir i).qid = (t.dir j).qid) : i = j := by
  rw [← tree.qids i inside, ← tree.qids j also, same]

end

theorem textsAfter_append {c : List Byte} (plain : slash ∉ c) (rest : List Byte) :
    textsAfter (c ++ rest) = textsAfter rest := by
  induction c with
  | nil => rfl
  | cons b c ih =>
    simp only [List.mem_cons, not_or] at plain
    rw [List.cons_append, textsAfter, if_neg (Ne.symm plain.1), ih plain.2]

theorem takeWhile_component {c : List Byte} (plain : slash ∉ c) (rest : List (List Byte)) :
    (c ++ rest.flatMap fun d => slash :: d).takeWhile (· ≠ slash) = c := by
  rw [List.takeWhile_append_of_pos]
  · cases rest with
    | nil => simp
    | cons d more => simp
  · intro b member
    have other : b ≠ slash := by
      rintro rfl
      exact plain member
    simpa using other

theorem textsAfter_components {comps : List (List Byte)} (plain : ∀ c ∈ comps, slash ∉ c) :
    textsAfter (comps.flatMap fun c => slash :: c) = comps := by
  induction comps with
  | nil => rfl
  | cons c rest ih =>
    have here := plain c List.mem_cons_self
    rw [List.flatMap_cons, List.cons_append, textsAfter, if_pos rfl, takeWhile_component here,
      textsAfter_append here, ih fun d member => plain d (List.mem_cons_of_mem c member)]

theorem count_components {comps : List (List Byte)} (plain : ∀ c ∈ comps, slash ∉ c) :
    (comps.flatMap fun c => slash :: c).count slash = comps.length := by
  rw [← textsAfter_length, textsAfter_components plain]

theorem absolutePath_head (comps : List (List Byte)) : (absolutePath comps).head? = some slash := by
  unfold absolutePath
  split
  · rfl
  · rename_i full
    cases comps with
    | nil => exact absurd rfl full
    | cons c rest => rfl

theorem names_absolutePath {comps : List (List Byte)} (plain : ∀ c ∈ comps, slash ∉ c) :
    names (absolutePath comps) = tabnames comps := by
  rw [names, absolutePath_head, if_pos rfl, List.nil_append, absolutePath, tabnames]
  split
  · rfl
  · exact textsAfter_components plain

theorem absolutePath_clean {comps : List (List Byte)} (clean : ∀ c ∈ comps, nul ∉ c) :
    nul ∉ absolutePath comps := by
  unfold absolutePath
  split
  · decide
  · rw [List.mem_flatMap]
    rintro ⟨c, member, here⟩
    rcases List.mem_cons.mp here with first | inside
    · exact slash_ne_nul first.symm
    · exact clean c member inside

theorem absolutePath_fits {comps : List (List Byte)} (plain : ∀ c ∈ comps, slash ∉ c)
    (few : comps.length ≤ 9) (short : (absolutePath comps).length ≤ 63) : NameFits (absolutePath comps) := by
  refine ⟨Nat.lt_succ_of_le short, ?_⟩
  rw [absolutePath_head, if_pos rfl, absolutePath]
  split
  · decide
  · rw [count_components plain]
    exact Nat.lt_succ_of_le few

theorem rootWalk_cases {t : RootTab} (tree : t.OfTree) {comps : List (List Byte)}
    (named : ∀ c ∈ comps, c ≠ []) (s : Fs) :
    (((∃ c ∈ comps, t.firstNamed c = none) ∨ ∃ k, t.firstNamed (lastName comps) = some k ∧
        (t.rootdata k).dotdot ≠ t.dirBefore k) ∧
      rootWalk t (tabnames comps) s = (s.setErrno enoent, -1)) ∨
    ∃ k, (∀ c ∈ comps, t.firstNamed c ≠ none) ∧ t.firstNamed (lastName comps) = some k ∧
      (t.rootdata k).dotdot = t.dirBefore k ∧
      rootWalk t (tabnames comps) s =
        if s.newfd = maxFiles then (s.setErrno enfile, -1)
        else (s.setFile s.newfd { s.files s.newfd with
          type := devno Device.root.dc, qid := (t.dir k).qid, pos := 0 }, (s.newfd : Int)) := by
  unfold rootWalk
  rcases walkNames_path tree named with ⟨gap, nowhere⟩ | ⟨all, k, last, ends⟩
  · rw [nowhere]
    exact Or.inl ⟨Or.inl gap, rfl⟩
  · rw [ends]
    by_cases parent : (t.rootdata k).dotdot = t.dirBefore k
    · refine Or.inr ⟨k, all, last, parent, ?_⟩
      exact if_neg (not_not.mpr parent)
    · exact Or.inl ⟨Or.inr ⟨k, last, parent⟩, if_pos parent⟩

theorem right_of_enoent (t : RootTab) (comps : List (List Byte)) (s : Fs) :
    RootOpenRight t comps s (s.setErrno enoent) (-1) ↔ ∀ e, ¬Leads t 0 comps e := by
  constructor
  · intro right e leads
    exact absurd (right.found e leads).1 (by decide)
  · intro nowhere
    exact ⟨fun e leads => absurd leads (nowhere e), fun _ => ⟨rfl, rfl, rfl⟩⟩

theorem not_right_of_enfile {t : RootTab} (comps : List (List Byte)) (s : Fs) :
    ¬RootOpenRight t comps s (s.setErrno enfile) (-1) := by
  intro right
  by_cases some_ : ∃ e, Leads t 0 comps e
  · obtain ⟨e, leads⟩ := some_
    exact absurd (right.found e leads).1 (by decide)
  · have errno : enfile = enoent := (right.missing fun e leads => some_ ⟨e, leads⟩).2.1
    exact absurd errno (by decide)

theorem right_of_opened {t : RootTab} (tree : t.OfTree) {comps : List (List Byte)} {s : Fs}
    (room : s.newfd < maxFiles) {k : Nat} (inside : k < t.rootmaxq) :
    RootOpenRight t comps s (s.setFile s.newfd { s.files s.newfd with
      type := devno Device.root.dc, qid := (t.dir k).qid, pos := 0 }) s.newfd ↔ Leads t 0 comps k := by
  constructor
  · intro right
    by_cases some_ : ∃ e, Leads t 0 comps e
    · obtain ⟨e, leads⟩ := some_
      have qid := (right.found e leads).2.2.2
      simp only [Fs.setFile, Int.toNat_natCast, Function.update_self] at qid
      have same := qid_inj tree inside (leads.inside (OfTree.rootmaxq_pos tree)) qid
      exact same ▸ leads
    · have failed := (right.missing fun e leads => some_ ⟨e, leads⟩).1
      omega
  · intro leads
    constructor
    · intro e other
      have same := leads.unique tree other
      subst same
      refine ⟨Int.natCast_nonneg _, newfd_free room, ?_, ?_⟩
      · simp only [Fs.setFile, Int.toNat_natCast, Function.update_self]
      · simp only [Fs.setFile, Int.toNat_natCast, Function.update_self]
    · intro nowhere
      exact absurd leads (nowhere k)

theorem resolves_lost_iff {t : RootTab} {comps : List (List Byte)} {s : Fs}
    (lost : (∃ c ∈ comps, t.firstNamed c = none) ∨
      ∃ k, t.firstNamed (lastName comps) = some k ∧ (t.rootdata k).dotdot ≠ t.dirBefore k) :
    Resolves t comps s ↔ ∀ e, ¬Leads t 0 comps e := by
  constructor
  · intro resolves e leads
    obtain ⟨first, parent, _⟩ := resolves.found e leads
    rcases lost with ⟨c, member, gap⟩ | ⟨k, also, other⟩
    · exact leads.all_named c member gap
    · rw [first] at also
      cases also
      exact other parent
  · intro nowhere
    exact ⟨fun e leads => absurd leads (nowhere e), fun _ => lost⟩

theorem resolves_ends_iff {t : RootTab} (tree : t.OfTree) {comps : List (List Byte)} {s : Fs} {k : Nat}
    (all : ∀ c ∈ comps, t.firstNamed c ≠ none) (last : t.firstNamed (lastName comps) = some k)
    (parent : (t.rootdata k).dotdot = t.dirBefore k) :
    Resolves t comps s ↔ Leads t 0 comps k ∧ s.newfd < maxFiles := by
  constructor
  · intro resolves
    by_cases some_ : ∃ e, Leads t 0 comps e
    · obtain ⟨e, leads⟩ := some_
      obtain ⟨first, _, room⟩ := resolves.found e leads
      rw [last] at first
      cases first
      exact ⟨leads, room⟩
    · rcases resolves.missing fun e leads => some_ ⟨e, leads⟩ with ⟨c, member, gap⟩ | ⟨j, also, other⟩
      · exact absurd gap (all c member)
      · rw [last] at also
        cases also
        exact absurd parent other
  · rintro ⟨leads, room⟩
    constructor
    · intro e other
      have same := leads.unique tree other
      exact same ▸ ⟨last, parent, room⟩
    · intro nowhere
      exact absurd leads (nowhere k)

/-- For the tables of any tree and any absolute path with room in the buffers, rootopen
    returns, and it is right exactly when the path resolves by its last name alone. -/
theorem rootopen_right_iff (t : RootTab) (tree : t.OfTree) (comps : List (List Byte))
    (plain : ∀ c ∈ comps, c ≠ [] ∧ slash ∉ c ∧ nul ∉ c) (few : comps.length ≤ 9)
    (short : (absolutePath comps).length ≤ 63) (s : Fs) :
    ∃ w ret, rootopen t (absolutePath comps) s = .ok (w, ret) ∧
      (RootOpenRight t comps s w ret ↔ Resolves t comps s) := by
  have slashes : ∀ c ∈ comps, slash ∉ c := fun c member => (plain c member).2.1
  have sliced := slice_fits (absolutePath_clean fun c member => (plain c member).2.2)
    (absolutePath_fits slashes few short)
  rw [names_absolutePath slashes] at sliced
  have opened : rootopen t (absolutePath comps) s = .ok (rootWalk t (tabnames comps) s) := by
    rw [rootopen, sliced]
    rfl
  refine ⟨(rootWalk t (tabnames comps) s).1, (rootWalk t (tabnames comps) s).2, opened, ?_⟩
  rcases rootWalk_cases tree (fun c member => (plain c member).1) s with
    ⟨lost, result⟩ | ⟨k, all, last, parent, result⟩
  · rw [result, right_of_enoent, resolves_lost_iff lost]
  · rw [result, resolves_ends_iff tree all last parent]
    by_cases full : s.newfd = maxFiles
    · rw [if_pos full]
      constructor
      · intro right
        exact absurd right (not_right_of_enfile comps s)
      · intro resolves
        exact absurd full (Nat.ne_of_lt resolves.2)
    · have room : s.newfd < maxFiles := Nat.lt_of_le_of_ne (newfd_le s) full
      rw [if_neg full, right_of_opened tree room (firstNamed_lt last)]
      exact ⟨fun leads => ⟨leads, room⟩, fun ends => ends.1⟩

theorem prtkcfRoot_ofTree : (prtkcfRoot (fun _ => 0) 0).OfTree where
  root := by decide
  top := by decide
  qids := by decide
  types := by decide
  parents := by decide
  named := by decide
  siblings := by decide
  together := by decide

def usrNotes : List (List Byte) := [bytes ['u', 's', 'r'], bytes ['N', 'O', 'T', 'E', 'S']]

theorem rootopen_right_iff_notes :
    ∃ w ret, rootopen (prtkcfRoot (fun _ => 0) 0) (absolutePath usrNotes) (.start fun _ => .free) = .ok (w, ret) ∧
      ret = 0 ∧ RootOpenRight (prtkcfRoot (fun _ => 0) 0) usrNotes (.start fun _ => .free) w ret := by
  obtain ⟨w, ret, opened, right⟩ := rootopen_right_iff (prtkcfRoot (fun _ => 0) 0) prtkcfRoot_ofTree usrNotes
    (by decide) (by decide) (by decide) (.start fun _ => .free)
  have leads : Leads (prtkcfRoot (fun _ => 0) 0) 0 usrNotes 4 :=
    .child (by decide) (by decide) rfl rfl (.child (by decide) (by decide) rfl rfl (.here 4))
  have resolves : Resolves (prtkcfRoot (fun _ => 0) 0) usrNotes (.start fun _ => .free) := by
    constructor
    · intro e other
      have same := leads.unique prtkcfRoot_ofTree other
      subst same
      exact ⟨by decide, by decide, by decide⟩
    · intro nowhere
      exact absurd leads (nowhere 4)
  refine ⟨w, ret, opened, ?_, right.mpr resolves⟩
  have result : rootopen (prtkcfRoot (fun _ => 0) 0) (absolutePath usrNotes) (.start fun _ => .free) =
      .ok (_, 0) := rfl
  rw [opened] at result
  cases result
  rfl

/-- /tmp of the shipped tree is not found: the scan passes /dev before it. -/
theorem rootopen_misses_tmp :
    let t := prtkcfRoot (fun _ => 0) 0
    let tmp := [bytes ['t', 'm', 'p']]
    Leads t 0 tmp 2 ∧ ∃ w, rootopen t (absolutePath tmp) (.start fun _ => .free) = .ok (w, -1) ∧
      ¬RootOpenRight t tmp (.start fun _ => .free) w (-1) := by
  intro t tmp
  have leads : Leads t 0 tmp 2 := .child (by decide) (by decide) rfl rfl (.here 2)
  have sliced : slice (namecopy (absolutePath tmp)) = .ok tmp := by decide +kernel
  have walked : walkNames t tmp 0 0 = some (2, 1) := by decide +kernel
  have parent : (t.rootdata 2).dotdot ≠ 1 := by decide
  have failed : rootopen t (absolutePath tmp) (.start fun _ => .free) =
      .ok ((Fs.start fun _ => .free).setErrno enoent, -1) := by
    rw [rootopen, sliced]
    simp only [bind, Except.bind, pure, Except.pure, rootWalk, walked]
    rw [if_pos parent]
  refine ⟨leads, _, failed, fun right => ?_⟩
  exact absurd (right.found 2 leads).1 (by decide)

end L4ertl
