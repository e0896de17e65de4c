import Mathlib.Data.List.Find
import L4ertl.Lib.Descriptors
import L4ertl.Core.SequentialReads
import L4ertl.Core.FileTable

/-!
The file system as a service (fs.c over the devices console, root and test): which
object a path names, what is in it, and that open_sys, close_sys and read_sys do to
the file table what the abstract calls do to a table of descriptors.
-/
namespace L4ertl
open Descriptors

/-- What can be read behind a descriptor: a file of the console by its index in contab,
    an entry of roottab, or the device test. -/
inductive FileObject where
  | console (i : Nat)
  | root (e : Nat)
  | test
  deriving DecidableEq

def FileObject.device : FileObject → Device
  | .console _ => .console
  | .root _ => .root
  | .test => .test

def FileObject.contents (t : RootTab) : FileObject → List Byte
  | .console 1 => listdevices
  | .console 4 => version
  | .console _ => []
  | .root e => t.contents e
  | .test => []

/-- Reading /dev/console/kprint fails. -/
def FileObject.Readable : FileObject → Prop
  | .console i => i < 5 ∧ i ≠ 2
  | .root _ | .test => True

/-- The path goes to the device, for which `rest` is left: the name of a device ends at
    a slash or at a digit. -/
def Under (d : Device) (path rest : List Byte) : Prop :=
  ∃ c, (isdigit c ∨ c = slash) ∧ path = devPrefix ++ d.name ++ c :: rest

/-- The object that a path names. A path under /dev/ belongs to a device, and to the
    device root only by its name. -/
inductive Names (t : RootTab) : List Byte → FileObject → Prop where
  | root {comps : List (List Byte)} {e : Nat} (plain : ∀ c ∈ comps, c ≠ [] ∧ slash ∉ c)
      (own : devPrefix <+: absolutePath comps → ∃ rest, Under .root (absolutePath comps) rest)
      (leads : Leads t 0 comps e) : Names t (absolutePath comps) (.root e)
  | console {path : List Byte} {entry : Dirtab} (listed : entry ∈ contab)
      (under : Under .console path entry.name) : Names t path (.console entry.qid.path.toNat)
  | test {path rest : List Byte} (under : Under .test path rest) : Names t path .test

open Classical in
noncomputable def named (t : RootTab) (path : CString) : Option FileObject :=
  if found : ∃ o, Names t path.val o then some found.choose else none

noncomputable def fileService (t : RootTab) : Files CString FileObject Byte := ⟨named t, FileObject.contents t⟩

/-- A call of the file system; `none` where it leaves a buffer or has no driver. -/
def serviceStep (t : RootTab) (s : Fs) : Call CString → Option (Fs × List (Answer CString Byte))
  | .open_ path =>
    match openSys t path s with
    | .ok (w, ret) => some (w, [⟨.open_ path, [], ret⟩])
    | .error _ => none
  | .close fd => (closeSys fd s).map fun r => (r.1, [⟨.close fd, [], r.2⟩])
  | .read fd count =>
    (readSys t fd (BitVec.ofNat 32 count) s).map fun r => (r.fs, [⟨.read fd count, r.copied, r.ret.toInt⟩])

structure Findable (t : RootTab) (comps : List (List Byte)) : Prop where
  found : ∀ e, Leads t 0 comps e → t.firstNamed (lastName comps) = some e ∧
    (t.rootdata e).dotdot = t.dirBefore e
  missing : (∀ e, ¬Leads t 0 comps e) → (∃ c ∈ comps, t.firstNamed c = none) ∨
    ∃ j, t.firstNamed (lastName comps) = some j ∧ (t.rootdata j).dotdot ≠ t.dirBefore j

def routed (path : List Byte) : Option Device :=
  if devPrefix <+: path then
    (stopIndex path).bind fun i => devtab.find? fun d => d.name = deviceText path i
  else some .root

/-- The path has room in the buffers; one for the device root is absolute and found by
    its names, and it is not the file that cannot be read. -/
structure PathServed (t : RootTab) (path : List Byte) : Prop where
  room : PathFits path
  short : path.length < 2 ^ 31
  byNames : routed path = some .root → ∃ comps, path = absolutePath comps ∧
    (∀ c ∈ comps, c ≠ [] ∧ slash ∉ c) ∧ Findable t comps
  readable : ¬Under .console path (bytes ['k', 'p', 'r', 'i', 'n', 't'])

def CallServed (t : RootTab) : Call CString → Prop
  | .open_ path => PathServed t path.val
  | .close _ => True
  | .read _ count => count < 2 ^ 31

structure RecordOf (t : RootTab) (f : File) (o : FileObject) (p : Nat) : Prop where
  device : f.type = devno o.device.dc
  file : ∀ i, o = .console i ∨ o = .root i → f.qid.path.toNat = i
  readable : o.Readable
  position : f.pos.toNat = p
  within : p ≤ (o.contents t).length

def StandsFor (t : RootTab) (s : Fs) (d : Table FileObject) : Prop :=
  ∀ fd < maxFiles, (d fd = none → s.files fd = .free) ∧
    ∀ o p, d fd = some (o, p) → RecordOf t (s.files fd) o p

theorem stopFrom_plain {text : List Byte} (plain : ∀ c ∈ text, ¬(isdigit c ∨ c = slash)) {c : Byte}
    (stops : isdigit c ∨ c = slash) (rest : List Byte) (i : Nat) :
    stopFrom (text ++ c :: rest) i = some (i + text.length) := by
  induction text generalizing i with
  | nil => exact if_pos stops
  | cons b text ih =>
    have here := plain b List.mem_cons_self
    have later := ih (fun b' member => plain b' (List.mem_cons_of_mem b member)) (i + 1)
    rw [List.cons_append, stopFrom, if_neg here, later, List.length_cons]
    congr 1
    omega

theorem stopFrom_split {path : List Byte} {i k : Nat} (stop : stopFrom path i = some k) :
    ∃ text c rest, path = text ++ c :: rest ∧ (isdigit c ∨ c = slash) ∧ k = i + text.length := by
  induction path generalizing i with
  | nil => cases stop
  | cons b path ih =>
    unfold stopFrom at stop
    split at stop
    · rename_i stops
      cases stop
      exact ⟨[], b, path, rfl, stops, rfl⟩
    · obtain ⟨text, c, rest, split_, stops, same⟩ := ih stop
      refine ⟨b :: text, c, rest, by rw [split_]; rfl, stops, ?_⟩
      rw [same, List.length_cons]
      omega

theorem deviceName_plain (d : Device) : ∀ c ∈ d.name, ¬(isdigit c ∨ c = slash) := by
  cases d <;> decide

theorem findDevice_self (d : Device) : (devtab.find? fun d' => d'.name = d.name) = some d := by
  cases d <;> decide

theorem Under.dev {d : Device} {path rest : List Byte} (under : Under d path rest) : devPrefix <+: path := by
  obtain ⟨c, _, rfl⟩ := under
  rw [List.append_assoc]
  exact List.prefix_append ..

theorem Under.routed {d : Device} {path rest : List Byte} (under : Under d path rest)
    (short : path.length < 2 ^ 31) : routed path = some d := by
  have dev := under.dev
  obtain ⟨c, stops, rfl⟩ := under
  have behind : (devPrefix ++ d.name ++ c :: rest).drop devPrefix.length = d.name ++ c :: rest := by
    rw [List.append_assoc, List.drop_left']
    rfl
  have stop : stopIndex (devPrefix ++ d.name ++ c :: rest) = some (devPrefix.length + d.name.length) := by
    rw [stopIndex, if_pos short, behind, stopFrom_plain (deviceName_plain d) stops]
  have text : deviceText (devPrefix ++ d.name ++ c :: rest) (devPrefix.length + d.name.length) = d.name := by
    rw [deviceText, behind, Nat.add_sub_cancel_left, List.take_left']
    rfl
  rw [L4ertl.routed, if_pos dev, stop, Option.bind_some, text, findDevice_self]

theorem under_of_routed {d : Device} {path : List Byte} (short : path.length < 2 ^ 31)
    (found : routed path = some d) (dev : devPrefix <+: path) : ∃ rest, Under d path rest := by
  rw [routed, if_pos dev, stopIndex, if_pos short] at found
  obtain ⟨i, stop, named⟩ := Option.bind_eq_some_iff.mp found
  obtain ⟨text, c, rest, split_, stops, rfl⟩ := stopFrom_split stop
  have front : path = devPrefix ++ path.drop devPrefix.length := (List.prefix_iff_eq_append.mp dev).symm
  have own : text = d.name := by
    have same := findDevice_name named
    rw [same, deviceText, split_, Nat.add_sub_cancel_left, List.take_left']
    rfl
  refine ⟨rest, c, stops, ?_⟩
  rw [front, split_, own, List.append_assoc]

theorem Names.routed {t : RootTab} {path : List Byte} {o : FileObject} (names : Names t path o)
    (short : path.length < 2 ^ 31) : routed path = some o.device := by
  cases names with
  | @root comps e plain own leads =>
    by_cases dev : devPrefix <+: absolutePath comps
    · obtain ⟨rest, under⟩ := own dev
      exact under.routed short
    · exact if_neg dev
  | console listed under => exact under.routed short
  | test under => exact under.routed short

theorem openSys_routed (t : RootTab) (path : CString) (s : Fs) (fits : PathFits path.val) :
    openSys t path s =
      match routed path.val with
      | none => .ok (s.setErrno enoent, -1)
      | some d => d.openPath t path.val s := by
  unfold PathFits at fits
  by_cases dev : devPrefix <+: path.val
  · rw [if_pos dev] at fits
    cases stop : stopIndex path.val with
    | none =>
      have never : deviceName path.val = .ok none := by simp only [deviceName, stop]
      rw [openSys, if_neg (not_not.mpr dev), never, routed, if_pos dev, stop]
      rfl
    | some i =>
      rw [stop] at fits
      have found : routed path.val = devtab.find? fun d => d.name = deviceText path.val i := by
        rw [routed, if_pos dev, stop, Option.bind_some]
      rw [found]
      exact openSys_device dev stop fits.1
  · rw [openSys, if_pos dev, routed, if_neg dev]
    rfl

section
variable {t : RootTab}

theorem rootWalk_finds (tree : t.OfTree) {comps : List (List Byte)} (nonempty : ∀ c ∈ comps, c ≠ [])
    (findable : Findable t comps) (s : Fs) :
    ((∀ e, ¬Leads t 0 comps e) ∧ rootWalk t (tabnames comps) s = (s.setErrno enoent, -1)) ∨
    ∃ k, Leads t 0 comps k ∧ rootWalk t (tabnames comps) s =
      if s.newfd = maxFiles then (s.setErrno enfile, -1)
      else (s.setFile s.newfd { s.files s.newfd with
        type := devno Device.root.dc, qid := (t.dir k).qid, pos := 0 }, (s.newfd : Int)) := by
  rcases rootWalk_cases tree nonempty s with ⟨lost, result⟩ | ⟨k, all, last, parent, result⟩
  · refine Or.inl ⟨fun e leads => ?_, result⟩
    obtain ⟨first, own⟩ := findable.found e leads
    rcases lost with ⟨c, member, gap⟩ | ⟨k, last, other⟩
    · exact leads.all_named c member gap
    · rw [first] at last
      cases last
      exact other own
  · refine Or.inr ⟨k, ?_, result⟩
    by_cases some_ : ∃ e, Leads t 0 comps e
    · obtain ⟨e, leads⟩ := some_
      have first := (findable.found e leads).1
      rw [last] at first
      cases first
      exact leads
    · rcases findable.missing fun e leads => some_ ⟨e, leads⟩ with ⟨c, member, gap⟩ | ⟨j, first, other⟩
      · exact absurd gap (all c member)
      · rw [last] at first
        cases first
        exact absurd parent other

theorem contab_names : ∀ e ∈ contab, ∀ f ∈ contab, e.name = f.name → e = f := by decide

theorem Under.unique {d : Device} {path rest rest' : List Byte} (one : Under d path rest)
    (two : Under d path rest') : rest = rest' := by
  obtain ⟨c, _, rfl⟩ := one
  obtain ⟨c', _, same⟩ := two
  exact (List.cons.inj (List.append_cancel_left same)).2

theorem consoleEntry_iff {path rest : List Byte} (under : Under .console path rest) {e : Dirtab} :
    consoleEntry path = some e ↔ e ∈ contab ∧ rest = e.name := by
  obtain ⟨c, _, rfl⟩ := under
  have behind : (devPrefix ++ Device.console.name ++ c :: rest).drop consolePrefix.length = rest := by
    have same : consolePrefix.length = (devPrefix ++ Device.console.name).length + 1 := by decide
    rw [same, ← List.drop_drop, List.drop_left']
    · rfl
    · rfl
  simp only [consoleEntry, behind]
  constructor
  · intro found
    have same := List.find?_some found
    exact ⟨List.mem_of_find?_eq_some found, of_decide_eq_true same⟩
  · rintro ⟨listed, rfl⟩
    cases found : contab.find? fun f => e.name = f.name with
    | none =>
      have differs := List.find?_eq_none.mp found e listed
      simp at differs
    | some f =>
      have same := List.find?_some found
      rw [contab_names e listed f (List.mem_of_find?_eq_some found) (of_decide_eq_true same)]

theorem absolutePath_inj {one two : List (List Byte)} (plain : ∀ c ∈ one, c ≠ [] ∧ slash ∉ c)
    (plain' : ∀ c ∈ two, c ≠ [] ∧ slash ∉ c) (same : absolutePath one = absolutePath two) : one = two := by
  have names_ : tabnames one = tabnames two := by
    rw [← names_absolutePath fun c member => (plain c member).2, same,
      names_absolutePath fun c member => (plain' c member).2]
  unfold tabnames at names_
  split at names_ <;> split at names_
  · rename_i empty empty'
    rw [empty, empty']
  · exact absurd rfl (plain' [] (names_ ▸ List.mem_cons_self)).1
  · exact absurd rfl (plain [] (names_ ▸ List.mem_cons_self)).1
  · exact names_

theorem Names.unique (tree : t.OfTree) {path : List Byte} (short : path.length < 2 ^ 31) {o o' : FileObject}
    (one : Names t path o) (two : Names t path o') : o = o' := by
  have device : o.device = o'.device := Option.some.inj ((one.routed short).symm.trans (two.routed short))
  cases one with
  | @root comps e plain own leads =>
    generalize whole : absolutePath comps = path at two
    cases two with
    | @root comps' e' plain' own' leads' =>
      have same := absolutePath_inj plain plain' whole
      subst same
      rw [leads.unique tree leads']
    | console listed under => cases device
    | test under => cases device
  | @console path entry listed under =>
    cases two with
    | root plain' own' leads' => cases device
    | @console path entry' listed' under' =>
      rw [contab_names entry listed entry' listed' (under.unique under')]
    | test under' => cases device
  | test under =>
    cases o' with
    | console i => cases device
    | root e => cases device
    | test => rfl

theorem named_iff (tree : t.OfTree) {path : CString} (short : path.val.length < 2 ^ 31) {o : FileObject} :
    named t path = some o ↔ Names t path.val o := by
  unfold named
  constructor
  · intro found
    split at found
    · rename_i some_
      cases found
      exact some_.choose_spec
    · cases found
  · intro names
    have some_ : ∃ o, Names t path.val o := ⟨o, names⟩
    rw [dif_pos some_, some_.choose_spec.unique tree short names]

theorem named_none {path : CString} (nowhere : ∀ o, ¬Names t path.val o) : named t path = none :=
  dif_neg fun some_ => nowhere _ some_.choose_spec

structure OpenServed (t : RootTab) (path : CString) (s w : Fs) (ret : Int) : Prop where
  failed : named t path = none ∨ s.newfd = maxFiles → ret = -1 ∧ ∀ fd < maxFiles, w.files fd = s.files fd
  opened : ∀ o, named t path = some o → s.newfd < maxFiles → ret = s.newfd ∧
    (∀ fd, fd ≠ s.newfd → w.files fd = s.files fd) ∧
    (s.files s.newfd = .free → RecordOf t (w.files s.newfd) o 0)

theorem OpenServed.nothing {path : CString} (nowhere : named t path = none) (s : Fs) (e : Int) :
    OpenServed t path s (s.setErrno e) (-1) := by
  constructor
  · intro _
    exact ⟨rfl, fun _ _ => rfl⟩
  · intro o found
    rw [nowhere] at found
    cases found

theorem OpenServed.taken {path : CString} {s : Fs} {o : FileObject} {f : File} (found : named t path = some o)
    (room : s.newfd < maxFiles) (fresh : s.files s.newfd = .free → RecordOf t f o 0) :
    OpenServed t path s (s.setFile s.newfd f) s.newfd := by
  constructor
  · intro none_
    rcases none_ with nowhere | full
    · rw [nowhere] at found
      cases found
    · omega
  · intro o' also _
    rw [found] at also
    cases also
    constructor
    · rfl
    · constructor
      · intro fd other
        exact Function.update_of_ne other ..
      · intro free
        simp only [Fs.setFile, Function.update_self]
        exact fresh free

theorem OpenServed.full {path : CString} {s w : Fs} (whole : s.newfd = maxFiles)
    (same : ∀ fd < maxFiles, w.files fd = s.files fd) : OpenServed t path s w (-1) := by
  constructor
  · intro _
    exact ⟨rfl, same⟩
  · intro o _ room
    omega

theorem named_under {d : Device} {path : CString} {o : FileObject} (names : Names t path.val o)
    (short : path.val.length < 2 ^ 31) (routed_ : routed path.val = some d) : o.device = d :=
  Option.some.inj ((names.routed short).symm.trans routed_)

theorem nameFits_root {path : List Byte} (fits : PathFits path) (root : routed path = some .root) :
    NameFits path := by
  unfold PathFits at fits
  by_cases dev : devPrefix <+: path
  · rw [if_pos dev] at fits
    rw [routed, if_pos dev] at root
    obtain ⟨i, stop, found⟩ := Option.bind_eq_some_iff.mp root
    rw [stop] at fits
    exact fits.2 (findDevice_name found).symm
  · rw [if_neg dev] at fits
    exact fits

theorem rootopen_served (tree : t.OfTree) {path : CString} (served : PathServed t path.val)
    (root : routed path.val = some .root) (s : Fs) :
    ∃ w ret, rootopen t path.val s = .ok (w, ret) ∧ OpenServed t path s w ret := by
  obtain ⟨comps, whole, plain, findable⟩ := served.byNames root
  have sliced := slice_fits path.property (nameFits_root served.room root)
  rw [whole, names_absolutePath fun c member => (plain c member).2] at sliced
  have walked : rootopen t path.val s = .ok (rootWalk t (tabnames comps) s) := by
    rw [rootopen, whole, sliced]
    rfl
  have leads_named : ∀ o, Names t path.val o → ∃ e, o = .root e ∧ Leads t 0 comps e := by
    intro o names
    have device := named_under names served.short root
    generalize path.val = text at whole names
    cases names with
    | @root comps' e plain' own leads =>
      rw [absolutePath_inj plain' plain whole] at leads
      exact ⟨e, rfl, leads⟩
    | console listed under => cases device
    | test under => cases device
  refine ⟨(rootWalk t (tabnames comps) s).1, (rootWalk t (tabnames comps) s).2, walked, ?_⟩
  rcases rootWalk_finds tree (fun c member => (plain c member).1) findable s with
    ⟨nowhere, result⟩ | ⟨k, leads, result⟩
  · rw [result]
    apply OpenServed.nothing
    apply named_none
    intro o names
    obtain ⟨e, _, leads⟩ := leads_named o names
    exact nowhere e leads
  · rw [result]
    by_cases full : s.newfd = maxFiles
    · rw [if_pos full]
      exact OpenServed.full full fun _ _ => rfl
    · rw [if_neg full]
      have own : devPrefix <+: absolutePath comps → ∃ rest, Under .root (absolutePath comps) rest := by
        intro dev
        rw [← whole] at dev ⊢
        exact under_of_routed served.short root dev
      have names : Names t path.val (.root k) := by
        rw [whole]
        exact .root plain own leads
      apply OpenServed.taken ((named_iff tree served.short).mpr names)
        (Nat.lt_of_le_of_ne (newfd_le s) full)
      intro _
      have inside : k < t.rootmaxq := leads.inside (OfTree.rootmaxq_pos tree)
      constructor
      · rfl
      · intro i which
        rcases which with other | same
        · cases other
        · cases same
          exact tree.qids k inside
      · trivial
      · rfl
      · exact Nat.zero_le _

theorem contab_readable : ∀ e ∈ contab, e.name ≠ bytes ['k', 'p', 'r', 'i', 'n', 't'] →
    (FileObject.console e.qid.path.toNat).Readable := by
  unfold FileObject.Readable
  decide

theorem consopen_served (tree : t.OfTree) {path : CString} (served : PathServed t path.val)
    (console : routed path.val = some .console) (s : Fs) :
    OpenServed t path s (consopen path.val s).1 (consopen path.val s).2 := by
  have dev : devPrefix <+: path.val := by
    by_contra other
    rw [routed, if_neg other] at console
    cases console
  obtain ⟨rest, under⟩ := under_of_routed served.short console dev
  cases entry : consoleEntry path.val with
  | none =>
    have failed : consopen path.val s = (s.setErrno ebadf, -1) := by simp only [consopen, entry]
    rw [failed]
    apply OpenServed.nothing
    apply named_none
    intro o names
    have device := named_under names served.short console
    generalize path.val = text at entry under names
    cases names with
    | root plain own leads => cases device
    | console listed under' =>
      have found := (consoleEntry_iff under).mpr ⟨listed, under.unique under'⟩
      rw [entry] at found
      cases found
    | test under' => cases device
  | some e =>
    obtain ⟨listed, same⟩ := (consoleEntry_iff under).mp entry
    subst same
    have names : Names t path.val (.console e.qid.path.toNat) := .console listed under
    by_cases full : s.newfd = maxFiles
    · rw [consopen_full (by rw [entry]; rfl) full]
      apply OpenServed.full full
      intro fd inside
      exact Function.update_of_ne (Nat.ne_of_lt inside) ..
    · have room : s.newfd < maxFiles := Nat.lt_of_le_of_ne (newfd_le s) full
      have opened : consopen path.val s = (s.setFile s.newfd { s.files s.newfd with
          type := devno Device.console.dc, qid := e.qid, pos := 0 }, (s.newfd : Int)) := by
        simp only [consopen, entry, if_neg (Nat.not_le_of_lt room)]
      rw [opened]
      apply OpenServed.taken ((named_iff tree served.short).mpr names) room
      intro _
      constructor
      · rfl
      · intro i which
        rcases which with same | other
        · cases same
          rfl
        · cases other
      · apply contab_readable e listed
        intro kprint
        rw [kprint] at under
        exact served.readable under
      · rfl
      · exact Nat.zero_le _

theorem testopen_served (tree : t.OfTree) {path : CString} (served : PathServed t path.val)
    (test : routed path.val = some .test) (s : Fs) :
    OpenServed t path s (testopen s).1 (testopen s).2 := by
  have dev : devPrefix <+: path.val := by
    by_contra other
    rw [routed, if_neg other] at test
    cases test
  obtain ⟨rest, under⟩ := under_of_routed served.short test dev
  by_cases full : s.newfd = maxFiles
  · have failed : testopen s = (s.setErrno enomem, -1) := by
      simp only [testopen, full, le_refl, if_true]
    rw [failed]
    exact OpenServed.full full fun _ _ => rfl
  · have room : s.newfd < maxFiles := Nat.lt_of_le_of_ne (newfd_le s) full
    have opened : testopen s = (s.setFile s.newfd { s.files s.newfd with
        type := devno Device.test.dc }, (s.newfd : Int)) := by
      simp only [testopen, if_neg (Nat.not_le_of_lt room)]
    rw [opened]
    apply OpenServed.taken ((named_iff tree served.short).mpr (.test under)) room
    intro free
    rw [free]
    constructor
    · rfl
    · intro i which
      rcases which with other | other <;> cases other
    · trivial
    · rfl
    · exact Nat.zero_le _

theorem openSys_served (tree : t.OfTree) {path : CString} (served : PathServed t path.val) (s : Fs) :
    ∃ w ret, openSys t path s = .ok (w, ret) ∧ OpenServed t path s w ret := by
  rw [openSys_routed t path s served.room]
  cases device : routed path.val with
  | none =>
    refine ⟨_, _, rfl, OpenServed.nothing (named_none fun o names => ?_) s enoent⟩
    rw [names.routed served.short] at device
    cases device
  | some d =>
    cases d with
    | console => exact ⟨_, _, rfl, consopen_served tree served device s⟩
    | root => exact rootopen_served tree served device s
    | test => exact ⟨_, _, rfl, testopen_served tree served device s⟩

structure ReadServed (text : List Byte) (p count fd : Nat) (s : Fs) (r : Transfer) : Prop where
  data : r.copied = (text.drop p).take count
  result : r.ret.toInt = r.copied.length
  moved : (r.fs.files fd).pos.toNat = p + r.copied.length
  record : (r.fs.files fd).type = (s.files fd).type ∧ (r.fs.files fd).qid = (s.files fd).qid
  others : ∀ k, k ≠ fd → r.fs.files k = s.files k

variable {text : List Byte} {p count fd : Nat} {s : Fs}

theorem ReadServed.nothing (none_ : (text.drop p).take count = []) (at_ : (s.files fd).pos.toNat = p) :
    ReadServed text p count fd s ⟨s, [], 0⟩ := by
  constructor
  · exact none_.symm
  · rfl
  · exact at_
  · exact ⟨rfl, rfl⟩
  · intro k _
    rfl

theorem ReadServed.advance {src : Nat → Byte} (same : ∀ i (h : i < text.length), src i = text[i])
    (short : text.length < 2 ^ 31) (at_ : (s.files fd).pos.toNat = p) (within : p ≤ text.length) :
    ReadServed text p count fd s
      ⟨s.advance fd (BitVec.ofNat 32 (min count (text.length - p))),
        copied src p (BitVec.ofNat 32 (min count (text.length - p))),
        BitVec.ofNat 32 (min count (text.length - p))⟩ := by
  have value : (BitVec.ofNat 32 (min count (text.length - p))).toNat = min count (text.length - p) :=
    toNat_ofNat_small (by omega)
  have length : (copied src p (BitVec.ofNat 32 (min count (text.length - p)))).length =
      min count (text.length - p) := by
    rw [copied_length, value]
  constructor
  · apply List.ext_getElem
    · rw [length, List.length_take, List.length_drop]
    · intro i one two
      rw [List.length_take, List.length_drop] at two
      have inside : p + i < text.length := by omega
      simp [copied, same (p + i) inside]
  · rw [toInt_of_small (by rw [value]; omega), length, value]
  · rw [length, advance_pos, pos_add (by omega) (by omega), at_]
  · simp only [Fs.advance, Fs.setFile, Function.update_self]
    exact ⟨trivial, trivial⟩
  · intro k other
    exact Function.update_of_ne other ..

theorem ReadServed.negated {r : Transfer} (served : ReadServed text p count fd s r) :
    ReadServed text p count fd s { r with ret := negated r.ret } := by
  have same : L4ertl.negated r.ret = r.ret := by
    rw [L4ertl.negated, if_neg]
    rw [served.result]
    omega
  rw [same]
  exact served

theorem readData_served {src : Nat → Byte} (same : ∀ i (h : i < text.length), src i = text[i])
    (short : text.length < 2 ^ 31) (at_ : (s.files fd).pos.toNat = p) (within : p ≤ text.length)
    (small : count < 2 ^ 31) :
    ReadServed text p count fd s
      (readData src text.length fd (BitVec.ofNat 32 count) (s.files fd).pos s) := by
  have nonneg : 0 ≤ (s.files fd).pos.toInt := by
    rw [BitVec.toInt_eq_toNat_cond, at_]
    split <;> omega
  have word : (BitVec.ofNat 32 count).toNat = count := toNat_ofNat_small (by omega)
  by_cases past : text.length ≤ p
  · rw [readData_end src fd _ s nonneg (by omega)]
    apply ReadServed.nothing
    · rw [List.drop_of_length_le past, List.take_nil]
    · exact at_
  · rw [readData_small src fd s nonneg (by omega) (by omega), clamped, word, at_]
    exact ReadServed.advance same short at_ within

theorem sysctl_served (at_ : (s.files fd).pos.toNat = p) (within : p ≤ version.length) (small : count < 2 ^ 31)
    (sysctl : (s.files fd).qid.path.toNat = 4) :
    ReadServed version p count fd s (consread t fd (BitVec.ofNat 32 count) (s.files fd).pos s) := by
  have word : (BitVec.ofNat 32 count).toNat = count := toNat_ofNat_small (by omega)
  have length := version_length
  have offset : ((s.files fd).pos.setWidth 32).toNat = p := by
    rw [BitVec.toNat_setWidth, at_]
    exact Nat.mod_eq_of_lt (by omega)
  rw [consread_sysctl sysctl]
  by_cases past : version.length ≤ p
  · rw [readstr_end t.behind (by omega) (by omega), advance_zero]
    apply ReadServed.nothing
    · rw [List.drop_of_length_le past, List.take_nil]
    · exact at_
  · have fits : ((s.files fd).pos.setWidth 32).toNat + (BitVec.ofNat 32 count).toNat < 2 ^ 32 := by omega
    rw [readstr_inside t.behind (by omega) (by omega), if_pos fits, word, offset]
    apply ReadServed.advance
    · intro i inside
      exact dif_pos inside
    · omega
    · exact at_
    · exact within

theorem deviceOf_dc (d : Device) : deviceOf (devno d.dc) = some d := by
  cases d <;> decide

theorem readSys_served (short : ∀ e, (t.contents e).length < 2 ^ 31) {fd : Int} (inside : 0 ≤ fd ∧ fd < maxFiles)
    {o : FileObject} (record : RecordOf t (s.files fd.toNat) o p) (small : count < 2 ^ 31) :
    ∃ r, readSys t fd (BitVec.ofNat 32 count) s = some r ∧
      ReadServed (o.contents t) p count fd.toNat s r := by
  have device : deviceOf (s.files fd.toNat).type = some o.device := by
    rw [record.device, deviceOf_dc]
  have taken : s.Open fd := ⟨inside.1, inside.2, not_nodev (by rw [device]; rfl)⟩
  have read : readSys t fd (BitVec.ofNat 32 count) s =
      let r := o.device.read t fd.toNat (BitVec.ofNat 32 count) (s.files fd.toNat).pos s
      some { r with ret := negated r.ret } := by
    rw [readSys, if_pos taken, device, Option.map_some]
  refine ⟨_, read, ReadServed.negated ?_⟩
  have at_ := record.position
  have within := record.within
  cases o with
  | console i =>
    have file := record.file i (Or.inl rfl)
    obtain ⟨few, kprint⟩ := record.readable
    have one_of : i = 0 ∨ i = 1 ∨ i = 3 ∨ i = 4 := by omega
    rcases one_of with rfl | rfl | rfl | rfl
    · simp only [FileObject.device, Device.read, consread, file]
      exact .nothing (by simp [FileObject.contents]) at_
    · simp only [FileObject.device, Device.read]
      rw [consread_drivers file, ← listdevices_length]
      apply readData_served
      · intro i inside
        exact dif_pos inside
      · exact Nat.lt_of_le_of_lt (Nat.le_of_eq listdevices_length) (by decide)
      · exact at_
      · exact within
      · exact small
    · simp only [FileObject.device, Device.read, consread, file]
      exact .nothing (by simp [FileObject.contents]) at_
    · exact sysctl_served at_ within small file
  | root e =>
    have file := record.file e (Or.inr rfl)
    simp only [FileObject.device, Device.read, rootread, file, FileObject.contents]
    rw [← contents_length]
    apply readData_served
    · intro i inside
      simp [RootTab.contents]
    · exact short e
    · exact at_
    · exact within
    · exact small
  | test => exact .nothing (by simp [FileObject.contents]) at_

variable {d : Table FileObject}

theorem RecordOf.taken {f : File} {o : FileObject} (record : RecordOf t f o p) : f.type ≠ nodev := by
  apply not_nodev
  rw [record.device, deviceOf_dc]
  rfl

theorem StandsFor.free_iff (stands : StandsFor t s d) {fd : Nat} (inside : fd < maxFiles) :
    (s.files fd).type = nodev ↔ d fd = none := by
  obtain ⟨free, records⟩ := stands fd inside
  cases here : d fd with
  | none =>
    rw [free here]
    exact ⟨fun _ => rfl, fun _ => rfl⟩
  | some op =>
    have taken := (records op.1 op.2 here).taken
    exact ⟨fun none_ => absurd none_ taken, fun none_ => by cases none_⟩

theorem StandsFor.newfd (stands : StandsFor t s d) : s.newfd = (lowest maxFiles d).getD maxFiles := by
  have same : (List.range maxFiles).find? (fun fd => (s.files fd).type = nodev) = lowest maxFiles d := by
    apply List.find?_congr
    intro fd member
    have free := stands.free_iff (List.mem_range.mp member)
    cases here : d fd with
    | none => simp [free.mpr here]
    | some op =>
      have taken : (s.files fd).type ≠ nodev := fun none_ => by
        rw [free.mp none_] at here
        cases here
      simp [taken]
  rw [Fs.newfd, same]

theorem StandsFor.open_iff (stands : StandsFor t s d) (fd : Int) :
    s.Open fd ↔ (held maxFiles d fd).isSome := by
  unfold Fs.Open held
  by_cases inside : 0 ≤ fd ∧ fd < maxFiles
  · have below : fd.toNat < maxFiles := by omega
    have taken := (stands.free_iff below).not
    rw [if_pos inside, Option.isSome_iff_ne_none]
    exact ⟨fun all => taken.mp all.2.2, fun busy => ⟨inside.1, inside.2, taken.mpr busy⟩⟩
  · rw [if_neg inside]
    exact ⟨fun all => absurd ⟨all.1, all.2.1⟩ inside, fun none_ => by cases none_⟩

theorem StandsFor.record (stands : StandsFor t s d) {fd : Int} {o : FileObject}
    (here : held maxFiles d fd = some (o, p)) : RecordOf t (s.files fd.toNat) o p := by
  obtain ⟨inside, there⟩ := held_iff.mp here
  exact (stands fd.toNat (by omega)).2 o p there

theorem StandsFor.update (stands : StandsFor t s d) {w : Fs} {fd : Nat} {v : Option (FileObject × Nat)}
    (others : ∀ k < maxFiles, k ≠ fd → w.files k = s.files k)
    (free : v = none → w.files fd = .free) (record : ∀ o q, v = some (o, q) → RecordOf t (w.files fd) o q) :
    StandsFor t w (Function.update d fd v) := by
  intro k inside
  by_cases self : k = fd
  · subst self
    rw [Function.update_self]
    exact ⟨free, record⟩
  · rw [Function.update_of_ne self, others k inside self]
    exact stands k inside

theorem StandsFor.same (stands : StandsFor t s d) {w : Fs} (all : ∀ k < maxFiles, w.files k = s.files k) :
    StandsFor t w d := by
  intro k inside
  rw [all k inside]
  exact stands k inside

theorem closeSys_record {fd : Int} {o : FileObject} (inside : 0 ≤ fd ∧ fd < maxFiles)
    (record : RecordOf t (s.files fd.toNat) o p) : closeSys fd s = some (s.setFile fd.toNat .free, 0) := by
  have taken : s.Open fd := ⟨inside.1, inside.2, record.taken⟩
  rw [closeSys, if_pos taken, record.device, deviceOf_dc, Option.map_some, close_freed _ taken]

theorem RecordOf.read {o : FileObject} {count fd : Nat} {r : Transfer} (record : RecordOf t (s.files fd) o p)
    (served : ReadServed (o.contents t) p count fd s r) :
    RecordOf t (r.fs.files fd) o (p + r.copied.length) := by
  constructor
  · rw [served.record.1, record.device]
  · intro i which
    rw [served.record.2]
    exact record.file i which
  · exact record.readable
  · exact served.moved
  · have within := record.within
    rw [served.data, List.length_take, List.length_drop]
    omega

theorem service_step (tree : t.OfTree) (short : ∀ e, (t.contents e).length < 2 ^ 31) (s : Fs)
    (d : Table FileObject) (c : Call CString) (stands : StandsFor t s d) (served : CallServed t c) :
    ∃ w d' es, serviceStep t s c = some (w, es) ∧ step maxFiles (fileService t) d c = some (d', es) ∧
      StandsFor t w d' := by
  cases c with
  | open_ path =>
    obtain ⟨w, ret, opened, right⟩ := openSys_served tree served s
    have taken : serviceStep t s (.open_ path) = some (w, [⟨.open_ path, [], ret⟩]) := by
      simp only [serviceStep, opened]
    have next := stands.newfd
    cases found : named t path with
    | none =>
      obtain ⟨rfl, same⟩ := right.failed (Or.inl found)
      refine ⟨w, d, _, taken, ?_, stands.same same⟩
      simp only [step, fileService, found]
    | some o =>
      cases low : lowest maxFiles d with
      | none =>
        rw [low] at next
        obtain ⟨rfl, same⟩ := right.failed (Or.inr next)
        refine ⟨w, d, _, taken, ?_, stands.same same⟩
        simp only [step, fileService, found, low]
      | some fd =>
        rw [low] at next
        have next_ : s.newfd = fd := next
        obtain ⟨inside, none_, _⟩ := lowest_some low
        have blank := (stands fd inside).1 none_
        obtain ⟨rfl, others, fresh⟩ := right.opened o found (by omega)
        rw [next_] at others fresh taken
        refine ⟨w, Function.update d fd (some (o, 0)), _, taken, ?_, ?_⟩
        · simp only [step, fileService, found, low]
        · apply stands.update
          · intro k _ other
            exact others k other
          · intro none_
            cases none_
          · intro o' q same
            cases same
            exact fresh blank
  | close fd =>
    have open_ := stands.open_iff fd
    cases here : held maxFiles d fd with
    | none =>
      rw [here] at open_
      have refused : closeSys fd s = some (s.setErrno ebadf, -1) := by
        rw [closeSys, if_neg (fun taken => by cases open_.mp taken)]
      refine ⟨s.setErrno ebadf, d, [⟨.close fd, [], -1⟩], ?_, ?_, stands⟩
      · simp only [serviceStep, refused, Option.map_some]
      · simp only [step, here, Option.isSome_none, Bool.false_eq_true, if_false]
    | some op =>
      have inside := (held_iff.mp here).1
      have freed := closeSys_record inside (stands.record here)
      refine ⟨s.setFile fd.toNat .free, Function.update d fd.toNat none, [⟨.close fd, [], 0⟩], ?_, ?_, ?_⟩
      · simp only [serviceStep, freed, Option.map_some]
      · simp only [step, here, Option.isSome_some, if_true]
      · apply stands.update
        · intro k _ other
          exact Function.update_of_ne other ..
        · intro _
          exact Function.update_self ..
        · intro o q same
          cases same
  | read fd count =>
    have open_ := stands.open_iff fd
    cases here : held maxFiles d fd with
    | none =>
      rw [here] at open_
      have refused : readSys t fd (BitVec.ofNat 32 count) s = some ⟨s.setErrno ebadf, [], -1⟩ := by
        rw [readSys, if_neg (fun taken => by cases open_.mp taken)]
      refine ⟨s.setErrno ebadf, d, [⟨.read fd count, [], -1⟩], ?_, ?_, stands⟩
      · simp only [serviceStep, refused, Option.map_some]
        rfl
      · simp only [step, here]
    | some op =>
      have inside := (held_iff.mp here).1
      have record := stands.record here
      obtain ⟨r, read, right⟩ := readSys_served short inside record served
      refine ⟨r.fs, Function.update d fd.toNat (some (op.1, op.2 + r.copied.length)),
        [⟨.read fd count, r.copied, r.copied.length⟩], ?_, ?_, ?_⟩
      · simp only [serviceStep, read, Option.map_some, right.result]
      · simp only [step, here, fileService, right.data]
      · apply stands.update
        · intro k _ other
          exact right.others k other
        · intro none_
          cases none_
        · intro o q same
          cases same
          exact record.read right

theorem start_stands (after : Nat → File) : StandsFor t (.start after) fun _ => none := by
  intro fd inside
  constructor
  · intro _
    exact if_pos inside
  · intro o p here
    cases here

end

/-- For the tables of any tree, any run of calls from the start does what the abstract
    file system does: a name is opened through the lowest free descriptor, a read returns
    what is left of the file up to its count, and no call is in the way of another. -/
theorem file_service (t : RootTab) (tree : t.OfTree) (short : ∀ e, (t.contents e).length < 2 ^ 31)
    (after : Nat → File) (calls : List (Call CString)) (served : ∀ c ∈ calls, CallServed t c) :
    ∃ w d es, Lts.exec (serviceStep t) (.start after) calls = some (w, es) ∧
      Lts.exec (step maxFiles (fileService t)) (fun _ => none) calls = some (d, es) ∧ StandsFor t w d := by
  have along : Lts.Along (serviceStep t) (fun _ c => CallServed t c) (.start after) calls :=
    Lts.along_of_forall served
  apply Lts.exec_lockstep (fun s d => StandsFor t s d) _ calls (start_stands after) along
  intro s d c stands ok
  obtain ⟨w, d', es, taken, also, next⟩ := service_step tree short s d c stands ok
  exact ⟨w, d', es, taken, also, next⟩

def notesRoot : RootTab := prtkcfRoot (fun i => BitVec.ofNat 8 i) 5

theorem notesRoot_ofTree : notesRoot.OfTree where
  root := by decide
  top := by decide
  qids := by decide
  types := by decide
  parents := by decide
  named := by decide
  siblings := by decide
  together := by decide

theorem notesRoot_short (e : Nat) : (notesRoot.contents e).length < 2 ^ 31 := by
  rw [contents_length]
  simp only [notesRoot, prtkcfRoot]
  split <;> decide

def notesPath : CString := ⟨absolutePath usrNotes, by decide⟩

theorem notesPath_served : PathServed notesRoot notesPath.val where
  room := by
    rw [PathFits, if_neg (by decide)]
    decide
  short := by decide
  byNames := by
    intro _
    have leads : Leads notesRoot 0 usrNotes 4 :=
      .child (by decide) (by decide) rfl rfl (.child (by decide) (by decide) rfl rfl (.here 4))
    refine ⟨usrNotes, rfl, by decide, ?_, ?_⟩
    · intro e other
      have same := leads.unique notesRoot_ofTree other
      subst same
      exact ⟨by decide, by decide⟩
    · intro nowhere
      exact absurd leads (nowhere 4)
  readable := fun under => absurd under.dev (by decide)

theorem consPath_served : PathServed notesRoot consPath.val where
  room := by
    rw [PathFits, if_pos (by decide), show stopIndex consPath.val = some 12 by decide]
    exact ⟨by decide, fun root => absurd root (by decide)⟩
  short := by decide
  byNames := fun root => absurd root (by decide)
  readable := by
    rintro ⟨c, _, same⟩
    have length := congrArg List.length same
    revert length
    simp only [List.length_append, List.length_cons]
    decide

def notesCalls : List (Call CString) := [.read 1 2, .open_ consPath, .read 2 5, .close 0, .read 1 7, .read 1 1]

theorem notesCalls_served : ∀ c ∈ [.open_ consPath] ++ .open_ notesPath :: notesCalls, CallServed notesRoot c := by
  have small : ∀ count, count ≤ 7 → count < 2 ^ 31 := by omega
  intro c member
  fin_cases member
  · exact consPath_served
  · exact notesPath_served
  · exact small 2 (by decide)
  · exact consPath_served
  · exact small 5 (by decide)
  · trivial
  · exact small 7 (by decide)
  · exact small 1 (by decide)

def notesAnswers : List (Answer CString Byte) :=
  [⟨.open_ consPath, [], 0⟩, ⟨.open_ notesPath, [], 1⟩, ⟨.read 1 2, [0, 1], 2⟩, ⟨.open_ consPath, [], 2⟩,
    ⟨.read 2 5, [], 0⟩, ⟨.close 0, [], 0⟩, ⟨.read 1 7, [2, 3, 4], 3⟩, ⟨.read 1 1, [], 0⟩]

theorem notesCalls_answers {w : Fs} {es : List (Answer CString Byte)}
    (run : Lts.exec (serviceStep notesRoot) (.start fun _ => .free)
      ([.open_ consPath] ++ .open_ notesPath :: notesCalls) = some (w, es)) : notesAnswers = es :=
  Option.some.inj (congrArg (Option.map Prod.snd) run)

theorem file_service_notes :
    ∃ d, Lts.exec (step maxFiles (fileService notesRoot)) (fun _ => none)
        ([.open_ consPath] ++ .open_ notesPath :: notesCalls) = some (d, notesAnswers) := by
  obtain ⟨w, d, es, run, also, _⟩ := file_service notesRoot notesRoot_ofTree notesRoot_short (fun _ => .free) _
    notesCalls_served
  rw [notesCalls_answers run]
  exact ⟨d, also⟩

theorem file_session (t : RootTab) (tree : t.OfTree) (short : ∀ e, (t.contents e).length < 2 ^ 31)
    (after : Nat → File) (before during : List (Call CString)) (path : CString)
    (served : ∀ c ∈ before ++ .open_ path :: during, CallServed t c) :
    ∃ w first fd later, Lts.exec (serviceStep t) (.start after) (before ++ .open_ path :: during) =
        some (w, first ++ ⟨.open_ path, [], fd⟩ :: later) ∧
      first.map Answer.call = before ∧ later.map Answer.call = during ∧
      (0 ≤ fd → Call.close fd ∉ during → ∃ o, Names t path.val o ∧
        (readsOf fd later).map Prod.fst =
          StreamReads.pieces (o.contents t) ((readsOf fd later).map Prod.snd)) := by
  have along : Lts.Along (serviceStep t) (fun _ c => CallServed t c) (.start after)
      (before ++ .open_ path :: during) := Lts.along_of_forall served
  obtain ⟨w, d, es, run, also, _⟩ := Lts.exec_lockstep (fun s d => StandsFor t s d)
    (fun s d c stands ok => service_step tree short s d c stands ok) _ (start_stands after) along
  obtain ⟨first, fd, later, rfl, calls, answered, session⟩ := run_open also
  refine ⟨w, first, fd, later, run, calls, answered, fun opened kept => ?_⟩
  obtain ⟨o, found, data⟩ := session opened kept
  have ok := served (.open_ path) (List.mem_append_right before List.mem_cons_self)
  exact ⟨o, (named_iff tree (PathServed.short ok)).mp found, data⟩

theorem file_session_notes :
    ∃ o, Names notesRoot notesPath.val o ∧
      [[0, 1], [2, 3, 4], []] = StreamReads.pieces (o.contents notesRoot) [2, 7, 1] := by
  obtain ⟨w, first, fd, later, run, calls, _, session⟩ := file_session notesRoot notesRoot_ofTree notesRoot_short
    (fun _ => .free) [.open_ consPath] notesCalls notesPath notesCalls_served
  have length : first.length = 1 := by
    have counted := congrArg List.length calls
    rwa [List.length_map] at counted
  obtain ⟨e, rfl⟩ := List.length_eq_one_iff.mp length
  have answers := notesCalls_answers run
  cases answers
  exact session (by decide) (by simp [notesCalls])

end L4ertl
