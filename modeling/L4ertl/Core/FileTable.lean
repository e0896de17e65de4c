import L4ertl.Core.RootTree
import L4ertl.Lib.Lts

/-!
The file table along runs of open_sys and close_sys (fs.c, consopen in devcons.c).
A full table shows as an index past its end; of the drivers only the console hands
that index on to freefd, which takes it.
-/
namespace L4ertl

inductive FileOp where
  | open_ (path : CString)
  | close (fd : Int)

/-- A call with its result; `none` where it leaves its buffers. -/
def fileStep (t : RootTab) (s : Fs) : FileOp → Option (Fs × List Int)
  | .open_ path =>
    match openSys t path s with
    | .ok (w, ret) => some (w, [ret])
    | .error _ => none
  | .close fd => (closeSys fd s).map fun r => (r.1, [r.2])

/-- A descriptor was free and is alone in being changed; a failed call changes no record,
    nor the memory after the array, and a full table makes it fail. -/
structure OpenKept (s w : Fs) (ret : Int) : Prop where
  fresh : 0 ≤ ret → ret < maxFiles ∧ (s.files ret.toNat).type = nodev ∧ (w.files ret.toNat).type ≠ nodev
  others : 0 ≤ ret → ∀ k, k ≠ ret.toNat → w.files k = s.files k
  failed : ret < 0 → w.files = s.files
  full : (∀ fd < maxFiles, (s.files fd).type ≠ nodev) → ret < 0

structure CloseKept (s : Fs) (fd : Int) (w : Fs) (ret : Int) : Prop where
  freed : s.Open fd → ret = 0 ∧ w.files = Function.update s.files fd.toNat .free
  refused : ¬s.Open fd → ret = -1 ∧ w.errno = ebadf ∧ w.files = s.files

def FileOp.Right (t : RootTab) (s : Fs) : FileOp → Prop
  | .open_ path => ∃ w ret, fileStep t s (.open_ path) = some (w, [ret]) ∧ OpenKept s w ret
  | .close fd => ∃ w ret, fileStep t s (.close fd) = some (w, [ret]) ∧ CloseKept s fd w ret

def ConsoleFile (path : List Byte) : Prop :=
  devPrefix <+: path ∧ (stopIndex path).map (deviceText path) = some Device.console.name ∧
    (consoleEntry path).isSome

instance (path : List Byte) : Decidable (ConsoleFile path) := inferInstanceAs (Decidable (_ ∧ _ ∧ _))

/-- The path has room in the buffers; and it names no file of the console, or there is a
    free record, or what stands after the array is a free record to begin with. -/
def FileOp.Fits (s : Fs) : FileOp → Prop
  | .open_ path => PathFits path.val ∧
      (ConsoleFile path.val → s.newfd < maxFiles ∨ s.files maxFiles = .free)
  | .close _ => True

def Fs.Known (s : Fs) : Prop :=
  ∀ fd < maxFiles, (s.files fd).type = nodev ∨ (deviceOf (s.files fd).type).isSome

def Opened (s : Fs) (r : Fs × Int) : Prop :=
  (∃ e, r = (s.setErrno e, -1)) ∨
    (s.newfd < maxFiles ∧ ∃ f : File, (deviceOf f.type).isSome ∧ r = (s.setFile s.newfd f, (s.newfd : Int)))

theorem not_nodev {f : File} (device : (deviceOf f.type).isSome) : f.type ≠ nodev := by
  intro free
  rw [free] at device
  exact absurd device (by decide)

theorem deviceOf_devno (d : Device) : (deviceOf (devno d.dc)).isSome := by
  cases d <;> decide

theorem consopen_opened {path : List Byte} {s : Fs}
    (room : (consoleEntry path).isSome → s.newfd < maxFiles) : Opened s (consopen path s) := by
  unfold consopen
  split
  · exact Or.inl ⟨ebadf, rfl⟩
  · rename_i e found
    have below := room (by rw [found]; rfl)
    simp only [if_neg (Nat.not_le_of_lt below)]
    exact Or.inr ⟨below, _, deviceOf_devno .console, rfl⟩

theorem consopen_full {path : List Byte} {s : Fs} (entry : (consoleEntry path).isSome)
    (full : s.newfd = maxFiles) :
    consopen path s = ((s.setFile maxFiles .free).setErrno enomem, -1) := by
  obtain ⟨e, found⟩ := Option.isSome_iff_exists.mp entry
  have freed : s.freefd (maxFiles : Int) = s.setFile maxFiles .free := by
    rw [Fs.freefd, if_neg (by decide)]
    rfl
  simp only [consopen, found, full]
  rw [if_pos (Nat.le_refl _), freed]

theorem rootWalk_opened (t : RootTab) (tabname : List (List Byte)) (s : Fs) :
    Opened s (rootWalk t tabname s) := by
  unfold rootWalk
  split
  · exact Or.inl ⟨enoent, rfl⟩
  · rename_i j dotdot found
    by_cases other : (t.rootdata j).dotdot ≠ dotdot
    · rw [if_pos other]
      exact Or.inl ⟨enoent, rfl⟩
    · rw [if_neg other]
      by_cases full : s.newfd = maxFiles
      · simp only [if_pos full]
        exact Or.inl ⟨enfile, rfl⟩
      · simp only [if_neg full]
        exact Or.inr ⟨Nat.lt_of_le_of_ne (newfd_le s) full, _, deviceOf_devno .root, rfl⟩

theorem testopen_opened (s : Fs) : Opened s (testopen s) := by
  unfold testopen
  by_cases full : maxFiles ≤ s.newfd
  · simp only [if_pos full]
    exact Or.inl ⟨enomem, rfl⟩
  · simp only [if_neg full]
    exact Or.inr ⟨by omega, _, deviceOf_devno .test, rfl⟩

theorem rootopen_opened (t : RootTab) {path : List Byte} (clean : nul ∉ path) (fits : NameFits path) (s : Fs) :
    ∃ r, rootopen t path s = .ok r ∧ Opened s r := by
  rw [rootopen, slice_fits clean fits]
  exact ⟨_, rfl, rootWalk_opened t _ s⟩

theorem openPath_opened (d : Device) (t : RootTab) {path : List Byte} (clean : nul ∉ path) (s : Fs)
    (fits : d = .root → NameFits path)
    (room : d = .console → (consoleEntry path).isSome → s.newfd < maxFiles) :
    ∃ r, d.openPath t path s = .ok r ∧ Opened s r := by
  cases d with
  | console => exact ⟨_, rfl, consopen_opened (room rfl)⟩
  | root => exact rootopen_opened t clean (fits rfl) s
  | test => exact ⟨_, rfl, testopen_opened s⟩

theorem findDevice_name {text : List Byte} {d : Device}
    (found : devtab.find? (fun d => d.name = text) = some d) : d.name = text := by
  have named := List.find?_some found
  exact of_decide_eq_true named

theorem openSys_opened (t : RootTab) (path : CString) (s : Fs) (fits : PathFits path.val)
    (room : ConsoleFile path.val → s.newfd < maxFiles) : ∃ r, openSys t path s = .ok r ∧ Opened s r := by
  unfold PathFits at fits
  by_cases dev : devPrefix <+: path.val
  · rw [if_pos dev] at fits
    cases stop : stopIndex path.val with
    | none =>
      have never : deviceName path.val = .ok none := by
        simp only [deviceName, stop]
      rw [openSys, if_neg (not_not.mpr dev), never]
      exact ⟨_, rfl, Or.inl ⟨enoent, rfl⟩⟩
    | some i =>
      rw [stop] at fits
      rw [openSys_device dev stop fits.1]
      cases found : devtab.find? fun d => d.name = deviceText path.val i with
      | none => exact ⟨_, rfl, Or.inl ⟨enoent, rfl⟩⟩
      | some d =>
        have named := findDevice_name found
        apply openPath_opened d t path.property s
        · rintro rfl
          exact fits.2 named.symm
        · rintro rfl entry
          refine room ⟨dev, ?_, entry⟩
          rw [stop, Option.map_some, named]
  · rw [if_neg dev] at fits
    rw [openSys, if_pos dev]
    exact rootopen_opened t path.property fits s

theorem openSys_console_full (t : RootTab) (path : CString) (s : Fs) (fits : PathFits path.val)
    (console : ConsoleFile path.val) (full : s.newfd = maxFiles) :
    openSys t path s = .ok ((s.setFile maxFiles .free).setErrno enomem, -1) := by
  obtain ⟨dev, named, entry⟩ := console
  obtain ⟨i, stop, text⟩ := Option.map_eq_some_iff.mp named
  unfold PathFits at fits
  rw [if_pos dev, stop] at fits
  have found : devtab.find? (fun d => d.name = Device.console.name) = some .console := by decide
  rw [openSys_device dev stop fits.1, text, found]
  exact congrArg Except.ok (consopen_full entry full)

theorem openSys_result (t : RootTab) (path : CString) (s : Fs) (fits : PathFits path.val) :
    ∃ r, openSys t path s = .ok r ∧
      (Opened s r ∨ ConsoleFile path.val ∧ s.newfd = maxFiles ∧
        r = ((s.setFile maxFiles .free).setErrno enomem, -1)) := by
  by_cases spills : ConsoleFile path.val ∧ s.newfd = maxFiles
  · exact ⟨_, openSys_console_full t path s fits spills.1 spills.2, Or.inr ⟨spills.1, spills.2, rfl⟩⟩
  · obtain ⟨r, result, opened⟩ := openSys_opened t path s fits fun console =>
      Nat.lt_of_le_of_ne (newfd_le s) fun full => spills ⟨console, full⟩
    exact ⟨r, result, Or.inl opened⟩

theorem Opened.kept {s : Fs} {r : Fs × Int} (opened : Opened s r) : OpenKept s r.1 r.2 := by
  rcases opened with ⟨e, rfl⟩ | ⟨room, f, device, rfl⟩
  · have negative : (-1 : Int) < 0 := by decide
    exact ⟨fun nonneg => absurd negative (Int.not_lt.mpr nonneg),
      fun nonneg => absurd negative (Int.not_lt.mpr nonneg), fun _ => rfl, fun _ => negative⟩
  · constructor
    · intro _
      refine ⟨Int.ofNat_lt.mpr room, newfd_free room, ?_⟩
      simp only [Int.toNat_natCast, Fs.setFile, Function.update_self]
      exact not_nodev device
    · intro _ k other
      exact Function.update_of_ne other ..
    · intro negative
      simp only at negative
      omega
    · intro taken
      exact absurd (newfd_free room) (taken _ room)

theorem Opened.known {s : Fs} {r : Fs × Int} (opened : Opened s r) (known : s.Known) : r.1.Known := by
  rcases opened with ⟨e, rfl⟩ | ⟨room, f, device, rfl⟩
  · exact known
  · intro fd inside
    by_cases self : fd = s.newfd
    · simp only [Fs.setFile, self, Function.update_self]
      exact Or.inr device
    · simp only [Fs.setFile, Function.update_of_ne self]
      exact known fd inside

theorem console_full_kept_iff (s : Fs) :
    OpenKept s ((s.setFile maxFiles .free).setErrno enomem) (-1) ↔ s.files maxFiles = .free := by
  have negative : (-1 : Int) < 0 := by decide
  constructor
  · intro kept
    have same := congrFun (kept.failed negative) maxFiles
    simp only [Fs.setErrno, Fs.setFile, Function.update_self] at same
    exact same.symm
  · intro blank
    have same : ((s.setFile maxFiles .free).setErrno enomem).files = s.files := by
      simp only [Fs.setErrno, Fs.setFile, ← blank, Function.update_eq_self]
    exact ⟨fun nonneg => absurd negative (Int.not_lt.mpr nonneg),
      fun nonneg => absurd negative (Int.not_lt.mpr nonneg), fun _ => same, fun _ => negative⟩

theorem open_right_iff (t : RootTab) (s : Fs) (path : CString) :
    FileOp.Right t s (.open_ path) ↔ FileOp.Fits s (.open_ path) := by
  have step : ∀ {w ret}, fileStep t s (.open_ path) = some (w, [ret]) ↔ openSys t path s = .ok (w, ret) := by
    intro w ret
    simp only [fileStep]
    cases result : openSys t path s with
    | error fault => simp
    | ok r => simp [Prod.ext_iff]
  simp only [FileOp.Right, FileOp.Fits, step]
  constructor
  · rintro ⟨w, ret, result, kept⟩
    have fits := (openSys_ok_iff t path s).mp ⟨_, result⟩
    refine ⟨fits, fun console => ?_⟩
    rcases Nat.lt_or_ge s.newfd maxFiles with room | full
    · exact Or.inl room
    · rw [openSys_console_full t path s fits console (Nat.le_antisymm (newfd_le s) full)] at result
      cases result
      exact Or.inr ((console_full_kept_iff s).mp kept)
  · rintro ⟨fits, room⟩
    obtain ⟨r, result, opened | ⟨console, full, rfl⟩⟩ := openSys_result t path s fits
    · exact ⟨r.1, r.2, result, opened.kept⟩
    · have blank := (room console).resolve_left (Nat.not_lt_of_ge full.ge)
      exact ⟨_, _, result, (console_full_kept_iff s).mpr blank⟩

theorem freefd_open {s : Fs} {fd : Int} (taken : s.Open fd) (v : Fs) : v.freefd fd = v.setFile fd.toNat .free := by
  obtain ⟨nonneg, below, _⟩ := taken
  rw [Fs.freefd, if_neg (by omega)]

/-- The test device frees the record itself, and close_sys once more. -/
theorem close_freed (d : Device) {s : Fs} {fd : Int} (taken : s.Open fd) :
    (d.close fd s).freefd fd = s.setFile fd.toNat .free := by
  rw [freefd_open taken]
  cases d with
  | console => rfl
  | root => rfl
  | test =>
    rw [Device.close, freefd_open taken]
    simp only [Fs.setFile, Function.update_idem]

theorem closeSys_open {s : Fs} (known : s.Known) {fd : Int} (taken : s.Open fd) :
    closeSys fd s = some (s.setFile fd.toNat .free, 0) := by
  have inside : fd.toNat < maxFiles := by
    have nonneg := taken.1
    have below := taken.2.1
    omega
  obtain ⟨d, device⟩ := Option.isSome_iff_exists.mp ((known fd.toNat inside).resolve_left taken.2.2)
  rw [closeSys, if_pos taken, device, Option.map_some, close_freed d taken]

theorem close_right (t : RootTab) {s : Fs} (known : s.Known) (fd : Int) : FileOp.Right t s (.close fd) := by
  by_cases taken : s.Open fd
  · refine ⟨s.setFile fd.toNat .free, 0, ?_, fun _ => ⟨rfl, rfl⟩, fun other => absurd taken other⟩
    rw [fileStep, closeSys_open known taken]
    rfl
  · refine ⟨s.setErrno ebadf, -1, ?_, fun other => absurd other taken, fun _ => ⟨rfl, rfl, rfl⟩⟩
    rw [fileStep, closeSys, if_neg taken]
    rfl

theorem op_right_iff (t : RootTab) {s : Fs} (known : s.Known) (op : FileOp) : op.Right t s ↔ op.Fits s := by
  cases op with
  | open_ path => exact open_right_iff t s path
  | close fd => exact ⟨fun _ => trivial, fun _ => close_right t known fd⟩

theorem known_setFile {s : Fs} (known : s.Known) (fd : Nat) : (s.setFile fd .free).Known := by
  intro k inside
  by_cases self : k = fd
  · simp only [Fs.setFile, self, Function.update_self]
    exact Or.inl rfl
  · simp only [Fs.setFile, Function.update_of_ne self]
    exact known k inside

theorem fileStep_known (t : RootTab) {s w : Fs} {op : FileOp} {rets : List Int} (known : s.Known)
    (taken : fileStep t s op = some (w, rets)) : w.Known := by
  cases op with
  | open_ path =>
    simp only [fileStep] at taken
    cases result : openSys t path s with
    | error fault =>
      rw [result] at taken
      cases taken
    | ok r =>
      rw [result] at taken
      cases taken
      have fits := (openSys_ok_iff t path s).mp ⟨_, result⟩
      obtain ⟨q, also, opened⟩ := openSys_result t path s fits
      rw [result] at also
      cases also
      rcases opened with opened | ⟨_, _, spilled⟩
      · exact opened.known known
      · cases spilled
        exact known_setFile known maxFiles
  | close fd =>
    simp only [fileStep] at taken
    by_cases here : s.Open fd
    · rw [closeSys_open known here] at taken
      cases taken
      exact known_setFile known fd.toNat
    · rw [closeSys, if_neg here] at taken
      cases taken
      exact known

theorem start_known (after : Nat → File) : (Fs.start after).Known := by
  intro fd inside
  simp only [Fs.start, if_pos inside]
  exact Or.inl rfl

/-- In every run from the start, every step is right exactly if at every step the path fits
    and no file of the console is opened on a full table (the memory after the array being
    anything but a free record). -/
theorem file_table_iff (t : RootTab) (after : Nat → File) (ops : List FileOp) :
    Lts.Along (fileStep t) (fun s op => op.Right t s) (.start after) ops ↔
      Lts.Along (fileStep t) (fun s op => op.Fits s) (.start after) ops :=
  Lts.along_congr Fs.Known (fun _ _ _ _ known taken => fileStep_known t known taken)
    (fun _ op known => op_right_iff t known op) ops (start_known after)

def consPath : CString := ⟨bytes ['/', 'd', 'e', 'v', '/', 'c', 'o', 'n', 's', 'o', 'l', 'e', '/', 'c', 'o', 'n', 's'],
  by decide⟩

theorem openSys_consPath (t : RootTab) (s : Fs) : openSys t consPath s = .ok (consopen consPath.val s) := by
  rw [openSys_device (i := 12) (by decide) (by decide) (by decide)]
  have found : devtab.find? (fun d => d.name = deviceText consPath.val 12) = some .console := by decide
  rw [found]
  rfl

def Fs.Filled (k : Nat) (s : Fs) : Prop := ∀ fd < maxFiles, (s.files fd).type = nodev ↔ k ≤ fd

theorem newfd_filled {k : Nat} {s : Fs} (filled : s.Filled k) (below : k < maxFiles) : s.newfd = k := by
  have found : ((List.range maxFiles).find? fun fd => (s.files fd).type = nodev) = some k := by
    rw [List.find?_range_eq_some]
    refine ⟨decide_eq_true ((filled k below).mpr (Nat.le_refl k)), List.mem_range.mpr below, fun fd less => ?_⟩
    have taken := (filled fd (by omega)).not.mpr (by omega)
    simpa using taken
  rw [Fs.newfd, found]
  rfl

theorem Fs.Filled.full {s : Fs} (filled : s.Filled maxFiles) : s.newfd = maxFiles :=
  (newfd_full_iff s).mpr fun fd inside => (filled fd inside).not.mpr (Nat.not_le_of_lt inside)

theorem consPath_next (t : RootTab) {k : Nat} {s : Fs} (filled : s.Filled k) (below : k < maxFiles) :
    ∃ w ret, fileStep t s (.open_ consPath) = some (w, [ret]) ∧ w.Filled (k + 1) ∧
      w.files maxFiles = s.files maxFiles := by
  obtain ⟨e, entry⟩ : ∃ e, consoleEntry consPath.val = some e := Option.isSome_iff_exists.mp (by decide)
  have next := newfd_filled filled below
  have opened : consopen consPath.val s =
      (s.setFile k { s.files k with type := devno Device.console.dc, qid := e.qid, pos := 0 }, (k : Int)) := by
    simp only [consopen, entry, next]
    rw [if_neg (by omega)]
  have device := not_nodev (f := { s.files k with type := devno Device.console.dc, qid := e.qid, pos := 0 })
    (deviceOf_devno .console)
  refine ⟨s.setFile k _, k, by rw [fileStep, openSys_consPath, opened], fun fd inside => ?_, ?_⟩
  · by_cases self : fd = k
    · simp only [self, Fs.setFile, Function.update_self]
      exact ⟨fun free => absurd free device, fun more => absurd more (Nat.not_succ_le_self k)⟩
    · simp only [Fs.setFile, Function.update_of_ne self, filled fd inside]
      omega
  · simp only [Fs.setFile]
    exact Function.update_of_ne (by omega) ..

theorem consPath_spills (t : RootTab) (j : Nat) {k : Nat} {s : Fs} (filled : s.Filled k)
    (left : k + j = maxFiles) (other : s.files maxFiles ≠ .free) :
    ¬Lts.Along (fileStep t) (fun s op => op.Right t s) s (List.replicate (j + 1) (.open_ consPath)) := by
  induction j generalizing k s with
  | zero =>
    rintro ⟨⟨w, ret, result, kept⟩, _⟩
    have whole : s.newfd = maxFiles := by
      rw [Nat.add_zero] at left
      rw [left] at filled
      exact filled.full
    have entry : (consoleEntry consPath.val).isSome := by decide
    have failed := consopen_full entry whole
    simp only [fileStep, openSys_consPath, failed] at result
    cases result
    exact other ((console_full_kept_iff s).mp kept)
  | succ j ih =>
    rintro ⟨_, rest⟩
    obtain ⟨w, ret, result, more, same⟩ := consPath_next t filled (by omega)
    exact ih more (by omega) (by rw [same]; exact other) (rest w [ret] result)

theorem file_table_overrun :
    ¬Lts.Along (fileStep (prtkcfRoot (fun _ => 0) 0))
      (fun s op => op.Right (prtkcfRoot (fun _ => 0) 0) s)
      (.start fun _ => ⟨7, ⟨0, 0, 0⟩, 0, 0⟩) (List.replicate 129 (.open_ consPath)) := by
  have filled : (Fs.start fun _ => ⟨7, ⟨0, 0, 0⟩, 0, 0⟩).Filled 0 := by
    intro fd inside
    simp only [Fs.start, if_pos inside]
    exact ⟨fun _ => Nat.zero_le fd, fun _ => rfl⟩
  have other : (Fs.start fun _ => ⟨7, ⟨0, 0, 0⟩, 0, 0⟩).files maxFiles ≠ .free := by decide
  exact consPath_spills _ 128 filled rfl other

end L4ertl
