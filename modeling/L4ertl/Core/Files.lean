import L4ertl.Core.Kernel
import L4ertl.Core.Paths

/-!
The file system: the file table and its calls (fs.c, fs.h), the device table
(dev.c, prtkcf.c) and the devices console, root and test (devcons.c, devroot.c,
devtest.c). An entry of the file table behind the last one stands for the memory
after the array. What is printed and logged is left out.
-/
namespace L4ertl

def enoent : Int := 2
def ebadf : Int := 9
def enomem : Int := 12
def enfile : Int := 23

def maxFiles : Nat := 128
def nodev : Int := -1

def qtdir : BitVec 8 := 0x80#8
def qtfile : BitVec 8 := 0x00#8

structure Qid where
  path : BitVec 64
  vers : Word
  type : BitVec 8
  deriving DecidableEq, Repr

structure File where
  type : Int
  qid : Qid
  flags : Int
  pos : BitVec 64
  deriving DecidableEq, Repr

def File.free : File := ⟨nodev, ⟨0, 0, 0⟩, 0, 0⟩

structure Dirtab where
  name : List Byte
  qid : Qid
  deriving DecidableEq, Repr

/-- `ptr` is the memory from the pointer on. -/
structure Rootdata where
  dotdot : Int
  ptr : Nat → Byte
  size : Word
  sizep : Option Word

/-- The two tables that mkroot writes, and what stands in memory behind the strings of
    the drivers. -/
structure RootTab where
  roottab : List Dirtab
  rootdata : Nat → Rootdata
  behind : Nat → Byte

def RootTab.rootmaxq (t : RootTab) : Nat := t.roottab.length
def RootTab.dir (t : RootTab) (j : Nat) : Dirtab := t.roottab.getD j ⟨[], ⟨0, 0, 0⟩⟩

structure Fs where
  files : Nat → File
  errno : Int

def Fs.setErrno (s : Fs) (e : Int) : Fs := { s with errno := e }
def Fs.setFile (s : Fs) (fd : Nat) (f : File) : Fs := { s with files := Function.update s.files fd f }

/-- The first free entry, or MAX_FILES. -/
def Fs.newfd (s : Fs) : Nat :=
  ((List.range maxFiles).find? fun fd => (s.files fd).type = nodev).getD maxFiles

/-- It takes MAX_FILES itself for a descriptor. -/
def Fs.freefd (s : Fs) (fd : Int) : Fs :=
  if fd < 0 ∨ (maxFiles : Int) < fd then s else s.setFile fd.toNat .free

inductive Device where
  | console
  | root
  | test
  deriving DecidableEq, Repr

def Device.dc : Device → Byte
  | .console => 0x63#8
  | .root => 0x2F#8
  | .test => 0x54#8

def Device.name : Device → List Byte
  | .console => bytes ['c', 'o', 'n', 's', 'o', 'l', 'e']
  | .root => bytes ['r', 'o', 'o', 't']
  | .test => bytes ['t', 'e', 's', 't']

def devtab : List Device := [.console, .root, .test]

def devno (dc : Byte) : Int :=
  match devtab.findIdx? fun d => d.dc = dc with
  | some i => i
  | none => -1

def deviceOf (type : Int) : Option Device := if type < 0 then none else devtab[type.toNat]?

/-- The part of the path of an entry of contab behind /dev/console/. -/
def contab : List Dirtab :=
  [⟨bytes ['c', 'o', 'n', 's'], ⟨0, 0, 0⟩⟩,
    ⟨bytes ['d', 'r', 'i', 'v', 'e', 'r', 's'], ⟨1, 0, 0⟩⟩,
    ⟨bytes ['k', 'p', 'r', 'i', 'n', 't'], ⟨2, 0, 0⟩⟩,
    ⟨bytes ['n', 'u', 'l', 'l'], ⟨3, 0, 0⟩⟩,
    ⟨bytes ['s', 'y', 's', 'c', 't', 'l'], ⟨4, 0, 0⟩⟩]

def consolePrefix : List Byte :=
  bytes ['/', 'd', 'e', 'v', '/', 'c', 'o', 'n', 's', 'o', 'l', 'e', '/']

def consoleEntry (path : List Byte) : Option Dirtab :=
  contab.find? fun e => path.drop consolePrefix.length = e.name

def consopen (path : List Byte) (s : Fs) : Fs × Int :=
  match consoleEntry path with
  | none => (s.setErrno ebadf, -1)
  | some e =>
    let fd := s.newfd
    if maxFiles ≤ fd then ((s.freefd fd).setErrno enomem, -1)
    else (s.setFile fd { s.files fd with type := devno Device.console.dc, qid := e.qid, pos := 0 }, fd)

/-- The scan of roottab for one name, with the last directory that it passes. -/
def scanName (name : List Byte) : List Dirtab → Nat → Int → Nat × Int
  | [], j, dotdot => (j, dotdot)
  | e :: rest, j, dotdot =>
    if name = e.name then (j, dotdot)
    else scanName name rest (j + 1) (if e.qid.type &&& qtdir ≠ 0 then (j : Int) else dotdot)

def walkNames (t : RootTab) : List (List Byte) → Nat → Int → Option (Nat × Int)
  | [], j, dotdot => some (j, dotdot)
  | name :: rest, _, dotdot =>
    let (j, dotdot) := scanName name t.roottab 0 dotdot
    if j = t.rootmaxq then none
    else if (t.dir j).qid.type &&& qtfile ≠ 0 then some (j, dotdot)
    else walkNames t rest j dotdot

def rootWalk (t : RootTab) (tabname : List (List Byte)) (s : Fs) : Fs × Int :=
  match walkNames t tabname 0 0 with
  | none => (s.setErrno enoent, -1)
  | some (j, dotdot) =>
    if (t.rootdata j).dotdot ≠ dotdot then (s.setErrno enoent, -1)
    else
      let fd := s.newfd
      if fd = maxFiles then (s.setErrno enfile, -1)
      else (s.setFile fd { s.files fd with type := devno Device.root.dc, qid := (t.dir j).qid, pos := 0 }, fd)

def rootopen (t : RootTab) (path : List Byte) (s : Fs) : Except PathFault (Fs × Int) := do
  let tabname ← slice (namecopy path)
  return rootWalk t tabname s

def testopen (s : Fs) : Fs × Int :=
  let fd := s.newfd
  if maxFiles ≤ fd then (s.setErrno enomem, -1)
  else (s.setFile fd { s.files fd with type := devno Device.test.dc }, fd)

def Device.openPath (d : Device) (t : RootTab) (path : List Byte) (s : Fs) : Except PathFault (Fs × Int) :=
  match d with
  | .console => return consopen path s
  | .root => rootopen t path s
  | .test => return testopen s

def openSys (t : RootTab) (path : CString) (s : Fs) : Except PathFault (Fs × Int) :=
  if ¬devPrefix <+: path.val then rootopen t path.val s
  else do
    match ← deviceName path.val with
    | none => return (s.setErrno enoent, -1)
    | some dname =>
      match devtab.find? fun d => d.name = cText dname with
      | none => return (s.setErrno enoent, -1)
      | some d => d.openPath t path.val s

/-- checkfd lets it pass. -/
def Fs.Open (s : Fs) (fd : Int) : Prop :=
  0 ≤ fd ∧ fd < maxFiles ∧ (s.files fd.toNat).type ≠ nodev

instance (s : Fs) (fd : Int) : Decidable (s.Open fd) := inferInstanceAs (Decidable (_ ∧ _ ∧ _))

def Device.close (d : Device) (fd : Int) (s : Fs) : Fs :=
  match d with
  | .console | .root => s
  | .test => s.freefd fd

/-- `none` where the record names no device. -/
def closeSys (fd : Int) (s : Fs) : Option (Fs × Int) :=
  if s.Open fd then
    (deviceOf (s.files fd.toNat).type).map fun d => ((d.close fd s).freefd fd, 0)
  else some (s.setErrno ebadf, -1)

structure Transfer where
  fs : Fs
  copied : List Byte
  ret : Word

/-- memmove of `n` bytes; the count is unsigned. -/
def copied (src : Nat → Byte) (start : Nat) (n : Word) : List Byte :=
  (List.range n.toNat).map fun i => src (start + i)

def Fs.advance (s : Fs) (fd : Nat) (n : Word) : Fs :=
  s.setFile fd { s.files fd with pos := (s.files fd).pos + n.signExtend 64 }

/-- The lines in which rootread and the branch Qdrivers agree, for data of length `len`. -/
def readData (src : Nat → Byte) (len : Int) (fd : Nat) (n : Word) (offset : BitVec 64) (s : Fs) : Transfer :=
  if offset.toInt < 0 ∨ len ≤ offset.toInt then ⟨s, [], 0⟩
  else
    let n := if len < offset.toInt + n.toInt then BitVec.ofInt 32 (len - offset.toInt) else n
    ⟨s.advance fd n, copied src offset.toNat n, n⟩

def Rootdata.len (d : Rootdata) : Word := if d.size = 0 then d.sizep.getD 0 else d.size

def rootread (t : RootTab) (fd : Nat) (n : Word) (offset : BitVec 64) (s : Fs) : Transfer :=
  let d := t.rootdata (s.files fd).qid.path.toNat
  readData d.ptr d.len.toNat fd n offset s

def version : List Byte :=
  bytes ['I', 'n', 'i', 't', 'i', 'a', 'l', ' ', 'E', 'd', 'i', 't', 'i', 'o', 'n', ' ',
    '(', '2', '0', '0', '7', '0', '5', '0', '2', ')']

def stored (text : List Byte) (behind : Nat → Byte) (i : Nat) : Byte :=
  if h : i < text.length then text[i] else behind i

def readstr (off n : Word) (str : List Byte) (behind : Nat → Byte) : List Byte × Word :=
  let size := BitVec.ofNat 32 str.length
  if size ≤ off then ([], 0)
  else
    let n := if size < off + n then size - off else n
    (copied (stored str behind) off.toNat n, n)

def listdevices : List Byte :=
  devtab.flatMap fun d => bytes ['#'] ++ d.dc :: bytes [' '] ++ d.name ++ bytes ['\n']

def consread (t : RootTab) (fd : Nat) (n : Word) (offset : BitVec 64) (s : Fs) : Transfer :=
  match (s.files fd).qid.path.toNat with
  -- read_cons returns 0
  | 0 => ⟨s, [], 0⟩
  | 1 => readData (stored listdevices t.behind) listdevices.length fd n offset s
  | 4 =>
    let (text, n) := readstr (offset.setWidth 32) n version t.behind
    ⟨s.advance fd n, text, n⟩
  | 3 => ⟨s, [], 0⟩
  | _ => ⟨s.setErrno enoent, [], -1⟩

/-- `str` is the text of the buffer up to its NUL. -/
def writeCons (str : List Byte) (n : Word) : Word :=
  let strlen := BitVec.ofNat 32 str.length
  if n < strlen then n else strlen

def conswrite (fd : Nat) (str : List Byte) (n : Word) (s : Fs) : Fs × Word :=
  match (s.files fd).qid.path.toNat with
  | 0 => (s, writeCons str n)
  | 1 => (s.setErrno eperm, -1)
  | 3 => (s, n)
  | _ => (s.setErrno enoent, -1)

def Device.read (d : Device) (t : RootTab) (fd : Nat) (n : Word) (offset : BitVec 64) (s : Fs) : Transfer :=
  match d with
  | .console => consread t fd n offset s
  | .root => rootread t fd n offset s
  | .test => ⟨s, [], 0⟩

def Device.write (d : Device) (fd : Nat) (str : List Byte) (n : Word) (s : Fs) : Fs × Word :=
  match d with
  | .console => conswrite fd str n s
  | .root => (s.setErrno eperm, -1)
  | .test => (s, 0)

/-- The member ioctl, which is NULL in all three. -/
def Device.ioctl : Device → Option (Int → Word → Word → Fs → Fs × Word)
  | .console | .root | .test => none

/-- The end of read_sys, write_sys and ioctl_sys. -/
def negated (ret : Word) : Word := if ret.toInt < 0 then -ret else ret

def readSys (t : RootTab) (fd : Int) (count : Word) (s : Fs) : Option Transfer :=
  if s.Open fd then
    (deviceOf (s.files fd.toNat).type).map fun d =>
      let r := d.read t fd.toNat count (s.files fd.toNat).pos s
      { r with ret := negated r.ret }
  else some ⟨s.setErrno ebadf, [], -1⟩

def writeSys (fd : Int) (str : List Byte) (count : Word) (s : Fs) : Option (Fs × Word) :=
  if s.Open fd then
    (deviceOf (s.files fd.toNat).type).map fun d =>
      let r := d.write fd.toNat str count s
      (r.1, negated r.2)
  else some (s.setErrno ebadf, -1)

/-- `none` where it calls through NULL. -/
def ioctlSys (fd : Int) (cmd arg : Word) (s : Fs) : Option (Fs × Word) :=
  if s.Open fd then do
    let d ← deviceOf (s.files fd.toNat).type
    let op ← d.ioctl
    let r := op fd cmd arg s
    return (r.1, if r.2.toInt < 0 then -r.2 else 0)
  else some (s.setErrno ebadf, -1)

def Fs.start (after : Nat → File) : Fs where
  files := fun fd => if fd < maxFiles then .free else after fd
  errno := 0

def prtkcfRoot (root4code : Nat → Byte) (root4len : Word) : RootTab where
  roottab :=
    [⟨[], ⟨0, 0, qtdir⟩⟩, ⟨bytes ['d', 'e', 'v'], ⟨1, 0, qtdir⟩⟩, ⟨bytes ['t', 'm', 'p'], ⟨2, 0, qtdir⟩⟩,
      ⟨bytes ['u', 's', 'r'], ⟨3, 0, qtdir⟩⟩, ⟨bytes ['N', 'O', 'T', 'E', 'S'], ⟨4, 0, qtfile⟩⟩]
  rootdata := fun j =>
    match j with
    | 0 => ⟨0, fun _ => 0, 3, none⟩
    | 3 => ⟨0, fun _ => 0, 1, none⟩
    | 4 => ⟨3, root4code, 0, some root4len⟩
    | _ => ⟨0, fun _ => 0, 0, none⟩
  behind := fun _ => 0

def deviceText (path : List Byte) (i : Nat) : List Byte :=
  (path.drop devPrefix.length).take (i - devPrefix.length)

/-- The device name of a path under /dev/ ends before index 28 if it ends at all, and a
    path for the root device has room in the buffers of rootopen. -/
def PathFits (path : List Byte) : Prop :=
  if devPrefix <+: path then
    match stopIndex path with
    | none => True
    | some i => i < knamelen ∧ (deviceText path i = Device.root.name → NameFits path)
  else NameFits path

structure ParsedSafely (t : RootTab) (path : CString) (s : Fs) : Prop where
  runs : ∃ r, openSys t path s = .ok r
  terminated : ∀ dname, deviceName path.val = .ok (some dname) → dname.length ≤ knamelen ∧ nul ∈ dname

theorem rootopen_ok_iff (t : RootTab) {path : List Byte} (clean : nul ∉ path) (s : Fs) :
    (∃ r, rootopen t path s = .ok r) ↔ NameFits path := by
  rw [← slice_ok_iff clean, rootopen]
  constructor
  · rintro ⟨r, ok⟩
    cases sliced : slice (namecopy path) with
    | error fault =>
      rw [sliced] at ok
      cases ok
    | ok tabname => exact ⟨tabname, rfl⟩
  · rintro ⟨tabname, sliced⟩
    rw [sliced]
    exact ⟨_, rfl⟩

theorem findDevice_root (text : List Byte) :
    devtab.find? (fun d => d.name = text) = some .root ↔ text = Device.root.name := by
  constructor
  · intro found
    have named := List.find?_some found
    exact (of_decide_eq_true named).symm
  · rintro rfl
    decide

theorem openPath_ok_iff (d : Device) (t : RootTab) {path : List Byte} (clean : nul ∉ path) (s : Fs) :
    (∃ r, d.openPath t path s = .ok r) ↔ (d = .root → NameFits path) := by
  cases d with
  | console => exact ⟨fun _ other => (by cases other), fun _ => ⟨_, rfl⟩⟩
  | root =>
    rw [show Device.root.openPath t path s = rootopen t path s from rfl, rootopen_ok_iff t clean]
    exact ⟨fun fits _ => fits, fun fits => fits rfl⟩
  | test => exact ⟨fun _ other => (by cases other), fun _ => ⟨_, rfl⟩⟩

theorem openSys_device {t : RootTab} {path : CString} {s : Fs} (dev : devPrefix <+: path.val) {i : Nat}
    (stop : stopIndex path.val = some i) (short : i < knamelen) :
    openSys t path s =
      match devtab.find? fun d => d.name = deviceText path.val i with
      | none => .ok (s.setErrno enoent, -1)
      | some d => d.openPath t path.val s := by
  obtain ⟨found, named⟩ := (deviceName_ok_iff path.val).mpr fun k also => by
    rw [stop] at also
    cases also
    exact short
  rw [openSys, if_neg (not_not.mpr dev), named]
  cases found with
  | none =>
    unfold deviceName at named
    simp only [stop] at named
    split at named <;> cases named
  | some dname =>
    have text := deviceName_text path.property stop named
    simp only [bind, Except.bind, text]
    rfl

theorem openSys_ok_iff (t : RootTab) (path : CString) (s : Fs) :
    (∃ r, openSys t path s = .ok r) ↔ PathFits path.val := by
  unfold PathFits
  by_cases dev : devPrefix <+: path.val
  · rw [if_pos dev]
    cases stop : stopIndex path.val with
    | none =>
      have never : deviceName path.val = .ok none := by
        simp only [deviceName, stop]
      rw [openSys, if_neg (not_not.mpr dev), never]
      exact ⟨fun _ => trivial, fun _ => ⟨_, rfl⟩⟩
    | some i =>
      by_cases short : i < knamelen
      · rw [openSys_device dev stop short]
        simp only [short, true_and]
        rw [← findDevice_root]
        cases found : devtab.find? fun d => d.name = deviceText path.val i with
        | none => exact ⟨fun _ other => (by cases other), fun _ => ⟨_, rfl⟩⟩
        | some d =>
          simp only [Option.some.injEq]
          exact openPath_ok_iff d t path.property s
      · have faults : deviceName path.val = .error .dname := by
          simp only [deviceName, stop]
          exact if_pos (by omega)
        rw [openSys, if_neg (not_not.mpr dev), faults]
        constructor
        · rintro ⟨r, ok⟩
          cases ok
        · intro fits
          exact absurd fits.1 short
  · rw [if_neg dev, openSys, if_pos dev]
    exact rootopen_ok_iff t path.property s

theorem open_in_bounds_iff (t : RootTab) (path : CString) (s : Fs) :
    ParsedSafely t path s ↔ PathFits path.val := by
  rw [← openSys_ok_iff t path s]
  constructor
  · exact fun parsed => parsed.runs
  · exact fun runs => ⟨runs, fun _ named => deviceName_terminated named⟩

/-- A path of 64 bytes leaves no NUL in namecopy. -/
theorem open_long_path :
    let path : CString := ⟨List.replicate 64 0x61#8, by decide⟩
    openSys (prtkcfRoot (fun _ => 0) 0) path (.start fun _ => .free) = .error .namecopy ∧
      ¬ParsedSafely (prtkcfRoot (fun _ => 0) 0) path (.start fun _ => .free) := by
  intro path
  have faults : openSys (prtkcfRoot (fun _ => 0) 0) path (.start fun _ => .free) = .error .namecopy := by
    have copied : slice (namecopy path.val) = .error .namecopy := by decide +kernel
    rw [openSys, if_pos (by decide), rootopen, copied]
    rfl
  refine ⟨faults, fun parsed => ?_⟩
  obtain ⟨r, ok⟩ := parsed.runs
  rw [faults] at ok
  cases ok

end L4ertl
