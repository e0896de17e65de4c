import L4ertl.Libc.ScanLong
import L4ertl.Libc.Vsprintf

/-!
vsscanf reads back what vsprintf has written: any list of longs and words, in fields of
any form, with blanks between them.
-/
namespace L4ertl

structure Token where
  text : List Byte
  nonempty : text ≠ []
  solid : ∀ c ∈ text, isspace c = false
  ok : nul ∉ text

inductive Field where
  | long (spec : LongSpec) (n : Word)
  | token (t : Token)

namespace Field

def printText : Field → List Byte
  | long spec _ => spec.text
  | token _ => [byte '%', byte 's']

def arg : Field → VaArg
  | long _ n => .word n
  | token t => .string (some ⟨t.text, t.ok⟩)

def output : Field → List Byte
  | long spec n => spec.output n
  | token t => t.text

def scanText : Field → List Byte
  | long spec _ => spec.letter.scanText
  | token _ => [byte '%', byte 's']

def stored : Field → Stored
  | long _ n => .long n
  | token t => .string t.text

def Readable : Field → Prop
  | long spec n => spec.Readable n
  | token _ => True

def ch : Field → Byte
  | long spec _ => byte spec.letter.char
  | token _ => byte 's'

def scanning : Field → Scanning
  | long _ _ => { flagLong := true }
  | token _ => {}

end Field

def later (piece : Field → List Byte) (fields : List Field) : List Byte :=
  fields.flatMap fun f => byte ' ' :: piece f

def spaced (piece : Field → List Byte) : List Field → List Byte
  | [] => []
  | f :: fields => piece f ++ later piece fields

theorem later_cons (piece : Field → List Byte) (f : Field) (fields : List Field) :
    later piece (f :: fields) = byte ' ' :: (piece f ++ later piece fields) := by
  rw [later, List.flatMap_cons]
  rfl

theorem spaced_ok {piece : Field → List Byte} (ok : ∀ f, nul ∉ piece f) (fields : List Field) :
    nul ∉ spaced piece fields := by
  have blank : nul ∉ [byte ' '] := by decide
  have behind : ∀ fields, nul ∉ later piece fields := by
    intro fields member
    obtain ⟨f, _, inside⟩ := List.mem_flatMap.mp member
    rcases List.mem_cons.mp inside with same | text
    · exact blank (List.mem_singleton.mpr same)
    · exact ok f text
  cases fields with
  | nil => exact List.not_mem_nil
  | cons f fields =>
    rw [spaced, List.mem_append, not_or]
    exact ⟨ok f, behind fields⟩

def printFormat (fields : List Field) : CString :=
  ⟨spaced Field.printText fields, spaced_ok (fun f => by
    cases f with
    | long spec n => exact spec.text_ok
    | token t => exact (by decide : nul ∉ [byte '%', byte 's'])) fields⟩

def scanFormat (fields : List Field) : CString :=
  ⟨spaced Field.scanText fields, spaced_ok (fun f => by
    cases f with
    | long spec n => exact spec.letter.scanText_ok
    | token t => exact (by decide : nul ∉ [byte '%', byte 's'])) fields⟩

def fieldsText (fields : List Field) : CString :=
  ⟨spaced Field.output fields, spaced_ok (fun f => by
    cases f with
    | long spec n => exact spec.output_ok n
    | token t => exact t.ok) fields⟩

namespace LongSpec
variable {spec : LongSpec} {l : Conversion}

theorem Reached.undotted (reached : spec.Reached l) (dot : l.flagDot = false) : l.preci = 0 := by
  rw [reached.dot, Option.isSome_eq_false_iff, Option.isNone_iff_eq_none] at dot
  have value := reached.preci
  rw [dot] at value
  exact BitVec.eq_of_toNat_eq value

theorem Reached.preci_lt (reached : spec.Reached l) : l.preci.toNat < 2 ^ 31 := by
  rw [reached.preci]
  cases given : spec.precision with
  | none => decide
  | some digits => exact spec.precision_lt digits given

theorem Reached.width_lt (reached : spec.Reached l) : (widened spec.letter l).width.toNat < 2 ^ 31 := by
  have width := spec.width_lt
  simp only [widened]
  split
  · exact reached.preci_lt
  · rw [reached.width]
    exact width

theorem Reached.convert (reached : spec.Reached l) (fn : Out) (n : Word) (args : List VaArg) :
    ∃ fn', L4ertl.convert fn (byte spec.letter.char) l (.word n :: args) = some (fn', args) ∧
      Puts fn fn' (spec.output n) := by
  obtain ⟨fn', laid, puts⟩ := numPrintf_layout fn n spec.letter (l := widened spec.letter l)
    reached.hash reached.undotted reached.width_lt reached.preci_lt
  refine ⟨fn', ?_, ?_⟩
  · rw [convert_long spec.letter reached.hash reached.long, laid]
    rfl
  · rw [← spec.output_eq reached n]
    exact puts

end LongSpec

section
variable {fn : Out} {args : List VaArg}

theorem vPrintfLoop_percent {spec rest : List Byte} {args' : List VaArg} {fn' : Out} {ch : Byte} {l : Conversion}
    (parsed : innPrintf spec args {} = .conv ch l rest args) (converted : convert fn ch l args = some (fn', args')) :
    vPrintfLoop (byte '%' :: spec) args fn = vPrintfLoop rest args' fn' := by
  have noText : (byte '%' :: spec).takeWhile (· ≠ byte '%') = [] := List.takeWhile_cons_of_neg (by simp)
  have whole : (byte '%' :: spec).dropWhile (· ≠ byte '%') = byte '%' :: spec := List.dropWhile_cons_of_neg (by simp)
  rw [vPrintfLoop_step]
  simp only [noText, whole, ne_eq, not_true_eq_false, if_false, parsed, converted, Option.bind_some]

theorem vPrintfLoop_blank (spec : List Byte) (args : List VaArg) (fn : Out) :
    vPrintfLoop (byte ' ' :: byte '%' :: spec) args fn = vPrintfLoop (byte '%' :: spec) args (fn.put [byte ' ']) := by
  have text : (byte ' ' :: byte '%' :: spec).takeWhile (· ≠ byte '%') = [byte ' '] := by
    rw [List.takeWhile_cons_of_pos (by decide), List.takeWhile_cons_of_neg (by simp)]
  have left : (byte ' ' :: byte '%' :: spec).dropWhile (· ≠ byte '%') = byte '%' :: spec := by
    rw [List.dropWhile_cons_of_pos (by decide), List.dropWhile_cons_of_neg (by simp)]
  have noText : (byte '%' :: spec).takeWhile (· ≠ byte '%') = [] := List.takeWhile_cons_of_neg (by simp)
  have whole : (byte '%' :: spec).dropWhile (· ≠ byte '%') = byte '%' :: spec := List.dropWhile_cons_of_neg (by simp)
  rw [vPrintfLoop_step, vPrintfLoop_step]
  simp only [text, left, noText, whole, ne_eq, not_true_eq_false, if_false, reduceCtorEq, not_false_eq_true, if_true]

theorem Field.printText_percent (f : Field) : ∃ body, f.printText = byte '%' :: body := by
  cases f with
  | long spec n => exact ⟨_, rfl⟩
  | token t => exact ⟨_, rfl⟩

theorem Field.prints (f : Field) (fn : Out) (args : List VaArg) (rest : List Byte) (short : f.output.length < 2 ^ 31) :
    ∃ fn', vPrintfLoop (f.printText ++ rest) (f.arg :: args) fn = vPrintfLoop rest args fn' ∧ Puts fn fn' f.output := by
  cases f with
  | long spec n =>
    obtain ⟨l, run, reached⟩ := spec.reached_before (.word n :: args) rest
    obtain ⟨fn', converted, puts⟩ := reached.convert fn n args
    refine ⟨fn', ?_, puts⟩
    rw [← vPrintfLoop_percent run converted, printText, LongSpec.text]
    simp only [List.cons_append, List.append_assoc, List.nil_append, arg]
  | token t =>
    have parsed : innPrintf (byte 's' :: rest) (arg (.token t) :: args) {} =
        .conv (byte 's') {} rest (arg (.token t) :: args) := by
      rw [innPrintf_step]
      rfl
    have length : (BitVec.ofNat 32 t.text.length).toNat = t.text.length := by
      have : t.text.length < 2 ^ 31 := short
      rw [BitVec.toNat_ofNat, Nat.mod_eq_of_lt (by omega)]
    have converted : convert fn (byte 's') {} (arg (.token t) :: args) = some (fn.put t.text, args) := by
      have written : fn.write t.text (BitVec.ofNat 32 t.text.length) = some (fn.put t.text) := by
        rw [Out.write, length, if_neg (Nat.lt_irrefl _), List.take_length]
      have printed : convert fn (byte 's') {} (arg (.token t) :: args) =
          (fn.write t.text (BitVec.ofNat 32 t.text.length)).map (·, args) := rfl
      rw [printed, written]
      rfl
    exact ⟨fn.put t.text, vPrintfLoop_percent parsed converted, Puts.put fn t.text⟩

theorem later_prints (fields : List Field) (fn : Out) (short : (later Field.output fields).length < 2 ^ 31) :
    ∃ fn', vPrintfLoop (later Field.printText fields) (fields.map Field.arg) fn = some (fn', fn'.len.toInt) ∧
      Puts fn fn' (later Field.output fields) := by
  induction fields generalizing fn with
  | nil =>
    refine ⟨fn, ?_, Puts.refl fn⟩
    rw [later, List.flatMap_nil, vPrintfLoop_step]
    rfl
  | cons f fields ih =>
    rw [later_cons] at short
    simp only [List.length_cons, List.length_append] at short
    obtain ⟨body, percent⟩ := f.printText_percent
    obtain ⟨fn₁, first, put⟩ := f.prints (fn.put [byte ' ']) (fields.map Field.arg) (later Field.printText fields)
      (by omega)
    obtain ⟨fn₂, rest, puts⟩ := ih fn₁ (by omega)
    refine ⟨fn₂, ?_, ?_⟩
    · rw [later_cons, List.map_cons, ← rest, ← first, percent]
      exact vPrintfLoop_blank _ _ _
    · rw [later_cons]
      exact ((Puts.put fn [byte ' ']).trans put).trans puts

theorem vPrintf_fields (fields : List Field) (short : (fieldsText fields).1.length < 2 ^ 31) :
    ∃ pieces : List (List Byte), vPrintf (printFormat fields) (fields.map Field.arg) =
      some (pieces, ((fieldsText fields).1.length : Int)) ∧ pieces.flatten = (fieldsText fields).1 := by
  have run : ∃ fn', vPrintfLoop (printFormat fields).1 (fields.map Field.arg) ⟨[], 0⟩ = some (fn', fn'.len.toInt) ∧
      Puts ⟨[], 0⟩ fn' (fieldsText fields).1 := by
    cases fields with
    | nil =>
      refine ⟨⟨[], 0⟩, ?_, Puts.refl _⟩
      rw [vPrintfLoop_step]
      rfl
    | cons f fields =>
      have lengths : f.output.length + (later Field.output fields).length < 2 ^ 31 := by
        rw [← List.length_append]
        exact short
      obtain ⟨fn₁, first, put⟩ := f.prints ⟨[], 0⟩ (fields.map Field.arg) (later Field.printText fields) (by omega)
      obtain ⟨fn₂, rest, puts⟩ := later_prints fields fn₁ (by omega)
      exact ⟨fn₂, first.trans rest, put.trans puts⟩
  obtain ⟨fn', loop, puts⟩ := run
  refine ⟨fn'.pieces, ?_, puts.bytes⟩
  have counted : fn'.len.toInt = (fieldsText fields).1.length := by
    have whole : fn'.len = BitVec.ofNat 32 (fieldsText fields).1.length := puts.counted.trans (BitVec.zero_add _)
    rw [whole, toInt_low short]
  rw [vPrintf, loop, counted]
  rfl

end

namespace Scan
variable {s : Scan}

theorem skip_zero : s.skip 0 = s := by simp [Scan.skip]

theorem skipSpaces_solid (solid : ∀ c ∈ s.text.head?, isspace c = false) : s.skipSpaces = s := by
  have none : s.text.takeWhile isspace = [] := by
    cases here : s.text with
    | nil => rfl
    | cons c rest => exact List.takeWhile_cons_of_neg (by simp [solid c (by rw [here]; rfl)])
  rw [Scan.skipSpaces, none]
  exact skip_zero

theorem skipSpaces_twice : s.skipSpaces.skipSpaces = s.skipSpaces := by
  refine skipSpaces_solid fun c head => ?_
  rw [skipSpaces_text] at head
  have stopped := List.head?_dropWhile_not isspace s.text
  rw [head] at stopped
  simpa using stopped

end Scan

section
variable {s : Scan}

theorem Field.skips (f : Field) : scanConvert f.ch f.scanning s.skipSpaces = scanConvert f.ch f.scanning s := by
  cases f with
  | long spec n =>
    simp only [ch, scanConvert_long, scanInteger, Scan.skipSpaces_twice]
  | token t =>
    have string (s : Scan) : scanConvert (byte 's') {} s = .on (scanString {} s) := rfl
    simp only [ch, scanning, string, scanString, Scan.skipSpaces_twice]

theorem Field.inScan_field (f : Field) {ended : Bool} (within : ended = false) (rest : List Byte) :
    ∃ body, f.scanText = byte '%' :: body ∧ inScan ended (body ++ rest) {} = .conv f.ch f.scanning rest := by
  cases f with
  | long spec n => exact ⟨_, rfl, inScan_long within spec.letter rest⟩
  | token t =>
    refine ⟨_, rfl, ?_⟩
    subst within
    have flag : scanFlag (byte 's') rest {} = none := rfl
    rw [List.cons_append, inScan_step, if_neg (by simp), List.nil_append, flag]
    rfl

theorem Field.shows {f : Field} (readable : f.Readable) : ∃ c ∈ f.output, isspace c = false := by
  cases f with
  | long spec n =>
    obtain ⟨c, ds, eq⟩ := List.exists_cons_of_ne_nil (spec.digits_some n readable.shown)
    obtain ⟨_, _, _, shape, _⟩ := spec.output_shape n
    have member : c ∈ spec.digits n := by
      rw [eq]
      exact List.mem_cons_self
    have small : spec.letter.base ≤ 16 := by cases spec.letter <;> decide
    refine ⟨c, ?_, (digit_plain c (Nat.lt_of_lt_of_le (spec.digits_below n c member) small)).1⟩
    rw [output, shape]
    simp [member]
  | token t =>
    obtain ⟨c, cs, eq⟩ := List.exists_cons_of_ne_nil t.nonempty
    have member : c ∈ t.text := by
      rw [eq]
      exact List.mem_cons_self
    exact ⟨c, member, t.solid c member⟩

theorem scanString_token (t : Token) {blanks tail : List Byte} (here : s.text = blanks ++ (t.text ++ tail))
    (blank : ∀ c ∈ blanks, isspace c = true) (stop : ∀ d ∈ tail.head?, isspace d = true) (room : s.Room) :
    (scanString {} s).Room ∧ (scanString {} s).n = s.n + 1 ∧
      (scanString {} s).stored = s.stored ++ [.string t.text] ∧ (scanString {} s).text = tail := by
  have first : s.skipSpaces.text = t.text ++ tail := by
    obtain ⟨c, cs, eq⟩ := List.exists_cons_of_ne_nil t.nonempty
    have solid := t.solid c (by rw [eq]; exact List.mem_cons_self)
    rw [Scan.skipSpaces_text, here, List.dropWhile_append_of_pos blank, eq]
    exact List.dropWhile_cons_of_neg (by simp [solid])
  have some : s.skipSpaces.text ≠ [] := by
    rw [first]
    exact List.append_ne_nil_of_left_ne_nil t.nonempty tail
  have chars : (s.skipSpaces.text.takeWhile fun c => !isspace c) = t.text := by
    rw [first, takeWhile_stop fun d head => by simp [stop d head], List.takeWhile_eq_self_iff]
    intro c member
    simp [t.solid c member]
  have fits := room.skipSpaces
  unfold Scan.Room at fits
  rw [first, List.length_append] at fits
  have width : t.text.take (-1 : Word).toNat = t.text := by
    have last : (-1 : Word).toNat = 2 ^ 32 - 1 := rfl
    rw [last]
    exact List.take_of_length_le (by omega)
  unfold scanString
  simp only [if_neg some, chars, width, Bool.false_eq_true, if_false]
  refine ⟨(room.skipSpaces.skip _).1, rfl, rfl, ?_⟩
  simp only [Scan.store, Scan.skip_text, first, List.drop_left]

theorem Field.reads {f : Field} {blanks tail : List Byte} (here : s.text = blanks ++ (f.output ++ tail))
    (blank : ∀ c ∈ blanks, isspace c = true) (stop : ∀ d ∈ tail.head?, isspace d = true) (readable : f.Readable)
    (room : s.Room) :
    ∃ s' spaces, scanConvert f.ch f.scanning s = .on s' ∧ s'.Room ∧ s'.n = s.n + 1 ∧
      s'.stored = s.stored ++ [f.stored] ∧ s'.text = spaces ++ tail ∧ ∀ c ∈ spaces, isspace c = true := by
  cases f with
  | long spec n =>
    obtain ⟨s', w, run, room', counted, stored, same, left⟩ :=
      spec.field_reads n here blank stop readable.shown room
    obtain ⟨spaces, text, blank'⟩ := left readable
    refine ⟨s', spaces, (scanConvert_long _ _ _).trans run, room', counted, ?_, text, blank'⟩
    rw [stored, same.mpr readable]
    rfl
  | token t =>
    obtain ⟨room', counted, stored, text⟩ := scanString_token t here blank stop room
    exact ⟨scanString {} s, [], rfl, room', counted, stored, text, nofun⟩

theorem Field.scans {f : Field} {s' : Scan} (converted : scanConvert f.ch f.scanning s = .on s') (some : s.text ≠ [])
    (rest : List Byte) : vScanfLoop (f.scanText ++ rest) s = vScanfLoop rest s' := by
  obtain ⟨body, percent, parsed⟩ := f.inScan_field (List.isEmpty_eq_false_iff.mpr some) rest
  rw [percent]
  exact vScanfLoop_on parsed converted

theorem later_stop (piece : Field → List Byte) (fields : List Field) :
    ∀ d ∈ (later piece fields).head?, isspace d = true := by
  intro d head
  cases fields with
  | nil => cases head
  | cons f fields =>
    rw [later_cons] at head
    cases head
    exact isspace_blank

theorem later_reads (fields : List Field) (readable : ∀ f ∈ fields, f.Readable) {spaces : List Byte}
    (here : s.text = spaces ++ later Field.output fields) (blank : ∀ c ∈ spaces, isspace c = true) (counts : s.n ≠ 0)
    (room : s.Room) :
    vScanfLoop (later Field.scanText fields) s = some ((s.n + fields.length : Int), s.stored ++ fields.map Field.stored) := by
  induction fields generalizing s spaces with
  | nil =>
    rw [later, List.flatMap_nil, vScanfLoop, Scan.errOut, if_neg fun both => counts both.2]
    simp
  | cons f fields ih =>
    have readableHead := readable f List.mem_cons_self
    rw [later_cons] at here
    have whole : s.text = (spaces ++ [byte ' ']) ++ (f.output ++ later Field.output fields) := by
      rw [here]
      simp
    obtain ⟨s', left, converted, room', counted, stored, text, blank'⟩ :=
      Field.reads whole (List.forall_mem_append.mpr ⟨blank, by simp [isspace_blank]⟩) (later_stop _ _) readableHead room
    have some : s.skipSpaces.text ≠ [] := by
      obtain ⟨c, member, solid⟩ := Field.shows readableHead
      rw [Scan.skipSpaces_text, Ne, List.dropWhile_eq_nil_iff]
      intro all
      have space := all c (by rw [whole]; simp [member])
      rw [solid] at space
      cases space
    have stop : (f.scanText ++ later Field.scanText fields).dropWhile isspace =
        f.scanText ++ later Field.scanText fields := by
      obtain ⟨body, percent, _⟩ := f.inScan_field rfl []
      rw [percent]
      exact List.dropWhile_cons_of_neg (by decide)
    rw [later_cons, vScanfLoop_spaces isspace_blank, stop, Field.scans (f.skips.trans converted) some,
      ih (fun g member => readable g (List.mem_cons_of_mem _ member)) text blank' (by omega) room', counted, stored]
    simp only [List.length_cons, List.map_cons, List.append_assoc, List.singleton_append]
    congr 2
    omega

end

def InMemory (mem : Memory) (s : CString) : Prop :=
  (∀ i, i < s.1.length → mem i = s.1.getD i nul) ∧ mem s.1.length = nul

theorem fields_read (fields : List Field) (nonempty : fields ≠ []) (readable : ∀ f ∈ fields, f.Readable)
    (room : (fieldsText fields).1.length < 2 ^ 31) :
    vsscanf (fieldsText fields) (scanFormat fields) = some ((fields.length : Int), fields.map Field.stored) := by
  obtain ⟨f, fields, rfl⟩ := List.exists_cons_of_ne_nil nonempty
  have start : Scan.Room ⟨(fieldsText (f :: fields)).1, 1, 0, []⟩ := by
    unfold Scan.Room
    have one : (1 : Word).toNat = 1 := rfl
    simp only [one]
    omega
  have readableHead := readable f List.mem_cons_self
  obtain ⟨s', spaces, converted, room', counted, stored, text, blank⟩ :=
    Field.reads (s := ⟨(fieldsText (f :: fields)).1, 1, 0, []⟩) (List.nil_append _).symm nofun (later_stop _ _)
      readableHead start
  have some : (fieldsText (f :: fields)).1 ≠ [] := by
    obtain ⟨c, member, _⟩ := Field.shows readableHead
    exact List.append_ne_nil_of_left_ne_nil (List.ne_nil_of_mem member) _
  have rest := later_reads fields (fun g member => readable g (List.mem_cons_of_mem _ member)) text blank
    (by simp [counted]) room'
  rw [counted, stored] at rest
  refine (Field.scans converted some _).trans (rest.trans ?_)
  simp only [List.length_cons, List.map_cons, List.nil_append, List.singleton_append]
  congr 2
  omega

/-- Any list of longs and words that vsprintf has written with blanks between them is in
    memory, and vsscanf reads every one of them back from there. -/
theorem print_scan (fields : List Field) (nonempty : fields ≠ []) (readable : ∀ f ∈ fields, f.Readable)
    (room : (fieldsText fields).1.length < 2 ^ 31) (before : Memory) :
    ∃ stores, vsprintf true (printFormat fields) (fields.map Field.arg) =
        some (((fieldsText fields).1.length : Int), stores) ∧
      InMemory (afterStores stores before) (fieldsText fields) ∧
      vsscanf (fieldsText fields) (scanFormat fields) = some ((fields.length : Int), fields.map Field.stored) := by
  obtain ⟨pieces, printed, bytes⟩ := vPrintf_fields fields room
  have short : pieces.flatten.length < 2 ^ 31 := by
    rw [bytes]
    exact room
  have all := vsnprintfOf_bounded short (-1) (by decide) before
  have whole : min pieces.flatten.length ((-1 : Word).toNat - 1) = pieces.flatten.length :=
    Nat.min_eq_left (Nat.le_trans (Nat.le_of_lt short) (by decide))
  refine ⟨(vsnprintfOf true (-1) (pieces, pieces.flatten.length)).2, ?_, ?_, fields_read fields nonempty readable room⟩
  · rw [vsprintf, vsnprintf, printed, ← bytes]
    rfl
  · rw [InMemory, ← bytes]
    exact ⟨fun i below => all.bytes i (by rw [whole]; exact below), (congrArg _ whole).symm.trans all.terminated⟩

/-- "%-+05.3ld %s %05lu" for -7, "ok" and 5: below 8 the zeros do no harm. -/
def mixedFields : List Field :=
  [.long signedSpec 0xFFFFFFF9#32, .token ⟨bytes ['o', 'k'], by decide, by decide, by decide⟩, .long zeroFilled 5#32]

theorem print_scan_mixed : ∃ stores, vsprintf true (printFormat mixedFields) (mixedFields.map Field.arg) =
      some (((fieldsText mixedFields).1.length : Int), stores) ∧
    InMemory (afterStores stores fun _ => nul) (fieldsText mixedFields) ∧
    vsscanf (fieldsText mixedFields) (scanFormat mixedFields) =
      some (3, [.long 0xFFFFFFF9#32, .string (bytes ['o', 'k']), .long 5#32]) :=
  print_scan mixedFields (by decide)
    (List.forall_mem_cons.mpr ⟨(by decide : signedSpec.Readable _), List.forall_mem_cons.mpr ⟨trivial,
      List.forall_mem_cons.mpr ⟨(by decide : zeroFilled.Readable _), nofun⟩⟩⟩) (by decide) _

end L4ertl
