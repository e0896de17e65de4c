import L4ertl.System.Interrupts

/-!
The interrupt lines (l4_icu.c) under do_irq: hw_ack_irq detaches the line that has
come in, hw_end_irq attaches it again when its handler has returned.
-/
namespace L4ertl
open Intrusive

abbrev irqNr : Nat := 128

/-- How far a do_irq is: before its hw_ack_irq, between that and its hw_end_irq, or
    behind both. -/
inductive LineStage where
  | counted
  | acked
  | ended
  deriving DecidableEq, Repr

structure LineUse where
  irq : Fin irqNr
  stage : LineStage
  deriving DecidableEq, Repr

/-- `attached` is L4's view: an attached and unmasked line can interrupt the vCPU.
    `nest` is for the do_irq's between their increment and their decrement, the
    innermost first. -/
structure IrqLines (T : Type) where
  sys : IrqSystem T
  irqBits : Fin irqNr → Bool
  attached : Fin irqNr → Bool
  nest : List LineUse

inductive LineLabel (T : Type) where
  -- do_irq: its increment, hw_ack_irq, hw_end_irq and its decrement
  | enter (irq : Fin irqNr)
  | ack
  | end_ (taken : Bool)
  | leave
  -- hw_enable_irq and hw_disable_irq, by a handler or a thread
  | enable (irq : Fin irqNr) (taken : Bool)
  | disable (irq : Fin irqNr)
  | other (l : IrqLabel T)

variable {T : Type}

/-- `taken` says whether l4_irq_attach succeeds; a failure is only printed. -/
def IrqLines.enableL4Irq (irq : Fin irqNr) (taken : Bool) (s : IrqLines T) : IrqLines T :=
  { s with
    irqBits := Function.update s.irqBits irq true
    attached := Function.update s.attached irq (taken || s.attached irq) }

def IrqLines.disableL4Irq (irq : Fin irqNr) (s : IrqLines T) : IrqLines T :=
  { s with
    irqBits := Function.update s.irqBits irq false
    attached := Function.update s.attached irq false }

def IrqLabel.isNesting : IrqLabel T → Bool
  | .enter | .leave => true
  | _ => false

variable [DecidableEq T]

def IrqLines.running (s : IrqLines T) : Bool := s.sys.here.head?.any fun f => f.phase.isHandling

def IrqLines.next (s : IrqLines T) : LineLabel T → Option (IrqLines T)
  | .enter irq =>
    -- a message with the label 0 is unclassifiable
    if s.attached irq ∧ irq.val ≠ 0 then
      (s.sys.next .enter).map fun sys => { s with sys := sys, nest := ⟨irq, .counted⟩ :: s.nest }
    else none
  | .ack =>
    match s.nest with
    | ⟨irq, .counted⟩ :: nest =>
      if s.running then some { s.disableL4Irq irq with nest := ⟨irq, .acked⟩ :: nest } else none
    | _ => none
  | .end_ taken =>
    match s.nest with
    | ⟨irq, .acked⟩ :: nest =>
      if s.running then some { s.enableL4Irq irq taken with nest := ⟨irq, .ended⟩ :: nest } else none
    | _ => none
  | .leave =>
    match s.nest with
    | ⟨_, .ended⟩ :: nest => (s.sys.next .leave).map fun sys => { s with sys := sys, nest := nest }
    | _ => none
  | .enable irq taken => some (s.enableL4Irq irq taken)
  | .disable irq => some (s.disableL4Irq irq)
  | .other l =>
    if l.isNesting then none else (s.sys.next l).map fun sys => { s with sys := sys }

def IrqLines.step (s : IrqLines T) (l : LineLabel T) : Option (IrqLines T × List Unit) :=
  (s.next l).map fun w => (w, [])

def IrqLines.start (k : Kernel T) (lines : Fin irqNr → Bool) : IrqLines T := ⟨.start k, lines, lines, []⟩

def IrqLines.active (s : IrqLines T) : List (Fin irqNr) :=
  (s.nest.filter fun x => x.stage = .acked).map LineUse.irq

/-- No line is enabled while its interrupt is handled, and no interrupt comes before the
    hw_ack_irq or behind the hw_end_irq of another. -/
def IrqLines.Patient (s : IrqLines T) : LineLabel T → Prop
  | .enable irq _ => irq ∉ s.active
  | .enter _ => ∀ x ∈ s.nest.head?, x.stage = .acked
  | _ => True

instance (s : IrqLines T) : ∀ l, Decidable (s.Patient l)
  | .enable irq _ => inferInstanceAs (Decidable (irq ∉ s.active))
  | .enter _ => inferInstanceAs (Decidable (∀ x ∈ s.nest.head?, x.stage = .acked))
  | .ack | .end_ _ | .leave | .disable _ | .other _ => isTrue trivial

theorem next_counter {s w : IrqSystem T} {l : IrqLabel T} (flat : l.isNesting = false) (taken : s.next l = some w) :
    w.kernel.irqNestingCounter.toNat % 2 ^ 31 = s.kernel.irqNestingCounter.toNat % 2 ^ 31 ∨
      l = .finish ∧ w.kernel.irqNestingCounter = 0#32 ∧ ∃ f rest, s.here = f :: rest ∧ f.phase = .ending := by
  cases l with
  | enter => cases flat
  | leave => cases flat
  | call =>
    left
    simp only [IrqSystem.next] at taken
    split at taken
    · split at taken
      · cases taken
        show (s.kernel.irqNestingCounter ||| schedPending).toNat % 2 ^ 31 = _
        rw [pending_toNat]
        omega
      · cases taken
        rfl
    · cases taken
  | switch now =>
    left
    simp only [IrqSystem.next] at taken
    split at taken
    · rename_i new calls rest here
      split at taken
      · cases taken
        exact congrArg (fun c => c.toNat % 2 ^ 31) (switchTo_counter now new s.kernel)
      · cases taken
        rfl
    · cases taken
  | finish =>
    right
    simp only [IrqSystem.next] at taken
    split at taken
    · rename_i calls rest here
      cases taken
      exact ⟨rfl, rfl, _, _, here, rfl⟩
    · cases taken
  | work code =>
    left
    simp only [IrqSystem.next] at taken
    split at taken
    · rename_i same
      cases taken
      exact congrArg (fun c => c.toNat % 2 ^ 31) same.1
    · cases taken
  | _ =>
    left
    simp only [IrqSystem.next] at taken
    split at taken
    · cases taken
      rfl
    · cases taken

theorem Nested.depth_kept [Fintype T] {s w : IrqSystem T} {l : IrqLabel T} (ok : Nested s)
    (flat : l.isNesting = false) (taken : s.next l = some w) : Nested w ∧ handlings w.here = handlings s.here := by
  have shallow : s.Shallow l := by
    cases l with
    | enter => cases flat
    | _ => trivial
  have next := ok.next shallow taken
  refine ⟨next, ?_⟩
  rw [← next.counter, ← ok.counter]
  rcases next_counter flat taken with same | ⟨_, zero, f, rest, here, ending⟩
  · exact same
  · rw [zero, ok.counter, (ok.top here (by rw [ending]; rfl)).1]
    rfl

theorem handlings_enter {s w : IrqSystem T} (taken : s.next .enter = some w) :
    handlings w.here = handlings s.here + 1 := by
  cases taken
  show handlings (IrqSystem.here ((s.setHere _).setCounter _)) = _
  rw [here_moved, handlings_cons]
  rfl

theorem handlings_leave {s w : IrqSystem T} (taken : s.next .leave = some w) :
    handlings s.here = handlings w.here + 1 := by
  simp only [IrqSystem.next] at taken
  split at taken
  · rename_i calls rest here
    cases taken
    rw [here_moved, here, handlings_cons, handlings_cons]
    rfl
  · cases taken

omit [DecidableEq T] in
theorem mem_active {s : IrqLines T} {irq : Fin irqNr} : irq ∈ s.active ↔ ⟨irq, .acked⟩ ∈ s.nest := by
  simp only [IrqLines.active, List.mem_map, List.mem_filter, decide_eq_true_eq]
  constructor
  · rintro ⟨⟨line, stage⟩, ⟨inside, rfl⟩, rfl⟩
    exact inside
  · intro inside
    exact ⟨_, ⟨inside, rfl⟩, rfl⟩

/-- What holds in any run: a line that is being handled is cut off, and not that of a
    do_irq inside that has come to its hw_ack_irq or is before it. -/
structure LinesOff (s : IrqLines T) : Prop where
  apart : s.nest.Pairwise fun x y => x.stage ≠ .ended → y.stage = .acked → x.irq ≠ y.irq
  off : ∀ irq ∈ s.active, s.attached irq = false ∧ s.irqBits irq = false

omit [DecidableEq T] in
theorem LinesOff.distinct {s : IrqLines T} (lines : LinesOff s) : s.active.Nodup := by
  have handled : (s.nest.filter fun x => x.stage = .acked).Pairwise fun x y => x.irq ≠ y.irq := by
    rw [List.pairwise_filter]
    refine lines.apart.imp fun {x y} apart first second => ?_
    rw [decide_eq_true_eq] at first second
    exact apart (first ▸ fun same => by cases same) second
  exact List.pairwise_map.mpr handled

omit [DecidableEq T] in
theorem LinesOff.fresh {s : IrqLines T} (lines : LinesOff s) {irq : Fin irqNr} (on : s.attached irq = true) :
    irq ∉ s.active := by
  intro member
  rw [(lines.off irq member).1] at on
  cases on

theorem LinesOff.next {s w : IrqLines T} {l : LineLabel T} (lines : LinesOff s)
    (patient : ∀ irq again, l = .enable irq again → irq ∉ s.active) (taken : s.next l = some w) : LinesOff w := by
  cases l with
  | enter irq =>
    simp only [IrqLines.next] at taken
    split at taken
    · rename_i comes
      obtain ⟨sys, entered, rfl⟩ := Option.map_eq_some_iff.mp taken
      refine ⟨List.pairwise_cons.mpr ⟨fun y inside _ handled same => ?_, lines.apart⟩, fun j member => ?_⟩
      · refine lines.fresh comes.1 (mem_active.mpr ?_)
        obtain ⟨line, stage⟩ := y
        cases handled
        cases same
        exact inside
      · have inside := mem_active.mp member
        refine lines.off j (mem_active.mpr ((List.mem_cons.mp inside).resolve_left fun same => by cases same))
    · cases taken
  | ack =>
    simp only [IrqLines.next] at taken
    split at taken
    · rename_i irq nest here
      split at taken
      · cases taken
        have apart := lines.apart
        rw [here] at apart
        obtain ⟨first, below⟩ := List.pairwise_cons.mp apart
        refine ⟨List.pairwise_cons.mpr ⟨fun y inside _ => first y inside (fun same => by cases same), below⟩,
          fun j member => ?_⟩
        by_cases same : j = irq
        · subst same
          simp [IrqLines.disableL4Irq]
        · have inside : ⟨j, .acked⟩ ∈ s.nest := by
            have member := mem_active.mp member
            rw [here]
            exact List.mem_cons_of_mem _ ((List.mem_cons.mp member).resolve_left fun is => same (by cases is; rfl))
          simpa [IrqLines.disableL4Irq, same] using lines.off j (mem_active.mpr inside)
      · cases taken
    · cases taken
  | end_ again =>
    simp only [IrqLines.next] at taken
    split at taken
    · rename_i irq nest here
      split at taken
      · cases taken
        have apart := lines.apart
        rw [here] at apart
        obtain ⟨first, below⟩ := List.pairwise_cons.mp apart
        refine ⟨List.pairwise_cons.mpr ⟨fun y _ other => absurd rfl other, below⟩, fun j member => ?_⟩
        have inside := (List.mem_cons.mp (mem_active.mp member)).resolve_left fun same => by cases same
        have other : j ≠ irq := fun same => first _ inside (fun is => by cases is) rfl same.symm
        have before : j ∈ s.active := mem_active.mpr (here ▸ List.mem_cons_of_mem _ inside)
        simpa [IrqLines.enableL4Irq, other] using lines.off j before
      · cases taken
    · cases taken
  | leave =>
    simp only [IrqLines.next] at taken
    split at taken
    · rename_i irq nest here
      obtain ⟨sys, left, rfl⟩ := Option.map_eq_some_iff.mp taken
      have apart := lines.apart
      rw [here] at apart
      refine ⟨(List.pairwise_cons.mp apart).2, fun j member => lines.off j (mem_active.mpr ?_)⟩
      rw [here]
      exact List.mem_cons_of_mem _ (mem_active.mp member)
    · cases taken
  | enable irq again =>
    cases taken
    refine ⟨lines.apart, fun j member => ?_⟩
    have other : j ≠ irq := fun same => patient irq again rfl (same ▸ member)
    simpa [IrqLines.enableL4Irq, other] using lines.off j member
  | disable irq =>
    cases taken
    refine ⟨lines.apart, fun j member => ?_⟩
    by_cases same : j = irq
    · subst same
      simp [IrqLines.disableL4Irq]
    · simpa [IrqLines.disableL4Irq, same] using lines.off j member
  | other l =>
    simp only [IrqLines.next] at taken
    split at taken
    · cases taken
    · obtain ⟨sys, moved, rfl⟩ := Option.map_eq_some_iff.mp taken
      exact ⟨lines.apart, lines.off⟩

/-- What holds if interrupts come only inside handlers: each line in progress once, and
    all but the innermost of them being handled. -/
structure LinesOk (s : IrqLines T) : Prop where
  lines : LinesOff s
  nested : Nested s.sys
  counted : s.nest.length = handlings s.sys.here
  once : (s.nest.map LineUse.irq).Nodup
  valid : ∀ x ∈ s.nest, x.irq.val ≠ 0
  inner : ∀ x ∈ s.nest.tail, x.stage = .acked

omit [DecidableEq T] in
theorem LinesOk.short {s : IrqLines T} (ok : LinesOk s) : s.nest.length < irqNr := by
  have zero : (⟨0, by decide⟩ : Fin irqNr) ∉ s.nest.map LineUse.irq := by
    intro member
    obtain ⟨x, inside, same⟩ := List.mem_map.mp member
    exact ok.valid x inside (congrArg Fin.val same)
  have more := (List.nodup_cons.mpr ⟨zero, ok.once⟩).length_le_card
  rw [Fintype.card_fin, List.length_cons, List.length_map] at more
  omega

omit [DecidableEq T] in
theorem LinesOk.staged {s w : IrqLines T} (ok : LinesOk s) (lines : LinesOff w) {irq : Fin irqNr}
    {before after : LineStage} {nest : List LineUse} (here : s.nest = ⟨irq, before⟩ :: nest)
    (sys : w.sys = s.sys) (there : w.nest = ⟨irq, after⟩ :: nest) : LinesOk w := by
  have once := ok.once
  have valid := ok.valid
  have inner := ok.inner
  have counted := ok.counted
  rw [here] at once valid inner counted
  constructor
  · exact lines
  · exact sys ▸ ok.nested
  · rw [there, sys]
    exact counted
  · rw [there]
    exact once
  · rw [there]
    exact List.forall_mem_cons.mpr ⟨(List.forall_mem_cons.mp valid).1, (List.forall_mem_cons.mp valid).2⟩
  · rw [there]
    exact inner

omit [DecidableEq T] in
theorem LinesOk.handled {s : IrqLines T} (ok : LinesOk s) (first : ∀ x ∈ s.nest.head?, x.stage = .acked) :
    ∀ x ∈ s.nest, x.stage = .acked := by
  intro x inside
  have later := ok.inner
  cases shape : s.nest with
  | nil =>
    rw [shape] at inside
    cases inside
  | cons y rest =>
    rw [shape] at inside first later
    rcases List.mem_cons.mp inside with rfl | below
    · exact first x rfl
    · exact later x below

omit [DecidableEq T] in
theorem LinesOk.fresh {s : IrqLines T} (ok : LinesOk s) (handled : ∀ x ∈ s.nest, x.stage = .acked)
    {irq : Fin irqNr} (on : s.attached irq = true) : irq ∉ s.nest.map LineUse.irq := by
  intro member
  obtain ⟨⟨line, stage⟩, inside, same⟩ := List.mem_map.mp member
  have acked := handled _ inside
  cases acked
  cases same
  exact ok.lines.fresh on (mem_active.mpr inside)

theorem LinesOk.next [Fintype T] {s w : IrqLines T} {l : LineLabel T} (ok : LinesOk s) (patient : s.Patient l)
    (taken : s.next l = some w) : LinesOk w := by
  have lines := ok.lines.next (fun irq again same => by subst same; exact patient) taken
  cases l with
  | enter irq =>
    simp only [IrqLines.next] at taken
    split at taken
    · rename_i comes
      obtain ⟨sys, entered, rfl⟩ := Option.map_eq_some_iff.mp taken
      have handled := ok.handled patient
      have shallow : s.sys.Shallow .enter := by
        have short := ok.short
        rw [IrqSystem.Shallow, ok.nested.depth, ← ok.counted]
        exact Nat.lt_of_le_of_lt short (by decide)
      constructor
      · exact lines
      · exact ok.nested.next shallow entered
      · rw [handlings_enter entered, List.length_cons, ok.counted]
      · exact List.nodup_cons.mpr ⟨ok.fresh handled comes.1, ok.once⟩
      · exact List.forall_mem_cons.mpr ⟨comes.2, ok.valid⟩
      · exact handled
    · cases taken
  | ack =>
    simp only [IrqLines.next] at taken
    split at taken
    · rename_i irq nest here
      split at taken
      · cases taken
        exact ok.staged lines here rfl rfl
      · cases taken
    · cases taken
  | end_ again =>
    simp only [IrqLines.next] at taken
    split at taken
    · rename_i irq nest here
      split at taken
      · cases taken
        exact ok.staged lines here rfl rfl
      · cases taken
    · cases taken
  | leave =>
    simp only [IrqLines.next] at taken
    split at taken
    · rename_i irq nest here
      obtain ⟨sys, left, rfl⟩ := Option.map_eq_some_iff.mp taken
      have shallow : s.sys.Shallow .leave := trivial
      have shorter := handlings_leave left
      have counted := ok.counted
      have once := ok.once
      have valid := ok.valid
      have inner := ok.inner
      rw [here] at counted once valid inner
      constructor
      · exact lines
      · exact ok.nested.next shallow left
      · rw [List.length_cons] at counted
        exact Nat.succ.inj (counted.trans shorter)
      · exact (List.nodup_cons.mp once).2
      · exact (List.forall_mem_cons.mp valid).2
      · exact fun x inside => inner x (List.mem_of_mem_tail inside)
    · cases taken
  | enable irq again =>
    cases taken
    exact ⟨lines, ok.nested, ok.counted, ok.once, ok.valid, ok.inner⟩
  | disable irq =>
    cases taken
    exact ⟨lines, ok.nested, ok.counted, ok.once, ok.valid, ok.inner⟩
  | other l =>
    simp only [IrqLines.next] at taken
    split at taken
    · cases taken
    · rename_i flat
      obtain ⟨sys, moved, rfl⟩ := Option.map_eq_some_iff.mp taken
      obtain ⟨nested, kept⟩ := ok.nested.depth_kept (Bool.eq_false_iff.mpr flat) moved
      exact ⟨lines, nested, ok.counted.trans kept.symm, ok.once, ok.valid, ok.inner⟩

theorem linesOff_start (k : Kernel T) (lines : Fin irqNr → Bool) : LinesOff (.start k lines) where
  apart := List.Pairwise.nil
  off := fun irq member => by cases mem_active.mp member

theorem linesOk_start {k : Kernel T} (zero : k.irqNestingCounter = 0#32) (lines : Fin irqNr → Bool) :
    LinesOk (.start k lines) where
  lines := linesOff_start k lines
  nested := nested_start zero
  counted := by
    have here : (IrqSystem.start k).here = [] := if_pos rfl
    simp only [IrqLines.start, here]
    rfl
  once := List.nodup_nil
  valid := fun x inside => by cases inside
  inner := fun x inside => by cases inside

/-- Whatever interrupts come in, if they come outside of do_irq or inside a handler and no
    line is enabled while its own interrupt is handled: no line interrupts its own handler,
    so the depth stays below the number of lines, and with no bound assumed on it the laws
    of nesting hold. -/
theorem irq_lines_once [Fintype T] (k : Kernel T) (zero : k.irqNestingCounter = 0#32) (lines : Fin irqNr → Bool)
    (ls : List (LineLabel T)) (x : IrqLines T) (es : List Unit)
    (patient : Lts.Along IrqLines.step IrqLines.Patient (.start k lines) ls)
    (run : Lts.exec IrqLines.step (.start k lines) ls = some (x, es)) :
    (x.nest.map LineUse.irq).Nodup ∧ (∀ irq ∈ x.active, x.attached irq = false ∧ x.irqBits irq = false) ∧
      x.sys.depth = x.nest.length ∧ x.nest.length < irqNr ∧ x.sys.Lawful := by
  have keeps : ∀ (s : IrqLines T) l w first, LinesOk s → s.Patient l → s.step l = some (w, first) → LinesOk w := by
    intro s l w first ok patient taken
    obtain ⟨y, next, eq⟩ := Option.map_eq_some_iff.mp taken
    cases eq
    exact ok.next patient next
  have final : LinesOk x := Lts.exec_keeps LinesOk keeps ls (linesOk_start zero lines) patient run
  exact ⟨final.once, final.lines.off, final.nested.depth.trans final.counted.symm, final.short,
    final.nested.lawful⟩

theorem irq_lines_once_two :
    let k := (startSystem (0 : Fin 2) [(1, 5)]).kernel
    let ls : List (LineLabel (Fin 2)) := [.enter 70, .ack, .enter 78, .ack, .end_ true, .leave,
      .other .check, .other .ret, .disable 70, .end_ true]
    ∃ x es, Lts.exec IrqLines.step (.start k fun irq => irq = 70 ∨ irq = 78) ls = some (x, es) ∧
      (x.nest.map LineUse.irq).Nodup ∧ (∀ irq ∈ x.active, x.attached irq = false ∧ x.irqBits irq = false) ∧
      x.sys.depth = x.nest.length ∧ x.nest.length < irqNr ∧ x.sys.Lawful := by
  intro k ls
  have goes : (Lts.exec IrqLines.step (.start k fun irq => irq = 70 ∨ irq = 78) ls).isSome = true := by decide +kernel
  obtain ⟨⟨x, es⟩, run⟩ := Option.isSome_iff_exists.mp goes
  exact ⟨x, es, run, irq_lines_once k (by decide +kernel) _ ls x es (by decide +kernel) run⟩

/-- Lines are touched only by do_irq and, for the time of a handler, by the handler itself;
    L4 attaches them again. -/
def IrqLines.Undisturbed (s : IrqLines T) : LineLabel T → Prop
  | .enable _ _ => False
  | .disable irq => irq ∈ s.active
  | .end_ taken => taken = true
  | _ => True

instance (s : IrqLines T) : ∀ l, Decidable (s.Undisturbed l)
  | .enable _ _ => isFalse id
  | .disable irq => inferInstanceAs (Decidable (irq ∈ s.active))
  | .end_ taken => inferInstanceAs (Decidable (taken = true))
  | .enter _ | .ack | .leave | .other _ => isTrue trivial

structure LinesBack (lines : Fin irqNr → Bool) (s : IrqLines T) : Prop where
  off : LinesOff s
  known : ∀ x ∈ s.nest, lines x.irq = true
  back : ∀ irq, irq ∉ s.active → s.attached irq = lines irq ∧ s.irqBits irq = lines irq

theorem LinesBack.next {lines : Fin irqNr → Bool} {s w : IrqLines T} {l : LineLabel T}
    (inv : LinesBack lines s) (undisturbed : s.Undisturbed l) (taken : s.next l = some w) : LinesBack lines w := by
  have off := inv.off.next (fun irq again same => by subst same; exact absurd undisturbed id) taken
  cases l with
  | enter irq =>
    simp only [IrqLines.next] at taken
    split at taken
    · rename_i comes
      obtain ⟨sys, _, rfl⟩ := Option.map_eq_some_iff.mp taken
      refine ⟨off, List.forall_mem_cons.mpr ⟨?_, inv.known⟩, fun j outside => inv.back j fun member => ?_⟩
      · exact (inv.back irq (inv.off.fresh comes.1)).1.symm.trans comes.1
      · exact outside (mem_active.mpr (List.mem_cons_of_mem _ (mem_active.mp member)))
    · cases taken
  | ack =>
    simp only [IrqLines.next] at taken
    split at taken
    · rename_i irq nest here
      split at taken
      · cases taken
        have known := inv.known
        rw [here] at known
        refine ⟨off, List.forall_mem_cons.mpr (List.forall_mem_cons.mp known), fun j outside => ?_⟩
        have other : j ≠ irq := fun same => outside (mem_active.mpr (same ▸ List.mem_cons_self))
        have outside' : j ∉ s.active := by
          intro member
          have inside := mem_active.mp member
          rw [here] at inside
          refine outside (mem_active.mpr (List.mem_cons_of_mem _ ((List.mem_cons.mp inside).resolve_left ?_)))
          intro same
          cases same
        simpa [IrqLines.disableL4Irq, other] using inv.back j outside'
      · cases taken
    · cases taken
  | end_ again =>
    simp only [IrqLines.next] at taken
    split at taken
    · rename_i irq nest here
      split at taken
      · cases taken
        have known := inv.known
        rw [here] at known
        refine ⟨off, List.forall_mem_cons.mpr (List.forall_mem_cons.mp known), fun j outside => ?_⟩
        by_cases same : j = irq
        · -- whatever its handler has done to it
          subst same
          have on : lines j = true := (List.forall_mem_cons.mp known).1
          have back : again = true := undisturbed
          simp [IrqLines.enableL4Irq, on, back]
        · have outside' : j ∉ s.active := by
            intro member
            have inside := mem_active.mp member
            rw [here] at inside
            refine outside (mem_active.mpr (List.mem_cons_of_mem _ ((List.mem_cons.mp inside).resolve_left ?_)))
            intro is
            cases is
            exact same rfl
          simpa [IrqLines.enableL4Irq, same] using inv.back j outside'
      · cases taken
    · cases taken
  | leave =>
    simp only [IrqLines.next] at taken
    split at taken
    · rename_i irq nest here
      obtain ⟨sys, _, rfl⟩ := Option.map_eq_some_iff.mp taken
      have known := inv.known
      rw [here] at known
      refine ⟨off, (List.forall_mem_cons.mp known).2, fun j outside => inv.back j fun member => ?_⟩
      have inside := mem_active.mp member
      rw [here] at inside
      refine outside (mem_active.mpr ((List.mem_cons.mp inside).resolve_left ?_))
      intro same
      cases same
    · cases taken
  | enable irq again => exact absurd undisturbed id
  | disable irq =>
    cases taken
    refine ⟨off, inv.known, fun j outside => ?_⟩
    have other : j ≠ irq := fun same => outside (same ▸ undisturbed)
    simpa [IrqLines.disableL4Irq, other] using inv.back j outside
  | other l =>
    simp only [IrqLines.next] at taken
    split at taken
    · cases taken
    · obtain ⟨sys, _, rfl⟩ := Option.map_eq_some_iff.mp taken
      exact ⟨off, inv.known, inv.back⟩

theorem irq_lines_back (k : Kernel T) (lines : Fin irqNr → Bool) (ls : List (LineLabel T)) (x : IrqLines T)
    (es : List Unit) (undisturbed : Lts.Along IrqLines.step IrqLines.Undisturbed (.start k lines) ls)
    (run : Lts.exec IrqLines.step (.start k lines) ls = some (x, es)) (irq : Fin irqNr) :
    (irq ∈ x.active → lines irq = true ∧ x.attached irq = false) ∧
      (irq ∉ x.active → x.attached irq = lines irq ∧ x.irqBits irq = lines irq) := by
  have keeps : ∀ (s : IrqLines T) l w first, LinesBack lines s → s.Undisturbed l → s.step l = some (w, first) →
      LinesBack lines w := by
    intro s l w first inv undisturbed taken
    obtain ⟨y, next, eq⟩ := Option.map_eq_some_iff.mp taken
    cases eq
    exact inv.next undisturbed next
  have begin_ : LinesBack lines (IrqLines.start k lines) :=
    ⟨linesOff_start k lines, (fun x inside => by cases inside), fun _ _ => ⟨rfl, rfl⟩⟩
  have final : LinesBack lines x := Lts.exec_keeps (LinesBack lines) keeps ls begin_ undisturbed run
  exact ⟨fun member => ⟨final.known _ (mem_active.mp member), (final.off.off irq member).1⟩, final.back irq⟩

theorem irq_lines_back_two :
    let k := (startSystem (0 : Fin 2) [(1, 5)]).kernel
    let ls : List (LineLabel (Fin 2)) := [.enter 70, .ack, .disable 70, .enter 78, .ack, .end_ true, .leave,
      .other .check, .other .ret, .end_ true, .leave]
    ∃ x es, Lts.exec IrqLines.step (.start k fun irq => irq = 70 ∨ irq = 78) ls = some (x, es) ∧
      (70 ∈ x.active → true = true ∧ x.attached 70 = false) ∧
      (70 ∉ x.active → x.attached 70 = true ∧ x.irqBits 70 = true) := by
  intro k ls
  have goes : (Lts.exec IrqLines.step (.start k fun irq => irq = 70 ∨ irq = 78) ls).isSome = true := by decide +kernel
  obtain ⟨⟨x, es⟩, run⟩ := Option.isSome_iff_exists.mp goes
  exact ⟨x, es, run, irq_lines_back k _ ls x es (by decide +kernel) run 70⟩

theorem irq_line_again {irq : Fin irqNr} (valid : irq.val ≠ 0) {stage : LineStage} (late : stage ≠ .counted)
    {s : IrqLines T} (on : s.attached irq = true) :
    ∃ ls w, Lts.exec IrqLines.step s ls = some (w, []) ∧ w.attached irq = true ∧
      w.nest = ⟨irq, stage⟩ :: s.nest ∧ handlings w.sys.here = handlings s.sys.here + 1 := by
  obtain ⟨sys, entered⟩ : ∃ sys, s.sys.next .enter = some sys := ⟨_, rfl⟩
  have inside : (sys.here.head?.any fun f => f.phase.isHandling) = true := by
    cases entered
    rw [here_moved]
    rfl
  have comes : s.step (.enter irq) = some ({ s with sys := sys, nest := ⟨irq, .counted⟩ :: s.nest }, []) := by
    simp only [IrqLines.step, IrqLines.next, if_pos (And.intro on valid), entered, Option.map_some]
  have acked : IrqLines.step ({ s with sys := sys, nest := ⟨irq, .counted⟩ :: s.nest } : IrqLines T) .ack =
      some ({ ({ s with sys := sys } : IrqLines T).disableL4Irq irq with nest := ⟨irq, .acked⟩ :: s.nest }, []) := by
    simp only [IrqLines.step, IrqLines.next, IrqLines.running, inside, if_true]
    rfl
  have more := handlings_enter entered
  cases stage with
  | counted => exact absurd rfl late
  | acked =>
    refine ⟨[.enter irq, .ack, .enable irq true],
      ({ ({ s with sys := sys } : IrqLines T).disableL4Irq irq with
        nest := ⟨irq, .acked⟩ :: s.nest } : IrqLines T).enableL4Irq irq true, ?_, ?_, rfl, more⟩
    · simp only [Lts.exec, comes, acked, List.append_nil]
      rfl
    · simp [IrqLines.enableL4Irq]
  | ended =>
    refine ⟨[.enter irq, .ack, .end_ true],
      { (({ s with sys := sys } : IrqLines T).disableL4Irq irq).enableL4Irq irq true with
        nest := ⟨irq, .ended⟩ :: s.nest }, ?_, ?_, rfl, more⟩
    · have ended : IrqLines.step ({ ({ s with sys := sys } : IrqLines T).disableL4Irq irq with
          nest := ⟨irq, .acked⟩ :: s.nest } : IrqLines T) (.end_ true) =
          some ({ (({ s with sys := sys } : IrqLines T).disableL4Irq irq).enableL4Irq irq true with
            nest := ⟨irq, .ended⟩ :: s.nest }, []) := by
        simp only [IrqLines.step, IrqLines.next, IrqLines.running, IrqLines.disableL4Irq, inside, if_true]
        rfl
      simp only [Lts.exec, comes, acked, ended, List.append_nil]
    · simp [IrqLines.enableL4Irq]

/-- A handler that enables its own line, as set_hwtimer of the OMAP4 does inside the
    timer's interrupt, is interrupted by that line to any depth, and so is a do_irq between
    its hw_end_irq and its decrement. -/
theorem irq_line_nests (irq : Fin irqNr) (valid : irq.val ≠ 0) (stage : LineStage) (late : stage ≠ .counted)
    (n : Nat) (s : IrqLines T) (on : s.attached irq = true) :
    ∃ ls x, Lts.exec IrqLines.step s ls = some (x, []) ∧ x.nest = List.replicate n ⟨irq, stage⟩ ++ s.nest ∧
      handlings x.sys.here = n + handlings s.sys.here := by
  induction n generalizing s with
  | zero => exact ⟨[], s, rfl, rfl, (Nat.zero_add _).symm⟩
  | succ n ih =>
    obtain ⟨first, w, round, again, nest, deeper⟩ := irq_line_again valid late on
    obtain ⟨ls, x, run, all, deep⟩ := ih w again
    refine ⟨first ++ ls, x, ?_, ?_, ?_⟩
    · rw [Lts.exec_append, round, Option.bind_some, run]
      rfl
    · rw [all, nest, List.replicate_succ', List.append_assoc]
      rfl
    · rw [deep, deeper]
      omega

end L4ertl
