import Ece391Kernel.Boot.Controllers
import Ece391Kernel.Machine.Interrupts

/-!
# The interrupt descriptor table

`idt_init` and the entries that the drivers add. Every interrupt that the chips can deliver, after
whatever interrupts and calls of the handlers, goes through an interrupt gate to the linker of its
driver (`delivered_through_gate`); a user program reaches only the gate of the system calls.
-/

namespace Ece391Kernel

open Transition Machine

/-- The routines that gates lead to. -/
inductive Routine where
  | divide_error | reserved_error | nonmask_interrupt | breakpoint | overflow
  | bound_range_exceeded | invalid_opcode | device_unavailable | double_fault
  | coprocessor_segment_overrun | invalid_tss | segment_not_present | stack_segment_fault
  | general_protection | page_fault | fpu_floating_point_error | alignment_check | machine_check
  | simd_floating_point_exception | syscall_linker | kb_linker | rtc_linker | pit_linker
  deriving DecidableEq, Repr

/-! ## Entries -/

/-- `idt_desc_t`. -/
structure IdtDesc where
  offset_15_00 : BitVec 16
  seg_selector : BitVec 16
  reserved4 : BitVec 8
  reserved3 : Bool
  reserved2 : Bool
  reserved1 : Bool
  size : Bool
  reserved0 : Bool
  dpl : BitVec 2
  present : Bool
  offset_31_16 : BitVec 16
  deriving DecidableEq, Repr

namespace IdtDesc

/-- An entry of the table before it is set. -/
def zero : IdtDesc := ⟨0, 0, 0, false, false, false, false, false, 0, false, 0⟩

/-- `SET_IDT_ENTRY`. -/
def setIdtEntry (handler : Word) (d : IdtDesc) : IdtDesc :=
  { d with
    offset_31_16 := ((handler &&& 0xFFFF0000) >>> 16).setWidth 16
    offset_15_00 := (handler &&& 0xFFFF).setWidth 16 }

/-- The assignments that the functions share: a present gate of 32 bits to a routine of the
kernel. -/
def setGate (handler : Word) (d : IdtDesc) : IdtDesc :=
  let d := { d with size := true, seg_selector := 0x0010, reserved1 := true, reserved2 := true }
  { d.setIdtEntry handler with present := true }

/-- The gate that the processor finds in an entry, if it is an interrupt or trap gate of 32
bits. -/
def gate (d : IdtDesc) : Option Gate :=
  if d.present ∧ !d.reserved0 ∧ d.size ∧ d.reserved1 ∧ d.reserved2 then
    some ⟨d.seg_selector, d.offset_31_16 ++ d.offset_15_00, d.reserved3⟩
  else none

/-- The gate that `INT n` finds in user code. -/
def userGate (d : IdtDesc) : Option Gate := if d.dpl = 3 then d.gate else none

end IdtDesc

theorem lowHalf (w : Word) : (w &&& 0xFFFF).setWidth 16 = w.setWidth 16 := by
  have hmask : (0xFFFF : Word) = (BitVec.allOnes 16).setWidth 32 := rfl
  rw [hmask]
  apply BitVec.eq_of_getLsbD_eq
  intro i hi
  rw [BitVec.getLsbD_setWidth, BitVec.getLsbD_and, BitVec.getLsbD_setWidth,
    BitVec.getLsbD_allOnes, BitVec.getLsbD_setWidth, decide_eq_true hi,
    decide_eq_true (by omega : i < 32), Bool.true_and, Bool.true_and, Bool.true_and,
    Bool.and_true]

theorem highHalf (w : Word) :
    ((w &&& 0xFFFF0000) >>> 16).setWidth 16 = w.extractLsb' 16 16 := by
  have hmask : (0xFFFF0000 : Word) = BitVec.allOnes 16 ++ 0#16 := rfl
  rw [hmask]
  apply BitVec.eq_of_getLsbD_eq
  intro i hi
  have hindex : 16 + i - 16 = i := by omega
  rw [BitVec.getLsbD_setWidth, BitVec.getLsbD_ushiftRight, BitVec.getLsbD_and,
    BitVec.getLsbD_append, if_neg (by omega), hindex, BitVec.getLsbD_allOnes,
    BitVec.getLsbD_extractLsb', decide_eq_true hi, Bool.true_and, Bool.true_and, Bool.and_true]

/-- The two halves of an address make the address. -/
theorem halves (w : Word) :
    ((w &&& 0xFFFF0000) >>> 16).setWidth 16 ++ (w &&& 0xFFFF).setWidth 16 = w := by
  rw [lowHalf, highHalf]
  apply BitVec.eq_of_getLsbD_eq
  intro i hi
  rw [BitVec.getLsbD_append]
  split_ifs with hlow
  · rw [BitVec.getLsbD_setWidth, decide_eq_true hlow, Bool.true_and]
  · have hindex : 16 + (i - 16) = i := by omega
    rw [BitVec.getLsbD_extractLsb', decide_eq_true (by omega), Bool.true_and, hindex]

theorem gate_setGate (handler : Word) {d : IdtDesc} (h : d.reserved0 = false) :
    (d.setGate handler).gate = some ⟨0x0010, handler, d.reserved3⟩ := by
  have hoffset : (d.setGate handler).offset_31_16 ++ (d.setGate handler).offset_15_00 = handler :=
    halves handler
  have hreserved : (d.setGate handler).reserved0 = false := h
  rw [IdtDesc.gate, hoffset, hreserved, if_pos ⟨rfl, rfl, rfl, rfl, rfl⟩]
  rfl

/-! ## The table -/

/-- `intFuncArr`. -/
def intFuncArr : List Routine :=
  [.divide_error, .reserved_error, .nonmask_interrupt, .breakpoint, .overflow,
    .bound_range_exceeded, .invalid_opcode, .device_unavailable, .double_fault,
    .coprocessor_segment_overrun, .invalid_tss, .segment_not_present, .stack_segment_fault,
    .general_protection, .page_fault, .reserved_error, .fpu_floating_point_error,
    .alignment_check, .machine_check, .simd_floating_point_exception]

section

variable (addr : Routine → Word)

/-- The loop body of `idt_init`. -/
def idtInitBody (idt : Nat → IdtDesc) (i : Nat) : Nat → IdtDesc :=
  Function.update idt i ((idt i).setGate
    (if i < 20 then addr (intFuncArr.getD i .reserved_error) else addr .reserved_error))

/-- `idt_init`. -/
def idtInit (idt : Nat → IdtDesc) : Nat → IdtDesc :=
  let idt := forRange (idtInitBody addr) 0 32 idt
  Function.update idt 0x80
    ({ idt 0x80 with dpl := 3, reserved3 := true }.setGate (addr .syscall_linker))

/-- `keyboard_init`. -/
def keyboardInit (idt : Nat → IdtDesc) : Nat → IdtDesc :=
  Function.update idt 0x21 ((idt 0x21).setGate (addr .kb_linker))

/-- The entry that `rtc_init` makes. -/
def rtcInitGate (idt : Nat → IdtDesc) : Nat → IdtDesc :=
  Function.update idt 0x28 ((idt 0x28).setGate (addr .rtc_linker))

/-- The entry that `init_pit` makes. -/
def initPitGate (idt : Nat → IdtDesc) : Nat → IdtDesc :=
  Function.update idt 0x20 ((idt 0x20).setGate (addr .pit_linker))

/-- The table that `entry` leaves. -/
def bootIdt : Nat → IdtDesc :=
  initPitGate addr (rtcInitGate addr (keyboardInit addr (idtInit addr fun _ => .zero)))

end

/-- The routine of an exception. -/
def exceptionRoutine (v : Nat) : Routine :=
  if v < 20 then intFuncArr.getD v .reserved_error else .reserved_error

/-- The routine that a vector leads to. -/
def vectorRoutine (v : Nat) : Option Routine :=
  if v = 0x20 then some .pit_linker
  else if v = 0x28 then some .rtc_linker
  else if v = 0x21 then some .kb_linker
  else if v = 0x80 then some .syscall_linker
  else if v < 32 then some (exceptionRoutine v)
  else none

variable {addr : Routine → Word}

/-- What the loop of `idt_init` makes of a zeroed table. -/
theorem exceptions_spec (addr : Routine → Word) (n : Nat) : ∀ v,
    forRange (idtInitBody addr) 0 n (fun _ => .zero) v =
      if v < n then IdtDesc.zero.setGate (addr (exceptionRoutine v)) else .zero := by
  refine forRange_invariant (P := fun n (idt : Nat → IdtDesc) => ∀ v, idt v =
    if v < n then IdtDesc.zero.setGate (addr (exceptionRoutine v)) else .zero) ?_ ?_
  · intro v
    rw [if_neg (by omega)]
  · intro i idt _ hidt v
    rw [Nat.zero_add]
    by_cases hv : v = i
    · rw [hv, idtInitBody, Function.update_self, hidt i, if_neg (Nat.lt_irrefl i),
        if_pos (Nat.lt_succ_self i), exceptionRoutine, apply_ite addr]
    · rw [idtInitBody, Function.update_of_ne hv, hidt v]
      by_cases hlt : v < i
      · rw [if_pos hlt, if_pos (by omega)]
      · rw [if_neg hlt, if_neg (by omega)]

theorem idtInit_entry (addr : Routine → Word) (v : Nat) :
    idtInit addr (fun _ => .zero) v =
      if v = 0x80 then
        { IdtDesc.zero with dpl := 3, reserved3 := true }.setGate (addr .syscall_linker)
      else if v < 32 then IdtDesc.zero.setGate (addr (exceptionRoutine v))
      else .zero := by
  have hzero : forRange (idtInitBody addr) 0 32 (fun _ => .zero) 0x80 = .zero := by
    rw [exceptions_spec, if_neg (by omega)]
  rw [idtInit]
  by_cases hv : v = 0x80
  · rw [hv, Function.update_self, if_pos rfl, hzero]
  · rw [Function.update_of_ne hv, if_neg hv, exceptions_spec]

/-- An entry of the table. -/
theorem bootIdt_entry (addr : Routine → Word) (v : Nat) :
    bootIdt addr v =
      if v = 0x20 then IdtDesc.zero.setGate (addr .pit_linker)
      else if v = 0x28 then IdtDesc.zero.setGate (addr .rtc_linker)
      else if v = 0x21 then IdtDesc.zero.setGate (addr .kb_linker)
      else idtInit addr (fun _ => .zero) v := by
  have hzero (w : Nat) (hne : w ≠ 0x80) (hw : 32 ≤ w) :
      idtInit addr (fun _ => .zero) w = .zero := by
    rw [idtInit_entry, if_neg hne, if_neg (by omega)]
  simp only [bootIdt, initPitGate, rtcInitGate, keyboardInit, Function.update_apply]
  rw [if_neg (by omega : ¬ 0x20 = 0x28), if_neg (by omega : ¬ 0x20 = 0x21),
    if_neg (by omega : ¬ 0x28 = 0x21), hzero 0x20 (by omega) (by omega),
    hzero 0x28 (by omega) (by omega), hzero 0x21 (by omega) (by omega)]

theorem gate_zero_setGate (handler : Word) :
    (IdtDesc.zero.setGate handler).gate = some ⟨0x0010, handler, false⟩ :=
  gate_setGate handler rfl

/-- Every gate of the table leads to the routine of its vector. -/
theorem bootIdt_gate (addr : Routine → Word) (v : Nat) :
    (bootIdt addr v).gate =
      (vectorRoutine v).map fun r => ⟨0x0010, addr r, decide (v = 0x80)⟩ := by
  rw [bootIdt_entry, idtInit_entry, vectorRoutine]
  split_ifs with hpit hrtc hkb hcall hexception
  · rw [gate_zero_setGate, hpit]
    rfl
  · rw [gate_zero_setGate, hrtc]
    rfl
  · rw [gate_zero_setGate, hkb]
    rfl
  · rw [gate_setGate _ rfl, hcall]
    rfl
  · rw [gate_zero_setGate, decide_eq_false hcall]
    rfl
  · rfl

/-- User code finds no gate but that of the system calls. -/
theorem bootIdt_userGate (addr : Routine → Word) (v : Nat) :
    (bootIdt addr v).userGate =
      if v = 0x80 then some ⟨0x0010, addr .syscall_linker, true⟩ else none := by
  by_cases hcall : v = 0x80
  · have hdpl : (bootIdt addr v).dpl = 3 := by
      rw [bootIdt_entry, idtInit_entry, hcall]
      rfl
    rw [IdtDesc.userGate, if_pos hdpl, bootIdt_gate, if_pos hcall, hcall]
    rfl
  · have hdpl : (bootIdt addr v).dpl = 0 := by
      rw [bootIdt_entry, idtInit_entry, if_neg hcall]
      split_ifs
      · rfl
      · rfl
      · rfl
      · rfl
      · rfl
    rw [IdtDesc.userGate, hdpl, if_neg (by decide), if_neg hcall]

/-! ## Delivery -/

/-- The linker of a line. -/
def lineRoutine (irq : Nat) : Option Routine :=
  if irq = 0 then some .pit_linker
  else if irq = 1 then some .kb_linker
  else if irq = 8 then some .rtc_linker
  else none

/-- What holds of the lines while the handlers run: only the mask of the keyboard changes, and line
2 is in service together with the clock. -/
structure HandlerLines (s : I8259) : Prop where
  programmed : Programmed s
  masked : ∀ irq < 16, irq ≠ 1 → s.masked irq = !decide (irq ≤ 2 ∨ irq = 8)
  cascade : s.serving 2 = s.serving 8

variable {s t : I8259}

theorem lineRoutine_isSome (irq : Nat) :
    (lineRoutine irq).isSome ↔ irq = 0 ∨ irq = 1 ∨ irq = 8 := by
  unfold lineRoutine
  split_ifs with htimer hkeyboard hclock <;> simp_all

/-- What can be delivered then. -/
theorem HandlerLines.deliverable_iff (h : HandlerLines s) (irq : Nat) :
    s.Deliverable irq ↔ (lineRoutine irq).isSome ∧ s.masked irq = false ∧
      ∀ l ≤ irq, (lineRoutine l).isSome → s.serving l = false := by
  simp only [lineRoutine_isSome, I8259.Deliverable]
  constructor
  · rintro ⟨hirq, hne, hopen⟩
    split_ifs at hopen with hlow
    · obtain ⟨hmasked, hfree⟩ := (open_master h.programmed hlow).1 hopen
      refine ⟨?_, hmasked, fun l hl _ => hfree l hl⟩
      by_contra hother
      rw [h.masked irq hirq (by omega), decide_eq_false (by omega)] at hmasked
      exact Bool.noConfusion hmasked
    · obtain ⟨hmaster, hslave⟩ := hopen
      obtain ⟨-, hcascade⟩ := (open_master h.programmed (by omega)).1 hmaster
      obtain ⟨hmasked, hfree⟩ := (open_slave h.programmed (by omega)).1 hslave
      have hclock : irq = 8 := by
        by_contra hother
        rw [h.masked irq hirq (by omega), decide_eq_false (by omega)] at hmasked
        exact Bool.noConfusion hmasked
      refine ⟨.inr (.inr hclock), hmasked, ?_⟩
      intro l hl hline
      by_cases hhigh : 8 ≤ l
      · exact hfree l hl hhigh
      · exact hcascade l (by omega)
  · rintro ⟨hline, hmasked, hfree⟩
    refine ⟨by omega, by omega, ?_⟩
    split_ifs with hlow
    · exact (open_master h.programmed hlow).2 ⟨hmasked, fun l hl => hfree l hl (by omega)⟩
    · have hclock : irq = 8 := by omega
      have htwo : s.masked 2 = false := by
        rw [h.masked 2 (by omega) (by omega)]
        rfl
      refine ⟨(open_master h.programmed (by omega)).2 ⟨htwo, ?_⟩,
        (open_slave h.programmed (by omega)).2 ⟨hmasked, ?_⟩⟩
      · intro l hl
        by_cases hl2 : l = 2
        · rw [hl2, h.cascade]
          exact hfree 8 (by omega) (by omega)
        · exact hfree l (by omega) (by omega)
      · intro l hl _
        exact hfree l hl (by omega)

/-- The calls are those of the handlers. -/
def CalledByHandlers (_ : I8259) (e : PicEvent) : Prop := ∀ c, e = .call c → c ∈ handlerCalls

/-- An event that changes no mask but that of the keyboard, and treats line 2 and the clock
alike. -/
theorem HandlerLines.of_line (h : HandlerLines s) {e : PicEvent} (hline : LineStep s e t)
    (hmask : ∀ irq ≠ 1, ∀ m, maskedAfter irq m e = m)
    (hserving : ∀ m, servingAfter 2 m e = servingAfter 8 m e) : HandlerLines t := by
  refine ⟨hline.programmed, ?_, ?_⟩
  · intro irq hirq hne
    rw [hline.masked irq hirq, hmask irq hne, h.masked irq hirq hne]
  · rw [hline.serving 2 (by omega), hline.serving 8 (by omega), h.cascade, hserving]

theorem HandlerLines.step (h : HandlerLines s) {e : PicEvent}
    (hstep : Guarded CalledByHandlers PicStep s e t) : HandlerLines t := by
  obtain ⟨hcall, hstep⟩ := hstep
  have hline := picStep_line h.programmed hstep
  cases hstep with
  | interrupt irq hopen =>
      -- line 2 never interrupts by itself, so it goes into service with the clock only
      have hirq := (lineRoutine_isSome irq).1 ((h.deliverable_iff irq).1 hopen).1
      have hiff : Concerned 2 irq ↔ Concerned 8 irq := by
        unfold Concerned
        omega
      refine h.of_line hline (fun _ _ _ => rfl) ?_
      intro m
      show (m || decide (Concerned 2 irq)) = (m || decide (Concerned 8 irq))
      rw [decide_eq_decide.2 hiff]
  | call c =>
      have hmem := hcall c rfl
      simp only [handlerCalls, List.mem_cons, List.not_mem_nil, or_false] at hmem
      rcases hmem with rfl | rfl | rfl | rfl | rfl
      · refine h.of_line hline ?_ fun _ => rfl
        intro irq hne m
        show (m || decide (irq = 1)) = m
        rw [decide_eq_false hne, Bool.or_false]
      · exact h.of_line hline (fun _ _ _ => rfl) fun _ => rfl
      · refine h.of_line hline ?_ fun _ => rfl
        intro irq hne m
        show (m && !decide (irq = 1)) = m
        rw [decide_eq_false hne, Bool.not_false, Bool.and_true]
      · exact h.of_line hline (fun _ _ _ => rfl) fun _ => rfl
      · exact h.of_line hline (fun _ _ _ => rfl) fun _ => rfl

theorem booted_handlerLines (s : I8259) : HandlerLines s.booted := by
  refine ⟨booted_programmed s, fun irq hirq _ => booted_masked s hirq, ?_⟩
  rw [booted_serving s (by omega), booted_serving s (by omega)]

/-- The vector of a line, and what its gate leads to. -/
theorem gate_of_line (addr : Routine → Word) (h : Programmed s) {irq : Nat} {r : Routine}
    (hline : lineRoutine irq = some r) :
    (bootIdt addr (s.vectorOf irq)).gate = some ⟨0x0010, addr r, false⟩ ∧
      (bootIdt addr (s.vectorOf irq)).userGate = none := by
  have hvector : s.vectorOf irq = 0x20 + irq := by
    have hirq : irq < 16 := by
      have hsome := (lineRoutine_isSome irq).1 (Option.isSome_of_eq_some hline)
      omega
    rw [I8259.vectorOf, Pic.vectorOf, Pic.vectorOf, h.masterVector, h.slaveVector]
    show (if irq < 8 then 0x20 + irq else 0x28 + (irq - 8)) = 0x20 + irq
    split_ifs
    · rfl
    · omega
  rw [hvector, bootIdt_gate, bootIdt_userGate]
  rcases (lineRoutine_isSome irq).1 (Option.isSome_of_eq_some hline) with rfl | rfl | rfl
  · cases hline
    exact ⟨rfl, rfl⟩
  · cases hline
    exact ⟨rfl, rfl⟩
  · cases hline
    exact ⟨rfl, rfl⟩

/-- After any interrupts and calls of the handlers, in any order: the chips deliver just the
interrupts of the timer, the keyboard and the clock, each when its mask is clear and no line before
it is in service; and each finds an interrupt gate to the linker of its driver, which no user
program can call. -/
theorem delivered_through_gate (addr : Routine → Word) (s : I8259) {es : List PicEvent}
    (hrun : Run (Guarded CalledByHandlers PicStep) s.booted es t) (irq : Nat) :
    (t.Deliverable irq ↔ (lineRoutine irq).isSome ∧
        es.foldl (maskedAfter irq) false = false ∧
        ∀ l ≤ irq, (lineRoutine l).isSome → es.foldl (servingAfter l) false = false) ∧
      ∀ r, lineRoutine irq = some r →
        (bootIdt addr (t.vectorOf irq)).gate = some ⟨0x0010, addr r, false⟩ ∧
          (bootIdt addr (t.vectorOf irq)).userGate = none := by
  have hlines : HandlerLines t :=
    hrun.invariant (fun _ _ _ h hstep => h.step hstep) (booted_handlerLines s)
  obtain ⟨-, hstate⟩ := run_lines (booted_programmed s) (hrun.mono fun _ _ _ h => h.2)
  refine ⟨?_, fun r hr => gate_of_line addr hlines.programmed hr⟩
  rw [hlines.deliverable_iff]
  constructor
  · rintro ⟨hline, hmasked, hfree⟩
    have hirq := (lineRoutine_isSome irq).1 hline
    refine ⟨hline, ?_, ?_⟩
    · rw [(hstate irq (by omega)).1, booted_masked s (by omega), decide_eq_true (by omega)]
        at hmasked
      exact hmasked
    · intro l hl hsome
      have hserving := hfree l hl hsome
      rw [(hstate l (by omega)).2, booted_serving s (by omega)] at hserving
      exact hserving
  · rintro ⟨hline, hmasked, hfree⟩
    have hirq := (lineRoutine_isSome irq).1 hline
    refine ⟨hline, ?_, ?_⟩
    · rw [(hstate irq (by omega)).1, booted_masked s (by omega), decide_eq_true (by omega)]
      exact hmasked
    · intro l hl hsome
      rw [(hstate l (by omega)).2, booted_serving s (by omega)]
      exact hfree l hl hsome

/-- Addresses of the linkers, one behind the other. -/
def linkerAddr : Routine → Word
  | .pit_linker => 0x401000
  | .kb_linker => 0x401020
  | .rtc_linker => 0x401040
  | _ => 0x400000

/-- Within `keyboard_handler` the timer can interrupt, through the gate to `pit_linker`, and the
keyboard cannot. -/
theorem delivered_through_gate_keyboard : ∃ t,
    Run (Guarded CalledByHandlers PicStep) poweredOn.booted
      [.interrupt 1, .call (.disableIrq 1)] t ∧ t.Deliverable 0 ∧ ¬ t.Deliverable 1 ∧
      (bootIdt linkerAddr (t.vectorOf 0)).gate = some ⟨0x0010, 0x401000, false⟩ ∧
      (bootIdt linkerAddr (t.vectorOf 0)).userGate = none ∧
      (bootIdt linkerAddr (t.vectorOf 1)).gate = some ⟨0x0010, 0x401020, false⟩ := by
  have hopen : poweredOn.booted.Deliverable 1 :=
    (delivered_through_gate linkerAddr poweredOn (.nil _) 1).1.2 ⟨rfl, rfl, fun _ _ _ => rfl⟩
  have hinterrupt : CalledByHandlers poweredOn.booted (.interrupt 1) := by
    intro c hc
    cases hc
  have hcall : CalledByHandlers (poweredOn.booted.deliver 1) (.call (.disableIrq 1)) := by
    intro c hc
    cases hc
    exact List.mem_cons_self ..
  have hrun : Run (Guarded CalledByHandlers PicStep) poweredOn.booted
      [.interrupt 1, .call (.disableIrq 1)] _ :=
    .cons ⟨hinterrupt, .interrupt _ 1 hopen⟩ (.single ⟨hcall, .call _ _⟩)
  obtain ⟨htimer, htimergate⟩ := delivered_through_gate linkerAddr poweredOn hrun 0
  obtain ⟨hkeyboard, hkeyboardgate⟩ := delivered_through_gate linkerAddr poweredOn hrun 1
  refine ⟨_, hrun, ?_, ?_, (htimergate _ rfl).1, (htimergate _ rfl).2, (hkeyboardgate _ rfl).1⟩
  · refine htimer.2 ⟨rfl, rfl, ?_⟩
    intro l hl _
    obtain rfl := Nat.le_zero.1 hl
    rfl
  · intro hdeliverable
    have hmasked := (hkeyboard.1 hdeliverable).2.1
    exact Bool.noConfusion hmasked

end Ece391Kernel
