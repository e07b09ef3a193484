import Mathlib.Tactic.IntervalCases
import Ece391Kernel.Machine.Pic

/-!
# The interrupt lines

`i8259.c`. The functions change the masks by reading them back from the chips. Whatever the order
of calls and interrupts, a line is masked as the last call for it left it, and in service when the
last thing that happened to it was its interrupt and not its EOI (`line_state`).
-/

namespace Ece391Kernel

open Transition Machine

/-- `MASTER_8259_PORT`, `MASTER_8259_DATA`, `SLAVE_8259_PORT` and `SLAVE_8259_DATA`. -/
def master8259Port : Nat := 0x20
def master8259Data : Nat := 0x21
def slave8259Port : Nat := 0xA0
def slave8259Data : Nat := 0xA1

def icw1 : BitVec 8 := 0x11
def icw2Master : BitVec 8 := 0x20
def icw2Slave : BitVec 8 := 0x28
def icw3Master : BitVec 8 := 0x04
def icw3Slave : BitVec 8 := 0x02
def icw4 : BitVec 8 := 0x01
def eoi : BitVec 8 := 0x60

/-- The two chips and the globals of `i8259.c`. -/
structure I8259 where
  master : Pic
  slave : Pic
  masterMask : BitVec 8
  slaveMask : BitVec 8
  masterConnected : BitVec 8
  slaveConnected : BitVec 8
  deriving DecidableEq

namespace I8259

/-! ## The functions -/

/-- `outb` to a port of the chips. -/
def outb (b : BitVec 8) (port : Nat) (s : I8259) : I8259 :=
  if port = master8259Port then { s with master := s.master.writeCommand b }
  else if port = master8259Data then { s with master := s.master.writeData b }
  else if port = slave8259Port then { s with slave := s.slave.writeCommand b }
  else if port = slave8259Data then { s with slave := s.slave.writeData b }
  else s

/-- `mask_all`. -/
def maskAll (s : I8259) : I8259 := (s.outb 0xFF master8259Data).outb 0xFF slave8259Data

/-- `unmask_irq_line`. -/
def unmaskIrqLine (irqLine : Nat) (s : I8259) : I8259 :=
  let s := { s with masterMask := 0x00, slaveMask := 0x00 }
  if 7 < irqLine then
    let s := { s with slaveMask := 1#8 <<< (irqLine - 8) }
    let s := { s with slaveConnected := s.slaveConnected &&& ~~~s.slaveMask }
    s.outb s.slaveConnected slave8259Data
  else
    let s := { s with masterMask := 1#8 <<< irqLine }
    let s := { s with masterConnected := s.masterConnected &&& ~~~s.masterMask }
    s.outb s.masterConnected master8259Data

/-- `i8259_init`. -/
def init (s : I8259) : I8259 :=
  let s := { s with masterConnected := 0xFF, slaveConnected := 0xFF }
  let s := s.outb icw1 master8259Port
  let s := s.outb icw2Master master8259Data
  let s := s.outb icw3Master master8259Data
  let s := s.outb icw4 master8259Data
  let s := s.outb icw1 slave8259Port
  let s := s.outb icw2Slave slave8259Data
  let s := s.outb icw3Slave slave8259Data
  let s := s.outb icw4 slave8259Data
  s.maskAll

/-- `enable_irq`. -/
def enableIrq (irq : Nat) (s : I8259) : I8259 :=
  if 7 < irq then
    let origMask := s.slave.mask
    let s := { s with slaveMask := ~~~(1#8 <<< (irq - 8)) }
    s.outb (origMask &&& s.slaveMask) slave8259Data
  else
    let origMask := s.master.mask
    let s := { s with masterMask := ~~~(1#8 <<< irq) }
    s.outb (origMask &&& s.masterMask) master8259Data

/-- `disable_irq`. -/
def disableIrq (irq : Nat) (s : I8259) : I8259 :=
  if 7 < irq then
    let origMask := s.slave.mask
    let s := { s with slaveMask := 1#8 <<< (irq - 8) }
    s.outb (origMask ||| s.slaveMask) slave8259Data
  else
    let origMask := s.master.mask
    let s := { s with masterMask := 1#8 <<< irq }
    s.outb (origMask ||| s.masterMask) master8259Data

/-- `send_eoi`. -/
def sendEoi (irq : Nat) (s : I8259) : I8259 :=
  if 7 < irq then
    (s.outb (BitVec.ofNat 8 (irq - 8) ||| eoi) slave8259Port).outb (2 ||| eoi) master8259Port
  else s.outb (BitVec.ofNat 8 irq ||| eoi) master8259Port

/-- `i8259_init` and the calls of `enable_irq` in `entry`. -/
def booted (s : I8259) : I8259 := (((s.init.enableIrq 1).enableIrq 2).enableIrq 8).enableIrq 0

/-! ## Runs -/

/-- The mask bit of a line. -/
def masked (s : I8259) (irq : Nat) : Bool :=
  if irq < 8 then s.master.mask.getLsbD irq else s.slave.mask.getLsbD (irq - 8)

/-- The line is in service. -/
def serving (s : I8259) (irq : Nat) : Bool :=
  if irq < 8 then s.master.inService.getLsbD irq else s.slave.inService.getLsbD (irq - 8)

/-- The chips can deliver an interrupt of this line; those of the slave come through line 2 of the
master. -/
def Deliverable (s : I8259) (irq : Nat) : Prop :=
  irq < 16 ∧ irq ≠ 2 ∧
    if irq < 8 then s.master.Open irq else s.master.Open 2 ∧ s.slave.Open (irq - 8)

/-- Delivering it. -/
def deliver (irq : Nat) (s : I8259) : I8259 :=
  if irq < 8 then { s with master := s.master.deliver irq }
  else { s with master := s.master.deliver 2, slave := s.slave.deliver (irq - 8) }

/-- Its vector. -/
def vectorOf (s : I8259) (irq : Nat) : Nat :=
  if irq < 8 then s.master.vectorOf irq else s.slave.vectorOf (irq - 8)

end I8259

/-- The calls of `i8259.c`. -/
inductive PicCall where
  | enableIrq (irq : Fin 16) | disableIrq (irq : Fin 16) | sendEoi (irq : Fin 16)
  deriving DecidableEq, Repr

/-- What a call does. -/
def PicCall.run (s : I8259) : PicCall → I8259
  | .enableIrq irq => s.enableIrq irq
  | .disableIrq irq => s.disableIrq irq
  | .sendEoi irq => s.sendEoi irq

/-- The chips deliver an interrupt, or the kernel calls. -/
inductive PicEvent where
  | interrupt (irq : Nat) | call (c : PicCall)
  deriving DecidableEq, Repr

inductive PicStep : I8259 → PicEvent → I8259 → Prop where
  | interrupt (s : I8259) (irq : Nat) (h : s.Deliverable irq) :
      PicStep s (.interrupt irq) (s.deliver irq)
  | call (s : I8259) (c : PicCall) : PicStep s (.call c) (c.run s)

/-- The mask bit of a line after an event. -/
def maskedAfter (irq : Nat) (m : Bool) : PicEvent → Bool
  | .interrupt _ => m
  | .call (.enableIrq n) => m && !decide (irq = n)
  | .call (.disableIrq n) => m || decide (irq = n)
  | .call (.sendEoi _) => m

/-- The line is the one that is named, or the line of the slave that it comes through. -/
def Concerned (irq n : Nat) : Prop := irq = n ∨ irq = 2 ∧ 7 < n

instance (irq n : Nat) : Decidable (Concerned irq n) := inferInstanceAs (Decidable (_ ∨ _))

/-- Whether a line is in service after an event. -/
def servingAfter (irq : Nat) (m : Bool) : PicEvent → Bool
  | .interrupt n => m || decide (Concerned irq n)
  | .call (.enableIrq _) => m
  | .call (.disableIrq _) => m
  | .call (.sendEoi n) => m && !decide (Concerned irq n)

/-- The chips have been programmed, with the vectors of the kernel. -/
structure Programmed (s : I8259) : Prop where
  master : s.master.phase = .mask
  slave : s.slave.phase = .mask
  masterVector : s.master.vector = icw2Master
  slaveVector : s.slave.vector = icw2Slave

/-! ## One event -/

/-- The byte that takes a line out of service. -/
theorem eoi_byte : ∀ n < 8, (BitVec.ofNat 8 n ||| eoi).getLsbD 4 = false ∧
    (BitVec.ofNat 8 n ||| eoi) &&& 0xF8 = 0x60 ∧ ((BitVec.ofNat 8 n ||| eoi) &&& 7).toNat = n := by
  decide

theorem writeCommand_eoi (p : Pic) {n : Nat} (hn : n < 8) :
    p.writeCommand (BitVec.ofNat 8 n ||| eoi) =
      { p with inService := p.inService &&& ~~~(1#8 <<< n) } := by
  obtain ⟨hicw, hcommand, hline⟩ := eoi_byte n hn
  rw [Pic.writeCommand, hicw, hcommand, hline]
  rfl

theorem writeData_mask {p : Pic} (h : p.phase = .mask) (b : BitVec 8) :
    p.writeData b = { p with mask := b } := by
  rw [Pic.writeData, h]

theorem outb_masterPort (b : BitVec 8) (s : I8259) :
    s.outb b master8259Port = { s with master := s.master.writeCommand b } := rfl

theorem outb_masterData (b : BitVec 8) (s : I8259) :
    s.outb b master8259Data = { s with master := s.master.writeData b } := rfl

theorem outb_slavePort (b : BitVec 8) (s : I8259) :
    s.outb b slave8259Port = { s with slave := s.slave.writeCommand b } := rfl

theorem outb_slaveData (b : BitVec 8) (s : I8259) :
    s.outb b slave8259Data = { s with slave := s.slave.writeData b } := rfl

/-- What an event makes of the lines. -/
structure LineStep (s : I8259) (e : PicEvent) (t : I8259) : Prop where
  programmed : Programmed t
  masked : ∀ irq < 16, t.masked irq = maskedAfter irq (s.masked irq) e
  serving : ∀ irq < 16, t.serving irq = servingAfter irq (s.serving irq) e

variable {s t : I8259}

/-- Writing a mask to the master. -/
theorem lineStep_master (h : Programmed s) {e : PicEvent} (m g : BitVec 8)
    (hmask : ∀ irq < 8, m.getLsbD irq = maskedAfter irq (s.master.mask.getLsbD irq) e)
    (hother : ∀ irq, 8 ≤ irq → irq < 16 → ∀ b, maskedAfter irq b e = b)
    (hserving : ∀ irq b, servingAfter irq b e = b) :
    LineStep s e (I8259.outb m master8259Data { s with masterMask := g }) := by
  have hout : I8259.outb m master8259Data { s with masterMask := g } =
      { s with master := { s.master with mask := m }, masterMask := g } := by
    rw [outb_masterData, writeData_mask h.master]
  rw [hout]
  refine ⟨⟨h.master, h.slave, h.masterVector, h.slaveVector⟩, ?_, fun irq _ =>
    (hserving irq _).symm⟩
  intro irq hirq
  simp only [I8259.masked]
  by_cases hlow : irq < 8
  · rw [if_pos hlow, if_pos hlow, hmask irq hlow]
  · rw [if_neg hlow, if_neg hlow, hother irq (by omega) hirq]

/-- Writing a mask to the slave. -/
theorem lineStep_slave (h : Programmed s) {e : PicEvent} (m g : BitVec 8)
    (hmask : ∀ irq < 8, m.getLsbD irq = maskedAfter (irq + 8) (s.slave.mask.getLsbD irq) e)
    (hother : ∀ irq < 8, ∀ b, maskedAfter irq b e = b)
    (hserving : ∀ irq b, servingAfter irq b e = b) :
    LineStep s e (I8259.outb m slave8259Data { s with slaveMask := g }) := by
  have hout : I8259.outb m slave8259Data { s with slaveMask := g } =
      { s with slave := { s.slave with mask := m }, slaveMask := g } := by
    rw [outb_slaveData, writeData_mask h.slave]
  rw [hout]
  refine ⟨⟨h.master, h.slave, h.masterVector, h.slaveVector⟩, ?_, fun irq _ =>
    (hserving irq _).symm⟩
  intro irq hirq
  simp only [I8259.masked]
  by_cases hlow : irq < 8
  · rw [if_pos hlow, if_pos hlow, hother irq hlow]
  · have hline : irq - 8 + 8 = irq := by omega
    rw [if_neg hlow, if_neg hlow, hmask (irq - 8) (by omega), hline]

theorem enableIrq_line (h : Programmed s) (n : Fin 16) :
    LineStep s (.call (.enableIrq n)) (s.enableIrq n) := by
  rw [I8259.enableIrq]
  split_ifs with hslave
  · refine lineStep_slave h _ _ ?_ ?_ fun _ _ => rfl
    · intro irq hirq
      have hiff : irq = n - 8 ↔ irq + 8 = n := by omega
      show _ = (_ && !decide (irq + 8 = n))
      rw [getLsbD_clearLine _ (by omega) hirq, decide_eq_decide.2 hiff]
    · intro irq hirq b
      show (b && !decide (irq = n)) = b
      rw [decide_eq_false (by omega), Bool.not_false, Bool.and_true]
  · refine lineStep_master h _ _ ?_ ?_ fun _ _ => rfl
    · intro irq hirq
      exact getLsbD_clearLine _ (by omega) hirq
    · intro irq hlow hirq b
      show (b && !decide (irq = n)) = b
      rw [decide_eq_false (by omega), Bool.not_false, Bool.and_true]

theorem disableIrq_line (h : Programmed s) (n : Fin 16) :
    LineStep s (.call (.disableIrq n)) (s.disableIrq n) := by
  rw [I8259.disableIrq]
  split_ifs with hslave
  · refine lineStep_slave h _ _ ?_ ?_ fun _ _ => rfl
    · intro irq hirq
      have hiff : irq = n - 8 ↔ irq + 8 = n := by omega
      show _ = (_ || decide (irq + 8 = n))
      rw [getLsbD_setLine _ (by omega), decide_eq_decide.2 hiff]
    · intro irq hirq b
      show (b || decide (irq = n)) = b
      rw [decide_eq_false (by omega), Bool.or_false]
  · refine lineStep_master h _ _ ?_ ?_ fun _ _ => rfl
    · intro irq hirq
      exact getLsbD_setLine _ (by omega)
    · intro irq hlow hirq b
      show (b || decide (irq = n)) = b
      rw [decide_eq_false (by omega), Bool.or_false]

/-- The lines in service after the EOI for a line of the slave are without it and line 2. -/
theorem sendEoi_line (h : Programmed s) (n : Fin 16) :
    LineStep s (.call (.sendEoi n)) (s.sendEoi n) := by
  have hmasked (irq : Nat) (b : Bool) : maskedAfter irq b (.call (.sendEoi n)) = b := rfl
  rw [I8259.sendEoi]
  split_ifs with hslave
  · have hout : (s.outb (BitVec.ofNat 8 (n - 8) ||| eoi) slave8259Port).outb (2 ||| eoi)
        master8259Port =
        { s with
          slave := { s.slave with inService := s.slave.inService &&& ~~~(1#8 <<< (n.val - 8)) }
          master := { s.master with inService := s.master.inService &&& ~~~(1#8 <<< 2) } } := by
      have hcascade : s.master.writeCommand (2 ||| eoi) =
          { s.master with inService := s.master.inService &&& ~~~(1#8 <<< 2) } :=
        writeCommand_eoi s.master (by omega : 2 < 8)
      rw [outb_slavePort, outb_masterPort, writeCommand_eoi _ (by omega), hcascade]
    rw [hout]
    refine ⟨⟨h.master, h.slave, h.masterVector, h.slaveVector⟩, fun irq _ => rfl, ?_⟩
    intro irq hirq
    show _ = (_ && !decide (Concerned irq n))
    simp only [I8259.serving]
    by_cases hlow : irq < 8
    · have hiff : irq = 2 ↔ Concerned irq n := by
        unfold Concerned
        omega
      rw [if_pos hlow, if_pos hlow, getLsbD_clearLine _ (by omega) hlow, decide_eq_decide.2 hiff]
    · have hiff : irq - 8 = n - 8 ↔ Concerned irq n := by
        unfold Concerned
        omega
      rw [if_neg hlow, if_neg hlow, getLsbD_clearLine _ (by omega) (by omega),
        decide_eq_decide.2 hiff]
  · have hout : s.outb (BitVec.ofNat 8 n ||| eoi) master8259Port =
        { s with
          master := { s.master with inService := s.master.inService &&& ~~~(1#8 <<< n.val) } } := by
      rw [outb_masterPort, writeCommand_eoi _ (by omega)]
    rw [hout]
    refine ⟨⟨h.master, h.slave, h.masterVector, h.slaveVector⟩, fun irq _ => rfl, ?_⟩
    intro irq hirq
    show _ = (_ && !decide (Concerned irq n))
    have hiff : Concerned irq n ↔ irq = n := by
      unfold Concerned
      omega
    simp only [I8259.serving, decide_eq_decide.2 hiff]
    by_cases hlow : irq < 8
    · rw [if_pos hlow, if_pos hlow, getLsbD_clearLine _ (by omega) hlow]
    · rw [if_neg hlow, if_neg hlow, decide_eq_false (by omega), Bool.not_false, Bool.and_true]

theorem deliver_line (h : Programmed s) {n : Nat} (hn : n < 16) :
    LineStep s (.interrupt n) (s.deliver n) := by
  rw [I8259.deliver]
  split_ifs with hmaster
  · refine ⟨⟨h.master, h.slave, h.masterVector, h.slaveVector⟩, fun irq _ => rfl, ?_⟩
    intro irq hirq
    show _ = (_ || decide (Concerned irq n))
    have hiff : Concerned irq n ↔ irq = n := by
      unfold Concerned
      omega
    simp only [I8259.serving, decide_eq_decide.2 hiff]
    by_cases hlow : irq < 8
    · rw [if_pos hlow, if_pos hlow]
      exact getLsbD_setLine _ hmaster
    · rw [if_neg hlow, if_neg hlow, decide_eq_false (by omega), Bool.or_false]
  · refine ⟨⟨h.master, h.slave, h.masterVector, h.slaveVector⟩, fun irq _ => rfl, ?_⟩
    intro irq hirq
    show _ = (_ || decide (Concerned irq n))
    simp only [I8259.serving]
    by_cases hlow : irq < 8
    · have hiff : irq = 2 ↔ Concerned irq n := by
        unfold Concerned
        omega
      rw [if_pos hlow, if_pos hlow, ← decide_eq_decide.2 hiff]
      exact getLsbD_setLine _ (by omega)
    · have hiff : irq - 8 = n - 8 ↔ Concerned irq n := by
        unfold Concerned
        omega
      rw [if_neg hlow, if_neg hlow, ← decide_eq_decide.2 hiff]
      exact getLsbD_setLine _ (by omega)

theorem picStep_line {e : PicEvent} (h : Programmed s) (hstep : PicStep s e t) :
    LineStep s e t := by
  cases hstep with
  | interrupt irq hopen => exact deliver_line h hopen.1
  | call c =>
      cases c with
      | enableIrq n => exact enableIrq_line h n
      | disableIrq n => exact disableIrq_line h n
      | sendEoi n => exact sendEoi_line h n

/-! ## What can be delivered -/

theorem open_master (h : Programmed s) {irq : Nat} (hlow : irq < 8) :
    s.master.Open irq ↔ s.masked irq = false ∧ ∀ l ≤ irq, s.serving l = false := by
  have hserving : ∀ l ≤ irq, s.serving l = s.master.inService.getLsbD l := by
    intro l hl
    rw [I8259.serving, if_pos (by omega)]
  rw [Pic.Open, I8259.masked, if_pos hlow]
  constructor
  · rintro ⟨-, hmask, hfree⟩
    exact ⟨hmask, fun l hl => (hserving l hl).trans (hfree l hl)⟩
  · rintro ⟨hmask, hfree⟩
    exact ⟨h.master, hmask, fun l hl => (hserving l hl).symm.trans (hfree l hl)⟩

theorem open_slave (h : Programmed s) {irq : Nat} (hhigh : 8 ≤ irq) :
    s.slave.Open (irq - 8) ↔
      s.masked irq = false ∧ ∀ l ≤ irq, 8 ≤ l → s.serving l = false := by
  have hserving : ∀ l, 8 ≤ l → s.serving l = s.slave.inService.getLsbD (l - 8) := by
    intro l hl
    rw [I8259.serving, if_neg (by omega)]
  rw [Pic.Open, I8259.masked, if_neg (by omega)]
  constructor
  · rintro ⟨-, hmask, hfree⟩
    exact ⟨hmask, fun l hl hl' => (hserving l hl').trans (hfree (l - 8) (by omega))⟩
  · rintro ⟨hmask, hfree⟩
    refine ⟨h.slave, hmask, ?_⟩
    intro l hl
    have hline := hfree (l + 8) (by omega) (by omega)
    rw [hserving _ (by omega), Nat.add_sub_cancel] at hline
    exact hline

/-! ## Every order of events -/

theorem run_lines {es : List PicEvent} (hs : Programmed s) (hrun : Run PicStep s es t) :
    Programmed t ∧ ∀ irq < 16,
      t.masked irq = es.foldl (maskedAfter irq) (s.masked irq) ∧
      t.serving irq = es.foldl (servingAfter irq) (s.serving irq) := by
  induction hrun with
  | nil s => exact ⟨hs, fun _ _ => ⟨rfl, rfl⟩⟩
  | cons hstep _ ih =>
      have hline := picStep_line hs hstep
      obtain ⟨hprogrammed, hlines⟩ := ih hline.programmed
      refine ⟨hprogrammed, ?_⟩
      intro irq hirq
      obtain ⟨hmasked, hserving⟩ := hlines irq hirq
      rw [hmasked, hserving, hline.masked irq hirq, hline.serving irq hirq]
      exact ⟨rfl, rfl⟩

/-- `i8259_init` programs both chips, with all lines masked. -/
theorem init_chips (s : I8259) :
    s.init.master = ⟨.mask, true, icw2Master, 0xFF, 0⟩ ∧
      s.init.slave = ⟨.mask, true, icw2Slave, 0xFF, 0⟩ := by
  have hmaster : s.init.master = ((((s.master.writeCommand icw1).writeData icw2Master).writeData
      icw3Master).writeData icw4).writeData 0xFF := rfl
  have hslave : s.init.slave = ((((s.slave.writeCommand icw1).writeData icw2Slave).writeData
      icw3Slave).writeData icw4).writeData 0xFF := rfl
  rw [hmaster, hslave, Pic.program _ rfl rfl, Pic.program _ rfl rfl]
  exact ⟨rfl, rfl⟩

theorem init_programmed (s : I8259) : Programmed s.init := by
  obtain ⟨hmaster, hslave⟩ := init_chips s
  refine ⟨?_, ?_, ?_, ?_⟩
  · rw [hmaster]
  · rw [hslave]
  · rw [hmaster]
  · rw [hslave]

theorem getLsbD_ones {l : Nat} (hl : l < 8) : (0xFF : BitVec 8).getLsbD l = true := by
  have hall : (0xFF : BitVec 8) = BitVec.allOnes 8 := rfl
  rw [hall, BitVec.getLsbD_allOnes, decide_eq_true hl]

theorem init_masked (s : I8259) : ∀ irq < 16, s.init.masked irq = true := by
  intro irq hirq
  obtain ⟨hmaster, hslave⟩ := init_chips s
  rw [I8259.masked, hmaster, hslave]
  split_ifs with hlow
  · exact getLsbD_ones hlow
  · exact getLsbD_ones (by omega)

theorem init_serving (s : I8259) : ∀ irq < 16, s.init.serving irq = false := by
  intro irq hirq
  obtain ⟨hmaster, hslave⟩ := init_chips s
  rw [I8259.serving, hmaster, hslave]
  split_ifs
  · exact BitVec.getLsbD_zero
  · exact BitVec.getLsbD_zero

/-- The calls of `enable_irq` in `entry`. -/
def entryCalls : List PicEvent :=
  [.call (.enableIrq 1), .call (.enableIrq 2), .call (.enableIrq 8), .call (.enableIrq 0)]

/-- The calls of `keyboard_handler`, `rtc_handler`, `pit_handler` and `run_shell`. -/
def handlerCalls : List PicCall :=
  [.disableIrq 1, .sendEoi 1, .enableIrq 1, .sendEoi 8, .sendEoi 0]

theorem booted_run (s : I8259) : Run PicStep s.init entryCalls s.booted :=
  .cons (.call _ (.enableIrq 1)) (.cons (.call _ (.enableIrq 2))
    (.cons (.call _ (.enableIrq 8)) (.single (.call _ (.enableIrq 0)))))

theorem booted_programmed (s : I8259) : Programmed s.booted :=
  (run_lines (init_programmed s) (booted_run s)).1

/-- All lines but those of the timer, the keyboard, the slave and the clock are masked. -/
theorem booted_masked (s : I8259) {irq : Nat} (hirq : irq < 16) :
    s.booted.masked irq = !decide (irq ≤ 2 ∨ irq = 8) := by
  rw [((run_lines (init_programmed s) (booted_run s)).2 irq hirq).1, init_masked s irq hirq]
  interval_cases irq <;> rfl

theorem booted_serving (s : I8259) {irq : Nat} (hirq : irq < 16) :
    s.booted.serving irq = false := by
  rw [((run_lines (init_programmed s) (booted_run s)).2 irq hirq).2, init_serving s irq hirq]
  rfl

/-- `unmask_irq_line` does not know what `enable_irq` has unmasked: it masks all other lines of the
chip. -/
theorem unmaskIrqLine_booted (s : I8259) {irqLine irq : Nat} (hline : irqLine < 8)
    (hirq : irq < 8) : (s.booted.unmaskIrqLine irqLine).masked irq = !decide (irq = irqLine) := by
  have hout : (s.booted.unmaskIrqLine irqLine).master =
      s.booted.master.writeData (0xFF &&& ~~~(1#8 <<< irqLine)) := by
    rw [I8259.unmaskIrqLine, if_neg (by omega)]
    rfl
  rw [I8259.masked, if_pos hirq, hout, writeData_mask (booted_programmed s).master,
    getLsbD_clearLine _ hline hirq, getLsbD_ones hirq, Bool.true_and]

/-- From `entry` on, whatever the chips held before: after any interrupts and calls, in any order,
a line is masked as the last `enable_irq` or `disable_irq` for it says, and in service when its
last interrupt came after its last EOI. -/
theorem line_state (s : I8259) {es : List PicEvent} (hrun : Run PicStep s.booted es t) :
    Programmed t ∧ ∀ irq < 16,
      t.masked irq = es.foldl (maskedAfter irq) (!decide (irq ≤ 2 ∨ irq = 8)) ∧
      t.serving irq = es.foldl (servingAfter irq) false := by
  obtain ⟨hprogrammed, hlines⟩ := run_lines (booted_programmed s) hrun
  refine ⟨hprogrammed, ?_⟩
  intro irq hirq
  obtain ⟨hmasked, hserving⟩ := hlines irq hirq
  rw [hmasked, hserving, booted_masked s hirq, booted_serving s hirq]
  exact ⟨rfl, rfl⟩

/-- The chips before they are programmed. -/
def poweredOn : I8259 := ⟨⟨.mask, false, 0, 0, 0⟩, ⟨.mask, false, 0, 0, 0⟩, 0, 0, 0, 0⟩

/-- An interrupt of the keyboard, and the first call of its handler. -/
theorem line_state_keyboard : ∃ t,
    Run PicStep poweredOn.booted [.interrupt 1, .call (.disableIrq 1)] t ∧
      t.masked 1 = true ∧ t.masked 0 = false ∧ t.serving 1 = true := by
  have hopen : poweredOn.booted.Deliverable 1 := by
    refine ⟨by omega, by omega, (open_master (booted_programmed _) (by omega)).2 ⟨?_, ?_⟩⟩
    · exact booted_masked poweredOn (by omega)
    · intro l hl
      exact booted_serving poweredOn (by omega)
  have hrun : Run PicStep poweredOn.booted [.interrupt 1, .call (.disableIrq 1)] _ :=
    .cons (.interrupt _ 1 hopen) (.single (.call _ (.disableIrq 1)))
  obtain ⟨-, hlines⟩ := line_state poweredOn hrun
  refine ⟨_, hrun, ?_, ?_, ?_⟩
  · rw [(hlines 1 (by omega)).1]
    rfl
  · rw [(hlines 0 (by omega)).1]
    rfl
  · rw [(hlines 1 (by omega)).2]
    rfl

end Ece391Kernel
