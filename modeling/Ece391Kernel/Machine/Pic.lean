import Ece391Kernel.Transition.Run

/-!
# The interrupt controllers

Two chips of eight lines each; the second one interrupts through a line of the first. A chip is
programmed with a sequence of control words and then holds a mask. It delivers the interrupt of a
line that is not masked while no line of the same or a higher priority is in service, and an
end-of-interrupt command takes a line out of service.
-/

namespace Ece391Kernel.Machine

/-- What the next byte at the data port is. -/
inductive PicPhase where
  | icw2 | icw3 | icw4 | mask
  deriving DecidableEq, Repr

/-- One chip. Of its commands it knows the first control word, which begins the sequence, and the
end of interrupt for a line. -/
structure Pic where
  phase : PicPhase
  wantsIcw4 : Bool
  vector : BitVec 8
  mask : BitVec 8
  inService : BitVec 8
  deriving DecidableEq, Repr

namespace Pic

/-- A byte at the command port. -/
def writeCommand (b : BitVec 8) (p : Pic) : Pic :=
  if b.getLsbD 4 then
    { p with phase := .icw2, wantsIcw4 := b.getLsbD 0, mask := 0, inService := 0 }
  else if b &&& 0xF8 = 0x60 then
    { p with inService := p.inService &&& ~~~(1#8 <<< (b &&& 7).toNat) }
  else p

/-- A byte at the data port, for a chip that works with another one. -/
def writeData (b : BitVec 8) (p : Pic) : Pic :=
  match p.phase with
  | .icw2 => { p with phase := .icw3, vector := b &&& 0xF8 }
  | .icw3 => { p with phase := if p.wantsIcw4 then .icw4 else .mask }
  | .icw4 => { p with phase := .mask }
  | .mask => { p with mask := b }

/-- The chip can deliver an interrupt of this line. -/
def Open (p : Pic) (line : Nat) : Prop :=
  p.phase = .mask ∧ p.mask.getLsbD line = false ∧ ∀ l ≤ line, p.inService.getLsbD l = false

/-- The line goes into service. -/
def deliver (line : Nat) (p : Pic) : Pic := { p with inService := p.inService ||| 1#8 <<< line }

/-- The vector of a line. -/
def vectorOf (p : Pic) (line : Nat) : Nat := p.vector.toNat + line

end Pic

/-- The four control words and a mask program a chip, whatever state it was in. -/
theorem Pic.program (p : Pic) {icw1 : BitVec 8} (hicw1 : icw1.getLsbD 4 = true)
    (hicw4 : icw1.getLsbD 0 = true) (icw2 icw3 icw4 m : BitVec 8) :
    ((((p.writeCommand icw1).writeData icw2).writeData icw3).writeData icw4).writeData m =
      ⟨.mask, true, icw2 &&& 0xF8, m, 0⟩ := by
  rw [Pic.writeCommand, if_pos hicw1, hicw4]
  rfl

/-! ## Bits of a mask -/

theorem getLsbD_line {n l : Nat} (hn : n < 8) :
    (1#8 <<< n).getLsbD l = decide (l = n) := by
  rw [BitVec.getLsbD_shiftLeft, BitVec.getLsbD_one]
  by_cases heq : l = n
  · simp [heq, hn]
  · simp [heq]
    omega

theorem getLsbD_clearLine (m : BitVec 8) {n l : Nat} (hn : n < 8) (hl : l < 8) :
    (m &&& ~~~(1#8 <<< n)).getLsbD l = (m.getLsbD l && !decide (l = n)) := by
  rw [BitVec.getLsbD_and, BitVec.getLsbD_not, getLsbD_line hn, decide_eq_true hl,
    Bool.true_and]

theorem getLsbD_setLine (m : BitVec 8) {n l : Nat} (hn : n < 8) :
    (m ||| 1#8 <<< n).getLsbD l = (m.getLsbD l || decide (l = n)) := by
  rw [BitVec.getLsbD_or, getLsbD_line hn]

end Ece391Kernel.Machine
