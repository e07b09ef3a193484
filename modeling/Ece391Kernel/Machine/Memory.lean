import Mathlib

/-!
# Block operations on a flat memory

A memory of `2 ^ w` cells is a function of the address, and addresses wrap around. `write` is the
general block write: the `n` cells from `a` take the values that `f` gives to their offsets. Filling
a block and copying one are instances of it, and a loop that writes cell after cell, upwards or
downwards, is `write_write` or `write_below`.
-/

namespace Ece391Kernel.Machine

/-- A memory of `2 ^ w` cells. -/
abbrev Mem (w : Nat) (β : Type) := BitVec w → β

namespace Mem

variable {w : Nat} {β : Type}

/-- The memory in which the `n` cells from `a` hold what `f` gives to their offsets. -/
def write (m : Mem w β) (a : BitVec w) (n : Nat) (f : Nat → β) : Mem w β :=
  fun x => if (x - a).toNat < n then f (x - a).toNat else m x

/-- The memory in which the `n` cells from `a` hold `c`. -/
def fill (m : Mem w β) (a : BitVec w) (n : Nat) (c : β) : Mem w β :=
  m.write a n fun _ => c

/-- The memory in which the `n` cells from `d` hold what the `n` cells from `s` held. -/
def copy (m : Mem w β) (d s : BitVec w) (n : Nat) : Mem w β :=
  m.write d n fun i => m (s + BitVec.ofNat w i)

/-! ## Offsets -/

/-- The offset of a cell from a base moved up by `n`, put back. -/
theorem offset_add (x a : BitVec w) (n : Nat) :
    (n + (x - (a + BitVec.ofNat w n)).toNat) % 2 ^ w = (x - a).toNat := by
  have h : x - a = BitVec.ofNat w n + (x - (a + BitVec.ofNat w n)) := by grind
  rw [h, BitVec.toNat_add, BitVec.toNat_ofNat, Nat.mod_add_mod]

/-- Past the first `n` cells the offset from the moved base is the rest. -/
theorem offset_add_of_le {x a : BitVec w} {n : Nat} (hn : n ≤ (x - a).toNat) :
    (x - (a + BitVec.ofNat w n)).toNat = (x - a).toNat - n := by
  have hadd := offset_add x a n
  have hlt := (x - a).isLt
  have hr := (x - (a + BitVec.ofNat w n)).isLt
  rcases Nat.lt_or_ge (n + (x - (a + BitVec.ofNat w n)).toNat) (2 ^ w) with hsmall | hbig
  · rw [Nat.mod_eq_of_lt hsmall] at hadd
    omega
  · rw [Nat.mod_eq_sub_mod hbig, Nat.mod_eq_of_lt (by omega)] at hadd
    omega

/-- The cell at an offset below the size of the memory has that offset. -/
theorem offset_ofNat (a : BitVec w) {i : Nat} (hi : i < 2 ^ w) :
    (a + BitVec.ofNat w i - a).toNat = i := by
  rw [BitVec.add_comm, BitVec.add_sub_cancel, BitVec.toNat_ofNat, Nat.mod_eq_of_lt hi]

/-! ## Reading what was written -/

theorem write_inside {m : Mem w β} {a x : BitVec w} {n : Nat} {f : Nat → β}
    (hx : (x - a).toNat < n) : m.write a n f x = f (x - a).toNat :=
  if_pos hx

theorem write_outside {m : Mem w β} {a x : BitVec w} {n : Nat} {f : Nat → β}
    (hx : n ≤ (x - a).toNat) : m.write a n f x = m x :=
  if_neg (by omega)

/-- The cell `i` of a written block. -/
theorem write_at {m : Mem w β} {a : BitVec w} {n i : Nat} {f : Nat → β} (hi : i < n)
    (hsize : i < 2 ^ w) : m.write a n f (a + BitVec.ofNat w i) = f i := by
  have hoff := offset_ofNat a hsize
  rw [write_inside (by omega), hoff]

@[simp] theorem write_zero (m : Mem w β) (a : BitVec w) (f : Nat → β) : m.write a 0 f = m :=
  funext fun _ => write_outside (Nat.zero_le _)

/-- Only the values in the block matter. -/
theorem write_congr {m : Mem w β} {a : BitVec w} {n : Nat} {f g : Nat → β}
    (h : ∀ i < n, i < 2 ^ w → f i = g i) : m.write a n f = m.write a n g := by
  funext x
  rcases Nat.lt_or_ge (x - a).toNat n with hx | hx
  · rw [write_inside hx, write_inside hx, h _ hx (x - a).isLt]
  · rw [write_outside hx, write_outside hx]

/-! ## Adjacent blocks -/

/-- A block and the one above it are one block, also round the end of the memory when the values
repeat there. -/
theorem write_write {m : Mem w β} {a : BitVec w} {n k : Nat} {f : Nat → β}
    (hf : ∀ i < k, f ((n + i) % 2 ^ w) = f (n + i)) :
    (m.write a n f).write (a + BitVec.ofNat w n) k (fun i => f (n + i)) = m.write a (n + k) f := by
  funext x
  have hadd := offset_add x a n
  rcases Nat.lt_or_ge (x - (a + BitVec.ofNat w n)).toNat k with hk | hk
  · have hle : (x - a).toNat ≤ n + (x - (a + BitVec.ofNat w n)).toNat :=
      hadd ▸ Nat.mod_le _ _
    rw [write_inside hk, write_inside (a := a) (by omega), ← hf _ hk, hadd]
  · rw [write_outside hk]
    rcases Nat.lt_or_ge (x - a).toNat n with hn | hn
    · rw [write_inside hn, write_inside (by omega)]
    · have hrest := offset_add_of_le hn
      rw [write_outside hn, write_outside (by omega)]

/-- A block and the one above it, within the memory. -/
theorem write_write_of_le {m : Mem w β} {a : BitVec w} {n k : Nat} {f : Nat → β}
    (h : n + k ≤ 2 ^ w) :
    (m.write a n f).write (a + BitVec.ofNat w n) k (fun i => f (n + i)) = m.write a (n + k) f :=
  write_write fun i hi => by rw [Nat.mod_eq_of_lt (by omega)]

/-- A filled block and the one above it are one filled block. -/
theorem fill_fill (m : Mem w β) (a : BitVec w) (n k : Nat) (c : β) :
    (m.fill a n c).fill (a + BitVec.ofNat w n) k c = m.fill a (n + k) c :=
  write_write fun _ _ => rfl

/-- A block and the one below it are one block. -/
theorem write_below {m : Mem w β} {a : BitVec w} {n k : Nat} {f : Nat → β} :
    (m.write (a + BitVec.ofNat w n) k (fun i => f (n + i))).write a n f = m.write a (n + k) f := by
  funext x
  rcases Nat.lt_or_ge (x - a).toNat n with hn | hn
  · rw [write_inside hn, write_inside (by omega)]
  · have hrest := offset_add_of_le hn
    rw [write_outside hn]
    rcases Nat.lt_or_ge (x - a).toNat (n + k) with hk | hk
    · rw [write_inside (by omega), write_inside hk, hrest]
      congr 1
      omega
    · rw [write_outside (by omega), write_outside hk]

/-! ## Copying between blocks that may overlap -/

/-- Copying upwards from `s` to `d` reads no cell after writing it. -/
def CopiesUp (d s : BitVec w) (n : Nat) : Prop :=
  (d - s).toNat = 0 ∨ n ≤ (d - s).toNat

/-- Copying downwards from `s` to `d` reads no cell after writing it. -/
def CopiesDown (d s : BitVec w) (n : Nat) : Prop :=
  (s - d).toNat = 0 ∨ n ≤ (s - d).toNat

instance (d s : BitVec w) (n : Nat) : Decidable (CopiesUp d s n) :=
  inferInstanceAs (Decidable (_ ∨ _))

instance (d s : BitVec w) (n : Nat) : Decidable (CopiesDown d s n) :=
  inferInstanceAs (Decidable (_ ∨ _))

theorem CopiesUp.mono {d s : BitVec w} {n k : Nat} (h : CopiesUp d s n) (hk : k ≤ n) :
    CopiesUp d s k :=
  h.imp_right (Nat.le_trans hk)

theorem CopiesDown.mono {d s : BitVec w} {n k : Nat} (h : CopiesDown d s n) (hk : k ≤ n) :
    CopiesDown d s k :=
  h.imp_right (Nat.le_trans hk)

/-- Only the distance of the blocks matters. -/
theorem CopiesUp.of_sub {d s d' s' : BitVec w} {n : Nat} (h : CopiesUp d s n)
    (hsub : d' - s' = d - s) : CopiesUp d' s' n := by
  rwa [CopiesUp, hsub]

theorem CopiesDown.of_sub {d s d' s' : BitVec w} {n : Nat} (h : CopiesDown d s n)
    (hsub : s' - d' = s - d) : CopiesDown d' s' n := by
  rwa [CopiesDown, hsub]

/-- A bit vector is known from a number below the modulus. -/
theorem toNat_of_add {x y z : BitVec w} {t : Nat} (h : x + y = z)
    (hz : (t + y.toNat) % 2 ^ w = z.toNat) (ht : t < 2 ^ w) : x.toNat = t := by
  have hx : x = BitVec.ofNat w t := by
    have hsum : BitVec.ofNat w t + y = z := by
      apply BitVec.eq_of_toNat_eq
      rw [BitVec.toNat_add, BitVec.toNat_ofNat, Nat.mod_add_mod, hz]
    have hcancel : x + y - y = BitVec.ofNat w t + y - y := by rw [h, hsum]
    rwa [BitVec.add_sub_cancel, BitVec.add_sub_cancel] at hcancel
  rw [hx, BitVec.toNat_ofNat, Nat.mod_eq_of_lt ht]

/-- Going up, the cell to be read next is not among those written so far. -/
theorem CopiesUp.ahead {d s : BitVec w} {n i : Nat} (h : CopiesUp d s n) (hi : i < n)
    (hn : n ≤ 2 ^ w) : i ≤ (s + BitVec.ofNat w i - d).toNat := by
  have hd := (d - s).isLt
  have hsum : s + BitVec.ofNat w i - d + (d - s) = BitVec.ofNat w i := by grind
  have hival : (BitVec.ofNat w i).toNat = i := by
    rw [BitVec.toNat_ofNat, Nat.mod_eq_of_lt (by omega)]
  rcases h with h | h
  · have hsame : (i + (d - s).toNat) % 2 ^ w = (BitVec.ofNat w i).toNat := by
      rw [h, hival, Nat.add_zero, Nat.mod_eq_of_lt (by omega)]
    exact Nat.le_of_eq (toNat_of_add hsum hsame (by omega)).symm
  · have hwrap :
        (2 ^ w + i - (d - s).toNat + (d - s).toNat) % 2 ^ w = (BitVec.ofNat w i).toNat := by
      rw [Nat.sub_add_cancel (by omega), Nat.add_mod_left, BitVec.toNat_ofNat]
    rw [toNat_of_add hsum hwrap (by omega)]
    omega

/-- Going down, the cell to be read next is not among those written so far. -/
theorem CopiesDown.ahead {d s : BitVec w} {n i j k : Nat} (h : CopiesDown d s n) (hj : j < k)
    (hn : k + i ≤ n) (hsize : n ≤ 2 ^ w) :
    i ≤ (s + BitVec.ofNat w j - (d + BitVec.ofNat w k)).toNat := by
  have hc := (s - d).isLt
  have hsum : s + BitVec.ofNat w j - (d + BitVec.ofNat w k) + BitVec.ofNat w k =
      s - d + BitVec.ofNat w j := by grind
  have hjval : (s - d + BitVec.ofNat w j).toNat = ((s - d).toNat + j) % 2 ^ w := by
    rw [BitVec.toNat_add, BitVec.toNat_ofNat, Nat.add_mod_mod]
  rcases h with h | h
  · have hwrap : (2 ^ w + j - k + (BitVec.ofNat w k).toNat) % 2 ^ w =
        (s - d + BitVec.ofNat w j).toNat := by
      rw [hjval, h, BitVec.toNat_ofNat, Nat.add_mod_mod, Nat.sub_add_cancel (by omega),
        Nat.add_mod_left, Nat.zero_add]
    rw [toNat_of_add hsum hwrap (by omega)]
    omega
  · have hback : ((s - d).toNat + j - k + (BitVec.ofNat w k).toNat) % 2 ^ w =
        (s - d + BitVec.ofNat w j).toNat := by
      rw [hjval, BitVec.toNat_ofNat, Nat.add_mod_mod, Nat.sub_add_cancel (by omega)]
    rw [toNat_of_add hsum hback (by omega)]
    omega

/-- Copying upwards: a copied block and the copy of the next cells are one copied block. -/
theorem copy_copy {m : Mem w β} {d s : BitVec w} {n i k : Nat} (h : CopiesUp d s n)
    (hik : i + k ≤ n) (hn : n ≤ 2 ^ w) :
    (m.copy d s i).copy (d + BitVec.ofNat w i) (s + BitVec.ofNat w i) k = m.copy d s (i + k) := by
  have hread : ∀ j < k, j < 2 ^ w → m.copy d s i (s + BitVec.ofNat w i + BitVec.ofNat w j) =
      m (s + BitVec.ofNat w (i + j)) := by
    intro j hj _
    have hahead := h.ahead (i := i + j) (by omega) hn
    rw [BitVec.add_assoc, ← BitVec.ofNat_add]
    exact write_outside (by omega)
  calc (m.copy d s i).copy (d + BitVec.ofNat w i) (s + BitVec.ofNat w i) k
      = (m.copy d s i).write (d + BitVec.ofNat w i) k
          fun j => m (s + BitVec.ofNat w (i + j)) := write_congr hread
    _ = m.copy d s (i + k) := write_write_of_le (by omega)

/-- Copying downwards: a copied block and the copy of the cells below it are one copied block. -/
theorem copy_below {m : Mem w β} {d s : BitVec w} {n i k : Nat} (h : CopiesDown d s n)
    (hik : k + i ≤ n) (hn : n ≤ 2 ^ w) :
    (m.copy (d + BitVec.ofNat w k) (s + BitVec.ofNat w k) i).copy d s k = m.copy d s (k + i) := by
  have hread : ∀ j < k, j < 2 ^ w →
      m.copy (d + BitVec.ofNat w k) (s + BitVec.ofNat w k) i (s + BitVec.ofNat w j) =
        m (s + BitVec.ofNat w j) := fun j hj _ => write_outside (h.ahead hj hik hn)
  calc (m.copy (d + BitVec.ofNat w k) (s + BitVec.ofNat w k) i).copy d s k
      = (m.copy (d + BitVec.ofNat w k) (s + BitVec.ofNat w k) i).write d k
          fun j => m (s + BitVec.ofNat w j) := write_congr hread
    _ = (m.write (d + BitVec.ofNat w k) i fun j => m (s + BitVec.ofNat w (k + j))).write d k
          fun j => m (s + BitVec.ofNat w j) := by
        congr 1
        exact write_congr fun j _ _ => by rw [BitVec.add_assoc, ← BitVec.ofNat_add]
    _ = m.copy d s (k + i) := write_below (f := fun j => m (s + BitVec.ofNat w j))

end Mem

end Ece391Kernel.Machine
