import Mathlib.Data.List.GetD
import Ece391Kernel.Devices.LineEditing
import Ece391Kernel.Devices.Lines

/-!
# The line that Enter sends

One line on one terminal: characters and Backspaces, then Enter. `kbd_buf_idx` is the next free
cell when a character is typed, but Backspace clears that cell before it steps back. `editLine` is
the line the user sees; `Edited` is where its characters are in `kbd_buf`. Enter sends the line
exactly when `Edited.Exact`: nothing of it has been displaced or lost, and the last key is not a
Backspace that deleted a character, which is still in the buffer.
-/

namespace Ece391Kernel

open Transition

/-- The key edits the line. -/
def KeyAction.isEdit : KeyAction → Bool
  | .char _ => true
  | .erase => true
  | _ => false

/-- The edited line: Backspace deletes the last pending character, if there is one. -/
def editLine (line : List UInt8) : KeyAction → List UInt8
  | .char c => line ++ [c]
  | .erase => line.dropLast
  | .enter | .switch _ => line

/-- Where the pending characters are. Those in `kept` are in the buffer from cell `start` on, and
`erased` is in the cell behind them; those in `lost`, typed before, are gone. -/
structure Edited where
  lost : List UInt8
  kept : List UInt8
  start : Nat
  erased : Option UInt8

namespace Edited

/-- An empty line. -/
def empty : Edited := ⟨[], [], 0, none⟩

/-- A character that finds the index past the last cell starts over in the first cell. A Backspace
deletes the last character only in name; one that finds no character in the buffer moves the start
back, to 255 from 0. -/
def next (s : Edited) : KeyAction → Edited
  | .char c =>
      if s.start + s.kept.length ≤ 127 then { s with kept := s.kept ++ [c], erased := none }
      else ⟨s.lost ++ s.kept, [c], 0, none⟩
  | .erase =>
      if s.kept = [] then ⟨s.lost.dropLast, [], (s.start + 255) % 256, none⟩
      else { s with kept := s.kept.dropLast, erased := s.kept.getLast? }
  | .enter | .switch _ => s

/-- The pending characters. -/
def line (s : Edited) : List UInt8 := s.lost ++ s.kept

/-- What a cell of the buffer holds. -/
def cell (s : Edited) (i : Nat) : UInt8 :=
  if i < s.start then 0 else (s.kept ++ s.erased.toList).getD (i - s.start) 0

/-- The buffer holds the line and nothing else: no character is lost and none is erased, and the
first is in the first cell. Otherwise the one lost character is the one erased last, and no other
character is pending. -/
def Exact (s : Edited) : Prop :=
  s.lost = [] ∧ s.erased = none ∧ (s.start = 0 ∨ s.kept = []) ∨
    s.start = 0 ∧ ∃ c, s.lost = [c] ∧ s.erased = some c ∧ ∀ x ∈ s.kept, x = c

/-- What holds while at most 127 characters are pending. -/
structure Inv (s : Edited) : Prop where
  start : s.start < 256
  kept : s.kept ≠ [] → s.start + s.kept.length ≤ 128
  erased : s.erased ≠ none → s.start + s.kept.length < 128
  lost : s.lost ≠ [] → s.start = 0 ∨ s.kept = [] ∧ s.lost.length + 129 ≤ s.start
  nonzero : 0 ∉ s.lost ++ s.kept ++ s.erased.toList

/-- The buffer and its index are as `Edited` says. -/
structure Holds (s : Edited) (l : LineState) : Prop where
  idx : l.idx.toNat = s.start + s.kept.length
  buf : ∀ i, i < maxBuf → l.buf i = s.cell i

variable {s : Edited} {l : LineState}

theorem line_next {a : KeyAction} (ha : a.isEdit = true) :
    (s.next a).line = editLine s.line a := by
  cases a with
  | char c =>
      simp only [next, line, editLine]
      split_ifs <;> simp
  | erase =>
      simp only [next, line, editLine]
      split_ifs with hkept
      · simp [hkept]
      · simp [List.dropLast_append_of_ne_nil hkept]
  | enter => cases ha
  | switch new => cases ha

/-! ## Cells -/

/-- A list with at most one more element. -/
theorem getD_append_toList (xs : List UInt8) (o : Option UInt8) (i : Nat) :
    (xs ++ o.toList).getD i 0 =
      if i < xs.length then xs.getD i 0 else if i = xs.length then o.getD 0 else 0 := by
  simp only [List.getD_eq_getElem?_getD, List.getElem?_append]
  cases o with
  | none => grind
  | some c => grind

theorem getD_append_singleton (xs : List UInt8) (c : UInt8) (i : Nat) :
    (xs ++ [c]).getD i 0 = if i < xs.length then xs.getD i 0 else if i = xs.length then c else 0 :=
  getD_append_toList xs (some c) i

/-- The cells of the kept characters, the one behind them, and the rest. -/
theorem cell_eq (s : Edited) (i : Nat) : s.cell i =
    if i < s.start then 0
    else if i - s.start < s.kept.length then s.kept.getD (i - s.start) 0
    else if i - s.start = s.kept.length then s.erased.getD 0
    else 0 := by
  rw [cell, getD_append_toList]

/-! ## Typing a character -/

theorem char_append_inv (h : s.Inv) (hfits : s.start + s.kept.length ≤ 127) {c : UInt8}
    (hc : c ≠ 0) : Inv { s with kept := s.kept ++ [c], erased := none } where
  start := h.start
  kept := by
    intro _
    simp only [List.length_append, List.length_singleton]
    omega
  erased := fun hne => absurd rfl hne
  lost := by
    intro hlost
    obtain hstart | ⟨-, hfar⟩ := h.lost hlost
    · exact .inl hstart
    · omega
  nonzero := by
    have hnz := h.nonzero
    simp only [List.mem_append, not_or] at hnz ⊢
    simpa [hc.symm] using hnz.1

theorem char_append_holds (h : s.Holds l) (hfits : s.start + s.kept.length ≤ 127) (c : UInt8) :
    Holds { s with kept := s.kept ++ [c], erased := none } (l.apply (.char c)) := by
  have hidx := h.idx
  have hroom : ¬ 127 < l.idx := by
    rw [UInt8.lt_iff_toNat_lt, hidx]
    exact Nat.not_lt.2 hfits
  have hone : (1 : UInt8).toNat = 1 := rfl
  simp only [LineState.apply, LineState.push, if_neg hroom]
  refine ⟨?_, fun i hi => ?_⟩
  · simp only [UInt8.toNat_add, List.length_append, List.length_singleton, hidx]
    omega
  · have hold := h.buf i hi
    simp only [cell_eq, Function.update_apply, hidx, List.length_append, List.length_singleton,
      getD_append_singleton, Option.getD_none] at hold ⊢
    by_cases hcell : i = s.start + s.kept.length
    · have hsub : i - s.start = s.kept.length := by omega
      have hge : ¬ i < s.start := by omega
      rw [if_pos hcell, if_neg hge, hsub, if_pos (Nat.lt_succ_self _),
        if_neg (Nat.lt_irrefl _), if_pos rfl]
    · rw [if_neg hcell, hold]
      split_ifs <;> first | rfl | omega

/-- A character that finds the buffer full or the index out of the buffer. -/
theorem char_flush_inv (h : s.Inv) {c : UInt8} (hc : c ≠ 0) :
    Inv ⟨s.lost ++ s.kept, [c], 0, none⟩ where
  start := Nat.zero_lt_succ 255
  kept := fun _ => Nat.le_of_ble_eq_true rfl
  erased := fun hne => absurd rfl hne
  lost := fun _ => .inl rfl
  nonzero := by
    have hnz := h.nonzero
    simp only [List.mem_append, not_or] at hnz ⊢
    simpa [hc.symm] using hnz.1

theorem char_flush_holds (h : s.Holds l) (hfull : 127 < s.start + s.kept.length) (c : UInt8) :
    Holds ⟨s.lost ++ s.kept, [c], 0, none⟩ (l.apply (.char c)) := by
  have hover : 127 < l.idx := by
    rw [UInt8.lt_iff_toNat_lt, h.idx]
    exact hfull
  simp only [LineState.apply, LineState.push, if_pos hover]
  refine ⟨rfl, fun i hi => ?_⟩
  have hzero : (0 : UInt8).toNat = 0 := rfl
  simp only [cell_eq, LineState.flush, Function.update_apply, hzero, if_pos hi,
    List.length_singleton, Option.getD_none, Nat.sub_zero, Nat.not_lt_zero, if_false]
  by_cases hfirst : i = 0
  · simp [hfirst]
  · rw [if_neg hfirst, if_neg (by omega), ite_self]

/-! ## Backspace -/

theorem erase_none_inv (h : s.Inv) (hlength : s.line.length ≤ 127) :
    Inv ⟨s.lost.dropLast, [], (s.start + 255) % 256, none⟩ where
  start := Nat.mod_lt _ (by decide)
  kept := fun hne => absurd rfl hne
  erased := fun hne => absurd rfl hne
  lost := by
    intro hne
    have hlost : s.lost ≠ [] := by
      intro hnil
      exact hne (by rw [hnil]; rfl)
    have hstart := h.start
    have hpos := List.length_pos_iff.2 hlost
    simp only [line, List.length_append] at hlength
    obtain hzero | ⟨-, hfar⟩ := h.lost hlost
    · refine .inr ⟨rfl, ?_⟩
      simp only [List.length_dropLast, hzero]
      omega
    · refine .inr ⟨rfl, ?_⟩
      simp only [List.length_dropLast]
      omega
  nonzero := by
    have hnz := h.nonzero
    simp only [List.mem_append, not_or] at hnz ⊢
    refine ⟨⟨fun hmem => hnz.1.1 (List.dropLast_subset _ hmem), List.not_mem_nil⟩, List.not_mem_nil⟩

theorem erase_none_holds (h : s.Holds l) (hkept : s.kept = []) :
    Holds ⟨s.lost.dropLast, [], (s.start + 255) % 256, none⟩ (l.apply .erase) := by
  have hidx := h.idx
  have hone : (1 : UInt8).toNat = 1 := rfl
  rw [hkept, List.length_nil, Nat.add_zero] at hidx
  refine ⟨?_, fun i hi => ?_⟩
  · simp only [LineState.apply, UInt8.toNat_sub, hidx, hone, List.length_nil]
    omega
  · have hold := h.buf i hi
    simp only [cell_eq, hkept, List.length_nil, Nat.not_lt_zero, if_false, Option.getD_none,
      LineState.apply, Function.update_apply, hidx, ite_self] at hold ⊢
    split_ifs with hcell
    · rfl
    · rw [hold]
      split_ifs <;> first | rfl | omega

/-- Erasing a character that is in the buffer leaves it there. -/
theorem erase_some_inv (h : s.Inv) (hkept : s.kept ≠ []) :
    Inv { s with kept := s.kept.dropLast, erased := s.kept.getLast? } where
  start := h.start
  kept := by
    intro _
    have hfits := h.kept hkept
    simp only [List.length_dropLast]
    omega
  erased := by
    intro _
    have hfits := h.kept hkept
    have hpos := List.length_pos_iff.2 hkept
    simp only [List.length_dropLast]
    omega
  lost := by
    intro hlost
    obtain hzero | ⟨hnil, -⟩ := h.lost hlost
    · exact .inl hzero
    · exact absurd hnil hkept
  nonzero := by
    have hnz := h.nonzero
    simp only [List.mem_append, not_or, Option.mem_toList] at hnz ⊢
    exact ⟨⟨hnz.1.1, fun hmem => hnz.1.2 (List.dropLast_subset _ hmem)⟩,
      fun hlast => hnz.1.2 (List.mem_of_getLast? hlast)⟩

theorem erase_some_holds (h : s.Holds l) (hinv : s.Inv) (hkept : s.kept ≠ []) :
    Holds { s with kept := s.kept.dropLast, erased := s.kept.getLast? } (l.apply .erase) := by
  have hidx := h.idx
  have hpos := List.length_pos_iff.2 hkept
  have hfits := hinv.kept hkept
  have hone : (1 : UInt8).toNat = 1 := rfl
  refine ⟨?_, fun i hi => ?_⟩
  · simp only [LineState.apply, UInt8.toNat_sub, hidx, hone, List.length_dropLast]
    omega
  · -- the characters in the buffer are the same; only the cell behind them is cleared
    have hsame : s.kept.dropLast ++ s.kept.getLast?.toList = s.kept := by
      rw [List.getLast?_eq_some_getLast hkept]
      exact List.dropLast_concat_getLast hkept
    have hold := h.buf i hi
    rw [cell_eq] at hold
    simp only [cell, hsame, LineState.apply, Function.update_apply, hidx]
    split_ifs with hcell hlt hlt
    · rfl
    · rw [List.getD_eq_default _ _ (by omega)]
    · rw [hold, if_pos hlt]
    · rw [hold, if_neg hlt]
      split_ifs with hin hbehind
      · rfl
      · omega
      · rw [List.getD_eq_default _ _ (by omega)]

/-! ## Runs of keys -/

/-- One key, with at most 127 characters pending before and after. -/
theorem next_holds (hinv : s.Inv) (h : s.Holds l) {a : KeyAction} (ha : a.isEdit = true)
    (hchar : a ≠ .char 0) (hlength : s.line.length ≤ 127) :
    (s.next a).Inv ∧ (s.next a).Holds (l.apply a) := by
  cases a with
  | char c =>
      have hc : c ≠ 0 := by
        rintro rfl
        exact hchar rfl
      by_cases hfits : s.start + s.kept.length ≤ 127
      · rw [next, if_pos hfits]
        exact ⟨char_append_inv hinv hfits hc, char_append_holds h hfits c⟩
      · rw [next, if_neg hfits]
        exact ⟨char_flush_inv hinv hc, char_flush_holds h (Nat.not_le.1 hfits) c⟩
  | erase =>
      by_cases hkept : s.kept = []
      · rw [next, if_pos hkept]
        exact ⟨erase_none_inv hinv hlength, erase_none_holds h hkept⟩
      · rw [next, if_neg hkept]
        exact ⟨erase_some_inv hinv hkept, erase_some_holds h hinv hkept⟩
  | enter => cases ha
  | switch new => cases ha

theorem empty_inv : Inv empty :=
  ⟨by decide, fun h => absurd rfl h, fun h => absurd rfl h, fun h => absurd rfl h,
    List.not_mem_nil⟩

theorem empty_holds (h : l.Empty) : empty.Holds l :=
  ⟨by rw [h.idx]; rfl, fun i hi => h.buf i hi⟩

/-- A sequence of keys with at most 127 characters pending throughout. -/
theorem run_holds {keys : List KeyAction} (hinv : s.Inv) (h : s.Holds l)
    (hedit : ∀ a ∈ keys, a.isEdit = true) (hchar : .char 0 ∉ keys)
    (hlength : Always editLine (fun line => line.length ≤ 127) s.line keys) :
    (keys.foldl next s).Inv ∧ (keys.foldl next s).Holds (keys.foldl LineState.apply l) := by
  induction keys generalizing s l with
  | nil => exact ⟨hinv, h⟩
  | cons a keys ih =>
      obtain ⟨ha, hedit'⟩ := List.forall_mem_cons.1 hedit
      obtain ⟨hne, hchar'⟩ := not_or.1 fun h => hchar (List.mem_cons.2 h)
      obtain ⟨hshort, hlength'⟩ := hlength
      obtain ⟨hinv', h'⟩ := next_holds hinv h ha (Ne.symm hne) hshort
      exact ih hinv' h' hedit' hchar' (line_next ha ▸ hlength')

theorem run_line {keys : List KeyAction} (hedit : ∀ a ∈ keys, a.isEdit = true) :
    (keys.foldl next s).line = keys.foldl editLine s.line := by
  induction keys generalizing s with
  | nil => rfl
  | cons a keys ih =>
      obtain ⟨ha, hedit'⟩ := List.forall_mem_cons.1 hedit
      rw [List.foldl_cons, List.foldl_cons, ih hedit', line_next ha]

/-! ## When the buffer is the line -/

theorem getD_ne_zero {xs : List UInt8} (hx : 0 ∉ xs) {i : Nat} (hi : i < xs.length) :
    xs.getD i 0 ≠ 0 := by
  intro heq
  rw [List.getD_eq_getElem _ _ hi] at heq
  exact hx (heq ▸ List.getElem_mem hi)

/-- Of two lists that agree when padded with zeros, the one without zeros is no longer. -/
theorem length_le_of_getD_eq {xs ys : List UInt8} (hx : 0 ∉ xs) (hlength : xs.length ≤ 128)
    (h : ∀ i, i < 128 → xs.getD i 0 = ys.getD i 0) : xs.length ≤ ys.length := by
  by_contra hlt
  have hlt' : ys.length < xs.length := Nat.not_le.1 hlt
  have hdiff := h ys.length (by omega)
  rw [List.getD_eq_default ys 0 (Nat.le_refl _)] at hdiff
  exact getD_ne_zero hx hlt' hdiff

theorem eq_of_getD_eq {xs ys : List UInt8} (hx : 0 ∉ xs) (hy : 0 ∉ ys) (hxl : xs.length ≤ 128)
    (hyl : ys.length ≤ 128) (h : ∀ i, i < 128 → xs.getD i 0 = ys.getD i 0) : xs = ys := by
  have hle := length_le_of_getD_eq hx hxl h
  have hge := length_le_of_getD_eq hy hyl fun i hi => (h i hi).symm
  refine List.ext_getElem (Nat.le_antisymm hle hge) fun i hi hi' => ?_
  have heq := h i (by omega)
  rwa [List.getD_eq_getElem _ _ hi, List.getD_eq_getElem _ _ hi'] at heq

/-- A character that can be moved from one end of a list to the other is all there is in it. -/
theorem append_singleton_eq_cons {xs : List UInt8} {c e : UInt8} (h : xs ++ [e] = c :: xs) :
    e = c ∧ ∀ x ∈ xs, x = c := by
  induction xs with
  | nil =>
      obtain ⟨heq, -⟩ := List.cons.inj h
      exact ⟨heq, fun _ h => absurd h List.not_mem_nil⟩
  | cons x xs ih =>
      obtain ⟨hx, htail⟩ := List.cons.inj h
      subst hx
      obtain ⟨he, hall⟩ := ih htail
      exact ⟨he, List.forall_mem_cons.2 ⟨rfl, hall⟩⟩

theorem append_singleton_of_all {xs : List UInt8} {c : UInt8} (h : ∀ x ∈ xs, x = c) :
    xs ++ [c] = c :: xs := by
  induction xs with
  | nil => rfl
  | cons x xs ih =>
      obtain ⟨hx, hall⟩ := List.forall_mem_cons.1 h
      subst hx
      rw [List.cons_append, ih hall]

theorem cells_length (hlength : s.line.length ≤ 127) :
    (s.kept ++ s.erased.toList).length ≤ 128 := by
  simp only [line, List.length_append] at hlength ⊢
  have hone : s.erased.toList.length ≤ 1 := by
    cases s.erased with
    | none => exact Nat.zero_le 1
    | some c => exact Nat.le_refl 1
  omega

theorem inv_nonzero (h : s.Inv) : 0 ∉ s.line ∧ 0 ∉ s.kept ++ s.erased.toList := by
  have hnz := h.nonzero
  simp only [line, List.mem_append, not_or] at hnz ⊢
  exact ⟨hnz.1, hnz.1.2, hnz.2⟩

/-- A buffer whose first cell counts. -/
theorem cell_of_start (hstart : s.start = 0) (i : Nat) :
    s.cell i = (s.kept ++ s.erased.toList).getD i 0 := by
  rw [cell, hstart, if_neg (Nat.not_lt_zero i), Nat.sub_zero]

/-- A padded line in a buffer whose first cell counts: the two lists are equal. -/
theorem exact_of_start (h : s.Inv) (hlength : s.line.length ≤ 127) (hstart : s.start = 0)
    (heq : ∀ i, i < 128 → s.cell i = s.line.getD i 0) : s.Exact := by
  obtain ⟨hline, hcells⟩ := inv_nonzero h
  simp only [cell_of_start hstart] at heq
  have hsame := eq_of_getD_eq hcells hline (cells_length hlength) (by omega) heq
  rw [line] at hsame
  cases herased : s.erased with
  | none =>
      rw [herased, Option.toList_none, List.append_nil] at hsame
      exact .inl ⟨List.self_eq_append_left.1 hsame, herased, .inl hstart⟩
  | some e =>
      rw [herased, Option.toList_some] at hsame
      have hcount := congrArg List.length hsame
      simp only [List.length_append, List.length_singleton] at hcount
      obtain ⟨c, hlost⟩ := List.length_eq_one_iff.1 (show s.lost.length = 1 by omega)
      rw [hlost] at hsame
      obtain ⟨rfl, hall⟩ := append_singleton_eq_cons hsame
      exact .inr ⟨hstart, e, hlost, herased, hall⟩

/-- A padded line in a buffer whose first cell is zero: the line is empty, and no erased character
is left. -/
theorem exact_of_gap (h : s.Inv) (hstart : s.start ≠ 0)
    (heq : ∀ i, i < 128 → s.cell i = s.line.getD i 0) : s.Exact := by
  obtain ⟨hline, hcells⟩ := inv_nonzero h
  have hfirst := heq 0 (by omega)
  rw [cell, if_pos (Nat.pos_of_ne_zero hstart)] at hfirst
  have hnil : s.line = [] := by
    by_contra hne
    exact getD_ne_zero hline (List.length_pos_iff.2 hne) hfirst.symm
  obtain ⟨hlost, hkept⟩ := List.append_eq_nil_iff.1 hnil
  refine .inl ⟨hlost, ?_, .inr hkept⟩
  cases herased : s.erased with
  | none => rfl
  | some e =>
      have hroom := h.erased (by rw [herased]; exact Option.some_ne_none e)
      rw [hkept, List.length_nil, Nat.add_zero] at hroom
      have hcell := heq s.start hroom
      rw [hnil, cell_eq, hkept, herased] at hcell
      simp only [Nat.lt_irrefl, if_false, Nat.sub_self, List.length_nil, if_true,
        Option.getD_some, List.getD_nil] at hcell
      rw [herased, hcell] at hcells
      exact absurd (List.mem_append_right _ (List.mem_singleton.2 rfl)) hcells

/-- The buffer is the padded line exactly when nothing of it is displaced, lost or erased in name
only. -/
theorem cells_eq_iff (h : s.Inv) (hlength : s.line.length ≤ 127) :
    (∀ i, i < 128 → s.cell i = s.line.getD i 0) ↔ s.Exact := by
  constructor
  · intro heq
    by_cases hstart : s.start = 0
    · exact exact_of_start h hlength hstart heq
    · exact exact_of_gap h hstart heq
  · rintro (⟨hlost, herased, hstart | hkept⟩ | ⟨hstart, c, hlost, herased, hall⟩) i -
    · rw [cell_of_start hstart, herased, line, hlost, Option.toList_none, List.append_nil,
        List.nil_append]
    · rw [cell, line, hlost, hkept, herased]
      simp
    · rw [cell_of_start hstart, herased, line, hlost, Option.toList_some,
        append_singleton_of_all hall, List.singleton_append]

end Edited

namespace Devices

variable {d : Devices}

/-- The characters that keys produce are printable: none is a control character. -/
theorem le_shiftChar (k : Keyboard) {c : UInt8} (hc : 0x20 ≤ c ∧ c < 0x7F) :
    0x20 ≤ k.shiftChar c := by
  have hval : shifted.all (fun p => 0x20 ≤ p.2) = true := by decide
  have hfirst : ∀ b : Bool,
      0x20 ≤ (if b ∧ 0x60 < c ∧ c < 0x7B then c - 0x20 else c) := by
    intro b
    split_ifs with hletter
    · have hlow := UInt8.lt_iff_toNat_lt.1 hletter.2.1
      have hsub := UInt8.toNat_sub_of_le c 0x20 hc.1
      have h20 : (0x20 : UInt8).toNat = 32 := rfl
      have h60 : (0x60 : UInt8).toNat = 96 := rfl
      rw [UInt8.le_iff_toNat_le, hsub]
      omega
    · exact hc.1
  unfold Keyboard.shiftChar
  generalize hc' : (if (k.shiftPressed ^^ k.capslockPressed) ∧ 0x60 < c ∧ c < 0x7B then c - 0x20
    else c) = c'
  have hle : 0x20 ≤ c' := hc' ▸ hfirst _
  simp only
  split_ifs
  · cases hlookup : shifted.lookup c' with
    | none => exact hle
    | some v =>
        obtain ⟨l₁, l₂, hsplit, -⟩ := List.lookup_eq_some_iff.1 hlookup
        have hmem : (c', v) ∈ shifted := hsplit ▸ List.mem_append_right _ List.mem_cons_self
        exact of_decide_eq_true (List.all_eq_true.1 hval _ hmem)
  · exact hle

theorem shiftChar_ne_zero (k : Keyboard) {c : UInt8} (hc : 0x20 ≤ c ∧ c < 0x7F) :
    k.shiftChar c ≠ 0 := by
  intro hzero
  exact absurd (hzero ▸ le_shiftChar k hc) (by decide)

theorem keyActions_char (d : Devices) (e : ConsoleEvent) : .char 0 ∉ d.keyActions e := by
  intro hmem
  cases e with
  | key scancode stray =>
      simp only [keyActions, pressActions] at hmem
      split_ifs at hmem with hrel hback henter hc hctrl
      · cases hmem
      · simp at hmem
      · simp at hmem
      · cases hmem
      · simp only [List.mem_singleton, KeyAction.char.injEq] at hmem
        exact shiftChar_ne_zero d.kbd hc hmem.symm
      · simp at hmem
  | serve term => cases hmem
  | launch term => cases hmem
  | write buf => cases hmem

theorem emitted_char (d : Devices) (es : List ConsoleEvent) :
    .char 0 ∉ emitted consoleStep keyActions d es := by
  induction es generalizing d with
  | nil => exact List.not_mem_nil
  | cons e es ih =>
      intro hmem
      obtain hhead | htail := List.mem_append.1 hmem
      · exact keyActions_char d e hhead
      · exact ih _ htail

/-- The line that the editing keys of a sequence of events amount to. -/
def editedLine (d : Devices) (es : List ConsoleEvent) : List UInt8 :=
  (emitted consoleStep keyActions d es).foldl editLine []

/-- Enter, found in this state, sends the line followed by zeros, and leaves an empty line. -/
structure SendsLine (d : Devices) (scancode : UInt8) (stray : Option Int) (line : List UInt8) :
    Prop where
  sent : ∀ i, i < maxBuf → (d.keyboardHandler scancode stray).term.terminalBuf i = line.getD i 0
  next : (d.keyboardHandler scancode stray).lineState.Empty

theorem sendsLine_iff {scancode : UInt8} (h : isEnter scancode) (stray : Option Int)
    (line : List UInt8) : d.SendsLine scancode stray line ↔
      ∀ i, i < maxBuf → d.lineState.buf i = line.getD i 0 := by
  have hline : (d.keyboardHandler scancode stray).lineState = d.lineState.apply .enter := by
    have hstep := lineState_step d (.key scancode stray)
    have henter : d.keyActions (.key scancode stray) = [.enter] := by
      have hback : ¬ enterKey = backspaceKey := by decide
      have hpress : ¬ scancode &&& 0x80 ≠ 0 := not_not.2 h.1
      simp only [keyActions, pressActions, if_neg hpress, h.2, if_neg hback, if_true]
    rw [henter] at hstep
    exact hstep
  have hsent : ∀ i, i < maxBuf →
      (d.keyboardHandler scancode stray).term.terminalBuf i = d.lineState.buf i := by
    intro i hi
    have hbuf : (d.keyboardHandler scancode stray).term.terminalBuf =
        (d.lineState.apply .enter).sent := congrArg LineState.sent hline
    rw [hbuf]
    exact if_pos hi
  constructor
  · intro hsends i hi
    rw [← hsent i hi, hsends.sent i hi]
  · intro heq
    refine ⟨fun i hi => by rw [hsent i hi, heq i hi], ?_⟩
    rw [hline]
    exact ⟨fun i hi => if_pos hi, rfl⟩

/-- Characters and Backspaces on an empty line, at most 127 characters pending at any time, then
Enter: the edited line is sent exactly when the keys leave it intact in the buffer. -/
theorem sent_iff_exact {es : List ConsoleEvent} (hempty : d.lineState.Empty)
    (hedit : ∀ a ∈ emitted consoleStep keyActions d es, a.isEdit = true)
    (hlength : Always editLine (fun line => line.length ≤ 127) []
      (emitted consoleStep keyActions d es))
    {scancode : UInt8} (henter : isEnter scancode) (stray : Option Int) :
    (es.foldl consoleStep d).SendsLine scancode stray (d.editedLine es) ↔
      ((emitted consoleStep keyActions d es).foldl Edited.next Edited.empty).Exact := by
  obtain ⟨hinv, hholds⟩ := Edited.run_holds Edited.empty_inv (Edited.empty_holds hempty) hedit
    (emitted_char d es) hlength
  have hline := Edited.run_line (s := Edited.empty) hedit
  rw [← lineState_run] at hholds
  have hshort : (d.editedLine es).length ≤ 127 := hlength.last
  rw [sendsLine_iff henter, ← Edited.cells_eq_iff hinv (hline.symm ▸ hshort), hline]
  constructor
  · intro h i hi
    rw [← hholds.buf i hi]
    exact h i hi
  · intro h i hi
    rw [hholds.buf i hi]
    exact h i hi

/-- `a`, `b`, Backspace and `c`. -/
def replacingKeys : List ConsoleEvent :=
  [.key 0x1E none, .key 0x30 none, .key 0x0E none, .key 0x2E none]

/-- With Enter they send `ac`: the `c` goes to the cell of the `b`. -/
theorem sent_iff_exact_ac :
    (replacingKeys.foldl consoleStep (boot fun _ => 0)).SendsLine 0x1C none (chars "ac") := by
  have hline : (boot fun _ => 0).editedLine replacingKeys = chars "ac" := by decide +kernel
  rw [← hline]
  exact (sent_iff_exact ⟨fun _ _ => rfl, rfl⟩ (by decide +kernel) (by decide +kernel) (by decide)
    none).2 (.inl (by decide +kernel))

/-- `a`, `b`, Backspace and Enter send `ab`. -/
theorem erased_character_sent :
    ¬ ∀ (d : Devices) (es : List ConsoleEvent) (scancode : UInt8) (stray : Option Int),
      d.lineState.Empty → (∀ a ∈ emitted consoleStep keyActions d es, a.isEdit = true) →
      Always editLine (fun line => line.length ≤ 127) [] (emitted consoleStep keyActions d es) →
      isEnter scancode →
      (es.foldl consoleStep d).SendsLine scancode stray (d.editedLine es) := by
  intro h
  have hsent := (h (boot fun _ => 0) [.key 0x1E none, .key 0x30 none, .key 0x0E none] 0x1C none
    ⟨fun _ _ => rfl, rfl⟩ (by decide +kernel) (by decide +kernel) (by decide)).sent 1 (by decide)
  exact absurd hsent (by decide +kernel)

end Devices

end Ece391Kernel
