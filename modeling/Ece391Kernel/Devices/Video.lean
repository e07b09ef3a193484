import Ece391Kernel.Devices.Screen
import Ece391Kernel.Transition.Run

/-!
# Video memory behind the page at one gigabyte

`lib.c` writes the screen through `video_mem`, a pointer to the virtual page at `ONE_GIG`.
Entry 0 of `page_table_vid` names the physical page that pointer reaches; entries 1 to 3 always
map the backing pages of the three terminals. `Video` is that entry together with the physical
memory, and it records every offset from `video_mem` that is stored to.

`Acts` says what an operation does to pages: it changes the page that entry 0 names, by a given
function, and no other page. `scroll_acts` is the one that needs an argument: the loop copies the
rows in place.
-/

namespace Ece391Kernel

open Transition

/-! ## Constants of `page.h` -/

@[simp] def fourKb : Nat := 4096
@[simp] def oneGig : Nat := 0x40000000
@[simp] def vimMemIndex : Nat := 0xB8000
@[simp] def presentFlag : Nat := 1
@[simp] def rwFlag : Nat := 2
@[simp] def userFlag : Nat := 4

/-- The physical page that a page table entry names: its upper twenty bits. -/
def frameOf (entry : Nat) : Nat := entry / fourKb * fourKb

/-- Entry 0 of `page_table_vid` and the physical memory of the video pages. `stores` lists the
offsets from `video_mem` stored to so far, the most recent first. -/
structure Video where
  pageTableVid0 : Nat
  mem : Nat → UInt8
  stores : List Int

namespace Video

/-- The physical address of `video_mem + off`; `none` where no page is present. Here the entry
counts from the moment it is rewritten. A processor that still has the old translation cached
stores to the old page. -/
def address (v : Video) (off : Int) : Option Nat :=
  if 0 ≤ off ∧ off < fourKb then some (frameOf v.pageTableVid0 + off.toNat)
  else if fourKb ≤ off ∧ off < 4 * fourKb then some (vimMemIndex + off.toNat)
  else none

/-- Read the byte at `video_mem + off`. Where no page is present the machine would page-fault. -/
def load (v : Video) (off : Int) : UInt8 :=
  match v.address off with
  | some a => v.mem a
  | none => 0

/-- Write the byte at `video_mem + off`. A store that would page-fault leaves the memory alone here,
and is on record in `stores`. -/
def store (v : Video) (off : Int) (b : UInt8) : Video :=
  { v with
    mem := match v.address off with
      | some a => Function.update v.mem a b
      | none => v.mem
    stores := off :: v.stores }

/-- `(NUM_COLS * y + x) << 1`, the offset of a character cell. -/
def cellOffset (x y : Int) : Int := (numCols * y + x) * 2

/-- Write a character and its attribute into one cell. -/
def putCell (v : Video) (x y : Int) (c : UInt8) : Video :=
  (v.store (cellOffset x y) c).store (cellOffset x y + 1) attrib

/-- `clear_char`: blank the cell at the given coordinates. -/
def clearChar (v : Video) (x y : Int) : Video := v.putCell x y blank

/-- One iteration of `scroll`: copy cell `i` to the row above, and blank it in the last row. -/
def scrollBody (v : Video) (i : Nat) : Video :=
  let v := v.store (((i : Int) - numCols) * 2) (v.load (i * 2))
  if numRows * numCols - numCols - 1 < i then
    (v.store (i * 2) blank).store (i * 2 + 1) attrib
  else v

/-- `scroll`: copy every row but the first one row up and blank the last row. -/
def scroll (v : Video) : Video := forRange scrollBody numCols (numRows * numCols - numCols) v

/-- One iteration of `clear`. -/
def clearBody (v : Video) (i : Nat) : Video :=
  (v.store (i * 2) blank).store (i * 2 + 1) attrib

/-- `clear`: blank the whole screen. -/
def clear (v : Video) : Video := forRange clearBody 0 (numRows * numCols) v

/-- The contents of the physical page at `base`. -/
def page (v : Video) (base : Nat) : Page := fun r => if r < fourKb then v.mem (base + r) else 0

/-! ## Where stores land -/

/-- Every store so far lies on the visible screen, offsets 0 to 3999. -/
def StoresIn (v : Video) : Prop := ∀ off ∈ v.stores, 0 ≤ off ∧ off ≤ 3999

theorem stores_in_store {v : Video} (h : v.StoresIn) (off : Int) (hlo : 0 ≤ off)
    (hhi : off ≤ 3999) (b : UInt8) : (v.store off b).StoresIn := by
  intro o ho
  rcases List.mem_cons.1 ho with rfl | ho
  · exact ⟨hlo, hhi⟩
  · exact h o ho

theorem stores_in_putCell {v : Video} (h : v.StoresIn) {x y : Int} (hx : 0 ≤ x) (hx' : x ≤ 79)
    (hy : 0 ≤ y) (hy' : y ≤ 24) (c : UInt8) : (v.putCell x y c).StoresIn := by
  have hlo : 0 ≤ cellOffset x y := by simp only [cellOffset, numCols]; omega
  have hhi : cellOffset x y ≤ 3998 := by simp only [cellOffset, numCols]; omega
  exact stores_in_store (stores_in_store h _ hlo (by omega) c) _ (by omega) (by omega) attrib

theorem stores_in_scroll {v : Video} (h : v.StoresIn) : v.scroll.StoresIn := by
  refine forRange_invariant (P := fun _ => StoresIn) h fun i w hi hw => ?_
  simp only [numRows, numCols] at hi
  have hcopy := stores_in_store hw (((numCols + i : Nat) - (numCols : Nat) : Int) * 2)
    (by simp only [numCols]; omega) (by simp only [numCols]; omega)
    (w.load ((numCols + i : Nat) * 2))
  unfold scrollBody
  split
  · simp only [numCols] at hcopy ⊢
    refine stores_in_store ?_ _ (by omega) (by omega) _
    exact stores_in_store hcopy _ (by omega) (by omega) _
  · exact hcopy

theorem stores_in_clear {v : Video} (h : v.StoresIn) : v.clear.StoresIn := by
  refine forRange_invariant (P := fun _ => StoresIn) h fun i w hi hw => ?_
  simp only [numRows, numCols] at hi
  exact stores_in_store (stores_in_store hw _ (by omega) (by omega) _) _ (by omega) (by omega) _

/-! ## What the operations do to pages -/

/-- The operation from `v` to `w` applies `f` to the page that entry 0 of `page_table_vid` names
and leaves every other page and the entry itself unchanged. -/
structure Acts (v w : Video) (f : Page → Page) : Prop where
  entry : w.pageTableVid0 = v.pageTableVid0
  page : ∀ base, base % fourKb = 0 →
    w.page base = if base = frameOf v.pageTableVid0 then f (v.page base) else v.page base

theorem acts_refl (v : Video) : Acts v v id := ⟨rfl, fun _ _ => by simp⟩

theorem Acts.trans {u v w : Video} {f g : Page → Page} (h : Acts u v f) (h' : Acts v w g) :
    Acts u w (g ∘ f) := by
  refine ⟨h'.entry.trans h.entry, fun base hbase => ?_⟩
  rw [h'.page base hbase, h.page base hbase, h.entry]
  split <;> rfl

/-- Only what the function does to the named page matters. -/
theorem Acts.congr {v w : Video} {f g : Page → Page} (h : Acts v w f)
    (hfg : f (v.page (frameOf v.pageTableVid0)) = g (v.page (frameOf v.pageTableVid0))) :
    Acts v w g := by
  refine ⟨h.entry, fun base hbase => ?_⟩
  rw [h.page base hbase]
  split
  · next heq => rw [heq, hfg]
  · rfl

theorem frameOf_aligned (entry : Nat) : frameOf entry % fourKb = 0 := by
  simp [frameOf]

/-- An operation that only rewrites offsets below 4096 of the page named by entry 0, as a
pointwise equation on physical memory. -/
theorem Acts.of_mem {v w : Video} {f : Page → Page} (hentry : w.pageTableVid0 = v.pageTableVid0)
    (hin : ∀ r, r < fourKb → w.mem (frameOf v.pageTableVid0 + r) =
      f (v.page (frameOf v.pageTableVid0)) r)
    (hf : ∀ p r, fourKb ≤ r → f p r = p r)
    (hout : ∀ a, a < frameOf v.pageTableVid0 ∨ frameOf v.pageTableVid0 + fourKb ≤ a →
      w.mem a = v.mem a) : Acts v w f := by
  refine ⟨hentry, fun base hbase => ?_⟩
  have halign := frameOf_aligned v.pageTableVid0
  simp only [fourKb] at *
  split
  · next heq =>
    subst heq
    funext r
    by_cases hr : r < 4096
    · simp [Video.page, hr, hin r hr]
    · rw [hf _ r (by omega)]
      simp [Video.page, hr]
  · next hne =>
    funext r
    by_cases hr : r < 4096
    · simpa [Video.page, hr] using hout (base + r) (by omega)
    · simp [Video.page, hr]

@[simp] theorem store_entry (v : Video) (off : Int) (b : UInt8) :
    (v.store off b).pageTableVid0 = v.pageTableVid0 := rfl

/-- A store in the first page is a store at its physical address. -/
theorem store_mem {v : Video} {off : Int} (hlo : 0 ≤ off) (hhi : off < 4096) (b : UInt8) :
    (v.store off b).mem = Function.update v.mem (frameOf v.pageTableVid0 + off.toNat) b := by
  simp [store, address, hlo, hhi]

theorem load_eq {v : Video} {off : Int} (hlo : 0 ≤ off) (hhi : off < 4096) :
    v.load off = v.mem (frameOf v.pageTableVid0 + off.toNat) := by
  simp [load, address, hlo, hhi]

theorem store_acts (v : Video) (off : Int) (hlo : 0 ≤ off) (hhi : off < 4096) (b : UInt8) :
    Acts v (v.store off b) (fun p => Function.update p off.toNat b) := by
  refine Acts.of_mem rfl ?_ ?_ ?_ <;> simp only [fourKb]
  · intro r hr
    rw [store_mem hlo hhi]
    by_cases h : r = off.toNat
    · subst h
      simp
    · have hne : frameOf v.pageTableVid0 + r ≠ frameOf v.pageTableVid0 + off.toNat := by omega
      simp [Function.update_of_ne h, Function.update_of_ne hne, page, hr]
  · intro p r hr
    exact Function.update_of_ne (by omega) _ _
  · intro a ha
    rw [store_mem hlo hhi, Function.update_of_ne (by omega)]

theorem put_cell_acts (v : Video) {x y : Nat} (hx : x ≤ 79) (hy : y ≤ 24) (c : UInt8) :
    Acts v (v.putCell x y c) (putCellPage x y c) := by
  have hoff : cellOffset x y = ((numCols * y + x) * 2 : Nat) := by
    simp only [cellOffset, numCols]
    omega
  simp only [putCell, hoff]
  simp only [numCols] at *
  exact (store_acts v _ (by omega) (by omega) c).trans
    (store_acts _ _ (by omega) (by omega) attrib)

/-- The page after the first `n` iterations of `scroll`. -/
def scrolledTo (n : Nat) (p : Page) : Page := fun r =>
  if r % 2 = 0 ∧ r < 2 * n then p (r + 160)
  else if 3840 ≤ r ∧ r < 160 + 2 * n then (if r % 2 = 0 then blank else attrib)
  else p r

/-- Above the last row, iteration `n` moves one character. -/
theorem scrolledTo_succ_of_lt {n : Nat} (hn : n < 1840) (p : Page) :
    scrolledTo (n + 1) p = Function.update (scrolledTo n p) (2 * n) (p (160 + 2 * n)) := by
  funext r
  by_cases hr : r = 2 * n
  · subst hr
    simp [scrolledTo, Nat.add_comm]
  · rw [Function.update_of_ne hr]
    simp only [scrolledTo]
    split_ifs <;> first | rfl | omega

/-- In the last row, iteration `n` also blanks the cell it has moved. -/
theorem scrolledTo_succ_of_ge {n : Nat} (hn : 1840 ≤ n) (hn' : n < 1920) (p : Page) :
    scrolledTo (n + 1) p =
      Function.update (Function.update (Function.update (scrolledTo n p) (2 * n) (p (160 + 2 * n)))
        (160 + 2 * n) blank) (160 + 2 * n + 1) attrib := by
  funext r
  simp only [Function.update_apply]
  by_cases hr : r = 2 * n
  · subst hr
    simp [scrolledTo, Nat.add_comm]
    omega
  · have hmoved : (r % 2 = 0 ∧ r < 2 * (n + 1)) ↔ (r % 2 = 0 ∧ r < 2 * n) := by omega
    by_cases hattrib : r = 160 + 2 * n + 1
    · have hold : ¬ (r % 2 = 0 ∧ r < 2 * n) := by omega
      have hodd : ¬ r % 2 = 0 := by omega
      have hnew : 3840 ≤ r ∧ r < 160 + 2 * (n + 1) := by omega
      simp only [scrolledTo, hmoved, if_neg hold, if_pos hnew, if_neg hodd, if_pos hattrib]
    · by_cases hblank : r = 160 + 2 * n
      · have hold : ¬ (r % 2 = 0 ∧ r < 2 * n) := by omega
        have heven : r % 2 = 0 := by omega
        have hnew : 3840 ≤ r ∧ r < 160 + 2 * (n + 1) := by omega
        simp only [scrolledTo, hmoved, if_neg hold, if_pos hnew, if_pos heven, if_neg hattrib,
          if_pos hblank]
      · have hlast : (3840 ≤ r ∧ r < 160 + 2 * (n + 1)) ↔ (3840 ≤ r ∧ r < 160 + 2 * n) := by omega
        simp only [scrolledTo, hmoved, hlast, if_neg hattrib, if_neg hblank, if_neg hr]

/-- Iteration `n` of the loop reads a cell that no earlier iteration has written. -/
theorem scrollBody_acts {v w : Video} {n : Nat} (hn : n < 1920) (h : Acts v w (scrolledTo n)) :
    Acts v (w.scrollBody (numCols + n)) (scrolledTo (n + 1)) := by
  have hpage := h.page _ (frameOf_aligned v.pageTableVid0)
  rw [if_pos rfl] at hpage
  have hload : w.load ((numCols + n : Nat) * 2) =
      v.page (frameOf v.pageTableVid0) (160 + 2 * n) := by
    have hget := congrFun hpage (160 + 2 * n)
    have hlt : 160 + 2 * n < 4096 := by omega
    have hoff : (((numCols + n : Nat) : Int) * 2).toNat = 160 + 2 * n := by
      simp only [numCols]
      omega
    rw [load_eq (by simp only [numCols]; omega) (by simp only [numCols]; omega), h.entry, hoff]
    simpa [page, scrolledTo, hlt, show ¬ 160 + 2 * n < 2 * n by omega] using hget
  have hcopy := h.trans (store_acts w (((numCols + n : Nat) - (numCols : Nat) : Int) * 2)
    (by simp only [numCols]; omega) (by simp only [numCols]; omega)
    (v.page (frameOf v.pageTableVid0) (160 + 2 * n)))
  rw [show (((numCols + n : Nat) - (numCols : Nat) : Int) * 2).toNat = 2 * n by
    simp only [numCols]; omega] at hcopy
  unfold scrollBody
  rw [hload]
  by_cases hlast : numRows * numCols - numCols - 1 < numCols + n
  · rw [if_pos hlast]
    simp only [numRows, numCols] at hlast hcopy ⊢
    have hblank := (hcopy.trans (store_acts _ ((80 + n : Nat) * 2) (by omega) (by omega)
      blank)).trans (store_acts _ ((80 + n : Nat) * 2 + 1) (by omega) (by omega) attrib)
    refine hblank.congr ?_
    rw [scrolledTo_succ_of_ge (by omega) hn]
    simp only [Function.comp_apply]
    rw [show (((80 + n : Nat) : Int) * 2 + 1).toNat = 160 + 2 * n + 1 by omega,
      show (((80 + n : Nat) : Int) * 2).toNat = 160 + 2 * n by omega]
  · rw [if_neg hlast]
    simp only [numRows, numCols] at hlast
    refine hcopy.congr ?_
    rw [scrolledTo_succ_of_lt (by omega)]
    rfl

theorem scroll_acts (v : Video) : Acts v v.scroll scrollPage := by
  have hloop : Acts v v.scroll (scrolledTo 1920) := by
    refine forRange_invariant (P := fun n w => Acts v w (scrolledTo n)) ?_ fun n w hn h => ?_
    · have hid : scrolledTo 0 = id := by
        funext p r
        simp only [scrolledTo]
        split_ifs <;> first | rfl | omega
      rw [hid]
      exact acts_refl v
    · exact scrollBody_acts hn h
  have heq : scrolledTo 1920 = scrollPage := by
    funext p r
    simp only [scrolledTo, scrollPage]
    split_ifs <;> first | rfl | omega
  exact heq ▸ hloop

-- The 1920 iterations are never unfolded: the lemmas above say all that is used of the loops.
attribute [irreducible] scroll clear

end Video

end Ece391Kernel
