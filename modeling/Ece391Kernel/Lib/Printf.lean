import Ece391Kernel.Lib.Numerals
import Ece391Kernel.Devices.Keyboard
import Ece391Kernel.Transition.Fuel

/-!
# `puts` and `printf`

`printf` reads its format character by character and its arguments from the stack, one word behind
the other. A format is a list of pieces, plain characters and directives, unless it ends within a
directive (`pieces_cover`); `printf_renders` says what the function prints for every such list.
-/

namespace Ece391Kernel

open Transition

namespace Str

/-- The pointer `n` bytes further on. -/
def drop (s : Str) (n : Nat) : Str := fun i => s (n + i)

/-- The memory with these bytes from `n` on. -/
def splice (s : Str) (n : Nat) (t : Str) : Str := fun i => if i < n then s i else t (i - n)

theorem drop_zero (s : Str) : s.drop 0 = s := by
  funext i
  rw [drop, Nat.zero_add]

theorem drop_splice (s t : Str) (n : Nat) : (s.splice n t).drop n = t := by
  funext i
  rw [drop, splice, if_neg (by omega), Nat.add_sub_cancel_left]

end Str

/-! ## The functions -/

/-- The loop of `puts`. -/
def putsLoop (d : Devices) (s : Str) (index : Nat) : Nat → Option (Devices × Nat)
  | 0 => none
  | fuel + 1 =>
      if s index ≠ 0 then putsLoop (d.putc (s index)) s (index + 1) fuel else some (d, index)

/-- What a call finds: the format, the words on the stack behind it, the string at every pointer,
and what `conv_buf` holds before it is written. -/
structure PrintfCall where
  format : Str
  args : Nat → Nat
  memory : Nat → Str
  convBuf : Str
  args_lt : ∀ n, args n < 2 ^ 32

/-- The console, the place in the format, and the number of words read. -/
structure PrintfState where
  dev : Devices
  buf : Nat
  esp : Nat

namespace PrintfCall

variable (c : PrintfCall)

/-- `puts` of a buffer, and the next word. -/
def putsConv (s : PrintfState) (conv : Str) (fuel : Nat) : Option PrintfState :=
  (putsLoop s.dev conv 0 fuel).map fun r => { s with dev := r.1, esp := s.esp + 1 }

/-- `%x` and `%#x`. -/
def printHex (alternate : Bool) (s : PrintfState) (fuel : Nat) : Option PrintfState :=
  if alternate = false then
    (Str.itoa (c.args s.esp) c.convBuf 16 fuel).bind fun conv => putsConv s conv fuel
  else
    (Str.itoa (c.args s.esp) (c.convBuf.drop 8) 16 fuel).bind fun digits =>
      let conv := c.convBuf.splice 8 digits
      ((conv.drop 8).strlen fuel).bind fun start =>
        let conv : Str :=
          forRange (fun conv i => Function.update conv i 0x30) start (8 - start) conv
        putsConv s (conv.drop start) fuel

/-- `%u`. -/
def printUnsigned (s : PrintfState) (fuel : Nat) : Option PrintfState :=
  (Str.itoa (c.args s.esp) c.convBuf 10 fuel).bind fun conv => putsConv s conv fuel

/-- `%d`. -/
def printSigned (s : PrintfState) (fuel : Nat) : Option PrintfState :=
  let value := i32 (c.args s.esp)
  if value < 0 then
    let conv : Str := Function.update c.convBuf 0 0x2D
    (Str.itoa (u32 (-value)) (conv.drop 1) 10 fuel).bind fun digits =>
      putsConv s (conv.splice 1 digits) fuel
  else (Str.itoa (u32 value) c.convBuf 10 fuel).bind fun conv => putsConv s conv fuel

/-- From `format_char_switch` on, at a character behind the `%`. -/
def convert (alternate : Bool) (s : PrintfState) : Nat → Option PrintfState
  | 0 => none
  | fuel + 1 =>
      if c.format s.buf = 0x25 then some { s with dev := s.dev.putc 0x25 }
      else if c.format s.buf = 0x23 then convert true { s with buf := s.buf + 1 } fuel
      else if c.format s.buf = 0x78 then c.printHex alternate s fuel
      else if c.format s.buf = 0x75 then c.printUnsigned s fuel
      else if c.format s.buf = 0x64 then c.printSigned s fuel
      else if c.format s.buf = 0x63 then
        some { s with dev := s.dev.putc (UInt8.ofNat (c.args s.esp)), esp := s.esp + 1 }
      else if c.format s.buf = 0x73 then putsConv s (c.memory (c.args s.esp)) fuel
      else some s

/-- The loop over the format. -/
def loop (s : PrintfState) : Nat → Option PrintfState
  | 0 => none
  | fuel + 1 =>
      if c.format s.buf = 0 then some s
      else
        (if c.format s.buf = 0x25 then c.convert false { s with buf := s.buf + 1 } fuel
        else some { s with dev := s.dev.putc (c.format s.buf) }).bind fun s =>
          loop { s with buf := s.buf + 1 } fuel

/-- `printf`: the value returned, and the console. -/
def printf (d : Devices) (fuel : Nat) : Option (Nat × Devices) :=
  (c.loop ⟨d, 0, 0⟩ fuel).map fun s => (s.buf, s.dev)

end PrintfCall

/-! ## Formats -/

/-- A plain character, or a directive: a `%`, any number of `#`, and a character. -/
inductive Piece where
  | plain (char : UInt8) (h : char ≠ 0 ∧ char ≠ 0x25)
  | directive (hashes : Nat) (conv : UInt8) (h : conv ≠ 0 ∧ conv ≠ 0x23)

namespace Piece

/-- How the piece is written. -/
def text : Piece → List UInt8
  | plain char _ => [char]
  | directive hashes conv _ => 0x25 :: (List.replicate hashes 0x23 ++ [conv])

/-- How many words it takes from the stack. -/
def words : Piece → Nat
  | plain _ _ => 0
  | directive _ conv _ =>
      if conv = 0x78 ∨ conv = 0x75 ∨ conv = 0x64 ∨ conv = 0x63 ∨ conv = 0x73 then 1 else 0

/-- The numeral of a signed number. -/
def signedNumeral (value : Int) : List UInt8 :=
  if value < 0 then 0x2D :: numeral 10 (-value).toNat else numeral 10 value.toNat

/-- Eight hexadecimal digits. -/
def paddedHex (value : Nat) : List UInt8 :=
  List.replicate (8 - (numeral 16 value).length) 0x30 ++ numeral 16 value

/-- What it shows, for the word it takes and the strings at the pointers. -/
def shown (strings : Nat → List UInt8) (word : Nat) : Piece → List UInt8
  | plain char _ => [char]
  | directive hashes conv _ =>
      if conv = 0x25 then [0x25]
      else if conv = 0x78 then if hashes = 0 then numeral 16 word else paddedHex word
      else if conv = 0x75 then numeral 10 word
      else if conv = 0x64 then signedNumeral (i32 word)
      else if conv = 0x63 then [UInt8.ofNat word]
      else if conv = 0x73 then strings word
      else []

/-- It prints the string at a pointer. -/
def ShowsString : Piece → Prop
  | plain _ _ => False
  | directive _ conv _ => conv = 0x73

end Piece

/-- The text of a list of pieces. -/
def piecesText (ps : List Piece) : List UInt8 := ps.flatMap Piece.text

/-- What they show, from this word on. -/
def rendered (args : Nat → Nat) (strings : Nat → List UInt8) : List Piece → Nat → List UInt8
  | [], _ => []
  | p :: ps, esp => p.shown strings (args esp) ++ rendered args strings ps (esp + p.words)

/-- The strings are at the pointers that the pieces take. -/
def StringsAt (c : PrintfCall) (strings : Nat → List UInt8) : List Piece → Nat → Prop
  | [], _ => True
  | p :: ps, esp =>
      (p.ShowsString → Holds (c.memory (c.args esp)) (strings (c.args esp))) ∧
        StringsAt c strings ps (esp + p.words)

/-! ## `puts` -/

theorem puts_append (d : Devices) (s t : List UInt8) : d.puts (s ++ t) = (d.puts s).puts t :=
  List.foldl_append ..

theorem putsLoop_spec {s : Str} {text : List UInt8} (h : Holds s text) (d : Devices) (index : Nat)
    (hindex : index ≤ text.length) {fuel : Nat} (hfuel : text.length - index < fuel) :
    putsLoop d s index fuel = some (d.puts (text.drop index), text.length) := by
  induction fuel generalizing d index with
  | zero => omega
  | succ fuel ih =>
      rw [putsLoop]
      by_cases hend : index = text.length
      · rw [if_neg (by rw [hend, h.nul]; simp), hend, List.drop_length]
        rfl
      · have hlt : index < text.length := by omega
        have hne : s index ≠ 0 := by
          rw [h.char index hlt]
          exact h.nonzero _ (List.getElem_mem hlt)
        rw [if_pos hne, ih _ _ (by omega) (by omega), h.char index hlt,
          List.drop_eq_getElem_cons hlt]
        rfl

theorem putsConv_settles {conv : Str} {text : List UInt8} (h : Holds conv text) (s : PrintfState) :
    Settles (PrintfCall.putsConv s conv)
      { s with dev := s.dev.puts text, esp := s.esp + 1 } := by
  refine .of_le (text.length + 1) ?_
  intro fuel hfuel
  rw [PrintfCall.putsConv, putsLoop_spec h s.dev 0 (Nat.zero_le _) (by omega)]
  rfl

/-! ## The numbers -/

theorem itoa_settles {radix : Nat} (hlo : 2 ≤ radix) (hhi : radix ≤ 36) (value : Nat) (buf : Str) :
    Settles (Str.itoa value buf radix) (buf.written (numeral radix value)) := by
  refine .of_le (value + (numeral radix value).length + 2) ?_
  intro fuel hfuel
  exact Str.itoa_eq hlo hhi (by omega)

/-- A number behind other characters. -/
theorem holds_splice (s : Str) (before : List UInt8) {t : Str} {text : List UInt8}
    (hbefore : ∀ c ∈ before, c ≠ 0) (hchars : ∀ i (hi : i < before.length), s i = before[i])
    (h : Holds t text) :
    Holds (s.splice before.length t) (before ++ text) := by
  refine ⟨?_, ?_, ?_⟩
  · intro i hi
    rw [Str.splice]
    by_cases hin : i < before.length
    · rw [if_pos hin, hchars i hin, List.getElem_append_left hin]
    · rw [List.length_append] at hi
      rw [if_neg hin, h.char _ (by omega), List.getElem_append_right (by omega)]
  · intro c hc
    rcases List.mem_append.1 hc with hc | hc
    · exact hbefore c hc
    · exact h.nonzero c hc
  · rw [Str.splice, List.length_append, if_neg (by omega), Nat.add_sub_cancel_left, h.nul]

theorem printUnsigned_settles (c : PrintfCall) (s : PrintfState) :
    Settles (c.printUnsigned s)
      { s with dev := s.dev.puts (numeral 10 (c.args s.esp)), esp := s.esp + 1 } :=
  (itoa_settles (by omega) (by omega) _ _).bind
    (putsConv_settles (Str.holds_written _ (numeral_ne_zero (by omega) (by omega) _)) s)

theorem printSigned_settles (c : PrintfCall) (s : PrintfState) :
    Settles (c.printSigned s)
      { s with
        dev := s.dev.puts (Piece.signedNumeral (i32 (c.args s.esp)))
        esp := s.esp + 1 } := by
  have hlt := c.args_lt s.esp
  have hrange : -0x80000000 ≤ i32 (c.args s.esp) ∧ i32 (c.args s.esp) < 0x80000000 := by
    unfold i32
    split_ifs
    · omega
    · omega
  generalize hvalue : i32 (c.args s.esp) = value at hrange ⊢
  by_cases hneg : value < 0
  · have hu32 : u32 (-value) = (-value).toNat := by
      unfold u32
      omega
    have htext : Piece.signedNumeral value = [0x2D] ++ numeral 10 (-value).toNat := if_pos hneg
    rw [htext]
    have hholds := holds_splice (Function.update c.convBuf 0 0x2D) [0x2D]
      (fun c hc => by
        rw [List.mem_singleton.1 hc]
        decide)
      (fun i hi => by
        obtain rfl : i = 0 := Nat.lt_one_iff.1 hi
        rfl)
      (Str.holds_written (Str.drop (Function.update c.convBuf 0 0x2D) 1)
        (numeral_ne_zero (by omega : 2 ≤ 10) (by omega) (-value).toNat))
    refine ((itoa_settles (by omega : 2 ≤ 10) (by omega) (-value).toNat _).bind
      (k := fun digits => PrintfCall.putsConv s
        (Str.splice (Function.update c.convBuf 0 0x2D) 1 digits))
      (putsConv_settles hholds s)).congr ?_
    intro fuel
    simp only [PrintfCall.printSigned, hvalue, if_pos hneg, hu32]
  · have hu32 : u32 value = value.toNat := by
      unfold u32
      omega
    have htext : Piece.signedNumeral value = numeral 10 value.toNat := if_neg hneg
    rw [htext]
    have hholds := Str.holds_written c.convBuf
      (numeral_ne_zero (by omega : 2 ≤ 10) (by omega) value.toNat)
    refine ((itoa_settles (by omega : 2 ≤ 10) (by omega) value.toNat c.convBuf).bind
      (putsConv_settles hholds s)).congr ?_
    intro fuel
    simp only [PrintfCall.printSigned, hvalue, if_neg hneg, hu32]

theorem numeral_hex_length (c : PrintfCall) (esp : Nat) :
    (numeral 16 (c.args esp)).length ≤ 8 := by
  unfold numeral
  split_ifs
  · exact Nat.le_of_ble_eq_true rfl
  · rw [List.length_map, List.length_reverse, Nat.digits_length_le_iff (by omega)]
    exact c.args_lt esp

/-- The loop that writes zeros in front of the number. -/
theorem fillZeros (conv : Str) (start n : Nat) : ∀ i,
    forRange (fun conv i => Function.update conv i 0x30) start n conv i =
      if start ≤ i ∧ i < start + n then 0x30 else conv i := by
  refine forRange_invariant
    (P := fun n (s : Str) => ∀ i, s i = if start ≤ i ∧ i < start + n then 0x30 else conv i) ?_ ?_
  · intro i
    rw [if_neg (by omega)]
  · intro n s _ hs i
    by_cases hi : i = start + n
    · rw [hi, Function.update_self, if_pos (by omega)]
    · rw [Function.update_of_ne hi, hs i]
      by_cases hin : start ≤ i ∧ i < start + n
      · rw [if_pos hin, if_pos (by omega)]
      · rw [if_neg hin, if_neg (by omega)]

theorem printHex_settles (c : PrintfCall) (alternate : Bool) (s : PrintfState) :
    Settles (c.printHex alternate s)
      { s with
        dev := s.dev.puts (if alternate then Piece.paddedHex (c.args s.esp)
          else numeral 16 (c.args s.esp))
        esp := s.esp + 1 } := by
  have hchars := numeral_ne_zero (by omega : 2 ≤ 16) (by omega) (c.args s.esp)
  cases alternate with
  | false =>
      refine ((itoa_settles (by omega : 2 ≤ 16) (by omega) (c.args s.esp) c.convBuf).bind
        (putsConv_settles (Str.holds_written _ hchars) s)).congr ?_
      intro fuel
      rfl
  | true =>
      have hlen := numeral_hex_length c s.esp
      have hholds := Str.holds_written (c.convBuf.drop 8) hchars
      generalize hdigits : (c.convBuf.drop 8).written (numeral 16 (c.args s.esp)) = digits at hholds
      generalize htext : numeral 16 (c.args s.esp) = text at hholds hlen
      -- the number stands from 8 on, and the zeros between its length and 8
      have hpadded : Holds (Str.drop (forRange (fun conv i => Function.update conv i 0x30)
          text.length (8 - text.length) (c.convBuf.splice 8 digits)) text.length)
          (List.replicate (8 - text.length) 0x30 ++ text) := by
        have hsplit : Str.drop (forRange (fun conv i => Function.update conv i 0x30)
            text.length (8 - text.length) (c.convBuf.splice 8 digits)) text.length =
            Str.splice (fun _ => 0x30) (List.replicate (8 - text.length) (0x30 : UInt8)).length
              digits := by
          funext i
          rw [Str.drop, fillZeros, Str.splice, Str.splice, List.length_replicate]
          by_cases hi : i < 8 - text.length
          · rw [if_pos hi, if_pos (by omega)]
          · have hindex : text.length + i - 8 = i - (8 - text.length) := by omega
            rw [if_neg hi, if_neg (by omega), if_neg (by omega), hindex]
        rw [hsplit]
        refine holds_splice _ _ ?_ ?_ hholds
        · intro char hchar
          rw [(List.mem_replicate.1 hchar).2]
          decide
        · intro i hi
          rw [List.getElem_replicate]
      have hlength : Settles (fun fuel => ((c.convBuf.splice 8 digits).drop 8).strlen fuel)
          text.length := by
        rw [Str.drop_splice]
        exact .of_le (text.length + 1) fun fuel hfuel => Str.strlen_spec hholds (by omega)
      have hitoa := itoa_settles (by omega : 2 ≤ 16) (by omega) (c.args s.esp) (c.convBuf.drop 8)
      rw [htext] at hitoa hdigits
      rw [hdigits] at hitoa
      have hshown : Piece.paddedHex (c.args s.esp) =
          List.replicate (8 - text.length) 0x30 ++ text := by
        rw [Piece.paddedHex, htext]
      rw [if_pos rfl, hshown]
      have htail := hlength.bind (k := fun start => PrintfCall.putsConv s
        (Str.drop (forRange (fun conv i => Function.update conv i 0x30) start (8 - start)
          (c.convBuf.splice 8 digits)) start)) (putsConv_settles hpadded s)
      refine (hitoa.bind (k := fun digits fuel =>
        (((c.convBuf.splice 8 digits).drop 8).strlen fuel).bind fun start =>
          PrintfCall.putsConv s
            (Str.drop (forRange (fun conv i => Function.update conv i 0x30) start (8 - start)
              (c.convBuf.splice 8 digits)) start) fuel) htail).congr ?_
      intro fuel
      rfl

/-! ## One directive -/

/-- The character behind the `#`. -/
theorem convert_conv (c : PrintfCall) (strings : Nat → List UInt8) (hashes : Nat) {conv : UInt8}
    (h : conv ≠ 0 ∧ conv ≠ 0x23) (s : PrintfState) (hconv : c.format s.buf = conv)
    (hstring : conv = 0x73 → Holds (c.memory (c.args s.esp)) (strings (c.args s.esp))) :
    Settles (c.convert (decide (hashes ≠ 0)) s)
      { s with
        dev := s.dev.puts ((Piece.directive hashes conv h).shown strings (c.args s.esp))
        esp := s.esp + (Piece.directive hashes conv h).words } := by
  simp only [Piece.shown, Piece.words]
  by_cases hpercent : conv = 0x25
  · rw [if_pos hpercent, if_neg (by rw [hpercent]; decide)]
    refine .succ ?_ (.pure _)
    intro fuel
    rw [PrintfCall.convert, hconv, if_pos hpercent]
    rfl
  · have hskip (fuel : Nat) : c.convert (decide (hashes ≠ 0)) s (fuel + 1) =
        if conv = 0x78 then c.printHex (decide (hashes ≠ 0)) s fuel
        else if conv = 0x75 then c.printUnsigned s fuel
        else if conv = 0x64 then c.printSigned s fuel
        else if conv = 0x63 then
          some { s with dev := s.dev.putc (UInt8.ofNat (c.args s.esp)), esp := s.esp + 1 }
        else if conv = 0x73 then PrintfCall.putsConv s (c.memory (c.args s.esp)) fuel
        else some s := by
      rw [PrintfCall.convert, hconv, if_neg hpercent, if_neg h.2]
    rw [if_neg hpercent]
    by_cases hx : conv = 0x78
    · have hhex := printHex_settles c (decide (hashes ≠ 0)) s
      by_cases hzero : hashes = 0
      · rw [if_pos hx, if_pos hzero, if_pos (Or.inl hx)]
        refine .succ (fun fuel => (hskip fuel).trans (if_pos hx)) ?_
        rw [decide_eq_false (not_not.2 hzero)] at hhex ⊢
        exact hhex
      · rw [if_pos hx, if_neg hzero, if_pos (Or.inl hx)]
        refine .succ (fun fuel => (hskip fuel).trans (if_pos hx)) ?_
        rw [decide_eq_true hzero] at hhex ⊢
        exact hhex
    · rw [if_neg hx]
      by_cases hu : conv = 0x75
      · rw [if_pos hu, if_pos (.inr (.inl hu))]
        exact .succ (fun fuel => (hskip fuel).trans ((if_neg hx).trans (if_pos hu)))
          (printUnsigned_settles c s)
      · rw [if_neg hu]
        by_cases hd : conv = 0x64
        · rw [if_pos hd, if_pos (.inr (.inr (.inl hd)))]
          exact .succ (fun fuel => (hskip fuel).trans
            ((if_neg hx).trans ((if_neg hu).trans (if_pos hd)))) (printSigned_settles c s)
        · rw [if_neg hd]
          by_cases hc : conv = 0x63
          · rw [if_pos hc, if_pos (.inr (.inr (.inr (.inl hc))))]
            exact .succ (fun fuel => (hskip fuel).trans ((if_neg hx).trans ((if_neg hu).trans
              ((if_neg hd).trans (if_pos hc))))) (.pure _)
          · rw [if_neg hc]
            by_cases hs : conv = 0x73
            · rw [if_pos hs, if_pos (.inr (.inr (.inr (.inr hs))))]
              exact .succ (fun fuel => (hskip fuel).trans ((if_neg hx).trans ((if_neg hu).trans
                ((if_neg hd).trans ((if_neg hc).trans (if_pos hs))))))
                (putsConv_settles (hstring hs) s)
            · have hnone : ¬ (conv = 0x78 ∨ conv = 0x75 ∨ conv = 0x64 ∨ conv = 0x63 ∨
                  conv = 0x73) := by
                tauto
              rw [if_neg hs, if_neg hnone]
              exact .succ (fun fuel => (hskip fuel).trans ((if_neg hx).trans ((if_neg hu).trans
                ((if_neg hd).trans ((if_neg hc).trans (if_neg hs)))))) (.pure _)

/-- The `#` of a directive. -/
theorem convert_hashes (c : PrintfCall) (hashes : Nat) (alternate : Bool) (s s' : PrintfState)
    (hchars : ∀ i < hashes, c.format (s.buf + i) = 0x23)
    (h : Settles (c.convert (alternate || decide (hashes ≠ 0)) { s with buf := s.buf + hashes })
      s') :
    Settles (c.convert alternate s) s' := by
  induction hashes generalizing alternate s with
  | zero =>
      rw [decide_eq_false (not_not.2 rfl), Bool.or_false] at h
      exact h
  | succ hashes ih =>
      have hfirst : c.format s.buf = 0x23 := hchars 0 (by omega)
      refine .succ (g := c.convert true { s with buf := s.buf + 1 }) ?_ ?_
      · intro fuel
        rw [PrintfCall.convert, hfirst, if_neg (by decide), if_pos rfl]
      · refine ih true _ ?_ ?_
        · intro i hi
          have hplace : s.buf + 1 + i = s.buf + (i + 1) := by omega
          rw [hplace]
          exact hchars (i + 1) (by omega)
        · have hplace : s.buf + 1 + hashes = s.buf + (hashes + 1) := by omega
          rw [decide_eq_true (Nat.succ_ne_zero hashes), Bool.or_true] at h
          rw [Bool.true_or, hplace]
          exact h

/-! ## The whole format -/

/-- The first part of a text, and what stands behind it. -/
theorem Holds.split {s : Str} {n : Nat} {front back : List UInt8}
    (h : Holds (s.drop n) (front ++ back)) :
    (∀ i (hi : i < front.length), s (n + i) = front[i]) ∧
      Holds (s.drop (n + front.length)) back := by
  have hplace (i : Nat) : s (n + front.length + i) = s.drop n (front.length + i) := by
    rw [Str.drop, Nat.add_assoc]
  refine ⟨?_, ?_, ?_, ?_⟩
  · intro i hi
    have hchar := h.char i (by rw [List.length_append]; omega)
    rw [List.getElem_append_left hi] at hchar
    exact hchar
  · intro i hi
    show s (n + front.length + i) = back[i]
    rw [hplace, h.char _ (by rw [List.length_append]; omega),
      List.getElem_append_right (by omega)]
    simp only [Nat.add_sub_cancel_left]
  · intro char hchar
    exact h.nonzero char (List.mem_append_right _ hchar)
  · show s (n + front.length + back.length) = 0
    rw [hplace, ← List.length_append, h.nul]

/-- The words that the pieces take. -/
def wordsTaken (ps : List Piece) : Nat := (ps.map Piece.words).sum

/-- One piece, and then the rest of the loop. -/
theorem loop_piece (c : PrintfCall) (strings : Nat → List UInt8) (p : Piece) (s s' : PrintfState)
    (hchars : ∀ i (hi : i < p.text.length), c.format (s.buf + i) = p.text[i])
    (hstring : p.ShowsString → Holds (c.memory (c.args s.esp)) (strings (c.args s.esp)))
    (h : Settles (c.loop
      { dev := s.dev.puts (p.shown strings (c.args s.esp))
        buf := s.buf + p.text.length
        esp := s.esp + p.words }) s') :
    Settles (c.loop s) s' := by
  cases p with
  | plain char hchar =>
      have hfirst : c.format s.buf = char := hchars 0 (Nat.zero_lt_one)
      refine .succ (g := c.loop ⟨s.dev.putc char, s.buf + 1, s.esp⟩) ?_ h
      intro fuel
      rw [PrintfCall.loop, hfirst, if_neg hchar.1, if_neg hchar.2]
      rfl
  | directive hashes conv hconv =>
      have hlen : (Piece.directive hashes conv hconv).text.length = hashes + 2 := by
        simp [Piece.text]
      have hfirst : c.format s.buf = 0x25 := hchars 0 (by omega)
      have hhashes : ∀ i < hashes, c.format (s.buf + 1 + i) = 0x23 := by
        intro i hi
        have hplace : s.buf + 1 + i = s.buf + (i + 1) := by omega
        rw [hplace, hchars (i + 1) (by omega)]
        simp only [Piece.text, List.getElem_cons_succ]
        rw [List.getElem_append_left (by rw [List.length_replicate]; exact hi),
          List.getElem_replicate]
      have hlast : c.format (s.buf + 1 + hashes) = conv := by
        have hplace : s.buf + 1 + hashes = s.buf + (hashes + 1) := by omega
        rw [hplace, hchars (hashes + 1) (by omega)]
        simp [Piece.text]
      have hconvert := convert_hashes c hashes false { s with buf := s.buf + 1 } _ hhashes
        (convert_conv c strings hashes hconv { s with buf := s.buf + 1 + hashes } hlast hstring)
      have hplace : s.buf + (hashes + 2) = s.buf + 1 + hashes + 1 := by omega
      rw [hlen, hplace] at h
      refine .succ ?_ (hconvert.bind (k := fun s => c.loop { s with buf := s.buf + 1 }) h)
      intro fuel
      rw [PrintfCall.loop, hfirst, if_neg (by decide), if_pos rfl]

theorem loop_pieces (c : PrintfCall) (strings : Nat → List UInt8) (ps : List Piece)
    (rest : List UInt8) (s s' : PrintfState)
    (hformat : Holds (c.format.drop s.buf) (piecesText ps ++ rest))
    (hstrings : StringsAt c strings ps s.esp)
    (h : Settles (c.loop
      { dev := s.dev.puts (rendered c.args strings ps s.esp)
        buf := s.buf + (piecesText ps).length
        esp := s.esp + wordsTaken ps }) s') :
    Settles (c.loop s) s' := by
  induction ps generalizing s with
  | nil => exact h
  | cons p ps ih =>
      have htext : piecesText (p :: ps) = p.text ++ piecesText ps := List.flatMap_cons ..
      rw [htext, List.append_assoc] at hformat
      obtain ⟨hchars, hrest⟩ := hformat.split
      refine loop_piece c strings p s s' hchars hstrings.1 (ih _ hrest hstrings.2 ?_)
      have hbuf : s.buf + p.text.length + (piecesText ps).length =
          s.buf + (piecesText (p :: ps)).length := by
        rw [htext, List.length_append, Nat.add_assoc]
      have hesp : s.esp + p.words + wordsTaken ps = s.esp + wordsTaken (p :: ps) := by
        rw [wordsTaken, wordsTaken, List.map_cons, List.sum_cons, Nat.add_assoc]
      rw [rendered, puts_append, ← hbuf, ← hesp] at h
      exact h

/-! ## Every format -/

theorem leading_hashes (text : List UInt8) : ∃ n rest,
    text = List.replicate n 0x23 ++ rest ∧ ∀ char ∈ rest.head?, char ≠ 0x23 := by
  induction text with
  | nil => exact ⟨0, [], rfl, by simp⟩
  | cons char text ih =>
      by_cases hhash : char = 0x23
      · obtain ⟨n, rest, htext, hrest⟩ := ih
        exact ⟨n + 1, rest, by rw [hhash, htext]; rfl, hrest⟩
      · refine ⟨0, char :: text, rfl, ?_⟩
        intro first hfirst
        obtain rfl := Option.some.inj hfirst
        exact hhash

/-- A format is a list of pieces, or it ends within a directive. -/
theorem pieces_cover (text : List UInt8) (hne : ∀ char ∈ text, char ≠ 0) :
    ∃ ps, text = piecesText ps ∨ ∃ hashes,
      text = piecesText ps ++ 0x25 :: List.replicate hashes 0x23 := by
  induction hlen : text.length using Nat.strong_induction_on generalizing text with
  | h len ih =>
  cases text with
  | nil => exact ⟨[], .inl rfl⟩
  | cons first text =>
      rw [List.length_cons] at hlen
      -- what one piece in front does to either form
      have hstep (p : Piece) (rest : List UInt8) (htext : first :: text = p.text ++ rest) :
          ∃ ps, first :: text = piecesText ps ∨ ∃ hashes,
            first :: text = piecesText ps ++ 0x25 :: List.replicate hashes 0x23 := by
        have hpos : 0 < p.text.length := by
          cases p <;> simp [Piece.text]
        have hlength := congrArg List.length htext
        rw [List.length_cons, List.length_append] at hlength
        obtain ⟨ps, hps⟩ := ih rest.length (by omega) rest (fun char hchar =>
          hne char (htext ▸ List.mem_append_right _ hchar)) rfl
        have hcons : piecesText (p :: ps) = p.text ++ piecesText ps := List.flatMap_cons ..
        refine ⟨p :: ps, ?_⟩
        rw [hcons, htext]
        rcases hps with hps | ⟨hashes, hps⟩
        · exact .inl (by rw [hps])
        · exact .inr ⟨hashes, by rw [hps, List.append_assoc]⟩
      by_cases hpercent : first = 0x25
      · obtain ⟨hashes, rest, htext, hrest⟩ := leading_hashes text
        cases rest with
        | nil =>
            rw [List.append_nil] at htext
            exact ⟨[], .inr ⟨hashes, by rw [hpercent, htext]; rfl⟩⟩
        | cons conv rest =>
            have hconv : conv ∈ first :: text := by
              rw [htext]
              simp
            refine hstep (.directive hashes conv ⟨hne conv hconv, hrest conv rfl⟩) rest ?_
            rw [hpercent, htext, Piece.text]
            simp
      · exact hstep (.plain first ⟨hne first (List.mem_cons_self ..), hpercent⟩) text rfl

/-- At the NUL behind a `%` the loop does not stop: it goes on with what stands behind the
format. -/
theorem loop_dangling (c : PrintfCall) (hashes : Nat) (s s' : PrintfState)
    (hformat : Holds (c.format.drop s.buf) (0x25 :: List.replicate hashes 0x23))
    (h : Settles (c.loop { s with buf := s.buf + (hashes + 1) + 1 }) s') :
    Settles (c.loop s) s' := by
  have hfirst : c.format s.buf = 0x25 := hformat.char 0 (by simp)
  have hhashes : ∀ i < hashes, c.format (s.buf + 1 + i) = 0x23 := by
    intro i hi
    have hplace : s.buf + 1 + i = s.buf + (i + 1) := by omega
    have hchar := hformat.char (i + 1) (by simpa using hi)
    rw [List.getElem_cons_succ, List.getElem_replicate] at hchar
    rw [hplace]
    exact hchar
  have hnul : c.format (s.buf + 1 + hashes) = 0 := by
    have hend := hformat.nul
    rw [List.length_cons, List.length_replicate] at hend
    have hplace : s.buf + 1 + hashes = s.buf + (hashes + 1) := by omega
    rw [hplace]
    exact hend
  have hplace : s.buf + 1 + hashes = s.buf + (hashes + 1) := by omega
  have hconvert : Settles (c.convert (false || decide (hashes ≠ 0))
      { s with buf := s.buf + 1 + hashes }) { s with buf := s.buf + 1 + hashes } := by
    refine .succ ?_ (.pure _)
    intro fuel
    rw [PrintfCall.convert, hnul]
    rfl
  rw [← hplace] at h
  refine .succ ?_ ((convert_hashes c hashes false { s with buf := s.buf + 1 } _ hhashes
    hconvert).bind (k := fun s => c.loop { s with buf := s.buf + 1 }) h)
  intro fuel
  rw [PrintfCall.loop, hfirst, if_neg (by decide), if_pos rfl]

theorem loop_nul (c : PrintfCall) (s : PrintfState) (h : c.format s.buf = 0) :
    Settles (c.loop s) s := by
  refine .succ ?_ (.pure _)
  intro fuel
  rw [PrintfCall.loop, h, if_pos rfl]

theorem printf_loop (c : PrintfCall) (d : Devices) {s : PrintfState}
    (h : Settles (c.loop ⟨d, 0, 0⟩) s) : Settles (c.printf d) (s.buf, s.dev) := by
  refine (h.bind (k := fun s _ => some (s.buf, s.dev)) (.pure _)).congr ?_
  intro fuel
  rw [PrintfCall.printf, Option.map_eq_bind]
  rfl

/-- What `printf` prints and returns for a list of pieces. -/
theorem printf_pieces (c : PrintfCall) (d : Devices) (strings : Nat → List UInt8)
    (ps : List Piece) (h : Holds c.format (piecesText ps)) (hstrings : StringsAt c strings ps 0) :
    Settles (c.printf d)
      ((piecesText ps).length, d.puts (rendered c.args strings ps 0)) := by
  have hformat : Holds (c.format.drop 0) (piecesText ps ++ []) := by
    rw [Str.drop_zero, List.append_nil]
    exact h
  refine printf_loop c d (s := ⟨_, (piecesText ps).length, wordsTaken ps⟩)
    (loop_pieces c strings ps [] ⟨d, 0, 0⟩ _ hformat hstrings ?_)
  simp only [Nat.zero_add]
  exact loop_nul c _ h.nul

/-! ## What a format and its strings are -/

/-- A row of one character ends at the first other character. -/
theorem replicate_cons_inj {a x y : UInt8} {m n : Nat} {s t : List UInt8} (hx : x ≠ a)
    (hy : y ≠ a) (h : List.replicate m a ++ x :: s = List.replicate n a ++ y :: t) :
    m = n ∧ x = y ∧ s = t := by
  induction m generalizing n with
  | zero =>
      cases n with
      | zero => exact ⟨rfl, List.cons.inj h⟩
      | succ n => exact absurd (List.cons.inj h).1 hx
  | succ m ih =>
      cases n with
      | zero => exact absurd (List.cons.inj h).1.symm hy
      | succ n =>
          obtain ⟨hlength, hrest⟩ := ih (List.cons.inj h).2
          exact ⟨congrArg Nat.succ hlength, hrest⟩

/-- A format can be read in one way only. -/
theorem piecesText_injective {ps ps' : List Piece} (h : piecesText ps = piecesText ps') :
    ps = ps' := by
  induction ps generalizing ps' with
  | nil =>
      cases ps' with
      | nil => rfl
      | cons p' ps' => cases p' <;> cases h
  | cons p ps ih =>
      cases ps' with
      | nil => cases p <;> cases h
      | cons p' ps' =>
          have hcons : p.text ++ piecesText ps = p'.text ++ piecesText ps' := h
          cases p with
          | plain char hchar =>
              cases p' with
              | plain char' hchar' =>
                  obtain ⟨rfl, hrest⟩ := List.cons.inj hcons
                  rw [ih hrest]
              | directive hashes' conv' hconv' =>
                  exact absurd (List.cons.inj hcons).1 hchar.2
          | directive hashes conv hconv =>
              cases p' with
              | plain char' hchar' => exact absurd (List.cons.inj hcons).1.symm hchar'.2
              | directive hashes' conv' hconv' =>
                  have htail : List.replicate hashes 0x23 ++ [conv] ++ piecesText ps =
                      List.replicate hashes' 0x23 ++ [conv'] ++ piecesText ps' :=
                    (List.cons.inj hcons).2
                  rw [List.append_assoc, List.append_assoc] at htail
                  obtain ⟨rfl, rfl, hrest⟩ := replicate_cons_inj hconv.2 hconv'.2 htail
                  rw [ih hrest]

theorem stringsAt_of_none (c : PrintfCall) (strings : Nat → List UInt8) {ps : List Piece}
    (h : ∀ p ∈ ps, ¬ p.ShowsString) (esp : Nat) : StringsAt c strings ps esp := by
  induction ps generalizing esp with
  | nil => trivial
  | cons p ps ih =>
      exact ⟨fun hp => absurd hp (h p (List.mem_cons_self ..)),
        ih (fun p hp => h p (List.mem_cons_of_mem _ hp)) _⟩

theorem stringsAt_of_all (c : PrintfCall) (strings : Nat → List UInt8)
    (h : ∀ word, Holds (c.memory word) (strings word)) (ps : List Piece) (esp : Nat) :
    StringsAt c strings ps esp := by
  induction ps generalizing esp with
  | nil => trivial
  | cons p ps ih => exact ⟨fun _ => h _, ih _⟩

theorem holds_chars {text : String} (h : (chars text).all (· != 0) = true) :
    Holds (Str.written (fun _ => 0xAA) (chars text)) (chars text) := by
  refine Str.holds_written _ ?_
  intro char hchar
  have hne := List.all_eq_true.1 h char hchar
  exact bne_iff_ne.1 hne

theorem plain_chars {text : String}
    (h : (chars text).all (fun char => char != 0 && char != 0x25) = true) :
    ∀ char ∈ chars text, char ≠ 0 ∧ char ≠ 0x25 := by
  intro char hchar
  have hne := List.all_eq_true.1 h char hchar
  rw [Bool.and_eq_true, bne_iff_ne, bne_iff_ne] at hne
  exact hne

/-- A text without a `%`, as pieces. -/
def plains (text : List UInt8) (h : ∀ char ∈ text, char ≠ 0 ∧ char ≠ 0x25) : List Piece :=
  text.pmap Piece.plain h

theorem piecesText_plains (text : List UInt8) (h : ∀ char ∈ text, char ≠ 0 ∧ char ≠ 0x25)
    (ps : List Piece) : piecesText (plains text h ++ ps) = text ++ piecesText ps := by
  induction text with
  | nil => rfl
  | cons char text ih =>
      have htail := ih fun char hchar => h char (List.mem_cons_of_mem _ hchar)
      show char :: piecesText (plains text _ ++ ps) = char :: (text ++ piecesText ps)
      rw [htail]

theorem rendered_plains (args : Nat → Nat) (strings : Nat → List UInt8) (text : List UInt8)
    (h : ∀ char ∈ text, char ≠ 0 ∧ char ≠ 0x25) (ps : List Piece) (esp : Nat) :
    rendered args strings (plains text h ++ ps) esp = text ++ rendered args strings ps esp := by
  induction text with
  | nil => rfl
  | cons char text ih =>
      have htail := ih fun char hchar => h char (List.mem_cons_of_mem _ hchar)
      show char :: rendered args strings (plains text _ ++ ps) esp = char :: (text ++ _)
      rw [htail]

/-! ## Every format -/

/-- What `printf` prints and returns for every format; one that ends within a directive makes it
read on behind the NUL. -/
theorem printf_every_format (c : PrintfCall) (d : Devices) (strings : Nat → List UInt8)
    (text : List UInt8) (h : Holds c.format text) :
    ∃ ps, (text = piecesText ps ∧ (StringsAt c strings ps 0 →
        Settles (c.printf d) (text.length, d.puts (rendered c.args strings ps 0)))) ∨
      ∃ hashes, text = piecesText ps ++ 0x25 :: List.replicate hashes 0x23 ∧
        (StringsAt c strings ps 0 → ∀ s, Settles (c.loop
          ⟨d.puts (rendered c.args strings ps 0), text.length + 1, wordsTaken ps⟩) s →
          Settles (c.printf d) (s.buf, s.dev)) := by
  obtain ⟨ps, rfl | ⟨hashes, htext⟩⟩ := pieces_cover text h.nonzero
  · exact ⟨ps, .inl ⟨rfl, printf_pieces c d strings ps h⟩⟩
  · refine ⟨ps, .inr ⟨hashes, htext, ?_⟩⟩
    intro hstrings s hs
    have hformat : Holds (c.format.drop 0)
        (piecesText ps ++ 0x25 :: List.replicate hashes 0x23) := by
      rw [Str.drop_zero, ← htext]
      exact h
    have hlength : text.length = (piecesText ps).length + (hashes + 1) := by
      rw [htext, List.length_append, List.length_cons, List.length_replicate]
    rw [hlength] at hs
    refine printf_loop c d (loop_pieces c strings ps _ ⟨d, 0, 0⟩ s hformat hstrings ?_)
    refine loop_dangling c hashes _ s hformat.split.2 ?_
    simp only [Nat.zero_add]
    exact hs

/-- The call with which the kernel shows its command line, here the string "quiet". -/
def cmdlineCall : PrintfCall where
  format := Str.written (fun _ => 0xAA) (chars "cmdline = %s\n")
  args := fun _ => 0x9500
  memory := fun _ => Str.written (fun _ => 0xAA) (chars "quiet")
  convBuf := fun _ => 0xAA
  args_lt := fun _ => by omega

theorem cmdlineCall_format : Holds cmdlineCall.format (chars "cmdline = %s\n") :=
  holds_chars (by decide)

theorem cmdlineText_plain : ∀ char ∈ chars "cmdline = ", char ≠ 0 ∧ char ≠ 0x25 :=
  plain_chars (by decide)

/-- `"cmdline = %s\n"`. -/
def cmdlineFormat : List Piece :=
  plains (chars "cmdline = ") cmdlineText_plain ++
    [.directive 0 0x73 (by decide), .plain 0x0A (by decide)]

theorem piecesText_cmdlineFormat : piecesText cmdlineFormat = chars "cmdline = %s\n" := by
  rw [cmdlineFormat, piecesText_plains]
  rfl

theorem printf_every_format_cmdline :
    Settles (cmdlineCall.printf (Devices.boot fun _ => 0))
      (13, (Devices.boot fun _ => 0).puts (chars "cmdline = quiet\n")) := by
  have hmemory : ∀ word, Holds (cmdlineCall.memory word) (chars "quiet") := fun _ =>
    holds_chars (by decide)
  obtain ⟨ps, ⟨htext, hprint⟩ | ⟨hashes, htext, -⟩⟩ :=
    printf_every_format cmdlineCall (Devices.boot fun _ => 0) (fun _ => chars "quiet") _
      cmdlineCall_format
  · obtain rfl := piecesText_injective (piecesText_cmdlineFormat.trans htext)
    have hshown : rendered cmdlineCall.args (fun _ => chars "quiet") cmdlineFormat 0 =
        chars "cmdline = quiet\n" := by
      rw [cmdlineFormat, rendered_plains]
      rfl
    rw [← hshown]
    exact hprint (stringsAt_of_all cmdlineCall _ hmemory _ 0)
  · -- the format does not end within a directive
    have hlast := congrArg List.getLast? htext
    rw [List.getLast?_append_cons] at hlast
    cases hashes with
    | zero => cases hlast
    | succ hashes =>
        rw [List.getLast?_cons, List.getLast?_replicate] at hlast
        cases hlast

/-! ## A format of the kernel -/

theorem freqText_plain : ∀ char ∈ chars "Testing freq: ", char ≠ 0 ∧ char ≠ 0x25 :=
  plain_chars (by decide)

/-- `"Testing freq: %d\n"`. -/
def freqFormat : List Piece :=
  plains (chars "Testing freq: ") freqText_plain ++
    [.directive 0 0x64 (by decide), .plain 0x0A (by decide)]

theorem piecesText_freqFormat : piecesText freqFormat = chars "Testing freq: %d\n" := by
  rw [freqFormat, piecesText_plains]
  rfl

/-- The line that CTRL-1 prints is the one that `kbFreqTest` has. -/
theorem printf_freq (c : PrintfCall) (d : Devices) (freq : Nat)
    (hformat : Holds c.format (chars "Testing freq: %d\n")) (hfreq : c.args 0 = freq)
    (hsmall : freq < 0x80000000) :
    Settles (c.printf d)
      (17, d.puts (chars "Testing freq: " ++ chars (toString freq) ++ chars "\n")) := by
  have hvalue : i32 freq = freq := if_pos hsmall
  have hshown : rendered c.args (fun _ => []) freqFormat 0 =
      chars "Testing freq: " ++ chars (toString freq) ++ chars "\n" := by
    rw [freqFormat, rendered_plains]
    show _ ++ (Piece.signedNumeral (i32 (c.args 0)) ++ [0x0A]) = _
    rw [hfreq, hvalue, Piece.signedNumeral, if_neg (by omega), chars_toString, List.append_assoc]
    rfl
  have hstrings : ∀ p ∈ freqFormat, ¬ p.ShowsString := by
    intro p hp
    rcases List.mem_append.1 hp with hp | hp
    · obtain ⟨char, hchar, rfl⟩ := List.mem_pmap.1 hp
      exact id
    · rcases List.mem_cons.1 hp with rfl | hp
      · show ¬ (0x64 : UInt8) = 0x73
        decide
      · obtain rfl := List.mem_singleton.1 hp
        exact id
  have hprintf := printf_pieces c d (fun _ => []) freqFormat
    (piecesText_freqFormat.symm ▸ hformat) (stringsAt_of_none c _ hstrings 0)
  rw [hshown, piecesText_freqFormat] at hprintf
  exact hprintf

end Ece391Kernel
