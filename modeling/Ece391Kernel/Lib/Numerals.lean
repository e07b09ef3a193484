import Mathlib.Data.List.GetD
import Mathlib.Data.Nat.Digits.Lemmas
import Ece391Kernel.Devices.State

/-!
# `strlen`, `strrev` and `itoa`

The functions that work on a string in place, on the bytes from its pointer on. A loop runs until
it finds what it looks for, so each takes fuel. `itoa_eq` says what `itoa` writes, and
`itoa_round_trip` that it can be read back.
-/

namespace Ece391Kernel

/-- The bytes of memory from a pointer on. -/
abbrev Str := Nat → UInt8

/-- The string at the pointer, behind which stands a NUL. -/
structure Holds (s : Str) (text : List UInt8) : Prop where
  char : ∀ i (hi : i < text.length), s i = text[i]
  nonzero : ∀ c ∈ text, c ≠ 0
  nul : s text.length = 0

namespace Str

/-! ## The functions -/

/-- The loop of `strlen`. -/
def strlenLoop (s : Str) (len : Nat) : Nat → Option Nat
  | 0 => none
  | fuel + 1 => if s len ≠ 0 then strlenLoop s (len + 1) fuel else some len

/-- `strlen`. -/
def strlen (s : Str) (fuel : Nat) : Option Nat := s.strlenLoop 0 fuel

/-- The loop of `strrev`. -/
def strrevLoop (s : Str) (first last : Int) : Nat → Option Str
  | 0 => none
  | fuel + 1 =>
      if first < last then
        let tmp := s last.toNat
        let s := Function.update s last.toNat (s first.toNat)
        let s := Function.update s first.toNat tmp
        strrevLoop s (first + 1) (last - 1) fuel
      else some s

/-- `strrev`. -/
def strrev (s : Str) (fuel : Nat) : Option Str := do
  let len ← s.strlen fuel
  strrevLoop s 0 ((len : Int) - 1) fuel

/-- `lookup`. -/
def lookup : List UInt8 := chars "0123456789ABCDEFGHIJKLMNOPQRSTUVWXYZ"

/-- The loop of `itoa` over `newval`; `pos` is `newbuf - buf`. -/
def digitLoop (radix : Nat) (newval : Nat) (buf : Str) (pos : Nat) : Nat → Option (Str × Nat)
  | 0 => none
  | fuel + 1 =>
      if 0 < newval then
        digitLoop radix (newval / radix)
          (Function.update buf pos (lookup.getD (newval % radix) 0)) (pos + 1) fuel
      else some (buf, pos)

/-- `itoa`: what it leaves from `buf` on. -/
def itoa (value : Nat) (buf : Str) (radix fuel : Nat) : Option Str :=
  if value = 0 then some (Function.update (Function.update buf 0 0x30) 1 0)
  else do
    let (buf, pos) ← digitLoop radix value buf 0 fuel
    strrev (Function.update buf pos 0) fuel

/-! ## `strlen` and `strrev` -/

variable {s buf : Str} {text : List UInt8} {fuel : Nat}

theorem strlenLoop_spec (h : Holds s text) {len : Nat} (hlen : len ≤ text.length)
    (hfuel : text.length - len < fuel) : s.strlenLoop len fuel = some text.length := by
  induction fuel generalizing len with
  | zero => omega
  | succ fuel ih =>
      rw [strlenLoop]
      by_cases hend : len = text.length
      · rw [if_neg (by rw [hend, h.nul]; simp), hend]
      · have hlt : len < text.length := by omega
        have hne : s len ≠ 0 := by
          rw [h.char len hlt]
          exact h.nonzero _ (List.getElem_mem hlt)
        rw [if_pos hne]
        exact ih (by omega) (by omega)

theorem strlen_spec (h : Holds s text) (hfuel : text.length < fuel) :
    s.strlen fuel = some text.length :=
  strlenLoop_spec h (Nat.zero_le _) (by omega)

/-- The first `n` bytes in reverse order. -/
def reversed (s : Str) (n : Nat) : Str := fun i => if i < n then s (n - 1 - i) else s i

/-- After `k` rounds the first `k` and the last `k` of `n` bytes have changed places. -/
def Swapped (s₀ : Str) (n k : Nat) (s : Str) : Prop :=
  ∀ i, s i = if i < k ∨ n - 1 - k < i then reversed s₀ n i else s₀ i

/-- When the two ends have met, nothing is left to swap. -/
theorem Swapped.done {s₀ : Str} {n k : Nat} (h : Swapped s₀ n k s) (hn : 0 < n)
    (hk : n ≤ 2 * k + 1) : s = reversed s₀ n := by
  funext i
  rw [h i]
  split_ifs with hin
  · rfl
  · have hmid : n - 1 - i = i := by omega
    rw [reversed, if_pos (by omega), hmid]

/-- One round. -/
theorem Swapped.swap {s₀ : Str} {n k : Nat} (h : Swapped s₀ n k s) (hk : 2 * k + 1 < n) :
    Swapped s₀ n (k + 1)
      (Function.update (Function.update s (n - 1 - k) (s k)) k (s (n - 1 - k))) := by
  intro i
  have hfirst : s k = s₀ k := by
    rw [h k, if_neg (by omega)]
  have hlast : s (n - 1 - k) = s₀ (n - 1 - k) := by
    rw [h (n - 1 - k), if_neg (by omega)]
  by_cases hik : i = k
  · rw [hik, Function.update_self, if_pos (by omega), reversed, if_pos (by omega), hlast]
  · rw [Function.update_of_ne hik]
    by_cases hil : i = n - 1 - k
    · have hback : n - 1 - (n - 1 - k) = k := by omega
      rw [hil, Function.update_self, if_pos (by omega), reversed, if_pos (by omega), hback, hfirst]
    · rw [Function.update_of_ne hil, h i]
      by_cases hin : i < k ∨ n - 1 - k < i
      · rw [if_pos hin, if_pos (by omega)]
      · rw [if_neg hin, if_neg (by omega)]

theorem strrevLoop_spec {s₀ : Str} {n k : Nat} (h : Swapped s₀ n k s) (hn : 0 < n)
    (hk : 2 * k ≤ n) (hfuel : n - k < fuel) :
    strrevLoop s k ((n : Int) - 1 - k) fuel = some (reversed s₀ n) := by
  induction fuel generalizing k s with
  | zero => omega
  | succ fuel ih =>
      rw [strrevLoop]
      by_cases hlt : (k : Int) < (n : Int) - 1 - k
      · have hlast : ((n : Int) - 1 - k).toNat = n - 1 - k := by omega
        have hnext : (k : Int) + 1 = ((k + 1 : Nat) : Int) := by omega
        have hnext' : (n : Int) - 1 - k - 1 = (n : Int) - 1 - ((k + 1 : Nat) : Int) := by omega
        rw [if_pos hlt, hlast, Int.toNat_natCast, hnext, hnext']
        exact ih (h.swap (by omega)) (by omega) (by omega)
      · rw [if_neg hlt, h.done hn (by omega)]

/-- `strrev` reverses the string in place and touches nothing else. -/
theorem strrev_spec (h : Holds s text) (hfuel : text.length < fuel) :
    s.strrev fuel = some (reversed s text.length) := by
  have hlen := strlen_spec h hfuel
  simp only [strrev, hlen, Option.bind_eq_bind, Option.bind_some]
  by_cases hempty : text.length = 0
  · have hsame : reversed s 0 = s := by
      funext i
      rw [reversed, if_neg (Nat.not_lt_zero i)]
    obtain ⟨fuel, rfl⟩ : ∃ n, fuel = n + 1 := ⟨fuel - 1, by omega⟩
    rw [hempty, strrevLoop, if_neg (by omega), hsame]
  · have hstart : Swapped s text.length 0 s := by
      intro i
      split_ifs with hin
      · rw [reversed, if_neg (by omega)]
      · rfl
    have hloop := strrevLoop_spec hstart (by omega) (Nat.zero_le _) hfuel
    rw [Nat.cast_zero, sub_zero] at hloop
    exact hloop

end Str

theorem Holds.reversed {s : Str} {text : List UInt8} (h : Holds s text) :
    Holds (s.reversed text.length) text.reverse := by
  refine ⟨?_, ?_, ?_⟩
  · intro i hi
    rw [List.length_reverse] at hi
    rw [Str.reversed, if_pos hi, h.char _ (by omega), List.getElem_reverse]
  · intro c hc
    exact h.nonzero c (List.mem_reverse.1 hc)
  · rw [List.length_reverse, Str.reversed, if_neg (by omega), h.nul]

/-! ## `itoa` -/

/-- The character of a digit. -/
def digitChar (d : Nat) : UInt8 := Str.lookup.getD d 0

/-- The numeral of a number: its digits from the highest on, without leading zeros. -/
def numeral (radix n : Nat) : List UInt8 :=
  if n = 0 then [0x30] else (Nat.digits radix n).reverse.map digitChar

/-- The value of a digit character. -/
def digitValue (c : UInt8) : Nat := Str.lookup.idxOf c

/-- The number that a numeral stands for. -/
def readNumeral (radix : Nat) (text : List UInt8) : Nat :=
  Nat.ofDigits radix (text.reverse.map digitValue)

theorem digitChar_digit {d : Nat} (hd : d < 36) :
    digitChar d ≠ 0 ∧ digitValue (digitChar d) = d := by
  have hall : ∀ d < 36, digitChar d ≠ 0 ∧ digitValue (digitChar d) = d := by decide
  exact hall d hd

/-- A numeral can be read back. -/
theorem readNumeral_numeral {radix : Nat} (hlo : 2 ≤ radix) (hhi : radix ≤ 36) (n : Nat) :
    readNumeral radix (numeral radix n) = n := by
  unfold readNumeral numeral
  split_ifs with hzero
  · subst hzero
    show Nat.ofDigits radix [digitValue (digitChar 0)] = 0
    rw [(digitChar_digit (by omega)).2, Nat.ofDigits_singleton]
  · have hdigits : ((Nat.digits radix n).map digitChar).map digitValue = Nat.digits radix n := by
      rw [List.map_map]
      refine (List.map_congr_left fun d hd => ?_).trans (List.map_id _)
      have hlt := Nat.digits_lt_base (by omega) hd
      exact (digitChar_digit (by omega)).2
    rw [← List.map_reverse, List.reverse_reverse, hdigits, Nat.ofDigits_digits]

namespace Str

variable {s buf : Str} {text : List UInt8} {fuel radix : Nat}

/-- The digits from the lowest on, behind what is there already. -/
theorem digitLoop_spec (hradix : 2 ≤ radix) (newval : Nat) (buf : Str) (pos : Nat)
    (hfuel : newval < fuel) : ∃ buf',
      digitLoop radix newval buf pos fuel = some (buf', pos + (Nat.digits radix newval).length) ∧
      (∀ i (hi : i < (Nat.digits radix newval).length),
        buf' (pos + i) = digitChar (Nat.digits radix newval)[i]) ∧
      ∀ i, i < pos ∨ pos + (Nat.digits radix newval).length ≤ i → buf' i = buf i := by
  induction fuel generalizing newval buf pos with
  | zero => omega
  | succ fuel ih =>
      rw [digitLoop]
      by_cases hpos : 0 < newval
      · have hless : newval / radix < newval := Nat.div_lt_self hpos (by omega)
        have hdigits := Nat.digits_def' (b := radix) (by omega) hpos
        obtain ⟨buf', hloop, hchars, hrest⟩ := ih (newval / radix)
          (Function.update buf pos (lookup.getD (newval % radix) 0)) (pos + 1) (by omega)
        have hlen : (Nat.digits radix newval).length =
            (Nat.digits radix (newval / radix)).length + 1 := by
          rw [hdigits, List.length_cons]
        refine ⟨buf', ?_, ?_, ?_⟩
        · rw [if_pos hpos, hloop, hlen]
          congr 2
          omega
        · intro i hi
          cases i with
          | zero =>
              have hfirst := hrest pos (.inl (by omega))
              rw [Nat.add_zero, hfirst, Function.update_self]
              simp only [hdigits, List.getElem_cons_zero, digitChar]
          | succ i =>
              have hnext := hchars i (by omega)
              have hindex : pos + (i + 1) = pos + 1 + i := by omega
              rw [hindex, hnext]
              simp only [hdigits, List.getElem_cons_succ]
        · intro i hi
          rw [hrest i (by omega), Function.update_of_ne (by omega)]
      · have hzero : newval = 0 := by omega
        subst hzero
        refine ⟨buf, ?_, ?_, ?_⟩
        · rw [if_neg hpos]
          simp
        · intro i hi
          simp at hi
        · intro i _
          rfl

/-- The memory with a string and a NUL stored at the pointer. -/
def written (buf : Str) (text : List UInt8) : Str := fun i =>
  if i < text.length then text.getD i 0 else if i = text.length then 0 else buf i

theorem holds_written (buf : Str) (hne : ∀ c ∈ text, c ≠ 0) : Holds (buf.written text) text := by
  refine ⟨?_, hne, ?_⟩
  · intro i hi
    rw [written, if_pos hi, List.getD_eq_getElem _ _ hi]
  · rw [written, if_neg (Nat.lt_irrefl _), if_pos rfl]

/-- `itoa` writes the numeral and a NUL, and nothing else. -/
theorem itoa_eq (hlo : 2 ≤ radix) (hhi : radix ≤ 36) {value : Nat}
    (hfuel : value + (numeral radix value).length + 1 < fuel) :
    itoa value buf radix fuel = some (buf.written (numeral radix value)) := by
  rw [itoa]
  by_cases hzero : value = 0
  · subst hzero
    have hnumeral : numeral radix 0 = [0x30] := if_pos rfl
    rw [if_pos rfl, hnumeral]
    congr 1
    funext i
    rcases i with _ | _ | i
    · rfl
    · rfl
    · rw [written, if_neg (by simp), if_neg (by simp), Function.update_of_ne (by omega),
        Function.update_of_ne (by omega)]
  · rw [if_neg hzero]
    obtain ⟨buf', hloop, hchars, hrest⟩ :=
      digitLoop_spec hlo value buf 0 (by omega : value < fuel)
    have hnumeral : numeral radix value = ((Nat.digits radix value).map digitChar).reverse := by
      rw [numeral, if_neg hzero, List.map_reverse]
    have hlen : (numeral radix value).length = (Nat.digits radix value).length := by
      rw [hnumeral, List.length_reverse, List.length_map]
    rw [Nat.zero_add] at hloop hrest
    -- the digits with a NUL behind them, from the lowest on
    have hholds : Holds (Function.update buf' (Nat.digits radix value).length 0)
        ((Nat.digits radix value).map digitChar) := by
      refine ⟨?_, ?_, ?_⟩
      · intro i hi
        rw [List.length_map] at hi
        have hchar := hchars i hi
        rw [Nat.zero_add] at hchar
        rw [Function.update_of_ne (by omega), hchar, List.getElem_map]
      · intro c hc
        obtain ⟨d, hd, rfl⟩ := List.mem_map.1 hc
        have hlt := Nat.digits_lt_base (by omega) hd
        exact (digitChar_digit (by omega)).1
      · rw [List.length_map, Function.update_self]
    have hshort : ((Nat.digits radix value).map digitChar).length < fuel := by
      rw [List.length_map]
      omega
    have hreversed := hholds.reversed
    rw [← hnumeral] at hreversed
    simp only [hloop, Option.bind_eq_bind, Option.bind_some]
    rw [strrev_spec hholds hshort]
    congr 1
    funext i
    rw [written]
    by_cases hi : i < (numeral radix value).length
    · rw [if_pos hi, hreversed.char i hi, List.getD_eq_getElem _ _ hi]
    · rw [if_neg hi]
      by_cases hnul : i = (numeral radix value).length
      · rw [if_pos hnul, hnul, hreversed.nul]
      · rw [if_neg hnul, Str.reversed, if_neg (by rw [List.length_map]; omega),
          Function.update_of_ne (by omega), hrest i (by omega)]

end Str

/-- No character of a numeral is a NUL. -/
theorem numeral_ne_zero {radix : Nat} (hlo : 2 ≤ radix) (hhi : radix ≤ 36) (value : Nat) :
    ∀ c ∈ numeral radix value, c ≠ 0 := by
  intro c hc
  unfold numeral at hc
  split_ifs at hc with hzero
  · rw [List.mem_singleton.1 hc]
    decide
  · obtain ⟨d, hd, rfl⟩ := List.mem_map.1 hc
    have hlt := Nat.digits_lt_base (by omega) (List.mem_reverse.1 hd)
    exact (digitChar_digit (by omega)).1

/-- A numeral of a 32-bit number has at most 32 digits. -/
theorem numeral_length_le {radix value : Nat} (hlo : 2 ≤ radix) (hvalue : value < 2 ^ 32) :
    (numeral radix value).length ≤ 32 := by
  unfold numeral
  split_ifs
  · exact Nat.le_of_ble_eq_true rfl
  · rw [List.length_map, List.length_reverse, Nat.digits_length_le_iff (by omega)]
    exact Nat.lt_of_lt_of_le hvalue (Nat.pow_le_pow_left hlo 32)

/-- It has no leading zero. -/
theorem numeral_head {radix value : Nat} (hlo : 2 ≤ radix) (hhi : radix ≤ 36) (hne : value ≠ 0) :
    (numeral radix value).head? ≠ some 0x30 := by
  have hlast := Nat.getLast_digit_ne_zero radix hne
  have hnil := (Nat.digits_ne_nil_iff_ne_zero (b := radix)).2 hne
  rw [numeral, if_neg hne, List.head?_map, List.head?_reverse, List.getLast?_eq_some_getLast hnil]
  intro hzero
  have hlt := Nat.digits_lt_base (by omega) (List.getLast_mem hnil)
  have hchar := congrArg digitValue (Option.some.inj hzero)
  rw [(digitChar_digit (by omega)).2] at hchar
  exact hlast hchar

theorem digitChar_decimal : ∀ d < 10, (Nat.digitChar d).toUInt8 = digitChar d := by
  decide

/-- The decimal numeral is what `toString` gives. -/
theorem chars_toString (n : Nat) : chars (toString n) = numeral 10 n := by
  have hchars : chars (toString n) = (Nat.toDigits 10 n).map Char.toUInt8 := by
    rw [chars, Nat.toString_eq_ofList_toDigits, String.toList_ofList]
  rw [hchars]
  clear hchars
  induction n using Nat.strong_induction_on with
  | h n ih =>
  by_cases hlt : n < 10
  · rw [Nat.toDigits_of_lt_base hlt, List.map_singleton, digitChar_decimal n hlt, numeral]
    split_ifs with hzero
    · rw [hzero]
      rfl
    · rw [Nat.digits_of_lt 10 n hzero hlt]
      rfl
  · have hdiv : n / 10 ≠ 0 := by omega
    have hdigits : Nat.digits 10 n = n % 10 :: Nat.digits 10 (n / 10) :=
      Nat.digits_def' (by omega) (by omega)
    rw [Nat.toDigits_of_base_le (by omega) (by omega), List.map_append, ih (n / 10) (by omega),
      numeral, numeral, if_neg hdiv, if_neg (by omega), hdigits, List.reverse_cons,
      List.map_append, List.map_singleton, List.map_singleton,
      digitChar_decimal _ (Nat.mod_lt n (by omega))]

/-- For every 32-bit number and every radix from 2 to 36, `itoa` returns with the numeral of the
number and a NUL at `buf`, at most 33 bytes; it has stored nothing behind them; the numeral has no
leading zero, and reading it gives the number. -/
theorem itoa_round_trip {radix value fuel : Nat} (hlo : 2 ≤ radix) (hhi : radix ≤ 36)
    (hvalue : value < 2 ^ 32) (hfuel : value + 34 ≤ fuel) (buf : Str) :
    ∃ buf' text, Str.itoa value buf radix fuel = some buf' ∧ Holds buf' text ∧
      text.length ≤ 32 ∧ (∀ i, text.length < i → buf' i = buf i) ∧
      (value ≠ 0 → text.head? ≠ some 0x30) ∧ readNumeral radix text = value := by
  have hlen := numeral_length_le hlo hvalue
  have hitoa : Str.itoa value buf radix fuel = some (buf.written (numeral radix value)) :=
    Str.itoa_eq hlo hhi (by omega)
  refine ⟨_, _, hitoa, Str.holds_written _ (numeral_ne_zero hlo hhi _), hlen, ?_,
    numeral_head hlo hhi, readNumeral_numeral hlo hhi value⟩
  intro i hi
  rw [Str.written, if_neg (by omega), if_neg (by omega)]

/-- The number 391 in hexadecimal, in uninitialised memory. -/
theorem itoa_round_trip_391 : ∃ buf' text, Str.itoa 391 (fun _ => 0xAA) 16 500 = some buf' ∧
    Holds buf' text ∧ readNumeral 16 text = 391 := by
  obtain ⟨buf', text, hitoa, hholds, -, -, -, hread⟩ :=
    itoa_round_trip (by omega : 2 ≤ 16) (by omega) (by omega : 391 < 2 ^ 32)
      (by omega : 391 + 34 ≤ 500) fun _ => 0xAA
  exact ⟨buf', text, hitoa, hholds, hread⟩

end Ece391Kernel
