import Ece391Kernel.Files.Lookup
import Ece391Kernel.Kernel.Arguments

/-!
# The bounds of the command parser

The two loops of `sys_execute` with the indices of `command` they read, and those of `filename` and
`arg` they store to. The file name loop stops one index too late, and the argument loop begins
behind the NUL of a command without a space (`parse_safe_iff`).
-/

namespace Ece391Kernel

/-! ## What the loops access -/

/-- The indices of `command` that the file name loop reads. -/
def nameReads (command : Nat → UInt8) (i : Nat) : Nat → List Nat
  | 0 => []
  | n + 1 =>
      if command i = 0x20 ∨ command i = 0 then [i] else i :: nameReads command (i + 1) n

/-- The indices of `filename` that it stores to. -/
def nameStores (command : Nat → UInt8) (i : Nat) : Nat → List Nat
  | 0 => []
  | n + 1 =>
      if command i = 0x20 ∨ command i = 0 then []
      else if maxFilenameLength < i then []
      else i :: nameStores command (i + 1) n

/-- The indices of `command` that the argument loop reads. -/
def argReads (command : Nat → UInt8) (i : Nat) : Nat → List Nat
  | 0 => []
  | n + 1 => if command i = 0 then [i] else i :: argReads command (i + 1) n

/-- The indices of `arg` that it stores to, from `arg[j]` on. -/
def argStores (command : Nat → UInt8) (i j : Nat) : Nat → List Nat
  | 0 => []
  | n + 1 =>
      if command i = 0 then []
      else if kbBufSizeMax - 1 < j then []
      else j :: argStores command (i + 1) (j + 1) n

namespace ExecArgs

variable (args : ExecArgs)

/-- The file name, when the loop over it ends. -/
def parsedName : Option (List UInt8) := parseName args.command 0 (maxFilenameLength + 2)

/-- Every index of `command` that is read. The argument loop runs only after a name. -/
def reads : List Nat :=
  nameReads args.command 0 (maxFilenameLength + 2) ++
    match args.parsedName with
    | none => []
    | some name => argReads args.command (name.length + 1) (kbBufSizeMax + 1)

/-- Every index of `filename` that is written. -/
def filenameStores : List Nat := nameStores args.command 0 (maxFilenameLength + 2)

/-- Every index of `arg` that is written. -/
def argumentStores : List Nat :=
  match args.parsedName with
  | none => []
  | some name => argStores args.command (name.length + 1) 0 (kbBufSizeMax + 1)

end ExecArgs

/-! ## The loops on a string -/

section Loops

variable {command : Nat → UInt8} {name rest : List UInt8} {sep : UInt8} {i n : Nat}

/-- The file name loop on a name and what ends it: it stops in time when the name is short enough,
and reads the name and one byte more. -/
theorem nameLoop_eq (hname : ∀ c ∈ name, c ≠ 0x20 ∧ c ≠ 0) (hsep : sep = 0x20 ∨ sep = 0)
    (hspells : Spells command i (name ++ [sep])) :
    parseName command i n = (if name.length < n then some name else none) ∧
      nameReads command i n = List.range' i (min (name.length + 1) n) := by
  induction name generalizing i n with
  | nil =>
      have hstop : command i = 0x20 ∨ command i = 0 := by
        rw [hspells.1]
        exact hsep
      cases n with
      | zero => exact ⟨rfl, rfl⟩
      | succ n =>
          have hmin : min (0 + 1) (n + 1) = 1 := by omega
          rw [parseName, nameReads, if_pos hstop, if_pos hstop, List.length_nil, hmin]
          exact ⟨rfl, rfl⟩
  | cons c name ih =>
      obtain ⟨hc, hrest⟩ := hspells
      have hgo : ¬ (command i = 0x20 ∨ command i = 0) := by
        rw [hc]
        exact not_or.2 (hname c List.mem_cons_self)
      cases n with
      | zero => exact ⟨rfl, rfl⟩
      | succ n =>
          obtain ⟨hparse, hreads⟩ := ih (n := n)
            (fun c hmem => hname c (List.mem_cons_of_mem _ hmem)) hrest
          have hmin : min ((c :: name).length + 1) (n + 1) = min (name.length + 1) n + 1 := by
            rw [List.length_cons]
            omega
          rw [parseName, nameReads, if_neg hgo, if_neg hgo, hparse, hreads, hc, hmin,
            List.range'_succ]
          refine ⟨?_, rfl⟩
          rw [List.length_cons]
          by_cases hlt : name.length < n
          · rw [if_pos hlt, if_pos (Nat.succ_lt_succ hlt)]
            rfl
          · rw [if_neg hlt, if_neg (fun h => hlt (Nat.lt_of_succ_lt_succ h))]
            rfl

/-- It stores to the indices of the name, up to 32. -/
theorem nameStores_eq (hname : ∀ c ∈ name, c ≠ 0x20 ∧ c ≠ 0) (hsep : sep = 0x20 ∨ sep = 0)
    (hspells : Spells command i (name ++ [sep])) (hn : i + n = 34) :
    nameStores command i n = List.range' i (min name.length (33 - i)) := by
  induction name generalizing i n with
  | nil =>
      have hstop : command i = 0x20 ∨ command i = 0 := by
        rw [hspells.1]
        exact hsep
      cases n with
      | zero => simp [nameStores]
      | succ n => simp [nameStores, hstop]
  | cons c name ih =>
      obtain ⟨hc, hrest⟩ := hspells
      have hgo : ¬ (command i = 0x20 ∨ command i = 0) := by
        rw [hc]
        exact not_or.2 (hname c List.mem_cons_self)
      cases n with
      | zero =>
          have hzero : 33 - i = 0 := by omega
          rw [nameStores, hzero, Nat.min_zero]
          rfl
      | succ n =>
          have hstores := ih (n := n) (fun c hmem => hname c (List.mem_cons_of_mem _ hmem)) hrest
            (by omega)
          rw [nameStores, if_neg hgo]
          simp only [maxFilenameLength]
          by_cases hfull : 32 < i
          · have hzero : 33 - i = 0 := by omega
            rw [if_pos hfull, hzero, Nat.min_zero]
            rfl
          · have hmin : min (c :: name).length (33 - i) = min name.length (33 - (i + 1)) + 1 := by
              rw [List.length_cons]
              omega
            rw [if_neg hfull, hstores, hmin, List.range'_succ]

/-- The argument loop on a string. -/
theorem argLoop_eq (hrest : ∀ c ∈ rest, c ≠ 0) (hspells : Spells command i (rest ++ [0])) :
    parseArg command i n = (if rest.length < n then some rest else none) ∧
      argReads command i n = List.range' i (min (rest.length + 1) n) := by
  induction rest generalizing i n with
  | nil =>
      have hstop : command i = 0 := hspells.1
      cases n with
      | zero => exact ⟨rfl, rfl⟩
      | succ n =>
          have hmin : min (0 + 1) (n + 1) = 1 := by omega
          rw [parseArg, argReads, if_pos hstop, if_pos hstop, List.length_nil, hmin]
          exact ⟨rfl, rfl⟩
  | cons c rest ih =>
      obtain ⟨hc, htail⟩ := hspells
      have hgo : ¬ command i = 0 := by
        rw [hc]
        exact hrest c List.mem_cons_self
      cases n with
      | zero => exact ⟨rfl, rfl⟩
      | succ n =>
          obtain ⟨hparse, hreads⟩ := ih (n := n)
            (fun c hmem => hrest c (List.mem_cons_of_mem _ hmem)) htail
          have hmin : min ((c :: rest).length + 1) (n + 1) = min (rest.length + 1) n + 1 := by
            rw [List.length_cons]
            omega
          rw [parseArg, argReads, if_neg hgo, if_neg hgo, hparse, hreads, hc, hmin,
            List.range'_succ]
          refine ⟨?_, rfl⟩
          rw [List.length_cons]
          by_cases hlt : rest.length < n
          · rw [if_pos hlt, if_pos (Nat.succ_lt_succ hlt)]
            rfl
          · rw [if_neg hlt, if_neg (fun h => hlt (Nat.lt_of_succ_lt_succ h))]
            rfl

/-- It stores inside `arg`, whatever it reads. -/
theorem argStores_lt (j : Nat) : ∀ x ∈ argStores command i j n, x < 128 := by
  induction n generalizing i j with
  | zero => nofun
  | succ n ih =>
      intro x hx
      rw [argStores] at hx
      split_ifs at hx with hstop hfull
      · cases hx
      · cases hx
      · obtain rfl | hx := List.mem_cons.1 hx
        · simp only [kbBufSizeMax] at hfull
          omega
        · exact ih (j + 1) x hx

/-- It reads the byte it begins with. -/
theorem mem_argReads : i ∈ argReads command i (n + 1) := by
  rw [argReads]
  split_ifs
  · exact List.mem_cons_self
  · exact List.mem_cons_self

end Loops

/-! ## The whole command -/

/-- The bytes of a command before its first space, or all of them. -/
def nameOf (s : List UInt8) : List UInt8 := s.takeWhile (· ≠ 0x20)

/-- The bytes behind the first space. -/
def argumentOf (s : List UInt8) : List UInt8 := (s.dropWhile (· ≠ 0x20)).tail

/-- The parser reads no byte behind the NUL of the command, stores inside `filename` and `arg`, and
either rejects the command or splits it at its first space into a name of at most 32 bytes that can
be used as a string, and the rest. -/
structure ParseSafe (args : ExecArgs) (s : List UInt8) : Prop where
  reads : ∀ i ∈ args.reads, i ≤ s.length
  filename : ∀ i ∈ args.filenameStores, i < maxFilenameLength
  arg : ∀ i ∈ args.argumentStores, i < kbBufSizeMax
  result : ∀ cmd, args.parse = some cmd →
    cString cmd.filename = nameOf s ∧ (nameOf s).length ≤ maxNameLen ∧ cmd.arg = argumentOf s

section Command

variable {args : ExecArgs} {s : List UInt8}

theorem nameOf_ne (hs : ∀ c ∈ s, c ≠ 0) : ∀ c ∈ nameOf s, c ≠ 0x20 ∧ c ≠ 0 := by
  intro c hc
  have hkept := List.mem_takeWhile_imp (p := fun b : UInt8 => decide (b ≠ 0x20)) hc
  exact ⟨of_decide_eq_true hkept, hs c ((List.takeWhile_sublist _).mem hc)⟩

/-- A command with a space is its name, the space and the rest. -/
theorem split_space (hspace : 0x20 ∈ s) : s = nameOf s ++ 0x20 :: argumentOf s := by
  induction s with
  | nil => cases hspace
  | cons c s ih =>
      by_cases hc : c = 0x20
      · simp [nameOf, argumentOf, hc]
      · have hmem := (List.mem_cons.1 hspace).resolve_left (Ne.symm hc)
        have hrest := ih hmem
        simp only [nameOf, argumentOf] at hrest ⊢
        rw [List.takeWhile_cons_of_pos (by simpa using hc),
          List.dropWhile_cons_of_pos (by simpa using hc), List.cons_append, ← hrest]

theorem nameOf_eq_self (hspace : 0x20 ∉ s) : nameOf s = s := by
  rw [nameOf, List.takeWhile_eq_self_iff]
  intro c hc
  exact decide_eq_true fun heq : c = 0x20 => hspace (heq ▸ hc)

/-- A string behind the same bytes. -/
theorem cString_append_eq {name : List UInt8} (hname : ∀ c ∈ name, c ≠ 0) (above : List UInt8) :
    cString (name ++ above) = name ++ cString above :=
  List.takeWhile_append_of_pos (by simpa using hname)

/-- What the parser does with a name, a space and the rest. -/
structure Spaced (args : ExecArgs) (name rest : List UInt8) : Prop where
  parse : args.parse = if name.length < 34 ∧ rest.length < 129 then
      some { filename := if name.length < 32 then name else name ++ args.above, arg := rest }
    else none
  parsedName : args.parsedName = if name.length < 34 then some name else none
  nameReads : nameReads args.command 0 34 = List.range' 0 (min (name.length + 1) 34)
  argReads : argReads args.command (name.length + 1) 129 =
    List.range' (name.length + 1) (min (rest.length + 1) 129)
  filenameStores : args.filenameStores = List.range' 0 (min name.length 33)

theorem spaced {name rest : List UInt8} (hname : ∀ c ∈ name, c ≠ 0x20 ∧ c ≠ 0)
    (hrest : ∀ c ∈ rest, c ≠ 0) (hspells : Spells args.command 0 (name ++ 0x20 :: rest ++ [0])) :
    Spaced args name rest := by
  rw [List.append_assoc, List.cons_append] at hspells
  obtain ⟨hfirst, hspace, hsecond⟩ := spells_append.1 hspells
  have hspaced : Spells args.command 0 (name ++ [0x20]) :=
    spells_append.2 ⟨hfirst, hspace, trivial⟩
  rw [Nat.zero_add] at hsecond
  obtain ⟨hparse, hreads⟩ := nameLoop_eq (n := maxFilenameLength + 2) hname (.inl rfl) hspaced
  have hstores := nameStores_eq (n := maxFilenameLength + 2) hname (.inl rfl) hspaced rfl
  obtain ⟨hparseArg, hargReads⟩ := argLoop_eq (n := kbBufSizeMax + 1) hrest hsecond
  refine ⟨?_, hparse, hreads, hargReads, hstores⟩
  simp only [maxFilenameLength, kbBufSizeMax] at hparse hparseArg
  simp only [ExecArgs.parse, maxFilenameLength, kbBufSizeMax, hparse, Option.bind_eq_bind]
  by_cases hlt : name.length < 34
  · rw [if_pos hlt, Option.bind_some, hparseArg]
    by_cases hlt' : rest.length < 129
    · simp only [hlt, hlt', and_self, if_true, Option.bind_some]
    · simp only [hlt', and_false, if_false, Option.bind_none]
  · simp only [hlt, false_and, if_false, Option.bind_none]

/-- A name of 33 bytes or more is stored past `filename`, and one of 32 bytes has its NUL there. -/
theorem Spaced.fits {name rest : List UInt8} (h : Spaced args name rest)
    (hname : ∀ c ∈ name, c ≠ 0) (hnameOf : nameOf s = name) (hsafe : ParseSafe args s) :
    name.length ≤ 31 ∨ name.length = 32 ∧ (128 < rest.length ∨ cString args.above = []) := by
  have hle : name.length ≤ 32 := by
    by_contra hlong
    have hmem : 32 ∈ args.filenameStores := by
      rw [h.filenameStores, List.mem_range'_1]
      omega
    exact Nat.lt_irrefl 32 (hsafe.filename 32 hmem)
  obtain hshort | hfull := Nat.lt_or_eq_of_le hle
  · exact .inl (Nat.le_of_lt_succ hshort)
  · refine .inr ⟨hfull, ?_⟩
    by_contra hbad
    obtain ⟨harg, habove⟩ := not_or.1 hbad
    have hcommand := h.parse
    rw [if_pos ⟨by omega, by omega⟩, if_neg (by omega)] at hcommand
    have hstring := (hsafe.result _ hcommand).1
    rw [hnameOf, cString_append_eq hname] at hstring
    exact habove (List.append_cancel_left (hstring.trans (List.append_nil name).symm))

/-- Otherwise the parser keeps to the string and the buffers. -/
theorem Spaced.safe {name rest : List UInt8} (h : Spaced args name rest)
    (hs : s = name ++ 0x20 :: rest) (hname : ∀ c ∈ name, c ≠ 0) (hnameOf : nameOf s = name)
    (hargumentOf : argumentOf s = rest) (hok : name.length ≤ 31 ∨ name.length = 32 ∧
      (128 < rest.length ∨ cString args.above = [])) : ParseSafe args s := by
  have hlength : s.length = name.length + 1 + rest.length := by
    rw [hs, List.length_append, List.length_cons]
    omega
  have hlt : name.length < 34 := by omega
  have hparsed : args.parsedName = some name := by rw [h.parsedName, if_pos hlt]
  refine ⟨fun i hi => ?_, fun i hi => ?_, fun i hi => ?_, fun cmd hcmd => ?_⟩
  · simp only [ExecArgs.reads, hparsed, maxFilenameLength, kbBufSizeMax, h.nameReads, h.argReads,
      List.mem_append, List.mem_range'_1] at hi
    omega
  · rw [h.filenameStores, List.mem_range'_1] at hi
    simp only [maxFilenameLength]
    omega
  · simp only [ExecArgs.argumentStores, hparsed] at hi
    exact argStores_lt 0 i hi
  · rw [h.parse, Option.ite_none_right_eq_some] at hcmd
    obtain ⟨⟨-, harg⟩, heq⟩ := hcmd
    cases heq
    rw [hnameOf, hargumentOf]
    refine ⟨?_, by simp only [maxNameLen]; omega, rfl⟩
    dsimp only
    split_ifs with hshort
    · have hself := cString_append_eq hname []
      rw [List.append_nil] at hself
      rw [hself]
      exact List.append_nil name
    -- A name of 32 bytes has no NUL of its own; the stack behind `filename` must provide it.
    · have habove : cString args.above = [] := by
        obtain hname | ⟨-, hlong | hempty⟩ := hok
        · omega
        · omega
        · exact hempty
      rw [cString_append_eq hname, habove, List.append_nil]

/-- With a space, the parser is safe exactly when the name and its NUL fit, or fit but for the NUL
and there is one behind `filename` or the argument is rejected. -/
theorem parse_safe_space {name rest : List UInt8} (hs : s = name ++ 0x20 :: rest)
    (hname : ∀ c ∈ name, c ≠ 0x20 ∧ c ≠ 0) (hrest : ∀ c ∈ rest, c ≠ 0)
    (hspells : Spells args.command 0 (s ++ [0])) (hnameOf : nameOf s = name)
    (hargumentOf : argumentOf s = rest) : ParseSafe args s ↔
      name.length ≤ 31 ∨ name.length = 32 ∧ (128 < rest.length ∨ cString args.above = []) := by
  have hspaced := spaced hname hrest (hs ▸ hspells)
  have hnul : ∀ c ∈ name, c ≠ 0 := fun c hc => (hname c hc).2
  exact ⟨hspaced.fits hnul hnameOf, hspaced.safe hs hnul hnameOf hargumentOf⟩

/-- Without a space, it never is. -/
theorem not_parse_safe (hs : ∀ c ∈ s, c ≠ 0) (hspace : 0x20 ∉ s)
    (hspells : Spells args.command 0 (s ++ [0])) : ¬ ParseSafe args s := by
  intro hsafe
  have hname : ∀ c ∈ s, c ≠ 0x20 ∧ c ≠ 0 := fun c hc =>
    ⟨fun heq => hspace (heq ▸ hc), hs c hc⟩
  by_cases hlong : 32 < s.length
  · have hstores := nameStores_eq (n := maxFilenameLength + 2) hname (.inr rfl) hspells rfl
    have hmem : 32 ∈ args.filenameStores := by
      rw [ExecArgs.filenameStores, hstores, List.mem_range'_1]
      omega
    exact Nat.lt_irrefl 32 (hsafe.filename 32 hmem)
  · -- the byte behind the NUL
    have hparse := (nameLoop_eq (n := maxFilenameLength + 2) hname (.inr rfl) hspells).1
    rw [if_pos (by simp only [maxFilenameLength]; omega)] at hparse
    have hmem : s.length + 1 ∈ args.reads := by
      simp only [ExecArgs.reads, ExecArgs.parsedName, hparse]
      exact List.mem_append_right _ mem_argReads
    exact Nat.not_succ_le_self _ (hsafe.reads _ hmem)

/-- For every command string: the parser keeps to the string and to its two buffers, and rejects the
string or splits it at its first space, exactly when there is a space, and the name in front of it
has at most 31 bytes, or 32 of them with a NUL behind `filename` or an argument that is too long. -/
theorem parse_safe_iff (args : ExecArgs) (s : List UInt8) (hs : ∀ c ∈ s, c ≠ 0)
    (hspells : Spells args.command 0 (s ++ [0])) : ParseSafe args s ↔
      0x20 ∈ s ∧ ((nameOf s).length ≤ 31 ∨ (nameOf s).length = 32 ∧
        (128 < (argumentOf s).length ∨ cString args.above = [])) := by
  by_cases hspace : 0x20 ∈ s
  · have hsplit := split_space hspace
    have hargument : ∀ c ∈ argumentOf s, c ≠ 0 := by
      intro c hc
      have hmem : c ∈ nameOf s ++ 0x20 :: argumentOf s :=
        List.mem_append_right _ (List.mem_cons_of_mem _ hc)
      rw [← hsplit] at hmem
      exact hs c hmem
    rw [parse_safe_space hsplit (nameOf_ne hs) hargument hspells rfl rfl]
    exact (and_iff_right hspace).symm
  · exact ⟨fun hsafe => absurd hsafe (not_parse_safe hs hspace hspells),
      fun h => absurd h.1 hspace⟩

/-- The command "shell a" is parsed as it should be. -/
theorem parse_safe_iff_shell : ParseSafe Kernel.shellAArgs (shellName ++ [0x20, 0x61]) :=
  (parse_safe_iff Kernel.shellAArgs (shellName ++ [0x20, 0x61]) (by decide +kernel)
    (by decide +kernel)).2 ⟨by decide +kernel, .inl (by decide +kernel)⟩

/-- The byte behind the NUL of "shell" is read. -/
theorem parse_past_nul : ¬ ∀ (args : ExecArgs) (s : List UInt8), (∀ c ∈ s, c ≠ 0) →
    Spells args.command 0 (s ++ [0]) → ParseSafe args s := by
  intro h
  have hreads := (h Kernel.shellArgs shellName (by decide +kernel) (by decide +kernel)).reads 6
    (by decide +kernel)
  revert hreads
  decide

end Command

end Ece391Kernel
