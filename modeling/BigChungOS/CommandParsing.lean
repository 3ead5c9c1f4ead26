import BigChungOS.NameLookup
import BigChungOS.SysCalls
import Mathlib.Data.List.TakeWhile

/-!
# How `sys_execute` takes a command apart

The four loops at the start of `sys_execute`, over the memory at `command` and the two arrays they fill: `parseStep`
is one test of a loop condition with what follows from it, and `Parse` holds the local variables and a record of the
indices read and stored.

From every string the parsing ends, and it reads no further than the NUL (`parse_spec`).  What it finds is what
`scanWord` finds in the text, which is how `sysExecute` is written (`Parse.Agrees`).  The two length checks are made
before a character is stored, but the NUL behind the file name is not checked: a word of exactly 32 characters puts it
outside `filename` (`parse_safe_iff`).
-/

namespace BigChungOS

open Memory Transition

/-! ### The loops -/

/-- The loop the parsing is in, or the way it has ended. -/
inductive ParsePhase
  | spaces
  | name
  | gap
  | args
  | parsed
  | nameTooLong
  | argsTooLong
deriving DecidableEq

/-- The local variables of `sys_execute` while it parses, with `all_pcbs[pid_counter].args`, and the indices of
`command` read and of the two arrays stored to. -/
structure Parse where
  phase : ParsePhase
  commandIndex : Nat
  i : Nat
  j : Nat
  commandLenCheck : Nat
  filename : Nat → UInt8
  args : Nat → UInt8
  reads : List Nat
  filenameStores : List Nat
  argsStores : List Nat

namespace Parse

/-- `command_index = 0; i = 0; j = 0; uint8_t filename[FILENAME_LEN] = { 0 };` -/
def start (args : Nat → UInt8) : Parse where
  phase := .spaces
  commandIndex := 0
  i := 0
  j := 0
  commandLenCheck := 0
  filename := fun _ => 0
  args := args
  reads := []
  filenameStores := []
  argsStores := []

/-- The parsing is over. -/
def Ended (p : Parse) : Prop := p.phase = .parsed ∨ p.phase = .nameTooLong ∨ p.phase = .argsTooLong

end Parse

/-- `command[command_index] != ' ' && command[command_index] != '\0' && command[command_index] != '\n'`. -/
def isWordChar (c : UInt8) : Bool := c ≠ space ∧ c ≠ 0 ∧ c ≠ newline

/-- One test of a loop condition, with the body of the loop or the step to the next one. -/
def parseStep (command : Nat → UInt8) (p : Parse) : Parse :=
  let c := command p.commandIndex
  let read := { p with reads := p.commandIndex :: p.reads }
  match p.phase with
  | .spaces =>
    if c = space then { read with commandIndex := p.commandIndex + 1 } else { read with phase := .name }
  | .name =>
    if isWordChar c then
      -- `command_len_check > FILENAME_LEN`
      if p.commandLenCheck + 1 > 32 then
        { read with phase := .nameTooLong, commandLenCheck := p.commandLenCheck + 1 }
      else
        { read with
          commandLenCheck := p.commandLenCheck + 1
          filename := Function.update p.filename p.i c
          filenameStores := p.i :: p.filenameStores
          i := p.i + 1
          commandIndex := p.commandIndex + 1 }
    else
      { read with
        phase := .gap
        filename := Function.update p.filename p.i 0
        filenameStores := p.i :: p.filenameStores }
  | .gap =>
    if c = space then { read with commandIndex := p.commandIndex + 1 }
    else { read with phase := .args, commandLenCheck := 0 }
  | .args =>
    if isWordChar c then
      -- `command_len_check > MAX_COMMAND_LENGTH`
      if p.commandLenCheck + 1 > 32 then
        { read with
          phase := .argsTooLong
          commandLenCheck := p.commandLenCheck + 1
          args := fun a => if a < 32 then 0 else p.args a
          argsStores := List.range 32 ++ p.argsStores }
      else
        { read with
          commandLenCheck := p.commandLenCheck + 1
          args := Function.update p.args p.j c
          argsStores := p.j :: p.argsStores
          j := p.j + 1
          commandIndex := p.commandIndex + 1 }
    else { read with phase := .parsed }
  | .parsed | .nameTooLong | .argsTooLong => p

/-- The parsing of the command after `n` tests. -/
def parse (command args : Nat → UInt8) (n : Nat) : Parse := (parseStep command)^[n] (Parse.start args)

/-! ### The words of a text -/

/-- The first space-delimited word of a command. -/
def firstWord (command : List UInt8) : List UInt8 := (skipSpaces command).takeWhile isWordChar

/-- What is left of a command behind its first word. -/
def afterWord (command : List UInt8) : List UInt8 := (skipSpaces command).dropWhile isWordChar

theorem isWordChar_iff {c : UInt8} : isWordChar c = true ↔ ¬(c = space ∨ c = 0 ∨ c = newline) := by
  simp [isWordChar]

theorem firstWord_bytes (text : List UInt8) : (0 : UInt8) ∉ firstWord text := by
  intro hmem
  have hchar := List.mem_takeWhile_imp hmem
  exact absurd hchar (by decide)

/-- The scan of a word copies it and goes on where it ends, or fails for a word of more than 32 characters. -/
private theorem scanWord_eq (text word : List UInt8) (hword : word.length ≤ 32) :
    scanWord text word =
      if (word ++ text.takeWhile isWordChar).length ≤ 32 then
        some (word ++ text.takeWhile isWordChar, text.dropWhile isWordChar)
      else none := by
  induction text generalizing word with
  | nil => simp [scanWord, hword]
  | cons c text ih =>
    unfold scanWord
    by_cases hc : isWordChar c = true
    · rw [if_neg (isWordChar_iff.1 hc), List.takeWhile_cons_of_pos hc, List.dropWhile_cons_of_pos hc]
      by_cases hfull : word.length + 1 > 32
      · have hlong : ¬(word ++ c :: text.takeWhile isWordChar).length ≤ 32 := by
          rw [List.length_append, List.length_cons]
          omega
        rw [if_pos hfull, if_neg hlong]
      · have hshort : (word ++ [c]).length ≤ 32 := by
          rw [List.length_append, List.length_singleton]
          omega
        rw [if_neg hfull, ih (word ++ [c]) hshort, List.append_assoc, List.singleton_append]
    · have hstop : c = space ∨ c = 0 ∨ c = newline := by
        by_contra hnot
        exact hc (isWordChar_iff.2 hnot)
      rw [if_pos hstop, List.takeWhile_cons_of_neg hc, List.dropWhile_cons_of_neg hc, List.append_nil, if_pos hword]

theorem scanWord_skipSpaces (command : List UInt8) :
    scanWord (skipSpaces command) [] =
      if (firstWord command).length ≤ 32 then some (firstWord command, afterWord command) else none := by
  rw [scanWord_eq _ [] (Nat.zero_le _), List.nil_append]
  rfl

/-! ### The text at an index of the memory -/

namespace IsString

variable {command : Nat → UInt8} {s : List UInt8} {n : Nat}

/-- The character at an index is the next one of the text, or the NUL. -/
private theorem drop_cases (h : IsString command s) (hn : n ≤ s.length) :
    (n < s.length ∧ s.drop n = command n :: s.drop (n + 1)) ∨ (n = s.length ∧ s.drop n = [] ∧ command n = 0) := by
  rcases Nat.lt_or_eq_of_le hn with hlt | rfl
  · left
    have hchar : command n = s[n] := by
      rw [h.spelled n hn]
      exact List.getD_eq_getElem _ _ hlt
    exact ⟨hlt, by rw [hchar]; exact List.drop_eq_getElem_cons hlt⟩
  · right
    refine ⟨rfl, List.drop_length, ?_⟩
    rw [h.spelled _ (le_refl _)]
    exact List.getD_eq_default _ _ (le_refl _)

private theorem skip_space (h : IsString command s) (hn : n ≤ s.length) (hc : command n = space) :
    n < s.length ∧ skipSpaces (s.drop n) = skipSpaces (s.drop (n + 1)) := by
  rcases h.drop_cases hn with ⟨hlt, hdrop⟩ | ⟨-, -, hzero⟩
  · refine ⟨hlt, ?_⟩
    rw [hdrop, skipSpaces, if_pos hc]
  · rw [hzero] at hc
    exact absurd hc (by decide)

private theorem skip_done (h : IsString command s) (hn : n ≤ s.length) (hc : command n ≠ space) :
    skipSpaces (s.drop n) = s.drop n := by
  rcases h.drop_cases hn with ⟨-, hdrop⟩ | ⟨-, hdrop, -⟩
  · rw [hdrop, skipSpaces, if_neg hc]
  · rw [hdrop]
    rfl

private theorem take_char (h : IsString command s) (hn : n ≤ s.length) (hc : isWordChar (command n) = true) :
    n < s.length ∧ (s.drop n).takeWhile isWordChar = command n :: (s.drop (n + 1)).takeWhile isWordChar ∧
      (s.drop n).dropWhile isWordChar = (s.drop (n + 1)).dropWhile isWordChar := by
  rcases h.drop_cases hn with ⟨hlt, hdrop⟩ | ⟨-, -, hzero⟩
  · refine ⟨hlt, ?_, ?_⟩
    · rw [hdrop, List.takeWhile_cons_of_pos hc]
    · rw [hdrop, List.dropWhile_cons_of_pos hc]
  · rw [hzero] at hc
    exact absurd hc (by decide)

private theorem take_done (h : IsString command s) (hn : n ≤ s.length) (hc : ¬isWordChar (command n) = true) :
    (s.drop n).takeWhile isWordChar = [] ∧ (s.drop n).dropWhile isWordChar = s.drop n := by
  rcases h.drop_cases hn with ⟨-, hdrop⟩ | ⟨-, hdrop, -⟩
  · rw [hdrop]
    exact ⟨List.takeWhile_cons_of_neg hc, List.dropWhile_cons_of_neg hc⟩
  · rw [hdrop]
    exact ⟨rfl, rfl⟩

end IsString

/-! ### The invariant of the loops -/

private theorem cString_snoc (word : List UInt8) (c : UInt8) :
    Function.update (cString word) word.length c = cString (word ++ [c]) := by
  funext a
  unfold cString
  rcases Nat.lt_trichotomy a word.length with hlt | rfl | hgt
  · rw [Function.update_of_ne (by omega), List.getD_append _ _ _ _ hlt]
  · rw [Function.update_self, List.getD_append_right _ _ _ _ (le_refl _), Nat.sub_self]
    rfl
  · rw [Function.update_of_ne (by omega), List.getD_eq_default _ _ (by omega), List.getD_eq_default]
    rw [List.length_append, List.length_singleton]
    omega

private theorem cString_nul (word : List UInt8) : Function.update (cString word) word.length 0 = cString word := by
  have hend : cString word word.length = 0 := List.getD_eq_default _ _ (le_refl _)
  rw [← hend, Function.update_eq_self]

private theorem storeAt_snoc (args : Nat → UInt8) (word : List UInt8) (c : UInt8) :
    Function.update (storeAt args 0 word) word.length c = storeAt args 0 (word ++ [c]) := by
  rw [storeAt_append, storeAt_cons, storeAt_nil, Nat.zero_add]

/-- The file name has been copied, with its NUL. -/
structure NameCopied (s : List UInt8) (p : Parse) : Prop where
  length : (firstWord s).length ≤ 32
  filename : p.filename = cString (firstWord s)
  stored : (firstWord s).length ∈ p.filenameStores

/-- What each loop has done so far.  `s.drop p.commandIndex` is the text that is left. -/
def PhaseFacts (s : List UInt8) (args : Nat → UInt8) (p : Parse) : Prop :=
  match p.phase with
  | .spaces =>
    skipSpaces (s.drop p.commandIndex) = skipSpaces s ∧ p.i = 0 ∧ p.commandLenCheck = 0 ∧ p.filename = cString [] ∧
      p.j = 0 ∧ p.args = args
  | .name =>
    ∃ word, word.length = p.i ∧ p.commandLenCheck = p.i ∧ p.i ≤ 32 ∧ p.filename = cString word ∧
      word ++ (s.drop p.commandIndex).takeWhile isWordChar = firstWord s ∧
      (s.drop p.commandIndex).dropWhile isWordChar = afterWord s ∧ p.j = 0 ∧ p.args = args
  | .gap =>
    NameCopied s p ∧ skipSpaces (s.drop p.commandIndex) = skipSpaces (afterWord s) ∧ p.j = 0 ∧ p.args = args
  | .args =>
    NameCopied s p ∧ ∃ word, word.length = p.j ∧ p.commandLenCheck = p.j ∧ p.j ≤ 32 ∧ p.args = storeAt args 0 word ∧
      word ++ (s.drop p.commandIndex).takeWhile isWordChar = firstWord (afterWord s)
  | .parsed =>
    NameCopied s p ∧ (firstWord (afterWord s)).length ≤ 32 ∧ p.args = storeAt args 0 (firstWord (afterWord s))
  | .nameTooLong => 32 < (firstWord s).length
  | .argsTooLong => NameCopied s p ∧ 32 < (firstWord (afterWord s)).length

/-- The invariant of the parsing of the text `s`. -/
structure Parsing (s : List UInt8) (args : Nat → UInt8) (p : Parse) : Prop where
  index : p.commandIndex ≤ s.length
  reads : ∀ r ∈ p.reads, r ≤ s.length
  filenameStores : ∀ r ∈ p.filenameStores, r < 32 ∨ (r = 32 ∧ (firstWord s).length = 32)
  argsStores : ∀ r ∈ p.argsStores, r < 32
  facts : PhaseFacts s args p

private theorem parsing_start (s : List UInt8) (args : Nat → UInt8) : Parsing s args (Parse.start args) where
  index := Nat.zero_le _
  reads := by simp [Parse.start]
  filenameStores := by simp [Parse.start]
  argsStores := by simp [Parse.start]
  facts := ⟨rfl, rfl, rfl, rfl, rfl, rfl⟩

section Step

variable {command args : Nat → UInt8} {s : List UInt8} {p : Parse}

private theorem reads_cons (h : Parsing s args p) : ∀ r ∈ p.commandIndex :: p.reads, r ≤ s.length :=
  List.forall_mem_cons.2 ⟨h.index, h.reads⟩

private theorem step_spaces (hs : IsString command s) (h : Parsing s args p) (hphase : p.phase = .spaces) :
    Parsing s args (parseStep command p) := by
  have hfacts := h.facts
  simp only [PhaseFacts, hphase] at hfacts
  obtain ⟨hleft, hi, hcheck, hname, hj, hargs⟩ := hfacts
  unfold parseStep
  simp only [hphase]
  by_cases hc : command p.commandIndex = space
  · obtain ⟨hlt, hskip⟩ := hs.skip_space h.index hc
    rw [if_pos hc]
    exact ⟨hlt, reads_cons h, h.filenameStores, h.argsStores, hskip.symm.trans hleft, hi, hcheck, hname, hj, hargs⟩
  · have hdone := hs.skip_done h.index hc
    rw [if_neg hc]
    refine ⟨h.index, reads_cons h, h.filenameStores, h.argsStores, [], ?_⟩
    rw [← hdone, hleft]
    exact ⟨hi.symm, hcheck.trans hi.symm, by simp only [hi]; omega, hname, rfl, rfl, hj, hargs⟩

private theorem step_name (hs : IsString command s) (h : Parsing s args p) (hphase : p.phase = .name) :
    Parsing s args (parseStep command p) := by
  have hfacts := h.facts
  simp only [PhaseFacts, hphase] at hfacts
  obtain ⟨word, hi, hcheck, hle, hname, htake, hdrop, hj, hargs⟩ := hfacts
  have hlength : (firstWord s).length = p.i + ((s.drop p.commandIndex).takeWhile isWordChar).length := by
    rw [← htake, List.length_append, hi]
  have hstores : p.i < 32 ∨ (p.i = 32 ∧ (firstWord s).length = 32) →
      ∀ r ∈ p.i :: p.filenameStores, r < 32 ∨ (r = 32 ∧ (firstWord s).length = 32) :=
    fun hi => List.forall_mem_cons.2 ⟨hi, h.filenameStores⟩
  unfold parseStep
  simp only [hphase]
  by_cases hc : isWordChar (command p.commandIndex) = true
  · obtain ⟨hlt, hword, hrest⟩ := hs.take_char h.index hc
    rw [if_pos hc]
    rw [hword, List.length_cons] at hlength
    by_cases hfull : p.commandLenCheck + 1 > 32
    · rw [if_pos hfull]
      have hlong : 32 < (firstWord s).length := by omega
      exact ⟨h.index, reads_cons h, h.filenameStores, h.argsStores, hlong⟩
    · rw [if_neg hfull]
      refine ⟨hlt, reads_cons h, hstores (.inl (by omega)), h.argsStores, word ++ [command p.commandIndex], ?_⟩
      rw [hword] at htake
      rw [hrest] at hdrop
      refine ⟨?_, congrArg (· + 1) hcheck, by dsimp only; omega, ?_, ?_, hdrop, hj, hargs⟩
      · rw [List.length_append, List.length_singleton, hi]
      · dsimp only
        rw [hname, ← hi, cString_snoc]
      · rw [List.append_assoc, List.singleton_append]
        exact htake
  · obtain ⟨hword, hrest⟩ := hs.take_done h.index hc
    rw [hword, List.append_nil] at htake
    rw [if_neg hc]
    subst htake
    refine ⟨h.index, reads_cons h, hstores (by omega), h.argsStores, ⟨by omega, ?_, ?_⟩, ?_, hj, hargs⟩
    · dsimp only
      rw [hname, ← hi, cString_nul]
    · exact hi ▸ List.mem_cons_self
    · rw [← hdrop, hrest]

private theorem step_gap (hs : IsString command s) (h : Parsing s args p) (hphase : p.phase = .gap) :
    Parsing s args (parseStep command p) := by
  have hfacts := h.facts
  simp only [PhaseFacts, hphase] at hfacts
  obtain ⟨hcopied, hleft, hj, hargs⟩ := hfacts
  unfold parseStep
  simp only [hphase]
  by_cases hc : command p.commandIndex = space
  · obtain ⟨hlt, hskip⟩ := hs.skip_space h.index hc
    rw [if_pos hc]
    exact ⟨hlt, reads_cons h, h.filenameStores, h.argsStores, { hcopied with }, hskip.symm.trans hleft, hj, hargs⟩
  · have hdone := hs.skip_done h.index hc
    rw [if_neg hc]
    refine ⟨h.index, reads_cons h, h.filenameStores, h.argsStores, { hcopied with }, [], ?_⟩
    rw [← hdone, hleft, storeAt_nil]
    exact ⟨hj.symm, hj.symm, by simp only [hj]; omega, hargs, rfl⟩

private theorem step_args (hs : IsString command s) (h : Parsing s args p) (hphase : p.phase = .args) :
    Parsing s args (parseStep command p) := by
  have hfacts := h.facts
  simp only [PhaseFacts, hphase] at hfacts
  obtain ⟨hcopied, word, hj, hcheck, hle, hargs, htake⟩ := hfacts
  have hlength : (firstWord (afterWord s)).length = p.j + ((s.drop p.commandIndex).takeWhile isWordChar).length := by
    rw [← htake, List.length_append, hj]
  unfold parseStep
  simp only [hphase]
  by_cases hc : isWordChar (command p.commandIndex) = true
  · obtain ⟨hlt, hword, -⟩ := hs.take_char h.index hc
    rw [if_pos hc]
    rw [hword, List.length_cons] at hlength
    by_cases hfull : p.commandLenCheck + 1 > 32
    · rw [if_pos hfull]
      have hcleared : ∀ r ∈ List.range 32 ++ p.argsStores, r < 32 := by
        intro r hr
        rcases List.mem_append.1 hr with hr | hr
        · exact List.mem_range.1 hr
        · exact h.argsStores r hr
      exact ⟨h.index, reads_cons h, h.filenameStores, hcleared, { hcopied with }, by omega⟩
    · rw [if_neg hfull]
      have hstores : ∀ r ∈ p.j :: p.argsStores, r < 32 := List.forall_mem_cons.2 ⟨by omega, h.argsStores⟩
      refine ⟨hlt, reads_cons h, h.filenameStores, hstores, { hcopied with }, word ++ [command p.commandIndex], ?_⟩
      rw [hword] at htake
      refine ⟨?_, congrArg (· + 1) hcheck, by dsimp only; omega, ?_, ?_⟩
      · rw [List.length_append, List.length_singleton, hj]
      · dsimp only
        rw [hargs, ← hj, storeAt_snoc]
      · rw [List.append_assoc, List.singleton_append]
        exact htake
  · obtain ⟨hword, -⟩ := hs.take_done h.index hc
    rw [hword, List.append_nil] at htake
    rw [if_neg hc]
    subst htake
    exact ⟨h.index, reads_cons h, h.filenameStores, h.argsStores, { hcopied with }, by omega, hargs⟩

theorem Parsing.step (hs : IsString command s) (h : Parsing s args p) : Parsing s args (parseStep command p) := by
  cases hphase : p.phase with
  | spaces => exact step_spaces hs h hphase
  | name => exact step_name hs h hphase
  | gap => exact step_gap hs h hphase
  | args => exact step_args hs h hphase
  | parsed | nameTooLong | argsTooLong =>
    have hsame : parseStep command p = p := by
      unfold parseStep
      simp only [hphase]
    rwa [hsame]

end Step

/-! ### The end of the parsing -/

/-- The loops that are still to come. -/
private def ParsePhase.left : ParsePhase → Nat
  | .spaces => 4
  | .name => 3
  | .gap => 2
  | .args => 1
  | .parsed | .nameTooLong | .argsTooLong => 0

section Run

variable {command args : Nat → UInt8} {s : List UInt8}

/-- A test that does not end its loop moves on in the text. -/
private theorem parseStep_lower (hs : IsString command s) {p : Parse} (h : Parsing s args p) (hopen : ¬p.Ended) :
    s.length - (parseStep command p).commandIndex + (parseStep command p).phase.left <
      s.length - p.commandIndex + p.phase.left := by
  have hspace : command p.commandIndex = space → p.commandIndex < s.length := fun hc => (hs.skip_space h.index hc).1
  have hchar : isWordChar (command p.commandIndex) = true → p.commandIndex < s.length :=
    fun hc => (hs.take_char h.index hc).1
  unfold parseStep
  cases hphase : p.phase with
  | spaces | gap =>
    dsimp only
    split
    · next hc =>
      have hlt := hspace hc
      dsimp only
      omega
    · simp only [ParsePhase.left]
      omega
  | name | args =>
    dsimp only
    split
    · next hc =>
      have hlt := hchar hc
      split
      · simp only [ParsePhase.left]
        omega
      · dsimp only
        omega
    · simp only [ParsePhase.left]
      omega
  | parsed => exact absurd (.inl hphase) hopen
  | nameTooLong => exact absurd (.inr (.inl hphase)) hopen
  | argsTooLong => exact absurd (.inr (.inr hphase)) hopen

theorem parse_spec (hs : IsString command s) (args : Nat → UInt8) (n : Nat) : Parsing s args (parse command args n) :=
  iterate_invariant (I := Parsing s args) (fun _ h => h.step hs) (parsing_start s args) n

private theorem parse_ends (hs : IsString command s) (args : Nat → UInt8) : ∃ n, (parse command args n).Ended :=
  iterate_ends (I := Parsing s args) (fun p => s.length - p.commandIndex + p.phase.left) (fun _ h => h.step hs)
    (fun _ h => parseStep_lower hs h) (parsing_start s args)

/-- The parsing of the memory finds the words that `sysExecute` scans the text for. -/
theorem parse_agrees (hs : IsString command s) (args : Nat → UInt8) {n : Nat} (hended : (parse command args n).Ended) :
    match (parse command args n).phase with
    | .parsed =>
      scanWord (skipSpaces s) [] = some (firstWord s, afterWord s) ∧
        scanWord (skipSpaces (afterWord s)) [] = some (firstWord (afterWord s), afterWord (afterWord s)) ∧
        (parse command args n).filename = cString (firstWord s) ∧
        (parse command args n).args = storeAt args 0 (firstWord (afterWord s))
    | .nameTooLong => scanWord (skipSpaces s) [] = none
    | .argsTooLong =>
      scanWord (skipSpaces s) [] = some (firstWord s, afterWord s) ∧ scanWord (skipSpaces (afterWord s)) [] = none
    | _ => False := by
  have hfacts := (parse_spec hs args n).facts
  unfold PhaseFacts at hfacts
  rw [scanWord_skipSpaces, scanWord_skipSpaces]
  rcases hended with hphase | hphase | hphase
  · simp only [hphase] at hfacts ⊢
    obtain ⟨hcopied, hlength, hargs⟩ := hfacts
    exact ⟨if_pos hcopied.length, if_pos hlength, hcopied.filename, hargs⟩
  · simp only [hphase] at hfacts ⊢
    exact if_neg (by omega)
  · simp only [hphase] at hfacts ⊢
    exact ⟨if_pos hfacts.1.length, if_neg (by omega)⟩

end Run

/-- The parsing of the string `s` ends, stays inside the string and the two arrays, and leaves a NUL-terminated copy of
the first word in the 32 bytes of `filename` unless it rejects the command. -/
structure ParsesSafely (command args : Nat → UInt8) (s : List UInt8) : Prop where
  ends : ∃ n, (parse command args n).Ended
  reads : ∀ n, ∀ r ∈ (parse command args n).reads, r ≤ s.length
  filenameStores : ∀ n, ∀ r ∈ (parse command args n).filenameStores, r < 32
  argsStores : ∀ n, ∀ r ∈ (parse command args n).argsStores, r < 1024
  copied : ∀ n, (parse command args n).phase = .parsed →
    (firstWord s).length < 32 ∧ ∀ a ≤ (firstWord s).length, (parse command args n).filename a = cString (firstWord s) a

/-- The parsing is safe exactly when the first word does not fill `filename` to its last byte. -/
theorem parse_safe_iff {command : Nat → UInt8} {s : List UInt8} (hs : IsString command s) (args : Nat → UInt8) :
    ParsesSafely command args s ↔ (firstWord s).length ≠ 32 := by
  constructor
  · intro hsafe hfull
    obtain ⟨n, hended⟩ := hsafe.ends
    have hfacts := (parse_spec hs args n).facts
    have hstores := hsafe.filenameStores n
    unfold PhaseFacts at hfacts
    -- the NUL has been stored behind the word, unless the word was rejected
    rcases hended with hphase | hphase | hphase
    · simp only [hphase] at hfacts
      have hlt := hstores _ hfacts.1.stored
      omega
    · simp only [hphase] at hfacts
      omega
    · simp only [hphase] at hfacts
      have hlt := hstores _ hfacts.1.stored
      omega
  · intro hlength
    refine ⟨parse_ends hs args, fun n => (parse_spec hs args n).reads, ?_, ?_, ?_⟩
    · intro n r hr
      have hstored := (parse_spec hs args n).filenameStores r hr
      omega
    · intro n r hr
      have hlt := (parse_spec hs args n).argsStores r hr
      omega
    · intro n hphase
      have hfacts := (parse_spec hs args n).facts
      simp only [PhaseFacts, hphase] at hfacts
      have hle := hfacts.1.length
      refine ⟨by omega, ?_⟩
      intro a _
      rw [hfacts.1.filename]

/-- The command `shell`. -/
theorem shell_parse_safe_iff :
    ParsesSafely (cString (asBytes "shell")) (fun _ => 0) (asBytes "shell") ↔
      (firstWord (asBytes "shell")).length ≠ 32 :=
  parse_safe_iff (isString_cString (by decide)) fun _ => 0

/-- A word of 32 characters: the NUL behind it is stored at `filename[32]`. -/
theorem full_name_overruns_filename :
    IsString (cString (List.replicate 32 0x61)) (List.replicate 32 0x61) ∧
      32 ∈ (parse (cString (List.replicate 32 0x61)) (fun _ => 0) 34).filenameStores ∧
      ¬ParsesSafely (cString (List.replicate 32 0x61)) (fun _ => 0) (List.replicate 32 0x61) := by
  have hstored : 32 ∈ (parse (cString (List.replicate 32 0x61)) (fun _ => 0) 34).filenameStores := by decide +kernel
  refine ⟨isString_cString (by decide), hstored, ?_⟩
  intro hsafe
  exact absurd (hsafe.filenameStores 34 32 hstored) (lt_irrefl _)

end BigChungOS
