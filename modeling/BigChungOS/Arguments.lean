import BigChungOS.ExitStatus
import BigChungOS.ProgramFiles

/-!
# From the command line to `sys_getargs`

A command is a name and an argument text, one or more words.  `sys_execute` stores what stands between the first gap and
the next delimiter, so only the first word of the text, and `sys_getargs` hands that to the program
(`args_delivered_iff`).  The layer that runs the same programs under another system splits the text into words and joins
them again, and delivers the whole text (`emulator_delivers`).

`sys_getargs` is not told how long its string is.  It copies as many bytes as the caller has asked for, and ends them
with a NUL at the index after the next, outside the buffer whatever its size (`sysGetargs_outside`).
-/

namespace BigChungOS

open Memory

/-! ### ece391emulate.c -/

/-- The `while (1)` loop of `ece391_execute`, from `scan` on: the words found. -/
def splitArgs : Nat → List UInt8 → List (List UInt8)
  | 0, _ => []
  | fuel + 1, scan =>
    match skipSpaces scan with
    | [] => []
    | c :: rest =>
      if c = 0 ∨ c = newline then []
      else (c :: rest).takeWhile isWordChar :: splitArgs fuel (((c :: rest).dropWhile isWordChar).drop 1)

/-- `ece391_execute` up to its `execv`: the vector of arguments, or `none` for its -1. -/
def emulateExecute (command : List UInt8) : Option (List (List UInt8)) :=
  if 1023 < command.length then none
  else
    let name := asBytes "./" ++ command.takeWhile isWordChar
    match command.dropWhile isWordChar with
    | [] => some [name]
    | _ :: scan => some (name :: splitArgs (scan.length + 1) scan)

/-- The loop of `ece391_getargs` over the arguments that are left; `buf` is what it has stored. -/
def getargsLoop : List (List UInt8) → Int → List UInt8 → Option (List UInt8)
  | [], nbytes, buf => if nbytes < 1 then none else some (buf ++ [0])
  | arg :: args, nbytes, buf =>
    if arg.length > nbytes then none
    else if args = [] then getargsLoop [] (nbytes - arg.length) (buf ++ arg)
    else if nbytes - arg.length < 1 then none
    else getargsLoop args (nbytes - arg.length - 1) (buf ++ arg ++ [space])

/-- `ece391_getargs`: the string it returns in `buf`, or `none` for its -1. -/
def emulateGetargs (argv : List (List UInt8)) (nbytes : Int) : Option (List UInt8) :=
  getargsLoop (argv.drop 1) nbytes []

/-! ### Commands with arguments -/

/-- Words with single spaces between them. -/
def joinWords : List (List UInt8) → List UInt8
  | [] => []
  | [word] => word
  | word :: words => word ++ space :: joinWords words

/-- A word: not empty, and without a delimiter. -/
def IsWord (word : List UInt8) : Prop := word ≠ [] ∧ ∀ c ∈ word, isWordChar c = true

instance (word : List UInt8) : Decidable (IsWord word) :=
  decidable_of_iff (word ≠ [] ∧ word.all isWordChar = true) (by rw [IsWord, List.all_eq_true])

/-- A name, spaces, and the argument text of the words, ended by a newline or by the NUL. -/
structure CommandLine (command name : List UInt8) (words : List (List UInt8)) : Prop where
  form : ∃ gap ending, command = name ++ List.replicate (gap + 1) space ++ joinWords words ++ ending ∧
    (ending = [] ∨ ending = [newline])
  isName : IsWord name
  isWord : ∀ word ∈ words, IsWord word
  some_word : words ≠ []
  short : (joinWords words).length ≤ 32

/-! ### Scanning words -/

private theorem joinWords_cons (word : List UInt8) {words : List (List UInt8)} (h : words ≠ []) :
    joinWords (word :: words) = word ++ space :: joinWords words := by
  cases words with
  | nil => exact absurd rfl h
  | cons _ _ => rfl

private theorem skipSpaces_replicate (n : Nat) (text : List UInt8) :
    skipSpaces (List.replicate n space ++ text) = skipSpaces text := by
  induction n with
  | zero => rfl
  | succ n ih => rw [List.replicate_succ, List.cons_append, skipSpaces, if_pos rfl, ih]

theorem IsWord.skipSpaces {word : List UInt8} (h : IsWord word) (rest : List UInt8) :
    skipSpaces (word ++ rest) = word ++ rest := by
  obtain ⟨hne, hchars⟩ := h
  cases word with
  | nil => exact absurd rfl hne
  | cons c word =>
    have hc : c ≠ space := by
      rintro rfl
      exact absurd (hchars space List.mem_cons_self) (by decide)
    rw [List.cons_append, BigChungOS.skipSpaces, if_neg hc]

/-- A word ends where a delimiter or the end of the text follows. -/
theorem IsWord.takeWhile {word : List UInt8} (h : IsWord word) {rest : List UInt8}
    (hrest : rest.takeWhile isWordChar = []) :
    (word ++ rest).takeWhile isWordChar = word ∧ (word ++ rest).dropWhile isWordChar = rest := by
  have hdrop : rest.dropWhile isWordChar = rest := by
    have happend := List.takeWhile_append_dropWhile (p := isWordChar) (l := rest)
    rwa [hrest] at happend
  rw [List.takeWhile_append_of_pos h.2, List.dropWhile_append_of_pos h.2, hrest, List.append_nil, hdrop]
  exact ⟨rfl, rfl⟩

/-- What stands behind the first word of a text is no word character. -/
private theorem rest_takeWhile {ending : List UInt8} (hending : ending = [] ∨ ending = [newline])
    (words : List (List UInt8)) :
    (if words = [] then ending else space :: joinWords words ++ ending).takeWhile isWordChar = [] := by
  split
  · rcases hending with rfl | rfl <;> rfl
  · rfl

private theorem joinWords_append (word : List UInt8) (words : List (List UInt8)) (ending : List UInt8) :
    joinWords (word :: words) ++ ending =
      word ++ if words = [] then ending else space :: joinWords words ++ ending := by
  split
  · next h =>
    subst h
    rfl
  · next h => rw [joinWords_cons word h, List.append_assoc]

/-! ### The emulator delivers the whole text -/

private theorem splitArgs_nil (fuel : Nat) : splitArgs fuel [] = [] := by
  cases fuel with
  | zero => rfl
  | succ _ => rfl

private theorem splitArgs_joinWords {words : List (List UInt8)} (hwords : ∀ word ∈ words, IsWord word)
    {ending : List UInt8} (hending : ending = [] ∨ ending = [newline]) {fuel : Nat} (hfuel : words.length < fuel)
    (gap : Nat) : splitArgs fuel (List.replicate gap space ++ (joinWords words ++ ending)) = words := by
  induction words generalizing fuel gap with
  | nil =>
    obtain ⟨fuel, rfl⟩ : ∃ n, fuel = n + 1 := ⟨fuel - 1, by omega⟩
    unfold splitArgs
    rw [skipSpaces_replicate]
    rcases hending with rfl | rfl <;> rfl
  | cons word words ih =>
    rw [List.length_cons] at hfuel
    obtain ⟨fuel, rfl⟩ : ∃ n, fuel = n + 1 := ⟨fuel - 1, by omega⟩
    have hword := hwords word List.mem_cons_self
    have hrest := ih (fun w hw => hwords w (List.mem_cons_of_mem _ hw)) (Nat.lt_of_succ_lt_succ hfuel) 0
    obtain ⟨htake, hdrop⟩ := hword.takeWhile (rest_takeWhile hending words)
    have hskip := hword.skipSpaces (if words = [] then ending else space :: joinWords words ++ ending)
    obtain ⟨c, word, rfl⟩ := List.exists_cons_of_ne_nil hword.1
    have hc : ¬(c = 0 ∨ c = newline) := by
      have hchar := hword.2 c List.mem_cons_self
      rw [isWordChar_iff] at hchar
      tauto
    unfold splitArgs
    rw [skipSpaces_replicate, joinWords_append, hskip]
    rw [List.cons_append] at htake hdrop ⊢
    dsimp only
    rw [if_neg hc, htake, hdrop]
    congr 1
    by_cases hlast : words = []
    · rw [if_pos hlast, hlast]
      rcases hending with rfl | rfl <;> exact splitArgs_nil fuel
    · rw [if_neg hlast]
      exact hrest

/-- The loop of `ece391_getargs` puts the words together again. -/
private theorem getargsLoop_joinWords {words : List (List UInt8)} (h : words ≠ []) {nbytes : Int}
    (hroom : ((joinWords words).length : Int) + 1 ≤ nbytes) (buf : List UInt8) :
    getargsLoop words nbytes buf = some (buf ++ joinWords words ++ [0]) := by
  induction words generalizing nbytes buf with
  | nil => exact absurd rfl h
  | cons word words ih =>
    unfold getargsLoop
    by_cases hlast : words = []
    · subst hlast
      have hword : joinWords [word] = word := rfl
      rw [hword] at hroom ⊢
      have hfits : ¬(word.length : Int) > nbytes := by omega
      have hend : ¬nbytes - word.length < 1 := by omega
      rw [if_neg hfits, if_pos rfl, getargsLoop, if_neg hend]
    · rw [joinWords_cons word hlast, List.length_append, List.length_cons] at hroom
      have hfits : ¬(word.length : Int) > nbytes := by omega
      have hend : ¬nbytes - word.length < 1 := by omega
      rw [if_neg hfits, if_neg hlast, if_neg hend, ih hlast (by omega), joinWords_cons word hlast]
      simp

private theorem length_le_joinWords {words : List (List UInt8)} (h : ∀ word ∈ words, IsWord word) :
    words.length ≤ (joinWords words).length := by
  induction words with
  | nil => exact Nat.zero_le _
  | cons word words ih =>
    have hword : 0 < word.length := List.length_pos_iff.2 (h word List.mem_cons_self).1
    by_cases hlast : words = []
    · subst hlast
      exact hword
    · have hrest := ih fun w hw => h w (List.mem_cons_of_mem _ hw)
      rw [joinWords_cons word hlast, List.length_append, List.length_cons, List.length_cons]
      omega

private theorem joinWords_bytes {words : List (List UInt8)} (h : ∀ word ∈ words, IsWord word) :
    (0 : UInt8) ∉ joinWords words := by
  induction words with
  | nil => exact List.not_mem_nil
  | cons word words ih =>
    have hword : (0 : UInt8) ∉ word := fun hmem =>
      absurd ((h word List.mem_cons_self).2 0 hmem) (by decide)
    by_cases hlast : words = []
    · subst hlast
      exact hword
    · have hrest := ih fun w hw => h w (List.mem_cons_of_mem _ hw)
      rw [joinWords_cons word hlast, List.mem_append, List.mem_cons]
      rintro (hmem | hmem | hmem)
      · exact hword hmem
      · exact absurd hmem (by decide)
      · exact hrest hmem

namespace CommandLine

variable {command name : List UInt8} {words : List (List UInt8)}

/-- The two implementations take the command apart alike. -/
private theorem name_eq (h : CommandLine command name words) :
    ∃ gap ending, command.takeWhile isWordChar = name ∧
      command.dropWhile isWordChar = space :: (List.replicate gap space ++ (joinWords words ++ ending)) ∧
      (ending = [] ∨ ending = [newline]) := by
  obtain ⟨gap, ending, rfl, hending⟩ := h.form
  have hrest : (space :: (List.replicate gap space ++ (joinWords words ++ ending))).takeWhile isWordChar = [] := rfl
  obtain ⟨htake, hdrop⟩ := h.isName.takeWhile hrest
  refine ⟨gap, ending, ?_⟩
  rw [List.replicate_succ, List.append_assoc, List.append_assoc, List.cons_append]
  exact ⟨htake, hdrop, hending⟩

/-- What `sys_execute` takes for the arguments is the first word of the text. -/
private theorem args_eq (h : CommandLine command name words) {word : List UInt8} {rest : List (List UInt8)}
    (hwords : words = word :: rest) : firstWord (afterWord command) = word := by
  obtain ⟨gap, ending, htake, hdrop, hending⟩ := h.name_eq
  have hcommand := List.takeWhile_append_dropWhile (p := isWordChar) (l := command)
  rw [htake] at hcommand
  have hskip : skipSpaces command = command := by rw [← hcommand, h.isName.skipSpaces]
  have hword := h.isWord word (hwords ▸ List.mem_cons_self)
  unfold firstWord afterWord
  rw [hskip, hdrop, skipSpaces, if_pos rfl, skipSpaces_replicate, hwords, joinWords_append, hword.skipSpaces]
  exact (hword.takeWhile (rest_takeWhile hending rest)).1

/-- The emulator delivers the argument text. -/
theorem emulator_delivers (h : CommandLine command name words) {argv : List (List UInt8)}
    (hargv : emulateExecute command = some argv) {nbytes : Int}
    (hroom : ((joinWords words).length : Int) + 1 ≤ nbytes) :
    emulateGetargs argv nbytes = some (joinWords words ++ [0]) := by
  obtain ⟨gap, ending, -, hdrop, hending⟩ := h.name_eq
  unfold emulateExecute at hargv
  split at hargv
  · cases hargv
  dsimp only at hargv
  rw [hdrop, Option.some.injEq] at hargv
  have hlength : words.length < (List.replicate gap space ++ (joinWords words ++ ending)).length + 1 := by
    have hle := length_le_joinWords h.isWord
    rw [List.length_append, List.length_append]
    omega
  rw [splitArgs_joinWords h.isWord hending hlength] at hargv
  unfold emulateGetargs
  rw [← hargv, List.drop_one, List.tail_cons, getargsLoop_joinWords h.some_word hroom, List.nil_append]

end CommandLine

/-- The arguments in the PCB of a new process. -/
theorem launch_args (k : Kernel) (pid : Fin 6) (args stored : List UInt8) (frame : Frame) :
    ((launch (prepared k pid args) stored frame).allPcbs pid).args = fun i =>
      if i < args.length then args.getD i 0 else if i < 1024 then 0 else (k.allPcbs pid).args i := by
  funext i
  simp [launch, prepared, initPcb]

/-! ### What leaves the arguments alone -/

/-- If `p` is in use, it stays so, with its arguments. -/
def ArgsKept (p : Fin 6) (k k' : Kernel) : Prop :=
  k.inUse p = true → k'.inUse p = true ∧ (k'.allPcbs p).args = (k.allPcbs p).args

section Keep

variable {p : Fin 6} {k k' k'' : Kernel}

theorem argsKept_of_pcb (h : k'.allPcbs p = k.allPcbs p) : ArgsKept p k k' := by
  intro hp
  rw [Kernel.inUse, h]
  exact ⟨hp, rfl⟩

theorem ArgsKept.refl (k : Kernel) : ArgsKept p k k := argsKept_of_pcb rfl

theorem ArgsKept.trans (h : ArgsKept p k k') (h' : ArgsKept p k' k'') : ArgsKept p k k'' := by
  intro hp
  obtain ⟨huse, hargs⟩ := h hp
  obtain ⟨huse', hargs'⟩ := h' huse
  exact ⟨huse', hargs'.trans hargs⟩

/-- A store to a PCB that leaves its `in_use` and its arguments alone. -/
private theorem setPcb_argsKept (k : Kernel) (q : Fin 6) {f : Pcb → Pcb} (huse : ∀ pcb, (f pcb).inUse = pcb.inUse)
    (hargs : ∀ pcb, (f pcb).args = pcb.args) : ArgsKept p k (k.setPcb q f) := by
  by_cases hp : p = q
  · subst hp
    intro h
    simp only [Kernel.inUse, setPcb_allPcbs, Function.update_self, huse, hargs]
    exact ⟨h, trivial⟩
  · exact argsKept_of_pcb (by rw [setPcb_allPcbs, Function.update_of_ne hp])

private theorem puts_argsKept (k : Kernel) (s : List UInt8) : ArgsKept p k (puts k s) := by
  rw [puts_eq]
  exact argsKept_of_pcb rfl

theorem FilesOnly.argsKept (h : FilesOnly k k') : ArgsKept p k k' := by
  obtain ⟨fdt, hfdt⟩ := h.pcbs
  by_cases hp : p = k.pidCounter
  · subst hp
    intro huse
    simp only [Kernel.inUse, hfdt, Function.update_self]
    exact ⟨huse, trivial⟩
  · exact argsKept_of_pcb (by rw [hfdt, Function.update_of_ne hp])

theorem sysOpen_argsKept {filename : Nat → UInt8} {r : Int} (h : sysOpen k filename = some (k', r)) :
    ArgsKept p k k' := by
  rcases sysOpen_cases h with rfl | ⟨d, f, ⟨c, rfl⟩ | rfl⟩
  · exact ArgsKept.refl k'
  · exact (setFd_filesOnly k d f).argsKept.trans (argsKept_of_pcb rfl)
  · exact (setFd_filesOnly k d f).argsKept.trans (argsKept_of_pcb rfl)

theorem sysRead_argsKept {fd nbytes r : Int} {buf : Ptr} {stored : List UInt8}
    (h : sysRead k fd buf nbytes = some (k', r, stored)) : ArgsKept p k k' := by
  rcases sysRead_cases h with ⟨c, rfl⟩ | rfl | ⟨d, f, rfl⟩ | rfl
  · exact argsKept_of_pcb rfl
  · exact argsKept_of_pcb rfl
  · exact (setFd_filesOnly k d f).argsKept
  · exact argsKept_of_pcb rfl

theorem sysWrite_argsKept {fd nbytes r : Int} {buf : Ptr} (h : sysWrite k fd buf nbytes = some (k', r)) :
    ArgsKept p k k' := by
  rcases sysWrite_cases h with ⟨c, rfl⟩ | ⟨s, rfl⟩
  · exact argsKept_of_pcb rfl
  · exact puts_argsKept k s

private theorem sysVidmap_argsKept {screenStart : Nat} {r : Int} (h : sysVidmap k screenStart = some (k', r)) :
    ArgsKept p k k' := by
  unfold sysVidmap at h
  split at h
  · cases h
    exact ArgsKept.refl k
  · split at h
    · cases h
    · cases h
      exact argsKept_of_pcb rfl

/-- `sys_getargs` of another process clears the arguments of that one. -/
private theorem sysGetargs_argsKept {nbytes : Int} {g : Getargs} (hp : k.pidCounter ≠ p)
    (h : sysGetargs k nbytes = some (k', g)) : ArgsKept p k k' := by
  unfold sysGetargs at h
  dsimp only at h
  split at h
  · cases h
    exact ArgsKept.refl k
  · split at h
    · cases h
    · simp only [Option.some.injEq, Prod.mk.injEq] at h
      obtain ⟨rfl, -⟩ := h
      exact argsKept_of_pcb (by rw [clearArgs, setPcb_allPcbs, Function.update_of_ne hp.symm])

private theorem switchTerminalKeypress_argsKept (k : Kernel) (targetTerminal : Nat) :
    ArgsKept p k (switchTerminalKeypress k targetTerminal) := by
  unfold switchTerminalKeypress
  split
  · exact argsKept_of_pcb rfl
  · refine argsKept_of_pcb ?_
    simp [switchTo, saveCursor, loadCursor, updateScreenAxis]

theorem keyboardHandler_argsKept (k : Kernel) (scanCode : Nat) (past : UInt8) :
    ArgsKept p k (keyboardHandler k scanCode past).1 := by
  refine keyboardHandler_keeps (P := ArgsKept p k) (ArgsKept.refl k) scanCode past ?_ ?_ ?_ ?_ ?_ ?_
  · exact fun _ _ _ h => h
  · exact fun _ _ h => h
  · exact fun _ h => h
  · exact fun _ h => h
  · exact fun _ h => h
  · exact fun k n h => h.trans (switchTerminalKeypress_argsKept k n)

theorem pitHandler_argsKept (k : Kernel) (frame execFrame : Frame) :
    ArgsKept p k (pitHandler k frame execFrame).1 := by
  have hsave : ArgsKept p k (pitSave k frame) := by
    have hebp := setPcb_argsKept (p := p) k (k.curr.ebp k.curr.currProcess)
      (f := fun pcb => { pcb with ebpTask := frame.ebp }) (fun _ => rfl) fun _ => rfl
    have hesp := fun k' : Kernel => setPcb_argsKept (p := p) k' (k'.curr.esp k'.curr.currProcess)
      (f := fun pcb => { pcb with espTask := frame.esp }) (fun _ => rfl) fun _ => rfl
    exact hebp.trans (hesp _)
  refine pitHandler_keeps (P := ArgsKept p k) hsave ?_ ?_ ?_ ?_ ?_
  · exact fun _ _ h => h
  · exact fun _ s h => h.trans (puts_argsKept _ s)
  · exact fun k' h => h.trans fun hp => argsKept_of_pcb (sysExecute_pcb k' _ execFrame hp) hp
  · exact fun _ h => h
  · exact fun _ h => h

/-- What can happen while process `p` runs, short of its own `sys_getargs` and its end. -/
inductive OtherCall (p : Fin 6) : Kernel → Kernel → Prop
  | open_ {k k' : Kernel} {filename : Nat → UInt8} {r : Int} (h : sysOpen k filename = some (k', r)) : OtherCall p k k'
  | close {k : Kernel} {fd : Int} : OtherCall p k (sysClose k fd).1
  | read {k k' : Kernel} {fd nbytes r : Int} {buf : Ptr} {stored : List UInt8}
      (h : sysRead k fd buf nbytes = some (k', r, stored)) : OtherCall p k k'
  | write {k k' : Kernel} {fd nbytes r : Int} {buf : Ptr} (h : sysWrite k fd buf nbytes = some (k', r)) :
      OtherCall p k k'
  | vidmap {k k' : Kernel} {screenStart : Nat} {r : Int} (h : sysVidmap k screenStart = some (k', r)) : OtherCall p k k'
  | getargs {k k' : Kernel} {nbytes : Int} {g : Getargs} (hp : k.pidCounter ≠ p)
      (h : sysGetargs k nbytes = some (k', g)) : OtherCall p k k'
  | execute {k : Kernel} {command : Option (List UInt8)} {frame : Frame} :
      OtherCall p k (sysExecute k command frame).1
  | halt {k : Kernel} {status : UInt8} {frame : Frame} (hp : k.pidCounter ≠ p) :
      OtherCall p k (sysHalt k status frame).1
  | finishHalt {k : Kernel} {status : UInt8} : OtherCall p k (haltReturn k status).1
  | key {k : Kernel} {scanCode : Nat} {past : UInt8} : OtherCall p k (keyboardHandler k scanCode past).1
  | tick {k : Kernel} {frame execFrame : Frame} : OtherCall p k (pitHandler k frame execFrame).1

theorem OtherCall.argsKept (h : OtherCall p k k') : ArgsKept p k k' := by
  cases h with
  | open_ h => exact sysOpen_argsKept h
  | close => exact (sysClose_filesOnly k _).argsKept
  | read h => exact sysRead_argsKept h
  | write h => exact sysWrite_argsKept h
  | vidmap h => exact sysVidmap_argsKept h
  | getargs hp h => exact sysGetargs_argsKept hp h
  | execute => exact fun hp => argsKept_of_pcb (sysExecute_pcb k _ _ hp) hp
  | halt hp => exact fun huse => argsKept_of_pcb (sysHalt_pcb k _ _ huse hp.symm) huse
  | finishHalt => exact argsKept_of_pcb (congrFun (haltReturn_spec k _).pcbs p)
  | key => exact keyboardHandler_argsKept k _ _
  | tick => exact pitHandler_argsKept k _ _

private theorem otherCalls_argsKept (h : Relation.ReflTransGen (OtherCall p) k k') : ArgsKept p k k' := by
  induction h with
  | refl => exact ArgsKept.refl k
  | tail _ hlast ih => exact ih.trans hlast.argsKept

end Keep

/-! ### `sys_getargs` -/

/-- The memory at `buf` after the stores. -/
def applyStores (buf : Int → UInt8) (stores : List (Int × UInt8)) : Int → UInt8 :=
  stores.foldl (fun m e => Function.update m e.1 e.2) buf

/-- What the copy and the NUL behind it leave in the first `n` bytes. -/
private theorem applyStores_copied (buf : Int → UInt8) (args : Nat → UInt8) {n : Nat} {last : Int × UInt8}
    (hlast : last.1 < 0 ∨ (n : Int) ≤ last.1) {i : Nat} (hi : i < n) :
    applyStores buf ((List.range n).map (fun i : Nat => ((i : Int), args i)) ++ [last]) i = args i := by
  have hcopy : ∀ n, i < n → applyStores buf ((List.range n).map fun i : Nat => ((i : Int), args i)) i = args i := by
    intro n
    induction n with
    | zero => omega
    | succ n ih =>
      intro hi
      unfold applyStores at ih ⊢
      rw [List.range_succ, List.map_append, List.foldl_append, List.map_singleton, List.foldl_cons, List.foldl_nil]
      dsimp only
      by_cases heq : i = n
      · subst heq
        exact Function.update_self _ _ _
      · rw [Function.update_of_ne (by omega), ih (by omega)]
  have hne : (i : Int) ≠ last.1 := by omega
  have hbefore := hcopy n hi
  unfold applyStores at hbefore ⊢
  rw [List.foldl_append, List.foldl_cons, List.foldl_nil, Function.update_of_ne hne]
  exact hbefore

/-- A call that finds arguments and is given a length in range. -/
theorem sysGetargs_eq {k : Kernel} (hargs : (k.allPcbs k.pidCounter).args 0 ≠ 0) {nbytes : Int} (hn : 0 ≤ nbytes) :
    sysGetargs k nbytes = some (clearArgs k,
      { result := 0
        loads := 0 :: List.range nbytes.toNat
        stores := (List.range nbytes.toNat).map (fun i : Nat => ((i : Int), (k.allPcbs k.pidCounter).args i)) ++
          [(toInt32 (nbytes + 1), 0)] }) := by
  have hneg : ¬nbytes < 0 := by omega
  unfold sysGetargs
  dsimp only
  rw [if_neg hargs, if_neg hneg]

/-- The arguments come back as a string, if the buffer has room for it. -/
private theorem sysGetargs_string {k : Kernel} {text : List UInt8} (hargs : IsString (k.allPcbs k.pidCounter).args text)
    (htext : text ≠ []) {nbytes : Int} (hroom : (text.length : Int) + 1 ≤ nbytes) (hmax : nbytes < 2147483648) :
    ∃ k' g, sysGetargs k nbytes = some (k', g) ∧ g.result = 0 ∧
      ∀ buf, IsString (fun i : Nat => applyStores buf g.stores i) text := by
  have hfirst : (k.allPcbs k.pidCounter).args 0 ≠ 0 := by
    rw [hargs.spelled 0 (Nat.zero_le _)]
    exact (cString_ne_zero hargs.bytes).2 (List.length_pos_iff.2 htext)
  have hoff : toInt32 (nbytes + 1) < 0 ∨ (nbytes.toNat : Int) ≤ toInt32 (nbytes + 1) := by
    unfold toInt32
    omega
  refine ⟨_, _, sysGetargs_eq hfirst (by omega), rfl, fun buf => ⟨hargs.bytes, ?_⟩⟩
  intro i hi
  dsimp only
  rw [applyStores_copied buf _ hoff (by omega)]
  exact hargs.spelled i hi

/-! ### Whether the text is delivered -/

/-- The new process has the text in its arguments; its first `sys_getargs` with a buffer that is large enough, whatever
happens before, returns it; and that is what the emulator delivers when it accepts the command. -/
structure DeliversArgs (k : Kernel) (command : List UInt8) (frame : Frame) (text : List UInt8) : Prop where
  stored : IsString
    ((sysExecute k (some command) frame).1.allPcbs (sysExecute k (some command) frame).1.pidCounter).args
    text
  returned : ∀ k', Relation.ReflTransGen (OtherCall (sysExecute k (some command) frame).1.pidCounter)
      (sysExecute k (some command) frame).1 k' → k'.pidCounter = (sysExecute k (some command) frame).1.pidCounter →
    ∀ nbytes : Int, (text.length : Int) + 1 ≤ nbytes → nbytes < 2147483648 →
      ∃ k'' g, sysGetargs k' nbytes = some (k'', g) ∧ g.result = 0 ∧
        ∀ buf, IsString (fun i : Nat => applyStores buf g.stores i) text
  emulated : ∀ argv, emulateExecute command = some argv → ∀ nbytes : Int, (text.length : Int) + 1 ≤ nbytes →
    emulateGetargs argv nbytes = some (text ++ [0])

/-- The arguments that are stored are the first word, and they are the text exactly when there is no other. -/
private theorem stored_iff {word : List UInt8} {rest : List (List UInt8)} {args : Nat → UInt8} {old : Nat → UInt8}
    (hargs : args = fun i => if i < word.length then word.getD i 0 else if i < 1024 then 0 else old i)
    (hbytes : (0 : UInt8) ∉ joinWords (word :: rest)) (hshort : (joinWords (word :: rest)).length ≤ 32) :
    IsString args (joinWords (word :: rest)) ↔ rest = [] := by
  constructor
  · intro hstored
    by_contra hrest
    rw [joinWords_cons word hrest] at hstored hshort
    rw [List.length_append, List.length_cons] at hshort
    -- a NUL stands where the text has its first space
    have hspelled := hstored.spelled word.length (by rw [List.length_append, List.length_cons]; omega)
    have hzero : word.length < 1024 := by omega
    have hspace : cString (word ++ space :: joinWords rest) word.length = space := by
      unfold cString
      rw [List.getD_append_right _ _ _ _ (le_refl _), Nat.sub_self]
      rfl
    rw [hargs] at hspelled
    dsimp only at hspelled
    rw [if_neg (lt_irrefl _), if_pos hzero, hspace] at hspelled
    exact absurd hspelled (by decide)
  · rintro rfl
    refine ⟨hbytes, ?_⟩
    intro i hi
    have htext : joinWords [word] = word := rfl
    rw [htext] at hi hshort ⊢
    rw [hargs]
    dsimp only
    split
    · rfl
    · have hlt : i < 1024 := by omega
      rw [if_pos hlt]
      exact (List.getD_eq_default _ _ (by omega)).symm

/-- The argument text reaches the program exactly when it is one word. -/
theorem args_delivered_iff {k : Kernel} {command name : List UInt8} {words : List (List UInt8)} {frame : Frame}
    {eip : Int} (h : CommandLine command name words)
    (hlaunched : (sysExecute k (some command) frame).2 = .launched eip) :
    DeliversArgs k command frame (joinWords words) ↔ words.length = 1 := by
  obtain ⟨text, pid, htext, -, -, -, hstate⟩ := sysExecute_launched_eq hlaunched
  cases htext
  obtain ⟨word, rest, rfl⟩ := List.exists_cons_of_ne_nil h.some_word
  have hpid : (sysExecute k (some command) frame).1.pidCounter = pid := by
    rw [hstate]
    rfl
  have hargs : ((sysExecute k (some command) frame).1.allPcbs pid).args = fun i =>
      if i < word.length then word.getD i 0 else if i < 1024 then 0 else (k.allPcbs pid).args i := by
    rw [hstate, launch_args, h.args_eq rfl]
  have hstored := stored_iff hargs (joinWords_bytes h.isWord) h.short
  have hone : (word :: rest).length = 1 ↔ rest = [] := by
    rw [List.length_cons, Nat.add_eq_right, List.length_eq_zero_iff]
  rw [hone, ← hstored]
  constructor
  · intro hdelivers
    have hfirst := hdelivers.stored
    rwa [hpid] at hfirst
  · intro hfirst
    refine ⟨by rwa [hpid], ?_, fun argv hargv nbytes hroom => h.emulator_delivers hargv hroom⟩
    rw [hpid]
    intro k' hrun hcurrent nbytes hroom hmax
    have hinuse : (sysExecute k (some command) frame).1.inUse pid = true := by
      have hlaunch := (sysExecute_launched hlaunched).inUse
      rwa [hpid] at hlaunch
    have hkept := (otherCalls_argsKept hrun hinuse).2
    refine sysGetargs_string ?_ ?_ hroom hmax
    · rw [hcurrent, hkept]
      exact hfirst
    · obtain rfl := hstored.1 hfirst
      exact (h.isWord word List.mem_cons_self).1

/-- The first shell executes `shell a`. -/
theorem firstShell_args_delivered_iff :
    DeliversArgs firstShell (asBytes "shell a") frame₀ (joinWords [asBytes "a"]) ↔ [asBytes "a"].length = 1 := by
  have hline : CommandLine (asBytes "shell a") (asBytes "shell") [asBytes "a"] :=
    { form := ⟨0, [], by decide, .inl rfl⟩
      isName := by decide
      isWord := by decide
      some_word := by decide
      short := by decide }
  have hlaunched : (sysExecute firstShell (some (asBytes "shell a")) frame₀).2 = .launched 0x8048000 := by
    decide +kernel
  exact args_delivered_iff hline hlaunched

/-- With `shell a b`, the new process has the argument `a`; the emulator delivers `a b`. -/
theorem second_word_lost :
    CommandLine (asBytes "shell a b") (asBytes "shell") [asBytes "a", asBytes "b"] ∧
      (sysExecute firstShell (some (asBytes "shell a b")) frame₀).2 = .launched 0x8048000 ∧
      ¬DeliversArgs firstShell (asBytes "shell a b") frame₀ (joinWords [asBytes "a", asBytes "b"]) := by
  have hline : CommandLine (asBytes "shell a b") (asBytes "shell") [asBytes "a", asBytes "b"] :=
    { form := ⟨0, [], by decide, .inl rfl⟩
      isName := by decide
      isWord := by decide
      some_word := by decide
      short := by decide }
  refine ⟨hline, by decide +kernel, ?_⟩
  intro hdelivers
  have hspelled := hdelivers.stored.spelled 1 (by decide)
  have hstored : ((sysExecute firstShell (some (asBytes "shell a b")) frame₀).1.allPcbs
      (sysExecute firstShell (some (asBytes "shell a b")) frame₀).1.pidCounter).args 1 = 0 := by decide +kernel
  rw [hstored] at hspelled
  exact absurd hspelled (by decide)

/-! ### Whether the buffer is respected -/

/-- A call of `sys_getargs` with `nbytes` bytes of buffer, when the arguments are `text`: it stores only to the buffer,
reads only the 1024 bytes of `args`, and returns the text with its NUL, or -1 with nothing changed. -/
def RespectsBuffer (k : Kernel) (nbytes : Int) (text : List UInt8) : Prop :=
  ∃ k' g, sysGetargs k nbytes = some (k', g) ∧ (∀ e ∈ g.stores, 0 ≤ e.1 ∧ e.1 < nbytes) ∧ (∀ i ∈ g.loads, i < 1024) ∧
    ((g.result = 0 ∧ (text.length : Int) + 1 ≤ nbytes ∧
        ∀ buf, IsString (fun i : Nat => applyStores buf g.stores i) text) ∨
      (g.result = -1 ∧ g.stores = [] ∧ (k'.allPcbs k.pidCounter).args = (k.allPcbs k.pidCounter).args))

/-- No call that finds arguments respects its buffer: it faults, or stores at `buf[nbytes + 1]`. -/
theorem sysGetargs_outside {k : Kernel} {text : List UInt8} (hargs : IsString (k.allPcbs k.pidCounter).args text)
    (htext : text ≠ []) {nbytes : Int} (hmax : nbytes < 2147483648) : ¬RespectsBuffer k nbytes text := by
  have hfirst : (k.allPcbs k.pidCounter).args 0 ≠ 0 := by
    rw [hargs.spelled 0 (Nat.zero_le _)]
    exact (cString_ne_zero hargs.bytes).2 (List.length_pos_iff.2 htext)
  rintro ⟨k', g, hcall, hstores, -, -⟩
  by_cases hn : 0 ≤ nbytes
  · rw [sysGetargs_eq hfirst hn, Option.some.injEq, Prod.mk.injEq] at hcall
    obtain ⟨-, rfl⟩ := hcall
    have hlast := hstores (toInt32 (nbytes + 1), 0) (List.mem_append_right _ (List.mem_singleton_self _))
    unfold toInt32 at hlast
    omega
  · have hneg : nbytes < 0 := by omega
    unfold sysGetargs at hcall
    dsimp only at hcall
    rw [if_neg hfirst, if_pos hneg] at hcall
    cases hcall

/-- The shell that was launched by `shell a`. -/
def shellWithArgs : Kernel := (sysExecute firstShell (some (asBytes "shell a")) frame₀).1

private theorem shellWithArgs_args : IsString (shellWithArgs.allPcbs shellWithArgs.pidCounter).args (asBytes "a") where
  bytes := by decide
  spelled := by
    have hspelled : ∀ i < 2, (shellWithArgs.allPcbs shellWithArgs.pidCounter).args i = cString (asBytes "a") i := by
      decide +kernel
    exact fun i hi => hspelled i (Nat.lt_succ_of_le hi)

/-- It asks for its arguments with a buffer of 1024 bytes, as the programs do. -/
theorem shellWithArgs_outside : ¬RespectsBuffer shellWithArgs 1024 (asBytes "a") :=
  sysGetargs_outside shellWithArgs_args (by decide) (by decide)

/-- The NUL is stored at index 1025 of that buffer. -/
theorem getargs_overruns_buffer :
    IsString (shellWithArgs.allPcbs shellWithArgs.pidCounter).args (asBytes "a") ∧
      (∀ k' g, sysGetargs shellWithArgs 1024 = some (k', g) → ((1025 : Int), (0 : UInt8)) ∈ g.stores) ∧
      ¬RespectsBuffer shellWithArgs 1024 (asBytes "a") := by
  have hfirst : (shellWithArgs.allPcbs shellWithArgs.pidCounter).args 0 ≠ 0 := by decide +kernel
  have hstored : ∀ k' g, sysGetargs shellWithArgs 1024 = some (k', g) → ((1025 : Int), (0 : UInt8)) ∈ g.stores := by
    intro k' g hcall
    rw [sysGetargs_eq hfirst (by decide), Option.some.injEq, Prod.mk.injEq] at hcall
    obtain ⟨-, rfl⟩ := hcall
    exact List.mem_append_right _ (List.mem_singleton_self _)
  refine ⟨shellWithArgs_args, hstored, ?_⟩
  rintro ⟨k', g, hcall, hstores, -⟩
  have hlast := (hstores _ (hstored k' g hcall)).2
  exact absurd hlast (by decide)

end BigChungOS
