import BigChungOS.Grep
import BigChungOS.ShellCommands

/-!
# The shell

`main` of the shell as a tree of calls (`shell`), for at most `n` rounds.  What it prints follows from the lines that
are typed: the prompt for each, and behind it what the program of the command prints, or a message if there is none
(`Answers`, `shell_session`).  The messages about programs that end badly are never printed, since to the shell
`execute` returns 0 or -1.
-/

namespace BigChungOS

open Memory Programs Programs.Program

/-! ### ece391shell.c -/

/-- `ece391_strcmp`, with a string constant. -/
def ece391Strcmp : (Nat → UInt8) → List UInt8 → Int
  | s1, [] => (s1 0).toNat
  | s1, c :: s2 =>
    if s1 0 = c then
      if s1 0 = 0 then 0 else ece391Strcmp (fun i => s1 (i + 1)) s2
    else (s1 0).toNat - c.toNat

/-- `ece391_fdputs` on the screen. -/
def shellPuts (s : List UInt8) : Program ShellCall CallResult Unit := do
  let _ ← send (.sys (.write 1 s))

def prompt : List UInt8 := asBytes "391OS> "

/-- The buffer after a read, with a NUL in place of the newline at the end. -/
def shellBuffer (buf : Nat → UInt8) (r : CallResult) : Nat → UInt8 :=
  let buf := storeAt buf 0 r.2
  let cnt := if 0 < r.1 ∧ buf (r.1 - 1).toNat = newline then r.1 - 1 else r.1
  Function.update buf cnt.toNat 0

/-- A round of the loop of the shell, over the buffer. -/
def shellRound (buf : Nat → UInt8) : Program ShellCall CallResult ((Nat → UInt8) ⊕ Int) := do
  shellPuts prompt
  let r ← send (.sys (.read 0 1023))
  if r.1 = -1 then do
    shellPuts (asBytes "read from keyboard failed\n")
    pure (.inr 3)
  else if ece391Strcmp (shellBuffer buf r) (asBytes "exit") = 0 then pure (.inr 0)
  else if shellBuffer buf r 0 = 0 then pure (.inl (shellBuffer buf r))
  else do
    let rval ← send (.execute (textAt (shellBuffer buf r) 0 1024))
    if rval.1 = -1 then shellPuts (asBytes "no such command\n")
    else if rval.1 = 256 then shellPuts (asBytes "program terminated by exception\n")
    else if rval.1 ≠ 0 then shellPuts (asBytes "program terminated abnormally\n")
    pure (.inl (shellBuffer buf r))

/-- `main` of the shell. -/
def shell (n : Nat) (buf : Nat → UInt8) : Program ShellCall CallResult (Option Int) := do
  shellPuts (asBytes "Starting 391 Shell\n")
  loop shellRound n buf

/-! ### The lines -/

/-- The line in the buffer: what has been read, without the newline. -/
def readLine (r : CallResult) : List UInt8 :=
  let typed := r.2.take r.1.toNat
  if typed.getLast? = some newline then typed.dropLast else typed

/-- The lines that the calls have read. -/
def typedLines (log : List (ShellCall × CallResult)) : List (List UInt8) :=
  log.filterMap fun call =>
    match call with
    | (.sys (.read _ _), r) => some (readLine r)
    | _ => none

private theorem typedLines_append (log log' : List (ShellCall × CallResult)) :
    typedLines (log ++ log') = typedLines log ++ typedLines log' := List.filterMap_append ..

private theorem ece391Strcmp_eq_zero_iff {s1 : Nat → UInt8} {line s2 : List UInt8} (h : IsString s1 line)
    (hs2 : (0 : UInt8) ∉ s2) : ece391Strcmp s1 s2 = 0 ↔ line = s2 := by
  have hfirst : s1 0 = cString line 0 := h.spelled 0 (Nat.zero_le _)
  have hzero : ∀ c : UInt8, (c.toNat : Int) = 0 ↔ c = 0 := by
    intro c
    rw [← UInt8.toNat_inj]
    exact Int.natCast_eq_zero
  induction s2 generalizing s1 line with
  | nil =>
    rw [ece391Strcmp, hzero, hfirst]
    cases line with
    | nil => simp [cString]
    | cons a line =>
      have hne : cString (a :: line) 0 ≠ 0 := fun ha => h.bytes (List.mem_cons.2 (.inl ha.symm))
      exact iff_of_false hne (by simp)
  | cons c s2 ih =>
    obtain ⟨hc, hs2⟩ := not_or.1 (fun hmem => hs2 (List.mem_cons.2 hmem))
    rw [ece391Strcmp]
    cases line with
    | nil =>
      have hnul : s1 0 = 0 := hfirst
      have hpos := (hzero c).not.2 (Ne.symm hc)
      rw [hnul, if_neg hc]
      exact iff_of_false (by simpa using hpos) (by simp)
    | cons a line =>
      have ha : s1 0 = a := hfirst
      obtain ⟨hnul, hbytes⟩ := not_or.1 (fun hmem => h.bytes (List.mem_cons.2 hmem))
      rw [ha, List.cons.injEq]
      by_cases hac : a = c
      · have hrest : IsString (fun i => s1 (i + 1)) line :=
          ⟨hbytes, fun i hi => (h.spelled (i + 1) (Nat.succ_le_succ hi)).trans (cString_cons a line i)⟩
        rw [if_pos hac, if_neg (Ne.symm hnul), and_iff_right hac]
        exact ih hrest hs2 (hrest.spelled 0 (Nat.zero_le _))
      · have hne : (a.toNat : Int) ≠ c.toNat := fun heq => hac (UInt8.toNat_inj.1 (Int.ofNat.inj heq))
        rw [if_neg hac]
        exact iff_of_false (by omega) fun hboth => hac hboth.1

/-- A NUL behind a line. -/
private theorem isString_update {buf : Nat → UInt8} {s : List UInt8} (hbytes : (0 : UInt8) ∉ s)
    (hspelled : ∀ i (hi : i < s.length), buf i = s[i]) : IsString (Function.update buf s.length 0) s where
  bytes := hbytes
  spelled i hi := by
    rcases Nat.lt_or_eq_of_le hi with hlt | rfl
    · rw [Function.update_of_ne (by omega), hspelled i hlt, cString, List.getD_eq_getElem _ _ hlt]
    · rw [Function.update_self]
      exact (List.getD_eq_default _ _ (le_refl _)).symm

/-- What a read of the keyboard leaves in the buffer. -/
private theorem shellBuffer_line {r : CallResult} (hr : Os.KeyboardLine 1023 r) (buf : Nat → UInt8) :
    IsString (shellBuffer buf r) (readLine r) ∧ (readLine r).length ≤ 1023 := by
  rcases hr with rfl | ⟨hpos, hmax, hlength, hbytes⟩
  · have hnone : IsString (Function.update buf ([] : List UInt8).length 0) [] :=
      isString_update List.not_mem_nil fun i hi => absurd hi (Nat.not_lt_zero i)
    refine ⟨?_, Nat.zero_le _⟩
    simpa [shellBuffer, readLine] using hnone
  · obtain ⟨count, stored⟩ := r
    obtain ⟨m, rfl⟩ := Int.eq_ofNat_of_zero_le hpos
    dsimp only at hmax hlength hbytes
    rw [Int.toNat_natCast] at hbytes
    have htyped : (stored.take m).length = m := by
      rw [List.length_take]
      omega
    have hcell : ∀ i (hi : i < (stored.take m).length), storeAt buf 0 stored i = (stored.take m)[i] := by
      intro i hi
      have hstored := storeAt_of_mem buf 0 (l := stored) (i := i) (by omega)
      rw [Nat.zero_add] at hstored
      rw [hstored, List.getElem_take]
    have hnul : (0 : UInt8) ∉ stored.take m := fun hmem => hbytes 0 hmem rfl
    unfold shellBuffer readLine
    dsimp only
    rw [Int.toNat_natCast]
    by_cases hlast : (stored.take m).getLast? = some newline
    · rw [if_pos hlast]
      obtain ⟨before, hsplit⟩ := List.getLast?_eq_some_iff.1 hlast
      rw [hsplit] at htyped hcell hnul ⊢
      rw [List.length_append, List.length_singleton] at htyped
      have hend : storeAt buf 0 stored ((m : Int) - 1).toNat = newline := by
        rw [show ((m : Int) - 1).toNat = before.length by omega]
        exact (hcell before.length (by simp)).trans (by simp)
      rw [if_pos ⟨by omega, hend⟩, List.dropLast_concat, show ((m : Int) - 1).toNat = before.length by omega]
      refine ⟨isString_update (fun hmem => hnul (List.mem_append_left _ hmem)) fun i hi => ?_, by omega⟩
      rw [hcell i (by rw [List.length_append]; omega), List.getElem_append_left hi]
    · rw [if_neg hlast, if_neg]
      · have hstring := isString_update hnul hcell
        rw [htyped] at hstring
        rw [Int.toNat_natCast, htyped]
        exact ⟨hstring, by omega⟩
      · rintro ⟨hsome, hend⟩
        refine hlast ?_
        have hlt : m - 1 < (stored.take m).length := by omega
        rw [List.getLast?_eq_getElem?, htyped, List.getElem?_eq_getElem hlt, ← hcell _ hlt, ← hend]
        rw [show ((m : Int) - 1).toNat = m - 1 by omega]

private theorem textAt_line {buf : Nat → UInt8} {line : List UInt8} (h : IsString buf line)
    (hlength : line.length ≤ 1023) : textAt buf 0 1024 = line := by
  have hspelled : span buf 0 line.length = line := by
    refine List.ext_getElem (length_span _ _ _) fun i hi hi' => ?_
    rw [getElem_span, Nat.zero_add, h.spelled i (by omega), cString, List.getD_eq_getElem _ _ hi']
  have hnul : buf (0 + line.length) = 0 := by
    rw [Nat.zero_add, h.spelled _ (le_refl _)]
    exact List.getD_eq_default _ _ (le_refl _)
  rw [textAt_eq (by rw [hspelled]; exact h.bytes) hnul (by omega), hspelled]

/-! ### Sessions -/

/-- What the shell prints for a line other than exit. -/
inductive Answers {α : Type} (code : List UInt8 → Program Syscall CallResult α) (files : List File) (fs : FileSystem) :
    List UInt8 → List UInt8 → Prop
  | empty : Answers code files fs [] prompt
  | unknown {line : List UInt8} (hline : line ≠ [] ∧ line ≠ asBytes "exit") (h : execOutcome fs (some line) = .error) :
      Answers code files fs line (prompt ++ asBytes "no such command\n")
  | runs {line : List UInt8} {eip : Int} {os₀ os₁ : Os files} {calls : List (Syscall × CallResult)} {a : α}
      (hline : line ≠ [] ∧ line ≠ asBytes "exit") (h : execOutcome fs (some line) = .launched eip)
      (hfresh : os₀.Fresh (firstWord (afterWord line)))
      (hrun : (code line).Runs (osService files) os₀ calls a os₁) : Answers code files fs line (prompt ++ os₁.out)

/-- The commands the kernel survives: their programs fit into the page, and make calls that the system has a meaning
for. -/
def CommandsFit {α : Type} (code : List UInt8 → Program Syscall CallResult α) (files : List File) (fs : FileSystem) :
    Prop :=
  ∀ command, match execOutcome fs (some command) with
    | .error => True
    | .faulted => False
    | .launched _ => ∀ os₀ : Os files, os₀.Fresh (firstWord (afterWord command)) →
        (code command).Ensures (osService files) (fun _ _ => True) os₀

section Shell

variable {α : Type} {code : List UInt8 → Program Syscall CallResult α} {files : List File} {fs : FileSystem}
  {os : Os files} {log : List (ShellCall × CallResult)}

private theorem ensures_shellPuts {s : List UInt8} {Q : Unit → Os files × List (ShellCall × CallResult) → Prop}
    (hlength : s.length < 2147483648)
    (hQ : ∀ log', typedLines log' = typedLines log → Q () (os.print s, log')) :
    (shellPuts s).Ensures (shellOs code files fs).logged Q (os, log) := by
  rw [shellPuts, ensures_bind]
  refine ⟨hlength, ?_⟩
  rintro r ⟨os', log'⟩ ⟨⟨hwrite, -⟩, rfl⟩
  obtain ⟨rfl, -⟩ := Prod.mk.inj hwrite
  exact hQ _ (by simp [typedLines])

private theorem Os.KeyboardLine.ne {nbytes : Int} {r : CallResult} (h : Os.KeyboardLine nbytes r) : r.1 ≠ -1 := by
  rcases h with rfl | ⟨hpos, -⟩
  · decide
  · omega

/-- A round: a line is read and answered, or it is exit. -/
private theorem shellRound_ensures (hfit : CommandsFit code files fs) (buf : Nat → UInt8) :
    (shellRound buf).Ensures (shellOs code files fs).logged (fun x t => Sum.elim
      (fun _ => ∃ line text, Answers code files fs line text ∧ typedLines t.2 = typedLines log ++ [line] ∧
        t.1.out = os.out ++ text)
      (fun a => a = 0 ∧ typedLines t.2 = typedLines log ++ [asBytes "exit"] ∧ t.1.out = os.out ++ prompt) x)
      (os, log) := by
  rw [shellRound, ensures_bind]
  refine ensures_shellPuts (by decide) fun log₁ hlog₁ => ?_
  rw [ensures_bind]
  refine ⟨⟨by decide, by decide⟩, ?_⟩
  rintro r ⟨os', log'⟩ ⟨hread, rfl⟩
  obtain ⟨rfl, hline⟩ : os' = os.print prompt ∧ Os.KeyboardLine 1023 r := by
    simpa [shellOs, osService, Os.CallReturns] using hread
  obtain ⟨hstring, hlength⟩ := shellBuffer_line hline buf
  have hlog : typedLines (log₁ ++ [(.sys (.read 0 1023), r)]) = typedLines log ++ [readLine r] := by
    rw [typedLines_append, hlog₁]
    rfl
  rw [ensures_ret, if_neg hline.ne]
  by_cases hexit : readLine r = asBytes "exit"
  · rw [if_pos ((ece391Strcmp_eq_zero_iff hstring (by decide)).2 hexit)]
    exact ⟨rfl, hexit ▸ hlog, rfl⟩
  · rw [if_neg fun hzero => hexit ((ece391Strcmp_eq_zero_iff hstring (by decide)).1 hzero)]
    have hfirst : shellBuffer buf r 0 = cString (readLine r) 0 := hstring.spelled 0 (Nat.zero_le _)
    by_cases hempty : readLine r = []
    · rw [if_pos (by rw [hfirst, hempty]; rfl)]
      exact ⟨_, _, .empty, hempty ▸ hlog, rfl⟩
    · have hpos := (cString_ne_zero hstring.bytes).2 (List.length_pos_iff.2 hempty)
      rw [if_neg (by rwa [hfirst]), ensures_bind, textAt_line hstring hlength]
      refine ⟨hfit (readLine r), ?_⟩
      rintro rval ⟨os', log'⟩ ⟨hexecutes, rfl⟩
      have hexecutes' := shellOs_executes.1 hexecutes
      unfold Os.Executes at hexecutes'
      cases hres : execOutcome fs (some (readLine r)) with
      | faulted =>
        have hno := hfit (readLine r)
        rw [hres] at hno
        exact hno.elim
      | error =>
        rw [hres] at hexecutes'
        obtain ⟨rfl, rfl⟩ := hexecutes'
        rw [ensures_ret, if_pos rfl, ensures_bind]
        refine ensures_shellPuts (by decide) fun log₂ hlog₂ => ⟨_, _, .unknown ⟨hempty, hexit⟩ hres, ?_, ?_⟩
        · rw [hlog₂, typedLines_append, hlog]
          simp [typedLines]
        · rw [Os.print_out, Os.print_out, List.append_assoc]
      | launched eip =>
        rw [hres] at hexecutes'
        obtain ⟨rfl, os₀, os₁, calls, a, hfresh, -, hrun, rfl⟩ := hexecutes'
        rw [ensures_ret, if_neg (by decide), if_neg (by decide), if_neg (by decide)]
        refine ⟨_, _, .runs ⟨hempty, hexit⟩ hres hfresh hrun, ?_, ?_⟩
        · rw [typedLines_append, hlog]
          simp [typedLines]
        · rw [Os.moveTo_out, Os.print_out, Os.print_out, List.append_assoc]

/-- What the record of the calls says about a session: each line has been answered, and exit has ended it. -/
def SessionText (code : List UInt8 → Program Syscall CallResult α) (files : List File) (fs : FileSystem) (n : Nat)
    (status : Option Int) (log : List (ShellCall × CallResult)) (text : List UInt8) : Prop :=
  ∃ lines texts, List.Forall₂ (Answers code files fs) lines texts ∧
    (status = none ∧ lines.length = n ∧ typedLines log = lines ∧
        text = asBytes "Starting 391 Shell\n" ++ texts.flatten ∨
      status = some 0 ∧ typedLines log = lines ++ [asBytes "exit"] ∧
        text = asBytes "Starting 391 Shell\n" ++ texts.flatten ++ prompt)

/-- The shell, over what it sees. -/
private theorem shell_ensures (hfit : CommandsFit code files fs) (hout : os.out = []) (n : Nat) (buf : Nat → UInt8) :
    (shell n buf).Ensures (shellOs code files fs).logged (fun a t => SessionText code files fs n a t.2 t.1.out)
      (os, []) := by
  rw [shell, ensures_bind]
  refine ensures_shellPuts (by decide) fun log hlog => ?_
  have hstart : (os.print (asBytes "Starting 391 Shell\n")).out = asBytes "Starting 391 Shell\n" := by
    rw [Os.print_out, hout]
    rfl
  -- the lines so far have been answered
  refine (Ensures.rounds (I := fun i _ t => ∃ lines texts, List.Forall₂ (Answers code files fs) lines texts ∧
      lines.length = i ∧ typedLines t.2 = lines ∧ t.1.out = asBytes "Starting 391 Shell\n" ++ texts.flatten)
    (Q := fun a t => a = 0 ∧ ∃ lines texts, List.Forall₂ (Answers code files fs) lines texts ∧
      typedLines t.2 = lines ++ [asBytes "exit"] ∧
        t.1.out = asBytes "Starting 391 Shell\n" ++ texts.flatten ++ prompt)
    ?_ (i := 0) ⟨[], [], .nil, rfl, hlog, by rw [hstart]; simp⟩).mono ?_
  · rintro i b ⟨os', log'⟩ ⟨lines, texts, hanswers, hlength, hlines, hprinted⟩
    refine (shellRound_ensures hfit b).mono ?_
    rintro (b' | a) ⟨t, log₁⟩ h
    · obtain ⟨line, text, hanswer, hline, htext⟩ := h
      refine ⟨lines ++ [line], texts ++ [text], List.rel_append hanswers (.cons hanswer .nil), ?_, ?_, ?_⟩
      · rw [List.length_append, hlength, List.length_singleton]
      · rw [hline, hlines]
      · rw [htext, hprinted, List.flatten_append, List.flatten_singleton, List.append_assoc]
    · obtain ⟨ha, hline, htext⟩ := h
      exact ⟨ha, lines, texts, hanswers, by rw [hline, hlines], by rw [htext, hprinted]⟩
  · rintro (_ | a) t h
    · obtain ⟨-, lines, texts, hanswers, hlength, hlines, hprinted⟩ := h
      exact ⟨lines, texts, hanswers, .inl ⟨rfl, by omega, hlines, hprinted⟩⟩
    · obtain ⟨rfl, lines, texts, hanswers, hlines, hprinted⟩ := h
      exact ⟨lines, texts, hanswers, .inr ⟨rfl, hlines, hprinted⟩⟩

end Shell

/-- A session of a shell.  Every line that is typed is answered, by the text of its program or by a message, until exit
is typed; the shell makes its calls for as many rounds as there are, with any interrupts between the commands and quiet
ones while their programs run, and no program changes what it sees but for the position in the directory. -/
theorem shell_session {α : Type} {code : List UInt8 → Program Syscall CallResult α} {files : List File}
    {inodes blocks : Nat} {args : List UInt8} {k : Kernel} (h : ShellStarted files inodes blocks args k)
    (hfit : CommandsFit code files k.fs) (n : Nat) (buf : Nat → UInt8) :
    (shell n buf).Ensures (shellKernel code).logged
      (fun a s => SessionText code files k.fs n a s.2 s.1.printed) (⟨k, []⟩, []) := by
  obtain ⟨os, hfresh, hsees⟩ := h.shellSees
  refine ((shell_refines code files inodes blocks k.fs).logged.ensures (shell_ensures hfit hfresh.out n buf)
    (t := (⟨k, []⟩, [])) ⟨hsees, rfl⟩).mono ?_
  rintro a ⟨s, log⟩ ⟨⟨os', _⟩, ⟨hsees', rfl⟩, htext⟩
  have hprinted : s.printed = os'.out := hsees'.sees.out
  dsimp only
  rwa [hprinted]

/-! ### A machine whose program is cat -/

/-- No file makes `sys_execute` fault. -/
private theorem execOutcome_fits {fs : FileSystem} (hcount : fs.bootBlockMain.dirCount < 4294967296)
    (hfiles : ∀ i < fs.bootBlockMain.dirCount, fileOutcome fs (fs.bootBlockMain.direntries i).inodeNum ≠ .faulted)
    (command : Option (List UInt8)) : execOutcome fs command ≠ .faulted := by
  unfold execOutcome
  cases command with
  | none => simp
  | some command =>
    dsimp only
    split
    · simp
    · split
      · simp
      · next filename _ _ _ _ _ =>
        cases hfind : findDentry fs (cString filename) with
        | none =>
          rw [readDentryByName_none hfind]
          simp
        | some i =>
          obtain ⟨-, hinode, -⟩ := readDentryByName_some hfind hcount emptyDentry
          have hi := (findDentry_eq_some_iff.1 hfind).1
          rw [hinode]
          split
          · simp
          · exact hfiles i hi

private theorem dotShells_fit (buf : Nat → UInt8) :
    CommandsFit (fun _ => cat 41 buf) [dotFile, shellFile] dotShells.fs := by
  have hcount : dotShells.fs.bootBlockMain.dirCount = 2 := by decide +kernel
  have hfiles : ∀ i < 2, fileOutcome dotShells.fs (dotShells.fs.bootBlockMain.direntries i).inodeNum ≠ .faulted := by
    decide +kernel
  intro command
  cases hres : execOutcome dotShells.fs (some command) with
  | error => trivial
  | faulted => exact execOutcome_fits (by rw [hcount]; decide) (by rwa [hcount]) _ hres
  | launched eip =>
    intro os hfresh
    exact (cat_ensures dotImage_layout.distinct (by decide +kernel) hfresh (by decide +kernel) buf).mono
      fun _ _ _ => trivial

theorem dotShells_session :
    (shell 5 fun _ => 0).Ensures (shellKernel fun _ => cat 41 fun _ => 0).logged
      (fun a s => SessionText (fun _ => cat 41 fun _ => 0) [dotFile, shellFile] dotShells.fs 5 a s.2 s.1.printed)
      (⟨dotShells, []⟩, []) :=
  shell_session dotShells_started (dotShells_fit _) 5 _

end BigChungOS
