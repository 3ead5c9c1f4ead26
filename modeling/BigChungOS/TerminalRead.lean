import BigChungOS.Timer
import Mathlib.Logic.Function.Iterate

/-!
# A read of the keyboard, step by step

`terminal_read` enables interrupts and waits; keys may be pressed and terminals switched until it disables them again,
after it has found the end of the line.  `readStep` is one step of it: a test of one of its loops, or all of what comes
after `cli`.  Left alone, these steps are the function `terminalRead` (`terminalRead_steps`).

What the rest of the kernel does in between leaves the typed lines alone (`systemStep_sameLine`).
-/

namespace BigChungOS

open Memory

/-- Where a `terminal_read` stands: in the loop that waits for Enter, past it, in the loop that looks for the NUL, or
past that.  `idle` is no read, and a faulted one has run into an unmapped page. -/
inductive ReadPhase
  | idle
  | waiting (nbytes : Int)
  | checking (nbytes : Int)
  | scanning (nbytes : Int) (count : Nat)
  | scanned (nbytes : Int) (count : Nat)
  | faulted

/-- `how_many`. -/
def howMany (count : Nat) (nbytes : Int) : Int :=
  if (count : Int) = nbytes then count else if (count : Int) > nbytes then nbytes else count

theorem howMany_eq_min (count : Nat) (nbytes : Int) : howMany count nbytes = min (count : Int) nbytes := by
  unfold howMany
  split_ifs <;> omega

/-- The first `n` bytes of `keyboard_buffer`. -/
def lineBytes (k : Kernel) (n : Nat) : List UInt8 := (List.range n).map fun i : Nat => k.keyboard.keyboardBuffer i

/-- One step of a read, with what it returns and the bytes it has stored, if it returns. -/
def readStep (k : Kernel) : ReadPhase → Kernel × ReadPhase × Option (Int × List UInt8)
  | .idle => (k, .idle, none)
  | .waiting nbytes => (k, if (k.terminals k.onScreen).enterPFlag then .checking nbytes else .waiting nbytes, none)
  | .checking nbytes =>
    if nbytes = 0 then (k, .idle, some (0, []))
    else if k.keyboard.keyboardBuffer 0 = newline then (k, .idle, some (0, []))
    else (k, .scanning nbytes 0, none)
  | .scanning nbytes count =>
    (k, if k.keyboard.keyboardBuffer count = 0 then .scanned nbytes count else .scanning nbytes (count + 1), none)
  | .scanned nbytes count =>
    if howMany count nbytes + 1 < 0 then (k, .faulted, none)
    else (lineTaken k, .idle, some (howMany count nbytes, lineBytes k (howMany count nbytes + 1).toNat))
  | .faulted => (k, .faulted, none)

/-- A read that finds a line takes it. -/
theorem terminalRead_line {k : Kernel} {nbytes : Int} {count : Nat} (hflag : (k.terminals k.onScreen).enterPFlag = true)
    (hzero : nbytes ≠ 0) (hfirst : k.keyboard.keyboardBuffer 0 ≠ newline)
    (hline : lineLength k.keyboard.keyboardBuffer = some count) (hroom : 0 ≤ min (count : Int) nbytes + 1) :
    terminalRead k nbytes =
      some (lineTaken k, min (count : Int) nbytes, lineBytes k (min (count : Int) nbytes + 1).toNat) := by
  have hwaiting : ¬(k.terminals k.onScreen).enterPFlag = false := by rw [hflag]; decide
  have hmany := howMany_eq_min count nbytes
  unfold howMany at hmany
  unfold terminalRead
  rw [if_neg hwaiting, if_neg hzero, if_neg hfirst, hline]
  dsimp only
  rw [hmany, if_neg (by omega)]
  rfl

/-! ### A read that is left alone -/

/-- A process that reads, with what its reads have returned. -/
structure Reader where
  kernel : Kernel
  phase : ReadPhase
  results : List (Int × List UInt8)

/-- The process takes a step of its read. -/
def Reader.step (s : Reader) : Reader where
  kernel := (readStep s.kernel s.phase).1
  phase := (readStep s.kernel s.phase).2.1
  results := s.results ++ (readStep s.kernel s.phase).2.2.toList

section Undisturbed

variable {k : Kernel} {results : List (Int × List UInt8)}

private theorem step_eq {k' : Kernel} {phase phase' : ReadPhase} {result : Option (Int × List UInt8)}
    (h : readStep k phase = (k', phase', result)) :
    (⟨k, phase, results⟩ : Reader).step = ⟨k', phase', results ++ result.toList⟩ := by
  rw [Reader.step, h]

/-- The loop that looks for the NUL finds it. -/
private theorem scanning_steps {nbytes : Int} {fuel start count : Nat}
    (h : lineLengthFrom k.keyboard.keyboardBuffer fuel start = some count) :
    ∃ n, Reader.step^[n] ⟨k, .scanning nbytes start, results⟩ = ⟨k, .scanned nbytes count, results⟩ := by
  induction fuel generalizing start with
  | zero => cases h
  | succ fuel ih =>
    rw [lineLengthFrom] at h
    split at h
    · next hzero =>
      obtain rfl := Option.some.inj h
      have hstep : readStep k (.scanning nbytes start) = (k, .scanned nbytes start, none) := by
        rw [readStep, if_pos hzero]
      exact ⟨1, by rw [Function.iterate_one, step_eq hstep, Option.toList_none, List.append_nil]⟩
    · next hchar =>
      obtain ⟨n, hn⟩ := ih h
      have hstep : readStep k (.scanning nbytes start) = (k, .scanning nbytes (start + 1), none) := by
        rw [readStep, if_neg hchar]
      exact ⟨n + 1, by rw [Function.iterate_succ_apply, step_eq hstep, Option.toList_none, List.append_nil, hn]⟩

/-- A read that is left alone does what `terminalRead` says. -/
theorem terminalRead_steps {k' : Kernel} {nbytes r : Int} {stored : List UInt8}
    (h : terminalRead k nbytes = some (k', r, stored)) :
    ∃ n, Reader.step^[n] ⟨k, .waiting nbytes, results⟩ = ⟨k', .idle, results ++ [(r, stored)]⟩ := by
  obtain ⟨hflag, hcases⟩ := terminalRead_cases h
  have hwait : readStep k (.waiting nbytes) = (k, .checking nbytes, none) := by rw [readStep, if_pos hflag]
  obtain ⟨hempty, rfl, rfl, rfl⟩ | ⟨count, hnonempty, hline, rfl, rfl, hroom, rfl⟩ := hcases
  · have hcheck : readStep k' (.checking nbytes) = (k', .idle, some (0, [])) := by
      rw [readStep]
      split
      · rfl
      · next hzero => rw [if_pos (hempty.resolve_left hzero)]
    refine ⟨2, ?_⟩
    rw [Function.iterate_succ_apply, Function.iterate_one, step_eq hwait, step_eq hcheck]
    simp only [Option.toList_none, List.append_nil, Option.toList_some]
  · obtain ⟨hzero, hfirst⟩ := not_or.1 hnonempty
    have hcheck : readStep k (.checking nbytes) = (k, .scanning nbytes 0, none) := by
      rw [readStep, if_neg hzero, if_neg hfirst]
    have hcopy : readStep k (.scanned nbytes count) =
        (lineTaken k, .idle, some (min (count : Int) nbytes, lineBytes k (min (count : Int) nbytes + 1).toNat)) := by
      rw [readStep, howMany_eq_min, if_neg (by omega)]
    have hstart : Reader.step^[2] ⟨k, .waiting nbytes, results⟩ = ⟨k, .scanning nbytes 0, results⟩ := by
      rw [Function.iterate_succ_apply, Function.iterate_one, step_eq hwait, step_eq hcheck]
      simp only [Option.toList_none, List.append_nil]
    have hscan : ∃ n, Reader.step^[n] ⟨k, .scanning nbytes 0, results⟩ = ⟨k, .scanned nbytes count, results⟩ :=
      scanning_steps hline
    obtain ⟨n, hn⟩ := hscan
    refine ⟨n + 2 + 1, ?_⟩
    rw [Function.iterate_succ_apply', Function.iterate_add_apply, hstart, hn, step_eq hcopy]
    rfl

end Undisturbed

/-! ### The rest of the kernel -/

/-- The typed lines, the flags of the terminals and the choice of the one on screen are the same. -/
structure SameLine (k k' : Kernel) : Prop where
  keyboard : k'.keyboard = k.keyboard
  onScreen : k'.onScreen = k.onScreen
  enterPFlag : ∀ t, (k'.terminals t).enterPFlag = (k.terminals t).enterPFlag
  bufKb : ∀ t, (k'.terminals t).bufKb = (k.terminals t).bufKb

theorem SameLine.trans {k k' k'' : Kernel} (h : SameLine k k') (h' : SameLine k' k'') : SameLine k k'' where
  keyboard := h'.keyboard.trans h.keyboard
  onScreen := h'.onScreen.trans h.onScreen
  enterPFlag t := (h'.enterPFlag t).trans (h.enterPFlag t)
  bufKb t := (h'.bufKb t).trans (h.bufKb t)

/-- A store to a record that leaves its line and its flag alone. -/
private theorem setTerminal_sameLine (k : Kernel) (t : Fin 3) {f : TerminalT → TerminalT}
    (hflag : ∀ r, (f r).enterPFlag = r.enterPFlag) (hbuf : ∀ r, (f r).bufKb = r.bufKb) :
    SameLine k (k.setTerminal t f) where
  keyboard := rfl
  onScreen := rfl
  enterPFlag u := by by_cases h : u = t <;> simp [h, hflag]
  bufKb u := by by_cases h : u = t <;> simp [h, hbuf]

private theorem sameLine_of_terminals {k k' : Kernel} (hkb : k'.keyboard = k.keyboard) (hon : k'.onScreen = k.onScreen)
    (hterm : k'.terminals = k.terminals) : SameLine k k' where
  keyboard := hkb
  onScreen := hon
  enterPFlag t := by rw [hterm]
  bufKb t := by rw [hterm]

private theorem puts_sameLine (k : Kernel) (s : List UInt8) : SameLine k (puts k s) := by
  rw [puts_eq]
  exact sameLine_of_terminals rfl rfl rfl

private theorem sysExecute_sameLine (k : Kernel) (command : Option (List UInt8)) (frame : Frame) :
    SameLine k (sysExecute k command frame).1 where
  keyboard := (sysExecute_sameDevices k command frame).keyboard
  onScreen := (sysExecute_sameDevices k command frame).onScreen
  enterPFlag t := by
    obtain ⟨procs, currProcess, hrest⟩ := sysExecute_terminals k command frame t
    rw [hrest]
  bufKb t := by
    obtain ⟨procs, currProcess, hrest⟩ := sysExecute_terminals k command frame t
    rw [hrest]

private theorem sysHalt_sameLine (k : Kernel) (status : UInt8) (frame : Frame) :
    SameLine k (sysHalt k status frame).1 := by
  have hrel := released_spec k
  have hreleased : SameLine k (released k) := sameLine_of_terminals hrel.keyboard hrel.onScreen hrel.terminals
  have hreturn : ∀ k, SameLine k (haltReturn k status).1 := by
    intro k
    have hspec := haltReturn_spec k status
    have hrest : ∀ t : TerminalT, t.pop.enterPFlag = t.enterPFlag ∧ t.pop.bufKb = t.bufKb := by
      intro t
      obtain ⟨procs, currProcess, hrest⟩ := t.pop_rest
      rw [hrest]
      exact ⟨rfl, rfl⟩
    have hpop := setTerminal_sameLine k k.currTerminal (fun t => (hrest t).1) fun t => (hrest t).2
    exact hpop.trans (sameLine_of_terminals hspec.keyboard hspec.onScreen hspec.terminals)
  refine sysHalt_keeps (P := SameLine k) hreleased ?_ ?_
  · exact fun _ h => h.trans (sysExecute_sameLine _ _ frame)
  · exact fun _ h => h.trans (hreturn _)

private theorem pitHandler_sameLine (k : Kernel) (frame execFrame : Frame) :
    SameLine k (pitHandler k frame execFrame).1 := by
  have hcursor : ∀ k t, SameLine k (saveCursor k t) := fun k t => setTerminal_sameLine k t (fun _ => rfl) fun _ => rfl
  have hsave : SameLine k (pitSave k frame) := by
    obtain ⟨pcbs, heq⟩ := pitSave_eq k frame
    have hpcbs : SameLine k { k with allPcbs := pcbs } := sameLine_of_terminals rfl rfl rfl
    exact heq ▸ hpcbs.trans (hcursor _ k.currTerminal)
  have hwork : ∀ (k : Kernel) (t u : Fin 3) (n : Nat),
      SameLine k { switchTerminalWork { k with currTerminal := t } u with pitCount := n } := by
    intro k t u n
    have hcurr : SameLine k { k with currTerminal := t } := sameLine_of_terminals rfl rfl rfl
    have hload : SameLine (saveCursor { k with currTerminal := t } k.onScreen)
        { switchTerminalWork { k with currTerminal := t } u with pitCount := n } := sameLine_of_terminals rfl rfl rfl
    exact hcurr.trans ((hcursor _ k.onScreen).trans hload)
  have hselect : ∀ k t, SameLine k (pitSelect k t) := by
    intro k t
    have hcount : SameLine (saveCursor (switchTerminalWork { k with currTerminal := t } t) t) (pitSelect k t) :=
      sameLine_of_terminals rfl rfl rfl
    exact (hwork k t t k.pitCount).trans ((hcursor _ t).trans hcount)
  have hreturn : ∀ k, SameLine k (pitReturn k).1 := fun k =>
    (setTerminal_sameLine k k.currTerminal (f := fun t =>
      { t with videoBuffer := if k.currTerminal = k.onScreen then mainVideo else termPage k.currTerminal })
      (fun _ => rfl) fun _ => rfl).trans (sameLine_of_terminals rfl rfl rfl)
  refine pitHandler_keeps (P := SameLine k) hsave ?_ ?_ ?_ ?_ ?_
  · exact fun _ t h => h.trans (hselect _ t)
  · exact fun _ s h => h.trans (puts_sameLine _ s)
  · exact fun _ h => h.trans (sysExecute_sameLine _ _ execFrame)
  · exact fun _ h => h.trans (hwork _ 0 0 4)
  · exact fun _ h => h.trans (hreturn _)

/-- A tick, a text that is printed, a `sys_execute` or a `sys_halt`. -/
inductive SystemStep : Kernel → Kernel → Prop
  | tick {k : Kernel} {frame execFrame : Frame} : SystemStep k (pitHandler k frame execFrame).1
  | print {k : Kernel} {text : List UInt8} : SystemStep k (puts k text)
  | execute {k : Kernel} {command : Option (List UInt8)} {frame : Frame} : SystemStep k (sysExecute k command frame).1
  | halt {k : Kernel} {status : UInt8} {frame : Frame} : SystemStep k (sysHalt k status frame).1

theorem systemStep_sameLine {k k' : Kernel} (h : SystemStep k k') : SameLine k k' := by
  cases h with
  | tick => exact pitHandler_sameLine k _ _
  | print => exact puts_sameLine k _
  | execute => exact sysExecute_sameLine k _ _
  | halt => exact sysHalt_sameLine k _ _

/-- The keyboard at boot is the one of the loaded program. -/
theorem entry_keyboard (b : Boot) : (entry b).keyboard = (zeroKernel b).keyboard := by
  have hputs : (bootKernel b).keyboard = (puts (clear (zeroKernel b)) b.text).keyboard := rfl
  have hentry : (entry b).keyboard = (bootKernel b).keyboard := rfl
  rw [hentry, hputs, puts_eq]
  rfl

end BigChungOS
