import BigChungOS.ProcessStacks
import BigChungOS.TerminalRead
import BigChungOS.TerminalSwitch

/-!
# Lines and the terminals they are typed on

`terminal_read` waits for the flag of the terminal that is on screen, whichever it is, and copies `keyboard_buffer`,
which holds the line of that terminal.  So a process gets what is typed on the terminal that is on screen when it
copies, which need not be a terminal of its own.

To say so, each character of the buffer and of the saved lines is given the terminal on which it was typed
(`Origins`).  In every reachable state the characters of a terminal's line were typed on it (`OriginsOk`).  A read
therefore returns only characters that were typed on a terminal of the process exactly if that terminal is on screen
when it copies, or there is nothing to copy (`lines_stay_iff`).
-/

namespace BigChungOS

open Memory Transition

/-- The process is recorded in `procs` of terminal `t`. -/
def Recorded (k : Kernel) (t : Fin 3) (p : Fin 6) : Prop := (p.val : Int) ∈ (k.terminals t).pids

/-- The terminal on which the character in each cell was typed, if it was typed. -/
abbrev CellOrigin := Int → Option (Fin 3)

/-- The kernel and the reads of the processes, with the origins of the cells of `keyboard_buffer` and of the saved
lines. -/
structure Origins where
  kernel : Kernel
  phases : Fin 6 → ReadPhase
  live : CellOrigin
  saved : Fin 3 → CellOrigin

/-- The cells in `indices` have been typed on terminal `t`. -/
def markTyped (origin : CellOrigin) (indices : List Int) (t : Fin 3) : CellOrigin :=
  fun i => if i ∈ indices then some t else origin i

/-- The `memcpy` of a line copies the origins of its 128 characters. -/
def copyOrigins (dest src : CellOrigin) : CellOrigin := fun i => if 0 ≤ i ∧ i < 128 then src i else dest i

/-- A keyboard interrupt: the handler types on the terminal on screen, and may switch to another one. -/
def Origins.key (s : Origins) (scanCode : Nat) (past : UInt8) : Origins :=
  let r := keyboardHandler s.kernel scanCode past
  let live := markTyped s.live r.2 s.kernel.onScreen
  if r.1.onScreen = s.kernel.onScreen then { s with kernel := r.1, live := live }
  else { s with
    kernel := r.1
    live := copyOrigins live (s.saved r.1.onScreen)
    saved := Function.update s.saved s.kernel.onScreen (copyOrigins (s.saved s.kernel.onScreen) live) }

/-- A step of the read of process `p`. -/
def Origins.step (s : Origins) (p : Fin 6) : Origins :=
  { s with
    kernel := (readStep s.kernel (s.phases p)).1
    phases := Function.update s.phases p (readStep s.kernel (s.phases p)).2.1 }

inductive OriginEvent
  | key (scanCode : Nat) (past : UInt8)
  | read (p : Fin 6) (nbytes : Int)
  | step (p : Fin 6)
  | system

/-- A keyboard interrupt, the start or a step of a read of some process, or what else the kernel does. -/
inductive OriginStep : Origins → OriginEvent → Origins → Prop
  | key {s : Origins} {scanCode : Nat} {past : UInt8} : OriginStep s (.key scanCode past) (s.key scanCode past)
  | read {s : Origins} {p : Fin 6} {nbytes : Int} (hidle : s.phases p = .idle) :
      OriginStep s (.read p nbytes) { s with phases := Function.update s.phases p (.waiting nbytes) }
  | step {s : Origins} {p : Fin 6} : OriginStep s (.step p) (s.step p)
  | system {s : Origins} {k : Kernel} (h : SystemStep s.kernel k) : OriginStep s .system { s with kernel := k }

/-- If a read returns in a step, the characters it returns were typed on terminals of its process. -/
def LineKept (s : Origins) : OriginEvent → Prop
  | .step p => ∀ r stored, (readStep s.kernel (s.phases p)).2.2 = some (r, stored) →
      ∀ i : Nat, (i : Int) < r → stored.getD i 0 ≠ 0 → ∀ t, s.live i = some t → Recorded s.kernel t p
  | .key _ _ | .read _ _ | .system => True

/-- When a read copies the line, there is no character to copy, or the process is recorded for the terminal on screen
and the copy ends in the buffer. -/
def OwnReader (s : Origins) : OriginEvent → Prop
  | .step p => ∀ nbytes count, s.phases p = .scanned nbytes count →
      (∀ i : Nat, (i : Int) < min (count : Int) nbytes → s.kernel.keyboard.keyboardBuffer i = 0) ∨
        (Recorded s.kernel s.kernel.onScreen p ∧ min (count : Int) nbytes ≤ 128)
  | .key _ _ | .read _ _ | .system => True

/-- The copy of a read ends in the buffer. -/
def InBuffer (s : Origins) : OriginEvent → Prop
  | .step p => ∀ nbytes count, s.phases p = .scanned nbytes count → min (count : Int) nbytes ≤ 128
  | .key _ _ | .read _ _ | .system => True

/-! ### The invariant -/

/-- The characters of a line were typed on terminal `t`. -/
def Owned (line : Int → UInt8) (origin : CellOrigin) (t : Fin 3) : Prop :=
  ∀ i, 0 ≤ i → i < 128 → line i ≠ 0 → origin i = some t

/-- Each terminal's line was typed on it. -/
structure OriginsOk (s : Origins) : Prop where
  live : Owned s.kernel.keyboard.keyboardBuffer s.live s.kernel.onScreen
  saved : ∀ t ≠ s.kernel.onScreen, Owned (s.kernel.terminals t).bufKb (s.saved t) t

/-- From `k` to `k'`, `keyboard_buffer` has changed at most in the cells `indices`, and the saved lines have not. -/
structure StoresAt (k k' : Kernel) (indices : List Int) : Prop where
  onScreen : k'.onScreen = k.onScreen
  bufKb : ∀ t, (k'.terminals t).bufKb = (k.terminals t).bufKb
  others : ∀ i ∉ indices, k'.keyboard.keyboardBuffer i = k.keyboard.keyboardBuffer i

section Step

variable {k k' k'' : Kernel}

theorem StoresAt.trans {l l' : List Int} (h : StoresAt k k' l) (h' : StoresAt k' k'' l') :
    StoresAt k k'' (l ++ l') where
  onScreen := h'.onScreen.trans h.onScreen
  bufKb t := (h'.bufKb t).trans (h.bufKb t)
  others i hi := by
    rw [List.mem_append, not_or] at hi
    rw [h'.others i hi.2, h.others i hi.1]

private theorem storesAt_of_terminals {l : List Int} (hon : k'.onScreen = k.onScreen)
    (hterm : k'.terminals = k.terminals)
    (hothers : ∀ i ∉ l, k'.keyboard.keyboardBuffer i = k.keyboard.keyboardBuffer i) : StoresAt k k' l where
  onScreen := hon
  bufKb t := by rw [hterm]
  others := hothers

theorem StoresAt.refl (k : Kernel) : StoresAt k k [] := storesAt_of_terminals rfl rfl fun _ _ => rfl

theorem typeText_storesAt (k : Kernel) (scanCode : Nat) (past : UInt8) :
    StoresAt k (typeText k scanCode past).1 (typeText k scanCode past).2 := by
  unfold typeText
  split
  · refine storesAt_of_terminals rfl rfl fun i hi => ?_
    simp only [List.mem_cons, List.not_mem_nil, or_false, not_or, echo, putc] at hi
    simp only [Keyboard.store, echo, putc]
    rw [Function.update_of_ne hi.2, Function.update_of_ne hi.1]
  · exact StoresAt.refl k

private theorem backspace_storesAt (k : Kernel) (scanCode : Nat) :
    StoresAt k (backspace k scanCode).1 (backspace k scanCode).2 := by
  unfold backspace
  split
  · refine storesAt_of_terminals rfl rfl fun i hi => ?_
    simp only [List.mem_singleton] at hi
    simp only [Keyboard.store]
    rw [Function.update_of_ne hi]
    rfl
  · exact StoresAt.refl k

theorem clearKey_storesAt (k : Kernel) (scanCode : Nat) : StoresAt k (clearKey k scanCode) [] := by
  unfold clearKey
  split
  · exact storesAt_of_terminals rfl rfl fun _ _ => rfl
  · exact StoresAt.refl k

private theorem tab_storesAt (k : Kernel) (scanCode : Nat) : StoresAt k (tab k scanCode).1 (tab k scanCode).2 := by
  unfold tab
  split
  · refine storesAt_of_terminals rfl rfl fun i hi => ?_
    simp only [List.mem_singleton, echo, putc] at hi
    simp only [Keyboard.store, echo, putc]
    rw [Function.update_of_ne hi]
  · exact StoresAt.refl k

private theorem enter_storesAt (k : Kernel) (scanCode : Nat) : StoresAt k (enter k scanCode) [] := by
  unfold enter
  split
  · exact
      { onScreen := rfl
        bufKb := fun t => by by_cases ht : t = k.onScreen <;> simp [ht, echo, putc]
        others := fun _ _ => rfl }
  · exact StoresAt.refl k

/-- The handler types into the buffer, and then it may switch terminals. -/
private theorem keyboardHandler_line (k : Kernel) (scanCode : Nat) (past : UInt8) :
    ∃ k₁, StoresAt k k₁ (keyboardHandler k scanCode past).2 ∧
      ((keyboardHandler k scanCode past).1 = k₁ ∨
        ∃ t ≠ k₁.onScreen, (keyboardHandler k scanCode past).1 = switchTo k₁ t) := by
  have hflags : StoresAt k { k with keyboard := k.keyboard.updateFlags scanCode } [] :=
    storesAt_of_terminals rfl rfl fun i _ => by
      simp only [Keyboard.updateFlags, apply_ite Keyboard.keyboardBuffer, ite_self]
  unfold keyboardHandler
  dsimp only
  generalize ({ k with keyboard := k.keyboard.updateFlags scanCode } : Kernel) = k₁ at hflags
  have htext := hflags.trans (typeText_storesAt k₁ scanCode past)
  generalize typeText k₁ scanCode past = r₁ at htext
  have hback := htext.trans (backspace_storesAt r₁.1 scanCode)
  generalize backspace r₁.1 scanCode = r₂ at hback
  have htab := (hback.trans (clearKey_storesAt r₂.1 scanCode)).trans (tab_storesAt _ scanCode)
  generalize tab (clearKey r₂.1 scanCode) scanCode = r₃ at htab
  have henter := htab.trans (enter_storesAt r₃.1 scanCode)
  refine ⟨enter r₃.1 scanCode, ?_, functionKey_eq _ scanCode⟩
  simpa using henter

private theorem Owned.mark {line line' : Int → UInt8} {origin : CellOrigin} {t : Fin 3} (h : Owned line origin t)
    {indices : List Int} (hothers : ∀ i ∉ indices, line' i = line i) : Owned line' (markTyped origin indices t) t := by
  intro i hlo hhi hchar
  unfold markTyped
  split
  · rfl
  · next hi =>
    rw [hothers i hi] at hchar
    exact h i hlo hhi hchar

private theorem Owned.copy {line line' : Int → UInt8} {origin origin' : CellOrigin} {t : Fin 3}
    (h : Owned line origin t) : Owned (copyKb line' line) (copyOrigins origin' origin) t := by
  intro i hlo hhi hchar
  rw [copyKb, if_pos ⟨hlo, hhi⟩] at hchar
  rw [copyOrigins, if_pos ⟨hlo, hhi⟩]
  exact h i hlo hhi hchar

theorem OriginsOk.key {s : Origins} (h : OriginsOk s) (scanCode : Nat) (past : UInt8) :
    OriginsOk (s.key scanCode past) := by
  obtain ⟨k₁, hstores, heq⟩ := keyboardHandler_line s.kernel scanCode past
  have hlive := h.live.mark hstores.others
  have hsaved : ∀ t ≠ s.kernel.onScreen, Owned (k₁.terminals t).bufKb (s.saved t) t := by
    intro t ht
    rw [hstores.bufKb]
    exact h.saved t ht
  unfold Origins.key
  dsimp only
  obtain heq | ⟨t, ht, heq⟩ := heq
  -- the terminal on screen is still the one that was typed on
  · rw [heq, if_pos hstores.onScreen]
    refine ⟨?_, ?_⟩
    · dsimp only
      rw [hstores.onScreen]
      exact hlive
    · intro u hu
      dsimp only at hu
      rw [hstores.onScreen] at hu
      exact hsaved u hu
  -- the live line has been saved, and that of the new terminal taken
  · have hon : (switchTo k₁ t).onScreen = t := (switchTo_screen k₁ t).2.1
    have hmove : t ≠ s.kernel.onScreen := by rwa [← hstores.onScreen]
    rw [heq, hon, if_neg hmove]
    refine ⟨?_, ?_⟩
    · dsimp only
      rw [hon, (switchTo_keyboard k₁ ht).1]
      exact (hsaved t hmove).copy
    · intro u hu
      dsimp only at hu ⊢
      rw [switchTo_records, hstores.onScreen]
      by_cases hold : u = s.kernel.onScreen
      · rw [if_pos hold, hold, Function.update_self]
        exact hlive.copy
      · rw [if_neg hold, Function.update_of_ne hold]
        exact hsaved u hold

/-- A step of a read leaves the buffer as it is or clears it. -/
theorem readStep_kernel (k : Kernel) (phase : ReadPhase) :
    (readStep k phase).1 = k ∨ (readStep k phase).1 = lineTaken k := by
  cases phase with
  | idle | waiting | scanning | faulted => exact .inl rfl
  | checking =>
    rw [readStep]
    split_ifs
    · exact .inl rfl
    · exact .inl rfl
    · exact .inl rfl
  | scanned =>
    rw [readStep]
    split_ifs
    · exact .inl rfl
    · exact .inr rfl

theorem OriginsOk.step {s : Origins} (h : OriginsOk s) (p : Fin 6) : OriginsOk (s.step p) := by
  unfold Origins.step
  obtain heq | heq := readStep_kernel s.kernel (s.phases p)
  · rw [heq]
    exact ⟨h.live, h.saved⟩
  · rw [heq]
    refine ⟨?_, ?_⟩
    -- the buffer is empty, so there is no character to account for
    · intro i hlo hhi hchar
      simp only [lineTaken, setTerminal_keyboard, if_pos (show 0 ≤ i ∧ i < 128 from ⟨hlo, hhi⟩)] at hchar
      exact absurd rfl hchar
    · intro t ht
      have hne : t ≠ s.kernel.onScreen := ht
      have hbuf : ((lineTaken s.kernel).terminals t).bufKb = (s.kernel.terminals t).bufKb := by
        rw [lineTaken, setTerminal_terminals, Function.update_of_ne hne]
      dsimp only
      rw [hbuf]
      exact h.saved t ht

private theorem originStep_ok {s t : Origins} {e : OriginEvent} (h : OriginsOk s) (hstep : OriginStep s e t) :
    OriginsOk t := by
  cases hstep with
  | key => exact h.key _ _
  | read => exact ⟨h.live, h.saved⟩
  | step => exact h.step _
  | @system k hsystem =>
    have hsame := systemStep_sameLine hsystem
    refine ⟨?_, fun t ht => ?_⟩
    · dsimp only
      rw [hsame.keyboard, hsame.onScreen]
      exact h.live
    · dsimp only at ht ⊢
      rw [hsame.onScreen] at ht
      rw [hsame.bufKb]
      exact h.saved t ht

private theorem lineBytes_getD (k : Kernel) {n i : Nat} (h : i < n) :
    (lineBytes k n).getD i 0 = k.keyboard.keyboardBuffer i := by
  rw [List.getD_eq_getElem _ _ (by simpa [lineBytes] using h)]
  simp [lineBytes]

/-- A read returns characters only at the end of its scan. -/
private theorem readStep_result {k : Kernel} {phase : ReadPhase} {r : Int} {stored : List UInt8} {i : Nat}
    (h : (readStep k phase).2.2 = some (r, stored)) (hi : (i : Int) < r) :
    ∃ nbytes count, phase = .scanned nbytes count ∧ r = min (count : Int) nbytes ∧
      stored.getD i 0 = k.keyboard.keyboardBuffer i := by
  cases phase with
  | idle | waiting | scanning | faulted => cases h
  | checking nbytes =>
    rw [readStep] at h
    split_ifs at h
    · cases h
      omega
    · cases h
      omega
  | scanned nbytes count =>
    rw [readStep] at h
    split_ifs at h
    · cases h
      exact ⟨nbytes, count, rfl, howMany_eq_min count nbytes, lineBytes_getD k (by omega)⟩

private theorem lineKept_of_ownReader {s : Origins} {e : OriginEvent} (h : OriginsOk s) (hown : OwnReader s e) :
    LineKept s e := by
  cases e with
  | key | read | system => trivial
  | step p =>
    intro r stored hres i hi hchar t ht
    obtain ⟨nbytes, count, hphase, rfl, hbyte⟩ := readStep_result hres hi
    rw [hbyte] at hchar
    rcases hown nbytes count hphase with hempty | ⟨hrecorded, hin⟩
    · exact absurd (hempty i hi) hchar
    · have horigin := h.live i (by omega) (by omega) hchar
      rw [ht, Option.some.injEq] at horigin
      rw [horigin]
      exact hrecorded

private theorem ownReader_of_lineKept {s : Origins} {e : OriginEvent} (h : OriginsOk s) (hin : InBuffer s e)
    (hkept : LineKept s e) : OwnReader s e := by
  cases e with
  | key | read | system => trivial
  | step p =>
    intro nbytes count hphase
    have hbound := hin nbytes count hphase
    refine or_iff_not_imp_left.2 fun hchars => ⟨?_, hbound⟩
    push Not at hchars
    -- a character that the read is about to return
    obtain ⟨i, hi, hchar⟩ := hchars
    have hres : (readStep s.kernel (s.phases p)).2.2 =
        some (min (count : Int) nbytes, lineBytes s.kernel (min (count : Int) nbytes + 1).toNat) := by
      rw [hphase, readStep, howMany_eq_min, if_neg (by omega)]
    refine hkept _ _ hres i hi ?_ _ (h.live i (by omega) (by omega) hchar)
    rw [lineBytes_getD s.kernel (by omega)]
    exact hchar

end Step

/-! ### Runs -/

/-- The kernel at boot, with nothing typed and no reads. -/
def origins₀ (b : Boot) : Origins := ⟨entry b, fun _ => .idle, fun _ => none, fun _ _ => none⟩

private theorem origins₀_ok (b : Boot) : OriginsOk (origins₀ b) := by
  have hbuf : ∀ t i, 0 ≤ i → i < 128 → ((entry b).terminals t).bufKb i = 0 := fun t i hlo hhi => if_pos ⟨hlo, hhi⟩
  refine ⟨fun i hlo hhi hchar => ?_, fun t _ i hlo hhi hchar => absurd (hbuf t i hlo hhi) hchar⟩
  have hzero : (entry b).keyboard.keyboardBuffer i = 0 := by
    rw [entry_keyboard]
    exact if_pos ⟨hlo, hhi⟩
  exact absurd hzero hchar

/-- Lines stay on their terminal.  In every state that a run of keys, reads of the processes, step by step, and whatever
else the kernel does reaches from boot, a step of a read returns only characters that were typed on terminals of its
process, if the process is recorded for the terminal on screen and the copy ends in the buffer, or there is no character
to copy; and, if the copy ends in the buffer, only then. -/
theorem lines_stay_iff {b : Boot} {events : List OriginEvent} {s : Origins}
    (hrun : Run OriginStep (origins₀ b) events s) (e : OriginEvent) :
    (OwnReader s e → LineKept s e) ∧ (InBuffer s e → LineKept s e → OwnReader s e) := by
  have hok : OriginsOk s := Run.invariant (P := OriginsOk) (fun _ _ _ hs hstep => originStep_ok hs hstep) hrun
    (origins₀_ok b)
  exact ⟨lineKept_of_ownReader hok, ownReader_of_lineKept hok⟩

/-! ### A line that goes to another terminal -/

/-- `n` steps of the read of process `p`, and nothing else. -/
private theorem originSteps_run (s : Origins) (p : Fin 6) (n : Nat) :
    Run OriginStep s (List.replicate n (.step p)) ((fun s => s.step p)^[n] s) := by
  induction n with
  | zero => exact .nil s
  | succ n ih =>
    rw [List.replicate_succ', Function.iterate_succ_apply']
    exact .snoc ih .step

private theorem originKeys_run (s : Origins) (codes : List Nat) :
    Run OriginStep s (codes.map fun c => .key c 0) (codes.foldl (fun s c => s.key c 0) s) := by
  induction codes using List.reverseRecOn with
  | nil => exact .nil s
  | append_singleton codes c ih =>
    rw [List.map_append, List.foldl_append]
    exact .snoc ih .key

/-- The first shell waits for a line. -/
def waitingShell : Origins :=
  ⟨firstShell, Function.update (fun _ => .idle) 0 (.waiting 128), fun _ => none, fun _ _ => none⟩

/-- The first shell waits, some keys are pressed, and it comes to the end of the line. -/
def shellReads (codes : List Nat) : Origins := (fun s => s.step 0)^[5] (codes.foldl (fun s c => s.key c 0) waitingShell)

private theorem shellReads_run (codes : List Nat) : Run OriginStep (origins₀ shellBoot)
    ([.system, .read 0 128] ++ codes.map (fun c => .key c 0) ++ List.replicate 5 (.step 0)) (shellReads codes) := by
  have hsystem : OriginStep (origins₀ shellBoot) .system
      ⟨firstShell, fun _ => .idle, fun _ => none, fun _ _ => none⟩ := by
    unfold firstShell origins₀
    exact .system .tick
  have hread : ∀ k : Kernel, OriginStep ⟨k, fun _ => .idle, fun _ => none, fun _ _ => none⟩ (.read 0 128)
      ⟨k, Function.update (fun _ => .idle) 0 (.waiting 128), fun _ => none, fun _ _ => none⟩ := fun _ => .read rfl
  exact ((Run.snoc (Run.single hsystem) (hread firstShell)).append (originKeys_run _ codes)).append
    (originSteps_run _ 0 5)

/-- A line typed on the terminal of the first shell. -/
theorem shellReads_lines_stay :
    (OwnReader (shellReads [0x2D, 0x1C]) (.step 0) → LineKept (shellReads [0x2D, 0x1C]) (.step 0)) ∧
      (InBuffer (shellReads [0x2D, 0x1C]) (.step 0) → LineKept (shellReads [0x2D, 0x1C]) (.step 0) →
        OwnReader (shellReads [0x2D, 0x1C]) (.step 0)) :=
  lines_stay_iff (shellReads_run [0x2D, 0x1C]) (.step 0)

private theorem not_lineKept {s : Origins} {p : Fin 6} {r : Int} {stored : List UInt8} {t : Fin 3}
    (hres : (readStep s.kernel (s.phases p)).2.2 = some (r, stored)) (hr : 0 < r) (hchar : stored.getD 0 0 ≠ 0)
    (hlive : s.live 0 = some t) (hpids : (s.kernel.terminals t).pids = []) : ¬LineKept s (.step p) := by
  intro hkept
  have hrecorded : Recorded s.kernel t p := hkept r stored hres 0 hr hchar t hlive
  rw [Recorded, hpids] at hrecorded
  cases hrecorded

/-- With Alt-F2 before, the line is typed on the second terminal, and the first shell gets it. -/
theorem shell_reads_other_terminal :
    let codes := [0x38, 0x3C, 0xB8, 0x2D, 0x1C]
    let s := shellReads codes
    Run OriginStep (origins₀ shellBoot)
        ([.system, .read 0 128] ++ codes.map (fun c => .key c 0) ++ List.replicate 5 (.step 0)) s ∧
      (readStep s.kernel (s.phases 0)).2.2 = some (2, asBytes "x\n\x00") ∧ s.live 0 = some 1 ∧
      (s.kernel.terminals 1).pids = [] ∧ ¬LineKept s (.step 0) := by
  intro codes s
  have hres : (readStep s.kernel (s.phases 0)).2.2 = some (2, asBytes "x\n\x00") := by decide +kernel
  have horigin : s.live 0 = some 1 := by decide +kernel
  have hpids : (s.kernel.terminals 1).pids = [] := by decide +kernel
  exact ⟨shellReads_run codes, hres, horigin, hpids, not_lineKept hres (by decide) (by decide) horigin hpids⟩

end BigChungOS
