import BigChungOS.LineDelivery
import BigChungOS.LineOrigin

/-!
# The search for the end of a line

`terminal_read` looks for a NUL from the start of `keyboard_buffer` on, with no bound of its own; that it stays in the
128 bytes rests on the last of them, which the comment in keyboard.h keeps for padding.  Only one key stores there: a
character typed at index 126 puts its newline into cell 127, and a full line with Enter behind it then has no NUL
(`full_line_no_nul`).

In every run on one terminal in which no character is typed as the 127th of its line, a line that waits has its NUL, and
no read, whatever comes between its steps, looks past it (`scan_in_buffer`).
-/

namespace BigChungOS

open Transition

inductive ScanEvent
  | key (scanCode : Nat) (past : UInt8)
  | read (nbytes : Int)
  | step
  | system

/-- A keyboard interrupt that leaves the same terminal on screen; the start of a read; a step of it; or what else the
kernel does. -/
inductive ScanStep : Reader → ScanEvent → Reader → Prop
  | key {k : Kernel} {phase : ReadPhase} {results : List (Int × List UInt8)} {scanCode : Nat} {past : UInt8}
      (hstay : (keyboardHandler k scanCode past).1.onScreen = k.onScreen) :
      ScanStep ⟨k, phase, results⟩ (.key scanCode past) ⟨(keyboardHandler k scanCode past).1, phase, results⟩
  | read {k : Kernel} {results : List (Int × List UInt8)} {nbytes : Int} :
      ScanStep ⟨k, .idle, results⟩ (.read nbytes) ⟨k, .waiting nbytes, results⟩
  | step {r : Reader} : ScanStep r .step r.step
  | system {k k' : Kernel} {phase : ReadPhase} {results : List (Int × List UInt8)} (h : SystemStep k k') :
      ScanStep ⟨k, phase, results⟩ .system ⟨k', phase, results⟩

/-- A NUL among the 128 bytes of the buffer. -/
def HasNul (buf : Int → UInt8) : Prop := ∃ i : Nat, i < 128 ∧ buf i = 0

/-- The index the search looks at next, or the count it has come to, is at most 127. -/
def ScanWithin : ReadPhase → Prop
  | .scanning _ count | .scanned _ count => count ≤ 127
  | .idle | .waiting _ | .checking _ | .faulted => True

/-- An entered line has a NUL in the buffer, the search for it ends there, and a read in the middle of its search has
not left the buffer. -/
structure ScanInside (r : Reader) : Prop where
  nul : Unread r.kernel → HasNul r.kernel.keyboard.keyboardBuffer
  search : Unread r.kernel → ∃ count, lineLength r.kernel.keyboard.keyboardBuffer = some count ∧ count ≤ 127
  phase : ScanWithin r.phase

/-- No character is typed as the 127th of the line. -/
def LastCellFree (r : Reader) : ScanEvent → Prop
  | .key scanCode _ =>
    ¬(isText scanCode = true ∧ r.kernel.keyboard.charCount < 127 ∧ r.kernel.keyboard.kbIdx = 126)
  | .read _ | .step | .system => True

/-! ### The last cell -/

/-- Terminal `t` is on screen, and the last cell of its line is the NUL that pads it. -/
structure Padded (k : Kernel) (t : Fin 3) : Prop where
  onScreen : k.onScreen = t
  last : k.keyboard.keyboardBuffer 127 = 0
  nonneg : 0 ≤ k.keyboard.kbIdx
  counted : k.keyboard.kbIdx ≤ k.keyboard.charCount
  bound : k.keyboard.kbIdx ≤ 127

section Blocks

variable {k k' : Kernel} {t : Fin 3} (scanCode : Nat) {past : UInt8}

/-- A change that leaves the line as it is. -/
private theorem Padded.of_line (h : Padded k t) (hon : k'.onScreen = k.onScreen)
    (hbuffer : k'.keyboard.keyboardBuffer = k.keyboard.keyboardBuffer) (hidx : k'.keyboard.kbIdx = k.keyboard.kbIdx)
    (hcount : k'.keyboard.charCount = k.keyboard.charCount) : Padded k' t where
  onScreen := hon.trans h.onScreen
  last := by rw [hbuffer, h.last]
  nonneg := by rw [hidx]; exact h.nonneg
  counted := by rw [hidx, hcount]; exact h.counted
  bound := by rw [hidx]; exact h.bound

theorem Padded.typeText (h : Padded k t)
    (hfree : ¬(isText scanCode = true ∧ k.keyboard.charCount < 127 ∧ k.keyboard.kbIdx = 126)) :
    Padded (typeText k scanCode past).1 t := by
  unfold BigChungOS.typeText
  split
  · next hroom =>
    obtain ⟨hcount, htext⟩ := hroom
    have hcounted := h.counted
    have hidx : k.keyboard.kbIdx < 126 := by
      have hne : k.keyboard.kbIdx ≠ 126 := fun heq => hfree ⟨htext, hcount, heq⟩
      omega
    refine ⟨h.onScreen, ?_, ?_, ?_, ?_⟩
    · show Function.update (Function.update k.keyboard.keyboardBuffer k.keyboard.kbIdx _) (k.keyboard.kbIdx + 1) newline
        127 = 0
      rw [Function.update_of_ne (by omega), Function.update_of_ne (by omega), h.last]
    · exact Int.add_nonneg h.nonneg (by decide)
    · exact Int.add_le_add_right hcounted 1
    · show k.keyboard.kbIdx + 1 ≤ 127
      omega
  · exact h

theorem Padded.backspace (h : Padded k t) : Padded (backspace k scanCode).1 t := by
  unfold BigChungOS.backspace
  split
  · next hback =>
    have hbound := h.bound
    have hcounted := h.counted
    refine ⟨h.onScreen, ?_, ?_, ?_, ?_⟩
    · show Function.update k.keyboard.keyboardBuffer (k.keyboard.kbIdx - 1) 0 127 = 0
      rw [Function.update_of_ne (by omega), h.last]
    · show 0 ≤ k.keyboard.kbIdx - 1
      omega
    · exact Int.sub_le_sub_right hcounted 1
    · show k.keyboard.kbIdx - 1 ≤ 127
      omega
  · exact h

theorem Padded.clearKey (h : Padded k t) : Padded (clearKey k scanCode) t := by
  unfold BigChungOS.clearKey
  split
  · exact h.of_line rfl rfl rfl rfl
  · exact h

theorem Padded.tab (h : Padded k t) : Padded (tab k scanCode).1 t := by
  unfold BigChungOS.tab
  split
  · next htab =>
    have hbound := h.bound
    have hcounted := h.counted
    refine ⟨h.onScreen, ?_, ?_, ?_, ?_⟩
    · show Function.update k.keyboard.keyboardBuffer k.keyboard.kbIdx space 127 = 0
      rw [Function.update_of_ne (by omega), h.last]
    · exact Int.add_nonneg h.nonneg (by decide)
    · exact Int.add_le_add_right hcounted 1
    · show k.keyboard.kbIdx + 1 ≤ 127
      omega
  · exact h

theorem Padded.enter (h : Padded k t) : Padded (enter k scanCode) t := by
  unfold BigChungOS.enter
  split
  · exact ⟨h.onScreen, h.last, le_refl 0, le_refl 0, (by decide : (0 : Int) ≤ 127)⟩
  · exact h

/-- A switch puts another terminal on screen. -/
theorem Padded.functionKey (h : Padded k t) (hstay : (functionKey k scanCode).onScreen = t) :
    Padded (functionKey k scanCode) t := by
  obtain heq | ⟨u, hu, heq⟩ := functionKey_eq k scanCode
  · rw [heq]
    exact h
  · have hswitched : (BigChungOS.functionKey k scanCode).onScreen = u := congrArg Kernel.onScreen heq
    rw [h.onScreen] at hu
    exact absurd (hswitched.symm.trans hstay) hu

/-- A key that stores nothing into the last cell, and switches no terminal. -/
theorem Padded.key {scanCode : Nat} (h : Padded k t)
    (hfree : ¬(isText scanCode = true ∧ k.keyboard.charCount < 127 ∧ k.keyboard.kbIdx = 126))
    (hstay : (keyboardHandler k scanCode past).1.onScreen = k.onScreen) :
    Padded (keyboardHandler k scanCode past).1 t := by
  obtain ⟨hbuffer, hidx, hcount⟩ := updateFlags_line k.keyboard scanCode
  have hflags : Padded { k with keyboard := k.keyboard.updateFlags scanCode } t := h.of_line rfl hbuffer hidx hcount
  have htext : Padded (BigChungOS.typeText _ scanCode past).1 t :=
    hflags.typeText scanCode (by rw [hidx, hcount]; exact hfree)
  have hline := (((htext.backspace scanCode).clearKey scanCode).tab scanCode).enter scanCode
  rw [h.onScreen] at hstay
  exact hline.functionKey scanCode hstay

theorem Padded.sameLine (h : Padded k t) (hsame : SameLine k k') : Padded k' t :=
  h.of_line hsame.onScreen (by rw [hsame.keyboard]) (by rw [hsame.keyboard]) (by rw [hsame.keyboard])

end Blocks

/-! ### Steps and runs -/

theorem Padded.lineTaken {k : Kernel} {t : Fin 3} (h : Padded k t) : Padded (lineTaken k) t where
  onScreen := h.onScreen
  last := rfl
  nonneg := le_refl 0
  counted := h.nonneg.trans h.counted
  bound := by
    show (0 : Int) ≤ 127
    decide

/-- The search goes on only from a cell that is no NUL. -/
private theorem readStep_within {k : Kernel} {phase : ReadPhase} (hlast : k.keyboard.keyboardBuffer 127 = 0)
    (h : ScanWithin phase) : ScanWithin (readStep k phase).2.1 := by
  cases phase with
  | idle | faulted => trivial
  | waiting nbytes =>
    rw [readStep]
    dsimp only
    split
    · trivial
    · trivial
  | checking nbytes =>
    rw [readStep]
    split_ifs
    · trivial
    · trivial
    · exact Nat.zero_le 127
  | scanning nbytes count =>
    rw [readStep]
    dsimp only
    have hcount : count ≤ 127 := h
    split
    · exact hcount
    · next hchar =>
      have hne : count ≠ 127 := by
        rintro rfl
        exact hchar hlast
      exact (by omega : count + 1 ≤ 127)
  | scanned nbytes count =>
    rw [readStep]
    split
    · trivial
    · trivial

/-- A NUL in the last cell ends the search. -/
private theorem lineLength_of_last {buf : Int → UInt8} (hlast : buf 127 = 0) :
    ∃ count, lineLength buf = some count ∧ count ≤ 127 := by
  have hex : ∃ n : Nat, buf n = 0 := ⟨127, hlast⟩
  have hle : Nat.find hex ≤ 127 := Nat.find_min' hex hlast
  exact ⟨Nat.find hex, lineLengthFrom_eq_some (Nat.zero_le _) (fun i hi => Nat.find_min hex hi) (Nat.find_spec hex)
    (by omega), hle⟩

/-- The line is padded, and a read that searches it is inside. -/
structure ScanOk (r : Reader) (t : Fin 3) : Prop where
  padded : Padded r.kernel t
  phase : ScanWithin r.phase

private theorem ScanOk.inside {r : Reader} {t : Fin 3} (h : ScanOk r t) : ScanInside r where
  nul _ := ⟨127, by decide, h.padded.last⟩
  search _ := lineLength_of_last h.padded.last
  phase := h.phase

private theorem scanStep_ok {r r' : Reader} {t : Fin 3} {e : ScanEvent} (h : ScanOk r t) (hc : LastCellFree r e)
    (hstep : ScanStep r e r') : ScanOk r' t := by
  cases hstep with
  | key hstay => exact ⟨h.padded.key hc hstay, h.phase⟩
  | read => exact ⟨h.padded, trivial⟩
  | step =>
    refine ⟨?_, readStep_within h.padded.last h.phase⟩
    rw [Reader.step]
    obtain heq | heq := readStep_kernel r.kernel r.phase
    · rw [heq]
      exact h.padded
    · rw [heq]
      exact h.padded.lineTaken
  | system hsystem => exact ⟨h.padded.sameLine (systemStep_sameLine hsystem), h.phase⟩

/-- The kernel at boot, and no read. -/
def scan₀ (b : Boot) : Reader := ⟨entry b, .idle, []⟩

private theorem scan₀_ok (b : Boot) : ScanOk (scan₀ b) (entry b).onScreen := by
  have hkb := entry_keyboard b
  refine ⟨⟨rfl, ?_, ?_, ?_, ?_⟩, trivial⟩ <;> rw [scan₀, hkb]
  · rfl
  · exact le_refl 0
  · exact le_refl 0
  · exact (by decide : (0 : Int) ≤ 127)

/-- The scan stays in the buffer.  From boot, along every run of keys on one terminal, reads, step by step, and
whatever else the kernel does, in which no character is typed as the 127th of its line, a line that has been entered
has a NUL in the buffer, and the search for it, at any of its steps, is inside. -/
theorem scan_in_buffer {b : Boot} {events : List ScanEvent} {r : Reader}
    (hrun : Run (Guarded LastCellFree ScanStep) (scan₀ b) events r) : ScanInside r := by
  have hok : ScanOk r (entry b).onScreen := by
    refine Run.invariant (P := fun r => ScanOk r (entry b).onScreen) ?_ hrun (scan₀_ok b)
    rintro r e r' hr ⟨hc, hstep⟩
    exact scanStep_ok hr hc hstep
  exact hok.inside

/-! ### A full line -/

/-- A character typed behind 126 others, and Enter: the line waits, and has no NUL. -/
theorem full_line_no_nul {k : Kernel} {scanCode : Nat} (hflags : FlagsOk k.keyboard) (hkey : Printable scanCode)
    (hcount : k.keyboard.charCount < 127) (hidx : k.keyboard.kbIdx = 126)
    (hchars : ∀ i : Nat, i < 126 → k.keyboard.keyboardBuffer i ≠ 0) (past : UInt8) :
    let k' := (keyboardHandler (keyboardHandler k scanCode past).1 0x1C past).1
    Unread k' ∧ ¬HasNul k'.keyboard.keyboardBuffer := by
  obtain ⟨htyped, -, -⟩ := keyboardHandler_types hkey hcount past
  obtain ⟨hentered, hterm, hon⟩ := keyboardHandler_enter (keyboardHandler k scanCode past).1 past
  dsimp only
  constructor
  · rw [Unread, hterm, hon, Function.update_self]
  rintro ⟨i, hi, hnul⟩
  rw [hentered, htyped] at hnul
  simp only [Keyboard.store, hidx] at hnul
  -- the newline, the character before it, and those before that
  by_cases hnewline : (i : Int) = 127
  · rw [hnewline, show (127 : Int) = 126 + 1 from rfl, Function.update_self] at hnul
    exact absurd hnul (by decide)
  rw [Function.update_of_ne (by omega)] at hnul
  by_cases hlast : (i : Int) = 126
  · rw [hlast, Function.update_self] at hnul
    exact (keyChar_lineChar hflags hkey).1 hnul
  rw [Function.update_of_ne hlast] at hnul
  exact hchars i (by omega) hnul

/-- The kernel after a list of keys. -/
def keysPressed (k : Kernel) (codes : List Nat) : Kernel := codes.foldl pressed k

private theorem keysPressed_run {codes : List Nat} (hcodes : ∀ c ∈ codes, Printable c ∨ c = 0x1C) (k : Kernel) :
    Run ScanStep ⟨k, .idle, []⟩ (codes.map fun c => .key c 0) ⟨keysPressed k codes, .idle, []⟩ := by
  have hstay : ∀ k c, Printable c ∨ c = 0x1C → (keyboardHandler k c 0).1.onScreen = k.onScreen := by
    rintro k c (hkey | rfl)
    · rw [keyboardHandler_printable hkey]
      exact ((typeText_storesAt k c 0).trans (clearKey_storesAt _ c)).onScreen
    · exact (keyboardHandler_enter k 0).2.2
  induction codes using List.reverseRecOn with
  | nil => exact .nil _
  | append_singleton codes c ih =>
    rw [List.map_append, keysPressed, List.foldl_append]
    exact .snoc (ih fun c hc => hcodes c (List.mem_append_left _ hc)) (.key (hstay _ _ (hcodes c (by simp))))

/-- `n` steps of a read, and nothing else. -/
private theorem scanSteps_run (r : Reader) (n : Nat) :
    Run (Guarded LastCellFree ScanStep) r (List.replicate n .step) (Reader.step^[n] r) := by
  induction n with
  | zero => exact .nil r
  | succ n ih =>
    rw [List.replicate_succ', Function.iterate_succ_apply']
    exact .snoc ih ⟨trivial, .step⟩

deriving instance DecidableEq for ReadPhase

/-- A read of 128 bytes after `n` steps, the keys pressed before it. -/
def readAfter (codes : List Nat) (n : Nat) : Reader :=
  Reader.step^[n] ⟨keysPressed (entry shellBoot) codes, .waiting 128, []⟩

/-- The first line at boot: a character and Enter. -/
theorem letter_scan_in_buffer :
    (readAfter [0x1E, 0x1C] 4).phase = .scanning 128 2 ∧ ScanInside (readAfter [0x1E, 0x1C] 4) := by
  have hfirst : LastCellFree (scan₀ shellBoot) (.key 0x1E 0) := by
    unfold LastCellFree
    decide +kernel
  have hsecond : LastCellFree ⟨pressed (entry shellBoot) 0x1E, .idle, []⟩ (.key 0x1C 0) := by
    unfold LastCellFree
    decide +kernel
  have hkey : ScanStep (scan₀ shellBoot) (.key 0x1E 0) ⟨pressed (entry shellBoot) 0x1E, .idle, []⟩ :=
    .key (by decide +kernel)
  have henter : ScanStep ⟨pressed (entry shellBoot) 0x1E, .idle, []⟩ (.key 0x1C 0)
      ⟨keysPressed (entry shellBoot) [0x1E, 0x1C], .idle, []⟩ := .key (by decide +kernel)
  have hrun : Run (Guarded LastCellFree ScanStep) (scan₀ shellBoot)
      ([] ++ [.key 0x1E 0] ++ [.key 0x1C 0] ++ [.read 128])
      ⟨keysPressed (entry shellBoot) [0x1E, 0x1C], .waiting 128, []⟩ :=
    .snoc (.snoc (.snoc (.nil _) ⟨hfirst, hkey⟩) ⟨hsecond, henter⟩) ⟨trivial, .read⟩
  exact ⟨by decide +kernel, scan_in_buffer (hrun.append (scanSteps_run _ 4))⟩

private theorem not_scanInside {r : Reader} {nbytes : Int} {count : Nat} (hphase : r.phase = .scanning nbytes count)
    (hleft : 127 < count) : ¬ScanInside r := by
  intro hinside
  have hle := hinside.phase
  rw [hphase, ScanWithin] at hle
  omega

/-- 127 characters and Enter. -/
def fullLine : List Nat := List.replicate 127 0x1E ++ [0x1C]

/-- With a full line there is no NUL in the buffer, and the read of the line comes to look at index 128. -/
theorem full_line_scan_leaves :
    Run ScanStep (scan₀ shellBoot) (fullLine.map (fun c => .key c 0) ++ [.read 128] ++ List.replicate 130 .step)
        (readAfter fullLine 130) ∧
      Unread (readAfter fullLine 130).kernel ∧
      (∀ i : Fin 128, (readAfter fullLine 130).kernel.keyboard.keyboardBuffer i ≠ 0) ∧
      (readAfter fullLine 130).phase = .scanning 128 128 ∧ ¬ScanInside (readAfter fullLine 130) := by
  have hcodes : ∀ c ∈ fullLine, Printable c ∨ c = 0x1C := by
    intro c hc
    rcases List.mem_append.1 hc with hc | hc
    · rw [List.eq_of_mem_replicate hc]
      exact .inl ⟨by decide, by decide⟩
    · exact .inr (List.mem_singleton.1 hc)
  -- evaluated together, so that the keys are typed once
  obtain ⟨hphase, hunread, hnul⟩ : (readAfter fullLine 130).phase = .scanning 128 128 ∧
      Unread (readAfter fullLine 130).kernel ∧
      ∀ i : Fin 128, (readAfter fullLine 130).kernel.keyboard.keyboardBuffer i ≠ 0 := by
    unfold Unread
    decide +kernel
  have htyped := (keysPressed_run hcodes (entry shellBoot)).append (Run.single (@ScanStep.read _ _ 128))
  exact ⟨htyped.append (scanSteps_run _ 130).unguarded, hunread, hnul, hphase, not_scanInside hphase (by decide)⟩

end BigChungOS
