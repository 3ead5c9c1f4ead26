import BigChungOS.Lib.Runs
import BigChungOS.TerminalRead

/-!
# Lines that are typed and read

On one terminal, each line that is typed and ended with Enter should be returned by one `terminal_read`, in order and as
it was typed.  There is one buffer, and Enter only sets a flag: what is typed while the flag is set goes over the line
that has not been read yet, and another Enter leaves no trace.

So the reads return the lines as long as no key is pressed while a line waits to be read (`each_line_once`), wherever
the steps of the read fall between the others.
-/

namespace BigChungOS

open Memory Transition

/-! ### Keys -/

/-- The scan code of a key with a character. -/
def Printable (scanCode : Nat) : Prop := scanCode < 59 ∧ isText scanCode = true

/-- A scan code that is no key of the line: a release code, or a key like shift or a function key that switches no
terminal. -/
def Silent (scanCode : Nat) : Prop :=
  isText scanCode = false ∧ scanCode ∉ ([0x0E, 0x0F, 0x1C, 0x3B, 0x3C, 0x3D] : List Nat)

/-- The flags have the values that select a character table. -/
def FlagsOk (kb : Keyboard) : Prop := (kb.shiftFlag = 0 ∨ kb.shiftFlag = 1) ∧ (kb.capsFlag = 1 ∨ kb.capsFlag = -2)

/-- A character of a line. -/
def LineChar (c : UInt8) : Prop := c ≠ 0 ∧ c ≠ newline

section Keys

variable {k : Kernel} {scanCode : Nat} {past : UInt8}

private theorem printable_codes : ∀ s : Fin 59, isText s = true →
    s.val ∉ ([0x0E, 0x0F, 0x1C, 0x1D, 0x2A, 0x36, 0x38, 0x3A] : List Nat) := by decide

private theorem printable_chars : ∀ s : Fin 59, isText s = true →
    ∀ t ∈ [charArrayNormal, charArrayShiftNoCap, charArrayNoshiftCap, charArrayShiftCap],
      ∃ c, t[s.val]? = some c ∧ space ≤ c := by decide

/-- The characters of the keys are no control characters. -/
theorem keyChar_graphic {kb : Keyboard} (hflags : FlagsOk kb) (h : Printable scanCode) :
    space ≤ keyChar kb scanCode past := by
  have hchar : ∀ t ∈ [charArrayNormal, charArrayShiftNoCap, charArrayNoshiftCap, charArrayShiftCap],
      space ≤ t.getD scanCode past := by
    intro t ht
    obtain ⟨c, hc, hgraphic⟩ := printable_chars ⟨scanCode, h.1⟩ h.2 t ht
    rw [List.getD_eq_getElem?_getD, hc]
    exact hgraphic
  obtain ⟨hshift | hshift, hcaps | hcaps⟩ := hflags <;> unfold keyChar <;> rw [hshift, hcaps]
  · exact hchar charArrayNormal (by simp)
  · exact hchar charArrayNoshiftCap (by simp)
  · exact hchar charArrayShiftNoCap (by simp)
  · exact hchar charArrayShiftCap (by simp)

theorem keyChar_lineChar {kb : Keyboard} (hflags : FlagsOk kb) (h : Printable scanCode) :
    LineChar (keyChar kb scanCode past) := by
  have hgraphic : space ≤ keyChar kb scanCode past := keyChar_graphic hflags h
  constructor
  · intro hzero
    rw [hzero] at hgraphic
    exact absurd hgraphic (by decide)
  · intro hnewline
    rw [hnewline] at hgraphic
    exact absurd hgraphic (by decide)

/-- A printable key types its character, and may clear the screen. -/
theorem keyboardHandler_printable (h : Printable scanCode) :
    (keyboardHandler k scanCode past).1 = clearKey (typeText k scanCode past).1 scanCode := by
  have hcodes := printable_codes ⟨scanCode, h.1⟩ h.2
  have hsmall := h.1
  simp only [List.mem_cons, List.not_mem_nil, or_false, not_or] at hcodes
  obtain ⟨hback, htab, henter, hctrl, hshift, hshift', halt, hcaps⟩ := hcodes
  have hflags : k.keyboard.updateFlags scanCode = k.keyboard := by
    unfold Keyboard.updateFlags
    simp only [hshift, hshift', hcaps, hctrl, halt, show scanCode ≠ 0xAA by omega, show scanCode ≠ 0xB6 by omega,
      show scanCode ≠ 0x9D by omega, show scanCode ≠ 0xB8 by omega, or_self, if_false]
  unfold keyboardHandler
  simp only [hflags, backspace, tab, enter, functionKey, hback, htab, henter, show scanCode ≠ 0x3B by omega,
    show scanCode ≠ 0x3C by omega, show scanCode ≠ 0x3D by omega, false_and, if_false, ite_self]

/-- The keyboard after a character has been typed. -/
theorem keyboardHandler_types (h : Printable scanCode) (hroom : k.keyboard.charCount < 127) (past : UInt8) :
    (keyboardHandler k scanCode past).1.keyboard =
      { (k.keyboard.store k.keyboard.kbIdx (keyChar k.keyboard scanCode past)).store (k.keyboard.kbIdx + 1) newline with
        kbIdx := k.keyboard.kbIdx + 1, charCount := k.keyboard.charCount + 1, keypressToVidFlag := false } ∧
      (keyboardHandler k scanCode past).1.terminals = k.terminals ∧
      (keyboardHandler k scanCode past).1.onScreen = k.onScreen := by
  rw [keyboardHandler_printable h]
  have hclear : ∀ k, (clearKey k scanCode).keyboard = k.keyboard ∧ (clearKey k scanCode).terminals = k.terminals ∧
      (clearKey k scanCode).onScreen = k.onScreen := by
    intro k
    unfold clearKey
    split
    · exact ⟨rfl, rfl, rfl⟩
    · exact ⟨rfl, rfl, rfl⟩
  obtain ⟨hkb, hterm, hon⟩ := hclear (typeText k scanCode past).1
  rw [hkb, hterm, hon]
  unfold typeText
  rw [if_pos ⟨hroom, h.2⟩]
  exact ⟨rfl, rfl, rfl⟩

/-- Enter sets the flag of the terminal on screen. -/
theorem keyboardHandler_enter (k : Kernel) (past : UInt8) :
    (keyboardHandler k 0x1C past).1.keyboard =
      { k.keyboard with kbIdx := 0, charCount := 0, keypressToVidFlag := false } ∧
      (keyboardHandler k 0x1C past).1.terminals =
        Function.update k.terminals k.onScreen { k.terminals k.onScreen with enterPFlag := true } ∧
      (keyboardHandler k 0x1C past).1.onScreen = k.onScreen := by
  have hflags : k.keyboard.updateFlags 0x1C = k.keyboard := rfl
  have htext : isText 0x1C = false := by decide
  unfold keyboardHandler
  simp [hflags, typeText, htext, backspace, clearKey, tab, functionKey, enter, echo, putc]

/-- Another scan code changes at most the flags. -/
theorem keyboardHandler_silent (h : Silent scanCode) :
    (keyboardHandler k scanCode past).1 = { k with keyboard := k.keyboard.updateFlags scanCode } := by
  obtain ⟨htext, hcodes⟩ := h
  simp only [List.mem_cons, List.not_mem_nil, or_false, not_or] at hcodes
  obtain ⟨hback, htab, henter, hone, htwo, hthree⟩ := hcodes
  have hl : scanCode ≠ 0x26 := by
    rintro rfl
    exact absurd htext (by decide)
  unfold keyboardHandler
  simp only [typeText, htext, backspace, clearKey, tab, enter, functionKey, hback, htab, henter, hone, htwo, hthree, hl,
    false_and, and_false, if_false, ite_self, Bool.false_eq_true]

theorem updateFlags_flagsOk {kb : Keyboard} (h : FlagsOk kb) : FlagsOk (kb.updateFlags scanCode) := by
  obtain ⟨hshift, hcaps⟩ := h
  simp only [FlagsOk, Keyboard.updateFlags, apply_ite Keyboard.shiftFlag, apply_ite Keyboard.capsFlag, ite_self]
  constructor
  · split_ifs
    · exact .inl rfl
    · exact .inr rfl
    · exact hshift
  · split_ifs
    · omega
    · exact hcaps

theorem updateFlags_line (kb : Keyboard) (scanCode : Nat) :
    (kb.updateFlags scanCode).keyboardBuffer = kb.keyboardBuffer ∧ (kb.updateFlags scanCode).kbIdx = kb.kbIdx ∧
      (kb.updateFlags scanCode).charCount = kb.charCount := by
  simp only [Keyboard.updateFlags, apply_ite Keyboard.keyboardBuffer, apply_ite Keyboard.kbIdx,
    apply_ite Keyboard.charCount, ite_self, and_self]

end Keys

/-! ### The buffer -/

/-- A line as the buffer shows it: every character is typed with a newline after it. -/
def shown (line : List UInt8) : List UInt8 := if line = [] then [] else line ++ [newline]

/-- The buffer shows the line, with NULs behind it. -/
def Shows (buf : Int → UInt8) (line : List UInt8) : Prop := ∀ i : Nat, i < 128 → buf i = (shown line).getD i 0

/-- The line fits in the buffer, and has neither a NUL nor a newline. -/
structure LineFits (line : List UInt8) : Prop where
  short : line.length < 127
  chars : ∀ c ∈ line, LineChar c

section Buffer

variable {buf : Int → UInt8} {line : List UInt8}

private theorem shown_length_le (line : List UInt8) : (shown line).length ≤ line.length + 1 := by
  unfold shown
  split
  · simp
  · simp

private theorem shown_getD_of_lt {i : Nat} (h : i < line.length) : (shown line).getD i 0 = line.getD i 0 := by
  have hne : line ≠ [] := by
    rintro rfl
    simp at h
  rw [shown, if_neg hne, List.getD_append _ _ _ _ h]

private theorem Shows.type (h : Shows buf line) (c : UInt8) :
    Shows (Function.update (Function.update buf line.length c) (line.length + 1) newline) (line ++ [c]) := by
  intro i hi
  have hshown : shown (line ++ [c]) = line ++ [c, newline] := by simp [shown]
  rw [hshown]
  -- the newline, the character before it, the line as it was, and the NULs behind
  by_cases hnewline : i = line.length + 1
  · subst hnewline
    simp
  rw [Function.update_of_ne (by omega)]
  by_cases hlast : i = line.length
  · subst hlast
    simp
  rw [Function.update_of_ne (by omega), h i hi]
  by_cases hlt : i < line.length
  · rw [shown_getD_of_lt hlt, List.getD_append _ _ _ _ hlt]
  · have hbound := shown_length_le line
    rw [List.getD_eq_default _ _ (by omega), List.getD_eq_default _ _ (by simp; omega)]

/-- A NUL ends the line, and there is none in it. -/
theorem Shows.eq_zero_iff (h : Shows buf line) (hfits : LineFits line) {i : Nat} (hi : i ≤ (shown line).length) :
    buf i = 0 ↔ i = (shown line).length := by
  have hbound := shown_length_le line
  have hshort := hfits.short
  rw [h i (by omega)]
  constructor
  · intro hzero
    by_contra hne
    have hlt : i < (shown line).length := by omega
    have hmem : (0 : UInt8) ∈ shown line := by
      rw [List.getD_eq_getElem _ _ hlt] at hzero
      rw [← hzero]
      exact List.getElem_mem hlt
    unfold shown at hmem
    split at hmem
    · cases hmem
    · rcases List.mem_append.1 hmem with hline | hnewline
      · exact (hfits.chars 0 hline).1 rfl
      · exact absurd (List.mem_singleton.1 hnewline) (by decide)
  · rintro rfl
    exact List.getD_eq_default _ _ (le_refl _)

/-- The first character is no newline. -/
theorem Shows.first (h : Shows buf line) (hfits : LineFits line) : buf 0 ≠ newline := by
  have hfirst := h 0 (by omega)
  rw [Nat.cast_zero] at hfirst
  rw [hfirst]
  cases line with
  | nil => decide
  | cons c line =>
    rw [shown_getD_of_lt (by simp)]
    exact (hfits.chars c List.mem_cons_self).2

/-- The bytes of the line and one more. -/
theorem Shows.bytes {k : Kernel} (h : Shows k.keyboard.keyboardBuffer line) (hfits : LineFits line) :
    lineBytes k ((shown line).length + 1) = shown line ++ [0] := by
  have hbound := shown_length_le line
  have hshort := hfits.short
  refine List.ext_getElem (by simp [lineBytes]) fun i hi hi' => ?_
  simp only [lineBytes, List.length_map, List.length_range] at hi
  simp only [lineBytes, List.getElem_map, List.getElem_range]
  rw [h i (by omega), List.getElem_append]
  split
  · next hlt => exact List.getD_eq_getElem _ _ hlt
  · rw [List.getD_eq_default _ _ (by omega)]
    simp

theorem lineLengthFrom_eq_some {n start fuel : Nat} (hstart : start ≤ n) (hchars : ∀ i < n, buf i ≠ 0)
    (hend : buf n = 0) (hfuel : n < start + fuel) : lineLengthFrom buf fuel start = some n := by
  induction fuel generalizing start with
  | zero => omega
  | succ fuel ih =>
    rw [lineLengthFrom]
    by_cases heq : start = n
    · rw [heq, if_pos hend]
    · rw [if_neg (hchars start (by omega))]
      exact ih (by omega) (by omega)

/-- The loop over the buffer finds the end of the line. -/
theorem Shows.lineLength (h : Shows buf line) (hfits : LineFits line) : lineLength buf = some (shown line).length := by
  have hbound := shown_length_le line
  have hshort := hfits.short
  refine lineLengthFrom_eq_some (Nat.zero_le _) (fun i hi hzero => ?_) ?_ (by omega)
  · have heq := (h.eq_zero_iff hfits (by omega)).1 hzero
    omega
  · exact (h.eq_zero_iff hfits (le_refl _)).2 rfl

end Buffer

/-! ### Steps -/

/-- The reader, the characters typed since the last Enter, and the lines that have been entered. -/
structure Session where
  reader : Reader
  typing : List UInt8
  lines : List (List UInt8)

/-- The kernel of a session. -/
def Session.kernel (s : Session) : Kernel := s.reader.kernel

inductive SessionEvent
  | key (scanCode : Nat) (past : UInt8)
  | read (nbytes : Int)
  | step
  | system

/-- A keyboard interrupt; the start of a read of at least 128 bytes; a step of it; or what else the kernel does. -/
inductive SessionStep : Session → SessionEvent → Session → Prop
  | type {k : Kernel} {phase : ReadPhase} {results : List (Int × List UInt8)} {typing : List UInt8}
      {lines : List (List UInt8)} {scanCode : Nat} {past : UInt8} (hkey : Printable scanCode)
      (hroom : typing.length + 1 < 127) :
      SessionStep ⟨⟨k, phase, results⟩, typing, lines⟩ (.key scanCode past)
        ⟨⟨(keyboardHandler k scanCode past).1, phase, results⟩, typing ++ [keyChar k.keyboard scanCode past], lines⟩
  | enter {k : Kernel} {phase : ReadPhase} {results : List (Int × List UInt8)} {typing : List UInt8}
      {lines : List (List UInt8)} {past : UInt8} :
      SessionStep ⟨⟨k, phase, results⟩, typing, lines⟩ (.key 0x1C past)
        ⟨⟨(keyboardHandler k 0x1C past).1, phase, results⟩, [], lines ++ [typing]⟩
  | silent {k : Kernel} {phase : ReadPhase} {results : List (Int × List UInt8)} {typing : List UInt8}
      {lines : List (List UInt8)} {scanCode : Nat} {past : UInt8} (hkey : Silent scanCode) :
      SessionStep ⟨⟨k, phase, results⟩, typing, lines⟩ (.key scanCode past)
        ⟨⟨(keyboardHandler k scanCode past).1, phase, results⟩, typing, lines⟩
  | read {k : Kernel} {results : List (Int × List UInt8)} {typing : List UInt8} {lines : List (List UInt8)}
      {nbytes : Int} (hroom : 128 ≤ nbytes) :
      SessionStep ⟨⟨k, .idle, results⟩, typing, lines⟩ (.read nbytes) ⟨⟨k, .waiting nbytes, results⟩, typing, lines⟩
  | step {r : Reader} {typing : List UInt8} {lines : List (List UInt8)} :
      SessionStep ⟨r, typing, lines⟩ .step ⟨r.step, typing, lines⟩
  | system {k k' : Kernel} {phase : ReadPhase} {results : List (Int × List UInt8)} {typing : List UInt8}
      {lines : List (List UInt8)} (h : SystemStep k k') :
      SessionStep ⟨⟨k, phase, results⟩, typing, lines⟩ .system ⟨⟨k', phase, results⟩, typing, lines⟩

/-- An entered line has not been read yet. -/
def Unread (k : Kernel) : Prop := (k.terminals k.onScreen).enterPFlag = true

/-- No key of the line is pressed while a line waits to be read. -/
def NoLineWaiting (s : Session) : SessionEvent → Prop
  | .key scanCode _ => Printable scanCode ∨ scanCode = 0x1C → ¬Unread s.kernel
  | .read _ | .step | .system => True

/-- A read has returned the characters of the line, up to one trailing newline. -/
def Delivers (result : Int × List UInt8) (line : List UInt8) : Prop :=
  result.1 = (result.2.take result.1.toNat).length ∧
    (result.2.take result.1.toNat = line ∨ result.2.take result.1.toNat = line ++ [newline])

/-- The reads have returned the entered lines, each of them once and in order, but for at most one that waits to be
read. -/
def EachOnce (s : Session) : Prop :=
  ∃ read unread, s.lines = read ++ unread ∧ List.Forall₂ Delivers s.reader.results read ∧ unread.length ≤ 1 ∧
    (Unread s.kernel ↔ unread ≠ [])

/-! ### The invariant -/

/-- The buffer of `k` shows `line`, and the next character goes to index `idx`. -/
structure AtLine (k : Kernel) (line : List UInt8) (idx : Nat) : Prop where
  fits : LineFits line
  shows : Shows k.keyboard.keyboardBuffer line
  kbIdx : k.keyboard.kbIdx = idx
  charCount : k.keyboard.charCount = idx
  flags : FlagsOk k.keyboard

/-- No read is past its first loop. -/
def BeforeLine : ReadPhase → Prop
  | .idle => True
  | .waiting nbytes => 128 ≤ nbytes
  | .checking _ | .scanning _ _ | .scanned _ _ | .faulted => False

/-- A read of the line is where it can be. -/
def OnLine (line : List UInt8) : ReadPhase → Prop
  | .idle => True
  | .waiting nbytes | .checking nbytes => 128 ≤ nbytes
  | .scanning nbytes count => 128 ≤ nbytes ∧ count ≤ (shown line).length
  | .scanned nbytes count => 128 ≤ nbytes ∧ count = (shown line).length
  | .faulted => False

/-- A line is being typed, and all that were entered have been read. -/
structure TypingLine (s : Session) : Prop where
  flag : ¬Unread s.kernel
  buffer : AtLine s.kernel s.typing s.typing.length
  phase : BeforeLine s.reader.phase
  delivered : List.Forall₂ Delivers s.reader.results s.lines

/-- `line` waits to be read, and those before it have been. -/
structure LineEntered (s : Session) (read : List (List UInt8)) (line : List UInt8) : Prop where
  flag : Unread s.kernel
  buffer : AtLine s.kernel line 0
  typing : s.typing = []
  phase : OnLine line s.reader.phase
  lines : s.lines = read ++ [line]
  delivered : List.Forall₂ Delivers s.reader.results read

def SessionOk (s : Session) : Prop := TypingLine s ∨ ∃ read line, LineEntered s read line

section Step

variable {k k' : Kernel} {phase : ReadPhase} {results : List (Int × List UInt8)} {typing line : List UInt8}
  {lines read : List (List UInt8)} {scanCode : Nat} {past : UInt8}

private theorem AtLine.type (h : AtLine k line line.length) (hkey : Printable scanCode)
    (hroom : line.length + 1 < 127) :
    AtLine (keyboardHandler k scanCode past).1 (line ++ [keyChar k.keyboard scanCode past])
      (line ++ [keyChar k.keyboard scanCode past]).length := by
  have hcount : k.keyboard.charCount < 127 := by
    rw [h.charCount]
    omega
  obtain ⟨hkb, -, -⟩ := keyboardHandler_types hkey hcount past
  have hchar : LineChar (keyChar k.keyboard scanCode past) := keyChar_lineChar h.flags hkey
  have hshows := h.shows.type (keyChar k.keyboard scanCode past)
  generalize keyChar k.keyboard scanCode past = c at hkb hchar hshows ⊢
  refine ⟨⟨by simpa using hroom, ?_⟩, ?_, ?_, ?_, ?_⟩
  · intro d hd
    rcases List.mem_append.1 hd with hd | hd
    · exact h.fits.chars d hd
    · rw [List.mem_singleton.1 hd]
      exact hchar
  · rw [hkb]
    simp only [Keyboard.store, h.kbIdx]
    exact hshows
  · rw [hkb, List.length_append]
    simp [h.kbIdx]
  · rw [hkb, List.length_append]
    simp [h.charCount]
  · rw [hkb]
    exact h.flags

theorem AtLine.enter {idx : Nat} (h : AtLine k line idx) (past : UInt8) :
    AtLine (keyboardHandler k 0x1C past).1 line 0 ∧ Unread (keyboardHandler k 0x1C past).1 := by
  obtain ⟨hkb, hterm, hon⟩ := keyboardHandler_enter k past
  refine ⟨⟨h.fits, ?_, ?_, ?_, ?_⟩, ?_⟩
  · rw [hkb]
    exact h.shows
  · rw [hkb]
    rfl
  · rw [hkb]
    rfl
  · rw [hkb]
    exact h.flags
  · rw [Unread, hterm, hon, Function.update_self]

private theorem AtLine.silent {idx : Nat} (h : AtLine k line idx) (hkey : Silent scanCode) (past : UInt8) :
    AtLine (keyboardHandler k scanCode past).1 line idx ∧ (Unread (keyboardHandler k scanCode past).1 ↔ Unread k) := by
  obtain ⟨hbuf, hidx, hcount⟩ := updateFlags_line k.keyboard scanCode
  rw [keyboardHandler_silent hkey]
  refine ⟨⟨h.fits, ?_, ?_, ?_, updateFlags_flagsOk h.flags⟩, Iff.rfl⟩
  · rw [hbuf]
    exact h.shows
  · rw [hidx]
    exact h.kbIdx
  · rw [hcount]
    exact h.charCount

theorem AtLine.sameLine {idx : Nat} (h : AtLine k line idx) (hsame : SameLine k k') : AtLine k' line idx := by
  obtain ⟨hfits, hshows, hidx, hcount, hflags⟩ := h
  rw [← hsame.keyboard] at hshows hidx hcount hflags
  exact ⟨hfits, hshows, hidx, hcount, hflags⟩

private theorem SameLine.unread (h : SameLine k k') : Unread k' ↔ Unread k := by
  rw [Unread, h.enterPFlag, h.onScreen, Unread]

/-- The buffer is empty after a line has been taken out. -/
private theorem lineTaken_atLine (hcount : k.keyboard.charCount = 0) (hflags : FlagsOk k.keyboard) :
    AtLine (lineTaken k) [] 0 ∧ ¬Unread (lineTaken k) := by
  refine ⟨⟨⟨by simp, by simp⟩, ?_, rfl, hcount, hflags⟩, ?_⟩
  · intro i hi
    have hin : (0 : Int) ≤ i ∧ (i : Int) < 128 := by omega
    simp only [lineTaken, setTerminal_keyboard, if_pos hin]
    simp [shown]
  · simp [Unread, lineTaken]

private theorem delivers_shown (line : List UInt8) : Delivers ((shown line).length, shown line ++ [0]) line := by
  have htake : (shown line ++ [0]).take ((shown line).length : Int).toNat = shown line := by simp
  refine ⟨by rw [htake], ?_⟩
  rw [htake]
  unfold shown
  split
  · next hempty => exact .inl hempty.symm
  · exact .inr rfl

/-- No step of a read changes anything before a line has been entered. -/
theorem TypingLine.step {r : Reader} (h : TypingLine ⟨r, typing, lines⟩) : r.step = r := by
  obtain ⟨k, phase, results⟩ := r
  have hphase : BeforeLine phase := h.phase
  have hflag : ¬Unread k := h.flag
  cases phase with
  | idle => simp [Reader.step, readStep]
  | waiting nbytes =>
    rw [Unread] at hflag
    simp [Reader.step, readStep, hflag]
  | checking | scanning | scanned | faulted => exact hphase.elim

/-- A step of a read of the line, which may return it. -/
theorem LineEntered.step {r : Reader} (h : LineEntered ⟨r, typing, lines⟩ read line) :
    SessionOk ⟨r.step, typing, lines⟩ := by
  obtain ⟨k, phase, results⟩ := r
  obtain ⟨hflag, hbuffer, htyping, hphase, hlines, hdelivered⟩ := h
  dsimp only [Session.kernel] at hflag hbuffer htyping hphase hlines hdelivered
  -- every step but the last only moves on
  have hstay : ∀ phase', readStep k phase = (k, phase', none) → OnLine line phase' →
      SessionOk ⟨(⟨k, phase, results⟩ : Reader).step, typing, lines⟩ := by
    intro phase' hstep hphase'
    have heq : (⟨k, phase, results⟩ : Reader).step = ⟨k, phase', results⟩ := by
      rw [Reader.step, hstep, Option.toList_none, List.append_nil]
    rw [heq]
    exact .inr ⟨read, line, hflag, hbuffer, htyping, hphase', hlines, hdelivered⟩
  cases phase with
  | idle => exact hstay .idle rfl trivial
  | waiting nbytes =>
    have hset : (k.terminals k.onScreen).enterPFlag = true := hflag
    exact hstay (.checking nbytes) (by rw [readStep, if_pos hset]) hphase
  | checking nbytes =>
    have hroom : 128 ≤ nbytes := hphase
    refine hstay (.scanning nbytes 0) ?_ ⟨hroom, Nat.zero_le _⟩
    rw [readStep, if_neg (by omega), if_neg (hbuffer.shows.first hbuffer.fits)]
  | scanning nbytes count =>
    obtain ⟨hroom, hcount⟩ := hphase
    have hzero := hbuffer.shows.eq_zero_iff hbuffer.fits hcount
    by_cases hend : count = (shown line).length
    · exact hstay (.scanned nbytes count) (by rw [readStep, if_pos (hzero.2 hend)]) ⟨hroom, hend⟩
    · refine hstay (.scanning nbytes (count + 1)) ?_ ⟨hroom, by omega⟩
      rw [readStep, if_neg (mt hzero.1 hend)]
  | scanned nbytes count =>
    obtain ⟨hroom, hcount⟩ := hphase
    have hbound := shown_length_le line
    have hshort := hbuffer.fits.short
    -- the read takes the whole line out, with the NUL behind it
    have hmany : howMany count nbytes = (shown line).length := by
      rw [howMany_eq_min, hcount]
      omega
    have hbytes : lineBytes k ((shown line).length + 1 : Int).toNat = shown line ++ [0] :=
      hbuffer.shows.bytes hbuffer.fits
    have hstep : (⟨k, .scanned nbytes count, results⟩ : Reader).step =
        ⟨lineTaken k, .idle, results ++ [(((shown line).length : Int), shown line ++ [0])]⟩ := by
      rw [Reader.step, readStep, hmany, if_neg (by omega), hbytes, Option.toList_some]
    obtain ⟨hempty, htaken⟩ := lineTaken_atLine hbuffer.charCount hbuffer.flags
    rw [hstep, htyping, hlines]
    -- the line joins those that have been read
    refine .inl ⟨htaken, hempty, trivial, ?_⟩
    exact List.rel_append hdelivered (.cons (delivers_shown line) .nil)
  | faulted => exact hphase.elim

/-- While a line is typed, another key extends it, and Enter ends it. -/
theorem TypingLine.next {s t : Session} {e : SessionEvent} (h : TypingLine s) (hstep : SessionStep s e t) :
    SessionOk t := by
  obtain ⟨hflag, hbuffer, hphase, hdelivered⟩ := h
  cases hstep with
  | @type k phase results typing lines scanCode past hkey hroom =>
    dsimp only [Session.kernel] at hflag hbuffer
    have hcount : k.keyboard.charCount < 127 := by
      rw [hbuffer.charCount]
      omega
    obtain ⟨-, hterm, hon⟩ := keyboardHandler_types hkey hcount past
    refine .inl ⟨?_, hbuffer.type hkey hroom, hphase, hdelivered⟩
    rw [Unread, Session.kernel, hterm, hon]
    exact hflag
  | @enter k phase results typing lines past =>
    dsimp only [Session.kernel] at hbuffer
    obtain ⟨hentered, hset⟩ := hbuffer.enter past
    refine .inr ⟨lines, typing, hset, hentered, rfl, ?_, rfl, hdelivered⟩
    cases phase with
    | idle => trivial
    | waiting => exact hphase
    | checking | scanning | scanned | faulted => exact hphase.elim
  | @silent k phase results typing lines scanCode past hkey =>
    dsimp only [Session.kernel] at hflag hbuffer
    obtain ⟨hsame, hunread⟩ := hbuffer.silent hkey past
    exact .inl ⟨mt hunread.1 hflag, hsame, hphase, hdelivered⟩
  | read hroom => exact .inl ⟨hflag, hbuffer, hroom, hdelivered⟩
  | @step r typing lines =>
    have hr : r.step = r := TypingLine.step ⟨hflag, hbuffer, hphase, hdelivered⟩
    rw [hr]
    exact .inl ⟨hflag, hbuffer, hphase, hdelivered⟩
  | system hsystem =>
    have hsame := systemStep_sameLine hsystem
    exact .inl ⟨mt hsame.unread.1 hflag, hbuffer.sameLine hsame, hphase, hdelivered⟩

/-- While a line waits to be read, no other one is typed. -/
theorem LineEntered.next {s t : Session} {e : SessionEvent} (h : LineEntered s read line) (hc : NoLineWaiting s e)
    (hstep : SessionStep s e t) : SessionOk t := by
  cases hstep with
  | type hkey => exact absurd h.flag (hc (.inl hkey))
  | enter => exact absurd h.flag (hc (.inr rfl))
  | @silent k phase results typing lines scanCode past hkey =>
    obtain ⟨hflag, hbuffer, htyping, hphase, hlines, hdelivered⟩ := h
    dsimp only [Session.kernel] at hflag hbuffer
    obtain ⟨hsame, hunread⟩ := hbuffer.silent hkey past
    exact .inr ⟨read, line, hunread.2 hflag, hsame, htyping, hphase, hlines, hdelivered⟩
  | read hroom => exact .inr ⟨read, line, h.flag, h.buffer, h.typing, hroom, h.lines, h.delivered⟩
  | step => exact h.step
  | system hsystem =>
    have hsame := systemStep_sameLine hsystem
    exact .inr ⟨read, line, hsame.unread.2 h.flag, h.buffer.sameLine hsame, h.typing, h.phase, h.lines, h.delivered⟩

private theorem sessionStep_ok {s t : Session} {e : SessionEvent} (h : SessionOk s) (hc : NoLineWaiting s e)
    (hstep : SessionStep s e t) : SessionOk t := by
  rcases h with htyping | ⟨read, line, hentered⟩
  · exact htyping.next hstep
  · exact hentered.next hc hstep

private theorem SessionOk.eachOnce {s : Session} (h : SessionOk s) : EachOnce s := by
  rcases h with h | ⟨read, line, h⟩
  · exact ⟨s.lines, [], (List.append_nil _).symm, h.delivered, Nat.zero_le _, iff_of_false h.flag fun hne => hne rfl⟩
  · exact ⟨read, [line], h.lines, h.delivered, le_refl _, iff_of_true h.flag (List.cons_ne_nil _ _)⟩

/-- A read that waits returns the unread line if nothing comes in between. -/
theorem SessionOk.returns {s : Session} (h : SessionOk s) (hunread : Unread s.kernel) {nbytes : Int}
    (hwaits : s.reader.phase = .waiting nbytes) :
    ∃ n result line, (Reader.step^[n] s.reader).results = s.reader.results ++ [result] ∧
      s.lines.getLast? = some line ∧ Delivers result line := by
  obtain h | ⟨read, line, h⟩ := h
  · exact absurd hunread h.flag
  obtain ⟨⟨k, phase, results⟩, typing, lines⟩ := s
  obtain ⟨hflag, hbuffer, htyping, hphase, hlines, hdelivered⟩ := h
  dsimp only [Session.kernel] at hflag hbuffer hphase hlines hwaits
  subst hwaits
  have hbound := shown_length_le line
  have hshort := hbuffer.fits.short
  have hroom : 128 ≤ nbytes := hphase
  have hmany : min ((shown line).length : Int) nbytes = (shown line).length := by omega
  have hbytes : lineBytes k (((shown line).length : Int) + 1).toNat = shown line ++ [0] :=
    hbuffer.shows.bytes hbuffer.fits
  -- the read as one call, and then as its steps
  have hread : terminalRead k nbytes = some (lineTaken k, ((shown line).length : Int), shown line ++ [0]) := by
    rw [terminalRead_line hflag (by omega) (hbuffer.shows.first hbuffer.fits) (hbuffer.shows.lineLength hbuffer.fits)
      (by omega), hmany, hbytes]
  have hsteps : ∃ n, Reader.step^[n] ⟨k, .waiting nbytes, results⟩ =
      ⟨lineTaken k, .idle, results ++ [(((shown line).length : Int), shown line ++ [0])]⟩ := terminalRead_steps hread
  obtain ⟨n, hn⟩ := hsteps
  refine ⟨n, _, line, congrArg Reader.results hn, by rw [hlines, List.getLast?_concat], delivers_shown line⟩

end Step

/-! ### Runs -/

/-- The kernel at boot, with nothing typed and no read. -/
def session₀ (b : Boot) : Session := ⟨⟨entry b, .idle, []⟩, [], []⟩

private theorem session₀_ok (b : Boot) : SessionOk (session₀ b) := by
  have hflag : ((entry b).terminals (entry b).onScreen).enterPFlag = false := rfl
  have hunread : ¬Unread (entry b) := by
    rw [Unread, hflag]
    decide
  have hkb := entry_keyboard b
  have hbuffer : AtLine (entry b) [] 0 := by
    refine ⟨⟨Nat.zero_lt_succ _, fun c hc => absurd hc List.not_mem_nil⟩, fun i hi => ?_, ?_, ?_, ?_⟩
    · have hin : (0 : Int) ≤ i ∧ (i : Int) < 128 := by omega
      rw [hkb, zeroKernel]
      simp only [if_pos hin]
      rfl
    · rw [hkb]
      rfl
    · rw [hkb]
      rfl
    · rw [hkb]
      exact ⟨.inl rfl, .inl rfl⟩
  exact .inl ⟨hunread, hbuffer, trivial, .nil⟩

/-- Every line once.  From boot, along every run of keys on one terminal, reads of at least 128 bytes, step by step, and
whatever else the kernel does, in which no key of the line is pressed while a line waits to be read, the reads have
returned the lines that were entered, each once and in order, but for at most one that waits; and a read that waits
for it then returns it. -/
theorem each_line_once {b : Boot} {events : List SessionEvent} {s : Session}
    (hrun : Run (Guarded NoLineWaiting SessionStep) (session₀ b) events s) :
    EachOnce s ∧ ∀ nbytes, Unread s.kernel → s.reader.phase = .waiting nbytes →
      ∃ n result line, (Reader.step^[n] s.reader).results = s.reader.results ++ [result] ∧
        s.lines.getLast? = some line ∧ Delivers result line := by
  have hok : SessionOk s := by
    refine Run.invariant ?_ hrun (session₀_ok b)
    rintro s e t hs ⟨hc, hstep⟩
    exact sessionStep_ok hs hc hstep
  exact ⟨hok.eachOnce, fun nbytes hunread hwaits => hok.returns hunread hwaits⟩

/-! ### A line that is typed over -/

instance (result : Int × List UInt8) (line : List UInt8) : Decidable (Delivers result line) :=
  inferInstanceAs (Decidable (_ ∧ (_ ∨ _)))

/-- `n` steps of a read, and nothing else. -/
private theorem steps_run (r : Reader) (typing : List UInt8) (lines : List (List UInt8)) (n : Nat) :
    Run (Guarded NoLineWaiting SessionStep) ⟨r, typing, lines⟩ (List.replicate n .step)
      ⟨Reader.step^[n] r, typing, lines⟩ := by
  induction n with
  | zero => exact .nil _
  | succ n ih =>
    rw [List.replicate_succ', Function.iterate_succ_apply']
    exact .snoc ih ⟨trivial, .step⟩

/-- The kernel after a key has been pressed. -/
def pressed (k : Kernel) (scanCode : Nat) : Kernel := (keyboardHandler k scanCode 0).1

/-- The first shell, with `a` and Enter typed; then with `b` and Enter typed. -/
def oneLine : Kernel := pressed (pressed firstShell 0x1E) 0x1C
def twoLines : Kernel := pressed (pressed oneLine 0x30) 0x1C

section Fixed

variable {k : Kernel} {phase : ReadPhase} {results : List (Int × List UInt8)} {lines : List (List UInt8)}

private theorem letter_step {scanCode : Nat} {c : UInt8} (hkey : Printable scanCode)
    (hchar : keyChar k.keyboard scanCode 0 = c) :
    SessionStep ⟨⟨k, phase, results⟩, [], lines⟩ (.key scanCode 0)
      ⟨⟨pressed k scanCode, phase, results⟩, [c], lines⟩ := by
  subst hchar
  exact .type hkey (by decide)

private theorem enter_step {c : UInt8} :
    SessionStep ⟨⟨k, phase, results⟩, [c], lines⟩ (.key 0x1C 0)
      ⟨⟨pressed k 0x1C, phase, results⟩, [], lines ++ [[c]]⟩ :=
  .enter

end Fixed

private theorem firstShell_session : SessionStep (session₀ shellBoot) .system ⟨⟨firstShell, .idle, []⟩, [], []⟩ := by
  unfold firstShell session₀
  exact .system .tick

/-- The first shell waits for a line, and gets it. -/
theorem oneLine_each_line_once :
    let s : Session := ⟨Reader.step^[6] ⟨oneLine, .waiting 128, []⟩, [], [asBytes "a"]⟩
    s.reader.results = [(2, asBytes "a\n\x00")] ∧ EachOnce s ∧
      ∀ nbytes, Unread s.kernel → s.reader.phase = .waiting nbytes →
        ∃ n result line, (Reader.step^[n] s.reader).results = s.reader.results ++ [result] ∧
          s.lines.getLast? = some line ∧ Delivers result line := by
  intro s
  have hchar : keyChar firstShell.keyboard 0x1E 0 = 97 := by decide +kernel
  have hclear : ((firstShell.terminals firstShell.onScreen).enterPFlag) = false := by decide +kernel
  have hclear' : (((pressed firstShell 0x1E).terminals (pressed firstShell 0x1E).onScreen).enterPFlag) = false := by
    decide +kernel
  have hline : [] ++ [[97]] = [asBytes "a"] := by decide
  have hbefore : ∀ k : Kernel, (k.terminals k.onScreen).enterPFlag = false → ¬Unread k := by
    intro k hflag hunread
    rw [Unread, hflag] at hunread
    cases hunread
  have hread : SessionStep ⟨⟨firstShell, .idle, []⟩, [], []⟩ (.read 128) ⟨⟨firstShell, .waiting 128, []⟩, [], []⟩ :=
    .read (le_refl _)
  have htyped : Run (Guarded NoLineWaiting SessionStep) (session₀ shellBoot)
      ([] ++ [.system] ++ [.read 128] ++ [.key 0x1E 0] ++ [.key 0x1C 0])
      ⟨⟨oneLine, .waiting 128, []⟩, [], [] ++ [[97]]⟩ :=
    .snoc (.snoc (.snoc (.snoc (.nil _) ⟨trivial, firstShell_session⟩) ⟨trivial, hread⟩)
      ⟨fun _ => hbefore _ hclear, letter_step ⟨by decide, by decide⟩ hchar⟩) ⟨fun _ => hbefore _ hclear', enter_step⟩
  rw [hline] at htyped
  exact ⟨by decide +kernel, each_line_once (htyped.append (steps_run _ _ _ 6))⟩

/-- Two lines are entered before the first read, which returns the second. -/
theorem first_line_lost :
    let s : Session := ⟨Reader.step^[6] ⟨twoLines, .waiting 128, []⟩, [], [asBytes "a", asBytes "b"]⟩
    Run SessionStep (session₀ shellBoot)
        ([.system, .key 0x1E 0, .key 0x1C 0, .key 0x30 0, .key 0x1C 0, .read 128] ++ List.replicate 6 .step) s ∧
      s.reader.results = [(2, asBytes "b\n\x00")] ∧ ¬EachOnce s := by
  intro s
  have hfirst : keyChar firstShell.keyboard 0x1E 0 = 97 := by decide +kernel
  have hsecond : keyChar oneLine.keyboard 0x30 0 = 98 := by decide +kernel
  have hlines : [] ++ [[97]] ++ [[98]] = [asBytes "a", asBytes "b"] := by decide
  have hresults : s.reader.results = [(2, asBytes "b\n\x00")] := by decide +kernel
  have hread : ∀ k typing lines, SessionStep ⟨⟨k, .idle, []⟩, typing, lines⟩ (.read 128)
      ⟨⟨k, .waiting 128, []⟩, typing, lines⟩ :=
    fun _ _ _ => .read (le_refl _)
  have hlineOne : Run SessionStep (session₀ shellBoot) ([] ++ [.system] ++ [.key 0x1E 0] ++ [.key 0x1C 0])
      ⟨⟨oneLine, .idle, []⟩, [], [] ++ [[97]]⟩ :=
    .snoc (.snoc (.snoc (.nil _) firstShell_session) (letter_step ⟨by decide, by decide⟩ hfirst)) enter_step
  have hlineTwo : ∀ lines, Run SessionStep ⟨⟨oneLine, .idle, []⟩, [], lines⟩ ([] ++ [.key 0x30 0] ++ [.key 0x1C 0])
      ⟨⟨twoLines, .idle, []⟩, [], lines ++ [[98]]⟩ :=
    fun _ => .snoc (.snoc (.nil _) (letter_step ⟨by decide, by decide⟩ hsecond)) enter_step
  have htyped := (hlineOne.append (hlineTwo _)).append (Run.single (hread twoLines [] _))
  rw [hlines] at htyped
  refine ⟨htyped.append (steps_run _ _ _ 6).unguarded, hresults, ?_⟩
  rintro ⟨read, unread, hread', hdelivered, -, -⟩
  rw [hresults] at hdelivered
  cases hdelivered with
  | cons hfirstLine hrest =>
    rw [List.cons_append, List.cons.injEq] at hread'
    rw [← hread'.1] at hfirstLine
    exact absurd hfirstLine (by decide)

end BigChungOS
