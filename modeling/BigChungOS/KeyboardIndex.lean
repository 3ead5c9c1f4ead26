import BigChungOS.Keyboard
import BigChungOS.Lib.Runs
import BigChungOS.Processes

/-!
# The index of the typed line

`kb_idx` should stay in `0..127`, and so should every index at which the keyboard handler stores into
`keyboard_buffer` (`IndexOk`).  The character block is guarded by `char_count`, not by `kb_idx`, and stores at `kb_idx`
and at `kb_idx + 1`; a terminal switch saves and loads `kb_idx` but not `char_count`, and `terminal_read` clears only
`kb_idx`.  So the index is right along a run exactly as long as no character is typed with a full line and
`char_count` below 127 (`keyboard_index_iff`).
-/

namespace BigChungOS

open Transition

/-- The kernel, with the indices of `keyboard_buffer` the handler has stored at so far. -/
structure Typing where
  kernel : Kernel
  written : List Int

inductive TypingEvent
  | key (scanCode : Nat) (past : UInt8)
  | read (nbytes : Int)

/-- The state after the handler has run for a scan code. -/
def Typing.key (s : Typing) (scanCode : Nat) (past : UInt8) : Typing :=
  let r := keyboardHandler s.kernel scanCode past
  { kernel := r.1, written := s.written ++ r.2 }

/-- A keyboard interrupt, or a `terminal_read` that returns. -/
inductive TypingStep : Typing → TypingEvent → Typing → Prop
  | key {s : Typing} {scanCode : Nat} {past : UInt8} : TypingStep s (.key scanCode past) (s.key scanCode past)
  | read {s : Typing} {nbytes r : Int} {k : Kernel} {stored : List UInt8}
      (h : terminalRead s.kernel nbytes = some (k, r, stored)) :
      TypingStep s (.read nbytes) { kernel := k, written := s.written }

/-- An index inside `keyboard_buffer`. -/
def InLine (i : Int) : Prop := 0 ≤ i ∧ i ≤ 127

private theorem inLine_zero : InLine 0 := ⟨le_refl 0, by omega⟩

/-- The index of the line is in `0..127`, and all stores were. -/
structure IndexOk (s : Typing) : Prop where
  kbIdx : InLine s.kernel.keyboard.kbIdx
  written : ∀ i ∈ s.written, InLine i

/-- No character is typed with the line full while `char_count` still admits one. -/
def NotFull (s : Typing) : TypingEvent → Prop
  | .key scanCode _ =>
    ¬(isText scanCode = true ∧ s.kernel.keyboard.charCount < 127 ∧ s.kernel.keyboard.kbIdx = 127)
  | .read _ => True

/-- The indices saved for the terminals. -/
def SavedIdx (k : Kernel) : Prop := ∀ t, (k.terminals t).currIdx ≤ 127

/-! ### The blocks of the handler -/

/-- The live index and the saved ones are inside the line. -/
structure LineOk (k : Kernel) : Prop where
  kbIdx : InLine k.keyboard.kbIdx
  saved : SavedIdx k

section Blocks

variable {k : Kernel} (scanCode : Nat) (past : UInt8)

private theorem updateFlags_kbIdx (kb : Keyboard) : (kb.updateFlags scanCode).kbIdx = kb.kbIdx := by
  simp only [Keyboard.updateFlags, apply_ite Keyboard.kbIdx, ite_self]

private theorem updateFlags_charCount (kb : Keyboard) : (kb.updateFlags scanCode).charCount = kb.charCount := by
  simp only [Keyboard.updateFlags, apply_ite Keyboard.charCount, ite_self]

/-- A step that leaves the terminals alone and the index inside the line. -/
theorem LineOk.set {k' : Kernel} (h : LineOk k) (ht : k'.terminals = k.terminals) (hi : InLine k'.keyboard.kbIdx) :
    LineOk k' where
  kbIdx := hi
  saved t := by rw [ht]; exact h.saved t

/-- The character block stores at `kb_idx` and after it. -/
private theorem typeText_indices (h : isText scanCode = true ∧ k.keyboard.charCount < 127) :
    (typeText k scanCode past).2 = [k.keyboard.kbIdx, k.keyboard.kbIdx + 1] := by
  unfold typeText
  rw [if_pos ⟨h.2, h.1⟩]
  rfl

private theorem typeText_ok (h : LineOk k)
    (hfull : ¬(isText scanCode = true ∧ k.keyboard.charCount < 127 ∧ k.keyboard.kbIdx = 127)) :
    LineOk (typeText k scanCode past).1 ∧ ∀ i ∈ (typeText k scanCode past).2, InLine i := by
  obtain ⟨hlo, hhi⟩ := h.kbIdx
  by_cases hstore : isText scanCode = true ∧ k.keyboard.charCount < 127
  · have hroom : k.keyboard.kbIdx < 127 := by
      have hne : k.keyboard.kbIdx ≠ 127 := fun heq => hfull ⟨hstore.1, hstore.2, heq⟩
      omega
    rw [typeText_indices scanCode past hstore]
    constructor
    · unfold typeText
      rw [if_pos ⟨hstore.2, hstore.1⟩]
      refine h.set rfl ?_
      show InLine (k.keyboard.kbIdx + 1)
      constructor <;> omega
    · intro i hi
      simp only [List.mem_cons, List.not_mem_nil, or_false] at hi
      rcases hi with rfl | rfl <;> constructor <;> omega
  · have hskip : ¬(k.keyboard.charCount < 127 ∧ isText scanCode = true) := fun hc => hstore hc.symm
    unfold typeText
    rw [if_neg hskip]
    exact ⟨h, by simp⟩

private theorem backspace_ok (h : LineOk k) :
    LineOk (backspace k scanCode).1 ∧ ∀ i ∈ (backspace k scanCode).2, InLine i := by
  obtain ⟨hlo, hhi⟩ := h.kbIdx
  unfold backspace
  split_ifs with hback
  · have hidx : InLine (k.keyboard.kbIdx - 1) := by constructor <;> omega
    refine ⟨h.set rfl hidx, ?_⟩
    intro i hi
    rw [List.mem_singleton.1 hi]
    exact hidx
  · exact ⟨h, by simp⟩

private theorem clearKey_ok (h : LineOk k) : LineOk (clearKey k scanCode) := by
  unfold clearKey
  split_ifs
  · exact h.set rfl h.kbIdx
  · exact h

private theorem tab_ok (h : LineOk k) : LineOk (tab k scanCode).1 ∧ ∀ i ∈ (tab k scanCode).2, InLine i := by
  obtain ⟨hlo, hhi⟩ := h.kbIdx
  unfold tab
  split_ifs with htab
  · have hidx : InLine (k.keyboard.kbIdx + 1) := by constructor <;> omega
    refine ⟨h.set rfl hidx, ?_⟩
    intro i hi
    rw [List.mem_singleton.1 hi]
    exact ⟨hlo, hhi⟩
  · exact ⟨h, by simp⟩

private theorem enter_ok (h : LineOk k) : LineOk (enter k scanCode) := by
  unfold enter
  split_ifs
  · refine ⟨inLine_zero, ?_⟩
    intro t
    by_cases ht : t = k.onScreen
    · subst ht
      simpa [echo, putc] using h.saved k.onScreen
    · simpa [echo, putc, ht] using h.saved t
  · exact h

/-- A switch saves the index of one line and loads that of another. -/
private theorem switchTo_ok (h : LineOk k) (t : Fin 3) : LineOk (switchTo k t) := by
  obtain ⟨hlo, hhi⟩ := h.kbIdx
  have hidx : (switchTo k t).keyboard.kbIdx = ((if t = k.onScreen then
      (k.keyboard.kbIdx % 256).toNat else (k.terminals t).currIdx : Nat) : Int) := by
    by_cases ht : t = k.onScreen <;> simp [switchTo, saveCursor, loadCursor, updateScreenAxis, ht]
  have hsaved : ∀ u, ((switchTo k t).terminals u).currIdx =
      if u = k.onScreen then (k.keyboard.kbIdx % 256).toNat else (k.terminals u).currIdx := by
    intro u
    by_cases hu : u = k.onScreen <;> simp [switchTo, saveCursor, loadCursor, updateScreenAxis, hu]
  have hbound : ∀ u, (if u = k.onScreen then (k.keyboard.kbIdx % 256).toNat else (k.terminals u).currIdx) ≤ 127 := by
    intro u
    have hu := h.saved u
    split_ifs <;> omega
  constructor
  · rw [hidx]
    have ht := hbound t
    constructor <;> omega
  · intro u
    rw [hsaved]
    exact hbound u

private theorem switchTerminalKeypress_ok (h : LineOk k) (targetTerminal : Nat) :
    LineOk (switchTerminalKeypress k targetTerminal) := by
  unfold switchTerminalKeypress
  split_ifs
  · exact h
  · exact switchTo_ok h _

private theorem functionKey_ok (h : LineOk k) : LineOk (functionKey k scanCode) := by
  unfold functionKey
  split_ifs
  · exact switchTerminalKeypress_ok h 0
  · exact switchTerminalKeypress_ok h 1
  · exact switchTerminalKeypress_ok h 2
  · exact h
  · exact h

/-- A scan code that does not type a character past the end of the line. -/
private theorem keyboardHandler_ok (h : LineOk k)
    (hfull : ¬(isText scanCode = true ∧ k.keyboard.charCount < 127 ∧ k.keyboard.kbIdx = 127)) :
    LineOk (keyboardHandler k scanCode past).1 ∧ ∀ i ∈ (keyboardHandler k scanCode past).2, InLine i := by
  have hflags : LineOk { k with keyboard := k.keyboard.updateFlags scanCode } :=
    h.set rfl (by rw [updateFlags_kbIdx]; exact h.kbIdx)
  obtain ⟨h₁, hw₁⟩ := typeText_ok scanCode past hflags (by rwa [updateFlags_charCount, updateFlags_kbIdx])
  obtain ⟨h₂, hw₂⟩ := backspace_ok scanCode h₁
  obtain ⟨h₃, hw₃⟩ := tab_ok scanCode (clearKey_ok scanCode h₂)
  refine ⟨functionKey_ok scanCode (enter_ok scanCode h₃), ?_⟩
  intro i hi
  simp only [keyboardHandler, List.mem_append] at hi
  rcases hi with (hi | hi) | hi
  · exact hw₁ i hi
  · exact hw₂ i hi
  · exact hw₃ i hi

/-- A character typed with the line full is stored at 128 too. -/
private theorem keyboardHandler_overflow
    (hfull : isText scanCode = true ∧ k.keyboard.charCount < 127 ∧ k.keyboard.kbIdx = 127) :
    128 ∈ (keyboardHandler k scanCode past).2 := by
  obtain ⟨htext, hcount, hidx⟩ := hfull
  have hindices := typeText_indices (k := { k with keyboard := k.keyboard.updateFlags scanCode }) scanCode past
    ⟨htext, by rwa [updateFlags_charCount]⟩
  simp only [keyboardHandler, hindices, updateFlags_kbIdx, hidx]
  simp

end Blocks

/-! ### Steps and runs -/

private theorem terminalRead_lineOk {k k' : Kernel} {nbytes r : Int} {stored : List UInt8} (hk : LineOk k)
    (h : terminalRead k nbytes = some (k', r, stored)) : LineOk k' := by
  obtain ⟨-, ⟨-, rfl, -⟩ | ⟨count, -, -, rfl, -⟩⟩ := terminalRead_cases h
  · exact hk
  · refine ⟨inLine_zero, ?_⟩
    intro t
    by_cases ht : t = k.onScreen
    · subst ht; simpa [lineTaken] using hk.saved k.onScreen
    · simpa [lineTaken, ht] using hk.saved t

private theorem typing_savedIdx {s t : Typing} {e : TypingEvent} (hs : SavedIdx s.kernel) (hq : IndexOk s)
    (hc : NotFull s e) (h : TypingStep s e t) : SavedIdx t.kernel := by
  cases h with
  | key => exact (keyboardHandler_ok _ _ ⟨hq.kbIdx, hs⟩ hc).1.saved
  | read hread => exact (terminalRead_lineOk ⟨hq.kbIdx, hs⟩ hread).saved

private theorem typing_indexOk_iff {s t : Typing} {e : TypingEvent} (hs : SavedIdx s.kernel) (hq : IndexOk s)
    (h : TypingStep s e t) : IndexOk t ↔ NotFull s e := by
  cases h with
  | @key scanCode past =>
    constructor
    · intro hok hfull
      have hmem := keyboardHandler_overflow scanCode past hfull
      have hout := (hok.written 128 (List.mem_append_right _ hmem)).2
      omega
    · intro hc
      obtain ⟨hline, hwritten⟩ := keyboardHandler_ok scanCode past ⟨hq.kbIdx, hs⟩ hc
      refine ⟨hline.kbIdx, ?_⟩
      intro i hi
      rcases List.mem_append.1 hi with hi | hi
      · exact hq.written i hi
      · exact hwritten i hi
  | read hread =>
    exact ⟨fun _ => trivial, fun _ => ⟨(terminalRead_lineOk ⟨hq.kbIdx, hs⟩ hread).kbIdx, hq.written⟩⟩

/-- The index of the typed line.  From an empty keyboard, along every run of scan codes and terminal reads in which no
character is typed with the line full and `char_count` below 127, the index and all stores stay in `0..127`; and from
there a step keeps this exactly when it meets the condition. -/
theorem keyboard_index_iff {k : Kernel} {events : List TypingEvent} {s : Typing} (hidx : k.keyboard.kbIdx = 0)
    (hsaved : ∀ t, (k.terminals t).currIdx = 0) (hrun : Run (Guarded NotFull TypingStep) ⟨k, []⟩ events s) :
    IndexOk s ∧ ∀ e t, TypingStep s e t → (IndexOk t ↔ NotFull s e) := by
  refine Run.guarded_exact (I := fun s => SavedIdx s.kernel) ?_ ?_ hrun ?_ ?_
  · exact fun s e t hs hq hc hstep => typing_savedIdx hs hq hc hstep
  · exact fun s e t hs hq hstep => typing_indexOk_iff hs hq hstep
  · intro t
    rw [hsaved]
    omega
  · refine ⟨?_, by simp⟩
    show InLine k.keyboard.kbIdx
    rw [hidx]
    exact inLine_zero

/-! ### Two lines on two terminals -/

/-- The state after a list of scan codes. -/
def typed (s : Typing) (codes : List Nat) : Typing := codes.foldl (fun s c => s.key c 0) s

private theorem typed_run (s : Typing) (codes : List Nat) :
    Run TypingStep s (codes.map fun c => .key c 0) (typed s codes) := by
  induction codes using List.reverseRecOn with
  | nil => exact .nil s
  | append_singleton codes c ih =>
    rw [List.map_append, typed, List.foldl_append]
    exact .snoc ih .key

/-- The keys are typed one after another, each with room in the line or with `char_count` at its limit. -/
def KeysFit (s : Typing) : List Nat → Prop
  | [] => True
  | c :: codes => NotFull s (.key c 0) ∧ KeysFit (s.key c 0) codes

instance (s : Typing) (c : Nat) (past : UInt8) : Decidable (NotFull s (.key c past)) :=
  inferInstanceAs (Decidable ¬(isText c = true ∧ s.kernel.keyboard.charCount < 127 ∧ s.kernel.keyboard.kbIdx = 127))

instance KeysFit.decidable : (s : Typing) → (codes : List Nat) → Decidable (KeysFit s codes)
  | _, [] => isTrue trivial
  | s, c :: codes => @instDecidableAnd _ _ _ (KeysFit.decidable (s.key c 0) codes)

private theorem typed_guarded {s : Typing} {codes : List Nat} (h : KeysFit s codes) :
    Run (Guarded NotFull TypingStep) s (codes.map fun c => .key c 0) (typed s codes) := by
  induction codes generalizing s with
  | nil => exact .nil s
  | cons c codes ih => exact (Run.single ⟨h.1, .key⟩).append (ih h.2)

/-- A full line on the first terminal, then Enter and one character on the second one. -/
theorem keyboard_index_two_lines :
    let codes := List.replicate 127 0x1E ++ [0x38, 0x3C, 0xB8, 0x1C, 0x1E]
    let s := typed ⟨entry shellBoot, []⟩ codes
    IndexOk s ∧ ∀ e t, TypingStep s e t → (IndexOk t ↔ NotFull s e) := by
  intro codes s
  have hfit : KeysFit ⟨entry shellBoot, []⟩ codes := by decide +kernel
  exact keyboard_index_iff (by decide +kernel) (by decide +kernel) (typed_guarded hfit)

/-- A full line on the first terminal, Enter on the second one, and one more character back on the first: it is
stored at 127 and 128, past the end of the buffer. -/
theorem full_line_after_switch_overflows :
    let codes := List.replicate 127 0x1E ++ [0x38, 0x3C, 0x1C, 0x3B, 0x1E]
    let s := typed ⟨entry shellBoot, []⟩ codes
    Run TypingStep ⟨entry shellBoot, []⟩ (codes.map fun c => .key c 0) s ∧ s.kernel.keyboard.kbIdx = 128 ∧
      128 ∈ s.written ∧ ¬IndexOk s := by
  intro codes s
  have hidx : s.kernel.keyboard.kbIdx = 128 := by decide +kernel
  refine ⟨typed_run _ codes, hidx, by decide +kernel, ?_⟩
  intro hok
  have hle := hok.kbIdx.2
  omega

end BigChungOS
