import BigChungOS.LineEditing

/-!
# Keys that are commands

A key that types nothing should leave the typed line alone, and no key should be looked up outside the 59 entries of the
character tables.  The handler looks every scan code up to 0x44, and 0x57, in a table before it asks whether it is a
special key; the list of the special keys ends with F10; and the block that clears the screen for L with Ctrl comes
after the one that has typed the `l`.  So F1 to F11 are looked up behind the tables, F11 is typed, and so is L with
Ctrl, as long as `char_count` admits a character (`command_keys_iff`).
-/

namespace BigChungOS

/-! ### The tables -/

/-- The tests of `case_key` that succeed. -/
def caseKeys (kb : Keyboard) : List Nat :=
  (if kb.shiftFlag = 0 ∧ kb.capsFlag = 1 then [0] else []) ++
    (if kb.shiftFlag = 1 ∧ kb.capsFlag = 1 then [1] else []) ++
    (if kb.shiftFlag = 0 ∧ kb.capsFlag = -2 then [2] else []) ++
    (if kb.shiftFlag = 1 ∧ kb.capsFlag = -2 then [3] else [])

/-- The table of a case. -/
def caseTable (caseKey : Nat) : List UInt8 :=
  if caseKey = 0 then charArrayNormal
  else if caseKey = 1 then charArrayShiftNoCap
  else if caseKey = 2 then charArrayNoshiftCap
  else charArrayShiftCap

/-- The indices at which `keyboard_handler` reads a table, each read in one of the cases. -/
def tableReads (kb : Keyboard) (scanCode : Nat) : List Nat :=
  let kb := kb.updateFlags scanCode
  if kb.charCount < 127 ∧ ((0x1 < scanCode ∧ scanCode ≤ 0x44) ∨ scanCode = 0x57) then
    (caseKeys kb).map fun _ => scanCode
  else []

/-- `NUM_OF_CHARS`, the entries of each table. -/
def numOfChars : Nat := 0x3B

example : ∀ caseKey < 4, (caseTable caseKey).length = numOfChars := by decide

/-- The flags select one case, and the character of a key is the entry of its table. -/
private theorem caseKeys_single {kb : Keyboard} (h : FlagsOk kb) : ∃ caseKey, caseKeys kb = [caseKey] ∧
    ∀ scanCode past, keyChar kb scanCode past = (caseTable caseKey).getD scanCode past := by
  obtain ⟨hshift | hshift, hcaps | hcaps⟩ := h <;> unfold caseKeys keyChar <;> rw [hshift, hcaps]
  · exact ⟨0, rfl, fun _ _ => rfl⟩
  · exact ⟨2, rfl, fun _ _ => rfl⟩
  · exact ⟨1, rfl, fun _ _ => rfl⟩
  · exact ⟨3, rfl, fun _ _ => rfl⟩

/-- One case matches after every scan code. -/
theorem caseKeys_updateFlags {kb : Keyboard} (h : FlagsOk kb) (scanCode : Nat) :
    ∃ caseKey, caseKeys (kb.updateFlags scanCode) = [caseKey] := by
  obtain ⟨caseKey, hcase, -⟩ := caseKeys_single (updateFlags_flagsOk h)
  exact ⟨caseKey, hcase⟩

/-! ### Keys that type nothing -/

/-- The keys that are no text: Esc, the modifiers, F1 to F11 without Alt, and L while Ctrl is held. -/
def CommandKey (kb : Keyboard) (scanCode : Nat) : Prop :=
  scanCode ∈ ([0x01, 0x2A, 0x36, 0x1D, 0x38, 0x3A] : List Nat) ∨
    (((0x3B ≤ scanCode ∧ scanCode ≤ 0x44) ∨ scanCode = 0x57) ∧ kb.altFlag ≠ 1) ∨
    (scanCode = 0x26 ∧ kb.ctrlFlag = 1)

/-- The counters, and the typed part of the line, are the same. -/
structure SameTyped (kb kb' : Keyboard) : Prop where
  kbIdx : kb'.kbIdx = kb.kbIdx
  charCount : kb'.charCount = kb.charCount
  cells : ∀ i, 0 ≤ i → i < kb.kbIdx → kb'.keyboardBuffer i = kb.keyboardBuffer i

/-- A command key leaves the line alone, and the tables are read inside. -/
structure CommandsApart (k : Kernel) (scanCode : Nat) (past : UInt8) : Prop where
  line : CommandKey k.keyboard scanCode → SameTyped k.keyboard (keyboardHandler k scanCode past).1.keyboard
  table : ∀ i ∈ tableReads k.keyboard scanCode, i < numOfChars

/-- A scan code that is looked up behind the tables, or L while Ctrl is held, with room for a character. -/
def TypesCommand (kb : Keyboard) (scanCode : Nat) : Prop :=
  kb.charCount < 127 ∧
    ((0x3B ≤ scanCode ∧ scanCode ≤ 0x44) ∨ scanCode = 0x57 ∨ (scanCode = 0x26 ∧ kb.ctrlFlag = 1))

section Keys

variable {k : Kernel} {scanCode : Nat} {past : UInt8}

private theorem updateFlags_altFlag (kb : Keyboard) (hcode : scanCode ≠ 0x38 ∧ scanCode ≠ 0xB8) :
    (kb.updateFlags scanCode).altFlag = kb.altFlag := by
  simp only [Keyboard.updateFlags, apply_ite Keyboard.altFlag, hcode.1, hcode.2, if_false, ite_self]

/-- What types no character and is no key of the line changes at most the flags of the keyboard. -/
private theorem keyboardHandler_untyped (htext : ¬(k.keyboard.charCount < 127 ∧ isText scanCode = true))
    (hcode : scanCode ∉ ([0x0E, 0x0F, 0x1C] : List Nat))
    (hfunction : scanCode ∈ ([0x3B, 0x3C, 0x3D] : List Nat) → k.keyboard.altFlag ≠ 1) :
    (keyboardHandler k scanCode past).1.keyboard = k.keyboard.updateFlags scanCode := by
  simp only [List.mem_cons, List.not_mem_nil, or_false, not_or] at hcode hfunction
  obtain ⟨hback, htab, henter⟩ := hcode
  have hskip : ¬((k.keyboard.updateFlags scanCode).charCount < 127 ∧ isText scanCode = true) := by
    rw [(updateFlags_line k.keyboard scanCode).2.2]
    exact htext
  unfold keyboardHandler
  simp only [typeText, if_neg hskip, backspace, tab, enter, hback, htab, henter, false_and, if_false]
  -- the clearing of the screen, and the switch, if there is one
  have hclear := clearKey_keyboard { k with keyboard := k.keyboard.updateFlags scanCode } scanCode
  generalize hk' : clearKey { k with keyboard := k.keyboard.updateFlags scanCode } scanCode = k' at hclear ⊢
  have hstay : functionKey k' scanCode = k' := by
    unfold functionKey
    split
    · next halt =>
      have hcodes : scanCode ≠ 0x3B ∧ scanCode ≠ 0x3C ∧ scanCode ≠ 0x3D := by
        by_contra hfn
        have hkey : scanCode = 0x3B ∨ scanCode = 0x3C ∨ scanCode = 0x3D := by omega
        rw [hclear, updateFlags_altFlag _ (by omega)] at halt
        exact hfunction hkey halt
      rw [if_neg hcodes.1, if_neg hcodes.2.1, if_neg hcodes.2.2]
    · rfl
  rw [hstay, hclear]

private theorem SameTyped.of_flags
    (hkb : (keyboardHandler k scanCode past).1.keyboard = k.keyboard.updateFlags scanCode) :
    SameTyped k.keyboard (keyboardHandler k scanCode past).1.keyboard := by
  obtain ⟨hbuffer, hidx, hcount⟩ := updateFlags_line k.keyboard scanCode
  rw [hkb]
  exact ⟨hidx, hcount, fun i _ _ => by rw [hbuffer]⟩

/-- A command key that is not typed. -/
private theorem CommandKey.sameTyped (h : CommandKey k.keyboard scanCode) (hnot : ¬TypesCommand k.keyboard scanCode) :
    SameTyped k.keyboard (keyboardHandler k scanCode past).1.keyboard := by
  rcases h with hmodifier | ⟨hfunction, halt⟩ | ⟨rfl, hctrl⟩
  · have hcodes : ∀ c ∈ ([0x01, 0x2A, 0x36, 0x1D, 0x38, 0x3A] : List Nat), isText c = false ∧
        c ∉ ([0x0E, 0x0F, 0x1C] : List Nat) ∧ c ∉ ([0x3B, 0x3C, 0x3D] : List Nat) := by decide
    obtain ⟨htext, hline, hfn⟩ := hcodes scanCode hmodifier
    refine SameTyped.of_flags (keyboardHandler_untyped ?_ hline fun hc => absurd hc hfn)
    rw [htext]
    exact fun hc => absurd hc.2 (by decide)
  · refine SameTyped.of_flags (keyboardHandler_untyped ?_ ?_ fun _ => halt)
    · rintro ⟨hcount, -⟩
      exact hnot ⟨hcount, hfunction.imp_right .inl⟩
    · simp only [List.mem_cons, List.not_mem_nil, or_false]
      omega
  · refine SameTyped.of_flags (keyboardHandler_untyped ?_ (by decide) fun hc => absurd hc (by decide))
    rintro ⟨hcount, -⟩
    exact hnot ⟨hcount, .inr (.inr ⟨rfl, hctrl⟩)⟩

private theorem mem_tableReads {kb : Keyboard} {i : Nat} : i ∈ tableReads kb scanCode ↔
    i = scanCode ∧ kb.charCount < 127 ∧ ((0x1 < scanCode ∧ scanCode ≤ 0x44) ∨ scanCode = 0x57) ∧
      caseKeys (kb.updateFlags scanCode) ≠ [] := by
  unfold tableReads
  dsimp only
  rw [(updateFlags_line kb scanCode).2.2]
  split
  · next hread =>
    rw [List.mem_map]
    constructor
    · rintro ⟨c, hc, rfl⟩
      exact ⟨rfl, hread.1, hread.2, List.ne_nil_of_mem hc⟩
    · rintro ⟨rfl, -, -, hcase⟩
      obtain ⟨c, hc⟩ := List.exists_mem_of_ne_nil _ hcase
      exact ⟨c, hc, rfl⟩
  · next hread =>
    refine iff_of_false List.not_mem_nil ?_
    rintro ⟨-, hcount, hrange, -⟩
    exact hread ⟨hcount, hrange⟩

/-- Command keys.  Whatever the flags, the line and the counters are, and for every scan code: the line is left alone if
the key is a command, and the tables are read only inside, exactly if it is not so that the scan code is looked up
behind the tables, or is L with Ctrl, with room for a character. -/
theorem command_keys_iff (hflags : FlagsOk k.keyboard) (scanCode : Nat) (past : UInt8) :
    CommandsApart k scanCode past ↔ ¬TypesCommand k.keyboard scanCode := by
  constructor
  · rintro ⟨hline, htable⟩ ⟨hcount, hcode⟩
    have hcase : caseKeys (k.keyboard.updateFlags scanCode) ≠ [] := by
      obtain ⟨caseKey, hkey⟩ := caseKeys_updateFlags hflags scanCode
      rw [hkey]
      exact List.cons_ne_nil _ _
    by_cases hbehind : (0x3B ≤ scanCode ∧ scanCode ≤ 0x44) ∨ scanCode = 0x57
    · have hread := htable scanCode (mem_tableReads.2 ⟨rfl, hcount, by omega, hcase⟩)
      rw [numOfChars] at hread
      omega
    · obtain ⟨rfl, hctrl⟩ : scanCode = 0x26 ∧ k.keyboard.ctrlFlag = 1 := by tauto
      have hsame := (hline (.inr (.inr ⟨rfl, hctrl⟩))).charCount
      have hprintable : Printable 0x26 := ⟨by decide, by decide⟩
      rw [(keyboardHandler_types hprintable hcount past).1] at hsame
      dsimp only at hsame
      omega
  · intro hnot
    refine ⟨fun hkey => hkey.sameTyped hnot, fun i hi => ?_⟩
    obtain ⟨rfl, hcount, hrange, -⟩ := mem_tableReads.1 hi
    by_contra hbehind
    rw [numOfChars] at hbehind
    exact hnot ⟨hcount, by omega⟩

end Keys

/-! ### F11, and L with Ctrl -/

/-- Esc after `aB`, with Shift still held. -/
theorem typed_esc_apart :
    let k := pressed (pressed (pressed (entry shellBoot) 0x1E) 0x2A) 0x30
    k.keyboard.kbIdx = 2 ∧ k.keyboard.shiftFlag = 1 ∧ CommandsApart k 0x01 0 := by
  intro k
  have hflags : FlagsOk (entry shellBoot).keyboard := by
    rw [entry_keyboard]
    exact ⟨.inl rfl, .inl rfl⟩
  have htyped : FlagsOk k.keyboard :=
    keyboardHandler_flagsOk (keyboardHandler_flagsOk (keyboardHandler_flagsOk hflags))
  refine ⟨by decide +kernel, by decide +kernel, (command_keys_iff htyped 0x01 0).2 ?_⟩
  rintro ⟨-, hcode⟩
  omega

/-- F11 is looked up at index 87, and what lies there is typed. -/
theorem f11_is_typed :
    let k := entry shellBoot
    let k' := (keyboardHandler k 0x57 0x41).1
    CommandKey k.keyboard 0x57 ∧ tableReads k.keyboard 0x57 = [87] ∧ k'.keyboard.kbIdx = 1 ∧
      k'.keyboard.keyboardBuffer 0 = 0x41 ∧ ¬CommandsApart k 0x57 0x41 := by
  intro k k'
  have halt : k.keyboard.altFlag ≠ 1 := by decide +kernel
  have hreads : tableReads k.keyboard 0x57 = [87] := by decide +kernel
  refine ⟨.inr (.inl ⟨.inr rfl, halt⟩), hreads, by decide +kernel, by decide +kernel, fun hapart => ?_⟩
  have hin := hapart.table 87 (by rw [hreads]; exact List.mem_singleton_self 87)
  exact absurd hin (by decide)

/-- Ctrl and L clear the screen, with the `l` in the line. -/
theorem ctrl_l_is_typed :
    let k := pressed (entry shellBoot) 0x1D
    let k' := (keyboardHandler k 0x26 0).1
    CommandKey k.keyboard 0x26 ∧ k'.keyboard.kbIdx = 1 ∧ k'.keyboard.keyboardBuffer 0 = 0x6C ∧
      ¬CommandsApart k 0x26 0 := by
  intro k k'
  have hkey : CommandKey k.keyboard 0x26 := .inr (.inr ⟨rfl, by decide +kernel⟩)
  have hbefore : k.keyboard.kbIdx = 0 := by decide +kernel
  have hafter : k'.keyboard.kbIdx = 1 := by decide +kernel
  refine ⟨hkey, hafter, by decide +kernel, fun hapart => ?_⟩
  have hsame := (hapart.line hkey).kbIdx
  rw [hbefore] at hsame
  exact absurd (hafter.symm.trans hsame) (by decide)

end BigChungOS
