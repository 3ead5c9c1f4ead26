import BigChungOS.Sched

/-!
# The keyboard (keyboard.c)

`keyboard_handler` as the sequence of its `if` blocks, each a function on the state.  The blocks that store into
`keyboard_buffer` also return the indices they store at, in order.
-/

namespace BigChungOS

/-! ### The character tables -/

/-- The bytes of a table of characters. -/
def charTable (cs : List Char) : List UInt8 := cs.map Char.toUInt8

def charArrayNormal : List UInt8 := charTable [
  '\x00', '\x00', '1', '2', '3', '4', '5', '6', '7', '8', '9', '0', '-', '=', '\x00', '\x00',
  'q', 'w', 'e', 'r', 't', 'y', 'u', 'i', 'o', 'p', '[', ']', '\x00', '\x00', 'a', 's',
  'd', 'f', 'g', 'h', 'j', 'k', 'l', ';', '\x27', '\x60', '\x00', '\x5c', 'z', 'x', 'c', 'v',
  'b', 'n', 'm', ',', '.', '/', '\x00', '*', '\x00', ' ', '\x00']

def charArrayShiftNoCap : List UInt8 := charTable [
  '\x00', '\x00', '!', '@', '#', '$', '%', '^', '&', '*', '(', ')', '_', '+', '\x00', '\x00',
  'Q', 'W', 'E', 'R', 'T', 'Y', 'U', 'I', 'O', 'P', '\x7b', '\x7d', '\x00', '\x00', 'A', 'S',
  'D', 'F', 'G', 'H', 'J', 'K', 'L', ':', '\x22', '~', '\x00', '|', 'Z', 'X', 'C',
  'V', 'B', 'N', 'M', '<', '>', '?', '\x00', '*', '\x00', ' ', '\x00']

def charArrayNoshiftCap : List UInt8 := charTable [
  '\x00', '\x00', '1', '2', '3', '4', '5', '6', '7', '8', '9', '0', '-', '=', '\x00', '\x00',
  'Q', 'W', 'E', 'R', 'T', 'Y', 'U', 'I', 'O', 'P', '[', ']', '\x00', '\x00', 'A', 'S',
  'D', 'F', 'G', 'H', 'J', 'K', 'L', ';', '\x27', '\x60', '\x00', '\x5c', 'Z', 'X',
  'C', 'V', 'B', 'N', 'M', ',', '.', '/', '\x00', '*', '\x00', ' ', '\x00']

def charArrayShiftCap : List UInt8 := charTable [
  '\x00', '\x00', '!', '@', '#', '$', '%', '^', '&', '*', '(', ')', '_', '+', '\x00', '\x00',
  'q', 'w', 'e', 'r', 't', 'y', 'u', 'i', 'o', 'p', '\x7b', '\x7d', '\x00', '\x00', 'a', 's',
  'd', 'f', 'g', 'h', 'j', 'k', 'l', ':', '\x22', '~', '\x00', '|', 'z', 'x', 'c',
  'v', 'b', 'n', 'm', '<', '>', '?', '\x00', '*', '\x00', ' ', '\x00']

/-- `special_key_check(code) == 1`. -/
def specialKeyCheck (code : Nat) : Bool :=
  [0x01, 0x2A, 0x36, 0x1D, 0x37, 0x38, 0x3A, 0x3B, 0x3C, 0x3D, 0x3E, 0x3F, 0x40, 0x41, 0x42, 0x43, 0x44,
    0x8E, 0x0E, 0x0F, 0x8F].contains code

/-- `key_char`: the entry of the table that the shift and caps flags select.  `past` is what lies in memory where an
index past the 59 entries points, and also the value of `key_char` when no case matches. -/
def keyChar (kb : Keyboard) (scanCode : Nat) (past : UInt8) : UInt8 :=
  if kb.shiftFlag = 0 ∧ kb.capsFlag = 1 then charArrayNormal.getD scanCode past
  else if kb.shiftFlag = 1 ∧ kb.capsFlag = 1 then charArrayShiftNoCap.getD scanCode past
  else if kb.shiftFlag = 0 ∧ kb.capsFlag = -2 then charArrayNoshiftCap.getD scanCode past
  else if kb.shiftFlag = 1 ∧ kb.capsFlag = -2 then charArrayShiftCap.getD scanCode past
  else past

/-! ### The blocks of `keyboard_handler` -/

namespace Keyboard

/-- The press and release tests of the flag keys; caps lock complements its flag. -/
def updateFlags (kb : Keyboard) (scanCode : Nat) : Keyboard :=
  let kb := if scanCode = 0x2A ∨ scanCode = 0x36 then { kb with shiftFlag := 1 } else kb
  let kb := if scanCode = 0x3A then { kb with capsFlag := -kb.capsFlag - 1 } else kb
  let kb := if scanCode = 0x1D then { kb with ctrlFlag := 1 } else kb
  let kb := if scanCode = 0x38 then { kb with altFlag := 1 } else kb
  let kb := if scanCode = 0xAA ∨ scanCode = 0xB6 then { kb with shiftFlag := 0 } else kb
  let kb := if scanCode = 0x9D then { kb with ctrlFlag := 0 } else kb
  if scanCode = 0xB8 then { kb with altFlag := 0 } else kb

/-- `keyboard_buffer[i] = c`. -/
def store (kb : Keyboard) (i : Int) (c : UInt8) : Keyboard :=
  { kb with keyboardBuffer := Function.update kb.keyboardBuffer i c }

end Keyboard

/-- `keypress_to_vid_flag = 1; putc(c); keypress_to_vid_flag = 0`: the echo of a key. -/
def echo (k : Kernel) (c : UInt8) : Kernel :=
  let k := putc { k with keyboard := { k.keyboard with keypressToVidFlag := true } } c
  { k with keyboard := { k.keyboard with keypressToVidFlag := false } }

/-- `keypress_to_vid_flag = 1; rm_c(); keypress_to_vid_flag = 0`: the erasure of the last character. -/
def erase (k : Kernel) : Kernel :=
  let k := rmC { k with keyboard := { k.keyboard with keypressToVidFlag := true } }
  { k with keyboard := { k.keyboard with keypressToVidFlag := false } }

/-- The scan codes whose character is put in the line. -/
def isText (scanCode : Nat) : Bool :=
  ((0x1 < scanCode && scanCode ≤ 0x44) || scanCode = 0x57) &&
    (!specialKeyCheck scanCode && scanCode ≠ 0x0E && scanCode ≠ 0x1C)

/-- The character block, under `char_count<127`. -/
def typeText (k : Kernel) (scanCode : Nat) (past : UInt8) : Kernel × List Int :=
  if k.keyboard.charCount < 127 ∧ isText scanCode then
    let c := keyChar k.keyboard scanCode past
    let k := echo k c
    let kb := (k.keyboard.store k.keyboard.kbIdx c).store (k.keyboard.kbIdx + 1) newline
    ({ k with keyboard := { kb with kbIdx := kb.kbIdx + 1, charCount := kb.charCount + 1 } },
      [k.keyboard.kbIdx, k.keyboard.kbIdx + 1])
  else (k, [])

/-- The backspace block. -/
def backspace (k : Kernel) (scanCode : Nat) : Kernel × List Int :=
  if scanCode = 0x0E ∧ k.keyboard.kbIdx > 0 then
    let k := erase k
    let kb := { k.keyboard with kbIdx := k.keyboard.kbIdx - 1, charCount := k.keyboard.charCount - 1 }
    ({ k with keyboard := kb.store kb.kbIdx 0 }, [kb.kbIdx])
  else (k, [])

/-- The Ctrl+L block. -/
def clearKey (k : Kernel) (scanCode : Nat) : Kernel :=
  if scanCode = 0x26 ∧ k.keyboard.ctrlFlag = 1 then clear k else k

/-- The tab block. -/
def tab (k : Kernel) (scanCode : Nat) : Kernel × List Int :=
  if scanCode = 0x0F ∧ k.keyboard.kbIdx < 127 then
    let k := echo k space
    let kb := k.keyboard.store k.keyboard.kbIdx space
    ({ k with keyboard := { kb with kbIdx := kb.kbIdx + 1, charCount := kb.charCount + 1 } }, [k.keyboard.kbIdx])
  else (k, [])

/-- The enter block. -/
def enter (k : Kernel) (scanCode : Nat) : Kernel :=
  if scanCode = 0x1C then
    let k := (echo k newline).setTerminal k.onScreen fun t => { t with enterPFlag := true }
    { k with keyboard := { k.keyboard with kbIdx := 0, charCount := 0 } }
  else k

/-- The Alt-Fn block. -/
def functionKey (k : Kernel) (scanCode : Nat) : Kernel :=
  if k.keyboard.altFlag = 1 then
    if scanCode = 0x3B then switchTerminalKeypress k 0
    else if scanCode = 0x3C then switchTerminalKeypress k 1
    else if scanCode = 0x3D then switchTerminalKeypress k 2
    else k
  else k

/-- `keyboard_handler` for the scan code read from the port, with the indices of `keyboard_buffer` it stores at. -/
def keyboardHandler (k : Kernel) (scanCode : Nat) (past : UInt8) : Kernel × List Int :=
  let k := { k with keyboard := k.keyboard.updateFlags scanCode }
  let r₁ := typeText k scanCode past
  let r₂ := backspace r₁.1 scanCode
  let r₃ := tab (clearKey r₂.1 scanCode) scanCode
  (functionKey (enter r₃.1 scanCode) scanCode, r₁.2 ++ r₂.2 ++ r₃.2)

/-! ### What the handler keeps -/

/-- The character block keeps what the stores to the line and the echo keep. -/
theorem typeText_keeps {P : Kernel → Prop} {k : Kernel} (hk : P k) (scanCode : Nat) (past : UInt8)
    (hkeyboard : ∀ k kb, kb.keypressToVidFlag = k.keyboard.keypressToVidFlag → P k → P { k with keyboard := kb })
    (hecho : ∀ k c, P k → P (echo k c)) : P (typeText k scanCode past).1 := by
  unfold typeText
  split
  · exact hkeyboard _ _ rfl (hecho _ _ hk)
  · exact hk

/-- What the stores to the line, the echo, the erasure, `clear`, the flag of a line and the switch keep, each block of
the handler keeps, and so does the handler. -/
theorem keyboardHandler_keeps {P : Kernel → Prop} {k : Kernel} (hk : P k) (scanCode : Nat) (past : UInt8)
    (hkeyboard : ∀ k kb, kb.keypressToVidFlag = k.keyboard.keypressToVidFlag → P k → P { k with keyboard := kb })
    (hecho : ∀ k c, P k → P (echo k c)) (herase : ∀ k, P k → P (erase k)) (hclear : ∀ k, P k → P (clear k))
    (henter : ∀ k, P k → P (k.setTerminal k.onScreen fun t => { t with enterPFlag := true }))
    (hswitch : ∀ k n, P k → P (switchTerminalKeypress k n)) : P (keyboardHandler k scanCode past).1 := by
  have hflags : P { k with keyboard := k.keyboard.updateFlags scanCode } :=
    hkeyboard _ _ (by simp only [Keyboard.updateFlags, apply_ite Keyboard.keypressToVidFlag, ite_self]) hk
  have htext : ∀ k, P k → P (typeText k scanCode past).1 := fun _ hk =>
    typeText_keeps hk scanCode past hkeyboard hecho
  have hback : ∀ k, P k → P (backspace k scanCode).1 := by
    intro k hk
    unfold backspace
    split
    · exact hkeyboard _ _ rfl (herase _ hk)
    · exact hk
  have hclearKey : ∀ k, P k → P (clearKey k scanCode) := by
    intro k hk
    unfold clearKey
    split
    · exact hclear _ hk
    · exact hk
  have htab : ∀ k, P k → P (tab k scanCode).1 := by
    intro k hk
    unfold tab
    split
    · exact hkeyboard _ _ rfl (hecho _ _ hk)
    · exact hk
  have hline : ∀ k, P k → P (enter k scanCode) := by
    intro k hk
    unfold enter
    split
    · exact hkeyboard _ _ rfl (henter _ (hecho _ _ hk))
    · exact hk
  have hfunction : ∀ k, P k → P (functionKey k scanCode) := by
    intro k hk
    unfold functionKey
    split_ifs
    · exact hswitch _ 0 hk
    · exact hswitch _ 1 hk
    · exact hswitch _ 2 hk
    · exact hk
    · exact hk
  exact hfunction _ (hline _ (htab _ (hclearKey _ (hback _ (htext _ hflags)))))

/-! ### The flags -/

theorem functionKey_eq (k : Kernel) (scanCode : Nat) :
    functionKey k scanCode = k ∨ ∃ t ≠ k.onScreen, functionKey k scanCode = switchTo k t := by
  have hkeypress : ∀ n, switchTerminalKeypress k n = k ∨
      ∃ t ≠ k.onScreen, switchTerminalKeypress k n = switchTo k t := by
    intro n
    unfold switchTerminalKeypress
    split
    · exact .inl rfl
    · next hmove =>
      refine .inr ⟨⟨n, by omega⟩, fun heq => hmove (.inl (congrArg Fin.val heq)), rfl⟩
  unfold functionKey
  split_ifs
  · exact hkeypress 0
  · exact hkeypress 1
  · exact hkeypress 2
  · exact .inl rfl
  · exact .inl rfl

theorem clearKey_keyboard (k : Kernel) (scanCode : Nat) : (clearKey k scanCode).keyboard = k.keyboard := by
  unfold clearKey
  split
  · rfl
  · rfl

/-- The four flags are the same. -/
structure SameFlags (kb kb' : Keyboard) : Prop where
  shiftFlag : kb'.shiftFlag = kb.shiftFlag
  capsFlag : kb'.capsFlag = kb.capsFlag
  ctrlFlag : kb'.ctrlFlag = kb.ctrlFlag
  altFlag : kb'.altFlag = kb.altFlag

theorem SameFlags.trans {kb kb' kb'' : Keyboard} (h : SameFlags kb kb') (h' : SameFlags kb' kb'') :
    SameFlags kb kb'' where
  shiftFlag := h'.shiftFlag.trans h.shiftFlag
  capsFlag := h'.capsFlag.trans h.capsFlag
  ctrlFlag := h'.ctrlFlag.trans h.ctrlFlag
  altFlag := h'.altFlag.trans h.altFlag

section Flags

variable (k : Kernel) (scanCode : Nat) (past : UInt8)

theorem SameFlags.refl (kb : Keyboard) : SameFlags kb kb := ⟨rfl, rfl, rfl, rfl⟩

private theorem typeText_flags : SameFlags k.keyboard (typeText k scanCode past).1.keyboard := by
  unfold typeText
  split
  · exact ⟨rfl, rfl, rfl, rfl⟩
  · exact SameFlags.refl _

private theorem backspace_flags : SameFlags k.keyboard (backspace k scanCode).1.keyboard := by
  unfold backspace
  split
  · exact ⟨rfl, rfl, rfl, rfl⟩
  · exact SameFlags.refl _

private theorem tab_flags : SameFlags k.keyboard (tab k scanCode).1.keyboard := by
  unfold tab
  split
  · exact ⟨rfl, rfl, rfl, rfl⟩
  · exact SameFlags.refl _

private theorem enter_flags : SameFlags k.keyboard (enter k scanCode).keyboard := by
  unfold enter
  split
  · exact ⟨rfl, rfl, rfl, rfl⟩
  · exact SameFlags.refl _

private theorem functionKey_flags : SameFlags k.keyboard (functionKey k scanCode).keyboard := by
  obtain heq | ⟨t, -, heq⟩ := functionKey_eq k scanCode
  · rw [heq]
    exact SameFlags.refl _
  · rw [heq]
    exact ⟨rfl, rfl, rfl, rfl⟩

/-- The flags are those of the press and release tests: no later block changes them. -/
theorem keyboardHandler_flags :
    SameFlags (k.keyboard.updateFlags scanCode) (keyboardHandler k scanCode past).1.keyboard := by
  unfold keyboardHandler
  dsimp only
  have htext := typeText_flags { k with keyboard := k.keyboard.updateFlags scanCode } scanCode past
  generalize typeText { k with keyboard := k.keyboard.updateFlags scanCode } scanCode past = r₁ at htext
  have hback := htext.trans (backspace_flags r₁.1 scanCode)
  generalize backspace r₁.1 scanCode = r₂ at hback
  rw [← clearKey_keyboard r₂.1 scanCode] at hback
  have htab := hback.trans (tab_flags (clearKey r₂.1 scanCode) scanCode)
  generalize tab (clearKey r₂.1 scanCode) scanCode = r₃ at htab
  exact (htab.trans (enter_flags r₃.1 scanCode)).trans (functionKey_flags _ scanCode)

end Flags

end BigChungOS
