import BigChungOS.LineEditing

/-!
# The newline behind an edited line

A line that has been edited and ended with Enter should be read with one newline behind it.  The newline is not stored
by Enter, but with every character, one cell ahead of it.  Tab stores none, and Backspace leaves what is behind the
character it takes back.  What follows the line in the buffer therefore depends on how it came about: the cell `m` holds
a newline exactly if a character was typed as the `m`-th of the line and the line has not been longer since
(`newline_ahead`).

The read returns the line and one newline if that is so of the line's length and not of the next one
(`edited_line_delivered_iff`).
-/

namespace BigChungOS

open LineEdit

/-! ### The history of a line -/

/-- A character was typed as the `m`-th of the line, and the line has not been longer since. -/
def LastTyped (keys : List LineKey) (m : Nat) : Prop :=
  ∃ before c after, keys = before ++ LineKey.char c :: after ∧ (editedLine before).length + 1 = m ∧
    ∀ p, p <+: after → (editedLine (before ++ LineKey.char c :: p)).length ≤ m

section History

variable {keys : List LineKey} {key : LineKey} {m : Nat}

/-- The length of a line after another key. -/
private theorem editedLine_length_concat (keys : List LineKey) (key : LineKey) : (editedLine (keys ++ [key])).length =
    match key with
    | .char _ => min ((editedLine keys).length + 1) 127
    | .tab => min ((editedLine keys).length + 1) 127
    | .backspace => (editedLine keys).length - 1 := by
  have hshort := editedLine_length_le keys
  have hadd : ∀ c, ((Edit.add c).apply 127 (editedLine keys)).length = min ((editedLine keys).length + 1) 127 := by
    intro c
    rw [Edit.apply]
    split
    · rw [List.length_append, List.length_singleton]
      omega
    · omega
  rw [editedLine_concat]
  cases key with
  | char c => exact hadd c
  | tab => exact hadd space
  | backspace => exact List.length_dropLast

private theorem not_lastTyped_nil (m : Nat) : ¬LastTyped [] m := by
  rintro ⟨before, c, after, heq, -⟩
  have hlen := congrArg List.length heq
  simp at hlen

/-- The last key of all is the character, or it has not made the line too long. -/
private theorem lastTyped_concat (keys : List LineKey) (key : LineKey) (m : Nat) : LastTyped (keys ++ [key]) m ↔
    ((∃ c, key = .char c) ∧ (editedLine keys).length + 1 = m) ∨
      (LastTyped keys m ∧ (editedLine (keys ++ [key])).length ≤ m) := by
  constructor
  · rintro ⟨before, c, after, heq, hlen, hshort⟩
    rcases List.eq_nil_or_concat' after with rfl | ⟨init, last, rfl⟩
    · obtain ⟨rfl, hkey⟩ := List.append_inj' heq rfl
      exact .inl ⟨⟨c, List.singleton_inj.1 hkey⟩, hlen⟩
    · have heq' : keys ++ [key] = (before ++ .char c :: init) ++ [last] := by
        rw [heq, List.append_assoc]
        rfl
      obtain ⟨rfl, hkey⟩ := List.append_inj' heq' rfl
      obtain rfl := List.singleton_inj.1 hkey
      refine .inr ⟨⟨before, c, init, rfl, hlen, fun p hp => hshort p (hp.trans (List.prefix_append _ _))⟩, ?_⟩
      rw [← heq', heq]
      exact hshort _ List.prefix_rfl
  · rintro (⟨⟨c, rfl⟩, hlen⟩ | ⟨⟨before, c, after, rfl, hlen, hshort⟩, hlast⟩)
    · refine ⟨keys, c, [], rfl, hlen, fun p hp => ?_⟩
      rw [List.prefix_nil.1 hp, editedLine_length_concat]
      dsimp only
      omega
    · refine ⟨before, c, after ++ [key], by simp, hlen, fun p hp => ?_⟩
      rcases List.prefix_concat_iff.1 hp with rfl | hbefore
      · simpa using hlast
      · exact hshort p hbefore

theorem LastTyped.length_le (h : LastTyped keys m) : (editedLine keys).length ≤ m := by
  obtain ⟨before, c, after, rfl, -, hshort⟩ := h
  exact hshort after List.prefix_rfl

end History

/-! ### The buffer -/

/-- The buffer after the keys, from an empty line on. -/
def bufferAfter (cells : Int → UInt8) (keys : List LineKey) : LineBuffer := keys.foldl LineBuffer.press ⟨cells, 0⟩

private theorem bufferAfter_concat (cells : Int → UInt8) (keys : List LineKey) (key : LineKey) :
    bufferAfter cells (keys ++ [key]) = (bufferAfter cells keys).press key := by
  rw [bufferAfter, List.foldl_append]
  rfl

private theorem bufferAfter_hasLine (cells : Int → UInt8) (keys : List LineKey) :
    HasLine (bufferAfter cells keys) (editedLine keys) := by
  induction keys using List.reverseRecOn with
  | nil => exact ⟨rfl, fun i hi => absurd hi (Nat.not_lt_zero i)⟩
  | append_singleton keys key ih =>
    rw [bufferAfter_concat, editedLine_concat]
    exact ih.press key

/-- A cell holds a newline if a character was typed right before it last, and else a NUL. -/
def AheadOk (keys : List LineKey) (m : Nat) (c : UInt8) : Prop :=
  (c = newline ∧ LastTyped keys m) ∨ (c = 0 ∧ ¬LastTyped keys m)

/-- The cells behind the line that a key does not store to: not the newline of a character, and not the cell of the
character that is taken back. -/
private theorem press_cells {b : LineBuffer} {key : LineKey} {m : Nat} (hlow : (b.press key).length ≤ m)
    (hchar : (∃ c, key = .char c) → b.length + 1 ≠ m) (hback : b.length ≤ m) :
    (b.press key).cells m = b.cells m := by
  cases key with
  | char c =>
    have hne := hchar ⟨c, rfl⟩
    rw [LineBuffer.press] at hlow ⊢
    split at hlow
    · rename_i hroom
      dsimp only at hlow
      rw [if_pos hroom]
      dsimp only
      rw [Function.update_of_ne (by omega), Function.update_of_ne (by omega)]
    · rename_i hfull
      rw [if_neg hfull]
  | tab =>
    rw [LineBuffer.press] at hlow ⊢
    split at hlow
    · rename_i hroom
      dsimp only at hlow
      rw [if_pos hroom]
      exact Function.update_of_ne (by omega) _ _
    · rename_i hfull
      rw [if_neg hfull]
  | backspace =>
    rw [LineBuffer.press]
    split
    · exact Function.update_of_ne (by omega) _ _
    · rfl

/-- What follows the line in the buffer. -/
theorem newline_ahead {cells : Int → UInt8} (hzero : ∀ m : Nat, m < 128 → cells m = 0) (keys : List LineKey) {m : Nat}
    (hlow : (editedLine keys).length ≤ m) (hhigh : m < 128) : AheadOk keys m ((bufferAfter cells keys).cells m) := by
  induction keys using List.reverseRecOn with
  | nil => exact .inr ⟨hzero m hhigh, not_lastTyped_nil m⟩
  | append_singleton keys key ih =>
    have hlength := (bufferAfter_hasLine cells keys).length
    have hlength' := (bufferAfter_hasLine cells (keys ++ [key])).length
    have hshort := editedLine_length_le keys
    have hnew := editedLine_length_concat keys key
    rw [bufferAfter_concat] at hlength' ⊢
    by_cases hchar : (∃ c, key = .char c) ∧ (editedLine keys).length + 1 = m
    · -- the newline of a character
      obtain ⟨⟨c, rfl⟩, rfl⟩ := hchar
      have hroom : (bufferAfter cells keys).length < 127 := by omega
      refine .inl ⟨?_, (lastTyped_concat _ _ _).2 (.inl ⟨⟨c, rfl⟩, rfl⟩)⟩
      rw [LineBuffer.press, if_pos hroom, hlength, Nat.cast_add, Nat.cast_one]
      exact Function.update_self _ _ _
    by_cases hbefore : (editedLine keys).length ≤ m
    · -- as it was
      have hiff : LastTyped (keys ++ [key]) m ↔ LastTyped keys m := by
        rw [lastTyped_concat]
        exact ⟨fun h => (h.resolve_left hchar).1, fun h => .inr ⟨h, hlow⟩⟩
      rw [AheadOk, hiff, press_cells (by omega) (fun h hm => hchar ⟨h, by omega⟩) (by omega)]
      exact ih hbefore
    · -- the character that is taken back
      have hnot : ¬LastTyped (keys ++ [key]) m := by
        intro h
        rcases (lastTyped_concat _ _ _).1 h with hnow | ⟨hold, -⟩
        · exact hchar hnow
        · exact hbefore hold.length_le
      refine .inr ⟨?_, hnot⟩
      cases key with
      | char c =>
        dsimp only at hnew
        omega
      | tab =>
        dsimp only at hnew
        omega
      | backspace =>
        dsimp only at hnew
        have hsome : 0 < (bufferAfter cells keys).length := by omega
        have hcell : (m : Int) = (bufferAfter cells keys).length - 1 := by omega
        rw [LineBuffer.press, if_pos hsome, hcell]
        exact Function.update_self _ _ _

/-! ### The read -/

/-- The loop of the read stops at the first NUL. -/
theorem lineLengthFrom_some {buf : Int → UInt8} {fuel start n : Nat} (h : lineLengthFrom buf fuel start = some n) :
    start ≤ n ∧ buf n = 0 ∧ ∀ i : Nat, start ≤ i → i < n → buf i ≠ 0 := by
  induction fuel generalizing start with
  | zero => cases h
  | succ fuel ih =>
    rw [lineLengthFrom] at h
    split at h
    · next hzero =>
      obtain rfl := Option.some.inj h
      exact ⟨le_refl _, hzero, fun i hi hi' => absurd hi' (by omega)⟩
    · next hchar =>
      obtain ⟨hstart, hend, hchars⟩ := ih h
      refine ⟨by omega, hend, fun i hi hi' => ?_⟩
      rcases Nat.eq_or_lt_of_le hi with rfl | hlt
      · exact hchar
      · exact hchars i hlt hi'

/-- A read of `nbytes` bytes returns the line and one newline. -/
def DeliversLine (k : Kernel) (nbytes : Int) (line : List UInt8) : Prop :=
  ∃ k' stored, terminalRead k nbytes = some (k', ((line.length + 1 : Nat) : Int), stored) ∧
    stored.take (line.length + 1) = line ++ [newline]

/-- The bytes that are returned are the line and the cell behind it. -/
private theorem lineBytes_take {k : Kernel} {text : List UInt8}
    (hcells : ∀ (i : Nat) (h : i < text.length), k.keyboard.keyboardBuffer i = text[i]) :
    (lineBytes k (((text.length + 1 : Nat) : Int) + 1).toNat).take (text.length + 1) =
      text ++ [k.keyboard.keyboardBuffer text.length] := by
  have hlen : (((text.length + 1 : Nat) : Int) + 1).toNat = text.length + 1 + 1 := rfl
  rw [hlen]
  refine List.ext_getElem (by simp [lineBytes]) fun i hi hi' => ?_
  rw [List.length_append, List.length_singleton] at hi'
  simp only [lineBytes, List.getElem_take, List.getElem_map, List.getElem_range]
  rcases Nat.lt_succ_iff_lt_or_eq.1 hi' with hlt | rfl
  · rw [List.getElem_append_left hlt, hcells i hlt]
  · rw [List.getElem_concat_length rfl]

/-- A read after Enter of a text that is in the buffer returns it with one newline if that is what the next two cells
say. -/
private theorem deliversLine_iff {k : Kernel} {nbytes : Int} {text : List UInt8}
    (hflag : (k.terminals k.onScreen).enterPFlag = true)
    (hcells : ∀ (i : Nat) (h : i < text.length), k.keyboard.keyboardBuffer i = text[i])
    (hgraphic : ∀ c ∈ text, space ≤ c) (hlow : 1 ≤ text.length) (hhigh : text.length ≤ 126) (hroom : 128 ≤ nbytes) :
    DeliversLine k nbytes text ↔ k.keyboard.keyboardBuffer text.length = newline ∧
      k.keyboard.keyboardBuffer ((text.length + 1 : Nat) : Int) = 0 := by
  have hchars : ∀ (i : Nat) (h : i < text.length), k.keyboard.keyboardBuffer i ≠ 0 ∧
      k.keyboard.keyboardBuffer i ≠ newline := by
    intro i hi
    have hgood := hgraphic _ (List.getElem_mem hi)
    rw [hcells i hi]
    refine ⟨?_, ?_⟩ <;> intro heq <;> rw [heq] at hgood <;> exact absurd hgood (by decide)
  constructor
  · rintro ⟨k', stored, hread, hstored⟩
    obtain ⟨-, ⟨-, -, hr, -⟩ | ⟨count, -, hline, -, hr, -, rfl⟩⟩ := terminalRead_cases hread
    · omega
    obtain rfl : count = text.length + 1 := by omega
    refine ⟨?_, (lineLengthFrom_some hline).2.1⟩
    have hbytes := (lineBytes_take hcells).symm.trans hstored
    exact List.singleton_inj.1 (List.append_cancel_left hbytes)
  · rintro ⟨hnewline, hend⟩
    have hcount : lineLength k.keyboard.keyboardBuffer = some (text.length + 1) := by
      refine lineLengthFrom_eq_some (Nat.zero_le _) (fun i hi => ?_) hend (by omega)
      rcases Nat.lt_succ_iff_lt_or_eq.1 hi with hlt | rfl
      · exact (hchars i hlt).1
      · rw [hnewline]
        decide
    have hmin : min ((text.length + 1 : Nat) : Int) nbytes = ((text.length + 1 : Nat) : Int) :=
      min_eq_left (by omega)
    have hsome : nbytes ≠ 0 := by omega
    have hread := terminalRead_line hflag hsome (hchars 0 hlow).2 hcount (by omega)
    rw [hmin] at hread
    refine ⟨_, _, hread, ?_⟩
    rw [lineBytes_take hcells, hnewline]

section Delivery

variable {k : Kernel} {codes : List (Nat × UInt8)} {nbytes : Int}

/-- The edited line is read with one newline.  From an empty line on, after any of its keys and Enter, that is so
exactly if a character was typed as the last of the line and the line has not been longer since, and it is not so that a
character was typed behind the line and the line has not been longer than that since. -/
theorem edited_line_delivered_iff (hflags : FlagsOk k.keyboard)
    (hzero : ∀ m : Nat, m < 128 → k.keyboard.keyboardBuffer m = 0) (hidx : k.keyboard.kbIdx = 0)
    (hcount : k.keyboard.charCount = 0) (hcodes : ∀ code ∈ codes, LineCode code.1)
    (hlow : 1 ≤ (editedLine (pressKeys k codes).keys).length)
    (hhigh : (editedLine (pressKeys k codes).keys).length ≤ 126) (hroom : 128 ≤ nbytes) (past : UInt8) :
    let keys := (pressKeys k codes).keys
    DeliversLine (keyboardHandler (pressKeys k codes).kernel 0x1C past).1 nbytes (editedLine keys) ↔
      LastTyped keys (editedLine keys).length ∧ ¬LastTyped keys ((editedLine keys).length + 1) := by
  intro keys
  have hshort : (editedLine keys).length ≤ 126 := hhigh
  have hgraphic := editedLine_graphic (pressKeys_graphic hflags hcodes).2
  have hbuffer : (pressKeys k codes).kernel.keyboard.keyboardBuffer =
      (bufferAfter k.keyboard.keyboardBuffer keys).cells :=
    (pressKeys_buffer hidx hcount hcodes).cells
  have hline := bufferAfter_hasLine k.keyboard.keyboardBuffer keys
  obtain ⟨hkeyboard, hterminals, honScreen⟩ := keyboardHandler_enter (pressKeys k codes).kernel past
  have hcells : (keyboardHandler (pressKeys k codes).kernel 0x1C past).1.keyboard.keyboardBuffer =
      (bufferAfter k.keyboard.keyboardBuffer keys).cells := by rw [hkeyboard, hbuffer]
  rw [deliversLine_iff (by rw [hterminals, honScreen, Function.update_self])
    (fun i hi => by rw [hcells, hline.cells i hi]) hgraphic hlow hhigh hroom, hcells]
  have hne : newline ≠ 0 := by decide
  rcases newline_ahead hzero keys (le_refl _) (show (editedLine keys).length < 128 by omega) with
    ⟨hchar, hlast⟩ | ⟨hchar, hlast⟩
  · rcases newline_ahead hzero keys (Nat.le_succ _) (show (editedLine keys).length + 1 < 128 by omega) with
      ⟨hnext, hover⟩ | ⟨hnext, hover⟩
    · exact iff_of_false (fun h => hne (hnext.symm.trans h.2)) fun h => h.2 hover
    · exact iff_of_true ⟨hchar, hnext⟩ ⟨hlast, hover⟩
  · exact iff_of_false (fun h => hne (h.1.symm.trans hchar)) fun h => hlast h.1

end Delivery

/-- The first shell with `a` typed delivers the line. -/
theorem letter_delivered_iff :
    let keys := (pressKeys firstShell [(0x1E, 0)]).keys
    DeliversLine (keyboardHandler (pressKeys firstShell [(0x1E, 0)]).kernel 0x1C 0).1 128 (editedLine keys) ∧
      (DeliversLine (keyboardHandler (pressKeys firstShell [(0x1E, 0)]).kernel 0x1C 0).1 128 (editedLine keys) ↔
        LastTyped keys (editedLine keys).length ∧ ¬LastTyped keys ((editedLine keys).length + 1)) := by
  intro keys
  have hkeys : keys = [.char 97] := by decide +kernel
  have hiff : DeliversLine (keyboardHandler (pressKeys firstShell [(0x1E, 0)]).kernel 0x1C 0).1 128 (editedLine keys) ↔
      LastTyped keys (editedLine keys).length ∧ ¬LastTyped keys ((editedLine keys).length + 1) :=
    edited_line_delivered_iff ⟨by decide +kernel, by decide +kernel⟩ (by decide +kernel) (by decide +kernel)
      (by decide +kernel) (by decide) (by decide +kernel) (by decide +kernel) (le_refl _) 0
  have hlast : LastTyped keys (editedLine keys).length := by
    rw [hkeys]
    exact (lastTyped_concat [] (.char 97) 1).2 (.inl ⟨⟨97, rfl⟩, rfl⟩)
  have hnext : ¬LastTyped keys ((editedLine keys).length + 1) := by
    rw [hkeys]
    intro h
    rcases (lastTyped_concat [] (.char 97) 2).1 h with ⟨-, hlen⟩ | ⟨hnil, -⟩
    · exact absurd hlen (by decide)
    · exact not_lastTyped_nil _ hnil
  exact ⟨hiff.2 ⟨hlast, hnext⟩, hiff⟩

/-- The keyboard of the first shell is empty, `a` and Tab are keys of a line, and yet a read after Enter returns the
two characters without a newline. -/
theorem tab_loses_newline :
    let codes : List (Nat × UInt8) := [(0x1E, 0), (0x0F, 0)]
    let k := (keyboardHandler (pressKeys firstShell codes).kernel 0x1C 0).1
    FlagsOk firstShell.keyboard ∧ (∀ m : Nat, m < 128 → firstShell.keyboard.keyboardBuffer m = 0) ∧
      firstShell.keyboard.kbIdx = 0 ∧ firstShell.keyboard.charCount = 0 ∧ (∀ code ∈ codes, LineCode code.1) ∧
      editedLine (pressKeys firstShell codes).keys = asBytes "a " ∧
      (terminalRead k 128).map Prod.snd = some (2, asBytes "a \x00") ∧ ¬DeliversLine k 128 (asBytes "a ") := by
  intro codes k
  have hread : (terminalRead k 128).map Prod.snd = some (2, asBytes "a \x00") := by decide +kernel
  refine ⟨⟨by decide +kernel, by decide +kernel⟩, by decide +kernel, by decide +kernel, by decide +kernel, by decide,
    by decide +kernel, hread, ?_⟩
  rintro ⟨k', stored, hdelivered, -⟩
  rw [hdelivered] at hread
  have hcount : (((asBytes "a ").length + 1 : Nat) : Int) = 2 := congrArg Prod.fst (Option.some.inj hread)
  exact absurd hcount (by decide)

/-- A newline that is left behind: `a`, `b`, twice Backspace and `x` are read with two newlines. -/
example :
    let codes : List (Nat × UInt8) := [(0x1E, 0), (0x30, 0), (0x0E, 0), (0x0E, 0), (0x2D, 0)]
    (terminalRead (keyboardHandler (pressKeys firstShell codes).kernel 0x1C 0).1 128).map Prod.snd =
      some (3, asBytes "x\n\n\x00") := by
  decide +kernel

end BigChungOS
