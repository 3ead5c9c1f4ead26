import BigChungOS.Lib.Cells
import BigChungOS.Lib.Loops
import BigChungOS.Lib.Numerals
import BigChungOS.Printf

/-!
# Numbers as text

`itoa` stores the digits of a number from the lowest on, as the division gives them, and `strrev` turns them around in
place.  Here both, and the conversions `%x`, `%u` and `%d` that call them, run on the memory of the buffer with a record
of the places they read and write.  Each comes to the text that the calls of `itoa` elsewhere stand for (`itoa_spec`),
and that text is the numeral of the number (`itoa_isNumeral`).
-/

namespace BigChungOS

open Memory Loops Numerals

/-! ### Digits -/

/-- `lookup`. -/
def lookup : List UInt8 := asBytes "0123456789ABCDEFGHIJKLMNOPQRSTUVWXYZ"

def digitChar (d : Nat) : UInt8 := lookup.getD d 0

/-- The digit that a character stands for. -/
def digitOf (c : UInt8) : Nat := lookup.idxOf c

private theorem digitOf_digitChar {d : Nat} (hd : d < 36) : digitOf (digitChar d) = d := by
  have hall : ∀ d < 36, digitOf (digitChar d) = d := by decide
  exact hall d hd

private theorem digitChar_ne_zero {d : Nat} (hd : d < 36) : digitChar d ≠ 0 := by
  have hall : ∀ d < 36, digitChar d ≠ 0 := by decide
  exact hall d hd

section Text

variable {radix value : Nat}

private theorem itoaDigits_eq (hr : 1 < radix) {fuel newval : Nat} (hfuel : newval < radix ^ fuel) (buf : List UInt8) :
    itoaDigits radix fuel newval buf = (Nat.digits radix newval).reverse.map digitChar ++ buf := by
  induction fuel generalizing newval buf with
  | zero =>
    rw [Nat.pow_zero, Nat.lt_one_iff] at hfuel
    rw [hfuel, Nat.digits_zero]
    rfl
  | succ fuel ih =>
    rw [itoaDigits]
    split
    · next hzero =>
      rw [hzero, Nat.digits_zero]
      rfl
    · next hne =>
      have hrest : newval / radix < radix ^ fuel :=
        Nat.div_lt_of_lt_mul (by rwa [Nat.pow_succ, Nat.mul_comm] at hfuel)
      rw [ih hrest, Nat.digits_def' hr (Nat.pos_of_ne_zero hne), List.reverse_cons, List.map_append, List.append_assoc]
      rfl

/-- The characters of a numeral. -/
private theorem itoa_eq (hr : 1 < radix) (hv : value < 4294967296) :
    itoa value radix = (numeral radix value).map digitChar := by
  unfold itoa numeral
  split_ifs with hzero
  · rfl
  · have hpow : value < radix ^ 32 := lt_of_lt_of_le hv (Nat.pow_le_pow_left hr 32)
    rw [itoaDigits_eq hr hpow, List.append_nil]

private theorem map_digitOf {ds : List Nat} (hds : ∀ d ∈ ds, d < 36) : (ds.map digitChar).map digitOf = ds := by
  have hsame : ds.map (digitOf ∘ digitChar) = ds.map id := List.map_congr_left fun d hd => digitOf_digitChar (hds d hd)
  rw [List.map_map, hsame, List.map_id]

private theorem digitChar_digitOf {c : UInt8} (hc : digitOf c < 36) : digitChar (digitOf c) = c := by
  have hlt : lookup.idxOf c < lookup.length := hc
  rw [digitChar, digitOf, List.getD_eq_getElem _ _ hlt, List.getElem_idxOf hlt]

/-- The text of `itoa` is the numeral of the value, and no other text is. -/
private theorem isNumeral_text_iff (hr : 1 < radix) (h36 : radix ≤ 36) (hv : value < 4294967296) (text : List UInt8) :
    IsNumeral radix value (text.map digitOf) ↔ text = itoa value radix := by
  have hdigits : ∀ d ∈ numeral radix value, d < 36 :=
    fun d hd => lt_of_lt_of_le ((isNumeral_numeral hr value).digits d hd) h36
  rw [isNumeral_iff hr, itoa_eq hr hv]
  constructor
  · intro h
    have hchars : ∀ c ∈ text, digitChar (digitOf c) = c :=
      fun c hc => digitChar_digitOf (hdigits _ (h ▸ List.mem_map_of_mem hc))
    have hsame : text.map (digitChar ∘ digitOf) = text.map id := List.map_congr_left hchars
    rw [← h, List.map_map, hsame, List.map_id]
  · rintro rfl
    exact map_digitOf hdigits

private theorem zero_notMem_itoa (hr : 1 < radix) (h36 : radix ≤ 36) (hv : value < 4294967296) :
    (0 : UInt8) ∉ itoa value radix := by
  rw [itoa_eq hr hv]
  intro h
  obtain ⟨d, hd, hzero⟩ := List.mem_map.1 h
  exact digitChar_ne_zero (lt_of_lt_of_le ((isNumeral_numeral hr value).digits d hd) h36) hzero

end Text

private theorem hexText_false (w : UInt32) : hexText false w = itoa w.toNat 16 := by
  unfold hexText
  exact if_neg Bool.false_ne_true

/-- `%d` prints a sign and the absolute value. -/
private theorem signedText_eq (w : UInt32) :
    signedText w = if toInt32 w.toNat < 0 then 0x2D :: itoa (toInt32 w.toNat).natAbs 10
      else itoa (toInt32 w.toNat).natAbs 10 := by
  have hw := toInt32_lt w.toNat
  unfold signedText
  dsimp only
  generalize toInt32 w.toNat = x at hw
  split_ifs with hneg
  · have hnat : toUInt32 (-x) = x.natAbs := by
      unfold toUInt32
      omega
    rw [hnat]
  · have hnat : x.toNat = x.natAbs := by omega
    rw [hnat]

/-! ### The functions on memory -/

namespace ConvBuf

/-- A round of the loop of `strlen`. -/
def strlenRound (s : Nat) : Nat × Cells UInt8 → (Nat × Cells UInt8) ⊕ (Nat × Cells UInt8) :=
  fun (len, c) =>
    let (x, c) := c.load (s + len)
    if x ≠ 0 then .inl (len + 1, c) else .inr (len, c)

/-- `strlen`. -/
def strlen (fuel s : Nat) (c : Cells UInt8) : Option (Nat × Cells UInt8) := loop (strlenRound s) fuel (0, c)

/-- A round of the loop of `strrev`. -/
def strrevRound (s : Nat) : Nat × Int × Cells UInt8 → (Nat × Int × Cells UInt8) ⊕ Cells UInt8 :=
  fun (beg, last, c) =>
    if beg < last then
      let (tmp, c) := c.load (s + last.toNat)
      let (x, c) := c.load (s + beg)
      .inl (beg + 1, last - 1, (c.store (s + last.toNat) x).store (s + beg) tmp)
    else .inr c

/-- `strrev`; `last` is what the source calls `end`. -/
def strrev (fuel s : Nat) (c : Cells UInt8) : Option (Nat × Cells UInt8) := do
  let (len, c) ← strlen fuel s c
  let c ← loop (strrevRound s) fuel (0, (len : Int) - 1, c)
  some (s, c)

/-- A round of the loop of `itoa`. -/
def itoaRound (radix : UInt32) : UInt32 × Nat × Cells UInt8 → (UInt32 × Nat × Cells UInt8) ⊕ (Nat × Cells UInt8) :=
  fun (newval, newbuf, c) =>
    if 0 < newval then
      let i := newval % radix
      .inl (newval / radix, newbuf + 1, c.store newbuf (lookup.getD i.toNat 0))
    else .inr (newbuf, c)

/-- `itoa`, with the buffer at `buf`. -/
def itoa (fuel : Nat) (value : UInt32) (buf : Nat) (radix : UInt32) (c : Cells UInt8) :
    Option (Nat × Cells UInt8) :=
  if value = 0 then some (buf, (c.store buf 0x30).store (buf + 1) 0)
  else do
    let (newbuf, c) ← loop (itoaRound radix) fuel (value, buf, c)
    strrev fuel buf (c.store newbuf 0)

/-- A round of the loop of `puts`. -/
def putsRound (s : Nat) :
    Nat × Kernel × Cells UInt8 → (Nat × Kernel × Cells UInt8) ⊕ (Nat × Kernel × Cells UInt8) :=
  fun (index, k, c) =>
    let (x, c) := c.load (s + index)
    if x ≠ 0 then
      let (x, c) := c.load (s + index)
      .inl (index + 1, putc k x, c)
    else .inr (index, k, c)

/-- `puts`. -/
def puts (fuel s : Nat) (k : Kernel) (c : Cells UInt8) : Option (Nat × Kernel × Cells UInt8) :=
  loop (putsRound s) fuel (0, k, c)

/-- A round of the loop that pads with zeros. -/
def padRound : Nat × Cells UInt8 → (Nat × Cells UInt8) ⊕ Cells UInt8 :=
  fun (i, c) => if i < 8 then .inl (i + 1, c.store i 0x30) else .inr c

/-- `%x`, in the 64 bytes of `conv_buf`. -/
def hexadecimal (fuel : Nat) (alternate : Bool) (w : UInt32) (k : Kernel) (c : Cells UInt8) :
    Option (Kernel × Cells UInt8) :=
  if alternate = false then do
    let (_, c) ← itoa fuel w 0 16 c
    let (_, k, c) ← puts fuel 0 k c
    some (k, c)
  else do
    let (_, c) ← itoa fuel w 8 16 c
    let (startingIndex, c) ← strlen fuel 8 c
    let c ← loop padRound fuel (startingIndex, c)
    let (_, k, c) ← puts fuel startingIndex k c
    some (k, c)

/-- `%u`, in the 36 bytes of `conv_buf`. -/
def unsignedDecimal (fuel : Nat) (w : UInt32) (k : Kernel) (c : Cells UInt8) : Option (Kernel × Cells UInt8) := do
  let (_, c) ← itoa fuel w 0 10 c
  let (_, k, c) ← puts fuel 0 k c
  some (k, c)

/-- `%d`, in the 36 bytes of `conv_buf`.  The negation of the least value wraps around. -/
def signedDecimal (fuel : Nat) (w : UInt32) (k : Kernel) (c : Cells UInt8) : Option (Kernel × Cells UInt8) := do
  let value := toInt32 w.toNat
  let (_, c) ←
    if value < 0 then itoa fuel (UInt32.ofNat (toUInt32 (toInt32 (-value)))) 1 10 (c.store 0 0x2D)
    else itoa fuel (UInt32.ofNat (toUInt32 value)) 0 10 c
  let (_, k, c) ← puts fuel 0 k c
  some (k, c)

/-! ### Strings in the buffer -/

/-- The NUL is where the string ends. -/
private theorem nul_iff {m : Nat → UInt8} {t : List UInt8} (ht : IsString m t) {i : Nat} (hi : i ≤ t.length) :
    m i = 0 ↔ i = t.length := by
  rw [ht.spelled i hi, cString]
  rcases Nat.lt_or_eq_of_le hi with hlt | heq
  · rw [List.getD_eq_getElem _ _ hlt]
    have hmem : t[i] ∈ t := List.getElem_mem hlt
    exact ⟨fun hzero => absurd (hzero ▸ hmem) ht.bytes, fun heq => by omega⟩
  · exact ⟨fun _ => heq, fun _ => List.getD_eq_default _ _ heq.ge⟩

private theorem isString_storeAt {m : Nat → UInt8} {s : Nat} {t : List UInt8} (ht : (0 : UInt8) ∉ t) :
    IsString (fun i => storeAt m s (t ++ [0]) (s + i)) t where
  bytes := ht
  spelled := by
    intro i hi
    have hlt : i < (t ++ [(0 : UInt8)]).length := by
      rw [List.length_append, List.length_singleton]
      omega
    show storeAt m s (t ++ [0]) (s + i) = t.getD i 0
    rw [storeAt_of_mem _ _ hlt]
    rcases Nat.lt_or_eq_of_le hi with hin | rfl
    · rw [List.getElem_append_left hin, List.getD_eq_getElem _ _ hin]
    · rw [List.getElem_append_right le_rfl, List.getD_eq_default _ _ le_rfl]
      simp

/-- A loop over the string `t` at `s` has come to character `i`, from the buffer `c₀`. -/
structure AtChar (c₀ : Cells UInt8) (s : Nat) (t : List UInt8) (i : Nat) (c : Cells UInt8) : Prop where
  le : i ≤ t.length
  mem : c.mem = c₀.mem
  within : Within c₀ c s (t.length + 1)

section Spec

variable {fuel s i : Nat} {c c₀ : Cells UInt8} {t : List UInt8}

theorem AtChar.start (c : Cells UInt8) (s : Nat) (t : List UInt8) : AtChar c s t 0 c :=
  ⟨Nat.zero_le _, rfl, .refl _ _ _⟩

theorem AtChar.load (h : AtChar c₀ s t i c) : AtChar c₀ s t i (c.load (s + i)).2 where
  le := h.le
  mem := h.mem
  within := by
    have hle := h.le
    exact h.within.trans (within_load c (by omega))

theorem AtChar.succ (h : AtChar c₀ s t i c) (hi : i ≠ t.length) : AtChar c₀ s t (i + 1) c where
  le := Nat.lt_of_le_of_ne h.le hi
  mem := h.mem
  within := h.within

theorem AtChar.eq_zero_iff (h : AtChar c₀ s t i c) (ht : IsString (fun i => c₀.mem (s + i)) t) :
    c.mem (s + i) = 0 ↔ i = t.length := by
  rw [h.mem]
  exact nul_iff ht h.le

private theorem strlen_spec (ht : IsString (fun i => c.mem (s + i)) t) (hfuel : t.length < fuel) :
    ∃ c', strlen fuel s c = some (t.length, c') ∧ AtChar c s t t.length c' := by
  have hround : ∀ p : Nat × Cells UInt8, AtChar c s t p.1 p.2 →
      Sum.elim (fun p' => AtChar c s t p'.1 p'.2 ∧ t.length - p'.1 < t.length - p.1)
        (fun p' => p'.1 = t.length ∧ AtChar c s t p'.1 p'.2) (strlenRound s p) := by
    rintro ⟨len, d⟩ h
    by_cases hend : len = t.length
    · have hlast : strlenRound s (len, d) = .inr (len, (d.load (s + len)).2) :=
        if_neg (not_not.2 ((h.eq_zero_iff ht).2 hend))
      rw [hlast]
      exact ⟨hend, h.load⟩
    · have hnext : strlenRound s (len, d) = .inl (len + 1, (d.load (s + len)).2) :=
        if_pos (mt (h.eq_zero_iff ht).1 hend)
      have hsucc : AtChar c s t (len + 1) (d.load (s + len)).2 := h.load.succ hend
      rw [hnext]
      exact ⟨hsucc, Nat.sub_lt_sub_left hsucc.le (Nat.lt_succ_self len)⟩
  obtain ⟨⟨len, c'⟩, hloop, rfl, h⟩ :=
    loop_spec (fun p : Nat × Cells UInt8 => t.length - p.1) hround (s := (0, c)) (.start c s t) hfuel
  exact ⟨c', hloop, h⟩

private theorem puts_spec (ht : IsString (fun i => c.mem (s + i)) t) (k : Kernel) (hfuel : t.length < fuel) :
    ∃ c', puts fuel s k c = some (t.length, BigChungOS.puts k t, c') ∧ AtChar c s t t.length c' := by
  have hround : ∀ p : Nat × Kernel × Cells UInt8,
      AtChar c s t p.1 p.2.2 ∧ p.2.1 = BigChungOS.puts k (t.take p.1) →
      Sum.elim (fun p' => (AtChar c s t p'.1 p'.2.2 ∧ p'.2.1 = BigChungOS.puts k (t.take p'.1)) ∧
          t.length - p'.1 < t.length - p.1)
        (fun p' => p'.1 = t.length ∧ p'.2.1 = BigChungOS.puts k (t.take p'.1) ∧ AtChar c s t p'.1 p'.2.2)
        (putsRound s p) := by
    rintro ⟨index, l, d⟩ ⟨h, hl⟩
    dsimp only at h hl
    by_cases hend : index = t.length
    · have hlast : putsRound s (index, l, d) = .inr (index, l, (d.load (s + index)).2) :=
        if_neg (not_not.2 ((h.eq_zero_iff ht).2 hend))
      rw [hlast]
      exact ⟨hend, hl, h.load⟩
    · have hnext : putsRound s (index, l, d) =
          .inl (index + 1, putc l (d.mem (s + index)), ((d.load (s + index)).2.load (s + index)).2) :=
        if_pos (mt (h.eq_zero_iff ht).1 hend)
      have hsucc : AtChar c s t (index + 1) ((d.load (s + index)).2.load (s + index)).2 := h.load.load.succ hend
      have hlt : index < t.length := hsucc.le
      have hchar : d.mem (s + index) = t[index] := by
        rw [h.mem, ht.spelled index h.le]
        exact List.getD_eq_getElem _ _ hlt
      rw [hnext]
      refine ⟨⟨hsucc, ?_⟩, Nat.sub_lt_sub_left hsucc.le (Nat.lt_succ_self index)⟩
      show putc l (d.mem (s + index)) = BigChungOS.puts k (t.take (index + 1))
      rw [List.take_succ_eq_append_getElem hlt, ← puts_append, ← hl, hchar]
      rfl
  obtain ⟨⟨len, l, c'⟩, hloop, rfl, hl, h⟩ :=
    loop_spec (fun p : Nat × Kernel × Cells UInt8 => t.length - p.1) hround (s := (0, k, c)) ⟨.start c s t, rfl⟩ hfuel
  obtain rfl : l = BigChungOS.puts k t := hl.trans (by rw [List.take_length])
  exact ⟨c', hloop, h⟩

/-- After `beg` rounds of `strrev`, the first `beg` of `n` characters have been exchanged with the last ones. -/
structure Turned (c₀ : Cells UInt8) (s n beg : Nat) (last : Int) (c : Cells UInt8) : Prop where
  last_eq : last = (n : Int) - 1 - beg
  mem : c.mem = swapEnds c₀.mem s n beg
  within : Within c₀ c s (n + 1)

/-- The buffer after the characters `i` and `j` have been exchanged by way of `tmp`. -/
def exchanged (s i j : Nat) (c : Cells UInt8) : Cells UInt8 :=
  ((((c.load (s + j)).2.load (s + i)).2.store (s + j) (c.mem (s + i))).store (s + i) (c.mem (s + j)))

theorem Turned.round {n beg : Nat} {last : Int} (h : Turned c₀ s n beg last c) (hmore : (beg : Int) < last) :
    Turned c₀ s n (beg + 1) (last - 1) (exchanged s beg last.toNat c) := by
  have hlast := h.last_eq
  have htoNat : last.toNat = n - 1 - beg := by omega
  have hbeg : s ≤ s + beg ∧ s + beg < s + (n + 1) := by omega
  have hend : s ≤ s + (n - 1 - beg) ∧ s + (n - 1 - beg) < s + (n + 1) := by omega
  rw [htoNat]
  refine ⟨by omega, ?_, ?_⟩
  · have hupdate : (exchanged s beg (n - 1 - beg) c).mem = Function.update
        (Function.update c.mem (s + (n - 1 - beg)) (c.mem (s + beg))) (s + beg) (c.mem (s + (n - 1 - beg))) := rfl
    rw [hupdate, h.mem, swapEnds_succ _ (by omega)]
  · exact (((h.within.trans (within_load _ hend)).trans (within_load _ hbeg)).trans (within_store _ _ hend)).trans
      (within_store _ _ hbeg)

/-- `strrev` turns the string around. -/
private theorem strrev_spec {m : Nat → UInt8} (hmem : c.mem = storeAt m s (t ++ [0])) (ht : (0 : UInt8) ∉ t)
    (hfuel : t.length < fuel) :
    ∃ c', strrev fuel s c = some (s, c') ∧ c'.mem = storeAt m s (t.reverse ++ [0]) ∧
      Within c c' s (t.length + 1) := by
  have hstring : IsString (fun i => c.mem (s + i)) t := by
    rw [hmem]
    exact isString_storeAt ht
  obtain ⟨c₁, hlen, h₁⟩ := strlen_spec hstring hfuel
  have hround : ∀ p : Nat × Int × Cells UInt8, Turned c₁ s t.length p.1 p.2.1 p.2.2 →
      Sum.elim (fun p' => Turned c₁ s t.length p'.1 p'.2.1 p'.2.2 ∧ t.length - p'.1 < t.length - p.1)
        (fun d => ∃ beg last, Turned c₁ s t.length beg last d ∧ last ≤ beg) (strrevRound s p) := by
    rintro ⟨beg, last, d⟩ h
    by_cases hmore : (beg : Int) < last
    · have hnext : strrevRound s (beg, last, d) = .inl (beg + 1, last - 1, exchanged s beg last.toNat d) :=
        if_pos hmore
      have hlast : last = (t.length : Int) - 1 - beg := h.last_eq
      rw [hnext]
      refine ⟨h.round hmore, ?_⟩
      show t.length - (beg + 1) < t.length - beg
      omega
    · have hdone : strrevRound s (beg, last, d) = .inr d := if_neg hmore
      rw [hdone]
      exact ⟨beg, last, h, Int.not_lt.1 hmore⟩
  have hstart : Turned c₁ s t.length 0 ((t.length : Int) - 1) c₁ :=
    ⟨by omega, (swapEnds_zero _ _ _).symm, .refl _ _ _⟩
  obtain ⟨c', hloop, beg, last, h, hmet⟩ :=
    loop_spec (fun p : Nat × Int × Cells UInt8 => t.length - p.1) hround (s := (0, (t.length : Int) - 1, c₁)) hstart
      hfuel
  have hlast := h.last_eq
  refine ⟨c', ?_, ?_, h₁.within.trans h.within⟩
  · rw [strrev, hlen]
    show (loop (strrevRound s) fuel (0, (t.length : Int) - 1, c₁)).bind _ = _
    rw [hloop]
    rfl
  · rw [h.mem, h₁.mem, hmem]
    exact swapEnds_storeAt m t [0] (by omega)

/-- `itoa` has stored the digits `ds` of the value, and `newval` has the others. -/
structure Stored (c₀ : Cells UInt8) (radix : UInt32) (value buf : Nat) (ds : List Nat) (newval : UInt32) (newbuf : Nat)
    (c : Cells UInt8) : Prop where
  digits : Nat.digits radix.toNat value = ds ++ Nat.digits radix.toNat newval.toNat
  newbuf_eq : newbuf = buf + ds.length
  mem : c.mem = storeAt c₀.mem buf (ds.map digitChar)
  within : Within c₀ c buf ds.length

section Digits

variable {radix newval : UInt32} {value buf newbuf : Nat} {ds : List Nat}

private theorem digits_next (hr : 1 < radix.toNat) (hmore : 0 < newval) :
    Nat.digits radix.toNat newval.toNat =
      (newval % radix).toNat :: Nat.digits radix.toNat (newval / radix).toNat := by
  rw [UInt32.toNat_mod, UInt32.toNat_div]
  exact Nat.digits_def' hr (UInt32.lt_iff_toNat_lt.1 hmore)

theorem Stored.round (h : Stored c₀ radix value buf ds newval newbuf c) (hr : 1 < radix.toNat) (hmore : 0 < newval) :
    Stored c₀ radix value buf (ds ++ [(newval % radix).toNat]) (newval / radix) (newbuf + 1)
      (c.store newbuf (digitChar (newval % radix).toNat)) where
  digits := by rw [h.digits, digits_next hr hmore, List.append_assoc, List.singleton_append]
  newbuf_eq := by rw [h.newbuf_eq, List.length_append, List.length_singleton, Nat.add_assoc]
  mem := by
    rw [List.map_append, List.map_singleton, storeAt_concat, List.length_map, ← h.mem, ← h.newbuf_eq]
    rfl
  within := by
    have hnewbuf := h.newbuf_eq
    rw [List.length_append, List.length_singleton]
    exact (h.within.mono le_rfl (by omega)).trans (within_store c _ (by omega))

/-- The loop stores the digits of the value, the lowest first. -/
private theorem itoaRound_loop (hr : 1 < radix.toNat) (w : UInt32) (buf : Nat) (c : Cells UInt8)
    (hfuel : (Nat.digits radix.toNat w.toNat).length < fuel) :
    ∃ newbuf c', loop (itoaRound radix) fuel (w, buf, c) = some (newbuf, c') ∧
      Stored c radix w.toNat buf (Nat.digits radix.toNat w.toNat) 0 newbuf c' := by
  have hround : ∀ p : UInt32 × Nat × Cells UInt8, (∃ ds, Stored c radix w.toNat buf ds p.1 p.2.1 p.2.2) →
      Sum.elim (fun p' => (∃ ds, Stored c radix w.toNat buf ds p'.1 p'.2.1 p'.2.2) ∧
          (Nat.digits radix.toNat p'.1.toNat).length < (Nat.digits radix.toNat p.1.toNat).length)
        (fun p' => ∃ ds, Stored c radix w.toNat buf ds 0 p'.1 p'.2) (itoaRound radix p) := by
    rintro ⟨newval, newbuf, d⟩ ⟨ds, h⟩
    by_cases hmore : 0 < newval
    · have hnext : itoaRound radix (newval, newbuf, d) =
          .inl (newval / radix, newbuf + 1, d.store newbuf (digitChar (newval % radix).toNat)) := if_pos hmore
      rw [hnext]
      refine ⟨⟨_, h.round hr hmore⟩, ?_⟩
      rw [digits_next hr hmore]
      exact Nat.lt_succ_self _
    · have hzero : newval = 0 := by simpa using hmore
      have hdone : itoaRound radix (newval, newbuf, d) = .inr (newbuf, d) := if_neg hmore
      rw [hdone]
      exact ⟨ds, hzero ▸ h⟩
  have hstart : Stored c radix w.toNat buf [] w buf c := ⟨rfl, rfl, (storeAt_nil _ _).symm, .refl _ _ _⟩
  obtain ⟨⟨newbuf, c'⟩, hloop, ds, h⟩ :=
    loop_spec (fun p : UInt32 × Nat × Cells UInt8 => (Nat.digits radix.toNat p.1.toNat).length) hround
      (s := (w, buf, c)) ⟨[], hstart⟩ hfuel
  have hds : ds = Nat.digits radix.toNat w.toNat := by
    rw [h.digits]
    simp
  exact ⟨newbuf, c', hloop, hds ▸ h⟩

/-- `itoa` stores its text with a NUL behind it, in as many bytes. -/
theorem itoa_spec {r : Nat} (hradix : radix.toNat = r) (hr : 1 < r) (h36 : r ≤ 36) (w : UInt32) (buf : Nat)
    (c : Cells UInt8) (hfuel : (BigChungOS.itoa w.toNat r).length < fuel) :
    ∃ c', itoa fuel w buf radix c = some (buf, c') ∧
      c'.mem = storeAt c.mem buf (BigChungOS.itoa w.toNat r ++ [0]) ∧
      Within c c' buf ((BigChungOS.itoa w.toNat r).length + 1) := by
  subst hradix
  by_cases hzero : w = 0
  · subst hzero
    refine ⟨(c.store buf 0x30).store (buf + 1) 0, rfl, ?_, ?_⟩
    · show Function.update (Function.update c.mem buf 0x30) (buf + 1) 0 = storeAt c.mem buf [0x30, 0]
      rw [storeAt_cons, storeAt_cons, storeAt_nil]
    · have hone : (BigChungOS.itoa (0 : UInt32).toNat radix.toNat).length = 1 := rfl
      rw [hone]
      exact (within_store c _ (by omega)).trans (within_store _ _ (by omega))
  · have hne : w.toNat ≠ 0 := fun h => hzero (UInt32.toNat_inj.1 h)
    have htext : BigChungOS.itoa w.toNat radix.toNat = ((Nat.digits radix.toNat w.toNat).map digitChar).reverse := by
      rw [itoa_eq hr w.toNat_lt, numeral, if_neg hne, List.map_reverse]
    have hbytes := zero_notMem_itoa hr h36 w.toNat_lt
    rw [htext] at hfuel hbytes ⊢
    rw [List.length_reverse] at hfuel ⊢
    rw [List.mem_reverse] at hbytes
    have hlength : ((Nat.digits radix.toNat w.toNat).map digitChar).length = (Nat.digits radix.toNat w.toNat).length :=
      List.length_map _
    obtain ⟨newbuf, c₁, hloop, h⟩ := itoaRound_loop hr w buf c (hlength ▸ hfuel)
    have hnewbuf := h.newbuf_eq
    have hstored : (c₁.store newbuf 0).mem =
        storeAt c.mem buf ((Nat.digits radix.toNat w.toNat).map digitChar ++ [0]) := by
      rw [storeAt_concat, hlength, ← h.mem, ← hnewbuf]
      rfl
    obtain ⟨c', hrev, hmem, hwithin⟩ := strrev_spec hstored hbytes hfuel
    refine ⟨c', ?_, hmem, ?_⟩
    · rw [itoa, if_neg hzero, hloop]
      exact hrev
    · have hdigits : Within c c₁ buf (((Nat.digits radix.toNat w.toNat).map digitChar).length + 1) :=
        h.within.mono le_rfl (by omega)
      exact (hdigits.trans (within_store c₁ 0 (by omega))).trans hwithin

end Digits

end Spec

/-! ### The conversions -/

/-- A conversion has come back with the text on the kernel `k`, and `conv_buf`, of `size` bytes, has been read and
written inside its bounds. -/
def Prints (size : Nat) (k : Kernel) (text : List UInt8) (r : Option (Kernel × Cells UInt8)) : Prop :=
  ∃ c, r = some (BigChungOS.puts k text, c) ∧ (∀ i ∈ c.loads, i < size) ∧ ∀ i ∈ c.stores, i < size

section Conversions

variable {fuel size : Nat} {m : Nat → UInt8} {c c' : Cells UInt8} {k : Kernel} {text : List UInt8}

/-- The string is printed at the end of the conversion. -/
private theorem prints_puts {s : Nat} (hmem : c.mem = storeAt m s (text ++ [0])) (htext : (0 : UInt8) ∉ text)
    (hbefore : Within (.fresh m) c 0 size) (hsize : s + (text.length + 1) ≤ size) (hfuel : text.length < fuel)
    (k : Kernel) : Prints size k text (do let (_, k, c) ← puts fuel s k c; some (k, c)) := by
  have hstring : IsString (fun i => c.mem (s + i)) text := by
    rw [hmem]
    exact isString_storeAt htext
  obtain ⟨c', hputs, h⟩ := puts_spec hstring k hfuel
  have hwithin : Within (.fresh m) c' 0 size := hbefore.trans (h.within.mono (Nat.zero_le _) (by omega))
  refine ⟨c', by rw [hputs]; rfl, fun i hi => ?_, fun i hi => ?_⟩
  · have hin := hwithin.fresh.1 i hi
    omega
  · have hin := hwithin.fresh.2 i hi
    omega

private theorem itoa_decimal_length (w : UInt32) : (BigChungOS.itoa w.toNat 10).length ≤ 10 :=
  itoa_length (lt_of_lt_of_le w.toNat_lt (by omega)) (by omega)

private theorem itoa_hex_length (w : UInt32) : (BigChungOS.itoa w.toNat 16).length ≤ 8 :=
  itoa_length w.toNat_lt (by omega)

/-- A number that `itoa` writes at the start of `conv_buf`. -/
private theorem itoa_prints {radix : UInt32} {r : Nat} (hradix : radix.toNat = r) (hr : 1 < r) (h36 : r ≤ 36)
    (w : UInt32) (k : Kernel) (m : Nat → UInt8) (hsize : (BigChungOS.itoa w.toNat r).length + 1 ≤ size)
    (hfuel : (BigChungOS.itoa w.toNat r).length < fuel) :
    Prints size k (BigChungOS.itoa w.toNat r)
      (do let (_, c) ← itoa fuel w 0 radix (.fresh m); let (_, k, c) ← puts fuel 0 k c; some (k, c)) := by
  obtain ⟨c, hitoa, hmem, hwithin⟩ := itoa_spec hradix hr h36 w 0 (.fresh m) hfuel
  rw [hitoa]
  exact prints_puts hmem (zero_notMem_itoa hr h36 w.toNat_lt) (hwithin.mono le_rfl (by omega)) (by omega) hfuel k

private theorem unsignedDecimal_prints (w : UInt32) (k : Kernel) (m : Nat → UInt8) (hfuel : 33 ≤ fuel) :
    Prints 36 k (BigChungOS.itoa w.toNat 10) (unsignedDecimal fuel w k (.fresh m)) := by
  have hlength := itoa_decimal_length w
  have hradix : (10 : UInt32).toNat = 10 := rfl
  exact itoa_prints hradix (by omega) (by omega) w k m (by omega) (by omega)

private theorem hexadecimal_prints (w : UInt32) (k : Kernel) (m : Nat → UInt8) (hfuel : 33 ≤ fuel) :
    Prints 64 k (hexText false w) (hexadecimal fuel false w k (.fresh m)) := by
  have hlength := itoa_hex_length w
  have hradix : (16 : UInt32).toNat = 16 := rfl
  rw [hexText_false, hexadecimal, if_pos rfl]
  exact itoa_prints hradix (by omega) (by omega) w k m (by omega) (by omega)

/-- The loop of `%#x` has stored zeros up to `i`. -/
structure Padded (c₀ : Cells UInt8) (start i : Nat) (c : Cells UInt8) : Prop where
  le : start ≤ i ∧ i ≤ 8
  mem : c.mem = storeAt c₀.mem start (List.replicate (i - start) 0x30)
  within : Within c₀ c 0 8

theorem Padded.round {start i : Nat} (h : Padded c start i c') (hmore : i < 8) :
    Padded c start (i + 1) (c'.store i 0x30) where
  le := by
    have hle := h.le
    omega
  mem := by
    have hle := h.le
    have hcount : i + 1 - start = i - start + 1 := by omega
    have hplace : start + (i - start) = i := by omega
    rw [hcount, List.replicate_succ', storeAt_concat, List.length_replicate, hplace, ← h.mem]
    rfl
  within := h.within.trans (within_store c' _ (by omega))

private theorem padRound_loop {start : Nat} (c : Cells UInt8) (hstart : start ≤ 8) (hfuel : 8 < fuel) :
    ∃ c', loop padRound fuel (start, c) = some c' ∧ Padded c start 8 c' := by
  have hround : ∀ p : Nat × Cells UInt8, Padded c start p.1 p.2 →
      Sum.elim (fun p' => Padded c start p'.1 p'.2 ∧ 8 - p'.1 < 8 - p.1) (fun d => Padded c start 8 d)
        (padRound p) := by
    rintro ⟨i, d⟩ h
    by_cases hmore : i < 8
    · have hnext : padRound (i, d) = .inl (i + 1, d.store i 0x30) := if_pos hmore
      rw [hnext]
      exact ⟨h.round hmore, Nat.sub_lt_sub_left hmore (Nat.lt_succ_self i)⟩
    · have hdone : padRound (i, d) = .inr d := if_neg hmore
      have hi : i = 8 := le_antisymm h.le.2 (Nat.not_lt.1 hmore)
      rw [hdone]
      exact hi ▸ h
  have hzero : Padded c start start c := by
    refine ⟨⟨le_rfl, hstart⟩, ?_, .refl _ _ _⟩
    rw [Nat.sub_self, List.replicate_zero, storeAt_nil]
  exact loop_spec (fun p : Nat × Cells UInt8 => 8 - p.1) hround (s := (start, c)) hzero (by dsimp only; omega)

private theorem hexadecimal_alternate_prints (w : UInt32) (k : Kernel) (m : Nat → UInt8) (hfuel : 33 ≤ fuel) :
    Prints 64 k (hexText true w) (hexadecimal fuel true w k (.fresh m)) := by
  have hlength := itoa_hex_length w
  have hradix : (16 : UInt32).toNat = 16 := rfl
  have hfuel' : (BigChungOS.itoa w.toNat 16).length < fuel := by omega
  obtain ⟨c, hitoa, hmem, hwithin⟩ := itoa_spec hradix (by omega) (by omega) w 8 (.fresh m) hfuel'
  have hbytes : (0 : UInt8) ∉ BigChungOS.itoa w.toNat 16 := zero_notMem_itoa (by omega) (by omega) w.toNat_lt
  have hstring : IsString (fun i => c.mem (8 + i)) (BigChungOS.itoa w.toNat 16) := by
    rw [hmem]
    exact isString_storeAt hbytes
  obtain ⟨c₁, hstrlen, h₁⟩ := strlen_spec hstring hfuel'
  obtain ⟨c₂, hpad, h₂⟩ := padRound_loop c₁ hlength (by omega : 8 < fuel)
  let zeros : List UInt8 := List.replicate (8 - (BigChungOS.itoa w.toNat 16).length) 0x30
  have hpadded : hexText true w = zeros ++ BigChungOS.itoa w.toNat 16 := rfl
  have hzeros : (BigChungOS.itoa w.toNat 16).length + zeros.length = 8 := by
    rw [List.length_replicate]
    omega
  have htext : c₂.mem = storeAt m (BigChungOS.itoa w.toNat 16).length (hexText true w ++ [0]) := by
    have hfront := storeAt_front m (BigChungOS.itoa w.toNat 16).length zeros (BigChungOS.itoa w.toNat 16 ++ [0])
    rw [hzeros] at hfront
    rw [h₂.mem, h₁.mem, hmem, hpadded, List.append_assoc]
    exact hfront
  have hzero : (0 : UInt8) ∉ hexText true w := by
    rw [hpadded, List.mem_append, not_or]
    exact ⟨fun h => absurd (List.eq_of_mem_replicate h) (by decide), hbytes⟩
  have hbefore : Within (.fresh m) c₂ 0 64 :=
    ((hwithin.mono (Nat.zero_le _) (by omega)).trans (h₁.within.mono (Nat.zero_le _) (by omega))).trans
      (h₂.within.mono le_rfl (by omega))
  have hprints := prints_puts htext hzero hbefore (by rw [hexText_alternate]; omega)
    (by rw [hexText_alternate]; omega : (hexText true w).length < fuel) k
  rw [hexadecimal, if_neg (by decide), hitoa]
  show Prints 64 k (hexText true w) ((strlen fuel 8 c).bind _)
  rw [hstrlen]
  show Prints 64 k (hexText true w) ((loop padRound fuel ((BigChungOS.itoa w.toNat 16).length, c₁)).bind _)
  rw [hpad]
  exact hprints

/-- The argument of `itoa` in `%d` is the absolute value, for the least value too. -/
private theorem toNat_negated {x : Int} (hx : -2147483648 ≤ x) (hneg : x < 0) :
    (UInt32.ofNat (toUInt32 (toInt32 (-x)))).toNat = x.natAbs := by
  have hnat : toUInt32 (toInt32 (-x)) = x.natAbs := by
    unfold toUInt32 toInt32
    omega
  rw [hnat]
  exact UInt32.toNat_ofNat_of_lt' (show _ < 4294967296 by omega)

private theorem toNat_nonneg {x : Int} (hx : x < 2147483648) (hnonneg : 0 ≤ x) :
    (UInt32.ofNat (toUInt32 x)).toNat = x.natAbs := by
  have hnat : toUInt32 x = x.natAbs := by
    unfold toUInt32
    omega
  rw [hnat]
  exact UInt32.toNat_ofNat_of_lt' (show _ < 4294967296 by omega)

private theorem signedDecimal_prints (w : UInt32) (k : Kernel) (m : Nat → UInt8) (hfuel : 33 ≤ fuel) :
    Prints 36 k (signedText w) (signedDecimal fuel w k (.fresh m)) := by
  have hw := toInt32_lt w.toNat
  have hradix : (10 : UInt32).toNat = 10 := rfl
  have hlength : (BigChungOS.itoa (toInt32 w.toNat).natAbs 10).length ≤ 10 := itoa_length (by omega) (by omega)
  have hbytes : (0 : UInt8) ∉ BigChungOS.itoa (toInt32 w.toNat).natAbs 10 :=
    zero_notMem_itoa (by omega) (by omega) (by omega)
  rw [signedText_eq]
  unfold signedDecimal
  dsimp only
  by_cases hneg : toInt32 w.toNat < 0
  · have harg := toNat_negated hw.1 hneg
    rw [if_pos hneg, if_pos hneg]
    generalize UInt32.ofNat (toUInt32 (toInt32 (-toInt32 w.toNat))) = arg at harg ⊢
    rw [← harg] at hlength hbytes ⊢
    have hfuel' : (BigChungOS.itoa arg.toNat 10).length < fuel := by omega
    obtain ⟨c, hitoa, hmem, hwithin⟩ :=
      itoa_spec hradix (by omega) (by omega) arg 1 ((Cells.fresh m).store 0 0x2D) hfuel'
    have htext : c.mem = storeAt m 0 (0x2D :: BigChungOS.itoa arg.toNat 10 ++ [0]) := by
      rw [hmem, List.cons_append, storeAt_cons]
      rfl
    have hzero : (0 : UInt8) ∉ 0x2D :: BigChungOS.itoa arg.toNat 10 := by
      rw [List.mem_cons, not_or]
      exact ⟨by decide, hbytes⟩
    have hbefore : Within (.fresh m) c 0 36 :=
      (within_store _ _ (by omega)).trans (hwithin.mono (Nat.zero_le _) (by omega))
    rw [hitoa]
    exact prints_puts htext hzero hbefore (by rw [List.length_cons]; omega) (by rw [List.length_cons]; omega) k
  · have harg := toNat_nonneg hw.2 (Int.not_lt.1 hneg)
    rw [if_neg hneg, if_neg hneg]
    generalize UInt32.ofNat (toUInt32 (toInt32 w.toNat)) = arg at harg ⊢
    rw [← harg] at hlength ⊢
    exact itoa_prints hradix (by omega) (by omega) arg k m (by omega) (by omega)

end Conversions

end ConvBuf

/-! ### What the texts denote -/

/-- The text of a number with its sign: a `-` in front of the numeral if the number is below zero. -/
structure DenotesSigned (x : Int) (text : List UInt8) : Prop where
  neg : x < 0 → ∃ digits, text = 0x2D :: digits ∧ IsNumeral 10 x.natAbs (digits.map digitOf)
  nonneg : 0 ≤ x → IsNumeral 10 x.natAbs (text.map digitOf)

theorem itoa_isNumeral {radix value : Nat} (hr : 1 < radix) (h36 : radix ≤ 36) (hv : value < 4294967296) :
    IsNumeral radix value ((itoa value radix).map digitOf) := (isNumeral_text_iff hr h36 hv _).2 rfl

/-- The digits of `%#x`. -/
private theorem hexText_denotes (w : UInt32) : Denotes 16 w.toNat ((hexText true w).map digitOf) := by
  have hnumeral : IsNumeral 16 w.toNat ((itoa w.toNat 16).map digitOf) :=
    itoa_isNumeral (by omega) (by omega) w.toNat_lt
  have hpadded : hexText true w = List.replicate (8 - (itoa w.toNat 16).length) 0x30 ++ itoa w.toNat 16 := rfl
  have hzero : digitOf 0x30 = 0 := by decide
  rw [hpadded, List.map_append, List.map_replicate, hzero]
  exact hnumeral.toDenotes.pad (by omega) _

private theorem signedText_denotes (w : UInt32) : DenotesSigned (toInt32 w.toNat) (signedText w) := by
  have hw := toInt32_lt w.toNat
  have hnumeral : IsNumeral 10 (toInt32 w.toNat).natAbs ((itoa (toInt32 w.toNat).natAbs 10).map digitOf) :=
    itoa_isNumeral (by omega) (by omega) (by omega)
  rw [signedText_eq]
  constructor
  · intro hneg
    rw [if_pos hneg]
    exact ⟨_, rfl, hnumeral⟩
  · intro hnonneg
    rw [if_neg (Int.not_lt.2 hnonneg)]
    exact hnumeral

/-- Number conversion is exact.  With a buffer of 33 bytes `itoa` leaves the numeral of the value in the radix there,
with a NUL behind it, and touches nothing else.  The conversions of `printf` stay inside `conv_buf`, whatever was in it,
and print texts that denote their argument: `%u` and `%x` its numeral, `%#x` eight digits, and `%d` the text of the
argument as a signed number.  No loop takes more than 33 rounds. -/
theorem number_conversion_exact :
    (∀ (value radix : UInt32) (buf fuel : Nat) (c : Cells UInt8), 2 ≤ radix.toNat → radix.toNat ≤ 36 → 33 ≤ fuel →
      ∃ text c', ConvBuf.itoa fuel value buf radix c = some (buf, c') ∧
        IsNumeral radix.toNat value.toNat (text.map digitOf) ∧ IsString (fun i => c'.mem (buf + i)) text ∧
        Within c c' buf 33 ∧ SameOutside c.mem c'.mem buf 33) ∧
    ∀ (w : UInt32) (k : Kernel) (m : Nat → UInt8) (fuel : Nat), 33 ≤ fuel →
      (ConvBuf.Prints 36 k (itoa w.toNat 10) (ConvBuf.unsignedDecimal fuel w k (.fresh m)) ∧
        IsNumeral 10 w.toNat ((itoa w.toNat 10).map digitOf)) ∧
      (ConvBuf.Prints 64 k (hexText false w) (ConvBuf.hexadecimal fuel false w k (.fresh m)) ∧
        IsNumeral 16 w.toNat ((hexText false w).map digitOf)) ∧
      (ConvBuf.Prints 64 k (hexText true w) (ConvBuf.hexadecimal fuel true w k (.fresh m)) ∧
        (hexText true w).length = 8 ∧ Denotes 16 w.toNat ((hexText true w).map digitOf)) ∧
      (ConvBuf.Prints 36 k (signedText w) (ConvBuf.signedDecimal fuel w k (.fresh m)) ∧
        DenotesSigned (toInt32 w.toNat) (signedText w)) := by
  constructor
  · intro value radix buf fuel c hr h36 hfuel
    have hlength : (itoa value.toNat radix.toNat).length ≤ 32 :=
      itoa_length (lt_of_lt_of_le value.toNat_lt (Nat.pow_le_pow_left hr 32)) (by omega)
    have hfuel' : (itoa value.toNat radix.toNat).length < fuel := by omega
    obtain ⟨c', hitoa, hmem, hwithin⟩ := ConvBuf.itoa_spec rfl hr h36 value buf c hfuel'
    refine ⟨_, c', hitoa, itoa_isNumeral hr h36 value.toNat_lt, ?_, hwithin.mono le_rfl (by omega), ?_⟩
    · rw [hmem]
      exact ConvBuf.isString_storeAt (zero_notMem_itoa hr h36 value.toNat_lt)
    · rw [hmem]
      refine (sameOutside_storeAt _ _ _).mono le_rfl ?_
      rw [List.length_append, List.length_singleton]
      omega
  · intro w k m fuel hfuel
    have hhex : IsNumeral 16 w.toNat ((hexText false w).map digitOf) := by
      rw [hexText_false]
      exact itoa_isNumeral (by omega) (by omega) w.toNat_lt
    exact ⟨⟨ConvBuf.unsignedDecimal_prints w k m hfuel, itoa_isNumeral (by omega) (by omega) w.toNat_lt⟩,
      ⟨ConvBuf.hexadecimal_prints w k m hfuel, hhex⟩,
      ⟨ConvBuf.hexadecimal_alternate_prints w k m hfuel, hexText_alternate w, hexText_denotes w⟩,
      ConvBuf.signedDecimal_prints w k m hfuel, signedText_denotes w⟩

/-- The least `int32_t`, and a value with a radix of its own. -/
theorem number_conversion_least :
    (∃ text c', ConvBuf.itoa 33 1679615 5 36 (.fresh fun _ => 0xAA) = some (5, c') ∧
      IsString (fun i => c'.mem (5 + i)) text ∧ SameOutside (fun _ => 0xAA) c'.mem 5 33) ∧
    ConvBuf.Prints 36 (entry shellBoot) (asBytes "-2147483648")
      (ConvBuf.signedDecimal 33 0x80000000 (entry shellBoot) (.fresh fun _ => 0xAA)) := by
  obtain ⟨hitoa, hconvert⟩ := number_conversion_exact
  obtain ⟨text, c', hrun, -, hstring, -, hsame⟩ :=
    hitoa 1679615 36 5 33 (.fresh fun _ => 0xAA) (by decide) (by decide) le_rfl
  have hsigned := (hconvert 0x80000000 (entry shellBoot) (fun _ => 0xAA) 33 le_rfl).2.2.2.1
  have hleast : toInt32 (0x80000000 : UInt32).toNat = -2147483648 := by decide
  have htext : signedText 0x80000000 = asBytes "-2147483648" := by
    rw [signedText_eq, hleast]
    decide +kernel
  rw [htext] at hsigned
  exact ⟨⟨text, c', hrun, hstring, hsame⟩, hsigned⟩

end BigChungOS
