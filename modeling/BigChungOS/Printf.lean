import BigChungOS.NameLookup

/-!
# `printf`

`printf` goes through its format with one pointer, which three places advance: the end of the loop, the character `%`,
and each `#` behind it.  The NUL is looked for at the head of the loop only.  A format that ends inside a conversion
takes the pointer past it: the inner `switch` finds the NUL, prints nothing, and the loop goes on behind the string
(`printf_ok_iff`).

A format is taken apart into its `pieces`, the single characters and the conversions, and `Complete` says that these are
all of it.  Of such a format `printf` prints what its pieces stand for (`printf_prints`).
-/

namespace BigChungOS

open Memory Transition

/-! ### Conversions -/

def percent : UInt8 := 0x25
def hash : UInt8 := 0x23

/-- The conversions that pop an argument: `%x`, `%u`, `%d`, `%c` and `%s`. -/
def popsArgument (c : UInt8) : Bool :=
  c = 'x'.toUInt8 ∨ c = 'u'.toUInt8 ∨ c = 'd'.toUInt8 ∨ c = 'c'.toUInt8 ∨ c = 's'.toUInt8

/-- `%x`: with `#` the number is padded to 8 digits. -/
def hexText (alternate : Bool) (w : UInt32) : List UInt8 :=
  let digits := itoa w.toNat 16
  if alternate then List.replicate (8 - digits.length) 0x30 ++ digits else digits

private theorem itoaDigits_length {radix n newval : Nat} (h : newval < radix ^ n) (fuel : Nat) (buf : List UInt8) :
    (itoaDigits radix fuel newval buf).length ≤ n + buf.length := by
  induction fuel generalizing n newval buf with
  | zero => exact Nat.le_add_left _ _
  | succ fuel ih =>
    rw [itoaDigits]
    split
    · exact Nat.le_add_left _ _
    · next hne =>
      cases n with
      | zero =>
        rw [Nat.pow_zero] at h
        omega
      | succ n =>
        have hrest : newval / radix < radix ^ n := Nat.div_lt_of_lt_mul (by rwa [Nat.pow_succ, Nat.mul_comm] at h)
        have hdigits := ih hrest ((asBytes "0123456789ABCDEFGHIJKLMNOPQRSTUVWXYZ").getD (newval % radix) 0 :: buf)
        rw [List.length_cons] at hdigits
        omega

theorem itoa_length {radix n value : Nat} (h : value < radix ^ n) (hn : 1 ≤ n) : (itoa value radix).length ≤ n := by
  unfold itoa
  split
  · exact hn
  · exact itoaDigits_length h 32 []

/-- `%#x` always prints 8 digits. -/
theorem hexText_alternate (w : UInt32) : (hexText true w).length = 8 := by
  have hdigits : (itoa w.toNat 16).length ≤ 8 := itoa_length w.toNat_lt (by omega)
  unfold hexText
  rw [if_pos rfl, List.length_append, List.length_replicate]
  omega

/-- `%d`. -/
def signedText (w : UInt32) : List UInt8 :=
  let value := toInt32 w.toNat
  if value < 0 then 0x2D :: itoa (toUInt32 (-value)) 10 else itoa value.toNat 10

/-! ### The loop -/

/-- Where `printf` is: at the head of its loop, at `format_char_switch` with the value of `alternate`, or back with a
result. -/
inductive PrintfPhase
  | loop
  | formatCharSwitch (alternate : Bool)
  | returned (result : Nat)

/-- The local variables of `printf`, as offsets from the format and from the first argument, the kernel it prints on,
and the offsets that have been read. -/
structure Printf where
  phase : PrintfPhase
  buf : Nat
  esp : Nat
  kernel : Kernel
  reads : List Nat
  argReads : List Nat

/-- The call. -/
def Printf.start (k : Kernel) : Printf := ⟨.loop, 0, 0, k, [], []⟩

section Step

variable (args : Nat → UInt32) (text : UInt32 → List UInt8)

/-- An argument has been read, and what has been printed of it has led to the kernel `k`. -/
def Printf.popped (p : Printf) (k : Kernel) : Printf :=
  { p with kernel := k, esp := p.esp + 1, argReads := p.argReads ++ [p.esp] }

/-- The inner `switch`, but for the case of `#`.  Unknown conversions print nothing. -/
def conversion (alternate : Bool) (c : UInt8) (p : Printf) : Printf :=
  let w := args p.esp
  if c = percent then { p with kernel := putc p.kernel percent }
  else if c = 'x'.toUInt8 then p.popped (puts p.kernel (hexText alternate w))
  else if c = 'u'.toUInt8 then p.popped (puts p.kernel (itoa w.toNat 10))
  else if c = 'd'.toUInt8 then p.popped (puts p.kernel (signedText w))
  else if c = 'c'.toUInt8 then p.popped (putc p.kernel w.toUInt8)
  else if c = 's'.toUInt8 then p.popped (puts p.kernel (text w))
  else p

/-- One character of the format: the memory from it on is `format`, the words behind it on the stack are `args`, and
`text` is the string at each address. -/
def printfStep (format : Nat → UInt8) (p : Printf) : Printf :=
  let c := format p.buf
  let q := { p with reads := p.reads ++ [p.buf] }
  match p.phase with
  | .returned _ => p
  | .loop =>
    if c = 0 then { q with phase := .returned p.buf }
    else if c = percent then { q with phase := .formatCharSwitch false, buf := p.buf + 1 }
    else { q with kernel := putc p.kernel c, buf := p.buf + 1 }
  | .formatCharSwitch alternate =>
    if c = hash then { q with phase := .formatCharSwitch true, buf := p.buf + 1 }
    else { conversion args text alternate c q with phase := .loop, buf := p.buf + 1 }

end Step

/-! ### Formats -/

/-- A piece of a format: a character that is printed as it is, or a conversion, with the number of `#` in it. -/
inductive Piece
  | char (c : UInt8)
  | conv (sharps : Nat) (c : UInt8)

namespace Piece

/-- How a piece is written. -/
def spelling : Piece → List UInt8
  | .char c => [c]
  | .conv sharps c => percent :: List.replicate sharps hash ++ [c]

def popsArgument : Piece → Bool
  | .char _ => false
  | .conv _ c => BigChungOS.popsArgument c

/-- What a piece stands for, when `w` is the next argument. -/
def output (text : UInt32 → List UInt8) (w : UInt32) : Piece → List UInt8
  | .char c => [c]
  | .conv sharps c =>
    if c = percent then [percent]
    else if c = 'x'.toUInt8 then hexText (0 < sharps) w
    else if c = 'u'.toUInt8 then itoa w.toNat 10
    else if c = 'd'.toUInt8 then signedText w
    else if c = 'c'.toUInt8 then [w.toUInt8]
    else if c = 's'.toUInt8 then text w
    else []

end Piece

/-- The pieces of the rest of a format, at the start of a piece, or in a conversion after some `#`.  A conversion that
does not come to its end is left out. -/
def piecesFrom : Option Nat → List UInt8 → List Piece
  | _, [] => []
  | none, c :: s => if c = percent then piecesFrom (some 0) s else .char c :: piecesFrom none s
  | some sharps, c :: s =>
    if c = hash then piecesFrom (some (sharps + 1)) s else .conv sharps c :: piecesFrom none s

def pieces (s : List UInt8) : List Piece := piecesFrom none s

/-- The arguments that a format needs: one for each `%x`, `%#x`, `%u`, `%d`, `%c` and `%s`. -/
def argCount (s : List UInt8) : Nat := (pieces s).countP Piece.popsArgument

/-- The pieces are the whole format: it does not end inside a conversion. -/
def Complete (s : List UInt8) : Prop := (pieces s).flatMap Piece.spelling = s

instance (s : List UInt8) : Decidable (Complete s) := inferInstanceAs (Decidable (_ = _))

/-- `printf` comes back with the length of the format.  It has read nothing behind the NUL, and of the arguments those
that the format needs, each once. -/
def PrintfOk (format : Nat → UInt8) (args : Nat → UInt32) (text : UInt32 → List UInt8) (k : Kernel) (s : List UInt8) :
    Prop :=
  ∃ n, let p := (printfStep args text format)^[n] (Printf.start k)
    p.phase = .returned s.length ∧ (∀ i ∈ p.reads, i ≤ s.length) ∧ p.argReads = List.range (argCount s)

example : Complete (asBytes "0x%#x %% %d") ∧ argCount (asBytes "0x%#x %% %d") = 2 := by decide

/-! ### Pieces -/

/-- The piece a character belongs to, after it. -/
def nextPiece (c : UInt8) : Option Nat → Option Nat
  | none => if c = percent then some 0 else none
  | some sharps => if c = hash then some (sharps + 1) else none

/-- What has been read of the piece. -/
def openSpelling : Option Nat → List UInt8
  | none => []
  | some sharps => percent :: List.replicate sharps hash

private theorem piecesFrom_cons (m : Option Nat) (c : UInt8) (s : List UInt8) :
    piecesFrom m (c :: s) = piecesFrom m [c] ++ piecesFrom (nextPiece c m) s := by
  cases m with
  | none =>
    unfold nextPiece
    rw [piecesFrom, piecesFrom]
    split <;> simp [piecesFrom]
  | some sharps =>
    unfold nextPiece
    rw [piecesFrom, piecesFrom]
    split <;> simp [piecesFrom]

private theorem openSpelling_next (m : Option Nat) (c : UInt8) :
    openSpelling m ++ [c] = (piecesFrom m [c]).flatMap Piece.spelling ++ openSpelling (nextPiece c m) := by
  cases m with
  | none =>
    by_cases hc : c = percent
    · simp [piecesFrom, nextPiece, openSpelling, hc]
    · simp [piecesFrom, nextPiece, openSpelling, hc, Piece.spelling]
  | some sharps =>
    by_cases hc : c = hash
    · simp [piecesFrom, nextPiece, openSpelling, hc, List.replicate_succ']
    · simp [piecesFrom, nextPiece, openSpelling, hc, Piece.spelling]

/-- The pieces and what is left of an unfinished one are the format. -/
private theorem piecesFrom_spelling (m : Option Nat) (s : List UInt8) :
    openSpelling m ++ s =
      (piecesFrom m s).flatMap Piece.spelling ++ openSpelling (s.foldl (fun m c => nextPiece c m) m) := by
  induction s generalizing m with
  | nil => simp [piecesFrom]
  | cons c s ih =>
    rw [piecesFrom_cons, List.flatMap_append, List.append_assoc, List.foldl_cons, ← ih, ← List.append_assoc,
      ← openSpelling_next, List.append_assoc, List.singleton_append]

/-- The state of the parsing at the end of a format. -/
def endPiece (s : List UInt8) : Option Nat := s.foldl (fun m c => nextPiece c m) none

private theorem complete_iff (s : List UInt8) : Complete s ↔ endPiece s = none := by
  have hspelling := piecesFrom_spelling none s
  unfold Complete pieces endPiece
  generalize s.foldl (fun m c => nextPiece c m) none = m at hspelling ⊢
  rw [openSpelling, List.nil_append] at hspelling
  constructor
  · intro h
    rw [h] at hspelling
    cases m with
    | none => rfl
    | some sharps => simp [openSpelling] at hspelling
  · rintro rfl
    simpa [openSpelling] using hspelling.symm

/-! ### The run -/

/-- What the pieces of a format stand for, the next argument being number `e`. -/
def render (args : Nat → UInt32) (text : UInt32 → List UInt8) : Nat → List Piece → List UInt8
  | _, [] => []
  | e, q :: qs => q.output text (args e) ++ render args text (e + if q.popsArgument then 1 else 0) qs

section Run

variable {args : Nat → UInt32} {text : UInt32 → List UInt8} {format : Nat → UInt8} {s : List UInt8} {k : Kernel}

private theorem render_append (e : Nat) (qs rs : List Piece) :
    render args text e (qs ++ rs) =
      render args text e qs ++ render args text (e + qs.countP Piece.popsArgument) rs := by
  induction qs generalizing e with
  | nil => simp [render]
  | cons q qs ih =>
    have hcount : e + (if q.popsArgument then 1 else 0) + qs.countP Piece.popsArgument =
        e + (q :: qs).countP Piece.popsArgument := by
      rw [List.countP_cons]
      omega
    rw [List.cons_append, render, render, ih, hcount, List.append_assoc]

/-- The place in `printf` for a place in the format. -/
def phaseOf : Option Nat → PrintfPhase
  | none => .loop
  | some sharps => .formatCharSwitch (0 < sharps)

variable (args text) in
/-- After the characters `s` have been read from `p` on. -/
def scanned (p : Printf) (m : Option Nat) (s : List UInt8) : Printf where
  phase := phaseOf (s.foldl (fun m c => nextPiece c m) m)
  buf := p.buf + s.length
  esp := p.esp + (piecesFrom m s).countP Piece.popsArgument
  kernel := puts p.kernel (render args text p.esp (piecesFrom m s))
  reads := p.reads ++ List.range' p.buf s.length
  argReads := p.argReads ++ List.range' p.esp ((piecesFrom m s).countP Piece.popsArgument)

private theorem scanned_cons (p : Printf) (m : Option Nat) (c : UInt8) (s : List UInt8) :
    scanned args text (scanned args text p m [c]) (nextPiece c m) s = scanned args text p m (c :: s) := by
  have hpieces := piecesFrom_cons m c s
  have hcount := congrArg (List.countP Piece.popsArgument) hpieces
  rw [List.countP_append] at hcount
  unfold scanned
  rw [hcount, hpieces, render_append]
  simp only [puts_append, List.length_cons, List.length_nil, List.append_assoc, Printf.mk.injEq]
  refine ⟨rfl, by omega, by omega, trivial, ?_, ?_⟩
  · rw [List.range'_append_1, Nat.add_comm]
  · rw [List.range'_append_1]

/-- The inner `switch` prints what the conversion stands for, and reads its argument. -/
private theorem conversion_eq (sharps : Nat) (c : UInt8) (p : Printf) :
    conversion args text (0 < sharps) c p =
      { p with
        kernel := puts p.kernel ((Piece.conv sharps c).output text (args p.esp))
        esp := p.esp + if popsArgument c then 1 else 0
        argReads := p.argReads ++ List.range' p.esp (if popsArgument c then 1 else 0) } := by
  by_cases hpops : popsArgument c = true
  · rw [if_pos hpops]
    simp only [popsArgument, decide_eq_true_eq] at hpops
    rcases hpops with rfl | rfl | rfl | rfl | rfl
    · simp +decide [conversion, Piece.output, Printf.popped]
    · simp +decide [conversion, Piece.output, Printf.popped]
    · simp +decide [conversion, Piece.output, Printf.popped]
    · simp +decide [conversion, Piece.output, Printf.popped]
      rfl
    · simp +decide [conversion, Piece.output, Printf.popped]
  · rw [if_neg hpops]
    simp only [popsArgument, decide_eq_true_eq, not_or] at hpops
    obtain ⟨hx, hu, hd, hchar, hs⟩ := hpops
    unfold conversion Piece.output
    simp only [hx, hu, hd, hchar, hs, if_false]
    by_cases hpercent : c = percent <;> simp [hpercent, puts]

/-- One character. -/
private theorem printfStep_eq {p : Printf} {m : Option Nat} {c : UInt8} (hphase : p.phase = phaseOf m)
    (hc : format p.buf = c) (hnul : c ≠ 0) : printfStep args text format p = scanned args text p m [c] := by
  cases m with
  | none =>
    by_cases hpercent : c = percent
    · subst hpercent
      have hpieces : piecesFrom none [percent] = [] := rfl
      have hnext : nextPiece percent none = some 0 := rfl
      simp [printfStep, scanned, hphase, phaseOf, hc, hnul, hpieces, hnext, render, puts]
    · have hpieces : piecesFrom none [c] = [.char c] := by simp [piecesFrom, hpercent]
      have hnext : nextPiece c none = none := if_neg hpercent
      simp [printfStep, scanned, hphase, phaseOf, hc, hnul, hpercent, hpieces, hnext, render, puts, Piece.output,
        Piece.popsArgument]
  | some sharps =>
    by_cases hhash : c = hash
    · subst hhash
      have hpieces : piecesFrom (some sharps) [hash] = [] := rfl
      have hnext : nextPiece hash (some sharps) = some (sharps + 1) := rfl
      simp [printfStep, scanned, hphase, phaseOf, hc, hpieces, hnext, render, puts]
    · have hpieces : piecesFrom (some sharps) [c] = [.conv sharps c] := by simp [piecesFrom, hhash]
      have hnext : nextPiece c (some sharps) = none := if_neg hhash
      simp only [printfStep, scanned, hphase, phaseOf, hc, hhash, hpieces, hnext, conversion_eq, List.foldl_cons,
        List.foldl_nil, List.countP_singleton, if_false]
      simp [render, Piece.popsArgument]
      rfl

/-- The characters of a format, one after the other. -/
private theorem iterate_scanned {p : Printf} {m : Option Nat} (hphase : p.phase = phaseOf m)
    (hformat : ∀ i c, s[i]? = some c → format (p.buf + i) = c ∧ c ≠ 0) :
    (printfStep args text format)^[s.length] p = scanned args text p m s := by
  induction s generalizing p m with
  | nil =>
    simp [scanned, ← hphase, piecesFrom, render, puts]
  | cons c s ih =>
    obtain ⟨hc, hnul⟩ := hformat 0 c rfl
    rw [List.length_cons, Function.iterate_succ_apply, printfStep_eq hphase hc hnul, ← scanned_cons p m c s]
    have hnext : (scanned args text p m [c]).phase = phaseOf (nextPiece c m) := rfl
    refine ih hnext fun i c' hi => ?_
    have hbuf : (scanned args text p m [c]).buf + i = p.buf + (i + 1) := by
      rw [Nat.add_comm i 1, ← Nat.add_assoc]
      rfl
    rw [hbuf]
    exact hformat (i + 1) c' hi

/-- At the NUL. -/
def atNul (args : Nat → UInt32) (text : UInt32 → List UInt8) (k : Kernel) (s : List UInt8) : Printf :=
  scanned args text (.start k) none s

private theorem printf_atNul (hs : IsString format s) :
    (printfStep args text format)^[s.length] (.start k) = atNul args text k s := by
  refine iterate_scanned rfl fun i c hi => ?_
  have hlt : i < s.length := (List.getElem?_eq_some_iff.1 hi).1
  have hspelled := hs.spelled i (by omega)
  rw [cString, List.getD_eq_getElem?_getD, hi, Option.getD_some] at hspelled
  refine ⟨?_, ?_⟩
  · show format (0 + i) = c
    rw [Nat.zero_add]
    exact hspelled
  · rintro rfl
    exact hs.bytes (List.mem_of_getElem? hi)

theorem IsString.nul (hs : IsString format s) : format s.length = 0 := by
  rw [hs.spelled _ le_rfl]
  simp [cString]

/-- The end of a complete format. -/
private theorem printf_returns (hs : IsString format s) (h : Complete s) :
    (printfStep args text format)^[s.length + 1] (.start k) =
      { atNul args text k s with phase := .returned s.length, reads := List.range (s.length + 1) } := by
  have hend : s.foldl (fun m c => nextPiece c m) none = none := (complete_iff s).1 h
  have hphase : (atNul args text k s).phase = .loop := congrArg phaseOf hend
  have hbuf : (atNul args text k s).buf = s.length := Nat.zero_add _
  have hreads : (atNul args text k s).reads = List.range' 0 s.length := List.nil_append _
  rw [Function.iterate_succ_apply', printf_atNul hs]
  unfold printfStep
  simp only [hphase, hbuf, hreads, hs.nul, if_true]
  rw [List.range_succ, List.range_eq_range']

private theorem conversion_reads (alternate : Bool) (c : UInt8) (p : Printf) :
    (conversion args text alternate c p).reads = p.reads := by
  unfold conversion
  split_ifs <;> rfl

private theorem printfStep_returned {p : Printf} {r : Nat} (h : p.phase = .returned r) :
    printfStep args text format p = p := by
  unfold printfStep
  rw [h]

/-- Until the call is over, each step reads the character it looks at. -/
private theorem printfStep_reads {p : Printf} (h : ∀ r, p.phase ≠ .returned r) :
    (printfStep args text format p).reads = p.reads ++ [p.buf] := by
  unfold printfStep
  cases hphase : p.phase with
  | returned r => exact absurd hphase (h r)
  | loop =>
    dsimp only
    split_ifs <;> rfl
  | formatCharSwitch alternate =>
    dsimp only
    split_ifs
    · rfl
    · exact conversion_reads _ _ _

private theorem mem_reads_step {p : Printf} {i : Nat} (h : i ∈ p.reads) :
    i ∈ (printfStep args text format p).reads := by
  by_cases hreturned : ∃ r, p.phase = .returned r
  · obtain ⟨r, hr⟩ := hreturned
    rwa [printfStep_returned hr]
  · rw [printfStep_reads fun r hr => hreturned ⟨r, hr⟩]
    exact List.mem_append_left _ h

/-- A format that ends inside a conversion is left behind. -/
private theorem printf_runs_over (hs : IsString format s) (h : ¬Complete s) :
    s.length + 1 ∈ ((printfStep args text format)^[s.length + 2] (.start k)).reads := by
  rw [complete_iff] at h
  obtain ⟨sharps, hend⟩ := Option.ne_none_iff_exists'.1 h
  have hphase : (atNul args text k s).phase = .formatCharSwitch (0 < sharps) := congrArg phaseOf hend
  have hbuf : (atNul args text k s).buf = s.length := Nat.zero_add _
  have hhash : (0 : UInt8) ≠ hash := by decide
  -- the inner `switch` does not know the NUL, and the pointer goes past it
  obtain ⟨hloop, hpast⟩ : (printfStep args text format (atNul args text k s)).phase = .loop ∧
      (printfStep args text format (atNul args text k s)).buf = s.length + 1 := by
    simp [printfStep, hphase, hbuf, hs.nul, hhash]
  rw [Function.iterate_succ_apply', Function.iterate_succ_apply', printf_atNul hs, printfStep_reads, hpast]
  · exact List.mem_append_right _ (List.mem_singleton_self _)
  · rw [hloop]
    rintro r ⟨⟩

private theorem not_printfOk (hs : IsString format s) (h : ¬Complete s) : ¬PrintfOk format args text k s := by
  rintro ⟨n, hreturned, hinside, -⟩
  have hover : s.length + 1 ∈ ((printfStep args text format)^[s.length + 2] (.start k)).reads := printf_runs_over hs h
  -- the read behind the NUL is in the record from then on, and the result is the last state
  have hlater : s.length + 1 ∈ ((printfStep args text format)^[n + (s.length + 2)] (.start k)).reads := by
    rw [Function.iterate_add_apply]
    exact iterate_invariant (I := fun p : Printf => s.length + 1 ∈ p.reads) (fun _ hp => mem_reads_step hp) hover n
  rw [iterate_eq_of_fixed (printfStep_returned hreturned) (Nat.le_add_right _ _)] at hlater
  have hle := hinside _ hlater
  omega

/-- `printf` stays inside its format exactly if the format does not end inside a conversion. -/
theorem printf_ok_iff (hs : IsString format s) (args : Nat → UInt32) (text : UInt32 → List UInt8) (k : Kernel) :
    PrintfOk format args text k s ↔ Complete s := by
  refine ⟨fun hok => by_contra fun hopen => not_printfOk hs hopen hok, fun h => ⟨s.length + 1, ?_⟩⟩
  rw [printf_returns hs h]
  refine ⟨rfl, fun i hi => Nat.lt_succ_iff.1 (List.mem_range.1 hi), ?_⟩
  show [] ++ List.range' 0 (argCount s) = List.range (argCount s)
  rw [List.nil_append, List.range_eq_range']

/-- What `printf` prints of a complete format. -/
theorem printf_prints (hs : IsString format s) (h : Complete s) :
    ∃ n, let p := (printfStep args text format)^[n] (.start k)
      p.phase = .returned s.length ∧ p.kernel = puts k (render args text 0 (pieces s)) := by
  refine ⟨s.length + 1, ?_⟩
  rw [printf_returns hs h]
  exact ⟨rfl, rfl⟩

end Run

/-! ### Two formats -/

/-- A format of `entry`. -/
def flagsFormat : List UInt8 := asBytes "flags = 0x%#x\n"

theorem flags_format_ok :
    PrintfOk (cString flagsFormat) (fun _ => 0x4F) (fun _ => []) (entry shellBoot) flagsFormat :=
  (printf_ok_iff (isString_cString (by decide)) _ _ _).2 (by decide)

/-- A `%` at the end of a format, and a `%#`. -/
theorem open_formats_run_over :
    IsString (cString [percent]) [percent] ∧ IsString (cString [percent, hash]) [percent, hash] ∧
      ¬PrintfOk (cString [percent]) (fun _ => 0) (fun _ => []) (entry shellBoot) [percent] ∧
      ¬PrintfOk (cString [percent, hash]) (fun _ => 0) (fun _ => []) (entry shellBoot) [percent, hash] := by
  have hpercent : IsString (cString [percent]) [percent] := isString_cString (by decide)
  have hhash : IsString (cString [percent, hash]) [percent, hash] := isString_cString (by decide)
  exact ⟨hpercent, hhash, not_printfOk hpercent (by decide), not_printfOk hhash (by decide)⟩

end BigChungOS
