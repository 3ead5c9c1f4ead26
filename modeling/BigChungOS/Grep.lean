import BigChungOS.Lib.Lines
import BigChungOS.UserPrograms

/-!
# The program grep

`do_one_file` reads a file through a buffer of 1024 bytes and searches it line by line; a line that is not at its end in
the buffer is moved to the front before the next read.  The buffer is memory of the program, with one byte more for a
NUL.

What it prints of a text file are the lines with the string in them, where a line of more than 1024 characters counts as
several (`found`, `doOneFile_ensures`).  In a file with a NUL `ece391_strcpy` moves too little, and the lines may be
others; still every loop ends.
-/

namespace BigChungOS

open Memory Reading Programs Programs.Program

/-! ### ece391support.c -/

/-- `ece391_strncmp`. -/
def ece391Strncmp : (Nat → UInt8) → (Nat → UInt8) → Nat → Int
  | _, _, 0 => 0
  | s1, s2, n + 1 =>
    if s1 0 = s2 0 then
      if s1 0 = 0 ∨ n = 0 then 0 else ece391Strncmp (fun i => s1 (i + 1)) (fun i => s2 (i + 1)) n
    else (s1 0).toNat - (s2 0).toNat

/-- `ece391_strcpy` within a buffer, for at most `n` bytes. -/
def ece391Strcpy (m : Nat → UInt8) (dst src : Nat) : Nat → Nat → UInt8
  | 0 => m
  | n + 1 =>
    let m' := Function.update m dst (m src)
    if m src = 0 then m' else ece391Strcpy m' (dst + 1) (src + 1) n

theorem cString_cons (c : UInt8) (s : List UInt8) (i : Nat) : cString (c :: s) (i + 1) = cString s i :=
  List.getD_cons_succ

/-- The comparison with a string. -/
private theorem ece391Strncmp_eq_zero_iff {s : List UInt8} (hs : (0 : UInt8) ∉ s) (m : Nat → UInt8) (lo : Nat) :
    ece391Strncmp (fun i => m (lo + i)) (cString s) s.length = 0 ↔ span m lo s.length = s := by
  induction s generalizing lo with
  | nil => exact iff_of_true rfl rfl
  | cons c s ih =>
    rw [List.mem_cons, not_or] at hs
    have hspan : span m lo (s.length + 1) = m lo :: span m (lo + 1) s.length := by
      rw [Nat.add_comm s.length, span_add]
      rfl
    rw [List.length_cons, hspan, List.cons.injEq, ece391Strncmp, Nat.add_zero]
    have hfirst : cString (c :: s) 0 = c := rfl
    by_cases hc : m lo = c
    · rw [if_pos (hc.trans hfirst.symm), hc]
      by_cases hlast : s.length = 0
      · rw [if_pos (.inr hlast), List.length_eq_zero_iff.1 hlast]
        simp
      · rw [if_neg (not_or.2 ⟨Ne.symm hs.1, hlast⟩), ← ih hs.2 (lo + 1)]
        simp only [cString_cons, true_and, Nat.add_assoc, Nat.add_comm 1]
    · rw [if_neg fun h => hc (h.trans hfirst), hfirst]
      have hne : (m lo).toNat ≠ c.toNat := fun h => hc (UInt8.toNat_inj.1 h)
      exact iff_of_false (by omega) fun h => hc h.1

/-- A string of `k` characters is copied with its NUL. -/
private theorem ece391Strcpy_eq {m : Nat → UInt8} {dst src k n : Nat} (hle : dst ≤ src)
    (hchars : ∀ i < k, m (src + i) ≠ 0) (hnul : m (src + k) = 0) (hn : k < n) :
    ece391Strcpy m dst src n = blit m dst src (k + 1) := by
  rw [← copyUp_eq_blit hle]
  induction k generalizing m dst src n with
  | zero =>
    obtain ⟨n, rfl⟩ := Nat.exists_eq_add_of_lt hn
    have hend : m src = 0 := hnul
    rw [ece391Strcpy, if_pos hend, copyUp, copyUp]
  | succ k ih =>
    obtain ⟨n, rfl⟩ := Nat.exists_eq_add_of_lt hn
    have hfirst : m src ≠ 0 := hchars 0 (by omega)
    have hkept : ∀ i, Function.update m dst (m src) (src + 1 + i) = m (src + 1 + i) := fun i =>
      Function.update_of_ne (by omega) _ _
    rw [show k + 1 + n + 1 = k + n + 1 + 1 by omega, ece391Strcpy, if_neg hfirst, copyUp]
    refine ih (by omega) (fun i hi => ?_) ?_ (by omega)
    · rw [hkept, Nat.add_right_comm, Nat.add_assoc]
      exact hchars (i + 1) (by omega)
    · rw [hkept, Nat.add_right_comm, Nat.add_assoc]
      exact hnul

/-! ### ece391grep.c -/

/-- The loop that looks for the string from `line_start` on. -/
def search (s : List UInt8) (data : Nat → UInt8) (lineStart lineEnd : Nat) : Bool :=
  (List.range' lineStart (lineEnd - lineStart)).any fun check =>
    cString s 0 = data check ∧ ece391Strncmp (fun i => data (check + i)) (cString s) s.length = 0

/-- It finds the string if the line has it. -/
private theorem search_iff {s : List UInt8} (hne : s ≠ []) (hs : (0 : UInt8) ∉ s) {data : Nat → UInt8}
    {lineStart lineEnd : Nat} (hle : lineStart ≤ lineEnd) (hnul : data lineEnd = 0) :
    search s data lineStart lineEnd = true ↔ s <:+: span data lineStart (lineEnd - lineStart) := by
  have hpos := List.length_pos_iff.2 hne
  simp only [search, List.any_eq_true, List.mem_range'_1, decide_eq_true_eq, ece391Strncmp_eq_zero_iff hs]
  constructor
  · rintro ⟨check, hcheck, -, hspan⟩
    have hfits : check + s.length ≤ lineEnd := by
      by_contra hlong
      have hmem : data (check + (lineEnd - check)) ∈ span data check s.length :=
        List.mem_map_of_mem (List.mem_range.2 (by omega))
      rw [hspan, show check + (lineEnd - check) = lineEnd by omega, hnul] at hmem
      exact hs hmem
    refine ⟨span data lineStart (check - lineStart), span data (check + s.length) (lineEnd - (check + s.length)), ?_⟩
    have hsplit : lineEnd - lineStart = check - lineStart + (s.length + (lineEnd - (check + s.length))) := by omega
    rw [hsplit, span_add, span_add, List.append_assoc, show lineStart + (check - lineStart) = check by omega, hspan]
  · rintro ⟨before, after, hline⟩
    have hlength : before.length + s.length + after.length = lineEnd - lineStart := by
      rw [← List.length_append, ← List.length_append, hline, length_span]
    have hspan : span data (lineStart + before.length) s.length = s := by
      have hsplit : lineEnd - lineStart = before.length + (s.length + after.length) := by omega
      rw [hsplit, span_add, span_add, List.append_assoc] at hline
      have hrest := (List.append_inj hline (by simp)).2
      exact ((List.append_inj hrest (by simp)).1).symm
    refine ⟨lineStart + before.length, by omega, ?_, hspan⟩
    obtain ⟨c, s, rfl⟩ := List.exists_cons_of_ne_nil hne
    rw [List.length_cons, Nat.add_comm s.length, span_add] at hspan
    exact (List.cons.inj hspan).1.symm

/-- The loop that looks for the end of the line, with `n` bytes left. -/
def lineEndFrom (data : Nat → UInt8) : Nat → Nat → Nat
  | 0, lineEnd => lineEnd
  | n + 1, lineEnd => if data lineEnd = newline then lineEnd else lineEndFrom data n (lineEnd + 1)

private theorem lineEndFrom_spec (data : Nat → UInt8) (n lineStart : Nat) :
    lineStart ≤ lineEndFrom data n lineStart ∧ lineEndFrom data n lineStart ≤ lineStart + n ∧
      newline ∉ span data lineStart (lineEndFrom data n lineStart - lineStart) ∧
      (lineEndFrom data n lineStart < lineStart + n → data (lineEndFrom data n lineStart) = newline) := by
  induction n generalizing lineStart with
  | zero => simp [lineEndFrom]
  | succ n ih =>
    unfold lineEndFrom
    by_cases hend : data lineStart = newline
    · simp [hend]
    · obtain ⟨hstart, hlast, hline, hnewline⟩ := ih (lineStart + 1)
      rw [if_neg hend]
      generalize lineEndFrom data n (lineStart + 1) = lineEnd at *
      refine ⟨by omega, by omega, ?_, fun h => hnewline (by omega)⟩
      rw [show lineEnd - lineStart = 1 + (lineEnd - (lineStart + 1)) by omega, span_add, List.mem_append, not_or]
      exact ⟨fun hmem => hend (List.mem_singleton.1 hmem).symm, hline⟩

/-- What is printed if the string is in the line. -/
def searchText (s fname : List UInt8) (data : Nat → UInt8) (lineStart lineEnd : Nat) : List UInt8 :=
  if search s data lineStart lineEnd then fname ++ asBytes ":" ++ textAt data lineStart 1025 ++ asBytes "\n" else []

/-- Search the line. -/
def searchLine (s fname : List UInt8) (data : Nat → UInt8) (lineStart lineEnd : Nat) :
    Program Syscall CallResult Unit :=
  if search s data lineStart lineEnd then do
    fdputs 1 fname
    fdputs 1 (asBytes ":")
    fdputs 1 (textAt data lineStart 1025)
    fdputs 1 (asBytes "\n")
  else pure ()

/-- A round of the loop over the lines in the buffer, whose first `last` bytes are in use.  It goes on at the next line,
or leaves with the bytes that are to stay in the buffer. -/
def lineRound (s fname : List UInt8) (cnt : Int) (last : Nat) (b : (Nat → UInt8) × Nat) :
    Program Syscall CallResult (((Nat → UInt8) × Nat) ⊕ ((Nat → UInt8) × Nat)) :=
  let lineStart := b.2
  let lineEnd := lineEndFrom b.1 (last - lineStart) lineStart
  let data := Function.update b.1 lineEnd 0
  if b.1 lineEnd ≠ newline ∧ cnt ≠ 0 ∧ lineStart ≠ 0 then
    pure (.inr (ece391Strcpy data 0 lineStart 1025, last - lineStart))
  else do
    searchLine s fname data lineStart lineEnd
    if lineEnd + 1 ≥ last then pure (.inr (data, 0)) else pure (.inl (data, lineEnd + 1))

/-- A round of the loop over the file.  As `line_start` grows, there are at most `last + 1` rounds of the inner loop. -/
def fileRound (fd : Int) (s fname : List UInt8) (b : (Nat → UInt8) × Nat) :
    Program Syscall CallResult (((Nat → UInt8) × Nat) ⊕ Option Int) := do
  let r ← send (.read fd (1024 - b.2))
  if r.1 = -1 then do
    fdputs 1 (asBytes "file read failed\n")
    pure (.inr (some (-1)))
  else do
    let last := b.2 + r.1.toNat
    match ← loop (lineRound s fname r.1 last) (last + 1) (storeAt b.1 b.2 r.2, 0) with
    | none => pure (.inr none)
    | some b => if r.1 = 0 then pure (.inr (some 0)) else pure (.inl b)

/-- `do_one_file`, with what stands in its buffer at first. -/
def doOneFile (n : Nat) (s fname : List UInt8) (data : Nat → UInt8) : Program Syscall CallResult (Option Int) := do
  let fd ← send (.open_ fname)
  if fd.1 = -1 then do
    fdputs 1 (asBytes "file open failed\n")
    pure (some (-1))
  else do
    match (← loop (fileRound fd.1 s fname) n (data, 0)).join with
    | some 0 => do
      let r ← send (.close fd.1)
      if r.1 = -1 then do
        fdputs 1 (asBytes "file close failed\n")
        pure (some (-1))
      else pure (some 0)
    | r => pure r

/-- A round of the loop over the directory; `frame` is what stands in the buffer for each file at first. -/
def grepRound (fd : Int) (n : Nat) (s : List UInt8) (frame : List UInt8 → Nat → UInt8) (buf : Nat → UInt8) :
    Program Syscall CallResult ((Nat → UInt8) ⊕ Option Int) := do
  let r ← send (.read fd 32)
  if r.1 = 0 then pure (.inr (some 0))
  else if r.1 = -1 then do
    fdputs 1 (asBytes "directory entry read failed\n")
    pure (.inr (some 3))
  else do
    let buf := storeAt buf 0 r.2
    if buf 0 = 0x2E then pure (.inl buf)
    else do
      let buf := Function.update buf r.1.toNat 0
      let fname := textAt buf 0 33
      match ← doOneFile n s fname (frame fname) with
      | none => pure (.inr none)
      | some 0 => pure (.inl buf)
      | some _ => pure (.inr (some 3))

/-- `main` of `grep`. -/
def grep (n : Nat) (frame : List UInt8 → Nat → UInt8) (buf search : Nat → UInt8) :
    Program Syscall CallResult (Option Int) := do
  let args ← send (.getargs 1024)
  if args.1 ≠ 0 then do
    fdputs 1 (asBytes "could not read argument\n")
    pure (some 3)
  else do
    let search := storeAt search 0 args.2
    let fd ← send (.open_ (asBytes "."))
    if fd.1 = -1 then do
      fdputs 1 (asBytes "directory open failed\n")
      pure (some 2)
    else do
      let r ← loop (grepRound fd.1 n (textAt search 0 1024) frame) n buf
      pure r.join

/-! ### The lines with the string -/

/-- What is printed for a line. -/
def foundIn (s fname line : List UInt8) : List UInt8 :=
  if s <:+: line then fname ++ asBytes ":" ++ line ++ asBytes "\n" else []

/-- What is printed for a text. -/
def found (s fname text : List UInt8) : List UInt8 := (Lines.pieces newline 1024 text).flatMap (foundIn s fname)

section Found

variable {s fname line text : List UInt8}

private theorem found_nil : found s fname [] = [] := by rw [found, Lines.pieces_nil (by omega), List.flatMap_nil]

private theorem foundIn_chop (hne : s ≠ []) (hline : line.length ≤ 1024) :
    (Lines.chop 1024 line).flatMap (foundIn s fname) = foundIn s fname line := by
  by_cases hnil : line = []
  · rw [hnil, Lines.chop_nil (by omega), List.flatMap_nil, foundIn, if_neg fun h => hne (List.infix_nil.1 h)]
  · rw [Lines.chop_of_le hnil hline, List.flatMap_singleton]

private theorem found_line (hne : s ≠ []) (hnewline : newline ∉ line) (hline : line.length ≤ 1024) :
    found s fname (line ++ newline :: text) = foundIn s fname line ++ found s fname text := by
  rw [found, Lines.pieces_line hnewline, List.flatMap_append, foundIn_chop hne hline, found]

private theorem found_last (hne : s ≠ []) (hnewline : newline ∉ line) (hline : line.length ≤ 1024) :
    found s fname line = foundIn s fname line := by
  rw [found, Lines.pieces_last hnewline, foundIn_chop hne hline]

private theorem found_full (hnewline : newline ∉ line) (hline : line.length = 1024) :
    found s fname (line ++ text) = foundIn s fname line ++ found s fname text := by
  rw [found, Lines.pieces_full (by omega) hnewline hline, List.flatMap_cons, found]

end Found

/-- A string in a buffer, up to its NUL. -/
theorem textAt_eq {buf : Nat → UInt8} {lo k size : Nat} (hchars : (0 : UInt8) ∉ span buf lo k) (hnul : buf (lo + k) = 0)
    (hsize : lo + k < size) : textAt buf lo size = span buf lo k := by
  have hsplit : size - lo = k + (1 + (size - lo - (k + 1))) := by omega
  rw [textAt, hsplit, span_add, List.takeWhile_append_of_pos, span_add]
  · have hfirst : span buf (lo + k) 1 = [0] := congrArg (fun c => [c]) hnul
    rw [hfirst]
    simp
  · intro c hc
    simpa using ne_of_mem_of_not_mem hc hchars

/-! ### The text in the buffer -/

/-- The bytes of the buffer from `lo` to `last`, and then `rest`, are still to be searched; `out` is to be printed. -/
structure Pending (s fname : List UInt8) (data : Nat → UInt8) (lo last : Nat) (rest out : List UInt8) : Prop where
  beyond : data 1024 ≠ newline
  chars : (0 : UInt8) ∉ span data lo (last - lo)
  out : found s fname (span data lo (last - lo) ++ rest) = out

section Pending

variable {s fname rest out : List UInt8} {data : Nat → UInt8} {lo last lineEnd : Nat}

private theorem span_update {m : Nat → UInt8} {lo n i : Nat} (c : UInt8) (h : i < lo ∨ lo + n ≤ i) :
    span (Function.update m i c) lo n = span m lo n :=
  span_congr fun j hj => Function.update_of_ne (by omega) _ _

/-- A line is searched, and the next one is to be. -/
theorem Pending.line (h : Pending s fname data lo last rest out) (hne : s ≠ []) (hs : (0 : UInt8) ∉ s)
    (hlo : lo ≤ last) (hlast : last ≤ 1024) (hrest : last < 1024 → rest = [])
    (hlineEnd : lineEnd = lineEndFrom data (last - lo) lo)
    (hcase : data lineEnd = newline ∨ rest = [] ∨ lo = 0) :
    ∃ out', Pending s fname (Function.update data lineEnd 0) (lineEnd + 1) last rest out' ∧
      out = searchText s fname (Function.update data lineEnd 0) lo lineEnd ++ out' := by
  obtain ⟨hstart, hend, hnewline, hmore⟩ := lineEndFrom_spec data (last - lo) lo
  rw [← hlineEnd] at hstart hend hnewline hmore
  have hsplit : last - lo = lineEnd - lo + (last - lineEnd) := by omega
  have hchars := h.chars
  have hout := h.out
  rw [hsplit, span_add, show lo + (lineEnd - lo) = lineEnd by omega] at hchars hout
  rw [List.mem_append, not_or] at hchars
  have hlength : (span data lo (lineEnd - lo)).length ≤ 1024 := by
    rw [length_span]
    omega
  -- What is printed for the line is what the text has in it.
  have hkept : span (Function.update data lineEnd 0) lo (lineEnd - lo) = span data lo (lineEnd - lo) :=
    span_update _ (by omega)
  have hprinted : searchText s fname (Function.update data lineEnd 0) lo lineEnd =
      foundIn s fname (span data lo (lineEnd - lo)) := by
    have htext : textAt (Function.update data lineEnd 0) lo 1025 = span data lo (lineEnd - lo) := by
      rw [← hkept] at hchars ⊢
      exact textAt_eq hchars.1 (by rw [show lo + (lineEnd - lo) = lineEnd by omega, Function.update_self]) (by omega)
    have hsearch := search_iff hne hs hstart (Function.update_self lineEnd 0 data)
    rw [searchText, foundIn, htext]
    rw [hkept] at hsearch
    by_cases hin : s <:+: span data lo (lineEnd - lo)
    · rw [if_pos hin, if_pos (hsearch.2 hin)]
    · rw [if_neg hin, if_neg fun hfound => hin (hsearch.1 hfound)]
  have hnext : span (Function.update data lineEnd 0) (lineEnd + 1) (last - (lineEnd + 1)) =
      span data (lineEnd + 1) (last - (lineEnd + 1)) := span_update _ (by omega)
  have hbeyond : Function.update data lineEnd 0 1024 ≠ newline := by
    rw [Function.update_apply]
    split
    · decide
    · exact h.beyond
  refine ⟨found s fname (span data (lineEnd + 1) (last - (lineEnd + 1)) ++ rest), ⟨hbeyond, ?_, by rw [hnext]⟩, ?_⟩
  · rw [hnext]
    intro hmem
    by_cases hin : lineEnd < last
    · rw [show last - lineEnd = 1 + (last - (lineEnd + 1)) by omega, span_add, List.mem_append, not_or] at hchars
      exact hchars.2.2 hmem
    · rw [show last - (lineEnd + 1) = 0 by omega] at hmem
      exact absurd hmem List.not_mem_nil
  rw [hprinted, ← hout, List.append_assoc]
  by_cases hin : lineEnd < last
  · -- The line ends in the buffer.
    have hfirst : span data lineEnd (last - lineEnd) = newline :: span data (lineEnd + 1) (last - (lineEnd + 1)) := by
      rw [show last - lineEnd = 1 + (last - (lineEnd + 1)) by omega, span_add, ← hmore (by omega)]
      rfl
    rw [hfirst, List.cons_append, found_line hne hnewline hlength]
  · rw [show last - lineEnd = 0 by omega, show last - (lineEnd + 1) = 0 by omega, span_zero, span_zero, List.nil_append]
    by_cases hfull : last < 1024
    · rw [hrest hfull, List.append_nil, found_nil, List.append_nil, found_last hne hnewline hlength]
    · have hlast1024 : lineEnd = 1024 := by omega
      obtain hcase | hcase | rfl := hcase
      · rw [hlast1024] at hcase
        exact absurd hcase h.beyond
      · rw [hcase, List.append_nil, found_nil, List.append_nil, found_last hne hnewline hlength]
      · exact found_full hnewline (by rw [length_span]; omega)

/-- The line at the end of the buffer is moved to the front. -/
theorem Pending.move (h : Pending s fname data lo last rest out) (hpos : 0 < lo) (hlo : lo ≤ last)
    (hlast : last ≤ 1024) :
    Pending s fname (ece391Strcpy (Function.update data last 0) 0 lo 1025) 0 (last - lo) rest out ∧
      span (ece391Strcpy (Function.update data last 0) 0 lo 1025) 0 (last - lo) = span data lo (last - lo) := by
  have hkept : span (Function.update data last 0) lo (last - lo) = span data lo (last - lo) := span_update _ (by omega)
  have hmoved : ece391Strcpy (Function.update data last 0) 0 lo 1025 =
      blit (Function.update data last 0) 0 lo (last - lo + 1) := by
    refine ece391Strcpy_eq (Nat.zero_le _) (fun i hi hzero => ?_) ?_ (by omega)
    · have hmem : Function.update data last 0 (lo + i) ∈ span (Function.update data last 0) lo (last - lo) :=
        List.mem_map_of_mem (List.mem_range.2 hi)
      rw [hzero, hkept] at hmem
      exact h.chars hmem
    · rw [show lo + (last - lo) = last by omega, Function.update_self]
  have hspan : span (blit (Function.update data last 0) 0 lo (last - lo + 1)) 0 (last - lo) =
      span data lo (last - lo) := by
    rw [← hkept]
    refine span_congr fun i hi => ?_
    rw [blit_of_mem (by omega)]
  rw [hmoved, hspan]
  refine ⟨⟨?_, ?_, ?_⟩, rfl⟩
  · rw [blit, if_neg (by omega), Function.update_apply]
    split
    · decide
    · exact h.beyond
  · rw [Nat.sub_zero, hspan]
    exact h.chars
  · rw [Nat.sub_zero, hspan]
    exact h.out

/-- More of the text is read. -/
theorem Pending.read {chunk after : List UInt8} (h : Pending s fname data 0 last rest out)
    (hchunk : (0 : UInt8) ∉ chunk) (hfits : last + chunk.length ≤ 1024) :
    Pending s fname (storeAt data last chunk) 0 (last + chunk.length) after
      (found s fname (span data 0 last ++ (chunk ++ after))) := by
  have hspan : span (storeAt data last chunk) 0 (last + chunk.length) = span data 0 last ++ chunk := by
    rw [span_add, Nat.zero_add, span_storeAt, span_sameOutside (sameOutside_storeAt _ _ _) (by omega)]
  refine ⟨?_, ?_, ?_⟩
  · rw [sameOutside_storeAt data last chunk 1024 (by omega)]
    exact h.beyond
  · rw [Nat.sub_zero, hspan, List.mem_append, not_or]
    exact ⟨h.chars, hchunk⟩
  · rw [Nat.sub_zero, hspan, List.append_assoc]

end Pending

/-! ### The loops -/

section Loops

variable {files : List File} {os : Os files} {s fname : List UInt8} {data : Nat → UInt8}

private theorem Os.print_print (a b : List UInt8) : (os.print a).print b = os.print (a ++ b) := by
  unfold Os.print
  simp

private theorem Os.print_nil : os.print [] = os := by
  unfold Os.print
  simp

private theorem ensures_searchLine (hfname : fname.length < 2147483648) {lineStart lineEnd : Nat}
    {Q : Unit → Os files → Prop} : (searchLine s fname data lineStart lineEnd).Ensures (osService files) Q os ↔
      Q () (os.print (searchText s fname data lineStart lineEnd)) := by
  have htext : (textAt data lineStart 1025).length < 2147483648 := by
    refine ((List.takeWhile_sublist _).length_le.trans_eq (length_span _ _ _)).trans_lt ?_
    omega
  unfold searchLine searchText
  by_cases hfound : search s data lineStart lineEnd = true
  · rw [if_pos hfound, if_pos hfound, ensures_bind, ensures_fdputs, ensures_bind, ensures_fdputs, ensures_bind,
      ensures_fdputs, ensures_fdputs, Os.print_print, Os.print_print, Os.print_print, ← List.append_assoc,
      ← List.append_assoc]
    exact ⟨fun h => h.2.2.2.2, fun h => ⟨hfname, by decide, htext, by decide, h⟩⟩
  · rw [if_neg hfound, if_neg hfound, Os.print_nil]
    exact Iff.rfl

/-- The loop over the lines in the buffer: it prints what is found in them, or leaves the last one for the next read. -/
private theorem lineLoop (hne : s ≠ []) (hs : (0 : UInt8) ∉ s) (hfname : fname.length < 2147483648) {P : Prop}
    {cnt : Int} {last : Nat} {rest total : List UInt8} (hlast : last ≤ 1024) (hrest : last < 1024 → rest = [])
    (hcnt : cnt = 0 → rest = []) (h : P → Pending s fname data 0 last rest total) :
    (loop (lineRound s fname cnt last) (last + 1) (data, 0)).Ensures (osService files)
      (fun x t => ∃ b, x = some b ∧ b.2 < 1024 ∧ (cnt = 0 → b.2 = 0) ∧ ∃ text, t = os.print text ∧
        (P → ∃ out, Pending s fname b.1 0 b.2 rest out ∧ total = text ++ out)) os := by
  refine Ensures.loop (I := fun lo b t => b.2 = lo ∧ lo ≤ last ∧ ∃ text, t = os.print text ∧
    (P → ∃ out, Pending s fname b.1 lo last rest out ∧ total = text ++ out)) (fun lo => last - lo) ?_ (g := 0)
    ⟨rfl, Nat.zero_le _, [], Os.print_nil.symm, fun hP => ⟨total, h hP, rfl⟩⟩ (Nat.lt_succ_self last)
  rintro lo ⟨data, lo'⟩ t ⟨hlo', hlo, text, rfl, hpending⟩
  obtain rfl : lo' = lo := hlo'
  dsimp only at hpending ⊢
  have hspec := lineEndFrom_spec data (last - lo') lo'
  unfold lineRound
  dsimp only
  generalize hlineEnd : lineEndFrom data (last - lo') lo' = lineEnd at hspec ⊢
  by_cases hmove : data lineEnd ≠ newline ∧ cnt ≠ 0 ∧ lo' ≠ 0
  · -- The line goes on behind the buffer.
    have hend : lineEnd = last := by
      by_contra hne
      exact hmove.1 (hspec.2.2.2 (by omega))
    subst hend
    rw [if_pos hmove]
    refine ⟨by dsimp only; omega, fun hzero => absurd hzero hmove.2.1, text, rfl, fun hP => ?_⟩
    obtain ⟨out, hlines, htotal⟩ := hpending hP
    exact ⟨out, (hlines.move (by omega) hlo hlast).1, htotal⟩
  · rw [if_neg hmove, ensures_bind, ensures_searchLine hfname, Os.print_print]
    have hcase : data lineEnd = newline ∨ rest = [] ∨ lo' = 0 := by
      by_cases hnewline : data lineEnd = newline
      · exact .inl hnewline
      · by_cases hzero : cnt = 0
        · exact .inr (.inl (hcnt hzero))
        · exact .inr (.inr (not_not.1 fun hlo' => hmove ⟨hnewline, hzero, hlo'⟩))
    have hnext : P → ∃ out, Pending s fname (Function.update data lineEnd 0) (lineEnd + 1) last rest out ∧
        total = (text ++ searchText s fname (Function.update data lineEnd 0) lo' lineEnd) ++ out := by
      intro hP
      obtain ⟨out, hlines, htotal⟩ := hpending hP
      obtain ⟨out', hlines', rfl⟩ := hlines.line hne hs hlo hlast hrest hlineEnd.symm hcase
      exact ⟨out', hlines', by rw [htotal, List.append_assoc]⟩
    by_cases hdone : lineEnd + 1 ≥ last
    · rw [if_pos hdone]
      refine ⟨Nat.zero_lt_succ _, fun _ => rfl, _, rfl, fun hP => ?_⟩
      obtain ⟨out, hlines, htotal⟩ := hnext hP
      have hout := hlines.out
      rw [Nat.sub_eq_zero_of_le hdone, span_zero] at hout
      exact ⟨out, ⟨hlines.beyond, List.not_mem_nil, hout⟩, htotal⟩
    · rw [if_neg hdone]
      exact ⟨lineEnd + 1, ⟨rfl, by omega, _, rfl, hnext⟩, by omega⟩

/-- What `do_one_file` reads of what it has opened. -/
def searched (f : File) : List UInt8 := if f.filetype = 2 then f.contents else []

private theorem Os.setView_self {d : Fin 8} {v : Option View} (h : os.views d = v) : os.setView d v = os := by
  rw [← h]
  unfold Os.setView
  rw [Function.update_eq_self]

private theorem Os.setView_setView (d : Fin 8) (v w : Option View) : (os.setView d v).setView d w = os.setView d w := by
  unfold Os.setView
  rw [Function.update_idem]

/-- The loop over a file. -/
private theorem fileLoop (hne : s ≠ []) (hs : (0 : UInt8) ∉ s) (hfname : fname.length < 2147483648) {d : Fin 8}
    (hd : 2 ≤ d.val) {contents : List UInt8} (hview : os.views d = some (.file (.start contents))) {n : Nat}
    (hn : contents.length < n) :
    (loop (fileRound d.val s fname) n (data, 0)).Ensures (osService files)
      (fun x t => x = some (some 0) ∧ ∃ r text, t = (os.setView d (some (.file r))).print text ∧
        (data 1024 ≠ newline ∧ (0 : UInt8) ∉ contents → text = found s fname contents)) os := by
  have hfd : (d.val : Int) ≠ 0 := by omega
  refine (Ensures.loop (I := fun r b t => r.contents = contents ∧ b.2 < 1024 ∧
      ∃ text, t = (os.setView d (some (.file r))).print text ∧ (data 1024 ≠ newline ∧ (0 : UInt8) ∉ contents →
        ∃ out, Pending s fname b.1 0 b.2 (contents.drop r.position) out ∧ found s fname contents = text ++ out))
    (Q := fun x t => x = some 0 ∧ ∃ r text, t = (os.setView d (some (.file r))).print text ∧
      (data 1024 ≠ newline ∧ (0 : UInt8) ∉ contents → text = found s fname contents))
    (fun r => contents.length - r.position) ?_ (g := .start contents) ⟨rfl, Nat.zero_lt_succ _, [], ?_, ?_⟩
    (lt_of_le_of_lt (Nat.sub_le _ _) hn)).mono ?_
  · rintro r ⟨data', last⟩ t ⟨rfl, hlast, text, rfl, hpending⟩
    dsimp only at hlast hpending
    have hbound := r.bound
    have hfile : ((os.setView d (some (.file r))).print text).views d = some (.file r) := by simp
    have hroom : ((1024 : Int) - last).toNat = 1024 - last := by omega
    have hread := Os.read_file hd hfile ((1024 : Int) - last)
    rw [hroom, show ((os.setView d (some (.file r))).print text).setView d (some (.file (r.next (1024 - last)))) =
      (os.setView d (some (.file (r.next (1024 - last))))).print text from
        congrArg (Os.print · text) (Os.setView_setView d _ _)] at hread
    have hlength := r.chunk_length (1024 - last)
    have hposition : (r.next (1024 - last)).position = r.position + (r.chunk (1024 - last)).length := rfl
    have hcontents := r.drop_next (1024 - last)
    have hchars : (0 : UInt8) ∉ r.contents → (0 : UInt8) ∉ r.chunk (1024 - last) := fun htext hmem =>
      htext (List.mem_of_mem_drop (List.mem_of_mem_take hmem))
    generalize r.chunk (1024 - last) = chunk at *
    rw [fileRound, ensures_bind, ensures_read hfd, hread]
    refine ⟨by dsimp only; omega, ?_⟩
    dsimp only
    rw [if_neg (by omega), ensures_bind, Int.toNat_natCast]
    -- What has been read stands behind what was left.
    have hafter : data 1024 ≠ newline ∧ (0 : UInt8) ∉ r.contents →
        Pending s fname (storeAt data' last chunk) 0 (last + chunk.length)
          (r.contents.drop (r.next (1024 - last)).position)
          (found s fname (span data' 0 last ++ r.contents.drop r.position)) := by
      intro htext
      obtain ⟨out, hlines, -⟩ := hpending htext
      rw [hcontents]
      exact hlines.read (hchars htext.2) (by omega)
    have hend : chunk.length < 1024 - last → r.contents.drop (r.next (1024 - last)).position = [] := fun hshort =>
      List.drop_eq_nil_of_le (by omega)
    refine (lineLoop hne hs hfname (by omega) (fun hshort => hend (by omega)) (fun hzero => hend (by omega))
      hafter).mono ?_
    rintro x t ⟨b, rfl, hb, hzero, text', rfl, hpending'⟩
    rw [Os.print_print]
    have htotal : data 1024 ≠ newline ∧ (0 : UInt8) ∉ r.contents → ∃ out,
        Pending s fname b.1 0 b.2 (r.contents.drop (r.next (1024 - last)).position) out ∧
          found s fname r.contents = text ++ text' ++ out := by
      intro htext
      obtain ⟨out, hlines, hfound⟩ := hpending htext
      obtain ⟨out', hlines', hout⟩ := hpending' htext
      refine ⟨out', hlines', ?_⟩
      have hsame := hlines.out
      rw [Nat.sub_zero] at hsame
      rw [hfound, ← hsame, hout, List.append_assoc]
    by_cases hnone : (chunk.length : Int) = 0
    · dsimp only
      rw [if_pos hnone]
      refine ⟨rfl, _, _, rfl, fun htext => ?_⟩
      obtain ⟨out, hlines, hfound⟩ := htotal htext
      have hout := hlines.out
      rw [hzero hnone, hend (by omega), Nat.sub_zero, span_zero, List.append_nil, found_nil] at hout
      rw [hfound, ← hout, List.append_nil]
    · dsimp only
      rw [if_neg hnone]
      exact ⟨r.next (1024 - last), ⟨rfl, hb, _, rfl, htotal⟩, by omega⟩
  · rw [Os.print_nil, Os.setView_self hview]
  · intro htext
    exact ⟨_, ⟨htext.1, List.not_mem_nil, rfl⟩, rfl⟩
  · rintro _ t ⟨a, rfl, rfl, h⟩
    exact ⟨rfl, h⟩

/-- The loop over the clock, which has nothing to read. -/
private theorem clockLoop (hne : s ≠ []) (hs : (0 : UInt8) ∉ s) (hfname : fname.length < 2147483648) {d : Fin 8}
    (hd : 2 ≤ d.val)
    (hview : os.views d = some .clock) {n : Nat} (hn : 0 < n) :
    (loop (fileRound d.val s fname) n (data, 0)).Ensures (osService files)
      (fun x t => x = some (some 0) ∧ ∃ text, t = os.print text ∧ (data 1024 ≠ newline → text = [])) os := by
  obtain ⟨n, rfl⟩ := Nat.exists_eq_succ_of_ne_zero (Nat.pos_iff_ne_zero.1 hn)
  have hfd : (d.val : Int) ≠ 0 := by omega
  rw [loop, ensures_bind, fileRound, ensures_bind, ensures_read hfd, Os.read_clock hd hview]
  refine ⟨by dsimp only; omega, ?_⟩
  dsimp only
  rw [if_neg (by decide), ensures_bind, storeAt_nil]
  refine (lineLoop hne hs hfname (by decide) (fun _ => rfl) (fun _ => rfl)
    (fun hbeyond => (⟨hbeyond, List.not_mem_nil, found_nil⟩ : Pending s fname data 0 0 [] []))).mono ?_
  rintro x t ⟨b, rfl, -, -, text, rfl, hpending⟩
  refine ⟨rfl, text, rfl, fun hbeyond => ?_⟩
  obtain ⟨out, -, htotal⟩ := hpending hbeyond
  exact (List.append_eq_nil_iff.1 htotal.symm).1

/-! ### The files -/

private theorem Os.free_spec {d : Fin 8} (h : os.free = some d) : 2 ≤ d.val ∧ os.views d = none := by
  have hmem := List.mem_of_find?_eq_some h
  have hnone := List.find?_some h
  refine ⟨?_, Option.isNone_iff_eq_none.1 hnone⟩
  fin_cases hmem <;> decide

/-- Closing what is not the directory. -/
private theorem Os.close_val {d : Fin 8} (hd : 2 ≤ d.val) {v : View} (hview : os.views d = some v)
    (hv : v ≠ .directory) : os.close d.val = (os.setView d none, 0) := by
  have hview' : os.view d.val = some v := by rw [Os.view_val hd, hview]
  unfold Os.close
  rw [hview', Os.index_val]
  cases v with
  | directory => exact absurd rfl hv
  | file r => rfl
  | clock => rfl

/-- What `do_one_file` prints for a file. -/
theorem doOneFile_ensures (hdistinct : (files.map File.name).Nodup) {f : File} (hf : f ∈ files) (htype : f.filetype ≠ 1)
    {d : Fin 8} (hfree : os.free = some d) (hne : s ≠ []) (hs : (0 : UInt8) ∉ s) {n : Nat}
    (hn : f.contents.length < n) :
    (doOneFile n s f.name data).Ensures (osService files) (fun a t => a = some 0 ∧ ∃ seg, t = os.print seg ∧
      (data 1024 ≠ newline → (0 : UInt8) ∉ searched f → seg = found s f.name (searched f))) os := by
  obtain ⟨hd, hclosed⟩ := os.free_spec hfree
  have hname := f.nameLength
  have hfname : f.name.length < 2147483648 := by omega
  have hfile : ¬(f.filetype = 1 ∧ f.name.head? = some 0x2E) := fun h => htype h.1
  rw [doOneFile, ensures_bind, ensures_open,
    Os.open_file hdistinct hf (List.take_of_length_le hname.2).symm hfree, if_neg hfile]
  refine ⟨f.nameBytes, ?_⟩
  dsimp only
  rw [if_neg (by omega), ensures_bind]
  generalize hopened : (os.setView d (some (.of f))).moveTo os.cursor = opened
  have hopened' : opened = os.setView d (some (.of f)) := hopened.symm
  have hview : opened.views d = some (.of f) := by rw [hopened', Os.setView_views, Function.update_self]
  -- After the loop the file is still open, and closing it leaves what it was.
  have hclose : ∀ (v : View) (text : List UInt8), v ≠ .directory →
      ((opened.setView d (some v)).print text).close d.val = (os.print text, 0) := by
    intro v text hv
    rw [Os.close_val hd (by simp) hv, hopened', Os.setView_setView]
    exact congrArg (·, 0) (((congrArg (Os.print · text) (Os.setView_setView d (some v) none)).trans
      (congrArg (Os.print · text) (Os.setView_self hclosed))))
  have hloop : (loop (fileRound d.val s f.name) n (data, 0)).Ensures (osService files)
      (fun x t => x = some (some 0) ∧ ∃ v text, v ≠ .directory ∧ t = (opened.setView d (some v)).print text ∧
        (data 1024 ≠ newline → (0 : UInt8) ∉ searched f → text = found s f.name (searched f))) opened := by
    unfold searched
    unfold View.of at hview
    by_cases htwo : f.filetype = 2
    · rw [if_pos htwo] at hview ⊢
      refine (fileLoop hne hs hfname hd hview hn).mono ?_
      rintro x t ⟨hx, r, text, ht, hfound⟩
      exact ⟨hx, .file r, text, by simp, ht, fun hbeyond htext => hfound ⟨hbeyond, htext⟩⟩
    · rw [if_neg htwo, if_neg htype] at hview
      rw [if_neg htwo]
      refine (clockLoop hne hs hfname hd hview (by omega)).mono ?_
      rintro x t ⟨hx, text, ht, hfound⟩
      refine ⟨hx, .clock, text, by simp, ?_, fun hbeyond _ => (hfound hbeyond).trans found_nil.symm⟩
      rw [ht, Os.setView_self hview]
  refine hloop.mono ?_
  rintro x t ⟨rfl, v, text, hv, rfl, hfound⟩
  show Ensures _ (send _ >>= _) _ _
  rw [ensures_bind, ensures_close, hclose v text hv]
  exact ⟨rfl, text, rfl, hfound⟩

/-- What is printed for an entry of the directory: nothing if its name starts with a dot, else what is found in the
file, if it is a text and the byte behind the buffer is not a newline by chance. -/
def Greps (s : List UInt8) (frame : List UInt8 → Nat → UInt8) (f : File) (seg : List UInt8) : Prop :=
  if f.name.head? = some 0x2E then seg = []
  else frame f.name 1024 ≠ newline → (0 : UInt8) ∉ searched f → seg = found s f.name (searched f)

/-- The loop over the directory. -/
private theorem grepLoop (hdistinct : (files.map File.name).Nodup)
    (hdots : ∀ f ∈ files, f.filetype = 1 → f.name.head? = some 0x2E) (hne : s ≠ []) (hs : (0 : UInt8) ∉ s)
    (hviews : os.views = Function.update (fun _ => none) 2 (some .directory)) (hcursor : os.cursor = 0) {n : Nat}
    (hn : files.length < n ∧ ∀ f ∈ files, f.contents.length < n) (frame : List UInt8 → Nat → UInt8)
    (buf : Nat → UInt8) :
    (loop (grepRound 2 n s frame) n buf).Ensures (osService files) (fun a t => a = some (some 0) ∧
      ∃ segs, List.Forall₂ (Greps s frame) files segs ∧ t.out = os.out ++ segs.flatten) os := by
  have hview : ∀ t : Os files, t.views = Function.update (fun _ => none) 2 (some .directory) →
      t.views 2 = some .directory := fun t ht => by rw [ht, Function.update_self]
  refine directoryLoop (J := fun t => t.views = Function.update (fun _ => none) 2 (some .directory))
    (fun buf t hmore ht => ?_) (fun buf t ht hend => ?_) hviews hcursor hn.1 buf
  · have hread : t.read 2 32 = _ := Os.read_entry (d := 2) (by decide) (hview t ht) 32 hmore
    have hfile := List.getElem_mem hmore
    generalize files[t.cursor.val] = f at hread hfile ⊢
    have hname := f.nameLength
    have hnext : (t.cursor + 1).val = t.cursor.val + 1 := by rw [val_add_one, if_pos hmore]
    rw [grepRound, ensures_bind, ensures_read (by decide), hread]
    refine ⟨by decide, ?_⟩
    dsimp only
    rw [if_neg (by omega), if_neg (by omega)]
    have hfirst : f.name.head? = some (storeAt buf 0 f.name 0) := by
      have hstored := storeAt_of_mem buf 0 (l := f.name) (i := 0) (by omega)
      rw [Nat.add_zero] at hstored
      rw [hstored, List.head?_eq_getElem?, List.getElem?_eq_getElem]
    unfold Greps
    rw [hfirst]
    by_cases hdot : storeAt buf 0 f.name 0 = 0x2E
    · rw [if_pos hdot]
      exact ⟨⟨_, rfl⟩, ht, hnext, [], by rw [if_pos (congrArg some hdot)], (List.append_nil _).symm⟩
    · have hplain : ¬some (storeAt buf 0 f.name 0) = some 0x2E := fun h => hdot (Option.some.inj h)
      have htype : f.filetype ≠ 1 := fun hone => hplain (hfirst.symm.trans (hdots f hfile hone))
      have hspan : span (storeAt buf 0 (f.name ++ [0])) 0 (f.name ++ [(0 : UInt8)]).length = f.name ++ [0] :=
        span_storeAt _ _ _
      rw [storeAt_concat, Nat.zero_add, List.length_append, List.length_singleton, span_add] at hspan
      have hname' := (List.append_inj hspan (by simp)).1
      have htext : textAt (Function.update (storeAt buf 0 f.name) f.name.length 0) 0 33 = f.name := by
        refine (textAt_eq (k := f.name.length) ?_ ?_ (by omega)).trans hname'
        · rw [hname']
          exact f.nameBytes
        · rw [Nat.zero_add, Function.update_self]
      have hfree : (t.moveTo (t.cursor + 1)).free = some 3 := by simp [Os.free, ht]
      rw [if_neg hdot, Int.toNat_natCast, htext, ensures_bind]
      refine (doOneFile_ensures hdistinct hfile htype hfree hne hs (hn.2 f hfile)).mono ?_
      rintro x t' ⟨rfl, seg, rfl, hseg⟩
      exact ⟨⟨_, rfl⟩, ht, hnext, seg, (if_neg hplain).mpr hseg, rfl⟩
  · have hread : t.read 2 32 = _ := Os.read_end (d := 2) (by decide) (hview t ht) 32 hend
    rw [grepRound, ensures_bind, ensures_read (by decide), hread]
    exact ⟨by decide, rfl, rfl⟩

/-- `grep`, over what it sees. -/
private theorem grep_ensures (hdistinct : (files.map File.name).Nodup)
    (hdots : ∀ f ∈ files, f.filetype = 1 → f.name.head? = some 0x2E) {f : File} (hf : f ∈ files)
    (hname : f.name = asBytes ".") (htype : f.filetype = 1) {args : List UInt8} (h : os.Fresh args) (hargs : args ≠ [])
    {n : Nat} (hn : files.length < n ∧ ∀ f ∈ files, f.contents.length < n) (frame : List UInt8 → Nat → UInt8)
    (buf search : Nat → UInt8) :
    (grep n frame buf search).Ensures (osService files) (fun a t => a = some 0 ∧
      ∃ segs, List.Forall₂ (Greps args frame) files segs ∧ t.out = segs.flatten) os := by
  have hout := h.out
  obtain rfl := h.args
  have hfree : os.noArgs.free = some 2 := h.free
  rw [grep, ensures_bind, ensures_getargs, Os.getargs_some hargs]
  refine ⟨by decide, ?_⟩
  dsimp only
  rw [if_neg (by decide), ensures_bind, ensures_open, Os.open_dot hdistinct hf hname htype hfree, textAt_args]
  refine ⟨by decide, ?_⟩
  dsimp only
  rw [if_neg (by decide), ensures_bind]
  refine (grepLoop hdistinct hdots hargs os.argsBytes ?_ rfl hn frame buf).mono ?_
  · rw [Os.moveTo_views, Os.setView_views, Os.noArgs_views, funext h.views]
  · rintro a t ⟨rfl, segs, hsegs, hprinted⟩
    refine ⟨rfl, segs, hsegs, ?_⟩
    rw [hprinted, Os.moveTo_out, Os.setView_out, Os.noArgs_out, hout, List.nil_append]

end Loops

/-- `grep` ends with 0, and prints what it finds in each file, in the order of the directory. -/
theorem grep_finds {files : List File} {inodes blocks n : Nat} {args : List UInt8} {k : Kernel}
    (h : ProgramStarted files inodes blocks args k) (hargs : args ≠ [])
    (hdots : ∀ f ∈ files, f.filetype = 1 → f.name.head? = some 0x2E) {f : File} (hf : f ∈ files)
    (hname : f.name = asBytes ".") (htype : f.filetype = 1)
    (hn : files.length < n ∧ ∀ f ∈ files, f.contents.length < n) (frame : List UInt8 → Nat → UInt8)
    (buf search : Nat → UInt8) :
    (grep n frame buf search).Ensures kernelService (fun a s => a = some 0 ∧
      ∃ segs, List.Forall₂ (Greps args frame) files segs ∧ s.printed = segs.flatten) ⟨k, []⟩ :=
  h.prints (R := fun a out => a = some 0 ∧ ∃ segs, List.Forall₂ (Greps args frame) files segs ∧ out = segs.flatten)
    fun _ hfresh => grep_ensures h.distinct hdots hf hname htype hfresh hargs hn frame buf search

/-! ### A machine with a text file -/

def noteFile : File where
  name := asBytes "notes"
  filetype := 2
  contents := asBytes "ls\ncat shell\n"
  nameLength := by decide
  nameBytes := by decide
  filetypeLe := shellFile.filetypeLe
  size := by decide

/-- The image of the machine with one program, with entries for the directory and for the text. -/
def noteImage : Nat → UInt8 := fun a =>
  if a = 0 then 3
  else if a = 4 ∨ a = 8 then 2
  else if 64 ≤ a ∧ a < 192 then dotImage a
  else if 192 ≤ a ∧ a < 197 then (asBytes "notes").getD (a - 192) 0
  else if a = 224 then 2
  else if a = 228 then 1
  else if a = 4096 then 28
  else if a = 8192 then 13
  else if a = 8196 then 1
  else if 12288 ≤ a ∧ a < 16384 then shellImage (a - 4096)
  else if 16384 ≤ a then (asBytes "ls\ncat shell\n").getD (a - 16384) 0
  else 0

def noteBoot : Boot := { shellBoot with image := noteImage }

def noteFiles : List File := [dotFile, shellFile, noteFile]

private theorem noteImage_layout : Layout noteImage noteFiles 2 2 where
  count := by decide +kernel
  inodeCount := by decide +kernel
  dataCount := by decide +kernel
  atMost := by decide
  distinct := by decide
  entry i f hf := by
    have hi : i = 0 ∨ i = 1 ∨ i = 2 := by
      have hlt := (List.getElem?_eq_some_iff.1 hf).1
      simp only [noteFiles, List.length_cons, List.length_nil] at hlt
      omega
    rcases hi with rfl | rfl | rfl
    · obtain rfl : dotFile = f := Option.some.inj hf
      exact ⟨⟨1, by decide, by decide +kernel, fun _ => by decide +kernel⟩, by decide +kernel,
        fun htype => by cases htype⟩
    · obtain rfl : shellFile = f := Option.some.inj hf
      have hinode : wordAt noteImage (64 * (1 + 1) + 36) = 0 := by decide +kernel
      refine ⟨⟨5, by decide, by decide +kernel, fun _ => by decide +kernel⟩, by decide +kernel, fun _ => ?_⟩
      rw [hinode]
      refine ⟨by decide, by decide +kernel, ?_, ?_⟩
      · intro b hb
        have hlength : shellFile.contents.length = 28 := by decide
        obtain rfl : b = 0 := by omega
        decide +kernel
      · decide +kernel
    · obtain rfl : noteFile = f := Option.some.inj hf
      have hinode : wordAt noteImage (64 * (2 + 1) + 36) = 1 := by decide +kernel
      refine ⟨⟨5, by decide, by decide +kernel, fun _ => by decide +kernel⟩, by decide +kernel, fun _ => ?_⟩
      rw [hinode]
      refine ⟨by decide, by decide +kernel, ?_, ?_⟩
      · intro b hb
        have hlength : noteFile.contents.length = 13 := by decide
        obtain rfl : b = 0 := by omega
        decide +kernel
      · decide +kernel
  fits := by decide

/-- The state in which the program of that machine starts, to look for `cat`. -/
def noteProgram : Kernel :=
  (sysExecute (pitHandler (entry noteBoot) frame₀ frame₀).1 (some (asBytes "shell cat")) frame₀).1

private theorem noteProgram_started : ProgramStarted noteFiles 2 2 (asBytes "cat") noteProgram := by
  have hshell : (pitHandler (entry noteBoot) frame₀ frame₀).2 = .launched 0x8048000 := by decide +kernel
  have hlaunch : (sysExecute (pitHandler (entry noteBoot) frame₀ frame₀).1 (some (asBytes "shell cat")) frame₀).2 =
      .launched 0x8048000 := by decide +kernel
  have hargs : firstWord (afterWord (asBytes "shell cat")) = asBytes "cat" := by decide
  have hstarted := ProgramStarted.launch noteImage_layout hshell (.nil _) hlaunch
  rwa [hargs] at hstarted

/-- It finds the second line of the text, whatever it prints for the program. -/
theorem noteProgram_grep :
    (grep 41 (fun _ _ => 0) (fun _ => 0) fun _ => 0).Ensures kernelService
      (fun a s => a = some 0 ∧ ∃ seg, s.printed = seg ++ asBytes "notes:cat shell\n") ⟨noteProgram, []⟩ := by
  have hlimits : (∀ f ∈ noteFiles, f.filetype = 1 → f.name.head? = some 0x2E) ∧
      noteFiles.length < 41 ∧ ∀ f ∈ noteFiles, f.contents.length < 41 := by decide +kernel
  have hfinds := grep_finds (f := dotFile) (n := 41) noteProgram_started (by decide) hlimits.1 (by simp [noteFiles]) rfl
    rfl hlimits.2 (fun _ _ => 0) (fun _ => 0) fun _ => 0
  refine hfinds.mono ?_
  rintro a s ⟨ha, segs, hsegs, hprinted⟩
  obtain - | ⟨hdot, - | ⟨-, - | ⟨hnote, - | -⟩⟩⟩ := hsegs
  rename_i dotSeg shellSeg noteSeg
  have hempty : dotSeg = [] := hdot
  have hline : noteSeg = asBytes "notes:cat shell\n" := by
    have hfound : found (asBytes "cat") noteFile.name (searched noteFile) = asBytes "notes:cat shell\n" := by
      decide +kernel
    exact (hnote (by decide) (by decide)).trans hfound
  refine ⟨ha, shellSeg, ?_⟩
  rw [hprinted, hempty, hline]
  simp

end BigChungOS
