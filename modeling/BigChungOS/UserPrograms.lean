import BigChungOS.ProgramRuns

/-!
# The programs cat and ls

`main` of the two programs as trees of calls (`cat`, `ls`); a buffer is memory of the program, with whatever stands in
it at first, and each loop makes at most `n` rounds.  Both are worked out over the system that a program sees, where
their loops have simple invariants (`catLoop_file`, `catLoop_directory`, `lsLoop`).  What the kernel does when it runs
them follows: `cat` prints the file its argument names (`cat_prints`), and `ls` the names of the entries (`ls_lists`),
whatever the interrupts do in between.
-/

namespace BigChungOS

open Memory Reading Programs Programs.Program

/-! ### ece391support.c -/

/-- The string at index `lo` of a buffer of `size` bytes, up to its NUL. -/
def textAt (buf : Nat → UInt8) (lo size : Nat) : List UInt8 := (span buf lo (size - lo)).takeWhile (· ≠ 0)

/-- `ece391_fdputs`, of the string at its pointer. -/
def fdputs (fd : Int) (s : List UInt8) : Program Syscall CallResult Unit := do
  let _ ← send (.write fd s)

section Support

variable {files : List File} {os : Os files}

private theorem Os.write_screen (bytes : List UInt8) : os.write 1 bytes = (os.print bytes, (bytes.length : Int)) := rfl

theorem ensures_fdputs {s : List UInt8} {Q : Unit → Os files → Prop} :
    (fdputs 1 s).Ensures (osService files) Q os ↔ s.length < 2147483648 ∧ Q () (os.print s) := by
  rw [fdputs, ensures_bind, ensures_write]
  rfl

/-- A loop whose rounds read the entries of the directory one after the other, and print something for each. -/
theorem directoryLoop {β ρ : Type} {round : β → Program Syscall CallResult (β ⊕ ρ)} {z : ρ} {J : Os files → Prop}
    {L : File → List UInt8 → Prop} {n : Nat}
    (hround : ∀ b t (hi : t.cursor.val < files.length), J t → (round b).Ensures (osService files)
      (fun x t' => (∃ b', x = .inl b') ∧ J t' ∧ t'.cursor.val = t.cursor.val + 1 ∧
        ∃ seg, L files[t.cursor.val] seg ∧ t'.out = t.out ++ seg) t)
    (hlast : ∀ b t, J t → t.cursor.val = files.length →
      (round b).Ensures (osService files) (fun x t' => x = .inr z ∧ t'.out = t.out) t)
    (hJ : J os) (hcursor : os.cursor = 0) (hn : files.length < n) (b : β) :
    (loop round n b).Ensures (osService files)
      (fun a t => a = some z ∧ ∃ segs, List.Forall₂ L files segs ∧ t.out = os.out ++ segs.flatten) os := by
  refine (Ensures.loop (I := fun i _ t => J t ∧ t.cursor.val = i ∧
      ∃ segs, List.Forall₂ L (files.take i) segs ∧ t.out = os.out ++ segs.flatten)
    (Q := fun a t => a = z ∧ ∃ segs, List.Forall₂ L files segs ∧ t.out = os.out ++ segs.flatten)
    (fun i => files.length - i) ?_ (g := 0) ⟨hJ, by rw [hcursor]; rfl, [], .nil, by simp⟩ (by omega)).mono ?_
  · rintro _ b t ⟨ht, rfl, segs, hsegs, hprinted⟩
    have hlt := t.cursor.isLt
    by_cases hmore : t.cursor.val < files.length
    · refine (hround b t hmore ht).mono ?_
      rintro x t' ⟨⟨b', rfl⟩, ht', hnext, seg, hseg, hout⟩
      refine ⟨t.cursor.val + 1, ⟨ht', hnext, segs ++ [seg], ?_, ?_⟩, by omega⟩
      · rw [List.take_add_one, List.getElem?_eq_getElem hmore, Option.toList_some]
        exact List.rel_append hsegs (.cons hseg .nil)
      · rw [hout, hprinted, List.append_assoc, List.flatten_append, List.flatten_singleton]
    · have hend : t.cursor.val = files.length := by omega
      refine (hlast b t ht hend).mono ?_
      rintro x t' ⟨rfl, hout⟩
      rw [hend, List.take_length] at hsegs
      exact ⟨rfl, segs, hsegs, hout.trans hprinted⟩
  · rintro _ t ⟨a, rfl, rfl, hprinted⟩
    exact ⟨rfl, hprinted⟩

/-- The text, when what is printed for an entry is a function of it. -/
private theorem flatten_of_forall₂ {line : File → List UInt8} {segs : List (List UInt8)}
    (h : List.Forall₂ (fun f seg => seg = line f) files segs) : segs.flatten = files.flatMap line := by
  induction h with
  | nil => rfl
  | cons hseg _ ih => rw [List.flatten_cons, List.flatMap_cons, hseg, ih]

/-- What a read of the directory returns, at an entry and at the end. -/
theorem Os.read_entry {d : Fin 8} (hd : 2 ≤ d.val) (h : os.views d = some .directory) (nbytes : Int)
    (hi : os.cursor.val < files.length) :
    os.read d.val nbytes = (os.moveTo (os.cursor + 1), (files[os.cursor.val].name.length : Int),
      files[os.cursor.val].name) := by
  rw [Os.read_directory hd h, List.getD_eq_getElem?_getD, listing_entry (List.getElem?_eq_getElem hi), Option.getD_some]

theorem Os.read_end {d : Fin 8} (hd : 2 ≤ d.val) (h : os.views d = some .directory) (nbytes : Int)
    (hi : os.cursor.val = files.length) : os.read d.val nbytes = (os.moveTo (os.cursor + 1), 0, []) := by
  rw [Os.read_directory hd h, List.getD_eq_getElem?_getD, hi, listing_last, Option.getD_some]

/-- Opening the directory. -/
theorem Os.open_dot (hdistinct : (files.map File.name).Nodup) {f : File} (hf : f ∈ files)
    (hname : f.name = asBytes ".") (htype : f.filetype = 1) {d : Fin 8} (hfree : os.free = some d) :
    os.open_ (asBytes ".") = ((os.setView d (some .directory)).moveTo 0, (d.val : Int)) := by
  have hdot : (asBytes ".").head? = some 0x2E ∧ asBytes "." = (asBytes ".").take 32 := by decide
  have hview : View.of f = .directory := by
    rw [View.of, htype]
    rfl
  rw [Os.open_file hdistinct hf (hname.trans hdot.2) hfree, if_pos ⟨htype, hdot.1⟩, hview]

end Support

/-! ### ece391cat.c -/

/-- A round of the loop of `cat`, over the buffer. -/
def catRound (fd : Int) (buf : Nat → UInt8) : Program Syscall CallResult ((Nat → UInt8) ⊕ Int) := do
  let r ← send (.read fd 1024)
  if r.1 = 0 then pure (.inr 0)
  else if r.1 = -1 then do
    fdputs 1 (asBytes "file read failed\n")
    pure (.inr 3)
  else do
    let buf := storeAt buf 0 r.2
    let w ← send (.write 1 (span buf 0 r.1.toNat))
    if w.1 = -1 then pure (.inr 3) else pure (.inl buf)

/-- `main` of `cat`. -/
def cat (n : Nat) (buf : Nat → UInt8) : Program Syscall CallResult (Option Int) := do
  let args ← send (.getargs 1024)
  if args.1 ≠ 0 then do
    fdputs 1 (asBytes "could not read arguments\n")
    pure (some 3)
  else do
    let buf := storeAt buf 0 args.2
    let fd ← send (.open_ (textAt buf 0 1024))
    if fd.1 = -1 then do
      fdputs 1 (asBytes "file not found\n")
      pure (some 2)
    else loop (catRound fd.1) n buf

/-- What `cat` prints of a file: its contents, or the names of a directory, one after the other. -/
def catText (files : List File) (f : File) : List UInt8 :=
  if f.filetype = 2 then f.contents else if f.filetype = 1 then files.flatMap File.name else []

/-- What `cat` returns and prints. -/
def catResult (files : List File) (args : List UInt8) : Int × List UInt8 :=
  if args = [] then (3, asBytes "could not read arguments\n")
  else
    match files.find? fun f => f.name = args with
    | none => (2, asBytes "file not found\n")
    | some f => (0, catText files f)

section Cat

variable {files : List File} {os : Os files} {n : Nat}

/-- A round that prints what it has read. -/
private theorem ensures_catRound (bytes : List UInt8) {d : Fin 8} (hd : 2 ≤ d.val) {os₁ : Os files}
    (hread : os.read d.val 1024 = (os₁, (bytes.length : Int), bytes)) (hlength : bytes.length < 2147483648)
    {buf : Nat → UInt8} {Q : ((Nat → UInt8) ⊕ Int) → Os files → Prop} (hend : bytes = [] → Q (.inr 0) os₁)
    (hmore : bytes ≠ [] → Q (.inl (storeAt buf 0 bytes)) (os₁.print bytes)) :
    (catRound d.val buf).Ensures (osService files) Q os := by
  have hfd : (d.val : Int) ≠ 0 := by omega
  rw [catRound, ensures_bind, ensures_read hfd, hread]
  refine ⟨by decide, ?_⟩
  dsimp only
  by_cases hnil : bytes = []
  · rw [if_pos (by rw [hnil]; rfl)]
    exact hend hnil
  · have hpos := List.length_pos_iff.2 hnil
    rw [if_neg (by omega), if_neg (by omega), ensures_bind, ensures_write, Int.toNat_natCast, span_storeAt,
      Os.write_screen]
    refine ⟨hlength, ?_⟩
    rw [if_neg (by dsimp only; omega)]
    exact hmore hnil

/-- The loop over a file: the position is where the text printed ends. -/
theorem catLoop_file {d : Fin 8} (hd : 2 ≤ d.val) {contents before : List UInt8}
    (hview : os.views d = some (.file (.start contents))) (hout : os.out = before)
    (hsize : contents.length < 2147483648) (hn : contents.length < n) (buf : Nat → UInt8) :
    (loop (catRound d.val) n buf).Ensures (osService files)
      (fun a os => a = some 0 ∧ os.out = before ++ contents) os := by
  refine (Ensures.loop (I := fun r _ os => os.views d = some (.file r) ∧ r.contents = contents ∧
    os.out = before ++ contents.take r.position) (Q := fun a os => a = 0 ∧ os.out = before ++ contents)
    (fun r => contents.length - r.position) ?_ (g := .start contents) ⟨hview, rfl, ?_⟩ ?_).mono ?_
  · rintro r buf t ⟨hfile, rfl, hprinted⟩
    have hlength : (r.chunk 1024).length = min 1024 (r.contents.length - r.position) := r.chunk_length 1024
    have hbound := r.bound
    refine ensures_catRound _ hd (Os.read_file hd hfile 1024) ?_ (fun hnil => ?_) fun hmore => ?_
    · show (r.chunk 1024).length < _
      omega
    · have hnone : (r.chunk 1024).length = 0 := List.length_eq_zero_iff.2 hnil
      have hend : r.position = r.contents.length := by omega
      rw [hend, List.take_length] at hprinted
      exact ⟨rfl, hprinted⟩
    · have hpos : 0 < (r.chunk 1024).length := List.length_pos_iff.2 hmore
      have hnext : (r.next 1024).position = r.position + (r.chunk 1024).length := rfl
      refine ⟨r.next 1024, ⟨by simp, rfl, ?_⟩, ?_⟩
      · rw [Os.print_out, Os.setView_out, hprinted, List.append_assoc, r.take_next]
        rfl
      · show r.contents.length - (r.next 1024).position < _
        omega
  · rw [hout]
    simp [Reading.Reader.start]
  · exact lt_of_le_of_lt (Nat.sub_le _ _) hn
  · rintro _ t ⟨a, rfl, rfl, hprinted⟩
    exact ⟨rfl, hprinted⟩

/-- The loop over the directory. -/
theorem catLoop_directory {d : Fin 8} (hd : 2 ≤ d.val) (hview : os.views d = some .directory) (hcursor : os.cursor = 0)
    (hn : files.length < n) (buf : Nat → UInt8) :
    (loop (catRound d.val) n buf).Ensures (osService files)
      (fun a t => a = some 0 ∧ t.out = os.out ++ files.flatMap File.name) os := by
  refine (directoryLoop (J := fun t => t.views d = some .directory) (L := fun f seg => seg = f.name) (z := 0)
    (fun buf t hmore hdir => ?_) (fun buf t hdir hend => ?_) hview hcursor hn buf).mono ?_
  · have hname := files[t.cursor.val].nameLength
    refine ensures_catRound _ hd (Os.read_entry hd hdir 1024 hmore) (by omega) (fun hnil => ?_) fun _ => ?_
    · rw [hnil] at hname
      exact absurd hname.1 (by decide)
    · exact ⟨⟨_, rfl⟩, hdir, by rw [Os.print_cursor, Os.moveTo_cursor, val_add_one, if_pos hmore], _, rfl, rfl⟩
  · refine ensures_catRound [] hd (Os.read_end hd hdir 1024 hend) (by decide) (fun _ => ⟨rfl, rfl⟩) ?_
    exact fun hne => absurd rfl hne
  · rintro a t ⟨rfl, segs, hsegs, hout⟩
    exact ⟨rfl, hout.trans (congrArg _ (flatten_of_forall₂ hsegs))⟩

/-- The loop over the clock, which has nothing to read. -/
private theorem catLoop_clock {d : Fin 8} (hd : 2 ≤ d.val) (hview : os.views d = some .clock) (hn : 0 < n)
    (buf : Nat → UInt8) :
    (loop (catRound d.val) n buf).Ensures (osService files) (fun a t => a = some 0 ∧ t.out = os.out) os := by
  obtain ⟨n, rfl⟩ := Nat.exists_eq_succ_of_ne_zero (Nat.pos_iff_ne_zero.1 hn)
  rw [loop, ensures_bind]
  exact ensures_catRound _ hd (Os.read_clock hd hview 1024) (by decide) (fun _ => ⟨rfl, rfl⟩) fun hne => absurd rfl hne

/-- The loop over what has been opened. -/
private theorem catLoop_ensures {d : Fin 8} (hd : 2 ≤ d.val) {f : File} {before : List UInt8}
    (hview : os.views d = some (.of f)) (hcursor : f.filetype = 1 → os.cursor = 0) (hout : os.out = before)
    (hn : files.length < n ∧ f.contents.length < n) (buf : Nat → UInt8) :
    (loop (catRound d.val) n buf).Ensures (osService files)
      (fun a os => a = some 0 ∧ os.out = before ++ catText files f) os := by
  have hsize := f.size
  unfold catText
  unfold View.of at hview
  by_cases htwo : f.filetype = 2
  · rw [if_pos htwo] at hview ⊢
    exact catLoop_file hd hview hout (by omega) hn.2 buf
  · rw [if_neg htwo] at hview ⊢
    by_cases hone : f.filetype = 1
    · rw [if_pos hone] at hview ⊢
      rw [← hout]
      exact catLoop_directory hd hview (hcursor hone) hn.1 buf
    · rw [if_neg hone] at hview ⊢
      rw [List.append_nil, ← hout]
      exact catLoop_clock hd hview (by omega) buf

/-- The arguments are at the start of the buffer, with their NUL. -/
theorem textAt_args (os : Os files) (buf : Nat → UInt8) :
    textAt (storeAt buf 0 ((List.range (Int.toNat 1024)).map (cString os.args))) 0 1024 = os.args := by
  have hsize : Int.toNat 1024 = 1024 := rfl
  have hstored := span_storeAt buf 0 ((List.range (Int.toNat 1024)).map (cString os.args))
  rw [List.length_map, List.length_range, hsize] at hstored
  have hlength : os.args.length ≤ 1024 := os.argsLength.trans (by decide)
  rw [textAt, Nat.sub_zero, hsize, hstored, takeWhile_cString os.argsBytes hlength]

/-- `cat`, over what it sees. -/
theorem cat_ensures (hdistinct : (files.map File.name).Nodup)
    (hdots : ∀ f ∈ files, f.filetype = 1 → f.name.head? = some 0x2E) {args : List UInt8} (h : os.Fresh args)
    (hn : files.length < n ∧ ∀ f ∈ files, f.contents.length < n) (buf : Nat → UInt8) :
    (cat n buf).Ensures (osService files)
      (fun a os => a = some (catResult files args).1 ∧ os.out = (catResult files args).2) os := by
  have hout := h.out
  obtain rfl := h.args
  rw [cat, ensures_bind, ensures_getargs]
  refine ⟨by decide, ?_⟩
  unfold catResult
  by_cases hargs : os.args = []
  · rw [if_pos hargs, Os.getargs, if_pos hargs]
    dsimp only
    rw [if_pos (by decide), ensures_bind, ensures_fdputs]
    refine ⟨by decide, rfl, ?_⟩
    rw [Os.print_out, hout]
    rfl
  · rw [if_neg hargs, Os.getargs_some hargs]
    dsimp only
    rw [if_neg (by decide), textAt_args, ensures_bind, ensures_open]
    refine ⟨os.argsBytes, ?_⟩
    have htake : os.args.take 32 = os.args := List.take_of_length_le os.argsLength
    cases hfind : files.find? fun f => f.name = os.args with
    | none =>
      have hmissing : os.noArgs.open_ os.args = (os.noArgs, -1) := by
        refine Os.open_missing fun f hf => ?_
        rw [htake]
        simpa using List.find?_eq_none.1 hfind f hf
      rw [hmissing, if_pos rfl, ensures_bind, ensures_fdputs]
      refine ⟨by decide, rfl, ?_⟩
      rw [Os.print_out, Os.noArgs_out, hout]
      rfl
    | some f =>
      have hf := List.mem_of_find?_eq_some hfind
      have hname : f.name = os.args := by simpa using List.find?_some hfind
      have hfree : os.noArgs.free = some 2 := h.free
      rw [Os.open_file hdistinct hf (hname.trans htake.symm) hfree]
      dsimp only
      rw [if_neg (by decide)]
      generalize hopened : (os.noArgs.setView 2 (some (.of f))).moveTo
        (if f.filetype = 1 ∧ os.args.head? = some 0x2E then 0 else os.noArgs.cursor) = t
      have hview : t.views 2 = some (.of f) := by
        rw [← hopened, Os.moveTo_views, Os.setView_views, Function.update_self]
      have hcursor : f.filetype = 1 → t.cursor = 0 := by
        intro hone
        have hdot := hdots f hf hone
        rw [hname] at hdot
        rw [← hopened, Os.moveTo_cursor, if_pos ⟨hone, hdot⟩]
      have hprinted : t.out = [] := by
        rw [← hopened]
        exact hout
      exact catLoop_ensures (by decide) hview hcursor hprinted ⟨hn.1, hn.2 f hf⟩ _

end Cat

/-- `cat` prints what its argument names: the contents of a file, or the names in a directory, or its message. -/
theorem cat_prints {files : List File} {inodes blocks n : Nat} {args : List UInt8} {k : Kernel}
    (h : ProgramStarted files inodes blocks args k)
    (hdots : ∀ f ∈ files, f.filetype = 1 → f.name.head? = some 0x2E)
    (hn : files.length < n ∧ ∀ f ∈ files, f.contents.length < n) (buf : Nat → UInt8) :
    (cat n buf).Ensures kernelService
      (fun a s => a = some (catResult files args).1 ∧ s.printed = (catResult files args).2) ⟨k, []⟩ :=
  h.prints (R := fun a out => a = some (catResult files args).1 ∧ out = (catResult files args).2)
    fun _ hfresh => cat_ensures h.distinct hdots hfresh hn buf

/-- The argument of the small machine's program is the file of the shell. -/
theorem dotProgram_cat :
    (cat 41 fun _ => 0).Ensures kernelService (fun a s => a = some 0 ∧ s.printed = shellFile.contents)
      ⟨dotProgram, []⟩ := by
  have hresult : catResult [dotFile, shellFile] (asBytes "shell") = (0, shellFile.contents) := by decide +kernel
  have hprints := cat_prints (n := 41) dotProgram_started (by decide +kernel) (by decide +kernel) fun _ => 0
  rwa [hresult] at hprints

/-! ### ece391ls.c -/

/-- A round of the loop of `ls`, over the buffer. -/
def lsRound (fd : Int) (buf : Nat → UInt8) : Program Syscall CallResult ((Nat → UInt8) ⊕ Int) := do
  let r ← send (.read fd 32)
  if r.1 = 0 then pure (.inr 0)
  else if r.1 = -1 then do
    fdputs 1 (asBytes "directory entry read failed\n")
    pure (.inr 3)
  else do
    let buf := Function.update (storeAt buf 0 r.2) r.1.toNat newline
    let w ← send (.write 1 (span buf 0 (r.1 + 1).toNat))
    if w.1 = -1 then pure (.inr 3) else pure (.inl buf)

/-- `main` of `ls`. -/
def ls (n : Nat) (buf : Nat → UInt8) : Program Syscall CallResult (Option Int) := do
  let fd ← send (.open_ (asBytes "."))
  if fd.1 = -1 then do
    fdputs 1 (asBytes "directory open failed\n")
    pure (some 2)
  else loop (lsRound fd.1) n buf

/-- What `ls` prints: each name on a line of its own. -/
def lsText (files : List File) : List UInt8 := files.flatMap fun f => f.name ++ [newline]

section Ls

variable {files : List File} {os : Os files} {n : Nat}

/-- The loop over the directory. -/
theorem lsLoop {d : Fin 8} (hd : 2 ≤ d.val) (hview : os.views d = some .directory) (hcursor : os.cursor = 0)
    (hn : files.length < n) (buf : Nat → UInt8) :
    (loop (lsRound d.val) n buf).Ensures (osService files)
      (fun a t => a = some 0 ∧ t.out = os.out ++ lsText files) os := by
  have hfd : (d.val : Int) ≠ 0 := by omega
  refine (directoryLoop (J := fun t => t.views d = some .directory) (L := fun f seg => seg = f.name ++ [newline])
    (z := 0) (fun buf t hmore hdir => ?_) (fun buf t hdir hend => ?_) hview hcursor hn buf).mono ?_
  · have hname := files[t.cursor.val].nameLength
    rw [lsRound, ensures_bind, ensures_read hfd, Os.read_entry hd hdir 32 hmore]
    generalize hentry : files[t.cursor.val].name = name at hname
    refine ⟨by decide, ?_⟩
    have hstored : span (storeAt buf 0 (name ++ [newline])) 0 (name ++ [newline]).length = name ++ [newline] :=
      span_storeAt _ _ _
    rw [storeAt_concat, Nat.zero_add, List.length_append, List.length_singleton] at hstored
    dsimp only
    rw [if_neg (by omega), if_neg (by omega), ensures_bind, ensures_write, Os.write_screen, Int.toNat_natCast,
      Int.toNat_natCast_add_one, hstored]
    refine ⟨by simp; omega, ?_⟩
    rw [if_neg (by dsimp only; omega)]
    exact ⟨⟨_, rfl⟩, hdir, by rw [Os.print_cursor, Os.moveTo_cursor, val_add_one, if_pos hmore], _, rfl, rfl⟩
  · rw [lsRound, ensures_bind, ensures_read hfd, Os.read_end hd hdir 32 hend]
    exact ⟨by decide, rfl, rfl⟩
  · rintro a t ⟨rfl, segs, hsegs, hout⟩
    exact ⟨rfl, hout.trans (congrArg _ (flatten_of_forall₂ hsegs))⟩

/-- `ls`, over what it sees. -/
private theorem ls_ensures (hdistinct : (files.map File.name).Nodup) {f : File} (hf : f ∈ files)
    (hname : f.name = asBytes ".") (htype : f.filetype = 1) {args : List UInt8} (h : os.Fresh args)
    (hn : files.length < n) (buf : Nat → UInt8) :
    (ls n buf).Ensures (osService files) (fun a os => a = some 0 ∧ os.out = lsText files) os := by
  rw [ls, ensures_bind, ensures_open, Os.open_dot hdistinct hf hname htype h.free]
  refine ⟨by decide, ?_⟩
  dsimp only
  rw [if_neg (by decide)]
  refine (lsLoop (by decide) ?_ rfl hn buf).mono ?_
  · rw [Os.moveTo_views, Os.setView_views, Function.update_self]
  · rintro a t ⟨rfl, hout⟩
    rw [Os.moveTo_out, Os.setView_out, h.out] at hout
    exact ⟨rfl, hout⟩

end Ls

/-- `ls` prints the name of every entry of the directory, in order. -/
theorem ls_lists {files : List File} {inodes blocks n : Nat} {args : List UInt8} {k : Kernel}
    (h : ProgramStarted files inodes blocks args k) {f : File} (hf : f ∈ files) (hname : f.name = asBytes ".")
    (htype : f.filetype = 1) (hn : files.length < n) (buf : Nat → UInt8) :
    (ls n buf).Ensures kernelService (fun a s => a = some 0 ∧ s.printed = lsText files) ⟨k, []⟩ :=
  h.prints (R := fun a out => a = some 0 ∧ out = lsText files) fun _ hfresh =>
    ls_ensures h.distinct hf hname htype hfresh hn buf

/-- The directory of the small machine. -/
theorem dotProgram_ls :
    (ls 3 fun _ => 0).Ensures kernelService (fun a s => a = some 0 ∧ s.printed = asBytes ".\nshell\n")
      ⟨dotProgram, []⟩ := by
  have htext : lsText [dotFile, shellFile] = asBytes ".\nshell\n" := by decide
  have hlists := ls_lists (f := dotFile) (n := 3) dotProgram_started (by simp) rfl rfl (by decide) fun _ => 0
  rwa [htext] at hlists

end BigChungOS
