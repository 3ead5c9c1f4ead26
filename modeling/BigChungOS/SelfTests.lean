import BigChungOS.UserPrograms

/-!
# The program syserr

`syserr` tests how system calls fail.  Each of its tests makes calls that are to return -1, and one of them opens the
directory until the descriptors are used up.  The kernel passes all of them, from any state in which it has launched the
program, unless there are files with the two names that are not to be found; which tests are run, the first character
of the line decides that the second call of the program reads (`selfTests_pass`).
-/

namespace BigChungOS

open Memory Reading Programs Programs.Program

/-! ### ece391syserr.c -/

/-- A call that is to return -1, over the buffer and `fail`. -/
def attempt (call : (Nat → UInt8) → Syscall) (message : String) (s : (Nat → UInt8) × Int) :
    Program Syscall CallResult ((Nat → UInt8) × Int) := do
  let r ← send (call s.1)
  let buf := storeAt s.1 0 r.2
  if r.1 ≠ -1 then do
    fdputs 1 (asBytes message)
    pure (buf, 2)
  else pure (buf, s.2)

/-- Such calls, one after the other. -/
def attempts : List (((Nat → UInt8) → Syscall) × String) → (Nat → UInt8) × Int →
    Program Syscall CallResult ((Nat → UInt8) × Int)
  | [], s => pure s
  | c :: calls, s => do
    let s ← attempt c.1 c.2 s
    attempts calls s

/-- The end of a test. -/
def verdict (name : String) (fail : Int) : Program Syscall CallResult Int := do
  fdputs 1 (asBytes (name ++ if fail ≠ 0 then ": FAIL\n" else ": PASS\n"))
  pure fail

/-- A test that makes calls which are to return -1. -/
def refusals (name : String) (calls : List (((Nat → UInt8) → Syscall) × String)) (buf : Nat → UInt8) :
    Program Syscall CallResult Int := do
  let s ← attempts calls (buf, 0)
  verdict name s.2

/-- The three calls with a descriptor. -/
def fdCalls (fd : Int) : List (((Nat → UInt8) → Syscall) × String) :=
  [(fun _ => .read fd 31, "read fail\n"),
    (fun buf => .write fd (span buf 0 31), "write fail\n"),
    (fun _ => .close fd, "close fail\n")]

def errNegFd : (Nat → UInt8) → Program Syscall CallResult Int := refusals "err_neg_fd" (fdCalls (-1073741823))

def errBigFd : (Nat → UInt8) → Program Syscall CallResult Int := refusals "err_big_fd" (fdCalls 1073741823)

/-- The loop that opens the directory, and counts what fails. -/
def openLots : Nat → Int → Program Syscall CallResult Int
  | 0, cnt => pure cnt
  | n + 1, cnt => do
    let fd ← send (.open_ (asBytes "."))
    openLots n (if fd.1 = -1 then cnt + 1 else cnt)

/-- The loop that closes. -/
def closeLots : List Int → Program Syscall CallResult Unit
  | [] => pure ()
  | fd :: fds => do
    let _ ← send (.close fd)
    closeLots fds

def errOpenLots : Program Syscall CallResult Int := do
  let cnt ← openLots 7 0
  closeLots [2, 3, 4, 5, 6, 7]
  verdict "err_open_lots" (if cnt = 1 then 0 else 2)

def errOpen : (Nat → UInt8) → Program Syscall CallResult Int :=
  refusals "err_open"
    [(fun _ => .open_ (asBytes "helloo"), "'helloo' fail\n"),
      (fun _ => .open_ (asBytes "shel"), "'shel' fail\n"),
      (fun _ => .open_ [], "empty string fail\n")]

def errUnopened : (Nat → UInt8) → Program Syscall CallResult Int :=
  refusals "err_unopened"
    ((([0, 1, 2, 3, 4, 5, 6, 7] : List Int).map fun i => (fun _ => .close i, "close unopened or invalid fd fail\n")) ++
      (([2, 3, 4, 5, 6, 7] : List Int).map fun i => (fun _ => .read i 31, "read from unopened fd fail\n")) ++
      ([2, 3, 4, 5, 6, 7] : List Int).map fun i => (fun buf => .write i (span buf 0 31), "write to unopened fd fail\n"))

def errVidmap : (Nat → UInt8) → Program Syscall CallResult Int :=
  refusals "err_vidmap"
    [(fun _ => .vidmap 0, "Null pointer fail\n"), (fun _ => .vidmap 0x400000, "Kernel pointer fail fail\n")]

def errStdinOut : (Nat → UInt8) → Program Syscall CallResult Int :=
  refusals "err_stdin_out"
    [(fun buf => .write 0 (span buf 0 31), "write to stdin fail\n"), (fun _ => .read 1 31, "read from stdout fail\n")]

/-- The negative number is that of the register. -/
def errSyscallNum : (Nat → UInt8) → Program Syscall CallResult Int :=
  refusals "err_syscall_num"
    [(fun _ => .number 1073741823, "syscall 0 fail\n"),
      (fun _ => .number (toUInt32 (-1073741823)), "big num syscall fail\n"),
      (fun _ => .number 0, "neg num syscall fail\n")]

/-- Test `i` of the menu; `frame` is what stands in its buffer at first. -/
def selfTest (frame : Nat → Nat → UInt8) : Int → Option (Program Syscall CallResult Int)
  | 1 => some (errNegFd (frame 1))
  | 2 => some (errBigFd (frame 2))
  | 3 => some errOpenLots
  | 4 => some (errOpen (frame 4))
  | 5 => some (errUnopened (frame 5))
  | 6 => some (errVidmap (frame 6))
  | 7 => some (errStdinOut (frame 7))
  | 8 => some (errSyscallNum (frame 8))
  | _ => none

/-- All tests, with the sum of their results. -/
def allTests : List (Program Syscall CallResult Int) → Int → Program Syscall CallResult Int
  | [], fail => pure fail
  | test :: tests, fail => do
    let r ← test
    allTests tests (fail + r)

/-- `main` of `syserr`. -/
def syserr (frame : Nat → Nat → UInt8) (buf : Nat → UInt8) : Program Syscall CallResult Int := do
  fdputs 1 (asBytes "Choose from tests 1-8. 0 to run all: ")
  let r ← send (.read 0 127)
  if r.1 = -1 then do
    fdputs 1 (asBytes "Can't read test #\n")
    pure 2
  else do
    let buf := storeAt buf 0 r.2
    let select : Int := (buf 0).toNat - 0x30
    if select = 0 then do
      let fail ← allTests (([1, 2, 3, 4, 5, 6, 7, 8] : List Int).filterMap (selfTest frame)) 0
      fdputs 1 (asBytes (if fail ≠ 0 then "\nOverall Tests: FAIL\n" else "\nOverall Tests: PASS\n"))
      pure fail
    else
      match selfTest frame select with
      | some test => test
      | none => do
        fdputs 1 (asBytes "Invalid test number. Choose from tests 1-8 or 0")
        pure 0

/-! ### Calls that are refused -/

section Refusals

variable {files : List File} {os : Os files}

/-- The call returns -1 and changes nothing. -/
def Refuses (os : Os files) (c : Syscall) : Prop :=
  (send c).Ensures (osService files) (fun r t => r = (-1, []) ∧ t = os) os

private theorem attempts_refused {calls : List (((Nat → UInt8) → Syscall) × String)}
    (h : ∀ c ∈ calls, ∀ buf, Refuses os (c.1 buf)) (s : (Nat → UInt8) × Int) :
    (attempts calls s).Ensures (osService files) (fun s' t => s' = s ∧ t = os) os := by
  induction calls with
  | nil => exact ⟨rfl, rfl⟩
  | cons c calls ih =>
    rw [attempts, ensures_bind, attempt, ensures_bind]
    refine (h c List.mem_cons_self s.1).mono ?_
    rintro _ _ ⟨rfl, rfl⟩
    dsimp only
    rw [if_neg (by decide), storeAt_nil]
    exact ih fun c hc => h c (List.mem_cons_of_mem _ hc)

/-- The test prints `text` and returns 0, and leaves no descriptor open. -/
def Passes (files : List File) (test : Program Syscall CallResult Int) (text : List UInt8) : Prop :=
  ∀ os : Os files, (∀ d, os.views d = none) →
    test.Ensures (osService files) (fun a t => a = 0 ∧ (∀ d, t.views d = none) ∧ t.out = os.out ++ text) os

private theorem verdict_pass (name : String) (hname : (asBytes (name ++ ": PASS\n")).length < 2147483648) :
    Passes files (verdict name 0) (asBytes (name ++ ": PASS\n")) := by
  intro os hviews
  rw [verdict, if_neg (by decide), ensures_bind, ensures_fdputs]
  exact ⟨hname, rfl, hviews, rfl⟩

private theorem refusals_pass {name : String} {calls : List (((Nat → UInt8) → Syscall) × String)}
    (hname : (asBytes (name ++ ": PASS\n")).length < 2147483648)
    (h : ∀ os : Os files, (∀ d, os.views d = none) → ∀ c ∈ calls, ∀ buf, Refuses os (c.1 buf)) (buf : Nat → UInt8) :
    Passes files (refusals name calls buf) (asBytes (name ++ ": PASS\n")) := by
  intro os hviews
  rw [refusals, ensures_bind]
  refine (attempts_refused (h os hviews) (buf, 0)).mono ?_
  rintro _ _ ⟨rfl, rfl⟩
  exact verdict_pass _ hname _ hviews

private theorem Os.view_none (hviews : ∀ d, os.views d = none) (fd : Int) : os.view fd = none := by
  unfold Os.view
  split
  · exact hviews _
  · rfl

private theorem refuses_read (hviews : ∀ d, os.views d = none) {fd : Int} (hfd : fd ≠ 0) :
    Refuses os (.read fd 31) := by
  rw [Refuses, ensures_read hfd, Os.read, Os.view_none hviews]
  exact ⟨by decide, rfl, rfl⟩

private theorem refuses_write (hviews : ∀ d, os.views d = none) {fd : Int} (hfd : fd ≠ 1) (buf : Nat → UInt8) :
    Refuses os (.write fd (span buf 0 31)) := by
  rw [Refuses, ensures_write, Os.write, if_neg hfd, Os.view_none hviews, length_span]
  exact ⟨by decide, rfl, rfl⟩

private theorem refuses_close (hviews : ∀ d, os.views d = none) (fd : Int) : Refuses os (.close fd) := by
  rw [Refuses, ensures_close, Os.close, Os.view_none hviews]
  exact ⟨rfl, rfl⟩

private theorem refuses_open {filename : List UInt8} (hname : (0 : UInt8) ∉ filename)
    (h : ∀ f ∈ files, f.name ≠ filename.take 32) : Refuses os (.open_ filename) := by
  rw [Refuses, ensures_open, Os.open_missing h]
  exact ⟨hname, rfl, rfl⟩

private theorem refuses_vidmap {screenStart : Nat} (h : screenStart < 0x8000000) :
    Refuses os (.vidmap screenStart) := by
  rw [Refuses, ensures_vidmap]
  refine ⟨by omega, fun r hr => ⟨?_, rfl⟩⟩
  rwa [Os.VideoPage, if_neg (by omega)] at hr

private theorem refuses_number {eax : Nat} (h : ¬(1 ≤ eax ∧ eax ≤ 8) ∧ eax ≠ 11) : Refuses os (.number eax) := by
  rw [Refuses, ensures_number]
  exact ⟨h, rfl, rfl⟩

/-! ### The tests -/

private theorem fdCalls_refused (hviews : ∀ d, os.views d = none) {fd : Int} (hzero : fd ≠ 0) (hone : fd ≠ 1) :
    ∀ c ∈ fdCalls fd, ∀ buf, Refuses os (c.1 buf) := by
  intro c hc buf
  simp only [fdCalls, List.mem_cons, List.not_mem_nil, or_false] at hc
  rcases hc with rfl | rfl | rfl
  · exact refuses_read hviews hzero
  · exact refuses_write hviews hone buf
  · exact refuses_close hviews fd

private theorem errOpen_pass (hhelloo : ∀ f ∈ files, f.name ≠ asBytes "helloo")
    (hshel : ∀ f ∈ files, f.name ≠ asBytes "shel") (buf : Nat → UInt8) :
    Passes files (errOpen buf) (asBytes "err_open: PASS\n") := by
  refine refusals_pass (by decide) (fun os _ c hc buf => ?_) buf
  simp only [List.mem_cons, List.not_mem_nil, or_false] at hc
  rcases hc with rfl | rfl | rfl
  · exact refuses_open (by decide) hhelloo
  · exact refuses_open (by decide) hshel
  · exact refuses_open List.not_mem_nil fun f _ hnil => by
      have hlength := f.nameLength.1
      rw [hnil] at hlength
      exact absurd hlength (by decide)

private theorem errUnopened_pass (buf : Nat → UInt8) :
    Passes files (errUnopened buf) (asBytes "err_unopened: PASS\n") := by
  refine refusals_pass (by decide) (fun os hviews c hc buf => ?_) buf
  rw [List.mem_append, List.mem_append, List.mem_map, List.mem_map, List.mem_map] at hc
  have hstd : ∀ fd ∈ ([2, 3, 4, 5, 6, 7] : List Int), fd ≠ 0 ∧ fd ≠ 1 := by decide
  rcases hc with (⟨fd, -, rfl⟩ | ⟨fd, hfd, rfl⟩) | ⟨fd, hfd, rfl⟩
  · exact refuses_close hviews fd
  · exact refuses_read hviews (hstd fd hfd).1
  · exact refuses_write hviews (hstd fd hfd).2 buf

private theorem errVidmap_pass (buf : Nat → UInt8) : Passes files (errVidmap buf) (asBytes "err_vidmap: PASS\n") := by
  refine refusals_pass (by decide) (fun os _ c hc buf => ?_) buf
  simp only [List.mem_cons, List.not_mem_nil, or_false] at hc
  rcases hc with rfl | rfl <;> exact refuses_vidmap (by decide)

private theorem errStdinOut_pass (buf : Nat → UInt8) :
    Passes files (errStdinOut buf) (asBytes "err_stdin_out: PASS\n") := by
  refine refusals_pass (by decide) (fun os hviews c hc buf => ?_) buf
  simp only [List.mem_cons, List.not_mem_nil, or_false] at hc
  rcases hc with rfl | rfl
  · exact refuses_write hviews (by decide) buf
  · exact refuses_read hviews (by decide)

private theorem errSyscallNum_pass (buf : Nat → UInt8) :
    Passes files (errSyscallNum buf) (asBytes "err_syscall_num: PASS\n") := by
  refine refusals_pass (by decide) (fun os _ c hc buf => ?_) buf
  simp only [List.mem_cons, List.not_mem_nil, or_false] at hc
  rcases hc with rfl | rfl | rfl <;> exact refuses_number (by decide)

/-! #### The descriptors used up -/

private theorem Os.open_full (h : os.free = none) (filename : List UInt8) : os.open_ filename = (os, -1) := by
  unfold Os.open_
  rw [h]
  cases files.find? fun f => f.name = filename.take 32 <;> rfl

private theorem Os.close_directory {d : Fin 8} (hd : 2 ≤ d.val) (h : os.views d = some .directory) :
    os.close d.val = ((os.setView d none).moveTo 0, 0) := by
  have hview : os.view d.val = some .directory := by rw [Os.view_val hd, h]
  unfold Os.close
  rw [hview, Os.index_val]

/-- The directory is open at the descriptors from `lo` to below `hi`. -/
def opened (lo hi : Nat) (d : Fin 8) : Option View := if lo ≤ d.val ∧ d.val < hi then some .directory else none

private theorem opened_free {hi : Nat} (hviews : os.views = opened 2 hi) (hlo : 2 ≤ hi) (hhi : hi < 8) :
    os.free = some ⟨hi, hhi⟩ ∧ Function.update (opened 2 hi) ⟨hi, hhi⟩ (some .directory) = opened 2 (hi + 1) := by
  constructor
  · unfold Os.free
    rw [hviews]
    interval_cases hi <;> rfl
  · funext d
    by_cases hd : d = ⟨hi, hhi⟩
    · subst hd
      rw [Function.update_self, opened, if_pos ⟨hlo, Nat.lt_succ_self hi⟩]
    · have hne : d.val ≠ hi := fun h => hd (Fin.ext h)
      rw [Function.update_of_ne hd, opened, opened]
      exact if_congr (by omega) rfl rfl

/-- The directory is opened until the descriptors are used up, and then the openings fail. -/
private theorem openLots_ensures (hdistinct : (files.map File.name).Nodup) {f : File} (hf : f ∈ files)
    (hname : f.name = asBytes ".") (htype : f.filetype = 1) (n : Nat) {hi : Nat} (hlo : 2 ≤ hi) (hhi : hi ≤ 8)
    (hviews : os.views = opened 2 hi) (cnt : Int) :
    (openLots n cnt).Ensures (osService files)
      (fun a t => a = cnt + (n - (8 - hi) : Nat) ∧ t.views = opened 2 (min 8 (hi + n)) ∧ t.out = os.out) os := by
  induction n generalizing hi cnt os with
  | zero =>
    rw [show 0 - (8 - hi) = 0 by omega, show min 8 (hi + 0) = hi by omega]
    exact ⟨(Int.add_zero cnt).symm, hviews, rfl⟩
  | succ n ih =>
    rw [openLots, ensures_bind, ensures_open]
    refine ⟨by decide, ?_⟩
    by_cases hroom : hi < 8
    · obtain ⟨hfree, hnext⟩ := opened_free hviews hlo hroom
      rw [Os.open_dot hdistinct hf hname htype hfree]
      dsimp only
      rw [if_neg (by omega)]
      refine (ih (by omega) hroom ?_ cnt).mono ?_
      · rw [Os.moveTo_views, Os.setView_views, hviews, hnext]
      · rintro a t ⟨rfl, hviews', hout⟩
        rw [show n - (8 - (hi + 1)) = n + 1 - (8 - hi) by omega]
        rw [show hi + 1 + n = hi + (n + 1) by omega] at hviews'
        exact ⟨rfl, hviews', hout⟩
    · obtain rfl : hi = 8 := by omega
      have hfull : os.free = none := by
        unfold Os.free
        rw [hviews]
        rfl
      rw [Os.open_full hfull]
      dsimp only
      rw [if_pos rfl]
      refine (ih (by decide) (le_refl 8) hviews (cnt + 1)).mono ?_
      rintro a t ⟨rfl, hviews', hout⟩
      refine ⟨by omega, ?_, hout⟩
      rw [hviews', show min 8 (8 + n) = min 8 (8 + (n + 1)) by omega]

/-- The descriptors of the directory are closed. -/
private theorem closeLots_ensures (n : Nat) {lo : Nat} (hlo : 2 ≤ lo) (hn : lo + n ≤ 8)
    (hviews : os.views = opened lo 8) : (closeLots ((List.range' lo n).map Nat.cast)).Ensures (osService files)
      (fun _ t => t.views = opened (lo + n) 8 ∧ t.out = os.out) os := by
  induction n generalizing lo os with
  | zero => exact ⟨hviews, rfl⟩
  | succ n ih =>
    have hopen : os.views ⟨lo, by omega⟩ = some .directory := by
      rw [hviews, opened, if_pos ⟨le_refl lo, by dsimp only; omega⟩]
    have hclose : os.close (lo : Int) = _ := Os.close_directory hlo hopen
    rw [List.range'_succ, List.map_cons, closeLots, ensures_bind, ensures_close, hclose]
    refine (ih (by omega) (by omega) ?_).mono ?_
    · rw [Os.moveTo_views, Os.setView_views, hviews]
      funext d
      by_cases hd : d = ⟨lo, by omega⟩
      · subst hd
        rw [Function.update_self, opened, if_neg (by dsimp only; omega)]
      · have hne : d.val ≠ lo := fun h => hd (Fin.ext h)
        rw [Function.update_of_ne hd, opened, opened]
        exact if_congr (by omega) rfl rfl
    · rintro _ t ⟨hviews', hout⟩
      rw [show lo + 1 + n = lo + (n + 1) by omega] at hviews'
      exact ⟨hviews', hout⟩

private theorem errOpenLots_pass (hdistinct : (files.map File.name).Nodup) {f : File} (hf : f ∈ files)
    (hname : f.name = asBytes ".") (htype : f.filetype = 1) :
    Passes files errOpenLots (asBytes "err_open_lots: PASS\n") := by
  intro os hviews
  have hnone : os.views = opened 2 2 := by
    funext d
    rw [hviews d, opened, if_neg (by omega)]
  rw [errOpenLots, ensures_bind]
  refine (openLots_ensures hdistinct hf hname htype 7 (le_refl 2) (by decide) hnone 0).mono ?_
  rintro cnt t ⟨rfl, hfull, hout⟩
  rw [ensures_bind]
  refine (closeLots_ensures 6 (le_refl 2) (by decide) hfull).mono ?_
  rintro - t' ⟨hclosed, hout'⟩
  have hclosed' : ∀ d, t'.views d = none := by
    intro d
    rw [hclosed, opened, if_neg (by omega)]
  refine (verdict_pass "err_open_lots" (by decide) t' hclosed').mono ?_
  rintro a t'' ⟨ha, hviews'', hout''⟩
  rw [hout''.trans (congrArg (· ++ _) (hout'.trans hout))]
  exact ⟨ha, hviews'', rfl⟩

/-! ### The menu -/

/-- What is printed for a number of the menu. -/
def testText : Int → List UInt8
  | 1 => asBytes "err_neg_fd: PASS\n"
  | 2 => asBytes "err_big_fd: PASS\n"
  | 3 => asBytes "err_open_lots: PASS\n"
  | 4 => asBytes "err_open: PASS\n"
  | 5 => asBytes "err_unopened: PASS\n"
  | 6 => asBytes "err_vidmap: PASS\n"
  | 7 => asBytes "err_stdin_out: PASS\n"
  | 8 => asBytes "err_syscall_num: PASS\n"
  | _ => asBytes "Invalid test number. Choose from tests 1-8 or 0"

def syserrText (select : Int) : List UInt8 :=
  if select = 0 then (([1, 2, 3, 4, 5, 6, 7, 8] : List Int).map testText).flatten ++ asBytes "\nOverall Tests: PASS\n"
  else testText select

/-- The number that has been typed, by what the read has returned: the first character of the buffer. -/
def chosenTest (buf : Nat → UInt8) (r : CallResult) : Int := ((storeAt buf 0 r.2 0).toNat : Int) - 0x30

/-- The files with which every test passes. -/
structure Testable (files : List File) : Prop where
  distinct : (files.map File.name).Nodup
  dot : ∃ f ∈ files, f.name = asBytes "." ∧ f.filetype = 1
  helloo : ∀ f ∈ files, f.name ≠ asBytes "helloo"
  shel : ∀ f ∈ files, f.name ≠ asBytes "shel"

private theorem selfTest_pass (h : Testable files) (frame : Nat → Nat → UInt8) {i : Int}
    {test : Program Syscall CallResult Int} (htest : selfTest frame i = some test) :
    Passes files test (testText i) := by
  obtain ⟨f, hf, hname, htype⟩ := h.dot
  unfold selfTest at htest
  split at htest <;> cases htest
  · exact refusals_pass (by decide) (fun os hviews => fdCalls_refused hviews (by decide) (by decide)) _
  · exact refusals_pass (by decide) (fun os hviews => fdCalls_refused hviews (by decide) (by decide)) _
  · exact errOpenLots_pass h.distinct hf hname htype
  · exact errOpen_pass h.helloo h.shel _
  · exact errUnopened_pass _
  · exact errVidmap_pass _
  · exact errStdinOut_pass _
  · exact errSyscallNum_pass _

private theorem allTests_pass {tests : List (Program Syscall CallResult Int)} {texts : List (List UInt8)}
    (h : List.Forall₂ (Passes files) tests texts) : Passes files (allTests tests 0) texts.flatten := by
  induction h with
  | nil => exact fun os hviews => ⟨rfl, hviews, (List.append_nil _).symm⟩
  | cons htest _ ih =>
    intro os hviews
    rw [allTests, ensures_bind]
    refine (htest os hviews).mono ?_
    rintro _ t ⟨rfl, hviews', hout⟩
    refine (ih t hviews').mono ?_
    rintro a t' ⟨ha, hviews'', hout'⟩
    exact ⟨ha, hviews'', by rw [hout', hout, List.flatten_cons, List.append_assoc]⟩

private theorem testText_none {frame : Nat → Nat → UInt8} {i : Int} (h : selfTest frame i = none) :
    testText i = asBytes "Invalid test number. Choose from tests 1-8 or 0" := by
  unfold selfTest at h
  split at h <;> cases h
  -- the number is none of 1 to 8
  unfold testText
  split <;> first | contradiction | rfl

/-- The tests that a number chooses, over what they see. -/
private theorem chosen_ensures (h : Testable files) (hviews : ∀ d, os.views d = none) (frame : Nat → Nat → UInt8)
    (select : Int) :
    Program.Ensures (osService files) (if select = 0 then do
        let fail ← allTests (([1, 2, 3, 4, 5, 6, 7, 8] : List Int).filterMap (selfTest frame)) 0
        fdputs 1 (asBytes (if fail ≠ 0 then "\nOverall Tests: FAIL\n" else "\nOverall Tests: PASS\n"))
        pure fail
      else
        match selfTest frame select with
        | some test => test
        | none => do
          fdputs 1 (asBytes "Invalid test number. Choose from tests 1-8 or 0")
          pure 0)
      (fun a t => a = 0 ∧ t.out = os.out ++ syserrText select) os := by
  by_cases hzero : select = 0
  · have htests : List.Forall₂ (Passes files) (([1, 2, 3, 4, 5, 6, 7, 8] : List Int).filterMap (selfTest frame))
        (([1, 2, 3, 4, 5, 6, 7, 8] : List Int).map testText) :=
      .cons (selfTest_pass h frame rfl) (.cons (selfTest_pass h frame rfl) (.cons (selfTest_pass h frame rfl)
        (.cons (selfTest_pass h frame rfl) (.cons (selfTest_pass h frame rfl) (.cons (selfTest_pass h frame rfl)
          (.cons (selfTest_pass h frame rfl) (.cons (selfTest_pass h frame rfl) .nil)))))))
    rw [if_pos hzero, ensures_bind]
    refine (allTests_pass htests os hviews).mono ?_
    rintro _ t ⟨rfl, -, hout⟩
    rw [if_neg (by decide), ensures_bind, ensures_fdputs]
    refine ⟨by decide, rfl, ?_⟩
    rw [Os.print_out, hout, syserrText, if_pos hzero, List.append_assoc]
  · rw [if_neg hzero, syserrText, if_neg hzero]
    cases htest : selfTest frame select with
    | some test =>
      refine (selfTest_pass h frame htest os hviews).mono ?_
      rintro a t ⟨ha, -, hout⟩
      exact ⟨ha, hout⟩
    | none =>
      dsimp only
      rw [ensures_bind, ensures_fdputs, testText_none htest]
      exact ⟨by decide, rfl, rfl⟩

/-- `syserr`, over what it sees: the second call is the read. -/
private theorem syserr_ensures (h : Testable files) (hviews : ∀ d, os.views d = none) (frame : Nat → Nat → UInt8)
    (buf : Nat → UInt8) :
    (syserr frame buf).Ensures (osService files).logged (fun a t => a = 0 ∧ ∃ r, t.2[1]? = some (.read 0 127, r) ∧
      t.1.out = os.out ++ (asBytes "Choose from tests 1-8. 0 to run all: " ++ syserrText (chosenTest buf r)))
      (os, []) := by
  have hlength : (asBytes "Choose from tests 1-8. 0 to run all: ").length < 2147483648 := by decide
  rw [syserr, ensures_bind, fdputs, ensures_bind]
  refine ⟨hlength, ?_⟩
  rintro w ⟨os', _⟩ ⟨⟨hwrite, -⟩, rfl⟩
  obtain ⟨rfl, -⟩ := Prod.mk.inj hwrite
  rw [ensures_ret, ensures_pure, ensures_bind]
  refine ⟨⟨by decide, by decide⟩, ?_⟩
  rintro r ⟨os', _⟩ ⟨⟨rfl, hr⟩, rfl⟩
  have hcount : ¬r.1 = -1 := by
    rcases hr with rfl | ⟨hr, -⟩
    · decide
    · omega
  dsimp only
  rw [ensures_ret, if_neg hcount]
  have hprinted : ∀ d, (os.print (asBytes "Choose from tests 1-8. 0 to run all: ")).views d = none := hviews
  refine ((chosen_ensures h hprinted frame (chosenTest buf r)).logged _).mono ?_
  rintro a t ⟨⟨ha, hout⟩, rest, hrest⟩
  refine ⟨ha, r, by rw [hrest]; rfl, ?_⟩
  rw [hout, Os.print_out, List.append_assoc]

end Refusals

/-- The kernel passes the tests of `syserr`, whichever the first character chooses of what is typed. -/
theorem selfTests_pass {files : List File} {inodes blocks : Nat} {args : List UInt8} {k : Kernel}
    (h : ProgramStarted files inodes blocks args k) (hdot : ∃ f ∈ files, f.name = asBytes "." ∧ f.filetype = 1)
    (hhelloo : ∀ f ∈ files, f.name ≠ asBytes "helloo") (hshel : ∀ f ∈ files, f.name ≠ asBytes "shel")
    (frame : Nat → Nat → UInt8) (buf : Nat → UInt8) :
    (syserr frame buf).Ensures kernelService.logged (fun a s => a = 0 ∧ ∃ r, s.2[1]? = some (.read 0 127, r) ∧
      s.1.printed = asBytes "Choose from tests 1-8. 0 to run all: " ++ syserrText (chosenTest buf r))
      (⟨k, []⟩, []) := by
  obtain ⟨os, hfresh, hsees⟩ := h.sees
  refine ((kernel_refines files inodes blocks).logged.ensures (t := (⟨k, []⟩, []))
    (syserr_ensures ⟨h.distinct, hdot, hhelloo, hshel⟩ hfresh.views frame buf) ⟨hsees, rfl⟩).mono ?_
  rintro a ⟨s, log⟩ ⟨⟨os', _⟩, ⟨hsees', rfl⟩, ha, r, hread, hout⟩
  refine ⟨ha, r, hread, ?_⟩
  rw [hfresh.out] at hout
  exact hsees'.out.trans hout

/-- The machine with one program and its directory. -/
theorem dotProgram_selfTests :
    (syserr (fun _ _ => 0) fun _ => 0).Ensures kernelService.logged (fun a s => a = 0 ∧
      ∃ r, s.2[1]? = some (.read 0 127, r) ∧
        s.1.printed = asBytes "Choose from tests 1-8. 0 to run all: " ++ syserrText (chosenTest (fun _ => 0) r))
      (⟨dotProgram, []⟩, []) :=
  selfTests_pass dotProgram_started ⟨dotFile, by simp, rfl, rfl⟩ (by decide) (by decide) (fun _ _ => 0) fun _ => 0

end BigChungOS
