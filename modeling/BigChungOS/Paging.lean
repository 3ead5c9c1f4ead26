import BigChungOS.State

/-!
# Paging (memory.c)

`paging_init` and `update_user_addr`, the two-level walk of the processor over the tables they build, and what a
user program can reach through it: its own 4MB frame and the four video pages, and nothing else.
-/

namespace BigChungOS

open Memory

/-- Where the linker put the two page tables: two different 4096-byte aligned addresses (`.align COMMON_SIZE*4`
in x86_desc.S). -/
structure TableAddrs where
  pageTable1 : Nat
  pageTable2 : Nat
  aligned1 : pageTable1 % 4096 = 0
  aligned2 : pageTable2 % 4096 = 0
  distinct : pageTable1 ≠ pageTable2

/-! ### The flag bits of an entry (memory.h) -/

def flagP : Nat := 0x1
def flagRW : Nat := 0x2
def flagUS : Nat := 0x4
def flagPCD : Nat := 0x10
def flagPS : Nat := 0x80
def flagG : Nat := 0x100
def kernelPg : Nat := 0x400000
def userPg : Nat := 0x800000
def vidMem : Nat := 0xB8000

/-- The value the first loop of `paging_init` leaves in `page_directory[i]`. -/
def pageDirectoryEntry (a : TableAddrs) (i : Nat) : Nat :=
  let e := if i = 0 then flagP ||| flagRW ||| ((a.pageTable1 >>> 12) <<< 12) else 0
  let e := if i = 1 then e ||| flagP ||| flagRW ||| flagPCD ||| flagPS ||| flagG ||| kernelPg else e
  let e := if i = 32 then e ||| flagP ||| flagRW ||| flagUS ||| flagPCD ||| flagPS ||| userPg else e
  if i = 33 then e ||| flagP ||| flagRW ||| flagUS ||| ((a.pageTable2 >>> 12) <<< 12) else e ||| flagRW

/-- The value the second and the third loop of `paging_init` leave in entry `i` of their table: the third one also
sets the bit `us` in the four video pages. -/
def videoTableEntry (us i : Nat) : Nat :=
  let e := if i = vidMem >>> 12 then flagP ||| flagRW ||| us ||| vidMem else 0
  let e := if i = termPage 0 >>> 12 then e ||| flagP ||| flagRW ||| us ||| termPage 0 else e
  let e := if i = termPage 1 >>> 12 then e ||| flagP ||| flagRW ||| us ||| termPage 1 else e
  if i = termPage 2 >>> 12 then e ||| flagP ||| flagRW ||| us ||| termPage 2 else e ||| flagRW

def pageTable1Entry : Nat → Nat := videoTableEntry 0
def pageTable2Entry : Nat → Nat := videoTableEntry flagUS

/-- `for (i = 0; i < COMMON_SIZE; i++) table[i] = entry(i)`. -/
def fillTable (entry table : Nat → Nat) : Nat → Nat :=
  (List.range 1024).foldl (fun t i => Function.update t i (entry i)) table

/-- `paging_init`. -/
def pagingInit (a : TableAddrs) (pg : Paging) : Paging where
  pageDirectory := fillTable (pageDirectoryEntry a) pg.pageDirectory
  pageTable1 := fillTable pageTable1Entry pg.pageTable1
  pageTable2 := fillTable pageTable2Entry pg.pageTable2

/-- `update_user_addr`; reloading `cr3` leaves no stale translation behind. -/
def updateUserAddr (pg : Paging) (processNum : Int) : Paging :=
  let e := pg.pageDirectory 32 &&& 0xFFFFF
  { pg with pageDirectory := Function.update pg.pageDirectory 32 (e ||| toUInt32 (userPg + kernelPg * processNum)) }

/-- The frame of process `p`: `USERPG + KERNELPG*p`. -/
def userFrame (p : Fin 6) : Nat := 0x800000 + 0x400000 * p.val

/-- The frame that `page_directory[32]` maps at `0x8000000`. -/
def userBase (pg : Paging) : Nat := pg.pageDirectory 32 / 0x400000 * 0x400000

/-! ### The walk -/

inductive Access
  | read
  | write
deriving DecidableEq

/-- An entry lets a user-mode access through: present, user, and writable for a store. -/
def permits (e : Nat) (acc : Access) : Bool :=
  e.testBit 0 && e.testBit 2 && (acc == .read || e.testBit 1)

/-- The page table at a physical address.  The directory never points anywhere else. -/
def tableAt (a : TableAddrs) (pg : Paging) (base : Nat) : Option (Nat → Nat) :=
  if base = a.pageTable1 then some pg.pageTable1
  else if base = a.pageTable2 then some pg.pageTable2
  else none

/-- The walk for a user-mode access with 4MB pages enabled: the physical address, or `none` for a page fault. -/
def userWalk (a : TableAddrs) (pg : Paging) (acc : Access) (v : Nat) : Option Nat :=
  let pde := pg.pageDirectory (v / 0x400000)
  if !permits pde acc then none
  else if pde.testBit 7 then some (pde / 0x400000 * 0x400000 + v % 0x400000)
  else
    match tableAt a pg (pde / 4096 * 4096) with
    | none => none
    | some table =>
      let pte := table (v / 4096 % 1024)
      if permits pte acc then some (pte / 4096 * 4096 + v % 4096) else none

/-- The walk for an access of the kernel, which needs the present bits only. -/
def kernelWalk (a : TableAddrs) (pg : Paging) (v : Nat) : Option Nat :=
  let pde := pg.pageDirectory (v / 0x400000)
  if !pde.testBit 0 then none
  else if pde.testBit 7 then some (pde / 0x400000 * 0x400000 + v % 0x400000)
  else
    match tableAt a pg (pde / 4096 * 4096) with
    | none => none
    | some table =>
      let pte := table (v / 4096 % 1024)
      if pte.testBit 0 then some (pte / 4096 * 4096 + v % 4096) else none

/-- The addresses the kernel can access: the video pages, its own page, the user page and the user's video pages. -/
def kernelMapped (v : Nat) : Bool :=
  (0xB8000 ≤ v && v < 0xBC000) || (0x400000 ≤ v && v < 0x800000) || (0x8000000 ≤ v && v < 0x8400000) ||
    (0x84B8000 ≤ v && v < 0x84BC000)

/-! ### The entries -/

private theorem foldl_update_range (entry table : Nat → Nat) (n j : Nat) :
    (List.range n).foldl (fun t i => Function.update t i (entry i)) table j =
      if j < n then entry j else table j := by
  induction n with
  | zero => simp
  | succ n ih =>
    rw [List.range_succ, List.foldl_append]
    by_cases hj : j = n
    · subst hj; simp
    · have hlt : j < n + 1 ↔ j < n := by omega
      simp [Function.update, hj, ih, hlt]

private theorem fillTable_apply (entry table : Nat → Nat) {j : Nat} (hj : j < 1024) :
    fillTable entry table j = entry j := by
  simp [fillTable, foldl_update_range, hj]

private theorem aligned_or (x m : Nat) (hx : x % 4096 = 0) (hm : m < 4096) :
    m ||| ((x >>> 12) <<< 12) = x + m := by
  have hx' : x = 2 ^ 12 * (x / 4096) := by omega
  have hshift : (x >>> 12) <<< 12 = 2 ^ 12 * (x / 4096) := by
    rw [Nat.shiftLeft_eq, Nat.shiftRight_eq_div_pow]; omega
  rw [hshift, Nat.or_comm, ← Nat.two_pow_add_eq_or_of_lt (i := 12) (by omega)]
  omega

private theorem pageDirectoryEntry_zero (a : TableAddrs) : pageDirectoryEntry a 0 = a.pageTable1 + 3 := by
  have h : pageDirectoryEntry a 0 = (flagP ||| flagRW ||| ((a.pageTable1 >>> 12) <<< 12)) ||| flagRW := rfl
  rw [h, Nat.or_comm _ flagRW, ← Nat.or_assoc]
  exact aligned_or _ 3 a.aligned1 (by omega)

private theorem pageDirectoryEntry_kernel (a : TableAddrs) : pageDirectoryEntry a 1 = 0x400193 := by
  simp [pageDirectoryEntry, flagP, flagRW, flagPCD, flagPS, flagG, kernelPg]

private theorem pageDirectoryEntry_user (a : TableAddrs) : pageDirectoryEntry a 32 = 0x800097 := by
  simp [pageDirectoryEntry, flagP, flagRW, flagUS, flagPCD, flagPS, userPg]

theorem pageDirectoryEntry_table2 (a : TableAddrs) : pageDirectoryEntry a 33 = a.pageTable2 + 7 := by
  have h : pageDirectoryEntry a 33 = 7 ||| ((a.pageTable2 >>> 12) <<< 12) := by
    simp [pageDirectoryEntry, flagP, flagRW, flagUS]
  rw [h]
  exact aligned_or _ 7 a.aligned2 (by omega)

private theorem pageDirectoryEntry_other (a : TableAddrs) {i : Nat} (h0 : i ≠ 0) (h1 : i ≠ 1) (h32 : i ≠ 32)
    (h33 : i ≠ 33) : pageDirectoryEntry a i = 2 := by
  simp [pageDirectoryEntry, h0, h1, h32, h33, flagRW]

/-- The third table: the four video pages are mapped for the user, one to one. -/
theorem pageTable2Entry_eq (i : Nat) :
    pageTable2Entry i = if 0xB8 ≤ i ∧ i < 0xBC then i * 4096 + 7 else 2 := by
  by_cases h : 0xB8 ≤ i ∧ i < 0xBC
  · obtain ⟨hlo, hhi⟩ := h
    interval_cases i <;> rfl
  · have h0 : i ≠ 0xB8 := by omega
    have h1 : i ≠ 0xB9 := by omega
    have h2 : i ≠ 0xBA := by omega
    have h3 : i ≠ 0xBB := by omega
    simp [pageTable2Entry, videoTableEntry, vidMem, termPage, flagRW, h, h0, h1, h2, h3]

/-- The first table: the same pages, for the kernel only. -/
private theorem pageTable1Entry_eq (i : Nat) :
    pageTable1Entry i = if 0xB8 ≤ i ∧ i < 0xBC then i * 4096 + 3 else 2 := by
  by_cases h : 0xB8 ≤ i ∧ i < 0xBC
  · obtain ⟨hlo, hhi⟩ := h
    interval_cases i <;> rfl
  · have h0 : i ≠ 0xB8 := by omega
    have h1 : i ≠ 0xB9 := by omega
    have h2 : i ≠ 0xBA := by omega
    have h3 : i ≠ 0xBB := by omega
    simp [pageTable1Entry, videoTableEntry, vidMem, termPage, flagRW, h, h0, h1, h2, h3]

private theorem userEntry_eq (e : Nat) (p : Fin 6) :
    (e &&& 0xFFFFF) ||| toUInt32 (userPg + kernelPg * (p.val : Int)) = userFrame p + e % 0x100000 := by
  have hmask : e &&& 0xFFFFF = e % 0x100000 := Nat.and_two_pow_sub_one_eq_mod e 20
  have hframe : toUInt32 (userPg + kernelPg * (p.val : Int)) = 2 ^ 22 * (2 + p.val) := by
    unfold toUInt32 userPg kernelPg
    have := p.isLt
    push_cast
    omega
  rw [hmask, hframe, Nat.or_comm, ← Nat.two_pow_add_eq_or_of_lt (i := 22) (by omega)]
  unfold userFrame
  omega

/-- Whatever the tables were, `update_user_addr(p)` maps the frame of `p` and keeps the low 20 bits. -/
private theorem updateUserAddr_entry (pg : Paging) (p : Fin 6) :
    (updateUserAddr pg p.val).pageDirectory 32 = userFrame p + pg.pageDirectory 32 % 0x100000 := by
  simp [updateUserAddr, userEntry_eq]

theorem userBase_updateUserAddr (pg : Paging) (p : Fin 6) : userBase (updateUserAddr pg p.val) = userFrame p := by
  rw [userBase, updateUserAddr_entry]
  unfold userFrame
  omega

/-! ### What a user program reaches -/

/-- The tables while process `p` is mapped: those of `paging_init`, with the frame of `p` in the user entry. -/
structure UserMapped (a : TableAddrs) (pg : Paging) (p : Fin 6) : Prop where
  user : pg.pageDirectory 32 = userFrame p + 0x97
  directory : ∀ i < 1024, i ≠ 32 → pg.pageDirectory i = pageDirectoryEntry a i
  table1 : ∀ i < 1024, pg.pageTable1 i = pageTable1Entry i
  table2 : ∀ i < 1024, pg.pageTable2 i = pageTable2Entry i

theorem pagingInit_mapped (a : TableAddrs) (pg : Paging) : UserMapped a (pagingInit a pg) 0 where
  user := by simp [pagingInit, fillTable_apply, pageDirectoryEntry_user, userFrame]
  directory _ hi _ := by simp only [pagingInit, fillTable_apply _ _ hi]
  table1 _ hi := by simp only [pagingInit, fillTable_apply _ _ hi]
  table2 _ hi := by simp only [pagingInit, fillTable_apply _ _ hi]

theorem updateUserAddr_mapped {a : TableAddrs} {pg : Paging} {q : Fin 6} (h : UserMapped a pg q) (p : Fin 6) :
    UserMapped a (updateUserAddr pg p.val) p where
  user := by
    rw [updateUserAddr_entry, h.user]
    unfold userFrame
    omega
  directory i hi hne := by
    have : (updateUserAddr pg p.val).pageDirectory i = pg.pageDirectory i := by simp [updateUserAddr, hne]
    rw [this]
    exact h.directory i hi hne
  table1 := h.table1
  table2 := h.table2

/-- `paging_init` followed by `update_user_addr` for each process of the list. -/
def remapped (a : TableAddrs) (pg : Paging) (ps : List (Fin 6)) : Paging :=
  ps.foldl (fun pg p => updateUserAddr pg p.val) (pagingInit a pg)

theorem remapped_mapped (a : TableAddrs) (pg : Paging) (ps : List (Fin 6)) (p : Fin 6) :
    UserMapped a (remapped a pg (ps ++ [p])) p := by
  have hsome : ∃ q, UserMapped a (remapped a pg ps) q := by
    induction ps using List.reverseRecOn with
    | nil => exact ⟨0, pagingInit_mapped a pg⟩
    | append_singleton ps p ih =>
      obtain ⟨q, hq⟩ := ih
      rw [remapped, List.foldl_append]
      exact ⟨p, updateUserAddr_mapped hq p⟩
  obtain ⟨q, hq⟩ := hsome
  rw [remapped, List.foldl_append]
  exact updateUserAddr_mapped hq p

/-- An entry whose low 12 bits are `m` has the flag bits of `m`. -/
theorem testBit_add {x m : Nat} (hx : x % 4096 = 0) (hm : m < 4096) {j : Nat} (hj : j < 12) :
    (x + m).testBit j = m.testBit j := by
  have hx' : x + m = 2 ^ 12 * (x / 4096) + m := by omega
  rw [hx', Nat.testBit_two_pow_mul_add _ (by omega)]
  simp [hj]

private theorem permits_add {x m : Nat} (hx : x % 4096 = 0) (hm : m < 4096) (acc : Access) :
    permits (x + m) acc = permits m acc := by
  have hbit : ∀ j < 12, (x + m).testBit j = m.testBit j := fun j hj => testBit_add hx hm hj
  simp [permits, hbit]

private theorem testBit_seven_add {x m : Nat} (hx : x % 4096 = 0) (hm : m < 4096) :
    (x + m).testBit 7 = m.testBit 7 :=
  testBit_add hx hm (by omega)

/-- The arithmetic of the second table: page `0xB8 + n` of directory entry 33 is the video page `0xB8000 + n*4096`. -/
private theorem video_address {v : Nat} (h33 : v / 0x400000 = 33)
    (hvid : 0xB8 ≤ v / 4096 % 1024 ∧ v / 4096 % 1024 < 0xBC) :
    (0x84B8000 ≤ v ∧ v < 0x84BC000) ∧
      (v / 4096 % 1024 * 4096 + 7) / 4096 * 4096 + v % 4096 = 0xB8000 + (v - 0x84B8000) := by
  have hpage : v = 0x8400000 + (v / 4096 % 1024) * 4096 + v % 4096 := by omega
  have hoff : v % 4096 < 4096 := by omega
  generalize v / 4096 % 1024 = i at *
  generalize v % 4096 = r at *
  clear h33
  omega

section Walk

variable {a : TableAddrs} {pg : Paging} {p : Fin 6} {v : Nat}

/-- Directory entry 32 is the user page. -/
private theorem userWalk_user (h : UserMapped a pg p) (acc : Access) (h32 : v / 0x400000 = 32) :
    userWalk a pg acc v = some (0x800000 + 0x400000 * p.val + (v - 0x8000000)) := by
  have hperm : permits (userFrame p + 0x97) acc = true := by
    rw [permits_add (by unfold userFrame; omega) (by omega)]
    cases acc <;> rfl
  have hps : (userFrame p + 0x97).testBit 7 = true := by
    rw [testBit_seven_add (by unfold userFrame; omega) (by omega)]
    rfl
  simp only [userWalk, h32, h.user, hperm, hps, Bool.not_true, Bool.false_eq_true, ↓reduceIte]
  simp only [Option.some.injEq]
  unfold userFrame
  omega

private theorem tableAt_pageTable1 (a : TableAddrs) (pg : Paging) : tableAt a pg a.pageTable1 = some pg.pageTable1 := by
  simp [tableAt]

theorem tableAt_pageTable2 (a : TableAddrs) (pg : Paging) : tableAt a pg a.pageTable2 = some pg.pageTable2 := by
  simp [tableAt, a.distinct.symm]

/-- Directory entry 33 is the table of the video pages. -/
private theorem userWalk_video (h : UserMapped a pg p) (acc : Access) (h33 : v / 0x400000 = 33) :
    userWalk a pg acc v =
      if 0x84B8000 ≤ v ∧ v < 0x84BC000 then some (0xB8000 + (v - 0x84B8000)) else none := by
  have hpde := h.directory 33 (by omega) (by omega)
  rw [pageDirectoryEntry_table2] at hpde
  have hperm : permits (a.pageTable2 + 7) acc = true := by
    rw [permits_add a.aligned2 (by omega)]
    cases acc <;> rfl
  have hps : (a.pageTable2 + 7).testBit 7 = false := by
    rw [testBit_seven_add a.aligned2 (by omega)]
    rfl
  have hbase : (a.pageTable2 + 7) / 4096 * 4096 = a.pageTable2 := by
    have := a.aligned2
    omega
  have htable := tableAt_pageTable2 a pg
  have hidx : v / 4096 % 1024 < 1024 := by omega
  simp only [userWalk, h33, hpde, hperm, hps, hbase, htable, h.table2 _ hidx, pageTable2Entry_eq, Bool.not_true,
    Bool.false_eq_true, ↓reduceIte]
  by_cases hvid : 0xB8 ≤ v / 4096 % 1024 ∧ v / 4096 % 1024 < 0xBC
  · have hperm2 : permits (v / 4096 % 1024 * 4096 + 7) acc = true := by
      rw [permits_add (by omega) (by omega)]
      cases acc <;> rfl
    obtain ⟨hrange, hpa⟩ := video_address h33 hvid
    rw [if_pos hvid, if_pos hperm2, if_pos hrange, hpa]
  · have hrange : ¬(0x84B8000 ≤ v ∧ v < 0x84BC000) := by omega
    have hperm2 : permits 2 acc = false := by cases acc <;> rfl
    simp only [hvid, hperm2, hrange, Bool.false_eq_true, ↓reduceIte]

/-- Every other entry lacks the present bit or the user bit. -/
private theorem userWalk_other (h : UserMapped a pg p) (acc : Access) (hi : v / 0x400000 < 1024)
    (h32 : v / 0x400000 ≠ 32) (h33 : v / 0x400000 ≠ 33) : userWalk a pg acc v = none := by
  have hperm : permits (pg.pageDirectory (v / 0x400000)) acc = false := by
    rw [h.directory _ hi h32]
    by_cases h0 : v / 0x400000 = 0
    · rw [h0, pageDirectoryEntry_zero, permits_add a.aligned1 (by omega)]
      cases acc <;> rfl
    · by_cases h1 : v / 0x400000 = 1
      · rw [h1, pageDirectoryEntry_kernel]
        cases acc <;> rfl
      · rw [pageDirectoryEntry_other a h0 h1 h32 h33]
        cases acc <;> rfl
  simp only [userWalk, hperm, Bool.not_false, ↓reduceIte]

/-- The walk, worked out for every address: the user page, the video pages, and page faults everywhere else. -/
theorem userWalk_of_mapped (h : UserMapped a pg p) (acc : Access) (hv : v < 4294967296) :
    userWalk a pg acc v =
      if 0x8000000 ≤ v ∧ v < 0x8400000 then some (0x800000 + 0x400000 * p.val + (v - 0x8000000))
      else if 0x84B8000 ≤ v ∧ v < 0x84BC000 then some (0xB8000 + (v - 0x84B8000))
      else none := by
  by_cases h32 : v / 0x400000 = 32
  · rw [userWalk_user h acc h32, if_pos (by omega)]
  rw [if_neg (by omega)]
  by_cases h33 : v / 0x400000 = 33
  · exact userWalk_video h acc h33
  · rw [userWalk_other h acc (by omega) h32 h33, if_neg (by omega)]

/-- A directory entry that points to a table of the video pages. -/
private theorem kernelWalk_table {base m us : Nat} {table : Nat → Nat} (hbase : base % 4096 = 0)
    (hpde : pg.pageDirectory (v / 0x400000) = base + m) (hm : m = 3 ∨ m = 7)
    (htable : tableAt a pg base = some table) (hus : us = 3 ∨ us = 7)
    (hentries : ∀ i < 1024, table i = if 0xB8 ≤ i ∧ i < 0xBC then i * 4096 + us else 2) :
    (kernelWalk a pg v).isSome = decide (0xB8 ≤ v / 4096 % 1024 ∧ v / 4096 % 1024 < 0xBC) := by
  have hpresent : (base + m).testBit 0 = true := by
    rw [testBit_add hbase (by omega) (by omega)]
    obtain rfl | rfl := hm <;> rfl
  have hlarge : (base + m).testBit 7 = false := by
    rw [testBit_add hbase (by omega) (by omega)]
    obtain rfl | rfl := hm <;> rfl
  have hstart : (base + m) / 4096 * 4096 = base := by omega
  have hentry := hentries (v / 4096 % 1024) (by omega)
  simp only [kernelWalk, hpde, hpresent, hlarge, hstart, htable, hentry, Bool.not_true, Bool.false_eq_true, ↓reduceIte]
  by_cases hvid : 0xB8 ≤ v / 4096 % 1024 ∧ v / 4096 % 1024 < 0xBC
  · have hpte : (v / 4096 % 1024 * 4096 + us).testBit 0 = true := by
      rw [testBit_add (by omega) (by omega) (by omega)]
      obtain rfl | rfl := hus <;> rfl
    simp [hvid, hpte]
  · simp [hvid]

/-- A directory entry that points to a page of 4MB. -/
private theorem kernelWalk_large {base m : Nat} (hbase : base % 4096 = 0)
    (hpde : pg.pageDirectory (v / 0x400000) = base + m) (hm : m = 0x193 ∨ m = 0x97) :
    (kernelWalk a pg v).isSome = true := by
  have hpresent : (base + m).testBit 0 = true := by
    rw [testBit_add hbase (by omega) (by omega)]
    obtain rfl | rfl := hm <;> rfl
  have hlarge : (base + m).testBit 7 = true := by
    rw [testBit_add hbase (by omega) (by omega)]
    obtain rfl | rfl := hm <;> rfl
  simp [kernelWalk, hpde, hpresent, hlarge]

/-- What the kernel can access, whichever process is mapped. -/
theorem kernelWalk_isSome (h : UserMapped a pg p) (hv : v < 4294967296) :
    (kernelWalk a pg v).isSome = kernelMapped v := by
  by_cases h0 : v / 0x400000 = 0
  · have hpde := h.directory 0 (by omega) (by omega)
    rw [pageDirectoryEntry_zero, ← h0] at hpde
    rw [kernelWalk_table a.aligned1 hpde (.inl rfl) (tableAt_pageTable1 a pg) (.inl rfl)
      fun i hi => (h.table1 i hi).trans (pageTable1Entry_eq i), Bool.eq_iff_iff]
    simp [kernelMapped]
    omega
  by_cases h1 : v / 0x400000 = 1
  · have hpde := h.directory 1 (by omega) (by omega)
    rw [pageDirectoryEntry_kernel, ← h1] at hpde
    have haligned : 0x400000 % 4096 = 0 := by decide
    rw [kernelWalk_large haligned hpde (.inl rfl), Bool.eq_iff_iff]
    simp [kernelMapped]
    omega
  by_cases h32 : v / 0x400000 = 32
  · have hpde := h.user
    rw [← h32] at hpde
    rw [kernelWalk_large (by unfold userFrame; omega) hpde (.inr rfl), Bool.eq_iff_iff]
    simp [kernelMapped]
    omega
  by_cases h33 : v / 0x400000 = 33
  · have hpde := h.directory 33 (by omega) (by omega)
    rw [pageDirectoryEntry_table2, ← h33] at hpde
    rw [kernelWalk_table a.aligned2 hpde (.inr rfl) (tableAt_pageTable2 a pg) (.inr rfl)
      fun i hi => (h.table2 i hi).trans (pageTable2Entry_eq i), Bool.eq_iff_iff]
    simp [kernelMapped]
    omega
  · have hpde := h.directory (v / 0x400000) (by omega) h32
    rw [pageDirectoryEntry_other a h0 h1 h32 h33] at hpde
    simp [kernelWalk, hpde, kernelMapped]
    omega

end Walk

/-- Isolation of user programs.  After `paging_init` and any sequence of `update_user_addr`, the last one for
`p`, a user access goes to the frame of `p` or to the video pages, never to the kernel or to another process. -/
theorem user_isolation (a : TableAddrs) (pg : Paging) (ps : List (Fin 6)) (p : Fin 6) (acc : Access) (v : UInt32) :
    userWalk a (remapped a pg (ps ++ [p])) acc v.toNat =
        (if 0x8000000 ≤ v.toNat ∧ v.toNat < 0x8400000 then
          some (0x800000 + 0x400000 * p.val + (v.toNat - 0x8000000))
        else if 0x84B8000 ≤ v.toNat ∧ v.toNat < 0x84BC000 then some (0xB8000 + (v.toNat - 0x84B8000))
        else none) ∧
      ∀ pa, userWalk a (remapped a pg (ps ++ [p])) acc v.toNat = some pa →
        ¬(0x400000 ≤ pa ∧ pa < 0x800000) ∧
          ∀ q : Fin 6, q ≠ p → ¬(userFrame q ≤ pa ∧ pa < userFrame q + 0x400000) := by
  have hwalk := userWalk_of_mapped (remapped_mapped a pg ps p) acc v.toNat_lt
  refine ⟨hwalk, ?_⟩
  intro pa hpa
  rw [hwalk] at hpa
  have hcases : (userFrame p ≤ pa ∧ pa < userFrame p + 0x400000) ∨ (0xB8000 ≤ pa ∧ pa < 0xBC000) := by
    unfold userFrame
    split at hpa
    · simp only [Option.some.injEq] at hpa; omega
    · split at hpa
      · simp only [Option.some.injEq] at hpa; omega
      · cases hpa
  refine ⟨by unfold userFrame at hcases; omega, ?_⟩
  intro q hq hmem
  have hne : q.val ≠ p.val := fun h => hq (Fin.ext h)
  unfold userFrame at hcases hmem
  omega

end BigChungOS
