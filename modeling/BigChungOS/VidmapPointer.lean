import BigChungOS.VideoMap

/-!
# The pointer of `sys_vidmap`

`sys_vidmap` compares its argument with both ends of the user page, and takes the end itself for a part of it.  It does
not ask whether the four bytes it stores fit, either: from three bytes before the end on the store runs into the next
page, which is not there, and the kernel faults.  Every other pointer is handled as it should be, and the address that
is stored is that of a page which the user has (`vidmap_pointer_iff`).
-/

namespace BigChungOS

open Memory

/-! ### Stores of the kernel -/

section Walk

variable {a : TableAddrs} {pg : Paging} {p : Fin 6} {v : Nat}

private theorem kernelWalk_user (h : UserMapped a pg p) (hlo : 0x8000000 ≤ v) (hhi : v < 0x8400000) :
    kernelWalk a pg v = some (userFrame p + (v - 0x8000000)) := by
  have hentry : v / 0x400000 = 32 := by omega
  have hframe : userFrame p % 0x400000 = 0 := by unfold userFrame; omega
  have hpresent : (userFrame p + 0x97).testBit 0 = true := testBit_add (by omega) (by omega) (by omega)
  have hlarge : (userFrame p + 0x97).testBit 7 = true := testBit_add (by omega) (by omega) (by omega)
  simp only [kernelWalk, hentry, h.user, hpresent, hlarge, Bool.not_true, Bool.false_eq_true, ↓reduceIte]
  simp only [Option.some.injEq]
  omega

/-- The page behind the user page is not there. -/
private theorem kernelWalk_behind (h : UserMapped a pg p) (hlo : 0x8400000 ≤ v) (hhi : v < 0x8401000) :
    kernelWalk a pg v = none := by
  have hentry : v / 0x400000 = 33 := by omega
  have hpage : v / 4096 % 1024 = 0 := by omega
  have hpde := h.directory 33 (by omega) (by omega)
  rw [pageDirectoryEntry_table2] at hpde
  have haligned := a.aligned2
  have hpresent : (a.pageTable2 + 7).testBit 0 = true := testBit_add haligned (by omega) (by omega)
  have hlarge : (a.pageTable2 + 7).testBit 7 = false := testBit_add haligned (by omega) (by omega)
  have hbase : (a.pageTable2 + 7) / 4096 * 4096 = a.pageTable2 := by omega
  have hpte : pg.pageTable2 0 = 2 := (h.table2 0 (by omega)).trans (pageTable2Entry_eq 0)
  simp [kernelWalk, hentry, hpage, hpde, hpresent, hlarge, hbase, tableAt_pageTable2, hpte]

/-- `sys_vidmap` faults for the pointers that pass the test while a byte of the store is not there. -/
theorem sysVidmap_none_iff (h : UserMapped a pg p) (k : Kernel) (v : UInt32) :
    sysVidmap k v.toNat = none ↔
      (0x8000000 ≤ v.toNat ∧ v.toNat ≤ 0x8400000) ∧ ∃ i < 4, kernelWalk a pg (v.toNat + i) = none := by
  have hfaults : sysVidmap k v.toNat = none ↔ 0x83FFFFD ≤ v.toNat ∧ v.toNat ≤ 0x8400000 := by
    unfold sysVidmap
    split_ifs <;> simp <;> omega
  rw [hfaults]
  constructor
  · rintro ⟨hlo, hhi⟩
    exact ⟨⟨by omega, hhi⟩, 3, by omega, kernelWalk_behind h (by omega) (by omega)⟩
  · rintro ⟨⟨hlo, hhi⟩, i, hi, hwalk⟩
    refine ⟨?_, hhi⟩
    by_contra hbefore
    rw [kernelWalk_user h (by omega) (by omega)] at hwalk
    cases hwalk

end Walk

/-! ### The address that is stored -/

/-- `page` is the start of a 4KB page that is mapped for the user, to the one at `frame`. -/
structure UserPage (a : TableAddrs) (pg : Paging) (page frame : Nat) : Prop where
  aligned : page % 4096 = 0
  small : (pg.pageDirectory (page / 0x400000)).testBit 7 = false
  reached : ∀ acc, ∀ off < 4096, userWalk a pg acc (page + off) = some (frame + off)

private theorem userPage_of_mapped {a : TableAddrs} {pg : Paging} {p : Fin 6} (h : UserMapped a pg p) (t : Fin 3) :
    UserPage a pg (0x8400000 + termPage t) (termPage t) := by
  have hterm := termPage_eq t
  have hpde := h.directory 33 (by omega) (by omega)
  rw [pageDirectoryEntry_table2] at hpde
  refine ⟨by omega, ?_, fun acc off hoff => ?_⟩
  · have hentry : (0x8400000 + termPage t) / 0x400000 = 33 := by omega
    rw [hentry, hpde]
    exact testBit_add a.aligned2 (by omega) (by omega)
  · rw [userWalk_of_mapped h acc (by omega), if_neg (by omega), if_pos (by omega)]
    exact congrArg some (by omega)

private theorem remapped_some (a : TableAddrs) (pg : Paging) (ps : List (Fin 6)) :
    ∃ p, UserMapped a (remapped a pg ps) p := by
  rcases List.eq_nil_or_concat ps with rfl | ⟨ps, p, rfl⟩
  · exact ⟨0, pagingInit_mapped a pg⟩
  · rw [List.concat_eq_append]
    exact ⟨p, remapped_mapped a pg ps p⟩

/-! ### The pointer -/

/-- The four bytes at `v` are in the user page. -/
def InUserPage (v : UInt32) : Prop := ∀ i < 4, 0x8000000 ≤ v.toNat + i ∧ v.toNat + i < 0x8400000

/-- If the four bytes at the pointer are in the user page, then the call returns 0 and stores there, and nowhere else,
the start of a page of the user, which is that of the terminal on screen.  Otherwise it returns -1, and the state is as
before. -/
structure VidmapOk (a : TableAddrs) (pg : Paging) (k : Kernel) (v : UInt32) : Prop where
  accepted : InUserPage v → ∃ mem, sysVidmap k v.toNat =
      some ({ k with userMem := Function.update k.userMem k.pidCounter mem }, 0) ∧
    SameOutside (k.userMem k.pidCounter) mem (v.toNat - 0x8000000) 4 ∧
    UserPage a pg (wordAt mem (v.toNat - 0x8000000)) (termPage k.onScreen)
  refused : ¬InUserPage v → sysVidmap k v.toNat = some (k, -1)

private theorem inUserPage_iff (v : UInt32) : InUserPage v ↔ 0x8000000 ≤ v.toNat ∧ v.toNat ≤ 0x83FFFFC := by
  constructor
  · intro h
    have h0 := h 0 (by omega)
    have h3 := h 3 (by omega)
    omega
  · intro h i hi
    omega

private theorem sysVidmap_inside (k : Kernel) {v : UInt32} (h : InUserPage v) :
    ∃ mem, sysVidmap k v.toNat = some ({ k with userMem := Function.update k.userMem k.pidCounter mem }, 0) ∧
      SameOutside (k.userMem k.pidCounter) mem (v.toNat - 0x8000000) 4 ∧
      wordAt mem (v.toNat - 0x8000000) = 0x8400000 + termPage k.onScreen := by
  rw [inUserPage_iff] at h
  have hpage := termPage_eq k.onScreen
  refine ⟨_, ?_, sameOutside_storeAt _ _ _, wordAt_storeAt _ _ (by omega)⟩
  rw [sysVidmap, if_neg (by omega), if_neg (by omega)]

private theorem sysVidmap_outside (k : Kernel) {v : UInt32} (h : ¬InUserPage v)
    (hnear : ¬(0x83FFFFD ≤ v.toNat ∧ v.toNat ≤ 0x8400000)) : sysVidmap k v.toNat = some (k, -1) := by
  rw [inUserPage_iff] at h
  rw [sysVidmap, if_pos (by omega)]

/-- A pointer that passes the test while the store does not fit. -/
private theorem not_vidmapOk {a : TableAddrs} {pg : Paging} {k : Kernel} {v : UInt32}
    (h : 0x83FFFFD ≤ v.toNat ∧ v.toNat ≤ 0x8400000) : ¬VidmapOk a pg k v := by
  intro hok
  have hrefused := hok.refused (by rw [inUserPage_iff]; omega)
  rw [sysVidmap, if_neg (by omega), if_pos (by omega)] at hrefused
  cases hrefused

/-- `sys_vidmap` does what it should for every pointer but the last three in the user page and the one behind them:
under the tables that `paging_init` builds, and after any calls of `update_user_addr`, the address it stores is that of
a page of the user. -/
theorem vidmap_pointer_iff (a : TableAddrs) (pg : Paging) (ps : List (Fin 6)) (k : Kernel) (v : UInt32) :
    VidmapOk a (remapped a pg ps) k v ↔ ¬(0x83FFFFD ≤ v.toNat ∧ v.toNat ≤ 0x8400000) := by
  refine ⟨fun hok hnear => not_vidmapOk hnear hok, fun hnear => ⟨fun hin => ?_, fun hout => ?_⟩⟩
  · obtain ⟨p, hp⟩ := remapped_some a pg ps
    obtain ⟨mem, hcall, hsame, hword⟩ := sysVidmap_inside k hin
    refine ⟨mem, hcall, hsame, ?_⟩
    rw [hword]
    exact userPage_of_mapped hp k.onScreen
  · exact sysVidmap_outside k hout hnear

/-- The first shell passes the end of its page, and then a pointer with one byte in it. -/
theorem vidmap_end_faults :
    sysVidmap firstShell 0x8400000 = none ∧ sysVidmap firstShell 0x83FFFFF = none ∧
      ¬VidmapOk shellBoot.addrs (remapped shellBoot.addrs firstShell.paging []) firstShell 0x8400000 ∧
      ¬VidmapOk shellBoot.addrs (remapped shellBoot.addrs firstShell.paging []) firstShell 0x83FFFFF :=
  ⟨rfl, rfl, not_vidmapOk (by decide), not_vidmapOk (by decide)⟩

end BigChungOS
