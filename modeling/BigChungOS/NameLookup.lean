import BigChungOS.Descriptors
import BigChungOS.FileImage

/-!
# Looking a name up

`read_dentry_by_name` compares the 32 bytes of each entry with a string that may be longer.  The comparison is with the
first 32 characters of the string (`sameName_take_iff`), so the lookup finds the entry whose name they are
(`Directory.findDentry_eq`).  That is the entry with the whole name, unless the string goes on after 32 characters that
are a name of the directory (`lookup_exact_iff`).
-/

namespace BigChungOS

open Memory

/-! ### Strings and directories -/

/-- The memory at `fname` is a NUL-terminated string. -/
structure IsString (fname : Nat → UInt8) (s : List UInt8) : Prop where
  bytes : (0 : UInt8) ∉ s
  spelled : ∀ i ≤ s.length, fname i = cString s i

/-- The names of the entries of the boot block, in order; a name of 32 characters fills its field. -/
structure Directory (fs : FileSystem) (names : List (List UInt8)) : Prop where
  count : fs.bootBlockMain.dirCount = names.length
  atMost : names.length ≤ 63
  nameLength : ∀ name ∈ names, 1 ≤ name.length ∧ name.length ≤ 32
  nameBytes : ∀ name ∈ names, (0 : UInt8) ∉ name
  distinct : names.Nodup
  entry : ∀ i name, names[i]? = some name → SameName (fs.bootBlockMain.direntries i).filename (cString name) 32

theorem isString_cString {s : List UInt8} (h : (0 : UInt8) ∉ s) : IsString (cString s) s :=
  ⟨h, fun _ _ => rfl⟩

/-- The directory of a mounted image. -/
theorem Layout.directory {fs : FileSystem} {files : List File} {inodes blocks : Nat}
    (h : Layout fs.image files inodes blocks) (hm : Mounted fs) : Directory fs (files.map File.name) where
  count := by rw [h.dirCount hm, List.length_map]
  atMost := by
    rw [List.length_map]
    exact h.atMost
  nameLength name hname := by
    obtain ⟨f, -, rfl⟩ := List.mem_map.1 hname
    exact f.nameLength
  nameBytes name hname := by
    obtain ⟨f, -, rfl⟩ := List.mem_map.1 hname
    exact f.nameBytes
  distinct := h.distinct
  entry i name hname := by
    rw [List.getElem?_map, Option.map_eq_some_iff] at hname
    obtain ⟨f, hf, rfl⟩ := hname
    exact (h.dentry hm hf).1

/-! ### The comparison -/

private theorem cString_take {s : List UInt8} {n i : Nat} (hi : i < n) : cString (s.take n) i = cString s i := by
  unfold cString
  rw [List.getD_eq_getElem?_getD, List.getD_eq_getElem?_getD, List.getElem?_take_of_lt hi]

/-- A string compares equal with its first 32 characters. -/
private theorem IsString.sameName_take {fname : Nat → UInt8} {s : List UInt8} (h : IsString fname s) :
    SameName fname (cString (s.take 32)) 32 := by
  refine ⟨min 32 s.length, Nat.min_le_left _ _, ?_, ?_⟩
  · intro i hi
    have hspelled := h.spelled i (by omega)
    rw [cString_take (by omega), hspelled]
    exact ⟨rfl, (cString_ne_zero h.bytes).2 (by omega)⟩
  · intro hshort
    have hmin : min 32 s.length = s.length := by omega
    have hend : cString s s.length = 0 := List.getD_eq_default _ _ (le_refl _)
    rw [hmin, h.spelled _ (le_refl _), cString_take (by omega), hend]
    exact ⟨rfl, rfl⟩

/-- A name compares equal with a string exactly when it is what the string starts with, up to 32 characters. -/
theorem sameName_take_iff {fname : Nat → UInt8} {name s : List UInt8} (h : IsString fname s)
    (hbytes : (0 : UInt8) ∉ name) (hlength : name.length ≤ 32) :
    SameName (cString name) fname 32 ↔ name = s.take 32 := by
  have htake := h.sameName_take
  constructor
  · intro hsame
    refine SameName.eq hbytes (fun hmem => h.bytes (List.mem_of_mem_take hmem)) hlength ?_ (hsame.trans htake)
    rw [List.length_take]
    exact Nat.min_le_left _ _
  · rintro rfl
    exact htake.symm

/-! ### The lookup -/

namespace Directory

variable {fs : FileSystem} {names : List (List UInt8)} {fname : Nat → UInt8} {s : List UInt8} {i : Nat}

private theorem sameName_iff (h : Directory fs names) (hs : IsString fname s) {name : List UInt8}
    (hname : names[i]? = some name) :
    SameName (fs.bootBlockMain.direntries i).filename fname 32 ↔ name = s.take 32 := by
  have hmem := List.mem_of_getElem? hname
  have hentry := h.entry i name hname
  rw [← sameName_take_iff hs (h.nameBytes name hmem) (h.nameLength name hmem).2]
  exact ⟨hentry.symm.trans, hentry.trans⟩

/-- The entry found is the one whose name the string starts with. -/
theorem findDentry_eq (h : Directory fs names) (hs : IsString fname s) :
    findDentry fs fname = some i ↔ names[i]? = some (s.take 32) := by
  rw [findDentry_eq_some_iff]
  unfold Names
  rw [h.count]
  constructor
  · rintro ⟨hi, hsame, -⟩
    have hget : names[i]? = some names[i] := List.getElem?_eq_getElem hi
    rw [hget, (h.sameName_iff hs hget).1 hsame]
  · intro hget
    have hi : i < names.length := (List.getElem?_eq_some_iff.1 hget).1
    refine ⟨hi, (h.sameName_iff hs hget).2 rfl, ?_⟩
    intro j hj hsame
    have hget' : names[j]? = some names[j] := List.getElem?_eq_getElem (by omega)
    have htake := (h.sameName_iff hs hget').1 hsame
    -- two entries would have the one name
    have hij : j = i := (List.getElem?_inj (by omega) h.distinct).1 (by rw [hget', hget, htake])
    omega

end Directory

/-- `strncpy` from a field that has the name. -/
private theorem strncpy_name {dest src : Nat → UInt8} {name : List UInt8} (hbytes : (0 : UInt8) ∉ name)
    (hlength : name.length ≤ 32) (hsame : SameName src (cString name) 32) {j : Nat} (hj : j < 32) :
    strncpy dest src 32 j = cString name j := by
  obtain ⟨hspells, hend⟩ := hsame.spells hbytes hlength
  unfold strncpy
  rw [if_pos hj]
  by_cases hin : j < name.length
  · have hall : (List.range (j + 1)).all (src · ≠ 0) = true := by
      rw [List.all_eq_true]
      intro i hi
      have hlt := List.mem_range.1 hi
      simpa using (hspells i (by omega)).2
    rw [if_pos hall]
    exact (hspells j hin).1
  · have hnot : ¬(List.range (j + 1)).all (src · ≠ 0) = true := by
      rw [List.all_eq_true]
      intro hall
      have hne := hall name.length (List.mem_range.2 (by omega))
      simp [hend (by omega)] at hne
    have hzero : cString name j = 0 := List.getD_eq_default _ _ (by omega)
    rw [if_neg hnot, hzero]

/-- The lookup of the string `s` at `fname` yields the entry with that name, and fails, as does `sys_open`, when there
is none. -/
structure LooksUp (fs : FileSystem) (names : List (List UInt8)) (fname : Nat → UInt8) (s : List UInt8) : Prop where
  found : ∀ i : Nat, names[i]? = some s → ∀ dentry,
    (readDentryByName fs fname dentry).2 = i ∧
      (∀ j < 32, (readDentryByName fs fname dentry).1.filename j = cString s j) ∧
      (readDentryByName fs fname dentry).1.filetype = (fs.bootBlockMain.direntries i).filetype ∧
      (readDentryByName fs fname dentry).1.inodeNum = (fs.bootBlockMain.direntries i).inodeNum
  missing : s ∉ names → ∀ dentry, readDentryByName fs fname dentry = (dentry, -1)
  openFails : s ∉ names → ∀ k : Kernel, k.fs = fs → sysOpen k fname = some (k, -1)

section Lookup

variable {fs : FileSystem} {names : List (List UInt8)} {fname : Nat → UInt8} {s : List UInt8}

private theorem readDentryByName_eq (h : Directory fs names) {i : Nat} {name : List UInt8}
    (hfind : findDentry fs fname = some i) (hname : names[i]? = some name) (dentry : DentryT) :
    (readDentryByName fs fname dentry).2 = i ∧
      (∀ j < 32, (readDentryByName fs fname dentry).1.filename j = cString name j) ∧
      (readDentryByName fs fname dentry).1.filetype = (fs.bootBlockMain.direntries i).filetype ∧
      (readDentryByName fs fname dentry).1.inodeNum = (fs.bootBlockMain.direntries i).inodeNum := by
  have hi : i < names.length := (List.getElem?_eq_some_iff.1 hname).1
  have hmem := List.mem_of_getElem? hname
  have hcount : i < fs.bootBlockMain.dirCount := by
    rw [h.count]
    exact hi
  have hle := h.atMost
  simp only [readDentryByName, hfind, readDentryByIndex, if_pos hcount, and_true]
  refine ⟨toInt32_of_mem (by omega) (by omega), ?_⟩
  intro j hj
  exact strncpy_name (h.nameBytes name hmem) (h.nameLength name hmem).2 (h.entry i name hname) hj

/-- The lookup is by the whole name, unless the string starts with 32 characters that are a name and goes on. -/
theorem lookup_exact_iff (h : Directory fs names) (hs : IsString fname s) :
    LooksUp fs names fname s ↔ ¬(32 < s.length ∧ s.take 32 ∈ names) := by
  constructor
  · rintro hlook ⟨hlong, hmem⟩
    have hnot : s ∉ names := fun hin => by
      have hle := (h.nameLength s hin).2
      omega
    obtain ⟨i, hi⟩ := List.mem_iff_getElem?.1 hmem
    have hret := (readDentryByName_eq h ((h.findDentry_eq hs).2 hi) hi emptyDentry).1
    rw [hlook.missing hnot] at hret
    omega
  · intro hexact
    have hnone : s ∉ names → findDentry fs fname = none := by
      intro hnot
      rw [Option.eq_none_iff_forall_not_mem]
      intro i hfind
      have hget := (h.findDentry_eq hs).1 hfind
      by_cases hlong : 32 < s.length
      · exact hexact ⟨hlong, List.mem_of_getElem? hget⟩
      · rw [List.take_of_length_le (by omega)] at hget
        exact hnot (List.mem_of_getElem? hget)
    refine ⟨?_, fun hnot => readDentryByName_none (hnone hnot), ?_⟩
    · intro i hget
      have hle := (h.nameLength s (List.mem_of_getElem? hget)).2
      refine readDentryByName_eq h ((h.findDentry_eq hs).2 ?_) hget
      rwa [List.take_of_length_le hle]
    · rintro hnot k rfl
      unfold sysOpen
      rw [readDentryByName_none (hnone hnot)]
      rfl

end Lookup

/-- A directory with one name, of 32 characters. -/
def longNameFs : FileSystem where
  bootBlockPtr := 0x500000
  image := fun _ => 0
  bootBlockMain :=
    { dirCount := 1, inodeCount := 1, dataCount := 0
      direntries := fun _ => ⟨cString (asBytes "verylargetextwithverylongname.tx"), 2, 0⟩ }
  currDir := 0
  dirIsOpen := true

private theorem longNameFs_directory : Directory longNameFs [asBytes "verylargetextwithverylongname.tx"] where
  count := rfl
  atMost := by decide
  nameLength := by decide
  nameBytes := by decide
  distinct := by decide
  entry i name hname := by
    have hname := List.mem_singleton.1 (List.mem_of_getElem? hname)
    subst hname
    have hspelled : ∀ j < 32, cString (asBytes "verylargetextwithverylongname.tx") j =
        cString (asBytes "verylargetextwithverylongname.tx") j ∧
        cString (asBytes "verylargetextwithverylongname.tx") j ≠ 0 := by decide
    exact ⟨32, le_refl _, hspelled, fun hlt => absurd hlt (lt_irrefl _)⟩

/-- The name itself is looked up exactly. -/
theorem longName_exact_iff :
    LooksUp longNameFs [asBytes "verylargetextwithverylongname.tx"]
        (cString (asBytes "verylargetextwithverylongname.tx")) (asBytes "verylargetextwithverylongname.tx") ↔
      ¬(32 < (asBytes "verylargetextwithverylongname.tx").length ∧
        (asBytes "verylargetextwithverylongname.tx").take 32 ∈ [asBytes "verylargetextwithverylongname.tx"]) :=
  lookup_exact_iff longNameFs_directory (isString_cString (by decide))

/-- A string of 33 characters is found under the name of 32. -/
theorem longer_name_found :
    Directory longNameFs [asBytes "verylargetextwithverylongname.tx"] ∧
      IsString (cString (asBytes "verylargetextwithverylongname.txt")) (asBytes "verylargetextwithverylongname.txt") ∧
      ¬LooksUp longNameFs [asBytes "verylargetextwithverylongname.tx"]
        (cString (asBytes "verylargetextwithverylongname.txt")) (asBytes "verylargetextwithverylongname.txt") := by
  refine ⟨longNameFs_directory, isString_cString (by decide), ?_⟩
  intro hlook
  have hmissing := hlook.missing (by decide) emptyDentry
  have hfound :
      (readDentryByName longNameFs (cString (asBytes "verylargetextwithverylongname.txt")) emptyDentry).2 = 0 := by
    decide +kernel
  rw [hmissing] at hfound
  omega

end BigChungOS
