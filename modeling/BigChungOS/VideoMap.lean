import BigChungOS.FileImage
import BigChungOS.ScreenIsolation

/-!
# What programs draw through `sys_vidmap`

`sys_vidmap` returns the page of the terminal that is on screen, and the second page table maps the video pages one to
one.  But the page of a terminal shows its screen only while the terminal is not on screen: the display shows
`MAIN_VIDEO`, and the next switch copies that over the page.  So what a program draws while its own terminal is on
screen cannot be seen, and a program that asks for a page while another terminal is on screen gets the page of that one.

Along a run the last byte drawn on each terminal at each offset is kept (`Drawing`).  As long as every program draws on
its own terminal's page and while that terminal is not on screen, all these bytes are shown; and the first store that
does otherwise leaves one that is not, unless it stores what is there already (`vidmap_shown_iff`).
-/

namespace BigChungOS

open Memory Transition

/-! ### Stores of user programs -/

/-- Store a byte at a physical address, below the user frames or in them. -/
def storePhysical (k : Kernel) (pa : Nat) (b : UInt8) : Kernel :=
  if pa < 0x800000 then { k with screen := { k.screen with vram := Function.update k.screen.vram pa b } }
  else { k with userMem := fun p off => if userFrame p + off = pa then b else k.userMem p off }

/-- A user program stores a byte at address `v`; `none` stands for a page fault. -/
def userStore (a : TableAddrs) (k : Kernel) (v : UInt32) (b : UInt8) : Option Kernel :=
  (userWalk a k.paging .write v.toNat).map fun pa => storePhysical k pa b

/-! ### What has been drawn -/

/-- The kernel, the pages `sys_vidmap` has returned to each program, and the last byte that the programs of each
terminal have drawn at each offset, until it is overwritten. -/
structure Drawing (Program : Type*) where
  kernel : Kernel
  pages : Program → List Nat
  drawn : Fin 3 → Fin 4000 → Option UInt8

inductive DrawEvent (Program : Type*)
  | screen (e : ScreenEvent)
  | execute (command : Option (List UInt8)) (frame : Frame)
  | halt (status : UInt8) (frame : Frame)
  | vidmap (p : Program) (screenStart : Nat)
  | write (p : Program) (v : UInt32) (b : UInt8)

/-- The terminal an event prints on. -/
def printsOn (k : Kernel) : ScreenEvent → Option (Fin 3)
  | .tick frame execFrame => some (pitHandler k frame execFrame).1.currTerminal
  | .print _ => some k.currTerminal
  | .echo _ | .erase => some k.onScreen
  | .switch _ | .line _ => none

section Drawing

variable {Program : Type*}

namespace Drawing

/-- The kernel goes on to `k`, with an output on terminal `t` if there is one: what it changes there is overwritten. -/
def goOn (s : Drawing Program) (k : Kernel) (t : Option (Fin 3)) : Drawing Program :=
  { s with
    kernel := k
    drawn := fun u i => if some u = t ∧ screenOf k u i ≠ screenOf s.kernel u i then none else s.drawn u i }

/-- A call of `sys_vidmap` by program `p` has led to the state `k` and returned `r`. -/
def mapped [DecidableEq Program] (s : Drawing Program) (p : Program) (screenStart : Nat) (k : Kernel) (r : Int) :
    Drawing Program :=
  { s with
    kernel := k
    pages := if r = 0 then
        Function.update s.pages p (wordAt (k.userMem k.pidCounter) (screenStart - 0x8000000) :: s.pages p)
      else s.pages }

/-- Address `v` is at offset `i` of a page that `sys_vidmap` has returned to program `p`. -/
def At (s : Drawing Program) (p : Program) (v : UInt32) (i : Fin 4000) : Prop := ∃ page ∈ s.pages p, v.toNat = page + i

instance (s : Drawing Program) (p : Program) (v : UInt32) (i : Fin 4000) : Decidable (s.At p v i) :=
  List.decidableBEx _ _

/-- A store of `b` at `v` by program `p` of terminal `t` has led to the state `k`. -/
def written (s : Drawing Program) (p : Program) (t : Fin 3) (v : UInt32) (b : UInt8) (k : Kernel) : Drawing Program :=
  { s.goOn k (some t) with drawn := fun u i => if u = t ∧ s.At p v i then some b else (s.goOn k (some t)).drawn u i }

/-- What has been drawn on a terminal is on its screen: in `MAIN_VIDEO` while it is on screen, in its own page while it
is not. -/
def Shown (s : Drawing Program) : Prop := ∀ t i b, s.drawn t i = some b → screenOf s.kernel t i = b

end Drawing

/-- Each program belongs to a terminal. -/
inductive DrawStep [DecidableEq Program] (a : TableAddrs) (terminal : Program → Fin 3) :
    Drawing Program → DrawEvent Program → Drawing Program → Prop
  | screen {s : Drawing Program} {e : ScreenEvent} :
      DrawStep a terminal s (.screen e) (s.goOn (screenStep s.kernel e) (printsOn s.kernel e))
  | execute {s : Drawing Program} {command : Option (List UInt8)} {frame : Frame} :
      DrawStep a terminal s (.execute command frame)
        (s.goOn (sysExecute s.kernel command frame).1 (some s.kernel.currTerminal))
  | halt {s : Drawing Program} {status : UInt8} {frame : Frame} :
      DrawStep a terminal s (.halt status frame)
        (s.goOn (sysHalt s.kernel status frame).1 (some s.kernel.currTerminal))
  | vidmap {s : Drawing Program} {p : Program} {screenStart : Nat} {k : Kernel} {r : Int}
      (h : sysVidmap s.kernel screenStart = some (k, r)) :
      DrawStep a terminal s (.vidmap p screenStart) (s.mapped p screenStart k r)
  | write {s : Drawing Program} {p : Program} {v : UInt32} {b : UInt8} {k : Kernel}
      (h : userStore a s.kernel v b = some k) :
      DrawStep a terminal s (.write p v b) (s.written p (terminal p) v b k)

/-- A store to a page that `sys_vidmap` has returned goes to the page of the program's terminal while that terminal is
not on screen, or stores what is on its screen; and a store that hits the screen of another terminal stores what has
been drawn there. -/
def DrawsOnScreen (terminal : Program → Fin 3) (s : Drawing Program) : DrawEvent Program → Prop
  | .write p v b =>
    (∀ i, s.At p v i →
      (terminal p ≠ s.kernel.onScreen ∧ v.toNat = 0x8400000 + termPage (terminal p) + i) ∨
        screenOf s.kernel (terminal p) i = b) ∧
      ∀ u ≠ terminal p, ∀ (i : Fin 4000) (c : UInt8),
        v.toNat = 0x8400000 + screenBase s.kernel u + i → s.drawn u i = some c → c = b
  | .screen _ | .execute _ _ | .halt _ _ | .vidmap _ _ => True

/-! ### What a store does -/

/-- A word that is stored is read back. -/
theorem wordAt_storeAt (m : Nat → UInt8) (lo : Nat) {x : Nat} (hx : x < 4294967296) :
    wordAt (storeAt m lo (wordBytes x)) lo = x := by
  obtain ⟨h0, h1, h2, h3⟩ := storeAt_wordBytes m lo x
  rw [wordAt, h0, h1, h2, h3]
  omega

section Store

variable {a : TableAddrs} {k k' : Kernel} {p : Fin 6}

/-- `sys_vidmap` fails, or returns the page of the terminal on screen. -/
private theorem sysVidmap_cases {screenStart : Nat} {r : Int} (h : sysVidmap k screenStart = some (k', r)) :
    (k' = k ∧ r = -1) ∨
      (r = 0 ∧ k' = { k with userMem := k'.userMem } ∧
        wordAt (k'.userMem k.pidCounter) (screenStart - 0x8000000) = 0x8400000 + termPage k.onScreen) := by
  unfold sysVidmap at h
  split at h
  · cases h
    exact .inl ⟨rfl, rfl⟩
  · split at h
    · cases h
    · cases h
      refine .inr ⟨rfl, rfl, ?_⟩
      have hpage := termPage_eq k.onScreen
      dsimp only
      rw [Function.update_self]
      exact wordAt_storeAt _ _ (by omega)

private theorem sysVidmap_userMem {screenStart : Nat} {r : Int} (h : sysVidmap k screenStart = some (k', r)) :
    k' = { k with userMem := k'.userMem } := by
  rcases sysVidmap_cases h with ⟨rfl, -⟩ | ⟨-, hk, -⟩
  · rfl
  · exact hk

private theorem storePhysical_screens (h : ScreensOk k) (pa : Nat) (b : UInt8) : ScreensOk (storePhysical k pa b) := by
  unfold storePhysical
  split
  · exact { h with inGrid := h.inGrid }
  · exact { h with }

private theorem storePhysical_fields (k : Kernel) (pa : Nat) (b : UInt8) :
    (storePhysical k pa b).paging = k.paging ∧ (storePhysical k pa b).onScreen = k.onScreen := by
  unfold storePhysical
  split
  · exact ⟨rfl, rfl⟩
  · exact ⟨rfl, rfl⟩

/-- A page that shows a screen is a video page. -/
private theorem screenBase_video (k : Kernel) (t : Fin 3) :
    mainVideo ≤ screenBase k t ∧ screenBase k t + 4096 ≤ 0xBC000 := by
  have hpage := termPage_eq t
  have hmain : mainVideo = 0xB8000 := rfl
  unfold screenBase
  split <;> omega

/-- A store of a user program changes a byte of a screen exactly if its address is that of the byte in the user's
mapping of the video pages. -/
private theorem userStore_screenOf (h : UserMapped a k.paging p) {v : UInt32} {b : UInt8}
    (hstore : userStore a k v b = some k') (t : Fin 3) (i : Fin 4000) :
    screenOf k' t i = if v.toNat = 0x8400000 + screenBase k t + i then b else screenOf k t i := by
  obtain ⟨pa, hwalk, rfl⟩ := Option.map_eq_some_iff.1 hstore
  rw [userWalk_of_mapped h _ v.toNat_lt] at hwalk
  obtain ⟨hlo, hhi⟩ := screenBase_video k t
  have hmain : mainVideo = 0xB8000 := rfl
  have hi := i.isLt
  have hbase : screenBase (storePhysical k pa b) t = screenBase k t := by
    rw [screenBase, (storePhysical_fields k pa b).2, screenBase]
  rw [screenOf, hbase]
  -- the user's page, which is above the video memory, or the video pages
  split_ifs at hwalk with huser hvideo
  · have hpa := Option.some.inj hwalk
    rw [storePhysical, if_neg (by omega), if_neg (by omega), screenOf]
  · have hpa := Option.some.inj hwalk
    rw [storePhysical, if_pos (by omega)]
    by_cases hhit : v.toNat = 0x8400000 + screenBase k t + i
    · have hcell : screenBase k t + i = pa := by omega
      rw [if_pos hhit, hcell]
      exact Function.update_self _ _ _
    · have hcell : screenBase k t + i ≠ pa := by omega
      rw [if_neg hhit]
      exact Function.update_of_ne hcell _ _

end Store

/-! ### The page tables -/

/-- The page tables map the page of some process. -/
def Mapped (a : TableAddrs) (k : Kernel) : Prop := ∃ p, UserMapped a k.paging p

section Mapped

variable {a : TableAddrs} {k k' : Kernel}

theorem Mapped.same (h : Mapped a k) (hpaging : k'.paging = k.paging) : Mapped a k' := by
  rw [Mapped, hpaging]
  exact h

theorem Mapped.update (h : Mapped a k) {p : Fin 6} (hpaging : k'.paging = updateUserAddr k.paging p.val) :
    Mapped a k' := by
  obtain ⟨q, hq⟩ := h
  rw [Mapped, hpaging]
  exact ⟨p, updateUserAddr_mapped hq p⟩

private theorem sysExecute_mapped (h : Mapped a k) (command : Option (List UInt8)) (frame : Frame) :
    Mapped a (sysExecute k command frame).1 := by
  cases hres : (sysExecute k command frame).2 with
  | error => exact h.same (sysExecute_failed hres).paging
  | launched eip => exact h.update (sysExecute_launched hres).paging
  | faulted =>
    obtain hsame | hupdate := (sysExecute_faulted hres).paging
    · exact h.same hsame
    · exact h.update hupdate

private theorem sysHalt_mapped (h : Mapped a k) (status : UInt8) (frame : Frame) :
    Mapped a (sysHalt k status frame).1 := by
  have hrel : Mapped a (released k) := h.same (released_spec k).paging
  refine sysHalt_keeps hrel ?_ ?_
  · exact fun _ hk => sysExecute_mapped hk _ frame
  · exact fun _ hk => hk.update (haltReturn_spec _ status).paging

private theorem pitHandler_mapped (h : Mapped a k) (frame execFrame : Frame) :
    Mapped a (pitHandler k frame execFrame).1 := by
  refine pitHandler_keeps_of_processes h ?_ ?_
  · exact fun _ _ hsame hk => hk.same hsame.paging
  · exact fun _ hk => sysExecute_mapped hk _ execFrame

private theorem screenStep_mapped (h : Mapped a k) (e : ScreenEvent) : Mapped a (screenStep k e) := by
  cases e with
  | tick frame execFrame => exact pitHandler_mapped h frame execFrame
  | print | echo | erase | line => exact h
  | switch targetTerminal => exact h.same (switchTerminalKeypress_sameProcesses k targetTerminal).paging

private theorem entry_mapped (b : Boot) : Mapped b.addrs (entry b) := ⟨0, pagingInit_mapped b.addrs _⟩

/-- A store to a video page does not fault. -/
private theorem userStore_video (h : Mapped a k) {v : UInt32} (hv : 0x84B8000 ≤ v.toNat ∧ v.toNat < 0x84BC000)
    (b : UInt8) : userStore a k v b = some (storePhysical k (v.toNat - 0x8400000) b) := by
  obtain ⟨p, hp⟩ := h
  have huser : ¬(0x8000000 ≤ v.toNat ∧ v.toNat < 0x8400000) := by omega
  have hpa : 0xB8000 + (v.toNat - 0x84B8000) = v.toNat - 0x8400000 := by omega
  rw [userStore, userWalk_of_mapped hp _ v.toNat_lt, if_neg huser, if_pos hv, hpa]
  rfl

end Mapped

/-! ### Outputs -/

section Output

variable {k k' : Kernel}

/-- What a system call prints goes to the current terminal. -/
theorem SameDevices.onlyScreen (hk : ScreensOk k) (h : SameDevices k k') : OnlyScreen k k' k.currTerminal := by
  obtain ⟨text, htext⟩ := h.screen
  refine onlyScreen_of_stores h.onScreen ?_
  rw [htext]
  exact (puts_onlyScreen hk text).stores

private theorem sysHalt_onlyScreen (h : ScreensOk k) (status : UInt8) (frame : Frame) :
    OnlyScreen k (sysHalt k status frame).1 k.currTerminal := by
  have hrel := released_spec k
  -- what the relaunch of a shell prints
  have hexecuted : ∀ k₁ k₂, SameDevices (released k) k₁ → k₂.screen = k₁.screen → k₂.onScreen = k₁.onScreen →
      OnlyScreen k k₂ k.currTerminal := by
    intro k₁ k₂ hsame hscreen hon
    have hstores := (hsame.onlyScreen (released_screens h)).stores
    rw [screenBase, hrel.screen, hrel.onScreen, hrel.currTerminal, ← hscreen] at hstores
    exact onlyScreen_of_stores (hon.trans (hsame.onScreen.trans hrel.onScreen)) hstores
  have hend := sysHalt_ended k status frame
  generalize (sysHalt k status frame).1 = k', (sysHalt k status frame).2 = res at hend ⊢
  cases hend with
  | other _ hreturn =>
    refine onlyScreen_of_stores (hreturn.onScreen.trans hrel.onScreen) ?_
    rw [hreturn.screen, hrel.screen]
    exact .refl _ _ _
  | failed _ hfail hreturn => exact hexecuted _ _ hfail.toSameDevices hreturn.screen hreturn.onScreen
  | relaunched _ hlaunch => exact hexecuted _ _ hlaunch.toSameDevices rfl rfl
  | faulted _ hfault => exact hexecuted _ _ hfault.toSameDevices rfl rfl

/-- An event changes the screen of no other terminal than the one it prints on. -/
private theorem screenStep_others (h : ScreensOk k) (e : ScreenEvent) {u : Fin 3} (hu : some u ≠ printsOn k e)
    (i : Fin 4000) : screenOf (screenStep k e) u i = screenOf k u i := by
  have hi : i.val < 4096 := by omega
  have hisolated := (screenStep_isolated h e).2
  cases e with
  | tick frame execFrame => exact hisolated.2.others u (fun heq => hu (congrArg some heq)) i hi
  | print | echo | erase => exact hisolated.others u (fun heq => hu (congrArg some heq)) i hi
  | switch | line => exact hisolated u i hi

end Output

/-! ### Steps -/

/-- The screens and the tables are right, and the pages that have been returned are those of the terminals. -/
structure DrawingOk (a : TableAddrs) (s : Drawing Program) : Prop where
  screens : ScreensOk s.kernel
  mapped : Mapped a s.kernel
  pages : ∀ p, ∀ page ∈ s.pages p, ∃ t, page = 0x8400000 + termPage t

section Step

variable {a : TableAddrs} {terminal : Program → Fin 3} {s s' : Drawing Program} {k : Kernel}

/-- What is still drawn after an output was drawn before, and the output has not changed it. -/
private theorem goOn_drawn {t : Option (Fin 3)} {u : Fin 3} {i : Fin 4000} {b : UInt8}
    (h : (s.goOn k t).drawn u i = some b) :
    s.drawn u i = some b ∧ (some u = t → screenOf k u i = screenOf s.kernel u i) := by
  have hdrawn : (if some u = t ∧ screenOf k u i ≠ screenOf s.kernel u i then none else s.drawn u i) = some b := h
  split at hdrawn
  · cases hdrawn
  · next hout => exact ⟨hdrawn, fun hu => not_not.1 fun hne => hout ⟨hu, hne⟩⟩

private theorem goOn_shown (h : s.Shown) {t : Option (Fin 3)}
    (hothers : ∀ u, some u ≠ t → ∀ i : Fin 4000, screenOf k u i = screenOf s.kernel u i) : (s.goOn k t).Shown := by
  intro u i b hdrawn
  obtain ⟨hbefore, hsame⟩ := goOn_drawn hdrawn
  have hkept : screenOf k u i = screenOf s.kernel u i := by
    by_cases hu : some u = t
    · exact hsame hu
    · exact hothers u hu i
  exact hkept.trans (h u i b hbefore)

private theorem written_drawn_of_ne (p : Program) {t u : Fin 3} (hu : u ≠ t) (v : UInt32) (b : UInt8) (i : Fin 4000) :
    (s.written p t v b k).drawn u i = s.drawn u i := by
  have hdrawn : ¬(u = t ∧ s.At p v i) := fun h => hu h.1
  have hout : ¬(some u = some t ∧ screenOf k u i ≠ screenOf s.kernel u i) := fun h => hu (Option.some.inj h.1)
  exact (if_neg hdrawn).trans (if_neg hout)

/-- A page that has been returned shows a screen only while its terminal is not on screen. -/
private theorem DrawingOk.base_of_at (h : DrawingOk a s) {p : Program} {v : UInt32} {i : Fin 4000} (hat : s.At p v i)
    {t : Fin 3} (hv : v.toNat = 0x8400000 + screenBase s.kernel t + i) : t ≠ s.kernel.onScreen := by
  obtain ⟨page, hpage, hoff⟩ := hat
  obtain ⟨u, rfl⟩ := h.pages p page hpage
  have hterm := termPage_eq u
  rintro rfl
  rw [screenBase, if_pos rfl, mainVideo] at hv
  omega

private theorem write_shown_iff (h : DrawingOk a s) (hshown : s.Shown) {p : Program} {v : UInt32} {b : UInt8}
    (hstore : userStore a s.kernel v b = some k) :
    (s.written p (terminal p) v b k).Shown ↔ DrawsOnScreen terminal s (.write p v b) := by
  obtain ⟨q, hq⟩ := h.mapped
  have hscreen := userStore_screenOf hq hstore
  constructor
  · refine fun hnew => ⟨fun i hat => ?_, fun u hu i c hv hdrawn => ?_⟩
    -- what has just been drawn is shown: the store went to the screen, or it was there already
    · have hbyte := hnew (terminal p) i b (if_pos ⟨rfl, hat⟩)
      have hbyte' : screenOf k (terminal p) i = b := hbyte
      rw [hscreen] at hbyte'
      by_cases hv : v.toNat = 0x8400000 + screenBase s.kernel (terminal p) + i
      · have hoff := h.base_of_at hat hv
        rw [screenBase, if_neg hoff] at hv
        exact .inl ⟨hoff, hv⟩
      · rw [if_neg hv] at hbyte'
        exact .inr hbyte'
    · have hbyte : screenOf k u i = c := hnew u i c ((written_drawn_of_ne p hu v b i).trans hdrawn)
      rw [hscreen, if_pos hv] at hbyte
      exact hbyte.symm
  · rintro ⟨hown, hother⟩ u i c hdrawn
    show screenOf k u i = c
    by_cases hu : u = terminal p
    · subst hu
      -- drawn by this store, or before it on this terminal
      by_cases hat : s.At p v i
      · have hc : some b = some c := (if_pos ⟨rfl, hat⟩).symm.trans hdrawn
        rw [hscreen, ← Option.some.inj hc]
        split
        · rfl
        · next hmiss =>
          refine (hown i hat).resolve_left fun hhit => hmiss ?_
          rw [screenBase, if_neg hhit.1]
          exact hhit.2
      · have hkept : (s.goOn k (some (terminal p))).drawn (terminal p) i = some c :=
          (if_neg fun hdraws => hat hdraws.2).symm.trans hdrawn
        obtain ⟨hbefore, hsame⟩ := goOn_drawn hkept
        exact (hsame rfl).trans (hshown _ i c hbefore)
    · rw [written_drawn_of_ne p hu] at hdrawn
      rw [hscreen]
      split
      · next hhit => exact (hother u hu i c hhit hdrawn).symm
      · exact hshown u i c hdrawn

variable [DecidableEq Program]

private theorem mapped_ok (h : DrawingOk a s) {p : Program} {screenStart : Nat} {r : Int}
    (hcall : sysVidmap s.kernel screenStart = some (k, r)) : DrawingOk a (s.mapped p screenStart k r) := by
  have hk := sysVidmap_userMem hcall
  have hpaging : k.paging = s.kernel.paging := by rw [hk]
  refine ⟨?_, h.mapped.same hpaging, fun q page hq => ?_⟩
  · show ScreensOk k
    rw [hk]
    exact { h.screens with }
  · rcases sysVidmap_cases hcall with ⟨-, rfl⟩ | ⟨rfl, -, hpage⟩
    · exact h.pages q page hq
    · have hpid : k.pidCounter = s.kernel.pidCounter := by rw [hk]
      have hq' : page ∈ Function.update s.pages p
          (wordAt (k.userMem k.pidCounter) (screenStart - 0x8000000) :: s.pages p) q := hq
      by_cases hqp : q = p
      · rw [hqp, Function.update_self, hpid, hpage, List.mem_cons] at hq'
        rcases hq' with rfl | hold
        · exact ⟨_, rfl⟩
        · exact h.pages p page hold
      · rw [Function.update_of_ne hqp] at hq'
        exact h.pages q page hq'

private theorem drawStep_ok {e : DrawEvent Program} (h : DrawingOk a s) (hstep : DrawStep a terminal s e s') :
    DrawingOk a s' := by
  cases hstep with
  | screen => exact ⟨(screenStep_isolated h.screens _).1, screenStep_mapped h.mapped _, h.pages⟩
  | execute => exact ⟨sysExecute_screens h.screens _ _, sysExecute_mapped h.mapped _ _, h.pages⟩
  | halt => exact ⟨sysHalt_screens h.screens _ _, sysHalt_mapped h.mapped _ _, h.pages⟩
  | vidmap hcall => exact mapped_ok h hcall
  | write hstore =>
    obtain ⟨pa, -, rfl⟩ := Option.map_eq_some_iff.1 hstore
    exact ⟨storePhysical_screens h.screens _ _, h.mapped.same (storePhysical_fields _ _ _).1, h.pages⟩

private theorem drawStep_shown_iff {e : DrawEvent Program} (h : DrawingOk a s) (hshown : s.Shown)
    (hstep : DrawStep a terminal s e s') : s'.Shown ↔ DrawsOnScreen terminal s e := by
  -- an output on the current terminal
  have hcurrent : ∀ k, OnlyScreen s.kernel k s.kernel.currTerminal → (s.goOn k (some s.kernel.currTerminal)).Shown :=
    fun k honly => goOn_shown hshown fun u hu i => honly.others u (fun heq => hu (congrArg some heq)) i (by omega)
  cases hstep with
  | screen => exact iff_of_true (goOn_shown hshown fun u hu i => screenStep_others h.screens _ hu i) trivial
  | execute =>
    exact iff_of_true (hcurrent _ ((sysExecute_sameDevices _ _ _).onlyScreen h.screens)) trivial
  | halt => exact iff_of_true (hcurrent _ (sysHalt_onlyScreen h.screens _ _)) trivial
  | vidmap hcall =>
    refine iff_of_true (fun t i b hdrawn => ?_) trivial
    have hbefore : screenOf s.kernel t i = b := hshown t i b hdrawn
    rw [Drawing.mapped, sysVidmap_userMem hcall]
    exact hbefore
  | write hstore => exact write_shown_iff h hshown hstore

end Step

/-! ### Runs -/

/-- At boot nothing has been drawn. -/
def drawing₀ (Program : Type*) (b : Boot) : Drawing Program := ⟨entry b, fun _ => [], fun _ _ => none⟩

private theorem drawing₀_ok (b : Boot) : DrawingOk b.addrs (drawing₀ Program b) :=
  ⟨{ startTerminals_boot b with inGrid := Screen.clear_inGrid _ _ }, entry_mapped b,
    fun _ _ hpage => absurd hpage List.not_mem_nil⟩

/-- What programs draw through `sys_vidmap` is shown.  In every run from boot whose stores all meet the condition, what
the programs of a terminal have drawn is on its screen, until it is overwritten; and the next store keeps it so exactly
if it meets the condition. -/
theorem vidmap_shown_iff [DecidableEq Program] {b : Boot} {terminal : Program → Fin 3}
    {events : List (DrawEvent Program)} {s : Drawing Program}
    (hrun : Run (Guarded (DrawsOnScreen terminal) (DrawStep b.addrs terminal)) (drawing₀ Program b) events s) :
    s.Shown ∧ ∀ e s', DrawStep b.addrs terminal s e s' → (s'.Shown ↔ DrawsOnScreen terminal s e) := by
  have hok : ∀ s e s', DrawingOk b.addrs s → s.Shown → DrawsOnScreen terminal s e → DrawStep b.addrs terminal s e s' →
      DrawingOk b.addrs s' := fun _ _ _ hs _ _ hstep => drawStep_ok hs hstep
  have hshown : ∀ s e s', DrawingOk b.addrs s → s.Shown → DrawStep b.addrs terminal s e s' →
      (s'.Shown ↔ DrawsOnScreen terminal s e) := fun _ _ _ hs hq hstep => drawStep_shown_iff hs hq hstep
  have hnothing : (drawing₀ Program b).Shown := by
    intro t i c hdrawn
    cases hdrawn
  exact hrun.guarded_exact hok hshown (drawing₀_ok b) hnothing

end Drawing

/-! ### The first shell draws -/

/-- The first shell calls `sys_vidmap`. -/
def shellMaps : Drawing Unit :=
  let r := (sysVidmap firstShell 0x8000000).getD (firstShell, 0)
  ((drawing₀ Unit shellBoot).goOn firstShell (printsOn (entry shellBoot) (.tick frame₀ frame₀))).mapped ()
    0x8000000 r.1 r.2

/-- It draws an `A` in the page it has got. -/
def shellDraws (s : Drawing Unit) : Drawing Unit := s.written () 0 0x84B9000 0x41 (storePhysical s.kernel 0xB9000 0x41)

/-- Alt-F2. -/
def secondTerminal (s : Drawing Unit) : Drawing Unit := s.goOn (switchTerminalKeypress s.kernel 1) none

private theorem sysVidmap_first (k : Kernel) :
    sysVidmap k 0x8000000 = some ((sysVidmap k 0x8000000).getD (k, 0)) := by
  simp [sysVidmap]

/-- The events up to the call, all of them without a store. -/
private theorem shellMaps_run :
    Run (Guarded (DrawsOnScreen fun _ => 0) (DrawStep shellBoot.addrs fun _ => 0)) (drawing₀ Unit shellBoot)
      ([] ++ [.screen (.tick frame₀ frame₀)] ++ [.vidmap () 0x8000000]) shellMaps := by
  refine .snoc (.snoc (.nil _) ⟨trivial, .screen⟩) ⟨trivial, ?_⟩
  have hcall := sysVidmap_first firstShell
  unfold shellMaps
  unfold firstShell at hcall ⊢
  exact .vidmap hcall

private theorem shellMaps_ok : DrawingOk shellBoot.addrs shellMaps :=
  Run.invariant (P := DrawingOk shellBoot.addrs) (fun _ _ _ hs hstep => drawStep_ok hs hstep) shellMaps_run.unguarded
    (drawing₀_ok shellBoot)

private theorem shellMaps_drawn (u : Fin 3) (i : Fin 4000) (c : UInt8) : shellMaps.drawn u i ≠ some c := by
  intro hdrawn
  unfold shellMaps Drawing.mapped at hdrawn
  have hboot := (goOn_drawn hdrawn).1
  cases hboot

private theorem secondTerminal_step (s : Drawing Unit) :
    DrawStep shellBoot.addrs (fun _ => 0) s (.screen (.switch 1)) (secondTerminal s) := .screen

private theorem shellDraws_step {s : Drawing Unit} (h : DrawingOk shellBoot.addrs s) :
    DrawStep shellBoot.addrs (fun _ => 0) s (.write () 0x84B9000 0x41) (shellDraws s) :=
  .write (userStore_video h.mapped ⟨by decide, by decide⟩ 0x41)

private theorem draws_of_page {s : Drawing Unit} (hpages : s.pages () = [0x84B9000]) (hoff : s.kernel.onScreen ≠ 0)
    (hnothing : ∀ u i c, s.drawn u i ≠ some c) : DrawsOnScreen (fun _ => 0) s (.write () 0x84B9000 0x41) := by
  refine ⟨fun i hat => .inl ⟨fun heq => hoff heq.symm, ?_⟩, fun u _ i c _ hdrawn => absurd hdrawn (hnothing u i c)⟩
  obtain ⟨page, hpage, hv⟩ := hat
  rw [hpages, List.mem_singleton] at hpage
  rw [hpage] at hv
  exact hv

/-- While the second terminal is on screen, what the first shell draws is on its screen. -/
theorem shellDraws_shown :
    let s := shellDraws (secondTerminal shellMaps)
    s.drawn 0 0 = some 0x41 ∧ s.Shown ∧
      ∀ e s', DrawStep shellBoot.addrs (fun _ => 0) s e s' → (s'.Shown ↔ DrawsOnScreen (fun _ => 0) s e) := by
  intro s
  have hpages : (secondTerminal shellMaps).pages () = [0x84B9000] := by decide +kernel
  have hoff : (secondTerminal shellMaps).kernel.onScreen ≠ 0 := by decide +kernel
  have hdrawn : s.drawn 0 0 = some 0x41 := by decide +kernel
  have hswitch := secondTerminal_step shellMaps
  have hdraws := draws_of_page hpages hoff fun u i c h => shellMaps_drawn u i c (goOn_drawn h).1
  have hsilent : DrawsOnScreen (fun _ => 0) shellMaps (.screen (.switch 1)) := trivial
  have hrun := (shellMaps_run.snoc ⟨hsilent, hswitch⟩).snoc ⟨hdraws, shellDraws_step (drawStep_ok shellMaps_ok hswitch)⟩
  exact ⟨hdrawn, vidmap_shown_iff hrun⟩

/-- While its own terminal is on screen, what the first shell draws cannot be seen, and the next switch erases it. -/
theorem shell_draws_unseen :
    let s := shellDraws shellMaps
    Run (DrawStep shellBoot.addrs fun _ => 0) (drawing₀ Unit shellBoot)
        [.screen (.tick frame₀ frame₀), .vidmap () 0x8000000, .write () 0x84B9000 0x41] s ∧
      (firstShell.terminals 0).top = firstShell.pidCounter.val ∧ s.kernel.onScreen = 0 ∧
      shellMaps.pages () = [0x84B9000] ∧ s.drawn 0 0 = some 0x41 ∧ screenOf s.kernel 0 0 = 0x54 ∧ ¬s.Shown ∧
      (secondTerminal s).drawn 0 0 = some 0x41 ∧ screenOf (secondTerminal s).kernel 0 0 = 0x54 := by
  intro s
  have hrun := shellMaps_run.unguarded.snoc (shellDraws_step shellMaps_ok)
  have hdrawn : s.drawn 0 0 = some 0x41 := by decide +kernel
  have hscreen : screenOf s.kernel 0 0 = 0x54 := by decide +kernel
  have hhidden : ¬s.Shown := by
    intro hshown
    have hbyte : screenOf s.kernel 0 0 = 0x41 := hshown 0 0 0x41 hdrawn
    rw [hscreen] at hbyte
    exact absurd hbyte (by decide)
  exact ⟨hrun, by decide +kernel, by decide +kernel, by decide +kernel, hdrawn, hscreen, hhidden, by decide +kernel,
    by decide +kernel⟩

end BigChungOS
